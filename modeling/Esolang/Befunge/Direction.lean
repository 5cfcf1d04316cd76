/-
  Esolang.Befunge.Direction
  ─────────────────────────
  **DIRECTIONS, DRAWN AND CHOSEN.**

  The instruction pointer moves in one of four directions.  The instruction `?`
  takes the next direction of a sequence of draws: a script, or the output of a
  generator that multiplies 64-bit words.
-/

namespace Esolang.Befunge

/-! ## §1. Directions -/

/-- The directions of the instruction pointer. -/
inductive Direction where
  | right
  | left
  | up
  | down
  deriving DecidableEq, Repr

namespace Direction

/-- Every direction, in the order in which they are drawn. -/
def all : List Direction :=
  [.right, .left, .up, .down]

/-- The direction's name. -/
def name : Direction → String
  | .right => "Right"
  | .left => "Left"
  | .up => "Up"
  | .down => "Down"

/-- Finds a direction by its name. -/
def ofName? (text : String) : Option Direction :=
  all.find? fun direction => direction.name == text

end Direction

/-! ## §2. Draws -/

/-- A sequence of directions, numbered from zero. -/
abbrev Draws :=
  Nat → Direction

namespace Draws

/-- Goes through a script again and again; an empty one only says right. -/
def cycle (script : Array Direction) : Draws := fun k =>
  script[k % script.size]?.getD .right

/-- What is added to the generator's state before a draw. -/
def increment : UInt64 :=
  0x2d358dccaa6c78a5

/-- What a state is mixed with. -/
def mask : UInt64 :=
  0x8bb84b93962eacc9

/-- The generator's state at draw number `k`. -/
def state (seed : UInt64) (k : Nat) : UInt64 :=
  seed + UInt64.ofNat (k + 1) * increment

/-- Multiplies a state with its mixture and folds the product to 64 bits. -/
def scramble (s : UInt64) : UInt64 :=
  let product := s.toNat * (s ^^^ mask).toNat
  UInt64.ofNat (product % UInt64.size) ^^^ UInt64.ofNat (product / UInt64.size)

/-- The direction that the two highest bits of a word number. -/
def ofWord (word : UInt64) : Direction :=
  match (word >>> 62).toNat with
  | 0 => .right
  | 1 => .left
  | 2 => .up
  | _ => .down

/-- The directions drawn from a seed. -/
def seeded (seed : UInt64) : Draws := fun k =>
  ofWord (scramble (state seed k))

end Draws

end Esolang.Befunge
