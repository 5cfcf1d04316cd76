/-
  Esolang.Proofs.Befunge.Walk
  ───────────────────────────
  **A POINTER THAT IS NOT TURNED GOES ROUND A CIRCLE.**

  As long as nothing turns it, the pointer stays on one row or on one column, and
  comes back to its place when it has gone once around the torus.  So the place that
  it comes to is told by counting: the moves are added to the coordinates, and whole
  turns are taken off.

    • `around` — the place so far along a circle, in either sense,
    • `Pointer.ahead` — the place so many moves ahead, by counting,
    • `ahead_succ` — one more move leads to the next of these places,
    • `ahead_turns` — a whole turn leads back to the same place.
-/
import Esolang.Proofs.Befunge.Torus

namespace Esolang.Befunge

/-! ## §1. Circles. -/

/-- The place that lies `delta` places further on a circle of `extent` places; a negative
`delta` goes back. -/
def around (extent place : Nat) (delta : Int) : Nat :=
  ((place + delta) % extent).toNat

section
variable {extent : Nat}

/-- The place that a torus comes to is the sum, taken modulo the extent. -/
theorem cast_around (pos : 0 < extent) (place : Nat) (delta : Int) :
    (around extent place delta : Int) = (place + delta) % extent := by
  unfold around
  have nonneg : 0 ≤ ((place : Int) + delta) % extent := Int.emod_nonneg _ (by omega)
  exact Int.toNat_of_nonneg nonneg

/-- It lies on the torus again, however far one goes. -/
theorem around_lt (pos : 0 < extent) (place : Nat) (delta : Int) :
    around extent place delta < extent := by
  have lt : ((place : Int) + delta) % extent < extent := Int.emod_lt_of_pos _ (by omega)
  rw [← cast_around pos] at lt
  omega

/-- Whoever does not move stays. -/
theorem around_zero {place : Nat} (lt : place < extent) : around extent place 0 = place := by
  unfold around
  rw [Int.add_zero, Int.emod_eq_of_lt (by omega) (by omega)]
  exact Int.toNat_natCast place

/-- Ways along a circle add up. -/
theorem around_around (pos : 0 < extent) (place : Nat) (delta delta' : Int) :
    around extent (around extent place delta) delta' = around extent place (delta + delta') := by
  show (((around extent place delta : Int) + delta') % extent).toNat = _
  rw [cast_around pos, Int.emod_add_emod, Int.add_assoc]
  rfl

/-- Whole turns do not count. -/
theorem around_turns (extent place : Nat) (delta turns : Int) :
    around extent place (delta + extent * turns) = around extent place delta := by
  unfold around
  rw [← Int.add_assoc, Int.add_mul_emod_self_left]

/-- One step forth is one place further around. -/
theorem forth_eq (extent place : Nat) :
    Pointer.forth extent place = around extent place 1 := by
  show (place + 1) % extent = (((place : Int) + 1) % extent).toNat
  rw [show (place : Int) + 1 = ((place + 1 : Nat) : Int) from rfl, ← Int.natCast_emod,
    Int.toNat_natCast]

/-- To go back is to go on for a whole turn but one place. -/
theorem back_eq (pos : 0 < extent) (place : Nat) :
    Pointer.back extent place = around extent place (-1) := by
  have turned : around extent place (-1) = around extent place (-1 + extent * 1) :=
    (around_turns extent place (-1) 1).symm
  have sum : (place : Int) + (-1 + extent * 1) = ((place + extent - 1 : Nat) : Int) := by omega
  rw [turned]
  show (place + extent - 1) % extent = (((place : Int) + (-1 + extent * 1)) % extent).toNat
  rw [sum, ← Int.natCast_emod, Int.toNat_natCast]

end

/-! ## §2. Moves ahead. -/

/-- What one move adds to the column and to the row. -/
def Direction.delta : Direction → Int × Int
  | .right => (1, 0)
  | .left => (-1, 0)
  | .up => (0, -1)
  | .down => (0, 1)

/-- Number of places on the circle that a direction goes round. -/
def Grid.extent (g : Grid) : Direction → Nat
  | .right | .left => g.width
  | .up | .down => g.height

namespace Pointer

/-- The place that the pointer comes to by `n` moves. -/
def ahead (g : Grid) (n : Nat) (p : Pointer) : Pointer :=
  ⟨around g.width p.x (n * p.direction.delta.1), around g.height p.y (n * p.direction.delta.2),
    p.direction⟩

@[simp] theorem direction_ahead (g : Grid) (n : Nat) (p : Pointer) :
    (p.ahead g n).direction = p.direction := rfl

section
variable {g : Grid} {p : Pointer}

/-- A grid with a pointer on it has a column. -/
theorem On.width_pos (here : p.On g) : 0 < g.width :=
  Nat.lt_of_le_of_lt (Nat.zero_le _) here.x_lt

/-- It has a row. -/
theorem On.height_pos (here : p.On g) : 0 < g.height :=
  Nat.lt_of_le_of_lt (Nat.zero_le _) here.y_lt

/-- So there is at least one place along the direction of the pointer. -/
theorem On.extent_pos (here : p.On g) : 0 < g.extent p.direction := by
  unfold Grid.extent
  cases p.direction with
  | right | left => exact here.width_pos
  | up | down => exact here.height_pos

/-- To go ahead does not lead off the grid. -/
theorem On.ahead (here : p.On g) (n : Nat) : (p.ahead g n).On g :=
  ⟨around_lt here.width_pos _ _, around_lt here.height_pos _ _⟩

/-- No steps ahead is where the pointer stands. -/
theorem ahead_zero (here : p.On g) : p.ahead g 0 = p := by
  unfold Pointer.ahead
  rw [show ((0 : Nat) : Int) = 0 from rfl, Int.zero_mul, Int.zero_mul, around_zero here.x_lt,
    around_zero here.y_lt]

/-- Steps ahead add up, also around the edge. -/
theorem ahead_ahead (here : p.On g) (m n : Nat) :
    (p.ahead g m).ahead g n = p.ahead g (m + n) := by
  have sum (d : Int) : (m : Int) * d + n * d = (m + n : Nat) * d := by
    rw [← Int.add_mul]
    rfl
  show Pointer.mk (around g.width (around g.width p.x _) (n * p.direction.delta.1))
    (around g.height (around g.height p.y _) (n * p.direction.delta.2)) p.direction = _
  rw [around_around here.width_pos, around_around here.height_pos, sum, sum]
  rfl

/-- One move leads to the first place ahead. -/
theorem advance_eq_ahead (here : p.On g) : p.advance g = p.ahead g 1 := by
  obtain ⟨x, y, direction⟩ := p
  have x_still : around g.width x 0 = x := around_zero here.x_lt
  have y_still : around g.height y 0 = y := around_zero here.y_lt
  cases direction with
  | right =>
    show Pointer.mk (forth g.width x) y .right = ⟨around g.width x 1, around g.height y 0, .right⟩
    rw [forth_eq, y_still]
  | left =>
    show Pointer.mk (back g.width x) y .left = ⟨around g.width x (-1), around g.height y 0, .left⟩
    rw [back_eq here.width_pos, y_still]
  | up =>
    show Pointer.mk x (back g.height y) .up = ⟨around g.width x 0, around g.height y (-1), .up⟩
    rw [back_eq here.height_pos, x_still]
  | down =>
    show Pointer.mk x (forth g.height y) .down = ⟨around g.width x 0, around g.height y 1, .down⟩
    rw [forth_eq, x_still]

/-- **One more move leads to the next place ahead.** -/
theorem ahead_succ (here : p.On g) (n : Nat) : (p.ahead g n).advance g = p.ahead g (n + 1) := by
  rw [advance_eq_ahead (here.ahead n), ahead_ahead here]

/-- The places ahead of the next place. -/
theorem ahead_advance (here : p.On g) (n : Nat) : (p.advance g).ahead g n = p.ahead g (n + 1) := by
  rw [advance_eq_ahead here, ahead_ahead here, Nat.add_comm 1 n]

/-- **A whole turn leads back to the same place.** -/
theorem ahead_turns (g : Grid) (p : Pointer) (n : Nat) :
    p.ahead g (n + g.extent p.direction) = p.ahead g n := by
  obtain ⟨x, y, direction⟩ := p
  -- The extent is added to one coordinate, with a sign, and the other one stays.
  have turn (extent place : Nat) (d : Int) :
      around extent place ((n + extent : Nat) * d) = around extent place (n * d) := by
    rw [Int.natCast_add, Int.add_mul, around_turns]
  have stay (extent place k : Nat) : around extent place (k * 0) = around extent place 0 := by
    rw [Int.mul_zero]
  unfold ahead Grid.extent
  cases direction <;> simp only [Direction.delta, turn, stay]

/-- The row that a direction along the rows goes round, and the column that one along the
columns does. -/
def OnLine (p : Pointer) (column row : Nat) : Prop :=
  match p.direction with
  | .right | .left => row = p.y
  | .up | .down => column = p.x

/-- The places ahead lie on one line. -/
theorem onLine_ahead (here : p.On g) (n : Nat) : p.OnLine (p.ahead g n).x (p.ahead g n).y := by
  obtain ⟨x, y, direction⟩ := p
  have still : (n : Int) * 0 = 0 := Int.mul_zero _
  cases direction with
  | right | left =>
    show around g.height y (n * 0) = y
    rw [still, around_zero here.y_lt]
  | up | down =>
    show around g.width x (n * 0) = x
    rw [still, around_zero here.x_lt]

end

end Pointer

end Esolang.Befunge
