/-
  Esolang.Proofs.Befunge.Range
  ────────────────────────────
  **BEFUNGE STAYS IN RANGE.**

  A grid is no wider and no higher than its text is long, and stays as it is.  So
  the cell under the pointer is always there, and what a move adds to a coordinate
  before it wraps around is a 64-bit number for every text that fits in memory.

    • `width_ofSource_le`, `height_ofSource_le` — how large a grid can be,
    • `State.InRange.next` — one cycle keeps pointer, grid and input in range,
    • `inRange` — all of this, for every text and every state of every run,
      whatever directions are drawn.
-/
import Esolang.Proofs.Befunge.Torus
import Esolang.Proofs.Machine.Course
import Esolang.Proofs.Memory.Division

namespace Esolang.Befunge

open Esolang.Machine (Input Effect)
open Esolang.Source (lines byteSize)

/-! ## §1. The extents of a grid. -/

namespace Grid

theorem prefix_dropReturn (line : List Char) : dropReturn line <+: line := by
  unfold dropReturn
  split
  · exact List.dropLast_prefix line
  · exact List.prefix_rfl

/-- The widest of some rows is no wider than all of them may be. -/
theorem widest_le {bound : Nat} (rows : List (List Char)) :
    ∀ width, width ≤ bound → (∀ row ∈ rows, row.length ≤ bound) →
      rows.foldl (fun widest row => max widest row.length) width ≤ bound := by
  induction rows with
  | nil =>
    intro width le _
    exact le
  | cons row rows ih =>
    intro width le all
    obtain ⟨here, behind⟩ := List.forall_mem_cons.mp all
    exact ih (max width row.length) (by omega) behind

theorem width_ofSource_le (source : String) :
    (ofSource source).width ≤ byteSize source.toList + 1 := by
  have bytes := Source.length_le_byteSize source.toList
  refine widest_le _ 1 (by omega) ?_
  intro row mem
  obtain ⟨line, found, rfl⟩ := List.mem_map.mp mem
  have kept := (prefix_dropReturn line).length_le
  have inside := Source.length_le_of_mem_lines found
  omega

theorem height_ofSource_le (source : String) :
    (ofSource source).height ≤ byteSize source.toList + 1 := by
  have rows := height_ofSource source
  have bytes := Source.length_le_byteSize source.toList
  have newlines := Source.length_lines_le source.toList
  omega

end Grid

/-! ## §2. Directions. -/

/-- A word of 64 bits has four values in its two highest. -/
theorem getElem?_all_ofWord (word : UInt64) :
    Direction.all[(word >>> 62).toNat]? = some (Draws.ofWord word) := by
  have lt : (word >>> 62).toNat < 4 := by
    have size : word.toNat < 2 ^ 64 := word.toNat_lt
    rw [UInt64.toNat_shiftRight]
    show word.toNat >>> 62 < 4
    rw [Nat.shiftRight_eq_div_pow]
    omega
  unfold Draws.ofWord
  generalize (word >>> 62).toNat = n at lt
  match n, lt with
  | 0, _ => rfl
  | 1, _ => rfl
  | 2, _ => rfl
  | 3, _ => rfl

/-! ## §3. States. -/

/-- What a state may be in a run of `source` on `input`. -/
structure State.InRange (source : String) (input : Input) (s : State) : Prop where
  /-- The grid has the extents that it was read with, and the pointer stands on it. -/
  grid : OnGrid (Grid.ofSource source).width (Grid.ofSource source).height s
  /-- The cell that is executed is there. -/
  cell : s.grid.get? s.pointer.x s.pointer.y = some s.symbol
  /-- Whichever way the pointer goes, a cell is there. -/
  walk : ∀ directions,
    ∃ c, s.grid.get? (s.pointer.walk s.grid directions).x
      (s.pointer.walk s.grid directions).y = some c
  /-- Neither sum that a move takes the remainder of is too large, if the text fits in
  memory. -/
  sums : byteSize source.toList < UInt64.size / 2 →
    s.pointer.x + s.grid.width < UInt64.size ∧ s.pointer.y + s.grid.height < UInt64.size
  /-- What is left of the input is its end. -/
  input : s.input.rest <:+ input.rest

section
variable {source : String} {input : Input} {s s' : State}

theorem OnGrid.exists_get? {width height : Nat} (here : OnGrid width height s)
    (directions : List Direction) :
    ∃ c, s.grid.get? (s.pointer.walk s.grid directions).x
      (s.pointer.walk s.grid directions).y = some c := by
  have there := here.pointer.walk directions
  exact here.full.exists_get? there.x_lt there.y_lt

theorem State.InRange.of_onGrid
    (here : OnGrid (Grid.ofSource source).width (Grid.ofSource source).height s)
    (suffix : s.input.rest <:+ input.rest) : s.InRange source input where
  grid := here
  cell := by
    obtain ⟨c, found⟩ := here.exists_get? []
    have cell : s.grid.get? s.pointer.x s.pointer.y = some c := found
    unfold State.symbol
    rw [cell]
    rfl
  walk := here.exists_get?
  sums fits := by
    have wide := Grid.width_ofSource_le source
    have high := Grid.height_ofSource_le source
    have size : UInt64.size = 2 ^ 64 := rfl
    have x_lt := here.pointer.x_lt
    have y_lt := here.pointer.y_lt
    have width := here.width
    have height := here.height
    omega
  input := suffix

theorem State.InRange.initial (source : String) (input : Input) :
    (State.initial source input).InRange source input :=
  .of_onGrid (.initial source input) (List.suffix_refl _)

/-- **What one cycle keeps.** -/
theorem State.InRange.next {draws : Draws} {cancelAt : Option Nat} (h : s.InRange source input)
    (hn : (machine draws cancelAt).next? s = some s') : s'.InRange source input := by
  obtain ⟨symbol, site, -, executed⟩ := Machine.next?_eq_some.mp hn
  obtain ⟨t, treads, rfl⟩ := advance_of_execute executed
  exact .of_onGrid (h.grid.treads treads).advance (treads.suffix_input.trans h.input)

end

/-- What comes of a text: in no state of a run is anything out of range, whatever
directions are drawn and whenever the run is cancelled, and every draw is a direction. -/
structure InRange (source : String) : Prop where
  state : ∀ draws cancelAt input n s,
    (machine draws cancelAt).after? n (.initial source input) = some s → s.InRange source input
  draw : ∀ word : UInt64, Direction.all[(word >>> 62).toNat]? = some (Draws.ofWord word)
  division : ∀ a b, Memory.Word.DivisionInRange a b

/-- **No text, no input and no draw takes the machine out of range.** -/
theorem inRange (source : String) : InRange source where
  state _ _ input _ _ hs :=
    Machine.after?_preserves (fun _ _ h hn => h.next hn) (.initial source input) hs
  draw := getElem?_all_ofWord
  division := Memory.Word.divisionInRange

end Esolang.Befunge
