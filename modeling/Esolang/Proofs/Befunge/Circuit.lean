/-
  Esolang.Proofs.Befunge.Circuit
  ──────────────────────────────
  **MOVES IN ONE DIRECTION GO ROUND A CIRCUIT.**

  A row of the torus is a circle, and so is a column.  Moves in one direction visit the
  cells of one of them in turn, each once, and come back to the first when there is no other
  left.  A move in the opposite direction takes a move back, so that no two cells lead to
  the same cell and every cell is led to.

    • `iterate_advance` — moves in one direction lead to the place that counting tells,
    • `cell_ahead_eq_iff` — two numbers of moves lead to the same cell if and only if whole
      turns lie between them,
    • `advance_opposite` — a move in the opposite direction takes a move back,
    • `bijOn_step` — a move in one direction permutes the cells of the grid,
    • **`goes_round`** — all of it, from every place on a grid.
-/
import Esolang.Proofs.Befunge.Walk
import Mathlib.Data.Int.ModEq
import Mathlib.Data.Set.Function
import Mathlib.Logic.Function.Iterate
import Mathlib.Order.Bounds.Basic

namespace Esolang.Befunge

/-! ## §1. Turns around a circle. -/

/-- Two ways along a circle lead to the same place if and only if whole turns lie between
them. -/
theorem around_eq_iff {extent : Nat} (pos : 0 < extent) (place : Nat) (delta delta' : Int) :
    around extent place delta = around extent place delta' ↔ delta ≡ delta' [ZMOD extent] := by
  rw [← Int.natCast_inj, cast_around pos, cast_around pos]
  constructor
  · intro same
    exact Int.ModEq.add_left_cancel' place same
  · intro turns
    exact Int.ModEq.add_left place turns

namespace Direction

/-- The direction that leads back. -/
def opposite : Direction → Direction
  | .right => .left
  | .left => .right
  | .up => .down
  | .down => .up

@[simp] theorem opposite_opposite (direction : Direction) :
    direction.opposite.opposite = direction := by
  cases direction <;> rfl

theorem delta_opposite (direction : Direction) :
    direction.opposite.delta = (-direction.delta.1, -direction.delta.2) := by
  cases direction <;> rfl

end Direction

/-! ## §2. Places after any number of moves. -/

namespace Pointer

/-- The column and the row that the pointer stands on. -/
def cell (p : Pointer) : Nat × Nat :=
  (p.x, p.y)

section
variable {g : Grid} {p : Pointer}

/-- **Moves in one direction lead to the place that counting tells.** -/
theorem iterate_advance (here : p.On g) (n : Nat) : (advance g)^[n] p = p.ahead g n := by
  induction n with
  | zero => exact (ahead_zero here).symm
  | succ n ih => rw [Function.iterate_succ_apply', ih, ahead_succ here]

/-- **Two numbers of moves lead to the same cell if and only if whole turns lie between
them.** -/
theorem cell_ahead_eq_iff (here : p.On g) (m n : Nat) :
    (p.ahead g m).cell = (p.ahead g n).cell ↔ m ≡ n [MOD g.extent p.direction] := by
  obtain ⟨x, y, direction⟩ := p
  unfold cell ahead Grid.extent
  -- One coordinate goes round, in one sense or the other, and the other one stays.
  cases direction with
  | right | left =>
    simp [Direction.delta, around_eq_iff here.width_pos, Int.neg_modEq_neg, Int.natCast_modEq_iff]
  | up | down =>
    simp [Direction.delta, around_eq_iff here.height_pos, Int.neg_modEq_neg, Int.natCast_modEq_iff]

theorem cell_iterate_eq_iff (here : p.On g) (m n : Nat) :
    ((advance g)^[m] p).cell = ((advance g)^[n] p).cell ↔ m ≡ n [MOD g.extent p.direction] := by
  rw [iterate_advance here, iterate_advance here]
  exact cell_ahead_eq_iff here m n

/-- Within one turn no cell is visited twice. -/
theorem injOn_cell_iterate (here : p.On g) :
    Set.InjOn (fun n => ((advance g)^[n] p).cell) {n | n < g.extent p.direction} := by
  intro m m_lt n n_lt same
  have turns : m ≡ n [MOD g.extent p.direction] := (cell_iterate_eq_iff here m n).mp same
  exact turns.eq_of_lt_of_lt m_lt n_lt

/-- One turn leads back to the start. -/
theorem iterate_extent (here : p.On g) : (advance g)^[g.extent p.direction] p = p := by
  have turned := ahead_turns g p 0
  rw [Nat.zero_add, ahead_zero here] at turned
  rw [iterate_advance here, turned]

/-- One turn is the fewest moves that lead back to the start. -/
theorem isLeast_return (here : p.On g) :
    IsLeast {n | 0 < n ∧ ((advance g)^[n] p).cell = p.cell} (g.extent p.direction) := by
  refine ⟨⟨here.extent_pos, congrArg cell (iterate_extent here)⟩, ?_⟩
  intro n returns
  obtain ⟨pos, same⟩ := returns
  have turns : n ≡ 0 [MOD g.extent p.direction] := (cell_iterate_eq_iff here n 0).mp same
  exact Nat.le_of_dvd pos (Nat.modEq_zero_iff_dvd.mp turns)

/-- **A move in the opposite direction takes a move back.** -/
theorem advance_opposite (here : p.On g) :
    ((p.advance g).turn p.direction.opposite).advance g = p.turn p.direction.opposite := by
  have there : ((p.ahead g 1).turn p.direction.opposite).On g := (here.ahead 1).turn _
  have undone (d : Int) : ((1 : Nat) : Int) * d + (1 : Nat) * -d = 0 := by omega
  rw [advance_eq_ahead here, advance_eq_ahead there]
  show Pointer.mk
    (around g.width (around g.width p.x _) ((1 : Nat) * p.direction.opposite.delta.1))
    (around g.height (around g.height p.y _) ((1 : Nat) * p.direction.opposite.delta.2)) _ = _
  rw [Direction.delta_opposite, around_around here.width_pos, around_around here.height_pos,
    undone, undone, around_zero here.x_lt, around_zero here.y_lt]
  rfl

end

end Pointer

/-! ## §3. Moves as a permutation of the cells. -/

namespace Grid

/-- The places on the grid. -/
def cells (g : Grid) : Set (Nat × Nat) :=
  {cell | cell.1 < g.width ∧ cell.2 < g.height}

/-- The place that a move in this direction leads to. -/
def step (g : Grid) (direction : Direction) (cell : Nat × Nat) : Nat × Nat :=
  ((Pointer.mk cell.1 cell.2 direction).advance g).cell

theorem on_of_mem_cells {g : Grid} {cell : Nat × Nat} (mem : cell ∈ g.cells)
    (direction : Direction) : (Pointer.mk cell.1 cell.2 direction).On g :=
  ⟨mem.1, mem.2⟩

theorem mapsTo_step (g : Grid) (direction : Direction) :
    Set.MapsTo (g.step direction) g.cells g.cells := by
  intro cell mem
  have there := (on_of_mem_cells mem direction).advance
  exact ⟨there.x_lt, there.y_lt⟩

theorem leftInvOn_step (g : Grid) (direction : Direction) :
    Set.LeftInvOn (g.step direction.opposite) (g.step direction) g.cells := by
  intro cell mem
  exact congrArg Pointer.cell (Pointer.advance_opposite (on_of_mem_cells mem direction))

/-- Moves in opposite directions undo each other. -/
theorem invOn_step (g : Grid) (direction : Direction) :
    Set.InvOn (g.step direction.opposite) (g.step direction) g.cells g.cells := by
  have forth := leftInvOn_step g direction.opposite
  rw [Direction.opposite_opposite] at forth
  exact ⟨leftInvOn_step g direction, forth⟩

/-- **A move in one direction permutes the cells of the grid.** -/
theorem bijOn_step (g : Grid) (direction : Direction) :
    Set.BijOn (g.step direction) g.cells g.cells :=
  (invOn_step g direction).bijOn (mapsTo_step g direction) (mapsTo_step g direction.opposite)

end Grid

/-! ## §4. The circuit. -/

namespace Pointer

/-- What comes of moves from a place on a grid, all in the direction of the pointer. -/
structure GoesRound (g : Grid) (p : Pointer) : Prop where
  /-- The moves are added to the column, and whole widths are taken off. -/
  column : ∀ n : Nat, (((advance g)^[n] p).x : Int) = (p.x + n * p.direction.delta.1) % g.width
  /-- The moves are added to the row, and whole heights are taken off. -/
  row : ∀ n : Nat, (((advance g)^[n] p).y : Int) = (p.y + n * p.direction.delta.2) % g.height
  direction : ∀ n, ((advance g)^[n] p).direction = p.direction
  /-- What a move back takes the remainder of is never less than zero. -/
  difference : ∀ n,
    ((((advance g)^[n] p).x + g.width - 1 : Nat) : Int) = ((advance g)^[n] p).x + g.width - 1
      ∧ ((((advance g)^[n] p).y + g.height - 1 : Nat) : Int)
        = ((advance g)^[n] p).y + g.height - 1
  /-- In every direction the cells of the grid lead to the cells of the grid, each to its own. -/
  permutes : ∀ direction, Set.BijOn (g.step direction) g.cells g.cells
  /-- The opposite direction leads back. -/
  undone : ∀ direction, Set.InvOn (g.step direction.opposite) (g.step direction) g.cells g.cells
  /-- Only whole turns lead to the same cell. -/
  turns : ∀ m n, ((advance g)^[m] p).cell = ((advance g)^[n] p).cell
    ↔ m ≡ n [MOD g.extent p.direction]
  /-- Within one turn no cell is visited twice. -/
  distinct : Set.InjOn (fun n => ((advance g)^[n] p).cell) {n | n < g.extent p.direction}
  /-- One turn, and no fewer moves, leads back to the start. -/
  returns : (advance g)^[g.extent p.direction] p = p
    ∧ IsLeast {n | 0 < n ∧ ((advance g)^[n] p).cell = p.cell} (g.extent p.direction)

/-- **Moves in one direction go round a circuit**, from every place on every grid, and moves
in the opposite direction go round it the other way. -/
theorem goes_round {g : Grid} {p : Pointer} (here : p.On g) : GoesRound g p where
  column n := by
    rw [iterate_advance here]
    exact cast_around here.width_pos _ _
  row n := by
    rw [iterate_advance here]
    exact cast_around here.height_pos _ _
  direction n := by rw [iterate_advance here, direction_ahead]
  difference n := by
    have width := here.width_pos
    have height := here.height_pos
    omega
  permutes := g.bijOn_step
  undone := g.invOn_step
  turns := cell_iterate_eq_iff here
  distinct := injOn_cell_iterate here
  returns := ⟨iterate_extent here, isLeast_return here⟩

/-- On a grid of two rows of three cells, to the left from the first cell of the lower row. -/
theorem goes_round_leftwards :
    (⟨0, 1, .left⟩ : Pointer).On ⟨3, #[#['a', 'b', 'c'], #['d', 'e', 'f']]⟩
      ∧ GoesRound ⟨3, #[#['a', 'b', 'c'], #['d', 'e', 'f']]⟩ ⟨0, 1, .left⟩ :=
  ⟨⟨by decide, by decide⟩, goes_round ⟨by decide, by decide⟩⟩

end Pointer

end Esolang.Befunge
