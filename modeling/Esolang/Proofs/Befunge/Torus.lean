/-
  Esolang.Proofs.Befunge.Torus
  ────────────────────────────
  **THE POINTER STAYS ON THE GRID.**

  A grid is FULL: it has a cell, and all its rows are as wide as it is.  Writing
  cells keeps it so, and keeps its extents, and no move leaves a full grid.

    • `Grid.full_ofSource` — the grid of every source text is full,
    • `On.walk` — no number of moves leaves the grid,
    • `advance_of_execute` — an instruction turns the pointer or jumps or writes a
      cell, and then the pointer moves,
    • `OnGrid.treads`, `OnGrid.advance` — neither of these leads off the grid.
-/
import Esolang.Befunge.Machine
import Esolang.Proofs.Source.Lines

namespace Esolang.Befunge

open Esolang.Machine (Input Effect)
open Esolang.Memory (Stack)
open Esolang.Source (lines)

/-! ## §1. Full grids. -/

namespace Grid

/-- The grid has a cell, and each of its rows has the width of the grid. -/
structure Full (g : Grid) : Prop where
  width_pos : 0 < g.width
  height_pos : 0 < g.height
  size_row : ∀ row ∈ g.rows, row.size = g.width

theorem Full.put {g : Grid} (full : g.Full) (x y : Nat) (c : Char) : (g.put x y c).Full where
  width_pos := full.width_pos
  height_pos := by
    rw [height_put]
    exact full.height_pos
  size_row := by
    intro row mem
    show row.size = g.width
    have mem : row ∈ g.rows.modify y fun row => row.setIfInBounds x c := mem
    obtain ⟨i, lt, rfl⟩ := Array.mem_iff_getElem.mp mem
    rw [Array.size_modify] at lt
    have size : g.rows[i].size = g.width := full.size_row _ (Array.getElem_mem lt)
    rw [Array.getElem_modify]
    split
    · rw [Array.size_setIfInBounds, size]
    · exact size

theorem Full.store {g : Grid} (full : g.Full) (x y : Int64) (c : Char) : (g.store x y c).Full := by
  unfold Grid.store
  split
  · exact full.put _ _ c
  · exact full

/-- **Every place below the extents is a cell.** -/
theorem Full.exists_get? {g : Grid} (full : g.Full) {x y : Nat} (hx : x < g.width)
    (hy : y < g.height) : ∃ c, g.get? x y = some c := by
  have row : g.rows[y]? = some g.rows[y] := Array.getElem?_eq_getElem hy
  have size : g.rows[y].size = g.width := full.size_row _ (Array.getElem_mem hy)
  have lt : x < g.rows[y].size := by omega
  refine ⟨g.rows[y][x], ?_⟩
  unfold Grid.get?
  rw [row]
  exact Array.getElem?_eq_getElem lt

theorem size_fill {width : Nat} {row : List Char} (le : row.length ≤ width) :
    (fill width row).size = width := by
  unfold fill
  rw [Array.size_append, Array.size_replicate, List.size_toArray]
  omega

/-- The widest of some rows, or a width that is given, if that is wider. -/
theorem widest (rows : List (List Char)) :
    ∀ width, width ≤ rows.foldl (fun widest row => max widest row.length) width
      ∧ ∀ row ∈ rows, row.length ≤ rows.foldl (fun widest row => max widest row.length) width := by
  induction rows with
  | nil =>
    intro width
    exact ⟨Nat.le_refl width, nofun⟩
  | cons row rows ih =>
    intro width
    obtain ⟨le, all⟩ := ih (max width row.length)
    rw [List.foldl_cons]
    refine ⟨by omega, ?_⟩
    exact List.forall_mem_cons.mpr ⟨by omega, all⟩

/-- The grid has a row for every line. -/
theorem height_ofSource (source : String) :
    (ofSource source).height = (lines source.toList).length := by
  show (((lines source.toList).map dropReturn).map (fill _)).toArray.size = _
  rw [List.size_toArray, List.length_map, List.length_map]

/-- **The grid of every source text is full.** -/
theorem full_ofSource (source : String) : (ofSource source).Full where
  width_pos := (widest ((lines source.toList).map dropReturn) 1).1
  height_pos := by
    rw [height_ofSource, List.length_pos_iff]
    exact Source.lines_ne_nil _
  size_row := by
    intro row mem
    have mem : row ∈ (((lines source.toList).map dropReturn).map (fill _)).toArray := mem
    rw [List.mem_toArray, List.mem_map] at mem
    obtain ⟨line, mem_lines, rfl⟩ := mem
    exact size_fill ((widest _ 1).2 line mem_lines)

/-- A text of one line is a grid of one row. -/
theorem ofSource_of_line {line : List Char} (one : '\n' ∉ line) (ne : line ≠ [])
    (no_return : line.getLast? ≠ some '\r') :
    ofSource (String.ofList line) = ⟨line.length, #[line.toArray]⟩ := by
  have pos : 0 < line.length := List.length_pos_iff.mpr ne
  have kept : dropReturn line = line := if_neg no_return
  have widest : max 1 line.length = line.length := by omega
  unfold ofSource
  rw [String.toList_ofList, Source.lines_of_not_mem one]
  simp [kept, widest, fill]

end Grid

/-! ## §2. Moves. -/

namespace Pointer

/-- The pointer stands on the grid. -/
structure On (g : Grid) (p : Pointer) : Prop where
  x_lt : p.x < g.width
  y_lt : p.y < g.height

theorem On.advance {g : Grid} {p : Pointer} (here : p.On g) : (p.advance g).On g := by
  have width_pos : 0 < g.width := by
    have := here.x_lt
    omega
  have height_pos : 0 < g.height := by
    have := here.y_lt
    omega
  unfold Pointer.advance
  cases p.direction with
  | right => exact ⟨Nat.mod_lt _ width_pos, here.y_lt⟩
  | left => exact ⟨Nat.mod_lt _ width_pos, here.y_lt⟩
  | up => exact ⟨here.x_lt, Nat.mod_lt _ height_pos⟩
  | down => exact ⟨here.x_lt, Nat.mod_lt _ height_pos⟩

theorem On.turn {g : Grid} {p : Pointer} (here : p.On g) (direction : Direction) :
    (p.turn direction).On g :=
  ⟨here.x_lt, here.y_lt⟩

/-- Moves one after the other, in these directions. -/
def walk (g : Grid) (directions : List Direction) (p : Pointer) : Pointer :=
  directions.foldl (fun p direction => (p.turn direction).advance g) p

/-- **No number of moves leaves the grid.** -/
theorem On.walk {g : Grid} (directions : List Direction) :
    ∀ {p : Pointer}, p.On g → (p.walk g directions).On g := by
  induction directions with
  | nil =>
    intro p here
    exact here
  | cons direction directions ih =>
    intro p here
    exact ih (here.turn direction).advance

end Pointer

/-! ## §3. What an instruction does to grid and pointer. -/

/-- From `s` to `s'` the pointer has turned or jumped, or a cell has been written, if
`stores` says that one may be, or something has been read, or none of these. -/
inductive Treads (stores : Prop) (s s' : State) : Prop where
  | stay (grid : s'.grid = s.grid) (pointer : s'.pointer = s.pointer)
      (input : s'.input = s.input)
  | turn (direction : Direction) (grid : s'.grid = s.grid)
      (pointer : s'.pointer = s.pointer.turn direction) (input : s'.input = s.input)
  | jump (grid : s'.grid = s.grid) (pointer : s'.pointer = s.pointer.advance s.grid)
      (input : s'.input = s.input)
  | write (may : stores) (x y : Int64) (c : Char) (grid : s'.grid = s.grid.store x y c)
      (pointer : s'.pointer = s.pointer) (input : s'.input = s.input)
  | read (grid : s'.grid = s.grid) (pointer : s'.pointer = s.pointer)
      (input : s'.input.rest <:+ s.input.rest)

theorem bind_eq_ok {α β ε : Type} {x : Except ε α} {f : α → Except ε β} {b : β}
    (h : x >>= f = .ok b) : ∃ a, x = .ok a ∧ f a = .ok b := by
  cases x with
  | error e => cases h
  | ok a => exact ⟨a, rfl, h⟩

/-- A pop takes a value off the stack and leaves the rest of the state. -/
theorem pop_eq_ok {symbol : Char} {s s' : State} {value : Int64}
    (h : pop symbol s = .ok (value, s')) : ∃ stack, s' = { s with stack } := by
  unfold pop at h
  split at h
  · next stack _ =>
    cases h
    exact ⟨stack, rfl⟩
  · cases h

/-- An instruction treads on the grid in one of these ways, and only a quote changes how
characters are read. -/
theorem treads_of_perform {draws : Draws} {instr : Instr} {symbol : Char} {s s' : State}
    (h : perform draws instr symbol s = .ok s') :
    Treads (instr = .store) s s' ∧ s'.mode = if instr = .quote then .string else s.mode := by
  cases instr with
  | blank | halt =>
    cases h
    exact ⟨.stay rfl rfl rfl, rfl⟩
  | turn direction =>
    cases h
    exact ⟨.turn direction rfl rfl rfl, rfl⟩
  | draw =>
    cases h
    exact ⟨.turn (draws s.draws) rfl rfl rfl, rfl⟩
  | quote | digit value | duplicate | swap =>
    cases h
    exact ⟨.stay rfl rfl rfl, rfl⟩
  | readInt =>
    cases h
    exact ⟨.read rfl rfl s.input.suffix_readInteger, rfl⟩
  | readChar =>
    cases h
    exact ⟨.read rfl rfl s.input.suffix_readChar, rfl⟩
  | bridge =>
    cases h
    exact ⟨.jump rfl rfl rfl, rfl⟩
  | branch onZero otherwise =>
    cases h
    exact ⟨.turn _ rfl rfl rfl, rfl⟩
  | operate operator =>
    obtain ⟨⟨a, s₁⟩, popped, h⟩ := bind_eq_ok h
    obtain ⟨⟨b, s₂⟩, popped', h⟩ := bind_eq_ok h
    obtain ⟨stack, rfl⟩ := pop_eq_ok popped
    obtain ⟨stack', rfl⟩ := pop_eq_ok popped'
    dsimp only at h
    split at h
    · cases h
      exact ⟨.stay rfl rfl rfl, rfl⟩
    · cases h
  | not | discard | printInt =>
    obtain ⟨⟨a, s₁⟩, popped, h⟩ := bind_eq_ok h
    obtain ⟨stack, rfl⟩ := pop_eq_ok popped
    cases h
    exact ⟨.stay rfl rfl rfl, rfl⟩
  | printChar =>
    obtain ⟨⟨a, s₁⟩, popped, h⟩ := bind_eq_ok h
    obtain ⟨c, _, h⟩ := bind_eq_ok h
    obtain ⟨stack, rfl⟩ := pop_eq_ok popped
    cases h
    exact ⟨.stay rfl rfl rfl, rfl⟩
  | fetch =>
    obtain ⟨⟨y, s₁⟩, popped, h⟩ := bind_eq_ok h
    obtain ⟨⟨x, s₂⟩, popped', h⟩ := bind_eq_ok h
    obtain ⟨stack, rfl⟩ := pop_eq_ok popped
    obtain ⟨stack', rfl⟩ := pop_eq_ok popped'
    cases h
    exact ⟨.stay rfl rfl rfl, rfl⟩
  | store =>
    obtain ⟨⟨y, s₁⟩, popped, h⟩ := bind_eq_ok h
    obtain ⟨⟨x, s₂⟩, popped', h⟩ := bind_eq_ok h
    obtain ⟨⟨value, s₃⟩, popped'', h⟩ := bind_eq_ok h
    obtain ⟨c, _, h⟩ := bind_eq_ok h
    obtain ⟨stack, rfl⟩ := pop_eq_ok popped
    obtain ⟨stack', rfl⟩ := pop_eq_ok popped'
    obtain ⟨stack'', rfl⟩ := pop_eq_ok popped''
    cases h
    exact ⟨.write rfl x y c rfl rfl rfl, rfl⟩

theorem Treads.imp {stores stores' : Prop} {s s' : State} (treads : Treads stores s s')
    (may : stores → stores') : Treads stores' s s' := by
  cases treads with
  | stay grid pointer input => exact .stay grid pointer input
  | turn direction grid pointer input => exact .turn direction grid pointer input
  | jump grid pointer input => exact .jump grid pointer input
  | write stores x y c grid pointer input => exact .write (may stores) x y c grid pointer input
  | read grid pointer input => exact .read grid pointer input

theorem treads_collect {stores : Prop} (symbol : Char) (s : State) :
    Treads stores s (collect symbol s) := by
  unfold collect
  split <;> exact .stay rfl rfl rfl

/-- Input is read from the front. -/
theorem Treads.suffix_input {stores : Prop} {s s' : State} (treads : Treads stores s s') :
    s'.input.rest <:+ s.input.rest := by
  cases treads with
  | stay grid pointer input | turn direction grid pointer input | jump grid pointer input
  | write _ x y c grid pointer input =>
    have unread : s'.input.rest = s.input.rest := congrArg Input.rest input
    exact unread ▸ List.suffix_refl _
  | read grid pointer input => exact input

/-- The state reads `symbol` as the instruction that writes a cell. -/
def State.Stores (symbol : Char) (s : State) : Prop :=
  s.mode = .literal ∧ Instr.ofChar? symbol = some .store

/-- A cycle ends with a move. -/
theorem advance_of_execute {draws : Draws} {symbol : Char} {s s' : State}
    (h : execute draws symbol s = .next s') :
    ∃ t, Treads (s.Stores symbol) s t ∧ s' = t.advance := by
  unfold execute at h
  cases mode : s.mode with
  | string =>
    rw [mode] at h
    cases h
    exact ⟨_, treads_collect symbol s, rfl⟩
  | literal =>
    rw [mode] at h
    dsimp only at h
    split at h
    · cases h
    · next instr _ read =>
      split at h
      · next performed =>
        cases h
        refine ⟨_, (treads_of_perform performed).1.imp ?_, rfl⟩
        rintro rfl
        exact ⟨mode, read⟩
      · cases h
    · cases h

/-! ## §4. The pointer stays on the grid. -/

/-- The machine stands on a full grid with these extents. -/
structure OnGrid (width height : Nat) (s : State) : Prop where
  full : s.grid.Full
  width : s.grid.width = width
  height : s.grid.height = height
  pointer : s.pointer.On s.grid

section
variable {width height : Nat} {s s' : State}

/-- Where the grid is the same, only the pointer has to be looked at. -/
theorem OnGrid.of_grid (here : OnGrid width height s) (grid : s'.grid = s.grid)
    (pointer : s'.pointer.On s.grid) : OnGrid width height s' := by
  obtain ⟨full, hwidth, hheight, -⟩ := here
  rw [← grid] at full hwidth hheight pointer
  exact ⟨full, hwidth, hheight, pointer⟩

theorem OnGrid.treads {stores : Prop} (here : OnGrid width height s)
    (treads : Treads stores s s') :
    OnGrid width height s' := by
  have on := here.pointer
  cases treads with
  | stay grid eq input =>
    apply here.of_grid grid
    rw [eq]
    exact on
  | read grid eq input =>
    apply here.of_grid grid
    rw [eq]
    exact on
  | turn direction grid eq input =>
    apply here.of_grid grid
    rw [eq]
    exact on.turn direction
  | jump grid eq input =>
    apply here.of_grid grid
    rw [eq]
    exact on.advance
  | write _ x y c grid eq input =>
    -- A cell that is written changes no extent.
    refine ⟨?_, ?_, ?_, ?_⟩
    · rw [grid]
      exact here.full.store x y c
    · rw [grid, Grid.width_store]
      exact here.width
    · rw [grid, Grid.height_store]
      exact here.height
    · rw [grid, eq]
      refine ⟨?_, ?_⟩
      · rw [Grid.width_store]
        exact on.x_lt
      · rw [Grid.height_store]
        exact on.y_lt

theorem OnGrid.advance (here : OnGrid width height s) : OnGrid width height s.advance :=
  here.of_grid rfl here.pointer.advance

end

theorem OnGrid.initial (source : String) (input : Input) :
    OnGrid (Grid.ofSource source).width (Grid.ofSource source).height (.initial source input) := by
  have full : (Grid.ofSource source).Full := Grid.full_ofSource source
  exact ⟨full, rfl, rfl, full.width_pos, full.height_pos⟩

end Esolang.Befunge
