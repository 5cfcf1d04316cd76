/-
  Esolang.Proofs.Befunge.Strings
  ──────────────────────────────
  **EVERY STRING COMES TO ITS END.**

  A string begins on a quote and goes round the torus on one line.  Nothing is written
  meanwhile, so the quote that it began with is still there, and ends it if no other
  quote does so before.  Who wrote the quotes does not matter, nor how many there are.

    • `next?_of_string`, `next?_of_quote` — a cycle in a string, and the one before it,
    • `exists_quote_ahead` — in a string there is a quote ahead, in every state of every
      run,
    • `exists_least_quote` — the first one is less than a whole turn away,
    • `after?_string` — up to it the machine pushes the codes of what it reads,
    • `string_closes` — so a string ends, and only a budget can stop it before.
-/
import Esolang.Proofs.Befunge.Refusal
import Esolang.Proofs.Befunge.Walk
import Esolang.Proofs.Machine.Agreement
import Mathlib.Data.List.Induction
import Mathlib.Data.Nat.Find
import Mathlib.Order.Bounds.Basic

namespace Esolang.Befunge

open Esolang.Machine (Input Budget)
open Esolang.Memory.Word (ofChar)

/-! ## §1. Cells ahead. -/

/-- The cell that the pointer comes to by `k` moves, if nothing turns it. -/
def State.cellAhead? (s : State) (k : Nat) : Option Char :=
  s.grid.get? (s.pointer.ahead s.grid k).x (s.pointer.ahead s.grid k).y

section
variable {source : String} {input : Input} {s : State}

theorem cellAhead?_zero (here : s.InRange source input) : s.cellAhead? 0 = some s.symbol := by
  unfold State.cellAhead?
  rw [Pointer.ahead_zero here.grid.pointer]
  exact here.cell

/-- Cells come again after a whole turn. -/
theorem cellAhead?_turn (s : State) (k : Nat) :
    s.cellAhead? (k + s.grid.extent s.pointer.direction) = s.cellAhead? k := by
  unfold State.cellAhead?
  rw [Pointer.ahead_turns]

/-- After a move that changes no cell, the cells ahead are those behind the first one. -/
theorem cellAhead?_advance (here : s.InRange source input) {t : State} (grid : t.grid = s.grid)
    (pointer : t.pointer = s.pointer) (k : Nat) :
    t.advance.cellAhead? k = s.cellAhead? (k + 1) := by
  show t.grid.get? ((t.pointer.advance t.grid).ahead t.grid k).x
    ((t.pointer.advance t.grid).ahead t.grid k).y = _
  rw [grid, pointer, Pointer.ahead_advance here.grid.pointer]
  rfl

end

/-! ## §2. Cycles in a string. -/

section
variable {draws : Draws} {cancelAt : Option Nat} {s : State}

/-- In a string a cycle pushes what it reads, or ends the string, and moves. -/
theorem next?_of_string (string : s.mode = .string) :
    (machine draws cancelAt).next? s = some (collect s.symbol s).advance := by
  rw [next?_eq_some]
  unfold execute
  rw [string]

/-- Outside of a string a quote begins one. -/
theorem next?_of_quote (literal : s.mode = .literal) (quote : s.symbol = '"') :
    (machine draws cancelAt).next? s = some { s with mode := .string }.advance := by
  rw [next?_eq_some, quote]
  unfold execute
  rw [literal]
  rfl

theorem collect_of_ne {symbol : Char} (other : symbol ≠ '"') (s : State) :
    collect symbol s = s.push (ofChar symbol) := by
  unfold collect
  exact if_neg other

/-! ## §3. A quote ahead. -/

variable {source : String} {input : Input}

/-- What one cycle keeps: in a string there is a quote ahead. -/
theorem quote_ahead_of_next {s' : State} (here : s.InRange source input)
    (ahead : s.mode = .string → ∃ k, s.cellAhead? k = some '"')
    (hn : (machine draws cancelAt).next? s = some s') (string : s'.mode = .string) :
    ∃ k, s'.cellAhead? k = some '"' := by
  cases mode : s.mode with
  | string =>
    -- The string goes on, so the quote that is ahead is not the cell that was read.
    have moved : (machine draws cancelAt).next? s = some (collect s.symbol s).advance :=
      next?_of_string mode
    rw [hn] at moved
    cases moved
    have other : s.symbol ≠ '"' := (mode_collect s.symbol mode).mp string
    obtain ⟨k, quote⟩ := ahead mode
    cases k with
    | zero =>
      rw [cellAhead?_zero here] at quote
      exact absurd (Option.some.inj quote) other
    | succ k =>
      refine ⟨k, ?_⟩
      rw [collect_of_ne other]
      exact (cellAhead?_advance here rfl rfl k).trans quote
  | literal =>
    -- The string begins, and its first quote is ahead when the pointer has gone around.
    have quote : s.symbol = '"' := by
      by_contra other
      have kept := (mode_of_next hn).mpr other
      rw [string, mode] at kept
      cases kept
    have moved : (machine draws cancelAt).next? s = some { s with mode := .string }.advance :=
      next?_of_quote mode quote
    rw [hn] at moved
    cases moved
    have pos := here.grid.pointer.extent_pos
    have around : s.cellAhead? (s.grid.extent s.pointer.direction - 1 + 1) = some '"' := by
      rw [show s.grid.extent s.pointer.direction - 1 + 1
          = 0 + s.grid.extent s.pointer.direction by omega, cellAhead?_turn,
        cellAhead?_zero here, quote]
    exact ⟨_, (cellAhead?_advance here rfl rfl _).trans around⟩

/-- **In a string there is a quote ahead**, in every state of every run. -/
theorem exists_quote_ahead {n : Nat}
    (reached : (machine draws cancelAt).after? n (.initial source input) = some s)
    (string : s.mode = .string) : ∃ k, s.cellAhead? k = some '"' := by
  have both : s.InRange source input
      ∧ (s.mode = .string → ∃ k, s.cellAhead? k = some '"') := by
    refine Machine.after?_preserves (P := fun s => s.InRange source input
      ∧ (s.mode = .string → ∃ k, s.cellAhead? k = some '"')) ?_
      ⟨.initial source input, ?_⟩ reached
    · intro t t' before hn
      exact ⟨before.1.next hn, quote_ahead_of_next before.1 before.2 hn⟩
    · intro string
      cases string
  exact both.2 string

/-- **The first quote ahead is less than a whole turn away.** -/
theorem exists_least_quote (here : s.InRange source input)
    (ahead : ∃ k, s.cellAhead? k = some '"') :
    ∃ m, IsLeast {k | s.cellAhead? k = some '"'} m
      ∧ m < s.grid.extent s.pointer.direction := by
  have least : IsLeast {k | s.cellAhead? k = some '"'} (Nat.find ahead) :=
    ⟨Nat.find_spec ahead, fun k quote => Nat.find_min' ahead quote⟩
  have pos := here.grid.pointer.extent_pos
  refine ⟨Nat.find ahead, least, ?_⟩
  -- One turn earlier there is a quote as well.
  by_contra far
  have earlier : s.cellAhead? (Nat.find ahead - s.grid.extent s.pointer.direction) = some '"' := by
    rw [← cellAhead?_turn, Nat.sub_add_cancel (Nat.le_of_not_lt far)]
    exact Nat.find_spec ahead
  have le := least.2 earlier
  omega

/-! ## §4. What a string pushes. -/

/-- The state that has read these cells as part of a string: their codes are pushed, the
last on top, and the pointer stands behind them. -/
def State.reading (cells : List Char) (s : State) : State :=
  { s with
    pointer := s.pointer.ahead s.grid cells.length
    stack := ⟨(cells.map ofChar).reverse ++ s.stack.values⟩ }

/-- The state that has read these cells and the quote behind them. -/
def State.closed (cells : List Char) (s : State) : State :=
  { s with
    mode := .literal
    pointer := s.pointer.ahead s.grid (cells.length + 1)
    stack := ⟨(cells.map ofChar).reverse ++ s.stack.values⟩ }

/-- One more cell is read. -/
theorem reading_concat (here : s.InRange source input) (cells : List Char) (c : Char) :
    ((s.reading cells).push (ofChar c)).advance = s.reading (cells ++ [c]) := by
  show { s with
      pointer := (s.pointer.ahead s.grid cells.length).advance s.grid
      stack := ⟨ofChar c :: ((cells.map ofChar).reverse ++ s.stack.values)⟩ } = _
  unfold State.reading
  rw [Pointer.ahead_succ here.grid.pointer, List.map_append, List.reverse_append,
    List.length_append]
  rfl

/-- The quote is read. -/
theorem reading_quote (here : s.InRange source input) (cells : List Char) :
    (collect '"' (s.reading cells)).advance = s.closed cells := by
  show { s with
      mode := .literal
      pointer := (s.pointer.ahead s.grid cells.length).advance s.grid
      stack := ⟨(cells.map ofChar).reverse ++ s.stack.values⟩ } = _
  rw [Pointer.ahead_succ here.grid.pointer]
  rfl

/-- The cell behind those that have been read is the next one. -/
theorem symbol_reading {cells : List Char} {c : Char}
    (cell : s.cellAhead? cells.length = some c) : (s.reading cells).symbol = c := by
  show (s.cellAhead? cells.length).getD ' ' = c
  rw [cell]
  rfl

/-- **Up to the next quote the machine pushes the codes of what it reads.** -/
theorem after?_string (here : s.InRange source input) (string : s.mode = .string)
    {cells : List Char} :
    (∀ k < cells.length, s.cellAhead? k = cells[k]?) → '"' ∉ cells →
      (machine draws cancelAt).after? cells.length s = some (s.reading cells) := by
  induction cells using List.reverseRecOn with
  | nil =>
    intro _ _
    show some s = some { s with pointer := s.pointer.ahead s.grid 0 }
    rw [Pointer.ahead_zero here.grid.pointer]
  | append_singleton cells c ih =>
    intro read no_quote
    rw [List.length_append, List.length_singleton] at read ⊢
    have before : ∀ k < cells.length, s.cellAhead? k = cells[k]? := by
      intro k lt
      rw [read k (by omega), List.getElem?_append_left lt]
    have last : s.cellAhead? cells.length = some c := by
      rw [read _ (by omega), List.getElem?_concat_length]
    have others : '"' ∉ cells := fun mem => no_quote (List.mem_append_left _ mem)
    have other : c ≠ '"' := by
      rintro rfl
      exact no_quote (by simp)
    -- The last of these cycles stands on the last of the cells.
    refine Machine.after?_succ_last.mpr ⟨_, ih before others, ?_⟩
    have still : (s.reading cells).mode = .string := string
    rw [next?_of_string still, symbol_reading last, collect_of_ne other, reading_concat here]

/-- The cells before the first quote are none of them a quote. -/
theorem exists_cells (here : s.InRange source input) {m : Nat}
    (least : IsLeast {k | s.cellAhead? k = some '"'} m) :
    ∃ cells : List Char, cells.length = m ∧ (∀ k < m, s.cellAhead? k = cells[k]?)
      ∧ '"' ∉ cells := by
  have read (k : Nat) : ∃ c, s.cellAhead? k = some c :=
    here.grid.full.exists_get? (here.grid.pointer.ahead k).x_lt (here.grid.pointer.ahead k).y_lt
  choose cell eq using read
  refine ⟨(List.range m).map cell, by simp, ?_, ?_⟩
  · intro k lt
    rw [eq, List.getElem?_map, List.getElem?_range lt]
    rfl
  · intro mem
    obtain ⟨k, inside, quote⟩ := List.mem_map.mp mem
    have le := least.2 (show s.cellAhead? k = some '"' by rw [eq, quote])
    have lt := List.mem_range.mp inside
    omega

end

/-! ## §5. Strings end. -/

/-- What the machine does in a string whose next quote is `m` cells ahead, with these cells
before it. -/
structure ClosesAfter (draws : Draws) (cancelAt : Option Nat) (s : State) (m : Nat)
    (cells : List Char) : Prop where
  /-- The quote is less than a whole turn away. -/
  within : m < s.grid.extent s.pointer.direction
  length : cells.length = m
  /-- These are the cells up to the quote, in order. -/
  cell : ∀ k < m, s.cellAhead? k = cells[k]?
  no_quote : '"' ∉ cells
  /-- In each of `m` cycles one of them is read. -/
  reads : ∀ k ≤ m, (machine draws cancelAt).after? k s = some (s.reading (cells.take k))
  /-- One cycle more ends the string. -/
  closes : (machine draws cancelAt).after? (m + 1) s = some (s.closed cells)
  /-- A run goes on behind the string, unless its budget does not admit all these cycles. -/
  admitted : ∀ b : Budget,
    (∃ b', b'.cycles = b.cycles + (m + 1)
        ∧ (machine draws cancelAt).run b s = (machine draws cancelAt).run b' (s.closed cells))
      ∨ ∃ k reason, k ≤ m ∧ (machine draws cancelAt).run b s
          = ⟨s.reading (cells.take k), b.cycles + k,
              .exhausted reason (s.reading (cells.take k)).site⟩

section
variable {draws : Draws} {cancelAt : Option Nat} {source : String} {input : Input} {s : State}

theorem closesAfter (here : s.InRange source input) (string : s.mode = .string) {m : Nat}
    (least : IsLeast {k | s.cellAhead? k = some '"'} m)
    (within : m < s.grid.extent s.pointer.direction) :
    ∃ cells, ClosesAfter draws cancelAt s m cells := by
  obtain ⟨cells, length, cell, no_quote⟩ := exists_cells here least
  have reads : ∀ k ≤ m,
      (machine draws cancelAt).after? k s = some (s.reading (cells.take k)) := by
    intro k le
    have taken : (cells.take k).length = k := by
      rw [List.length_take, length]
      omega
    have read : (machine draws cancelAt).after? (cells.take k).length s
        = some (s.reading (cells.take k)) := by
      apply after?_string here string
      · intro j lt
        rw [taken] at lt
        rw [cell j (by omega), List.getElem?_take_of_lt lt]
      · exact fun mem => no_quote (List.mem_of_mem_take mem)
    rwa [taken] at read
  have closes : (machine draws cancelAt).after? (m + 1) s = some (s.closed cells) := by
    have quote : s.cellAhead? cells.length = some '"' := by
      rw [length]
      exact least.1
    have still : (s.reading cells).mode = .string := string
    refine Machine.after?_succ_last.mpr ⟨s.reading cells, ?_, ?_⟩
    · rw [reads m (Nat.le_refl m), ← length, List.take_length]
    · rw [next?_of_string still, symbol_reading quote, reading_quote here]
  refine ⟨cells, within, length, cell, no_quote, reads, closes, ?_⟩
  intro b
  rcases Machine.run_along (b := b) closes with
    ⟨b', cycles, eq⟩ | ⟨k, u, symbol, site, reason, lt, hu, hv, eq⟩
  · exact .inl ⟨b', cycles, eq⟩
  · -- What the budget does not admit begins in a state in which the string is read.
    have le : k ≤ m := Nat.le_of_lt_succ lt
    rw [reads k le] at hu
    cases hu
    cases hv
    exact .inr ⟨k, reason, le, eq⟩

end

/-- **Every string comes to its end.**  Its line holds a quote, the next one is less than a
whole turn ahead, and the machine pushes the codes of the cells up to it and goes on behind
it, with the grid, the direction, the input, the output and the draws as they were. -/
theorem string_closes (draws : Draws) (cancelAt : Option Nat) (source : String) (input : Input)
    {n : Nat} {s : State}
    (reached : (machine draws cancelAt).after? n (.initial source input) = some s)
    (string : s.mode = .string) :
    (∃ column row, s.pointer.OnLine column row ∧ s.grid.get? column row = some '"')
      ∧ ∃ m cells, IsLeast {k | s.cellAhead? k = some '"'} m
          ∧ ClosesAfter draws cancelAt s m cells := by
  have here := (inRange source).state draws cancelAt input n s reached
  obtain ⟨m, least, within⟩ := exists_least_quote here (exists_quote_ahead reached string)
  obtain ⟨cells, closes⟩ : ∃ cells, ClosesAfter draws cancelAt s m cells :=
    closesAfter here string least within
  exact ⟨⟨_, _, Pointer.onLine_ahead here.grid.pointer m, least.1⟩, m, cells, least, closes⟩

/-- A program without quotes that writes one into the tenth of its eleven cells.  The
string that begins there is closed by the same quote, when the pointer has gone around. -/
theorem string_closes_written :
    ∃ s, (machine (fun _ => .right) none).after? 10 (.initial "98+2*90p  @" ⟨[]⟩) = some s
      ∧ s.mode = .string ∧ s.cellAhead? 10 = some '"'
      ∧ ∃ cells, ClosesAfter (fun _ => .right) none s 10 cells := by
  have there : ((machine (fun _ => .right) none).after? 10 (.initial "98+2*90p  @" ⟨[]⟩)).any
      (fun s => decide (s.mode = .string ∧ s.cellAhead? 10 = some '"'
        ∧ ∀ k ∈ List.range 10, s.cellAhead? k ≠ some '"')) = true := by decide +kernel
  obtain ⟨s, reached, facts⟩ := (Option.any_eq_true _ _).mp there
  obtain ⟨string, tenth, others⟩ := of_decide_eq_true facts
  obtain ⟨-, m, cells, least, closes⟩ :=
    string_closes (fun _ => .right) none "98+2*90p  @" ⟨[]⟩ reached string
  have le : m ≤ 10 := least.2 tenth
  have eq : m = 10 := by
    by_contra ne
    exact others m (List.mem_range.mpr (by omega)) least.1
  subst eq
  exact ⟨s, reached, string, tenth, cells, closes⟩

end Esolang.Befunge
