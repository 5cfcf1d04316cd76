/-
  Esolang.Proofs.Befunge.Store
  ────────────────────────────
  **THE GRID IS A STORE.**

  Programs and their data share the grid: `p` writes a cell, `g` reads one, and the
  pointer executes what is there.  So the text alone does not tell what a cell
  holds, but the course of the machine does.

    • `Grid.get?_store` — a write is seen at its own coordinates and nowhere else,
    • `execute_put`, `execute_get` — what `p` and `g` do with any stack,
    • `get?_next` — one cycle changes a cell only by a `p` with its coordinates,
    • `faithful` — in every state of every run a cell holds what the last `p` with
      its coordinates has written, or else what was parsed.
-/
import Esolang.Proofs.Befunge.Range

namespace Esolang.Memory.Word

/-! ## §1. Characters and their codes. -/

/-- The code of a character is its number. -/
theorem toInt_ofChar (c : Char) : (ofChar c).toInt = c.toNat := by
  have valid : c.toNat.isValidChar := c.valid
  apply Int64.toInt_ofNat_of_lt
  unfold Nat.isValidChar at valid
  omega

/-- A word is the code of a character if and only if it is the character's number. -/
theorem toChar?_eq_some {value : Int64} {c : Char} :
    toChar? value = some c ↔ value.toInt = c.toNat := by
  have unfolded : toChar? value
      = if 0 ≤ value.toInt ∧ value.toInt.toNat.isValidChar then
          some (Char.ofNat value.toInt.toNat)
        else none := rfl
  rw [unfolded]
  constructor
  · intro h
    split at h
    · next code =>
      cases h
      have number : (Char.ofNat value.toInt.toNat).toNat = value.toInt.toNat := by
        rw [Char.ofNat, dif_pos code.2]
        rfl
      rw [number, Int.toNat_of_nonneg code.1]
    · cases h
  · intro code
    have valid : 0 ≤ value.toInt ∧ value.toInt.toNat.isValidChar := by
      rw [code]
      exact ⟨Int.natCast_nonneg _, c.valid⟩
    rw [if_pos valid, code, Int.toNat_natCast, Char.ofNat_toNat]

/-- A value is no character if it is the number of none. -/
theorem toChar?_eq_none {value : Int64} :
    toChar? value = none ↔ ∀ c : Char, value.toInt ≠ c.toNat := by
  rw [Option.eq_none_iff_forall_ne_some]
  exact forall_congr' fun c => not_congr toChar?_eq_some

end Esolang.Memory.Word

namespace Esolang.Befunge

open Esolang.Machine (Input Effect Run)
open Esolang.Memory.Word (toChar? ofChar)
open Esolang.Source (lines)

/-! ## §2. Reading and writing cells. -/

namespace Grid

/-- A cell is found in its row, which is found in the grid. -/
theorem get?_eq (g : Grid) (column row : Nat) :
    g.get? column row = g.rows[row]?.bind fun cells => cells[column]? := rfl

/-- A row that is written to keeps all other cells, and gets none that it did not have. -/
theorem getElem?_written (cells : Array Char) (x column : Nat) (c : Char) :
    (cells.setIfInBounds x c)[column]?
      = if x = column then cells[column]?.map fun _ => c else cells[column]? := by
  rw [Array.getElem?_setIfInBounds]
  split
  · next same =>
    subst same
    split
    · next inside => rw [Array.getElem?_eq_getElem inside, Option.map_some]
    · next outside => rw [Array.getElem?_eq_none (by omega), Option.map_none]
  · rfl

/-- A write is seen in its own column and row and nowhere else. -/
theorem get?_put (g : Grid) (x y column row : Nat) (c : Char) :
    (g.put x y c).get? column row
      = if x = column ∧ y = row then (g.get? column row).map fun _ => c
        else g.get? column row := by
  have written : (g.put x y c).rows[row]?
      = if y = row then g.rows[row]?.map fun cells => cells.setIfInBounds x c
        else g.rows[row]? := Array.getElem?_modify
  rw [get?_eq, get?_eq, written]
  by_cases hy : y = row
  · rw [if_pos hy, Option.bind_map]
    cases g.rows[row]? with
    | none => simp
    | some cells => simpa [hy] using getElem?_written cells x column c
  · rw [if_neg hy, if_neg fun same => hy same.2]

/-- Coordinates of a column and a row. -/
def At (x y : Int64) (column row : Nat) : Prop :=
  x.toInt = column ∧ y.toInt = row

instance (x y : Int64) (column row : Nat) : Decidable (At x y column row) :=
  inferInstanceAs (Decidable (_ ∧ _))

/-- Values are coordinates of the place that they name. -/
theorem coordinates?_eq_some {x y : Int64} {column row : Nat} :
    coordinates? x y = some (column, row) ↔ At x y column row := by
  unfold coordinates? At
  split
  · simp only [Option.some.injEq, Prod.mk.injEq]
    omega
  · simp only [reduceCtorEq, false_iff]
    omega

/-- Values that are no coordinates name no place. -/
theorem not_at_of_coordinates? {x y : Int64} (none : coordinates? x y = none) (column row : Nat) :
    ¬ At x y column row := by
  intro same
  rw [coordinates?_eq_some.mpr same] at none
  cases none

/-- **A write is seen at its own coordinates and nowhere else**, whatever they are. -/
theorem get?_store (g : Grid) (x y : Int64) (column row : Nat) (c : Char) :
    (g.store x y c).get? column row
      = if At x y column row then (g.get? column row).map fun _ => c
        else g.get? column row := by
  unfold store
  cases found : coordinates? x y with
  | none => rw [if_neg (not_at_of_coordinates? found column row)]
  | some place =>
    obtain ⟨i, j⟩ := place
    obtain ⟨hx, hy⟩ := coordinates?_eq_some.mp found
    rw [get?_put]
    have same : (i = column ∧ j = row) ↔ At x y column row := by
      unfold At
      omega
    simp only [same]

/-- A cell is read at its coordinates. -/
theorem fetch?_of_at (g : Grid) {x y : Int64} {column row : Nat} (here : At x y column row) :
    g.fetch? x y = g.get? column row := by
  unfold fetch?
  rw [coordinates?_eq_some.mpr here]
  rfl

/-- The coordinates are those of a cell. -/
def Covers (g : Grid) (x y : Int64) : Prop :=
  0 ≤ x.toInt ∧ x.toInt < g.width ∧ 0 ≤ y.toInt ∧ y.toInt < g.height

/-- A place inside the grid is one that the grid covers. -/
theorem covers_of_at {g : Grid} {x y : Int64} {column row : Nat} (here : At x y column row)
    (inside : column < g.width ∧ row < g.height) : g.Covers x y := by
  obtain ⟨hx, hy⟩ := here
  unfold Covers
  omega

/-- What the grid covers is a place inside of it. -/
theorem Covers.exists_at {g : Grid} {x y : Int64} (covers : g.Covers x y) :
    ∃ column row, At x y column row ∧ column < g.width ∧ row < g.height := by
  obtain ⟨x_pos, x_lt, y_pos, y_lt⟩ := covers
  refine ⟨x.toInt.toNat, y.toInt.toNat, ?_, by omega, by omega⟩
  exact ⟨(Int.toNat_of_nonneg x_pos).symm, (Int.toNat_of_nonneg y_pos).symm⟩

namespace Full

variable {g : Grid} (full : g.Full) {column row : Nat}
include full

/-- Every row that there is has the width of the grid. -/
theorem size_of_getElem? {cells : Array Char} (found : g.rows[row]? = some cells) :
    cells.size = g.width ∧ row < g.height :=
  ⟨full.size_row cells (Array.mem_of_getElem? found), (Array.getElem?_eq_some_iff.mp found).1⟩

/-- A full grid has no cell beyond its extents. -/
theorem get?_eq_none (beyond : ¬ (column < g.width ∧ row < g.height)) :
    g.get? column row = none := by
  rw [get?_eq]
  cases found : g.rows[row]? with
  | none => rfl
  | some cells =>
    obtain ⟨size, inside⟩ := full.size_of_getElem? found
    exact Array.getElem?_eq_none (by omega)

/-- To put a character beyond the grid changes nothing. -/
theorem put_of_beyond (beyond : ¬ (column < g.width ∧ row < g.height)) (c : Char) :
    g.put column row c = g := by
  have rows : (g.rows.modify row fun cells => cells.setIfInBounds column c) = g.rows := by
    refine Array.ext_getElem? fun i => ?_
    rw [Array.getElem?_modify]
    split
    · next same =>
      subst same
      cases found : g.rows[row]? with
      | none => rfl
      | some cells =>
        obtain ⟨size, inside⟩ := full.size_of_getElem? found
        rw [Option.map_some, Array.setIfInBounds_eq_of_size_le (by omega)]
    · rfl
  unfold Grid.put
  rw [rows]

/-- **Off the grid nothing is read.** -/
theorem fetch?_of_not_covers {x y : Int64} (off : ¬ g.Covers x y) : g.fetch? x y = none := by
  cases found : coordinates? x y with
  | none =>
    unfold fetch?
    rw [found]
    rfl
  | some place =>
    have here := coordinates?_eq_some.mp found
    rw [g.fetch?_of_at here]
    exact full.get?_eq_none fun inside => off (covers_of_at here inside)

/-- **Off the grid nothing is written.** -/
theorem store_of_not_covers {x y : Int64} (off : ¬ g.Covers x y) (c : Char) :
    g.store x y c = g := by
  unfold Grid.store
  cases found : coordinates? x y with
  | none => rfl
  | some place =>
    have here := coordinates?_eq_some.mp found
    exact full.put_of_beyond (fun inside => off (covers_of_at here inside)) c

end Full

/-! ## §3. What is parsed. -/

/-- The character that a text has in a column of a line, and a space behind the end of
the line. -/
def parsed (source : String) (column row : Nat) : Char :=
  (((lines source.toList).map dropReturn)[row]?.bind fun chars => chars[column]?).getD ' '

/-- A row that is filled up has its characters in front and spaces behind them. -/
theorem getElem?_fill {width column : Nat} {chars : List Char} (le : chars.length ≤ width)
    (lt : column < width) : (fill width chars)[column]? = some (chars[column]?.getD ' ') := by
  unfold fill
  rw [Array.getElem?_append]
  split
  · next inside =>
    rw [List.size_toArray] at inside
    rw [List.getElem?_toArray, List.getElem?_eq_getElem inside, Option.getD_some]
  · next behind =>
    rw [List.size_toArray] at behind
    rw [List.getElem?_eq_none (by omega), Option.getD_none, List.size_toArray,
      Array.getElem?_replicate, if_pos (by omega)]

/-- **Each cell holds what was parsed.** -/
theorem get?_ofSource {source : String} {column row : Nat}
    (x_lt : column < (ofSource source).width) (y_lt : row < (ofSource source).height) :
    (ofSource source).get? column row = some (parsed source column row) := by
  have rows : (ofSource source).rows[row]?
      = (((lines source.toList).map dropReturn)[row]?).map (fill (ofSource source).width) := by
    show (List.toArray (((lines source.toList).map dropReturn).map (fill _)))[row]? = _
    rw [List.getElem?_toArray, List.getElem?_map]
    rfl
  rw [get?_eq, rows]
  unfold parsed
  cases found : ((lines source.toList).map dropReturn)[row]? with
  | none =>
    rw [found, Option.map_none] at rows
    have := Array.getElem?_eq_none_iff.mp rows
    have height : (ofSource source).height = (ofSource source).rows.size := rfl
    omega
  | some line =>
    have fits : line.length ≤ (ofSource source).width :=
      (widest _ 1).2 line (List.mem_of_getElem? found)
    exact getElem?_fill fits x_lt

end Grid

/-! ## §4. What `p` and `g` do. -/

/-- The character that writes an instruction. -/
def Instr.char : Instr → Char
  | .blank => ' '
  | .halt => '@'
  | .turn .right => '>'
  | .turn .left => '<'
  | .turn .up => '^'
  | .turn .down => 'v'
  | .draw => '?'
  | .quote => '"'
  | .bridge => '#'
  | .digit value => Char.ofNat (48 + value)
  | .operate .add => '+'
  | .operate .subtract => '-'
  | .operate .multiply => '*'
  | .operate .divide => '/'
  | .operate .modulo => '%'
  | .operate .greater => Char.ofNat graveCode
  | .not => '!'
  | .branch .right _ => '_'
  | .branch _ _ => '|'
  | .duplicate => ':'
  | .swap => '\\'
  | .discard => '$'
  | .printInt => '.'
  | .printChar => ','
  | .fetch => 'g'
  | .store => 'p'
  | .readInt => '&'
  | .readChar => '~'

/-- Each instruction is written by one character only. -/
theorem Instr.char_of_ofChar? {c : Char} {instr : Instr} (h : ofChar? c = some instr) :
    instr.char = c := by
  unfold ofChar? at h
  split at h
  · next digit =>
    cases h
    have least : 48 ≤ c.toNat := by
      unfold Char.isDigit at digit
      rw [Bool.and_eq_true, decide_eq_true_eq] at digit
      exact UInt32.le_iff_toNat_le.mp digit.1
    show Char.ofNat (48 + (c.toNat - 48)) = c
    rw [Nat.add_sub_cancel' least, Char.ofNat_toNat]
  · split at h
    · next grave =>
      cases h
      show Char.ofNat graveCode = c
      rw [← grave, Char.ofNat_toNat]
    · unfold ofMark? at h
      split at h <;> cases h <;> rfl

section
variable {draws : Draws} {cancelAt : Option Nat} {s s' : State}

/-- What `p` does with three values: it stores the third at the place that the two others name. -/
theorem perform_put (draws : Draws) {y x value : Int64} {below : List Int64}
    (values : s.stack.values = y :: x :: value :: below) :
    perform draws .store 'p' s = (character value).map fun c =>
      { s with stack := ⟨below⟩, grid := s.grid.store x y c } := by
  obtain ⟨grid, pointer, mode, ⟨stack⟩, input, output, drawn⟩ := s
  cases values
  show (character value >>= _) = _
  cases character value <;> rfl

/-- Outside of a string an instruction is executed as it is performed, and the pointer
moves. -/
theorem execute_of_ofChar? (draws : Draws) {symbol : Char} {instr : Instr}
    (literal : s.mode = .literal) (read : Instr.ofChar? symbol = some instr)
    (goes : instr ≠ .halt) :
    (∀ t, perform draws instr symbol s = .ok t → execute draws symbol s = .next t.advance)
      ∧ ∀ fault, perform draws instr symbol s = .error fault →
        execute draws symbol s = .fault fault := by
  unfold execute
  simp only [literal]
  split
  · next halts =>
    rw [read] at halts
    cases halts
    exact absurd rfl goes
  · next instr' _ found =>
    rw [read] at found
    cases found
    refine ⟨fun t performed => ?_, fun fault performed => ?_⟩
    · rw [performed]
    · rw [performed]
  · next unknown =>
    rw [read] at unknown
    cases unknown

/-- **What `p` does with its three values.**  The code is looked at before the
coordinates. -/
theorem execute_put (literal : s.mode = .literal) {y x value : Int64} {below : List Int64}
    (values : s.stack.values = y :: x :: value :: below) :
    execute draws 'p' s = (toChar? value).elim (.fault (.notACharacter value)) fun c =>
      .next { s with stack := ⟨below⟩, grid := s.grid.store x y c }.advance := by
  have read : Instr.ofChar? 'p' = some .store := rfl
  obtain ⟨next, fault⟩ := execute_of_ofChar? draws literal read nofun
  have performed := perform_put draws values
  unfold character at performed
  cases code : toChar? value with
  | none =>
    rw [code] at performed
    exact fault _ performed
  | some c =>
    rw [code] at performed
    exact next _ performed

/-- With fewer than three values `p` fails, whatever they are. -/
theorem execute_put_starved (literal : s.mode = .literal) (short : s.stack.values.length < 3) :
    execute draws 'p' s = .fault (.underflow 'p') := by
  obtain ⟨grid, pointer, mode, ⟨stack⟩, input, output, drawn⟩ := s
  cases literal
  match stack, short with
  | [], _ => rfl
  | [_], _ => rfl
  | [_, _], _ => rfl

/-- **What `g` does with its two values.** -/
theorem execute_get (literal : s.mode = .literal) {y x : Int64} {below : List Int64}
    (values : s.stack.values = y :: x :: below) :
    execute draws 'g' s
      = .next { s with stack := ⟨((s.grid.fetch? x y).map ofChar).getD 0 :: below⟩ }.advance := by
  obtain ⟨grid, pointer, mode, ⟨stack⟩, input, output, drawn⟩ := s
  cases literal
  cases values
  rfl

end

/-! ## §5. Cells in the course of a run. -/

/-- The machine is about to write `c` at these coordinates. -/
structure State.Puts (s : State) (x y : Int64) (c : Char) : Prop where
  mode : s.mode = .literal
  symbol : s.symbol = 'p'
  stack : ∃ value below, s.stack.values = y :: x :: value :: below ∧ value.toInt = c.toNat

/-- The machine is about to write `c` in this column and row. -/
def State.PutsAt (s : State) (column row : Nat) (c : Char) : Prop :=
  ∃ x y, s.Puts x y c ∧ Grid.At x y column row

section
variable {draws : Draws} {cancelAt : Option Nat} {s s' : State}

/-- The machine goes on by executing the symbol under its pointer. -/
theorem next?_eq_some {t : State} :
    (machine draws cancelAt).next? s = some t ↔ execute draws s.symbol s = .next t := by
  rw [Machine.next?_eq_some]
  constructor
  · rintro ⟨symbol, site, fetched, executed⟩
    cases fetched
    exact executed
  · intro executed
    exact ⟨s.symbol, s.site, rfl, executed⟩

/-- A `p` with all its values and a code writes its cell. -/
theorem State.Puts.next? {x y : Int64} {c : Char} (puts : s.Puts x y c)
    (hn : (machine draws cancelAt).next? s = some s') : s'.grid = s.grid.store x y c := by
  obtain ⟨value, below, values, code⟩ := puts.stack
  have executed := next?_eq_some.mp hn
  rw [puts.symbol, execute_put puts.mode values, Memory.Word.toChar?_eq_some.mpr code] at executed
  cases executed
  rfl

/-- Three values are the first three of a stack that has as many. -/
theorem exists_three {values : List Int64} (long : 3 ≤ values.length) :
    ∃ y x value below, values = y :: x :: value :: below := by
  match values, long with
  | y :: x :: value :: below, _ => exact ⟨y, x, value, below, rfl⟩

/-- **Nothing else writes a cell.** -/
theorem grid_of_not_puts (idle : ∀ x y c, ¬ s.Puts x y c)
    (hn : (machine draws cancelAt).next? s = some s') : s'.grid = s.grid := by
  have executed := next?_eq_some.mp hn
  obtain ⟨t, treads, rfl⟩ := advance_of_execute executed
  cases treads with
  | stay grid pointer input => exact grid
  | turn direction grid pointer input => exact grid
  | jump grid pointer input => exact grid
  | read grid pointer input => exact grid
  | write stores x y c grid pointer input =>
    -- The instruction is `p`, and it went on, so it had its values and a code.
    obtain ⟨literal, read⟩ := stores
    have symbol : s.symbol = 'p' := (Instr.char_of_ofChar? read).symm
    rw [symbol] at executed
    by_cases short : s.stack.values.length < 3
    · rw [execute_put_starved literal short] at executed
      cases executed
    · obtain ⟨y, x, value, below, values⟩ := exists_three (Nat.le_of_not_lt short)
      rw [execute_put literal values] at executed
      cases code : toChar? value with
      | none =>
        rw [code] at executed
        cases executed
      | some d =>
        have puts : s.Puts x y d :=
          ⟨literal, symbol, value, below, values, Memory.Word.toChar?_eq_some.mp code⟩
        exact absurd puts (idle x y d)

/-- **One cycle changes a cell only by a `p` with its coordinates.** -/
theorem get?_next (hn : (machine draws cancelAt).next? s = some s') (column row : Nat) :
    (∃ c, s.PutsAt column row c
        ∧ s'.grid.get? column row = (s.grid.get? column row).map fun _ => c)
      ∨ ((∀ c, ¬ s.PutsAt column row c)
        ∧ s'.grid.get? column row = s.grid.get? column row) := by
  by_cases puts : ∃ x y c, s.Puts x y c
  · obtain ⟨x, y, c, puts⟩ := puts
    rw [puts.next? hn, Grid.get?_store]
    split
    · next here => exact .inl ⟨c, ⟨x, y, puts, here⟩, rfl⟩
    · next elsewhere =>
      refine .inr ⟨?_, rfl⟩
      rintro d ⟨x', y', puts', here⟩
      -- The stack has one pair of coordinates on its top.
      obtain ⟨value, below, values, -⟩ := puts.stack
      obtain ⟨value', below', values', -⟩ := puts'.stack
      rw [values] at values'
      cases values'
      exact elsewhere here
  · refine .inr ⟨?_, ?_⟩
    · rintro c ⟨x, y, here, -⟩
      exact puts ⟨x, y, c, here⟩
    · rw [grid_of_not_puts (fun x y c here => puts ⟨x, y, c, here⟩) hn]

end

/-- In a run of `source` on `input` the last character that was written in this column
and row in the first `n` cycles is `c`, or none was written and `c` was parsed. -/
inductive Recorded (draws : Draws) (cancelAt : Option Nat) (source : String) (input : Input)
    (n column row : Nat) (c : Char) : Prop where
  | put {k : Nat} {t : State} (before : k < n)
      (ht : (machine draws cancelAt).after? k (.initial source input) = some t)
      (puts : t.PutsAt column row c)
      (last : ∀ j u d, k < j → j < n →
        (machine draws cancelAt).after? j (.initial source input) = some u →
          ¬ u.PutsAt column row d)
  | parsed
      (untouched : ∀ j u d, j < n →
        (machine draws cancelAt).after? j (.initial source input) = some u →
          ¬ u.PutsAt column row d)
      (eq : c = Grid.parsed source column row)

section
variable {draws : Draws} {cancelAt : Option Nat} {source : String} {input : Input}
  {n column row : Nat} {c : Char} {s : State}

/-- A cycle that does not write the cell leaves its record. -/
theorem Recorded.succ (recorded : Recorded draws cancelAt source input n column row c)
    (hs : (machine draws cancelAt).after? n (.initial source input) = some s)
    (idle : ∀ d, ¬ s.PutsAt column row d) :
    Recorded draws cancelAt source input (n + 1) column row c := by
  -- The last of `n + 1` cycles begins in `s`.
  have now {u : State} {d : Char}
      (hu : (machine draws cancelAt).after? n (.initial source input) = some u) :
      ¬ u.PutsAt column row d := by
    rw [hs] at hu
    cases hu
    exact idle d
  cases recorded with
  | put before ht puts last =>
    refine .put (by omega) ht puts ?_
    intro j u d after lt hu
    rcases Nat.lt_or_eq_of_le (Nat.le_of_lt_succ lt) with lt | rfl
    · exact last j u d after lt hu
    · exact now hu
  | parsed untouched eq =>
    refine .parsed ?_ eq
    intro j u d lt hu
    rcases Nat.lt_or_eq_of_le (Nat.le_of_lt_succ lt) with lt | rfl
    · exact untouched j u d lt hu
    · exact now hu

/-- **In every state of every run a cell holds what is on record.** -/
theorem recorded_of_after? (x_lt : column < (Grid.ofSource source).width)
    (y_lt : row < (Grid.ofSource source).height) :
    ∀ {n : Nat} {s : State},
      (machine draws cancelAt).after? n (.initial source input) = some s →
        ∃ c, s.grid.get? column row = some c
          ∧ Recorded draws cancelAt source input n column row c := by
  intro n
  induction n with
  | zero =>
    intro s hs
    cases hs
    refine ⟨_, Grid.get?_ofSource x_lt y_lt, .parsed ?_ rfl⟩
    intro j u d lt
    omega
  | succ n ih =>
    intro s hs
    obtain ⟨t, ht, hn⟩ := Machine.after?_succ_last.mp hs
    obtain ⟨c, cell, recorded⟩ := ih ht
    rcases get?_next hn column row with ⟨d, puts, written⟩ | ⟨idle, kept⟩
    · refine ⟨d, ?_, .put (Nat.lt_succ_self n) ht puts ?_⟩
      · rw [written, cell]
        rfl
      · intro j u e after before
        omega
    · exact ⟨c, kept.trans cell, recorded.succ ht idle⟩

end

/-! ## §6. The whole store. -/

/-- What the grid is to a state that a run of `source` on `input` reaches in `n`
cycles. -/
structure Faithful (draws : Draws) (cancelAt : Option Nat) (source : String) (input : Input)
    (n : Nat) (s : State) : Prop where
  width : s.grid.width = (Grid.ofSource source).width
  height : s.grid.height = (Grid.ofSource source).height
  /-- All rows have the width of the grid. -/
  full : s.grid.Full
  pointer : s.pointer.On s.grid
  /-- A cell holds what the last `p` has written there, or else what was parsed. -/
  cell : ∀ column row, column < s.grid.width → row < s.grid.height →
    ∃ c, s.grid.get? column row = some c
      ∧ Recorded draws cancelAt source input n column row c
  /-- Whether `p` succeeds hangs on its value alone. -/
  put_iff : s.mode = .literal → s.symbol = 'p' →
    ∀ y x value below, s.stack.values = y :: x :: value :: below →
      ((∃ t, (machine draws cancelAt).next? s = some t) ↔ ∃ c : Char, value.toInt = c.toNat)
  /-- It writes the character whose code the value is. -/
  put : s.mode = .literal → s.symbol = 'p' →
    ∀ y x value below (c : Char), s.stack.values = y :: x :: value :: below →
      value.toInt = c.toNat → (machine draws cancelAt).next? s
        = some { s with stack := ⟨below⟩, grid := s.grid.store x y c }.advance
  /-- A value that is no code is an invalid character, whatever the coordinates. -/
  put_invalid : s.mode = .literal → s.symbol = 'p' →
    ∀ y x value below, s.stack.values = y :: x :: value :: below →
      (∀ c : Char, value.toInt ≠ c.toNat) →
        ∃ cause, (machine draws cancelAt).Stops s ⟨s, 1, .failed cause s.site⟩
          ∧ cause.report.kind = .invalidCharacter
  /-- A write off the grid changes no cell. -/
  off : ∀ x y c, ¬ s.grid.Covers x y → s.grid.store x y c = s.grid
  /-- `g` pushes the code of the cell, and zero off the grid. -/
  get : s.mode = .literal → s.symbol = 'g' →
    ∀ y x below, s.stack.values = y :: x :: below →
      ∃ code : Int64, (machine draws cancelAt).next? s
          = some { s with stack := ⟨code :: below⟩ }.advance
        ∧ (s.grid.Covers x y → ∃ column row c, Grid.At x y column row
            ∧ s.grid.get? column row = some c ∧ code.toInt = c.toNat)
        ∧ (¬ s.grid.Covers x y → code = 0)

/-- **The grid is a faithful store**, whatever directions are drawn. -/
theorem faithful (draws : Draws) (cancelAt : Option Nat) (source : String) (input : Input)
    {n : Nat} {s : State}
    (reached : (machine draws cancelAt).after? n (.initial source input) = some s) :
    Faithful draws cancelAt source input n s := by
  have here := ((inRange source).state draws cancelAt input n s reached).grid
  have put : s.mode = .literal → s.symbol = 'p' →
      ∀ y x value below (c : Char), s.stack.values = y :: x :: value :: below →
        value.toInt = c.toNat → (machine draws cancelAt).next? s
          = some { s with stack := ⟨below⟩, grid := s.grid.store x y c }.advance := by
    intro literal symbol y x value below c values code
    rw [next?_eq_some, symbol, execute_put literal values, Memory.Word.toChar?_eq_some.mpr code]
    rfl
  have put_invalid : s.mode = .literal → s.symbol = 'p' →
      ∀ y x value below, s.stack.values = y :: x :: value :: below →
        (∀ c : Char, value.toInt ≠ c.toNat) →
          (machine draws cancelAt).Stops s ⟨s, 1, .failed (.notACharacter value) s.site⟩ := by
    intro literal symbol y x value below values no_code
    have fault : execute draws s.symbol s = .fault (.notACharacter value) := by
      rw [symbol, execute_put literal values, Memory.Word.toChar?_eq_none.mpr no_code]
      rfl
    exact .fault rfl fault
  refine ⟨here.width, here.height, here.full, here.pointer, ?cell, ?put_iff, put, ?put_invalid,
    fun x y c off => here.full.store_of_not_covers off c, ?get⟩
  case cell =>
    intro column row x_lt y_lt
    rw [here.width] at x_lt
    rw [here.height] at y_lt
    exact recorded_of_after? x_lt y_lt reached
  case put_iff =>
    intro literal symbol y x value below values
    constructor
    · rintro ⟨t, hn⟩
      by_contra no_code
      have stops := put_invalid literal symbol y x value below values (not_exists.mp no_code)
      rw [stops.next?_eq_none] at hn
      cases hn
    · rintro ⟨c, code⟩
      exact ⟨_, put literal symbol y x value below c values code⟩
  case put_invalid =>
    intro literal symbol y x value below values no_code
    exact ⟨_, put_invalid literal symbol y x value below values no_code, rfl⟩
  case get =>
    intro literal symbol y x below values
    refine ⟨((s.grid.fetch? x y).map ofChar).getD 0, ?_, ?_, ?_⟩
    · rw [next?_eq_some, symbol, execute_get literal values]
    · intro covers
      obtain ⟨column, row, place, x_lt, y_lt⟩ := covers.exists_at
      obtain ⟨c, found⟩ := here.full.exists_get? x_lt y_lt
      refine ⟨column, row, c, place, found, ?_⟩
      rw [s.grid.fetch?_of_at place, found]
      exact Memory.Word.toInt_ofChar c
    · intro off
      rw [here.full.fetch?_of_not_covers off]
      rfl

/-- A program that writes the figure 6 below its first cell: six cycles later the cell
holds it, and it is `p` that has put it there. -/
theorem faithful_rewritten :
    ∃ s, (machine (fun _ => .right) none).after? 6 (.initial "96*01p01g.@\n " ⟨[]⟩) = some s
      ∧ s.grid.get? 0 1 = some '6'
      ∧ ∃ k t, k < 6 ∧ t.PutsAt 0 1 '6'
        ∧ (machine (fun _ => .right) none).after? k (.initial "96*01p01g.@\n " ⟨[]⟩)
            = some t := by
  have reached : ((machine (fun _ => .right) none).after? 6
      (.initial "96*01p01g.@\n " ⟨[]⟩)).isSome := by decide +kernel
  obtain ⟨s, hs⟩ := Option.isSome_iff_exists.mp reached
  have cell : ((machine (fun _ => .right) none).after? 6
      (.initial "96*01p01g.@\n " ⟨[]⟩)).bind (·.grid.get? 0 1) = some '6' := by decide +kernel
  have width : (Grid.ofSource "96*01p01g.@\n ").width = 11 := by decide +kernel
  have height : (Grid.ofSource "96*01p01g.@\n ").height = 2 := by decide +kernel
  have store := faithful (fun _ => .right) none "96*01p01g.@\n " ⟨[]⟩ hs
  rw [hs, Option.bind_some] at cell
  obtain ⟨c, found, recorded⟩ := store.cell 0 1 (by rw [store.width, width]; omega)
    (by rw [store.height, height]; omega)
  rw [cell] at found
  cases found
  cases recorded with
  | put before ht puts last => exact ⟨s, hs, cell, _, _, before, puts, ht⟩
  | parsed untouched eq => exact absurd eq (by decide +kernel)

end Esolang.Befunge
