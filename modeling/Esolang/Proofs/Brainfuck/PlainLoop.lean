/-
  Esolang.Proofs.Brainfuck.PlainLoop
  ──────────────────────────────────
  **WHAT BECOMES OF A PLAIN LOOP.**

  The body of a plain loop moves, counts and prints, and comes back to the cell that
  it began at.  So every pass adds the same to each cell, and the cell that the loop
  is about runs through an arithmetic progression modulo 256.  The guard compares two
  neighbours of this progression, and nothing else.

    • `walk` — what one pass over a body does to the tape,
    • `Repeated` — the state before the body when so many passes are done,
    • `passes` — passes follow each other while the cell is neither zero nor as before,
    • `exists_multiple_iff` — when the progression meets zero,
    • `plain_loop` — which loops are stalled, which are left, and which go on for ever.
-/
import Esolang.Proofs.Brainfuck.Range
import Mathlib.Data.Int.GCD
import Mathlib.Data.Int.ModEq
import Mathlib.Order.Bounds.Basic
import Mathlib.Tactic.Ring

namespace Esolang.Brainfuck

open Esolang.Source (Span Token)
open Esolang.Loop (Guard Stall)
open Esolang.Machine (Input Effect Run)
open Esolang.Memory (Tape)

/-! ## §1. Bodies of loops. -/

namespace Instr

/-- Moves, counts or prints. -/
def Plain (instr : Instr) : Prop :=
  instr ∈ [right, left, increment, decrement, output]

instance : DecidablePred Plain := fun _ => List.instDecidableMemOfLawfulBEq _ _

/-- How far the instruction moves the cursor to the right. -/
def shift : Instr → Int
  | .right => 1
  | .left => -1
  | _ => 0

/-- What the instruction adds to the cell under the cursor. -/
def delta : Instr → Int
  | .increment => 1
  | .decrement => -1
  | _ => 0

end Instr

/-- How far instructions move the cursor to the right. -/
def displacement (body : List Instr) : Int :=
  (body.map Instr.shift).sum

/-- What instructions add to the cell at this distance from where they begin. -/
def change : List Instr → Int → Int
  | [], _ => 0
  | instr :: body, x => (if x = 0 then instr.delta else 0) + change body (x - instr.shift)

/-- The instructions between two indices. -/
def Program.between (program : Program) (i j : Nat) : List Instr :=
  ((program.code.toList.map Token.symbol).drop (i + 1)).take (j - (i + 1))

/-- Before this state stands a loop that ends at `j` and is entered.  Its body is
plain, comes back to where it begins, and never tries to go left of the first cell. -/
structure EntersPlainLoop (program : Program) (s : State) (j : Nat) : Prop where
  opens : ∃ span, program.code[s.index]? = some ⟨.loopOpen, span⟩
  partner : program.loops.partner? s.index = some j
  nonzero : s.tape.current ≠ 0
  plain : ∀ instr ∈ program.between s.index j, instr.Plain
  returns : displacement (program.between s.index j) = 0
  inside : ∀ before, before <+: program.between s.index j →
    0 ≤ (s.tape.cursor : Int) + displacement before

/-- The instructions stand in the program from the index `i` on. -/
def Program.Holds (program : Program) (i : Nat) (body : List Instr) : Prop :=
  ∀ m instr, body[m]? = some instr → ∃ span, program.code[i + m]? = some ⟨instr, span⟩

/-- What stands between two brackets stands there in the program. -/
theorem Program.holds_between (program : Program) (i j : Nat) :
    program.Holds (i + 1) (program.between i j) := by
  intro m instr found
  have listed : (program.code.toList.map Token.symbol)[i + 1 + m]? = some instr := by
    rw [between, List.getElem?_take] at found
    split at found
    · rwa [List.getElem?_drop] at found
    · cases found
  rw [List.getElem?_map, Array.getElem?_toList, Option.map_eq_some_iff] at listed
  obtain ⟨⟨_, span⟩, here, rfl⟩ := listed
  exact ⟨span, here⟩

/-- With a body every beginning of it stands in the program. -/
theorem Program.Holds.beginning {program : Program} {i : Nat} {before body : List Instr}
    (h : program.Holds i body) (begins : before <+: body) : program.Holds i before := by
  obtain ⟨rest, rfl⟩ := begins
  intro m instr found
  refine h m instr ?_
  rw [List.getElem?_append_left (List.getElem?_eq_some_iff.mp found).1]
  exact found

/-! ## §2. One pass over a body. -/

/-- Each cell of the second tape is that of the first with so much added, modulo 256. -/
def Gains (t t' : Tape) (d : Nat → Int) : Prop :=
  ∀ n, ((t'.cell n).toNat : Int) ≡ (t.cell n).toNat + d n [ZMOD 256]

/-- What is gained in two stretches adds up, cell by cell. -/
theorem Gains.trans {t t' t'' : Tape} {d e : Nat → Int} (h : Gains t t' d) (h' : Gains t' t'' e) :
    Gains t t'' fun n => d n + e n := by
  intro n
  have sum := (h' n).trans ((h n).add_right (e n))
  rwa [Int.add_assoc] at sum

/-- To write a cell adds to this cell alone. -/
theorem gains_write {t : Tape} {value : UInt8} {d : Int}
    (h : (value.toNat : Int) ≡ t.current.toNat + d [ZMOD 256]) :
    Gains t (t.write value) fun n => if (n : Int) - t.cursor = 0 then d else 0 := by
  intro n
  dsimp only
  rw [Tape.cell_write]
  by_cases here : n = t.cursor
  · subst here
    rw [if_pos rfl, if_pos (Int.sub_self _), Tape.cell_cursor]
    exact h
  · rw [if_neg here, if_neg (by omega), Int.add_zero]

/-- One more, modulo what a cell can hold. -/
theorem toNat_add_one (cell : UInt8) : ((cell + 1).toNat : Int) ≡ cell.toNat + 1 [ZMOD 256] := by
  rw [Int.ModEq, UInt8.toNat_add, show (1 : UInt8).toNat = 1 from rfl]
  omega

/-- One less, modulo what a cell can hold. -/
theorem toNat_sub_one (cell : UInt8) : ((cell - 1).toNat : Int) ≡ cell.toNat + -1 [ZMOD 256] := by
  rw [Int.ModEq, UInt8.toNat_sub, show (1 : UInt8).toNat = 1 from rfl]
  omega

/-- A plain body has been executed between these states. -/
structure Walked (body : List Instr) (s t : State) : Prop where
  index : t.index = s.index + body.length
  guard : t.guard = s.guard
  cursor : (t.tape.cursor : Int) = s.tape.cursor + displacement body
  cells : Gains s.tape t.tape fun n => change body (n - s.tape.cursor)

namespace Walked

/-- No instructions lead nowhere. -/
theorem refl (s : State) : Walked [] s s where
  index := rfl
  guard := rfl
  cursor := (Int.add_zero _).symm
  cells n := by
    show _ ≡ _ + 0 [ZMOD 256]
    rw [Int.add_zero]

/-- A walk over one instruction and a walk over the others. -/
theorem cons {instr : Instr} {body : List Instr} {s t u : State} (h : Walked [instr] s t)
    (h' : Walked body t u) : Walked (instr :: body) s u where
  index := by
    rw [h'.index, h.index, List.length_cons]
    simp only [List.length_cons, List.length_nil]
    omega
  guard := h'.guard.trans h.guard
  cursor := by
    rw [h'.cursor, h.cursor]
    simp only [displacement, List.map_cons, List.map_nil, List.sum_cons, List.sum_nil]
    omega
  cells n := by
    have sum := h.cells.trans h'.cells n
    have step : change [instr] (n - s.tape.cursor) + change body (n - t.tape.cursor)
        = change (instr :: body) (n - s.tape.cursor) := by
      have moved : (t.tape.cursor : Int) = s.tape.cursor + instr.shift := by
        rw [h.cursor]
        simp [displacement]
      simp only [change, moved, Int.add_zero]
      congr 2
      omega
    dsimp only at sum ⊢
    rwa [step] at sum

end Walked

/-- What one plain instruction does, where it does not try to go left of the first cell. -/
theorem walk_one {program : Program} {s : State} {instr : Instr} (plain : instr.Plain)
    (here : ∃ span, program.code[s.index]? = some ⟨instr, span⟩)
    (inside : 0 ≤ (s.tape.cursor : Int) + instr.shift) :
    ∃ t, (machine program).next? s = some t ∧ Walked [instr] s t := by
  obtain ⟨span, code⟩ := here
  have fetched : (machine program).fetch s = .found instr (.range span) := by
    simp [machine, code]
  have goes {tape : Tape} {output : String}
      (executes : execute program instr s = .next { s with index := s.index + 1, tape, output })
      (cursor : (tape.cursor : Int) = s.tape.cursor + instr.shift)
      (cells : Gains s.tape tape
        fun n => if (n : Int) - s.tape.cursor = 0 then instr.delta else 0) :
      ∃ t, (machine program).next? s = some t ∧ Walked [instr] s t := by
    refine ⟨_, Machine.next?_eq_some.mpr ⟨instr, _, fetched, executes⟩, rfl, rfl, ?_, ?_⟩
    · simpa [displacement] using cursor
    · intro n
      simpa [change] using cells n
  have still {tape : Tape} (same : ∀ n, tape.cell n = s.tape.cell n) :
      Gains s.tape tape fun n => if (n : Int) - s.tape.cursor = 0 then 0 else 0 := by
    intro n
    simp [same n]
  simp only [Instr.Plain, List.mem_cons, List.not_mem_nil, or_false] at plain
  rcases plain with rfl | rfl | rfl | rfl | rfl
  · refine goes rfl ?_ (still s.tape.cell_moveRight)
    rw [Tape.cursor_moveRight]
    rfl
  · refine goes rfl ?_ (still s.tape.cell_moveLeft)
    rw [Tape.cursor_moveLeft]
    simp only [Instr.shift] at inside ⊢
    omega
  · refine goes rfl (Int.add_zero _).symm (gains_write ?_)
    exact toNat_add_one _
  · refine goes rfl (Int.add_zero _).symm (gains_write ?_)
    exact toNat_sub_one _
  · exact goes rfl (Int.add_zero _).symm (still fun _ => rfl)

/-- **A plain body is executed to its end**, and does to the cursor and to the cells what
its instructions do together. -/
theorem walk {program : Program} :
    ∀ {body : List Instr} {s : State}, (∀ instr ∈ body, instr.Plain) →
      program.Holds s.index body →
      (∀ before, before <+: body → 0 ≤ (s.tape.cursor : Int) + displacement before) →
        ∃ t, (machine program).after? body.length s = some t ∧ Walked body s t
  | [], s, _, _, _ => ⟨s, rfl, .refl s⟩
  | instr :: body, s, plain, holds, inside => by
    obtain ⟨plain_here, plain_behind⟩ := List.forall_mem_cons.mp plain
    have shifted (before : List Instr) :
        displacement (instr :: before) = instr.shift + displacement before := by
      simp [displacement]
    have inside_here : 0 ≤ (s.tape.cursor : Int) + instr.shift := by
      have first := inside [instr] ⟨body, rfl⟩
      rwa [shifted, show displacement [] = 0 from rfl, Int.add_zero] at first
    obtain ⟨t, hn, one⟩ := walk_one plain_here (holds 0 instr rfl) inside_here
    have moved : (t.tape.cursor : Int) = s.tape.cursor + instr.shift := by
      rw [one.cursor, shifted, show displacement [] = 0 from rfl, Int.add_zero]
    have holds_behind : program.Holds t.index body := by
      intro m instr' found
      rw [one.index, Nat.add_assoc, Nat.add_comm _ m]
      exact holds (m + 1) instr' found
    have inside_behind (before : List Instr) (begins : before <+: body) :
        0 ≤ (t.tape.cursor : Int) + displacement before := by
      have longer := inside (instr :: before) ((List.prefix_cons_inj instr).mpr begins)
      rwa [shifted, ← Int.add_assoc, ← moved] at longer
    obtain ⟨u, hu, rest⟩ := walk plain_behind holds_behind inside_behind
    exact ⟨u, Machine.after?_succ.mpr ⟨t, hn, hu⟩, one.cons rest⟩

/-! ## §3. Entering the loop. -/

/-- A plain loop that is entered, with what follows from its pairing: where its end is,
and that no value of an earlier time is remembered for it. -/
structure Activation (program : Program) (s : State) (j : Nat) (last : Span) : Prop
    extends EntersPlainLoop program s j where
  closes : program.code[j]? = some ⟨.loopClose, last⟩
  back : program.loops.partner? j = some s.index
  length_between : s.index + 1 + (program.between s.index j).length = j
  free : s.guard.last? j = none

/-- Whoever enters a plain loop, having remembered none but the loops around, begins an activation
of it. -/
theorem EntersPlainLoop.activation {program : Program} {s : State} {j : Nat}
    (enters : EntersPlainLoop program s j) (paired : program.Paired)
    (around : s.guard.Within program.loops s.index) : ∃ last, Activation program s j last := by
  obtain ⟨span, opens⟩ := enters.opens
  have here : (program.code.toList.map Token.symbol)[s.index]? = some .loopOpen := by
    simp [opens]
  have later : s.index < j := by
    obtain ⟨j', partner, lt⟩ := paired.of_opening here rfl
    rw [enters.partner] at partner
    cases partner
    exact lt
  have back : program.loops.partner? j = some s.index := paired.symm enters.partner
  obtain ⟨instr, there, bracket⟩ := Loop.mem_brackets.mp (paired.ends enters.partner later).2
  rw [List.getElem?_map, Array.getElem?_toList, Option.map_eq_some_iff] at there
  obtain ⟨⟨closer, last⟩, there, rfl⟩ := there
  have closing : closer = .loopClose := by
    cases closer <;> simp [Instr.bracket?] at bracket ⊢
  subst closing
  refine ⟨last, enters, there, back, ?_, ?_⟩
  · have size := (Array.getElem?_eq_some_iff.mp there).1
    simp only [Program.between, List.length_take, List.length_drop, List.length_map,
      Array.length_toList]
    omega
  · -- What is remembered belongs to loops that began before this one.
    by_contra remembered
    obtain ⟨first, partner, lt, -⟩ := around j remembered
    rw [back] at partner
    cases partner
    exact Nat.lt_irrefl _ lt

/-! ## §4. Passes of the loop. -/

/-- The state before the body of the loop that `s` stands before, when it has been
passed `k` times: the guard remembers the cell if it has been passed at all. -/
structure Repeated (program : Program) (s : State) (j k : Nat) (u : State) : Prop where
  index : u.index = s.index + 1
  guard : u.guard = noting s.guard j (if k = 0 then none else some u.tape.current)
  cursor : u.tape.cursor = s.tape.cursor
  cells : Gains s.tape u.tape
    fun n => k * change (program.between s.index j) (n - s.tape.cursor)

/-- The state at the end of the body in the pass that makes them `k`. -/
structure Passed (program : Program) (s : State) (j k : Nat) (v : State) : Prop where
  index : v.index = j
  cursor : v.tape.cursor = s.tape.cursor
  cells : Gains s.tape v.tape
    fun n => k * change (program.between s.index j) (n - s.tape.cursor)

/-- What `k` passes make of the cell that the loop is about. -/
abbrev progression (program : Program) (s : State) (j k : Nat) : Int :=
  s.tape.current.toNat + k * change (program.between s.index j) 0

/-- Two cells are equal if they are so modulo what a cell can hold. -/
theorem eq_iff_modEq (a b : UInt8) : a = b ↔ (a.toNat : Int) ≡ b.toNat [ZMOD 256] := by
  have := a.toNat_lt
  have := b.toNat_lt
  rw [Int.ModEq, ← UInt8.toNat_inj]
  omega

section
variable {program : Program} {s : State} {j k : Nat} {last : Span}

/-- The cell under the cursor, when the body has been gone through so often, lies on the
progression. -/
theorem current_of_gains {t : Tape} (cursor : t.cursor = s.tape.cursor)
    (cells : Gains s.tape t fun n => k * change (program.between s.index j) (n - s.tape.cursor)) :
    (t.current.toNat : Int) ≡ progression program s j k [ZMOD 256] := by
  have cell := cells s.tape.cursor
  dsimp only at cell
  rwa [Tape.cell_cursor, ← cursor, Tape.cell_cursor, Int.sub_self] at cell

/-- So it does at the beginning of the body. -/
theorem Repeated.current {u : State} (h : Repeated program s j k u) :
    (u.tape.current.toNat : Int) ≡ progression program s j k [ZMOD 256] :=
  current_of_gains h.cursor h.cells

/-- And at its end. -/
theorem Passed.current {v : State} (h : Passed program s j k v) :
    (v.tape.current.toNat : Int) ≡ progression program s j k [ZMOD 256] :=
  current_of_gains h.cursor h.cells

/-- It is zero just where the progression is. -/
theorem Passed.current_eq_zero_iff {v : State} (h : Passed program s j k v) :
    v.tape.current = 0 ↔ progression program s j k ≡ 0 [ZMOD 256] := by
  rw [eq_iff_modEq]
  exact ⟨h.current.symm.trans, h.current.trans⟩

/-- A pass ends with the cell that it began with if the body adds nothing to it. -/
theorem Repeated.current_eq_iff {u v : State} (h : Repeated program s j k u)
    (h' : Passed program s j (k + 1) v) :
    u.tape.current = v.tape.current
      ↔ change (program.between s.index j) 0 ≡ 0 [ZMOD 256] := by
  have before := h.current
  have behind := h'.current
  rw [eq_iff_modEq]
  simp only [progression, Int.natCast_add, Int.add_mul] at before behind
  simp only [Int.ModEq] at *
  omega

namespace Activation

variable (a : Activation program s j last)
include a

/-- The beginning of the loop leads to its body. -/
theorem enter : ∃ u, (machine program).next? s = some u ∧ Repeated program s j 0 u := by
  obtain ⟨span, opens⟩ := a.opens
  have fetched : (machine program).fetch s = .found .loopOpen (.range span) := by
    simp [machine, opens]
  have executes : execute program .loopOpen s = .next s.advance := by
    simp only [execute, a.nonzero, if_false]
  refine ⟨_, Machine.next?_eq_some.mpr ⟨_, _, fetched, executes⟩, rfl, rfl, rfl, ?_⟩
  intro n
  simp [State.advance]

/-- A beginning of the body is executed to its end. -/
theorem walk_beginning {u : State} (h : Repeated program s j k u) {beginning : List Instr}
    (begins : beginning <+: program.between s.index j) :
    ∃ w, (machine program).after? beginning.length u = some w ∧ Walked beginning u w := by
  have holds : program.Holds u.index beginning := by
    rw [h.index]
    exact (program.holds_between s.index j).beginning begins
  have inside (before : List Instr) (begins' : before <+: beginning) :
      0 ≤ (u.tape.cursor : Int) + displacement before := by
    rw [h.cursor]
    exact a.inside before (begins'.trans begins)
  exact walk (fun instr mem => a.plain instr (begins.subset mem)) holds inside

/-- Where the machine is in the course of a pass. -/
theorem position {u : State} (h : Repeated program s j k u) {m : Nat}
    (le : m ≤ (program.between s.index j).length) :
    ∃ w, (machine program).after? m u = some w ∧ w.index = s.index + 1 + m := by
  obtain ⟨w, hw, walked⟩ := a.walk_beginning h (List.take_prefix m _)
  have length : ((program.between s.index j).take m).length = m := by
    rw [List.length_take]
    omega
  rw [length] at hw
  refine ⟨w, hw, ?_⟩
  rw [walked.index, h.index, length]

/-- **One more pass comes to the end of the body.** -/
theorem pass {u : State} (h : Repeated program s j k u) :
    ∃ v, (machine program).after? (program.between s.index j).length u = some v
      ∧ Passed program s j (k + 1) v ∧ v.guard = u.guard := by
  obtain ⟨v, hv, walked⟩ := a.walk_beginning h (List.prefix_refl _)
  refine ⟨v, hv, ⟨?_, ?_, ?_⟩, walked.guard⟩
  · rw [walked.index, h.index, a.length_between]
  · have cursor := walked.cursor
    rw [a.returns, h.cursor] at cursor
    omega
  · intro n
    have sum := h.cells.trans walked.cells n
    dsimp only at sum ⊢
    rw [h.cursor] at sum
    rwa [Int.natCast_add, Int.add_mul, Int.natCast_one, Int.one_mul]

/-- What becomes of the end of a pass hangs on the cell, and on the cell of the pass
before it. -/
theorem execute_close {v : State} (h : Passed program s j k v) {previous : Option UInt8}
    (guard : v.guard = noting s.guard j previous) :
    execute program .loopClose v =
      if v.tape.current = 0 then .next { v with index := j + 1, guard := s.guard }
      else if previous = some v.tape.current then .fault ⟨s.tape.cursor, v.tape.current⟩
      else .next { v with
        index := s.index + 1, guard := noting s.guard j (some v.tape.current) } := by
  unfold execute
  dsimp only
  rw [guard, h.index, arrive_noting a.free, h.cursor]
  by_cases zero : v.tape.current = 0
  · simp only [zero, if_true, State.advance]
  · by_cases same : previous = some v.tape.current
    · simp only [zero, same, if_false, if_true]
    · simp only [zero, same, if_false, State.jump, a.back, Option.getD_some]

/-- Behind the body the machine fetches the bracket that closes the loop. -/
theorem fetch_close {v : State} (h : Passed program s j k v) :
    (machine program).fetch v = .found .loopClose (.range last) := by
  simp [machine, h.index, a.closes]

/-- **The loop is repeated** while its cell is neither zero nor what it was. -/
theorem again {u : State} (h : Repeated program s j k u)
    (nonzero : ¬ progression program s j (k + 1) ≡ 0 [ZMOD 256])
    (changes : k = 0 ∨ ¬ change (program.between s.index j) 0 ≡ 0 [ZMOD 256]) :
    ∃ w, (machine program).after? ((program.between s.index j).length + 1) u = some w
      ∧ Repeated program s j (k + 1) w := by
  obtain ⟨v, hv, passed, guard⟩ := a.pass h
  have nonzero : v.tape.current ≠ 0 := fun zero => nonzero (passed.current_eq_zero_iff.mp zero)
  have unlike : (if k = 0 then none else some u.tape.current) ≠ some v.tape.current := by
    by_cases first : k = 0
    · rw [if_pos first]
      exact nofun
    · rw [if_neg first]
      intro same
      refine (changes.resolve_left first) ((h.current_eq_iff passed).mp ?_)
      exact Option.some.inj same
  have executes := a.execute_close passed (guard.trans h.guard)
  rw [if_neg nonzero, if_neg unlike] at executes
  have hn := Machine.next?_eq_some.mpr ⟨_, _, a.fetch_close passed, executes⟩
  refine ⟨_, Machine.after?_succ_last.mpr ⟨v, hv, hn⟩, rfl, ?_, passed.cursor, passed.cells⟩
  rw [if_neg (Nat.succ_ne_zero k)]

end Activation

/-- The loop that `s` stands before is not left in its first `k` passes, and not stalled. -/
structure GoesOn (program : Program) (s : State) (j k : Nat) : Prop where
  nonzero : ∀ m, 1 ≤ m → m ≤ k → ¬ progression program s j m ≡ 0 [ZMOD 256]
  changes : k ≤ 1 ∨ ¬ change (program.between s.index j) 0 ≡ 0 [ZMOD 256]

/-- Whoever has gone on so often has gone on less often before. -/
theorem GoesOn.of_le {m : Nat} (h : GoesOn program s j k) (le : m ≤ k) :
    GoesOn program s j m where
  nonzero l one le' := h.nonzero l one (Nat.le_trans le' le)
  changes := h.changes.imp_left le.trans

/-- The machine has not come out of the loop for `n` cycles. -/
def Remains (program : Program) (s : State) (j n : Nat) : Prop :=
  ∀ m, m ≤ n → ∃ u, (machine program).after? m s = some u ∧ s.index ≤ u.index ∧ u.index ≤ j

namespace Activation

variable (a : Activation program s j last)
include a

/-- **Passes follow each other**, each in as many cycles as the body has instructions
and one more. -/
theorem passes : ∀ {k : Nat}, GoesOn program s j k →
    ∃ u, (machine program).after? (1 + k * ((program.between s.index j).length + 1)) s = some u
      ∧ Repeated program s j k u
  | 0, _ => by
    obtain ⟨u, hn, repeated⟩ := a.enter
    refine ⟨u, ?_, repeated⟩
    rw [Nat.zero_mul]
    exact Machine.after?_succ.mpr ⟨u, hn, rfl⟩
  | k + 1, goes => by
    obtain ⟨u, hu, repeated⟩ := passes (goes.of_le (Nat.le_succ k))
    have changes : k = 0 ∨ ¬ change (program.between s.index j) 0 ≡ 0 [ZMOD 256] :=
      goes.changes.imp_left fun le => by omega
    obtain ⟨w, hw, repeated'⟩ :=
      a.again repeated (goes.nonzero _ (by omega) (Nat.le_refl _)) changes
    refine ⟨w, ?_, repeated'⟩
    rw [Nat.succ_mul, ← Nat.add_assoc, Machine.after?_add, hu]
    exact hw

/-- Where the machine is in the course of the loop. -/
theorem position_of_goesOn (goes : GoesOn program s j k) {m : Nat}
    (lt : m < (k + 1) * ((program.between s.index j).length + 1)) :
    ∃ w, (machine program).after? (1 + m) s = some w
      ∧ w.index = s.index + 1 + m % ((program.between s.index j).length + 1) := by
  have done : m / ((program.between s.index j).length + 1) ≤ k :=
    Nat.le_of_lt_succ (Nat.div_lt_of_lt_mul (by rwa [Nat.mul_comm]))
  obtain ⟨u, hu, repeated⟩ := a.passes (goes.of_le done)
  have inside : m % ((program.between s.index j).length + 1)
      ≤ (program.between s.index j).length := Nat.le_of_lt_succ (Nat.mod_lt _ (Nat.succ_pos _))
  obtain ⟨w, hw, index⟩ := a.position repeated inside
  refine ⟨w, ?_, index⟩
  have split := Nat.div_add_mod' m ((program.between s.index j).length + 1)
  rw [← split, ← Nat.add_assoc, Machine.after?_add, hu]
  exact hw

/-- While the loop goes on, every cycle is spent in it. -/
theorem remains (goes : GoesOn program s j k) {n : Nat}
    (le : n ≤ (k + 1) * ((program.between s.index j).length + 1)) : Remains program s j n := by
  intro m hm
  have behind := a.length_between
  cases m with
  | zero => exact ⟨s, rfl, Nat.le_refl _, by omega⟩
  | succ m =>
    obtain ⟨w, hw, index⟩ := a.position_of_goesOn goes (show m < _ by omega)
    have inside := Nat.mod_lt m (show 0 < (program.between s.index j).length + 1 by omega)
    rw [Nat.add_comm 1 m] at hw
    exact ⟨w, hw, by omega, by omega⟩

end Activation

end

/-! ## §5. When a progression meets zero. -/

/-- **A progression meets zero modulo 256** if and only if what its step and 256 have in
common divides its first term. -/
theorem exists_multiple_iff (c d : Int) :
    (∃ k : Nat, 1 ≤ k ∧ c + k * d ≡ 0 [ZMOD 256]) ↔ (Int.gcd d 256 : Int) ∣ c := by
  constructor
  · rintro ⟨k, -, meets⟩
    have whole : (Int.gcd d 256 : Int) ∣ c + k * d :=
      (Int.gcd_dvd_right d 256).trans (Int.modEq_zero_iff_dvd.mp meets)
    exact (Int.dvd_add_left ((Int.gcd_dvd_left d 256).mul_left _)).mp whole
  · rintro ⟨e, rfl⟩
    -- Of the numbers that multiply the step rightly, one is positive.
    obtain ⟨x, y, bezout⟩ : ∃ x y, (Int.gcd d 256 : Int) = d * x + 256 * y :=
      ⟨_, _, Int.gcd_eq_gcd_ab d 256⟩
    refine ⟨((-x * e) % 256 + 256).toNat, by omega, ?_⟩
    have positive : ((((-x * e) % 256 + 256).toNat : Nat) : Int) = (-x * e) % 256 + 256 :=
      Int.toNat_of_nonneg (by omega)
    have rightly : (-x * e) % 256 + 256 ≡ -x * e [ZMOD 256] := by
      rw [Int.ModEq]
      omega
    rw [positive]
    calc (Int.gcd d 256 : Int) * e + ((-x * e) % 256 + 256) * d
        ≡ (Int.gcd d 256 : Int) * e + -x * e * d [ZMOD 256] := (rightly.mul_right d).add_left _
      _ = 256 * (y * e) := by rw [bezout]; ring
      _ ≡ 0 [ZMOD 256] := Int.modEq_zero_iff_dvd.mpr (Int.dvd_mul_right _ _)

/-! ## §6. What becomes of the loop. -/

/-- Where nothing is added the cell stays as it is. -/
theorem progression_of_same {program : Program} {s : State} {j : Nat}
    (same : change (program.between s.index j) 0 ≡ 0 [ZMOD 256]) (k : Nat) :
    progression program s j k ≡ s.tape.current.toNat [ZMOD 256] := by
  have none_added := (same.mul_left (k : Int)).add_left (s.tape.current.toNat : Int)
  rwa [Int.mul_zero, Int.add_zero] at none_added

/-- A cell that meets zero does so for a first time. -/
theorem exists_least {program : Program} {s : State} {j : Nat}
    (changes : ¬ change (program.between s.index j) 0 ≡ 0 [ZMOD 256])
    (divides : (Int.gcd (change (program.between s.index j) 0) 256 : Int)
      ∣ s.tape.current.toNat) :
    ∃ k, IsLeast {k : Nat | 1 ≤ k ∧ progression program s j k ≡ 0 [ZMOD 256]} (k + 1)
      ∧ GoesOn program s j k := by
  have meets := (exists_multiple_iff _ _).mpr divides
  have least : IsLeast {k : Nat | 1 ≤ k ∧ progression program s j k ≡ 0 [ZMOD 256]}
      (Nat.find meets) := ⟨Nat.find_spec meets, fun k h => Nat.find_min' meets h⟩
  obtain ⟨k, eq⟩ := Nat.exists_eq_add_of_le' least.1.1
  rw [eq] at least
  refine ⟨k, least, fun m one le zero => ?_, .inr changes⟩
  have := least.2 ⟨one, zero⟩
  omega

namespace Activation

variable {program : Program} {s : State} {j : Nat} {last : Span}
variable (a : Activation program s j last)
include a

/-- A loop that is entered begins with a cell that is not zero. -/
theorem progression_zero : ¬ progression program s j 0 ≡ 0 [ZMOD 256] := by
  intro zero
  refine a.nonzero ((eq_iff_modEq _ _).mpr ?_)
  simpa [progression] using zero

/-- **A loop whose body adds nothing to its cell is stalled** when it comes to its end
for the second time. -/
theorem stalls (same : change (program.between s.index j) 0 ≡ 0 [ZMOD 256]) :
    GoesOn program s j 1
      ∧ ∃ t, (machine program).after? (2 * (program.between s.index j).length + 2) s = some t
        ∧ (machine program).Stops t
          ⟨t, 1, .failed ⟨s.tape.cursor, s.tape.current⟩ (.range last)⟩ := by
  have cell (k : Nat) := progression_of_same same k
  have nonzero (k : Nat) : ¬ progression program s j k ≡ 0 [ZMOD 256] := fun zero =>
    a.progression_zero ((cell 0).trans ((cell k).symm.trans zero))
  have goes : GoesOn program s j 1 := ⟨fun m _ _ => nonzero m, .inl (Nat.le_refl 1)⟩
  obtain ⟨u, hu, repeated⟩ := a.passes goes
  obtain ⟨v, hv, passed, guard⟩ := a.pass repeated
  have unlike_zero : v.tape.current ≠ 0 := fun zero =>
    nonzero 2 (passed.current_eq_zero_iff.mp zero)
  have unchanged : v.tape.current = s.tape.current :=
    (eq_iff_modEq _ _).mpr (passed.current.trans (cell 2))
  have executes := a.execute_close passed (guard.trans repeated.guard)
  rw [if_neg unlike_zero, if_neg Nat.one_ne_zero, (repeated.current_eq_iff passed).mpr same,
    if_pos rfl, unchanged] at executes
  refine ⟨goes, v, ?_, .fault (a.fetch_close passed) executes⟩
  rw [show 2 * (program.between s.index j).length + 2
      = 1 + 1 * ((program.between s.index j).length + 1) + (program.between s.index j).length by
    omega, Machine.after?_add, hu]
  exact hv

/-- **A loop is left** when its cell has become zero. -/
theorem leaves {k : Nat} (goes : GoesOn program s j k)
    (zero : progression program s j (k + 1) ≡ 0 [ZMOD 256]) :
    ∃ t, (machine program).after?
          ((k + 1) * ((program.between s.index j).length + 1) + 1) s = some t
      ∧ t.index = j + 1 ∧ t.tape.cursor = s.tape.cursor ∧ t.tape.current = 0
      ∧ Gains s.tape t.tape
        fun n => (k + 1 : Nat) * change (program.between s.index j) (n - s.tape.cursor) := by
  obtain ⟨u, hu, repeated⟩ := a.passes goes
  obtain ⟨v, hv, passed, guard⟩ := a.pass repeated
  have cell : v.tape.current = 0 := passed.current_eq_zero_iff.mpr zero
  have executes := a.execute_close passed (guard.trans repeated.guard)
  rw [if_pos cell] at executes
  have hn := Machine.next?_eq_some.mpr ⟨_, _, a.fetch_close passed, executes⟩
  refine ⟨_, Machine.after?_succ_last.mpr ⟨v, ?_, hn⟩, rfl, passed.cursor, cell, passed.cells⟩
  rw [Nat.succ_mul, show k * ((program.between s.index j).length + 1)
        + ((program.between s.index j).length + 1)
      = 1 + k * ((program.between s.index j).length + 1) + (program.between s.index j).length by
    omega, Machine.after?_add, hu]
  exact hv

/-- In two passes the end of the loop is met twice. -/
theorem arrivals (goes : GoesOn program s j 1) {m : Nat} {u : State}
    (hu : (machine program).after? m s = some u)
    (le : m ≤ 2 * (program.between s.index j).length + 2) :
    u.index = j ↔ m = (program.between s.index j).length + 1
      ∨ m = 2 * (program.between s.index j).length + 2 := by
  have behind := a.length_between
  cases m with
  | zero =>
    cases hu
    omega
  | succ m =>
    obtain ⟨w, hw, index⟩ := a.position_of_goesOn goes (show m < _ by omega)
    rw [Nat.add_comm 1 m, hu] at hw
    cases hw
    rcases Nat.lt_or_ge m ((program.between s.index j).length + 1) with first | second
    · rw [Nat.mod_eq_of_lt first] at index
      omega
    · rw [Nat.mod_eq_sub_mod second, Nat.mod_eq_of_lt (by omega)] at index
      omega

/-- **A loop whose cell never becomes zero is never left.** -/
theorem remains_forever (changes : ¬ change (program.between s.index j) 0 ≡ 0 [ZMOD 256])
    (none_left : ¬ (Int.gcd (change (program.between s.index j) 0) 256 : Int)
      ∣ s.tape.current.toNat) (m : Nat) : Remains program s j m := by
  have goes : GoesOn program s j m := by
    refine ⟨fun k one _ zero => none_left ?_, .inr changes⟩
    exact (exists_multiple_iff _ _).mp ⟨k, one, zero⟩
  refine a.remains goes ?_
  calc m ≤ (m + 1) * 1 := by omega
    _ ≤ (m + 1) * ((program.between s.index j).length + 1) :=
        Nat.mul_le_mul_left _ (Nat.succ_pos _)

/-- A loop whose cell changes is not stalled: the machine goes on while it is there. -/
theorem not_stalled (changes : ¬ change (program.between s.index j) 0 ≡ 0 [ZMOD 256]) {m : Nat}
    (stays : Remains program s j m) : ∃ t, (machine program).after? (m + 1) s = some t := by
  by_cases divides : (Int.gcd (change (program.between s.index j) 0) 256 : Int)
      ∣ s.tape.current.toNat
  · obtain ⟨k, least, goes⟩ := exists_least changes divides
    obtain ⟨t, ht, index, -⟩ := a.leaves goes least.1.2
    -- Behind the loop the machine does not remain in it.
    have lt : m < (k + 1) * ((program.between s.index j).length + 1) + 1 := by
      by_contra past
      obtain ⟨u, hu, -, inside⟩ := stays _ (Nat.le_of_not_lt past)
      rw [ht] at hu
      cases hu
      omega
    obtain ⟨u, hu, -⟩ := Machine.after?_of_le ht (show m + 1 ≤ _ from lt)
    exact ⟨u, hu⟩
  · obtain ⟨t, ht, -⟩ := a.remains_forever changes divides (m + 1) (m + 1) (Nat.le_refl _)
    exact ⟨t, ht⟩

end Activation

/-- **What becomes of a plain loop is decided by its body and its cell.** If the body
adds nothing to the cell, the run fails when the end of the loop is met for the second
time.  Otherwise the loop is not stalled.  It is left after as few passes as make the
cell zero, and every cell has gained in each pass what the body adds to it; or what the
body adds to the cell and 256 have a divisor in common that does not divide the cell, and
the machine never comes out of the loop. -/
theorem plain_loop {source : String} {program : Program} (parsed : parse source = .ok program)
    {input : Input} {n : Nat} {s : State}
    (reached : (machine program).after? n (.initial input) = some s) {j : Nat}
    (enters : EntersPlainLoop program s j) :
    let body := program.between s.index j
    let step := change body 0
    (step ≡ 0 [ZMOD 256] →
      ∃ t stall span, (machine program).Completes (.initial input)
            ⟨t, n + (2 * body.length + 2 + 1), .failed stall (.range span)⟩
        ∧ stall = ⟨s.tape.cursor, s.tape.current⟩
        ∧ (stalled stall).kind = .infiniteLoop
        ∧ program.code[j]? = some ⟨.loopClose, span⟩
        ∧ Remains program s j (2 * body.length + 2)
        ∧ ∀ m u, (machine program).after? m s = some u → m ≤ 2 * body.length + 2 →
            (u.index = j ↔ m = body.length + 1 ∨ m = 2 * body.length + 2))
    ∧ (¬ step ≡ 0 [ZMOD 256] →
      (∀ m, Remains program s j m → ∃ t, (machine program).after? (m + 1) s = some t)
      ∧ ((Int.gcd step 256 : Int) ∣ s.tape.current.toNat →
        ∃ k, IsLeast {k : Nat | 1 ≤ k ∧ s.tape.current.toNat + k * step ≡ 0 [ZMOD 256]} k
          ∧ Remains program s j (k * (body.length + 1))
          ∧ ∃ t, (machine program).after? (k * (body.length + 1) + 1) s = some t
            ∧ t.index = j + 1
            ∧ t.tape.cursor = s.tape.cursor
            ∧ t.tape.cell s.tape.cursor = 0
            ∧ ∀ i, ((t.tape.cell i).toNat : Int)
                ≡ (s.tape.cell i).toNat + k * change body (i - s.tape.cursor) [ZMOD 256])
      ∧ (¬ (Int.gcd step 256 : Int) ∣ s.tape.current.toNat →
        ∀ m, Remains program s j m)) := by
  intro body step
  obtain ⟨last, a⟩ :=
    enters.activation (paired_of_parse parsed) (within_of_after? (paired_of_parse parsed) reached)
  refine ⟨fun same => ?_, fun changes => ⟨fun m stays => a.not_stalled changes stays,
    fun divides => ?_, a.remains_forever changes⟩⟩
  · obtain ⟨goes, t, ht, stops⟩ := a.stalls same
    have twice : 2 * body.length + 2 ≤ (1 + 1) * (body.length + 1) := by omega
    refine ⟨t, _, last, ⟨n + (2 * body.length + 2), t, _, ?_, stops, rfl⟩, rfl, rfl, a.closes,
      a.remains goes twice, fun m u hu le => a.arrivals goes hu le⟩
    rw [Machine.after?_add, reached]
    exact ht
  · obtain ⟨k, least, goes⟩ := exists_least changes divides
    obtain ⟨t, ht, index, cursor, cell, cells⟩ := a.leaves goes least.1.2
    refine ⟨k + 1, least, a.remains goes (Nat.le_refl _), t, ht, index, cursor, ?_, cells⟩
    rw [← cursor, Tape.cell_cursor]
    exact cell

/-- Of a cell that holds four each pass takes two, and the next cell gains three. -/
theorem plain_loop_tripling :
    ∃ program s, parse "++++[>+++<--]" = .ok program
      ∧ (machine program).after? 4 (.initial ⟨[]⟩) = some s
      ∧ EntersPlainLoop program s 12
      ∧ ∃ t, (machine program).after? 17 s = some t ∧ t.tape.cell 0 = 0 ∧ t.tape.cell 1 = 6 := by
  obtain ⟨program, s, parsed, reached, index, tape, opens, partner, body⟩ :
      ∃ program s, parse "++++[>+++<--]" = .ok program
        ∧ (machine program).after? 4 (.initial ⟨[]⟩) = some s
        ∧ s.index = 4 ∧ s.tape = ⟨[], 4, []⟩ ∧ program.code[4]? = some ⟨.loopOpen, ⟨4, 5⟩⟩
        ∧ program.loops.partner? 4 = some 12
        ∧ program.between 4 12
          = [.right, .increment, .increment, .increment, .left, .decrement, .decrement] := by
    refine ⟨_, _, rfl, rfl, ?_⟩
    decide +kernel
  have enters : EntersPlainLoop program s 12 := by
    refine ⟨?_, ?_, ?_, ?_, ?_, ?_⟩
    · rw [index]
      exact ⟨_, opens⟩
    · rw [index]
      exact partner
    · rw [tape]
      decide
    · rw [index, body]
      decide
    · rw [index, body]
      decide
    · rw [index, body, tape]
      intro before begins
      have all : ∀ before ∈ List.inits [Instr.right, .increment, .increment, .increment, .left,
          .decrement, .decrement],
          0 ≤ ((⟨[], 4, []⟩ : Tape).cursor : Int) + displacement before := by
        decide
      exact all before ((List.mem_inits _ _).mpr begins)
  refine ⟨program, s, parsed, reached, enters, ?_⟩
  have changing := (plain_loop parsed reached enters).2
  rw [index, body, tape] at changing
  obtain ⟨-, left, -⟩ := changing (by decide)
  obtain ⟨k, least, -, t, ht, -, -, own, cells⟩ := left (by decide)
  have two : k = 2 := by
    have one := least.1.1
    have le : k ≤ 2 := least.2 ⟨by decide, by decide⟩
    obtain rfl | rfl : k = 1 ∨ k = 2 := by omega
    · exact absurd least.1.2 (by decide)
    · rfl
  subst two
  refine ⟨t, ht, own, ?_⟩
  rw [eq_iff_modEq]
  exact cells 1

end Esolang.Brainfuck
