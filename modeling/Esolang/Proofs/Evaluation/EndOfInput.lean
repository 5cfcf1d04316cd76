/-
  Esolang.Proofs.Evaluation.EndOfInput
  ────────────────────────────────────
  **THE END OF THE INPUT READS AS ZERO BYTES.**

  Where there is no byte any more, Brainfuck and COW read a zero.  So it makes no difference
  to them whether zero bytes stand there: two runs, one with zero bytes behind its input,
  go in lockstep, although the one comes to the end of its input and the other does not.

    • `readByte_addZeros` — a zero byte at the end is read, or nothing, which counts as zero,
    • `readInteger_addZeros` — a zero byte ends a number as the end of the input does, and
      stays behind it,
    • `Brainfuck.lockstep_addZeros`, `Cow.lockstep_addZeros` — the two runs in lockstep,
    • **`evaluate_addZeros`** — what is made of the program is the same.
-/
import Esolang.Evaluation
import Esolang.Proofs.Machine.Integers
import Esolang.Proofs.Machine.Lockstep

namespace Esolang

open Esolang.Diagnostic (Report Finding Site)
open Esolang.Machine (Input Settings Effect Run Lockstep UpTo)
open Esolang.Text (isAsciiBlank isAsciiDigit)

/-! ## §1. Reading where zero bytes follow. -/

namespace Machine.Input

/-- The input with so many zero bytes behind it. -/
def addZeros (k : Nat) (input : Input) : Input :=
  ⟨input.rest ++ List.replicate k 0⟩

/-- **A byte is read as before, and at the end it is a zero one way or the other.**  One of
the zero bytes may be consumed. -/
theorem readByte_addZeros (k : Nat) (input : Input) :
    (input.addZeros k).readByte.1.getD 0 = input.readByte.1.getD 0
      ∧ ∃ left, (input.addZeros k).readByte.2 = input.readByte.2.addZeros left := by
  obtain ⟨bytes⟩ := input
  cases bytes with
  | cons byte rest => exact ⟨rfl, k, rfl⟩
  | nil =>
    cases k with
    | zero => exact ⟨rfl, 0, rfl⟩
    | succ k => exact ⟨rfl, k, rfl⟩

section
variable {p : UInt8 → Bool} {more : List UInt8}

/-- What is taken does not go into bytes at which taking stops. -/
theorem takeWhile_append_stops (stops : ∀ b ∈ more.head?, p b = false) (bytes : List UInt8) :
    (bytes ++ more).takeWhile p = bytes.takeWhile p := by
  induction bytes with
  | nil => exact takeWhile_of_stops stops
  | cons b bytes ih =>
    rw [List.cons_append, List.takeWhile_cons, List.takeWhile_cons, ih]

/-- And neither does what is dropped. -/
theorem dropWhile_append_stops (stops : ∀ b ∈ more.head?, p b = false) (bytes : List UInt8) :
    (bytes ++ more).dropWhile p = bytes.dropWhile p ++ more := by
  induction bytes with
  | nil => exact dropWhile_of_stops stops
  | cons b bytes ih =>
    rw [List.cons_append, List.dropWhile_cons, List.dropWhile_cons, ih]
    split
    · rfl
    · rfl

end

/-- A zero byte ends whatever it does not belong to. -/
theorem stops_zeros {p : UInt8 → Bool} (zero : p 0 = false) (k : Nat) :
    ∀ b ∈ (List.replicate k (0 : UInt8)).head?, p b = false := by
  intro b head
  rw [Option.mem_def, List.head?_replicate] at head
  split at head
  · cases head
  · cases head
    exact zero

/-- A sign is a sign whatever follows it, and a zero byte is none. -/
theorem takeSign_zeros (k : Nat) (bytes : List UInt8) :
    takeSign (bytes ++ List.replicate k 0)
      = ((takeSign bytes).1, (takeSign bytes).2 ++ List.replicate k 0) := by
  cases bytes with
  | nil =>
    cases k with
    | zero => rfl
    | succ k => rfl
  | cons b bytes =>
    rw [List.cons_append]
    by_cases minus : b = 45
    · subst minus
      rfl
    by_cases plus : b = 43
    · subst plus
      rfl
    simp [takeSign, minus, plus]

/-- **A zero byte ends a number as the end of the input does**, and stays behind it: after
digits, after a sign without digits and after blanks. -/
theorem readInteger_addZeros (k : Nat) (input : Input) :
    (input.addZeros k).readInteger = (input.readInteger.1, input.readInteger.2.addZeros k) := by
  have blanks := dropWhile_append_stops (stops_zeros (p := isAsciiBlank) rfl k) input.rest
  have digits := takeWhile_append_stops (stops_zeros (p := isAsciiDigit) rfl k)
    (takeSign (input.rest.dropWhile isAsciiBlank)).2
  have behind := dropWhile_append_stops (stops_zeros (p := isAsciiDigit) rfl k)
    (takeSign (input.rest.dropWhile isAsciiBlank)).2
  simp only [readInteger, addZeros, blanks, takeSign_zeros, digits, behind]
  split
  · rfl
  · rfl

/-- An input that ends after a sign keeps the sign. -/
example :
    (⟨[32, 45]⟩ : Input).readInteger = (none, ⟨[45]⟩)
      ∧ (addZeros 2 ⟨[32, 45]⟩).readInteger = (none, ⟨[45, 0, 0]⟩) := by
  decide

end Machine.Input

/-! ## §2. Brainfuck. -/

namespace Brainfuck

variable {program : Program}

/-- The state with so many zero bytes behind the input. -/
def State.addZeros (k : Nat) (s : State) : State :=
  { s with input := s.input.addZeros k }

/-- Nothing but `,` looks at the input. -/
theorem execute_addZeros {instr : Instr} (ne : instr ≠ .input) (k : Nat) (s : State) :
    execute program instr (s.addZeros k) = (execute program instr s).map (State.addZeros k) := by
  cases instr with
  | input => exact absurd rfl ne
  | loopOpen =>
    simp only [execute, State.addZeros]
    by_cases zero : s.tape.current = 0
    · simp only [zero, if_true]
      rfl
    · simp only [zero, if_false]
      rfl
  | loopClose =>
    simp only [execute, State.addZeros]
    cases s.guard.arrive s.index s.tape.current with
    | leave guard => rfl
    | again guard => rfl
    | stalled => rfl
  | _ => rfl

/-- **An instruction does the same**, whatever zero bytes are behind the input. -/
theorem mirrors_addZeros (instr : Instr) (k : Nat) (s : State) :
    (execute program instr s).Mirrors (UpTo State.addZeros) (UpTo State.addZeros) Eq
      (execute program instr (s.addZeros k)) := by
  by_cases input : instr = .input
  · subst input
    -- At the end the second run consumes a zero byte that the first does not have.
    obtain ⟨byte, left, rest⟩ := s.input.readByte_addZeros k
    refine .next ⟨left, ?_⟩
    show State.advance { s with
        tape := s.tape.write ((s.input.addZeros k).readByte.1.getD 0)
        input := (s.input.addZeros k).readByte.2 } = _
    rw [byte, rest]
    rfl
  · rw [execute_addZeros input]
    exact Effect.mirrors_map k _

theorem lockstep_addZeros (program : Program) :
    Lockstep (machine program) (machine program) (UpTo State.addZeros) Eq Eq :=
  .of_grow (fun _ _ => rfl) (fun _ _ => rfl) mirrors_addZeros

end Brainfuck

/-! ## §3. COW. -/

namespace Cow

variable {program : Program}

/-- The state with so many zero bytes behind the input. -/
def State.addZeros (k : Nat) (s : State) : State :=
  { s with input := s.input.addZeros k }

/-- Nothing but `Moo` and `oom` looks at the input. -/
theorem execute_addZeros {op : Opcode} (exchange : op ≠ .exchange) (readInt : op ≠ .readInt)
    (k : Nat) (s : State) :
    execute program op (s.addZeros k) = (execute program op s).map (State.addZeros k) := by
  cases op with
  | exchange => exact absurd rfl exchange
  | readInt => exact absurd rfl readInt
  | loopClose =>
    simp only [execute, State.addZeros]
    cases s.guard.arrive s.index s.tape.current with
    | leave guard => rfl
    | stalled => rfl
    | again guard =>
      simp only [State.jump]
      cases program.loops.partner? s.index <;> rfl
  | loopOpen =>
    simp only [execute, State.addZeros, State.jump]
    by_cases zero : s.tape.current = 0
    · simp only [zero, if_true]
      cases program.loops.partner? s.index <;> rfl
    · simp only [zero, if_false]
      rfl
  | select =>
    simp only [execute, State.addZeros]
    cases Opcode.ofCell? s.tape.current <;> rfl
  | register =>
    simp only [execute, State.useRegister, State.addZeros]
    cases s.register <;> rfl
  | _ => rfl

/-- `Moo` in a zero cell reads the same, and in any other it prints. -/
theorem exchange_addZeros (k : Nat) (s : State) :
    ∃ left, (s.addZeros k).exchange = s.exchange.addZeros left := by
  by_cases zero : s.tape.current = 0
  · obtain ⟨byte, left, rest⟩ := s.input.readByte_addZeros k
    refine ⟨left, ?_⟩
    simp only [State.exchange, State.addZeros, zero, if_true, byte, rest]
  · refine ⟨k, ?_⟩
    simp only [State.exchange, State.addZeros, zero, if_false]

/-- `oom` reads the same. -/
theorem readInt_addZeros (k : Nat) (s : State) :
    (s.addZeros k).readInt = s.readInt.addZeros k := by
  simp only [State.readInt, State.addZeros, Input.readInteger_addZeros]

/-- **A command does the same**, whatever zero bytes are behind the input. -/
theorem mirrors_addZeros (op : Opcode) (k : Nat) (s : State) :
    (execute program op s).Mirrors (UpTo State.addZeros) (UpTo State.addZeros) Eq
      (execute program op (s.addZeros k)) := by
  by_cases exchange : op = .exchange
  · subst exchange
    obtain ⟨left, eq⟩ := exchange_addZeros k s
    exact .next ⟨left, congrArg State.advance eq⟩
  by_cases readInt : op = .readInt
  · subst readInt
    exact .next ⟨k, congrArg State.advance (readInt_addZeros k s)⟩
  rw [execute_addZeros exchange readInt]
  exact Effect.mirrors_map k _

theorem lockstep_addZeros (program : Program) :
    Lockstep (machine program) (machine program) (UpTo State.addZeros) Eq Eq :=
  .of_grow (fun _ _ => rfl) (fun _ _ => rfl) mirrors_addZeros

end Cow

/-! ## §4. What is made of a program. -/

/-- The settings with so many zero bytes behind the input. -/
def Machine.Settings.addZeros (k : Nat) (settings : Settings) : Settings :=
  { settings with input := settings.input.addZeros k }

theorem Brainfuck.run_addZeros (source : String) (settings : Settings) (k : Nat) :
    Esolang.run .brainfuck source (settings.addZeros k)
      = Esolang.run .brainfuck source settings := by
  show (Brainfuck.run _ _).map _ = (Brainfuck.run _ _).map _
  unfold Brainfuck.run
  cases parse source with
  | error finding => rfl
  | ok program =>
    have start : UpTo State.addZeros (.initial settings.input)
        (.initial (settings.input.addZeros k)) := ⟨k, rfl⟩
    have alike := (lockstep_addZeros program).run (.ofSettings settings none) start
    exact alike.map_result stalled fun _ _ => rfl

theorem Cow.run_addZeros (source : String) (settings : Settings) (k : Nat) :
    Esolang.run .cow source (settings.addZeros k) = Esolang.run .cow source settings := by
  show (Cow.run _ _).map _ = (Cow.run _ _).map _
  unfold Cow.run
  cases parse source with
  | error finding => rfl
  | ok program =>
    have start : UpTo State.addZeros (.initial program settings.input)
        (.initial program (settings.input.addZeros k)) := ⟨k, rfl⟩
    have alike := (lockstep_addZeros program).run (.ofSettings settings none) start
    exact alike.map_result Fault.report fun _ _ => rfl

/-- **THE END OF THE INPUT READS AS ZERO BYTES.**  Zero bytes behind the input change nothing
in what is made of a program in Brainfuck or in COW: it prints the same and leaves the same
tape, or it ends with the same diagnostic. -/
theorem evaluate_addZeros (source : String) (settings : Settings) (k : Nat) :
    evaluate .brainfuck source (settings.addZeros k) = evaluate .brainfuck source settings
      ∧ evaluate .cow source (settings.addZeros k) = evaluate .cow source settings := by
  unfold evaluate
  rw [Brainfuck.run_addZeros, Cow.run_addZeros]
  exact ⟨rfl, rfl⟩

end Esolang
