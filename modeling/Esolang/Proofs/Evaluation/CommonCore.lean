/-
  Esolang.Proofs.Evaluation.CommonCore
  ────────────────────────────────────
  **WHAT BRAINFUCK AND COW HAVE IN COMMON.**

  Six commands are in both languages: they move the cursor, change the cell and
  bound a loop.  A program of these can be written in either, with other comments
  and at other places, and it makes no difference.

    • `Parallel.lockstep` — the two machines go in lockstep,
    • `agree_of_sameCore` — whatever the bounds, the two texts leave the same tape
      after as many cycles, or fail alike at the same command; and left alone, one
      halts if and only if the other does.
-/
import Esolang.Proofs.Brainfuck.Range
import Esolang.Proofs.Cow.Spelling
import Esolang.Proofs.Evaluation.StepLimit
import Esolang.Proofs.Machine.Lockstep

namespace Esolang

open Esolang.Diagnostic (Finding Site Report)
open Esolang.Loop (Bracket Guard Stall brackets)
open Esolang.Machine (Input Settings Run Lockstep)
open Esolang.Memory (Tape)
open Esolang.Source (Span Token)

/-! ## §1. Programs of the core. -/

/-- The commands that both languages have. -/
inductive Core where
  | right
  | left
  | increment
  | decrement
  | loopOpen
  | loopClose
  deriving DecidableEq, Repr

namespace Core

/-- The command in Brainfuck. -/
def instr : Core → Brainfuck.Instr
  | .right => .right
  | .left => .left
  | .increment => .increment
  | .decrement => .decrement
  | .loopOpen => .loopOpen
  | .loopClose => .loopClose

/-- The command in COW. -/
def opcode : Core → Cow.Opcode
  | .right => .right
  | .left => .left
  | .increment => .increment
  | .decrement => .decrement
  | .loopOpen => .loopOpen
  | .loopClose => .loopClose

/-- Loops begin and end with the same commands. -/
theorem bracket?_instr (c : Core) : c.instr.bracket? = c.opcode.bracket? := by
  cases c <;> rfl

/-- The loops of a program are the same in both languages. -/
theorem brackets_eq (program : List Core) :
    brackets Brainfuck.Instr.bracket? (program.map instr)
      = brackets Cow.Opcode.bracket? (program.map opcode) := by
  rw [Loop.brackets_map, Loop.brackets_map]
  congr 1
  funext c
  exact c.bracket?_instr

end Core

/-- A Brainfuck text and a COW text that write this program, each among comments of
its own. -/
structure SameCore (bf cow : String) (program : List Core) : Prop where
  brainfuck : bf.toList.filterMap Brainfuck.Instr.ofChar? = program.map Core.instr
  cow : Cow.Spells cow (program.map Core.opcode)

/-! ## §2. Places that correspond. -/

/-- Index of the instruction that a site is the place of. -/
def indexOf? (spans : List Span) (site : Site) : Option Nat :=
  (spans.map Site.range).idxOf? site

theorem indexOf?_range {spans : List Span} (nodup : spans.Nodup) {i : Nat} {span : Span}
    (here : spans[i]? = some span) : indexOf? spans (.range span) = some i := by
  obtain ⟨lt, rfl⟩ := List.getElem?_eq_some_iff.mp here
  have inside : i < (spans.map Site.range).length := by rwa [List.length_map]
  refine List.idxOf?_eq_some_iff.mpr ⟨inside, List.getElem_map _, ?_⟩
  intro j before same
  -- An earlier span that is the same would be at the same index.
  rw [List.getElem_map, Site.range.injEq, nodup.getElem_inj_iff] at same
  omega

/-- Two sites are the places of the instructions with the same index. -/
def SamePlace (spans spans' : List Span) (site site' : Site) : Prop :=
  ∃ i, indexOf? spans site = some i ∧ indexOf? spans' site' = some i

/-- Where the instructions of a Brainfuck text stand. -/
def Brainfuck.spans (source : String) : List Span :=
  (Brainfuck.scan source).map Token.span

theorem Brainfuck.nodup_spans (source : String) : (Brainfuck.spans source).Nodup :=
  Source.nodup_spans_of_starts (Source.starts_tokens Instr.ofChar? source)

/-! ## §3. Lockstep. -/

/-- A Brainfuck program and a COW program that are the same program of the core. -/
structure Parallel (p : Brainfuck.Program) (q : Cow.Program) (program : List Core) : Prop where
  instrs : p.code.toList.map Token.symbol = program.map Core.instr
  opcodes : q.code.toList.map Token.symbol = program.map Core.opcode
  loops : q.loops = p.loops
  paired : p.Paired

/-- States of two machines that are at the same point of the same program. -/
structure InStep (q : Cow.Program) (s : Brainfuck.State) (t : Cow.State) : Prop where
  code : t.code = q.code
  index : t.index = s.index
  tape : t.tape = s.tape
  guard : t.guard = s.guard
  output : s.output = "" ∧ t.output = ""

/-- At every index both programs have the same command, or none. -/
theorem Parallel.code {p : Brainfuck.Program} {q : Cow.Program} {program : List Core}
    (par : Parallel p q program) (i : Nat) :
    (p.code[i]? = none ∧ q.code[i]? = none)
      ∨ ∃ c span span', p.code[i]? = some ⟨Core.instr c, span⟩
          ∧ q.code[i]? = some ⟨Core.opcode c, span'⟩ := by
  have instr := congrArg (·[i]?) par.instrs
  have opcode := congrArg (·[i]?) par.opcodes
  simp only [List.getElem?_map, Array.getElem?_toList] at instr opcode
  cases command : program[i]? with
  | none =>
    rw [command, Option.map_none, Option.map_eq_none_iff] at instr opcode
    exact .inl ⟨instr, opcode⟩
  | some c =>
    rw [command, Option.map_some, Option.map_eq_some_iff] at instr opcode
    obtain ⟨⟨_, span⟩, here, rfl⟩ := instr
    obtain ⟨⟨_, span'⟩, there, rfl⟩ := opcode
    exact .inr ⟨c, span, span', here, there⟩

section
variable {p : Brainfuck.Program} {q : Cow.Program} {program : List Core}

theorem InStep.initial (q : Cow.Program) (input : Input) :
    InStep q (.initial input) (.initial q input) :=
  ⟨rfl, rfl, rfl, rfl, rfl, rfl⟩

theorem InStep.advance {s : Brainfuck.State} {t : Cow.State} (inStep : InStep q s t) :
    InStep q s.advance t.advance where
  code := inStep.code
  index := congrArg (· + 1) inStep.index
  tape := inStep.tape
  guard := inStep.guard
  output := inStep.output

theorem InStep.withTape {s : Brainfuck.State} {t : Cow.State} (inStep : InStep q s t)
    (f : Tape → Tape) : InStep q { s with tape := f s.tape } { t with tape := f t.tape } where
  code := inStep.code
  index := inStep.index
  tape := congrArg f inStep.tape
  guard := inStep.guard
  output := inStep.output

theorem InStep.withGuard {s : Brainfuck.State} {t : Cow.State} (inStep : InStep q s t)
    (guard : Guard) : InStep q { s with guard } { t with guard } where
  code := inStep.code
  index := inStep.index
  tape := inStep.tape
  guard := rfl
  output := inStep.output

/-- In a program that was read both machines find the partner of a loop command. -/
theorem Parallel.jump (par : Parallel p q program) {s : Brainfuck.State} {t : Cow.State}
    (inStep : InStep q s t) {c : Core} {span : Span} {b : Bracket}
    (here : p.code[s.index]? = some ⟨c.instr, span⟩) (bracket : c.instr.bracket? = some b)
    (op : Cow.Opcode) : ∃ t', t.jump q op = .next t' ∧ InStep q (s.jump p) t' := by
  obtain ⟨j, partner, -⟩ := par.paired.exists_partner here bracket
  have partner' : q.loops.partner? t.index = some j := by
    rw [par.loops, inStep.index, partner]
  refine ⟨{ t with index := j + 1 }, Cow.jump_eq_next.mpr ⟨j, partner', rfl⟩, inStep.code, ?_,
    inStep.tape, inStep.guard, inStep.output⟩
  show j + 1 = (p.loops.partner? s.index).getD s.index + 1
  rw [partner]
  rfl

/-- **A command of the core has the same effect in both languages.** -/
theorem Parallel.mirrors (par : Parallel p q program) {s : Brainfuck.State} {t : Cow.State}
    (inStep : InStep q s t) {c : Core} {span : Span}
    (here : p.code[s.index]? = some ⟨c.instr, span⟩) :
    (Brainfuck.execute p c.instr s).Mirrors (InStep q) (InStep q)
      (fun stall fault => fault = .stalled stall) (Cow.execute q c.opcode t) := by
  cases c with
  | right => exact .next (inStep.withTape Tape.moveRight).advance
  | left => exact .next (inStep.withTape Tape.moveLeft).advance
  | increment => exact .next (inStep.withTape Tape.increment).advance
  | decrement => exact .next (inStep.withTape Tape.decrement).advance
  | loopOpen =>
    obtain ⟨t', jumped, there⟩ := par.jump inStep here rfl .loopOpen
    show Machine.Effect.Mirrors _ _ _
      (.next (if s.tape.current = 0 then s.jump p else s.advance))
      (if t.tape.current = 0 then t.jump q .loopOpen else .next t.advance)
    rw [inStep.tape, jumped]
    split
    · exact .next there
    · exact .next inStep.advance
  | loopClose =>
    -- Both guards remember the same values at the same indices, so they decide alike.
    have arrival : t.guard.arrive t.index t.tape.current
        = s.guard.arrive s.index s.tape.current := by
      rw [inStep.index, inStep.tape, inStep.guard]
    unfold Core.instr Core.opcode Brainfuck.execute Cow.execute
    simp only [arrival]
    cases s.guard.arrive s.index s.tape.current with
    | leave guard => exact .next (inStep.withGuard guard).advance
    | again guard =>
      obtain ⟨t', jumped, there⟩ := par.jump (inStep.withGuard guard) here rfl .loopClose
      simp only [jumped]
      exact .next there
    | stalled =>
      refine .fault ?_
      rw [inStep.tape]

/-- **The two machines go in lockstep.** -/
theorem Parallel.lockstep (par : Parallel p q program) {spans spans' : List Span}
    (placed : p.code.toList.map Token.span = spans) (nodup : spans.Nodup)
    (placed' : q.code.toList.map Token.span = spans') (nodup' : spans'.Nodup) :
    Lockstep (Brainfuck.machine p) (Cow.machine q) (InStep q)
      (fun stall fault => fault = .stalled stall) (SamePlace spans spans') where
  trips _ := rfl
  cycle := by
    intro s t inStep
    -- An index beyond one code is beyond the other, since they have one program.
    rcases par.code s.index with ⟨none, none'⟩ | ⟨c, span, span', here, there⟩
    · refine .finished ?_ ?_
      · simp only [Brainfuck.machine, none]
      · simp only [Cow.machine, inStep.code, inStep.index, none']
    · have span_eq : spans[s.index]? = some span := by
        rw [← placed, List.getElem?_map, Array.getElem?_toList, here]
        rfl
      have span_eq' : spans'[s.index]? = some span' := by
        rw [← placed', List.getElem?_map, Array.getElem?_toList, there]
        rfl
      have fetched : (Brainfuck.machine p).fetch s = .found c.instr (.range span) := by
        simp only [Brainfuck.machine, here]
      have fetched' : (Cow.machine q).fetch t = .found c.opcode (.range span') := by
        simp only [Cow.machine, inStep.code, inStep.index, there]
      have place : SamePlace spans spans' (.range span) (.range span') :=
        ⟨s.index, indexOf?_range nodup span_eq, indexOf?_range nodup' span_eq'⟩
      exact .found fetched fetched' place (par.mirrors inStep here)

end

/-! ## §4. Texts of the same program. -/

/-- Findings of the same kind, at instructions with the same index.  A loop without
progress and a limit of steps are told in the same words. -/
structure AgreeingFindings (spans spans' : List Span) (finding finding' : Finding) : Prop where
  kind : finding.report.kind = finding'.report.kind
  message : finding.report.kind = .infiniteLoop ∨ finding.report.kind = .stepLimitExceeded →
    finding.report.message = finding'.report.message
  place : SamePlace spans spans' finding.site finding'.site

/-- Two texts come to the same: the same tape and no output, or findings that agree. -/
inductive Agree (bf cow : String) : Except Finding Evaluation → Except Finding Evaluation → Prop
    where
  | halted (cells : List UInt8) :
      Agree bf cow (.ok ⟨.brainfuck, "", .tape cells⟩) (.ok ⟨.cow, "", .tape cells⟩)
  | failed {finding finding' : Finding}
      (agree : AgreeingFindings (Brainfuck.spans bf) (Cow.spans cow) finding finding') :
      Agree bf cow (.error finding) (.error finding')

section
variable {bf cow : String} {program : List Core}

/-- Two texts of the same program are both refused, at the same instruction, or
they are parallel programs. -/
theorem SameCore.parse (same : SameCore bf cow program) :
    (∃ finding finding', Brainfuck.parse bf = .error finding ∧ Cow.parse cow = .error finding'
        ∧ AgreeingFindings (Brainfuck.spans bf) (Cow.spans cow) finding finding')
      ∨ ∃ p q, Brainfuck.parse bf = .ok p ∧ Cow.parse cow = .ok q ∧ Parallel p q program
        ∧ p.code.toList.map Token.span = Brainfuck.spans bf
        ∧ q.code.toList.map Token.span = Cow.spans cow := by
  have instrs : (Brainfuck.scan bf).map Token.symbol = program.map Core.instr :=
    (Source.map_symbol_tokens Brainfuck.Instr.ofChar? bf).trans same.brainfuck
  obtain ⟨code, opcodes, spans, parsed'⟩ := Cow.parse_of_spells same.cow
  -- The brackets are the same, so they are paired in the same way, or at fault.
  have pairs : Cow.pair code = Brainfuck.pair (Brainfuck.scan bf) := by
    unfold Cow.pair Brainfuck.pair
    rw [opcodes, instrs, Core.brackets_eq]
  cases paired : Brainfuck.pair (Brainfuck.scan bf) with
  | error fault =>
    rw [pairs, paired] at parsed'
    obtain ⟨token, here, -, parsed⟩ := Brainfuck.parse_of_pair_eq_error paired
    obtain ⟨token', there, -⟩ := Loop.Pairing.getElem?_of_eq_error (pairs.trans paired)
    have site : Cow.siteAt code fault.index = .range token'.span := by
      unfold Cow.siteAt
      rw [there]
    have span : (Brainfuck.spans bf)[fault.index]? = some token.span := by
      rw [Brainfuck.spans, List.getElem?_map, here]
      rfl
    have span' : (Cow.spans cow)[fault.index]? = some token'.span := by
      rw [← spans, List.getElem?_map, there]
      rfl
    refine .inl ⟨_, _, parsed, parsed', ?_, ?_, fault.index, ?_, ?_⟩
    · cases fault <;> rfl
    · cases fault <;> exact nofun
    · exact indexOf?_range (Brainfuck.nodup_spans bf) span
    · rw [site]
      exact indexOf?_range (Cow.nodup_spans cow) span'
  | ok loops =>
    rw [pairs, paired] at parsed'
    have parsed : Brainfuck.parse bf = .ok ⟨(Brainfuck.scan bf).toArray, loops⟩ := by
      unfold Brainfuck.parse
      simp only [paired]
    exact .inr ⟨_, _, parsed, parsed', ⟨instrs, opcodes, rfl, Brainfuck.paired_of_parse parsed⟩,
      rfl, spans⟩

/-- Runs that are alike come to results that agree. -/
theorem agree_of_alike {q : Cow.Program} {r : Run Brainfuck.State Stall}
    {r' : Run Cow.State Cow.Fault}
    (alike : r.Alike (InStep q) (fun stall fault => fault = .stalled stall)
      (SamePlace (Brainfuck.spans bf) (Cow.spans cow)) r') :
    Agree bf cow
      ((r.result Brainfuck.stalled).map fun s => ⟨.brainfuck, s.output, .tape s.tape.cells⟩)
      ((r'.result Cow.Fault.report).map fun t => ⟨.cow, t.output, .tape t.tape.cells⟩) := by
  obtain ⟨s, cycles, ending⟩ := r
  obtain ⟨t, cycles', ending'⟩ := r'
  obtain ⟨inStep, -, endings⟩ := alike
  cases endings with
  | halted =>
    obtain ⟨silent, silent'⟩ := inStep.output
    have tape : t.tape = s.tape := inStep.tape
    show Agree bf cow (.ok ⟨.brainfuck, s.output, .tape s.tape.cells⟩)
      (.ok ⟨.cow, t.output, .tape t.tape.cells⟩)
    rw [silent, silent', tape]
    exact .halted s.tape.cells
  | failed why place =>
    subst why
    exact .failed ⟨rfl, fun _ => rfl, place⟩
  | exhausted place => exact .failed ⟨rfl, fun _ => rfl, place⟩

/-- **Brainfuck and COW agree on their common core.**  Whatever bounds the runs, two
texts of the same program take as many cycles and come to the same: the same tape and
no output, or a failure of the same kind at the same instruction.  Left alone, one
halts if and only if the other does. -/
theorem agree_of_sameCore (same : SameCore bf cow program) (settings : Settings) :
    Agree bf cow (run .brainfuck bf settings) (run .cow cow settings)
      ∧ cyclesOf .brainfuck bf settings = cyclesOf .cow cow settings
      ∧ (Halts .brainfuck bf settings ↔ Halts .cow cow settings) := by
  rcases same.parse with
    ⟨finding, finding', parsed, parsed', agree⟩ | ⟨p, q, parsed, parsed', par, placed, placed'⟩
  · have loaded : Engine.load .brainfuck bf settings.input settings.draws = .error finding := by
      simp only [Engine.load, parsed]
    have loaded' : Engine.load .cow cow settings.input settings.draws = .error finding' := by
      simp only [Engine.load, parsed']
    refine ⟨?_, ?_, ?_⟩
    · rw [run_eq_load, run_eq_load, loaded, loaded']
      exact .failed agree
    · simp only [cyclesOf, loaded, loaded']
    · simp only [Halts, loaded, loaded', reduceCtorEq, false_and, exists_false]
  · have loaded : Engine.load .brainfuck bf settings.input settings.draws
        = .ok (p.engine settings.input) := by
      simp only [Engine.load, parsed]
    have loaded' : Engine.load .cow cow settings.input settings.draws
        = .ok (q.engine settings.input) := by
      simp only [Engine.load, parsed']
    have lock := par.lockstep placed (Brainfuck.nodup_spans bf) placed' (Cow.nodup_spans cow)
    have start := InStep.initial q settings.input
    have alike := lock.run (.ofSettings settings none) start
    refine ⟨?_, ?_, ?_⟩
    · rw [run_eq_load, run_eq_load, loaded, loaded']
      exact agree_of_alike alike
    · simp only [cyclesOf, loaded, loaded']
      exact alike.cycles
    · simp only [Halts, loaded, loaded', Except.ok.injEq, exists_eq_left']
      exact lock.halts_iff start

/-- A loop that stalls in its second pass, among comments that the other language
would take for commands: the COW text stalls at the same command, in the same words. -/
theorem agree_of_sameCore_stalled :
    SameCore "moo +[>+<] Moo" "MoO, MOO. moO MoO mOo moo -"
        [.increment, .loopOpen, .right, .increment, .left, .loopClose]
      ∧ run .brainfuck "moo +[>+<] Moo" {}
          = .error ⟨Brainfuck.stalled ⟨0, 1⟩, .range ⟨9, 10⟩⟩
      ∧ ∃ finding, run .cow "MoO, MOO. moO MoO mOo moo -" {} = .error finding
          ∧ finding.report.message = (Brainfuck.stalled ⟨0, 1⟩).message
          ∧ indexOf? (Cow.spans "MoO, MOO. moO MoO mOo moo -") finding.site = some 5 := by
  have same : SameCore "moo +[>+<] Moo" "MoO, MOO. moO MoO mOo moo -"
      [.increment, .loopOpen, .right, .increment, .left, .loopClose] :=
    ⟨by decide +kernel, by decide +kernel⟩
  have stalls : run .brainfuck "moo +[>+<] Moo" {}
      = .error ⟨Brainfuck.stalled ⟨0, 1⟩, .range ⟨9, 10⟩⟩ := by decide +kernel
  have index : indexOf? (Brainfuck.spans "moo +[>+<] Moo") (.range ⟨9, 10⟩) = some 5 := by
    decide +kernel
  refine ⟨same, stalls, ?_⟩
  obtain ⟨agree, -, -⟩ := agree_of_sameCore same {}
  rw [stalls] at agree
  generalize run .cow "MoO, MOO. moO MoO mOo moo -" {} = result at agree
  cases agree with
  | @failed _ finding agree =>
    obtain ⟨-, words, i, here, there⟩ := agree
    rw [index] at here
    cases here
    exact ⟨finding, rfl, (words (.inl rfl)).symm, there⟩

end

end Esolang
