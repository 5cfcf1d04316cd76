/-
  Esolang.Proofs.Befunge.Refusal
  ──────────────────────────────
  **REFUSED TEXTS AND HALTING.**

  A text is refused for what can be counted in it: it has no `@`, or an odd number
  of quotes.  That is not quite whether the machine halts on it, since `p` can write
  an `@`, and an `@` can be met before any quote.

    • `refusal?_eq_some` — which texts are refused, and why,
    • `mode_after?` — every second quote that is met ends a string,
    • `halts_iff` — the machine halts where it meets an `@` outside of a string,
    • `refused` — exactly these texts are refused, and they are not run; one without
      `@` would halt only on an `@` that `p` has written, and without `p` it would never
      halt,
    • `refused_yet_halts` — two texts that are refused though they would halt.
-/
import Esolang.Proofs.Befunge.Store

namespace Esolang.Befunge

open Esolang.Diagnostic (Finding)
open Esolang.Machine (Input Settings Run)
open Esolang.Source (lines)

/-! ## §1. Which texts are refused. -/

/-- What a refusal says of a text. -/
def Refusal.Holds (text : List Char) : Refusal → Prop
  | .noHalt => '@' ∉ text
  | .openString quotes => '@' ∈ text ∧ text.count '"' = quotes ∧ quotes % 2 = 1

/-- **A text is refused for what is so.** -/
theorem refusal?_eq_some {source : String} {refusal : Refusal} :
    refusal? source = some refusal ↔ refusal.Holds source.toList := by
  have unfolded : refusal? source
      = if '@' ∉ source.toList then some .noHalt
        else if source.toList.count '"' % 2 ≠ 0 then
          some (.openString (source.toList.count '"'))
        else none := rfl
  rw [unfolded]
  cases refusal with
  | noHalt =>
    show _ ↔ '@' ∉ source.toList
    split
    · next absent => simp [absent]
    · next present =>
      refine ⟨fun h => ?_, fun absent => absurd absent present⟩
      split at h <;> cases h
  | openString quotes =>
    show _ ↔ '@' ∈ source.toList ∧ source.toList.count '"' = quotes ∧ quotes % 2 = 1
    split
    · next absent => simp [absent]
    · next present =>
      have present := Decidable.not_not.mp present
      split
      · next odd =>
        simp only [Option.some.injEq, Refusal.openString.injEq]
        constructor
        · rintro rfl
          exact ⟨present, rfl, by omega⟩
        · exact fun h => h.2.1
      · next even =>
        refine ⟨nofun, ?_⟩
        rintro ⟨-, rfl, odd⟩
        omega

/-- A text is refused if it has no `@` or an odd number of quotes. -/
theorem exists_refusal {source : String} :
    (∃ refusal, refusal? source = some refusal)
      ↔ '@' ∉ source.toList ∨ source.toList.count '"' % 2 = 1 := by
  simp only [refusal?_eq_some]
  constructor
  · rintro ⟨absent | ⟨quotes⟩, holds⟩
    · exact .inl holds
    · obtain ⟨-, rfl, odd⟩ := holds
      exact .inr odd
  · rintro (absent | odd)
    · exact ⟨.noHalt, absent⟩
    · by_cases present : '@' ∈ source.toList
      · exact ⟨.openString _, present, rfl, odd⟩
      · exact ⟨.noHalt, present⟩

section
variable {draws : Draws} {cancelAt : Option Nat} {source : String} {settings : Settings}

/-- A text that is refused is not run. -/
theorem runWith_of_refused {refusal : Refusal} (refuses : refusal? source = some refusal) :
    runWith draws cancelAt source settings = ⟨.error ⟨refusal.report, .finish⟩, 0, 0⟩ := by
  unfold runWith
  rw [refuses]

/-- Any other text is run. -/
theorem runWith_of_accepted (accepted : refusal? source = none) :
    runWith draws cancelAt source settings
      = ⟨(runGrid draws cancelAt source settings).result Fault.report,
          (runGrid draws cancelAt source settings).cycles,
          (runGrid draws cancelAt source settings).state.draws⟩ := by
  unfold runWith
  rw [accepted]

/-- No run ends for want of an end. -/
theorem kind_of_finding? {last : Run State Fault} {finding : Finding}
    (found : last.ending.finding? Fault.report = some finding) :
    finding.report.kind ≠ .noTermination := by
  unfold Machine.Ending.finding? at found
  split at found
  · cases found
  · next fault site _ =>
    cases found
    cases fault <;> exact nofun
  · next reason site _ =>
    cases found
    cases reason <;> exact nofun

/-- **The refused texts are those that fail for want of an end.** -/
theorem fails_iff_refused :
    (∃ finding, (runWith draws cancelAt source settings).result = .error finding
        ∧ finding.report.kind = .noTermination)
      ↔ ∃ refusal, refusal? source = some refusal := by
  cases refuses : refusal? source with
  | some refusal =>
    rw [runWith_of_refused refuses]
    exact ⟨fun _ => ⟨refusal, rfl⟩, fun _ => ⟨_, rfl, rfl⟩⟩
  | none =>
    refine ⟨?_, nofun⟩
    rintro ⟨finding, failed, kind⟩
    rw [runWith_of_accepted refuses] at failed
    unfold Machine.Run.result at failed
    split at failed
    · cases failed
    · next found =>
      cases failed
      exact absurd kind (kind_of_finding? found)

end

/-! ## §2. Where strings begin and end. -/

section
variable {draws : Draws} {cancelAt : Option Nat} {s : State}

/-- A string goes on until a quote. -/
theorem mode_collect (symbol : Char) (string : s.mode = .string) :
    (collect symbol s).mode = .string ↔ symbol ≠ '"' := by
  unfold collect
  split
  · next quote =>
    exact ⟨nofun, fun other => absurd quote other⟩
  · next other =>
    exact ⟨fun _ => other, fun _ => string⟩

/-- A string begins with a quote. -/
theorem mode_of_perform {symbol : Char} {instr : Instr} {t : State}
    (literal : s.mode = .literal) (read : Instr.ofChar? symbol = some instr)
    (performed : perform draws instr symbol s = .ok t) :
    t.mode = .literal ↔ symbol ≠ '"' := by
  have mode := (treads_of_perform performed).2
  split at mode
  · next quote =>
    rw [quote] at read
    have symbol : symbol = '"' := (Instr.char_of_ofChar? read).symm
    rw [mode]
    exact ⟨nofun, fun other => absurd symbol other⟩
  · next other =>
    refine ⟨fun _ => ?_, fun _ => mode.trans literal⟩
    rintro rfl
    cases read
    exact other rfl

/-- **A cycle on a quote changes how characters are read, and no other does.** -/
theorem mode_of_next {s' : State} (hn : (machine draws cancelAt).next? s = some s') :
    s'.mode = s.mode ↔ s.symbol ≠ '"' := by
  have executed := next?_eq_some.mp hn
  unfold execute at executed
  -- Only `"` is read as a quote, in a string as outside of it.
  cases mode : s.mode with
  | string =>
    rw [mode] at executed
    cases executed
    exact mode_collect s.symbol mode
  | literal =>
    rw [mode] at executed
    dsimp only at executed
    split at executed
    · cases executed
    · next read =>
      split at executed
      · next t performed =>
        cases executed
        -- The move after it leaves the mode.
        have kept : t.mode = .literal ↔ s.symbol ≠ '"' := mode_of_perform mode read performed
        exact kept
      · cases executed
    · cases executed

/-- How many of the first `n` cycles from `s` stand on a quote. -/
def quotesMet (draws : Draws) (cancelAt : Option Nat) (s : State) (n : Nat) : Nat :=
  (List.range n).countP fun k => ((machine draws cancelAt).after? k s).any (·.symbol == '"')

theorem quotesMet_succ {n : Nat} {t : State} (ht : (machine draws cancelAt).after? n s = some t) :
    quotesMet draws cancelAt s (n + 1)
      = quotesMet draws cancelAt s n + if t.symbol = '"' then 1 else 0 := by
  unfold quotesMet
  rw [List.range_succ, List.countP_append, List.countP_singleton, ht]
  simp only [Option.any_some, beq_iff_eq]

/-- **Every second quote ends a string**, wherever it stands and whoever wrote it. -/
theorem mode_after? {n : Nat} {t : State} (ht : (machine draws cancelAt).after? n s = some t) :
    t.mode = s.mode ↔ quotesMet draws cancelAt s n % 2 = 0 := by
  induction n generalizing t with
  | zero =>
    cases ht
    exact ⟨fun _ => rfl, fun _ => rfl⟩
  | succ n ih =>
    obtain ⟨u, hu, hn⟩ := Machine.after?_succ_last.mp ht
    have before := ih hu
    have now := mode_of_next hn
    rw [quotesMet_succ hu]
    split
    · next quote =>
      -- There are two modes only, so two changes come back to the first.
      have changed : t.mode ≠ u.mode := fun same => now.mp same quote
      have back : t.mode = s.mode ↔ u.mode ≠ s.mode := by
        revert changed
        cases t.mode <;> cases u.mode <;> cases s.mode <;> decide
      rw [back, Ne, before]
      omega
    · next other =>
      rw [now.mpr other, before, Nat.add_zero]

end

/-! ## §3. Where the machine halts. -/

section
variable {draws : Draws} {cancelAt : Option Nat} {s : State}

theorem execute_eq_halt {t : State} :
    execute draws s.symbol s = .halt t ↔ s.mode = .literal ∧ s.symbol = '@' ∧ t = s := by
  constructor
  · intro h
    unfold execute at h
    cases mode : s.mode with
    | string =>
      rw [mode] at h
      cases h
    | literal =>
      rw [mode] at h
      dsimp only at h
      split at h
      · next read =>
        cases h
        exact ⟨rfl, (Instr.char_of_ofChar? read).symm, rfl⟩
      · split at h <;> cases h
      · cases h
  · rintro ⟨literal, symbol, rfl⟩
    unfold execute
    rw [literal, symbol]
    rfl

/-- The machine stops at an `@` outside of a string, and stops nowhere else without a
failure. -/
theorem halted_iff_of_stops {last : Run State Fault}
    (stops : (machine draws cancelAt).Stops s last) :
    last.ending = .halted ↔ s.mode = .literal ∧ s.symbol = '@' := by
  cases stops with
  | finished fetched => cases fetched
  | unreadable fetched => cases fetched
  | halt fetched executed =>
    cases fetched
    obtain ⟨literal, symbol, -⟩ := execute_eq_halt.mp executed
    exact ⟨fun _ => ⟨literal, symbol⟩, fun _ => rfl⟩
  | fault fetched executed =>
    cases fetched
    refine ⟨nofun, ?_⟩
    rintro ⟨literal, symbol⟩
    have halts : execute draws s.symbol s = .halt s := execute_eq_halt.mpr ⟨literal, symbol, rfl⟩
    rw [show (machine draws cancelAt).execute s.symbol s = .halt s from halts] at executed
    cases executed

/-- **The machine halts where it meets an `@` outside of a string.** -/
theorem halts_iff :
    (machine draws cancelAt).Halts s ↔ ∃ n t, (machine draws cancelAt).after? n s = some t
      ∧ t.mode = .literal ∧ t.symbol = '@' := by
  constructor
  · rintro ⟨_, ⟨n, t, last, ht, stops, rfl⟩, halted⟩
    exact ⟨n, t, ht, (halted_iff_of_stops stops).mp halted⟩
  · rintro ⟨n, t, ht, literal, symbol⟩
    have stops : (machine draws cancelAt).Stops t ⟨t, 1, .halted⟩ :=
      .halt rfl (execute_eq_halt.mpr ⟨literal, symbol, rfl⟩)
    exact ⟨_, ⟨n, t, _, ht, stops, rfl⟩, rfl⟩

end

/-! ## §4. Texts without `p`. -/

namespace Grid

/-- A cell that was parsed is a space or a character of the text. -/
theorem parsed_mem (source : String) (column row : Nat) :
    parsed source column row = ' ' ∨ parsed source column row ∈ source.toList := by
  unfold parsed
  cases found : ((lines source.toList).map dropReturn)[row]?.bind fun chars => chars[column]? with
  | none => exact .inl rfl
  | some c =>
    obtain ⟨line, row_eq, cell⟩ := Option.bind_eq_some_iff.mp found
    obtain ⟨whole, mem, rfl⟩ := List.mem_map.mp (List.mem_of_getElem? row_eq)
    have kept : c ∈ whole := by
      have inside : c ∈ dropReturn whole := List.mem_of_getElem? cell
      unfold dropReturn at inside
      split at inside
      · exact (List.dropLast_sublist whole).mem inside
      · exact inside
    exact .inr (Source.mem_of_mem_lines mem kept)

end Grid

section
variable {draws : Draws} {cancelAt : Option Nat} {source : String} {input : Input} {s s' : State}

/-- On a grid as it was parsed the machine reads a space or a character of the text. -/
theorem symbol_of_grid (here : (s.InRange source input)) (grid : s.grid = .ofSource source) :
    s.symbol = ' ' ∨ s.symbol ∈ source.toList := by
  have on := here.grid.pointer
  rw [grid] at on
  have cell := here.cell
  rw [grid, Grid.get?_ofSource on.x_lt on.y_lt] at cell
  have symbol : s.symbol = Grid.parsed source s.pointer.x s.pointer.y :=
    (Option.some.inj cell).symm
  rw [symbol]
  exact Grid.parsed_mem source s.pointer.x s.pointer.y

/-- **Without a `p` the grid stays as it was parsed.** -/
theorem grid_of_not_mem (no_put : 'p' ∉ source.toList) {n : Nat}
    (hs : (machine draws cancelAt).after? n (.initial source input) = some s) :
    s.InRange source input ∧ s.grid = .ofSource source := by
  refine Machine.after?_preserves (P := fun s => s.InRange source input
    ∧ s.grid = .ofSource source) ?_ ⟨.initial source input, rfl⟩ hs
  rintro t t' ⟨here, grid⟩ hn
  refine ⟨here.next hn, ?_⟩
  rw [← grid]
  refine grid_of_not_puts ?_ hn
  -- A state that writes stands on a `p`, and there is none to stand on.
  intro x y c puts
  rcases symbol_of_grid here grid with blank | mem
  · rw [puts.symbol] at blank
    exact absurd blank (by decide)
  · rw [puts.symbol] at mem
    exact no_put mem

end

/-! ## §5. What refused texts would do. -/

/-- What is promised of a text that is refused. -/
structure Refused (source : String) (refusal : Refusal) : Prop where
  /-- It fails without a cycle, and nothing is drawn. -/
  unrun : ∀ draws cancelAt settings,
    runWith draws cancelAt source settings = ⟨.error ⟨refusal.report, .finish⟩, 0, 0⟩
  kind : refusal.report.kind = .noTermination
  /-- If it were run, it could halt nowhere but on an `@` outside of a string, which is
  after an even number of quotes. -/
  halted : ∀ draws cancelAt input n s last,
    (machine draws cancelAt).after? n (.initial source input) = some s →
      (machine draws cancelAt).Stops s last → last.ending = .halted →
        s.mode = .literal ∧ s.symbol = '@'
          ∧ quotesMet draws cancelAt (.initial source input) n % 2 = 0
  /-- Without an `@` of its own the text would have to write that one, with the last `p`
  at its coordinates. -/
  written : refusal = .noHalt → ∀ draws cancelAt input n s last,
    (machine draws cancelAt).after? n (.initial source input) = some s →
      (machine draws cancelAt).Stops s last → last.ending = .halted →
        ∃ k t, k < n ∧ (machine draws cancelAt).after? k (.initial source input) = some t
          ∧ t.PutsAt s.pointer.x s.pointer.y '@'
          ∧ ∀ j u d, k < j → j < n →
            (machine draws cancelAt).after? j (.initial source input) = some u →
              ¬ u.PutsAt s.pointer.x s.pointer.y d
  /-- With no `p` either it would never halt. -/
  never : refusal = .noHalt → 'p' ∉ source.toList → ∀ draws cancelAt input,
    ¬ (machine draws cancelAt).Halts (.initial source input)

/-- What is promised of a text that is refused holds of it. -/
theorem refused_of_refuses {source : String} {refusal : Refusal}
    (refuses : refusal? source = some refusal) : Refused source refusal := by
  have holds := refusal?_eq_some.mp refuses
  refine ⟨fun _ _ _ => runWith_of_refused refuses, rfl, ?halted, ?written, ?never⟩
  case halted =>
    intro draws cancelAt input n s last reached stops halted
    obtain ⟨literal, symbol⟩ := (halted_iff_of_stops stops).mp halted
    exact ⟨literal, symbol, (mode_after? reached).mp literal⟩
  case written =>
    rintro rfl draws cancelAt input n s last reached stops halted
    have absent : '@' ∉ source.toList := holds
    obtain ⟨-, symbol⟩ := (halted_iff_of_stops stops).mp halted
    have here := (inRange source).state draws cancelAt input n s reached
    have x_lt := here.grid.pointer.x_lt
    have y_lt := here.grid.pointer.y_lt
    rw [here.grid.width] at x_lt
    rw [here.grid.height] at y_lt
    obtain ⟨c, cell, recorded⟩ := recorded_of_after? x_lt y_lt reached
    rw [here.cell, symbol] at cell
    cases cell
    cases recorded with
    | put before ht puts last => exact ⟨_, _, before, ht, puts, last⟩
    | parsed untouched eq =>
      rcases Grid.parsed_mem source s.pointer.x s.pointer.y with blank | mem
      · rw [← eq] at blank
        exact absurd blank (by decide)
      · rw [← eq] at mem
        exact absurd mem absent
  case never =>
    rintro rfl no_put draws cancelAt input halts
    have absent : '@' ∉ source.toList := holds
    obtain ⟨n, t, ht, -, symbol⟩ := halts_iff.mp halts
    obtain ⟨here, grid⟩ := grid_of_not_mem no_put ht
    rcases symbol_of_grid here grid with blank | mem
    · rw [symbol] at blank
      exact absurd blank (by decide)
    · rw [symbol] at mem
      exact absent mem

/-- **A text is refused for what can be counted in it.**  Exactly the texts without `@`
and those with an odd number of quotes are refused, each with what is so of it; they are
those that fail for want of an end, and what is promised of them holds: one without `@`
would halt only if it wrote one. -/
theorem refused (source : String) :
    (∀ refusal, refusal? source = some refusal ↔ refusal.Holds source.toList)
    ∧ ((∃ refusal, refusal? source = some refusal)
        ↔ '@' ∉ source.toList ∨ source.toList.count '"' % 2 = 1)
    ∧ (∀ draws cancelAt settings,
        (∃ finding, (runWith draws cancelAt source settings).result = .error finding
            ∧ finding.report.kind = .noTermination)
          ↔ ∃ refusal, refusal? source = some refusal)
    ∧ ∀ refusal, refusal? source = some refusal → Refused source refusal :=
  ⟨fun _ => refusal?_eq_some, exists_refusal, fun _ _ _ => fails_iff_refused,
    fun _ => refused_of_refuses⟩

/-- A text that writes the `@` that it has not at the end of its line: after six cycles
the machine stands on it, and `p` has put it there. -/
theorem refused_writing :
    refusal? "88*60p " = some .noHalt
      ∧ ∃ k t, k < 6
        ∧ (machine (fun _ => .right) none).after? k (.initial "88*60p " ⟨[]⟩) = some t
        ∧ t.PutsAt 6 0 '@' := by
  have refuses : refusal? "88*60p " = some .noHalt := by decide +kernel
  have there : ((machine (fun _ => .right) none).after? 6 (.initial "88*60p " ⟨[]⟩)).map
      (fun s => (s.mode, s.symbol, s.pointer)) = some (.literal, '@', ⟨6, 0, .right⟩) := by
    decide +kernel
  obtain ⟨s, reached, facts⟩ := Option.map_eq_some_iff.mp there
  obtain ⟨literal, symbol, pointer⟩ : s.mode = .literal ∧ s.symbol = '@'
      ∧ s.pointer = ⟨6, 0, .right⟩ := by simpa using facts
  have stops : (machine (fun _ => .right) none).Stops s ⟨s, 1, .halted⟩ :=
    .halt rfl (execute_eq_halt.mpr ⟨literal, symbol, rfl⟩)
  obtain ⟨k, t, before, ht, puts, -⟩ :=
    ((refused "88*60p ").2.2.2 _ refuses).written rfl (fun _ => .right) none ⟨[]⟩ 6 s _ reached
      stops rfl
  rw [pointer] at puts
  exact ⟨refuses, k, t, before, ht, puts⟩

/-- **Two texts that are refused though they would halt**: one writes the `@` that it
has not, and the other meets its `@` before any quote. -/
theorem refused_yet_halts :
    refusal? "88*60p " = some .noHalt
      ∧ (machine (fun _ => .right) none).Halts (.initial "88*60p " ⟨[]⟩)
      ∧ refusal? "@\"" = some (.openString 1)
      ∧ (machine (fun _ => .right) none).Halts (.initial "@\"" ⟨[]⟩) := by
  have written : ((machine (fun _ => .right) none).after? 6 (.initial "88*60p " ⟨[]⟩)).map
      (fun s => (s.mode, s.symbol)) = some (.literal, '@') := by decide +kernel
  obtain ⟨s, reached, facts⟩ := Option.map_eq_some_iff.mp written
  have met : (State.initial "@\"" ⟨[]⟩).symbol = '@' := by decide +kernel
  refine ⟨by decide +kernel, halts_iff.mpr ⟨6, s, reached, ?_⟩, by decide +kernel,
    halts_iff.mpr ⟨0, _, rfl, rfl, met⟩⟩
  simpa using facts

end Esolang.Befunge
