/-
  Esolang.Proofs.Whitespace.Writing
  ─────────────────────────────────
  **WRITING COMMANDS, AND RUNNING WHAT IS WRITTEN.**

  A command is written as its path, followed by a number and a newline if it takes
  one; commands are written one behind the other, with nothing in between.

    • `Writes.reads` — what is written for a command is a phrase that is read as it,
    • `map_content_decodeAll` — the commands that were written are decoded again,
    • `carries_obey` — the machine obeys the decoded commands one after another,
    • `evaluate_written` — a written program does what its commands do.
-/
import Esolang.Proofs.Evaluation.StepLimit
import Esolang.Proofs.Machine.Sequence
import Esolang.Proofs.Whitespace.Grammar
import Esolang.Proofs.Whitespace.Numeral

namespace Esolang.Whitespace

open Esolang.Diagnostic (Report Site)
open Esolang.Machine (Effect Settings Budget Carries Upshot carryOut)
open Esolang.Source (Token InOrder)

/-! ## §1. Written commands. -/

/-- The number that a command is written with. -/
def Command.number? : Command → Option Int64
  | .push n | .copy n | .slide n => some n
  | _ => none

/-- The command is written with these symbols. -/
inductive Writes : Command → List Symbol → Prop where
  | bare {path : List Symbol} {command : Command} (entry : ⟨path, .bare command⟩ ∈ table) :
      Writes command path
  | numbered {path digits : List Symbol} {make : Int64 → Command} {n : Int64}
      (entry : ⟨path, .numbered make⟩ ∈ table) (spelt : Spells n digits) :
      Writes (make n) (path ++ digits ++ [.line])

/-- The commands are written with these symbols, one behind the other. -/
inductive WritesAll : List Command → List Symbol → Prop where
  | nil : WritesAll [] []
  | cons {command : Command} {commands : List Command} {symbols more : List Symbol}
      (first : Writes command symbols) (rest : WritesAll commands more) :
      WritesAll (command :: commands) (symbols ++ more)

/-- What an entry makes of a number is written with that number. -/
theorem number?_of_numbered {path : List Symbol} {make : Int64 → Command}
    (entry : ⟨path, .numbered make⟩ ∈ table) (n : Int64) : (make n).number? = some n := by
  simp only [table, List.mem_cons, Entry.mk.injEq, Shape.numbered.injEq, reduceCtorEq,
    and_false, or_false, false_or, List.not_mem_nil] at entry
  rcases entry with ⟨-, rfl⟩ | ⟨-, rfl⟩ | ⟨-, rfl⟩ <;> rfl

/-- The path of a command. -/
def Command.path : Command → List Symbol
  | .push _ => [.space, .space]
  | .duplicate => [.space, .line, .space]
  | .copy _ => [.space, .tab, .space]
  | .swap => [.space, .line, .tab]
  | .discard => [.space, .line, .line]
  | .slide _ => [.space, .tab, .line]
  | .add => [.tab, .space, .space, .space]
  | .subtract => [.tab, .space, .space, .tab]
  | .multiply => [.tab, .space, .space, .line]
  | .divide => [.tab, .space, .tab, .space]
  | .modulo => [.tab, .space, .tab, .tab]
  | .store => [.tab, .tab, .space]
  | .retrieve => [.tab, .tab, .tab]
  | .printChar => [.tab, .line, .space, .space]
  | .printInt => [.tab, .line, .space, .tab]
  | .finish => [.line, .line, .line]

/-- A command in symbols, with so many zeros in front of its number. -/
def Command.writing (zeros : Nat) (command : Command) : List Symbol :=
  match command.number? with
  | some n => command.path ++ spelling zeros n ++ [.line]
  | none => command.path

/-- Every command is in the table, with its path. -/
theorem entry_of_path (command : Command) :
    match command.number? with
    | some n => ∃ make, ⟨command.path, .numbered make⟩ ∈ table ∧ command = make n
    | none => ⟨command.path, .bare command⟩ ∈ table := by
  cases command with
  | push n => exact ⟨.push, by simp [table, Command.path], rfl⟩
  | copy n => exact ⟨.copy, by simp [table, Command.path], rfl⟩
  | slide n => exact ⟨.slide, by simp [table, Command.path], rfl⟩
  | _ => simp [Command.number?, table, Command.path]

theorem writes_writing (zeros : Nat) (command : Command) :
    Writes command (command.writing zeros) := by
  have entry := entry_of_path command
  unfold Command.writing
  cases number : command.number? with
  | none =>
    rw [number] at entry
    exact .bare entry
  | some n =>
    rw [number] at entry
    obtain ⟨make, entry, made⟩ := entry
    have writes := Writes.numbered entry (spells_spelling zeros n)
    rwa [← made] at writes

theorem writesAll_writing (zeros : Nat) (commands : List Command) :
    WritesAll commands (commands.flatMap (Command.writing zeros)) := by
  induction commands with
  | nil => exact .nil
  | cons command commands ih =>
    rw [List.flatMap_cons]
    exact .cons (writes_writing zeros command) ih

namespace Symbol

/-- The character that is a symbol. -/
def char : Symbol → Char
  | .space => ' '
  | .tab => '\t'
  | .line => '\n'

/-- Symbols without comments. -/
def text (symbols : List Symbol) : String :=
  String.ofList (symbols.map char)

theorem ofChar?_char (symbol : Symbol) : ofChar? symbol.char = some symbol := by
  cases symbol <;> rfl

theorem filterMap_text (symbols : List Symbol) :
    (text symbols).toList.filterMap ofChar? = symbols := by
  unfold text
  rw [String.toList_ofList, List.filterMap_map]
  have same : ofChar? ∘ char = some := funext ofChar?_char
  rw [same, List.filterMap_some]

end Symbol

/-- The text of what is written for commands is written so. -/
theorem writesAll_text (zeros : Nat) (commands : List Command) :
    WritesAll commands
      ((Symbol.text (commands.flatMap (Command.writing zeros))).toList.filterMap
        Symbol.ofChar?) := by
  rw [Symbol.filterMap_text]
  exact writesAll_writing zeros commands

/-! ## §2. Decoding what is written. -/

theorem Writes.reads {command : Command} {symbols : List Symbol} (h : Writes command symbols)
    (readable : command.number? ≠ some Int64.minValue) : Reads symbols (.ok command) := by
  cases h with
  | bare entry => exact .bare entry
  | @numbered path digits make n entry spelt =>
    have ne_min : n ≠ Int64.minValue := by
      rintro rfl
      exact readable (number?_of_numbered entry _)
    have read : withNumber make digits = .ok (make n) := by
      unfold withNumber
      rw [readNumber_of_spells spelt ne_min]
    rw [← read]
    exact .numbered entry spelt.line_not_mem

/-- What is written for commands is cut into phrases that are read as these commands. -/
theorem WritesAll.exists_cut {commands : List Command} {symbols : List Symbol}
    (h : WritesAll commands symbols) :
    (∀ c ∈ commands, c.number? ≠ some Int64.minValue) →
      ∀ tokens : List (Token Symbol), tokens.map Token.symbol = symbols →
        ∃ ps, Cut tokens ps ∧ ps.map Phrase.content = commands.map Except.ok := by
  induction h with
  | nil =>
    intro _ tokens written
    rw [List.map_eq_nil_iff.mp written]
    exact ⟨[], .done, rfl⟩
  | @cons command commands symbols more first rest ih =>
    intro readable tokens written
    obtain ⟨this, others, rfl, hthis, hothers⟩ := List.map_eq_append_iff.mp written
    obtain ⟨here, there⟩ := List.forall_mem_cons.mp readable
    obtain ⟨ps, cut, contents⟩ := ih there others hothers
    have reads : Reads (this.map Token.symbol) (.ok command) := by
      rw [hthis]
      exact first.reads here
    refine ⟨⟨this, .ok command⟩ :: ps, .phrase (p := ⟨this, .ok command⟩) reads cut, ?_⟩
    rw [List.map_cons, List.map_cons, contents]

/-- **The commands that were written are decoded again**, whatever comments stand
between their symbols. -/
theorem map_content_decodeAll {commands : List Command} {source : String}
    (written : WritesAll commands (source.toList.filterMap Symbol.ofChar?))
    (readable : ∀ c ∈ commands, c.number? ≠ some Int64.minValue) :
    (decodeAll (scan source)).map Item.content = commands.map Except.ok := by
  have scanned : (scan source).map Token.symbol = source.toList.filterMap Symbol.ofChar? :=
    Source.map_symbol_tokens _ _
  obtain ⟨ps, cut, contents⟩ := written.exists_cut readable (scan source) scanned
  have items := map_decodeAll cut (Source.inOrder_tokens _ _)
  have first := congrArg (List.map Prod.fst) items
  rw [List.map_map, List.map_map] at first
  exact Eq.trans first contents

/-! ## §3. Obeying commands. -/

/-- What a command does with the store: the one that halts the program leaves it. -/
def Store.obey (command : Command) (s : Store) : Effect Store Fault :=
  if command = .finish then .halt s
  else match s.perform command with
    | .ok s => .next s
    | .error fault => .fault fault

/-- Performs commands one after another, up to the first that halts the program or
cannot be executed. -/
def Store.performAll : List Command → Store → Except Fault Store
  | [], s => .ok s
  | command :: commands, s =>
    if command = .finish then .ok s
    else match s.perform command with
      | .ok s => performAll commands s
      | .error fault => .error fault

/-- With a cycle for each command the commands are performed. -/
theorem carryOut_obey {limit : Nat} {commands : List Command} :
    ∀ {place : Nat} {s : Store}, place + commands.length ≤ limit →
      (∃ s', s.performAll commands = .ok s'
          ∧ carryOut Store.obey limit place commands s = .done s')
        ∨ ∃ fault last, s.performAll commands = .error fault
            ∧ carryOut Store.obey limit place commands s = .failed fault last := by
  induction commands with
  | nil =>
    intro place s _
    exact .inl ⟨s, rfl, rfl⟩
  | cons command commands ih =>
    intro place s le
    rw [List.length_cons] at le
    have lt : place < limit := by omega
    by_cases halts : command = .finish
    · refine .inl ⟨s, if_pos halts, Machine.carryOut_halt lt ?_ commands⟩
      exact if_pos halts
    · have obeyed : s.obey command = match s.perform command with
          | .ok s => .next s
          | .error fault => .fault fault := if_neg halts
      have performed : s.performAll (command :: commands) = match s.perform command with
          | .ok s => s.performAll commands
          | .error fault => .error fault := if_neg halts
      rw [performed]
      cases result : s.perform command with
      | ok s' =>
        rw [result] at obeyed
        rw [Machine.carryOut_next lt obeyed]
        exact ih (by omega)
      | error fault =>
        rw [result] at obeyed
        exact .inr ⟨fault, place, rfl, Machine.carryOut_fault lt obeyed commands⟩

/-- The site of the item at a place. -/
def itemSite (items : List Item) (place : Nat) : Site :=
  match items[place]? with
  | some item => .range item.span
  | none => .finish

theorem fetch_of_decodeAll {item : Item} {items : List Item} {s : State}
    (decoded : decodeAll s.symbols = item :: items) {command : Command}
    (readable : item.content = .ok command) :
    fetch s = .found ⟨command, item.rest⟩ (.range item.span) ∧ decodeAll item.rest = items := by
  rw [decodeAll_eq] at decoded
  unfold fetch
  cases found : next? s.symbols with
  | none =>
    rw [found] at decoded
    cases decoded
  | some first =>
    rw [found] at decoded
    cases decoded
    simp only [readable]
    exact ⟨trivial, trivial⟩

theorem fetch_of_decodeAll_nil {s : State} (decoded : decodeAll s.symbols = []) :
    fetch s = .finished := by
  rw [decodeAll_eq] at decoded
  unfold fetch
  cases found : next? s.symbols with
  | none => rfl
  | some first =>
    rw [found] at decoded
    cases decoded

/-- These commands are still to be decoded, and the store is this one. -/
structure Awaits (items : List Item) (place : Nat) (commands : List Command) (store : Store)
    (s : State) : Prop where
  toStore : s.toStore = store
  decoded : decodeAll s.symbols = items.drop place
  contents : (items.drop place).map Item.content = commands.map Except.ok

/-- **The machine obeys the decoded commands** one after another. -/
theorem carries_obey (items : List Item) :
    Carries machine Store.obey (itemSite items) (Awaits items) (fun s store => s.toStore = store)
      Eq where
  finished := by
    rintro place store s ⟨toStore, decoded, contents⟩
    have none_left : items.drop place = [] := List.map_eq_nil_iff.mp contents
    rw [none_left] at decoded
    exact ⟨fetch_of_decodeAll_nil decoded, toStore⟩
  cycle := by
    rintro place command commands _ s ⟨rfl, decoded, contents⟩
    obtain ⟨item, rest, dropped, content, contents⟩ := List.map_eq_cons_iff.mp contents
    have at_place : items[place]? = some item := by
      rw [← List.head?_drop, dropped]
      rfl
    have after : items.drop (place + 1) = rest := by
      rw [← List.tail_drop, dropped]
      rfl
    have site : itemSite items place = .range item.span := by
      unfold itemSite
      rw [at_place]
    rw [dropped] at decoded
    obtain ⟨fetched, left⟩ := fetch_of_decodeAll decoded content
    rw [← site] at fetched
    refine ⟨⟨command, item.rest⟩, fetched, ?_⟩
    show (execute ⟨command, item.rest⟩ s).Mirrors _ _ _ _
    unfold Store.obey
    by_cases halts : command = .finish
    · subst halts
      exact .halt rfl
    · rw [execute_of_ne_finish halts, if_neg halts]
      cases s.toStore.perform command with
      | ok store =>
        refine .next ⟨rfl, ?_, ?_⟩
        · rw [after]
          exact left
        · rw [after]
          exact contents
      | error fault => exact .fault rfl

/-! ## §4. Running what is written. -/

/-- A run of a source text without faults of decoding ends as its commands do. -/
theorem run_mirrors {source : String} {commands : List Command}
    (contents : (decodeAll (scan source)).map Item.content = commands.map Except.ok)
    {settings : Settings} (quiet : settings.Quiet) :
    (runSource source settings).Mirrors (settings.maxSteps.getD Budget.ceiling)
      (itemSite (decodeAll (scan source))) (fun s store => s.toStore = store) Eq
      (carryOut Store.obey (settings.maxSteps.getD Budget.ceiling) 0 commands .initial) := by
  have awaits : Awaits (decodeAll (scan source)) 0 commands .initial
      ⟨.initial, scan source⟩ := ⟨rfl, rfl, contents⟩
  have limit : (Budget.ofSettings settings none).limit
      = settings.maxSteps.getD Budget.ceiling := by
    show (settings.maxSteps.or none).getD Budget.ceiling = _
    rw [Option.or_none]
  rw [← limit]
  exact (carries_obey _).run (Whitespace.engine source).steady (quiet.ofSettings none) awaits

/-- **A written program does what its commands do.**  Commands can be written, with any
number of zeros in front of their numbers.  If the least number is not among those, the
commands are decoded again from every text that they are written in; and with a cycle for
each of them the program prints what they print, or fails as they do. -/
theorem evaluate_written {commands : List Command}
    (readable : ∀ c ∈ commands, c.number? ≠ some Int64.minValue) :
    (∀ zeros, WritesAll commands
        ((Symbol.text (commands.flatMap (Command.writing zeros))).toList.filterMap
          Symbol.ofChar?))
      ∧ ∀ source : String, WritesAll commands (source.toList.filterMap Symbol.ofChar?) →
        (decodeAll (scan source)).map Item.content = commands.map Except.ok
          ∧ ∀ settings : Settings, settings.Quiet →
            commands.length ≤ settings.maxSteps.getD Budget.ceiling →
              ((evaluate .whitespace source settings).map Evaluation.output).mapError
                  Diagnostic.report
                = ((Store.initial.performAll commands).map Store.output).mapError
                    Fault.report := by
  constructor
  · intro zeros
    exact writesAll_text zeros commands
  · intro source written
    have contents := map_content_decodeAll written readable
    refine ⟨contents, ?_⟩
    intro settings quiet le
    have mirrors := run_mirrors contents quiet
    rw [evaluate, Esolang.run, Whitespace.run]
    rcases carryOut_obey (s := .initial) (Nat.zero_add commands.length ▸ le) with
      ⟨store, performed, upshot⟩ | ⟨fault, last, performed, upshot⟩
    · rw [upshot] at mirrors
      obtain ⟨s, result, rfl⟩ := mirrors.result_done Fault.report
      rw [result, performed]
      rfl
    · rw [upshot] at mirrors
      obtain ⟨cause, result, rfl⟩ := mirrors.result_failed Fault.report
      rw [result, performed]
      rfl

/-- Five modulo minus three is minus one.  Two zeros stand in front of each number, and
what follows the command that halts would fail. -/
theorem evaluate_written_remainder :
    (∀ c ∈ [Command.push 5, .push (-3), .modulo, .printInt, .finish, .discard],
        c.number? ≠ some Int64.minValue)
      ∧ ((evaluate .whitespace
            (Symbol.text ([Command.push 5, .push (-3), .modulo, .printInt, .finish,
              .discard].flatMap (Command.writing 2))) {}).map Evaluation.output).mapError
          Diagnostic.report = .ok "-1" := by
  have readable : ∀ c ∈ [Command.push 5, .push (-3), .modulo, .printInt, .finish, .discard],
      c.number? ≠ some Int64.minValue := by decide
  obtain ⟨writing, written⟩ := evaluate_written readable
  obtain ⟨-, evaluated⟩ := written _ (writing 2)
  have quiet : ({} : Settings).Quiet := ⟨nofun, nofun⟩
  exact ⟨readable, (evaluated {} quiet (by decide)).trans rfl⟩

end Esolang.Whitespace
