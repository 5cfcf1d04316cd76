/-
  Esolang.Proofs.Whitespace.Cycle
  ───────────────────────────────
  **A CYCLE OF WHITESPACE.**

  A cycle decodes the command at the front of the symbols, executes it on the store and
  leaves the symbols behind it.

    • `fetch_eq_found`, `fetch_eq_unreadable` — what is fetched is what has been decoded,
    • `suffix_of_after?` — what is left in a run is always an end of the symbols,
    • `abreast_of_next?` — states with the same store that decode the same do the same.
-/
import Esolang.Proofs.Machine.Lockstep
import Esolang.Proofs.Whitespace.Grammar
import Esolang.Whitespace.Machine

namespace Esolang.Whitespace

open Esolang.Diagnostic (Site)
open Esolang.Machine (Effect Abreast)
open Esolang.Source (Span Token InOrder)

/-! ## §1. What is fetched. -/

/-- What is decoded begins with the first symbol, and leaves an end of the symbols. -/
theorem next?_eq_some {symbols : List (Token Symbol)} {item : Item}
    (order : InOrder symbols) (read : next? symbols = some item) :
    ∃ first others, symbols = first :: (others ++ item.rest)
      ∧ item.span.start = first.span.start := by
  obtain ⟨ps, cut⟩ := exists_cut symbols
  rcases cut.next? order with ⟨rfl, -⟩ | ⟨p, rest, more, written, rfl, -, item'⟩
  · cases read
  · rw [item'] at read
    cases read
    cases tokens : p.tokens with
    | nil => exact absurd tokens (cut.ne_nil p List.mem_cons_self)
    | cons first others =>
      rw [tokens] at written
      exact ⟨first, others, written, rfl⟩

section
variable {s : State} {span : Span} {rest : List (Token Symbol)}

theorem fetch_of_none (read : next? s.symbols = none) : machine.fetch s = .finished := by
  simp only [machine, fetch, read]

theorem fetch_of_command {command : Command}
    (read : next? s.symbols = some ⟨.ok command, span, rest⟩) :
    machine.fetch s = .found ⟨command, rest⟩ (.range span) := by
  simp only [machine, fetch, read]

theorem fetch_of_fault {fault : DecodeFault}
    (read : next? s.symbols = some ⟨.error fault, span, rest⟩) :
    machine.fetch s = .unreadable (.undecodable fault) (.range span) := by
  simp only [machine, fetch, read]

end

/-- What is fetched has been decoded from the front of the symbols. -/
theorem fetch_eq_found {s : State} {decoded : Decoded} {site : Site}
    (h : machine.fetch s = .found decoded site) :
    ∃ item, next? s.symbols = some item ∧ site = .range item.span ∧ decoded.rest = item.rest := by
  replace h : fetch s = .found decoded site := h
  unfold fetch at h
  split at h
  · cases h
  · next item read =>
    split at h <;> cases h
    exact ⟨item, read, rfl, rfl⟩

theorem fetch_eq_unreadable {s : State} {cause : Fault} {site : Site}
    (h : machine.fetch s = .unreadable cause site) :
    ∃ item, next? s.symbols = some item ∧ site = .range item.span := by
  replace h : fetch s = .unreadable cause site := h
  unfold fetch at h
  split at h
  · cases h
  · next item read =>
    split at h <;> cases h
    exact ⟨item, read, rfl⟩

/-! ## §2. What is left. -/

theorem execute_eq_next {decoded : Decoded} {s s' : State}
    (h : execute decoded s = .next s') : s'.symbols = decoded.rest := by
  unfold execute at h
  split at h
  · cases h
  · split at h <;> cases h
    rfl

theorem inOrder_of_suffix {symbols : List (Token Symbol)} {source : String}
    (suffix : symbols <:+ scan source) : InOrder symbols := by
  have order : InOrder (scan source) := Source.inOrder_tokens _ _
  obtain ⟨before, split⟩ := suffix
  rw [← split] at order
  exact order.append_right

/-- What is left to be decoded is an end of the symbols. -/
theorem suffix_of_after? {source : String} {n : Nat} {s : State}
    (hs : machine.after? n ⟨.initial, scan source⟩ = some s) : s.symbols <:+ scan source := by
  refine Machine.after?_preserves (P := fun s => s.symbols <:+ scan source) ?_
    (List.suffix_refl _) hs
  intro u u' suffix hn
  obtain ⟨decoded, site, fetched, executed⟩ := Machine.next?_eq_some.mp hn
  obtain ⟨item, read, -, rest⟩ := fetch_eq_found fetched
  obtain ⟨first, others, written, -⟩ := next?_eq_some (inOrder_of_suffix suffix) read
  have left : u'.symbols <:+ u.symbols := by
    rw [execute_eq_next executed, rest, written]
    exact ⟨first :: others, rfl⟩
  exact left.trans suffix

/-! ## §3. States that decode the same. -/

/-- A command does the same on the same store, whatever is left to be decoded. -/
theorem mirrors_of_store {R : State → State → Prop} {s s' : State} (related : R s s')
    (store : s.toStore = s'.toStore) (command : Command) {rest rest' : List (Token Symbol)}
    (later : ∀ store, R ⟨store, rest⟩ ⟨store, rest'⟩) :
    (execute ⟨command, rest⟩ s).Mirrors R R Eq (execute ⟨command, rest'⟩ s') := by
  by_cases finish : command = .finish
  · subst finish
    exact .halt related
  · rw [execute_of_ne_finish finish, execute_of_ne_finish finish, ← store]
    cases s.toStore.perform command with
    | ok store => exact .next (later store)
    | error fault => exact .fault rfl

/-- **States with the same store that decode the same go abreast.** -/
theorem abreast_of_next? {R : State → State → Prop} {Place : Site → Site → Prop} {s s' : State}
    {content : Except DecodeFault Command} {span span' : Span} {rest rest' : List (Token Symbol)}
    (here : next? s.symbols = some ⟨content, span, rest⟩)
    (there : next? s'.symbols = some ⟨content, span', rest'⟩)
    (place : Place (.range span) (.range span')) (related : R s s')
    (store : s.toStore = s'.toStore) (later : ∀ store, R ⟨store, rest⟩ ⟨store, rest'⟩) :
    Abreast machine machine R Eq Place s s' := by
  cases content with
  | error fault => exact .unreadable (fetch_of_fault here) (fetch_of_fault there) rfl place
  | ok command =>
    exact .found (fetch_of_command here) (fetch_of_command there) place
      (mirrors_of_store related store command later)

end Esolang.Whitespace
