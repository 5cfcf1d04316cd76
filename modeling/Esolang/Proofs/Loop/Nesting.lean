/-
  Esolang.Proofs.Loop.Nesting
  ───────────────────────────
  **PAIRED LOOPS ARE NESTED.**

  `Pairing.ofBrackets` pairs brackets with a stack of the loops that are open.
  When it succeeds, the partners are each other's partners, every bracket has
  one, and of two loops one lies inside the other or beside it.

    • `Pairing.matches_of_brackets` — what a successful pairing of the brackets
      among instructions satisfies,
    • `Pairing.getElem?_of_eq_error` — a pairing that fails names an instruction,
    • `Balanced` — that brackets can be paired, told by counting them,
    • `Guard.Within` — a guard that remembers only loops around an index, and
      what becomes of it when a loop is entered, repeated, left or passed.
-/
import Esolang.Loop.Guard
import Esolang.Loop.Pairing
import Esolang.Source.Token
import Mathlib.Data.List.Infix

namespace Esolang.Loop

open Esolang.Source (Token)

/-! ## §1. Partners. -/

namespace Pairing

/-- In the beginning no bracket has a partner. -/
theorem partner?_empty (i : Nat) : empty.partner? i = none := by
  simp [empty, partner?]

/-- Two brackets that are joined become partners, and no other bracket is concerned. -/
theorem partner?_join (p : Pairing) (first last i : Nat) :
    (p.join first last).partner? i =
      if last = i then some first else if first = i then some last else p.partner? i := by
  simp only [join, partner?, Std.TreeMap.getElem?_insert, Nat.compare_eq_eq]

/-- Partners are each other's partners, and of two loops one lies inside the
other or beside it. -/
structure Nested (p : Pairing) : Prop where
  /-- Partners are each other's partners. -/
  symm : ∀ {i j}, p.partner? i = some j → p.partner? j = some i
  /-- No bracket is its own partner. -/
  irrefl : ∀ {i}, p.partner? i ≠ some i
  /-- A loop that begins inside another ends inside it. -/
  nested : ∀ {i j k l}, p.partner? i = some j → p.partner? k = some l →
    i < k → k < j → k < l → l < j

/-- A nested pairing of exactly these brackets. -/
structure Matches (p : Pairing) (bs : List (Nat × Bracket)) : Prop extends p.Nested where
  /-- The first of two partners opens a loop and the last closes it. -/
  ends : ∀ {i j}, p.partner? i = some j → i < j → (i, .opening) ∈ bs ∧ (j, .closing) ∈ bs
  /-- Every bracket has a partner. -/
  covers : ∀ {i b}, (i, b) ∈ bs → ∃ j, p.partner? i = some j

/-- What holds after the brackets `seen` have been read, when the loops opened at
the indices `pending` are not yet closed, the innermost first. -/
structure Scanned (p : Pairing) (pending : List Nat) (seen : List (Nat × Bracket)) : Prop
    extends p.Nested where
  ends : ∀ {i j}, p.partner? i = some j → i < j → (i, .opening) ∈ seen ∧ (j, .closing) ∈ seen
  covers : ∀ {i b}, (i, b) ∈ seen → (∃ j, p.partner? i = some j) ∨ i ∈ pending
  /-- Inner loops are opened after outer ones. -/
  sorted : pending.Pairwise (· > ·)
  opened : ∀ q ∈ pending, (q, .opening) ∈ seen
  free : ∀ q ∈ pending, p.partner? q = none
  /-- No open loop begins inside one that is closed. -/
  apart : ∀ {q i j}, q ∈ pending → p.partner? i = some j → i < q → j < q

/-- Before the first bracket nothing waits for a partner, and nothing has one. -/
theorem Scanned.empty : Scanned empty [] [] where
  symm h := by simp [partner?_empty] at h
  irrefl h := by simp [partner?_empty] at h
  nested h := by simp [partner?_empty] at h
  ends h := by simp [partner?_empty] at h
  covers h := by cases h
  sorted := .nil
  opened := nofun
  free := nofun
  apart h := by cases h

/-- Only brackets that were scanned have partners. -/
theorem Scanned.lt_of_partner {p : Pairing} {pending : List Nat} {seen : List (Nat × Bracket)}
    (h : Scanned p pending seen) {n : Nat} (below : ∀ b ∈ seen, b.1 < n) {i j : Nat}
    (eq : p.partner? i = some j) : i < n := by
  rcases Nat.lt_trichotomy i j with lt | rfl | gt
  · exact below _ (h.ends eq lt).1
  · exact absurd eq h.irrefl
  · exact below _ (h.ends (h.symm eq) gt).2

/-- Reading a bracket that opens a loop. -/
theorem Scanned.push {p : Pairing} {pending : List Nat} {seen : List (Nat × Bracket)} {n : Nat}
    (h : Scanned p pending seen) (below : ∀ b ∈ seen, b.1 < n) :
    Scanned p (n :: pending) (seen ++ [(n, .opening)]) where
  symm := h.symm
  irrefl := h.irrefl
  nested := h.nested
  ends eq lt := by
    have := h.ends eq lt
    simp [this]
  covers mem := by
    rcases List.mem_append.mp mem with old | new
    · rcases h.covers old with partner | waits
      · exact .inl partner
      · exact .inr (List.mem_cons_of_mem n waits)
    · simp only [List.mem_singleton, Prod.mk.injEq] at new
      exact .inr (by simp [new.1])
  sorted := List.pairwise_cons.mpr ⟨fun q hq => below _ (h.opened q hq), h.sorted⟩
  opened q hq := by
    rcases List.mem_cons.mp hq with rfl | hq
    · simp
    · exact List.mem_append_left _ (h.opened q hq)
  free q hq := by
    rcases List.mem_cons.mp hq with rfl | hq
    · cases eq : p.partner? q with
      | none => rfl
      | some j => exact absurd (h.lt_of_partner below eq) (Nat.lt_irrefl q)
    · exact h.free q hq
  apart hq eq lt := by
    rcases List.mem_cons.mp hq with rfl | hq
    · exact h.lt_of_partner below (h.symm eq)
    · exact h.apart hq eq lt

section
variable {p : Pairing} {first n : Nat} {pending : List Nat} {seen : List (Nat × Bracket)}

/-- When the innermost loop is closed, a partner is one of the two that are joined, or
one from before. -/
theorem Scanned.cases_join (h : Scanned p (first :: pending) seen)
    (below : ∀ b ∈ seen, b.1 < n) {i j : Nat} (eq : (p.join first n).partner? i = some j) :
    (i = n ∧ j = first) ∨ (i = first ∧ j = n)
      ∨ (i ≠ n ∧ i ≠ first ∧ j ≠ n ∧ j ≠ first ∧ p.partner? i = some j) := by
  rw [partner?_join] at eq
  split at eq
  · next hi =>
    cases eq
    exact .inl ⟨hi.symm, rfl⟩
  · split at eq
    · next hi =>
      cases eq
      exact .inr (.inl ⟨hi.symm, rfl⟩)
    · -- `first` had no partner, so it is nobody's.
      have back := h.symm eq
      have hjn := h.lt_of_partner below back
      refine .inr (.inr ⟨by omega, by omega, by omega, ?_, eq⟩)
      rintro rfl
      rw [h.free j List.mem_cons_self] at back
      cases back

/-- Closing the innermost loop keeps the loops nested. -/
theorem Scanned.nested_join (h : Scanned p (first :: pending) seen)
    (below : ∀ b ∈ seen, b.1 < n) : (p.join first n).Nested := by
  have hfirst : first < n := below _ (h.opened first List.mem_cons_self)
  refine ⟨?_, ?_, ?_⟩
  · intro i j eq
    rcases h.cases_join below eq with ⟨rfl, rfl⟩ | ⟨rfl, rfl⟩ | ⟨hin, hif, hjn, hjf, old⟩
    · rw [partner?_join, if_neg (by omega), if_pos rfl]
    · rw [partner?_join, if_pos rfl]
    · rw [partner?_join, if_neg (by omega), if_neg (by omega)]
      exact h.symm old
  · intro i eq
    rcases h.cases_join below eq with ⟨rfl, rfl⟩ | ⟨rfl, eq⟩ | ⟨-, -, -, -, old⟩
    · exact Nat.lt_irrefl _ hfirst
    · omega
    · exact h.irrefl old
  · -- Of two loops the new one can only be the outer: all others end before it does.
    intro i j k l eq eq' lt lt' lt''
    rcases h.cases_join below eq with ⟨rfl, rfl⟩ | ⟨rfl, rfl⟩ | ⟨hin, hif, hjn, hjf, old⟩
    · omega
    · rcases h.cases_join below eq' with ⟨rfl, rfl⟩ | ⟨rfl, rfl⟩ | ⟨hkn, hkf, hln, hlf, old'⟩
      · omega
      · omega
      · have := h.lt_of_partner below (h.symm old')
        omega
    · rcases h.cases_join below eq' with ⟨rfl, rfl⟩ | ⟨rfl, rfl⟩ | ⟨hkn, hkf, hln, hlf, old'⟩
      · have := h.lt_of_partner below (h.symm old)
        omega
      · have := h.apart List.mem_cons_self old lt
        omega
      · exact h.nested old old' lt lt' lt''

/-- Reading a bracket that closes the innermost loop. -/
theorem Scanned.pop (h : Scanned p (first :: pending) seen) (below : ∀ b ∈ seen, b.1 < n) :
    Scanned (p.join first n) pending (seen ++ [(n, .closing)]) := by
  have hfirst : first < n := below _ (h.opened first List.mem_cons_self)
  have outer : ∀ q ∈ pending, q < first := (List.pairwise_cons.mp h.sorted).1
  refine ⟨h.nested_join below, ?ends, ?covers, (List.pairwise_cons.mp h.sorted).2,
    ?opened, ?free, ?apart⟩
  case ends =>
    intro i j eq lt
    rcases h.cases_join below eq with ⟨rfl, rfl⟩ | ⟨rfl, rfl⟩ | ⟨hin, hif, hjn, hjf, old⟩
    · omega
    · exact ⟨List.mem_append_left _ (h.opened _ List.mem_cons_self), by simp⟩
    · have := h.ends old lt
      simp [this]
  case covers =>
    intro i b mem
    rw [partner?_join]
    split
    · exact .inl ⟨_, rfl⟩
    · split
      · exact .inl ⟨_, rfl⟩
      · next hn hf =>
        -- Not one of the two that are joined, so it was read before.
        rcases List.mem_append.mp mem with old | new
        · rcases h.covers old with partner | waits
          · exact .inl partner
          · rcases List.mem_cons.mp waits with rfl | waits
            · exact absurd rfl hf
            · exact .inr waits
        · simp only [List.mem_singleton, Prod.mk.injEq] at new
          exact absurd new.1.symm hn
  case opened =>
    intro q hq
    exact List.mem_append_left _ (h.opened q (List.mem_cons_of_mem _ hq))
  case free =>
    intro q hq
    have := outer q hq
    rw [partner?_join, if_neg (by omega), if_neg (by omega)]
    exact h.free q (List.mem_cons_of_mem _ hq)
  case apart =>
    intro q i j hq eq lt
    have := outer q hq
    rcases h.cases_join below eq with ⟨rfl, rfl⟩ | ⟨rfl, rfl⟩ | ⟨hin, hif, hjn, hjf, old⟩
    · omega
    · omega
    · exact h.apart (List.mem_cons_of_mem _ hq) old lt

end

/-- What a pairing that succeeds satisfies, whatever has been read before. -/
theorem Scanned.extend :
    ∀ {rest seen : List (Nat × Bracket)} {p p' : Pairing} {pending : List Nat},
      Scanned p pending seen → (seen ++ rest).Pairwise (·.1 < ·.1) →
      p.extend pending rest = .ok p' → p'.Matches (seen ++ rest)
  | [], seen, p, p', pending, h, _, eq => by
    unfold Pairing.extend at eq
    split at eq
    · cases eq
    · next none_open =>
      cases eq
      rw [List.getLast?_eq_none_iff] at none_open
      subst none_open
      rw [List.append_nil]
      refine ⟨h.toNested, h.ends, fun mem => ?_⟩
      rcases h.covers mem with partner | waits
      · exact partner
      · cases waits
  | (n, .opening) :: rest, seen, p, p', pending, h, sorted, eq => by
    unfold Pairing.extend at eq
    have below : ∀ b ∈ seen, b.1 < n := fun b hb =>
      (List.pairwise_append.mp sorted).2.2 b hb _ List.mem_cons_self
    rw [List.append_cons] at sorted ⊢
    exact (h.push below).extend sorted eq
  | (n, .closing) :: rest, seen, p, p', pending, h, sorted, eq => by
    unfold Pairing.extend at eq
    have below : ∀ b ∈ seen, b.1 < n := fun b hb =>
      (List.pairwise_append.mp sorted).2.2 b hb _ List.mem_cons_self
    rw [List.append_cons] at sorted ⊢
    cases pending with
    | nil => cases eq
    | cons first pending => exact (h.pop below).extend sorted eq

/-- **A pairing that succeeds is a nested pairing of all brackets.** -/
theorem matches_of_ofBrackets {bs : List (Nat × Bracket)} {p : Pairing}
    (sorted : bs.Pairwise (·.1 < ·.1)) (h : ofBrackets bs = .ok p) : p.Matches bs :=
  Scanned.empty.extend sorted h

end Pairing

/-- The end of a loop that has no partner. -/
def PairingFault.bracket : PairingFault → Bracket
  | .unmatchedClose _ => .closing
  | .unclosedOpen _ => .opening

namespace Pairing

/-- The bracket that is blamed is one of those that are listed: one that was just scanned, or one
that still waits. -/
theorem mem_of_extend_eq_error {listed : List (Nat × Bracket)} {fault : PairingFault}
    {rest : List (Nat × Bracket)} :
    ∀ {p : Pairing} {pending : List Nat},
      (∀ b ∈ rest, b ∈ listed) → (∀ q ∈ pending, (q, .opening) ∈ listed) →
        p.extend pending rest = .error fault → (fault.index, fault.bracket) ∈ listed := by
  induction rest with
  | nil =>
    intro p pending _ opened eq
    unfold extend at eq
    split at eq
    · next outermost last =>
      cases eq
      exact opened outermost (List.mem_of_getLast? last)
    · cases eq
  | cons first rest ih =>
    intro p pending inside opened eq
    obtain ⟨i, bracket⟩ := first
    obtain ⟨here, behind⟩ := List.forall_mem_cons.mp inside
    cases bracket with
    | opening => exact ih behind (List.forall_mem_cons.mpr ⟨here, opened⟩) eq
    | closing =>
      cases pending with
      | nil =>
        cases eq
        exact here
      | cons q pending => exact ih behind (List.forall_mem_cons.mp opened).2 eq

/-- **A fault of pairing is about one of the brackets.** -/
theorem mem_of_ofBrackets_eq_error {bs : List (Nat × Bracket)} {fault : PairingFault}
    (h : ofBrackets bs = .error fault) : (fault.index, fault.bracket) ∈ bs :=
  mem_of_extend_eq_error (fun _ mem => mem) (fun _ none => absurd none List.not_mem_nil) h

end Pairing

/-! ## §2. Brackets among instructions. -/

section
variable {ι : Type} {bracket? : ι → Option Bracket}

/-- The brackets that are listed are those of the program, at their places. -/
theorem mem_brackets {program : List ι} {i : Nat} {b : Bracket} :
    (i, b) ∈ brackets bracket? program ↔
      ∃ instr, program[i]? = some instr ∧ bracket? instr = some b := by
  simp only [brackets, List.mem_filterMap, Option.map_eq_some_iff, Prod.mk.injEq]
  constructor
  · rintro ⟨⟨instr, k⟩, mem, b', hb, rfl, rfl⟩
    exact ⟨instr, List.mk_mem_zipIdx_iff_getElem?.mp mem, hb⟩
  · rintro ⟨instr, hi, hb⟩
    exact ⟨(instr, i), List.mk_mem_zipIdx_iff_getElem?.mpr hi, b, hb, rfl, rfl⟩

/-- No other instruction is listed. -/
theorem not_mem_brackets {program : List ι} {i : Nat} {instr : ι} {b : Bracket}
    (hi : program[i]? = some instr) (hb : bracket? instr ≠ some b) :
    (i, b) ∉ brackets bracket? program := by
  intro mem
  obtain ⟨instr', hi', hb'⟩ := mem_brackets.mp mem
  rw [hi] at hi'
  cases hi'
  exact hb hb'

/-- An instruction that opens a loop has a partner behind it. -/
theorem Pairing.Matches.of_opening {p : Pairing} {program : List ι} {i : Nat} {instr : ι}
    (hp : p.Matches (brackets bracket? program)) (hi : program[i]? = some instr)
    (hb : bracket? instr = some .opening) : ∃ j, p.partner? i = some j ∧ i < j := by
  obtain ⟨j, partner⟩ := hp.covers (mem_brackets.mpr ⟨instr, hi, hb⟩)
  refine ⟨j, partner, ?_⟩
  rcases Nat.lt_trichotomy i j with lt | rfl | gt
  · exact lt
  · exact absurd partner hp.irrefl
  · exact absurd (hp.ends (hp.symm partner) gt).2 (not_mem_brackets hi (by rw [hb]; exact nofun))

/-- An instruction that closes a loop has a partner before it. -/
theorem Pairing.Matches.of_closing {p : Pairing} {program : List ι} {i : Nat} {instr : ι}
    (hp : p.Matches (brackets bracket? program)) (hi : program[i]? = some instr)
    (hb : bracket? instr = some .closing) : ∃ j, p.partner? i = some j ∧ j < i := by
  obtain ⟨j, partner⟩ := hp.covers (mem_brackets.mpr ⟨instr, hi, hb⟩)
  refine ⟨j, partner, ?_⟩
  rcases Nat.lt_trichotomy i j with lt | rfl | gt
  · exact absurd (hp.ends partner lt).1 (not_mem_brackets hi (by rw [hb]; exact nofun))
  · exact absurd partner hp.irrefl
  · exact gt

/-- An instruction that does neither has none. -/
theorem Pairing.Matches.partner?_eq_none {p : Pairing} {program : List ι} {i : Nat} {instr : ι}
    (hp : p.Matches (brackets bracket? program)) (hi : program[i]? = some instr)
    (hb : bracket? instr = none) : p.partner? i = none := by
  cases partner : p.partner? i with
  | none => rfl
  | some j =>
    rcases Nat.lt_trichotomy i j with lt | rfl | gt
    · exact absurd (hp.ends partner lt).1 (not_mem_brackets hi (by rw [hb]; exact nofun))
    · exact absurd partner hp.irrefl
    · exact absurd (hp.ends (hp.symm partner) gt).2
        (not_mem_brackets hi (by rw [hb]; exact nofun))

/-- A partner is the index of an instruction. -/
theorem Pairing.Matches.partner?_lt {p : Pairing} {code : Array (Token ι)} {i j : Nat}
    (hp : p.Matches (brackets bracket? (code.toList.map Token.symbol)))
    (partner : p.partner? i = some j) : j < code.size := by
  have listed : ∃ b, (j, b) ∈ brackets bracket? (code.toList.map Token.symbol) := by
    rcases Nat.lt_trichotomy i j with lt | rfl | gt
    · exact ⟨_, (hp.ends partner lt).2⟩
    · exact absurd partner hp.irrefl
    · exact ⟨_, (hp.ends (hp.symm partner) gt).1⟩
  obtain ⟨b, mem⟩ := listed
  obtain ⟨instr, found, -⟩ := mem_brackets.mp mem
  have lt : j < (code.toList.map Token.symbol).length := (List.getElem?_eq_some_iff.mp found).1
  rwa [List.length_map, Array.length_toList] at lt

/-- **The instruction that a fault is about is there**, and it is an end of a loop. -/
theorem Pairing.getElem?_of_eq_error {code : List (Token ι)} {fault : PairingFault}
    (h : Pairing.ofBrackets (brackets bracket? (code.map Token.symbol)) = .error fault) :
    ∃ token, code[fault.index]? = some token ∧ bracket? token.symbol = some fault.bracket := by
  obtain ⟨instr, found, bracket⟩ := mem_brackets.mp (mem_of_ofBrackets_eq_error h)
  rw [List.getElem?_map, Option.map_eq_some_iff] at found
  obtain ⟨token, here, rfl⟩ := found
  exact ⟨token, here, bracket⟩

/-- Places grow along a program. -/
theorem sorted_zipIdx :
    ∀ (program : List ι) (k : Nat), (program.zipIdx k).Pairwise (·.2 < ·.2)
  | [], _ => .nil
  | instr :: program, k => by
    rw [List.zipIdx_cons]
    refine List.pairwise_cons.mpr ⟨fun later mem => ?_, sorted_zipIdx program (k + 1)⟩
    exact List.le_snd_of_mem_zipIdx mem

/-- So the brackets of a program are listed in order. -/
theorem sorted_brackets (bracket? : ι → Option Bracket) (program : List ι) :
    (brackets bracket? program).Pairwise (·.1 < ·.1) := by
  unfold brackets
  refine List.pairwise_filterMap.mpr ((sorted_zipIdx program 0).imp ?_)
  rintro ⟨instr, i⟩ ⟨instr', i'⟩ lt b hb b' hb'
  simp only [Option.map_eq_some_iff] at hb hb'
  obtain ⟨_, _, rfl⟩ := hb
  obtain ⟨_, _, rfl⟩ := hb'
  exact lt

/-- **A pairing of the brackets of a program that succeeds matches them.** -/
theorem Pairing.matches_of_brackets {p : Pairing} {program : List ι}
    (h : Pairing.ofBrackets (brackets bracket? program) = .ok p) :
    p.Matches (brackets bracket? program) :=
  Pairing.matches_of_ofBrackets (sorted_brackets bracket? program) h

/-- Programs with the same brackets at the same indices are paired in the same way. -/
theorem brackets_congr {xs ys : List ι} (same : xs.map bracket? = ys.map bracket?) :
    brackets bracket? xs = brackets bracket? ys := by
  have through (zs : List ι) : brackets bracket? zs
      = (zs.map bracket?).zipIdx.filterMap fun (b, i) => b.map fun b => (i, b) := by
    rw [brackets, List.zipIdx_map, List.filterMap_map]
    rfl
  rw [through, through, same]

/-- Brackets are found through whatever the instructions are made from. -/
theorem brackets_map {κ : Type} (f : κ → ι) (program : List κ) :
    brackets bracket? (program.map f) = brackets (bracket? ∘ f) program := by
  rw [brackets, List.zipIdx_map, List.filterMap_map]
  rfl

end

/-! ## §3. Balanced brackets. -/

/-- As many loops are closed as are opened, and never more than have been opened. -/
structure Balanced (bs : List Bracket) : Prop where
  /-- No bracket closes a loop when none is open. -/
  inits : ∀ before ∈ bs.inits, before.count .closing ≤ before.count .opening
  /-- No loop stays open. -/
  count_eq : bs.count .opening = bs.count .closing

instance (bs : List Bracket) : Decidable (Balanced bs) :=
  decidable_of_iff
    ((∀ before ∈ bs.inits, before.count .closing ≤ before.count .opening)
      ∧ bs.count .opening = bs.count .closing)
    ⟨fun h => ⟨h.1, h.2⟩, fun h => ⟨h.inits, h.count_eq⟩⟩

/-- From any place on at least as many loops close as open. -/
theorem Balanced.count_le {bs after : List Bracket} (h : Balanced bs) (suffix : after <:+ bs) :
    after.count .opening ≤ after.count .closing := by
  -- What comes before closes no more than it opens, and in all they are as many.
  obtain ⟨before, rfl⟩ := suffix
  have le := h.inits before ((List.mem_inits _ _).mpr (List.prefix_append _ _))
  have eq := h.count_eq
  rw [List.count_append, List.count_append] at eq
  omega

/-! ## §4. What a guard remembers. -/

namespace Guard

@[simp] theorem last?_fresh (close : Nat) : fresh.last? close = none := rfl

/-- What is noted last for a place is what is found there. -/
theorem lookup_pass (passes : List (Nat × UInt8)) (close i : Nat) (cell : UInt8) :
    ((close, cell) :: passes).lookup i = if i = close then some cell else passes.lookup i := by
  rw [List.lookup_cons]
  by_cases hi : i = close
  · simp [hi]
  · rw [beq_false_of_ne hi, if_neg hi]

/-- To forget a place leaves what is known of the others. -/
theorem last?_forget (g : Guard) (close i : Nat) :
    (g.forget close).last? i = if i = close then none else g.last? i := by
  unfold forget last?
  induction g.passes with
  | nil => simp
  | cons pass passes ih =>
    obtain ⟨j, cell⟩ := pass
    by_cases hj : j = close
    · rw [List.filter_cons_of_neg (by simpa using hj), ih, lookup_pass, hj]
      split <;> rfl
    · rw [List.filter_cons_of_pos (by simpa using hj), lookup_pass, lookup_pass, ih]
      by_cases hi : i = j
      · rw [if_pos hi, if_pos hi, if_neg (by omega)]
      · rw [if_neg hi, if_neg hi]

/-- So does to remember something of it. -/
theorem last?_remember (g : Guard) (close i : Nat) (cell : UInt8) :
    (g.remember close cell).last? i = if i = close then some cell else g.last? i := by
  show ((close, cell) :: (g.forget close).passes).lookup i = _
  rw [lookup_pass]
  split
  · rfl
  · next hi =>
    show (g.forget close).last? i = _
    rw [last?_forget, if_neg hi]

/-- The guard remembers loops around the index `i` only: those that begin before
it and end there or later. -/
def Within (g : Guard) (p : Pairing) (i : Nat) : Prop :=
  ∀ close, g.last? close ≠ none →
    ∃ first, p.partner? close = some first ∧ first < i ∧ i ≤ close

/-- A fresh guard remembers no loop, so none that is not around. -/
theorem Within.fresh (p : Pairing) (i : Nat) : fresh.Within p i := by
  intro close h
  exact absurd (last?_fresh close) h

section
variable {g : Guard} {p : Pairing} {i j : Nat} {cell : UInt8}

/-- Only the end of a loop is remembered. -/
theorem Within.last?_eq_none {bs : List (Nat × Bracket)} (w : g.Within p i)
    (hp : p.Matches bs) (h : (i, .closing) ∉ bs) : g.last? i = none := by
  by_cases eq : g.last? i = none
  · exact eq
  · obtain ⟨first, partner, lt, -⟩ := w i eq
    exact absurd (hp.ends (hp.symm partner) lt).2 h

/-- Going on from an index that ends no loop. -/
theorem Within.advance (w : g.Within p i) (h : g.last? i = none) : g.Within p (i + 1) := by
  intro close hc
  obtain ⟨first, partner, lt, le⟩ := w close hc
  have ne : i ≠ close := by
    rintro rfl
    exact hc h
  exact ⟨first, partner, by omega, by omega⟩

/-- Leaving the loop that ends at the index. -/
theorem Within.leave (w : g.Within p i) : (g.forget i).Within p (i + 1) := by
  intro close hc
  rw [last?_forget] at hc
  split at hc
  · exact absurd rfl hc
  · next ne =>
    obtain ⟨first, partner, lt, le⟩ := w close hc
    exact ⟨first, partner, by omega, by omega⟩

/-- Passing over the loop that begins at the index. -/
theorem Within.skip (w : g.Within p i) (hp : p.Nested) (h : g.last? i = none)
    (partner : p.partner? i = some j) (lt : i < j) : g.Within p (j + 1) := by
  intro close hc
  obtain ⟨first, around, before, after⟩ := w.advance h close hc
  -- Not the skipped loop itself: what is remembered at `i` began before `i`.
  have ne : first ≠ i := by
    rintro rfl
    have eq : p.partner? first = some close := hp.symm around
    rw [partner] at eq
    cases eq
    obtain ⟨first', around', lt', -⟩ := w j hc
    rw [around] at around'
    cases around'
    exact Nat.lt_irrefl _ lt'
  have inside := hp.nested (hp.symm around) partner (by omega) (by omega) lt
  exact ⟨first, around, by omega, by omega⟩

/-- Repeating the loop that ends at the index. -/
theorem Within.again (w : g.Within p i) (hp : p.Nested) (partner : p.partner? i = some j)
    (lt : j < i) : (g.remember i cell).Within p (j + 1) := by
  intro close hc
  rw [last?_remember] at hc
  split at hc
  · next eq =>
    subst eq
    exact ⟨j, partner, by omega, by omega⟩
  · next ne =>
    obtain ⟨first, around, before, after⟩ := w close hc
    -- A loop that began inside the repeated one would have ended before `i`.
    have outside : ¬ j < first := by
      intro inside
      have := hp.nested (hp.symm partner) (hp.symm around) inside before (by omega)
      omega
    exact ⟨first, around, by omega, by omega⟩

end

end Guard

end Esolang.Loop
