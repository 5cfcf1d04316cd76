/-
  Esolang.Proofs.Loop.Matching
  ────────────────────────────
  **BRACKETS ARE MATCHED IN ONE WAY.**

  Brackets that are balanced can be paired so that loops are nested, and in one way
  only.  `Pairing.ofBrackets` finds this way, and of brackets that are not balanced it
  names the first that is wrong.  While it reads, the loops that are open lie between
  stretches that are balanced.

    • `depth` — how many loops are open behind some brackets,
    • `Stacked` — the loops that are open, and the balanced stretches between them,
    • `decided_extend` — what has been read when the pass ends, and how it ends,
    • `Nests.unique` — there is no second way to nest loops,
    • `ofBrackets_matching` — what becomes of every list of brackets.
-/
import Esolang.Proofs.Loop.Nesting
import Mathlib.Order.Bounds.Basic

namespace Esolang.Loop

/-! ## §1. Depths. -/

/-- How many loops are open behind these brackets, when so many are open before them;
`none` if a loop is closed and none is open. -/
def depth : Nat → List Bracket → Option Nat
  | d, [] => some d
  | d, .opening :: bs => depth (d + 1) bs
  | 0, .closing :: _ => none
  | d + 1, .closing :: bs => depth d bs

/-- The depth behind two stretches is reached one stretch after the other. -/
theorem depth_append (bs cs : List Bracket) :
    ∀ d, depth d (bs ++ cs) = (depth d bs).bind (depth · cs) := by
  induction bs with
  | nil =>
    intro d
    rfl
  | cons b bs ih =>
    intro d
    cases b with
    | opening => exact ih (d + 1)
    | closing =>
      cases d with
      | zero => rfl
      | succ d => exact ih d

/-- More loops that are open around some brackets stay open. -/
theorem depth_add {bs : List Bracket} (k : Nat) :
    ∀ {d e}, depth d bs = some e → depth (d + k) bs = some (e + k) := by
  induction bs with
  | nil =>
    intro d e h
    cases h
    rfl
  | cons b bs ih =>
    intro d e h
    cases b with
    | opening =>
      have more : depth (d + 1 + k) bs = some (e + k) := ih h
      rwa [show d + 1 + k = d + k + 1 by omega] at more
    | closing =>
      cases d with
      | zero => cases h
      | succ d =>
        have less : depth (d + k) bs = some (e + k) := ih h
        rw [show d + 1 + k = d + k + 1 by omega]
        exact less

/-- A depth is told by counting: no beginning closes more loops than are open. -/
theorem depth_eq_some {bs : List Bracket} :
    ∀ {d e}, depth d bs = some e ↔
      (∀ before, before <+: bs → before.count .closing ≤ before.count .opening + d)
        ∧ bs.count .closing + e = bs.count .opening + d := by
  induction bs with
  | nil =>
    intro d e
    simp only [depth, Option.some.injEq, List.prefix_nil, forall_eq, List.count_nil]
    omega
  | cons b bs ih =>
    intro d e
    have beginnings (P : List Bracket → Prop) : (∀ before, before <+: b :: bs → P before)
        ↔ P [] ∧ ∀ before, before <+: bs → P (b :: before) := by
      simp only [List.prefix_cons_iff]
      constructor
      · intro all
        exact ⟨all [] (.inl rfl), fun before h => all _ (.inr ⟨before, rfl, h⟩)⟩
      · rintro ⟨empty, longer⟩ before (rfl | ⟨rest, rfl, h⟩)
        · exact empty
        · exact longer rest h
    rw [beginnings]
    cases b with
    | opening =>
      have counts (cs : List Bracket) : (Bracket.opening :: cs).count .closing = cs.count .closing
          ∧ (Bracket.opening :: cs).count .opening = cs.count .opening + 1 := by simp
      simp only [depth, ih, counts]
      refine ⟨fun h => ⟨⟨by simp, fun cs hcs => ?_⟩, by omega⟩,
        fun h => ⟨fun cs hcs => ?_, by omega⟩⟩
      · have := h.1 cs hcs
        omega
      · have := h.1.2 cs hcs
        omega
    | closing =>
      have counts (cs : List Bracket) : (Bracket.closing :: cs).count .opening = cs.count .opening
          ∧ (Bracket.closing :: cs).count .closing = cs.count .closing + 1 := by simp
      cases d with
      | zero =>
        -- The closing bracket alone is a beginning that closes too much.
        refine ⟨nofun, fun h => ?_⟩
        have := h.1.2 [] List.nil_prefix
        simp at this
      | succ d =>
        simp only [depth, ih, counts]
        refine ⟨fun h => ⟨⟨by simp, fun cs hcs => ?_⟩, by omega⟩,
          fun h => ⟨fun cs hcs => ?_, by omega⟩⟩
        · have := h.1 cs hcs
          omega
        · have := h.1.2 cs hcs
          omega

/-- Brackets are balanced if they lead from the ground back to it and never below. -/
theorem balanced_iff_depth {bs : List Bracket} : Balanced bs ↔ depth 0 bs = some 0 := by
  rw [depth_eq_some]
  constructor
  · intro h
    refine ⟨fun before begins => h.inits before ((List.mem_inits _ _).mpr begins), ?_⟩
    have eq := h.count_eq
    omega
  · rintro ⟨inits, count⟩
    refine ⟨fun before mem => inits before ((List.mem_inits _ _).mp mem), ?_⟩
    omega

/-- Balanced brackets lead back to the depth where they began. -/
theorem Balanced.depth_eq {bs : List Bracket} (h : Balanced bs) (d : Nat) :
    depth d bs = some d := by
  have more := depth_add d (balanced_iff_depth.mp h)
  rwa [Nat.zero_add] at more

/-- No brackets are balanced. -/
theorem Balanced.nil : Balanced [] :=
  balanced_iff_depth.mpr rfl

/-- Balanced brackets behind balanced ones. -/
theorem Balanced.append {bs cs : List Bracket} (hb : Balanced bs) (hc : Balanced cs) :
    Balanced (bs ++ cs) := by
  rw [balanced_iff_depth, depth_append, hb.depth_eq]
  exact hc.depth_eq 0

/-- A loop around brackets that are balanced. -/
theorem Balanced.loop {bs : List Bracket} (h : Balanced bs) :
    Balanced (.opening :: (bs ++ [.closing])) := by
  rw [balanced_iff_depth]
  show depth 1 (bs ++ [.closing]) = some 0
  rw [depth_append, h.depth_eq]
  rfl

/-! ## §2. Brackets with their indices. -/

/-- The brackets without their indices. -/
abbrev signs (bs : List (Nat × Bracket)) : List Bracket :=
  bs.map Prod.snd

/-- The bracket at `i` closes a loop, and up to it more loops are closed than are opened. -/
def ClosesTooMuch (bs : List (Nat × Bracket)) (i : Nat) : Prop :=
  ∃ before after, bs = before ++ (i, .closing) :: after
    ∧ (signs (before ++ [(i, .closing)])).count .opening
        < (signs (before ++ [(i, .closing)])).count .closing

/-- The loop opened at `i` is closed: what stands between is balanced. -/
def IsClosed (bs : List (Nat × Bracket)) (i : Nat) : Prop :=
  ∃ before body j after, bs = before ++ (i, .opening) :: (body ++ (j, .closing) :: after)
    ∧ Balanced (signs body)

/-- The loop opened at `i` is never closed. -/
def StaysOpen (bs : List (Nat × Bracket)) (i : Nat) : Prop :=
  (i, .opening) ∈ bs ∧ ¬ IsClosed bs i

/-- Where fewer loops are open at the end, one is closed. -/
theorem exists_closing {d e : Nat} (less : e ≤ d) {bs : List (Nat × Bracket)}
    (h : depth (d + 1) (signs bs) = some e) :
    ∃ body j after, bs = body ++ (j, .closing) :: after ∧ Balanced (signs body)
      ∧ depth d (signs after) = some e := by
  match bs with
  | [] =>
    cases h
    omega
  | (j, .closing) :: after => exact ⟨[], j, after, rfl, .nil, h⟩
  | (k, .opening) :: rest =>
    -- The inner loop is closed first, and then the outer one behind it.
    have inner : depth (d + 1 + 1) (signs rest) = some e := h
    obtain ⟨body, j, after, split, balanced, behind⟩ := exists_closing (by omega) inner
    have shorter : after.length < rest.length := by
      rw [split, List.length_append, List.length_cons]
      omega
    obtain ⟨body', j', after', split', balanced', behind'⟩ := exists_closing less behind
    refine ⟨(k, .opening) :: (body ++ (j, .closing) :: body'), j', after', ?_, ?_, behind'⟩
    · rw [split, split']
      simp
    · have whole := balanced.loop.append balanced'
      simpa using whole
termination_by bs.length

section
variable {bs : List (Nat × Bracket)}

/-- In brackets that are balanced no loop stays open. -/
theorem Balanced.isClosed (h : Balanced (signs bs)) {i : Nat} (opens : (i, .opening) ∈ bs) :
    IsClosed bs i := by
  obtain ⟨before, rest, rfl⟩ := List.append_of_mem opens
  have whole := balanced_iff_depth.mp h
  rw [signs, List.map_append, depth_append] at whole
  obtain ⟨d, -, behind⟩ := Option.bind_eq_some_iff.mp whole
  obtain ⟨body, j, after, rfl, balanced, -⟩ := exists_closing (Nat.zero_le d) behind
  exact ⟨before, body, j, after, rfl, balanced⟩

/-- A bracket that is closed stays so. -/
theorem IsClosed.append_right {i : Nat} (h : IsClosed bs i) (more : List (Nat × Bracket)) :
    IsClosed (bs ++ more) i := by
  obtain ⟨before, body, j, after, rfl, balanced⟩ := h
  exact ⟨before, body, j, after ++ more, by simp, balanced⟩

/-- Where a depth can be told, no beginning closes too much. -/
theorem not_closesTooMuch {e i : Nat} (h : depth 0 (signs bs) = some e) :
    ¬ ClosesTooMuch bs i := by
  rintro ⟨before, after, rfl, excess⟩
  have begins : signs (before ++ [(i, .closing)]) <+: signs (before ++ (i, .closing) :: after) :=
    ⟨signs after, by simp⟩
  have le := (depth_eq_some.mp h).1 _ begins
  omega

variable (sorted : bs.Pairwise (·.1 < ·.1))
include sorted

/-- Behind what is balanced, a bracket that closes a loop is the first to close too much. -/
theorem isLeast_closesTooMuch {before after : List (Nat × Bracket)} {i : Nat}
    (split : bs = before ++ (i, .closing) :: after) (balanced : Balanced (signs before)) :
    IsLeast {k | ClosesTooMuch bs k} i := by
  constructor
  · refine ⟨before, after, split, ?_⟩
    have eq := balanced.count_eq
    simp only [signs, List.map_append, List.map_cons, List.map_nil, List.count_append] at eq ⊢
    rw [eq]
    simp
  · rintro k ⟨before', after', split', excess⟩
    rw [split', List.append_eq_append_iff] at split
    rcases split with ⟨between, rfl, eq⟩ | ⟨between, rfl, eq⟩
    · -- A bracket among those that are balanced closes nothing too much.
      cases between with
      | nil =>
        cases eq
        exact Nat.le_refl _
      | cons b between =>
        cases eq
        exact absurd ⟨before', between, rfl, excess⟩
          (not_closesTooMuch (balanced_iff_depth.mp balanced))
    · cases between with
      | nil =>
        cases eq
        exact Nat.le_refl _
      | cons b between =>
        cases eq
        rw [split', List.append_assoc] at sorted
        have later := (List.pairwise_append.mp sorted).2.1
        exact Nat.le_of_lt ((List.pairwise_cons.mp later).1 (k, .closing) (by simp))

end

/-! ## §3. Loops that are open. -/

/-- In what has been read the loops at these indices are open, the innermost first, and
between them it is balanced. -/
inductive Stacked : List Nat → List (Nat × Bracket) → Prop where
  | balanced {seen : List (Nat × Bracket)} (h : Balanced (signs seen)) : Stacked [] seen
  | opened {q : Nat} {pending : List Nat} {outer inner : List (Nat × Bracket)}
      (outside : Stacked pending outer) (inside : Balanced (signs inner)) :
      Stacked (q :: pending) (outer ++ (q, .opening) :: inner)

namespace Stacked

variable {pending : List Nat} {seen : List (Nat × Bracket)}

/-- What is balanced may follow. -/
theorem append (h : Stacked pending seen) {more : List (Nat × Bracket)}
    (balanced : Balanced (signs more)) : Stacked pending (seen ++ more) := by
  cases h with
  | balanced h =>
    refine .balanced ?_
    rw [signs, List.map_append]
    exact h.append balanced
  | @opened q pending outer inner outside inside =>
    rw [List.append_assoc, List.cons_append]
    refine .opened outside ?_
    rw [signs, List.map_append]
    exact inside.append balanced

/-- A bracket that opens is put on those that wait. -/
theorem push (h : Stacked pending seen) (q : Nat) :
    Stacked (q :: pending) (seen ++ [(q, .opening)]) :=
  .opened h .nil

/-- With the innermost loop closed, it is part of what is balanced. -/
theorem pop {q : Nat} (h : Stacked (q :: pending) seen) (i : Nat) :
    Stacked pending (seen ++ [(i, .closing)]) := by
  cases h with
  | @opened _ _ outer inner outside inside =>
    have loop : Balanced (signs ((q, .opening) :: (inner ++ [(i, .closing)]))) := by
      have around := inside.loop
      simpa using around
    rw [List.append_assoc]
    exact outside.append loop

/-- As many loops are open as are pending. -/
theorem depth_eq (h : Stacked pending seen) : depth 0 (signs seen) = some pending.length := by
  induction h with
  | balanced h => exact h.depth_eq 0
  | opened outside inside ih =>
    rw [signs, List.map_append, depth_append, ih]
    exact inside.depth_eq _

/-- The outermost loop stands behind brackets that are balanced, and behind it no loop is
closed but those that are opened there. -/
theorem exists_outermost {q : Nat} (h : Stacked pending seen) (last : pending.getLast? = some q) :
    ∃ before rest e, seen = before ++ (q, .opening) :: rest ∧ Balanced (signs before)
      ∧ depth 0 (signs rest) = some e := by
  induction h with
  | balanced h => cases last
  | @opened q' pending outer inner outside inside ih =>
    cases pending with
    | nil =>
      cases last
      cases outside with
      | balanced h => exact ⟨outer, inner, 0, rfl, h, inside.depth_eq 0⟩
    | cons q'' pending =>
      rw [List.getLast?_cons_cons] at last
      obtain ⟨before, rest, e, rfl, balanced, behind⟩ := ih last
      refine ⟨before, rest ++ (q', .opening) :: inner, e + 1, by simp, balanced, ?_⟩
      rw [signs, List.map_append, depth_append, behind]
      exact inside.depth_eq (e + 1)

/-- **The outermost loop that is pending is the first of those that stay open.** -/
theorem isLeast_staysOpen {q : Nat} (h : Stacked pending seen)
    (sorted : seen.Pairwise (·.1 < ·.1)) (last : pending.getLast? = some q) :
    IsLeast {k | StaysOpen seen k} q := by
  obtain ⟨before, rest, e, rfl, balanced, behind⟩ := h.exists_outermost last
  obtain ⟨-, later, apart⟩ := List.pairwise_append.mp sorted
  have after_q : ∀ b ∈ rest, q < b.1 := (List.pairwise_cons.mp later).1
  refine ⟨⟨by simp, ?_⟩, ?_⟩
  · -- A loop is known by its index, so a closing bracket would have to stand in the rest.
    rintro ⟨before', body, j, after, split, inside⟩
    have only : (q, Bracket.opening) ∉ before ∧ (q, Bracket.opening) ∉ rest :=
      ⟨fun mem => Nat.lt_irrefl q (apart _ mem _ List.mem_cons_self),
        fun mem => Nat.lt_irrefl q (after_q _ mem)⟩
    obtain ⟨-, -, rfl⟩ := (List.append_cons_inj_of_notMem only.1 only.2).mp split
    rw [signs, List.map_append, depth_append, inside.depth_eq] at behind
    cases behind
  · rintro k ⟨opens, open_still⟩
    rcases List.mem_append.mp opens with mem | mem
    · exact absurd ((balanced.isClosed mem).append_right _) open_still
    · rcases List.mem_cons.mp mem with eq | mem
      · cases eq
        exact Nat.le_refl q
      · exact Nat.le_of_lt (after_q _ mem)

end Stacked

/-! ## §4. How the pass ends. -/

/-- How the pass over some brackets ends, and what they are then. -/
inductive Decided (bs : List (Nat × Bracket)) : Except PairingFault Pairing → Prop where
  | paired {p : Pairing} (balanced : Balanced (signs bs)) : Decided bs (.ok p)
  | excess {i : Nat} {before after : List (Nat × Bracket)}
      (split : bs = before ++ (i, .closing) :: after) (balanced : Balanced (signs before)) :
      Decided bs (.error (.unmatchedClose i))
  | unclosed {q : Nat} {pending : List Nat} (stacked : Stacked pending bs)
      (last : pending.getLast? = some q) : Decided bs (.error (.unclosedOpen q))

/-- **The pass keeps the loops that are open on its stack**, and ends by what they are. -/
theorem decided_extend {rest : List (Nat × Bracket)} :
    ∀ {p : Pairing} {pending : List Nat} {seen : List (Nat × Bracket)}, Stacked pending seen →
      Decided (seen ++ rest) (p.extend pending rest) := by
  induction rest with
  | nil =>
    intro p pending seen stacked
    rw [List.append_nil]
    unfold Pairing.extend
    cases last : pending.getLast? with
    | some q => exact .unclosed stacked last
    | none =>
      rw [List.getLast?_eq_none_iff] at last
      subst last
      exact .paired (balanced_iff_depth.mpr stacked.depth_eq)
  | cons bracket rest ih =>
    intro p pending seen stacked
    obtain ⟨i, b⟩ := bracket
    cases b with
    | opening =>
      have later := ih (p := p) (stacked.push i)
      rwa [List.append_assoc] at later
    | closing =>
      cases pending with
      | nil => exact .excess rfl (balanced_iff_depth.mpr stacked.depth_eq)
      | cons first pending =>
        have later := ih (p := p.join first i) (stacked.pop i)
        rwa [List.append_assoc] at later

/-- Pairing the brackets decides about them: they are balanced, or one of them is to blame. -/
theorem decided_ofBrackets (bs : List (Nat × Bracket)) : Decided bs (Pairing.ofBrackets bs) := by
  have nothing_yet : Stacked [] [] := .balanced .nil
  exact decided_extend nothing_yet

/-- The bracket that is to blame: the first that closes too much, or if there is none the first
that stays open. -/
inductive Blamed (bs : List (Nat × Bracket)) : PairingFault → Prop where
  | excess {i : Nat} (first : IsLeast {k | ClosesTooMuch bs k} i) : Blamed bs (.unmatchedClose i)
  | unclosed {i : Nat} (noExcess : ¬ ∃ k, ClosesTooMuch bs k)
      (first : IsLeast {k | StaysOpen bs k} i) : Blamed bs (.unclosedOpen i)

/-- What is paired is balanced. -/
theorem balanced_of_ofBrackets {bs : List (Nat × Bracket)} {p : Pairing}
    (paired : Pairing.ofBrackets bs = .ok p) : Balanced (signs bs) := by
  have decided := decided_ofBrackets bs
  rw [paired] at decided
  cases decided with
  | paired balanced => exact balanced

/-- Where a bracket is to blame, brackets are not balanced. -/
theorem Blamed.unbalanced {bs : List (Nat × Bracket)} {fault : PairingFault}
    (h : Blamed bs fault) : ¬ Balanced (signs bs) := by
  intro balanced
  cases h with
  | excess first => exact not_closesTooMuch (balanced_iff_depth.mp balanced) first.1
  | unclosed noExcess first => exact first.1.2 (balanced.isClosed first.1.1)

/-- **What is refused is refused for the bracket to blame.** -/
theorem blamed_of_ofBrackets {bs : List (Nat × Bracket)} (sorted : bs.Pairwise (·.1 < ·.1))
    {fault : PairingFault} (refused : Pairing.ofBrackets bs = .error fault) : Blamed bs fault := by
  have decided := decided_ofBrackets bs
  rw [refused] at decided
  cases decided with
  | excess split balanced => exact .excess (isLeast_closesTooMuch sorted split balanced)
  | unclosed stacked last =>
    refine .unclosed ?_ (stacked.isLeast_staysOpen sorted last)
    rintro ⟨i, excess⟩
    exact absurd excess (not_closesTooMuch stacked.depth_eq)

/-! ## §5. How many pairs there are. -/

namespace Pairing

/-- Two indices that have no partner are two more that have one. -/
theorem size_join {p : Pairing} {first last : Nat} (ne : first ≠ last)
    (free : p.partner? first = none) (free' : p.partner? last = none) :
    (p.join first last).partners.size = p.partners.size + 2 := by
  have absent {i : Nat} (none_here : p.partners[i]? = none) : p.partners.contains i = false := by
    rw [← Std.TreeMap.isSome_getElem?_eq_contains, none_here]
    rfl
  have other : (p.partners.insert first last).contains last = false := by
    rw [Std.TreeMap.contains_insert, absent free', Bool.or_false, beq_eq_false_iff_ne]
    intro same
    exact ne (Nat.compare_eq_eq.mp same)
  show ((p.partners.insert first last).insert last first).size = _
  rw [Std.TreeMap.size_insert, other, Std.TreeMap.size_insert, absent free]
  rfl

/-- Every bracket that closes a loop makes one pair. -/
theorem size_extend {rest : List (Nat × Bracket)} :
    ∀ {p p' : Pairing} {pending : List Nat} {seen : List (Nat × Bracket)},
      Scanned p pending seen → (seen ++ rest).Pairwise (·.1 < ·.1) →
        p.extend pending rest = .ok p' →
          p'.partners.size = p.partners.size + 2 * (signs rest).count .closing := by
  induction rest with
  | nil =>
    intro p p' pending seen _ _ eq
    unfold extend at eq
    split at eq
    · cases eq
    · cases eq
      rfl
  | cons bracket rest ih =>
    intro p p' pending seen scanned sorted eq
    obtain ⟨n, b⟩ := bracket
    have below : ∀ b ∈ seen, b.1 < n := fun b hb =>
      (List.pairwise_append.mp sorted).2.2 b hb _ List.mem_cons_self
    rw [List.append_cons] at sorted
    cases b with
    | opening =>
      rw [ih (scanned.push below) sorted eq]
      simp
    | closing =>
      cases pending with
      | nil => cases eq
      | cons first pending =>
        have lt : first < n := below _ (scanned.opened first List.mem_cons_self)
        have new : p.partner? n = none := by
          refine Option.eq_none_iff_forall_ne_some.mpr fun j partner => ?_
          exact Nat.lt_irrefl n (scanned.lt_of_partner below partner)
        rw [ih (scanned.pop below) sorted eq,
          size_join (Nat.ne_of_lt lt) (scanned.free first List.mem_cons_self) new]
        simp only [signs, List.map_cons, List.count_cons_self]
        omega

/-- **There are as many pairs as loops are opened.** -/
theorem count_of_ofBrackets {bs : List (Nat × Bracket)} {p : Pairing}
    (sorted : bs.Pairwise (·.1 < ·.1)) (h : ofBrackets bs = .ok p)
    (balanced : Balanced (signs bs)) : p.count = (signs bs).count .opening := by
  have size := size_extend Scanned.empty sorted h
  have none_yet : empty.partners.size = 0 := rfl
  rw [none_yet] at size
  rw [count, balanced.count_eq]
  omega

end Pairing

/-! ## §6. The one way to nest loops. -/

/-- The brackets listed, and no others, are each other's partners under `f`, and of two
loops one lies inside the other or beside it. -/
structure Nests (bs : List (Nat × Bracket)) (f : Nat → Option Nat) : Prop where
  /-- A partner has exactly what is listed. -/
  isSome_iff : ∀ i, (f i).isSome ↔ ∃ b, (i, b) ∈ bs
  /-- Partners are each other's partners. -/
  symm : ∀ {i j}, f i = some j → f j = some i
  /-- No bracket is its own partner. -/
  irrefl : ∀ {i}, f i ≠ some i
  /-- What opens a loop has its partner later. -/
  later : ∀ {i}, (i, .opening) ∈ bs → ∃ j, f i = some j ∧ i < j
  /-- Of two partners the first opens a loop and the last closes it. -/
  ends : ∀ {i j}, f i = some j → i < j → (i, .opening) ∈ bs ∧ (j, .closing) ∈ bs
  /-- Two loops are the same, or one lies behind the other or inside it. -/
  apart : ∀ {i j k l}, f i = some j → i < j → f k = some l → k < l →
    (i = k ∧ j = l) ∨ j < k ∨ l < i ∨ (i < k ∧ l < j) ∨ (k < i ∧ j < l)

section
variable {bs : List (Nat × Bracket)}

/-- In a sorted list one place has one bracket. -/
theorem eq_of_mem_of_mem (sorted : bs.Pairwise (·.1 < ·.1)) {i : Nat} {b b' : Bracket}
    (h : (i, b) ∈ bs) (h' : (i, b') ∈ bs) : b = b' := by
  obtain ⟨before, after, rfl⟩ := List.append_of_mem h
  obtain ⟨-, later, apart⟩ := List.pairwise_append.mp sorted
  rcases List.mem_append.mp h' with mem | mem
  · exact absurd (apart _ mem _ List.mem_cons_self) (Nat.lt_irrefl i)
  · rcases List.mem_cons.mp mem with eq | mem
    · cases eq
      rfl
    · exact absurd ((List.pairwise_cons.mp later).1 _ mem) (Nat.lt_irrefl i)

/-- A pairing that matches sorted brackets nests them. -/
theorem Pairing.Matches.nests {p : Pairing} (h : p.Matches bs)
    (sorted : bs.Pairwise (·.1 < ·.1)) : Nests bs p.partner? where
  isSome_iff i := by
    constructor
    · intro some_here
      obtain ⟨j, partner⟩ := Option.isSome_iff_exists.mp some_here
      rcases Nat.lt_trichotomy i j with lt | rfl | gt
      · exact ⟨_, (h.ends partner lt).1⟩
      · exact absurd partner h.irrefl
      · exact ⟨_, (h.ends (h.symm partner) gt).2⟩
    · rintro ⟨b, mem⟩
      exact Option.isSome_iff_exists.mpr (h.covers mem)
  symm := h.symm
  irrefl := h.irrefl
  later {i} mem := by
    obtain ⟨j, partner⟩ := h.covers mem
    rcases Nat.lt_trichotomy i j with lt | rfl | gt
    · exact ⟨j, partner, lt⟩
    · exact absurd partner h.irrefl
    · cases eq_of_mem_of_mem sorted mem (h.ends (h.symm partner) gt).2
  ends := h.ends
  apart {i j k l} partner lt partner' lt' := by
    -- The end of one loop is not the beginning of another, for it has one partner.
    have ends {i j k l : Nat} (ij : p.partner? i = some j) (kl : p.partner? k = some l)
        (lt : i < j) (lt' : k < l) : j ≠ k := by
      rintro rfl
      rw [h.symm ij] at kl
      cases kl
      omega
    have ne := ends partner partner' lt lt'
    have ne' := ends partner' partner lt' lt
    rcases Nat.lt_trichotomy i k with before | rfl | behind
    · rcases Nat.lt_or_gt_of_ne ne with beside | inside
      · exact .inr (.inl beside)
      · exact .inr (.inr (.inr (.inl ⟨before, h.nested partner partner' before inside lt'⟩)))
    · rw [partner] at partner'
      cases partner'
      exact .inl ⟨rfl, rfl⟩
    · rcases Nat.lt_or_gt_of_ne ne' with beside | inside
      · exact .inr (.inr (.inl beside))
      · exact .inr (.inr (.inr (.inr ⟨behind, h.nested partner' partner behind inside lt⟩)))

namespace Nests

variable {f g : Nat → Option Nat}

/-- What closes a loop has its partner earlier. -/
theorem earlier (h : Nests bs f) (sorted : bs.Pairwise (·.1 < ·.1)) {j : Nat}
    (closes : (j, .closing) ∈ bs) : ∃ i, f j = some i ∧ i < j := by
  obtain ⟨i, partner⟩ := Option.isSome_iff_exists.mp ((h.isSome_iff j).mpr ⟨_, closes⟩)
  rcases Nat.lt_trichotomy i j with lt | rfl | gt
  · exact ⟨i, partner, lt⟩
  · exact absurd partner h.irrefl
  · cases eq_of_mem_of_mem sorted closes (h.ends partner gt).1

/-- In one way of nesting no loop is shorter than in another.  If one were, the loop that
ends in the other way where it ends would be shorter too, and would lie inside. -/
theorem not_shorter (hf : Nests bs f) (hg : Nests bs g) (sorted : bs.Pairwise (·.1 < ·.1))
    {i j l : Nat} (short : f i = some j) (long : g i = some l) (ij : i < j) : ¬ j < l := by
  intro jl
  obtain ⟨k, partner, kj⟩ := hg.earlier sorted (hf.ends short ij).2
  have ik : i < k := by
    rcases hg.apart long (Nat.lt_trans ij jl) (hg.symm partner) kj with h | h | h | h | h <;> omega
  obtain ⟨m, partner', km⟩ := hf.later (hg.ends (hg.symm partner) kj).1
  have mj : m < j := by
    rcases hf.apart short ij partner' km with h | h | h | h | h <;> omega
  exact not_shorter hf hg sorted partner' (hg.symm partner) km mj
termination_by l - i

/-- **There is one way to nest loops.** -/
theorem unique (hf : Nests bs f) (hg : Nests bs g) (sorted : bs.Pairwise (·.1 < ·.1)) :
    f = g := by
  have opening {i : Nat} (opens : (i, .opening) ∈ bs) : f i = g i := by
    obtain ⟨j, eq, ij⟩ := hf.later opens
    obtain ⟨l, eq', il⟩ := hg.later opens
    have le := hg.not_shorter hf sorted eq' eq il
    have ge := hf.not_shorter hg sorted eq eq' ij
    rw [eq, eq', show j = l by omega]
  funext i
  cases eq : f i with
  | none =>
    cases eq' : g i with
    | none => rfl
    | some l =>
      have listed := (hg.isSome_iff i).mp (Option.isSome_iff_exists.mpr ⟨l, eq'⟩)
      have partner := (hf.isSome_iff i).mpr listed
      rw [eq] at partner
      cases partner
  | some j =>
    obtain ⟨b, mem⟩ := (hf.isSome_iff i).mp (Option.isSome_iff_exists.mpr ⟨j, eq⟩)
    cases b with
    | opening => rw [← eq, opening mem]
    | closing =>
      -- Its partner opens the loop, and is nested in one way already.
      obtain ⟨k, partner, lt⟩ := hf.earlier sorted mem
      have back := hf.symm partner
      rw [opening (hf.ends back lt).1] at back
      rw [← eq, partner, hg.symm back]

end Nests

/-! ## §7. What becomes of brackets. -/

/-- **Every list of brackets is paired or refused, and rightly.** It is paired if it is
balanced, and then in the only way in which its loops are nested, with one pair for each
loop.  Otherwise the first bracket that closes too much is named, and if there is none,
the first loop that stays open. -/
theorem ofBrackets_matching (sorted : bs.Pairwise (·.1 < ·.1)) :
    ((∃ p, Pairing.ofBrackets bs = .ok p) ↔ Balanced (signs bs))
      ∧ (∀ p, Pairing.ofBrackets bs = .ok p →
          Nests bs p.partner?
            ∧ (∀ f, Nests bs f → f = p.partner?)
            ∧ p.count = (signs bs).count .opening)
      ∧ (¬ Balanced (signs bs) →
          ((∃ i, ClosesTooMuch bs i) →
            ∃ i, IsLeast {k | ClosesTooMuch bs k} i
              ∧ Pairing.ofBrackets bs = .error (.unmatchedClose i))
          ∧ ((¬ ∃ i, ClosesTooMuch bs i) →
            ∃ i, IsLeast {k | StaysOpen bs k} i
              ∧ Pairing.ofBrackets bs = .error (.unclosedOpen i))) := by
  have decided := decided_ofBrackets bs
  generalize result : Pairing.ofBrackets bs = r at decided ⊢
  cases decided with
  | @paired p balanced =>
    refine ⟨⟨fun _ => balanced, fun _ => ⟨p, rfl⟩⟩, ?_,
      fun unbalanced => absurd balanced unbalanced⟩
    rintro p' eq
    cases eq
    have nests := (Pairing.matches_of_ofBrackets sorted result).nests sorted
    exact ⟨nests, fun f hf => hf.unique nests sorted,
      Pairing.count_of_ofBrackets sorted result balanced⟩
  | @excess i before after split balanced =>
    have first := isLeast_closesTooMuch sorted split balanced
    have unbalanced : ¬ Balanced (signs bs) := fun h =>
      not_closesTooMuch (balanced_iff_depth.mp h) first.1
    refine ⟨⟨nofun, fun h => absurd h unbalanced⟩, nofun, fun _ => ⟨fun _ => ⟨i, first, rfl⟩, ?_⟩⟩
    exact fun none_excess => absurd ⟨i, first.1⟩ none_excess
  | @unclosed q pending stacked last =>
    have first := stacked.isLeast_staysOpen sorted last
    have unbalanced : ¬ Balanced (signs bs) := fun h => first.1.2 (h.isClosed first.1.1)
    refine ⟨⟨nofun, fun h => absurd h unbalanced⟩, nofun, fun _ => ⟨?_, fun _ => ⟨q, first, rfl⟩⟩⟩
    rintro ⟨i, excess⟩
    exact absurd excess (not_closesTooMuch stacked.depth_eq)

end

/-- Two loops, one inside the other, at indices with gaps. -/
theorem ofBrackets_matching_nested :
    let bs : List (Nat × Bracket) := [(1, .opening), (3, .opening), (5, .closing), (8, .closing)]
    bs.Pairwise (·.1 < ·.1) ∧ ∃ p, Pairing.ofBrackets bs = .ok p ∧ p.count = 2
      ∧ Nests bs p.partner? := by
  intro bs
  have sorted : bs.Pairwise (·.1 < ·.1) := by decide
  obtain ⟨paired, found, -⟩ := ofBrackets_matching sorted
  obtain ⟨p, eq⟩ := paired.mpr (by decide)
  obtain ⟨nests, -, count⟩ := found p eq
  exact ⟨sorted, p, eq, count, nests⟩

end Esolang.Loop
