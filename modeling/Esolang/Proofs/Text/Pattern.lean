/-
  Esolang.Proofs.Text.Pattern
  ───────────────────────────
  **PATTERNS AND WHAT THEIR GROUP CAPTURES.**

  A pattern can match in several ways, and their order decides which one counts:
  a greedy part tries the longest run first, a lazy part the shortest, an optional
  part is tried before it is left out, and earlier parts are tried before later
  ones are given up.  The first way from the leftmost place is the match.

  What follows a part decides which of its ways is taken, so the lemmas speak of a
  part together with what is tried behind it:
    • `capture_start` — a pattern for the start of a text is tried only there,
    • `Finds.many` — a greedy run is the longest one, if nothing behind it can
      begin inside the run,
    • `Finds.fewest` — a lazy group captures the shortest text behind which the
      rest matches.
-/

namespace Esolang.Text

/-! ## §1. Patterns. -/

/-- A place in a text while a pattern is matched: how many characters are behind it, the ones
ahead, and what the group has captured on the way. -/
structure Cursor where
  position : Nat
  ahead : List Char
  captured : Option (List Char)

/-- The place so many characters further on. -/
def Cursor.skip (c : Cursor) (count : Nat) : Cursor :=
  { c with position := c.position + count, ahead := c.ahead.drop count }

/-- Patterns with one group. -/
inductive Pattern where
  /-- The start of the text. -/
  | start
  /-- The end of the text. -/
  | finish
  /-- These characters. -/
  | literal (text : List Char)
  /-- A run of such characters, as long as possible. -/
  | many (accepts : Char → Bool)
  /-- A run of such characters, as short as possible. -/
  | fewest (accepts : Char → Bool)
  /-- The part, or nothing if it cannot be. -/
  | maybe (part : Pattern)
  /-- One part behind the other. -/
  | seq (before after : Pattern)
  /-- The part, which is captured. -/
  | group (part : Pattern)

namespace Pattern

/-- Where a run of such characters can end, nearest first. -/
def runs (accepts : Char → Bool) (captured : Option (List Char)) : Nat → List Char → List Cursor
  | position, [] => [⟨position, [], captured⟩]
  | position, a :: ahead =>
    ⟨position, a :: ahead, captured⟩
      :: if accepts a then runs accepts captured (position + 1) ahead else []

/-- Where a match that begins here can end, in the order in which the ways are tried. -/
def ways : Pattern → Cursor → List Cursor
  | .start, c => if c.position = 0 then [c] else []
  | .finish, c => if c.ahead = [] then [c] else []
  | .literal text, c => if text.isPrefixOf c.ahead then [c.skip text.length] else []
  | .many accepts, c => (runs accepts c.captured c.position c.ahead).reverse
  | .fewest accepts, c => runs accepts c.captured c.position c.ahead
  | .maybe part, c => part.ways c ++ [c]
  | .seq before after, c => (before.ways c).flatMap after.ways
  | .group part, c =>
    (part.ways c).map fun e =>
      { e with captured := some (c.ahead.take (c.ahead.length - e.ahead.length)) }

/-- The first way from the leftmost place from which there is one. -/
def search (pattern : Pattern) (text : List Char) : Option Cursor :=
  (List.range (text.length + 1)).findSome? fun position =>
    (pattern.ways ⟨position, text.drop position, none⟩).head?

/-- What the group captures in a text. -/
def capture (pattern : Pattern) (text : List Char) : Option (List Char) :=
  (pattern.search text).bind Cursor.captured

/-! ## §2. A part and what is tried behind it. -/

/-- The first way through a part behind which the rest can be matched. -/
def first (pattern : Pattern) (rest : Cursor → Option Cursor) (c : Cursor) : Option Cursor :=
  (pattern.ways c).findSome? rest

variable {rest : Cursor → Option Cursor} {accepts : Char → Bool}

theorem head?_ways (pattern : Pattern) (c : Cursor) :
    (pattern.ways c).head? = pattern.first some c := by
  unfold first
  cases pattern.ways c with
  | nil => rfl
  | cons way ways => rfl

theorem first_seq (before after : Pattern) (c : Cursor) :
    (seq before after).first rest c = before.first (after.first rest) c := by
  unfold first
  show ((before.ways c).flatMap after.ways).findSome? rest = _
  induction before.ways c with
  | nil => rfl
  | cons way ways ih =>
    rw [List.flatMap_cons, List.findSome?_append, ih, List.findSome?_cons]
    cases (after.ways way).findSome? rest with
    | none => rfl
    | some e => rfl

theorem first_maybe (part : Pattern) (c : Cursor) :
    (maybe part).first rest c = (part.first rest c).or (rest c) := by
  unfold first
  show (part.ways c ++ [c]).findSome? rest = _
  rw [List.findSome?_append, List.findSome?_singleton]

/-- A pattern for the start of a text is tried only there. -/
theorem search_start (pattern : Pattern) (text : List Char) :
    (seq start pattern).search text = pattern.first some ⟨0, text, none⟩ := by
  have ahead_of_start : ∀ position, position ∈ (List.range text.length).map Nat.succ →
      ((seq start pattern).ways ⟨position, text.drop position, none⟩).head? = none := by
    intro position later
    obtain ⟨before, -, rfl⟩ := List.mem_map.mp later
    rfl
  unfold search
  rw [List.range_succ_eq_map, ← List.singleton_append, List.findSome?_append,
    List.findSome?_eq_none_iff.mpr ahead_of_start, Option.or_none, List.findSome?_singleton,
    head?_ways, first_seq]
  show [(⟨0, text, none⟩ : Cursor)].findSome? (pattern.first some) = _
  rw [List.findSome?_singleton]

/-! ## §3. What is captured in the end. -/

/-- Matching from any place captures what `result` says, which looks at nothing but what has
been captured so far and the characters ahead. -/
def Finds (rest : Cursor → Option Cursor)
    (result : Option (List Char) → List Char → Option (Option (List Char))) : Prop :=
  ∀ c, (rest c).map Cursor.captured = result c.captured c.ahead

namespace Finds

variable {result : Option (List Char) → List Char → Option (Option (List Char))}

theorem congr {other : Option (List Char) → List Char → Option (Option (List Char))}
    (h : Finds rest result)
    (same : ∀ captured ahead, result captured ahead = other captured ahead) : Finds rest other :=
  fun c => (h c).trans (same c.captured c.ahead)

theorem literal (text : List Char) (h : Finds rest result) :
    Finds ((literal text).first rest) fun captured ahead =>
      if text.isPrefixOf ahead then result captured (ahead.drop text.length) else none := by
  intro c
  show (List.findSome? rest (if text.isPrefixOf c.ahead then [c.skip text.length] else [])).map
    Cursor.captured
      = if text.isPrefixOf c.ahead then result c.captured (c.ahead.drop text.length) else none
  by_cases begins : text.isPrefixOf c.ahead = true
  · rw [if_pos begins, if_pos begins, List.findSome?_singleton]
    exact h (c.skip text.length)
  · rw [if_neg begins, if_neg begins]
    rfl

theorem seq {before after : Pattern} (h : Finds (before.first (after.first rest)) result) :
    Finds ((seq before after).first rest) result := by
  intro c
  rw [first_seq]
  exact h c

theorem maybe {part : Pattern}
    {taken : Option (List Char) → List Char → Option (Option (List Char))}
    (ht : Finds (part.first rest) taken) (h : Finds rest result) :
    Finds ((maybe part).first rest) fun captured ahead =>
      (taken captured ahead).or (result captured ahead) := by
  intro c
  rw [first_maybe, Option.map_or, ht c, h c]

/-- A greedy run is as long as it can be, if what is behind it cannot begin inside the run. -/
theorem many (h : Finds rest result)
    (stuck : ∀ captured a ahead, accepts a = true → result captured (a :: ahead) = none) :
    Finds ((many accepts).first rest) fun captured ahead =>
      result captured (ahead.dropWhile accepts) := by
  rintro ⟨position, ahead, captured⟩
  show ((runs accepts captured position ahead).reverse.findSome? rest).map Cursor.captured
    = result captured (ahead.dropWhile accepts)
  induction ahead generalizing position with
  | nil =>
    rw [runs, List.reverse_singleton, List.findSome?_singleton]
    exact h ⟨position, [], captured⟩
  | cons a ahead ih =>
    have here := h ⟨position, a :: ahead, captured⟩
    rw [runs, List.reverse_cons, List.findSome?_append, List.findSome?_singleton,
      List.dropWhile_cons]
    by_cases accepted : accepts a = true
    · -- The run can go on, so nothing behind it matches here.
      have nothing : rest ⟨position, a :: ahead, captured⟩ = none :=
        Option.map_eq_none_iff.mp (here.trans (stuck captured a ahead accepted))
      rw [if_pos accepted, if_pos accepted, nothing, Option.or_none]
      exact ih (position + 1)
    · rw [if_neg accepted, if_neg accepted]
      exact here

end Finds

/-- A pattern for the start of a text captures what it finds there. -/
theorem capture_start {pattern : Pattern} {answer : List Char → Option (List Char)}
    (h : Finds (pattern.first some) fun _ ahead => (answer ahead).map some) (text : List Char) :
    (seq start pattern).capture text = answer text := by
  have here : (pattern.first some ⟨0, text, none⟩).map Cursor.captured = (answer text).map some :=
    h ⟨0, text, none⟩
  unfold capture
  rw [search_start]
  cases found : pattern.first some ⟨0, text, none⟩ with
  | none =>
    rw [found] at here
    exact (Option.map_eq_none_iff.mp here.symm).symm
  | some e =>
    rw [found] at here
    obtain ⟨body, answered, captures⟩ := Option.map_eq_some_iff.mp here.symm
    rw [answered]
    exact captures.symm

/-- Matching from any place captures nothing more, and succeeds if what is ahead suits. -/
def Passes (rest : Cursor → Option Cursor) (suits : List Char → Bool) : Prop :=
  Finds rest fun captured ahead => if suits ahead then some captured else none

variable {suits : List Char → Bool}

namespace Passes

theorem finish : Passes (finish.first some) List.isEmpty := by
  intro c
  show (List.findSome? some (if c.ahead = [] then [c] else [])).map Cursor.captured
    = if c.ahead.isEmpty then some c.captured else none
  by_cases done : c.ahead = []
  · rw [if_pos done, if_pos (List.isEmpty_iff.mpr done), List.findSome?_singleton]
    rfl
  · rw [if_neg done, if_neg (mt List.isEmpty_iff.mp done)]
    rfl

theorem literal (text : List Char) (h : Passes rest suits) :
    Passes ((literal text).first rest) fun ahead =>
      text.isPrefixOf ahead && suits (ahead.drop text.length) := by
  intro c
  refine (Finds.literal text h c).trans ?_
  by_cases begins : text.isPrefixOf c.ahead = true
  · simp only [begins, if_true, Bool.true_and]
  · simp only [begins, Bool.false_and, Bool.false_eq_true, if_false]

theorem maybe {part : Pattern} {taken : List Char → Bool} (ht : Passes (part.first rest) taken)
    (h : Passes rest suits) :
    Passes ((maybe part).first rest) fun ahead => taken ahead || suits ahead := by
  intro c
  refine (Finds.maybe ht h c).trans ?_
  by_cases passes : taken c.ahead = true
  · simp only [passes, if_true, Bool.true_or, Option.some_or]
  · simp only [passes, Bool.false_or, Bool.false_eq_true, if_false, Option.none_or]

theorem many (h : Passes rest suits)
    (stuck : ∀ a ahead, accepts a = true → suits (a :: ahead) = false) :
    Passes ((many accepts).first rest) fun ahead => suits (ahead.dropWhile accepts) := by
  refine Finds.many h fun captured a ahead accepted => ?_
  rw [stuck a ahead accepted]
  rfl

end Passes

/-! ## §4. The shortest text. -/

/-- The shortest run of such characters behind which the text suits. -/
def shortest (accepts : Char → Bool) (suits : List Char → Bool) : List Char → Option (List Char)
  | [] => if suits [] then some [] else none
  | a :: ahead =>
    if suits (a :: ahead) then some []
    else if accepts a then (shortest accepts suits ahead).map (a :: ·) else none

theorem exists_of_shortest {ahead body : List Char}
    (found : shortest accepts suits ahead = some body) :
    ∃ after, ahead = body ++ after ∧ suits after = true := by
  induction ahead generalizing body with
  | nil =>
    rw [shortest] at found
    split at found
    · next suit =>
      cases found
      exact ⟨[], rfl, suit⟩
    · cases found
  | cons a ahead ih =>
    rw [shortest] at found
    split at found
    · next suit =>
      cases found
      exact ⟨a :: ahead, rfl, suit⟩
    · split at found
      · obtain ⟨further, found_there, rfl⟩ := Option.map_eq_some_iff.mp found
        obtain ⟨after, rfl, suit⟩ := ih found_there
        exact ⟨after, rfl, suit⟩
      · cases found

/-- The text is found that no other is shorter than, if it can be gone through. -/
theorem shortest_eq_some {body after : List Char} (through : ∀ a ∈ body, accepts a = true)
    (suit : suits after = true)
    (least : ∀ shorter further, body ++ after = shorter ++ further → suits further = true →
      body.length ≤ shorter.length) :
    shortest accepts suits (body ++ after) = some body := by
  induction body with
  | nil =>
    cases after with
    | nil => exact if_pos suit
    | cons a after => exact if_pos suit
  | cons a body ih =>
    have too_short : suits (a :: (body ++ after)) ≠ true := by
      intro suit
      have := least [] (a :: (body ++ after)) rfl suit
      simp at this
    have found : shortest accepts suits (body ++ after) = some body := by
      refine ih (fun c mem => through c (List.mem_cons_of_mem a mem)) ?_
      intro shorter further split suit
      have := least (a :: shorter) further (congrArg (a :: ·) split) suit
      simpa using this
    show shortest accepts suits (a :: (body ++ after)) = _
    rw [shortest, if_neg too_short, if_pos (through a List.mem_cons_self), found]
    rfl

/-- What a lazy group captures at a place on its way is all that it has gone through. -/
theorem findSome?_runs
    (h : Passes rest suits) (captured : Option (List Char)) (text ahead : List Char) :
    ∀ passed position, text = passed ++ ahead →
      ((runs accepts captured position ahead).findSome? fun e =>
          rest { e with captured := some (text.take (text.length - e.ahead.length)) }).map
        Cursor.captured
      = (shortest accepts suits ahead).map fun body => some (passed ++ body) := by
  induction ahead with
  | nil =>
    rintro passed position rfl
    rw [runs, List.findSome?_singleton, h]
    show (if suits [] then some (some ((passed ++ []).take ((passed ++ []).length - 0))) else none)
      = _
    rw [shortest, Nat.sub_zero, List.take_length]
    by_cases suit : suits [] = true
    · rw [if_pos suit, if_pos suit]
      rfl
    · rw [if_neg suit, if_neg suit]
      rfl
  | cons a ahead ih =>
    intro passed position split
    have gone : text.take (text.length - (a :: ahead).length) = passed := by
      rw [split, List.length_append, Nat.add_sub_cancel, List.take_left]
    have here : (rest ⟨position, a :: ahead, some passed⟩).map Cursor.captured
        = if suits (a :: ahead) then some (some passed) else none :=
      h ⟨position, a :: ahead, some passed⟩
    rw [runs, shortest, List.findSome?_cons]
    dsimp only
    rw [gone]
    by_cases suit : suits (a :: ahead) = true
    · rw [if_pos suit] at here
      obtain ⟨e, found, captures⟩ := Option.map_eq_some_iff.mp here
      rw [if_pos suit, found]
      show some e.captured = some (some (passed ++ []))
      rw [captures, List.append_nil]
    · rw [if_neg suit, Option.map_eq_none_iff] at here
      rw [if_neg suit, here]
      by_cases accepted : accepts a = true
      · rw [if_pos accepted, if_pos accepted, Option.map_map]
        refine (ih (passed ++ [a]) (position + 1) (by simpa using split)).trans ?_
        congr 1
        funext body
        show some (passed ++ [a] ++ body) = some (passed ++ (a :: body))
        rw [List.append_assoc, List.singleton_append]
      · rw [if_neg accepted, if_neg accepted]
        rfl

/-- A lazy group captures the shortest text behind which the rest matches. -/
theorem Finds.fewest (h : Passes rest suits) :
    Finds ((group (fewest accepts)).first rest) fun _ ahead =>
      (shortest accepts suits ahead).map some := by
  rintro ⟨position, text, captured⟩
  show (((runs accepts captured position text).map fun e =>
    { e with captured := some (text.take (text.length - e.ahead.length)) }).findSome? rest).map
      Cursor.captured = _
  rw [List.findSome?_map]
  exact findSome?_runs h captured text text [] position rfl

end Pattern

end Esolang.Text
