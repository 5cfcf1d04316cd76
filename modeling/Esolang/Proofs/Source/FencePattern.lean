/-
  Esolang.Proofs.Source.FencePattern
  ──────────────────────────────────
  **THE PATTERN OF A FENCED TEXT.**

  A fence is recognised by a pattern with a lazy group between two optional parts,
  and it is the order in which the pattern is tried that decides which line break
  and which backticks belong to the program.  The pattern captures what is left of
  a fenced text when its fences, its tag line and its last line break are taken
  away:
    • the tag line is taken whenever there is one, since the closing fence can
      still be found behind it,
    • the group stops where the longest line break before the closing fence
      begins, since that makes it shortest.

  Main result: `unfence_exact`.
-/
import Esolang.Proofs.Source.Fence
import Esolang.Proofs.Text.Pattern

namespace Esolang.Source.CodeFence

open Esolang.Text (isBlank trim Cursor Pattern)
open Esolang.Text.Pattern (Finds Passes shortest)

/-! ## §1. The pattern. -/

/-- The character is one of those from `low` to `high`. -/
def inRange (low high c : Char) : Bool :=
  low ≤ c && c ≤ high

/-- The class `[A-Za-z0-9_+\-]`. -/
def tagClass (c : Char) : Bool :=
  inRange 'A' 'Z' c || inRange 'a' 'z' c || inRange '0' '9' c || c == '_' || c == '+' || c == '-'

/-- A tag line, `[A-Za-z0-9_+\-]*[ \t]*\r?\n`. -/
def tagLine : Pattern :=
  .seq (.many tagClass) <| .seq (.many isGap) <| .seq (.maybe (.literal ['\r'])) <|
    .literal ['\n']

/-- The end of a fenced text, `\r?\n?` with a fence and blanks up to the end behind it. -/
def closing : Pattern :=
  .seq (.maybe (.literal ['\r'])) <| .seq (.maybe (.literal ['\n'])) <| .seq (.literal fence) <|
    .seq (.many isBlank) .finish

/-- What a fence opens: perhaps a tag line, and the program up to the end of the fenced text. -/
def opened : Pattern :=
  .seq (.maybe tagLine) <| .seq (.group (.fewest fun _ => true)) closing

/-- A fenced text: blanks, a fence and what it opens. -/
def fencedText : Pattern :=
  .seq .start <| .seq (.many isBlank) <| .seq (.literal fence) opened

/-- The class of the pattern is the class of the fence. -/
theorem tagClass_eq (c : Char) : tagClass c = isTagChar c := by
  have upper : inRange 'A' 'Z' c = c.isUpper :=
    (Bool.decide_and ('A'.val ≤ c.val) (c.val ≤ 'Z'.val)).symm
  have lower : inRange 'a' 'z' c = c.isLower := rfl
  have digit : inRange '0' '9' c = c.isDigit := rfl
  unfold tagClass
  rw [upper, lower, digit]
  rfl

/-! ## §2. The end of a fenced text. -/

/-- The text ends in blanks alone. -/
def endsBlank (ahead : List Char) : Bool :=
  (ahead.dropWhile isBlank).isEmpty

/-- A fence ends the text. -/
def endsFence (ahead : List Char) : Bool :=
  fence.isPrefixOf ahead && endsBlank (ahead.drop fence.length)

/-- A fence, with or without a line feed before it, ends the text. -/
def endsFeed (ahead : List Char) : Bool :=
  (['\n'].isPrefixOf ahead && endsFence (ahead.drop 1)) || endsFence ahead

/-- A fence with any line break before it ends the text. -/
def closes (ahead : List Char) : Bool :=
  (['\r'].isPrefixOf ahead && endsFeed (ahead.drop 1)) || endsFeed ahead

theorem passes_closing : Passes (closing.first some) closes := by
  have blank : Passes ((Pattern.many isBlank).first (Pattern.finish.first some)) endsBlank :=
    Passes.many Passes.finish fun _ _ _ => rfl
  have fences : Passes ((Pattern.literal fence).first
      ((Pattern.seq (.many isBlank) .finish).first some)) endsFence :=
    Passes.literal fence (Finds.seq blank)
  have feed := Passes.maybe (Passes.literal ['\n'] (Finds.seq fences)) (Finds.seq fences)
  exact Finds.seq (Passes.maybe (Passes.literal ['\r'] (Finds.seq feed)) (Finds.seq feed))

/-- A text ahead that suits behind it: the test and what it means. -/
theorem isPrefixOf_and_iff {text : List Char} {suits : List Char → Bool} {ahead : List Char} :
    (text.isPrefixOf ahead && suits (ahead.drop text.length)) = true
      ↔ ∃ rest, ahead = text ++ rest ∧ suits rest = true := by
  rw [Bool.and_eq_true, List.isPrefixOf_iff_prefix]
  constructor
  · rintro ⟨⟨rest, rfl⟩, suit⟩
    rw [List.drop_left] at suit
    exact ⟨rest, rfl, suit⟩
  · rintro ⟨rest, rfl, suit⟩
    rw [List.drop_left]
    exact ⟨⟨rest, rfl⟩, suit⟩

/-- Only blanks are ahead: the test and what it means. -/
theorem endsBlank_iff {ahead : List Char} : endsBlank ahead = true ↔ AllBlank ahead := by
  unfold endsBlank
  rw [List.isEmpty_iff]
  constructor
  · intro nothing c mem
    rw [← List.takeWhile_append_dropWhile (p := isBlank) (l := ahead), nothing,
      List.append_nil] at mem
    exact List.all_eq_true.mp List.all_takeWhile c mem
  · intro blank
    have passed : (ahead ++ []).dropWhile isBlank = [] := List.dropWhile_append_of_pos blank
    rwa [List.append_nil] at passed

/-- A fence and only blanks are ahead: the test and what it means. -/
theorem endsFence_iff {ahead : List Char} :
    endsFence ahead = true ↔ ∃ after, ahead = fence ++ after ∧ AllBlank after := by
  refine isPrefixOf_and_iff.trans ?_
  simp only [endsBlank_iff]

/-- The end of a fenced text is a fence with a line break before it. -/
theorem closes_iff {ahead : List Char} :
    closes ahead = true
      ↔ ∃ ending ∈ breaks, ∃ after, ahead = ending ++ (fence ++ after) ∧ AllBlank after := by
  have feed_iff : ∀ ahead, endsFeed ahead = true
      ↔ (∃ rest, ahead = ['\n'] ++ rest ∧ endsFence rest = true) ∨ endsFence ahead = true := by
    intro ahead
    unfold endsFeed
    rw [Bool.or_eq_true]
    exact or_congr_left isPrefixOf_and_iff
  have return_iff : closes ahead = true
      ↔ (∃ rest, ahead = ['\r'] ++ rest ∧ endsFeed rest = true) ∨ endsFeed ahead = true := by
    unfold closes
    rw [Bool.or_eq_true]
    exact or_congr_left isPrefixOf_and_iff
  rw [return_iff]
  simp only [feed_iff, endsFence_iff, breaks]
  constructor
  · rintro (⟨_, rfl, ⟨_, rfl, after, rfl, blank⟩ | ⟨after, rfl, blank⟩⟩
      | ⟨_, rfl, after, rfl, blank⟩ | ⟨after, rfl, blank⟩)
    · exact ⟨['\r', '\n'], by simp, after, rfl, blank⟩
    · exact ⟨['\r'], by simp, after, rfl, blank⟩
    · exact ⟨['\n'], by simp, after, rfl, blank⟩
    · exact ⟨[], by simp, after, rfl, blank⟩
  · rintro ⟨ending, mem, after, rfl, blank⟩
    simp only [List.mem_cons, List.not_mem_nil, or_false] at mem
    rcases mem with rfl | rfl | rfl | rfl
    · exact .inl ⟨_, rfl, .inl ⟨_, rfl, after, rfl, blank⟩⟩
    · exact .inr (.inl ⟨_, rfl, after, rfl, blank⟩)
    · exact .inl ⟨_, rfl, .inr ⟨after, rfl, blank⟩⟩
    · exact .inr (.inr ⟨after, rfl, blank⟩)

/-! ## §3. The program. -/

/-- The shortest text behind which a fenced text can end. -/
def program? (ahead : List Char) : Option (List Char) :=
  shortest (fun _ => true) closes ahead

/-- A text ends in one fence at most that has only blanks behind it. -/
theorem fence_unique {inner other after behind : List Char} (blankAfter : AllBlank after)
    (blankBehind : AllBlank behind)
    (same : inner ++ (fence ++ after) = other ++ (fence ++ behind)) : inner = other := by
  have first : Fenced (fence ++ (inner ++ (fence ++ after))) inner :=
    ⟨[], after, by simp [AllBlank], blankAfter, by simp⟩
  have second : Fenced (fence ++ (inner ++ (fence ++ after))) other :=
    ⟨[], behind, by simp [AllBlank], blankBehind, by rw [same]; simp⟩
  exact first.unique second

/-- **The lazy group stops at the longest line break** before the closing fence. -/
theorem program?_eq_some {inner after : List Char} (blank : AllBlank after) :
    program? (inner ++ (fence ++ after)) = some (dropLastBreak inner) := by
  obtain ⟨ending, mem, split, longest⟩ := beforeBreak_dropLastBreak inner
  have whole : inner ++ (fence ++ after) = dropLastBreak inner ++ (ending ++ (fence ++ after)) :=
    (congrArg (· ++ (fence ++ after)) split).trans (List.append_assoc ..)
  rw [whole]
  refine Text.Pattern.shortest_eq_some (fun _ _ => rfl)
    (closes_iff.mpr ⟨ending, mem, after, rfl, blank⟩) ?_
  intro shorter further same suit
  obtain ⟨other, memOther, behind, rfl, blankBehind⟩ := closes_iff.mp suit
  -- Where the rest could match too, the text before the fence ends in another line break.
  have inner_eq : inner = shorter ++ other := by
    refine fence_unique blank blankBehind ?_
    rw [whole, same, List.append_assoc]
  have le := longest other memOther ⟨shorter, inner_eq.symm⟩
  have lengths := congrArg List.length (split.symm.trans inner_eq)
  rw [List.length_append, List.length_append] at lengths
  omega

/-- Where the program finds a body, a fence closes it. -/
theorem fence_of_program? {ahead body : List Char} (found : program? ahead = some body) :
    ∃ inner after, ahead = inner ++ (fence ++ after) ∧ AllBlank after := by
  obtain ⟨further, rfl, suit⟩ := Text.Pattern.exists_of_shortest found
  obtain ⟨ending, -, after, rfl, blank⟩ := closes_iff.mp suit
  exact ⟨body ++ ending, after, (List.append_assoc ..).symm, blank⟩

/-! ## §4. The tag line. -/

/-- The line of a tag has no tick. -/
theorem TagLine.tick_not_mem {line : List Char} (h : TagLine line) : tick ∉ line := by
  cases h with
  | line isTag isGap ends =>
    intro mem
    rw [List.mem_append, List.mem_append] at mem
    rcases mem with inTag | inGap | inEnding
    · exact absurd (isTag tick inTag) (by decide)
    · exact absurd (isGap tick inGap) (by decide)
    · rcases ends with rfl | rfl
      · exact absurd inEnding (by decide)
      · exact absurd inEnding (by decide)

/-- A tag line ends before the closing fence. -/
theorem tagLine?_fence (inner after : List Char) :
    tagLine? (inner ++ (fence ++ after))
      = (tagLine? inner).map fun rest => rest ++ (fence ++ after) := by
  cases found : tagLine? inner with
  | some rest =>
    obtain ⟨line, isLine, rfl⟩ := tagLine?_eq_some.mp found
    exact tagLine?_eq_some.mpr ⟨line, isLine, List.append_assoc ..⟩
  | none =>
    cases found' : tagLine? (inner ++ (fence ++ after)) with
    | none => rfl
    | some rest =>
      obtain ⟨line, isLine, split⟩ := tagLine?_eq_some.mp found'
      have not_here : ∀ more, inner ≠ line ++ more := by
        intro more begins
        rw [tagLine?_eq_some.mpr ⟨line, isLine, begins⟩] at found
        cases found
      rcases List.append_eq_append_iff.mp split with ⟨more, beyond, behind⟩ | ⟨more, within, -⟩
      · -- The line would reach beyond the text, and so into the fence.
        cases more with
        | nil => exact absurd (by simpa using beyond.symm) (not_here [])
        | cons c more =>
          have isTick : tick = c := (List.cons.inj behind).1
          refine absurd ?_ isLine.tick_not_mem
          rw [beyond, isTick]
          exact List.mem_append_right inner List.mem_cons_self
      · exact absurd within (not_here more)

/-- What is captured behind an opening fence. -/
def opened? (ahead : List Char) : Option (List Char) :=
  ((tagLine? ahead).bind program?).or (program? ahead)

/-- Behind an opening fence the body is what stands between the fences, without the line of the
tag and its last break. -/
theorem opened?_eq_some {inner after : List Char} (blank : AllBlank after) :
    opened? (inner ++ (fence ++ after)) = some (dropLastBreak (dropTagLine inner)) := by
  unfold opened?
  rw [tagLine?_fence, dropTagLine_eq, program?_eq_some blank]
  cases tagLine? inner with
  | none => rfl
  | some rest =>
    show (program? (rest ++ (fence ++ after))).or _ = _
    rw [program?_eq_some blank]
    rfl

/-- Where a body is found behind an opening fence, a fence closes it. -/
theorem fence_of_opened? {ahead body : List Char} (found : opened? ahead = some body) :
    ∃ inner after, ahead = inner ++ (fence ++ after) ∧ AllBlank after := by
  rcases Option.or_eq_some_iff.mp found with behind | ⟨-, here⟩
  · obtain ⟨rest, isLine, found_there⟩ := Option.bind_eq_some_iff.mp behind
    obtain ⟨line, -, rfl⟩ := tagLine?_eq_some.mp isLine
    obtain ⟨inner, after, rfl, blank⟩ := fence_of_program? found_there
    exact ⟨line ++ inner, after, (List.append_assoc ..).symm, blank⟩
  · exact fence_of_program? here

/-! ## §5. The whole pattern. -/

/-- What is neither a line feed nor a return begins no break. -/
theorem behindBreak?_eq_none {a : Char} {ahead : List Char} (not_feed : a ≠ '\n')
    (not_return : a ≠ '\r') : behindBreak? (a :: ahead) = none := by
  unfold behindBreak?
  split
  · next feed => exact absurd (List.cons.inj feed).1 not_feed
  · next both => exact absurd (List.cons.inj both).1 not_return
  · rfl

section TagLine

variable {rest : Cursor → Option Cursor} {answer : List Char → Option (List Char)}

/-- An optional return with a line feed behind it is a line break. -/
theorem finds_break (h : Finds rest fun _ ahead => (answer ahead).map some) :
    Finds ((Pattern.seq (.maybe (.literal ['\r'])) (.literal ['\n'])).first rest)
      fun _ ahead => ((behindBreak? ahead).bind answer).map some := by
  have feed := Finds.literal ['\n'] h
  refine (Finds.seq (Finds.maybe (Finds.literal ['\r'] feed) feed)).congr ?_
  intro _ ahead
  by_cases feeds : ∃ rest, ahead = '\n' :: rest
  · obtain ⟨rest, rfl⟩ := feeds
    rfl
  by_cases returns : ∃ rest, ahead = '\r' :: '\n' :: rest
  · obtain ⟨rest, rfl⟩ := returns
    exact Option.or_none
  have nothing : behindBreak? ahead = none := by
    unfold behindBreak?
    split
    · next rest => exact absurd ⟨rest, rfl⟩ feeds
    · next rest => exact absurd ⟨rest, rfl⟩ returns
    · rfl
  have no_feed : ¬ ['\n'].isPrefixOf ahead = true := by
    rw [List.isPrefixOf_iff_prefix]
    rintro ⟨rest, rfl⟩
    exact feeds ⟨rest, rfl⟩
  have no_feed_behind : ['\r'].isPrefixOf ahead = true →
      ¬ ['\n'].isPrefixOf (ahead.drop 1) = true := by
    rw [List.isPrefixOf_iff_prefix, List.isPrefixOf_iff_prefix]
    rintro ⟨behind, rfl⟩ ⟨rest, eq⟩
    exact returns ⟨rest, congrArg ('\r' :: ·) eq.symm⟩
  rw [nothing, if_neg no_feed, Option.or_none]
  by_cases begins : ['\r'].isPrefixOf ahead = true
  · rw [if_pos begins]
    exact if_neg (no_feed_behind begins)
  · exact if_neg begins

/-- **The pattern of a tag line** goes through the tag line that there is. -/
theorem finds_tagLine (h : Finds rest fun _ ahead => (answer ahead).map some) :
    Finds (tagLine.first rest) fun _ ahead => ((tagLine? ahead).bind answer).map some := by
  -- A line break cannot begin with a character of the runs before it.
  have not_in_gap : ∀ a ahead, isGap a = true →
      ((behindBreak? (a :: ahead)).bind answer).map some = none := by
    intro a ahead gap
    simp only [isGap, Bool.or_eq_true, beq_iff_eq] at gap
    rcases gap with rfl | rfl
    · rfl
    · rfl
  have not_in_tag : ∀ a ahead, tagClass a = true →
      ((behindBreak? ((a :: ahead).dropWhile isGap)).bind answer).map some = none := by
    intro a ahead tag
    rw [tagClass_eq] at tag
    have not_gap : isGap a = false := by
      cases gap : isGap a with
      | false => rfl
      | true =>
        rw [isTagChar_of_isGap gap] at tag
        cases tag
    have not_feed : a ≠ '\n' := by
      rintro rfl
      exact absurd tag (by decide)
    have not_return : a ≠ '\r' := by
      rintro rfl
      exact absurd tag (by decide)
    rw [dropWhile_of_head not_gap, behindBreak?_eq_none not_feed not_return]
    rfl
  have gap := Finds.seq (Finds.many (finds_break h) fun _ => not_in_gap)
  have tags := Finds.seq (Finds.many gap fun _ => not_in_tag)
  refine tags.congr fun _ ahead => ?_
  rw [show tagClass = isTagChar from funext tagClass_eq]
  rfl

end TagLine

/-- Behind its opening fence the pattern finds what the program does. -/
theorem finds_opened : Finds (opened.first some) fun _ ahead => (opened? ahead).map some := by
  have program : Finds ((Pattern.seq (.group (.fewest fun _ => true)) closing).first some)
      fun _ ahead => (program? ahead).map some := Finds.seq (Finds.fewest passes_closing)
  refine (Finds.seq (Finds.maybe (finds_tagLine program) program)).congr fun _ ahead => ?_
  rw [← Option.map_or]
  rfl

/-- What is captured in a text: its first blanks are gone through, and a fence. -/
def fenced? (text : List Char) : Option (List Char) :=
  if fence.isPrefixOf (text.dropWhile isBlank)
  then opened? ((text.dropWhile isBlank).drop fence.length)
  else none

/-- The capture of the pattern is the body that the program finds. -/
theorem capture_eq (text : List Char) : fencedText.capture text = fenced? text := by
  have not_in_blanks : ∀ a ahead, isBlank a = true →
      (if fence.isPrefixOf (a :: ahead) then (opened? ((a :: ahead).drop fence.length)).map some
        else none) = none := by
    intro a ahead blank
    refine if_neg ?_
    rw [List.isPrefixOf_iff_prefix]
    rintro ⟨rest, eq⟩
    rw [← (List.cons.inj eq).1] at blank
    exact absurd (isBlank_tick.symm.trans blank) (by decide)
  have found := Finds.seq (Finds.many (Finds.seq (Finds.literal fence finds_opened))
    fun _ => not_in_blanks)
  refine Text.Pattern.capture_start (found.congr fun _ ahead => ?_) text
  unfold fenced?
  by_cases begins : fence.isPrefixOf (ahead.dropWhile isBlank) = true
  · rw [if_pos begins, if_pos begins]
  · rw [if_neg begins, if_neg begins]
    rfl

/-- Of a fenced text the pattern captures the body. -/
theorem capture_of_fenced {text inner : List Char} (h : Fenced text inner) :
    fencedText.capture text = some (dropLastBreak (dropTagLine inner)) := by
  obtain ⟨before, after, blankBefore, blankAfter, rfl⟩ := h
  have front : (before ++ (fence ++ inner ++ fence) ++ after).dropWhile isBlank
      = fence ++ (inner ++ (fence ++ after)) := by
    have front := dropWhile_fence blankBefore (inner ++ (fence ++ after))
    simpa only [List.append_assoc] using front
  rw [capture_eq, fenced?, front, if_pos (List.isPrefixOf_iff_prefix.mpr ⟨_, rfl⟩), List.drop_left]
  exact opened?_eq_some blankAfter

/-- Of any other text it captures nothing. -/
theorem capture_of_bare {text : List Char} (h : ∀ inner, ¬ Fenced text inner) :
    fencedText.capture text = none := by
  rw [capture_eq, fenced?]
  by_cases begins : fence.isPrefixOf (text.dropWhile isBlank) = true
  · rw [if_pos begins]
    obtain ⟨rest, opens⟩ := List.isPrefixOf_iff_prefix.mp begins
    rw [← opens, List.drop_left]
    cases found : opened? rest with
    | none => rfl
    | some body =>
      obtain ⟨inner, after, rfl, blank⟩ := fence_of_opened? found
      have isFenced : Fenced text inner := by
        refine ⟨text.takeWhile isBlank, after, allBlank_takeWhile text, blank, ?_⟩
        have whole := List.takeWhile_append_dropWhile (p := isBlank) (l := text)
        rw [← opens] at whole
        simpa only [List.append_assoc] using whole.symm
      exact absurd isFenced (h inner)
  · exact if_neg begins

/-! ## §6. Taking the program out. -/

/-- **Taking the program out of its fence is exact.**  The program is what the group of the
pattern captures, or the text if the pattern does not match; it is what is left of the text
between two fences without a tag line in front and without the longest line break at the end, or
the text if it is not fenced, and there is one such program only; and a body between fences, with
any tag behind the first one and any blanks around them, comes back as it is unless it ends in a
carriage return. -/
theorem unfence_exact (text : String) :
    (unfence text).toList = (fencedText.capture text.toList).getD text.toList
    ∧ (∀ body, Unfenced text.toList body ↔ (unfence text).toList = body)
    ∧ ∀ before tag body after, AllBlank before → AllBlank after →
        (∀ c ∈ tag, isTagChar c = true) → body.getLast? ≠ some '\r' →
        text.toList = before ++ (fence ++ (tag ++ ['\n'] ++ body ++ ['\n']) ++ fence) ++ after →
        unfence text = String.ofList body := by
  refine ⟨?captured, fun body => unfenced_iff, ?block⟩
  case captured =>
    by_cases fenced : ∃ inner, Fenced text.toList inner
    · obtain ⟨inner, isFenced⟩ := fenced
      rw [unfence_of_fenced isFenced, capture_of_fenced isFenced]
      rfl
    · have isBare := not_exists.mp fenced
      rw [unfence_of_bare isBare, capture_of_bare isBare]
      rfl
  case block =>
    intro before tag body after blankBefore blankAfter isTag noReturn split
    rw [← String.ofList_toList (s := text), split]
    exact unfence_block blankBefore blankAfter isTag noReturn

/-- A body that is itself a fenced text with a tag line, and ends in backticks, comes back. -/
theorem unfence_exact_nested :
    unfence "\n ```c++\n```bf\n+\n``` ``\n```\t" = "```bf\n+\n``` ``" :=
  (unfence_exact "\n ```c++\n```bf\n+\n``` ``\n```\t").2.2 "\n ".toList "c++".toList
    "```bf\n+\n``` ``".toList "\t".toList (List.all_eq_true.mp (by decide))
    (List.all_eq_true.mp (by decide)) (List.all_eq_true.mp (by decide)) (by decide) (by decide)

end Esolang.Source.CodeFence
