/-
  Esolang.Proofs.Source.Fence
  ───────────────────────────
  **WHAT IS INSIDE A FENCE.**

  A fenced text is two fences with blanks around them.  Of what stands between
  them the program is all but a first line that holds nothing but a tag, and the
  line break before the closing fence.  Each of these parts is described here by
  what it is, and not by how it is looked for: there is one way at most to see a
  text so.

  Main results:
    • `between?_trim` — what stands between the fences,
    • `tagLine?_eq_some` — the tag line,
    • `beforeBreak_iff` — the last line break,
    • `unfenced_iff` — the program is what is left of all this.
-/
import Esolang.Source.CodeFence

namespace Esolang.Source.CodeFence

open Esolang.Text (isBlank trim)

/-! ## §1. The parts of a fenced text. -/

/-- All characters are blank. -/
def AllBlank (text : List Char) : Prop :=
  ∀ c ∈ text, isBlank c = true

/-- The text is `inner` between two fences, with blanks around them. -/
def Fenced (text inner : List Char) : Prop :=
  ∃ before after, AllBlank before ∧ AllBlank after
    ∧ text = before ++ (fence ++ inner ++ fence) ++ after

/-- A line that holds nothing but a tag, with its line break. -/
inductive TagLine : List Char → Prop where
  | line {tag gap : List Char} (isTag : ∀ c ∈ tag, isTagChar c = true)
      (isGap : ∀ c ∈ gap, isGap c = true) {ending : List Char}
      (ends : ending = ['\n'] ∨ ending = ['\r', '\n']) : TagLine (tag ++ (gap ++ ending))

/-- What is left of a text without its tag line, if it begins with one. -/
inductive AfterTag (text : List Char) : List Char → Prop where
  | line {line rest : List Char} (isLine : TagLine line) (begins : text = line ++ rest) :
      AfterTag text rest
  | none (noLine : ∀ line rest, TagLine line → text ≠ line ++ rest) : AfterTag text text

/-- The line breaks, and nothing. -/
def breaks : List (List Char) :=
  [['\r', '\n'], ['\n'], ['\r'], []]

/-- What is left of a text without the longest line break that it ends in. -/
def BeforeBreak (text body : List Char) : Prop :=
  ∃ ending ∈ breaks, text = body ++ ending
    ∧ ∀ other ∈ breaks, other <:+ text → other.length ≤ ending.length

/-- The program in a text: what is inside its fence, or all of it. -/
inductive Unfenced (text : List Char) : List Char → Prop where
  | fenced {inner rest body : List Char} (isFenced : Fenced text inner)
      (afterTag : AfterTag inner rest) (beforeBreak : BeforeBreak rest body) : Unfenced text body
  | bare (isBare : ∀ inner, ¬ Fenced text inner) : Unfenced text text

/-! ## §2. The fences. -/

/-- The character that fences are made of. -/
def tick : Char :=
  '\x60'

theorem isBlank_tick : isBlank tick = false := by
  decide

/-- Nothing is dropped from a text that begins with another character. -/
theorem dropWhile_of_head {p : Char → Bool} {a : Char} {rest : List Char} (other : p a = false) :
    (a :: rest).dropWhile p = a :: rest := by
  rw [List.dropWhile_cons, if_neg (by rw [other]; exact Bool.false_ne_true)]

/-- A run of blanks is blank. -/
theorem allBlank_takeWhile (text : List Char) : AllBlank (text.takeWhile isBlank) :=
  List.all_eq_true.mp List.all_takeWhile

/-- A text is its trimmed middle with blanks around it. -/
theorem exists_trim (text : List Char) :
    ∃ before after, AllBlank before ∧ AllBlank after ∧ text = before ++ trim text ++ after := by
  let onward := text.dropWhile isBlank
  refine ⟨text.takeWhile isBlank, (onward.reverse.takeWhile isBlank).reverse,
    allBlank_takeWhile text, ?_, ?_⟩
  · intro c mem
    exact allBlank_takeWhile onward.reverse c (List.mem_reverse.mp mem)
  · have back : trim text ++ (onward.reverse.takeWhile isBlank).reverse = onward := by
      show (onward.reverse.dropWhile isBlank).reverse ++ _ = onward
      rw [← List.reverse_append, List.takeWhile_append_dropWhile, List.reverse_reverse]
    rw [List.append_assoc, back]
    exact List.takeWhile_append_dropWhile.symm

/-- Blanks in front of a fence are dropped, and nothing else is. -/
theorem dropWhile_fence {before : List Char} (blank : AllBlank before) (rest : List Char) :
    (before ++ (fence ++ rest)).dropWhile isBlank = fence ++ rest := by
  rw [List.dropWhile_append_of_pos blank]
  exact dropWhile_of_head isBlank_tick

/-- Trimming takes the blanks away that stand around two fences. -/
theorem trim_fences {before after : List Char} (inner : List Char) (blankBefore : AllBlank before)
    (blankAfter : AllBlank after) :
    trim (before ++ (fence ++ inner ++ fence) ++ after) = fence ++ inner ++ fence := by
  have front : (before ++ (fence ++ inner ++ fence) ++ after).dropWhile isBlank
      = fence ++ inner ++ fence ++ after := by
    have front := dropWhile_fence blankBefore (inner ++ (fence ++ after))
    simpa only [List.append_assoc] using front
  have back : (fence ++ inner ++ fence ++ after).reverse.dropWhile isBlank
      = (fence ++ inner ++ fence).reverse := by
    have blank : ∀ c ∈ after.reverse, isBlank c = true :=
      fun c mem => blankAfter c (List.mem_reverse.mp mem)
    rw [List.reverse_append, List.dropWhile_append_of_pos blank, List.reverse_append]
    exact dropWhile_of_head isBlank_tick
  unfold trim
  rw [front, back, List.reverse_reverse]

theorem fenced_iff {text inner : List Char} :
    Fenced text inner ↔ trim text = fence ++ inner ++ fence := by
  constructor
  · rintro ⟨before, after, blankBefore, blankAfter, rfl⟩
    exact trim_fences inner blankBefore blankAfter
  · intro trimmed
    obtain ⟨before, after, blankBefore, blankAfter, split⟩ := exists_trim text
    rw [trimmed] at split
    exact ⟨before, after, blankBefore, blankAfter, split⟩

/-- What is taken out between two fences is what stands there. -/
theorem middle_fences (inner : List Char) :
    ((fence ++ inner ++ fence).drop 3).take ((fence ++ inner ++ fence).length - 6) = inner := by
  have drops : (fence ++ inner ++ fence).drop 3 = inner ++ fence := by
    rw [List.append_assoc]
    rfl
  have length : (fence ++ inner ++ fence).length = inner.length + 6 := by
    rw [List.length_append, List.length_append]
    show 3 + inner.length + 3 = inner.length + 6
    omega
  rw [drops, length, Nat.add_sub_cancel, List.take_left]

theorem between?_eq_some {text inner : List Char} :
    between? text = some inner ↔ text = fence ++ inner ++ fence := by
  unfold between?
  constructor
  · intro found
    split at found
    · next fences =>
      simp only [Bool.and_eq_true, decide_eq_true_eq, List.isPrefixOf_iff_prefix,
        List.isSuffixOf_iff_suffix] at fences
      obtain ⟨⟨⟨onward, opens⟩, ⟨back, closes⟩⟩, long⟩ := fences
      -- The two fences do not overlap, so the closing one lies behind the opening one.
      have apart : fence <+: back := by
        refine List.prefix_of_prefix_length_le ⟨onward, opens⟩ ⟨fence, closes⟩ ?_
        rw [← closes, List.length_append] at long
        show 3 ≤ back.length
        have : fence.length = 3 := rfl
        omega
      obtain ⟨middle, rfl⟩ := apart
      rw [← closes, middle_fences] at found
      rw [← closes, Option.some.inj found]
    · cases found
  · rintro rfl
    rw [middle_fences, if_pos]
    simp only [Bool.and_eq_true, decide_eq_true_eq, List.isPrefixOf_iff_prefix,
      List.isSuffixOf_iff_suffix]
    refine ⟨⟨⟨inner ++ fence, (List.append_assoc ..).symm⟩, ⟨fence ++ inner, rfl⟩⟩, ?_⟩
    rw [List.length_append, List.length_append]
    show 6 ≤ 3 + inner.length + 3
    omega

/-- **What stands between the fences** of a text without the blanks at its ends. -/
theorem between?_trim {text inner : List Char} :
    between? (trim text) = some inner ↔ Fenced text inner :=
  between?_eq_some.trans fenced_iff.symm

/-! ## §3. The tag line. -/

/-- What stands behind the line break that a text begins with, if it does. -/
def behindBreak? : List Char → Option (List Char)
  | '\n' :: rest => some rest
  | '\r' :: '\n' :: rest => some rest
  | _ => none

/-- What stands behind the tag line that a text begins with, if it does. -/
def tagLine? (text : List Char) : Option (List Char) :=
  behindBreak? ((text.dropWhile isTagChar).dropWhile isGap)

theorem dropTagLine_eq (text : List Char) : dropTagLine text = (tagLine? text).getD text := by
  unfold dropTagLine tagLine?
  generalize (text.dropWhile isTagChar).dropWhile isGap = onward
  split
  · rfl
  · rfl
  · next noFeed noBoth =>
    have nothing : behindBreak? onward = none := by
      unfold behindBreak?
      split
      · exact (noFeed _ rfl).elim
      · exact (noBoth _ rfl).elim
      · rfl
    rw [nothing]
    rfl

theorem isTagChar_of_isGap {c : Char} (h : isGap c = true) : isTagChar c = false := by
  simp only [isGap, Bool.or_eq_true, beq_iff_eq] at h
  rcases h with rfl | rfl
  · decide
  · decide

/-- The part of a tag line behind its tag is gone through to the line break. -/
theorem dropWhile_gap {gap ending : List Char} (gaps : ∀ c ∈ gap, isGap c = true)
    (ends : ending = ['\n'] ∨ ending = ['\r', '\n']) (rest : List Char) :
    ((gap ++ (ending ++ rest)).dropWhile isTagChar).dropWhile isGap = ending ++ rest := by
  have not_tag : (gap ++ (ending ++ rest)).dropWhile isTagChar = gap ++ (ending ++ rest) := by
    cases gap with
    | nil =>
      rcases ends with rfl | rfl
      · exact dropWhile_of_head (by decide)
      · exact dropWhile_of_head (by decide)
    | cons c gap => exact dropWhile_of_head (isTagChar_of_isGap (gaps c List.mem_cons_self))
  rw [not_tag, List.dropWhile_append_of_pos gaps]
  rcases ends with rfl | rfl
  · exact dropWhile_of_head (by decide)
  · exact dropWhile_of_head (by decide)

/-- **The tag line** that a text begins with is found, and nothing else is. -/
theorem tagLine?_eq_some {text rest : List Char} :
    tagLine? text = some rest ↔ ∃ line, TagLine line ∧ text = line ++ rest := by
  constructor
  · intro found
    let onward := text.dropWhile isTagChar
    have tags : ∀ c ∈ text.takeWhile isTagChar, isTagChar c = true :=
      List.all_eq_true.mp List.all_takeWhile
    have gaps : ∀ c ∈ onward.takeWhile isGap, isGap c = true :=
      List.all_eq_true.mp List.all_takeWhile
    have split_text : text
        = text.takeWhile isTagChar ++ (onward.takeWhile isGap ++ onward.dropWhile isGap) := by
      rw [List.takeWhile_append_dropWhile, List.takeWhile_append_dropWhile]
    have ends : ∃ ending, (ending = ['\n'] ∨ ending = ['\r', '\n'])
        ∧ onward.dropWhile isGap = ending ++ rest := by
      unfold tagLine? behindBreak? at found
      split at found
      · next rest' lineFeed =>
        cases found
        exact ⟨['\n'], .inl rfl, lineFeed⟩
      · next rest' both =>
        cases found
        exact ⟨['\r', '\n'], .inr rfl, both⟩
      · cases found
    obtain ⟨ending, ends, behind⟩ := ends
    refine ⟨_, .line tags gaps ends, ?_⟩
    rw [List.append_assoc, List.append_assoc, ← behind]
    exact split_text
  · rintro ⟨_, ⟨isTag, isGap, ends⟩, rfl⟩
    unfold tagLine?
    rw [List.append_assoc, List.append_assoc, List.dropWhile_append_of_pos isTag,
      dropWhile_gap isGap ends]
    rcases ends with rfl | rfl
    · rfl
    · rfl

theorem afterTag_iff {text rest : List Char} : AfterTag text rest ↔ dropTagLine text = rest := by
  rw [dropTagLine_eq]
  constructor
  · intro h
    cases h with
    | @line line _ isLine begins =>
      rw [tagLine?_eq_some.mpr ⟨line, isLine, begins⟩]
      rfl
    | none noLine =>
      cases found : tagLine? text with
      | none => rfl
      | some rest =>
        obtain ⟨line, isLine, begins⟩ := tagLine?_eq_some.mp found
        exact absurd begins (noLine line rest isLine)
  · intro left
    cases found : tagLine? text with
    | some behind =>
      rw [found] at left
      obtain ⟨line, isLine, begins⟩ := tagLine?_eq_some.mp found
      exact .line isLine (begins.trans (congrArg (line ++ ·) left))
    | none =>
      rw [found] at left
      obtain rfl : text = rest := left
      refine .none fun line rest isLine begins => ?_
      rw [tagLine?_eq_some.mpr ⟨line, isLine, begins⟩] at found
      cases found

/-! ## §4. The last line break. -/

/-- All line breaks but one have a single character, or none. -/
theorem eq_or_length_le_one {ending : List Char} (mem : ending ∈ breaks) :
    ending = ['\r', '\n'] ∨ ending.length ≤ 1 := by
  simp only [breaks, List.mem_cons, List.not_mem_nil, or_false] at mem
  rcases mem with rfl | rfl | rfl | rfl
  · exact .inl rfl
  · exact .inr (by decide)
  · exact .inr (by decide)
  · exact .inr (by decide)

/-- One line break at most is the longest. -/
theorem BeforeBreak.unique {text body other : List Char} (h : BeforeBreak text body)
    (h' : BeforeBreak text other) : body = other := by
  obtain ⟨ending, mem, split, longest⟩ := h
  obtain ⟨ending', mem', split', longest'⟩ := h'
  have le : ending.length ≤ ending'.length := longest' ending mem ⟨body, split.symm⟩
  have ge : ending'.length ≤ ending.length := longest ending' mem' ⟨other, split'.symm⟩
  exact (List.append_inj' (split.symm.trans split') (Nat.le_antisymm le ge)).1

theorem beforeBreak_dropLastBreak (text : List Char) : BeforeBreak text (dropLastBreak text) := by
  have of_reverse : ∀ (ending : List Char) (rest : List Char),
      text.reverse = ending.reverse ++ rest → text = rest.reverse ++ ending := by
    intro ending rest reversed
    rw [← List.reverse_reverse text, reversed, List.reverse_append, List.reverse_reverse]
  -- A break that the text ends in begins the text read backwards.
  have begins : ∀ other : List Char, other <:+ text → other.reverse <+: text.reverse :=
    fun other ends => List.reverse_prefix.mpr ends
  unfold dropLastBreak
  split
  · next rest reversed =>
    refine ⟨['\r', '\n'], by decide, of_reverse ['\r', '\n'] rest reversed, ?_⟩
    intro other mem _
    rcases eq_or_length_le_one mem with rfl | le
    · exact Nat.le_refl 2
    · exact Nat.le_succ_of_le le
  · next rest noReturn reversed =>
    refine ⟨['\n'], by decide, of_reverse ['\n'] rest reversed, ?_⟩
    intro other mem ends
    rcases eq_or_length_le_one mem with rfl | le
    · obtain ⟨rest', eq⟩ := begins _ ends
      rw [reversed] at eq
      exact absurd (List.cons.inj eq).2.symm (noReturn rest')
    · exact le
  · next rest reversed =>
    refine ⟨['\r'], by decide, of_reverse ['\r'] rest reversed, ?_⟩
    intro other mem ends
    rcases eq_or_length_le_one mem with rfl | le
    · obtain ⟨rest', eq⟩ := begins _ ends
      rw [reversed] at eq
      exact absurd (List.cons.inj eq).1 (by decide)
    · exact le
  · next noBoth noFeed noReturn =>
    refine ⟨[], by decide, (List.append_nil text).symm, ?_⟩
    intro other mem ends
    obtain ⟨rest, eq⟩ := begins other ends
    simp only [breaks, List.mem_cons, List.not_mem_nil, or_false] at mem
    rcases mem with rfl | rfl | rfl | rfl
    · exact absurd eq.symm (noBoth rest)
    · exact absurd eq.symm (noFeed rest)
    · exact absurd eq.symm (noReturn rest)
    · exact Nat.le_refl 0

/-- **The last line break** is the longest one that the text ends in. -/
theorem beforeBreak_iff {text body : List Char} :
    BeforeBreak text body ↔ dropLastBreak text = body := by
  constructor
  · exact fun h => (beforeBreak_dropLastBreak text).unique h
  · rintro rfl
    exact beforeBreak_dropLastBreak text

/-! ## §5. The program. -/

theorem Fenced.unique {text inner other : List Char} (h : Fenced text inner)
    (h' : Fenced text other) : inner = other := by
  have same := (between?_trim.mpr h).symm.trans (between?_trim.mpr h')
  exact Option.some.inj same

theorem unfence_of_fenced {text : String} {inner : List Char} (h : Fenced text.toList inner) :
    (unfence text).toList = dropLastBreak (dropTagLine inner) := by
  unfold unfence
  rw [between?_trim.mpr h]
  exact String.toList_ofList

theorem unfence_of_bare {text : String} (h : ∀ inner, ¬ Fenced text.toList inner) :
    unfence text = text := by
  unfold unfence
  cases found : between? (trim text.toList) with
  | none => rfl
  | some inner => exact absurd (between?_trim.mp found) (h inner)

/-- **The program in a text** is what is left when all that belongs to a fence is taken away. -/
theorem unfenced_iff {text : String} {body : List Char} :
    Unfenced text.toList body ↔ (unfence text).toList = body := by
  constructor
  · intro h
    cases h with
    | fenced isFenced afterTag beforeBreak =>
      rw [unfence_of_fenced isFenced, afterTag_iff.mp afterTag]
      exact beforeBreak_iff.mp beforeBreak
    | bare isBare => rw [unfence_of_bare isBare]
  · rintro rfl
    by_cases fenced : ∃ inner, Fenced text.toList inner
    · obtain ⟨inner, isFenced⟩ := fenced
      rw [unfence_of_fenced isFenced]
      exact .fenced isFenced (afterTag_iff.mpr rfl) (beforeBreak_iff.mpr rfl)
    · have isBare := not_exists.mp fenced
      rw [unfence_of_bare isBare]
      exact .bare isBare

/-- Lines between fences come back as they are, if they do not end in a carriage return. -/
theorem unfence_block {before tag body after : List Char} (blankBefore : AllBlank before)
    (blankAfter : AllBlank after) (isTag : ∀ c ∈ tag, isTagChar c = true)
    (noReturn : body.getLast? ≠ some '\r') :
    unfence (String.ofList
        (before ++ (fence ++ (tag ++ ['\n'] ++ body ++ ['\n']) ++ fence) ++ after))
      = String.ofList body := by
  have tagLine : TagLine (tag ++ ([] ++ ['\n'])) := .line isTag (by simp) (.inl rfl)
  have rest : AfterTag (tag ++ ['\n'] ++ body ++ ['\n']) (body ++ ['\n']) :=
    .line tagLine (by simp)
  have last : BeforeBreak (body ++ ['\n']) body := by
    refine ⟨['\n'], by decide, rfl, ?_⟩
    intro other mem ends
    rcases eq_or_length_le_one mem with rfl | le
    · -- The whole line break would need a return at the end of the body.
      obtain ⟨front, eq⟩ := ends
      have eq : (front ++ ['\r']) ++ ['\n'] = body ++ ['\n'] := by simpa using eq
      have same := (List.append_inj' eq rfl).1
      rw [← same, List.getLast?_concat] at noReturn
      exact absurd rfl noReturn
    · exact le
  refine String.toList_inj.mp ?_
  rw [String.toList_ofList]
  refine unfenced_iff.mp (.fenced ?_ rest last)
  rw [String.toList_ofList]
  exact ⟨before, after, blankBefore, blankAfter, rfl⟩

end Esolang.Source.CodeFence
