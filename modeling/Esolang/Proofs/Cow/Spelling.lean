/-
  Esolang.Proofs.Cow.Spelling
  ───────────────────────────
  **TEXTS THAT SPELL COMMANDS.**

  A text SPELLS a list of commands when its letters are those of their triplets,
  whatever other characters stand between them.  Such a text is read back as
  those commands, and only their loops may be at fault.

    • `parse_of_spells` — the program that is read from the text, or the fault of
      its loops,
    • `nodup_spans` — no two triplets of a text have the same span,
    • `span_of_triplet`, `rest_of_split` — each triplet goes from every third letter to
      the second behind it, and what is left goes on from there to the last letter.
-/
import Esolang.Proofs.Cow.Range

namespace Esolang.Cow

open Esolang.Source (Span Token)

/-! ## §1. Spelling. -/

/-- The letters of the text are those of the triplets of these commands. -/
def Spells (source : String) (ops : List Opcode) : Prop :=
  source.toList.filterMap letter? = ops.flatMap fun op => op.triplet.toList

instance (source : String) (ops : List Opcode) : Decidable (Spells source ops) :=
  inferInstanceAs (Decidable (_ = _))

/-- A triplet has three letters. -/
theorem Opcode.exists_letters (op : Opcode) : ∃ a b c, op.triplet.toList = [a, b, c] := by
  cases op <;> exact ⟨_, _, _, rfl⟩

/-- Three letters that are those of a triplet make its word. -/
theorem symbol_word {op : Opcode} {a b c : Token Char}
    (letters : [a.symbol, b.symbol, c.symbol] = op.triplet.toList) :
    (word a c [a, b, c]).symbol = op.triplet := by
  show String.ofList [a.symbol, b.symbol, c.symbol] = op.triplet
  rw [letters, String.ofList_toList]

/-- **Spelled letters are cut into the triplets.** -/
theorem splitOnto_of_spelled {ops : List Opcode} :
    ∀ {letters : List (Token Char)} (found : Array (Token String)),
      letters.map Token.symbol = ops.flatMap (fun op => op.triplet.toList) →
        (splitOnto found letters).rest = none
          ∧ (splitOnto found letters).triplets.map Token.symbol
              = found.toList.map Token.symbol ++ ops.map Opcode.triplet := by
  induction ops with
  | nil =>
    intro letters found spelled
    rw [List.flatMap_nil, List.map_eq_nil_iff] at spelled
    subst spelled
    exact ⟨rfl, (List.append_nil _).symm⟩
  | cons op ops ih =>
    intro letters found spelled
    obtain ⟨x, y, z, three⟩ := op.exists_letters
    rw [List.flatMap_cons, three] at spelled
    -- The first three letters are those of the first triplet.
    obtain ⟨a, _, rfl, rfl, second⟩ := List.map_eq_cons_iff.mp spelled
    obtain ⟨b, _, rfl, rfl, third⟩ := List.map_eq_cons_iff.mp second
    obtain ⟨c, letters, rfl, rfl, behind⟩ := List.map_eq_cons_iff.mp third
    obtain ⟨rest, triplets⟩ := ih (found.push (word a c [a, b, c])) behind
    refine ⟨rest, ?_⟩
    show (splitOnto (found.push (word a c [a, b, c])) letters).triplets.map Token.symbol = _
    rw [triplets, Array.toList_push, List.map_append, List.append_assoc, List.map_cons,
      List.map_cons, List.map_nil, symbol_word three.symm]
    rfl

theorem command_of_symbol {triplet : Token String} {op : Opcode}
    (h : triplet.symbol = op.triplet) : command triplet = .ok ⟨op, triplet.span⟩ := by
  unfold command
  rw [h, Opcode.ofTriplet?_triplet]

/-- Triplets of commands are read as these commands, at the same spans. -/
theorem mapM_command {ops : List Opcode} :
    ∀ {triplets : List (Token String)}, triplets.map Token.symbol = ops.map Opcode.triplet →
      ∃ code, triplets.mapM command = .ok code ∧ code.map Token.symbol = ops
        ∧ code.map Token.span = triplets.map Token.span := by
  induction ops with
  | nil =>
    intro triplets h
    rw [List.map_nil, List.map_eq_nil_iff] at h
    subst h
    exact ⟨[], rfl, rfl, rfl⟩
  | cons op ops ih =>
    intro triplets h
    rw [List.map_cons] at h
    obtain ⟨triplet, triplets, rfl, here, behind⟩ := List.map_eq_cons_iff.mp h
    obtain ⟨code, read, symbols, spans⟩ := ih behind
    refine ⟨⟨op, triplet.span⟩ :: code, ?_, ?_, ?_⟩
    · rw [List.mapM_cons, command_of_symbol here, read]
      rfl
    · rw [List.map_cons, symbols]
    · rw [List.map_cons, List.map_cons, spans]

/-! ## §2. Reading a text that spells commands. -/

/-- Where the triplets of a text stand. -/
def spans (source : String) : List Span :=
  (split (scan source)).triplets.map Token.span

/-- **What a text spells is read from it**, each command at its triplet, unless its
loops cannot be paired. -/
theorem parse_of_spells {source : String} {ops : List Opcode} (spells : Spells source ops) :
    ∃ code : List (Token Opcode), code.map Token.symbol = ops
      ∧ code.map Token.span = spans source
      ∧ parse source = match pair code with
        | .ok loops => .ok ⟨code.toArray, loops⟩
        | .error fault => .error ⟨(Malformation.unpaired fault).report, siteAt code fault.index⟩ := by
  have letters : (scan source).map Token.symbol = ops.flatMap fun op => op.triplet.toList :=
    (Source.map_symbol_tokens letter? source).trans spells
  obtain ⟨rest, triplets⟩ := splitOnto_of_spelled #[] letters
  obtain ⟨code, read, symbols, spans⟩ := mapM_command triplets
  have whole : (split (scan source)).rest = none := rest
  have commands : (split (scan source)).triplets.mapM command = .ok code := read
  refine ⟨code, symbols, spans, ?_⟩
  unfold parse
  cases paired : pair code with
  | ok loops => simp only [whole, commands, paired]
  | error fault => simp only [whole, commands, paired]

/-! ## §3. Spans of triplets. -/

/-- A triplet begins where its first letter does. -/
theorem starts_splitOnto (letters : List (Token Char)) (found : Array (Token String)) :
    ∃ starts, (splitOnto found letters).triplets.map (·.span.start)
        = found.toList.map (·.span.start) ++ starts
      ∧ starts.Sublist (letters.map (·.span.start)) := by
  fun_induction splitOnto found letters with
  | case1 found a b c letters ih =>
    obtain ⟨starts, eq, sub⟩ := ih
    refine ⟨a.span.start :: starts, ?_, ?_⟩
    · rw [eq, Array.toList_push, List.map_append, List.append_assoc]
      rfl
    · exact .cons_cons _ (.cons _ (.cons _ sub))
  | case2 found a b => exact ⟨[], (List.append_nil _).symm, List.nil_sublist _⟩
  | case3 found a => exact ⟨[], (List.append_nil _).symm, List.nil_sublist _⟩
  | case4 found => exact ⟨[], (List.append_nil _).symm, List.nil_sublist _⟩

/-- **No two triplets of a text have the same span.** -/
theorem nodup_spans (source : String) : (spans source).Nodup := by
  apply Source.nodup_spans_of_starts
  obtain ⟨starts, eq, sub⟩ := starts_splitOnto (scan source) #[]
  have triplets : (split (scan source)).triplets.map (·.span.start) = starts := eq
  rw [triplets]
  exact (Source.starts_tokens letter? source).sublist sub

/-! ## §4. First and last letters. -/

/-- What has been found before stays in front. -/
theorem splitOnto_eq : ∀ (letters : List (Token Char)) (found : Array (Token String)),
    splitOnto found letters
      = ⟨found.toList ++ (split letters).triplets, (split letters).rest⟩
  | a :: b :: c :: letters, found => by
    show splitOnto (found.push (word a c [a, b, c])) letters
      = ⟨found.toList ++ (splitOnto (#[].push (word a c [a, b, c])) letters).triplets,
          (splitOnto (#[].push (word a c [a, b, c])) letters).rest⟩
    rw [splitOnto_eq letters (found.push _), splitOnto_eq letters (#[].push _)]
    simp
  | [a, b], found => by simp [split, splitOnto]
  | [a], found => by simp [split, splitOnto]
  | [], found => by simp [split, splitOnto]

/-- The first three letters are the first triplet. -/
theorem split_cons (a b c : Token Char) (letters : List (Token Char)) :
    split (a :: b :: c :: letters)
      = ⟨word a c [a, b, c] :: (split letters).triplets, (split letters).rest⟩ :=
  splitOnto_eq letters (#[].push (word a c [a, b, c]))

/-- **A triplet goes from its first letter to its third.** -/
theorem span_of_triplet {triplet : Token String} :
    ∀ {letters : List (Token Char)} {i : Nat}, (split letters).triplets[i]? = some triplet →
      ∃ first last, letters[3 * i]? = some first ∧ letters[3 * i + 2]? = some last
        ∧ triplet.span = ⟨first.span.start, last.span.stop⟩
  | a :: b :: c :: letters, i, found => by
    rw [split_cons] at found
    cases i with
    | zero =>
      cases found
      exact ⟨a, c, rfl, rfl, rfl⟩
    | succ i =>
      have behind : (split letters).triplets[i]? = some triplet := found
      obtain ⟨first, last, here, there, span⟩ := span_of_triplet behind
      exact ⟨first, last, here, there, span⟩
  | [a, b], i, found | [a], i, found | [], i, found => by
    simp [split, splitOnto] at found

/-- **What is left goes from the letter behind the last triplet to the last letter.** -/
theorem rest_of_split {rest : Token String} :
    ∀ {letters : List (Token Char)}, (split letters).rest = some rest →
      rest.symbol
          = String.ofList ((letters.map Token.symbol).drop (3 * (split letters).triplets.length))
        ∧ ∃ first last, letters[3 * (split letters).triplets.length]? = some first
            ∧ letters[letters.length - 1]? = some last
            ∧ rest.span = ⟨first.span.start, last.span.stop⟩
  | a :: b :: c :: letters, left => by
    rw [split_cons] at left ⊢
    have behind : (split letters).rest = some rest := left
    obtain ⟨symbol, first, last, here, there, span⟩ := rest_of_split behind
    have final : (a :: b :: c :: letters).length - 1 = letters.length - 1 + 3 := by
      have : 0 < letters.length :=
        List.length_pos_iff_exists_mem.mpr ⟨first, List.mem_of_getElem? here⟩
      simp only [List.length_cons]
      omega
    rw [final]
    exact ⟨symbol, first, last, here, there, span⟩
  | [a, b], left => by
    cases left
    exact ⟨rfl, a, b, rfl, rfl, rfl⟩
  | [a], left => by
    cases left
    exact ⟨rfl, a, a, rfl, rfl, rfl⟩
  | [], left => by cases left

end Esolang.Cow
