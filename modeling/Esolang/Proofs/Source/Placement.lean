/-
  Esolang.Proofs.Source.Placement
  ───────────────────────────────
  **WHERE TOKENS STAND.**

  A scan goes over a text once, and the offset it has reached is the size of
  what lies behind it.  `placed` says the same as a recursion on the text, from
  which three facts are read off:

    • `standsIn_of_mem_tokens` — a token stands at the bytes of its character,
    • `character_of_getElem?_tokens` — and the tokens are numbered as the characters are,
    • `inOrder_tokens` — tokens stand one behind the other, whatever comments lie
      between them, so the least span around several tokens goes from the first
      to the last of them (`foldl_merge`).
-/
import Mathlib.Data.List.Induction
import Mathlib.Data.List.Nodup
import Esolang.Source.Lines
import Esolang.Source.Token

namespace Esolang.Source

variable {τ : Type}

/-! ## §1. A scan as a recursion on the text. -/

/-- The tokens of a text that begins at the byte `offset`. -/
def placed (classify : Char → Option τ) (offset : Nat) : List Char → List (Token τ)
  | [] => []
  | c :: cs =>
    match classify c with
    | some symbol =>
      ⟨symbol, offset, offset + c.utf8Size⟩ :: placed classify (offset + c.utf8Size) cs
    | none => placed classify (offset + c.utf8Size) cs

theorem foldl_advance (classify : Char → Option τ) (text : List Char) :
    ∀ scan : Scan τ,
      (text.foldl (Scan.advance classify) scan).found.toList
        = scan.found.toList ++ placed classify scan.offset text := by
  induction text with
  | nil =>
    intro scan
    simp [placed]
  | cons c cs ih =>
    intro scan
    rw [List.foldl_cons, ih]
    cases meaning : classify c with
    | none => simp [Scan.advance, placed, meaning]
    | some symbol => simp [Scan.advance, placed, meaning]

theorem tokens_eq_placed (classify : Char → Option τ) (source : String) :
    tokens classify source = placed classify 0 source.toList := by
  unfold tokens
  rw [foldl_advance]
  rfl

/-- What a text is continued by adds tokens behind its own. -/
theorem placed_append (classify : Char → Option τ) (text more : List Char) :
    ∀ offset, placed classify offset (text ++ more)
      = placed classify offset text ++ placed classify (offset + byteSize text) more := by
  induction text with
  | nil => intro offset; rfl
  | cons c cs ih =>
    intro offset
    rw [List.cons_append, placed, placed, ih, byteSize_cons, Nat.add_assoc]
    cases classify c with
    | none => rfl
    | some symbol => rw [List.cons_append]

theorem tokens_append (classify : Char → Option τ) (source more : String) :
    tokens classify (source ++ more)
      = tokens classify source ++ placed classify (byteSize source.toList) more.toList := by
  rw [tokens_eq_placed, tokens_eq_placed, String.toList_append, placed_append, Nat.zero_add]

/-! ## §2. A token stands at its character. -/

/-- The token is a character of the text: it means what the character means, and
its span is the bytes of the character. -/
def Token.StandsIn (classify : Char → Option τ) (text : List Char) (token : Token τ) : Prop :=
  ∃ before c after, text = before ++ c :: after ∧ classify c = some token.symbol
    ∧ token.span = ⟨byteSize before, byteSize before + c.utf8Size⟩

theorem standsIn_of_mem_placed {classify : Char → Option τ} {token : Token τ} :
    ∀ {text : List Char} (before : List Char),
      token ∈ placed classify (byteSize before) text →
      token.StandsIn classify (before ++ text) := by
  intro text
  induction text with
  | nil =>
    intro before mem
    cases mem
  | cons c cs ih =>
    intro before mem
    -- Behind `c` the text goes on with `c` as part of what comes before.
    have later (mem : token ∈ placed classify (byteSize before + c.utf8Size) cs) :
        token.StandsIn classify (before ++ c :: cs) := by
      have behind := ih (before ++ [c]) (by simpa using mem)
      simpa using behind
    unfold placed at mem
    cases meaning : classify c with
    | none =>
      rw [meaning] at mem
      exact later mem
    | some symbol =>
      rw [meaning] at mem
      rcases List.mem_cons.mp mem with rfl | mem
      · exact ⟨before, c, cs, rfl, meaning, rfl⟩
      · exact later mem

/-- **A token stands at the bytes of its character.** -/
theorem standsIn_of_mem_tokens {classify : Char → Option τ} {source : String} {token : Token τ}
    (mem : token ∈ tokens classify source) : token.StandsIn classify source.toList := by
  rw [tokens_eq_placed] at mem
  exact standsIn_of_mem_placed [] mem

/-- The character is number `k`, from zero, of those of the text that mean something, and
it stands behind `before`. -/
structure IsCharacter (classify : Char → Option τ) (text before : List Char) (c : Char)
    (k : Nat) : Prop where
  split : ∃ after, text = before ++ c :: after
  meaning : (classify c).isSome
  number : (before.filterMap classify).length = k

theorem character_of_getElem?_placed {classify : Char → Option τ} {token : Token τ} :
    ∀ {text : List Char} (offset k : Nat), (placed classify offset text)[k]? = some token →
      ∃ before c, IsCharacter classify text before c k ∧ classify c = some token.symbol
        ∧ token.span = ⟨offset + byteSize before, offset + byteSize before + c.utf8Size⟩ := by
  intro text
  induction text with
  | nil =>
    intro offset k found
    cases found
  | cons c cs ih =>
    intro offset k found
    -- What is found behind `c` stands behind `c` and what lies between.
    have later {k' : Nat} (found : (placed classify (offset + c.utf8Size) cs)[k']? = some token)
        (number : ([c].filterMap classify).length + k' = k) :
        ∃ before c', IsCharacter classify (c :: cs) before c' k
          ∧ classify c' = some token.symbol
          ∧ token.span
            = ⟨offset + byteSize before, offset + byteSize before + c'.utf8Size⟩ := by
      obtain ⟨before, c', ⟨⟨after, split⟩, some_meaning, number'⟩, meaning, span⟩ :=
        ih (offset + c.utf8Size) k' found
      refine ⟨c :: before, c', ⟨⟨after, by rw [split, List.cons_append]⟩, some_meaning, ?_⟩,
        meaning, ?_⟩
      · rw [← List.singleton_append, List.filterMap_append, List.length_append, number', number]
      · rw [span, byteSize_cons, Nat.add_assoc]
    unfold placed at found
    cases meaning : classify c with
    | none =>
      rw [meaning] at found
      exact later found (by simp [meaning])
    | some symbol =>
      rw [meaning] at found
      cases k with
      | zero =>
        cases found
        exact ⟨[], c, ⟨⟨cs, rfl⟩, by rw [meaning]; rfl, rfl⟩, meaning, rfl⟩
      | succ k => exact later found (by simp [meaning, Nat.add_comm])

/-- **Token number `k` is character number `k` of those that mean something.** -/
theorem character_of_getElem?_tokens {classify : Char → Option τ} {source : String}
    {token : Token τ} {k : Nat} (found : (tokens classify source)[k]? = some token) :
    ∃ before c, IsCharacter classify source.toList before c k ∧ classify c = some token.symbol
      ∧ token.span = ⟨byteSize before, byteSize before + c.utf8Size⟩ := by
  rw [tokens_eq_placed] at found
  obtain ⟨before, c, character, meaning, span⟩ := character_of_getElem?_placed 0 k found
  rw [Nat.zero_add] at span
  exact ⟨before, c, character, meaning, span⟩

/-- A text has no more tokens than characters. -/
theorem length_tokens_le (classify : Char → Option τ) (source : String) :
    (tokens classify source).length ≤ source.toList.length := by
  have symbols := congrArg List.length (map_symbol_tokens classify source)
  rw [List.length_map] at symbols
  rw [symbols]
  exact List.length_filterMap_le classify source.toList

/-! ## §3. Tokens stand one behind the other. -/

/-- Spans that are not turned around, each behind the one before. -/
structure InOrder (ts : List (Token τ)) : Prop where
  /-- No token ends before it begins. -/
  forth : ∀ t ∈ ts, t.span.start ≤ t.span.stop
  /-- A later token begins where an earlier one ends, or behind it. -/
  behind : ts.Pairwise fun t u => t.span.stop ≤ u.span.start

theorem InOrder.append_left {ts us : List (Token τ)} (h : InOrder (ts ++ us)) : InOrder ts where
  forth t mem := h.forth t (List.mem_append_left us mem)
  behind := (List.pairwise_append.mp h.behind).1

theorem InOrder.append_right {ts us : List (Token τ)} (h : InOrder (ts ++ us)) : InOrder us where
  forth t mem := h.forth t (List.mem_append_right ts mem)
  behind := (List.pairwise_append.mp h.behind).2.1

theorem InOrder.cons {t : Token τ} {ts : List (Token τ)} (forth : t.span.start ≤ t.span.stop)
    (behind : ∀ u ∈ ts, t.span.stop ≤ u.span.start) (h : InOrder ts) : InOrder (t :: ts) where
  forth := List.forall_mem_cons.mpr ⟨forth, h.forth⟩
  behind := List.pairwise_cons.mpr ⟨behind, h.behind⟩

theorem inOrder_placed (classify : Char → Option τ) (text : List Char) :
    ∀ offset, InOrder (placed classify offset text)
      ∧ ∀ t ∈ placed classify offset text, offset ≤ t.span.start := by
  induction text with
  | nil =>
    intro offset
    exact ⟨⟨nofun, .nil⟩, nofun⟩
  | cons c cs ih =>
    intro offset
    obtain ⟨order, after⟩ := ih (offset + c.utf8Size)
    have further : ∀ t ∈ placed classify (offset + c.utf8Size) cs, offset ≤ t.span.start := by
      intro t mem
      have := after t mem
      omega
    unfold placed
    cases classify c with
    | none => exact ⟨order, further⟩
    | some symbol =>
      refine ⟨.cons (Nat.le_add_right _ _) after order, ?_⟩
      exact List.forall_mem_cons.mpr ⟨Nat.le_refl _, further⟩

/-- **Tokens stand one behind the other.** -/
theorem inOrder_tokens (classify : Char → Option τ) (source : String) :
    InOrder (tokens classify source) := by
  rw [tokens_eq_placed]
  exact (inOrder_placed classify source.toList 0).1

/-- Each token begins behind those before it, since a character takes a byte or
more. -/
theorem starts_tokens (classify : Char → Option τ) (source : String) :
    ((tokens classify source).map (·.span.start)).Pairwise (· < ·) := by
  rw [List.pairwise_map]
  refine (inOrder_tokens classify source).behind.imp_of_mem ?_
  intro t u mem _ behind
  obtain ⟨before, c, _, -, -, span⟩ := standsIn_of_mem_tokens mem
  have wide := c.utf8Size_pos
  have start : t.span.start = byteSize before := congrArg Span.start span
  have stop : t.span.stop = byteSize before + c.utf8Size := congrArg Span.stop span
  omega

/-- Tokens that begin at different bytes have different spans. -/
theorem nodup_spans_of_starts {ts : List (Token τ)}
    (starts : (ts.map (·.span.start)).Pairwise (· < ·)) : (ts.map Token.span).Nodup := by
  apply List.Nodup.of_map Span.start
  rw [List.map_map]
  exact starts.imp Nat.ne_of_lt

/-! ## §4. The span of several tokens. -/

/-- From the first of several tokens to the last. -/
def extent : List (Token τ) → Span
  | [] => default
  | first :: rest => ⟨first.span.start, ((first :: rest).getLast (by simp)).span.stop⟩

theorem extent_eq {ts : List (Token τ)} {first last : Token τ} (hf : ts.head? = some first)
    (hl : ts.getLast? = some last) : extent ts = ⟨first.span.start, last.span.stop⟩ := by
  cases ts with
  | nil => cases hf
  | cons t ts =>
    cases hf
    rw [List.getLast?_eq_some_getLast (by simp)] at hl
    cases hl
    rfl

theorem extent_concat (ts : List (Token τ)) (first last : Token τ) :
    extent (first :: (ts ++ [last])) = ⟨first.span.start, last.span.stop⟩ := by
  apply extent_eq
  · rfl
  · rw [← List.cons_append, List.getLast?_concat]

/-- The least span around a token and those behind it goes from the first to the last. -/
theorem foldl_merge (first : Token τ) (ts : List (Token τ)) (order : InOrder (first :: ts)) :
    ts.foldl (fun span t => span.merge t.span) first.span = extent (first :: ts) := by
  induction ts using List.reverseRecOn with
  | nil => rfl
  | append_singleton ts last ih =>
    rw [← List.cons_append] at order
    have before : ∀ t ∈ first :: ts, t.span.stop ≤ last.span.start := by
      intro t mem
      exact (List.pairwise_append.mp order.behind).2.2 t mem last (by simp)
    have forth := order.forth
    have here := ih order.append_left
    -- What has been merged so far ends with one of the tokens before the last.
    have ends : (extent (first :: ts)).stop ≤ last.span.start := by
      exact before _ (List.getLast_mem (by simp))
    have begins : first.span.start ≤ last.span.start :=
      Nat.le_trans (forth first (by simp)) (before first (by simp))
    have last_forth : last.span.start ≤ last.span.stop := forth last (by simp)
    rw [List.foldl_append, List.foldl_cons, List.foldl_nil, here, extent_concat]
    show Span.mk (min first.span.start last.span.start) (max _ last.span.stop) = _
    rw [Nat.min_eq_left begins, Nat.max_eq_right (by omega)]

end Esolang.Source
