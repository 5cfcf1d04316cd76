/-
  Esolang.Proofs.Source.Alignment
  ───────────────────────────────
  **TEXTS THAT WRITE THE SAME SYMBOLS.**

  Two texts may write the same symbols at different bytes.  An ALIGNMENT says which
  bytes of the one answer to which bytes of the other.  Tokens are aligned if they have
  one symbol and their bytes answer to each other, and what is made of aligned tokens
  can differ in its spans only.

    • `aligned_tokens` — the tokens of texts with the same symbols are aligned, each
      with the one of the same number,
    • `TextAlignment.lookup` — aligned programs have their instructions at the same indices,
    • `TextAlignment.extent` — what aligned tokens span is aligned.
-/
import Esolang.Proofs.Source.Placement

namespace Esolang.Source

variable {τ : Type}

/-! ## §1. Alignments. -/

/-- Which bytes of one text answer to which bytes of another. -/
structure TextAlignment where
  /-- For bytes at which a symbol begins. -/
  begins : Nat → Nat → Prop
  /-- For bytes behind a symbol. -/
  ends : Nat → Nat → Prop

namespace TextAlignment

/-- The first bytes of the spans answer to each other, and so do the bytes behind them. -/
structure Spans (align : TextAlignment) (span span' : Span) : Prop where
  begins : align.begins span.start span'.start
  ends : align.ends span.stop span'.stop

/-- The tokens have the same symbol, at spans that answer to each other. -/
structure Tokens (align : TextAlignment) (token token' : Token τ) : Prop where
  symbol : token.symbol = token'.symbol
  span : align.Spans token.span token'.span

variable {align : TextAlignment} {ts ts' : List (Token τ)}

/-- Aligned tokens have the same symbols in the same order. -/
theorem map_symbol (aligned : List.Forall₂ align.Tokens ts ts') :
    ts.map Token.symbol = ts'.map Token.symbol := by
  induction aligned with
  | nil => rfl
  | cons first rest ih => rw [List.map_cons, List.map_cons, first.symbol, ih]

/-- **Aligned programs have their instructions at the same indices.** -/
theorem lookup (aligned : List.Forall₂ align.Tokens ts ts') (i : Nat) :
    (ts[i]? = none ∧ ts'[i]? = none)
      ∨ ∃ t t', ts[i]? = some t ∧ ts'[i]? = some t' ∧ align.Tokens t t' := by
  induction aligned generalizing i with
  | nil => exact .inl ⟨rfl, rfl⟩
  | @cons t t' _ _ first rest ih =>
    cases i with
    | zero => exact .inr ⟨t, t', rfl, rfl, first⟩
    | succ i => exact ih i

/-- What stands at one index of aligned programs is aligned. -/
theorem tokens_of_getElem? (aligned : List.Forall₂ align.Tokens ts ts') {i : Nat}
    {t t' : Token τ} (here : ts[i]? = some t) (there : ts'[i]? = some t') :
    align.Tokens t t' := by
  rcases lookup aligned i with ⟨none, -⟩ | ⟨u, u', found, found', tokens⟩
  · rw [here] at none
    cases none
  · rw [here] at found
    rw [there] at found'
    cases found
    cases found'
    exact tokens

/-- The same change of the symbol at one index leaves tokens aligned. -/
theorem modify (aligned : List.Forall₂ align.Tokens ts ts') (i : Nat) (symbol : τ) :
    List.Forall₂ align.Tokens (ts.modify i fun t => { t with symbol })
      (ts'.modify i fun t => { t with symbol }) := by
  induction aligned generalizing i with
  | nil => simp
  | @cons t t' _ _ first rest ih =>
    cases i with
    | zero =>
      rw [List.modify_zero_cons, List.modify_zero_cons]
      exact .cons ⟨rfl, first.span⟩ rest
    | succ i =>
      rw [List.modify_succ_cons, List.modify_succ_cons]
      exact .cons first (ih i)

/-- **What aligned tokens span is aligned.** -/
theorem extent (aligned : List.Forall₂ align.Tokens ts ts') (ne : ts ≠ []) :
    align.Spans (extent ts) (extent ts') := by
  cases aligned with
  | nil => exact absurd rfl ne
  | @cons t t' ts ts' first rest =>
    refine ⟨first.span.begins, ?_⟩
    -- The last token is the first one, or it comes later.
    show align.ends ((t :: ts).getLast _).span.stop ((t' :: ts').getLast _).span.stop
    clear ne
    induction rest generalizing t t' with
    | nil => exact first.span.ends
    | cons second rest ih =>
      rw [List.getLast_cons (List.cons_ne_nil _ _), List.getLast_cons (List.cons_ne_nil _ _)]
      exact ih second

end TextAlignment

/-! ## §2. The symbols of a text, by their numbers. -/

/-- The symbol number `k` of the text begins at this byte. -/
def BeginsAt (significant : Char → Bool) (text : List Char) (k offset : Nat) : Prop :=
  ∃ before c after, text = before ++ c :: after ∧ significant c
    ∧ before.countP significant = k ∧ byteSize before = offset

/-- The symbol number `k` of the text ends before this byte. -/
def EndsAt (significant : Char → Bool) (text : List Char) (k offset : Nat) : Prop :=
  ∃ before c after, text = before ++ c :: after ∧ significant c
    ∧ before.countP significant = k ∧ byteSize (before ++ [c]) = offset

/-- Bytes answer to each other if they belong to symbols of the same number. -/
def TextAlignment.bySymbols (significant : Char → Bool) (text text' : List Char) :
    TextAlignment where
  begins offset offset' :=
    ∃ k, BeginsAt significant text k offset ∧ BeginsAt significant text' k offset'
  ends offset offset' :=
    ∃ k, EndsAt significant text k offset ∧ EndsAt significant text' k offset'

section
variable {classify : Char → Option τ} {significant : Char → Bool}

/-- The token number `k` stands at the symbol number `k`. -/
theorem placed_getElem? (agrees : ∀ c, (classify c).isSome = significant c) {token : Token τ}
    {text : List Char} :
    ∀ (before : List Char) {k : Nat}, (placed classify (byteSize before) text)[k]? = some token →
      BeginsAt significant (before ++ text) (before.countP significant + k) token.span.start
        ∧ EndsAt significant (before ++ text) (before.countP significant + k)
            token.span.stop := by
  induction text with
  | nil =>
    intro before k found
    cases found
  | cons c cs ih =>
    intro before k found
    have size : byteSize before + c.utf8Size = byteSize (before ++ [c]) := by simp
    have whole : before ++ c :: cs = before ++ [c] ++ cs := by simp
    have counted : (before ++ [c]).countP significant
        = before.countP significant + if significant c then 1 else 0 := by
      rw [List.countP_append, List.countP_singleton]
    unfold placed at found
    rw [size] at found
    cases meaning : classify c with
    | none =>
      have comment : significant c = false := by rw [← agrees, meaning]; rfl
      rw [meaning] at found
      rw [comment] at counted
      obtain ⟨begins, ends⟩ := ih _ found
      rw [counted, ← whole] at begins ends
      exact ⟨begins, ends⟩
    | some symbol =>
      have symbolic : significant c = true := by rw [← agrees, meaning]; rfl
      rw [meaning] at found
      cases k with
      | zero =>
        cases found
        exact ⟨⟨before, c, cs, rfl, symbolic, rfl, rfl⟩, ⟨before, c, cs, rfl, symbolic, rfl, rfl⟩⟩
      | succ k =>
        obtain ⟨begins, ends⟩ := ih _ found
        rw [counted, symbolic, if_pos rfl, ← whole, Nat.add_assoc, Nat.add_comm 1] at begins ends
        exact ⟨begins, ends⟩

theorem tokens_getElem? (agrees : ∀ c, (classify c).isSome = significant c) {source : String}
    {k : Nat} {token : Token τ} (found : (tokens classify source)[k]? = some token) :
    BeginsAt significant source.toList k token.span.start
      ∧ EndsAt significant source.toList k token.span.stop := by
  rw [tokens_eq_placed] at found
  have placement := placed_getElem? agrees [] found
  simpa using placement

/-- **The tokens of texts with the same symbols are aligned**, each with the one of the
same number. -/
theorem aligned_tokens (agrees : ∀ c, (classify c).isSome = significant c)
    {source source' : String}
    (same : source.toList.filterMap classify = source'.toList.filterMap classify) :
    List.Forall₂ (TextAlignment.bySymbols significant source.toList source'.toList).Tokens
      (tokens classify source) (tokens classify source') := by
  have symbols : (tokens classify source).map Token.symbol
      = (tokens classify source').map Token.symbol := by
    rw [map_symbol_tokens, map_symbol_tokens, same]
  have lengths := congrArg List.length symbols
  rw [List.length_map, List.length_map] at lengths
  refine List.forall₂_iff_get.mpr ⟨lengths, ?_⟩
  intro k lt lt'
  obtain ⟨begins, ends⟩ := tokens_getElem? agrees (List.getElem?_eq_getElem lt)
  obtain ⟨begins', ends'⟩ := tokens_getElem? agrees (List.getElem?_eq_getElem lt')
  have symbol : ((tokens classify source).map Token.symbol)[k]?
      = ((tokens classify source').map Token.symbol)[k]? := by rw [symbols]
  rw [List.getElem?_map, List.getElem?_map, List.getElem?_eq_getElem lt,
    List.getElem?_eq_getElem lt'] at symbol
  exact ⟨Option.some.inj symbol, ⟨k, begins, begins'⟩, ⟨k, ends, ends'⟩⟩

end

end Esolang.Source
