/-
  Esolang.Proofs.Whitespace.Grammar
  ─────────────────────────────────
  **THE GRAMMAR OF WHITESPACE.**

  Symbols are cut into PHRASES, one behind the other: the path of a command, with
  a number and a newline behind it if the command takes one, or the least number
  of symbols that begin no path.  Only the last phrase may break off inside a
  command.

    • `paths_represents` — the trie of the paths is the table of the paths,
    • `next?_of_reads` — whatever follows a phrase, the decoder reads the phrase
      and leaves what follows,
    • `exists_cut` — every sequence of symbols is cut into phrases,
    • `decodeAll_scan` — what is decoded from a source text are the phrases of its
      symbols, each with its span, and no other way to cut them exists.
-/
import Esolang.Proofs.Source.Placement
import Esolang.Proofs.Whitespace.Trie
import Esolang.Whitespace.Decoder
import Mathlib.Data.List.Pairwise

namespace Esolang.Whitespace

open Esolang.Source (Span Token InOrder extent)

/-! ## §1. The table. -/

/-- No path begins another. -/
theorem paths_apart :
    (table.map Entry.path).Pairwise fun p q => ¬ p <+: q ∧ ¬ q <+: p := by
  decide

/-- An entry is known by any path that its own path begins. -/
theorem entry_eq_of_prefix {e f : Entry} (he : e ∈ table) (hf : f ∈ table)
    (begins : e.path <+: f.path) : e = f := by
  have apart : table.Pairwise fun e f => ¬ e.path <+: f.path ∧ ¬ f.path <+: e.path :=
    List.pairwise_map.mp paths_apart
  -- Of two different entries, in either order, neither path begins the other.
  have same : ∀ e ∈ table, ∀ f ∈ table, e.path <+: f.path → e = f := by
    intro e he f hf
    exact List.Pairwise.forall_of_forall_of_flip (R := fun e f => e.path <+: f.path → e = f)
      (fun _ _ _ => rfl)
      (apart.imp fun h begins => absurd begins h.1)
      (apart.imp fun h begins => absurd begins h.2) he hf
  exact same e he f hf begins

/-- No command has the empty path, so every command takes a symbol. -/
theorem path_ne_nil {e : Entry} (he : e ∈ table) : e.path ≠ [] := by
  have all : ∀ e ∈ table, e.path ≠ [] := by decide
  exact all e he

/-- **The trie of the paths is their table.** -/
theorem paths_represents : paths.Represents table :=
  Trie.represents_ofEntries (paths_apart.imp fun {p q} apart (eq : p = q) =>
    apart.1 (eq ▸ List.prefix_rfl))

/-! ## §2. Phrases. -/

/-- Symbols that begin a path and do not complete it. -/
def Unfinished (symbols : List Symbol) : Prop :=
  ∃ e ∈ table, symbols <+: e.path ∧ symbols ≠ e.path

/-- What a command that takes a number is read as, given the symbols of its number. -/
def withNumber (make : Int64 → Command) (digits : List Symbol) : Except DecodeFault Command :=
  match readNumber (Symbol.letters digits) with
  | .ok n => .ok (make n)
  | .error fault => .error (.number fault)

/-- What the symbols of a phrase are read as. -/
inductive Reads : List Symbol → Except DecodeFault Command → Prop where
  /-- The path of a command. -/
  | bare {path : List Symbol} {command : Command} (entry : ⟨path, .bare command⟩ ∈ table) :
      Reads path (.ok command)
  /-- The path of a command that takes a number, the digits of one, and a newline. -/
  | numbered {path digits : List Symbol} {make : Int64 → Command}
      (entry : ⟨path, .numbered make⟩ ∈ table) (noLine : .line ∉ digits) :
      Reads (path ++ digits ++ [.line]) (withNumber make digits)
  /-- The least number of symbols that begin no path. -/
  | unknown {symbols : List Symbol} (deadEnd : ∀ e ∈ table, ¬ symbols <+: e.path)
      (least : ∀ shorter, shorter <+: symbols → shorter ≠ symbols → Unfinished shorter) :
      Reads symbols (.error (.unknown (Symbol.letters symbols)))

/-- The symbols break off inside a command. -/
inductive BreaksOff : List Symbol → Prop where
  /-- Inside its path. -/
  | path {symbols : List Symbol} (ne : symbols ≠ []) (unfinished : Unfinished symbols) :
      BreaksOff symbols
  /-- Before the newline that ends its number. -/
  | number {path digits : List Symbol} {make : Int64 → Command}
      (entry : ⟨path, .numbered make⟩ ∈ table) (noLine : .line ∉ digits) :
      BreaksOff (path ++ digits)

/-- Symbols of a text, and what they are read as. -/
structure Phrase where
  /-- The symbols with their spans. -/
  tokens : List (Token Symbol)
  /-- The command, or why there is none. -/
  content : Except DecodeFault Command

/-- The symbols without their spans. -/
def Phrase.symbols (p : Phrase) : List Symbol :=
  p.tokens.map Token.symbol

/-- The symbols of a text are cut into phrases. -/
inductive Cut : List (Token Symbol) → List Phrase → Prop where
  | done : Cut [] []
  | phrase {p : Phrase} {rest : List (Token Symbol)} {ps : List Phrase}
      (reads : Reads p.symbols p.content) (more : Cut rest ps) : Cut (p.tokens ++ rest) (p :: ps)
  /-- The last phrase may break off. -/
  | brokenOff {tokens : List (Token Symbol)} (breaks : BreaksOff (tokens.map Token.symbol)) :
      Cut tokens [⟨tokens, .error (.incomplete (Symbol.letters (tokens.map Token.symbol)))⟩]

/-- What begins an unfinished text is unfinished too. -/
theorem Unfinished.of_prefix {shorter symbols : List Symbol} (begins : shorter <+: symbols)
    (h : Unfinished symbols) : Unfinished shorter := by
  obtain ⟨e, he, prefix_path, ne⟩ := h
  refine ⟨e, he, begins.trans prefix_path, ?_⟩
  rintro rfl
  exact ne (prefix_path.eq_of_length_le begins.length_le)

/-- Before its first symbol every command is unfinished. -/
theorem unfinished_nil : Unfinished [] := by
  have mem : (⟨[.space, .space], .numbered .push⟩ : Entry) ∈ table := List.mem_cons_self
  exact ⟨_, mem, List.nil_prefix, nofun⟩

/-- What comes before the last symbol of a path is unfinished. -/
theorem unfinished_of_concat {e : Entry} (he : e ∈ table) {before : List Symbol} {last : Symbol}
    (path : e.path = before ++ [last]) : Unfinished before := by
  refine ⟨e, he, ?_, ?_⟩
  · rw [path]
    exact List.prefix_append before [last]
  · rw [path]
    simp

/-- No entry has a path that is unfinished. -/
theorem Unfinished.not_mem {symbols : List Symbol} (h : Unfinished symbols) (shape : Shape) :
    ⟨symbols, shape⟩ ∉ table := by
  obtain ⟨e, he, begins, ne⟩ := h
  intro mem
  have same := entry_eq_of_prefix mem he begins
  exact ne (congrArg Entry.path same)

/-- What reads as a command has a symbol. -/
theorem Reads.ne_nil {symbols : List Symbol} {content : Except DecodeFault Command}
    (h : Reads symbols content) : symbols ≠ [] := by
  cases h with
  | bare entry => exact path_ne_nil entry
  | numbered entry noLine => simp
  | unknown deadEnd least =>
    rintro rfl
    obtain ⟨e, he, -⟩ := unfinished_nil
    exact deadEnd e he List.nil_prefix

/-- What breaks off has a symbol. -/
theorem BreaksOff.ne_nil {symbols : List Symbol} (h : BreaksOff symbols) : symbols ≠ [] := by
  cases h with
  | path ne unfinished => exact ne
  | number entry noLine => simp [path_ne_nil entry]

theorem Reads.tokens_ne_nil {tokens : List (Token Symbol)} {content : Except DecodeFault Command}
    (h : Reads (tokens.map Token.symbol) content) : tokens ≠ [] :=
  mt List.map_eq_nil_iff.mpr h.ne_nil

theorem BreaksOff.tokens_ne_nil {tokens : List (Token Symbol)}
    (h : BreaksOff (tokens.map Token.symbol)) : tokens ≠ [] :=
  mt List.map_eq_nil_iff.mpr h.ne_nil

/-! ## §3. The decoder reads phrases. -/

namespace Block

/-- Reads several symbols. -/
def addAll (block : Block) (tokens : List (Token Symbol)) : Block :=
  tokens.foldl add block

/-- Tokens are added one by one, the first first. -/
theorem addAll_cons (block : Block) (token : Token Symbol) (tokens : List (Token Symbol)) :
    block.addAll (token :: tokens) = (block.add token).addAll tokens := rfl

/-- The last token is added last. -/
theorem addAll_concat (block : Block) (tokens : List (Token Symbol)) (token : Token Symbol) :
    block.addAll (tokens ++ [token]) = (block.addAll tokens).add token := by
  unfold addAll
  rw [List.foldl_append]
  rfl

/-- Tokens are added in portions or at once. -/
theorem addAll_append (block : Block) (ts us : List (Token Symbol)) :
    block.addAll (ts ++ us) = (block.addAll ts).addAll us :=
  List.foldl_append

/-- A block keeps the symbols of its tokens, the last first. -/
theorem seen_addAll (tokens : List (Token Symbol)) :
    ∀ block : Block,
      (block.addAll tokens).seen = (tokens.map Token.symbol).reverse ++ block.seen := by
  induction tokens with
  | nil => intro block; rfl
  | cons token tokens ih =>
    intro block
    rw [addAll_cons, ih]
    simp [add]

/-- The span of a block grows by the spans of its tokens. -/
theorem span_addAll (tokens : List (Token Symbol)) :
    ∀ block : Block, (block.addAll tokens).span
      = tokens.foldl (fun span token => span.merge token.span) block.span := by
  induction tokens with
  | nil => intro block; rfl
  | cons token tokens ih =>
    intro block
    rw [addAll_cons, ih]
    rfl

/-- The letters of a block that begins with these symbols. -/
theorem letters_addAll {block : Block} (fresh : block.seen = []) (tokens : List (Token Symbol)) :
    (block.addAll tokens).letters = Symbol.letters (tokens.map Token.symbol) := by
  unfold letters
  rw [seen_addAll, fresh]
  simp

/-- A block that begins at its first symbol reaches from it to the last. -/
theorem span_addAll_first {first : Token Symbol} {tokens : List (Token Symbol)}
    (order : InOrder (first :: tokens)) :
    ((⟨[], first.span⟩ : Block).addAll (first :: tokens)).span = extent (first :: tokens) := by
  have self : first.span.merge first.span = first.span := by
    simp [Span.merge]
  rw [span_addAll, List.foldl_cons, self, Source.foldl_merge first tokens order]

end Block

section
variable {seen : List Symbol} {node next : Nat} {block : Block} {token : Token Symbol}
  {rest : List (Token Symbol)}

/-- What begins the path of an entry leads to a node. -/
theorem exists_node {e : Entry} (he : e ∈ table) (begins : seen <+: e.path) :
    ∃ node, paths.node? seen = some node :=
  Option.isSome_iff_exists.mp ((paths_represents.begins seen).mpr (.inr ⟨e, he, begins⟩))

/-- What the node of some symbols stands for is what their entry says. -/
theorem shape?_paths {shape : Shape} (here : paths.node? seen = some node) :
    paths.shape? node = some shape ↔ ⟨seen, shape⟩ ∈ table := by
  rw [← paths_represents.complete, Trie.shape?_of_node? here]

/-- A symbol behind which no path goes on makes what was read unknown. -/
theorem decodePath_deadEnd (here : paths.node? seen = some node)
    (deadEnd : ∀ e ∈ table, ¬ seen ++ [token.symbol] <+: e.path) :
    decodePath paths node block (token :: rest)
      = ⟨.error (.unknown (block.add token).letters), (block.add token).span, rest⟩ := by
  have no_node : paths.node? (seen ++ [token.symbol]) = none := by
    rw [← Option.not_isSome_iff_eq_none, paths_represents.begins]
    rintro (empty | ⟨e, he, begins⟩)
    · simp at empty
    · exact deadEnd e he begins
  simp only [decodePath, Trie.child?_of_node? here, no_node]

/-- As long as a path goes on, the decoder looks whether it is complete. -/
theorem decodePath_path (here : paths.node? seen = some node)
    (there : paths.node? (seen ++ [token.symbol]) = some next) :
    decodePath paths node block (token :: rest)
      = match paths.shape? next with
        | some (.bare command) => ⟨.ok command, (block.add token).span, rest⟩
        | some (.numbered make) => decodeNumber make (block.add token) [] rest
        | none => decodePath paths next (block.add token) rest := by
  rcases shape : paths.shape? next with - | command | make <;>
    simp only [decodePath, Trie.child?_of_node? here, there, shape]

/-- A symbol that completes a command without a number ends the reading. -/
theorem decodePath_bare {command : Command} (here : paths.node? seen = some node)
    (entry : ⟨seen ++ [token.symbol], .bare command⟩ ∈ table) :
    decodePath paths node block (token :: rest)
      = ⟨.ok command, (block.add token).span, rest⟩ := by
  obtain ⟨next, there⟩ := exists_node entry List.prefix_rfl
  rw [decodePath_path here there, (shape?_paths there).mpr entry]

/-- A symbol that completes a command with a number is followed by the number. -/
theorem decodePath_numbered {make : Int64 → Command} (here : paths.node? seen = some node)
    (entry : ⟨seen ++ [token.symbol], .numbered make⟩ ∈ table) :
    decodePath paths node block (token :: rest)
      = decodeNumber make (block.add token) [] rest := by
  obtain ⟨next, there⟩ := exists_node entry List.prefix_rfl
  rw [decodePath_path here there, (shape?_paths there).mpr entry]

/-- A path that is not complete takes the decoder to the next node. -/
theorem decodePath_unfinished (here : paths.node? seen = some node)
    (unfinished : Unfinished (seen ++ [token.symbol])) :
    ∃ next, paths.node? (seen ++ [token.symbol]) = some next
      ∧ decodePath paths node block (token :: rest)
          = decodePath paths next (block.add token) rest := by
  obtain ⟨e, he, begins, -⟩ := id unfinished
  obtain ⟨next, there⟩ := exists_node he begins
  refine ⟨next, there, ?_⟩
  have incomplete : paths.shape? next = none := by
    cases found : paths.shape? next with
    | none => rfl
    | some shape => exact absurd ((shape?_paths there).mp found) (unfinished.not_mem shape)
  rw [decodePath_path here there, incomplete]

end

/-- The decoder goes through symbols that complete no path. -/
theorem decodePath_through (tokens : List (Token Symbol)) (rest : List (Token Symbol)) :
    ∀ (seen : List Symbol) (node : Nat) (block : Block), paths.node? seen = some node →
      Unfinished (seen ++ tokens.map Token.symbol) →
      ∃ next, paths.node? (seen ++ tokens.map Token.symbol) = some next
        ∧ decodePath paths node block (tokens ++ rest)
            = decodePath paths next (block.addAll tokens) rest := by
  induction tokens with
  | nil =>
    intro seen node block here _
    exact ⟨node, by simpa using here, rfl⟩
  | cons token tokens ih =>
    intro seen node block here unfinished
    rw [List.map_cons, List.append_cons] at unfinished ⊢
    have first : Unfinished (seen ++ [token.symbol]) :=
      unfinished.of_prefix (List.prefix_append _ _)
    obtain ⟨next, there, step⟩ : ∃ next, paths.node? (seen ++ [token.symbol]) = some next
        ∧ decodePath paths node block (token :: (tokens ++ rest))
            = decodePath paths next (block.add token) (tokens ++ rest) :=
      decodePath_unfinished here first
    obtain ⟨last, at_last, steps⟩ := ih _ next (block.add token) there unfinished
    refine ⟨last, at_last, ?_⟩
    rw [Block.addAll_cons, ← steps, ← step]
    rfl

/-- The decoder goes through the digits of a number. -/
theorem decodeNumber_through (make : Int64 → Command) (digits : List (Token Symbol))
    (rest : List (Token Symbol)) :
    ∀ (block : Block) (before : List Symbol), .line ∉ digits.map Token.symbol →
      decodeNumber make block before (digits ++ rest)
        = decodeNumber make (block.addAll digits)
            ((digits.map Token.symbol).reverse ++ before) rest := by
  induction digits with
  | nil => intro block before _; rfl
  | cons digit digits ih =>
    intro block before noLine
    rw [List.map_cons, List.mem_cons, not_or] at noLine
    obtain ⟨not_line, noLine⟩ := noLine
    show decodeNumber make block before (digit :: (digits ++ rest)) = _
    rw [decodeNumber]
    simp only [Ne.symm not_line, if_false]
    rw [ih _ _ noLine, Block.addAll_cons]
    simp

/-- A newline ends a number. -/
theorem decodeNumber_line (make : Int64 → Command) (block : Block) (digits : List Symbol)
    {token : Token Symbol} (line : token.symbol = .line) (rest : List (Token Symbol)) :
    decodeNumber make block digits.reverse (token :: rest)
      = ⟨withNumber make digits, (block.add token).span, rest⟩ := by
  rw [decodeNumber]
  simp only [line, if_true, List.reverse_reverse, withNumber]
  cases readNumber (Symbol.letters digits) <;> rfl

/-- Symbols that begin a path leave a decoder inside that path. -/
theorem decodePath_before {before : List (Token Symbol)}
    (unfinished : Unfinished (before.map Token.symbol)) (block : Block)
    (rest : List (Token Symbol)) :
    ∃ node, paths.node? (before.map Token.symbol) = some node
      ∧ decodePath paths Trie.root block (before ++ rest)
          = decodePath paths node (block.addAll before) rest :=
  decodePath_through before rest [] Trie.root block rfl unfinished

/-- The last of some symbols that are not none. -/
theorem exists_concat {tokens : List (Token Symbol)} (ne : tokens.map Token.symbol ≠ []) :
    ∃ before last, tokens = before ++ [last] := by
  rcases List.eq_nil_or_concat tokens with rfl | ⟨before, last, rfl⟩
  · exact absurd rfl ne
  · exact ⟨before, last, List.concat_eq_append⟩

/-- The decoder goes through the path of a command that takes a number. -/
theorem decodePath_to_number {path : List (Token Symbol)} {make : Int64 → Command}
    (entry : ⟨path.map Token.symbol, .numbered make⟩ ∈ table) (block : Block)
    (rest : List (Token Symbol)) :
    decodePath paths Trie.root block (path ++ rest)
      = decodeNumber make (block.addAll path) [] rest := by
  obtain ⟨before, last, rfl⟩ := exists_concat (path_ne_nil entry)
  rw [List.map_append] at entry
  obtain ⟨node, here, through⟩ :=
    decodePath_before (unfinished_of_concat entry rfl) block ([last] ++ rest)
  rw [List.append_assoc, through, Block.addAll_concat]
  exact decodePath_numbered here entry

/-- **Whatever follows a phrase, the decoder reads the phrase and leaves what follows.** -/
theorem decodePath_of_reads {tokens : List (Token Symbol)} {content : Except DecodeFault Command}
    (reads : Reads (tokens.map Token.symbol) content) {block : Block} (fresh : block.seen = [])
    (rest : List (Token Symbol)) :
    decodePath paths Trie.root block (tokens ++ rest)
      = ⟨content, (block.addAll tokens).span, rest⟩ := by
  have ne := reads.ne_nil
  generalize written : tokens.map Token.symbol = symbols at reads ne
  cases reads with
  | @bare _ command entry =>
    obtain ⟨before, last, rfl⟩ := exists_concat (by rw [written]; exact ne)
    rw [List.map_append] at written
    subst written
    obtain ⟨node, here, through⟩ :=
      decodePath_before (unfinished_of_concat entry rfl) block ([last] ++ rest)
    rw [List.append_assoc, through, Block.addAll_concat]
    exact decodePath_bare here entry
  | @numbered path digits make entry noLine =>
    -- The symbols fall into the path, the digits and the newline.
    obtain ⟨before, ending, rfl, hbefore, hline⟩ := List.map_eq_append_iff.mp written
    obtain ⟨pathTokens, digitTokens, rfl, hpath, hdigits⟩ := List.map_eq_append_iff.mp hbefore
    obtain ⟨line, rfl, line_symbol⟩ := List.map_eq_singleton_iff.mp hline
    subst hpath hdigits
    rw [List.append_assoc, List.append_assoc, decodePath_to_number entry,
      decodeNumber_through make digitTokens _ _ _ noLine, List.append_nil]
    show decodeNumber make _ _ (line :: rest) = _
    rw [decodeNumber_line make _ _ line_symbol, Block.addAll_concat, Block.addAll_append]
  | unknown deadEnd least =>
    obtain ⟨before, last, rfl⟩ := exists_concat (by rw [written]; exact ne)
    rw [List.map_append] at written
    subst written
    have unfinished : Unfinished (before.map Token.symbol) :=
      least _ (List.prefix_append _ _) (by simp)
    obtain ⟨node, here, through⟩ := decodePath_before unfinished block ([last] ++ rest)
    rw [List.append_assoc, through]
    show decodePath _ _ _ (last :: rest) = _
    rw [decodePath_deadEnd here deadEnd, ← Block.addAll_concat, Block.letters_addAll fresh,
      List.map_append]

/-- What breaks off is read to its end, and found incomplete. -/
theorem decodePath_of_breaksOff {tokens : List (Token Symbol)}
    (breaks : BreaksOff (tokens.map Token.symbol)) {block : Block} (fresh : block.seen = []) :
    decodePath paths Trie.root block tokens
      = ⟨.error (.incomplete (Symbol.letters (tokens.map Token.symbol))),
          (block.addAll tokens).span, []⟩ := by
  rw [← Block.letters_addAll fresh]
  generalize written : tokens.map Token.symbol = symbols at breaks
  cases breaks with
  | path ne unfinished =>
    subst written
    obtain ⟨node, -, through⟩ := decodePath_before unfinished block []
    rw [List.append_nil] at through
    rw [through]
    rfl
  | @number path digits make entry noLine =>
    obtain ⟨pathTokens, digitTokens, rfl, hpath, hdigits⟩ := List.map_eq_append_iff.mp written
    subst hpath hdigits
    have through := decodeNumber_through make digitTokens [] (block.addAll pathTokens) [] noLine
    rw [List.append_nil] at through
    rw [decodePath_to_number entry, through, Block.addAll_append]
    rfl

/-- Symbols that read as a command are the next item, whatever stands behind them. -/
theorem next?_of_reads {tokens : List (Token Symbol)} {content : Except DecodeFault Command}
    (reads : Reads (tokens.map Token.symbol) content) (order : InOrder tokens)
    (rest : List (Token Symbol)) :
    next? (tokens ++ rest) = some ⟨content, extent tokens, rest⟩ := by
  cases tokens with
  | nil => exact absurd rfl reads.ne_nil
  | cons first tokens =>
    show some (decodePath paths Trie.root ⟨[], first.span⟩ (first :: tokens ++ rest)) = _
    rw [decodePath_of_reads reads rfl, Block.span_addAll_first order]

/-- Symbols that break off are the last item. -/
theorem next?_of_breaksOff {tokens : List (Token Symbol)}
    (breaks : BreaksOff (tokens.map Token.symbol)) (order : InOrder tokens) :
    next? tokens
      = some ⟨.error (.incomplete (Symbol.letters (tokens.map Token.symbol))), extent tokens,
          []⟩ := by
  cases tokens with
  | nil => exact absurd rfl breaks.ne_nil
  | cons first tokens =>
    show some (decodePath paths Trie.root ⟨[], first.span⟩ (first :: tokens)) = _
    rw [decodePath_of_breaksOff breaks rfl, Block.span_addAll_first order]

/-! ## §4. All symbols are cut into phrases. -/

/-- From inside a path, or from its beginning, the symbols that follow come to the end of
a phrase or break off. -/
theorem reads_or_breaksOff (symbols : List Symbol) :
    ∀ seen, Unfinished seen → seen ++ symbols ≠ [] →
      BreaksOff (seen ++ symbols)
        ∨ ∃ taken left content, symbols = taken ++ left ∧ Reads (seen ++ taken) content := by
  induction symbols with
  | nil =>
    intro seen unfinished ne
    rw [List.append_nil] at ne ⊢
    exact .inl (.path ne unfinished)
  | cons symbol symbols ih =>
    intro seen unfinished _
    by_cases begins : ∃ e ∈ table, seen ++ [symbol] <+: e.path
    · obtain ⟨⟨path, shape⟩, he, begins⟩ := begins
      by_cases whole : seen ++ [symbol] = path
      · subst whole
        cases shape with
        | bare command => exact .inr ⟨[symbol], symbols, _, rfl, .bare he⟩
        | numbered make =>
          -- A number goes up to the next newline, if there is one.
          by_cases ends : Symbol.line ∈ symbols
          · obtain ⟨digits, left, rfl, noLine⟩ := List.eq_append_cons_of_mem ends
            refine .inr ⟨symbol :: (digits ++ [.line]), left, withNumber make digits, by simp, ?_⟩
            have reads := Reads.numbered he noLine
            simpa using reads
          · refine .inl ?_
            have breaks := BreaksOff.number he ends
            simpa using breaks
      · -- The path is longer: what has been read is still unfinished.
        have unfinished' : Unfinished (seen ++ [symbol]) := ⟨_, he, begins, whole⟩
        rcases ih _ unfinished' (by simp) with breaks | ⟨taken, left, content, rfl, reads⟩
        · exact .inl (by simpa using breaks)
        · exact .inr ⟨symbol :: taken, left, content, rfl, by simpa using reads⟩
    · refine .inr ⟨[symbol], symbols, _, rfl, .unknown ?_ ?_⟩
      · intro e he prefix_path
        exact begins ⟨e, he, prefix_path⟩
      · intro shorter prefix_seen ne
        rcases List.prefix_concat_iff.mp prefix_seen with eq | prefix_seen
        · exact absurd eq ne
        · exact unfinished.of_prefix prefix_seen

/-- **What tokens begin with**: a phrase, unless there are none or they break off. -/
theorem eq_nil_or_breaksOff_or_reads (tokens : List (Token Symbol)) :
    tokens = [] ∨ BreaksOff (tokens.map Token.symbol)
      ∨ ∃ phrase rest content, tokens = phrase ++ rest
          ∧ Reads (phrase.map Token.symbol) content := by
  by_cases none_left : tokens = []
  · exact .inl none_left
  · have ne : [] ++ tokens.map Token.symbol ≠ [] := by simpa using none_left
    rcases reads_or_breaksOff _ [] unfinished_nil ne with breaks | ⟨taken, left, content, eq, reads⟩
    · exact .inr (.inl breaks)
    · obtain ⟨phrase, rest, rfl, rfl, rfl⟩ := List.map_eq_append_iff.mp eq
      exact .inr (.inr ⟨phrase, rest, content, rfl, reads⟩)

/-- **Every sequence of symbols is cut into phrases.** -/
theorem exists_cut (tokens : List (Token Symbol)) : ∃ ps, Cut tokens ps := by
  rcases eq_nil_or_breaksOff_or_reads tokens with
    rfl | breaks | ⟨first, rest, content, rfl, reads⟩
  · exact ⟨[], .done⟩
  · exact ⟨_, .brokenOff breaks⟩
  · -- The first phrase is not empty, so fewer symbols are left.
    have shorter : rest.length < (first ++ rest).length := by
      have := List.length_pos_iff.mpr reads.tokens_ne_nil
      rw [List.length_append]
      omega
    obtain ⟨ps, more⟩ := exists_cut rest
    exact ⟨_, Cut.phrase (p := ⟨first, content⟩) reads more⟩
termination_by tokens.length

/-! ## §5. What is decoded from a source text. -/

/-- All items are the next one and the items of what it leaves. -/
theorem decodeAll_eq (symbols : List (Token Symbol)) :
    decodeAll symbols = match next? symbols with
      | none => []
      | some item => item :: decodeAll item.rest := by
  rw [decodeAll]
  split
  · next h => rw [h]
  · next h => rw [h]

/-- Nothing is left where nothing is written. -/
theorem decodeAll_nil : decodeAll [] = [] := by
  rw [decodeAll_eq]
  rfl

/-- Where there is a next item it is the first of all. -/
theorem decodeAll_of_next? {symbols : List (Token Symbol)} {item : Item}
    (h : next? symbols = some item) : decodeAll symbols = item :: decodeAll item.rest := by
  rw [decodeAll_eq, h]

/-- The decoder yields the phrases that the symbols are cut into. -/
theorem map_decodeAll {tokens : List (Token Symbol)} {ps : List Phrase} (cut : Cut tokens ps) :
    InOrder tokens →
      (decodeAll tokens).map (fun item => (item.content, item.span))
        = ps.map fun p => (p.content, extent p.tokens) := by
  induction cut with
  | done =>
    intro _
    rw [decodeAll_nil]
    rfl
  | @phrase p rest ps reads more ih =>
    intro order
    rw [decodeAll_of_next? (next?_of_reads reads order.append_left rest), List.map_cons,
      List.map_cons, ih order.append_right]
  | brokenOff breaks =>
    intro order
    rw [decodeAll_of_next? (next?_of_breaksOff breaks order), List.map_cons, decodeAll_nil]
    rfl

/-- What the decoder reads first is the first phrase, however the symbols are cut. -/
theorem Cut.next? {tokens : List (Token Symbol)} {ps : List Phrase} (cut : Cut tokens ps)
    (order : InOrder tokens) :
    (tokens = [] ∧ ps = [])
      ∨ ∃ p rest more, tokens = p.tokens ++ rest ∧ ps = p :: more ∧ Cut rest more
          ∧ Whitespace.next? tokens = some ⟨p.content, extent p.tokens, rest⟩ := by
  cases cut with
  | done => exact .inl ⟨rfl, rfl⟩
  | @phrase p rest ps reads more =>
    exact .inr ⟨p, rest, ps, rfl, rfl, more, next?_of_reads reads order.append_left rest⟩
  | brokenOff breaks =>
    exact .inr ⟨_, [], [], by simp, rfl, .done, next?_of_breaksOff breaks order⟩

/-- **Symbols are cut into phrases in one way only.** -/
theorem Cut.unique {ps : List Phrase} :
    ∀ {tokens : List (Token Symbol)} {qs : List Phrase}, InOrder tokens →
      Cut tokens ps → Cut tokens qs → ps = qs := by
  induction ps with
  | nil =>
    intro tokens qs order cut other
    have none_left : tokens = [] := by
      cases cut
      rfl
    subst none_left
    rcases other.next? order with ⟨-, rfl⟩ | ⟨p, rest, more, -, -, -, item⟩
    · rfl
    · cases item
  | cons p ps ih =>
    intro tokens qs order cut other
    rcases cut.next? order with ⟨-, empty⟩ | ⟨_, rest, _, eq, rfl_ps, more, item⟩
    · cases empty
    · cases rfl_ps
      rcases other.next? order with ⟨empty, -⟩ | ⟨q, rest', qs', eq', rfl, more', item'⟩
      · rw [empty] at item
        cases item
      · -- The decoder gives the same item, so what is left and what is read agree.
        rw [item] at item'
        obtain ⟨content, -, left⟩ : p.content = q.content ∧ extent p.tokens = extent q.tokens
            ∧ rest = rest' := by
          simpa using item'
        subst left
        have read : p.tokens = q.tokens := by
          rw [eq] at eq'
          exact List.append_cancel_right eq'
        have order' : InOrder rest := by
          rw [eq] at order
          exact order.append_right
        have same : p = q := by
          cases p
          cases q
          exact congrArg₂ Phrase.mk read content
        rw [same, ih order' more more']

/-- Phrases that are cut from tokens are the tokens, one behind the other. -/
theorem Cut.flatMap_tokens {tokens : List (Token Symbol)} {ps : List Phrase}
    (cut : Cut tokens ps) : ps.flatMap Phrase.tokens = tokens := by
  induction cut with
  | done => rfl
  | phrase reads more ih => rw [List.flatMap_cons, ih]
  | brokenOff breaks => simp

/-- No phrase is empty. -/
theorem Cut.ne_nil {tokens : List (Token Symbol)} {ps : List Phrase} (cut : Cut tokens ps) :
    ∀ p ∈ ps, p.tokens ≠ [] := by
  induction cut with
  | done => nofun
  | @phrase p rest ps reads more ih =>
    exact List.forall_mem_cons.mpr ⟨reads.tokens_ne_nil, ih⟩
  | brokenOff breaks => exact List.forall_mem_singleton.mpr breaks.tokens_ne_nil

/-- **What is decoded from a source text are the phrases of its symbols**: the symbols
are cut into phrases in exactly one way, nothing is lost and no phrase is empty, and the
items that the decoder yields are what the phrases are read as, each with the span from
the first byte of its first symbol to the last byte of its last.  The trie that it goes
through is the table of the paths, by which the phrases are cut. -/
theorem decodeAll_scan (source : String) :
    paths.Represents table ∧ ∃ phrases, Cut (scan source) phrases
      ∧ (∀ others, Cut (scan source) others → others = phrases)
      ∧ phrases.flatMap Phrase.tokens = scan source
      ∧ (∀ p ∈ phrases, p.tokens ≠ [])
      ∧ (decodeAll (scan source)).map (fun item => (item.content, item.span))
          = phrases.map (fun p => (p.content, extent p.tokens))
      ∧ (scan source).map Token.symbol = source.toList.filterMap Symbol.ofChar?
      ∧ ∀ t ∈ scan source, t.StandsIn Symbol.ofChar? source.toList := by
  have order : InOrder (scan source) := Source.inOrder_tokens _ _
  obtain ⟨phrases, cut⟩ := exists_cut (scan source)
  refine ⟨paths_represents, phrases, cut, ?_, cut.flatMap_tokens, cut.ne_nil,
    map_decodeAll cut order, ?_, ?_⟩
  · intro others other
    exact other.unique order cut
  · exact Source.map_symbol_tokens _ _
  · intro t mem
    exact Source.standsIn_of_mem_tokens mem

end Esolang.Whitespace
