/-
  Esolang.Proofs.Brainfuck.Block
  ──────────────────────────────
  **BRAINFUCK AS A TREE OF LOOPS.**

  A block is a sequence of actions and loops, and the body of a loop is a block
  again.  Written out, a block is a list of instructions; a list of instructions
  is read back from its end, where every loop that is open is known to be closed.

    • `Block.exists_ofTokens?` — instructions with balanced brackets are a block,
    • `Block.tokens_of_ofTokens?` — which is written out as these instructions,
    • `Block.pair_tokens` — pairing the brackets of a block joins the two ends of
      each of its loops and nothing else,
    • `Block.liesAt_zero` — so the program that is read from a block has the block
      in its code, and the loops of the block in its pairing.
-/
import Esolang.Proofs.Loop.Nesting
import Esolang.Brainfuck.Program

namespace Esolang.Brainfuck

open Esolang.Source (Span Token)
open Esolang.Loop (Bracket Pairing Balanced)

/-! ## §1. Actions. -/

/-- An instruction that is no end of a loop. -/
inductive Action where
  | right
  | left
  | increment
  | decrement
  | output
  | input
  deriving DecidableEq, Repr

/-- The action as an instruction. -/
def Action.instr : Action → Instr
  | .right => .right
  | .left => .left
  | .increment => .increment
  | .decrement => .decrement
  | .output => .output
  | .input => .input

/-- The instruction as an action, unless it is an end of a loop. -/
def Instr.action? : Instr → Option Action
  | .right => some .right
  | .left => some .left
  | .increment => some .increment
  | .decrement => some .decrement
  | .output => some .output
  | .input => some .input
  | .loopOpen => none
  | .loopClose => none

@[simp] theorem Action.bracket?_instr (action : Action) : action.instr.bracket? = none := by
  cases action <;> rfl

/-- An instruction is an action or an end of a loop. -/
theorem Instr.cases_kind (instr : Instr) :
    (∃ action : Action, instr = action.instr) ∨ instr = .loopOpen ∨ instr = .loopClose := by
  cases instr with
  | right => exact .inl ⟨.right, rfl⟩
  | left => exact .inl ⟨.left, rfl⟩
  | increment => exact .inl ⟨.increment, rfl⟩
  | decrement => exact .inl ⟨.decrement, rfl⟩
  | output => exact .inl ⟨.output, rfl⟩
  | input => exact .inl ⟨.input, rfl⟩
  | loopOpen => exact .inr (.inl rfl)
  | loopClose => exact .inr (.inr rfl)

/-! ## §2. Blocks. -/

/-- Actions and loops, one after the other, with their spans. -/
inductive Block where
  | done
  | act (action : Action) (span : Span) (rest : Block)
  /-- Of a loop, `first` and `last` are the spans of its ends. -/
  | loop (first : Span) (body : Block) (last : Span) (rest : Block)
  deriving DecidableEq, Repr

namespace Block

/-- The block written out. -/
def tokens : Block → List (Token Instr)
  | .done => []
  | .act action span rest => ⟨action.instr, span⟩ :: rest.tokens
  | .loop first body last rest =>
    ⟨.loopOpen, first⟩ :: (body.tokens ++ ⟨.loopClose, last⟩ :: rest.tokens)

/-- Number of instructions. -/
def size : Block → Nat
  | .done => 0
  | .act _ _ rest => rest.size + 1
  | .loop _ body _ rest => body.size + rest.size + 2

theorem length_tokens (block : Block) : block.tokens.length = block.size := by
  induction block with
  | done => rfl
  | act action span rest ih => simp [tokens, size, ih]
  | loop first body last rest ihBody ihRest =>
    simp only [tokens, size, List.length_cons, List.length_append, ihBody, ihRest]
    omega

end Block

/-! ## §3. Reading a block from its end. -/

/-- The end of a program: the instructions up to the next end of a loop that was
begun before them, and behind each such end the instructions up to the next. -/
structure Suffix where
  /-- What comes before the first end of an open loop. -/
  block : Block
  /-- The ends of open loops and what follows each, the innermost first. -/
  outer : List (Span × Block)

namespace Suffix

/-- The suffix written out. -/
def tokens (s : Suffix) : List (Token Instr) :=
  s.block.tokens ++ s.outer.flatMap fun (last, rest) => ⟨.loopClose, last⟩ :: rest.tokens

/-- Puts one more instruction before a suffix. -/
def cons? (token : Token Instr) (s : Suffix) : Option Suffix :=
  match token.symbol, s.outer with
  | .loopClose, outer => some ⟨.done, (token.span, s.block) :: outer⟩
  | .loopOpen, (last, rest) :: outer => some ⟨.loop token.span s.block last rest, outer⟩
  | .loopOpen, [] => none
  | instr, outer => instr.action?.map fun action => ⟨.act action token.span s.block, outer⟩

/-- Reads the end of a program. -/
def read? : List (Token Instr) → Option Suffix
  | [] => some ⟨.done, []⟩
  | token :: rest => (read? rest).bind (cons? token)

theorem cons?_action (action : Action) (span : Span) (s : Suffix) :
    s.cons? ⟨action.instr, span⟩ = some ⟨.act action span s.block, s.outer⟩ := by
  cases action <;> rfl

theorem tokens_of_cons? {token : Token Instr} {s s' : Suffix} (h : s.cons? token = some s') :
    s'.tokens = token :: s.tokens := by
  obtain ⟨instr, span⟩ := token
  obtain ⟨block, outer⟩ := s
  rcases instr.cases_kind with ⟨action, rfl⟩ | rfl | rfl
  · rw [cons?_action] at h
    cases h
    rfl
  · cases outer with
    | nil => cases h
    | cons close outer =>
      cases h
      simp [tokens, Block.tokens]
  · cases h
    simp [tokens, Block.tokens]

theorem tokens_of_read? :
    ∀ {ts : List (Token Instr)} {s : Suffix}, read? ts = some s → s.tokens = ts
  | [], s, h => by
    cases h
    rfl
  | token :: ts, s, h => by
    obtain ⟨s', hs', hs⟩ := Option.bind_eq_some_iff.mp h
    rw [tokens_of_cons? hs, tokens_of_read? hs']

end Suffix

/-- The brackets among instructions. -/
def bracketsOf (ts : List (Token Instr)) : List Bracket :=
  ts.filterMap fun token => token.symbol.bracket?

/-- The brackets of a source text are balanced. -/
def BalancedSource (source : String) : Prop :=
  Balanced (bracketsOf (scan source))

instance (source : String) : Decidable (BalancedSource source) :=
  inferInstanceAs (Decidable (Balanced _))

theorem bracketsOf_cons (token : Token Instr) (ts : List (Token Instr)) :
    bracketsOf (token :: ts) = token.symbol.bracket?.toList ++ bracketsOf ts := by
  unfold bracketsOf
  rw [List.filterMap_cons]
  cases token.symbol.bracket? <;> rfl

/-- Instructions can be read from their end if no end of them opens more loops than
it closes.  The loops left open are those closed too often. -/
theorem Suffix.exists_read? :
    ∀ {ts : List (Token Instr)},
      (∀ after, after <:+ bracketsOf ts → after.count .opening ≤ after.count .closing) →
      ∃ s, read? ts = some s
        ∧ (bracketsOf ts).count .opening + s.outer.length = (bracketsOf ts).count .closing
  | [], _ => ⟨⟨.done, []⟩, rfl, rfl⟩
  | ⟨instr, span⟩ :: ts, h => by
    rw [bracketsOf_cons] at h ⊢
    obtain ⟨s, hs, count⟩ :=
      exists_read? fun after suffix => h after (suffix.trans (List.suffix_append _ _))
    have whole := h _ (List.suffix_refl _)
    show ∃ s', (read? ts).bind (cons? ⟨instr, span⟩) = some s' ∧ _
    rw [hs, Option.bind_some]
    rcases instr.cases_kind with ⟨action, rfl⟩ | rfl | rfl
    · exact ⟨_, s.cons?_action action span, by simpa using count⟩
    · -- A loop that is opened here is closed in `s`.
      have more : (bracketsOf ts).count .opening + 1 ≤ (bracketsOf ts).count .closing := by
        simpa [Instr.bracket?] using whole
      obtain ⟨block, outer⟩ := s
      cases outer with
      | nil =>
        simp at count
        omega
      | cons close outer =>
        refine ⟨_, rfl, ?_⟩
        simp [Instr.bracket?] at count ⊢
        omega
    · refine ⟨_, rfl, ?_⟩
      simp [Instr.bracket?] at count ⊢
      omega

namespace Block

/-- The block that is written out as these instructions. -/
def ofTokens? (ts : List (Token Instr)) : Option Block :=
  match Suffix.read? ts with
  | some ⟨block, []⟩ => some block
  | _ => none

theorem ofTokens?_eq_some {ts : List (Token Instr)} {block : Block} :
    ofTokens? ts = some block ↔ Suffix.read? ts = some ⟨block, []⟩ := by
  unfold ofTokens?
  split
  · next h => simp [h]
  · next ne =>
    refine ⟨nofun, fun h => absurd h (ne block)⟩

/-- **A block is written out as the instructions it was read from.** -/
theorem tokens_of_ofTokens? {ts : List (Token Instr)} {block : Block}
    (h : ofTokens? ts = some block) : block.tokens = ts := by
  have eq := Suffix.tokens_of_read? (ofTokens?_eq_some.mp h)
  simpa [Suffix.tokens] using eq

/-- **Instructions with balanced brackets are a block.** -/
theorem exists_ofTokens? {ts : List (Token Instr)} (balanced : Balanced (bracketsOf ts)) :
    ∃ block, ofTokens? ts = some block := by
  obtain ⟨⟨block, outer⟩, hs, count⟩ := Suffix.exists_read? fun _ => balanced.count_le
  -- In the whole text no loop is closed too often.
  have closed : outer.length = 0 := by
    have eq := balanced.count_eq
    simp only at count
    omega
  cases List.eq_nil_of_length_eq_zero closed
  exact ⟨block, ofTokens?_eq_some.mpr hs⟩

/-! ## §4. The loops of a block. -/

/-- The pairs found so far, and those of a block that begins at the index `i`. -/
def pairing (p : Pairing) (i : Nat) : Block → Pairing
  | .done => p
  | .act _ _ rest => rest.pairing p (i + 1)
  | .loop _ body _ rest =>
    rest.pairing ((body.pairing p (i + 1)).join i (i + body.size + 1)) (i + body.size + 2)

theorem partner?_pairing_of_outside {k : Nat} :
    ∀ (block : Block) (p : Pairing) (i : Nat), (k < i ∨ i + block.size ≤ k) →
      (block.pairing p i).partner? k = p.partner? k
  | .done, p, i, _ => rfl
  | .act action span rest, p, i, outside => by
    simp only [size] at outside
    exact partner?_pairing_of_outside rest p (i + 1) (by omega)
  | .loop first body last rest, p, i, outside => by
    simp only [size] at outside
    show (rest.pairing _ _).partner? k = _
    rw [partner?_pairing_of_outside rest _ _ (by omega), Pairing.partner?_join,
      if_neg (by omega), if_neg (by omega)]
    exact partner?_pairing_of_outside body p (i + 1) (by omega)

end Block

/-- The brackets among instructions that begin at the index `i`. -/
def bracketsFrom (i : Nat) (ts : List (Token Instr)) : List (Nat × Bracket) :=
  ((ts.map Token.symbol).zipIdx i).filterMap fun (instr, k) =>
    instr.bracket?.map fun b => (k, b)

theorem bracketsFrom_cons (i : Nat) (token : Token Instr) (ts : List (Token Instr)) :
    bracketsFrom i (token :: ts)
      = (token.symbol.bracket?.map fun b => (i, b)).toList ++ bracketsFrom (i + 1) ts := by
  unfold bracketsFrom
  rw [List.map_cons, List.zipIdx_cons, List.filterMap_cons]
  cases hb : token.symbol.bracket? <;> simp [hb]

namespace Block

/-- Reading the brackets of a block leaves the loops that are open as they are. -/
theorem extend_tokens :
    ∀ (block : Block) (p : Pairing) (pending : List Nat) (i : Nat) (ts : List (Token Instr)),
      p.extend pending (bracketsFrom i (block.tokens ++ ts))
        = (block.pairing p i).extend pending (bracketsFrom (i + block.size) ts)
  | .done, p, pending, i, ts => rfl
  | .act action span rest, p, pending, i, ts => by
    show p.extend pending (bracketsFrom i (⟨action.instr, span⟩ :: (rest.tokens ++ ts))) = _
    rw [bracketsFrom_cons, Action.bracket?_instr]
    show p.extend pending (bracketsFrom (i + 1) (rest.tokens ++ ts)) = _
    rw [extend_tokens rest]
    show _ = (rest.pairing p (i + 1)).extend pending (bracketsFrom (i + (rest.size + 1)) ts)
    rw [show i + (rest.size + 1) = i + 1 + rest.size by omega]
  | .loop first body last rest, p, pending, i, ts => by
    have written : (Block.loop first body last rest).tokens ++ ts
        = ⟨.loopOpen, first⟩ :: (body.tokens ++ ⟨.loopClose, last⟩ :: (rest.tokens ++ ts)) := by
      simp [tokens]
    -- The loop waits at `i` while its body is read, and is joined at its end.
    rw [written, bracketsFrom_cons]
    show p.extend (i :: pending) (bracketsFrom (i + 1) (body.tokens ++ _)) = _
    rw [extend_tokens body, bracketsFrom_cons]
    show ((body.pairing p (i + 1)).join i (i + 1 + body.size)).extend pending
      (bracketsFrom (i + 1 + body.size + 1) (rest.tokens ++ ts)) = _
    rw [extend_tokens rest]
    simp only [pairing, size]
    rw [show i + 1 + body.size = i + body.size + 1 by omega,
      show i + body.size + 1 + 1 + rest.size = i + (body.size + rest.size + 2) by omega]

/-- **Pairing the brackets of a block joins the ends of its loops.** -/
theorem pair_tokens (block : Block) : pair block.tokens = .ok (block.pairing .empty 0) := by
  have h := extend_tokens block .empty [] 0 []
  rw [List.append_nil] at h
  exact h

/-! ## §5. Blocks in a program. -/

/-- The block stands in the code of a program from the index `i` on, and the ends
of its loops are partners. -/
inductive LiesAt (program : Program) : Nat → Block → Prop where
  | done {i : Nat} : LiesAt program i .done
  | act {i : Nat} {action : Action} {span : Span} {rest : Block}
      (code : program.code[i]? = some ⟨action.instr, span⟩)
      (after : LiesAt program (i + 1) rest) : LiesAt program i (.act action span rest)
  | loop {i : Nat} {first : Span} {body : Block} {last : Span} {rest : Block}
      (opening : program.code[i]? = some ⟨.loopOpen, first⟩)
      (inside : LiesAt program (i + 1) body)
      (closing : program.code[i + body.size + 1]? = some ⟨.loopClose, last⟩)
      (forth : program.loops.partner? i = some (i + body.size + 1))
      (back : program.loops.partner? (i + body.size + 1) = some i)
      (after : LiesAt program (i + body.size + 2) rest) :
      LiesAt program i (.loop first body last rest)

theorem getElem?_of_drop {α : Type} {i : Nat} {x : α} {xs ys : List α}
    (h : xs.drop i = x :: ys) : xs[i]? = some x ∧ xs.drop (i + 1) = ys := by
  constructor
  · rw [← Nat.add_zero i, ← List.getElem?_drop, h]
    rfl
  · rw [← List.tail_drop, h]
    rfl

/-- A block stands where its instructions stand, if the pairing agrees with its own
inside of it. -/
theorem liesAt_of_drop {program : Program} :
    ∀ (block : Block) (p : Pairing) (i : Nat) (ts : List (Token Instr)),
      program.code.toList.drop i = block.tokens ++ ts →
      (∀ k, i ≤ k → k < i + block.size →
        program.loops.partner? k = (block.pairing p i).partner? k) →
      LiesAt program i block
  | .done, _, _, _, _, _ => .done
  | .act action span rest, p, i, ts, code, loops => by
    obtain ⟨here, behind⟩ := getElem?_of_drop code
    simp only [size] at loops
    refine .act (by rw [← here, Array.getElem?_toList]) ?_
    exact liesAt_of_drop rest p (i + 1) ts behind fun k le lt => loops k (by omega) (by omega)
  | .loop first body last rest, p, i, ts, code, loops => by
    simp only [tokens, List.cons_append, List.append_assoc] at code
    obtain ⟨opening, inside⟩ := getElem?_of_drop code
    have closing : program.code.toList.drop (i + body.size + 1)
        = ⟨.loopClose, last⟩ :: (rest.tokens ++ ts) := by
      rw [show i + body.size + 1 = i + 1 + body.size by omega, ← List.drop_drop, inside,
        ← length_tokens, List.drop_left]
    obtain ⟨closing, behind⟩ := getElem?_of_drop closing
    simp only [size, pairing] at loops
    refine .loop (by rw [← opening, Array.getElem?_toList]) ?_
      (by rw [← closing, Array.getElem?_toList]) ?_ ?_ ?_
    -- Inside the body nothing that is joined later changes the pairing.
    · refine liesAt_of_drop body p (i + 1) _ inside fun k le lt => ?_
      rw [loops k (by omega) (by omega), partner?_pairing_of_outside rest _ _ (by omega),
        Pairing.partner?_join, if_neg (by omega), if_neg (by omega)]
    · rw [loops i (by omega) (by omega), partner?_pairing_of_outside rest _ _ (by omega),
        Pairing.partner?_join, if_neg (by omega), if_pos rfl]
    · rw [loops _ (by omega) (by omega), partner?_pairing_of_outside rest _ _ (by omega),
        Pairing.partner?_join, if_pos rfl]
    · exact liesAt_of_drop rest _ _ ts behind fun k le lt => loops k (by omega) (by omega)

/-- **The program that is read from a block has the block in it.** -/
theorem liesAt_zero (block : Block) :
    LiesAt ⟨block.tokens.toArray, block.pairing .empty 0⟩ 0 block :=
  liesAt_of_drop block .empty 0 [] (by simp) fun _ _ _ => rfl

end Block

end Esolang.Brainfuck
