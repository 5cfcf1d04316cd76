/-
  Esolang.Proofs.Whitespace.Trie
  ──────────────────────────────
  **A TRIE HOLDS ITS ENTRIES.**

  A trie is looked at through the paths that lead to its nodes.  Nodes are added
  behind their parents and each has one parent, so two paths never lead to the same
  node; what is written at the end of a path is therefore written nowhere else.

    • `node?_inj` — a path is known by the node it leads to,
    • `node?_grow` — one more symbol adds the path it completes, and no other,
    • `insert_shapeAt?` — an insertion says what one path stands for,
    • `represents_ofEntries` — a trie built by insertion leads along the beginnings of
      its entries' paths, and says at the end of each what its entry says.
-/
import Esolang.Whitespace.Trie
import Mathlib.Data.List.Infix
import Mathlib.Data.List.Nodup

namespace Esolang.Whitespace.Trie

variable {trie : Trie} {node next : Nat} {symbol : Symbol} {path other : List Symbol}

/-! ## §1. Paths and nodes. -/

/-- The node that a path leads to from the root. -/
def node? (trie : Trie) (path : List Symbol) : Option Nat :=
  path.foldlM trie.child? root

/-- What a path stands for. -/
def shapeAt? (trie : Trie) (path : List Symbol) : Option Shape :=
  (trie.node? path).bind trie.shape?

/-- Nodes are added behind their parents, and each has one parent. -/
structure WellFormed (trie : Trie) : Prop where
  /-- There is a root. -/
  root_lt : root < trie.nodes.size
  /-- A symbol leads from a node to a later one, which is there. -/
  forward : ∀ {n s m}, trie.child? n s = some m → n < m ∧ m < trie.nodes.size
  /-- Only one symbol of one node leads to a node. -/
  one_parent : ∀ {n s m n' s'}, trie.child? n s = some m → trie.child? n' s' = some m →
    n = n' ∧ s = s'

/-- A trie leads along the beginnings of the paths of these entries, and says at the end
of each path what its entry says. -/
structure Represents (trie : Trie) (entries : List Entry) : Prop where
  /-- Only what begins a path leads anywhere. -/
  begins : ∀ path, (trie.node? path).isSome ↔ path = [] ∨ ∃ e ∈ entries, path <+: e.path
  /-- A path stands for what its entry says. -/
  complete : ∀ path shape, trie.shapeAt? path = some shape ↔ ⟨path, shape⟩ ∈ entries

/-- A path leads where its last symbol leads from where the others lead. -/
theorem node?_concat (trie : Trie) (path : List Symbol) (symbol : Symbol) :
    trie.node? (path ++ [symbol])
      = (trie.node? path).bind fun node => trie.child? node symbol := by
  unfold node?
  rw [List.foldlM_append]
  cases path.foldlM trie.child? root <;> simp

/-- From the node of a path a symbol leads to the node of the path with the symbol. -/
theorem child?_of_node? (here : trie.node? path = some node) (symbol : Symbol) :
    trie.child? node symbol = trie.node? (path ++ [symbol]) := by
  rw [node?_concat, here]
  rfl

/-- What a path stands for is written in the node that it leads to. -/
theorem shape?_of_node? (here : trie.node? path = some node) :
    trie.shape? node = trie.shapeAt? path := by
  rw [shapeAt?, here]
  rfl

/-- A path that leads to a node has led to another before its last symbol. -/
theorem node?_concat_eq_some :
    trie.node? (path ++ [symbol]) = some next
      ↔ ∃ node, trie.node? path = some node ∧ trie.child? node symbol = some next := by
  rw [node?_concat, Option.bind_eq_some_iff]

/-- What begins a path that leads to a node leads to one. -/
theorem isSome_node?_of_prefix (begins : other <+: path) (h : (trie.node? path).isSome) :
    (trie.node? other).isSome := by
  obtain ⟨rest, rfl⟩ := begins
  induction rest using List.reverseRecOn with
  | nil => simpa using h
  | append_singleton rest symbol ih =>
    rw [← List.append_assoc] at h
    obtain ⟨next, there⟩ := Option.isSome_iff_exists.mp h
    obtain ⟨node, before, -⟩ := node?_concat_eq_some.mp there
    exact ih (by rw [before]; rfl)

/-- Paths lead to nodes of the trie. -/
theorem WellFormed.node?_lt (good : trie.WellFormed) (here : trie.node? path = some node) :
    node < trie.nodes.size := by
  rcases List.eq_nil_or_concat path with rfl | ⟨before, last, rfl⟩
  · cases here
    exact good.root_lt
  · rw [List.concat_eq_append] at here
    obtain ⟨parent, -, child⟩ := node?_concat_eq_some.mp here
    exact (good.forward child).2

/-- No path but the empty one leads to the root. -/
theorem WellFormed.eq_nil_of_root (good : trie.WellFormed)
    (here : trie.node? path = some root) : path = [] := by
  rcases List.eq_nil_or_concat path with rfl | ⟨before, last, rfl⟩
  · rfl
  · rw [List.concat_eq_append] at here
    obtain ⟨parent, -, child⟩ := node?_concat_eq_some.mp here
    exact absurd (good.forward child).1 (Nat.not_lt_zero parent)

/-- **A path is known by the node it leads to.** -/
theorem WellFormed.node?_inj (good : trie.WellFormed) :
    ∀ {path other : List Symbol} {node : Nat}, trie.node? path = some node →
      trie.node? other = some node → path = other := by
  intro path
  induction path using List.reverseRecOn with
  | nil =>
    intro other node here there
    cases here
    exact (good.eq_nil_of_root there).symm
  | append_singleton path symbol ih =>
    intro other node here there
    rcases List.eq_nil_or_concat other with rfl | ⟨before, last, rfl⟩
    · cases there
      exact good.eq_nil_of_root here
    · rw [List.concat_eq_append] at there ⊢
      obtain ⟨parent, path_parent, child⟩ := node?_concat_eq_some.mp here
      obtain ⟨parent', before_parent, child'⟩ := node?_concat_eq_some.mp there
      obtain ⟨rfl, rfl⟩ := good.one_parent child child'
      rw [ih path_parent before_parent]

/-! ## §2. One more symbol. -/

/-- A child that is there already is taken. -/
theorem grow_of_some (there : trie.child? node symbol = some next) :
    trie.grow node symbol = (trie, next) := by
  unfold grow
  rw [there]

/-- A child that is missing takes one more node. -/
theorem size_grow_of_none (none_there : trie.child? node symbol = none) :
    (trie.grow node symbol).1.nodes.size = trie.nodes.size + 1 := by
  unfold grow
  rw [none_there]
  simp

/-- The node that is added is the last. -/
theorem grow_of_none_snd (none_there : trie.child? node symbol = none) :
    (trie.grow node symbol).2 = trie.nodes.size := by
  unfold grow
  rw [none_there]

/-- A node that is added is a child of the node it is added at, and of no other. -/
theorem child?_grow_of_none (lt : node < trie.nodes.size)
    (none_there : trie.child? node symbol = none) (n : Nat) (s : Symbol) :
    (trie.grow node symbol).1.child? n s
      = if n = node ∧ s = symbol then some trie.nodes.size else trie.child? n s := by
  unfold grow
  rw [none_there]
  simp only [child?, Array.getElem?_modify, Array.getElem?_push]
  by_cases at_node : node = n
  · subst at_node
    have old : ¬ node = trie.nodes.size := Nat.ne_of_lt lt
    simp only [old, if_false, if_true, true_and, Array.getElem?_eq_getElem lt, Option.map_some,
      Option.bind_some, Node.withChild]
  · have elsewhere : ¬ n = node := fun eq => at_node eq.symm
    simp only [at_node, elsewhere, if_false, false_and]
    by_cases added : n = trie.nodes.size
    · simp [added]
    · simp [added]

/-- An added node stands for nothing yet. -/
theorem shape?_grow (trie : Trie) (node : Nat) (symbol : Symbol) (n : Nat) :
    (trie.grow node symbol).1.shape? n = trie.shape? n := by
  unfold grow
  split
  · rfl
  · simp only [shape?, Array.getElem?_modify, Array.getElem?_push]
    by_cases added : n = trie.nodes.size
    · subst added
      split <;> simp [Node.withChild]
    · simp only [added, if_false]
      split <;> cases trie.nodes[n]? <;> rfl

/-- To grow leaves a trie well-formed: the added node comes behind its parent and is the child of
no other. -/
theorem WellFormed.grow (good : trie.WellFormed) (lt : node < trie.nodes.size) :
    (trie.grow node symbol).1.WellFormed := by
  cases there : trie.child? node symbol with
  | some next =>
    rw [grow_of_some there]
    exact good
  | none =>
    have size := size_grow_of_none there
    have child := child?_grow_of_none lt there
    refine ⟨?_, ?_, ?_⟩
    · rw [size]
      exact Nat.succ_pos _
    · intro n s m h
      rw [child] at h
      rw [size]
      split at h
      · next at_node =>
        cases h
        rw [at_node.1]
        exact ⟨lt, Nat.lt_succ_self _⟩
      · have forward := good.forward h
        exact ⟨forward.1, Nat.lt_succ_of_lt forward.2⟩
    · intro n s m n' s' h h'
      -- The added node is no child of an old one.
      have old {n s} (h : trie.child? n s = some trie.nodes.size) : False :=
        Nat.lt_irrefl _ (good.forward h).2
      rw [child] at h h'
      split at h <;> split at h'
      · next at_node at_node' =>
        exact ⟨at_node.1.trans at_node'.1.symm, at_node.2.trans at_node'.2.symm⟩
      · cases h
        exact (old h').elim
      · cases h'
        exact (old h).elim
      · exact good.one_parent h h'

/-- **One more symbol adds the path it completes, and no other.** -/
theorem WellFormed.node?_grow (good : trie.WellFormed) (here : trie.node? path = some node)
    (symbol : Symbol) (other : List Symbol) :
    (trie.grow node symbol).1.node? other
      = if other = path ++ [symbol] then some (trie.grow node symbol).2
        else trie.node? other := by
  cases there : trie.child? node symbol with
  | some next =>
    rw [grow_of_some there]
    split
    · next eq =>
      rw [eq]
      exact node?_concat_eq_some.mpr ⟨node, here, there⟩
    · rfl
  | none =>
    have lt := good.node?_lt here
    rw [grow_of_none_snd there]
    induction other using List.reverseRecOn with
    | nil => simp [node?]
    | append_singleton other last ih =>
      rw [node?_concat, ih, node?_concat]
      by_cases past : other = path ++ [symbol]
      · -- Behind the added node there is nothing.
        have not_path : ¬ other ++ [last] = path ++ [symbol] := by simp [past]
        have no_child : trie.child? trie.nodes.size last = none := by
          simp [child?]
        have was_none : trie.node? other = none := by
          rw [past, ← child?_of_node? here, there]
        rw [if_pos past, if_neg not_path, was_none]
        show (trie.grow node symbol).1.child? trie.nodes.size last = none
        rw [child?_grow_of_none lt there, if_neg (fun eq => Nat.ne_of_gt lt eq.1), no_child]
      · rw [if_neg past]
        cases before : trie.node? other with
        | none =>
          have not_path : ¬ other ++ [last] = path ++ [symbol] := by
            intro eq
            obtain ⟨rfl, -⟩ := List.append_inj' eq rfl
            rw [here] at before
            cases before
          rw [if_neg not_path]
          rfl
        | some n =>
          -- The node of `other` is `node` only if `other` is `path`.
          have same : n = node ↔ other = path := by
            constructor
            · rintro rfl
              exact good.node?_inj before here
            · rintro rfl
              exact Option.some.inj (before.symm.trans here)
          have concat_eq : other ++ [last] = path ++ [symbol] ↔ other = path ∧ last = symbol := by
            simp
          show (trie.grow node symbol).1.child? n last = _
          rw [child?_grow_of_none lt there]
          simp only [same, concat_eq, Option.bind_some]

/-! ## §3. Paths that are grown. -/

/-- What growing a trie along a path leads to: the path is there, and nothing stands for
more than before. -/
structure Grown (before : Trie) (path : List Symbol) (after : Trie × Nat) : Prop where
  wellFormed : after.1.WellFormed
  /-- The path leads to the node that was come to. -/
  here : after.1.node? path = some after.2
  /-- Besides what led to a node before, the beginnings of the path do. -/
  begins : ∀ other, (after.1.node? other).isSome ↔ (before.node? other).isSome ∨ other <+: path
  /-- Every path stands for what it stood for. -/
  shapes : ∀ other, after.1.shapeAt? other = before.shapeAt? other

/-- Along no symbols at all nothing is grown. -/
theorem Grown.refl (good : trie.WellFormed) (here : trie.node? path = some node) :
    Grown trie path (trie, node) where
  wellFormed := good
  here := here
  begins other := by
    refine ⟨.inl, ?_⟩
    rintro (there | begins)
    · exact there
    · exact isSome_node?_of_prefix begins (by rw [here]; rfl)
  shapes _ := rfl

/-- To grow along a path and then further is to grow along the longer path. -/
theorem Grown.trans {first second : Trie × Nat} (h : Grown trie path first)
    (h' : Grown first.1 other second) (longer : path <+: other) : Grown trie other second where
  wellFormed := h'.wellFormed
  here := h'.here
  begins p := by
    have begins (h : p <+: path) : p <+: other := h.trans longer
    rw [h'.begins, h.begins, or_assoc, or_iff_right_of_imp begins]
  shapes p := (h'.shapes p).trans (h.shapes p)

/-- A path is grown by one more symbol. -/
theorem Grown.grow (good : trie.WellFormed) (here : trie.node? path = some node) :
    Grown trie (path ++ [symbol]) (trie.grow node symbol) where
  wellFormed := good.grow (good.node?_lt here)
  here := by rw [good.node?_grow here, if_pos rfl]
  begins other := by
    rw [good.node?_grow here, List.prefix_concat_iff]
    have path_begins (begins : other <+: path) : (trie.node? other).isSome :=
      isSome_node?_of_prefix begins (by rw [here]; rfl)
    split
    · next eq => simp [eq]
    · next ne => simp only [ne, false_or, or_iff_left_of_imp path_begins]
  shapes other := by
    unfold shapeAt?
    rw [good.node?_grow here, funext (shape?_grow trie node symbol)]
    split
    · next eq =>
      rw [eq, ← child?_of_node? here]
      cases there : trie.child? node symbol with
      | some next => rw [grow_of_some there]
      | none =>
        rw [grow_of_none_snd there]
        simp [shape?]
    · rfl

/-- A path is grown by the symbols of another. -/
theorem Grown.growAlong (rest : List Symbol) :
    ∀ {trie : Trie} {node : Nat} {path : List Symbol}, trie.WellFormed →
      trie.node? path = some node → Grown trie (path ++ rest) (trie.growAlong node rest) := by
  induction rest with
  | nil =>
    intro trie node path good here
    rw [List.append_nil]
    exact .refl good here
  | cons symbol rest ih =>
    intro trie node path good here
    have step : Grown trie (path ++ [symbol]) (trie.grow node symbol) := .grow good here
    rw [List.append_cons]
    exact step.trans (ih step.wellFormed step.here) (List.prefix_append _ _)

/-! ## §4. Insertion. -/

/-- A label changes no child. -/
theorem child?_label (trie : Trie) (node : Nat) (shape : Shape) :
    (trie.label node shape).child? = trie.child? := by
  funext n s
  simp only [child?, label, Array.getElem?_modify]
  split
  · cases trie.nodes[n]? <;> rfl
  · rfl

/-- It changes what one node stands for. -/
theorem shape?_label (lt : node < trie.nodes.size) (shape : Shape) (n : Nat) :
    (trie.label node shape).shape? n = if n = node then some shape else trie.shape? n := by
  simp only [shape?, label, Array.getElem?_modify]
  by_cases at_node : n = node
  · simp [at_node, lt]
  · simp [at_node, Ne.symm at_node]

/-- So every path leads where it led before. -/
theorem node?_label (trie : Trie) (node : Nat) (shape : Shape) :
    (trie.label node shape).node? = trie.node? := by
  funext path
  unfold node?
  rw [child?_label]

/-- A label leaves a trie well-formed. -/
theorem WellFormed.label (good : trie.WellFormed) (node : Nat) (shape : Shape) :
    (trie.label node shape).WellFormed := by
  have size : (trie.label node shape).nodes.size = trie.nodes.size := by simp [Trie.label]
  refine ⟨?_, ?_, ?_⟩
  · rw [size]
    exact good.root_lt
  · intro n s m h
    rw [child?_label] at h
    rw [size]
    exact good.forward h
  · intro n s m n' s' h h'
    rw [child?_label] at h h'
    exact good.one_parent h h'

/-- An insertion grows along the path and labels the node at its end. -/
theorem insert_eq (trie : Trie) (entry : Entry) : trie.insert entry
    = (trie.growAlong root entry.path).1.label (trie.growAlong root entry.path).2 entry.shape :=
  rfl

section
variable (good : trie.WellFormed) (entry : Entry)
include good

/-- So it grows the trie along the path from the root. -/
theorem grown_insert : Grown trie entry.path (trie.growAlong root entry.path) := by
  have start : trie.node? [] = some root := rfl
  exact .growAlong entry.path good start

/-- An insertion leaves a trie well-formed. -/
theorem WellFormed.insert : (trie.insert entry).WellFormed :=
  (grown_insert good entry).wellFormed.label _ _

/-- An insertion makes the beginnings of one path lead somewhere. -/
theorem insert_node? (other : List Symbol) :
    ((trie.insert entry).node? other).isSome
      ↔ (trie.node? other).isSome ∨ other <+: entry.path := by
  rw [insert_eq, node?_label]
  exact (grown_insert good entry).begins other

/-- **An insertion says what one path stands for.** -/
theorem insert_shapeAt? (other : List Symbol) :
    (trie.insert entry).shapeAt? other
      = if other = entry.path then some entry.shape else trie.shapeAt? other := by
  have grown := grown_insert good entry
  have lt := grown.wellFormed.node?_lt grown.here
  rw [← grown.shapes, insert_eq]
  unfold shapeAt?
  rw [node?_label, funext (shape?_label lt entry.shape)]
  cases there : (trie.growAlong root entry.path).1.node? other with
  | none =>
    have not_path : ¬ other = entry.path := by
      rintro rfl
      rw [grown.here] at there
      cases there
    rw [if_neg not_path]
    rfl
  | some n =>
    have same : n = (trie.growAlong root entry.path).2 ↔ other = entry.path := by
      constructor
      · rintro rfl
        exact grown.wellFormed.node?_inj there grown.here
      · rintro rfl
        exact Option.some.inj (there.symm.trans grown.here)
    simp only [Option.bind_some, same]

end

/-! ## §5. Tries of entries. -/

/-- A root without children is a well-formed trie. -/
theorem wellFormed_empty : empty.WellFormed := by
  have no_child (n : Nat) (s : Symbol) : empty.child? n s = none := by
    cases n <;> rfl
  exact ⟨Nat.zero_lt_one, fun h => by simp [no_child] at h, fun h => by simp [no_child] at h⟩

/-- It stands for no entries. -/
theorem represents_empty : empty.Represents [] where
  begins path := by
    cases path with
    | nil => simp [node?]
    | cons symbol path => simp [node?, child?, empty, root]
  complete path shape := by
    cases path with
    | nil => simp [shapeAt?, node?, shape?, empty, root]
    | cons symbol path => simp [shapeAt?, node?, child?, empty, root]

/-- An insertion adds an entry whose path has none yet. -/
theorem Represents.insert {entries : List Entry} {entry : Entry} (good : trie.WellFormed)
    (h : trie.Represents entries) (fresh : entry.path ∉ entries.map Entry.path) :
    (trie.insert entry).Represents (entries ++ [entry]) where
  begins path := by
    rw [insert_node? good, h.begins]
    simp only [List.mem_append, List.mem_singleton, or_and_right, exists_or, exists_eq_left,
      or_assoc]
  complete path shape := by
    rw [insert_shapeAt? good, List.mem_append, List.mem_singleton]
    split
    · next eq =>
      subst eq
      have not_old : ⟨entry.path, shape⟩ ∉ entries := fun mem =>
        fresh (List.mem_map.mpr ⟨_, mem, rfl⟩)
      rw [or_iff_right not_old]
      cases entry
      simp [eq_comm]
    · next ne =>
      have not_new : (⟨path, shape⟩ : Entry) ≠ entry := by
        rintro rfl
        exact ne rfl
      rw [h.complete, or_iff_left not_new]

/-- **A trie that is built by insertion is its entries**, if no two of them have the same
path. -/
theorem represents_ofEntries {entries : List Entry}
    (distinct : (entries.map Entry.path).Nodup) : (ofEntries entries).Represents entries := by
  suffices both : (ofEntries entries).WellFormed ∧ (ofEntries entries).Represents entries from
    both.2
  induction entries using List.reverseRecOn with
  | nil => exact ⟨wellFormed_empty, represents_empty⟩
  | append_singleton entries entry ih =>
    rw [List.map_append, List.nodup_append] at distinct
    obtain ⟨distinct, -, apart⟩ := distinct
    obtain ⟨good, holds⟩ := ih distinct
    have fresh : entry.path ∉ entries.map Entry.path := fun mem =>
      apart _ mem _ (List.mem_singleton_self _) rfl
    have last : ofEntries (entries ++ [entry]) = (ofEntries entries).insert entry := by
      unfold ofEntries
      rw [List.foldl_append]
      rfl
    rw [last]
    exact ⟨good.insert entry, holds.insert good fresh⟩

end Esolang.Whitespace.Trie
