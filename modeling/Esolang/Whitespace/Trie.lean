/-
  Esolang.Whitespace.Trie
  ───────────────────────
  **A TRIE OF PATHS.**

  The nodes of a trie are kept in an array and known by their place in it; node 0
  is the root.  Paths are inserted one after the other: along a path nodes that
  are there are used again, and the others are added behind the last.
-/
import Esolang.Whitespace.Command

namespace Esolang.Whitespace

/-- A node of a trie. -/
structure Node where
  /-- The node that each symbol leads to, if it leads to one. -/
  children : Symbol → Option Nat := fun _ => none
  /-- What the path to the node stands for, if it is complete. -/
  shape : Option Shape := none

/-- Leads a symbol to a node. -/
def Node.withChild (node : Node) (symbol : Symbol) (child : Nat) : Node :=
  { node with children := fun other => if other = symbol then some child else node.children other }

/-- A trie. -/
structure Trie where
  /-- The nodes. -/
  nodes : Array Node

namespace Trie

/-- The node that no symbol leads to. -/
def root : Nat := 0

/-- A root and nothing else. -/
def empty : Trie := ⟨#[{}]⟩

/-- The node that a symbol leads to from a node. -/
def child? (trie : Trie) (node : Nat) (symbol : Symbol) : Option Nat :=
  trie.nodes[node]?.bind fun n => n.children symbol

/-- What the path to a node stands for. -/
def shape? (trie : Trie) (node : Nat) : Option Shape :=
  trie.nodes[node]?.bind Node.shape

/-- Goes on from a node by one symbol; where it leads to no node, one is added. -/
def grow (trie : Trie) (node : Nat) (symbol : Symbol) : Trie × Nat :=
  match trie.child? node symbol with
  | some next => (trie, next)
  | none =>
    let next := trie.nodes.size
    (⟨(trie.nodes.push {}).modify node fun n => n.withChild symbol next⟩, next)

/-- Goes on from a node by the symbols of a path. -/
def growAlong (trie : Trie) (node : Nat) : List Symbol → Trie × Nat
  | [] => (trie, node)
  | symbol :: path =>
    let (trie, next) := trie.grow node symbol
    trie.growAlong next path

/-- Says what the path to a node stands for. -/
def label (trie : Trie) (node : Nat) (shape : Shape) : Trie :=
  ⟨trie.nodes.modify node fun n => { n with shape := some shape }⟩

/-- Inserts an entry. -/
def insert (trie : Trie) (entry : Entry) : Trie :=
  let (trie, node) := trie.growAlong root entry.path
  trie.label node entry.shape

/-- The trie of some entries. -/
def ofEntries (entries : List Entry) : Trie :=
  entries.foldl insert empty

end Trie

/-- The trie of every path. -/
def paths : Trie :=
  .ofEntries table

end Esolang.Whitespace
