import Mathlib
import FlameProfile.Arithmetic.Floating
import FlameProfile.Proofs.Slots
import FlameProfile.Tree.Node

/-!
# Frames by label, depth and end

A tree keeps closed frames as a table. The key of a frame is its label, its depth and the
bits of its end offset, so that the two zeros are different ends and a value that is no
number is the same end as itself. `KeepsLast` says what a tree holds of any list of
nodes: one node for each key, in the order in which the keys first come, and of the nodes of
one key the last. A list with an index of the keys holds the same.

What the bits of an end are is left open, so the laws hold of every arithmetic in which ends
are told apart by some image of them.
-/

namespace FlameProfile

variable {Weight Bits : Type} [Arithmetic Weight]

/-- Two values are identical if their bits are the same. -/
def Arithmetic.ComparesBits (bits : Weight -> Bits) : Prop :=
  ∀ first second, identical first second = true ↔ bits first = bits second

/-- Floating-point numbers are told apart by their bits. -/
theorem Floating.comparesBits : Arithmetic.ComparesBits Float.toBits :=
  fun _ _ => decide_eq_true_iff

namespace Node

/-- What a frame is told apart by. -/
structure Key (Bits : Type) where
  label : String
  depth : Nat
  /-- The bits of the end offset. -/
  finish : Bits
  deriving DecidableEq, Hashable

/-- The key of a frame, by the bits of end offsets. -/
def key
    (bits : Weight -> Bits)
    (node : Node Weight) : Key Bits :=
  ⟨node.label, node.depth, bits node.finish⟩

variable [DecidableEq Bits] {bits : Weight -> Bits}

theorem isAt_eq_decide
    (compares : Arithmetic.ComparesBits bits)
    (node : Node Weight)
    (label : String)
    (depth : Nat)
    (finish : Weight) :
    node.isAt label depth finish = decide (node.key bits = ⟨label, depth, bits finish⟩) := by
  have same := compares node.finish finish
  rw [Bool.eq_iff_iff, isAt]
  simp [key, same, and_assoc]

/-- A frame takes the place of the one with its key. -/
theorem insertInto_eq_upsert
    (compares : Arithmetic.ComparesBits bits)
    (node : Node Weight)
    (kept : List (Node Weight)) :
    node.insertInto kept =
      upsert (fun other => other.key bits = node.key bits) node (fun _ => node) kept := by
  induction kept with
  | nil => rfl
  | cons other rest inductionHypothesis =>
      rw [insertInto, upsert, inductionHypothesis, isAt_eq_decide compares]
      rfl

end Node

namespace Tree

variable [DecidableEq Bits] {bits : Weight -> Bits}

theorem nodes_ofNodes
    (compares : Arithmetic.ComparesBits bits)
    (nodes : List (Node Weight))
    (total : Weight) :
    (ofNodes nodes total).nodes = putAll (Node.key bits) nodes := by
  simp only [ofNodes, putAll, Node.insertInto_eq_upsert compares]

theorem find?_eq_find?_key
    (compares : Arithmetic.ComparesBits bits)
    (tree : Tree Weight)
    (label : String)
    (depth : Nat)
    (finish : Weight) :
    tree.find? label depth finish =
      tree.nodes.find? fun node => node.key bits = ⟨label, depth, bits finish⟩ := by
  simp only [find?, Node.isAt_eq_decide compares]

/-- A tree keeps the last node of each key, in the order in which the keys first come. -/
structure KeepsLast
    (bits : Weight -> Bits)
    (nodes : List (Node Weight))
    (tree : Tree Weight) : Prop where
  /-- No two nodes have the same key. -/
  distinct : (tree.nodes.map (Node.key bits)).Nodup
  keys : tree.nodes.map (Node.key bits) = (nodes.map (Node.key bits)).eraseDups
  last : ∀ node ∈ tree.nodes,
    (nodes.reverse.find? fun other => other.key bits = node.key bits) = some node
  /-- The node that is found at a place is the last one there, if there is one. -/
  found : ∀ label depth finish, tree.find? label depth finish =
    nodes.reverse.find? fun node => node.key bits = ⟨label, depth, bits finish⟩

/-- Nodes in a list, with an index of their keys. -/
abbrev Arena (Weight Bits : Type) [DecidableEq Bits] [Hashable Bits] :=
  Indexed (Node.Key Bits) (Node Weight)

/-- The arena of nodes that are put in one after the other. -/
def Arena.ofNodes
    [Hashable Bits]
    (bits : Weight -> Bits)
    (nodes : List (Node Weight)) : Except OutOfRange (Arena Weight Bits) :=
  nodes.foldlM (fun arena node => arena.update (node.key bits) node fun _ => node) Indexed.empty

/-- A tree keeps of any nodes the last one of each key, and so does an arena, which reaches
no slot out of range and finds the same nodes. -/
theorem ofNodes_keepsLast
    [Hashable Bits]
    (compares : Arithmetic.ComparesBits bits)
    (nodes : List (Node Weight))
    (total : Weight) :
    KeepsLast bits nodes (ofNodes nodes total) ∧
    ∃ arena, Arena.ofNodes bits nodes = .ok arena ∧
      arena.items = (ofNodes nodes total).nodes ∧
      arena.InStep (Node.key bits) ∧
      ∀ label depth finish, arena.find? ⟨label, depth, bits finish⟩ =
        .ok ((ofNodes nodes total).find? label depth finish) := by
  obtain ⟨arena, built, inStep, items⟩ := Indexed.exists_foldlM_update (Node.key bits) nodes
  have same := nodes_ofNodes compares nodes total
  have distinct : ((ofNodes nodes total).nodes.map (Node.key bits)).Nodup := by
    rw [same, ← items]
    exact inStep.nodup_keys
  refine ⟨?_, arena, built, items.trans same.symm, inStep, ?_⟩
  · constructor
    case distinct => exact distinct
    case keys => rw [same, map_putAll]
    case last =>
      intro node member
      rw [← find?_putAll, ← same]
      exact (find?_key_eq_some_iff distinct).mpr ⟨member, rfl⟩
    case found =>
      intro label depth finish
      rw [find?_eq_find?_key compares, same, find?_putAll]
  · intro label depth finish
    rw [inStep.find?_eq, items, ← same, find?_eq_find?_key compares]

/-- Frames of one label and depth that end at a zero, at the negated zero and at what is no
number, some of them twice. -/
def signedNodes : List (Node Float) :=
  [ ⟨"a", 1, some 0, 0, 1, false, none⟩, ⟨"a", 1, some 0, -0, 2, false, none⟩
  , ⟨"a", 1, some 0, 0 / 0, 3, false, none⟩, ⟨"b", 1, none, 0, 4, false, none⟩
  , ⟨"a", 1, none, 0 / 0, 5, true, none⟩, ⟨"a", 1, some 0, 0, 6, false, some 1⟩ ]

theorem ofNodes_keepsLast_signedNodes :
    Arithmetic.ComparesBits Float.toBits ∧
    KeepsLast Float.toBits signedNodes (ofNodes signedNodes 0) ∧
    (ofNodes signedNodes 0).nodes.map Node.calls = [6, 2, 5, 4] ∧
    ∃ arena, Arena.ofNodes Float.toBits signedNodes = .ok arena ∧
      arena.find? ⟨"a", 1, (-0 : Float).toBits⟩ =
        .ok (some ⟨"a", 1, some 0, -0, 2, false, none⟩) := by
  obtain ⟨keepsLast, arena, built, -, -, finds⟩ :=
    ofNodes_keepsLast Floating.comparesBits signedNodes 0
  have found : (ofNodes signedNodes 0).find? "a" 1 (-0) =
      some ⟨"a", 1, some 0, -0, 2, false, none⟩ := by decide +kernel
  refine ⟨Floating.comparesBits, keepsLast, by decide +kernel, arena, built, ?_⟩
  rw [finds, found]

end Tree
end FlameProfile
