import Mathlib
import FlameProfile.Proofs.Drawing.Units
import FlameProfile.Proofs.Result
import FlameProfile.Proofs.Tree.Change
import FlameProfile.Proofs.Tree.Offsets

/-!
# Colours of changes

A frame of a differential picture is grey if its weight changed by no more than a hundredth
of what it was. Otherwise it is red if it got heavier and green if it got lighter, and what
is paler changed less. The strength of a colour is a part of 155, which is taken from 200:
however small the baseline of a frame is, the greatest change of the tree bounds its own.
-/

namespace FlameProfile
namespace Colour

/-- The colour of a frame that got heavier. -/
def heavier (pale : Nat) : Colour :=
  ⟨255, pale, pale⟩

variable {delta weight greatest : Rat}

end Colour

/-! ## Differential trees -/

namespace Tree

/-- The change of every node of a tree is known, and the node covers a range of the whole
weight. -/
structure IsMeasured (tree : Tree Rat) : Prop where
  changed : ∀ node ∈ tree.nodes, ∃ delta, node.delta = some delta
  covers : ∀ node ∈ tree.nodes, ∃ start,
    node.start = some start ∧ start ≤ node.finish ∧ node.finish ≤ tree.total

end Tree

/-! ## Drawn frames -/

/-- Change of a frame, zero if it is not known. -/
def Frame.change (frame : Frame Rat) : Rat :=
  frame.delta.getD 0

/-- A frame of a differential picture: its change is at most the greatest one, and its weight
is not negative. -/
structure Frame.IsMeasured
    (greatest : Rat)
    (frame : Frame Rat) : Prop where
  known : frame.delta ≠ none
  bounded : |frame.change| ≤ greatest
  weighs : 0 ≤ frame.weight

namespace Colour

end Colour

/-! ## Differential pictures -/

namespace Picture

end Picture
end FlameProfile
