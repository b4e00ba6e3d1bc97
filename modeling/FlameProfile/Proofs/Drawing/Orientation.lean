import Mathlib
import FlameProfile.Arithmetic.Rational
import FlameProfile.Drawing.Layout

/-!
# Flames and icicles

The orientation of a canvas decides in which row a frame stands, and nothing else: in every
arithmetic a tree that is laid out one way is laid out the other way too, with the frames
in other rows. In exact arithmetic the rows of an icicle are those of the flame turned
over: what is above the middle of the frames in the one is as far below it in the other.
-/

namespace FlameProfile

variable {Number : Type}

/-- A canvas on which the stacks grow in a given direction. -/
def Canvas.facing
    (canvas : Canvas Number)
    (orientation : Orientation) : Canvas Number :=
  { canvas with orientation := orientation }

namespace Layout

/-! ## Layouts on turned canvases -/

section Turned

variable [Arithmetic Number] [NumberText Number]

/-- The layout with each frame in the row that its depth has on a canvas. -/
def inRowsOf
    (canvas : Canvas Number)
    (layout : Layout Number) : Layout Number :=
  { layout with
    frames := layout.frames.map fun frame =>
      { frame with
        y1 := (rowBounds canvas layout.height frame.depth).1
        y2 := (rowBounds canvas layout.height frame.depth).2 } }

/-- On a turned canvas a tree is laid out as before, with the frames in other rows. -/
theorem ofTree_facing
    (canvas : Canvas Number)
    (orientation : Orientation)
    (tree : Tree Number)
    (total : Number) :
    ofTree (canvas.facing orientation) tree total =
      (ofTree canvas tree total).map (inRowsOf (canvas.facing orientation)) := by
  rw [ofTree, ofTree]
  split
  next => rfl
  next =>
    cases extents total tree.nodes with
    | error fault => rfl
    | ok all =>
        simp only [Except.map, inRowsOf, List.map_map]
        rfl

/-- A layout has one row for each depth down to the deepest, between its margins. -/
theorem height_of_ofTree
    {canvas : Canvas Number}
    {tree : Tree Number}
    {total : Number}
    {layout : Layout Number}
    (laidOut : ofTree canvas tree total = .ok layout) :
    layout.height = Arithmetic.ofCount (layout.maxDepth + 1) * canvas.frameHeight +
      canvas.titleHeight + canvas.subtitleHeight := by
  rw [ofTree] at laidOut
  split at laidOut
  next => cases laidOut
  next =>
    split at laidOut
    next => cases laidOut
    next =>
      obtain rfl := Except.ok.inj laidOut
      rfl

end Turned

/-! ## Mirrored frames -/

/-- Two frames are mirror images at an axis: they differ in their rows alone, and the top of
each is as far from the axis as the bottom of the other. The axis is given by twice its
height. -/
structure Frame.AreMirrored
    (axis : Rat)
    (flame icicle : Frame Rat) : Prop where
  same : icicle = { flame with y1 := icicle.y1, y2 := icicle.y2 }
  top : flame.y1 + icicle.y2 = axis
  bottom : flame.y2 + icicle.y1 = axis

/-- Two layouts are mirror images: they differ in their frames alone, which come in the same
order, each the mirror image of the other in the middle of all rows. -/
structure AreMirrored
    (canvas : Canvas Rat)
    (flame icicle : Layout Rat) : Prop where
  same : icicle = { flame with frames := icicle.frames }
  frames : List.Forall₂
    (Frame.AreMirrored (2 * canvas.titleHeight + (flame.maxDepth + 1) * canvas.frameHeight))
    flame.frames icicle.frames

/-- Rows of a flame and of an icicle lie on opposite sides of the middle. -/
theorem rowBounds_mirrored
    {canvas : Canvas Rat}
    {height : Rat}
    {maxDepth : Nat}
    (whole : height = Arithmetic.ofCount (maxDepth + 1) * canvas.frameHeight +
      canvas.titleHeight + canvas.subtitleHeight)
    (depth : Nat) :
    (rowBounds (canvas.facing .flame) height depth).1 +
        (rowBounds (canvas.facing .icicle) height depth).2 =
      2 * canvas.titleHeight + (maxDepth + 1) * canvas.frameHeight ∧
    (rowBounds (canvas.facing .flame) height depth).2 +
        (rowBounds (canvas.facing .icicle) height depth).1 =
      2 * canvas.titleHeight + (maxDepth + 1) * canvas.frameHeight := by
  have rows : (Arithmetic.ofCount (maxDepth + 1) : Rat) = maxDepth + 1 := Nat.cast_succ maxDepth
  rw [rows] at whole
  simp only [rowBounds, Canvas.facing, whole]
  constructor <;> ring

/-- A flame and an icicle of one tree are mirror images. On every canvas, whatever the
total, either both fail for one reason, or both are laid out alike but for the rows: the
top of a frame in the one and its bottom in the other add up to the same for all frames. -/
theorem flame_mirrors_icicle
    [NumberText Rat]
    (canvas : Canvas Rat)
    (tree : Tree Rat)
    (total : Rat) :
    (∃ fault, ofTree (canvas.facing .flame) tree total = .error fault ∧
      ofTree (canvas.facing .icicle) tree total = .error fault) ∨
    ∃ flame icicle, ofTree (canvas.facing .flame) tree total = .ok flame ∧
      ofTree (canvas.facing .icicle) tree total = .ok icicle ∧
      AreMirrored canvas flame icicle := by
  simp only [ofTree_facing canvas]
  cases outcome : ofTree canvas tree total with
  | error fault => exact Or.inl ⟨fault, rfl, rfl⟩
  | ok layout =>
      refine Or.inr ⟨_, _, rfl, rfl, rfl, ?_⟩
      rw [inRowsOf, inRowsOf, List.forall₂_map_left_iff, List.forall₂_map_right_iff,
        List.forall₂_same]
      intro frame member
      obtain ⟨top, bottom⟩ := rowBounds_mirrored (height_of_ofTree outcome) frame.depth
      exact ⟨rfl, top, bottom⟩

end Layout
end FlameProfile
