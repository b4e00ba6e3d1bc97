import Mathlib
import FlameProfile.Proofs.Drawing.Layout

/-!
# Rows of frames

The rows of a layout lie one above the other within the picture, in a flame as in an
icicle, with a gap of one pixel between them. The gap is taken from the height of the
row: a row that is less than a pixel high leaves a frame whose bottom lies above its
top. So valid options draw proper rectangles exactly if their rows are at least one
pixel high. The lower the rows, the higher are such inverted frames: below half a pixel
those of neighbouring rows overlap.
-/

namespace FlameProfile

/-- The upper end of a frame, whichever of its two ends that is. -/
def Frame.upper (frame : Frame Rat) : Rat :=
  min frame.y1 frame.y2

/-- The lower end of a frame. -/
def Frame.lower (frame : Frame Rat) : Rat :=
  max frame.y1 frame.y2

namespace Layout

/-! ## Bounds of rows -/

section Rows

variable {canvas : Canvas Rat} {height : Rat} {depth maxDepth : Nat}

/-- A frame is as high as its row but for the gap. -/
theorem sub_rowBounds
    (canvas : Canvas Rat)
    (height : Rat)
    (depth : Nat) :
    (rowBounds canvas height depth).2 - (rowBounds canvas height depth).1 =
      canvas.frameHeight - 1 := by
  have gap : (Arithmetic.ofCount 1 : Rat) = 1 := Nat.cast_one
  rw [rowBounds, gap]
  split <;> ring

/-- Both ends of a row lie within the picture. -/
theorem rowBounds_mem
    (high : 0 < canvas.frameHeight)
    (headroom : 1 ≤ canvas.titleHeight)
    (footroom : 1 ≤ canvas.subtitleHeight)
    (deep : depth ≤ maxDepth)
    (whole : height =
      (maxDepth + 1) * canvas.frameHeight + canvas.titleHeight + canvas.subtitleHeight) :
    (0 ≤ (rowBounds canvas height depth).1 ∧ (rowBounds canvas height depth).1 ≤ height) ∧
      0 ≤ (rowBounds canvas height depth).2 ∧ (rowBounds canvas height depth).2 ≤ height := by
  have gap : (Arithmetic.ofCount 1 : Rat) = 1 := Nat.cast_one
  have row : (Arithmetic.ofCount depth : Rat) = depth := rfl
  have above : 0 ≤ (depth : Rat) * canvas.frameHeight := by positivity
  have below : (depth : Rat) * canvas.frameHeight ≤ maxDepth * canvas.frameHeight :=
    mul_le_mul_of_nonneg_right (Nat.cast_le.mpr deep) high.le
  rw [rowBounds, gap, row]
  split
  · refine ⟨⟨?_, ?_⟩, ?_, ?_⟩ <;> linarith
  · refine ⟨⟨?_, ?_⟩, ?_, ?_⟩ <;> linarith

/-- Rows of different depths have a gap of a pixel between them. -/
theorem rowBounds_apart
    {deeper : Nat}
    (high : 0 < canvas.frameHeight)
    (height : Rat)
    (below : depth < deeper) :
    (rowBounds canvas height depth).2 + 1 ≤ (rowBounds canvas height deeper).1 ∨
      (rowBounds canvas height deeper).2 + 1 ≤ (rowBounds canvas height depth).1 := by
  have gap : (Arithmetic.ofCount 1 : Rat) = 1 := Nat.cast_one
  have row : ∀ count : Nat, (Arithmetic.ofCount count : Rat) = count := fun _ => rfl
  have next : ((depth : Rat) + 1) * canvas.frameHeight ≤ deeper * canvas.frameHeight := by
    apply mul_le_mul_of_nonneg_right _ high.le
    exact_mod_cast below
  simp only [rowBounds, gap, row]
  cases canvas.orientation with
  | icicle =>
      apply Or.inl
      simp only
      linarith
  | flame =>
      apply Or.inr
      simp only
      linarith

/-- A row is as far from a deeper one as there are rows between their tops, below it in an
icicle and above it in a flame. -/
theorem exists_rowBounds_eq
    (canvas : Canvas Rat)
    (height : Rat)
    (depth deeper : Nat) :
    ∃ shift : Rat,
      (shift = ((deeper : Rat) - depth) * canvas.frameHeight ∨
        shift = -(((deeper : Rat) - depth) * canvas.frameHeight)) ∧
      (rowBounds canvas height deeper).1 = (rowBounds canvas height depth).1 + shift ∧
      (rowBounds canvas height deeper).2 = (rowBounds canvas height depth).2 + shift := by
  have row : ∀ count : Nat, (Arithmetic.ofCount count : Rat) = count := fun _ => rfl
  simp only [rowBounds, row]
  cases canvas.orientation with
  | icicle => exact ⟨_, Or.inl rfl, by ring, by ring⟩
  | flame => exact ⟨_, Or.inr rfl, by ring, by ring⟩

/-- From end to end, rows of different depths do not overlap exactly if the rows from the one
to the other are at least a pixel high together. -/
theorem rowBounds_disjoint_iff
    {deeper : Nat}
    (high : 0 < canvas.frameHeight)
    (height : Rat)
    (below : depth < deeper) :
    (max (rowBounds canvas height depth).1 (rowBounds canvas height depth).2 ≤
          min (rowBounds canvas height deeper).1 (rowBounds canvas height deeper).2 ∨
        max (rowBounds canvas height deeper).1 (rowBounds canvas height deeper).2 ≤
          min (rowBounds canvas height depth).1 (rowBounds canvas height depth).2) ↔
      1 ≤ ((deeper : Rat) - depth + 1) * canvas.frameHeight := by
  have tall := sub_rowBounds canvas height depth
  obtain ⟨shift, isShift, top, bottom⟩ := exists_rowBounds_eq canvas height depth deeper
  have apart : canvas.frameHeight ≤ ((deeper : Rat) - depth) * canvas.frameHeight := by
    have one : (depth : Rat) + 1 ≤ deeper := by exact_mod_cast below
    exact le_mul_of_one_le_left high.le (by linarith)
  rw [top, bottom, max_add_add_right, min_add_add_right, add_mul, one_mul]
  generalize ((deeper : Rat) - depth) * canvas.frameHeight = distance at isShift apart ⊢
  -- The two ends of a row are a pixel less apart than the row is high.
  rcases le_total 1 canvas.frameHeight with upright | inverted
  · rw [max_eq_right (by linarith), min_eq_left (by linarith)]
    rcases isShift with rfl | rfl
    · exact iff_of_true (Or.inl (by linarith)) (by linarith)
    · exact iff_of_true (Or.inr (by linarith)) (by linarith)
  · rw [max_eq_left (by linarith), min_eq_right (by linarith)]
    rcases isShift with rfl | rfl
    · rw [or_iff_left (by linarith)]
      constructor <;> intro <;> linarith
    · rw [or_iff_right (by linarith)]
      constructor <;> intro <;> linarith

end Rows

/-! ## Frames in their rows -/

/-- A frame lies within a picture, its left side not to the right of its right side. -/
structure LiesWithin
    (width height : Rat)
    (frame : Frame Rat) : Prop where
  left : 0 ≤ frame.x1
  sides : frame.x1 ≤ frame.x2
  right : frame.x2 ≤ width
  top : 0 ≤ frame.y1 ∧ frame.y1 ≤ height
  bottom : 0 ≤ frame.y2 ∧ frame.y2 ≤ height

section Arranges

variable [NumberText Rat] {canvas : Canvas Rat} {tree : Tree Rat} {visible : List (Extent Rat)}
  {layout : Layout Rat} {frame : Frame Rat}

/-- A frame stands in the row of its depth. -/
theorem Arranges.row
    (arranges : Arranges canvas tree visible layout)
    (member : frame ∈ layout.frames) :
    frame.depth ≤ layout.maxDepth ∧
      frame.y1 = (rowBounds canvas layout.height frame.depth).1 ∧
      frame.y2 = (rowBounds canvas layout.height frame.depth).2 := by
  rw [arranges.frames] at member
  obtain ⟨extent, isVisible, rfl⟩ := List.mem_map.mp member
  exact ⟨arranges.deepest extent isVisible, rfl, rfl⟩

theorem Arranges.height_frame
    (arranges : Arranges canvas tree visible layout)
    (member : frame ∈ layout.frames) :
    frame.height = canvas.frameHeight - 1 := by
  obtain ⟨_, top, bottom⟩ := arranges.row member
  rw [← sub_rowBounds canvas layout.height frame.depth, ← top, ← bottom]
  rfl

theorem Arranges.liesWithin
    (arranges : Arranges canvas tree visible layout)
    (frames : AreNested canvas layout.frames)
    (padded : 0 ≤ canvas.xPadding)
    (high : 0 < canvas.frameHeight)
    (headroom : 1 ≤ canvas.titleHeight)
    (footroom : 1 ≤ canvas.subtitleHeight)
    (member : frame ∈ layout.frames) :
    LiesWithin layout.width layout.height frame := by
  obtain ⟨deep, top, bottom⟩ := arranges.row member
  obtain ⟨left, sides, right⟩ := frames.within frame member
  obtain ⟨topInside, bottomInside⟩ :=
    rowBounds_mem high headroom footroom deep arranges.height
  constructor
  case left => exact padded.trans left
  case sides => exact sides.le
  case right =>
    rw [arranges.width]
    exact right.trans (sub_le_self _ padded)
  case top =>
    rw [top]
    exact topInside
  case bottom =>
    rw [bottom]
    exact bottomInside

/-- Frames of different depths have a pixel between them where they are upright. -/
theorem Arranges.gap
    (arranges : Arranges canvas tree visible layout)
    (upright : 1 ≤ canvas.frameHeight)
    {first second : Frame Rat}
    (firstMember : first ∈ layout.frames)
    (secondMember : second ∈ layout.frames)
    (below : first.depth < second.depth) :
    first.lower + 1 ≤ second.upper ∨ second.lower + 1 ≤ first.upper := by
  have ordered : ∀ frame ∈ layout.frames, frame.y1 ≤ frame.y2 := by
    intro frame member
    rw [← sub_nonneg]
    exact (sub_nonneg.mpr upright).trans_eq (arranges.height_frame member).symm
  rw [Frame.upper, Frame.lower, Frame.upper, Frame.lower, max_eq_right (ordered first firstMember),
    max_eq_right (ordered second secondMember), min_eq_left (ordered first firstMember),
    min_eq_left (ordered second secondMember)]
  obtain ⟨_, firstTop, firstBottom⟩ := arranges.row firstMember
  obtain ⟨_, secondTop, secondBottom⟩ := arranges.row secondMember
  rw [firstTop, firstBottom, secondTop, secondBottom]
  exact rowBounds_apart (zero_lt_one.trans_le upright) layout.height below

/-- Whether frames of different depths overlap depends on the height of the rows and on how
many of them there are from the one to the other. -/
theorem Arranges.disjoint_iff
    (arranges : Arranges canvas tree visible layout)
    (high : 0 < canvas.frameHeight)
    {first second : Frame Rat}
    (firstMember : first ∈ layout.frames)
    (secondMember : second ∈ layout.frames)
    (below : first.depth < second.depth) :
    (first.lower ≤ second.upper ∨ second.lower ≤ first.upper) ↔
      1 ≤ ((second.depth : Rat) - first.depth + 1) * canvas.frameHeight := by
  obtain ⟨_, firstTop, firstBottom⟩ := arranges.row firstMember
  obtain ⟨_, secondTop, secondBottom⟩ := arranges.row secondMember
  rw [Frame.upper, Frame.lower, Frame.upper, Frame.lower, firstTop, firstBottom, secondTop,
    secondBottom]
  exact rowBounds_disjoint_iff high layout.height below

end Arranges

/-- Whatever the options, there are margins on all sides. -/
theorem margins_canvas (options : DrawingOptions Rat) :
    0 ≤ options.canvas.xPadding ∧ 1 ≤ options.canvas.titleHeight ∧
      1 ≤ options.canvas.subtitleHeight := by
  have padding : options.canvas.xPadding = ((10 : Nat) : Rat) := rfl
  have title : options.canvas.titleHeight = ((3 * 12 : Nat) : Rat) := rfl
  have subtitle : options.canvas.subtitleHeight = ((2 * 12 : Nat) : Rat) := rfl
  rw [padding, title, subtitle]
  norm_num

/-- How the frames of a layout stand in rows of a height. They lie within the picture and
none is of negative width. They are upright, with a pixel between those of different depths, if
the rows are at least a pixel high, and else upside down. -/
structure StandInRows
    (rowHeight : Rat)
    (layout : Layout Rat) : Prop where
  within : ∀ frame ∈ layout.frames, LiesWithin layout.width layout.height frame
  wide : ∀ frame ∈ layout.frames, 0 ≤ frame.width
  upright : ∀ frame ∈ layout.frames, frame.y1 ≤ frame.y2 ↔ 1 ≤ rowHeight
  high : ∀ frame ∈ layout.frames, 0 ≤ frame.height ↔ 1 ≤ rowHeight
  gap : 1 ≤ rowHeight → ∀ first ∈ layout.frames, ∀ second ∈ layout.frames,
    first.depth < second.depth →
      first.lower + 1 ≤ second.upper ∨ second.lower + 1 ≤ first.upper
  /-- Frames overlap from top to bottom unless the rows from the one to the other are at least
  a pixel high together. -/
  disjoint : ∀ first ∈ layout.frames, ∀ second ∈ layout.frames, first.depth < second.depth →
    ((first.lower ≤ second.upper ∨ second.lower ≤ first.upper) ↔
      1 ≤ ((second.depth : Rat) - first.depth + 1) * rowHeight)

/-- Valid options draw proper rectangles exactly if their rows are at least one pixel
high. For resources with positive amounts every frame lies within the picture, its left
side not to the right of its right side. But a frame is one pixel less high than its row:
its top is above its bottom, and its rectangle has a height that is not negative, if and
only if the row height is at least one. Frames of different depths have a gap between them
then, and do not overlap in rows of at least half a pixel either; in lower rows those of
neighbouring depths do. -/
theorem liesWithin_ofResources
    (resources : List (Resource Rat))
    (nonempty : resources ≠ [])
    (positive : ∀ resource ∈ resources, 0 < resource.amount)
    (options : DrawingOptions Rat)
    (valid : options.validate = .ok ()) :
    ∀ [NumberText Rat], ∃ (tree : Tree Rat) (layout : Layout Rat),
      Tree.ofStacks (Stack.ofResources resources) = .ok tree ∧
      ofTree options.canvas tree tree.total = .ok layout ∧
      Picture.ofStacks options (Stack.ofResources resources) =
        .ok (Picture.ofLayout layout options.title options.subtitle fun frame =>
          Colour.ofFailure frame.failed) ∧
      layout.StandInRows options.frameHeight := by
  intro text
  obtain ⟨tree, built, nested, heavy⟩ := Tree.exists_isNested positive nonempty
  obtain ⟨roomy, high, _⟩ := (DrawingOptions.validate_eq_ok_iff options).mp valid
  obtain ⟨layout, visible, laidOut, arranges⟩ := exists_arranges nested heavy roomy
  obtain ⟨padded, headroom, footroom⟩ := margins_canvas options
  have frames := arranges.areNested nested heavy roomy
  have within : ∀ frame ∈ layout.frames, LiesWithin layout.width layout.height frame :=
    fun _ => arranges.liesWithin frames padded high headroom footroom
  have height : ∀ frame ∈ layout.frames, frame.y2 - frame.y1 = options.frameHeight - 1 :=
    fun _ => arranges.height_frame
  refine ⟨tree, layout, built, laidOut, ?_, ?_⟩
  · rw [Picture.ofStacks, built]
    simp only [Picture.ofTree, laidOut]
    rfl
  constructor
  case within => exact within
  case wide => exact fun frame member => sub_nonneg.mpr (within frame member).sides
  case upright =>
    intro frame member
    rw [← sub_nonneg, height frame member, sub_nonneg]
  case high =>
    intro frame member
    change 0 ≤ frame.y2 - frame.y1 ↔ _
    rw [height frame member, sub_nonneg]
  case gap =>
    intro upright first firstMember second secondMember below
    exact arranges.gap upright firstMember secondMember below
  case disjoint =>
    intro first firstMember second secondMember below
    exact arranges.disjoint_iff high firstMember secondMember below

/-- Valid options with rows of half a pixel. -/
def shallowOptions : DrawingOptions Rat :=
  { (DrawingOptions.standard : DrawingOptions Rat) with frameHeight := 1 / 2 }

theorem liesWithin_ofResources_uneven :
    unevenResources ≠ [] ∧ (∀ resource ∈ unevenResources, 0 < resource.amount) ∧
    shallowOptions.validate = .ok () ∧
    ∀ [NumberText Rat], ∃ (tree : Tree Rat) (layout : Layout Rat),
      Tree.ofStacks (Stack.ofResources unevenResources) = .ok tree ∧
      ofTree shallowOptions.canvas tree tree.total = .ok layout ∧
      Picture.ofStacks shallowOptions (Stack.ofResources unevenResources) =
        .ok (Picture.ofLayout layout shallowOptions.title shallowOptions.subtitle fun frame =>
          Colour.ofFailure frame.failed) ∧
      layout.StandInRows shallowOptions.frameHeight := by
  have nonempty : unevenResources ≠ [] := List.cons_ne_nil _ _
  have positive : ∀ resource ∈ unevenResources, 0 < resource.amount := by decide +kernel
  have valid : shallowOptions.validate = .ok () := by decide +kernel
  exact ⟨nonempty, positive, valid,
    liesWithin_ofResources unevenResources nonempty positive shallowOptions valid⟩

/-- The one resource of a call. -/
def loneResources : List (Resource Rat) :=
  [⟨1, ⟨"a.py", "f", 1⟩, "1", timeKind, 1, [], []⟩]

/-- Valid options need not draw proper rectangles: rows of half a pixel leave frames with
the bottom above the top. -/
theorem exists_inverted_frame :
    loneResources ≠ [] ∧ (∀ resource ∈ loneResources, 0 < resource.amount) ∧
    shallowOptions.validate = .ok () ∧
    ∀ [NumberText Rat], ∃ (tree : Tree Rat) (layout : Layout Rat),
      Tree.ofStacks (Stack.ofResources loneResources) = .ok tree ∧
      ofTree shallowOptions.canvas tree tree.total = .ok layout ∧
      ∃ frame ∈ layout.frames, frame.y2 < frame.y1 ∧ frame.height < 0 := by
  have nonempty : loneResources ≠ [] := List.cons_ne_nil _ _
  have positive : ∀ resource ∈ loneResources, 0 < resource.amount := by decide +kernel
  have valid : shallowOptions.validate = .ok () := by decide +kernel
  refine ⟨nonempty, positive, valid, ?_⟩
  intro text
  obtain ⟨tree, built, nested, heavy⟩ := Tree.exists_isNested positive nonempty
  obtain ⟨roomy, _, _⟩ := (DrawingOptions.validate_eq_ok_iff shallowOptions).mp valid
  obtain ⟨layout, visible, laidOut, arranges⟩ := exists_arranges nested heavy roomy
  -- The root is as wide as the room between the margins, so it is not left out.
  have isTree : Tree.ofStacks (Stack.ofResources loneResources) =
      .ok ⟨[⟨"f", 1, some 0, 1, 1, false, none⟩, ⟨"", 0, some 0, 1, 1, false, none⟩], 1⟩ := by
    decide +kernel
  obtain rfl := Except.ok.inj (built.symm.trans isTree)
  have shown : frameOf shallowOptions.canvas layout ⟨"", 0, some 0, 1, 1, false, none⟩ ∈
      layout.frames := by
    have enough : shallowOptions.canvas.minWidth ≤
        shallowOptions.canvas.width - 2 * shallowOptions.canvas.xPadding := by decide +kernel
    have whole : Node.width (⟨"", 0, some 0, 1, 1, false, none⟩ : Node Rat) = 1 := by
      decide +kernel
    rw [(arranges.frames_perm nested).mem_iff, List.mem_filter, decide_eq_true_iff,
      width_frameOf rfl, whole, mul_comm]
    refine ⟨List.mem_map_of_mem (by simp), ?_⟩
    rwa [← arranges.scale] at enough
  have short : (frameOf shallowOptions.canvas layout
      ⟨"", 0, some 0, 1, 1, false, none⟩).height < 0 := by
    rw [arranges.height_frame shown]
    decide +kernel
  exact ⟨_, layout, built, laidOut, _, shown, sub_neg.mp short, short⟩

end Layout
end FlameProfile
