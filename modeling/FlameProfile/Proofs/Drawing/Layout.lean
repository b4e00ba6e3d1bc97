import Mathlib
import FlameProfile.Drawing.Picture
import FlameProfile.Proofs.Sorting
import FlameProfile.Proofs.Tree.Nesting

/-!
# Laid out frames

In exact arithmetic a layout keeps the nodes of a nested tree that are wide enough and
scales them; the frames of a row come from left to right. Scaling keeps what lies side
by side and what lies within what, and a caller is at least as wide as its callees, so
it is kept where they are: the frames of a layout are nested as the nodes of the tree.
-/

namespace FlameProfile
namespace Layout

/-! ## Order of extents -/

section Order

variable {canvas : Canvas Rat} {widthPerUnit : Rat} {first second : Extent Rat}

/-- In exact arithmetic every edge has a position. -/
theorem lost_eq_false
    (canvas : Canvas Rat)
    (widthPerUnit : Rat)
    (extent : Extent Rat) :
    lost canvas widthPerUnit extent = false := by
  simp [lost]

/-- Extents are ordered by depth, then by the positions of their starts. -/
theorem order_eq_compare (first second : Extent Rat) :
    order canvas widthPerUnit first second =
      compare (toLex (first.node.depth, position canvas widthPerUnit first.start))
        (toLex (second.node.depth, position canvas widthPerUnit second.start)) := by
  rw [order, lost_eq_false, lost_eq_false, Arithmetic.rank_eq_compare]
  rfl

/-- Extents are ordered by their depths, and in a row from left to right. -/
theorem order_eq_lt_iff :
    order canvas widthPerUnit first second = .lt ↔
      first.node.depth < second.node.depth ∨
        first.node.depth = second.node.depth ∧
          position canvas widthPerUnit first.start < position canvas widthPerUnit second.start := by
  rw [order_eq_compare, compare_lt_iff_lt, Prod.Lex.toLex_lt_toLex]

/-- The order of extents is one to sort by. -/
theorem isWeak_order
    (canvas : Canvas Rat)
    (widthPerUnit : Rat) :
    Sorting.IsWeak (order canvas widthPerUnit) := by
  have compares : order canvas widthPerUnit = _ :=
    funext fun first => funext fun second => order_eq_compare first second
  rw [compares]
  exact Sorting.isWeak_compare fun extent : Extent Rat =>
    toLex (extent.node.depth, position canvas widthPerUnit extent.start)

end Order

/-! ## Extents of nested nodes -/

/-- The extent of a node. -/
def Extent.ofNode (node : Node Rat) : Extent Rat :=
  ⟨node, node.origin, node.finish⟩

/-- The weight of an extent is the width of its node. -/
theorem weight_ofNode
    {node : Node Rat}
    (started : node.start = some node.origin) :
    (Extent.ofNode node).weight = node.width := by
  rw [Node.width, started]
  rfl

/-- Where every start is known and the root ends with the whole, extents are those of the
nodes. -/
theorem extents_eq
    {total : Rat}
    {nodes : List (Node Rat)}
    (started : ∀ node ∈ nodes, node.start = some node.origin)
    (root : ∀ node ∈ nodes, node.depth = 0 → node.finish = total) :
    extents total nodes = .ok (nodes.map Extent.ofNode) := by
  induction nodes with
  | nil => rfl
  | cons node rest inductionHypothesis =>
      obtain ⟨isStarted, restStarted⟩ := List.forall_mem_cons.mp started
      obtain ⟨isRoot, restRoot⟩ := List.forall_mem_cons.mp root
      have finish : (if node.isRoot then total else node.finish) = node.finish := by
        split
        next outermost =>
          rw [Node.isRoot, Bool.and_eq_true, decide_eq_true_iff] at outermost
          exact (isRoot outermost.1).symm
        next => rfl
      rw [extents, isStarted]
      simp only [inductionHypothesis restStarted restRoot, finish]
      rfl

/-- No extent of a list is deeper than the deepest. -/
theorem depth_le_foldl_max
    {extents : List (Extent Rat)}
    {extent : Extent Rat}
    (member : extent ∈ extents) :
    extent.node.depth ≤ (extents.map fun extent => extent.node.depth).foldl max 0 := by
  have depth : extent.node.depth ∈ extents.map fun extent => extent.node.depth :=
    List.mem_map_of_mem member
  rw [List.foldl_max]
  exact (List.le_max?_getD_of_mem depth).trans (le_max_right _ _)

/-! ## Arrangements -/

variable [NumberText Rat]

/-- A layout has the nodes of a tree that are wide enough, in their order. -/
structure Arranges
    (canvas : Canvas Rat)
    (tree : Tree Rat)
    (visible : List (Extent Rat))
    (layout : Layout Rat) : Prop where
  frames : layout.frames =
    visible.map (place canvas layout.total layout.widthPerUnit layout.height)
  perm : visible.Perm
    ((tree.nodes.filter fun node => canvas.minWidth ≤ node.width * layout.widthPerUnit).map
      Extent.ofNode)
  sorted : Sorting.IsSorted (order canvas layout.widthPerUnit) visible
  deepest : ∀ extent ∈ visible, extent.node.depth ≤ layout.maxDepth
  total : layout.total = tree.total
  scale : layout.widthPerUnit * tree.total = canvas.width - 2 * canvas.xPadding
  width : layout.width = canvas.width
  height : layout.height =
    (layout.maxDepth + 1) * canvas.frameHeight + canvas.titleHeight + canvas.subtitleHeight

/-- A nested tree that weighs something is laid out wherever there is room between the
margins. -/
theorem exists_arranges
    {canvas : Canvas Rat}
    {tree : Tree Rat}
    (nested : tree.IsNested)
    (heavy : 0 < tree.total)
    (roomy : 2 * canvas.xPadding < canvas.width) :
    ∃ layout visible, ofTree canvas tree tree.total = .ok layout ∧
      Arranges canvas tree visible layout := by
  have scaled : 0 < (canvas.width - 2 * canvas.xPadding) / tree.total :=
    div_pos (sub_pos.mpr roomy) heavy
  have known := extents_eq nested.started fun node member outermost =>
    (nested.root node member outermost).2
  have weighty : ¬ (tree.total ≤ 0 ∨ Arithmetic.isFinite tree.total = false) := by
    rw [not_or]
    exact ⟨not_le.mpr heavy, Bool.true_eq_false_eq_False⟩
  have laidOut : ∃ layout, ofTree canvas tree tree.total = .ok layout := by
    rw [ofTree, if_neg weighty]
    simp only [known]
    exact ⟨_, rfl⟩
  obtain ⟨layout, laidOut⟩ := laidOut
  refine ⟨layout, Sorting.sort (order canvas layout.widthPerUnit)
    ((tree.nodes.map Extent.ofNode).filter fun extent =>
      !decide (extent.weight < canvas.minWidth / layout.widthPerUnit)), laidOut, ?_⟩
  rw [ofTree, if_neg weighty] at laidOut
  simp only [known] at laidOut
  obtain rfl := (Except.ok.inj laidOut).symm
  constructor
  case frames => rfl
  case total => rfl
  case width => rfl
  case scale => exact div_mul_cancel₀ _ heavy.ne'
  case height =>
    rw [← Nat.cast_add_one]
    rfl
  case sorted => exact Sorting.isSorted_sort (isWeak_order _ _) _
  case deepest =>
    intro extent member
    exact depth_le_foldl_max ((Sorting.sort_perm _ _).mem_iff.mp member)
  case perm =>
    refine (Sorting.sort_perm _ _).trans (List.Perm.of_eq ?_)
    rw [List.filter_map]
    congr 1
    apply List.filter_congr
    intro node member
    rw [Function.comp_apply, weight_ofNode (nested.started node member), ← decide_not]
    apply decide_eq_decide.mpr
    rw [not_lt, div_le_iff₀]
    exact scaled

/-! ## Nested frames -/

omit [NumberText Rat] in
/-- Scaling keeps what is not to the right. -/
theorem position_le_position
    {widthPerUnit first second : Rat}
    (scaled : 0 ≤ widthPerUnit)
    (canvas : Canvas Rat)
    (below : first ≤ second) :
    position canvas widthPerUnit first ≤ position canvas widthPerUnit second :=
  add_le_add_right (mul_le_mul_of_nonneg_right below scaled) _

omit [NumberText Rat] in
/-- Scaling by a positive factor keeps what is to the left. -/
theorem position_lt_position
    {widthPerUnit first second : Rat}
    (scaled : 0 < widthPerUnit)
    (canvas : Canvas Rat)
    (below : first < second) :
    position canvas widthPerUnit first < position canvas widthPerUnit second :=
  add_lt_add_right (mul_lt_mul_of_pos_right below scaled) _

/-- Frames come row by row and from left to right, and lie within the frames of their
callers, the outermost of which spans everything between the margins. -/
structure AreNested
    (canvas : Canvas Rat)
    (frames : List (Frame Rat)) : Prop where
  ordered : frames.Pairwise fun first second =>
    first.depth < second.depth ∨ first.depth = second.depth ∧ first.x2 ≤ second.x1
  caller : ∀ frame ∈ frames, 0 < frame.depth → ∃ outer ∈ frames,
    outer.depth + 1 = frame.depth ∧ outer.x1 ≤ frame.x1 ∧ frame.x2 ≤ outer.x2
  within : ∀ frame ∈ frames, canvas.xPadding ≤ frame.x1 ∧ frame.x1 < frame.x2 ∧
    frame.x2 ≤ canvas.width - canvas.xPadding
  root : ∀ frame ∈ frames, frame.depth = 0 →
    frame.x1 = canvas.xPadding ∧ frame.x2 = canvas.width - canvas.xPadding

section Arranges

variable {canvas : Canvas Rat} {tree : Tree Rat} {visible : List (Extent Rat)}
  {layout : Layout Rat}

/-- A picture with room between its margins scales by a positive factor. -/
theorem Arranges.scaled
    (arranges : Arranges canvas tree visible layout)
    (heavy : 0 < tree.total)
    (roomy : 2 * canvas.xPadding < canvas.width) :
    0 < layout.widthPerUnit := by
  rw [← mul_pos_iff_of_pos_right heavy, arranges.scale]
  exact sub_pos.mpr roomy

/-- What is visible are the nodes of the tree that are wide enough. -/
theorem Arranges.mem_visible
    (arranges : Arranges canvas tree visible layout)
    {extent : Extent Rat} :
    extent ∈ visible ↔ ∃ node ∈ tree.nodes,
      canvas.minWidth ≤ node.width * layout.widthPerUnit ∧ Extent.ofNode node = extent := by
  rw [arranges.perm.mem_iff]
  simp [and_assoc]

/-- Visible extents of one depth lie side by side, the left one first. -/
theorem Arranges.ordered
    (arranges : Arranges canvas tree visible layout)
    (nested : tree.IsNested)
    (scaled : 0 < layout.widthPerUnit) :
    visible.Pairwise fun first second =>
      first.node.depth < second.node.depth ∨
        first.node.depth = second.node.depth ∧ first.finish ≤ second.start := by
  have apart : visible.Pairwise fun first second => first.node.depth = second.node.depth →
      first.finish ≤ second.start ∨ second.finish ≤ first.start := by
    rw [arranges.perm.pairwise_iff, List.pairwise_map]
    · exact nested.apart.filter _
    · intro first second either same
      exact (either same.symm).symm
  apply (arranges.sorted.and apart).imp_of_mem
  rintro first second firstMember secondMember ⟨notBefore, sideBySide⟩
  rw [Ne, order_eq_lt_iff, not_or, not_and, not_lt, not_lt] at notBefore
  rcases notBefore.1.lt_or_eq with higher | same
  · exact Or.inl higher
  · refine Or.inr ⟨same, (sideBySide same).resolve_right ?_⟩
    -- The second extent would begin before it ends, and so to the left of the first.
    intro swapped
    obtain ⟨node, nodeMember, _, rfl⟩ := arranges.mem_visible.mp secondMember
    have left := (nested.spans node nodeMember).2.1.trans_le swapped
    exact absurd (position_lt_position scaled canvas left) (not_lt.mpr (notBefore.2 same.symm))

/-- The frames of a nested tree are nested. -/
theorem Arranges.areNested
    (arranges : Arranges canvas tree visible layout)
    (nested : tree.IsNested)
    (heavy : 0 < tree.total)
    (roomy : 2 * canvas.xPadding < canvas.width) :
    AreNested canvas layout.frames := by
  have scaled := arranges.scaled heavy roomy
  have leftEdge : position canvas layout.widthPerUnit 0 = canvas.xPadding := by
    rw [position, zero_mul, add_zero]
  have rightEdge : position canvas layout.widthPerUnit tree.total =
      canvas.width - canvas.xPadding := by
    rw [position, mul_comm, arranges.scale]
    ring
  rw [arranges.frames]
  constructor
  case ordered =>
    rw [List.pairwise_map]
    apply (arranges.ordered nested scaled).imp
    rintro first second (higher | ⟨same, below⟩)
    · exact Or.inl higher
    · exact Or.inr ⟨same, position_le_position scaled.le canvas below⟩
  case caller =>
    rw [List.forall_mem_map]
    intro extent member inner
    obtain ⟨node, nodeMember, wide, rfl⟩ := arranges.mem_visible.mp member
    obtain ⟨outer, outerMember, above, starts, ends⟩ := nested.caller node nodeMember inner
    have wider : node.width ≤ outer.width := by
      rw [← weight_ofNode (nested.started node nodeMember),
        ← weight_ofNode (nested.started outer outerMember)]
      exact sub_le_sub ends starts
    have outerVisible : Extent.ofNode outer ∈ visible :=
      arranges.mem_visible.mpr ⟨outer, outerMember,
        wide.trans (mul_le_mul_of_nonneg_right wider scaled.le), rfl⟩
    exact ⟨_, List.mem_map_of_mem outerVisible, above,
      position_le_position scaled.le canvas starts, position_le_position scaled.le canvas ends⟩
  case within =>
    rw [List.forall_mem_map]
    intro extent member
    obtain ⟨node, nodeMember, _, rfl⟩ := arranges.mem_visible.mp member
    obtain ⟨begins, wide, ends⟩ := nested.spans node nodeMember
    rw [← rightEdge, ← leftEdge]
    exact ⟨position_le_position scaled.le canvas begins,
      position_lt_position scaled canvas wide, position_le_position scaled.le canvas ends⟩
  case root =>
    rw [List.forall_mem_map]
    intro extent member outermost
    obtain ⟨node, nodeMember, _, rfl⟩ := arranges.mem_visible.mp member
    obtain ⟨begins, ends⟩ := nested.root node nodeMember outermost
    rw [← rightEdge, ← leftEdge, ← begins, ← ends]
    exact ⟨rfl, rfl⟩

/-! ## Frames of nodes -/

/-- The frame that a node has in a layout. -/
def frameOf
    (canvas : Canvas Rat)
    (layout : Layout Rat)
    (node : Node Rat) : Frame Rat :=
  place canvas layout.total layout.widthPerUnit layout.height (Extent.ofNode node)

/-- The frame of a node is as wide as the node, scaled. -/
theorem width_frameOf
    {node : Node Rat}
    (started : node.start = some node.origin)
    (canvas : Canvas Rat)
    (layout : Layout Rat) :
    (frameOf canvas layout node).width = node.width * layout.widthPerUnit := by
  rw [← weight_ofNode started]
  change position canvas layout.widthPerUnit node.finish -
    position canvas layout.widthPerUnit node.origin =
      (node.finish - node.origin) * layout.widthPerUnit
  rw [position, position]
  ring

/-- The frames of a layout are those of the nodes that are wide enough. -/
theorem Arranges.frames_perm
    (arranges : Arranges canvas tree visible layout)
    (nested : tree.IsNested) :
    layout.frames.Perm ((tree.nodes.map (frameOf canvas layout)).filter fun frame =>
      canvas.minWidth ≤ frame.width) := by
  have wideEnough : (tree.nodes.filter fun node =>
      canvas.minWidth ≤ node.width * layout.widthPerUnit) =
        tree.nodes.filter fun node => canvas.minWidth ≤ (frameOf canvas layout node).width := by
    apply List.filter_congr
    intro node member
    rw [width_frameOf (nested.started node member)]
  rw [arranges.frames, List.filter_map]
  refine (arranges.perm.map _).trans (List.Perm.of_eq ?_)
  rw [List.map_map, wideEnough]
  rfl

end Arranges

end Layout

/-! ## Valid options -/

namespace DrawingOptions

/-- Valid options leave room between the margins, and rows and least widths are what they
can be. -/
theorem validate_eq_ok_iff (options : DrawingOptions Rat) :
    options.validate = .ok () ↔
      2 * options.canvas.xPadding < options.canvas.width ∧ 0 < options.frameHeight ∧
        0 ≤ options.minWidth := by
  have margins : (Arithmetic.ofCount 2 * Canvas.margin : Rat) = 2 * options.canvas.xPadding := rfl
  have width : options.canvas.width = options.width := rfl
  rw [validate, margins, width]
  split_ifs with roomy high wide
  · simp [roomy, high, wide]
  · simp [wide]
  · simp [high]
  · simp [roomy]

end DrawingOptions

namespace Layout

/-- A call with two callees, one of which takes almost no time. -/
def unevenResources : List (Resource Rat) :=
  [ ⟨3, ⟨"a.py", "main", 1⟩, "1", timeKind, 1, [], []⟩,
    ⟨1 / 1000, ⟨"a.py", "idle", 9⟩, "1", timeKind, 1, [⟨"a.py", "main", 1⟩], []⟩,
    ⟨2, ⟨"a.py", "work", 5⟩, "2", timeKind, 2, [⟨"a.py", "main", 1⟩], ["ValueError"]⟩ ]

end Layout
end FlameProfile
