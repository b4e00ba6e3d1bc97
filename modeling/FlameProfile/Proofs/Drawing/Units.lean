import Mathlib
import FlameProfile.Drawing.Picture
import FlameProfile.Proofs.Drawing.Markup

/-!
# Pictures in other units

The unit stands in the tooltip of each frame and nowhere else in a picture. Two pictures
that differ in their units alone are therefore the same document exactly if the units are
the same or no frame is drawn.
-/

namespace FlameProfile

/-! ## Texts with gaps -/

/-- A text with gaps: each part stands before and behind one of them. -/
def fillGaps
    (parts : List (String × String))
    (text : String) : String :=
  String.join (parts.map fun part => part.1 ++ text ++ part.2)

theorem toList_fillGaps
    (parts : List (String × String))
    (text : String) :
    (fillGaps parts text).toList =
      parts.flatMap fun part => part.1.toList ++ text.toList ++ part.2.toList := by
  simp [fillGaps, List.flatMap_def, Function.comp_def]

/-- Each gap makes a text longer by what fills it. -/
theorem length_toList_fillGaps
    (parts : List (String × String))
    (text : String) :
    (fillGaps parts text).toList.length =
      (fillGaps parts "").toList.length + parts.length * text.toList.length := by
  rw [toList_fillGaps, toList_fillGaps]
  induction parts with
  | nil => simp
  | cons part parts inductionHypothesis =>
      simp only [List.flatMap_cons, List.length_append, List.length_cons, inductionHypothesis]
      simp
      ring

/-- A text with a gap tells what fills its gaps. -/
theorem fillGaps_inj
    {parts : List (String × String)}
    (someGap : parts ≠ [])
    {first second : String}
    (same : fillGaps parts first = fillGaps parts second) :
    first = second := by
  have lengths : first.toList.length = second.toList.length := by
    have whole := congrArg (fun text => text.toList.length) same
    simp only [length_toList_fillGaps parts first, length_toList_fillGaps parts second] at whole
    exact Nat.eq_of_mul_eq_mul_left (List.length_pos_iff.mpr someGap) (Nat.add_left_cancel whole)
  have symbols := congrArg String.toList same
  obtain ⟨part, more, rfl⟩ := List.exists_cons_of_ne_nil someGap
  simp only [toList_fillGaps, List.flatMap_cons, List.append_assoc] at symbols
  exact String.toList_injective (List.append_inj (List.append_cancel_left symbols) lengths).1

/-! ## Frames -/

variable {Number : Type} [Arithmetic Number] [NumberText Number]

/-- A tooltip has one gap for the unit. -/
theorem Frame.exists_tooltip
    (label : String)
    (isRoot : Bool)
    (weight total : Number)
    (delta : Option Number) :
    ∃ before behind, ∀ unit,
      Frame.tooltip label isRoot weight total delta unit = before ++ (unit ++ behind) := by
  cases isRoot with
  | true =>
      exact ⟨"all (" ++ (NumberText.fixed 6 weight ++ " "), ", 100%)", fun unit => by
        simp [Frame.tooltip, String.append_assoc]⟩
  | false =>
      exact ⟨label ++ (" (" ++ (NumberText.fixed 6 weight ++ " ")), _, fun unit => by
        simp only [Frame.tooltip, Bool.false_eq_true, if_false, String.append_assoc]
        rfl⟩

namespace Picture

/-- What a drawn frame shows behind its tooltip does not depend on the tooltip. -/
theorem exists_frame
    (fill : Frame Number -> Colour)
    (drawn : Frame Number)
    (fixed : ∀ info, fill { drawn with info := info } = fill drawn) :
    ∃ behind, ∀ info,
      frame fill { drawn with info := info } =
        "<g><title>" ++ (Markup.escape info ++ behind) := by
  apply Exists.intro
  intro info
  unfold frame
  rw [fixed]
  simp only [Frame.width, Frame.height, String.append_assoc]
  rfl

/-- A drawn frame has one gap for the escaped unit. -/
theorem exists_frame_place
    (canvas : Canvas Number)
    (total widthPerUnit height : Number)
    (extent : Layout.Extent Number) :
    ∃ part : String × String, ∀ unit,
      frame (fun drawn => Colour.ofFailure drawn.failed)
          (Layout.place { canvas with unit := unit } total widthPerUnit height extent) =
        part.1 ++ Markup.escape unit ++ part.2 := by
  obtain ⟨before, behind, tooltip⟩ := Frame.exists_tooltip extent.node.label extent.node.isRoot
    extent.weight total extent.node.delta
  obtain ⟨rest, drawn⟩ := exists_frame (fun drawn => Colour.ofFailure drawn.failed)
    (Layout.place canvas total widthPerUnit height extent) fun _ => rfl
  refine ⟨("<g><title>" ++ Markup.escape before, Markup.escape behind ++ rest), fun unit => ?_⟩
  refine (drawn (Frame.tooltip extent.node.label extent.node.isRoot extent.weight total
    extent.node.delta unit)).trans ?_
  simp only [tooltip, Markup.escape_append, String.append_assoc]

/-- Drawn frames have one gap each for the escaped unit. -/
theorem exists_frames_place
    (canvas : Canvas Number)
    (total widthPerUnit height : Number)
    (visible : List (Layout.Extent Number)) :
    ∃ parts : List (String × String), parts.length = visible.length ∧ ∀ unit,
      String.join ((visible.map
          (Layout.place { canvas with unit := unit } total widthPerUnit height)).map
        (frame fun drawn => Colour.ofFailure drawn.failed)) =
        fillGaps parts (Markup.escape unit) := by
  choose part drawn using exists_frame_place canvas total widthPerUnit height
  refine ⟨visible.map part, List.length_map part, fun unit => ?_⟩
  rw [fillGaps, List.map_map, List.map_map]
  exact congrArg String.join (List.map_congr_left fun extent _ => drawn extent unit)

end Picture

/-! ## Layouts -/

namespace Layout

omit [Arithmetic Number] [NumberText Number] in
/-- Where every start is known the nodes have extents. -/
theorem exists_extents
    {total : Number}
    {nodes : List (Node Number)}
    (started : ∀ node ∈ nodes, node.start ≠ none) :
    ∃ all, extents total nodes = .ok all := by
  induction nodes with
  | nil => exact ⟨[], rfl⟩
  | cons node rest inductionHypothesis =>
      obtain ⟨isStarted, restStarted⟩ := List.forall_mem_cons.mp started
      obtain ⟨start, isStart⟩ := Option.ne_none_iff_exists'.mp isStarted
      obtain ⟨others, found⟩ := inductionHypothesis restStarted
      rw [extents, isStart]
      simp only [found]
      exact ⟨_, rfl⟩

/-- An extent is that of one of some nodes: it covers the range of the node, or at the root
all that there is from its start on. -/
structure Extent.IsOf
    (nodes : List (Node Number))
    (total : Number)
    (extent : Extent Number) : Prop where
  node : extent.node ∈ nodes
  start : extent.node.start = some extent.start
  finish : extent.finish = if extent.node.isRoot then total else extent.node.finish

omit [Arithmetic Number] [NumberText Number] in
/-- Extents are those of the nodes that they were made of. -/
theorem isOf_of_mem_extents
    {total : Number}
    {nodes : List (Node Number)}
    {all : List (Extent Number)}
    (found : extents total nodes = .ok all) :
    ∀ extent ∈ all, extent.IsOf nodes total := by
  induction nodes generalizing all with
  | nil =>
      cases found
      exact List.forall_mem_nil _
  | cons node rest inductionHypothesis =>
      rw [extents] at found
      split at found
      next => cases found
      next start isStart =>
        split at found
        next => cases found
        next others restFound =>
          cases found
          refine List.forall_mem_cons.mpr ⟨⟨List.mem_cons_self, isStart, rfl⟩, ?_⟩
          intro extent member
          have isOf := inductionHypothesis restFound extent member
          exact ⟨List.mem_cons_of_mem node isOf.node, isOf.start, isOf.finish⟩

/-- The frames of a layout are placed nodes of its tree. -/
theorem exists_visible
    {canvas : Canvas Number}
    {tree : Tree Number}
    {total : Number}
    {layout : Layout Number}
    (laidOut : ofTree canvas tree total = .ok layout) :
    ∃ visible : List (Extent Number),
      layout.frames = visible.map (place canvas total layout.widthPerUnit layout.height) ∧
      ∀ extent ∈ visible, extent.IsOf tree.nodes total := by
  rw [ofTree] at laidOut
  split at laidOut
  next => cases laidOut
  next =>
    cases found : extents total tree.nodes with
    | error fault =>
        rw [found] at laidOut
        cases laidOut
    | ok all =>
        rw [found] at laidOut
        cases laidOut
        refine ⟨_, rfl, fun extent member => ?_⟩
        have isVisible := (Sorting.sort_perm _ _).mem_iff.mp member
        exact isOf_of_mem_extents found extent (List.mem_of_mem_filter isVisible)

/-- The unit of a canvas moves no frame and hides none. -/
theorem exists_ofTree
    (canvas : Canvas Number)
    {tree : Tree Number}
    {total : Number}
    (positive : ¬ total ≤ 0)
    (finite : Arithmetic.isFinite total = true)
    (started : ∀ node ∈ tree.nodes, node.start ≠ none) :
    ∃ (layout : Layout Number) (visible : List (Extent Number)), ∀ unit,
      ofTree { canvas with unit := unit } tree total =
        .ok { layout with
          frames := visible.map
            (place { canvas with unit := unit } total layout.widthPerUnit layout.height) } := by
  have exist : ∃ all, extents total tree.nodes = .ok all := exists_extents started
  obtain ⟨all, found⟩ := exist
  have drawable : ¬ (total ≤ 0 ∨ Arithmetic.isFinite total = false) := by
    rw [finite]
    simp [positive]
  let widthPerUnit := (canvas.width - Arithmetic.ofCount 2 * canvas.xPadding) / total
  let visible := all.filter fun extent => !decide (extent.weight < canvas.minWidth / widthPerUnit)
  let maxDepth := (visible.map fun extent => extent.node.depth).foldl max 0
  let height := Arithmetic.ofCount (maxDepth + 1) * canvas.frameHeight + canvas.titleHeight +
    canvas.subtitleHeight
  refine ⟨⟨[], maxDepth, widthPerUnit, canvas.width, height, total⟩,
    Sorting.sort (order canvas widthPerUnit) visible, fun unit => ?_⟩
  rw [ofTree, if_neg drawable, found]
  rfl

end Layout

/-! ## Pictures -/

namespace Picture

/-- A tree that weighs something is drawn in every unit. Two of the pictures are the same
document exactly if they have the same unit or show no frame. -/
theorem exists_ofTree
    (options : DrawingOptions Number)
    {tree : Tree Number}
    (positive : ¬ tree.total ≤ 0)
    (finite : Arithmetic.isFinite tree.total = true)
    (started : ∀ node ∈ tree.nodes, node.start ≠ none) :
    ∃ (layout : Layout Number) (document : String -> String),
      Layout.ofTree options.canvas tree tree.total = .ok layout ∧
      (∀ unit, ofTree { options with unit := unit } tree = .ok (document unit)) ∧
      ∀ first second,
        document first = document second ↔ first = second ∨ layout.frames = [] := by
  obtain ⟨layout, visible, laidOut⟩ :=
    Layout.exists_ofTree options.canvas positive finite started
  obtain ⟨parts, count, filled⟩ :=
    exists_frames_place options.canvas tree.total layout.widthPerUnit layout.height visible
  let placed (unit : String) : Layout Number :=
    { layout with
      frames := visible.map (Layout.place { options.canvas with unit := unit } tree.total
        layout.widthPerUnit layout.height) }
  refine ⟨placed options.unit,
    fun unit => ofLayout (placed unit) options.title options.subtitle fun drawn =>
      Colour.ofFailure drawn.failed,
    laidOut options.unit, fun unit => congrArg (Except.map _) (laidOut unit),
    fun first second => ?_⟩
  have gaps : visible = [] ↔ parts = [] := by
    rw [← List.length_eq_zero_iff, ← count, List.length_eq_zero_iff]
  simp only [ofLayout, placed, filled, String.append_left_inj, String.append_right_inj,
    List.map_eq_nil_iff, gaps]
  constructor
  · intro same
    by_cases none : parts = []
    · exact .inr none
    · exact .inl (Markup.escape_injective (fillGaps_inj none same))
  · rintro (rfl | rfl)
    · rfl
    · rfl

end Picture

end FlameProfile
