import Mathlib
import FlameProfile.Event.Log
import FlameProfile.Proofs.Drawing.Faults
import FlameProfile.Proofs.Drawing.Parts
import FlameProfile.Proofs.Result
import FlameProfile.Proofs.Stack.Naming

/-!
# Legal documents

A document of markup may not have every character: most control characters and two others
are excluded. Escaping does not look for them, and neither does the reader of logs, so a
document has those that its texts have. It is legal exactly if the titles, the unit and
the labels of the drawn frames are, and each of these labels is a function of the log.
-/

namespace FlameProfile

open Markup Text

/-! ## Frames -/

/-- A tooltip shows the unit, and the label except at the root. -/
theorem Frame.isLegal_tooltip
    (label : String)
    (isRoot : Bool)
    (weight total : Float)
    (delta : Option Float)
    (unit : String) :
    ConsistsOf IsLegal (tooltip label isRoot weight total delta unit) ↔
      ConsistsOf IsLegal unit ∧ (isRoot = false → ConsistsOf IsLegal label) := by
  have number : ∀ places (value : Float), ConsistsOf IsLegal (NumberText.fixed places value) :=
    fun places value => (Decimal.isOrdinary_fixed places value).mono isLegal_of_isOrdinary
  have signed : ∀ places (value : Float), ConsistsOf IsLegal (NumberText.signed places value) :=
    fun places value => (NumberText.isOrdinary_signed places value).mono isLegal_of_isOrdinary
  have opens : ConsistsOf IsLegal "all (" := by decide
  have blank : ConsistsOf IsLegal " " := by decide
  have whole : ConsistsOf IsLegal ", 100%)" := by decide
  have between : ConsistsOf IsLegal " (" := by decide
  have comma : ConsistsOf IsLegal ", " := by decide
  have percent : ConsistsOf IsLegal "%" := by decide
  have closes : ConsistsOf IsLegal "%)" := by decide
  cases isRoot with
  | true => simp [tooltip, consistsOf_append, number, opens, blank, whole]
  | false =>
      cases delta with
      | none =>
          simp [tooltip, consistsOf_append, number, blank, between, comma, closes, and_comm]
      | some delta =>
          simp [tooltip, consistsOf_append, number, signed, blank, between, comma, closes, percent,
            and_comm]

/-- What is shown of a legal label is legal, also where it is cut. -/
theorem Label.isLegal_of_fit
    {label text : String}
    {width : Float}
    (fits : fit label width = some text)
    (legal : ConsistsOf IsLegal label) :
    ConsistsOf IsLegal text := by
  unfold fit at fits
  split at fits
  next => cases fits
  split at fits
  next =>
    cases fits
    refine consistsOf_append.mpr ⟨fun character member => ?_, by decide⟩
    rw [String.toList_ofList] at member
    exact legal character (List.mem_of_mem_take member)
  next =>
    cases fits
    exact legal

/-! ## Frames of a tree -/

namespace Layout

/-- The texts of a placed frame are legal if the unit and its label are. -/
theorem isLegal_place
    (canvas : Canvas Float)
    (total widthPerUnit height : Float)
    (extent : Extent Float) :
    (∀ text ∈ Picture.frameTexts (place canvas total widthPerUnit height extent),
      ConsistsOf IsLegal text) ↔
      ConsistsOf IsLegal canvas.unit ∧ ConsistsOf IsLegal extent.node.label := by
  have rootLabel : extent.node.isRoot = true → ConsistsOf IsLegal extent.node.label := by
    intro isRoot
    rw [Node.isRoot, Bool.and_eq_true, decide_eq_true_iff, decide_eq_true_iff] at isRoot
    rw [isRoot.2]
    decide
  rw [Picture.frameTexts, List.forall_mem_cons]
  constructor
  · rintro ⟨info, -⟩
    obtain ⟨unit, label⟩ := (Frame.isLegal_tooltip _ _ _ _ _ _).mp info
    refine ⟨unit, ?_⟩
    cases isRoot : extent.node.isRoot with
    | true => exact rootLabel isRoot
    | false => exact label isRoot
  · rintro ⟨unit, label⟩
    refine ⟨(Frame.isLegal_tooltip _ _ _ _ _ _).mpr ⟨unit, fun _ => label⟩, fun text fits => ?_⟩
    exact Label.isLegal_of_fit (Option.mem_toList.mp fits) label

end Layout

namespace Picture

/-- The texts that a picture shows. -/
def texts
    (options : DrawingOptions Float)
    (layout : Layout Float) : List String :=
  options.title :: options.subtitle ::
    layout.frames.flatMap fun drawn => [options.unit, drawn.label]

/-- The labels that a document shows of a tree are among some functions, and the document is
legal exactly if all the texts that it shows are. -/
def IsLegalAsTexts
    (options : DrawingOptions Float)
    (tree : Tree Float)
    (functions : List String)
    (document : String) : Prop :=
  ∃ layout, Layout.ofTree options.canvas tree tree.total = .ok layout ∧
    (∀ drawn ∈ layout.frames, drawn.label ∈ functions) ∧
    (ConsistsOf IsLegal document ↔ ∀ text ∈ texts options layout, ConsistsOf IsLegal text)

section Drawn

variable {options : DrawingOptions Float} {tree : Tree Float} {functions : List String}

/-- Where all functions that can be shown are legal, and all options, so is the document. -/
theorem IsLegalAsTexts.isLegal
    {document : String}
    (asTexts : IsLegalAsTexts options tree functions document)
    (optionTexts : ∀ text ∈ [options.title, options.subtitle, options.unit],
      ConsistsOf IsLegal text)
    (functionTexts : ∀ function ∈ functions, ConsistsOf IsLegal function) :
    ConsistsOf IsLegal document := by
  obtain ⟨layout, -, labelled, legal⟩ := asTexts
  refine legal.mpr fun text member => ?_
  simp only [texts, List.mem_cons, List.mem_flatMap, List.not_mem_nil, or_false] at member
  rcases member with rfl | rfl | ⟨drawn, isFrame, rfl | rfl⟩
  · exact optionTexts _ (by simp)
  · exact optionTexts _ (by simp)
  · exact optionTexts _ (by simp)
  · exact functionTexts _ (labelled drawn isFrame)

/-- A document is legal if its texts are, whatever legal words are added to the title and
however the frames are filled. -/
theorem isLegal_iff_texts
    {layout : Layout Float}
    (laidOut : Layout.ofTree options.canvas tree tree.total = .ok layout)
    {title : String}
    (titled : ConsistsOf IsLegal title ↔ ConsistsOf IsLegal options.title)
    (fill : Frame Float -> Colour) :
    ConsistsOf IsLegal (ofLayout layout title options.subtitle fill) ↔
      ∀ text ∈ texts options layout, ConsistsOf IsLegal text := by
  obtain ⟨visible, frames, -⟩ := Layout.exists_visible laidOut
  rw [(written_ofLayout layout title options.subtitle fill).isLegal_iff, texts]
  simp only [List.forall_mem_cons, List.forall_mem_flatMap, frames, List.forall_mem_map, titled]
  simp only [Layout.isLegal_place, List.not_mem_nil, false_imp_iff, implies_true, and_true]
  rfl

theorem isLegalAsTexts_ofLayout
    (labelled : ∀ node ∈ tree.nodes, node.label ∈ functions)
    {layout : Layout Float}
    (laidOut : Layout.ofTree options.canvas tree tree.total = .ok layout)
    {title : String}
    (titled : ConsistsOf IsLegal title ↔ ConsistsOf IsLegal options.title)
    (fill : Frame Float -> Colour) :
    IsLegalAsTexts options tree functions (ofLayout layout title options.subtitle fill) := by
  obtain ⟨visible, frames, fromTree⟩ := Layout.exists_visible laidOut
  refine ⟨layout, laidOut, ?_, isLegal_iff_texts laidOut titled fill⟩
  rw [frames]
  intro drawn member
  obtain ⟨extent, isVisible, rfl⟩ := List.mem_map.mp member
  exact labelled extent.node (fromTree extent isVisible).node

theorem isLegalAsTexts_ofTree
    (labelled : ∀ node ∈ tree.nodes, node.label ∈ functions)
    {document : String}
    (drawn : ofTree options tree = .ok document) :
    IsLegalAsTexts options tree functions document := by
  obtain ⟨layout, laidOut, rfl⟩ := Result.map_eq_ok_iff.mp drawn
  exact isLegalAsTexts_ofLayout labelled laidOut Iff.rfl _

theorem isLegalAsTexts_ofDifference
    (labelled : ∀ node ∈ tree.nodes, node.label ∈ functions)
    {document : String}
    (drawn : ofDifference options tree = .ok document) :
    IsLegalAsTexts options tree functions document := by
  have added : ConsistsOf IsLegal " (Diff)" := by decide
  obtain ⟨layout, laidOut, rfl⟩ := Result.map_eq_ok_iff.mp drawn
  exact isLegalAsTexts_ofLayout labelled laidOut (consistsOf_append.trans (and_iff_left added)) _

end Drawn

/-! ## Pictures of logs -/

/-- The functions that a log names, and the nameless root. -/
def labelsOf (events : List (Event Float)) : List String :=
  "" :: events.map fun event => event.key.function

/-- Whatever is logged and whatever options are asked for, a document of one log or of two
is legal exactly if the texts that it shows are: the titles, and with each frame that is
drawn the unit and the label of the frame. No labels are shown but the functions of the
logs. -/
theorem isLegalAsTexts_ofLog
    (baselineStrategy targetStrategy : ParentStrategy)
    (baseline target : List (Event Float)) :
    (∃ tree, Tree.ofStacks (Stack.ofLog targetStrategy.rule target) = .ok tree ∧
      ∀ options document, ofTree options tree = .ok document →
        IsLegalAsTexts options tree (labelsOf target) document) ∧
    (∃ tree,
      Tree.difference (Stack.ofLog baselineStrategy.rule baseline)
        (Stack.ofLog targetStrategy.rule target) = .ok tree ∧
      ∀ options document,
        ofStackDifference options (Stack.ofLog baselineStrategy.rule baseline)
            (Stack.ofLog targetStrategy.rule target) = .ok document →
          IsLegalAsTexts options tree (labelsOf (baseline ++ target)) document) := by
  constructor
  · obtain ⟨tree, merged, -, madeOf⟩ :=
      Tree.exists_ofStacks (Stack.ofLog targetStrategy.rule target)
    refine ⟨tree, merged, fun options document drawn => isLegalAsTexts_ofTree ?_ drawn⟩
    intro node member
    obtain ⟨stack, isStack, inPath⟩ := madeOf.labelled node member
    exact Stack.mem_functions_of_mem_path isStack inPath
  · obtain ⟨tree, merged, -, madeOf⟩ :=
      Tree.exists_difference (Stack.ofLog baselineStrategy.rule baseline)
        (Stack.ofLog targetStrategy.rule target)
    refine ⟨tree, merged, fun options document drawn => ?_⟩
    rw [ofStackDifference, merged] at drawn
    refine isLegalAsTexts_ofDifference (fun node member => ?_) (Result.mapError_eq_ok_iff.mp drawn)
    obtain ⟨stack, isStack, inPath⟩ := madeOf.labelled node member
    rw [labelsOf, List.map_append]
    rcases List.mem_append.mp isStack with inBaseline | inTarget
    · rcases List.mem_cons.mp (Stack.mem_functions_of_mem_path inBaseline inPath) with root | named
      · exact root ▸ List.mem_cons_self
      · exact List.mem_cons_of_mem _ (List.mem_append_left _ named)
    · rcases List.mem_cons.mp (Stack.mem_functions_of_mem_path inTarget inPath) with root | named
      · exact root ▸ List.mem_cons_self
      · exact List.mem_cons_of_mem _ (List.mem_append_right _ named)

/-- A log of one call of a function whose name has a blank that a document may have. -/
def tabbedLog : List (Event Float) :=
  [ ⟨.started, ⟨⟨"a.py", "<f\t>", 1⟩, "1"⟩, 0.0, none⟩,
    ⟨.returned, ⟨⟨"a.py", "<f\t>", 1⟩, "1"⟩, 2.0, none⟩ ]

theorem isLegalAsTexts_ofLog_tabbedLog :
    ∃ tree document,
      Tree.ofStacks (Stack.ofLog ParentStrategy.nearest.rule tabbedLog) = .ok tree ∧
      ofTree DrawingOptions.standard tree = .ok document ∧ ConsistsOf IsLegal document := by
  obtain ⟨tree, merged, asTexts⟩ :=
    (isLegalAsTexts_ofLog ParentStrategy.nearest ParentStrategy.nearest [] tabbedLog).1
  have computed :
      ((Tree.ofStacks (Stack.ofLog ParentStrategy.nearest.rule tabbedLog)).toOption.bind
        fun tree => (Layout.ofTree (DrawingOptions.standard : DrawingOptions Float).canvas tree
          tree.total).toOption).isSome = true := by
    decide +kernel
  rw [merged] at computed
  obtain ⟨layout, laidOut⟩ := Option.isSome_iff_exists.mp computed
  have exist : ∃ document, ofTree DrawingOptions.standard tree = .ok document :=
    ⟨_, Result.map_eq_ok_iff.mpr ⟨layout, Result.toOption_eq_some_iff.mp laidOut, rfl⟩⟩
  obtain ⟨document, drawn⟩ := exist
  exact ⟨tree, document, merged, drawn,
    (asTexts DrawingOptions.standard document drawn).isLegal (by decide) (by decide)⟩

/-- A log of one call of a function whose name ends in a control character. -/
def controlText : String :=
  "PY_START,a.py:f\x01:1:1,0\nPY_RETURN,a.py:f\x01:1:1,2\n"

def controlLog : List (Event Float) :=
  [ ⟨.started, ⟨⟨"a.py", "f\x01", 1⟩, "1"⟩, 0.0, none⟩,
    ⟨.returned, ⟨⟨"a.py", "f\x01", 1⟩, "1"⟩, 2.0, none⟩ ]

/-- A log that can be read has a picture that is not legal. -/
theorem exists_not_isLegal :
    EventLog.read controlText = .ok controlLog ∧
    (DrawingOptions.standard : DrawingOptions Float).validate = .ok () ∧
    ∃ tree document,
      Tree.ofStacks (Stack.ofLog ParentStrategy.nearest.rule controlLog) = .ok tree ∧
      ofTree DrawingOptions.standard tree = .ok document ∧ ¬ ConsistsOf IsLegal document := by
  have computed :
      ((Tree.ofStacks (Stack.ofLog ParentStrategy.nearest.rule controlLog)).toOption.bind
        fun tree =>
          (Layout.ofTree (DrawingOptions.standard : DrawingOptions Float).canvas tree
            tree.total).toOption.map fun layout => layout.frames.map Frame.label) =
        some ["", "f\x01"] := by
    decide +kernel
  obtain ⟨tree, merged, computed⟩ := Option.bind_eq_some_iff.mp computed
  obtain ⟨layout, laidOut, labels⟩ := Option.map_eq_some_iff.mp computed
  rw [Result.toOption_eq_some_iff] at merged laidOut
  refine ⟨by decide +kernel, by decide +kernel, tree, _, merged,
    Result.map_eq_ok_iff.mpr ⟨layout, laidOut, rfl⟩, fun legal => ?_⟩
  have shown := (isLegal_iff_texts laidOut Iff.rfl _).mp legal
  obtain ⟨drawn, isFrame, label⟩ := List.mem_map.mp
    (labels ▸ List.mem_cons_of_mem _ List.mem_cons_self : "f\x01" ∈ layout.frames.map Frame.label)
  have isText : "f\x01" ∈ texts DrawingOptions.standard layout := by
    refine List.mem_cons_of_mem _ (List.mem_cons_of_mem _ (List.mem_flatMap.mpr ?_))
    exact ⟨drawn, isFrame, label ▸ List.mem_cons_of_mem _ List.mem_cons_self⟩
  exact absurd (shown _ isText) (by decide)

end Picture
end FlameProfile
