import Mathlib
import FlameProfile.Proofs.Drawing.Parts
import FlameProfile.Proofs.Result

/-!
# Tags of pictures

The tags of a picture are told by its frames and by which of them show a label. No title,
subtitle, unit or label adds one: each of them is escaped when it is written, and a label
after it has been cut.
-/

namespace FlameProfile
namespace Picture

open Markup

theorem length_flatMap_frameTags (shown : List Bool) :
    (shown.flatMap frameTags).length = 5 * shown.length + 2 * shown.count true := by
  induction shown with
  | nil => rfl
  | cons first shown inductionHypothesis =>
      rw [List.flatMap_cons, List.length_append, inductionHypothesis, List.count_cons,
        List.length_cons]
      cases first <;> simp [frameTags] <;> omega

theorem length_documentTags (shown : List Bool) :
    (documentTags shown).length = 12 + 5 * shown.length + 2 * shown.count true := by
  simp only [documentTags, List.length_append, length_flatMap_frameTags, List.length_cons,
    List.length_nil]
  omega

/-! ## Pictures -/

/-- A document has the tags of its frames and begins none besides. -/
theorem tags_ofLayout
    (layout : Layout Float)
    (title subtitle : String)
    (fill : Frame Float -> Colour) :
    tags (ofLayout layout title subtitle fill).toList =
        documentTags (layout.frames.map Frame.showsLabel) ∧
      (ofLayout layout title subtitle fill).toList.count '<' =
        12 + 5 * layout.frames.length + 2 * layout.frames.countP Frame.showsLabel := by
  have has := (written_ofLayout layout title subtitle fill).hasTags.tags_eq
  refine ⟨has, ?_⟩
  rw [← length_tags, has, length_documentTags, List.length_map, List.count, List.countP_map]
  simp [Function.comp_def]

/-- No text gets markup into a picture. An escaped text has no character that begins or
ends a tag or a value, each of its ampersands begins an entity, and the text can be read
back from it. So the tags of every picture that is drawn, of one profile or of two, follow
from what its layout shows: which frames there are and which of them have a label. -/
theorem texts_add_no_tags :
    (∀ text : String,
      (∀ delimiter ∈ ['<', '>', '"'], delimiter ∉ (escape text).toList) ∧
      (∀ after, '&' :: after <:+ (escape text).toList →
        ∃ entity ∈ entities, entity.toList <+: '&' :: after) ∧
      unescape (escape text) = text) ∧
    ∀ (options : DrawingOptions Float) (tree : Tree Float) (document : String),
      (ofTree options tree = .ok document ∨ ofDifference options tree = .ok document) →
      ∃ layout, Layout.ofTree options.canvas tree tree.total = .ok layout ∧
        tags document.toList = documentTags (layout.frames.map Frame.showsLabel) ∧
        document.toList.count '<' =
          12 + 5 * layout.frames.length + 2 * layout.frames.countP Frame.showsLabel := by
  constructor
  · intro text
    exact ⟨fun delimiter delimits => not_mem_escape delimits text,
      fun after ampersand => exists_entity_isPrefix ampersand, unescape_escape text⟩
  · intro options tree document drawn
    rw [ofTree, ofDifference, Result.map_eq_ok_iff, Result.map_eq_ok_iff] at drawn
    rcases drawn with ⟨layout, laidOut, rfl⟩ | ⟨layout, laidOut, rfl⟩
    · exact ⟨layout, laidOut, tags_ofLayout layout _ _ _⟩
    · exact ⟨layout, laidOut, tags_ofLayout layout _ _ _⟩

/-- Options with the end of a document as the title. -/
def closingOptions : DrawingOptions Float :=
  { DrawingOptions.standard with title := "</svg>" }

/-- A root, and a frame labelled with a tag. -/
def taggedTree : Tree Float :=
  ⟨[⟨"", 0, some 0, 2, 1, false, none⟩, ⟨"<b>", 1, some 0, 2, 1, false, none⟩], 2⟩

theorem texts_add_no_tags_taggedTree :
    (∃ document, ofTree closingOptions taggedTree = .ok document ∧
      document.toList.count '<' = 24) ∧
    (∃ document, ofDifference closingOptions taggedTree = .ok document ∧
      document.toList.count '<' = 24) ∧
    '<' ∉ (escape "</svg>").toList ∧
    ∃ entity ∈ entities, entity.toList <+: (escape "</svg>").toList := by
  have shown : (Layout.ofTree closingOptions.canvas taggedTree taggedTree.total).toOption.map
      (fun layout => (layout.frames.length, layout.frames.countP Frame.showsLabel)) =
        some (2, 1) := by
    decide +kernel
  have counted : ∀ document, (ofTree closingOptions taggedTree = .ok document ∨
      ofDifference closingOptions taggedTree = .ok document) →
        document.toList.count '<' = 24 := by
    intro document drawn
    obtain ⟨layout, laidOut, -, count⟩ :=
      texts_add_no_tags.2 closingOptions taggedTree document drawn
    rw [laidOut] at shown
    obtain ⟨frames, labels⟩ := Prod.mk.inj (Option.some.inj shown)
    rw [count, frames, labels]
  have exist : ∃ document, ofTree closingOptions taggedTree = .ok document := ⟨_, rfl⟩
  have existOfTwo : ∃ document, ofDifference closingOptions taggedTree = .ok document := ⟨_, rfl⟩
  obtain ⟨document, drawn⟩ := exist
  obtain ⟨documentOfTwo, drawnOfTwo⟩ := existOfTwo
  exact ⟨⟨document, drawn, counted document (.inl drawn)⟩,
    ⟨documentOfTwo, drawnOfTwo, counted documentOfTwo (.inr drawnOfTwo)⟩,
    (texts_add_no_tags.1 "</svg>").1 '<' (by decide),
    (texts_add_no_tags.1 "</svg>").2.1 _ List.suffix_rfl⟩

end Picture
end FlameProfile
