import Mathlib
import FlameProfile.Arithmetic.Floating
import FlameProfile.Drawing.Picture
import FlameProfile.Proofs.Drawing.Verbatim

/-!
# What a picture is written of

A picture is written of markup, of numbers and colours, and of escaped texts. Each part of
it is taken down with the names of its tags and with the texts that it shows: the titles,
and for each frame its tooltip and what there is room for of its label. From this alone
follow the tags of a document and which characters it has.
-/

namespace FlameProfile

namespace Markup

open Text

/-! ## Characters of documents -/

/-- A character that a document may have. -/
def IsLegal (character : Char) : Prop :=
  0x20 ≤ character.toNat ∧ character.toNat ≤ 0xD7FF ∨
    0xE000 ≤ character.toNat ∧ character.toNat ≤ 0xFFFD ∨
    0x10000 ≤ character.toNat ∧ character.toNat ≤ 0x10FFFF ∨
    character ∈ ['\t', '\n', '\r']

instance (character : Char) : Decidable (IsLegal character) :=
  inferInstanceAs (Decidable (_ ∨ _))

/-- Ordinary characters are legal in a document. -/
theorem isLegal_of_isOrdinary
    (character : Char)
    (ordinary : IsOrdinary character) :
    IsLegal character := by
  obtain ⟨above, below, -⟩ := ordinary
  have lowest : ' '.toNat ≤ character.toNat := above
  have highest : character.toNat ≤ '~'.toNat := below
  exact .inl ⟨lowest, highest.trans (by decide)⟩

/-- Escaping neither adds nor removes a character that a document may not have. -/
theorem isLegal_escape
    {text : String} :
    ConsistsOf IsLegal (escape text) ↔ ConsistsOf IsLegal text := by
  have entity : ∀ entity ∈ entities, ConsistsOf IsLegal entity := by decide
  have each : ∀ character,
      (∀ written ∈ escapeChar character, IsLegal written) ↔ IsLegal character := by
    intro character
    unfold escapeChar
    split
    case h_5 => exact List.forall_mem_singleton
    all_goals exact iff_of_true (entity _ (by decide)) (by decide)
  rw [ConsistsOf, ConsistsOf, toList_escape, List.forall_mem_flatMap]
  exact forall₂_congr fun character _ => each character

/-! ## Pieces of documents -/

/-- A piece of a document, with the names of its tags and the texts that it shows: markup
shows no text, an escaped text has no tags, and one piece can stand behind another. -/
inductive Written : String -> List String -> List String -> Prop
  | markup
      {piece : String}
      {names : List String}
      (hasTags : HasTags piece names)
      (legal : ConsistsOf IsLegal piece) :
      Written piece names []
  | text (shown : String) : Written (escape shown) [] [shown]
  | append
      {first second : String}
      {firstNames secondNames firstTexts secondTexts : List String}
      (firstWritten : Written first firstNames firstTexts)
      (secondWritten : Written second secondNames secondTexts) :
      Written (first ++ second) (firstNames ++ secondNames) (firstTexts ++ secondTexts)

section Written

variable {piece : String} {names texts : List String}

/-- What is taken down of a piece includes its tags. -/
theorem Written.hasTags (written : Written piece names texts) : HasTags piece names := by
  induction written with
  | markup hasTags _ => exact hasTags
  | text shown => exact hasTags_escape shown
  | append _ _ firstHas secondHas => exact firstHas.append secondHas

/-- A piece is legal if the texts that it shows are. -/
theorem Written.isLegal_iff (written : Written piece names texts) :
    ConsistsOf IsLegal piece ↔ ∀ text ∈ texts, ConsistsOf IsLegal text := by
  induction written with
  | markup _ legal => exact iff_of_true legal (List.forall_mem_nil _)
  | text shown => rw [List.forall_mem_singleton, isLegal_escape]
  | append _ _ firstIff secondIff =>
      rw [consistsOf_append, firstIff, secondIff, List.forall_mem_append]

/-- Where a piece consists of ordinary characters, it is as good as nothing. -/
theorem written_of_isOrdinary (ordinary : ConsistsOf IsOrdinary piece) : Written piece [] [] :=
  .markup (hasTags_of_isOrdinary ordinary) (ordinary.mono isLegal_of_isOrdinary)

/-- Parts written one after the other have the tags and the texts of each. -/
theorem written_join
    {Part : Type}
    {write : Part -> String}
    {names texts : Part -> List String}
    (written : ∀ part, Written (write part) (names part) (texts part))
    (parts : List Part) :
    Written (String.join (parts.map write)) (parts.flatMap names) (parts.flatMap texts) := by
  induction parts with
  | nil =>
      have nothing : Written "" [] [] := .markup (fun _ => rfl) (by decide)
      exact nothing
  | cons part parts inductionHypothesis =>
      rw [List.map_cons, String.join_cons, List.flatMap_cons, List.flatMap_cons]
      exact (written part).append inductionHypothesis

end Written

end Markup

/-- Whether there is room for a label in a frame. -/
def Frame.showsLabel
    {Number : Type}
    [Arithmetic Number]
    (frame : Frame Number) : Bool :=
  (Label.fit frame.label frame.width).isSome

namespace Picture

open Markup

/-! ## Parts of a picture -/

/-- The tags of a frame that shows a label or none. -/
def frameTags (shown : Bool) : List String :=
  ["g", "title", "/title", "rect"] ++ (if shown then ["text", "/text"] else []) ++ ["/g"]

/-- The tags of a picture by what its frames show. -/
def documentTags (shown : List Bool) : List String :=
  ["?xml", "svg", "style", "/style", "rect", "text", "/text", "text", "/text", "g"] ++
    shown.flatMap frameTags ++ ["/g", "/svg"]

/-- The texts of a frame: its tooltip, and what is shown of its label. -/
def frameTexts (drawn : Frame Float) : List String :=
  drawn.info :: (Label.fit drawn.label drawn.width).toList

/-- A length is written without tags and texts. -/
theorem written_length (value : Float) : Written (length value) [] [] :=
  written_of_isOrdinary (Decimal.isOrdinary_fixed 2 value)

/-- A number is written without tags and texts. -/
theorem written_plain (value : Float) : Written (NumberText.plain value) [] [] :=
  written_of_isOrdinary (Decimal.Format.isOrdinary_write_plain value)

/-- A picture opens with its declaration and with the tag around all others. -/
theorem written_opening (width height : Float) :
    Written (opening width height) ["?xml", "svg"] [] := by
  have header : Written "<?xml version=\"1.0\" standalone=\"no\"?><svg version=\"1.1\" "
      ["?xml", "svg"] [] := .markup (fun _ => rfl) (by decide +kernel)
  have space : Written "xmlns=\"http://www.w3.org/2000/svg\" width=\"" [] [] :=
    .markup (fun _ => rfl) (by decide +kernel)
  have sized : Written "\" height=\"" [] [] := .markup (fun _ => rfl) (by decide)
  have seen : Written "\" viewBox=\"0 0 " [] [] := .markup (fun _ => rfl) (by decide)
  have blank : Written " " [] [] := .markup (fun _ => rfl) (by decide)
  have ends : Written "\">" [] [] := .markup (fun _ => rfl) (by decide)
  have w := written_plain width
  have h := written_plain height
  exact ((((((((header.append space).append w).append sized).append h).append seen).append
    w).append blank).append h).append ends

/-- Styles are written between two tags. -/
theorem written_styles : Written styles ["style", "/style"] [] := by
  have begins : Written "<style type=\"text/css\">text \x7b font-family:Verdana; font-size:"
      ["style"] [] := .markup (fun _ => rfl) (by decide +kernel)
  have size : Written (toString Canvas.fontSize) [] [] := .markup (fun _ => rfl) (by decide)
  have coloured : Written
      "px; fill:#000000; \x7d #title \x7b text-anchor:middle; font-size:" [] [] :=
    .markup (fun _ => rfl) (by decide +kernel)
  have titleSize : Written (toString (Canvas.fontSize + 5)) [] [] :=
    .markup (fun _ => rfl) (by decide)
  have centred : Written "px; \x7d #subtitle \x7b text-anchor:middle; \x7d " [] [] :=
    .markup (fun _ => rfl) (by decide +kernel)
  have ends : Written
      "#frames > *:hover \x7b stroke:black; stroke-width:0.5; cursor:pointer; \x7d</style>"
      ["/style"] [] := .markup (fun _ => rfl) (by decide +kernel)
  exact ((((begins.append size).append coloured).append titleSize).append centred).append ends

/-- The ground of a picture is one rectangle. -/
theorem written_ground (width height : Float) : Written (ground width height) ["rect"] [] := by
  have begins : Written "<rect x=\"0\" y=\"0\" width=\"" ["rect"] [] :=
    .markup (fun _ => rfl) (by decide)
  have between : Written "\" height=\"" [] [] := .markup (fun _ => rfl) (by decide)
  have ends : Written "\" fill=\"white\"/>" [] [] := .markup (fun _ => rfl) (by decide)
  exact (((begins.append (written_plain width)).append between).append
    (written_plain height)).append ends

/-- A text element has its own tags alone, whatever its text is. -/
theorem written_textElement
    {attributes : String}
    (written : Written attributes [] [])
    (x y : Float)
    (text : String) :
    Written (textElement attributes x y text) ["text", "/text"] [text] := by
  have begins : Written "<text " ["text"] [] := .markup (fun _ => rfl) (by decide)
  have left : Written "x=\"" [] [] := .markup (fun _ => rfl) (by decide)
  have top : Written "\" y=\"" [] [] := .markup (fun _ => rfl) (by decide)
  have inside : Written "\">" [] [] := .markup (fun _ => rfl) (by decide)
  have ends : Written "</text>" ["/text"] [] := .markup (fun _ => rfl) (by decide)
  exact (((((((begins.append written).append left).append (written_length x)).append top).append
    (written_length y)).append inside).append (.text text)).append ends

/-- The title and the subtitle are the texts between two pairs of tags. -/
theorem written_headings
    (width : Float)
    (title subtitle : String) :
    Written (headings width title subtitle) ["text", "/text", "text", "/text"]
      [title, subtitle] := by
  have first : Written "id=\"title\" " [] [] := .markup (fun _ => rfl) (by decide)
  have second : Written "id=\"subtitle\" " [] [] := .markup (fun _ => rfl) (by decide)
  exact (written_textElement first _ _ title).append (written_textElement second _ _ subtitle)

/-- The tags of a frame and its texts, whatever its place and its colour are. -/
theorem written_frame
    (fill : Frame Float -> Colour)
    (drawn : Frame Float) :
    Written (frame fill drawn) (frameTags drawn.showsLabel) (frameTexts drawn) := by
  have begins : Written "<g><title>" ["g", "title"] [] := .markup (fun _ => rfl) (by decide)
  have placed : Written "</title><rect x=\"" ["/title", "rect"] [] :=
    .markup (fun _ => rfl) (by decide)
  have top : Written "\" y=\"" [] [] := .markup (fun _ => rfl) (by decide)
  have wide : Written "\" width=\"" [] [] := .markup (fun _ => rfl) (by decide)
  have high : Written "\" height=\"" [] [] := .markup (fun _ => rfl) (by decide)
  have filled : Written "\" fill=\"" [] [] := .markup (fun _ => rfl) (by decide)
  have rounded : Written "\" rx=\"2\" ry=\"2\"/>" [] [] := .markup (fun _ => rfl) (by decide)
  have unlabelled : Written "" [] [] := .markup (fun _ => rfl) (by decide)
  have ends : Written "</g>" ["/g"] [] := .markup (fun _ => rfl) (by decide)
  have rectangle := (((((((((((begins.append (.text drawn.info)).append placed).append
    (written_length drawn.x1)).append top).append (written_length drawn.y1)).append wide).append
    (written_length drawn.width)).append high).append (written_length drawn.height)).append
    filled).append (written_of_isOrdinary (fill drawn).isOrdinary_write)).append rounded
  unfold frame Frame.showsLabel frameTexts
  cases Label.fit drawn.label drawn.width with
  | none => exact (rectangle.append unlabelled).append ends
  | some text => exact (rectangle.append (written_textElement unlabelled _ _ text)).append ends

/-- The tags of a document and its texts. -/
theorem written_ofLayout
    (layout : Layout Float)
    (title subtitle : String)
    (fill : Frame Float -> Colour) :
    Written (ofLayout layout title subtitle fill)
      (documentTags (layout.frames.map Frame.showsLabel))
      (title :: subtitle :: layout.frames.flatMap frameTexts) := by
  have group : Written "<g id=\"frames\">" ["g"] [] := .markup (fun _ => rfl) (by decide)
  have ends : Written "</g></svg>" ["/g", "/svg"] [] := .markup (fun _ => rfl) (by decide)
  have frames := written_join (written_frame fill) layout.frames
  have whole := ((((((written_opening layout.width layout.height).append written_styles).append
    (written_ground layout.width layout.height)).append
    (written_headings layout.width title subtitle)).append group).append frames).append ends
  rw [List.append_nil] at whole
  rw [documentTags, List.flatMap_map]
  exact whole

end Picture
end FlameProfile
