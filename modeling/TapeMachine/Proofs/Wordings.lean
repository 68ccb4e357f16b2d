import Mathlib.Data.List.TakeWhile
import TapeMachine.Catalog
import TapeMachine.Proofs.Attempts

/-!
# Wordings

The templates of the catalog are words and plain places, and filling one in puts the values in the
places. This is said once for every template that is made up of such parts, and the wording of a
diagnostic is then known from the parts of its template.

* `Text.Template.Part` is a part of a template, as it stands there (`source`) and in print (`shown`);
* `Text.Template.piecesFrom_source`: the pieces of a template are those of its parts;
* `Text.Template.fill_source`: filled in, the parts are in print one after the other;
* `Catalog.parts` are the parts of the templates in the catalog, and `Catalog.message?_eq` and
  `Catalog.wording_eq` what they come to.
-/

namespace TapeMachine

namespace Text

namespace Template

/-! ## §1 Parts of a Template -/

/-- A part of a template: words without braces, or a place that names a value. -/
inductive Part where
  | words (text : String)
  | place (name : String)
  deriving DecidableEq, Repr

namespace Part

/-- The part as it stands in the template. -/
def source : Part → List Char
  | .words text => text.toList
  | .place name => '{' :: (name.toList ++ ['}'])

/-- The part in print: a place shows its value. -/
def shown (values : Values) : Part → String
  | .words text => text
  | .place name => ((values.lookup name).map Value.plain).getD ""

/-- The pieces that a part is taken apart into. -/
def pieces : Part → List Piece
  | .words text => text.toList.map .letter
  | .place name => [.place name.toList none []]

/-- A character that means something in the name of a place. -/
def isMark (c : Char) : Bool := ['{', '}', '[', ':', '!', '.'].contains c

/-- Whether a part can be filled in: words have no braces, and a place has a plain name that is not a
number, under which there is a value. -/
def fits (values : Values) : Part → Bool
  | .words text => text.toList.all fun c => c != '{' && c != '}'
  | .place name => name.toList.all (fun c => !isMark c) && !name.toList.all isDigit &&
      (values.lookup name).isSome

/-- What a place needs to be filled in. -/
theorem fits_place {values : Values} {name : String} :
    (place name).fits values = true ↔ name.toList.all (fun c => !isMark c) = true ∧
      name.toList.all isDigit = false ∧ ∃ v, values.lookup name = some v := by
  simp only [fits, Bool.and_eq_true, Bool.not_eq_true', Option.isSome_iff_exists, and_assoc]

end Part

/-- What is not a number has a first letter. -/
theorem exists_cons_of_not_number {name : List Char} (hName : name.all isDigit = false) :
    ∃ c letters, name = c :: letters := by
  cases name with
  | nil => cases hName
  | cons c letters => exact ⟨c, letters, rfl⟩

/-! ## §2 Pieces -/

/-- One letter on, and the pieces of the rest from there. -/
theorem piecesFrom_cons_of_step {s next : Stand} {c : Char} {found : List Piece}
    (hStep : s.step c = .ok (next, found)) (rest : List Char) :
    piecesFrom s (c :: rest) = (found ++ (piecesFrom next rest).1, (piecesFrom next rest).2) := by
  rw [piecesFrom, hStep]

/-- Letters that are no braces are pieces of their own. -/
theorem piecesFrom_words {text : List Char}
    (hPlain : text.all (fun c => c != '{' && c != '}') = true) (rest : List Char) :
    piecesFrom .text (text ++ rest) =
      (text.map .letter ++ (piecesFrom .text rest).1, (piecesFrom .text rest).2) := by
  induction text with
  | nil => rfl
  | cons c text ih =>
    simp only [List.all_cons, Bool.and_eq_true, bne_iff_ne, ne_eq] at hPlain
    obtain ⟨⟨hOpening, hClosing⟩, hText⟩ := hPlain
    have hStep : Stand.text.step c = .ok (.text, [.letter c]) := by
      rw [Stand.step, if_neg hOpening, if_neg hClosing]
    rw [List.cons_append, piecesFrom_cons_of_step hStep, ih (by simpa using hText)]
    rfl

/-- One more letter of a name. -/
theorem nameStep_of_not_mark {c : Char} (hPlain : Part.isMark c = false) (read : List Char) :
    nameStep read c = .ok (.name (c :: read), []) := by
  unfold nameStep
  split
  case h_6 => rfl
  all_goals exact absurd hPlain (by decide)

/-- A name goes on to the closing brace. -/
theorem piecesFrom_name {name : List Char} (hPlain : name.all (fun c => !Part.isMark c) = true)
    (read rest : List Char) :
    piecesFrom (.name read) (name ++ '}' :: rest) =
      (.place (read.reverse ++ name) none [] :: (piecesFrom .text rest).1,
        (piecesFrom .text rest).2) := by
  induction name generalizing read with
  | nil =>
    have hStep : (Stand.name read).step '}' = .ok (.text, [.place read.reverse none []]) := rfl
    rw [List.nil_append, piecesFrom_cons_of_step hStep, List.append_nil]
    rfl
  | cons c name ih =>
    simp only [List.all_cons, Bool.and_eq_true, Bool.not_eq_true'] at hPlain
    have hStep : (Stand.name read).step c = .ok (.name (c :: read), []) :=
      nameStep_of_not_mark hPlain.1 read
    rw [List.cons_append, piecesFrom_cons_of_step hStep, ih hPlain.2]
    simp

/-- A part in front of a template: its pieces come first. -/
theorem piecesFrom_source {values : Values} {part : Part} (hFits : part.fits values = true)
    (rest : List Char) :
    piecesFrom .text (part.source ++ rest) =
      (part.pieces ++ (piecesFrom .text rest).1, (piecesFrom .text rest).2) := by
  cases part with
  | words text => exact piecesFrom_words hFits rest
  | place name =>
    obtain ⟨hPlain, hName, -⟩ := Part.fits_place.1 hFits
    rw [Part.source, Part.pieces]
    -- The first letter of the name opens it.
    obtain ⟨c, letters, hLetters⟩ := exists_cons_of_not_number hName
    rw [hLetters, List.all_cons, Bool.and_eq_true, Bool.not_eq_true'] at hPlain
    have hOpened : Stand.text.step '{' = .ok (.opened, []) := rfl
    have hOpening : ¬c = '{' := by
      rintro rfl
      exact absurd hPlain.1 (by decide)
    have hFirst : Stand.opened.step c = .ok (.name [c], []) := by
      rw [Stand.step, if_neg hOpening]
      exact nameStep_of_not_mark hPlain.1 []
    rw [hLetters, List.cons_append, piecesFrom_cons_of_step hOpened, List.append_assoc,
      List.cons_append, piecesFrom_cons_of_step hFirst, List.singleton_append,
      piecesFrom_name hPlain.2]
    rfl

/-- The pieces of a template are those of its parts. -/
theorem piecesFrom_flatMap_source {values : Values} {parts : List Part}
    (hFits : parts.all (Part.fits values) = true) :
    piecesFrom .text (parts.flatMap Part.source) = (parts.flatMap Part.pieces, none) := by
  induction parts with
  | nil => rfl
  | cons part parts ih =>
    rw [List.all_cons, Bool.and_eq_true] at hFits
    rw [List.flatMap_cons, piecesFrom_source hFits.1, ih hFits.2, List.flatMap_cons]

/-! ## §3 Filling In -/

/-- A plain name that is not a number leads to its value. -/
theorem select_of_plain {values : Values} {name : String} {v : Value}
    (hPlain : name.toList.all (fun c => !Part.isMark c) = true)
    (hName : name.toList.all isDigit = false) (hValue : values.lookup name = some v) :
    select values name.toList = .ok v := by
  have hSome : name.toList.isEmpty = false := by
    obtain ⟨c, letters, hLetters⟩ := exists_cons_of_not_number hName
    rw [hLetters]
    rfl
  -- The whole name is taken, and there is nothing to select in the value.
  have hWhole : ∀ c ∈ name.toList, (c != '.' && c != '[') = true := by
    intro c hMem
    have hMark := List.all_eq_true.1 hPlain c hMem
    rw [Bool.and_eq_true, bne_iff_ne, bne_iff_ne]
    constructor
    · rintro rfl
      exact absurd hMark (by decide)
    · rintro rfl
      exact absurd hMark (by decide)
  have hTaken : name.toList.takeWhile (fun c => c != '.' && c != '[') = name.toList :=
    List.takeWhile_eq_self_iff.2 hWhole
  have hLeft : name.toList.dropWhile (fun c => c != '.' && c != '[') = [] :=
    List.dropWhile_eq_nil_iff.2 hWhole
  have hNoIndex : indexOf? name.toList = .ok none := by
    rw [indexOf?, hSome, hName]
    rfl
  unfold select
  dsimp only
  rw [hTaken, hLeft, hNoIndex, hSome, String.ofList_toList, hValue]
  rfl

/-- What the pieces of a part are shown as. -/
def Part.printed (values : Values) : Part → List (List Char)
  | .words text => text.toList.map fun c => [c]
  | .place name => [((Part.place name).shown values).toList]

theorem Part.flatten_printed (values : Values) (part : Part) :
    (part.printed values).flatten = (part.shown values).toList := by
  cases part with
  | words text => exact List.flatMap_singleton' _
  | place name => exact List.append_nil _

section Showing

variable {values : Values} {show? : Piece → Except Fault (List Char)}

/-- The pieces of a part that fits are shown if letters are, and places that have a value. -/
theorem mapM_pieces (hLetter : ∀ c, show? (.letter c) = .ok [c])
    (hPlace : ∀ name v, select values name = .ok v →
      show? (.place name none []) = .ok v.plain.toList)
    {part : Part} (hFits : part.fits values = true) :
    part.pieces.mapM show? = .ok (part.printed values) := by
  cases part with
  | words text =>
    have hLetters : show? ∘ Piece.letter = fun c => pure [c] := funext hLetter
    rw [Part.pieces, List.mapM_map, hLetters, List.mapM_pure]
    rfl
  | place name =>
    obtain ⟨hPlain, hName, v, hValue⟩ := Part.fits_place.1 hFits
    have hShown : (Part.place name).shown values = v.plain := by
      rw [Part.shown, hValue]
      rfl
    rw [Part.pieces, Part.printed, hShown, List.mapM_cons,
      hPlace _ v (select_of_plain hPlain hName hValue)]
    rfl

/-- The same for the pieces of a template, from the first part to the last. -/
theorem mapM_flatMap_pieces (hLetter : ∀ c, show? (.letter c) = .ok [c])
    (hPlace : ∀ name v, select values name = .ok v →
      show? (.place name none []) = .ok v.plain.toList)
    {parts : List Part} (hFits : parts.all (Part.fits values) = true) :
    (parts.flatMap Part.pieces).mapM show? = .ok (parts.flatMap (Part.printed values)) := by
  induction parts with
  | nil => rfl
  | cons part parts ih =>
    rw [List.all_cons, Bool.and_eq_true] at hFits
    rw [List.flatMap_cons, List.mapM_append, mapM_pieces hLetter hPlace hFits.1, ih hFits.2,
      List.flatMap_cons]
    rfl

end Showing

/-- To any depth, a template of words and plain places with values is filled in. -/
theorem fillTo_source {values : Values} {parts : List Part}
    (hFits : parts.all (Part.fits values) = true) (depth : Nat) :
    fillTo values (depth + 1) (parts.flatMap Part.source) =
      .ok (parts.flatMap fun part => (part.shown values).toList) := by
  have hText : (parts.flatMap (Part.printed values)).flatten =
      parts.flatMap fun part => (part.shown values).toList := by
    rw [← List.flatMap_id, List.flatMap_assoc]
    simp only [List.flatMap_id, Part.flatten_printed]
  rw [fillTo, piecesFrom_flatMap_source hFits, ← hText]
  refine bind_eq_ok_iff.2 ⟨_, mapM_flatMap_pieces (fun _ => rfl) ?_ hFits, rfl⟩
  -- A plain place has no conversion and no layout.
  intro name v hSelect
  dsimp only
  rw [hSelect]
  rfl

/-- **Filling in**: a template of words and plain places with values gives the parts in print, one after
the other. -/
theorem fill_source {values : Values} {parts : List Part}
    (hFits : parts.all (Part.fits values) = true) :
    fill values (String.ofList (parts.flatMap Part.source)) =
      .ok (String.join (parts.map (Part.shown values))) := by
  have hText : String.ofList (parts.flatMap fun part => (part.shown values).toList) =
      String.join (parts.map (Part.shown values)) := by
    rw [← String.toList_inj, String.toList_ofList, String.toList_join, List.flatMap_map]
  rw [fill, String.toList_ofList, fillTo_source hFits, ← hText]
  rfl

end Template

end Text

/-! ## §4 Wordings of Diagnostics -/

namespace Catalog

open Text.Template

/-- The parts of the templates in the catalog. -/
def parts : String → List Part
  | "CE0001" =>
    [.words "built-in library '", .place "name", .words "' is malformed: ", .place "reason"]
  | "CE0002" => [.words "instruction expects 5 fields, got ", .place "got"]
  | "CE1001" => [.place "detail"]
  | "CE2001" => [.words "Expected at least a 1 in the tape"]
  | "CE2002" => [.words "\"", .place "symbol", .words "\" is an unknown movement"]
  | "CE2003" => [.words "Could not find the library \"", .place "name", .words "\""]
  | "CE2004" =>
    [.words "duplicate ", .place "construct", .words " declaration (first declared at ",
      .place "prev_loc", .words ")"]
  | "CW1001" =>
    [.words "instruction (", .place "state", .words ", ", .place "value",
      .words ") already exists, overwriting it"]
  | "RE0001" =>
    [.words "no instruction given for state (", .place "state", .words ", ", .place "value",
      .words ")"]
  | "RW0001" =>
    [.words "state '", .place "state", .words "' was visited more than ", .place "threshold",
      .words " times, probable infinite loop"]
  | _ => []

/-- Every template in the catalog is made up of its parts. -/
theorem template_eq {code : String} {e : Entry} (hEntry : standard.find? code = some e) :
    e.template = String.ofList ((parts code).flatMap Part.source) := by
  have hCode : e.code = code := by simpa using List.find?_some hEntry
  have hMem : e ∈ standard.entries := List.mem_of_find?_eq_some hEntry
  rw [← hCode]
  simp only [standard, List.mem_cons, List.not_mem_nil, or_false] at hMem
  rcases hMem with rfl | rfl | rfl | rfl | rfl | rfl | rfl | rfl | rfl | rfl
  all_goals rfl

variable {code : String} {values : Text.Template.Values}

/-- **Messages**: a diagnostic of the catalog can be worded where there is a value for each place in its
template, and then its parts are in print one after the other. -/
theorem message?_eq (hKnown : (standard.find? code).isSome = true)
    (hFits : (parts code).all (Part.fits values) = true) :
    standard.message? code values = .ok (String.join ((parts code).map (Part.shown values))) := by
  obtain ⟨e, hEntry⟩ := Option.isSome_iff_exists.1 hKnown
  rw [message?, get, hEntry, ok_bind, template_eq hEntry, fill_source hFits]
  rfl

/-- So are they in the wording of the diagnostic. -/
theorem wording_eq (hKnown : (standard.find? code).isSome = true)
    (hFits : (parts code).all (Part.fits values) = true) :
    wording code values = String.join ((parts code).map (Part.shown values)) := by
  rw [wording, message?_eq hKnown hFits]

/-- Where a diagnostic can be worded, the message is its wording. -/
theorem message?_eq_wording (hKnown : (standard.find? code).isSome = true)
    (hFits : (parts code).all (Part.fits values) = true) :
    standard.message? code values = .ok (wording code values) := by
  rw [message?_eq hKnown hFits, wording_eq hKnown hFits]

end Catalog

end TapeMachine
