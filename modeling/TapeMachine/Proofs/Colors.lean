import TapeMachine.Proofs.Excerpts
import Mathlib.Data.List.Forall2

/-!
# Colours Say No More

A report in colour is the plain report with colour sequences in it. Deleting them is a scan over the
whole text, which does not know where the lines and their parts were put together. `Text.Uncolors`
says of one part that the scan deals with it in the same way whatever comes behind it, and so it is
kept when parts are put together.

* `Text.uncolor`: a text without its colour sequences;
* `Text.Uncolors.append`, `Text.Uncolors.intercalate`: parts put together;
* `Text.noEscape_of_mem_linesOf`: the lines of a text have no escape character that is not in it;
* `Report.uncolors_headline`, `Report.forall₂_uncolors_itemLines`: the lines of a diagnostic;
* `Report.uncolored_render`: the whole report.
-/

namespace TapeMachine

namespace Text

/-! ## §1 Deleting Colour Sequences -/

/-- The characters between the start and the end of a colour sequence. -/
def isRendition (c : Char) : Bool := c.isDigit || c == ';'

/-- What comes behind the colour sequence at the start of a text, if there is one: an escape
character, a bracket, numbers between semicolons, and the letter that stands for colours. -/
def afterColor? : List Char → Option (List Char)
  | '\x1b' :: '[' :: rest =>
    match rest.dropWhile isRendition with
    | 'm' :: behind => some behind
    | _ => none
  | _ => none

/-- Numbers between the bracket and the letter make a colour sequence. -/
theorem afterColor?_sequence {numbers : List Char} (hNumbers : numbers.all isRendition = true)
    (behind : List Char) :
    afterColor? ('\x1b' :: '[' :: (numbers ++ 'm' :: behind)) = some behind := by
  have hEnd : (numbers ++ 'm' :: behind).dropWhile isRendition = 'm' :: behind := by
    rw [List.dropWhile_append_of_pos (List.all_eq_true.1 hNumbers)]
    exact List.dropWhile_cons_of_neg (by decide)
  simp only [afterColor?, hEnd]

/-- A colour sequence is not empty. -/
theorem length_lt_of_afterColor? {cs behind : List Char} (h : afterColor? cs = some behind) :
    behind.length < cs.length := by
  unfold afterColor? at h
  split at h
  · next rest =>
    have hDropped : (rest.dropWhile isRendition).length ≤ rest.length :=
      (List.dropWhile_suffix isRendition).length_le
    split at h
    · next hEnd =>
      obtain rfl := Option.some.inj h
      rw [hEnd, List.length_cons] at hDropped
      simp only [List.length_cons]
      omega
    · cases h
  · cases h

/-- A text without its colour sequences. -/
def uncolor : List Char → List Char
  | [] => []
  | c :: cs =>
    match _ : afterColor? (c :: cs) with
    | some behind => uncolor behind
    | none => c :: uncolor cs
termination_by cs => cs.length
decreasing_by
  · exact length_lt_of_afterColor? ‹_›
  · exact Nat.lt_succ_self _

/-- A string without its colour sequences. -/
def uncolored (text : String) : String := String.ofList (uncolor text.toList)

/-- There is no escape character in a text. -/
def NoEscape (text : String) : Prop := '\x1b' ∉ text.toList

instance decidableNoEscape (text : String) : Decidable (NoEscape text) :=
  inferInstanceAs (Decidable ('\x1b' ∉ text.toList))

@[simp] theorem uncolor_nil : uncolor [] = [] := by
  rw [uncolor]

/-- A colour sequence at the start is deleted. -/
theorem uncolor_of_afterColor? {cs behind : List Char} (h : afterColor? cs = some behind) :
    uncolor cs = uncolor behind := by
  cases cs with
  | nil => cases h
  | cons c cs =>
    rw [uncolor]
    split
    · next hSome => rw [Option.some.inj (hSome.symm.trans h)]
    · next hNone =>
      rw [hNone] at h
      cases h

/-- Any other character than an escape character stays. -/
theorem uncolor_cons {c : Char} (hc : c ≠ '\x1b') (cs : List Char) :
    uncolor (c :: cs) = c :: uncolor cs := by
  have hNone : afterColor? (c :: cs) = none := by
    unfold afterColor?
    split
    · next hStart => exact absurd (List.cons.inj hStart).1 hc
    · rfl
  rw [uncolor]
  split
  · next hSome =>
    rw [hNone] at hSome
    cases hSome
  · rfl

/-! ## §2 Parts of a Text -/

/-- Deleting the colour sequences of one part gives the other one, whatever comes behind it. -/
def Uncolors (painted plain : String) : Prop :=
  ∀ rest, uncolor (painted.toList ++ rest) = plain.toList ++ uncolor rest

namespace Uncolors

variable {painted plain painted' plain' : String}

/-- A part that is the whole text. -/
theorem uncolored_eq (h : Uncolors painted plain) : uncolored painted = plain := by
  have hWhole := h []
  rw [List.append_nil, uncolor_nil, List.append_nil] at hWhole
  rw [uncolored, hWhole, String.ofList_toList]

/-- A text without escape characters stays as it is. -/
theorem of_noEscape {text : String} (hText : NoEscape text) : Uncolors text text := by
  intro rest
  -- By induction on the characters of the part; what comes behind it stays the same.
  unfold NoEscape at hText
  generalize text.toList = cs at hText
  induction cs with
  | nil => rfl
  | cons c cs ih =>
    rw [List.mem_cons, not_or] at hText
    rw [List.cons_append, uncolor_cons (Ne.symm hText.1), ih hText.2, List.cons_append]

/-- Two parts, one behind the other. -/
theorem append (h : Uncolors painted plain) (h' : Uncolors painted' plain') :
    Uncolors (painted ++ painted') (plain ++ plain') := by
  intro rest
  rw [String.toList_append, String.toList_append, List.append_assoc, h, h', List.append_assoc]

/-- Parts with a separator between them. -/
theorem intercalate {separator : String} (hSeparator : NoEscape separator)
    {parts parts' : List String} (hParts : List.Forall₂ Uncolors parts parts') :
    Uncolors (separator.intercalate parts) (separator.intercalate parts') := by
  induction hParts with
  | nil => exact of_noEscape (show NoEscape "" by decide)
  | cons hPart hMore ih =>
    -- Only behind the last part there is no separator.
    cases hMore with
    | nil =>
      rw [String.intercalate_singleton, String.intercalate_singleton]
      exact hPart
    | cons _ _ =>
      rw [String.intercalate_cons_cons, String.intercalate_cons_cons]
      exact (hPart.append (of_noEscape hSeparator)).append ih

end Uncolors

/-! ## §3 Texts Without Escape Characters -/

@[simp] theorem noEscape_append {text text' : String} :
    NoEscape (text ++ text') ↔ NoEscape text ∧ NoEscape text' := by
  simp [NoEscape]

/-- A number in decimal. -/
theorem noEscape_toString (n : Int) : NoEscape (toString n) := by
  have hDigits (k : Nat) : NoEscape k.repr := by
    intro hMem
    rw [Nat.toList_repr] at hMem
    have hDigit := Nat.isDigit_of_mem_toDigits (by decide) (by decide) hMem
    exact absurd hDigit (by decide)
  rw [Int.toString_eq_repr, Int.repr_eq_if]
  split
  · exact hDigits _
  · exact noEscape_append.2 ⟨by decide, hDigits _⟩

/-- One more character in front of the first line. -/
theorem flatten_consFirst (c : Char) (ls : List (List Char)) :
    (consFirst c ls).flatten = c :: ls.flatten := by
  cases ls with
  | nil => rfl
  | cons line ls => rfl

/-- The lines of a text hold characters of the text in their order; only line ends are left out. -/
theorem flatten_lines_sublist (cs : List Char) : (lines cs).flatten.Sublist cs := by
  induction cs using lines.induct with
  | case1 => exact List.Sublist.refl _
  | case2 rest ih =>
    rw [lines]
    exact (ih.cons _).cons _
  | case3 c rest hNoFeed hEnd ih =>
    have hLines : lines (c :: rest) = [] :: lines rest := by
      rw [lines, if_pos hEnd]
      exact hNoFeed
    rw [hLines]
    exact ih.cons _
  | case4 c rest _ hInside ih =>
    rw [lines_cons (Bool.eq_false_iff.2 hInside), flatten_consFirst]
    exact ih.cons_cons _

/-- The lines of a text without escape characters. -/
theorem noEscape_of_mem_linesOf {text line : String} (hText : NoEscape text)
    (hLine : line ∈ linesOf text) : NoEscape line := by
  obtain ⟨cs, hMem, rfl⟩ := List.mem_map.1 hLine
  intro hChar
  rw [String.toList_ofList] at hChar
  exact hText ((flatten_lines_sublist _).subset (List.mem_flatten.2 ⟨cs, hMem, hChar⟩))

end Text

/-! ## §4 Colours of a Report -/

open Text

/-- The marks under a text are tildes and carets. -/
theorem Marks.noEscape_text (m : Marks) : NoEscape m.text := by
  simp [NoEscape, text, copies, List.mem_replicate]

/-- There is no escape character in the texts of a diagnostic. -/
structure Item.NoEscape (item : Item) : Prop where
  code : Text.NoEscape item.code
  message : Text.NoEscape item.message
  snippet : ∀ text ∈ item.snippet, Text.NoEscape text

instance Item.decidableNoEscape (item : Item) : Decidable item.NoEscape :=
  decidable_of_iff (Text.NoEscape item.code ∧ Text.NoEscape item.message ∧
      ∀ text ∈ item.snippet, Text.NoEscape text)
    ⟨fun h => ⟨h.1, h.2.1, h.2.2⟩, fun h => ⟨h.code, h.message, h.snippet⟩⟩

namespace Report

/-- The sequence that begins a rendition is deleted, if the rendition is given by numbers. -/
theorem uncolors_escape (rendition : String)
    (hNumbers : rendition.toList.all isRendition = true) : Uncolors (escape rendition) "" := by
  intro rest
  have hSequence : (escape rendition).toList ++ rest =
      '\x1b' :: '[' :: (rendition.toList ++ 'm' :: rest) := by
    simp [escape, String.toList_append]
  rw [hSequence]
  exact uncolor_of_afterColor? (afterColor?_sequence hNumbers rest)

/-- Paint around a text. -/
theorem uncolors_paint (style : Style) (rendition : String) {text : String}
    (hNumbers : rendition.toList.all isRendition = true) (hText : NoEscape text) :
    Uncolors (style.paint rendition text) text := by
  unfold Style.paint
  split
  · have hPainted := ((uncolors_escape rendition hNumbers).append (.of_noEscape hText)).append
      (uncolors_escape "0" (by decide))
    simpa using hPainted
  · exact .of_noEscape hText

/-- The colours of the kinds are given by numbers. -/
theorem isRendition_colorOf (severity : Severity) :
    (colorOf severity).toList.all isRendition = true := by
  cases severity <;> decide

/-- Paint around the kind of a diagnostic. -/
theorem uncolors_paintSeverity (style : Style) (severity : Severity) :
    Uncolors (style.paintSeverity severity) severity.text := by
  have hText : NoEscape severity.text := by cases severity <;> decide
  unfold Style.paintSeverity
  split
  · have hPainted := (uncolors_escape "1" (by decide)).append
      (uncolors_paint style (colorOf severity) (isRendition_colorOf severity) hText)
    simpa using hPainted
  · exact .of_noEscape hText

variable {r : Report} {item : Item}

/-- The place of a diagnostic in words. -/
theorem noEscape_location (hFilename : NoEscape r.filename) (item : Item) :
    NoEscape (r.location item) := by
  unfold location
  cases item.span with
  | none => exact hFilename
  | some span =>
    show NoEscape (r.filename ++ ":" ++ toString span.line ++ ":" ++ toString span.col)
    simp only [noEscape_append]
    exact ⟨⟨⟨⟨hFilename, by decide⟩, noEscape_toString _⟩, by decide⟩, noEscape_toString _⟩

/-- A message with its full stop. -/
theorem noEscape_withStop {message : String} (hMessage : NoEscape message) :
    NoEscape (withStop message) := by
  unfold withStop
  split
  · exact hMessage
  · exact noEscape_append.2 ⟨hMessage, by decide⟩

/-- The text of an excerpt comes from the program or from the diagnostic. -/
theorem noEscape_excerpt (hLines : ∀ line ∈ r.lines, NoEscape line) (hItem : item.NoEscape)
    (span : Span) : NoEscape (r.excerpt item span).1 := by
  show NoEscape (r.excerptLine item span).1
  unfold excerptLine
  cases hLine : lineAt? r.lines span.line with
  | none =>
    cases hSnippet : item.snippet with
    | none => exact (show NoEscape "" by decide)
    | some snippet => exact hItem.snippet snippet hSnippet
  | some line =>
    -- A line that is found by its number is one of the lines.
    unfold lineAt? at hLine
    split at hLine
    · exact hLines line (List.mem_of_getElem? hLine)
    · cases hLine

/-- The line that states a diagnostic. -/
theorem uncolors_headline (hFilename : NoEscape r.filename) (hItem : item.NoEscape) (style : Style) :
    Uncolors (r.headline style item) (r.headline ⟨false, style.unicode⟩ item) := by
  -- The painted pieces and the plain texts in between them, from left to right.
  have hLocation := uncolors_paint style "36" (by decide) (noEscape_location hFilename item)
  have hKind := uncolors_paintSeverity style item.severity
  have hCode := uncolors_paint style "2" (by decide) hItem.code
  have hMessage := Uncolors.of_noEscape (noEscape_withStop hItem.message)
  have hColon : Uncolors ": " ": " := .of_noEscape (by decide)
  have hOpen : Uncolors " [" " [" := .of_noEscape (by decide)
  have hClose : Uncolors "]: " "]: " := .of_noEscape (by decide)
  exact (((((hLocation.append hColon).append hKind).append hOpen).append hCode).append
    hClose).append hMessage

/-- The lines of a diagnostic: those in colour and the plain ones are as many, and each one says what
the other one does. -/
theorem forall₂_uncolors_itemLines (hFilename : NoEscape r.filename)
    (hLines : ∀ line ∈ r.lines, NoEscape line) (hItem : item.NoEscape) (style : Style) :
    List.Forall₂ Uncolors (r.itemLines style item) (r.itemLines ⟨false, style.unicode⟩ item) := by
  have hHeadline := uncolors_headline hFilename hItem style
  unfold itemLines
  cases item.span with
  | none => exact .cons hHeadline .nil
  | some span =>
    have hBar : NoEscape (if style.unicode then "  │ " else "  | ") := by split <;> decide
    have hCorner : NoEscape (if style.unicode then "  ╰ " else "  ` ") := by split <;> decide
    have hText := (uncolors_paint style "90" (by decide) hBar).append
      (.of_noEscape (noEscape_excerpt hLines hItem span))
    have hMarks := (uncolors_paint style "90" (by decide) hCorner).append
      (uncolors_paint style (colorOf item.severity) (isRendition_colorOf item.severity)
        (r.excerptMarks item span).2.noEscape_text)
    exact .cons hHeadline (.cons hText (.cons hMarks .nil))

/-- All diagnostics, one after the other. -/
theorem uncolors_render (hFilename : NoEscape r.filename) (hLines : ∀ line ∈ r.lines, NoEscape line)
    (hItems : ∀ item ∈ r.items, item.NoEscape) (style : Style) :
    Uncolors (r.render style) (r.render ⟨false, style.unicode⟩) := by
  -- Diagnostics are related if their lines are, which all of them are to themselves.
  let related (item item' : Item) : Prop :=
    List.Forall₂ Uncolors (r.itemLines style item) (r.itemLines ⟨false, style.unicode⟩ item')
  have hRelated : List.Forall₂ related r.items r.items :=
    List.forall₂_same.2 fun item hMem =>
      forall₂_uncolors_itemLines hFilename hLines (hItems item hMem) style
  exact Uncolors.intercalate (by decide) (List.rel_flatMap hRelated fun _ _ hLine => hLine)

/-- **Colours**: for any program or none, any name of a file and any diagnostics, all without escape
characters, and either kind of guides, the report in colour without its colour sequences is the
plain report. -/
theorem uncolored_render (source : Option String) (filename : String) (items : List Item)
    (hSource : ∀ text ∈ source, NoEscape text) (hFilename : NoEscape filename)
    (hItems : ∀ item ∈ items, item.NoEscape) (unicode : Bool) :
    let r : Report := { on source filename with items }
    uncolored (r.render ⟨true, unicode⟩) = r.render ⟨false, unicode⟩ := by
  intro r
  have hText : NoEscape (source.getD "") := by
    cases source with
    | none => exact (show NoEscape "" by decide)
    | some text => exact hSource text rfl
  have hLines : ∀ line ∈ r.lines, NoEscape line := fun line => noEscape_of_mem_linesOf hText
  exact (uncolors_render hFilename hLines hItems ⟨true, unicode⟩).uncolored_eq

/-- A line of the program, a snippet for a line that is not there, and a diagnostic without a place. -/
theorem uncolored_render_of_three :
    let items : List Item :=
      [⟨.error, "CE2002", "bad move", some ⟨1, 2, some 1, some 3⟩, none⟩,
        ⟨.warning, "CW1001", "twice.", some ⟨7, 3, none, none⟩, some "oops"⟩,
        ⟨.error, "RE0001", "stuck", none, none⟩]
    let r : Report := { on (some "(X)") "t.tm" with items }
    (∀ item ∈ items, item.NoEscape) ∧
      uncolored (r.render ⟨true, false⟩) =
        "t.tm:1:2: error [CE2002]: bad move.\n  | (X)\n  ` ~^~\n" ++
        "t.tm:7:3: warning [CW1001]: twice.\n  | oops\n  ` ^^^^\n" ++
        "t.tm: error [RE0001]: stuck." := by
  intro items r
  have hItems : ∀ item ∈ items, item.NoEscape := by decide
  have hPlain := uncolored_render (some "(X)") "t.tm" items (by decide) (by decide) hItems false
  exact ⟨hItems, hPlain.trans (by decide)⟩

end Report

end TapeMachine
