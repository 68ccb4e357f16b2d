import TapeMachine.Proofs.Language.Occurrences
import TapeMachine.Proofs.Language.Placement

/-!
# Spans Point at Their Text

A text that has a program consists of the texts of its records and of gaps between and around them.
The span of a record is where its text stands, the span of a word is where the word stands, and the
program reaches from its first record to its last.

* `RecordsStand` takes a text apart into the texts of records and the gaps, and
  `Program.recordsStand_of_ofSource` shows it of the text of a program;
* `Record.StandsFor.places_of_fields` and `RecordsStand.pairwise_spans`: what follows for words and
  records;
* `Program.spans_point_at_text` puts these together.
-/

namespace TapeMachine

open Layout

/-! ## §1 Spans -/

namespace Span

/-- A text stands at a span, on one line of a source. Only line feeds end lines, and lines and columns
are counted from 1. -/
def Shows (s : Span) (source text : List Char) : Prop :=
  ∃ line col : Nat, ∃ content, 1 ≤ line ∧ 1 ≤ col ∧
    s = ⟨line, col, some (line : Int), some ((col + text.length : Nat) : Int)⟩ ∧
    (source.splitOn '\n')[line - 1]? = some content ∧
    (content.drop (col - 1)).take text.length = text

/-- A span ends where another begins or in front of it, and both have an extent. -/
def Precedes (s t : Span) : Prop :=
  ∃ a b c d : Cursor, s = a.spanTo b ∧ t = c.spanTo d ∧ a.Before b ∧ b.UpTo c ∧ c.Before d

/-- A span lies in another. -/
def Within (s t : Span) : Prop :=
  ∃ a b c d : Cursor, s = b.spanTo c ∧ t = a.spanTo d ∧ a.UpTo b ∧ c.UpTo d

end Span

/-- A text on one line stands at the span between its two ends. -/
theorem shows_of_no_feed {text : List Char} (hFeed : '\n' ∉ text) (front rest : List Char) :
    ((positionAfter front).spanTo (positionAfter (front ++ text))).Shows (front ++ (text ++ rest))
      text := by
  obtain ⟨content, hLine, hContent⟩ := drop_line_eq front (text ++ rest)
  refine ⟨(positionAfter front).line, (positionAfter front).col, content, Nat.succ_pos _,
    Nat.succ_pos _, ?_, hLine, ?_⟩
  · rw [positionAfter_append, Cursor.after_of_no_feed _ hFeed]
    rfl
  · rw [hContent, List.takeWhile_append_of_pos (ne_feed_of_not_mem hFeed), List.take_left]

/-- A word that was read is kept with its span. -/
theorem Lexeme.field_eq {w : Lexeme} {text : List Char} (hStop : w.stop = positionAfter text) :
    w.field = ⟨w.text, some w.span⟩ := by
  have hLine : w.stop.line ≠ 0 := by
    rw [hStop]
    exact Nat.succ_ne_zero _
  have hCol : w.stop.col ≠ 0 := by
    rw [hStop]
    exact Nat.succ_ne_zero _
  simp [Lexeme.field, Field.ofToken, Token.ofLexeme, Token.span?, nonzeroOr, hLine, hCol, Lexeme.span,
    Cursor.spanTo]

/-! ## §2 Texts of Records -/

/-- The text of a record, behind a front and in front of a rest: the words of its declaration, from the
first character of the first to the last of the last. The record reaches over this text, and keeps
words of it in order. -/
structure Record.StandsFor (r : Record) (front body rest : List Char) : Prop where
  cut : ∃ (d : Declaration) (first : Piece) (more : List Piece), first.gap = [] ∧
    body = textFrom [] (first :: more) ∧ ValidFrontFrom [] rest (first :: more) ∧
    (first :: more).map Piece.toWord = d.words ∧ r.unplaced = d.record ∧
    r.fields.Sublist ((lexemesFrom (positionAfter front) (first :: more)).map Lexeme.field)
  span : r.span = some ((positionAfter front).spanTo (positionAfter (front ++ body)))

/-- Behind a front, a text consists of the texts of records, with gaps between and around them. -/
inductive RecordsStand : List Char → List Char → List Record → Prop where
  /-- Behind the last record there is only a gap. -/
  | nil {front gap : List Char} : Gap gap [] → RecordsStand front gap []
  /-- A gap, the text of the first record, and what is behind it. -/
  | cons {front gap body rest : List Char} {r : Record} {records : List Record} :
      Gap gap (body ++ rest) → r.StandsFor (front ++ gap) body rest →
        RecordsStand (front ++ gap ++ body) rest records →
          RecordsStand front (gap ++ (body ++ rest)) (r :: records)

/-- **Texts of records**: the pieces from which records are read off are the texts of the records. -/
theorem recordsStand_of_blocks {front last : List Char} {pieces : List Piece}
    {blocks : List (List Lexeme)} {records : List Record} (hValid : ValidFrom last pieces)
    (hWords : blocks.flatten = lexemesFrom (positionAfter front) pieces)
    (hBlocks : List.Forall₂ Record.OfBlock blocks records) :
    RecordsStand front (textFrom last pieces) records := by
  induction hBlocks generalizing front pieces with
  | nil =>
    cases pieces with
    | nil => exact RecordsStand.nil hValid
    | cons piece pieces => cases hWords
  | @cons block r blocks records hBlock _ ih =>
    -- The words of the first block come from pieces in front, and the others from those behind.
    rw [List.flatten_cons] at hWords
    obtain ⟨ps, qs, rfl, rfl, hRest⟩ := exists_pieces_of_append hWords.symm
    obtain ⟨hFront, hBack⟩ := validFrom_append hValid
    obtain ⟨d, hContent, hForm⟩ := hBlock.form
    obtain ⟨first, rest, hFirst, hSpan⟩ := hBlock.span
    cases ps with
    | nil => cases hFirst
    | cons piece more =>
      -- The gap in front of the first word comes in front of the record, whose text has none.
      obtain ⟨hStart, hStop⟩ := ends_of_lexemesFrom hFirst
      rw [words_lexemesFrom] at hContent
      have hBody : textFrom [] (piece :: more) = piece.gap ++ (piece.text ++ textFrom [] more) := rfl
      obtain ⟨hGap, hPiece⟩ := hFront
      rw [textFrom_append, ← List.append_assoc] at hGap
      rw [textFrom_append_pieces, hBody, List.append_assoc]
      refine RecordsStand.cons hGap ⟨⟨d, { piece with gap := [] }, more, rfl, rfl, ⟨Gap.nil _, hPiece⟩,
        hContent, hForm, ?_⟩, ?_⟩ ?_
      · rw [positionAfter_append]
        exact hBlock.fields
      · rw [hSpan, hStart, hStop, hBody, positionAfter_append, positionAfter_append,
          Cursor.after_append, positionAfter_append]
      · apply ih hBack
        rw [← hRest, hBody, positionAfter_append, positionAfter_append, Cursor.after_append]

/-! ## §3 Words of Records -/

/-- A word that was read behind a front stands where its text does. -/
theorem exists_place_of_mem {front : List Char} {pieces : List Piece} {w : Lexeme}
    (hSpelled : ∀ piece ∈ pieces, piece.terminal.Spelling piece.text)
    (hw : w ∈ lexemesFrom (positionAfter front) pieces) :
    w.field = ⟨w.text, some w.span⟩ ∧ w.start.Before w.stop ∧
      ∃ before after, textFrom [] pieces = before ++ (w.text.toList ++ after) ∧
        w.terminal.Spelling w.text.toList ∧
        w.span = (positionAfter (front ++ before)).spanTo
          (positionAfter (front ++ before ++ w.text.toList)) := by
  obtain ⟨hSpelling, before, after, hText, hStart, hStop⟩ := exists_occurrence hSpelled hw []
  obtain ⟨c, more, hChars, -⟩ := hSpelling.begins
  have hBefore : w.start.Before w.stop := by
    rw [hStop]
    exact Cursor.before_after _ (by rw [hChars]; exact List.cons_ne_nil c more)
  rw [← positionAfter_append] at hStart
  rw [hStart, ← positionAfter_append] at hStop
  refine ⟨Lexeme.field_eq hStop, hBefore, before, after, hText, hSpelling, ?_⟩
  rw [Lexeme.span, hStart, hStop]

namespace Record.StandsFor

variable {r : Record} {front body rest : List Char}

/-- The text of a record is not empty. -/
theorem body_ne_nil (hStands : r.StandsFor front body rest) : body ≠ [] := by
  obtain ⟨-, first, more, -, rfl, hValid, -⟩ := hStands.cut
  obtain ⟨c, text, hChars, -⟩ := hValid.2.1.begins
  simp [textFrom, hChars]

/-- The words that a record keeps stand where their spans point, within the span of the record. -/
theorem places_of_fields (hStands : r.StandsFor front body rest) :
    ∀ f ∈ r.fields, ∃ s t, r.span = some s ∧ f.span = some t ∧ t.Within s ∧
      t.Shows (front ++ (body ++ rest)) f.text.toList := by
  intro f hf
  obtain ⟨-, first, more, -, rfl, hValid, -, -, hFields⟩ := hStands.cut
  obtain ⟨w, hw, rfl⟩ := List.mem_map.1 (hFields.subset hf)
  obtain ⟨hField, -, before, after, hText, hSpelling, hSpan⟩ :=
    exists_place_of_mem (spelling_of_validFrontFrom hValid) hw
  obtain ⟨hFrom, hTo⟩ := bounds_of_mem_lexemesFrom hw
  rw [← positionAfter_append] at hTo
  rw [hField]
  refine ⟨_, w.span, hStands.span, rfl, ⟨_, w.start, w.stop, _, rfl, rfl, hFrom, hTo⟩, ?_⟩
  have hShows := shows_of_no_feed hSpelling.no_feed (front ++ before) (after ++ rest)
  rw [hSpan, hText]
  simpa using hShows

/-- The words that a record keeps stand one behind the other. -/
theorem pairwise_fields (hStands : r.StandsFor front body rest) :
    r.fields.Pairwise fun f g =>
      ∃ s t, f.span = some s ∧ g.span = some t ∧ s.Precedes t := by
  obtain ⟨-, first, more, -, rfl, hValid, -, -, hFields⟩ := hStands.cut
  -- All words stand one behind the other, and so do those that are kept.
  refine List.Pairwise.sublist hFields (List.pairwise_map.2 ?_)
  refine (pairwise_lexemesFrom _ _).imp_of_mem fun {v w} hv hw hOrder => ?_
  obtain ⟨hFieldV, hBeforeV, -⟩ := exists_place_of_mem (spelling_of_validFrontFrom hValid) hv
  obtain ⟨hFieldW, hBeforeW, -⟩ := exists_place_of_mem (spelling_of_validFrontFrom hValid) hw
  rw [hFieldV, hFieldW]
  exact ⟨v.span, w.span, rfl, rfl, v.start, v.stop, w.start, w.stop, rfl, rfl, hBeforeV, hOrder,
    hBeforeW⟩

end Record.StandsFor

/-! ## §4 Records of a Text -/

namespace RecordsStand

variable {front rest : List Char} {records : List Record}

/-- Each record has its text in the whole. -/
theorem exists_standsFor (hStand : RecordsStand front rest records) {r : Record}
    (hr : r ∈ records) :
    ∃ before body after, front ++ rest = before ++ (body ++ after) ∧
      r.StandsFor before body after := by
  induction hStand with
  | nil => cases hr
  | @cons front gap body rest q records _ hFirst _ ih =>
    rcases List.mem_cons.1 hr with rfl | hr
    · exact ⟨front ++ gap, body, rest, by simp, hFirst⟩
    · obtain ⟨before, other, after, hText, hStands⟩ := ih hr
      exact ⟨before, other, after, by simpa using hText, hStands⟩

/-- The records stand behind the front. -/
theorem behind_front (hStand : RecordsStand front rest records) :
    ∀ r ∈ records, ∃ a b, r.span = some (Cursor.spanTo a b) ∧ (positionAfter front).UpTo a ∧
      a.Before b := by
  induction hStand with
  | nil => simp
  | @cons front gap body rest q records _ hFirst _ ih =>
    intro r hr
    rcases List.mem_cons.1 hr with rfl | hr
    · refine ⟨_, _, hFirst.span, ?_, ?_⟩
      · rw [positionAfter_append]
        exact Cursor.upTo_after _ _
      · rw [positionAfter_append (front ++ gap)]
        exact Cursor.before_after _ hFirst.body_ne_nil
    · obtain ⟨a, b, hSpan, hFrom, hBefore⟩ := ih r hr
      refine ⟨a, b, hSpan, Cursor.UpTo.trans ?_ hFrom, hBefore⟩
      rw [List.append_assoc, positionAfter_append]
      exact Cursor.upTo_after _ _

/-- The records stand one behind the other. -/
theorem pairwise_spans (hStand : RecordsStand front rest records) :
    records.Pairwise fun q r => ∃ s t, q.span = some s ∧ r.span = some t ∧ s.Precedes t := by
  induction hStand with
  | nil => exact List.Pairwise.nil
  | @cons front gap body rest q records _ hFirst hRest ih =>
    refine List.Pairwise.cons (fun r hr => ?_) ih
    obtain ⟨c, d, hSpan, hFrom, hBefore⟩ := hRest.behind_front r hr
    -- All that comes later stands behind the text of the first record.
    refine ⟨_, _, hFirst.span, hSpan, _, _, c, d, rfl, rfl, ?_, hFrom, hBefore⟩
    rw [positionAfter_append (front ++ gap)]
    exact Cursor.before_after _ hFirst.body_ne_nil

end RecordsStand

/-- The span of a program is missing if there are no records, and otherwise reaches from the first of
them to the last. -/
theorem spanOfTrees_spec {nodes : List Tree} {records : List Record}
    (hSpans : nodes.map Tree.span? = records.map Record.span)
    (hPlaced : ∀ r ∈ records, ∃ s, r.span = some s) :
    (spanOfTrees nodes = none ↔ records = []) ∧
      ∀ first last, records.head? = some first → records.getLast? = some last →
        ∃ s t, first.span = some s ∧ last.span = some t ∧
          spanOfTrees nodes = some (s.through t) := by
  have hReach : ∀ first last, records.head? = some first → records.getLast? = some last →
      ∃ s t, first.span = some s ∧ last.span = some t ∧
        spanOfTrees nodes = some (s.through t) := by
    intro first last hHead hLast
    obtain ⟨s, hs⟩ := hPlaced first (List.mem_of_head? hHead)
    obtain ⟨t, ht⟩ := hPlaced last (List.mem_of_getLast? hLast)
    -- The first and the last node have the spans of the first and the last record.
    have hFirstNode := congrArg List.head? hSpans
    have hLastNode := congrArg List.getLast? hSpans
    rw [List.head?_map, List.head?_map, hHead, Option.map_some, Option.map_eq_some_iff] at hFirstNode
    rw [List.getLast?_map, List.getLast?_map, hLast, Option.map_some, Option.map_eq_some_iff] at hLastNode
    obtain ⟨node, hNode, hNodeSpan⟩ := hFirstNode
    obtain ⟨other, hOther, hOtherSpan⟩ := hLastNode
    refine ⟨s, t, hs, ht, ?_⟩
    simp [spanOfTrees, hNode, hOther, hNodeSpan, hOtherSpan, hs, ht]
  refine ⟨⟨fun hNone => ?_, ?_⟩, hReach⟩
  · by_contra hSome
    obtain ⟨s, t, -, -, hThrough⟩ := hReach _ _ (List.head?_eq_some_head hSome)
      (List.getLast?_eq_some_getLast hSome)
    rw [hNone] at hThrough
    cases hThrough
  · rintro rfl
    obtain rfl := List.map_eq_nil_iff.1 hSpans
    rfl

/-! ## §5 Programs -/

/-- A text that has a program consists of the texts of its records. -/
theorem Program.recordsStand_of_ofSource {source : String} {p : Program}
    (hProgram : Program.ofSource source = .ok p) : RecordsStand [] source.toList p.records := by
  obtain ⟨layout, program, blocks, hDecomposes, hWords, hBlocks, -⟩ := Program.exists_blocks hProgram
  rw [← hDecomposes.text]
  exact recordsStand_of_blocks hDecomposes.valid hWords hBlocks

/-- **Spans point at their text**: the text of a program consists of the texts of its records, each
with the span of its record, and of white space and comments. In each record, the words that are kept
stand at their spans, within the span of the record and one behind the other; so do the records. The
program reaches from the first record to the last, and has no span if there are none. -/
theorem Program.spans_point_at_text {source : String} {p : Program}
    (hProgram : Program.ofSource source = .ok p) :
    RecordsStand [] source.toList p.records ∧
      (∀ r ∈ p.records, ∀ f ∈ r.fields, ∃ s t, r.span = some s ∧ f.span = some t ∧ t.Within s ∧
        t.Shows source.toList f.text.toList) ∧
      (∀ r ∈ p.records, r.fields.Pairwise fun f g =>
        ∃ s t, f.span = some s ∧ g.span = some t ∧ s.Precedes t) ∧
      (p.records.Pairwise fun q r =>
        ∃ s t, q.span = some s ∧ r.span = some t ∧ s.Precedes t) ∧
      (p.span = none ↔ p.records = []) ∧
      (∀ first last, p.records.head? = some first → p.records.getLast? = some last →
        ∃ s t, first.span = some s ∧ last.span = some t ∧ p.span = some (s.through t)) := by
  obtain ⟨layout, program, blocks, hDecomposes, hWords, hBlocks, hSpans, hSpan⟩ :=
    Program.exists_blocks hProgram
  have hStand : RecordsStand [] source.toList p.records := by
    rw [← hDecomposes.text]
    exact recordsStand_of_blocks hDecomposes.valid hWords hBlocks
  have hPlaced : ∀ r ∈ p.records, ∃ s, r.span = some s :=
    fun r hr => (Program.placed_of_ofSource hProgram r hr).place
  obtain ⟨hMissing, hReach⟩ := spanOfTrees_spec hSpans hPlaced
  rw [← hSpan] at hMissing hReach
  refine ⟨hStand, fun r hr => ?_, fun r hr => ?_, hStand.pairwise_spans, hMissing, hReach⟩
  · obtain ⟨before, body, after, hText, hStands⟩ := hStand.exists_standsFor hr
    rw [List.nil_append] at hText
    rw [hText]
    exact hStands.places_of_fields
  · obtain ⟨before, body, after, -, hStands⟩ := hStand.exists_standsFor hr
    exact hStands.pairwise_fields

/-- A tape behind a comment of two lines, and an initial state behind a carriage return and a form feed,
with a comment between its words. -/
theorem Program.spans_point_at_text_behind_comments :
    ∃ p, Program.ofSource "/*\n*/\x7b1\x7d;\r\n\x0cI=\x7b/**/q0\x7d;" = .ok p ∧
      RecordsStand [] "/*\n*/\x7b1\x7d;\r\n\x0cI=\x7b/**/q0\x7d;".toList p.records ∧
      p.span = some ⟨2, 3, some 3, some 13⟩ ∧
      p.records.map Record.span = [some ⟨2, 3, some 2, some 7⟩, some ⟨3, 2, some 3, some 13⟩] ∧
      p.records.flatMap Record.fields =
        [⟨"1", some ⟨2, 4, some 2, some 5⟩⟩, ⟨"q0", some ⟨3, 9, some 3, some 11⟩⟩] ∧
      ∀ r ∈ p.records, ∀ f ∈ r.fields, ∃ s t, r.span = some s ∧ f.span = some t ∧ t.Within s ∧
        t.Shows "/*\n*/\x7b1\x7d;\r\n\x0cI=\x7b/**/q0\x7d;".toList f.text.toList := by
  have hProgram : Program.ofSource "/*\n*/\x7b1\x7d;\r\n\x0cI=\x7b/**/q0\x7d;" = .ok
      ⟨some ⟨2, 3, some 3, some 13⟩,
        [.tape (some ⟨2, 3, some 2, some 7⟩) [⟨"1", some ⟨2, 4, some 2, some 5⟩⟩],
          .initialState (some ⟨3, 2, some 3, some 13⟩) ⟨"q0", some ⟨3, 9, some 3, some 11⟩⟩]⟩ := rfl
  obtain ⟨hStand, hFields, -⟩ := Program.spans_point_at_text hProgram
  exact ⟨_, hProgram, hStand, rfl, rfl, rfl, hFields⟩

end TapeMachine
