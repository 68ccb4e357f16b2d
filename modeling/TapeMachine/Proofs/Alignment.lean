import TapeMachine.Report

/-!
# Alignment of Excerpts

Spans may come from outside, and nothing is assumed of their numbers. Whatever they are, the line of
marks in an excerpt is a row of tildes with one block of carets in it, which begins at the column
where the marks of the shown text begin. The marks reach as far as the text, or as far as the block
if that ends later.

* `Marks.under_eq`: the three numbers of the marks under a text;
* `Marks.width_under`: how many carets mark a range that is not empty;
* `Report.excerptLine_eq`: which text is shown, and where its marks begin;
* `Report.excerpts_aligned` puts these together.
-/

namespace TapeMachine

/-! ## §1 Marks for Any Columns -/

namespace Marks

/-- **Marks**: before the block are the columns up to its start, or none if it starts before the first
column. The block is not empty, and what stands behind it goes on to the end of the text. -/
theorem under_eq (length : Nat) (start : Int) (stop : Option Int) :
    ∃ before width after : Nat, under length start stop = ⟨before, width, after⟩ ∧
      (before : Int) + 1 = max 1 start ∧ 0 < width ∧
      before + width + after = max length (before + width) := by
  unfold under
  dsimp only
  -- Only that the block has an end matters here, and not which one.
  generalize nonzeroOr stop (max 1 start + 1) = stop
  refine ⟨(max 1 start - 1).toNat, (max 1 (stop - max 1 start)).toNat,
    (max 0 ((length : Int) - (max 1 start - 1) - max 1 (stop - max 1 start))).toNat, ?_, ?_, ?_, ?_⟩
  · rw [mk.injEq]
    omega
  · omega
  · omega
  · omega

/-- A range of columns from the first one on that is not empty has a caret for each of them. -/
theorem width_under (length : Nat) {start stop : Int} (hStart : 1 ≤ start) (hStop : start < stop) :
    (under length start (some stop)).width = stop - start := by
  have hEnd : nonzeroOr (some stop) (start + 1) = stop := if_neg (by omega)
  unfold under
  rw [Int.max_eq_right hStart]
  dsimp only
  rw [hEnd]
  omega

/-- The marks in print, where their numbers are not negative. -/
theorem text_natCast (before width after : Nat) :
    text ⟨before, width, after⟩ = String.ofList (List.replicate before '~' ++
      List.replicate width '^' ++ List.replicate after '~') := by
  simp [text, copies]

end Marks

/-! ## §2 The Line That Is Shown -/

/-- There is a line with a number if it is at least 1 and at most the number of lines. -/
theorem Text.isSome_lineAt? (texts : List String) (number : Int) :
    (lineAt? texts number).isSome = true ↔ 0 < number ∧ number ≤ texts.length := by
  unfold lineAt?
  by_cases hPositive : 0 < number
  · rw [if_pos hPositive, isSome_getElem?]
    omega
  · rw [if_neg hPositive]
    simp [hPositive]

namespace Report

/-- The line of the program is shown from the column of the span on, and the snippet from the first
column on if there is no such line. -/
theorem excerptLine_eq (r : Report) (item : Item) (span : Span) :
    r.excerptLine item span =
      ((Text.lineAt? r.lines span.line).getD (item.snippet.getD ""),
        if 0 < span.line ∧ span.line ≤ r.lines.length then span.col else 1) := by
  have hExists := Text.isSome_lineAt? r.lines span.line
  unfold excerptLine
  cases hLine : Text.lineAt? r.lines span.line with
  | none =>
    rw [hLine] at hExists
    simp [← hExists]
  | some line =>
    rw [hLine] at hExists
    simp [← hExists]

/-! ## §3 Excerpts -/

/-- **Alignment**: for any program or none, any snippet and any span, the marks of an excerpt are
tildes, a block of carets that is not empty, and tildes. The block begins at the column of the span
if the line of the span is there, at the first column if it is not, and never before the first
column. The marks are as long as the text, or as long as it takes for the block. A span that ends on
its line, from the first column on and behind its start, has a caret for each of its columns. Text
and marks are printed behind guides of one length. -/
theorem excerpts_aligned (source : Option String) (filename : String) (items : List Item)
    {item : Item} {span : Span} (hSpan : item.span = some span) :
    let lines := Text.linesOf (source.getD "")
    let r : Report := { on source filename with items }
    let start : Int := if 0 < span.line ∧ span.line ≤ lines.length then span.col else 1
    ∃ (text marks : String) (before width after : Nat),
      r.excerpt item span = (text, marks) ∧
      text = (Text.lineAt? lines span.line).getD (item.snippet.getD "") ∧
      marks = String.ofList (List.replicate before '~' ++ List.replicate width '^' ++
        List.replicate after '~') ∧
      0 < width ∧ (before : Int) + 1 = max 1 start ∧
      marks.length = max text.length (before + width) ∧
      (∀ endCol, span.endLine = some span.line → span.endCol = some endCol → 1 ≤ start →
        span.col < endCol → (width : Int) = endCol - span.col) ∧
      ∀ unicode, ∃ bar corner : String, bar.length = corner.length ∧
        r.itemLines ⟨false, unicode⟩ item =
          [r.headline ⟨false, unicode⟩ item, bar ++ text, corner ++ marks] := by
  intro lines r start
  have hLine : r.excerptLine item span =
      ((Text.lineAt? lines span.line).getD (item.snippet.getD ""), start) :=
    r.excerptLine_eq item span
  generalize (Text.lineAt? lines span.line).getD (item.snippet.getD "") = text at hLine
  obtain ⟨before, width, after, hMarks, hBefore, hWidth, hTotal⟩ :=
    Marks.under_eq text.length start (some (excerptEnd span text start))
  have hExcerpt : r.excerpt item span = (text, (Marks.mk before width after).text) := by
    rw [excerpt, excerptMarks, hLine]
    dsimp only
    rw [hMarks]
  refine ⟨text, _, before, width, after, hExcerpt, rfl, Marks.text_natCast _ _ _, hWidth, hBefore,
    ?length, ?block, ?guides⟩
  case length =>
    rw [Marks.text_natCast]
    simpa [Nat.add_assoc] using hTotal
  case block =>
    intro endCol hOnLine hEnd hStart hBehind
    have hStop : excerptEnd span text start = start + (endCol - span.col) := by
      rw [excerptEnd, hEnd]
      exact if_pos hOnLine
    have hBlock := Marks.width_under text.length hStart
      (show start < start + (endCol - span.col) by omega)
    rw [← hStop, hMarks] at hBlock
    have hCarets : (width : Int) = excerptEnd span text start - start := hBlock
    omega
  case guides =>
    intro unicode
    rw [itemLines, hSpan]
    dsimp only
    rw [hExcerpt]
    cases unicode with
    | false => exact ⟨"  | ", "  ` ", by decide, rfl⟩
    | true => exact ⟨"  │ ", "  ╰ ", by decide, rfl⟩

/-- A span that goes on behind the text of its line: the block is not cut off there. -/
theorem excerpts_aligned_behind_text :
    let item : Item := ⟨.error, "CE2001", "bad", some ⟨2, 2, some 2, some 5⟩, none⟩
    let r : Report := { on (some "\x7b1\x7d;\nab") "go.tm" with items := [item] }
    item.span = some ⟨2, 2, some 2, some 5⟩ ∧
      r.excerpt item ⟨2, 2, some 2, some 5⟩ = ("ab", "~^^^") := by
  intro item r
  have hSpan : item.span = some ⟨2, 2, some 2, some 5⟩ := rfl
  obtain ⟨text, marks, before, width, after, hExcerpt, hText, hMarks, -, hBefore, hLength, hBlock, -⟩ :=
    excerpts_aligned (some "\x7b1\x7d;\nab") "go.tm" [item] hSpan
  have hLine : text = "ab" := hText.trans (by decide)
  have hFirst : (before : Int) + 1 = 2 := hBefore.trans (by decide)
  have hWidth : (width : Int) = 3 := hBlock 5 rfl rfl (by decide) (by decide)
  obtain rfl : before = 1 := by omega
  obtain rfl : width = 3 := by omega
  have hNoRest : after = 0 := by
    rw [hMarks, hLine, String.length_ofList] at hLength
    simp only [List.length_append, List.length_replicate] at hLength
    have hShort : "ab".length = 2 := by decide
    omega
  refine ⟨hSpan, ?_⟩
  rw [hExcerpt, hText, hMarks, hNoRest]
  decide

end Report

end TapeMachine
