import TapeMachine.Proofs.Language.Spans
import TapeMachine.Report

/-!
# Excerpts of a Program

A diagnostic with a place is shown with a line of the program and a line of marks below it. Where no
other characters than line feeds end lines, the lines that are shown are those that are counted when
a program is read, so that the line is the one on which the place begins, and the carets are below
the text at the place.

* `Text.splitOn_eq_lines`: the lines that are shown and those that are counted;
* `Marks.text_under`: the marks below a line;
* `Span.Underlines` says which part of its line is marked for a span, and `Report.excerpt_eq` and
  `Report.shows_add` that a report shows this;
* `Span.underlines_of_shows`, `Span.underlines_line` and `Span.underlines_of_text`: the spans that
  point at a word, at a single place, and at any text.
-/

namespace TapeMachine

/-! ## §1 Lines -/

namespace Text

/-- Among the characters that end lines, the text has line feeds only. -/
def OnlyFeeds (text : List Char) : Prop := ∀ c ∈ text, isLineEnd c = true → c = '\n'

theorem lines_feed (rest : List Char) : lines ('\n' :: rest) = [] :: lines rest := by
  have hEnd : isLineEnd '\n' = true := by decide
  rw [lines, if_pos hEnd]
  intro _ hReturn
  cases hReturn

theorem lines_cons {c : Char} {rest : List Char} (hWithin : isLineEnd c = false) :
    lines (c :: rest) = consFirst c (lines rest) := by
  have hNoEnd : ¬ isLineEnd c = true := by simp [hWithin]
  rw [lines, if_neg hNoEnd]
  -- A carriage return is none of the characters within a line.
  rintro _ rfl
  exact absurd hWithin (by decide)

/-- **Lines**: the lines that are shown are the pieces between the line feeds, except that there is
no line behind a line feed at the very end. -/
theorem splitOn_eq_lines {text : List Char} (hFeeds : OnlyFeeds text) :
    text.splitOn '\n' = lines text ∨ text.splitOn '\n' = lines text ++ [[]] := by
  induction text with
  | nil => exact .inr rfl
  | cons c rest ih =>
    have hSplit := ih fun d hd => hFeeds d (List.mem_cons_of_mem c hd)
    rw [List.splitOn, List.splitOnP_cons_eq_if_modifyHead]
    by_cases hFeed : c = '\n'
    · subst hFeed
      rw [if_pos (by simp), lines_feed]
      exact hSplit.imp (congrArg (List.cons [])) (congrArg (List.cons []))
    · have hWithin : isLineEnd c = false := by
        rw [Bool.eq_false_iff]
        exact fun hEnd => hFeed (hFeeds c List.mem_cons_self hEnd)
      rw [if_neg (by simpa using hFeed), lines_cons hWithin]
      rcases hSplit with hSame | hMore
      · left
        rw [List.splitOn] at hSame
        -- There is a first line, to which the character belongs.
        obtain ⟨first, more, hFirst⟩ := List.exists_cons_of_ne_nil
          (List.splitOnP_ne_nil (fun x => x == '\n') rest)
        rw [← hSame, hFirst]
        rfl
      · rw [List.splitOn] at hMore
        rw [hMore]
        cases hLines : lines rest with
        | nil => exact .inl rfl
        | cons first more => exact .inr rfl

/-- A line that is not empty is shown under the number under which it is counted. -/
theorem lineAt?_linesOf {source : String} {line : Nat} {content : List Char}
    (hFeeds : OnlyFeeds source.toList) (hPositive : 1 ≤ line)
    (hLine : (source.toList.splitOn '\n')[line - 1]? = some content) (hContent : content ≠ []) :
    lineAt? (linesOf source) line = some (String.ofList content) := by
  have hShown : (lines source.toList)[line - 1]? = some content := by
    rcases splitOn_eq_lines hFeeds with hSame | hMore
    · rw [← hSame]
      exact hLine
    · rw [hMore, List.getElem?_append] at hLine
      split at hLine
      · exact hLine
      · -- The piece behind the last line feed is empty.
        obtain ⟨_, hEmpty⟩ := List.getElem?_eq_some_iff.1 hLine
        exact absurd (by simpa using hEmpty.symm) hContent
  rw [lineAt?, if_pos (by omega), Int.toNat_natCast, linesOf, List.getElem?_map, hShown]
  rfl

end Text

/-! ## §2 Marks -/

/-- The marks below a line: a caret below each character of its middle part, and a tilde below each
other one. -/
def marksBelow (before shown behind : List Char) : String :=
  String.ofList ((before.map fun _ => '~') ++ (shown.map fun _ => '^') ++ behind.map fun _ => '~')

/-- Below a range of columns that lies in a text, the marks lie in the text, too. -/
theorem Marks.under_of_within {length : Nat} {start stop : Int} (hStart : 1 ≤ start)
    (hStop : start < stop) (hLength : stop ≤ length + 1) :
    Marks.under length start (some stop) = ⟨start - 1, stop - start, length + 1 - stop⟩ := by
  have hEnd : nonzeroOr (some stop) (start + 1) = stop := if_neg (by omega)
  unfold Marks.under
  rw [Int.max_eq_right hStart]
  dsimp only
  rw [hEnd, Marks.mk.injEq]
  omega

/-- The marks for the columns of a part of a line are below this part. -/
theorem Marks.text_under {before shown behind : List Char} (hShown : shown ≠ []) :
    (Marks.under (before ++ (shown ++ behind)).length (before.length + 1)
      (some (before.length + 1 + shown.length))).text = marksBelow before shown behind := by
  have hSome := List.length_pos_iff.2 hShown
  have hLength : (before ++ (shown ++ behind)).length =
      before.length + (shown.length + behind.length) := by
    rw [List.length_append, List.length_append]
  rw [hLength, Marks.under_of_within (by omega) (by omega) (by omega)]
  have hBefore : ((before.length : Int) + 1 - 1).toNat = before.length := by omega
  have hWidth : ((before.length : Int) + 1 + shown.length - (before.length + 1)).toNat =
      shown.length := by omega
  have hAfter : ((before.length + (shown.length + behind.length) : Nat) + 1 -
      ((before.length : Int) + 1 + shown.length)).toNat = behind.length := by omega
  simp only [Marks.text, marksBelow, copies, hBefore, hWidth, hAfter, List.map_const']

/-! ## §3 Underlined Spans -/

/-- For a span, a part of the line is marked on which it begins: the line is this part with what
stands before and behind, and the part begins at the column of the span. It ends where the span
does, or with the line if the span does not end on its line. -/
structure Span.Underlines (s : Span) (source before shown behind : List Char) : Prop where
  line : ∃ n : Nat, 1 ≤ n ∧ s.line = n ∧
    (source.splitOn '\n')[n - 1]? = some (before ++ (shown ++ behind))
  col : s.col = before.length + 1
  nonempty : shown ≠ []
  stop : s.endLine = some s.line ∧ s.endCol = some (s.col + shown.length) ∨
    (s.endLine = some s.line → s.endCol = none) ∧ behind = []

namespace Report

/-- A report has one diagnostic, which is shown plainly in three lines: what is said, a line of the
program, and the marks below its middle part. -/
def Shows (r : Report) (before shown behind : List Char) : Prop :=
  ∃ item, r.items = [item] ∧ ∀ unicode, r.render ⟨false, unicode⟩ = "\n".intercalate
    [r.headline ⟨false, unicode⟩ item,
      (if unicode then "  │ " else "  | ") ++ String.ofList (before ++ (shown ++ behind)),
      (if unicode then "  ╰ " else "  ` ") ++ marksBelow before shown behind]

variable {source : String} {s : Span} {before shown behind : List Char}

/-- The marks for an underlined span end with the part of the line that is marked. -/
theorem excerptEnd_eq (hUnderlines : s.Underlines source.toList before shown behind) :
    excerptEnd s (String.ofList (before ++ (shown ++ behind))) s.col =
      before.length + 1 + shown.length := by
  rw [excerptEnd]
  rcases hUnderlines.stop with ⟨hLine, hCol⟩ | ⟨hOpen, rfl⟩
  · simp only [hCol, if_pos hLine, hUnderlines.col]
    omega
  · -- The span does not end on its line, so that all of the line is marked.
    have hRest : ((String.ofList (before ++ (shown ++ []))).length : Int) + 1 =
        before.length + 1 + shown.length := by
      rw [String.length_ofList]
      simp only [List.append_nil, List.length_append]
      omega
    cases hEnd : s.endCol with
    | none => exact hRest
    | some endCol =>
      have hElsewhere : ¬ s.endLine = some s.line := fun hLine => by
        rw [hOpen hLine] at hEnd
        cases hEnd
      simp only [if_neg hElsewhere]
      exact hRest

/-- **Excerpts**: for an underlined span, the line on which it begins is shown, with the marks below
the part that is marked. -/
theorem excerpt_eq (hFeeds : Text.OnlyFeeds source.toList)
    (hUnderlines : s.Underlines source.toList before shown behind) {r : Report}
    (hLines : r.lines = Text.linesOf source) (item : Item) :
    r.excerpt item s =
      (String.ofList (before ++ (shown ++ behind)), marksBelow before shown behind) := by
  obtain ⟨n, hPositive, hNumber, hLine⟩ := hUnderlines.line
  have hShown := Text.lineAt?_linesOf hFeeds hPositive hLine (by simp [hUnderlines.nonempty])
  have hExcerpt : r.excerptLine item s = (String.ofList (before ++ (shown ++ behind)), s.col) := by
    rw [excerptLine, hLines, hNumber, hShown]
  simp only [excerpt, excerptMarks, hExcerpt, excerptEnd_eq hUnderlines, String.length_ofList]
  rw [hUnderlines.col, Marks.text_under hUnderlines.nonempty]

/-- A report on a program shows what is marked for an underlined span. -/
theorem shows_add (hFeeds : Text.OnlyFeeds source.toList)
    (hUnderlines : s.Underlines source.toList before shown behind) (filename : String) {item : Item}
    (hSpan : item.span = some s) :
    ((on (some source) filename).add item).Shows before shown behind := by
  refine ⟨item, rfl, fun unicode => ?_⟩
  have hExcerpt := excerpt_eq hFeeds hUnderlines (r := (on (some source) filename).add item) rfl item
  have hItems : ((on (some source) filename).add item).items = [item] := rfl
  rw [render, hItems, List.flatMap_singleton, itemLines, hSpan]
  simp only [hExcerpt]
  rfl

end Report

/-! ## §4 Spans of Texts -/

/-- What is left of a line behind as many characters as a number says, if that is something, stands
behind a part of the line with this many characters. -/
theorem exists_append_of_drop {content after : List Char} {n : Nat}
    (hDrop : content.drop n = after) (hAfter : after ≠ []) :
    ∃ before, content = before ++ after ∧ before.length = n := by
  refine ⟨content.take n, ?_, ?_⟩
  · rw [← hDrop, List.take_append_drop]
  · rw [List.length_take, Nat.min_eq_left]
    by_contra hShort
    exact hAfter (hDrop ▸ List.drop_eq_nil_of_le (by omega))

namespace Span

/-- For a span at which a text stands, this text is marked. -/
theorem underlines_of_shows {s : Span} {source text : List Char} (hShows : s.Shows source text)
    (hText : text ≠ []) : ∃ before behind, s.Underlines source before text behind := by
  obtain ⟨line, col, content, hLine, hCol, rfl, hContent, hStands⟩ := hShows
  have hDrop : content.drop (col - 1) = text ++ (content.drop (col - 1)).drop text.length := by
    have hSplit := List.take_append_drop text.length (content.drop (col - 1))
    rw [hStands] at hSplit
    exact hSplit.symm
  obtain ⟨before, hBefore, hLength⟩ := exists_append_of_drop hDrop (by simp [hText])
  have hColumn : (col : Int) = before.length + 1 := by omega
  refine ⟨before, _, ⟨line, hLine, rfl, hBefore ▸ hContent⟩, hColumn, hText, .inl ⟨rfl, ?_⟩⟩
  exact congrArg some (Int.natCast_add col text.length)

/-- For a span that does not end on the line where it begins, all of the line is marked from there. -/
theorem underlines_line (front : List Char) {s : Span} {rest more : List Char} {c : Char}
    (hLine : s.line = (positionAfter front).line) (hCol : s.col = (positionAfter front).col)
    (hOpen : s.endLine = some s.line → s.endCol = none) (hRest : rest = c :: more)
    (hFeed : c ≠ '\n') :
    ∃ before, s.Underlines (front ++ rest) before (rest.takeWhile (· != '\n')) [] := by
  have hSome : rest.takeWhile (· != '\n') ≠ [] := by
    rw [hRest, List.takeWhile_cons_of_pos (by simpa using hFeed)]
    exact List.cons_ne_nil _ _
  obtain ⟨content, hContent, hDrop⟩ := drop_line_eq front rest
  obtain ⟨before, hBefore, hLength⟩ := exists_append_of_drop hDrop hSome
  have hPositive : 1 ≤ (positionAfter front).col := Nat.succ_pos _
  refine ⟨before, ⟨(positionAfter front).line, Nat.succ_pos _, hLine, ?_⟩, by omega, hSome,
    .inr ⟨hOpen, rfl⟩⟩
  rw [List.append_nil, ← hBefore]
  exact hContent

/-- **Spans of texts**: for the span of a text, the text is marked if it is on one line. Otherwise the
line on which it begins is marked from there to its end. -/
theorem underlines_of_text (front rest : List Char) {body more : List Char} {c : Char}
    (hBody : body = c :: more) (hFeed : c ≠ '\n') :
    ∃ before shown behind, ((positionAfter front).spanTo (positionAfter (front ++ body))).Underlines
        (front ++ (body ++ rest)) before shown behind ∧
      ('\n' ∉ body → shown = body) ∧ ('\n' ∈ body → behind = []) := by
  by_cases hLines : '\n' ∈ body
  · -- The line on which the text ends comes after the one on which it begins.
    have hLater : (positionAfter front).line < (positionAfter (front ++ body)).line := by
      have hCount := List.count_pos_iff.2 hLines
      simp only [positionAfter, List.count_append]
      omega
    have hBegins : body ++ rest = c :: (more ++ rest) := by
      rw [hBody]
      rfl
    obtain ⟨before, hUnderlines⟩ := underlines_line front
      (s := (positionAfter front).spanTo (positionAfter (front ++ body))) rfl rfl
      (fun hSame => absurd (Option.some.inj hSame) (by simp only [Cursor.spanTo]; omega)) hBegins
      hFeed
    exact ⟨before, _, [], hUnderlines, absurd hLines, fun _ => rfl⟩
  · have hSome : body ≠ [] := hBody ▸ List.cons_ne_nil c more
    obtain ⟨before, behind, hUnderlines⟩ :=
      underlines_of_shows (shows_of_no_feed hLines front rest) hSome
    exact ⟨before, body, behind, hUnderlines, fun _ => rfl, fun hFeeds => absurd hFeeds hLines⟩

end Span

end TapeMachine
