import TapeMachine.Proofs.Excerpts
import TapeMachine.Proofs.Language.GrammarErrors

/-!
# Texts That End Too Early

When nothing is wrong with a text but that it ends too early, the complaint stands where its last word
begins. This is a word of the text that was accepted, and not the end of the text.

* `Text.Reaches` and `Text.exists_reaches`: the lines that are shown of a text reach behind all
  positions in it at which something stands;
* `Terminal.Spelling.exists_within`: something stands where a word begins;
* `Program.ofSource_complains_at_last_word` puts these together.
-/

namespace TapeMachine

/-! ## §1 The End of the Lines -/

namespace Text

/-- Some lines, of which the first is begun at `p` and the last one is told apart, reach behind `q`. -/
structure Reaches (p q : Cursor) (shown : List (List Char)) (last : List Char) : Prop where
  line : q.line ≤ p.line + shown.length
  col : q.line = p.line + shown.length → q.col < last.length + if shown = [] then p.col else 1

theorem isLineEnd_iff {c : Char} :
    isLineEnd c = true ↔ c ∈ ['\n', '\x0b', '\x0c', '\r', '\x1c', '\x1d', '\x1e', '\u0085', '\u2028',
      '\u2029'] := by
  constructor
  · intro hEnd
    simp only [isLineEnd, Bool.or_eq_true, Bool.and_eq_true, decide_eq_true_eq, beq_iff_eq] at hEnd
    have hChar : c = Char.ofNat c.toNat := (Char.ofNat_toNat c).symm
    have hCases : c.toNat = 10 ∨ c.toNat = 11 ∨ c.toNat = 12 ∨ c.toNat = 13 ∨ c.toNat = 28 ∨
        c.toNat = 29 ∨ c.toNat = 30 ∨ c.toNat = 0x85 ∨ c.toNat = 0x2028 ∨ c.toNat = 0x2029 := by
      omega
    rcases hCases with h | h | h | h | h | h | h | h | h | h
    all_goals
      rw [h] at hChar
      rw [hChar]
      decide
  · intro hMem
    simp only [List.mem_cons, List.not_mem_nil, or_false] at hMem
    rcases hMem with rfl | rfl | rfl | rfl | rfl | rfl | rfl | rfl | rfl | rfl <;> decide

/-- A line end that is not the first half of one ends a line. -/
theorem lines_of_end {c : Char} {rest : List Char} (hEnd : isLineEnd c = true)
    (hWhole : ¬ (c = '\r' ∧ ∃ more, rest = '\n' :: more)) : lines (c :: rest) = [] :: lines rest := by
  rw [lines, if_pos hEnd]
  rintro more rfl rfl
  exact hWhole ⟨rfl, more, rfl⟩

/-- A carriage return in front of a line feed belongs to it. -/
theorem lines_return_feed (rest : List Char) :
    lines ('\r' :: '\n' :: rest) = lines ('\n' :: rest) := by
  rw [lines, lines_feed]

namespace Reaches

variable {p q : Cursor} {shown : List (List Char)} {last : List Char}

/-- A line feed completes the line that was begun. -/
theorem feed (hReaches : Reaches (p.next '\n') q shown last) : Reaches p q ([] :: shown) last := by
  have hLine : q.line ≤ p.line + 1 + shown.length := hReaches.line
  refine ⟨by rw [List.length_cons]; omega, fun hEqual => ?_⟩
  have hCol : q.col < last.length + if shown = [] then 1 else 1 :=
    hReaches.col (by rw [List.length_cons] at hEqual; show q.line = p.line + 1 + _; omega)
  simpa using hCol

/-- So do the other line ends, which do not count for positions. -/
theorem lineEnd {col : Nat} (hReaches : Reaches ⟨p.line, col⟩ q shown last) :
    Reaches p q ([] :: shown) last := by
  have hLine : q.line ≤ p.line + shown.length := hReaches.line
  refine ⟨by rw [List.length_cons]; omega, fun hEqual => ?_⟩
  rw [List.length_cons] at hEqual
  omega

/-- Behind a complete line it does not matter where the first one was begun. -/
theorem of_ne_nil {col : Nat} (hReaches : Reaches ⟨p.line, col⟩ q shown last) (hMore : shown ≠ []) :
    Reaches p q shown last := by
  refine ⟨hReaches.line, fun hEqual => ?_⟩
  have hCol := hReaches.col hEqual
  rw [if_neg hMore] at hCol ⊢
  exact hCol

/-- Other characters go into the line that was begun. -/
theorem within (hReaches : Reaches ⟨p.line, p.col + 1⟩ q shown last) (c : Char) :
    ∃ shown' last', consFirst c (shown ++ [last]) = shown' ++ [last'] ∧ Reaches p q shown' last' := by
  cases shown with
  | nil =>
    refine ⟨[], c :: last, rfl, hReaches.line, fun hEqual => ?_⟩
    have hCol : q.col < last.length + (p.col + 1) := hReaches.col hEqual
    show q.col < (last.length + 1) + p.col
    omega
  | cons first shown =>
    have hLater := hReaches.of_ne_nil (List.cons_ne_nil first shown)
    exact ⟨(c :: first) :: shown, last, rfl, hLater.line, hLater.col⟩

end Reaches

/-- **Lines reach behind what they show**: behind any text, the lines reach behind a character that
does not end a line. -/
theorem exists_reaches (front rest : List Char) {c : Char} (hWithin : isLineEnd c = false)
    (p : Cursor) :
    ∃ shown last, lines (front ++ c :: rest) = shown ++ [last] ∧
      Reaches p (p.after front) shown last := by
  -- Where the first line is begun is left open. Line feeds begin lines for positions, too, while the
  -- other line ends only make more of the lines that are shown.
  induction front generalizing p with
  | nil =>
    rw [List.nil_append, lines_cons hWithin, Cursor.after_nil]
    rcases List.eq_nil_or_concat (lines rest) with hNone | ⟨shown, last, hSome⟩
    · rw [hNone]
      exact ⟨[], [c], rfl, Nat.le_refl _, fun _ => by simp⟩
    · rw [hSome, List.concat_eq_append]
      have hBegun : Reaches ⟨p.line, p.col + 1⟩ p shown last := by
        refine ⟨Nat.le_add_right _ _, fun hEqual => ?_⟩
        obtain rfl : shown = [] := List.length_eq_zero_iff.1 (Nat.left_eq_add.1 hEqual)
        show p.col < last.length + (p.col + 1)
        omega
      exact hBegun.within c
  | cons d front ih =>
    obtain ⟨shown, last, hLines, hReaches⟩ := ih (p.next d)
    have hAfter : p.after (d :: front) = (p.next d).after front := rfl
    rw [List.cons_append, hAfter]
    by_cases hFeed : d = '\n'
    · subst hFeed
      exact ⟨[] :: shown, last, by rw [lines_feed, hLines]; rfl, hReaches.feed⟩
    have hNext : p.next d = ⟨p.line, p.col + 1⟩ := if_neg hFeed
    rw [hNext] at hReaches ⊢
    cases hEnd : isLineEnd d with
    | false =>
      rw [lines_cons hEnd, hLines]
      exact hReaches.within d
    | true =>
      by_cases hHalf : d = '\r' ∧ ∃ more, front ++ c :: rest = '\n' :: more
      · -- The line ends with the line feed that follows, behind which there is the next one.
        obtain ⟨rfl, more, hMore⟩ := hHalf
        refine ⟨shown, last, by rw [hMore, lines_return_feed, ← hMore, hLines], hReaches.of_ne_nil ?_⟩
        rintro rfl
        cases front with
        | nil =>
          rw [(List.cons.inj hMore).1] at hWithin
          exact absurd hWithin (by decide)
        | cons e front =>
          obtain rfl : e = '\n' := (List.cons.inj hMore).1
          have hLine : ((⟨p.line + 1, 1⟩ : Cursor).after front).line ≤ p.line + 0 := hReaches.line
          have hLater := (⟨p.line + 1, 1⟩ : Cursor).upTo_after front
          simp only [Cursor.UpTo] at hLater
          omega
      · exact ⟨[] :: shown, last, by rw [lines_of_end hEnd hHalf, hLines]; rfl, hReaches.lineEnd⟩

/-- A character that does not end a line stands in front of the end of the last line. -/
theorem linesOf_eq_concat {source : String} {front rest : List Char} {c : Char}
    (hSource : source.toList = front ++ c :: rest) (hWithin : isLineEnd c = false) :
    ∃ shown last, linesOf source = shown ++ [last] ∧
      (positionAfter front).Before ⟨shown.length + 1, last.length + 1⟩ := by
  obtain ⟨shown, last, hLines, hLine, hCol⟩ := exists_reaches front rest hWithin .start
  refine ⟨shown.map String.ofList, String.ofList last, ?_, ?_⟩
  · rw [linesOf, hSource, hLines, List.map_append, List.map_singleton]
  · rw [Cursor.after_start] at hLine hCol
    simp only [Cursor.start, ite_self] at hLine hCol
    simp only [Cursor.Before, List.length_map, String.length_ofList]
    omega

end Text

/-! ## §2 The Last Word -/

/-- No word begins with the end of a line. -/
theorem Terminal.Spelling.exists_within {t : Terminal} {text : List Char}
    (hSpelling : t.Spelling text) : ∃ c more, text = c :: more ∧ Text.isLineEnd c = false := by
  obtain ⟨c, more, rfl, hBegins⟩ := hSpelling.begins
  refine ⟨c, more, rfl, Bool.eq_false_iff.2 fun hEnd => ?_⟩
  have hNever : t.begins c = false := by
    rw [Text.isLineEnd_iff] at hEnd
    simp only [List.mem_cons, List.not_mem_nil, or_false] at hEnd
    rcases hEnd with rfl | rfl | rfl | rfl | rfl | rfl | rfl | rfl | rfl | rfl <;> cases t <;> decide
  rw [hNever] at hBegins
  cases hBegins

/-- **Early ends**: a text in which nothing is wrong but that it ends too early is complained about
where its last word begins. What stands behind that word are separators. The place past the last
character of the last line comes later, so that it is never the place of the complaint. -/
theorem Program.ofSource_complains_at_last_word {source : String} {fault : Fault} {front : Layout}
    (hRejected : Program.ofSource source = .error fault)
    (hReads : ReadsUpTo source.toList front []) :
    ∃ c words word before gap shown last, fault.complaint? = some c ∧ c.origin = .language ∧
      c.code = "CE1001" ∧ c.found = some "" ∧
      front.words = words ++ [word] ∧ source.toList = before ++ (word.text ++ gap) ∧ Gap gap [] ∧
      c.position = Span.point (positionAfter before).line (positionAfter before).col ∧
      Text.linesOf source = shown ++ [last] ∧
      (positionAfter before).Before ⟨shown.length + 1, last.length + 1⟩ ∧
      c.position ≠ Span.point (shown.length + 1) (last.length + 1) := by
  obtain ⟨e, line, hRead, rfl⟩ := Program.readWords_of_ofSource_error hRejected
  obtain ⟨l, rest, q, hText, hValid, hFollow, hStuck, hWithin, rfl⟩ := front_of_readFrom_error hRead
  have hSame : ReadsUpTo source.toList l rest :=
    readsUpTo_iff.2 ⟨hText.symm, hValid, q, hFollow, hStuck⟩
  obtain ⟨rfl, rfl⟩ := hSame.unique hReads
  obtain ⟨words, word, before, hLast, hSpelling, hSplit, hGap, hStart⟩ :=
    Layout.exists_last_word (Layout.validBefore_nil_iff.1 hValid) hFollow fun hEnd =>
      hWithin ⟨hEnd, rfl⟩
  rw [List.append_nil, hSplit] at hText
  -- Something stands where the last word begins, and so the lines go on there.
  obtain ⟨c, more, hChars, hLetter⟩ := hSpelling.exists_within
  have hSource : source.toList = before ++ c :: (more ++ l.last) := by
    rw [hText, hChars]
    rfl
  obtain ⟨shown, last, hShown, hBefore⟩ := Text.linesOf_eq_concat hSource hLetter
  have hLine : 1 ≤ (positionAfter before).line := Nat.succ_pos _
  rw [if_pos rfl, hStart, q.position_error _ hLine]
  refine ⟨_, words, word, before, l.last, shown, last, complaint?_language _ _ _, rfl, rfl, rfl, hLast,
    hText, hGap, rfl, hShown, hBefore, fun hEqual => ?_⟩
  simp only [Span.point, Span.mk.injEq] at hEqual
  simp only [Cursor.Before] at hBefore
  omega

/-- The declaration of an initial state without its semicolon: the complaint stands at the closing
brace, and not behind it. -/
theorem Program.ofSource_complains_at_last_word_of_initial_state :
    ∃ fault front c, Program.ofSource "I = \x7bq0\x7d" = .error fault ∧
      ReadsUpTo "I = \x7bq0\x7d".toList front [] ∧ fault.complaint? = some c ∧
      Text.linesOf "I = \x7bq0\x7d" = ["I = \x7bq0\x7d"] ∧ c.position = Span.point 1 8 ∧
      c.position ≠ Span.point 1 9 := by
  have hRejected : Program.ofSource "I = \x7bq0\x7d" =
      .error (.language ⟨.endOfInput, ["SEMICOLON"], some (1, 8)⟩ (Span.point 1 8) "I = \x7bq0\x7d") :=
    rfl
  have hRead : readWords "I = \x7bq0\x7d".toList = .error ⟨.endOfInput, ["SEMICOLON"], some (1, 8)⟩ :=
    rfl
  obtain ⟨front, rest, q, hText, hValid, hFollow, hStuck, -, hError⟩ := front_of_readFrom_error hRead
  -- The end of the text was found, and so nothing is left of it.
  obtain rfl : rest = [] := by
    cases rest with
    | nil => rfl
    | cons c more =>
      have hFound : Unexpected.endOfInput = foundAt (c :: more) := congrArg GrammarError.found hError
      rw [foundAt] at hFound
      split at hFound <;> cases hFound
  have hReads : ReadsUpTo "I = \x7bq0\x7d".toList front [] :=
    readsUpTo_iff.2 ⟨hText.symm, hValid, q, hFollow, hStuck⟩
  obtain ⟨c, -, -, -, -, shown, last, hComplaint, -, -, -, -, -, -, -, hLines, -, hElsewhere⟩ :=
    Program.ofSource_complains_at_last_word hRejected hReads
  have hShown : Text.linesOf "I = \x7bq0\x7d" = ["I = \x7bq0\x7d"] := rfl
  rw [complaint?_language] at hComplaint
  obtain rfl := Option.some.inj hComplaint
  refine ⟨_, front, _, hRejected, hReads, complaint?_language _ _ _, hShown, rfl, ?_⟩
  -- There is one line, which is the last one.
  rw [hShown] at hLines
  obtain ⟨rfl, rfl⟩ : shown = [] ∧ last = "I = \x7bq0\x7d" := by
    cases shown with
    | nil => exact ⟨rfl, (List.singleton_inj.1 hLines).symm⟩
    | cons first shown => simp at hLines
  exact hElsewhere

end TapeMachine
