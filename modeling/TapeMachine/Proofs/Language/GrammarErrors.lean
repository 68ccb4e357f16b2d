import TapeMachine.Proofs.Language.Positions
import TapeMachine.Proofs.Language.Viable
import TapeMachine.Proofs.Wordings

/-!
# Errors of the Language

A text that is not in the language can be read up to one point: words with which some program
begins stand in front of it, and nothing stands behind it by which such a beginning could go on.
The complaint points there, says what stands there, and lists all kinds of words that could have
come.

* `ReadsUpTo` describes the point, and `ReadsUpTo.unique` says that there is only one;
* `Finds` describes what is said to be found there;
* `Program.ofSource_complains_at_first_impossible` is the complaint.
-/

namespace TapeMachine

/-! ## §1 Names of What Is Expected -/

/-- Kinds of words are called differently. -/
theorem Terminal.readable_injective : Function.Injective Terminal.readable :=
  fun _ _ => eq_of_find? fun t => by cases t <;> decide

theorem Terminal.readable_ne_empty (t : Terminal) : t.readable ≠ "" := by
  cases t <;> decide

theorem Terminal.readableName_name (t : Terminal) : readableName t.name = t.readable := by
  cases t <;> decide

/-- Kinds of words in the order of how they are called. -/
def Terminal.sorted (ts : List Terminal) : List Terminal :=
  ts.mergeSort fun t u => decide (t.readable ≤ u.readable)

theorem Terminal.mem_sorted {t : Terminal} {ts : List Terminal} : t ∈ sorted ts ↔ t ∈ ts :=
  List.mem_mergeSort

/-- Different texts are sorted in strict order. -/
theorem pairwise_sortTexts {texts : List String} (hNodup : texts.Nodup) :
    (sortTexts texts).Pairwise (· < ·) := by
  have hOrder : (sortTexts texts).Pairwise fun a b => decide (a ≤ b) = true := by
    apply List.pairwise_mergeSort
    · intro a b c hFirst hSecond
      simp only [decide_eq_true_eq] at *
      exact String.le_trans hFirst hSecond
    · intro a b
      simpa using String.le_total a b
  have hDistinct : (sortTexts texts).Nodup := (List.mergeSort_perm texts _).nodup_iff.2 hNodup
  refine (hOrder.and hDistinct).imp ?_
  intro a b hBoth
  apply String.not_le.1
  intro hBack
  exact hBoth.2 (String.le_antisymm (by simpa using hBoth.1) hBack)

/-- Kinds of words are in the order of their readable names. -/
theorem Terminal.map_readable_sorted (ts : List Terminal) :
    (sorted ts).map readable = sortTexts (ts.map readable) := by
  rw [sorted, sortTexts, List.map_mergeSort]
  exact fun _ _ _ _ => rfl

/-- What is listed is called by its readable names in order. -/
theorem describeExpected_names (ts : List Terminal) :
    describeExpected (ts.map Terminal.name) =
      alternatives ((Terminal.sorted ts).map Terminal.readable) := by
  have hNames : (ts.map Terminal.name).map readableName = ts.map Terminal.readable := by
    rw [List.map_map]
    exact List.map_congr_left fun t _ => t.readableName_name
  rw [describeExpected, hNames, Terminal.map_readable_sorted]

/-- Different kinds of words are listed in strict order. -/
theorem Terminal.pairwise_sorted {ts : List Terminal} (hNodup : ts.Nodup) :
    ((sorted ts).map Terminal.readable).Pairwise (· < ·) := by
  rw [map_readable_sorted]
  have hDistinct : (ts.map readable).Nodup :=
    List.pairwise_map.2 (hNodup.imp fun hDifferent hSame => hDifferent (readable_injective hSame))
  exact pairwise_sortTexts hDistinct

theorem alternatives_ne_empty {one : String} (hOne : one ≠ "") (more : List String) :
    alternatives (one :: more) ≠ "" := by
  rcases more with _ | ⟨other, _ | ⟨third, more⟩⟩
  · exact hOne
  · simp [alternatives]
  · simp [alternatives]

/-! ## §2 The Point of the Error -/

/-- Up to where a text can be read: a front of it is cut into words with which some program begins,
and behind the front stands neither a separator nor a word by which such a beginning could go on. -/
structure ReadsUpTo (cs : List Char) (front : Layout) (rest : List Char) : Prop where
  text : front.text ++ rest = cs
  valid : front.ValidBefore rest
  viable : Viable front.words
  separator : ∀ sep behind, rest = sep ++ behind → ¬ Separator sep behind
  word : ∀ w : Word, Viable (front.words ++ [w]) → ¬ w.text <+: rest

/-- No word is taken at a place if none of those that may come there is. -/
theorem Place.lexeme?_eq_none_iff {p : Place} {cs : List Char} :
    p.lexeme? cs = none ↔ ∀ t ∈ p.expected, t.lexeme? cs = none := by
  rw [lexeme?, List.findSome?_eq_none_iff]
  simp [expected]

/-- A front is read up to where it ends exactly if reading is stuck there. -/
theorem readsUpTo_iff {cs rest : List Char} {front : Layout} :
    ReadsUpTo cs front rest ↔ front.text ++ rest = cs ∧ front.ValidBefore rest ∧
      ∃ q, Place.between.follow? front.kinds = some q ∧ q.Stuck rest := by
  refine ⟨fun hReads => ?_, ?_⟩
  · obtain ⟨hSpelled, q, hFollow⟩ := viable_iff.1 hReads.viable
    refine ⟨hReads.text, hReads.valid, q, hFollow, separator?_eq_none_iff.2 hReads.separator, ?_⟩
    apply Place.lexeme?_eq_none_iff.2
    intro t ht
    apply Terminal.lexeme?_eq_none_iff.2
    -- A spelling of a kind that may come would go on with the words.
    intro text hSpelling
    exact hReads.word ⟨t, text⟩ ((viable_concat_iff hSpelled hFollow).2 ⟨hSpelling, ht⟩)
  · intro hGiven
    rcases hGiven with ⟨hText, hValid, q, hFollow, hStuck⟩
    refine ⟨hText, hValid, viable_iff.2 ⟨hValid.spelled, q, hFollow⟩,
      separator?_eq_none_iff.1 hStuck.separator, fun w hViable => ?_⟩
    obtain ⟨hSpelling, hExpected⟩ := (viable_concat_iff hValid.spelled hFollow).1 hViable
    have hNone := Place.lexeme?_eq_none_iff.1 hStuck.word w.terminal hExpected
    exact Terminal.lexeme?_eq_none_iff.1 hNone w.text hSpelling

/-- A text can be read up to one point only. -/
theorem ReadsUpTo.unique {cs rest₁ rest₂ : List Char} {front₁ front₂ : Layout}
    (hReads₁ : ReadsUpTo cs front₁ rest₁) (hReads₂ : ReadsUpTo cs front₂ rest₂) :
    front₁ = front₂ ∧ rest₁ = rest₂ := by
  obtain ⟨hText₁, hValid₁, q₁, hFollow₁, hStuck₁⟩ := readsUpTo_iff.1 hReads₁
  obtain ⟨hText₂, hValid₂, q₂, hFollow₂, hStuck₂⟩ := readsUpTo_iff.1 hReads₂
  exact Layout.unique_front hValid₁ hValid₂ (hText₁.trans hText₂.symm) hFollow₁ hFollow₂ hStuck₁
    hStuck₂

/-! ## §3 What Is Found There -/

/-- The kinds of words in the order in which they are tried where any of them may come. The words
that are spelled with letters are not among them, since they are names of libraries as well. -/
def Terminal.tried : List Terminal :=
  [.library, .movement, .state, .description, .bit, .leftBrace, .rightBrace, .leftParen, .rightParen,
    .comma, .semicolon, .equals]

/-- What is said to be found in front of a text: the word of the first kind that stands there, whether
it could have come or not, and else a single character. -/
inductive Finds (rest : List Char) : String → Prop where
  /-- A word of the first kind that takes one. -/
  | word {before after : List Terminal} {t : Terminal} {text : List Char} :
      Terminal.tried = before ++ t :: after → (∀ u ∈ before, u.lexeme? rest = none) →
        t.lexeme? rest = some text → Finds rest (String.ofList text)
  /-- The first character, where no kind takes a word. -/
  | character {c : Char} {more : List Char} :
      rest = c :: more → (∀ t : Terminal, t.lexeme? rest = none) → Finds rest (String.ofList [c])

/-- Where no separator stands, only kinds of words are tried. -/
theorem anyLexeme?_eq_findSome? {cs : List Char} (hSeparator : separator? cs = none) :
    anyLexeme? cs = Terminal.tried.findSome? fun t => t.lexeme? cs := by
  have hNone : run? isSpace cs = none ∧ lineComment? cs = none ∧ blockComment? cs = none := by
    simpa [separator?] using hSeparator
  simp only [anyLexeme?, Terminal.tried, List.findSome?_cons, List.findSome?_nil, hNone]

/-- Where no kind that is tried takes a word, none does. -/
theorem Terminal.lexeme?_eq_none_of_tried {cs : List Char}
    (hTried : ∀ t ∈ tried, t.lexeme? cs = none) (t : Terminal) : t.lexeme? cs = none := by
  -- The kinds that are not tried have one spelling, and it is the name of a library.
  have hName : ∀ text, Terminal.library.Spelling text → ¬ text <+: cs :=
    lexeme?_eq_none_iff.1 (hTried .library List.mem_cons_self)
  cases t with
  | initialWord =>
    apply lexeme?_eq_none_iff.2
    rintro _ rfl
    exact hName _ ⟨'I', [], rfl, by decide, by simp⟩
  | finalWord =>
    apply lexeme?_eq_none_iff.2
    rintro _ rfl
    exact hName _ ⟨'F', [], rfl, by decide, by simp⟩
  | composeWord =>
    apply lexeme?_eq_none_iff.2
    rintro _ rfl
    exact hName _ ⟨'c', ['o', 'm', 'p', 'o', 's', 'e'], rfl, by decide, List.all_eq_true.1 rfl⟩
  | _ => exact hTried _ (by simp [tried])

/-- What is said to be found where nothing more can come is found there. -/
theorem finds_foundAt {rest : List Char} (hSeparator : separator? rest = none) (hMore : rest ≠ [])
    (q : Place) (position : Cursor) : Finds rest (q.error (foundAt rest) position).foundText := by
  have hAny := anyLexeme?_eq_findSome? hSeparator
  obtain ⟨c, more, rfl⟩ := List.exists_cons_of_ne_nil hMore
  cases hTaken : anyLexeme? (c :: more) with
  | some text =>
    have hFound : (q.error (foundAt (c :: more)) position).foundText = String.ofList text := by
      simp only [foundAt, hTaken]
      rfl
    rw [hTaken] at hAny
    obtain ⟨before, t, after, hSplit, ht, hBefore⟩ := List.findSome?_eq_some_iff.1 hAny.symm
    rw [hFound]
    exact Finds.word hSplit hBefore ht
  | none =>
    have hFound : (q.error (foundAt (c :: more)) position).foundText = String.ofList [c] := by
      simp only [foundAt, hTaken]
      rfl
    rw [hTaken] at hAny
    rw [hFound]
    exact Finds.character rfl
      (Terminal.lexeme?_eq_none_of_tried (List.findSome?_eq_none_iff.1 hAny.symm))

/-! ## §4 Complaints -/

theorem complaint?_language (e : GrammarError) (position : Span) (line : String) :
    (Fault.language e position line).complaint? = some {
      origin := .language
      code := "CE1001"
      message := e.message
      position := position
      snippet := line
      expected := e.expectedText
      found := some e.foundText } := by
  have hWording : Catalog.wording "CE1001" [("detail", e.message)] = e.message := by
    rw [Catalog.wording_eq rfl rfl]
    exact String.empty_append
  rw [Fault.complaint?, Complaint.ofText, hWording]

/-- A text without a program is one that is not read. -/
theorem Program.readWords_of_ofSource_error {source : String} {fault : Fault}
    (hRejected : Program.ofSource source = .error fault) :
    ∃ e line, readWords source.toList = .error e ∧
      fault = .language e (e.position (Text.linesOf source)) line := by
  cases hRead : readWords source.toList with
  | ok lexemes =>
    -- A text that is read has a program.
    obtain ⟨layout, program, hDecomposes⟩ := decomposes_of_readWords hRead
    obtain ⟨p, hProgram, -⟩ := hDecomposes.exists_program
    rw [hRejected] at hProgram
    cases hProgram
  | error e =>
    rw [Program.ofSource, Tree.ofSource, Tree.ofText?, hRead] at hRejected
    exact ⟨e, _, rfl, (Except.error.inj hRejected).symm⟩

namespace Place

variable (q : Place) (found : Unexpected)

/-- Something can come at every place. -/
theorem expected_ne_nil : q.expected ≠ [] := by
  cases q <;> simp [expected, moves]

/-- An error lists what could have come at its place. -/
theorem expectedText_error (position : Cursor) :
    (q.error found position).expectedText =
      some (alternatives ((Terminal.sorted q.expected).map Terminal.readable)) := by
  have hText : describeExpected (q.error found position).expected =
      alternatives ((Terminal.sorted q.expected).map Terminal.readable) := describeExpected_names _
  -- The list is not empty, and neither is any name in it.
  have hSome : (alternatives ((Terminal.sorted q.expected).map Terminal.readable)).isEmpty = false := by
    obtain ⟨t, ht⟩ := List.exists_mem_of_ne_nil _ q.expected_ne_nil
    obtain ⟨u, us, hSorted⟩ := List.exists_cons_of_ne_nil
      (List.ne_nil_of_mem (Terminal.mem_sorted.2 ht))
    rw [hSorted, List.map_cons]
    exact Bool.eq_false_iff.2 fun hEmpty =>
      alternatives_ne_empty u.readable_ne_empty _ (String.isEmpty_iff.1 hEmpty)
  rw [GrammarError.expectedText, hText, hSome]
  rfl

/-- An error stands at its position, which is on a real line. -/
theorem position_error {position : Cursor} (hLine : 1 ≤ position.line) (lines : List String) :
    (q.error found position).position lines = Span.point position.line position.col := by
  have hReal : ¬ (position.line : Int) < 1 := by omega
  simp only [error, GrammarError.position, if_neg hReal]

end Place

/-- Neither the end of a file nor what is skipped between words is the name of a kind of word. -/
theorem Terminal.readable_not_mem_skipped (t : Terminal) :
    t.readable ∉ ["end of file", "WS", "LINE_COMMENT", "BLOCK_COMMENT"] := by
  cases t <;> decide

/-- **Errors of the language**: a text without a program has one complaint. The words that can be
read begin some program, and nothing behind them could go on with such a beginning. The complaint
lists the kinds of words that could have come, each once and in the order of their names, and
points to where they are missing. At the end of the text it says so; there the words are not yet a
program. -/
theorem Program.ofSource_complains_at_first_impossible {source : String} {fault : Fault}
    (hRejected : Program.ofSource source = .error fault) :
    ∃ (c : Complaint) (front : Layout) (rest : List Char) (expected : List Terminal),
      fault.complaint? = some c ∧ c.origin = .language ∧ c.code = "CE1001" ∧
      ReadsUpTo source.toList front rest ∧
      (∀ front' rest', ReadsUpTo source.toList front' rest' → front' = front ∧ rest' = rest) ∧
      c.expected = some (alternatives (expected.map Terminal.readable)) ∧
      (∀ t, t ∈ expected ↔ ∃ text, Viable (front.words ++ [⟨t, text⟩])) ∧
      expected.Nodup ∧ (expected.map Terminal.readable).Pairwise (· < ·) ∧
      (∀ name ∈ ["end of file", "WS", "LINE_COMMENT", "BLOCK_COMMENT"],
        name ∉ expected.map Terminal.readable) ∧
      (rest ≠ [] →
        c.position = Span.point (positionAfter front.text).line (positionAfter front.text).col ∧
        ∃ found, c.found = some found ∧ Finds rest found) ∧
      (rest = [] → ¬ IsProgram front.words ∧ c.found = some "" ∧
        c.message = "unexpected end of file, expected " ++
          alternatives (expected.map Terminal.readable)) := by
  obtain ⟨e, line, hRead, rfl⟩ := Program.readWords_of_ofSource_error hRejected
  obtain ⟨front, rest, q, last, hText, hValid, hFollow, hStuck, hWithin, rfl⟩ :=
    exists_front_of_readFrom_error hRead
  have hReads : ReadsUpTo source.toList front rest :=
    readsUpTo_iff.2 ⟨hText.symm, hValid, q, hFollow, hStuck⟩
  refine ⟨_, front, rest, Terminal.sorted q.expected, complaint?_language _ _ _, rfl, rfl, hReads,
    fun front' rest' hOther => hOther.unique hReads, q.expectedText_error _ _, fun t => ?_, ?_,
    Terminal.pairwise_sorted q.nodup_expected, fun name hName hListed => ?_, fun hMore => ?_,
    fun hEnd => ?_⟩
  · -- Each kind of word has a spelling, by which the words could go on.
    rw [Terminal.mem_sorted]
    refine ⟨fun ht => ⟨t.sample, ?_⟩, ?_⟩
    · exact (viable_concat_iff hValid.spelled hFollow).2 ⟨t.spelling_sample, ht⟩
    · intro hGiven
      rcases hGiven with ⟨text, hViable⟩
      exact ((viable_concat_iff hValid.spelled hFollow).1 hViable).2
  · exact (List.mergeSort_perm q.expected _).nodup_iff.2 q.nodup_expected
  · obtain ⟨t, -, rfl⟩ := List.mem_map.1 hListed
    exact t.readable_not_mem_skipped hName
  · have hLine : 1 ≤ (positionAfter front.text).line := Nat.succ_pos _
    rw [if_neg hMore, Cursor.after_start]
    exact ⟨q.position_error (foundAt rest) hLine (Text.linesOf source), _, rfl,
      finds_foundAt hStuck.separator hMore q _⟩
  · -- Nothing is left of the text.
    subst hEnd
    refine ⟨fun hProgram => ?_, rfl, ?_⟩
    · -- The words of a program lead back between declarations, where a text may end.
      have hBack := (isProgram_iff.1 hProgram).follow
      exact hWithin ⟨Option.some.inj (hFollow.symm.trans hBack), rfl⟩
    · rw [← describeExpected_names]
      rfl

/-- A tape with a stray character in its second line. Behind its digit there could be another one, or
the closing brace. -/
theorem Program.ofSource_complains_at_first_impossible_in_tape :
    ∃ fault, Program.ofSource "\x7b1\x7d; // one\n\x7b1#\x7d;" = .error fault ∧
      ∃ c front rest, fault.complaint? = some c ∧ c.code = "CE1001" ∧
        ReadsUpTo "\x7b1\x7d; // one\n\x7b1#\x7d;".toList front rest ∧
        positionAfter front.text = ⟨2, 3⟩ ∧ c.position = Span.point 2 3 ∧ Finds rest "#" ∧
        c.found = some "#" ∧ c.expected = some "'\x7d' or a tape value (0 or 1)" := by
  have hRejected : Program.ofSource "\x7b1\x7d; // one\n\x7b1#\x7d;" =
      .error (.language ⟨.word "#", ["BIT", "RBRACE"], some (2, 3)⟩ (Span.point 2 3) "\x7b1#\x7d;") :=
    rfl
  obtain ⟨c, front, rest, expected, hComplaint, -, hCode, hReads, -, -, -, -, -, -, hWithin, hEnd⟩ :=
    Program.ofSource_complains_at_first_impossible hRejected
  have hSame := complaint?_language ⟨.word "#", ["BIT", "RBRACE"], some (2, 3)⟩ (Span.point 2 3)
    "\x7b1#\x7d;"
  rw [hComplaint] at hSame
  obtain rfl := Option.some.inj hSame
  -- Something was found, so that the text does not end there.
  have hMore : rest ≠ [] := by
    intro hNil
    exact absurd (hEnd hNil).2.1 (by decide)
  obtain ⟨hPosition, found, hFound, hFinds⟩ := hWithin hMore
  obtain rfl : "#" = found := Option.some.inj hFound
  -- The place of the complaint is the place behind the front.
  have hAfter : positionAfter front.text = ⟨2, 3⟩ := by
    generalize positionAfter front.text = behind at hPosition
    obtain ⟨line, col⟩ := behind
    simp only [Span.point, Span.mk.injEq] at hPosition
    rw [Cursor.mk.injEq]
    omega
  have hSorted : Terminal.sorted [.bit, .rightBrace] = [.rightBrace, .bit] := by
    have hOrder : ¬ Terminal.bit.readable ≤ Terminal.rightBrace.readable := by decide
    simp [Terminal.sorted, List.mergeSort, List.MergeSort.Internal.splitInTwo, hOrder]
  have hExpected := Place.tapeNext.expectedText_error (.word "#") ⟨2, 3⟩
  rw [show Place.tapeNext.expected = [.bit, .rightBrace] from rfl, hSorted] at hExpected
  exact ⟨_, hRejected, _, front, rest, hComplaint, hCode, hReads, hAfter, rfl, hFinds, rfl, hExpected⟩

end TapeMachine
