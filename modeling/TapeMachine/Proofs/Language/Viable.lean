import TapeMachine.Proofs.Language.Programs

/-!
# Beginnings of Programs

Words with which some program begins are called viable. Every place between words can be left again
to the end of a declaration, so words are viable as long as each of them may follow the one before.

* `Place.exists_completes`: from every place some words lead to the end of a declaration;
* `isProgram_iff`: words are those of a program exactly if they lead back between declarations;
* `viable_iff` and `viable_concat_iff`: when words are viable, and by what they can go on.
-/

namespace TapeMachine

/-! ## §1 Ways Out -/

/-- A spelling of each kind of word. -/
def Terminal.sample : Terminal → List Char
  | .leftBrace => ['{']
  | .rightBrace => ['}']
  | .leftParen => ['(']
  | .rightParen => [')']
  | .comma => [',']
  | .semicolon => [';']
  | .equals => ['=']
  | .initialWord => ['I']
  | .finalWord => ['F']
  | .composeWord => ['c', 'o', 'm', 'p', 'o', 's', 'e']
  | .bit => ['0']
  | .state => ['q']
  | .library => ['l']
  | .movement => ['R']
  | .description => ['/', '/', '/']

theorem Terminal.spelling_sample (t : Terminal) : t.Spelling t.sample := by
  cases t with
  | bit => exact Or.inl rfl
  | state => simp [Spelling, sample, isNameChar]
  | library => exact ⟨'l', [], rfl, by decide, by simp⟩
  | movement =>
    refine ⟨List.cons_ne_nil _ _, fun c hc => ?_⟩
    rw [List.mem_singleton.1 hc]
    decide
  | description => exact ⟨[], rfl, List.not_mem_nil⟩
  | _ => rfl

namespace Place

/-- Words that lead from a place to the end of a declaration. -/
def wayOut : Place → List Terminal
  | .between => []
  | .tapeFirst => [.bit, .rightBrace, .semicolon]
  | .tapeNext => [.rightBrace, .semicolon]
  | .tapeEnd => [.semicolon]
  | .initialEquals => [.equals, .leftBrace, .state, .rightBrace, .semicolon]
  | .initialOpen => [.leftBrace, .state, .rightBrace, .semicolon]
  | .initialState => [.state, .rightBrace, .semicolon]
  | .initialClose => [.rightBrace, .semicolon]
  | .initialEnd => [.semicolon]
  | .finalEquals => [.equals, .leftBrace, .state, .rightBrace, .semicolon]
  | .finalOpen => [.leftBrace, .state, .rightBrace, .semicolon]
  | .finalState => [.state, .rightBrace, .semicolon]
  | .finalNext => [.rightBrace, .semicolon]
  | .finalEnd => [.semicolon]
  | .composeEquals => [.equals, .leftBrace, .library, .rightBrace, .semicolon]
  | .composeOpen => [.leftBrace, .library, .rightBrace, .semicolon]
  | .composeName => [.library, .rightBrace, .semicolon]
  | .composeNext => [.rightBrace, .semicolon]
  | .composeEnd => [.semicolon]
  | .ruleState => .state :: ruleBehindState
  | .ruleComma₁ => ruleBehindState
  | .ruleValue => .bit :: ruleBehindValue
  | .ruleComma₂ => ruleBehindValue
  | .ruleWrite => .bit :: ruleBehindWrite
  | .ruleComma₃ => ruleBehindWrite
  | .ruleMovement => .movement :: ruleBehindMovement
  | .ruleComma₄ => ruleBehindMovement
  | .ruleNext => [.state, .rightParen, .semicolon]
  | .ruleClose => [.rightParen, .semicolon]
  | .ruleEnd => [.semicolon]
where
  ruleBehindMovement : List Terminal := [.comma, .state, .rightParen, .semicolon]
  ruleBehindWrite : List Terminal := .comma :: .movement :: ruleBehindMovement
  ruleBehindValue : List Terminal := .comma :: .bit :: ruleBehindWrite
  ruleBehindState : List Terminal := .comma :: .bit :: ruleBehindValue

theorem follow?_wayOut (p : Place) : p.follow? p.wayOut = some .between := by
  cases p <;> rfl

/-- **Ways out**: from every place some words lead to the end of a declaration. -/
theorem exists_completes (p : Place) : ∃ words, p.Completes words := by
  refine ⟨p.wayOut.map fun t => ⟨t, t.sample⟩, fun w hw => ?_, ?_⟩
  · obtain ⟨t, -, rfl⟩ := List.mem_map.1 hw
    exact t.spelling_sample
  · rw [List.map_map]
    exact (congrArg p.follow? (List.map_id _)).trans p.follow?_wayOut

end Place

/-! ## §2 Texts of Given Words -/

/-- Words on lines of their own. -/
def Layout.onLines (words : List Word) : Layout :=
  ⟨words.map fun w => ⟨w, ['\n']⟩, ['\n']⟩

theorem Layout.words_onLines (words : List Word) : (onLines words).words = words := by
  show (words.map _).map Piece.toWord = words
  rw [List.map_map]
  exact List.map_id _

/-- A line feed ends every word. -/
theorem Terminal.extendedBy_feed (t : Terminal) : t.extendedBy '\n' = false := by
  cases t <;> decide

theorem Layout.valid_onLines {words : List Word} (hSpelled : ∀ w ∈ words, w.Spelled) :
    (onLines words).Valid := by
  have hFeed : ∀ rest, Gap ['\n'] rest := fun rest => (Separator.space (by decide)).gap
  induction words with
  | nil => exact hFeed []
  | cons w rest ih =>
    refine ⟨hFeed _, hSpelled w List.mem_cons_self, fun c hc => ?_,
      ih fun v hv => hSpelled v (List.mem_cons_of_mem w hv)⟩
    -- Behind the word stands the line feed in front of the next, or the last one.
    have hNext : c = '\n' := by
      cases rest with
      | nil => exact (Option.some.inj hc).symm
      | cons next rest => exact (Option.some.inj hc).symm
    rw [hNext]
    exact w.terminal.extendedBy_feed

/-! ## §3 Words of Programs -/

/-- The words of a text that has a program. -/
def IsProgram (words : List Word) : Prop :=
  ∃ source p lexemes, Program.ofSource source = .ok p ∧ readWords source.toList = .ok lexemes ∧
    lexemes.map Lexeme.word = words

/-- Words with which some program begins. -/
def Viable (words : List Word) : Prop := ∃ more, IsProgram (words ++ more)

/-- **Words of programs** are spelled words that lead from between declarations back there. -/
theorem isProgram_iff {words : List Word} :
    IsProgram words ↔ Place.between.Completes words := by
  refine ⟨?_, fun hCompletes => ?_⟩
  · intro hGiven
    rcases hGiven with ⟨source, p, lexemes, -, hRead, rfl⟩
    obtain ⟨layout, -, hValid, hFollow, rfl⟩ := readFrom_eq_ok_iff.1 hRead
    have hWords : (lexemesFrom .start layout.pieces).map Lexeme.word = layout.words :=
      words_lexemesFrom .start layout.pieces
    rw [hWords]
    exact ⟨hValid.spelled, hFollow⟩
  · -- The words on lines of their own are a text that can be taken apart.
    obtain ⟨program, hProgram⟩ := (Place.follow?_between_iff hCompletes.spelled).1 hCompletes.follow
    have hWords := Layout.words_onLines words
    have hDecomposes : Decomposes (String.ofList (Layout.onLines words).text)
        (Layout.onLines words) program :=
      ⟨String.toList_ofList.symm, Layout.valid_onLines hCompletes.spelled, hWords.trans hProgram⟩
    obtain ⟨p, hOk, -⟩ := hDecomposes.exists_program
    obtain ⟨lexemes, hRead⟩ := readWords_of_ofSource hOk
    refine ⟨_, p, lexemes, hOk, hRead, ?_⟩
    rw [String.toList_ofList] at hRead
    have hLexemes : readWords (Layout.onLines words).text =
        .ok (lexemesFrom .start (Layout.onLines words).pieces) :=
      readFrom_of_layout hDecomposes.valid hDecomposes.follow
    rw [hLexemes] at hRead
    rw [← Except.ok.inj hRead, words_lexemesFrom]
    exact hWords

/-- **Viable words** are spelled words that may follow each other. -/
theorem viable_iff {words : List Word} :
    Viable words ↔ (∀ w ∈ words, w.Spelled) ∧
      ∃ q, Place.between.follow? (words.map Word.terminal) = some q := by
  refine ⟨?_, ?_⟩
  · intro hGiven
    rcases hGiven with ⟨more, hProgram⟩
    obtain ⟨hSpelled, hFollow⟩ := isProgram_iff.1 hProgram
    refine ⟨fun w hw => hSpelled w (List.mem_append_left more hw), ?_⟩
    rw [List.map_append, Place.follow?_append, Option.bind_eq_some_iff] at hFollow
    obtain ⟨q, hFront, -⟩ := hFollow
    exact ⟨q, hFront⟩
  · intro hGiven
    rcases hGiven with ⟨hSpelled, q, hFollow⟩
    -- The words go on by a way out of the place that they lead to.
    obtain ⟨more, hMore⟩ := q.exists_completes
    refine ⟨more, isProgram_iff.2 ⟨fun w hw => ?_, ?_⟩⟩
    · rcases List.mem_append.1 hw with hw | hw
      · exact hSpelled w hw
      · exact hMore.spelled w hw
    · rw [List.map_append, Place.follow?_append, hFollow]
      exact hMore.follow

/-- **Going on**: viable words go on by a word exactly if it is spelled and may come at the place
that they lead to. -/
theorem viable_concat_iff {words : List Word} {q : Place} (hSpelled : ∀ w ∈ words, w.Spelled)
    (hFollow : Place.between.follow? (words.map Word.terminal) = some q) {w : Word} :
    Viable (words ++ [w]) ↔ w.Spelled ∧ w.terminal ∈ q.expected := by
  have hBehind : Place.between.follow? ((words ++ [w]).map Word.terminal) = q.next? w.terminal := by
    rw [List.map_append, Place.follow?_append, hFollow]
    show (q.next? w.terminal).bind _ = _
    cases q.next? w.terminal <;> rfl
  rw [viable_iff, hBehind, Place.mem_expected_iff, Option.isSome_iff_exists]
  -- All words in front are spelled, so that only the last one matters.
  refine and_congr_left fun _ => ⟨fun hAll => hAll w (by simp), fun hWord v hv => ?_⟩
  rcases List.mem_append.1 hv with hv | hv
  · exact hSpelled v hv
  · rw [List.mem_singleton.1 hv]
    exact hWord

end TapeMachine
