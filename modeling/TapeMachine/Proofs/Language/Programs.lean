import TapeMachine.Fault
import TapeMachine.Proofs.Language.Declarations
import TapeMachine.Proofs.Language.Lexemes
import TapeMachine.Proofs.Language.Records

/-!
# The Language of Programs

The programs that are read are those of the grammar, and their records say what the declarations
say.

* `Decomposes.exists_program` and `decomposes_of_ofSource`: reading is complete and sound;
* `Decomposes.unique`: there is one way to take a text apart;
* `Program.ofSource_accepts_grammar` puts these together.
-/

namespace TapeMachine

/-! ## §1 Programs and Words -/

theorem words_lexemesFrom (now : Cursor) (pieces : List Piece) :
    (lexemesFrom now pieces).map Lexeme.word = pieces.map Piece.toWord := by
  induction pieces generalizing now with
  | nil => rfl
  | cons piece rest ih =>
    rw [lexemesFrom, List.map_cons, List.map_cons, ih]
    simp [Lexeme.word]

/-- The program of a text is that of its words. -/
theorem ofSource_of_readWords {source : String} {lexemes : List Lexeme} {p : Program}
    (hRead : readWords source.toList = .ok lexemes)
    (hProgram : Program.ofTree (Tree.ofWords lexemes) = .ok p) :
    Program.ofSource source = .ok p := by
  have hTree : Tree.ofSource source = .ok (Tree.ofWords lexemes) := by
    rw [Tree.ofSource, Tree.ofText?, hRead]
    rfl
  rw [Program.ofSource, hTree, ok_bind, hProgram]
  rfl

/-- A text with a program was read into words. -/
theorem readWords_of_ofSource {source : String} {p : Program}
    (hProgram : Program.ofSource source = .ok p) :
    ∃ lexemes, readWords source.toList = .ok lexemes := by
  obtain ⟨tree, hTree, -⟩ := bind_eq_ok_iff.1 hProgram
  rw [Tree.ofSource, Tree.ofText?] at hTree
  cases hRead : readWords source.toList with
  | ok lexemes => exact ⟨lexemes, rfl⟩
  | error e =>
    rw [hRead] at hTree
    cases hTree

/-- The words of a front that is cut rightly are spelled as they have to. -/
theorem Layout.ValidBefore.spelled {l : Layout} {behind : List Char}
    (hValid : l.ValidBefore behind) : ∀ w ∈ l.words, w.Spelled := by
  intro w hw
  obtain ⟨piece, hPiece, rfl⟩ := List.mem_map.1 hw
  exact spelling_of_validFrontFrom hValid piece hPiece

/-- The words of a layout that is cut rightly are spelled as they have to. -/
theorem Layout.Valid.spelled {l : Layout} (hValid : l.Valid) : ∀ w ∈ l.words, w.Spelled :=
  (validBefore_nil_iff.2 hValid).spelled

/-! ## §2 Taking Texts Apart -/

namespace Decomposes

variable {source : String} {layout : Layout} {program : List Declaration}

/-- The words of a text that is taken apart may follow each other. -/
theorem follow (hDecomposes : Decomposes source layout program) :
    Place.between.follow? layout.kinds = some .between :=
  (Place.follow?_between_iff hDecomposes.valid.spelled).2 ⟨program, hDecomposes.words⟩

/-- The words that are read are those of the declarations. -/
theorem words_lexemes (hDecomposes : Decomposes source layout program) :
    (lexemesFrom .start layout.pieces).map Lexeme.word = program.flatMap Declaration.words := by
  rw [words_lexemesFrom]
  exact hDecomposes.words

/-- **Complete**: a text that can be taken apart has a program, with the records of its
declarations. -/
theorem exists_program (hDecomposes : Decomposes source layout program) :
    ∃ p, Program.ofSource source = .ok p ∧
      p.records.map Record.unplaced = program.map Declaration.record := by
  have hRead : readWords source.toList = .ok (lexemesFrom .start layout.pieces) :=
    readFrom_eq_ok_iff.2 ⟨layout, hDecomposes.text, hDecomposes.valid, hDecomposes.follow, rfl⟩
  obtain ⟨p, hProgram, hUnplaced⟩ := ofTree_ofWords hDecomposes.words_lexemes
  exact ⟨p, ofSource_of_readWords hRead hProgram, hUnplaced⟩

/-- **Unique**: a text can be taken apart in one way. -/
theorem unique {layout₁ layout₂ : Layout} {program₁ program₂ : List Declaration}
    (hDecomposes₁ : Decomposes source layout₁ program₁)
    (hDecomposes₂ : Decomposes source layout₂ program₂) :
    layout₁ = layout₂ ∧ program₁ = program₂ := by
  have hLayout : layout₁ = layout₂ :=
    Layout.unique hDecomposes₁.valid hDecomposes₂.valid
      (hDecomposes₁.text.trans hDecomposes₂.text.symm) hDecomposes₁.follow hDecomposes₂.follow
  subst hLayout
  refine ⟨rfl, ?_⟩
  -- The words are cut into declarations in one way, and each declaration is known by its words.
  have hCut := words_declarations hDecomposes₁.words_lexemes
  rw [words_declarations hDecomposes₂.words_lexemes] at hCut
  exact List.map_injective_iff.2 Declaration.words_injective hCut.symm

end Decomposes

/-- A text that is read into words can be taken apart. -/
theorem decomposes_of_readWords {source : String} {lexemes : List Lexeme}
    (hRead : readWords source.toList = .ok lexemes) :
    ∃ layout program, Decomposes source layout program := by
  obtain ⟨layout, hText, hValid, hFollow, -⟩ := readFrom_eq_ok_iff.1 hRead
  obtain ⟨program, hWords⟩ := (Place.follow?_between_iff hValid.spelled).1 hFollow
  exact ⟨layout, program, hText, hValid, hWords⟩

/-- **Sound**: a text that has a program can be taken apart. -/
theorem decomposes_of_ofSource {source : String} {p : Program}
    (hProgram : Program.ofSource source = .ok p) :
    ∃ layout program, Decomposes source layout program := by
  obtain ⟨lexemes, hRead⟩ := readWords_of_ofSource hProgram
  exact decomposes_of_readWords hRead

/-! ## §3 The Language -/

/-- **The language of programs**: reading succeeds exactly if the text is a layout of the words of
some declarations, with gaps of separators around words that are as long as they can be, and the
records are then those of the declarations in order. There is one way to take a text apart, so
texts with the same words and other separators have the same records, up to where they stand. The
text of a description is what stands between the blanks at both ends of its line. -/
theorem Program.ofSource_accepts_grammar (source : String) :
    (∀ records : List Record,
      (∃ p, Program.ofSource source = .ok p ∧ p.records.map Record.unplaced = records) ↔
        ∃ layout program, Decomposes source layout program ∧
          records = program.map Declaration.record) ∧
    (∀ (layout₁ layout₂ : Layout) (program₁ program₂ : List Declaration),
      Decomposes source layout₁ program₁ → Decomposes source layout₂ program₂ →
        layout₁ = layout₂ ∧ program₁ = program₂) ∧
    (∀ (other : String) (layout₁ layout₂ : Layout) (program : List Declaration),
      Decomposes source layout₁ program → layout₂.text = other.toList → layout₂.Valid →
        layout₂.words = layout₁.words →
          ∃ p q, Program.ofSource source = .ok p ∧ Program.ofSource other = .ok q ∧
            p.records.map Record.unplaced = q.records.map Record.unplaced) ∧
    ∀ line text : List Char,
      (Declaration.description line).record = .description none (String.ofList text) ↔
        Text.Trimmed line text := by
  refine ⟨fun records => ⟨?_, ?_⟩, ?_, ?_, fun line text => ?_⟩
  · intro hGiven
    rcases hGiven with ⟨p, hProgram, rfl⟩
    obtain ⟨layout, program, hDecomposes⟩ := decomposes_of_ofSource hProgram
    refine ⟨layout, program, hDecomposes, ?_⟩
    -- The text that was taken apart has a program, and it is this one.
    obtain ⟨q, hOther, hRecords⟩ := hDecomposes.exists_program
    rw [hProgram] at hOther
    rw [Except.ok.inj hOther, hRecords]
  · intro hGiven
    rcases hGiven with ⟨layout, program, hDecomposes, rfl⟩
    exact hDecomposes.exists_program
  · intro layout₁ layout₂ program₁ program₂ hDecomposes₁ hDecomposes₂
    exact hDecomposes₁.unique hDecomposes₂
  · intro other layout₁ layout₂ program hDecomposes hText hValid hWords
    have hOther : Decomposes other layout₂ program := ⟨hText, hValid, hWords.trans hDecomposes.words⟩
    obtain ⟨p, hProgram, hRecords⟩ := hDecomposes.exists_program
    obtain ⟨q, hOtherProgram, hOtherRecords⟩ := hOther.exists_program
    exact ⟨p, q, hProgram, hOtherProgram, hRecords.trans hOtherRecords.symm⟩
  · rw [← Text.trim_eq_iff, Declaration.record, Record.description.injEq, String.ofList_inj]
    exact and_iff_right rfl

/-- A description between blanks and a state called `0`, and the same with white space, a comment that
hides a brace, and comments at both ends. -/
theorem Program.ofSource_accepts_grammar_with_comments :
    ∃ p q, Program.ofSource "/// a\t\nI=\x7b0\x7d;" = .ok p ∧
      Program.ofSource "//\n/// a\t\nI\t=\x7b/*\x7d*/0\x7d;//" = .ok q ∧
      p.records.map Record.unplaced = [.description none "a", .initialState none ⟨"0", none⟩] ∧
      q.records.map Record.unplaced = [.description none "a", .initialState none ⟨"0", none⟩] := by
  have hZero : Terminal.state.Spelling ['0'] := by
    refine ⟨List.cons_ne_nil _ _, fun c hc => ?_⟩
    rw [List.mem_singleton.1 hc]
    decide
  have hDescription : Terminal.description.Spelling ['/', '/', '/', ' ', 'a', '\t'] :=
    ⟨[' ', 'a', '\t'], rfl, by decide⟩
  -- The gaps of the two texts.
  have hFeed : ∀ rest, Gap ['\n'] rest := fun _ => (Separator.space (by decide)).gap
  have hTab : ∀ rest, Gap ['\t'] rest := fun _ => (Separator.space (by decide)).gap
  have hBlock : ∀ rest, Gap ['/', '*', '}', '*', '/'] rest := by
    intro rest
    have hCloses : ClosesAfter ['}'] := closesAfter_cons_iff.2 ⟨closesAfter_nil, by decide⟩
    exact (Separator.blockComment hCloses).gap
  have hLine : Gap ['/', '/'] [] := by
    have hSep : Separator ('/' :: '/' :: []) [] :=
      Separator.lineComment (by simp) (by simp) (by simp)
    exact hSep.gap
  have hFirstLine : ∀ rest, Gap ['/', '/', '\n'] rest := by
    intro rest
    have hSep : Separator ('/' :: '/' :: []) ('\n' :: rest) :=
      Separator.lineComment (by simp) (by simp) (by simp)
    exact .cons hSep (hFeed rest)
  have hTight : Decomposes "/// a\t\nI=\x7b0\x7d;"
      ⟨[⟨⟨.description, ['/', '/', '/', ' ', 'a', '\t']⟩, []⟩, ⟨⟨.initialWord, ['I']⟩, ['\n']⟩,
        ⟨⟨.equals, ['=']⟩, []⟩, ⟨⟨.leftBrace, ['{']⟩, []⟩, ⟨⟨.state, ['0']⟩, []⟩,
        ⟨⟨.rightBrace, ['}']⟩, []⟩, ⟨⟨.semicolon, [';']⟩, []⟩], []⟩
      [.description [' ', 'a', '\t'], .initialState ['0']] := by
    refine ⟨rfl, ?_, rfl⟩
    refine ⟨Gap.nil _, hDescription, ?_, hFeed _, rfl, fun _ _ => rfl, Gap.nil _, rfl,
      fun _ _ => rfl, Gap.nil _, rfl, fun _ _ => rfl, Gap.nil _, hZero, ?_, Gap.nil _, rfl,
      fun _ _ => rfl, Gap.nil _, rfl, fun _ _ => rfl, Gap.nil _⟩
    · rintro c ⟨⟩
      decide
    · rintro c ⟨⟩
      decide
  have hWide : Layout.Valid
      ⟨[⟨⟨.description, ['/', '/', '/', ' ', 'a', '\t']⟩, ['/', '/', '\n']⟩,
        ⟨⟨.initialWord, ['I']⟩, ['\n']⟩, ⟨⟨.equals, ['=']⟩, ['\t']⟩, ⟨⟨.leftBrace, ['{']⟩, []⟩,
        ⟨⟨.state, ['0']⟩, ['/', '*', '}', '*', '/']⟩, ⟨⟨.rightBrace, ['}']⟩, []⟩,
        ⟨⟨.semicolon, [';']⟩, []⟩], ['/', '/']⟩ := by
    refine ⟨hFirstLine _, hDescription, ?_, hFeed _, rfl, fun _ _ => rfl, hTab _, rfl,
      fun _ _ => rfl, Gap.nil _, rfl, fun _ _ => rfl, hBlock _, hZero, ?_, Gap.nil _, rfl,
      fun _ _ => rfl, Gap.nil _, rfl, fun _ _ => rfl, hLine⟩
    · rintro c ⟨⟩
      decide
    · rintro c ⟨⟩
      decide
  obtain ⟨hRecords, -, hSame, hTrimmed⟩ :=
    Program.ofSource_accepts_grammar "/// a\t\nI=\x7b0\x7d;"
  obtain ⟨p, q, hTightOk, hWideOk, hEqual⟩ :=
    hSame "//\n/// a\t\nI\t=\x7b/*\x7d*/0\x7d;//" _ _ _ hTight rfl hWide rfl
  have hContent : [Declaration.description [' ', 'a', '\t'], .initialState ['0']].map
      Declaration.record = [.description none "a", .initialState none ⟨"0", none⟩] := by
    have hWithin : ∀ c, some 'a' = some c → Text.isBlank c = false := by
      rintro c ⟨⟩
      decide
    have hText := (hTrimmed [' ', 'a', '\t'] ['a']).2 ⟨[' '], ['\t'], rfl,
      List.forall_mem_singleton.2 (by decide), List.forall_mem_singleton.2 (by decide), hWithin,
      hWithin⟩
    rw [List.map_cons, hText]
    rfl
  obtain ⟨r, hOk, hRead⟩ :=
    (hRecords [.description none "a", .initialState none ⟨"0", none⟩]).2 ⟨_, _, hTight, hContent.symm⟩
  rw [hTightOk] at hOk
  obtain rfl := Except.ok.inj hOk
  exact ⟨p, q, hTightOk, hWideOk, hRead, hEqual ▸ hRead⟩

end TapeMachine
