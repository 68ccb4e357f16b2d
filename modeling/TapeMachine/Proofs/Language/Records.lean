import TapeMachine.Proofs.Attempts
import TapeMachine.Proofs.Language.Layout
import TapeMachine.Record

/-!
# The Records of Declarations

Words that were read are cut into declarations again, and the branch of each declaration has a
record with its content.

* `words_declarations`: the words of a program are cut into those of its declarations;
* `Declaration.words_injective`: a declaration is known by its words;
* `ofTree?_ofDeclaration`: the record of a branch has the content of its declaration;
* `ofTree_ofWords`: the tree of a program has the records of its declarations.
-/

namespace TapeMachine

/-! ## §1 Cutting Words into Declarations -/

/-- A word that was read, without its position. -/
def Lexeme.word (w : Lexeme) : Word := ⟨w.terminal, w.text.toList⟩

/-- Words up to one that ends a declaration are the next declaration. -/
theorem declarations_append {begun front rest : List Lexeme} {last : Lexeme}
    (hFront : ∀ w ∈ front, w.terminal.isLast = false) (hLast : last.terminal.isLast = true) :
    declarations begun (front ++ last :: rest) =
      (begun.reverse ++ (front ++ [last])) :: declarations [] rest := by
  induction front generalizing begun with
  | nil =>
    rw [List.nil_append, declarations, if_pos hLast, List.reverse_cons]
    rfl
  | cons w front ih =>
    have hFirst : ¬ w.terminal.isLast = true := by
      rw [hFront w List.mem_cons_self]
      exact Bool.false_ne_true
    rw [List.cons_append, declarations, if_neg hFirst,
      ih fun v hv => hFront v (List.mem_cons_of_mem w hv)]
    simp

/-- Cutting loses no word. -/
theorem flatten_declarations (begun lexemes : List Lexeme) :
    (declarations begun lexemes).flatten = begun.reverse ++ lexemes := by
  induction lexemes generalizing begun with
  | nil => cases begun <;> simp [declarations]
  | cons w rest ih =>
    rw [declarations]
    split
    · rw [List.flatten_cons, ih, List.reverse_cons]
      simp
    · rw [ih, List.reverse_cons]
      simp

theorem isLast_listedWords {t : Terminal} {first : List Char} {more : List (List Char)}
    (hKind : t.isLast = false) : ∀ w ∈ listedWords t first more, w.terminal.isLast = false := by
  intro w hw
  rcases List.mem_cons.1 hw with rfl | hw
  · exact hKind
  · obtain ⟨text, -, hText⟩ := List.mem_flatMap.1 hw
    rcases List.mem_cons.1 hText with rfl | hText
    · rfl
    · rw [List.mem_singleton.1 hText]
      exact hKind

/-- The last word of a declaration is the only one that ends a declaration. -/
theorem Declaration.words_eq_concat (d : Declaration) :
    ∃ front last, d.words = front ++ [last] ∧ last.terminal.isLast = true ∧
      ∀ w ∈ front, w.terminal.isLast = false := by
  -- Most declarations end with the closing words, and have no semicolon before.
  have hClosing : ∀ body : List Word, (∀ w ∈ body, w.terminal.isLast = false) →
      ∃ front last, body ++ closingWords = front ++ [last] ∧ last.terminal.isLast = true ∧
        ∀ w ∈ front, w.terminal.isLast = false := by
    intro body hBody
    refine ⟨body ++ [⟨.rightBrace, ['}']⟩], ⟨.semicolon, [';']⟩, ?_, rfl, ?_⟩
    · simp [closingWords]
    · intro w hw
      rcases List.mem_append.1 hw with hw | hw
      · exact hBody w hw
      · rw [List.mem_singleton.1 hw]
        rfl
  cases d with
  | description line => exact ⟨[], _, rfl, rfl, by simp⟩
  | tape first more =>
    apply hClosing (⟨.leftBrace, ['{']⟩ :: (first :: more).map (Word.mk .bit))
    intro w hw
    rcases List.mem_cons.1 hw with rfl | hw
    · rfl
    · obtain ⟨text, -, rfl⟩ := List.mem_map.1 hw
      rfl
  | initialState state =>
    apply hClosing [⟨.initialWord, ['I']⟩, ⟨.equals, ['=']⟩, ⟨.leftBrace, ['{']⟩, ⟨.state, state⟩]
    simp [Terminal.isLast]
  | finalStates first more =>
    apply hClosing (⟨.finalWord, ['F']⟩ :: ⟨.equals, ['=']⟩ :: ⟨.leftBrace, ['{']⟩ ::
      listedWords .state first more)
    simpa [Terminal.isLast] using isLast_listedWords rfl
  | composition first more =>
    apply hClosing (⟨.composeWord, ['c', 'o', 'm', 'p', 'o', 's', 'e']⟩ :: ⟨.equals, ['=']⟩ ::
      ⟨.leftBrace, ['{']⟩ :: listedWords .library first more)
    simpa [Terminal.isLast] using isLast_listedWords rfl
  | rule state value write movement next =>
    refine ⟨(Declaration.rule state value write movement next).words.dropLast, _, rfl, rfl, ?_⟩
    simp [Declaration.words, Terminal.isLast]

/-- **Cutting**: the words of a program are cut into those of its declarations. -/
theorem words_declarations {program : List Declaration} {lexemes : List Lexeme}
    (hWords : lexemes.map Lexeme.word = program.flatMap Declaration.words) :
    (declarations [] lexemes).map (List.map Lexeme.word) = program.map Declaration.words := by
  induction program generalizing lexemes with
  | nil =>
    rw [List.map_eq_nil_iff.1 hWords]
    rfl
  | cons d program ih =>
    obtain ⟨front, last, hConcat, hLast, hFront⟩ := d.words_eq_concat
    rw [List.flatMap_cons, hConcat, List.append_assoc] at hWords
    obtain ⟨front', behind, rfl, hFront', hBehind⟩ := List.map_eq_append_iff.1 hWords
    obtain ⟨last', rest, rfl, hLast', hRest⟩ := List.map_eq_cons_iff.1 hBehind
    have hKinds : ∀ w ∈ front', w.terminal.isLast = false := by
      intro w hw
      exact hFront w.word (hFront' ▸ List.mem_map_of_mem hw)
    have hKind : last'.terminal.isLast = true := by
      show last'.word.terminal.isLast = true
      rw [hLast']
      exact hLast
    rw [declarations_append hKinds hKind, List.map_cons, List.map_cons, ih hRest, hConcat]
    simp [hFront', hLast']

/-! ## §2 The Content of Words -/

/-- The texts of the words of a kind. -/
def textsOf (kind : Terminal) (words : List Word) : List (List Char) :=
  (words.filter fun w => w.terminal = kind).map Word.text

/-- The texts of the words that carry content. -/
def contentsOf (words : List Word) : List (List Char) :=
  (words.filter fun w => w.terminal.isContent).map Word.text

/-- The nodes of a declaration: its words that carry content. -/
def contentNodes (lexemes : List Lexeme) : List Tree :=
  (lexemes.filter fun w => w.terminal.isContent).map fun w => .leaf (.ofLexeme w)

/-- Kinds of words are told apart by a text if each is the first with its own. -/
theorem Terminal.eq_of_find? {f : Terminal → String}
    (hFind : ∀ t, all.find? (fun u => f u == f t) = some t) {t u : Terminal} (hSame : f t = f u) :
    t = u := by
  have hFound := hFind t
  rw [hSame, hFind u] at hFound
  exact (Option.some.inj hFound).symm

/-- Kinds of words have different names. -/
theorem Terminal.name_inj {t u : Terminal} : t.name = u.name ↔ t = u :=
  ⟨eq_of_find? fun t => by cases t <;> decide, congrArg name⟩

theorem tokensOf_contentNodes (lexemes : List Lexeme) :
    tokensOf (contentNodes lexemes) =
      (lexemes.filter fun w => w.terminal.isContent).map Token.ofLexeme := by
  rw [tokensOf, contentNodes, List.filterMap_map]
  exact congrFun (List.filterMap_eq_map (f := Token.ofLexeme)) _

theorem unplaced_ofToken (w : Lexeme) :
    (Field.ofToken (Token.ofLexeme w)).unplaced = Declaration.field w.word.text := by
  simp [Field.ofToken, Token.ofLexeme, Field.unplaced, Declaration.field, Lexeme.word]

/-- The fields that are read off the nodes of a declaration are its words that carry content. -/
theorem fields_contentNodes (lexemes : List Lexeme) :
    ((tokensOf (contentNodes lexemes)).map Field.ofToken).map Field.unplaced =
      (contentsOf (lexemes.map Lexeme.word)).map Declaration.field := by
  rw [tokensOf_contentNodes, contentsOf, List.filter_map]
  simp only [List.map_map]
  exact List.map_congr_left fun w _ => unplaced_ofToken w

/-- The fields of a kind that are read off the nodes of a declaration are its words of the kind. -/
theorem fieldsOf_contentNodes {kind : Terminal} (hContent : kind.isContent = true)
    (lexemes : List Lexeme) :
    (fieldsOf kind (contentNodes lexemes)).map Field.unplaced =
      (textsOf kind (lexemes.map Lexeme.word)).map Declaration.field := by
  -- A word of the kind carries content, so that looking for content first loses none of them.
  have hFilter : ∀ w : Lexeme,
      ((Token.ofLexeme w).kind == kind.name && w.terminal.isContent) =
        decide (w.word.terminal = kind) := by
    intro w
    show (w.terminal.name == kind.name && w.terminal.isContent) = decide (w.terminal = kind)
    by_cases hKind : w.terminal = kind
    · simp [hKind, hContent]
    · simp [hKind, Terminal.name_inj]
  rw [fieldsOf, tokensOf_contentNodes, textsOf, List.filter_map, List.filter_map,
    List.filter_filter]
  simp only [List.map_map, Function.comp_def, hFilter]
  exact List.map_congr_left fun w _ => unplaced_ofToken w

/-! ## §3 Records of Declarations -/

@[simp] theorem textsOf_nil (kind : Terminal) : textsOf kind [] = [] := rfl

@[simp] theorem textsOf_cons (kind : Terminal) (w : Word) (rest : List Word) :
    textsOf kind (w :: rest) =
      if w.terminal = kind then w.text :: textsOf kind rest else textsOf kind rest := by
  by_cases hKind : w.terminal = kind <;> simp [textsOf, hKind]

@[simp] theorem textsOf_append (kind : Terminal) (front back : List Word) :
    textsOf kind (front ++ back) = textsOf kind front ++ textsOf kind back := by
  rw [textsOf, List.filter_append, List.map_append]
  rfl

theorem textsOf_listedWords {t : Terminal} (hKind : t ≠ .comma) (first : List Char)
    (more : List (List Char)) : textsOf t (listedWords t first more) = first :: more := by
  have hMore : textsOf t (more.flatMap fun text => [⟨.comma, [',']⟩, ⟨t, text⟩]) = more := by
    induction more with
    | nil => rfl
    | cons second more ih => simp [ih, Ne.symm hKind]
  simp [listedWords, hMore]

theorem textsOf_digits (digits : List (List Char)) :
    textsOf .bit (digits.map (Word.mk .bit)) = digits := by
  induction digits with
  | nil => rfl
  | cons digit digits ih => simp [ih]

theorem textsOf_tape (first : List Char) (more : List (List Char)) :
    textsOf .bit (Declaration.tape first more).words = first :: more := by
  simp [Declaration.words, textsOf_digits, closingWords]

theorem textsOf_finalStates (first : List Char) (more : List (List Char)) :
    textsOf .state (Declaration.finalStates first more).words = first :: more := by
  simp [Declaration.words, textsOf_listedWords, closingWords]

theorem textsOf_composition (first : List Char) (more : List (List Char)) :
    textsOf .library (Declaration.composition first more).words = first :: more := by
  simp [Declaration.words, textsOf_listedWords, closingWords]

/-- A declaration is known by its words. -/
theorem Declaration.words_injective : Function.Injective Declaration.words := by
  intro d₁ d₂ hWords
  have hHead := congrArg List.head? hWords
  have hTexts := fun kind => congrArg (textsOf kind) hWords
  -- The first word tells the form, and the words with content tell the rest.
  cases d₁ with
  | description line =>
    cases d₂ with
    | description line' => simpa [Declaration.words] using hWords
    | _ => simp [Declaration.words] at hHead
  | tape first more =>
    cases d₂ with
    | tape first' more' =>
      have hDigits := hTexts .bit
      rw [textsOf_tape, textsOf_tape] at hDigits
      obtain ⟨rfl, rfl⟩ := List.cons.inj hDigits
      rfl
    | _ => simp [Declaration.words] at hHead
  | initialState state =>
    cases d₂ with
    | initialState state' => simpa [Declaration.words] using hWords
    | _ => simp [Declaration.words] at hHead
  | finalStates first more =>
    cases d₂ with
    | finalStates first' more' =>
      have hStates := hTexts .state
      rw [textsOf_finalStates, textsOf_finalStates] at hStates
      obtain ⟨rfl, rfl⟩ := List.cons.inj hStates
      rfl
    | _ => simp [Declaration.words] at hHead
  | composition first more =>
    cases d₂ with
    | composition first' more' =>
      have hLibraries := hTexts .library
      rw [textsOf_composition, textsOf_composition] at hLibraries
      obtain ⟨rfl, rfl⟩ := List.cons.inj hLibraries
      rfl
    | _ => simp [Declaration.words] at hHead
  | rule state value write movement next =>
    cases d₂ with
    | rule state' value' write' movement' next' => simpa [Declaration.words] using hWords
    | _ => simp [Declaration.words] at hHead

/-- A field that is all there is of a kind is found. -/
theorem firstField_eq_ok {kind : Terminal} {nodes : List Tree} {text : List Char}
    (hFields : (fieldsOf kind nodes).map Field.unplaced = [Declaration.field text]) :
    ∃ f, firstField kind nodes = .ok f ∧ f.unplaced = Declaration.field text := by
  obtain ⟨f, rest, hSplit, hField, -⟩ := List.map_eq_cons_iff.1 hFields
  refine ⟨f, ?_, hField⟩
  rw [firstField, hSplit]

/-- **Records**: the branch of a declaration has a record with the content of the declaration. -/
theorem ofTree?_ofDeclaration {d : Declaration} {first : Lexeme} {rest : List Lexeme}
    (hWords : (first :: rest).map Lexeme.word = d.words) :
    ∃ r, Record.ofTree? (Tree.ofDeclaration first rest) = .ok (some r) ∧ r.unplaced = d.record := by
  have hFields : ∀ kind : Terminal, kind.isContent = true →
      (fieldsOf kind (contentNodes (first :: rest))).map Field.unplaced =
        (textsOf kind d.words).map Declaration.field := by
    intro kind hContent
    rw [← hWords]
    exact fieldsOf_contentNodes hContent (first :: rest)
  have hFirst : ∀ {w : Word} {more : List Word}, d.words = w :: more →
      first.terminal.label = w.terminal.label := by
    intro w more hHead
    rw [hHead] at hWords
    exact congrArg (fun w : Word => w.terminal.label) (List.cons.inj hWords).1
  show ∃ r, Record.ofTree? (.branch first.terminal.label _ (contentNodes (first :: rest))) =
    .ok (some r) ∧ _
  cases d with
  | description line =>
    -- The three slashes are cut off, and the rest is trimmed.
    obtain ⟨f, hFound, hField⟩ := firstField_eq_ok (hFields .description rfl)
    have hText : f.text = String.ofList ('/' :: '/' :: '/' :: line) := congrArg Field.text hField
    rw [hFirst rfl]
    simp only [Record.ofTree?, Terminal.label, hFound, ok_bind]
    refine ⟨_, rfl, ?_⟩
    simp [Record.unplaced, descriptionText, hText, Declaration.record]
  | tape first more =>
    rw [hFirst rfl]
    refine ⟨_, rfl, ?_⟩
    rw [Record.unplaced, hFields .bit rfl, textsOf_tape]
    rfl
  | initialState state =>
    obtain ⟨f, hFound, hField⟩ := firstField_eq_ok (hFields .state rfl)
    rw [hFirst rfl]
    simp only [Record.ofTree?, Terminal.label, hFound, ok_bind]
    refine ⟨_, rfl, ?_⟩
    rw [Record.unplaced, hField]
    rfl
  | finalStates first more =>
    rw [hFirst rfl]
    refine ⟨_, rfl, ?_⟩
    rw [Record.unplaced, hFields .state rfl, textsOf_finalStates]
    rfl
  | composition first more =>
    rw [hFirst rfl]
    refine ⟨_, rfl, ?_⟩
    rw [Record.unplaced, hFields .library rfl, textsOf_composition]
    rfl
  | rule state value write movement next =>
    -- The words of all kinds are fields, in their order.
    rw [hFirst rfl]
    refine ⟨_, rfl, ?_⟩
    rw [Record.unplaced, fields_contentNodes, hWords]
    rfl

/-- The branches of the declarations that words were cut into. -/
def branchesOf (blocks : List (List Lexeme)) : List Tree :=
  blocks.filterMap fun
    | [] => none
    | first :: rest => some (.ofDeclaration first rest)

/-- The records of the branches of a program are those of its declarations. -/
theorem recordsOf_branchesOf {program : List Declaration} {blocks : List (List Lexeme)}
    (hBlocks : blocks.map (List.map Lexeme.word) = program.map Declaration.words) :
    ∃ records, recordsOf (branchesOf blocks) = .ok records ∧
      records.map Record.unplaced = program.map Declaration.record := by
  induction program generalizing blocks with
  | nil =>
    rw [List.map_eq_nil_iff.1 hBlocks]
    exact ⟨[], rfl, rfl⟩
  | cons d program ih =>
    obtain ⟨block, blocks, rfl, hBlock, hRest⟩ := List.map_eq_cons_iff.1 hBlocks
    obtain ⟨records, hRecords, hUnplaced⟩ := ih hRest
    cases block with
    | nil =>
      -- No declaration is without words.
      cases d <;> cases hBlock
    | cons first rest =>
      obtain ⟨r, hRecord, hContent⟩ := ofTree?_ofDeclaration hBlock
      refine ⟨r :: records, ?_, by rw [List.map_cons, hContent, hUnplaced]; rfl⟩
      show recordsOf (Tree.ofDeclaration first rest :: branchesOf blocks) = .ok (r :: records)
      rw [recordsOf, hRecord, ok_bind, hRecords, ok_bind]
      rfl

/-- The tree of the words of a program is that of a program. -/
theorem ofTree_ofWords {program : List Declaration} {lexemes : List Lexeme}
    (hWords : lexemes.map Lexeme.word = program.flatMap Declaration.words) :
    ∃ p, Program.ofTree (Tree.ofWords lexemes) = .ok p ∧
      p.records.map Record.unplaced = program.map Declaration.record := by
  obtain ⟨records, hRecords, hUnplaced⟩ := recordsOf_branchesOf (words_declarations hWords)
  have hTree : Tree.ofWords lexemes = .branch "start"
      (spanOfTrees (branchesOf (declarations [] lexemes))) (branchesOf (declarations [] lexemes)) :=
    rfl
  rw [hTree, Program.ofTree, hRecords, ok_bind]
  exact ⟨_, rfl, hUnplaced⟩

end TapeMachine
