import Mathlib.Data.List.Forall2
import TapeMachine.Proofs.Language.Placement

/-!
# Shapes of Trees and Records

The tree of a text has one branch for each declaration, and a branch holds the words that go with
its label. So every branch has a record, and the record holds what its kind asks for.

* `Tree.WellFormed` and `Record.WellFormed` say what a branch and a record hold;
* `Tree.wellFormed_ofDeclaration`: the words of a declaration make a branch of this form;
* `Record.exists_of_wellFormed`: such a branch has a record, which is of this form in turn;
* `Tree.wellFormed_ofWords` and `Program.wellFormed_of_ofSource`: what is read off a text.
-/

namespace TapeMachine

/-! ## §1 Forms -/

/-- A word in a tree is of a kind, and is spelled as its kind asks. -/
structure Token.Spells (t : Token) (kind : Terminal) : Prop where
  named : t.kind = kind.name
  spelling : kind.Spelling t.text.toList

/-- The branch of a declaration: a label, and below it the words that go with the label. -/
inductive Tree.WellFormed : Tree → Prop where
  | description {span : Option Span} {line : Token} :
      line.Spells .description → WellFormed (.branch "description" span [.leaf line])
  | tape {span : Option Span} {bits : List Token} :
      bits ≠ [] → (∀ bit ∈ bits, bit.Spells .bit) →
        WellFormed (.branch "tape" span (bits.map .leaf))
  | initialState {span : Option Span} {state : Token} :
      state.Spells .state → WellFormed (.branch "initial_state" span [.leaf state])
  | finalStates {span : Option Span} {states : List Token} :
      states ≠ [] → (∀ state ∈ states, state.Spells .state) →
        WellFormed (.branch "final_state" span (states.map .leaf))
  | composition {span : Option Span} {names : List Token} :
      names ≠ [] → (∀ name ∈ names, name.Spells .library) →
        WellFormed (.branch "composition" span (names.map .leaf))
  | rule {span : Option Span} {state value write movement next : Token} :
      state.Spells .state → value.Spells .bit → write.Spells .bit → movement.Spells .movement →
        next.Spells .state →
          WellFormed (.branch "instruction" span
            [.leaf state, .leaf value, .leaf write, .leaf movement, .leaf next])

/-- The text of a field is a digit of the tape. -/
def Field.IsBit (f : Field) : Prop := f.text = "0" ∨ f.text = "1"

/-- A record holds what its kind asks for. -/
def Record.WellFormed : Record → Prop
  | .description _ _ => True
  | .tape _ bits => bits ≠ [] ∧ ∀ bit ∈ bits, bit.IsBit
  | .initialState _ state => Terminal.state.Spelling state.text.toList
  | .finalStates _ states =>
    states ≠ [] ∧ ∀ state ∈ states, Terminal.state.Spelling state.text.toList
  | .composition _ names =>
    names ≠ [] ∧ ∀ name ∈ names, Terminal.library.Spelling name.text.toList
  | .rule _ fields => ∃ state value write movement next,
    fields = [state, value, write, movement, next] ∧
      Terminal.state.Spelling state.text.toList ∧ value.IsBit ∧ write.IsBit ∧
      Terminal.movement.Spelling movement.text.toList ∧ Terminal.state.Spelling next.text.toList
  | .other _ => False

/-! ## §2 Branches of Declarations -/

/-- The words of a declaration that carry content. -/
def contentWords (words : List Word) : List Word := words.filter fun w => w.terminal.isContent

@[simp] theorem contentWords_cons (w : Word) (rest : List Word) :
    contentWords (w :: rest) =
      if w.terminal.isContent then w :: contentWords rest else contentWords rest :=
  List.filter_cons

@[simp] theorem contentWords_append (front back : List Word) :
    contentWords (front ++ back) = contentWords front ++ contentWords back :=
  List.filter_append front back

/-- Of listed words, the commas carry no content. -/
theorem contentWords_listedWords {t : Terminal} (hContent : t.isContent = true) (first : List Char)
    (more : List (List Char)) :
    contentWords (listedWords t first more) = (first :: more).map (Word.mk t) := by
  have hMore : contentWords (more.flatMap fun text => [⟨.comma, [',']⟩, ⟨t, text⟩]) =
      more.map (Word.mk t) := by
    induction more with
    | nil => rfl
    | cons text more ih =>
      have hComma : Terminal.comma.isContent = false := rfl
      simp [hContent, hComma, ih]
  rw [listedWords, contentWords_cons, if_pos hContent, hMore]
  rfl

theorem contentWords_digits (digits : List (List Char)) :
    contentWords (digits.map (Word.mk .bit)) = digits.map (Word.mk .bit) := by
  apply List.filter_eq_self.2
  intro w hw
  obtain ⟨digit, -, rfl⟩ := List.mem_map.1 hw
  rfl

theorem contentWords_closingWords : contentWords closingWords = [] := rfl

section Block

variable {words : List Word} {block : List Lexeme}

/-- The nodes of a block are leaves, one for each word with content, and spelled like it. -/
theorem exists_leaves (hWords : block.map Lexeme.word = words) (hSpelled : ∀ w ∈ words, w.Spelled) :
    ∃ tokens : List Token, contentNodes block = tokens.map .leaf ∧
      List.Forall₂ (fun t w => t.Spells w.terminal) tokens (contentWords words) := by
  refine ⟨(block.filter fun w => w.terminal.isContent).map Token.ofLexeme, ?_, ?_⟩
  · rw [contentNodes, List.map_map]
    rfl
  · have hContents : contentWords words =
        (block.filter fun w => w.terminal.isContent).map Lexeme.word := by
      rw [← hWords, contentWords, List.filter_map]
      rfl
    rw [hContents, List.forall₂_map_left_iff, List.forall₂_map_right_iff, List.forall₂_same]
    intro w hw
    exact ⟨rfl, hSpelled w.word (hWords ▸ List.mem_map_of_mem (List.mem_filter.1 hw).1)⟩

/-- Tokens that are spelled like words of one kind are of this kind, and there are as many. -/
theorem spells_of_forall₂ {kind : Terminal} {tokens : List Token} {texts : List (List Char)}
    (hTokens : List.Forall₂ (fun t w => t.Spells w.terminal) tokens
      (texts.map (Word.mk kind))) :
    tokens.length = texts.length ∧ ∀ t ∈ tokens, t.Spells kind := by
  rw [List.forall₂_map_right_iff] at hTokens
  refine ⟨hTokens.length_eq, ?_⟩
  exact ((List.forall₂_and_left tokens texts).1 (hTokens.imp fun t text hSpells => ⟨hSpells, trivial⟩ :
    List.Forall₂ (fun t _ => t.Spells kind ∧ True) tokens texts)).1

end Block

/-- **Branches**: the branch of a declaration whose words are spelled rightly is well formed. -/
theorem Tree.wellFormed_ofDeclaration {d : Declaration} {first : Lexeme} {rest : List Lexeme}
    (hWords : (first :: rest).map Lexeme.word = d.words) (hSpelled : ∀ w ∈ d.words, w.Spelled) :
    (Tree.ofDeclaration first rest).WellFormed := by
  obtain ⟨tokens, hNodes, hTokens⟩ := exists_leaves hWords hSpelled
  -- The label goes with the first word of the declaration.
  have hLabel : ∀ {w : Word} {more : List Word}, d.words = w :: more →
      first.terminal.label = w.terminal.label := by
    intro w more hHead
    rw [hHead] at hWords
    exact congrArg (fun w : Word => w.terminal.label) (List.cons.inj hWords).1
  -- A list of words of one kind makes as many leaves of this kind.
  have hList : ∀ {kind : Terminal} {one : List Char} {more : List (List Char)},
      contentWords d.words = (one :: more).map (Word.mk kind) →
        tokens ≠ [] ∧ ∀ t ∈ tokens, t.Spells kind := by
    intro kind one more hContents
    rw [hContents] at hTokens
    obtain ⟨hLength, hSpells⟩ := spells_of_forall₂ hTokens
    refine ⟨fun hNone => ?_, hSpells⟩
    rw [hNone] at hLength
    cases hLength
  show (Tree.branch first.terminal.label _ (contentNodes (first :: rest))).WellFormed
  rw [hNodes]
  cases d with
  | description line =>
    rw [hLabel rfl]
    cases hTokens with
    | cons hLine hNone =>
      cases hNone
      exact .description hLine
  | tape one more =>
    rw [hLabel rfl]
    have hContents : contentWords (Declaration.tape one more).words =
        (one :: more).map (Word.mk .bit) := by
      rw [Declaration.words, contentWords_cons, contentWords_append, contentWords_digits,
        contentWords_closingWords, List.append_nil]
      rfl
    exact .tape (hList hContents).1 (hList hContents).2
  | initialState state =>
    rw [hLabel rfl]
    cases hTokens with
    | cons hState hNone =>
      cases hNone
      exact .initialState hState
  | finalStates one more =>
    rw [hLabel rfl]
    have hContents : contentWords (Declaration.finalStates one more).words =
        (one :: more).map (Word.mk .state) := by
      simp only [Declaration.words, contentWords_cons, contentWords_append,
        contentWords_listedWords (t := .state) rfl, contentWords_closingWords, List.append_nil]
      rfl
    exact .finalStates (hList hContents).1 (hList hContents).2
  | composition one more =>
    rw [hLabel rfl]
    have hContents : contentWords (Declaration.composition one more).words =
        (one :: more).map (Word.mk .library) := by
      simp only [Declaration.words, contentWords_cons, contentWords_append,
        contentWords_listedWords (t := .library) rfl, contentWords_closingWords, List.append_nil]
      rfl
    exact .composition (hList hContents).1 (hList hContents).2
  | rule state value write movement next =>
    rw [hLabel rfl]
    have hContents : contentWords (Declaration.rule state value write movement next).words =
        [⟨.state, state⟩, ⟨.bit, value⟩, ⟨.bit, write⟩, ⟨.movement, movement⟩, ⟨.state, next⟩] := rfl
    rw [hContents] at hTokens
    rcases hTokens with _ | ⟨hState, _ | ⟨hValue, _ | ⟨hWrite, _ | ⟨hMovement, _ | ⟨hNext, ⟨⟩⟩⟩⟩⟩⟩
    exact .rule hState hValue hWrite hMovement hNext

/-! ## §3 Records of Branches -/

namespace Token.Spells

variable {t : Token} {kind : Terminal}

/-- A word of a kind is found among the words of this kind. -/
theorem named_beq (hSpells : t.Spells kind) : (t.kind == kind.name) = true :=
  beq_iff_eq.2 hSpells.named

/-- A digit is kept as a digit. -/
theorem isBit (hSpells : t.Spells .bit) : (Field.ofToken t).IsBit := by
  rcases hSpells.spelling with hZero | hOne
  · exact .inl (String.toList_inj.1 hZero)
  · exact .inr (String.toList_inj.1 hOne)

end Token.Spells

@[simp] theorem tokensOf_leaves (tokens : List Token) : tokensOf (tokens.map .leaf) = tokens := by
  induction tokens with
  | nil => rfl
  | cons t tokens ih =>
    rw [List.map_cons]
    show t :: tokensOf (tokens.map .leaf) = _
    rw [ih]

/-- Where all words are of one kind, all of them are fields of this kind. -/
theorem fieldsOf_leaves {kind : Terminal} {tokens : List Token}
    (hTokens : ∀ t ∈ tokens, t.Spells kind) :
    fieldsOf kind (tokens.map .leaf) = tokens.map Field.ofToken := by
  rw [fieldsOf, tokensOf_leaves, List.filter_eq_self.2 fun t ht => (hTokens t ht).named_beq]

/-- A word that is all there is in a branch is found. -/
theorem firstField_leaf {kind : Terminal} {t : Token} (hSpells : t.Spells kind) :
    firstField kind [.leaf t] = .ok (.ofToken t) := by
  have hAll : ∀ other ∈ [t], other.Spells kind := by
    simpa using hSpells
  have hOne := fieldsOf_leaves hAll
  rw [List.map_singleton, List.map_singleton] at hOne
  rw [firstField, hOne]

/-- **Records**: a well-formed branch has a record, which is well formed. -/
theorem Record.exists_of_wellFormed {node : Tree} (hForm : node.WellFormed) :
    ∃ r, Record.ofTree? node = .ok (some r) ∧ r.WellFormed := by
  -- What is asked of the words of a list is asked of the fields that they become.
  have hFields : ∀ {tokens : List Token} {P : Field → Prop}, tokens ≠ [] →
      (∀ t ∈ tokens, P (.ofToken t)) →
        tokens.map Field.ofToken ≠ [] ∧ ∀ f ∈ tokens.map Field.ofToken, P f := by
    intro tokens P hSome hAll
    refine ⟨fun hNone => hSome (List.map_eq_nil_iff.1 hNone), fun f hf => ?_⟩
    obtain ⟨t, ht, rfl⟩ := List.mem_map.1 hf
    exact hAll t ht
  cases hForm with
  | @description span line hLine =>
    refine ⟨.description span (descriptionText line.text), ?_, trivial⟩
    simp only [Record.ofTree?, firstField_leaf hLine, ok_bind]
    rfl
  | @tape span bits hSome hBits =>
    refine ⟨_, rfl, ?_⟩
    rw [fieldsOf_leaves hBits]
    exact hFields hSome fun t ht => (hBits t ht).isBit
  | @initialState span state hState =>
    refine ⟨.initialState span (.ofToken state), ?_, hState.spelling⟩
    simp only [Record.ofTree?, firstField_leaf hState, ok_bind]
    rfl
  | @finalStates span states hSome hStates =>
    refine ⟨_, rfl, ?_⟩
    rw [fieldsOf_leaves hStates]
    exact hFields hSome fun t ht => (hStates t ht).spelling
  | @composition span names hSome hNames =>
    refine ⟨_, rfl, ?_⟩
    rw [fieldsOf_leaves hNames]
    exact hFields hSome fun t ht => (hNames t ht).spelling
  | rule hState hValue hWrite hMovement hNext =>
    exact ⟨_, rfl, _, _, _, _, _, rfl, hState.spelling, hValue.isBit, hWrite.isBit,
      hMovement.spelling, hNext.spelling⟩

/-- Well-formed branches have a record each. -/
theorem recordsOf_of_wellFormed {nodes : List Tree} (hForms : ∀ node ∈ nodes, node.WellFormed) :
    ∃ records, recordsOf nodes = .ok records ∧ ∀ r ∈ records, r.WellFormed := by
  induction nodes with
  | nil => exact ⟨[], rfl, by simp⟩
  | cons node nodes ih =>
    obtain ⟨r, hRecord, hForm⟩ := Record.exists_of_wellFormed (hForms node List.mem_cons_self)
    obtain ⟨records, hRecords, hRest⟩ :=
      ih fun other hOther => hForms other (List.mem_cons_of_mem node hOther)
    refine ⟨r :: records, ?_, ?_⟩
    · rw [recordsOf, hRecord, ok_bind, hRecords, ok_bind]
      rfl
    · simpa using ⟨hForm, hRest⟩

/-! ## §4 Texts -/

/-- The tree of a text is that of its words. -/
theorem Tree.exists_words_of_ofSource {source : String} {tree : Tree}
    (hTree : Tree.ofSource source = .ok tree) :
    ∃ lexemes, readWords source.toList = .ok lexemes ∧ tree = Tree.ofWords lexemes := by
  rw [Tree.ofSource, Tree.ofText?] at hTree
  cases hRead : readWords source.toList with
  | ok lexemes =>
    rw [hRead] at hTree
    exact ⟨lexemes, rfl, (Except.ok.inj hTree).symm⟩
  | error e =>
    rw [hRead] at hTree
    cases hTree

/-- The tree of words that were read has the root of a program, and well-formed branches. -/
theorem Tree.wellFormed_ofWords {source : String} {lexemes : List Lexeme}
    (hRead : readWords source.toList = .ok lexemes) :
    ∃ span nodes, Tree.ofWords lexemes = .branch "start" span nodes ∧
      ∀ node ∈ nodes, node.WellFormed := by
  refine ⟨_, branchesOf (declarations [] lexemes), rfl, fun node hNode => ?_⟩
  obtain ⟨layout, hText, hValid, hFollow, rfl⟩ := readFrom_eq_ok_iff.1 hRead
  obtain ⟨program, hWords⟩ := (Place.follow?_between_iff hValid.spelled).1 hFollow
  have hDecomposes : Decomposes source layout program := ⟨hText, hValid, hWords⟩
  obtain ⟨block, hBlock, hBranch⟩ := List.mem_filterMap.1 hNode
  cases block with
  | nil => cases hBranch
  | cons first rest =>
    obtain rfl := Option.some.inj hBranch
    -- The words of a branch are those of a declaration of the program.
    have hCut := List.mem_map_of_mem (f := List.map Lexeme.word) hBlock
    rw [words_declarations hDecomposes.words_lexemes] at hCut
    obtain ⟨d, hd, hOf⟩ := List.mem_map.1 hCut
    apply Tree.wellFormed_ofDeclaration hOf.symm
    intro w hw
    apply hValid.spelled
    rw [hWords]
    exact List.mem_flatMap.2 ⟨d, hd, hw⟩

/-- The records of a text are well formed. -/
theorem Program.wellFormed_of_ofSource {source : String} {p : Program}
    (hProgram : Program.ofSource source = .ok p) : ∀ r ∈ p.records, r.WellFormed := by
  obtain ⟨lexemes, hRead, hOfTree⟩ := Program.ofTree_of_ofSource hProgram
  obtain ⟨span, nodes, hTree, hForms⟩ := Tree.wellFormed_ofWords hRead
  obtain ⟨records, hRecords, hAll⟩ := recordsOf_of_wellFormed hForms
  rw [hTree, Program.ofTree, hRecords, ok_bind] at hOfTree
  obtain rfl := Except.ok.inj hOfTree
  exact hAll

end TapeMachine
