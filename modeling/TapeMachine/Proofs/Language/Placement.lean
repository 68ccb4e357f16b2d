import Mathlib.Data.List.Forall2
import TapeMachine.Proofs.Language.Programs

/-!
# Records Know Where They Stand

What is read off a text has the form of a declaration, and every record and every word that is
kept in one knows its place. Faults are reported at these places.

* `Record.Placed` says this of a record;
* `Record.OfBlock` says that a record is read off some words, and `Program.exists_blocks` that the
  records of a program are read off the declarations in its text;
* `Program.placed_of_ofSource`: the records of a program are placed.
-/

namespace TapeMachine

/-! ## §1 Placed Records -/

/-- The words that are kept in a record. -/
def Record.fields : Record → List Field
  | .description .. | .other _ => []
  | .tape _ bits => bits
  | .initialState _ state => [state]
  | .finalStates _ states => states
  | .composition _ names => names
  | .rule _ fields => fields

/-- A record in the form of a declaration, whose place and those of its words are known. -/
structure Record.Placed (r : Record) : Prop where
  form : ∃ d : Declaration, r.unplaced = d.record
  place : ∃ span, r.span = some span
  places : ∀ f ∈ r.fields, ∃ span, f.span = some span

/-- A rule in the form of a declaration has five words. -/
theorem Record.Placed.five_fields {span : Option Span} {fields : List Field}
    (hPlaced : (Record.rule span fields).Placed) :
    ∃ state value write movement next, fields = [state, value, write, movement, next] := by
  obtain ⟨d, hForm⟩ := hPlaced.form
  cases d with
  | rule state value write movement next =>
    rw [Record.unplaced, Declaration.record, Record.rule.injEq] at hForm
    -- There is a word for each of the five, and none after them.
    obtain ⟨state', _, rfl, -, hRest⟩ := List.map_eq_cons_iff.1 hForm.2
    obtain ⟨value', _, rfl, -, hRest⟩ := List.map_eq_cons_iff.1 hRest
    obtain ⟨write', _, rfl, -, hRest⟩ := List.map_eq_cons_iff.1 hRest
    obtain ⟨movement', _, rfl, -, hRest⟩ := List.map_eq_cons_iff.1 hRest
    obtain ⟨next', _, rfl, -, hRest⟩ := List.map_eq_cons_iff.1 hRest
    obtain rfl := List.map_eq_nil_iff.1 hRest
    exact ⟨state', value', write', movement', next', rfl⟩
  | description | tape | initialState | finalStates | composition => cases hForm

/-! ## §2 Records of Blocks -/

/-- A word that was read, as it is kept in a record. -/
def Lexeme.field (w : Lexeme) : Field := .ofToken (.ofLexeme w)

/-- A record is read off the words of a declaration: it has their content, reaches from the first of
them to the last, and keeps some of them in order. -/
structure Record.OfBlock (block : List Lexeme) (r : Record) : Prop where
  form : ∃ d : Declaration, block.map Lexeme.word = d.words ∧ r.unplaced = d.record
  span : ∃ first rest, block = first :: rest ∧
    r.span = some (first.start.spanTo (rest.getLast?.getD first).stop)
  fields : r.fields.Sublist (block.map Lexeme.field)

theorem sublist_fieldsOf (kind : Terminal) (nodes : List Tree) :
    (fieldsOf kind nodes).Sublist ((tokensOf nodes).map Field.ofToken) :=
  List.filter_sublist.map Field.ofToken

/-- The first word of a kind is one of the words. -/
theorem sublist_of_firstField {kind : Terminal} {nodes : List Tree} {f : Field}
    (hFirst : firstField kind nodes = .ok f) :
    [f].Sublist ((tokensOf nodes).map Field.ofToken) := by
  refine List.Sublist.trans ?_ (sublist_fieldsOf kind nodes)
  unfold firstField at hFirst
  cases hFields : fieldsOf kind nodes with
  | nil =>
    rw [hFields] at hFirst
    cases hFirst
  | cons found rest =>
    rw [hFields] at hFirst
    obtain rfl := Except.ok.inj hFirst
    exact List.singleton_sublist.2 List.mem_cons_self

/-- A record stands where its branch does, and keeps words of its branch in order. -/
theorem Record.of_ofTree? {label : String} {span : Option Span} {nodes : List Tree} {r : Record}
    (hRecord : Record.ofTree? (.branch label span nodes) = .ok (some r)) :
    r.span = span ∧ r.fields.Sublist ((tokensOf nodes).map Field.ofToken) := by
  simp only [Record.ofTree?] at hRecord
  split at hRecord
  · -- A description keeps no word.
    obtain ⟨f, -, hDone⟩ := bind_eq_ok_iff.1 hRecord
    cases hDone
    exact ⟨rfl, List.nil_sublist _⟩
  · cases hRecord
    exact ⟨rfl, sublist_fieldsOf .bit nodes⟩
  · -- The one word of an initial state.
    obtain ⟨state, hFirst, hDone⟩ := bind_eq_ok_iff.1 hRecord
    cases hDone
    exact ⟨rfl, sublist_of_firstField hFirst⟩
  · cases hRecord
    exact ⟨rfl, sublist_fieldsOf .state nodes⟩
  · cases hRecord
    exact ⟨rfl, sublist_fieldsOf .library nodes⟩
  · -- All words of a rule are kept, whatever their kind.
    cases hRecord
    exact ⟨rfl, List.Sublist.refl _⟩
  · cases hRecord

/-- The record of the branch of a declaration is read off its words. -/
theorem Record.ofBlock_of_ofTree? {d : Declaration} {first : Lexeme} {rest : List Lexeme}
    {r : Record} (hWords : (first :: rest).map Lexeme.word = d.words)
    (hRecord : Record.ofTree? (Tree.ofDeclaration first rest) = .ok (some r)) :
    r.OfBlock (first :: rest) := by
  obtain ⟨hSpan, hFields⟩ := Record.of_ofTree? hRecord
  refine ⟨⟨d, hWords, ?_⟩, ⟨first, rest, rfl, hSpan⟩, ?_⟩
  · obtain ⟨other, hOther, hContent⟩ := ofTree?_ofDeclaration hWords
    rw [hRecord] at hOther
    rw [Option.some.inj (Except.ok.inj hOther)]
    exact hContent
  · change r.fields.Sublist ((tokensOf (contentNodes (first :: rest))).map Field.ofToken) at hFields
    rw [tokensOf_contentNodes, List.map_map] at hFields
    exact hFields.trans (List.filter_sublist.map _)

/-- The records of a program are read off its declarations, one off each, and stand where the branches
of the declarations do. -/
theorem ofBlock_of_recordsOf {program : List Declaration} {blocks : List (List Lexeme)}
    {records : List Record}
    (hBlocks : blocks.map (List.map Lexeme.word) = program.map Declaration.words)
    (hRecords : recordsOf (branchesOf blocks) = .ok records) :
    List.Forall₂ Record.OfBlock blocks records ∧
      (branchesOf blocks).map Tree.span? = records.map Record.span := by
  induction program generalizing blocks records with
  | nil =>
    obtain rfl := List.map_eq_nil_iff.1 hBlocks
    cases hRecords
    exact ⟨.nil, rfl⟩
  | cons d program ih =>
    obtain ⟨block, blocks, rfl, hBlock, hRest⟩ := List.map_eq_cons_iff.1 hBlocks
    cases block with
    | nil =>
      -- No declaration is without words.
      cases d <;> cases hBlock
    | cons first rest =>
      obtain ⟨r, hRecord, -⟩ := ofTree?_ofDeclaration hBlock
      change recordsOf (Tree.ofDeclaration first rest :: branchesOf blocks) = .ok records at hRecords
      rw [recordsOf, hRecord, ok_bind] at hRecords
      obtain ⟨others, hOthers, hDone⟩ := bind_eq_ok_iff.1 hRecords
      obtain rfl : r :: others = records := Except.ok.inj hDone
      obtain ⟨hOfBlocks, hSpans⟩ := ih hRest hOthers
      have hOfBlock := Record.ofBlock_of_ofTree? hBlock hRecord
      refine ⟨.cons hOfBlock hOfBlocks, ?_⟩
      show (Tree.ofDeclaration first rest).span? :: (branchesOf blocks).map Tree.span? = _
      rw [hSpans, List.map_cons, (Record.of_ofTree? hRecord).1]
      rfl

/-! ## §3 Programs -/

/-- A program is that of the words of its text. -/
theorem Program.ofTree_of_ofSource {source : String} {p : Program}
    (hProgram : Program.ofSource source = .ok p) :
    ∃ lexemes, readWords source.toList = .ok lexemes ∧
      Program.ofTree (Tree.ofWords lexemes) = .ok p := by
  obtain ⟨lexemes, hRead⟩ := readWords_of_ofSource hProgram
  have hTree : Tree.ofSource source = .ok (Tree.ofWords lexemes) := by
    rw [Tree.ofSource, Tree.ofText?, hRead]
    rfl
  rw [Program.ofSource, hTree, ok_bind] at hProgram
  refine ⟨lexemes, hRead, ?_⟩
  cases hOfTree : Program.ofTree (Tree.ofWords lexemes) with
  | error fault =>
    rw [hOfTree] at hProgram
    cases hProgram
  | ok q =>
    rw [hOfTree] at hProgram
    cases hProgram
    rfl

/-- **Blocks**: the records of a program are read off the words of its text, one off the words of each
declaration, and the program reaches from the first of them to the last. -/
theorem Program.exists_blocks {source : String} {p : Program}
    (hProgram : Program.ofSource source = .ok p) :
    ∃ (layout : Layout) (program : List Declaration) (blocks : List (List Lexeme)),
      Decomposes source layout program ∧
        blocks.flatten = lexemesFrom .start layout.pieces ∧
        List.Forall₂ Record.OfBlock blocks p.records ∧
        (branchesOf blocks).map Tree.span? = p.records.map Record.span ∧
        p.span = spanOfTrees (branchesOf blocks) := by
  obtain ⟨lexemes, hRead, hOfTree⟩ := Program.ofTree_of_ofSource hProgram
  obtain ⟨layout, hText, hValid, hFollow, rfl⟩ := readFrom_eq_ok_iff.1 hRead
  obtain ⟨program, hWords⟩ := (Place.follow?_between_iff hValid.spelled).1 hFollow
  have hDecomposes : Decomposes source layout program := ⟨hText, hValid, hWords⟩
  obtain ⟨records, hRecords, hDone⟩ := bind_eq_ok_iff.1 hOfTree
  cases hDone
  obtain ⟨hOfBlocks, hSpans⟩ :=
    ofBlock_of_recordsOf (words_declarations hDecomposes.words_lexemes) hRecords
  exact ⟨layout, program, _, hDecomposes, flatten_declarations [] _, hOfBlocks, hSpans, rfl⟩

theorem exists_block_of_mem {blocks : List (List Lexeme)} {records : List Record} {r : Record}
    (hBlocks : List.Forall₂ Record.OfBlock blocks records) (hr : r ∈ records) :
    ∃ block ∈ blocks, r.OfBlock block := by
  induction hBlocks with
  | nil => cases hr
  | cons hBlock _ ih =>
    rcases List.mem_cons.1 hr with rfl | hr
    · exact ⟨_, List.mem_cons_self, hBlock⟩
    · obtain ⟨block, hMem, hOfBlock⟩ := ih hr
      exact ⟨block, List.mem_cons_of_mem _ hMem, hOfBlock⟩

/-- **Placed**: every record that is read has the form of a declaration, and knows its place and
those of its words. -/
theorem Program.placed_of_ofSource {source : String} {p : Program}
    (hProgram : Program.ofSource source = .ok p) : ∀ r ∈ p.records, r.Placed := by
  intro r hr
  obtain ⟨layout, program, blocks, -, -, hBlocks, -⟩ := Program.exists_blocks hProgram
  obtain ⟨block, -, hOfBlock⟩ := exists_block_of_mem hBlocks hr
  obtain ⟨d, -, hForm⟩ := hOfBlock.form
  obtain ⟨first, rest, -, hSpan⟩ := hOfBlock.span
  refine ⟨⟨d, hForm⟩, ⟨_, hSpan⟩, fun f hf => ?_⟩
  obtain ⟨w, -, rfl⟩ := List.mem_map.1 (hOfBlock.fields.subset hf)
  exact ⟨_, rfl⟩

end TapeMachine
