import TapeMachine.Proofs.DocumentedFaults
import TapeMachine.Proofs.Language.Viable
import TapeMachine.Proofs.Wordings

/-!
# The Code of a Library

The code of a library is a text of which only the rules count. A text with nothing but rules and
descriptions can also be built, and then both ways of reading it come to the same table, or to the
same fault.

* `Program.ruleWords` are the words of the rule declarations of a program, and `Program.rules` the
  rules that they declare;
* `Library.rulesOf_eq_ok_iff` and `Library.rulesOf_eq_error_iff`: what a code is read as, and which of
  its faults is found first;
* `map_table_build`: the table that is built from a text of rules is that of its code;
* `Program.exists_rules_alone`: the rules of a program are also those of a text without anything else;
* `complaint?_library`: what the reader is told of a library;
* `Library.table_reads_as_build` puts these together.
-/

namespace TapeMachine

/-! ## §1 Words of Rules -/

/-- The texts of the words of a rule declaration. -/
def Record.ruleWords? : Record → Option (List String)
  | .rule _ fields => some (fields.map Field.text)
  | _ => none

/-- The fourth of some words is the symbol of a movement. -/
def MovementKnown (words : List String) : Prop :=
  ∃ symbol, words[3]? = some symbol ∧ symbol ∈ movementSymbols

/-- The rule that five words declare. A value is 1 if its word is the digit 1, and else 0. -/
def Rule.ofWords? : List String → Option Rule
  | [state, value, write, movement, next] =>
    (Movement.ofSymbol? movement).map fun move => ⟨state, value == "1", write == "1", move, next⟩
  | _ => none

/-- Which rule a declaration is read as depends on its words, and not on where they stand. -/
theorem Rule.toOption_ofFields (fields : List Field) :
    (Rule.ofFields fields).toOption = Rule.ofWords? (fields.map Field.text) := by
  rcases fields with _ | ⟨state, _ | ⟨value, _ | ⟨write, _ | ⟨movement, _ | ⟨next, _ | ⟨more, rest⟩⟩⟩⟩⟩⟩
  case cons.cons.cons.cons.cons.nil =>
    simp only [Rule.ofFields, List.map_cons, List.map_nil, Rule.ofWords?]
    cases Movement.ofSymbol? movement.text <;> rfl
  all_goals rfl

namespace Program

variable {p : Program} {source : String}

/-- The words of the rule declarations of a program, in order. -/
def ruleWords (p : Program) : List (List String) := p.records.filterMap Record.ruleWords?

/-- The rules of a program, in order. -/
def rules (p : Program) : List Rule := p.ruleWords.filterMap Rule.ofWords?

/-- All rule declarations of a program have movements that there are. -/
def MovementsKnown (p : Program) : Prop := ∀ words ∈ p.ruleWords, MovementKnown words

/-- The first movement of a program that there is not, and where it stands. -/
structure FirstUnknown (p : Program) (movement : Field) (here : Span) : Prop where
  declared : ∃ front state value write next back,
    p.ruleFields = front ++ [state, value, write, movement, next] :: back ∧
      ∀ fields ∈ front, MovementKnown (fields.map Field.text)
  unknown : movement.text ∉ movementSymbols
  place : movement.span = some here

theorem ruleWords_eq (p : Program) :
    p.ruleWords = p.ruleFields.map fun fields => fields.map Field.text := by
  rw [ruleWords, ruleFields, List.map_filterMap]
  congr 1
  funext r
  cases r <;> rfl

theorem rules_eq (p : Program) :
    p.rules = p.ruleFields.filterMap fun fields => (Rule.ofFields fields).toOption := by
  rw [rules, ruleWords_eq, List.filterMap_map]
  congr 1
  funext fields
  exact (Rule.toOption_ofFields fields).symm

/-- A rule declaration of a text has five words, and it is known where the fourth stands. -/
theorem exists_words (hProgram : Program.ofSource source = .ok p) {fields : List Field}
    (hMem : fields ∈ p.ruleFields) :
    ∃ state value write movement next here,
      fields = [state, value, write, movement, next] ∧ movement.span = some here := by
  obtain ⟨r, hr, hFields⟩ := List.mem_filterMap.1 hMem
  cases r with
  | rule span found =>
    obtain rfl : found = fields := Option.some.inj hFields
    have hPlaced := Program.placed_of_ofSource hProgram _ hr
    obtain ⟨state, value, write, movement, next, rfl⟩ := hPlaced.five_fields
    obtain ⟨here, hHere⟩ := hPlaced.places movement (by simp [Record.fields])
    exact ⟨state, value, write, movement, next, here, rfl, hHere⟩
  | _ => cases hFields

/-- A rule declaration of a text can be read exactly if its movement is known. -/
theorem exists_rule_iff (hProgram : Program.ofSource source = .ok p) {fields : List Field}
    (hMem : fields ∈ p.ruleFields) :
    (∃ r, Rule.ofFields fields = .ok r) ↔ MovementKnown (fields.map Field.text) := by
  obtain ⟨state, value, write, movement, next, here, rfl, -⟩ := exists_words hProgram hMem
  rw [exists_ofFields_iff]
  simp [MovementKnown]

theorem movementsKnown_iff :
    p.MovementsKnown ↔ ∀ fields ∈ p.ruleFields, MovementKnown (fields.map Field.text) := by
  rw [MovementsKnown, ruleWords_eq, List.forall_mem_map]

end Program

/-! ## §2 Reading a Code -/

namespace Library

/-- **What a code is read as**: it is in the language, its movements are known, and the rules are those
that are declared. -/
theorem rulesOf_eq_ok_iff {code : String} {rules : List Rule} :
    rulesOf code = .ok rules ↔
      ∃ p, Program.ofSource code = .ok p ∧ p.MovementsKnown ∧ rules = p.rules := by
  have hReads {p : Program} (hProgram : Program.ofSource code = .ok p) :
      p.ruleFields.mapM Rule.ofFields = .ok rules ↔ p.MovementsKnown ∧ rules = p.rules := by
    rw [mapM_eq_ok_iff, p.rules_eq, Program.movementsKnown_iff]
    exact and_congr_left fun _ => forall₂_congr fun fields hMem =>
      Program.exists_rule_iff hProgram hMem
  rw [rulesOf, bind_eq_ok_iff]
  constructor
  · intro hGiven
    rcases hGiven with ⟨p, hProgram, hRules⟩
    exact ⟨p, hProgram, (hReads hProgram).1 hRules⟩
  · intro hGiven
    rcases hGiven with ⟨p, hProgram, hRules⟩
    exact ⟨p, hProgram, (hReads hProgram).2 hRules⟩

/-- **Faults of a code**: it is not in the language, or it has a first movement that there is not. -/
theorem rulesOf_eq_error_iff {code : String} {fault : Fault} :
    rulesOf code = .error fault ↔
      Program.ofSource code = .error fault ∨
        ∃ p movement here, Program.ofSource code = .ok p ∧ p.FirstUnknown movement here ∧
          fault = .unknownMovement (some here) movement.text := by
  cases hProgram : Program.ofSource code with
  | error other => simp [rulesOf, hProgram]
  | ok p =>
    rw [rulesOf, hProgram, ok_bind, mapM_eq_error_iff]
    constructor
    · intro hGiven
      rcases hGiven with ⟨front, fields, back, hSplit, hFront, hFault⟩
      have hMem : fields ∈ p.ruleFields := by simp [hSplit]
      obtain ⟨state, value, write, movement, next, here, rfl, hHere⟩ :=
        Program.exists_words hProgram hMem
      have hUnknown : movement.text ∉ movementSymbols := by
        intro hKnown
        obtain ⟨r, hRule⟩ := exists_ofFields_iff.2 hKnown
        rw [hRule] at hFault
        cases hFault
      rw [Rule.ofFields_of_unknown hUnknown, hHere] at hFault
      refine .inr ⟨p, movement, here, rfl, ⟨⟨front, state, value, write, next, back, hSplit, ?_⟩,
        hUnknown, hHere⟩, (Except.error.inj hFault).symm⟩
      intro other hOther
      exact (Program.exists_rule_iff hProgram (by simp [hSplit, hOther])).1 (hFront other hOther)
    · intro hGiven
      rcases hGiven with hRejected | ⟨q, movement, here, hSame, hFirst, rfl⟩
      · cases hRejected
      · obtain rfl := Except.ok.inj hSame
        obtain ⟨front, state, value, write, next, back, hSplit, hFront⟩ := hFirst.declared
        refine ⟨front, _, back, hSplit, fun other hOther => ?_, ?_⟩
        · exact (Program.exists_rule_iff hProgram (by simp [hSplit, hOther])).2 (hFront other hOther)
        · rw [Rule.ofFields_of_unknown hFirst.unknown, hFirst.place]

variable {l : Library}

/-- The table of a library is that of the rules in its code. -/
theorem table_eq_ok_iff {t : Table} :
    l.table = .ok t ↔ ∃ rules, rulesOf l.code = .ok rules ∧ t = .ofList rules := by
  unfold table
  cases rulesOf l.code with
  | ok rules => simp [eq_comm]
  | error fault => simp

/-- A fault of the code is one of the library, with its message and its place. -/
theorem table_of_fault {fault : Fault} {c : Complaint} (hFault : rulesOf l.code = .error fault)
    (hComplaint : fault.complaint? = some c) :
    l.table = .error (.library l.name (.code c.message c.position)) := by
  simp only [table, hFault, faultOf, hComplaint]

end Library

/-! ## §3 Codes That Are Built -/

/-- The record of a rule or of a description. -/
def Record.Plain : Record → Prop
  | .description .. | .rule .. => True
  | _ => False

namespace Draft

/-- A description is taken, and leaves the table as it is. -/
theorem take_description (d : Draft) (span : Option Span) (text : String) :
    ∃ e, d.take (.description span text) = .ok e ∧ e.table = d.table := by
  refine ⟨_, rfl, ?_⟩
  split <;> rfl

/-- A rule is taken if its fields can be read, and is then inserted. -/
theorem take_rule (d : Draft) (span : Option Span) (fields : List Field) :
    d.take (.rule span fields) = (Rule.ofFields fields).map fun rule => { d with
      table := d.table.insert rule
      warnings := d.warnings ++ (d.table.overwrite? rule .warn span).toList } := by
  show d.accept (.rule span fields) = _
  rw [accept]
  cases Rule.ofFields fields <;> rfl

/-- **Plain records** come to the table of their rules in order, or to the first fault in one. -/
theorem map_table_foldlM_take {records : List Record} (hPlain : ∀ r ∈ records, r.Plain) (d : Draft)
    (span : Option Span) :
    (records.foldlM take d).map Draft.table =
      ((Program.mk span records).ruleFields.mapM Rule.ofFields).map d.table.insertAll := by
  -- The draft is left open, since each rule is inserted into the table that there is by then.
  induction records generalizing d with
  | nil => rfl
  | cons r rest ih =>
    obtain ⟨hFirst, hRest⟩ := List.forall_mem_cons.1 hPlain
    rw [List.foldlM_cons]
    cases r with
    | description place text =>
      obtain ⟨e, hTake, hSame⟩ := d.take_description place text
      rw [hTake, ok_bind, ih hRest, hSame]
      rfl
    | rule place fields =>
      have hFields : (Program.mk span (.rule place fields :: rest)).ruleFields =
        fields :: (Program.mk span rest).ruleFields := rfl
      rw [take_rule, hFields, List.mapM_cons]
      cases Rule.ofFields fields with
      | error fault => rfl
      | ok rule =>
        refine (ih hRest _).trans ?_
        rw [ok_bind]
        -- What is left is whether the other rules can be read.
        cases (Program.mk span rest).ruleFields.mapM Rule.ofFields <;> rfl
    | tape | initialState | finalStates | composition | other => exact hFirst.elim

end Draft

/-- **Built codes**: a text of rules and descriptions is built with the table of its rules, or with
the fault that there is in reading them. -/
theorem map_table_build {source : String}
    (hPlain : ∀ p, Program.ofSource source = .ok p → ∀ r ∈ p.records, r.Plain) :
    (build source).map (fun built => built.machine.table) =
      (Library.rulesOf source).map Table.ofList := by
  unfold build Library.rulesOf
  cases hProgram : Program.ofSource source with
  | error fault => rfl
  | ok p =>
    rw [ok_bind, ok_bind, buildRecords]
    refine Eq.trans ?_ (Draft.map_table_foldlM_take (hPlain p hProgram) {} p.span)
    cases p.records.foldlM Draft.take {} <;> rfl

/-! ## §4 What the Rest of a Code Does -/

/-- The place of a word does not belong to what it says. -/
theorem Record.ruleWords?_unplaced (r : Record) : r.unplaced.ruleWords? = r.ruleWords? := by
  cases r with
  | rule span fields =>
    show some ((fields.map Field.unplaced).map Field.text) = some (fields.map Field.text)
    rw [List.map_map]
    rfl
  | _ => rfl

namespace Program

variable {p q : Program} {source : String}

/-- Programs with the same words of rules have the same first unknown movement, each at its own
place. -/
theorem FirstUnknown.of_ruleWords {other : String} (hOther : Program.ofSource other = .ok q)
    (hSame : q.ruleWords = p.ruleWords) {movement : Field} {here : Span}
    (hFirst : p.FirstUnknown movement here) :
    ∃ movement' there, q.FirstUnknown movement' there ∧ movement'.text = movement.text := by
  obtain ⟨front, state, value, write, next, back, hSplit, hFront⟩ := hFirst.declared
  rw [ruleWords_eq, ruleWords_eq, hSplit, List.map_append, List.map_cons] at hSame
  obtain ⟨front', behind, hSplit', hFront', hBehind⟩ := List.map_eq_append_iff.1 hSame
  obtain ⟨fields, back', rfl, hWords, -⟩ := List.map_eq_cons_iff.1 hBehind
  have hDeclared : fields ∈ q.ruleFields := by simp [hSplit']
  obtain ⟨state', value', write', movement', next', there, rfl, hThere⟩ :=
    exists_words hOther hDeclared
  have hText : movement'.text = movement.text := by
    simp only [List.map_cons, List.cons.injEq] at hWords
    exact hWords.2.2.2.1
  refine ⟨movement', there, ⟨⟨front', state', value', write', next', back', hSplit', ?_⟩,
    hText ▸ hFirst.unknown, hThere⟩, hText⟩
  -- The declarations in front have the words of those that they correspond to.
  intro other hMem
  have hMem' : other.map Field.text ∈ front.map fun fields => fields.map Field.text :=
    hFront' ▸ List.mem_map_of_mem hMem
  obtain ⟨original, hOriginal, hEqual⟩ := List.mem_map.1 hMem'
  exact hEqual ▸ hFront original hOriginal

/-- **Rules alone**: the rules of a program are also those of a text with nothing else in it. -/
theorem exists_rules_alone (hProgram : Program.ofSource source = .ok p) :
    ∃ text q, Program.ofSource text = .ok q ∧ (∀ r ∈ q.records, ∃ span fields, r = .rule span fields) ∧
      q.ruleWords = p.ruleWords := by
  obtain ⟨layout, program, hDecomposes⟩ := decomposes_of_ofSource hProgram
  obtain ⟨p', hSame, hRecords⟩ := hDecomposes.exists_program
  obtain rfl : p = p' := Except.ok.inj (hProgram.symm.trans hSame)
  -- The words of the rules are put on lines of their own.
  let rules := program.filter fun d => d.record.ruleWords?.isSome
  let words := rules.flatMap Declaration.words
  have hSpelled : ∀ w ∈ words, w.Spelled := by
    intro w hw
    obtain ⟨d, hd, hWord⟩ := List.mem_flatMap.1 hw
    refine hDecomposes.valid.spelled w ?_
    rw [hDecomposes.words]
    exact List.mem_flatMap.2 ⟨d, List.mem_of_mem_filter hd, hWord⟩
  have hAlone : Decomposes (String.ofList (Layout.onLines words).text) (Layout.onLines words) rules :=
    ⟨String.toList_ofList.symm, Layout.valid_onLines hSpelled, Layout.words_onLines words⟩
  obtain ⟨q, hAlone, hKept⟩ := hAlone.exists_program
  -- What the rules of a program say can be read off its declarations.
  have hRead {r : Program} {declarations : List Declaration}
      (hContent : r.records.map Record.unplaced = declarations.map Declaration.record) :
      r.ruleWords = declarations.filterMap fun d => d.record.ruleWords? := by
    have hUnplaced : r.ruleWords = (r.records.map Record.unplaced).filterMap Record.ruleWords? := by
      rw [List.filterMap_map, ruleWords]
      congr 1
      funext record
      exact record.ruleWords?_unplaced.symm
    rw [hUnplaced, hContent, List.filterMap_map]
    rfl
  refine ⟨_, q, hAlone, fun r hr => ?_, ?_⟩
  · have hMem : r.unplaced ∈ rules.map Declaration.record := hKept ▸ List.mem_map_of_mem hr
    obtain ⟨d, hd, hForm⟩ := List.mem_map.1 hMem
    have hRule : r.ruleWords?.isSome = true := by
      rw [← r.ruleWords?_unplaced, ← hForm]
      exact (List.mem_filter.1 hd).2
    cases r with
    | rule span fields => exact ⟨span, fields, rfl⟩
    | _ => cases hRule
  · rw [hRead hKept, hRead hRecords, List.filterMap_filter]
    congr 1
    funext d
    cases d.record.ruleWords? <;> rfl

end Program

/-! ## §5 Composed and Built Alike -/

/-- What the reader is told of a library that is not what it should be. -/
def libraryComplaint (name reason : String) : Complaint where
  origin := .library
  code := "CE0001"
  message := "built-in library '" ++ name ++ "' is malformed: " ++ reason
  position := Span.point 1 1

theorem complaint?_library (name : String) (flaw : LibraryFlaw) :
    (Fault.library name flaw).complaint? = some (libraryComplaint name flaw.reason) := by
  have hWording : Catalog.wording "CE0001" [("name", name), ("reason", flaw.reason)] =
      "built-in library '" ++ name ++ "' is malformed: " ++ flaw.reason :=
    Catalog.wording_eq rfl rfl
  rw [Fault.complaint?, Complaint.ofLibrary, hWording]
  rfl

namespace Library

variable {l : Library}

/-- The message and the place of a fault are the reason that a library is given. -/
theorem complaint?_of_fault {fault : Fault} {c : Complaint} (hFault : rulesOf l.code = .error fault)
    (hComplaint : fault.complaint? = some c) :
    ∃ refusal, l.table = .error refusal ∧ refusal.complaint? =
      some (libraryComplaint l.name (c.message ++ " at " ++ c.position.text)) := by
  refine ⟨_, table_of_fault hFault hComplaint, ?_⟩
  rw [complaint?_library]
  rfl

/-- Codes with the same words of rules have the same table, or the same complaint about a movement,
each at its own place. -/
theorem table_of_ruleWords {other : String} {p q : Program}
    (hProgram : Program.ofSource l.code = .ok p) (hOther : Program.ofSource other = .ok q)
    (hSame : q.ruleWords = p.ruleWords) :
    (∃ t, l.table = .ok t ∧ { l with code := other }.table = .ok t) ∨
      ∃ message here there, l.table = .error (.library l.name (.code message here)) ∧
        { l with code := other }.table = .error (.library l.name (.code message there)) := by
  cases hRules : rulesOf l.code with
  | ok rules =>
    obtain ⟨p', hProgram', hKnown, rfl⟩ := rulesOf_eq_ok_iff.1 hRules
    obtain rfl : p = p' := Except.ok.inj (hProgram.symm.trans hProgram')
    refine .inl ⟨_, table_eq_ok_iff.2 ⟨_, hRules, rfl⟩, table_eq_ok_iff.2 ⟨p.rules, ?_, rfl⟩⟩
    refine rulesOf_eq_ok_iff.2 ⟨q, hOther, ?_, ?_⟩
    · rw [Program.MovementsKnown, hSame]
      exact hKnown
    · rw [Program.rules, Program.rules, hSame]
  | error fault =>
    rcases rulesOf_eq_error_iff.1 hRules with hRejected | ⟨p', movement, here, hProgram', hFirst, rfl⟩
    · rw [hProgram] at hRejected
      cases hRejected
    · obtain rfl : p = p' := Except.ok.inj (hProgram.symm.trans hProgram')
      obtain ⟨movement', there, hFirst', hText⟩ := hFirst.of_ruleWords hOther hSame
      have hRules' : rulesOf other = .error (.unknownMovement (some there) movement.text) :=
        rulesOf_eq_error_iff.2 (.inr ⟨q, movement', there, hOther, hFirst', by rw [hText]⟩)
      have hHere := table_of_fault hRules (complaint?_unknownMovement here movement.text)
      have hThere := table_of_fault (l := { l with code := other }) hRules'
        (complaint?_unknownMovement there movement.text)
      exact .inr ⟨_, here, there, hHere, hThere⟩

/-- **Composed and built alike**: a code that is not in the language, or has only rules and
descriptions, gives a table exactly if it can be built, and then the machine has this table; if it
cannot, the library is complained about with the message and the place of the complaint about the
build. Of any other code in the language only the words of its rules count: texts that have the same
give the same table, or complain about the same movement where each has it, and one of them has
nothing but these rules in it. -/
theorem table_reads_as_build (l : Library) :
    ((∀ p, Program.ofSource l.code = .ok p → ∀ r ∈ p.records, r.Plain) →
      ((∃ t, l.table = .ok t) ↔ ∃ built, build l.code = .ok built) ∧
      (∀ t built, l.table = .ok t → build l.code = .ok built → t = built.machine.table) ∧
      ∀ fault, build l.code = .error fault → ∃ c refusal, fault.complaint? = some c ∧
        l.table = .error refusal ∧ refusal.complaint? =
          some (libraryComplaint l.name (c.message ++ " at " ++ c.position.text))) ∧
    ∀ p, Program.ofSource l.code = .ok p →
      (∀ other q, Program.ofSource other = .ok q → q.ruleWords = p.ruleWords →
        (∃ t, l.table = .ok t ∧ { l with code := other }.table = .ok t) ∨
        ∃ message here there, l.table = .error (.library l.name (.code message here)) ∧
          { l with code := other }.table = .error (.library l.name (.code message there))) ∧
      ∃ other q, Program.ofSource other = .ok q ∧ q.ruleWords = p.ruleWords ∧
        ∀ r ∈ q.records, ∃ span fields, r = .rule span fields := by
  refine ⟨fun hPlain => ?_, fun p hProgram => ⟨fun other q hOther hSame => ?_, ?_⟩⟩
  · have hTables := map_table_build hPlain
    cases hBuild : build l.code with
    | ok built =>
      rw [hBuild] at hTables
      obtain ⟨rules, hRules, hTable⟩ := map_eq_ok_iff.1 hTables.symm
      have hOk : l.table = .ok built.machine.table := table_eq_ok_iff.2 ⟨rules, hRules, hTable.symm⟩
      refine ⟨⟨fun _ => ⟨built, rfl⟩, fun _ => ⟨_, hOk⟩⟩, fun t again hTable hAgain => ?_,
        fun fault hFails => ?_⟩
      · obtain rfl := Except.ok.inj hAgain
        exact Except.ok.inj (hTable.symm.trans hOk)
      · cases hFails
    | error fault =>
      have hFault : rulesOf l.code = .error fault :=
        map_eq_error_iff.1 (hTables.symm.trans (map_eq_error_iff.2 hBuild))
      obtain ⟨c, hComplaint, -⟩ := documented_of_build hBuild
      obtain ⟨refusal, hRefused, hTold⟩ := complaint?_of_fault hFault hComplaint
      refine ⟨⟨fun hTable => ?_, fun hBuilt => ?_⟩, fun t again _ hAgain => ?_, fun other hFails => ?_⟩
      · obtain ⟨t, hTable⟩ := hTable
        rw [hRefused] at hTable
        cases hTable
      · obtain ⟨built, hBuilt⟩ := hBuilt
        cases hBuilt
      · cases hAgain
      · obtain rfl := Except.error.inj hFails
        exact ⟨c, refusal, hComplaint, hRefused, hTold⟩
  · exact table_of_ruleWords hProgram hOther hSame
  · obtain ⟨text, q, hAlone, hRules, hSame⟩ := Program.exists_rules_alone hProgram
    exact ⟨text, q, hAlone, hSame, hRules⟩

end Library

set_option maxRecDepth 100000 in
/-- A movement that there is not behind a description, and the same rule behind a tape. -/
theorem Library.table_reads_as_build_of_unknown_movement :
    let l : Library := ⟨"clear", "", "a", "b", ["a", "b"], "/// Clears\n(a,1,0,X,b);"⟩
    (∃ refusal, l.table = .error refusal ∧ refusal.complaint? = some (libraryComplaint "clear"
      "\"X\" is an unknown movement at 2:8 to 2:9")) ∧
    ∃ message here there, l.table = .error (.library "clear" (.code message here)) ∧
      { l with code := "\x7b1\x7d;(a,1,0,X,b);" }.table =
        .error (.library "clear" (.code message there)) := by
  intro l
  have hProgram : Program.ofSource l.code = .ok ⟨some ⟨1, 1, some 2, some 13⟩,
      [.description (some ⟨1, 1, some 1, some 11⟩) "Clears",
        .rule (some ⟨2, 1, some 2, some 13⟩) [⟨"a", some ⟨2, 2, some 2, some 3⟩⟩,
          ⟨"1", some ⟨2, 4, some 2, some 5⟩⟩, ⟨"0", some ⟨2, 6, some 2, some 7⟩⟩,
          ⟨"X", some ⟨2, 8, some 2, some 9⟩⟩, ⟨"b", some ⟨2, 10, some 2, some 11⟩⟩]]⟩ := by
    unfold l
    rfl
  have hOther : Program.ofSource "\x7b1\x7d;(a,1,0,X,b);" = .ok ⟨some ⟨1, 1, some 1, some 17⟩,
      [.tape (some ⟨1, 1, some 1, some 5⟩) [⟨"1", some ⟨1, 2, some 1, some 3⟩⟩],
        .rule (some ⟨1, 5, some 1, some 17⟩) [⟨"a", some ⟨1, 6, some 1, some 7⟩⟩,
          ⟨"1", some ⟨1, 8, some 1, some 9⟩⟩, ⟨"0", some ⟨1, 10, some 1, some 11⟩⟩,
          ⟨"X", some ⟨1, 12, some 1, some 13⟩⟩, ⟨"b", some ⟨1, 14, some 1, some 15⟩⟩]]⟩ := rfl
  have hFails : build l.code =
      .error (.unknownMovement (some ⟨2, 8, some 2, some 9⟩) "X") := by
    unfold l
    rfl
  obtain ⟨hBuilds, hRest⟩ := Library.table_reads_as_build l
  obtain ⟨-, -, hReports⟩ := hBuilds (by
    intro p hSame r hr
    obtain rfl := Except.ok.inj (hProgram.symm.trans hSame)
    simp only [List.mem_cons, List.not_mem_nil, or_false] at hr
    rcases hr with rfl | rfl <;> trivial)
  obtain ⟨c, refusal, hComplaint, hRefused, hTold⟩ := hReports _ hFails
  refine ⟨⟨refusal, hRefused, ?_⟩, ?_⟩
  · rw [complaint?_unknownMovement] at hComplaint
    obtain rfl := Option.some.inj hComplaint
    exact hTold
  · obtain ⟨hSame, -⟩ := hRest _ hProgram
    rcases hSame _ _ hOther rfl with ⟨t, hTable, -⟩ | hBoth
    · rw [hRefused] at hTable
      cases hTable
    · exact hBoth

end TapeMachine
