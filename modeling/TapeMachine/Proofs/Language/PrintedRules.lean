import TapeMachine.Proofs.Language.Shapes
import TapeMachine.Proofs.Reordering

/-!
# Printed Rules

Rules are printed the way programs write them. A text of printed rules, with semicolons behind them
and any separators between them, is a program again, and its records are read as the same rules.
That holds of states with any name that can be written, whatever it looks like: where a state is due,
there is no other reading of it.

* `Rule.Worded`: the states of a rule have names that can be written;
* `Prints` relates rules to the texts in which they are printed, such as `ruleLines`;
* `Prints.exists_layout`: such a text is one of rule declarations;
* `worded_of_build`: the rules in the table of a machine that was built are worded;
* `build_reads_printed_rules` puts these together.
-/

namespace TapeMachine

/-! ## §1 Words of a Printed Rule -/

/-- The states of a rule have names that can be written. -/
structure Rule.Worded (r : Rule) : Prop where
  state : Terminal.state.Spelling r.state.toList
  next : Terminal.state.Spelling r.next.toList

/-- The declaration of a rule. -/
def Rule.declaration (r : Rule) : Declaration :=
  .rule r.state.toList (bitText r.value).toList (bitText r.write).toList
    r.movement.symbol.toList r.next.toList

/-- The words of a printed rule and the semicolon behind it, in pieces: blanks stand behind commas. -/
def Rule.pieces (gap : List Char) (r : Rule) : List Piece :=
  [⟨⟨.leftParen, ['(']⟩, gap⟩, ⟨⟨.state, r.state.toList⟩, []⟩, ⟨⟨.comma, [',']⟩, []⟩,
    ⟨⟨.bit, (bitText r.value).toList⟩, [' ']⟩, ⟨⟨.comma, [',']⟩, []⟩,
    ⟨⟨.bit, (bitText r.write).toList⟩, [' ']⟩, ⟨⟨.comma, [',']⟩, []⟩,
    ⟨⟨.movement, r.movement.symbol.toList⟩, [' ']⟩, ⟨⟨.comma, [',']⟩, []⟩,
    ⟨⟨.state, r.next.toList⟩, [' ']⟩, ⟨⟨.rightParen, [')']⟩, []⟩, ⟨⟨.semicolon, [';']⟩, []⟩]

theorem Rule.words_pieces (gap : List Char) (r : Rule) :
    (r.pieces gap).map Piece.toWord = r.declaration.words := rfl

/-- The letters of a printed rule. -/
theorem Rule.toList_text (r : Rule) :
    r.text.toList = '(' :: (r.state.toList ++ (',' :: ' ' :: ((bitText r.value).toList ++
      (',' :: ' ' :: ((bitText r.write).toList ++ (',' :: ' ' :: (r.movement.symbol.toList ++
        (',' :: ' ' :: (r.next.toList ++ [')']))))))))) := by
  simp [Rule.text, toString]

theorem textFrom_pieces (gap : List Char) (r : Rule) (last : List Char) (rest : List Piece) :
    Layout.textFrom last (r.pieces gap ++ rest) =
      gap ++ (r.text.toList ++ ';' :: Layout.textFrom last rest) := by
  rw [Rule.toList_text]
  simp [Rule.pieces, Layout.textFrom]

theorem spelling_bitText (value : Bool) : Terminal.bit.Spelling (bitText value).toList := by
  cases value
  · exact .inl rfl
  · exact .inr rfl

theorem spelling_symbol (m : Movement) : Terminal.movement.Spelling m.symbol.toList := by
  have hChars : m.symbol.toList.all isMovementChar = true := by cases m <;> rfl
  refine ⟨?_, List.all_eq_true.1 hChars⟩
  cases m <;> exact List.cons_ne_nil _ _

/-- A blank in front of a word is a gap. -/
theorem gap_blank (rest : List Char) : Gap [' '] rest := (Separator.space (by decide)).gap

theorem endsBefore_cons {t : Terminal} {c : Char} (hOther : t.extendedBy c = false)
    (rest : List Char) : t.EndsBefore (c :: rest) := by
  intro d hd
  rw [← Option.some.inj hd]
  exact hOther

/-- The pieces of a printed rule are cut rightly, if what is in front and behind is. -/
theorem validFrom_pieces {gap last : List Char} {r : Rule} {rest : List Piece} (hWorded : r.Worded)
    (hGap : Gap gap (r.text.toList ++ ';' :: Layout.textFrom last rest))
    (hRest : Layout.ValidFrom last rest) : Layout.ValidFrom last (r.pieces gap ++ rest) := by
  have hText := textFrom_pieces [] r last rest
  rw [List.nil_append] at hText
  rw [← hText] at hGap
  have hState : Terminal.state.extendedBy ',' = false := by decide
  have hMovement : Terminal.movement.extendedBy ',' = false := by decide
  have hNext : Terminal.state.extendedBy ')' = false := by decide
  -- Piece by piece: the gap, the spelling, and the end of the word.
  refine ⟨hGap, rfl, fun _ _ => rfl, ?_⟩
  refine ⟨.nil _, hWorded.state, endsBefore_cons hState _, ?_⟩
  refine ⟨.nil _, rfl, fun _ _ => rfl, ?_⟩
  refine ⟨gap_blank _, spelling_bitText r.value, fun _ _ => rfl, ?_⟩
  refine ⟨.nil _, rfl, fun _ _ => rfl, ?_⟩
  refine ⟨gap_blank _, spelling_bitText r.write, fun _ _ => rfl, ?_⟩
  refine ⟨.nil _, rfl, fun _ _ => rfl, ?_⟩
  refine ⟨gap_blank _, spelling_symbol r.movement, endsBefore_cons hMovement _, ?_⟩
  refine ⟨.nil _, rfl, fun _ _ => rfl, ?_⟩
  refine ⟨gap_blank _, hWorded.next, endsBefore_cons hNext _, ?_⟩
  refine ⟨.nil _, rfl, fun _ _ => rfl, ?_⟩
  exact ⟨.nil _, rfl, fun _ _ => rfl, hRest⟩

/-! ## §2 Texts of Printed Rules -/

/-- Rules are printed in a text, each with a semicolon behind it, among gaps of separators. -/
inductive Prints : List Rule → List Char → Prop where
  /-- No rules, and a last gap. -/
  | nil {gap : List Char} : Gap gap [] → Prints [] gap
  /-- A gap, a printed rule, and the text of the other rules. -/
  | cons {gap rest : List Char} {r : Rule} {rules : List Rule} :
      Gap gap (r.text.toList ++ ';' :: rest) → Prints rules rest →
        Prints (r :: rules) (gap ++ (r.text.toList ++ ';' :: rest))

/-- Rules on lines of their own. -/
def ruleLines (rules : List Rule) : String :=
  String.join (rules.map fun r => r.text ++ ";\n")

/-- On lines of their own rules are printed. -/
theorem prints_ruleLines (rules : List Rule) : Prints rules (ruleLines rules).toList := by
  have hFeed (rest : List Char) : Gap ['\n'] rest := (Separator.space (by decide)).gap
  -- The line end behind a rule is the gap in front of the next one.
  have hFrom : ∀ gap : List Char, (∀ rest, Gap gap rest) →
      Prints rules (gap ++ (ruleLines rules).toList) := by
    unfold ruleLines
    induction rules with
    | nil => exact fun gap hGap => by simpa using Prints.nil (hGap [])
    | cons r rules ih =>
      intro gap hGap
      have hPrints := Prints.cons (r := r) (hGap _) (ih ['\n'] hFeed)
      simpa using hPrints
  simpa using hFrom [] Gap.nil

/-- A text of printed rules is cut into the words of their declarations. -/
theorem Prints.exists_layout {rules : List Rule} {text : List Char} (hPrints : Prints rules text)
    (hWorded : ∀ r ∈ rules, r.Worded) :
    ∃ layout : Layout, layout.text = text ∧ layout.Valid ∧
      layout.words = (rules.map Rule.declaration).flatMap Declaration.words := by
  induction hPrints with
  | @nil gap hGap => exact ⟨⟨[], gap⟩, rfl, hGap, rfl⟩
  | @cons gap rest r rules hGap hRest ih =>
    -- The pieces of the rule come in front of those of the other rules.
    obtain ⟨⟨pieces, last⟩, rfl, hValid, hWords⟩ :=
      ih fun q hq => hWorded q (List.mem_cons_of_mem r hq)
    refine ⟨⟨r.pieces gap ++ pieces, last⟩, textFrom_pieces gap r last pieces, ?_, ?_⟩
    · exact validFrom_pieces (hWorded r List.mem_cons_self) hGap hValid
    · change (r.pieces gap ++ pieces).map Piece.toWord = _
      rw [List.map_append, r.words_pieces, List.map_cons, List.flatMap_cons, ← hWords]
      rfl

/-! ## §3 Reading Printed Rules -/

/-- A record is the declaration of a rule, and is read as that rule. -/
def Record.ReadsAs (record : Record) (r : Rule) : Prop :=
  ∃ span fields, record = .rule span fields ∧ Rule.ofFields fields = .ok r

/-- Fields with the texts of a printed rule are read as that rule. -/
theorem Rule.ofFields_of_texts {fields : List Field} {r : Rule}
    (hTexts : fields.map Field.text =
      [r.state, bitText r.value, bitText r.write, r.movement.symbol, r.next]) :
    Rule.ofFields fields = .ok r := by
  obtain ⟨state, _, rfl, hState, hTexts⟩ := List.map_eq_cons_iff.1 hTexts
  obtain ⟨value, _, rfl, hValue, hTexts⟩ := List.map_eq_cons_iff.1 hTexts
  obtain ⟨write, _, rfl, hWrite, hTexts⟩ := List.map_eq_cons_iff.1 hTexts
  obtain ⟨movement, _, rfl, hMovement, hTexts⟩ := List.map_eq_cons_iff.1 hTexts
  obtain ⟨next, _, rfl, hNext, hTexts⟩ := List.map_eq_cons_iff.1 hTexts
  obtain rfl := List.map_eq_nil_iff.1 hTexts
  -- Digits and symbols read back as what they were printed for.
  simp only [Rule.ofFields, hState, hValue, hWrite, hMovement, hNext, Movement.ofSymbol?_symbol,
    bitText_beq]

/-- What a rule is declared by is read as that rule. -/
theorem Record.readsAs_of_unplaced {record : Record} {r : Rule}
    (hRecord : record.unplaced = r.declaration.record) : record.ReadsAs r := by
  cases record with
  | rule span fields =>
    refine ⟨span, fields, rfl, Rule.ofFields_of_texts ?_⟩
    have hTexts := congrArg (List.map Field.text) (Record.rule.inj hRecord).2
    have hSame : Field.text ∘ Field.unplaced = Field.text := rfl
    rw [List.map_map, hSame] at hTexts
    simpa [Declaration.field] using hTexts
  | _ => cases hRecord

/-- **Reading printed rules**: the records of the text are those of the rules, in order. -/
theorem Prints.exists_program {rules : List Rule} {text : String}
    (hPrints : Prints rules text.toList) (hWorded : ∀ r ∈ rules, r.Worded) :
    ∃ p, Program.ofSource text = .ok p ∧ List.Forall₂ Record.ReadsAs p.records rules := by
  obtain ⟨layout, hText, hValid, hWords⟩ := hPrints.exists_layout hWorded
  have hDecomposes : Decomposes text layout (rules.map Rule.declaration) := ⟨hText, hValid, hWords⟩
  obtain ⟨p, hProgram, hRecords⟩ := hDecomposes.exists_program
  rw [← List.forall₂_eq_eq_eq, List.map_map, List.forall₂_map_left_iff,
    List.forall₂_map_right_iff] at hRecords
  exact ⟨p, hProgram, hRecords.imp fun _ _ => Record.readsAs_of_unplaced⟩

/-! ## §4 Building Printed Rules -/

/-- Records that are read as rules write them, and declare nothing else. -/
theorem writtenBy_of_readsAs {records : List Record} {rules : List Rule}
    (hReads : List.Forall₂ Record.ReadsAs records rules) :
    writtenBy records = rules ∧ (∀ r ∈ records, r.Sound) ∧ records.filterMap Record.construct? = [] := by
  induction hReads with
  | nil => exact ⟨rfl, by simp, rfl⟩
  | @cons record rule records rules hFirst hRest ih =>
    obtain ⟨hWritten, hSound, hNone⟩ := ih
    obtain ⟨span, fields, rfl, hRule⟩ := hFirst
    refine ⟨?_, ?_, ?_⟩
    · unfold writtenBy at hWritten ⊢
      rw [List.flatMap_cons, hWritten]
      simp [hRule, Except.toOption]
    · exact List.forall_mem_cons.2 ⟨⟨rule, hRule⟩, hSound⟩
    · rw [List.filterMap_cons, hNone]
      rfl

/-- **Building printed rules**: a text of printed rules with different keys is built without warnings, and
its table holds them in order. -/
theorem Prints.exists_build {rules : List Rule} {text : String} (hPrints : Prints rules text.toList)
    (hWorded : ∀ r ∈ rules, r.Worded) (hDistinct : (rules.map Rule.key).Nodup) :
    ∃ built, build text = .ok built ∧ built.machine.table.rules = rules ∧ built.warnings = [] := by
  obtain ⟨p, hProgram, hReads⟩ := hPrints.exists_program hWorded
  obtain ⟨hWritten, hSound, hNone⟩ := writtenBy_of_readsAs hReads
  have hRecords : buildRecords p.records text =
      .ok ⟨(draftOf p.records).machine text, overwritesIn p.records⟩ := by
    refine buildRecords_eq_ok_iff.2 ⟨hSound, ?_, rfl⟩
    rw [hNone]
    exact List.nodup_nil
  refine ⟨_, bind_eq_ok_iff.2 ⟨p, hProgram, hRecords⟩, ?_, ?_⟩
  · change (Table.ofList (writtenBy p.records)).rules = rules
    rw [hWritten, Table.rules_ofList hDistinct]
  · apply overwritesIn_eq_nil
    rw [hWritten]
    exact hDistinct

/-! ## §5 Rules of Machines that were Built -/

/-- The rule of a well formed record is worded. -/
theorem Record.WellFormed.worded {span : Option Span} {fields : List Field} {r : Rule}
    (hForm : (Record.rule span fields).WellFormed) (hRule : Rule.ofFields fields = .ok r) :
    r.Worded := by
  obtain ⟨state, value, write, movement, next, rfl, hState, -, -, -, hNext⟩ := hForm
  unfold Rule.ofFields at hRule
  dsimp only at hRule
  split at hRule
  · cases hRule
    exact ⟨hState, hNext⟩
  · cases hRule

/-- The rules of a library are worded, because its code is a program. -/
theorem worded_of_composedRules {name : String} : ∀ r ∈ composedRules name, r.Worded := by
  intro r hr
  unfold composedRules at hr
  cases hTable : composedTable? name with
  | none => simp [hTable] at hr
  | some table =>
    rw [hTable] at hr
    obtain ⟨library, -, hLibrary⟩ := Option.bind_eq_some_iff.1 hTable
    have hOk := eq_ok_of_toOption hLibrary
    rw [Library.table] at hOk
    split at hOk
    · next rules hRules =>
      cases hOk
      -- The rule comes from a record of the program that the code is.
      obtain ⟨p, hProgram, hFields⟩ := bind_eq_ok_iff.1 hRules
      obtain ⟨fields, hMem, hRule⟩ := exists_of_mem_mapM hFields r (Table.mem_of_mem_ofList hr)
      obtain ⟨record, hRecord, hSome⟩ := List.mem_filterMap.1 hMem
      have hForm := Program.wellFormed_of_ofSource hProgram record hRecord
      cases record with
      | rule span found =>
        obtain rfl := Option.some.inj hSome
        exact hForm.worded hRule
      | _ => cases hSome
    · cases hOk

/-- The rules that the records of a program write are worded. -/
theorem worded_of_writtenBy {records : List Record} (hForms : ∀ r ∈ records, r.WellFormed) :
    ∀ r ∈ writtenBy records, r.Worded := by
  intro r hr
  obtain ⟨record, hRecord, hWrites⟩ := List.mem_flatMap.1 hr
  cases record with
  | rule span fields =>
    rw [Record.writes, Option.mem_toList] at hWrites
    exact (hForms _ hRecord).worded (eq_ok_of_toOption hWrites)
  | composition span names =>
    obtain ⟨name, -, hComposed⟩ := List.mem_flatMap.1 hWrites
    exact worded_of_composedRules r hComposed
  | _ => cases hWrites

/-- **Worded**: the rules in the table of a machine that was built are worded. -/
theorem worded_of_build {source : String} {built : Built} (hBuild : build source = .ok built) :
    ∀ r ∈ built.machine.table.rules, r.Worded := by
  obtain ⟨p, hProgram, hBuilt⟩ := bind_eq_ok_iff.1 hBuild
  obtain ⟨-, -, rfl⟩ := buildRecords_eq_ok_iff.1 hBuilt
  intro r hr
  exact worded_of_writtenBy (Program.wellFormed_of_ofSource hProgram) r (Table.mem_of_mem_ofList hr)

/-- **Printed rules read back**: a text of printed rules, with any separators between them, is a program
with a rule declaration for each of them, in order, that is read as exactly this rule. So what is
built of the printed rules of a machine has the same table, with the rules in the same order, and
nothing is overwritten. -/
theorem build_reads_printed_rules :
    (∀ (rules : List Rule) (text : String),
      (∀ r ∈ rules, Terminal.state.Spelling r.state.toList ∧ Terminal.state.Spelling r.next.toList) →
      Prints rules text.toList →
        ∃ p, Program.ofSource text = .ok p ∧
          List.Forall₂ (fun record r => ∃ span fields, record = .rule span fields ∧
            Rule.ofFields fields = .ok r) p.records rules) ∧
    ∀ (source : String) (built : Built) (text : String), build source = .ok built →
      Prints built.machine.table.rules text.toList →
        ∃ again, build text = .ok again ∧ again.machine.table = built.machine.table ∧
          again.warnings = [] := by
  constructor
  · intro rules text hWords hPrints
    exact hPrints.exists_program fun r hr => ⟨(hWords r hr).1, (hWords r hr).2⟩
  · intro source built text hBuild hPrints
    obtain ⟨again, hAgain, hRules, hSilent⟩ :=
      hPrints.exists_build (worded_of_build hBuild) built.machine.table.distinct
    exact ⟨again, hAgain, Table.ext hRules, hSilent⟩

/-- Two rules with states called `I` and `0`; and a program that overwrites a rule and moves in Spanish, of
which one rule is left to be printed. -/
theorem build_reads_printed_rules_of_keywords :
    let rules : List Rule := [⟨"I", true, false, .right, "0"⟩, ⟨"0", false, true, .halt, "I"⟩]
    (∃ p, Program.ofSource (ruleLines rules) = .ok p ∧ p.records.length = 2) ∧
      ∃ built again, build "(a,1,0,D,b);(a,1,1,N,b);" = .ok built ∧
        built.machine.table.rules = [⟨"a", true, true, .halt, "b"⟩] ∧
        build (ruleLines built.machine.table.rules) = .ok again ∧
        again.machine.table = built.machine.table ∧ again.warnings = [] := by
  intro rules
  obtain ⟨hReads, hBuilds⟩ := build_reads_printed_rules
  constructor
  · have hWords : ∀ r ∈ rules,
        Terminal.state.Spelling r.state.toList ∧ Terminal.state.Spelling r.next.toList := by
      simp [rules, Terminal.Spelling, isNameChar]
    obtain ⟨p, hProgram, hRecords⟩ := hReads rules _ hWords (prints_ruleLines rules)
    exact ⟨p, hProgram, hRecords.length_eq⟩
  · have hRules : (build "(a,1,0,D,b);(a,1,1,N,b);").map (fun built => built.machine.table.rules) =
        .ok [⟨"a", true, true, .halt, "b"⟩] := by decide +kernel
    obtain ⟨built, hBuild, hTable⟩ := map_eq_ok_iff.1 hRules
    obtain ⟨again, hAgain, hSame, hSilent⟩ := hBuilds _ built _ hBuild (prints_ruleLines _)
    exact ⟨built, again, hBuild, hTable, hAgain, hSame, hSilent⟩

end TapeMachine
