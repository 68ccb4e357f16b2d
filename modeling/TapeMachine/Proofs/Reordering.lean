import TapeMachine.Proofs.FirstFault
import TapeMachine.Proofs.Stepping

/-!
# Records in Any Order

Declarations may come in any order. Records that build still do so in another order, and to the same
machine as long as those that write rules keep their order, and so do the descriptions. Where no rule
is overwritten, their order makes no difference for runs either.

* `findSome?_filter`, `flatMap_filter` and `overwritesIn_filter`: each part of a machine comes from
  some of the records;
* `filter_declaring_of_perm`: a declaration that is made once has no order;
* `lastFor?_of_perm` and `overwritesIn_eq_nil`: rules with different keys have no order;
* `buildRecords_any_order` puts these together.
-/

namespace TapeMachine

/-! ## §1 Some of the Records -/

/-- Whether a record writes rules to the table. -/
def Record.writesRules : Record → Bool
  | .rule .. | .composition .. => true
  | _ => false

/-- Whether a record is a description. -/
def Record.describes : Record → Bool
  | .description .. => true
  | _ => false

section Part

variable {α : Type} {p : Record → Bool} (records : List Record)

/-- What only some records say is looked for among these. -/
theorem findSome?_filter {f : Record → Option α} (hPart : ∀ r, p r = false → f r = none) :
    (records.filter p).findSome? f = records.findSome? f := by
  induction records with
  | nil => rfl
  | cons r rest ih =>
    cases hKept : p r with
    | true => rw [List.filter_cons_of_pos hKept, List.findSome?_cons, List.findSome?_cons, ih]
    | false =>
      rw [List.filter_cons_of_neg (by simp [hKept]), ih, List.findSome?_cons, hPart r hKept]

/-- What only some records list is listed by these. -/
theorem flatMap_filter {f : Record → List α} (hPart : ∀ r, p r = false → f r = []) :
    (records.filter p).flatMap f = records.flatMap f := by
  induction records with
  | nil => rfl
  | cons r rest ih =>
    cases hKept : p r with
    | true => rw [List.filter_cons_of_pos hKept, List.flatMap_cons, List.flatMap_cons, ih]
    | false =>
      rw [List.filter_cons_of_neg (by simp [hKept]), ih, List.flatMap_cons, hPart r hKept,
        List.nil_append]

end Part

theorem writtenBy_filter (records : List Record) :
    writtenBy (records.filter Record.writesRules) = writtenBy records :=
  flatMap_filter records fun r hOther => by cases r <;> simp_all [Record.writesRules]

/-- Warnings depend on the records that write rules, and on their order. -/
theorem overwritesIn_filter (records : List Record) :
    overwritesIn (records.filter Record.writesRules) = overwritesIn records := by
  -- The last record is split off, because its warning depends on all that were written before.
  induction records using List.reverseRecOn with
  | nil => rfl
  | append_singleton records r ih =>
    rw [List.filter_append, overwritesIn_concat]
    cases hWrites : r.writesRules with
    | true =>
      rw [List.filter_cons_of_pos hWrites, List.filter_nil, overwritesIn_concat, ih,
        writtenBy_filter]
    | false =>
      have hNone : r.overwrites (writtenBy records) = [] := by
        cases r <;> simp_all [Record.writesRules]
      rw [List.filter_cons_of_neg (by simp [hWrites]), List.filter_nil, List.append_nil, ih, hNone,
        List.append_nil]

/-! ## §2 Declarations that Are Made Once -/

section Order

variable {records reordered : List Record}

/-- A declaration that is made once stands alone, in whatever order. -/
theorem filter_declaring_of_perm (hPerm : reordered.Perm records)
    (hOnce : (records.filterMap Record.construct?).Nodup) (c : Construct) :
    reordered.filter (fun r => r.construct? = some c) =
      records.filter (fun r => r.construct? = some c) := by
  have hFew : (records.filter (fun r => r.construct? = some c)).length ≤ 1 := by
    rw [← List.countP_eq_length_filter, ← count_constructs]
    exact List.nodup_iff_count_le_one.1 hOnce c
  have hPart := hPerm.filter (fun r => r.construct? = some c)
  rcases hRecords : records.filter (fun r => r.construct? = some c) with _ | ⟨r, _ | ⟨q, more⟩⟩
  · rw [hRecords] at hPart
    rw [hRecords, hPart.eq_nil]
  · rw [hRecords] at hPart
    rw [hRecords, List.perm_singleton.1 hPart]
  · simp [hRecords] at hFew

/-- What a declaration that is made once says does not depend on the order. -/
theorem findSome?_of_perm {α : Type} {f : Record → Option α} {c : Construct}
    (hKind : ∀ r, f r ≠ none → r.construct? = some c) (hPerm : reordered.Perm records)
    (hOnce : (records.filterMap Record.construct?).Nodup) :
    reordered.findSome? f = records.findSome? f := by
  have hPart : ∀ r : Record, decide (r.construct? = some c) = false → f r = none := by
    intro r hOther
    by_contra hSome
    exact of_decide_eq_false hOther (hKind r hSome)
  rw [← findSome?_filter reordered hPart, filter_declaring_of_perm hPerm hOnce,
    findSome?_filter records hPart]

/-- The libraries are listed by the one composition, if there is one. -/
theorem libraryNames_of_perm (hPerm : reordered.Perm records)
    (hOnce : (records.filterMap Record.construct?).Nodup) :
    reordered.flatMap Record.libraryNames = records.flatMap Record.libraryNames := by
  have hPart : ∀ r : Record, decide (r.construct? = some .composition) = false →
      r.libraryNames = [] := by
    intro r hOther
    cases r <;> simp_all [Record.construct?]
  rw [← flatMap_filter reordered hPart, filter_declaring_of_perm hPerm hOnce,
    flatMap_filter records hPart]

/-! ## §3 Rules with Different Keys -/

/-- The last rule for a key does not depend on the order where each key has one rule. -/
theorem lastFor?_of_perm {rules others : List Rule} (hPerm : others.Perm rules)
    (hDistinct : (rules.map Rule.key).Nodup) (k : Key) : lastFor? k others = lastFor? k rules := by
  by_cases hKey : ∃ r ∈ rules, r.key = k
  · obtain ⟨r, hr, rfl⟩ := hKey
    have hOnly : ∀ q ∈ rules, q.key = r.key → q = r :=
      fun q hq hSame => List.inj_on_of_nodup_map hDistinct hq hr hSame
    rw [lastFor?_eq_some hr hOnly]
    exact lastFor?_eq_some (hPerm.mem_iff.2 hr) fun q hq => hOnly q (hPerm.mem_iff.1 hq)
  · have hNone : ∀ l : List Rule, (∀ r ∈ l, r ∈ rules) → lastFor? k l = none := by
      intro l hAll
      rw [lastFor?, List.getLast?_eq_none_iff, List.filter_eq_nil_iff]
      exact fun r hr hSame => hKey ⟨r, hAll r hr, of_decide_eq_true hSame⟩
    rw [hNone rules fun r hr => hr, hNone others fun r hr => hPerm.mem_iff.1 hr]

/-- Rules with different keys overwrite nothing. -/
theorem overwritesIn_eq_nil (hDistinct : ((writtenBy records).map Rule.key).Nodup) :
    overwritesIn records = [] := by
  induction records using List.reverseRecOn with
  | nil => rfl
  | append_singleton records r ih =>
    rw [writtenBy_concat, List.map_append, List.nodup_append] at hDistinct
    obtain ⟨hFront, -, hNew⟩ := hDistinct
    rw [overwritesIn_concat, ih hFront, List.nil_append]
    cases r with
    | rule span fields =>
      cases hRule : Rule.ofFields fields with
      | error fault => simp [hRule]
      | ok rule =>
        -- The rule is the only one of its record, and its key is none of those before.
        have hFresh : rule.key ∉ (writtenBy records).map Rule.key := fun hMem =>
          hNew _ hMem rule.key (by simp [hRule, Except.toOption]) rfl
        simp only [Record.overwrites, hRule, if_neg hFresh]
    | description | tape | initialState | finalStates | composition | other => rfl

theorem writtenBy_perm (hPerm : reordered.Perm records) :
    (writtenBy reordered).Perm (writtenBy records) :=
  hPerm.flatMap_right Record.writes

/-! ## §4 Builds -/

/-- What comes from declarations that are made once does not depend on the order. -/
theorem draftOf_of_perm (hPerm : reordered.Perm records)
    (hOnce : (records.filterMap Record.construct?).Nodup) :
    (draftOf reordered).cells = (draftOf records).cells ∧
      (draftOf reordered).state = (draftOf records).state ∧
      (draftOf reordered).finals = (draftOf records).finals ∧
      (draftOf reordered).composed = (draftOf records).composed := by
  have hCells := findSome?_of_perm (c := .tape) (f := Record.cells?)
    (fun r => by cases r <;> simp [Record.construct?]) hPerm hOnce
  have hState := findSome?_of_perm (c := .initialState) (f := Record.initialState?)
    (fun r => by cases r <;> simp [Record.construct?]) hPerm hOnce
  have hFinals := findSome?_of_perm (c := .finalStates) (f := Record.finalStates?)
    (fun r => by cases r <;> simp [Record.construct?]) hPerm hOnce
  unfold draftOf
  exact ⟨by rw [hCells], by rw [hState], by rw [hFinals], libraryNames_of_perm hPerm hOnce⟩

/-- The table and the description come from records whose order is kept. -/
theorem draftOf_of_filter
    (hWriting : reordered.filter Record.writesRules = records.filter Record.writesRules)
    (hDescribing : reordered.filter Record.describes = records.filter Record.describes) :
    (draftOf reordered).table = (draftOf records).table ∧
      (draftOf reordered).description = (draftOf records).description ∧
      overwritesIn reordered = overwritesIn records := by
  have hWritten : writtenBy reordered = writtenBy records := by
    rw [← writtenBy_filter, hWriting, writtenBy_filter]
  have hPart : ∀ r : Record, r.describes = false → r.description? = none := by
    intro r hOther
    cases r <;> simp_all [Record.describes]
  have hDescription : reordered.findSome? Record.description? =
      records.findSome? Record.description? := by
    rw [← findSome?_filter reordered hPart, hDescribing, findSome?_filter records hPart]
  refine ⟨congrArg Table.ofList hWritten, hDescription, ?_⟩
  rw [← overwritesIn_filter, hWriting, overwritesIn_filter]

/-- Without keys that are written twice, machines built in different orders agree. -/
theorem agreeOn_of_perm (hPerm : reordered.Perm records)
    (hOnce : (records.filterMap Record.construct?).Nodup)
    (hDistinct : ((writtenBy records).map Rule.key).Nodup) (source other : String) :
    Machine.AgreeOn (fun _ => True) ((draftOf records).machine source)
      ((draftOf reordered).machine other) := by
  obtain ⟨hCells, hState, hFinals, -⟩ := draftOf_of_perm hPerm hOnce
  refine ⟨hState.symm, ?_, hFinals.symm, fun k _ => ?_⟩
  · show Tape.restoreMargin ⟨(draftOf records).cells, 0⟩ =
      Tape.restoreMargin ⟨(draftOf reordered).cells, 0⟩
    rw [hCells]
  · show (Table.ofList (writtenBy records)).get? k = (Table.ofList (writtenBy reordered)).get? k
    rw [Table.get?_ofList, Table.get?_ofList]
    exact (lastFor?_of_perm (writtenBy_perm hPerm) hDistinct k).symm

/-- **Any order**: records that build do so in any order. If those that write rules keep their order,
and so do the descriptions, the machine is the same but for its text, and so are the warnings. If no
key is written twice, the machine has in any order the same rule for each key, the same tape, states
and libraries, and there are no warnings; so it makes the same steps, however many. -/
theorem buildRecords_any_order {source : String} {built : Built} (hPerm : reordered.Perm records)
    (hBuild : buildRecords records source = .ok built) (other : String) :
    ∃ built', buildRecords reordered other = .ok built' ∧
      (reordered.filter Record.writesRules = records.filter Record.writesRules →
        reordered.filter Record.describes = records.filter Record.describes →
          built'.machine = { built.machine with source := some other } ∧
            built'.warnings = built.warnings) ∧
      (((writtenBy records).map Rule.key).Nodup →
        (∀ k, built'.machine.table.get? k = built.machine.table.get? k) ∧
        built.warnings = [] ∧ built'.warnings = [] ∧
        built'.machine.tape = built.machine.tape ∧ built'.machine.state = built.machine.state ∧
        built'.machine.finals = built.machine.finals ∧
        built'.machine.composed = built.machine.composed ∧
        ∀ n, ∃ m m' outcome next next',
          built.machine.afterCalls n = .ok m ∧ built'.machine.afterCalls n = .ok m' ∧
          m'.state = m.state ∧ m'.tape = m.tape ∧
          m.advance = .ok (outcome, next) ∧ m'.advance = .ok (outcome, next')) := by
  obtain ⟨hSound, hOnce, rfl⟩ := buildRecords_eq_ok_iff.1 hBuild
  have hBuild' : buildRecords reordered other =
      .ok ⟨(draftOf reordered).machine other, overwritesIn reordered⟩ :=
    buildRecords_eq_ok_iff.2 ⟨fun r hr => hSound r (hPerm.mem_iff.1 hr),
      (hPerm.filterMap _).nodup_iff.2 hOnce, rfl⟩
  obtain ⟨hCells, hState, hFinals, hComposed⟩ := draftOf_of_perm hPerm hOnce
  refine ⟨_, hBuild', fun hWriting hDescribing => ?_, fun hDistinct => ?_⟩
  · obtain ⟨hTable, hDescription, hWarnings⟩ := draftOf_of_filter hWriting hDescribing
    refine ⟨?_, hWarnings⟩
    show (draftOf reordered).machine other = _
    unfold Draft.machine
    rw [hTable, hDescription, hCells, hState, hFinals, hComposed]
    rfl
  · have hAgree := agreeOn_of_perm hPerm hOnce hDistinct source other
    have hDistinct' : ((writtenBy reordered).map Rule.key).Nodup :=
      ((writtenBy_perm hPerm).map Rule.key).nodup_iff.2 hDistinct
    have hCell : ((draftOf records).machine source).tape.OnCell := Tape.onCell_restoreMargin _
    exact ⟨fun k => (hAgree.rules k trivial).symm, overwritesIn_eq_nil hDistinct,
      overwritesIn_eq_nil hDistinct', hAgree.tape.symm, hAgree.state.symm, hAgree.finals.symm,
      hComposed, hAgree.afterCalls hCell⟩

end Order

/-- A rule, a composed library, a tape and two descriptions: once with the rule and the library in the
same order, and once the other way round. -/
theorem buildRecords_any_order_of_shuffled :
    let rule : Record :=
      .rule none [⟨"q2", none⟩, ⟨"1", none⟩, ⟨"0", none⟩, ⟨"R", none⟩, ⟨"q0", none⟩]
    let library : Record := .composition none [⟨"sum", none⟩]
    let tape : Record := .tape none [⟨"1", none⟩]
    let first : Record := .description none "x"
    let second : Record := .description none "y"
    ∃ built, buildRecords [rule, tape, first, library, second] "" = .ok built ∧
      (∃ kept, buildRecords [tape, rule, first, second, library] "z" = .ok kept ∧
        kept.machine = { built.machine with source := some "z" } ∧ kept.warnings = built.warnings) ∧
      ∃ other, buildRecords [second, library, tape, first, rule] "" = .ok other ∧
        built.machine.description = some "x" ∧ other.machine.description = some "y" ∧
        (∀ k, other.machine.table.get? k = built.machine.table.get? k) ∧
        other.warnings = [] ∧
        ∀ n, ∃ m m' outcome next next',
          built.machine.afterCalls n = .ok m ∧ other.machine.afterCalls n = .ok m' ∧
          m'.state = m.state ∧ m'.tape = m.tape ∧
          m.advance = .ok (outcome, next) ∧ m'.advance = .ok (outcome, next') := by
  intro rule library tape first second
  have hRules : composedRules "sum" = Library.sumRules := by
    show composedRules Library.sum.name = Library.sumRules
    exact composedRules_of_provides (Library.provides_of_mem_contents (by simp [Library.contents]))
  have hKnown : (composedTable? "sum").isSome = true := composedTable?_isSome_iff.2 (by decide)
  have hBuild : buildRecords [rule, tape, first, library, second] "" =
      .ok ⟨(draftOf [rule, tape, first, library, second]).machine "",
        overwritesIn [rule, tape, first, library, second]⟩ := by
    refine buildRecords_eq_ok_iff.2 ⟨?_, by decide, rfl⟩
    simp [rule, library, tape, first, second, hKnown, Rule.ofFields, Movement.ofSymbol?, cellsOf]
  have hWritten : writtenBy [rule, tape, first, library, second] =
      ⟨"q2", true, false, .right, "q0"⟩ :: Library.sumRules := by
    simp [rule, library, tape, first, second, writtenBy, hRules, Rule.ofFields, Movement.ofSymbol?,
      Except.toOption]
  have hDistinct :
      ((writtenBy [rule, tape, first, library, second]).map Rule.key).Nodup := by
    rw [hWritten]
    simp [Library.sumRules, Rule.key]
  have hKept : [tape, rule, first, second, library].Perm [rule, tape, first, library, second] := by
    decide
  have hOther : [second, library, tape, first, rule].Perm [rule, tape, first, library, second] := by
    decide
  obtain ⟨kept, hKeptBuild, hSame, -⟩ := buildRecords_any_order hKept hBuild "z"
  obtain ⟨other, hOtherBuild, -, hAgrees⟩ := buildRecords_any_order hOther hBuild ""
  obtain ⟨hTable, -, hWarnings, -, -, -, -, hSteps⟩ := hAgrees hDistinct
  -- The description is the first one in the order at hand.
  obtain ⟨-, -, rfl⟩ := buildRecords_eq_ok_iff.1 hOtherBuild
  exact ⟨_, hBuild, ⟨kept, hKeptBuild, hSame rfl rfl⟩, _, hOtherBuild, rfl, rfl, hTable, hWarnings,
    hSteps⟩

end TapeMachine
