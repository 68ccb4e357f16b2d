import Mathlib.Data.List.Basic
import TapeMachine.Build
import TapeMachine.Proofs.Libraries.Contents

/-!
# What a Build Makes of its Records

The records of a program are taken one after the other. This file says in one stroke what they
come to: which draft a list of records stands for, and which lists are taken at all.

* `writtenBy` are the rules that records write to the table, in order, with those of libraries;
* `overwritesIn` are the warnings, one for each written rule whose key was taken already;
* `draftOf` is the draft that records stand for, and `Record.Sound` what is asked of a record;
* `foldlM_take_eq_ok_iff`: records are taken exactly if each is sound and no declaration is
  repeated, and then they come to the draft they stand for;
* `buildRecords_meaning`: all parts of the machine that a build makes.
-/

namespace TapeMachine

/-! ## §1 What Records Say -/

/-- The table of the built-in library with a name. -/
def composedTable? (name : String) : Option Table :=
  (Registry.builtin.find? name).bind fun library => library.table.toOption

/-- The rules of the built-in library with a name. -/
def composedRules (name : String) : List Rule :=
  ((composedTable? name).map Table.rules).getD []

/-- A built-in library is composed with the rules that it provides. -/
theorem composedTable?_of_provides {l : Library} {rules : List Rule} (hProvides : l.Provides rules) :
    composedTable? l.name = some (.ofList rules) := by
  have hTable : l.table = .ok (.ofList rules) := by
    rw [Library.table, hProvides.rulesOf]
  rw [composedTable?, hProvides.found, Option.bind_some, hTable]
  rfl

theorem composedRules_of_provides {l : Library} {rules : List Rule} (hProvides : l.Provides rules) :
    composedRules l.name = rules := by
  rw [composedRules, composedTable?_of_provides hProvides]
  exact Table.rules_ofList hProvides.distinct

/-- The digit of a cell value is read as this value. -/
theorem bitText_beq (value : Bool) : (bitText value == "1") = value := by
  cases value <;> rfl

/-- Digits are read as the cells that they show. -/
theorem map_beq_of_digits {bits : List Field} {cells : List Bool}
    (hDigits : bits.map Field.text = cells.map bitText) :
    (bits.map fun b => b.text == "1") = cells := by
  have hTexts : (bits.map fun b => b.text == "1") = (bits.map Field.text).map (· == "1") := by
    rw [List.map_map]
    rfl
  rw [hTexts, hDigits, List.map_map]
  exact (List.map_congr_left fun value _ => bitText_beq value).trans (List.map_id cells)

/-- The names under which libraries can be composed are those of the built-in ones. -/
theorem composedTable?_isSome_iff {name : String} :
    (composedTable? name).isSome = true ↔ name ∈ Registry.builtin.names := by
  constructor
  · intro hSome
    obtain ⟨library, hFind⟩ : ∃ library, Registry.builtin.find? name = some library := by
      by_contra hNone
      rw [not_exists, ← Option.eq_none_iff_forall_ne_some] at hNone
      rw [composedTable?, hNone] at hSome
      cases hSome
    exact (Registry.of_find? hFind).2
  · intro hMem
    obtain ⟨l, hLibrary, rfl⟩ := List.mem_map.1 hMem
    obtain ⟨rules, hRules⟩ := Library.exists_mem_contents hLibrary
    rw [composedTable?_of_provides (Library.provides_of_mem_contents hRules)]
    rfl

namespace Record

/-- The rules that a record writes to the table, in order. -/
@[simp] def writes : Record → List Rule
  | .rule _ fields => (Rule.ofFields fields).toOption.toList
  | .composition _ names => names.flatMap fun name => composedRules name.text
  | _ => []

/-- The warning for a record, given the rules that were written before it. Composed libraries
overwrite in silence. -/
@[simp] def overwrites (earlier : List Rule) : Record → List Overwrite
  | .rule span fields =>
    match Rule.ofFields fields with
    | .ok r =>
      if r.key ∈ earlier.map Rule.key then [⟨span.getD .origin, r.state, r.value⟩] else []
    | .error _ => []
  | _ => []

/-- The state that a record declares as the initial one. -/
@[simp] def initialState? : Record → Option String
  | .initialState _ state => some state.text
  | _ => none

/-- The states that a record declares as final. -/
@[simp] def finalStates? : Record → Option (List String)
  | .finalStates _ states => some (states.map Field.text)
  | _ => none

/-- The cells that a record declares, without a 0 in front. -/
@[simp] def cells? : Record → Option (List Bool)
  | .tape _ bits => some (cellsOf bits)
  | _ => none

/-- The description in a record, if it is not empty. -/
@[simp] def description? : Record → Option String
  | .description _ text => if text != "" then some text else none
  | _ => none

/-- The names of the libraries that a record composes. -/
@[simp] def libraryNames : Record → List String
  | .composition _ names => names.map Field.text
  | _ => []

/-- The declaration that a record makes, with its place. -/
def declaration? (r : Record) : Option (Construct × Option Span) :=
  r.construct?.map fun construct => (construct, r.span)

/-- What is asked of a record by itself: a tape holds a 1, libraries exist, rules can be read. -/
@[simp] def Sound : Record → Prop
  | .tape _ bits => (cellsOf bits).any id = true
  | .composition _ names => ∀ name ∈ names, (composedTable? name.text).isSome = true
  | .rule _ fields => ∃ r, Rule.ofFields fields = .ok r
  | _ => True

end Record

/-- The rules that records write to the table, in order. -/
def writtenBy (records : List Record) : List Rule := records.flatMap Record.writes

/-- The warnings of one record among others, which depend on the rules written before it. -/
def overwritesAt (records : List Record) (i : Nat) : List Overwrite :=
  (records[i]?.map fun r => r.overwrites (writtenBy (records.take i))).getD []

/-- The warnings of all records, in order. -/
def overwritesIn (records : List Record) : List Overwrite :=
  (List.range records.length).flatMap (overwritesAt records)

/-- The draft that records stand for. -/
def draftOf (records : List Record) : Draft where
  table := .ofList (writtenBy records)
  finals := (records.findSome? Record.finalStates?).getD []
  state := (records.findSome? Record.initialState?).getD ""
  cells := (records.findSome? Record.cells?).getD []
  description := records.findSome? Record.description?
  composed := records.flatMap Record.libraryNames
  warnings := overwritesIn records
  seen := records.filterMap Record.declaration?

/-! ## §2 One More Record -/

theorem writtenBy_concat (records : List Record) (r : Record) :
    writtenBy (records ++ [r]) = writtenBy records ++ r.writes := by
  simp [writtenBy]

/-- The warnings of one more record come last, and depend on all rules before it. -/
theorem overwritesIn_concat (records : List Record) (r : Record) :
    overwritesIn (records ++ [r]) = overwritesIn records ++ r.overwrites (writtenBy records) := by
  -- What was written before one of the old records is the same as before.
  have hEarlier : ∀ i ∈ List.range records.length,
      overwritesAt (records ++ [r]) i = overwritesAt records i := by
    intro i hi
    have hLt : i < records.length := List.mem_range.1 hi
    unfold overwritesAt
    rw [List.getElem?_append_left hLt, List.take_append_of_le_length (Nat.le_of_lt hLt)]
  have hLast : overwritesAt (records ++ [r]) records.length =
      r.overwrites (writtenBy records) := by
    simp [overwritesAt]
  unfold overwritesIn
  rw [List.length_append, List.length_singleton, List.range_succ, List.flatMap_append,
    List.flatMap_congr hEarlier, List.flatMap_singleton, hLast]

/-! ## §3 Taking a Record -/

theorem map_fst_declarations (records : List Record) :
    (records.filterMap Record.declaration?).map Prod.fst =
      records.filterMap Record.construct? := by
  rw [List.map_filterMap]
  congr 1
  funext r
  cases hConstruct : r.construct? <;> simp [Record.declaration?, hConstruct]

/-- A declaration that no record makes has no content in any of them. -/
theorem findSome?_eq_none_of_not_declared {α : Type} {f : Record → Option α} {c : Construct}
    {records : List Record} (hKind : ∀ r, f r ≠ none → r.construct? = some c)
    (hFresh : c ∉ records.filterMap Record.construct?) :
    records.findSome? f = none := by
  rw [List.findSome?_eq_none_iff]
  intro r hr
  by_contra hSome
  exact hFresh (List.mem_filterMap.2 ⟨r, hr, hKind r hSome⟩)

namespace Draft

/-- A declaration is noted if it was not made before. -/
theorem declare_eq_ok_iff {d e : Draft} {r : Record} :
    d.declare r = .ok e ↔
      (∀ c, r.construct? = some c → c ∉ d.seen.map Prod.fst) ∧
        e = { d with seen := d.seen ++ r.declaration?.toList } := by
  unfold declare Record.declaration?
  cases hConstruct : r.construct? with
  | none =>
    constructor
    · intro hGiven
      cases hGiven
      exact ⟨by simp, by simp⟩
    · intro hGiven
      rcases hGiven with ⟨-, rfl⟩
      simp
  | some c =>
    cases hSeen : d.seen.lookup c with
    | none =>
      -- The declaration is new, and is noted.
      have hFresh : c ∉ d.seen.map Prod.fst := by
        intro hMem
        obtain ⟨entry, hEntry, rfl⟩ := List.mem_map.1 hMem
        simpa using List.lookup_eq_none_iff.1 hSeen entry hEntry
      simp only [hSeen]
      constructor
      · intro hGiven
        cases hGiven
        exact ⟨fun other hOther => Option.some.inj hOther ▸ hFresh, rfl⟩
      · intro hGiven
        rcases hGiven with ⟨-, rfl⟩
        rfl
    | some first =>
      -- The declaration was made before, and is refused.
      have hOld : c ∈ d.seen.map Prod.fst := by
        by_contra hNew
        have hNone : d.seen.lookup c = none := by
          rw [List.lookup_eq_none_iff]
          intro entry hEntry
          simpa using fun e : c = entry.1 => hNew (e ▸ List.mem_map_of_mem hEntry)
        rw [hNone] at hSeen
        cases hSeen
      simp only [hSeen]
      constructor
      · intro hGiven
        cases hGiven
      · intro hGiven
        rcases hGiven with ⟨hFresh, -⟩
        exact absurd hOld (hFresh c rfl)

/-- A library is composed if there is one with this name, and then its rules are inserted. -/
theorem compose_eq_ok_iff {d e : Draft} {span : Option Span} {name : Field} :
    d.compose span name = .ok e ↔
      (composedTable? name.text).isSome = true ∧
        e = { d with
          table := d.table.insertAll (composedRules name.text)
          composed := d.composed ++ [name.text] } := by
  unfold compose composedRules composedTable?
  cases hFind : Registry.builtin.find? name.text with
  | none => simp
  | some library =>
    obtain ⟨hName, -⟩ := Registry.of_find? hFind
    -- The library is there; what is left to fail is its table.
    cases hTable : library.table with
    | error fault => simp [hTable, bind, Except.bind, Except.toOption]
    | ok table =>
      simp only [Option.bind_some, hTable, Except.toOption, Option.isSome_some, Option.map_some,
        Option.getD_some, true_and, Table.merge_fst, hName]
      constructor
      · intro hGiven
        cases hGiven
        rfl
      · rintro rfl
        rfl

theorem foldlM_compose_eq_ok_iff {d e : Draft} {span : Option Span} {names : List Field} :
    names.foldlM (compose span) d = .ok e ↔
      (∀ name ∈ names, (composedTable? name.text).isSome = true) ∧
        e = { d with
          table := d.table.insertAll (names.flatMap fun name => composedRules name.text)
          composed := d.composed ++ names.map Field.text } := by
  induction names generalizing d with
  | nil =>
    constructor
    · intro hGiven
      cases hGiven
      exact ⟨by simp, by simp [Table.insertAll]⟩
    · intro hGiven
      rcases hGiven with ⟨-, rfl⟩
      simp [pure, Except.pure, Table.insertAll]
  | cons name rest ih =>
    rw [foldlM_cons_eq_ok_iff]
    constructor
    · intro hGiven
      rcases hGiven with ⟨next, hFirst, hRest⟩
      obtain ⟨hKnown, rfl⟩ := compose_eq_ok_iff.1 hFirst
      obtain ⟨hOthers, rfl⟩ := ih.1 hRest
      refine ⟨by simpa using ⟨hKnown, hOthers⟩, ?_⟩
      simp [Table.insertAll_append]
    · intro hGiven
      rcases hGiven with ⟨hKnown, rfl⟩
      refine ⟨_, compose_eq_ok_iff.2 ⟨hKnown name (List.mem_cons_self ..), rfl⟩, ?_⟩
      refine ih.2 ⟨fun other hOther => hKnown other (List.mem_cons_of_mem _ hOther), ?_⟩
      simp [Table.insertAll_append]

/-- The draft after a sound record, given the rules written before it. What the record says of
states, cells and final states takes the place of what was there; a description counts only if
there was none. -/
def absorb (d : Draft) (earlier : List Rule) (r : Record) : Draft :=
  { d with
    table := d.table.insertAll r.writes
    finals := r.finalStates?.getD d.finals
    state := r.initialState?.getD d.state
    cells := r.cells?.getD d.cells
    description := d.description.or r.description?
    composed := d.composed ++ r.libraryNames
    warnings := d.warnings ++ r.overwrites earlier }

/-- A record that is accepted is sound. -/
theorem sound_of_accept {d e : Draft} {r : Record} (hAccept : d.accept r = .ok e) : r.Sound := by
  cases r with
  | tape span bits =>
    -- A tape without a 1 is refused.
    by_contra hBlank
    rw [Record.Sound] at hBlank
    simp [accept, hBlank] at hAccept
  | composition span names => exact (foldlM_compose_eq_ok_iff.1 hAccept).1
  | rule span fields =>
    cases hRule : Rule.ofFields fields with
    | error fault => simp [accept, hRule, bind, Except.bind] at hAccept
    | ok rule => exact ⟨rule, hRule⟩
  | description | initialState | finalStates | other => trivial

/-- A sound record is accepted, and absorbed into the draft. -/
theorem accept_of_sound {d : Draft} {r : Record} (earlier : List Rule)
    (hTable : d.table = .ofList earlier) (hSound : r.Sound) :
    d.accept r = .ok (d.absorb earlier r) := by
  cases r with
  | description span text =>
    obtain ⟨table, finals, state, cells, description, composed, warnings, seen⟩ := d
    -- Only the first description that is not empty counts.
    cases description with
    | none => by_cases hText : text = "" <;> simp [accept, absorb, Table.insertAll, hText]
    | some old => simp [accept, absorb, Table.insertAll]
  | tape span bits =>
    rw [Record.Sound] at hSound
    simp [accept, absorb, Table.insertAll, hSound]
  | initialState | finalStates | other => simp [accept, absorb, Table.insertAll]
  | composition span names =>
    refine foldlM_compose_eq_ok_iff.2 ⟨hSound, ?_⟩
    simp [absorb]
  | rule span fields =>
    obtain ⟨rule, hRule⟩ := hSound
    -- A key has been written before exactly if it is in the table.
    have hKnown : d.table.contains rule.key = decide (rule.key ∈ earlier.map Rule.key) := by
      rw [Bool.eq_iff_iff, decide_eq_true_iff, hTable, Table.contains_ofList]
    have hWarning : (d.table.overwrite? rule .warn span).toList =
        (Record.rule span fields).overwrites earlier := by
      simp only [Record.overwrites, hRule, Table.overwrite?, hKnown]
      by_cases hSeen : rule.key ∈ earlier.map Rule.key
      · rw [if_pos hSeen, decide_eq_true hSeen]
        rfl
      · rw [if_neg hSeen, decide_eq_false hSeen]
        rfl
    unfold accept absorb
    rw [← hWarning]
    simp [hRule, Table.insertAll, Except.toOption, bind, Except.bind, pure, Except.pure]

end Draft

/-- A declaration that was not made before gives its content, and other records leave the content
that is there. -/
theorem getD_findSome?_concat {α : Type} {f : Record → Option α} {c : Construct}
    {records : List Record} {r : Record} (hKind : ∀ r, f r ≠ none → r.construct? = some c)
    (hFresh : ∀ c, r.construct? = some c → c ∉ records.filterMap Record.construct?) (other : α) :
    ((records ++ [r]).findSome? f).getD other =
      (f r).getD ((records.findSome? f).getD other) := by
  rw [List.findSome?_append, List.findSome?_singleton]
  by_cases hSome : f r = none
  · rw [hSome, Option.or_none, Option.getD_none]
  · have hConstruct := hKind r hSome
    rw [findSome?_eq_none_of_not_declared hKind (hFresh c hConstruct), Option.none_or,
      Option.getD_none]

/-- The draft of one more record absorbs it. -/
theorem draftOf_concat {records : List Record} {r : Record}
    (hFresh : ∀ c, r.construct? = some c → c ∉ records.filterMap Record.construct?) :
    draftOf (records ++ [r]) =
      { (draftOf records).absorb (writtenBy records) r with
        seen := (draftOf records).seen ++ r.declaration?.toList } := by
  -- These declarations are made once, so that the last one is the first one.
  have hFinals := getD_findSome?_concat (c := .finalStates) (f := Record.finalStates?)
    (fun r => by cases r <;> simp [Record.construct?]) hFresh []
  have hState := getD_findSome?_concat (c := .initialState) (f := Record.initialState?)
    (fun r => by cases r <;> simp [Record.construct?]) hFresh ""
  have hCells := getD_findSome?_concat (c := .tape) (f := Record.cells?)
    (fun r => by cases r <;> simp [Record.construct?]) hFresh []
  have hSeen : (records ++ [r]).filterMap Record.declaration? =
      records.filterMap Record.declaration? ++ r.declaration?.toList := by
    cases hDeclaration : r.declaration? <;> simp [hDeclaration]
  unfold draftOf Draft.absorb
  rw [hFinals, hState, hCells, hSeen, writtenBy_concat, overwritesIn_concat,
    Table.ofList_append, List.findSome?_append, List.findSome?_singleton, List.flatMap_append,
    List.flatMap_singleton]

/-- A record is taken after others exactly if it is sound and repeats none of their declarations,
and then it leads to the draft that all of them stand for. -/
theorem take_eq_ok_iff {records : List Record} {r : Record} {e : Draft} :
    (draftOf records).take r = .ok e ↔
      r.Sound ∧ (∀ c, r.construct? = some c → c ∉ records.filterMap Record.construct?) ∧
        e = draftOf (records ++ [r]) := by
  have hSeen : (draftOf records).seen.map Prod.fst = records.filterMap Record.construct? :=
    map_fst_declarations records
  unfold Draft.take
  rw [bind_eq_ok_iff]
  constructor
  · intro hGiven
    rcases hGiven with ⟨d, hDeclare, hAccept⟩
    obtain ⟨hFresh, rfl⟩ := Draft.declare_eq_ok_iff.1 hDeclare
    rw [hSeen] at hFresh
    have hSound := Draft.sound_of_accept hAccept
    rw [Draft.accept_of_sound (writtenBy records) rfl hSound] at hAccept
    refine ⟨hSound, hFresh, ?_⟩
    rw [draftOf_concat hFresh]
    exact (Except.ok.inj hAccept).symm
  · intro hGiven
    rcases hGiven with ⟨hSound, hFresh, rfl⟩
    refine ⟨_, Draft.declare_eq_ok_iff.2 ⟨hSeen.symm ▸ hFresh, rfl⟩, ?_⟩
    rw [Draft.accept_of_sound (writtenBy records) rfl hSound, draftOf_concat hFresh]
    rfl

/-- **Records that build**: they are taken exactly if each is sound and no declaration is repeated,
and they come to the draft that they stand for. -/
theorem foldlM_take_eq_ok_iff {records : List Record} {e : Draft} :
    records.foldlM Draft.take {} = .ok e ↔
      (∀ r ∈ records, r.Sound) ∧ (records.filterMap Record.construct?).Nodup ∧
        e = draftOf records := by
  -- Records are split off at the end, because the warning for the last one depends on all others.
  induction records using List.reverseRecOn generalizing e with
  | nil =>
    constructor
    · intro hGiven
      cases hGiven
      exact ⟨by simp, by simp, rfl⟩
    · intro hGiven
      rcases hGiven with ⟨-, -, rfl⟩
      rfl
  | append_singleton records r ih =>
    have hNodup : ((records ++ [r]).filterMap Record.construct?).Nodup ↔
        (records.filterMap Record.construct?).Nodup ∧
          ∀ c, r.construct? = some c → c ∉ records.filterMap Record.construct? := by
      rw [List.filterMap_append]
      cases hConstruct : r.construct? with
      | none => simp [hConstruct]
      | some c =>
        have hLast : [r].filterMap Record.construct? = [c] := by simp [hConstruct]
        rw [hLast, List.nodup_append]
        constructor
        · intro hGiven
          rcases hGiven with ⟨hOnce, -, hNew⟩
          refine ⟨hOnce, fun other hOther hMem => hNew other hMem c (by simp) ?_⟩
          exact (Option.some.inj hOther).symm
        · intro hGiven
          rcases hGiven with ⟨hOnce, hNew⟩
          refine ⟨hOnce, by simp, fun other hMem last hLast => ?_⟩
          obtain rfl := List.mem_singleton.1 hLast
          exact fun e => hNew last rfl (e ▸ hMem)
    rw [foldlM_concat_eq_ok_iff, hNodup]
    constructor
    · intro hGiven
      rcases hGiven with ⟨d, hFirst, hTake⟩
      obtain ⟨hSound, hOnce, rfl⟩ := ih.1 hFirst
      obtain ⟨hLast, hFresh, rfl⟩ := take_eq_ok_iff.1 hTake
      refine ⟨?_, ⟨hOnce, hFresh⟩, rfl⟩
      intro q hq
      rcases List.mem_append.1 hq with hq | hq
      · exact hSound q hq
      · exact List.mem_singleton.1 hq ▸ hLast
    · intro hGiven
      rcases hGiven with ⟨hSound, ⟨hOnce, hFresh⟩, rfl⟩
      have hFront : ∀ q ∈ records, q.Sound := fun q hq => hSound q (List.mem_append_left _ hq)
      exact ⟨_, ih.2 ⟨hFront, hOnce, rfl⟩, take_eq_ok_iff.2 ⟨hSound r (by simp), hFresh, rfl⟩⟩

/-! ## §4 The Built Machine -/

/-- A build succeeds exactly on sound records without repeated declarations, and its result is the
machine of their draft with its warnings. -/
theorem buildRecords_eq_ok_iff {records : List Record} {source : String} {built : Built} :
    buildRecords records source = .ok built ↔
      (∀ r ∈ records, r.Sound) ∧ (records.filterMap Record.construct?).Nodup ∧
        built = ⟨(draftOf records).machine source, overwritesIn records⟩ := by
  unfold buildRecords
  rw [bind_eq_ok_iff]
  constructor
  · intro hGiven
    rcases hGiven with ⟨d, hTake, hBuilt⟩
    obtain ⟨hSound, hOnce, rfl⟩ := foldlM_take_eq_ok_iff.1 hTake
    exact ⟨hSound, hOnce, (Except.ok.inj hBuilt).symm⟩
  · intro hGiven
    rcases hGiven with ⟨hSound, hOnce, rfl⟩
    exact ⟨_, foldlM_take_eq_ok_iff.2 ⟨hSound, hOnce, rfl⟩, rfl⟩

/-- **What a build makes.** Its table holds under each key the last rule written for it, by the
program or by a composed library, and has its keys in the order in which they were first written.
There is a warning for each rule of the program whose key was written before, and none for rules
of libraries. The other parts of the machine are what the single declarations say, and nothing
where they are missing. -/
theorem buildRecords_meaning {records : List Record} {source : String} {built : Built}
    (hBuild : buildRecords records source = .ok built) :
    ((∀ r ∈ records, r.Sound) ∧ (records.filterMap Record.construct?).Nodup) ∧
      (∀ k, built.machine.table.get? k = lastFor? k (writtenBy records)) ∧
      built.machine.table.keys = ((writtenBy records).map Rule.key).eraseDups ∧
      built.warnings = overwritesIn records ∧
      built.machine.state = (records.findSome? Record.initialState?).getD "" ∧
      built.machine.finals = (records.findSome? Record.finalStates?).getD [] ∧
      built.machine.description = records.findSome? Record.description? ∧
      built.machine.composed = records.flatMap Record.libraryNames ∧
      built.machine.tape =
        Tape.restoreMargin ⟨(records.findSome? Record.cells?).getD [], 0⟩ ∧
      built.machine.visits = .empty ∧
      built.machine.source = some source := by
  obtain ⟨hSound, hOnce, rfl⟩ := buildRecords_eq_ok_iff.1 hBuild
  refine ⟨⟨hSound, hOnce⟩, ?_, ?_, rfl, rfl, rfl, rfl, rfl, rfl, rfl, rfl⟩
  · exact Table.get?_ofList (writtenBy records)
  · exact Table.keys_ofList (writtenBy records)

/-- A library overwrites a rule of the program in silence, and a rule of the program overwrites one
of the library with a warning. -/
theorem buildRecords_meaning_of_overwrites :
    let records : List Record :=
      [.rule none [⟨"q0", none⟩, ⟨"1", none⟩, ⟨"1", none⟩, ⟨"L", none⟩, ⟨"q7", none⟩],
        .composition none [⟨"sum", none⟩], .other none,
        .rule (some (.point 3 1))
          [⟨"q1", none⟩, ⟨"1", none⟩, ⟨"1", none⟩, ⟨"D", none⟩, ⟨"q7", none⟩]]
    ∃ built, buildRecords records "" = .ok built ∧
      built.warnings = [⟨.point 3 1, "q1", true⟩] ∧
      built.machine.table.keys = [("q0", true), ("q1", true), ("q1", false), ("q3", true)] ∧
      built.machine.table.get? ("q0", true) = some ⟨"q0", true, false, .right, "q1"⟩ := by
  intro records
  have hRules : composedRules "sum" =
      [⟨"q0", true, false, .right, "q1"⟩, ⟨"q1", true, true, .right, "q1"⟩,
        ⟨"q1", false, false, .right, "q3"⟩, ⟨"q3", true, false, .halt, "q2"⟩] := by
    show composedRules Library.sum.name = Library.sumRules
    exact composedRules_of_provides (Library.provides_of_mem_contents (by simp [Library.contents]))
  have hKnown : (composedTable? "sum").isSome = true :=
    composedTable?_isSome_iff.2 (by decide)
  have hSound : ∀ r ∈ records, r.Sound := by
    simp [records, hKnown, Rule.ofFields, Movement.ofSymbol?]
  have hBuild : buildRecords records "" =
      .ok ⟨(draftOf records).machine "", overwritesIn records⟩ :=
    buildRecords_eq_ok_iff.2 ⟨hSound, by decide, rfl⟩
  obtain ⟨-, hTable, hKeys, hWarnings, -⟩ := buildRecords_meaning hBuild
  have hWritten : writtenBy records =
      [⟨"q0", true, true, .left, "q7"⟩, ⟨"q0", true, false, .right, "q1"⟩,
        ⟨"q1", true, true, .right, "q1"⟩, ⟨"q1", false, false, .right, "q3"⟩,
        ⟨"q3", true, false, .halt, "q2"⟩, ⟨"q1", true, true, .right, "q7"⟩] := by
    simp [records, writtenBy, hRules, Rule.ofFields, Movement.ofSymbol?, Except.toOption]
  refine ⟨_, hBuild, ?_, ?_, ?_⟩
  · rw [hWarnings]
    simp [records, overwritesIn, overwritesAt, writtenBy, hRules, List.range_succ, Rule.ofFields,
      Movement.ofSymbol?, Except.toOption, Rule.key]
  · rw [hKeys, hWritten]
    decide
  · rw [hTable, hWritten]
    decide

end TapeMachine
