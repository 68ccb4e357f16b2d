import Mathlib.Data.List.Nodup
import TapeMachine.Proofs.Building
import TapeMachine.Proofs.Language.Placement
import TapeMachine.Proofs.Wordings

/-!
# The First Fault of a Program

A program that is read is built exactly if its records are valid. If they are not, the reader is
told of the first record that is at fault, and records after it make no difference.

* `ValidRecords` says what is asked of the records of a program;
* `Record.Offends` says what the reader is told of a record among those before it;
* `Record.Offends.take_eq_error` and `Record.exists_offends`: a record is refused with this
  complaint, and there is one for each record that is refused;
* `fault_of_build`: a text that is not built is not read, or one of its records offends;
* `build_reports_first_fault` puts these together.
-/

namespace TapeMachine

/-! ## §1 Valid Records -/

/-- The symbols that stand for movements. -/
def movementSymbols : List String := ["R", "D", "L", "I", "H", "N"]

/-- What is asked of the records of a program. -/
structure ValidRecords (records : List Record) : Prop where
  /-- Of the declarations that may occur once, none occurs twice. -/
  once : ∀ c : Construct, records.countP (fun r => r.construct? = some c) ≤ 1
  tape : ∀ span bits, Record.tape span bits ∈ records → ∃ bit ∈ bits, bit.text = "1"
  libraries : ∀ span names, Record.composition span names ∈ records →
    ∀ name ∈ names, name.text ∈ Registry.builtin.names
  movements : ∀ span fields, Record.rule span fields ∈ records →
    ∃ movement, fields[3]? = some movement ∧ movement.text ∈ movementSymbols

/-- The 0 that is dropped in front of a tape is not the 1 that is asked for. -/
theorem any_cellsOf_iff {bits : List Field} :
    (cellsOf bits).any id = true ↔ ∃ bit ∈ bits, bit.text = "1" := by
  have hDropped : (cellsOf bits).any id = (bits.map fun b => b.text == "1").any id := by
    unfold cellsOf
    split
    · next rest hBits => rw [hBits, List.any_cons, id, Bool.false_or]
    · rfl
  rw [hDropped]
  simp

theorem Movement.isSome_ofSymbol?_iff {symbol : String} :
    (ofSymbol? symbol).isSome = true ↔ symbol ∈ movementSymbols := by
  constructor
  · intro hSome
    unfold ofSymbol? at hSome
    split at hSome
    · simp [movementSymbols]
    · simp [movementSymbols]
    · simp [movementSymbols]
    · simp [movementSymbols]
    · simp [movementSymbols]
    · simp [movementSymbols]
    · cases hSome
  · intro hMem
    simp only [movementSymbols, List.mem_cons, List.not_mem_nil, or_false] at hMem
    rcases hMem with rfl | rfl | rfl | rfl | rfl | rfl <;> rfl

/-- Five words are a rule if the fourth is a movement. -/
theorem exists_ofFields_iff {state value write movement next : Field} :
    (∃ r, Rule.ofFields [state, value, write, movement, next] = .ok r) ↔
      movement.text ∈ movementSymbols := by
  rw [← Movement.isSome_ofSymbol?_iff]
  cases hSymbol : Movement.ofSymbol? movement.text <;> simp [Rule.ofFields, hSymbol]

/-- Where the fourth word is no movement, it is the fault. -/
theorem Rule.ofFields_of_unknown {state value write movement next : Field}
    (hUnknown : movement.text ∉ movementSymbols) :
    Rule.ofFields [state, value, write, movement, next] =
      .error (.unknownMovement movement.span movement.text) := by
  have hNone : Movement.ofSymbol? movement.text = none := by
    rw [← Option.not_isSome_iff_eq_none, Movement.isSome_ofSymbol?_iff]
    exact hUnknown
  simp only [Rule.ofFields, hNone]

/-- A declaration is made as often as there are records that make it. -/
theorem count_constructs (records : List Record) (c : Construct) :
    (records.filterMap Record.construct?).count c =
      records.countP fun r => r.construct? = some c := by
  induction records with
  | nil => rfl
  | cons r rest ih =>
    rw [List.countP_cons, ← ih]
    cases hConstruct : r.construct? with
    | none => simp [hConstruct]
    | some other => simp [hConstruct, List.count_cons]

/-- Records in the form of declarations are valid exactly if each is sound and no declaration is
repeated. -/
theorem validRecords_iff {records : List Record} (hPlaced : ∀ r ∈ records, r.Placed) :
    ValidRecords records ↔
      (∀ r ∈ records, r.Sound) ∧ (records.filterMap Record.construct?).Nodup := by
  have hCounts : (records.filterMap Record.construct?).Nodup ↔
      ∀ c : Construct, records.countP (fun r => r.construct? = some c) ≤ 1 := by
    simp only [← count_constructs]
    exact List.nodup_iff_count_le_one
  rw [hCounts]
  constructor
  · intro hValid
    refine ⟨fun r hr => ?_, hValid.once⟩
    cases r with
    | tape span bits => exact any_cellsOf_iff.2 (hValid.tape span bits hr)
    | composition span names =>
      intro name hName
      exact composedTable?_isSome_iff.2 (hValid.libraries span names hr name hName)
    | rule span fields =>
      obtain ⟨state, value, write, movement, next, rfl⟩ := (hPlaced _ hr).five_fields
      obtain ⟨found, hFound, hSymbol⟩ := hValid.movements span _ hr
      obtain rfl : movement = found := Option.some.inj hFound
      exact exists_ofFields_iff.2 hSymbol
    | description | initialState | finalStates | other => trivial
  · intro hGiven
    rcases hGiven with ⟨hSound, hOnce⟩
    refine ⟨hOnce, ?_, ?_, ?_⟩
    · intro span bits hr
      exact any_cellsOf_iff.1 (hSound _ hr)
    · intro span names hr name hName
      exact composedTable?_isSome_iff.1 (hSound _ hr name hName)
    · intro span fields hr
      obtain ⟨state, value, write, movement, next, rfl⟩ := (hPlaced _ hr).five_fields
      exact ⟨movement, rfl, exists_ofFields_iff.1 (hSound _ hr)⟩

/-! ## §2 Complaints -/

/-- What the reader is told of a record that may not stand after these. That a declaration is
repeated comes before all else that is wrong with it. -/
inductive Record.Offends (before : List Record) : Record → Complaint → Prop
  /-- Told where the record stands, with line and column of the first declaration of its kind. -/
  | repeated {r first : Record} {c : Construct} {here there : Span}
      (declares : r.construct? = some c)
      (isFirst : before.find? (fun q => q.construct? = some c) = some first)
      (place : r.span = some here) (firstPlace : first.span = some there) :
      Offends before r {
        origin := .declaration
        code := "CE2004"
        message := "duplicate " ++ c.text ++ " declaration (first declared at " ++
          toString there.line ++ ":" ++ toString there.col ++ ")"
        position := here
        expected := some c.text
        found := some c.text }
  /-- Told where the tape stands, with its digits. -/
  | blankTape {bits : List Field} {here : Span}
      (fresh : ∀ q ∈ before, q.construct? ≠ some .tape)
      (blank : ∀ bit ∈ bits, bit.text ≠ "1") :
      Offends before (.tape (some here) bits) {
        origin := .declaration
        code := "CE2001"
        message := "Expected at least a 1 in the tape"
        position := here
        snippet := digitsOf bits
        expected := some "tape" }
  /-- Told where the first unknown name stands, with this name. -/
  | unknownLibrary {span : Option Span} {front back : List Field} {name : Field} {here : Span}
      (fresh : ∀ q ∈ before, q.construct? ≠ some .composition)
      (known : ∀ other ∈ front, other.text ∈ Registry.builtin.names)
      (unknown : name.text ∉ Registry.builtin.names)
      (place : name.span = some here) :
      Offends before (.composition span (front ++ name :: back)) {
        origin := .declaration
        code := "CE2003"
        message := "Could not find the library \"" ++ name.text ++ "\""
        position := here
        snippet := name.text
        expected := some "library" }
  /-- Told where the movement stands, with its symbol. -/
  | unknownMovement {span : Option Span} {state value write movement next : Field} {here : Span}
      (unknown : movement.text ∉ movementSymbols)
      (place : movement.span = some here) :
      Offends before (.rule span [state, value, write, movement, next]) {
        origin := .declaration
        code := "CE2002"
        message := "\"" ++ movement.text ++ "\" is an unknown movement"
        position := here
        snippet := movement.text
        expected := some "movement" }

theorem complaint?_repeated (c : Construct) (here there : Span) :
    (Fault.repeated c (some here) (some there)).complaint? = some {
      origin := .declaration
      code := "CE2004"
      message := "duplicate " ++ c.text ++ " declaration (first declared at " ++
        toString there.line ++ ":" ++ toString there.col ++ ")"
      position := here
      expected := some c.text
      found := some c.text } := by
  have hPlace : there.startText = toString there.line ++ ":" ++ toString there.col := rfl
  have hWording : Catalog.wording "CE2004" [("construct", c.text), ("prev_loc", there.startText)] =
      "duplicate " ++ c.text ++ " declaration (first declared at " ++ there.startText ++ ")" :=
    Catalog.wording_eq rfl rfl
  rw [Fault.complaint?, placeText, hWording, hPlace]
  simp only [String.append_assoc, Option.getD_some]

theorem complaint?_unknownMovement (here : Span) (symbol : String) :
    (Fault.unknownMovement (some here) symbol).complaint? = some {
      origin := .declaration
      code := "CE2002"
      message := "\"" ++ symbol ++ "\" is an unknown movement"
      position := here
      snippet := symbol
      expected := some "movement" } := by
  have hWording : Catalog.wording "CE2002" [("symbol", symbol)] =
      "\"" ++ symbol ++ "\" is an unknown movement" :=
    Catalog.wording_eq rfl rfl
  rw [Fault.complaint?, hWording]
  rfl

/-! ## §3 Refused Records -/

/-- What was declared before is noted with the place of the first record that declares it. -/
theorem lookup_seen (records : List Record) (c : Construct) :
    (draftOf records).seen.lookup c =
      (records.find? fun q => q.construct? = some c).map Record.span := by
  show (records.filterMap Record.declaration?).lookup c = _
  induction records with
  | nil => rfl
  | cons r rest ih =>
    cases hConstruct : r.construct? with
    | none => simp [Record.declaration?, hConstruct, ih]
    | some other =>
      -- The first record is found if it makes this declaration, and else the rest is searched.
      by_cases hSame : other = c
      · simp [Record.declaration?, hConstruct, hSame]
      · have hOther : (c == other) = false := beq_eq_false_iff_ne.2 (Ne.symm hSame)
        simp [Record.declaration?, hConstruct, hSame, List.lookup_cons,
          hOther, ih]

/-- A record whose declaration was not made before is noted, and then looked into. -/
theorem take_of_fresh (before : List Record) (r : Record)
    (hFresh : ∀ c, r.construct? = some c → ∀ q ∈ before, q.construct? ≠ some c) :
    ∃ d : Draft, (draftOf before).take r = d.accept r := by
  have hNew : ∀ c, r.construct? = some c → c ∉ (draftOf before).seen.map Prod.fst := by
    intro c hc hMem
    have hMade : c ∈ before.filterMap Record.construct? := map_fst_declarations before ▸ hMem
    obtain ⟨q, hq, hSame⟩ := List.mem_filterMap.1 hMade
    exact hFresh c hc q hq hSame
  obtain ⟨d, hDeclare⟩ : ∃ d, (draftOf before).declare r = .ok d :=
    ⟨_, Draft.declare_eq_ok_iff.2 ⟨hNew, rfl⟩⟩
  refine ⟨d, ?_⟩
  rw [Draft.take, hDeclare, ok_bind]

/-- A library that is not there is complained about where its name stands. -/
theorem Draft.compose_of_unknown {d : Draft} {span : Option Span} {name : Field}
    (hUnknown : name.text ∉ Registry.builtin.names) :
    d.compose span name = .error (.unknownLibrary (name.span.or span) name.text) := by
  unfold compose
  cases hFind : Registry.builtin.find? name.text with
  | none => rfl
  | some library => exact absurd (Registry.of_find? hFind).2 hUnknown

namespace Record

variable {before : List Record} {r : Record} {complaint : Complaint}

/-- **Refused**: an offending record is refused, and the complaint is what the reader is told. -/
theorem Offends.take_eq_error (hOffends : r.Offends before complaint) :
    ∃ fault, (draftOf before).take r = .error fault ∧ fault.complaint? = some complaint := by
  cases hOffends with
  | @repeated _ first c here there declares isFirst place firstPlace =>
    refine ⟨.repeated c (some here) (some there), ?_, complaint?_repeated c here there⟩
    have hSeen : (draftOf before).seen.lookup c = some (some there) := by
      rw [lookup_seen, isFirst, Option.map_some, firstPlace]
    -- The repetition is found before the record is looked into.
    simp [Draft.take, Draft.declare, declares, hSeen, place]
  | @blankTape bits here fresh blank =>
    refine ⟨.blankTape (some here) (digitsOf bits), ?_, ?_⟩
    · obtain ⟨d, hTake⟩ := take_of_fresh before (.tape (some here) bits)
        (by rintro c ⟨⟩; exact fresh)
      have hBlank : ¬ (cellsOf bits).any id = true := by
        intro hAny
        obtain ⟨bit, hBit, hOne⟩ := any_cellsOf_iff.1 hAny
        exact blank bit hBit hOne
      rw [hTake, Draft.accept, if_neg hBlank]
    · have hWording : Catalog.wording "CE2001" [] = "Expected at least a 1 in the tape" :=
        Catalog.wording_eq rfl rfl
      rw [Fault.complaint?, hWording]
      rfl
  | @unknownLibrary span front back name here fresh known unknown place =>
    refine ⟨.unknownLibrary (some here) name.text, ?_, ?_⟩
    · obtain ⟨d, hTake⟩ := take_of_fresh before (.composition span (front ++ name :: back))
        (by rintro c ⟨⟩; exact fresh)
      -- The names before are composed, and this one is refused.
      have hKnown : ∀ other ∈ front, (composedTable? other.text).isSome = true :=
        fun other hOther => composedTable?_isSome_iff.2 (known other hOther)
      obtain ⟨e, hFront⟩ : ∃ e, front.foldlM (Draft.compose span) d = .ok e :=
        ⟨_, Draft.foldlM_compose_eq_ok_iff.2 ⟨hKnown, rfl⟩⟩
      rw [hTake]
      refine foldlM_eq_error_iff.2 ⟨front, name, back, e, rfl, hFront, ?_⟩
      rw [Draft.compose_of_unknown unknown, place, Option.some_or]
    · have hWording : Catalog.wording "CE2003" [("name", name.text)] =
          "Could not find the library \"" ++ name.text ++ "\"" :=
        Catalog.wording_eq rfl rfl
      rw [Fault.complaint?, hWording]
      rfl
  | @unknownMovement span state value write movement next here unknown place =>
    refine ⟨.unknownMovement (some here) movement.text, ?_,
      complaint?_unknownMovement here movement.text⟩
    obtain ⟨d, hTake⟩ := take_of_fresh before
      (.rule span [state, value, write, movement, next]) (by rintro c ⟨⟩)
    rw [hTake, Draft.accept, Rule.ofFields_of_unknown unknown, place, error_bind]

/-- A record that is not sound, or repeats a declaration, offends. -/
theorem exists_offends (hBefore : ∀ q ∈ before, q.Placed) (hPlaced : r.Placed)
    (hRefused : ¬(r.Sound ∧ ∀ c, r.construct? = some c → c ∉ before.filterMap construct?)) :
    ∃ complaint, r.Offends before complaint := by
  by_cases hFresh : ∀ c, r.construct? = some c → ∀ q ∈ before, q.construct? ≠ some c
  · -- The declaration is new, so that the record itself is not sound.
    have hUnsound : ¬ r.Sound := by
      intro hSound
      refine hRefused ⟨hSound, fun c hc hMem => ?_⟩
      obtain ⟨q, hq, hSame⟩ := List.mem_filterMap.1 hMem
      exact hFresh c hc q hq hSame
    cases r with
    | tape span bits =>
      obtain ⟨here, rfl⟩ : ∃ here, span = some here := hPlaced.place
      have hBlank : ∀ bit ∈ bits, bit.text ≠ "1" := by
        intro bit hBit hOne
        exact hUnsound (any_cellsOf_iff.2 ⟨bit, hBit, hOne⟩)
      exact ⟨_, .blankTape (hFresh .tape rfl) hBlank⟩
    | composition span names =>
      -- The names before the first unknown one are known.
      obtain ⟨name, hFind⟩ : ∃ name,
          names.find? (fun n => n.text ∉ Registry.builtin.names) = some name := by
        rw [← Option.isSome_iff_exists, List.find?_isSome]
        by_contra hNone
        refine hUnsound fun name hName => composedTable?_isSome_iff.2 ?_
        by_contra hUnknown
        exact hNone ⟨name, hName, decide_eq_true hUnknown⟩
      obtain ⟨hUnknown, front, back, rfl, hFront⟩ := List.find?_eq_some_iff_append.1 hFind
      have hKnown : ∀ other ∈ front, other.text ∈ Registry.builtin.names := by
        simpa using hFront
      obtain ⟨here, hHere⟩ := hPlaced.places name (by simp [fields])
      exact ⟨_, .unknownLibrary (hFresh .composition rfl) hKnown (of_decide_eq_true hUnknown) hHere⟩
    | rule span fields =>
      obtain ⟨state, value, write, movement, next, rfl⟩ := hPlaced.five_fields
      obtain ⟨here, hHere⟩ := hPlaced.places movement (by simp [Record.fields])
      have hSymbol : movement.text ∉ movementSymbols := fun h =>
        hUnsound (exists_ofFields_iff.2 h)
      exact ⟨_, .unknownMovement hSymbol hHere⟩
    | description | initialState | finalStates | other => exact absurd trivial hUnsound
  · -- The declaration was made before, and first by this record.
    push Not at hFresh
    obtain ⟨c, hc, q, hq, hSame⟩ := hFresh
    obtain ⟨first, hFirst⟩ : ∃ first, before.find? (fun q => q.construct? = some c) = some first := by
      rw [← Option.isSome_iff_exists, List.find?_isSome]
      exact ⟨q, hq, by simpa using hSame⟩
    obtain ⟨here, hHere⟩ := hPlaced.place
    obtain ⟨there, hThere⟩ := (hBefore first (List.mem_of_find?_eq_some hFirst)).place
    exact ⟨_, .repeated hc hFirst hHere hThere⟩

end Record

/-! ## §4 Builds -/

/-- Among records that are not valid, there is a first one that offends. -/
theorem exists_first_offending {records : List Record} (hPlaced : ∀ r ∈ records, r.Placed)
    (hInvalid : ¬ ValidRecords records) :
    ∃ before r after complaint, records = before ++ r :: after ∧ ValidRecords before ∧
      ¬ ValidRecords (before ++ [r]) ∧ r.Offends before complaint := by
  cases hTake : records.foldlM Draft.take {} with
  | ok d =>
    obtain ⟨hSound, hOnce, -⟩ := foldlM_take_eq_ok_iff.1 hTake
    exact absurd ((validRecords_iff hPlaced).2 ⟨hSound, hOnce⟩) hInvalid
  | error fault =>
    -- The records up to the fault were taken, and the next one is refused.
    obtain ⟨before, r, after, d, rfl, hBefore, hFault⟩ := foldlM_eq_error_iff.1 hTake
    obtain ⟨hSound, hOnce, rfl⟩ := foldlM_take_eq_ok_iff.1 hBefore
    have hFront : ∀ q ∈ before, q.Placed := fun q hq => hPlaced q (by simp [hq])
    have hWith : ∀ q ∈ before ++ [r], q.Placed := by
      intro q hq
      apply hPlaced
      rcases List.mem_append.1 hq with hq | hq
      · exact List.mem_append_left _ hq
      · exact List.mem_append_right _ (List.mem_singleton.1 hq ▸ List.mem_cons_self)
    have hRefused : ¬ (r.Sound ∧ ∀ c, r.construct? = some c →
        c ∉ before.filterMap Record.construct?) := by
      intro hGiven
      rw [take_eq_ok_iff.2 ⟨hGiven.1, hGiven.2, rfl⟩] at hFault
      cases hFault
    obtain ⟨complaint, hOffends⟩ := Record.exists_offends hFront (hWith r (by simp)) hRefused
    refine ⟨before, r, after, complaint, rfl, (validRecords_iff hFront).2 ⟨hSound, hOnce⟩, ?_,
      hOffends⟩
    intro hValid
    obtain ⟨hAll, hEach⟩ := (validRecords_iff hWith).1 hValid
    obtain ⟨e, hFirst, hLast⟩ :=
      foldlM_concat_eq_ok_iff.1 (foldlM_take_eq_ok_iff.2 ⟨hAll, hEach, rfl⟩)
    obtain rfl : draftOf before = e := Except.ok.inj (hBefore.symm.trans hFirst)
    rw [hFault] at hLast
    cases hLast

/-- A text that is not built is not read, or it has a record that offends among those before it. -/
theorem fault_of_build {source : String} {fault : Fault} (hFails : build source = .error fault) :
    Program.ofSource source = .error fault ∨
      ∃ p before r after complaint, Program.ofSource source = .ok p ∧
        p.records = before ++ r :: after ∧ r.Offends before complaint ∧
        fault.complaint? = some complaint := by
  cases hProgram : Program.ofSource source with
  | error other =>
    rw [build, hProgram, error_bind] at hFails
    exact .inl (congrArg _ (Except.error.inj hFails))
  | ok p =>
    rw [build, hProgram, ok_bind, buildRecords] at hFails
    have hPlaced := Program.placed_of_ofSource hProgram
    have hInvalid : ¬ ValidRecords p.records := by
      intro hValid
      obtain ⟨hSound, hOnce⟩ := (validRecords_iff hPlaced).1 hValid
      rw [foldlM_take_eq_ok_iff.2 ⟨hSound, hOnce, rfl⟩] at hFails
      cases hFails
    obtain ⟨before, r, after, complaint, hSplit, hValid, -, hOffends⟩ :=
      exists_first_offending hPlaced hInvalid
    obtain ⟨refusal, hTake, hComplaint⟩ := hOffends.take_eq_error
    -- The records before are taken, and the fault is that of the first that offends.
    have hFront : ∀ q ∈ before, q.Placed := fun q hq => hPlaced q (by simp [hSplit, hq])
    obtain ⟨hSound, hOnce⟩ := (validRecords_iff hFront).1 hValid
    have hFault : p.records.foldlM Draft.take {} = .error refusal :=
      foldlM_eq_error_iff.2
        ⟨before, r, after, _, hSplit, foldlM_take_eq_ok_iff.2 ⟨hSound, hOnce, rfl⟩, hTake⟩
    rw [hFault, error_bind] at hFails
    obtain rfl := Except.error.inj hFails
    exact .inr ⟨p, before, r, after, complaint, rfl, hSplit, hOffends, hComplaint⟩

/-- **The first fault**: a program that is read is built exactly if its records are valid. If they
are not, there is a first record with which they are not; it offends in one way, and this is what
the reader is told. Whatever records come after it, the fault is the same. -/
theorem build_reports_first_fault {source : String} {p : Program}
    (hProgram : Program.ofSource source = .ok p) :
    ((∃ built, build source = .ok built) ↔ ValidRecords p.records) ∧
      (¬ ValidRecords p.records → ∃ before r after fault complaint,
        p.records = before ++ r :: after ∧
        ValidRecords before ∧ ¬ ValidRecords (before ++ [r]) ∧
        r.Offends before complaint ∧ (∀ other, r.Offends before other → other = complaint) ∧
        build source = .error fault ∧ fault.complaint? = some complaint ∧
        ∀ later text, buildRecords (before ++ r :: later) text = .error fault) := by
  have hPlaced := Program.placed_of_ofSource hProgram
  have hBuild : build source = buildRecords p.records source := by
    rw [build, hProgram, ok_bind]
  constructor
  · rw [hBuild, validRecords_iff hPlaced]
    constructor
    · intro hBuilt
      obtain ⟨built, hBuilt⟩ := hBuilt
      obtain ⟨hSound, hOnce, -⟩ := buildRecords_eq_ok_iff.1 hBuilt
      exact ⟨hSound, hOnce⟩
    · intro hGiven
      exact ⟨_, buildRecords_eq_ok_iff.2 ⟨hGiven.1, hGiven.2, rfl⟩⟩
  · intro hInvalid
    obtain ⟨before, r, after, complaint, hSplit, hValid, hWith, hOffends⟩ :=
      exists_first_offending hPlaced hInvalid
    obtain ⟨fault, hTake, hComplaint⟩ := hOffends.take_eq_error
    -- The fault is found when the record is taken, before any later one is looked at.
    have hLater : ∀ later text, buildRecords (before ++ r :: later) text = .error fault := by
      intro later text
      have hFront : ∀ q ∈ before, q.Placed := fun q hq => hPlaced q (by simp [hSplit, hq])
      obtain ⟨hSound, hOnce⟩ := (validRecords_iff hFront).1 hValid
      have hTaken := foldlM_take_eq_ok_iff.2 ⟨hSound, hOnce, rfl⟩
      have hFails : (before ++ r :: later).foldlM Draft.take {} = .error fault :=
        foldlM_eq_error_iff.2 ⟨before, r, later, _, rfl, hTaken, hTake⟩
      rw [buildRecords, hFails, error_bind]
    refine ⟨before, r, after, fault, complaint, hSplit, hValid, hWith, hOffends, ?_, ?_,
      hComplaint, hLater⟩
    · intro other hOther
      obtain ⟨fault', hTake', hComplaint'⟩ := hOther.take_eq_error
      obtain rfl : fault = fault' := Except.error.inj (hTake.symm.trans hTake')
      exact Option.some.inj (hComplaint'.symm.trans hComplaint)
    · rw [hBuild, hSplit]
      exact hLater after source

set_option maxRecDepth 100000 in
/-- A second tape is what the reader is told of, although it is blank and a later rule has a
movement that there is not. -/
theorem build_reports_first_fault_of_second_tape :
    let source := "{1};\nI={a};\n {00};\n(a,1,1,X,a);"
    ∃ p, Program.ofSource source = .ok p ∧ ¬ ValidRecords p.records ∧
      ∃ before r after fault complaint,
        p.records = before ++ r :: after ∧ r.Offends before complaint ∧
        build source = .error fault ∧ fault.complaint? = some complaint ∧
        complaint.code = "CE2004" ∧ complaint.position = ⟨3, 2, some 3, some 7⟩ ∧
        complaint.message = "duplicate tape declaration (first declared at 1:1)" := by
  intro source
  have hReads : (Program.ofSource source).toOption.isSome = true := by decide +kernel
  obtain ⟨p, hRead⟩ := Option.isSome_iff_exists.1 hReads
  have hProgram : Program.ofSource source = .ok p := eq_ok_of_toOption hRead
  have hFault : build source = .error (.repeated .tape (some ⟨3, 2, some 3, some 7⟩)
      (some ⟨1, 1, some 1, some 5⟩)) := by
    unfold source
    rfl
  obtain ⟨hBuilds, hReports⟩ := build_reports_first_fault hProgram
  have hInvalid : ¬ ValidRecords p.records := by
    intro hValid
    obtain ⟨built, hBuilt⟩ := hBuilds.2 hValid
    rw [hFault] at hBuilt
    cases hBuilt
  obtain ⟨before, r, after, fault, complaint, hSplit, -, -, hOffends, -, hBuild, hComplaint, -⟩ :=
    hReports hInvalid
  refine ⟨p, hProgram, hInvalid, before, r, after, fault, complaint, hSplit, hOffends, hBuild,
    hComplaint, ?_⟩
  rw [hBuild] at hFault
  cases hFault
  rw [complaint?_repeated] at hComplaint
  cases hComplaint
  exact ⟨rfl, rfl, by decide⟩

end TapeMachine
