import Mathlib.Data.List.Nodup
import TapeMachine.Proofs.Building
import TapeMachine.Proofs.Scenes

/-!
# Problems for Libraries

A program poses a problem to a library when it writes the arguments on the tape, composes the
library, and begins and ends in the states in which the library does. Whatever rules the program
has besides, for other states than those of the library, they change nothing.

* `Library.Poses` describes such programs;
* `Library.Poses.table_get?`: the machine that is built has the rules of the library;
* `Library.Poses.runToStop`: it stops with what the library computes;
* `Library.Answers` says this of all programs that pose a problem.
-/

namespace TapeMachine

/-! ## §1 Programs that Pose a Problem -/

/-- A valid rule for a state that a library does not use. -/
def Library.Spares (l : Library) (r : Record) : Prop :=
  ∃ span fields rule, r = .rule span fields ∧ Rule.ofFields fields = .ok rule ∧
    rule.state ∉ l.usedStates

/-- Records with a tape of these cells, the initial and the final state of a library, and its
composition, in any order and among any rules for states that the library does not use. -/
inductive Library.Poses (l : Library) (cells : List Bool) (records : List Record) : Prop where
  | intro (tapeSpan initialSpan finalSpan compositionSpan : Option Span) (bits : List Field)
      (initial final name : Field) (others : List Record)
      (order : records.Perm
        (.tape tapeSpan bits :: .initialState initialSpan initial ::
          .finalStates finalSpan [final] :: .composition compositionSpan [name] :: others))
      (digits : bits.map Field.text = cells.map bitText)
      (initialText : initial.text = l.initialState) (finalText : final.text = l.finalState)
      (nameText : name.text = l.name) (spares : ∀ r ∈ others, l.Spares r)

/-- Digits that begin with a 1 declare the cells that they show. -/
theorem cellsOf_of_digits {bits : List Field} {cells : List Bool}
    (hDigits : bits.map Field.text = cells.map bitText) (hFirst : cells.head? = some true) :
    cellsOf bits = cells := by
  obtain ⟨rest, rfl⟩ := List.head?_eq_some_iff.1 hFirst
  unfold cellsOf
  rw [map_beq_of_digits hDigits]

/-- Rules that a library spares declare nothing else. -/
theorem Library.filterMap_of_spares {α : Type} {l : Library} {f : Record → Option α}
    {others : List Record} (hSpares : ∀ r ∈ others, l.Spares r)
    (hRule : ∀ span fields, f (.rule span fields) = none) : others.filterMap f = [] := by
  rw [List.filterMap_eq_nil_iff]
  intro r hr
  obtain ⟨span, fields, rule, rfl, -⟩ := hSpares r hr
  exact hRule span fields

/-- What is said once by some records is said by them in any order, and among any rules that a
library spares. -/
theorem Library.findSome?_of_spares {α : Type} {l : Library} {f : Record → Option α}
    {records front others : List Record} {x : α} (hOrder : records.Perm (front ++ others))
    (hSpares : ∀ r ∈ others, l.Spares r) (hRule : ∀ span fields, f (.rule span fields) = none)
    (hOnce : front.filterMap f = [x]) : records.findSome? f = some x := by
  have hSaid : (front ++ others).filterMap f = [x] := by
    rw [List.filterMap_append, hOnce, filterMap_of_spares hSpares hRule, List.append_nil]
  have hOne : records.filterMap f = [x] := List.perm_singleton.1 (hSaid ▸ hOrder.filterMap f)
  rw [← List.head?_filterMap, hOne]
  rfl

namespace Library.Poses

/-! ## §2 The Machine of a Problem -/

variable {l : Library} {rules : List Rule} {cells : List Bool} {records : List Record}

/-- The records of a problem can be built. -/
theorem sound (hPoses : l.Poses cells records) (hProvides : l.Provides rules)
    (hFirst : cells.head? = some true) :
    (∀ r ∈ records, r.Sound) ∧ (records.filterMap Record.construct?).Nodup := by
  obtain ⟨_, _, _, _, bits, initial, final, name, others, hOrder, hDigits, -, -, hName, hSpares⟩ :=
    hPoses
  constructor
  · intro r hr
    have hMem := hOrder.mem_iff.1 hr
    simp only [List.mem_cons] at hMem
    rcases hMem with rfl | rfl | rfl | rfl | hOther
    · -- The tape begins with a 1.
      rw [Record.Sound, cellsOf_of_digits hDigits hFirst]
      obtain ⟨rest, rfl⟩ := List.head?_eq_some_iff.1 hFirst
      rfl
    · trivial
    · trivial
    · intro known hKnown
      rw [List.mem_singleton.1 hKnown, hName, composedTable?_of_provides hProvides]
      rfl
    · obtain ⟨span, fields, rule, rfl, hRule, -⟩ := hSpares r hOther
      exact ⟨rule, hRule⟩
  · -- The other records declare nothing that may be declared only once.
    have hOthers : others.filterMap Record.construct? = [] :=
      filterMap_of_spares hSpares fun _ _ => rfl
    rw [(hOrder.filterMap _).nodup_iff]
    simp [Record.construct?, hOthers]

/-- The rules that the records of a problem write are those of the library, and others for states
that the library does not use. -/
theorem mem_writtenBy (hPoses : l.Poses cells records) (hProvides : l.Provides rules) :
    (∀ r ∈ rules, r ∈ writtenBy records) ∧
      ∀ r ∈ writtenBy records, r.state ∈ l.usedStates → r ∈ rules := by
  obtain ⟨_, _, _, span, bits, initial, final, name, others, hOrder, -, -, -, hName, hSpares⟩ :=
    hPoses
  have hWrites : (Record.composition span [name]).writes = rules := by
    simp [hName, composedRules_of_provides hProvides]
  constructor
  · intro r hr
    apply List.mem_flatMap.2
    exact ⟨.composition span [name], hOrder.mem_iff.2 (by simp), hWrites.symm ▸ hr⟩
  · intro r hr hUsed
    obtain ⟨record, hRecord, hWritten⟩ := List.mem_flatMap.1 hr
    have hMem := hOrder.mem_iff.1 hRecord
    simp only [List.mem_cons] at hMem
    rcases hMem with rfl | rfl | rfl | rfl | hOther
    · cases hWritten
    · cases hWritten
    · cases hWritten
    · exact hWrites ▸ hWritten
    · -- A rule of the program is for a state that the library does not use.
      obtain ⟨_, fields, rule, rfl, hRule, hSpare⟩ := hSpares record hOther
      rw [Record.writes, hRule] at hWritten
      obtain rfl : r = rule := by simpa [Except.toOption] using hWritten
      exact absurd hUsed hSpare

/-- In the table of a problem the rules of the library stand under their keys. -/
theorem table_get? (hPoses : l.Poses cells records) (hProvides : l.Provides rules) :
    ∀ r ∈ rules, (Table.ofList (writtenBy records)).get? r.key = some r := by
  intro r hr
  obtain ⟨hAll, hOnly⟩ := hPoses.mem_writtenBy hProvides
  rw [Table.get?_ofList]
  refine lastFor?_eq_some (hAll r hr) fun q hq hKey => ?_
  have hState : q.state = r.state := congrArg Prod.fst hKey
  have hRule : q ∈ rules := hOnly q hq (hState ▸ hProvides.used r hr)
  exact List.inj_on_of_nodup_map hProvides.distinct hRule hr hKey

/-- A problem declares the two states of the library, and the cells. -/
theorem declared (hPoses : l.Poses cells records) (hFirst : cells.head? = some true) :
    records.findSome? Record.initialState? = some l.initialState ∧
      records.findSome? Record.finalStates? = some [l.finalState] ∧
      records.findSome? Record.cells? = some cells := by
  obtain ⟨tapeSpan, initialSpan, finalSpan, span, bits, initial, final, name, others, hOrder,
    hDigits, hInitial, hFinal, -, hSpares⟩ := hPoses
  have hFront : records.Perm ([.tape tapeSpan bits, .initialState initialSpan initial,
      .finalStates finalSpan [final], .composition span [name]] ++ others) := hOrder
  refine ⟨?_, ?_, ?_⟩
  · refine findSome?_of_spares hFront hSpares (fun _ _ => rfl) ?_
    simp [List.filterMap_cons, hInitial]
  · refine findSome?_of_spares hFront hSpares (fun _ _ => rfl) ?_
    simp [List.filterMap_cons, hFinal]
  · refine findSome?_of_spares hFront hSpares (fun _ _ => rfl) ?_
    simp [cellsOf_of_digits hDigits hFirst]

/-! ## §3 The Run of a Problem -/

/-- **Problems are solved**: the machine of a problem is built, from records or from a text that has
them, and it stops with as many cells with 1 as a computation of the library from its initial to its
final state leaves. -/
theorem runToStop (hPoses : l.Poses cells records) (hProvides : l.Provides rules)
    (hFirst : cells.head? = some true) {n : Nat} {c d : Scene}
    (hStart : c.configuration = (Scene.mk l.initialState [] cells).configuration)
    (hComputes : Scene.Computes rules n c d) (hEnd : d.state = l.finalState) (source : String) :
    ∃ built last, buildRecords records source = .ok built ∧
      (∀ p, Program.ofSource source = .ok p → p.records = records → build source = .ok built) ∧
      ∀ limit, built.machine.runToStop limit =
        .ok (if n ≤ limit then some (.defined n d.ones, last) else none) := by
  obtain ⟨hSound, hOnce⟩ := hPoses.sound hProvides hFirst
  obtain ⟨hState, hFinals, hCells⟩ := hPoses.declared hFirst
  let m := (draftOf records).machine source
  have hTape : m.tape = Tape.restoreMargin ⟨cells, 0⟩ := by
    show Tape.restoreMargin ⟨(records.findSome? Record.cells?).getD [], 0⟩ = _
    rw [hCells, Option.getD_some]
  have hMachineFinals : m.finals = [l.finalState] := by
    show (records.findSome? Record.finalStates?).getD [] = _
    rw [hFinals, Option.getD_some]
  have hConfiguration : m.configuration = c.configuration := by
    have hMachineState : m.state = l.initialState := by
      show (records.findSome? Record.initialState?).getD "" = _
      rw [hState, Option.getD_some]
    rw [hStart, Machine.configuration, Scene.configuration, hMachineState, hTape]
    congr 1
    funext distance
    rw [Tape.view_restoreMargin, Tape.view_first l.initialState]
  have hOther : ∀ r ∈ rules, r.state ∉ m.finals := by
    intro r hr
    rw [hMachineFinals, List.mem_singleton]
    exact hProvides.halts r hr
  obtain ⟨last, hRun⟩ := Machine.runToStop_of_computes (m := m) hComputes
    (hTape ▸ Tape.onCell_restoreMargin _) hConfiguration (hPoses.table_get? hProvides) hOther
    (by rw [hEnd, hMachineFinals]; exact List.mem_singleton_self _)
  have hBuild : buildRecords records source = .ok ⟨m, overwritesIn records⟩ :=
    buildRecords_eq_ok_iff.2 ⟨hSound, hOnce, rfl⟩
  refine ⟨_, last, hBuild, fun p hProgram hRecords => ?_, hRun⟩
  rw [build, hProgram, ok_bind, hRecords, hBuild]

end Library.Poses

/-! ## §4 Answers -/

/-- Every program that poses a problem to a library is built, and its machine stops after so many
steps with so many cells with 1. -/
def Library.Answers (l : Library) (cells : List Bool) (steps ones : Nat) : Prop :=
  ∀ (records : List Record) (source : String), l.Poses cells records →
    ∃ built last, buildRecords records source = .ok built ∧
      (∀ p, Program.ofSource source = .ok p → p.records = records → build source = .ok built) ∧
      ∀ limit, built.machine.runToStop limit =
        .ok (if steps ≤ limit then some (.defined steps ones, last) else none)

/-- A library answers what it computes. -/
theorem Library.answers_of_computes {l : Library} {rules : List Rule} {cells : List Bool}
    (hProvides : l.Provides rules) (hFirst : cells.head? = some true) {n : Nat} {d : Scene}
    (hComputes : Scene.Computes rules n ⟨l.initialState, [], cells⟩ d)
    (hEnd : d.state = l.finalState) : l.Answers cells n d.ones :=
  fun _ source hPoses => hPoses.runToStop hProvides hFirst rfl hComputes hEnd source

end TapeMachine
