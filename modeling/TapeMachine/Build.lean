import TapeMachine.Library.Builtin
import TapeMachine.Machine

/-!
# Building a Machine

The records of a program are taken one after the other into a draft, and the draft becomes a
machine. Tape, initial state, final states and composition may each be declared once. Rules and
composed libraries write to one table, in order; a rule that replaces another gives a warning.

* `Draft.take` takes one record, or answers the fault in it;
* `buildRecords` builds from records, `build` from a text;
* `Machine.reset` builds the machine's own text again.
-/

namespace TapeMachine

/-! ## §1 Drafts -/

/-- What the records taken so far have declared. -/
structure Draft where
  table : Table := .empty
  finals : List String := []
  state : String := ""
  cells : List Bool := []
  description : Option String := none
  /-- Names of the composed libraries, in order. -/
  composed : List String := []
  warnings : List Overwrite := []
  /-- The declarations made so far, with their places. -/
  seen : List (Construct × Option Span) := []
  deriving DecidableEq

/-- Which of the declarations that may occur once a record makes. -/
def Record.construct? : Record → Option Construct
  | .tape .. => some .tape
  | .initialState .. => some .initialState
  | .finalStates .. => some .finalStates
  | .composition .. => some .composition
  | .description .. | .rule .. | .other _ => none

/-- The cells that the digits of a tape declare. One 0 in front is dropped. -/
def cellsOf (bits : List Field) : List Bool :=
  match bits.map fun b => b.text == "1" with
  | false :: rest => rest
  | cells => cells

namespace Draft

/-- Notes that a record makes a declaration, unless that was made before. -/
def declare (d : Draft) (r : Record) : Except Fault Draft :=
  match r.construct? with
  | none => .ok d
  | some construct =>
    match d.seen.lookup construct with
    | some first => .error (.repeated construct r.span first)
    | none => .ok { d with seen := d.seen ++ [(construct, r.span)] }

/-- Composes the library of a name; `span` is where the composition stands. -/
def compose (span : Option Span) (d : Draft) (name : Field) : Except Fault Draft :=
  match Registry.builtin.find? name.text with
  | none => .error (.unknownLibrary (name.span.or span) name.text)
  | some library => do
    let table ← library.table
    return { d with
      table := (d.table.merge .silent table.rules).1
      composed := d.composed ++ [library.name] }

/-- Takes what a record says, when it may say it. -/
def accept (d : Draft) : Record → Except Fault Draft
  | .description _ text =>
    .ok (if d.description.isNone && text != "" then { d with description := some text } else d)
  | .tape span bits =>
    let cells := cellsOf bits
    if cells.any id then .ok { d with cells } else .error (.blankTape span (digitsOf bits))
  | .initialState _ state => .ok { d with state := state.text }
  | .finalStates _ states => .ok { d with finals := states.map Field.text }
  | .composition span libraries => libraries.foldlM (compose span) d
  | .rule span fields => do
    let rule ← Rule.ofFields fields
    return { d with
      table := d.table.insert rule
      warnings := d.warnings ++ (d.table.overwrite? rule .warn span).toList }
  | .other _ => .ok d

/-- Takes a record. A repeated declaration comes before any other fault of the record. -/
def take (d : Draft) (r : Record) : Except Fault Draft := do
  let d ← d.declare r
  d.accept r

/-- The machine of a draft, on the first cell of its tape. -/
def machine (d : Draft) (source : String) : Machine :=
  Machine.restoreMargin
    { table := d.table
      finals := d.finals
      state := d.state
      tape := ⟨d.cells, 0⟩
      description := d.description
      composed := d.composed
      source := some source }

end Draft

/-! ## §2 Building -/

/-- A machine with the warnings of its build. -/
structure Built where
  machine : Machine
  warnings : List Overwrite
  deriving DecidableEq

/-- Builds a machine from records, to go with this text. -/
def buildRecords (records : List Record) (source : String) : Except Fault Built := do
  let draft ← records.foldlM Draft.take {}
  return ⟨draft.machine source, draft.warnings⟩

/-- Builds a machine from a text. -/
def build (source : String) : Except Fault Built := do
  let program ← Program.ofSource source
  buildRecords program.records source

/-- Builds the machine again from the text it came from; one without a text is halted. -/
def Machine.reset (m : Machine) : Except Fault Machine :=
  match m.source with
  | none => .ok .halted
  | some source => (build source).map Built.machine

end TapeMachine
