import TapeMachine.Build
import TapeMachine.Run

/-!
# Notes

Building and running can be followed step by step in notes, which are shown from a chosen level
on. Notes never change what is done.

* `Draft.notes` are the notes on taking one record;
* `buildNotes` are those on a whole build;
* `Stop.notes` are those on the end of a run.
-/

namespace TapeMachine

/-- How important a note is. -/
inductive NoteLevel where
  | debug
  | info
  | warning
  | error
  deriving DecidableEq, Repr

/-- The name of a level. -/
def NoteLevel.text : NoteLevel → String
  | .debug => "DEBUG"
  | .info => "INFO"
  | .warning => "WARNING"
  | .error => "ERROR"

/-- The rank of a level among the others. -/
def NoteLevel.rank : NoteLevel → Nat
  | .debug => 0
  | .info => 1
  | .warning => 2
  | .error => 3

/-- Which part of the work a note comes from. -/
inductive NoteTopic where
  | build
  | table
  | machine
  deriving DecidableEq, Repr

/-- The name of a part. -/
def NoteTopic.text : NoteTopic → String
  | .build => "turing_lang.compiler.builder"
  | .table => "turing_lang.backend.transition_table"
  | .machine => "turing_lang.backend.machine"

/-- A note. -/
structure Note where
  level : NoteLevel
  topic : NoteTopic
  message : String
  deriving DecidableEq, Repr

/-- A note on a line of its own. -/
def Note.line (n : Note) : String := s!"[{n.level.text}] {n.topic.text}: {n.message}\n"

/-- The lines of the notes from a level on. -/
def showNotes (level : NoteLevel) (notes : List Note) : String :=
  String.join ((notes.filter fun n => level.rank ≤ n.level.rank).map Note.line)

/-! ## Notes on a Build -/

/-- The notes on composing libraries, up to the first that is not known. -/
def compositionNotes : List Field → List Note
  | [] => []
  | name :: rest =>
    match Registry.builtin.find? name.text with
    | none => [⟨.error, .build, s!"Could not find the library {Text.quoted name.text}"⟩]
    | some library =>
      ⟨.debug, .build, s!"Found composition of {library.name}, composing..."⟩ ::
        compositionNotes rest

/-- The notes on a tape declaration. -/
def tapeNotes (bits : List Field) : List Note :=
  let digits := digitsOf bits
  let dropped := (bits.head?.map fun b => b.text != "1").getD false
  let last : Note :=
    if (cellsOf bits).any id then ⟨.debug, .build, s!"Tape: {digits}"⟩
    else ⟨.error, .build, "The tape did not contain at least a 1"⟩
  [⟨.debug, .build, s!"Entered tape rule: {digits}"⟩] ++
    (if dropped then [⟨.info, .build, "The tape started with a 0, skipping it"⟩] else []) ++
    [last]

/-- The notes on a description line. -/
def descriptionNotes (d : Draft) (text : String) : List Note :=
  let quoted := Text.quoted text
  if d.description.isSome then
    [⟨.debug, .build, s!"Ignoring extra description line: {quoted}"⟩]
  else if text != "" then [⟨.debug, .build, s!"Found description: {quoted}"⟩]
  else []

/-- The notes on a rule. -/
def ruleNotes (d : Draft) (fields : List Field) : List Note :=
  match Rule.ofFields fields with
  | .error _ => []
  | .ok rule =>
    let overwritten : List Note :=
      if d.table.contains rule.key then
        [⟨.warning, .table, s!"Instruction {rule.text} already exists, overwriting it"⟩]
      else []
    overwritten ++ [⟨.debug, .build, s!"Found instruction {rule.text}"⟩]

/-- The notes on taking a record; a repeated declaration gets none. -/
def Draft.notes (d : Draft) (r : Record) : List Note :=
  match d.declare r with
  | .error _ => []
  | .ok d =>
    match r with
    | .description _ text => descriptionNotes d text
    | .tape _ bits => tapeNotes bits
    | .initialState _ state =>
      [⟨.debug, .build, s!"The initial state is {Text.quoted state.text}"⟩]
    | .finalStates _ states =>
      let listed := Text.quotedList (states.map Field.text)
      [⟨.debug, .build, s!"The final states are {listed}"⟩]
    | .composition _ libraries => compositionNotes libraries
    | .rule _ fields => ruleNotes d fields
    | .other _ => []

/-- The notes on a build from a draft on, up to the first fault. -/
def buildNotesFrom (d : Draft) : List Record → List Note
  | [] =>
    let listed := Text.quotedList (d.table.rules.map Rule.text)
    [⟨.debug, .build, s!"The instructions are {listed}"⟩]
  | r :: rest =>
    d.notes r ++
      match d.take r with
      | .ok next => buildNotesFrom next rest
      | .error _ => []

/-- The notes on building from records. -/
def buildNotes (records : List Record) : List Note := buildNotesFrom {} records

/-! ## Notes on a Run -/

/-- The notes on the end of a run. -/
def Stop.notes : Stop → List Note
  | .undefined state value =>
    [⟨.error, .machine, s!"No instruction given for state ({state}, {bitText value})"⟩]
  | _ => []

end TapeMachine
