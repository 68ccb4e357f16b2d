import TapeMachine.Command.Files
import TapeMachine.Command.Options
import TapeMachine.Note
import TapeMachine.Report
import TapeMachine.Text.Utf8

/-!
# Sessions

One run of the command line, as a function from arguments and surroundings to what is written
and the exit code. Reading a file is a function too, so that a session needs no disk.

* `Session.run` answers a command line;
* `Finished.exit` is 0 for a halted program, 1 if its build gave warnings, 2 for errors before
  the run, and 3 for a run that stopped before a final state.
-/

namespace TapeMachine

/-! ## §1 What a Session Needs and Gives -/

/-- The first lines of a session: the version of this program, and what else it runs with. -/
structure Banner where
  version : String
  details : String
  deriving DecidableEq, Repr

/-- The banner; on a terminal its names stand out. -/
def Banner.text (b : Banner) (isTerminal : Bool) : String :=
  let name := "Turing machine compiler"
  if isTerminal then
    let (bold, dim, reset) := (Report.escape "1", Report.escape "2", Report.escape "0")
    s!"{bold}{name}{reset} • {b.version}\n{dim}{b.details}{reset}\n\n"
  else s!"{name} • {b.version}\n{b.details}\n\n"

/-- The surroundings of a session. -/
structure Setup where
  banner : Banner
  /-- Whether standard output is a terminal. -/
  outputIsTerminal : Bool := false
  /-- Where diagnostics are printed. -/
  screen : Report.Screen := { isTerminal := false }
  directory : Path
  /-- The directory that sources are looked for in, if it is another one. -/
  sourceDirectory : Option String := none
  read : Path → Except ReadFault (List Nat)
  /-- How many batches a run may take before the session gives up. -/
  batches : Nat

/-- What a session has written, and its exit code. -/
structure Finished where
  exit : Nat
  stdout : String
  stderr : String
  deriving DecidableEq, Repr

/-- Why a session gave no answer. -/
inductive Abandoned where
  /-- No file can have the name of the source: it holds a character with the number 0. -/
  | nullInName
  /-- The source is not UTF-8. -/
  | undecodable (fault : Text.Utf8.Fault)
  /-- A fault that no program has. -/
  | internal (fault : Fault)
  | tape (fault : TapeFault)
  /-- The run depends on a setting that was left without a value. -/
  | valueless (s : Setting)
  /-- The run took more batches than allowed. -/
  | unfinished
  deriving DecidableEq, Repr

/-! ## §2 Sources -/

/-- Every line end of the three common kinds as a line feed. -/
def unifyLineEnds : List Char → List Char
  | [] => []
  | '\r' :: '\n' :: rest => '\n' :: unifyLineEnds rest
  | '\r' :: rest => '\n' :: unifyLineEnds rest
  | c :: rest => c :: unifyLineEnds rest

/-- The text in the bytes of a source. -/
def decodeSource (bytes : List Nat) : Except Text.Utf8.Fault String :=
  (Text.Utf8.decode bytes).map fun cs => String.ofList (unifyLineEnds cs)

/-- The path of a source. -/
def Setup.sourcePath (s : Setup) (source : String) : Path :=
  match s.sourceDirectory with
  | some directory =>
    if directory = "" then s.directory.resolve source
    else (s.directory.resolve directory).resolve source
  | none => s.directory.resolve source

/-! ## §3 Libraries on Request -/

/-- A text filled up with spaces to a width. -/
def padded (width : Nat) (text : String) : String :=
  text ++ String.ofList (List.replicate (width - text.length) ' ')

/-- The list of the libraries. -/
def libraryList (r : Registry) : String :=
  let width := (r.names.map String.length).foldl max 0
  let line (l : Library) : String := s!"  {padded width l.name}  {l.description}\n"
  s!"Libraries ({r.libraries.length}):\n" ++ String.join (r.libraries.map line)

/-- States by length, then in order, and once each. -/
def sortStates (states : List String) : List String :=
  states.eraseDups.mergeSort fun a b =>
    decide (a.length < b.length) || (a.length == b.length && decide (a ≤ b))

/-- All about one library. -/
def libraryInfo (l : Library) : Except Fault String := do
  let table ← l.table
  let used := ", ".intercalate (sortStates l.usedStates)
  return s!"Library: {l.name}\nComputes: {l.description}\nInitial state: {l.initialState}\n" ++
    s!"Final state: {l.finalState}\nUsed states: {used}\n\nInstructions ({table.size}):\n" ++
    String.join (table.rules.map fun r => s!"  {r.text}\n")

/-! ## §4 Programs -/

/-- What the dump options show of a source. -/
def dumps (o : Options) (source : String) : Except Fault String := do
  if o.dumpParse || o.dumpAst then
    let tree ← Tree.ofSource source
    match Program.ofTree tree with
    | .error fault => .error (.tree fault)
    | .ok program =>
      let parse := if o.dumpParse then tree.outline ++ "\n" else ""
      let records := String.join (program.records.map fun r => r.listing ++ "\n")
      return parse ++ (if o.dumpAst then records ++ "\n" else "")
  else return ""

/-- The level from which on notes are shown. -/
def Options.noteLevel (o : Options) : NoteLevel :=
  match o.verbosity with
  | 0 => .warning
  | 1 => .info
  | _ => .debug

/-- Whether a setting was left without a value. -/
def Options.lacks (o : Options) (s : Setting) : Bool := o.valueless.contains s

/-- The limits of a run. Without a threshold the run goes no further than one batch. -/
def Options.limits (o : Options) : Limits :=
  ⟨if o.lacks .threshold then 0 else o.threshold, o.batch, o.maxSteps.map fun n => (n : Int)⟩

/-- The setting without a value that the first step of a run needs. -/
def Options.lackedAtStart? (o : Options) : Option Setting :=
  [Setting.batch, .maxSteps].find? o.lacks

/-- A machine as it is shown before the run. -/
def introduction (m : Machine) : String :=
  let description := match m.description with
    | some text => s!"Description: {text}\n"
    | none => ""
  let composed := ", ".intercalate m.composed
  let libraries := if m.composed.isEmpty then "" else s!"Composed: {composed}\n"
  s!"{description}{libraries}{m.display}\n\n"

/-- What is printed while a machine runs: the tape after each step if that is wanted, and a line
at the step limit. -/
def runLines (stop : Stop) (p : Progress) : String :=
  let shown := String.join (p.shown.toList.map fun display => display ++ "\n")
  match stop with
  | .exhausted most => s!"{shown}Stopped after the maximum of {most} steps\n"
  | _ => shown

/-- Whole numbers in brackets. -/
def numberList (ns : List Nat) : String :=
  "[" ++ ", ".intercalate (ns.map toString) ++ "]"

/-- What a run has come to. -/
def summary (p : Progress) : String :=
  let tape := p.machine.tape
  let values := numberList tape.values
  s!"steps: {p.steps}\nones: {tape.ones}\nvalues: {values}\n{p.machine.display}\n"

/-- The exit code after a run. -/
def exitCode (stop : Stop) (warnings : List Overwrite) : Nat :=
  if stop ≠ .final then 3 else if warnings.isEmpty then 0 else 1

namespace Session

/-- The notes on building a source that may not be in the language. -/
def notesOn (source : String) : List Note :=
  match Program.ofSource source with
  | .ok program => buildNotes program.records
  | .error _ => []

/-- What is written ahead of a complaint: one about a library names the source, if there is one,
because it has no place in it. -/
def introduce (c : Complaint) (path : String) : String :=
  match c.origin with
  | .library => if path = "" then "" else s!"Internal error while building {path}:\n"
  | _ => ""

/-- What is written when the build fails. -/
def refuse (s : Setup) (o : Options) (path source : String) (dumped : Except Fault String)
    (fault : Fault) : Except Abandoned Finished :=
  match fault.complaint? with
  | none => .error (.internal fault)
  | some complaint =>
    let report := (Report.on (some source) path).addComplaint complaint
    let shown := match dumped with
      | .ok text => text
      | .error _ => ""
    .ok {
      exit := 2
      stdout := shown ++ "\n"
      stderr := showNotes o.noteLevel (notesOn source) ++ introduce complaint path ++
        report.printed (s.screen.style none none) }

/-- Runs a machine. A machine that has halted already needs no limits. -/
def runMachine (s : Setup) (o : Options) (m : Machine) : Except Abandoned (Stop × Progress) :=
  match if m.finished then none else o.lackedAtStart? with
  | some setting => .error (.valueless setting)
  | none =>
    match m.drive s.batches o.limits o.trace with
    | .error fault => .error (.tape fault)
    | .ok none => .error .unfinished
    | .ok (some (stop, progress)) =>
      match stop, o.lacks .threshold with
      | .loop .., true => .error (.valueless .threshold)
      | _, _ => .ok (stop, progress)

/-- Runs a built machine and tells of it. -/
def runBuilt (s : Setup) (o : Options) (path source dumped : String) (b : Built) :
    Except Abandoned Finished :=
  match runMachine s o b.machine with
  | .error abandoned => .error abandoned
  | .ok (stop, progress) =>
    let style := s.screen.style none none
    let report := b.warnings.foldl Report.addOverwrite (Report.on (some source) path)
    let runtime := (Report.on none path).addStop stop
    .ok {
      exit := exitCode stop b.warnings
      stdout := dumped ++ introduction b.machine ++ runLines stop progress ++ summary progress
      stderr := showNotes o.noteLevel (notesOn source) ++ report.printed style ++
        showNotes o.noteLevel stop.notes ++ runtime.printed style }

/-- Builds a source and runs the machine. -/
def runSource (s : Setup) (o : Options) (path source : String) : Except Abandoned Finished :=
  match dumps o source with
  | .error fault => refuse s o path source (.error fault) fault
  | .ok dumped =>
    match build source with
    | .error fault => refuse s o path source (.ok dumped) fault
    | .ok built => runBuilt s o path source dumped built

/-- Reads a source file and runs it. -/
def runFile (s : Setup) (o : Options) (source : String) : Except Abandoned Finished :=
  let path := s.sourcePath source
  if source.toList.contains '\x00' then .error .nullInName
  else
    match s.read path with
    | .error fault =>
      .ok ⟨2, "", s!"error: cannot read {source}: {fault.message path.text}\n"⟩
    | .ok bytes =>
      match decodeSource bytes with
      | .error fault => .error (.undecodable fault)
      | .ok text => runSource s o path.text text

/-- Answers the options of a session, apart from the banner. An empty name counts as not given. -/
def runOptions (s : Setup) (o : Options) : Except Abandoned Finished :=
  if o.version then .ok ⟨0, "", ""⟩
  else if o.libs then .ok ⟨0, libraryList Registry.builtin, ""⟩
  else
    match o.libInfo.filter (· != ""), o.source.filter (· != "") with
    | some name, _ =>
      match Registry.builtin.find? name with
      | none => .ok ⟨2, "", s!"Error: unknown library: {name}\n"⟩
      | some library =>
        match libraryInfo library with
        | .ok text => .ok ⟨0, text, ""⟩
        | .error fault => .error (.internal fault)
    | none, some source => runFile s o source
    | none, none =>
      .ok ⟨2, "", "error: source file required (unless using --libs or --lib-info)\n"⟩

/-- The explanation of the options. -/
def help : String :=
  "usage: turingc [options] [source]\n\nTuring machine compiler and simulator\n\n" ++
    String.join (spellings.map fun s => s!"  {s.1}\n")

/-- Answers a command line. -/
def run (s : Setup) (args : List String) : Except Abandoned Finished :=
  match Options.read args with
  | .error .help => .ok ⟨0, help, ""⟩
  | .error (.usage e) => .ok ⟨2, "", s!"turingc: error: {e.message}\n"⟩
  | .ok o => do
    let finished ← runOptions s o
    let banner := if o.quiet then "" else s.banner.text s.outputIsTerminal
    return { finished with stdout := banner ++ finished.stdout }

end Session

end TapeMachine
