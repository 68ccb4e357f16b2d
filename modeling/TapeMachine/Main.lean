import TapeMachine.Command.Session

/-!
# The Program

Gathers arguments, settings and the source file, and writes what the session answers.
-/

namespace TapeMachine

/-- Why the system could not read a file. -/
def readFaultOf : IO.Error → ReadFault
  | .noFileOrDirectory .. => .notFound
  | .inappropriateType _ 20 _ => .notADirectory
  | .inappropriateType _ 21 _ => .isADirectory
  | .inappropriateType _ number words => .other number.toNat words
  | .permissionDenied _ number words => .other number.toNat words
  | e => .other 5 (toString e)

/-- The bytes of a file, or why they cannot be read. -/
def readBytes (path : Path) : IO (Except ReadFault (List Nat)) := do
  try
    let bytes ← IO.FS.readBinFile path.text
    return .ok (bytes.toList.map UInt8.toNat)
  catch e => return .error (readFaultOf e)

/-- The surroundings of a session with this command line. Only its own source is read. -/
def surroundings (args : List String) : IO Setup := do
  let directory := Path.resolve [] (← IO.currentDir).toString
  let setup : Setup := {
    banner := ⟨"0.1.0", "Lean 4"⟩
    outputIsTerminal := ← (← IO.getStdout).isTty
    screen := {
      isTerminal := ← (← IO.getStderr).isTty
      noColor := ← IO.getEnv "NO_COLOR"
      noUnicode := ← IO.getEnv "NO_UNICODE"
      term := ← IO.getEnv "TERM" }
    directory
    sourceDirectory := ← IO.getEnv "TURING_CWD"
    read := fun _ => .error .notFound
    batches := Nat.pow 2 64 }
  match Options.read args with
  | .error _ => return setup
  | .ok options =>
    let path := setup.sourcePath (options.source.getD "")
    let bytes ← readBytes path
    return { setup with read := fun p => if p = path then bytes else .error .notFound }

end TapeMachine

/-- Answers one command line. -/
def main (args : List String) : IO UInt32 := do
  let setup ← TapeMachine.surroundings args
  match TapeMachine.Session.run setup args with
  | .ok finished =>
    IO.print finished.stdout
    IO.eprint finished.stderr
    return finished.exit.toUInt32
  | .error (.undecodable fault) =>
    IO.eprintln fault.message
    return 1
  | .error _ =>
    IO.eprintln "no answer"
    return 1
