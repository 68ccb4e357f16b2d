import TapeMachine.Proofs.Command.CommandLines
import TapeMachine.Proofs.DocumentedFaults
import TapeMachine.Proofs.StepLimits

/-!
# Exit Codes

The exit code of a session classifies the program in the source: whether it can be built, whether its
run ends in a final state within the limits, and whether rules were overwritten. Flags decide what is
shown, and the code does not depend on them.

* `Session.verdict` is the code of a source within limits, by itself;
* `Session.runSource_of_error` and `Session.runSource_of_ok`: all that a session makes of a source;
* `Session.map_exit_runSource`: the code that it ends with is the verdict;
* `Session.exit_classifies` says so of command lines.
-/

namespace TapeMachine

namespace Session

/-! ## §1 Verdicts -/

/-- The exit code of a source within limits. -/
def verdict (batches : Nat) (limits : Limits) (source : String) : Except Abandoned Nat :=
  match build source with
  | .error _ => .ok 2
  | .ok built =>
    match built.machine.drive batches limits false with
    | .error fault => .error (.tape fault)
    | .ok none => .error .unfinished
    | .ok (some (stop, _)) => .ok (exitCode stop built.warnings)

/-- The code after a run tells of the stop, and of warnings if a final state was reached. -/
theorem exitCode_spec (stop : Stop) (warnings : List Overwrite) :
    exitCode stop warnings ≠ 2 ∧ (exitCode stop warnings = 3 ↔ stop ≠ .final) ∧
      (exitCode stop warnings = 1 ↔ stop = .final ∧ warnings ≠ []) ∧
      (exitCode stop warnings = 0 ↔ stop = .final ∧ warnings = []) := by
  unfold exitCode
  by_cases hStop : stop = .final
  · cases warnings with
    | nil => simp [hStop]
    | cons w rest => simp [hStop]
  · simp [hStop]

variable (s : Setup) {o : Options} (path : String) {source : String}

/-! ## §2 Sources that are not Built -/

/-- What cannot be dumped cannot be built, for the same reason. -/
theorem build_of_dumps {fault : Fault} (hDumps : dumps o source = .error fault) :
    build source = .error fault := by
  -- Dumps and builds read the program in the same way.
  unfold dumps at hDumps
  split at hDumps
  · unfold build Program.ofSource
    cases hTree : Tree.ofSource source with
    | error fault' =>
      rw [hTree, error_bind] at hDumps
      cases hDumps
      rfl
    | ok tree =>
      rw [hTree, ok_bind] at hDumps
      rw [ok_bind]
      cases hProgram : Program.ofTree tree with
      | error fault' =>
        rw [hProgram] at hDumps
        cases hDumps
        rfl
      | ok program =>
        rw [hProgram] at hDumps
        cases hDumps
  · cases hDumps

/-- What is dumped of a source, if that is possible. -/
def dumpedText (o : Options) (source : String) : String := (dumps o source).toOption.getD ""

/-- A source that is not built is refused: the reason is reported, and there is no run. -/
theorem runSource_of_error {fault : Fault} (hBuild : build source = .error fault) :
    ∃ c, fault.complaint? = some c ∧ c.Documented ∧ ∀ (s : Setup) (o : Options) (path : String),
      runSource s o path source = .ok {
        exit := 2
        stdout := dumpedText o source ++ "\n"
        stderr := showNotes o.noteLevel (notesOn source) ++
          ((Report.on (some source) path).addComplaint c).printed (s.screen.style none none) } := by
  obtain ⟨c, hComplaint, hDocumented⟩ := documented_of_build hBuild
  -- Only complaints about libraries are introduced, and there are none.
  have hIntroduce (path : String) : introduce c path = "" := by
    unfold introduce
    rcases hDocumented with ⟨hOrigin, -⟩ | ⟨hOrigin, -⟩
    · rw [hOrigin]
    · rw [hOrigin]
  refine ⟨c, hComplaint, hDocumented, fun s o path => ?_⟩
  unfold runSource dumpedText
  cases hDumps : dumps o source with
  | error fault' =>
    obtain rfl : fault' = fault := Except.error.inj ((build_of_dumps hDumps).symm.trans hBuild)
    simp only [refuse, hComplaint, hIntroduce, String.append_empty]
    rfl
  | ok dumped =>
    simp only [hBuild, refuse, hComplaint, hIntroduce, String.append_empty]
    rfl

/-! ## §3 Sources that are Built -/

/-- A machine that is built has its head on the tape. -/
theorem onCell_of_build {built : Built} (hBuild : build source = .ok built) :
    built.machine.tape.OnCell := by
  obtain ⟨p, -, hBuilt⟩ := bind_eq_ok_iff.1 hBuild
  obtain ⟨-, -, rfl⟩ := buildRecords_eq_ok_iff.1 hBuilt
  exact Tape.onCell_restoreMargin _

/-- With all settings given, the run of a machine is one within the limits. -/
theorem runMachine_eq (hValueless : o.valueless = []) (m : Machine) :
    runMachine s o m =
      match m.drive s.batches o.limits o.trace with
      | .error fault => .error (.tape fault)
      | .ok none => .error .unfinished
      | .ok (some answer) => .ok answer := by
  have hLacks (setting : Setting) : o.lacks setting = false := by
    unfold Options.lacks
    rw [hValueless]
    rfl
  have hStart : o.lackedAtStart? = none := by
    unfold Options.lackedAtStart?
    simp [hLacks]
  unfold runMachine
  rw [hStart, ite_self, hLacks]
  dsimp only
  cases m.drive s.batches o.limits o.trace with
  | error fault => rfl
  | ok answer? =>
    cases answer? with
    | none => rfl
    | some answer =>
      obtain ⟨stop, p⟩ := answer
      cases stop <;> rfl

/-- A source that is built is run, and its run is told of. -/
theorem runSource_of_ok {built : Built} (hBuild : build source = .ok built) :
    runSource s o path source = runBuilt s o path source (dumpedText o source) built := by
  unfold runSource dumpedText
  cases hDumps : dumps o source with
  | error fault =>
    rw [build_of_dumps hDumps] at hBuild
    cases hBuild
  | ok dumped =>
    dsimp only
    rw [hBuild]
    rfl

/-- A session on a source that is built gives an answer only after a run that has ended, and tells
what it has come to. -/
theorem drive_of_runSource {built : Built} (hBuild : build source = .ok built)
    (hValueless : o.valueless = []) {finished : Finished}
    (hRun : runSource s o path source = .ok finished) :
    ∃ stop p, built.machine.drive s.batches o.limits o.trace = .ok (some (stop, p)) ∧
      finished.exit = exitCode stop built.warnings ∧
      finished.stdout = dumpedText o source ++ introduction built.machine ++ runLines stop p ++
        summary p := by
  rw [runSource_of_ok s path hBuild, runBuilt, runMachine_eq s hValueless] at hRun
  dsimp only at hRun
  cases hDrive : built.machine.drive s.batches o.limits o.trace with
  | error fault =>
    rw [hDrive] at hRun
    cases hRun
  | ok answer? =>
    rw [hDrive] at hRun
    cases answer? with
    | none => cases hRun
    | some answer =>
      obtain rfl := Except.ok.inj hRun
      exact ⟨answer.1, answer.2, rfl, rfl, rfl⟩

/-- **Verdicts**: the code that a session ends with is that of the source. -/
theorem map_exit_runSource (hValueless : o.valueless = []) :
    (runSource s o path source).map Finished.exit = verdict s.batches o.limits source := by
  unfold verdict
  -- The cases are those of the verdict: refused, and then by how the run ends.
  cases hBuild : build source with
  | error fault =>
    obtain ⟨c, -, -, hRun⟩ := runSource_of_error hBuild
    rw [hRun]
    rfl
  | ok built =>
    rw [runSource_of_ok s path hBuild, runBuilt, runMachine_eq s hValueless]
    dsimp only
    -- The verdict leaves open what is shown, and nothing else depends on that.
    have hShown := Machine.runBatches_unshown o.limits o.trace s.batches (.start built.machine)
    change (built.machine.drive s.batches o.limits o.trace).map _ =
      built.machine.drive s.batches o.limits false at hShown
    rw [← hShown]
    cases built.machine.drive s.batches o.limits o.trace with
    | error fault => rfl
    | ok answer? => cases answer? <;> rfl

/-! ## §4 Command Lines -/

/-- What a session begins with, unless it is to be quiet. -/
def opening (s : Setup) (o : Options) : String :=
  if o.quiet then "" else s.banner.text s.outputIsTerminal

/-- A command line that asks for a run gets it, behind the opening. -/
theorem run_commandLine (front back : List Choice) {name : String} (hName : NamesSource name) :
    run s (commandLine front name back) =
      (runFile s (requested front name back) name).map fun finished =>
        { finished with stdout := opening s (requested front name back) ++ finished.stdout } := by
  have hForRun := forRun_requested front name back
  have hSource : (requested front name back).source = some name := rfl
  have hGiven : (some name).filter (· != "") = some name := by
    obtain ⟨first, rest, hText, -⟩ := hName
    refine Option.filter_eq_some_iff.2 ⟨rfl, ?_⟩
    rw [bne_iff_ne]
    rintro rfl
    cases hText
  unfold run
  rw [Options.read_commandLine front back hName]
  dsimp only
  rw [runOptions, hForRun.version, hForRun.libs, hForRun.libInfo, hSource, hGiven]
  simp only [Bool.false_eq_true, if_false, Option.filter_none]
  cases runFile s (requested front name back) name <;> rfl

/-- A file that can be read and decoded is a source. -/
theorem runFile_of_text {name : String} {bytes : List Nat} {text : List Char}
    (hNull : '\x00' ∉ name.toList) (hRead : s.read (s.sourcePath name) = .ok bytes)
    (hText : Text.Utf8.decode bytes = .ok text) :
    runFile s o name =
      runSource s o (s.sourcePath name).text (String.ofList (unifyLineEnds text)) := by
  have hDecode : decodeSource bytes = .ok (String.ofList (unifyLineEnds text)) := by
    rw [decodeSource, hText]
    rfl
  unfold runFile
  simp only [hNull, hRead, hDecode, List.contains_eq_mem, decide_false, Bool.false_eq_true, if_false]

/-- No file has a name with the character 0 in it. -/
theorem runFile_of_null {name : String} (hNull : '\x00' ∈ name.toList) :
    runFile s o name = .error .nullInName := by
  unfold runFile
  simp only [hNull, List.contains_eq_mem, decide_true, if_true]

/-- What is printed of the end of a run. -/
theorem summary_eq (p : Progress) :
    summary p = "steps: " ++ toString p.steps ++ "\nones: " ++ toString p.machine.tape.ones ++
      "\nvalues: " ++ numberList p.machine.tape.values ++ "\n" ++ p.machine.display ++ "\n" := by
  have hText (text : String) : toString text = text := rfl
  unfold summary
  simp only [hText, String.append_assoc]

/-- The code that a command line for a run ends with is the verdict on the source. -/
theorem map_exit_run (front back : List Choice) {name : String} {bytes : List Nat} {text : List Char}
    (hName : NamesSource name) (hNull : '\x00' ∉ name.toList)
    (hRead : s.read (s.sourcePath name) = .ok bytes) (hText : Text.Utf8.decode bytes = .ok text) :
    (run s (commandLine front name back)).map Finished.exit =
      verdict s.batches (requested front name back).limits (String.ofList (unifyLineEnds text)) := by
  rw [run_commandLine s front back hName, runFile_of_text s hNull hRead hText,
    ← map_exit_runSource s (s.sourcePath name).text (forRun_requested front name back).valueless]
  cases runSource s (requested front name back) (s.sourcePath name).text
    (String.ofList (unifyLineEnds text)) <;> rfl

/-- **Exit codes**: a session on a text in a file ends with code 2 exactly if the text cannot be built,
and then nothing is run: the answer does not depend on how far a run may go. Otherwise the machine
is run within the limits. The code is 3 exactly if the run ends without a final state, which means that
the state it has left is not one of the final states of the machine, and else it is 1 or 0, by whether
there is a warning. Last come the steps of the run, and the cells with 1 and the
numbers on the tape that it has left. Command lines with the same limits end with the same code,
whatever their flags are. -/
theorem exit_classifies (front back : List Choice) {name : String} {bytes : List Nat}
    {text : List Char} (hName : NamesSource name) (hRead : s.read (s.sourcePath name) = .ok bytes)
    (hText : Text.Utf8.decode bytes = .ok text) :
    let source := String.ofList (unifyLineEnds text)
    let o := requested front name back
    (∀ finished, run s (commandLine front name back) = .ok finished →
      (finished.exit = 2 ↔ ∃ fault, build source = .error fault) ∧
      (∀ fault, build source = .error fault →
        finished.stdout = opening s o ++ (dumpedText o source ++ "\n") ∧
        ∀ batches, run { s with batches } (commandLine front name back) = .ok finished) ∧
      ∀ built, build source = .ok built → ∃ stop p,
        built.machine.drive s.batches o.limits o.trace = .ok (some (stop, p)) ∧
        (stop = .final ↔ p.machine.state ∈ built.machine.finals) ∧
        (finished.exit = 3 ↔ stop ≠ .final) ∧
        (finished.exit = 1 ↔ stop = .final ∧ built.warnings ≠ []) ∧
        (finished.exit = 0 ↔ stop = .final ∧ built.warnings = []) ∧
        finished.stdout = opening s o ++ (dumpedText o source ++ introduction built.machine ++
          runLines stop p ++ ("steps: " ++ toString p.steps ++
            "\nones: " ++ toString p.machine.tape.ones ++
            "\nvalues: " ++ numberList p.machine.tape.values ++ "\n" ++ p.machine.display ++ "\n"))) ∧
    ∀ front' back', (requested front' name back').limits = o.limits →
      (run s (commandLine front' name back')).map Finished.exit =
        (run s (commandLine front name back)).map Finished.exit := by
  intro source o
  have hForRun : o.ForRun := forRun_requested front name back
  have hRuns (t : Setup) : run t (commandLine front name back) = (runFile t o name).map
      fun finished => { finished with stdout := opening t o ++ finished.stdout } :=
    run_commandLine t front back hName
  by_cases hNull : '\x00' ∈ name.toList
  · -- No session on such a name gives an answer.
    refine ⟨fun finished hRun => ?_, fun front' back' _ => ?_⟩
    · rw [hRuns, runFile_of_null s hNull] at hRun
      cases hRun
    · rw [hRuns, run_commandLine s front' back' hName, runFile_of_null s hNull, runFile_of_null s hNull]
      rfl
  refine ⟨fun finished hRun => ?_, fun front' back' hLimits => ?_⟩
  · rw [hRuns, runFile_of_text s hNull hRead hText] at hRun
    obtain ⟨ended, hSource, rfl⟩ := map_eq_ok_iff.1 hRun
    cases hBuild : build source with
    | error fault =>
      obtain ⟨c, -, -, hRefused⟩ := runSource_of_error hBuild
      obtain rfl := Except.ok.inj ((hRefused s o _).symm.trans hSource)
      refine ⟨⟨fun _ => ⟨fault, rfl⟩, fun _ => rfl⟩, fun _ _ => ⟨rfl, fun batches => ?_⟩, ?_⟩
      · rw [hRuns, runFile_of_text { s with batches } hNull hRead hText, hRefused]
        rfl
      · intro built hBuilt
        cases hBuilt
    | ok built =>
      obtain ⟨stop, p, hDrive, hExit, hPrinted⟩ :=
        drive_of_runSource s _ hBuild hForRun.valueless hSource
      obtain ⟨hTwo, hThree, hOne, hZero⟩ := exitCode_spec stop built.warnings
      rw [← hExit] at hTwo hThree hOne hZero
      refine ⟨⟨fun hRefused => absurd hRefused hTwo, fun hFails => ?_⟩, fun fault hFails => ?_, ?_⟩
      · obtain ⟨fault, hFails⟩ := hFails
        cases hFails
      · cases hFails
      · rintro _ ⟨⟩
        refine ⟨stop, p, hDrive, Machine.final_iff_of_drive (onCell_of_build hBuild) hDrive, hThree,
          hOne, hZero, ?_⟩
        rw [← summary_eq, ← hPrinted]
  · rw [map_exit_run s front' back' hName hNull hRead hText, hLimits,
      map_exit_run s front back hName hNull hRead hText]

set_option maxRecDepth 100000 in
/-- The exit code of a program that overwrites a rule and halts, with lines that end the long way. -/
theorem exit_classifies_of_overwrite :
    let written := "\x7b1\x7d;I=\x7ba\x7d;F=\x7bb\x7d;\r\n(a,1,0,R,b);\r\n(a,1,1,R,b);"
    let source := "\x7b1\x7d;I=\x7ba\x7d;F=\x7bb\x7d;\n(a,1,0,R,b);\n(a,1,1,R,b);"
    let s : Setup :=
      { banner := ⟨"1", "2"⟩, directory := []
        read := fun _ => .ok (written.toList.map Char.toNat), batches := 2 }
    NamesSource "p.tm" ∧ String.ofList (unifyLineEnds written.toList) = source ∧
      ∃ finished, run s (commandLine [.trace] "p.tm" [.batch ⟨"+1", 1, by decide, by decide⟩]) =
          .ok finished ∧
        finished.exit = 1 ∧ (∃ built, build source = .ok built ∧ built.warnings ≠ []) ∧
        (run s (commandLine [.quiet] "p.tm" [.batch ⟨"+1", 1, by decide, by decide⟩])).map
          Finished.exit = .ok 1 := by
  intro written source s
  have hName : NamesSource "p.tm" := ⟨'p', ['.', 't', 'm'], by decide, by decide⟩
  have hNull : '\x00' ∉ "p.tm".toList := by decide
  have hText : Text.Utf8.decode (written.toList.map Char.toNat) = .ok written.toList := by decide
  have hSource : String.ofList (unifyLineEnds written.toList) = source := by decide
  have hVerdict : verdict 2 ⟨1000, 1, none⟩ source = .ok 1 := by decide +kernel
  obtain ⟨hEnds, hFlags⟩ := exit_classifies s [.trace] [.batch ⟨"+1", 1, by decide, by decide⟩] hName
    rfl hText
  have hExit := map_exit_run s [.trace] [.batch ⟨"+1", 1, by decide, by decide⟩] hName hNull rfl hText
  rw [hSource] at hEnds hExit
  obtain ⟨finished, hRun, hOne⟩ := map_eq_ok_iff.1 (hExit.trans hVerdict)
  obtain ⟨hTwo, -, hBuilt⟩ := hEnds finished hRun
  refine ⟨hName, hSource, finished, hRun, hOne, ?_, ?_⟩
  · cases hBuild : build source with
    | error fault =>
      rw [hTwo.2 ⟨fault, hBuild⟩] at hOne
      exact absurd hOne (by decide)
    | ok built =>
      obtain ⟨stop, p, -, -, -, hWarned, -⟩ := hBuilt built hBuild
      exact ⟨built, rfl, (hWarned.1 hOne).2⟩
  · rw [hFlags [.quiet] [.batch ⟨"+1", 1, by decide, by decide⟩] rfl, hRun]
    exact congrArg Except.ok hOne

end Session

end TapeMachine
