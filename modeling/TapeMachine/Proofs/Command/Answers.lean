import TapeMachine.Proofs.Building
import TapeMachine.Proofs.Command.Exits
import TapeMachine.Proofs.Diagnostics

/-!
# Sessions Give Answers

With a step limit, a session on a file answers with an exit code whatever text is in it, and says on
the error output why a text is not compiled or a file not read. Bytes that are no text are the one
exception: decoding them is not guarded, and the session is abandoned.

* `Report.message_infix_printed`: a printed report holds the messages of its diagnostics;
* `Session.exists_verdict`: with a step limit, all sources have a verdict;
* `Session.answers_unless_undecodable` says when there is an answer.
-/

namespace TapeMachine

/-! ## §1 Printed Reports -/

/-- What is put together with separators holds its parts. -/
theorem infix_intercalate {α : Type} (separator : List α) {part : List α} {parts : List (List α)}
    (hMem : part ∈ parts) : part <:+: separator.intercalate parts := by
  induction parts with
  | nil => cases hMem
  | cons first rest ih =>
    cases rest with
    | nil =>
      rw [List.mem_singleton] at hMem
      rw [hMem, List.intercalate_singleton]
    | cons second more =>
      rw [List.intercalate_cons_cons]
      rcases List.mem_cons.1 hMem with rfl | hRest
      · rw [List.append_assoc]
        exact (List.prefix_append _ _).isInfix
      · exact (ih hRest).trans (List.suffix_append _ _).isInfix

namespace Report

/-- A diagnostic that is added is there. -/
theorem mem_add (r : Report) (item : Item) : item ∈ (r.add item).items :=
  List.mem_append_right _ List.mem_cons_self

/-- The line that states a diagnostic holds its message. -/
theorem message_infix_headline (r : Report) (style : Style) (item : Item) :
    item.message.toList <:+: (r.headline style item).toList := by
  have hStop : item.message.toList <:+: (withStop item.message).toList := by
    unfold withStop
    split
    · exact List.infix_refl _
    · rw [String.toList_append]
      exact (List.prefix_append _ _).isInfix
  unfold headline
  dsimp only
  rw [String.toList_append]
  exact hStop.trans (List.suffix_append _ _).isInfix

/-- **Messages**: a printed report holds the messages of its diagnostics. -/
theorem message_infix_printed {r : Report} {item : Item} (hMem : item ∈ r.items) (style : Style) :
    item.message.toList <:+: (r.printed style).toList := by
  have hLine : r.headline style item ∈ r.items.flatMap (r.itemLines style) := by
    refine List.mem_flatMap.2 ⟨item, hMem, ?_⟩
    unfold itemLines
    cases item.span <;> exact List.mem_cons_self
  have hItems : r.items.isEmpty = false := by
    cases hAll : r.items with
    | nil =>
      rw [hAll] at hMem
      cases hMem
    | cons first rest => rfl
  rw [printed, hItems, render]
  simp only [Bool.false_eq_true, if_false, String.toList_append, String.toList_intercalate]
  refine ((r.message_infix_headline style item).trans ?_).trans (List.prefix_append _ _).isInfix
  exact infix_intercalate _ (List.mem_map_of_mem hLine)

end Report

/-! ## §2 Verdicts -/

namespace Session

variable (s : Setup)

/-- With a step limit, and batches enough for it, a source has a verdict. -/
theorem exists_verdict {limits : Limits} {most batches : Nat} (hBatch : 1 ≤ limits.batch)
    (hMost : limits.maxSteps = some (most : Int)) (hEnough : most < batches) (source : String) :
    ∃ code ∈ [0, 1, 2, 3], verdict batches limits source = .ok code := by
  unfold verdict
  cases hBuild : build source with
  | error fault => exact ⟨2, by decide, rfl⟩
  | ok built =>
    obtain ⟨⟨stop, p⟩, hRun⟩ := Machine.exists_runBatches_of_maxSteps (p := .start built.machine) hBatch
      hMost false (onCell_of_build hBuild) (Nat.lt_of_le_of_lt (Nat.sub_le most 0) hEnough)
    have hDrive : built.machine.drive batches limits false = .ok (some (stop, p)) := hRun
    dsimp only
    rw [hDrive]
    refine ⟨exitCode stop built.warnings, ?_, rfl⟩
    unfold exitCode
    split
    · decide
    · split <;> decide

/-! ## §3 Answers -/

/-- A file that cannot be read is named on the error output, with the reason. -/
theorem runFile_of_readFault {o : Options} {name : String} {fault : ReadFault}
    (hNull : '\x00' ∉ name.toList) (hRead : s.read (s.sourcePath name) = .error fault) :
    runFile s o name = .ok ⟨2, "", "error: cannot read " ++ name ++ ": " ++
      fault.message (s.sourcePath name).text ++ "\n"⟩ := by
  unfold runFile
  simp only [hNull, hRead, List.contains_eq_mem, decide_false, Bool.false_eq_true, if_false]
  rfl

/-- Bytes that are no text lead to no answer. -/
theorem runFile_of_undecodable {o : Options} {name : String} {bytes : List Nat}
    {fault : Text.Utf8.Fault} (hNull : '\x00' ∉ name.toList)
    (hRead : s.read (s.sourcePath name) = .ok bytes) (hBytes : Text.Utf8.decode bytes = .error fault) :
    runFile s o name = .error (.undecodable fault) := by
  have hDecode : decodeSource bytes = .error fault := by
    rw [decodeSource, hBytes]
    rfl
  unfold runFile
  simp only [hNull, hRead, hDecode, List.contains_eq_mem, decide_false, Bool.false_eq_true, if_false]

/-- **Answers**: with a step limit, a session on a file ends with one of the four exit codes if the file
cannot be read, or if its bytes are a text, whatever that is. Then the error output says why the
file is not read, or why the text is not compiled. Only bytes that are no text lead to no answer. -/
theorem answers_unless_undecodable (front back : List Choice) {name : String} {most : Nat}
    (hName : NamesSource name) (hNull : '\x00' ∉ name.toList)
    (hMost : (requested front name back).maxSteps = some most) (hEnough : most < s.batches) :
    (∀ fault, s.read (s.sourcePath name) = .error fault →
      run s (commandLine front name back) = .ok ⟨2, opening s (requested front name back),
        "error: cannot read " ++ name ++ ": " ++ fault.message (s.sourcePath name).text ++ "\n"⟩) ∧
    ∀ bytes, s.read (s.sourcePath name) = .ok bytes →
      (∀ text, Text.Utf8.decode bytes = .ok text →
        ∃ finished, run s (commandLine front name back) = .ok finished ∧
          finished.exit ∈ [0, 1, 2, 3] ∧
          ∀ fault, build (String.ofList (unifyLineEnds text)) = .error fault →
            finished.exit = 2 ∧ ∃ c, fault.complaint? = some c ∧
              c.message.toList <:+: finished.stderr.toList) ∧
      ∀ fault, Text.Utf8.decode bytes = .error fault →
        run s (commandLine front name back) = .error (.undecodable fault) := by
  have hForRun := forRun_requested front name back
  refine ⟨fun fault hRead => ?_, fun bytes hRead => ⟨fun text hText => ?_, fun fault hBytes => ?_⟩⟩
  · rw [run_commandLine s front back hName, runFile_of_readFault s hNull hRead]
    simp [Except.map]
  · have hLimits : (requested front name back).limits.maxSteps = some (most : Int) := by
      rw [Options.limits, hMost]
      rfl
    have hBatch : 1 ≤ (requested front name back).limits.batch := hForRun.batch
    obtain ⟨code, hCode, hVerdict⟩ :=
      exists_verdict hBatch hLimits hEnough (String.ofList (unifyLineEnds text))
    obtain ⟨finished, hRun, hExit⟩ := map_eq_ok_iff.1
      ((map_exit_run s front back hName hNull hRead hText).trans hVerdict)
    refine ⟨finished, hRun, hExit ▸ hCode, fun fault hFails => ?_⟩
    obtain ⟨c, hComplaint, hDocumented, hRefused⟩ := runSource_of_error hFails
    rw [run_commandLine s front back hName, runFile_of_text s hNull hRead hText, hRefused] at hRun
    obtain rfl := Except.ok.inj hRun
    refine ⟨rfl, c, hComplaint, ?_⟩
    -- The complaint is the one diagnostic of the report.
    rw [Report.addComplaint_of_documented hDocumented, String.toList_append]
    refine List.IsInfix.trans ?_ (List.suffix_append _ _).isInfix
    have hItem := (Report.on (some (String.ofList (unifyLineEnds text))) (s.sourcePath name).text).mem_add
      ⟨.error, c.code, c.message, some c.position, some c.snippet⟩
    exact Report.message_infix_printed hItem _
  · rw [run_commandLine s front back hName, runFile_of_undecodable s hNull hRead hBytes]
    rfl

/-- A session on bytes that are no text, which gets no answer although it has a step limit. -/
theorem answers_unless_undecodable_at_first_byte :
    let s : Setup :=
      { banner := ⟨"1", "2"⟩, directory := [], read := fun _ => .ok [0xff, 0x7b], batches := 6 }
    let args := commandLine [.quiet, .maxSteps ⟨"5", 5, by decide, by decide⟩] "p.tm" []
    args = ["-q", "--max-steps", "5", "p.tm"] ∧
      run s args = .error (.undecodable ⟨0, 0xff, 1, .invalidStart⟩) := by
  intro s args
  have hName : NamesSource "p.tm" := ⟨'p', ['.', 't', 'm'], by decide, by decide⟩
  have hBytes : Text.Utf8.decode [0xff, 0x7b] = .error ⟨0, 0xff, 1, .invalidStart⟩ := by decide
  obtain ⟨-, hAnswers⟩ := answers_unless_undecodable s
    [.quiet, .maxSteps ⟨"5", 5, by decide, by decide⟩] [] hName (by decide) rfl (by decide)
  exact ⟨rfl, (hAnswers [0xff, 0x7b] rfl).2 _ hBytes⟩

end Session

end TapeMachine
