import TapeMachine.Proofs.Calls

/-!
# Resets

Whatever is done to a machine from outside, it keeps the text that it was built from. A reset builds
this text again, so that nothing is left of what was done in between. If the text cannot be built,
the reset fails before any part of the machine is replaced.

* `Machine.resetInPlace` is a reset as a change of the machine that is at hand;
* `Machine.source_after` and `Machine.source_afterAll`: calls keep the text;
* `Machine.reset_of_source`: resets of machines with the same text come to the same;
* `Machine.reset_undoes_calls` puts these together.
-/

namespace TapeMachine

namespace Machine

variable {m : Machine}

/-! ## §1 Resets in Place -/

/-- A reset of the machine at hand. The fresh machine is made first, and then takes the place of the
old one as a whole. -/
def resetInPlace : EStateM Fault Machine Unit := do
  let m ← get
  let fresh ← match m.reset with
    | .ok fresh => pure fresh
    | .error fault => throw fault
  set fresh

/-- A reset that succeeds leaves the fresh machine. -/
theorem resetInPlace_of_ok {fresh : Machine} (hReset : m.reset = .ok fresh) :
    resetInPlace.run m = .ok () fresh := by
  simp only [resetInPlace, EStateM.run_bind, EStateM.run_get, hReset, EStateM.run_pure,
    EStateM.run_set]

/-- A reset that fails leaves the machine as it was. -/
theorem resetInPlace_of_error {fault : Fault} (hReset : m.reset = .error fault) :
    resetInPlace.run m = .error fault m := by
  simp only [resetInPlace, EStateM.run_bind, EStateM.run_get, hReset]
  rfl

/-- A reset depends on the text of the machine alone. -/
theorem reset_of_source {m' : Machine} (hSource : m.source = m'.source) : m.reset = m'.reset := by
  unfold reset
  rw [hSource]

/-! ## §2 Fresh Machines -/

/-- A built machine has no visits yet, and keeps the text that it was built from. -/
theorem visits_and_source_of_build {source : String} {built : Built}
    (hBuild : build source = .ok built) :
    built.machine.visits = .empty ∧ built.machine.source = some source := by
  obtain ⟨p, -, hRecords⟩ := bind_eq_ok_iff.1 hBuild
  obtain ⟨draft, -, hBuilt⟩ := bind_eq_ok_iff.1 hRecords
  rw [← Except.ok.inj hBuilt]
  exact ⟨rfl, rfl⟩

/-- A built machine is reset to itself. -/
theorem reset_of_build {source : String} {built : Built} (hBuild : build source = .ok built) :
    built.machine.reset = .ok built.machine := by
  unfold reset
  rw [(visits_and_source_of_build hBuild).2]
  show (build source).map Built.machine = _
  rw [hBuild]
  rfl

/-- A reset machine has the text that it was reset from. -/
theorem source_of_reset {next : Machine} (hReset : m.reset = .ok next) : next.source = m.source := by
  unfold reset at hReset
  cases hSource : m.source with
  | none =>
    rw [hSource] at hReset
    obtain rfl := Except.ok.inj hReset
    rfl
  | some source =>
    rw [hSource] at hReset
    obtain ⟨built, hBuild, rfl⟩ := map_eq_ok_iff.1 hReset
    exact (visits_and_source_of_build hBuild).2

/-! ## §3 Calls Keep the Text -/

theorem source_of_advance {outcome : Outcome} {next : Machine}
    (hAdvance : m.advance = .ok (outcome, next)) : next.source = m.source := by
  obtain ⟨rule, -, hRest⟩ := bind_eq_ok_iff.1 hAdvance
  cases rule with
  | none =>
    cases hRest
    rfl
  | some r =>
    cases hRest
    rfl

theorem source_of_runFrom {limit steps : Nat} {output : Output} {last : Machine}
    (hRun : runFrom limit steps m = .ok (some (output, last))) : last.source = m.source := by
  -- A run ends where it is, or goes on after one step with one less to go.
  induction limit generalizing m steps with
  | zero =>
    unfold runFrom at hRun
    split at hRun
    · cases hRun
      rfl
    · cases hRun
  | succ limit ih =>
    unfold runFrom at hRun
    split at hRun
    · cases hRun
      rfl
    · obtain ⟨⟨outcome, next⟩, hAdvance, hRest⟩ := bind_eq_ok_iff.1 hRun
      have hNext := source_of_advance hAdvance
      dsimp only at hRest
      split at hRest
      · cases hRest
        exact hNext
      · rw [ih hRest, hNext]

/-- Where an attempt fails, the machine is left as it was, and so is its text. -/
theorem source_getD_toOption {ε : Type} {x : Except ε Machine}
    (hKeeps : ∀ next, x = .ok next → next.source = m.source) :
    (x.toOption.getD m).source = m.source := by
  cases x with
  | error fault => rfl
  | ok next => exact hKeeps next rfl

/-- **A call keeps the text** of the machine. -/
theorem source_after {call : Call} {next : Machine} (hCall : m.after call = some next) :
    next.source = m.source := by
  cases call with
  | advance =>
    obtain rfl := Option.some.inj hCall
    apply source_getD_toOption
    intro next hNext
    obtain ⟨⟨outcome, _⟩, hAdvance, rfl⟩ := map_eq_ok_iff.1 hNext
    exact source_of_advance hAdvance
  | step =>
    obtain rfl := Option.some.inj hCall
    apply source_getD_toOption
    intro next hNext
    obtain ⟨⟨stopped, _⟩, hStep, rfl⟩ := map_eq_ok_iff.1 hNext
    obtain ⟨⟨outcome, _⟩, hAdvance, hRest⟩ := bind_eq_ok_iff.1 hStep
    cases hRest
    exact source_of_advance hAdvance
  | run limit =>
    rw [after] at hCall
    cases hRun : m.runToStop limit with
    | error fault =>
      rw [hRun] at hCall
      obtain rfl := Option.some.inj hCall
      rfl
    | ok answer =>
      rw [hRun] at hCall
      obtain ⟨⟨output, last⟩, rfl, rfl⟩ := Option.map_eq_some_iff.1 hCall
      exact source_of_runFrom hRun
  | reset =>
    obtain rfl := Option.some.inj hCall
    exact source_getD_toOption fun next hReset => source_of_reset hReset
  | setCell value =>
    obtain rfl := Option.some.inj hCall
    apply source_getD_toOption
    intro next hNext
    obtain ⟨tape, -, hRest⟩ := bind_eq_ok_iff.1 hNext
    cases hRest
    rfl
  | restoreMargin | forgetVisits | inspect | setState =>
    obtain rfl := Option.some.inj hCall
    rfl

/-- Any sequence of calls keeps the text of the machine. -/
theorem source_afterAll {calls : List Call} {last : Machine}
    (hCalls : m.afterAll calls = some last) : last.source = m.source :=
  foldlM_keeps (fun later => later.source = m.source)
    (fun hKept hCall => (source_after hCall).trans hKept) rfl hCalls

/-! ## §4 What a Reset Undoes -/

/-- **Resets**: whatever calls have been made on a machine that was built from a text, a reset succeeds
and gives the machine as it was built, without visits and with the same text. A halted machine
without a text is reset to itself in the same way. Where the text of a machine cannot be built, the
reset fails with the fault of the build, and the machine is left as it was. -/
theorem reset_undoes_calls :
    (∀ (source : String) (built : Built) (calls : List Call) (last : Machine),
      build source = .ok built → built.machine.afterAll calls = some last →
        resetInPlace.run last = .ok () built.machine ∧
          built.machine.visits = .empty ∧ built.machine.source = some source) ∧
    (∀ (calls : List Call) (last : Machine), halted.afterAll calls = some last →
      resetInPlace.run last = .ok () halted) ∧
    ∀ (m : Machine) (source : String) (fault : Fault),
      m.source = some source → build source = .error fault →
        resetInPlace.run m = .error fault m := by
  refine ⟨fun source built calls last hBuild hCalls => ⟨?_, visits_and_source_of_build hBuild⟩,
    fun calls last hCalls => ?_, fun m source fault hSource hBuild => ?_⟩
  · apply resetInPlace_of_ok
    rw [reset_of_source (source_afterAll hCalls)]
    exact reset_of_build hBuild
  · apply resetInPlace_of_ok
    rw [reset_of_source (source_afterAll hCalls)]
    rfl
  · apply resetInPlace_of_error
    unfold reset
    rw [hSource]
    show (build source).map Built.machine = _
    rw [hBuild]
    rfl

/-- A machine that has walked, been written to and run to its end; a halted machine that was put into
another state; and one whose text has a tape without a 1. -/
theorem reset_undoes_calls_of_run :
    let source := "\x7b1\x7d;I=\x7ba\x7d;F=\x7bb\x7d;(a,1,0,R,a);(a,0,1,L,b);"
    let fresh : Machine :=
      { table := .ofList [⟨"a", true, false, .right, "a"⟩, ⟨"a", false, true, .left, "b"⟩]
        finals := ["b"], state := "a", tape := ⟨[false, false, false, true, false, false, false], 3⟩
        source := some source }
    let moved : Machine :=
      { fresh with
        state := "b"
        tape := ⟨[false, false, false, false, false, true, false, false, false], 4⟩
        visits := ⟨[("a", 1), ("b", 1)]⟩ }
    let broken : Machine := { moved with source := some "\x7b0\x7d;" }
    (build source = .ok ⟨fresh, []⟩ ∧
      fresh.afterAll [.advance, .setCell true, .forgetVisits, .setState "a", .run 9] = some moved ∧
      resetInPlace.run moved = .ok () fresh) ∧
    (halted.afterAll [.setState "g", .step] = some (halted.setState "g") ∧
      resetInPlace.run (halted.setState "g") = .ok () halted) ∧
    build "\x7b0\x7d;" = .error (.blankTape (some ⟨1, 1, some 1, some 5⟩) "0") ∧
      resetInPlace.run broken = .error (.blankTape (some ⟨1, 1, some 1, some 5⟩) "0") broken := by
  intro source fresh moved broken
  obtain ⟨hBuilt, hHalted, hBroken⟩ := reset_undoes_calls
  have hBuild : build source = .ok ⟨fresh, []⟩ := eq_ok_of_toOption (by decide +kernel)
  have hCalls : fresh.afterAll [.advance, .setCell true, .forgetVisits, .setState "a", .run 9] =
      some moved := by decide
  have hStep : halted.afterAll [.setState "g", .step] = some (halted.setState "g") := by decide
  have hFault : build "\x7b0\x7d;" = .error (.blankTape (some ⟨1, 1, some 1, some 5⟩) "0") := rfl
  exact ⟨⟨hBuild, hCalls, (hBuilt source _ _ moved hBuild hCalls).1⟩,
    ⟨hStep, hHalted _ _ hStep⟩, hFault, hBroken broken _ _ rfl hFault⟩

end Machine

end TapeMachine
