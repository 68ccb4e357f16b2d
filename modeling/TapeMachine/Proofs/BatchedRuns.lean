import TapeMachine.Proofs.Runs
import TapeMachine.Proofs.Wordings
import TapeMachine.Report

/-!
# Runs in Batches Agree with Plain Runs

A run in batches and a plain run to the stop are two ways of making the same steps. Whatever the
limits are, where the first has ended is where so many steps lead; and if it ended in a final
state or for want of a rule, the second ends there too.

* `Machine.drive_agrees_with_runToStop` is the agreement;
* `items_addStop_undefined` is what is reported for want of a rule.
-/

namespace TapeMachine

/-! ## §1 The Report on a Missing Rule -/

/-- A missing rule is reported with the state and the value that have none. -/
theorem items_addStop_undefined (r : Report) (state : String) (value : Bool) :
    (r.addStop (.undefined state value)).items = r.items ++
      [{ severity := .error, code := "RE0001",
         message := "no instruction given for state (" ++ state ++ ", " ++ bitText value ++ ")" }] := by
  have hWording : Catalog.wording "RE0001" [("state", state), ("value", bitText value)] =
      "no instruction given for state (" ++ state ++ ", " ++ bitText value ++ ")" :=
    Catalog.wording_eq rfl rfl
  simp only [Report.addStop, Report.add, hWording]

/-! ## §2 The Agreement -/

namespace Machine

/-- A run in batches that ends has made a walk to a point where its reason to end is justified. -/
theorem leads_of_drive {m : Machine} (hCell : m.tape.OnCell) {limits : Limits} {trace : Bool}
    {batches : Nat} {stop : Stop} {p : Progress}
    (hDrive : m.drive batches limits trace = .ok (some (stop, p))) :
    (Progress.start m).Leads limits trace p.steps p ∧ stop.Justified limits p := by
  rcases runBatches_spec limits trace batches (p := .start m) hCell with
    hNone | ⟨stop', q, n, hRun, hLeads, hJustified⟩
  · rw [drive, hNone] at hDrive
    cases hDrive
  · rw [drive, hRun] at hDrive
    obtain ⟨rfl, rfl⟩ := Prod.mk.inj (Option.some.inj (Except.ok.inj hDrive))
    have hSteps : q.steps = n := by
      rw [hLeads.steps]
      exact Nat.zero_add n
    exact ⟨hSteps ▸ hLeads, hJustified⟩

/-- A run in batches ends as halted exactly if the state it has left is final. -/
theorem final_iff_of_drive {m : Machine} (hCell : m.tape.OnCell) {limits : Limits} {trace : Bool}
    {batches : Nat} {stop : Stop} {p : Progress}
    (hDrive : m.drive batches limits trace = .ok (some (stop, p))) :
    stop = .final ↔ p.machine.state ∈ m.finals := by
  obtain ⟨hLeads, hJustified⟩ := leads_of_drive hCell hDrive
  have hAlike : (successor^[p.steps] m).Alike p.machine := hLeads.machine
  have hFinals : p.machine.finals = m.finals := by
    rw [← hAlike.finals, finals_iterate]
  have hFinished : p.machine.finished = true ↔ p.machine.state ∈ m.finals := by
    rw [← hFinals]
    simp [finished]
  rw [← hFinished]
  -- Every other reason to end is justified in a state that is not final.
  cases stop with
  | final => simpa [Stop.Justified] using hJustified
  | undefined => simp [hJustified.1]
  | loop => simp [hJustified.1]
  | exhausted => simp [hJustified.1]

/-- **Agreement**: where a run in batches ends after so many steps, plain steps lead, and all of
them apply a rule and start outside final states. The run has ended as halted exactly if the
state is final, and then the plain run returns the same count and the cells with 1 that are there.
For want of a rule both end at the same place too, and the report names its state and value. So
all limits under which a run halts lead to the same place in the same number of steps. -/
theorem drive_agrees_with_runToStop {m : Machine}
    (hHead : m.tape.head < m.tape.cells.length) {limits : Limits} {trace : Bool}
    {batches : Nat} {stop : Stop} {p : Progress}
    (hDrive : m.drive batches limits trace = .ok (some (stop, p))) :
    (∃ reached, m.afterCalls p.steps = .ok reached ∧
      reached.state = p.machine.state ∧ reached.tape = p.machine.tape) ∧
    (∀ i < p.steps, ∃ before outcome after, m.afterCalls i = .ok before ∧
      before.state ∉ m.finals ∧ before.advance = .ok (outcome, after) ∧ outcome ≠ .undefined) ∧
    (stop = .final ↔ p.machine.state ∈ m.finals) ∧
    (stop = .final → ∃ last,
      (∀ limit ≥ p.steps, m.runToStop limit =
        .ok (some (.defined p.steps p.machine.tape.ones, last))) ∧
      last.state = p.machine.state ∧ last.tape = p.machine.tape) ∧
    (∀ state value, stop = .undefined state value →
      state = p.machine.state ∧ p.machine.tape.read = .ok value ∧
      (∀ r : Report, (r.addStop stop).items = r.items ++
        [{ severity := .error, code := "RE0001",
           message :=
            "no instruction given for state (" ++ state ++ ", " ++ bitText value ++ ")" }]) ∧
      ∃ last, (∀ limit > p.steps, m.runToStop limit = .ok (some (.undefined p.steps, last))) ∧
        last.state = p.machine.state ∧ last.tape = p.machine.tape) ∧
    (stop = .final → ∀ limits' trace' batches' p',
      m.drive batches' limits' trace' = .ok (some (.final, p')) →
        p'.steps = p.steps ∧ p'.machine.state = p.machine.state ∧
          p'.machine.tape = p.machine.tape) := by
  obtain ⟨hLeads, hJustified⟩ := leads_of_drive hHead hDrive
  have hAlike : (successor^[p.steps] m).Alike p.machine := hLeads.machine
  have hWalk : m.Walks p.steps := hLeads.walk
  refine ⟨⟨_, afterCalls_eq hHead p.steps, hAlike.state, hAlike.tape⟩, ?_,
    final_iff_of_drive hHead hDrive, ?_, ?_, ?_⟩
  · -- Each of the steps applies a rule, and starts outside final states.
    intro i hi
    obtain ⟨hGoing, hDefined⟩ := hWalk i hi
    refine ⟨_, _, _, afterCalls_eq hHead i, ?_, advance_eq (onCell_iterate hHead i), hDefined⟩
    rw [← finals_iterate m i]
    simpa [finished] using hGoing
  · -- The plain run makes the same walk, and its end is final.
    rintro rfl
    have hEnd : (successor^[p.steps] m).finished = true := hAlike.finished.trans hJustified
    refine ⟨_, fun limit hLimit => ?_, hAlike.state, hAlike.tape⟩
    obtain ⟨extra, rfl⟩ := Nat.exists_eq_add_of_le' hLimit
    rw [runToStop_of_walk_to_final hHead hWalk hEnd, hAlike.tape]
  · -- The plain run makes the same walk, and needs one more look to find no rule.
    rintro state value rfl
    obtain ⟨hGoing, hUndefined, rfl, rfl, -⟩ := hJustified
    have hCell : p.machine.tape.OnCell := hAlike.tape ▸ onCell_iterate hHead p.steps
    refine ⟨rfl, Tape.read_of_lt hCell, fun r => items_addStop_undefined r _ _, _,
      fun limit hLimit => ?_, hAlike.state, hAlike.tape⟩
    obtain ⟨extra, rfl⟩ := Nat.exists_eq_add_of_le' (Nat.succ_le_of_lt hLimit)
    rw [Nat.succ_eq_add_one, Nat.add_comm p.steps 1, ← Nat.add_assoc]
    exact runToStop_of_walk_to_undefined hHead hWalk (hAlike.finished.trans hGoing)
      (hAlike.outcome.trans hUndefined) extra
  · -- Two walks from the start to final states are the same walk.
    rintro rfl limits' trace' batches' p' hDrive'
    obtain ⟨hLeads', hJustified'⟩ := leads_of_drive hHead hDrive'
    have hSteps : p'.steps = p.steps :=
      hLeads'.walk.eq_of_finished (hLeads'.machine.finished.trans hJustified') hWalk
        (hAlike.finished.trans hJustified)
    have hSame : p'.machine.Alike p.machine :=
      (hSteps ▸ hLeads'.machine).symm.trans hAlike
    exact ⟨hSteps, hSame.state, hSame.tape⟩

/-- The agreement where a final state is reached exactly at the end of a batch. -/
theorem drive_agrees_at_end_of_batch :
    let m : Machine :=
      { table := .ofList [⟨"a", true, false, .right, "a"⟩, ⟨"a", false, true, .halt, "f"⟩]
        finals := ["f"], state := "a", tape := ⟨[true, true], 0⟩ }
    let cells := [false, false, false, false, true, false, false, false]
    let p : Progress := ⟨{ m with state := "f", tape := ⟨cells, 4⟩ }, 3, #[]⟩
    m.tape.head < m.tape.cells.length ∧ m.drive 2 ⟨9, 3, none⟩ false = .ok (some (.final, p)) ∧
      ∃ last, m.runToStop 3 = .ok (some (.defined 3 1, last)) ∧ last.tape = ⟨cells, 4⟩ := by
  intro m cells p
  have hHead : m.tape.head < m.tape.cells.length := by decide
  have hDrive : m.drive 2 ⟨9, 3, none⟩ false = .ok (some (.final, p)) := by cbv
  obtain ⟨-, -, -, hFinal, -⟩ := drive_agrees_with_runToStop hHead hDrive
  obtain ⟨last, hRun, -, hTape⟩ := hFinal rfl
  exact ⟨hHead, hDrive, last, hRun 3 (Nat.le_refl 3), hTape⟩

end Machine

end TapeMachine
