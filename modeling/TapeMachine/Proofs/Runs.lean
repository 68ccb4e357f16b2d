import TapeMachine.Proofs.Attempts
import TapeMachine.Proofs.Stepping
import TapeMachine.Run

/-!
# Runs

A machine can be run until it stops, or in batches within limits. Both make the same steps; they
differ in when they stop and in what they remember of the way.

* `Machine.runFrom_of_walk`: running until a stop first makes any walk that there is;
* `Machine.exists_walk_of_runFrom`: a run that returns has made a walk to a place where the machine
  yields its output;
* `Progress.Leads` relates two points of a run in batches by the walk between them;
* `Stop.Justified` says what is true where a run has ended for a reason;
* `Machine.runBatches_spec`: a run in batches is a walk to a point where its reason to end is justified.
-/

namespace TapeMachine

namespace Machine

/-! ## §1 Running until a Stop -/

/-- Running until a stop makes the steps of a walk first. -/
theorem runFrom_of_walk {m : Machine} {n : Nat} (hCell : m.tape.OnCell) (hWalk : m.Walks n)
    (limit steps : Nat) :
    runFrom (limit + n) steps m = runFrom limit (steps + n) (successor^[n] m) := by
  induction n generalizing m steps with
  | zero => rfl
  | succ n ih =>
    obtain ⟨⟨hGoing, hDefined⟩, hRest⟩ := walks_succ_iff.1 hWalk
    rw [← Nat.add_assoc, runFrom, hGoing, advance_eq hCell]
    change (if m.outcome = .undefined then _ else runFrom (limit + n) (steps + 1) m.successor) = _
    rw [if_neg hDefined, ih (onCell_successor hCell) hRest, Function.iterate_succ_apply]
    congr 1
    omega

/-- Outside final states, running until a stop makes a step that applies a rule. -/
theorem runFrom_of_step {m : Machine} (hCell : m.tape.OnCell) (hGoing : m.finished = false)
    (hDefined : m.outcome ≠ .undefined) (limit steps : Nat) :
    runFrom (limit + 1) steps m = runFrom limit (steps + 1) m.successor :=
  runFrom_of_walk hCell (walks_succ_iff.2 ⟨⟨hGoing, hDefined⟩, walks_zero _⟩) limit steps

/-- In a final state, running until a stop is over. -/
theorem runFrom_of_finished {m : Machine} (hFinished : m.finished = true) (limit steps : Nat) :
    runFrom limit steps m = .ok (some (.defined steps m.tape.ones, m)) := by
  unfold runFrom
  rw [if_pos hFinished]

/-- Where no rule is in force, running until a stop takes one more look. -/
theorem runFrom_of_undefined {m : Machine} (hCell : m.tape.OnCell)
    (hGoing : m.finished = false) (hUndefined : m.outcome = .undefined) (limit steps : Nat) :
    runFrom (limit + 1) steps m = .ok (some (.undefined steps, m)) := by
  rw [runFrom, hGoing, advance_eq hCell]
  change (if m.outcome = .undefined then _ else _) = _
  rw [if_pos hUndefined, successor_of_undefined hUndefined]
  rfl

/-- A walk to a final state is what running until a stop makes. -/
theorem runToStop_of_walk_to_final {m : Machine} {n : Nat} (hCell : m.tape.OnCell)
    (hWalk : m.Walks n) (hFinished : (successor^[n] m).finished = true) (limit : Nat) :
    runToStop (limit + n) m =
      .ok (some (.defined n (successor^[n] m).tape.ones, successor^[n] m)) := by
  unfold runToStop
  rw [runFrom_of_walk hCell hWalk, runFrom_of_finished hFinished, Nat.zero_add]

/-- A walk to a state without a rule is what running until a stop makes. -/
theorem runToStop_of_walk_to_undefined {m : Machine} {n : Nat} (hCell : m.tape.OnCell)
    (hWalk : m.Walks n) (hGoing : (successor^[n] m).finished = false)
    (hUndefined : (successor^[n] m).outcome = .undefined) (limit : Nat) :
    runToStop (limit + 1 + n) m = .ok (some (.undefined n, successor^[n] m)) := by
  unfold runToStop
  rw [runFrom_of_walk hCell hWalk,
    runFrom_of_undefined (onCell_iterate hCell n) hGoing hUndefined, Nat.zero_add]

/-- Over a stored cell, a run until a stop does not fail. -/
theorem exists_runFrom {m : Machine} (hCell : m.tape.OnCell) (limit steps : Nat) :
    ∃ answer, runFrom limit steps m = .ok answer := by
  induction limit generalizing m steps with
  | zero =>
    unfold runFrom
    split
    · exact ⟨_, rfl⟩
    · exact ⟨none, rfl⟩
  | succ limit ih =>
    cases hFinished : m.finished with
    | true => exact ⟨_, runFrom_of_finished hFinished _ steps⟩
    | false =>
      by_cases hOutcome : m.outcome = .undefined
      · exact ⟨_, runFrom_of_undefined hCell hFinished hOutcome limit steps⟩
      · obtain ⟨answer, hRun⟩ := ih (onCell_successor hCell) (steps + 1)
        exact ⟨answer, (runFrom_of_step hCell hFinished hOutcome limit steps).trans hRun⟩

/-- What a machine that has made so many steps has computed, if it makes no more. -/
inductive Yields (m : Machine) (steps : Nat) : Output → Prop where
  | defined (final : m.finished = true) : Yields m steps (.defined steps m.tape.ones)
  | undefined (going : m.finished = false) (noRule : m.outcome = .undefined) :
      Yields m steps (.undefined steps)

/-- A run that returns has made a walk to a place where the machine yields what is returned. -/
theorem exists_walk_of_runFrom {m : Machine} (hCell : m.tape.OnCell) {limit steps : Nat}
    {output : Output} {last : Machine} (hRun : runFrom limit steps m = .ok (some (output, last))) :
    ∃ n, m.Walks n ∧ last = successor^[n] m ∧ last.Yields (steps + n) output := by
  -- A run that returns ends where it is or goes on after one step, with one less to go.
  induction limit generalizing m steps with
  | zero =>
    cases hFinished : m.finished with
    | true =>
      rw [runFrom_of_finished hFinished] at hRun
      cases hRun
      exact ⟨0, walks_zero _, rfl, .defined hFinished⟩
    | false => simp [runFrom, hFinished] at hRun
  | succ limit ih =>
    cases hFinished : m.finished with
    | true =>
      rw [runFrom_of_finished hFinished] at hRun
      cases hRun
      exact ⟨0, walks_zero _, rfl, .defined hFinished⟩
    | false =>
      by_cases hOutcome : m.outcome = .undefined
      · rw [runFrom_of_undefined hCell hFinished hOutcome] at hRun
        cases hRun
        exact ⟨0, walks_zero _, rfl, .undefined hFinished hOutcome⟩
      · rw [runFrom_of_step hCell hFinished hOutcome] at hRun
        obtain ⟨n, hWalk, hLast, hYields⟩ := ih (onCell_successor hCell) hRun
        rw [Nat.add_assoc, Nat.add_comm 1 n] at hYields
        exact ⟨n + 1, walks_succ_iff.2 ⟨⟨hFinished, hOutcome⟩, hWalk⟩, hLast, hYields⟩

/-- A walk to a place where the machine yields an output is returned, once there is room for one step
more. -/
theorem runToStop_of_walk {m : Machine} {n : Nat} (hCell : m.tape.OnCell) (hWalk : m.Walks n)
    {output : Output} (hYields : (successor^[n] m).Yields n output) {limit : Nat}
    (hEnough : n < limit) : m.runToStop limit = .ok (some (output, successor^[n] m)) := by
  obtain ⟨extra, rfl⟩ := Nat.exists_eq_add_of_le' (Nat.succ_le_of_lt hEnough)
  have hSplit : extra + (n + 1) = extra + 1 + n := by omega
  rw [Nat.succ_eq_add_one, hSplit]
  cases hYields with
  | defined hFinal => exact runToStop_of_walk_to_final hCell hWalk hFinal (extra + 1)
  | undefined hGoing hNoRule => exact runToStop_of_walk_to_undefined hCell hWalk hGoing hNoRule extra

end Machine

/-! ## §2 Points of a Run in Batches -/

open Machine (successor)

/-- So many steps lead from one point of a run to another: a walk within the step limit, of which
the steps are counted and, if that is wanted, shown. Visit counts are left open, because they are
forgotten between batches. -/
structure Progress.Leads (limits : Limits) (trace : Bool) (p : Progress) (n : Nat)
    (q : Progress) : Prop where
  machine : (successor^[n] p.machine).Alike q.machine
  steps : q.steps = p.steps + n
  walk : p.machine.Walks n
  within : ∀ i < n, limits.reached? (p.steps + i) = none
  shown : q.shown.toList = p.shown.toList ++
    if trace then (List.range n).map fun i => (successor^[i + 1] p.machine).display else []

namespace Progress.Leads

variable {limits : Limits} {trace : Bool} {p q r : Progress} {n k : Nat}

/-- No steps lead to a point that differs in visit counts at most. -/
theorem stay (hAlike : p.machine.Alike q.machine) (hSteps : q.steps = p.steps)
    (hShown : q.shown = p.shown) : p.Leads limits trace 0 q where
  machine := hAlike
  steps := hSteps
  walk := Machine.walks_zero _
  within := fun i hi => absurd hi (Nat.not_lt_zero i)
  shown := by simp [hShown]

/-- One step that applies a rule leads to the next point. -/
theorem next (hGoing : p.machine.finished = false) (hDefined : p.machine.outcome ≠ .undefined)
    (hWithin : limits.reached? p.steps = none) :
    p.Leads limits trace 1 (p.next trace p.machine.successor) where
  machine := Machine.Alike.refl _
  steps := rfl
  walk := Machine.walks_succ_iff.2 ⟨⟨hGoing, hDefined⟩, Machine.walks_zero _⟩
  within := by
    intro i hi
    obtain rfl : i = 0 := by omega
    exact hWithin
  shown := by cases trace <;> simp [Progress.next]

/-- Steps that lead to a point and on from there. -/
theorem trans (hFirst : p.Leads limits trace n q) (hRest : q.Leads limits trace k r) :
    p.Leads limits trace (n + k) r where
  machine := by
    rw [Nat.add_comm, Function.iterate_add_apply]
    exact (hFirst.machine.iterate k).trans hRest.machine
  steps := by rw [hRest.steps, hFirst.steps, Nat.add_assoc]
  walk := hFirst.walk.add (hFirst.machine.symm.walks hRest.walk)
  within := by
    intro i hi
    by_cases hLt : i < n
    · exact hFirst.within i hLt
    · -- A step of the second part is counted on from the end of the first.
      have hLater := hRest.within (i - n) (by omega)
      rwa [hFirst.steps, Nat.add_assoc, Nat.add_sub_cancel' (by omega)] at hLater
  shown := by
    -- A display shows the tape alone, and the tapes are the same.
    have hDisplay (i : Nat) : (successor^[i + 1] q.machine).display =
        (successor^[n + i + 1] p.machine).display := by
      have hTape := (hFirst.machine.iterate (i + 1)).tape
      rw [← Function.iterate_add_apply] at hTape
      unfold Machine.display
      rw [← hTape, Nat.add_comm (i + 1) n, Nat.add_assoc]
    rw [hRest.shown, hFirst.shown]
    cases trace with
    | false => simp
    | true =>
      simp only [if_true, List.append_assoc, List.range_add, List.map_append, List.map_map,
        Function.comp_def, hDisplay]

end Progress.Leads

/-! ## §3 Reasons to End -/

/-- What is true where a run ends for a reason. -/
def Stop.Justified (limits : Limits) (p : Progress) : Stop → Prop
  | .final => p.machine.finished = true
  | .undefined state value =>
    p.machine.finished = false ∧ p.machine.outcome = .undefined ∧
      state = p.machine.state ∧ value = p.machine.tape.view 0 ∧ limits.reached? p.steps = none
  | .loop state threshold =>
    p.machine.finished = false ∧ limits.suspect? p.machine.visits = some state ∧
      threshold = limits.threshold
  | .exhausted most => p.machine.finished = false ∧ limits.reached? p.steps = some most

namespace Machine

variable (limits : Limits) (trace : Bool)

/-- Within a batch the machine makes a walk. A reason to stop is justified, and without one the
batch is used up or a final state is reached. -/
theorem runBatch_spec (n : Nat) {p : Progress} (hCell : p.machine.tape.OnCell)
    (hGoing : p.machine.finished = false) :
    ∃ stop? q k, runBatch limits trace n p = .ok (stop?, q) ∧ k ≤ n ∧
      p.Leads limits trace k q ∧ q.machine = successor^[k] p.machine ∧
      (∀ stop, stop? = some stop → stop.Justified limits q) ∧
      (stop? = none → q.machine.finished = false → k = n) := by
  induction n generalizing p with
  | zero =>
    exact ⟨none, p, 0, rfl, Nat.le_refl 0, .stay (Alike.refl _) rfl rfl, rfl, by simp,
      fun _ _ => rfl⟩
  | succ n ih =>
    cases hReached : limits.reached? p.steps with
    | some most =>
      -- At the step limit the batch ends before the step.
      refine ⟨some (.exhausted most), p, 0, by rw [runBatch, hReached], Nat.zero_le _,
        .stay (Alike.refl _) rfl rfl, rfl, ?_, by simp⟩
      rintro stop ⟨⟩
      exact ⟨hGoing, hReached⟩
    | none =>
      have hAdvance := advance_eq hCell
      cases hOutcome : p.machine.outcome with
      | undefined =>
        have hRun : runBatch limits trace (n + 1) p =
            .ok (some (.undefined p.machine.state (p.machine.tape.view 0)), p) := by
          rw [runBatch, hReached]
          dsimp only
          rw [hAdvance, hOutcome, Tape.read_of_lt hCell]
          rfl
        refine ⟨_, p, 0, hRun, Nat.zero_le _, .stay (Alike.refl _) rfl rfl, rfl, ?_, by simp⟩
        rintro stop ⟨⟩
        exact ⟨hGoing, hOutcome, rfl, rfl, hReached⟩
      | final =>
        have hRun : runBatch limits trace (n + 1) p =
            .ok (none, p.next trace p.machine.successor) := by
          rw [runBatch, hReached]
          dsimp only
          rw [hAdvance, hOutcome]
          rfl
        have hDefined : p.machine.outcome ≠ .undefined := by simp [hOutcome]
        have hFinished : p.machine.successor.finished = true := by
          have hEnd := outcome_of_defined hDefined
          rw [hOutcome] at hEnd
          by_contra hNot
          simp [hNot] at hEnd
        refine ⟨none, _, 1, hRun, by omega, .next hGoing hDefined hReached, rfl, by simp, ?_⟩
        intro _ hNot
        rw [Progress.next, hFinished] at hNot
        cases hNot
      | ongoing =>
        have hDefined : p.machine.outcome ≠ .undefined := by simp [hOutcome]
        have hGoing' : p.machine.successor.finished = false := by
          have hEnd := outcome_of_defined hDefined
          rw [hOutcome] at hEnd
          by_contra hNot
          simp [hNot] at hEnd
        have hBehind : runBatch limits trace (n + 1) p =
            runBatch limits trace n (p.next trace p.machine.successor) := by
          rw [runBatch, hReached]
          dsimp only
          rw [hAdvance, hOutcome]
          rfl
        obtain ⟨stop?, q, k, hRun, hLe, hLeads, hExact, hStop, hUsed⟩ :=
          ih (p := p.next trace p.machine.successor) (onCell_successor hCell) hGoing'
        refine ⟨stop?, q, 1 + k, hBehind.trans hRun, by omega,
          (Progress.Leads.next hGoing hDefined hReached).trans hLeads, ?_, hStop, ?_⟩
        · rw [hExact, Nat.add_comm, Function.iterate_succ_apply]
          rfl
        · intro hNone hNot
          rw [hUsed hNone hNot, Nat.add_comm]

/-- What follows a batch: the end of the run, or the next batch without the visits of this one. -/
def afterBatch (batches : Nat) :
    Option Stop × Progress → Except TapeFault (Option (Stop × Progress))
  | (some stop, q) => .ok (some (stop, q))
  | (none, q) =>
    match if q.machine.finished then none else limits.suspect? q.machine.visits with
    | some state => .ok (some (.loop state limits.threshold, q))
    | none => runBatches limits trace batches { q with machine := q.machine.forgetVisits }

/-- Outside final states a run consists of a batch and what follows it. -/
theorem runBatches_succ (batches : Nat) {p : Progress} (hGoing : p.machine.finished = false) :
    runBatches limits trace (batches + 1) p =
      runBatch limits trace limits.batch p >>= afterBatch limits trace batches := by
  rw [runBatches, hGoing]
  rfl

/-- In a final state a run is over, however many batches are left. -/
theorem runBatches_of_finished (batches : Nat) {p : Progress}
    (hFinished : p.machine.finished = true) :
    runBatches limits trace batches p = .ok (some (.final, p)) := by
  unfold runBatches
  rw [if_pos hFinished]

/-- **Runs in batches**: no step fails, and a run that ends has made a walk to a point where its
reason to end is justified. -/
theorem runBatches_spec (batches : Nat) {p : Progress} (hCell : p.machine.tape.OnCell) :
    runBatches limits trace batches p = .ok none ∨
      ∃ stop q n, runBatches limits trace batches p = .ok (some (stop, q)) ∧
        p.Leads limits trace n q ∧ stop.Justified limits q := by
  induction batches generalizing p with
  | zero =>
    cases hFinished : p.machine.finished with
    | true =>
      exact .inr ⟨.final, p, 0, runBatches_of_finished limits trace 0 hFinished,
        .stay (Alike.refl _) rfl rfl, hFinished⟩
    | false =>
      -- No batches are left, and nothing is answered.
      refine .inl ?_
      rw [runBatches, hFinished]
      rfl
  | succ batches ih =>
    cases hFinished : p.machine.finished with
    | true =>
      exact .inr ⟨.final, p, 0, runBatches_of_finished limits trace _ hFinished,
        .stay (Alike.refl _) rfl rfl, hFinished⟩
    | false =>
      obtain ⟨stop?, q, k, hRun, -, hLeads, hExact, hStop, -⟩ :=
        runBatch_spec limits trace limits.batch hCell hFinished
      rw [runBatches_succ limits trace batches hFinished, hRun, ok_bind]
      cases stop? with
      | some stop =>
        -- The batch itself has found a reason to end.
        exact .inr ⟨stop, q, k, rfl, hLeads, hStop stop rfl⟩
      | none =>
        rw [afterBatch]
        cases hSuspect : if q.machine.finished then none else limits.suspect? q.machine.visits with
        | some state =>
          -- The visits of the batch look like a loop.
          refine .inr ⟨_, q, k, rfl, hLeads, ?_⟩
          cases hEnd : q.machine.finished with
          | true => simp [hEnd] at hSuspect
          | false =>
            rw [hEnd] at hSuspect
            exact ⟨hEnd, hSuspect, rfl⟩
        | none =>
          -- The next batch begins here, with the visits forgotten.
          have hCell' : q.machine.forgetVisits.tape.OnCell := by
            change q.machine.tape.OnCell
            rw [hExact]
            exact onCell_iterate hCell k
          have hOn : p.Leads limits trace k { q with machine := q.machine.forgetVisits } :=
            hLeads.trans
              (.stay (q := { q with machine := q.machine.forgetVisits }) (Alike.refl _) rfl rfl)
          rcases ih (p := { q with machine := q.machine.forgetVisits }) hCell' with
            hMore | ⟨stop, r, n, hRest, hLater, hJustified⟩
          · exact .inl hMore
          · exact .inr ⟨stop, r, k + n, hRest, hOn.trans hLater, hJustified⟩

end Machine

end TapeMachine
