import TapeMachine.Build
import TapeMachine.Proofs.Runs

/-!
# Calls from Outside

A machine is stepped, run, reset and changed from outside, one call after the other. This file says
what one call makes of a machine, and how to show that something is true after any calls.

* `Machine.after` is the machine after a call that returns;
* `Machine.afterAll` is the machine after a sequence of calls;
* `Machine.after_cases`: all that a call can make of a machine.
-/

namespace TapeMachine

/-! ## §1 Calls -/

/-- What can be done to a machine from outside. -/
inductive Call where
  | advance
  | step
  /-- Running until a stop. A run that needs more steps than this has not returned yet. -/
  | run (limit : Nat)
  | reset
  | restoreMargin
  | forgetVisits
  /-- Looking at any part of the machine, or asking what rule or output it has. -/
  | inspect
  /-- Writing the cell under the head. -/
  | setCell (value : Bool)
  | setState (state : String)
  deriving DecidableEq, Repr

namespace Machine

/-- The machine after a call, if the call returns. A call that fails changes nothing. -/
def after (m : Machine) : Call → Option Machine
  | .advance => some ((m.advance.map Prod.snd).toOption.getD m)
  | .step => some ((m.step.map Prod.snd).toOption.getD m)
  | .run limit =>
    match m.runToStop limit with
    | .ok answer => answer.map Prod.snd
    | .error _ => some m
  | .reset => some (m.reset.toOption.getD m)
  | .restoreMargin => some m.restoreMargin
  | .forgetVisits => some m.forgetVisits
  | .inspect => some m
  | .setCell value => some ((m.setCell value).toOption.getD m)
  | .setState state => some (m.setState state)

/-- The machine after a sequence of calls, if all of them return. -/
def afterAll (m : Machine) (calls : List Call) : Option Machine := calls.foldlM after m

/-- A machine as it is first made: built from a text, or halted. -/
def Fresh (m : Machine) : Prop :=
  m = .halted ∨ ∃ source built, build source = .ok built ∧ m = built.machine

/-! ## §2 What Calls Keep -/

variable {m : Machine}

/-- A reset machine is fresh. -/
theorem fresh_of_reset {next : Machine} (hReset : m.reset = .ok next) : next.Fresh := by
  unfold reset at hReset
  cases hSource : m.source with
  | none =>
    rw [hSource] at hReset
    exact .inl (Except.ok.inj hReset).symm
  | some source =>
    rw [hSource] at hReset
    obtain ⟨built, hBuild, rfl⟩ := map_eq_ok_iff.1 hReset
    exact .inr ⟨source, built, hBuild, rfl⟩

/-- **What a call makes of a machine** with the head over a stored cell: a number of steps, a fresh
machine, or one of the changes. -/
theorem after_cases (hCell : m.tape.OnCell) {call : Call} {next : Machine}
    (hCall : m.after call = some next) :
    (∃ n, next = successor^[n] m) ∨ next.Fresh ∨ next = m.restoreMargin ∨ next = m.forgetVisits ∨
      (∃ value, next = { m with tape := m.tape.put value }) ∨ ∃ state, next = m.setState state := by
  cases call with
  | advance =>
    rw [after, advance_eq hCell] at hCall
    exact .inl ⟨1, (Option.some.inj hCall).symm⟩
  | step =>
    rw [after, step, advance_eq hCell] at hCall
    exact .inl ⟨1, (Option.some.inj hCall).symm⟩
  | run limit =>
    rw [after] at hCall
    cases hRun : m.runToStop limit with
    | error fault =>
      rw [hRun] at hCall
      exact .inl ⟨0, (Option.some.inj hCall).symm⟩
    | ok answer =>
      rw [hRun] at hCall
      obtain ⟨⟨output, last⟩, rfl, rfl⟩ := Option.map_eq_some_iff.1 hCall
      obtain ⟨n, -, hLast, -⟩ := exists_walk_of_runFrom hCell hRun
      exact .inl ⟨n, hLast⟩
  | reset =>
    rw [after] at hCall
    obtain rfl := Option.some.inj hCall
    cases hReset : m.reset with
    -- A reset that fails leaves the machine as it was, which is no step at all.
    | error fault => exact .inl ⟨0, rfl⟩
    | ok fresh => exact .inr (.inl (fresh_of_reset hReset))
  | restoreMargin => exact .inr (.inr (.inl (Option.some.inj hCall).symm))
  | forgetVisits => exact .inr (.inr (.inr (.inl (Option.some.inj hCall).symm)))
  | inspect => exact .inl ⟨0, (Option.some.inj hCall).symm⟩
  | setCell value =>
    have hWrite : m.tape.write value = .ok (m.tape.put value) := if_pos hCell
    rw [after, setCell, hWrite] at hCall
    exact .inr (.inr (.inr (.inr (.inl ⟨value, (Option.some.inj hCall).symm⟩))))
  | setState state => exact .inr (.inr (.inr (.inr (.inr ⟨state, (Option.some.inj hCall).symm⟩))))

end Machine

end TapeMachine
