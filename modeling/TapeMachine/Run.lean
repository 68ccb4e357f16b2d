import TapeMachine.Machine

/-!
# Runs with Limits

A run steps a machine in batches. A step limit stops it at once; after each batch, a state that
was entered more often than a threshold within the batch stops it as a probable loop, and
otherwise the visit counts start again.

* `Limits` are the numbers that bound a run;
* `Stop` is the one reason for which a run ended;
* `Machine.drive` runs a machine, for at most a given number of batches.
-/

namespace TapeMachine

/-- The numbers that bound a run. -/
structure Limits where
  /-- Entries of one state within a batch that are not yet taken for a loop. -/
  threshold : Int
  /-- Steps between two looks at the visit counts. -/
  batch : Nat
  /-- Steps after which the run stops, if there is such a limit. -/
  maxSteps : Option Int
  deriving DecidableEq, Repr

/-- Why a run ended. -/
inductive Stop where
  /-- A final state was reached. -/
  | final
  /-- No rule applies in this state on this value. -/
  | undefined (state : String) (value : Bool)
  /-- A state was entered more often than the threshold within a batch. -/
  | loop (state : String) (threshold : Int)
  /-- The step limit was reached. -/
  | exhausted (maxSteps : Int)
  deriving DecidableEq, Repr

/-- How far a run has come. `shown` holds the displays after each step, if they are wanted. -/
structure Progress where
  machine : Machine
  steps : Nat
  shown : Array String
  deriving DecidableEq

namespace Progress

/-- A run that has not begun. -/
def start (m : Machine) : Progress := ⟨m, 0, #[]⟩

/-- One step further. -/
def next (p : Progress) (trace : Bool) (m : Machine) : Progress :=
  ⟨m, p.steps + 1, if trace then p.shown.push m.display else p.shown⟩

end Progress

namespace Limits

/-- The step limit, once that many steps are made. -/
def reached? (l : Limits) (steps : Nat) : Option Int :=
  l.maxSteps.filter fun most => most ≤ steps

/-- The state that makes the visits look like a loop: the one entered most often, if it was
entered more often than the threshold. -/
def suspect? (l : Limits) (v : Visits) : Option String :=
  (v.busiest?.filter fun entry => l.threshold < entry.2).map Prod.fst

end Limits

namespace Machine

/-- At most `n` steps of a batch. A reason to stop is answered, or none if the batch is used up
or a final state is reached. -/
def runBatch (limits : Limits) (trace : Bool) :
    Nat → Progress → Except TapeFault (Option Stop × Progress)
  | 0, p => .ok (none, p)
  | n + 1, p =>
    match limits.reached? p.steps with
    | some most => .ok (some (.exhausted most), p)
    | none => do
      let (outcome, next) ← p.machine.advance
      match outcome with
      | .undefined =>
        let value ← p.machine.tape.read
        return (some (.undefined p.machine.state value), p)
      | .final => return (none, p.next trace next)
      | .ongoing => runBatch limits trace n (p.next trace next)

/-- Batch after batch, until a reason to stop. Nothing is answered when the given number of
batches is not enough. -/
def runBatches (limits : Limits) (trace : Bool) :
    Nat → Progress → Except TapeFault (Option (Stop × Progress))
  | batches, p =>
    if p.machine.finished then .ok (some (.final, p))
    else
      match batches with
      | 0 => .ok none
      | rest + 1 => do
        match ← runBatch limits trace limits.batch p with
        | (some stop, q) => return some (stop, q)
        | (none, q) =>
          match if q.machine.finished then none else limits.suspect? q.machine.visits with
          | some state => return some (.loop state limits.threshold, q)
          | none => runBatches limits trace rest { q with machine := q.machine.forgetVisits }

/-- Runs a machine within limits, for at most so many batches. -/
def drive (batches : Nat) (limits : Limits) (trace : Bool) (m : Machine) :
    Except TapeFault (Option (Stop × Progress)) :=
  runBatches limits trace batches (.start m)

end Machine

end TapeMachine
