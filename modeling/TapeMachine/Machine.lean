import TapeMachine.Table
import TapeMachine.Tape
import TapeMachine.Visits

/-!
# Machines

A machine is a table of rules, a list of final states, the state it is in, and a tape. One step
applies the rule for the state and the value under the head. A final state without a rule of its
own halts in place; any other state without a rule leaves the transition undefined.

* `Machine.advance` makes one step;
* `Machine.runToStop` steps until the machine stops, within a limit;
* `Output` is what a stopped machine has computed.
-/

namespace TapeMachine

/-! ## §1 States of a Computation -/

/-- A machine with everything that a run changes: state, tape and visit counts. -/
structure Machine where
  table : Table
  finals : List String
  state : String
  tape : Tape
  visits : Visits := .empty
  /-- The first description line of the program that is not empty. -/
  description : Option String := none
  /-- Names of the composed libraries; their rules are in the table already. -/
  composed : List String := []
  /-- The program the machine was built from, if it was built from one. -/
  source : Option String := none
  deriving DecidableEq

/-- What one step came to. -/
inductive Outcome where
  /-- A rule was applied, and the new state is not final. -/
  | ongoing
  /-- A rule was applied, and the new state is final. -/
  | final
  /-- No rule applies. -/
  | undefined
  deriving DecidableEq, Repr

/-- What a machine has computed. -/
inductive Output where
  | defined (steps ones : Nat)
  | undefined (steps : Nat)
  deriving DecidableEq, Repr

/-- The output in words. -/
def Output.text : Output → String
  | .defined steps ones => s!"{steps} steps, {ones} ones"
  | .undefined steps => s!"undefined after {steps} steps"

namespace Machine

/-! ## §2 One Step -/

/-- The machine is in a final state. -/
def finished (m : Machine) : Bool := m.finals.contains m.state

/-- The rule of the table for the state and the value under the head. -/
def writtenRule (m : Machine) : Except TapeFault (Option Rule) := do
  let value ← m.tape.read
  return m.table.get? (m.state, value)

/-- The rule that applies: the written one, or halting in place in a final state. -/
def rule (m : Machine) : Except TapeFault (Option Rule) := do
  let value ← m.tape.read
  match m.table.get? (m.state, value) with
  | some r => return some r
  | none => return if m.finished then some (Rule.halt m.state value) else none

/-- No rule applies. -/
def isUndefined (m : Machine) : Except TapeFault Bool := do
  return (← m.rule).isNone

/-- The machine after applying a rule: the cell is written, the head has moved and has its
margin, and the new state counts as entered. -/
def obey (m : Machine) (r : Rule) : Machine :=
  { m with
    tape := ((m.tape.put r.write).move r.movement).restoreMargin
    state := r.next
    visits := m.visits.enter r.next }

/-- One step: what it came to, and the machine after it. -/
def advance (m : Machine) : Except TapeFault (Outcome × Machine) := do
  match ← m.rule with
  | none => return (.undefined, m)
  | some r =>
    let next := m.obey r
    return (if next.finished then .final else .ongoing, next)

/-- One step, and whether the machine stopped with it. -/
def step (m : Machine) : Except TapeFault (Bool × Machine) := do
  let (outcome, next) ← m.advance
  return (outcome != .ongoing, next)

/-! ## §3 Runs -/

/-- At most so many steps, up to the first that stops: how many were made, what the last came
to, and the machine after them. -/
def advanceUpTo : Nat → Machine → Except TapeFault (Nat × Option Outcome × Machine)
  | 0, m => .ok (0, none, m)
  | n + 1, m => do
    let (outcome, next) ← m.advance
    if outcome = .ongoing then
      match n with
      | 0 => return (1, some outcome, next)
      | _ + 1 =>
        let (calls, last, final) ← advanceUpTo n next
        return (calls + 1, last, final)
    else return (1, some outcome, next)

/-- Steps until a final state is reached or no rule applies, counting from `steps`. Nothing is
answered when `limit` steps are not enough. -/
def runFrom : Nat → Nat → Machine → Except TapeFault (Option (Output × Machine))
  | limit, steps, m =>
    if m.finished then .ok (some (.defined steps m.tape.ones, m))
    else
      match limit with
      | 0 => .ok none
      | rest + 1 => do
        let (outcome, next) ← m.advance
        if outcome = .undefined then return some (.undefined steps, next)
        else runFrom rest (steps + 1) next

/-- Runs a machine until it stops, for at most `limit` steps. -/
def runToStop (limit : Nat) (m : Machine) : Except TapeFault (Option (Output × Machine)) :=
  runFrom limit 0 m

/-- What the tape holds now, without running. -/
def currentOutput (m : Machine) : Except TapeFault Output := do
  if ← m.isUndefined then return .undefined 0 else return .defined 0 m.tape.ones

/-! ## §4 Changes from Outside -/

/-- Adds the cells missing around the head. -/
def restoreMargin (m : Machine) : Machine := { m with tape := m.tape.restoreMargin }

/-- Moves the head without a rule and without restoring the margin. -/
def moveHead (m : Machine) (movement : Movement) : Machine :=
  { m with tape := m.tape.move movement }

/-- Writes under the head. -/
def setCell (m : Machine) (value : Bool) : Except TapeFault Machine := do
  return { m with tape := ← m.tape.write value }

/-- Puts the machine in a state, which does not count as entering it. -/
def setState (m : Machine) (state : String) : Machine := { m with state }

/-- Forgets the visit counts. -/
def forgetVisits (m : Machine) : Machine := { m with visits := .empty }

/-- A machine with one state that has halted already. -/
def halted : Machine :=
  restoreMargin
    { table := .ofList [Rule.halt "f" false]
      finals := ["f"]
      state := "f"
      tape := ⟨[false], 0⟩ }

/-- The tape of the machine, as it is shown. -/
def display (m : Machine) : String := m.tape.display

end Machine

end TapeMachine
