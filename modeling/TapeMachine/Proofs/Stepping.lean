import Mathlib.Logic.Function.Iterate
import TapeMachine.Machine
import TapeMachine.Proofs.Attempts

/-!
# Steps of a Machine on its Tape

As long as the head stands over a stored cell, nothing can go wrong with the tape, and one step is
a total function of the machine. This file separates the two parts of that function and iterates
it.

* `Machine.ruleInForce` is the rule of the next step, `Machine.outcome` what the step comes to and
  `Machine.successor` the machine after it;
* `Machine.advance_eq`: on a stored cell, these three are what one step does;
* `Machine.onCell_successor`: the head stays over stored cells;
* `Machine.afterCalls_eq`: several steps are the successor, iterated;
* `Machine.Alike.iterate` and `Machine.AgreeOn.iterate`: what the steps of a machine do not depend on.
-/

namespace TapeMachine

/-! ## §1 Heads over Stored Cells -/

namespace Tape

/-- The head stands over a stored cell. -/
def OnCell (t : Tape) : Prop := t.head < t.cells.length

/-- With its margin, a tape has a cell under the head. -/
theorem onCell_restoreMargin (t : Tape) : t.restoreMargin.OnCell := by
  have hMargin := (margin_restoreMargin t).2
  unfold OnCell
  omega

end Tape

namespace Machine

/-! ## §2 One Step as a Total Function -/

/-- The rule of the next step: the written one, or halting in place in a final state. -/
def ruleInForce (m : Machine) : Option Rule :=
  (m.table.get? (m.state, m.tape.view 0)).or
    (if m.finished then some (Rule.halt m.state (m.tape.view 0)) else none)

/-- What the next step comes to. -/
def outcome (m : Machine) : Outcome :=
  match m.ruleInForce with
  | none => .undefined
  | some r => if (m.obey r).finished then .final else .ongoing

/-- The machine after the next step. -/
def successor (m : Machine) : Machine :=
  match m.ruleInForce with
  | none => m
  | some r => m.obey r

/-- No rule is in force exactly where the table has none and the state is not final. -/
theorem ruleInForce_eq_none_iff (m : Machine) :
    m.ruleInForce = none ↔
      m.table.get? (m.state, m.tape.view 0) = none ∧ m.state ∉ m.finals := by
  unfold ruleInForce
  rw [Option.or_eq_none_iff]
  simp [finished]

/-- Over a stored cell, looking up the rule in force does not fail. -/
theorem rule_eq {m : Machine} (hCell : m.tape.OnCell) : m.rule = .ok m.ruleInForce := by
  unfold rule ruleInForce
  rw [Tape.read_of_lt hCell, ok_bind]
  cases m.table.get? (m.state, m.tape.view 0) with
  | none => rfl
  | some r => rfl

/-- Over a stored cell, a step does not fail. -/
theorem advance_eq {m : Machine} (hCell : m.tape.OnCell) :
    m.advance = .ok (m.outcome, m.successor) := by
  unfold advance outcome successor
  rw [rule_eq hCell]
  cases m.ruleInForce with
  | none => rfl
  | some r => rfl

/-- After a step the head is over a stored cell again. -/
theorem onCell_successor {m : Machine} (hCell : m.tape.OnCell) : m.successor.tape.OnCell := by
  unfold successor
  cases m.ruleInForce with
  | none => exact hCell
  | some r => exact Tape.onCell_restoreMargin _

/-- A step is undefined exactly when no rule is in force. -/
theorem outcome_eq_undefined_iff (m : Machine) :
    m.outcome = .undefined ↔ m.ruleInForce = none := by
  unfold outcome
  cases m.ruleInForce with
  | none => simp
  | some r =>
    simp only [reduceCtorEq, iff_false]
    split <;> simp

/-- A step that applies a rule ends in a final state or goes on, by the state it leads to. -/
theorem outcome_of_defined {m : Machine} (hDefined : m.outcome ≠ .undefined) :
    m.outcome = if m.successor.finished then .final else .ongoing := by
  unfold outcome successor at *
  cases hRule : m.ruleInForce with
  | none => simp [hRule] at hDefined
  | some r => rfl

/-- A step that applies no rule changes nothing. -/
theorem successor_of_undefined {m : Machine} (hUndefined : m.outcome = .undefined) :
    m.successor = m := by
  unfold successor
  rw [(outcome_eq_undefined_iff m).1 hUndefined]

/-- A step with a rule in force is defined. -/
theorem outcome_of_rule {m : Machine} {r : Rule} (hRule : m.ruleInForce = some r) :
    m.outcome ≠ .undefined := by
  rw [Ne, outcome_eq_undefined_iff, hRule]
  exact Option.some_ne_none r

/-- A step obeys the rule in force. -/
theorem successor_of_rule {m : Machine} {r : Rule} (hRule : m.ruleInForce = some r) :
    m.successor = m.obey r := by
  unfold successor
  rw [hRule]

@[simp] theorem table_successor (m : Machine) : m.successor.table = m.table := by
  unfold successor
  cases m.ruleInForce <;> rfl

@[simp] theorem finals_successor (m : Machine) : m.successor.finals = m.finals := by
  unfold successor
  cases m.ruleInForce <;> rfl

/-! ## §3 Several Steps -/

/-- The machine after so many steps, whatever each of them came to. -/
def afterCalls (m : Machine) : Nat → Except TapeFault Machine
  | 0 => .ok m
  | n + 1 => do
    let (_, next) ← m.advance
    next.afterCalls n

/-- The head stays over stored cells, however many steps are made. -/
theorem onCell_iterate {m : Machine} (hCell : m.tape.OnCell) (n : Nat) :
    (successor^[n] m).tape.OnCell := by
  induction n generalizing m with
  | zero => exact hCell
  | succ n ih =>
    rw [Function.iterate_succ_apply]
    exact ih (onCell_successor hCell)

/-- Over a stored cell, several steps do not fail: they iterate the successor. -/
theorem afterCalls_eq {m : Machine} (hCell : m.tape.OnCell) (n : Nat) :
    m.afterCalls n = .ok (successor^[n] m) := by
  induction n generalizing m with
  | zero => rfl
  | succ n ih =>
    unfold afterCalls
    rw [advance_eq hCell, Function.iterate_succ_apply]
    exact ih (onCell_successor hCell)

theorem table_iterate (m : Machine) (n : Nat) : (successor^[n] m).table = m.table := by
  induction n with
  | zero => rfl
  | succ n ih => rw [Function.iterate_succ_apply', table_successor, ih]

theorem finals_iterate (m : Machine) (n : Nat) : (successor^[n] m).finals = m.finals := by
  induction n with
  | zero => rfl
  | succ n ih => rw [Function.iterate_succ_apply', finals_successor, ih]

/-! ## §4 Walks

A machine that is run until it stops makes steps that apply a rule and do not start in a final
state. Several functions make such steps; a walk is what they have in common. -/

/-- The first steps all apply a rule, and none of them starts in a final state. -/
def Walks (m : Machine) (n : Nat) : Prop :=
  ∀ i < n, (successor^[i] m).finished = false ∧ (successor^[i] m).outcome ≠ .undefined

theorem walks_zero (m : Machine) : m.Walks 0 := by
  intro i hi
  exact absurd hi (Nat.not_lt_zero i)

/-- A walk is a first step and a walk from where it leads. -/
theorem walks_succ_iff {m : Machine} {n : Nat} :
    m.Walks (n + 1) ↔
      (m.finished = false ∧ m.outcome ≠ .undefined) ∧ m.successor.Walks n := by
  constructor
  · intro hWalk
    refine ⟨hWalk 0 (Nat.succ_pos n), fun i hi => ?_⟩
    rw [← Function.iterate_succ_apply]
    exact hWalk (i + 1) (Nat.succ_lt_succ hi)
  · rintro ⟨hFirst, hRest⟩ i hi
    cases i with
    | zero => exact hFirst
    | succ i =>
      rw [Function.iterate_succ_apply]
      exact hRest i (Nat.lt_of_succ_lt_succ hi)

theorem Walks.add {m : Machine} {n k : Nat} (hFirst : m.Walks n)
    (hRest : (successor^[n] m).Walks k) : m.Walks (n + k) := by
  intro i hi
  by_cases hLt : i < n
  · exact hFirst i hLt
  · -- The step is one of the second walk.
    have hSplit : i = (i - n) + n := by omega
    rw [hSplit, Function.iterate_add_apply]
    exact hRest (i - n) (by omega)

/-- There is one walk to a final state at most. -/
theorem Walks.eq_of_finished {m : Machine} {n k : Nat} (hWalk : m.Walks n)
    (hFinished : (successor^[n] m).finished = true) (hOther : m.Walks k)
    (hOtherFinished : (successor^[k] m).finished = true) : n = k := by
  -- The shorter walk would end in a state from which the longer one goes on.
  rcases Nat.lt_trichotomy n k with hLt | hEq | hGt
  · have hGoing := (hOther n hLt).1
    rw [hFinished] at hGoing
    cases hGoing
  · exact hEq
  · have hGoing := (hWalk k hGt).1
    rw [hOtherFinished] at hGoing
    cases hGoing

/-! ## §5 Visit Counts do not Matter

Runs forget the visit counts from time to time. That changes nothing else, now or later. -/

/-- Two machines are the same apart from their visit counts. -/
def Alike (m m' : Machine) : Prop := m.forgetVisits = m'.forgetVisits

namespace Alike

variable {m m' m'' : Machine}

theorem refl (m : Machine) : m.Alike m := rfl

theorem symm (h : m.Alike m') : m'.Alike m := Eq.symm h

theorem trans (h : m.Alike m') (h' : m'.Alike m'') : m.Alike m'' := Eq.trans h h'

theorem state (h : m.Alike m') : m.state = m'.state := congrArg (fun m => m.state) h

theorem tape (h : m.Alike m') : m.tape = m'.tape := congrArg (fun m => m.tape) h

theorem table (h : m.Alike m') : m.table = m'.table := congrArg (fun m => m.table) h

theorem finals (h : m.Alike m') : m.finals = m'.finals := congrArg (fun m => m.finals) h

theorem finished (h : m.Alike m') : m.finished = m'.finished :=
  congrArg (fun m => m.finished) h

theorem outcome (h : m.Alike m') : m.outcome = m'.outcome := by
  have hForget (m : Machine) : m.forgetVisits.outcome = m.outcome := by
    -- The rule in force depends on the table, the state and the value alone.
    have hRule : m.forgetVisits.ruleInForce = m.ruleInForce := rfl
    unfold Machine.outcome
    rw [hRule]
    cases m.ruleInForce <;> rfl
  rw [← hForget m, ← hForget m', h]

/-- Steps of machines that are alike lead to machines that are alike. -/
theorem successor (h : m.Alike m') : m.successor.Alike m'.successor := by
  have hForget (m : Machine) :
      m.forgetVisits.successor.forgetVisits = m.successor.forgetVisits := by
    have hRule : m.forgetVisits.ruleInForce = m.ruleInForce := rfl
    unfold Machine.successor
    rw [hRule]
    cases m.ruleInForce <;> rfl
  show m.successor.forgetVisits = m'.successor.forgetVisits
  rw [← hForget m, ← hForget m', h]

theorem iterate (h : m.Alike m') (n : Nat) :
    (Machine.successor^[n] m).Alike (Machine.successor^[n] m') := by
  induction n generalizing m m' with
  | zero => exact h
  | succ n ih => exact ih h.successor

/-- Machines that are alike make the same walks. -/
theorem walks (h : m.Alike m') {n : Nat} (hWalk : m.Walks n) : m'.Walks n := by
  intro i hi
  rw [← (h.iterate i).finished, ← (h.iterate i).outcome]
  exact hWalk i hi

end Alike

/-! ## §6 Rules for Some States

As long as a machine is in certain states, its steps depend on the rules for these states alone. -/

/-- Two machines are in the same state on the same tape, with the same final states, and have the same
rules for certain states. -/
structure AgreeOn (states : String → Prop) (m m' : Machine) : Prop where
  state : m.state = m'.state
  tape : m.tape = m'.tape
  finals : m.finals = m'.finals
  rules : ∀ k : Key, states k.1 → m.table.get? k = m'.table.get? k

namespace AgreeOn

variable {m m' : Machine} {states : String → Prop}

/-- Whether a rule can be looked up, and which one it is, is the same. -/
theorem rule (h : AgreeOn states m m') (hState : states m.state) : m.rule = m'.rule := by
  have hFinished : m.finished = m'.finished := by
    unfold finished
    rw [h.state, h.finals]
  have hWritten (value : Bool) : m.table.get? (m.state, value) = m'.table.get? (m.state, value) :=
    h.rules (m.state, value) hState
  unfold Machine.rule
  simp only [← h.tape, ← h.state, ← hFinished, hWritten]

theorem ruleInForce (h : AgreeOn states m m') (hState : states m.state) :
    m.ruleInForce = m'.ruleInForce := by
  unfold Machine.ruleInForce finished
  rw [h.rules _ hState, h.state, h.tape, h.finals]

theorem outcome (h : AgreeOn states m m') (hState : states m.state) : m.outcome = m'.outcome := by
  unfold Machine.outcome
  rw [h.ruleInForce hState]
  cases m'.ruleInForce with
  | none => rfl
  | some r =>
    -- Whether the next state is final is asked of the same final states.
    have hFinished : (m.obey r).finished = (m'.obey r).finished :=
      congrArg (fun finals : List String => finals.contains r.next) h.finals
    simp only [hFinished]

theorem successor (h : AgreeOn states m m') (hState : states m.state) :
    AgreeOn states m.successor m'.successor := by
  refine ⟨?_, ?_, by simpa using h.finals, by simpa using h.rules⟩
  · unfold Machine.successor
    rw [h.ruleInForce hState]
    cases m'.ruleInForce with
    | none => exact h.state
    | some r => rfl
  · unfold Machine.successor
    rw [h.ruleInForce hState]
    cases m'.ruleInForce with
    | none => exact h.tape
    | some r => simp only [obey, h.tape]

/-- Machines that agree on certain states still do so after steps from such states. -/
theorem iterate (h : AgreeOn states m m') {n : Nat}
    (hStates : ∀ i < n, states (Machine.successor^[i] m).state) :
    AgreeOn states (Machine.successor^[n] m) (Machine.successor^[n] m') := by
  induction n with
  | zero => exact h
  | succ n ih =>
    rw [Function.iterate_succ_apply', Function.iterate_succ_apply']
    have hBefore := ih fun i hi => hStates i (Nat.lt_succ_of_lt hi)
    exact hBefore.successor (hStates n (Nat.lt_succ_self n))

/-- Machines that agree on all states make the same steps. -/
theorem afterCalls (h : AgreeOn (fun _ => True) m m') (hCell : m.tape.OnCell) (n : Nat) :
    ∃ later later' outcome next next',
      m.afterCalls n = .ok later ∧ m'.afterCalls n = .ok later' ∧
      later'.state = later.state ∧ later'.tape = later.tape ∧
      later.advance = .ok (outcome, next) ∧ later'.advance = .ok (outcome, next') := by
  have hLater := h.iterate (n := n) fun _ _ => trivial
  have hCell' : m'.tape.OnCell := h.tape ▸ hCell
  have hAdvance' := advance_eq (onCell_iterate hCell' n)
  rw [← hLater.outcome trivial] at hAdvance'
  exact ⟨_, _, _, _, _, afterCalls_eq hCell n, afterCalls_eq hCell' n, hLater.state.symm,
    hLater.tape.symm, advance_eq (onCell_iterate hCell n), hAdvance'⟩

end AgreeOn

end Machine

end TapeMachine
