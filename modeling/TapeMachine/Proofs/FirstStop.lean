import TapeMachine.Proofs.Batches

/-!
# The First Stop of a Machine

Running a machine until a stop is a loop without a bound. What it returns is given by the first
number of steps after which the state is final or no rule applies, and it does not return if there is
no such number. Calling for one step after the other, until one answers that the machine has stopped,
comes to the same machine; it takes one call more where no rule applies, because only the call that
changes nothing finds that out.

* `Machine.FinalAfter` and `Machine.UndefinedAfter` are the two ways to stop;
* `Machine.Returns` says what a run until a stop returns, `Machine.stepToStop` makes single steps;
* `Machine.returns_iff`: a run returns what the machine yields at the end of a walk;
* `Machine.stepToStop_eq`: how many single steps there are up to the first that does not go on;
* `Machine.runToStop_finds_first_stop` puts these together.
-/

namespace TapeMachine

/-! ## §1 Ways to Stop -/

/-- The calls for one step that lead to an output. -/
def Output.calls : Output → Nat
  | .defined steps _ => steps
  | .undefined steps => steps + 1

/-- The output of a machine that has stopped already. -/
def Output.settled : Output → Output
  | .defined _ ones => .defined 0 ones
  | .undefined _ => .undefined 0

namespace Machine

/-- So many steps are the fewest after which the state is final. -/
structure FinalAfter (m : Machine) (n : Nat) (last : Machine) : Prop where
  reached : m.afterCalls n = .ok last
  final : last.finished = true
  fewest : ∀ i < n, ∃ earlier, m.afterCalls i = .ok earlier ∧ earlier.finished = false

/-- So many steps all apply a rule and reach no final state, and the next one has no rule. -/
structure UndefinedAfter (m : Machine) (n : Nat) (last : Machine) : Prop where
  reached : m.afterCalls n = .ok last
  going : ∀ i ≤ n, ∃ passed, m.afterCalls i = .ok passed ∧ passed.finished = false
  applies : ∀ i < n, ∃ before outcome after, m.afterCalls i = .ok before ∧
    before.advance = .ok (outcome, after) ∧ outcome ≠ .undefined
  noRule : last.isUndefined = .ok true

/-- Running a machine until a stop returns this output, and leaves the machine like this. -/
def Returns (m : Machine) (output : Output) (last : Machine) : Prop :=
  ∃ limit, m.runToStop limit = .ok (some (output, last))

/-- Single steps until one answers that the machine has stopped, counted on from `calls`. Nothing is
answered when `limit` steps are not enough. -/
def stepFrom : Nat → Nat → Machine → Except TapeFault (Option (Nat × Machine))
  | 0, _, _ => .ok none
  | limit + 1, calls, m => do
    let (stopped, next) ← m.step
    if stopped then return some (calls + 1, next) else stepFrom limit (calls + 1) next

/-- Single steps until one answers that the machine has stopped, for at most `limit` steps. -/
def stepToStop (limit : Nat) (m : Machine) : Except TapeFault (Option (Nat × Machine)) :=
  stepFrom limit 0 m

variable {m : Machine} {n : Nat} {last : Machine}

/-- Over a stored cell, whether a rule applies can be told. -/
theorem isUndefined_eq (hCell : m.tape.OnCell) :
    m.isUndefined = .ok (decide (m.outcome = .undefined)) := by
  rw [isUndefined, rule_eq hCell]
  simp only [outcome_eq_undefined_iff]
  cases m.ruleInForce with
  | none => rfl
  | some r => rfl

/-- In a final state some rule applies. -/
theorem outcome_of_finished (hFinal : m.finished = true) : m.outcome ≠ .undefined := by
  rw [Ne, outcome_eq_undefined_iff, ruleInForce_eq_none_iff]
  intro hNone
  exact hNone.2 (by simpa [finished] using hFinal)

/-- As long as no final state has been reached on the way to one, rules have been applied. -/
theorem walks_of_final (hGoing : ∀ i < n, (successor^[i] m).finished = false)
    (hFinal : (successor^[n] m).finished = true) : m.Walks n := by
  intro i hi
  refine ⟨hGoing i hi, fun hUndefined => ?_⟩
  -- Without a rule the machine would never change again.
  have hSplit : n = n - i + i := by omega
  have hStuck : successor^[n] m = successor^[i] m := by
    rw [hSplit, Function.iterate_add_apply,
      Function.iterate_fixed (successor_of_undefined hUndefined)]
  rw [hStuck, hGoing i hi] at hFinal
  cases hFinal

theorem finalAfter_iff (hCell : m.tape.OnCell) :
    m.FinalAfter n last ↔ m.Walks n ∧ last = successor^[n] m ∧ last.finished = true := by
  constructor
  · intro hAfter
    obtain rfl := Except.ok.inj ((afterCalls_eq hCell n).symm.trans hAfter.reached)
    refine ⟨walks_of_final (fun i hi => ?_) hAfter.final, rfl, hAfter.final⟩
    obtain ⟨earlier, hEarlier, hGoing⟩ := hAfter.fewest i hi
    obtain rfl := Except.ok.inj ((afterCalls_eq hCell i).symm.trans hEarlier)
    exact hGoing
  · rintro ⟨hWalk, rfl, hFinal⟩
    exact ⟨afterCalls_eq hCell n, hFinal, fun i hi => ⟨_, afterCalls_eq hCell i, (hWalk i hi).1⟩⟩

theorem undefinedAfter_iff (hCell : m.tape.OnCell) :
    m.UndefinedAfter n last ↔
      m.Walks n ∧ last = successor^[n] m ∧ last.finished = false ∧ last.outcome = .undefined := by
  constructor
  · intro hAfter
    obtain rfl := Except.ok.inj ((afterCalls_eq hCell n).symm.trans hAfter.reached)
    have hGoing : ∀ i ≤ n, (successor^[i] m).finished = false := by
      intro i hi
      obtain ⟨passed, hPassed, hGoing⟩ := hAfter.going i hi
      obtain rfl := Except.ok.inj ((afterCalls_eq hCell i).symm.trans hPassed)
      exact hGoing
    have hNoRule := hAfter.noRule
    rw [isUndefined_eq (onCell_iterate hCell n)] at hNoRule
    refine ⟨fun i hi => ⟨hGoing i (Nat.le_of_lt hi), ?_⟩, rfl, hGoing n (Nat.le_refl n),
      of_decide_eq_true (Except.ok.inj hNoRule)⟩
    obtain ⟨before, outcome, after, hBefore, hStep, hApplies⟩ := hAfter.applies i hi
    obtain rfl := Except.ok.inj ((afterCalls_eq hCell i).symm.trans hBefore)
    rw [advance_eq (onCell_iterate hCell i)] at hStep
    have hSame : (successor^[i] m).outcome = outcome := congrArg Prod.fst (Except.ok.inj hStep)
    rwa [hSame]
  · rintro ⟨hWalk, rfl, hGoing, hNoRule⟩
    refine ⟨afterCalls_eq hCell n, fun i hi => ⟨_, afterCalls_eq hCell i, ?_⟩,
      fun i hi => ⟨_, _, _, afterCalls_eq hCell i, advance_eq (onCell_iterate hCell i), (hWalk i hi).2⟩,
      ?_⟩
    · rcases Nat.lt_or_eq_of_le hi with hLt | rfl
      · exact (hWalk i hLt).1
      · exact hGoing
    · rw [isUndefined_eq (onCell_iterate hCell n), hNoRule]
      rfl

/-! ## §2 What is Returned -/

/-- **Returned runs**: a run until a stop returns what the machine yields at the end of a walk. -/
theorem returns_iff (hCell : m.tape.OnCell) {output : Output} :
    m.Returns output last ↔
      ∃ n, m.Walks n ∧ last = successor^[n] m ∧ last.Yields n output := by
  constructor
  · rintro ⟨limit, hRun⟩
    obtain ⟨n, hWalk, hLast, hYields⟩ := exists_walk_of_runFrom hCell hRun
    exact ⟨n, hWalk, hLast, Nat.zero_add n ▸ hYields⟩
  · rintro ⟨n, hWalk, rfl, hYields⟩
    exact ⟨n + 1, runToStop_of_walk hCell hWalk hYields (Nat.lt_succ_self n)⟩

/-- A run that returns nothing, however long it is, is one that never returns. -/
theorem runToStop_eq_none_iff (hCell : m.tape.OnCell) :
    (∀ limit, m.runToStop limit = .ok none) ↔ ∀ output last, ¬ m.Returns output last := by
  constructor
  · rintro hNever output last ⟨limit, hRun⟩
    rw [hNever limit] at hRun
    cases hRun
  · intro hNot limit
    obtain ⟨answer, hRun⟩ := exists_runFrom hCell limit 0
    cases answer with
    | none => exact hRun
    | some found => exact absurd ⟨limit, hRun⟩ (hNot found.1 found.2)

/-- What a machine yields, it yields again at once. -/
theorem Yields.settled {steps : Nat} {output : Output} (hYields : m.Yields steps output) :
    m.Yields 0 output.settled := by
  cases hYields with
  | defined hFinal => exact .defined hFinal
  | undefined hGoing hNoRule => exact .undefined hGoing hNoRule

/-- A machine that yields an output shows it without running. -/
theorem Yields.currentOutput (hCell : m.tape.OnCell) {steps : Nat} {output : Output}
    (hYields : m.Yields steps output) : m.currentOutput = .ok output.settled := by
  rw [Machine.currentOutput, isUndefined_eq hCell, ok_bind]
  cases hYields with
  | defined hFinal =>
    rw [decide_eq_false (outcome_of_finished hFinal)]
    rfl
  | undefined hGoing hNoRule =>
    rw [hNoRule]
    rfl

/-- Where a machine yields an output, it has no rule exactly if its state is not final. -/
theorem Yields.isUndefined (hCell : m.tape.OnCell) {steps : Nat} {output : Output}
    (hYields : m.Yields steps output) : m.isUndefined = .ok (!m.finished) := by
  rw [isUndefined_eq hCell]
  cases hYields with
  | defined hFinal => rw [decide_eq_false (outcome_of_finished hFinal), hFinal, Bool.not_true]
  | undefined hGoing hNoRule => rw [hNoRule, hGoing, Bool.not_false, decide_eq_true rfl]

/-! ## §3 Single Steps -/

theorem step_eq (hCell : m.tape.OnCell) :
    m.step = .ok (m.outcome != .ongoing, m.successor) := by
  rw [step, advance_eq hCell]
  rfl

/-- Single steps go on as long as none of them answers that the machine has stopped. -/
theorem stepFrom_of_ongoing (hCell : m.tape.OnCell)
    (hGoes : ∀ i < n, (successor^[i] m).outcome = .ongoing) (limit calls : Nat) :
    stepFrom (limit + n) calls m = stepFrom limit (calls + n) (successor^[n] m) := by
  induction n generalizing m calls with
  | zero => rfl
  | succ n ih =>
    have hFirst : m.outcome = .ongoing := hGoes 0 (Nat.succ_pos n)
    have hRest : ∀ i < n, (successor^[i] m.successor).outcome = .ongoing := fun i hi =>
      hGoes (i + 1) (Nat.succ_lt_succ hi)
    rw [← Nat.add_assoc, stepFrom, step_eq hCell, ok_bind, hFirst]
    show stepFrom (limit + n) (calls + 1) m.successor = _
    rw [ih (onCell_successor hCell) hRest, Nat.add_assoc, Nat.add_comm 1 n]
    rfl

/-- **Single steps** up to the first that does not go on. -/
theorem stepToStop_eq (hCell : m.tape.OnCell)
    (hGoes : ∀ i < n, (successor^[i] m).outcome = .ongoing)
    (hStops : (successor^[n] m).outcome ≠ .ongoing) (limit : Nat) :
    m.stepToStop limit =
      .ok (if n + 1 ≤ limit then some (n + 1, successor^[n + 1] m) else none) := by
  unfold stepToStop
  split
  · next hEnough =>
    obtain ⟨extra, rfl⟩ := Nat.exists_eq_add_of_le' hEnough
    have hSplit : extra + (n + 1) = extra + 1 + n := by omega
    have hStopped : ((successor^[n] m).outcome != .ongoing) = true := by simpa using hStops
    rw [hSplit, stepFrom_of_ongoing hCell hGoes, stepFrom, step_eq (onCell_iterate hCell n), ok_bind,
      hStopped, Nat.zero_add, Function.iterate_succ_apply']
    rfl
  · next hShort =>
    have hPart : ∀ i < limit, (successor^[i] m).outcome = .ongoing := fun i hi =>
      hGoes i (by omega)
    have hRun := stepFrom_of_ongoing hCell hPart 0 0
    rw [Nat.zero_add] at hRun
    rw [hRun]
    rfl

/-- Single steps that begin outside final states come to where a walk ends and the machine yields an
output, in one call more where there is no rule. -/
theorem stepToStop_of_walk (hCell : m.tape.OnCell) (hStart : m.finished = false) (hWalk : m.Walks n)
    {output : Output} (hYields : (successor^[n] m).Yields n output) (limit : Nat) :
    m.stepToStop limit =
      .ok (if output.calls ≤ limit then some (output.calls, successor^[n] m) else none) := by
  cases hYields with
  | defined hFinal =>
    cases n with
    | zero =>
      rw [Function.iterate_zero_apply, hStart] at hFinal
      cases hFinal
    | succ n =>
      -- All steps but the last go on, and the last reaches the final state.
      have hFirst : m.Walks n := fun i hi => hWalk i (by omega)
      obtain ⟨hGoing, hDefined⟩ := hWalk n (Nat.lt_succ_self n)
      have hGoes := (continues_iff hCell).1 (hFirst.continues hCell hGoing)
      refine stepToStop_eq hCell hGoes ?_ limit
      rw [Function.iterate_succ_apply'] at hFinal
      rw [outcome_of_defined hDefined, hFinal]
      decide
  | undefined hGoing hNoRule =>
    -- All steps go on, and one more call changes nothing.
    have hGoes := (continues_iff hCell).1 (hWalk.continues hCell hGoing)
    have hRun := stepToStop_eq hCell hGoes (by simp [hNoRule]) limit
    rwa [Function.iterate_succ_apply', successor_of_undefined hNoRule] at hRun

/-! ## §4 The First Stop -/

/-- **The first stop**: a run until a stop returns a number of steps and the cells with 1 exactly if
these are the fewest steps after which the state is final and the cells that are there then. It
returns a number of steps for want of a rule exactly if so many steps apply a rule, reach no final
state, and have no rule after them. It never returns exactly if neither is so for any number. From a
state that is not final, single steps come to the same machine, with one call more for want of a
rule. Of what is left, either the state is final or there is no rule; another run returns the same
at once and changes nothing, and so does looking at the output without running. -/
theorem runToStop_finds_first_stop {m : Machine} (hHead : m.tape.head < m.tape.cells.length) :
    (∀ n ones last, m.Returns (.defined n ones) last ↔
      m.FinalAfter n last ∧ ones = last.tape.ones) ∧
    (∀ n last, m.Returns (.undefined n) last ↔ m.UndefinedAfter n last) ∧
    ((∀ limit, m.runToStop limit = .ok none) ↔
      ∀ n last, ¬ m.FinalAfter n last ∧ ¬ m.UndefinedAfter n last) ∧
    ∀ output last, m.Returns output last →
      (m.finished = false → ∀ limit, m.stepToStop limit =
        .ok (if output.calls ≤ limit then some (output.calls, last) else none)) ∧
      last.isUndefined = .ok (!last.finished) ∧
      (∀ limit > 0, last.runToStop limit = .ok (some (output.settled, last))) ∧
      last.currentOutput = .ok output.settled := by
  have hFinal (n ones : Nat) (last : Machine) : m.Returns (.defined n ones) last ↔
      m.FinalAfter n last ∧ ones = last.tape.ones := by
    rw [returns_iff hHead, finalAfter_iff hHead]
    constructor
    · rintro ⟨k, hWalk, rfl, hYields⟩
      cases hYields with
      | defined hFinal => exact ⟨⟨hWalk, rfl, hFinal⟩, rfl⟩
    · rintro ⟨⟨hWalk, hLast, hFinal⟩, rfl⟩
      exact ⟨n, hWalk, hLast, .defined hFinal⟩
  have hUndefined (n : Nat) (last : Machine) :
      m.Returns (.undefined n) last ↔ m.UndefinedAfter n last := by
    rw [returns_iff hHead, undefinedAfter_iff hHead]
    constructor
    · rintro ⟨k, hWalk, rfl, hYields⟩
      cases hYields with
      | undefined hGoing hNoRule => exact ⟨hWalk, rfl, hGoing, hNoRule⟩
    · rintro ⟨hWalk, hLast, hGoing, hNoRule⟩
      exact ⟨n, hWalk, hLast, .undefined hGoing hNoRule⟩
  refine ⟨hFinal, hUndefined, ?_, fun output last hReturns => ?_⟩
  · rw [runToStop_eq_none_iff hHead]
    constructor
    · intro hNever n last
      exact ⟨fun hAfter => hNever _ last ((hFinal n _ last).2 ⟨hAfter, rfl⟩),
        fun hAfter => hNever _ last ((hUndefined n last).2 hAfter)⟩
    · intro hNeither output last hReturns
      cases output with
      | defined n ones => exact (hNeither n last).1 ((hFinal n ones last).1 hReturns).1
      | undefined n => exact (hNeither n last).2 ((hUndefined n last).1 hReturns)
  · obtain ⟨n, hWalk, rfl, hYields⟩ := (returns_iff hHead).1 hReturns
    have hCell := onCell_iterate hHead n
    exact ⟨fun hStart => stepToStop_of_walk hHead hStart hWalk hYields, hYields.isUndefined hCell,
      fun limit hEnough => runToStop_of_walk hCell (walks_zero _) hYields.settled hEnough,
      hYields.currentOutput hCell⟩

/-- A machine whose final state has a rule that leads out of it, and the same without final states and
without this rule. -/
theorem runToStop_finds_first_stop_at_rule :
    let rules : List Rule := [⟨"a", true, false, .right, "a"⟩, ⟨"a", false, true, .left, "f"⟩]
    let m : Machine :=
      { table := .ofList (⟨"f", false, true, .right, "a"⟩ :: rules), finals := ["f"], state := "a"
        tape := ⟨[true, true], 0⟩ }
    let stuck : Machine := { m with table := .ofList rules, finals := [] }
    let tape : Tape := ⟨[false, false, false, false, true, false, false, false], 3⟩
    let after (m : Machine) : Machine :=
      { m with state := "f", tape, visits := ⟨[("a", 2), ("f", 1)]⟩ }
    m.tape.head < m.tape.cells.length ∧
      m.Returns (.defined 3 1) (after m) ∧ m.FinalAfter 3 (after m) ∧
      m.stepToStop 9 = .ok (some (3, after m)) ∧
      (after m).runToStop 9 = .ok (some (.defined 0 1, after m)) ∧
      stuck.Returns (.undefined 3) (after stuck) ∧ stuck.UndefinedAfter 3 (after stuck) ∧
      stuck.stepToStop 9 = .ok (some (4, after stuck)) ∧
      (after stuck).currentOutput = .ok (.undefined 0) := by
  intro rules m stuck tape after
  have hHead : m.tape.head < m.tape.cells.length := by decide
  obtain ⟨hFinal, -, -, hLast⟩ := runToStop_finds_first_stop hHead
  obtain ⟨-, hUndefined, -, hLast'⟩ := runToStop_finds_first_stop (m := stuck) hHead
  have hReturns : m.Returns (.defined 3 1) (after m) := ⟨9, eq_ok_of_toOption (by decide)⟩
  have hReturns' : stuck.Returns (.undefined 3) (after stuck) := ⟨9, eq_ok_of_toOption (by decide)⟩
  obtain ⟨hSteps, -, hAgain, -⟩ := hLast _ _ hReturns
  obtain ⟨hSteps', -, -, hOutput'⟩ := hLast' _ _ hReturns'
  exact ⟨hHead, hReturns, ((hFinal 3 1 _).1 hReturns).1, hSteps (by decide) 9,
    hAgain 9 (by decide), hReturns', (hUndefined 3 _).1 hReturns', hSteps' (by decide) 9, hOutput'⟩

end Machine

end TapeMachine
