import TapeMachine.Proofs.Histories
import TapeMachine.Proofs.Libraries.Flaws

/-!
# Libraries Run in Isolation

A program may have any rules besides those of a library that it composes. While it is in the states of
a valid library, they make no difference: two machines that have the same rules for these states make
the same steps, and no step leads out of them.

* `Machine.attempts` are advances as they can be asked of any machine, also where the head is off the
  tape, and `Machine.entered` the states that they enter;
* `Machine.ClosedOn` says that no rule leads out of certain states;
* `Machine.ClosedOn.state_attempt` and `Machine.ClosedOn.attempts`: one advance, and any number of
  them, stay within closed states;
* `Machine.AgreeOn.attempt` and `Machine.AgreeOn.attempts`: there, machines with the same rules go
  along with each other;
* `Library.closed_of_validate`: the table of a valid library is closed;
* `Library.runs_in_isolation` puts these together.
-/

namespace TapeMachine

namespace Machine

/-! ## §1 Attempts -/

/-- What an advance comes to, and the machine after it. One that fails changes nothing. -/
def attempt (m : Machine) : Except TapeFault Outcome × Machine :=
  match m.advance with
  | .ok (outcome, next) => (.ok outcome, next)
  | .error fault => (.error fault, m)

/-- What so many advances come to one after the other, and the machine after them. -/
def attempts : Nat → Machine → List (Except TapeFault Outcome) × Machine
  | 0, m => ([], m)
  | n + 1, m =>
    let (outcome, next) := m.attempt
    let (outcomes, last) := attempts n next
    (outcome :: outcomes, last)

/-- The states that so many advances enter, in order. -/
def entered : Nat → Machine → List String
  | 0, _ => []
  | n + 1, m => m.rulesOfStep.map Rule.next ++ entered n m.attempt.2

variable {m m' : Machine} {states : String → Prop}

/-- An advance obeys the rule that it applies, and comes to where that leads. -/
theorem attempt_eq (m : Machine) :
    m.attempt = match m.rule with
      | .error fault => (.error fault, m)
      | .ok none => (.ok .undefined, m)
      | .ok (some r) => (.ok (if (m.obey r).finished then .final else .ongoing), m.obey r) := by
  unfold attempt advance
  cases m.rule with
  | error fault => rfl
  | ok found => cases found <;> rfl

/-- The machine after an advance has obeyed the rules that were applied. -/
theorem attempt_eq_obeyAll (m : Machine) : m.attempt.2 = m.obeyAll m.rulesOfStep := by
  rw [attempt_eq, rulesOfStep]
  cases m.rule with
  | error fault => rfl
  | ok found => cases found <;> rfl

@[simp] theorem table_attempt (m : Machine) : m.attempt.2.table = m.table := by
  rw [attempt_eq]
  cases m.rule with
  | error fault => rfl
  | ok found => cases found <;> rfl

/-- **Visits**: advances count the states that they enter. -/
theorem visits_attempts (n : Nat) (m : Machine) :
    (attempts n m).2.visits = m.visits.enterAll (entered n m) := by
  induction n generalizing m with
  | zero => rfl
  | succ n ih =>
    show (attempts n m.attempt.2).2.visits = _
    rw [ih, attempt_eq_obeyAll, visits_obeyAll, entered, Visits.enterAll_append, attempt_eq_obeyAll]

/-! ## §2 Closed Sets of States -/

/-- No rule for certain states leads out of them. -/
def ClosedOn (states : String → Prop) (m : Machine) : Prop :=
  ∀ k r, states k.1 → m.table.get? k = some r → states r.next

/-- An advance changes no rules. -/
theorem ClosedOn.attempt (hClosed : ClosedOn states m) : ClosedOn states m.attempt.2 := by
  unfold ClosedOn
  rw [table_attempt]
  exact hClosed

/-- A rule that is applied in certain states leads to such a state, whether it is written or not. -/
theorem ClosedOn.next_of_mem_rulesOfStep (hClosed : ClosedOn states m) (hState : states m.state) :
    ∀ r ∈ m.rulesOfStep, states r.next := by
  intro r hr
  unfold rulesOfStep rule at hr
  cases hRead : m.tape.read with
  | error fault =>
    rw [hRead] at hr
    cases hr
  | ok value =>
    rw [hRead, ok_bind] at hr
    cases hWritten : m.table.get? (m.state, value) with
    | some written =>
      obtain rfl : r = written := by simpa [hWritten, pure, Except.pure] using hr
      exact hClosed _ r hState hWritten
    | none =>
      -- A rule that is not written halts in place.
      cases hFinished : m.finished with
      | true =>
        obtain rfl : r = Rule.halt m.state value := by
          simpa [hWritten, hFinished, pure, Except.pure] using hr
        exact hState
      | false => simp [hWritten, hFinished, pure, Except.pure] at hr

/-- **One advance** from certain states ends in such a state. -/
theorem ClosedOn.state_attempt (hClosed : ClosedOn states m) (hState : states m.state) :
    states m.attempt.2.state := by
  have hNext := hClosed.next_of_mem_rulesOfStep hState
  rw [attempt_eq]
  unfold rulesOfStep at hNext
  cases hRule : m.rule with
  | error fault => exact hState
  | ok found =>
    cases found with
    | none => exact hState
    | some r =>
      rw [hRule] at hNext
      exact hNext r (List.mem_singleton_self r)

/-- **Any advances** from certain states enter only such states. -/
theorem ClosedOn.attempts (hClosed : ClosedOn states m) (hState : states m.state) (n : Nat) :
    states (attempts n m).2.state ∧ ∀ s ∈ entered n m, states s := by
  induction n generalizing m with
  | zero => exact ⟨hState, by simp [entered]⟩
  | succ n ih =>
    obtain ⟨hLast, hRest⟩ := ih hClosed.attempt (hClosed.state_attempt hState)
    refine ⟨hLast, fun s hs => ?_⟩
    rcases List.mem_append.1 hs with hFirst | hs
    · obtain ⟨r, hr, rfl⟩ := List.mem_map.1 hFirst
      exact hClosed.next_of_mem_rulesOfStep hState r hr
    · exact hRest s hs

/-! ## §3 Two Machines -/

/-- **One advance** of machines that agree on certain states applies the same rule, comes to the same,
and leaves them in agreement. -/
theorem AgreeOn.attempt (h : AgreeOn states m m') (hState : states m.state) :
    m.rulesOfStep = m'.rulesOfStep ∧ m.attempt.1 = m'.attempt.1 ∧
      AgreeOn states m.attempt.2 m'.attempt.2 := by
  have hRule := h.rule hState
  have hObey (r : Rule) : AgreeOn states (m.obey r) (m'.obey r) :=
    ⟨rfl, by simp only [obey, h.tape], h.finals, h.rules⟩
  have hFinished (r : Rule) : (m.obey r).finished = (m'.obey r).finished :=
    congrArg (fun finals : List String => finals.contains r.next) h.finals
  refine ⟨by rw [rulesOfStep, rulesOfStep, hRule], ?_⟩
  rw [attempt_eq, attempt_eq, hRule]
  cases m'.rule with
  | error fault => exact ⟨rfl, h⟩
  | ok found =>
    cases found with
    | none => exact ⟨rfl, h⟩
    | some r => exact ⟨by simp only [hFinished], hObey r⟩

/-- **Any advances** of machines that agree on states out of which no rule leads. -/
theorem AgreeOn.attempts (h : AgreeOn states m m') (hClosed : ClosedOn states m)
    (hState : states m.state) (n : Nat) :
    entered n m = entered n m' ∧ (attempts n m).1 = (attempts n m').1 ∧
      AgreeOn states (attempts n m).2 (attempts n m').2 := by
  -- Agreement carries the induction as long as the states are not left, and they are closed.
  induction n generalizing m m' with
  | zero => exact ⟨rfl, rfl, h⟩
  | succ n ih =>
    obtain ⟨hRules, hOutcome, hAgree⟩ := h.attempt hState
    obtain ⟨hEntered, hOutcomes, hLast⟩ := ih hAgree hClosed.attempt (hClosed.state_attempt hState)
    refine ⟨?_, ?_, hLast⟩
    · rw [entered, entered, hRules, hEntered]
    · show m.attempt.1 :: (attempts n m.attempt.2).1 = m'.attempt.1 :: (attempts n m'.attempt.2).1
      rw [hOutcome, hOutcomes]

end Machine

/-! ## §4 Valid Libraries -/

namespace Library

variable {l : Library}

/-- **Closed**: a valid library has a table, and its rules lead to states that it declares. -/
theorem closed_of_validate (hValid : l.validate = .ok ()) :
    ∃ t, l.table = .ok t ∧ ∀ k r, t.get? k = some r → r.next ∈ l.usedStates := by
  obtain ⟨t, hTable, hDeclares⟩ := validate_eq_ok_iff.1 hValid
  refine ⟨t, table_eq_ok_iff_hasTable.2 hTable, fun k r hFound => ?_⟩
  exact (hDeclares.states r (Table.mem_of_get? hFound)).2

/-- **Isolation**: take two machines in the same state of a valid library, on the same tape and with the
same final states, whose tables give for the states of the library what its own table gives, and for
other states anything. Whatever number of advances are asked of them, these come to the same and end in
the same state, with the same tape and head. They enter the same states, all of them states of the
library, and these are what is added to the visits of both. -/
theorem runs_in_isolation {registry : Registry} (hValid : registry.validate = .ok ())
    (hMem : l ∈ registry.libraries) :
    ∃ t, l.table = .ok t ∧ ∀ m m' : Machine,
      m.state = m'.state → m.tape = m'.tape → m.finals = m'.finals →
      (∀ k : Key, k.1 ∈ l.usedStates → m.table.get? k = t.get? k) →
      (∀ k : Key, k.1 ∈ l.usedStates → m'.table.get? k = t.get? k) →
      m.state ∈ l.usedStates → ∀ n,
        (m.attempts n).1 = (m'.attempts n).1 ∧
        (m.attempts n).2.state = (m'.attempts n).2.state ∧
        (m.attempts n).2.tape = (m'.attempts n).2.tape ∧
        m.entered n = m'.entered n ∧
        (m.attempts n).2.visits = m.visits.enterAll (m.entered n) ∧
        (m'.attempts n).2.visits = m'.visits.enterAll (m.entered n) ∧
        (m.attempts n).2.state ∈ l.usedStates ∧ ∀ s ∈ m.entered n, s ∈ l.usedStates := by
  obtain ⟨t, hTable, hClosed⟩ := closed_of_validate (forM_eq_ok_iff.1 hValid l hMem)
  refine ⟨t, hTable, fun m m' hSame hTape hFinals hRules hRules' hState n => ?_⟩
  have hAgree : m.AgreeOn (· ∈ l.usedStates) m' :=
    ⟨hSame, hTape, hFinals, fun k hk => (hRules k hk).trans (hRules' k hk).symm⟩
  have hKept : Machine.ClosedOn (· ∈ l.usedStates) m :=
    fun k r hk hFound => hClosed k r ((hRules k hk).symm.trans hFound)
  obtain ⟨hEntered, hOutcomes, hLast⟩ := hAgree.attempts hKept hState n
  obtain ⟨hEnd, hUsed⟩ := hKept.attempts hState n
  exact ⟨hOutcomes, hLast.state, hLast.tape, hEntered, Machine.visits_attempts n m,
    hEntered ▸ Machine.visits_attempts n m', hEnd, hUsed⟩

/-- The library that adds, alone, and with a rule for another state on a machine that has visits. -/
theorem runs_in_isolation_of_sum :
    let t := Table.ofList sumRules
    let m : Machine :=
      { table := t, finals := ["q2"], state := "q0"
        tape := ⟨[false, false, false, true, false, true, false, false, false], 3⟩ }
    let m' : Machine :=
      { m with table := t.insert ⟨"p", true, true, .left, "q0"⟩, visits := ⟨[("q1", 4)]⟩ }
    Registry.builtin.validate = .ok () ∧ sum ∈ Registry.builtin.libraries ∧
      (m'.attempts 3).1 = [.ok .ongoing, .ok .ongoing, .ok .final] ∧
      (m'.attempts 3).2.state = "q2" ∧ m'.entered 3 = ["q1", "q3", "q2"] ∧
      (m'.attempts 3).2.visits = ⟨[("q1", 5), ("q3", 1), ("q2", 1)]⟩ := by
  intro t m m'
  have hMem : sum ∈ Registry.builtin.libraries := by simp [Registry.builtin]
  obtain ⟨t', hTable, hRuns⟩ := runs_in_isolation Registry.validate_builtin hMem
  obtain rfl : t = t' := by
    have hProvides : sum.Provides sumRules := provides_of_mem_contents (by simp [contents])
    rw [table, hProvides.rulesOf] at hTable
    exact Except.ok.inj hTable
  have hOther : ∀ k : Key, k.1 ∈ sum.usedStates → m'.table.get? k = t.get? k := by
    intro k hk
    refine (Table.get?_insert t _ k).trans (if_neg ?_)
    -- The state of the rule that is added is none of those of the library.
    rintro rfl
    exact absurd hk (by decide)
  obtain ⟨hOutcomes, hState, -, hEntered, -, hVisits, -, -⟩ :=
    hRuns m m' rfl rfl rfl (fun _ _ => rfl) hOther (by decide) 3
  exact ⟨Registry.validate_builtin, hMem, hOutcomes.symm.trans (by decide +kernel),
    hState.symm.trans (by decide +kernel), hEntered.symm.trans (by decide +kernel),
    hVisits.trans (by decide +kernel)⟩

end Library

end TapeMachine
