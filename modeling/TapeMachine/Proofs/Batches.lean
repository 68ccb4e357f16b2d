import TapeMachine.Proofs.Runs
import TapeMachine.Proofs.VisitCounts

/-!
# Batches that are Used Up

A batch is used up if all its steps go on and the step limit leaves room for them. The visit counts
at its end are then those of the states that its steps have entered, and they alone decide whether
the run goes on.

* `Machine.Continues` says that steps go on, `Machine.entries` are the states that they enter;
* `Machine.visits_iterate`: visit counts are those of the entries;
* `Machine.runBatches_of_continues`: a batch whose steps go on is used up;
* `Machine.continues_of_loop`: only after such a batch a run ends as a probable loop;
* `Limits.suspect?_enterAll_eq_none_iff` and `Limits.busiest_of_suspect?`: which state is suspected.
-/

namespace TapeMachine

/-! ## §1 Steps that Go on -/

namespace Machine

variable {m : Machine}

/-- The first steps all apply a rule, and none of them leads to a final state. -/
def Continues (m : Machine) (n : Nat) : Prop :=
  ∀ i < n, ∃ before after, m.afterCalls i = .ok before ∧ before.advance = .ok (.ongoing, after)

/-- The states that steps enter, by the number of steps made before them. -/
def entries (m : Machine) (before n : Nat) : List String :=
  (List.range n).filterMap fun i =>
    (m.afterCalls (before + i + 1)).toOption.map fun reached => reached.state

theorem continues_iff (hCell : m.tape.OnCell) {n : Nat} :
    m.Continues n ↔ ∀ i < n, (successor^[i] m).outcome = .ongoing := by
  refine forall₂_congr fun i _ => ?_
  have hAdvance := advance_eq (onCell_iterate hCell i)
  constructor
  · intro hGoes
    rcases hGoes with ⟨before, after, hBefore, hStep⟩
    rw [afterCalls_eq hCell] at hBefore
    obtain rfl := Except.ok.inj hBefore
    rw [hAdvance] at hStep
    exact congrArg Prod.fst (Except.ok.inj hStep)
  · intro hGoes
    rw [hGoes] at hAdvance
    exact ⟨_, _, afterCalls_eq hCell i, hAdvance⟩

theorem entries_eq (hCell : m.tape.OnCell) (before n : Nat) :
    m.entries before n = (List.range n).map fun i => (successor^[before + i + 1] m).state := by
  unfold entries
  simp only [afterCalls_eq hCell]
  exact congrFun List.filterMap_eq_map _

/-- Entries of steps made later are those of the machine that they start from. -/
theorem entries_of_alike {m' : Machine} (hCell : m.tape.OnCell) {before : Nat}
    (hAlike : m'.Alike (successor^[before] m)) (n : Nat) : m'.entries 0 n = m.entries before n := by
  have hCell' : m'.tape.OnCell := hAlike.tape ▸ onCell_iterate hCell before
  rw [entries_eq hCell, entries_eq hCell']
  refine List.map_congr_left fun i _ => ?_
  have hLater : 0 + i + 1 + before = before + i + 1 := by omega
  rw [(hAlike.iterate (0 + i + 1)).state, ← Function.iterate_add_apply, hLater]

/-- A step that goes on leads to a state that is not final. -/
theorem finished_successor_of_ongoing (hGoes : m.outcome = .ongoing) :
    m.successor.finished = false := by
  have hEnd := outcome_of_defined (m := m) (by simp [hGoes])
  rw [hGoes] at hEnd
  by_contra hFinished
  simp [hFinished] at hEnd

/-- As long as steps go on, no final state is reached. -/
theorem finished_iterate_of_ongoing (hGoing : m.finished = false) {n : Nat}
    (hGoes : ∀ i < n, (successor^[i] m).outcome = .ongoing) :
    (successor^[n] m).finished = false := by
  cases n with
  | zero => exact hGoing
  | succ n =>
    rw [Function.iterate_succ_apply']
    exact finished_successor_of_ongoing (hGoes n (Nat.lt_succ_self n))

/-- Steps go on as far as a walk goes that does not end in a final state. -/
theorem Walks.continues {n : Nat} (hCell : m.tape.OnCell) (hWalk : m.Walks n)
    (hGoing : (successor^[n] m).finished = false) : m.Continues n := by
  refine (continues_iff hCell).2 fun i hi => ?_
  obtain ⟨-, hDefined⟩ := hWalk i hi
  have hNext : (successor^[i + 1] m).finished = false := by
    rcases Nat.lt_or_ge (i + 1) n with hLt | hGe
    · exact (hWalk (i + 1) hLt).1
    · obtain rfl : n = i + 1 := by omega
      exact hGoing
  rw [Function.iterate_succ_apply'] at hNext
  rw [outcome_of_defined hDefined, hNext]
  rfl

/-- A step that applies a rule counts the state that it enters. -/
theorem visits_successor (hDefined : m.outcome ≠ .undefined) :
    m.successor.visits = m.visits.enter m.successor.state := by
  rw [Ne, outcome_eq_undefined_iff] at hDefined
  unfold successor
  cases hRule : m.ruleInForce with
  | none => exact absurd hRule hDefined
  | some r => rfl

/-- **Visit counts** are those there were and the entries made since. -/
theorem visits_iterate (hCell : m.tape.OnCell) {n : Nat}
    (hDefined : ∀ i < n, (successor^[i] m).outcome ≠ .undefined) :
    (successor^[n] m).visits = m.visits.enterAll (m.entries 0 n) := by
  rw [entries_eq hCell]
  induction n with
  | zero => rfl
  | succ n ih =>
    have hLast := visits_successor (hDefined n (Nat.lt_succ_self n))
    rw [← Function.iterate_succ_apply' successor n m] at hLast
    rw [List.range_succ, List.map_append, Visits.enterAll_append,
      ← ih fun i hi => hDefined i (Nat.lt_succ_of_lt hi), hLast, Nat.succ_eq_add_one]
    simp only [Nat.zero_add]
    rfl

end Machine

/-! ## §2 Limits -/

namespace Limits

/-- The step limit, if there is one, leaves room for so many steps. -/
def Allows (l : Limits) (steps : Nat) : Prop :=
  ∀ most, l.maxSteps = some most → (steps : Int) ≤ most

theorem reached?_eq_none_iff {l : Limits} {steps : Nat} :
    l.reached? steps = none ↔ l.Allows (steps + 1) := by
  rw [reached?, Option.filter_eq_none_iff]
  refine forall₂_congr fun most _ => ?_
  simp only [decide_eq_true_eq]
  push_cast
  omega

theorem Allows.mono {l : Limits} {steps fewer : Nat} (hAllows : l.Allows steps)
    (hLe : fewer ≤ steps) : l.Allows fewer := by
  intro most hMost
  have hRoom := hAllows most hMost
  omega

/-- A state is suspected if it is the busiest, and was entered more often than the threshold. -/
theorem suspect?_eq_some_iff {l : Limits} {v : Visits} {s : String} :
    l.suspect? v = some s ↔ ∃ n, v.busiest? = some (s, n) ∧ l.threshold < n := by
  rw [suspect?, Option.map_eq_some_iff]
  constructor
  · intro hFound
    rcases hFound with ⟨⟨s', n⟩, hFilter, rfl⟩
    obtain ⟨hBusiest, hMany⟩ := Option.filter_eq_some_iff.1 hFilter
    exact ⟨n, hBusiest, of_decide_eq_true hMany⟩
  · intro hFound
    rcases hFound with ⟨n, hBusiest, hMany⟩
    exact ⟨(s, n), Option.filter_eq_some_iff.2 ⟨hBusiest, decide_eq_true hMany⟩, rfl⟩

/-- A state that was entered more often than the threshold makes some state suspected. -/
theorem exists_suspect {l : Limits} {v : Visits} {s : String} (hThreshold : 0 ≤ l.threshold)
    (hMany : l.threshold < v.count s) : ∃ t, l.suspect? v = some t := by
  have hListed : (s, v.count s) ∈ v.counts := Visits.mem_counts_of_count (by omega)
  obtain ⟨⟨t, n⟩, hBusiest⟩ : ∃ e, v.busiest? = some e := by
    unfold Visits.busiest?
    split
    · next hNone =>
      rw [hNone] at hListed
      cases hListed
    · exact ⟨_, rfl⟩
  obtain ⟨front, back, hSplit, hFront, hBack⟩ := Visits.busiest?_eq_some hBusiest
  refine ⟨t, suspect?_eq_some_iff.2 ⟨n, hBusiest, ?_⟩⟩
  rw [hSplit, List.mem_append, List.mem_cons] at hListed
  rcases hListed with hMem | hSame | hMem
  · have hLess := hFront _ hMem
    dsimp only at hLess
    omega
  · rw [(Prod.mk.inj hSame).2] at hMany
    exact hMany
  · have hLess := hBack _ hMem
    dsimp only at hLess
    omega

/-- The state that is suspected is the busiest of the entries, and has more of them than the
threshold. -/
theorem busiest_of_suspect? {l : Limits} {entries : List String} {s : String}
    (hSuspect : l.suspect? (Visits.empty.enterAll entries) = some s) :
    l.threshold < entries.count s ∧ Visits.Busiest entries s := by
  obtain ⟨n, hBusiest, hMany⟩ := suspect?_eq_some_iff.1 hSuspect
  obtain ⟨rfl, hFirst⟩ := Visits.busiest?_enterAll hBusiest
  exact ⟨hMany, hFirst⟩

/-- No state is suspected exactly if none has more entries than the threshold. -/
theorem suspect?_enterAll_eq_none_iff {l : Limits} (hThreshold : 0 ≤ l.threshold)
    {entries : List String} :
    l.suspect? (Visits.empty.enterAll entries) = none ↔ ∀ s, (entries.count s : Int) ≤ l.threshold := by
  constructor
  · intro hNone s
    by_contra hMany
    have hCount : (Visits.empty.enterAll entries).count s = entries.count s := by
      rw [Visits.count_enterAll]
      exact Nat.zero_add _
    obtain ⟨t, hSuspect⟩ := exists_suspect (v := Visits.empty.enterAll entries) (s := s) hThreshold
      (by rw [hCount]; omega)
    rw [hNone] at hSuspect
    cases hSuspect
  · intro hFew
    refine Option.eq_none_iff_forall_ne_some.2 fun s hSuspect => ?_
    have hMany := (busiest_of_suspect? hSuspect).1
    have hLess := hFew s
    omega

end Limits

/-! ## §3 Batches -/

namespace Machine

variable {limits : Limits} {trace : Bool} {p q : Progress}

/-- A reason to stop that is found within a batch is found before the batch is used up, and is not
that the run looks like a loop. -/
theorem runBatch_eq_some {n : Nat} {stop : Stop}
    (hRun : runBatch limits trace n p = .ok (some stop, q)) :
    q.steps < p.steps + n ∧ ∀ s threshold, stop ≠ .loop s threshold := by
  induction n generalizing p with
  | zero => cases hRun
  | succ n ih =>
    rw [runBatch] at hRun
    split at hRun
    · -- The step limit.
      cases hRun
      exact ⟨by omega, fun _ _ hStop => by cases hStop⟩
    · obtain ⟨⟨outcome, next⟩, -, hRest⟩ := bind_eq_ok_iff.1 hRun
      cases outcome with
      | undefined =>
        obtain ⟨value, -, hDone⟩ := bind_eq_ok_iff.1 hRest
        cases hDone
        exact ⟨by omega, fun _ _ hStop => by cases hStop⟩
      | final => cases hRest
      | ongoing =>
        obtain ⟨hSteps, hStop⟩ := ih hRest
        refine ⟨?_, hStop⟩
        change q.steps < p.steps + 1 + n at hSteps
        omega

/-- A batch whose steps go on, and for which there is room, is used up. -/
theorem runBatch_of_continues (trace : Bool) {n : Nat} (hCell : p.machine.tape.OnCell)
    (hGoes : ∀ i < n, (successor^[i] p.machine).outcome = .ongoing)
    (hAllows : limits.Allows (p.steps + n)) :
    ∃ q, runBatch limits trace n p = .ok (none, q) ∧ q.machine = successor^[n] p.machine ∧
      q.steps = p.steps + n := by
  induction n generalizing p with
  | zero => exact ⟨p, rfl, rfl, rfl⟩
  | succ n ih =>
    have hReached : limits.reached? p.steps = none :=
      Limits.reached?_eq_none_iff.2 (hAllows.mono (by omega))
    have hFirst : p.machine.outcome = .ongoing := hGoes 0 (Nat.succ_pos n)
    have hBehind : runBatch limits trace (n + 1) p =
        runBatch limits trace n (p.next trace p.machine.successor) := by
      rw [runBatch, hReached]
      dsimp only
      rw [advance_eq hCell, hFirst]
      rfl
    have hRest : ∀ i < n, (successor^[i] p.machine.successor).outcome = .ongoing := by
      intro i hi
      rw [← Function.iterate_succ_apply]
      exact hGoes (i + 1) (Nat.succ_lt_succ hi)
    obtain ⟨q, hRun, hMachine, hSteps⟩ := ih (p := p.next trace p.machine.successor)
      (onCell_successor hCell) hRest (hAllows.mono (by change p.steps + 1 + n ≤ _; omega))
    refine ⟨q, hBehind.trans hRun, hMachine, ?_⟩
    rw [hSteps]
    change p.steps + 1 + n = _
    omega

/-- **A batch that is used up** is followed by what its visit counts decide. -/
theorem runBatches_of_continues (trace : Bool) (hCell : p.machine.tape.OnCell)
    (hGoing : p.machine.finished = false) (hContinues : p.machine.Continues limits.batch)
    (hAllows : limits.Allows (p.steps + limits.batch)) :
    ∃ q : Progress, q.machine = successor^[limits.batch] p.machine ∧
      q.steps = p.steps + limits.batch ∧
      ∀ batches, runBatches limits trace (batches + 1) p =
        match limits.suspect? q.machine.visits with
        | some s => .ok (some (.loop s limits.threshold, q))
        | none => runBatches limits trace batches { q with machine := q.machine.forgetVisits } := by
  have hGoes := (continues_iff hCell).1 hContinues
  obtain ⟨q, hRun, hMachine, hSteps⟩ := runBatch_of_continues trace hCell hGoes hAllows
  refine ⟨q, hMachine, hSteps, fun batches => ?_⟩
  have hEnd : q.machine.finished = false := by
    rw [hMachine]
    exact finished_iterate_of_ongoing hGoing hGoes
  rw [runBatches_succ limits trace batches hGoing, hRun, ok_bind, afterBatch, hEnd]
  rfl

/-- **Probable loops** end runs only behind a batch whose steps go on, and for which there was
room. -/
theorem continues_of_loop (hBatch : 1 ≤ limits.batch) (hCell : p.machine.tape.OnCell)
    {batches : Nat} {s : String} {threshold : Int}
    (hRun : runBatches limits trace batches p = .ok (some (.loop s threshold, q))) :
    ∃ rest, batches = rest + 1 ∧ p.machine.finished = false ∧
      p.machine.Continues limits.batch ∧ limits.Allows (p.steps + limits.batch) := by
  cases hGoing : p.machine.finished with
  | true =>
    -- The run would have ended in a final state.
    rw [runBatches_of_finished limits trace batches hGoing] at hRun
    cases hRun
  | false =>
    cases batches with
    | zero =>
      rw [runBatches, hGoing] at hRun
      cases hRun
    | succ rest =>
      obtain ⟨stop?, r, k, hBatchRun, -, hLeads, hExact, -, hUsed⟩ :=
        runBatch_spec limits trace limits.batch hCell hGoing
      rw [runBatches_succ limits trace rest hGoing, hBatchRun, ok_bind] at hRun
      cases stop? with
      | some stop =>
        cases hRun
        exact absurd rfl ((runBatch_eq_some hBatchRun).2 s threshold)
      | none =>
        cases hEnd : r.machine.finished with
        | true =>
          rw [afterBatch, hEnd] at hRun
          change runBatches limits trace rest { r with machine := r.machine.forgetVisits } = _ at hRun
          have hOver : runBatches limits trace rest { r with machine := r.machine.forgetVisits } = _ :=
            runBatches_of_finished limits trace rest hEnd
          rw [hOver] at hRun
          cases hRun
        | false =>
          obtain rfl := hUsed rfl hEnd
          refine ⟨rest, rfl, rfl, hLeads.walk.continues hCell (hExact ▸ hEnd), ?_⟩
          have hLast := hLeads.within (limits.batch - 1) (by omega)
          refine (Limits.reached?_eq_none_iff.1 hLast).mono ?_
          omega

end Machine

end TapeMachine
