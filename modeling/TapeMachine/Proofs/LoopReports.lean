import TapeMachine.Proofs.Batches
import TapeMachine.Proofs.Wordings
import TapeMachine.Report

/-!
# Reports of Probable Loops

Looking for a state that is entered too often does two things for a run in batches. It ends every
run whose batches are long enough for the states of the machine, and what it reports is true of the
states entered in the last batch.

* `Machine.openTargets` are the states that a batch can enter without coming to an end;
* `Machine.drive_ends_within_batch`: with more steps in a batch than these states may have entries,
  a run ends with its first batch;
* `Machine.LoopsAt` says that a batch is the first in which a state is entered too often;
* `Machine.loop_report_exact`: exactly then a run is reported as a probable loop.
-/

namespace TapeMachine

/-! ## §1 The Report on a Probable Loop -/

/-- With this stop, a report gets a diagnostic with this code. -/
def Stop.Reports (stop : Stop) (code message : String) : Prop :=
  ∃ item : Item, item.code = code ∧ item.message = message ∧
    ∀ r : Report, (r.addStop stop).items = r.items ++ [item]

/-- What is said of a state that was entered more often than a threshold. -/
def loopMessage (state : String) (threshold : Int) : String :=
  "state '" ++ state ++ "' was visited more than " ++ toString threshold ++
    " times, probable infinite loop"

/-- A probable loop is reported with its state and the threshold. -/
theorem reports_loop (state : String) (threshold : Int) :
    (Stop.loop state threshold).Reports "RW0001" (loopMessage state threshold) := by
  refine ⟨{ severity := .warning, code := "RW0001", message := loopMessage state threshold },
    rfl, rfl, fun r => ?_⟩
  have hWording : Catalog.wording "RW0001" [("state", state), ("threshold", toString threshold)] =
      loopMessage state threshold :=
    Catalog.wording_eq rfl rfl
  simp only [Report.addStop, Report.add, hWording]

/-- Nothing else is reported with this code. -/
theorem exists_loop_of_reports {stop : Stop} {message : String}
    (hReports : stop.Reports "RW0001" message) : ∃ state threshold, stop = .loop state threshold := by
  obtain ⟨item, hCode, -, hItems⟩ := hReports
  have hAdded := hItems ⟨[], "", []⟩
  cases stop with
  | loop state threshold => exact ⟨state, threshold, rfl⟩
  | undefined state value =>
    obtain rfl : _ = item := (List.cons.inj hAdded).1
    have hOther : "RE0001" = "RW0001" := hCode
    exact absurd hOther (by decide)
  | final => cases hAdded
  | exhausted most => cases hAdded

namespace Machine

variable {m : Machine} {limits : Limits} {trace : Bool}

/-! ## §2 Long Batches -/

/-- The states that are not final and that some rule leads to. -/
def openTargets (m : Machine) : Finset String :=
  (m.table.rules.map Rule.next).toFinset.filter fun s => s ∉ m.finals

/-- A step outside final states that goes on enters one of the open targets: its rule is a written
one. -/
theorem state_successor_mem_openTargets (hGoing : m.finished = false) (hGoes : m.outcome = .ongoing) :
    m.successor.state ∈ m.openTargets := by
  have hOpen : m.successor.finished = false := finished_successor_of_ongoing hGoes
  have hDefined : m.ruleInForce ≠ none := by
    rw [Ne, ← outcome_eq_undefined_iff, hGoes]
    exact fun hUndefined => (nomatch hUndefined)
  obtain ⟨r, hRule⟩ := Option.ne_none_iff_exists'.1 hDefined
  have hWritten : m.table.get? (m.state, m.tape.view 0) = some r := by
    rw [ruleInForce, hGoing] at hRule
    simpa using hRule
  have hState : m.successor.state = r.next := by
    rw [successor_of_rule hRule]
    rfl
  rw [openTargets, Finset.mem_filter, List.mem_toFinset]
  refine ⟨?_, ?_⟩
  · rw [hState]
    exact List.mem_map_of_mem (Table.mem_of_get? hWritten)
  · rw [← finals_successor]
    simpa [finished] using hOpen

/-- Steps that go on enter open targets only. -/
theorem mem_openTargets_of_mem_entries (hCell : m.tape.OnCell) (hGoing : m.finished = false) {n : Nat}
    (hContinues : m.Continues n) : ∀ s ∈ m.entries 0 n, s ∈ m.openTargets := by
  have hGoes := (continues_iff hCell).1 hContinues
  intro s hs
  rw [entries_eq hCell] at hs
  obtain ⟨i, hi, rfl⟩ := List.mem_map.1 hs
  have hi := List.mem_range.1 hi
  -- The step starts from a machine with the same rules and final states.
  have hSame : (successor^[i] m).openTargets = m.openTargets := by
    unfold openTargets
    rw [table_iterate, finals_iterate]
  rw [Nat.zero_add, Function.iterate_succ_apply', ← hSame]
  exact state_successor_mem_openTargets
    (finished_iterate_of_ongoing hGoing fun j hj => hGoes j (Nat.lt_trans hj hi)) (hGoes i hi)

/-- Behind a batch that is too long for the open targets, one of them is suspected. -/
theorem exists_suspect_of_long (hCell : m.tape.OnCell) (hGoing : m.finished = false)
    (hThreshold : 0 ≤ limits.threshold)
    (hBatch : limits.threshold * m.openTargets.card < limits.batch)
    (hContinues : m.Continues limits.batch) :
    ∃ t, limits.suspect? (successor^[limits.batch] m).visits = some t := by
  obtain ⟨most, hMost⟩ := Int.eq_ofNat_of_zero_le hThreshold
  have hMany : most * m.openTargets.card < (m.entries 0 limits.batch).length := by
    rw [entries_eq hCell, List.length_map, List.length_range]
    rw [hMost] at hBatch
    exact_mod_cast hBatch
  -- There are too many entries for the states that they can be of.
  obtain ⟨s, -, hCount⟩ := exists_count_gt (mem_openTargets_of_mem_entries hCell hGoing hContinues)
    hMany
  have hGoes := (continues_iff hCell).1 hContinues
  refine Limits.exists_suspect (s := s) hThreshold ?_
  rw [visits_iterate hCell fun i hi => by simp [hGoes i hi], Visits.count_enterAll, hMost]
  exact_mod_cast Nat.lt_of_lt_of_le hCount (Nat.le_add_left _ _)

/-- **Long batches**: if a batch has more steps than the threshold allows entries for the states
that are not final and that rules lead to, every run ends with its first batch at the latest,
whatever the step limit is and whatever was counted before. If it ends as a probable loop, the
batch was used up. -/
theorem drive_ends_within_batch (hHead : m.tape.head < m.tape.cells.length)
    (hThreshold : 0 ≤ limits.threshold)
    (hBatch : limits.threshold * m.openTargets.card < limits.batch) (trace : Bool) :
    ∃ stop p, (∀ batches ≥ 1, m.drive batches limits trace = .ok (some (stop, p))) ∧
      p.steps ≤ limits.batch ∧ stop.Justified limits p ∧
      ∀ state threshold, stop = .loop state threshold →
        p.steps = limits.batch ∧ stop.Reports "RW0001" (loopMessage state limits.threshold) := by
  have hCell : (Progress.start m).machine.tape.OnCell := hHead
  cases hGoing : m.finished with
  | true =>
    -- The run is over before it has begun.
    refine ⟨.final, .start m, fun batches _ => runBatches_of_finished limits trace batches hGoing,
      Nat.zero_le _, hGoing, fun _ _ hStop => (nomatch hStop)⟩
  | false =>
    obtain ⟨stop?, q, k, hRun, hLe, hLeads, hExact, hStop, hUsed⟩ :=
      runBatch_spec limits trace limits.batch hCell hGoing
    have hSteps : q.steps = k := by
      rw [hLeads.steps]
      exact Nat.zero_add k
    have hDrive : ∀ rest, m.drive (rest + 1) limits trace = afterBatch limits trace rest (stop?, q) := by
      intro rest
      rw [drive, runBatches_succ limits trace rest hGoing, hRun, ok_bind]
    cases stop? with
    | some stop =>
      refine ⟨stop, q, fun batches hPositive => ?_, hSteps ▸ hLe, hStop stop rfl, ?_⟩
      · obtain ⟨rest, rfl⟩ := Nat.exists_eq_add_of_le' hPositive
        exact hDrive rest
      · intro state threshold hLoop
        exact absurd hLoop ((runBatch_eq_some hRun).2 state threshold)
    | none =>
      cases hEnd : q.machine.finished with
      | true =>
        -- A final state was reached.
        refine ⟨.final, { q with machine := q.machine.forgetVisits }, fun batches hPositive => ?_,
          hSteps ▸ hLe, hEnd, fun _ _ hLoop => (nomatch hLoop)⟩
        obtain ⟨rest, rfl⟩ := Nat.exists_eq_add_of_le' hPositive
        rw [hDrive, afterBatch, hEnd]
        exact runBatches_of_finished limits trace rest hEnd
      | false =>
        -- The batch is used up, and some state was entered too often.
        obtain rfl := hUsed rfl hEnd
        obtain ⟨t, hSuspect⟩ := exists_suspect_of_long hHead hGoing hThreshold hBatch
          (hLeads.walk.continues hCell (hExact ▸ hEnd))
        rw [show successor^[limits.batch] m = q.machine from hExact.symm] at hSuspect
        refine ⟨.loop t limits.threshold, q, fun batches hPositive => ?_, hSteps ▸ hLe,
          ⟨hEnd, hSuspect, rfl⟩, ?_⟩
        · obtain ⟨rest, rfl⟩ := Nat.exists_eq_add_of_le' hPositive
          rw [hDrive, afterBatch, hEnd, if_neg Bool.false_ne_true, hSuspect]
        · intro state threshold hLoop
          cases hLoop
          exact ⟨hSteps, reports_loop t limits.threshold⟩

/-- A machine that never halts, with one state that its steps can enter, is stopped after a batch
of three steps when two entries are allowed. -/
theorem drive_ends_within_batch_of_endless :
    let m : Machine :=
      { table := .ofList [⟨"a", false, false, .right, "a"⟩, ⟨"a", true, true, .right, "f"⟩]
        finals := ["f"], state := "a", tape := ⟨[false], 0⟩ }
    m.tape.head < m.tape.cells.length ∧ m.openTargets.card = 1 ∧
      ∃ stop p, m.drive 1 ⟨2, 3, none⟩ false = .ok (some (stop, p)) ∧ p.steps ≤ 3 := by
  intro m
  have hHead : m.tape.head < m.tape.cells.length := by decide
  have hTargets : m.openTargets.card = 1 := by decide
  obtain ⟨stop, p, hDrive, hSteps, -⟩ := @drive_ends_within_batch m ⟨2, 3, none⟩ hHead
    (by decide) (by rw [hTargets]; decide) false
  exact ⟨hHead, hTargets, stop, p, hDrive 1 (Nat.le_refl 1), hSteps⟩

/-! ## §3 Exact Reports -/

/-- The states entered in the batch with a number, counted from 1. -/
def enteredIn (m : Machine) (batch k : Nat) : List String := m.entries ((k - 1) * batch) batch

/-- The batch with a number is the first in which a state is entered more often than the threshold.
All steps up to its end go on, and the step limit leaves room for them. -/
structure LoopsAt (m : Machine) (limits : Limits) (k : Nat) : Prop where
  positive : 1 ≤ k
  continues : m.Continues (k * limits.batch)
  allowed : limits.Allows (k * limits.batch)
  tooOften : ∃ s, limits.threshold < (m.enteredIn limits.batch k).count s
  quiet : ∀ j, 1 ≤ j → j < k → ∀ s, ((m.enteredIn limits.batch j).count s : Int) ≤ limits.threshold

/-- A run stands at the end of a batch, with nothing counted yet for the next. -/
structure AtBatch (m : Machine) (limits : Limits) (k : Nat) (p : Progress) : Prop where
  machine : p.machine.Alike (successor^[k * limits.batch] m)
  visits : p.machine.visits = .empty
  steps : p.steps = k * limits.batch

namespace AtBatch

variable {k : Nat} {p : Progress}

theorem start (hVisits : m.visits = .empty) : AtBatch m limits 0 (.start m) := by
  refine ⟨?_, hVisits, ?_⟩
  · rw [Nat.zero_mul]
    exact Alike.refl m
  · rw [Nat.zero_mul]
    rfl

theorem onCell (hCell : m.tape.OnCell) (hAt : AtBatch m limits k p) : p.machine.tape.OnCell :=
  hAt.machine.tape ▸ onCell_iterate hCell _

/-- The steps of the next batch go on if all steps up to its end do. -/
theorem continues_of_succ (hCell : m.tape.OnCell) (hAt : AtBatch m limits k p)
    (hContinues : m.Continues ((k + 1) * limits.batch)) : p.machine.Continues limits.batch := by
  have hGoes := (continues_iff hCell).1 hContinues
  refine (continues_iff (hAt.onCell hCell)).2 fun i hi => ?_
  rw [(hAt.machine.iterate i).outcome, ← Function.iterate_add_apply]
  refine hGoes _ ?_
  rw [Nat.add_mul, Nat.one_mul]
  omega

/-- All steps up to the end of the next batch go on if those up to its beginning and its own do. -/
theorem continues_succ (hCell : m.tape.OnCell) (hAt : AtBatch m limits k p)
    (hBefore : m.Continues (k * limits.batch)) (hNext : p.machine.Continues limits.batch) :
    m.Continues ((k + 1) * limits.batch) := by
  have hBefore := (continues_iff hCell).1 hBefore
  have hNext := (continues_iff (hAt.onCell hCell)).1 hNext
  refine (continues_iff hCell).2 fun i hi => ?_
  rw [Nat.add_mul, Nat.one_mul] at hi
  rcases Nat.lt_or_ge i (k * limits.batch) with hLt | hGe
  · exact hBefore i hLt
  · obtain ⟨j, rfl⟩ := Nat.exists_eq_add_of_le' hGe
    rw [Function.iterate_add_apply, ← (hAt.machine.iterate j).outcome]
    exact hNext j (by omega)

/-- The next batch is used up, and its entries decide whether the run goes on. -/
theorem runBatches_succ (trace : Bool) (hCell : m.tape.OnCell) (hAt : AtBatch m limits k p)
    (hGoing : p.machine.finished = false) (hContinues : p.machine.Continues limits.batch)
    (hAllows : limits.Allows ((k + 1) * limits.batch)) :
    ∃ q : Progress, q.steps = (k + 1) * limits.batch ∧
      AtBatch m limits (k + 1) { q with machine := q.machine.forgetVisits } ∧
      ∀ batches, runBatches limits trace (batches + 1) p =
        match limits.suspect? (Visits.empty.enterAll (m.enteredIn limits.batch (k + 1))) with
        | some s => .ok (some (.loop s limits.threshold, q))
        | none => runBatches limits trace batches { q with machine := q.machine.forgetVisits } := by
  have hSteps : p.steps + limits.batch = (k + 1) * limits.batch := by
    rw [hAt.steps, Nat.add_mul, Nat.one_mul]
  obtain ⟨q, hMachine, hEnd, hRun⟩ := runBatches_of_continues trace (hAt.onCell hCell) hGoing
    hContinues (hSteps ▸ hAllows)
  have hVisits : q.machine.visits = Visits.empty.enterAll (m.enteredIn limits.batch (k + 1)) := by
    have hGoes := (continues_iff (hAt.onCell hCell)).1 hContinues
    rw [hMachine, visits_iterate (hAt.onCell hCell) fun i hi => by simp [hGoes i hi], hAt.visits,
      entries_of_alike hCell hAt.machine]
    rfl
  refine ⟨q, hEnd.trans hSteps, ⟨?_, rfl, hEnd.trans hSteps⟩, ?_⟩
  · have hLater := hAt.machine.iterate limits.batch
    rw [← Function.iterate_add_apply] at hLater
    rw [Nat.add_mul, Nat.one_mul, Nat.add_comm]
    exact (show q.machine.forgetVisits.Alike _ by rw [hMachine]; exact Alike.refl _).trans hLater
  · rw [← hVisits]
    exact hRun

end AtBatch

/-- Batches in which no state is entered too often are used up one after the other. -/
theorem exists_atBatch (trace : Bool) (hCell : m.tape.OnCell) (hGoing : m.finished = false)
    (hVisits : m.visits = .empty) (hThreshold : 0 ≤ limits.threshold) {k : Nat}
    (hContinues : m.Continues (k * limits.batch)) (hAllows : limits.Allows (k * limits.batch))
    (hQuiet : ∀ j, 1 ≤ j → j ≤ k →
      ∀ s, ((m.enteredIn limits.batch j).count s : Int) ≤ limits.threshold) :
    ∃ p, AtBatch m limits k p ∧ p.machine.finished = false ∧
      ∀ batches, m.drive (batches + k) limits trace = runBatches limits trace batches p := by
  induction k with
  | zero => exact ⟨.start m, .start hVisits, hGoing, fun _ => rfl⟩
  | succ k ih =>
    have hShorter : k * limits.batch ≤ (k + 1) * limits.batch := Nat.mul_le_mul_right _ (Nat.le_succ k)
    obtain ⟨p, hAt, hOpen, hDrive⟩ := ih (fun i hi => hContinues i (Nat.lt_of_lt_of_le hi hShorter))
      (hAllows.mono hShorter) fun j hj hLe => hQuiet j hj (Nat.le_succ_of_le hLe)
    obtain ⟨q, -, hNext, hRun⟩ := hAt.runBatches_succ trace hCell hOpen
      (hAt.continues_of_succ hCell hContinues) hAllows
    refine ⟨_, hNext, ?_, fun batches => ?_⟩
    · rw [hNext.machine.finished]
      exact finished_iterate_of_ongoing hGoing ((continues_iff hCell).1 hContinues)
    · have hNone := (Limits.suspect?_enterAll_eq_none_iff hThreshold).2
        (hQuiet (k + 1) (Nat.succ_pos k) (Nat.le_refl _))
      rw [Nat.add_comm k 1, ← Nat.add_assoc, hDrive, hRun, hNone]

/-- A batch that is the first with a state entered too often ends the run as a probable loop. -/
theorem LoopsAt.drive_eq (trace : Bool) (hCell : m.tape.OnCell) (hGoing : m.finished = false)
    (hVisits : m.visits = .empty) (hThreshold : 0 ≤ limits.threshold) {k : Nat}
    (hLoops : m.LoopsAt limits k) :
    ∃ s p, (∀ batches ≥ k, m.drive batches limits trace = .ok (some (.loop s limits.threshold, p))) ∧
      p.steps = k * limits.batch ∧ limits.threshold < (m.enteredIn limits.batch k).count s ∧
      Visits.Busiest (m.enteredIn limits.batch k) s := by
  obtain ⟨k, rfl⟩ := Nat.exists_eq_add_of_le' hLoops.positive
  have hShorter : k * limits.batch ≤ (k + 1) * limits.batch := Nat.mul_le_mul_right _ (Nat.le_succ k)
  obtain ⟨p, hAt, hOpen, hDrive⟩ := exists_atBatch trace hCell hGoing hVisits hThreshold
    (fun i hi => hLoops.continues i (Nat.lt_of_lt_of_le hi hShorter)) (hLoops.allowed.mono hShorter)
    fun j hj hLe => hLoops.quiet j hj (Nat.lt_succ_of_le hLe)
  obtain ⟨q, hSteps, -, hRun⟩ := hAt.runBatches_succ trace hCell hOpen
    (hAt.continues_of_succ hCell hLoops.continues) hLoops.allowed
  -- The entries of this batch make some state suspected.
  cases hSuspect : limits.suspect? (Visits.empty.enterAll (m.enteredIn limits.batch (k + 1))) with
  | none =>
    obtain ⟨s, hMany⟩ := hLoops.tooOften
    have hFew := (Limits.suspect?_enterAll_eq_none_iff hThreshold).1 hSuspect s
    omega
  | some s =>
    obtain ⟨hMany, hBusiest⟩ := Limits.busiest_of_suspect? hSuspect
    refine ⟨s, q, fun batches hEnough => ?_, hSteps, hMany, hBusiest⟩
    obtain ⟨rest, rfl⟩ := Nat.exists_eq_add_of_le' hEnough
    have hSplit : rest + (k + 1) = rest + 1 + k := by omega
    rw [hSplit, hDrive, hRun, hSuspect]

/-- A run that ends as a probable loop, from the end of a quiet batch on, has come to a batch that
is the first with a state entered too often. -/
theorem exists_loopsAt (hCell : m.tape.OnCell) (hBatch : 1 ≤ limits.batch)
    (hThreshold : 0 ≤ limits.threshold) {batches k : Nat} {p q : Progress} {s : String}
    {threshold : Int} (hAt : AtBatch m limits k p) (hBefore : m.Continues (k * limits.batch))
    (hQuiet : ∀ j, 1 ≤ j → j ≤ k →
      ∀ s, ((m.enteredIn limits.batch j).count s : Int) ≤ limits.threshold)
    (hRun : runBatches limits trace batches p = .ok (some (.loop s threshold, q))) :
    ∃ j, m.LoopsAt limits j := by
  induction batches generalizing k p with
  | zero =>
    obtain ⟨rest, hRest, -⟩ := continues_of_loop hBatch (hAt.onCell hCell) hRun
    cases hRest
  | succ batches ih =>
    obtain ⟨rest, -, hOpen, hContinues, hAllows⟩ := continues_of_loop hBatch (hAt.onCell hCell) hRun
    rw [hAt.steps, ← Nat.succ_mul] at hAllows
    have hUpTo := hAt.continues_succ hCell hBefore hContinues
    obtain ⟨r, -, hNext, hStep⟩ := hAt.runBatches_succ trace hCell hOpen hContinues hAllows
    cases hSuspect : limits.suspect? (Visits.empty.enterAll (m.enteredIn limits.batch (k + 1))) with
    | some t =>
      -- It is the batch that begins here.
      refine ⟨k + 1, Nat.succ_pos k, hUpTo, hAllows, ⟨t, (Limits.busiest_of_suspect? hSuspect).1⟩, ?_⟩
      exact fun j hj hLt => hQuiet j hj (Nat.le_of_lt_succ hLt)
    | none =>
      rw [hStep, hSuspect] at hRun
      refine ih hNext hUpTo (fun j hj hLe => ?_) hRun
      rcases Nat.lt_or_ge j (k + 1) with hLt | hGe
      · exact hQuiet j hj (Nat.le_of_lt_succ hLt)
      · obtain rfl : j = k + 1 := by omega
        exact (Limits.suspect?_enterAll_eq_none_iff hThreshold).1 hSuspect

/-- **Exact reports**: a run from a state that is not final, with nothing counted, is reported as a
probable loop exactly if some batch is the first in which a state is entered more often than the
threshold. The run then ends with that batch, and the reported state is the one entered most often
in it, the earliest of those that tie. A threshold that no batch can exceed reports nothing. -/
theorem loop_report_exact (hHead : m.tape.head < m.tape.cells.length) (hStart : m.state ∉ m.finals)
    (hVisits : m.visits = .empty) (hBatch : 1 ≤ limits.batch) (hThreshold : 0 ≤ limits.threshold)
    (trace : Bool) :
    ((∃ batches stop p message, m.drive batches limits trace = .ok (some (stop, p)) ∧
        stop.Reports "RW0001" message) ↔ ∃ k, m.LoopsAt limits k) ∧
    (∀ k, m.LoopsAt limits k → ∃ s p,
      (∀ batches ≥ k, m.drive batches limits trace = .ok (some (.loop s limits.threshold, p))) ∧
      p.steps = k * limits.batch ∧
      (Stop.loop s limits.threshold).Reports "RW0001" (loopMessage s limits.threshold) ∧
      limits.threshold < (m.enteredIn limits.batch k).count s ∧
      (∀ t, (m.enteredIn limits.batch k).count t ≤ (m.enteredIn limits.batch k).count s) ∧
      ∀ t, (m.enteredIn limits.batch k).count t = (m.enteredIn limits.batch k).count s →
        (m.enteredIn limits.batch k).idxOf s ≤ (m.enteredIn limits.batch k).idxOf t) ∧
    ((limits.batch : Int) ≤ limits.threshold → ∀ batches stop p message,
      m.drive batches limits trace = .ok (some (stop, p)) → ¬ stop.Reports "RW0001" message) := by
  have hGoing : m.finished = false := by simpa [finished] using hStart
  have hNone : m.Continues (0 * limits.batch) := by
    intro i hi
    rw [Nat.zero_mul] at hi
    exact absurd hi (Nat.not_lt_zero i)
  have hFound : ∀ batches stop p message, m.drive batches limits trace = .ok (some (stop, p)) →
      stop.Reports "RW0001" message → ∃ k, m.LoopsAt limits k := by
    intro batches stop p message hDrive hReports
    obtain ⟨s, threshold, rfl⟩ := exists_loop_of_reports hReports
    exact exists_loopsAt hHead hBatch hThreshold (.start hVisits) hNone
      (fun j hj hLe => absurd (Nat.le_trans hj hLe) (by decide)) hDrive
  refine ⟨⟨?_, ?_⟩, ?_, ?_⟩
  · intro hReported
    rcases hReported with ⟨batches, stop, p, message, hDrive, hReports⟩
    exact hFound batches stop p message hDrive hReports
  · intro hLoops
    rcases hLoops with ⟨k, hLoops⟩
    obtain ⟨s, p, hDrive, -⟩ := hLoops.drive_eq trace hHead hGoing hVisits hThreshold
    exact ⟨k, _, p, _, hDrive k (Nat.le_refl k), reports_loop s limits.threshold⟩
  · intro k hLoops
    obtain ⟨s, p, hDrive, hSteps, hMany, hBusiest⟩ :=
      hLoops.drive_eq trace hHead hGoing hVisits hThreshold
    exact ⟨s, p, hDrive, hSteps, reports_loop s limits.threshold, hMany, hBusiest.most,
      hBusiest.earliest⟩
  · -- A batch has no more entries than steps.
    intro hLarge batches stop p message hDrive hReports
    obtain ⟨k, hLoops⟩ := hFound batches stop p message hDrive hReports
    obtain ⟨s, hMany⟩ := hLoops.tooOften
    have hLength : (m.enteredIn limits.batch k).length = limits.batch := by
      rw [enteredIn, entries_eq hHead, List.length_map, List.length_range]
    have hCount := List.count_le_length (a := s) (l := m.enteredIn limits.batch k)
    omega

/-- The exact report where no state is entered twice in the first batch of two steps, and one is in
the second. -/
theorem loop_report_exact_in_second_batch :
    let m : Machine :=
      { table := .ofList [⟨"a", false, true, .right, "b"⟩, ⟨"b", false, true, .right, "c"⟩,
          ⟨"c", false, true, .right, "c"⟩]
        finals := ["f"], state := "a", tape := ⟨[false], 0⟩ }
    m.tape.head < m.tape.cells.length ∧ m.state ∉ m.finals ∧ m.LoopsAt ⟨1, 2, some 4⟩ 2 ∧
      ∃ p, m.drive 2 ⟨1, 2, some 4⟩ true = .ok (some (.loop "c" 1, p)) ∧ p.steps = 4 := by
  intro m
  have hHead : m.tape.head < m.tape.cells.length := by decide
  have hStart : m.state ∉ m.finals := by decide
  have hFirst : m.enteredIn 2 1 = ["b", "c"] := by cbv
  have hSecond : m.enteredIn 2 2 = ["c", "c"] := by cbv
  have hGoes : ∀ i < 4, (successor^[i] m).outcome = .ongoing := by decide
  have hLoops : m.LoopsAt ⟨1, 2, some 4⟩ 2 := by
    refine ⟨by decide, (continues_iff hHead).2 hGoes, ?_, ⟨"c", ?_⟩, fun j hj hLt s => ?_⟩
    · rintro most ⟨⟩
      decide
    · rw [hSecond]
      decide
    · obtain rfl : j = 1 := by omega
      rw [hFirst]
      exact Int.ofNat_le.2 (List.nodup_iff_count_le_one.1 (by decide) s)
  obtain ⟨-, hEnds, -⟩ := @loop_report_exact m ⟨1, 2, some 4⟩ hHead hStart rfl (by decide)
    (by decide) true
  obtain ⟨s, p, hDrive, hSteps, -, hMany, -⟩ := hEnds 2 hLoops
  -- Only one state is entered in the second batch.
  rw [hSecond] at hMany
  obtain rfl : s = "c" := by
    by_contra hOther
    have hCount : ["c", "c"].count s = 0 := List.count_eq_zero_of_not_mem (by simp [hOther])
    rw [hCount] at hMany
    exact absurd hMany (by decide)
  exact ⟨hHead, hStart, hLoops, p, hDrive 2 (Nat.le_refl 2), hSteps⟩

end Machine

end TapeMachine
