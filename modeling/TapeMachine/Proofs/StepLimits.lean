import TapeMachine.Command.Session
import TapeMachine.Proofs.BatchedRuns
import TapeMachine.Proofs.LoopReports

/-!
# Runs with a Step Limit

A run with a step limit always ends, and it ends for exactly one reason: it has halted, no rule
applies, it looks like a loop, or the limit is reached. Several of these may fall on the same
step; what is reported and printed still tells them apart.

* `Machine.exists_runBatches_of_maxSteps`: as many batches as there are steps left, and one more, are
  enough for an answer, and `Machine.runBatches_mono`: further batches do not change it;
* `Machine.runBatches_unshown`: showing the steps changes nothing but what is shown;
* `Ending` lists the reasons, and `Ending.Holds` says what is true of a run for each of them;
* `Machine.drive_ends_for_one_reason`: every such run ends, and exactly one of the reasons holds.
-/

namespace TapeMachine

open Machine (successor)

/-! ## §1 Answers -/

namespace Machine

variable {limits : Limits} {trace : Bool}

/-- An answer stays the same when more batches are allowed. -/
theorem runBatches_mono {batches more : Nat} {p : Progress} {answer : Stop × Progress}
    (hRun : runBatches limits trace batches p = .ok (some answer)) (hLe : batches ≤ more) :
    runBatches limits trace more p = .ok (some answer) := by
  induction batches generalizing more p with
  | zero =>
    cases hFinished : p.machine.finished with
    | true =>
      rw [runBatches_of_finished limits trace _ hFinished] at hRun ⊢
      exact hRun
    | false =>
      rw [runBatches, hFinished] at hRun
      cases hRun
  | succ batches ih =>
    obtain ⟨more, rfl⟩ : ∃ rest, more = rest + 1 := Nat.exists_eq_add_of_le' (by omega)
    cases hFinished : p.machine.finished with
    | true =>
      rw [runBatches_of_finished limits trace _ hFinished] at hRun ⊢
      exact hRun
    | false =>
      rw [runBatches_succ limits trace _ hFinished] at hRun ⊢
      obtain ⟨⟨stop?, q⟩, hBatch, hAfter⟩ := bind_eq_ok_iff.1 hRun
      rw [hBatch, ok_bind]
      cases stop? with
      | some stop => exact hAfter
      | none =>
        -- What follows the batch is the answer itself, or a run with one batch less on both sides.
        rw [afterBatch] at hAfter ⊢
        split at hAfter
        · exact hAfter
        · exact ih hAfter (Nat.le_of_succ_le_succ hLe)

/-- Every batch that does not end the run makes a step, and the step limit leaves room for so many. -/
theorem exists_runBatches_of_maxSteps {most : Nat} (hBatch : 1 ≤ limits.batch)
    (hMost : limits.maxSteps = some (most : Int)) (trace : Bool) {batches : Nat} {p : Progress}
    (hCell : p.machine.tape.OnCell) (hEnough : most - p.steps < batches) :
    ∃ answer, runBatches limits trace batches p = .ok (some answer) := by
  -- By induction on the batches; the steps that are left go down with each of them.
  induction batches generalizing p with
  | zero => exact absurd hEnough (Nat.not_lt_zero _)
  | succ batches ih =>
    cases hFinished : p.machine.finished with
    | true => exact ⟨_, runBatches_of_finished limits trace _ hFinished⟩
    | false =>
      obtain ⟨stop?, q, k, hRun, -, hLeads, hExact, -, hUsed⟩ :=
        runBatch_spec limits trace limits.batch hCell hFinished
      rw [runBatches_succ limits trace batches hFinished, hRun, ok_bind]
      cases stop? with
      | some stop => exact ⟨_, rfl⟩
      | none =>
        rw [afterBatch]
        cases hSuspect : if q.machine.finished then none else limits.suspect? q.machine.visits with
        | some state => exact ⟨_, rfl⟩
        | none =>
          cases hEnd : q.machine.finished with
          | true => exact ⟨_, runBatches_of_finished limits trace _ hEnd⟩
          | false =>
            -- The batch is used up, so its first step was within the limit.
            obtain rfl : k = limits.batch := hUsed rfl hEnd
            have hRoom := Limits.reached?_eq_none_iff.1 (hLeads.within 0 (by omega)) most hMost
            refine ih (p := { q with machine := q.machine.forgetVisits }) ?_ ?_
            · change q.machine.tape.OnCell
              rw [hExact]
              exact onCell_iterate hCell _
            · change most - q.steps < batches
              rw [hLeads.steps]
              omega

end Machine

/-! ## §2 Shown Steps -/

/-- What is printed while a machine runs, apart from the line at the step limit. -/
def Progress.shownText (p : Progress) : String :=
  String.join (p.shown.toList.map fun display => display ++ "\n")

/-- A point of a run without the displays on the way to it. -/
def Progress.unshown (p : Progress) : Progress := { p with shown := #[] }

namespace Machine

variable (limits : Limits) (trace : Bool)

/-- Within a batch, showing the steps changes only what is shown. -/
theorem runBatch_unshown (n : Nat) (p : Progress) :
    (runBatch limits trace n p).map (Prod.map id Progress.unshown) =
      runBatch limits false n p.unshown := by
  induction n generalizing p with
  | zero => rfl
  | succ n ih =>
    have hSteps : p.unshown.steps = p.steps := rfl
    have hMachine : p.unshown.machine = p.machine := rfl
    rw [runBatch, runBatch, hSteps, hMachine]
    cases limits.reached? p.steps with
    | some most => rfl
    | none =>
      dsimp only
      cases p.machine.advance with
      | error fault => rfl
      | ok step =>
        obtain ⟨outcome, next⟩ := step
        simp only [ok_bind]
        cases outcome with
        | undefined => cases p.machine.tape.read <;> rfl
        | final => rfl
        | ongoing => exact ih (p.next trace next)

/-- **Showing the steps** of a run changes only what is shown. -/
theorem runBatches_unshown (batches : Nat) (p : Progress) :
    (runBatches limits trace batches p).map (Option.map (Prod.map id Progress.unshown)) =
      runBatches limits false batches p.unshown := by
  induction batches generalizing p with
  | zero =>
    have hMachine : p.unshown.machine = p.machine := rfl
    rw [runBatches, runBatches, hMachine]
    cases p.machine.finished <;> rfl
  | succ batches ih =>
    cases hFinished : p.machine.finished with
    | true =>
      have hFinished' : p.unshown.machine.finished = true := hFinished
      rw [runBatches_of_finished _ _ _ hFinished, runBatches_of_finished _ _ _ hFinished']
      rfl
    | false =>
      have hFinished' : p.unshown.machine.finished = false := hFinished
      rw [runBatches_succ _ _ _ hFinished, runBatches_succ _ _ _ hFinished', ← runBatch_unshown]
      cases runBatch limits trace limits.batch p with
      | error fault => rfl
      | ok result =>
        obtain ⟨stop?, q⟩ := result
        cases stop? with
        | some stop => rfl
        | none =>
          -- What follows the batch depends on the machine alone.
          change (afterBatch limits trace batches (none, q)).map _ =
            afterBatch limits false batches (none, q.unshown)
          have hMachine : q.unshown.machine = q.machine := rfl
          rw [afterBatch, afterBatch, hMachine]
          cases if q.machine.finished then none else limits.suspect? q.machine.visits with
          | some state => rfl
          | none => exact ih { q with machine := q.machine.forgetVisits }

variable {limits trace}

/-- Whether a run shows its steps or not, it ends for the same reason at the same point. -/
theorem exists_drive_of_trace {m : Machine} {batches : Nat} {stop : Stop} {p : Progress}
    (hDrive : m.drive batches limits trace = .ok (some (stop, p))) (trace' : Bool) :
    ∃ q, m.drive batches limits trace' = .ok (some (stop, q)) ∧
      q.machine = p.machine ∧ q.steps = p.steps := by
  -- Both runs come to what the run that shows nothing comes to.
  have hSame := runBatches_unshown limits trace batches (.start m)
  have hOther := runBatches_unshown limits trace' batches (.start m)
  rw [← hSame] at hOther
  unfold drive at hDrive
  rw [hDrive] at hOther
  obtain ⟨answer?, hAnswer, hUnshown⟩ := map_eq_ok_iff.1 hOther
  cases answer? with
  | none => cases hUnshown
  | some answer =>
    obtain ⟨stop', q⟩ := answer
    obtain ⟨rfl, hSamePoint⟩ := Prod.mk.inj (Option.some.inj hUnshown)
    exact ⟨q, hAnswer, (Progress.mk.inj hSamePoint).1, (Progress.mk.inj hSamePoint).2.1⟩

/-- The displays of a machine after each of its first steps, each with a line end. -/
def traceText (m : Machine) (n : Nat) : String :=
  String.join ((List.range n).filterMap fun i =>
    (m.afterCalls (i + 1)).toOption.map fun reached => reached.display ++ "\n")

/-- What a run has shown, if its steps are shown, are the displays after its steps. -/
theorem shownText_eq {m : Machine} (hCell : m.tape.OnCell) {p : Progress}
    (hLeads : (Progress.start m).Leads limits trace p.steps p) :
    p.shownText = if trace then m.traceText p.steps else "" := by
  rw [Progress.shownText, hLeads.shown]
  cases trace with
  | false => rfl
  | true =>
    unfold traceText
    simp only [afterCalls_eq hCell]
    simp [Progress.start, Except.toOption, Function.comp_def]

end Machine

/-- A display consists of digits and marks. -/
theorem Tape.mem_display {t : Tape} {c : Char} (hMem : c ∈ t.display.toList) :
    c ∈ ['0', '1', '^', ' ', '\n'] := by
  unfold Tape.display at hMem
  simp only [String.toList_append, String.toList_join, List.mem_append, List.mem_flatMap,
    List.mem_map] at hMem
  rcases hMem with (⟨_, ⟨value, -, rfl⟩, hCell⟩ | hEnd) | ⟨_, ⟨i, -, rfl⟩, hMark⟩
  · cases value <;> simp [bitText] at hCell ⊢ <;> tauto
  · simp at hEnd ⊢; tauto
  · split at hMark <;> simp at hMark ⊢ <;> tauto

/-! ## §3 Reasons -/

namespace Stop

/-- With this stop, a report stays as it is. -/
def Silent (stop : Stop) : Prop := ∀ r : Report, r.addStop stop = r

theorem silent_iff {stop : Stop} :
    stop.Silent ↔ stop = .final ∨ ∃ most, stop = .exhausted most := by
  constructor
  · intro hSilent
    have hItems := congrArg Report.items (hSilent ⟨[], "", []⟩)
    cases stop with
    | final => exact .inl rfl
    | exhausted most => exact .inr ⟨most, rfl⟩
    | undefined state value => cases hItems
    | loop state threshold => cases hItems
  · rintro (rfl | ⟨most, rfl⟩) r <;> rfl

/-- A missing rule is reported with its state and value. -/
theorem reports_undefined (state : String) (value : Bool) :
    (Stop.undefined state value).Reports "RE0001"
      ("no instruction given for state (" ++ state ++ ", " ++ bitText value ++ ")") :=
  ⟨_, rfl, rfl, fun r => items_addStop_undefined r state value⟩

/-- Nothing else is reported with this code. -/
theorem exists_undefined_of_reports {stop : Stop} {message : String}
    (hReports : stop.Reports "RE0001" message) : ∃ state value, stop = .undefined state value := by
  obtain ⟨item, hCode, -, hItems⟩ := hReports
  have hAdded := hItems ⟨[], "", []⟩
  cases stop with
  | undefined state value => exact ⟨state, value, rfl⟩
  | loop state threshold =>
    obtain rfl : _ = item := (List.cons.inj hAdded).1
    have hOther : "RW0001" = "RE0001" := hCode
    exact absurd hOther (by decide)
  | final => cases hAdded
  | exhausted most => cases hAdded

end Stop

/-- The line at the step limit. -/
def limitLine (most : Nat) : String :=
  "Stopped after the maximum of " ++ toString most ++ " steps\n"

theorem mem_limitLine (most : Nat) : 'S' ∈ (limitLine most).toList := by
  have hFirst : 'S' ∈ "Stopped after the maximum of ".toList := by decide
  unfold limitLine
  rw [String.toList_append, String.toList_append]
  exact List.mem_append_left _ (List.mem_append_left _ hFirst)

/-- The ways in which a run with a step limit can end. -/
inductive Ending where
  /-- A final state was reached. -/
  | halted
  /-- No rule applies, and the limit leaves room for another step. -/
  | ruleless
  /-- A state was entered too often. -/
  | looping
  /-- The limit was reached. -/
  | exhausted
  deriving DecidableEq, Repr

/-- What is true of a run of a machine, with a step limit, that has ended in one of these ways. -/
def Ending.Holds (m : Machine) (most : Nat) (stop : Stop) (p : Progress) : Ending → Prop
  | .halted => p.machine.state ∈ m.finals ∧ stop = .final ∧ stop.Silent
  | .ruleless => p.machine.state ∉ m.finals ∧ p.steps < most ∧
      ∃ value, p.machine.tape.read = .ok value ∧ m.table.get? (p.machine.state, value) = none ∧
        stop.Reports "RE0001"
          ("no instruction given for state (" ++ p.machine.state ++ ", " ++ bitText value ++ ")")
  | .looping => ∃ message, stop.Reports "RW0001" message
  | .exhausted => p.steps = most ∧ p.machine.state ∉ m.finals ∧ stop.Silent ∧
      ∃ front, runLines stop p = front ++ limitLine most

/-- The way in which a run ends for a reason. -/
def Stop.ending : Stop → Ending
  | .final => .halted
  | .undefined .. => .ruleless
  | .loop .. => .looping
  | .exhausted _ => .exhausted

theorem runLines_exhausted (most : Nat) (p : Progress) :
    runLines (.exhausted most) p = p.shownText ++ limitLine most := by
  have hNumber : toString (most : Int) = toString most := rfl
  have hText (text : String) : toString text = text := rfl
  unfold runLines limitLine Progress.shownText
  dsimp only
  simp only [hNumber, hText, String.append_assoc]

theorem runLines_of_ne {stop : Stop} (hStop : stop.ending ≠ .exhausted) (p : Progress) :
    runLines stop p = p.shownText := by
  cases stop with
  | exhausted most => exact absurd rfl hStop
  | _ => rfl

namespace Machine

variable {m : Machine} {limits : Limits} {trace : Bool} {most : Nat} {stop : Stop} {p : Progress}

/-- A run makes no more steps than the limit says. -/
theorem steps_le_of_leads (hMost : limits.maxSteps = some (most : Int))
    (hLeads : (Progress.start m).Leads limits trace p.steps p) : p.steps ≤ most := by
  rcases Nat.eq_zero_or_pos p.steps with hNone | hSome
  · omega
  · -- The last step was made within the limit.
    have hRoom := Limits.reached?_eq_none_iff.1 (hLeads.within (p.steps - 1) (by omega)) most hMost
    change ((0 + (p.steps - 1) + 1 : Nat) : Int) ≤ most at hRoom
    omega

/-- The limit that a run tells of is its own, and as many steps were made. -/
theorem limit_of_exhausted (hMost : limits.maxSteps = some (most : Int)) {reached : Int}
    (hJustified : (Stop.exhausted reached).Justified limits p) :
    reached = most ∧ (most : Int) ≤ p.steps := by
  obtain ⟨-, hReached⟩ := hJustified
  obtain ⟨hSame, hLimit⟩ := Option.filter_eq_some_iff.1 hReached
  obtain rfl : (most : Int) = reached := Option.some.inj (hMost.symm.trans hSame)
  exact ⟨rfl, of_decide_eq_true hLimit⟩

/-- What justifies the end of a run is true of the way in which it ends. -/
theorem holds_ending (hCell : m.tape.OnCell) (hMost : limits.maxSteps = some (most : Int))
    (hLeads : (Progress.start m).Leads limits trace p.steps p)
    (hJustified : stop.Justified limits p) : stop.ending.Holds m most stop p := by
  have hAlike : (successor^[p.steps] m).Alike p.machine := hLeads.machine
  have hFinals : p.machine.finals = m.finals := by
    rw [← hAlike.finals, finals_iterate]
  have hTable : p.machine.table = m.table := by
    rw [← hAlike.table, table_iterate]
  have hOpen (hGoing : p.machine.finished = false) : p.machine.state ∉ m.finals := by
    rw [← hFinals]
    simpa [finished] using hGoing
  cases stop with
  | final =>
    have hFinished : p.machine.finished = true := hJustified
    refine ⟨?_, rfl, Stop.silent_iff.2 (.inl rfl)⟩
    rw [← hFinals]
    simpa [finished] using hFinished
  | undefined state value =>
    obtain ⟨hGoing, hUndefined, rfl, rfl, hWithin⟩ := hJustified
    have hCell' : p.machine.tape.OnCell := hAlike.tape ▸ onCell_iterate hCell p.steps
    obtain ⟨hRule, -⟩ := (ruleInForce_eq_none_iff _).1 ((outcome_eq_undefined_iff _).1 hUndefined)
    have hRoom := Limits.reached?_eq_none_iff.1 hWithin most hMost
    exact ⟨hOpen hGoing, by omega, _, Tape.read_of_lt hCell', hTable ▸ hRule,
      Stop.reports_undefined _ _⟩
  | loop state threshold => exact ⟨_, reports_loop state threshold⟩
  | exhausted reached =>
    obtain ⟨rfl, hGe⟩ := limit_of_exhausted hMost hJustified
    have hLe := steps_le_of_leads hMost hLeads
    exact ⟨by omega, hOpen hJustified.1, Stop.silent_iff.2 (.inr ⟨_, rfl⟩), _, runLines_exhausted most p⟩

/-- Only in one way can a run have ended. -/
theorem eq_ending_of_holds (hEnding : stop.ending.Holds m most stop p) {ending : Ending}
    (hHolds : ending.Holds m most stop p) : ending = stop.ending := by
  cases ending with
  | halted => exact hHolds.2.1 ▸ rfl
  | ruleless =>
    obtain ⟨-, -, value, -, -, hReports⟩ := hHolds
    obtain ⟨state, value, rfl⟩ := Stop.exists_undefined_of_reports hReports
    rfl
  | looping =>
    obtain ⟨message, hReports⟩ := hHolds
    obtain ⟨state, threshold, rfl⟩ := exists_loop_of_reports hReports
    rfl
  | exhausted =>
    obtain ⟨-, hOpen, hSilent, -⟩ := hHolds
    rcases Stop.silent_iff.1 hSilent with rfl | ⟨most, rfl⟩
    · -- A run that has halted is in a final state.
      exact absurd hEnding.1 hOpen
    · rfl

/-- The line at the step limit is not part of what is shown of the steps. -/
theorem not_limitLine_infix_shownText (most : Nat)
    (hLeads : (Progress.start m).Leads limits trace p.steps p) :
    ¬ (limitLine most).toList <:+: p.shownText.toList := by
  intro hInfix
  -- The first letter of the line is in no display.
  have hStop : 'S' ∈ p.shownText.toList := hInfix.subset (mem_limitLine most)
  simp only [Progress.shownText, String.toList_join, List.mem_flatMap, List.mem_map] at hStop
  obtain ⟨line, ⟨display, hShown, rfl⟩, hLine⟩ := hStop
  obtain ⟨tape, rfl⟩ : ∃ tape : Tape, display = tape.display := by
    rw [hLeads.shown] at hShown
    cases trace with
    | false => simp [Progress.start] at hShown
    | true =>
      simp only [Progress.start, List.nil_append, if_true, List.mem_map] at hShown
      obtain ⟨i, -, rfl⟩ := hShown
      exact ⟨_, rfl⟩
  rw [String.toList_append, List.mem_append] at hLine
  rcases hLine with hDisplay | hEnd
  · exact absurd (Tape.mem_display hDisplay) (by decide)
  · exact absurd hEnd (by decide)

/-- **One reason**: a run with a step limit ends, after no more steps than the limit says and for
exactly one reason. It counts as halted, or tells of the limit, for the matching reason only. What is
printed besides are the displays after its steps if the trace is wanted, and nothing if it is not;
whether it is changes nothing else. -/
theorem drive_ends_for_one_reason (hHead : m.tape.head < m.tape.cells.length)
    (hBatch : 1 ≤ limits.batch) (hMost : limits.maxSteps = some (most : Int)) (trace : Bool) :
    ∃ stop p, (∀ batches > most, m.drive batches limits trace = .ok (some (stop, p))) ∧
      p.steps ≤ most ∧
      (∃! ending, Ending.Holds m most stop p ending) ∧
      (stop = .final ↔ Ending.halted.Holds m most stop p) ∧
      ((limitLine most).toList <:+: (runLines stop p).toList ↔
        Ending.exhausted.Holds m most stop p) ∧
      (Ending.exhausted.Holds m most stop p →
        runLines stop p = (if trace then m.traceText p.steps else "") ++ limitLine most) ∧
      (¬ Ending.exhausted.Holds m most stop p →
        runLines stop p = if trace then m.traceText p.steps else "") ∧
      ∀ trace', ∃ q, (∀ batches > most, m.drive batches limits trace' = .ok (some (stop, q))) ∧
        q.machine = p.machine ∧ q.steps = p.steps := by
  obtain ⟨⟨stop, p⟩, hDrive⟩ : ∃ answer, m.drive (most + 1) limits trace = .ok (some answer) :=
    exists_runBatches_of_maxSteps hBatch hMost trace hHead (Nat.lt_succ_of_le (Nat.sub_le most 0))
  obtain ⟨hLeads, hJustified⟩ := leads_of_drive hHead hDrive
  have hHolds := holds_ending hHead hMost hLeads hJustified
  have hShown := shownText_eq hHead hLeads
  -- The reason that holds is the one that belongs to the stop.
  have hOnly (ending : Ending) : ending.Holds m most stop p ↔ stop.ending = ending := by
    constructor
    · exact fun hOther => (eq_ending_of_holds hHolds hOther).symm
    · rintro rfl
      exact hHolds
  have hLines (hExhausted : stop.ending = .exhausted) :
      runLines stop p = p.shownText ++ limitLine most := by
    cases stop with
    | exhausted reached =>
      obtain ⟨rfl, -⟩ := limit_of_exhausted hMost hJustified
      exact runLines_exhausted most p
    | _ => cases hExhausted
  refine ⟨stop, p, fun batches hEnough => runBatches_mono hDrive hEnough,
    steps_le_of_leads hMost hLeads, ⟨_, hHolds, fun ending hOther => eq_ending_of_holds hHolds hOther⟩,
    ?_, ?_, ?_, ?_, ?_⟩
  · rw [hOnly]
    cases stop <;> simp [Stop.ending]
  · rw [hOnly]
    constructor
    · intro hInfix
      by_contra hOther
      rw [runLines_of_ne hOther] at hInfix
      exact not_limitLine_infix_shownText most hLeads hInfix
    · intro hExhausted
      rw [hLines hExhausted, String.toList_append]
      exact (List.suffix_append _ _).isInfix
  · rw [hOnly, ← hShown]
    exact hLines
  · rw [hOnly, ← hShown]
    exact fun hOther => runLines_of_ne hOther p
  · intro trace'
    obtain ⟨q, hDrive', hSame⟩ := exists_drive_of_trace hDrive trace'
    exact ⟨q, fun batches hEnough => runBatches_mono hDrive' hEnough, hSame⟩

/-- The one reason where a final state is reached with the last step of a batch, which is the last
that is allowed and enters a state too often. -/
theorem drive_ends_for_one_reason_at_limit :
    let m : Machine :=
      { table := .ofList [⟨"a", false, true, .right, "a"⟩, ⟨"a", true, true, .right, "f"⟩]
        finals := ["f"], state := "a", tape := ⟨[false, true], 0⟩ }
    m.tape.head < m.tape.cells.length ∧ ∃ p,
      m.drive 3 ⟨0, 2, some 2⟩ true = .ok (some (.final, p)) ∧ p.steps ≤ 2 ∧
        Ending.halted.Holds m 2 .final p ∧ ¬ Ending.exhausted.Holds m 2 .final p ∧
        runLines .final p = m.traceText p.steps := by
  intro m
  have hHead : m.tape.head < m.tape.cells.length := by decide
  obtain ⟨stop, p, hDrive, hSteps, ⟨ending, -, hOnly⟩, hHalted, -, -, hShown, -⟩ :=
    @drive_ends_for_one_reason m ⟨0, 2, some 2⟩ 2 hHead (by decide) rfl true
  have hRun := hDrive 3 (by decide)
  obtain rfl : stop = .final := by
    have hStop : (m.drive 3 ⟨0, 2, some 2⟩ true).map (Option.map Prod.fst) =
        .ok (some .final) := by decide
    rw [hRun] at hStop
    exact Option.some.inj (Except.ok.inj hStop)
  have hHolds := hHalted.1 rfl
  have hNot : ¬ Ending.exhausted.Holds m 2 .final p := by
    intro hOther
    have hSame := (hOnly _ hHolds).trans (hOnly _ hOther).symm
    cases hSame
  exact ⟨hHead, p, hRun, hSteps, hHolds, hNot, hShown hNot⟩

end Machine

end TapeMachine
