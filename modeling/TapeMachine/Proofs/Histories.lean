import TapeMachine.Proofs.Margins
import TapeMachine.Proofs.Resets
import TapeMachine.Proofs.VisitCounts

/-!
# Histories of Rules

What is done to a machine from outside applies rules, forgets the visits, makes the machine anew or
changes it by hand. A record of the rules that were applied since the visits were last forgotten can
be kept on the side, and the visit counts are those of the record.

* `Machine.rulesOf` are the rules that a call applies; `Machine.successor_eq_obeyAll` and
  `Machine.last_eq_obeyAll` say that obeying them is what a step and a run do;
* `Recorded` is a machine with its record, and `Recorded.after` what an event makes of both;
* `Recorded.Exact` is the invariant, which `Recorded.Exact.after` carries over one event and
  `Recorded.Exact.afterAll` over any number of them;
* `Recorded.visits_count_rules` reads the counts off the record.
-/

namespace TapeMachine

namespace Machine

variable {m : Machine}

/-! ## §1 Rules That a Call Applies -/

/-- The rule that one step applies, if it applies one. -/
def rulesOfStep (m : Machine) : List Rule :=
  match m.rule with
  | .ok (some r) => [r]
  | _ => []

/-- The rules that are applied by running until a stop, for at most so many steps. -/
def rulesOfRun : Nat → Machine → List Rule
  | 0, _ => []
  | limit + 1, m =>
    if m.finished then []
    else
      match m.rule with
      | .ok (some r) => r :: rulesOfRun limit (m.obey r)
      | _ => []

/-- The rules that a call applies, in order. -/
def rulesOf (m : Machine) : Call → List Rule
  | .advance | .step => m.rulesOfStep
  | .run limit => rulesOfRun limit m
  | .reset | .restoreMargin | .forgetVisits | .inspect | .setCell _ | .setState _ => []

/-- Applies one rule after the other. -/
def obeyAll (m : Machine) (rules : List Rule) : Machine := rules.foldl obey m

/-- Rules that are applied enter the states that they lead to. -/
theorem visits_obeyAll (m : Machine) (rules : List Rule) :
    (m.obeyAll rules).visits = m.visits.enterAll (rules.map Rule.next) := by
  induction rules generalizing m with
  | nil => rfl
  | cons r rules ih => exact ih (m.obey r)

/-- A step obeys the rule that it applies. -/
theorem successor_eq_obeyAll (hCell : m.tape.OnCell) :
    m.successor = m.obeyAll m.rulesOfStep := by
  unfold successor rulesOfStep
  rw [rule_eq hCell]
  cases m.ruleInForce with
  | none => rfl
  | some r => rfl

/-- A run that returns has obeyed the rules that it applies. -/
theorem last_eq_obeyAll (hCell : m.tape.OnCell) {limit steps : Nat} {output : Output}
    {last : Machine} (hRun : runFrom limit steps m = .ok (some (output, last))) :
    last = m.obeyAll (rulesOfRun limit m) := by
  induction limit generalizing m steps with
  | zero =>
    cases hFinished : m.finished with
    | true =>
      rw [runFrom_of_finished hFinished] at hRun
      cases hRun
      rfl
    | false => simp [runFrom, hFinished] at hRun
  | succ limit ih =>
    cases hFinished : m.finished with
    | true =>
      rw [runFrom_of_finished hFinished] at hRun
      cases hRun
      rw [rulesOfRun, if_pos hFinished]
      rfl
    | false =>
      rw [rulesOfRun, hFinished, rule_eq hCell]
      cases hRule : m.ruleInForce with
      | none =>
        rw [runFrom_of_undefined hCell hFinished ((outcome_eq_undefined_iff m).2 hRule)] at hRun
        cases hRun
        rfl
      | some r =>
        have hNext := successor_of_rule hRule
        rw [runFrom_of_step hCell hFinished (outcome_of_rule hRule), hNext] at hRun
        exact ih (hNext ▸ onCell_successor hCell) hRun

end Machine

/-! ## §2 Records -/

/-- What is done to a machine from outside: a call, or a write to one of its cells, which need not be
the one under the head. -/
inductive Event where
  | call (call : Call)
  | writeCell (index : Nat) (value : Bool)
  deriving DecidableEq, Repr

/-- The visits of a machine are forgotten with a call: on request, or because the machine is made
anew. -/
def Call.restarts : Call → Bool
  | .reset | .forgetVisits => true
  | .advance | .step | .run _ | .restoreMargin | .inspect | .setCell _ | .setState _ => false

namespace Machine

/-- The machine with a cell written. Where there is no such cell, nothing changes. -/
def writeCell (m : Machine) (index : Nat) (value : Bool) : Machine :=
  { m with tape := { m.tape with cells := m.tape.cells.set index value } }

end Machine

/-- A machine, and the rules that were applied since its visits were last forgotten. -/
structure Recorded where
  machine : Machine
  applied : List Rule
  deriving DecidableEq

namespace Recorded

/-- A machine as it is first made, by which no rule was applied yet. -/
def start (m : Machine) : Recorded := ⟨m, []⟩

/-- The machine and its record after an event, if the event is over at some time. -/
def after (r : Recorded) : Event → Option Recorded
  | .call call => (r.machine.after call).map fun next =>
      ⟨next, if call.restarts then [] else r.applied ++ r.machine.rulesOf call⟩
  | .writeCell index value => some { r with machine := r.machine.writeCell index value }

/-- The machine and its record after a sequence of events. -/
def afterAll (r : Recorded) (events : List Event) : Option Recorded := events.foldlM after r

end Recorded

/-! ## §3 Visits Follow the Record -/

namespace Machine

variable {m : Machine}

/-- **A call counts the rules that it applies**, unless it forgets the visits. -/
theorem visits_after (hCell : m.tape.OnCell) {call : Call} (hKeeps : call.restarts = false)
    {next : Machine} (hCall : m.after call = some next) :
    next.visits = m.visits.enterAll ((m.rulesOf call).map Rule.next) := by
  cases call with
  | advance =>
    rw [after, advance_eq hCell] at hCall
    obtain rfl : m.successor = next := Option.some.inj hCall
    rw [successor_eq_obeyAll hCell]
    exact visits_obeyAll m _
  | step =>
    rw [after, step, advance_eq hCell] at hCall
    obtain rfl : m.successor = next := Option.some.inj hCall
    rw [successor_eq_obeyAll hCell]
    exact visits_obeyAll m _
  | run limit =>
    obtain ⟨answer, hRun⟩ := exists_runFrom hCell limit 0
    have hAnswer : answer.map Prod.snd = some next := by
      rw [after, runToStop, hRun] at hCall
      exact hCall
    obtain ⟨⟨output, last⟩, rfl, rfl⟩ := Option.map_eq_some_iff.1 hAnswer
    rw [last_eq_obeyAll hCell hRun]
    exact visits_obeyAll m _
  | setCell value =>
    have hWrite : m.tape.write value = .ok (m.tape.put value) := if_pos hCell
    rw [after, setCell, hWrite] at hCall
    obtain rfl := Option.some.inj hCall
    rfl
  | reset | forgetVisits => cases hKeeps
  | restoreMargin | inspect | setState =>
    obtain rfl := Option.some.inj hCall
    rfl

end Machine

namespace Recorded

variable {r : Recorded}

/-- The visits are those of the record, on a machine that has its margin and can be reset. -/
structure Exact (r : Recorded) : Prop where
  margin : r.machine.tape.HasMargin
  resets : ∃ fresh, r.machine.reset = .ok fresh
  visits : r.machine.visits = Visits.empty.enterAll (r.applied.map Rule.next)

/-- A fresh machine has no visits. -/
theorem exact_start {m : Machine} (hFresh : m.Fresh) : (start m).Exact := by
  have hMargin := Machine.hasMargin_of_fresh hFresh
  rcases hFresh with rfl | ⟨source, built, hBuild, rfl⟩
  · exact ⟨hMargin, ⟨Machine.halted, rfl⟩, rfl⟩
  · exact ⟨hMargin, ⟨built.machine, Machine.reset_of_build hBuild⟩,
      (Machine.visits_and_source_of_build hBuild).1⟩

/-- **One event** leaves the visits as the record has them. -/
theorem Exact.after (hExact : r.Exact) {event : Event} {next : Recorded}
    (hEvent : r.after event = some next) : next.Exact := by
  cases event with
  | writeCell index value =>
    obtain rfl := Option.some.inj hEvent
    have hLength : (r.machine.tape.cells.set index value).length = r.machine.tape.cells.length :=
      List.length_set
    exact ⟨⟨hExact.margin.1, hLength ▸ hExact.margin.2⟩, hExact.resets, hExact.visits⟩
  | call call =>
    obtain ⟨m, hCall, rfl⟩ := Option.map_eq_some_iff.1 hEvent
    have hResets : ∃ fresh, m.reset = .ok fresh := by
      rw [Machine.reset_of_source (Machine.source_after hCall)]
      exact hExact.resets
    refine ⟨Machine.hasMargin_after hExact.margin hCall, hResets, ?_⟩
    show m.visits = _
    cases hRestarts : call.restarts with
    | false =>
      rw [Machine.visits_after hExact.margin.onCell hRestarts hCall, hExact.visits,
        ← Visits.enterAll_append, if_neg Bool.false_ne_true, List.map_append]
    | true =>
      rw [if_pos rfl]
      cases call with
      | reset =>
        obtain ⟨fresh, hReset⟩ := hExact.resets
        rw [Machine.after, hReset] at hCall
        obtain rfl : fresh = m := Option.some.inj hCall
        exact (exact_start (Machine.fresh_of_reset hReset)).visits
      | forgetVisits =>
        obtain rfl := Option.some.inj hCall
        rfl
      | _ => cases hRestarts

/-- **Any events** leave the visits as the record has them. -/
theorem Exact.afterAll (hExact : r.Exact) {events : List Event} {last : Recorded}
    (hEvents : r.afterAll events = some last) : last.Exact :=
  foldlM_keeps Exact (fun hKept hEvent => hKept.after hEvent) hExact hEvents

/-- **Visit counts**: whatever is done to a machine that was built or is halted, its visits list the
states that were entered by the rules applied since the visits were last forgotten, in the order of
their first entries, each with the number of its entries. These numbers sum up to the number of rules.
So a threshold that is not negative is exceeded exactly if some state was entered more often. -/
theorem visits_count_rules {m : Machine} {events : List Event} {last : Recorded} (hFresh : m.Fresh)
    (hEvents : (start m).afterAll events = some last) :
    let entered := last.applied.map Rule.next
    let visits := last.machine.visits
    (∀ s, visits.count s = entered.count s) ∧
    (∀ s n, (s, n) ∈ visits.counts ↔ s ∈ entered ∧ n = entered.count s) ∧
    visits.counts.Pairwise (fun e e' => entered.idxOf e.1 < entered.idxOf e'.1) ∧
    (visits.counts.map Prod.snd).sum = last.applied.length ∧
    ∀ threshold : Int, 0 ≤ threshold →
      (visits.exceeds threshold = true ↔ ∃ s, threshold < entered.count s) := by
  intro entered visits
  have hVisits : visits = Visits.empty.enterAll entered := ((exact_start hFresh).afterAll hEvents).visits
  have hCounts : visits.counts = entered.eraseDups.map fun s => (s, entered.count s) :=
    hVisits ▸ Visits.counts_enterAll entered
  refine ⟨fun s => ?_, fun s n => ?_, ?_, ?_, fun threshold hThreshold => ?_⟩
  · rw [hVisits, Visits.count_enterAll]
    exact Nat.zero_add _
  · rw [hCounts, List.mem_map]
    constructor
    · rintro ⟨t, hMem, hSame⟩
      obtain ⟨rfl, rfl⟩ := Prod.mk.inj hSame
      exact ⟨List.mem_eraseDups.1 hMem, rfl⟩
    · rintro ⟨hMem, rfl⟩
      exact ⟨s, List.mem_eraseDups.2 hMem, rfl⟩
  · rw [hCounts, List.pairwise_map]
    exact pairwise_idxOf_eraseDups entered
  · rw [hCounts, List.map_map]
    exact (sum_count_eraseDups entered).trans (List.length_map _)
  · rw [hVisits]
    exact Visits.exceeds_enterAll_iff hThreshold

/-- A machine whose visits are forgotten on its way, which then runs to a final state, halts there once
more, and finds no rule after it was put into another state. -/
theorem visits_count_rules_of_run :
    let source := "\x7b1\x7d;I=\x7ba\x7d;F=\x7bb\x7d;(a,1,0,R,a);(a,0,1,L,b);"
    let fresh : Machine :=
      { table := .ofList [⟨"a", true, false, .right, "a"⟩, ⟨"a", false, true, .left, "b"⟩]
        finals := ["b"], state := "a", tape := ⟨[false, false, false, true, false, false, false], 3⟩
        source := some source }
    let events : List Event := [.call .advance, .call .forgetVisits, .writeCell 4 true,
      .call (.run 9), .call .step, .call (.setState "c"), .call .advance]
    let last : Recorded :=
      { machine :=
          { fresh with
            state := "c"
            tape := ⟨[false, false, false, false, false, true, false, false, false], 4⟩
            visits := ⟨[("a", 1), ("b", 2)]⟩ }
        applied := [⟨"a", true, false, .right, "a"⟩, ⟨"a", false, true, .left, "b"⟩, .halt "b" false] }
    fresh.Fresh ∧ (start fresh).afterAll events = some last ∧
      last.machine.visits.count "b" = 2 ∧ last.machine.visits.count "c" = 0 ∧
      (last.machine.visits.exceeds 1 = true ↔
        ∃ s, (1 : Int) < (last.applied.map Rule.next).count s) := by
  intro source fresh events last
  have hBuild : build source = .ok ⟨fresh, []⟩ := eq_ok_of_toOption (by decide +kernel)
  have hFresh : fresh.Fresh := .inr ⟨source, _, hBuild, rfl⟩
  have hEvents : (start fresh).afterAll events = some last := by decide
  obtain ⟨hCount, -, -, -, hExceeds⟩ := visits_count_rules hFresh hEvents
  exact ⟨hFresh, hEvents, hCount "b", hCount "c", hExceeds 1 (by decide)⟩

end Recorded

end TapeMachine
