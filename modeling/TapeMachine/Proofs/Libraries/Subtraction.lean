import TapeMachine.Proofs.Libraries.Problems

/-!
# Subtraction

The library that subtracts erases one 1 at the near end of both arguments in each round, so that
the gap between them grows on both sides. The leftmost 1 of the first argument stays as a sentinel
until the end. There are three ends: the second argument is 0, its last 1 has been erased, or there
is nothing left of the first argument but the sentinel.

* `Subtraction.finish`: the way back to the sentinel, which is erased;
* `Subtraction.second_zero`, `Subtraction.second_one`, `Subtraction.first_used_up` and
  `Subtraction.round`: what happens at the gap, by what is left on its two sides;
* `Subtraction.rounds`: all rounds, by induction on the second argument;
* `Library.monus_subtracts`: every program that poses a problem to the library stops with the
  difference, or with 0 where the second argument is greater.
-/

namespace TapeMachine

open Scene Library

namespace Subtraction

/-- **The end**: from the last of some cells with 1 the head goes back to the first, which is the
sentinel, and erases it. -/
theorem finish {back : Nat} {right more : List Bool} (hCells : strokes back ++ right = true :: more) :
    ∃ n, Computes monusRules n (leftward "q12" (strokes back) right)
      ⟨"q18", [false], false :: more⟩ := by
  have hBack : Computes monusRules back (leftward "q12" (strokes back ++ []) right)
      ⟨"q12", [], false :: (strokes back ++ right)⟩ :=
    sweep_left (by decide) back [] right
  rw [List.append_nil, hCells] at hBack
  have hErase : Computes monusRules 2 ⟨"q12", [], false :: true :: more⟩
      ⟨"q18", [false], false :: more⟩ :=
    .step ⟨"q12", false, false, .right, "q14"⟩ (by decide) rfl
      (.one ⟨"q14", true, false, .halt, "q18"⟩ (by decide) rfl)
  exact ⟨_, hBack.trans hErase⟩

/-- **The second argument is 0**: nothing but the sentinel is erased. -/
theorem second_zero (gap rest : Nat) :
    ∃ n d, Computes monusRules n ⟨"q3", blanks gap ++ strokes (rest + 1), []⟩ d ∧
      d.state = "q18" ∧ d.ones = rest := by
  have hTurn : Computes monusRules 1 ⟨"q3", blanks gap ++ strokes (rest + 1), []⟩
      (leftward "q13" (blanks gap ++ strokes (rest + 1)) [false]) :=
    .one ⟨"q3", false, false, .left, "q13"⟩ (by decide) rfl
  have hGap : Computes monusRules gap (leftward "q13" (blanks gap ++ strokes (rest + 1)) [false])
      ⟨"q13", strokes rest, true :: (blanks gap ++ [false])⟩ :=
    sweep_left (by decide) gap (strokes (rest + 1)) [false]
  have hReach : Computes monusRules 1 ⟨"q13", strokes rest, true :: (blanks gap ++ [false])⟩
      (leftward "q12" (strokes rest) (true :: (blanks gap ++ [false]))) :=
    .one ⟨"q13", true, true, .left, "q12"⟩ (by decide) rfl
  obtain ⟨n, hEnd⟩ := finish (replicate_append_cons true rest (blanks gap ++ [false]))
  refine ⟨_, _, hTurn.trans (hGap.trans (hReach.trans hEnd)), rfl, ?_⟩
  simp [ones, List.count_replicate]

/-- **The last 1 of the second argument** is erased, and then one 1 of the first, if there is one
besides the sentinel. -/
theorem second_one (gap rest : Nat) :
    ∃ n d, Computes monusRules n ⟨"q3", blanks gap ++ strokes (rest + 1), [true]⟩ d ∧
      d.state = "q18" ∧ d.ones = rest - 1 := by
  have hErase : Computes monusRules 2 ⟨"q3", blanks gap ++ strokes (rest + 1), [true]⟩
      (leftward "q9" (blanks (gap + 1) ++ strokes (rest + 1)) [false]) :=
    .step ⟨"q3", true, false, .right, "q4"⟩ (by decide) rfl
      (.one ⟨"q4", false, false, .left, "q9"⟩ (by decide) rfl)
  have hGap : Computes monusRules (gap + 1)
      (leftward "q9" (blanks (gap + 1) ++ strokes (rest + 1)) [false])
      ⟨"q9", strokes rest, true :: (blanks (gap + 1) ++ [false])⟩ :=
    sweep_left (by decide) (gap + 1) (strokes (rest + 1)) [false]
  have hReach : Computes monusRules 1 ⟨"q9", strokes rest, true :: (blanks (gap + 1) ++ [false])⟩
      (leftward "q10" (strokes rest) (true :: (blanks (gap + 1) ++ [false]))) :=
    .one ⟨"q9", true, true, .left, "q10"⟩ (by decide) rfl
  have hStart := hErase.trans (hGap.trans hReach)
  cases rest with
  | zero =>
    -- Only the sentinel is left.
    have hEnd : Computes monusRules 2
        (leftward "q10" [] (true :: (blanks (gap + 1) ++ [false])))
        ⟨"q18", [false], false :: (blanks (gap + 1) ++ [false])⟩ :=
      .step ⟨"q10", false, false, .right, "q14"⟩ (by decide) rfl
        (.one ⟨"q14", true, false, .halt, "q18"⟩ (by decide) rfl)
    refine ⟨_, _, hStart.trans hEnd, rfl, ?_⟩
    simp [ones, List.count_replicate]
  | succ rest =>
    have hTake : Computes monusRules 2
        (leftward "q10" (strokes (rest + 1)) (true :: (blanks (gap + 1) ++ [false])))
        (leftward "q12" (strokes (rest + 1)) (false :: (blanks (gap + 1) ++ [false]))) :=
      .step ⟨"q10", true, true, .right, "q11"⟩ (by decide) rfl
        (.one ⟨"q11", true, false, .left, "q12"⟩ (by decide) rfl)
    have hCells : strokes (rest + 1) ++ false :: (blanks (gap + 1) ++ [false]) =
        true :: (strokes rest ++ false :: (blanks (gap + 1) ++ [false])) := rfl
    obtain ⟨n, hEnd⟩ := finish hCells
    refine ⟨_, _, hStart.trans (hTake.trans hEnd), rfl, ?_⟩
    simp [ones, List.count_replicate]

/-- **At least two are left of the second argument**: one 1 is erased there, and the head goes
over the gap to the last 1 of the first argument and looks at the cell in front of it. -/
theorem over_the_gap (gap rest more : Nat) :
    ∃ n, Computes monusRules n
      ⟨"q3", blanks gap ++ strokes (rest + 1), strokes (more + 2)⟩
      (leftward "q6" (strokes rest) (true :: (blanks (gap + 1) ++ strokes (more + 1)))) := by
  have hErase : Computes monusRules 2
      ⟨"q3", blanks gap ++ strokes (rest + 1), strokes (more + 2)⟩
      (leftward "q5" (blanks (gap + 1) ++ strokes (rest + 1)) (strokes (more + 1))) :=
    .step ⟨"q3", true, false, .right, "q4"⟩ (by decide) rfl
      (.one ⟨"q4", true, true, .left, "q5"⟩ (by decide) rfl)
  have hGap : Computes monusRules (gap + 1)
      (leftward "q5" (blanks (gap + 1) ++ strokes (rest + 1)) (strokes (more + 1)))
      ⟨"q5", strokes rest, true :: (blanks (gap + 1) ++ strokes (more + 1))⟩ :=
    sweep_left (by decide) (gap + 1) (strokes (rest + 1)) (strokes (more + 1))
  have hReach : Computes monusRules 1
      ⟨"q5", strokes rest, true :: (blanks (gap + 1) ++ strokes (more + 1))⟩
      (leftward "q6" (strokes rest) (true :: (blanks (gap + 1) ++ strokes (more + 1)))) :=
    .one ⟨"q5", true, true, .left, "q6"⟩ (by decide) rfl
  exact ⟨_, hErase.trans (hGap.trans hReach)⟩

/-- **Only the sentinel is left** of the first argument: it is erased, and then all that is left of
the second. -/
theorem first_used_up (gap more : Nat) :
    ∃ n d, Computes monusRules n
      (leftward "q6" [] (true :: (blanks (gap + 1) ++ strokes (more + 1)))) d ∧
      d.state = "q18" ∧ d.ones = 0 := by
  have hErase : Computes monusRules 2
      (leftward "q6" [] (true :: (blanks (gap + 1) ++ strokes (more + 1))))
      ⟨"q16", [false, false], blanks (gap + 1) ++ strokes (more + 1)⟩ :=
    .step ⟨"q6", false, false, .right, "q15"⟩ (by decide) rfl
      (.one ⟨"q15", true, false, .right, "q16"⟩ (by decide) rfl)
  have hGap : Computes monusRules (gap + 1)
      ⟨"q16", [false, false], blanks (gap + 1) ++ strokes (more + 1)⟩
      ⟨"q16", blanks (gap + 1) ++ [false, false], strokes (more + 1)⟩ :=
    sweep_right (by decide) (gap + 1) [false, false] (strokes (more + 1))
  have hFirst : Computes monusRules 1
      ⟨"q16", blanks (gap + 1) ++ [false, false], strokes (more + 1)⟩
      ⟨"q17", false :: (blanks (gap + 1) ++ [false, false]), strokes more⟩ :=
    .one ⟨"q16", true, false, .right, "q17"⟩ (by decide) rfl
  have hOthers : Computes monusRules more
      ⟨"q17", false :: (blanks (gap + 1) ++ [false, false]), strokes more ++ []⟩
      ⟨"q17", blanks more ++ false :: (blanks (gap + 1) ++ [false, false]), []⟩ :=
    sweep_right (by decide) more (false :: (blanks (gap + 1) ++ [false, false])) []
  rw [List.append_nil] at hOthers
  have hHalt : Computes monusRules 1
      ⟨"q17", blanks more ++ false :: (blanks (gap + 1) ++ [false, false]), []⟩
      ⟨"q18", blanks more ++ false :: (blanks (gap + 1) ++ [false, false]), [false]⟩ :=
    .one ⟨"q17", false, false, .halt, "q18"⟩ (by decide) rfl
  refine ⟨_, _, hErase.trans (hGap.trans (hFirst.trans (hOthers.trans hHalt))), rfl, ?_⟩
  simp [ones, List.count_replicate]

/-- **One round**: one 1 of the first argument is erased as well, and the head comes back over the
gap, which has grown by two. -/
theorem round (gap rest more : Nat) :
    ∃ n, Computes monusRules n
      (leftward "q6" (strokes (rest + 1)) (true :: (blanks (gap + 1) ++ strokes (more + 1))))
      ⟨"q3", blanks (gap + 2) ++ strokes (rest + 1), strokes (more + 1)⟩ := by
  have hErase : Computes monusRules 2
      (leftward "q6" (strokes (rest + 1)) (true :: (blanks (gap + 1) ++ strokes (more + 1))))
      ⟨"q8", false :: strokes (rest + 1), blanks (gap + 1) ++ strokes (more + 1)⟩ :=
    .step ⟨"q6", true, true, .right, "q7"⟩ (by decide) rfl
      (.one ⟨"q7", true, false, .right, "q8"⟩ (by decide) rfl)
  have hGap : Computes monusRules (gap + 1)
      ⟨"q8", false :: strokes (rest + 1), blanks (gap + 1) ++ strokes (more + 1)⟩
      ⟨"q8", blanks (gap + 1) ++ false :: strokes (rest + 1), strokes (more + 1)⟩ :=
    sweep_right (by decide) (gap + 1) (false :: strokes (rest + 1)) (strokes (more + 1))
  rw [replicate_append_cons] at hGap
  have hArrive : Computes monusRules 1
      ⟨"q8", blanks (gap + 2) ++ strokes (rest + 1), strokes (more + 1)⟩
      ⟨"q3", blanks (gap + 2) ++ strokes (rest + 1), strokes (more + 1)⟩ :=
    .one ⟨"q8", true, true, .halt, "q3"⟩ (by decide) rfl
  exact ⟨_, hErase.trans (hGap.trans hArrive)⟩

/-- **All rounds**: at the gap, with `rest` besides the sentinel on its left and `b` on its right,
the machine goes on to leave `rest - b`. -/
theorem rounds (gap rest b : Nat) :
    ∃ n d, Computes monusRules n ⟨"q3", blanks gap ++ strokes (rest + 1), strokes b⟩ d ∧
      d.state = "q18" ∧ d.ones = rest - b := by
  -- Each round takes one from both arguments, so the induction is on the second with any first.
  induction b generalizing gap rest with
  | zero => exact second_zero gap rest
  | succ b ih =>
    cases b with
    | zero => exact second_one gap rest
    | succ more =>
      obtain ⟨n, hOver⟩ := over_the_gap gap rest more
      -- In front of the last 1 of the first argument there is a 0 if that is the sentinel.
      cases rest with
      | zero =>
        obtain ⟨k, d, hEnd, hState, hOnes⟩ := first_used_up gap more
        exact ⟨_, d, hOver.trans hEnd, hState, by omega⟩
      | succ rest =>
        obtain ⟨k, hRound⟩ := round gap rest more
        obtain ⟨j, d, hRest, hState, hOnes⟩ := ih (gap + 2) rest
        exact ⟨_, d, hOver.trans (hRound.trans hRest), hState, by omega⟩

/-- From the initial to the final state the library leaves the difference. -/
theorem computes (a b : Nat) :
    ∃ n d, Computes monusRules n ⟨"q0", [], strokes (a + 1) ++ false :: strokes (b + 1)⟩ d ∧
      d.state = "q18" ∧ d.ones = a - b := by
  have hSentinel : Computes monusRules 1
      ⟨"q0", [], strokes (a + 1) ++ false :: strokes (b + 1)⟩
      ⟨"q1", [true], strokes a ++ false :: strokes (b + 1)⟩ :=
    .one ⟨"q0", true, true, .right, "q1"⟩ (by decide) rfl
  have hFirst : Computes monusRules a ⟨"q1", [true], strokes a ++ false :: strokes (b + 1)⟩
      ⟨"q1", strokes a ++ [true], false :: strokes (b + 1)⟩ :=
    sweep_right (by decide) a [true] (false :: strokes (b + 1))
  rw [← List.replicate_succ'] at hFirst
  -- The separator and the extra 1 of the second argument are the first gap.
  have hGap : Computes monusRules 2 ⟨"q1", strokes (a + 1), false :: strokes (b + 1)⟩
      ⟨"q3", blanks 2 ++ strokes (a + 1), strokes b⟩ :=
    .step ⟨"q1", false, false, .right, "q2"⟩ (by decide) rfl
      (.one ⟨"q2", true, false, .right, "q3"⟩ (by decide) rfl)
  obtain ⟨n, d, hRounds, hState, hOnes⟩ := rounds 2 a b
  exact ⟨_, d, hSentinel.trans (hFirst.trans (hGap.trans hRounds)), hState, hOnes⟩

end Subtraction

/-- **Subtraction**: a program that writes `a` and `b` on the tape, as `a + 1` and `b + 1` cells with
1 and a 0 between them, and composes the library that subtracts, with whatever rules for other
states, is built, and its machine stops with `a - b` cells with 1 if `b` is at most `a`, and with
none otherwise. It is never at a loss for a rule, and never runs forever. -/
theorem Library.monus_subtracts (a b : Nat) {records : List Record} (source : String)
    (hPoses : Library.monus.Poses (strokes (a + 1) ++ false :: strokes (b + 1)) records) :
    ∃ built n last, buildRecords records source = .ok built ∧
      (∀ p, Program.ofSource source = .ok p → p.records = records → build source = .ok built) ∧
      ∀ limit, built.machine.runToStop limit =
        .ok (if n ≤ limit then some (.defined n (if b ≤ a then a - b else 0), last) else none) := by
  obtain ⟨n, d, hComputes, hEnd, hOnes⟩ := Subtraction.computes a b
  have hDifference : d.ones = if b ≤ a then a - b else 0 := by
    rw [hOnes]
    split <;> omega
  obtain ⟨built, last, hBuild, hText, hRun⟩ :=
    hPoses.runToStop (provides_of_mem_contents (by simp [contents])) rfl rfl hComputes hEnd source
  exact ⟨built, n, last, hBuild, hText, hDifference ▸ hRun⟩

/-- Three less one, by a program that has a rule of its own on either side of the composition. -/
theorem Library.monus_subtracts_one :
    let ofTexts (texts : List String) : List Field := texts.map fun text => ⟨text, none⟩
    let records : List Record :=
      [.rule none (ofTexts ["p", "0", "1", "L", "q7"]),
        .tape none (ofTexts ["1", "1", "1", "1", "0", "1", "1"]),
        .composition none [⟨"monus", none⟩], .finalStates none [⟨"q18", none⟩],
        .rule none (ofTexts ["q19", "1", "1", "N", "q9"]), .initialState none ⟨"q0", none⟩]
    Library.monus.Poses (strokes 4 ++ false :: strokes 2) records ∧
      ∃ built n last, buildRecords records "" = .ok built ∧
        ∀ limit ≥ n, built.machine.runToStop limit = .ok (some (.defined n 2, last)) := by
  intro ofTexts records
  have hPoses : Library.monus.Poses (strokes 4 ++ false :: strokes 2) records := by
    refine .intro none none none none (ofTexts ["1", "1", "1", "1", "0", "1", "1"]) ⟨"q0", none⟩
      ⟨"q18", none⟩ ⟨"monus", none⟩ [.rule none (ofTexts ["p", "0", "1", "L", "q7"]),
        .rule none (ofTexts ["q19", "1", "1", "N", "q9"])] (by decide) rfl rfl rfl rfl ?_
    intro r hr
    rcases List.mem_pair.1 hr with rfl | rfl
    · exact ⟨_, _, _, rfl, rfl, by decide⟩
    · exact ⟨_, _, _, rfl, rfl, by decide⟩
  obtain ⟨built, n, last, hBuild, -, hRun⟩ := Library.monus_subtracts 3 1 "" hPoses
  refine ⟨hPoses, built, n, last, hBuild, fun limit hEnough => ?_⟩
  rw [hRun limit, if_pos hEnough]
  rfl

end TapeMachine
