import TapeMachine.Proofs.Libraries.Problems

/-!
# Doubling

The library that doubles takes its argument apart, one 1 in each round, and writes two at the end
of a block behind it. A 0 separates what is left of the argument from the block.

* `Doubling.round`: one round, up to the look at what is left of the argument;
* `Doubling.rounds`: all rounds, by induction on what is left;
* `Library.double_doubles`: every program that poses a problem to the library stops with twice the
  argument.
-/

namespace TapeMachine

open Scene Library

namespace Doubling

/-- **One round**: a 1 is taken from the argument, two are written behind the block, and the head
returns to the last 1 that is left of the argument, or to the cell in front of it. -/
theorem round (left : List Bool) (rest block : Nat) :
    ∃ n, Computes doubleRules n ⟨"q1", left, strokes (rest + 1) ++ false :: strokes block⟩
      (leftward "q6" (strokes rest ++ false :: left) (false :: strokes (block + 2))) := by
  -- The first 1 of the argument is erased, and the rest of it is passed.
  have hTake : Computes doubleRules 1 ⟨"q1", left, strokes (rest + 1) ++ false :: strokes block⟩
      ⟨"q2", false :: left, strokes rest ++ false :: strokes block⟩ :=
    .one ⟨"q1", true, false, .right, "q2"⟩ (by decide) rfl
  have hPass : Computes doubleRules rest
      ⟨"q2", false :: left, strokes rest ++ false :: strokes block⟩
      ⟨"q2", strokes rest ++ false :: left, false :: strokes block⟩ :=
    sweep_right (by decide) rest (false :: left) (false :: strokes block)
  -- Behind the separator, the block is passed, and two cells are written.
  have hSeparator : Computes doubleRules 1
      ⟨"q2", strokes rest ++ false :: left, false :: strokes block⟩
      ⟨"q3", false :: (strokes rest ++ false :: left), strokes block⟩ :=
    .one ⟨"q2", false, false, .right, "q3"⟩ (by decide) rfl
  have hBlock : Computes doubleRules block
      ⟨"q3", false :: (strokes rest ++ false :: left), strokes block ++ []⟩
      ⟨"q3", strokes block ++ false :: (strokes rest ++ false :: left), []⟩ :=
    sweep_right (by decide) block (false :: (strokes rest ++ false :: left)) []
  rw [List.append_nil] at hBlock
  have hWrite : Computes doubleRules 2
      ⟨"q3", strokes block ++ false :: (strokes rest ++ false :: left), []⟩
      (leftward "q5" (strokes (block + 1) ++ false :: (strokes rest ++ false :: left)) [true]) :=
    .step ⟨"q3", false, true, .right, "q4"⟩ (by decide) rfl
      (.one ⟨"q4", false, true, .left, "q5"⟩ (by decide) rfl)
  -- The head passes the block again, and then the separator.
  have hBack : Computes doubleRules (block + 1)
      (leftward "q5" (strokes (block + 1) ++ false :: (strokes rest ++ false :: left)) [true])
      ⟨"q5", strokes rest ++ false :: left, false :: (strokes (block + 1) ++ [true])⟩ :=
    sweep_left (by decide) (block + 1) (false :: (strokes rest ++ false :: left)) [true]
  rw [← List.replicate_succ'] at hBack
  have hLook : Computes doubleRules 1
      ⟨"q5", strokes rest ++ false :: left, false :: strokes (block + 2)⟩
      (leftward "q6" (strokes rest ++ false :: left) (false :: strokes (block + 2))) :=
    .one ⟨"q5", false, false, .left, "q6"⟩ (by decide) rfl
  exact ⟨_, hTake.trans (hPass.trans (hSeparator.trans (hBlock.trans (hWrite.trans
    (hBack.trans hLook)))))⟩

/-- **All rounds**: with `rest + 1` cells left of the argument, so many times two are added to the
block. -/
theorem rounds (left : List Bool) (rest block : Nat) :
    ∃ n d, Computes doubleRules n ⟨"q1", left, strokes (rest + 1) ++ false :: strokes block⟩ d ∧
      d.state = "q8" ∧ d.ones = left.count true + block + 2 * (rest + 1) := by
  induction rest generalizing left block with
  | zero =>
    -- Nothing is left of the argument, and the machine halts in front of the separator.
    obtain ⟨n, hRound⟩ := round left 0 block
    have hHalt : Computes doubleRules 1 (leftward "q6" (false :: left) (false :: strokes (block + 2)))
        ⟨"q8", left, false :: false :: strokes (block + 2)⟩ :=
      .one ⟨"q6", false, false, .halt, "q8"⟩ (by decide) rfl
    refine ⟨_, _, hRound.trans hHalt, rfl, ?_⟩
    simp only [ones, List.count_cons, List.count_replicate]
    simp
    omega
  | succ rest ih =>
    obtain ⟨n, hRound⟩ := round left (rest + 1) block
    -- The head returns to the first 1 that is left.
    have hSeen : Computes doubleRules 1
        (leftward "q6" (strokes (rest + 1) ++ false :: left) (false :: strokes (block + 2)))
        (leftward "q7" (strokes rest ++ false :: left) (true :: false :: strokes (block + 2))) :=
      .one ⟨"q6", true, true, .left, "q7"⟩ (by decide) rfl
    have hBack : Computes doubleRules rest
        (leftward "q7" (strokes rest ++ false :: left) (true :: false :: strokes (block + 2)))
        ⟨"q7", left, false :: (strokes rest ++ true :: false :: strokes (block + 2))⟩ :=
      sweep_left (by decide) rest (false :: left) (true :: false :: strokes (block + 2))
    rw [replicate_append_cons] at hBack
    have hNext : Computes doubleRules 1
        ⟨"q7", left, false :: (strokes (rest + 1) ++ false :: strokes (block + 2))⟩
        ⟨"q1", false :: left, strokes (rest + 1) ++ false :: strokes (block + 2)⟩ :=
      .one ⟨"q7", false, false, .right, "q1"⟩ (by decide) rfl
    obtain ⟨k, d, hRest, hState, hOnes⟩ := ih (false :: left) (block + 2)
    refine ⟨_, d, hRound.trans (hSeen.trans (hBack.trans (hNext.trans hRest))), hState, ?_⟩
    rw [hOnes, List.count_cons_of_ne (by decide)]
    omega

/-- From the initial to the final state the library leaves twice the argument. -/
theorem computes (a : Nat) :
    ∃ n d, Computes doubleRules n ⟨"q0", [], strokes (a + 1) ++ [false]⟩ d ∧
      d.state = "q8" ∧ d.ones = 2 * a := by
  have hFirst : Computes doubleRules 1 ⟨"q0", [], strokes (a + 1) ++ [false]⟩
      ⟨"q1", [false], strokes a ++ [false]⟩ :=
    .one ⟨"q0", true, false, .right, "q1"⟩ (by decide) rfl
  cases a with
  | zero =>
    have hHalt : Computes doubleRules 1 ⟨"q1", [false], [false]⟩ ⟨"q8", [false], [false]⟩ :=
      .one ⟨"q1", false, false, .halt, "q8"⟩ (by decide) rfl
    exact ⟨_, _, hFirst.trans hHalt, rfl, rfl⟩
  | succ a =>
    obtain ⟨n, d, hRounds, hState, hOnes⟩ := rounds [false] a 0
    refine ⟨_, d, hFirst.trans hRounds, hState, ?_⟩
    rw [hOnes, List.count_cons_of_ne (by decide)]
    simp

end Doubling

/-- **Doubling**: a program that writes `a` on the tape as `a + 1` cells with 1 and composes the
library that doubles, with whatever rules for other states, is built, and its machine stops with
`2 * a` cells with 1. It is never at a loss for a rule, and never runs forever. -/
theorem Library.double_doubles (a : Nat) {records : List Record} (source : String)
    (hPoses : Library.double.Poses (strokes (a + 1)) records) :
    ∃ built n last, buildRecords records source = .ok built ∧
      (∀ p, Program.ofSource source = .ok p → p.records = records → build source = .ok built) ∧
      ∀ limit, built.machine.runToStop limit =
        .ok (if n ≤ limit then some (.defined n (2 * a), last) else none) := by
  obtain ⟨n, d, hComputes, hEnd, hOnes⟩ := Doubling.computes a
  have hStart : (Scene.mk "q0" [] (strokes (a + 1) ++ [false])).configuration =
      (Scene.mk "q0" [] (strokes (a + 1))).configuration :=
    configuration_append_blank "q0" [] (strokes (a + 1))
  obtain ⟨built, last, hBuild, hText, hRun⟩ :=
    hPoses.runToStop (provides_of_mem_contents (by simp [contents])) rfl hStart hComputes hEnd source
  exact ⟨built, n, last, hBuild, hText, hOnes ▸ hRun⟩

/-- Two is doubled by a program that has a rule of its own on either side of the composition. -/
theorem Library.double_doubles_two :
    let ofTexts (texts : List String) : List Field := texts.map fun text => ⟨text, none⟩
    let records : List Record :=
      [.rule none (ofTexts ["p", "0", "1", "L", "q7"]), .tape none (ofTexts ["1", "1", "1"]),
        .composition none [⟨"double", none⟩], .finalStates none [⟨"q8", none⟩],
        .rule none (ofTexts ["q9", "1", "1", "N", "q9"]), .initialState none ⟨"q0", none⟩]
    Library.double.Poses (strokes 3) records ∧
      ∃ built n last, buildRecords records "" = .ok built ∧
        ∀ limit ≥ n, built.machine.runToStop limit = .ok (some (.defined n 4, last)) := by
  intro ofTexts records
  have hPoses : Library.double.Poses (strokes 3) records := by
    refine .intro none none none none (ofTexts ["1", "1", "1"]) ⟨"q0", none⟩ ⟨"q8", none⟩
      ⟨"double", none⟩ [.rule none (ofTexts ["p", "0", "1", "L", "q7"]),
        .rule none (ofTexts ["q9", "1", "1", "N", "q9"])] (by decide) rfl rfl rfl rfl ?_
    intro r hr
    rcases List.mem_pair.1 hr with rfl | rfl
    · exact ⟨_, _, _, rfl, rfl, by decide⟩
    · exact ⟨_, _, _, rfl, rfl, by decide⟩
  obtain ⟨built, n, last, hBuild, -, hRun⟩ := Library.double_doubles 2 "" hPoses
  refine ⟨hPoses, built, n, last, hBuild, fun limit hEnough => ?_⟩
  rw [hRun limit, if_pos hEnough]

end TapeMachine
