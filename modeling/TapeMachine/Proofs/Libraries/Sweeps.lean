import Mathlib.Logic.Function.Iterate
import TapeMachine.Proofs.Libraries.Problems

/-!
# Libraries that Sweep Once

Three libraries go over their arguments once, from left to right. The one that adds erases a 1 of
both arguments on its way. The ones that halve and take the remainder by two go over their argument
in pairs of cells, and are the same but for two values: what is left of the second cell of a pair,
and what is written behind a cell that is left over.

* `Sweeps.adds`: the run of the library that adds;
* `Sweeps.pairs`: any number of pairs, by induction;
* `Sweeps.counts_pairs`: the run over an argument in pairs, by its parity;
* `Library.sweeps_answer`: what programs that pose problems to the three libraries stop with, and
  after how many steps.
-/

namespace TapeMachine

open Scene Library

namespace Sweeps

/-! ## §1 Adding -/

/-- From the initial to the final state the library leaves the sum, and makes three steps besides
those over the first argument. -/
theorem adds (a b : Nat) :
    ∃ d, Computes sumRules (a + 3) ⟨"q0", [], strokes (a + 1) ++ false :: strokes (b + 1)⟩ d ∧
      d.state = "q2" ∧ d.ones = a + b := by
  have hFirst : Computes sumRules 1 ⟨"q0", [], strokes (a + 1) ++ false :: strokes (b + 1)⟩
      ⟨"q1", [false], strokes a ++ false :: strokes (b + 1)⟩ :=
    .one ⟨"q0", true, false, .right, "q1"⟩ (by decide) rfl
  have hPass : Computes sumRules a ⟨"q1", [false], strokes a ++ false :: strokes (b + 1)⟩
      ⟨"q1", strokes a ++ [false], false :: strokes (b + 1)⟩ :=
    sweep_right (by decide) a [false] (false :: strokes (b + 1))
  -- Behind the separator, the first 1 of the second argument is erased.
  have hSecond : Computes sumRules 2 ⟨"q1", strokes a ++ [false], false :: strokes (b + 1)⟩
      ⟨"q2", false :: (strokes a ++ [false]), false :: strokes b⟩ :=
    .step ⟨"q1", false, false, .right, "q3"⟩ (by decide) rfl
      (.one ⟨"q3", true, false, .halt, "q2"⟩ (by decide) rfl)
  have hSteps : 1 + (a + 2) = a + 3 := by omega
  refine ⟨_, hSteps ▸ hFirst.trans (hPass.trans hSecond), rfl, ?_⟩
  simp [ones]

/-! ## §2 Pairs of Cells -/

/-- The rules that take an argument in pairs: the first cell of a pair is erased, the second gets
the value `kept`, and behind a cell that is left over the value `last` is written. -/
def pairRules (kept last : Bool) : List Rule :=
  [⟨"q0", true, false, .right, "q1"⟩,
    ⟨"q1", true, false, .right, "q2"⟩, ⟨"q1", false, false, .halt, "q3"⟩,
    ⟨"q2", true, kept, .right, "q1"⟩, ⟨"q2", false, last, .halt, "q3"⟩]

theorem mod2Rules_eq : mod2Rules = pairRules false true := rfl

theorem div2Rules_eq : div2Rules = pairRules true false := rfl

/-- What a pair leaves behind the head. -/
def leavePair (kept : Bool) (left : List Bool) : List Bool := kept :: false :: left

/-- One cell of each pair holds 1 afterwards, or none. -/
theorem count_leavePair (kept : Bool) (k : Nat) (left : List Bool) :
    ((leavePair kept)^[k] left).count true = left.count true + kept.toNat * k := by
  induction k with
  | zero => simp
  | succ k ih =>
    rw [Function.iterate_succ_apply', leavePair, List.count_cons, List.count_cons, ih]
    cases kept with
    | false => simp
    | true => simp [Nat.add_assoc]

variable (kept last : Bool)

/-- **Any number of pairs**, each in two steps. -/
theorem pairs (k : Nat) (left right : List Bool) :
    Computes (pairRules kept last) (2 * k) ⟨"q1", left, strokes (2 * k) ++ right⟩
      ⟨"q1", (leavePair kept)^[k] left, right⟩ := by
  -- What has been passed lies on the left, so the induction is for any cells there.
  induction k generalizing left with
  | zero => exact .stay _
  | succ k ih =>
    have hErase : Computes (pairRules kept last) 1 ⟨"q1", left, strokes (2 * (k + 1)) ++ right⟩
        ⟨"q2", false :: left, strokes (2 * k + 1) ++ right⟩ :=
      .one ⟨"q1", true, false, .right, "q2"⟩ (by simp [pairRules]) rfl
    have hKeep : Computes (pairRules kept last) 1 ⟨"q2", false :: left, strokes (2 * k + 1) ++ right⟩
        ⟨"q1", leavePair kept left, strokes (2 * k) ++ right⟩ :=
      .one ⟨"q2", true, kept, .right, "q1"⟩ (by simp [pairRules]) rfl
    have hSteps : 1 + (1 + 2 * k) = 2 * (k + 1) := by omega
    exact hSteps ▸ hErase.trans (hKeep.trans (ih (leavePair kept left)))

/-- From the initial to the final state a cell is left for each pair, or one for a cell that is left
over, and two steps are made besides those over the pairs and this cell. -/
theorem counts_pairs (a : Nat) :
    ∃ d, Computes (pairRules kept last) (a + 2) ⟨"q0", [], strokes (a + 1)⟩ d ∧
      d.state = "q3" ∧ d.ones = kept.toNat * (a / 2) + last.toNat * (a % 2) := by
  have hFirst : Computes (pairRules kept last) 1 ⟨"q0", [], strokes (a + 1)⟩
      ⟨"q1", [false], strokes a⟩ :=
    .one ⟨"q0", true, false, .right, "q1"⟩ (by simp [pairRules]) rfl
  have hPairs := pairs kept last (a / 2) [false] (strokes (a % 2))
  rw [← List.replicate_add, Nat.div_add_mod] at hPairs
  have hStart := hFirst.trans hPairs
  rcases Nat.mod_two_eq_zero_or_one a with hEven | hOdd
  · -- No cell is left over.
    rw [hEven] at hStart ⊢
    have hHalt : Computes (pairRules kept last) 1 ⟨"q1", (leavePair kept)^[a / 2] [false], strokes 0⟩
        ⟨"q3", (leavePair kept)^[a / 2] [false], [false]⟩ :=
      .one ⟨"q1", false, false, .halt, "q3"⟩ (by simp [pairRules]) rfl
    have hSteps : 1 + 2 * (a / 2) + 1 = a + 2 := by omega
    refine ⟨_, hSteps ▸ hStart.trans hHalt, rfl, ?_⟩
    simp [ones, count_leavePair]
  · -- A cell is left over and erased, and the last value goes behind it.
    rw [hOdd] at hStart ⊢
    have hOver : Computes (pairRules kept last) 2 ⟨"q1", (leavePair kept)^[a / 2] [false], strokes 1⟩
        ⟨"q3", false :: (leavePair kept)^[a / 2] [false], [last]⟩ :=
      .step ⟨"q1", true, false, .right, "q2"⟩ (by simp [pairRules]) rfl
        (.one ⟨"q2", false, last, .halt, "q3"⟩ (by simp [pairRules]) rfl)
    have hSteps : 1 + 2 * (a / 2) + 2 = a + 2 := by omega
    refine ⟨_, hSteps ▸ hStart.trans hOver, rfl, ?_⟩
    cases last <;> simp [ones, count_leavePair]

end Sweeps

/-! ## §3 The Answers -/

/-- **Single sweeps**: a program that writes `a` and `b` on the tape and composes the library that
adds stops after `a + 3` steps with `a + b` cells with 1. One that writes `a` and composes the
library that takes the remainder by two, or the one that halves, stops after `a + 2` steps with the
remainder of `a` or with its half, rounded down. -/
theorem Library.sweeps_answer (a b : Nat) :
    Library.sum.Answers (strokes (a + 1) ++ false :: strokes (b + 1)) (a + 3) (a + b) ∧
      Library.mod2.Answers (strokes (a + 1)) (a + 2) (a % 2) ∧
      Library.div2.Answers (strokes (a + 1)) (a + 2) (a / 2) := by
  refine ⟨?_, ?_, ?_⟩
  · obtain ⟨d, hComputes, hEnd, hOnes⟩ := Sweeps.adds a b
    have hProvides : sum.Provides sumRules := provides_of_mem_contents (by simp [contents])
    exact hOnes ▸ answers_of_computes hProvides rfl hComputes hEnd
  · obtain ⟨d, hComputes, hEnd, hOnes⟩ := Sweeps.counts_pairs false true a
    rw [← Sweeps.mod2Rules_eq] at hComputes
    have hRemainder : d.ones = a % 2 := by simpa using hOnes
    have hProvides : mod2.Provides mod2Rules := provides_of_mem_contents (by simp [contents])
    exact hRemainder ▸ answers_of_computes hProvides rfl hComputes hEnd
  · obtain ⟨d, hComputes, hEnd, hOnes⟩ := Sweeps.counts_pairs true false a
    rw [← Sweeps.div2Rules_eq] at hComputes
    have hHalf : d.ones = a / 2 := by simpa using hOnes
    have hProvides : div2.Provides div2Rules := provides_of_mem_contents (by simp [contents])
    exact hHalf ▸ answers_of_computes hProvides rfl hComputes hEnd

/-- Three and one are added, and three is taken by two, by programs with a rule of their own on either
side of the declarations. -/
theorem Library.sweeps_answer_of_three :
    let ofTexts (texts : List String) : List Field := texts.map fun text => ⟨text, none⟩
    let records (l : Library) (cells : List Bool) : List Record :=
      [.rule none (ofTexts ["p", "0", "1", "L", "q7"]), .tape none (ofTexts (cells.map bitText)),
        .initialState none ⟨l.initialState, none⟩, .finalStates none [⟨l.finalState, none⟩],
        .composition none [⟨l.name, none⟩], .rule none (ofTexts ["q4", "1", "1", "N", "q0"])]
    let stops (l : Library) (cells : List Bool) (output : Output) : Prop :=
      l.Poses cells (records l cells) ∧
        ∃ built last, buildRecords (records l cells) "" = .ok built ∧
          built.machine.runToStop 6 = .ok (some (output, last))
    stops .sum (strokes 4 ++ false :: strokes 2) (.defined 6 4) ∧
      stops .mod2 (strokes 4) (.defined 5 1) ∧ stops .div2 (strokes 4) (.defined 5 1) := by
  intro ofTexts records stops
  have hStops {l : Library} {cells : List Bool} {steps count : Nat}
      (hAnswers : l.Answers cells steps count) (hSteps : steps ≤ 6)
      (hSpares : "p" ∉ l.usedStates ∧ "q4" ∉ l.usedStates) :
      stops l cells (.defined steps count) := by
    have hOrder : (records l cells).Perm
        (.tape none (ofTexts (cells.map bitText)) :: .initialState none ⟨l.initialState, none⟩ ::
          .finalStates none [⟨l.finalState, none⟩] :: .composition none [⟨l.name, none⟩] ::
          [.rule none (ofTexts ["p", "0", "1", "L", "q7"]),
            .rule none (ofTexts ["q4", "1", "1", "N", "q0"])]) :=
      (@List.perm_middle _ _ [_, _, _, _] _).symm
    have hTexts : (ofTexts (cells.map bitText)).map Field.text = cells.map bitText := by
      simp [ofTexts, Function.comp_def]
    have hPoses : l.Poses cells (records l cells) := by
      refine .intro none none none none _ _ _ _ _ hOrder hTexts rfl rfl rfl ?_
      intro r hr
      rcases List.mem_pair.1 hr with rfl | rfl
      · exact ⟨_, _, _, rfl, rfl, hSpares.1⟩
      · exact ⟨_, _, _, rfl, rfl, hSpares.2⟩
    obtain ⟨built, last, hBuild, -, hRun⟩ := hAnswers _ "" hPoses
    exact ⟨hPoses, built, last, hBuild, by rw [hRun, if_pos hSteps]⟩
  obtain ⟨hSum, hRemainder, hHalf⟩ := Library.sweeps_answer 3 1
  exact ⟨hStops hSum (by decide) (by decide), hStops hRemainder (by decide) (by decide),
    hStops hHalf (by decide) (by decide)⟩

end TapeMachine
