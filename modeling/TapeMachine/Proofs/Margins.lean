import TapeMachine.Proofs.Calls
import TapeMachine.Proofs.IdealTape

/-!
# Margins

The head of a machine always has three cells on either side, whatever is done to the machine from
outside. So a step never has to add the cell that the head moves to: it adds one cell at most, on
the side to which the head has moved, to restore the margin.

* `Tape.HasMargin` is the margin, and `Tape.cells_move` says that moving within it adds no cell;
* `Tape.exists_growth`: how a tape with its margin grows in one step;
* `Machine.hasMargin_after` and `Machine.hasMargin_afterAll`: calls keep the margin;
* `Machine.margin_and_growth` puts these together.
-/

namespace TapeMachine

/-! ## §1 Tapes with Their Margin -/

namespace Tape

/-- Three cells on the left of the head, and three on its right. -/
def HasMargin (t : Tape) : Prop := margin ≤ t.head ∧ t.head + margin < t.cells.length

variable {t : Tape}

theorem HasMargin.onCell (hMargin : t.HasMargin) : t.OnCell := by
  have hRight := hMargin.2
  unfold OnCell
  omega

theorem hasMargin_restoreMargin (t : Tape) : t.restoreMargin.HasMargin := margin_restoreMargin t

theorem HasMargin.put (hMargin : t.HasMargin) (value : Bool) : (t.put value).HasMargin := by
  have hLength : (t.put value).cells.length = t.cells.length := List.length_set
  exact ⟨hMargin.1, hLength ▸ hMargin.2⟩

/-- Within the margin, moving the head adds no cell. -/
theorem cells_move (hMargin : t.HasMargin) (movement : Movement) :
    (t.move movement).cells = t.cells := by
  obtain ⟨hLeft, hRight⟩ := hMargin
  unfold margin at hLeft hRight
  cases movement with
  | halt => rfl
  | left =>
    have hNotFirst : t.head ≠ 0 := by omega
    rw [move, if_neg hNotFirst]
  | right =>
    have hNotLast : t.head + 1 ≠ t.cells.length := by omega
    rw [move, if_neg hNotLast]

/-- Within the margin, the head moves by the offset of the movement. -/
theorem head_move (hMargin : t.HasMargin) (movement : Movement) :
    ((t.move movement).head : Int) = t.head + movement.offset := by
  obtain ⟨hLeft, hRight⟩ := hMargin
  unfold margin at hLeft hRight
  cases movement with
  | halt => simp [move, Movement.offset]
  | left =>
    have hNotFirst : t.head ≠ 0 := by omega
    rw [move, if_neg hNotFirst, Movement.offset]
    dsimp only
    omega
  | right =>
    have hNotLast : t.head + 1 ≠ t.cells.length := by omega
    rw [move, if_neg hNotLast, Movement.offset]
    dsimp only
    omega

/-- **Growth**: after a move within its margin, a tape gets one cell at most, on the side to which
the head has moved. -/
theorem exists_growth (hMargin : t.HasMargin) (movement : Movement) :
    ∃ i j : Nat, (t.move movement).restoreMargin.cells =
        List.replicate i false ++ t.cells ++ List.replicate j false ∧
      ((t.move movement).restoreMargin.head : Int) = t.head + movement.offset + i ∧
      i + j ≤ 1 ∧ (0 < i → movement = .left) ∧ (0 < j → movement = .right) := by
  have hCells := cells_move hMargin movement
  have hHead := head_move hMargin movement
  obtain ⟨hLeft, hRight⟩ := hMargin
  unfold margin at hLeft hRight
  unfold restoreMargin margin
  rw [hCells]
  refine ⟨_, _, rfl, ?_, ?_⟩
  · push_cast
    omega
  · rw [List.length_append, List.length_replicate]
    -- The head has moved by one cell at most, and so the margin is short by one at most.
    cases movement with
    | left =>
      rw [Movement.offset] at hHead
      exact ⟨by omega, fun _ => rfl, fun hAdded => by omega⟩
    | right =>
      rw [Movement.offset] at hHead
      exact ⟨by omega, fun hAdded => by omega, fun _ => rfl⟩
    | halt =>
      rw [Movement.offset] at hHead
      exact ⟨by omega, fun hAdded => by omega, fun hAdded => by omega⟩

end Tape

/-! ## §2 Machines with Their Margin -/

namespace Machine

variable {m : Machine}

/-- A fresh machine has its margin. -/
theorem hasMargin_of_fresh (hFresh : m.Fresh) : m.tape.HasMargin := by
  rcases hFresh with rfl | ⟨source, built, hBuild, rfl⟩
  · exact Tape.hasMargin_restoreMargin _
  · obtain ⟨p, -, hRecords⟩ := bind_eq_ok_iff.1 hBuild
    obtain ⟨draft, -, hBuilt⟩ := bind_eq_ok_iff.1 hRecords
    rw [← Except.ok.inj hBuilt]
    exact Tape.hasMargin_restoreMargin _

/-- A step leaves a machine with its margin. -/
theorem hasMargin_successor (hMargin : m.tape.HasMargin) : m.successor.tape.HasMargin := by
  unfold successor
  cases m.ruleInForce with
  | none => exact hMargin
  | some r => exact Tape.hasMargin_restoreMargin _

theorem hasMargin_iterate (hMargin : m.tape.HasMargin) (n : Nat) :
    (successor^[n] m).tape.HasMargin := by
  induction n with
  | zero => exact hMargin
  | succ n ih =>
    rw [Function.iterate_succ_apply']
    exact hasMargin_successor ih

/-- A call leaves a machine with its margin. -/
theorem hasMargin_after (hMargin : m.tape.HasMargin) {call : Call} {next : Machine}
    (hCall : m.after call = some next) : next.tape.HasMargin := by
  rcases after_cases hMargin.onCell hCall with
    ⟨n, rfl⟩ | hFresh | rfl | rfl | ⟨value, rfl⟩ | ⟨state, rfl⟩
  · exact hasMargin_iterate hMargin n
  · exact hasMargin_of_fresh hFresh
  · exact Tape.hasMargin_restoreMargin m.tape
  · exact hMargin
  · exact hMargin.put value
  · exact hMargin

/-- Any sequence of calls leaves a machine with its margin. -/
theorem hasMargin_afterAll (hMargin : m.tape.HasMargin) {calls : List Call} {last : Machine}
    (hCalls : m.afterAll calls = some last) : last.tape.HasMargin :=
  foldlM_keeps (fun later => later.tape.HasMargin)
    (fun hKept hCall => hasMargin_after hKept hCall) hMargin hCalls

/-- A machine with its margin gets longer by one cell at most in a step. -/
theorem length_successor_le (hMargin : m.tape.HasMargin) :
    m.successor.tape.cells.length ≤ m.tape.cells.length + 1 := by
  unfold successor
  cases m.ruleInForce with
  | none => exact Nat.le_succ _
  | some r =>
    obtain ⟨i, j, hCells, -, hOne, -⟩ := Tape.exists_growth (hMargin.put r.write) r.movement
    show ((m.tape.put r.write).move r.movement).restoreMargin.cells.length ≤ _
    rw [hCells, List.length_append, List.length_append, List.length_replicate,
      List.length_replicate, Tape.put, List.length_set]
    omega

theorem length_iterate_le (hMargin : m.tape.HasMargin) (n : Nat) :
    (successor^[n] m).tape.cells.length ≤ m.tape.cells.length + n := by
  induction n with
  | zero => exact Nat.le_refl _
  | succ n ih =>
    rw [Function.iterate_succ_apply']
    exact Nat.le_trans (length_successor_le (hasMargin_iterate hMargin n)) (Nat.succ_le_succ ih)

/-- **Margin and growth**: after any calls on a machine that was built or is halted, the head has
three cells on either side. A step that applies a rule does not fail. Moving the head adds no cell
to the tape that was written on, and restoring the margin adds one at most: on the left after a move
to the left, or on the right after a move to the right. So in any number of steps the tape gets
longer by one cell for each of them at most. -/
theorem margin_and_growth {start m : Machine} {calls : List Call} (hStart : start.Fresh)
    (hCalls : start.afterAll calls = some m) :
    (3 ≤ m.tape.head ∧ m.tape.head + 3 < m.tape.cells.length) ∧
    (∀ r, m.rule = .ok (some r) →
      (∀ movement, ((m.tape.put r.write).move movement).cells =
        m.tape.cells.set m.tape.head r.write) ∧
      ∃ outcome next, m.advance = .ok (outcome, next) ∧ outcome ≠ .undefined ∧
        ∃ i j : Nat, next.tape.cells =
            List.replicate i false ++ m.tape.cells.set m.tape.head r.write ++
              List.replicate j false ∧
          (next.tape.head : Int) = m.tape.head + r.movement.offset + i ∧
          i + j ≤ 1 ∧ (0 < i → r.movement = .left) ∧ (0 < j → r.movement = .right)) ∧
    ∀ n, ∃ later, m.afterCalls n = .ok later ∧
      later.tape.cells.length ≤ m.tape.cells.length + n := by
  have hMargin : m.tape.HasMargin := hasMargin_afterAll (hasMargin_of_fresh hStart) hCalls
  refine ⟨hMargin, fun r hRule => ⟨?_, ?_⟩, fun n => ?_⟩
  · exact Tape.cells_move (hMargin.put r.write)
  · rw [rule_eq hMargin.onCell] at hRule
    have hInForce : m.ruleInForce = some r := Except.ok.inj hRule
    have hDefined : m.outcome ≠ .undefined := by
      rw [Ne, outcome_eq_undefined_iff, hInForce]
      exact Option.some_ne_none r
    have hNext : m.successor = m.obey r := by
      unfold successor
      rw [hInForce]
    exact ⟨m.outcome, m.obey r, hNext ▸ advance_eq hMargin.onCell, hDefined,
      Tape.exists_growth (hMargin.put r.write) r.movement⟩
  · exact ⟨_, afterCalls_eq hMargin.onCell n, length_iterate_le hMargin n⟩

/-- A machine that walks to the right over cells that are written in front of it: the next step adds
one cell there. -/
theorem margin_and_growth_of_walk :
    let source := "\x7b1\x7d;I=\x7ba\x7d;F=\x7bb\x7d;(a,1,0,R,a);(a,0,1,L,b);"
    let start : Machine :=
      { table := .ofList [⟨"a", true, false, .right, "a"⟩, ⟨"a", false, true, .left, "b"⟩]
        finals := ["b"], state := "a", tape := ⟨[false, false, false, true, false, false, false], 3⟩
        source := some source }
    let m : Machine :=
      { start with
        tape := ⟨[false, false, false, false, true, false, false, false], 4⟩
        visits := ⟨[("a", 1)]⟩ }
    start.Fresh ∧ start.afterAll [.advance, .setCell true] = some m ∧
      m.rule = .ok (some ⟨"a", true, false, .right, "a"⟩) ∧
      ∃ outcome next, m.advance = .ok (outcome, next) ∧
        ∃ i j : Nat, next.tape.cells = List.replicate i false ++
            [false, false, false, false, false, false, false, false] ++ List.replicate j false ∧
          i + j ≤ 1 := by
  intro source start m
  have hBuild : build source = .ok ⟨start, []⟩ := eq_ok_of_toOption (by decide +kernel)
  have hFresh : start.Fresh := .inr ⟨source, _, hBuild, rfl⟩
  have hCalls : start.afterAll [.advance, .setCell true] = some m := by decide
  have hRule : m.rule = .ok (some ⟨"a", true, false, .right, "a"⟩) :=
    eq_ok_of_toOption (by decide +kernel)
  obtain ⟨-, hGrowth, -⟩ := margin_and_growth hFresh hCalls
  obtain ⟨-, outcome, next, hAdvance, -, i, j, hCells, -, hOne, -⟩ := hGrowth _ hRule
  exact ⟨hFresh, hCalls, hRule, outcome, next, hAdvance, i, j, hCells, hOne⟩

end Machine

end TapeMachine
