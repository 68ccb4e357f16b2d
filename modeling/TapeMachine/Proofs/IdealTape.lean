import Mathlib.Logic.Function.Basic
import TapeMachine.Proofs.Stepping

/-!
# Machines on a Tape without Ends

The textbook machine has a tape that is infinite in both directions. Seen from the head, its
configuration is a state and a value for every distance. A stored tape that grows when the head
comes near an end refines it: the view of the stored tape goes through the configurations of the
textbook machine, whatever the position of the head and whether or not the margin was there.

* `Configuration.next?` is one step of the textbook machine;
* `Tape.view_move` and `Tape.view_restoreMargin`: moving the head shifts the view, growth leaves it;
* `Machine.advance_refines_ideal`: steps of the stored machine are steps of the textbook machine.
-/

namespace TapeMachine

/-! ## §1 The Textbook Machine -/

/-- By how many cells a movement shifts the head to the right. -/
def Movement.offset : Movement → Int
  | .right => 1
  | .left => -1
  | .halt => 0

/-- A state, and the value at every distance from the head. -/
structure Configuration where
  state : String
  cells : Int → Bool

namespace Configuration

variable (table : Table) (finals : List String)

/-- The rule for a configuration: the one of the table, or in a final state the one that writes the
value that is there, stays in place and keeps the state. -/
def rule? (c : Configuration) : Option Rule :=
  match table.get? (c.state, c.cells 0) with
  | some r => some r
  | none =>
    if c.state ∈ finals then some ⟨c.state, c.cells 0, c.cells 0, .halt, c.state⟩ else none

/-- Writes at distance 0, moves, and goes to the next state. -/
def obey (c : Configuration) (r : Rule) : Configuration where
  state := r.next
  cells := fun distance => Function.update c.cells 0 r.write (distance + r.movement.offset)

/-- The configuration after one step, if there is a rule for it. -/
def next? (c : Configuration) : Option Configuration := (c.rule? table finals).map c.obey

/-- The configuration after one step; without a rule it stays as it is. -/
def next (c : Configuration) : Configuration := (c.next? table finals).getD c

end Configuration

/-- A machine as a configuration of the textbook machine. -/
def Machine.configuration (m : Machine) : Configuration := ⟨m.state, m.tape.view⟩

/-! ## §2 Views of Moved Tapes -/

namespace Tape

/-- Moving the head shifts the view, also where the tape grows for it. -/
theorem view_move (t : Tape) (movement : Movement) (distance : Int) :
    (t.move movement).view distance = t.view (distance + movement.offset) := by
  cases movement with
  | halt => simp [move, Movement.offset]
  | left =>
    by_cases hHead : t.head = 0
    · -- A new first cell takes the place of the head's cell, which stays at distance 1.
      simp only [move, if_pos hHead, Movement.offset]
      rcases Int.lt_trichotomy distance 0 with hd | rfl | hd
      · rw [view_of_neg _ _ (by dsimp only; omega), view_of_neg t _ (by omega)]
      · rw [view_eq _ 0 t.head (by simp), view_of_neg t _ (by omega), hHead]
        rfl
      · obtain ⟨i, rfl⟩ : ∃ i : Nat, distance = i + 1 := ⟨(distance - 1).toNat, by omega⟩
        rw [view_eq _ _ (i + 1) (by dsimp only; omega), view_eq t _ i (by omega),
          List.getElem?_cons_succ]
    · simp only [move, if_neg hHead, Movement.offset, view]
      have hIndex : ((t.head - 1 : Nat) : Int) + distance = t.head + (distance + -1) := by omega
      rw [hIndex]
      rfl
  | right =>
    have hIndex : ((t.head + 1 : Nat) : Int) + distance = t.head + (distance + 1) := by omega
    by_cases hEnd : t.head + 1 = t.cells.length
    · simp only [move, if_pos hEnd, Movement.offset]
      by_cases hNeg : (t.head : Int) + (distance + 1) < 0
      · rw [view_of_neg _ _ (by dsimp only; omega), view_of_neg t _ hNeg]
      · obtain ⟨i, hi⟩ : ∃ i : Nat, (i : Int) = t.head + (distance + 1) :=
          ⟨((t.head : Int) + (distance + 1)).toNat, by omega⟩
        rw [view_eq _ _ i (by dsimp only; omega), view_eq t _ i hi]
        -- The cell that was added holds 0, like all cells that are not stored.
        by_cases hStored : i < t.cells.length
        · rw [List.getElem?_append_left hStored]
        · have hNone : t.cells[i]? = none := List.getElem?_eq_none (by omega)
          rw [List.getElem?_append_right (by omega), hNone]
          exact getD_replicate_false 1 _
    · simp only [move, if_neg hEnd, Movement.offset, view]
      rw [hIndex]
      rfl

/-- The view after a rule: one value is written, and the movement shifts them all. -/
theorem view_obey {t : Tape} (hCell : t.OnCell) (r : Rule) :
    ((t.put r.write).move r.movement).restoreMargin.view =
      fun distance => Function.update t.view 0 r.write (distance + r.movement.offset) := by
  funext distance
  rw [view_restoreMargin, view_move, view_put hCell, Function.update_apply]

end Tape

/-! ## §3 The Refinement -/

namespace Machine

/-- The rule in force is the one of the textbook machine. -/
theorem rule?_configuration (m : Machine) :
    m.configuration.rule? m.table m.finals = m.ruleInForce := by
  unfold Configuration.rule? ruleInForce finished
  simp only [configuration, List.contains_iff_mem]
  cases m.table.get? (m.state, m.tape.view 0) with
  | none => rfl
  | some r => rfl

/-- Obeying a rule commutes with the view. -/
theorem configuration_obey {m : Machine} (hCell : m.tape.OnCell) (r : Rule) :
    (m.obey r).configuration = m.configuration.obey r := by
  unfold configuration obey Configuration.obey
  rw [Tape.view_obey hCell]

/-- A step that applies a rule is a step of the textbook machine. -/
theorem next?_configuration {m : Machine} (hCell : m.tape.OnCell)
    (hDefined : m.outcome ≠ .undefined) :
    m.configuration.next? m.table m.finals = some m.successor.configuration := by
  unfold Configuration.next? successor
  rw [rule?_configuration]
  cases hRule : m.ruleInForce with
  | none => exact absurd ((outcome_eq_undefined_iff m).2 hRule) hDefined
  | some r => rw [Option.map_some, configuration_obey hCell]

/-- One step of both machines, also where neither has a rule. -/
theorem configuration_successor {m : Machine} (hCell : m.tape.OnCell) :
    m.successor.configuration = m.configuration.next m.table m.finals := by
  unfold Configuration.next
  by_cases hOutcome : m.outcome = .undefined
  · have hNone := (outcome_eq_undefined_iff m).1 hOutcome
    rw [Configuration.next?, rule?_configuration, hNone, successor_of_undefined hOutcome]
    rfl
  · rw [next?_configuration hCell hOutcome, Option.getD_some]

/-- Any number of steps of both machines. -/
theorem configuration_iterate {m : Machine} (hCell : m.tape.OnCell) (n : Nat) :
    (successor^[n] m).configuration =
      (Configuration.next m.table m.finals)^[n] m.configuration := by
  induction n with
  | zero => rfl
  | succ n ih =>
    rw [Function.iterate_succ_apply', Function.iterate_succ_apply',
      configuration_successor (onCell_iterate hCell n), table_iterate, finals_iterate, ih]

/-- **Refinement**: seen from the head, the stored machine is the textbook machine. A step is
undefined exactly when there is no rule, and then it changes nothing; any other step leads to the
view that the textbook machine reaches, and says whether its state is final. So after any number
of steps the view is the configuration of the textbook machine after as many. -/
theorem advance_refines_ideal (m : Machine) (hHead : m.tape.head < m.tape.cells.length) :
    ∃ outcome next, m.advance = .ok (outcome, next) ∧
      (outcome = .undefined ↔
        m.table.get? (m.state, m.tape.view 0) = none ∧ m.state ∉ m.finals) ∧
      (outcome = .undefined → next = m) ∧
      (outcome ≠ .undefined →
        m.configuration.next? m.table m.finals = some next.configuration ∧
          (outcome = .final ↔ next.state ∈ m.finals) ∧
          (outcome = .ongoing ↔ next.state ∉ m.finals)) ∧
      ∀ n, ∃ later, m.afterCalls n = .ok later ∧
        later.configuration = (Configuration.next m.table m.finals)^[n] m.configuration := by
  refine ⟨m.outcome, m.successor, advance_eq hHead, ?_, successor_of_undefined, ?_, ?_⟩
  · rw [outcome_eq_undefined_iff, ruleInForce_eq_none_iff]
  · intro hDefined
    refine ⟨next?_configuration hHead hDefined, ?_⟩
    have hFinished : m.successor.finished = true ↔ m.successor.state ∈ m.finals := by
      simp [finished]
    rw [outcome_of_defined hDefined, ← hFinished]
    cases m.successor.finished <;> simp
  · intro n
    exact ⟨successor^[n] m, afterCalls_eq hHead n, configuration_iterate hHead n⟩

/-- The refinement on the last cell of a tape without margins, where the step makes the tape grow
on both sides. -/
theorem advance_refines_ideal_on_last_cell :
    let m : Machine :=
      { table := .ofList [⟨"a", true, false, .right, "b"⟩]
        finals := ["b"], state := "a", tape := ⟨[true, true], 1⟩ }
    m.tape.head < m.tape.cells.length ∧
      ∃ next, m.advance = .ok (.final, next) ∧
        m.configuration.next? m.table m.finals = some next.configuration := by
  intro m
  have hHead : m.tape.head < m.tape.cells.length := by decide
  obtain ⟨outcome, next, hAdvance, -, -, hNext, -⟩ := advance_refines_ideal m hHead
  have hOutcome : m.advance.map Prod.fst = .ok .final := rfl
  rw [hAdvance] at hOutcome
  obtain rfl : outcome = .final := Except.ok.inj hOutcome
  exact ⟨hHead, next, hAdvance, (hNext (by decide)).1⟩

end Machine

end TapeMachine
