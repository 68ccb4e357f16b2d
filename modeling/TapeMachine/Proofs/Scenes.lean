import TapeMachine.Proofs.IdealTape
import TapeMachine.Proofs.Runs

/-!
# Computations on Finite Scenes

What a machine computes is followed on scenes: configurations that hold 1 in finitely many cells,
written as two lists that meet at the head. A computation is a number of rules applied one after
the other; a sweep is one in which the same rule is applied all the way.

* `Scene.configuration_obey`: applying a rule to a scene is applying it to the configuration;
* `Scene.Computes` relates two scenes by the rules applied between them;
* `Scene.sweep_right` and `Scene.sweep_left`: sweeps over any number of equal cells;
* `Machine.runToStop_of_computes`: a machine that has the rules makes the computation, and stops
  with as many cells with 1 as the last scene has.
-/

namespace TapeMachine

/-! ## §1 Scenes -/

/-- A state, the cells on the left of the head with the nearest first, and the cells from the head
on. All other cells hold 0. -/
structure Scene where
  state : String
  left : List Bool
  right : List Bool

/-- A number of cells with 1. -/
abbrev strokes (n : Nat) : List Bool := List.replicate n true

/-- A number of cells with 0. -/
abbrev blanks (n : Nat) : List Bool := List.replicate n false

/-- One more of the same cells goes to the others. -/
theorem replicate_append_cons (value : Bool) (n : Nat) (cells : List Bool) :
    List.replicate n value ++ value :: cells = List.replicate (n + 1) value ++ cells := by
  rw [List.replicate_succ', List.append_assoc, List.singleton_append]

namespace Scene

/-- The value at a distance from the head. -/
def cells (c : Scene) : Int → Bool
  | .ofNat i => (c.right[i]?).getD false
  | .negSucc i => (c.left[i]?).getD false

/-- The configuration that a scene describes. -/
def configuration (c : Scene) : Configuration := ⟨c.state, c.cells⟩

/-- The value under the head. -/
def value (c : Scene) : Bool := c.right.headD false

/-- How many cells hold 1. -/
def ones (c : Scene) : Nat := c.left.count true + c.right.count true

/-- The scene whose head has moved to the first of some cells on the left. -/
def leftward (state : String) (left right : List Bool) : Scene :=
  ⟨state, left.tail, left.headD false :: right⟩

/-- The scene after a rule. -/
def obey (c : Scene) (r : Rule) : Scene :=
  match r.movement with
  | .right => ⟨r.next, r.write :: c.left, c.right.tail⟩
  | .left => leftward r.next c.left (r.write :: c.right.tail)
  | .halt => ⟨r.next, c.left, r.write :: c.right.tail⟩

theorem cells_zero (c : Scene) : c.cells 0 = c.value := by
  show (c.right[0]?).getD false = c.right.headD false
  cases c.right <;> rfl

/-- Cells with 0 at the end of a scene do not show. -/
theorem configuration_append_blank (state : String) (left right : List Bool) :
    (Scene.mk state left (right ++ [false])).configuration =
      (Scene.mk state left right).configuration := by
  unfold configuration
  congr 1
  funext distance
  cases distance with
  | negSucc i => rfl
  | ofNat i =>
    show ((right ++ [false])[i]?).getD false = (right[i]?).getD false
    by_cases hInside : i < right.length
    · rw [List.getElem?_append_left hInside]
    · rw [List.getElem?_append_right (by omega), List.getElem?_eq_none (by omega : right.length ≤ i)]
      exact Tape.getD_replicate_false 1 _

/-- Writing under the head changes the value there only. -/
theorem cells_write (state : String) (left right : List Bool) (write : Bool) :
    (Scene.mk state left (write :: right.tail)).cells =
      Function.update (Scene.mk state left right).cells 0 write := by
  funext distance
  match distance with
  | .ofNat 0 => rfl
  | .ofNat (i + 1) =>
    rw [Function.update_of_ne (by simp; omega)]
    show (right.tail[i]?).getD false = (right[i + 1]?).getD false
    rw [List.getElem?_tail]
  | .negSucc i =>
    rw [Function.update_of_ne (by simp)]
    rfl

/-- A step to the right passes one cell. -/
theorem cells_rightward (state : String) (value : Bool) (left right : List Bool) (distance : Int) :
    (Scene.mk state (value :: left) right).cells distance =
      (Scene.mk state left (value :: right)).cells (distance + 1) := by
  match distance with
  | .ofNat i => rfl
  | .negSucc 0 => rfl
  | .negSucc (i + 1) => rfl

/-- A step to the left passes one cell. -/
theorem cells_leftward (state : String) (left right : List Bool) (distance : Int) :
    (leftward state left right).cells distance =
      (Scene.mk state left right).cells (distance + -1) := by
  match distance with
  | .ofNat 0 => cases left <;> rfl
  | .ofNat (i + 1) =>
    have hIndex : Int.ofNat (i + 1) + -1 = Int.ofNat i := by
      show ((i : Int) + 1) + -1 = i
      omega
    rw [hIndex]
    rfl
  | .negSucc i =>
    show (left.tail[i]?).getD false = (left[i + 1]?).getD false
    rw [List.getElem?_tail]

/-- Obeying a rule commutes with the description. -/
theorem configuration_obey (c : Scene) (r : Rule) :
    (c.obey r).configuration = c.configuration.obey r := by
  obtain ⟨state, left, right⟩ := c
  obtain ⟨_, _, write, movement, next⟩ := r
  unfold configuration Configuration.obey
  dsimp only
  rw [← cells_write]
  cases movement with
  | right =>
    congr 1
    funext distance
    exact cells_rightward next write left right.tail distance
  | left =>
    congr 1
    funext distance
    exact cells_leftward next left (write :: right.tail) distance
  | halt =>
    congr 1
    funext distance
    rw [Movement.offset, Int.add_zero]
    rfl

/-! ## §2 Computations -/

/-- So many rules of a list, applied one after the other, lead from one scene to another. -/
inductive Computes (rules : List Rule) : Nat → Scene → Scene → Prop where
  | stay (c : Scene) : Computes rules 0 c c
  | step {n : Nat} {c d : Scene} (r : Rule) : r ∈ rules → r.key = (c.state, c.value) →
      Computes rules n (c.obey r) d → Computes rules (n + 1) c d

namespace Computes

variable {rules : List Rule} {n k : Nat} {c d e : Scene}

/-- One rule. -/
theorem one (r : Rule) (hMem : r ∈ rules) (hKey : r.key = (c.state, c.value)) :
    Computes rules 1 c (c.obey r) :=
  step r hMem hKey (stay _)

theorem trans (hFirst : Computes rules n c d) (hRest : Computes rules k d e) :
    Computes rules (n + k) c e := by
  induction hFirst with
  | stay c => rwa [Nat.zero_add]
  | step r hMem hKey _ ih =>
    rw [Nat.add_right_comm]
    exact step r hMem hKey (ih hRest)

end Computes

variable {rules : List Rule} {state : String} {value write : Bool}

/-- **Sweeping right** over equal cells. -/
theorem sweep_right (hRule : ⟨state, value, write, .right, state⟩ ∈ rules) (n : Nat)
    (left right : List Bool) :
    Computes rules n ⟨state, left, List.replicate n value ++ right⟩
      ⟨state, List.replicate n write ++ left, right⟩ := by
  -- What has been passed lies on the left, so the induction is for any cells there.
  induction n generalizing left with
  | zero => exact .stay _
  | succ n ih =>
    rw [← replicate_append_cons write]
    exact .step _ hRule rfl (ih (write :: left))

/-- **Sweeping left** over equal cells, when the head has just come from the right. -/
theorem sweep_left (hRule : ⟨state, value, write, .left, state⟩ ∈ rules) (n : Nat)
    (left right : List Bool) :
    Computes rules n (leftward state (List.replicate n value ++ left) right)
      (leftward state left (List.replicate n write ++ right)) := by
  induction n generalizing right with
  | zero => exact .stay _
  | succ n ih =>
    rw [← replicate_append_cons write]
    exact .step _ hRule rfl (ih (write :: right))

end Scene

/-! ## §3 Machines that Compute -/

/-- Lists that agree in all cells, with 0 behind their ends, have the same number of cells with 1. -/
theorem count_true_eq {cells other : List Bool}
    (hAgree : ∀ i : Nat, (cells[i]?).getD false = (other[i]?).getD false) :
    cells.count true = other.count true := by
  induction cells generalizing other with
  | nil =>
    -- Nothing but 0 can stand in the other list.
    have hNone : true ∉ other := by
      intro hMem
      obtain ⟨i, hi⟩ := List.mem_iff_getElem?.1 hMem
      have hCell := hAgree i
      rw [hi] at hCell
      cases hCell
    rw [List.count_nil, List.count_eq_zero_of_not_mem hNone]
  | cons value cells ih =>
    cases other with
    | nil =>
      obtain rfl : value = false := hAgree 0
      rw [List.count_cons_of_ne (by decide)]
      exact ih fun i => hAgree (i + 1)
    | cons value' other =>
      obtain rfl : value = value' := hAgree 0
      rw [List.count_cons, List.count_cons, ih fun i => hAgree (i + 1)]

/-- With the head on the first cell, a tape looks like its cells. -/
theorem Tape.view_first (state : String) (cells : List Bool) :
    (Tape.mk cells 0).view = (Scene.mk state [] cells).cells := by
  funext distance
  cases distance with
  | ofNat i =>
    rw [view_eq _ _ i (by simp)]
    rfl
  | negSucc i =>
    rw [view_of_neg _ _ (by simp)]
    rfl

/-- A tape that a scene describes has as many cells with 1 as the scene. -/
theorem Tape.ones_eq_of_view {t : Tape} (hCell : t.OnCell) {c : Scene} (hView : t.view = c.cells) :
    t.ones = c.ones := by
  have hRight : (t.cells.drop t.head).count true = c.right.count true := by
    apply count_true_eq
    intro i
    have hIndex := congrFun hView (Int.ofNat i)
    rw [view_eq t _ (t.head + i) (by simp)] at hIndex
    rw [List.getElem?_drop]
    exact hIndex
  have hLeft : (t.cells.take t.head).reverse.count true = c.left.count true := by
    apply count_true_eq
    intro i
    have hIndex := congrFun hView (Int.negSucc i)
    by_cases hInside : i < t.head
    · rw [view_eq t _ (t.head - 1 - i) (by omega)] at hIndex
      have hLength : (t.cells.take t.head).length = t.head :=
        List.length_take_of_le (Nat.le_of_lt hCell)
      rw [List.getElem?_reverse (by omega), hLength, List.getElem?_take_of_lt (by omega)]
      exact hIndex
    · -- Left of the first cell there is nothing but 0.
      rw [view_of_neg t _ (by omega)] at hIndex
      have hNone : (t.cells.take t.head).reverse[i]? = none :=
        List.getElem?_eq_none (by rw [List.length_reverse, List.length_take]; omega)
      rw [hNone]
      exact hIndex
  rw [List.count_reverse] at hLeft
  unfold Scene.ones
  rw [← hLeft, ← hRight, ← List.count_append, List.take_append_drop]
  rfl

namespace Machine

open Scene

variable {m : Machine} {rules : List Rule} {n : Nat} {c d : Scene}

/-- A machine that has the rules makes the steps of a computation, all outside final states. -/
theorem walks_of_computes (hComputes : Computes rules n c d) (hCell : m.tape.OnCell)
    (hStart : m.configuration = c.configuration)
    (hTable : ∀ r ∈ rules, m.table.get? r.key = some r) (hFinals : ∀ r ∈ rules, r.state ∉ m.finals) :
    m.Walks n ∧ (successor^[n] m).configuration = d.configuration := by
  induction hComputes generalizing m with
  | stay c => exact ⟨walks_zero m, hStart⟩
  | @step n c d r hMem hKey _ ih =>
    have hState : m.state = c.state := congrArg Configuration.state hStart
    have hValue : m.tape.view 0 = c.value := by
      rw [← cells_zero]
      exact congrFun (congrArg Configuration.cells hStart) 0
    -- The rule in force is the one that the computation applies.
    have hRule : m.ruleInForce = some r := by
      unfold ruleInForce
      rw [hState, hValue, ← hKey, hTable r hMem, Option.some_or]
    have hGoing : m.finished = false := by
      have hNot := hFinals r hMem
      have hSame : r.state = c.state := congrArg Prod.fst hKey
      rw [hSame, ← hState] at hNot
      simpa [finished] using hNot
    have hBehind : m.successor.configuration = (c.obey r).configuration := by
      rw [successor_of_rule hRule, configuration_obey hCell, hStart, Scene.configuration_obey]
    obtain ⟨hWalk, hEnd⟩ := ih (onCell_successor hCell) hBehind (by simpa using hTable)
      (by simpa using hFinals)
    exact ⟨walks_succ_iff.2 ⟨⟨hGoing, outcome_of_rule hRule⟩, hWalk⟩, hEnd⟩

/-- Short of its steps, a walk is not answered. -/
theorem runToStop_of_walk_of_lt (hCell : m.tape.OnCell) (hWalk : m.Walks n) {limit : Nat}
    (hShort : limit < n) : m.runToStop limit = .ok none := by
  have hPart : m.Walks limit := fun i hi => hWalk i (by omega)
  have hRun := runFrom_of_walk hCell hPart 0 0
  rw [Nat.zero_add] at hRun
  rw [runToStop, hRun, runFrom, (hWalk limit hShort).1]
  rfl

/-- **Machines that compute**: a machine that has the rules of a computation stops where that
leads, after as many steps, with the cells with 1 of the last scene. -/
theorem runToStop_of_computes (hComputes : Computes rules n c d) (hCell : m.tape.OnCell)
    (hStart : m.configuration = c.configuration)
    (hTable : ∀ r ∈ rules, m.table.get? r.key = some r) (hFinals : ∀ r ∈ rules, r.state ∉ m.finals)
    (hEnd : d.state ∈ m.finals) :
    ∃ last, ∀ limit, m.runToStop limit =
      .ok (if n ≤ limit then some (.defined n d.ones, last) else none) := by
  obtain ⟨hWalk, hLast⟩ := walks_of_computes hComputes hCell hStart hTable hFinals
  have hFinished : (successor^[n] m).finished = true := by
    have hState : (successor^[n] m).state = d.state := congrArg Configuration.state hLast
    simpa [finished, hState, finals_iterate] using hEnd
  have hOnes : (successor^[n] m).tape.ones = d.ones :=
    Tape.ones_eq_of_view (onCell_iterate hCell n) (congrArg Configuration.cells hLast)
  refine ⟨successor^[n] m, fun limit => ?_⟩
  by_cases hEnough : n ≤ limit
  · obtain ⟨extra, rfl⟩ := Nat.exists_eq_add_of_le' hEnough
    rw [if_pos hEnough, runToStop_of_walk_to_final hCell hWalk hFinished, hOnes]
  · rw [if_neg hEnough, runToStop_of_walk_of_lt hCell hWalk (by omega)]

end Machine

end TapeMachine
