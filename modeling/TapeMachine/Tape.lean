import TapeMachine.Rule

/-!
# Tapes

A tape is a finite row of cells with a head over one of them. It stands for a tape without ends
whose other cells are all 0. Before each step there are at least three cells on either side of
the head; `restoreMargin` adds the ones that are missing.

* `Tape.view` is the tape without ends, seen from the head;
* `Tape.read` and `Tape.write` need a cell under the head (`TapeFault.headOffTape`);
* `Tape.values` reads the tape as numbers: a run of `n + 1` cells with 1 stands for `n`.
-/

namespace TapeMachine

/-- Cells, and the index of the one under the head, counted from 0. -/
structure Tape where
  cells : List Bool
  head : Nat
  deriving DecidableEq, Repr

/-- What can go wrong on a tape: the head stands past the last cell. -/
inductive TapeFault where
  | headOffTape (head : Nat)
  deriving DecidableEq, Repr

namespace Tape

/-- Cells kept on either side of the head. -/
def margin : Nat := 3

/-- The value at a distance from the head; cells that are not stored are 0. -/
def view (t : Tape) (distance : Int) : Bool :=
  let index := t.head + distance
  if index < 0 then false else (t.cells[index.toNat]?).getD false

/-- The value under the head. -/
def read (t : Tape) : Except TapeFault Bool :=
  match t.cells[t.head]? with
  | some value => .ok value
  | none => .error (.headOffTape t.head)

/-- The tape with another value under the head; off the tape nothing changes. -/
def put (t : Tape) (value : Bool) : Tape :=
  { t with cells := t.cells.set t.head value }

/-- Writes under the head. -/
def write (t : Tape) (value : Bool) : Except TapeFault Tape :=
  if t.head < t.cells.length then .ok (t.put value) else .error (.headOffTape t.head)

/-- Moves the head by one cell, and adds the cell it moves to where the tape ends there. -/
def move (t : Tape) : Movement → Tape
  | .halt => t
  | .left =>
    if t.head = 0 then { t with cells := false :: t.cells }
    else { t with head := t.head - 1 }
  | .right =>
    if t.head + 1 = t.cells.length then ⟨t.cells ++ [false], t.head + 1⟩
    else { t with head := t.head + 1 }

/-- Adds the cells missing on the left of the head, then those missing on its right. -/
def restoreMargin (t : Tape) : Tape :=
  let left := margin - t.head
  let cells := List.replicate left false ++ t.cells
  let head := t.head + left
  ⟨cells ++ List.replicate (head + margin + 1 - cells.length) false, head⟩

/-- How many cells hold 1. -/
def ones (t : Tape) : Nat := t.cells.count true

/-- Lengths of the runs of 1 in the cells, after a run of some length in front of them. -/
def runsFrom : Nat → List Bool → List Nat
  | 0, [] => []
  | n + 1, [] => [n + 1]
  | n, true :: rest => runsFrom (n + 1) rest
  | 0, false :: rest => runsFrom 0 rest
  | n + 1, false :: rest => (n + 1) :: runsFrom 0 rest

/-- Lengths of the runs of 1, from left to right. -/
def runs (t : Tape) : List Nat := runsFrom 0 t.cells

/-- The numbers on the tape. -/
def values (t : Tape) : List Nat := t.runs.map (· - 1)

/-- The cells as digits. -/
def digits (t : Tape) : String :=
  String.join (t.cells.map bitText)

/-- The cells on one line, and a mark under the head on the next. -/
def display (t : Tape) : String :=
  let cells := String.join (t.cells.map fun value => bitText value ++ " ")
  let marks := String.join ((List.range t.cells.length).map fun i =>
    if i = t.head then "^ " else "  ")
  cells ++ "\n" ++ marks

/-! ## Views

What each operation does to the tape without ends. -/

/-- The value at a distance, by the index of its cell. -/
theorem view_eq (t : Tape) (distance : Int) (i : Nat) (h : (i : Int) = t.head + distance) :
    t.view distance = (t.cells[i]?).getD false := by
  have hneg : ¬ (t.head : Int) + distance < 0 := by omega
  have hi : ((t.head : Int) + distance).toNat = i := by omega
  simp [view, hneg, hi]

/-- Left of the first cell everything is 0. -/
theorem view_of_neg (t : Tape) (distance : Int) (h : (t.head : Int) + distance < 0) :
    t.view distance = false := by
  simp [view, h]

/-- On the tape, the head reads what the view shows at distance 0. -/
theorem read_of_lt {t : Tape} (h : t.head < t.cells.length) : t.read = .ok (t.view 0) := by
  rw [view_eq t 0 t.head (by omega)]
  simp [read, List.getElem?_eq_getElem h]

/-- Writing changes the value under the head only. -/
theorem view_put {t : Tape} (h : t.head < t.cells.length) (value : Bool) (distance : Int) :
    (t.put value).view distance = if distance = 0 then value else t.view distance := by
  by_cases hneg : (t.head : Int) + distance < 0
  · rw [view_of_neg (t.put value) distance hneg, view_of_neg t distance hneg, if_neg (by omega)]
  · have hi : ((((t.head : Int) + distance).toNat : Nat) : Int) = t.head + distance := by omega
    rw [view_eq (t.put value) distance _ hi, view_eq t distance _ hi]
    by_cases hd : distance = 0
    · subst hd
      simp [put, h]
    · have hne : t.head ≠ ((t.head : Int) + distance).toNat := by omega
      simp [put, hd, List.getElem?_set_ne hne]

/-- The margin: three cells on the left of the head, and three on its right. -/
theorem margin_restoreMargin (t : Tape) :
    margin ≤ t.restoreMargin.head ∧
      t.restoreMargin.head + margin < t.restoreMargin.cells.length := by
  simp only [restoreMargin, List.length_append, List.length_replicate, margin]
  omega

/-- Cells that are added hold 0. -/
theorem getD_replicate_false (n i : Nat) :
    ((List.replicate n false)[i]?).getD false = false := by
  rw [List.getElem?_replicate]
  split <;> rfl

/-- Adding margins changes nothing that can be seen. -/
theorem view_restoreMargin (t : Tape) (distance : Int) :
    t.restoreMargin.view distance = t.view distance := by
  have hhead : t.restoreMargin.head = t.head + (margin - t.head) := rfl
  by_cases hneg : (t.restoreMargin.head : Int) + distance < 0
  · rw [view_of_neg _ _ hneg, view_of_neg t distance (by omega)]
  · obtain ⟨i, hi⟩ : ∃ i : Nat, (i : Int) = t.restoreMargin.head + distance :=
      ⟨((t.restoreMargin.head : Int) + distance).toNat, by omega⟩
    rw [view_eq _ distance i hi]
    -- Cells that were added hold 0, and the others have kept their distance from the head.
    simp only [restoreMargin]
    by_cases hl : i < margin - t.head
    · rw [view_of_neg t distance (by omega), List.append_assoc,
        List.getElem?_append_left (by simpa using hl)]
      simp [hl]
    · rw [view_eq t distance (i - (margin - t.head)) (by omega), List.append_assoc,
        List.getElem?_append_right (by simpa using hl), List.length_replicate]
      by_cases hr : i - (margin - t.head) < t.cells.length
      · rw [List.getElem?_append_left hr]
      · have hnone : t.cells[i - (margin - t.head)]? = none :=
          List.getElem?_eq_none (by omega)
        rw [List.getElem?_append_right (by omega), hnone, getD_replicate_false]
        rfl

end Tape

end TapeMachine
