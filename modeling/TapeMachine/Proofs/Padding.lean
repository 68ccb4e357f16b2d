import Mathlib.Order.Bounds.Basic
import TapeMachine.Proofs.Margins

/-!
# Padding

Restoring a margin adds cells one by one: on the left as long as fewer than three stand there, which
moves the head along the tape, and then on the right until there are three behind the head. It adds
no more cells than that takes. So the cells keep their distances from the head, and a tape with its
margin stays as it is.

* `Tape.padLeft` and `Tape.padRight` add the cells one by one;
* `Tape.restoreMargin_eq_pad`: together they restore the margin;
* `Tape.restoreMargin_of_hasMargin`: a tape with its margin gets no cells;
* `Machine.restoreMargin_pads_least` puts these together.
-/

namespace TapeMachine

/-! ## §1 Adding Cells One by One -/

namespace Tape

/-- Adds one cell on the left, which moves the head along, until three stand there. -/
def padLeft (t : Tape) : Tape :=
  if t.head < margin then padLeft ⟨false :: t.cells, t.head + 1⟩ else t
termination_by margin - t.head

/-- Adds one cell on the right until three stand there. -/
def padRight (t : Tape) : Tape :=
  if t.cells.length ≤ t.head + margin then padRight ⟨t.cells ++ [false], t.head⟩ else t
termination_by t.head + margin + 1 - t.cells.length
decreasing_by
  rw [List.length_append, List.length_singleton]
  omega

/-- On the left, as many cells are added as the head is short of the margin. -/
theorem padLeft_eq (t : Tape) :
    t.padLeft = ⟨List.replicate (margin - t.head) false ++ t.cells, t.head + (margin - t.head)⟩ := by
  induction t using padLeft.induct with
  | case1 t hShort ih =>
    -- The zero that is added now stands next to the cells, so it is the last one on the left.
    have hMissing : margin - t.head = (margin - (t.head + 1)) + 1 := by omega
    rw [padLeft, if_pos hShort, ih, hMissing, List.replicate_succ', List.append_assoc]
    simp [Nat.add_assoc, Nat.add_comm]
  | case2 t hEnough =>
    have hNone : margin - t.head = 0 := by omega
    rw [padLeft, if_neg hEnough, hNone]
    simp

/-- On the right, as many cells are added as the tape is short of the margin. -/
theorem padRight_eq (t : Tape) :
    t.padRight =
      ⟨t.cells ++ List.replicate (t.head + margin + 1 - t.cells.length) false, t.head⟩ := by
  induction t using padRight.induct with
  | case1 t hShort ih =>
    -- Here it is the first one.
    have hMissing : t.head + margin + 1 - t.cells.length =
        (t.head + margin + 1 - (t.cells.length + 1)) + 1 := by omega
    rw [padRight, if_pos hShort, ih, hMissing, List.replicate_succ]
    simp
  | case2 t hEnough =>
    have hNone : t.head + margin + 1 - t.cells.length = 0 := by omega
    rw [padRight, if_neg hEnough, hNone]
    simp

/-- **Padding**: the margin is restored by adding cells one by one, first on the left and then on the
right. -/
theorem restoreMargin_eq_pad (t : Tape) : t.restoreMargin = t.padLeft.padRight := by
  rw [padLeft_eq, padRight_eq]
  rfl

/-! ## §2 Tapes with Their Margin Stay -/

/-- A tape with its margin gets no cells. -/
theorem restoreMargin_of_hasMargin {t : Tape} (hMargin : t.HasMargin) : t.restoreMargin = t := by
  obtain ⟨hLeft, hRight⟩ := hMargin
  have hNoneLeft : margin - t.head = 0 := by omega
  have hNoneRight : t.head + margin + 1 - t.cells.length = 0 := by omega
  rw [restoreMargin_eq_pad, padLeft_eq, padRight_eq]
  simp [hNoneLeft, hNoneRight]

/-- The tape with its margin: as many zeros on the left as the head was short of the margin there, and
on the right as many as the tape was short of it. -/
theorem restoreMargin_eq (t : Tape) :
    t.restoreMargin =
      ⟨List.replicate (margin - t.head) false ++ t.cells ++
          List.replicate (max t.head margin + margin + 1 - (margin - t.head + t.cells.length)) false,
        max t.head margin⟩ := by
  have hHead : t.head + (margin - t.head) = max t.head margin := by omega
  rw [restoreMargin_eq_pad, padLeft_eq, padRight_eq, hHead]
  simp

/-- With fewer zeros on the right there is no margin behind the head. -/
theorem isLeast_missing (head length : Nat) :
    IsLeast {n | head + margin < length + n} (head + margin + 1 - length) := by
  constructor
  · show head + margin < length + (head + margin + 1 - length)
    omega
  · intro n hBehind
    have hLonger : head + margin < length + n := hBehind
    omega

/-- A stored cell is found behind the zeros that were added on the left. -/
theorem getElem?_restoreMargin {t : Tape} {k : Nat} {value : Bool} (hCell : t.cells[k]? = some value) :
    t.restoreMargin.cells[margin - t.head + k]? = some value := by
  have hStored : k < t.cells.length := (List.getElem?_eq_some_iff.1 hCell).1
  rw [restoreMargin_eq]
  simp only [List.append_assoc]
  rw [List.getElem?_append_right (by simp), List.getElem?_append_left (by simpa using hStored)]
  simpa using hCell

end Tape

/-! ## §3 Least Padding -/

/-- **Least padding**: on any tape, and with the head at any place on it or behind it, adding cells one
by one comes to an end. Then there are as many zeros on the left as the head was short of three
cells there, and on the right the least number that leaves three cells behind the head, which is at
its old place or at 3. Each stored cell has kept its value and its distance from the head, the rest
of the machine is as before, and restoring the margin again changes nothing. -/
theorem Machine.restoreMargin_pads_least (m : Machine) :
    m.restoreMargin = { m with tape := m.tape.padLeft.padRight } ∧
    (∃ i j : Nat, (i : Int) = max 0 (3 - (m.tape.head : Int)) ∧
      IsLeast {n : Nat | max m.tape.head 3 + 3 < i + m.tape.cells.length + n} j ∧
      m.restoreMargin.tape =
        ⟨List.replicate i false ++ m.tape.cells ++ List.replicate j false, max m.tape.head 3⟩ ∧
      ∀ (k : Nat) (value : Bool), m.tape.cells[k]? = some value →
        m.restoreMargin.tape.cells[i + k]? = some value ∧
        ((i + k : Nat) : Int) - m.restoreMargin.tape.head = k - m.tape.head) ∧
    m.restoreMargin.restoreMargin = m.restoreMargin := by
  refine ⟨?loops, ⟨3 - m.tape.head, _, by omega, Tape.isLeast_missing _ _, ?tape, ?cells⟩, ?again⟩
  case loops => rw [restoreMargin, Tape.restoreMargin_eq_pad]
  case tape => exact Tape.restoreMargin_eq m.tape
  case cells =>
    intro k value hCell
    have hHead : m.restoreMargin.tape.head = max m.tape.head 3 :=
      congrArg Tape.head (Tape.restoreMargin_eq m.tape)
    refine ⟨Tape.getElem?_restoreMargin hCell, ?_⟩
    rw [hHead]
    omega
  case again =>
    have hTape := Tape.restoreMargin_of_hasMargin (Tape.hasMargin_restoreMargin m.tape)
    simp only [restoreMargin, hTape]

/-- The head stands behind the only cell: one zero is added on the left, and five on the right. -/
theorem Machine.restoreMargin_pads_least_behind_cell :
    let m : Machine := { halted with tape := ⟨[true], 2⟩ }
    m.tape.cells[0]? = some true ∧
    m.restoreMargin.tape = ⟨[false, true, false, false, false, false, false], 3⟩ ∧
    ∃ i : Nat, m.restoreMargin.tape.cells[i + 0]? = some true ∧
      ((i + 0 : Nat) : Int) - m.restoreMargin.tape.head = 0 - 2 := by
  intro m
  have hCell : m.tape.cells[0]? = some true := by decide
  obtain ⟨-, ⟨i, j, -, -, -, hCells⟩, -⟩ := restoreMargin_pads_least m
  exact ⟨hCell, by decide, i, hCells 0 true hCell⟩

end TapeMachine
