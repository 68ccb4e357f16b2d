import Mathlib.Algebra.GroupWithZero.Nat
import TapeMachine.Proofs.Scenes

/-!
# Numbers on Tapes

A tape is read as numbers: each maximal run of cells with 1 stands for its length less one. Cells with
0 around the tape, such as those of the margin, add no run to it and make none longer.

* `IsRun` is a maximal run at its place, and `ListsRuns` says that all of them are listed in order;
* `exists_listsRuns`: the lengths that are read off a tape are those of its maximal runs;
* `sum_runsFrom`: the runs hold all cells with 1;
* `numeralCells` writes numbers on a tape, and `runsFrom_numeralCells` reads them back;
* `Tape.values_restoreMargin` and `Tape.ones_eq_sum`: what holds of the numbers of any tape.
-/

namespace TapeMachine

/-! ## §1 Maximal Runs -/

/-- So many cells with 1 side by side, and no further one on either side of them. -/
structure IsRun (cells : List Bool) (start length : Nat) : Prop where
  positive : 0 < length
  ones : ∀ i < length, cells[start + i]? = some true
  first : ∀ i, i + 1 = start → cells[i]? ≠ some true
  last : cells[start + length]? ≠ some true

/-- All maximal runs of some cells, with their places, from left to right. -/
structure ListsRuns (cells : List Bool) (runs : List (Nat × Nat)) : Prop where
  sorted : runs.Pairwise fun r r' => r.1 < r'.1
  complete : ∀ start length, (start, length) ∈ runs ↔ IsRun cells start length

variable {rest : List Bool} {runs : List (Nat × Nat)}

/-- Runs stay the same, further on, behind cells that no run reaches across. -/
theorem isRun_append_iff {front : List Bool} {place length : Nat}
    (hApart : front.getLast? ≠ some true ∨ rest.head? ≠ some true) :
    IsRun (front ++ rest) (front.length + place) length ↔ IsRun rest place length := by
  have hBehind : ∀ i, (front ++ rest)[front.length + i]? = rest[i]? := by
    intro i
    rw [List.getElem?_append_right (Nat.le_add_right _ i), Nat.add_sub_cancel_left]
  constructor
  · intro hRun
    refine ⟨hRun.positive, fun i hi => ?_, fun i hi => ?_, ?_⟩
    · rw [← hBehind, ← Nat.add_assoc]
      exact hRun.ones i hi
    · rw [← hBehind]
      exact hRun.first _ (by omega)
    · rw [← hBehind, ← Nat.add_assoc]
      exact hRun.last
  · intro hRun
    have hFirst := hRun.ones 0 hRun.positive
    refine ⟨hRun.positive, fun i hi => ?_, fun i hi => ?_, ?_⟩
    · rw [Nat.add_assoc, hBehind]
      exact hRun.ones i hi
    · cases place with
      | zero =>
        -- The run begins with the rest, so that the cell in front of it is the last before.
        have hLast : front.getLast? ≠ some true := by
          refine hApart.resolve_right fun hEnd => hEnd ?_
          rw [List.head?_eq_getElem?]
          exact hFirst
        have hIndex : i = front.length - 1 := by omega
        rw [List.getElem?_append_left (by omega), hIndex, ← List.getLast?_eq_getElem?]
        exact hLast
      | succ place =>
        obtain rfl : i = front.length + place := by omega
        rw [hBehind]
        exact hRun.first place rfl
    · rw [Nat.add_assoc, hBehind]
      exact hRun.last

/-- Behind a cell with 0 there are the same runs, one cell further. -/
theorem isRun_blank_iff {start length : Nat} :
    IsRun (false :: rest) start length ↔ ∃ place, start = 1 + place ∧ IsRun rest place length := by
  have hBehind {place : Nat} :
      IsRun (false :: rest) (1 + place) length ↔ IsRun rest place length :=
    isRun_append_iff (.inl (by decide : [false].getLast? ≠ some true))
  constructor
  · intro hRun
    cases start with
    | zero => cases hRun.ones 0 hRun.positive
    | succ place => exact ⟨place, Nat.add_comm place 1, hBehind.1 (Nat.add_comm place 1 ▸ hRun)⟩
  · rintro ⟨place, rfl, hRun⟩
    exact hBehind.2 hRun

/-- Cells with 1 that are followed by none are a run, and behind them there are the same runs,
further on. -/
theorem isRun_strokes_iff {n start length : Nat} (hSome : 0 < n) (hEnd : rest.head? ≠ some true) :
    IsRun (strokes n ++ rest) start length ↔
      (start = 0 ∧ length = n) ∨ ∃ place, start = n + place ∧ IsRun rest place length := by
  have hWithin : ∀ i < n, (strokes n ++ rest)[i]? = some true := by
    intro i hi
    rw [List.getElem?_append_left (by simpa using hi), List.getElem?_replicate, if_pos hi]
  have hNext : (strokes n ++ rest)[n]? ≠ some true := by
    rw [List.getElem?_append_right (by simp), List.length_replicate, Nat.sub_self,
      ← List.head?_eq_getElem?]
    exact hEnd
  have hBehind {place : Nat} :
      IsRun (strokes n ++ rest) (n + place) length ↔ IsRun rest place length := by
    have hShift : IsRun (strokes n ++ rest) ((strokes n).length + place) length ↔
        IsRun rest place length := isRun_append_iff (.inr hEnd)
    rwa [List.length_replicate] at hShift
  constructor
  · intro hRun
    by_cases hAfter : n ≤ start
    · obtain ⟨place, rfl⟩ := Nat.exists_eq_add_of_le hAfter
      exact .inr ⟨place, rfl, hBehind.1 hRun⟩
    · -- The run begins with the cells with 1, and so it is made of them.
      have hStart : start = 0 := by
        by_contra hLater
        exact hRun.first (start - 1) (by omega) (hWithin _ (by omega))
      subst hStart
      refine .inl ⟨rfl, Nat.le_antisymm (Nat.le_of_not_lt fun hLong => ?_)
        (Nat.le_of_not_lt fun hShort => ?_)⟩
      · have hOne := hRun.ones n hLong
        rw [Nat.zero_add] at hOne
        exact hNext hOne
      · have hLast := hRun.last
        rw [Nat.zero_add] at hLast
        exact hLast (hWithin length hShort)
  · rintro (⟨rfl, rfl⟩ | ⟨place, rfl, hRun⟩)
    · refine ⟨hSome, fun i hi => ?_, fun i hi => absurd hi (Nat.succ_ne_zero i), ?_⟩
      · rw [Nat.zero_add]
        exact hWithin i hi
      · rw [Nat.zero_add]
        exact hNext
    · exact hBehind.2 hRun

namespace ListsRuns

/-- No cells have no runs. -/
theorem nil : ListsRuns [] [] := by
  refine ⟨List.Pairwise.nil, fun start length => ⟨fun hMem => ?_, fun hRun => ?_⟩⟩
  · cases hMem
  · cases hRun.ones 0 hRun.positive

/-- The runs behind a cell with 0. -/
theorem blank (hRuns : ListsRuns rest runs) :
    ListsRuns (false :: rest) (runs.map fun r => (1 + r.1, r.2)) := by
  refine ⟨List.pairwise_map.2 (hRuns.sorted.imp fun hLt => Nat.add_lt_add_left hLt 1),
    fun start length => ?_⟩
  rw [isRun_blank_iff, List.mem_map]
  constructor
  · rintro ⟨⟨place, _⟩, hMem, hSame⟩
    obtain ⟨rfl, rfl⟩ := Prod.mk.inj hSame
    exact ⟨place, rfl, (hRuns.complete _ _).1 hMem⟩
  · rintro ⟨place, rfl, hRun⟩
    exact ⟨(place, length), (hRuns.complete _ _).2 hRun, rfl⟩

/-- The run of cells with 1 that are followed by none, and those behind it. -/
theorem strokes {n : Nat} (hRuns : ListsRuns rest runs) (hSome : 0 < n)
    (hEnd : rest.head? ≠ some true) :
    ListsRuns (strokes n ++ rest) ((0, n) :: runs.map fun r => (n + r.1, r.2)) := by
  constructor
  · refine List.pairwise_cons.2 ⟨fun r hr => ?_,
      List.pairwise_map.2 (hRuns.sorted.imp fun hLt => Nat.add_lt_add_left hLt n)⟩
    obtain ⟨_, -, rfl⟩ := List.mem_map.1 hr
    exact Nat.add_pos_left hSome _
  · intro start length
    rw [isRun_strokes_iff hSome hEnd, List.mem_cons, List.mem_map, Prod.mk.injEq]
    refine or_congr_right ⟨?_, ?_⟩
    · rintro ⟨⟨place, _⟩, hMem, hSame⟩
      obtain ⟨rfl, rfl⟩ := Prod.mk.inj hSame
      exact ⟨place, rfl, (hRuns.complete _ _).1 hMem⟩
    · rintro ⟨place, rfl, hRun⟩
      exact ⟨(place, length), (hRuns.complete _ _).2 hRun, rfl⟩

end ListsRuns

namespace Tape

/-! ## §2 Reading Runs -/

/-- **Runs that are read**: their lengths are those of the maximal runs, where cells with 1 in front
belong to the first of them. -/
theorem exists_listsRuns (n : Nat) (cells : List Bool) :
    ∃ runs, ListsRuns (strokes n ++ cells) runs ∧ runs.map Prod.snd = runsFrom n cells := by
  induction cells generalizing n with
  | nil =>
    cases n with
    | zero => exact ⟨_, .nil, rfl⟩
    | succ n => exact ⟨_, ListsRuns.nil.strokes (Nat.succ_pos n) (by simp), rfl⟩
  | cons value rest ih =>
    cases value with
    | true =>
      -- The cell belongs to the run that is read.
      obtain ⟨runs, hRuns, hLengths⟩ := ih (n + 1)
      rw [← replicate_append_cons] at hRuns
      exact ⟨runs, hRuns, hLengths.trans (by cases n <;> rfl)⟩
    | false =>
      obtain ⟨runs, hRuns, hLengths⟩ := ih 0
      have hBehind : (runs.map fun r => (1 + r.1, r.2)).map Prod.snd = runsFrom 0 rest := by
        rw [List.map_map]
        exact hLengths
      cases n with
      | zero => exact ⟨_, hRuns.blank, hBehind⟩
      | succ n =>
        refine ⟨_, hRuns.blank.strokes (Nat.succ_pos n) (by simp), ?_⟩
        rw [List.map_cons, List.map_map]
        exact congrArg ((n + 1) :: ·) hBehind

/-- The runs hold all cells with 1, and those that are in front. -/
theorem sum_runsFrom (n : Nat) (cells : List Bool) :
    (runsFrom n cells).sum = n + cells.count true := by
  induction cells generalizing n with
  | nil => cases n <;> rfl
  | cons value rest ih =>
    cases value with
    | true =>
      have hNext : runsFrom n (true :: rest) = runsFrom (n + 1) rest := by cases n <;> rfl
      rw [hNext, ih, List.count_cons_self]
      omega
    | false =>
      rw [List.count_cons_of_ne (by decide)]
      cases n with
      | zero => exact ih 0
      | succ n =>
        show ((n + 1) :: runsFrom 0 rest).sum = _
        rw [List.sum_cons, ih, Nat.zero_add]

/-- No run is empty. -/
theorem pos_of_mem_runsFrom {n length : Nat} {cells : List Bool} (hMem : length ∈ runsFrom n cells) :
    0 < length := by
  obtain ⟨runs, hRuns, hLengths⟩ := exists_listsRuns n cells
  rw [← hLengths] at hMem
  obtain ⟨⟨start, _⟩, hRun, rfl⟩ := List.mem_map.1 hMem
  exact ((hRuns.complete _ _).1 hRun).positive

/-- Cells with 1 add to the run that is read. -/
theorem runsFrom_strokes (n k : Nat) (cells : List Bool) :
    runsFrom n (strokes k ++ cells) = runsFrom (n + k) cells := by
  induction k generalizing n with
  | zero => rfl
  | succ k ih =>
    have hNext : runsFrom n (strokes (k + 1) ++ cells) = runsFrom (n + 1) (strokes k ++ cells) := by
      cases n <;> rfl
    rw [hNext, ih, Nat.add_assoc, Nat.add_comm 1 k]

/-- Cells with 0 in front add no run. -/
theorem runsFrom_blanks (k : Nat) (cells : List Bool) :
    runsFrom 0 (blanks k ++ cells) = runsFrom 0 cells := by
  induction k with
  | zero => rfl
  | succ k ih => exact ih

/-- Cells with 0 at the end add no run, and make none longer. -/
theorem runsFrom_append_blanks (n k : Nat) (cells : List Bool) :
    runsFrom n (cells ++ blanks k) = runsFrom n cells := by
  induction cells generalizing n with
  | nil =>
    have hNone : ∀ k, runsFrom 0 (blanks k) = [] := by
      intro k
      rw [← List.append_nil (blanks k)]
      exact runsFrom_blanks k []
    cases n with
    | zero => exact hNone k
    | succ n =>
      cases k with
      | zero => rfl
      | succ k => exact congrArg ((n + 1) :: ·) (hNone k)
  | cons value rest ih =>
    cases value with
    | true => cases n <;> exact ih _
    | false =>
      cases n with
      | zero => exact ih 0
      | succ n => exact congrArg ((n + 1) :: ·) (ih 0)

/-! ## §3 Writing Numbers -/

/-- Numbers, each written as one more cell with 1, with cells with 0 in front of them, between them and
at the end. A number after the first comes with how many more such cells than one are in front of it. -/
def numeralCells (front first : Nat) (more : List (Nat × Nat)) (back : Nat) : List Bool :=
  blanks front ++ strokes (first + 1) ++
    more.flatMap (fun e => blanks (e.1 + 1) ++ strokes (e.2 + 1)) ++ blanks back

/-- **Numbers that are written** are read back as runs of one cell more. -/
theorem runsFrom_numeralCells (front first : Nat) (more : List (Nat × Nat)) (back : Nat) :
    runsFrom 0 (numeralCells front first more back) =
      (first + 1) :: more.map fun e => e.2 + 1 := by
  rw [numeralCells, runsFrom_append_blanks, List.append_assoc, runsFrom_blanks, runsFrom_strokes,
    Nat.zero_add]
  induction more generalizing first with
  | nil => rfl
  | cons e more ih =>
    -- The first cell with 0 ends the run of the number in front of it.
    rw [List.flatMap_cons, List.append_assoc]
    show (first + 1) :: runsFrom 0 (blanks e.1 ++ (strokes (e.2 + 1) ++ _)) = _
    rw [runsFrom_blanks, runsFrom_strokes, Nat.zero_add, ih, List.map_cons]

/-! ## §4 Numbers of a Tape -/

variable (t : Tape)

/-- Restoring the margin adds cells with 0 at both ends. -/
theorem exists_cells_restoreMargin :
    ∃ i j, t.restoreMargin.cells = blanks i ++ t.cells ++ blanks j := ⟨_, _, rfl⟩

/-- Restoring the margin changes no number. -/
theorem values_restoreMargin : t.restoreMargin.values = t.values := by
  obtain ⟨i, j, hCells⟩ := t.exists_cells_restoreMargin
  rw [values, runs, hCells, runsFrom_append_blanks, runsFrom_blanks]
  rfl

/-- Restoring the margin adds no cell with 1. -/
theorem ones_restoreMargin : t.restoreMargin.ones = t.ones := by
  obtain ⟨i, j, hCells⟩ := t.exists_cells_restoreMargin
  have hBlank : ∀ k, (blanks k).count true = 0 := fun k => List.count_eq_zero.2 (by simp)
  rw [ones, hCells, List.count_append, List.count_append, hBlank, hBlank, Nat.zero_add]
  rfl

/-- **The cells with 1** are those of the numbers, each of which takes one more than it says. -/
theorem ones_eq_sum : t.ones = (t.values.map (· + 1)).sum := by
  have hLengths : t.values.map (· + 1) = t.runs := by
    rw [values, List.map_map]
    refine (List.map_congr_left fun length hMem => ?_).trans (List.map_id t.runs)
    exact Nat.sub_add_cancel (pos_of_mem_runsFrom hMem)
  rw [hLengths, runs, sum_runsFrom, Nat.zero_add]
  rfl

end Tape

end TapeMachine
