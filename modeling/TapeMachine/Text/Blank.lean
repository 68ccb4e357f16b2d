/-!
# Blank Characters

The 29 characters that count as blank in this language: they end a movement symbol and are
trimmed from both ends of a description.

* `trim` leaves out the blanks at both ends of a text;
* `trim_eq_iff`: what is left is the one text without a blank at either end that has nothing but
  blanks in front of it and behind it.
-/

namespace TapeMachine.Text

/-- The blank characters: tab to carriage return, the four separators before the space, the
space itself, next line, no-break space and the Unicode space separators. -/
def isBlank (c : Char) : Bool :=
  let n := c.toNat
  (0x09 ≤ n && n ≤ 0x0d) || (0x1c ≤ n && n ≤ 0x20) || n == 0x85 || n == 0xa0 || n == 0x1680 ||
    (0x2000 ≤ n && n ≤ 0x200a) || n == 0x2028 || n == 0x2029 || n == 0x202f || n == 0x205f ||
    n == 0x3000

/-- A text without the blanks at its two ends. -/
def trim (cs : List Char) : List Char :=
  ((cs.dropWhile isBlank).reverse.dropWhile isBlank).reverse

/-- A line is a text between blanks, and the text itself neither begins nor ends with one. -/
def Trimmed (line text : List Char) : Prop :=
  ∃ front back, line = front ++ (text ++ back) ∧
    (∀ c ∈ front, isBlank c = true) ∧ (∀ c ∈ back, isBlank c = true) ∧
    (∀ c, text.head? = some c → isBlank c = false) ∧
    ∀ c, text.getLast? = some c → isBlank c = false

/-- Blanks in front of a text are left out, if it does not begin with one itself. -/
theorem dropWhile_isBlank_append {front text : List Char} (hFront : ∀ c ∈ front, isBlank c = true)
    (hText : ∀ c, text.head? = some c → isBlank c = false) :
    (front ++ text).dropWhile isBlank = text := by
  rw [List.dropWhile_append_of_pos hFront]
  cases text with
  | nil => rfl
  | cons c rest =>
    have hFirst : ¬isBlank c = true := by simp [hText c rfl]
    exact List.dropWhile_cons_of_neg hFirst

/-- Any text is blanks, and then a text that does not begin with one. -/
theorem exists_blanks_append (cs : List Char) :
    ∃ front, cs = front ++ cs.dropWhile isBlank ∧ (∀ c ∈ front, isBlank c = true) ∧
      ∀ c, (cs.dropWhile isBlank).head? = some c → isBlank c = false := by
  refine ⟨cs.takeWhile isBlank, List.takeWhile_append_dropWhile.symm, ?_, ?_⟩
  · intro c hMem
    exact List.all_eq_true.1 List.all_takeWhile c hMem
  · intro c hFirst
    have hStopped := List.head?_dropWhile_not isBlank cs
    rw [hFirst] at hStopped
    exact hStopped

/-- **Trimming** leaves the text between the blanks at both ends, and nothing else is that. -/
theorem trim_eq_iff {line text : List Char} : trim line = text ↔ Trimmed line text := by
  constructor
  · rintro rfl
    obtain ⟨front, hLine, hFront, hFirst⟩ := exists_blanks_append line
    -- The blanks at the end are those in front of the reversed rest.
    obtain ⟨back, hRest, hBack, hLast⟩ := exists_blanks_append (line.dropWhile isBlank).reverse
    have hCut : line.dropWhile isBlank = trim line ++ back.reverse := by
      rw [← List.reverse_reverse (line.dropWhile isBlank), hRest, List.reverse_append]
      rfl
    refine ⟨front, back.reverse, ?_, hFront, ?_, ?_, ?_⟩
    · rw [← hCut]
      exact hLine
    · intro c hMem
      exact hBack c (List.mem_reverse.1 hMem)
    · intro c hHead
      refine hFirst c ?_
      rw [hCut, List.head?_append, hHead]
      rfl
    · intro c hEnd
      rw [trim, List.getLast?_reverse] at hEnd
      exact hLast c hEnd
  · rintro ⟨front, back, rfl, hFront, hBack, hFirst, hLast⟩
    have hBehind : ∀ c ∈ back.reverse, isBlank c = true :=
      fun c hMem => hBack c (List.mem_reverse.1 hMem)
    cases text with
    | nil =>
      -- There are blanks only.
      have hAll : ∀ c ∈ front ++ back, isBlank c = true := by
        intro c hMem
        exact (List.mem_append.1 hMem).elim (hFront c) (hBack c)
      have hNothing : (front ++ back).dropWhile isBlank = [] := by
        rw [← List.append_nil (front ++ back)]
        exact dropWhile_isBlank_append hAll (by simp)
      rw [List.nil_append, trim, hNothing]
      rfl
    | cons c rest =>
      have hCut : (front ++ (c :: rest ++ back)).dropWhile isBlank = c :: rest ++ back :=
        dropWhile_isBlank_append hFront fun d hHead => hFirst d hHead
      have hTurned : (back.reverse ++ (c :: rest).reverse).dropWhile isBlank = (c :: rest).reverse :=
        dropWhile_isBlank_append hBehind fun d hHead => hLast d (List.head?_reverse ▸ hHead)
      rw [trim, hCut, List.reverse_append, hTurned, List.reverse_reverse]

end TapeMachine.Text
