import Mathlib.Data.List.Induction
import TapeMachine.Proofs.Language.Lexemes

/-!
# Positions in a Text

Where something stands in a text is told by what stands in front of it. Only line feeds end lines
here, and lines and columns are counted from 1.

* `positionAfter` is the position behind some text, and `Cursor.after_start`: it is where reading
  has come to behind that text;
* `Cursor.after_of_no_feed`: within a line, columns count the characters;
* `drop_line_eq`: in the line at a position, from its column on, stands what follows;
* `Cursor.before_after` and `Cursor.upTo_after`: positions increase along a text.
-/

namespace TapeMachine

/-! ## §1 Lines and Columns -/

/-- The position behind a text: its line feeds and the characters behind the last of them. -/
def positionAfter (text : List Char) : Cursor :=
  ⟨text.count '\n' + 1, (text.reverse.takeWhile (· != '\n')).length + 1⟩

theorem positionAfter_concat (text : List Char) (c : Char) :
    positionAfter (text ++ [c]) = (positionAfter text).next c := by
  by_cases hFeed : c = '\n'
  · simp [positionAfter, Cursor.next, hFeed]
  · simp [positionAfter, Cursor.next, hFeed]

/-- **Positions**: behind a text, reading has come to the position behind it. -/
theorem Cursor.after_start (text : List Char) : Cursor.start.after text = positionAfter text := by
  induction text using List.reverseRecOn with
  | nil => rfl
  | append_singleton text c ih =>
    rw [positionAfter_concat, ← ih, Cursor.after_append]
    rfl

theorem positionAfter_append (text more : List Char) :
    positionAfter (text ++ more) = (positionAfter text).after more := by
  rw [← Cursor.after_start, ← Cursor.after_start, Cursor.after_append]

/-- The first line of a text reaches up to its first line feed. -/
theorem head?_splitOn (text : List Char) :
    (text.splitOn '\n')[0]? = some (text.takeWhile (· != '\n')) := by
  induction text with
  | nil => rfl
  | cons c rest ih =>
    rw [List.splitOn, List.splitOnP_cons_eq_if_modifyHead]
    by_cases hFeed : c = '\n'
    · simp [hFeed]
    · rw [if_neg (by simpa using hFeed), List.takeWhile_cons_of_pos (by simpa using hFeed)]
      obtain ⟨first, more, hLines⟩ := List.exists_cons_of_ne_nil
        (List.splitOnP_ne_nil (fun x => x == '\n') rest)
      rw [List.splitOn, hLines] at ih
      rw [hLines]
      simpa using ih

/-- A line begins with what has been read of it when reading goes on in the middle of it. -/
private theorem drop_line_of_begun (begun front rest : List Char) (hBegun : '\n' ∉ begun)
    (line : Nat) :
    line ≤ ((⟨line, begun.length + 1⟩ : Cursor).after front).line ∧
      ∃ content, ((begun ++ (front ++ rest)).splitOn '\n')[
          ((⟨line, begun.length + 1⟩ : Cursor).after front).line - line]? = some content ∧
        content.drop (((⟨line, begun.length + 1⟩ : Cursor).after front).col - 1) =
          rest.takeWhile (· != '\n') := by
  induction front generalizing begun line with
  | nil =>
    refine ⟨Nat.le_refl line, begun ++ rest.takeWhile (· != '\n'), ?_, ?_⟩
    · rw [Cursor.after_nil, Nat.sub_self, List.nil_append, head?_splitOn,
        List.takeWhile_append_of_pos (ne_feed_of_not_mem hBegun)]
    · rw [Cursor.after_nil]
      simp
  | cons c front ih =>
    by_cases hFeed : c = '\n'
    · -- The line that was begun is complete, and the next one begins.
      subst hFeed
      obtain ⟨hLe, content, hLine, hContent⟩ := ih [] (by simp) (line + 1)
      have hAfter : (⟨line, begun.length + 1⟩ : Cursor).after ('\n' :: front) =
          (⟨line + 1, 1⟩ : Cursor).after front := rfl
      have hSplit : (begun ++ ('\n' :: front ++ rest)).splitOn '\n' =
          begun :: (front ++ rest).splitOn '\n' := by
        rw [List.splitOn, List.cons_append, List.splitOnP_append_cons _ _ (by simp),
          List.splitOnP_eq_singleton fun x hx => by simpa using ne_feed_of_not_mem hBegun x hx]
        rfl
      rw [hAfter, hSplit]
      rw [List.length_nil, Nat.zero_add] at hLe hLine hContent
      refine ⟨by omega, content, ?_, hContent⟩
      have hIndex : ((⟨line + 1, 1⟩ : Cursor).after front).line - line =
          ((⟨line + 1, 1⟩ : Cursor).after front).line - (line + 1) + 1 := by omega
      rw [hIndex, List.getElem?_cons_succ]
      exact hLine
    · -- The character belongs to the line that was begun.
      have hAfter : (⟨line, begun.length + 1⟩ : Cursor).after (c :: front) =
          (⟨line, (begun ++ [c]).length + 1⟩ : Cursor).after front := by
        show (Cursor.next _ c).after front = _
        rw [Cursor.next, if_neg hFeed, List.length_append]
        rfl
      have hText : begun ++ (c :: front ++ rest) = begun ++ [c] ++ (front ++ rest) := by simp
      rw [hAfter, hText]
      exact ih (begun ++ [c]) (by simp [hBegun, Ne.symm hFeed]) line

/-- **Lines**: in the line at a position, from its column on, stands what follows the position, up
to the end of the line. -/
theorem drop_line_eq (front rest : List Char) :
    ∃ content, ((front ++ rest).splitOn '\n')[(positionAfter front).line - 1]? = some content ∧
      content.drop ((positionAfter front).col - 1) = rest.takeWhile (· != '\n') := by
  rw [← Cursor.after_start]
  exact (drop_line_of_begun [] front rest (by simp) 1).2

/-- Within a line, columns count the characters. -/
theorem Cursor.after_of_no_feed (p : Cursor) {text : List Char} (hText : '\n' ∉ text) :
    p.after text = ⟨p.line, p.col + text.length⟩ := by
  induction text generalizing p with
  | nil => rfl
  | cons c text ih =>
    rw [List.mem_cons, not_or] at hText
    show (p.next c).after text = _
    rw [ih _ hText.2, Cursor.next, if_neg (Ne.symm hText.1), List.length_cons,
      Nat.add_comm text.length, ← Nat.add_assoc]

/-! ## §2 The Order of Positions -/

namespace Cursor

/-- One position stands in front of another. -/
def Before (p q : Cursor) : Prop := p.line < q.line ∨ p.line = q.line ∧ p.col < q.col

/-- One position does not stand behind another. -/
def UpTo (p q : Cursor) : Prop := p.line < q.line ∨ p.line = q.line ∧ p.col ≤ q.col

variable {p q r : Cursor}

theorem Before.trans_upTo (hFirst : p.Before q) (hRest : q.UpTo r) : p.Before r := by
  unfold Before UpTo at *
  omega

theorem UpTo.trans (hFirst : p.UpTo q) (hRest : q.UpTo r) : p.UpTo r := by
  unfold UpTo at *
  omega

theorem upTo_after (p : Cursor) (text : List Char) : p.UpTo (p.after text) := by
  induction text generalizing p with
  | nil => exact Or.inr ⟨rfl, Nat.le_refl _⟩
  | cons c text ih =>
    refine UpTo.trans ?_ (ih (p.next c))
    unfold UpTo Cursor.next
    split
    · exact Or.inl (Nat.lt_succ_self _)
    · exact Or.inr ⟨rfl, Nat.le_succ _⟩

theorem before_after (p : Cursor) {text : List Char} (hText : text ≠ []) : p.Before (p.after text) := by
  obtain ⟨c, rest, rfl⟩ := List.exists_cons_of_ne_nil hText
  refine Before.trans_upTo ?_ (upTo_after (p.next c) rest)
  unfold Before Cursor.next
  split
  · exact Or.inl (Nat.lt_succ_self _)
  · exact Or.inr ⟨rfl, Nat.lt_succ_self _⟩

end Cursor

/-- No word goes over the end of a line. -/
theorem Terminal.Spelling.no_feed {t : Terminal} {text : List Char} (hSpelling : t.Spelling text) :
    '\n' ∉ text := by
  intro hFeed
  cases t with
  | bit =>
    rcases hSpelling with rfl | rfl
    · simp at hFeed
    · simp at hFeed
  | state => exact absurd (hSpelling.2 _ hFeed) (by decide)
  | movement => exact absurd (hSpelling.2 _ hFeed) (by decide)
  | library =>
    obtain ⟨c, rest, rfl, hStart, hRest⟩ := hSpelling
    rcases List.mem_cons.1 hFeed with rfl | hFeed
    · exact absurd hStart (by decide)
    · exact absurd (hRest _ hFeed) (by decide)
  | description =>
    obtain ⟨line, rfl, hLine⟩ := hSpelling
    simp [hLine] at hFeed
  | _ =>
    -- The kinds with one spelling.
    obtain rfl := hSpelling
    simp at hFeed

/-- A word has a first character, which does not end a line. -/
theorem Terminal.Spelling.exists_first {t : Terminal} {text : List Char}
    (hSpelling : t.Spelling text) : ∃ c more, text = c :: more ∧ c ≠ '\n' := by
  obtain ⟨c, more, rfl, -⟩ := hSpelling.begins
  refine ⟨c, more, rfl, ?_⟩
  rintro rfl
  exact hSpelling.no_feed List.mem_cons_self

end TapeMachine
