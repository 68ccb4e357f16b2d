import TapeMachine.Proofs.Language.Positions
import TapeMachine.Proofs.Language.Records

/-!
# Where Words Stand

The positions of the words that are read off a layout: each word stands where its text does, and one
behind the other.

* `exists_pieces_of_append`: words that are cut come from pieces that are cut;
* `exists_occurrence`: the text of a word stands between its positions;
* `pairwise_lexemesFrom` and `bounds_of_mem_lexemesFrom`: the order of words;
* `Layout.exists_last_word`: the last word, and where it begins.
-/

namespace TapeMachine

open Layout

/-! ## §1 Cutting Words -/

theorem textFrom_append_pieces (last : List Char) (front back : List Piece) :
    textFrom last (front ++ back) = textFrom [] front ++ textFrom last back := by
  induction front with
  | nil => rfl
  | cons piece front ih =>
    rw [List.cons_append, textFrom, textFrom, ih, List.append_assoc, List.append_assoc]

/-- Words that are cut come from pieces that are cut. -/
theorem exists_pieces_of_append {now : Cursor} {pieces : List Piece} {front back : List Lexeme}
    (hSplit : lexemesFrom now pieces = front ++ back) :
    ∃ ps qs, pieces = ps ++ qs ∧ lexemesFrom now ps = front ∧
      lexemesFrom (now.after (textFrom [] ps)) qs = back := by
  induction front generalizing now pieces with
  | nil => exact ⟨[], pieces, rfl, rfl, hSplit⟩
  | cons w front ih =>
    cases pieces with
    | nil => cases hSplit
    | cons piece pieces =>
      rw [lexemesFrom, List.cons_append] at hSplit
      obtain ⟨hFirst, hRest⟩ := List.cons.inj hSplit
      obtain ⟨ps, qs, rfl, hFront, hBack⟩ := ih hRest
      refine ⟨piece :: ps, qs, rfl, ?_, ?_⟩
      · rw [lexemesFrom, hFront, hFirst]
      · rw [textFrom, Cursor.after_append, Cursor.after_append]
        exact hBack

/-- Pieces that are cut rightly stay so when they are cut apart. -/
theorem validFrom_append {last : List Char} {front back : List Piece}
    (hValid : ValidFrom last (front ++ back)) :
    ValidFrontFrom [] (textFrom last back) front ∧ ValidFrom last back := by
  induction front with
  | nil => exact ⟨Gap.nil _, hValid⟩
  | cons piece front ih =>
    rw [List.cons_append] at hValid
    obtain ⟨hGap, hSpelling, hEnds, hMore⟩ := hValid
    obtain ⟨hFront, hBack⟩ := ih hMore
    rw [textFrom_append_pieces, ← textFrom_append] at hGap hEnds
    exact ⟨⟨hGap, hSpelling, hEnds, hFront⟩, hBack⟩

/-! ## §2 Words in a Text -/

variable {now : Cursor} {pieces : List Piece} {w : Lexeme}

/-- **Occurrences**: the text of a word stands between its positions. -/
theorem exists_occurrence (hSpelled : ∀ piece ∈ pieces, piece.terminal.Spelling piece.text)
    (hw : w ∈ lexemesFrom now pieces) (last : List Char) :
    w.terminal.Spelling w.text.toList ∧
      ∃ front rest, textFrom last pieces = front ++ (w.text.toList ++ rest) ∧
        w.start = now.after front ∧ w.stop = w.start.after w.text.toList := by
  induction pieces generalizing now with
  | nil => cases hw
  | cons piece pieces ih =>
    rw [lexemesFrom] at hw
    rcases List.mem_cons.1 hw with rfl | hw
    · -- The first word stands behind its gap.
      rw [String.toList_ofList]
      exact ⟨hSpelled piece List.mem_cons_self, piece.gap, textFrom last pieces, rfl, rfl, rfl⟩
    · obtain ⟨hSpelling, front, rest, hText, hStart, hStop⟩ :=
        ih (fun other hOther => hSpelled other (List.mem_cons_of_mem piece hOther)) hw
      refine ⟨hSpelling, piece.gap ++ (piece.text ++ front), rest, ?_, ?_, hStop⟩
      · rw [textFrom, hText]
        simp
      · rw [hStart, Cursor.after_append, Cursor.after_append]

/-- Words stand within the text of their pieces. -/
theorem bounds_of_mem_lexemesFrom (hw : w ∈ lexemesFrom now pieces) :
    now.UpTo w.start ∧ w.stop.UpTo (now.after (textFrom [] pieces)) := by
  induction pieces generalizing now with
  | nil => cases hw
  | cons piece pieces ih =>
    rw [textFrom, Cursor.after_append, Cursor.after_append]
    rw [lexemesFrom] at hw
    rcases List.mem_cons.1 hw with rfl | hw
    · exact ⟨Cursor.upTo_after _ _, Cursor.upTo_after _ _⟩
    · obtain ⟨hFrom, hTo⟩ := ih hw
      exact ⟨((Cursor.upTo_after _ _).trans (Cursor.upTo_after _ _)).trans hFrom, hTo⟩

/-- **Order**: words stand one behind the other. -/
theorem pairwise_lexemesFrom (now : Cursor) (pieces : List Piece) :
    (lexemesFrom now pieces).Pairwise fun v w => v.stop.UpTo w.start := by
  induction pieces generalizing now with
  | nil => exact List.Pairwise.nil
  | cons piece pieces ih =>
    rw [lexemesFrom, List.pairwise_cons]
    exact ⟨fun w hw => (bounds_of_mem_lexemesFrom hw).1, ih _⟩

/-- The first word begins behind its gap, and the last one ends where the text of the pieces does. -/
theorem ends_of_lexemesFrom {piece : Piece} {first : Lexeme} {rest : List Lexeme}
    (hWords : lexemesFrom now (piece :: pieces) = first :: rest) :
    first.start = now.after piece.gap ∧
      (rest.getLast?.getD first).stop = now.after (textFrom [] (piece :: pieces)) := by
  induction pieces generalizing now piece first rest with
  | nil =>
    obtain ⟨rfl, rfl⟩ := List.cons.inj hWords
    refine ⟨rfl, ?_⟩
    rw [textFrom, textFrom, List.append_nil, Cursor.after_append]
    rfl
  | cons next pieces ih =>
    obtain ⟨rfl, rfl⟩ := List.cons.inj hWords
    refine ⟨rfl, ?_⟩
    rw [textFrom, Cursor.after_append, Cursor.after_append]
    -- The last word is that of the other pieces.
    have hOthers : lexemesFrom ((now.after piece.gap).after piece.text) (next :: pieces) = _ :: _ := rfl
    obtain ⟨-, hStop⟩ := ih hOthers
    rw [← hStop]
    show ((lexemesFrom _ (next :: pieces)).getLast?.getD _).stop = _
    rw [lexemesFrom, List.getLast?_cons]
    rfl

/-! ## §3 The Last Word -/

/-- **The last word** of a text that may not end where it does stands in front of its last gap. -/
theorem Layout.exists_last_word {l : Layout} {q : Place} (hValid : l.Valid)
    (hFollow : Place.between.follow? l.kinds = some q) (hWithin : q ≠ .between) :
    ∃ words word before, l.words = words ++ [word] ∧ word.terminal.Spelling word.text ∧
      l.text = before ++ (word.text ++ l.last) ∧ Gap l.last [] ∧
      ∀ last, lastStart last .start l.pieces = positionAfter before := by
  obtain ⟨pieces, gap⟩ := l
  obtain rfl | ⟨front, piece, rfl⟩ := List.eq_nil_or_concat pieces
  · exact absurd (Option.some.inj hFollow).symm hWithin
  rw [List.concat_eq_append] at hValid ⊢
  obtain ⟨-, -, hSpelling, -, hGap⟩ := validFrom_append hValid
  refine ⟨front.map Piece.toWord, piece.toWord, textFrom [] front ++ piece.gap, ?_, hSpelling, ?_, hGap,
    fun last => ?_⟩
  · exact List.map_append
  · rw [Layout.text, textFrom_append_pieces, List.append_assoc]
    rfl
  · rw [lastStart_concat, Cursor.after_start]

end TapeMachine
