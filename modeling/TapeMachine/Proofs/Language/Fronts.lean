import TapeMachine.Proofs.Language.Separators

/-!
# Fronts of a Text

As far as a text can be read, it is a layout of words that may follow each other. Such a front of
the text goes up to a place where neither a separator nor an expected word stands, and it is the
only one that does.

* `Layout.ValidBefore` says that a layout is cut rightly in front of the rest of a text;
* `Place.Stuck` says that nothing that may come at a place stands in front;
* `exists_front`: every text has a front up to where nothing more can come;
* `Layout.unique_front`: it has one such front only.
-/

namespace TapeMachine

/-! ## §1 Layouts in Front of a Rest -/

namespace Layout

/-- Some pieces and the gap behind them are cut rightly in front of a rest. -/
def ValidFrontFrom (last rest : List Char) : List Piece → Prop
  | [] => Gap last rest
  | piece :: more =>
    Gap piece.gap (piece.text ++ textFrom (last ++ rest) more) ∧
      piece.terminal.Spelling piece.text ∧ piece.terminal.EndsBefore (textFrom (last ++ rest) more) ∧
      ValidFrontFrom last rest more

/-- The layout is cut rightly in front of a rest. -/
def ValidBefore (l : Layout) (rest : List Char) : Prop := ValidFrontFrom l.last rest l.pieces

/-- The kinds of the words of a layout. -/
def kinds (l : Layout) : List Terminal := l.words.map Word.terminal

/-- Words that are cut rightly are spelled as their kinds ask. -/
theorem spelling_of_validFrontFrom {last rest : List Char} {pieces : List Piece}
    (hValid : ValidFrontFrom last rest pieces) :
    ∀ piece ∈ pieces, piece.terminal.Spelling piece.text := by
  induction pieces with
  | nil => simp
  | cons piece pieces ih =>
    intro other hOther
    rcases List.mem_cons.1 hOther with rfl | hOther
    · exact hValid.2.1
    · exact ih hValid.2.2.2 other hOther

theorem textFrom_append (last rest : List Char) (pieces : List Piece) :
    textFrom (last ++ rest) pieces = textFrom last pieces ++ rest := by
  induction pieces with
  | nil => rfl
  | cons piece more ih => rw [textFrom, textFrom, ih, List.append_assoc, List.append_assoc]

/-- In front of nothing, a layout is one of a whole text. -/
theorem validBefore_nil_iff {l : Layout} : l.ValidBefore [] ↔ l.Valid := by
  rcases l with ⟨pieces, last⟩
  show ValidFrontFrom last [] pieces ↔ ValidFrom last pieces
  induction pieces with
  | nil => rfl
  | cons piece more ih => rw [ValidFrontFrom, ValidFrom, ih, List.append_nil]

/-- A layout whose first gap is longer by some text in front. -/
def behind (gap : List Char) : Layout → Layout
  | ⟨[], last⟩ => ⟨[], gap ++ last⟩
  | ⟨piece :: rest, last⟩ => ⟨{ piece with gap := gap ++ piece.gap } :: rest, last⟩

theorem text_behind (gap : List Char) (l : Layout) : (l.behind gap).text = gap ++ l.text := by
  rcases l with ⟨_ | ⟨piece, rest⟩, last⟩
  · rfl
  · exact List.append_assoc gap piece.gap _

theorem kinds_behind (gap : List Char) (l : Layout) : (l.behind gap).kinds = l.kinds := by
  rcases l with ⟨_ | ⟨piece, rest⟩, last⟩ <;> rfl

theorem validBefore_behind {gap rest : List Char} {l : Layout} (hValid : l.ValidBefore rest)
    (hGap : Gap gap (l.text ++ rest)) : (l.behind gap).ValidBefore rest := by
  rcases l with ⟨_ | ⟨piece, more⟩, last⟩
  · exact Gap.append hGap hValid
  · refine ⟨Gap.append ?_ hValid.1, hValid.2⟩
    rw [textFrom_append, ← List.append_assoc piece.text, ← List.append_assoc piece.gap]
    exact hGap

end Layout

/-! ## §2 Where Nothing More Can Come -/

/-- Neither a separator nor a word that may come at the place stands in front. -/
structure Place.Stuck (p : Place) (rest : List Char) : Prop where
  separator : separator? rest = none
  word : p.lexeme? rest = none

theorem Place.lexeme?_nil (p : Place) : p.lexeme? [] = none := by
  rw [Option.eq_none_iff_forall_ne_some]
  rintro ⟨t, text, q⟩ hTaken
  obtain ⟨hPrefix, hNonempty⟩ := Terminal.isPrefix_of_lexeme? (Place.lexeme?_eq_some_iff.1 hTaken).2
  exact hNonempty (List.prefix_nil.1 hPrefix)

/-- At the end of a text nothing more can come. -/
theorem Place.stuck_nil (p : Place) : p.Stuck [] := ⟨rfl, p.lexeme?_nil⟩

/-- **Fronts**: from every place a text has a front of words that may follow each other, up to
where nothing more can come. -/
theorem exists_front (p : Place) (cs : List Char) :
    ∃ (l : Layout) (rest : List Char) (q : Place), cs = l.text ++ rest ∧ l.ValidBefore rest ∧
      p.follow? l.kinds = some q ∧ q.Stuck rest := by
  induction hLength : cs.length using Nat.strong_induction_on generalizing p cs with
  | _ n ih =>
  cases hTaken : separator? cs with
  | some sep =>
    -- A separator goes into the gap in front of what is behind it.
    obtain ⟨behind, rfl, hGap⟩ := gap_of_separator? hTaken
    have hPositive := List.length_pos_iff.2 (isPrefix_of_separator? hTaken).2
    rw [List.length_append] at hLength
    obtain ⟨l, rest, q, rfl, hValid, hFollow, hStuck⟩ := ih behind.length (by omega) p behind rfl
    refine ⟨l.behind sep, rest, q, ?_, Layout.validBefore_behind hValid hGap, ?_, hStuck⟩
    · rw [Layout.text_behind, List.append_assoc]
    · rw [Layout.kinds_behind]
      exact hFollow
  | none =>
    cases hWord : p.lexeme? cs with
    | some taken =>
      -- A word is the first piece, without a gap.
      obtain ⟨t, text, next⟩ := taken
      obtain ⟨hMove, hLexeme⟩ := Place.lexeme?_eq_some_iff.1 hWord
      obtain ⟨hSpelling, behind, rfl, hEnds⟩ := Terminal.lexeme?_eq_some_iff.1 hLexeme
      have hPositive := List.length_pos_iff.2 (Terminal.isPrefix_of_lexeme? hLexeme).2
      rw [List.length_append] at hLength
      obtain ⟨l, rest, q, rfl, hValid, hFollow, hStuck⟩ := ih behind.length (by omega) next behind rfl
      have hText : Layout.textFrom (l.last ++ rest) l.pieces = l.text ++ rest :=
        Layout.textFrom_append l.last rest l.pieces
      refine ⟨⟨⟨⟨t, text⟩, []⟩ :: l.pieces, l.last⟩, rest, q, ?_, ?_, ?_, hStuck⟩
      · exact (List.append_assoc text l.text rest).symm
      · exact ⟨Gap.nil _, hSpelling, hText ▸ hEnds, hValid⟩
      · exact Place.follow?_cons_eq_some_iff.2 ⟨next, hMove, hFollow⟩
    | none =>
      exact ⟨⟨[], []⟩, cs, p, rfl, Gap.nil cs, rfl, hTaken, hWord⟩

/-! ## §3 One Front -/

/-- A front that goes on with a word does not end where nothing more can come. -/
private theorem not_stuck_of_piece {p q : Place} {gap last rest₁ rest₂ : List Char} {piece : Piece}
    {more : List Piece} (hGap : Gap gap rest₁) (hStuck : p.Stuck rest₁)
    (hMove : (piece.terminal, q) ∈ p.moves)
    (hValid : Layout.ValidFrontFrom last rest₂ (piece :: more)) :
    gap ++ rest₁ ≠ Layout.textFrom last (piece :: more) ++ rest₂ := by
  intro hSame
  obtain ⟨hPieceGap, hSpelling, hEnds, -⟩ := hValid
  rw [Layout.textFrom, List.append_assoc, List.append_assoc, ← Layout.textFrom_append] at hSame
  obtain ⟨-, rfl⟩ := hGap.unique hPieceGap hSame hStuck.separator
    (separator?_eq_none_of_spelling hSpelling _)
  -- The word of the piece stands where nothing can come.
  have hWord := Place.lexeme?_eq_some_iff.2
    ⟨hMove, Terminal.lexeme?_eq_some_iff.2 ⟨hSpelling, _, rfl, hEnds⟩⟩
  rw [hStuck.word] at hWord
  cases hWord

/-- **One front**: up to where nothing more can come, a text is cut in one way into words that may
follow each other from a place. -/
theorem Layout.unique_front {p q₁ q₂ : Place} {l₁ l₂ : Layout} {rest₁ rest₂ : List Char}
    (hValid₁ : l₁.ValidBefore rest₁) (hValid₂ : l₂.ValidBefore rest₂)
    (hSame : l₁.text ++ rest₁ = l₂.text ++ rest₂)
    (hFollow₁ : p.follow? l₁.kinds = some q₁) (hFollow₂ : p.follow? l₂.kinds = some q₂)
    (hStuck₁ : q₁.Stuck rest₁) (hStuck₂ : q₂.Stuck rest₂) : l₁ = l₂ ∧ rest₁ = rest₂ := by
  rcases l₁ with ⟨pieces₁, gap₁⟩
  rcases l₂ with ⟨pieces₂, gap₂⟩
  induction pieces₁ generalizing p pieces₂ with
  | nil =>
    obtain rfl := Option.some.inj hFollow₁
    cases pieces₂ with
    | nil =>
      obtain ⟨rfl, rfl⟩ := Gap.unique hValid₁ hValid₂ hSame hStuck₁.separator hStuck₂.separator
      exact ⟨rfl, rfl⟩
    | cons piece₂ more₂ =>
      obtain ⟨next, hMove, -⟩ := Place.follow?_cons_eq_some_iff.1 hFollow₂
      exact (not_stuck_of_piece hValid₁ hStuck₁ hMove hValid₂ hSame).elim
  | cons piece₁ more₁ ih =>
    obtain ⟨next₁, hMove₁, hBehind₁⟩ := Place.follow?_cons_eq_some_iff.1 hFollow₁
    cases pieces₂ with
    | nil =>
      obtain rfl := Option.some.inj hFollow₂
      exact (not_stuck_of_piece hValid₂ hStuck₂ hMove₁ hValid₁ hSame.symm).elim
    | cons piece₂ more₂ =>
      obtain ⟨next₂, hMove₂, hBehind₂⟩ := Place.follow?_cons_eq_some_iff.1 hFollow₂
      obtain ⟨hGap₁, hSpelling₁, hEnds₁, hMore₁⟩ := hValid₁
      obtain ⟨hGap₂, hSpelling₂, hEnds₂, hMore₂⟩ := hValid₂
      simp only [Layout.text, Layout.textFrom, List.append_assoc] at hSame
      rw [← textFrom_append, ← textFrom_append] at hSame
      obtain ⟨hGaps, hTexts⟩ := hGap₁.unique hGap₂ hSame
        (separator?_eq_none_of_spelling hSpelling₁ _) (separator?_eq_none_of_spelling hSpelling₂ _)
      -- The word in front of the same text is the same word.
      have hWord₁ := Place.lexeme?_eq_some_iff.2
        ⟨hMove₁, Terminal.lexeme?_eq_some_iff.2 ⟨hSpelling₁, _, rfl, hEnds₁⟩⟩
      have hWord₂ := Place.lexeme?_eq_some_iff.2
        ⟨hMove₂, Terminal.lexeme?_eq_some_iff.2 ⟨hSpelling₂, _, rfl, hEnds₂⟩⟩
      rw [hTexts, hWord₂] at hWord₁
      obtain ⟨⟨t, text⟩, gap⟩ := piece₁
      obtain ⟨⟨u, other⟩, otherGap⟩ := piece₂
      simp only [Option.some.injEq, Prod.mk.injEq] at hWord₁
      obtain ⟨rfl, rfl, rfl⟩ := hWord₁
      obtain rfl : gap = otherGap := hGaps
      have hBehind := List.append_cancel_left hTexts
      rw [textFrom_append, textFrom_append] at hBehind
      obtain ⟨hLayout, rfl⟩ := ih hMore₁ hBehind₁ more₂ hMore₂ hBehind₂ hBehind
      simp only [Layout.mk.injEq] at hLayout
      rw [hLayout.1, hLayout.2]
      exact ⟨rfl, rfl⟩

/-- **One layout**: a text is cut in one way into words that may follow each other from a place. -/
theorem Layout.unique {p r₁ r₂ : Place} {l₁ l₂ : Layout} (hValid₁ : l₁.Valid) (hValid₂ : l₂.Valid)
    (hSame : l₁.text = l₂.text) (hFollow₁ : p.follow? l₁.kinds = some r₁)
    (hFollow₂ : p.follow? l₂.kinds = some r₂) : l₁ = l₂ :=
  (unique_front (validBefore_nil_iff.2 hValid₁) (validBefore_nil_iff.2 hValid₂)
    (by rw [hSame]) hFollow₁ hFollow₂ r₁.stuck_nil r₂.stuck_nil).1

end TapeMachine
