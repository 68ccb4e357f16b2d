import TapeMachine.Proofs.Language.Words

/-!
# Separators at the Front of a Text

What is skipped between words is what the grammar calls a gap, and a text is cut into gaps in one
way.

* `gap_of_separator?`: what is taken as a separator is a gap, and `separator?_eq_none_iff`: nothing is
  taken exactly where none stands;
* `Separator.space_or_comment`: a separator is a space, or a comment that is taken as a whole;
* `Separator.unique` and `Gap.unique`: two cuts of a text into separators are the same;
* `separator?_eq_none_of_spelling`: no word begins like a separator.
-/

namespace TapeMachine

/-! ## §1 Block Comments -/

/-- A text closes first behind a character if it closes first behind the rest, and the character
is not the first half of a closing mark. -/
theorem closesAfter_cons_iff {c : Char} {body : List Char} :
    ClosesAfter (c :: body) ↔ ClosesAfter body ∧ (c = '*' → body.head? ≠ some '/') := by
  refine ⟨fun hCloses => ⟨?_, ?_⟩, fun hParts => ?_⟩
  · intro front back hSplit
    apply hCloses (c :: front) back
    rw [List.cons_append, hSplit, List.cons_append]
  · intro hStar hHead
    obtain ⟨more, rfl⟩ := List.head?_eq_some_iff.1 hHead
    have hBack : more ++ ['*', '/'] = [] := hCloses [] _ (by simp [hStar])
    simp at hBack
  · intro front back hSplit
    cases front with
    | cons d front =>
      apply hParts.1 front back
      simpa using (List.cons.inj hSplit).2
    | nil =>
      -- The mark would begin with the character itself.
      cases body with
      | nil => simp at hSplit
      | cons d more =>
        simp only [List.cons_append, List.nil_append, List.cons.injEq] at hSplit
        exact absurd (congrArg some hSplit.2.1) (hParts.2 hSplit.1)

theorem closesAfter_nil : ClosesAfter [] := by
  intro front back hSplit
  have hLength := congrArg List.length hSplit
  simp at hLength
  exact List.eq_nil_of_length_eq_zero (by omega)

/-- A comment is taken through its first closing mark. -/
theorem throughClose?_eq_some_iff {cs text : List Char} :
    throughClose? cs = some text ↔
      ∃ body rest, text = body ++ ['*', '/'] ∧ cs = text ++ rest ∧ ClosesAfter body := by
  fun_induction throughClose? cs generalizing text with
  | case1 =>
    -- There is no mark in an empty text.
    refine ⟨fun hTaken => (by cases hTaken), ?_⟩
    intro hGiven
    rcases hGiven with ⟨body, rest, rfl, hSplit, -⟩
    simp at hSplit
  | case2 after =>
    -- The mark stands in front, and the body is empty.
    refine ⟨fun hTaken => ?_, ?_⟩
    · obtain rfl := Option.some.inj hTaken
      exact ⟨[], after, rfl, rfl, closesAfter_nil⟩
    · intro hGiven
      rcases hGiven with ⟨body, rest, rfl, hSplit, hCloses⟩
      cases body with
      | nil => rfl
      | cons c body =>
        -- A longer body would begin with the closing mark.
        simp only [List.cons_append, List.append_assoc, List.cons.injEq] at hSplit
        have hHead : body.head? = some '/' := by
          cases body with
          | nil => simp at hSplit
          | cons d body => simpa using (congrArg List.head? hSplit.2).symm
        exact absurd hHead ((closesAfter_cons_iff.1 hCloses).2 hSplit.1.symm)
  | case3 c after hOpen ih =>
    -- The character belongs to the body, and the mark is looked for behind it.
    rw [Option.map_eq_some_iff]
    refine ⟨?_, ?_⟩
    · intro hGiven
      rcases hGiven with ⟨found, hFound, rfl⟩
      obtain ⟨body, rest, rfl, hSplit, hCloses⟩ := ih.1 hFound
      refine ⟨c :: body, rest, rfl, by rw [hSplit]; rfl, closesAfter_cons_iff.2 ⟨hCloses, ?_⟩⟩
      intro hStar hHead
      obtain ⟨more, rfl⟩ := List.head?_eq_some_iff.1 hHead
      exact hOpen _ hStar (by rw [hSplit]; rfl)
    · intro hGiven
      rcases hGiven with ⟨body, rest, rfl, hSplit, hCloses⟩
      simp only [List.append_assoc] at hSplit
      cases body with
      | nil =>
        simp only [List.cons_append, List.nil_append, List.cons.injEq] at hSplit
        exact (hOpen rest hSplit.1 hSplit.2).elim
      | cons d body =>
        simp only [List.cons_append, List.nil_append, List.cons.injEq] at hSplit
        refine ⟨body ++ ['*', '/'], ih.2 ⟨body, rest, rfl, ?_, ?_⟩, ?_⟩
        · simp [hSplit.2]
        · exact (closesAfter_cons_iff.1 hCloses).1
        · rw [hSplit.1, List.cons_append]

theorem blockComment?_eq_some_iff {cs text : List Char} :
    blockComment? cs = some text ↔
      ∃ body rest, text = '/' :: '*' :: (body ++ ['*', '/']) ∧ cs = text ++ rest ∧
        ClosesAfter body := by
  unfold blockComment?
  split
  · next rest =>
    rw [Option.map_eq_some_iff]
    refine ⟨?_, ?_⟩
    · intro hGiven
      rcases hGiven with ⟨found, hFound, rfl⟩
      obtain ⟨body, behind, rfl, rfl, hCloses⟩ := throughClose?_eq_some_iff.1 hFound
      exact ⟨body, behind, rfl, rfl, hCloses⟩
    · intro hGiven
      rcases hGiven with ⟨body, behind, rfl, hSplit, hCloses⟩
      refine ⟨body ++ ['*', '/'], throughClose?_eq_some_iff.2 ⟨body, behind, rfl, ?_, hCloses⟩, rfl⟩
      simpa using hSplit
  · next hOpen =>
    refine ⟨fun hTaken => (by cases hTaken), ?_⟩
    intro hGiven
    rcases hGiven with ⟨body, behind, rfl, hSplit, -⟩
    exact (hOpen _ hSplit).elim

/-! ## §2 Comments to the End of the Line -/

theorem lineComment?_eq_some_iff {cs text : List Char} :
    lineComment? cs = some text ↔
      ∃ line rest, text = '/' :: '/' :: line ∧ cs = text ++ rest ∧ '\n' ∉ line ∧
        line.head? ≠ some '/' ∧ ∀ c, rest.head? = some c → c = '\n' := by
  refine ⟨fun hTaken => ?_, ?_⟩
  · unfold lineComment? at hTaken
    split at hTaken
    · cases hTaken
    · next behind hNoDescription =>
      obtain rfl := Option.some.inj hTaken
      obtain ⟨hAll, rest, hSplit, hEnds⟩ := takeWhile_split (· != '\n') behind
      have hLine : restOfLine ('/' :: '/' :: behind) =
          '/' :: '/' :: behind.takeWhile (· != '\n') := by simp [restOfLine]
      refine ⟨_, rest, hLine, ?_, fun hMem => ?_, fun hHead => ?_, fun c hc => ?_⟩
      · rw [hLine]
        exact congrArg (fun more => '/' :: '/' :: more) hSplit
      · simpa using hAll _ hMem
      · obtain ⟨more, hMore⟩ := List.head?_eq_some_iff.1 hHead
        rw [hMore] at hSplit
        exact hNoDescription _ (by rw [hSplit]; rfl)
      · simpa using hEnds c hc
    · cases hTaken
  · intro hGiven
    rcases hGiven with ⟨line, rest, rfl, rfl, hLine, hHead, hEnds⟩
    have hRest : restOfLine ('/' :: '/' :: line ++ rest) = '/' :: '/' :: line := by
      refine takeWhile_eq_iff.2 ⟨ne_feed_of_not_mem (by simpa using hLine), rest, rfl, fun c hc => ?_⟩
      simpa using hEnds c hc
    unfold lineComment?
    split
    · next behind hThree =>
      -- A third slash could only stand in the line itself, or begin what is behind it.
      simp only [List.cons_append, List.cons.injEq, true_and] at hThree
      cases line with
      | nil =>
        have hNewline := hEnds '/' (by simpa using congrArg List.head? hThree)
        simp at hNewline
      | cons d line =>
        simp only [List.cons_append, List.cons.injEq] at hThree
        exact absurd (congrArg some hThree.1) hHead
    · rw [hRest]
    · next hNoSlashes => exact (hNoSlashes _ rfl).elim

/-! ## §3 Separators -/

/-- White space, and no comment, begins with a space. -/
theorem separator?_eq_of_isSpace {c : Char} (hSpace : isSpace c = true) (rest : List Char) :
    separator? (c :: rest) = some (c :: rest.takeWhile isSpace) := by
  simp [separator?, run?, hSpace]

/-- A separator that does not begin with a space is a comment. -/
theorem separator?_eq_of_not_isSpace {c : Char} (hSpace : isSpace c = false) (rest : List Char) :
    separator? (c :: rest) =
      (lineComment? (c :: rest)).orElse fun _ => blockComment? (c :: rest) := by
  simp [separator?, run?, hSpace]

/-- A separator is a space or a comment, and a comment is taken as a whole. -/
theorem Separator.space_or_comment {sep rest : List Char} (hSep : Separator sep rest) :
    (∃ c, sep = [c] ∧ isSpace c = true) ∨
      (∃ more, sep = '/' :: more) ∧ separator? (sep ++ rest) = some sep := by
  cases hSep with
  | space hSpace => exact Or.inl ⟨_, rfl, hSpace⟩
  | @lineComment line _ hLine hHead hEnds =>
    refine Or.inr ⟨⟨_, rfl⟩, ?_⟩
    have hTaken : lineComment? ('/' :: '/' :: line ++ rest) = some ('/' :: '/' :: line) :=
      lineComment?_eq_some_iff.2 ⟨line, rest, rfl, rfl, hLine, hHead, hEnds⟩
    rw [List.cons_append] at hTaken ⊢
    rw [separator?_eq_of_not_isSpace (by decide), hTaken]
    rfl
  | @blockComment body _ hCloses =>
    refine Or.inr ⟨⟨_, rfl⟩, ?_⟩
    rw [List.cons_append, separator?_eq_of_not_isSpace (by decide)]
    exact blockComment?_eq_some_iff.2 ⟨body, rest, rfl, rfl, hCloses⟩

/-- Every separator is noticed. -/
theorem Separator.separator?_ne_none {sep rest : List Char} (hSep : Separator sep rest) :
    separator? (sep ++ rest) ≠ none := by
  rcases hSep.space_or_comment with ⟨c, rfl, hSpace⟩ | ⟨-, hTaken⟩
  · show separator? (c :: rest) ≠ none
    rw [separator?_eq_of_isSpace hSpace]
    exact Option.some_ne_none _
  · rw [hTaken]
    exact Option.some_ne_none _

/-- The separator in front of a text is determined by the text. -/
theorem Separator.unique {sep₁ sep₂ rest₁ rest₂ : List Char} (hSep₁ : Separator sep₁ rest₁)
    (hSep₂ : Separator sep₂ rest₂) (hSame : sep₁ ++ rest₁ = sep₂ ++ rest₂) :
    sep₁ = sep₂ ∧ rest₁ = rest₂ := by
  -- White space is told from comments by its first character.
  have hSlash : ∀ {c : Char} {front back : List Char}, isSpace c = true →
      c :: front ≠ '/' :: back := by
    intro c front back hSpace hCons
    rw [(List.cons.inj hCons).1] at hSpace
    exact absurd hSpace (by decide)
  rcases hSep₁.space_or_comment with ⟨c, rfl, hSpace₁⟩ | ⟨⟨more₁, hMore₁⟩, hTaken₁⟩ <;>
    rcases hSep₂.space_or_comment with ⟨d, rfl, hSpace₂⟩ | ⟨⟨more₂, hMore₂⟩, hTaken₂⟩
  · simpa using hSame
  · exact (hSlash hSpace₁ (hSame.trans (by rw [hMore₂, List.cons_append]))).elim
  · exact (hSlash hSpace₂ (hSame.symm.trans (by rw [hMore₁, List.cons_append]))).elim
  · rw [hSame, hTaken₂] at hTaken₁
    obtain rfl := Option.some.inj hTaken₁
    exact ⟨rfl, List.append_cancel_left hSame⟩

/-! ## §4 Gaps -/

/-- A gap behind a gap is one gap. -/
theorem Gap.append {gap₁ gap₂ rest : List Char} (hGap₁ : Gap gap₁ (gap₂ ++ rest))
    (hGap₂ : Gap gap₂ rest) : Gap (gap₁ ++ gap₂) rest := by
  generalize hBehind : gap₂ ++ rest = behind at hGap₁
  induction hGap₁ with
  | nil => exact hGap₂
  | @cons sep gap _ hSep _ ih =>
    rw [List.append_assoc]
    apply Gap.cons
    · rw [List.append_assoc, hBehind]
      exact hSep
    · exact ih hBehind

/-- One separator is a gap. -/
theorem Separator.gap {sep rest : List Char} (hSep : Separator sep rest) : Gap sep rest := by
  have hGap : Gap (sep ++ []) rest := Gap.cons hSep (Gap.nil rest)
  rw [List.append_nil] at hGap
  exact hGap

/-- White space is a gap. -/
theorem gap_of_spaces {run : List Char} (hRun : ∀ c ∈ run, isSpace c = true) (rest : List Char) :
    Gap run rest := by
  induction run with
  | nil => exact Gap.nil rest
  | cons c run ih =>
    show Gap ([c] ++ run) rest
    apply Gap.cons
    · exact Separator.space (hRun c List.mem_cons_self)
    · exact ih fun d hd => hRun d (List.mem_cons_of_mem c hd)

/-- **What is skipped** is a gap. -/
theorem gap_of_separator? {cs text : List Char} (hTaken : separator? cs = some text) :
    ∃ rest, cs = text ++ rest ∧ Gap text rest := by
  cases cs with
  | nil => cases hTaken
  | cons c cs =>
    cases hSpace : isSpace c with
    | true =>
      -- A run of white space.
      rw [separator?_eq_of_isSpace hSpace] at hTaken
      obtain rfl := Option.some.inj hTaken
      refine ⟨cs.dropWhile isSpace, ?_, gap_of_spaces ?_ _⟩
      · rw [List.cons_append, List.takeWhile_append_dropWhile]
      · intro d hd
        rcases List.mem_cons.1 hd with rfl | hd
        · exact hSpace
        · exact List.mem_takeWhile_imp hd
    | false =>
      -- A comment, to the end of the line or between marks.
      rw [separator?_eq_of_not_isSpace hSpace] at hTaken
      cases hLine : lineComment? (c :: cs) with
      | some found =>
        rw [hLine] at hTaken
        obtain rfl := Option.some.inj hTaken
        obtain ⟨line, rest, rfl, hSplit, hNewline, hHead, hEnds⟩ := lineComment?_eq_some_iff.1 hLine
        exact ⟨rest, hSplit, (Separator.lineComment hNewline hHead hEnds).gap⟩
      | none =>
        rw [hLine] at hTaken
        obtain ⟨body, rest, rfl, hSplit, hCloses⟩ := blockComment?_eq_some_iff.1 hTaken
        exact ⟨rest, hSplit, (Separator.blockComment hCloses).gap⟩

/-- Nothing is skipped exactly where no separator stands. -/
theorem separator?_eq_none_iff {cs : List Char} :
    separator? cs = none ↔ ∀ sep rest, cs = sep ++ rest → ¬ Separator sep rest := by
  refine ⟨fun hNone sep rest hSplit hSep => ?_, fun hNowhere => ?_⟩
  · rw [hSplit] at hNone
    exact hSep.separator?_ne_none hNone
  · apply Option.eq_none_iff_forall_ne_some.2
    intro text hTaken
    obtain ⟨rest, rfl, hGap⟩ := gap_of_separator? hTaken
    cases hGap with
    | nil => exact (isPrefix_of_separator? hTaken).2 rfl
    | cons hSep _ => exact hNowhere _ _ (List.append_assoc _ _ _) hSep

/-- **Gaps** end where no separator follows, so that a text is cut into a gap and the rest in one
way. -/
theorem Gap.unique {gap₁ gap₂ rest₁ rest₂ : List Char} (hGap₁ : Gap gap₁ rest₁)
    (hGap₂ : Gap gap₂ rest₂) (hSame : gap₁ ++ rest₁ = gap₂ ++ rest₂)
    (hEnd₁ : separator? rest₁ = none) (hEnd₂ : separator? rest₂ = none) :
    gap₁ = gap₂ ∧ rest₁ = rest₂ := by
  induction hGap₁ generalizing gap₂ with
  | nil rest₁ =>
    cases hGap₂ with
    | nil => exact ⟨rfl, hSame⟩
    | cons hSep₂ _ =>
      -- The second text begins with a separator, and the first does not.
      rw [List.nil_append, List.append_assoc] at hSame
      exact absurd (hSame ▸ hEnd₁) hSep₂.separator?_ne_none
  | cons hSep₁ _ ih =>
    rw [List.append_assoc] at hSame
    cases hGap₂ with
    | nil =>
      rw [List.nil_append] at hSame
      exact absurd (hSame ▸ hEnd₂) hSep₁.separator?_ne_none
    | cons hSep₂ hGap₂ =>
      -- Both texts begin with the same separator.
      rw [List.append_assoc] at hSame
      obtain ⟨rfl, hBehind⟩ := hSep₁.unique hSep₂ hSame
      obtain ⟨rfl, hRest⟩ := ih hGap₂ hBehind hEnd₁
      exact ⟨rfl, hRest⟩

/-! ## §5 Words Are No Separators -/

/-- No word begins with white space, and only a description begins with a slash. -/
private theorem begins_eq_false {t : Terminal} {c : Char}
    (hChar : isSpace c = true ∨ c = '/' ∧ t ≠ .description) : t.begins c = false := by
  rcases hChar with hSpace | ⟨rfl, hOther⟩
  · simp only [isSpace, List.contains_eq_mem, List.mem_cons, List.not_mem_nil, or_false,
      decide_eq_true_eq] at hSpace
    rcases hSpace with rfl | rfl | rfl | rfl | rfl <;> cases t <;> decide
  · cases t with
    | description => exact absurd rfl hOther
    | _ => decide

/-- **Words are no separators**: where a word stands nothing is skipped. -/
theorem separator?_eq_none_of_spelling {t : Terminal} {text : List Char}
    (hSpelling : t.Spelling text) (rest : List Char) : separator? (text ++ rest) = none := by
  obtain ⟨c, more, rfl, hBegins⟩ := hSpelling.begins
  have hSpace : isSpace c = false := by
    apply Bool.eq_false_iff.2
    intro hSpace
    rw [begins_eq_false (Or.inl hSpace)] at hBegins
    cases hBegins
  rw [List.cons_append, separator?_eq_of_not_isSpace hSpace]
  by_cases hSlash : c = '/'
  · -- A description has two more slashes, and a comment must not.
    have hKind : t = .description := by
      by_contra hOther
      rw [begins_eq_false (Or.inr ⟨hSlash, hOther⟩)] at hBegins
      cases hBegins
    subst hKind
    obtain ⟨line, hLine, -⟩ := hSpelling
    rw [← List.cons_append, hLine]
    rfl
  · simp [lineComment?, blockComment?, hSlash]

end TapeMachine
