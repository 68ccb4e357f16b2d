import TapeMachine.Proofs.Attempts
import TapeMachine.Proofs.Language.Fronts

/-!
# Reading as Cutting

Reading a text succeeds exactly when the text is a valid layout whose words may follow each other,
and the words that are read are those of the layout, with the positions at which they stand.

* `readFrom_gap` and `readFrom_word`: how reading gets over a gap and over a word;
* `readFrom_front` and `readFrom_stuck`: how it gets over a front of the text, and how it ends;
* `readFrom_of_layout` (complete) and `layout_of_readFrom` (sound) make `readFrom_eq_ok_iff`;
* `front_of_readFrom_error`: where reading has ended with an error.
-/

namespace TapeMachine

open Layout

/-! ## §1 Positions -/

@[simp] theorem Cursor.after_nil (p : Cursor) : p.after [] = p := rfl

theorem Cursor.after_append (p : Cursor) (text more : List Char) :
    p.after (text ++ more) = (p.after text).after more :=
  List.foldl_append

/-- The words of some pieces with their positions, if the gap in front of them begins at one. -/
def lexemesFrom : Cursor → List Piece → List Lexeme
  | _, [] => []
  | now, piece :: rest =>
    let start := now.after piece.gap
    let stop := start.after piece.text
    ⟨piece.terminal, String.ofList piece.text, start, stop⟩ :: lexemesFrom stop rest

/-- Where the last word of some pieces begins, if the gap in front of them begins at `now`. Without
pieces that is where the last word in front of them began. -/
def lastStart (last : Cursor) : Cursor → List Piece → Cursor
  | _, [] => last
  | now, piece :: rest =>
    let start := now.after piece.gap
    lastStart start (start.after piece.text) rest

/-- The last word begins behind the words in front of it and its gap. -/
theorem lastStart_concat (last now : Cursor) (front : List Piece) (piece : Piece) :
    lastStart last now (front ++ [piece]) = now.after (textFrom [] front ++ piece.gap) := by
  induction front generalizing last now with
  | nil => rfl
  | cons first front ih =>
    rw [List.cons_append, lastStart, ih, textFrom, List.append_assoc, List.append_assoc,
      ← Cursor.after_append, ← Cursor.after_append]

/-! ## §2 Steps of Reading -/

variable {p q : Place} {last now : Cursor} {t : Terminal} {text rest : List Char}

/-- Characters that belong to what was taken last are passed over. -/
theorem readFrom_skip (p : Place) (last now : Cursor) (text rest : List Char) :
    readFrom p last now text.length (text ++ rest) = readFrom p last now 0 rest := by
  induction text with
  | nil => rfl
  | cons c text ih =>
    rw [List.length_cons, List.cons_append, readFrom]
    exact ih

/-- A separator is passed over as a whole. -/
theorem readFrom_separator? (hTaken : separator? (text ++ rest) = some text) :
    readFrom p last now 0 (text ++ rest) = readFrom p last (now.after text) 0 rest := by
  obtain ⟨-, hNonempty⟩ := isPrefix_of_separator? hTaken
  obtain ⟨c, text, rfl⟩ := List.exists_cons_of_ne_nil hNonempty
  rw [List.cons_append] at hTaken ⊢
  have hFront : p.front c (text ++ rest) = .separator (c :: text) := by
    simp only [Place.front, hTaken]
  rw [readFrom, hFront]
  exact readFrom_skip p last _ text rest

/-- A word is read, and then what follows it. -/
theorem readFrom_word (hMove : (t, q) ∈ p.moves) (hSpelling : t.Spelling text)
    (hEnds : t.EndsBefore rest) :
    readFrom p last now 0 (text ++ rest) =
      (readFrom q now (now.after text) 0 rest).map
        (⟨t, String.ofList text, now, now.after text⟩ :: ·) := by
  have hNoSeparator := separator?_eq_none_of_spelling hSpelling rest
  have hTaken : p.lexeme? (text ++ rest) = some (t, text, q) :=
    Place.lexeme?_eq_some_iff.2
      ⟨hMove, Terminal.lexeme?_eq_some_iff.2 ⟨hSpelling, rest, rfl, hEnds⟩⟩
  obtain ⟨c, text, rfl, -⟩ := hSpelling.begins
  rw [List.cons_append] at hNoSeparator hTaken ⊢
  have hFront : p.front c (text ++ rest) = .word t (c :: text) q := by
    simp only [Place.front, hNoSeparator, hTaken]
  rw [readFrom, hFront]
  simp only [List.length_cons, Nat.add_sub_cancel, readFrom_skip]
  cases readFrom q now (now.after (c :: text)) 0 rest <;> rfl

/-- White space in front is passed over, as much as there is. -/
private theorem readFrom_spaces (p : Place) (last now : Cursor) (cs : List Char) :
    readFrom p last now 0 cs =
      readFrom p last (now.after (cs.takeWhile isSpace)) 0 (cs.dropWhile isSpace) := by
  have hSplit : cs.takeWhile isSpace ++ cs.dropWhile isSpace = cs :=
    List.takeWhile_append_dropWhile
  cases hRun : cs.takeWhile isSpace with
  | nil =>
    rw [hRun, List.nil_append] at hSplit
    rw [hSplit, Cursor.after_nil]
  | cons c run =>
    have hTaken : separator? cs = some (c :: run) := by
      simp [separator?, run?, hRun]
    rw [hRun] at hSplit
    rw [← hSplit] at hTaken
    rw [← readFrom_separator? hTaken, hSplit]

/-- A separator of the grammar is passed over. -/
theorem readFrom_separator {sep : List Char} (hSep : Separator sep rest) :
    readFrom p last now 0 (sep ++ rest) = readFrom p last (now.after sep) 0 rest := by
  rcases hSep.space_or_comment with ⟨c, rfl, hSpace⟩ | ⟨-, hTaken⟩
  · -- The space may begin a longer run, which is passed over as a whole.
    show readFrom p last now 0 (c :: rest) = readFrom p last (now.next c) 0 rest
    rw [readFrom_spaces p last now, readFrom_spaces p last (now.next c),
      List.takeWhile_cons_of_pos hSpace, List.dropWhile_cons_of_pos hSpace]
    rfl
  · exact readFrom_separator? hTaken

/-- **Gaps** are passed over. -/
theorem readFrom_gap {gap : List Char} (hGap : Gap gap rest) :
    readFrom p last now 0 (gap ++ rest) = readFrom p last (now.after gap) 0 rest := by
  induction hGap generalizing now with
  | nil => rfl
  | cons hSep _ ih =>
    rw [List.append_assoc, readFrom_separator hSep, ih, Cursor.after_append]

/-! ## §3 Reading Fronts -/

/-- Reading goes over a front of words that may follow each other, and on from the place behind. -/
theorem readFrom_front (last now : Cursor) {l : Layout} (hValid : l.ValidBefore rest)
    (hFollow : p.follow? l.kinds = some q) :
    readFrom p last now 0 (l.text ++ rest) =
      (readFrom q (lastStart last now l.pieces) (now.after l.text) 0 rest).map
        (lexemesFrom now l.pieces ++ ·) := by
  rcases l with ⟨pieces, gap⟩
  induction pieces generalizing p last now with
  | nil =>
    obtain rfl := Option.some.inj hFollow
    show readFrom p last now 0 (gap ++ rest) = (readFrom p last (now.after gap) 0 rest).map id
    rw [readFrom_gap hValid]
    cases readFrom p last (now.after gap) 0 rest <;> rfl
  | cons piece more ih =>
    obtain ⟨hGap, hSpelling, hEnds, hMore⟩ := hValid
    rw [textFrom_append] at hGap hEnds
    obtain ⟨next, hMove, hFollow⟩ := Place.follow?_cons_eq_some_iff.1 hFollow
    let start := now.after piece.gap
    let stop := start.after piece.text
    let last' := lastStart start stop more
    have hRest : readFrom next start stop 0 (textFrom gap more ++ rest) =
        (readFrom q last' (stop.after (textFrom gap more)) 0 rest).map (lexemesFrom stop more ++ ·) :=
      ih start stop hMore hFollow
    show readFrom p last now 0 (piece.gap ++ (piece.text ++ textFrom gap more) ++ rest) =
      (readFrom q last' (now.after (piece.gap ++ (piece.text ++ textFrom gap more))) 0 rest).map _
    rw [List.append_assoc, List.append_assoc, readFrom_gap hGap, readFrom_word hMove hSpelling hEnds,
      hRest, Cursor.after_append, Cursor.after_append]
    cases readFrom q last' (stop.after (textFrom gap more)) 0 rest <;> rfl

/-- What is found where nothing more can come. -/
def foundAt : List Char → Unexpected
  | [] => .endOfInput
  | c :: rest =>
    match anyLexeme? (c :: rest) with
    | some text => .word (String.ofList text)
    | none => .character c

/-- Where nothing more can come, reading ends: between declarations at the end of the text, and
anywhere else with an error. -/
theorem readFrom_stuck (hStuck : p.Stuck rest) :
    readFrom p last now 0 rest =
      if p = .between ∧ rest = [] then .ok []
      else .error (p.error (foundAt rest) (if rest = [] then last else now)) := by
  cases rest with
  | nil => simp [readFrom, foundAt]
  | cons c rest =>
    have hFront : p.front c rest = .stuck (foundAt (c :: rest)) := by
      simp only [Place.front, hStuck.separator, hStuck.word, foundAt]
      cases anyLexeme? (c :: rest) <;> rfl
    rw [readFrom, hFront]
    simp

/-- **Complete**: a valid layout is read if its words may follow each other. -/
theorem readFrom_of_layout {l : Layout} (hValid : l.Valid)
    (hFollow : p.follow? l.kinds = some .between) :
    readFrom p last now 0 l.text = .ok (lexemesFrom now l.pieces) := by
  have hRead := readFrom_front last now (validBefore_nil_iff.2 hValid) hFollow
  rw [List.append_nil, readFrom_stuck (Place.stuck_nil _), if_pos ⟨rfl, rfl⟩] at hRead
  rw [hRead]
  exact congrArg Except.ok (List.append_nil _)

/-- **Sound**: a text that is read is a valid layout whose words may follow each other. -/
theorem layout_of_readFrom {cs : List Char} {lexemes : List Lexeme}
    (hRead : readFrom p last now 0 cs = .ok lexemes) :
    ∃ l : Layout, l.text = cs ∧ l.Valid ∧ p.follow? l.kinds = some .between := by
  obtain ⟨l, rest, q, rfl, hValid, hFollow, hStuck⟩ := exists_front p cs
  rw [readFrom_front last now hValid hFollow, readFrom_stuck hStuck] at hRead
  -- The front is all there is, or else reading would have ended with an error.
  split at hRead
  · next hEnd =>
    obtain ⟨rfl, rfl⟩ := hEnd
    exact ⟨l, (List.append_nil _).symm, validBefore_nil_iff.1 hValid, hFollow⟩
  · cases hRead

/-- **Reading as cutting**: words are read exactly if the text has a valid layout whose words may
follow each other, and then they are those of the layout. -/
theorem readFrom_eq_ok_iff {cs : List Char} {lexemes : List Lexeme} :
    readFrom p last now 0 cs = .ok lexemes ↔
      ∃ l : Layout, l.text = cs ∧ l.Valid ∧ p.follow? l.kinds = some .between ∧
        lexemes = lexemesFrom now l.pieces := by
  refine ⟨fun hRead => ?_, ?_⟩
  · obtain ⟨l, rfl, hValid, hFollow⟩ := layout_of_readFrom hRead
    rw [readFrom_of_layout hValid hFollow] at hRead
    exact ⟨l, rfl, hValid, hFollow, (Except.ok.inj hRead).symm⟩
  · intro hGiven
    rcases hGiven with ⟨l, rfl, hValid, hFollow, rfl⟩
    exact readFrom_of_layout hValid hFollow

/-- **Errors of reading**: a text that is not read has a front of words that may follow each other,
and nothing more can come behind it. The error says what is found there and what could have come. It
is placed there, or at the last word where the text ends there. -/
theorem front_of_readFrom_error {cs : List Char} {e : GrammarError}
    (hRead : readFrom p last now 0 cs = .error e) :
    ∃ (l : Layout) (rest : List Char) (q : Place), cs = l.text ++ rest ∧
      l.ValidBefore rest ∧ p.follow? l.kinds = some q ∧ q.Stuck rest ∧
      ¬ (q = .between ∧ rest = []) ∧
      e = q.error (foundAt rest)
        (if rest = [] then lastStart last now l.pieces else now.after l.text) := by
  obtain ⟨l, rest, q, rfl, hValid, hFollow, hStuck⟩ := exists_front p cs
  rw [readFrom_front last now hValid hFollow, readFrom_stuck hStuck] at hRead
  split at hRead
  · cases hRead
  · next hWithin =>
    exact ⟨l, rest, q, rfl, hValid, hFollow, hStuck, hWithin, (Except.error.inj hRead).symm⟩

/-- The error that is placed at the last word, wherever that is. -/
theorem exists_front_of_readFrom_error {cs : List Char} {e : GrammarError}
    (hRead : readFrom p last now 0 cs = .error e) :
    ∃ (l : Layout) (rest : List Char) (q : Place) (last' : Cursor), cs = l.text ++ rest ∧
      l.ValidBefore rest ∧ p.follow? l.kinds = some q ∧ q.Stuck rest ∧
      ¬ (q = .between ∧ rest = []) ∧
      e = q.error (foundAt rest) (if rest = [] then last' else now.after l.text) := by
  obtain ⟨l, rest, q, hText, hValid, hFollow, hStuck, hWithin, hError⟩ := front_of_readFrom_error hRead
  exact ⟨l, rest, q, _, hText, hValid, hFollow, hStuck, hWithin, hError⟩

end TapeMachine
