import Mathlib.Data.List.TakeWhile
import TapeMachine.Proofs.Language.Layout

/-!
# Words at the Front of a Text

The words that are taken from the front of a text are those of the grammar.

* `Terminal.lexeme?_eq_some_iff`: a word is taken exactly where its kind is spelled and ends;
* `Terminal.lexeme?_eq_none_iff`: none is taken exactly where none of its spellings stands;
* `Place.pairwise_begins`: the words that may come at a place begin differently;
* `Place.lexeme?_eq_some_iff`: so the word in front is the only one that may come and stands there.
-/

namespace TapeMachine

/-! ## §1 Longest Runs -/

/-- The longest run of characters of a kind is a run of them that ends there. -/
theorem takeWhile_eq_iff {kind : Char → Bool} {cs text : List Char} :
    cs.takeWhile kind = text ↔
      (∀ c ∈ text, kind c = true) ∧
        ∃ rest, cs = text ++ rest ∧ ∀ c, rest.head? = some c → kind c = false := by
  constructor
  · rintro rfl
    refine ⟨fun c hc => List.mem_takeWhile_imp hc, cs.dropWhile kind,
      List.takeWhile_append_dropWhile.symm, ?_⟩
    intro c hc
    have hHead := List.head?_dropWhile_not kind cs
    rw [hc] at hHead
    simpa using hHead
  · intro hGiven
    rcases hGiven with ⟨hAll, rest, rfl, hEnd⟩
    have hRest : rest.takeWhile kind = [] := by
      cases rest with
      | nil => rfl
      | cons c rest => rw [List.takeWhile_cons, hEnd c rfl]; rfl
    rw [List.takeWhile_append_of_pos hAll, hRest, List.append_nil]

/-- A text is its longest run and a rest that does not go on with it. -/
theorem takeWhile_split (kind : Char → Bool) (cs : List Char) :
    (∀ c ∈ cs.takeWhile kind, kind c = true) ∧
      ∃ rest, cs = cs.takeWhile kind ++ rest ∧ ∀ c, rest.head? = some c → kind c = false :=
  takeWhile_eq_iff.1 rfl

/-- What is taken as a run is one that is not empty and ends there. -/
theorem run?_eq_some_iff_split {kind : Char → Bool} {cs text : List Char} :
    run? kind cs = some text ↔
      (text ≠ [] ∧ ∀ c ∈ text, kind c = true) ∧
        ∃ rest, cs = text ++ rest ∧ ∀ c, rest.head? = some c → kind c = false := by
  rw [run?_eq_some_iff, eq_comm, takeWhile_eq_iff]
  constructor
  · intro hGiven
    rcases hGiven with ⟨⟨hAll, hSplit⟩, hNonempty⟩
    exact ⟨⟨hNonempty, hAll⟩, hSplit⟩
  · intro hGiven
    rcases hGiven with ⟨⟨hNonempty, hAll⟩, hSplit⟩
    exact ⟨⟨hAll, hSplit⟩, hNonempty⟩

/-- A text within one line is a run of characters that do not end it. -/
theorem ne_feed_of_not_mem {text : List Char} (hText : '\n' ∉ text) :
    ∀ c ∈ text, (c != '\n') = true := by
  intro c hc
  have hOther : c ≠ '\n' := ne_of_mem_of_not_mem hc hText
  simpa using hOther

/-! ## §2 Words -/

namespace Terminal

/-- A fixed text is taken where it stands. -/
private theorem literal?_eq_some_iff_split {t : Terminal} {fixed cs text : List Char}
    (hEnds : ∀ c, t.extendedBy c = false) :
    literal? fixed cs = some text ↔
      text = fixed ∧ ∃ rest, cs = text ++ rest ∧ t.EndsBefore rest := by
  rw [literal?_eq_some_iff]
  constructor
  · intro hGiven
    rcases hGiven with ⟨rfl, rest, rfl⟩
    exact ⟨rfl, rest, rfl, fun c _ => hEnds c⟩
  · intro hGiven
    rcases hGiven with ⟨rfl, rest, rfl, -⟩
    exact ⟨rfl, rest, rfl⟩

/-- **Words**: a kind of word takes a text from the front exactly if the text is a spelling of the
kind, stands there, and ends there. -/
theorem lexeme?_eq_some_iff {t : Terminal} {cs text : List Char} :
    t.lexeme? cs = some text ↔
      t.Spelling text ∧ ∃ rest, cs = text ++ rest ∧ t.EndsBefore rest := by
  cases t with
  | bit =>
    simp only [lexeme?, Spelling]
    cases hZero : literal? ['0'] cs with
    | some found =>
      -- A 0 is taken, and a 1 cannot stand at the same place.
      have hFound := (literal?_eq_some_iff_split (t := .bit) (fun _ => rfl)).1 hZero
      obtain ⟨rfl, rest, rfl, hEnds⟩ := hFound
      constructor
      · intro hGiven
        cases hGiven
        exact ⟨.inl rfl, rest, rfl, hEnds⟩
      · intro hGiven
        rcases hGiven with ⟨rfl | rfl, other, hOther, -⟩
        · rfl
        · cases hOther
    | none =>
      -- No 0 is taken, so that none stands there.
      change literal? ['1'] cs = some text ↔ _
      rw [literal?_eq_some_iff_split (t := .bit) (fun _ => rfl)]
      constructor
      · intro hGiven
        rcases hGiven with ⟨rfl, hSplit⟩
        exact ⟨.inr rfl, hSplit⟩
      · intro hGiven
        rcases hGiven with ⟨rfl | rfl, hSplit⟩
        · have hTaken := (literal?_eq_some_iff_split (t := .bit) (fun _ => rfl)).2 ⟨rfl, hSplit⟩
          rw [hZero] at hTaken
          cases hTaken
        · exact ⟨rfl, hSplit⟩
  | state => exact run?_eq_some_iff_split
  | movement => exact run?_eq_some_iff_split
  | library =>
    cases cs with
    | nil =>
      constructor
      · intro hGiven
        cases hGiven
      · intro hGiven
        rcases hGiven with ⟨⟨c, name, rfl, -⟩, rest, hNil, -⟩
        cases hNil
    | cons c cs =>
      simp only [lexeme?, Spelling]
      constructor
      · intro hTaken
        split at hTaken
        · next hStart =>
          -- The first character is checked by itself, and the others are a run.
          obtain rfl := Option.some.inj hTaken
          obtain ⟨hAll, rest, hSplit, hEnds⟩ := takeWhile_split isNameChar cs
          refine ⟨⟨c, _, rfl, hStart, hAll⟩, rest, ?_, hEnds⟩
          rw [List.cons_append, ← hSplit]
        · cases hTaken
      · intro hGiven
        rcases hGiven with ⟨⟨d, name, rfl, hStart, hAll⟩, rest, hSplit, hEnds⟩
        rw [List.cons_append] at hSplit
        obtain ⟨rfl, rfl⟩ := List.cons.inj hSplit
        rw [if_pos hStart, takeWhile_eq_iff.2 ⟨hAll, rest, rfl, hEnds⟩]
  | description =>
    simp only [lexeme?, Spelling]
    constructor
    · intro hTaken
      split at hTaken
      · next hSlashes =>
        -- The slashes are part of the line that is taken, and do not end it.
        obtain rfl := Option.some.inj hTaken
        obtain ⟨line, rfl⟩ := List.isPrefixOf_iff_prefix.1 hSlashes
        obtain ⟨hAll, rest, hSplit, hEnds⟩ := takeWhile_split (· != '\n') line
        have hLine : restOfLine (['/', '/', '/'] ++ line) =
            '/' :: '/' :: '/' :: line.takeWhile (· != '\n') := by simp [restOfLine]
        refine ⟨⟨_, hLine, fun hMem => ?_⟩, rest, ?_, hEnds⟩
        · simpa using hAll _ hMem
        · rw [hLine]
          simpa using hSplit
      · cases hTaken
    · intro hGiven
      rcases hGiven with ⟨⟨line, rfl, hLine⟩, rest, rfl, hEnds⟩
      rw [if_pos (by simp [List.isPrefixOf])]
      exact congrArg some (takeWhile_eq_iff.2
        ⟨ne_feed_of_not_mem (by simpa using hLine), rest, rfl, hEnds⟩)
  | _ =>
    -- All other kinds have one spelling, and nothing belongs to them that follows.
    exact literal?_eq_some_iff_split (fun _ => rfl)

/-- A word goes on with the characters that belong to its kind. -/
theorem Spelling.append {t : Terminal} {text more : List Char} (hSpelling : t.Spelling text)
    (hMore : ∀ c ∈ more, t.extendedBy c = true) : t.Spelling (text ++ more) := by
  cases t with
  | state | movement =>
    refine ⟨List.append_ne_nil_of_left_ne_nil hSpelling.1 more, fun c hc => ?_⟩
    rcases List.mem_append.1 hc with hc | hc
    · exact hSpelling.2 c hc
    · exact hMore c hc
  | library =>
    obtain ⟨c, rest, rfl, hStart, hRest⟩ := hSpelling
    refine ⟨c, rest ++ more, rfl, hStart, fun d hd => ?_⟩
    rcases List.mem_append.1 hd with hd | hd
    · exact hRest d hd
    · exact hMore d hd
  | description =>
    obtain ⟨line, rfl, hLine⟩ := hSpelling
    refine ⟨line ++ more, rfl, fun hFeed => ?_⟩
    rcases List.mem_append.1 hFeed with hFeed | hFeed
    · exact hLine hFeed
    · exact absurd (hMore _ hFeed) (by decide)
  | _ =>
    -- Nothing belongs to the kinds with one spelling.
    have hNothing : more = [] := by
      apply List.eq_nil_iff_forall_not_mem.2
      intro c hc
      exact Bool.false_ne_true (hMore c hc)
    rw [hNothing, List.append_nil]
    exact hSpelling

/-- A kind of word takes nothing exactly where none of its spellings stands. -/
theorem lexeme?_eq_none_iff {t : Terminal} {cs : List Char} :
    t.lexeme? cs = none ↔ ∀ text, t.Spelling text → ¬ text <+: cs := by
  refine ⟨fun hNone text hSpelling hPrefix => ?_, fun hNowhere => ?_⟩
  · -- What stands there goes on as far as it can, and would be taken.
    obtain ⟨behind, rfl⟩ := hPrefix
    obtain ⟨hMore, rest, hSplit, hEnds⟩ := takeWhile_split t.extendedBy behind
    have hTaken := lexeme?_eq_some_iff.2
      ⟨hSpelling.append hMore, rest, by rw [List.append_assoc, ← hSplit], hEnds⟩
    rw [hNone] at hTaken
    cases hTaken
  · apply Option.eq_none_iff_forall_ne_some.2
    intro text hTaken
    obtain ⟨hSpelling, rest, rfl, -⟩ := lexeme?_eq_some_iff.1 hTaken
    exact hNowhere text hSpelling (List.prefix_append text rest)

end Terminal

/-! ## §3 The Word in Front -/

namespace Terminal

/-- The characters that a word of a kind can begin with. -/
def begins : Terminal → Char → Bool
  | .leftBrace, c => c == '{'
  | .rightBrace, c => c == '}'
  | .leftParen, c => c == '('
  | .rightParen, c => c == ')'
  | .comma, c => c == ','
  | .semicolon, c => c == ';'
  | .equals, c => c == '='
  | .initialWord, c => c == 'I'
  | .finalWord, c => c == 'F'
  | .composeWord, c => c == 'c'
  | .bit, c => c == '0' || c == '1'
  | .state, c => isNameChar c
  | .library, c => isNameStart c
  | .movement, c => isMovementChar c
  | .description, c => c == '/'

/-- A word begins with a character that its kind can begin with. -/
theorem Spelling.begins {t : Terminal} {text : List Char} (hSpelling : t.Spelling text) :
    ∃ c rest, text = c :: rest ∧ t.begins c = true := by
  cases t with
  | bit =>
    rcases hSpelling with rfl | rfl
    · exact ⟨'0', [], rfl, rfl⟩
    · exact ⟨'1', [], rfl, rfl⟩
  | state | movement =>
    obtain ⟨hNonempty, hAll⟩ := hSpelling
    obtain ⟨c, rest, rfl⟩ := List.exists_cons_of_ne_nil hNonempty
    exact ⟨c, rest, rfl, hAll c List.mem_cons_self⟩
  | library =>
    obtain ⟨c, rest, rfl, hStart, -⟩ := hSpelling
    exact ⟨c, rest, rfl, hStart⟩
  | description =>
    obtain ⟨line, rfl, -⟩ := hSpelling
    exact ⟨'/', '/' :: '/' :: line, rfl, rfl⟩
  | _ =>
    -- The kinds with one spelling.
    obtain rfl := hSpelling
    exact ⟨_, _, rfl, rfl⟩

/-- A word that is taken from the front begins with the first character there. -/
theorem begins_of_lexeme? {t : Terminal} {c : Char} {rest text : List Char}
    (hTaken : t.lexeme? (c :: rest) = some text) : t.begins c = true := by
  obtain ⟨hSpelling, behind, hSplit, -⟩ := lexeme?_eq_some_iff.1 hTaken
  obtain ⟨d, more, rfl, hBegins⟩ := hSpelling.begins
  rw [List.cons_append] at hSplit
  rw [(List.cons.inj hSplit).1]
  exact hBegins

end Terminal

namespace Place

/-- Words of different kinds that may come at a place begin differently. -/
theorem pairwise_begins (p : Place) :
    p.moves.Pairwise fun a b => ∀ c, a.1.begins c = true → b.1.begins c = false := by
  cases p <;> simp [moves, Terminal.begins]

/-- **The word in front**: what is taken at a place is a word that may come there, whichever of
them it is. -/
theorem lexeme?_eq_some_iff {p q : Place} {t : Terminal} {cs text : List Char} :
    p.lexeme? cs = some (t, text, q) ↔ (t, q) ∈ p.moves ∧ t.lexeme? cs = some text := by
  refine ⟨mem_moves_of_lexeme?, fun hWord => ?_⟩
  obtain ⟨hMove, hTaken⟩ := hWord
  obtain ⟨earlier, later, hMoves⟩ := List.append_of_mem hMove
  have hBegins := p.pairwise_begins
  rw [hMoves, List.pairwise_append] at hBegins
  obtain ⟨c, rest, rfl⟩ : ∃ c rest, cs = c :: rest := by
    apply List.exists_cons_of_ne_nil
    rintro rfl
    obtain ⟨hPrefix, hNonempty⟩ := Terminal.isPrefix_of_lexeme? hTaken
    exact hNonempty (List.prefix_nil.1 hPrefix)
  -- The words that are tried earlier begin with other characters.
  have hEarlier : ∀ move ∈ earlier, move.1.lexeme? (c :: rest) = none := by
    intro move hMem
    rw [Option.eq_none_iff_forall_ne_some]
    intro found hFound
    have hOther := hBegins.2.2 move hMem (t, q) List.mem_cons_self c
      (Terminal.begins_of_lexeme? hFound)
    rw [Terminal.begins_of_lexeme? hTaken] at hOther
    cases hOther
  rw [lexeme?, hMoves, List.findSome?_append, List.findSome?_eq_none_iff.2, Option.none_or]
  · simp [hTaken]
  · intro move hMem
    show (move.1.lexeme? (c :: rest)).map _ = none
    rw [hEarlier move hMem]
    rfl

/-- The place after a word is the one that its move gives. -/
theorem next?_eq_some_iff {p q : Place} {t : Terminal} :
    p.next? t = some q ↔ (t, q) ∈ p.moves := by
  rw [next?, List.lookup_eq_some_iff]
  constructor
  · intro hGiven
    rcases hGiven with ⟨earlier, later, hMoves, -⟩
    rw [hMoves]
    simp
  · intro hMove
    obtain ⟨earlier, later, hMoves⟩ := List.append_of_mem hMove
    refine ⟨earlier, later, hMoves, fun move hMem => ?_⟩
    have hNodup := p.nodup_expected
    rw [expected, hMoves, List.map_append, List.nodup_append] at hNodup
    have hOther := hNodup.2.2 move.1 (List.mem_map_of_mem hMem) t (by simp)
    simpa using Ne.symm hOther

theorem follow?_cons_eq_some_iff {t : Terminal} {rest : List Terminal} {p r : Place} :
    p.follow? (t :: rest) = some r ↔ ∃ q, (t, q) ∈ p.moves ∧ q.follow? rest = some r := by
  rw [follow?, Option.bind_eq_bind, Option.bind_eq_some_iff]
  simp only [next?_eq_some_iff]

end Place

end TapeMachine
