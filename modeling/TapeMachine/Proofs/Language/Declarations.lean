import Mathlib.Data.List.Basic
import TapeMachine.Proofs.Language.Words

/-!
# Sequences of Declarations

The words that may follow each other between declarations are exactly those of a sequence of
declarations.

* `Place.Completes` says that words lead from a place back to the place between declarations;
* `Place.Lists` describes the three places at which something is listed with commas;
* `follow?_declaration` and `exists_declaration`: the words of one declaration;
* `follow?_between_iff`: the words of a sequence of them.
-/

namespace TapeMachine

/-! ## §1 Words That Lead Between Declarations -/

/-- A word is spelled as its kind asks. -/
def Word.Spelled (w : Word) : Prop := w.terminal.Spelling w.text

/-- Words that may come at a place, and after which a declaration has just ended. -/
structure Place.Completes (p : Place) (words : List Word) : Prop where
  spelled : ∀ w ∈ words, w.Spelled
  follow : p.follow? (words.map Word.terminal) = some .between

namespace Place

theorem completes_nil_iff {p : Place} : p.Completes [] ↔ p = .between := by
  refine ⟨fun hCompletes => Option.some.inj hCompletes.follow, ?_⟩
  rintro rfl
  exact ⟨by simp, rfl⟩

theorem completes_cons_iff {p : Place} {w : Word} {rest : List Word} :
    p.Completes (w :: rest) ↔
      w.Spelled ∧ ∃ q, (w.terminal, q) ∈ p.moves ∧ q.Completes rest := by
  refine ⟨fun hCompletes => ?_, ?_⟩
  · obtain ⟨q, hMove, hFollow⟩ := follow?_cons_eq_some_iff.1 hCompletes.follow
    refine ⟨hCompletes.spelled w List.mem_cons_self, q, hMove, ?_, hFollow⟩
    exact fun v hv => hCompletes.spelled v (List.mem_cons_of_mem w hv)
  · intro hGiven
    rcases hGiven with ⟨hSpelled, q, hMove, hRest⟩
    refine ⟨?_, follow?_cons_eq_some_iff.2 ⟨q, hMove, hRest.follow⟩⟩
    intro v hv
    rcases List.mem_cons.1 hv with rfl | hv
    · exact hSpelled
    · exact hRest.spelled v hv

/-- Within a declaration there is a next word. -/
theorem Completes.exists_cons {p : Place} {words : List Word} (hCompletes : p.Completes words)
    (hWithin : p ≠ .between) :
    ∃ w rest, words = w :: rest ∧ w.Spelled ∧ ∃ q, (w.terminal, q) ∈ p.moves ∧ q.Completes rest := by
  cases words with
  | nil => exact absurd (completes_nil_iff.1 hCompletes) hWithin
  | cons w rest => exact ⟨w, rest, rfl, completes_cons_iff.1 hCompletes⟩

/-- Where only one word may come, it is the next one. -/
theorem Completes.only {p q : Place} {t : Terminal} {words : List Word}
    (hCompletes : p.Completes words) (hMoves : p.moves = [(t, q)]) :
    ∃ text rest, words = ⟨t, text⟩ :: rest ∧ t.Spelling text ∧ q.Completes rest := by
  have hWithin : p ≠ .between := by
    rintro rfl
    simp [moves] at hMoves
  obtain ⟨⟨u, text⟩, rest, rfl, hSpelled, r, hMove, hRest⟩ := hCompletes.exists_cons hWithin
  rw [hMoves, List.mem_singleton] at hMove
  obtain ⟨rfl, rfl⟩ := Prod.mk.inj hMove
  exact ⟨text, rest, rfl, hSpelled, hRest⟩

theorem follow?_append (p : Place) (front back : List Terminal) :
    p.follow? (front ++ back) = (p.follow? front).bind fun q => q.follow? back := by
  induction front generalizing p with
  | nil => rfl
  | cons t front ih =>
    rw [List.cons_append, follow?, follow?]
    cases p.next? t with
    | none => rfl
    | some q => exact ih q

/-! ## §2 Lists -/

/-- The places of a list: at `item` a word of a kind is due, at `next` a comma or the closing
brace, and at `last` the semicolon. -/
structure Lists (t : Terminal) (item next last : Place) : Prop where
  ofItem : item.moves = [(t, next)]
  ofNext : next.moves = [(.comma, item), (.rightBrace, last)]
  ofLast : last.moves = [(.semicolon, .between)]

theorem lists_finalStates : Lists .state .finalState .finalNext .finalEnd := ⟨rfl, rfl, rfl⟩

theorem lists_composition : Lists .library .composeName .composeNext .composeEnd := ⟨rfl, rfl, rfl⟩

variable {t : Terminal} {item next last : Place}

/-- Listed words lead to the place behind an item. -/
theorem Lists.follow?_listedWords (hLists : Lists t item next last) (first : List Char)
    (more : List (List Char)) :
    item.follow? ((listedWords t first more).map Word.terminal) = some next := by
  have hItem : item.next? t = some next :=
    next?_eq_some_iff.2 (by rw [hLists.ofItem]; exact List.mem_cons_self)
  have hComma : next.next? .comma = some item :=
    next?_eq_some_iff.2 (by rw [hLists.ofNext]; exact List.mem_cons_self)
  induction more generalizing first with
  | nil =>
    show (item.next? t).bind _ = some next
    rw [hItem]
    rfl
  | cons second more ih =>
    show (item.next? t).bind _ = some next
    rw [hItem]
    show (next.next? .comma).bind _ = some next
    rw [hComma]
    exact ih second

/-- The closing words lead from there to the end of the declaration. -/
theorem Lists.follow?_closingWords (hLists : Lists t item next last) :
    next.follow? (closingWords.map Word.terminal) = some Place.between := by
  have hBrace : next.next? .rightBrace = some last :=
    next?_eq_some_iff.2 (by rw [hLists.ofNext]; simp)
  have hSemicolon : last.next? .semicolon = some .between :=
    next?_eq_some_iff.2 (by rw [hLists.ofLast]; exact List.mem_cons_self)
  show (next.next? .rightBrace).bind _ = some Place.between
  rw [hBrace]
  show (last.next? .semicolon).bind _ = some Place.between
  rw [hSemicolon]
  rfl

/-- Where an item is due there is a list. -/
theorem Lists.exists_list (hLists : Lists t item next last) {words : List Word}
    (hCompletes : item.Completes words) :
    ∃ first more rest, words = listedWords t first more ++ (closingWords ++ rest) ∧
      Place.between.Completes rest := by
  induction hLength : words.length using Nat.strong_induction_on generalizing words with
  | _ n ih =>
  obtain ⟨first, words, rfl, -, hNext⟩ := hCompletes.only hLists.ofItem
  have hWithin : next ≠ .between := by
    rintro rfl
    simpa [moves] using hLists.ofNext
  obtain ⟨⟨u, text⟩, words, rfl, hText, q, hMove, hBehind⟩ := hNext.exists_cons hWithin
  rw [hLists.ofNext] at hMove
  simp only [List.mem_cons, Prod.mk.injEq, List.not_mem_nil, or_false] at hMove
  rcases hMove with ⟨rfl, rfl⟩ | ⟨rfl, rfl⟩
  · -- A comma: the list goes on.
    obtain rfl : text = [','] := hText
    simp only [List.length_cons] at hLength
    obtain ⟨second, more, rest, rfl, hRest⟩ := ih words.length (by omega) hBehind rfl
    exact ⟨first, second :: more, rest, rfl, hRest⟩
  · -- The closing brace: the list ends.
    obtain rfl : text = ['}'] := hText
    obtain ⟨text, rest, rfl, hText, hRest⟩ := hBehind.only hLists.ofLast
    obtain rfl : text = [';'] := hText
    exact ⟨first, [], rest, rfl, hRest⟩

/-! ## §3 Digits -/

/-- Digits lead back to the place behind a digit. -/
theorem follow?_digits (digits : List (List Char)) :
    Place.tapeNext.follow? ((digits.map (Word.mk .bit)).map Word.terminal) = some .tapeNext := by
  induction digits with
  | nil => rfl
  | cons digit digits ih => exact ih

/-- Within a tape there are digits up to its end. -/
theorem exists_digits {words : List Word} (hCompletes : Place.tapeNext.Completes words) :
    ∃ (digits : List (List Char)) (rest : List Word),
      words = digits.map (Word.mk .bit) ++ (closingWords ++ rest) ∧
        Place.between.Completes rest := by
  induction words with
  | nil => cases completes_nil_iff.1 hCompletes
  | cons w words ih =>
    obtain ⟨t, text⟩ := w
    obtain ⟨hText, q, hMove, hBehind⟩ := completes_cons_iff.1 hCompletes
    simp only [moves, List.mem_cons, Prod.mk.injEq, List.not_mem_nil, or_false] at hMove
    rcases hMove with ⟨rfl, rfl⟩ | ⟨rfl, rfl⟩
    · obtain ⟨digits, rest, rfl, hRest⟩ := ih hBehind
      exact ⟨text :: digits, rest, rfl, hRest⟩
    · obtain rfl : text = ['}'] := hText
      obtain ⟨text, rest, rfl, hText, hRest⟩ := hBehind.only (p := .tapeEnd) rfl
      obtain rfl : text = [';'] := hText
      exact ⟨[], rest, rfl, hRest⟩

/-! ## §4 Declarations -/

/-- The words of a declaration lead back to the place between declarations. -/
theorem follow?_declaration (d : Declaration) :
    Place.between.follow? (d.words.map Word.terminal) = some .between := by
  cases d with
  | description line => rfl
  | tape first more =>
    show Place.tapeNext.follow? ((more.map (Word.mk .bit) ++ closingWords).map Word.terminal) = _
    rw [List.map_append, follow?_append, follow?_digits]
    rfl
  | initialState state => rfl
  | finalStates first more =>
    show Place.finalState.follow?
      ((listedWords .state first more ++ closingWords).map Word.terminal) = _
    rw [List.map_append, follow?_append, lists_finalStates.follow?_listedWords]
    exact lists_finalStates.follow?_closingWords
  | composition first more =>
    show Place.composeName.follow?
      ((listedWords .library first more ++ closingWords).map Word.terminal) = _
    rw [List.map_append, follow?_append, lists_composition.follow?_listedWords]
    exact lists_composition.follow?_closingWords
  | rule state value write movement next => rfl

/-- Words between declarations begin with a declaration. -/
theorem exists_declaration {w : Word} {words : List Word}
    (hCompletes : Place.between.Completes (w :: words)) :
    ∃ (d : Declaration) (rest : List Word), w :: words = d.words ++ rest ∧
      Place.between.Completes rest := by
  obtain ⟨t, text⟩ := w
  obtain ⟨hText, q, hMove, hBehind⟩ := completes_cons_iff.1 hCompletes
  simp only [moves, List.mem_cons, Prod.mk.injEq, List.not_mem_nil, or_false] at hMove
  rcases hMove with ⟨rfl, rfl⟩ | ⟨rfl, rfl⟩ | ⟨rfl, rfl⟩ | ⟨rfl, rfl⟩ | ⟨rfl, rfl⟩ | ⟨rfl, rfl⟩
  · -- A tape.
    obtain rfl : text = ['{'] := hText
    obtain ⟨first, _, rfl, -, hNext⟩ := hBehind.only (p := .tapeFirst) rfl
    obtain ⟨more, rest, rfl, hRest⟩ := exists_digits hNext
    exact ⟨.tape first more, rest, by simp [Declaration.words], hRest⟩
  · -- An initial state.
    obtain rfl : text = ['I'] := hText
    obtain ⟨_, _, rfl, rfl, hOpen⟩ := hBehind.only (p := .initialEquals) rfl
    obtain ⟨_, _, rfl, rfl, hState⟩ := hOpen.only (p := .initialOpen) rfl
    obtain ⟨state, _, rfl, -, hClose⟩ := hState.only (p := .initialState) rfl
    obtain ⟨_, _, rfl, rfl, hEnd⟩ := hClose.only (p := .initialClose) rfl
    obtain ⟨_, rest, rfl, rfl, hRest⟩ := hEnd.only (p := .initialEnd) rfl
    exact ⟨.initialState state, rest, rfl, hRest⟩
  · -- Final states.
    obtain rfl : text = ['F'] := hText
    obtain ⟨_, _, rfl, rfl, hOpen⟩ := hBehind.only (p := .finalEquals) rfl
    obtain ⟨_, _, rfl, rfl, hList⟩ := hOpen.only (p := .finalOpen) rfl
    obtain ⟨first, more, rest, rfl, hRest⟩ := lists_finalStates.exists_list hList
    exact ⟨.finalStates first more, rest, by simp [Declaration.words], hRest⟩
  · -- Libraries.
    obtain rfl : text = ['c', 'o', 'm', 'p', 'o', 's', 'e'] := hText
    obtain ⟨_, _, rfl, rfl, hOpen⟩ := hBehind.only (p := .composeEquals) rfl
    obtain ⟨_, _, rfl, rfl, hList⟩ := hOpen.only (p := .composeOpen) rfl
    obtain ⟨first, more, rest, rfl, hRest⟩ := lists_composition.exists_list hList
    exact ⟨.composition first more, rest, by simp [Declaration.words], hRest⟩
  · -- A rule.
    obtain rfl : text = ['('] := hText
    obtain ⟨state, _, rfl, -, hComma₁⟩ := hBehind.only (p := .ruleState) rfl
    obtain ⟨_, _, rfl, rfl, hValue⟩ := hComma₁.only (p := .ruleComma₁) rfl
    obtain ⟨value, _, rfl, -, hComma₂⟩ := hValue.only (p := .ruleValue) rfl
    obtain ⟨_, _, rfl, rfl, hWrite⟩ := hComma₂.only (p := .ruleComma₂) rfl
    obtain ⟨write, _, rfl, -, hComma₃⟩ := hWrite.only (p := .ruleWrite) rfl
    obtain ⟨_, _, rfl, rfl, hMovement⟩ := hComma₃.only (p := .ruleComma₃) rfl
    obtain ⟨movement, _, rfl, -, hComma₄⟩ := hMovement.only (p := .ruleMovement) rfl
    obtain ⟨_, _, rfl, rfl, hNext⟩ := hComma₄.only (p := .ruleComma₄) rfl
    obtain ⟨next, _, rfl, -, hClose⟩ := hNext.only (p := .ruleNext) rfl
    obtain ⟨_, _, rfl, rfl, hEnd⟩ := hClose.only (p := .ruleClose) rfl
    obtain ⟨_, rest, rfl, rfl, hRest⟩ := hEnd.only (p := .ruleEnd) rfl
    exact ⟨.rule state value write movement next, rest, rfl, hRest⟩
  · -- A description.
    obtain ⟨line, rfl, -⟩ := hText
    exact ⟨.description line, words, rfl, hBehind⟩

/-- **Sequences of declarations**: spelled words lead from between declarations back there exactly
if they are the words of a sequence of declarations. -/
theorem follow?_between_iff {words : List Word} (hSpelled : ∀ w ∈ words, w.Spelled) :
    Place.between.follow? (words.map Word.terminal) = some .between ↔
      ∃ program : List Declaration, words = program.flatMap Declaration.words := by
  refine ⟨fun hFollow => ?_, ?_⟩
  · have hCompletes : Place.between.Completes words := ⟨hSpelled, hFollow⟩
    clear hSpelled hFollow
    induction hLength : words.length using Nat.strong_induction_on generalizing words with
    | _ n ih =>
    cases words with
    | nil => exact ⟨[], rfl⟩
    | cons w words =>
      obtain ⟨d, rest, hSplit, hRest⟩ := exists_declaration hCompletes
      have hShorter := congrArg List.length hSplit
      rw [List.length_append] at hShorter
      have hPositive : 0 < d.words.length := by cases d <;> exact Nat.succ_pos _
      obtain ⟨program, rfl⟩ := ih rest.length (by omega) hRest rfl
      exact ⟨d :: program, hSplit⟩
  · intro hGiven
    rcases hGiven with ⟨program, rfl⟩
    clear hSpelled
    induction program with
    | nil => rfl
    | cons d program ih =>
      rw [List.flatMap_cons, List.map_append, follow?_append, follow?_declaration]
      exact ih

end Place

end TapeMachine
