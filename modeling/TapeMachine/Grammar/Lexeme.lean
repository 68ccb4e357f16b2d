import TapeMachine.Grammar.Place
import TapeMachine.Text.Blank

/-!
# Words at the Front of a Text

Which text a kind of word takes from the front of what is left, and what may separate words.
Only the words expected at a place are tried, so that a library may be called `I`, and `{011}`
holds three words of one digit each.

* `Terminal.lexeme?` is the text that a kind of word takes;
* `separator?` is the white space or the comment in front;
* `Place.lexeme?` is the expected word in front, with the place after it;
* `anyLexeme?` is the word that stands there if nothing expected does, for messages;
* `Terminal.isPrefix_of_lexeme?` and `isPrefix_of_separator?`: what is taken stands in front and
  is not empty, so that reading always gets further.
-/

namespace TapeMachine

/-! ## §1 Kinds of Characters -/

/-- A letter, a digit or an underscore, all ASCII. -/
def isNameChar (c : Char) : Bool := c.isAlphanum || c == '_'

/-- A letter or an underscore, both ASCII. -/
def isNameStart (c : Char) : Bool := c.isAlpha || c == '_'

/-- A character of a movement symbol: neither blank nor punctuation nor a slash. -/
def isMovementChar (c : Char) : Bool :=
  !(Text.isBlank c || [',', ';', '(', ')', '{', '}', '/'].contains c)

/-- White space between words. -/
def isSpace (c : Char) : Bool := [' ', '\t', '\x0c', '\r', '\n'].contains c

/-! ## §2 Words -/

/-- A fixed text. -/
def literal? (text : List Char) (cs : List Char) : Option (List Char) :=
  if text.isPrefixOf cs then some text else none

/-- The longest run of characters of a kind, if there is one at all. -/
def run? (kind : Char → Bool) (cs : List Char) : Option (List Char) :=
  match cs.takeWhile kind with
  | [] => none
  | text => some text

/-- Everything up to the end of the line. -/
def restOfLine (cs : List Char) : List Char := cs.takeWhile (· != '\n')

/-- The text that a kind of word takes from the front. -/
def Terminal.lexeme? : Terminal → List Char → Option (List Char)
  | .leftBrace, cs => literal? ['{'] cs
  | .rightBrace, cs => literal? ['}'] cs
  | .leftParen, cs => literal? ['('] cs
  | .rightParen, cs => literal? [')'] cs
  | .comma, cs => literal? [','] cs
  | .semicolon, cs => literal? [';'] cs
  | .equals, cs => literal? ['='] cs
  | .initialWord, cs => literal? ['I'] cs
  | .finalWord, cs => literal? ['F'] cs
  | .composeWord, cs => literal? ['c', 'o', 'm', 'p', 'o', 's', 'e'] cs
  | .bit, cs => (literal? ['0'] cs).orElse fun _ => literal? ['1'] cs
  | .state, cs => run? isNameChar cs
  | .library, cs =>
    match cs with
    | [] => none
    | c :: rest => if isNameStart c then some (c :: rest.takeWhile isNameChar) else none
  | .movement, cs => run? isMovementChar cs
  | .description, cs => if ['/', '/', '/'].isPrefixOf cs then some (restOfLine cs) else none

/-- A fixed text is taken where the text begins with it. -/
theorem literal?_eq_some_iff {text cs found : List Char} :
    literal? text cs = some found ↔ found = text ∧ text <+: cs := by
  unfold literal?
  split
  · next h =>
    rw [List.isPrefixOf_iff_prefix] at h
    exact ⟨fun e => ⟨(Option.some.inj e).symm, h⟩, fun e => by rw [e.1]⟩
  · next h =>
    rw [List.isPrefixOf_iff_prefix] at h
    exact ⟨fun e => (nomatch e), fun e => absurd e.2 h⟩

/-- A run is what the longest run is, and is not empty. -/
theorem run?_eq_some_iff {kind : Char → Bool} {cs text : List Char} :
    run? kind cs = some text ↔ text = cs.takeWhile kind ∧ text ≠ [] := by
  unfold run?
  split
  · next h => simp [h]
  · next h =>
    constructor
    · intro e
      obtain rfl := Option.some.inj e
      exact ⟨rfl, h⟩
    · intro e
      rw [e.1]

/-- A word begins the text that it is taken from, and has at least one character. -/
theorem Terminal.isPrefix_of_lexeme? {t : Terminal} {cs text : List Char}
    (h : t.lexeme? cs = some text) : text <+: cs ∧ text ≠ [] := by
  have literal {fixed : List Char} (hne : fixed ≠ []) (h : literal? fixed cs = some text) :
      text <+: cs ∧ text ≠ [] := by
    obtain ⟨rfl, hp⟩ := literal?_eq_some_iff.1 h
    exact ⟨hp, hne⟩
  have run {kind : Char → Bool} (h : run? kind cs = some text) : text <+: cs ∧ text ≠ [] := by
    obtain ⟨rfl, hne⟩ := run?_eq_some_iff.1 h
    exact ⟨List.takeWhile_prefix kind, hne⟩
  cases t <;> simp only [lexeme?] at h
  case bit =>
    -- One of the two digits.
    cases h0 : literal? ['0'] cs with
    | some found =>
      rw [h0] at h
      exact literal (by simp) (h0.trans h)
    | none =>
      rw [h0] at h
      exact literal (by simp) h
  case state | movement => exact run h
  case library =>
    split at h
    · cases h
    · next c rest =>
      split at h
      · obtain rfl := Option.some.inj h
        exact ⟨(List.cons_prefix_cons).2 ⟨rfl, List.takeWhile_prefix _⟩, by simp⟩
      · cases h
  case description =>
    split at h
    · next hp =>
      obtain rfl := Option.some.inj h
      refine ⟨List.takeWhile_prefix _, ?_⟩
      -- The text begins with a slash, which ends no line.
      rw [List.isPrefixOf_iff_prefix] at hp
      obtain ⟨rest, rfl⟩ := hp
      simp [restOfLine]
    · cases h
  all_goals exact literal (by simp) h

/-! ## §3 Separators -/

/-- A comment up to the end of the line. Three slashes begin a description instead. -/
def lineComment? (cs : List Char) : Option (List Char) :=
  match cs with
  | '/' :: '/' :: '/' :: _ => none
  | '/' :: '/' :: _ => some (restOfLine cs)
  | _ => none

/-- The text up to the first end of a block comment, and with it. -/
def throughClose? : List Char → Option (List Char)
  | [] => none
  | '*' :: '/' :: _ => some ['*', '/']
  | c :: rest => (throughClose? rest).map (c :: ·)

/-- A comment between its two marks. -/
def blockComment? (cs : List Char) : Option (List Char) :=
  match cs with
  | '/' :: '*' :: rest => (throughClose? rest).map fun text => '/' :: '*' :: text
  | _ => none

/-- The separator in front: white space or a comment. -/
def separator? (cs : List Char) : Option (List Char) :=
  (run? isSpace cs).orElse fun _ => (lineComment? cs).orElse fun _ => blockComment? cs

/-- The text through a close mark begins the text that it is taken from. -/
theorem isPrefix_of_throughClose? {cs text : List Char} (h : throughClose? cs = some text) :
    text <+: cs ∧ text ≠ [] := by
  fun_induction throughClose? cs generalizing text with
  | case1 => cases h
  | case2 rest =>
    obtain rfl := Option.some.inj h
    exact ⟨⟨rest, rfl⟩, by simp⟩
  | case3 c rest _ ih =>
    obtain ⟨tail, htail, rfl⟩ := Option.map_eq_some_iff.1 h
    exact ⟨(List.cons_prefix_cons).2 ⟨rfl, (ih htail).1⟩, by simp⟩

/-- A line comment begins the text that it is taken from. -/
theorem isPrefix_of_lineComment? {cs text : List Char} (h : lineComment? cs = some text) :
    text <+: cs ∧ text ≠ [] := by
  unfold lineComment? at h
  split at h
  · cases h
  · obtain rfl := Option.some.inj h
    exact ⟨List.takeWhile_prefix _, by simp [restOfLine]⟩
  · cases h

/-- A block comment begins the text that it is taken from. -/
theorem isPrefix_of_blockComment? {cs text : List Char} (h : blockComment? cs = some text) :
    text <+: cs ∧ text ≠ [] := by
  unfold blockComment? at h
  split at h
  · obtain ⟨tail, htail, rfl⟩ := Option.map_eq_some_iff.1 h
    obtain ⟨⟨rest, hrest⟩, _⟩ := isPrefix_of_throughClose? htail
    exact ⟨⟨rest, by rw [← hrest]; rfl⟩, by simp⟩
  · cases h

/-- A separator begins the text that it is taken from, and has at least one character. -/
theorem isPrefix_of_separator? {cs text : List Char} (h : separator? cs = some text) :
    text <+: cs ∧ text ≠ [] := by
  unfold separator? at h
  cases hs : run? isSpace cs with
  | some found =>
    rw [hs] at h
    obtain rfl := Option.some.inj h
    obtain ⟨rfl, hne⟩ := run?_eq_some_iff.1 hs
    exact ⟨List.takeWhile_prefix _, hne⟩
  | none =>
    rw [hs] at h
    cases hl : lineComment? cs with
    | some found =>
      rw [hl] at h
      obtain rfl := Option.some.inj h
      exact isPrefix_of_lineComment? hl
    | none =>
      rw [hl] at h
      exact isPrefix_of_blockComment? h

/-! ## §4 The Word in Front -/

/-- The expected word in front: its kind, its text and the place after it. -/
def Place.lexeme? (p : Place) (cs : List Char) : Option (Terminal × List Char × Place) :=
  p.moves.findSome? fun (t, q) => (t.lexeme? cs).map fun text => (t, text, q)

/-- The word in front is one of those that may come at its place. -/
theorem Place.mem_moves_of_lexeme? {p : Place} {cs text : List Char} {t : Terminal} {q : Place}
    (h : p.lexeme? cs = some (t, text, q)) : (t, q) ∈ p.moves ∧ t.lexeme? cs = some text := by
  obtain ⟨move, hm, hmove⟩ := List.exists_of_findSome?_eq_some h
  obtain ⟨found, hfound, he⟩ := Option.map_eq_some_iff.1 hmove
  cases he
  exact ⟨hm, hfound⟩

/-- The word in front when nothing expected stands there. The kinds are tried in a fixed order,
in which the kinds that take most come early. -/
def anyLexeme? (cs : List Char) : Option (List Char) :=
  [Terminal.lexeme? .library, blockComment?, lineComment?, Terminal.lexeme? .movement,
    Terminal.lexeme? .state, run? isSpace, Terminal.lexeme? .description,
    Terminal.lexeme? .bit, Terminal.lexeme? .leftBrace, Terminal.lexeme? .rightBrace,
    Terminal.lexeme? .leftParen, Terminal.lexeme? .rightParen, Terminal.lexeme? .comma,
    Terminal.lexeme? .semicolon, Terminal.lexeme? .equals].findSome? fun scan => scan cs

end TapeMachine
