import TapeMachine.Record

/-!
# The Language, as a Grammar

The language described without a reader: which words there are, what may stand between them, and
which sequences of words are declarations. A text in the language is a layout of such words.

## Words and Separators

A word is spelled by its kind, and is as long as it can be: no character that would belong to it
follows directly. Between two words, and at both ends, stands a gap of separators: white space,
comments to the end of the line, and comments between marks.

## Declarations

A program is a sequence of declarations of six forms, each of them a sequence of words. Words are
told apart by where they stand in a declaration, and not by how they are spelled: `I`, `0` and
`compose` are states where a state is due.

* `Layout` is a text cut into gaps and words, and `Layout.Valid` says that it is cut rightly;
* `Declaration.words` and `Declaration.record` are the words and the content of a declaration;
* `Decomposes` puts them together: a text, its layout and the declarations in it.
-/

namespace TapeMachine

/-! ## §1 Words -/

/-- The texts that spell a word of a kind. -/
def Terminal.Spelling : Terminal → List Char → Prop
  | .leftBrace, text => text = ['{']
  | .rightBrace, text => text = ['}']
  | .leftParen, text => text = ['(']
  | .rightParen, text => text = [')']
  | .comma, text => text = [',']
  | .semicolon, text => text = [';']
  | .equals, text => text = ['=']
  | .initialWord, text => text = ['I']
  | .finalWord, text => text = ['F']
  | .composeWord, text => text = ['c', 'o', 'm', 'p', 'o', 's', 'e']
  | .bit, text => text = ['0'] ∨ text = ['1']
  | .state, text => text ≠ [] ∧ ∀ c ∈ text, isNameChar c = true
  | .library, text =>
    ∃ c rest, text = c :: rest ∧ isNameStart c = true ∧ ∀ d ∈ rest, isNameChar d = true
  | .movement, text => text ≠ [] ∧ ∀ c ∈ text, isMovementChar c = true
  | .description, text => ∃ line, text = '/' :: '/' :: '/' :: line ∧ '\n' ∉ line

/-- Whether a character belongs to a word of a kind when it follows directly. -/
def Terminal.extendedBy : Terminal → Char → Bool
  | .state, c | .library, c => isNameChar c
  | .movement, c => isMovementChar c
  | .description, c => c != '\n'
  | _, _ => false

/-- A word of a kind ends in front of this text: no character there belongs to it. -/
def Terminal.EndsBefore (t : Terminal) (rest : List Char) : Prop :=
  ∀ c, rest.head? = some c → t.extendedBy c = false

/-- A word: its kind and its text. -/
structure Word where
  terminal : Terminal
  text : List Char
  deriving DecidableEq, Repr

/-! ## §2 Separators -/

/-- The first end of a block comment behind this text is the one right behind it. -/
def ClosesAfter (body : List Char) : Prop :=
  ∀ front back, body ++ ['*', '/'] = front ++ '*' :: '/' :: back → back = []

/-- What separates words, in front of some text. A run of white space is as many separators as it
has characters. -/
inductive Separator : List Char → List Char → Prop where
  /-- A character of white space. -/
  | space {c : Char} {rest : List Char} : isSpace c = true → Separator [c] rest
  /-- A comment that reaches to the end of the line, and is not a description. -/
  | lineComment {line rest : List Char} :
      '\n' ∉ line → line.head? ≠ some '/' → (∀ c, rest.head? = some c → c = '\n') →
      Separator ('/' :: '/' :: line) rest
  /-- A comment that reaches to the first closing mark. -/
  | blockComment {body rest : List Char} :
      ClosesAfter body → Separator ('/' :: '*' :: (body ++ ['*', '/'])) rest

/-- Any number of separators, in front of some text. -/
inductive Gap : List Char → List Char → Prop where
  | nil (rest : List Char) : Gap [] rest
  | cons {separator gap rest : List Char} :
      Separator separator (gap ++ rest) → Gap gap rest → Gap (separator ++ gap) rest

/-! ## §3 Layouts -/

/-- A word with the gap in front of it. -/
structure Piece extends Word where
  gap : List Char
  deriving DecidableEq, Repr

/-- A text cut into words with the gaps in front of them, and a last gap. -/
structure Layout where
  pieces : List Piece
  last : List Char
  deriving DecidableEq, Repr

namespace Layout

/-- The text of some pieces and the last gap. -/
def textFrom (last : List Char) : List Piece → List Char
  | [] => last
  | piece :: rest => piece.gap ++ (piece.text ++ textFrom last rest)

/-- The text that was cut. -/
def text (l : Layout) : List Char := textFrom l.last l.pieces

/-- Some pieces and the last gap are cut rightly: gaps consist of separators, words are spelled as
their kinds ask and end where they have to. -/
def ValidFrom (last : List Char) : List Piece → Prop
  | [] => Gap last []
  | piece :: rest =>
    Gap piece.gap (piece.text ++ textFrom last rest) ∧ piece.terminal.Spelling piece.text ∧
      piece.terminal.EndsBefore (textFrom last rest) ∧ ValidFrom last rest

/-- The text is cut rightly. -/
def Valid (l : Layout) : Prop := ValidFrom l.last l.pieces

/-- The words without the gaps. -/
def words (l : Layout) : List Word := l.pieces.map Piece.toWord

end Layout

/-! ## §4 Declarations -/

/-- What stands in a declaration, by the texts of the words that carry content. -/
inductive Declaration where
  | description (line : List Char)
  | tape (first : List Char) (more : List (List Char))
  | initialState (state : List Char)
  | finalStates (first : List Char) (more : List (List Char))
  | composition (first : List Char) (more : List (List Char))
  | rule (state value write movement next : List Char)
  deriving DecidableEq, Repr

/-- Words of a kind with commas between them. -/
def listedWords (t : Terminal) (first : List Char) (more : List (List Char)) : List Word :=
  ⟨t, first⟩ :: more.flatMap fun text => [⟨.comma, [',']⟩, ⟨t, text⟩]

/-- The words with which all declarations but descriptions end. -/
def closingWords : List Word := [⟨.rightBrace, ['}']⟩, ⟨.semicolon, [';']⟩]

namespace Declaration

/-- The words of a declaration. -/
def words : Declaration → List Word
  | .description line => [⟨.description, '/' :: '/' :: '/' :: line⟩]
  | .tape first more =>
    ⟨.leftBrace, ['{']⟩ :: ((first :: more).map (Word.mk .bit) ++ closingWords)
  | .initialState state =>
    ⟨.initialWord, ['I']⟩ :: ⟨.equals, ['=']⟩ :: ⟨.leftBrace, ['{']⟩ ::
      (⟨.state, state⟩ :: closingWords)
  | .finalStates first more =>
    ⟨.finalWord, ['F']⟩ :: ⟨.equals, ['=']⟩ :: ⟨.leftBrace, ['{']⟩ ::
      (listedWords .state first more ++ closingWords)
  | .composition first more =>
    ⟨.composeWord, ['c', 'o', 'm', 'p', 'o', 's', 'e']⟩ :: ⟨.equals, ['=']⟩ ::
      ⟨.leftBrace, ['{']⟩ :: (listedWords .library first more ++ closingWords)
  | .rule state value write movement next =>
    [⟨.leftParen, ['(']⟩, ⟨.state, state⟩, ⟨.comma, [',']⟩, ⟨.bit, value⟩, ⟨.comma, [',']⟩,
      ⟨.bit, write⟩, ⟨.comma, [',']⟩, ⟨.movement, movement⟩, ⟨.comma, [',']⟩, ⟨.state, next⟩,
      ⟨.rightParen, [')']⟩, ⟨.semicolon, [';']⟩]

/-- A text as a field whose place is left open. -/
def field (text : List Char) : Field := ⟨String.ofList text, none⟩

/-- The content of a declaration as a record whose place is left open. -/
def record : Declaration → Record
  | .description line => .description none (String.ofList (Text.trim line))
  | .tape first more => .tape none ((first :: more).map field)
  | .initialState state => .initialState none (field state)
  | .finalStates first more => .finalStates none ((first :: more).map field)
  | .composition first more => .composition none ((first :: more).map field)
  | .rule state value write movement next =>
    .rule none [field state, field value, field write, field movement, field next]

end Declaration

/-- A field without its place. -/
def Field.unplaced (f : Field) : Field := { f with span := none }

/-- A record without its place and those of its fields. -/
def Record.unplaced : Record → Record
  | .description _ text => .description none text
  | .tape _ bits => .tape none (bits.map Field.unplaced)
  | .initialState _ state => .initialState none state.unplaced
  | .finalStates _ states => .finalStates none (states.map Field.unplaced)
  | .composition _ libraries => .composition none (libraries.map Field.unplaced)
  | .rule _ fields => .rule none (fields.map Field.unplaced)
  | .other _ => .other none

/-- A text is a valid layout of the words of some declarations. -/
structure Decomposes (source : String) (layout : Layout) (program : List Declaration) : Prop where
  text : layout.text = source.toList
  valid : layout.Valid
  words : layout.words = program.flatMap Declaration.words

end TapeMachine
