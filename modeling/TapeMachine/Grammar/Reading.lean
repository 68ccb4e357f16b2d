import TapeMachine.Grammar.Lexeme
import TapeMachine.Span
import TapeMachine.Text.Lines

/-!
# Reading the Words of a Program

A text is read word by word. At each place a separator is skipped or an expected word is taken;
anything else ends the reading with an error that says what was found and what was expected.

* `readFrom` reads from a place, and `readWords` reads a whole text;
* `GrammarError` says where a text left the language.
-/

namespace TapeMachine

/-! ## §1 Positions -/

/-- A position in a text while it is read. Only a line feed begins a new line here. -/
structure Cursor where
  line : Nat
  col : Nat
  deriving DecidableEq, Repr

namespace Cursor

/-- The beginning of a text. -/
def start : Cursor := ⟨1, 1⟩

/-- The position after a character. -/
def next (p : Cursor) (c : Char) : Cursor :=
  if c = '\n' then ⟨p.line + 1, 1⟩ else ⟨p.line, p.col + 1⟩

/-- The position after some text. -/
def after (p : Cursor) (text : List Char) : Cursor := text.foldl next p

/-- The span between two positions. -/
def spanTo (p q : Cursor) : Span := ⟨p.line, p.col, some q.line, some q.col⟩

end Cursor

/-- A word that was read, with the positions of its two ends. -/
structure Lexeme where
  terminal : Terminal
  text : String
  start : Cursor
  stop : Cursor
  deriving DecidableEq, Repr

/-- Where a word stands. -/
def Lexeme.span (w : Lexeme) : Span := w.start.spanTo w.stop

/-! ## §2 Errors -/

/-- What was found where something else was expected. -/
inductive Unexpected where
  | endOfInput
  | word (text : String)
  | character (c : Char)
  deriving DecidableEq, Repr

/-- A text that is not in the language: what was found, the names of what was expected, and line
and column where they are known. -/
structure GrammarError where
  found : Unexpected
  expected : List String
  location : Option (Int × Int)
  deriving DecidableEq, Repr

namespace GrammarError

/-- The error in words. A character comes without expectations where none are known. -/
def message (e : GrammarError) : String :=
  let expected := describeExpected e.expected
  match e.found with
  | .endOfInput => s!"unexpected end of file, expected {expected}"
  | .word text => s!"unexpected '{text}', expected {expected}"
  | .character c =>
    let hint := if e.expected.isEmpty then "" else s!", expected {expected}"
    s!"unexpected character '{c}'{hint}"

/-- The text that was found; nothing at the end of the input. -/
def foundText (e : GrammarError) : String :=
  match e.found with
  | .endOfInput => ""
  | .word text => text
  | .character c => String.ofList [c]

/-- The expectations in words, if there are any. -/
def expectedText (e : GrammarError) : Option String :=
  let text := describeExpected e.expected
  if text.isEmpty then none else some text

end GrammarError

/-- The position past the last character of a text, by its shown lines. -/
def endOfText (lines : List String) : Span :=
  match lines.getLast? with
  | none => Span.origin
  | some line => Span.point lines.length (line.length + 1)

/-- The position of an error in a text with these lines: its own if it has one on a real line,
and otherwise the end of the text. -/
def GrammarError.position (e : GrammarError) (lines : List String) : Span :=
  match e.location with
  | some (line, col) => if line < 1 then endOfText lines else Span.point line col
  | none => endOfText lines

/-! ## §3 Reading -/

/-- What stands in front at a place. -/
inductive Front where
  | separator (text : List Char)
  | word (terminal : Terminal) (text : List Char) (after : Place)
  | stuck (found : Unexpected)

/-- Looks at the front of a text that is not empty. -/
def Place.front (p : Place) (c : Char) (rest : List Char) : Front :=
  match separator? (c :: rest) with
  | some text => .separator text
  | none =>
    match p.lexeme? (c :: rest) with
    | some (t, text, q) => .word t text q
    | none =>
      match anyLexeme? (c :: rest) with
      | some text => .stuck (.word (String.ofList text))
      | none => .stuck (.character c)

/-- The error at a position of a place. -/
def Place.error (p : Place) (found : Unexpected) (position : Cursor) : GrammarError :=
  ⟨found, p.expected.map Terminal.name, some (position.line, position.col)⟩

/-- Reads words from a place on. `last` is where the last word began and `now` is the present
position; `skip` characters in front belong to what was taken last. A text may end between
declarations only. -/
def readFrom (p : Place) (last now : Cursor) (skip : Nat) :
    List Char → Except GrammarError (List Lexeme)
  | [] => if p = .between then .ok [] else .error (p.error .endOfInput last)
  | c :: rest =>
    match skip with
    | n + 1 => readFrom p last now n rest
    | 0 =>
      match p.front c rest with
      | .separator text => readFrom p last (now.after text) (text.length - 1) rest
      | .word t text q => do
        let stop := now.after text
        let words ← readFrom q now stop (text.length - 1) rest
        return ⟨t, String.ofList text, now, stop⟩ :: words
      | .stuck found => .error (p.error found now)

/-- The words of a program. -/
def readWords (text : List Char) : Except GrammarError (List Lexeme) :=
  readFrom .between .start .start 0 text

end TapeMachine
