/-!
# Spans

Where something stands in a text: a line and a column, counted from 1, and the end when it is
known. Spans may come from outside, so the numbers are integers and nothing is assumed of them.
-/

namespace TapeMachine

/-- A number, or another one where it is missing or zero. -/
def nonzeroOr (n : Option Int) (other : Int) : Int :=
  match n with
  | some k => if k = 0 then other else k
  | none => other

/-- A place in a text. The end is the column after the last character. -/
structure Span where
  line : Int
  col : Int
  endLine : Option Int
  endCol : Option Int
  deriving DecidableEq, Repr

namespace Span

/-- A place whose end is not known. -/
def point (line col : Int) : Span := ⟨line, col, none, none⟩

/-- The first place of a text, used where no better one is known. -/
def origin : Span := point 1 1

/-- Line and column, as messages name a place. -/
def startText (s : Span) : String := s!"{s.line}:{s.col}"

/-- The place in words, with its end if both parts of the end are known. -/
def text (s : Span) : String :=
  match s.endLine, s.endCol with
  | some line, some col => s!"{s.startText} to {line}:{col}"
  | _, _ => s.startText

/-- A number that may be missing, as listings show it. -/
def optionalText : Option Int → String
  | none => "None"
  | some n => toString n

/-- The place with all its parts named, as listings of records show it. -/
def listing (s : Span) : String :=
  let endLine := optionalText s.endLine
  let endCol := optionalText s.endCol
  s!"Span(line={s.line}, col={s.col}, end_line={endLine}, end_col={endCol})"

/-- The place from the start of one span to the end of another. -/
def through (first last : Span) : Span :=
  ⟨first.line, first.col, last.endLine, last.endCol⟩

end Span

/-- A span that may be missing, as listings show it. -/
def listingOf : Option Span → String
  | none => "None"
  | some s => s.listing

end TapeMachine
