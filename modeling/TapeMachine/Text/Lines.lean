/-!
# Lines of a Text

A text is cut into lines for showing them. A line ends at any of ten line ends, and a carriage
return with the line feed after it is one of them. A line end at the very end of the text starts
no further line, so the empty text has no lines.
-/

namespace TapeMachine.Text

/-- The characters that end a line. -/
def isLineEnd (c : Char) : Bool :=
  let n := c.toNat
  (0x0a ≤ n && n ≤ 0x0d) || (0x1c ≤ n && n ≤ 0x1e) || n == 0x85 || n == 0x2028 || n == 0x2029

/-- Puts a character in front of the first line, which begins with it if there is none. -/
def consFirst (c : Char) : List (List Char) → List (List Char)
  | [] => [[c]]
  | line :: lines => (c :: line) :: lines

/-- The lines of a text, without their ends. -/
def lines : List Char → List (List Char)
  | [] => []
  | '\r' :: '\n' :: rest => [] :: lines rest
  | c :: rest => if isLineEnd c then [] :: lines rest else consFirst c (lines rest)

/-- The lines of a string. -/
def linesOf (text : String) : List String :=
  (lines text.toList).map String.ofList

/-- The line with this number, counted from 1, or nothing where there is no such line. -/
def lineAt? (texts : List String) (number : Int) : Option String :=
  if 0 < number then texts[number.toNat - 1]? else none

end TapeMachine.Text
