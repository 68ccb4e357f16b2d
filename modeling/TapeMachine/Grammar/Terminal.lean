/-!
# Terminals

The kinds of words that programs are made of, and how messages name them.

* `Terminal.name` is the name by which a kind of word is known outside;
* `readableName` is how messages call it;
* `describeExpected` lists what could have come next.
-/

namespace TapeMachine

/-- The kinds of words of the language. -/
inductive Terminal where
  | leftBrace
  | rightBrace
  | leftParen
  | rightParen
  | comma
  | semicolon
  | equals
  | initialWord
  | finalWord
  | composeWord
  | bit
  | state
  | library
  | movement
  | description
  deriving DecidableEq, Repr

namespace Terminal

/-- The name of a kind of word. -/
def name : Terminal → String
  | .leftBrace => "LBRACE"
  | .rightBrace => "RBRACE"
  | .leftParen => "LPAR"
  | .rightParen => "RPAR"
  | .comma => "COMMA"
  | .semicolon => "SEMICOLON"
  | .equals => "EQUAL"
  | .initialWord => "I"
  | .finalWord => "F"
  | .composeWord => "COMPOSE"
  | .bit => "BIT"
  | .state => "STATE"
  | .library => "LIBRARY"
  | .movement => "MOVEMENT"
  | .description => "DESCRIPTION"

/-- How messages call a kind of word. -/
def readable : Terminal → String
  | .leftBrace => "'\x7b'"
  | .rightBrace => "'\x7d'"
  | .leftParen => "'('"
  | .rightParen => "')'"
  | .comma => "','"
  | .semicolon => "';'"
  | .equals => "'='"
  | .initialWord => "'I'"
  | .finalWord => "'F'"
  | .composeWord => "'compose'"
  | .bit => "a tape value (0 or 1)"
  | .state => "a state name"
  | .library => "a library name"
  | .movement => "a movement"
  | .description => "a description"

/-- All kinds of words. -/
def all : List Terminal :=
  [.leftBrace, .rightBrace, .leftParen, .rightParen, .comma, .semicolon, .equals, .initialWord,
    .finalWord, .composeWord, .bit, .state, .library, .movement, .description]

end Terminal

/-- The name under which the end of the input is listed. -/
def endOfInputName : String := "$END"

/-- How messages call a kind of word known by name; an unknown name is shown as it is. -/
def readableName (name : String) : String :=
  if name = endOfInputName then "end of file"
  else ((Terminal.all.find? fun t => t.name == name).map Terminal.readable).getD name

/-- Texts in the order of their code points. -/
def sortTexts (texts : List String) : List String :=
  texts.mergeSort fun a b => decide (a ≤ b)

/-- Alternatives in words: commas, and "or" before the last. -/
def alternatives : List String → String
  | [] => ""
  | [one] => one
  | [one, other] => one ++ " or " ++ other
  | one :: more => one ++ ", " ++ alternatives more

/-- What could have come next, by readable names in order. -/
def describeExpected (names : List String) : String :=
  alternatives (sortTexts (names.map readableName))

end TapeMachine
