import TapeMachine.Grammar.Reading

/-!
# Syntax Trees

A program as a tree: one branch for each declaration, with the words that carry its content.
Trees may also come from elsewhere, so that labels and kinds are plain text, and positions may be
missing.

* `Tree.ofWords` groups the words of a program by declaration;
* `Tree.outline` draws a tree, one line for each node.
-/

namespace TapeMachine

/-! ## §1 Trees -/

/-- A word in a tree, with as much of its position as is known. -/
structure Token where
  kind : String
  text : String
  line : Option Int
  col : Option Int
  endLine : Option Int
  endCol : Option Int
  deriving DecidableEq, Repr

/-- Where a word stands, if its line and column are known. A missing end is that of the start. -/
def Token.span? (t : Token) : Option Span :=
  match t.line, t.col with
  | some line, some col =>
    some ⟨line, col, some (nonzeroOr t.endLine line), some (nonzeroOr t.endCol col)⟩
  | _, _ => none

/-- A word as it was read. -/
def Token.ofLexeme (w : Lexeme) : Token :=
  ⟨w.terminal.name, w.text, some w.start.line, some w.start.col, some w.stop.line,
    some w.stop.col⟩

/-- Words and branches with a label. -/
inductive Tree where
  | leaf (token : Token)
  | branch (label : String) (span : Option Span) (children : List Tree)

/-- Where a node stands, if that is known. -/
def Tree.span? : Tree → Option Span
  | .leaf token => token.span?
  | .branch _ span _ => span

/-! ## §2 The Tree of a Program -/

/-- The labels of the declarations, by the word they begin with. -/
def Terminal.label : Terminal → String
  | .leftBrace => "tape"
  | .initialWord => "initial_state"
  | .finalWord => "final_state"
  | .composeWord => "composition"
  | .leftParen => "instruction"
  | _ => "description"

/-- The words that carry content; punctuation and keywords do not. -/
def Terminal.isContent : Terminal → Bool
  | .bit | .state | .library | .movement | .description => true
  | _ => false

/-- The words with which a declaration ends. -/
def Terminal.isLast : Terminal → Bool
  | .semicolon | .description => true
  | _ => false

/-- The branch of one declaration, given by its first word and those after it. -/
def Tree.ofDeclaration (first : Lexeme) (rest : List Lexeme) : Tree :=
  let words := first :: rest
  let last := rest.getLast?.getD first
  .branch first.terminal.label (some (first.start.spanTo last.stop))
    ((words.filter fun w => w.terminal.isContent).map fun w => .leaf (.ofLexeme w))

/-- Cuts words into declarations; `begun` holds the words of the present one, the last first. -/
def declarations (begun : List Lexeme) : List Lexeme → List (List Lexeme)
  | [] => if begun.isEmpty then [] else [begun.reverse]
  | w :: rest =>
    if w.terminal.isLast then (w :: begun).reverse :: declarations [] rest
    else declarations (w :: begun) rest

/-- The span from the first branch to the last. -/
def spanOfTrees (trees : List Tree) : Option Span := do
  let first ← trees.head?
  let last ← trees.getLast?
  return (← first.span?).through (← last.span?)

/-- The tree of a program's words. -/
def Tree.ofWords (words : List Lexeme) : Tree :=
  let trees := (declarations [] words).filterMap fun
    | [] => none
    | first :: rest => some (.ofDeclaration first rest)
  .branch "start" (spanOfTrees trees) trees

/-- Reads a text into a tree. -/
def Tree.ofText? (text : List Char) : Except GrammarError Tree :=
  (readWords text).map Tree.ofWords

/-! ## §3 Outlines -/

/-- The indentation of a level. -/
def indentation (level : Nat) : String :=
  String.ofList (List.replicate (2 * level) ' ')

mutual

/-- A node on lines of its own; a branch with one word shows it on the line of its label. -/
def Tree.outlineAt (level : Nat) : Tree → String
  | .leaf token => indentation level ++ token.text ++ "\n"
  | .branch label _ children =>
    match children with
    | [.leaf token] => indentation level ++ label ++ "\t" ++ token.text ++ "\n"
    | _ => indentation level ++ label ++ "\n" ++ outlineAll (level + 1) children

/-- Nodes one after the other. -/
def outlineAll (level : Nat) : List Tree → String
  | [] => ""
  | t :: rest => t.outlineAt level ++ outlineAll level rest

end

/-- A tree as indented text. -/
def Tree.outline (t : Tree) : String := t.outlineAt 0

end TapeMachine
