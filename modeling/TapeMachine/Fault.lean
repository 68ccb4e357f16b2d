import TapeMachine.Catalog
import TapeMachine.Record
import TapeMachine.Rule
import TapeMachine.Table

/-!
# Faults

Why a program cannot be built. A fault is a cause; what is said of it is derived.

* `Fault` lists the causes;
* `Complaint` is what the reader of a program is told: code, message, place, offending text;
* `Fault.complaint?` words the faults of programs and libraries. The remaining faults are
  breaches of what the reader of programs guarantees, and have no place in a program.
-/

namespace TapeMachine

/-! ## §1 Complaints -/

/-- Whom a complaint is about. -/
inductive Origin where
  /-- The text is not in the language. -/
  | language
  /-- A declaration is in the language but not valid. -/
  | declaration
  /-- A library is not what it should be. -/
  | library
  deriving DecidableEq, Repr

/-- An error as the reader of a program sees it. -/
structure Complaint where
  origin : Origin
  code : String
  message : String
  position : Span
  /-- The offending text. -/
  snippet : String := ""
  expected : Option String := none
  found : Option String := none
  deriving DecidableEq, Repr

namespace Complaint

/-- The complaint on one line. -/
def text (c : Complaint) : String := s!"{c.code} at {c.position.text}: {c.message}"

/-- A complaint about a declaration, worded from a catalog. -/
def ofDeclaration (catalog : Catalog) (code : String) (values : Text.Template.Values)
    (position : Span) (snippet : String) (expected found : Option String) :
    Except CatalogFault Complaint := do
  let message ← catalog.message? code values
  return ⟨.declaration, code, message, position, snippet, expected, found⟩

/-- A complaint about a text that is not in the language. -/
def ofText (detail : String) (position : Span) (snippet : String)
    (expected found : Option String) : Complaint :=
  ⟨.language, "CE1001", Catalog.wording "CE1001" [("detail", detail)], position, snippet,
    expected, found⟩

/-- A complaint about a library. Its place is not in the program. -/
def ofLibrary (name reason : String) : Complaint where
  origin := .library
  code := "CE0001"
  message := Catalog.wording "CE0001" [("name", name), ("reason", reason)]
  position := Span.origin

end Complaint

/-! ## §2 Causes -/

/-- The declarations of which a program may hold one. -/
inductive Construct where
  | tape
  | initialState
  | finalStates
  | composition
  deriving DecidableEq, Repr

/-- How messages call a declaration. -/
def Construct.text : Construct → String
  | .tape => "tape"
  | .initialState => "initial state"
  | .finalStates => "final state"
  | .composition => "composition"

/-- What is wrong with a library. -/
inductive LibraryFlaw where
  /-- Its code has a fault, with this message at this place. -/
  | code (message : String) (position : Span)
  | noRules
  /-- Its initial or final state is not declared as used. -/
  | undeclared (state : String)
  /-- A rule has these states that are not declared as used. -/
  | undeclaredIn (rule : Rule) (states : List String)
  deriving DecidableEq, Repr

/-- The flaw in words. -/
def LibraryFlaw.reason : LibraryFlaw → String
  | .code message position => s!"{message} at {position.text}"
  | .noRules => "no instructions"
  | .undeclared state => s!"state '{state}' is not declared as used"
  | .undeclaredIn rule states =>
    let listed := ", ".intercalate states
    s!"instruction {rule.text} uses undeclared state(s) {listed}"

/-- Why a program cannot be built. -/
inductive Fault where
  /-- The text is not in the language; `line` is the line where that shows. -/
  | language (error : GrammarError) (position : Span) (line : String)
  /-- A declaration is repeated, the first one stands at `first`. -/
  | repeated (construct : Construct) (span first : Option Span)
  /-- The tape holds no 1. -/
  | blankTape (span : Option Span) (digits : String)
  | unknownLibrary (span : Option Span) (name : String)
  | unknownMovement (span : Option Span) (symbol : String)
  /-- A composed library is not what it should be. -/
  | library (name : String) (flaw : LibraryFlaw)
  /-- A rule has another number of fields than five. -/
  | fieldCount (count : Nat)
  /-- A syntax tree is not that of a program. -/
  | tree (fault : TreeFault)
  deriving DecidableEq, Repr

/-- The position in print of a declaration that may have none. -/
def placeText : Option Span → String
  | some span => span.startText
  | none => "?"

/-- What the reader of a program is told of a fault. -/
def Fault.complaint? : Fault → Option Complaint
  | .language error position line =>
    some (.ofText error.message position line error.expectedText (some error.foundText))
  | .repeated construct span first => some {
      origin := .declaration
      code := "CE2004"
      message := Catalog.wording "CE2004"
        [("construct", construct.text), ("prev_loc", placeText first)]
      position := span.getD .origin
      expected := some construct.text
      found := some construct.text }
  | .blankTape span digits => some {
      origin := .declaration
      code := "CE2001"
      message := Catalog.wording "CE2001" []
      position := span.getD .origin
      snippet := digits
      expected := some "tape" }
  | .unknownLibrary span name => some {
      origin := .declaration
      code := "CE2003"
      message := Catalog.wording "CE2003" [("name", name)]
      position := span.getD .origin
      snippet := name
      expected := some "library" }
  | .unknownMovement span symbol => some {
      origin := .declaration
      code := "CE2002"
      message := Catalog.wording "CE2002" [("symbol", symbol)]
      position := span.getD .origin
      snippet := symbol
      expected := some "movement" }
  | .library name flaw => some (.ofLibrary name flaw.reason)
  | .fieldCount _ | .tree _ => none

/-- The message of an internal fault. -/
def Fault.internalMessage : Fault → String
  | .fieldCount count =>
    let message := Catalog.wording "CE0002" [("got", toString count)]
    s!"CE0002: {message}"
  | .tree .missingWord => "list index out of range"
  | .tree .notABranch => "'Token' object has no attribute 'data'"
  | _ => ""

/-! ## §3 Warnings -/

/-- The code of a warning about an overwritten rule. -/
def Overwrite.code : String := "CW1001"

/-- The warning in words. -/
def Overwrite.message (w : Overwrite) : String :=
  Catalog.wording Overwrite.code [("state", w.state), ("value", bitText w.value)]

/-! ## §4 Programs and Rules of a Text -/

/-- The tree of a text. -/
def Tree.ofSource (source : String) : Except Fault Tree :=
  match Tree.ofText? source.toList with
  | .ok tree => .ok tree
  | .error error =>
    let lines := Text.linesOf source
    let position := error.position lines
    .error (.language error position ((Text.lineAt? lines position.line).getD ""))

/-- The program of a text. -/
def Program.ofSource (source : String) : Except Fault Program := do
  let tree ← Tree.ofSource source
  match Program.ofTree tree with
  | .ok program => return program
  | .error fault => .error (.tree fault)

/-- The rule of five fields. A value is 1 if its text is the digit 1, and else 0. -/
def Rule.ofFields (fields : List Field) : Except Fault Rule :=
  match fields with
  | [state, value, write, movement, next] =>
    match Movement.ofSymbol? movement.text with
    | some move => .ok ⟨state.text, value.text == "1", write.text == "1", move, next.text⟩
    | none => .error (.unknownMovement movement.span movement.text)
  | _ => .error (.fieldCount fields.length)

end TapeMachine
