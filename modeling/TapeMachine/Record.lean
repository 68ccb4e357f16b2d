import TapeMachine.Text.Blank
import TapeMachine.Text.Quoted
import TapeMachine.Tree

/-!
# Records

The content of a program: one record for each declaration, with the texts of its words and where
they stand.

* `Program.ofTree` reads the records off a syntax tree;
* `Record.listing` shows a record with all its parts.
-/

namespace TapeMachine

/-! ## §1 Records -/

/-- A word of a declaration. -/
structure Field where
  text : String
  span : Option Span
  deriving DecidableEq, Repr

/-- What a declaration says. -/
inductive Record where
  /-- The line after three slashes, trimmed. -/
  | description (span : Option Span) (text : String)
  | tape (span : Option Span) (bits : List Field)
  | initialState (span : Option Span) (state : Field)
  | finalStates (span : Option Span) (states : List Field)
  | composition (span : Option Span) (libraries : List Field)
  /-- State, value, value to write, movement and next state. -/
  | rule (span : Option Span) (fields : List Field)
  /-- A record of no kind known here. -/
  | other (span : Option Span)
  deriving DecidableEq, Repr

/-- The records of a program in order. -/
structure Program where
  span : Option Span
  records : List Record
  deriving DecidableEq, Repr

/-- Where a record stands. -/
def Record.span : Record → Option Span
  | .description span _ | .tape span _ | .initialState span _ | .finalStates span _
  | .composition span _ | .rule span _ | .other span => span

/-- The digits of a tape declaration. -/
def digitsOf (bits : List Field) : String := String.join (bits.map Field.text)

/-- The fields of the rules of a program, in order. -/
def Program.ruleFields (p : Program) : List (List Field) :=
  p.records.filterMap fun
    | .rule _ fields => some fields
    | _ => none

/-! ## §2 Records of a Tree -/

/-- How a tree can fail to be that of a program. -/
inductive TreeFault where
  /-- The root is something else than a program. -/
  | notAProgram
  /-- The root is a word. -/
  | notABranch
  /-- A declaration lacks the word it is about. -/
  | missingWord
  deriving DecidableEq, Repr

/-- The words among some nodes. -/
def tokensOf (nodes : List Tree) : List Token :=
  nodes.filterMap fun
    | .leaf token => some token
    | .branch .. => none

/-- A word as a field. -/
def Field.ofToken (t : Token) : Field := ⟨t.text, t.span?⟩

/-- The words of one kind among some nodes, as fields. -/
def fieldsOf (kind : Terminal) (nodes : List Tree) : List Field :=
  ((tokensOf nodes).filter fun t => t.kind == kind.name).map .ofToken

/-- The first word of a kind, which has to be there. -/
def firstField (kind : Terminal) (nodes : List Tree) : Except TreeFault Field :=
  match fieldsOf kind nodes with
  | [] => .error .missingWord
  | field :: _ => .ok field

/-- The text of a description: without its first three characters, and trimmed. -/
def descriptionText (text : String) : String :=
  String.ofList (Text.trim (text.toList.drop 3))

/-- The record of a node; words and branches with other labels have none. -/
def Record.ofTree? : Tree → Except TreeFault (Option Record)
  | .leaf _ => .ok none
  | .branch label span nodes =>
    match label with
    | "description" => do
      let field ← firstField .description nodes
      return some (.description span (descriptionText field.text))
    | "tape" => .ok (some (.tape span (fieldsOf .bit nodes)))
    | "initial_state" => do
      let field ← firstField .state nodes
      return some (.initialState span field)
    | "final_state" => .ok (some (.finalStates span (fieldsOf .state nodes)))
    | "composition" => .ok (some (.composition span (fieldsOf .library nodes)))
    | "instruction" => .ok (some (.rule span ((tokensOf nodes).map .ofToken)))
    | _ => .ok none

/-- The records of some nodes in order. -/
def recordsOf : List Tree → Except TreeFault (List Record)
  | [] => .ok []
  | node :: rest => do
    let record ← Record.ofTree? node
    let records ← recordsOf rest
    return record.toList ++ records

/-- The program of a tree. -/
def Program.ofTree : Tree → Except TreeFault Program
  | .branch "start" span nodes => do
    let records ← recordsOf nodes
    return ⟨span, records⟩
  | .branch .. => .error .notAProgram
  | .leaf _ => .error .notABranch

/-! ## §3 Listings -/

/-- A field with its parts. -/
def Field.listing (f : Field) : String :=
  let text := Text.quoted f.text
  let span := listingOf f.span
  s!"Field(text={text}, loc={span})"

/-- Fields in brackets. -/
def fieldsListing (fields : List Field) : String :=
  "[" ++ ", ".intercalate (fields.map Field.listing) ++ "]"

/-- A record with its kind and all its parts. -/
def Record.listing (r : Record) : String :=
  let span := listingOf r.span
  match r with
  | .description _ text => s!"Description(loc={span}, text={Text.quoted text})"
  | .tape _ bits => s!"TapeLiteral(loc={span}, bits={fieldsListing bits})"
  | .initialState _ state => s!"InitialState(loc={span}, state={state.listing})"
  | .finalStates _ states => s!"FinalStates(loc={span}, states={fieldsListing states})"
  | .composition _ libraries => s!"Composition(loc={span}, libraries={fieldsListing libraries})"
  | .rule _ fields => s!"InstructionDecl(loc={span}, fields={fieldsListing fields})"
  | .other _ => s!"Node(loc={span})"

end TapeMachine
