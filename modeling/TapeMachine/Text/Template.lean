import TapeMachine.Text.Presentation

/-!
# Templates

A template is a text with places to fill in. A place stands in braces and names a value; behind
the name it may ask for a part of the value, for its listing in place of the value itself, and for
a layout, which may hold places too. A doubled brace stands for the brace itself. Values that a
template does not name are ignored.

* `Piece` is a letter or a place, and `piecesFrom` takes a template apart;
* `select` finds the value of a place;
* `fill` puts the values in, or says what is wrong from left to right.
-/

namespace TapeMachine.Text.Template

/-- Why a template cannot be filled in. -/
inductive Fault where
  /-- No value has this name. -/
  | missingKey (key : String)
  /-- A place has a number in place of a name. -/
  | numbered (index : Nat)
  /-- An opening brace ends the template. -/
  | loneOpening
  /-- A closing brace stands alone. -/
  | loneClosing
  /-- An opening brace stands in a name. -/
  | openingInName
  /-- A name is not closed. -/
  | unclosed
  /-- A layout is not closed. -/
  | unclosedLayout
  /-- A conversion has no letter. -/
  | noConversion
  /-- A conversion has more than one letter. -/
  | longConversion
  | unknownConversion (letter : Char)
  /-- Layouts are nested too deeply. -/
  | tooDeep
  /-- An index has no closing bracket. -/
  | openIndex
  /-- Something else than a part follows an index. -/
  | afterIndex
  /-- A part has no name. -/
  | emptyPart
  /-- A value of this sort has no such part. -/
  | noPart (sort name : String)
  /-- A text has fewer letters. -/
  | noLetter
  /-- A text has letters by number only. -/
  | namedLetter
  /-- A number has no letters. -/
  | notIndexable
  | layout (fault : Presentation.Fault)
  deriving DecidableEq, Repr

/-- The fault in words. -/
def Fault.message : Fault → String
  | .missingKey key => key
  | .numbered index => s!"Replacement index {index} out of range for positional args tuple"
  | .loneOpening => "Single '\x7b' encountered in format string"
  | .loneClosing => "Single '\x7d' encountered in format string"
  | .openingInName => "unexpected '\x7b' in field name"
  | .unclosed => "expected '\x7d' before end of string"
  | .unclosedLayout => "unmatched '\x7b' in format spec"
  | .noConversion => "end of string while looking for conversion specifier"
  | .longConversion => "expected ':' after conversion specifier"
  | .unknownConversion letter =>
    let letter := if letter = '\x7f' then "\\x7f" else Presentation.kindText letter
    s!"Unknown conversion specifier {letter}"
  | .tooDeep => "Max string recursion exceeded"
  | .openIndex => "Missing ']' in format string"
  | .afterIndex => "Only '.' or '[' may follow ']' in format field specifier"
  | .emptyPart => "Empty attribute in format string"
  | .noPart sort name => s!"'{sort}' object has no attribute '{name}'"
  | .noLetter => "string index out of range"
  | .namedLetter => "string indices must be integers, not 'str'"
  | .notIndexable => "'int' object is not subscriptable"
  | .layout fault => fault.message

/-- Names with their values. -/
abbrev Values := List (String × Value)

/-! ## §1 Pieces -/

/-- A letter of the text, or a place with its name, its conversion and its layout. -/
inductive Piece where
  | letter (c : Char)
  | place (name : List Char) (conversion : Option Char) (layout : List Char)
  deriving DecidableEq, Repr

/-- Where the reading of a template stands. What has been read of a name or a layout comes with
the last letter first. -/
inductive Stand where
  | text
  /-- Behind an opening brace. -/
  | opened
  /-- Behind a closing brace. -/
  | closed
  | name (read : List Char)
  /-- In an index, where braces are letters. -/
  | index (read : List Char)
  /-- Behind the mark of a conversion. -/
  | conversion (name : List Char)
  /-- Behind the letter of a conversion. -/
  | converted (name : List Char) (letter : Char)
  /-- In a layout, at a depth of braces. -/
  | layout (name : List Char) (conversion : Option Char) (depth : Nat) (read : List Char)
  deriving DecidableEq, Repr

/-- One letter on, in a name. -/
def nameStep (read : List Char) (c : Char) : Except Fault (Stand × List Piece) :=
  match c with
  | '{' => .error .openingInName
  | '}' => .ok (.text, [.place read.reverse none []])
  | '[' => .ok (.index (c :: read), [])
  | ':' => .ok (.layout read.reverse none 0 [], [])
  | '!' => .ok (.conversion read.reverse, [])
  | _ => .ok (.name (c :: read), [])

/-- One letter on: where the reading stands then, and the piece that is complete. -/
def Stand.step (s : Stand) (c : Char) : Except Fault (Stand × List Piece) :=
  match s with
  | .text =>
    if c = '{' then .ok (.opened, [])
    else if c = '}' then .ok (.closed, [])
    else .ok (.text, [.letter c])
  | .opened => if c = '{' then .ok (.text, [.letter c]) else nameStep [] c
  | .closed => if c = '}' then .ok (.text, [.letter c]) else .error .loneClosing
  | .name read => nameStep read c
  | .index read => .ok (if c = ']' then .name (c :: read) else .index (c :: read), [])
  | .conversion label => .ok (.converted label c, [])
  | .converted label letter =>
    if c = '}' then .ok (.text, [.place label (some letter) []])
    else if c = ':' then .ok (.layout label (some letter) 0 [], [])
    else .error .longConversion
  | .layout label letter depth read =>
    match c, depth with
    | '{', _ => .ok (.layout label letter (depth + 1) (c :: read), [])
    | '}', 0 => .ok (.text, [.place label letter read.reverse])
    | '}', d + 1 => .ok (.layout label letter d (c :: read), [])
    | _, _ => .ok (.layout label letter depth (c :: read), [])

/-- What is wrong if the template ends here. -/
def Stand.endFault? : Stand → Option Fault
  | .text => none
  | .opened => some .loneOpening
  | .closed => some .loneClosing
  | .name _ | .index _ => some .unclosed
  | .conversion _ => some .noConversion
  | .converted .. | .layout .. => some .unclosedLayout

/-- The pieces of a template up to its end, or up to what is wrong with it. -/
def piecesFrom (s : Stand) : List Char → List Piece × Option Fault
  | [] => ([], s.endFault?)
  | c :: rest =>
    match s.step c with
    | .error fault => ([], some fault)
    | .ok (next, found) =>
      let (pieces, fault) := piecesFrom next rest
      (found ++ pieces, fault)

/-! ## §2 Values of Places -/

/-- A step into a value. -/
inductive Selector where
  /-- A part by its name. -/
  | part (name : List Char)
  /-- What stands at an index. -/
  | item (name : List Char)
  deriving DecidableEq, Repr

/-- Where the reading of selectors stands. Names come with the last letter first. -/
inductive SelectorStand where
  /-- Behind the name of the place, or behind an index. -/
  | between
  | part (read : List Char)
  | item (read : List Char)
  deriving DecidableEq, Repr

/-- The selectors behind the name of a place, up to the end or to what is wrong with them. -/
def selectorsFrom (s : SelectorStand) : List Char → List Selector × Option Fault
  | [] =>
    match s with
    | .between => ([], none)
    | .part [] => ([], some .emptyPart)
    | .part read => ([.part read.reverse], none)
    | .item _ => ([], some .openIndex)
  | c :: rest =>
    match s, c with
    | .between, '.' => selectorsFrom (.part []) rest
    | .between, '[' => selectorsFrom (.item []) rest
    | .between, _ => ([], some .afterIndex)
    | .part [], '.' | .part [], '[' => ([], some .emptyPart)
    | .part read, '.' =>
      let (selectors, fault) := selectorsFrom (.part []) rest
      (.part read.reverse :: selectors, fault)
    | .part read, '[' =>
      let (selectors, fault) := selectorsFrom (.item []) rest
      (.part read.reverse :: selectors, fault)
    | .part read, _ => selectorsFrom (.part (c :: read)) rest
    | .item [], ']' => ([], some .emptyPart)
    | .item read, ']' =>
      let (selectors, fault) := selectorsFrom .between rest
      (.item read.reverse :: selectors, fault)
    | .item read, _ => selectorsFrom (.item (c :: read)) rest

/-- The number that a name is, if all its letters are digits. -/
def indexOf? (name : List Char) : Except Fault (Option Nat) :=
  if name.isEmpty || !name.all isDigit then .ok none
  else
    match Presentation.takeCount name with
    | .ok (n, _) => .ok n
    | .error fault => .error (.layout fault)

/-- One step into a value. The parts of a whole number are those of any number. -/
def Selector.apply (s : Selector) (v : Value) : Except Fault Value :=
  match s, v with
  | .part name, .number n =>
    match String.ofList name with
    | "real" | "numerator" => .ok (.number n)
    | "imag" => .ok (.number 0)
    | "denominator" => .ok (.number 1)
    | name => .error (.noPart v.sort name)
  | .part name, .text _ => .error (.noPart v.sort (String.ofList name))
  | .item name, .text t => do
    match ← indexOf? name with
    | none => .error .namedLetter
    | some i =>
      match t.toList[i]? with
      | some c => return .text c.toString
      | none => .error .noLetter
  | .item name, .number _ => do
    let _ ← indexOf? name
    .error .notIndexable

/-- The value of a place: the one of the name, and then step by step into it. -/
def select (values : Values) (place : List Char) : Except Fault Value := do
  let isName (c : Char) : Bool := c != '.' && c != '['
  let name := place.takeWhile isName
  match ← indexOf? name with
  | some i => .error (.numbered i)
  | none =>
    if name.isEmpty then .error (.numbered 0)
    else
      let key := String.ofList name
      match values.lookup key with
      | none => .error (.missingKey key)
      | some value =>
        let (selectors, fault) := selectorsFrom .between (place.dropWhile isName)
        let value ← selectors.foldlM (fun v s => s.apply v) value
        match fault with
        | some fault => .error fault
        | none => return value

/-- The listing of a value in place of the value itself, if a place asks for that. -/
def convert (conversion : Option Char) (v : Value) : Except Fault Value :=
  match conversion with
  | none => .ok v
  | some 's' => .ok (.text v.plain)
  | some 'r' => .ok (.text v.listing)
  | some 'a' => .ok (.text (escapedText v.listing))
  | some letter => .error (.unknownConversion letter)

/-! ## §3 Filling In -/

/-- Fills in a template with layouts of a depth. -/
def fillTo (values : Values) : Nat → List Char → Except Fault (List Char)
  | 0, _ => .error .tooDeep
  | depth + 1, template => do
    let (pieces, fault) := piecesFrom .text template
    let shown ← pieces.mapM fun piece =>
      match piece with
      | .letter c => .ok [c]
      | .place name conversion layout => do
        let value ← convert conversion (← select values name)
        let layout ← if layout.contains '{' then fillTo values depth layout else .ok layout
        (value.present layout).mapError Fault.layout
    match fault with
    | some fault => .error fault
    | none => return shown.flatten

/-- A template with its values filled in. Places in a layout have plain layouts. -/
def fill (values : Values) (template : String) : Except Fault String := do
  return String.ofList (← fillTo values 2 template.toList)

end TapeMachine.Text.Template
