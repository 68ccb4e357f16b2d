import TapeMachine.Text.Numeral
import TapeMachine.Text.Quoted
import TapeMachine.Text.Scientific

/-!
# Presentations

How a value is laid out where a template names it: a fill character and an alignment, a sign, a
least width, separators between groups of digits, a precision, and the kind of presentation, in
this order. Each part may be missing.

* `Value` is what a template can show: a text or a whole number;
* `Presentation.parse` reads a layout, and `Presentation.Fault` says what is wrong with one;
* `Value.present` lays a value out.
-/

namespace TapeMachine.Text

/-! ## §1 Values -/

/-- A text or a whole number. -/
inductive Value where
  | text (s : String)
  | number (n : Int)
  deriving DecidableEq, Repr

namespace Value

instance : Coe String Value := ⟨.text⟩

/-- The value as it stands without a layout. -/
def plain : Value → String
  | text s => s
  | number n => toString n

/-- The value with quotes around it if it is a text. -/
def listing : Value → String
  | text s => quoted s
  | number n => toString n

/-- The sort of a value, as messages name it. -/
def sort : Value → String
  | text _ => "str"
  | number _ => "int"

end Value

/-! ## §2 Layouts -/

/-- Where a value stands in its field. -/
inductive Align where
  | left
  | right
  | center
  /-- The sign on the left and the digits on the right. -/
  | apart
  deriving DecidableEq, Repr

/-- The alignment of a mark. -/
def Align.ofMark? : Char → Option Align
  | '<' => some .left
  | '>' => some .right
  | '^' => some .center
  | '=' => some .apart
  | _ => none

/-- How a value is laid out. -/
structure Presentation where
  fill : Char
  align : Align
  /-- What stands in front of a number that is not negative: a plus, a blank, or nothing. -/
  sign : Option Char
  /-- Whether zero is never negative. -/
  plainZero : Bool
  /-- The longer form of a number. -/
  alternate : Bool
  width : Option Nat
  separator : Option Char
  precision : Option Nat
  kind : Char
  deriving DecidableEq, Repr

namespace Presentation

/-- Why a value cannot be laid out. -/
inductive Fault where
  /-- A count is larger than a machine word. -/
  | manyDigits
  | bothSeparators
  | noPrecision
  | malformed (layout sort : String)
  | separator (separator kind : Char)
  | unknownKind (kind : Char) (sort : String)
  /-- This part of a layout is not for texts. -/
  | notForTexts (part : String)
  /-- This part of a layout is not for whole numbers. -/
  | notForNumbers (part : String)
  /-- This part of a layout is not for characters. -/
  | notForCharacters (part : String)
  /-- No character has this number. -/
  | noCharacter (n : Int)
  /-- The number is too large to be written with a point. -/
  | tooLarge
  | precisionTooBig
  /-- The field is too long to be written. -/
  | noRoom
  deriving DecidableEq, Repr

/-- The kind as messages show it. -/
def kindText (c : Char) : String :=
  if 32 < c.toNat && c.toNat < 128 then c.toString
  else "\\x" ++ String.ofList (Nat.toDigits 16 c.toNat)

/-- The fault in words. -/
def Fault.message : Fault → String
  | .manyDigits => "Too many decimal digits in format string"
  | .bothSeparators => "Cannot specify both ',' and '_'."
  | .noPrecision => "Format specifier missing precision"
  | .malformed layout sort => s!"Invalid format specifier '{layout}' for object of type '{sort}'"
  | .separator mark kind =>
    let kind := kindText kind
    s!"Cannot specify '{mark}' with '{kind}'."
  | .unknownKind kind sort =>
    let kind := kindText kind
    s!"Unknown format code '{kind}' for object of type '{sort}'"
  | .notForTexts part => s!"{part} not allowed in string format specifier"
  | .notForNumbers part => s!"{part} not allowed in integer format specifier"
  | .notForCharacters part => s!"{part} not allowed with integer format specifier 'c'"
  | .noCharacter _ => "%c arg not in range(0x110000)"
  | .tooLarge => "int too large to convert to float"
  | .precisionTooBig => "precision too big"
  | .noRoom => ""

/-! ## §3 Reading a Layout -/

/-- The largest count in a layout. -/
def largestCount : Nat := Nat.pow 2 63 - 1

/-- A count in decimal digits, which may be missing, and what follows it. -/
def takeCount (cs : List Char) : Except Fault (Option Nat × List Char) :=
  match (cs.takeWhile isDigit).filterMap digitValue? with
  | [] => .ok (none, cs)
  | digits =>
    let n := ofDigits digits
    if n ≤ largestCount then .ok (some n, cs.dropWhile isDigit) else .error .manyDigits

/-- Whether a character comes first, and what follows it. -/
def takeMark (mark : Char) : List Char → Bool × List Char
  | [] => (false, [])
  | c :: rest => if c = mark then (true, rest) else (false, c :: rest)

/-- A fill character and an alignment, each of which may be missing, and what follows them. -/
def takeAlign : List Char → Option Char × Option Align × List Char
  | [] => (none, none, [])
  | [c] =>
    match Align.ofMark? c with
    | some a => (none, some a, [])
    | none => (none, none, [c])
  | c :: d :: rest =>
    match Align.ofMark? d, Align.ofMark? c with
    | some a, _ => (some c, some a, rest)
    | none, some a => (none, some a, d :: rest)
    | none, none => (none, none, c :: d :: rest)

/-- A sign rule, which may be missing, and what follows it. -/
def takeSign : List Char → Option Char × List Char
  | '+' :: rest => (some '+', rest)
  | '-' :: rest => (some '-', rest)
  | ' ' :: rest => (some ' ', rest)
  | rest => (none, rest)

/-- Separators, which may be missing, and what follows them. -/
def takeSeparator (cs : List Char) : Except Fault (Option Char × List Char) :=
  match cs with
  | ',' :: '_' :: _ => .error .bothSeparators
  | ',' :: rest => .ok (some ',', rest)
  | '_' :: ',' :: _ => .error .bothSeparators
  | '_' :: rest => .ok (some '_', rest)
  | rest => .ok (none, rest)

/-- A precision behind a point, which may be missing, and what follows it. -/
def takePrecision (cs : List Char) : Except Fault (Option Nat × List Char) :=
  match cs with
  | '.' :: rest => do
    match ← takeCount rest with
    | (none, _) => .error .noPrecision
    | (some n, rest) => return (some n, rest)
  | rest => .ok (none, rest)

/-- Whether digits of this kind may be separated. Only underscores separate the digits of the
bases 2, 8 and 16. -/
def separates (separator kind : Char) : Bool :=
  ['d', 'e', 'f', 'g', 'E', 'G', '%', 'F'].contains kind ||
    (separator == '_' && ['b', 'o', 'x', 'X'].contains kind)

/-- Reads a layout for a value. Numbers stand on the right and texts on the left if the layout
does not say. -/
def parse (v : Value) (layout : List Char) : Except Fault Presentation := do
  let (usualKind, usualAlign) := match v with
    | .text _ => ('s', Align.left)
    | .number _ => ('d', Align.right)
  let (fill, align, rest) := takeAlign layout
  let (sign, rest) := takeSign rest
  let (plainZero, rest) := takeMark 'z' rest
  let (alternate, rest) := takeMark '#' rest
  let (zeros, rest) := if fill.isSome then (false, rest) else takeMark '0' rest
  let (width, rest) ← takeCount rest
  let (separator, rest) ← takeSeparator rest
  let (precision, rest) ← takePrecision rest
  let kind ← match rest with
    | [] => .ok usualKind
    | [c] => .ok c
    | _ => .error (.malformed (String.ofList layout) v.sort)
  match separator with
  | some s => if separates s kind then pure () else .error (.separator s kind)
  | none => pure ()
  return {
    fill := if zeros then '0' else fill.getD ' '
    align := align.getD (if zeros && usualAlign == .right then .apart else usualAlign)
    sign, plainZero, alternate, width, separator, precision, kind }

/-- The longest field that can be written. -/
def longestField : Nat := Nat.pow 10 8

/-- A field that is laid out last of all, if there is room for it. -/
def written (p : Presentation) (field : Unit → List Char) : Except Fault (List Char) :=
  if longestField < p.width.getD 0 then .error .noRoom else .ok (field ())

/-! ## §4 Texts -/

/-- A text filled up to the width. -/
def pad (p : Presentation) (cs : List Char) : List Char :=
  let missing := p.width.getD 0 - cs.length
  let before := match p.align with
    | .right => missing
    | .center => missing / 2
    | .left | .apart => 0
  List.replicate before p.fill ++ cs ++ List.replicate (missing - before) p.fill

/-- Lays out a text. -/
def showText (p : Presentation) (s : String) : Except Fault (List Char) :=
  if p.kind ≠ 's' then .error (.unknownKind p.kind "str")
  else if p.sign = some ' ' then .error (.notForTexts "Space")
  else if p.sign.isSome then .error (.notForTexts "Sign")
  else if p.plainZero then .error (.notForTexts "Negative zero coercion (z)")
  else if p.alternate then .error (.notForTexts "Alternate form (#)")
  else if p.align = .apart then .error (.notForTexts "'=' alignment")
  else p.written fun _ => p.pad ((p.precision.map s.toList.take).getD s.toList)

/-! ## §5 Numbers -/

/-- The parts of a number in print: the mark of its base, its digits, and all that follows. -/
structure Parts where
  mark : List Char := []
  digits : List Char := []
  rest : List Char := []

/-- Digits with a separator in front of each full group, counted from the right. -/
def separated (separator : Char) (size : Nat) : List Char → List Char
  | [] => []
  | c :: rest =>
    if !rest.isEmpty && rest.length % size == 0 then c :: separator :: separated separator size rest
    else c :: separated separator size rest

/-- Digits in groups, with zeros in front to fill a least length. A separator never comes first:
one more zero is put in front of it. -/
def grouped (separator : Option Char) (size least : Nat) (digits : List Char) : List Char :=
  match separator with
  | none => List.replicate (least - digits.length) '0' ++ digits
  | some s =>
    let wanted := least - (least - 1) / (size + 1)
    separated s size (List.replicate (wanted - digits.length) '0' ++ digits)

/-- Puts a number together: sign, mark of the base, digits, rest. What is missing to the width is
filled up where the alignment says, with zeros among the digits if that is the fill. -/
def assemble (p : Presentation) (negative : Bool) (x : Parts) : List Char :=
  let sign := if negative then ['-'] else (p.sign.filter (· != '-')).toList
  let front := sign ++ x.mark
  let size := if ['b', 'o', 'x', 'X'].contains p.kind then 4 else 3
  let width := p.width.getD 0
  let taken := front.length + x.rest.length
  let least := if p.fill = '0' && p.align = .apart then width - taken else 0
  let digits := if x.digits.isEmpty then [] else grouped p.separator size least x.digits
  let missing := width - (taken + digits.length)
  match p.align with
  | .apart => front ++ List.replicate missing p.fill ++ digits ++ x.rest
  | _ => p.pad (front ++ digits ++ x.rest)

/-- The parts of a whole number in a base. -/
def wholeParts (p : Presentation) (n : Nat) : Parts :=
  let marked (letter : Char) : List Char := if p.alternate then ['0', letter] else []
  match p.kind with
  | 'b' => ⟨marked 'b', Nat.toDigits 2 n, []⟩
  | 'o' => ⟨marked 'o', Nat.toDigits 8 n, []⟩
  | 'x' => ⟨marked 'x', Nat.toDigits 16 n, []⟩
  | 'X' => ⟨marked 'X', (Nat.toDigits 16 n).map Char.toUpper, []⟩
  | _ => ⟨[], Nat.toDigits 10 n, []⟩

/-- Lays out a whole number without a point. -/
def showWhole (p : Presentation) (n : Int) : Except Fault (List Char) :=
  if p.precision.isSome then .error (.notForNumbers "Precision")
  else if p.plainZero then .error (.notForNumbers "Negative zero coercion (z)")
  else if p.kind ≠ 'c' then p.written fun _ => p.assemble (n < 0) (p.wholeParts n.natAbs)
  else if p.sign.isSome then .error (.notForCharacters "Sign")
  else if p.alternate then .error (.notForCharacters "Alternate form (#)")
  else if n < 0 || 0x10ffff < n then .error (.noCharacter n)
  else p.written fun _ => p.assemble false { rest := [Char.ofNat n.toNat] }

/-- The largest precision of a number with a point. -/
def largestPrecision : Nat := Nat.pow 2 31 - 1

/-- Lays out a whole number with a point. A percentage that is too large counts as infinite. -/
def showPointed (p : Presentation) (n : Int) : Except Fault (List Char) :=
  match toBinary64? n.natAbs with
  | none => .error .tooLarge
  | some m =>
    let places := p.precision.getD 6
    if largestPrecision < places then .error .precisionTooBig
    else if longestField < places then .error .noRoom
    else p.written fun _ =>
      let x := match p.kind with
        | 'e' => scientific 'e' places p.alternate m
        | 'E' => scientific 'E' places p.alternate m
        | 'g' => general 'e' places p.alternate m
        | 'G' => general 'E' places p.alternate m
        | '%' =>
          match toBinary64? (100 * m) with
          | some m =>
            let x := positional places p.alternate m
            { x with rest := x.rest ++ ['%'] }
          | none => ⟨[], "inf%".toList⟩
        | _ => positional places p.alternate m
      p.assemble (n < 0) { digits := x.whole, rest := x.rest }

/-- Lays out a number. -/
def showNumber (p : Presentation) (n : Int) : Except Fault (List Char) :=
  if ['b', 'c', 'd', 'o', 'x', 'X', 'n'].contains p.kind then p.showWhole n
  else if ['e', 'E', 'f', 'F', 'g', 'G', '%'].contains p.kind then p.showPointed n
  else .error (.unknownKind p.kind "int")

end Presentation

/-- Lays a value out. Without a layout it is shown as it is. -/
def Value.present (v : Value) (layout : List Char) : Except Presentation.Fault (List Char) :=
  if layout.isEmpty then .ok v.plain.toList
  else do
    let p ← Presentation.parse v layout
    match v with
    | .text s => p.showText s
    | .number n => p.showNumber n

end TapeMachine.Text
