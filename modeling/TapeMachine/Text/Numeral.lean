import TapeMachine.Text.Blank

/-!
# Whole Numbers in Text

Reading a whole number from an option's value: blanks at both ends, a sign, then decimal digits
of any script, with single underscores between digits.

* `digitValue?` gives the value of a decimal digit;
* `readInt?` reads the number, or refuses the text.
-/

namespace TapeMachine.Text

/-- The zeros of the decimal digits of Unicode 14. The ten digits of a script follow its zero. -/
def digitZeros : List Nat := [
  0x30, 0x660, 0x6f0, 0x7c0, 0x966, 0x9e6, 0xa66, 0xae6, 0xb66, 0xbe6, 0xc66, 0xce6, 0xd66, 0xde6,
  0xe50, 0xed0, 0xf20, 0x1040, 0x1090, 0x17e0, 0x1810, 0x1946, 0x19d0, 0x1a80, 0x1a90, 0x1b50,
  0x1bb0, 0x1c40, 0x1c50, 0xa620, 0xa8d0, 0xa900, 0xa9d0, 0xa9f0, 0xaa50, 0xabf0, 0xff10, 0x104a0,
  0x10d30, 0x11066, 0x110f0, 0x11136, 0x111d0, 0x112f0, 0x11450, 0x114d0, 0x11650, 0x116c0,
  0x11730, 0x118e0, 0x11950, 0x11c50, 0x11d50, 0x11da0, 0x16a60, 0x16ac0, 0x16b50, 0x1d7ce,
  0x1d7d8, 0x1d7e2, 0x1d7ec, 0x1d7f6, 0x1e140, 0x1e2f0, 0x1e950, 0x1fbf0]

/-- The value of a decimal digit of any script. -/
def digitValue? (c : Char) : Option Nat :=
  (digitZeros.find? fun start => start ≤ c.toNat && c.toNat < start + 10).map (c.toNat - ·)

/-- A digit of some script. -/
def isDigit (c : Char) : Bool := (digitValue? c).isSome

/-- A blank around a number. The four ASCII separators do not count here. -/
def isNumeralBlank (c : Char) : Bool :=
  isBlank c && !(0x1c ≤ c.toNat && c.toNat ≤ 0x1f)

/-- The digits of a numeral: at least one, and each underscore stands between two digits. -/
def numeralDigits? : List Char → Option (List Nat)
  | [] => none
  | [c] => (digitValue? c).map ([·])
  | c :: '_' :: rest => do
    let d ← digitValue? c
    let ds ← numeralDigits? rest
    return d :: ds
  | c :: rest => do
    let d ← digitValue? c
    let ds ← numeralDigits? rest
    return d :: ds

/-- The number that a list of decimal digits stands for. -/
def ofDigits (digits : List Nat) : Nat :=
  digits.foldl (fun n d => 10 * n + d) 0

/-- The most digits a numeral may have. -/
def maxDigits : Nat := 4300

/-- The number of an unsigned numeral. -/
def readNat? (cs : List Char) : Option Nat := do
  let digits ← numeralDigits? cs
  if digits.length ≤ maxDigits then some (ofDigits digits) else none

/-- The number that a text stands for, or nothing if it is no numeral. -/
def readInt? (text : String) : Option Int :=
  let body := text.toList.dropWhile isNumeralBlank
  let body := (body.reverse.dropWhile isNumeralBlank).reverse
  match body with
  | '-' :: rest => (readNat? rest).map fun n => -(n : Int)
  | '+' :: rest => (readNat? rest).map fun n => (n : Int)
  | rest => (readNat? rest).map fun n => (n : Int)

end TapeMachine.Text
