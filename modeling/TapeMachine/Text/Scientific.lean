/-!
# Whole Numbers with a Point

A whole number that is kept to 53 binary places, and written with a decimal point: in positional
notation, in scientific notation, or in whichever of the two is shorter. Both roundings go to the
nearest neighbour, and a tie to the even one.

* `roundDiv` rounds a quotient;
* `toBinary64?` keeps 53 binary places, of numbers that are not too large for that;
* `Pointed` is a number in two parts, because only the part in front of the point is grouped.
-/

namespace TapeMachine.Text

/-! ## §1 Rounding -/

/-- A quotient, rounded to the nearest whole number; a tie goes to the even one. -/
def roundDiv (n d : Nat) : Nat :=
  let quotient := n / d
  let remainder := n % d
  if d < 2 * remainder || (2 * remainder == d && quotient % 2 == 1) then quotient + 1
  else quotient

/-- The nearest number of 53 binary places, if it has no more than 1024 in all. -/
def toBinary64? (n : Nat) : Option Nat :=
  let unit := Nat.pow 2 (n.log2 + 1 - 53)
  let rounded := roundDiv n unit * unit
  if rounded.log2 < 1024 then some rounded else none

/-- The first digits of a number, rounded to so many places, and the power of ten of the first. -/
def leadingDigits (places n : Nat) : List Char × Nat :=
  let digits := Nat.toDigits 10 n
  let power := digits.length - 1
  if digits.length ≤ places then
    (digits ++ List.replicate (places - digits.length) '0', power)
  else
    let rounded := Nat.toDigits 10 (roundDiv n (Nat.pow 10 (digits.length - places)))
    if rounded.length ≤ places then (rounded, power) else (rounded.take places, power + 1)

/-! ## §2 Notations -/

/-- A number in print: the digits in front of the point, and all that follows them. -/
structure Pointed where
  whole : List Char
  rest : List Char
  deriving DecidableEq, Repr

/-- A point with the digits behind it. Without digits it is left out, unless it is to be kept. -/
def pointThen (keep : Bool) (digits : List Char) : List Char :=
  if digits.isEmpty && !keep then [] else '.' :: digits

/-- Digits without the zeros at their end. -/
def dropZeros (digits : List Char) : List Char :=
  (digits.reverse.dropWhile (· == '0')).reverse

/-- A power of ten, in two digits or more. -/
def powerText (mark : Char) (power : Nat) : List Char :=
  let digits := Nat.toDigits 10 power
  mark :: '+' :: (List.replicate (2 - digits.length) '0' ++ digits)

/-- Positional notation, with so many places behind the point. -/
def positional (places : Nat) (keep : Bool) (n : Nat) : Pointed :=
  ⟨Nat.toDigits 10 n, pointThen keep (List.replicate places '0')⟩

/-- Scientific notation, with so many places behind the point. -/
def scientific (mark : Char) (places : Nat) (keep : Bool) (n : Nat) : Pointed :=
  let (digits, power) := leadingDigits (places + 1) n
  ⟨digits.take 1, pointThen keep (digits.drop 1) ++ powerText mark power⟩

/-- So many significant places, in positional notation if they reach the point. Zeros behind the
point are left out, unless they are to be kept. -/
def general (mark : Char) (places : Nat) (keep : Bool) (n : Nat) : Pointed :=
  let places := max 1 places
  let (digits, power) := leadingDigits places n
  let shown (digits : List Char) : List Char :=
    pointThen keep (if keep then digits else dropZeros digits)
  if power < places then ⟨digits.take (power + 1), shown (digits.drop (power + 1))⟩
  else ⟨digits.take 1, shown (digits.drop 1) ++ powerText mark power⟩

end TapeMachine.Text
