/-!
# Reading UTF-8

Bytes are read as UTF-8 into characters, or the first place where they are not UTF-8 is
described: how many bytes are at fault and why.

* `Utf8.decode` reads a whole list of bytes;
* `Utf8.Fault` says where it stopped and why.
-/

namespace TapeMachine.Text.Utf8

/-- Why bytes are not UTF-8. -/
inductive Reason where
  | invalidStart
  | invalidContinuation
  | unexpectedEnd
  deriving DecidableEq, Repr

/-- The bytes at fault begin at `position`, the first of them is `firstByte`, and they are
`count` in number. -/
structure Fault where
  position : Nat
  firstByte : Nat
  count : Nat
  reason : Reason
  deriving DecidableEq, Repr

/-- The words for a reason. -/
def Reason.message : Reason → String
  | .invalidStart => "invalid start byte"
  | .invalidContinuation => "invalid continuation byte"
  | .unexpectedEnd => "unexpected end of data"

/-- A byte as two hexadecimal digits. -/
def byteText (n : Nat) : String :=
  String.ofList [Nat.digitChar (n / 16), Nat.digitChar (n % 16)]

/-- A fault in words: a single byte is shown, a run of bytes is given by its range. -/
def Fault.message (f : Fault) : String :=
  if f.count = 1 then
    let byte := byteText f.firstByte
    s!"'utf-8' codec can't decode byte 0x{byte} in position {f.position}: {f.reason.message}"
  else
    let last := f.position + f.count - 1
    s!"'utf-8' codec can't decode bytes in position {f.position}-{last}: {f.reason.message}"

/-- A byte that continues a character. -/
def isContinuation (b : Nat) : Bool := 0x80 ≤ b && b < 0xc0

/-- The second bytes allowed after a first byte: no overlong form, no surrogate, nothing above
the last code point. -/
def isSecond (first b : Nat) : Bool :=
  isContinuation b && (first != 0xe0 || 0xa0 ≤ b) && (first != 0xed || b < 0xa0) &&
    (first != 0xf0 || 0x90 ≤ b) && (first != 0xf4 || b < 0x90)

/-- How many bytes follow a first byte, if it can begin a character. -/
def following? (first : Nat) : Option Nat :=
  if first < 0x80 then some 0
  else if first < 0xc2 then none
  else if first < 0xe0 then some 1
  else if first < 0xf0 then some 2
  else if first < 0xf5 then some 3
  else none

/-- How many of the `wanted` following bytes are there and well formed, up to the first that is
missing or wrong. -/
def goodFollowing (first : Nat) (wanted : Nat) (rest : List Nat) : Nat :=
  match wanted, rest with
  | 0, _ => 0
  | _, [] => 0
  | n + 1, b :: more =>
    if isSecond first b then 1 + ((more.take n).takeWhile isContinuation).length else 0

/-- The code point of a first byte with its following bytes. -/
def codePoint (first : Nat) (rest : List Nat) : Nat :=
  let top := match rest.length with
    | 0 => first
    | 1 => first - 0xc0
    | 2 => first - 0xe0
    | _ => first - 0xf0
  rest.foldl (fun n b => n * 64 + (b - 0x80)) top

/-- One character at the front, with the number of bytes that follow its first. -/
def decodeOne (position first : Nat) (rest : List Nat) : Except Fault (Char × Nat) :=
  match following? first with
  | none => .error ⟨position, first, 1, .invalidStart⟩
  | some wanted =>
    let good := goodFollowing first wanted rest
    if good = wanted then .ok (Char.ofNat (codePoint first (rest.take wanted)), wanted)
    else if rest.length ≤ good then .error ⟨position, first, 1 + rest.length, .unexpectedEnd⟩
    else .error ⟨position, first, 1 + good, .invalidContinuation⟩

/-- The characters of the bytes. `skip` bytes in front belong to the character read last. -/
def decodeFrom (position skip : Nat) : List Nat → Except Fault (List Char)
  | [] => .ok []
  | b :: rest =>
    match skip with
    | n + 1 => decodeFrom (position + 1) n rest
    | 0 => do
      let (c, n) ← decodeOne position b rest
      let cs ← decodeFrom (position + 1) n rest
      return c :: cs

/-- The characters of a list of bytes, or the first fault. -/
def decode (bytes : List Nat) : Except Fault (List Char) :=
  decodeFrom 0 0 bytes

end TapeMachine.Text.Utf8
