/-!
# Rules

A rule tells a machine what to do in a state on a cell value: the value to write, the movement
of the head, and the next state.

* `Movement.ofSymbol?` reads a movement in English or Spanish initials;
* `Rule.text` prints a rule the way programs write it, without the semicolon.
-/

namespace TapeMachine

/-! ## Cell Values -/

/-- The digit that stands for a cell value. -/
def bitText : Bool → String
  | false => "0"
  | true => "1"

/-! ## Movements -/

/-- What the head does after writing. -/
inductive Movement where
  | right
  | left
  | halt
  deriving DecidableEq, Repr

namespace Movement

/-- The movement a symbol stands for: right, left and halt, in English and in Spanish. -/
def ofSymbol? : String → Option Movement
  | "R" | "D" => some .right
  | "L" | "I" => some .left
  | "H" | "N" => some .halt
  | _ => none

/-- The symbol a movement is printed with. -/
def symbol : Movement → String
  | .right => "R"
  | .left => "L"
  | .halt => "H"

/-- The name of a movement. -/
def name : Movement → String
  | .right => "RIGHT"
  | .left => "LEFT"
  | .halt => "HALT"

/-- A printed movement reads back. -/
@[simp] theorem ofSymbol?_symbol (m : Movement) : ofSymbol? m.symbol = some m := by
  cases m <;> rfl

end Movement

/-! ## Rules -/

/-- What a rule is looked up by: a state and the value under the head. -/
abbrev Key := String × Bool

/-- In `state`, on a cell with `value`, write `write`, move, and go to `next`. -/
structure Rule where
  state : String
  value : Bool
  write : Bool
  movement : Movement
  next : String
  deriving DecidableEq, Repr

namespace Rule

/-- What the rule is looked up by. -/
def key (r : Rule) : Key := (r.state, r.value)

/-- The rule in print. -/
def text (r : Rule) : String :=
  let value := bitText r.value
  let write := bitText r.write
  s!"({r.state}, {value}, {write}, {r.movement.symbol}, {r.next})"

/-- The rule that a final state has where none is written: stay, and change nothing. -/
def halt (state : String) (value : Bool) : Rule :=
  ⟨state, value, value, .halt, state⟩

end Rule

end TapeMachine
