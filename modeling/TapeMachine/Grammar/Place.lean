import TapeMachine.Grammar.Terminal

/-!
# Places in a Program

The language is regular: what may come next depends only on the place between two words. A
program is a sequence of declarations of six forms, and every form is a fixed sequence of words,
with one repetition in those that list something.

* `Place.moves` gives the words that may come at a place, each with the place after it;
* `Place.next?` follows one word and `Place.expected` lists those that can be followed;
* `mem_expected_iff`: a word is expected exactly where it can be followed.
-/

namespace TapeMachine

/-- A place between two words of a program, named for what comes next. -/
inductive Place where
  /-- Between declarations. -/
  | between
  /-- After the opening brace of a tape. -/
  | tapeFirst
  /-- After a cell of a tape. -/
  | tapeNext
  | tapeEnd
  | initialEquals
  | initialOpen
  | initialState
  | initialClose
  | initialEnd
  | finalEquals
  | finalOpen
  | finalState
  /-- After a final state: another one, or the closing brace. -/
  | finalNext
  | finalEnd
  | composeEquals
  | composeOpen
  | composeName
  /-- After a library name: another one, or the closing brace. -/
  | composeNext
  | composeEnd
  | ruleState
  | ruleComma₁
  | ruleValue
  | ruleComma₂
  | ruleWrite
  | ruleComma₃
  | ruleMovement
  | ruleComma₄
  | ruleNext
  | ruleClose
  | ruleEnd
  deriving DecidableEq, Repr

namespace Place

/-- The words that may come at a place, each with the place after it. -/
def moves : Place → List (Terminal × Place)
  | .between =>
    [(.leftBrace, .tapeFirst), (.initialWord, .initialEquals), (.finalWord, .finalEquals),
      (.composeWord, .composeEquals), (.leftParen, .ruleState), (.description, .between)]
  | .tapeFirst => [(.bit, .tapeNext)]
  | .tapeNext => [(.bit, .tapeNext), (.rightBrace, .tapeEnd)]
  | .tapeEnd => [(.semicolon, .between)]
  | .initialEquals => [(.equals, .initialOpen)]
  | .initialOpen => [(.leftBrace, .initialState)]
  | .initialState => [(.state, .initialClose)]
  | .initialClose => [(.rightBrace, .initialEnd)]
  | .initialEnd => [(.semicolon, .between)]
  | .finalEquals => [(.equals, .finalOpen)]
  | .finalOpen => [(.leftBrace, .finalState)]
  | .finalState => [(.state, .finalNext)]
  | .finalNext => [(.comma, .finalState), (.rightBrace, .finalEnd)]
  | .finalEnd => [(.semicolon, .between)]
  | .composeEquals => [(.equals, .composeOpen)]
  | .composeOpen => [(.leftBrace, .composeName)]
  | .composeName => [(.library, .composeNext)]
  | .composeNext => [(.comma, .composeName), (.rightBrace, .composeEnd)]
  | .composeEnd => [(.semicolon, .between)]
  | .ruleState => [(.state, .ruleComma₁)]
  | .ruleComma₁ => [(.comma, .ruleValue)]
  | .ruleValue => [(.bit, .ruleComma₂)]
  | .ruleComma₂ => [(.comma, .ruleWrite)]
  | .ruleWrite => [(.bit, .ruleComma₃)]
  | .ruleComma₃ => [(.comma, .ruleMovement)]
  | .ruleMovement => [(.movement, .ruleComma₄)]
  | .ruleComma₄ => [(.comma, .ruleNext)]
  | .ruleNext => [(.state, .ruleClose)]
  | .ruleClose => [(.rightParen, .ruleEnd)]
  | .ruleEnd => [(.semicolon, .between)]

/-- The place after a word. -/
def next? (p : Place) (t : Terminal) : Option Place := p.moves.lookup t

/-- The words that may come at a place. -/
def expected (p : Place) : List Terminal := p.moves.map Prod.fst

/-- The place after a sequence of words. -/
def follow? (p : Place) : List Terminal → Option Place
  | [] => some p
  | t :: rest => do
    let q ← p.next? t
    q.follow? rest

/-- A word is expected exactly where it can be followed. -/
theorem mem_expected_iff (p : Place) (t : Terminal) :
    t ∈ p.expected ↔ (p.next? t).isSome = true := by
  cases p <;> cases t <;> decide

/-- No word is expected twice at a place. -/
theorem nodup_expected (p : Place) : p.expected.Nodup := by
  cases p <;> decide

end Place

end TapeMachine
