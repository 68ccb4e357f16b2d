import TapeMachine.Library.Builtin
import TapeMachine.Proofs.Attempts
import TapeMachine.Proofs.Tables

/-!
# What the Built-In Libraries Contain

The code of a library is text. Here it is read once, and every library is given by the list of its
rules.

* `Library.sumRules` and so on are the rules of the libraries, and `Library.contents` lists them;
* `Library.Provides` says that a built-in library has the rules of a list, with what else is known
  of them, and `Library.provides_of_mem_contents` that all of them have theirs;
* `Registry.of_find?`: a library that is found has the name that was looked for.
-/

namespace TapeMachine

/-- The rules of a code that is given letter by letter. -/
theorem Library.rulesOf_eq_ok {code : String} {letters : List Char} {rules : List Rule}
    (hCode : code = String.ofList letters)
    (hRead : ((Tree.ofText? letters).toOption.bind fun tree =>
      (Program.ofTree tree).toOption.bind fun p =>
        (p.ruleFields.mapM Rule.ofFields).toOption) = some rules) :
    Library.rulesOf code = .ok rules := by
  cases hTree : Tree.ofText? letters with
  | error fault => simp [hTree, Except.toOption] at hRead
  | ok tree =>
    cases hProgram : Program.ofTree tree with
    | error fault => simp [hTree, hProgram, Except.toOption] at hRead
    | ok p =>
      have hSource : Program.ofSource code = .ok p := by
        rw [Program.ofSource, Tree.ofSource, hCode, String.toList_ofList, hTree]
        dsimp only
        rw [ok_bind, hProgram]
        rfl
      rw [Library.rulesOf, hSource, ok_bind]
      cases hRules : p.ruleFields.mapM Rule.ofFields with
      | error fault => simp [hTree, hProgram, hRules, Except.toOption] at hRead
      | ok found =>
        simp only [hTree, hProgram, hRules, Except.toOption, Option.bind_some,
          Option.some.injEq] at hRead
        rw [hRead]

namespace Library

/-! ## §1 Rules -/

/-- The rules of the library that adds. -/
def sumRules : List Rule :=
  [⟨"q0", true, false, .right, "q1"⟩, ⟨"q1", true, true, .right, "q1"⟩,
    ⟨"q1", false, false, .right, "q3"⟩, ⟨"q3", true, false, .halt, "q2"⟩]

/-- The rules of the library that doubles. -/
def doubleRules : List Rule :=
  [⟨"q0", true, false, .right, "q1"⟩,
    ⟨"q1", true, false, .right, "q2"⟩, ⟨"q1", false, false, .halt, "q8"⟩,
    ⟨"q2", true, true, .right, "q2"⟩, ⟨"q2", false, false, .right, "q3"⟩,
    ⟨"q3", true, true, .right, "q3"⟩, ⟨"q3", false, true, .right, "q4"⟩,
    ⟨"q4", false, true, .left, "q5"⟩,
    ⟨"q5", true, true, .left, "q5"⟩, ⟨"q5", false, false, .left, "q6"⟩,
    ⟨"q6", true, true, .left, "q7"⟩, ⟨"q6", false, false, .halt, "q8"⟩,
    ⟨"q7", true, true, .left, "q7"⟩, ⟨"q7", false, false, .right, "q1"⟩]

/-- The rules of the library that takes the remainder by two. -/
def mod2Rules : List Rule :=
  [⟨"q0", true, false, .right, "q1"⟩,
    ⟨"q1", true, false, .right, "q2"⟩, ⟨"q1", false, false, .halt, "q3"⟩,
    ⟨"q2", true, false, .right, "q1"⟩, ⟨"q2", false, true, .halt, "q3"⟩]

/-- The rules of the library that halves. -/
def div2Rules : List Rule :=
  [⟨"q0", true, false, .right, "q1"⟩,
    ⟨"q1", true, false, .right, "q2"⟩, ⟨"q1", false, false, .halt, "q3"⟩,
    ⟨"q2", true, true, .right, "q1"⟩, ⟨"q2", false, false, .halt, "q3"⟩]

/-- The rules of the library that subtracts. -/
def monusRules : List Rule :=
  [⟨"q0", true, true, .right, "q1"⟩,
    ⟨"q1", true, true, .right, "q1"⟩, ⟨"q1", false, false, .right, "q2"⟩,
    ⟨"q2", true, false, .right, "q3"⟩,
    ⟨"q3", true, false, .right, "q4"⟩, ⟨"q3", false, false, .left, "q13"⟩,
    ⟨"q4", true, true, .left, "q5"⟩, ⟨"q4", false, false, .left, "q9"⟩,
    ⟨"q5", false, false, .left, "q5"⟩, ⟨"q5", true, true, .left, "q6"⟩,
    ⟨"q6", true, true, .right, "q7"⟩, ⟨"q6", false, false, .right, "q15"⟩,
    ⟨"q7", true, false, .right, "q8"⟩,
    ⟨"q8", false, false, .right, "q8"⟩, ⟨"q8", true, true, .halt, "q3"⟩,
    ⟨"q9", false, false, .left, "q9"⟩, ⟨"q9", true, true, .left, "q10"⟩,
    ⟨"q10", true, true, .right, "q11"⟩, ⟨"q10", false, false, .right, "q14"⟩,
    ⟨"q11", true, false, .left, "q12"⟩,
    ⟨"q12", true, true, .left, "q12"⟩, ⟨"q12", false, false, .right, "q14"⟩,
    ⟨"q13", false, false, .left, "q13"⟩, ⟨"q13", true, true, .left, "q12"⟩,
    ⟨"q14", true, false, .halt, "q18"⟩,
    ⟨"q15", true, false, .right, "q16"⟩,
    ⟨"q16", false, false, .right, "q16"⟩, ⟨"q16", true, false, .right, "q17"⟩,
    ⟨"q17", true, false, .right, "q17"⟩, ⟨"q17", false, false, .halt, "q18"⟩]

/-- The built-in libraries with their rules. -/
def contents : List (Library × List Rule) :=
  [(sum, sumRules), (double, doubleRules), (mod2, mod2Rules), (div2, div2Rules), (monus, monusRules)]

/-- Every built-in library is there. -/
theorem exists_mem_contents {l : Library} (hMem : l ∈ Registry.builtin.libraries) :
    ∃ rules, (l, rules) ∈ contents := by
  have hLibraries : Registry.builtin.libraries = contents.map Prod.fst := rfl
  rw [hLibraries] at hMem
  obtain ⟨⟨l, rules⟩, hPair, rfl⟩ := List.mem_map.1 hMem
  exact ⟨rules, hPair⟩

/-! ## §2 Libraries and Their Rules -/

/-- A built-in library has the rules of a list, with different keys. They are for states that it
declares as used, and its final state has none. -/
structure Provides (l : Library) (rules : List Rule) : Prop where
  found : Registry.builtin.find? l.name = some l
  rulesOf : Library.rulesOf l.code = .ok rules
  distinct : (rules.map Rule.key).Nodup
  used : ∀ r ∈ rules, r.state ∈ l.usedStates
  halts : ∀ r ∈ rules, r.state ≠ l.finalState

set_option maxRecDepth 100000 in
/-- **Contents**: the built-in libraries provide their rules. -/
theorem provides_of_mem_contents {l : Library} {rules : List Rule} (hMem : (l, rules) ∈ contents) :
    l.Provides rules := by
  simp only [contents, List.mem_cons, Prod.mk.injEq, List.not_mem_nil, or_false] at hMem
  rcases hMem with ⟨rfl, rfl⟩ | ⟨rfl, rfl⟩ | ⟨rfl, rfl⟩ | ⟨rfl, rfl⟩ | ⟨rfl, rfl⟩
  -- Each code is read once, letter by letter.
  all_goals
    exact {
      found := rfl
      rulesOf := rulesOf_eq_ok rfl (by decide +kernel)
      distinct := by decide +kernel
      used := by decide +kernel
      halts := by decide +kernel }

end Library

/-! ## §3 Names of Libraries -/

/-- A library that is found has the name that was looked for, which is one of the names. -/
theorem Registry.of_find? {registry : Registry} {name : String} {l : Library}
    (hFind : registry.find? name = some l) : l.name = name ∧ name ∈ registry.names := by
  have hName : l.name = name := by simpa using List.find?_some hFind
  refine ⟨hName, ?_⟩
  rw [← hName]
  exact List.mem_map_of_mem (List.mem_of_find?_eq_some hFind)

end TapeMachine
