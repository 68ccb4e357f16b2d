import TapeMachine.Fault

/-!
# Libraries

A library is a named machine whose rules can be composed into a program. Its code is a program
of which only the rules count.

* `Library.table` reads the rules of a library;
* `Registry.validate` checks that every library has rules and declares the states it uses.
-/

namespace TapeMachine

/-- A machine to be composed into programs. -/
structure Library where
  name : String
  description : String
  initialState : String
  finalState : String
  usedStates : List String
  code : String
  deriving DecidableEq, Repr

namespace Library

/-- A fault of the code, as one of the library. Internal faults stay what they are. -/
def faultOf (l : Library) (fault : Fault) : Fault :=
  match fault.complaint? with
  | some complaint => .library l.name (.code complaint.message complaint.position)
  | none => fault

/-- The rules in the code of a library, in order. -/
def rulesOf (code : String) : Except Fault (List Rule) := do
  let program ← Program.ofSource code
  program.ruleFields.mapM Rule.ofFields

/-- The table of a library. -/
def table (l : Library) : Except Fault Table :=
  match rulesOf l.code with
  | .ok rules => .ok (.ofList rules)
  | .error fault => .error (l.faultOf fault)

/-- The states of a rule that the library does not declare, in order and once each. -/
def undeclaredStates (l : Library) (r : Rule) : List String :=
  let states := if r.state = r.next then [r.state] else sortTexts [r.state, r.next]
  states.filter fun state => !l.usedStates.contains state

/-- The first flaw of a library with this table. -/
def flaw? (l : Library) (t : Table) : Option LibraryFlaw :=
  if t.rules.isEmpty then some .noRules
  else
    match [l.initialState, l.finalState].find? fun state => !l.usedStates.contains state with
    | some state => some (.undeclared state)
    | none => t.rules.findSome? fun r =>
        match l.undeclaredStates r with
        | [] => none
        | states => some (.undeclaredIn r states)

/-- Checks one library. -/
def validate (l : Library) : Except Fault Unit := do
  let table ← l.table
  match l.flaw? table with
  | some flaw => .error (.library l.name flaw)
  | none => return ()

end Library

/-- Libraries with distinct names, in order of registration. -/
structure Registry where
  libraries : List Library
  distinct : (libraries.map Library.name).Nodup

namespace Registry

/-- The first name that occurs again among the libraries after some names. -/
def repeatedName? (seen : List String) : List Library → Option String
  | [] => none
  | l :: rest => if seen.contains l.name then some l.name else repeatedName? (l.name :: seen) rest

theorem nodup_of_repeatedName? {seen : List String} {libraries : List Library}
    (h : repeatedName? seen libraries = none) :
    (libraries.map Library.name).Nodup ∧ ∀ l ∈ libraries, l.name ∉ seen := by
  induction libraries generalizing seen with
  | nil => simp
  | cons l rest ih =>
    unfold repeatedName? at h
    split at h
    · cases h
    · next hl =>
      obtain ⟨hrest, hfresh⟩ := ih h
      refine ⟨?_, ?_⟩
      · rw [List.map_cons, List.nodup_cons]
        refine ⟨?_, hrest⟩
        intro hm
        obtain ⟨k, hk, hname⟩ := List.mem_map.1 hm
        exact hfresh k hk (by simp [hname])
      · intro k hk
        rcases List.mem_cons.1 hk with rfl | hk
        · simpa using hl
        · exact fun hs => hfresh k hk (List.mem_cons_of_mem _ hs)

/-- Registers libraries, or answers the first name that is taken. -/
def ofList (libraries : List Library) : Except String Registry :=
  match h : repeatedName? [] libraries with
  | some name => .error name
  | none => .ok ⟨libraries, (nodup_of_repeatedName? h).1⟩

/-- The library with exactly this name. -/
def find? (r : Registry) (name : String) : Option Library :=
  r.libraries.find? fun l => l.name == name

/-- The names in order. -/
def names (r : Registry) : List String := r.libraries.map Library.name

/-- Checks the libraries in order; the first that fails is reported. -/
def validate (r : Registry) : Except Fault Unit := r.libraries.forM Library.validate

end Registry

end TapeMachine
