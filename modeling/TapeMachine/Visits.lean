/-!
# Visit Counts

How many times each state was entered, in the order in which the states were first entered.

* `Visits.enter` counts one more entry;
* `Visits.exceeds` asks whether some state was entered more often than a threshold;
* `Visits.busiest?` is the state entered most often, the earliest of those that tie.
-/

namespace TapeMachine

/-- States with their counts, in order of first entry. -/
structure Visits where
  counts : List (String × Nat)
  deriving DecidableEq, Repr

namespace Visits

/-- Nothing was entered yet. -/
def empty : Visits := ⟨[]⟩

/-- Counts one more entry of a state in a list of counts. -/
def bump (state : String) : List (String × Nat) → List (String × Nat)
  | [] => [(state, 1)]
  | (s, n) :: rest => if s = state then (s, n + 1) :: rest else (s, n) :: bump state rest

/-- Counts one more entry of a state. -/
def enter (v : Visits) (state : String) : Visits := ⟨bump state v.counts⟩

/-- The count of a state in a list of counts. -/
def lookup (state : String) : List (String × Nat) → Nat
  | [] => 0
  | (s, n) :: rest => if s = state then n else lookup state rest

/-- How often a state was entered. -/
def count (v : Visits) (state : String) : Nat := lookup state v.counts

/-- Whether some state was entered more often than the threshold. -/
def exceeds (v : Visits) (threshold : Int) : Bool :=
  v.counts.any fun entry => threshold < entry.2

/-- The better of the entry found so far and the rest; an entry found earlier wins a tie. -/
def busiestFrom (best : String × Nat) : List (String × Nat) → String × Nat
  | [] => best
  | entry :: rest => busiestFrom (if best.2 < entry.2 then entry else best) rest

/-- The state entered most often, with its count. -/
def busiest? (v : Visits) : Option (String × Nat) :=
  match v.counts with
  | [] => none
  | entry :: rest => some (busiestFrom entry rest)

theorem lookup_bump (state other : String) (counts : List (String × Nat)) :
    lookup other (bump state counts) =
      lookup other counts + if state = other then 1 else 0 := by
  induction counts with
  | nil => by_cases h : state = other <;> simp [bump, lookup, h]
  | cons entry rest ih =>
    obtain ⟨s, n⟩ := entry
    by_cases hs : s = state
    · by_cases ho : state = other
      · subst hs; subst ho; simp [bump, lookup]
      · subst hs; simp [bump, lookup, ho]
    · by_cases ho : s = other
      · subst ho
        have : state ≠ s := fun e => hs e.symm
        simp [bump, lookup, hs, this]
      · simp [bump, lookup, hs, ho, ih]

/-- Entering a state adds one to its count and leaves the others. -/
theorem count_enter (v : Visits) (state other : String) :
    (v.enter state).count other = v.count other + if state = other then 1 else 0 :=
  lookup_bump state other v.counts

end Visits

end TapeMachine
