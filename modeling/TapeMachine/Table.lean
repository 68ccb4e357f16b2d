import TapeMachine.Rule
import TapeMachine.Span

/-!
# Transition Tables

A table holds at most one rule for each key. A later rule for a key takes the place of the
earlier one, in the place where that one stood.

* `Table.insert` adds a rule, `Table.get?` looks one up;
* `Table.keys_insert`: a known key keeps its place, a new one goes to the end;
* `Table.get?_insert`: after an insertion its key has the new rule and all others their old one;
* `Policy` says whether an overwrite is worth a warning; it never changes the table.
-/

namespace TapeMachine

/-! ## §1 Lists of Rules with Distinct Keys -/

/-- Puts a rule in the place of the one with its key, or at the end. -/
def insertRule (r : Rule) : List Rule → List Rule
  | [] => [r]
  | q :: rest => if q.key = r.key then r :: rest else q :: insertRule r rest

/-- The rule with a key. -/
def findRule (k : Key) : List Rule → Option Rule
  | [] => none
  | q :: rest => if q.key = k then some q else findRule k rest

theorem map_key_insertRule (r : Rule) (rules : List Rule) :
    (insertRule r rules).map Rule.key =
      if r.key ∈ rules.map Rule.key then rules.map Rule.key
      else rules.map Rule.key ++ [r.key] := by
  induction rules with
  | nil => simp [insertRule]
  | cons q rest ih =>
    by_cases h : q.key = r.key
    · simp [insertRule, h]
    · have h' : r.key ≠ q.key := fun e => h e.symm
      simp only [insertRule, h, if_false, List.map_cons, ih, List.mem_cons, h', false_or]
      split <;> simp

theorem findRule_insertRule (r : Rule) (k : Key) (rules : List Rule) :
    findRule k (insertRule r rules) = if r.key = k then some r else findRule k rules := by
  induction rules with
  | nil => simp [insertRule, findRule]
  | cons q rest ih =>
    by_cases h : q.key = r.key
    · by_cases hk : r.key = k
      · simp [insertRule, findRule, h, hk]
      · simp [insertRule, findRule, h, hk]
    · by_cases hq : q.key = k
      · subst hq
        have : r.key ≠ q.key := fun e => h e.symm
        simp [insertRule, findRule, h, this]
      · simp [insertRule, findRule, h, hq, ih]

/-! ## §2 Tables -/

/-- Rules with distinct keys, in the order in which their keys came. -/
structure Table where
  rules : List Rule
  distinct : (rules.map Rule.key).Nodup

namespace Table

instance : DecidableEq Table := fun s t =>
  if h : s.rules = t.rules then
    .isTrue (by cases s; cases t; simp_all)
  else
    .isFalse (fun e => h (e ▸ rfl))

@[ext] theorem ext {s t : Table} (h : s.rules = t.rules) : s = t := by
  cases s; cases t; simp_all

/-- The table without rules. -/
def empty : Table := ⟨[], by simp⟩

/-- Adds a rule; it takes the place of a rule with the same key. -/
def insert (t : Table) (r : Rule) : Table where
  rules := insertRule r t.rules
  distinct := by
    rw [map_key_insertRule]
    split
    · exact t.distinct
    · next h =>
      -- A new key at the end is none of the keys before it.
      rw [List.nodup_append]
      refine ⟨t.distinct, by simp, ?_⟩
      intro a ha b hb
      obtain rfl := List.mem_singleton.1 hb
      exact fun e => h (e ▸ ha)

/-- Adds rules one after the other. -/
def insertAll (t : Table) (rules : List Rule) : Table := rules.foldl insert t

/-- The table of the given rules, of which the last for each key counts. -/
def ofList (rules : List Rule) : Table := empty.insertAll rules

/-- The rule for a key. -/
def get? (t : Table) (k : Key) : Option Rule := findRule k t.rules

/-- The keys that have a rule, in order. -/
def keys (t : Table) : List Key := t.rules.map Rule.key

/-- Whether a key has a rule. -/
def contains (t : Table) (k : Key) : Bool := (t.get? k).isSome

/-- The number of rules. -/
def size (t : Table) : Nat := t.rules.length

@[simp] theorem get?_empty (k : Key) : empty.get? k = none := rfl

theorem keys_insert (t : Table) (r : Rule) :
    (t.insert r).keys = if r.key ∈ t.keys then t.keys else t.keys ++ [r.key] :=
  map_key_insertRule r t.rules

theorem get?_insert (t : Table) (r : Rule) (k : Key) :
    (t.insert r).get? k = if r.key = k then some r else t.get? k :=
  findRule_insertRule r k t.rules

end Table

/-! ## §3 Overwrites -/

/-- Whether replacing a rule is reported: written rules warn, rules of a composed library replace
what is there in silence. -/
inductive Policy where
  | warn
  | silent
  deriving DecidableEq, Repr

/-- A rule was replaced by a later one for the same state and value. -/
structure Overwrite where
  position : Span
  state : String
  value : Bool
  deriving DecidableEq, Repr

namespace Table

/-- The warning that inserting a rule gives rise to. -/
def overwrite? (t : Table) (r : Rule) (policy : Policy) (position : Option Span) :
    Option Overwrite :=
  if t.contains r.key && policy = .warn then
    some ⟨position.getD Span.origin, r.state, r.value⟩
  else none

/-- Inserts rules under one policy, without positions, and collects the warnings in order. -/
def merge (t : Table) (policy : Policy) : List Rule → Table × List Overwrite
  | [] => (t, [])
  | r :: rest =>
    let (t', warnings) := (t.insert r).merge policy rest
    (t', (t.overwrite? r policy none).toList ++ warnings)

/-- Merging changes the table as inserting does, whatever the policy. -/
theorem merge_fst (t : Table) (policy : Policy) (rules : List Rule) :
    (t.merge policy rules).1 = t.insertAll rules := by
  induction rules generalizing t with
  | nil => rfl
  | cons r rest ih => simpa [merge, insertAll] using ih (t.insert r)

end Table

end TapeMachine
