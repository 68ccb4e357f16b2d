import TapeMachine.Proofs.Tables

/-!
# Tables under Change

A table is changed by inserting rules, one at a time or a list of them, under policies that say which
overwrites are reported. This file says what any sequence of changes makes of a table, and which
warnings they return.

* `Table.change` and `Table.changes` are what one change and a sequence of changes do;
* `replacing` are the insertions that find their key taken;
* `Table.change_fst` and `Table.change_snd`: one change inserts its rules, and warns of the insertions
  that replace a rule and are to be reported;
* `Table.changes_fst`, `Table.changes_snd_getElem?` and `Table.size_insertAll`: the same for a
  sequence, and how many rules there are then;
* `Table.changes_keep_last_rules` puts these together.
-/

namespace TapeMachine

/-! ## §1 Changes -/

/-- One rule that is put into a table under a policy, with the place where it is written if there is
one. -/
structure Insertion where
  rule : Rule
  policy : Policy
  position : Option Span
  deriving DecidableEq, Repr

namespace Insertion

/-- What the rule is looked up by. -/
def key (i : Insertion) : Key := i.rule.key

/-- The warning for an insertion that replaces a rule, unless the policy is to be silent. Where no
place is known it is the first one of a text. -/
def warning? (i : Insertion) : Option Overwrite :=
  if i.policy = .warn then some ⟨i.position.getD (.point 1 1), i.rule.state, i.rule.value⟩ else none

end Insertion

/-- The insertions that replace a rule: their key is one of those that were taken at the start, or
that of an insertion before them. -/
def replacing (taken : List Key) : List Insertion → List Insertion
  | [] => []
  | i :: rest => (if taken.contains i.key then [i] else []) ++ replacing (i.key :: taken) rest

namespace Table

/-- What can be done to a table. -/
inductive Change where
  | insert (rule : Rule) (policy : Policy) (position : Option Span)
  /-- Inserting rules without positions, one after the other. -/
  | merge (rules : List Rule) (policy : Policy)
  deriving DecidableEq, Repr

/-- The insertions that a change comes to. -/
def Change.insertions : Change → List Insertion
  | .insert rule policy position => [⟨rule, policy, position⟩]
  | .merge rules policy => rules.map fun rule => ⟨rule, policy, none⟩

/-- The rules that a change inserts. -/
def Change.rules (c : Change) : List Rule := c.insertions.map Insertion.rule

/-- The table after a change, and the warnings that the change returns. -/
def change (t : Table) : Change → Table × List Overwrite
  | .insert rule policy position => (t.insert rule, (t.overwrite? rule policy position).toList)
  | .merge rules policy => t.merge policy rules

/-- The table after a sequence of changes, and the warnings that each of them returns. -/
def changes (t : Table) : List Change → Table × List (List Overwrite)
  | [] => (t, [])
  | c :: rest =>
    let (next, warnings) := t.change c
    let (last, later) := next.changes rest
    (last, warnings :: later)

/-! ## §2 One Insertion -/

/-- The first of some insertions replaces a rule if its key is taken, and takes it for the others. -/
theorem replacing_cons (taken : List Key) (i : Insertion) (rest : List Insertion) :
    replacing taken (i :: rest) =
      (if i.key ∈ taken then [i] else []) ++ replacing (i.key :: taken) rest := by
  simp only [replacing, List.contains_eq_mem, decide_eq_true_eq]

/-- Which insertions replace a rule depends only on what keys are taken. -/
theorem replacing_congr {taken others : List Key} (hSame : ∀ k, k ∈ taken ↔ k ∈ others)
    (insertions : List Insertion) : replacing taken insertions = replacing others insertions := by
  induction insertions generalizing taken others with
  | nil => rfl
  | cons i rest ih =>
    have hMore : ∀ k, k ∈ i.key :: taken ↔ k ∈ i.key :: others := by simp [hSame]
    simp only [replacing_cons, hSame, ih hMore]

/-- After an insertion its key is taken, and so are the keys that were. -/
theorem mem_keys_insert (t : Table) (r : Rule) (k : Key) :
    k ∈ (t.insert r).keys ↔ k ∈ r.key :: t.keys := by
  rw [keys_insert]
  by_cases hTaken : r.key ∈ t.keys
  · rw [if_pos hTaken, List.mem_cons]
    exact ⟨.inr, fun hMem => hMem.elim (fun hKey => hKey ▸ hTaken) id⟩
  · rw [if_neg hTaken]
    simp [or_comm]

/-- An insertion makes a table longer by one rule if it replaces none. -/
theorem size_insert (t : Table) (r : Rule) :
    (t.insert r).size + (if r.key ∈ t.keys then 1 else 0) = t.size + 1 := by
  have hSize (s : Table) : s.size = s.keys.length := by simp [size, keys]
  rw [hSize, hSize, keys_insert]
  by_cases hTaken : r.key ∈ t.keys <;> simp [hTaken]

/-- An insertion is warned of if it replaces a rule and is to be reported. -/
theorem toList_overwrite? (t : Table) (i : Insertion) :
    (t.overwrite? i.rule i.policy i.position).toList =
      (if i.key ∈ t.keys then [i] else []).filterMap Insertion.warning? := by
  have hTaken : t.contains i.rule.key = true ↔ i.key ∈ t.keys := t.contains_iff_mem_keys i.key
  unfold overwrite?
  simp only [Bool.and_eq_true, hTaken, decide_eq_true_eq]
  by_cases hKey : i.key ∈ t.keys
  · have hWarning : i.warning?.toList = [i].filterMap Insertion.warning? := by
      cases hWarns : i.warning? <;> simp [hWarns]
    rw [if_pos hKey, ← hWarning]
    simp only [hKey, true_and]
    rfl
  · simp [hKey]

/-! ## §3 Changes -/

/-- The warnings of a merge are those for the insertions that replace a rule. -/
theorem merge_snd (t : Table) (policy : Policy) (rules : List Rule) :
    (t.merge policy rules).2 =
      (replacing t.keys (Change.merge rules policy).insertions).filterMap Insertion.warning? := by
  induction rules generalizing t with
  | nil => rfl
  | cons r rest ih =>
    have hFirst := t.toList_overwrite? ⟨r, policy, none⟩
    have hRest := replacing_congr (t.mem_keys_insert r) (Change.merge rest policy).insertions
    have hSplit : (Change.merge (r :: rest) policy).insertions =
        ⟨r, policy, none⟩ :: (Change.merge rest policy).insertions := rfl
    have hMerge : (t.merge policy (r :: rest)).2 =
        (t.overwrite? r policy none).toList ++ ((t.insert r).merge policy rest).2 := rfl
    rw [hMerge, ih, hRest, hFirst, hSplit, replacing_cons, List.filterMap_append]
    rfl

variable (t : Table) (c : Change)

/-- **One change**: its rules are inserted, whatever the policy. -/
theorem change_fst : (t.change c).1 = t.insertAll c.rules := by
  cases c with
  | insert rule policy position => rfl
  | merge rules policy =>
    have hRules : (Change.merge rules policy).rules = rules := by
      simp [Change.rules, Change.insertions, Function.comp_def]
    rw [hRules]
    exact t.merge_fst policy rules

/-- **One change**: it warns of the insertions that replace a rule and are to be reported. -/
theorem change_snd :
    (t.change c).2 = (replacing t.keys c.insertions).filterMap Insertion.warning? := by
  cases c with
  | insert rule policy position =>
    have hOne : (Change.insert rule policy position).insertions = [⟨rule, policy, position⟩] := rfl
    rw [hOne, replacing_cons, replacing, List.append_nil]
    exact t.toList_overwrite? ⟨rule, policy, position⟩
  | merge rules policy => exact t.merge_snd policy rules

/-- After a change its keys are taken, and so are the keys that were. -/
theorem mem_keys_change (k : Key) :
    k ∈ (t.change c).1.keys ↔ k ∈ t.keys ++ c.insertions.map Insertion.key := by
  have hKeys : c.rules.map Rule.key = c.insertions.map Insertion.key := by
    simp [Change.rules, Insertion.key, Function.comp_def]
  rw [change_fst, keys_insertAll, List.mem_eraseDups, hKeys]

/-! ## §4 Sequences of Changes -/

/-- **Any changes**: their rules are inserted one after the other, whatever the policies. -/
theorem changes_fst (cs : List Change) :
    (t.changes cs).1 = t.insertAll (cs.flatMap Change.rules) := by
  induction cs generalizing t with
  | nil => rfl
  | cons c rest ih =>
    rw [changes, List.flatMap_cons, insertAll_append, ← change_fst]
    exact ih (t.change c).1

/-- **Any changes**: each of them warns of its insertions that replace a rule and are to be reported.
Taken are the keys of the table at the start, and those of the changes before. -/
theorem changes_snd_getElem? (cs : List Change) (n : Nat) :
    (t.changes cs).2[n]? = cs[n]?.map fun c =>
      (replacing (t.keys ++ ((cs.take n).flatMap Change.insertions).map Insertion.key)
        c.insertions).filterMap Insertion.warning? := by
  induction cs generalizing t n with
  | nil => simp [changes]
  | cons c rest ih =>
    cases n with
    | zero => simp [changes, change_snd]
    | succ n =>
      -- The keys that the first change has inserted are taken for all others.
      have hTaken : ∀ k,
          k ∈ (t.change c).1.keys ++ ((rest.take n).flatMap Change.insertions).map Insertion.key ↔
            k ∈ t.keys ++ (((c :: rest).take (n + 1)).flatMap Change.insertions).map Insertion.key := by
        intro k
        simp only [List.mem_append, mem_keys_change, List.take_succ_cons, List.flatMap_cons,
          List.map_append, or_assoc]
      simp only [changes, List.getElem?_cons_succ, ih, replacing_congr hTaken]

/-- **Length**: a table gets longer by one rule for each insertion that replaces none. -/
theorem size_insertAll (insertions : List Insertion) :
    (t.insertAll (insertions.map Insertion.rule)).size + (replacing t.keys insertions).length =
      t.size + insertions.length := by
  induction insertions generalizing t with
  | nil => rfl
  | cons i rest ih =>
    have hFirst := t.size_insert i.rule
    have hRest := ih (t.insert i.rule)
    rw [replacing_congr (t.mem_keys_insert i.rule)] at hRest
    have hSplit : t.insertAll ((i :: rest).map Insertion.rule) =
        (t.insert i.rule).insertAll (rest.map Insertion.rule) := rfl
    have hCount : (if i.key ∈ t.keys then [i] else []).length =
        if i.rule.key ∈ t.keys then 1 else 0 := by
      unfold Insertion.key
      split <;> rfl
    rw [hSplit, replacing_cons, List.length_append, hCount, List.length_cons]
    have hKey : replacing (i.key :: t.keys) rest = replacing (i.rule.key :: t.keys) rest := rfl
    rw [hKey]
    omega

/-- **Tables under change**: after any changes of any table, under each key stands the last rule that
was inserted for it, or else the one that stood there at the start. The keys come once each, in the
order in which they first came, and the rules are listed in their order. Each change has returned
one warning for each of its insertions that was to be reported and found its key taken, in order and
with its position, or with the first place of a text if it has none, as in a merge. The length has
grown by the number of insertions less those that found their key taken. Changes that insert the
same rules under other policies leave the same table. -/
theorem changes_keep_last_rules (cs : List Change) :
    let insertions := cs.flatMap Change.insertions
    let last := (t.changes cs).1
    (∀ k, last.get? k = (lastFor? k (insertions.map Insertion.rule)).or (t.get? k)) ∧
    last.keys = (t.keys ++ insertions.map Insertion.key).eraseDups ∧ last.keys.Nodup ∧
    last.rules.map some = last.keys.map last.get? ∧
    (∀ n, (t.changes cs).2[n]? = cs[n]?.map fun c =>
      (replacing (t.keys ++ ((cs.take n).flatMap Change.insertions).map Insertion.key)
        c.insertions).filterMap Insertion.warning?) ∧
    last.size + (replacing t.keys insertions).length = t.size + insertions.length ∧
    ∀ others : List Change, others.map Change.rules = cs.map Change.rules →
      (t.changes others).1 = last := by
  intro insertions last
  have hRules : cs.flatMap Change.rules = insertions.map Insertion.rule :=
    List.map_flatMap.symm
  have hLast : last = t.insertAll (insertions.map Insertion.rule) := by
    rw [← hRules]
    exact t.changes_fst cs
  refine ⟨fun k => ?under, ?keys, last.distinct, last.map_get?_keys.symm,
    t.changes_snd_getElem? cs, ?size, fun others hSame => ?policies⟩
  case under => rw [hLast, get?_insertAll]
  case keys =>
    rw [hLast, keys_insertAll, List.map_map]
    rfl
  case size =>
    rw [hLast]
    exact t.size_insertAll insertions
  case policies =>
    have hAll : others.flatMap Change.rules = cs.flatMap Change.rules := by
      rw [List.flatMap_def, List.flatMap_def, hSame]
    rw [changes_fst, hAll]
    exact (t.changes_fst cs).symm

/-- A rule that is written twice and merged once more: of four insertions three find their key taken,
and the last of those is silent. -/
theorem changes_keep_last_rules_of_policies :
    let first : Rule := ⟨"a", true, true, .right, "a"⟩
    let second : Rule := ⟨"a", true, false, .halt, "b"⟩
    let other : Rule := ⟨"b", false, true, .left, "a"⟩
    let cs : List Change :=
      [.insert second .warn (some (.point 4 1)), .merge [other, first] .warn, .insert other .silent none]
    let others : List Change :=
      [.insert second .silent none, .merge [other, first] .silent, .insert other .warn none]
    others.map Change.rules = cs.map Change.rules ∧
      ((ofList [first]).changes others).1 = ((ofList [first]).changes cs).1 ∧
      ((ofList [first]).changes cs).2[1]? = some [⟨.point 1 1, "a", true⟩] ∧
      ((ofList [first]).changes cs).1.size + 3 = 1 + 4 := by
  intro first second other cs others
  have hSame : others.map Change.rules = cs.map Change.rules := by decide
  obtain ⟨-, -, -, -, hWarnings, hSize, hPolicies⟩ := changes_keep_last_rules (ofList [first]) cs
  exact ⟨hSame, hPolicies others hSame, (hWarnings 1).trans (by decide), hSize⟩

end Table

end TapeMachine
