import Mathlib.Data.List.Induction
import TapeMachine.Table

/-!
# What a Table Holds after Insertions

A table is determined by the rules that were inserted one after the other: for each key it holds
the last of them, and its keys stand in the order in which they first occurred.

* `lastFor?` is the last rule for a key in a list of rules;
* `lastFor?_eq_some`: a rule that no other has the key of is the last one for it;
* `Table.get?_insertAll`: the last rule inserted for a key is found under it;
* `Table.keys_ofList`: the keys in order of first occurrence;
* `Table.eq_ofList_iff`: no other table has these keys and these rules.
-/

namespace TapeMachine

/-- Without repetitions, an element at the end adds nothing if it has occurred, and else comes
last. -/
theorem eraseDups_concat {α : Type} [BEq α] [LawfulBEq α] [DecidableEq α] (l : List α) (a : α) :
    (l ++ [a]).eraseDups = if a ∈ l then l.eraseDups else l.eraseDups ++ [a] := by
  rw [List.eraseDups_append]
  by_cases hSeen : a ∈ l
  · have hOld : [a].removeAll l = [] := List.filter_eq_nil_iff.2 (by simpa using hSeen)
    rw [if_pos hSeen, hOld, List.eraseDups_nil, List.append_nil]
  · have hNew : [a].removeAll l = [a] := List.filter_eq_self.2 (by simpa using hSeen)
    rw [if_neg hSeen, hNew]
    rfl

/-- Where nothing is repeated, nothing is left out. -/
theorem eraseDups_of_nodup {α : Type} [BEq α] [LawfulBEq α] [DecidableEq α] {l : List α}
    (hDistinct : l.Nodup) : l.eraseDups = l := by
  induction l using List.reverseRecOn with
  | nil => rfl
  | append_singleton l a ih =>
    obtain ⟨hFront, -, hLast⟩ := List.nodup_append.1 hDistinct
    have hNew : a ∉ l := fun hMem => hLast a hMem a (List.mem_singleton_self a) rfl
    rw [eraseDups_concat, if_neg hNew, ih hFront]

/-- The last rule for a key in a list of rules. -/
def lastFor? (k : Key) (rules : List Rule) : Option Rule :=
  (rules.filter fun r => r.key = k).getLast?

/-- Rules in front count only where none for the key follows. -/
theorem lastFor?_append (k : Key) (rules more : List Rule) :
    lastFor? k (rules ++ more) = (lastFor? k more).or (lastFor? k rules) := by
  simp [lastFor?]

theorem lastFor?_singleton (k : Key) (r : Rule) :
    lastFor? k [r] = if r.key = k then some r else none := by
  by_cases hKey : r.key = k <;> simp [lastFor?, hKey]

/-- A rule of a list that shares its key with no other is the last one for its key. -/
theorem lastFor?_eq_some {r : Rule} {rules : List Rule} (hMem : r ∈ rules)
    (hOnly : ∀ q ∈ rules, q.key = r.key → q = r) : lastFor? r.key rules = some r := by
  have hFound : r ∈ rules.filter fun q => q.key = r.key := List.mem_filter.2 ⟨hMem, by simp⟩
  unfold lastFor?
  rw [List.getLast?_eq_some_getLast (List.ne_nil_of_mem hFound), Option.some.injEq]
  obtain ⟨hLast, hKey⟩ := List.mem_filter.1 (List.getLast_mem (List.ne_nil_of_mem hFound))
  exact hOnly _ hLast (of_decide_eq_true hKey)

namespace Table

theorem insertAll_append (t : Table) (rules more : List Rule) :
    t.insertAll (rules ++ more) = (t.insertAll rules).insertAll more :=
  List.foldl_append

theorem ofList_append (rules more : List Rule) :
    ofList (rules ++ more) = (ofList rules).insertAll more :=
  insertAll_append empty rules more

theorem ofList_concat (rules : List Rule) (r : Rule) :
    ofList (rules ++ [r]) = (ofList rules).insert r :=
  ofList_append rules [r]

/-- Under a key stands the last rule inserted for it, or else the one that stood there before. -/
theorem get?_insertAll (t : Table) (rules : List Rule) (k : Key) :
    (t.insertAll rules).get? k = (lastFor? k rules).or (t.get? k) := by
  induction rules generalizing t with
  | nil => rfl
  | cons r rest ih =>
    change ((t.insert r).insertAll rest).get? k = (lastFor? k ([r] ++ rest)).or (t.get? k)
    rw [ih, get?_insert, lastFor?_append, lastFor?_singleton, Option.or_assoc]
    by_cases hKey : r.key = k
    · rw [if_pos hKey, if_pos hKey, Option.some_or]
    · rw [if_neg hKey, if_neg hKey, Option.none_or]

/-- The table of a list of rules holds the last one for each key. -/
theorem get?_ofList (rules : List Rule) (k : Key) :
    (ofList rules).get? k = lastFor? k rules := by
  unfold ofList
  rw [get?_insertAll, get?_empty, Option.or_none]

/-- Behind the keys of a table come those of the inserted rules, in the order in which they first
occurred. -/
theorem keys_insertAll (t : Table) (rules : List Rule) :
    (t.insertAll rules).keys = (t.keys ++ rules.map Rule.key).eraseDups := by
  induction rules using List.reverseRecOn with
  | nil =>
    rw [List.map_nil, List.append_nil, eraseDups_of_nodup (l := t.keys) t.distinct]
    rfl
  | append_singleton rules r ih =>
    have hLast : t.insertAll (rules ++ [r]) = (t.insertAll rules).insert r :=
      insertAll_append t rules [r]
    rw [hLast, keys_insert, ih, List.map_append, List.map_singleton, ← List.append_assoc,
      eraseDups_concat]
    simp only [List.mem_eraseDups]

/-- The keys of a list of rules stand in the order in which they first occurred. -/
theorem keys_ofList (rules : List Rule) :
    (ofList rules).keys = (rules.map Rule.key).eraseDups :=
  keys_insertAll empty rules

/-- What stands under a key is one of the rules. -/
theorem mem_of_get? {t : Table} {k : Key} {r : Rule} (hFound : t.get? k = some r) : r ∈ t.rules := by
  have hFind {rules : List Rule} (hFound : findRule k rules = some r) : r ∈ rules := by
    induction rules with
    | nil => cases hFound
    | cons q rest ih =>
      rw [findRule] at hFound
      split at hFound
      · cases hFound
        exact List.mem_cons_self
      · exact List.mem_cons_of_mem q (ih hFound)
  exact hFind hFound

/-- The rules of a table are those that stand under its keys. -/
theorem map_get?_keys (t : Table) : t.keys.map t.get? = t.rules.map some := by
  have hFind {rules : List Rule} (hDistinct : (rules.map Rule.key).Nodup) :
      ∀ r ∈ rules, findRule r.key rules = some r := by
    induction rules with
    | nil => simp
    | cons q rest ih =>
      rw [List.map_cons, List.nodup_cons] at hDistinct
      intro r hr
      rcases List.mem_cons.1 hr with rfl | hRest
      · exact if_pos rfl
      · have hOther : q.key ≠ r.key := fun e => hDistinct.1 (e ▸ List.mem_map_of_mem hRest)
        rw [findRule, if_neg hOther]
        exact ih hDistinct.2 r hRest
  rw [keys, List.map_map]
  exact List.map_congr_left (hFind t.distinct)

/-- A table is known by its keys in order and by what stands under each. -/
theorem eq_of_get? {s t : Table} (hKeys : s.keys = t.keys) (hGet : ∀ k, s.get? k = t.get? k) :
    s = t := by
  have hRules : s.rules.map some = t.rules.map some := by
    rw [← map_get?_keys, ← map_get?_keys, hKeys, funext hGet]
  exact Table.ext ((List.map_inj_right fun _ _ => Option.some.inj).1 hRules)

/-- The table of a list of rules has the keys in order of first occurrence, and the last rule for
each of them. -/
theorem eq_ofList_iff {t : Table} {rules : List Rule} :
    t = ofList rules ↔
      t.keys = (rules.map Rule.key).eraseDups ∧ ∀ k, t.get? k = lastFor? k rules := by
  constructor
  · rintro rfl
    exact ⟨keys_ofList rules, get?_ofList rules⟩
  · intro hGiven
    rcases hGiven with ⟨hKeys, hGet⟩
    exact eq_of_get? (hKeys.trans (keys_ofList rules).symm)
      fun k => (hGet k).trans (get?_ofList rules k).symm

/-- The table of rules with different keys is the list of them. -/
theorem rules_ofList {rules : List Rule} (hDistinct : (rules.map Rule.key).Nodup) :
    (ofList rules).rules = rules := by
  -- A rule with a new key goes to the end.
  have hNew : ∀ {front : List Rule} {r : Rule}, r.key ∉ front.map Rule.key →
      insertRule r front = front ++ [r] := by
    intro front r hFresh
    induction front with
    | nil => rfl
    | cons q front ih =>
      rw [List.map_cons, List.mem_cons, not_or] at hFresh
      rw [insertRule, if_neg (Ne.symm hFresh.1), ih hFresh.2, List.cons_append]
  induction rules using List.reverseRecOn with
  | nil => rfl
  | append_singleton rules r ih =>
    rw [List.map_append, List.nodup_append] at hDistinct
    obtain ⟨hFront, -, hLast⟩ := hDistinct
    rw [ofList_concat]
    show insertRule r (ofList rules).rules = rules ++ [r]
    rw [ih hFront, hNew]
    exact fun hMem => hLast _ hMem r.key (by simp) rfl

/-- The rules of a table are among those that were inserted. -/
theorem mem_of_mem_ofList {rules : List Rule} {r : Rule} (hMem : r ∈ (ofList rules).rules) :
    r ∈ rules := by
  have hInsert : ∀ {q : Rule} {front : List Rule}, r ∈ insertRule q front → r = q ∨ r ∈ front := by
    intro q front hMem
    induction front with
    | nil => exact .inl (List.mem_singleton.1 hMem)
    | cons p front ih =>
      rw [insertRule] at hMem
      split at hMem
      · exact (List.mem_cons.1 hMem).imp_right (List.mem_cons_of_mem p)
      · rcases List.mem_cons.1 hMem with rfl | hRest
        · exact .inr List.mem_cons_self
        · exact (ih hRest).imp_right (List.mem_cons_of_mem p)
  induction rules using List.reverseRecOn with
  | nil => exact hMem
  | append_singleton rules q ih =>
    rw [ofList_concat] at hMem
    rcases hInsert hMem with rfl | hOld
    · exact List.mem_append_right _ (List.mem_singleton_self r)
    · exact List.mem_append_left _ (ih hOld)

/-- A key has a rule exactly if it is one of the keys. -/
theorem contains_iff_mem_keys (t : Table) (k : Key) : t.contains k = true ↔ k ∈ t.keys := by
  have hFind (rules : List Rule) : (findRule k rules).isSome = true ↔ k ∈ rules.map Rule.key := by
    induction rules with
    | nil => simp [findRule]
    | cons q rest ih =>
      by_cases hKey : q.key = k
      · simp [findRule, hKey]
      · have hOther : k ≠ q.key := fun e => hKey e.symm
        simp [findRule, hKey, hOther, ih]
  exact hFind t.rules

/-- The table of a list of rules has a rule for exactly the keys that occur. -/
theorem contains_ofList (rules : List Rule) (k : Key) :
    (ofList rules).contains k = true ↔ k ∈ rules.map Rule.key := by
  rw [contains_iff_mem_keys, keys_ofList, List.mem_eraseDups]

end Table

end TapeMachine
