import TapeMachine.Proofs.Libraries.Contents

/-!
# Validation of Libraries

A library is valid if it has rules and declares the states that it begins in, ends in and uses.

* `Library.undeclaredStates_eq_nil_iff` and `Library.flaw?_eq_none_iff`: what the checks ask for;
* `Library.validate_of_provides`: a library is valid if its list of rules passes them;
* `Registry.validate_builtin`: the built-in libraries are valid.
-/

namespace TapeMachine

namespace Library

variable {l : Library}

/-! ## §1 Checks -/

theorem mem_undeclaredStates {r : Rule} {state : String} :
    state ∈ l.undeclaredStates r ↔ (state = r.state ∨ state = r.next) ∧ state ∉ l.usedStates := by
  -- Sorting loses none of the two states.
  have hStates : (state ∈ if r.state = r.next then [r.state] else sortTexts [r.state, r.next]) ↔
      state = r.state ∨ state = r.next := by
    split
    · next hSame => simp [← hSame]
    · simp [sortTexts, List.mem_mergeSort]
  rw [undeclaredStates, List.mem_filter, hStates]
  simp

/-- A rule has no undeclared states exactly if both of its states are declared. -/
theorem undeclaredStates_eq_nil_iff {r : Rule} :
    l.undeclaredStates r = [] ↔ r.state ∈ l.usedStates ∧ r.next ∈ l.usedStates := by
  rw [List.eq_nil_iff_forall_not_mem]
  simp only [mem_undeclaredStates, not_and_not_right]
  simp

/-- A library has no flaw exactly if there are rules, and all states are declared. -/
theorem flaw?_eq_none_iff {t : Table} :
    l.flaw? t = none ↔ t.rules ≠ [] ∧ l.initialState ∈ l.usedStates ∧
      l.finalState ∈ l.usedStates ∧ ∀ r ∈ t.rules, r.state ∈ l.usedStates ∧ r.next ∈ l.usedStates := by
  unfold flaw?
  split
  · next hNone => simp [List.isEmpty_iff.1 hNone]
  · next hSome =>
    rw [List.isEmpty_iff] at hSome
    split
    · next state hFind =>
      -- One of the two states is not declared.
      have hUndeclared := List.find?_some hFind
      have hMem := List.mem_of_find?_eq_some hFind
      simp only [List.mem_cons, List.not_mem_nil, or_false] at hMem
      rcases hMem with rfl | rfl
      · simp_all
      · simp_all
    · next hFind =>
      have hEnds : l.initialState ∈ l.usedStates ∧ l.finalState ∈ l.usedStates := by
        simpa using hFind
      rw [List.findSome?_eq_none_iff]
      constructor
      · intro hNone
        refine ⟨hSome, hEnds.1, hEnds.2, fun r hr => undeclaredStates_eq_nil_iff.1 ?_⟩
        have hRule := hNone r hr
        split at hRule
        · assumption
        · cases hRule
      · intro hGiven r hr
        rw [undeclaredStates_eq_nil_iff.2 (hGiven.2.2.2 r hr)]

/-! ## §2 The Built-In Libraries -/

/-- A library whose rules are those of a list is valid if the list passes the checks. -/
theorem validate_of_provides {rules : List Rule} (hProvides : l.Provides rules) (hSome : rules ≠ [])
    (hInitial : l.initialState ∈ l.usedStates) (hFinal : l.finalState ∈ l.usedStates)
    (hNext : ∀ r ∈ rules, r.next ∈ l.usedStates) : l.validate = .ok () := by
  have hTable : l.table = .ok (.ofList rules) := by
    rw [table, hProvides.rulesOf]
  have hFlaw : l.flaw? (.ofList rules) = none := by
    rw [flaw?_eq_none_iff, Table.rules_ofList hProvides.distinct]
    exact ⟨hSome, hInitial, hFinal, fun r hr => ⟨hProvides.used r hr, hNext r hr⟩⟩
  rw [validate, hTable, ok_bind, hFlaw]
  rfl

end Library

/-- **Validation**: the built-in libraries are valid. -/
theorem Registry.validate_builtin : Registry.builtin.validate = .ok () := by
  have hChecks : ∀ c ∈ Library.contents, c.2 ≠ [] ∧ c.1.initialState ∈ c.1.usedStates ∧
      c.1.finalState ∈ c.1.usedStates ∧ ∀ r ∈ c.2, r.next ∈ c.1.usedStates := by
    decide +kernel
  refine forM_eq_ok_iff.2 fun l hl => ?_
  obtain ⟨rules, hMem⟩ := Library.exists_mem_contents hl
  obtain ⟨hSome, hInitial, hFinal, hNext⟩ := hChecks (l, rules) hMem
  exact Library.validate_of_provides (Library.provides_of_mem_contents hMem) hSome hInitial hFinal hNext

end TapeMachine
