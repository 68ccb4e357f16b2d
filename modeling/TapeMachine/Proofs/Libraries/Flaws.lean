import Mathlib.Data.List.Sort
import TapeMachine.Proofs.Libraries.Codes

/-!
# Flaws of Libraries

When the libraries of a registry are checked, what is reported is the first flaw of the first library
that is not valid. The checks look at the table of a library, in which a rule that was replaced does
not count.

* `Library.HasTable` and `Library.Valid` say what is asked of a library, and `Library.Flawed` in which
  order its flaws are told, and in what words;
* `Library.table_eq_ok_iff_hasTable` and `Library.validate_eq_ok_iff`: the checks ask for this;
* `Library.Flawed.validate_eq_error` and `Library.exists_flawed`: a library that is not valid has a
  flaw that is told;
* `Registry.ofList_eq_ok`: libraries with distinct names can be registered;
* `Registry.validate_reports_first_flaw` puts these together.
-/

namespace TapeMachine

namespace Library

/-! ## §1 Valid Libraries -/

/-- The table of a library: its code is in the language, its movements are known, and under each key
stands the last rule for it, where the key first occurred. -/
def HasTable (l : Library) (t : Table) : Prop :=
  ∃ p, Program.ofSource l.code = .ok p ∧ p.MovementsKnown ∧
    t.keys = (p.rules.map Rule.key).eraseDups ∧ ∀ k, t.get? k = lastFor? k p.rules

/-- There are rules, and the library declares the states that it begins in, ends in and has in its
rules. -/
structure Declares (l : Library) (t : Table) : Prop where
  rules : t.rules ≠ []
  initial : l.initialState ∈ l.usedStates
  final : l.finalState ∈ l.usedStates
  states : ∀ r ∈ t.rules, r.state ∈ l.usedStates ∧ r.next ∈ l.usedStates

/-- A library has a table, and declares what it should. -/
def Valid (l : Library) : Prop := ∃ t, l.HasTable t ∧ l.Declares t

/-- The first flaw of a library, in words. -/
inductive Flawed (l : Library) : String → Prop
  /-- The code is not in the language. -/
  | rejected {fault : Fault} {c : Complaint}
      (rejects : Program.ofSource l.code = .error fault) (complains : fault.complaint? = some c) :
      Flawed l (c.message ++ " at " ++ c.position.text)
  /-- A movement is unknown. -/
  | movement {p : Program} {movement : Field} {here : Span}
      (reads : Program.ofSource l.code = .ok p) (first : p.FirstUnknown movement here) :
      Flawed l ("\"" ++ movement.text ++ "\" is an unknown movement at " ++ here.text)
  | noRules {t : Table} (table : l.HasTable t) (empty : t.rules = []) :
      Flawed l "no instructions"
  | initial {t : Table} (table : l.HasTable t) (nonempty : t.rules ≠ [])
      (undeclared : l.initialState ∉ l.usedStates) :
      Flawed l ("state '" ++ l.initialState ++ "' is not declared as used")
  | final {t : Table} (table : l.HasTable t) (nonempty : t.rules ≠ [])
      (initial : l.initialState ∈ l.usedStates) (undeclared : l.finalState ∉ l.usedStates) :
      Flawed l ("state '" ++ l.finalState ++ "' is not declared as used")
  /-- The first rule of the table with undeclared states, and these states in order, once each. -/
  | rule {t : Table} {front back : List Rule} {r : Rule} {states : List String}
      (table : l.HasTable t) (split : t.rules = front ++ r :: back)
      (initial : l.initialState ∈ l.usedStates) (final : l.finalState ∈ l.usedStates)
      (declared : ∀ q ∈ front, q.state ∈ l.usedStates ∧ q.next ∈ l.usedStates)
      (undeclared : states ≠ [])
      (listed : ∀ state, state ∈ states ↔
        (state = r.state ∨ state = r.next) ∧ state ∉ l.usedStates)
      (sorted : states.Pairwise (· < ·)) :
      Flawed l ("instruction " ++ r.text ++ " uses undeclared state(s) " ++
        ", ".intercalate states)

/-! ## §2 What the Checks Ask For -/

variable {l : Library} {t : Table} {reason : String}

/-- What is read off a code is the table of the library. -/
theorem table_eq_ok_iff_hasTable : l.table = .ok t ↔ l.HasTable t := by
  rw [table_eq_ok_iff, HasTable]
  constructor
  · intro hGiven
    rcases hGiven with ⟨rules, hRules, hTable⟩
    obtain ⟨p, hProgram, hKnown, rfl⟩ := rulesOf_eq_ok_iff.1 hRules
    exact ⟨p, hProgram, hKnown, Table.eq_ofList_iff.1 hTable⟩
  · intro hGiven
    rcases hGiven with ⟨p, hProgram, hKnown, hTable⟩
    exact ⟨p.rules, rulesOf_eq_ok_iff.2 ⟨p, hProgram, hKnown, rfl⟩, Table.eq_ofList_iff.2 hTable⟩

/-- With a table, the check of a library is that of the table. -/
theorem validate_of_hasTable (hTable : l.HasTable t) :
    l.validate = match l.flaw? t with
      | some flaw => .error (.library l.name flaw)
      | none => .ok () := by
  rw [validate, table_eq_ok_iff_hasTable.2 hTable, ok_bind]
  rfl

/-- **Valid libraries** are those that pass the check. -/
theorem validate_eq_ok_iff : l.validate = .ok () ↔ l.Valid := by
  constructor
  · intro hPasses
    obtain ⟨t, hRead, hChecked⟩ := bind_eq_ok_iff.1 hPasses
    refine ⟨t, table_eq_ok_iff_hasTable.1 hRead, ?_⟩
    cases hFlaw : l.flaw? t with
    | some flaw =>
      rw [hFlaw] at hChecked
      cases hChecked
    | none =>
      obtain ⟨hSome, hInitial, hFinal, hStates⟩ := flaw?_eq_none_iff.1 hFlaw
      exact ⟨hSome, hInitial, hFinal, hStates⟩
  · intro hValid
    rcases hValid with ⟨t, hTable, hSome, hInitial, hFinal, hStates⟩
    rw [validate_of_hasTable hTable, flaw?_eq_none_iff.2 ⟨hSome, hInitial, hFinal, hStates⟩]

/-! ## §3 What Is Told -/

/-- Undeclared states are listed in strict order. -/
theorem pairwise_undeclaredStates (r : Rule) : (l.undeclaredStates r).Pairwise (· < ·) := by
  apply List.Pairwise.filter
  split
  · exact List.pairwise_singleton _ _
  · next hDifferent => exact pairwise_sortTexts (by simpa using hDifferent)

/-- The undeclared states of a rule are known by what they are and that they are in order. -/
theorem undeclaredStates_eq {r : Rule} {states : List String}
    (hListed : ∀ state, state ∈ states ↔
      (state = r.state ∨ state = r.next) ∧ state ∉ l.usedStates)
    (hSorted : states.Pairwise (· < ·)) : l.undeclaredStates r = states :=
  (pairwise_undeclaredStates r).eq_of_mem_iff hSorted fun state =>
    mem_undeclaredStates.trans (hListed state).symm

/-- A rule with undeclared states is the flaw if the rules in front of it have none. -/
theorem flaw?_of_split {front back : List Rule} {r : Rule} (hSplit : t.rules = front ++ r :: back)
    (hInitial : l.initialState ∈ l.usedStates) (hFinal : l.finalState ∈ l.usedStates)
    (hFront : ∀ q ∈ front, l.undeclaredStates q = []) (hUndeclared : l.undeclaredStates r ≠ []) :
    l.flaw? t = some (.undeclaredIn r (l.undeclaredStates r)) := by
  have hEnds : [l.initialState, l.finalState].find? (fun state => !l.usedStates.contains state) =
      none := by
    simp [hInitial, hFinal]
  have hSome : t.rules.isEmpty = false := by simp [hSplit]
  rw [flaw?, hSome, hEnds, if_neg Bool.false_ne_true]
  refine List.findSome?_eq_some_iff.2 ⟨front, r, back, hSplit, ?_, fun q hq => ?_⟩
  · cases hStates : l.undeclaredStates r with
    | nil => exact absurd hStates hUndeclared
    | cons state states => rfl
  · rw [hFront q hq]

/-- **Told**: a library with a flaw does not pass the check, and this flaw is the reason. -/
theorem Flawed.validate_eq_error (hFlawed : l.Flawed reason) :
    ∃ flaw : LibraryFlaw, l.validate = .error (.library l.name flaw) ∧ flaw.reason = reason := by
  cases hFlawed with
  | @rejected fault c rejects complains =>
    have hTable := table_of_fault (rulesOf_eq_error_iff.2 (.inl rejects)) complains
    refine ⟨.code c.message c.position, ?_, rfl⟩
    rw [validate, hTable, error_bind]
  | @movement p movement here reads first =>
    let message := "\"" ++ movement.text ++ "\" is an unknown movement"
    have hTable : l.table = .error (.library l.name (.code message here)) :=
      table_of_fault (rulesOf_eq_error_iff.2 (.inr ⟨p, movement, here, reads, first, rfl⟩))
        (complaint?_unknownMovement here movement.text)
    refine ⟨.code message here, ?_, ?_⟩
    · rw [validate, hTable, error_bind]
    · have hJoin : "\" is an unknown movement at " = "\" is an unknown movement" ++ " at " := rfl
      show message ++ " at " ++ here.text = _
      rw [hJoin, ← String.append_assoc]
  | @noRules t table empty =>
    refine ⟨.noRules, ?_, rfl⟩
    rw [validate_of_hasTable table, flaw?, empty]
    rfl
  | @initial t table nonempty undeclared =>
    have hFlaw : l.flaw? t = some (.undeclared l.initialState) := by
      simp [flaw?, nonempty, undeclared]
    refine ⟨.undeclared l.initialState, ?_, rfl⟩
    rw [validate_of_hasTable table, hFlaw]
  | @final t table nonempty initial undeclared =>
    have hFlaw : l.flaw? t = some (.undeclared l.finalState) := by
      simp [flaw?, nonempty, initial, undeclared]
    refine ⟨.undeclared l.finalState, ?_, rfl⟩
    rw [validate_of_hasTable table, hFlaw]
  | @rule t front back r states table split initial final declared undeclared listed sorted =>
    obtain rfl : l.undeclaredStates r = states := undeclaredStates_eq listed sorted
    refine ⟨.undeclaredIn r (l.undeclaredStates r), ?_, rfl⟩
    have hFront : ∀ q ∈ front, l.undeclaredStates q = [] :=
      fun q hq => undeclaredStates_eq_nil_iff.2 (declared q hq)
    rw [validate_of_hasTable table, flaw?_of_split split initial final hFront undeclared]

/-- A library is told one flaw. -/
theorem Flawed.unique {other : String} (hFlawed : l.Flawed reason) (hOther : l.Flawed other) :
    other = reason := by
  obtain ⟨flaw, hFault, rfl⟩ := hFlawed.validate_eq_error
  obtain ⟨flaw', hFault', rfl⟩ := hOther.validate_eq_error
  rw [hFault] at hFault'
  cases hFault'
  rfl

/-- **Flawed**: a library that is not valid has a flaw. -/
theorem exists_flawed (hInvalid : ¬ l.Valid) : ∃ reason, l.Flawed reason := by
  cases hRules : rulesOf l.code with
  | error fault =>
    rcases rulesOf_eq_error_iff.1 hRules with hRejects | ⟨p, movement, here, hReads, hFirst, -⟩
    · obtain ⟨e, line, -, rfl⟩ := Program.readWords_of_ofSource_error hRejects
      exact ⟨_, .rejected hRejects (complaint?_language e _ line)⟩
    · exact ⟨_, .movement hReads hFirst⟩
  | ok rules =>
    obtain ⟨t, hTable⟩ : ∃ t, l.HasTable t :=
      ⟨_, table_eq_ok_iff_hasTable.1 (table_eq_ok_iff.2 ⟨rules, hRules, rfl⟩)⟩
    by_cases hEmpty : t.rules = []
    · exact ⟨_, .noRules hTable hEmpty⟩
    by_cases hInitial : l.initialState ∈ l.usedStates
    swap
    · exact ⟨_, .initial hTable hEmpty hInitial⟩
    by_cases hFinal : l.finalState ∈ l.usedStates
    swap
    · exact ⟨_, .final hTable hEmpty hInitial hFinal⟩
    -- What is left is a rule with undeclared states, and there is a first one.
    obtain ⟨r, hFind⟩ : ∃ r, t.rules.find? (fun r => l.undeclaredStates r ≠ []) = some r := by
      rw [← Option.isSome_iff_exists, List.find?_isSome]
      by_contra hNone
      refine hInvalid ⟨t, hTable, hEmpty, hInitial, hFinal, fun r hr => ?_⟩
      rw [← undeclaredStates_eq_nil_iff]
      by_contra hSome
      exact hNone ⟨r, hr, decide_eq_true hSome⟩
    obtain ⟨hUndeclared, front, back, hSplit, hFront⟩ := List.find?_eq_some_iff_append.1 hFind
    refine ⟨_, .rule hTable hSplit hInitial hFinal (fun q hq => ?_) (of_decide_eq_true hUndeclared)
      (fun state => mem_undeclaredStates) (pairwise_undeclaredStates r)⟩
    exact undeclaredStates_eq_nil_iff.1 (by simpa using hFront q hq)

end Library

/-! ## §4 Registries -/

/-- **Registered**: libraries with distinct names make a registry. -/
theorem Registry.ofList_eq_ok {libraries : List Library}
    (hDistinct : (libraries.map Library.name).Nodup) :
    Registry.ofList libraries = .ok ⟨libraries, hDistinct⟩ := by
  have hNone {seen : List String} (hFresh : ∀ l ∈ libraries, l.name ∉ seen) :
      repeatedName? seen libraries = none := by
    induction libraries generalizing seen with
    | nil => rfl
    | cons l rest ih =>
      rw [List.map_cons, List.nodup_cons] at hDistinct
      obtain ⟨hFirst, hRest⟩ := List.forall_mem_cons.1 hFresh
      rw [repeatedName?, if_neg (by simpa using hFirst)]
      refine ih hDistinct.2 fun k hk hSeen => ?_
      rcases List.mem_cons.1 hSeen with hSame | hOld
      · exact hDistinct.1 (hSame ▸ List.mem_map_of_mem hk)
      · exact hRest k hk hOld
  unfold ofList
  split
  · next name hRepeated =>
    rw [hNone fun l _ => List.not_mem_nil] at hRepeated
    cases hRepeated
  · rfl

/-- **The first flaw**: libraries with distinct names make a registry, and this is valid exactly if
each of them is. If not, there is a first one that is not valid; it has one flaw that comes first,
and this is what is reported, with its name. -/
theorem Registry.validate_reports_first_flaw {libraries : List Library}
    (hDistinct : (libraries.map Library.name).Nodup) :
    ∃ registry, Registry.ofList libraries = .ok registry ∧ registry.libraries = libraries ∧
      (registry.validate = .ok () ↔ ∀ l ∈ libraries, l.Valid) ∧
      ((∃ l ∈ libraries, ¬ l.Valid) → ∃ front l back reason fault,
        libraries = front ++ l :: back ∧ (∀ k ∈ front, k.Valid) ∧ ¬ l.Valid ∧
        l.Flawed reason ∧ (∀ other, l.Flawed other → other = reason) ∧
        registry.validate = .error fault ∧
        fault.complaint? = some (libraryComplaint l.name reason)) := by
  have hPasses : libraries.forM Library.validate = .ok () ↔ ∀ l ∈ libraries, l.Valid :=
    forM_eq_ok_iff.trans (forall₂_congr fun l _ => Library.validate_eq_ok_iff)
  refine ⟨⟨libraries, hDistinct⟩, Registry.ofList_eq_ok hDistinct, rfl, hPasses, fun hSome => ?_⟩
  cases hCheck : libraries.forM Library.validate with
  | ok done =>
    obtain ⟨l, hl, hInvalid⟩ := hSome
    exact absurd (hPasses.1 hCheck l hl) hInvalid
  | error fault =>
    -- The libraries in front passed, and the next one did not.
    obtain ⟨front, l, back, hSplit, hFront, hFault⟩ := forM_eq_error_iff.1 hCheck
    have hInvalid : ¬ l.Valid := by
      intro hValid
      rw [Library.validate_eq_ok_iff.2 hValid] at hFault
      cases hFault
    obtain ⟨reason, hFlawed⟩ := Library.exists_flawed hInvalid
    obtain ⟨flaw, hTold, rfl⟩ := hFlawed.validate_eq_error
    obtain rfl : fault = .library l.name flaw := Except.error.inj (hFault.symm.trans hTold)
    exact ⟨front, l, back, flaw.reason, _, hSplit,
      fun k hk => Library.validate_eq_ok_iff.1 (hFront k hk), hInvalid, hFlawed,
      fun other hOther => hFlawed.unique hOther, hCheck, complaint?_library l.name flaw⟩

set_option maxRecDepth 100000 in
/-- Behind a valid library, one with an undeclared state in a rule that is replaced, and two in a rule
that is not. -/
theorem Registry.validate_reports_first_flaw_of_replaced_rule :
    let first : Library := ⟨"first", "", "a", "b", ["a", "b"], "(a,1,0,R,b);"⟩
    let second : Library :=
      ⟨"second", "", "a", "a", ["a"], "(a,1,0,R,z);(c,0,1,H,b);(a,1,0,R,a);"⟩
    ∃ registry fault, Registry.ofList [first, second] = .ok registry ∧ ¬ second.Valid ∧
      registry.validate = .error fault ∧ fault.complaint? = some (libraryComplaint "second"
        "instruction (c, 0, 1, H, b) uses undeclared state(s) b, c") := by
  intro first second
  have hFirst : first.Valid := by
    have hTable : first.table = .ok (.ofList [⟨"a", true, false, .right, "b"⟩]) := by
      unfold first
      rfl
    exact ⟨_, Library.table_eq_ok_iff_hasTable.1 hTable, by decide, by decide, by decide, by decide⟩
  have hSecond : second.Flawed "instruction (c, 0, 1, H, b) uses undeclared state(s) b, c" := by
    let rules : List Rule := [⟨"a", true, false, .right, "a"⟩, ⟨"c", false, true, .halt, "b"⟩]
    have hTable : second.table = .ok ⟨rules, by decide⟩ := by
      unfold second
      rfl
    have hSplit : rules = [⟨"a", true, false, .right, "a"⟩] ++ ⟨"c", false, true, .halt, "b"⟩ :: [] :=
      rfl
    have hListed : ∀ state, state ∈ ["b", "c"] ↔
        (state = "c" ∨ state = "b") ∧ state ∉ second.usedStates := by
      intro state
      simp only [List.mem_cons, List.not_mem_nil, or_false, second]
      constructor
      · rintro (rfl | rfl) <;> decide
      · exact fun hGiven => hGiven.1.symm
    exact .rule (Library.table_eq_ok_iff_hasTable.1 hTable) hSplit (by decide) (by decide)
      (by decide) (by decide) hListed (by decide)
  have hInvalid : ¬ second.Valid := by
    intro hValid
    obtain ⟨flaw, hTold, -⟩ := hSecond.validate_eq_error
    rw [Library.validate_eq_ok_iff.2 hValid] at hTold
    cases hTold
  have hDistinct : ([first, second].map Library.name).Nodup := by decide
  obtain ⟨registry, hRegistry, -, -, hReports⟩ := Registry.validate_reports_first_flaw hDistinct
  obtain ⟨front, l, back, reason, fault, hSplit, -, hFlaw, -, hUnique, hFault, hComplaint⟩ :=
    hReports ⟨second, by simp, hInvalid⟩
  -- The library that is reported is the second one, because the first is valid.
  obtain rfl : second = l := by
    have hMem : l ∈ [first, second] := by simp [hSplit]
    simp only [List.mem_cons, List.not_mem_nil, or_false] at hMem
    rcases hMem with rfl | rfl
    · exact absurd hFirst hFlaw
    · rfl
  obtain rfl := hUnique _ hSecond
  exact ⟨registry, fault, hRegistry, hInvalid, hFault, hComplaint⟩

end TapeMachine
