/-!
# Attempts One after the Other

When a computation that may fail is made of steps, it succeeds exactly if all of them do.

* `bind_eq_ok_iff`: an attempt and what follows it, and `map_eq_ok_iff` and `map_eq_error_iff`: an
  attempt and its use;
* `foldlM_cons_eq_ok_iff` and `foldlM_concat_eq_ok_iff`: attempts along a list, with the first or the
  last of them split off;
* `foldlM_eq_error_iff`: the fault of a list is that of the first attempt that fails;
* `foldlM_keeps`: what each of the changes along a list keeps, all of them keep;
* `forM_eq_ok_iff` and `forM_eq_error_iff`: attempts along a list that have no result;
* `mapM_eq_ok_iff` and `mapM_eq_error_iff`: those that have one each, and `exists_of_mem_mapM`: where
  their results come from.
-/

namespace TapeMachine

variable {ε α β : Type}

/-- An attempt followed by another succeeds if both do. -/
theorem bind_eq_ok_iff {x : Except ε α} {f : α → Except ε β} {b : β} :
    (x >>= f) = .ok b ↔ ∃ a, x = .ok a ∧ f a = .ok b := by
  cases x with
  | error fault => simp [bind, Except.bind]
  | ok a => simp [bind, Except.bind]

/-- What is made of an attempt succeeds if the attempt does. -/
theorem map_eq_ok_iff {x : Except ε α} {f : α → β} {b : β} :
    x.map f = .ok b ↔ ∃ a, x = .ok a ∧ f a = b := by
  cases x with
  | error fault => simp [Except.map]
  | ok a => simp [Except.map]

/-- It fails with the fault of the attempt. -/
theorem map_eq_error_iff {x : Except ε α} {f : α → β} {fault : ε} :
    x.map f = .error fault ↔ x = .error fault := by
  cases x with
  | error other => simp [Except.map]
  | ok a => simp [Except.map]

/-- Nothing comes in front of an attempt that has succeeded. -/
@[simp] theorem ok_bind (a : α) (f : α → Except ε β) : (Except.ok a >>= f) = f a := rfl

/-- A fault ends all that would follow. -/
@[simp] theorem error_bind (fault : ε) (f : α → Except ε β) :
    (Except.error fault >>= f) = .error fault := rfl

/-- What is got from an attempt shows that it has succeeded. -/
theorem eq_ok_of_toOption {x : Except ε α} {a : α} (hGot : x.toOption = some a) : x = .ok a := by
  cases x with
  | error fault => cases hGot
  | ok b => exact congrArg Except.ok (Option.some.inj hGot)

theorem foldlM_cons_eq_ok_iff {f : β → α → Except ε β} {b e : β} {a : α} {rest : List α} :
    (a :: rest).foldlM f b = .ok e ↔ ∃ d, f b a = .ok d ∧ rest.foldlM f d = .ok e := by
  rw [List.foldlM_cons, bind_eq_ok_iff]

theorem foldlM_concat_eq_ok_iff {f : β → α → Except ε β} {b e : β} {a : α} {front : List α} :
    (front ++ [a]).foldlM f b = .ok e ↔ ∃ d, front.foldlM f b = .ok d ∧ f d a = .ok e := by
  rw [List.foldlM_append, bind_eq_ok_iff]
  simp only [List.foldlM_cons, List.foldlM_nil, bind_pure]

/-- Attempts along a list fail with the first that fails; those after it are not made. -/
theorem foldlM_eq_error_iff {f : β → α → Except ε β} {b : β} {fault : ε} {l : List α} :
    l.foldlM f b = .error fault ↔
      ∃ front a back d, l = front ++ a :: back ∧ front.foldlM f b = .ok d ∧
        f d a = .error fault := by
  constructor
  · intro hFails
    induction l generalizing b with
    | nil => cases hFails
    | cons a rest ih =>
      rw [List.foldlM_cons] at hFails
      cases hFirst : f b a with
      | error first =>
        rw [hFirst] at hFails
        cases hFails
        exact ⟨[], a, rest, b, rfl, rfl, hFirst⟩
      | ok d =>
        rw [hFirst] at hFails
        obtain ⟨front, a', back, e, rfl, hFront, hStep⟩ := ih hFails
        exact ⟨a :: front, a', back, e, rfl, foldlM_cons_eq_ok_iff.2 ⟨d, hFirst, hFront⟩, hStep⟩
  · intro hGiven
    rcases hGiven with ⟨front, a, back, d, rfl, hFront, hStep⟩
    rw [List.foldlM_append, hFront, ok_bind, List.foldlM_cons, hStep, error_bind]

/-- **What each change keeps**, changes along a list keep, as far as they come about. -/
theorem foldlM_keeps {f : β → α → Option β} (property : β → Prop)
    (hStep : ∀ {b a d}, property b → f b a = some d → property d) {l : List α} {b e : β}
    (hStart : property b) (hAll : l.foldlM f b = some e) : property e := by
  induction l generalizing b with
  | nil => exact Option.some.inj hAll ▸ hStart
  | cons a rest ih =>
    rw [List.foldlM_cons] at hAll
    obtain ⟨d, hFirst, hRest⟩ := Option.bind_eq_some_iff.1 hAll
    exact ih (hStep hStart hFirst) hRest

theorem forM_eq_ok_iff {f : α → Except ε Unit} {l : List α} :
    l.forM f = .ok () ↔ ∀ a ∈ l, f a = .ok () := by
  induction l with
  | nil => exact ⟨by simp, fun _ => rfl⟩
  | cons a rest ih =>
    show (f a >>= fun _ => rest.forM f) = .ok () ↔ _
    rw [bind_eq_ok_iff, List.forall_mem_cons, ← ih]
    exact ⟨fun ⟨_, hBoth⟩ => hBoth, fun hBoth => ⟨(), hBoth⟩⟩

/-- Attempts along a list without results fail with the first that fails. -/
theorem forM_eq_error_iff {f : α → Except ε Unit} {l : List α} {fault : ε} :
    l.forM f = .error fault ↔
      ∃ front a back, l = front ++ a :: back ∧ (∀ b ∈ front, f b = .ok ()) ∧ f a = .error fault := by
  constructor
  · intro hFails
    induction l with
    | nil => cases hFails
    | cons a rest ih =>
      change (f a >>= fun _ => rest.forM f) = .error fault at hFails
      cases hFirst : f a with
      | error first =>
        rw [hFirst] at hFails
        cases hFails
        exact ⟨[], a, rest, rfl, by simp, hFirst⟩
      | ok b =>
        rw [hFirst, ok_bind] at hFails
        obtain ⟨front, a', back, rfl, hFront, hFault⟩ := ih hFails
        exact ⟨a :: front, a', back, rfl, List.forall_mem_cons.2 ⟨hFirst, hFront⟩, hFault⟩
  · intro hGiven
    rcases hGiven with ⟨front, a, back, rfl, hFront, hFault⟩
    induction front with
    | nil =>
      change (f a >>= fun _ => back.forM f) = .error fault
      rw [hFault, error_bind]
    | cons b front ih =>
      obtain ⟨hFirst, hRest⟩ := List.forall_mem_cons.1 hFront
      change (f b >>= fun _ => (front ++ a :: back).forM f) = .error fault
      rw [hFirst, ok_bind]
      exact ih hRest

/-- Attempts along a list succeed if each does, and then the results are theirs in order. -/
theorem mapM_eq_ok_iff {f : α → Except ε β} {l : List α} {results : List β} :
    l.mapM f = .ok results ↔
      (∀ a ∈ l, ∃ b, f a = .ok b) ∧ results = l.filterMap fun a => (f a).toOption := by
  induction l generalizing results with
  | nil => simp [pure, Except.pure, eq_comm]
  | cons a rest ih =>
    rw [List.mapM_cons, bind_eq_ok_iff, List.forall_mem_cons]
    constructor
    · intro hGiven
      obtain ⟨first, hFirst, hGiven⟩ := hGiven
      obtain ⟨others, hOthers, hGiven⟩ := bind_eq_ok_iff.1 hGiven
      obtain rfl := Except.ok.inj hGiven
      obtain ⟨hRest, rfl⟩ := ih.1 hOthers
      exact ⟨⟨⟨first, hFirst⟩, hRest⟩, by simp [hFirst, Except.toOption]⟩
    · intro hGiven
      rcases hGiven with ⟨⟨⟨first, hFirst⟩, hRest⟩, rfl⟩
      refine ⟨first, hFirst, bind_eq_ok_iff.2 ⟨_, ih.2 ⟨hRest, rfl⟩, ?_⟩⟩
      simp [hFirst, Except.toOption, pure, Except.pure]

/-- Attempts along a list fail with the first that fails. -/
theorem mapM_eq_error_iff {f : α → Except ε β} {l : List α} {fault : ε} :
    l.mapM f = .error fault ↔
      ∃ front a back, l = front ++ a :: back ∧ (∀ b ∈ front, ∃ c, f b = .ok c) ∧
        f a = .error fault := by
  constructor
  · intro hFails
    induction l with
    | nil => cases hFails
    | cons a rest ih =>
      rw [List.mapM_cons] at hFails
      cases hFirst : f a with
      | error first =>
        rw [hFirst] at hFails
        cases hFails
        exact ⟨[], a, rest, rfl, by simp, hFirst⟩
      | ok b =>
        rw [hFirst, ok_bind] at hFails
        cases hRest : rest.mapM f with
        | error later =>
          rw [hRest] at hFails
          cases hFails
          obtain ⟨front, a', back, rfl, hFront, hFault⟩ := ih hRest
          exact ⟨a :: front, a', back, rfl, List.forall_mem_cons.2 ⟨⟨b, hFirst⟩, hFront⟩, hFault⟩
        | ok results =>
          rw [hRest] at hFails
          cases hFails
  · intro hGiven
    rcases hGiven with ⟨front, a, back, rfl, hFront, hFault⟩
    rw [List.mapM_append, mapM_eq_ok_iff.2 ⟨hFront, rfl⟩, ok_bind, List.mapM_cons, hFault]
    rfl

/-- The results of attempts along a list come from its elements. -/
theorem exists_of_mem_mapM {f : α → Except ε β} {l : List α} {results : List β}
    (hAll : l.mapM f = .ok results) : ∀ b ∈ results, ∃ a ∈ l, f a = .ok b := by
  obtain ⟨-, rfl⟩ := mapM_eq_ok_iff.1 hAll
  intro b hb
  obtain ⟨a, ha, hResult⟩ := List.mem_filterMap.1 hb
  exact ⟨a, ha, eq_ok_of_toOption hResult⟩

end TapeMachine
