import Mathlib.Algebra.GroupWithZero.Nat
import Mathlib.Algebra.Order.BigOperators.Group.Finset
import TapeMachine.Proofs.Tables
import TapeMachine.Visits

/-!
# Visit Counts of a List of Entries

Visit counts stand for the list of states that were entered: which of them, in which order for the
first time, and how often.

* `Visits.enterAll` counts the entries of a list;
* `Visits.counts_enterAll`: from nothing, every state has its number of entries, in the order in
  which they first occur;
* `sum_count_eraseDups` and `Visits.exceeds_enterAll_iff`: what the counts sum up to, and when one of
  them exceeds a threshold;
* `Visits.busiest?_enterAll`: the busiest state is the one that no other exceeds, and of those
  that tie the one entered first;
* `exists_count_gt`: more entries than a number for each state exceed that number for one of them.
-/

namespace TapeMachine

/-! ## §1 More Entries than Room -/

/-- If entries of the states of a set are more than so many for each, some state has more than so
many. -/
theorem exists_count_gt {entries : List String} {states : Finset String} {most : Nat}
    (hStates : ∀ s ∈ entries, s ∈ states) (hMany : most * states.card < entries.length) :
    ∃ s ∈ entries, most < entries.count s := by
  by_contra hNone
  push Not at hNone
  have hAll : ∀ s ∈ states, entries.count s ≤ most := by
    intro s _
    by_cases hMem : s ∈ entries
    · exact hNone s hMem
    · rw [List.count_eq_zero_of_not_mem hMem]
      exact Nat.zero_le most
  have hTotal : ∑ s ∈ states, (entries : Multiset String).count s = entries.length :=
    Multiset.sum_count_eq_card hStates
  simp only [Multiset.coe_count] at hTotal
  have hBound : ∑ s ∈ states, entries.count s ≤ states.card * most :=
    Finset.sum_le_card_nsmul states _ most hAll
  rw [hTotal, Nat.mul_comm] at hBound
  omega

/-! ## §2 Counting Entries -/

namespace Visits

/-- Counts one entry after the other. -/
def enterAll (v : Visits) (entries : List String) : Visits := entries.foldl enter v

theorem enterAll_append (v : Visits) (entries more : List String) :
    v.enterAll (entries ++ more) = (v.enterAll entries).enterAll more :=
  List.foldl_append

/-- Entries add to the counts that there are. -/
theorem count_enterAll (v : Visits) (entries : List String) (s : String) :
    (v.enterAll entries).count s = v.count s + entries.count s := by
  induction entries generalizing v with
  | nil => rfl
  | cons first rest ih =>
    change ((v.enter first).enterAll rest).count s = _
    rw [ih, count_enter, List.count_cons, Nat.add_assoc, Nat.add_comm (rest.count s)]
    simp only [beq_iff_eq]

/-- One more entry of a state, where every state of a list is listed with a number. -/
private theorem bump_map (f : String → Nat) (s : String) {states : List String}
    (hDistinct : states.Nodup) :
    bump s (states.map fun t => (t, f t)) =
      (states.map fun t => (t, if t = s then f t + 1 else f t)) ++
        if s ∈ states then [] else [(s, 1)] := by
  induction states with
  | nil => rfl
  | cons first rest ih =>
    obtain ⟨hFirst, hRest⟩ := List.nodup_cons.1 hDistinct
    rw [List.map_cons, List.map_cons, bump]
    by_cases hSame : first = s
    · subst hSame
      -- No other state of the list is this one.
      have hOthers : (rest.map fun t => (t, if t = first then f t + 1 else f t)) =
          rest.map fun t => (t, f t) := by
        refine List.map_congr_left fun t ht => ?_
        rw [if_neg (ne_of_mem_of_not_mem ht hFirst)]
      rw [if_pos rfl, if_pos rfl, if_pos List.mem_cons_self, hOthers, List.append_nil]
    · have hMem : s ∈ first :: rest ↔ s ∈ rest := by
        rw [List.mem_cons, or_iff_right (Ne.symm hSame)]
      rw [if_neg hSame, if_neg hSame, ih hRest, List.cons_append]
      simp only [hMem]

end Visits

/-- States without repetitions stand in the order of their first entries. -/
theorem pairwise_idxOf_eraseDups (entries : List String) :
    entries.eraseDups.Pairwise fun s t => entries.idxOf s < entries.idxOf t := by
  induction entries using List.reverseRecOn with
  | nil => simp
  | append_singleton entries last ih =>
    -- States that have occurred keep their first entry.
    have hKept : ∀ s ∈ entries, (entries ++ [last]).idxOf s = entries.idxOf s := by
      intro s hs
      rw [List.idxOf_append, if_pos hs]
    have hOld : entries.eraseDups.Pairwise fun s t =>
        (entries ++ [last]).idxOf s < (entries ++ [last]).idxOf t := by
      refine ih.imp_of_mem fun {s t} hs ht hLt => ?_
      rw [hKept s (List.mem_eraseDups.1 hs), hKept t (List.mem_eraseDups.1 ht)]
      exact hLt
    rw [eraseDups_concat]
    split
    · exact hOld
    · next hNew =>
      refine List.pairwise_append.2 ⟨hOld, List.pairwise_singleton _ _, ?_⟩
      intro s hs t ht
      obtain rfl := List.mem_singleton.1 ht
      have hs := List.mem_eraseDups.1 hs
      rw [hKept s hs, List.idxOf_append, if_neg hNew]
      have hBefore := List.idxOf_lt_length_iff.2 hs
      omega

theorem nodup_eraseDups (entries : List String) : entries.eraseDups.Nodup := by
  refine (pairwise_idxOf_eraseDups entries).imp ?_
  rintro s t hLt rfl
  exact Nat.lt_irrefl _ hLt

/-- Every entry counts for one of the states. -/
theorem sum_count_eraseDups (entries : List String) :
    (entries.eraseDups.map fun s => entries.count s).sum = entries.length := by
  have hSame : entries.eraseDups.Perm entries.dedup := by
    refine (List.perm_ext_iff_of_nodup (nodup_eraseDups entries) (List.nodup_dedup entries)).2 ?_
    intro s
    rw [List.mem_eraseDups, List.mem_dedup]
  rw [(hSame.map _).sum_eq]
  exact List.sum_map_count_dedup_eq_length entries

namespace Visits

/-- **Counts**: from nothing, every state that is entered has its number of entries, in the order
of the first entries. -/
theorem counts_enterAll (entries : List String) :
    (empty.enterAll entries).counts = entries.eraseDups.map fun s => (s, entries.count s) := by
  induction entries using List.reverseRecOn with
  | nil => rfl
  | append_singleton entries last ih =>
    rw [enterAll_append]
    change bump last (empty.enterAll entries).counts = _
    rw [ih, bump_map _ _ (nodup_eraseDups entries), eraseDups_concat]
    have hCount : ∀ s, (if s = last then entries.count s + 1 else entries.count s) =
        (entries ++ [last]).count s := by
      intro s
      by_cases hLast : s = last
      · simp [hLast]
      · simp [hLast, Ne.symm hLast]
    simp only [hCount, List.mem_eraseDups]
    split
    · rw [List.append_nil]
    · next hNew =>
      rw [List.map_append, List.map_singleton, List.count_append,
        List.count_eq_zero_of_not_mem hNew]
      simp

/-- Some count exceeds a threshold that is not negative exactly if some state has more entries. -/
theorem exceeds_enterAll_iff {entries : List String} {threshold : Int} (hThreshold : 0 ≤ threshold) :
    (empty.enterAll entries).exceeds threshold = true ↔ ∃ s, threshold < entries.count s := by
  rw [exceeds, counts_enterAll, List.any_eq_true]
  constructor
  · rintro ⟨e, hListed, hMany⟩
    obtain ⟨s, -, rfl⟩ := List.mem_map.1 hListed
    exact ⟨s, of_decide_eq_true hMany⟩
  · rintro ⟨s, hMany⟩
    -- A state with more entries than none is listed.
    have hEntered : s ∈ entries := List.count_pos_iff.1 (by omega)
    exact ⟨_, List.mem_map_of_mem (List.mem_eraseDups.2 hEntered), decide_eq_true hMany⟩

/-! ## §3 The Busiest State -/

/-- The entry that is found is listed, behind smaller ones and in front of none that is greater. -/
private theorem busiestFrom_spec (best : String × Nat) (counts : List (String × Nat)) :
    ∃ front back, best :: counts = front ++ busiestFrom best counts :: back ∧
      (∀ e ∈ front, e.2 < (busiestFrom best counts).2) ∧
      ∀ e ∈ back, e.2 ≤ (busiestFrom best counts).2 := by
  induction counts generalizing best with
  | nil => exact ⟨[], [], rfl, by simp, by simp⟩
  | cons e rest ih =>
    rw [busiestFrom]
    split
    · next hLess =>
      -- The next entry is greater, and the best so far is left behind.
      obtain ⟨front, back, hSplit, hFront, hBack⟩ := ih e
      generalize busiestFrom e rest = found at *
      refine ⟨best :: front, back, by rw [hSplit]; rfl, ?_, hBack⟩
      have hNext : e.2 ≤ found.2 := by
        cases front with
        | nil => exact le_of_eq (congrArg Prod.snd (List.cons.inj hSplit).1)
        | cons first front =>
          rw [(List.cons.inj hSplit).1]
          exact Nat.le_of_lt (hFront first List.mem_cons_self)
      intro d hd
      rcases List.mem_cons.1 hd with rfl | hd
      · exact Nat.lt_of_lt_of_le hLess hNext
      · exact hFront d hd
    · next hLess =>
      obtain ⟨front, back, hSplit, hFront, hBack⟩ := ih best
      generalize busiestFrom best rest = found at *
      cases front with
      | nil =>
        -- The best so far stays the best, and the entry goes behind it.
        obtain ⟨hBest, hRest⟩ := List.cons.inj hSplit
        refine ⟨[], e :: back, by rw [← hBest, hRest]; rfl, by simp, ?_⟩
        intro d hd
        rcases List.mem_cons.1 hd with rfl | hd
        · rw [← hBest]
          omega
        · exact hBack d hd
      | cons first front =>
        -- A later entry is greater than the best so far, and so than this one.
        obtain ⟨rfl, hRest⟩ := List.cons.inj hSplit
        have hBest := hFront best List.mem_cons_self
        refine ⟨best :: e :: front, back, by rw [hRest]; rfl, ?_, hBack⟩
        intro d hd
        rcases List.mem_cons.1 hd with rfl | hd
        · exact hBest
        rcases List.mem_cons.1 hd with rfl | hd
        · omega
        · exact hFront d (List.mem_cons_of_mem _ hd)

theorem busiest?_eq_some {v : Visits} {e : String × Nat} (hBusiest : v.busiest? = some e) :
    ∃ front back, v.counts = front ++ e :: back ∧ (∀ d ∈ front, d.2 < e.2) ∧
      ∀ d ∈ back, d.2 ≤ e.2 := by
  unfold busiest? at hBusiest
  split at hBusiest
  · cases hBusiest
  · next first rest hCounts =>
    obtain rfl := Option.some.inj hBusiest
    rw [hCounts]
    exact busiestFrom_spec first rest

/-- A state that no other exceeds in entries, and that was entered before all with as many. -/
structure Busiest (entries : List String) (s : String) : Prop where
  most : ∀ t, entries.count t ≤ entries.count s
  earliest : ∀ t, entries.count t = entries.count s → entries.idxOf s ≤ entries.idxOf t

/-- **The busiest state** of a list of entries is listed with its number of entries. -/
theorem busiest?_enterAll {entries : List String} {s : String} {n : Nat}
    (hBusiest : (empty.enterAll entries).busiest? = some (s, n)) :
    n = entries.count s ∧ Busiest entries s := by
  obtain ⟨front, back, hSplit, hFront, hBack⟩ := busiest?_eq_some hBusiest
  rw [counts_enterAll] at hSplit
  obtain ⟨earlier, behind, hStates, rfl, hBehind⟩ := List.map_eq_append_iff.1 hSplit
  obtain ⟨s', later, rfl, hSame, rfl⟩ := List.map_eq_cons_iff.1 hBehind
  obtain ⟨rfl, rfl⟩ := Prod.mk.inj hSame
  have hOrder := pairwise_idxOf_eraseDups entries
  rw [hStates, List.pairwise_append, List.pairwise_cons] at hOrder
  have hMem : ∀ t ∈ entries, t ∈ earlier ∨ t = s' ∨ t ∈ later := by
    intro t ht
    have ht := List.mem_eraseDups.2 ht
    rwa [hStates, List.mem_append, List.mem_cons] at ht
  refine ⟨rfl, fun t => ?_, fun t hTie => ?_⟩
  · by_cases ht : t ∈ entries
    · rcases hMem t ht with ht | rfl | ht
      · exact Nat.le_of_lt (hFront _ (List.mem_map_of_mem ht))
      · exact Nat.le_refl _
      · exact hBack _ (List.mem_map_of_mem ht)
    · rw [List.count_eq_zero_of_not_mem ht]
      exact Nat.zero_le _
  · by_cases ht : t ∈ entries
    · rcases hMem t ht with ht | rfl | ht
      · -- Those entered earlier have fewer entries.
        have hFewer := hFront _ (List.mem_map_of_mem ht)
        dsimp only at hFewer
        omega
      · exact Nat.le_refl _
      · exact Nat.le_of_lt (hOrder.2.1.1 t ht)
    · rw [List.idxOf_eq_length ht]
      exact List.idxOf_le_length

/-- A state with a count has that count listed. -/
theorem mem_counts_of_count {v : Visits} {s : String} (hPositive : 0 < v.count s) :
    (s, v.count s) ∈ v.counts := by
  obtain ⟨counts⟩ := v
  change 0 < lookup s counts at hPositive
  change (s, lookup s counts) ∈ counts
  induction counts with
  | nil => exact absurd hPositive (Nat.lt_irrefl 0)
  | cons e rest ih =>
    obtain ⟨t, n⟩ := e
    rw [lookup] at hPositive ⊢
    split
    · next hSame =>
      subst hSame
      exact List.mem_cons_self
    · next hOther =>
      rw [if_neg hOther] at hPositive
      exact List.mem_cons_of_mem _ (ih hPositive)

end Visits

end TapeMachine
