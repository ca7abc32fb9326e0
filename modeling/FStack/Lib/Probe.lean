import Mathlib.Data.Finset.Card

/-!
# Circular probing

Open addressing with linear probing and no deletion. A table of `n` slots holds at most one key a
slot; the search for a key visits the slots in circular order from the key's home and stops at the
first that is empty or holds the key. `Chained` is the invariant insertion keeps: every stored key
is the one its own search stops at.

* `chained_insert`: storing a key where its search stopped keeps the table chained.
* `slotOf_eq_none_iff`: a search fails exactly when the table is full of other keys.
-/

namespace FStack.Lib.Probe

open Function List

/-- The slots `0, …, n - 1` in circular order from `start`. -/
def circ (n start : Nat) : List Nat := (List.range n).map fun t => (start + t) % n

/-- The first slot in circular order from `start` at which `stop` holds. -/
def probe (n start : Nat) (stop : Nat → Bool) : Option Nat := (circ n start).find? stop

theorem mem_circ {n start i : Nat} : i ∈ circ n start ↔ i < n := by
  unfold circ
  rw [mem_map]
  constructor
  · rintro ⟨t, ht, rfl⟩
    exact Nat.mod_lt _ (by have := mem_range.1 ht; omega)
  · intro hi
    have hr : start % n < n := Nat.mod_lt _ (by omega)
    have hstart : n * (start / n) + start % n = start := Nat.div_add_mod _ _
    -- the number of steps from `start` to `i`, with or without passing the end
    rcases lt_or_ge i (start % n) with hlt | hge
    · refine ⟨i + n - start % n, mem_range.2 (by omega), ?_⟩
      have : start + (i + n - start % n) = i + n * (start / n + 1) := by rw [Nat.mul_add]; omega
      rw [this, Nat.add_mul_mod_self_left, Nat.mod_eq_of_lt hi]
    · refine ⟨i - start % n, mem_range.2 (by omega), ?_⟩
      have : start + (i - start % n) = i + n * (start / n) := by omega
      rw [this, Nat.add_mul_mod_self_left, Nat.mod_eq_of_lt hi]

variable {K : Type} [DecidableEq K]

/-- Where the search for `k` stops. -/
def slotOf (n : Nat) (home : K → Nat) (T : Nat → Option K) (k : K) : Option Nat :=
  probe n (home k) fun i => T i == none || T i == some k

/-- Every stored key is found where it is stored. -/
def Chained (n : Nat) (home : K → Nat) (T : Nat → Option K) : Prop :=
  ∀ i k, i < n → T i = some k → slotOf n home T k = some i

variable {n i j : Nat} {home : K → Nat} {T : Nat → Option K} {k : K} {S : Finset K}

theorem slotOf_spec (h : slotOf n home T k = some i) : i < n ∧ (T i = none ∨ T i = some k) := by
  refine ⟨mem_circ.1 (mem_of_find?_eq_some h), ?_⟩
  simpa using find?_some h

theorem Chained.injective (hT : Chained n home T) (hi : i < n) (hj : j < n) (hik : T i = some k)
    (hjk : T j = some k) : i = j := by
  have h := (hT i k hi hik).symm.trans (hT j k hj hjk)
  exact Option.some.inj h

/-- A search is not disturbed by filling an empty slot, unless it stopped there. -/
theorem slotOf_update {k' : K} (hi : T i = none) (hstop : slotOf n home T k' = some j)
    (hj : update T i (some k) j = some k') : slotOf n home (update T i (some k)) k' = some j := by
  obtain ⟨-, as, bs, hsplit, has⟩ := find?_eq_some_iff_append.1 hstop
  refine find?_eq_some_iff_append.2 ⟨by simp [hj], as, bs, hsplit, fun a ha => ?_⟩
  have hstay := has a ha
  have hne : a ≠ i := by
    rintro rfl
    simp [hi] at hstay
  simpa [update_of_ne hne] using hstay

/-- **Insertion** keeps the table chained. -/
theorem chained_insert (hT : Chained n home T) (hslot : slotOf n home T k = some i)
    (hi : T i = none) : Chained n home (update T i (some k)) := by
  intro j k' hj hk'
  by_cases hji : j = i
  · subst hji
    have heq : k = k' := by simpa using hk'
    subst heq
    exact slotOf_update hi hslot hk'
  · have hold : T j = some k' := by rwa [update_of_ne hji] at hk'
    exact slotOf_update hi (hT j k' hj hold) hk'

theorem slotOf_eq_none : slotOf n home T k = none ↔ ∀ i, i < n → T i ≠ none ∧ T i ≠ some k := by
  unfold slotOf probe
  rw [find?_eq_none]
  constructor
  · intro h i hi
    simpa using h i (mem_circ.2 hi)
  · intro h i hi
    simpa using h i (mem_circ.1 hi)

/-- The number of distinct stored keys is at most `n`, and `n` only if every slot is taken. -/
theorem card_stored (hT : Chained n home T) (hS : ∀ k, k ∈ S ↔ ∃ i, i < n ∧ T i = some k) :
    S.card = ((Finset.range n).filter fun i => (T i).isSome).card := by
  classical
  symm
  refine Finset.card_bij (fun i hi => (T i).get (Finset.mem_filter.1 hi).2) ?_ ?_ ?_
  · intro i hi
    obtain ⟨hlt, hsome⟩ := Finset.mem_filter.1 hi
    exact (hS _).2 ⟨i, Finset.mem_range.1 hlt, (Option.some_get hsome).symm⟩
  · intro i hi j hj heq
    obtain ⟨hlt, hsome⟩ := Finset.mem_filter.1 hi
    obtain ⟨hlt', hsome'⟩ := Finset.mem_filter.1 hj
    refine hT.injective (Finset.mem_range.1 hlt) (Finset.mem_range.1 hlt')
      (Option.some_get hsome).symm ?_
    rw [heq]
    exact (Option.some_get hsome').symm
  · intro k hk
    obtain ⟨i, hi, hik⟩ := (hS k).1 hk
    exact ⟨i, Finset.mem_filter.2 ⟨Finset.mem_range.2 hi, by simp [hik]⟩, by simp [hik]⟩

/-- **A search fails** exactly when the key is not stored and `n` others are. -/
theorem slotOf_eq_none_iff (hT : Chained n home T) (hS : ∀ k, k ∈ S ↔ ∃ i, i < n ∧ T i = some k) :
    slotOf n home T k = none ↔ k ∉ S ∧ n ≤ S.card := by
  rw [slotOf_eq_none, card_stored hT hS, hS]
  constructor
  · intro h
    refine ⟨fun ⟨i, hi, hik⟩ => (h i hi).2 hik, ?_⟩
    rw [Finset.filter_true_of_mem fun i hi =>
      Option.isSome_iff_ne_none.2 (h i (Finset.mem_range.1 hi)).1, Finset.card_range]
  · rintro ⟨hk, hn⟩ i hi
    refine ⟨fun hnone => ?_, fun hik => hk ⟨i, hi, hik⟩⟩
    have hlt : ((Finset.range n).filter fun i => (T i).isSome).card < (Finset.range n).card := by
      refine Finset.card_lt_card (Finset.filter_ssubset.2 ⟨i, Finset.mem_range.2 hi, ?_⟩)
      simp [hnone]
    rw [Finset.card_range] at hlt
    omega

end FStack.Lib.Probe
