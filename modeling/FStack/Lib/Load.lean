import Mathlib.Algebra.GroupWithZero.Nat
import Mathlib.Algebra.Order.BigOperators.Group.Finset

/-!
# Weighted loads

Queues indexed by places hold lists of items. `load S w s` adds up, over the places of `S`, the
weight `w` of every item there, in any commutative monoid. A step of a system changes a queue or
two, and by `load_update` an invariant about a load is settled by the weights of the items that
moved.
-/

namespace FStack.Lib

open Function Finset

variable {ι α M : Type*} {S : Finset ι} {s : ι → List α} {i : ι} {w w' : ι → α → Nat} {l : List α}

/-- The sum, over the queues in `S`, of the weights of what is in them. -/
def load [AddCommMonoid M] (S : Finset ι) (w : ι → α → M) (s : ι → List α) : M :=
  ∑ i ∈ S, ((s i).map (w i)).sum

theorem load_update [AddCommMonoid M] [DecidableEq ι] {w : ι → α → M} (hi : i ∈ S) (l : List α) :
    load S w (update s i l) + ((s i).map (w i)).sum = load S w s + (l.map (w i)).sum := by
  unfold load
  have hrest : ∑ x ∈ S.erase i, ((update s i l x).map (w x)).sum =
      ∑ x ∈ S.erase i, ((s x).map (w x)).sum := by
    refine sum_congr rfl fun x hx => ?_
    rw [update_of_ne (ne_of_mem_erase hx)]
  rw [← sum_erase_add S _ hi, ← sum_erase_add S (fun x => ((s x).map (w x)).sum) hi, hrest,
    update_self]
  exact add_right_comm _ _ _

theorem load_push [DecidableEq ι] (hi : i ∈ S) (x : α) :
    load S w (update s i (s i ++ [x])) = load S w s + w i x := by
  have h := load_update (w := w) (s := s) hi (s i ++ [x])
  rw [List.map_append, List.sum_append, List.map_singleton, List.sum_singleton] at h
  omega

theorem load_pop [DecidableEq ι] {x : α} (hi : i ∈ S) (hs : s i = x :: l) :
    load S w (update s i l) + w i x = load S w s := by
  have h := load_update (w := w) (s := s) hi l
  rw [hs, List.map_cons, List.sum_cons] at h
  omega

theorem load_mono (h : ∀ i ∈ S, ∀ x ∈ s i, w i x ≤ w' i x) : load S w s ≤ load S w' s :=
  sum_le_sum fun i hi => List.sum_le_sum fun x hx => h i hi x hx

theorem load_eq_zero_iff : load S w s = 0 ↔ ∀ i ∈ S, ∀ x ∈ s i, w i x = 0 := by
  unfold load
  rw [sum_eq_zero_iff]
  refine forall₂_congr fun i _ => ?_
  rw [List.sum_eq_zero_iff, List.forall_mem_map]

theorem le_load (hi : i ∈ S) : ((s i).map (w i)).sum ≤ load S w s :=
  single_le_sum (f := fun i => ((s i).map (w i)).sum) (fun _ _ => Nat.zero_le _) hi

/-- A load that only one place contributes to. -/
theorem load_eq_single (hi : i ∈ S) (h : ∀ j, j ≠ i → ∀ x ∈ s j, w j x = 0) :
    load S w s = ((s i).map (w i)).sum := by
  refine sum_eq_single i (fun j _ hj => ?_) fun hi' => absurd hi hi'
  rw [List.sum_eq_zero_iff, List.forall_mem_map]
  exact h j hj

/-- What holds of every item in a queue, after one queue changed. -/
theorem forall_mem_update [DecidableEq ι] {Q : ι → α → Prop} (hs : ∀ j, ∀ x ∈ s j, Q j x)
    (hl : ∀ x ∈ l, Q i x) : ∀ j, ∀ x ∈ update s i l j, Q j x := by
  intro j x hx
  by_cases hj : j = i
  · subst hj
    rw [update_self] at hx
    exact hl x hx
  · rw [update_of_ne hj] at hx
    exact hs j x hx

end FStack.Lib
