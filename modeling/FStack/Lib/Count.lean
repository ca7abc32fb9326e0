import Mathlib.Data.Finset.Card

/-!
# Counting cells

How many cells of a store have a property, and how that number changes when one cell is written.
-/

namespace FStack.Lib.Count

open Function Finset

variable {ι α : Type*} {S : Finset ι} {p : α → Bool} {f : ι → α} {i : ι} {x : α}

/-- The number of cells in `S` with the property `p`. -/
def count (S : Finset ι) (p : α → Bool) (f : ι → α) : Nat :=
  (S.filter fun i => p (f i) = true).card

theorem count_pos : 0 < count S p f ↔ ∃ i ∈ S, p (f i) = true := by
  unfold count
  rw [card_pos]
  simp only [Finset.Nonempty, mem_filter]

theorem count_le_one :
    count S p f ≤ 1 ↔ ∀ i ∈ S, ∀ j ∈ S, p (f i) = true → p (f j) = true → i = j := by
  unfold count
  rw [card_le_one]
  simp only [mem_filter]
  exact ⟨fun h i hi j hj hpi hpj => h i ⟨hi, hpi⟩ j ⟨hj, hpj⟩,
    fun h i hi j hj => h i hi.1 j hj.1 hi.2 hj.2⟩

variable [DecidableEq ι]

theorem count_eq_erase (hi : i ∈ S) :
    count S p f = count (S.erase i) p f + if p (f i) = true then 1 else 0 := by
  unfold count
  rw [filter_erase]
  split
  next h => exact (card_erase_add_one (mem_filter.2 ⟨hi, h⟩)).symm
  next h =>
    have hnot : i ∉ S.filter fun i => p (f i) = true := fun hmem => h (mem_filter.1 hmem).2
    rw [erase_eq_of_notMem hnot, Nat.add_zero]

/-- A write to a cell changes the number by what the cell had and what it has now. -/
theorem count_update (hi : i ∈ S) (x : α) :
    count S p (update f i x) + (if p (f i) = true then 1 else 0) =
      count S p f + if p x = true then 1 else 0 := by
  have hrest : count (S.erase i) p (update f i x) = count (S.erase i) p f := by
    unfold count
    congr 1
    refine filter_congr fun j hj => ?_
    rw [update_of_ne (ne_of_mem_erase hj)]
  rw [count_eq_erase hi, count_eq_erase hi, hrest, update_self]
  omega

end FStack.Lib.Count
