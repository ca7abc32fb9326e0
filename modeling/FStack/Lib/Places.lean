import Mathlib.Data.List.Nodup

/-!
# Items at places

Items move between places, each of which holds a list of them. `Apart` says that no item is at two
places, nor twice at one; a program that only moves items from place to place keeps it
(`Apart.move`), whatever else it does. A place an item is taken from for good keeps it as well
(`Apart.drop`).

A program may also keep a mark on each item that says whether it is in a list. `Marked` says that
the marks are right, which they stay if an item enters and leaves the list as its mark changes
(`Marked.turn`).
-/

namespace FStack.Lib

open Function List

variable {κ α : Type*} {h : κ → List α} {k k' : κ} {l l' xs : List α}

/-- No item is at two places, nor twice at one. -/
structure Apart (h : κ → List α) : Prop where
  nodup : ∀ k, (h k).Nodup
  unique : ∀ k k' x, x ∈ h k → x ∈ h k' → k = k'

theorem Apart.not_mem {x : α} (hA : Apart h) (hx : x ∈ h k) (hne : k ≠ k') : x ∉ h k' :=
  fun hx' => hne (hA.unique k k' x hx hx')

/-- What is left at a place after some items were taken. -/
theorem Apart.drop [DecidableEq κ] (hA : Apart h) (hl : l.Nodup) (hk : l ⊆ h k) :
    Apart (update h k l) := by
  have hsub : ∀ i x, x ∈ update h k l i → x ∈ h i := by
    intro i x hx
    by_cases hi : i = k
    · subst hi
      rw [update_self] at hx
      exact hk hx
    · rwa [update_of_ne hi] at hx
  refine ⟨fun i => ?_, fun i i' x hx hx' => hA.unique i i' x (hsub i x hx) (hsub i' x hx')⟩
  by_cases hi : i = k
  · subst hi
    rw [update_self]
    exact hl
  · rw [update_of_ne hi]
    exact hA.nodup i

/-- Items that are nowhere are put at a place. -/
theorem Apart.put [DecidableEq κ] (hA : Apart h) (hxs : xs.Nodup)
    (hnew : ∀ x ∈ xs, ∀ i, x ∉ h i) (hk : l.Perm (xs ++ h k)) : Apart (update h k l) := by
  have hmem : ∀ i x, x ∈ update h k l i → x ∈ xs ∧ i = k ∨ x ∈ h i := by
    intro i x hx
    by_cases hi : i = k
    · subst hi
      rw [update_self] at hx
      exact (mem_append.mp (hk.mem_iff.mp hx)).imp (fun hx => ⟨hx, rfl⟩) id
    · rw [update_of_ne hi] at hx
      exact .inr hx
  constructor
  · intro i
    by_cases hi : i = k
    · subst hi
      rw [update_self, hk.nodup_iff, nodup_append]
      refine ⟨hxs, hA.nodup i, fun x hx y hy hxy => ?_⟩
      subst hxy
      exact hnew x hx i hy
    · rw [update_of_ne hi]
      exact hA.nodup i
  · intro i i' x hx hx'
    rcases hmem i x hx with ⟨hxs, rfl⟩ | hold
    · rcases hmem i' x hx' with ⟨-, rfl⟩ | hold'
      · rfl
      · exact absurd hold' (hnew x hxs i')
    · rcases hmem i' x hx' with ⟨hxs, -⟩ | hold'
      · exact absurd hold (hnew x hxs i)
      · exact hA.unique i i' x hold hold'

/-- **A move** of the items `xs` from one place to another. -/
theorem Apart.move [DecidableEq κ] (hA : Apart h) (xs : List α) (hne : k ≠ k')
    (hk : (h k).Perm (xs ++ l)) (hk' : l'.Perm (xs ++ h k')) :
    Apart (update (update h k l) k' l') := by
  have hnodup : (xs ++ l).Nodup := hk.nodup_iff.mp (hA.nodup k)
  obtain ⟨hxs, hl, hdisj⟩ := nodup_append.mp hnodup
  have hat : ∀ x ∈ xs, x ∈ h k := fun x hx => hk.mem_iff.mpr (mem_append_left l hx)
  have hleft : Apart (update h k l) :=
    hA.drop hl fun x hx => hk.mem_iff.mpr (mem_append_right xs hx)
  refine hleft.put hxs (fun x hx i => ?_) ?_
  · by_cases hi : i = k
    · subst hi
      rw [update_self]
      exact fun hxl => hdisj x hx x hxl rfl
    · rw [update_of_ne hi]
      exact hA.not_mem (hat x hx) (Ne.symm hi)
  · rwa [update_of_ne hne.symm]

/-! ## Marks -/

/-- The items that carry the mark are those of the list, in which each is once. -/
structure Marked (l : List α) (mark : α → Bool) : Prop where
  nodup : l.Nodup
  mem_iff : ∀ x, x ∈ l ↔ mark x = true

section Marked

variable {x : α} {mark mark' : α → Bool}

theorem Marked.congr (hM : Marked l mark) (h : ∀ x, mark' x = mark x) : Marked l mark' :=
  ⟨hM.nodup, fun x => by rw [h, hM.mem_iff]⟩

variable [DecidableEq α]

variable (hM : Marked l mark)

include hM

theorem Marked.push (hx : mark x = false) :
    Marked (l ++ [x]) (update mark x true) := by
  have hnot : x ∉ l := fun hmem => by simp [(hM.mem_iff x).1 hmem] at hx
  refine ⟨nodup_append.2 ⟨hM.nodup, nodup_singleton x, ?_⟩, fun y => ?_⟩
  · rintro a ha b hb rfl
    exact hnot (mem_singleton.1 hb ▸ ha)
  · by_cases hy : y = x
    · subst hy
      simp
    · rw [update_of_ne hy, ← hM.mem_iff]
      simp [hy]

theorem Marked.erase : Marked (l.erase x) (update mark x false) := by
  refine ⟨hM.nodup.erase x, fun y => ?_⟩
  rw [hM.nodup.mem_erase_iff]
  by_cases hy : y = x
  · subst hy
    simp
  · rw [update_of_ne hy, ← hM.mem_iff]
    exact and_iff_right hy

/-- The list, when `x` enters or leaves it as its mark changes. -/
def turn (x : α) (before after : Bool) (l : List α) : List α :=
  match before, after with
  | false, true => l ++ [x]
  | true, false => l.erase x
  | _, _ => l

theorem Marked.turn (x : α) (after : Bool) :
    Marked (turn x (mark x) after l) (update mark x after) := by
  cases hbefore : mark x <;> cases after
  · exact hM.congr fun y => by rw [← hbefore, update_eq_self]
  · exact hM.push hbefore
  · exact hM.erase
  · exact hM.congr fun y => by rw [← hbefore, update_eq_self]

end Marked

end FStack.Lib
