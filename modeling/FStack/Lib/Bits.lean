import Mathlib.Data.Nat.Count

/-!
# Sets of bits

A set of numbers kept as bits: copying the first of them from one set to another, setting bits,
going through the bits that are set, and counting them.
-/

namespace FStack.Lib

/-- A bit set over the naturals. -/
abbrev Bits := Nat → Bool

namespace Bits

/-- No bit is set. -/
def empty : Bits := fun _ => false

/-- The first `n` bits of `src`, then those of `dst`. -/
def copy (n : Nat) (dst src : Bits) : Bits := fun i => if i < n then src i else dst i

/-- One more bit is set. -/
def insert (s : Bits) (i : Nat) : Bits := Function.update s i true

/-- The bits below `n` that are set, in order. -/
def below (s : Bits) (n : Nat) : List Nat := (List.range n).filter s

/-- How many bits below `n` are set. -/
def size (s : Bits) (n : Nat) : Nat := Nat.count (fun i => s i = true) n

variable {s dst src t : Bits} {n m i : Nat}

theorem copy_lt (h : i < n) : copy n dst src i = src i := if_pos h

theorem copy_ge (h : n ≤ i) : copy n dst src i = dst i := if_neg (not_lt.2 h)

theorem mem_below : i ∈ s.below n ↔ i < n ∧ s i = true := by
  simp [below]

theorem insert_apply : s.insert i m = true ↔ m = i ∨ s m = true := by
  unfold insert Function.update
  by_cases h : m = i <;> simp [h]

theorem size_eq_zero : s.size n = 0 ↔ ∀ i < n, s i = false := by
  unfold size
  rw [Nat.count_iff_forall_not]
  simp

theorem size_congr (h : ∀ i < n, s i = true ↔ t i = true) : s.size n = t.size n := by
  unfold size
  simp only [Nat.count_eq_card_filter_range]
  congr 1
  exact Finset.filter_congr fun i hi => h i (Finset.mem_range.1 hi)

/-- The size is the same under every bound of the set. -/
theorem size_eq_of_bound (hn : ∀ i, s i = true → i < n) (hm : ∀ i, s i = true → i < m) :
    s.size n = s.size m := by
  suffices h : ∀ {a b : Nat}, a ≤ b → (∀ i, s i = true → i < a) → s.size a = s.size b by
    rcases le_total n m with hle | hle
    · exact h hle hn
    · exact (h hle hm).symm
  intro a b hle ha
  obtain ⟨d, rfl⟩ := Nat.exists_eq_add_of_le hle
  have hnone : Nat.count (fun i => s (a + i) = true) d = 0 :=
    Nat.count_iff_forall_not.2 fun i _ hi => absurd (ha _ hi) (by omega)
  unfold size
  rw [Nat.count_add, hnone, add_zero]

/-- A set of which one part is below `n` and the other is `t` moved up by `n`. -/
theorem size_add {p : Bits} (hp : ∀ i, p i = true → i < n)
    (hs : ∀ i, s i = true ↔ p i = true ∨ n ≤ i ∧ t (i - n) = true) :
    s.size (n + m) = p.size n + t.size m := by
  have hlow : s.size n = p.size n :=
    size_congr fun i hi => by simp only [hs i, not_le.2 hi, false_and, or_false]
  have hhigh : size (fun i => s (n + i)) m = t.size m := by
    refine size_congr fun i _ => ?_
    have hnot : ¬ p (n + i) = true := fun h => absurd (hp _ h) (by omega)
    rw [hs (n + i), Nat.add_sub_cancel_left]
    simp [hnot]
  rw [← hlow, ← hhigh]
  exact Nat.count_add _ n m

end Bits

end FStack.Lib
