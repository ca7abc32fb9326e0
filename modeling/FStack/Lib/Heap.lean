import Mathlib.Logic.Equiv.Basic
import Mathlib.Order.Basic

/-!
# Heaps in arrays

The values `a 1, …, a n` are a minimum heap if each is at least the one at half its position
(`Ordered`). While a value moves up, the heap may be out of order above it only (`UpOrder`), and
while one moves down, below it only (`DownOrder`); an exchange moves that place one level up or down
(`UpOrder.swap`, `DownOrder.swap`), and when the value is in order with its neighbours, so is the
heap (`UpOrder.stop`, `DownOrder.stop`). The rest is what happens to the order when a value is added
at the end (`Ordered.push`), the last value takes another one's place (`Ordered.replace`), or a
value changes (`ordered_set_iff`).
-/

namespace FStack.Lib.Heap

open Function

variable {α : Type*} [Preorder α] {a b : Nat → α} {n p q : Nat}

/-- The values at `1, …, n` are a minimum heap. -/
def Ordered (n : Nat) (a : Nat → α) : Prop := ∀ i, 2 ≤ i → i ≤ n → a (i / 2) ≤ a i

theorem ordered_congr (h : ∀ i, 0 < i → i ≤ n → a i = b i) : Ordered n a ↔ Ordered n b := by
  refine forall_congr' fun i => imp_congr_right fun hi => imp_congr_right fun hn => ?_
  rw [h i (by omega) hn, h (i / 2) (by omega) (by omega)]

theorem Ordered.root_le (h : Ordered n a) {i : Nat} (hpos : 0 < i) (hi : i ≤ n) : a 1 ≤ a i := by
  induction i using Nat.strongRecOn with
  | ind i ih =>
    by_cases hone : i = 1
    · rw [hone]
    · exact (ih (i / 2) (by omega) (by omega) (by omega)).trans (h i (by omega) hi)

/-! ## Up -/

/-- In order, but for the value at `p` and the one above it. -/
structure UpOrder (n : Nat) (a : Nat → α) (p : Nat) : Prop where
  except : ∀ i, 2 ≤ i → i ≤ n → i ≠ p → a (i / 2) ≤ a i
  grand : 2 ≤ p → ∀ i ≤ n, i / 2 = p → a (p / 2) ≤ a i

theorem UpOrder.stop (h : UpOrder n a p) (hp : 2 ≤ p → a (p / 2) ≤ a p) : Ordered n a := by
  intro i hi hn
  by_cases hip : i = p
  · subst hip
    exact hp hi
  · exact h.except i hi hn hip

theorem UpOrder.swap (h : UpOrder n a p) (hp : 2 ≤ p) (hn : p ≤ n) (hle : a p ≤ a (p / 2)) :
    UpOrder n (a ∘ Equiv.swap p (p / 2)) (p / 2) := by
  have hother {i : Nat} (hi : i ≠ p) (hi' : i ≠ p / 2) : (a ∘ Equiv.swap p (p / 2)) i = a i :=
    congrArg a (Equiv.swap_apply_of_ne_of_ne hi hi')
  have hlow : (a ∘ Equiv.swap p (p / 2)) p = a (p / 2) := congrArg a (Equiv.swap_apply_left _ _)
  have hhigh : (a ∘ Equiv.swap p (p / 2)) (p / 2) = a p := congrArg a (Equiv.swap_apply_right _ _)
  constructor
  · intro i hi hin hip
    by_cases hi₁ : i = p
    · subst hi₁
      rw [hlow, hhigh]
      exact hle
    rw [hother hi₁ hip]
    by_cases hchild : i / 2 = p
    · rw [hchild, hlow]
      exact h.grand hp i hin hchild
    by_cases hsibling : i / 2 = p / 2
    · rw [hsibling, hhigh]
      exact hle.trans (hsibling ▸ h.except i hi hin hi₁)
    · rw [hother hchild hsibling]
      exact h.except i hi hin hi₁
  · intro hp' i hin hip
    have habove : a (p / 2 / 2) ≤ a (p / 2) := h.except (p / 2) hp' (by omega) (by omega)
    rw [hother (show p / 2 / 2 ≠ p by omega) (by omega)]
    by_cases hi : i = p
    · rw [hi, hlow]
      exact habove
    · rw [hother hi (by omega)]
      exact habove.trans (hip ▸ h.except i (by omega) hin hi)

theorem Ordered.push (h : Ordered n a) (x : α) : UpOrder (n + 1) (update a (n + 1) x) (n + 1) := by
  constructor
  · intro i hi hin hne
    rw [update_of_ne hne, update_of_ne (by omega)]
    exact h i hi (by omega)
  · intro _ i hin hchild
    omega

/-! ## Down -/

/-- In order, but for the value at `p` and those below it. -/
structure DownOrder (n : Nat) (a : Nat → α) (p : Nat) : Prop where
  except : ∀ i, 2 ≤ i → i ≤ n → i / 2 ≠ p → a (i / 2) ≤ a i
  grand : 2 ≤ p → ∀ i ≤ n, i / 2 = p → a (p / 2) ≤ a i

theorem DownOrder.stop (h : DownOrder n a p) (hp : ∀ i, 2 ≤ i → i ≤ n → i / 2 = p → a p ≤ a i) :
    Ordered n a := by
  intro i hi hn
  by_cases hip : i / 2 = p
  · rw [hip]
    exact hp i hi hn hip
  · exact h.except i hi hn hip

/-- The value at `p` is exchanged with the least one below it. -/
theorem DownOrder.swap (h : DownOrder n a p) (hq : 2 ≤ q) (hchild : q / 2 = p)
    (hmin : ∀ i, 2 ≤ i → i ≤ n → i / 2 = p → a q ≤ a i) (hn : q ≤ n) (hle : a q ≤ a p) :
    DownOrder n (a ∘ Equiv.swap p q) q := by
  have hother {i : Nat} (hi : i ≠ p) (hi' : i ≠ q) : (a ∘ Equiv.swap p q) i = a i :=
    congrArg a (Equiv.swap_apply_of_ne_of_ne hi hi')
  have hhigh : (a ∘ Equiv.swap p q) p = a q := congrArg a (Equiv.swap_apply_left _ _)
  have hlow : (a ∘ Equiv.swap p q) q = a p := congrArg a (Equiv.swap_apply_right _ _)
  constructor
  · intro i hi hin hiq
    by_cases hip : i / 2 = p
    · rw [hip, hhigh]
      by_cases hi' : i = q
      · rw [hi', hlow]
        exact hle
      · rw [hother (by omega) hi']
        exact hmin i hi hin hip
    have hne : i ≠ q := fun heq => hip (heq ▸ hchild)
    rw [hother hip hiq]
    by_cases hi' : i = p
    · subst hi'
      rw [hhigh]
      exact h.grand hi q hn hchild
    · rw [hother hi' hne]
      exact h.except i hi hin hip
  · intro _ i hin hip
    rw [hchild, hhigh, hother (by omega) (by omega)]
    exact hip ▸ h.except i (by omega) hin (by omega)

/-- The last value takes the place of the one at `p`. -/
theorem Ordered.replace (h : Ordered n a) (hn : p ≤ n) (hb : ∀ i < n, b i = update a p (a n) i)
    (hp : 2 ≤ p → a (p / 2) ≤ a n) : DownOrder (n - 1) b p := by
  constructor
  · intro i hi hin hip
    rw [hb i (by omega), hb (i / 2) (by omega), update_of_ne hip]
    by_cases hi' : i = p
    · subst hi'
      rw [update_self]
      exact hp hi
    · rw [update_of_ne hi']
      exact h i hi (by omega)
  · intro hp' i hin hip
    rw [hb i (by omega), hb (p / 2) (by omega), update_of_ne (by omega), update_of_ne (by omega)]
    exact (h p hp' hn).trans (hip ▸ h i (by omega) (by omega))

/-- One value changes. -/
theorem ordered_set_iff (h : Ordered n a) (hpos : 0 < p) (hn : p ≤ n) (x : α) :
    Ordered n (update a p x) ↔ (2 ≤ p → a (p / 2) ≤ x) ∧ ∀ i ≤ n, i / 2 = p → x ≤ a i := by
  constructor
  · intro hord
    refine ⟨fun hp => ?_, fun i hin hip => ?_⟩
    · have habove := hord p hp hn
      rwa [update_self, update_of_ne (by omega)] at habove
    · have hbelow := hord i (by omega) hin
      rwa [hip, update_self, update_of_ne (by omega)] at hbelow
  · rintro ⟨habove, hbelow⟩ i hi hin
    by_cases hip : i = p
    · subst hip
      rw [update_self, update_of_ne (by omega)]
      exact habove hi
    rw [update_of_ne hip]
    by_cases hchild : i / 2 = p
    · rw [hchild, update_self]
      exact hbelow i hin hchild
    · rw [update_of_ne hchild]
      exact h i hi hin

end FStack.Lib.Heap
