import Mathlib.Data.List.Nodup

/-!
# Chains of buffers

Buffers that are chained by a `next` pointer, and how often each of them was given back. Giving back
one buffer clears its pointer, so that a second walk from a buffer that is gone does not reach what
stood behind it.

* `Linked next o l`: following `next` from `o` passes the buffers of `l`, in this order, and ends;
  `walk` computes them.
* `freeChain`: the walk that gives back a whole chain. On a chain without repetition it gives back
  each of its buffers once (`freeChain_eq`, `frees_freeAll`).
* `Linked.snoc`: a buffer put behind the last one.
-/

namespace FStack.Lib.Chain

open Function List

variable {σ : Type} {next : σ → Option σ}

/-- The pointers of the buffers, and how often each buffer was given back. -/
structure Links (σ : Type) where
  next : σ → Option σ
  frees : σ → Nat

/-- `l` is the chain from `o` on. -/
def Linked (next : σ → Option σ) : Option σ → List σ → Prop
  | o, [] => o = none
  | o, s :: l => o = some s ∧ Linked next (next s) l

theorem Linked.congr {next' : σ → Option σ} :
    ∀ {o : Option σ} {l : List σ}, (∀ s ∈ l, next' s = next s) → Linked next o l → Linked next' o l
  | _, [], _, h => h
  | _, s :: _, hsame, ⟨ho, h⟩ => by
    refine ⟨ho, ?_⟩
    rw [hsame s mem_cons_self]
    exact h.congr fun t ht => hsame t (mem_cons_of_mem s ht)

/-- The first `n` buffers of the chain from `o` on. -/
def walk (next : σ → Option σ) : Nat → Option σ → List σ
  | 0, _ => []
  | _ + 1, none => []
  | n + 1, some s => s :: walk next n (next s)

theorem Linked.walk_eq : ∀ {l : List σ} {n : Nat} {o : Option σ},
    Linked next o l → l.length ≤ n → walk next n o = l
  | [], n, o, h, _ => by
    cases h
    cases n <;> rfl
  | s :: l, n + 1, o, ⟨ho, h⟩, hn => by
    subst ho
    rw [walk, h.walk_eq (Nat.le_of_succ_le_succ hn)]

variable [DecidableEq σ]

/-- The successor in a list. -/
def nextIn : List σ → σ → Option σ
  | a :: b :: l, s => if s = a then some b else nextIn (b :: l) s
  | _, _ => none

theorem linked_nextIn : ∀ {l : List σ}, l.Nodup → Linked (nextIn l) l.head? l
  | [], _ => rfl
  | [_], _ => ⟨rfl, rfl⟩
  | a :: b :: l, h => by
    refine ⟨rfl, ?_⟩
    rw [nextIn, if_pos rfl]
    refine (linked_nextIn h.of_cons).congr fun s hs => ?_
    have hne : s ≠ a := by
      rintro rfl
      exact (nodup_cons.1 h).1 hs
    rw [nextIn, if_neg hne]

/-- A buffer put behind the last one of a chain. -/
theorem Linked.snoc {p c : σ} (hc : next c = none) (hp : c ≠ p) :
    ∀ {o : Option σ} {l : List σ}, p ∉ l → c ∉ l → Linked next o (l ++ [p]) →
      Linked (update next p (some c)) o (l ++ [p] ++ [c])
  | _, [], _, _, ⟨ho, _⟩ =>
    ⟨ho, update_self .., by rw [update_of_ne hp]; exact hc⟩
  | _, s :: l, hpl, hcl, ⟨ho, h⟩ => by
    have hs : s ≠ p := fun h => hpl (h ▸ mem_cons_self)
    refine ⟨ho, ?_⟩
    rw [update_of_ne hs]
    exact h.snoc hc hp (fun h => hpl (mem_cons_of_mem s h))
      fun h => hcl (mem_cons_of_mem s h)

/-! ## Giving back -/

/-- One buffer goes back. -/
def freeSeg (s : σ) (M : Links σ) : Links σ where
  next := update M.next s none
  frees := update M.frees s (M.frees s + 1)

/-- The buffers of a list go back, one after the other. -/
def freeAll (l : List σ) (M : Links σ) : Links σ := l.foldl (fun M s => freeSeg s M) M

/-- The walk along a chain of at most `n` buffers. -/
def freeChain : Nat → Option σ → Links σ → Links σ
  | 0, _, M => M
  | _ + 1, none, M => M
  | n + 1, some s, M => freeChain n (M.next s) (freeSeg s M)

@[simp] theorem freeChain_none (n : Nat) (M : Links σ) : freeChain n none M = M := by
  cases n <;> rfl

/-- The walk gives back the buffers of the chain. -/
theorem freeChain_eq : ∀ {l : List σ} {n : Nat} {o : Option σ} {M : Links σ}, Linked M.next o l →
    l.Nodup → l.length ≤ n → freeChain n o M = freeAll l M
  | [], n, o, M, h, _, _ => by
    cases h
    exact freeChain_none n M
  | s :: l, n + 1, o, M, ⟨ho, h⟩, hnd, hn => by
    subst ho
    change freeChain n (M.next s) (freeSeg s M) = freeAll l (freeSeg s M)
    refine freeChain_eq (h.congr fun t ht => ?_) hnd.of_cons (Nat.le_of_succ_le_succ hn)
    have hne : t ≠ s := by
      rintro rfl
      exact (nodup_cons.1 hnd).1 ht
    exact update_of_ne hne _ _

theorem frees_freeAll (s : σ) : ∀ (l : List σ) (M : Links σ),
    (freeAll l M).frees s = M.frees s + l.count s
  | [], _ => rfl
  | t :: l, M => by
    rw [show freeAll (t :: l) M = freeAll l (freeSeg t M) from rfl, frees_freeAll s l]
    rcases eq_or_ne s t with rfl | hne
    · rw [count_cons_self]
      simp only [freeSeg, update_self]
      omega
    · rw [count_cons_of_ne hne.symm]
      simp only [freeSeg, update_of_ne hne]

/-- What went back points nowhere. -/
theorem next_freeAll {s : σ} : ∀ (l : List σ) (M : Links σ), M.next s = none ∨ s ∈ l →
    (freeAll l M).next s = none
  | [], _, h => h.resolve_right not_mem_nil
  | t :: l, M, h => by
    refine next_freeAll l (freeSeg t M) ?_
    rcases eq_or_ne s t with rfl | hne
    · exact .inl (update_self ..)
    · rcases h with h | h
      · exact .inl ((update_of_ne hne ..).trans h)
      · exact .inr (mem_of_ne_of_mem hne h)

theorem next_freeAll_of_notMem {s : σ} : ∀ {l : List σ}, s ∉ l → ∀ M : Links σ,
    (freeAll l M).next s = M.next s
  | [], _, _ => rfl
  | t :: l, h, M => by
    refine (next_freeAll_of_notMem (fun hs => h (mem_cons_of_mem t hs)) (freeSeg t M)).trans ?_
    exact update_of_ne (ne_of_not_mem_cons h) ..

/-- Each buffer of a list without repetition goes back once. -/
theorem frees_freeAll_nodup {l : List σ} (h : l.Nodup) (M : Links σ) (s : σ) :
    (freeAll l M).frees s = M.frees s + if s ∈ l then 1 else 0 := by
  rw [frees_freeAll, h.count]

end FStack.Lib.Chain
