import Mathlib.Order.WellFounded

/-!
# Loops that end

A `while` loop is run with fuel: `whileLoop` is `none` if it runs out. `Ends f P` is total
correctness of a computation with fuel: with enough of it there is a result, the same for more, and
the result satisfies `P`.

* `Ends.bind`: one computation after the other.
* `Ends.whileLoop`: a loop whose rounds keep an invariant and decrease a measure.
-/

namespace FStack.Lib.Loop

variable {σ τ : Type} {P : σ → Prop} {f : Nat → Option σ} {Q : τ → Prop} {s : σ}

/-- With enough fuel, `f` has one result, and it satisfies `P`. -/
def Ends (f : Nat → Option σ) (P : σ → Prop) : Prop :=
  ∃ s, P s ∧ ∃ n, ∀ fuel, n ≤ fuel → f fuel = some s

/-- `while (cont) body`; the body may itself use fuel. -/
def whileLoop (cont : σ → Bool) (body : Nat → σ → Option σ) : Nat → σ → Option σ
  | 0, _ => none
  | fuel + 1, s => if cont s then (body fuel s).bind (whileLoop cont body fuel) else some s

theorem Ends.pure (h : P s) : Ends (fun _ => some s) P :=
  ⟨s, h, 0, fun _ _ => rfl⟩

theorem whileLoop_keeps {cont : σ → Bool} {body : Nat → σ → Option σ}
    (hbody : ∀ n s s', P s → body n s = some s' → P s') {fuel : Nat} {s' : σ} (hs : P s)
    (h : whileLoop cont body fuel s = some s') : P s' := by
  induction fuel generalizing s with
  | zero => cases h
  | succ fuel ih =>
    unfold whileLoop at h
    split at h
    · obtain ⟨s₁, h₁, h⟩ := Option.bind_eq_some_iff.mp h
      exact ih (hbody fuel s s₁ hs h₁) h
    · exact Option.some.inj h ▸ hs

theorem Ends.mono {Q : σ → Prop} (h : Ends f P) (hPQ : ∀ s, P s → Q s) : Ends f Q := by
  obtain ⟨s, hs, hn⟩ := h
  exact ⟨s, hPQ s hs, hn⟩

theorem Ends.map (h : Ends f P) (g : σ → τ) (hPQ : ∀ s, P s → Q (g s)) :
    Ends (fun fuel => (f fuel).map g) Q := by
  obtain ⟨s, hs, n, hn⟩ := h
  refine ⟨g s, hPQ s hs, n, fun fuel hfuel => ?_⟩
  change (f fuel).map g = some (g s)
  rw [hn fuel hfuel, Option.map_some]

theorem Ends.bind {g : Nat → σ → Option τ} (hf : Ends f P)
    (hg : ∀ s, P s → Ends (fun fuel => g fuel s) Q) :
    Ends (fun fuel => (f fuel).bind (g fuel)) Q := by
  obtain ⟨s, hs, n, hn⟩ := hf
  obtain ⟨t, ht, m, hm⟩ := hg s hs
  refine ⟨t, ht, max n m, fun fuel hfuel => ?_⟩
  change (f fuel).bind (g fuel) = some t
  rw [hn fuel ((le_max_left n m).trans hfuel), Option.bind_some]
  exact hm fuel ((le_max_right n m).trans hfuel)

/-- A loop ends if its rounds do, keep `I` and make `μ` smaller. -/
theorem Ends.whileLoop {α : Type} [Preorder α] [WellFoundedLT α] (cont : σ → Bool)
    (body : Nat → σ → Option σ) (I : σ → Prop) (μ : σ → α) (hbody : ∀ s, I s → cont s = true →
      Ends (fun fuel => body fuel s) fun s' => I s' ∧ μ s' < μ s) (hs : I s) :
    Ends (fun fuel => whileLoop cont body fuel s) fun s' => I s' ∧ cont s' = false := by
  induction hμ : μ s using WellFoundedLT.induction generalizing s with
  | ind a ih =>
    subst hμ
    cases hc : cont s with
    | false =>
      refine ⟨s, ⟨hs, hc⟩, 1, fun fuel hfuel => ?_⟩
      obtain ⟨fuel, rfl⟩ := Nat.exists_eq_add_of_le' hfuel
      simp [Loop.whileLoop, hc]
    | true =>
      obtain ⟨s₁, ⟨hs₁, hlt⟩, n, hn⟩ := hbody s hs hc
      obtain ⟨s₂, hs₂, m, hm⟩ := ih (μ s₁) hlt hs₁ rfl
      refine ⟨s₂, hs₂, max n m + 1, fun fuel hfuel => ?_⟩
      obtain ⟨fuel, rfl⟩ := Nat.exists_eq_add_of_le' (Nat.le_of_add_left_le hfuel)
      have hle : max n m ≤ fuel := Nat.le_of_succ_le_succ hfuel
      simp only [Loop.whileLoop, hc, if_true, hn fuel ((le_max_left n m).trans hle),
        Option.bind_some]
      exact hm fuel ((le_max_right n m).trans hle)

end FStack.Lib.Loop
