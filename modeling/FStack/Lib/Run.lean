import Mathlib.Data.List.Basic

/-!
# Runs

A loop whose body may fail is `List.foldlM` in `Except`. These are the rules the developments use:
how a run splits at one of its steps, how an invariant of the step carries to the run, and how what
it writes to a field, or counts, is read off the steps (`lastWrite`, `countHits`). A run of steps
that cannot fail is `List.foldl`; `Guarded` says that every step of it meets a condition in the
state it is made in; `Guarded.invariant` is the induction over such runs and `Guarded.guard_at`
reads the condition off at one step. If the condition is exactly what keeps a state good, a run is
good throughout exactly if it is guarded (`guarded_iff`); `guarded_congr` exchanges one condition
for another.
-/

namespace FStack.Lib.Run

open List

variable {ε σ α β : Type} {f : σ → α → Except ε σ} {a : α} {as pre : List α} {s s' : σ}
  {step : σ → α → σ} {guard : σ → α → Prop} {P : σ → Prop}

theorem bind_eq_ok {x : Except ε α} {f : α → Except ε β} {b : β} :
    x >>= f = .ok b ↔ ∃ a, x = .ok a ∧ f a = .ok b := by
  cases x with
  | error e | ok a => simp [bind, Except.bind]

theorem foldlM_cons_eq_ok :
    (a :: as).foldlM f s = .ok s' ↔ ∃ s₁, f s a = .ok s₁ ∧ as.foldlM f s₁ = .ok s' := by
  exact bind_eq_ok

theorem foldlM_append_eq_ok {bs : List α} : (as ++ bs).foldlM f s = .ok s' ↔
      ∃ s₁, as.foldlM f s = .ok s₁ ∧ bs.foldlM f s₁ = .ok s' := by
  rw [foldlM_append]
  exact bind_eq_ok

/-- A run through `pre ++ a :: post` stops at `a` in between. -/
theorem foldlM_split {post : List α} (h : (pre ++ a :: post).foldlM f s = .ok s') :
    ∃ s₁ s₂, pre.foldlM f s = .ok s₁ ∧ f s₁ a = .ok s₂ ∧ post.foldlM f s₂ = .ok s' := by
  obtain ⟨s₁, h₁, h⟩ := foldlM_append_eq_ok.1 h
  obtain ⟨s₂, h₂, h₃⟩ := foldlM_cons_eq_ok.1 h
  exact ⟨s₁, s₂, h₁, h₂, h₃⟩

variable {P : σ → Prop}

/-- What every successful step preserves, a successful run preserves. -/
theorem foldlM_invariant {f : σ → α → Except ε σ} :
    ∀ {as : List α} {s s' : σ}, (∀ a ∈ as, ∀ t t', f t a = .ok t' → P t → P t') →
      as.foldlM f s = .ok s' → P s → P s'
  | [], s, s', _, h, hP => by
    cases h
    exact hP
  | a :: as, s, s', hstep, h, hP => by
    obtain ⟨s₁, h₁, h₂⟩ := foldlM_cons_eq_ok.1 h
    have hP₁ : P s₁ := hstep a (by simp) s s₁ h₁ hP
    exact foldlM_invariant (fun b hb => hstep b (by simp [hb])) h₂ hP₁

/-- A run of steps that cannot fail does not fail. -/
theorem foldlM_total {f : σ → α → Except ε σ} :
    ∀ {as : List α} (s : σ), (∀ a ∈ as, ∀ t, ∃ t', f t a = .ok t') → ∃ s', as.foldlM f s = .ok s'
  | [], s, _ => ⟨s, rfl⟩
  | a :: as, s, h => by
    obtain ⟨s₁, h₁⟩ := h a (by simp) s
    obtain ⟨s', h'⟩ := @foldlM_total f as s₁ fun b hb => h b (by simp [hb])
    exact ⟨s', foldlM_cons_eq_ok.2 ⟨s₁, h₁, h'⟩⟩

/-- What holds at a place of a list if it holds at the places before, holds at all places. -/
theorem forall_split {P : List α → α → Prop} {l : List α}
    (h : ∀ pre a post, l = pre ++ a :: post → (∀ p b p', pre = p ++ b :: p' → P p b) → P pre a)
    (pre : List α) (a : α) (post : List α) (hl : l = pre ++ a :: post) : P pre a := by
  refine h pre a post hl fun p b p' hp => ?_
  exact forall_split h p b (p' ++ a :: post) (by rw [hl, hp, append_assoc]; rfl)
termination_by pre.length

/-- The results of a loop that collects them are those of its rounds. -/
theorem mapM_ok {f : α → Except ε β} : ∀ {as : List α} {bs : List β},
    as.mapM f = .ok bs → (∀ a ∈ as, ∃ b ∈ bs, f a = .ok b) ∧ ∀ b ∈ bs, ∃ a ∈ as, f a = .ok b
  | [], bs, h => by
    cases h
    simp
  | a :: as, bs, h => by
    rw [mapM_cons] at h
    obtain ⟨b, hb, h⟩ := bind_eq_ok.1 h
    obtain ⟨bs', hbs, h⟩ := bind_eq_ok.1 h
    cases h
    obtain ⟨h₁, h₂⟩ := mapM_ok hbs
    constructor
    · rintro x (_ | ⟨_, hx⟩)
      · exact ⟨b, mem_cons_self, hb⟩
      · obtain ⟨y, hy, hxy⟩ := h₁ x hx
        exact ⟨y, mem_cons_of_mem b hy, hxy⟩
    · rintro y (_ | ⟨_, hy⟩)
      · exact ⟨a, mem_cons_self, hb⟩
      · obtain ⟨x, hx, hxy⟩ := h₂ y hy
        exact ⟨x, mem_cons_of_mem a hx, hxy⟩

/-- What the last step of a run that writes has written; `w` says what a step writes. -/
def lastWrite {β : Type} (f : σ → α → Except ε σ) (w : σ → α → Option β) : σ → List α → Option β
  | _, [] => none
  | s, a :: as =>
    match f s a with
    | .ok s' => (lastWrite f w s' as).or (w s a)
    | .error _ => none

/-- The last write is what is read in the end. -/
theorem foldlM_lastWrite {γ : Type} {f : σ → α → Except ε σ} {w : σ → α → Option β} (read : σ → γ)
    {g : β → γ} (hP : ∀ s a s', f s a = .ok s' → P s → P s')
    (hstep : ∀ s a s', f s a = .ok s' → P s → read s' = ((w s a).map g).getD (read s)) :
    ∀ {as : List α} {s s' : σ}, as.foldlM f s = .ok s' → P s →
      read s' = ((lastWrite f w s as).map g).getD (read s)
  | [], s, s', h, _ => by
    cases h
    rfl
  | a :: as, s, s', h, hs => by
    obtain ⟨s₁, h₁, h₂⟩ := foldlM_cons_eq_ok.1 h
    rw [foldlM_lastWrite read hP hstep h₂ (hP s a s₁ h₁ hs), hstep s a s₁ h₁ hs]
    simp only [lastWrite, h₁]
    cases lastWrite f w s₁ as <;> rfl

/-- How many steps of a run hit. -/
def countHits (f : σ → α → Except ε σ) (hit : σ → α → Bool) : σ → List α → Nat
  | _, [] => 0
  | s, a :: as =>
    match f s a with
    | .ok s' => (hit s a).toNat + countHits f hit s' as
    | .error _ => 0

theorem foldlM_countHits {f : σ → α → Except ε σ} {hit : σ → α → Bool} (read : σ → Nat)
    (hstep : ∀ s a s', f s a = .ok s' → read s' = read s + (hit s a).toNat) :
    ∀ {as : List α} {s s' : σ}, as.foldlM f s = .ok s' → read s' = read s + countHits f hit s as
  | [], s, s', h => by
    cases h
    rfl
  | a :: as, s, s', h => by
    obtain ⟨s₁, h₁, h₂⟩ := foldlM_cons_eq_ok.1 h
    rw [foldlM_countHits read hstep h₂, hstep s a s₁ h₁]
    simp only [countHits, h₁]
    omega

/-- Every step of the run meets the condition `guard` where it is made. -/
def Guarded (step : σ → α → σ) (guard : σ → α → Prop) : σ → List α → Prop
  | _, [] => True
  | s, a :: as => guard s a ∧ Guarded step guard (step s a) as

instance Guarded.decidable (step : σ → α → σ) (guard : σ → α → Prop)
    [∀ s a, Decidable (guard s a)] : ∀ s as, Decidable (Guarded step guard s as)
  | _, [] => inferInstanceAs (Decidable True)
  | s, a :: as =>
    haveI := Guarded.decidable step guard (step s a) as
    inferInstanceAs (Decidable (guard s a ∧ Guarded step guard (step s a) as))

/-- What every guarded step preserves holds in every state of a guarded run. -/
theorem Guarded.invariant (hstep : ∀ s a, P s → guard s a → P (step s a)) (hP : P s)
    (hrun : Guarded step guard s as) (hpre : pre <+: as) : P (pre.foldl step s) := by
  induction pre generalizing s as with
  | nil => exact hP
  | cons a pre ih =>
    cases as with
    | nil => exact absurd (prefix_nil.mp hpre) (cons_ne_nil _ _)
    | cons b as =>
      obtain ⟨rfl, htail⟩ := cons_prefix_cons.mp hpre
      exact ih (hstep s a hP hrun.1) hrun.2 htail

/-- A run whose every state is good is one whose every step meets the condition that keeps a state
good. -/
theorem guarded_iff (hstep : ∀ s a, P s → (P (step s a) ↔ guard s a)) (hP : P s) :
    (∀ pre, pre <+: as → P (pre.foldl step s)) ↔ Guarded step guard s as := by
  refine ⟨fun h => ?_, fun hrun pre hpre => hrun.invariant (fun t a ht => (hstep t a ht).2) hP hpre⟩
  induction as generalizing s with
  | nil => trivial
  | cons a as ih =>
    have hnext : P (step s a) := h [a] (cons_prefix_cons.2 ⟨rfl, nil_prefix⟩)
    refine ⟨(hstep s a hP).1 hnext, ih hnext fun pre hpre => ?_⟩
    exact h (a :: pre) (cons_prefix_cons.2 ⟨rfl, hpre⟩)

/-- Two conditions that agree where an invariant holds are met by the same runs, if the first one
keeps it. -/
theorem guarded_congr {guard' : σ → α → Prop}
    (hstep : ∀ a ∈ as, ∀ s, P s → (guard s a ↔ guard' s a))
    (hkeep : ∀ s a, P s → guard s a → P (step s a)) (hP : P s) :
    Guarded step guard s as ↔ Guarded step guard' s as := by
  induction as generalizing s with
  | nil => exact Iff.rfl
  | cons a as ih =>
    obtain ⟨hfirst, hrest⟩ := forall_mem_cons.1 hstep
    rw [Guarded, Guarded, ← hfirst s hP]
    exact and_congr_right fun ha => ih hrest (hkeep s a hP ha)

/-- Every step of a guarded run meets the condition in the state it is made in. -/
theorem Guarded.guard_at (hrun : Guarded step guard s as) (hpre : pre ++ [a] <+: as) :
    guard (pre.foldl step s) a := by
  induction pre generalizing s as with
  | nil =>
    cases as with
    | nil => exact absurd (prefix_nil.mp hpre) (cons_ne_nil _ _)
    | cons b as =>
      obtain ⟨rfl, -⟩ := cons_prefix_cons.mp hpre
      exact hrun.1
  | cons c pre ih =>
    cases as with
    | nil => exact absurd (prefix_nil.mp hpre) (cons_ne_nil _ _)
    | cons b as =>
      obtain ⟨rfl, htail⟩ := cons_prefix_cons.mp hpre
      exact ih hrun.2 htail

end FStack.Lib.Run
