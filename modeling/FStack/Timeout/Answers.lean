import FStack.Timeout.Exact

/-!
# What the calls answer

`softclock_call_cc` notes the callout it runs in the second `cc_exec_entity`. `callout_stop` looks
it up by `CALLOUT_DIRECT`, `callout_reset` by `C_DIRECT_EXEC` (`cc_exec_curr(cc, direct) == c`), so
that one without the flag does not seem to run.
-/

namespace FStack.Timeout

open Function FStack.Lib

variable {κ φ : Type} [DecidableEq κ]

/-- A state that calls are made in, and the callout whose function runs. Callbacks do what they
like. -/
inductive Moment (k : Nat) (lock : κ → Bool) : Option κ → Cc κ φ → Prop
  | start : Moment k lock none (init lock)
  | call {r s} (op : Op κ φ) : Moment k lock r s → Moment k lock r (runOp k s op)
  /-- A tick, a pass, or a look at an entry. -/
  | clock {s} (ticks softticks : Tick) (log : List (Event κ φ)) :
    Moment k lock none s → Moment k lock none { s with ticks, softticks, log }
  | enter {s} (u : Nat) (c : κ) : Moment k lock none s → Moment k lock (some c) (fire k u s c)
  | leave {c s} : Moment k lock (some c) s → Moment k lock none { s with
      exec := update s.exec true { s.exec true with curr := none, waiting := false }
      next := none }

variable {k : Nat} {lock : κ → Bool} {r : Option κ} {s s' : Cc κ φ} {env : Env κ φ} {fuel : Nat}

theorem Moment.scanStep (t : Tick) (p : Option κ) (h : Moment k lock none s) :
    Moment k lock none (scanStep k env t s p).1 := by
  obtain ⟨u, rfl⟩ : ∃ u, t = BitVec.ofNat 32 u := ⟨t.toNat, by simp⟩
  cases p with
  | none => exact h
  | some c =>
    simp only [Timeout.scanStep]
    split
    · exact h.clock _ _ _
    · exact .leave (List.foldlRecOn _ (runOp k) (h.enter u c) fun _ hs op _ => hs.call op)

theorem Moment.softclock (h : Moment k lock none s) (hs : softclock k env fuel s = some s') :
    Moment k lock none s' :=
  Loop.whileLoop_keeps (fun _ s s' h hs => by
    obtain ⟨sp, hsp, rfl⟩ := Option.map_eq_some_iff.mp hs
    exact Loop.whileLoop_keeps (P := fun sp => Moment k lock none sp.1)
      (fun _ sp sp' h hsp => Option.some.inj hsp ▸ h.scanStep _ sp.2) (h.clock _ _ _) hsp) h hs

/-- Between the inputs of a run no function runs. -/
theorem Moment.run {is : List (Input κ φ)} (h : Moment k lock none s)
    (hs : run k env fuel s is = some s') : Moment k lock none s' := by
  induction is generalizing s with
  | nil => exact Option.some.inj hs ▸ h
  | cons i is ih =>
    obtain ⟨s₁, h₁, hs⟩ := Option.bind_eq_some_iff.mp hs
    refine ih ?_ hs
    cases i with
    | op op => exact Option.some.inj h₁ ▸ h.call op
    | hardclock =>
      obtain ⟨s₂, h₂, h₁⟩ := Option.bind_eq_some_iff.mp h₁
      have hm : Moment k lock none s₂ := Loop.whileLoop_keeps (fun _ s s' h hs =>
        Option.some.inj hs ▸ h.clock _ _ _) (h.clock _ _ _) h₂
      split at h₁
      · exact hm.softclock h₁
      · exact Option.some.inj h₁ ▸ hm

theorem runOp_curr (op : Op κ φ) (d : Bool) :
    ((runOp k s op).exec d).curr = (s.exec d).curr := by
  cases op with
  | reset c n f direct =>
    simp only [runOp, calloutReset]
    split
    · by_cases hd : d = direct <;> simp [hd, Cc.note]
    · split <;> by_cases hd : d = direct <;> simp [hd, Cc.note, calloutCcAdd, unlink]
  | stop c =>
    simp only [runOp, calloutStop]
    split
    · split
      · by_cases hd : d = (s.co c).direct <;> simp [hd, Cc.note]
      · split <;> rfl
    · split <;> rfl

theorem Moment.calm (h : Moment k lock r s) : Calm s ∧ (s.exec true).curr = r := by
  induction h with
  | start => exact ⟨⟨rfl, fun _ => rfl, nofun⟩, rfl⟩
  | call op _ ih =>
    refine ⟨?_, (runOp_curr op true).trans ih.2⟩
    cases op with
    | reset c n f direct =>
      obtain ⟨s', hn, heq⟩ := calloutReset_eq (k := k) ih.1 c n f direct
      exact (congrArg Calm heq).mpr ((hn.calm.drop c).congr rfl (lock_update rfl))
    | stop c =>
      obtain ⟨s', hn, heq⟩ := calloutStop_eq (k := k) ih.1 c
      exact (congrArg Calm heq).mpr (hn.calm.drop c)
  | clock _ _ _ _ ih => exact ⟨ih.1.congr rfl fun _ => rfl, ih.2⟩
  | enter u c _ ih => exact ⟨ih.1.fire, by simp [fire]⟩
  | leave _ ih => exact ⟨ih.1.leave, by simp⟩

/-- **What the calls answer.** `callout_stop` always leaves the callout not pending, and
`callout_reset` says whether it was. What `callout_stop` returns is right, and `callout_reset` sees
whether the function runs, exactly if a callout whose function runs has the flag. -/
theorem answers_iff (k : Nat) (lock : κ → Bool) :
    (∀ (env : Env κ φ) fuel is s, run k env fuel (init lock) is = some s → Moment k lock none s) ∧
    ∀ r (s : Cc κ φ), Moment k lock r s → ∀ c,
      ((calloutStop k s c).1.co c).pending = false ∧
      ((calloutStop k s c).2 = (if r = some c then 0 else if (s.co c).pending then 1 else -1) ↔
        (r = some c → (s.co c).direct = true)) ∧
      ∀ n f direct, (calloutReset k s c n f direct).2 = (s.co c).pending ∧
        (((s.exec direct).curr = some c ↔ r = some c) ↔ (r = some c → direct = true)) := by
  refine ⟨fun env fuel is s => .run .start, fun r s h c => ?_⟩
  obtain ⟨hcalm, rfl⟩ := h.calm
  refine ⟨?_, ?_, fun n f direct => ⟨?_, ?_⟩⟩
  · obtain ⟨s', -, heq⟩ := calloutStop_eq (k := k) hcalm c
    rw [heq]
    unfold drop
    split
    · simp [unlink]
    next hc => exact Bool.eq_false_iff.mpr hc
  · have hstop : (calloutStop k s c).2 = if (s.exec (s.co c).direct).curr = some c then 0
        else if (s.co c).pending then 1 else -1 := by
      simp only [calloutStop, Cc.note, update_self]
      split
      next hc =>
        rw [if_neg (by simp [hcalm.cancels hc])]
        split <;> rfl
      · exact apply_ite Prod.snd _ _ _
    rw [hstop]
    cases (s.co c).direct <;> cases (s.co c).pending <;> simp [hcalm.idle]
  · simp only [calloutReset, Cc.note]
    by_cases hc : (s.exec direct).curr = some c
    · simp [hc, hcalm.cancels hc, hcalm.waiting]
    · simp [hc]
  · cases direct <;> simp [hcalm.idle, eq_comm]

/-- A callout is armed for one tick and its function runs in the second; it stops itself and is told
that it neither was pending nor runs. -/
theorem not_answers : ∃ s s' : Cc Nat Nat, Moment 1 (fun _ => false) (some 0) s ∧
    run 1 (fun _ _ => [.stop 0]) 9 (init fun _ => false)
      [.op (.reset 0 1 0 false), .hardclock, .hardclock] = some s' ∧
    s'.log = s.log ++ [.stopped 0] ∧ (calloutStop 1 s 0).2 = -1 :=
  ⟨_, _, .enter 1 0 (.clock 2 2 [.armed 0 1 0, .clock, .clock, .pass 1]
    (.call (.reset 0 1 0 false) .start)), rfl, rfl, rfl⟩

end FStack.Timeout
