import FStack.Adapter.WaitOnce

/-!
# The syscall adapter, semaphore mode: events and wake-ups

The events that the loop takes out of the kqueue for a request are in the context until its hook
reads `result`, and the post that goes with them is in the semaphore until the hook takes it. Both
are lost to the call if its wait has ended without the credit by then: the hook returns 0 over a
`result` that counts events, and leaves a credit on which the next wait of the context ends at once
(`not_delivered`). An alarm adds a second post for the same call.

`Delivered` is what a caller may rely on. It holds in every run in which the loop and the alarm post
to a hook that is still in its wait and has no credit yet (`delivered_of_timely`); `Fair` is the
invariant behind it.
-/

namespace FStack.Adapter.Wait

open Function List FStack.Lib FStack.Adapter.Semaphore

variable {κ : Type} {s : State κ} {sc : Context} {l : Log κ} {r : Request κ} {e : End} {ret : Int}
  {a : Nat} {act : Act κ}

/-- Events go to the call they were taken for, and no post outlives it. -/
structure Delivered (s : State κ) : Prop where
  returned : ∀ d ∈ s.done, d.log.batches = [] ∨ d.log.batches = [d.value]
  called : s.stray = []
  sem : ∀ d ∈ s.done, d.sem = 0
  idle : s.sc.status = .idle → s.sc.waitSem = 0

/-- The thread is in its wait. -/
def Pc.isWaiting : Pc κ → Bool
  | .waiting _ => true
  | _ => false

/-- The thread of the context's request is in its wait, and nothing has been posted to it. -/
def Awaited (s : State κ) : Prop :=
  (s.pc s.sc.args).isWaiting = true ∧ s.sc.waitSem = 0

instance : Decidable (Awaited s) :=
  inferInstanceAs (Decidable (_ ∧ _))

/-- A post is made to a thread that is in its wait without a credit, and a wait that has a credit
does not end with an error. -/
def Timely (s : State κ) : Act κ → Prop
  | .handle found _ =>
    s.sc.status = .req → semFlagOf s (handlerResult s found) = true → Awaited s
  | .fail a => (s.pc a).isWaiting = true → s.sc.waitSem = 0
  | .alarm => s.needAlarm = true → Awaited s
  | _ => True

instance : (act : Act κ) → Decidable (Timely s act)
  | .handle found _ => inferInstanceAs
      (Decidable (s.sc.status = .req → semFlagOf s (handlerResult s found) = true → Awaited s))
  | .fail a => inferInstanceAs (Decidable ((s.pc a).isWaiting = true → s.sc.waitSem = 0))
  | .alarm => inferInstanceAs (Decidable (s.needAlarm = true → Awaited s))
  | .call .. | .submit .. | .wake .. | .expire .. | .finish .. => inferInstanceAs (Decidable True)

/-! ## What a thread is owed -/

/-- What the loop has done for the request `r` at the context is what the context says. -/
structure Told (sc : Context) (l : Log κ) (r : Request κ) : Prop where
  req : sc.status = .req → sc.result = 0 ∧ l.batches = []
  rep : sc.status = .rep → r.cut sc.result = sc.result ∧
    l.batches = if 0 < sc.result then [sc.result] else []

/-- The credit of a thread that waits is that of its answer or of an alarm, and a wait that ends
without one ends before the answer. -/
def Due (sc : Context) (l : Log κ) : Pc κ → Prop
  | .away => True
  | .begin _ => l.batches = []
  | .waiting r => sc.waitSem ≤ 1 ∧ (sc.status = .rep → sc.waitSem = 1) ∧ Told sc l r
  | .ended r e => sc.waitSem = 0 ∧ (e ≠ .credit → sc.status = .req) ∧ Told sc l r

/-- Events and posts that have not been returned yet are on their way to the call they are for. -/
structure Fair (s : State κ) : Prop where
  idle : s.sc.status = .idle → s.sc.waitSem = 0
  due : ∀ a, Due s.sc (s.log a) (s.pc a)
  returned : ∀ d ∈ s.done, d.log.batches = [] ∨ d.log.batches = [d.value]
  sem : ∀ d ∈ s.done, d.sem = 0

theorem fair_start (ops : SocketOps) (args : Nat) (result error : Int) :
    Fair (start ops args result error : State κ) where
  idle _ := rfl
  due _ := trivial
  returned d h := by cases h
  sem d h := by cases h

variable {p : Pc κ}

/-- The context is nothing to a thread that is not at it. -/
theorem Due.frame {sc' : Context} (h : Due sc l p) (hp : p.engaged = none) : Due sc' l p := by
  cases p with
  | away => trivial
  | begin r => exact h
  | waiting r | ended r e => cases hp

theorem Told.batches_of_value (h : Told sc l r) (hbusy : sc.status ≠ .idle)
    (hend : e ≠ .credit → sc.status = .req) :
    l.batches = [] ∨ 0 < r.cut (valueOf sc e) ∧ l.batches = [r.cut (valueOf sc e)] := by
  cases hstatus : sc.status with
  | idle => exact absurd hstatus hbusy
  | req => exact .inl (h.req hstatus).2
  | rep =>
    obtain ⟨hcut, hbatches⟩ := h.rep hstatus
    cases e with
    | credit =>
      by_cases hpos : 0 < sc.result
      · exact .inr (by simpa [valueOf, hcut, hpos] using hbatches)
      · exact .inl (by simpa [hpos] using hbatches)
    | timeout | error => exact absurd (hend (by simp)) (by simp [hstatus])

theorem Request.not_retries_of_pos (h : 0 < ret) : r.retries ret = false := by
  cases r with
  | epollWait _ _ => simp [Request.retries, Int.ne_of_gt h]
  | kevent _ _ _ => rfl

/-- The handler does not return more than the hook has room for. -/
theorem Held.cut_handlerResult (h : Held s) (hr : (s.pc s.sc.args).engaged = some r) (found : Int) :
    r.cut (handlerResult s found) = handlerResult s found := by
  have hops := (h.owner _ r hr).2.1
  cases r with
  | kevent changes nevents forever => rfl
  | epollWait maxevents timeout =>
    have hargs := h.posed _ maxevents timeout (request_of_engaged hr)
    have hresult : handlerResult s found = epollResult ⟨maxevents, timeout⟩ found := by
      rw [← hargs]
      exact if_pos hops
    rw [hresult]
    simp only [Request.cut, epollResult]
    split_ifs <;> omega

/-- A request that is not answered has found no event. -/
theorem Held.result_of_semFlag (h : Held s) (hreq : s.sc.status = .req)
    (hflag : semFlagOf s ret = false) : ret = 0 := by
  obtain ⟨r, -, hops⟩ := h.engaged (by simp [hreq])
  cases r with
  | epollWait maxevents timeout =>
    have hops : s.sc.ops = .epollWait := hops
    simp only [semFlagOf, hops, semFlagAfter, semFlagEpollWait] at hflag
    by_contra hne
    simp [hne] at hflag
  | kevent changes nevents forever =>
    have hops : s.sc.ops = .kevent := hops
    simp only [semFlagOf, hops, semFlagAfter, semFlagKevent] at hflag
    by_contra hne
    simp [hne] at hflag

/-! ## A step -/

theorem Log.batches_append (l : Log κ) (given : List κ) (ret : Int) :
    ({ l with given := given, rounds := l.rounds ++ [ret] } : Log κ).batches =
      l.batches ++ if 0 < ret then [ret] else [] := by
  unfold Log.batches
  by_cases hpos : 0 < ret <;> simp [hpos]

theorem fair_called (h : Fair s) (r : Request κ) : Fair { s.fill a r with
      pc := update s.pc a (.begin r)
      log := update s.log a ⟨r.changes, [], []⟩ } := by
  have hsc : (s.fill a r).sc = s.sc := by cases r <;> rfl
  have hdone : (s.fill a r).done = s.done := by cases r <;> rfl
  refine ⟨hsc ▸ h.idle, ?_, hdone ▸ h.returned, hdone ▸ h.sem⟩
  rw [hsc]
  refine (forall_update_iff s.pc fun b =>
    Due s.sc (update s.log a ⟨r.changes, [], []⟩ b)).2 ⟨?_, fun b hb => ?_⟩
  · rw [update_self]
    rfl
  · rw [update_of_ne hb]
    exact h.due b

theorem fair_submitted (h : Fair s) (hheld : Held s) (hp : s.pc a = .begin r)
    (hidle : s.sc.status = .idle) (need : Bool) : Fair { s with
      sc :=
        { s.sc with
          ops := r.ops
          args := a
          status := .req
          result := 0
          error := 0 }
      needAlarm := need
      pc := update s.pc a (.waiting r) } where
  __ := h
  idle h := by cases h
  due := by
    refine (forall_update_iff s.pc fun b => Due _ (s.log b)).2
      ⟨⟨?_, ?_, ?_, ?_⟩, fun b _ => (h.due b).frame (hheld.nobody hidle b)⟩
    · simp [h.idle hidle]
    · rintro ⟨⟩
    · have : Due s.sc (s.log a) (.begin r) := hp ▸ h.due a
      exact fun _ => ⟨rfl, this⟩
    · rintro ⟨⟩

theorem Due.answered (h : Due sc l (.waiting r)) (hreq : sc.status = .req) (hsem : sc.waitSem = 0)
    (hcut : r.cut ret = ret) (err : Int) (given : List κ) :
    Due { sc with result := ret, error := err, status := .rep, waitSem := sc.waitSem + 1 }
      { l with given := given, rounds := l.rounds ++ [ret] } (.waiting r) := by
  refine ⟨by simp [hsem], fun _ => by simp [hsem], ⟨by rintro ⟨⟩, fun _ => ⟨hcut, ?_⟩⟩⟩
  rw [Log.batches_append, (h.2.2.req hreq).2, nil_append]

theorem Told.unanswered (h : Told sc l r) (hreq : sc.status = .req) (err : Int) (given : List κ) :
    Told { sc with result := 0, error := err }
      { l with given := given, rounds := l.rounds ++ [0] } r where
  req _ := ⟨rfl, by simpa [Log.batches_append] using (h.req hreq).2⟩
  rep hrep := absurd (hreq.symm.trans hrep) (by simp)

theorem Due.unanswered (h : Due sc l p) (hreq : sc.status = .req) (err : Int) (given : List κ) :
    Due { sc with result := 0, error := err }
      { l with given := given, rounds := l.rounds ++ [0] } p := by
  cases p with
  | away => trivial
  | begin r =>
    have h : l.batches = [] := h
    exact (Log.batches_append l given 0).trans (by simp [h])
  | waiting r | ended r e => exact ⟨h.1, h.2.1, h.2.2.unanswered hreq err given⟩

section

variable (h : Fair s)

include h

variable (hheld : Held s)

include hheld

theorem fair_handled (hreq : Handles s.sc) (found err : Int)
    (htimely : Timely s (.handle found err)) : Fair (handled s found err) := by
  have hbusy : s.sc.status ≠ .idle := by simp [hreq.2]
  obtain ⟨r, hr, hops⟩ := hheld.engaged hbusy
  have hsc := reply_of_held hheld hreq found err
  refine ⟨fun hidle => ?_, fun b => ?_, h.returned, h.sem⟩
  · rw [hsc] at hidle
    split at hidle
    · cases hidle
    · exact absurd hidle hbusy
  by_cases hb : b = s.sc.args
  · subst hb
    have hlog : (handled s found err).log s.sc.args = _ := update_self _ _ _
    have hpc : (handled s found err).pc = s.pc := rfl
    have hdue := h.due s.sc.args
    rw [hlog, hsc, hpc]
    cases hflag : semFlagOf s (handlerResult s found) with
    | true =>
      obtain ⟨hwaiting, hsem⟩ := htimely hreq.2 hflag
      have hcut := hheld.cut_handlerResult hr found
      cases hp : s.pc s.sc.args with
      | waiting q =>
        rw [hp] at hdue hr
        cases hr
        exact hdue.answered hreq.2 hsem hcut err _
      | _ => simp [hp, Pc.isWaiting] at hwaiting
    | false =>
      rw [hheld.result_of_semFlag hreq.2 hflag]
      exact hdue.unanswered hreq.2 err _
  · have hlog : (handled s found err).log b = s.log b := update_of_ne hb _ _
    rw [hlog]
    exact (h.due b).frame (hheld.only hr hb)

/-- There is no answer yet for a thread that waits without a credit. -/
theorem Fair.req_of_waiting (hp : s.pc a = .waiting r)
    (hsem : s.sc.waitSem = 0) : s.sc.status = .req := by
  have hdue : Due s.sc (s.log a) (.waiting r) := hp ▸ h.due a
  cases hstatus : s.sc.status with
  | req => rfl
  | rep => exact absurd (hdue.2.1 hstatus) (by simp [hsem])
  | idle => exact absurd hstatus (hheld.owner a r (by rw [hp]; rfl)).2.2

/-- What a thread finds after its wait. -/
theorem Fair.ended (hp : s.pc a = .ended r e) :
    s.sc.waitSem = 0 ∧ ((s.log a).batches = [] ∨
      0 < r.cut (valueOf s.sc e) ∧ (s.log a).batches = [r.cut (valueOf s.sc e)]) := by
  have hdue : Due s.sc (s.log a) (.ended r e) := hp ▸ h.due a
  have hbusy := (hheld.owner a r (by rw [hp]; rfl)).2.2
  exact ⟨hdue.1, hdue.2.2.batches_of_value hbusy hdue.2.1⟩

/-- A thread's wait ends, with the credit or before the answer. -/
theorem fair_ended (hp : s.pc a = .waiting r)
    (hend : e ≠ .credit → s.sc.status = .req) : Fair { s with
      sc := { s.sc with waitSem := 0 }
      pc := update s.pc a (.ended r e) } where
  __ := h
  idle hidle := absurd hidle (hheld.owner a r (by rw [hp]; rfl)).2.2
  due := by
    have hothers : ∀ b, b ≠ a → (s.pc b).engaged = none :=
      fun b hb => hheld.only (by rw [hp]; rfl) hb
    have hdue : Due s.sc (s.log a) (.waiting r) := hp ▸ h.due a
    exact (forall_update_iff s.pc fun b => Due _ (s.log b)).2
      ⟨⟨rfl, hend, hdue.2.2.req, hdue.2.2.rep⟩, fun b hb => (h.due b).frame (hothers b hb)⟩

theorem fair_freed (hp : s.pc a = .ended r e)
    (hdue : Due { s.sc with status := .idle } (s.log a) p) (need : Bool) {done : List (Done κ)}
    (hreturned : ∀ d ∈ done, d.log.batches = [] ∨ d.log.batches = [d.value])
    (hsem : ∀ d ∈ done, d.sem = 0) : Fair { s with
      sc := { s.sc with status := .idle }
      needAlarm := need
      pc := update s.pc a p
      done := done } where
  idle _ := by
    have : Due s.sc (s.log a) (.ended r e) := hp ▸ h.due a
    exact this.1
  due := (forall_update_iff s.pc fun b => Due _ (s.log b)).2
    ⟨hdue, fun b hb => (h.due b).frame (hheld.only (by rw [hp]; rfl) hb)⟩
  returned := hreturned
  sem := hsem

theorem fair_alarmed (ha : Awaited s) :
    Fair { s with
      sc := { s.sc with waitSem := s.sc.waitSem + 1 }
      needAlarm := false } := by
  obtain ⟨hwaiting, hsem⟩ := ha
  cases hp : s.pc s.sc.args with
  | waiting r =>
    have hr : (s.pc s.sc.args).engaged = some r := by rw [hp]; rfl
    refine ⟨fun hidle => absurd hidle (hheld.owner _ r hr).2.2, fun b => ?_, h.returned, h.sem⟩
    by_cases hb : b = s.sc.args
    · subst hb
      have hdue := h.due s.sc.args
      rw [hp] at hdue
      simp only [hp]
      exact ⟨by simp [hsem], fun _ => by simp [hsem], hdue.2.2.req, hdue.2.2.rep⟩
    · exact (h.due b).frame (hheld.only hr hb)
  | _ => simp [hp, Pc.isWaiting] at hwaiting

end

theorem fair_change {s' : State κ} (h : Fair s) (hheld : Held s) (hc : Change s act s')
    (ht : Timely s act) : Fair s' := by
  cases hc with
  | call hp => exact fair_called h _
  | submit hp hidle => exact fair_submitted h hheld hp hidle _
  | handle hreq => exact fair_handled h hheld hreq _ _ ht
  | @wake a r hp hsem =>
    have hdue : Due s.sc (s.log a) (.waiting r) := hp ▸ h.due a
    have hlast : s.sc.waitSem - 1 = 0 := Nat.sub_eq_zero_of_le hdue.1
    rw [hlast]
    exact fair_ended h hheld hp fun hne => absurd rfl hne
  | @expire a r hp hsem =>
    have := fair_ended h hheld hp fun _ : End.timeout ≠ .credit => h.req_of_waiting hheld hp hsem
    rwa [← hsem] at this
  | @fail a r hp =>
    have hsem : s.sc.waitSem = 0 := ht (by rw [hp]; rfl)
    have := fair_ended h hheld hp fun _ : End.error ≠ .credit => h.req_of_waiting hheld hp hsem
    rwa [← hsem] at this
  | @again a r e hp hretry =>
    obtain ⟨hsem, hbatches⟩ := h.ended hheld hp
    refine fair_freed h hheld hp ?_ _ h.returned h.sem
    refine hbatches.resolve_right fun hpos => ?_
    rw [Request.not_retries_of_pos hpos.1] at hretry
    cases hretry
  | @leave a r e hp =>
    obtain ⟨hsem, hbatches⟩ := h.ended hheld hp
    refine fair_freed h hheld hp (by trivial) _ (fun d hd => ?_) fun d hd => ?_
    · rcases mem_append.1 hd with hd | hd
      · exact h.returned d hd
      · rw [mem_singleton.1 hd]
        exact hbatches.imp_right And.right
    · rcases mem_append.1 hd with hd | hd
      · exact h.sem d hd
      · rw [mem_singleton.1 hd]
        exact hsem
  | alarm hneed => exact fair_alarmed h hheld (ht hneed)

/-! ## A run -/

theorem fair_step (h : Held s ∧ Fair s) (ht : Timely s act) :
    Held (step s act) ∧ Fair (step s act) := by
  refine ⟨held_step h.1 act, ?_⟩
  obtain hstep | hstep := step_cases s act
  · rw [hstep]
    exact h.2
  · exact fair_change h.2 h.1 hstep ht

/-- In a run of timely steps, events go to the calls they were taken for and no post is left
over. -/
theorem delivered_of_timely (ops : SocketOps) (args : Nat) (result error : Int)
    (acts : List (Act κ)) (hrun : Run.Guarded step Timely (start ops args result error) acts)
    {pre : List (Act κ)} (hpre : pre <+: acts) :
    Delivered (pre.foldl step (start ops args result error)) := by
  obtain ⟨hheld, hfair⟩ := Run.Guarded.invariant (P := fun s => Held s ∧ Fair s)
    (fun s act h ht => fair_step h ht)
    ⟨held_start ops args result error, fair_start ops args result error⟩ hrun hpre
  exact ⟨hfair.returned, hheld.stray, hfair.sem, hfair.idle⟩

/-- An `epoll_wait` that times out, one that gets its events after an alarm, and a `kevent`. -/
def timelyRun : List (Act Nat) :=
  [.call 0 (.epollWait 8 100), .submit 0, .expire 0, .finish 0,
    .call 1 (.epollWait 8 0), .submit 1, .handle 0 0, .alarm, .wake 1, .finish 1,
    .submit 1, .handle 3 0, .wake 1, .finish 1,
    .call 0 (.kevent [7] 4 false), .submit 0, .handle 2 0, .wake 0, .finish 0]

theorem delivered_timelyRun :
    Run.Guarded step Timely (start .socket 0 0 0) timelyRun ∧
      Delivered (timelyRun.foldl step (start .socket 0 0 0)) :=
  have hrun : Run.Guarded step Timely (start .socket 0 0 0) timelyRun := by decide
  ⟨hrun, delivered_of_timely .socket 0 0 0 timelyRun hrun (prefix_refl _)⟩

/-- The deadline passes, the loop takes three events and posts, and only then does the hook lock the
context: it returns 0 and leaves the credit. With an alarm beside the answer the events are returned
and a credit is left. -/
theorem not_delivered :
    ¬ Delivered ([.call 0 (.epollWait 8 100), .submit 0, .expire 0, .handle 3 0,
        .finish 0].foldl step (start .socket 0 0 0 : State Nat)) ∧
      ¬ Delivered ([.call 0 (.epollWait 8 0), .submit 0, .alarm, .handle 3 0, .wake 0,
        .finish 0].foldl step (start .socket 0 0 0 : State Nat)) := by
  constructor
  · intro h
    have hlost := h.returned ⟨0, 0, 1, ⟨[], [], [3]⟩⟩ (mem_singleton.2 rfl)
    revert hlost
    decide
  · intro h
    have hleft := h.sem ⟨0, 3, 1, ⟨[], [], [3]⟩⟩ (mem_singleton.2 rfl)
    cases hleft

end FStack.Adapter.Wait
