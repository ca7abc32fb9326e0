import FStack.Adapter.Wait
import FStack.Lib.Run

/-!
# The syscall adapter, semaphore mode: the thread at the context

`Change` is what a step of `Wait.lean` can do. `Held` is what it keeps, with nothing assumed about
the order of the steps: at most one thread has a request at the context, its arguments are the ones
it was called with, and the changes of its call are given to `ff_kevent` in the first handler run
and not in a later one. So no request is handled after its call has returned (`Held.stray`), and a
call's changes have been given to `ff_kevent` once when it returns, or not at all (`Settled`).
-/

namespace FStack.Adapter.Wait

open Function List FStack.Lib FStack.Adapter.Semaphore

variable {κ : Type} {l : Log κ} {r : Request κ} {p : Pc κ} {s : State κ} {a : Nat}

/-! ## What a step does -/

/-- The state after a handler run. -/
def handled (s : State κ) (found err : Int) : State κ :=
  { s with
    sc := reply false (semFlagOf s (handlerResult s found))
      { s.sc with result := handlerResult s found, error := err }
    changes := changesAfter s
    log := update s.log s.sc.args
      { s.log s.sc.args with
        given := (s.log s.sc.args).given ++ changesGiven s
        rounds := (s.log s.sc.args).rounds ++ [handlerResult s found] }
    stray := if (s.pc s.sc.args).engaged.isNone then s.stray ++ [s.sc.args] else s.stray }

/-- A step that changes something. -/
inductive Change (s : State κ) : Act κ → State κ → Prop where
  | call {a : Nat} {r : Request κ} (hp : s.pc a = .away) :
    Change s (.call a r)
      { s.fill a r with
        pc := update s.pc a (.begin r)
        log := update s.log a ⟨r.changes, [], []⟩ }
  | submit {a : Nat} {r : Request κ} (hp : s.pc a = .begin r) (hidle : s.sc.status = .idle) :
    Change s (.submit a)
      { s with
        sc :=
          { s.sc with
            ops := r.ops
            args := a
            status := .req
            result := 0
            error := 0 }
        needAlarm := if r.untimed then true else s.needAlarm
        pc := update s.pc a (.waiting r) }
  | handle {found err : Int} (hreq : Handles s.sc) :
    Change s (.handle found err) (handled s found err)
  | wake {a : Nat} {r : Request κ} (hp : s.pc a = .waiting r) (hsem : 0 < s.sc.waitSem) :
    Change s (.wake a)
      { s with
        sc := { s.sc with waitSem := s.sc.waitSem - 1 }
        pc := update s.pc a (.ended r .credit) }
  | expire {a : Nat} {r : Request κ} (hp : s.pc a = .waiting r) (hsem : s.sc.waitSem = 0) :
    Change s (.expire a) { s with pc := update s.pc a (.ended r .timeout) }
  | fail {a : Nat} {r : Request κ} (hp : s.pc a = .waiting r) :
    Change s (.fail a) { s with pc := update s.pc a (.ended r .error) }
  | again {a : Nat} {r : Request κ} {e : End} (hp : s.pc a = .ended r e)
    (hretry : r.retries (r.cut (valueOf s.sc e)) = true) :
    Change s (.finish a)
      { s with
        sc := { s.sc with status := .idle }
        needAlarm := if r.untimed then false else s.needAlarm
        pc := update s.pc a (.begin r) }
  | leave {a : Nat} {r : Request κ} {e : End} (hp : s.pc a = .ended r e) :
    Change s (.finish a)
      { s with
        sc := { s.sc with status := .idle }
        needAlarm := if r.untimed then false else s.needAlarm
        pc := update s.pc a .away
        done := s.done ++ [⟨a, r.cut (valueOf s.sc e), s.sc.waitSem, s.log a⟩] }
  | alarm (hneed : s.needAlarm = true) :
    Change s .alarm
      { s with
        sc := { s.sc with waitSem := s.sc.waitSem + 1 }
        needAlarm := false }

theorem step_cases (s : State κ) (act : Act κ) : step s act = s ∨ Change s act (step s act) := by
  cases act with
  | call a r =>
    cases hp : s.pc a with
    | away => exact .inr (by simpa [step, hp] using Change.call hp)
    | _ => exact .inl (by simp [step, hp])
  | submit a =>
    cases hp : s.pc a with
    | begin r =>
      by_cases hidle : s.sc.locked = false ∧ s.sc.status = .idle
      · exact .inr (by simpa [step, hp, hidle] using Change.submit hp hidle.2)
      · exact .inl (by simp [step, hp, hidle])
    | _ => exact .inl (by simp [step, hp])
  | handle found err =>
    by_cases hreq : s.sc.locked = false ∧ s.sc.status = .req
    · refine .inr ?_
      have hstep : step s (.handle found err) = handled s found err := by
        simp [step, handle, handled, hreq, ffHandleSocketOps]
      rw [hstep]
      exact .handle hreq
    · exact .inl (by simp [step, handle, hreq])
  | wake a =>
    cases hp : s.pc a with
    | waiting r =>
      by_cases hsem : 0 < s.sc.waitSem
      · exact .inr (by simpa [step, hp, hsem] using Change.wake hp hsem)
      · exact .inl (by simp [step, hp, hsem])
    | _ => exact .inl (by simp [step, hp])
  | expire a =>
    cases hp : s.pc a with
    | waiting r =>
      by_cases hsem : r.untimed = false ∧ s.sc.waitSem = 0
      · exact .inr (by simpa [step, hp, hsem] using Change.expire hp hsem.2)
      · exact .inl (by simp [step, hp, hsem])
    | _ => exact .inl (by simp [step, hp])
  | fail a =>
    cases hp : s.pc a with
    | waiting r => exact .inr (by simpa [step, hp] using Change.fail hp)
    | _ => exact .inl (by simp [step, hp])
  | finish a =>
    cases hp : s.pc a with
    | ended r e =>
      by_cases hretry : r.retries (r.cut (valueOf s.sc e)) = true
      · exact .inr (by simpa [step, hp, finish, hretry] using Change.again hp hretry)
      · exact .inr (by simpa [step, hp, finish, hretry] using Change.leave hp)
    | _ => exact .inl (by simp [step, hp])
  | alarm =>
    by_cases hneed : s.needAlarm = true
    · exact .inr (by simpa [step, hneed] using Change.alarm hneed)
    · exact .inl (by simp [step, hneed])

/-! ## The request at the context -/

/-- A thread's changes that are still to be given to `ff_kevent`. -/
def remaining (changes : List κ) : Request κ → List κ
  | .epollWait _ _ => []
  | .kevent _ _ _ => changes

/-- The changes of a call: its first handler run is given all of them, and the later ones none. -/
structure Account (l : Log κ) (left : List κ) (r : Request κ) : Prop where
  changes : l.changes = r.changes
  given : l.given ++ left = l.changes
  cleared : l.rounds ≠ [] → left = []

/-- What is left of an account when the call returns. -/
structure Settled (l : Log κ) : Prop where
  atMost : l.given <+: l.changes
  given : l.rounds ≠ [] → l.given = l.changes

theorem Account.settled {left : List κ} (h : Account l left r) : Settled l where
  atMost := h.given ▸ prefix_append l.given left
  given hrounds := by rw [← h.given, h.cleared hrounds, append_nil]

/-- A thread that is at the context is the one that the context is for. -/
def Owner (sc : Context) (a : Nat) (p : Pc κ) : Prop :=
  ∀ r, p.engaged = some r → sc.args = a ∧ sc.ops = r.ops ∧ sc.status ≠ .idle

/-- The account of the call that a thread is in. -/
def Booked (l : Log κ) (changes : List κ) (p : Pc κ) : Prop :=
  ∀ r, p.request = some r → Account l (remaining changes r) r

/-- The arguments of a thread in `epoll_wait` are those of its call. -/
def Posed (e : EpollWaitArgs) (p : Pc κ) : Prop :=
  ∀ maxevents timeout, p.request = some (.epollWait maxevents timeout) → e = ⟨maxevents, timeout⟩

/-- One thread has a request at the context, or none. -/
structure Held (s : State κ) : Prop where
  unlocked : s.sc.locked = false
  owner : ∀ a, Owner s.sc a (s.pc a)
  busy : s.sc.status ≠ .idle → (s.pc s.sc.args).engaged ≠ none
  posed : ∀ a, Posed (s.epollArgs a) (s.pc a)
  account : ∀ a, Booked (s.log a) (s.changes a) (s.pc a)
  done : ∀ d ∈ s.done, Settled d.log
  stray : s.stray = []

theorem request_of_engaged (h : p.engaged = some r) : p.request = some r := by
  cases p <;> first | exact h | cases h

theorem held_start (ops : SocketOps) (args : Nat) (result error : Int) :
    Held (start ops args result error : State κ) where
  unlocked := rfl
  owner a r h := by cases h
  busy h := absurd rfl h
  posed a _ _ h := by cases h
  account a r h := by cases h
  done d h := by cases h
  stray := rfl

/-- Thread `a` has the request `r` at the context. -/
theorem Held.engaged (h : Held s) (hreq : s.sc.status ≠ .idle) :
    ∃ r, (s.pc s.sc.args).engaged = some r ∧ s.sc.ops = r.ops := by
  obtain ⟨r, hr⟩ := Option.ne_none_iff_exists'.1 (h.busy hreq)
  exact ⟨r, hr, (h.owner _ r hr).2.1⟩

theorem Held.nobody (h : Held s) (hidle : s.sc.status = .idle) (a : Nat) :
    (s.pc a).engaged = none := by
  cases hr : (s.pc a).engaged with
  | none => rfl
  | some r => exact absurd hidle (h.owner a r hr).2.2

theorem reply_wait (flag : Bool) {sc : Context} (hops : sc.ops = .epollWait ∨ sc.ops = .kevent) :
    reply false flag sc =
      if flag then { sc with status := .rep, waitSem := sc.waitSem + 1 } else sc := by
  simp [reply, hops]

theorem Request.ops_wait (r : Request κ) : r.ops = .epollWait ∨ r.ops = .kevent := by
  cases r with
  | epollWait _ _ => exact .inl rfl
  | kevent _ _ _ => exact .inr rfl

/-- What a handler run makes of the account of its request. -/
theorem Account.handled (h : Account l (remaining (s.changes s.sc.args) r) r)
    (hops : s.sc.ops = r.ops) (ret : Int) : Account
      { l with
        given := l.given ++ changesGiven s
        rounds := l.rounds ++ [ret] }
      (remaining (changesAfter s s.sc.args) r) r := by
  refine ⟨h.changes, ?_, fun _ => ?_⟩
  · cases r with
    | epollWait maxevents timeout => simpa [changesGiven, hops, Request.ops, remaining] using h.given
    | kevent changes nevents forever =>
      have hk : s.sc.ops = .kevent := hops
      simpa [changesGiven, changesAfter, hk, remaining] using h.given
  · cases r with
    | epollWait maxevents timeout => rfl
    | kevent changes nevents forever =>
      have hk : s.sc.ops = .kevent := hops
      simp [changesAfter, hk, remaining]

theorem changesAfter_of_ne (s : State κ) (ha : a ≠ s.sc.args) : changesAfter s a = s.changes a := by
  unfold changesAfter
  split
  · exact update_of_ne ha _ _
  · rfl

theorem reply_of_held (h : Held s) (hreq : Handles s.sc) (found err : Int) :
    (handled s found err).sc =
      if semFlagOf s (handlerResult s found) then
        { s.sc with
          result := handlerResult s found
          error := err
          status := .rep
          waitSem := s.sc.waitSem + 1 }
      else { s.sc with result := handlerResult s found, error := err } := by
  obtain ⟨r, -, hops⟩ := h.engaged (by simp [hreq.2])
  exact reply_wait _ (by simpa [hops] using r.ops_wait)

theorem held_handled (h : Held s) (hreq : Handles s.sc) (found err : Int) :
    Held (handled s found err) := by
  have hbusy : s.sc.status ≠ .idle := by simp [hreq.2]
  obtain ⟨r, hr, hops⟩ := h.engaged hbusy
  have hsc := reply_of_held h hreq found err
  have hargs : (handled s found err).sc.args = s.sc.args := by
    rw [hsc]
    split <;> rfl
  have hops' : (handled s found err).sc.ops = s.sc.ops := by
    rw [hsc]
    split <;> rfl
  have hstatus : (handled s found err).sc.status ≠ .idle := by
    rw [hsc]
    split
    · simp
    · exact hbusy
  refine ⟨?_, ?_, ?_, h.posed, ?_, h.done, ?_⟩
  · rw [hsc]
    split <;> exact h.unlocked
  · intro b q hq
    obtain ⟨hb, hbops, -⟩ := h.owner b q hq
    exact ⟨hargs.trans hb, hops'.trans hbops, hstatus⟩
  · intro _
    rw [hargs]
    exact h.busy hbusy
  · intro b q hq
    have hacc := h.account b q hq
    by_cases hb : b = s.sc.args
    · subst hb
      have hq' : q = r := Option.some.inj (hq.symm.trans (request_of_engaged hr))
      subst hq'
      simpa [handled] using hacc.handled hops (handlerResult s found)
    · simpa [handled, hb, changesAfter_of_ne s hb] using hacc
  · simp [handled, hr, h.stray]

section Request

variable (hrequest : ∀ q, p.request = some q → (s.pc a).request = some q)

include hrequest

/-- A thread goes on with the request it has. -/
theorem Held.posed_update (h : Held s) (b : Nat) : Posed (s.epollArgs b) (update s.pc a p b) :=
  (forall_update_iff s.pc fun b => Posed (s.epollArgs b)).2
    ⟨fun n t hq => h.posed a n t (hrequest _ hq), fun b _ => h.posed b⟩ b

theorem Held.account_update (h : Held s) (b : Nat) :
    Booked (s.log b) (s.changes b) (update s.pc a p b) :=
  (forall_update_iff s.pc fun b => Booked (s.log b) (s.changes b)).2
    ⟨fun q hq => h.account a q (hrequest q hq), fun b _ => h.account b⟩ b

end Request

/-- A thread's wait ends. -/
theorem held_ended (h : Held s) (hp : s.pc a = .waiting r) (e : End) (n : Nat) : Held { s with
      sc := { s.sc with waitSem := n }
      pc := update s.pc a (.ended r e) } where
  __ := h
  owner := (forall_update_iff s.pc (Owner { s.sc with waitSem := n })).2
    ⟨fun q hq => h.owner a q (by rw [hp]; exact hq), fun b _ => h.owner b⟩
  busy hbusy := by
    have := h.busy hbusy
    by_cases ha : s.sc.args = a
    · simp [ha, Pc.engaged]
    · simpa [ha] using this
  posed := h.posed_update fun q hq => by rw [hp]; exact hq
  account := h.account_update fun q hq => by rw [hp]; exact hq

theorem Held.only (h : Held s) {b : Nat} (ha : (s.pc a).engaged = some r) (hb : b ≠ a) :
    (s.pc b).engaged = none := by
  cases hq : (s.pc b).engaged with
  | none => rfl
  | some q => exact absurd ((h.owner b q hq).1.symm.trans (h.owner a r ha).1) hb

/-- A thread gives the context back, and starts again or returns. -/
theorem held_freed (h : Held s) {e : End} (hp : s.pc a = .ended r e) (hengaged : p.engaged = none)
    (hrequest : ∀ q, p.request = some q → (s.pc a).request = some q) (need : Bool)
    (done : List (Done κ)) (hdone : ∀ d ∈ done, d ∈ s.done ∨ d.log = s.log a) : Held { s with
      sc := { s.sc with status := .idle }
      needAlarm := need
      pc := update s.pc a p
      done := done } where
  __ := h
  owner := by
    have heng : (s.pc a).engaged = some r := by rw [hp]; rfl
    refine (forall_update_iff s.pc (Owner _)).2
      ⟨fun q hq => ?_, fun b hb q hq => ?_⟩
    · rw [hengaged] at hq
      cases hq
    · rw [h.only heng hb] at hq
      cases hq
  busy hbusy := absurd rfl hbusy
  posed := h.posed_update hrequest
  account := h.account_update hrequest
  done d hd := by
    rcases hdone d hd with hd | hd
    · exact h.done d hd
    · rw [hd]
      exact (h.account a r (by rw [hp]; rfl)).settled

theorem held_called (h : Held s) (r : Request κ) (hp : s.pc a = .away) : Held { s.fill a r with
      pc := update s.pc a (.begin r)
      log := update s.log a ⟨r.changes, [], []⟩ } := by
  have hsc : (s.fill a r).sc = s.sc := by cases r <;> rfl
  have hdone : (s.fill a r).done = s.done := by cases r <;> rfl
  have hstray : (s.fill a r).stray = s.stray := by cases r <;> rfl
  have hchanges : ∀ b, b ≠ a → (s.fill a r).changes b = s.changes b := by
    intro b hb
    cases r with
    | epollWait _ _ => rfl
    | kevent _ _ _ => exact update_of_ne hb _ _
  have hgiven : remaining ((s.fill a r).changes a) r = r.changes := by
    cases r with
    | epollWait _ _ => rfl
    | kevent _ _ _ => exact update_self _ _ _
  refine ⟨hsc ▸ h.unlocked, ?_, fun hbusy => ?_, ?_, ?_, hdone ▸ h.done, hstray ▸ h.stray⟩
  · rw [hsc]
    exact (forall_update_iff s.pc (Owner s.sc)).2
      ⟨nofun, fun b _ => h.owner b⟩
  · have hne : s.sc.args ≠ a := by
      rintro rfl
      exact h.busy (hsc ▸ hbusy) (by rw [hp]; rfl)
    simpa [hsc, hne] using h.busy (hsc ▸ hbusy)
  · refine (forall_update_iff s.pc fun b => Posed ((s.fill a r).epollArgs b)).2
      ⟨fun n t hq => ?_, fun b hb => ?_⟩
    · cases hq
      exact update_self _ _ _
    · have hargs : (s.fill a r).epollArgs b = s.epollArgs b := by
        cases r with
        | epollWait _ _ => exact update_of_ne hb _ _
        | kevent _ _ _ => rfl
      rw [hargs]
      exact h.posed b
  · refine (forall_update_iff s.pc fun b => Booked
      (update s.log a ⟨r.changes, [], []⟩ b) ((s.fill a r).changes b)).2
      ⟨fun q hq => ?_, fun b hb => ?_⟩
    · cases hq
      simp only [update_self]
      rw [hgiven]
      exact ⟨rfl, rfl, fun hne => absurd rfl hne⟩
    · simpa [hb, hchanges b hb] using h.account b

theorem held_submitted (h : Held s) (hp : s.pc a = .begin r) (hidle : s.sc.status = .idle)
    (need : Bool) : Held { s with
      sc :=
        { s.sc with
          ops := r.ops
          args := a
          status := .req
          result := 0
          error := 0 }
      needAlarm := need
      pc := update s.pc a (.waiting r) } where
  __ := h
  owner := by
    refine (forall_update_iff s.pc (Owner _)).2
      ⟨fun q hq => ?_, fun b _ q hq => ?_⟩
    · cases hq
      exact ⟨rfl, rfl, by simp⟩
    · rw [h.nobody hidle b] at hq
      cases hq
  busy _ := by simp [Pc.engaged]
  posed := h.posed_update fun q hq => by rw [hp]; exact hq
  account := h.account_update fun q hq => by rw [hp]; exact hq

theorem held_change {act : Act κ} {s' : State κ} (h : Held s) (hc : Change s act s') : Held s' := by
  cases hc with
  | call hp => exact held_called h _ hp
  | submit hp hidle => exact held_submitted h hp hidle _
  | handle hreq => exact held_handled h hreq _ _
  | wake hp hsem => exact held_ended h hp .credit _
  | expire hp hsem => exact held_ended h hp .timeout s.sc.waitSem
  | fail hp => exact held_ended h hp .error s.sc.waitSem
  | again hp hretry =>
    exact held_freed h hp rfl (fun q hq => by rw [hp]; exact hq) _ s.done fun d hd => .inl hd
  | leave hp =>
    refine held_freed h hp rfl (fun q hq => by cases hq) _ _ fun d hd => ?_
    rcases mem_append.1 hd with hd | hd
    · exact .inl hd
    · rw [mem_singleton.1 hd]
      exact .inr rfl
  | alarm hneed => exact ⟨h.unlocked, h.owner, h.busy, h.posed, h.account, h.done, h.stray⟩

theorem held_step (h : Held s) (act : Act κ) : Held (step s act) := by
  obtain hstep | hstep := step_cases s act
  · rw [hstep]
    exact h
  · exact held_change h hstep

end FStack.Adapter.Wait
