import FStack.Adapter.Semaphore

/-!
# The syscall adapter, semaphore mode: every request once

However the callers' steps interleave with those of the F-Stack loop, each request is executed
once, with the ops and args its caller stored, and its caller gets the reply to it
(`syscall_exact`).

The proof keeps two things beside the state: the round the context is in (`Round`) and who holds
its lock (`Holder`). `Inv` says what the context holds and where everybody is in each round. A
step is one of a few kinds (`Inv.pause`, `Inv.acquire`, `Inv.write` and `Inv.release` for a
caller, `Inv.look`, `Inv.swap` and `Inv.work` for the loop): whoever does not hold
the lock is at a place that asks nothing of the context, so only the lock's holder can break it.
-/

namespace FStack.Adapter.Semaphore

open Function FStack.Lib

/-! ## Rounds and holders -/

/-- How far the request under way has come. -/
inductive Round (α : Type) where
  | free
  | asked (a : α) (r : Call)
  /-- The loop has found the request and holds the lock. -/
  | working (a : α) (r : Call)
  | done (a : α) (result error : Int)
  | answered (a : α) (result error : Int)
  /-- The caller has its reply and has yet to release the lock. -/
  | taken (a : α) (x : Reply)

variable {α : Type} {sc : Context} {a : α} {b : Bool}

/-- The phase of the abstract slot. -/
def Round.phase : Round α → Slot.Phase α Call Reply
  | .free => .free
  | .asked a r | .working a r => .asked a r
  | .done a result error | .answered a result error => .answered a (replyOf result error)
  | .taken a x => .answered a x

/-- The caller whose request is under way. -/
def Round.owner : Round α → Option α
  | .free => none
  | .asked a _ | .working a _ | .done a _ _ | .answered a _ _ | .taken a _ => some a

/-- The loop is at the request. -/
def Round.busy : Round α → Bool
  | .working _ _ | .done _ _ _ => true
  | _ => false

/-- Who holds the lock of the context. -/
inductive Holder (α : Type) where
  | nobody
  | server
  | caller (a : α)

/-- Whether anybody holds the lock. -/
def Holder.locked : Holder α → Bool
  | .nobody => false
  | _ => true

/-- The places where a caller holds the lock. -/
def Pc.holds : Pc → Bool
  | .testIdle _ | .retryIdle _ | .storeOps _ | .storeArgs _ | .setReq _ | .unlockReq | .testRep
  | .retryRep | .readResult | .readError _ | .setIdle _ | .unlockIdle _ | .forkUnlock => true
  | _ => false

/-- The caller has a request at the context. -/
def Pc.waits : Pc → Bool
  | .unlockReq | .spinRep | .lockRep | .testRep | .retryRep | .readResult | .readError _
  | .setIdle _ | .unlockIdle _ => true
  | _ => false

/-- The places where the loop holds the lock. -/
def ServerPc.holds : ServerPc → Bool
  | .away | .tryLock => false
  | _ => true

/-! ## The invariant -/

/-- What the context holds in a round. -/
def Stored : Round α → Context → Prop
  | .free, sc | .taken _ _, sc => sc.status = .idle
  | .asked _ r, sc | .working _ r, sc =>
    sc.status = .req ∧ (sc.ops, sc.args) = r ∧ sc.ops ≠ .epollWait ∧ sc.ops ≠ .kevent
  | .done _ _ _, sc => sc.status = .req ∧ sc.ops ≠ .epollWait ∧ sc.ops ≠ .kevent
  | .answered _ result error, sc => sc.status = .rep ∧ sc.result = result ∧ sc.error = error

/-- What holds where caller `a` is. Only the lock's holder is at a place that asks for something. -/
def CallerAt (g : Round α) (sc : Context) (a : α) : Pc → Prop
  | .storeOps _ => g = .free
  | .storeArgs r => g = .free ∧ sc.ops = r.ops
  | .setReq r => g = .free ∧ sc.ops = r.ops ∧ sc.args = r.args
  | .readResult => ∃ result error, g = .answered a result error
  | .readError ret => ∃ error, g = .answered a ret error ∧ ret < 0
  | .setIdle x => ∃ result error, g = .answered a result error ∧ x = replyOf result error
  | .unlockIdle x => g = .taken a x
  | _ => True

/-- What holds where the loop is. -/
def ServerAt (g : Round α) (sc : Context) : ServerPc → Prop
  | .away | .tryLock | .test | .unlock => g.busy = false
  | .readOps => ∃ a r, g = .working a r
  | .readArgs ops => ∃ a r, g = .working a r ∧ ops = r.1
  | .handle ops args => ∃ a r, g = .working a r ∧ (ops, args) = r
  | .storeResult result error => ∃ a, g = .done a result error
  | .storeError error => ∃ a result, g = .done a result error ∧ sc.result = result
  | .setRep => ∃ a, g = .done a sc.result sc.error

variable {g : Round α}

theorem callerAt_of_not_holds {p : Pc} (h : p.holds = false) : CallerAt g sc a p := by
  cases p <;> trivial

variable {p : ServerPc}

theorem serverAt_of_not_holds (hp : p.holds = false) (h : g.busy = false) : ServerAt g sc p := by
  cases p with
  | away => exact h
  | tryLock => exact h
  | _ => cases hp

theorem stored_locked : Stored g { sc with locked := b } ↔ Stored g sc := by
  cases g <;> rfl

theorem callerAt_locked {p : Pc} : CallerAt g { sc with locked := b } a p ↔ CallerAt g sc a p := by
  cases p <;> rfl

theorem serverAt_locked : ServerAt g { sc with locked := b } p ↔ ServerAt g sc p := by
  cases p <;> rfl

variable [DecidableEq α]

/-- The trace, the lock and the fields of the context agree with the round and the holder. -/
structure Inv (s : State α) (g : Round α) (o : Holder α) : Prop where
  trace : Slot.phaseOf s.trace = some g.phase
  locked : s.sc.locked = o.locked
  caller : ∀ a, (s.pc a).holds = true ↔ o = .caller a
  server : s.server.holds = true ↔ o = .server
  owner : ∀ a, (s.pc a).waits = true ↔ g.owner = some a
  taken : ∀ a x, g = .taken a x → s.pc a = .unlockIdle x
  stored : Stored g s.sc
  callerAt : ∀ a, CallerAt g s.sc a (s.pc a)
  serverAt : ServerAt g s.sc s.server

theorem inv_start (ops : SocketOps) (args : Nat) (result error : Int) (waitSem : Nat) :
    Inv (start ops args result error waitSem : State α) .free .nobody where
  trace := rfl
  locked := rfl
  caller _ := by simp [start, Pc.holds]
  server := by simp [start, ServerPc.holds]
  owner _ := by simp [start, Pc.waits, Round.owner]
  taken _ _ h := by cases h
  stored := rfl
  callerAt _ := trivial
  serverAt := rfl

section Steps

variable {s : State α} {o : Holder α} {p q : Pc} {g' : Round α}
  {es : List (Slot.Event α Call Reply)} {f : Bool}

section

variable (h : Inv s g o)

include h

theorem Inv.not_holds (ho : o ≠ .caller a) : (s.pc a).holds = false := by
  have := (h.caller a).not.2 ho
  simpa using this

theorem Inv.server_not_holds (ho : o ≠ .server) : s.server.holds = false := by
  have := h.server.not.2 ho
  simpa using this

theorem Inv.not_busy (ho : o ≠ .server) : g.busy = false := by
  have hs := h.server_not_holds ho
  have hat := h.serverAt
  cases hp : s.server with
  | away | tryLock => rw [hp] at hat; exact hat
  | _ => rw [hp] at hs; cases hs

theorem Inv.holder (hp : s.pc a = p) (hholds : p.holds = true) : o = .caller a :=
  (h.caller a).1 (by rw [hp]; exact hholds)

theorem Inv.owned (hp : s.pc a = p) (hwaits : p.waits = true) : g.owner = some a :=
  (h.owner a).1 (by rw [hp]; exact hwaits)

end

theorem Inv.not_taken (h : Inv s g (.caller a)) (hp : s.pc a = p) (hne : ∀ x, p ≠ .unlockIdle x)
    (b : α) (x : Reply) : g ≠ .taken b x := by
  intro hg
  have hb := h.taken b x hg
  cases h.holder hb rfl
  exact hne x (hp.symm.trans hb)

theorem Inv.nobody (h : Inv s g o) (hl : s.sc.locked = false) : o = .nobody := by
  have := h.locked.symm.trans hl
  cases o with
  | nobody => rfl
  | _ => cases this

/-- A holder of the lock that finds the context idle finds it free, unless it has just set it so. -/
theorem Inv.free_of_idle (h : Inv s g (.caller a)) (hp : s.pc a = p) (hne : ∀ x, p ≠ .unlockIdle x)
    (hs : s.sc.status = .idle) : g = .free := by
  have hg := h.stored
  cases g with
  | free => rfl
  | taken b x => exact absurd rfl (h.not_taken hp hne b x)
  | asked b r | working b r | done b result error | answered b result error =>
    exact absurd (hs.symm.trans hg.1) (by simp)

/-- A caller with a request at the context that finds it replied finds its own reply. -/
theorem Inv.answered_of_rep (h : Inv s g o) (hs : s.sc.status = .rep) (hown : g.owner = some a) :
    ∃ result error, g = .answered a result error := by
  have hg := h.stored
  cases g with
  | free | taken b x => exact absurd (hs.symm.trans hg) (by simp)
  | asked b r | working b r | done b result error => exact absurd (hs.symm.trans hg.1) (by simp)
  | answered b result error =>
    cases hown
    exact ⟨result, error, rfl⟩

/-! ## The steps of a caller -/

/-- Caller `a` goes to `p` and leaves the context as `sc`. -/
def State.move (s : State α) (a : α) (sc : Context) (p : Pc)
    (es : List (Slot.Event α Call Reply)) : State α :=
  { s with
    sc := sc
    pc := update s.pc a p
    trace := s.trace ++ es }

/-- A step that writes nothing. -/
theorem Inv.pause (h : Inv s g o) (hp : s.pc a = p) (hholds : q.holds = p.holds)
    (hwaits : q.waits = p.waits) (hat : CallerAt g s.sc a q) (hne : ∀ x, p ≠ .unlockIdle x) :
    Inv (s.move a s.sc q []) g o where
  __ := h
  trace := by simpa [State.move] using h.trace
  caller := (forall_update_iff s.pc fun b q => q.holds = true ↔ o = .caller b).2
    ⟨by rw [hholds, ← hp]; exact h.caller a, fun b _ => h.caller b⟩
  owner := (forall_update_iff s.pc fun b q => q.waits = true ↔ g.owner = some b).2
    ⟨by rw [hwaits, ← hp]; exact h.owner a, fun b _ => h.owner b⟩
  taken b x hg := by
    have hb := h.taken b x hg
    have : b ≠ a := fun e => hne x (hp.symm.trans (e ▸ hb))
    simpa [State.move, this] using hb
  callerAt := (forall_update_iff s.pc (CallerAt g s.sc)).2 ⟨hat, fun b _ => h.callerAt b⟩

/-- A caller takes the lock. -/
theorem Inv.acquire (h : Inv s g .nobody) (hp : s.pc a = p) (hholds : q.holds = true)
    (hwaits : q.waits = p.waits) (hat : CallerAt g s.sc a q) :
    Inv (s.move a { s.sc with locked := true } q []) g (.caller a) where
  trace := by simpa [State.move] using h.trace
  locked := rfl
  caller := (forall_update_iff s.pc fun b q => q.holds = true ↔
      Holder.caller a = Holder.caller b).2
    ⟨by simp [hholds], fun b hb => by simp [h.not_holds, Ne.symm hb]⟩
  server := by
    have := h.server_not_holds (by simp)
    simp [State.move, this]
  owner := (forall_update_iff s.pc fun b q => q.waits = true ↔ g.owner = some b).2
    ⟨by rw [hwaits, ← hp]; exact h.owner a, fun b _ => h.owner b⟩
  taken b x hg := by cases h.holder (h.taken b x hg) rfl
  stored := stored_locked.2 h.stored
  callerAt := (forall_update_iff s.pc (CallerAt g _)).2
    ⟨callerAt_locked.2 hat, fun b _ => callerAt_locked.2 (h.callerAt b)⟩
  serverAt := serverAt_locked.2 h.serverAt

section

variable (h : Inv s g (.caller a))

include h

/-- The lock's holder writes the context and keeps or releases the lock; the round may change. -/
theorem Inv.write (hlocked : sc.locked = o.locked)
    (ho : ∀ b, o = .caller b ↔ b = a ∧ p.holds = true) (hserver : o ≠ .server)
    (howner : ∀ b ≠ a, g'.owner = some b ↔ g.owner = some b)
    (hwaits : p.waits = true ↔ g'.owner = some a) (hbusy : g'.busy = false)
    (htaken : ∀ b x, g' = .taken b x → b = a ∧ p = .unlockIdle x)
    (htrace : Slot.phaseOf (s.trace ++ es) = some g'.phase) (hstored : Stored g' sc)
    (hat : CallerAt g' sc a p) : Inv (s.move a sc p es) g' o where
  trace := htrace
  locked := hlocked
  caller := (forall_update_iff s.pc fun b q => q.holds = true ↔ o = .caller b).2
    ⟨by simp [ho], fun b hb => by simp [h.not_holds, ho, hb, Ne.symm hb]⟩
  server := by
    have := h.server_not_holds (by simp)
    simp [State.move, this, hserver]
  owner := (forall_update_iff s.pc fun b q => q.waits = true ↔ g'.owner = some b).2
    ⟨hwaits, fun b hb => (h.owner b).trans (howner b hb).symm⟩
  taken b x hg := by
    obtain ⟨rfl, rfl⟩ := htaken b x hg
    simp [State.move]
  stored := hstored
  callerAt := (forall_update_iff s.pc (CallerAt g' sc)).2
    ⟨hat, fun b hb => callerAt_of_not_holds (h.not_holds (by simp [Ne.symm hb]))⟩
  serverAt := serverAt_of_not_holds (h.server_not_holds (by simp)) hbusy

/-- The lock's holder releases it. -/
theorem Inv.release (hholds : p.holds = false)
    (howner : ∀ b ≠ a, g'.owner = some b ↔ g.owner = some b)
    (hwaits : p.waits = true ↔ g'.owner = some a) (hbusy : g'.busy = false)
    (htaken : ∀ b x, g' ≠ .taken b x)
    (htrace : Slot.phaseOf (s.trace ++ es) = some g'.phase) (hstored : Stored g' s.sc) :
    Inv (s.move a { s.sc with locked := false } p es) g' .nobody :=
  h.write rfl (by simp [hholds]) (by simp) howner hwaits hbusy
    (fun b x hg => absurd hg (htaken b x)) htrace (stored_locked.2 hstored)
    (callerAt_of_not_holds hholds)

/-- A release that leaves the round as it is. -/
theorem Inv.unlock (hp : s.pc a = p) (hholds : q.holds = false)
    (hwaits : q.waits = p.waits) (hne : ∀ x, p ≠ .unlockIdle x) :
    Inv (s.move a { s.sc with locked := false } q []) g .nobody :=
  h.release hholds (fun _ _ => Iff.rfl) (by rw [hwaits, ← hp]; exact h.owner a)
    (h.not_busy (by simp)) (h.not_taken hp hne) (by simpa using h.trace) h.stored

/-- A write that leaves the round as it is. -/
theorem Inv.store (hp : s.pc a = p) (hlocked : sc.locked = s.sc.locked)
    (hholds : q.holds = true) (hwaits : q.waits = p.waits) (hstored : Stored g sc)
    (hat : CallerAt g sc a q) (hne : ∀ x, p ≠ .unlockIdle x) :
    Inv (s.move a sc q []) g (.caller a) :=
  h.write (hlocked.trans h.locked) (by simp [hholds, eq_comm]) (by simp) (fun _ _ => Iff.rfl)
    (by rw [hwaits, ← hp]; exact h.owner a)
    (h.not_busy (by simp)) (fun b x hg => absurd hg (h.not_taken hp hne b x))
    (by simpa using h.trace) hstored hat

end

variable (polling : Bool)

theorem step_caller (hp : s.pc a = p) : step polling s (.caller a) =
      s.move a (callerStep s.sc p).1 (callerStep s.sc p).2 (callerEvents a p) := by
  subst hp
  rfl

/-- A step of `rte_spinlock_lock`. -/
theorem Inv.lock (h : Inv s g o) (hp : s.pc a = p)
    (hstep : callerStep s.sc p = if s.sc.locked then (s.sc, p) else ({ s.sc with locked := true }, q))
    (hevents : callerEvents a p = []) (hp' : p.holds = false) (hq : q.holds = true)
    (hwaits : q.waits = p.waits) (hat : CallerAt g s.sc a q) :
    ∃ o', Inv (s.move a (callerStep s.sc p).1 (callerStep s.sc p).2 (callerEvents a p)) g o' := by
  rw [hstep, hevents]
  cases hl : s.sc.locked with
  | true =>
    have hne : ∀ x, p ≠ .unlockIdle x := by
      rintro x rfl
      cases hp'
    exact ⟨o, h.pause hp rfl rfl (callerAt_of_not_holds hp') hne⟩
  | false =>
    cases h.nobody hl
    exact ⟨.caller a, h.acquire hp hq hwaits hat⟩

theorem inv_caller (h : Inv s g o) (a : α) : ∃ g' o', Inv (step polling s (.caller a)) g' o' := by
  have hat := h.callerAt a
  rw [step_caller polling rfl]
  generalize hp : s.pc a = p at hat ⊢
  cases p with
  | away =>
    exact ⟨g, o, h.pause hp rfl rfl trivial (by simp)⟩
  | spinIdle r | spinRep =>
    rw [callerStep]
    refine ⟨g, o, ?_⟩
    split <;> exact h.pause hp rfl rfl trivial (by simp)
  | lockIdle r => exact ⟨g, h.lock hp rfl rfl rfl (q := .testIdle r) rfl rfl trivial⟩
  | testIdle r =>
    rw [callerStep]
    cases h.holder hp rfl
    refine ⟨g, .caller a, ?_⟩
    split
    next hs =>
      have hg : g = .free := h.free_of_idle hp (by simp) hs
      exact h.pause hp rfl rfl hg (by simp)
    · exact h.pause hp rfl rfl trivial (by simp)
  | retryIdle r | unlockReq | retryRep | forkUnlock =>
    cases h.holder hp rfl
    exact ⟨g, .nobody, h.unlock hp rfl rfl (by simp)⟩
  | storeOps r =>
    cases h.holder hp rfl
    cases hat
    exact ⟨.free, _, h.store hp rfl rfl rfl h.stored ⟨rfl, rfl⟩ (by simp)⟩
  | storeArgs r =>
    cases h.holder hp rfl
    obtain ⟨rfl, hops⟩ := hat
    exact ⟨.free, _, h.store hp rfl rfl rfl h.stored ⟨rfl, hops, rfl⟩ (by simp)⟩
  | setReq r =>
    rw [callerStep]
    cases h.holder hp rfl
    obtain ⟨rfl, hops, hargs⟩ := hat
    refine ⟨.asked a (r.ops, r.args), _,
      h.write h.locked (by simp [Pc.holds, eq_comm]) (by simp) ?_ ?_ rfl ?_ ?_ ?_ trivial⟩
    · intro b hb
      simp [Round.owner, Ne.symm hb]
    · simp [Round.owner, Pc.waits]
    · simp
    · exact Slot.phaseOf_step h.trace rfl
    · refine ⟨rfl, by rw [← hops, ← hargs], ?_⟩
      rw [hops]
      exact r.plain
  | lockRep => exact ⟨g, h.lock hp rfl rfl rfl (q := .testRep) rfl rfl trivial⟩
  | testRep =>
    rw [callerStep]
    refine ⟨g, o, ?_⟩
    split
    next hs =>
      have hg := h.answered_of_rep hs (h.owned hp rfl)
      exact h.pause hp rfl rfl hg (by simp)
    · exact h.pause hp rfl rfl trivial (by simp)
  | readResult =>
    rw [callerStep]
    obtain ⟨result, error, rfl⟩ := hat
    obtain ⟨-, hresult, -⟩ := h.stored
    refine ⟨.answered a result error, o, ?_⟩
    split
    next hneg =>
      rw [hresult] at hneg ⊢
      exact h.pause hp rfl rfl ⟨error, rfl, hneg⟩ (by simp)
    next hpos =>
      rw [hresult] at hpos ⊢
      refine h.pause hp rfl rfl ⟨result, error, rfl, ?_⟩ (by simp)
      simp [replyOf, hpos]
  | readError ret =>
    obtain ⟨error, rfl, hneg⟩ := hat
    obtain ⟨-, -, herror⟩ := h.stored
    refine ⟨_, o, h.pause hp rfl rfl ⟨ret, error, rfl, ?_⟩ (by simp)⟩
    simp [replyOf, hneg, herror]
  | setIdle x =>
    rw [callerStep]
    cases h.holder hp rfl
    obtain ⟨result, error, rfl, rfl⟩ := hat
    refine ⟨.taken a (replyOf result error), _,
      h.write h.locked (by simp [Pc.holds, eq_comm]) (by simp) (fun _ _ => Iff.rfl) ?_ rfl ?_ ?_ rfl rfl⟩
    · simp [Pc.waits, Round.owner]
    · rintro b x ⟨⟩
      exact ⟨rfl, rfl⟩
    · simpa [callerEvents, Round.phase] using h.trace
  | unlockIdle x =>
    rw [callerStep]
    cases h.holder hp rfl
    cases hat
    refine ⟨.free, .nobody, h.release rfl ?_ ?_ rfl ?_ ?_ h.stored⟩
    · intro b hb
      simp [Round.owner, Ne.symm hb]
    · simp [Pc.waits, Round.owner]
    · simp
    · exact Slot.phaseOf_step h.trace (if_pos ⟨rfl, rfl⟩)
  | forkLock => exact ⟨g, h.lock hp rfl rfl rfl (q := .forkUnlock) rfl rfl trivial⟩

/-! ## The steps of the loop -/

/-- The loop goes to `q` and leaves the context as `sc`. -/
def State.serve (s : State α) (sc : Context) (q : ServerPc) (semFlag : Bool)
    (es : List (Slot.Event α Call Reply)) : State α :=
  { s with
    sc := sc
    server := q
    semFlag := semFlag
    trace := s.trace ++ es }

variable {p q : ServerPc}

theorem step_server (x : Handled) (hp : s.server = p) : step polling s (.server x) =
      s.serve (serverStep polling s.semFlag x s.sc p).1 (serverStep polling s.semFlag x s.sc p).2
        (flagAfter x s.semFlag p) (serverEvents x p) := by
  subst hp
  rfl

theorem Inv.held (h : Inv s g o) (hp : s.server = p) (hholds : p.holds = true) : o = .server :=
  h.server.1 (by rw [hp]; exact hholds)

theorem Inv.not_taken_of_server (h : Inv s g .server) (b : α) (x : Reply) : g ≠ .taken b x := by
  intro hg
  cases h.holder (h.taken b x hg) rfl

/-- The loop looks, without the lock. -/
theorem Inv.look (h : Inv s g o) (hp : s.server = p) (hp' : p.holds = false) (hq : q.holds = false)
    : Inv (s.serve s.sc q f []) g o where
  __ := h
  trace := by simpa [State.serve] using h.trace
  server := by
    rw [← h.server, hp, hp', State.serve, hq]
  serverAt := by
    refine serverAt_of_not_holds hq (h.not_busy ?_)
    rintro rfl
    have := h.server.2 rfl
    rw [hp, hp'] at this
    cases this

/-- The loop takes the lock or releases it. -/
theorem Inv.swap (h : Inv s g o) {o' : Holder α} (ho : ∀ a, o ≠ .caller a)
    (ho' : ∀ a, o' ≠ .caller a) (hb : b = o'.locked) (hq : q.holds = true ↔ o' = .server)
    (hat : ServerAt g s.sc q) : Inv (s.serve { s.sc with locked := b } q f []) g o' where
  __ := h
  trace := by simpa [State.serve] using h.trace
  locked := hb
  caller a := by
    have := h.not_holds (ho a)
    simp [State.serve, this, ho' a]
  server := hq
  stored := stored_locked.2 h.stored
  callerAt a := callerAt_locked.2 (h.callerAt a)
  serverAt := serverAt_locked.2 hat

/-- The loop works at the request, with the lock. -/
theorem Inv.work (h : Inv s g .server) (hlocked : sc.locked = s.sc.locked) (hholds : q.holds = true)
    (howner : g'.owner = g.owner) (htaken : ∀ b x, g' ≠ .taken b x)
    (htrace : Slot.phaseOf (s.trace ++ es) = some g'.phase) (hstored : Stored g' sc)
    (hat : ServerAt g' sc q) : Inv (s.serve sc q f es) g' .server where
  trace := htrace
  locked := hlocked.trans h.locked
  caller := h.caller
  server := by simp [State.serve, hholds]
  owner a := by
    rw [howner]
    exact h.owner a
  taken b x hg := absurd hg (htaken b x)
  stored := hstored
  callerAt a := callerAt_of_not_holds (h.not_holds (by simp))
  serverAt := hat

/-- The loop finds a request. -/
theorem Inv.asked_of_req (h : Inv s g o) (hs : s.sc.status = .req) (hbusy : g.busy = false) :
    ∃ a r, g = .asked a r := by
  have hg := h.stored
  cases g with
  | free | taken b x => exact absurd (hs.symm.trans hg) (by simp)
  | asked b r => exact ⟨b, r, rfl⟩
  | working b r | done b result error => cases hbusy
  | answered b result error => exact absurd (hs.symm.trans hg.1) (by simp)

theorem reply_of_plain {polling : Bool} (h : sc.ops ≠ .epollWait ∧ sc.ops ≠ .kevent) :
    reply polling f sc = { sc with status := .rep } :=
  if_neg (not_or.2 h)

theorem inv_server (h : Inv s g o) (x : Handled) :
    ∃ g' o', Inv (step polling s (.server x)) g' o' := by
  have hat := h.serverAt
  rw [step_server polling x rfl]
  generalize hp : s.server = p at hat ⊢
  cases p with
  | away =>
    rw [serverStep]
    refine ⟨g, o, ?_⟩
    split <;> exact h.look hp rfl rfl
  | tryLock =>
    rw [serverStep]
    cases hl : s.sc.locked with
    | true => exact ⟨g, o, h.look hp rfl rfl⟩
    | false =>
      cases h.nobody hl
      exact ⟨g, .server, h.swap (by simp) (by simp) rfl (by simp [ServerPc.holds])
        (h.not_busy (by simp))⟩
  | test =>
    rw [serverStep]
    cases h.held hp rfl
    split
    next hs =>
      obtain ⟨a, r, rfl⟩ := h.asked_of_req hs hat
      refine ⟨.working a r, .server, h.work rfl rfl rfl (by simp) ?_ h.stored ⟨a, r, rfl⟩⟩
      simpa [serverEvents, Round.phase] using h.trace
    next hs =>
      refine ⟨g, .server, h.work rfl rfl rfl h.not_taken_of_server ?_ h.stored hat⟩
      simpa [serverEvents] using h.trace
  | readOps =>
    cases h.held hp rfl
    obtain ⟨a, r, rfl⟩ := hat
    obtain ⟨-, hr, -⟩ := h.stored
    refine ⟨.working a r, .server, h.work rfl rfl rfl (by simp) ?_ h.stored ⟨a, r, rfl, ?_⟩⟩
    · simpa [serverEvents] using h.trace
    · rw [← hr]
  | readArgs ops =>
    cases h.held hp rfl
    obtain ⟨a, r, rfl, rfl⟩ := hat
    obtain ⟨-, hr, -⟩ := h.stored
    refine ⟨.working a r, .server, h.work rfl rfl rfl (by simp) ?_ h.stored ⟨a, r, rfl, ?_⟩⟩
    · simpa [serverEvents] using h.trace
    · rw [← hr]
  | handle ops args =>
    cases h.held hp rfl
    obtain ⟨a, r, rfl, rfl⟩ := hat
    obtain ⟨hs, -, hplain⟩ := h.stored
    refine ⟨.done a x.result x.error, .server,
      h.work rfl rfl rfl (by simp) ?_ ⟨hs, hplain⟩ ⟨a, rfl⟩⟩
    exact Slot.phaseOf_step h.trace (if_pos rfl)
  | storeResult result error =>
    cases h.held hp rfl
    obtain ⟨a, rfl⟩ := hat
    refine ⟨.done a result error, .server,
      h.work rfl rfl rfl (by simp) ?_ h.stored ⟨a, result, rfl, rfl⟩⟩
    simpa [serverEvents] using h.trace
  | storeError error =>
    rw [serverStep]
    cases h.held hp rfl
    obtain ⟨a, result, rfl, hresult⟩ := hat
    refine ⟨.done a result error, .server, h.work rfl rfl rfl (by simp) ?_ h.stored ⟨a, ?_⟩⟩
    · simpa [serverEvents] using h.trace
    · rw [← hresult]
  | setRep =>
    rw [serverStep]
    cases h.held hp rfl
    obtain ⟨a, rfl⟩ := hat
    rw [reply_of_plain h.stored.2]
    refine ⟨.answered a s.sc.result s.sc.error, .server,
      h.work rfl rfl rfl (by simp) ?_ ⟨rfl, rfl, rfl⟩ rfl⟩
    simpa [serverEvents, Round.phase] using h.trace
  | unlock =>
    cases h.held hp rfl
    exact ⟨g, .nobody, h.swap (q := .away) (by simp) (by simp) rfl (by simp [ServerPc.holds]) hat⟩

theorem inv_step (h : Inv s g o) (act : Act α) : ∃ g' o', Inv (step polling s act) g' o' := by
  cases act with
  | call a r =>
    by_cases hp : s.pc a = .away
    · have hstep : step polling s (.call a r) = s.move a s.sc (.spinIdle r) [] := by
        simp [step, State.move, hp]
      rw [hstep]
      exact ⟨g, o, h.pause hp rfl rfl trivial (by simp)⟩
    · rw [step, if_neg hp]
      exact ⟨g, o, h⟩
  | fork a =>
    by_cases hp : s.pc a = .away
    · have hstep : step polling s (.fork a) = s.move a s.sc .forkLock [] := by
        simp [step, State.move, hp]
      rw [hstep]
      exact ⟨g, o, h.pause hp rfl rfl trivial (by simp)⟩
    · rw [step, if_neg hp]
      exact ⟨g, o, h⟩
  | caller a => exact inv_caller polling h a
  | server x => exact inv_server polling h x

end Steps

/-! ## Every run -/

variable {s : State α} {o : Holder α}

variable (polling : Bool)

theorem inv_run (acts : List (Act α)) (h : Inv s g o) :
    ∃ g' o', Inv (acts.foldl (step polling) s) g' o' := by
  induction acts generalizing s g o with
  | nil => exact ⟨g, o, h⟩
  | cons act acts ih =>
    obtain ⟨g', o', h'⟩ := inv_step polling h act
    exact ih h'

theorem callerStep_status (h : Inv s g o) (a : α) :
    (callerStep s.sc (s.pc a)).1.status = s.sc.status ∨
      (callerStep s.sc (s.pc a)).1.status = s.sc.status.next := by
  have hat := h.callerAt a
  cases hp : s.pc a with
  | setReq r =>
    rw [hp] at hat
    obtain ⟨rfl, -⟩ := hat
    have hs : s.sc.status = .idle := h.stored
    exact .inr (by rw [hs]; rfl)
  | setIdle x =>
    rw [hp] at hat
    obtain ⟨result, error, rfl, -⟩ := hat
    have hs : s.sc.status = .rep := h.stored.1
    exact .inr (by rw [hs]; rfl)
  | lockIdle r | lockRep | forkLock => exact .inl (by rw [callerStep]; split <;> rfl)
  | _ => exact .inl rfl

theorem serverStep_status (h : Inv s g o) (polling : Bool) (x : Handled) :
    (serverStep polling s.semFlag x s.sc s.server).1.status = s.sc.status ∨
      (serverStep polling s.semFlag x s.sc s.server).1.status = s.sc.status.next := by
  have hat := h.serverAt
  cases hp : s.server with
  | setRep =>
    rw [hp] at hat
    obtain ⟨a, rfl⟩ := hat
    rw [serverStep, reply_of_plain h.stored.2]
    have hs : s.sc.status = .req := h.stored.1
    exact .inr (by rw [hs]; rfl)
  | tryLock => exact .inl (by rw [serverStep]; split <;> rfl)
  | _ => exact .inl rfl

theorem status_step (h : Inv s g o) (act : Act α) :
    (step polling s act).sc.status = s.sc.status ∨
      (step polling s act).sc.status = s.sc.status.next := by
  cases act with
  | call a r | fork a => exact .inl (by rw [step]; split <;> rfl)
  | caller a => exact callerStep_status h a
  | server x => exact serverStep_status h polling x

/-- What calls through a context are to keep, in a state of a run. -/
structure Exact (s : State α) : Prop where
  /-- What happened at the context is a sequence of rounds: a request is submitted, executed once
  with its own ops and args, and answered to its caller with its own result and error. A request
  that was not executed yet is still there for the loop to find. -/
  rounds : ∃ p, Slot.phaseOf s.trace = some p ∧
    Slot.submitted s.trace = Slot.executed s.trace ++ p.pending ∧
    ∀ a r, p = .asked a r → s.sc.status = .req ∧ (s.sc.ops, s.sc.args) = r
  /-- `status` only goes from `FF_SC_IDLE` to `FF_SC_REQ`, to `FF_SC_REP` and back. -/
  status : ∀ act, (step polling s act).sc.status = s.sc.status ∨
    (step polling s act).sc.status = s.sc.status.next

/-- Whatever the callers and the loop do, each call is executed once and gets its own reply. -/
theorem syscall_exact (ops : SocketOps) (args : Nat) (result error : Int)
    (waitSem : Nat) (acts : List (Act α)) :
    Exact polling (acts.foldl (step polling) (start ops args result error waitSem)) := by
  obtain ⟨g, o, h⟩ := inv_run polling acts (inv_start ops args result error waitSem)
  refine ⟨⟨g.phase, h.trace, Slot.submitted_eq h.trace, ?_⟩, status_step polling h⟩
  intro a r hp
  have hg := h.stored
  cases g with
  | asked b r' | working b r' =>
    cases hp
    exact ⟨hg.1, hg.2.1⟩
  | _ => cases hp

end FStack.Adapter.Semaphore
