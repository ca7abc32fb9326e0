import FStack.Adapter.SemaphoreOnce

/-!
# The syscall adapter, semaphore mode: the loop's side of a request

`ff_handle_socket_ops` as a whole (`adapter/syscall/ff_socket_ops.c:553-618`), with what the
handlers of the two waits decide about `sem_flag`: `ff_sys_epoll_wait` (`305-345`) and
`ff_sys_kevent` (`353-379`). Its steps one by one are those of `Semaphore.lean`.

The hook that issued a request waits for it in one of two ways, and which one depends on the build:
it spins on `status` or it blocks on `wait_sem` (`waitOf`). The loop chooses how to answer under
other conditions, so that with `FF_PRELOAD_POLLING_MODE` a `kevent` is never answered, and neither
is an `epoll_wait` of a build with `FF_KERNEL_EVENT` (`releases_iff`).
-/

namespace FStack.Adapter.Semaphore

open FStack.Lib

/-- The build options that the two sides read. -/
structure Build where
  /-- `FF_PRELOAD_POLLING_MODE`. -/
  polling : Bool
  /-- `FF_KERNEL_EVENT`. -/
  kernelEvent : Bool
  deriving DecidableEq

/-- What `ff_sys_epoll_wait` reads of its arguments. -/
structure EpollWaitArgs where
  maxevents : Int
  timeout : Int
  deriving DecidableEq

/-- What `ff_sys_kevent` reads of its arguments. -/
structure KeventArgs where
  nevents : Int
  /-- `timeout == NULL`. -/
  forever : Bool
  deriving DecidableEq

variable (polling : Bool)

/-- `sem_flag` as `ff_sys_epoll_wait` leaves it, where `ff_epoll_wait` returned `ret`. -/
def semFlagEpollWait (args : EpollWaitArgs) (ret : Int) : Bool :=
  if polling then
    if ret ≠ 0 then true
    -- -1 blocks until there is an event or an error
    else if args.timeout < 0 then false else true
  else if args.timeout = 0 ∧ ret = 0 ∧ args.maxevents ≠ 0 then false else true

/-- `sem_flag` as `ff_sys_kevent` leaves it, where `ff_kevent` returned `ret`. -/
def semFlagKevent (args : KeventArgs) (ret : Int) : Bool :=
  if args.forever ∧ ret = 0 ∧ args.nevents ≠ 0 then false else true

/-- `sem_flag` after `ff_so_handler`: only the handlers of the waits write it. The arguments are
what the context's `args` points to, read as those of the one or the other. -/
def semFlagAfter (e : EpollWaitArgs) (k : KeventArgs) (ret : Int) (old : Bool) :
    SocketOps → Bool
  | .epollWait => semFlagEpollWait polling e ret
  | .kevent => semFlagKevent k ret
  | _ => old

/-- `ff_handle_socket_ops`, where the handler returned `ret` and left `err` in `errno` and `flag` in
`sem_flag`. -/
def ffHandleSocketOps (polling flag : Bool) (ret err : Int) (sc : Context) : Context :=
  if sc.locked then sc
  else if sc.status ≠ .req then sc
  else reply polling flag { sc with result := ret, error := err }

/-! ## Waiting -/

/-- How a hook waits for its request. -/
inductive Waits where
  /-- `ACQUIRE_ZONE_LOCK(FF_SC_REP)` or `ACQUIRE_ZONE_TRY_LOCK(FF_SC_REP)`. -/
  | status
  /-- `sem_wait` or `sem_timedwait`. -/
  | semaphore

/-- `ff_hook_epoll_wait` spins in a polling build without kernel events, `kevent` never does, and
the other hooks are `SYSCALL`s. -/
def waitOf (b : Build) : SocketOps → Waits
  | .epollWait => if b.polling ∧ ¬ b.kernelEvent then .status else .semaphore
  | .kevent => .semaphore
  | _ => .status

/-- The wait can end. -/
def Waits.Over (sc : Context) : Waits → Prop
  | .status => sc.status = .rep
  | .semaphore => 0 < sc.waitSem

/-- The loop is to answer the request now. -/
def AnswersNow (ops : SocketOps) (flag : Bool) : Prop :=
  (ops ≠ .epollWait ∧ ops ≠ .kevent) ∨ flag = true

/-- The request is to be handled: nobody holds the lock, and `status` says so. -/
def Handles (sc : Context) : Prop :=
  sc.locked = false ∧ sc.status = .req

/-- A request that is answered releases its waiter, and one that is not is still there for the next
round of the loop. -/
structure Releases (b : Build) (flag : Bool) (ret err : Int) (sc : Context) : Prop where
  answered : AnswersNow sc.ops flag →
    (waitOf b sc.ops).Over (ffHandleSocketOps b.polling flag ret err sc)
  kept : ¬ AnswersNow sc.ops flag → Handles (ffHandleSocketOps b.polling flag ret err sc)

/-- The build spins where the loop posts nothing, or blocks where it does not. -/
def Stranded (b : Build) (ops : SocketOps) : Prop :=
  b.polling = true ∧ (ops = .kevent ∨ ops = .epollWait ∧ b.kernelEvent = true)

section Handled

variable {b : Build} {flag : Bool} {ret err : Int} {sc : Context}

variable (h : Handles sc)

include h

theorem handle_eq_reply : ffHandleSocketOps b.polling flag ret err sc =
    reply b.polling flag { sc with result := ret, error := err } := by
  simp [ffHandleSocketOps, h.1, h.2]

theorem releases_plain (hops : sc.ops ≠ .epollWait ∧ sc.ops ≠ .kevent) :
    Releases b flag ret err sc where
  answered _ := by
    have hwait : waitOf b sc.ops = .status := by
      obtain ⟨he, hk⟩ := hops
      cases hs : sc.ops <;> first | rfl | exact absurd hs he | exact absurd hs hk
    rw [hwait, handle_eq_reply h]
    exact congrArg Context.status (@reply_of_plain { sc with result := ret, error := err } _ _ hops)
  kept hnow := absurd (.inl hops) hnow

/-- A wait of a build without polling is answered in both ways. -/
theorem releases_of_not_polling (hops : sc.ops = .epollWait ∨ sc.ops = .kevent)
    (hpoll : b.polling = false) : Releases b flag ret err sc where
  answered hnow := by
    have hflag : flag = true := hnow.resolve_left fun hplain => hops.elim hplain.1 hplain.2
    have hwait : waitOf b sc.ops = .semaphore := by
      rcases hops with hs | hs <;> simp [waitOf, hs, hpoll]
    rw [hwait, handle_eq_reply h]
    simp [Waits.Over, reply, hops, hpoll, hflag]
  kept hnow := by
    have hflag : flag ≠ true := fun hflag => hnow (.inr hflag)
    rw [handle_eq_reply h]
    simpa [Handles, reply, hops, hpoll, hflag] using h

/-- A polling build answers an `epoll_wait` by its status. -/
theorem releases_epollWait_iff (hops : sc.ops = .epollWait) (hpoll : b.polling = true) :
    Releases b flag ret err sc ↔ ¬ (b.kernelEvent = true ∧ flag = true ∧ sc.waitSem = 0) := by
  have hreply : ffHandleSocketOps b.polling flag ret err sc =
      { sc with
        result := ret
        error := err
        status := if flag then .rep else .req } := by
    rw [handle_eq_reply h]
    cases flag <;> simp [reply, hops, hpoll, h.2]
  constructor
  · rintro hrel ⟨hkernel, hflag, hsem⟩
    have := hrel.answered (.inr hflag)
    rw [hreply] at this
    simp [waitOf, hops, hpoll, hkernel, Waits.Over, hsem] at this
  · intro hcond
    refine ⟨fun hnow => ?_, fun hnow => ?_⟩
    · have hflag : flag = true := hnow.resolve_left fun hplain => hplain.1 hops
      rw [hreply]
      cases hkernel : b.kernelEvent with
      | false => simp [waitOf, hops, hpoll, hkernel, Waits.Over, hflag]
      | true =>
        have hsem : sc.waitSem ≠ 0 := fun hsem => hcond ⟨hkernel, hflag, hsem⟩
        simpa [waitOf, hops, hkernel, Waits.Over] using Nat.pos_of_ne_zero hsem
    · have hflag : flag ≠ true := fun hflag => hnow (.inr hflag)
      rw [hreply]
      simp [Handles, h.1, hflag]

/-- A polling build does not answer a `kevent` at all. -/
theorem releases_kevent_iff (hops : sc.ops = .kevent) (hpoll : b.polling = true) :
    Releases b flag ret err sc ↔ ¬ (flag = true ∧ sc.waitSem = 0) := by
  have hreply : ffHandleSocketOps b.polling flag ret err sc =
      { sc with
        result := ret
        error := err } := by
    rw [handle_eq_reply h]
    simp [reply, hops, hpoll]
  have hwait : waitOf b sc.ops = .semaphore := by simp [waitOf, hops]
  constructor
  · rintro hrel ⟨hflag, hsem⟩
    have := hrel.answered (.inr hflag)
    rw [hreply, hwait] at this
    simp [Waits.Over, hsem] at this
  · intro hcond
    refine ⟨fun hnow => ?_, fun _ => ?_⟩
    · have hflag : flag = true := hnow.resolve_left fun hplain => hplain.2 hops
      have hsem : sc.waitSem ≠ 0 := fun hsem => hcond ⟨hflag, hsem⟩
      rw [hreply, hwait]
      exact Nat.pos_of_ne_zero hsem
    · rw [hreply]
      exact h

theorem releases_handled_iff :
    Releases b flag ret err sc ↔ ¬ (Stranded b sc.ops ∧ flag = true ∧ sc.waitSem = 0) := by
  by_cases hplain : sc.ops ≠ .epollWait ∧ sc.ops ≠ .kevent
  · refine iff_of_true (releases_plain h hplain) ?_
    rintro ⟨⟨-, hk | ⟨he, -⟩⟩, -⟩
    · exact hplain.2 hk
    · exact hplain.1 he
  have hops : sc.ops = .epollWait ∨ sc.ops = .kevent := by
    by_contra hne
    exact hplain (not_or.1 hne)
  cases hpoll : b.polling with
  | false =>
    refine iff_of_true (releases_of_not_polling h hops hpoll) ?_
    rintro ⟨⟨hp, -⟩, -⟩
    rw [hpoll] at hp
    cases hp
  | true =>
    rcases hops with hs | hs
    · rw [releases_epollWait_iff h hs hpoll]
      simp [Stranded, hs, hpoll]
    · rw [releases_kevent_iff h hs hpoll]
      simp [Stranded, hs, hpoll]

end Handled

/-- A request that the loop finishes releases its waiter, and one that is not to be answered yet
stays, unless the build is one whose loop answers in another way than the hook waits. -/
theorem releases_iff (b : Build) (e : EpollWaitArgs) (k : KeventArgs) (old : Bool) (ret err : Int)
    (sc : Context) :
    (Handles sc → Releases b (semFlagAfter b.polling e k ret old sc.ops) ret err sc) ↔
      ¬ (Handles sc ∧ Stranded b sc.ops ∧ semFlagAfter b.polling e k ret old sc.ops = true ∧
        sc.waitSem = 0) := by
  rw [not_and]
  exact forall_congr' releases_handled_iff

/-- A request as a hook leaves it. -/
def requested (ops : SocketOps) : Context where
  ops := ops
  args := 0
  status := .req
  locked := false
  error := 0
  result := 0
  waitSem := 0

/-- In a polling build a `kevent` with an event leaves its caller asleep; with kernel events too, so
does an `epoll_wait`. -/
theorem not_releases :
    ¬ (Handles (requested .kevent) → Releases ⟨true, false⟩
      (semFlagAfter true ⟨8, 0⟩ ⟨8, true⟩ 1 false .kevent) 1 0 (requested .kevent)) ∧
    ¬ (Handles (requested .epollWait) → Releases ⟨true, true⟩
      (semFlagAfter true ⟨8, 100⟩ ⟨8, true⟩ 1 false .epollWait) 1 0 (requested .epollWait)) := by
  refine ⟨fun h => ?_, fun h => ?_⟩
  · exact (releases_kevent_iff ⟨rfl, rfl⟩ rfl rfl).1 (h ⟨rfl, rfl⟩) ⟨rfl, rfl⟩
  · exact (releases_epollWait_iff ⟨rfl, rfl⟩ rfl rfl).1 (h ⟨rfl, rfl⟩) ⟨rfl, rfl, rfl⟩

end FStack.Adapter.Semaphore
