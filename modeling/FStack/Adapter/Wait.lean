import FStack.Adapter.Handler

/-!
# The syscall adapter, semaphore mode: waits for events

Model of the two hooks that block on a context's semaphore, in the build without ring IPC and
without polling: `ff_hook_epoll_wait` (`adapter/syscall/ff_hook_syscall.c:2196-2423`) and `kevent`
(`2521-2734`), with `ff_handle_socket_ops` on the other side and `alarm_event_sem` (`3349-3373`)
beside them.

* A critical section of the context's lock is one step, as is one operation on the semaphore: what
  is read and written under the lock is not touched outside, and a dirty read of `status` is
  made again under it (`Semaphore.lean` has those steps one by one). So `submit` is
  `ACQUIRE_ZONE_LOCK(FF_SC_IDLE)` to the unlock, `handle` is `ff_handle_socket_ops`, and `finish` is
  what a hook does from the lock after its wait.
* Threads are numbers; `args` of the context is the number of the thread whose static arguments it
  points to. All of them are of one process, which has one `need_alarm_sem`.
* From outside comes what `ff_epoll_wait` and `ff_kevent` find. The model follows the changes of a
  `kevent` to the call of `ff_kevent` they are given to, not what `kqueue_kevent` makes of each. A
  wait ends with a credit, at its deadline if there is none by then, or with another error
  (`EINTR`, `EINVAL`).
* Kernel events (`FF_KERNEL_EVENT`) and the copy of the events to the caller are left out.

`Log` is what the loop did for the call a thread is in; `done` are the calls that have returned.
-/

namespace FStack.Adapter.Wait

open Function FStack.Adapter.Semaphore

variable {κ : Type}

/-- A wait for events; `κ` are the entries of a changelist. -/
inductive Request (κ : Type) where
  | epollWait (maxevents timeout : Int)
  /-- `forever` is a null `timeout`. -/
  | kevent (changes : List κ) (nevents : Int) (forever : Bool)

namespace Request

/-- The operation a hook stores. -/
def ops : Request κ → SocketOps
  | epollWait _ _ => .epollWait
  | kevent _ _ _ => .kevent

/-- The changelist of a call. -/
def changes : Request κ → List κ
  | epollWait _ _ => []
  | kevent changes _ _ => changes

/-- The hook calls `sem_wait`, not `sem_timedwait`, and lets itself be woken by an alarm. -/
def untimed : Request κ → Bool
  | epollWait _ timeout => timeout ≤ 0
  | kevent _ _ forever => forever

/-- What the hook makes of a value: `epoll_wait` cuts it to `maxevents`. -/
def cut (r : Request κ) (ret : Int) : Int :=
  match r with
  | epollWait maxevents _ => if 0 < ret ∧ maxevents < ret then maxevents else ret
  | kevent _ _ _ => ret

/-- `goto RETRY`. -/
def retries (r : Request κ) (ret : Int) : Bool :=
  match r with
  | epollWait _ timeout => timeout ≤ 0 ∧ ret = 0
  | kevent _ _ _ => false

end Request

/-- How a wait ended. -/
inductive End where
  | credit | timeout | error
  deriving DecidableEq

/-- Where a thread is in its hook. -/
inductive Pc (κ : Type) where
  | away
  | begin (r : Request κ)
  | waiting (r : Request κ)
  | ended (r : Request κ) (e : End)

/-- The request of the call that a thread is in. -/
def Pc.request : Pc κ → Option (Request κ)
  | .away => none
  | .begin r | .waiting r | .ended r _ => some r

/-- The request of the thread that is at the context. -/
def Pc.engaged : Pc κ → Option (Request κ)
  | .away | .begin _ => none
  | .waiting r | .ended r _ => some r

/-- What the loop did for a call. -/
structure Log (κ : Type) where
  /-- The changelist of the call. -/
  changes : List κ
  /-- The changes that were given to `ff_kevent`. -/
  given : List κ
  /-- What its handler runs returned. -/
  rounds : List Int

/-- The batches of events that were taken out of the kqueue for the call. -/
def Log.batches (l : Log κ) : List Int :=
  l.rounds.filter fun n => 0 < n

/-- A call that has returned. -/
structure Done (κ : Type) where
  thread : Nat
  value : Int
  /-- The value of the semaphore at the return. -/
  sem : Nat
  log : Log κ

/-- A context, the threads that wait at it and what was done for them. -/
structure State (κ : Type) where
  sc : Context
  needAlarm : Bool
  epollArgs : Nat → EpollWaitArgs
  keventArgs : Nat → KeventArgs
  /-- The first `nchanges` entries of a thread's `changelist`. -/
  changes : Nat → List κ
  pc : Nat → Pc κ
  log : Nat → Log κ
  done : List (Done κ)
  /-- The threads for which the loop handled a request of a call that had returned. -/
  stray : List Nat

/-- A step of a thread, of the loop or of the alarm. -/
inductive Act (κ : Type) where
  | call (a : Nat) (r : Request κ)
  | submit (a : Nat)
  /-- The loop; `found` is what there is to return, `err` is `errno`. -/
  | handle (found err : Int)
  | wake (a : Nat)
  | expire (a : Nat)
  | fail (a : Nat)
  | finish (a : Nat)
  | alarm

variable (s : State κ)

/-- The arguments that a hook fills in. -/
def State.fill (a : Nat) : Request κ → State κ
  | .epollWait maxevents timeout =>
    { s with epollArgs := update s.epollArgs a ⟨maxevents, timeout⟩ }
  | .kevent changes nevents forever =>
    { s with
      keventArgs := update s.keventArgs a ⟨nevents, forever⟩
      changes := update s.changes a changes }

/-- `ff_epoll_wait`: an error if there is no room for an event, else at most as many as there is. -/
def epollResult (args : EpollWaitArgs) (found : Int) : Int :=
  if args.maxevents < 1 then -1 else if args.maxevents < found then args.maxevents else found

/-- What the handler of the context's request returns. -/
def handlerResult (found : Int) : Int :=
  if s.sc.ops = .epollWait then epollResult (s.epollArgs s.sc.args) found else found

/-- The changes that the handler gives to `ff_kevent`. -/
def changesGiven : List κ :=
  if s.sc.ops = .kevent then s.changes s.sc.args else []

/-- The handler of `kevent` clears `nchanges`. -/
def changesAfter : Nat → List κ :=
  if s.sc.ops = .kevent then update s.changes s.sc.args [] else s.changes

/-- `sem_flag` after the handler of the context's request. -/
def semFlagOf (ret : Int) : Bool :=
  semFlagAfter false (s.epollArgs s.sc.args) (s.keventArgs s.sc.args) ret true s.sc.ops

/-- `ff_handle_socket_ops`, with what it does recorded for the thread of the request. -/
def handle (found err : Int) : State κ :=
  if s.sc.locked = false ∧ s.sc.status = .req then
    let a := s.sc.args
    let ret := handlerResult s found
    { s with
      sc := ffHandleSocketOps false (semFlagOf s ret) ret err s.sc
      changes := changesAfter s
      log := update s.log a
        { s.log a with
          given := (s.log a).given ++ changesGiven s
          rounds := (s.log a).rounds ++ [ret] }
      stray := if (s.pc a).engaged.isNone then s.stray ++ [a] else s.stray }
  else s

/-- What a hook has after its wait. -/
def valueOf (sc : Context) : End → Int
  | .credit => sc.result
  | .timeout => 0
  | .error => -1

/-- A hook after its wait: it gives the context back, and starts again or returns. -/
def finish (a : Nat) (r : Request κ) (e : End) : State κ :=
  let value := r.cut (valueOf s.sc e)
  let s' : State κ :=
    { s with
      sc := { s.sc with status := .idle }
      needAlarm := if r.untimed then false else s.needAlarm }
  if r.retries value then { s' with pc := update s.pc a (.begin r) }
  else
    { s' with
      pc := update s.pc a .away
      done := s.done ++ [⟨a, value, s.sc.waitSem, s.log a⟩] }

/-- One step; it does nothing where its thread cannot take it. -/
def step : Act κ → State κ
  | .call a r =>
    match s.pc a with
    | .away =>
      { s.fill a r with
        pc := update s.pc a (.begin r)
        log := update s.log a ⟨r.changes, [], []⟩ }
    | _ => s
  | .submit a =>
    match s.pc a with
    | .begin r =>
      if s.sc.locked = false ∧ s.sc.status = .idle then
        { s with
          sc :=
            { s.sc with
              ops := r.ops
              args := a
              status := .req
              result := 0
              error := 0 }
          needAlarm := if r.untimed then true else s.needAlarm
          pc := update s.pc a (.waiting r) }
      else s
    | _ => s
  | .handle found err => handle s found err
  | .wake a =>
    match s.pc a with
    | .waiting r =>
      if 0 < s.sc.waitSem then
        { s with
          sc := { s.sc with waitSem := s.sc.waitSem - 1 }
          pc := update s.pc a (.ended r .credit) }
      else s
    | _ => s
  | .expire a =>
    match s.pc a with
    | .waiting r =>
      if r.untimed = false ∧ s.sc.waitSem = 0 then
        { s with pc := update s.pc a (.ended r .timeout) }
      else s
    | _ => s
  | .fail a =>
    match s.pc a with
    | .waiting r => { s with pc := update s.pc a (.ended r .error) }
    | _ => s
  | .finish a =>
    match s.pc a with
    | .ended r e => finish s a r e
    | _ => s
  | .alarm =>
    if s.needAlarm then
      { s with
        sc := { s.sc with waitSem := s.sc.waitSem + 1 }
        needAlarm := false }
    else s

/-- A context without a request, and no thread in a call. -/
def start (ops : SocketOps) (args : Nat) (result error : Int) : State κ where
  sc :=
    { ops := ops
      args := args
      status := .idle
      locked := false
      error := error
      result := result
      waitSem := 0 }
  needAlarm := false
  epollArgs := fun _ => ⟨0, 0⟩
  keventArgs := fun _ => ⟨0, false⟩
  changes := fun _ => []
  pc := fun _ => .away
  log := fun _ => ⟨[], [], []⟩
  done := []
  stray := []

end FStack.Adapter.Wait
