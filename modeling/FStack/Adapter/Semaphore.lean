import FStack.Lib.Slot

/-!
# The syscall adapter, semaphore mode: calls through one socket context

Model of how application threads hand their calls to the F-Stack loop through a socket context
(`adapter/syscall/ff_socket_ops.h:110-141`) when the adapter is built without ring IPC: the macro
`SYSCALL` with `ACQUIRE_ZONE_LOCK` and `RELEASE_ZONE_LOCK`
(`adapter/syscall/ff_hook_syscall.c:152-198`), `ff_handle_socket_ops`
(`adapter/syscall/ff_socket_ops.c:553-618`) with the dirty read that `ff_handle_each_context` makes
before it (`adapter/syscall/ff_socket_ops.c:711-714`), and the lock that `ff_hook_fork` takes on the
context (`adapter/syscall/ff_hook_syscall.c:2425-2487`).

* Each load, each store, each lock and each unlock is one step; `Pc` and `ServerPc` name the
  step that comes next. Steps of different threads interleave in any way.
* The callers are threads of any number of processes. A forked child is another caller: it inherits
  the context, and only the parent releases the lock that `ff_hook_fork` took.
* What `ff_so_handler` returns, `errno` after it and the flag `sem_flag` come from outside. The
  arguments of a request are the address the caller stores.
* `trace` is what a reader of the run sees: a request is submitted when `status` becomes
  `FF_SC_REQ`, executed when the handler is called, answered when the macro ends.
-/

namespace FStack.Adapter

open Function FStack.Lib

/-- `enum FF_SOCKET_OPS`. -/
inductive SocketOps where
  | socket | listen | bind | connect | shutdown | getsockname | getpeername | getsockopt
  | setsockopt | accept | accept4 | recv | recvfrom | recvmsg | read | readv | send | sendto
  | sendmsg | write | writev | close | ioctl | fcntl | epollCreate | epollCtl | epollWait
  | kqueue | kevent | fork | registerApplication | exitApplication | select
  deriving DecidableEq

/-- `enum FF_SO_CONTEXT_STATUS`. -/
inductive Status where
  | idle | req | rep
  deriving DecidableEq

/-- The order in which the status of a context goes round. -/
def Status.next : Status → Status
  | .idle => .req
  | .req => .rep
  | .rep => .idle

/-- What the handler is called with. -/
abbrev Call := SocketOps × Nat

/-- What a call gives back: its value, and the `errno` it sets when that is negative. -/
structure Reply where
  ret : Int
  errno : Option Int
  deriving DecidableEq

/-- What a caller makes of a result and an error. -/
def replyOf (result error : Int) : Reply :=
  { ret := result, errno := if result < 0 then some error else none }

namespace Semaphore

/-- `struct ff_so_context`, with the lock and the semaphore of the request. -/
structure Context where
  ops : SocketOps
  args : Nat
  status : Status
  locked : Bool
  error : Int
  result : Int
  waitSem : Nat
  deriving DecidableEq

/-- A request of `SYSCALL`. The hooks of `epoll_wait` and `kevent` do not use the macro. -/
structure Request where
  ops : SocketOps
  args : Nat
  plain : ops ≠ .epollWait ∧ ops ≠ .kevent
  deriving DecidableEq

/-! ## The callers -/

/-- Where a caller stands in `SYSCALL` or in `fork`. -/
inductive Pc where
  | away
  -- `ACQUIRE_ZONE_LOCK(FF_SC_IDLE)`
  | spinIdle (r : Request)
  | lockIdle (r : Request)
  | testIdle (r : Request)
  | retryIdle (r : Request)
  | storeOps (r : Request)
  | storeArgs (r : Request)
  -- `RELEASE_ZONE_LOCK(FF_SC_REQ)`
  | setReq (r : Request)
  | unlockReq
  -- `ACQUIRE_ZONE_LOCK(FF_SC_REP)`
  | spinRep
  | lockRep
  | testRep
  | retryRep
  | readResult
  | readError (ret : Int)
  -- `RELEASE_ZONE_LOCK(FF_SC_IDLE)`
  | setIdle (x : Reply)
  | unlockIdle (x : Reply)
  -- `ff_hook_fork`
  | forkLock
  | forkUnlock
  deriving DecidableEq

/-- The next step of a caller at `pc`. A step of a lock that is taken waits. -/
def callerStep (sc : Context) : Pc → Context × Pc
  | .away => (sc, .away)
  | .spinIdle r => (sc, if sc.status = .idle then .lockIdle r else .spinIdle r)
  | .lockIdle r =>
    if sc.locked then (sc, .lockIdle r) else ({ sc with locked := true }, .testIdle r)
  | .testIdle r => (sc, if sc.status = .idle then .storeOps r else .retryIdle r)
  | .retryIdle r => ({ sc with locked := false }, .spinIdle r)
  | .storeOps r => ({ sc with ops := r.ops }, .storeArgs r)
  | .storeArgs r => ({ sc with args := r.args }, .setReq r)
  | .setReq _ => ({ sc with status := .req }, .unlockReq)
  | .unlockReq => ({ sc with locked := false }, .spinRep)
  | .spinRep => (sc, if sc.status = .rep then .lockRep else .spinRep)
  | .lockRep => if sc.locked then (sc, .lockRep) else ({ sc with locked := true }, .testRep)
  | .testRep => (sc, if sc.status = .rep then .readResult else .retryRep)
  | .retryRep => ({ sc with locked := false }, .spinRep)
  | .readResult =>
    (sc, if sc.result < 0 then .readError sc.result else .setIdle ⟨sc.result, none⟩)
  | .readError ret => (sc, .setIdle ⟨ret, some sc.error⟩)
  | .setIdle x => ({ sc with status := .idle }, .unlockIdle x)
  | .unlockIdle _ => ({ sc with locked := false }, .away)
  | .forkLock => if sc.locked then (sc, .forkLock) else ({ sc with locked := true }, .forkUnlock)
  | .forkUnlock => ({ sc with locked := false }, .away)

/-! ## The F-Stack loop -/

/-- Where the loop stands in `ff_handle_each_context` and `ff_handle_socket_ops`. -/
inductive ServerPc where
  /-- In `ff_handle_each_context`, before the dirty read of `status`. -/
  | away
  | tryLock
  | test
  | readOps
  | readArgs (ops : SocketOps)
  | handle (ops : SocketOps) (args : Nat)
  | storeResult (result error : Int)
  | storeError (error : Int)
  | setRep
  | unlock
  deriving DecidableEq

/-- What the handler gives: its result, `errno` after it, and `sem_flag`. -/
structure Handled where
  result : Int
  error : Int
  semFlag : Bool

/-- The end of `ff_handle_socket_ops`: `polling` is `FF_PRELOAD_POLLING_MODE`. -/
def reply (polling semFlag : Bool) (sc : Context) : Context :=
  if sc.ops = .epollWait ∨ sc.ops = .kevent then
    if polling then
      if semFlag ∧ sc.ops = .epollWait then { sc with status := .rep } else sc
    else if semFlag then { sc with status := .rep, waitSem := sc.waitSem + 1 } else sc
  else { sc with status := .rep }

/-- One step of the loop on the context. -/
def serverStep (polling : Bool) (semFlag : Bool) (x : Handled) (sc : Context) :
    ServerPc → Context × ServerPc
  | .away => (sc, if sc.status = .req then .tryLock else .away)
  | .tryLock => if sc.locked then (sc, .away) else ({ sc with locked := true }, .test)
  | .test => (sc, if sc.status = .req then .readOps else .unlock)
  | .readOps => (sc, .readArgs sc.ops)
  | .readArgs ops => (sc, .handle ops sc.args)
  | .handle _ _ => (sc, .storeResult x.result x.error)
  | .storeResult result error => ({ sc with result := result }, .storeError error)
  | .storeError error => ({ sc with error := error }, .setRep)
  | .setRep => (reply polling semFlag sc, .unlock)
  | .unlock => ({ sc with locked := false }, .away)

/-! ## The system -/

/-- The context, its callers and the loop, with the trace of requests and answers. -/
structure State (α : Type) where
  sc : Context
  pc : α → Pc
  server : ServerPc
  semFlag : Bool
  trace : List (Slot.Event α Call Reply)

/-- Which party goes on. -/
inductive Act (α : Type) where
  /-- A thread that is in no call starts one. -/
  | call (a : α) (r : Request)
  /-- A thread that is in no call forks. -/
  | fork (a : α)
  | caller (a : α)
  | server (x : Handled)

variable {α : Type} [DecidableEq α]

/-- What a caller's step adds to the trace. -/
def callerEvents (a : α) : Pc → List (Slot.Event α Call Reply)
  | .setReq r => [.submit a (r.ops, r.args)]
  | .unlockIdle x => [.answer a x]
  | _ => []

/-- What the loop's step adds to the trace. -/
def serverEvents (x : Handled) : ServerPc → List (Slot.Event α Call Reply)
  | .handle ops args => [.execute (ops, args) (replyOf x.result x.error)]
  | _ => []

/-- The handler sets `sem_flag`. -/
def flagAfter (x : Handled) (semFlag : Bool) : ServerPc → Bool
  | .handle _ _ => x.semFlag
  | _ => semFlag

/-- One step of a caller or of the loop. -/
def step (polling : Bool) (s : State α) : Act α → State α
  | .call a r => if s.pc a = .away then { s with pc := update s.pc a (.spinIdle r) } else s
  | .fork a => if s.pc a = .away then { s with pc := update s.pc a .forkLock } else s
  | .caller a =>
    { s with
      sc := (callerStep s.sc (s.pc a)).1
      pc := update s.pc a (callerStep s.sc (s.pc a)).2
      trace := s.trace ++ callerEvents a (s.pc a) }
  | .server x =>
    { s with
      sc := (serverStep polling s.semFlag x s.sc s.server).1
      server := (serverStep polling s.semFlag x s.sc s.server).2
      semFlag := flagAfter x s.semFlag s.server
      trace := s.trace ++ serverEvents x s.server }

/-- A context as `ff_attach_so_context` gives it: unlocked and idle, the rest as it is. -/
def start (ops : SocketOps) (args : Nat) (result error : Int) (waitSem : Nat) : State α where
  sc :=
    { ops := ops
      args := args
      status := .idle
      locked := false
      error := error
      result := result
      waitSem := waitSem }
  pc := fun _ => .away
  server := .away
  semFlag := false
  trace := []

end Semaphore

end FStack.Adapter
