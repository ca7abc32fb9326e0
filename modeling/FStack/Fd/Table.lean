import Mathlib.Data.Int.Basic

/-!
# Descriptors of two stacks

Model of the descriptor calls of the library when it runs beside the kernel's stack
(`FF_KERNEL_COEXIST`, `kernel_coexist` on): `ff_socket`, `ff_close`, `ff_fcntl`, `ff_accept`,
`ff_dup` and `ff_dup2` (`lib/ff_syscall_wrapper.c:917-962`, `1155-1184`, `1581-1663`, `2163-2220`),
the map from an F-Stack descriptor to the host socket paired with it
(`lib/ff_host_interface.c:253-281`), the host epoll instances paired with kqueues
(`lib/ff_epoll.c:38-81`), and as much of `ff_epoll_ctl` and `ff_kevent` as makes such instances
(`ff_epoll.c:91-141`, `ff_syscall_wrapper.c:2070-2130`).

Outside are the two kernels: which free number a new descriptor gets, and which calls fail.
F-Stack's descriptors refer to open files, which `dup` shares (`freebsd/kern/kern_descrip.c`). A
host descriptor is kept with what it was made for, which the code does not see.
-/

namespace FStack.Fd

open Function

/-- `FF_KERNEL_FD_BASE`. -/
def kernelFdBase : Int := 0x40000000

/-- `FF_MAX_FREEBSD_FILES`. -/
def maxFreebsdFiles : Int := 65536

/-- `ff_is_kernel_fd`. -/
def isKernelFd (fd : Int) : Bool := kernelFdBase ≤ fd

/-- `ff_kernel_fd_encode`. -/
def kernelFdEncode (h : Int) : Int := h + kernelFdBase

/-- `ff_kernel_fd_real`. -/
def kernelFdReal (fd : Int) : Int := fd - kernelFdBase

/-- What a host descriptor was made for: the application, the socket `x` of F-Stack, the file `x`
that is paired with a host epoll (if the number was of an open file), or nothing that can be
reached. -/
inductive Role where
  | app
  | pair (x : Nat)
  | ep (x : Option Nat)
  | lost
  deriving DecidableEq

/-- A slot of `ff_epoll_pairs`. -/
structure Pair where
  kq : Int
  hostEp : Int
  deriving DecidableEq

/-- The descriptors of F-Stack and of the host, and the tables between them. -/
structure St where
  /-- F-Stack's descriptors, and the files they refer to. -/
  file : Int → Option Nat
  /-- The number of the next file. -/
  next : Nat
  /-- The host's descriptors. -/
  host : Int → Option Role
  /-- `ff_native_fd_map`. -/
  map : Int → Int
  /-- `ff_epoll_pairs`. -/
  pairs : Nat → Pair
  /-- The host descriptors the application holds, as encoded ones. -/
  kfds : Int → Bool
  /-- The host socket, and the host epoll, made for a file. -/
  made : Nat → Option Int
  madeEp : Nat → Option Int

/-- Nothing is open. -/
def St.init : St where
  file := fun _ => none
  next := 0
  host := fun _ => none
  map := fun _ => 0
  pairs := fun _ => ⟨0, 0⟩
  kfds := fun _ => false
  made := fun _ => none
  madeEp := fun _ => none

/-! ## The kernels -/

variable (s : St)

/-- A number F-Stack can give to a new descriptor. -/
def St.freeFd (f : Int) : Bool := 0 ≤ f && f < kernelFdBase && (s.file f).isNone

/-- A number the host can give to a new descriptor. -/
def St.freeHost (h : Int) : Bool := 0 ≤ h && (s.host h).isNone

/-- A new descriptor of a new file. -/
def St.openFile (f : Int) : St :=
  { s with file := update s.file f (some s.next), next := s.next + 1 }

/-- A host descriptor is opened, closed or given another role. -/
def St.setHost (h : Int) (r : Option Role) : St :=
  { s with host := update s.host h r }

/-- A host descriptor that the application gets. -/
def St.handOut (h : Int) : St :=
  { s.setHost h (some .app) with kfds := update s.kfds h true }

/-! ## The map and the pairs -/

/-- `ff_native_fd_map` at a descriptor; out of range it is 0. -/
def St.mapGet (fd : Int) : Int :=
  if fd < 0 ∨ maxFreebsdFiles ≤ fd then 0 else s.map fd

/-- Stores in `ff_native_fd_map`; out of range nothing happens. -/
def St.mapSet (fd h : Int) : St :=
  if 0 ≤ fd ∧ fd < maxFreebsdFiles then { s with map := update s.map fd h } else s

/-- The slot that pairs `kq`. -/
def St.slotOf (kq : Int) : Option Nat :=
  (List.range 4).find? fun i => 0 < (s.pairs i).hostEp && (s.pairs i).kq == kq

/-- The first free entry of the kqueue table. -/
def St.freeSlot : Option Nat :=
  (List.range 4).find? fun i => !(0 < (s.pairs i).hostEp : Bool)

/-- `ff_epoll_host_ep`; `ep` is what `epoll_create1` returns. -/
def ffEpollHostEp (kq : Int) (create : Bool) (ep : Option Int) : St × Int :=
  match s.slotOf kq with
  | some i => (s, (s.pairs i).hostEp)
  | none =>
    match create, s.freeSlot, ep with
    | true, some i, some ep =>
      if s.freeHost ep then
        let x := s.file kq
        let s := s.setHost ep (some (.ep x))
        let s := match x with
          | some x => { s with madeEp := update s.madeEp x (some ep) }
          | none => s
        if 0 < ep then ({ s with pairs := update s.pairs i ⟨kq, ep⟩ }, ep) else (s, -1)
      else (s, -1)
    | _, _, _ => (s, -1)

/-- `ff_epoll_close_pair`. -/
def ffEpollClosePair (kq : Int) : St :=
  match s.slotOf kq with
  | some i =>
    { s.setHost (s.pairs i).hostEp none with pairs := update s.pairs i ⟨0, 0⟩ }
  | none => s

/-! ## The calls -/

/-- `ff_socket`; `f` and `h` are what the two kernels return. -/
def ffSocket (kernel fstack : Bool) (f h : Option Int) : St × Int :=
  if kernel && !fstack then
    match h with
    | some h => if s.freeHost h then (s.handOut h, kernelFdEncode h) else (s, -1)
    | none => (s, -1)
  else
    match f with
    | none => (s, -1)
    | some f =>
      if s.freeFd f then
        let x := s.next
        let s := s.openFile f
        match fstack, h with
        | false, some h =>
          if s.freeHost h then
            let s := { s.setHost h (some (.pair x)) with made := update s.made x (some h) }
            (s.mapSet f h, f)
          else (s, f)
        | _, _ => (s, f)
      else (s, -1)

/-- `ff_kqueue`, which is `ff_epoll_create` as well. -/
def ffKqueue (f : Option Int) : St × Int :=
  match f with
  | none => (s, -1)
  | some f => if s.freeFd f then (s.openFile f, f) else (s, -1)

/-- `ff_close`. When `kern_close` finds the descriptor it frees it, and may return an error
still. -/
def ffClose (fd : Int) (kernErr : Bool) : St × Int :=
  if isKernelFd fd then
    let h := kernelFdReal fd
    if (s.host h).isSome then
      ({ s.setHost h none with kfds := update s.kfds h false }, 0)
    else (s, -1)
  else if (s.file fd).isNone then (s, -1)
  else
    let s := { s with file := update s.file fd none }
    if kernErr then (s, -1)
    else
      let hfd := s.mapGet fd
      let s := if 0 < hfd then (s.setHost hfd none).mapSet fd 0 else s
      (ffEpollClosePair s fd, 0)

section

variable (old new : Int)

/-- `dup` in the host, of an object of the given role; the application gets the descriptor. -/
def hostDup : St × Int :=
  match s.host old with
  | none => (s, -1)
  | some r =>
    if s.freeHost new then
      ({ s.setHost new (some r) with kfds := update s.kfds new true }, kernelFdEncode new)
    else (s, -1)

/-- `kern_dup` to a number F-Stack chooses. -/
def kernDup : St × Int :=
  match s.file old with
  | none => (s, -1)
  | some x =>
    if s.freeFd new then ({ s with file := update s.file new (some x) }, new) else (s, -1)

/-- `kern_dup` to a number the caller chooses, below the limit `maxfd`. -/
def kernDup2 (maxfd old new : Int) : St × Int :=
  if new < 0 ∨ maxfd ≤ new ∨ kernelFdBase ≤ new then (s, -1)
  else
    match s.file old with
    | none => (s, -1)
    | some x => ({ s with file := update s.file new (some x) }, new)

/-- `ff_dup`; `new` is the number the kernel chooses. -/
def ffDup : St × Int :=
  if isKernelFd old then hostDup s (kernelFdReal old) new else kernDup s old new

/-- `ff_dup2`. -/
def ffDup2 (maxfd old new : Int) : St × Int :=
  if isKernelFd old != isKernelFd new then (s, -1)
  else if isKernelFd old && isKernelFd new then
    match s.host (kernelFdReal old) with
    | none => (s, -1)
    | some r =>
      ({ s.setHost (kernelFdReal new) (some r) with
          kfds := update s.kfds (kernelFdReal new) true }, new)
  else kernDup2 s maxfd old new

/-- The commands with which the host's `fcntl` makes a descriptor: `F_DUPFD`, `F_DUPFD_CLOEXEC`. -/
def hostDups (cmd : Int) : Bool := cmd == 0 || cmd == 1030

/-- The commands with which F-Stack's makes one, after `linux2freebsd_fcntl`: `F_DUPFD`,
`F_DUPFD_CLOEXEC`, `F_DUPFD_CLOFORK`. -/
def kernDups (cmd : Int) : Bool := cmd == 0 || cmd == 17 || cmd == 23

/-- `F_DUP2FD`, `F_DUP2FD_CLOEXEC`, and `F_DUP3FD` with `FD_CLOEXEC` or `FD_CLOFORK` above it. -/
def kernDup2s (cmd : Int) : Bool :=
  cmd == 10 || cmd == 18 || (cmd % 65536 == 24 && [0, 1, 4, 5].contains (cmd / 65536))

/-- A host descriptor made by `fcntl`, which no encoded descriptor stands for. -/
def hostDupLost : St :=
  if (s.host old).isSome && s.freeHost new then s.setHost new (some .lost) else s

end

/-- `ff_fcntl`; `new` and `hnew` are the numbers the kernels choose, if the command makes a
descriptor. -/
def ffFcntl (maxfd fd cmd arg new hnew : Int) : St × Int :=
  if isKernelFd fd then
    if hostDups cmd then (hostDupLost s (kernelFdReal fd) hnew, hnew) else (s, 0)
  else
    let s := if 0 < s.mapGet fd && hostDups cmd then hostDupLost s (s.mapGet fd) hnew else s
    if kernDups cmd then kernDup s fd new
    else if kernDup2s cmd then kernDup2 s maxfd fd arg
    else (s, if (s.file fd).isSome then 0 else -1)

/-- The host's `accept` on a listening descriptor of the host; `h` is what it returns. -/
def hostAccept (listening : Int) (h : Option Int) : St × Int :=
  match s.host listening, h with
  | some _, some h => if s.freeHost h then (s.handOut h, kernelFdEncode h) else (s, -1)
  | _, _ => (s, -1)

/-- `ff_accept` and `ff_accept4`; `f` is what `kern_accept` returns (none is `EAGAIN`), `h` what the
host's `accept` does. -/
def ffAccept (fd : Int) (f h : Option Int) : St × Int :=
  if isKernelFd fd then hostAccept s (kernelFdReal fd) h
  else if (s.file fd).isNone then (s, -1)
  else
    match f with
    | some f => if s.freeFd f then (s.openFile f, f) else (s, -1)
    | none => if 0 < s.mapGet fd then hostAccept s (s.mapGet fd) h else (s, -1)

/-- What `ff_epoll_ctl` and `ff_kevent_host_change` do to the pairs, for a descriptor `fd` of the
host or paired with one. -/
def hostRegister (kq fd : Int) (create : Bool) (ep : Option Int) : St :=
  if isKernelFd fd || (0 < s.mapGet fd : Bool) then (ffEpollHostEp s kq create ep).1 else s

/-- `EPOLL_CTL_ADD`, `EPOLL_CTL_MOD` or `EPOLL_CTL_DEL`; other operations are refused. -/
inductive CtlOp where
  | add
  | mod
  | del
  deriving DecidableEq

/-- `ff_epoll_ctl`, for an operation there is and an event unless it is `EPOLL_CTL_DEL`. -/
def ffEpollCtl (epfd : Int) (op : CtlOp) (fd : Int) (ep : Option Int) : St :=
  hostRegister s epfd fd (op != .del) ep

/-- The flags of a change that `ff_kevent_host_change` looks at. -/
structure Change where
  ident : Int
  evAdd : Bool
  evDelete : Bool
  evEnable : Bool

/-- `ff_kevent_host_change`. -/
def ffKeventHostChange (kq : Int) (c : Change) (ep : Option Int) : St :=
  if c.evDelete || c.evAdd || c.evEnable then hostRegister s kq c.ident (!c.evDelete) ep else s

/-- The changes of `ff_kevent`, each with what `epoll_create1` returns. -/
def ffKevent (kq : Int) (changes : List (Change × Option Int)) : St :=
  changes.foldl (fun s c => ffKeventHostChange s kq c.1 c.2) s

/-! ## Runs -/

/-- A call of the API, with the descriptors that the stacks hand out in it. -/
inductive Op where
  | socket (kernel fstack : Bool) (f h : Option Int)
  | kqueue (f : Option Int)
  | close (fd : Int) (kernErr : Bool)
  | dup (old new : Int)
  | dup2 (maxfd old new : Int)
  | fcntl (maxfd fd cmd arg new hnew : Int)
  | accept (fd : Int) (f h : Option Int)
  | epollCtl (epfd : Int) (op : CtlOp) (fd : Int) (ep : Option Int)
  | kevent (kq : Int) (changes : List (Change × Option Int))

/-- One call. -/
def step : Op → St
  | .socket kernel fstack f h => (ffSocket s kernel fstack f h).1
  | .kqueue f => (ffKqueue s f).1
  | .close fd kernErr => (ffClose s fd kernErr).1
  | .dup old new => (ffDup s old new).1
  | .dup2 maxfd old new => (ffDup2 s maxfd old new).1
  | .fcntl maxfd fd cmd arg new hnew => (ffFcntl s maxfd fd cmd arg new hnew).1
  | .accept fd f h => (ffAccept s fd f h).1
  | .epollCtl epfd op fd ep => ffEpollCtl s epfd op fd ep
  | .kevent kq changes => ffKevent s kq changes

/-- The state after a sequence of calls. -/
def run (ops : List Op) : St := ops.foldl step .init

end FStack.Fd
