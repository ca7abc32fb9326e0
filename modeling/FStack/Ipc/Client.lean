import FStack.Ipc.Server
import Mathlib.Algebra.Group.Nat.Defs

/-!
# Control messages: the clients

Model of the tools that talk to F-Stack processes: `ff_ipc_msg_alloc`, `ff_ipc_msg_free`,
`ff_ipc_send` and `ff_ipc_recv` (`tools/compat/ff_ipc.c:94-192`), and the calls `sysctl`
(`tools/compat/sysctl.c:35-141`), `rtioctl` (`tools/compat/rtioctl.c:73-137`) and `knictl_status`
(`tools/knictl/knictl.c:47-84`) on top of them. Any number of clients run beside the processes; a
step is one operation on the pool, on a ring or on a message, of a client or of a process.

Outside are the choice of the message the pool gives, the outcome of `rte_malloc`, whether a ring
takes a message, and when a client gives up waiting.

A process's rings have one producer and one consumer (`RING_F_SP_ENQ | RING_F_SC_DEQ`,
`lib/ff_dpdk_if.c:766-775`), so an operation of a client on one of them is a single step only while
no other client is at the rings of that process. The model is of such clients; `Alone` says it of
one that starts a call.
-/

namespace FStack.Ipc

/-! ## Calls -/

/-- The sizes `sysctl` is called with. -/
structure SysctlCall where
  namelen : Nat
  old : Bool
  oldlenp : Option Nat
  newlen : Nat

/-- `total_len`, a `size_t`. -/
def SysctlCall.totalLen (c : SysctlCall) : Nat :=
  (c.namelen * 4 + 8 + (if c.old then c.oldlenp.getD 0 else 0) + c.newlen) % 2 ^ 64

/-- A call of a tool. -/
inductive Call where
  | sysctl (c : SysctlCall)
  | rtioctl (fib : Int) (len readLen : Nat)
  | knictl (args : KnictlArgs)

/-- `old != NULL && oldlenp == NULL`. -/
def Call.invalid : Call → Bool
  | .sysctl c => c.old && c.oldlenp.isNone
  | _ => false

/-- A call under way: to which process, and with which message. -/
structure Req where
  call : Call
  proc : Nat
  msg : Nat

/-- What a client writes into its message; `none` if it gives up. `buf` is what `rte_malloc`
returns. -/
def Call.fill (call : Call) (buf : Option Nat) (m : Msg) : Option Msg :=
  match call with
  | .sysctl c =>
    if m.bufLen < c.totalLen then
      buf.map fun b => { m with
        msgType := 1
        originalBuf := some m.bufAddr
        originalBufLen := m.bufLen
        bufAddr := b
        bufLen := c.totalLen }
    else some { m with msgType := 1 }
  | .rtioctl fib len readLen =>
    if m.bufLen < len then none
    else
      let readLen := min readLen m.bufLen
      some { m with
        msgType := 4
        route := ⟨fib, len, if readLen = 0 then len else readLen⟩
        bufAddr := m.bufAddr + len }
  | .knictl args => some { m with msgType := 9, knictl := args }

/-! ## Clients -/

/-- Where a client is. -/
inductive Client where
  | idle
  /-- The message is allocated. -/
  | alloced (r : Req)
  /-- The message is filled in. -/
  | filled (r : Req)
  /-- The message is sent; `ff_ipc_recv` looks at the ring of type `j`, once it is called. -/
  | waiting (r : Req) (j : Option Nat)
  /-- Another message came, which is to be freed. -/
  | stale (r : Req) (ret : Nat)
  /-- The message came back. -/
  | replied (r : Req)

/-- The call a client is in. -/
def Client.req : Client → Option Req
  | .idle => none
  | .alloced r | .filled r | .waiting r _ | .stale r _ | .replied r => some r

/-- The message a client may write to and free. -/
def Client.owned : Client → List Nat
  | .idle => []
  | .alloced r => [r.msg]
  | .filled r => [r.msg]
  | .waiting _ _ => []
  | .stale _ ret => [ret]
  | .replied r => [r.msg]

/-- The shared memory, the clients, and the messages of each process's current burst that it has
not handled yet. -/
structure Sys where
  shm : Shm
  client : Nat → Client
  busy : Nat → List Nat

variable (s : Sys)

/-- No client but `c` is in a call to process `p`. -/
def Alone (c p : Nat) : Prop := ∀ c', c' ≠ c → ∀ r, (s.client c').req = some r → r.proc ≠ p

/-- The shared memory is written to. -/
def Sys.setShm (shm : Shm) : Sys := { s with shm := shm }

section

variable (c : Nat)

/-- A client goes on. -/
def Sys.setClient (st : Client) : Sys :=
  { s with client := Function.update s.client c st }

/-- A process has the messages `l` to handle. -/
def Sys.setBusy (p : Nat) (l : List Nat) : Sys :=
  { s with busy := Function.update s.busy p l }

/-- `ff_ipc_msg_alloc` gives the message `a`. -/
def startCall (r : Req) : Sys :=
  match s.client c with
  | .idle =>
    if r.call.invalid then s
    else if r.msg ∈ s.shm.pool then
      (s.setShm { s.shm with pool := s.shm.pool.erase r.msg }).setClient c (.alloced r)
    else s
  | _ => s

/-- The client fills the message in, or frees it. -/
def fillMsg (buf : Option Nat) : Sys :=
  match s.client c with
  | .alloced r =>
    match r.call.fill buf (s.shm.msg r.msg) with
    | some m => (s.setShm (s.shm.setMsg r.msg m)).setClient c (.filled r)
    | none => (s.setShm (s.shm.free r.msg)).setClient c .idle
  | _ => s

/-- `ff_ipc_send`. -/
def sendMsg (room : Bool) : Sys :=
  match s.client c with
  | .filled r =>
    if room then
      (s.setShm (s.shm.setRing r.proc 0 (s.shm.ring r.proc 0 ++ [r.msg]))).setClient c
        (.waiting r none)
    else (s.setShm (s.shm.free r.msg)).setClient c .idle
  | _ => s

/-- `ff_ipc_recv` is called with the type the message has then, and attempts to take a message from
that type's ring. -/
def recvMsg : Sys :=
  match s.client c with
  | .waiting r none => s.setClient c (.waiting r (some (s.shm.msg r.msg).msgType))
  | .waiting r (some j) =>
    match s.shm.ring r.proc j with
    | [] => s
    | ret :: rest =>
      (s.setShm (s.shm.setRing r.proc j rest)).setClient c
        (if ret = r.msg then .replied r else .stale r ret)
  | _ => s

/-- `ff_ipc_recv` fails; only `knictl_status` frees its message then. -/
def giveUp : Sys :=
  match s.client c with
  | .waiting r _ =>
    match r.call with
    | .knictl _ => (s.setShm (s.shm.free r.msg)).setClient c .idle
    | _ => s.setClient c .idle
  | _ => s

/-- `ff_ipc_msg_free` of a message that came back; after another's the client waits on. -/
def freeMsg : Sys :=
  match s.client c with
  | .stale r ret => (s.setShm (s.shm.free ret)).setClient c (.waiting r none)
  | .replied r => (s.setShm (s.shm.free r.msg)).setClient c .idle
  | _ => s

end

/-! ## Processes -/

/-- `rte_ring_dequeue_burst` of `process_msg_ring`. -/
def takeBurst (p : Nat) : Sys :=
  match s.busy p with
  | [] => (s.setShm (s.shm.setRing p 0 ((s.shm.ring p 0).drop 32))).setBusy p
      ((s.shm.ring p 0).take 32)
  | _ => s

/-- A round of the loop of `process_msg_ring`. -/
def handleNext (b : Build) (s : Sys) (p : Nat) (calls : Calls) (room : Bool) : Sys :=
  match s.busy p with
  | [] => s
  | a :: rest => (s.setShm (handleMsg b calls room p s.shm a)).setBusy p rest

/-! ## Runs -/

/-- A step of client `c` or of process `p`. -/
inductive Op where
  | start (c : Nat) (r : Req)
  | fill (c : Nat) (buf : Option Nat)
  | send (c : Nat) (room : Bool)
  | recv (c : Nat)
  | giveUp (c : Nat)
  | free (c : Nat)
  | takeBurst (p : Nat)
  | handle (p : Nat) (calls : Calls) (room : Bool)

/-- One step. -/
def step (b : Build) (s : Sys) : Op → Sys
  | .start c r => startCall s c r
  | .fill c buf => fillMsg s c buf
  | .send c room => sendMsg s c room
  | .recv c => recvMsg s c
  | .giveUp c => giveUp s c
  | .free c => freeMsg s c
  | .takeBurst p => takeBurst s p
  | .handle p calls room => handleNext b s p calls room

/-- The state after the steps `ops`. -/
def run (b : Build) (s : Sys) (ops : List Op) : Sys := ops.foldl (step b) s

end FStack.Ipc
