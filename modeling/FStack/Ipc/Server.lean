import Mathlib.Logic.Function.Basic

/-!
# Control messages: the server

Model of the control messages' side of an F-Stack process: `handle_msg` with its handlers
(`lib/ff_dpdk_if.c:2238-2454`), `process_msg_ring` (`2456-2474`), the message itself and its types
(`lib/ff_msg.h:37-160`), and how `ff_msg_init` sets a message up (`lib/ff_dpdk_if.c:725-737`).

Messages live in memory that the processes and their clients share; rings and the pool hold their
addresses, here numbers. The members of the union a message carries are fields of their own.
Outside are what the stack's functions return and whether a ring takes a message.
-/

namespace FStack.Ipc

open Function

/-! ## Messages -/

/-- `struct ff_route_args`, without the data. -/
structure RouteArgs where
  fib : Int
  len : Nat
  maxlen : Nat
  deriving DecidableEq

/-- `struct ff_top_args`. -/
structure TopArgs where
  loops : Nat
  idleTsc : Nat
  workTsc : Nat
  sysTsc : Nat
  usrTsc : Nat
  deriving DecidableEq

/-- `struct ff_ngctl_args`, without the data. -/
structure NgctlArgs where
  cmd : Int
  ret : Int
  deriving DecidableEq

/-- `struct ff_ipfw_args`, without the option's value. -/
structure IpfwArgs where
  cmd : Int
  level : Int
  optname : Int
  deriving DecidableEq

/-- `struct ff_traffic_args`. -/
structure TrafficArgs where
  rxPackets : Nat
  rxBytes : Nat
  txPackets : Nat
  txBytes : Nat
  rxDropped : Nat
  txDropped : Nat
  deriving DecidableEq

/-- `struct ff_knictl_args`. -/
structure KnictlArgs where
  kniCmd : Int
  kniAction : Int
  deriving DecidableEq

/-- `struct ff_msg`. -/
structure Msg where
  msgType : Nat
  result : Int
  bufLen : Nat
  bufAddr : Nat
  originalBuf : Option Nat
  originalBufLen : Nat
  route : RouteArgs
  top : TopArgs
  ngctl : NgctlArgs
  ipfw : IpfwArgs
  traffic : TrafficArgs
  knictl : KnictlArgs
  deriving DecidableEq

/-- `FF_MSG_NUM`. -/
def ffMsgNum : Nat := 10

/-- `FF_KNICTL_CMD_GET`, `FF_KNICTL_CMD_SET`. -/
def kniCmdGet : Int := 0
/-- `FF_KNICTL_CMD_SET`. -/
def kniCmdSet : Int := 1

/-- `ENOTSUP`. -/
def enotsup : Int := 95

/-- The cases of `handle_msg`; `other` is its `default`. -/
inductive MsgCase where
  | sysctl
  | ioctl
  | route
  | top
  | ngctl
  | ipfwCtl
  | traffic
  | knictl
  | other
  deriving DecidableEq

/-- The options the server is built with. -/
structure Build where
  inet6 : Bool
  netgraph : Bool
  ipfw : Bool
  kni : Bool

variable (b : Build)

/-- The `switch (msg->msg_type)`. -/
def Build.caseOf : Nat → MsgCase
  | 1 => .sysctl
  | 2 => .ioctl
  | 3 => if b.inet6 then .ioctl else .other
  | 4 => .route
  | 5 => .top
  | 6 => if b.netgraph then .ngctl else .other
  | 7 => if b.ipfw then .ipfwCtl else .other
  | 8 => .traffic
  | 9 => if b.kni then .knictl else .other
  | _ => .other

/-! ## Handlers -/

/-- What the functions a handler calls return, and what they leave behind. -/
structure Calls where
  sysctl : Int
  socket : Int
  ioctl : Int
  rtioctl : Int
  /-- `route.len` as `ff_rtioctl` leaves it. -/
  routeLen : Nat
  ngctl : Int
  getsockopt : Int
  setsockopt : Int
  errno : Int
  /-- `ff_top_status` and `ff_traffic`. -/
  top : TopArgs
  traffic : TrafficArgs

/-- `msg->result` after a call that returned `ret`. -/
def resultOf (ret errno : Int) : Int := if ret < 0 then errno else 0

variable (c : Calls)

variable (m : Msg)

/-- `handle_sysctl_msg`. -/
def handleSysctlMsg : Msg := { m with result := resultOf c.sysctl c.errno }

/-- `handle_ioctl_msg`. -/
def handleIoctlMsg : Msg :=
  let ret := if c.socket < 0 then -1 else c.ioctl
  { m with result := resultOf ret c.errno }

/-- `handle_route_msg`. -/
def handleRouteMsg : Msg :=
  { m with
    route := { m.route with len := c.routeLen }
    result := resultOf c.rtioctl c.errno }

/-- `handle_top_msg`. -/
def handleTopMsg : Msg := { m with top := c.top, result := 0 }

/-- `handle_ngctl_msg`. -/
def handleNgctlMsg : Msg :=
  if c.ngctl < 0 then { m with result := c.errno }
  else { m with result := 0, ngctl := { m.ngctl with ret := c.ngctl } }

/-- `handle_ipfw_msg`. -/
def handleIpfwMsg : Msg :=
  if c.socket < 0 then { m with result := c.errno }
  else if m.ipfw.cmd = 0 then { m with result := resultOf c.getsockopt c.errno }
  else if m.ipfw.cmd = 1 then { m with result := resultOf c.setsockopt c.errno }
  else { m with result := enotsup }

/-- `handle_traffic_msg`. -/
def handleTrafficMsg : Msg := { m with traffic := c.traffic, result := 0 }

/-- `handle_knictl_msg`: `knictl_action` (0, 1 and 2 are the actions there are) and the message. -/
def handleKnictlMsg (action : Int) (m : Msg) : Int × Msg :=
  if m.knictl.kniCmd = kniCmdSet then
    if m.knictl.kniAction = 2 then (2, { m with result := 0 })
    else if m.knictl.kniAction = 1 then (1, { m with result := 0 })
    else if m.knictl.kniAction = 0 then (0, { m with result := 0 })
    else (action, { m with result := -1 })
  else if m.knictl.kniCmd = kniCmdGet then
    (action, { m with knictl := { m.knictl with kniAction := action } })
  else (action, { m with result := -2 })

/-- `handle_default_msg`. -/
def handleDefaultMsg : Msg := { m with result := enotsup }

/-- The `switch` of `handle_msg`. -/
def handled (c : Calls) (action : Int) (m : Msg) : Int × Msg :=
  match b.caseOf m.msgType with
  | .sysctl => (action, handleSysctlMsg c m)
  | .ioctl => (action, handleIoctlMsg c m)
  | .route => (action, handleRouteMsg c m)
  | .top => (action, handleTopMsg c m)
  | .ngctl => (action, handleNgctlMsg c m)
  | .ipfwCtl => (action, handleIpfwMsg c m)
  | .traffic => (action, handleTrafficMsg c m)
  | .knictl => handleKnictlMsg action m
  | .other => (action, handleDefaultMsg m)

/-! ## Shared memory -/

/-- The messages, the rings `ring[j]` of each process, and the pool; and `knictl_action` of each
process. A ring at an index of `FF_MSG_NUM` or more does not exist. -/
structure Shm where
  msg : Nat → Msg
  ring : Nat → Nat → List Nat
  pool : List Nat
  action : Nat → Int

/-- The original buffer put back, as `handle_msg` and `ff_ipc_msg_free` do. -/
def Msg.restore : Msg :=
  match m.originalBuf with
  | some buf => { m with bufAddr := buf, bufLen := m.originalBufLen, originalBuf := none }
  | none => m

/-- Writes a message of the shared memory. -/
def Shm.setMsg (s : Shm) (a : Nat) (m : Msg) : Shm := { s with msg := update s.msg a m }

/-- Writes ring `j` of process `p`. -/
def Shm.setRing (s : Shm) (p j : Nat) (l : List Nat) : Shm :=
  { s with ring := update s.ring p (update (s.ring p) j l) }

/-- A message put back into the pool. -/
def Shm.free (s : Shm) (a : Nat) : Shm :=
  let s := s.setMsg a (s.msg a).restore
  { s with pool := a :: s.pool }

/-- `handle_msg` of process `p`; `room` says whether the reply's ring takes the message. -/
def handleMsg (c : Calls) (room : Bool) (p : Nat) (s : Shm) (a : Nat) : Shm :=
  let r := handled b c (s.action p) (s.msg a)
  let s := { s.setMsg a r.2 with action := update s.action p r.1 }
  if room then s.setRing p r.2.msgType (s.ring p r.2.msgType ++ [a]) else s.free a

/-- What is outside, for each message of a burst in turn. -/
abbrev Outside := Nat → Calls × Bool

/-- `process_msg_ring` of process `p`: a burst of at most `MAX_PKT_BURST` messages. -/
def processMsgRing (o : Outside) (p : Nat) (s : Shm) : Shm :=
  let burst := (s.ring p 0).take 32
  let s := s.setRing p 0 ((s.ring p 0).drop 32)
  burst.zipIdx.foldl (fun s x => handleMsg b (o x.2).1 (o x.2).2 p s x.1) s

/-- A message as `ff_msg_init` leaves it: its own buffer, of the size the pool was made with. -/
structure Msg.Inline (base size : Nat) (m : Msg) : Prop where
  addr : m.bufAddr = base
  len : m.bufLen = size
  orig : m.originalBuf = none

end FStack.Ipc
