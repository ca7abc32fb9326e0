import FStack.Lib.Framing
import FStack.MicroThread.Kqueue
import Mathlib.Algebra.GroupWithZero.Nat

/-!
# Micro threads: a TCP link shared by requests

Model of `CNetHandler` and of `CSockLink` for TCP (`adapter/micro_thread/mt_net.cpp:176-683,
721-1118, 1355-1443`). Micro threads call `SendRecv`, each with a handler of its own, on one link.
A handler is in one of the four lists of the link: while its thread waits for the connection, for
room in the socket or for the response, and otherwise in the idle list.

A step is what runs between two switches of the scheduler.

* `sendRecv`: a thread begins a call, and goes on as far as it gets without waiting.
* `resume`: `WaitNotify` returns in a thread that waits, because it has been notified or because its
  time is over. It may do so at any time.
* `output`, `input`, `hangup`: the notifications of the link. `input` switches the sessions for
  which a response has come to the idle list, and destroys the link if it has failed. The sessions
  are found in a table that all links share, so they are any handlers.
* `timer`: the link is destroyed because it was not used for long.

What the environment does is given with the step: whether the parameters and the session are
accepted and a link is found, the descriptor `socket` returns (never 0, which `CreateSock` takes for
none), whether `connect` succeeds at once, and `writev`. `ff_kevent` does not fail.

A destroyed link is given back and may be taken again, for a new connection. What was written to the
connection (`wire`, with the number of the call that each byte is of), how many connections have
been closed (`conns`) and the requests of all calls are recorded.

Left out: UDP, the responses and the receive cache, the threads that are notified, `_send_pos`, and
which of the links of a destination is taken.
-/

namespace FStack.MicroThread

open Function FStack.Lib

/-- `LINK_IDLE_LIST`, `LINK_CONN_LIST`, `LINK_SEND_LIST`, `LINK_RECV_LIST`. -/
inductive LinkList where
  | idle
  | conn
  | send
  | recv
deriving DecidableEq

/-- Where a call is: not behind `WaitConnect`, in `WaitSend` or in `WaitRecv`. -/
inductive Phase where
  | connect
  | send
  | recv
deriving DecidableEq

/-- The data of a request; its length is a `uint32_t`. -/
structure Request where
  data : List UInt8
  fits : data.length < 2 ^ 32

/-- `CNetHandler`. `list` is the list of the link it is in, none if it has no link; `reqData` is
what is left to send; `call` is the number of its last call, and `phase` where that is, none if it
is over. -/
structure NetHandler where
  call : Nat
  reqData : List UInt8
  errNo : Int
  list : Option LinkList
  phase : Option Phase

/-- Why `writev` has failed: `EAGAIN` or `EINTR`, or something else. -/
inductive Errno where
  | again
  | other

/-- What `writev` finds: room for so many bytes, or a failure. -/
abbrev Room := Except Errno Nat

/-- The most bytes a `writev` takes. -/
def maxRwCount : Nat := 0x7ffff000

/-- The pieces of a `writev`, with the call each is of. A piece whose length is negative as an
`int32_t` is refused. -/
def writev (iov : List (Nat × List UInt8)) : Room → Except Errno Nat
  | .error errno => .error errno
  | .ok room =>
    if iov.any (fun piece => 2 ^ 31 ≤ piece.2.length) then .error .other
    else .ok (min room (min maxRwCount (iov.map (·.2.length)).sum))

/-- `RC_SEND_FAIL`. -/
def RC_SEND_FAIL : Int := -2
/-- `RC_KQUEUE_ERROR`. -/
def RC_KQUEUE_ERROR : Int := -14

/-- `CSockLink`, its handlers and the kqueue proxy. -/
structure Link (ι : Type) where
  fd : Int
  events : BitVec 32
  connecting : Bool
  connected : Bool
  errno : Int
  sendOnly : Bool
  lists : LinkList → List ι
  handlers : ι → NetHandler
  proxy : KqueueProxy Unit
  calls : Nat
  requests : Nat → List UInt8
  wire : List (Nat × UInt8)
  conns : Nat

namespace Link

variable {ι : Type} [DecidableEq ι]

/-- A link before it is taken for the first time. -/
def init (sendOnly : Bool) (maxfd : Nat) : Link ι where
  fd := -1
  events := 0
  connecting := false
  connected := false
  errno := 0
  sendOnly := sendOnly
  lists := fun _ => []
  handlers := fun _ => ⟨0, [], 0, none, none⟩
  proxy := .init maxfd
  calls := 0
  requests := fun _ => []
  wire := []
  conns := 0

section

variable (s : Link ι)

variable (h : ι)

/-- Writes a handler. -/
def setHandler (x : NetHandler) : Link ι :=
  { s with handlers := update s.handlers h x }

/-- Writes a list. -/
def setList (l : LinkList) (items : List ι) : Link ι :=
  { s with lists := update s.lists l items }

/-! ## The lists -/

/-- `CSockLink::AppendToList`. -/
def appendToList (l : LinkList) (h : ι) : Link ι := s.setList l (s.lists l ++ [h])

/-- `CSockLink::RemoveFromList`. -/
def removeFromList (l : LinkList) (h : ι) : Link ι := s.setList l ((s.lists l).erase h)

/-- `CNetHandler::DetachConn`. -/
def detachConn : Link ι :=
  match (s.handlers h).list with
  | none => s
  | some l => (s.removeFromList l h).setHandler h { s.handlers h with list := none }

/-- A handler that has the link goes to a list. -/
def enlist (l : LinkList) (h : ι) : Link ι :=
  let s := s.detachConn h
  (s.appendToList l h).setHandler h { s.handlers h with list := some l }

/-- What `SwitchToConn`, `SwitchToSend`, `SwitchToRecv` and `SwitchToIdle` have in common. -/
def switchTo (l : LinkList) (h : ι) : Link ι :=
  match (s.handlers h).list with
  | none => s
  | some _ => s.enlist l h

/-- `CNetHandler::SwitchToConn`. -/
def switchToConn : Link ι := s.switchTo .conn h
/-- `CNetHandler::SwitchToSend`. -/
def switchToSend : Link ι := s.switchTo .send h
/-- `CNetHandler::SwitchToRecv`. -/
def switchToRecv : Link ι := s.switchTo .recv h
/-- `CNetHandler::SwitchToIdle`. -/
def switchToIdle : Link ι := s.switchTo .idle h

/-- `CNetHandler::Link`. -/
def link : Link ι := s.enlist .idle h

/-- `CNetHandler::Unlink`. -/
def unlink : Link ι := s.detachConn h

/-! ## Closing -/

/-- No `ff_kevent` fails. -/
def noFailure : Change → Bool := fun _ => false

/-- `CSockLink::Close`. -/
def close : Link ι :=
  if s.fd < 0 then s
  else
    { s with
      proxy := (s.proxy.kqueueDelObj () s.fd s.events noFailure).1
      fd := -1
      wire := []
      conns := s.conns + 1 }

/-- The handler is notified, with an error if it is one, and has no link from then on. -/
def notifyUnlink (result : Int) (s : Link ι) (h : ι) : Link ι :=
  let s := if result ≠ 0 then s.setHandler h { s.handlers h with errNo := result } else s
  s.unlink h

/-- `CSockLink::NotifyAll`. -/
def notifyAll (result : Int) : Link ι :=
  [LinkList.conn, .send, .recv, .idle].foldl
    (fun s l => (s.lists l).foldl (notifyUnlink result) s) s

/-- `CSockLink::Reset`. -/
def reset : Link ι :=
  let s := s.close
  let s := s.notifyAll s.errno
  { s with lists := fun _ => [], errno := 0, connecting := false, connected := false, fd := -1,
           events := 0 }

/-- `Destroy`: the link is reset and given back. -/
def destroy : Link ι := s.reset

/-! ## Sending -/

/-- `CNetHandler::SkipSendPos`. -/
def skipSendPos (len : Nat) : Link ι × Nat :=
  let x := s.handlers h
  let skip := if len ≥ x.reqData.length then x.reqData.length else len
  (s.setHandler h { x with reqData := x.reqData.drop skip }, skip)

/-- One round of the second loop of `SendCacheTcp`. -/
def skipItem (sendLeft : Nat) : Link ι × Nat :=
  let r := s.skipSendPos h sendLeft
  (if (r.1.handlers h).reqData = [] then r.1.switchToIdle h else r.1, sendLeft - r.2)

end

/-- The loop, over the handlers that are left of it. -/
def skipItems : List ι → Link ι → Nat → Link ι × Nat
  | [], s, sendLeft => (s, sendLeft)
  | h :: items, s, sendLeft =>
    let r := s.skipItem h sendLeft
    if r.2 = 0 then r else skipItems items r.1 r.2

variable (s : Link ι)

/-- What is offered to `writev`: at most 64 pieces, of those that wait first. -/
def gather (data : Option (Nat × List UInt8)) : List (Nat × List UInt8) :=
  let iov := ((s.lists .send).take 64).map fun h => ((s.handlers h).call, (s.handlers h).reqData)
  if iov.length < 64 then iov ++ data.toList else iov

/-- The bytes of the pieces, with the call they are of. -/
def bytesOf (iov : List (Nat × List UInt8)) : List (Nat × UInt8) :=
  iov.flatMap fun piece => piece.2.map (Prod.mk piece.1)

/-- `CSockLink::SendCacheTcp`. -/
def sendCacheTcp (data : Option (Nat × List UInt8)) (room : Room) : Link ι × Int :=
  let iov := s.gather data
  match writev iov room with
  | .error .again => (s, 0)
  | .error .other => (s, -1)
  | .ok bytes =>
    let s := { s with wire := s.wire ++ (bytesOf iov).take bytes }
    let r := skipItems (s.lists .send) s bytes
    (r.1, r.2)

section

variable (h : ι)

/-- `SendData`; the length is compared as an `int32_t`. -/
def sendData (room : Room) : Link ι × Int :=
  let x := s.handlers h
  let r := s.sendCacheTcp (some (x.call, x.reqData)) room
  let s := r.1
  if r.2 < (BitVec.ofNat 32 x.reqData.length).toInt then
    ({ s with
      events := s.events ||| Filter.write.event
      proxy := (s.proxy.kqueueCtrlAdd s.fd Filter.read.event noFailure).1 }, r.2)
  else
    ({ s with
      events := s.events &&& ~~~Filter.write.event
      proxy := (s.proxy.kqueueCtrlDel s.fd Filter.write.event noFailure).1 }, r.2)

/-! ## A call -/

/-- The place where a caller waits. -/
def setPhase (phase : Option Phase) : Link ι :=
  s.setHandler h { s.handlers h with phase := phase }

/-- `EXIT_LABEL` of `SendRecv`. -/
def exit : Link ι := (s.unlink h).setPhase h none

/-- `CNetHandler::WaitRecv`, up to its wait. -/
def waitRecv : Link ι :=
  if (s.handlers h).list = none then s.exit h
  else if s.sendOnly then s.exit h
  else (s.switchToRecv h).setPhase h (some .recv)

/-- `CNetHandler::WaitSend`, up to its wait. -/
def waitSend (room : Room) : Link ι :=
  if (s.handlers h).list = none then s.exit h
  else
    let r := s.sendData h room
    if r.2 < 0 then r.1.exit h
    else
      let s := (r.1.skipSendPos h r.2.toNat).1
      if (s.handlers h).reqData = [] then s.waitRecv h
      else (s.switchToSend h).setPhase h (some .send)

/-- `CreateSock`, with the descriptor that `socket` returns. -/
def createSock (sock : Option { fd : Int // 0 < fd }) : Link ι × Bool :=
  if s.fd > 0 then (s, true)
  else
    match sock with
    | none => ({ s with fd := -1 }, false)
    | some ⟨fd, _⟩ =>
      let events := s.events ||| Filter.write.event ||| Filter.read.event
      let r := s.proxy.kqueueAddObj () fd events noFailure
      if r.2 then ({ s with fd := fd, events := events, proxy := r.1 }, true)
      else ({ s with fd := -1, events := events, proxy := r.1 }, false)

/-- `Connect`, with whether `ff_hook_connect` succeeds at once. -/
def connect (ok : Bool) : Link ι × Bool :=
  if s.connected then (s, true)
  else if s.connecting then (s, false)
  else if ok then ({ s with connected := true }, true)
  else ({ s with connecting := true }, false)

/-- `WaitConnect` up to where it waits, and whether it returns without that. -/
def waitConnect (sock : Option { fd : Int // 0 < fd }) (ok : Bool) : Link ι × Bool :=
  let r := s.createSock sock
  if r.2 then
    let r := r.1.connect ok
    if r.2 then r else (r.1.switchToConn h, false)
  else (r.1.exit h, false)

/-- `WaitConnect` from where it has waited. -/
def resumeConnect : Link ι × Bool :=
  let s := s.switchToIdle h
  if (s.handlers h).errNo ≠ 0 then (s.exit h, false)
  else if s.connected then (s, true)
  else (s.exit h, false)

/-- The call is recorded, with the data of its request. -/
def newCall (request : Request) : Link ι :=
  { s with
    handlers := update s.handlers h
      { s.handlers h with call := s.calls, reqData := request.data, phase := some .connect }
    calls := s.calls + 1
    requests := update s.requests s.calls request.data }

/-- `SendRecv` up to the end of `WaitConnect`. -/
def beginCall (request : Request) (accepted : Bool)
    (sock : Option { fd : Int // 0 < fd }) (ok : Bool) : Link ι × Bool :=
  let s := s.newCall h request
  if request.data = [] ∨ accepted = false then (s.exit h, false)
  else (s.link h).waitConnect h sock ok

end

/-! ## Notifications -/

/-- The connection has been made: the threads that wait for it are notified. -/
def connectDone : Link ι :=
  if s.connecting then
    let s := { s with connecting := false, connected := true }
    (s.lists .conn).foldl switchToIdle s
  else s

/-- `CSockLink::OutputNotify`. -/
def outputNotify (room : Room) : Link ι :=
  let r := s.connectDone.sendCacheTcp none room
  let s := r.1
  if r.2 < 0 then destroy { s with errno := RC_SEND_FAIL }
  else if s.lists .send = [] then
    { s with
      events := s.events &&& ~~~Filter.write.event
      proxy := (s.proxy.kqueueCtrlDel s.fd Filter.write.event noFailure).1 }
  else s

/-- `InputNotify`: the sessions that have a response, and the error if it has failed. -/
def inputNotify (sessions : List ι) (failed : Option Int) : Link ι :=
  let s := sessions.foldl switchToIdle s
  match failed with
  | none => s
  | some errno => destroy { s with errno := errno }

/-- `CSockLink::HangupNotify`. -/
def hangupNotify : Link ι := destroy { s with errno := RC_KQUEUE_ERROR }

/-! ## Steps -/

/-- A call of `SendRecv`, a caller that goes on, a notification of the descriptor, the timer. -/
inductive Act (ι : Type) where
  | sendRecv (h : ι) (request : Request) (accepted : Bool) (sock : Option { fd : Int // 0 < fd })
    (ok : Bool) (room : Room)
  | resume (h : ι) (room : Room)
  | output (room : Room)
  | input (sessions : List ι) (failed : Option Int)
  | hangup
  | timer

/-- The state in which `SendData` is called, if it is. -/
def sender (r : Link ι × Bool) (h : ι) : Option (Link ι × ι) :=
  if r.2 = true ∧ (r.1.handlers h).list ≠ none then some (r.1, h) else none

/-- The part of a step before `SendData` is called, and the handler that calls it. -/
def beforeSend : Act ι → Option (Link ι × ι)
  | .sendRecv h request accepted sock ok _ =>
    if (s.handlers h).phase = none then sender (s.beginCall h request accepted sock ok) h else none
  | .resume h _ =>
    if (s.handlers h).phase = some .connect then sender (s.resumeConnect h) h else none
  | _ => none

/-- A handler has one call at a time; a link without a descriptor gets no notification. -/
def step : Act ι → Link ι
  | .sendRecv h request accepted sock ok room =>
    if (s.handlers h).phase = none then
      let r := s.beginCall h request accepted sock ok
      if r.2 then r.1.waitSend h room else r.1
    else s
  | .resume h room =>
    match (s.handlers h).phase with
    | none => s
    | some .connect =>
      let r := s.resumeConnect h
      if r.2 then r.1.waitSend h room else r.1
    | some .send =>
      let s := s.switchToIdle h
      if (s.handlers h).errNo ≠ 0 then s.exit h
      else if (s.handlers h).reqData = [] then s.waitRecv h
      else s.exit h
    | some .recv => (s.switchToIdle h).exit h
  | .output room => if s.fd < 0 then s else s.outputNotify room
  | .input sessions failed => if s.fd < 0 then s else s.inputNotify sessions failed
  | .hangup => if s.fd < 0 then s else s.hangupNotify
  | .timer => s.destroy

end Link

end FStack.MicroThread
