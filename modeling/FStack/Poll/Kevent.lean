import FStack.Fd.Table

/-!
# `ff_kevent` over two stacks

Model of `ff_kevent` when the library runs beside the kernel's stack
(`lib/ff_syscall_wrapper.c:2070-2148`, `lib/ff_host_interface.c:423-458`). A change whose `ident` is
a descriptor of the host, or paired with one, goes to the host epoll instance of the kqueue; all but
the first kind go to F-Stack's kqueue as well. The host's ready events are put into the event list
first and F-Stack's kqueue is called with the room that is left.

The host epoll keeps one registration for each host descriptor. Each of them is made for one filter,
read or write, and remembers the application's descriptor, not its `udata`.

Outside are the host (`epoll_create1`, which registrations it refuses, what is ready and in which
order it says so; an `epoll_wait` that does not wait does not fail) and F-Stack's kqueue: whether it
is there, which changes `kqueue_register` refuses, and what `kqueue_scan` finds. The loop over the
changes is that of `kqueue_kevent` (`freebsd/kern/kern_event.c:1431-1474`): a change that is
refused, or that asks for a receipt, is answered with an `EV_ERROR` entry; without room for the
entry the loop ends there, with the error of the change, which a receipt has none of. `asked` is not
in the code: the filters added to the kqueue and not deleted since, with the `udata` they were added
with.
-/

namespace FStack.Poll

open Function
open FStack.Fd (isKernelFd kernelFdReal ffEpollHostEp)

/-- `EVFILT_READ`, `EVFILT_WRITE`, or another one. -/
inductive Filter where
  | read
  | write
  | other
  deriving DecidableEq

/-- A change. Of the flags, those `ff_kevent_host_change` and `kqueue_kevent` look at. -/
structure Kev where
  ident : Int
  filter : Filter
  /-- `filter` is 0, which is none of F-Stack's and `other` here. -/
  null : Bool
  evAdd : Bool
  evDelete : Bool
  evEnable : Bool
  evReceipt : Bool
  udata : Nat
  deriving DecidableEq

/-- A registration in the host epoll: `EPOLLOUT` or `EPOLLIN`, and `data.fd`. -/
structure Reg where
  out : Bool
  app : Int
  deriving DecidableEq

/-- The descriptors, the host epoll of the kqueue, and what F-Stack's kqueue has taken. -/
structure St where
  fds : Fd.St
  /-- The host epoll of the kqueue, by host descriptor. -/
  reg : Int → Option Reg
  /-- The changes F-Stack's kqueue has taken. -/
  kern : List Kev
  asked : Int → Filter → Option Nat

/-- A kqueue nothing was added to yet, among the descriptors `fds`. -/
def St.init (fds : Fd.St) : St where
  fds := fds
  reg := fun _ => none
  kern := []
  asked := fun _ _ => none

/-- The host descriptor a change is for, if any. -/
def hostFd (fds : Fd.St) (ident : Int) : Option Int :=
  if isKernelFd ident then some (kernelFdReal ident)
  else if 0 < fds.mapGet ident then some (fds.mapGet ident)
  else none

/-! ## Changes -/

/-- What the host does with a change: what `epoll_create1` returns, if it is called, and whether it
accepts the registration. -/
structure Outside where
  ep : Option Int
  ok : Bool

/-- `ff_host_kqueue_ctl`. -/
def ffHostKqueueCtl (reg : Int → Option Reg) (del : Bool) (hfd app : Int) (wantWrite ok : Bool) :
    Int → Option Reg :=
  if del then update reg hfd none
  else
    match reg hfd, ok with
    | none, true => update reg hfd (some ⟨wantWrite, app⟩)
    -- `EEXIST`, so `EPOLL_CTL_MOD`
    | some _, true => update reg hfd (some ⟨wantWrite, app⟩)
    | _, false => reg

/-- `ff_kevent_host_change`; the flag is its result. -/
def ffKeventHostChange (s : St) (kq : Int) (c : Kev) (o : Outside) : St × Bool :=
  match hostFd s.fds c.ident with
  | none => (s, false)
  | some hfd =>
    if c.evDelete || c.evAdd || c.evEnable then
      let ep := ffEpollHostEp s.fds kq (!c.evDelete) o.ep
      if 0 < ep.2 then
        ({ s with fds := ep.1,
                  reg := ffHostKqueueCtl s.reg c.evDelete hfd c.ident (c.filter == .write) o.ok }, true)
      else ({ s with fds := ep.1 }, true)
    else (s, true)

/-- What the kqueue was asked for, after a change. -/
def asks (asked : Int → Filter → Option Nat) (c : Kev) : Int → Filter → Option Nat :=
  if c.evDelete then
    update asked c.ident (update (asked c.ident) c.filter none)
  else if c.evAdd then
    update asked c.ident (update (asked c.ident) c.filter (some c.udata))
  else asked

/-- One round of the loop over the changes, with `fbsd_changes`. -/
def changeRound (kq : Int) (sf : St × List Kev) (co : Kev × Outside) : St × List Kev :=
  let r := ffKeventHostChange sf.1 kq co.1 co.2
  let s := { r.1 with asked := asks sf.1.asked co.1 }
  (s, if !r.2 || 0 < s.fds.mapGet co.1.ident then sf.2 ++ [co.1] else sf.2)

/-! ## Events -/

/-- `EPOLLIN`, `EPOLLOUT`, `EPOLLHUP`, `EPOLLERR`. -/
structure Bits where
  inp : Bool
  out : Bool
  hup : Bool
  err : Bool
  deriving DecidableEq

/-- There is something to say. -/
def Bits.any (b : Bits) : Bool := b.inp || b.out || b.hup || b.err

/-- The state of the host's descriptors during a call, and the order in which the host lists those
with something to say. -/
structure Ready where
  bits : Int → Bits
  order : List Int
  mem_order : ∀ h, (bits h).any = true → h ∈ order

/-- The bits `epoll_wait` returns for a registration: those asked for, hang-ups and errors. -/
def seen (r : Reg) (b : Bits) : Bits := ⟨b.inp && !r.out, b.out && r.out, b.hup, b.err⟩

/-- What `epoll_wait` has to return. -/
def pending (reg : Int → Option Reg) (rd : Ready) : List (Int × Bits) :=
  rd.order.filterMap fun h =>
    match reg h with
    | none => none
    | some r => if (seen r (rd.bits h)).any then some (r.app, seen r (rd.bits h)) else none

/-- An entry of the event list; of the flags, `EV_EOF` and `EV_ERROR`. -/
structure Event where
  ident : Int
  filter : Filter
  eof : Bool
  error : Bool
  udata : Nat
  deriving DecidableEq

/-- What `ff_host_kqueue_poll` and `ff_kevent_host_wait` make of an event of the host. -/
def toEvent (e : Int × Bits) : Event :=
  ⟨e.1, if e.2.out then .write else .read, e.2.hup || e.2.err, false, 0⟩

/-- `ff_kevent_host_wait`. -/
def ffKeventHostWait (reg : Int → Option Reg) (rd : Ready) (nevents : Int) : List Event :=
  ((pending reg rd).take nevents.toNat).map toEvent

/-- F-Stack's kqueue during a call. -/
structure Kern where
  /-- There is no kqueue behind the descriptor. -/
  bad : Bool
  /-- `kqueue_register` refuses the change at this position. -/
  refused : Nat → Bool
  /-- `kqueue_scan` fails. -/
  scanFails : Bool
  events : List Event
  /-- `td_retval[0]` from an earlier call. -/
  retval : Int

/-- What the loop of `kqueue_kevent` makes of the changes. -/
structure Registered where
  /-- Those that were carried out. -/
  taken : List Kev
  /-- The entries with `EV_ERROR`. -/
  errors : List Event
  /-- It ended before the last one; the flag is whether with an error. -/
  stop : Option Bool

/-- The entry that answers a change. -/
def Kev.answer (c : Kev) : Event := ⟨c.ident, c.filter, false, true, c.udata⟩

/-- The loop of `kqueue_kevent` over the changes from position `i` on. The room is compared with 0
alone. -/
def kqueueChanges (refused : Nat → Bool) : Nat → Int → List Kev → Registered
  | _, _, [] => ⟨[], [], none⟩
  | i, room, c :: cs =>
    if c.null then kqueueChanges refused (i + 1) room cs
    else
      let here := if refused i then [] else [c]
      if refused i || c.evReceipt then
        if room = 0 then ⟨here, [], some (refused i)⟩
        else
          let r := kqueueChanges refused (i + 1) (room - 1) cs
          ⟨here ++ r.taken, c.answer :: r.errors, r.stop⟩
      else
        let r := kqueueChanges refused (i + 1) room cs
        ⟨here ++ r.taken, r.errors, r.stop⟩

/-- `ff_kevent_do_each`: its result, the changes carried out and the events. -/
def ffKeventDoEach (k : Kern) (changes : List Kev) (nevents : Int) : Int × List Kev × List Event :=
  if k.bad then (-1, [], [])
  else
    let r := kqueueChanges k.refused 0 nevents changes
    match r.stop with
    | some true => (-1, r.taken, [])
    -- `kqueue_kevent` returns 0 without a value of its own
    | some false => (k.retval, r.taken, r.errors)
    | none =>
      if r.errors ≠ [] then (r.errors.length, r.taken, r.errors)
      else if k.scanFails then (-1, r.taken, [])
      else ((k.events.take nevents.toNat).length, r.taken, k.events.take nevents.toNat)

/-! ## The call -/

/-- A call of `ff_kevent`, with what comes from outside. -/
structure Call where
  changes : List (Kev × Outside)
  /-- `eventlist != NULL`. -/
  listed : Bool
  nevents : Int
  ready : Ready
  kern : Kern

/-- The host's events, when the changes are made. -/
def hostEvents (s : St) (kq : Int) (c : Call) : List Event :=
  if c.listed && 0 < c.nevents then
    if 0 < (ffEpollHostEp s.fds kq false none).2 then ffKeventHostWait s.reg c.ready c.nevents else []
  else []

/-- `ff_kevent` after the loop over the changes. -/
def collect (s : St) (kq : Int) (fbsd : List Kev) (c : Call) : St × Int × List Event :=
  let evs := hostEvents s kq c
  let kn : Int := evs.length
  if c.listed && 0 < c.nevents && c.nevents ≤ kn then (s, kn, evs)
  else
    let r := ffKeventDoEach c.kern fbsd (if c.listed then c.nevents - kn else 0)
    let s := { s with kern := s.kern ++ r.2.1 }
    if r.1 < 0 then (s, if 0 < kn then kn else -1, evs) else (s, kn + r.1, evs ++ r.2.2)

/-- `ff_kevent`: the state after it, its result and the event list. -/
def ffKevent (s : St) (kq : Int) (c : Call) : St × Int × List Event :=
  let sf := c.changes.foldl (changeRound kq) (s, [])
  collect sf.1 kq sf.2 c

/-- The state after a call. -/
def step (kq : Int) (s : St) (c : Call) : St := (ffKevent s kq c).1

/-- The state after the calls `calls`. -/
def run (kq : Int) (fds : Fd.St) (calls : List Call) : St := calls.foldl (step kq) (St.init fds)

end FStack.Poll
