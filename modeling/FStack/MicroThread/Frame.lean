import FStack.MicroThread.Timers

/-!
# Micro threads: the scheduler and its lists

Model of `MtFrame`, `ThreadPool`, `MicroThread` and `ScheduleObj`
(`adapter/micro_thread/micro_thread.cpp:228-509, 519-575, 636-680, 711-959`), of `mt_exec_all_task`
(`mt_api.cpp:501-550`) and of the notifications of a kqueue object (`kqueue_proxy.cpp:449-488`).

* A thread is a pointer in `ι`; `objects` are those that exist. What `new` returns is chosen from
  outside and may be nothing; it is never an object that exists already.
* `restore_context` ends an operation: the thread that is then active makes the next one. The
  daemon's start function is `DaemonRun`, so the daemon makes the steps of `Loop` and those of the
  timers and notifications that are called there; the other threads make the rest.
* `ASSERT` is empty (`micro_thread.cpp:35`), so an operation whose assertion fails goes on; `holds`
  says that none has failed.
* No constructor and no `InitFrame` sets `_waitnum`, so what it is at the start is a parameter.

The descriptors that a thread waits for, its stack and its saved registers are left out, and so is
the end of `ff_run`.
-/

namespace FStack.MicroThread

variable {ι : Type}

/-- `ThreadFlag`. -/
structure Flags where
  free : Bool
  io : Bool
  sleep : Bool
  run : Bool
  pend : Bool
  sub : Bool
deriving DecidableEq

/-- `NOT_INLIST`. -/
def Flags.notInlist : Flags := ⟨false, false, false, false, false, false⟩

/-- `ThreadType`. -/
inductive ThreadType where
  | normal
  | primordial
  | daemon
  | subThread
deriving DecidableEq

/-- `ThreadState`. -/
inductive ThreadState where
  | initial
  | runable
  | running
  | sleeping
  | pending
deriving DecidableEq

/-- `MicroThread`. -/
structure Thread (ι : Type) where
  flag : Flags
  type : ThreadType
  state : ThreadState
  parent : Option ι
  subList : List ι

/-- What the constructor makes. -/
def Thread.new (type : ThreadType) : Thread ι := ⟨.notInlist, type, .initial, none, []⟩

/-- `ThreadPool` and `MtFrame`. -/
structure Frame (ι : Type) where
  freelist : List ι
  totalNum : Int
  useNum : Int
  maxNum : Int
  defaultThreadNum : Nat
  runlist : List ι
  iolist : List ι
  pendList : List ι
  sleeplist : HeapList ι
  daemon : ι
  primo : ι
  currThread : ι
  waitnum : Int
  thread : ι → Thread ι
  objects : List ι
  holds : Bool

namespace Frame

variable [DecidableEq ι]

section

variable (f : Frame ι)

/-- `ASSERT`. -/
def assert (statement : Bool) : Frame ι := { f with holds := f.holds && statement }

section

variable (thread : ι)

/-- Writes a thread. -/
def setThread (x : Thread ι) : Frame ι :=
  { f with thread := Function.update f.thread thread x }

/-- `SetFlag` and `UnsetFlag`. -/
def setFlag (flag : Flags → Flags) : Frame ι :=
  f.setThread thread { f.thread thread with flag := flag (f.thread thread).flag }

/-- `SetState`. -/
def setState (state : ThreadState) : Frame ι :=
  f.setThread thread { f.thread thread with state }

/-- `SetWakeupTime`. -/
def setWakeupTime (waketime : Nat) : Frame ι :=
  { f with sleeplist := setTime f.sleeplist thread waketime }

/-! ## The lists -/

/-- `InsertSleep`. -/
def insertSleep : Frame ι :=
  let f := f.assert !(f.thread thread).flag.sleep
  let f := f.setFlag thread ({ · with sleep := true })
  let f := f.setState thread .sleeping
  { f with sleeplist := (f.sleeplist.heapPush thread).1 }

/-- `RemoveSleep`. -/
def removeSleep : Frame ι :=
  let f := f.assert (f.thread thread).flag.sleep
  let f := f.setFlag thread ({ · with sleep := false })
  { f with sleeplist := (f.sleeplist.heapDelete thread).1 }

/-- `InsertIoWait`. -/
def insertIoWait : Frame ι :=
  let f := f.assert !(f.thread thread).flag.io
  let f := f.setFlag thread ({ · with io := true })
  let f := { f with iolist := f.iolist ++ [thread] }
  f.insertSleep thread

/-- `RemoveIoWait`. -/
def removeIoWait : Frame ι :=
  let f := f.assert (f.thread thread).flag.io
  let f := f.setFlag thread ({ · with io := false })
  let f := { f with iolist := f.iolist.erase thread }
  f.removeSleep thread

/-- `InsertRunable`. -/
def insertRunable : Frame ι :=
  let f := f.assert !(f.thread thread).flag.run
  let f := f.setFlag thread ({ · with run := true })
  let f := f.setState thread .runable
  { f with runlist := f.runlist ++ [thread], waitnum := f.waitnum + 1 }

/-- `RemoveRunable`. -/
def removeRunable : Frame ι :=
  let f := f.assert (f.thread thread).flag.run
  let f := f.assert (f.runlist.head? = some thread)
  let f := f.setFlag thread ({ · with run := false })
  { f with runlist := f.runlist.tail, waitnum := f.waitnum - 1 }

/-- `InsertPend`. -/
def insertPend : Frame ι :=
  let f := f.assert !(f.thread thread).flag.pend
  let f := f.setFlag thread ({ · with pend := true })
  let f := { f with pendList := f.pendList ++ [thread] }
  f.setState thread .pending

/-- `RemovePend`. -/
def removePend : Frame ι :=
  let f := f.assert (f.thread thread).flag.pend
  let f := f.setFlag thread ({ · with pend := false })
  { f with pendList := f.pendList.erase thread }

/-! ## Sub threads -/

/-- `AddSubThread` of `thread`. -/
def addSubThread (thread sub : ι) : Frame ι :=
  let f := f.assert !(f.thread sub).flag.sub
  let f :=
    if (f.thread sub).flag.sub then f
    else
      let f := f.setThread thread
        { f.thread thread with subList := (f.thread thread).subList ++ [sub] }
      f.setThread sub { f.thread sub with parent := some thread }
  f.setFlag sub ({ · with sub := true })

/-- `RemoveSubThread` of `thread`. -/
def removeSubThread (thread sub : ι) : Frame ι :=
  let f := f.assert (f.thread sub).flag.sub
  let f :=
    if (f.thread sub).flag.sub then
      let f := f.setThread thread
        { f.thread thread with subList := (f.thread thread).subList.erase sub }
      f.setThread sub { f.thread sub with parent := none }
    else f
  f.setFlag sub ({ · with sub := false })

/-- `HasNoSubThread`. -/
def hasNoSubThread : Bool := (f.thread thread).subList.isEmpty

end

/-! ## The pool -/

/-- `AllocThread`; `fresh` is what `new` returns, `none` if there is no memory. -/
def allocThread (fresh : Option ι) : Frame ι × Option ι :=
  match f.freelist with
  | thread :: rest =>
    let f := { f with freelist := rest }
    let f := f.assert (f.thread thread).flag.free
    let f := f.setFlag thread ({ · with free := false })
    ({ f with useNum := f.useNum + 1 }, some thread)
  | [] =>
    if f.maxNum ≤ f.totalNum then (f, none)
    else
      match fresh with
      | none => (f, none)
      | some thread =>
        if thread ∈ f.objects then (f, none)
        else
          let f := f.setThread thread (.new .normal)
          let f := { f with
            objects := thread :: f.objects
            totalNum := f.totalNum + 1
            useNum := f.useNum + 1 }
          let f := { f with
            defaultThreadNum :=
              if f.useNum > f.defaultThreadNum ∧ (f.defaultThreadNum * 2 : Int) < f.maxNum then
                f.defaultThreadNum * 2
              else f.defaultThreadNum }
          (f, some thread)

/-- `DEFAULT_THREAD_NUM`. -/
def defaultNum : Nat := 5000

/-- What `FreeThread` does if there are more free threads than it keeps: the first one goes. -/
def trimPool : Frame ι :=
  match f.freelist with
  | thread :: rest =>
    if f.freelist.length > f.defaultThreadNum ∧ f.freelist.length > 1 then
      { f with
        freelist := rest
        objects := f.objects.erase thread
        thread := Function.update f.thread thread (.new .normal)
        totalNum := f.totalNum - 1
        defaultThreadNum :=
          if f.defaultThreadNum / 2 ≥ defaultNum then f.defaultThreadNum / 2
          else f.defaultThreadNum }
    else f
  | [] => f

/-- `Reset` and `CleanState`. -/
def reset (thread : ι) : Frame ι :=
  (f.setWakeupTime thread 0).setThread thread (.new .normal)

/-- `ThreadPool::FreeThread`. -/
def freeThread (thread : ι) : Frame ι :=
  let f := f.assert !(f.thread thread).flag.free
  let f := f.reset thread
  let f := { f with useNum := f.useNum - 1, freelist := f.freelist ++ [thread] }
  let f := f.setFlag thread ({ · with free := true })
  f.trimPool

/-! ## Who runs -/

/-- `SetActiveThread`, `SetState` and `RestoreContext`. -/
def activate (thread : ι) : Frame ι :=
  { f with currThread := thread }.setState thread .running

/-- `MtFrame::ThreadSchdule`. -/
def threadSchdule : Frame ι :=
  match f.runlist with
  | [] => f.activate f.daemon
  | thread :: _ => (f.removeRunable thread).activate thread

/-- `mt_start_thread`, and the sub threads of `mt_exec_all_task`, which are not `runable`. -/
def createThread (runable : Bool) (fresh : Option ι) : Frame ι × Option ι :=
  match f.allocThread fresh with
  | (f, none) => (f, none)
  | (f, some thread) => (if runable then f.insertRunable thread else f, some thread)

variable (waketime : Nat)

/-- `Thread::sleep` and `ScheduleSleep`, of the active thread. -/
def sleep : Frame ι :=
  let f := f.setWakeupTime f.currThread waketime
  (f.insertSleep f.currThread).threadSchdule

/-- `Thread::Wait` and `SchedulePend`, of the active thread. -/
def wait : Frame ι := (f.insertPend f.currThread).threadSchdule

/-- `ScheduleObj::ScheduleUnpend` for a pending thread. -/
def scheduleUnpend (thread : ι) : Frame ι :=
  (f.removePend thread).insertRunable thread

/-- `MicroThread::WakeupParent`. -/
def wakeupParent (thread : ι) : Frame ι :=
  match (f.thread thread).parent with
  | none => f
  | some parent =>
    let f := f.removeSubThread parent thread
    if f.hasNoSubThread parent then f.scheduleUnpend parent else f

/-- The end of `Run`, after the start function of the active thread. -/
def run : Frame ι :=
  let f := if (f.thread f.currThread).type = .subThread then f.wakeupParent f.currThread else f
  (f.freeThread f.currThread).threadSchdule

/-- `MtFrame::WaitNotify`. -/
def waitNotify : Frame ι :=
  let f := f.setWakeupTime f.currThread waketime
  (f.insertIoWait f.currThread).threadSchdule

/-- `KqueueSchedule`, up to where the thread is woken; `added` is the result of `KqueueAdd`. -/
def kqueueSchedule (added : Bool) : Frame ι :=
  let f := f.setWakeupTime f.currThread waketime
  if added then (f.insertIoWait f.currThread).threadSchdule else f

/-- `MtFrame::NotifyThread`: the daemon hands over to the thread at once. -/
def notifyThread (thread : Option ι) : Frame ι :=
  match thread with
  | none => f
  | some thread =>
    if (f.thread thread).flag.io then
      let g := f.removeIoWait thread
      if f.currThread = f.daemon then g.activate thread else g.insertRunable thread
    else f

/-- `MtFrame::SwapDaemonThread`. -/
def swapDaemonThread : Frame ι :=
  if f.currThread ≠ f.daemon then (f.insertRunable f.currThread).activate f.daemon else f

variable (owner : Option ι)

/-- What a kqueue object does with its owner. `UdpSessionNtfy` and `CSockLink` do the same with the
threads that wait for a datagram or a link. -/
def ownerNotify : Frame ι × Int :=
  match owner with
  | none => (f, -1)
  | some thread =>
    (if (f.thread thread).flag.io then (f.removeIoWait thread).insertRunable thread else f, 0)

/-- `KqueuerObj::InputNotify`. -/
def inputNotify : Frame ι × Int := f.ownerNotify owner

/-- `KqueuerObj::OutputNotify`. -/
def outputNotify : Frame ι × Int := f.ownerNotify owner

/-- What `WakeupTimeout` does with the first sleeper. -/
def wakeup (thread : ι) : Frame ι :=
  let f := if (f.thread thread).flag.io then f.removeIoWait thread else f.removeSleep thread
  f.insertRunable thread

end

/-- `fuel` rounds of `WakeupTimeout`. -/
def wakeupRounds (now : Nat) : Nat → Frame ι → Frame ι
  | 0, f => f
  | fuel + 1, f =>
    match f.sleeplist.heapTop with
    | none => f
    | some thread =>
      if f.sleeplist.value thread ≤ now then (f.wakeup thread).wakeupRounds now fuel else f

variable (f : Frame ι)

/-- `WakeupTimeout`: a round takes a sleeper out of the heap, so there are at most as many rounds as
there are sleepers. -/
def wakeupTimeout (now : Nat) : Frame ι := f.wakeupRounds now f.sleeplist.count

/-! ## `mt_exec_all_task` -/

/-- The loop that makes the sub threads, until one cannot be made; it returns those it has made and
whether these are all. -/
def createSubs (f : Frame ι) : List (Option ι) → Frame ι × List ι × Bool
  | [] => (f, [], true)
  | fresh :: rest =>
    match f.createThread false fresh with
    | (f, none) => (f, [], false)
    | (f, some sub) =>
      let f := f.setThread sub { f.thread sub with type := .subThread }
      let r := f.createSubs rest
      (r.1, sub :: r.2.1, r.2.2)

/-- A sub thread is given to the active thread and may run. -/
def startSub (sub : ι) : Frame ι :=
  (f.addSubThread f.currThread sub).insertRunable sub

/-- `mt_exec_all_task`, with one entry of `fresh` for each task, up to where the thread is woken. -/
def execAllTask (fresh : List (Option ι)) : Frame ι :=
  if fresh = [] then f
  else
    let r := f.createSubs fresh
    if r.2.2 then (r.2.1.foldl startSub r.1).wait else r.2.1.foldl freeThread r.1

/-! ## Runs -/

/-- The operations, with what comes from outside: the time at which a thread is to be woken, what
`new` returns, the result of `KqueueAdd`, the owner of the object that is told of an event. -/
inductive Act (ι : Type) where
  | startThread (fresh : Option ι)
  | sleep (waketime : Nat)
  | waitEvents (waketime : Nat) (added : Bool)
  | threadWait (waketime : Nat)
  | threadWakeupWait (thread : Option ι)
  | swapThread
  | execAllTask (fresh : List (Option ι))
  | exit
  | inputNotify (owner : Option ι)
  | outputNotify (owner : Option ι)
  | wakeupTimeout (now : Nat)
  | switchContext

/-- Who may make a step: the daemon runs the loop, and does not wait and end; the thread in which
the process has started does not end. -/
def enabled : Act ι → Bool
  | .sleep _ | .waitEvents _ _ | .threadWait _ | .execAllTask _ => f.currThread ≠ f.daemon
  | .exit => f.currThread ≠ f.daemon && f.currThread ≠ f.primo
  | .wakeupTimeout _ | .switchContext => f.currThread = f.daemon
  | _ => true

/-- What the running thread does. -/
def perform : Act ι → Frame ι
  | .startThread fresh => (f.createThread true fresh).1
  | .sleep waketime => f.sleep waketime
  | .waitEvents waketime added => f.kqueueSchedule waketime added
  | .threadWait waketime => f.waitNotify waketime
  | .threadWakeupWait thread => f.notifyThread thread
  | .swapThread => f.swapDaemonThread
  | .execAllTask fresh => f.execAllTask fresh
  | .exit => f.run
  | .inputNotify owner => (f.inputNotify owner).1
  | .outputNotify owner => (f.outputNotify owner).1
  | .wakeupTimeout now => f.wakeupTimeout now
  | .switchContext => f.threadSchdule

/-- An act that the running thread cannot do leaves the frame as it is. -/
def step (act : Act ι) : Frame ι := if f.enabled act then f.perform act else f

/-- The threads after `InitialPool`, of which the daemon is the first one, and the one in which the
process has started. -/
structure Pool (ι : Type) where
  daemon : ι
  primo : ι
  rest : List ι
  nodup : (primo :: daemon :: rest).Nodup
  length_lt : rest.length < defaultNum

/-- `InitFrame`; `waitnum` is what is in the memory of the object. -/
def initFrame (pool : Pool ι) (maxThreadNum : Nat) (waitnum : Int) : Frame ι where
  __ := pool
  freelist := pool.rest
  totalNum := pool.rest.length + 1
  useNum := 1
  maxNum := maxThreadNum
  defaultThreadNum := defaultNum
  runlist := []
  iolist := []
  pendList := []
  sleeplist := (HeapList.new 100000 fun _ => 0).heapResize (maxThreadNum * 2)
  currThread := pool.primo
  waitnum := waitnum
  thread := fun t =>
    if t = pool.daemon then { Thread.new .daemon with state := .runable }
    else if t = pool.primo then { Thread.new .primordial with state := .running }
    else if t ∈ pool.rest then { Thread.new .normal with flag := { Flags.notInlist with free := true } }
    else .new .normal
  objects := pool.primo :: pool.daemon :: pool.rest
  holds := true

end Frame

end FStack.MicroThread
