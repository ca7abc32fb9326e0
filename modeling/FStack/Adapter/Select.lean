import FStack.Lib.Bits

/-!
# The syscall adapter: `select`

Model of `ff_hook_select` (`adapter/syscall/ff_hook_syscall.c:2736-3043`) and `ff_sys_select`
(`adapter/syscall/ff_socket_ops.c:421-431`). The caller's sets are split into the descriptors of
F-Stack, from `ff_kernel_max_fd` on, and those of the kernel. Each round of the loop polls F-Stack,
through a copy of its sets in shared memory, and, if that reports nothing, the kernel; the two
reports are merged into the caller's sets.

* An `fd_set` is its bits, and a copy of some words is one of 64 bits a word. `ff_bitmap_first_set`
  and `ff_bitmap_next_set` go through the bits that are set.
* The sets that are `static __thread` keep what earlier calls left (`State`). The copies in shared
  memory start with what `rte_malloc` returns.
* A stack reports those descriptors that are asked for and `ready`, or fails. It writes the words of
  the first `n` descriptors. What it reports, and the clock, are inputs of a round.
* With `FF_USE_RING_IPC` the macros that hand the request over are empty, so that F-Stack is not
  asked and the result is the 0 that was just stored.
* A thread that uses `select` is initialised, memory is not short and `clock_gettime` works.
* A write through a null pointer, one behind the end of an `fd_set`, and a `memset` of a negative
  size end the process (`crashed`).

The loop over `writefds` sets `have_ff_exceptfd`, and the one over `exceptfds` sets
`have_ff_writefd` (`flag`). A report of the kernel does not end the loop. The result is read from
the words of the caller's `nfds`, of which only those of the greatest F-Stack descriptor have been
written.
-/

namespace FStack.Adapter.Select

open Function FStack.Lib

/-- The three sets of `select`. -/
inductive Kind where
  | read
  | write
  | except
  deriving DecidableEq

/-- The sets in the order in which the hook goes through them. -/
def Kind.all : List Kind := [.read, .write, .except]

/-- The three `fd_set` arguments, each of which may be `NULL`. -/
abbrev Sets := Kind → Option Bits

/-- `FD_ISSET` on a set that may be missing. -/
def has (s : Option Bits) (fd : Nat) : Bool := s.any fun b => b fd

/-- `FD_SETSIZE`. -/
def fdSetsize : Nat := 1024

/-- The words of `n` descriptors. -/
def words (n : Nat) : Nat := (n + 63) / 64

/-! ## A stack -/

/-- What a stack is asked in one poll, and what it reports. -/
structure Poll where
  asked : Kind → Bits
  reported : Kind → Bits

/-- One `select` of a stack: of the descriptors below `n` in the sets, those that are ready. -/
def poll (n : Nat) (sets : Sets) (ready : Kind → Bits) : Poll where
  asked k i := has (sets k) i && decide (i < n)
  reported k i := has (sets k) i && decide (i < n) && ready k i

/-- How many bits of the three sets are set. -/
def total (n : Nat) (sets : Kind → Bits) : Nat :=
  (sets .read).size n + (sets .write).size n + (sets .except).size n

/-- The sets when the stack returns. -/
def Poll.results (p : Poll) (n : Nat) (sets : Sets) : Sets := fun k =>
  (sets k).map fun s => Bits.copy (64 * words n) s (p.reported k)

/-! ## The call -/

/-- What is left of earlier calls of the thread. -/
structure State where
  share : Kind → Bits
  ffFds : Kind → Bits
  kernelFds : Kind → Bits
  nfds : Int

/-- A call of the hooked `select`. -/
structure Call where
  nfds : Int
  sets : Sets
  /-- Seconds and microseconds. -/
  timeout : Option (Int × Int)
  /-- The clock at the call, in nanoseconds. -/
  start : Nat

/-- What happens in a round: the descriptors that are ready, or no report but an error; and how many
nanoseconds have passed. -/
structure Round where
  fstack : Option (Kind → Bits)
  kernel : Option (Kind → Bits)
  elapsed : Nat

/-- `nfds`, at most `FD_SETSIZE`. -/
def Call.cutNfds (c : Call) : Int := if (fdSetsize : Int) < c.nfds then fdSetsize else c.nfds

/-- How many words of a set the hook copies. -/
def Call.setWords (c : Call) : Int := (c.cutNfds + 63).tdiv 64

/-- The flag that is set for an F-Stack descriptor in a set. -/
def flag : Kind → Kind
  | .read => .read
  | .write => .except
  | .except => .write

/-- The sets for the two stacks, with the flags and the highest descriptors that were found. -/
structure Parts where
  ffFds : Kind → Bits
  kernelFds : Kind → Bits
  haveFf : Kind → Bool
  haveKernel : Bool
  maxFf : Nat
  maxKernel : Nat

/-- One descriptor goes to the set of its stack. -/
def addFd (maxFd : Nat) (k : Kind) (p : Parts) (fd : Nat) : Parts :=
  if maxFd ≤ fd then
    { p with
      haveFf := update p.haveFf (flag k) true
      maxFf := max p.maxFf (fd - maxFd)
      ffFds := update p.ffFds k ((p.ffFds k).insert (fd - maxFd)) }
  else
    { p with
      haveKernel := true
      maxKernel := max p.maxKernel fd
      kernelFds := update p.kernelFds k ((p.kernelFds k).insert fd) }

/-- The two sets of a kind are cleared. -/
def Parts.clear (p : Parts) (setWords : Nat) (k : Kind) : Parts :=
  { p with
    ffFds := update p.ffFds k (Bits.copy (64 * setWords) (p.ffFds k) .empty)
    kernelFds := update p.kernelFds k (Bits.copy (64 * setWords) (p.kernelFds k) .empty) }

/-- One set is split over the two stacks. -/
def splitSet (maxFd nfds setWords : Nat) (sets : Sets) (p : Parts) (k : Kind) : Parts :=
  match sets k with
  | some s =>
    ((s.below (64 * setWords)).filter (· < nfds)).foldl (addFd maxFd k) (p.clear setWords k)
  | none => p

/-- The three sets are split; a part that is not written keeps what the last call left in it. -/
def separate (maxFd nfds setWords : Nat) (sets : Sets) (s : State) : Parts :=
  Kind.all.foldl (splitSet maxFd nfds setWords sets)
    { ffFds := s.ffFds
      kernelFds := s.kernelFds
      haveFf := fun _ => false
      haveKernel := false
      maxFf := 0
      maxKernel := 0 }

/-! ## The loop -/

/-- What the rounds of a call have in common. -/
structure Task where
  maxFd : Nat
  ring : Bool
  parts : Parts
  setWords : Nat
  /-- `args->nfds`. -/
  nfds : Int
  timeout : Option (Int × Int)
  start : Nat

/-- A round as it went: the polls that were made, and whether the call went on waiting after it. -/
structure Entry where
  fstack : Option Poll
  kernel : Option Poll
  kept : Bool

/-- The locals of the hook's loop, with the polls so far. -/
structure Local where
  share : Kind → Bits
  out : Sets
  kernelRet : Nat
  polledKernel : Bool
  /-- The rounds, the last one first. -/
  log : List Entry

/-- How the hook ends: with a value and the sets, not yet, or on a null pointer. -/
inductive Outcome where
  | returned (ret : Int) (out : Sets)
  | waiting
  | crashed

/-- The words of F-Stack's sets. -/
def Parts.ffWords (p : Parts) : Nat :=
  if p.haveFf .read || p.haveFf .write || p.haveFf .except then words (p.maxFf + 1) else 0

section

variable (t : Task)

variable (share : Kind → Bits)

/-- The copies in shared memory when a request is made. -/
def Task.request : Kind → Bits := fun k =>
  if t.parts.haveFf k then Bits.copy (64 * t.parts.ffWords) (share k) (t.parts.ffFds k)
  else share k

/-- The sets that F-Stack is given. -/
def Task.args : Sets := fun k =>
  if t.parts.haveFf k then some (share k) else none

/-- F-Stack is asked: the poll it makes, what it returns, and the copies in shared memory then. -/
def ffSysSelect (ready : Option (Kind → Bits)) : Option Poll × Option Nat × (Kind → Bits) :=
  let share := t.request share
  if t.ring then (none, some 0, share)
  else if t.nfds < 0 then (none, none, share)
  else
    let n := t.nfds.toNat
    let sets := t.args share
    match ready with
    | none => (some (poll n sets fun _ => .empty), none, share)
    | some ready =>
      let p := poll n sets ready
      (some p, some (total n p.reported), fun k => ((p.results n sets) k).getD (share k))

/-- The kernel is asked: the poll it makes, what it returns, and the caller's sets then. -/
def ffLinuxSelect (p : Parts) (out : Sets) (ready : Option (Kind → Bits)) :
    Poll × Option Nat × Sets :=
  let n := p.maxKernel + 1
  let sets : Sets := fun k => (out k).map fun s => Bits.copy (64 * words n) s (p.kernelFds k)
  match ready with
  | none => (poll n sets fun _ => .empty, none, sets)
  | some ready =>
    let q := poll n sets ready
    (q, some (total n q.reported), q.results n sets)

/-- `FD_SET` on one of the caller's sets. -/
def fdSet (out : Option Bits) (fd : Nat) : Option (Option Bits) :=
  match out with
  | some s => if fd < fdSetsize then some (some (s.insert fd)) else none
  | none => none

/-- F-Stack's report is added to a set. -/
def mergeSet (out : Sets) (k : Kind) : Option Sets :=
  if t.parts.haveFf k then
    (((share k).below (64 * t.setWords)).foldlM (fun s fd => fdSet s (fd + t.maxFd)) (out k)).map
      (update out k)
  else some out

/-- What F-Stack reported is merged into the sets, and the two counts are added. -/
def finish (out : Sets) (ret kernelRet : Nat) : Outcome :=
  if 0 < ret then
    match Kind.all.foldlM (mergeSet t share) out with
    | some out => .returned (ret + kernelRet) out
    | none => .crashed
  else .returned (ret + kernelRet) out

/-- F-Stack has reported `ret` descriptors. -/
def selectExit (l : Local) (p : Option Poll) (ret : Nat) (r : Round) : Outcome × Local :=
  if t.parts.haveKernel && !l.polledKernel then
    match ffLinuxSelect t.parts l.out r.kernel with
    | (q, none, out) => (.returned (-1) out, { l with log := ⟨p, some q, false⟩ :: l.log })
    | (q, some kernelRet, out) =>
      (finish t l.share out ret kernelRet, { l with log := ⟨p, some q, false⟩ :: l.log })
  else
    (finish t l.share l.out ret l.kernelRet, { l with log := ⟨p, none, false⟩ :: l.log })

/-- The timeout is zero or over. -/
def Task.over (r : Round) : Bool :=
  match t.timeout with
  | some (sec, usec) =>
    sec = 0 && usec = 0 ||
      (↑(t.start / 1000000) + sec * 1000 + usec.tdiv 1000 : Int) ≤ ↑((t.start + r.elapsed) / 1000000)
  | none => false

end

/-- The loop of the hook: poll F-Stack, then the kernel, until one reports or the time is over. -/
def selectLoop (t : Task) : List Round → Local → Outcome × Local
  | [], l => (.waiting, l)
  | r :: rs, l =>
    match ffSysSelect t l.share r.fstack with
    | (p, none, share) =>
      (.returned (-1) l.out, { l with share := share, log := ⟨p, none, false⟩ :: l.log })
    | (p, some ret, share) =>
      let l := { l with share := share }
      if 0 < ret then selectExit t l p ret r
      else if t.parts.haveKernel then
        match ffLinuxSelect t.parts l.out r.kernel with
        | (q, none, out) => (.returned (-2) out, { l with log := ⟨p, some q, false⟩ :: l.log })
        | (q, some kernelRet, out) =>
          let entry : Entry := ⟨p, some q, !t.over r⟩
          let l : Local := ⟨share, out, kernelRet, true, entry :: l.log⟩
          if t.over r then (.returned kernelRet out, l) else selectLoop t rs l
      else
        let l := { l with log := ⟨p, none, !t.over r⟩ :: l.log }
        if t.over r then (.returned l.kernelRet l.out, l) else selectLoop t rs l

/-- The outcome of a call, its polls and the static sets after it. -/
structure Result where
  outcome : Outcome
  log : List Entry
  state : State

variable (maxFd : Nat)

variable (ring : Bool)

/-- What one call hands to its loop. -/
def task (s : State) (c : Call) : Task :=
  let parts := separate maxFd c.cutNfds.toNat c.setWords.toNat c.sets s
  { maxFd := maxFd
    ring := ring
    parts := parts
    setWords := c.setWords.toNat
    nfds := if parts.haveFf .read || parts.haveFf .write || parts.haveFf .except then
      parts.maxFf + 1 else s.nfds
    timeout := c.timeout
    start := c.start }

variable (c : Call)

/-- The caller's sets are cleared. -/
def Call.cleared : Sets := fun k =>
  (c.sets k).map fun s => Bits.copy (64 * c.setWords.toNat) s .empty

/-- `ff_hook_select`. -/
def ffHookSelect (s : State) (c : Call) (rounds : List Round) : Result :=
  if fdSetsize ≤ maxFd then
    -- the kernel's own `select`, which waits for its report
    match rounds with
    | [] => ⟨.waiting, [], s⟩
    | r :: _ =>
      match r.kernel with
      | none => ⟨.returned (-1) c.sets, [], s⟩
      | some ready =>
        if c.cutNfds < 0 then ⟨.returned (-1) c.sets, [], s⟩
        else
          let n := c.cutNfds.toNat
          let p := poll n c.sets ready
          ⟨.returned (total n p.reported) (p.results n c.sets), [⟨none, some p, false⟩], s⟩
  else if c.setWords < 0 ∧ Kind.all.any (fun k => (c.sets k).isSome) then ⟨.crashed, [], s⟩
  else
    let t := task maxFd ring s c
    let res := selectLoop t rounds ⟨s.share, c.cleared, 0, false, []⟩
    ⟨res.1, res.2.log, ⟨res.2.share, t.parts.ffFds, t.parts.kernelFds, t.nfds⟩⟩

/-! ## What is right -/

/-- The descriptors that the call is about. -/
def Call.examined : Nat := c.cutNfds.toNat

/-- A descriptor of F-Stack in one of the caller's sets. -/
def InFf (k : Kind) (fd : Nat) : Prop :=
  fd < c.examined ∧ maxFd ≤ fd ∧ has (c.sets k) fd = true

/-- A descriptor of the kernel in one of the caller's sets. -/
def InKernel (k : Kind) (fd : Nat) : Prop :=
  fd < c.examined ∧ fd < maxFd ∧ has (c.sets k) fd = true

/-- The sets after the call hold what was asked for and reported in the last polls, and nothing
else. -/
structure Exact (res : Result) : Prop where
  alive : res.outcome ≠ .crashed
  subset : ∀ ret out, res.outcome = .returned ret out → 0 ≤ ret →
    ∀ k fd, has (out k) fd = true → has (c.sets k) fd = true
  /-- What F-Stack reported in its last poll is in the sets. -/
  fstack : ∀ ret out, res.outcome = .returned ret out → 0 ≤ ret →
    ∀ p, res.log.findSome? Entry.fstack = some p →
      ∀ k fd, p.reported k fd = true → has (out k) (fd + maxFd) = true
  /-- What the kernel reported in its last poll is in the sets. -/
  kernel : ∀ ret out, res.outcome = .returned ret out → 0 ≤ ret →
    ∀ p, res.log.findSome? Entry.kernel = some p →
      ∀ k fd, p.reported k fd = true → has (out k) fd = true
  count : ∀ ret out, res.outcome = .returned ret out → 0 ≤ ret →
    ret = total c.examined fun k => has (out k)
  /-- The call goes on waiting only if the kernel has reported nothing. -/
  prompt : ∀ e ∈ res.log, e.kept = true → ∀ p, e.kernel = some p → ∀ k fd, p.reported k fd = false
  /-- In every round F-Stack is asked for its descriptors, in the sets they are in. -/
  polled : ∀ e ∈ res.log, ∀ k fd, InFf maxFd c k fd →
    ∃ p, e.fstack = some p ∧ p.asked k (fd - maxFd) = true

/-- The timeout is over when the call is made. -/
def AtOnce : Prop :=
  ∃ sec usec, c.timeout = some (sec, usec) ∧ sec * 1000 + usec.tdiv 1000 ≤ 0

/-- When `select` is right whatever the stacks report. -/
structure Sound (s : State) (c : Call) : Prop where
  /-- `nfds` is not so small that the number of words is negative. -/
  positive : (∃ k, (c.sets k).isSome) → -127 < c.nfds
  semaphore : ∀ k fd, InFf maxFd c k fd → ring = false
  /-- F-Stack descriptors are in both `writefds` and `exceptfds`, or in neither. -/
  paired : (∃ fd, InFf maxFd c .write fd) ↔ ∃ fd, InFf maxFd c .except fd
  /-- With a descriptor of the kernel the timeout is zero, or F-Stack fails on the `nfds` that was
  left. -/
  brief : ∀ k fd, InKernel maxFd c k fd →
    AtOnce c ∨ ring = false ∧ (∀ k fd, ¬ InFf maxFd c k fd) ∧ s.nfds < 0
  /-- The words of the copies behind those of F-Stack's descriptors have no bit set, but for bits
  that the caller has set behind `nfds`. -/
  fresh : ∀ k fd, InFf maxFd c k fd → ∀ i < 64 * c.setWords.toNat,
    (∀ k' fd', InFf maxFd c k' fd' → (fd' - maxFd) / 64 < i / 64) → s.share k i = true →
      c.examined ≤ i + maxFd ∧ i + maxFd < fdSetsize ∧ has (c.sets k) (i + maxFd) = true

end FStack.Adapter.Select
