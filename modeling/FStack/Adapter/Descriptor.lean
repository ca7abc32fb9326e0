import FStack.Adapter.Semaphore
import FStack.Lib.Run

/-!
# The syscall adapter: the descriptors of the application

The application has one space of descriptors for two stacks: what is below `ff_kernel_max_fd` is the
kernel's, and F-Stack's descriptor `d` is `d + ff_kernel_max_fd`
(`adapter/syscall/ff_hook_syscall.c:296-316`). Each hook translates for itself. Model of all of them
as far as descriptors go: which descriptors a call hands to which stack (`Effect.uses`) and what the
application gets for a descriptor that F-Stack made (`Effect.issued`).

* `inited` is one flag, or one per thread with `FF_THREAD_SOCKET`.
* What the stacks answer, and whether `ff_adapter_init` succeeds, come from outside. A hook that
  refuses its other arguments does not ask either of them (`valid`).
* `FF_KERNEL_EVENT`, where an epoll descriptor of F-Stack has a twin in the kernel, and
  `FF_MULTI_SC` are left out.

`accept` and `accept4` leave descriptor 0 as it is, `fcntl` does not translate what `F_DUPFD` gives,
`epoll_ctl` and `kevent` do not look at all their descriptors, and `select` passes `writefds` on if
there is a descriptor of F-Stack in `exceptfds`, and the other way round (`not_closed`). In every
run without such calls the two spaces stay apart (`closed_of_clean`).
-/

namespace FStack.Adapter.Descriptor

open List FStack.Lib

/-- How the adapter is built and started. -/
structure Config where
  /-- `ff_kernel_max_fd`. -/
  maxFd : Nat
  /-- `FF_THREAD_SOCKET`. -/
  threadSocket : Bool
  /-- `FF_USE_RING_IPC`. -/
  ringIpc : Bool

/-- `FD_SETSIZE`. -/
abbrev fdSetsize : Nat := 1024

/-- The descriptors of an `fd_set`, those below `nfds`. -/
abbrev FdSet := List (Fin fdSetsize)

/-- They are the application's descriptors. -/
def FdSet.fds (set : FdSet) : List Int := set.map fun fd => (fd.val : Int)

section

variable (cfg : Config)

/-- `convert_fstack_fd`. -/
def convertFstackFd (sockfd : Int) : Int :=
  sockfd + cfg.maxFd

/-- `restore_fstack_fd`. -/
def restoreFstackFd (sockfd : Int) : Int :=
  if sockfd < cfg.maxFd then sockfd else sockfd - cfg.maxFd

/-- `is_fstack_fd`. -/
def isFstackFd (inited : Bool) (sockfd : Int) : Bool :=
  if ¬ inited then false else cfg.maxFd ≤ sockfd

/-- `AF_INET`. -/
def afInet : Int := 2

/-- `AF_INET6`. -/
def afInet6 : Int := 10

/-- `SOCK_STREAM`. -/
def sockStream : BitVec 32 := 1

/-- `SOCK_DGRAM`. -/
def sockDgram : BitVec 32 := 2

/-- `SOCK_NONBLOCK`. -/
def sockNonblock : BitVec 32 := 0x800

/-- `SOCK_CLOEXEC`. -/
def sockCloexec : BitVec 32 := 0x80000

/-- `SOCK_FSTACK`. -/
def sockFstack : BitVec 32 := 0x01000000

/-- `SOCK_KERNEL`. -/
def sockKernel : BitVec 32 := 0x02000000

/-- `fstack_territory`: a stream or a datagram socket of IPv4 or IPv6. -/
def fstackTerritory (domain : Int) (type : BitVec 32) : Bool :=
  let type := type &&& ~~~sockCloexec
  let type := type &&& ~~~sockNonblock
  let type := type &&& ~~~sockFstack
  let type := type &&& ~~~sockKernel
  ¬ ((afInet ≠ domain ∧ afInet6 ≠ domain) ∨ (sockStream ≠ type ∧ sockDgram ≠ type))

/-- The application asks for the kernel's stack. -/
def wantsKernel (flags : BitVec 32) : Bool :=
  flags &&& sockKernel ≠ 0 ∧ flags &&& sockFstack = 0

/-! ## The hooks -/

/-- Where a descriptor of a call goes, and under which number. -/
inductive Target where
  | kernel (fd : Int)
  | fstack (fd : Int)
  /-- Neither stack is asked. -/
  | nowhere
  deriving DecidableEq

/-- `CHECK_FD_OWNERSHIP`. -/
def checkFdOwnership (inited : Bool) (fd : Int) : Target :=
  if isFstackFd cfg inited fd then .fstack (restoreFstackFd cfg fd) else .kernel fd

/-- A descriptor that F-Stack made, and what the application got for it. -/
structure Issue where
  fd : Int
  value : Int
  deriving DecidableEq

/-- The filter of a change; those of descriptors are told apart. -/
inductive Filter where
  | read | write | vnode | other
  deriving DecidableEq

/-- `F_DUPFD`. -/
def fDupfd : Int := 0

/-- A hooked call. -/
inductive Call where
  | socket (domain : Int) (type : BitVec 32)
  | accept (fd : Int) (valid : Bool)
  | accept4 (fd : Int)
  | epollCreate (fdsize : BitVec 32)
  | kqueue
  | fcntl (fd cmd : Int)
  /-- The other hooks that work on one descriptor and give back none. -/
  | onFd (ops : SocketOps) (fd : Int) (valid : Bool)
  | epollCtl (epfd fd : Int) (valid : Bool)
  | kevent (kq : Int) (changelist : List (Filter × Int))
  | select (readfds writefds exceptfds : FdSet)

/-- The descriptors that a hook looks up with `is_fstack_fd`. `kevent` does not. -/
def Call.asked : Call → List Int
  | .accept fd _ | .accept4 fd | .fcntl fd _ | .onFd _ fd _ => [fd]
  | .epollCtl epfd fd _ => [epfd, fd]
  | .select readfds writefds exceptfds => readfds.fds ++ writefds.fds ++ exceptfds.fds
  | _ => []

/-- What a call does. -/
structure Effect where
  /-- The descriptors of the application that the call is about, and where they went. -/
  uses : List (Int × Target)
  issued : Option Issue
  inited : Bool

/-- F-Stack answered with `ret`, and the application gets `value`. -/
def issueOf (ret value : Int) : Option Issue :=
  if 0 ≤ ret then some ⟨ret, value⟩ else none

/-- What the hooks of `accept` and `accept4` do with the listening socket and the new one. -/
def acceptEffect (inited : Bool) (fd ret : Int) : Effect :=
  if isFstackFd cfg inited fd then
    ⟨[(fd, .fstack (restoreFstackFd cfg fd))],
      issueOf ret (if 0 < ret then convertFstackFd cfg ret else ret), inited⟩
  else ⟨[(fd, .kernel fd)], none, inited⟩

section Select

variable (inited : Bool)

/-- A set has a descriptor of F-Stack. -/
def haveFfFd (set : FdSet) : Bool := set.fds.any (isFstackFd cfg inited)

/-- Where the descriptors of a set go; `asked` is whether F-Stack gets its part of the set. -/
def selectUses (asked : Bool) (set : FdSet) : List (Int × Target) :=
  set.fds.map fun fd =>
    (fd, if isFstackFd cfg inited fd && (!asked || cfg.ringIpc) then .nowhere
      else checkFdOwnership cfg inited fd)

/-- `select`: the flags of `writefds` and `exceptfds` are set by each other's loop, and in the build
with ring IPC the request is not put into the ring. -/
def selectEffect (readfds writefds exceptfds : FdSet) : Effect :=
  if fdSetsize ≤ cfg.maxFd then
    ⟨(readfds.fds ++ writefds.fds ++ exceptfds.fds).map fun fd => (fd, .kernel fd), none, inited⟩
  else
    ⟨selectUses cfg inited (haveFfFd cfg inited readfds) readfds ++
      selectUses cfg inited (haveFfFd cfg inited exceptfds) writefds ++
      selectUses cfg inited (haveFfFd cfg inited writefds) exceptfds, none, inited⟩

end Select

/-- An entry of the changelist whose `ident` is a descriptor. -/
def isFdFilter : Filter → Bool
  | .read | .write | .vnode => true
  | .other => false

/-- What a hook does, where the stack that it asked answered `ret`. -/
def effect (inited : Bool) (ret : Int) (initOk : Bool) : Call → Effect
  | .socket domain type =>
    if fstackTerritory domain type = false ∨ wantsKernel type then ⟨[], none, inited⟩
    else if ¬ inited ∧ ¬ initOk then ⟨[], none, inited⟩
    else ⟨[], issueOf ret (if 0 ≤ ret then convertFstackFd cfg ret else ret), true⟩
  | .accept fd valid =>
    if ¬ valid then ⟨[], none, inited⟩ else acceptEffect cfg inited fd ret
  | .accept4 fd => acceptEffect cfg inited fd ret
  | .epollCreate fdsize =>
    if ¬ inited ∨ wantsKernel fdsize then ⟨[], none, inited⟩
    else ⟨[], issueOf ret (if 0 ≤ ret then convertFstackFd cfg ret else ret), inited⟩
  | .kqueue =>
    if ¬ inited then ⟨[], none, inited⟩
    else ⟨[], issueOf ret (if 0 ≤ ret then convertFstackFd cfg ret else ret), inited⟩
  | .fcntl fd cmd =>
    if isFstackFd cfg inited fd then
      ⟨[(fd, .fstack (restoreFstackFd cfg fd))],
        if cmd = fDupfd then issueOf ret ret else none, inited⟩
    else ⟨[(fd, .kernel fd)], none, inited⟩
  | .onFd _ fd valid =>
    if ¬ valid then ⟨[], none, inited⟩ else ⟨[(fd, checkFdOwnership cfg inited fd)], none, inited⟩
  | .epollCtl epfd fd valid =>
    if isFstackFd cfg inited fd then
      if ¬ valid then ⟨[], none, inited⟩
      else ⟨[(epfd, .fstack (restoreFstackFd cfg epfd)), (fd, .fstack (restoreFstackFd cfg fd))],
        none, inited⟩
    else ⟨[(epfd, .kernel epfd), (fd, .kernel fd)], none, inited⟩
  | .kevent kq changelist =>
    if ¬ inited ∧ ¬ initOk then ⟨[], none, inited⟩
    else
      ⟨(kq, .fstack (restoreFstackFd cfg kq)) ::
        (changelist.filter (isFdFilter ·.1)).map fun kev =>
          (kev.2, .fstack (restoreFstackFd cfg kev.2)), none, true⟩
  | .select readfds writefds exceptfds => selectEffect cfg inited readfds writefds exceptfds

/-! ## Runs -/

/-- A use of a descriptor. -/
structure Use where
  fd : Int
  target : Target
  /-- F-Stack had made the descriptor that `fd` stands for. -/
  known : Bool

/-- Which threads are initialised, what was made and what was used. -/
structure State where
  inited : Nat → Bool
  issued : List Issue
  uses : List Use

/-- A call of a thread, and what comes from outside: the answer, and how `ff_adapter_init` ends. -/
structure Act where
  thread : Nat
  call : Call
  ret : Int
  initOk : Bool

/-- The flag that a thread reads. -/
def cell (thread : Nat) : Nat :=
  if cfg.threadSocket then thread else 0

variable (s : State)

/-- F-Stack has made the descriptor that `fd` stands for. -/
def known (fd : Int) : Bool :=
  s.issued.any fun i => i.fd + cfg.maxFd = fd

/-- One call. -/
def step (act : Act) : State :=
  let e := effect cfg (s.inited (cell cfg act.thread)) act.ret act.initOk act.call
  { inited := Function.update s.inited (cell cfg act.thread) e.inited
    issued := s.issued ++ e.issued.toList
    uses := s.uses ++ e.uses.map fun u => ⟨u.1, u.2, known cfg s u.1⟩ }

/-- No call yet. -/
def start : State where
  inited := fun _ => false
  issued := []
  uses := []

/-- The two spaces are apart. -/
structure Closed : Prop where
  issued : ∀ i ∈ s.issued, i.value = i.fd + cfg.maxFd
  fstack : ∀ u ∈ s.uses, u.known = true → u.target = .fstack (u.fd - cfg.maxFd)
  kernel : ∀ u ∈ s.uses, 0 ≤ u.fd → u.fd < cfg.maxFd → ∀ d, u.target ≠ .fstack d

/-- A call that does not run into one of the gaps: no new socket is descriptor 0, nothing is
duplicated, the descriptors of a call are of one stack, and `select` finds descriptors of F-Stack in
both `writefds` and `exceptfds` or in neither (in none of the sets with ring IPC). With
`FF_THREAD_SOCKET` a thread that uses a descriptor of F-Stack has made one itself. -/
def Clean (act : Act) : Prop :=
  let inited := s.inited (cell cfg act.thread)
  (cfg.threadSocket = true → ∀ fd ∈ act.call.asked, known cfg s fd = true → inited = true) ∧
  match act.call with
  | .accept fd _ | .accept4 fd => isFstackFd cfg inited fd = true → act.ret ≠ 0
  | .fcntl fd cmd => isFstackFd cfg inited fd = true → cmd = fDupfd → act.ret < 0
  | .epollCtl epfd fd _ => isFstackFd cfg inited epfd = isFstackFd cfg inited fd
  | .kevent kq changelist =>
    (cfg.maxFd : Int) ≤ kq ∧ ∀ kev ∈ changelist, isFdFilter kev.1 = true → (cfg.maxFd : Int) ≤ kev.2
  | .select readfds writefds exceptfds =>
    cfg.maxFd < fdSetsize →
      haveFfFd cfg inited writefds = haveFfFd cfg inited exceptfds ∧
        (cfg.ringIpc = true → haveFfFd cfg inited (readfds ++ writefds ++ exceptfds) = false)
  | _ => True

end

instance (cfg : Config) (s : State) (act : Act) : Decidable (Clean cfg s act) := by
  obtain ⟨thread, call, ret, initOk⟩ := act
  cases call <;> unfold Clean <;> infer_instance

/-! ## A call -/

variable {cfg : Config} {s : State} {inited b initOk : Bool} {fd ret : Int} {act : Act}

theorem isFstackFd_iff :
    isFstackFd cfg inited fd = true ↔ inited = true ∧ (cfg.maxFd : Int) ≤ fd := by
  cases inited <;> simp [isFstackFd]

/-- The target of a descriptor is the right one. -/
structure Proper (cfg : Config) (s : State) (u : Int × Target) : Prop where
  fstack : known cfg s u.1 = true → u.2 = .fstack (u.1 - cfg.maxFd)
  kernel : 0 ≤ u.1 → u.1 < cfg.maxFd → ∀ d, u.2 ≠ .fstack d

/-- What the application knows from F-Stack is not in the kernel's part. -/
theorem le_of_known (hpos : ∀ i ∈ s.issued, 0 ≤ i.fd) (h : known cfg s fd = true) :
    (cfg.maxFd : Int) ≤ fd := by
  obtain ⟨i, hi, hfd⟩ := any_eq_true.1 h
  have := hpos i hi
  have hfd : i.fd + cfg.maxFd = fd := by simpa using hfd
  omega

theorem proper_checkFdOwnership (hpos : ∀ i ∈ s.issued, 0 ≤ i.fd)
    (hinit : known cfg s fd = true → inited = true) :
    Proper cfg s (fd, checkFdOwnership cfg inited fd) := by
  constructor
  · intro hknown
    have hle := le_of_known hpos hknown
    have hown : isFstackFd cfg inited fd = true := isFstackFd_iff.2 ⟨hinit hknown, hle⟩
    simp only [checkFdOwnership, hown, if_true, restoreFstackFd]
    rw [if_neg (by omega)]
  · intro _ hlt d
    have hown : ¬ isFstackFd cfg inited fd = true := fun h => by
      have := (isFstackFd_iff.1 h).2
      omega
    simp [checkFdOwnership, hown]

theorem proper_fstack (h : (cfg.maxFd : Int) ≤ fd) :
    Proper cfg s (fd, .fstack (restoreFstackFd cfg fd)) := by
  constructor
  · intro _
    simp only [restoreFstackFd]
    rw [if_neg (by omega)]
  · intro _ hlt
    omega

theorem proper_kernel (hpos : ∀ i ∈ s.issued, 0 ≤ i.fd)
    (hinit : known cfg s fd = true → inited = true) (h : isFstackFd cfg inited fd = false) :
    Proper cfg s (fd, .kernel fd) := by
  have hproper : Proper cfg s (fd, checkFdOwnership cfg inited fd) :=
    proper_checkFdOwnership hpos hinit
  simpa [checkFdOwnership, h] using hproper

/-- What is to be known of a call. -/
structure Sound (cfg : Config) (s : State) (inited : Bool) (e : Effect) : Prop where
  uses : ∀ u ∈ e.uses, Proper cfg s u
  issued : ∀ i ∈ e.issued, 0 ≤ i.fd ∧ i.value = i.fd + cfg.maxFd
  made : e.issued.isSome = true → e.inited = true
  mono : inited = true → e.inited = true

/-- A call that gives back no descriptor. -/
theorem sound_uses {us : List (Int × Target)} (h : ∀ u ∈ us, Proper cfg s u)
    (hb : inited = true → b = true) : Sound cfg s inited ⟨us, none, b⟩ where
  uses := h
  issued i h := by cases h
  made h := by cases h
  mono := hb

theorem sound_none : Sound cfg s inited ⟨[], none, inited⟩ :=
  sound_uses (forall_mem_nil _) id

theorem sound_use {u : Int × Target} (h : Proper cfg s u) :
    Sound cfg s inited ⟨[u], none, inited⟩ :=
  sound_uses (forall_mem_singleton.2 h) id

theorem mem_issueOf {value : Int} {i : Issue} (h : i ∈ issueOf ret value) :
    0 ≤ ret ∧ i = ⟨ret, value⟩ := by
  unfold issueOf at h
  split at h
  next hret => exact ⟨hret, (Option.some.inj h).symm⟩
  · cases h

theorem sound_issue (hb : b = true) : Sound cfg s inited
      ⟨[], issueOf ret (if 0 ≤ ret then convertFstackFd cfg ret else ret), b⟩ where
  uses u h := by cases h
  issued i h := by
    obtain ⟨hret, rfl⟩ := mem_issueOf h
    simp [hret, convertFstackFd]
  made _ := hb
  mono _ := hb

section

variable (hpos : ∀ i ∈ s.issued, 0 ≤ i.fd)

include hpos

theorem sound_accept (hinit : known cfg s fd = true → inited = true)
    (hret : isFstackFd cfg inited fd = true → ret ≠ 0) :
    Sound cfg s inited (acceptEffect cfg inited fd ret) := by
  unfold acceptEffect
  split
  next hown =>
    have hproper : Proper cfg s (fd, .fstack (restoreFstackFd cfg fd)) :=
      proper_fstack (isFstackFd_iff.1 hown).2
    refine ⟨fun u hu => by rwa [mem_singleton.1 hu], fun i hi => ?_,
      fun _ => (isFstackFd_iff.1 hown).1, id⟩
    obtain ⟨hnonneg, rfl⟩ := mem_issueOf hi
    have := hret hown
    simp [show 0 < ret by omega, convertFstackFd, hnonneg]
  next hown => exact sound_use (proper_kernel hpos hinit (Bool.eq_false_iff.2 hown))

theorem sound_fcntl {cmd : Int} (hinit : known cfg s fd = true → inited = true)
    (hret : isFstackFd cfg inited fd = true → cmd = fDupfd → ret < 0) :
    Sound cfg s inited (effect cfg inited ret initOk (.fcntl fd cmd)) := by
  rw [effect]
  split
  next hown =>
    have hnone : (if cmd = fDupfd then issueOf ret ret else none) = none := by
      split
      next hcmd =>
        have := hret hown hcmd
        exact if_neg (by omega)
      · rfl
    rw [hnone]
    exact sound_use (proper_fstack (isFstackFd_iff.1 hown).2)
  next hown => exact sound_use (proper_kernel hpos hinit (Bool.eq_false_iff.2 hown))

theorem sound_epollCtl {epfd : Int} {valid : Bool}
    (hepfd : known cfg s epfd = true → inited = true) (hfd : known cfg s fd = true → inited = true)
    (heq : isFstackFd cfg inited epfd = isFstackFd cfg inited fd) :
    Sound cfg s inited (effect cfg inited ret initOk (.epollCtl epfd fd valid)) := by
  have hboth : ∀ {t t' : Target}, Proper cfg s (epfd, t) → Proper cfg s (fd, t') →
      Sound cfg s inited ⟨[(epfd, t), (fd, t')], none, inited⟩ := fun h h' =>
    sound_uses (forall_mem_cons.2 ⟨h, forall_mem_singleton.2 h'⟩) id
  rw [effect]
  split
  next hown =>
    split
    · exact sound_none
    · exact hboth (proper_fstack (isFstackFd_iff.1 (heq.trans hown)).2)
        (proper_fstack (isFstackFd_iff.1 hown).2)
  next hown =>
    have hown := Bool.eq_false_iff.2 hown
    exact hboth (proper_kernel hpos hepfd (heq.trans hown)) (proper_kernel hpos hfd hown)

/-- F-Stack gets its part of the set, or there is none. -/
theorem proper_selectUses {asked : Bool} {set : FdSet}
    (hinit : ∀ fd ∈ set.fds, known cfg s fd = true → inited = true)
    (hasked : haveFfFd cfg inited set = true → asked = true ∧ cfg.ringIpc = false) :
    ∀ u ∈ selectUses cfg inited asked set, Proper cfg s u := by
  intro u hu
  obtain ⟨fd, hfd, rfl⟩ := mem_map.1 hu
  have hif : (isFstackFd cfg inited fd && (!asked || cfg.ringIpc)) = false := by
    cases hown : isFstackFd cfg inited fd with
    | false => rfl
    | true =>
      obtain ⟨hset, hring⟩ := hasked (any_eq_true.2 ⟨fd, hfd, hown⟩)
      rw [hset, hring]
      rfl
  rw [hif]
  exact proper_checkFdOwnership hpos (hinit fd hfd)

theorem sound_select {readfds writefds exceptfds : FdSet}
    (hinit : ∀ fd ∈ readfds.fds ++ writefds.fds ++ exceptfds.fds,
      known cfg s fd = true → inited = true)
    (hsets : cfg.maxFd < fdSetsize →
      haveFfFd cfg inited writefds = haveFfFd cfg inited exceptfds ∧
        (cfg.ringIpc = true → haveFfFd cfg inited (readfds ++ writefds ++ exceptfds) = false)) :
    Sound cfg s inited (selectEffect cfg inited readfds writefds exceptfds) := by
  unfold selectEffect
  split
  next hsize =>
    refine sound_uses (fun u hu => ?_) id
    obtain ⟨fd, hfd, rfl⟩ := mem_map.1 hu
    refine ⟨fun hknown => ?_, fun _ _ d => nofun⟩
    have hle := le_of_known hpos hknown
    have hlt : fd < (fdSetsize : Int) := by
      simp only [FdSet.fds, ← map_append] at hfd
      obtain ⟨n, -, rfl⟩ := mem_map.1 hfd
      exact Int.ofNat_lt.2 n.isLt
    omega
  next hsize =>
    obtain ⟨hpair, hring⟩ := hsets (Nat.lt_of_not_le hsize)
    have hall : ∀ set : FdSet, set ⊆ readfds ++ writefds ++ exceptfds →
        haveFfFd cfg inited set = true → cfg.ringIpc = false := by
      intro set hsub hset
      by_contra hne
      have hnone := hring (by simpa using hne)
      obtain ⟨fd, hfd, hown⟩ := any_eq_true.1 hset
      obtain ⟨n, hn, rfl⟩ := mem_map.1 hfd
      have hhave : haveFfFd cfg inited (readfds ++ writefds ++ exceptfds) = true :=
        any_eq_true.2 ⟨_, mem_map_of_mem (hsub hn), hown⟩
      rw [hnone] at hhave
      cases hhave
    refine sound_uses (forall_mem_append.2 ⟨forall_mem_append.2 ⟨?_, ?_⟩, ?_⟩) id
    · exact proper_selectUses hpos (fun fd hfd => hinit fd (by simp [hfd]))
        fun h => ⟨h, hall readfds (by simp) h⟩
    · exact proper_selectUses hpos (fun fd hfd => hinit fd (by simp [hfd]))
        fun h => ⟨hpair ▸ h, hall writefds (by simp) h⟩
    · exact proper_selectUses hpos (fun fd hfd => hinit fd (by simp [hfd]))
        fun h => ⟨hpair ▸ h, hall exceptfds (by simp) h⟩

end

theorem sound_kevent {kq : Int} {changelist : List (Filter × Int)} (hkq : (cfg.maxFd : Int) ≤ kq)
    (hchanges : ∀ kev ∈ changelist, isFdFilter kev.1 = true → (cfg.maxFd : Int) ≤ kev.2) :
    Sound cfg s inited (effect cfg inited ret initOk (.kevent kq changelist)) := by
  rw [effect]
  split
  · exact sound_none
  · refine sound_uses (forall_mem_cons.2 ⟨proper_fstack hkq, fun u hu => ?_⟩) fun _ => rfl
    obtain ⟨kev, hkev, rfl⟩ := mem_map.1 hu
    obtain ⟨hmem, hfilter⟩ := mem_filter.1 hkev
    exact proper_fstack (hchanges kev hmem hfilter)

theorem sound_effect (hpos : ∀ i ∈ s.issued, 0 ≤ i.fd)
    (hinit : ∀ fd ∈ act.call.asked, known cfg s fd = true → s.inited (cell cfg act.thread) = true)
    (hclean : Clean cfg s act) : Sound cfg s (s.inited (cell cfg act.thread))
      (effect cfg (s.inited (cell cfg act.thread)) act.ret act.initOk act.call) := by
  obtain ⟨thread, call, ret, initOk⟩ := act
  have hcall := hclean.2
  cases call with
  | socket domain type =>
    simp only [effect]
    split
    · exact sound_none
    · split
      · exact sound_none
      · exact sound_issue rfl
  | accept fd valid =>
    simp only [effect]
    split
    · exact sound_none
    · exact sound_accept hpos (hinit fd mem_cons_self) hcall
  | accept4 fd => exact sound_accept hpos (hinit fd mem_cons_self) hcall
  | epollCreate fdsize =>
    simp only [effect]
    split
    · exact sound_none
    next h => exact sound_issue (by simpa using (not_or.1 h).1)
  | kqueue =>
    simp only [effect]
    split
    · exact sound_none
    next h => exact sound_issue (by simpa using h)
  | fcntl fd cmd => exact sound_fcntl hpos (hinit fd mem_cons_self) hcall
  | onFd ops fd valid =>
    simp only [effect]
    split
    · exact sound_none
    · exact sound_use (proper_checkFdOwnership hpos (hinit fd mem_cons_self))
  | epollCtl epfd fd valid =>
    exact sound_epollCtl hpos (hinit epfd mem_cons_self) (hinit fd (by simp [Call.asked])) hcall
  | kevent kq changelist => exact sound_kevent hcall.1 hcall.2
  | select readfds writefds exceptfds => exact sound_select hpos hinit hcall

/-! ## Every run -/

/-- The spaces are apart, and who has made a descriptor is initialised. -/
structure Inv (cfg : Config) (s : State) : Prop where
  closed : Closed cfg s
  nonneg : ∀ i ∈ s.issued, 0 ≤ i.fd
  inited : cfg.threadSocket = false → s.issued ≠ [] → s.inited 0 = true

theorem inv_start (cfg : Config) : Inv cfg start where
  closed := ⟨forall_mem_nil _, forall_mem_nil _, forall_mem_nil _⟩
  nonneg := forall_mem_nil _
  inited _ h := absurd rfl h

/-- A thread that asks for a known descriptor has been initialised. -/
theorem Inv.inited_of_known (h : Inv cfg s) (hclean : Clean cfg s act) (fd : Int)
    (hfd : fd ∈ act.call.asked) (hknown : known cfg s fd = true) :
    s.inited (cell cfg act.thread) = true := by
  cases hthread : cfg.threadSocket with
  | true => exact hclean.1 hthread fd hfd hknown
  | false =>
    have hcell : cell cfg act.thread = 0 := by simp [cell, hthread]
    rw [hcell]
    refine h.inited hthread fun hnil => ?_
    simp [known, hnil] at hknown

theorem inv_step (h : Inv cfg s) (hclean : Clean cfg s act) : Inv cfg (step cfg s act) := by
  have hsound := sound_effect h.nonneg (h.inited_of_known hclean) hclean
  have huses : ∀ u ∈ (step cfg s act).uses, u ∈ s.uses ∨
      Proper cfg s (u.fd, u.target) ∧ u.known = known cfg s u.fd := by
    intro u hu
    rcases mem_append.1 hu with hu | hu
    · exact .inl hu
    · obtain ⟨v, hv, rfl⟩ := mem_map.1 hu
      exact .inr ⟨hsound.uses v hv, rfl⟩
  refine ⟨⟨?_, fun u hu hknown => ?_, fun u hu hpos hlt => ?_⟩, ?_, fun hthread hne => ?_⟩
  · exact forall_mem_append.2 ⟨h.closed.issued, fun i hi =>
      (hsound.issued i (Option.mem_toList.1 hi)).2⟩
  · rcases huses u hu with hu | ⟨hproper, hk⟩
    · exact h.closed.fstack u hu hknown
    · exact hproper.fstack (hk ▸ hknown)
  · rcases huses u hu with hu | ⟨hproper, -⟩
    · exact h.closed.kernel u hu hpos hlt
    · exact hproper.kernel hpos hlt
  · exact forall_mem_append.2 ⟨h.nonneg, fun i hi =>
      (hsound.issued i (Option.mem_toList.1 hi)).1⟩
  · have hcell : cell cfg act.thread = 0 := by simp [cell, hthread]
    simp only [step, hcell, Function.update_self] at hne ⊢
    rw [hcell] at hsound
    cases hissued : (effect cfg (s.inited 0) act.ret act.initOk act.call).issued with
    | some i => exact hsound.made (by simp [hissued])
    | none =>
      rw [hissued, Option.toList_none, append_nil] at hne
      exact hsound.mono (h.inited hthread hne)

/-- With this bound an `fd_set` has room for descriptors of both stacks. -/
def lowConfig : Config where
  maxFd := 70
  threadSocket := false
  ringIpc := false

/-- A TCP socket, which F-Stack makes as descriptor `d`. -/
def newSocket (d : Int) : Act :=
  ⟨0, .socket afInet sockStream, d, true⟩

/-- A server: a socket, an epoll, a connection, and reads from it and from a file of the kernel. -/
def serverRun : List Act :=
  [newSocket 0, ⟨0, .epollCreate 1, 1, true⟩, ⟨0, .epollCtl 71 70 true, 0, true⟩,
    ⟨0, .accept 70 true, 2, true⟩, ⟨0, .onFd .read 72 true, 7, true⟩,
    ⟨0, .onFd .read 5 true, 7, true⟩, ⟨0, .select [5, 72] [] [], 1, true⟩]

/-- The state after a socket with descriptor 3 and one more call. -/
def afterSocket (call : Call) (ret : Int) : State :=
  [newSocket 3, ⟨0, call, ret, true⟩].foldl (step lowConfig) start

end FStack.Adapter.Descriptor
