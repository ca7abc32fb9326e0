import FStack.Adapter.Wait
import Mathlib.Algebra.Group.Int.Defs
import Mathlib.Algebra.Group.Nat.Defs

/-!
# The syscall adapter: the timeout of `epoll_wait`

Model of one call of `ff_hook_epoll_wait` in its three builds: polling
(`adapter/syscall/ff_hook_syscall.c:2082-2194`), semaphores, and ring IPC (`2196-2423`), with
`ff_sys_epoll_wait` (`adapter/syscall/ff_socket_ops.c:305-345`) on the other side.

* Nobody else uses the context, so that an answer is there for the hook or it is not (`answer`).
  What the hooks of several threads do to each other is in `Wait.lean`.
* `now` is the reading of the clock that the build uses: nanoseconds, or cycles of the time stamp
  counter with ring IPC. A clock does not go back. A C `int64_t` that holds a time does not
  overflow; the product of a timeout with the counter's frequency may.
* `sem_timedwait` without a credit fails on a deadline whose `tv_nsec` is not below one second.
* What is ready comes from outside, round by round. Kernel events are left out.

Only the polling build treats a timeout of 0 as such. The semaphore build waits until there is
something to return: the loop does not answer an empty result to a timeout of 0
(`ff_socket_ops.c:330-338`). With a positive timeout the semaphore and the ring build pass on the
empty result of the loop's next round, whatever the deadline.

Two slips are not part of the results. With ring IPC the hook issues its request again after a
timeout of 0, which its comments say is not blocking; and the carry of the deadline is not taken
when the nanoseconds make a whole second.
-/

namespace FStack.Adapter.EpollWait

open List

open FStack.Adapter.Semaphore (EpollWaitArgs semFlagEpollWait)
open FStack.Adapter.Wait (epollResult)

/-! ## Clocks -/

/-- `NS_PER_SECOND`. -/
def nsPerSecond : Nat := 1000000000

/-- `struct timespec`. -/
structure Timespec where
  sec : Int
  nsec : Int
  deriving DecidableEq

/-- The time in nanoseconds. -/
def Timespec.ns (t : Timespec) : Int :=
  t.sec * nsPerSecond + t.nsec

/-- `clock_gettime`, where the clock has counted `now` nanoseconds. -/
def clockGettime (now : Nat) : Timespec :=
  ⟨(now / nsPerSecond : Nat), (now % nsPerSecond : Nat)⟩

/-- `tv_sec * 1000 + tv_nsec / 1000000`. -/
def Timespec.ms (t : Timespec) : Int :=
  t.sec * 1000 + t.nsec.tdiv 1000000

/-- `abs_timeout`, of a call at `start` with a positive timeout. -/
def absTimeout (start timeout : Nat) : Timespec :=
  let sec := (clockGettime start).sec + (timeout / 1000 : Nat)
  let nsec := (clockGettime start).nsec + (timeout % 1000 : Nat) * 1000 * 1000
  if (nsPerSecond : Int) < nsec then ⟨sec + 1, nsec - nsPerSecond⟩ else ⟨sec, nsec⟩

/-- `end_time_ms` of the polling build. -/
def endTimeMs (start timeout : Nat) : Int :=
  (clockGettime start).ms + timeout

/-- `timeout_us` of the build with ring IPC. -/
def timeoutUs (timeout : Int) : Int :=
  if timeout < 0 then -1 else if timeout = 0 then 0 else timeout * 1000

/-- `timeout_tsc`, in the arithmetic of `uint64_t`. -/
def timeoutTsc (hz : Nat) (timeoutUs : Int) : Nat :=
  timeoutUs.toNat * hz % 2 ^ 64 / 1000000

/-! ## A call -/

/-- The three builds of the adapter: with the semaphore, with `FF_PRELOAD_POLLING_MODE`, with ring
IPC. -/
inductive Mode where
  | semaphore
  | polling
  /-- With the frequency of the time stamp counter. -/
  | ring (hz : Nat)

/-- A call of `epoll_wait` on a descriptor of F-Stack. -/
structure Call where
  args : EpollWaitArgs
  /-- The clock when the hook is called. -/
  start : Nat

/-- The `timeout` argument in milliseconds; negative means no limit. -/
def Call.timeout (c : Call) : Int :=
  c.args.timeout

section

variable (c : Call)

/-- The request that the hook hands to the loop. -/
def Call.request : Wait.Request Unit :=
  .epollWait c.args.maxevents c.args.timeout

/-- Where the hook stands: about to submit, waiting for the loop, or returned at a time. -/
inductive Pc where
  | begin
  | waiting
  | returned (value : Int) (time : Nat)
  deriving DecidableEq

/-- The clock, the request under way and the hook. -/
structure State where
  now : Nat
  /-- The requests that the loop has not answered. -/
  pending : Nat
  answer : Option Int
  /-- `start_tsc`. -/
  since : Nat
  /-- How many requests the call has issued. -/
  requests : Nat
  /-- What the loop has answered. -/
  replies : List Int
  pc : Pc

/-- What may happen next: time passes, the loop turns, the hook goes on. -/
inductive Act where
  | tick (n : Nat)
  /-- A round of the loop, where there is `found` to return. -/
  | loop (found : Int)
  /-- A step of the hook. -/
  | hook

/-- Whether the loop answers the request in a round that gave `ret`. -/
def answers (args : EpollWaitArgs) (ret : Int) : Mode → Bool
  | .semaphore => semFlagEpollWait false args ret
  | .polling => semFlagEpollWait true args ret
  | .ring _ => true

/-- One round of the loop over the context: the pending request is answered, unless it has to wait.
-/
def handle (m : Mode) (c : Call) (s : State) (found : Int) : State :=
  let ret := epollResult c.args found
  if s.pending ≠ 0 ∧ answers c.args ret m then
    { s with
      pending := s.pending - 1
      answer := some ret
      replies := s.replies ++ [ret] }
  else s

/-- The request is issued. With ring IPC one that was given up is still in the ring. -/
def submit (m : Mode) (s : State) : State :=
  { s with
    pending :=
      match m with
      | .ring _ => s.pending + 1
      | _ => 1
    answer := none
    since := s.now
    requests := s.requests + 1
    pc := .waiting }

variable (s : State)

/-- The end of the hook, from the value it has. -/
def leave (ret : Int) : State :=
  let value := c.request.cut ret
  { s with pc := if c.request.retries value then .begin else .returned value s.now }

/-- `sem_wait` or `sem_timedwait` on the context, until the loop posts or the deadline passes. -/
def waitSemaphore : State :=
  match s.answer with
  | some ret => leave c { s with pending := 0 } ret
  | none =>
    if c.request.untimed then s
    else
      let deadline := absTimeout c.start c.timeout.toNat
      if (nsPerSecond : Int) ≤ deadline.nsec then leave c { s with pending := 0 } (-1)
      else if deadline.ns ≤ s.now then leave c { s with pending := 0 } 0
      else s

/-- The polling build looks at the answer and asks again as long as there is nothing and time is
left. -/
def waitPolling : State :=
  match s.answer with
  | some ret =>
    if ret ≠ 0 ∨ c.timeout = 0 ∨
        (0 < c.timeout ∧ endTimeMs c.start c.timeout.toNat ≤ (clockGettime s.now).ms) then
      { s with pc := .returned (c.request.cut ret) s.now }
    else { s with pc := .begin }
  | none => s

/-- The busy wait of the ring build: the answer, or 0 when the cycles of the timeout are over. -/
def waitRing (hz : Nat) (c : Call) (s : State) : State :=
  match s.answer with
  | some ret => leave c s ret
  | none =>
    let us := timeoutUs c.timeout
    if 0 ≤ us ∧ timeoutTsc hz us ≤ s.now - s.since then leave c s 0 else s

/-- The wait of each build. -/
def wait : Mode → State
  | .semaphore => waitSemaphore c s
  | .polling => waitPolling c s
  | .ring hz => waitRing hz c s

/-- One act of the clock, the loop or the hook. -/
def step (m : Mode) (c : Call) (s : State) : Act → State
  | .tick n => { s with now := s.now + n }
  | .loop found => handle m c s found
  | .hook =>
    match s.pc with
    | .begin => submit m s
    | .waiting => wait c s m
    | .returned _ _ => s

/-- The state when the hook is called. -/
def start (c : Call) : State where
  now := c.start
  pending := 0
  answer := none
  since := 0
  requests := 0
  replies := []
  pc := .begin

/-- The state after a sequence of acts. -/
def run (m : Mode) (c : Call) (acts : List Act) : State :=
  acts.foldl (step m c) (start c)

/-! ## The clocks' arithmetic -/

theorem clockGettime_ms (now : Nat) : (clockGettime now).ms = (now / 1000000 : Nat) := by
  simp only [clockGettime, Timespec.ms, nsPerSecond]
  rw [Int.tdiv_eq_ediv_of_nonneg (by omega)]
  omega

section

variable (start timeout : Nat)

/-- The two ways to take the nanoseconds. -/
theorem absTimeout_cases :
    (nsPerSecond < start % nsPerSecond + timeout % 1000 * 1000000 ∧
      absTimeout start timeout =
        ⟨(start / nsPerSecond + timeout / 1000 + 1 : Nat),
          (start % nsPerSecond + timeout % 1000 * 1000000 : Nat) - (nsPerSecond : Int)⟩) ∨
    (start % nsPerSecond + timeout % 1000 * 1000000 ≤ nsPerSecond ∧
      absTimeout start timeout =
        ⟨(start / nsPerSecond + timeout / 1000 : Nat),
          (start % nsPerSecond + timeout % 1000 * 1000000 : Nat)⟩) := by
  have hnsec : (clockGettime start).nsec + (timeout % 1000 : Nat) * 1000 * 1000 =
      (start % nsPerSecond + timeout % 1000 * 1000000 : Nat) := by
    simp only [clockGettime]
    omega
  have hsec : (clockGettime start).sec + (timeout / 1000 : Nat) =
      (start / nsPerSecond + timeout / 1000 : Nat) := by
    simp only [clockGettime]
    omega
  simp only [absTimeout, hnsec, hsec]
  by_cases hcarry : nsPerSecond < start % nsPerSecond + timeout % 1000 * 1000000
  · exact .inl ⟨hcarry, if_pos (Int.ofNat_lt.2 hcarry)⟩
  · exact .inr ⟨Nat.le_of_not_lt hcarry, if_neg fun h => hcarry (Int.ofNat_lt.1 h)⟩

/-- The deadline is the start plus the timeout. -/
theorem absTimeout_ns :
    (absTimeout start timeout).ns = start + timeout * 1000000 := by
  obtain ⟨-, h⟩ | ⟨-, h⟩ := absTimeout_cases start timeout <;> rw [h] <;>
    simp only [Timespec.ns, nsPerSecond] <;> omega

/-- The nanoseconds are below a second, unless they make a whole one. -/
theorem absTimeout_nsec :
    start % nsPerSecond + timeout % 1000 * 1000000 = nsPerSecond ∨
      0 ≤ (absTimeout start timeout).nsec ∧ (absTimeout start timeout).nsec < nsPerSecond := by
  obtain ⟨hcarry, h⟩ | ⟨hcarry, h⟩ := absTimeout_cases start timeout <;> rw [h] <;>
    simp only [nsPerSecond] at hcarry ⊢ <;> omega

end

/-- In the polling build a call gives up less than a millisecond before its deadline, or after
it. -/
theorem lt_of_endTimeMs {start timeout now : Nat}
    (h : endTimeMs start timeout ≤ (clockGettime now).ms) :
    start + timeout * 1000000 < now + 1000000 := by
  rw [endTimeMs, clockGettime_ms, clockGettime_ms] at h
  omega

/-! ## What a call keeps to -/

/-- At `t` the clock of the build has passed the deadline of a request that was issued at
`since`. -/
def Passed (m : Mode) (c : Call) (since t : Nat) : Prop :=
  match m with
  | .semaphore => c.start + c.timeout * 1000000 ≤ (t : Int)
  | .polling => endTimeMs c.start c.timeout.toNat ≤ (clockGettime t).ms
  | .ring hz => timeoutTsc hz (c.timeout * 1000) ≤ t - since

/-- The polling build. -/
structure Polls : Prop where
  /-- A timeout of 0 is one request, and its answer is the value. -/
  zero : c.timeout = 0 → s.requests ≤ 1 ∧ ∀ v t, s.pc = .returned v t → s.replies = [v]
  zero_returns : c.timeout = 0 → s.pc = .waiting → ∀ found,
    ∃ v t, (step .polling c (step .polling c s (.loop found)) .hook).pc = .returned v t
  positive : 0 < c.timeout → ∀ t, s.pc = .returned 0 t →
    Passed .polling c s.since t ∧ c.start + c.timeout * 1000000 < (t : Int) + 1000000
  negative : c.timeout < 0 → ∀ t, s.pc ≠ .returned 0 t

/-- The other builds. -/
structure Blocks (m : Mode) (c : Call) (s : State) : Prop where
  negative : c.timeout < 0 → ∀ t, s.pc ≠ .returned 0 t
  zero : m = .semaphore → c.timeout = 0 → ∀ t, s.pc ≠ .returned 0 t
  positive : 0 < c.timeout → s.requests ≤ 1 ∧
    ∀ t, s.pc = .returned 0 t → 0 ∈ s.replies ∨ Passed m c s.since t

/-- The invariant of each build. -/
def Keeps : Mode → Prop
  | .polling => Polls c s
  | m => Blocks m c s

/-! ## Runs -/

/-- The handler does not return more than the hook has room for. -/
theorem cut_epollResult (found : Int) :
    c.request.cut (epollResult c.args found) = epollResult c.args found := by
  simp only [Call.request, Wait.Request.cut, epollResult]
  split_ifs <;> omega

/-- The answer that a hook finds is one of the loop's, and fits. -/
structure Answered : Prop where
  mem : ∀ ret, s.answer = some ret → ret ∈ s.replies
  cut : ∀ ret, s.answer = some ret → c.request.cut ret = ret

end

/-- A call that issues one request. -/
def Single (s : State) : Prop :=
  match s.pc with
  | .begin => s.requests = 0
  | .waiting | .returned _ _ => s.requests = 1

theorem Single.le {s : State} (h : Single s) : s.requests ≤ 1 := by
  unfold Single at h
  split at h <;> omega

section Runs

variable {m : Mode} {c : Call} {s : State} {ret : Int}

/-- What a step of the loop does to a call. -/
theorem handle_cases (m : Mode) (c : Call) (s : State) (found : Int) :
    handle m c s found = s ∨ handle m c s found =
      { s with
        pending := s.pending - 1
        answer := some (epollResult c.args found)
        replies := s.replies ++ [epollResult c.args found] } := by
  by_cases h : s.pending ≠ 0 ∧ answers c.args (epollResult c.args found) m
  · exact .inr (if_pos h)
  · exact .inl (if_neg h)

theorem answered_handle (h : Answered c s) (found : Int) : Answered c (handle m c s found) := by
  obtain he | he := handle_cases m c s found <;> rw [he]
  · exact h
  · constructor
    · rintro ret ⟨⟩
      simp
    · rintro ret ⟨⟩
      exact cut_epollResult c found

/-- What the two builds that block keep. -/
structure Kept (m : Mode) (c : Call) (s : State) : Prop where
  answered : Answered c s
  nonpos : c.timeout ≤ 0 → ∀ t, s.pc ≠ .returned 0 t
  single : 0 < c.timeout → Single s
  positive : 0 < c.timeout → ∀ t, s.pc = .returned 0 t → 0 ∈ s.replies ∨ Passed m c s.since t

theorem kept_start (m : Mode) (c : Call) : Kept m c (start c) where
  answered := ⟨by rintro _ ⟨⟩, by rintro _ ⟨⟩⟩
  nonpos := by rintro _ _ ⟨⟩
  single _ := rfl
  positive := by rintro _ _ ⟨⟩

theorem kept_handle (h : Kept m c s) (found : Int) : Kept m c (handle m c s found) := by
  have hanswered := answered_handle (m := m) h.answered found
  obtain he | he := handle_cases m c s found <;> rw [he] at hanswered ⊢
  · exact h
  · exact ⟨hanswered, h.nonpos, h.single, fun hpos t ht =>
      (h.positive hpos t ht).imp_left (mem_append_left _)⟩

theorem kept_submit (h : Kept m c s) (hp : s.pc = .begin) : Kept m c (submit m s) where
  answered := ⟨by rintro _ ⟨⟩, by rintro _ ⟨⟩⟩
  nonpos := by rintro _ _ ⟨⟩
  single hpos := by
    have := h.single hpos
    rw [Single, hp] at this
    exact congrArg (· + 1) this
  positive := by rintro _ _ ⟨⟩

theorem kept_leave (h : Kept m c s) (hp : s.pc = .waiting) (hcut : c.request.cut ret = ret)
    (hzero : 0 < c.timeout → ret = 0 → 0 ∈ s.replies ∨ Passed m c s.since s.now) :
    Kept m c (leave c s ret) := by
  have hretries : c.request.retries ret = true ↔ c.timeout ≤ 0 ∧ ret = 0 := by
    simp [Call.request, Wait.Request.retries, Call.timeout]
  simp only [leave, hcut]
  refine ⟨⟨h.answered.mem, h.answered.cut⟩, fun hnonpos t ht => ?_, fun hpos => ?_,
    fun hpos t ht => ?_⟩
  · split at ht
    · cases ht
    next hretry =>
      cases ht
      exact hretry (hretries.2 ⟨hnonpos, rfl⟩)
  · have := h.single hpos
    rw [Single, hp] at this
    have hretry : ¬ c.request.retries ret = true := fun hr => absurd (hretries.1 hr).1 (by omega)
    simpa [Single, hretry] using this
  · split at ht
    · cases ht
    · cases ht
      exact hzero hpos rfl

theorem cut_of_nonpos (c : Call) (h : ret ≤ 0) : c.request.cut ret = ret := by
  simp only [Call.request, Wait.Request.cut]
  omega

/-- The semaphore build. -/
theorem kept_waitSemaphore
    (h : Kept .semaphore c s) (hp : s.pc = .waiting) : Kept .semaphore c (waitSemaphore c s) := by
  have hidle : Kept .semaphore c { s with pending := 0 } :=
    ⟨⟨h.answered.mem, h.answered.cut⟩, h.nonpos, h.single, h.positive⟩
  unfold waitSemaphore
  split
  next ret hret =>
    refine kept_leave hidle hp (h.answered.cut ret hret) fun _ hzero => .inl ?_
    exact hzero ▸ h.answered.mem ret hret
  · split
    · exact h
    · simp only
      split
      · exact kept_leave hidle hp (cut_of_nonpos c (by omega)) (by omega)
      · split
        next hover =>
          refine kept_leave hidle hp (cut_of_nonpos c (Int.le_refl 0)) fun hpos _ => .inr ?_
          rw [absTimeout_ns] at hover
          simp only [Passed]
          omega
        · exact h

/-- The build with ring IPC. -/
theorem kept_waitRing {hz : Nat} (h : Kept (.ring hz) c s) (hp : s.pc = .waiting) :
    Kept (.ring hz) c (waitRing hz c s) := by
  unfold waitRing
  split
  next ret hret =>
    refine kept_leave h hp (h.answered.cut ret hret) fun _ hzero => .inl ?_
    exact hzero ▸ h.answered.mem ret hret
  · simp only
    split
    next hover =>
      refine kept_leave h hp (cut_of_nonpos c (Int.le_refl 0)) fun hpos _ => .inr ?_
      have hus : timeoutUs c.timeout = c.timeout * 1000 := by
        rw [timeoutUs, if_neg (by omega), if_neg (by omega)]
      rw [hus] at hover
      exact hover.2
    · exact h

/-- A step of a build whose waits keep what they should. -/
theorem kept_step (hwait : ∀ s, Kept m c s → s.pc = .waiting → Kept m c (wait c s m))
    (h : Kept m c s) (act : Act) : Kept m c (step m c s act) := by
  cases act with
  | tick n => exact ⟨⟨h.answered.mem, h.answered.cut⟩, h.nonpos, h.single, h.positive⟩
  | loop found => exact kept_handle h found
  | hook =>
    rw [step]
    split
    next hp => exact kept_submit h hp
    next hp => exact hwait s h hp
    · exact h

theorem Kept.blocks (h : Kept m c s) : Blocks m c s where
  negative hneg := h.nonpos (Int.le_of_lt hneg)
  zero _ hzero := h.nonpos (Int.le_of_eq hzero)
  positive hpos := ⟨(h.single hpos).le, h.positive hpos⟩

/-! ## The polling build -/

/-- Where a call with a timeout of 0 is with its one request. -/
def Zero (s : State) : Prop :=
  match s.pc with
  | .begin => s.pending = 0 ∧ s.requests = 0 ∧ s.replies = []
  | .waiting => s.requests = 1 ∧
    (s.pending = 1 ∧ s.answer = none ∧ s.replies = [] ∨
      ∃ v, s.pending = 0 ∧ s.answer = some v ∧ s.replies = [v])
  | .returned v _ => s.pending = 0 ∧ s.requests = 1 ∧ s.replies = [v]

/-- What the polling build guarantees for each sign of the timeout. -/
structure Polled (c : Call) (s : State) : Prop where
  answered : Answered c s
  zero : c.timeout = 0 → Zero s
  positive : 0 < c.timeout → ∀ t, s.pc = .returned 0 t → Passed .polling c s.since t
  negative : c.timeout < 0 → ∀ t, s.pc ≠ .returned 0 t

theorem polled_start (c : Call) : Polled c (start c) where
  answered := ⟨by rintro _ ⟨⟩, by rintro _ ⟨⟩⟩
  zero _ := ⟨rfl, rfl, rfl⟩
  positive := by rintro _ _ ⟨⟩
  negative := by rintro _ _ ⟨⟩

/-- The loop answers every round of a timeout of 0. -/
theorem answers_polling_zero (hzero : c.timeout = 0) (ret : Int) :
    answers c.args ret .polling = true := by
  have hzero : c.args.timeout = 0 := hzero
  simp [answers, semFlagEpollWait, hzero]

theorem zero_handle (h : Zero s) (hzero : c.timeout = 0) (found : Int) :
    Zero (handle .polling c s found) := by
  unfold handle
  simp only [answers_polling_zero hzero, and_true]
  unfold Zero at h ⊢
  cases hp : s.pc with
  | begin | returned v t =>
    rw [hp] at h
    simpa [h.1, hp] using h
  | waiting =>
    rw [hp] at h
    obtain ⟨hreq, ⟨hpending, -, hreplies⟩ | ⟨v, hpending, hv⟩⟩ := h
    · simp [hpending, hreq, hreplies]
    · simpa [hpending, hp, hreq] using ⟨v, hv⟩

/-- After a round of the loop the hook has its answer. -/
theorem answered_of_zero (h : Zero s) (hzero : c.timeout = 0) (hp : s.pc = .waiting) (found : Int) :
    ∃ v, (handle .polling c s found).answer = some v := by
  unfold handle
  simp only [answers_polling_zero hzero, and_true]
  rw [Zero, hp] at h
  obtain ⟨-, ⟨hpending, -, -⟩ | ⟨v, hpending, hv, -⟩⟩ := h
  · simp [hpending]
  · simp [hpending, hv]

variable (h : Polled c s)

include h

theorem polled_handle (found : Int) : Polled c (handle .polling c s found) := by
  have hpc : (handle .polling c s found).pc = s.pc := by
    obtain he | he := handle_cases .polling c s found <;> rw [he]
  exact ⟨answered_handle h.answered found, fun hzero => zero_handle (h.zero hzero) hzero found,
    by rw [hpc]; exact h.positive, by rw [hpc]; exact h.negative⟩

theorem polled_wait (hp : s.pc = .waiting) : Polled c (waitPolling c s) := by
  unfold waitPolling
  split
  next ret hret =>
    have hcut := h.answered.cut ret hret
    rw [hcut]
    split
    next hover =>
      refine ⟨⟨h.answered.mem, h.answered.cut⟩, fun hzero => ?_, fun hpos t ht => ?_,
        fun hneg t ht => ?_⟩
      · have hz := h.zero hzero
        rw [Zero, hp] at hz
        obtain ⟨hreq, ⟨-, hnone, -⟩ | ⟨v, hpending, hv, hreplies⟩⟩ := hz
        · rw [hnone] at hret
          cases hret
        · rw [hv] at hret
          cases hret
          exact ⟨hpending, hreq, hreplies⟩
      · cases ht
        exact (hover.resolve_left (by simp)).resolve_left (by omega) |>.2
      · cases ht
        omega
    next hover =>
      exact ⟨⟨h.answered.mem, h.answered.cut⟩, fun hzero => absurd (.inr (.inl hzero)) hover,
        by rintro _ _ ⟨⟩, by rintro _ _ ⟨⟩⟩
  · exact h

theorem polled_step (act : Act) : Polled c (step .polling c s act) := by
  cases act with
  | tick n => exact ⟨⟨h.answered.mem, h.answered.cut⟩, h.zero, h.positive, h.negative⟩
  | loop found => exact polled_handle h found
  | hook =>
    rw [step]
    split
    next hp =>
      refine ⟨⟨by rintro _ ⟨⟩, by rintro _ ⟨⟩⟩, fun hzero => ?_, by rintro _ _ ⟨⟩, by rintro _ _ ⟨⟩⟩
      have hz := h.zero hzero
      rw [Zero, hp] at hz
      exact ⟨congrArg (· + 1) hz.2.1, .inl ⟨rfl, rfl, hz.2.2⟩⟩
    next hp => exact polled_wait h hp
    · exact h

theorem Polled.polls : Polls c s where
  zero hzero := by
    have hz := h.zero hzero
    unfold Zero at hz
    cases hp : s.pc with
    | begin | waiting =>
      rw [hp] at hz
      exact ⟨by omega, by rintro _ _ ⟨⟩⟩
    | returned v t =>
      rw [hp] at hz
      refine ⟨by omega, ?_⟩
      rintro _ _ ⟨⟩
      exact hz.2.2
  zero_returns hzero hp found := by
    have hpc : (handle .polling c s found).pc = .waiting := by
      obtain he | he := handle_cases .polling c s found <;> rw [he] <;> exact hp
    obtain ⟨v, hv⟩ := answered_of_zero (h.zero hzero) hzero hp found
    simp only [step, hpc, wait, waitPolling, hv, hzero, true_or, or_true, if_true]
    exact ⟨_, _, rfl⟩
  positive hpos t ht := by
    have hover := h.positive hpos t ht
    have hlt := lt_of_endTimeMs hover
    exact ⟨hover, by omega⟩
  negative := h.negative

end Runs

/-! ## Every run -/

theorem keeps_run (m : Mode) (c : Call) (acts : List Act) : Keeps c (run m c acts) m := by
  cases m with
  | semaphore =>
    have h : Kept .semaphore c (run .semaphore c acts) :=
      foldlRecOn acts _ (kept_start _ c) fun s h act _ =>
        kept_step (fun s h hp => kept_waitSemaphore h hp) h act
    exact h.blocks
  | polling =>
    have h : Polled c (run .polling c acts) :=
      foldlRecOn acts _ (polled_start c) fun s h act _ => polled_step h act
    exact h.polls
  | ring hz =>
    have h : Kept (.ring hz) c (run (.ring hz) c acts) :=
      foldlRecOn acts _ (kept_start _ c) fun s h act _ =>
        kept_step (fun s h hp => kept_waitRing h hp) h act
    exact h.blocks

end FStack.Adapter.EpollWait
