import FStack.Adapter.Semaphore
import FStack.Lib.Count
import FStack.Lib.Probe
import FStack.Lib.Run
import Mathlib.Data.Fintype.Basic
import Mathlib.Data.Nat.Bitwise

/-!
# The syscall adapter: the pool of socket contexts

Model of a zone's contexts as they are handed out and taken back: `ff_attach_so_context` and
`ff_detach_so_context` (`adapter/syscall/ff_so_zone.c:159-264`), `ff_hook_fork`
(`adapter/syscall/ff_hook_syscall.c:2426-2496`) and `ff_adapter_exit` (`3129-3159`).

* A zone has `2 ^ k` contexts, 32 at most, so that the counters do not overflow. Both functions run
  under the zone's lock, and `fork` holds the lock of the context; each is one step.
* Processes are numbered below `n`. A process has the context that its `sc` points to, or none. A
  build with `FF_THREAD_SOCKET` or `FF_MULTI_SC`, where it may have several, is left out.
* What a holder does with its context is to leave some status and some value of the semaphore
  (`work`). A process that exits runs its destructors.
* With `FF_USE_THREAD_STRUCT_HANDLE` a child that gets no context dies on its null pointer.

`fork` counts the child as a holder of the parent's context. With `FF_USE_THREAD_STRUCT_HANDLE` the
child attaches another one, and the parent's keeps a reference that nobody gives back: `extra`
counts those. A context that is given back keeps its last `refcount` and the value of its semaphore,
and `attach` resets the one and not the other.
-/

namespace FStack.Adapter.Pool

open Function List FStack.Lib

/-- `struct ff_so_context`, with the fields that attaching and detaching read. -/
structure Slot where
  inuse : Bool
  status : Status
  refcount : Nat
  waitSem : Nat
  deriving DecidableEq

/-- `struct ff_socket_ops_zone`. -/
structure Zone where
  free : Nat
  idx : Nat
  slot : Nat → Slot

/-- The contexts in the order in which `ff_attach_so_context` looks at them. -/
def Zone.order (k : Nat) (z : Zone) : List Nat :=
  (range (2 ^ k)).map fun i => (z.idx + i) &&& (2 ^ k - 1)

/-- Context `c` is given out. -/
def Zone.take (z : Zone) (c : Nat) : Zone where
  free := z.free - 1
  idx := c + 1
  slot := update z.slot c
    { z.slot c with
      inuse := true
      status := .idle
      refcount := 1 }

/-- `ff_attach_so_context`: the first unused context from `idx` on. -/
def ffAttachSoContext (k : Nat) (z : Zone) : Option Nat × Zone :=
  if z.free = 0 then (none, z)
  else
    match (z.order k).find? fun c => !(z.slot c).inuse with
    | some c => (some c, z.take c)
    | none => (none, z)

/-- `ff_detach_so_context`: one reference less, and the context is unused with the last one. -/
def ffDetachSoContext (z : Zone) (c : Nat) : Zone :=
  if 1 < (z.slot c).refcount then
    { z with
      slot := update z.slot c { z.slot c with refcount := (z.slot c).refcount - 1 } }
  else if (z.slot c).inuse then
    { free := z.free + 1
      idx := c
      slot := update z.slot c { z.slot c with inuse := false } }
  else z

/-! ## Processes -/

/-- An application process, and the context it uses. -/
structure Proc where
  live : Bool
  sc : Option Nat
  deriving DecidableEq

/-- The shared zone and the processes on it. -/
structure State (n : Nat) where
  zone : Zone
  procs : Fin n → Proc
  /-- The references to a context that no process has. -/
  extra : Nat → Nat

/-- What a process may do with its context. -/
inductive Act (n : Nat) where
  /-- A process starts. -/
  | spawn (p : Fin n)
  | attach (p : Fin n)
  | work (p : Fin n) (status : Status) (waitSem : Nat)
  | detach (p : Fin n)
  | fork (p q : Fin n)
  | exit (p : Fin n)

variable {n k c free : Nat} {s : State n} {z : Zone} {p q : Fin n} {procs : Fin n → Proc}
  {slot : Nat → Slot} {sl : Slot} {extra : Nat → Nat}

namespace State

variable (s : State n)

/-- Changes one process. -/
def setProc (p : Fin n) (proc : Proc) : State n :=
  { s with procs := update s.procs p proc }

/-- Process `p` attaches a context, where one is left. -/
def attach (k : Nat) (s : State n) (p : Fin n) : State n :=
  match ffAttachSoContext k s.zone with
  | (some c, zone) =>
    { zone := zone
      procs := update s.procs p ⟨true, some c⟩
      extra := update s.extra c 0 }
  | (none, _) => s

/-- A process gives its context back. -/
def release (p : Fin n) : State n :=
  match (s.procs p).sc with
  | some c => { s with zone := ffDetachSoContext s.zone c }
  | none => s

/-- `sc->refcount++` in the parent. -/
def addRef (c : Nat) : State n :=
  { s with
    zone.slot := update s.zone.slot c
      { s.zone.slot c with refcount := (s.zone.slot c).refcount + 1 } }

end State

section

variable (structHandle : Bool)

variable (k : Nat)

variable (s : State n)

/-- `ff_hook_fork`: the child shares the parent's context, or attaches to one of its own. -/
def fork (p q : Fin n) : State n :=
  match (s.procs p).sc with
  | none => s.setProc q ⟨true, none⟩
  | some c =>
    if structHandle then
      let s := s.addRef c
      State.attach k { s with extra := update s.extra c (s.extra c + 1) } q
    else (s.addRef c).setProc q ⟨true, some c⟩

/-- One act of a process; an act that its process cannot do leaves the state as it is. -/
def step : Act n → State n
  | .spawn p => if (s.procs p).live then s else s.setProc p ⟨true, none⟩
  | .attach p => if (s.procs p).live ∧ (s.procs p).sc = none then s.attach k p else s
  | .work p status waitSem =>
    match (s.procs p).sc with
    | some c =>
      { s with
        zone.slot := update s.zone.slot c
          { s.zone.slot c with status := status, waitSem := waitSem } }
    | none => s
  | .detach p =>
    if (s.procs p).live then (s.release p).setProc p ⟨true, none⟩ else s
  | .fork p q =>
    if (s.procs p).live ∧ (s.procs q).live = false then fork structHandle k s p q else s
  | .exit p =>
    if (s.procs p).live then (s.release p).setProc p ⟨false, none⟩ else s

/-- The zone of `2 ^ k` contexts when no process runs yet. -/
def start (n : Nat) (k : Nat) : State n where
  zone :=
    { free := 2 ^ k
      idx := 0
      slot := fun _ => ⟨false, .idle, 0, 0⟩ }
  procs := fun _ => ⟨false, none⟩
  extra := fun _ => 0

/-- The state after a sequence of acts. -/
def run (acts : List (Act n)) : State n :=
  acts.foldl (step structHandle k) (start n k)

/-! ## Accounts -/

/-- How many contexts are not in use. -/
def unused (z : Zone) : Nat :=
  Count.count (Finset.range (2 ^ k)) (fun sl => !sl.inuse) z.slot

/-- How many processes have context `c`. -/
def holders (procs : Fin n → Proc) (c : Nat) : Nat :=
  Count.count Finset.univ (fun p => p.live && p.sc = some c) procs

/-- The pool's accounts. -/
structure Accounted : Prop where
  free : s.zone.free = unused k s.zone
  /-- A context is refused only when there is none. -/
  refused : (ffAttachSoContext k s.zone).1 = none → s.zone.free = 0
  /-- A context that is given out is held by nobody, idle, and has no wake-up pending. -/
  given : ∀ c z, ffAttachSoContext k s.zone = (some c, z) →
    holders s.procs c = 0 ∧ (z.slot c).status = .idle ∧ (z.slot c).waitSem = 0
  refcount : ∀ c, (s.zone.slot c).inuse = true → (s.zone.slot c).refcount = holders s.procs c
  /-- A context that its last holder gives back is free again. -/
  freed : ∀ p c, (s.procs p).sc = some c → holders s.procs c = 1 →
    ((ffDetachSoContext s.zone c).slot c).inuse = false

/-- What holds of the pool whatever the processes do. -/
structure Booked : Prop where
  free : s.zone.free = unused k s.zone
  refused : (ffAttachSoContext k s.zone).1 = none → s.zone.free = 0
  /-- The semaphore of a context that is given out is as it was left. -/
  given : ∀ c z, ffAttachSoContext k s.zone = (some c, z) →
    (s.zone.slot c).inuse = false ∧ holders s.procs c = 0 ∧ (z.slot c).status = .idle ∧
      (z.slot c).waitSem = (s.zone.slot c).waitSem
  refcount : ∀ c, (s.zone.slot c).inuse = true →
    (s.zone.slot c).refcount = holders s.procs c + s.extra c
  /-- A context that its last holder gives back is free if every reference was a holder's. -/
  freed : ∀ p c, (s.procs p).sc = some c → holders s.procs c = 1 →
    (((ffDetachSoContext s.zone c).slot c).inuse = false ↔ s.extra c = 0)

/-- No wake-up is pending for `p` when it gives the last reference to its context back. -/
def Quiet (p : Fin n) : Prop :=
  ∀ c ∈ (s.procs p).sc, (s.zone.slot c).refcount ≤ 1 → (s.zone.slot c).waitSem = 0

/-- A step with no fork of a process that has a context, where the child gets its own, and no
wake-up left behind. -/
def Clean : Act n → Prop
  | .fork p _ => structHandle = true → (s.procs p).sc = none
  | .detach p => Quiet s p
  | .exit p => Quiet s p
  | _ => True

end

instance (s : State n) (p : Fin n) : Decidable (Quiet s p) :=
  inferInstanceAs (Decidable (∀ c ∈ (s.procs p).sc, _))

instance (structHandle : Bool) (s : State n) (act : Act n) :
    Decidable (Clean structHandle s act) := by
  cases act <;> unfold Clean <;> infer_instance

/-! ## A step -/

/-- `free` counts the unused contexts, and `refcount` the processes of each used one. -/
structure Inv (k : Nat) (s : State n) : Prop where
  free : s.zone.free = unused k s.zone
  held : ∀ p c, (s.procs p).sc = some c → (s.procs p).live = true ∧ (s.zone.slot c).inuse = true
  range : ∀ c, (s.zone.slot c).inuse = true → c < 2 ^ k
  refs : ∀ c, (s.zone.slot c).inuse = true →
    (s.zone.slot c).refcount = holders s.procs c + s.extra c ∧ 0 < (s.zone.slot c).refcount

theorem inv_start (n k : Nat) : Inv k (start n k) where
  free := by simp [unused, Count.count, start]
  held p c h := by cases h
  range c h := by cases h
  refs c h := by cases h

theorem order_eq (k : Nat) (z : Zone) : z.order k = Probe.circ (2 ^ k) z.idx := by
  unfold Zone.order Probe.circ
  simp only [Nat.and_two_pow_sub_one_eq_mod]

/-- A context is found if there is one. -/
theorem attach_cases (hfree : z.free = unused k z) :
    (z.free = 0 ∧ ffAttachSoContext k z = (none, z)) ∨
      ∃ c, c < 2 ^ k ∧ (z.slot c).inuse = false ∧ 0 < z.free ∧
        ffAttachSoContext k z = (some c, z.take c) := by
  unfold ffAttachSoContext
  by_cases hzero : z.free = 0
  · exact .inl ⟨hzero, if_pos hzero⟩
  · rw [if_neg hzero, order_eq]
    cases hfind : (Probe.circ (2 ^ k) z.idx).find? fun c => !(z.slot c).inuse with
    | some c =>
      refine .inr ⟨c, Probe.mem_circ.1 (mem_of_find?_eq_some hfind), ?_, by omega, rfl⟩
      simpa using find?_some hfind
    | none =>
      have hpos : 0 < unused k z := by omega
      obtain ⟨c, hc, hunused⟩ := Count.count_pos.1 hpos
      have hmem : c ∈ Probe.circ (2 ^ k) z.idx := Probe.mem_circ.2 (Finset.mem_range.1 hc)
      exact absurd hunused (find?_eq_none.1 hfind c hmem)

/-- A write to a context that is in the zone. -/
theorem unused_update (hc : c < 2 ^ k) (sl : Slot) (free idx : Nat) :
    unused k ⟨free, idx, update z.slot c sl⟩ + (if (z.slot c).inuse then 0 else 1) =
      unused k z + if sl.inuse then 0 else 1 := by
  have h := Count.count_update (p := fun sl : Slot => !sl.inuse) (f := z.slot)
    (Finset.mem_range.2 hc) sl
  unfold unused
  cases hold : (z.slot c).inuse <;> cases hnew : sl.inuse <;> simpa [hold, hnew] using h

theorem holders_update (procs : Fin n → Proc) (p : Fin n) (proc : Proc) (c : Nat) :
    holders (update procs p proc) c +
        (if (procs p).live && (procs p).sc = some c then 1 else 0) =
      holders procs c + if proc.live && proc.sc = some c then 1 else 0 :=
  Count.count_update (p := fun p : Proc => p.live && p.sc = some c) (Finset.mem_univ p) proc

theorem holders_pos : 0 < holders procs c ↔ ∃ p, (procs p).live = true ∧ (procs p).sc = some c := by
  unfold holders
  rw [Count.count_pos]
  simp

theorem Inv.holders_of_unused (h : Inv k s) (hc : (s.zone.slot c).inuse = false) :
    holders s.procs c = 0 := by
  by_contra hne
  obtain ⟨p, -, hp⟩ := holders_pos.1 (Nat.pos_of_ne_zero hne)
  exact absurd (h.held p c hp).2 (by simp [hc])

/-- A process without a context starts or stops. -/
theorem holders_idle (hq : (procs q).sc = none) (live : Bool) (c : Nat) :
    holders (update procs q ⟨live, none⟩) c = holders procs c := by
  simpa [hq] using holders_update procs q ⟨live, none⟩ c

/-- A process without a context gets one. -/
theorem holders_gain (hq : (procs q).sc = none) (c d : Nat) :
    holders (update procs q ⟨true, some c⟩) d = holders procs d + if d = c then 1 else 0 := by
  simpa [hq, eq_comm] using holders_update procs q ⟨true, some c⟩ d

/-- A process gives its context up. -/
theorem holders_lose (hp : (procs p).sc = some c) (hlive : (procs p).live = true) (live : Bool)
    (d : Nat) : holders (update procs p ⟨live, none⟩) d + (if d = c then 1 else 0) =
      holders procs d := by
  simpa [hp, hlive, eq_comm] using holders_update procs p ⟨live, none⟩ d

theorem eq_of_holders_one (hone : holders procs c = 1)
    (hp : (procs p).live = true ∧ (procs p).sc = some c)
    (hq : (procs q).live = true ∧ (procs q).sc = some c) : p = q :=
  Count.count_le_one.1 hone.le p (Finset.mem_univ p) q (Finset.mem_univ q)
    (by simpa using hp) (by simpa using hq)

theorem Inv.sc_of_dead (h : Inv k s) (hq : (s.procs q).live = false) : (s.procs q).sc = none := by
  cases hsc : (s.procs q).sc with
  | none => rfl
  | some c => exact absurd (h.held q c hsc).1 (by simp [hq])

/-- The processes have contexts that are in use, after one process has changed. -/
theorem held_update {proc : Proc}
    (hself : ∀ d, proc.sc = some d → proc.live = true ∧ (slot d).inuse = true)
    (hrest : ∀ b, b ≠ q → ∀ d, (procs b).sc = some d → (procs b).live = true ∧ (slot d).inuse = true)
    : ∀ b d, (update procs q proc b).sc = some d →
      (update procs q proc b).live = true ∧ (slot d).inuse = true :=
  (forall_update_iff procs fun _ (proc : Proc) => ∀ d, proc.sc = some d →
    proc.live = true ∧ (slot d).inuse = true).2 ⟨hself, hrest⟩

theorem inuse_update (hsl : sl.inuse = true) {d : Nat} (hd : (slot d).inuse = true) :
    (update slot c sl d).inuse = true := by
  by_cases hdc : d = c
  · simp [hdc, hsl]
  · rwa [update_of_ne hdc]

theorem inv_idle (h : Inv k s) (hq : (s.procs q).sc = none) (live : Bool) :
    Inv k (s.setProc q ⟨live, none⟩) where
  __ := h
  held := held_update nofun fun b _ => h.held b
  refs c hc := by
    simp only [State.setProc, holders_idle hq]
    exact h.refs c hc

section

variable (h : Inv k s)

include h

/-- A step that writes to context `c` only. -/
theorem inv_write (hc : c < 2 ^ k) (idx : Nat)
    (hfree : free + (if (s.zone.slot c).inuse then 0 else 1) = s.zone.free + if sl.inuse then 0 else 1)
    (hheld : ∀ p d, (procs p).sc = some d → (procs p).live = true ∧
      (update s.zone.slot c sl d).inuse = true)
    (hself : sl.inuse = true → sl.refcount = holders procs c + extra c ∧ 0 < sl.refcount)
    (hothers : ∀ d, d ≠ c → holders procs d + extra d = holders s.procs d + s.extra d) :
    Inv k ⟨⟨free, idx, update s.zone.slot c sl⟩, procs, extra⟩ where
  free := by
    have hcount := unused_update (z := s.zone) hc sl free idx
    have := h.free
    simp only
    omega
  held := hheld
  range := (forall_update_iff s.zone.slot fun d sl => sl.inuse = true → d < 2 ^ k).2
    ⟨fun _ => hc, fun d _ => h.range d⟩
  refs := (forall_update_iff s.zone.slot fun d sl => sl.inuse = true →
      sl.refcount = holders procs d + extra d ∧ 0 < sl.refcount).2
    ⟨hself, fun d hd hinuse => by rw [hothers d hd]; exact h.refs d hinuse⟩

/-- Context `c`, which nobody has, is given to process `q`. -/
theorem inv_take (hq : (s.procs q).sc = none) (hc : c < 2 ^ k)
    (hunused : (s.zone.slot c).inuse = false) (hpos : 0 < s.zone.free) :
    Inv k
      { zone := s.zone.take c
        procs := update s.procs q ⟨true, some c⟩
        extra := update s.extra c 0 } := by
  have hgain := holders_gain hq c
  refine inv_write h hc (c + 1) ?_ ?_ (fun _ => ⟨?_, Nat.one_pos⟩) fun d hd => ?_
  · simp only [hunused, Bool.false_eq_true, if_false, if_true]
    omega
  · refine held_update ?_ fun b _ d hd => ?_
    · rintro d ⟨⟩
      simp
    · obtain ⟨hlive, hold⟩ := h.held b d hd
      exact ⟨hlive, inuse_update rfl hold⟩
  · rw [hgain c, h.holders_of_unused hunused]
    simp
  · rw [hgain d, update_of_ne hd, if_neg hd, add_zero]

theorem inv_attach (hq : (s.procs q).sc = none) : Inv k (s.attach k q) := by
  unfold State.attach
  obtain ⟨-, hnone⟩ | ⟨c, hc, hunused, hpos, hsome⟩ := attach_cases h.free
  · rw [hnone]
    exact h
  · rw [hsome]
    exact inv_take h hq hc hunused hpos

/-- A context in use is written to, but for `inuse`. -/
theorem inv_touch (hinuse : (s.zone.slot c).inuse = true) (hsl : sl.inuse = true)
    (hheld : ∀ p d, (procs p).sc = some d → (procs p).live = true ∧ (s.zone.slot d).inuse = true)
    (hself : sl.refcount = holders procs c + extra c ∧ 0 < sl.refcount)
    (hothers : ∀ d, d ≠ c → holders procs d + extra d = holders s.procs d + s.extra d) :
    Inv k ⟨{ s.zone with slot := update s.zone.slot c sl }, procs, extra⟩ :=
  inv_write h (h.range c hinuse) _ (by simp [hinuse, hsl])
    (fun b d hd => ⟨(hheld b d hd).1, inuse_update hsl (hheld b d hd).2⟩) (fun _ => hself) hothers

/-- Process `p` gives its context back. -/
theorem inv_release (live : Bool) : Inv k ((s.release p).setProc p ⟨live, none⟩) := by
  unfold State.release
  cases hp : (s.procs p).sc with
  | none => exact inv_idle h hp live
  | some c =>
    obtain ⟨hplive, hinuse⟩ := h.held p c hp
    obtain ⟨hrefs, hrefpos⟩ := h.refs c hinuse
    have hlose := holders_lose hp hplive live
    have hlosec := hlose c
    rw [if_pos rfl] at hlosec
    have hothers : ∀ d, d ≠ c →
        holders (update s.procs p ⟨live, none⟩) d + s.extra d = holders s.procs d + s.extra d := by
      intro d hd
      rw [← hlose d, if_neg hd, add_zero]
    simp only [State.setProc, ffDetachSoContext]
    by_cases hmany : 1 < (s.zone.slot c).refcount
    · simp only [if_pos hmany]
      refine inv_touch h hinuse hinuse ?_ ?_ hothers
      · exact held_update nofun fun b _ => h.held b
      · simp only
        omega
    · simp only [if_neg hmany, hinuse, if_true]
      -- the reference of `p` was the only one, so nobody else has the context
      have hone : holders s.procs c = 1 := by omega
      refine inv_write h (h.range c hinuse) _ (by simp [hinuse]) ?_ nofun hothers
      refine held_update nofun fun b hb d hd => ?_
      obtain ⟨hlive, hdinuse⟩ := h.held b d hd
      have hdc : d ≠ c := by
        rintro rfl
        exact hb (eq_of_holders_one hone ⟨hlive, hd⟩ ⟨hplive, hp⟩)
      exact ⟨hlive, by rwa [update_of_ne hdc]⟩

theorem inv_fork (structHandle : Bool)
    (hq : (s.procs q).sc = none) : Inv k (fork structHandle k s p q) := by
  unfold fork
  cases hsc : (s.procs p).sc with
  | none => exact inv_idle h hq true
  | some c =>
    obtain ⟨-, hinuse⟩ := h.held p c hsc
    obtain ⟨hrefs, hrefpos⟩ := h.refs c hinuse
    cases structHandle with
    | true =>
      -- the child's reference is one that nobody has
      refine inv_attach (inv_touch h hinuse hinuse h.held ⟨?_, Nat.succ_pos _⟩ fun d hd => ?_) hq
      · simp only [State.addRef, update_self]
        omega
      · simp only [State.addRef, update_of_ne hd]
    | false =>
      have hgain := holders_gain hq c
      refine inv_touch h hinuse hinuse ?_ ⟨?_, Nat.succ_pos _⟩ fun d hd => ?_
      · refine held_update ?_ fun b _ => h.held b
        rintro d ⟨⟩
        exact ⟨rfl, hinuse⟩
      · simp only [State.addRef, hgain c, if_true, hrefs]
        omega
      · simp only [State.addRef, hgain d, if_neg hd, add_zero]

end

variable (structHandle : Bool)

theorem inv_step (act : Act n) (h : Inv k s) :
    Inv k (step structHandle k s act) := by
  cases act with
  | spawn p =>
    simp only [step]
    split
    · exact h
    next hdead => exact inv_idle h (h.sc_of_dead (by simpa using hdead)) true
  | attach p =>
    simp only [step]
    split
    next hidle => exact inv_attach h hidle.2
    · exact h
  | work p status waitSem =>
    simp only [step]
    cases hp : (s.procs p).sc with
    | none => exact h
    | some c =>
      obtain ⟨-, hinuse⟩ := h.held p c hp
      exact inv_touch h hinuse hinuse h.held (h.refs c hinuse) fun _ _ => rfl
  | detach p =>
    simp only [step]
    split
    · exact inv_release h true
    · exact h
  | fork p q =>
    simp only [step]
    split
    next hlive => exact inv_fork h structHandle (h.sc_of_dead hlive.2)
    · exact h
  | exit p =>
    simp only [step]
    split
    · exact inv_release h false
    · exact h

/-! ## Every run -/

theorem Inv.booked (h : Inv k s) : Booked k s where
  free := h.free
  refused hnone := by
    obtain ⟨hzero, -⟩ | ⟨c, -, -, -, hsome⟩ := attach_cases h.free
    · exact hzero
    · rw [hsome] at hnone
      cases hnone
  given c z hgiven := by
    obtain ⟨-, hnone⟩ | ⟨d, -, hunused, -, hsome⟩ := attach_cases h.free
    · rw [hnone] at hgiven
      cases hgiven
    · rw [hsome] at hgiven
      cases hgiven
      exact ⟨hunused, h.holders_of_unused hunused, by simp [Zone.take], by simp [Zone.take]⟩
  refcount c hinuse := (h.refs c hinuse).1
  freed p c hp hone := by
    obtain ⟨-, hinuse⟩ := h.held p c hp
    obtain ⟨hrefs, -⟩ := h.refs c hinuse
    unfold ffDetachSoContext
    by_cases hmany : 1 < (s.zone.slot c).refcount
    · simp only [if_pos hmany, update_self, hinuse, Bool.true_eq_false, false_iff]
      omega
    · simp only [if_neg hmany, hinuse, if_true, update_self, true_iff]
      omega

/-- The accounts of every run. -/
theorem booked_run (k : Nat) (acts : List (Act n)) :
    Booked k (run structHandle k acts) :=
  (foldlRecOn acts _ (inv_start n k) fun _ h act _ => inv_step structHandle act h).booked

/-- All references are the holders', and no wake-up is pending for a context nobody has. -/
structure Tidy (s : State n) : Prop where
  extra : ∀ c, s.extra c = 0
  waitSem : ∀ c, (s.zone.slot c).inuse = false → (s.zone.slot c).waitSem = 0

theorem tidy_write (h : Tidy s) {idx : Nat} (hsl : sl.inuse = false → sl.waitSem = 0) :
    Tidy ⟨⟨free, idx, update s.zone.slot c sl⟩, procs, s.extra⟩ where
  extra := h.extra
  waitSem := (forall_update_iff s.zone.slot fun _ sl =>
    sl.inuse = false → sl.waitSem = 0).2 ⟨hsl, fun d _ => h.waitSem d⟩

theorem tidy_setProc (h : Tidy s) (p : Fin n) (proc : Proc) : Tidy (s.setProc p proc) :=
  ⟨h.extra, h.waitSem⟩

theorem tidy_attach (h : Tidy s) (p : Fin n) : Tidy (s.attach k p) := by
  unfold State.attach ffAttachSoContext
  split
  next c zone hsome =>
    split at hsome
    · cases hsome
    · split at hsome
      · cases hsome
        have hextra : update s.extra c 0 = s.extra :=
          update_eq_self_iff.2 (h.extra c).symm
        rw [hextra]
        exact tidy_write h nofun
      · cases hsome
  · exact h

theorem tidy_release (h : Tidy s) (hinv : Inv k s) (hquiet : Quiet s p) : Tidy (s.release p) := by
  unfold State.release
  cases hp : (s.procs p).sc with
  | none => exact h
  | some c =>
    obtain ⟨-, hinuse⟩ := hinv.held p c hp
    simp only [ffDetachSoContext]
    by_cases hmany : 1 < (s.zone.slot c).refcount
    · rw [if_pos hmany]
      exact tidy_write h (h.waitSem c)
    · rw [if_neg hmany, if_pos hinuse]
      exact tidy_write h fun _ => hquiet c hp (by omega)

theorem tidy_step {structHandle : Bool} {act : Act n} (h : Tidy s) (hinv : Inv k s)
    (hclean : Clean structHandle s act) : Tidy (step structHandle k s act) := by
  cases act with
  | spawn p =>
    simp only [step]
    split
    · exact h
    · exact tidy_setProc h p _
  | attach p =>
    simp only [step]
    split
    · exact tidy_attach h p
    · exact h
  | work p status waitSem =>
    simp only [step]
    cases hp : (s.procs p).sc with
    | none => exact h
    | some c =>
      refine tidy_write h fun hfalse => absurd (hinv.held p c hp).2 ?_
      simp only at hfalse
      simp [hfalse]
  | detach p | exit p =>
    simp only [step]
    split
    · exact tidy_setProc (tidy_release h hinv hclean) p _
    · exact h
  | fork p q =>
    simp only [step]
    split
    · unfold fork
      cases hp : (s.procs p).sc with
      | none => exact tidy_setProc h q _
      | some c =>
        cases structHandle with
        | true => exact absurd (hclean rfl) (by simp [hp])
        | false =>
          have hparent : Tidy (s.addRef c) := tidy_write h (h.waitSem c)
          exact tidy_setProc hparent q _
    · exact h

theorem Booked.accounted (h : Booked k s) (htidy : Tidy s) : Accounted k s where
  __ := h
  given c z hgiven := by
    obtain ⟨hunused, hnone, hidle, hsem⟩ := h.given c z hgiven
    exact ⟨hnone, hidle, hsem.trans (htidy.waitSem c hunused)⟩
  refcount c hinuse := by rw [h.refcount c hinuse, htidy.extra c, add_zero]
  freed p c hp hone := (h.freed p c hp hone).2 (htidy.extra c)

/-- In a run of clean steps the accounts of the pool are right. -/
theorem accounted_of_clean (k : Nat) {acts : List (Act n)}
    (hrun : Run.Guarded (step structHandle k) (Clean structHandle) (start n k) acts)
    {pre : List (Act n)} (hpre : pre <+: acts) : Accounted k (run structHandle k pre) := by
  have hstart : Tidy (start n k) := ⟨fun _ => rfl, fun _ _ => rfl⟩
  obtain ⟨hinv, htidy⟩ := Run.Guarded.invariant (P := fun s => Inv k s ∧ Tidy s)
    (fun s act h hclean => ⟨inv_step structHandle act h.1, tidy_step h.2 h.1 hclean⟩)
    ⟨inv_start n k, hstart⟩ hrun hpre
  exact hinv.booked.accounted htidy

/-- A process forks, both work, the child exits and the parent after it, and a third attaches. -/
def prefork : List (Act 3) :=
  [.spawn 0, .attach 0, .work 0 .req 0, .fork 0 1, .work 1 .rep 1, .exit 1, .work 0 .idle 0, .exit 0,
    .spawn 2, .attach 2]

theorem accounted_prefork :
    Run.Guarded (step false 1) (Clean false) (start 3 1) prefork ∧
      Accounted 1 (run false 1 prefork) :=
  have hrun : Run.Guarded (step false 1) (Clean false) (start 3 1) prefork := by decide
  ⟨hrun, accounted_of_clean false 1 hrun (prefix_refl _)⟩

/-- A process forks and its child exits. -/
def childGone : List (Act 2) :=
  [.spawn 0, .attach 0, .fork 0 1, .exit 1]

/-- A process exits and leaves a wake-up. -/
def wakeUpLeft : List (Act 1) :=
  [.spawn 0, .attach 0, .work 0 .idle 1, .exit 0]

/-- With `FF_USE_THREAD_STRUCT_HANDLE` a context whose holder has forked counts a holder too many,
and it is not free when its last holder exits. In every build the wake-up left behind is there for
the next process. -/
theorem not_accounted :
    ¬ Accounted 1 (run true 1 childGone) ∧
      holders (run true 1 childGone).procs 0 = 1 ∧
      ((run true 1 (childGone ++ [.exit 0])).zone.slot 0).inuse = true ∧
      holders (run true 1 (childGone ++ [.exit 0])).procs 0 = 0 ∧
      ¬ Accounted 0 (run false 0 wakeUpLeft) := by
  refine ⟨fun h => ?_, by decide, by decide, by decide, fun h => ?_⟩
  · exact absurd (h.refcount 0 (by decide)) (by decide)
  · exact absurd (h.given 0 _ rfl).2.2 (by decide)

end FStack.Adapter.Pool
