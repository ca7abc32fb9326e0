import FStack.Fd.Books
import FStack.Lib.Run
import FStack.Poll.Kevent

/-!
# Two stacks as one kqueue

A kqueue keeps a filter for each descriptor and kind, with its `udata`. `CallOk` and `InterestExact`
say that `ff_kevent` looks like that: a call that succeeds has carried out its changes, the host
epoll is registered for the filters asked for and no others, and a filter that is ready is reported
as it was asked for.

The code keeps one registration for each descriptor. Adding a second filter replaces the first
(`EPOLL_CTL_MOD` in `ff_host_kqueue_ctl`), deleting either deletes both; `udata` is not kept; a
change with neither `EV_ADD` nor `EV_ENABLE` nor `EV_DELETE` is dropped; `EV_ENABLE` registers what
was never added; and when the host's events fill the list, the call returns before F-Stack's changes
are made (`ff_syscall_wrapper.c:2133`), as it returns the number of the host's events when those
fail. F-Stack's own kqueue answers a change that it refuses with an entry of the list, in a call
that succeeds, and passes over one that it has no filter for.

Results:
* `kevent_ok`: every call of a run whose calls avoid all this.
* `kevent_not_ok`: a second filter, a full list, and `udata`.
-/

namespace FStack.Poll

open Function List FStack.Lib
open FStack.Fd (isKernelFd kernelFdReal ffEpollHostEp)

/-! ## What a kqueue would do -/

/-- The host epoll is registered for the filter of the descriptor. -/
def St.Interest (s : St) (d : Int) (φ : Filter) : Prop :=
  ∃ h r, hostFd s.fds d = some h ∧ s.reg h = some r ∧ r.app = d ∧ φ = if r.out then .write else .read

/-- The interest in a descriptor of the host is the read and write filters asked for. -/
def InterestExact (s : St) : Prop :=
  ∀ d φ, (hostFd s.fds d).isSome = true →
    (s.Interest d φ ↔ φ ≠ .other ∧ (s.asked d φ).isSome = true)

/-- The change `c`, for a descriptor of the host, was carried out just now. -/
def Applied (s : St) (c : Kev) : Prop :=
  if c.evDelete then ¬ s.Interest c.ident c.filter
  else if c.evAdd || c.evEnable then s.Interest c.ident c.filter
  else False

section

variable (kq : Int)

variable (s : St)

/-- The changes of a call that go to F-Stack's kqueue. -/
def Call.fbsd (c : Call) : List Kev := (c.changes.map Prod.fst).filter fun k => !isKernelFd k.ident

/-- The state after a change. -/
def change (co : Kev × Outside) : St := (changeRound kq (s, []) co).1

/-- The descriptor is ready for the filter. -/
def Bits.readyFor (b : Bits) : Filter → Bool
  | .read => b.inp
  | .write => b.out
  | .other => false

/-- A call that succeeds has carried out its changes, and what is ready is reported within the list.
-/
structure CallOk (c : Call) : Prop where
  host : 0 ≤ (ffKevent s kq c).2.1 → ∀ pre co, pre ++ [co] <+: c.changes →
    (hostFd s.fds co.1.ident).isSome = true → Applied ((pre ++ [co]).foldl (change kq) s) co.1
  kern : 0 ≤ (ffKevent s kq c).2.1 →
    (step kq s c).kern = s.kern ++ c.fbsd
  reported : c.listed = true → ((pending (step kq s c).reg c.ready).length : Int) ≤ c.nevents →
    ∀ d h φ u, hostFd s.fds d = some h → (step kq s c).asked d φ = some u →
      (c.ready.bits h).readyFor φ = true →
      ∃ e ∈ (ffKevent s kq c).2.2, e.ident = d ∧ e.filter = φ ∧ e.udata = u
  within : (ffKevent s kq c).2.2.length ≤ if c.listed then c.nevents.toNat else 0

/-! ## Care -/

/-- A change of a descriptor of the host that leaves no other filter of it, nor of another
descriptor with the same host descriptor; that says what to do; and adds a filter there is, which
the host accepts, without `udata`. -/
structure CarefulChange (co : Kev × Outside) : Prop where
  said : co.1.evDelete || co.1.evAdd || co.1.evEnable
  sole : ∀ φ, φ ≠ co.1.filter → s.asked co.1.ident φ = none
  alone : ∀ d φ, d ≠ co.1.ident → hostFd s.fds d = hostFd s.fds co.1.ident → s.asked d φ = none
  accepted : co.1.evDelete = false → co.1.filter ≠ .other ∧ co.2.ok = true ∧
    0 < (ffEpollHostEp s.fds kq true co.2.ep).2
  added : co.1.evDelete = false → co.1.evAdd = false → (s.asked co.1.ident co.1.filter).isSome = true
  plain : co.1.evDelete = false → co.1.evAdd = true → co.1.udata = 0

/-- A change of a descriptor of the host is careful. -/
def CarefulAt (co : Kev × Outside) : Prop :=
  (hostFd s.fds co.1.ident).isSome = true → CarefulChange kq s co

/-- The room that F-Stack's kqueue is called with. -/
def roomLeft (c : Call) : Int :=
  if c.listed then c.nevents - (hostEvents (c.changes.foldl (change kq) s) kq c).length else 0

/-- Every change is careful, and if there are changes for F-Stack then the host's events leave room
for an event and for every receipt, there are none when there is no kqueue, and the kqueue has a
filter for each of the changes and refuses none. -/
structure Careful (c : Call) : Prop where
  changes : Run.Guarded (change kq) (CarefulAt kq) s c.changes
  room : c.fbsd ≠ [] → c.listed = true → 0 < c.nevents →
    ((hostEvents (c.changes.foldl (change kq) s) kq c).length : Int) < c.nevents
  found : c.fbsd ≠ [] → c.kern.bad = true → hostEvents (c.changes.foldl (change kq) s) kq c = []
  known : ∀ k ∈ c.fbsd, k.null = false
  accepted : ∀ i, i < c.fbsd.length → c.kern.refused i = false
  receipts : c.fbsd.countP Kev.evReceipt ≤ (roomLeft kq s c).toNat

end

/-! ## The host epoll -/

section HostEp

variable (fds : Fd.St) (kq : Int) (create : Bool) (ep : Option Int)

theorem mapGet_ffEpollHostEp (d : Int) :
    (ffEpollHostEp fds kq create ep).1.mapGet d = fds.mapGet d := by
  unfold ffEpollHostEp
  cases fds.file kq <;> (repeat' split) <;> rfl

variable {fds kq create ep}

theorem ffEpollHostEp_of_paired {i : Nat} (h : fds.Paired i kq) (create : Bool) (ep : Option Int) :
    0 < (ffEpollHostEp fds kq create ep).2 := by
  unfold ffEpollHostEp
  split
  next j hj => exact (Fd.slotOf_some hj).2.1
  next hnone => exact absurd h (Fd.slotOf_none hnone i)

theorem paired_of_ffEpollHostEp (h : 0 < (ffEpollHostEp fds kq create ep).2) :
    ∃ i, (ffEpollHostEp fds kq create ep).1.Paired i kq := by
  revert h
  unfold ffEpollHostEp
  split
  next i hi => exact fun _ => ⟨i, Fd.slotOf_some hi⟩
  · split
    next i ep hi =>
      split
      · split
        next hpos => refine fun _ => ⟨i, (Fd.freeSlot_some hi).1, ?_, ?_⟩ <;> simp [hpos]
        · exact fun h => absurd h (by simp)
      · exact fun h => absurd h (by simp)
    · exact fun h => absurd h (by simp)

end HostEp

/-! ## A change -/

variable {kq d : Int} {s : St} {co : Kev × Outside}

section Change

theorem asks_of_ne (a : Int → Filter → Option Nat) {c : Kev} (hd : d ≠ c.ident) :
    asks a c d = a d := by
  unfold asks
  split
  · rw [update_of_ne hd]
  · split
    · rw [update_of_ne hd]
    · rfl

theorem asks_self (a : Int → Filter → Option Nat) (c : Kev) (φ : Filter) :
    asks a c c.ident φ =
      if c.evDelete then (if φ = c.filter then none else a c.ident φ)
      else if c.evAdd then (if φ = c.filter then some c.udata else a c.ident φ)
      else a c.ident φ := by
  unfold asks
  split
  · rw [update_self, update_apply]
  · split
    · rw [update_self, update_apply]
    · rfl

theorem asked_change : (change kq s co).asked = asks s.asked co.1 := rfl

theorem change_of_fstack (hh : hostFd s.fds co.1.ident = none) :
    change kq s co = { s with asked := asks s.asked co.1 } := by
  unfold change changeRound ffKeventHostChange
  simp only [hh]

theorem hostFd_isSome (fds : Fd.St) (d : Int) :
    (hostFd fds d).isSome = (isKernelFd d || decide (0 < fds.mapGet d)) := by
  unfold hostFd
  cases isKernelFd d with
  | true => rfl
  | false => by_cases hpos : 0 < fds.mapGet d <;> simp [hpos]

variable (kq : Int)

theorem mapGet_change (s : St) (co : Kev × Outside) (d : Int) :
    (change kq s co).fds.mapGet d = s.fds.mapGet d := by
  unfold change changeRound ffKeventHostChange
  dsimp only
  repeat' split
  all_goals first | rfl | exact mapGet_ffEpollHostEp _ _ _ _ d

theorem hostFd_change (s : St) (co : Kev × Outside) (d : Int) :
    hostFd (change kq s co).fds d = hostFd s.fds d := by
  unfold hostFd
  rw [mapGet_change]

theorem kern_change (s : St) (co : Kev × Outside) : (change kq s co).kern = s.kern := by
  unfold change changeRound ffKeventHostChange
  dsimp only
  repeat' split
  all_goals rfl

/-- F-Stack's kqueue gets every change but those of the host's own descriptors. -/
theorem changeRound_eq (s : St) (fbsd : List Kev) (co : Kev × Outside) :
    changeRound kq (s, fbsd) co =
      (change kq s co, fbsd ++ [co.1].filter fun k => !isKernelFd k.ident) := by
  have hhandled : (ffKeventHostChange s kq co.1 co.2).2 = (hostFd s.fds co.1.ident).isSome := by
    unfold ffKeventHostChange
    cases hostFd s.fds co.1.ident with
    | none => rfl
    | some hfd =>
      dsimp only
      repeat' split
      all_goals rfl
  have hgoes : (!(hostFd s.fds co.1.ident).isSome || decide (0 < s.fds.mapGet co.1.ident)) =
      !isKernelFd co.1.ident := by
    rw [hostFd_isSome]
    cases hk : isKernelFd co.1.ident with
    | true =>
      have hbig : Fd.kernelFdBase ≤ co.1.ident := of_decide_eq_true hk
      have hmax : Fd.maxFreebsdFiles ≤ Fd.kernelFdBase := by decide
      have hzero : s.fds.mapGet co.1.ident = 0 := if_pos (.inr (Int.le_trans hmax hbig))
      simp [hzero]
    | false => simp
  have hfbsd : (changeRound kq (s, fbsd) co).2 =
      if !(ffKeventHostChange s kq co.1 co.2).2 || 0 < (change kq s co).fds.mapGet co.1.ident then
        fbsd ++ [co.1] else fbsd := rfl
  refine Prod.ext rfl ?_
  rw [hfbsd, hhandled, mapGet_change, hgoes]
  cases hk : isKernelFd co.1.ident <;> simp [hk]

variable (changes : List (Kev × Outside))

theorem foldl_changeRound (s : St) (fbsd : List Kev) :
    changes.foldl (changeRound kq) (s, fbsd) = (changes.foldl (change kq) s,
      fbsd ++ (changes.map Prod.fst).filter fun k => !isKernelFd k.ident) := by
  induction changes generalizing s fbsd with
  | nil => simp
  | cons co changes ih =>
    rw [foldl_cons, foldl_cons, changeRound_eq, ih]
    cases hk : isKernelFd co.1.ident <;> simp [hk]

theorem hostFd_foldl (s : St) (d : Int) :
    hostFd (changes.foldl (change kq) s).fds d = hostFd s.fds d := by
  induction changes generalizing s with
  | nil => rfl
  | cons co changes ih => rw [foldl_cons, ih, hostFd_change]

theorem kern_foldl (s : St) : (changes.foldl (change kq) s).kern = s.kern := by
  induction changes generalizing s with
  | nil => rfl
  | cons co changes ih => rw [foldl_cons, ih, kern_change]

end Change

/-! ## The invariant -/

/-- The interest is exact, without `udata`, in an epoll that the kqueue has. -/
structure Inv (kq : Int) (s : St) : Prop where
  exact : InterestExact s
  null : ∀ d φ u, (hostFd s.fds d).isSome = true → s.asked d φ = some u → u = 0
  paired : ∀ h r, s.reg h = some r → ∃ i, s.fds.Paired i kq

theorem inv_init (kq : Int) (fds : Fd.St) : Inv kq (St.init fds) where
  exact := by simp [InterestExact, St.Interest, St.init]
  null := nofun
  paired := nofun

section Invariant

variable {h : Int}

theorem interest_iff (hd : hostFd s.fds d = some h) (φ : Filter) :
    s.Interest d φ ↔ ∃ r, s.reg h = some r ∧ r.app = d ∧ φ = if r.out then .write else .read := by
  constructor
  · rintro ⟨h', r, hh, hr⟩
    rw [hd] at hh
    cases hh
    exact ⟨r, hr⟩
  · rintro ⟨r, hr⟩
    exact ⟨h, r, hd, hr⟩

/-- After a careful change the filter it names is the only one asked for, unless it was deleted. -/
theorem CarefulChange.asked (hc : CarefulChange kq s co) (φ : Filter) :
    (asks s.asked co.1 co.1.ident φ).isSome = true ↔ co.1.evDelete = false ∧ φ = co.1.filter := by
  rw [asks_self]
  by_cases hφ : φ = co.1.filter
  · subst hφ
    cases hdel : co.1.evDelete with
    | true => simp
    | false =>
      cases hadd : co.1.evAdd with
      | true => simp
      | false => simp [hc.added hdel hadd]
  · have hnone := hc.sole φ hφ
    simp [hφ, hnone]

variable (hI : Inv kq s)

include hI

section

variable (hc : CarefulChange kq s co)

include hc

/-- The host epoll of the kqueue is there if the change needs it. -/
theorem CarefulChange.hostEp (h : co.1.evDelete = false ∨ ∃ h r, s.reg h = some r) :
    0 < (ffEpollHostEp s.fds kq (!co.1.evDelete) co.2.ep).2 := by
  rcases h with hdel | ⟨h, r, hr⟩
  · rw [hdel]
    exact (hc.accepted hdel).2.2
  · obtain ⟨i, hi⟩ := hI.paired h r hr
    exact ffEpollHostEp_of_paired hi _ _

section

variable (hh : hostFd s.fds co.1.ident = some h)

include hh

theorem reg_change :
    (change kq s co).reg = update s.reg h
      (if co.1.evDelete then none else some ⟨co.1.filter == .write, co.1.ident⟩) := by
  unfold change changeRound ffKeventHostChange
  simp only [hh, hc.said, if_true]
  split
  · unfold ffHostKqueueCtl
    cases hdel : co.1.evDelete with
    | true => rfl
    | false =>
      simp only [(hc.accepted hdel).2.1]
      cases s.reg h <;> rfl
  next hep =>
    have hdel : co.1.evDelete = true := by
      by_contra hdel
      exact hep (hc.hostEp hI (.inl (by simpa using hdel)))
    have hempty : s.reg h = none := by
      by_contra hreg
      obtain ⟨r, hr⟩ := Option.ne_none_iff_exists'.mp hreg
      exact hep (hc.hostEp hI (.inr ⟨h, r, hr⟩))
    simp [hdel, ← hempty]

theorem paired_change {h' : Int} {r : Reg}
    (hr : (change kq s co).reg h' = some r) : ∃ i, (change kq s co).fds.Paired i kq := by
  have hneeded : co.1.evDelete = false ∨ ∃ h r, s.reg h = some r := by
    rw [reg_change hI hc hh] at hr
    cases hdel : co.1.evDelete with
    | false => exact .inl rfl
    | true =>
      refine .inr ⟨h', r, ?_⟩
      by_cases hne : h' = h
      · subst hne
        simp [hdel] at hr
      · rwa [update_of_ne hne] at hr
  have hep := hc.hostEp hI hneeded
  obtain ⟨i, hi⟩ := paired_of_ffEpollHostEp hep
  have hfds : (change kq s co).fds =
      (ffEpollHostEp s.fds kq (!co.1.evDelete) co.2.ep).1 := by
    unfold change changeRound ffKeventHostChange
    simp only [hh, hc.said, if_true, if_pos hep]
  exact ⟨i, hfds ▸ hi⟩

theorem exact_change : InterestExact (change kq s co) := by
  intro d φ hd
  rw [hostFd_change] at hd
  obtain ⟨h', hd⟩ := Option.isSome_iff_exists.mp hd
  rw [interest_iff ((hostFd_change kq s co d).trans hd), reg_change hI hc hh, asked_change]
  by_cases hdi : d = co.1.ident
  · subst hdi
    rw [hh] at hd
    cases hd
    rw [update_self, hc.asked]
    cases hdel : co.1.evDelete with
    | true => simp
    | false =>
      have hother := (hc.accepted hdel).1
      cases hφ : co.1.filter <;> simp_all
  · rw [asks_of_ne _ hdi]
    by_cases hh' : h' = h
    · subst hh'
      have hnone := hc.alone d φ hdi (hd.trans hh.symm)
      rw [update_self, hnone]
      cases co.1.evDelete <;> simp [Ne.symm hdi]
    · rw [update_of_ne hh', ← interest_iff hd]
      exact hI.exact d φ (by simp [hd])

end

theorem null_change (d : Int) (φ : Filter) (u : Nat)
    (hd : (hostFd s.fds d).isSome = true) (hu : asks s.asked co.1 d φ = some u) : u = 0 := by
  by_cases hdi : d = co.1.ident
  · subst hdi
    rw [asks_self] at hu
    have hold := hI.null co.1.ident φ u hd
    cases hdel : co.1.evDelete with
    | true =>
      rw [hdel, if_pos rfl] at hu
      split at hu
      · cases hu
      · exact hold hu
    | false =>
      cases hadd : co.1.evAdd with
      | true =>
        rw [hdel, hadd, if_neg Bool.false_ne_true, if_pos rfl] at hu
        have hplain := hc.plain hdel hadd
        split at hu
        · cases hu
          exact hplain
        · exact hold hu
      | false =>
        rw [hdel, hadd, if_neg Bool.false_ne_true, if_neg Bool.false_ne_true] at hu
        exact hold hu
  · rw [asks_of_ne _ hdi] at hu
    exact hI.null d φ u hd hu

end

/-- What one change keeps. -/
theorem inv_change (hc : CarefulAt kq s co) : Inv kq (change kq s co) := by
  cases hh : hostFd s.fds co.1.ident with
  | some h =>
    have hc := hc (by simp [hh])
    exact ⟨exact_change hI hc hh, fun d φ u hd hu =>
      null_change hI hc d φ u (by rwa [hostFd_change] at hd) hu, fun _ _ => paired_change hI hc hh⟩
  | none =>
    -- The change is of a descriptor of F-Stack alone, of which the invariant says nothing.
    rw [change_of_fstack hh]
    have hne : ∀ d, (hostFd s.fds d).isSome = true → asks s.asked co.1 d = s.asked d := by
      intro d hd
      refine asks_of_ne _ ?_
      rintro rfl
      simp [hh] at hd
    refine ⟨fun d φ hd => ?_, fun d φ u hd hu => ?_, hI.paired⟩
    · dsimp only
      rw [hne d hd]
      exact hI.exact d φ hd
    · dsimp only at hu
      rw [hne d hd] at hu
      exact hI.null d φ u hd hu

/-- One change of the host's descriptors is carried out. -/
theorem applied_change (hc : CarefulChange kq s co)
    (hh : hostFd s.fds co.1.ident = some h) : Applied (change kq s co) co.1 := by
  have hiff := exact_change hI hc hh co.1.ident co.1.filter (by rw [hostFd_change]; simp [hh])
  rw [asked_change, hc.asked] at hiff
  unfold Applied
  cases hdel : co.1.evDelete with
  | true => simp [hiff, hdel]
  | false =>
    have hsaid := hc.said
    rw [hdel, Bool.false_or] at hsaid
    simp [hsaid, hiff, hdel, (hc.accepted hdel).1]

end Invariant

/-! ## A call -/

section Call

variable {c : Call} {φ : Filter} {h : Int} {u : Nat}

/-- The state when the changes are made. -/
def changed (kq : Int) (s : St) (c : Call) : St := c.changes.foldl (change kq) s

theorem ffKevent_eq (kq : Int) (s : St) (c : Call) : ffKevent s kq c =
    collect (changed kq s c) kq c.fbsd c := by
  unfold ffKevent
  rw [foldl_changeRound, nil_append]
  rfl

theorem inv_changes (hI : Inv kq s) (hc : Careful kq s c) {pre : List (Kev × Outside)}
    (hpre : pre <+: c.changes) : Inv kq (pre.foldl (change kq) s) :=
  hc.changes.invariant (P := Inv kq) (fun _ _ => inv_change) hI hpre

section Collect

variable (s : St) (fbsd : List Kev)

variable (kq : Int)

variable (c : Call)

/-- How a call ends: with a full list, with a failure of F-Stack's kqueue, or with its events. -/
theorem collect_cases :
    (c.listed = true ∧ 0 < c.nevents ∧ c.nevents ≤ ((hostEvents s kq c).length : Int) ∧
      collect s kq fbsd c = (s, ((hostEvents s kq c).length : Int), hostEvents s kq c)) ∨
    ∃ r, r = ffKeventDoEach c.kern fbsd
        (if c.listed then c.nevents - (hostEvents s kq c).length else 0) ∧
      collect s kq fbsd c = ({ s with kern := s.kern ++ r.2.1 },
        if r.1 < 0 then if 0 < ((hostEvents s kq c).length : Int) then
          ((hostEvents s kq c).length : Int) else -1
        else ((hostEvents s kq c).length : Int) + r.1,
        if r.1 < 0 then hostEvents s kq c else hostEvents s kq c ++ r.2.2) := by
  unfold collect
  by_cases hfull : (c.listed && decide (0 < c.nevents) &&
      decide (c.nevents ≤ ((hostEvents s kq c).length : Int))) = true
  · have hparts := hfull
    simp only [Bool.and_eq_true, decide_eq_true_eq] at hparts
    exact .inl ⟨hparts.1.1, hparts.1.2, hparts.2, if_pos hfull⟩
  · refine .inr ⟨_, rfl, (if_neg hfull).trans ?_⟩
    dsimp only
    generalize ffKeventDoEach c.kern fbsd
      (if c.listed = true then c.nevents - ((hostEvents s kq c).length : Int) else 0) = r
    split <;> rfl

theorem collect_frame : ∃ took, (collect s kq fbsd c).1 = { s with kern := s.kern ++ took } := by
  obtain ⟨-, -, -, h⟩ | ⟨r, -, h⟩ := collect_cases s fbsd kq c
  · exact ⟨[], by simp [h]⟩
  · exact ⟨r.2.1, by rw [h]⟩

theorem hostEvents_from_host : hostEvents s kq c <+: (collect s kq fbsd c).2.2 := by
  obtain ⟨-, -, -, h⟩ | ⟨r, -, h⟩ := collect_cases s fbsd kq c
  · simp [h]
  · rw [h]
    dsimp only
    split
    · exact prefix_refl _
    · exact prefix_append _ _

theorem length_hostEvents_le :
    (hostEvents s kq c).length ≤ if c.listed then c.nevents.toNat else 0 := by
  unfold hostEvents ffKeventHostWait
  cases c.listed with
  | false => simp
  | true =>
    split
    · split
      · rw [length_map]
        exact length_take_le _ _
      · exact Nat.zero_le _
    · exact Nat.zero_le _

end Collect

/-! ### F-Stack's kqueue -/

section Kern

variable {refused : Nat → Bool} {cs : List Kev}

/-- Changes that are not refused are all carried out if there is room for the receipts. -/
theorem kqueueChanges_eq (hnull : ∀ k ∈ cs, k.null = false) {i : Nat}
    (hok : ∀ j, j < cs.length → refused (i + j) = false) (room : Int)
    (hroom : cs.countP Kev.evReceipt ≤ room.toNat) :
    kqueueChanges refused i room cs = ⟨cs, (cs.filter Kev.evReceipt).map Kev.answer, none⟩ := by
  induction cs generalizing i room with
  | nil => rfl
  | cons c cs ih =>
    have hhere : refused i = false := hok 0 (Nat.zero_lt_succ _)
    have hrest : ∀ j, j < cs.length → refused (i + 1 + j) = false := fun j hj => by
      rw [Nat.add_assoc, Nat.add_comm 1 j]
      exact hok (j + 1) (Nat.succ_lt_succ hj)
    have ih' := ih (fun k hk => hnull k (mem_cons_of_mem c hk)) hrest
    unfold kqueueChanges
    simp only [hnull c mem_cons_self, hhere, Bool.false_eq_true, if_false, Bool.false_or]
    cases hr : c.evReceipt with
    | true =>
      rw [countP_cons_of_pos hr] at hroom
      simp [ih' (room - 1) (by omega), show room ≠ 0 by omega, hr]
    | false =>
      rw [countP_cons_of_neg (by simp [hr])] at hroom
      simp [ih' room hroom, hr]

/-- What F-Stack's kqueue answers then: a failure, or all of the changes and no more entries than
there is room for. -/
theorem doEach_cases (k : Kern) (hnull : ∀ k ∈ cs, k.null = false)
    (hok : ∀ i, i < cs.length → k.refused i = false) {room : Int}
    (hroom : cs.countP Kev.evReceipt ≤ room.toNat) :
    (ffKeventDoEach k cs room).2.2.length ≤ room.toNat ∧
      (k.bad = true ∧ (ffKeventDoEach k cs room).1 = -1 ∨ (ffKeventDoEach k cs room).2.1 = cs) := by
  unfold ffKeventDoEach
  rw [kqueueChanges_eq hnull (by simpa using hok) room hroom]
  cases hbad : k.bad with
  | true => exact ⟨Nat.zero_le _, .inl ⟨rfl, rfl⟩⟩
  | false =>
    simp only [Bool.false_eq_true, if_false, false_and, false_or]
    split
    · refine ⟨?_, rfl⟩
      rw [length_map, ← countP_eq_length_filter]
      exact hroom
    · split
      · exact ⟨Nat.zero_le _, rfl⟩
      · exact ⟨length_take_le _ _, rfl⟩

end Kern

section Careful

variable (hc : Careful kq s c)

include hc

/-- What F-Stack's kqueue does in a careful call. -/
theorem Careful.doEach :
    (ffKeventDoEach c.kern c.fbsd (roomLeft kq s c)).2.2.length ≤ (roomLeft kq s c).toNat ∧
      (c.kern.bad = true ∧ (ffKeventDoEach c.kern c.fbsd (roomLeft kq s c)).1 = -1 ∨
        (ffKeventDoEach c.kern c.fbsd (roomLeft kq s c)).2.1 = c.fbsd) :=
  doEach_cases c.kern hc.known hc.accepted hc.receipts

theorem length_collect_le : (collect (changed kq s c) kq c.fbsd c).2.2.length ≤
    if c.listed then c.nevents.toNat else 0 := by
  have hhost := length_hostEvents_le (changed kq s c) kq c
  obtain ⟨-, -, -, h⟩ | ⟨r, hr, h⟩ := collect_cases (changed kq s c) c.fbsd kq c
  · rwa [h]
  · have hevs := hc.doEach.1
    rw [show ffKeventDoEach c.kern c.fbsd (roomLeft kq s c) = r from hr.symm] at hevs
    rw [h]
    dsimp only
    split
    · exact hhost
    · rw [length_append]
      unfold roomLeft at hevs
      unfold changed at hhost ⊢
      split at hevs
      next hl =>
        rw [if_pos hl] at hhost ⊢
        omega
      next hl =>
        have hnone : r.2.2.length = 0 := Nat.le_zero.1 hevs
        rw [if_neg hl] at hhost ⊢
        omega

/-- A careful call that returns events or success has carried out F-Stack's changes. -/
theorem kern_collect (hret : 0 ≤ (collect (changed kq s c) kq c.fbsd c).2.1) :
    (collect (changed kq s c) kq c.fbsd c).1.kern = (changed kq s c).kern ++ c.fbsd := by
  obtain ⟨hl, hpos, hfull, h⟩ | ⟨r, hr, h⟩ := collect_cases (changed kq s c) c.fbsd kq c
  · have hnil : c.fbsd = [] := by
      by_contra hne
      have := hc.room hne hl hpos
      unfold changed at hfull
      omega
    rw [h, hnil, append_nil]
  · have hcases := hc.doEach.2
    rw [show ffKeventDoEach c.kern c.fbsd (roomLeft kq s c) = r from hr.symm] at hcases
    rw [h]
    rcases hcases with ⟨hbad, hneg⟩ | htaken
    · have hnil : c.fbsd = [] := by
        by_contra hne
        have hnone := hc.found hne hbad
        rw [h, hneg] at hret
        unfold changed at hret
        rw [hnone] at hret
        exact absurd hret (by simp)
      have hr : r.2.1 = [] := by
        rw [hr]
        simp [ffKeventDoEach, hbad]
      rw [hr, hnil]
    · rw [htaken]

end Careful

theorem step_frame (kq : Int) (s : St) (c : Call) :
    ∃ took, step kq s c = { changed kq s c with kern := (changed kq s c).kern ++ took } := by
  unfold step
  rw [ffKevent_eq]
  exact collect_frame _ _ kq c

variable (hI : Inv kq s)

include hI

theorem inv_step (hc : Careful kq s c) : Inv kq (step kq s c) := by
  obtain ⟨took, hstep⟩ := step_frame kq s c
  have hI' : Inv kq (changed kq s c) := inv_changes hI hc (prefix_refl _)
  rw [hstep]
  exact ⟨hI'.exact, hI'.null, hI'.paired⟩

/-- What is ready for a filter asked for, `epoll_wait` returns as an event of that filter. -/
theorem mem_pending (rd : Ready) (hd : hostFd s.fds d = some h)
    (hu : s.asked d φ = some u) (hready : (rd.bits h).readyFor φ = true) :
    ∃ e ∈ pending s.reg rd, (toEvent e).ident = d ∧ (toEvent e).filter = φ ∧ (toEvent e).udata = u := by
  have hother : φ ≠ .other := by
    rintro rfl
    cases hready
  obtain ⟨r, hr, happ, hφ⟩ := (interest_iff hd φ).mp
    ((hI.exact d φ (by simp [hd])).mpr ⟨hother, by simp [hu]⟩)
  have hu0 : u = 0 := hI.null d φ u (by simp [hd]) hu
  have hany : (seen r (rd.bits h)).any = true ∧ (seen r (rd.bits h)).out = r.out := by
    rw [hφ] at hready
    cases ho : r.out with
    | true =>
      rw [ho, if_pos rfl] at hready
      have hout : (rd.bits h).out = true := hready
      simp [seen, Bits.any, ho, hout]
    | false =>
      rw [ho, if_neg Bool.false_ne_true] at hready
      have hinp : (rd.bits h).inp = true := hready
      simp [seen, Bits.any, ho, hinp]
  have horder : h ∈ rd.order := by
    refine rd.mem_order h ?_
    have hsome := hany.1
    simp only [seen, Bits.any, Bool.or_eq_true, Bool.and_eq_true] at hsome ⊢
    tauto
  refine ⟨(r.app, seen r (rd.bits h)), mem_filterMap.mpr ⟨h, horder, ?_⟩, happ, ?_, hu0.symm⟩
  · simp [hr, hany.1]
  · simp only [toEvent, hany.2]
    exact hφ.symm

theorem reported_call (hc : Careful kq s c) (hlisted : c.listed = true)
    (hfits : ((pending (changed kq s c).reg c.ready).length : Int) ≤ c.nevents)
    (hd : hostFd s.fds d = some h) (hu : (changed kq s c).asked d φ = some u)
    (hready : (c.ready.bits h).readyFor φ = true) :
    ∃ e ∈ hostEvents (changed kq s c) kq c, e.ident = d ∧ e.filter = φ ∧ e.udata = u := by
  have hI' : Inv kq (changed kq s c) := inv_changes hI hc (prefix_refl _)
  have hd' : hostFd (changed kq s c).fds d = some h := (hostFd_foldl kq c.changes s d).trans hd
  obtain ⟨e, he, hev⟩ := mem_pending hI' c.ready hd' hu hready
  have hpos : 0 < c.nevents := by
    have := length_pos_of_mem he
    omega
  have hep : 0 < (ffEpollHostEp (changed kq s c).fds kq false none).2 := by
    obtain ⟨k, -, hk⟩ := mem_filterMap.mp he
    cases hr : (changed kq s c).reg k with
    | none => simp [hr] at hk
    | some r =>
      obtain ⟨i, hi⟩ := hI'.paired k r hr
      exact ffEpollHostEp_of_paired hi _ _
  refine ⟨toEvent e, ?_, hev⟩
  unfold hostEvents ffKeventHostWait
  simp only [hlisted, hpos, hep, decide_true, Bool.and_self, if_true]
  rw [take_of_length_le (by omega)]
  exact mem_map_of_mem he

theorem callOk_of_careful (hc : Careful kq s c) : CallOk kq s c := by
  obtain ⟨took, hstep⟩ := step_frame kq s c
  refine ⟨fun _ pre co hpre hhost => ?_, fun hret => ?_,
    fun hlisted hfits d h φ u hd hu hready => ?_, ?_⟩
  · obtain ⟨h, hh⟩ := Option.isSome_iff_exists.mp hhost
    rw [← hostFd_foldl kq pre s] at hh
    rw [foldl_append]
    exact applied_change (inv_changes hI hc ((prefix_append _ _).trans hpre))
      (hc.changes.guard_at hpre (by simp [hh])) hh
  · rw [ffKevent_eq] at hret
    unfold step
    rw [ffKevent_eq, kern_collect hc hret]
    exact congrArg (· ++ _) (kern_foldl kq c.changes s)
  · rw [hstep] at hfits hu
    obtain ⟨e, he, hev⟩ := reported_call hI hc hlisted hfits hd hu hready
    rw [ffKevent_eq]
    exact ⟨e, (hostEvents_from_host _ _ kq c).subset he, hev⟩
  · rw [ffKevent_eq]
    exact length_collect_le hc

end Call

/-! ## Runs -/

/-- In a run of careful calls the interest in the host's descriptors is right at any time, and every
call carries out its changes and reports what is ready. -/
theorem kevent_ok (kq : Int) (fds : Fd.St) (calls : List Call)
    (hrun : Run.Guarded (step kq) (Careful kq) (St.init fds) calls) :
    (∀ pre, pre <+: calls → InterestExact (run kq fds pre)) ∧
      ∀ pre c, pre ++ [c] <+: calls → CallOk kq (run kq fds pre) c := by
  have hinv : ∀ pre, pre <+: calls → Inv kq (run kq fds pre) := fun pre hpre =>
    hrun.invariant (P := Inv kq) (fun _ _ => inv_step) (inv_init kq fds) hpre
  exact ⟨fun pre hpre => (hinv pre hpre).exact, fun pre c hpre =>
    callOk_of_careful (hinv pre ((prefix_append _ _).trans hpre)) (hrun.guard_at hpre)⟩

/-! ## Sample calls -/

/-- The host's descriptor 5 is readable and writable. -/
def sampleReady : Ready where
  bits := fun h => ⟨h == 5, h == 5, false, false⟩
  order := [5]
  mem_order := by simp [Bits.any]

/-- `EV_ADD` of a filter; the host makes the epoll instance 7 for the first one. -/
def sampleAdd (ident : Int) (φ : Filter) (udata : Nat) : Kev × Outside :=
  (⟨ident, φ, false, true, false, false, false, udata⟩, ⟨some 7, true⟩)

/-- A call with a list for events. -/
def sampleCall (nevents : Int) (changes : List (Kev × Outside)) : Call :=
  ⟨changes, true, nevents, sampleReady, ⟨false, fun _ => false, false, [], 0⟩⟩

/-- A read filter for a descriptor of the host and one for a descriptor of F-Stack. -/
def mixedCall (nevents : Int) : Call :=
  sampleCall nevents [sampleAdd (Fd.kernelFdEncode 5) .read 0, sampleAdd 6 .read 3]

theorem careful_mixedCall : Careful 4 (St.init Fd.St.init) (mixedCall 2) where
  changes := by
    refine ⟨fun _ => ?_, fun h => ?_, trivial⟩
    · exact ⟨rfl, fun _ _ => rfl, fun _ _ _ _ => rfl, by decide, by decide, by decide⟩
    · exact absurd h (by decide)
  room := by decide
  found := by decide
  known := by decide
  accepted := by decide
  receipts := by decide

theorem kevent_ok_mixedCall :
    Run.Guarded (step 4) (Careful 4) (St.init Fd.St.init) [mixedCall 2] ∧
      InterestExact (run 4 Fd.St.init [mixedCall 2]) ∧
      CallOk 4 (St.init Fd.St.init) (mixedCall 2) := by
  have hrun : Run.Guarded (step 4) (Careful 4) (St.init Fd.St.init) [mixedCall 2] :=
    ⟨careful_mixedCall, trivial⟩
  obtain ⟨hexact, hcalls⟩ := kevent_ok 4 Fd.St.init [mixedCall 2] hrun
  exact ⟨hrun, hexact _ (prefix_refl _), hcalls [] _ (prefix_refl _)⟩

/-- A write filter beside a read filter takes its place, a list of one event leaves no room for
F-Stack's change, and `udata` is lost. -/
theorem kevent_not_ok :
    ¬ InterestExact (run 4 Fd.St.init [sampleCall 2
      [sampleAdd (Fd.kernelFdEncode 5) .read 0, sampleAdd (Fd.kernelFdEncode 5) .write 0]]) ∧
    ¬ CallOk 4 (St.init Fd.St.init) (mixedCall 1) ∧
    ¬ CallOk 4 (St.init Fd.St.init) (sampleCall 2 [sampleAdd (Fd.kernelFdEncode 5) .read 3]) := by
  refine ⟨fun h => ?_, fun h => ?_, fun h => ?_⟩
  · obtain ⟨r, hr, -, hout⟩ := (interest_iff (by rfl) .read).mp
      ((h (Fd.kernelFdEncode 5) .read (by rfl)).mpr ⟨nofun, by rfl⟩)
    cases (Option.some.inj hr : _ = r)
    cases hout
  · exact absurd (h.kern (by decide)) (by decide)
  · have hmem := h.reported rfl (by decide) (Fd.kernelFdEncode 5) 5 .read 3 (by rfl) (by rfl) rfl
    exact absurd hmem (by decide)

end FStack.Poll
