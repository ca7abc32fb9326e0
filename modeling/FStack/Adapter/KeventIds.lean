
/-!
# The syscall adapter: the identifiers of a `kevent`

Model of the two loops of `kevent` (`adapter/syscall/ff_hook_syscall.c:2545-2571`, `2701-2716`) that
translate `ident`. On the way in this is done for read, write and vnode filters. On the way out it
is done for whatever filter, and for all `nevents` entries of the caller's list, of which only as
many as there are events have been written.

`ident` is a `uintptr_t`, which `restore_fstack_fd` and `convert_fstack_fd` take as an `int`. An
event is reported for something the application has registered; so an event comes with the change
it goes back to.

Results:
* `keventRight_iff`: when a call is right; `keventRight_not`: a timer, and a list that is not
  filled.
-/

namespace FStack.Adapter.KeventIds

open List

variable {ρ : Type}

/-- `struct kevent`; `rest` has `flags`, `fflags`, `data`, `udata` and `ext`. -/
structure Kevent (ρ : Type) where
  filter : Int
  ident : BitVec 64
  rest : ρ
  deriving DecidableEq

/-- `ff_kernel_max_fd`, an `int`. -/
structure Limit where
  maxFd : BitVec 32
  pos : (0 : BitVec 32).slt maxFd = true

/-- `EVFILT_READ`, `EVFILT_WRITE` and `EVFILT_VNODE`. -/
def isFdFilter (filter : Int) : Bool := filter = -1 ∨ filter = -2 ∨ filter = -4

section

variable (k : Limit)

/-- `convert_fstack_fd`. -/
def convertFstackFd (sockfd : BitVec 32) : BitVec 32 := sockfd + k.maxFd

/-- `restore_fstack_fd`. -/
def restoreFstackFd (sockfd : BitVec 32) : BitVec 32 :=
  if sockfd.slt k.maxFd then sockfd else sockfd - k.maxFd

/-- An entry of `sh_changelist`. -/
def toFstack (kev : Kevent ρ) : Kevent ρ :=
  if isFdFilter kev.filter then
    { kev with ident := (restoreFstackFd k (kev.ident.setWidth 32)).signExtend 64 }
  else kev

/-- An entry of `eventlist`. -/
def fromFstack (kev : Kevent ρ) : Kevent ρ :=
  { kev with ident := (convertFstackFd k (kev.ident.setWidth 32)).signExtend 64 }

/-- A call: the changes, the caller's list of `nevents` entries, and the events, each with the
change that registered it and its other fields. -/
structure Call (ρ : Type) where
  changelist : List (Kevent ρ)
  eventlist : List (Kevent ρ)
  events : List (Kevent ρ × ρ)
  le : events.length ≤ eventlist.length

variable (c : Call ρ)

/-- The first entries of `sh_eventlist`. -/
def Call.reported : List (Kevent ρ) :=
  c.events.map fun e => { toFstack k e.1 with rest := e.2 }

/-- The caller's list after the call. -/
def Call.returned : List (Kevent ρ) :=
  if 0 < c.events.length then
    (c.reported k ++ c.eventlist.drop c.events.length).map (fromFstack k)
  else c.eventlist

/-! ## What a call should do -/

/-- `ident` is an F-Stack descriptor as the application has it. -/
def IsFstackFd (ident : BitVec 64) : Prop :=
  (ident.setWidth 32).slt k.maxFd = false ∧ (ident.setWidth 32).signExtend 64 = ident

/-- Identifiers are translated for F-Stack's descriptors and for nothing else, in both directions.
-/
structure KeventRight : Prop where
  /-- F-Stack gets its own descriptors, and the other identifiers as they are. -/
  changes : ∀ kev ∈ c.changelist,
    (isFdFilter kev.filter = true → IsFstackFd k kev.ident →
      ((toFstack k kev).ident.setWidth 32) + k.maxFd = kev.ident.setWidth 32) ∧
    (isFdFilter kev.filter = false → toFstack k kev = kev)
  /-- The application gets what it has registered. -/
  events : (c.returned k).take c.events.length = c.events.map fun e => { e.1 with rest := e.2 }
  /-- The entries behind the events are as they were. -/
  others : (c.returned k).drop c.events.length = c.eventlist.drop c.events.length

end

/-! ## What comes back -/

section Back

variable (k : Limit)

theorem setWidth_signExtend (x : BitVec 32) : (x.signExtend 64).setWidth 32 = x := by
  apply BitVec.eq_of_getElem_eq
  intro i hi
  rw [BitVec.getElem_setWidth, BitVec.getLsbD_signExtend]
  simp [hi, show i < 64 by omega]

theorem add_maxFd_ne (x : BitVec 32) : x + k.maxFd ≠ x := by
  intro h
  have hzero : k.maxFd = 0 := by simpa using h
  exact absurd k.pos (by rw [hzero]; decide)

/-- An identifier that is converted is not what it was. -/
theorem convert_ne (ident : BitVec 64) :
    (convertFstackFd k (ident.setWidth 32)).signExtend 64 ≠ ident := by
  intro h
  have hlow := congrArg (·.setWidth 32) h
  rw [setWidth_signExtend] at hlow
  exact add_maxFd_ne k _ hlow

variable (kev : Kevent ρ)

theorem fromFstack_ne : fromFstack k kev ≠ kev :=
  fun h => convert_ne k kev.ident (congrArg Kevent.ident h)

/-- An event comes back as it was registered exactly if it is for an F-Stack descriptor. -/
theorem fromFstack_toFstack_iff (r : ρ) :
    fromFstack k { toFstack k kev with rest := r } = { kev with rest := r } ↔
      isFdFilter kev.filter = true ∧ IsFstackFd k kev.ident := by
  unfold fromFstack toFstack
  by_cases hfd : isFdFilter kev.filter = true
  · rw [if_pos hfd]
    simp only [hfd, Kevent.mk.injEq, true_and, and_true, setWidth_signExtend, IsFstackFd,
      restoreFstackFd]
    cases hlt : (kev.ident.setWidth 32).slt k.maxFd with
    | true => simpa using convert_ne k kev.ident
    | false =>
      rw [convertFstackFd, if_neg Bool.false_ne_true, BitVec.sub_add_cancel]
      simp
  · simpa [hfd] using convert_ne k kev.ident

theorem toFstack_right :
    (isFdFilter kev.filter = true → IsFstackFd k kev.ident →
      ((toFstack k kev).ident.setWidth 32) + k.maxFd = kev.ident.setWidth 32) ∧
    (isFdFilter kev.filter = false → toFstack k kev = kev) := by
  unfold toFstack
  refine ⟨fun hfd hown => ?_, fun hfd => if_neg (by simp [hfd])⟩
  rw [if_pos hfd]
  rw [setWidth_signExtend, restoreFstackFd, hown.1, if_neg Bool.false_ne_true, BitVec.sub_add_cancel]

end Back

/-! ## When a call is right -/

/-- **A call is right** exactly if there are no events, or they fill the caller's list and are all
for descriptors of F-Stack. -/
theorem keventRight_iff (k : Limit) (c : Call ρ) : KeventRight k c ↔
    c.events = [] ∨ c.events.length = c.eventlist.length ∧
      ∀ e ∈ c.events, isFdFilter e.1.filter = true ∧ IsFstackFd k e.1.ident := by
  by_cases hnil : c.events = []
  · have hret : c.returned k = c.eventlist := if_neg (by simp [hnil])
    refine iff_of_true ⟨fun kev _ => toFstack_right k kev, ?_, ?_⟩ (.inl hnil)
    · rw [hret, hnil]
      rfl
    · rw [hret]
  have hlen : (c.reported k).length = c.events.length := length_map _
  have hret : c.returned k =
      (c.reported k).map (fromFstack k) ++ (c.eventlist.drop c.events.length).map (fromFstack k) := by
    rw [← map_append]
    exact if_pos (length_pos_iff.2 hnil)
  have htake : (c.returned k).take c.events.length = (c.reported k).map (fromFstack k) := by
    rw [hret, take_left' (by rw [length_map, hlen])]
  have hdrop : (c.returned k).drop c.events.length =
      (c.eventlist.drop c.events.length).map (fromFstack k) := by
    rw [hret, drop_left' (by rw [length_map, hlen])]
  have hevents : (c.reported k).map (fromFstack k) = (c.events.map fun e => { e.1 with rest := e.2 }) ↔
      ∀ e ∈ c.events, isFdFilter e.1.filter = true ∧ IsFstackFd k e.1.ident := by
    rw [Call.reported, map_map, map_inj_left]
    exact forall₂_congr fun e _ => fromFstack_toFstack_iff k e.1 e.2
  -- an entry behind the events is changed, so there is none
  have hothers : (c.eventlist.drop c.events.length).map (fromFstack k) =
      c.eventlist.drop c.events.length ↔ c.events.length = c.eventlist.length := by
    constructor
    · intro h
      cases hrest : c.eventlist.drop c.events.length with
      | nil => exact Nat.le_antisymm c.le (drop_eq_nil_iff.1 hrest)
      | cons kev rest =>
        rw [hrest, map_cons] at h
        exact absurd (List.cons.inj h).1 (fromFstack_ne k kev)
    · intro h
      rw [h, drop_length]
      rfl
  constructor
  · intro h
    exact .inr ⟨hothers.1 (hdrop.symm.trans h.others), hevents.1 (htake.symm.trans h.events)⟩
  · intro h
    obtain ⟨hfull, hown⟩ := h.resolve_left hnil
    exact ⟨fun kev _ => toFstack_right k kev, htake.trans (hevents.2 hown),
      hdrop.trans (hothers.2 hfull)⟩

/-- `FF_KERNEL_MAX_FD_DEFAULT`. -/
def defaultLimit : Limit := ⟨1024, by decide⟩

/-- A timer with the identifier 1 is reported as 1025; and in a list of two with one event the other
entry is changed. -/
theorem keventRight_not :
    ¬ KeventRight defaultLimit ⟨[], [⟨0, 0, ()⟩], [(⟨-7, 1, ()⟩, ())], by decide⟩ ∧
      ¬ KeventRight defaultLimit
        ⟨[], [⟨0, 0, ()⟩, ⟨-1, 7, ()⟩], [(⟨-1, 1029, ()⟩, ())], by decide⟩ :=
  ⟨fun h => absurd h.events (by decide), fun h => absurd h.others (by decide)⟩

end FStack.Adapter.KeventIds
