import FStack.MicroThread.Frame
import FStack.Lib.Places

/-!
# Micro threads: what the list operations keep

The flags of a thread say in which lists it is (`Synced`), which is what the operations on the lists
keep if their assertions hold. A thread that exists is in one of the places of the scheduler, or it
is one of those that are out of every list (`Shape`): between the operations that is the active
thread. The sub threads of a thread know it (`Kin`), and it waits for them in the list of pending
threads. The heap of sleepers has room for every thread (`Room`).
-/

namespace FStack.MicroThread

open Function List FStack.Lib HeapList

variable {ι : Type}

/-- Where a thread is. -/
inductive Place where
  | running
  | queued
  | waiting
  | sleeping
  | pending
  | free
deriving DecidableEq

/-- The flags of a thread at a place, which may be a sub thread. -/
def Place.flags (sub : Bool) : Place → Flags
  | .running => ⟨false, false, false, false, false, sub⟩
  | .queued => ⟨false, false, false, true, false, sub⟩
  | .waiting => ⟨false, true, true, false, false, sub⟩
  | .sleeping => ⟨false, false, true, false, false, sub⟩
  | .pending => ⟨false, false, false, false, true, sub⟩
  | .free => ⟨true, false, false, false, false, sub⟩

/-- The flags that say in which list of the scheduler a thread is. -/
def Flags.unsub (flag : Flags) : Flags := { flag with sub := false }

variable {place : Place} {sub : Bool}

theorem Place.flags_of_unsub {flag : Flags} (h : flag.unsub = (place.flags sub).unsub) :
    flag = place.flags flag.sub := by
  cases flag
  cases place <;> simp_all [Flags.unsub, Place.flags]

namespace Frame

section

variable (base : Int) (f : Frame ι)

/-- The flags say which lists a thread is in; `base` is what `_waitnum` has started from. -/
structure Synced : Prop where
  run : Marked f.runlist fun t => (f.thread t).flag.run
  io : Marked f.iolist fun t => (f.thread t).flag.io
  pend : Marked f.pendList fun t => (f.thread t).flag.pend
  free : Marked f.freelist fun t => (f.thread t).flag.free
  indexed : f.sleeplist.Indexed
  stored : ∀ t, f.sleeplist.Stored t ↔ (f.thread t).flag.sleep = true
  waitnum : f.waitnum = base + f.runlist.length
  holds : f.holds = true

/-- Every thread has the flags of one place; those of `out` have none. -/
def Shape (thread : ι → Thread ι) (out : ι → Prop) : Prop :=
  ∀ t, ∃ place : Place, (thread t).flag = place.flags (thread t).flag.sub ∧
    (place = .running ↔ out t)

/-- Sub threads and the threads that wait for them; those of `busy` do not wait yet. -/
structure Kin (busy : ι → Prop) : Prop where
  sub_iff : ∀ t, (f.thread t).flag.sub = true ↔ ∃ p, (f.thread t).parent = some p
  mem_iff : ∀ p t, t ∈ (f.thread p).subList ↔ (f.thread t).parent = some p
  nodup : ∀ p, (f.thread p).subList.Nodup
  waits : ∀ p, (f.thread p).subList ≠ [] → (f.thread p).flag.pend = true ∨ busy p
  child : ∀ t p, (f.thread t).parent = some p →
    (f.thread t).type = .subThread ∧ t ∈ f.objects ∧ (f.thread t).flag.free = false

/-- There are not more threads than places in the heap. -/
structure Room : Prop where
  nodup : f.objects.Nodup
  length : (f.objects.length : Int) = f.totalNum + 1
  total_le : f.totalNum ≤ f.sleeplist.max
  max_le : f.maxNum ≤ f.sleeplist.max
  daemon : f.daemon ∈ f.objects

/-- The invariant, while the threads of `out` are in no list and those of `busy` have sub threads
that they do not wait for yet. -/
structure Tidy (out busy : ι → Prop) : Prop where
  synced : f.Synced base
  shape : Shape f.thread fun t => out t ∨ t = f.daemon ∨ t ∉ f.objects
  kin : f.Kin busy
  room : f.Room

end

variable {base : Int} {f f' : Frame ι} {out busy : ι → Prop} {t : ι}

section Facts

section

variable (h : Tidy base f out busy)

include h

theorem Tidy.flag_of_out (ht : out t ∨ t = f.daemon ∨ t ∉ f.objects) :
    (f.thread t).flag = Place.running.flags (f.thread t).flag.sub := by
  obtain ⟨place, hflag, hrunning⟩ := h.shape t
  rw [hrunning.2 ht] at hflag
  exact hflag

/-- A thread that is in a list exists and is not the daemon. -/
theorem Tidy.of_flag (hne : (f.thread t).flag ≠ Place.running.flags (f.thread t).flag.sub) :
    ¬out t ∧ t ≠ f.daemon ∧ t ∈ f.objects := by
  have hout := mt h.flag_of_out hne
  rw [not_or, not_or, Classical.not_not] at hout
  exact hout

/-- A thread that is in no list has no sub threads. -/
theorem Tidy.subList_eq (ht : out t ∨ t = f.daemon ∨ t ∉ f.objects)
    (hbusy : ¬busy t) : (f.thread t).subList = [] := by
  by_contra hne
  have hpend := (h.kin.waits t hne).resolve_right hbusy
  rw [h.flag_of_out ht] at hpend
  exact Bool.false_ne_true hpend

/-- A thread out of every list that has sub threads is busy. -/
theorem Tidy.busy_of_out (ht : out t) (hne : (f.thread t).subList ≠ []) : busy t := by
  by_contra hbusy
  exact hne (h.subList_eq (.inl ht) hbusy)

theorem Tidy.parent_eq (ht : t ∉ f.objects ∨ (f.thread t).flag.free = true) :
    (f.thread t).parent = none := by
  cases hparent : (f.thread t).parent with
  | none => rfl
  | some p =>
    obtain ⟨-, hmem, hfree⟩ := h.kin.child t p hparent
    rcases ht with ht | ht
    · exact absurd hmem ht
    · exact absurd (hfree.symm.trans ht) Bool.false_ne_true

theorem Tidy.sub_eq (hparent : (f.thread t).parent = none) : (f.thread t).flag.sub = false := by
  rw [← Bool.not_eq_true, h.kin.sub_iff, hparent]
  simp

/-- The place of a thread that has a mark which only the threads at one place have. -/
theorem Tidy.flag_of_mark (mark : Flags → Bool) (hmark : mark (f.thread t).flag = true)
    (honly : ∀ p s, mark (Place.flags s p) = true → p = place) :
    (f.thread t).flag = place.flags (f.thread t).flag.sub := by
  obtain ⟨p, hflag, -⟩ := h.shape t
  rw [hflag] at hmark
  exact honly p _ hmark ▸ hflag

end

/-- A list operation does not make or delete a thread. -/
theorem Room.congr (h : f.Room) (hobjects : f'.objects = f.objects)
    (htotal : f'.totalNum = f.totalNum) (hmaxNum : f'.maxNum = f.maxNum)
    (hdaemon : f'.daemon = f.daemon) (hmax : f'.sleeplist.max = f.sleeplist.max) : f'.Room where
  nodup := by rw [hobjects]; exact h.nodup
  length := by rw [hobjects, htotal]; exact h.length
  total_le := by rw [htotal, hmax]; exact h.total_le
  max_le := by rw [hmaxNum, hmax]; exact h.max_le
  daemon := by rw [hobjects, hdaemon]; exact h.daemon

variable [DecidableEq ι]

/-- There is room in the heap for a thread that is not in it. -/
theorem Tidy.count_lt (h : Tidy base f out busy) (ht : t ∈ f.objects) (hd : t ≠ f.daemon)
    (hsleep : (f.thread t).flag.sleep = false) : f.sleeplist.count < f.sleeplist.max := by
  have hstored (e : ι) (he : f.sleeplist.Stored e) :
      e ∈ (f.objects.toFinset.erase f.daemon).erase t := by
    have hflag := (h.synced.stored e).1 he
    have hplaced := h.of_flag (t := e) fun hrunning => by
      rw [hrunning] at hflag
      exact Bool.false_ne_true hflag
    refine Finset.mem_erase.2 ⟨?_, Finset.mem_erase.2 ⟨hplaced.2.1, mem_toFinset.2 hplaced.2.2⟩⟩
    rintro rfl
    exact Bool.false_ne_true (hsleep.symm.trans hflag)
  have hcount := h.synced.indexed.aligned.count_le_card hstored
  have hcard₁ := Finset.card_erase_of_mem
    (Finset.mem_erase.2 ⟨hd, mem_toFinset.2 ht⟩ : t ∈ f.objects.toFinset.erase f.daemon)
  have hcard₂ := Finset.card_erase_of_mem (mem_toFinset.2 h.room.daemon)
  have hcard₃ := toFinset_card_of_nodup h.room.nodup
  have hpos : 0 < (f.objects.toFinset.erase f.daemon).card :=
    Finset.card_pos.2 ⟨t, Finset.mem_erase.2 ⟨hd, mem_toFinset.2 ht⟩⟩
  have hlength := h.room.length
  have htotal := h.room.total_le
  omega

end Facts

/-! ## Who is active, and which threads there are -/

section Same

variable (f : Frame ι) (t : ι)

/-- The same thread is active, and there are the same threads. -/
abbrev Same (f' : Frame ι) : Prop :=
  f'.currThread = f.currThread ∧ f'.daemon = f.daemon ∧ f'.objects = f.objects

@[simp] theorem assert_same (b : Bool) : f.Same (f.assert b) := ⟨rfl, rfl, rfl⟩

variable [DecidableEq ι]

@[simp] theorem setFlag_same (flag : Flags → Flags) : f.Same (f.setFlag t flag) := ⟨rfl, rfl, rfl⟩

@[simp] theorem setState_same (state : ThreadState) : f.Same (f.setState t state) :=
  ⟨rfl, rfl, rfl⟩

@[simp] theorem removeSleep_same : f.Same (f.removeSleep t) := by simp [Same, removeSleep]

@[simp] theorem removeIoWait_same : f.Same (f.removeIoWait t) := by simp [Same, removeIoWait]

@[simp] theorem insertRunable_same : f.Same (f.insertRunable t) := by simp [Same, insertRunable]

@[simp] theorem removePend_same : f.Same (f.removePend t) := by simp [Same, removePend]

@[simp] theorem activate_same : (f.activate t).currThread = t ∧
    (f.activate t).daemon = f.daemon ∧ (f.activate t).objects = f.objects := ⟨rfl, rfl, rfl⟩

end Same

/-! ## One thread moves -/

section Move

variable [DecidableEq ι] {f' : Frame ι} {out' busy' : ι → Prop} {l : List ι} {th : ι → Thread ι}
  {g : Flags → Bool}

/-- The heap of sleepers, when `t` enters or leaves it as its flag changes. -/
def turnHeap (t : ι) (before after : Bool) (h : HeapList ι) : HeapList ι :=
  match before, after with
  | false, true => (h.heapPush t).1
  | true, false => (h.heapDelete t).1
  | _, _ => h

theorem marked_turn (h : Marked l fun u => g (th u).flag) (x : Thread ι) :
    Marked (turn t (g (th t).flag) (g x.flag) l) fun u => g (update th t x u).flag :=
  (h.turn t (g x.flag)).congr
    (apply_update (fun _ (y : Thread ι) => g y.flag) th t x)

theorem stored_turnHeap {h : HeapList ι} (hi : h.Indexed)
    (hs : ∀ u, h.Stored u ↔ (th u).flag.sleep = true) (x : Thread ι)
    (hroom : x.flag.sleep = false ∨ h.count < h.max) :
    (turnHeap t (th t).flag.sleep x.flag.sleep h).Indexed ∧
      ∀ u, (turnHeap t (th t).flag.sleep x.flag.sleep h).Stored u ↔
        (update th t x u).flag.sleep = true := by
  have hother {h' : HeapList ι} (hother : ∀ u ≠ t, h'.Stored u ↔ h.Stored u)
      (hself : h'.Stored t ↔ x.flag.sleep = true) (u : ι) :
      h'.Stored u ↔ (update th t x u).flag.sleep = true := by
    by_cases hu : u = t
    · subst hu
      rwa [update_self]
    · rw [update_of_ne hu, hother u hu, hs]
  have hkeep (heq : x.flag.sleep = (th t).flag.sleep) :=
    hother (fun _ _ => Iff.rfl) ((hs t).trans (by rw [heq]))
  cases hbefore : (th t).flag.sleep <;> cases hafter : x.flag.sleep
  · exact ⟨hi, hkeep (hafter.trans hbefore.symm)⟩
  · have hnot : ¬h.Stored t := fun hmem =>
      Bool.false_ne_true (hbefore.symm.trans ((hs t).1 hmem))
    have hpush := stored_heapPush hi (hroom.resolve_left (by simp [hafter])) hnot
    refine ⟨indexed_heapPush hi, hother (fun u hu => ?_) (iff_of_true ?_ hafter)⟩
    · exact (hpush u).trans (or_iff_left hu)
    · exact (hpush t).2 (.inr rfl)
  · have hmem := (hs t).2 hbefore
    have hdelete := stored_heapDelete hi hmem
    refine ⟨(taken_heapDelete hi hmem).indexed, hother (fun u hu => ?_) (iff_of_false ?_ ?_)⟩
    · exact (hdelete u).trans (and_iff_left hu)
    · exact fun hstored => ((hdelete t).1 hstored).2 rfl
    · rw [hafter]
      exact Bool.false_ne_true
  · exact ⟨hi, hkeep (hafter.trans hbefore.symm)⟩

variable {x : Thread ι}

/-- The thread `t` goes from one place to another one, and enters and leaves the lists that the
flags of the two name. -/
theorem Synced.move (h : f.Synced base) (place place' : Place) {sub' : Bool}
    (hthread : f'.thread = update f.thread t x) (hflag : (f.thread t).flag = place.flags sub)
    (hx : x.flag = place'.flags sub')
    (hrun : f'.runlist = turn t (place.flags sub).run (place'.flags sub').run f.runlist)
    (hio : f'.iolist = turn t (place.flags sub).io (place'.flags sub').io f.iolist)
    (hpend : f'.pendList = turn t (place.flags sub).pend (place'.flags sub').pend f.pendList)
    (hfree : f'.freelist = turn t (place.flags sub).free (place'.flags sub').free f.freelist)
    (hsleep : f'.sleeplist = turnHeap t (place.flags sub).sleep (place'.flags sub').sleep f.sleeplist)
    (hroom : (place'.flags sub').sleep = false ∨ f.sleeplist.count < f.sleeplist.max)
    (hwaitnum : f'.waitnum = base + f'.runlist.length) (hholds : f'.holds = f.holds) :
    f'.Synced base := by
  rw [← hflag, ← hx] at hrun hio hpend hfree hsleep
  rw [← hx] at hroom
  obtain ⟨hindexed, hstored⟩ := stored_turnHeap h.indexed h.stored x hroom
  exact {
    run := by rw [hrun, hthread]; exact marked_turn h.run x
    io := by rw [hio, hthread]; exact marked_turn h.io x
    pend := by rw [hpend, hthread]; exact marked_turn h.pend x
    free := by rw [hfree, hthread]; exact marked_turn h.free x
    indexed := by rw [hsleep]; exact hindexed
    stored := by rw [hsleep, hthread]; exact hstored
    waitnum := hwaitnum
    holds := hholds.trans h.holds }

theorem Shape.update (h : Shape th out) (place : Place) (hx : x.flag = place.flags x.flag.sub)
    (hplace : place = .running ↔ out' t) (hout : ∀ u ≠ t, out' u ↔ out u) :
    Shape (update th t x) out' := by
  intro u
  by_cases hu : u = t
  · subst hu
    rw [update_self]
    exact ⟨place, hx, hplace⟩
  · rw [update_of_ne hu, hout u hu]
    exact h u

/-- A thread changes, with the same parent and the same sub threads. -/
theorem Kin.move (h : f.Kin busy) (hthread : f'.thread = update f.thread t x)
    (hobjects : ∀ u ≠ t, u ∈ f.objects → u ∈ f'.objects) (hsub : x.flag.sub = (f.thread t).flag.sub)
    (hparent : x.parent = (f.thread t).parent) (hsubList : x.subList = (f.thread t).subList)
    (hchild : ∀ p, x.parent = some p → x.type = .subThread ∧ t ∈ f'.objects ∧ x.flag.free = false)
    (hwaits : x.subList ≠ [] → x.flag.pend = true ∨ busy' t) (hbusy : ∀ u ≠ t, busy u → busy' u) :
    f'.Kin busy' := by
  have hold (u : ι) : (f'.thread u).flag.sub = (f.thread u).flag.sub ∧
      (f'.thread u).parent = (f.thread u).parent ∧
      (f'.thread u).subList = (f.thread u).subList := by
    rw [hthread]
    by_cases hu : u = t
    · subst hu
      rw [update_self]
      exact ⟨hsub, hparent, hsubList⟩
    · rw [update_of_ne hu]
      exact ⟨rfl, rfl, rfl⟩
  refine ⟨fun u => ?_, fun p u => ?_, fun p => ?_, fun p hp => ?_, fun u p hp => ?_⟩
  · rw [(hold u).1, (hold u).2.1]
    exact h.sub_iff u
  · rw [(hold p).2.2, (hold u).2.1]
    exact h.mem_iff p u
  · rw [(hold p).2.2]
    exact h.nodup p
  · by_cases hu : p = t
    · subst hu
      rw [hthread, update_self] at hp ⊢
      exact hwaits hp
    · rw [hthread, update_of_ne hu] at hp ⊢
      exact (h.waits p hp).imp_right (hbusy p hu)
  · by_cases hu : u = t
    · subst hu
      rw [hthread, update_self] at hp ⊢
      exact hchild p hp
    · rw [hthread, update_of_ne hu] at hp ⊢
      obtain ⟨htype, hmem, hfree⟩ := h.child u p hp
      exact ⟨htype, hobjects u hu hmem, hfree⟩

/-- The thread `t` goes to another place. -/
theorem Tidy.move (h : Tidy base f out busy) (place : Place) (state : ThreadState)
    (hthread : f'.thread = update f.thread t
      { f.thread t with flag := place.flags (f.thread t).flag.sub, state })
    (hdaemon : f'.daemon = f.daemon) (hobjects : f'.objects = f.objects) (hsynced : f'.Synced base)
    (hroom : f'.Room) (hplace : place = .running ↔ out' t ∨ t = f.daemon ∨ t ∉ f.objects)
    (hout : ∀ u ≠ t, out' u ↔ out u) (hfree : place ≠ .free)
    (hwaits : (f.thread t).subList ≠ [] → place = .pending ∨ busy' t)
    (hbusy : ∀ u ≠ t, busy u → busy' u) : Tidy base f' out' busy' where
  synced := hsynced
  shape := by
    rw [hthread, hdaemon, hobjects]
    refine h.shape.update place ?_ hplace fun u hu => by rw [hout u hu]
    cases place <;> rfl
  kin := by
    refine h.kin.move hthread (fun _ _ => hobjects ▸ id) ?_ rfl rfl (fun p hp => ?_)
      (fun hne => ?_) hbusy
    · cases place <;> rfl
    · obtain ⟨htype, hmem, -⟩ := h.kin.child t p hp
      refine ⟨htype, hobjects ▸ hmem, ?_⟩
      cases place <;> first | rfl | exact absurd rfl hfree
    · exact (hwaits hne).imp_left fun heq => by rw [heq]; rfl
  room := hroom

end Move

/-! ## The operations -/

section Ops

variable [DecidableEq ι] {sub : Bool}

theorem insertRunable_eq (hflag : (f.thread t).flag = Place.running.flags sub) :
    f.insertRunable t = { f with
      thread := update f.thread t
        { f.thread t with flag := Place.queued.flags sub, state := .runable }
      runlist := f.runlist ++ [t]
      waitnum := f.waitnum + 1 } := by
  simp [insertRunable, assert, setFlag, setState, setThread, hflag, Place.flags]

variable {rest : List ι}

theorem removeRunable_eq (hflag : (f.thread t).flag = Place.queued.flags sub)
    (hrun : f.runlist = t :: rest) : f.removeRunable t = { f with
      thread := update f.thread t
        { f.thread t with flag := Place.running.flags sub }
      runlist := rest
      waitnum := f.waitnum - 1 } := by
  simp [removeRunable, assert, setFlag, setThread, hflag, hrun, Place.flags]

theorem insertSleep_eq (hflag : (f.thread t).flag = Place.running.flags sub) :
    f.insertSleep t = { f with
      thread := update f.thread t
        { f.thread t with flag := Place.sleeping.flags sub, state := .sleeping }
      sleeplist := (f.sleeplist.heapPush t).1 } := by
  simp [insertSleep, assert, setFlag, setState, setThread, hflag, Place.flags]

theorem removeSleep_eq (hflag : (f.thread t).flag = Place.sleeping.flags sub) :
    f.removeSleep t = { f with
      thread := update f.thread t
        { f.thread t with flag := Place.running.flags sub }
      sleeplist := (f.sleeplist.heapDelete t).1 } := by
  simp [removeSleep, assert, setFlag, setThread, hflag, Place.flags]

theorem insertIoWait_eq (hflag : (f.thread t).flag = Place.running.flags sub) :
    f.insertIoWait t = { f with
      thread := update f.thread t
        { f.thread t with flag := Place.waiting.flags sub, state := .sleeping }
      iolist := f.iolist ++ [t]
      sleeplist := (f.sleeplist.heapPush t).1 } := by
  simp [insertIoWait, insertSleep, assert, setFlag, setState, setThread, hflag, Place.flags]

theorem removeIoWait_eq (hflag : (f.thread t).flag = Place.waiting.flags sub) :
    f.removeIoWait t = { f with
      thread := update f.thread t
        { f.thread t with flag := Place.running.flags sub }
      iolist := f.iolist.erase t
      sleeplist := (f.sleeplist.heapDelete t).1 } := by
  simp [removeIoWait, removeSleep, assert, setFlag, setThread, hflag, Place.flags]

theorem insertPend_eq (hflag : (f.thread t).flag = Place.running.flags sub) :
    f.insertPend t = { f with
      thread := update f.thread t
        { f.thread t with flag := Place.pending.flags sub, state := .pending }
      pendList := f.pendList ++ [t] } := by
  simp [insertPend, assert, setFlag, setState, setThread, hflag, Place.flags]

theorem removePend_eq (hflag : (f.thread t).flag = Place.pending.flags sub) :
    f.removePend t = { f with
      thread := update f.thread t
        { f.thread t with flag := Place.running.flags sub }
      pendList := f.pendList.erase t } := by
  simp [removePend, assert, setFlag, setThread, hflag, Place.flags]

theorem Tidy.insertRunable (h : Tidy base f out busy) (ht : out t) (hd : t ≠ f.daemon)
    (ho : t ∈ f.objects) : Tidy base (f.insertRunable t) (fun u => out u ∧ u ≠ t) busy := by
  have hflag := h.flag_of_out (.inl ht)
  rw [insertRunable_eq hflag]
  refine h.move .queued .runable rfl rfl rfl ?_ (h.room.congr rfl rfl rfl rfl rfl)
    (by simp [hd, ho]) (fun u hu => and_iff_left hu) (by decide)
    (fun hne => .inr (h.busy_of_out ht hne)) fun _ _ => id
  exact h.synced.move .running .queued rfl hflag rfl rfl rfl rfl rfl rfl (.inl rfl)
    (by simp [h.synced.waitnum, Int.add_assoc]) rfl

/-- A thread that leaves a list is out of every list. -/
theorem Tidy.leave (h : Tidy base f out busy)
    (hflag : (f.thread t).flag = place.flags (f.thread t).flag.sub)
    (hthread : f'.thread = update f.thread t
      { f.thread t with flag := Place.running.flags (f.thread t).flag.sub })
    (hdaemon : f'.daemon = f.daemon) (hobjects : f'.objects = f.objects) (hsynced : f'.Synced base)
    (hroom : f'.Room) (hwaits : place = .pending → (f.thread t).subList = []) :
    Tidy base f' (fun u => out u ∨ u = t) busy := by
  refine h.move .running (f.thread t).state hthread hdaemon hobjects hsynced hroom (by simp)
    (fun u hu => or_iff_left hu) (by decide) (fun hne => ?_) fun _ _ => id
  refine (h.kin.waits t hne).imp_left fun hwait => ?_
  rw [hflag] at hwait
  cases place <;> first | exact absurd (hwaits rfl) hne | cases hwait

section

variable (h : Tidy base f out busy)

include h

theorem Tidy.removeRunable (hlist : f.runlist = t :: rest) :
    Tidy base (f.removeRunable t) (fun u => out u ∨ u = t) busy := by
  have hflag : (f.thread t).flag = Place.queued.flags (f.thread t).flag.sub := by
    refine h.flag_of_mark Flags.run ((h.synced.run.mem_iff t).1 (by simp [hlist])) fun p s hp => ?_
    cases p <;> first | rfl | cases hp
  rw [removeRunable_eq hflag hlist]
  refine h.leave hflag rfl rfl rfl ?_ (h.room.congr rfl rfl rfl rfl rfl) nofun
  exact h.synced.move .queued .running rfl hflag rfl (by simp [hlist, turn, Place.flags]) rfl rfl
    rfl rfl (.inl rfl) (by simp [h.synced.waitnum, hlist, Int.add_sub_assoc]) rfl

theorem Tidy.insertSleep (ht : out t) (hd : t ≠ f.daemon)
    (ho : t ∈ f.objects) : Tidy base (f.insertSleep t) (fun u => out u ∧ u ≠ t) busy := by
  have hflag := h.flag_of_out (.inl ht)
  have hroom := h.count_lt ho hd (congrArg Flags.sleep hflag)
  rw [insertSleep_eq hflag]
  refine h.move .sleeping .sleeping rfl rfl rfl ?_ (h.room.congr rfl rfl rfl rfl (heapPush_max _ _))
    (by simp [hd, ho]) (fun u hu => and_iff_left hu) (by decide)
    (fun hne => .inr (h.busy_of_out ht hne)) fun _ _ => id
  exact h.synced.move .running .sleeping rfl hflag rfl rfl rfl rfl rfl rfl (.inr hroom)
    h.synced.waitnum rfl

theorem Tidy.removeSleep (hsleep : (f.thread t).flag.sleep = true)
    (hnot : (f.thread t).flag.io = false) :
    Tidy base (f.removeSleep t) (fun u => out u ∨ u = t) busy := by
  have hflag : (f.thread t).flag = Place.sleeping.flags (f.thread t).flag.sub := by
    refine h.flag_of_mark (fun flag => flag.sleep && !flag.io) (by rw [hsleep, hnot]; rfl)
      fun p s hp => ?_
    cases p <;> first | rfl | cases hp
  rw [removeSleep_eq hflag]
  refine h.leave hflag rfl rfl rfl ?_ (h.room.congr rfl rfl rfl rfl (heapDelete_max _ _))
    nofun
  exact h.synced.move .sleeping .running rfl hflag rfl rfl rfl rfl rfl rfl (.inl rfl)
    h.synced.waitnum rfl

theorem Tidy.insertIoWait (ht : out t) (hd : t ≠ f.daemon)
    (ho : t ∈ f.objects) : Tidy base (f.insertIoWait t) (fun u => out u ∧ u ≠ t) busy := by
  have hflag := h.flag_of_out (.inl ht)
  have hroom := h.count_lt ho hd (congrArg Flags.sleep hflag)
  rw [insertIoWait_eq hflag]
  refine h.move .waiting .sleeping rfl rfl rfl ?_ (h.room.congr rfl rfl rfl rfl (heapPush_max _ _))
    (by simp [hd, ho]) (fun u hu => and_iff_left hu) (by decide)
    (fun hne => .inr (h.busy_of_out ht hne)) fun _ _ => id
  exact h.synced.move .running .waiting rfl hflag rfl rfl rfl rfl rfl rfl (.inr hroom)
    h.synced.waitnum rfl

theorem Tidy.removeIoWait (hmark : (f.thread t).flag.io = true) :
    Tidy base (f.removeIoWait t) (fun u => out u ∨ u = t) busy := by
  have hflag : (f.thread t).flag = Place.waiting.flags (f.thread t).flag.sub := by
    refine h.flag_of_mark Flags.io hmark fun p s hp => ?_
    cases p <;> first | rfl | cases hp
  rw [removeIoWait_eq hflag]
  refine h.leave hflag rfl rfl rfl ?_ (h.room.congr rfl rfl rfl rfl (heapDelete_max _ _))
    nofun
  exact h.synced.move .waiting .running rfl hflag rfl rfl rfl rfl rfl rfl (.inl rfl)
    h.synced.waitnum rfl

/-- A thread that waits for its sub threads is not busy. -/
theorem Tidy.insertPend (ht : out t) (hd : t ≠ f.daemon) (ho : t ∈ f.objects) :
    Tidy base (f.insertPend t) (fun u => out u ∧ u ≠ t) (fun u => busy u ∧ u ≠ t) := by
  have hflag := h.flag_of_out (.inl ht)
  rw [insertPend_eq hflag]
  refine h.move .pending .pending rfl rfl rfl ?_ (h.room.congr rfl rfl rfl rfl rfl)
    (by simp [hd, ho]) (fun u hu => and_iff_left hu) (by decide) (fun _ => .inl rfl)
    fun _ hu hbusy => ⟨hbusy, hu⟩
  exact h.synced.move .running .pending rfl hflag rfl rfl rfl rfl rfl rfl (.inl rfl)
    h.synced.waitnum rfl

theorem Tidy.removePend (hmark : (f.thread t).flag.pend = true)
    (hsubs : (f.thread t).subList = []) : Tidy base (f.removePend t) (fun u => out u ∨ u = t) busy := by
  have hflag : (f.thread t).flag = Place.pending.flags (f.thread t).flag.sub := by
    refine h.flag_of_mark Flags.pend hmark fun p s hp => ?_
    cases p <;> first | rfl | cases hp
  rw [removePend_eq hflag]
  refine h.leave hflag rfl rfl rfl ?_ (h.room.congr rfl rfl rfl rfl rfl) fun _ => hsubs
  exact h.synced.move .pending .running rfl hflag rfl rfl rfl rfl rfl rfl (.inl rfl)
    h.synced.waitnum rfl

end

end Ops

end Frame

end FStack.MicroThread
