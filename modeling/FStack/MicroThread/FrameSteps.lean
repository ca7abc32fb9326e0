import FStack.MicroThread.FrameLists

/-!
# Micro threads: threads that hand over, that are woken and that are made

Between the steps of a run, the active thread is in no list, and every other thread that exists is
in one place (`Settled`). Each operation takes the threads it moves out of their lists and puts them
where they belong before it hands over.
-/

namespace FStack.MicroThread

open Function List FStack.Lib HeapList

variable {ι : Type}

namespace Frame

/-- No thread is busy: between the steps, and while threads are only made. -/
def idle : ι → Prop := fun _ => False

section Changes

variable {base : Int} {f f' : Frame ι} {out out' busy busy' : ι → Prop} {t : ι}

theorem Tidy.congr (h : Tidy base f out busy)
    (hout : ∀ u, u ≠ f.daemon → u ∈ f.objects → (out' u ↔ out u)) : Tidy base f out' busy := by
  refine ⟨h.synced, fun u => ?_, h.kin, h.room⟩
  obtain ⟨place, hflag, hplace⟩ := h.shape u
  refine ⟨place, hflag, hplace.trans ?_⟩
  by_cases hd : u = f.daemon
  · simp [hd]
  by_cases ho : u ∈ f.objects
  · simp [hd, ho, hout u hd ho]
  · simp [ho]

/-- The threads change, and stay in their lists. -/
theorem Tidy.relabel (h : Tidy base f out busy) {th : ι → Thread ι}
    (hflag : ∀ u, (th u).flag.unsub = (f.thread u).flag.unsub)
    (hkin : Kin { f with thread := th } busy') : Tidy base { f with thread := th } out busy' := by
  have hmark (g : Flags → Bool) (hg : ∀ flag : Flags, g flag.unsub = g flag) (u : ι) :
      g (th u).flag = g (f.thread u).flag := by
    rw [← hg, hflag, hg]
  refine ⟨?_, fun u => ?_, hkin, h.room.congr rfl rfl rfl rfl rfl⟩
  · exact {
      run := h.synced.run.congr (hmark Flags.run fun _ => rfl)
      io := h.synced.io.congr (hmark Flags.io fun _ => rfl)
      pend := h.synced.pend.congr (hmark Flags.pend fun _ => rfl)
      free := h.synced.free.congr (hmark Flags.free fun _ => rfl)
      indexed := h.synced.indexed
      stored := fun u => by
        rw [hmark Flags.sleep (fun _ => rfl) u]
        exact h.synced.stored u
      waitnum := h.synced.waitnum
      holds := h.synced.holds }
  · obtain ⟨place, hold, hplace⟩ := h.shape u
    exact ⟨place, Place.flags_of_unsub ((hflag u).trans (congrArg Flags.unsub hold)), hplace⟩

theorem Tidy.busy_mono (h : Tidy base f out busy) (hbusy : ∀ u, busy u → busy' u) : Tidy base f out busy' :=
  ⟨h.synced, h.shape, ⟨h.kin.sub_iff, h.kin.mem_iff, h.kin.nodup,
    fun p hp => (h.kin.waits p hp).imp_right (hbusy p), h.kin.child⟩, h.room⟩

variable [DecidableEq ι]

variable (h : Tidy base f out busy)

include h

theorem Tidy.setWakeupTime (t : ι) (waketime : Nat) :
    Tidy base (f.setWakeupTime t waketime) out busy :=
  ⟨{ h.synced with indexed := indexed_setTime h.synced.indexed, stored := h.synced.stored },
    h.shape, ⟨h.kin.sub_iff, h.kin.mem_iff, h.kin.nodup, h.kin.waits, h.kin.child⟩,
    h.room.congr rfl rfl rfl rfl rfl⟩

/-- A thread keeps its flags, its parent and its sub threads. -/
theorem Tidy.setThread (x : Thread ι) (hflag : x.flag = (f.thread t).flag)
    (hparent : x.parent = (f.thread t).parent) (hsubList : x.subList = (f.thread t).subList)
    (htype : ∀ p, x.parent = some p → x.type = .subThread) : Tidy base (f.setThread t x) out busy := by
  refine h.relabel (fun u => ?_) ?_
  · by_cases hu : u = t
    · subst hu
      rw [update_self, hflag]
    · rw [update_of_ne hu]
  · refine h.kin.move rfl (fun _ _ => id) (by rw [hflag]) hparent hsubList (fun p hp => ?_)
      (fun hne => ?_) fun _ _ => id
    · obtain ⟨-, hmem, hfree⟩ := h.kin.child t p (hparent ▸ hp)
      exact ⟨htype p hp, hmem, hflag ▸ hfree⟩
    · exact hflag ▸ h.kin.waits t (hsubList ▸ hne)

theorem Tidy.activate (t : ι) : Tidy base (f.activate t) out busy := by
  have h' : Tidy base { f with currThread := t } out busy :=
    ⟨⟨h.synced.run, h.synced.io, h.synced.pend, h.synced.free, h.synced.indexed, h.synced.stored,
      h.synced.waitnum, h.synced.holds⟩, h.shape,
      ⟨h.kin.sub_iff, h.kin.mem_iff, h.kin.nodup, h.kin.waits, h.kin.child⟩,
      h.room.congr rfl rfl rfl rfl rfl⟩
  exact h'.setThread _ rfl rfl rfl fun p hp => (h'.kin.child t p hp).1

end Changes

/-! ## Handing over -/

/-- Between the steps: only the active thread is in no list. -/
structure Settled (base : Int) (f : Frame ι) : Prop where
  tidy : Tidy base f (· = f.currThread) idle
  curr : f.currThread ∈ f.objects

variable [DecidableEq ι] {base : Int} {f : Frame ι} {out busy : ι → Prop} {t : ι}

theorem settled_threadSchdule (h : Tidy base f (fun _ => False) idle) : Settled base f.threadSchdule := by
  unfold threadSchdule
  split
  · refine ⟨(h.activate f.daemon).congr fun u hd _ => ?_, h.room.daemon⟩
    exact iff_false_intro hd
  next t rest hlist =>
    have h' := h.removeRunable hlist
    have hrun : (f.thread t).flag.run = true := (h.synced.run.mem_iff t).1 (by simp [hlist])
    have hplaced := h.of_flag (t := t) fun hflag => by
      rw [hflag] at hrun
      cases hrun
    refine ⟨(h'.activate t).congr fun u _ _ => ?_, ?_⟩
    · exact (or_iff_right id).symm
    · exact hplaced.2.2

section

variable (h : Settled base f)

include h

/-- What the active thread does before it hands over: it goes to one of the lists. -/
theorem Settled.left (hd : f.currThread ≠ f.daemon) {insert : Frame ι → ι → Frame ι}
    (hinsert : ∀ {f : Frame ι} {out : ι → Prop} {t : ι}, Tidy base f out idle → out t → t ≠ f.daemon →
      t ∈ f.objects → Tidy base (insert f t) (fun u => out u ∧ u ≠ t) idle) :
    Settled base (insert f f.currThread).threadSchdule := by
  refine settled_threadSchdule ((hinsert h.tidy rfl hd h.curr).congr fun u _ _ => ?_)
  exact ⟨False.elim, fun hu => hu.2 hu.1⟩

theorem Settled.setWakeupTime (t : ι) (waketime : Nat) : Settled base (f.setWakeupTime t waketime) :=
  ⟨h.tidy.setWakeupTime t waketime, h.curr⟩

section

variable (hd : f.currThread ≠ f.daemon)

include hd

theorem Settled.sleep (waketime : Nat) :
    Settled base (f.sleep waketime) :=
  (h.setWakeupTime f.currThread waketime).left hd Tidy.insertSleep

theorem Settled.waitNotify (waketime : Nat) :
    Settled base (f.waitNotify waketime) :=
  (h.setWakeupTime f.currThread waketime).left hd Tidy.insertIoWait

theorem Settled.kqueueSchedule (waketime : Nat)
    (added : Bool) : Settled base (f.kqueueSchedule waketime added) := by
  cases added with
  | true => exact h.waitNotify hd waketime
  | false => exact h.setWakeupTime f.currThread waketime

end

theorem Settled.swapDaemonThread : Settled base f.swapDaemonThread := by
  unfold Frame.swapDaemonThread
  split
  next hd =>
    refine ⟨((h.tidy.insertRunable rfl hd h.curr).activate _).congr fun u hu _ => ?_, ?_⟩
    · exact ⟨fun heq => absurd heq hu, fun hu' => absurd hu'.1 hu'.2⟩
    · exact h.tidy.room.daemon
  · exact h

/-! ## Threads that are woken -/

/-- A thread goes from another list to that of the threads that may run. -/
theorem Settled.requeue {g : Frame ι}
    (hflag : (f.thread t).flag ≠ Place.running.flags (f.thread t).flag.sub)
    (hg : Tidy base g (fun u => u = f.currThread ∨ u = t) idle)
    (hsame : g.currThread = f.currThread ∧ g.daemon = f.daemon ∧ g.objects = f.objects) :
    Settled base (g.insertRunable t) := by
  obtain ⟨hcurr, hdaemon, hobjects⟩ := hsame
  obtain ⟨hne, hd, ho⟩ := h.tidy.of_flag hflag
  refine ⟨(hg.insertRunable (.inr rfl) (hdaemon ▸ hd) (hobjects ▸ ho)).congr fun u _ _ => ?_, ?_⟩
  · rw [(insertRunable_same g t).1, hcurr]
    constructor
    · rintro rfl
      exact ⟨.inl rfl, Ne.symm hne⟩
    · rintro ⟨hu | hu, hu'⟩
      · exact hu
      · exact absurd hu hu'
  · simp only [insertRunable_same, hcurr, hobjects]
    exact h.curr

end

theorem flag_ne_running {flag : Flags} (h : flag.io = true ∨ flag.sleep = true ∨ flag.pend = true) :
    flag ≠ Place.running.flags flag.sub := by
  intro hflag
  rw [hflag] at h
  simp [Place.flags] at h

theorem Settled.ownerNotify (h : Settled base f) (owner : Option ι) :
    Settled base (f.ownerNotify owner).1 := by
  unfold Frame.ownerNotify
  split
  · exact h
  split
  next hio =>
    exact h.requeue (flag_ne_running (.inl hio)) (h.tidy.removeIoWait hio)
      (removeIoWait_same f _)
  · exact h

theorem Settled.notifyThread (h : Settled base f) (thread : Option ι) :
    Settled base (f.notifyThread thread) := by
  unfold Frame.notifyThread
  split
  · exact h
  next t =>
    split
    next hio =>
      have hflag := flag_ne_running (.inl hio)
      split
      next hdaemon =>
        refine ⟨((h.tidy.removeIoWait hio).activate t).congr fun u hu _ => ?_, ?_⟩
        · -- The daemon, which was active, needs no place.
          simp only [activate_same, removeIoWait_same, ← hdaemon] at hu ⊢
          rw [or_iff_right hu]
        · exact (h.tidy.of_flag hflag).2.2
      · exact h.requeue hflag (h.tidy.removeIoWait hio) (removeIoWait_same f t)
    · exact h

theorem Settled.wakeup (h : Settled base f) (hsleep : (f.thread t).flag.sleep = true) :
    Settled base (f.wakeup t) := by
  unfold Frame.wakeup
  split
  next hio =>
    exact h.requeue (flag_ne_running (.inl hio)) (h.tidy.removeIoWait hio)
      (removeIoWait_same f _)
  next hio =>
    exact h.requeue (flag_ne_running (.inr (.inl hsleep)))
      (h.tidy.removeSleep hsleep (Bool.not_eq_true _ ▸ hio)) (removeSleep_same f t)

omit [DecidableEq ι] in
theorem stored_of_heapTop {h : HeapList ι} (ht : h.heapTop = some t) : h.Stored t := by
  unfold heapTop at ht
  split at ht
  next hcount => exact ⟨1, Nat.one_pos, hcount, ht⟩
  · cases ht

theorem Settled.wakeupRounds (h : Settled base f) (now fuel : Nat) :
    Settled base (f.wakeupRounds now fuel) := by
  induction fuel generalizing f with
  | zero => exact h
  | succ fuel ih =>
    unfold Frame.wakeupRounds
    split
    · exact h
    next t htop =>
      split
      · exact ih (h.wakeup ((h.tidy.synced.stored t).1 (stored_of_heapTop htop)))
      · exact h

/-! ## The pool -/

/-- `f'` is `f` with a thread `t` that has not been started. -/
structure Allocated (f f' : Frame ι) (t : ι) : Prop where
  curr : f'.currThread = f.currThread
  daemon : f'.daemon = f.daemon
  objects : ∀ u ∈ f.objects, u ∈ f'.objects
  mem : t ∈ f'.objects
  ne : t ≠ f.daemon
  others : ∀ u ≠ t, f'.thread u = f.thread u
  parent : (f'.thread t).parent = none

section Free

omit [DecidableEq ι]
variable {rest : List ι}

/-- The first one of the free threads. -/
theorem Tidy.flag_of_free (h : Tidy base f out busy) (hlist : f.freelist = t :: rest) :
    (f.thread t).flag = Place.free.flags (f.thread t).flag.sub := by
  have hmark := (h.synced.free.mem_iff t).1 (by simp [hlist])
  refine h.flag_of_mark Flags.free hmark fun p s hp => ?_
  cases p <;> first | rfl | cases hp

theorem Tidy.of_free (h : Tidy base f out busy) (hlist : f.freelist = t :: rest) :
    ¬out t ∧ t ≠ f.daemon ∧ t ∈ f.objects := by
  refine h.of_flag fun hrunning => ?_
  rw [h.flag_of_free hlist] at hrunning
  cases hrunning

end Free

/-- A thread from the list of free ones. -/
theorem Tidy.takeFree {rest : List ι} (h : Tidy base f out busy) (hlist : f.freelist = t :: rest)
    (fresh : Option ι) : ∃ f', f.allocThread fresh = (f', some t) ∧ Allocated f f' t ∧ ¬out t ∧
      Tidy base f' (fun u => out u ∨ u = t) busy := by
  have hflag := h.flag_of_free hlist
  obtain ⟨hout, hd, ho⟩ := h.of_free hlist
  have hmark : (f.thread t).flag.free = true := congrArg Flags.free hflag
  refine ⟨{ f with
    freelist := rest
    useNum := f.useNum + 1
    thread := update f.thread t
      { f.thread t with flag := Place.running.flags (f.thread t).flag.sub } }, ?_, ?_, hout, ?_⟩
  · unfold Frame.allocThread
    simp [hlist, assert, setFlag, Frame.setThread, hmark, congrArg Flags.io hflag,
      congrArg Flags.sleep hflag, congrArg Flags.run hflag, congrArg Flags.pend hflag, Place.flags]
  · refine ⟨rfl, rfl, fun _ => id, ho, hd, fun u hu => update_of_ne hu _ _, ?_⟩
    simp only [update_self]
    exact h.parent_eq (.inr hmark)
  · refine h.leave hflag rfl rfl rfl ?_ (h.room.congr rfl rfl rfl rfl rfl) fun heq => by cases heq
    exact h.synced.move .free .running rfl hflag rfl rfl rfl rfl
      (by simp [hlist, turn, Place.flags]) rfl (.inl rfl) h.synced.waitnum rfl

section

variable (h : Tidy base f out idle)

include h

/-- A thread that `new` has made. -/
theorem Tidy.made (ht : t ∉ f.objects) (hmax : f.totalNum < f.maxNum)
    (useNum : Int) (defaultThreadNum : Nat) :
    Tidy base { f with
      thread := update f.thread t (.new .normal)
      objects := t :: f.objects
      totalNum := f.totalNum + 1
      useNum := useNum
      defaultThreadNum := defaultThreadNum } (fun u => out u ∨ u = t) idle := by
  have hflag := h.flag_of_out (.inr (.inr ht))
  have hparent := h.parent_eq (.inl ht)
  have hsubs := h.subList_eq (.inr (.inr ht)) id
  refine ⟨?_, h.shape.update .running rfl (by simp) fun u hu => by simp [hu], ?_, ?_⟩
  · exact h.synced.move .running .running rfl hflag rfl rfl rfl rfl rfl rfl (.inl rfl)
      h.synced.waitnum rfl
  · exact h.kin.move rfl (fun u _ => mem_cons_of_mem t) (h.sub_eq hparent).symm hparent.symm
      hsubs.symm nofun (fun hne => absurd rfl hne) fun _ _ => id
  · have hlength := h.room.length
    have hle := h.room.max_le
    exact {
      nodup := nodup_cons.2 ⟨ht, h.room.nodup⟩
      length := by simp only [length_cons]; omega
      total_le := by show f.totalNum + 1 ≤ f.sleeplist.max; omega
      max_le := hle
      daemon := mem_cons_of_mem t h.room.daemon }

theorem Tidy.allocThread (hout : ∀ u, out u → u ∈ f.objects) (fresh : Option ι) :
    f.allocThread fresh = (f, none) ∨ ∃ f' t, f.allocThread fresh = (f', some t) ∧
      Allocated f f' t ∧ ¬out t ∧ Tidy base f' (fun u => out u ∨ u = t) idle := by
  cases hlist : f.freelist with
  | cons t rest =>
    obtain ⟨f', heq, halloc, ht, h'⟩ := h.takeFree hlist fresh
    exact .inr ⟨f', t, heq, halloc, ht, h'⟩
  | nil =>
    unfold Frame.allocThread
    simp only [hlist]
    split
    · exact .inl rfl
    next hmax =>
      cases fresh with
      | none => exact .inl rfl
      | some t =>
        simp only
        split
        · exact .inl rfl
        next ht =>
          refine .inr ⟨_, t, rfl, ?_, mt (hout t) ht, h.made ht (by omega) _ _⟩
          exact {
            curr := rfl
            daemon := rfl
            objects := fun u => mem_cons_of_mem t
            mem := mem_cons_self
            ne := fun heq => ht (heq ▸ h.room.daemon)
            others := fun u hu => update_of_ne hu _ _
            parent := by simp [Frame.setThread, Thread.new] }

/-- A free thread is deleted. -/
theorem Tidy.trimPool : Tidy base f.trimPool out idle := by
  unfold Frame.trimPool
  split
  next t rest hlist =>
    split
    · have hflag := h.flag_of_free hlist
      obtain ⟨hout, hd, ho⟩ := h.of_free hlist
      have hparent := h.parent_eq (.inr (congrArg Flags.free hflag))
      have hsubs : (f.thread t).subList = [] := by
        by_contra hne
        have hwait := (h.kin.waits t hne).resolve_right id
        rw [hflag] at hwait
        cases hwait
      have hgone (u : ι) : u ∈ f.objects.erase t ↔ u ≠ t ∧ u ∈ f.objects :=
        h.room.nodup.mem_erase_iff
      refine ⟨?_, h.shape.update .running rfl ?_ ?_, ?_, ?_⟩
      · exact h.synced.move .free .running rfl hflag rfl rfl rfl rfl
          (by simp [hlist, turn, Place.flags]) rfl (.inl rfl) h.synced.waitnum rfl
      · simp [hgone]
      · intro u hu
        simp [hgone, hu]
      · exact h.kin.move rfl (fun u hu hmem => (hgone u).2 ⟨hu, hmem⟩) (h.sub_eq hparent).symm
          hparent.symm hsubs.symm (fun p hp => by cases hp) (fun hne => absurd rfl hne) fun _ _ => id
      · have hlength := h.room.length
        have hcard := length_erase_of_mem ho
        have hpos := length_pos_of_mem ho
        have htotal := h.room.total_le
        exact {
          nodup := h.room.nodup.erase t
          length := by show ((f.objects.erase t).length : Int) = f.totalNum - 1 + 1; omega
          total_le := by show f.totalNum - 1 ≤ f.sleeplist.max; omega
          max_le := h.room.max_le
          daemon := (hgone _).2 ⟨Ne.symm hd, h.room.daemon⟩ }
    · exact h
  · exact h

theorem Tidy.freeThread (ht : out t) (hd : t ≠ f.daemon)
    (ho : t ∈ f.objects) (hparent : (f.thread t).parent = none) :
    Tidy base (f.freeThread t) (fun u => out u ∧ u ≠ t) idle := by
  have hsub := h.sub_eq hparent
  have hflag := h.flag_of_out (.inl ht)
  have hsubs := h.subList_eq (.inl ht) id
  have heq : f.freeThread t = Frame.trimPool { f with
      sleeplist := setTime f.sleeplist t 0
      useNum := f.useNum - 1
      freelist := f.freelist ++ [t]
      thread := update f.thread t
        { Thread.new .normal with flag := Place.free.flags false } } := by
    simp [Frame.freeThread, reset, assert, setFlag, Frame.setWakeupTime, Frame.setThread, Thread.new,
      Flags.notInlist, congrArg Flags.free hflag, Place.flags]
  rw [heq]
  refine Tidy.trimPool ⟨?_, h.shape.update .free rfl (by simp [hd, ho]) fun u hu => by simp [hu],
    ?_, h.room.congr rfl rfl rfl rfl rfl⟩
  · exact (h.setWakeupTime t 0).synced.move .running .free rfl hflag rfl rfl rfl rfl rfl rfl (.inl rfl)
      h.synced.waitnum rfl
  · exact h.kin.move rfl (fun _ _ => id) hsub.symm hparent.symm hsubs.symm
      (fun p hp => by cases hp) (fun hne => absurd rfl hne) fun _ _ => id

end

theorem Settled.startThread (h : Settled base f) (fresh : Option ι) :
    Settled base (f.createThread true fresh).1 := by
  unfold Frame.createThread
  obtain heq | ⟨f', t, heq, halloc, hout, h'⟩ :=
    h.tidy.allocThread (fun u hu => hu ▸ h.curr) fresh
  · simp only [heq]
    exact h
  · simp only [heq, if_true]
    have hd : t ≠ f'.daemon := halloc.daemon ▸ halloc.ne
    refine ⟨(h'.insertRunable (.inr rfl) hd halloc.mem).congr fun u _ _ => ?_, ?_⟩
    · rw [(insertRunable_same f' t).1, halloc.curr]
      constructor
      · rintro rfl
        exact ⟨.inl rfl, fun heq => hout heq.symm⟩
      · rintro ⟨hu | hu, hne⟩
        · exact hu
        · exact absurd hu hne
    · simp only [insertRunable_same, halloc.curr]
      exact halloc.objects _ h.curr

end Frame

end FStack.MicroThread
