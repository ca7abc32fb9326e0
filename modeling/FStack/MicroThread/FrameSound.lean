import FStack.MicroThread.FrameTasks

/-!
# Micro threads: every thread is in its place

In every run of the scheduler, each thread is in exactly one of its places, the flags say in which
one, and no assertion of the lists fails. The number of threads that may run is that of the list
exactly if the memory of the scheduler held a zero when it was made (`lists_sound_iff`): `_waitnum`
is only ever counted up and down.
-/

namespace FStack.MicroThread

open List FStack.Lib HeapList

variable {ι : Type} {now : Nat}

namespace Frame

variable [DecidableEq ι] {base : Int} {f : Frame ι} {t : ι}

/-! ## Runs -/

theorem Settled.step (h : Settled base f) (act : Act ι) : Settled base (f.step act) := by
  unfold Frame.step
  split
  next henabled =>
    cases act with
    | startThread fresh => exact h.startThread fresh
    | sleep waketime => exact h.sleep (by simpa [enabled] using henabled) waketime
    | waitEvents waketime added =>
      exact h.kqueueSchedule (by simpa [enabled] using henabled) waketime added
    | threadWait waketime => exact h.waitNotify (by simpa [enabled] using henabled) waketime
    | threadWakeupWait thread => exact h.notifyThread thread
    | swapThread => exact h.swapDaemonThread
    | execAllTask fresh => exact h.execAllTask (by simpa [enabled] using henabled) fresh
    | exit =>
      have hwho : f.currThread ≠ f.daemon ∧ f.currThread ≠ f.primo := by
        simpa [enabled] using henabled
      exact h.run hwho.1
    | inputNotify owner | outputNotify owner => exact h.ownerNotify owner
    | wakeupTimeout now => exact h.wakeupRounds now _
    | switchContext =>
      refine settled_threadSchdule (h.tidy.congr fun u hu _ => ?_)
      have hdaemon : f.currThread = f.daemon := by simpa [enabled] using henabled
      rw [hdaemon]
      exact ⟨False.elim, hu⟩
  · exact h

theorem wakeup_sleeplist (f : Frame ι) (t : ι) :
    (f.wakeup t).sleeplist = (f.sleeplist.heapDelete t).1 := by
  simp only [wakeup, insertRunable, setFlag, setState, Frame.setThread, assert]
  split <;> rfl

theorem Settled.wakeupRounds_top (h : Settled base f) {fuel : Nat} (hfuel : f.sleeplist.count ≤ fuel)
    (ht : (f.wakeupRounds now fuel).sleeplist.heapTop = some t) :
    now < (f.wakeupRounds now fuel).sleeplist.value t := by
  induction fuel generalizing f with
  | zero =>
    obtain ⟨pos, hpos, hle, -⟩ := stored_of_heapTop ht
    have hcount : pos ≤ f.sleeplist.count := hle
    omega
  | succ fuel ih =>
    rw [Frame.wakeupRounds] at ht ⊢
    cases htop : f.sleeplist.heapTop with
    | none =>
      simp only [htop] at ht
      cases ht
    | some u =>
      simp only [htop] at ht ⊢
      split at ht
      next hdue =>
        rw [if_pos hdue]
        have hstored := stored_of_heapTop htop
        refine ih (h.wakeup ((h.tidy.synced.stored u).1 hstored)) ?_ ht
        rw [wakeup_sleeplist, (taken_heapDelete h.tidy.synced.indexed hstored).count_eq]
        omega
      next hdue =>
        rw [if_neg hdue]
        rw [htop, Option.some_inj] at ht
        rw [← ht]
        exact not_le.1 hdue

/-- The thread is at the place, and in no other list. -/
structure At (f : Frame ι) (t : ι) (place : Place) : Prop where
  running : f.currThread = t ↔ place = .running
  run : f.runlist.count t = if place = .queued then 1 else 0
  io : f.iolist.count t = if place = .waiting then 1 else 0
  sleep : f.sleeplist.Stored t ↔ place = .waiting ∨ place = .sleeping
  pend : f.pendList.count t = if place = .pending then 1 else 0
  free : f.freelist.count t = if place = .free then 1 else 0

/-- The lists of the scheduler are in order. -/
structure Sound (f : Frame ι) : Prop where
  place : ∀ t ∈ f.objects, t ≠ f.daemon → ∃! place, f.At t place ∧
    (f.thread t).flag = place.flags (f.thread t).flag.sub
  sub : ∀ t, (f.thread t).flag.sub = true ↔ ∃ p, t ∈ (f.thread p).subList
  holds : f.holds = true
  waitnum : f.waitnum = f.runlist.length

theorem count_of_marked {l : List ι} {mark : ι → Bool} (h : Marked l mark) (t : ι) :
    l.count t = if mark t = true then 1 else 0 := by
  rw [h.nodup.count]
  simp only [h.mem_iff]

theorem Settled.sound (h : Settled 0 f) : Sound f where
  place t ho hd := by
    obtain ⟨place, hflag, hrunning⟩ := h.tidy.shape t
    have hrunning : place = .running ↔ t = f.currThread := by
      rw [hrunning]
      simp [hd, ho]
    refine ⟨place, ⟨?_, hflag⟩, fun q hq => ?_⟩
    · refine ⟨eq_comm.trans hrunning.symm, ?_, ?_, ?_, ?_, ?_⟩
      · rw [count_of_marked h.tidy.synced.run, hflag]
        cases place <;> rfl
      · rw [count_of_marked h.tidy.synced.io, hflag]
        cases place <;> rfl
      · rw [h.tidy.synced.stored, hflag]
        cases place <;> simp [Place.flags]
      · rw [count_of_marked h.tidy.synced.pend, hflag]
        cases place <;> rfl
      · rw [count_of_marked h.tidy.synced.free, hflag]
        cases place <;> rfl
    · -- The flags of two places differ.
      have hflags := hq.2.symm.trans hflag
      cases q <;> cases place <;> first | rfl | simp [Place.flags] at hflags
  sub t := by
    rw [h.tidy.kin.sub_iff]
    simp only [h.tidy.kin.mem_iff]
  holds := h.tidy.synced.holds
  waitnum := h.tidy.synced.waitnum.trans (Int.zero_add _)

section

variable (pool : Pool ι)

variable (maxThreadNum : Nat)

variable (waitnum : Int)

theorem initFrame_thread (t : ι) :
    ((initFrame pool maxThreadNum waitnum).thread t).parent = none ∧
      ((initFrame pool maxThreadNum waitnum).thread t).subList = [] ∧
      ((initFrame pool maxThreadNum waitnum).thread t).flag =
        if t ∈ pool.rest then Place.free.flags false else Place.running.flags false := by
  have hnodup := pool.nodup
  simp only [nodup_cons, mem_cons, not_or] at hnodup
  by_cases hd : t = pool.daemon
  · simp [initFrame, hd, hnodup.2.1, Thread.new, Flags.notInlist, Place.flags]
  by_cases hp : t = pool.primo
  · simp [initFrame, hp, hnodup.1, Thread.new, Flags.notInlist, Place.flags]
  by_cases hr : t ∈ pool.rest <;>
    simp [initFrame, hd, hp, hr, Thread.new, Flags.notInlist, Place.flags]

theorem synced_initFrame : Synced waitnum (initFrame pool maxThreadNum waitnum) := by
  have hflag (t : ι) := (initFrame_thread pool maxThreadNum waitnum t).2.2
  have hempty (mark : Flags → Bool) (hmark : ∀ place : Place, mark (place.flags false) = true →
      place ≠ .free ∧ place ≠ .running) (t : ι) :
      ¬mark ((initFrame pool maxThreadNum waitnum).thread t).flag = true := by
    intro ht
    rw [hflag] at ht
    split at ht
    · exact (hmark _ ht).1 rfl
    · exact (hmark _ ht).2 rfl
  have hnone (mark : Flags → Bool) (hmark : ∀ place : Place, mark (place.flags false) = true →
      place ≠ .free ∧ place ≠ .running) :
      Marked [] fun t => mark ((initFrame pool maxThreadNum waitnum).thread t).flag :=
    ⟨nodup_nil, fun t => iff_of_false not_mem_nil (hempty mark hmark t)⟩
  have hnew := (sound_new 100000 fun _ : ι => 0).indexed
  refine ⟨hnone Flags.run ?_, hnone Flags.io ?_, hnone Flags.pend ?_, ⟨?_, fun t => ?_⟩, ?_,
    fun t => iff_of_false ?_ (hempty Flags.sleep ?_ t), (Int.add_zero _).symm, rfl⟩
  · rintro (_ | _) <;> decide
  · rintro (_ | _) <;> decide
  · rintro (_ | _) <;> decide
  · exact (nodup_cons.1 (nodup_cons.1 pool.nodup).2).2
  · rw [hflag]
    show t ∈ pool.rest ↔ _
    split <;> simp [*, Place.flags]
  · exact indexed_step hnew (.resize (maxThreadNum * 2))
  · have hzero : (initFrame pool maxThreadNum waitnum).sleeplist.count = 0 := by
      simp only [initFrame, heapResize]
      split <;> rfl
    rintro ⟨pos, hpos, hle, -⟩
    omega
  · rintro (_ | _) <;> decide

theorem room_initFrame : Room (initFrame pool maxThreadNum waitnum) := by
  have hmax : maxThreadNum * 2 ≤ (initFrame pool maxThreadNum waitnum).sleeplist.max ∧
      100000 ≤ (initFrame pool maxThreadNum waitnum).sleeplist.max := by
    by_cases hle : maxThreadNum * 2 ≤ 100000
    · simp [initFrame, heapResize, HeapList.new, hle]
    · simp [initFrame, heapResize, HeapList.new, hle]
      omega
  have hlength : pool.rest.length < 5000 := pool.length_lt
  refine ⟨pool.nodup, ?_, ?_, ?_, by simp [initFrame]⟩
  · show ((pool.primo :: pool.daemon :: pool.rest).length : Int) = pool.rest.length + 1 + 1
    simp
  · show (pool.rest.length + 1 : Int) ≤ _
    omega
  · show (maxThreadNum : Int) ≤ _
    omega

theorem settled_initFrame : Settled waitnum (initFrame pool maxThreadNum waitnum) := by
  have hthread := initFrame_thread pool maxThreadNum waitnum
  have hnodup := pool.nodup
  simp only [nodup_cons, mem_cons, not_or] at hnodup
  refine ⟨⟨synced_initFrame pool maxThreadNum waitnum, fun t => ?_, ⟨fun t => ?_, fun p t => ?_, fun p => ?_,
    fun p hp => ?_, fun t p hp => ?_⟩, room_initFrame pool maxThreadNum waitnum⟩, mem_cons_self⟩
  · rw [(hthread t).2.2]
    show ∃ place, _ ∧ (_ ↔ t = pool.primo ∨ t = pool.daemon ∨
      t ∉ pool.primo :: pool.daemon :: pool.rest)
    split
    next hr =>
      refine ⟨.free, rfl, iff_of_false (by decide) ?_⟩
      rintro (rfl | rfl | hnot)
      · exact hnodup.1.2 hr
      · exact hnodup.2.1 hr
      · exact hnot (mem_cons_of_mem _ (mem_cons_of_mem _ hr))
    next hr =>
      refine ⟨.running, rfl, iff_of_true rfl ?_⟩
      simp only [mem_cons, not_or]
      by_cases hp : t = pool.primo
      · exact .inl hp
      by_cases hd : t = pool.daemon
      · exact .inr (.inl hd)
      · exact .inr (.inr ⟨hp, hd, hr⟩)
  · rw [(hthread t).1, (hthread t).2.2]
    split <;> simp [Place.flags]
  · rw [(hthread p).2.1, (hthread t).1]
    simp
  · rw [(hthread p).2.1]
    exact nodup_nil
  · exact absurd (hthread p).2.1 hp
  · exact absurd ((hthread t).1.symm.trans hp) (by simp)

theorem settled_run (acts : List (Act ι)) :
    Settled waitnum (acts.foldl step (initFrame pool maxThreadNum waitnum)) :=
  List.foldlRecOn acts _ (settled_initFrame pool maxThreadNum waitnum) fun _ h act _ => h.step act

/-- **The lists of the scheduler are in order in every state of every run exactly if the memory of
`_waitnum` held a zero.** -/
theorem lists_sound_iff (acts : List (Act ι)) :
    (∀ pre, pre <+: acts → Sound (pre.foldl step (initFrame pool maxThreadNum waitnum))) ↔
      waitnum = 0 := by
  refine ⟨fun h => (h [] nil_prefix).waitnum, ?_⟩
  rintro rfl pre -
  exact (settled_run pool maxThreadNum 0 pre).sound

/-- **`WakeupTimeout` has rounds enough**: in no run, whatever `_waitnum` was at its start, is a
sleeper whose time has come still the first one after it. -/
theorem wakeupTimeout_top (acts : List (Act ι)) (now : Nat) :
    let heap := ((acts.foldl step (initFrame pool maxThreadNum waitnum)).wakeupTimeout now).sleeplist
    heap.heapTop.all fun t => now < heap.value t := by
  rw [Option.all_eq_true]
  exact fun t ht => decide_eq_true
    ((settled_run pool maxThreadNum waitnum acts).wakeupRounds_top le_rfl ht)

end

/-- The memory held a seven. -/
theorem waitnum_not_sound :
    ¬∀ (pool : Pool Nat) (maxThreadNum : Nat) (waitnum : Int) (acts : List (Act Nat)),
      Sound (acts.foldl step (initFrame pool maxThreadNum waitnum)) := by
  intro h
  have hwaitnum := (h ⟨0, 1, [2], by decide, by decide⟩ 100 7 []).waitnum
  revert hwaitnum
  decide

end Frame

end FStack.MicroThread
