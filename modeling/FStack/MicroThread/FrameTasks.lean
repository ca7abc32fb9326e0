import FStack.MicroThread.FrameSteps

/-!
# Micro threads: sub threads

`mt_exec_all_task` makes a sub thread for each task, starts them and waits for them in the list of
pending threads; the last one that ends wakes it. A thread has sub threads only while it is in that
list, so the tasks may start tasks of their own.
-/

namespace FStack.MicroThread

open Function List FStack.Lib HeapList

variable {ι : Type}

namespace Frame

variable [DecidableEq ι] {base : Int} {f : Frame ι} {out busy : ι → Prop} {p sub : ι}

/-! ## Sub threads -/

/-- What changes if `sub` gets the parent `parent`, and `p` the sub threads `subList`. -/
structure Adopted (f f' : Frame ι) (p sub : ι) (subList : List ι) (parent : Option ι) : Prop where
  frame : f' = { f with thread := f'.thread }
  unsub : ∀ u, (f'.thread u).flag.unsub = (f.thread u).flag.unsub
  sub_eq : ∀ u, (f'.thread u).flag.sub = if u = sub then parent.isSome else (f.thread u).flag.sub
  parent_eq : ∀ u, (f'.thread u).parent = if u = sub then parent else (f.thread u).parent
  subList_eq : ∀ u, (f'.thread u).subList = if u = p then subList else (f.thread u).subList
  type_eq : ∀ u, (f'.thread u).type = (f.thread u).type

theorem adopted_update (hne : p ≠ sub) (subList : List ι) (parent : Option ι) :
    Adopted f { f with
      thread := update
        (update f.thread p { f.thread p with subList := subList }) sub
        { f.thread sub with
          flag := { (f.thread sub).flag with sub := parent.isSome }, parent := parent } }
      p sub subList parent := by
  refine ⟨rfl, ?_, ?_, ?_, ?_, ?_⟩ <;> intro u <;> by_cases hs : u = sub <;> by_cases hp : u = p <;>
    simp_all [Flags.unsub, update_of_ne]

theorem adopted_addSubThread (hsub : (f.thread sub).flag.sub = false) (hne : p ≠ sub) :
    Adopted f (f.addSubThread p sub) p sub ((f.thread p).subList ++ [sub]) (some p) := by
  have h := adopted_update (f := f) hne ((f.thread p).subList ++ [sub]) (some p)
  convert h using 1
  simp [addSubThread, assert, setFlag, Frame.setThread, hsub, update_of_ne (Ne.symm hne)]

theorem adopted_removeSubThread (hsub : (f.thread sub).flag.sub = true) (hne : p ≠ sub) :
    Adopted f (f.removeSubThread p sub) p sub ((f.thread p).subList.erase sub) none := by
  have h := adopted_update (f := f) hne ((f.thread p).subList.erase sub) none
  convert h using 1
  simp [removeSubThread, assert, setFlag, Frame.setThread, hsub, update_of_ne (Ne.symm hne)]

section Adopted

variable {f' : Frame ι} {subList : List ι} {parent : Option ι} {busy' : ι → Prop}

variable (hnew : Adopted f f' p sub subList parent)

include hnew

theorem Adopted.mark_eq (mark : Flags → Bool)
    (hmark : ∀ flag : Flags, mark flag.unsub = mark flag) (u : ι) :
    mark (f'.thread u).flag = mark (f.thread u).flag := by
  rw [← hmark, hnew.unsub, hmark]

theorem Adopted.same : f'.currThread = f.currThread ∧
    f'.daemon = f.daemon ∧ f'.objects = f.objects := by
  rw [hnew.frame]
  exact ⟨rfl, rfl, rfl⟩

theorem Adopted.tidy (h : Tidy base f out busy) (hkin : Kin f' busy') : Tidy base f' out busy' := by
  rw [hnew.frame] at hkin ⊢
  exact h.relabel hnew.unsub hkin

/-- Who is whose sub thread, after `sub` has got or lost its parent. -/
theorem Adopted.kin (h : Kin f busy)
    (hmem : ∀ q u, u ∈ (if q = p then subList else (f.thread q).subList) ↔
      (if u = sub then parent else (f.thread u).parent) = some q)
    (hnodup : subList.Nodup) (hwaits : subList ≠ [] → (f.thread p).flag.pend = true ∨ busy' p)
    (hbusy : ∀ u, busy u → busy' u)
    (hchild : ∀ q, parent = some q → (f.thread sub).type = .subThread ∧ sub ∈ f.objects ∧
      (f.thread sub).flag.free = false) : Kin f' busy' := by
  refine ⟨fun u => ?_, fun q u => ?_, fun q => ?_, fun q hq => ?_, fun u q hq => ?_⟩
  · rw [hnew.sub_eq, hnew.parent_eq]
    split
    · exact Option.isSome_iff_exists
    · exact h.sub_iff u
  · rw [hnew.subList_eq, hnew.parent_eq]
    exact hmem q u
  · rw [hnew.subList_eq]
    split
    · exact hnodup
    · exact h.nodup q
  · rw [hnew.mark_eq Flags.pend fun _ => rfl]
    rw [hnew.subList_eq] at hq
    split at hq
    next hqp => exact hqp ▸ hwaits hq
    · exact (h.waits q hq).imp_right (hbusy q)
  · rw [hnew.type_eq, hnew.same.2.2, hnew.mark_eq Flags.free fun _ => rfl]
    rw [hnew.parent_eq] at hq
    split at hq
    next hu => exact hu ▸ hchild q hq
    · exact h.child u q hq

end Adopted

/-- A thread without a parent becomes a sub thread; its parent is then busy. -/
theorem Tidy.addSubThread (h : Tidy base f out busy) (hne : p ≠ sub)
    (hparent : (f.thread sub).parent = none) (htype : (f.thread sub).type = .subThread)
    (ho : sub ∈ f.objects) (hfree : (f.thread sub).flag.free = false) :
    Tidy base (f.addSubThread p sub) out fun u => busy u ∨ u = p := by
  have hnew := adopted_addSubThread (h.sub_eq hparent) hne
  have hfresh (q : ι) : sub ∉ (f.thread q).subList := by
    rw [h.kin.mem_iff, hparent]
    simp
  refine hnew.tidy h (hnew.kin h.kin (fun q u => ?_) ?_ (fun _ => .inr (.inr rfl))
    (fun _ => .inl) fun _ _ => ⟨htype, ho, hfree⟩)
  · by_cases hu : u = sub
    · subst hu
      by_cases hq : q = p
      · simp [hq]
      · simp [hq, hfresh q, Ne.symm hq]
    · rw [if_neg hu]
      by_cases hq : q = p
      · simp [hq, hu, h.kin.mem_iff]
      · rw [if_neg hq]
        exact h.kin.mem_iff q u
  · refine nodup_append.2 ⟨h.kin.nodup p, nodup_singleton sub, ?_⟩
    rintro a ha b hb rfl
    exact hfresh p (mem_singleton.1 hb ▸ ha)

theorem Tidy.removeSubThread (h : Tidy base f out idle) (hne : p ≠ sub)
    (hparent : (f.thread sub).parent = some p) : Tidy base (f.removeSubThread p sub) out idle := by
  have hnew := adopted_removeSubThread ((h.kin.sub_iff sub).2 ⟨p, hparent⟩) hne
  have hmem (u : ι) : u ∈ (f.thread p).subList.erase sub ↔ u ≠ sub ∧ u ∈ (f.thread p).subList :=
    (h.kin.nodup p).mem_erase_iff
  refine hnew.tidy h (hnew.kin h.kin (fun q u => ?_) ((h.kin.nodup p).erase sub) (fun hne => ?_)
    (fun _ => id) nofun)
  · by_cases hq : q = p
    · subst hq
      rw [if_pos rfl, hmem, h.kin.mem_iff]
      by_cases hu : u = sub <;> simp [hu]
    · rw [if_neg hq, h.kin.mem_iff]
      by_cases hu : u = sub
      · simp [hu, hparent, Ne.symm hq]
      · rw [if_neg hu]
  · refine h.kin.waits p fun hnil => hne ?_
    rw [hnil]
    rfl

variable {u t : ι} {subs : List ι}

theorem insertRunable_thread (f : Frame ι) (hu : u ≠ t) :
    (f.insertRunable t).thread u = f.thread u := by
  simp [insertRunable, assert, setFlag, setState, Frame.setThread, update_of_ne hu]

theorem removePend_thread (f : Frame ι) (hu : u ≠ t) : (f.removePend t).thread u = f.thread u := by
  simp [removePend, assert, setFlag, Frame.setThread, update_of_ne hu]

/-- The parent of the thread that ends is woken if it has no other sub threads. -/
theorem Settled.wakeupParent (h : Settled base f) : Settled base (f.wakeupParent f.currThread) ∧
    ((f.wakeupParent f.currThread).currThread = f.currThread ∧
      (f.wakeupParent f.currThread).daemon = f.daemon) ∧
    ((f.wakeupParent f.currThread).thread f.currThread).parent = none := by
  unfold Frame.wakeupParent
  split
  next hparent => exact ⟨h, ⟨rfl, rfl⟩, hparent⟩
  next p hparent =>
    have hsubs : f.currThread ∈ (f.thread p).subList := (h.tidy.kin.mem_iff p _).2 hparent
    have hpend : (f.thread p).flag.pend = true :=
      (h.tidy.kin.waits p (ne_nil_of_mem hsubs)).resolve_right id
    have hne : p ≠ f.currThread := (h.tidy.of_flag (flag_ne_running (by simp [hpend]))).1
    have hnew := adopted_removeSubThread ((h.tidy.kin.sub_iff _).2 ⟨p, hparent⟩) hne
    obtain ⟨hcurr, hdaemon, hobjects⟩ := hnew.same
    have h' : Settled base (f.removeSubThread p f.currThread) := by
      refine ⟨(h.tidy.removeSubThread hne hparent).congr fun u _ _ => by rw [hcurr], ?_⟩
      rw [hcurr, hobjects]
      exact h.curr
    have hnone : ((f.removeSubThread p f.currThread).thread f.currThread).parent = none := by
      rw [hnew.parent_eq, if_pos rfl]
    simp only
    split
    next hempty =>
      have hpend' : ((f.removeSubThread p f.currThread).thread p).flag.pend = true := by
        rw [hnew.mark_eq Flags.pend fun _ => rfl]
        exact hpend
      refine ⟨h'.requeue (flag_ne_running (by simp [hpend'])) (h'.tidy.removePend hpend' ?_)
        (removePend_same _ p), ?_, ?_⟩
      · exact isEmpty_iff.1 hempty
      · simp only [scheduleUnpend, insertRunable_same, removePend_same]
        exact ⟨hcurr, hdaemon⟩
      · rw [scheduleUnpend, insertRunable_thread _ (Ne.symm hne), removePend_thread _ (Ne.symm hne)]
        exact hnone
    · exact ⟨h', ⟨hcurr, hdaemon⟩, hnone⟩

theorem Settled.run (h : Settled base f) (hd : f.currThread ≠ f.daemon) : Settled base f.run := by
  have hends {g : Frame ι} (hg : Settled base g) (hd : g.currThread ≠ g.daemon)
      (hparent : (g.thread g.currThread).parent = none) :
      Settled base (g.freeThread g.currThread).threadSchdule := by
    refine settled_threadSchdule ((hg.tidy.freeThread rfl hd hg.curr hparent).congr fun u _ _ => ?_)
    exact ⟨False.elim, fun hu => hu.2 hu.1⟩
  unfold Frame.run
  split
  · obtain ⟨h', ⟨hcurr, hdaemon⟩, hparent⟩ := h.wakeupParent
    exact hends h' (by rw [hcurr, hdaemon]; exact hd) (by rw [hcurr]; exact hparent)
  next htype =>
    refine hends h hd ?_
    cases hparent : (f.thread f.currThread).parent with
    | none => rfl
    | some p => exact absurd (h.tidy.kin.child _ p hparent).1 htype

/-! ## `mt_exec_all_task` -/

/-- `f'` is `f` with the sub threads `subs`, which have not been started. -/
structure SubsMade (base : Int) (f f' : Frame ι) (out : ι → Prop) (subs : List ι) : Prop where
  curr : f'.currThread = f.currThread
  daemon : f'.daemon = f.daemon
  objects : ∀ u ∈ f.objects, u ∈ f'.objects
  tidy : Tidy base f' (fun u => out u ∨ u ∈ subs) idle
  nodup : subs.Nodup
  kept : ∀ u, out u → f'.thread u = f.thread u
  new : ∀ u ∈ subs, ¬out u ∧ u ≠ f.daemon ∧ u ∈ f'.objects ∧
    (f'.thread u).parent = none ∧ (f'.thread u).type = .subThread

theorem subsMade_createSubs (h : Tidy base f out idle) (hout : ∀ u, out u → u ∈ f.objects)
    (fresh : List (Option ι)) :
    SubsMade base f (f.createSubs fresh).1 out (f.createSubs fresh).2.1 := by
  have hnone {f : Frame ι} {out : ι → Prop} (h : Tidy base f out idle) : SubsMade base f f out [] :=
    ⟨rfl, rfl, fun _ => id, h.congr fun u _ _ => by simp, nodup_nil, fun _ _ => rfl,
      fun u hu => absurd hu not_mem_nil⟩
  induction fresh generalizing f out with
  | nil => exact hnone h
  | cons fresh rest ih =>
    unfold createSubs createThread
    obtain heq | ⟨f₁, t, heq, halloc, ht, h₁⟩ := h.allocThread hout fresh
    · simp only [heq]
      exact hnone h
    simp only [heq, Bool.false_eq_true, if_false]
    have h₂ := h₁.setThread (t := t) { f₁.thread t with type := .subThread } rfl rfl rfl
      fun p hp => absurd (halloc.parent.symm.trans hp) (by simp)
    have hmade := ih h₂ (by
      rintro u (hu | rfl)
      · exact halloc.objects u (hout u hu)
      · exact halloc.mem)
    have hold {u : ι} (hu : u ≠ t) : (f₁.setThread t
        { f₁.thread t with type := .subThread }).thread u = f₁.thread u :=
      update_of_ne hu _ _
    refine ⟨hmade.curr.trans halloc.curr, hmade.daemon.trans halloc.daemon,
      fun u hu => hmade.objects u (halloc.objects u hu), hmade.tidy.congr fun u _ _ => ?_,
      nodup_cons.2 ⟨fun hmem => (hmade.new t hmem).1 (.inr rfl), hmade.nodup⟩,
      fun u hu => ?_, ?_⟩
    · rw [mem_cons, or_assoc]
    · have hne : u ≠ t := fun heq => ht (heq ▸ hu)
      rw [hmade.kept u (.inl hu), hold hne, halloc.others u hne]
    · rintro u (_ | ⟨_, hu⟩)
      · refine ⟨ht, halloc.ne, hmade.objects t halloc.mem, ?_⟩
        rw [hmade.kept t (.inr rfl)]
        simp [Frame.setThread, halloc.parent]
      · obtain ⟨hout', hd, hmem, hparent, htype⟩ := hmade.new u hu
        exact ⟨fun hu => hout' (.inl hu), fun heq => hd (heq.trans halloc.daemon.symm), hmem,
          hparent, htype⟩

omit [DecidableEq ι] in
/-- The first one of the threads that are out of every list is dealt with. -/
theorem out_cons_iff {curr : ι} {rest : List ι} (hne : sub ≠ curr) (hsub : sub ∉ rest) :
    u = curr ∨ u ∈ rest ↔ (u = curr ∨ u ∈ sub :: rest) ∧ u ≠ sub := by
  constructor
  · rintro (rfl | hu)
    · exact ⟨.inl rfl, Ne.symm hne⟩
    · exact ⟨.inr (mem_cons_of_mem sub hu), fun heq => hsub (heq ▸ hu)⟩
  · rintro ⟨hu | hu, hne⟩
    · exact .inl hu
    · exact .inr ((mem_cons.1 hu).resolve_left hne)

/-- The sub threads are started, and the active thread does not wait for them yet. -/
theorem tidy_startSubs (hnodup : subs.Nodup)
    (h : Tidy base f (fun u => u = f.currThread ∨ u ∈ subs) (· = f.currThread))
    (hsubs : ∀ u ∈ subs, u ≠ f.currThread ∧ u ≠ f.daemon ∧ u ∈ f.objects ∧
      (f.thread u).parent = none ∧ (f.thread u).type = .subThread)
    : ((subs.foldl startSub f).currThread = f.currThread ∧
      (subs.foldl startSub f).daemon = f.daemon ∧ (subs.foldl startSub f).objects = f.objects) ∧
      Tidy base (subs.foldl startSub f) (· = f.currThread) (· = f.currThread) := by
  induction subs generalizing f with
  | nil => exact ⟨⟨rfl, rfl, rfl⟩, h.congr fun u _ _ => by simp⟩
  | cons sub rest ih =>
    obtain ⟨hne, hd, ho, hparent, htype⟩ := hsubs sub mem_cons_self
    have hflag := h.flag_of_out (.inl (.inr mem_cons_self) : (_ ∨ _) ∨ sub = _ ∨ _)
    have hnew := adopted_addSubThread (h.sub_eq hparent) (Ne.symm hne)
    have hadd := h.addSubThread (Ne.symm hne) hparent htype ho (congrArg Flags.free hflag)
    obtain ⟨hcurr, hdaemon, hobjects⟩ := hnew.same
    have hrun := hadd.insertRunable (t := sub) (.inr mem_cons_self) (hdaemon ▸ hd)
      (hobjects ▸ ho)
    obtain ⟨hsub, hrest⟩ := nodup_cons.1 hnodup
    have hsame : (f.startSub sub).currThread = f.currThread ∧
        (f.startSub sub).daemon = f.daemon ∧ (f.startSub sub).objects = f.objects := by
      simp only [startSub, insertRunable_same]
      exact hnew.same
    have h' : Tidy base (f.startSub sub) (fun u => u = f.currThread ∨ u ∈ rest) (· = f.currThread) :=
      (hrun.congr fun _ _ _ => out_cons_iff hne hsub).busy_mono fun u hu => hu.elim id id
    have hstep := ih (f := f.startSub sub) hrest (by rw [hsame.1]; exact h') fun u hu => ?_
    · rw [foldl_cons, ← hsame.1]
      refine ⟨⟨hstep.1.1, ?_, ?_⟩, hstep.2⟩
      · rw [hstep.1.2.1, hsame.2.1]
      · rw [hstep.1.2.2, hsame.2.2]
    · have hus : u ≠ sub := fun heq => hsub (heq ▸ hu)
      obtain ⟨hne, hd, ho, hparent, htype⟩ := hsubs u (mem_cons_of_mem sub hu)
      rw [hsame.1, hsame.2.1, hsame.2.2, startSub, insertRunable_thread _ hus, hnew.parent_eq,
        if_neg hus, hnew.type_eq]
      exact ⟨hne, hd, ho, hparent, htype⟩

theorem trimPool_others (hu : u ∉ f.freelist) :
    (f.trimPool.currThread = f.currThread ∧ f.trimPool.daemon = f.daemon) ∧
      (u ∈ f.objects → u ∈ f.trimPool.objects) ∧ f.trimPool.thread u = f.thread u := by
  unfold trimPool
  split
  next w rest hlist =>
    have hw : u ≠ w := fun heq => hu (by simp [hlist, heq])
    split
    · exact ⟨⟨rfl, rfl⟩, (mem_erase_of_ne hw).2, update_of_ne hw _ _⟩
    · exact ⟨⟨rfl, rfl⟩, id, rfl⟩
  · exact ⟨⟨rfl, rfl⟩, id, rfl⟩

/-- `FreeThread` deletes no thread but a free one. -/
theorem freeThread_others (hne : u ≠ t) (hfree : u ∉ f.freelist) :
    ((f.freeThread t).currThread = f.currThread ∧ (f.freeThread t).daemon = f.daemon) ∧
      (u ∈ f.objects → u ∈ (f.freeThread t).objects) ∧
      (f.freeThread t).thread u = f.thread u := by
  obtain ⟨g, heq, hlist, hsame, hobjects, hthread⟩ : ∃ g : Frame ι, f.freeThread t = g.trimPool ∧
      g.freelist = f.freelist ++ [t] ∧ (g.currThread = f.currThread ∧ g.daemon = f.daemon) ∧
      g.objects = f.objects ∧ g.thread u = f.thread u := by
    refine ⟨_, rfl, rfl, ⟨rfl, rfl⟩, rfl, ?_⟩
    simp [setFlag, reset, setWakeupTime, Frame.setThread, assert, update_of_ne hne]
  obtain ⟨hsame', hobjects', hthread'⟩ :=
    trimPool_others (f := g) (u := u) (by rw [hlist]; simp [hne, hfree])
  rw [heq, hsame'.1, hsame'.2, hthread']
  exact ⟨hsame, hobjects ▸ hobjects', hthread⟩

/-- The sub threads that have been made are given back. -/
theorem Tidy.freeSubs (hnodup : subs.Nodup) (h : Tidy base f (fun u => u = f.currThread ∨ u ∈ subs) idle)
    (hcurr : f.currThread ∈ f.objects)
    (hsubs : ∀ u ∈ subs, u ≠ f.currThread ∧ u ≠ f.daemon ∧ u ∈ f.objects ∧ (f.thread u).parent = none)
    : Settled base (subs.foldl Frame.freeThread f) := by
  induction subs generalizing f with
  | nil => exact ⟨h.congr fun u _ _ => by simp, hcurr⟩
  | cons sub rest ih =>
    obtain ⟨hne, hd, ho, hparent⟩ := hsubs sub mem_cons_self
    obtain ⟨hsub, hrest⟩ := nodup_cons.1 hnodup
    have hout {u : ι} (hu : u = f.currThread ∨ u ∈ sub :: rest) : u ∉ f.freelist := fun hmem => by
      have hfree := (h.synced.free.mem_iff u).1 hmem
      rw [h.flag_of_out (.inl hu)] at hfree
      cases hfree
    obtain ⟨⟨hcurr', hdaemon⟩, hobjects, -⟩ :=
      freeThread_others (Ne.symm hne) (hout (.inl rfl))
    have h' := h.freeThread (t := sub) (.inr mem_cons_self) hd ho hparent
    refine ih hrest (h'.congr fun u _ _ => ?_) (hcurr' ▸ hobjects hcurr) fun u hu => ?_
    · rw [hcurr']
      exact out_cons_iff hne hsub
    · have hus : u ≠ sub := fun heq => hsub (heq ▸ hu)
      obtain ⟨hne, hd, ho, hparent⟩ := hsubs u (mem_cons_of_mem sub hu)
      obtain ⟨-, hobjects, hthread⟩ :=
        freeThread_others (t := sub) hus (hout (.inr (mem_cons_of_mem sub hu)))
      rw [hcurr', hdaemon, hthread]
      exact ⟨hne, hd, hobjects ho, hparent⟩

theorem Settled.execAllTask (h : Settled base f) (hd : f.currThread ≠ f.daemon)
    (fresh : List (Option ι)) : Settled base (f.execAllTask fresh) := by
  unfold Frame.execAllTask
  split
  · exact h
  have hmade := subsMade_createSubs h.tidy (fun u hu => hu ▸ h.curr) fresh
  have hcurr : f.currThread ∈ (f.createSubs fresh).1.objects := hmade.objects _ h.curr
  have htidy := hmade.tidy
  have hsubs : ∀ u ∈ (f.createSubs fresh).2.1, u ≠ (f.createSubs fresh).1.currThread ∧
      u ≠ (f.createSubs fresh).1.daemon ∧ u ∈ (f.createSubs fresh).1.objects ∧
      ((f.createSubs fresh).1.thread u).parent = none ∧
      ((f.createSubs fresh).1.thread u).type = .subThread := by
    intro u hu
    rw [hmade.curr, hmade.daemon]
    exact hmade.new u hu
  rw [← hmade.curr] at htidy hcurr
  simp only
  split
  · have htidy' : Tidy base (f.createSubs fresh).1 _ (· = (f.createSubs fresh).1.currThread) :=
      htidy.busy_mono fun _ => False.elim
    obtain ⟨⟨hsame, hdaemon, hobjects⟩, hstarted⟩ := tidy_startSubs hmade.nodup htidy' hsubs
    rw [← hsame] at hstarted
    have hpend := hstarted.insertPend rfl (by rw [hsame, hdaemon, hmade.curr, hmade.daemon]; exact hd)
      (by rw [hsame, hobjects]; exact hcurr)
    refine settled_threadSchdule ((hpend.congr fun u _ _ => ?_).busy_mono fun u hu => hu.2 hu.1)
    exact ⟨False.elim, fun hu => hu.2 hu.1⟩
  · exact htidy.freeSubs hmade.nodup hcurr fun u hu =>
      ⟨(hsubs u hu).1, (hsubs u hu).2.1, (hsubs u hu).2.2.1, (hsubs u hu).2.2.2.1⟩

end Frame

end FStack.MicroThread
