import FStack.MicroThread.LinkOffer

/-!
# Micro threads: what a link is registered for

A link with data to send has to be told when there is room, so `EVFILT_WRITE` should be registered
while `_wait_send` is not empty. `CreateSock` registers both filters, and both `SendData` and
`OutputNotify` delete `EVFILT_WRITE` when there is nothing to send. But when there is, `SendData`
adds `EVFILT_READ`, which is registered already, so `EVFILT_WRITE` never comes back. `Armed` says,
from the state before a step and the room that `writev` finds, that this does no harm.

* `Sole`: the proxy has an entry for one descriptor only, and the filters are those of its mask.
* `Watching`: the mask of the link's descriptor is one of the two it can be, and covered by the
  events of the link, so that nothing is left when the link is closed.
-/

namespace FStack.MicroThread

open Function List FStack.Lib

/-! ## A proxy with one descriptor -/

namespace KqueueProxy

variable {p : KqueueProxy Unit} {fd : Int} {mask events : BitVec 32} {obj : Option Unit}
  {item : KqFdRef Unit}

/-- Nothing is recorded or registered for the descriptor. -/
def Blank (p : KqueueProxy Unit) (fd : Int) : Prop :=
  (p.kqrefs fd).events = 0 ∧ (p.kqrefs fd).kqobj = none ∧ p.filters fd = has 0

/-- The entry of `fd`, and no other one. -/
structure Sole (p : KqueueProxy Unit) (fd : Int) (mask : BitVec 32) (obj : Option Unit) : Prop where
  get : p.kqFdRefGet fd = some (p.kqrefs fd)
  events : (p.kqrefs fd).events = mask
  obj : (p.kqrefs fd).kqobj = obj
  filters : p.filters fd = has mask
  others : ∀ fd', fd' ≠ fd → p.Blank fd'

theorem sole_of_blank (hB : ∀ fd, p.Blank fd) (hget : p.kqFdRefGet fd = some item) :
    Sole p fd 0 none :=
  ⟨by rw [hget, kqrefs_of_get hget], (hB fd).1, (hB fd).2.1, (hB fd).2.2, fun fd' _ => hB fd'⟩

theorem Sole.blank (hS : Sole p fd 0 none) (fd' : Int) : p.Blank fd' := by
  by_cases heq : fd' = fd
  · rw [heq]
    exact ⟨hS.events, hS.obj, hS.filters⟩
  · exact hS.others fd' heq

/-- The entry is changed. -/
theorem Sole.set (hS : Sole p fd mask obj) (item : KqFdRef Unit) {filters : Filter → Bool}
    (hfilters : filters = has item.events) :
    Sole ((p.setFilters fd filters).setRef fd item) fd item.events item.kqobj := by
  refine ⟨?_, congrArg KqFdRef.events (update_self ..),
    congrArg KqFdRef.kqobj (update_self ..), (update_self ..).trans hfilters,
    fun fd' hne => ?_⟩
  · have hget := hS.get
    unfold kqFdRefGet at hget ⊢
    change (if fd ≥ p.maxfd ∨ fd < 0 then none else _) = _
    split
    next hout => simp [hout] at hget
    · rfl
  · obtain ⟨hevents, hobj, hfilters'⟩ := hS.others fd' hne
    unfold Blank setFilters setRef
    simp only [update_of_ne hne]
    exact ⟨hevents, hobj, hfilters'⟩

theorem Sole.setRef (hS : Sole p fd mask obj) (hevents : item.events = mask) :
    Sole (p.setRef fd item) fd mask item.kqobj := by
  have hset := hS.set item (hevents ▸ hS.filters)
  rw [hevents] at hset
  have hsame : p.setFilters fd (p.filters fd) = p := by simp [setFilters]
  rwa [hsame] at hset

theorem submit_noFailure (old target : Filter → Bool) :
    submit Link.noFailure (changes old target) old = (target, true) := by
  have hreplaced := replaced_submit old target Link.noFailure
  have hok : (submit Link.noFailure (changes old target) old).2 = true := by
    rw [hreplaced.result]
    simp [Link.noFailure]
  exact Prod.ext (hreplaced.made hok) hok

/-- Events are added to none. -/
theorem Sole.ctrlAdd (hS : Sole p fd 0 obj) (hne : events ≠ 0) :
    Sole (p.kqueueCtrlAdd fd events Link.noFailure).1 fd events obj ∧
      (p.kqueueCtrlAdd fd events Link.noFailure).2 = true := by
  have hsubmit := submit_noFailure (has 0) (has events)
  have hevents : ((p.kqrefs fd).attachEvents events).events = 0 := hS.events
  have hor : (0 : BitVec 32) ||| events = events := BitVec.zero_or
  have hset := hS.set { (p.kqrefs fd).attachEvents events with events := events } rfl
  unfold kqueueCtrlAdd
  simp only [hS.get, hevents, hor, Ne.symm hne, if_false, hS.filters, hsubmit, if_true]
  exact ⟨hS.obj ▸ hset, trivial⟩

/-- Events are added that are there already. -/
theorem Sole.ctrlAdd_same (hS : Sole p fd mask obj) (hsame : mask ||| events = mask) :
    Sole (p.kqueueCtrlAdd fd events Link.noFailure).1 fd mask obj := by
  have hevents : ((p.kqrefs fd).attachEvents events).events = mask := hS.events
  unfold kqueueCtrlAdd
  simp only [hS.get, hevents, hsame, if_true]
  exact hS.obj ▸ hS.setRef hevents

theorem Sole.ctrlDelRef (hS : Sole p fd mask obj) (events : BitVec 32) :
    Sole (p.kqueueCtrlDelRef fd events false Link.noFailure).1 fd (mask &&& ~~~events) obj ∧
      (p.kqueueCtrlDelRef fd events false Link.noFailure).2 = true := by
  have hsubmit := submit_noFailure (has mask) (has (mask &&& ~~~events))
  have hevents : ((p.kqrefs fd).detachEvents events).events = mask := hS.events
  have hleft : ((p.kqrefs fd).detachEvents events).left events false = mask &&& ~~~events := by
    rw [← hevents]
    rfl
  unfold kqueueCtrlDelRef
  simp only [hS.get, hevents, hleft, hS.filters, hsubmit, if_true]
  split
  next hsame =>
    rw [← hsame]
    exact ⟨hS.obj ▸ hS.setRef hevents, rfl⟩
  · have hset := hS.set
      { (p.kqrefs fd).detachEvents events with events := mask &&& ~~~events } rfl
    exact ⟨hS.obj ▸ hset, rfl⟩

theorem Sole.addObj (hS : Sole p fd 0 none) (hne : events ≠ 0) :
    Sole (p.kqueueAddObj () fd events Link.noFailure).1 fd events (some ()) ∧
      (p.kqueueAddObj () fd events Link.noFailure).2 = true := by
  have hnotify : Sole (p.setNotifyObj fd (some ())) fd 0 (some ()) := hS.setRef hS.events
  obtain ⟨hsole, hret⟩ := hnotify.ctrlAdd hne
  unfold kqueueAddObj
  simp only [hS.get, hS.obj, ne_eq, not_true_eq_false, false_and, if_false, hret, if_true]
  exact ⟨hsole, trivial⟩

theorem addObj_none (hget : p.kqFdRefGet fd = none) :
    p.kqueueAddObj () fd events Link.noFailure = (p, false) := by
  unfold kqueueAddObj
  simp only [hget]

theorem Sole.delObj (hS : Sole p fd mask (some ())) (hcover : mask &&& ~~~events = 0) (fd' : Int) :
    (p.kqueueDelObj () fd events Link.noFailure).1.Blank fd' := by
  have hnotify : Sole (p.setNotifyObj fd none) fd mask none := hS.setRef hS.events
  obtain ⟨hsole, hret⟩ := hnotify.ctrlDelRef events
  rw [hcover] at hsole
  unfold kqueueDelObj
  simp only [hS.get, hS.obj, ne_eq, not_true_eq_false, if_false, hret, if_true]
  exact hsole.blank fd'

end KqueueProxy

namespace Link

open KqueueProxy

variable {ι : Type} {s s' : Link ι} {h h' : ι} {out : Option ι}

/-- `EVFILT_WRITE` is registered while something waits to be sent, and `EVFILT_READ` while a
connected link waits for a response. -/
def Watched (s : Link ι) : Prop :=
  (s.lists .send ≠ [] → s.proxy.filters s.fd .write = true) ∧
    (s.connected = true → s.lists .recv ≠ [] → s.proxy.filters s.fd .read = true)

/-! ## What is registered -/

/-- The mask of the descriptor and the events of the link. -/
inductive Masks : BitVec 32 → BitVec 32 → Prop where
  | both : Masks 3 3
  | read : Masks 1 1
  | pending : Masks 1 3

/-- The link has no descriptor and no handlers, apart from `out`; or it is registered. -/
def Registered (s : Link ι) (out : Option ι) : Prop :=
  (s.fd = -1 ∧ (∀ h, out ≠ some h → (s.handlers h).list = none) ∧ (∀ fd, s.proxy.Blank fd) ∧
    (s.events = 0 ∨ s.events = 3)) ∨
  (0 < s.fd ∧ ∃ mask, Sole s.proxy s.fd mask (some ()) ∧ Masks mask s.events)

/-- The handler `out` is in the middle of a step. -/
structure Watching (s : Link ι) (out : Option ι) : Prop where
  listed : Listed s
  sending : ∀ h ∈ s.lists .send, (s.handlers h).phase = some .send
  connecting : ∀ h, out ≠ some h → (s.handlers h).phase = some .connect →
    (s.handlers h).reqData ≠ [] ∧ (s.handlers h).reqData.length < 2 ^ 32
  registered : Registered s out

theorem Watching.not_mem_send (hW : Watching s out) (hphase : (s.handlers h).phase ≠ some .send) :
    h ∉ s.lists .send :=
  fun hmem => hphase (hW.sending h hmem)

theorem Watching.fd_pos (hW : Watching s none) (hlinked : (s.handlers h).list ≠ none) :
    0 < s.fd := by
  obtain ⟨-, hnone, -⟩ | ⟨hpos, -⟩ := hW.registered
  · exact absurd (hnone h (by simp)) hlinked
  · exact hpos

theorem Masks.has_read {mask events : BitVec 32} (hM : Masks mask events) :
    has mask .read = true := by
  cases hM <;> decide

/-- The read filter is registered whenever there is a descriptor. -/
theorem Watching.read (hW : Watching s none) (hrecv : s.lists .recv ≠ []) :
    s.proxy.filters s.fd .read = true := by
  obtain ⟨h, hmem⟩ := exists_mem_of_ne_nil _ hrecv
  obtain ⟨-, hnone, -⟩ | ⟨-, mask, hsole, hmasks⟩ := hW.registered
  · have hlist := hW.listed.mem_iff.1 hmem
    rw [hnone h (by simp)] at hlist
    cases hlist
  · rw [hsole.filters]
    exact hmasks.has_read

theorem Watching.watched_iff (hW : Watching s none) :
    Watched s ↔ (s.lists .send ≠ [] → s.proxy.filters s.fd .write = true) :=
  and_iff_left fun _ => hW.read

/-- Handlers have been moved, and none to a link without a descriptor. -/
theorem Watching.shifted (hW : Watching s out) (hS : Shifted s s')
    (hunlinked : s.fd = -1 → ∀ h, out ≠ some h → (s'.handlers h).list = none) :
    Watching s' out := by
  obtain ⟨-, -, -, -, hfd, hevents, hproxy, -⟩ := hS.same
  refine ⟨hS.listed, fun h hmem => ?_, fun h hout hphase => ?_, ?_⟩
  · obtain heq | ⟨-, hnot, -⟩ := hS.phase h
    · rw [heq]
      exact hW.sending h (hS.send.subset hmem)
    · exact absurd hmem hnot
  · have hphase' := hS.connect hphase
    rw [hS.data h (hW.not_mem_send (by simp [hphase']))]
    exact hW.connecting h hout hphase'
  · unfold Registered
    rw [hfd, hevents, hproxy]
    exact hW.registered.imp_left fun ⟨hneg, _, hrest⟩ => ⟨hneg, hunlinked hneg, hrest⟩

theorem Watching.settle (hW : Watching s (some h)) (hdata : (s.handlers h).phase = some .connect →
      (s.handlers h).reqData ≠ [] ∧ (s.handlers h).reqData.length < 2 ^ 32)
    (hlist : s.fd = -1 → (s.handlers h).list = none) : Watching s none := by
  have hout (h' : ι) (hne : h' ≠ h) : some h ≠ some h' := fun heq => hne (Option.some.inj heq).symm
  refine ⟨hW.listed, hW.sending, fun h' _ hphase => ?_,
    hW.registered.imp_left fun ⟨hneg, hnone, hrest⟩ => ⟨hneg, fun h' _ => ?_, hrest⟩⟩
  · by_cases heq : h' = h
    · exact heq ▸ hdata (heq ▸ hphase)
    · exact hW.connecting h' (hout h' heq) hphase
  · by_cases heq : h' = h
    · exact heq ▸ hlist hneg
    · exact hnone h' (hout h' heq)

/-- Only what is registered has changed. -/
theorem Watching.registered_of (hW : Watching s out) (hlists : s'.lists = s.lists)
    (hhandlers : s'.handlers = s.handlers) (hR : Registered s' out) : Watching s' out := by
  refine ⟨fun l => ?_, ?_, ?_, hR⟩
  · rw [hlists, hhandlers]
    exact hW.listed l
  · rw [hlists, hhandlers]
    exact hW.sending
  · rw [hhandlers]
    exact hW.connecting

theorem Watching.weaken (hW : Watching s none) (h : ι) : Watching s (some h) :=
  ⟨hW.listed, hW.sending, fun h' _ => hW.connecting h' (by simp),
    hW.registered.imp_left fun ⟨hneg, hnone, hrest⟩ => ⟨hneg, fun h' _ => hnone h' (by simp), hrest⟩⟩

/-- Without a descriptor, a handler that had no link has none. -/
theorem Watching.unlinked (hW : Watching s out) (hneg : s.fd = -1) (h : ι) (hout : out ≠ some h) :
    (s.handlers h).list = none := by
  obtain ⟨-, hnone, -⟩ | ⟨hpos, -⟩ := hW.registered
  · exact hnone h hout
  · omega

/-- Nothing was added to `_wait_send`, and a link with a descriptor is registered as before. -/
structure Kept (s s' : Link ι) : Prop where
  send : (s'.lists .send).Sublist (s.lists .send)
  same : 0 < s.fd → s'.fd = s.fd ∧ s'.proxy = s.proxy

theorem Kept.trans {s'' : Link ι} (h₁ : Kept s s') (h₂ : Kept s' s'') : Kept s s'' where
  send := h₂.send.trans h₁.send
  same hpos := by
    obtain ⟨hfd, hproxy⟩ := h₁.same hpos
    obtain ⟨hfd', hproxy'⟩ := h₂.same (hfd ▸ hpos)
    exact ⟨hfd'.trans hfd, hproxy'.trans hproxy⟩

theorem Shifted.kept (hS : Shifted s s') : Kept s s' := by
  obtain ⟨-, -, -, -, hfd, -, hproxy, -⟩ := hS.same
  exact ⟨hS.send, fun _ => ⟨hfd, hproxy⟩⟩

/-- `EVFILT_WRITE` is registered while something waits to be sent. -/
def WriteWatched (s : Link ι) : Prop := s.lists .send ≠ [] → s.proxy.filters s.fd .write = true

theorem Kept.writeWatched (hK : Kept s s') (hW : Watching s none) (hwrite : WriteWatched s) :
    WriteWatched s' := fun hsend => by
  obtain ⟨h, hmem⟩ := exists_mem_of_ne_nil _ hsend
  have hmem' := hK.send.subset hmem
  have hlist := hW.listed.mem_iff.1 hmem'
  obtain ⟨hfd, hproxy⟩ := hK.same (hW.fd_pos (h := h) (by simp [hlist]))
  rw [hfd, hproxy]
  exact hwrite (ne_nil_of_mem hmem')

/-- A link without a descriptor gets no notification. -/
theorem Watching.notified {t : Link ι} (hW : Watching s none)
    (ht : ¬s.fd < 0 → Watching t none ∧ (WriteWatched s → WriteWatched t)) :
    Watching (if s.fd < 0 then s else t) none ∧
      (WriteWatched s → WriteWatched (if s.fd < 0 then s else t)) := by
  split
  · exact ⟨hW, id⟩
  next hfd => exact ht hfd

theorem Watching.createSock (hW : Watching s (some h)) (sock : Option { fd : Int // 0 < fd }) :
    Watching (s.createSock sock).1 (some h) ∧ Kept s (s.createSock sock).1 ∧
      (s.createSock sock).1.handlers = s.handlers ∧
      ((s.createSock sock).2 = true → 0 < (s.createSock sock).1.fd ∧ (¬0 < s.fd →
        (s.createSock sock).1.proxy.filters (s.createSock sock).1.fd .write = true)) := by
  unfold Link.createSock
  split
  next hpos =>
    exact ⟨hW, ⟨Sublist.refl _, fun _ => ⟨rfl, rfl⟩⟩, rfl, fun _ => ⟨hpos, absurd hpos⟩⟩
  next hneg =>
  have hkept (t : Link ι) (hlists : t.lists = s.lists) : Kept s t :=
    ⟨by rw [hlists], fun hpos => absurd hpos hneg⟩
  obtain ⟨hfd, hnone, hblank, hevents⟩ | ⟨hpos, -⟩ := hW.registered
  · have hevents' : s.events ||| Filter.write.event ||| Filter.read.event = 3 := by
      obtain hevents | hevents := hevents <;> (rw [hevents]; decide)
    cases sock with
    | none =>
      exact ⟨hW.registered_of rfl rfl (.inl ⟨rfl, hnone, hblank, hevents⟩), hkept _ rfl, rfl,
        fun hf => absurd hf (by simp)⟩
    | some sock =>
      obtain ⟨fd, hpos⟩ := sock
      dsimp only
      rw [hevents']
      cases hget : s.proxy.kqFdRefGet fd with
      | none =>
        rw [addObj_none hget]
        exact ⟨hW.registered_of rfl rfl (.inl ⟨rfl, hnone, hblank, .inr rfl⟩), hkept _ rfl, rfl,
          fun hf => absurd hf (by simp)⟩
      | some item =>
        obtain ⟨hsole, hret⟩ := (sole_of_blank hblank hget).addObj
          (show (3 : BitVec 32) ≠ 0 by decide)
        rw [hret]
        refine ⟨hW.registered_of rfl rfl (.inr ⟨hpos, 3, hsole, Masks.both⟩), hkept _ rfl, rfl,
          fun _ => ⟨hpos, fun _ => ?_⟩⟩
        rw [if_pos rfl, hsole.filters]
        decide
  · exact absurd hpos hneg

variable [DecidableEq ι]

/-! ## Steps of a call -/

theorem Watching.exit (hW : Watching s (some h)) : Watching (s.exit h) none := by
  refine (hW.shifted (moved_exit hW.listed h).toShifted fun hneg h' hout => ?_).settle
    (fun hphase => ?_) fun _ => ?_
  · have hne : h' ≠ h := fun heq => hout (congrArg some heq.symm)
    rw [handlers_exit, if_neg hne]
    exact hW.unlinked hneg h' hout
  · rw [handlers_exit, if_pos rfl] at hphase
    cases hphase
  · rw [handlers_exit, if_pos rfl]

theorem Watching.switchTo (hW : Watching s out) {l : LinkList} (hl : l ≠ .send) (h : ι) :
    Watching (s.switchTo l h) out :=
  hW.shifted (moved_switchTo hW.listed hl h).toShifted fun hneg h' hout =>
    unlinked_switchTo l h (hW.unlinked hneg h' hout)

theorem Watching.switchToIdle_all (hW : Watching s out) (items : List ι) :
    Watching (items.foldl switchToIdle s) out := by
  induction items generalizing s with
  | nil => exact hW
  | cons h items ih => exact ih (hW.switchTo (by decide) h)

theorem Watching.waitRecv (hW : Watching s (some h)) (hcall : (s.handlers h).phase ≠ none)
    (hpos : (s.handlers h).list ≠ none → 0 < s.fd) : Watching (s.waitRecv h) none := by
  by_cases hlinked : (s.handlers h).list = none
  · have heq : s.waitRecv h = s.exit h := if_pos hlinked
    rw [heq]
    exact hW.exit
  · have hpos := hpos hlinked
    have hfd : (s.waitRecv h).fd = s.fd := (waitRecv_same s h).2.2.2.2.1
    exact (hW.shifted (moved_waitRecv hW.listed hcall).toShifted fun hneg => by omega).settle
      (fun hphase => absurd hphase (phase_waitRecv s h)) fun hneg => by omega

theorem Watching.join (hW : Watching s (some h)) (hphase : (s.handlers h).phase = some .connect)
    (hlinked : (s.handlers h).list ≠ none) (hpos : 0 < s.fd) :
    Watching ((s.switchToSend h).setPhase h (some .send)) none := by
  have hsend := lists_join hW.listed hlinked (hW.not_mem_send (by simp [hphase]))
  have hhandlers := handlers_join hlinked
  obtain ⟨-, -, -, -, hfd, hevents, hproxy, -⟩ := switchTo_same s .send h
  refine ⟨listed_setHandler (listed_switchTo hW.listed _ _) rfl, fun h' hmem => ?_,
    fun h' _ hphase' => ?_, ?_⟩
  · rw [hhandlers]
    split
    · rfl
    next hne =>
      rw [hsend] at hmem
      exact hW.sending h' ((mem_append.1 hmem).resolve_right fun hmem =>
        hne (mem_singleton.1 hmem))
  · rw [hhandlers] at hphase' ⊢
    split at hphase'
    · cases hphase'
    next hne =>
      rw [if_neg hne]
      exact hW.connecting h' (fun hout => hne (Option.some.inj hout).symm) hphase'
  · obtain ⟨hneg, -⟩ | hopen := hW.registered
    · omega
    · change _ ∨ (0 < (s.switchTo .send h).fd ∧ ∃ mask, Sole (s.switchTo .send h).proxy
        (s.switchTo .send h).fd mask (some ()) ∧ Masks mask (s.switchTo .send h).events)
      rw [hfd, hevents, hproxy]
      exact .inr hopen

/-- A handler begins a step, in which it stays in its list. -/
theorem Watching.setHandler (hW : Watching s none) {x : NetHandler}
    (hlist : x.list = (s.handlers h).list) (hphase : h ∈ s.lists .send → x.phase = some .send) :
    Watching (s.setHandler h x) (some h) := by
  have hother (h' : ι) (hout : some h ≠ some h') : (s.setHandler h x).handlers h' = s.handlers h' :=
    update_of_ne (fun heq => hout (congrArg some heq.symm)) ..
  refine ⟨listed_setHandler hW.listed hlist, fun h' hmem => ?_, fun h' hout hphase' => ?_,
    hW.registered.imp_left fun ⟨hneg, hnone, hrest⟩ => ⟨hneg, fun h' hout => ?_, hrest⟩⟩
  · by_cases heq : h' = h
    · subst heq
      exact (congrArg NetHandler.phase (update_self ..)).trans (hphase hmem)
    · rw [hother h' (by simpa [eq_comm] using heq)]
      exact hW.sending h' hmem
  · rw [hother h' hout] at hphase' ⊢
    exact hW.connecting h' (by simp) hphase'
  · rw [hother h' hout]
    exact hnone h' (by simp)

theorem Watching.skipSendPos (hW : Watching s none) (n : Nat) :
    Watching (s.skipSendPos h n).1 (some h) :=
  hW.setHandler rfl (hW.sending h)

/-! ## Sending -/

theorem Watching.sendCacheTcp (hW : Watching s none) (data : Option (Nat × List UInt8))
    (room : Room) : Watching (s.sendCacheTcp data room).1 none ∧
      (s.sendCacheTcp data room).1.fd = s.fd ∧ (s.sendCacheTcp data room).1.events = s.events ∧
      (s.sendCacheTcp data room).1.proxy = s.proxy := by
  obtain ⟨bytes, hshift, -⟩ := shifted_sendCacheTcp hW.listed data room
  obtain ⟨-, -, -, -, hfd, hevents, hproxy, -⟩ := hshift.same
  have hW' : Watching { s with wire := s.wire ++ bytes } none :=
    hW.registered_of rfl rfl hW.registered
  refine ⟨hW'.shifted hshift fun hneg h hout => ?_, hfd, hevents, hproxy⟩
  have hnone := hW.unlinked hneg h hout
  have hnot : h ∉ s.lists .send := fun hmem => by
    have hlist := hW.listed.mem_iff.1 hmem
    rw [hnone] at hlist
    cases hlist
  rw [handlers_sendCacheTcp hnot]
  exact hnone

section Masks

variable {mask events : BitVec 32}

variable (hM : Masks mask events)

include hM

/-- `EVFILT_READ` is there already. -/
theorem Masks.add_read :
    mask ||| Filter.read.event = mask ∧ Masks mask (events ||| Filter.write.event) := by
  cases hM with
  | both => exact ⟨by decide, Masks.both⟩
  | read | pending => exact ⟨by decide, Masks.pending⟩

theorem Masks.del_write :
    Masks (mask &&& ~~~Filter.write.event) (events &&& ~~~Filter.write.event) := by
  cases hM <;> exact Masks.read

theorem Masks.covered : mask &&& ~~~events = 0 := by
  cases hM <;> decide

end Masks

/-- Whether there is nothing left to send of the caller's data, as `SendData` compares it. -/
def Done (s : Link ι) (h : ι) (room : Room) : Prop :=
  ¬(s.sendData h room).2 < (BitVec.ofNat 32 (s.handlers h).reqData.length).toInt

/-- What `SendData` registers: nothing, unless it deletes `EVFILT_WRITE`. -/
theorem sendData_registers (hW : Watching s none) (hpos : 0 < s.fd) (room : Room) :
    Watching (s.sendData h room).1 none ∧ (s.sendData h room).1.fd = s.fd ∧
      (¬Done s h room → (s.sendData h room).1.proxy.filters s.fd .write =
        s.proxy.filters s.fd .write) ∧
      (Done s h room → (s.sendData h room).1.proxy.filters s.fd .write = false) := by
  obtain ⟨hW', hfd, hevents, hproxy⟩ := hW.sendCacheTcp
    (some ((s.handlers h).call, (s.handlers h).reqData)) room
  obtain ⟨hneg, -⟩ | ⟨-, mask, hsole, hmasks⟩ := hW.registered
  · omega
  have hret := (sendData_same s h room).1
  have hdone : Done s h room ↔ ¬(s.sendCacheTcp (some ((s.handlers h).call,
      (s.handlers h).reqData)) room).2 < (BitVec.ofNat 32 (s.handlers h).reqData.length).toInt := by
    rw [Done, hret]
  rw [hdone]
  unfold sendData
  dsimp only
  split
  next hlt =>
    obtain ⟨hsame, hmasks'⟩ := hmasks.add_read
    have hadd := hsole.ctrlAdd_same hsame
    refine ⟨hW'.registered_of rfl rfl (.inr ?_), hfd, fun _ => ?_, absurd hlt⟩
    · rw [hfd, hevents, hproxy]
      exact ⟨hpos, mask, hadd, hmasks'⟩
    · rw [hfd, hproxy, hadd.filters, hsole.filters]
  next hge =>
    have hdel := (hsole.ctrlDelRef Filter.write.event).1
    refine ⟨hW'.registered_of rfl rfl (.inr ?_), hfd, absurd hge, fun _ => ?_⟩
    · rw [hfd, hevents, hproxy]
      exact ⟨hpos, _, hdel, hmasks.del_write⟩
    · rw [hfd, hproxy, kqueueCtrlDel, hdel.filters, has_and_not]
      simp

section Caller

variable (hW : Watching s none) (hphase : (s.handlers h).phase = some .connect)

include hW hphase

theorem handlers_sendData (room : Room) : (s.sendData h room).1.handlers h = s.handlers h := by
  rw [(sendData_same s h room).2.2.1, handlers_sendCacheTcp (hW.not_mem_send (by simp [hphase]))]

theorem Watching.waitSend (room : Room) : Watching (s.waitSend h room) none := by
  by_cases hlinked : (s.handlers h).list = none
  · have heq : s.waitSend h room = s.exit h := if_pos hlinked
    rw [heq]
    exact (hW.weaken h).exit
  have hpos := hW.fd_pos hlinked
  obtain ⟨hW', hfd, -⟩ := sendData_registers (h := h) hW hpos room
  have hself := handlers_sendData hW hphase room
  rw [waitSend_of_linked hlinked]
  split
  · exact (hW'.weaken h).exit
  · have hW'' := hW'.skipSendPos (h := h) (s.sendData h room).2.toNat
    have hpos' : 0 < ((s.sendData h room).1.skipSendPos h (s.sendData h room).2.toNat).1.fd := by
      change 0 < (s.sendData h room).1.fd
      omega
    have hself' : (((s.sendData h room).1.skipSendPos h (s.sendData h room).2.toNat).1.handlers
        h).phase = some .connect ∧ (((s.sendData h room).1.skipSendPos h
          (s.sendData h room).2.toNat).1.handlers h).list ≠ none := by
      rw [handlers_skipSendPos, if_pos rfl, hself]
      exact ⟨hphase, hlinked⟩
    dsimp only
    split
    · exact hW''.waitRecv (by simp [hself'.1]) fun _ => hpos'
    · exact hW''.join hself'.1 hself'.2 hpos'

/-- A length below 2^31 is what it is as an `int32_t`, and another one is negative. -/
theorem done_of_large (hge : 2 ^ 31 ≤ (s.handlers h).reqData.length) (room : Room) :
    Done s h room := by
  obtain ⟨-, hlt⟩ := hW.connecting h (by simp) hphase
  obtain ⟨-, -, hret, -⟩ := shifted_sendCacheTcp hW.listed
    (some ((s.handlers h).call, (s.handlers h).reqData)) room
  rw [← (sendData_same s h room).1] at hret
  rw [Done, BitVec.toInt_eq_toNat_cond, BitVec.toNat_ofNat, Nat.mod_eq_of_lt hlt]
  split <;> omega

section Linked

variable (hlinked : (s.handlers h).list ≠ none) {room : Room}

include hlinked

/-- Everything of the caller's data has been sent, so nobody waits to send. -/
theorem send_nil_of_sent
    (hge : ((s.handlers h).reqData.length : Int) ≤ (s.sendData h room).2) :
    (s.waitSend h room).lists .send = [] := by
  have hne := (hW.connecting h (by simp) hphase).1
  have hlen : 0 < (s.handlers h).reqData.length := length_pos_iff.2 hne
  obtain ⟨-, -, -, hnil⟩ := shifted_sendCacheTcp hW.listed
    (some ((s.handlers h).call, (s.handlers h).reqData)) room
  obtain ⟨hret, hlists, -⟩ := sendData_same s h room
  rw [← hret, ← hlists] at hnil
  have hself := handlers_sendData hW hphase room
  have hpos := hW.fd_pos hlinked
  have hL := (sendData_registers (h := h) hW hpos room).1.listed
  have hdrop : (((s.sendData h room).1.skipSendPos h (s.sendData h room).2.toNat).1.handlers
      h).reqData = [] := by
    rw [handlers_skipSendPos, if_pos rfl, hself]
    exact drop_eq_nil_of_le (by omega)
  have hcall : (((s.sendData h room).1.skipSendPos h (s.sendData h room).2.toNat).1.handlers
      h).phase ≠ none := by
    rw [handlers_skipSendPos, if_pos rfl, hself]
    simp [hphase]
  rw [waitSend_of_linked hlinked, if_neg (by omega)]
  rw [if_pos hdrop]
  have hL' : Listed ((s.sendData h room).1.skipSendPos h (s.sendData h room).2.toNat).1 :=
    listed_setHandler hL rfl
  have hsub : Sublist _ ((s.sendData h room).1.lists .send) := (moved_waitRecv hL' hcall).send
  rw [hnil (by omega)] at hsub
  exact sublist_nil.1 hsub

/-- The caller waits to send what is left of its data. -/
theorem send_ne_nil_of_left (hnonneg : 0 ≤ (s.sendData h room).2)
    (hlt : (s.sendData h room).2 < ((s.handlers h).reqData.length : Int)) :
    (s.waitSend h room).lists .send ≠ [] := by
  have hself := handlers_sendData hW hphase room
  have hW' := (sendData_registers (h := h) hW (hW.fd_pos hlinked) room).1
  have hown : ((s.sendData h room).1.skipSendPos h (s.sendData h room).2.toNat).1.handlers h =
      { s.handlers h with reqData := (s.handlers h).reqData.drop (s.sendData h room).2.toNat } := by
    rw [handlers_skipSendPos, if_pos rfl, hself]
  have hrest : (s.handlers h).reqData.drop (s.sendData h room).2.toNat ≠ [] := fun hnil => by
    rw [drop_eq_nil_iff] at hnil
    omega
  have hnot : h ∉ (s.sendData h room).1.lists .send :=
    hW'.not_mem_send (by rw [hself, hphase]; simp)
  have hL : Listed ((s.sendData h room).1.skipSendPos h (s.sendData h room).2.toNat).1 :=
    listed_setHandler hW'.listed rfl
  have hjoin := lists_join hL (by rw [hown]; exact hlinked) hnot
  rw [waitSend_of_linked hlinked, if_neg (by omega)]
  dsimp only
  rw [hown, if_neg hrest, hjoin]
  exact append_ne_nil_of_right_ne_nil _ (cons_ne_nil h [])

/-- `writev` has failed for good: the call is over, and nothing else has changed. -/
theorem send_of_failed (hneg : (s.sendData h room).2 < 0) :
    (s.waitSend h room).lists .send = s.lists .send := by
  obtain ⟨hret, hlists, -⟩ := sendData_same s h room
  have hL := (sendData_registers (h := h) hW (hW.fd_pos hlinked) room).1.listed
  rw [waitSend_of_linked hlinked, if_pos hneg]
  have hexit : ((s.sendData h room).1.exit h).lists .send =
      ((s.sendData h room).1.lists .send).erase h := lists_detachConn hL h .send
  rw [hexit, hlists, sendCacheTcp_neg (hret ▸ hneg),
    erase_of_not_mem (hW.not_mem_send (by simp [hphase]))]

/-- **Whether something waits to be sent** after `SendData` depends on the room and on what has
waited before. -/
theorem send_waitSend_iff : (s.waitSend h room).lists .send ≠ [] ↔
    s.Unsent ((s.handlers h).call, (s.handlers h).reqData) room := by
  have hlen : 0 < (s.handlers h).reqData.length :=
    length_pos_iff.2 (hW.connecting h (by simp) hphase).1
  have hret := (sendData_same s h room).1
  unfold Unsent
  cases hw : writev (s.gather (some ((s.handlers h).call, (s.handlers h).reqData))) room with
  | error errno =>
    cases errno with
    | again =>
      rw [sendCacheTcp_again hw] at hret
      exact iff_of_true (send_ne_nil_of_left hW hphase hlinked (by omega) (by omega)) trivial
    | other =>
      rw [sendCacheTcp_other hw] at hret
      rw [send_of_failed hW hphase hlinked (by omega)]
  | ok n =>
    rw [sendCacheTcp_left hW.listed hw] at hret
    dsimp only
    by_cases hsent : s.waiting + (s.handlers h).reqData.length ≤ n
    · refine iff_of_false (fun hne => hne ?_) (by omega)
      exact send_nil_of_sent hW hphase hlinked (by omega)
    · exact iff_of_true (send_ne_nil_of_left hW hphase hlinked (by omega) (by omega)) (by omega)

theorem send_nil_of_done (hlt : (s.handlers h).reqData.length < 2 ^ 31)
    (hdone : Done s h room) : (s.waitSend h room).lists .send = [] := by
  refine send_nil_of_sent hW hphase hlinked ?_
  rw [Done, BitVec.toInt_eq_toNat_cond, BitVec.toNat_ofNat, Nat.mod_eq_of_lt (by omega),
    if_pos (by omega)] at hdone
  omega

end Linked

/-- **The write filter after a call of `SendData`**: it is registered while something waits to be
sent exactly if it was before, and the length was not taken for a negative one. -/
theorem write_waitSend_iff (hlinked : (s.handlers h).list ≠ none) (room : Room) :
    ((s.waitSend h room).lists .send ≠ [] →
        (s.waitSend h room).proxy.filters (s.waitSend h room).fd .write = true) ↔
      (s.Unsent ((s.handlers h).call, (s.handlers h).reqData) room →
        s.proxy.filters s.fd .write = true ∧ (s.handlers h).reqData.length < 2 ^ 31) := by
  rw [← send_waitSend_iff hW hphase hlinked]
  have hpos := hW.fd_pos hlinked
  obtain ⟨-, hfd, hkept, hdeleted⟩ := sendData_registers (h := h) hW hpos room
  obtain ⟨-, -, -, -, hfd', -, hproxy', -⟩ := waitSend_same hlinked room
  rw [hfd', hproxy', hfd]
  refine forall_congr' fun hsend => ?_
  by_cases hdone : Done s h room
  · have hge : ¬(s.handlers h).reqData.length < 2 ^ 31 := fun hlt =>
      hsend (send_nil_of_done hW hphase hlinked hlt hdone)
    refine ⟨fun hwrite => ?_, fun hwrite => absurd hwrite.2 hge⟩
    rw [hdeleted hdone] at hwrite
    cases hwrite
  · have hlt : (s.handlers h).reqData.length < 2 ^ 31 := not_le.1 fun hge =>
      hdone (done_of_large hW hphase hge room)
    rw [hkept hdone]
    exact (and_iff_left hlt).symm

end Caller

/-! ## The beginning of a call -/

/-- A call has come as far as to `WaitSend`, or it waits or is over. -/
structure Opened (s : Link ι) (h : ι) (r : Link ι × Bool) : Prop where
  watching : Watching r.1 none
  kept : Kept s r.1
  phase : r.2 = true → (r.1.handlers h).phase = some .connect
  fresh : r.2 = true → (r.1.handlers h).list ≠ none → ¬0 < s.fd →
    r.1.proxy.filters r.1.fd .write = true

omit [DecidableEq ι] in
/-- A new descriptor is registered for both filters, and another one as it was. -/
theorem Opened.write_iff {r : Link ι × Bool} (hO : Opened s h r) (hret : r.2 = true)
    (hlinked : (r.1.handlers h).list ≠ none) :
    r.1.proxy.filters r.1.fd .write = true ↔ (0 < s.fd → s.proxy.filters s.fd .write = true) := by
  by_cases hpos : 0 < s.fd
  · obtain ⟨hfd, hproxy⟩ := hO.kept.same hpos
    rw [hfd, hproxy, imp_iff_right hpos]
  · exact iff_of_true (hO.fresh hret hlinked hpos) fun h => absurd h hpos

theorem Watching.newCall (hW : Watching s none) (hphase : (s.handlers h).phase = none)
    (request : Request) : Watching (s.newCall h request) (some h) := by
  have hnot : h ∉ s.lists .send := hW.not_mem_send (by simp [hphase])
  have hW' := hW.setHandler (x := { s.handlers h with
    call := s.calls, reqData := request.data, phase := some .connect }) rfl (absurd · hnot)
  exact hW'.registered_of rfl rfl hW'.registered

theorem opened_waitConnect (hW : Watching s (some h))
    (hphase : (s.handlers h).phase = some .connect) (hne : (s.handlers h).reqData ≠ [])
    (hlt : (s.handlers h).reqData.length < 2 ^ 32) (sock : Option { fd : Int // 0 < fd })
    (ok : Bool) : Opened s h (s.waitConnect h sock ok) := by
  obtain ⟨hW₁, hkept₁, hhandlers₁, hpos⟩ := hW.createSock sock
  unfold waitConnect
  dsimp only
  split
  next hret =>
    obtain ⟨hpos, hfresh⟩ := hpos hret
    obtain ⟨connected, connecting, hconn⟩ := connect_eq (s.createSock sock).1 ok
    have hW₂ : Watching ((s.createSock sock).1.connect ok).1 (some h) :=
      hconn ▸ hW₁.registered_of rfl rfl hW₁.registered
    have hkept₂ : Kept s ((s.createSock sock).1.connect ok).1 :=
      hkept₁.trans (hconn ▸ ⟨Sublist.refl _, fun _ => ⟨rfl, rfl⟩⟩)
    have hfd₂ : ((s.createSock sock).1.connect ok).1.fd = (s.createSock sock).1.fd := by rw [hconn]
    have hself : ((s.createSock sock).1.connect ok).1.handlers h = s.handlers h := by
      rw [hconn, ← hhandlers₁]
    split
    · refine ⟨hW₂.settle (fun _ => by rw [hself]; exact ⟨hne, hlt⟩) fun hneg => ?_, hkept₂,
        fun _ => by rw [hself, hphase], fun _ _ hnew => ?_⟩
      · omega
      · rw [hconn]
        exact hfresh hnew
    · have hmoved := moved_switchTo hW₂.listed (l := .conn) (by decide) h
      refine ⟨(hW₂.switchTo (l := .conn) (by decide) h).settle (fun _ => ?_) fun hneg => ?_,
        hkept₂.trans hmoved.kept, fun hf => absurd hf (by simp), fun hf => absurd hf (by simp)⟩
      · rw [hmoved.allData, hself]
        exact ⟨hne, hlt⟩
      · have hfd := hmoved.same.2.2.2.2.1
        omega
  · exact ⟨hW₁.exit, hkept₁.trans (moved_exit hW₁.listed h).kept, fun hf => absurd hf (by simp),
      fun hf => absurd hf (by simp)⟩

section

variable (hW : Watching s none)

include hW

theorem opened_beginCall (hphase : (s.handlers h).phase = none)
    (request : Request) (accepted : Bool) (sock : Option { fd : Int // 0 < fd }) (ok : Bool) :
    Opened s h (s.beginCall h request accepted sock ok) := by
  have hW₁ := hW.newCall hphase request
  have hkept₁ : Kept s (s.newCall h request) := ⟨Sublist.refl _, fun _ => ⟨rfl, rfl⟩⟩
  unfold beginCall
  split
  · exact ⟨hW₁.exit, hkept₁.trans (moved_exit hW₁.listed h).kept, fun hf => absurd hf (by simp),
      fun hf => absurd hf (by simp)⟩
  next hrequest =>
  have hmoved := moved_enlist hW₁.listed (l := .idle) (by decide) h
  have hself : ((s.newCall h request).link h).handlers h = { s.handlers h with
      call := s.calls, reqData := request.data, phase := some .connect, list := some .idle } := by
    rw [link, handlers_enlist, if_pos rfl]
    simp [Link.newCall]
  have hW₂ : Watching ((s.newCall h request).link h) (some h) :=
    hW₁.shifted hmoved.toShifted fun hneg h' hout => by
      have hne : h' ≠ h := fun heq => hout (congrArg some heq.symm)
      rw [link, handlers_enlist, if_neg hne]
      exact hW₁.unlinked hneg h' hout
  have hopened : Opened ((s.newCall h request).link h) h
      (((s.newCall h request).link h).waitConnect h sock ok) := by
    refine opened_waitConnect hW₂ ?_ ?_ ?_ sock ok
    · rw [hself]
    · rw [hself]
      exact fun hnil => hrequest (.inl hnil)
    · rw [hself]
      exact request.fits
  have hfd : ((s.newCall h request).link h).fd = s.fd := (link_same (s.newCall h request) h).2.2.2.2.1
  exact ⟨hopened.watching, (hkept₁.trans hmoved.kept).trans hopened.kept, hopened.phase,
    fun hret => hfd ▸ hopened.fresh hret⟩

theorem opened_resumeConnect
    (hphase : (s.handlers h).phase = some .connect) : Opened s h (s.resumeConnect h) := by
  have hmoved := moved_switchTo hW.listed (l := .idle) (by decide) h
  have hW₁ : Watching (s.switchToIdle h) none := hW.switchTo (by decide) h
  have hexit : Opened s h ((s.switchToIdle h).exit h, false) :=
    ⟨(hW₁.weaken h).exit, hmoved.kept.trans (moved_exit hW₁.listed h).kept,
      fun hf => absurd hf (by simp), fun hf => absurd hf (by simp)⟩
  unfold resumeConnect
  dsimp only
  split
  · exact hexit
  · split
    · refine ⟨hW₁, hmoved.kept, fun _ => ?_, fun _ hlinked hneg => ?_⟩
      · rw [switchToIdle, (switchTo_handler ..).2.2.2, hphase]
      · have hfd : (s.switchToIdle h).fd = s.fd := hmoved.same.2.2.2.2.1
        exact absurd (hfd ▸ hW₁.fd_pos hlinked) hneg
    · exact hexit

/-! ## Steps -/

theorem Watching.destroy (errno : Int) :
    Watching (Link.destroy { s with errno := errno }) none ∧
      (Link.destroy { s with errno := errno }).lists .send = [] := by
  have hL : Listed { s with errno := errno } := hW.listed
  have hD := destroyed_destroy hL
  refine ⟨⟨hD.listed, fun h hmem => ?_, fun h hout hphase => ?_,
    .inl ⟨hD.fd, fun h _ => hD.list h, fun fd => ?_, .inl hD.events⟩⟩, hD.lists _⟩
  · exact absurd hmem not_mem_nil
  · rw [hD.data]
    exact hW.connecting h hout (hD.connect h hphase)
  · rw [hD.proxy]
    obtain ⟨hfd, -, hblank, -⟩ | ⟨hpos, mask, hsole, hmasks⟩ := hW.registered
    · rw [if_pos (by dsimp only; omega)]
      exact hblank fd
    · rw [if_neg (by dsimp only; omega)]
      exact hsole.delObj hmasks.covered fd

theorem Watching.connectDone : Watching s.connectDone none ∧ Kept s s.connectDone := by
  obtain ⟨hmoved, -⟩ := connectDone_spec hW.listed
  refine ⟨?_, hmoved.kept.send, hmoved.kept.same⟩
  unfold Link.connectDone
  split
  · have hW' : Watching { s with connecting := false, connected := true } none :=
      hW.registered_of rfl rfl hW.registered
    exact hW'.switchToIdle_all _
  · exact hW

/-- `OutputNotify` only deletes `EVFILT_WRITE` if there is nothing to send. -/
theorem Watching.outputNotify (hfd : ¬s.fd < 0) (room : Room) :
    Watching (s.outputNotify room) none ∧
      (WriteWatched s → WriteWatched (s.outputNotify room)) := by
  have hpos : 0 < s.fd := by
    obtain ⟨hneg, -⟩ | ⟨hpos, -⟩ := hW.registered
    · omega
    · exact hpos
  obtain ⟨hW₁, hkept₁⟩ := hW.connectDone
  obtain ⟨hW₂, hfd₂, -, hproxy₂⟩ := hW₁.sendCacheTcp none room
  obtain ⟨bytes, hshift, -⟩ := shifted_sendCacheTcp hW₁.listed none room
  have hkept₂ : Kept s (s.connectDone.sendCacheTcp none room).1 :=
    hkept₁.trans ⟨hshift.send, fun _ => ⟨hfd₂, hproxy₂⟩⟩
  have hsame := (hkept₂.same hpos).1
  unfold Link.outputNotify
  dsimp only
  split
  · obtain ⟨hW₃, hnil⟩ := hW₂.destroy RC_SEND_FAIL
    exact ⟨hW₃, fun _ hsend => absurd hnil hsend⟩
  · split
    next hnil =>
      refine ⟨hW₂.registered_of rfl rfl ?_, fun _ hsend => absurd hnil hsend⟩
      obtain ⟨hneg, -⟩ | ⟨hpos, mask, hsole, hmasks⟩ := hW₂.registered
      · omega
      · exact .inr ⟨hpos, _, (hsole.ctrlDelRef Filter.write.event).1, hmasks.del_write⟩
    · exact ⟨hW₂, hkept₂.writeWatched hW⟩

theorem Watching.inputNotify (sessions : List ι) (failed : Option Int) :
    Watching (s.inputNotify sessions failed) none ∧
      (WriteWatched s → WriteWatched (s.inputNotify sessions failed)) := by
  have hW₁ := hW.switchToIdle_all sessions
  unfold Link.inputNotify
  split
  · exact ⟨hW₁, (moved_switchToIdle_all sessions hW.listed).kept.writeWatched hW⟩
  next errno =>
    obtain ⟨hW₂, hnil⟩ := hW₁.destroy errno
    exact ⟨hW₂, fun _ hsend => absurd hnil hsend⟩

end

/-- If `SendData` is called and the room is not enough for what waits and for the caller's data,
then `EVFILT_WRITE` is registered for an open descriptor, and the length of the caller's data is not
negative as an `int32_t`. -/
def Armed (s : Link ι) (a : Act ι) : Prop :=
  ∀ d, s.ownData a = some d → s.Unsent d a.room →
    (0 < s.fd → s.proxy.filters s.fd .write = true) ∧ d.2.length < 2 ^ 31

/-- A call goes on to `WaitSend`, if it has come there. -/
theorem Opened.goOn {r : Link ι × Bool} (hO : Opened s h r) (hW : Watching s none) (room : Room)
    {own : Option (Nat × List UInt8)}
    (hown : match sender r h with
      | none => own = none
      | some (t, h') => ∃ d, own = some d ∧ Sends s d t h') :
    Watching (if r.2 then r.1.waitSend h room else r.1) none ∧
      (WriteWatched s → (WriteWatched (if r.2 then r.1.waitSend h room else r.1) ↔
        ∀ d, own = some d → s.Unsent d room →
          (0 < s.fd → s.proxy.filters s.fd .write = true) ∧ d.2.length < 2 ^ 31)) := by
  have hnone (heq : own = none) : ∀ d, own = some d → s.Unsent d room →
      (0 < s.fd → s.proxy.filters s.fd .write = true) ∧ d.2.length < 2 ^ 31 := fun d hd => by
    rw [heq] at hd
    cases hd
  by_cases hret : r.2 = true
  · have hW' := hO.watching.waitSend (hO.phase hret) room
    simp only [hret, if_true]
    refine ⟨hW', fun hwrite => ?_⟩
    by_cases hlinked : (r.1.handlers h).list = none
    · have heq : r.1.waitSend h room = r.1.exit h := if_pos hlinked
      have hsender : sender r h = none := if_neg fun hboth => hboth.2 hlinked
      rw [hsender] at hown
      rw [heq]
      exact iff_of_true ((hO.kept.trans (moved_exit hO.watching.listed h).kept).writeWatched hW
        hwrite) (hnone hown)
    · have hsender : sender r h = some (r.1, h) := if_pos ⟨hret, hlinked⟩
      rw [hsender] at hown
      obtain ⟨d, rfl, hsends⟩ := hown
      have hiff := write_waitSend_iff hO.watching (hO.phase hret) hlinked room
      have hdata : (r.1.handlers h).reqData = d.2 := congrArg Prod.snd hsends.own
      rw [hsends.unsent_iff, hO.write_iff hret hlinked, hdata] at hiff
      exact hiff.trans ⟨fun hd _ heq => Option.some.inj heq ▸ hd, fun hd => hd d rfl⟩
  · have hsender : sender r h = none := if_neg fun hboth => hret hboth.1
    rw [hsender] at hown
    rw [if_neg hret]
    exact ⟨hO.watching, fun hwrite => iff_of_true (hO.kept.writeWatched hW hwrite) (hnone hown)⟩

/-- A step in which `SendData` is not called keeps the filter. -/
theorem quiet {a : Act ι} (hnone : s.ownData a = none)
    (h : Watching (s.step a) none ∧ (WriteWatched s → WriteWatched (s.step a))) :
    Watching (s.step a) none ∧ (WriteWatched s → (WriteWatched (s.step a) ↔ s.Armed a)) := by
  refine ⟨h.1, fun hwrite => iff_of_true (h.2 hwrite) fun d hd => ?_⟩
  rw [hnone] at hd
  cases hd

/-- **What a step does to the write filter.** -/
theorem Watching.step (hW : Watching s none) (a : Act ι) :
    Watching (s.step a) none ∧ (WriteWatched s → (WriteWatched (s.step a) ↔ s.Armed a)) := by
  cases a with
  | sendRecv h request accepted sock ok room =>
    have hspec := beforeSend_spec hW.listed hW.sending (.sendRecv h request accepted sock ok room)
    by_cases hphase : (s.handlers h).phase = none
    · unfold Armed Link.step
      unfold beforeSend at hspec
      simp only [hphase, if_true] at hspec ⊢
      exact (opened_beginCall hW hphase request accepted sock ok).goOn hW room hspec
    · refine quiet (if_neg fun hboth => hphase hboth.1) ?_
      have hstep : s.step (.sendRecv h request accepted sock ok room) = s := if_neg hphase
      rw [hstep]
      exact ⟨hW, id⟩
  | resume h room =>
    have hW₁ : Watching (s.switchToIdle h) none := hW.switchTo (by decide) h
    have hmoved := moved_switchTo hW.listed (l := .idle) (by decide) h
    have hexit := hmoved.kept.trans (moved_exit hW₁.listed h).kept
    by_cases hphase : (s.handlers h).phase = some .connect
    · have hspec := beforeSend_spec hW.listed hW.sending (.resume h room)
      unfold Armed Link.step
      unfold beforeSend at hspec
      simp only [hphase, if_true] at hspec ⊢
      exact (opened_resumeConnect hW hphase).goOn hW room hspec
    have hstep : Watching (s.step (.resume h room)) none ∧ Kept s (s.step (.resume h room)) := by
      unfold Link.step
      dsimp only
      split
      · exact ⟨hW, (Shifted.refl hW.listed).kept⟩
      next hconnect => exact absurd hconnect hphase
      next hsend =>
        have hcall : ((s.switchToIdle h).handlers h).phase ≠ none := by
          rw [switchToIdle, (switchTo_handler ..).2.2.2, hsend]
          simp
        split
        · exact ⟨(hW₁.weaken h).exit, hexit⟩
        · split
          · exact ⟨(hW₁.weaken h).waitRecv hcall hW₁.fd_pos,
              hmoved.kept.trans (moved_waitRecv hW₁.listed hcall).kept⟩
          · exact ⟨(hW₁.weaken h).exit, hexit⟩
      · exact ⟨(hW₁.weaken h).exit, hexit⟩
    exact quiet (if_neg fun hboth => hphase hboth.1) ⟨hstep.1, hstep.2.writeWatched hW⟩
  | output room =>
    exact quiet rfl (hW.notified fun hfd => hW.outputNotify hfd room)
  | input sessions failed =>
    exact quiet rfl (hW.notified fun _ => hW.inputNotify sessions failed)
  | hangup =>
    refine quiet rfl (hW.notified fun _ => ?_)
    obtain ⟨hW', hnil⟩ := hW.destroy RC_KQUEUE_ERROR
    exact ⟨hW', fun _ hsend => absurd hnil hsend⟩
  | timer =>
    obtain ⟨hW', hnil⟩ := hW.destroy s.errno
    exact quiet rfl ⟨hW', fun _ hsend => absurd hnil hsend⟩

omit [DecidableEq ι] in
theorem watching_init (sendOnly : Bool) (maxfd : Nat) :
    Watching (init sendOnly maxfd : Link ι) none where
  listed _ := ⟨nodup_nil, fun _ => by simp [init]⟩
  sending _ hmem := absurd hmem not_mem_nil
  connecting _ _ hphase := by simp [init] at hphase
  registered := .inl ⟨rfl, fun _ _ => rfl, fun _ => ⟨rfl, rfl, by
    funext filter
    exact (has_zero filter).symm⟩, .inl rfl⟩

/-- **A link with data to send waits for room, and one that waits for responses for data**, in every
state of a run, exactly if `EVFILT_WRITE` is still registered whenever `SendData` does not find room
for all there is to send. -/
theorem filters_watched_iff (sendOnly : Bool) (maxfd : Nat) (acts : List (Act ι)) :
    (∀ pre, pre <+: acts → Watched (pre.foldl step (init sendOnly maxfd))) ↔
      Run.Guarded step Armed (init sendOnly maxfd) acts := by
  have hinit : Watching (init sendOnly maxfd : Link ι) none := watching_init sendOnly maxfd
  have hall (pre : List (Act ι)) : Watching (pre.foldl step (init sendOnly maxfd)) none :=
    List.foldlRecOn (motive := fun s => Watching s none) pre step hinit
      fun _ hW a _ => (hW.step a).1
  rw [← Run.guarded_iff (P := fun s => Watching s none ∧ WriteWatched s)
    (fun s a hP => (and_iff_right (hP.1.step a).1).trans ((hP.1.step a).2 hP.2))
    ⟨hinit, fun hsend => absurd rfl hsend⟩]
  refine forall_congr' fun pre => forall_congr' fun _ => ?_
  exact (hall pre).watched_iff.trans (and_iff_right (hall pre)).symm

/-- The first request is sent at once, which deletes the write filter; the second one is sent in
part, and nothing will tell the link that there is room for the rest. -/
def deafRun : List (Act Bool) :=
  [.sendRecv true ⟨[1], by decide⟩ true (some ⟨5, by decide⟩) true (.ok 9),
    .sendRecv false ⟨[2, 3], by decide⟩ true none true (.ok 1)]

theorem filters_not_watched : ¬∀ acts : List (Act Bool), ∀ pre, pre <+: acts →
    Watched (pre.foldl step (init false 10)) := by
  intro h
  have hwatched := (h deafRun deafRun prefix_rfl).1
  revert hwatched
  decide

end Link

end FStack.MicroThread
