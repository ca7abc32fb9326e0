import FStack.Lib.Places
import FStack.MicroThread.Link

/-!
# Micro threads: the lists of a link

A handler is in the list that its flags say, and in no other one (`Listed`). Most operations only
move handlers to lists other than `_wait_send`, or end a call: `Moved` is what they have in common,
so that what holds of the handlers that wait to send can be proved for all of them at once.
-/

namespace FStack.MicroThread.Link

open Function List FStack.Lib

variable {ι : Type} [DecidableEq ι] {s s' s'' : Link ι} {h h' : ι} {l l' : LinkList}

/-- The lists are those that the handlers say. -/
def Listed (s : Link ι) : Prop :=
  ∀ l, Marked (s.lists l) fun h => decide ((s.handlers h).list = some l)

omit [DecidableEq ι] in
theorem Listed.mem_iff (hL : Listed s) : h ∈ s.lists l ↔ (s.handlers h).list = some l := by
  rw [(hL l).mem_iff, decide_eq_true_iff]

/-- The operations on the lists leave the rest of the link. -/
abbrev Same (s s' : Link ι) : Prop :=
  s'.wire = s.wire ∧ s'.requests = s.requests ∧ s'.calls = s.calls ∧ s'.conns = s.conns ∧
    s'.fd = s.fd ∧ s'.events = s.events ∧ s'.proxy = s.proxy ∧ s'.connected = s.connected

/-! ## Leaving a list and going to another one -/

theorem handlers_detachConn (s : Link ι) (h h' : ι) : (s.detachConn h).handlers h' =
    if h' = h then { s.handlers h with list := none } else s.handlers h' := by
  unfold detachConn
  split
  next hnone =>
    split
    next heq => rw [heq, ← hnone]
    · rfl
  · exact update_apply ..

theorem lists_detachConn (hL : Listed s) (h : ι) (l : LinkList) :
    (s.detachConn h).lists l = (s.lists l).erase h := by
  have hnot (hne : (s.handlers h).list ≠ some l) : (s.lists l).erase h = s.lists l :=
    erase_of_not_mem fun hmem => hne (hL.mem_iff.1 hmem)
  unfold detachConn
  split
  next hnone => exact (hnot (by simp [hnone])).symm
  next l' hsome =>
    by_cases heq : l = l'
    · subst heq
      exact update_self ..
    · rw [hnot (by simp [hsome, Ne.symm heq])]
      exact update_of_ne heq ..

theorem listed_detachConn (hL : Listed s) (h : ι) : Listed (s.detachConn h) := by
  intro l
  rw [lists_detachConn hL]
  refine (hL l).erase.congr fun h' => ?_
  rw [handlers_detachConn]
  by_cases heq : h' = h
  · subst heq
    simp
  · simp [heq]

@[simp] theorem detachConn_same (s : Link ι) (h : ι) : s.Same (s.detachConn h) := by
  unfold detachConn
  split <;> exact ⟨rfl, rfl, rfl, rfl, rfl, rfl, rfl, rfl⟩

theorem handlers_enlist (s : Link ι) (l : LinkList) (h h' : ι) : (s.enlist l h).handlers h' =
    if h' = h then { s.handlers h with list := some l } else s.handlers h' := by
  change update (s.detachConn h).handlers h _ h' = _
  rw [update_apply, handlers_detachConn, handlers_detachConn, if_pos rfl]
  split <;> rfl

theorem lists_enlist (hL : Listed s) (l : LinkList) (h : ι) (l' : LinkList) :
    (s.enlist l h).lists l' = (s.lists l').erase h ++ if l' = l then [h] else [] := by
  change update (s.detachConn h).lists l _ l' = _
  rw [update_apply, lists_detachConn hL, lists_detachConn hL]
  split
  next heq => rw [heq]
  · rw [append_nil]

theorem listed_enlist (hL : Listed s) (l : LinkList) (h : ι) : Listed (s.enlist l h) := by
  intro l'
  have hM := listed_detachConn hL h l'
  have hnone : ((s.detachConn h).handlers h).list = none := by
    rw [handlers_detachConn, if_pos rfl]
  rw [lists_enlist hL, ← lists_detachConn hL]
  by_cases heq : l' = l
  · subst heq
    rw [if_pos rfl]
    refine (hM.push (by simp [hnone])).congr fun h' => ?_
    rw [handlers_enlist, update_apply, handlers_detachConn]
    by_cases hh : h' = h <;> simp [hh]
  · rw [if_neg heq, append_nil]
    refine hM.congr fun h' => ?_
    rw [handlers_enlist, handlers_detachConn]
    by_cases hh : h' = h <;> simp [hh, Ne.symm heq]

theorem listed_switchTo (hL : Listed s) (l : LinkList) (h : ι) : Listed (s.switchTo l h) := by
  unfold switchTo
  split
  · exact hL
  · exact listed_enlist hL l h

/-- A handler in a list keeps everything else. -/
@[simp] theorem switchTo_handler (s : Link ι) (l : LinkList) (h h' : ι) :
    ((s.switchTo l h).handlers h').call = (s.handlers h').call ∧
    ((s.switchTo l h).handlers h').reqData = (s.handlers h').reqData ∧
    ((s.switchTo l h).handlers h').errNo = (s.handlers h').errNo ∧
    ((s.switchTo l h).handlers h').phase = (s.handlers h').phase := by
  unfold switchTo
  split
  · exact ⟨rfl, rfl, rfl, rfl⟩
  · rw [handlers_enlist]
    split
    next heq => exact heq ▸ ⟨rfl, rfl, rfl, rfl⟩
    · exact ⟨rfl, rfl, rfl, rfl⟩

theorem handlers_switchTo_of_ne (s : Link ι) (l : LinkList) (hne : h' ≠ h) :
    (s.switchTo l h).handlers h' = s.handlers h' := by
  unfold switchTo
  split
  · rfl
  · rw [handlers_enlist, if_neg hne]

theorem unlinked_switchTo (l : LinkList) (h : ι) (hnone : (s.handlers h').list = none) :
    ((s.switchTo l h).handlers h').list = none := by
  unfold switchTo
  split
  · exact hnone
  next hsome =>
    have hne : h' ≠ h := fun heq => by simp [← heq, hnone] at hsome
    rwa [handlers_enlist, if_neg hne]

section

variable (s : Link ι)

@[simp] theorem switchTo_same (l : LinkList) (h : ι) : s.Same (s.switchTo l h) := by
  unfold switchTo
  split
  · exact ⟨rfl, rfl, rfl, rfl, rfl, rfl, rfl, rfl⟩
  · exact detachConn_same s h

@[simp] theorem exit_same (h : ι) : s.Same (s.exit h) := detachConn_same s h

theorem handlers_exit (h h' : ι) : (s.exit h).handlers h' =
    if h' = h then { s.handlers h with list := none, phase := none } else s.handlers h' := by
  change update (s.detachConn h).handlers h
    { (s.detachConn h).handlers h with phase := none } h' = _
  rw [update_apply, handlers_detachConn, handlers_detachConn, if_pos rfl]
  split <;> rfl

@[simp] theorem waitRecv_same (h : ι) : s.Same (s.waitRecv h) := by
  unfold waitRecv
  split
  · exact exit_same s h
  · split
    · exact exit_same s h
    · exact switchTo_same s .recv h

theorem phase_waitRecv (h : ι) :
    ((s.waitRecv h).handlers h).phase ≠ some .connect := by
  unfold waitRecv
  split
  · rw [handlers_exit, if_pos rfl]
    simp
  · split
    · rw [handlers_exit, if_pos rfl]
      simp
    · simp [setPhase, setHandler]

end

/-! ## Moves -/

/-- Handlers have left `_wait_send`, gone to other lists or ended their calls, and some of those in
`_wait_send` have less to send. -/
structure Shifted (s s' : Link ι) : Prop where
  same : s'.wire = s.wire ∧ s'.requests = s.requests ∧ s'.calls = s.calls ∧ s'.conns = s.conns ∧
    s'.fd = s.fd ∧ s'.events = s.events ∧ s'.proxy = s.proxy ∧ s'.connected = s.connected
  call : ∀ h, (s'.handlers h).call = (s.handlers h).call
  data : ∀ h, h ∉ s.lists .send → (s'.handlers h).reqData = (s.handlers h).reqData
  phase : ∀ h, (s'.handlers h).phase = (s.handlers h).phase ∨
    (s'.handlers h).phase ≠ some .connect ∧ h ∉ s'.lists .send ∧
      ((s'.handlers h).phase ≠ none → (s.handlers h).phase ≠ none)
  listed : Listed s'
  send : (s'.lists .send).Sublist (s.lists .send)

/-- No handler has less to send. -/
structure Moved (s s' : Link ι) : Prop extends Shifted s s' where
  allData : ∀ h, (s'.handlers h).reqData = (s.handlers h).reqData

section

omit [DecidableEq ι]

theorem Shifted.refl (hL : Listed s) : Shifted s s :=
  ⟨⟨rfl, rfl, rfl, rfl, rfl, rfl, rfl, rfl⟩, fun _ => rfl, fun _ _ => rfl, fun _ => .inl rfl, hL,
    Sublist.refl _⟩

theorem Shifted.trans (h₁ : Shifted s s') (h₂ : Shifted s' s'') : Shifted s s'' where
  same := by
    obtain ⟨a, b, c, d, e, f, g, i⟩ := h₁.same
    obtain ⟨a', b', c', d', e', f', g', i'⟩ := h₂.same
    exact ⟨a'.trans a, b'.trans b, c'.trans c, d'.trans d, e'.trans e, f'.trans f, g'.trans g,
      i'.trans i⟩
  call h := (h₂.call h).trans (h₁.call h)
  data h hnot := (h₂.data h fun hmem => hnot (h₁.send.subset hmem)).trans (h₁.data h hnot)
  phase h := by
    obtain heq₂ | ⟨hne₂, hnot₂, hcall₂⟩ := h₂.phase h
    · obtain heq₁ | ⟨hne₁, hnot₁, hcall₁⟩ := h₁.phase h
      · exact .inl (heq₂.trans heq₁)
      · rw [heq₂]
        exact .inr ⟨hne₁, fun hmem => hnot₁ (h₂.send.subset hmem), hcall₁⟩
    · refine .inr ⟨hne₂, hnot₂, fun hcall => ?_⟩
      obtain heq₁ | ⟨-, -, hcall₁⟩ := h₁.phase h
      · exact heq₁ ▸ hcall₂ hcall
      · exact hcall₁ (hcall₂ hcall)
  listed := h₂.listed
  send := h₂.send.trans h₁.send

theorem Shifted.connect (hS : Shifted s s') (hphase : (s'.handlers h).phase = some .connect) :
    (s.handlers h).phase = some .connect := by
  obtain heq | ⟨hne, -⟩ := hS.phase h
  · exact heq ▸ hphase
  · exact absurd hphase hne

theorem Shifted.inCall (hS : Shifted s s') (hphase : (s'.handlers h).phase ≠ none) :
    (s.handlers h).phase ≠ none := by
  obtain heq | ⟨-, -, hcall⟩ := hS.phase h
  · exact heq ▸ hphase
  · exact hcall hphase

theorem Moved.refl (hL : Listed s) : Moved s s := ⟨Shifted.refl hL, fun _ => rfl⟩

theorem Moved.trans (h₁ : Moved s s') (h₂ : Moved s' s'') : Moved s s'' :=
  ⟨h₁.toShifted.trans h₂.toShifted, fun h => (h₂.allData h).trans (h₁.allData h)⟩

theorem moved_foldl {f : Link ι → ι → Link ι} (hf : ∀ s h, Listed s → Moved s (f s h))
    (items : List ι) (hL : Listed s) : Moved s (items.foldl f s) := by
  induction items generalizing s with
  | nil => exact Moved.refl hL
  | cons h items ih => exact (hf s h hL).trans (ih (hf s h hL).listed)

end

/-- Only the list of a handler has changed. -/
theorem moved_of_handlers {o : Option LinkList} (hsame : s.Same s') (hL' : Listed s')
    (hhandlers : ∀ h', s'.handlers h' =
      if h' = h then { s.handlers h with list := o } else s.handlers h')
    (hsend : (s'.lists .send).Sublist (s.lists .send)) : Moved s s' := by
  have hhandler (h' : ι) : (s'.handlers h').call = (s.handlers h').call ∧
      (s'.handlers h').reqData = (s.handlers h').reqData ∧
      (s'.handlers h').phase = (s.handlers h').phase := by
    rw [hhandlers]
    split
    next heq => exact heq ▸ ⟨rfl, rfl, rfl⟩
    · exact ⟨rfl, rfl, rfl⟩
  exact ⟨⟨hsame, fun h' => (hhandler h').1, fun h' _ => (hhandler h').2.1,
    fun h' => .inl (hhandler h').2.2, hL', hsend⟩, fun h' => (hhandler h').2.1⟩

section

variable (hL : Listed s)

include hL

theorem moved_detachConn (h : ι) : Moved s (s.detachConn h) := by
  refine moved_of_handlers (detachConn_same s h) (listed_detachConn hL h)
    (handlers_detachConn s h) ?_
  rw [lists_detachConn hL]
  exact erase_sublist

variable (hl : l ≠ .send)

include hl

theorem moved_enlist (h : ι) : Moved s (s.enlist l h) := by
  refine moved_of_handlers (detachConn_same s h) (listed_enlist hL l h)
    (handlers_enlist s l h) ?_
  rw [lists_enlist hL, if_neg (Ne.symm hl), append_nil]
  exact erase_sublist

theorem moved_switchTo (h : ι) : Moved s (s.switchTo l h) := by
  unfold switchTo
  split
  · exact Moved.refl hL
  · exact moved_enlist hL hl h

theorem send_enlist (hnot : h ∉ s.lists .send) :
    (s.enlist l h).lists .send = s.lists .send := by
  rw [lists_enlist hL, if_neg (Ne.symm hl), append_nil, erase_of_not_mem hnot]

theorem send_switchTo (hnot : h ∉ s.lists .send) :
    (s.switchTo l h).lists .send = s.lists .send := by
  unfold switchTo
  split
  · rfl
  · exact send_enlist hL hl hnot

end

theorem list_switchTo (hlinked : (s.handlers h).list ≠ none) (l : LinkList) :
    ((s.switchTo l h).handlers h).list = some l := by
  unfold switchTo
  split
  next hnone => exact absurd hnone hlinked
  · rw [handlers_enlist, if_pos rfl]

variable {x : NetHandler}

section

variable (hL : Listed s)

include hL

theorem listed_setHandler (hlist : x.list = (s.handlers h).list) :
    Listed (s.setHandler h x) := by
  refine fun l => (hL l).congr fun h' => ?_
  change decide ((update s.handlers h x h').list = some l) = _
  rw [update_apply]
  split
  next heq => rw [heq, hlist]
  · rfl

/-- A handler is changed that stays in its list. -/
theorem shifted_setHandler (hcall : x.call = (s.handlers h).call)
    (hlist : x.list = (s.handlers h).list)
    (hdata : h ∉ s.lists .send → x.reqData = (s.handlers h).reqData)
    (hphase : x.phase = (s.handlers h).phase ∨ x.phase ≠ some .connect ∧ h ∉ s.lists .send ∧
      (x.phase ≠ none → (s.handlers h).phase ≠ none)) : Shifted s (s.setHandler h x) := by
  have hself : (s.setHandler h x).handlers h = x := update_self ..
  have hother (h' : ι) (hne : h' ≠ h) : (s.setHandler h x).handlers h' = s.handlers h' :=
    update_of_ne hne ..
  refine ⟨⟨rfl, rfl, rfl, rfl, rfl, rfl, rfl, rfl⟩, fun h' => ?_, fun h' hnot => ?_, fun h' => ?_,
    listed_setHandler hL hlist, Sublist.refl _⟩
  · by_cases heq : h' = h
    · rw [heq, hself, hcall]
    · rw [hother h' heq]
  · by_cases heq : h' = h
    · subst heq
      rw [hself, hdata hnot]
    · rw [hother h' heq]
  · by_cases heq : h' = h
    · subst heq
      rw [hself]
      exact hphase
    · rw [hother h' heq]
      exact .inl rfl

theorem moved_setHandler (hcall : x.call = (s.handlers h).call)
    (hlist : x.list = (s.handlers h).list) (hdata : x.reqData = (s.handlers h).reqData)
    (hphase : x.phase = (s.handlers h).phase ∨ x.phase ≠ some .connect ∧ h ∉ s.lists .send ∧
      (x.phase ≠ none → (s.handlers h).phase ≠ none)) : Moved s (s.setHandler h x) := by
  refine ⟨shifted_setHandler hL hcall hlist (fun _ => hdata) hphase, fun h' => ?_⟩
  change (update s.handlers h x h').reqData = _
  rw [update_apply]
  split
  next heq => rw [heq, hdata]
  · rfl

theorem moved_exit (h : ι) : Moved s (s.exit h) := by
  have hmoved := moved_detachConn hL h
  refine hmoved.trans (moved_setHandler hmoved.listed rfl rfl rfl (.inr ⟨by simp, ?_, absurd rfl⟩))
  rw [hmoved.listed.mem_iff, handlers_detachConn, if_pos rfl]
  simp

theorem moved_waitRecv (hcall : (s.handlers h).phase ≠ none) :
    Moved s (s.waitRecv h) := by
  unfold waitRecv
  split
  · exact moved_exit hL h
  next hlinked =>
  split
  · exact moved_exit hL h
  · have hmoved : Moved s (s.switchToRecv h) := moved_switchTo hL (by decide) h
    refine hmoved.trans (moved_setHandler hmoved.listed rfl rfl rfl
      (.inr ⟨by simp, ?_, fun _ => ?_⟩))
    · rw [hmoved.listed.mem_iff, switchToRecv, list_switchTo hlinked]
      simp
    · rwa [switchToRecv, (switchTo_handler ..).2.2.2]

end

theorem moved_switchToIdle_all (items : List ι) (hL : Listed s) :
    Moved s (items.foldl switchToIdle s) :=
  moved_foldl (fun _ h hL => moved_switchTo hL (by decide) h) items hL

theorem send_switchToIdle_all {items : List ι} (hL : Listed s)
    (hnot : ∀ h ∈ items, h ∉ s.lists .send) :
    (items.foldl switchToIdle s).lists .send = s.lists .send := by
  induction items generalizing s with
  | nil => rfl
  | cons h items ih =>
    obtain ⟨hhead, htail⟩ := forall_mem_cons.1 hnot
    have hsend : (s.switchToIdle h).lists .send = s.lists .send :=
      send_switchTo hL (by decide) hhead
    have hL' : Listed (s.switchToIdle h) := listed_switchTo hL _ _
    rw [foldl_cons, ih hL' (hsend ▸ htail), hsend]

/-- The handlers that wait to send are not those that wait for the connection. -/
theorem connectDone_spec (hL : Listed s) :
    Moved { s with connected := s.connecting || s.connected } s.connectDone ∧
      s.connectDone.lists .send = s.lists .send := by
  unfold connectDone
  split
  next hconn =>
    rw [hconn]
    have hL' : Listed { s with connecting := false, connected := true } := hL
    have hmoved := moved_switchToIdle_all (s.lists .conn) hL'
    refine ⟨⟨⟨hmoved.same, hmoved.call, hmoved.data, hmoved.phase, hmoved.listed, hmoved.send⟩,
      hmoved.allData⟩, send_switchToIdle_all hL' fun h hmem hsend => ?_⟩
    rw [hL.mem_iff] at hmem
    rw [hL'.mem_iff] at hsend
    exact absurd (hmem.symm.trans hsend) (by simp)
  next hconn =>
    have hsame : (s.connecting || s.connected) = s.connected := by
      rw [Bool.eq_false_iff.2 hconn, Bool.false_or]
    rw [hsame]
    exact ⟨Moved.refl hL, rfl⟩

/-! ## A link is destroyed -/

variable (result : Int)

theorem moved_notifyUnlink (hL : Listed s) (h : ι) :
    Moved s (notifyUnlink result s h) := by
  unfold notifyUnlink
  split
  · have hmoved : Moved s (s.setHandler h { s.handlers h with errNo := result }) :=
      moved_setHandler hL rfl rfl rfl (.inl rfl)
    exact hmoved.trans (moved_detachConn hmoved.listed h)
  · exact moved_detachConn hL h

theorem list_notifyUnlink (s : Link ι) (h h' : ι) :
    ((notifyUnlink result s h).handlers h').list =
      if h' = h then none else (s.handlers h').list := by
  unfold notifyUnlink unlink
  rw [handlers_detachConn]
  by_cases heq : h' = h
  · rw [if_pos heq, if_pos heq]
  · rw [if_neg heq, if_neg heq]
    split
    · exact congrArg NetHandler.list (update_of_ne heq ..)
    · rfl

theorem list_notifyUnlink_all (items : List ι) (s : Link ι) (h' : ι) :
    ((items.foldl (notifyUnlink result) s).handlers h').list =
      if h' ∈ items then none else (s.handlers h').list := by
  induction items generalizing s with
  | nil => rfl
  | cons h items ih =>
    rw [foldl_cons, ih, list_notifyUnlink]
    by_cases heq : h' = h
    · simp [heq]
    · simp [heq]

theorem moved_notifyAll (hL : Listed s) : Moved s (s.notifyAll result) ∧
    ∀ h, ((s.notifyAll result).handlers h).list = none := by
  -- The lists one after the other; a handler is unlinked with the list it is in.
  have hround (s : Link ι) (hL : Listed s) (l : LinkList) :
      Moved s ((s.lists l).foldl (notifyUnlink result) s) :=
    moved_foldl (fun _ h hL => moved_notifyUnlink result hL h) _ hL
  have hlist (s : Link ι) (hL : Listed s) (l : LinkList) (h : ι) :
      (((s.lists l).foldl (notifyUnlink result) s).handlers h).list =
        if (s.handlers h).list = some l then none else (s.handlers h).list := by
    rw [list_notifyUnlink_all]
    simp only [hL.mem_iff]
  have h₁ := hround s hL .conn
  have h₂ := hround _ h₁.listed .send
  have h₃ := hround _ h₂.listed .recv
  have h₄ := hround _ h₃.listed .idle
  refine ⟨((h₁.trans h₂).trans h₃).trans h₄, fun h => ?_⟩
  refine (hlist _ h₃.listed .idle h).trans ?_
  rw [hlist _ h₂.listed .recv, hlist _ h₁.listed .send, hlist _ hL .conn]
  cases (s.handlers h).list with
  | none => rfl
  | some l => cases l <;> rfl

/-- What is left of a destroyed link. -/
structure Destroyed (s s' : Link ι) : Prop where
  lists : ∀ l, s'.lists l = []
  list : ∀ h, (s'.handlers h).list = none
  call : ∀ h, (s'.handlers h).call = (s.handlers h).call
  data : ∀ h, (s'.handlers h).reqData = (s.handlers h).reqData
  connect : ∀ h, (s'.handlers h).phase = some .connect → (s.handlers h).phase = some .connect
  inCall : ∀ h, (s'.handlers h).phase ≠ none → (s.handlers h).phase ≠ none
  same : s'.requests = s.requests ∧ s'.calls = s.calls
  fd : s'.fd = -1
  events : s'.events = 0
  wire : s'.wire = if s.fd < 0 then s.wire else []
  conns : s'.conns = if s.fd < 0 then s.conns else s.conns + 1
  proxy : s'.proxy =
    if s.fd < 0 then s.proxy else (s.proxy.kqueueDelObj () s.fd s.events noFailure).1

omit [DecidableEq ι] in
theorem Destroyed.listed (hD : Destroyed s s') : Listed s' := fun l => by
  rw [hD.lists]
  exact ⟨nodup_nil, fun h => by simp [hD.list]⟩

theorem destroyed_destroy (hL : Listed s) : Destroyed s s.destroy := by
  have hclose : s.close.lists = s.lists ∧ s.close.handlers = s.handlers ∧
      s.close.requests = s.requests ∧ s.close.calls = s.calls ∧
      s.close.wire = (if s.fd < 0 then s.wire else []) ∧
      s.close.conns = (if s.fd < 0 then s.conns else s.conns + 1) ∧
      s.close.proxy = if s.fd < 0 then s.proxy
        else (s.proxy.kqueueDelObj () s.fd s.events noFailure).1 := by
    unfold close
    split <;> exact ⟨rfl, rfl, rfl, rfl, rfl, rfl, rfl⟩
  obtain ⟨hlists, hhandlers, hrequests, hcalls, hwire, hconns, hproxy⟩ := hclose
  have hL' : Listed s.close := fun l => by
    rw [hlists, hhandlers]
    exact hL l
  obtain ⟨hmoved, hnone⟩ := moved_notifyAll s.close.errno hL'
  obtain ⟨hwire', hrequests', hcalls', hconns', -, -, hproxy', -⟩ := hmoved.same
  exact
    { lists := fun _ => rfl
      list := hnone
      call := fun h => (hmoved.call h).trans (by rw [hhandlers])
      data := fun h => (hmoved.allData h).trans (by rw [hhandlers])
      connect := fun h hphase => hhandlers ▸ hmoved.connect hphase
      inCall := fun h hphase => hhandlers ▸ hmoved.inCall hphase
      same := ⟨hrequests'.trans hrequests, hcalls'.trans hcalls⟩
      fd := rfl
      events := rfl
      wire := hwire'.trans hwire
      conns := hconns'.trans hconns
      proxy := hproxy'.trans hproxy }

/-! ## Handlers that have sent -/

section Skip

variable {items : List ι} {n : Nat} {data : Option (Nat × List UInt8)} {room : Room}

theorem handlers_skipSendPos (s : Link ι) (h h' : ι) (n : Nat) : (s.skipSendPos h n).1.handlers h' =
    if h' = h then { s.handlers h with reqData := (s.handlers h).reqData.drop n }
    else s.handlers h' := by
  have hdrop : (s.handlers h).reqData.drop
      (if n ≥ (s.handlers h).reqData.length then (s.handlers h).reqData.length else n) =
        (s.handlers h).reqData.drop n := by
    split
    next hge => rw [drop_length, drop_eq_nil_of_le hge]
    · rfl
  change update s.handlers h _ h' = _
  rw [hdrop, update_apply]

theorem skipItem_of_lt (h : ι) (hlt : n < (s.handlers h).reqData.length) :
    s.skipItem h n =
      (s.setHandler h { s.handlers h with reqData := (s.handlers h).reqData.drop n }, 0) := by
  have hskip : s.skipSendPos h n =
      (s.setHandler h { s.handlers h with reqData := (s.handlers h).reqData.drop n }, n) := by
    simp only [skipSendPos, if_neg (not_le.2 hlt)]
  have hleft : (s.handlers h).reqData.drop n ≠ [] := fun hnil => by
    rw [drop_eq_nil_iff] at hnil
    omega
  rw [skipItem, hskip]
  simp [setHandler, hleft]

theorem skipItem_of_ge (h : ι) (hge : (s.handlers h).reqData.length ≤ n) :
    s.skipItem h n = ((s.setHandler h { s.handlers h with reqData := [] }).switchToIdle h,
      n - (s.handlers h).reqData.length) := by
  have hskip : s.skipSendPos h n = (s.setHandler h { s.handlers h with reqData := [] },
      (s.handlers h).reqData.length) := by
    simp only [skipSendPos, if_pos hge, drop_length]
  rw [skipItem, hskip]
  simp [setHandler]

theorem handlers_skipItem_of_ne (s : Link ι) (n : Nat) (hne : h' ≠ h) :
    (s.skipItem h n).1.handlers h' = s.handlers h' := by
  obtain hlt | hge := lt_or_ge n (s.handlers h).reqData.length
  · rw [skipItem_of_lt h hlt]
    exact update_of_ne hne ..
  · rw [skipItem_of_ge h hge]
    exact (handlers_switchTo_of_ne _ _ hne).trans (update_of_ne hne ..)

theorem shifted_setData (hL : Listed s) (hmem : h ∈ s.lists .send) (data : List UInt8) :
    Shifted s (s.setHandler h { s.handlers h with reqData := data }) :=
  shifted_setHandler hL rfl rfl (absurd hmem) (.inl rfl)

theorem shifted_skipItem (hL : Listed s) (hmem : h ∈ s.lists .send) (n : Nat) :
    Shifted s (s.skipItem h n).1 := by
  obtain hlt | hge := lt_or_ge n (s.handlers h).reqData.length
  · rw [skipItem_of_lt h hlt]
    exact shifted_setData hL hmem _
  · rw [skipItem_of_ge h hge]
    have hshift := shifted_setData hL hmem []
    exact hshift.trans (moved_switchTo hshift.listed (by decide) h).toShifted

/-- A handler that has sent everything is not in `_wait_send` any more. -/
theorem send_skipItem (hL : Listed s) (hsend : s.lists .send = h :: items)
    (hge : (s.handlers h).reqData.length ≤ n) : (s.skipItem h n).1.lists .send = items := by
  have hmem : h ∈ s.lists .send := hsend ▸ mem_cons_self
  have hshift := shifted_setData hL hmem []
  have hlist : ((s.setHandler h { s.handlers h with reqData := [] }).handlers h).list =
      some .send := hshift.listed.mem_iff.1 hmem
  rw [skipItem_of_ge h hge, switchToIdle, switchTo]
  simp only [hlist]
  rw [lists_enlist hshift.listed, if_neg (by decide), append_nil]
  change (s.lists .send).erase h = items
  rw [hsend, erase_cons_head]

/-- **After the loop**: if there is something left, nobody waits to send. -/
theorem shifted_skipItems (hL : Listed s) (hsend : s.lists .send = items) (n : Nat) :
    Shifted s (skipItems items s n).1 ∧
      ((skipItems items s n).2 ≠ 0 → (skipItems items s n).1.lists .send = []) := by
  induction items generalizing s n with
  | nil => exact ⟨Shifted.refl hL, fun _ => hsend⟩
  | cons h items ih =>
    have hmem : h ∈ s.lists .send := hsend ▸ mem_cons_self
    have hshift := shifted_skipItem hL hmem n
    rw [skipItems]
    split
    next hzero => exact ⟨hshift, absurd hzero⟩
    next hleft =>
      have hge : (s.handlers h).reqData.length ≤ n := not_lt.1 fun hlt => by
        rw [skipItem_of_lt h hlt] at hleft
        exact hleft rfl
      obtain ⟨hshift', hempty⟩ := ih hshift.listed (send_skipItem hL hsend hge) (s.skipItem h n).2
      exact ⟨hshift.trans hshift', hempty⟩

theorem handlers_skipItems (hnot : h ∉ items) (s : Link ι) (n : Nat) :
    (skipItems items s n).1.handlers h = s.handlers h := by
  induction items generalizing s n with
  | nil => rfl
  | cons h' items ih =>
    rw [mem_cons, not_or] at hnot
    obtain ⟨hne, hnot⟩ := hnot
    rw [skipItems]
    split
    · exact handlers_skipItem_of_ne s n hne
    · rw [ih hnot, handlers_skipItem_of_ne s n hne]

theorem sendCacheTcp_again (hw : writev (s.gather data) room = .error .again) :
    s.sendCacheTcp data room = (s, 0) := by
  simp only [sendCacheTcp, hw]

theorem sendCacheTcp_other (hw : writev (s.gather data) room = .error .other) :
    s.sendCacheTcp data room = (s, -1) := by
  simp only [sendCacheTcp, hw]

theorem sendCacheTcp_ok (hw : writev (s.gather data) room = .ok n) :
    (s.sendCacheTcp data room).1 = (skipItems (s.lists .send)
      { s with wire := s.wire ++ (bytesOf (s.gather data)).take n } n).1 ∧
    (s.sendCacheTcp data room).2 = (skipItems (s.lists .send)
      { s with wire := s.wire ++ (bytesOf (s.gather data)).take n } n).2 := by
  simp only [sendCacheTcp, hw, and_self]

/-- A failure has no effect. -/
theorem sendCacheTcp_neg (hneg : (s.sendCacheTcp data room).2 < 0) :
    (s.sendCacheTcp data room).1 = s := by
  cases hw : writev (s.gather data) room with
  | error errno =>
    cases errno with
    | again => rw [sendCacheTcp_again hw]
    | other => rw [sendCacheTcp_other hw]
  | ok n =>
    rw [(sendCacheTcp_ok hw).2] at hneg
    omega

theorem handlers_sendCacheTcp (hnot : h ∉ s.lists .send) (data : Option (Nat × List UInt8))
    (room : Room) : (s.sendCacheTcp data room).1.handlers h = s.handlers h := by
  cases hw : writev (s.gather data) room with
  | error errno =>
    cases errno with
    | again => rw [sendCacheTcp_again hw]
    | other => rw [sendCacheTcp_other hw]
  | ok n =>
    rw [(sendCacheTcp_ok hw).1]
    exact handlers_skipItems hnot _ n

/-- `SendCacheTcp` writes, and if there is something left for the caller's data, nobody waits to
send. -/
theorem shifted_sendCacheTcp (hL : Listed s) (data : Option (Nat × List UInt8)) (room : Room) :
    ∃ bytes, Shifted { s with wire := s.wire ++ bytes } (s.sendCacheTcp data room).1 ∧
      -1 ≤ (s.sendCacheTcp data room).2 ∧
      (0 < (s.sendCacheTcp data room).2 → (s.sendCacheTcp data room).1.lists .send = []) := by
  cases hw : writev (s.gather data) room with
  | error errno =>
    refine ⟨[], ?_⟩
    rw [append_nil]
    cases errno with
    | again =>
      rw [sendCacheTcp_again hw]
      exact ⟨Shifted.refl hL, by simp, fun hlt => absurd hlt (by simp)⟩
    | other =>
      rw [sendCacheTcp_other hw]
      exact ⟨Shifted.refl hL, by simp, fun hlt => absurd hlt (by simp)⟩
  | ok n =>
    refine ⟨(bytesOf (s.gather data)).take n, ?_⟩
    obtain ⟨hfst, hsnd⟩ := sendCacheTcp_ok hw
    have hL' : Listed { s with wire := s.wire ++ (bytesOf (s.gather data)).take n } := hL
    obtain ⟨hshift, hempty⟩ := shifted_skipItems hL' rfl n
    rw [hfst, hsnd]
    exact ⟨hshift, by omega, fun hlt => hempty fun hzero => by simp [hzero] at hlt⟩

/-! ## The caller -/

omit [DecidableEq ι] in
/-- `CreateSock` changes the descriptor and what is registered. -/
theorem createSock_eq (s : Link ι) (sock : Option { fd : Int // 0 < fd }) :
    ∃ fd events proxy,
      (s.createSock sock).1 = { s with fd := fd, events := events, proxy := proxy } := by
  unfold createSock
  dsimp only
  split
  · exact ⟨_, _, _, rfl⟩
  · split
    · exact ⟨_, _, _, rfl⟩
    · split <;> exact ⟨_, _, _, rfl⟩

omit [DecidableEq ι] in
/-- `Connect` changes the two flags. -/
theorem connect_eq (s : Link ι) (ok : Bool) : ∃ connected connecting,
    (s.connect ok).1 = { s with connected := connected, connecting := connecting } := by
  unfold connect
  split
  · exact ⟨_, _, rfl⟩
  · split
    · exact ⟨_, _, rfl⟩
    · split <;> exact ⟨_, _, rfl⟩

/-- `SendData` only changes what is registered after `SendCacheTcp`. -/
theorem sendData_same (s : Link ι) (h : ι) (room : Room) :
    let r := s.sendCacheTcp (some ((s.handlers h).call, (s.handlers h).reqData)) room
    let t := s.sendData h room
    t.2 = r.2 ∧ t.1.lists = r.1.lists ∧ t.1.handlers = r.1.handlers ∧ t.1.requests = r.1.requests ∧
      t.1.calls = r.1.calls ∧ t.1.wire = r.1.wire ∧ t.1.conns = r.1.conns ∧ t.1.fd = r.1.fd ∧
      t.1.connected = r.1.connected := by
  unfold sendData
  dsimp only
  split <;> exact ⟨rfl, rfl, rfl, rfl, rfl, rfl, rfl, rfl, rfl⟩

/-- The caller waits to send the rest. -/
theorem lists_join (hL : Listed s) (hlinked : (s.handlers h).list ≠ none)
    (hnot : h ∉ s.lists .send) :
    ((s.switchToSend h).setPhase h (some .send)).lists .send = s.lists .send ++ [h] := by
  change (s.switchTo .send h).lists .send = _
  unfold switchTo
  split
  next hnone => exact absurd hnone hlinked
  · rw [lists_enlist hL, if_pos rfl, erase_of_not_mem hnot]

variable (hlinked : (s.handlers h).list ≠ none)

include hlinked

theorem handlers_join (h' : ι) :
    ((s.switchToSend h).setPhase h (some .send)).handlers h' =
      if h' = h then { s.handlers h with list := some .send, phase := some .send }
      else s.handlers h' := by
  have hswitch : s.switchToSend h = s.enlist .send h := by
    unfold switchToSend switchTo
    split
    next hnone => exact absurd hnone hlinked
    · rfl
  rw [hswitch]
  change update (s.enlist .send h).handlers h
    { (s.enlist .send h).handlers h with phase := some .send } h' = _
  rw [update_apply, handlers_enlist, handlers_enlist, if_pos rfl]
  split <;> rfl

/-- What the caller does after `SendData`. -/
theorem waitSend_of_linked (room : Room) :
    s.waitSend h room =
      if (s.sendData h room).2 < 0 then (s.sendData h room).1.exit h
      else
        let t := ((s.sendData h room).1.skipSendPos h (s.sendData h room).2.toNat).1
        if (t.handlers h).reqData = [] then t.waitRecv h
        else (t.switchToSend h).setPhase h (some .send) :=
  if_neg hlinked

theorem waitSend_same (room : Room) : (s.sendData h room).1.Same (s.waitSend h room) := by
  rw [waitSend_of_linked hlinked]
  dsimp only
  split
  · exact exit_same ..
  · split
    · exact waitRecv_same ..
    · exact switchTo_same ..

end Skip

end FStack.MicroThread.Link
