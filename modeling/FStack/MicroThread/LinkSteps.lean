import FStack.MicroThread.LinkFraming
import FStack.MicroThread.LinkOffer

/-!
# Micro threads: requests on a link stay whole

Every step keeps a link sound as long as nothing is written after a request was abandoned in the
middle (`SoundAt.step`). A step writes what `writev` takes of the pieces that it is offered, which
depends on the state before the step and on the room (`grown_step`), so the requests in the
connection stay whole exactly if `writev` takes nothing then (`requests_whole_iff`).
-/

namespace FStack.MicroThread.Link

open Function List FStack.Lib

variable {ι : Type} {s s' : Link ι} {h : ι} {wire : List (Nat × UInt8)} {out : Option ι}
  {r : Link ι × Bool}

theorem Ready.of_send (hready : Ready s wire) (hsend : s'.lists .send = s.lists .send)
    (hcall : ∀ h ∈ s.lists .send, (s'.handlers h).call = (s.handlers h).call)
    (hunfinished : ∀ c, Unfinished s'.requests wire c → Unfinished s.requests wire c) :
    Ready s' wire := fun c hc => by
  obtain ⟨h, items, heq, rfl⟩ := hready c (hunfinished c hc)
  exact ⟨h, items, hsend.trans heq, hcall h (heq ▸ mem_cons_self)⟩

/-- A call has come as far as to `WaitSend`, or it waits or is over. -/
structure Begun (s : Link ι) (h : ι) (r : Link ι × Bool) : Prop where
  sound : SoundAt r.1 r.1.wire none
  wire : r.1.wire = s.wire
  conns : r.1.conns = s.conns
  phase : r.2 = true → (r.1.handlers h).phase = some .connect
  ready : r.2 = true → Ready s s.wire → Ready r.1 r.1.wire

/-- Handlers were moved, and no `SendData` follows. -/
theorem begun_of_moved (hS : SoundAt s s.wire none) (hM : Moved s s') : Begun s h (s', false) := by
  obtain ⟨hwire, -, -, hconns, -⟩ := hM.same
  exact ⟨by rw [hwire]; exact hS.moved hM, hwire, hconns, fun hf => absurd hf (by simp),
    fun hf => absurd hf (by simp)⟩

theorem Begun.of_same (hB : Begun s' h r) (hwire : s'.wire = s.wire) (hconns : s'.conns = s.conns)
    (hready : Ready s s.wire → Ready s' s'.wire) : Begun s h r :=
  ⟨hB.sound, hB.wire.trans hwire, hB.conns.trans hconns, hB.phase,
    fun hr h => hB.ready hr (hready h)⟩

/-- `n` bytes have been written to the connection; or none, and it has been closed. -/
def Grown (s s' : Link ι) (n : Nat) : Prop :=
  (∃ bytes, s'.wire = s.wire ++ bytes ∧ bytes.length = n ∧ s'.conns = s.conns) ∨
    n = 0 ∧ s'.wire = [] ∧ s'.conns ≠ s.conns

theorem grown_of_same (hwire : s'.wire = s.wire) (hconns : s'.conns = s.conns) : Grown s s' 0 :=
  .inl ⟨[], by rw [hwire, append_nil], rfl, hconns⟩

theorem Grown.of_same {s'' : Link ι} {n : Nat} (hG : Grown s' s'' n) (hwire : s'.wire = s.wire)
    (hconns : s'.conns = s.conns) : Grown s s'' n := by
  rwa [Grown, ← hwire, ← hconns]

theorem Grown.length_le (hG : Grown s s' 0) : s'.wire.length ≤ s.wire.length := by
  obtain ⟨bytes, hwire, hnil, -⟩ | ⟨-, hwire, -⟩ := hG
  · rw [hwire, length_append, hnil, Nat.add_zero]
  · rw [hwire]
    exact Nat.zero_le _

theorem Destroyed.grown (hD : Destroyed s s') : Grown s s' 0 := by
  by_cases hfd : s.fd < 0
  · exact grown_of_same (by rw [hD.wire, if_pos hfd]) (by rw [hD.conns, if_pos hfd])
  · refine .inr ⟨rfl, by rw [hD.wire, if_neg hfd], ?_⟩
    rw [hD.conns, if_neg hfd]
    exact Nat.succ_ne_self _

theorem SoundAt.destroyed (hS : SoundAt s s.wire none) (hD : Destroyed s s') :
    SoundAt s' s'.wire none := by
  obtain ⟨hrequests, hcalls⟩ := hD.same
  have hwritten (c : Nat) (hc : written s.wire c = 0) : written s'.wire c = 0 := by
    rw [hD.wire]
    split
    · exact hc
    · rfl
  have hnil (h : ι) : h ∉ s'.lists .send := by
    rw [hD.lists]
    exact not_mem_nil
  obtain ⟨hnumber, hdistinct⟩ := hS.numbered hD.call hD.inCall hcalls
  refine ⟨hD.listed, ?_, fun h hmem => absurd hmem (hnil h), fun h hout hphase => ?_, hnumber,
    hdistinct, fun c hc => hwritten c (hS.fresh c (hcalls ▸ hc)),
    fun c _ => .inr fun h hmem => absurd hmem (hnil h)⟩
  · rw [hD.wire, hrequests]
    split
    · exact hS.framed
    · exact framed_nil _
  · obtain ⟨hdata, hzero⟩ := hS.connecting h hout (hD.connect h hphase)
    rw [hD.data, hD.call, hrequests]
    exact ⟨hdata, hwritten _ hzero⟩

/-- Handlers were moved. -/
theorem SoundAt.of_moved (hS : SoundAt s s.wire none) (hM : Moved s s') :
    SoundAt s' s'.wire none := by
  rw [hM.same.1]
  exact hS.moved hM

theorem Moved.grown (hM : Moved s s') : Grown s s' 0 := grown_of_same hM.same.1 hM.same.2.2.2.1

variable [DecidableEq ι]

/-! ## The beginning of a call -/

/-- A request of which nothing is written may be any. -/
theorem unfinished_newCall (hS : SoundAt s wire out) (request : Request) {c : Nat}
    (hc : Unfinished (s.newCall h request).requests wire c) : Unfinished s.requests wire c := by
  have hne : c ≠ s.calls := fun heq => Nat.ne_of_gt hc.1 (hS.fresh c heq.symm.le)
  have hsame : (s.newCall h request).requests c = s.requests c := update_of_ne hne ..
  rwa [Unfinished, hsame] at hc

theorem SoundAt.newCall (hS : SoundAt s wire none) (hphase : (s.handlers h).phase = none)
    (request : Request) : SoundAt (s.newCall h request) wire none := by
  have hnot : h ∉ s.lists .send := hS.not_mem_send (by simp [hphase])
  have hself : (s.newCall h request).handlers h = { s.handlers h with
      call := s.calls, reqData := request.data, phase := some .connect } := update_self ..
  have hother (h' : ι) (hne : h' ≠ h) : (s.newCall h request).handlers h' = s.handlers h' :=
    update_of_ne hne ..
  have hrequest (c : Nat) (hc : c < s.calls) : (s.newCall h request).requests c = s.requests c :=
    update_of_ne hc.ne ..
  -- The number of the call is not that of another one.
  have hnew (h' : ι) (hphase' : ((s.newCall h request).handlers h').phase ≠ none)
      (hcall : ((s.newCall h request).handlers h').call = s.calls) : h' = h := by
    by_contra hne
    rw [hother h' hne] at hphase' hcall
    exact absurd hcall (Nat.ne_of_lt (hS.calls h' hphase'))
  refine ⟨listed_setHandler hS.listed rfl, hS.framed.congr fun c hc => ?_, fun h' hmem => ?_,
    fun h' hout hphase' => ?_, fun h' hphase' => ?_, fun h₁ h₂ hphase₁ hphase₂ hcall => ?_,
    fun c hc => hS.fresh c (Nat.le_of_succ_le hc), fun c hc => ?_⟩
  · exact hrequest c (not_le.1 fun hle => hc (hS.fresh c hle))
  · have hne : h' ≠ h := fun heq => hnot (heq ▸ hmem)
    have hsend := hS.sending h' hmem
    rw [hother h' hne, hrequest _ (hS.calls h' (by simp [hsend.1]))]
    exact hsend
  · by_cases heq : h' = h
    · rw [heq, hself]
      exact ⟨(update_self s.calls request.data s.requests).symm, hS.fresh _ le_rfl⟩
    · rw [hother h' heq] at hphase' ⊢
      rw [hrequest _ (hS.calls h' (by simp [hphase']))]
      exact hS.connecting h' hout hphase'
  · by_cases heq : h' = h
    · rw [heq, hself]
      exact Nat.lt_succ_self _
    · rw [hother h' heq] at hphase' ⊢
      exact Nat.lt_succ_of_lt (hS.calls h' hphase')
  · by_cases heq₁ : h₁ = h
    · rw [heq₁, hself] at hcall
      exact heq₁.trans (hnew h₂ hphase₂ hcall.symm).symm
    · by_cases heq₂ : h₂ = h
      · rw [heq₂, hself] at hcall
        exact (hnew h₁ hphase₁ hcall).trans heq₂.symm
      · rw [hother h₁ heq₁] at hphase₁ hcall
        rw [hother h₂ heq₂] at hphase₂ hcall
        exact hS.distinct h₁ h₂ hphase₁ hphase₂ hcall
  · obtain ⟨h', items, hsend, hcall⟩ | hall := hS.order c (unfinished_newCall hS request hc)
    · have hne : h' ≠ h := fun heq => hnot (heq ▸ hsend ▸ mem_cons_self)
      exact .inl ⟨h', items, hsend, by rw [hother h' hne, hcall]⟩
    · refine .inr fun h' hmem => ?_
      rw [hother h' fun heq => hnot (heq ▸ hmem)]
      exact hall h' hmem

/-- `WaitConnect` goes on, waits or gives up, and up to there no handler has changed. -/
theorem waitConnect_cases (s : Link ι) (h : ι) (sock : Option { fd : Int // 0 < fd }) (ok : Bool) :
    ∃ t : Link ι,
      (∃ fd events proxy connected connecting, t =
        { s with
          fd := fd
          events := events
          proxy := proxy
          connected := connected
          connecting := connecting }) ∧
      (s.waitConnect h sock ok = (t, true) ∨ s.waitConnect h sock ok = (t.switchToConn h, false) ∨
        s.waitConnect h sock ok = (t.exit h, false)) := by
  obtain ⟨fd, events, proxy, hsock⟩ := createSock_eq s sock
  obtain ⟨connected, connecting, hconn⟩ := connect_eq (s.createSock sock).1 ok
  unfold waitConnect
  dsimp only
  split
  · refine ⟨((s.createSock sock).1.connect ok).1,
      ⟨fd, events, proxy, connected, connecting, ?_⟩, ?_⟩
    · rw [hconn, hsock]
    · split
      next hret => exact .inl (Prod.ext rfl hret)
      · exact .inr (.inl rfl)
  · exact ⟨(s.createSock sock).1, ⟨fd, events, proxy, s.connected, s.connecting, hsock⟩,
      .inr (.inr rfl)⟩

section

variable (hS : SoundAt s s.wire none)

include hS

theorem begun_waitConnect
    (hphase : (s.handlers h).phase = some .connect) (sock : Option { fd : Int // 0 < fd })
    (ok : Bool) : Begun s h (s.waitConnect h sock ok) := by
  obtain ⟨t, ⟨fd, events, proxy, connected, connecting, ht⟩, hcases⟩ :=
    waitConnect_cases s h sock ok
  have hS₁ : SoundAt t t.wire none := ht ▸ hS.congr rfl rfl rfl rfl
  have hready₁ (hready : Ready s s.wire) : Ready t t.wire :=
    ht ▸ hready.of_send rfl (fun _ _ => rfl) fun _ hc => hc
  have hwire : t.wire = s.wire := ht ▸ rfl
  have hconns : t.conns = s.conns := ht ▸ rfl
  obtain heq | heq | heq := hcases <;> rw [heq]
  · exact ⟨hS₁, hwire, hconns, fun _ => ht ▸ hphase, fun _ => hready₁⟩
  · exact (begun_of_moved hS₁ (moved_switchTo hS₁.listed (by decide) h)).of_same hwire hconns
      hready₁
  · exact (begun_of_moved hS₁ (moved_exit hS₁.listed h)).of_same hwire hconns hready₁

theorem begun_beginCall (hphase : (s.handlers h).phase = none)
    (request : Request) (accepted : Bool) (sock : Option { fd : Int // 0 < fd }) (ok : Bool) :
    Begun s h (s.beginCall h request accepted sock ok) := by
  have hS₁ : SoundAt (s.newCall h request) (s.newCall h request).wire none :=
    hS.newCall hphase request
  have hnot : h ∉ s.lists .send := hS.not_mem_send (by simp [hphase])
  have hcall (h' : ι) (hmem : h' ∈ s.lists .send) :
      ((s.newCall h request).handlers h').call = (s.handlers h').call := by
    have hne : h' ≠ h := fun heq => hnot (heq ▸ hmem)
    exact congrArg NetHandler.call (update_of_ne hne ..)
  have hready₁ (hready : Ready s s.wire) :
      Ready (s.newCall h request) (s.newCall h request).wire :=
    hready.of_send rfl hcall fun _ hc => unfinished_newCall hS request hc
  unfold beginCall
  split
  · exact (begun_of_moved hS₁ (moved_exit hS₁.listed h)).of_same rfl rfl hready₁
  · have hmoved : Moved (s.newCall h request) ((s.newCall h request).link h) :=
      moved_enlist hS₁.listed (by decide) h
    obtain ⟨hwire, hrequests, -, hconns, -⟩ := hmoved.same
    have hphase₁ : ((s.newCall h request).handlers h).phase = some .connect :=
      by simp [newCall]
    refine (begun_waitConnect (hwire ▸ hS₁.moved hmoved) ?_ sock ok).of_same hwire hconns
      fun hready => ?_
    · rw [link, handlers_enlist, if_pos rfl]
      exact hphase₁
    · rw [hwire]
      refine (hready₁ hready).of_send (send_enlist hS₁.listed (by decide) hnot)
        (fun h' _ => hmoved.call h') fun _ hc => hrequests ▸ hc

theorem begun_resumeConnect
    (hphase : (s.handlers h).phase = some .connect) : Begun s h (s.resumeConnect h) := by
  have hmoved : Moved s (s.switchToIdle h) := moved_switchTo hS.listed (by decide) h
  obtain ⟨hwire, hrequests, -, hconns, -⟩ := hmoved.same
  have hnot : h ∉ s.lists .send := hS.not_mem_send (by simp [hphase])
  have hS₁ : SoundAt (s.switchToIdle h) (s.switchToIdle h).wire none := hwire ▸ hS.moved hmoved
  have hready₁ (hready : Ready s s.wire) : Ready (s.switchToIdle h) (s.switchToIdle h).wire := by
    rw [hwire]
    exact hready.of_send (send_switchTo hS.listed (by decide) hnot) (fun h' _ => hmoved.call h')
      fun _ hc => hrequests ▸ hc
  have hexit : Begun s h ((s.switchToIdle h).exit h, false) :=
    (begun_of_moved hS₁ (moved_exit hS₁.listed h)).of_same hwire hconns hready₁
  unfold resumeConnect
  dsimp only
  split
  · exact hexit
  · split
    · exact ⟨hS₁, hwire, hconns, fun _ => by rw [switchToIdle, (switchTo_handler ..).2.2.2, hphase],
        fun _ => hready₁⟩
    · exact hexit

end

/-! ## Steps -/

/-- `SendCacheTcp` writes what `writev` takes. -/
theorem grown_sendCacheTcp (hL : Listed s) (data : Option (Nat × List UInt8)) (room : Room) :
    Grown s (s.sendCacheTcp data room).1 (takes (s.gather data) room) := by
  unfold takes
  cases hw : writev (s.gather data) room with
  | error errno =>
    cases errno with
    | again => exact grown_of_same (by rw [sendCacheTcp_again hw]) (by rw [sendCacheTcp_again hw])
    | other => exact grown_of_same (by rw [sendCacheTcp_other hw]) (by rw [sendCacheTcp_other hw])
  | ok n =>
    have hL' : Listed { s with wire := s.wire ++ (bytesOf (s.gather data)).take n } := hL
    obtain ⟨hwire, -, -, hconns, -⟩ := (shifted_skipItems hL' rfl n).1.same
    rw [(sendCacheTcp_ok hw).1]
    exact .inl ⟨_, hwire, length_take_of_le (writev_le hw), hconns⟩

theorem grown_waitSend (hL : Listed s) (hlinked : (s.handlers h).list ≠ none) (room : Room) :
    Grown s (s.waitSend h room)
      (takes (s.gather (some ((s.handlers h).call, (s.handlers h).reqData))) room) := by
  obtain ⟨hwire, -, -, hconns, -⟩ := waitSend_same hlinked room
  obtain ⟨-, -, -, -, -, hwire', hconns', -⟩ := sendData_same s h room
  have hgrown := grown_sendCacheTcp hL (some ((s.handlers h).call, (s.handlers h).reqData)) room
  rwa [Grown, ← hwire', ← hwire, ← hconns', ← hconns] at hgrown

theorem grown_destroy (hL : Listed s) : Grown s s.destroy 0 := (destroyed_destroy hL).grown

theorem SoundAt.destroy (hS : SoundAt s s.wire none) (errno : Int) :
    SoundAt (Link.destroy { s with errno := errno }) (Link.destroy { s with errno := errno }).wire
      none := by
  have hS' : SoundAt { s with errno := errno } s.wire none := hS.congr rfl rfl rfl rfl
  exact SoundAt.destroyed hS' (destroyed_destroy hS'.listed)

/-- A call that has come to `WaitSend` goes on there. -/
theorem Begun.grown (hB : Begun s h r) (room : Room) {own : Option (Nat × List UInt8)}
    (hown : match sender r h with
      | none => own = none
      | some (t, h') => ∃ d, own = some d ∧ Sends s d t h') :
    Grown s (if r.2 then r.1.waitSend h room else r.1)
      (match own.map fun d => s.gather (some d) with
      | some iov => takes iov room
      | none => 0) := by
  by_cases hret : r.2 = true
  · rw [if_pos hret]
    by_cases hlinked : (r.1.handlers h).list = none
    · have hsender : sender r h = none := if_neg fun hboth => hboth.2 hlinked
      have heq : r.1.waitSend h room = r.1.exit h := if_pos hlinked
      obtain ⟨hwire, -, -, hconns, -⟩ := exit_same r.1 h
      rw [hsender] at hown
      rw [hown, heq]
      exact grown_of_same (hwire.trans hB.wire) (hconns.trans hB.conns)
    · have hsender : sender r h = some (r.1, h) := if_pos ⟨hret, hlinked⟩
      rw [hsender] at hown
      obtain ⟨d, rfl, hsends⟩ := hown
      have hgrown := grown_waitSend hB.sound.listed hlinked room
      rw [hsends.own, hsends.gather] at hgrown
      exact hgrown.of_same hB.wire hB.conns
  · have hsender : sender r h = none := if_neg fun hboth => hret hboth.1
    rw [hsender] at hown
    rw [if_neg hret, hown]
    exact grown_of_same hB.wire hB.conns

theorem Begun.goOn (hB : Begun s h r) (hS : SoundAt s s.wire none) (room : Room)
    (hquiet : s.Abandoned → (if r.2 then r.1.waitSend h room else r.1).wire.length ≤ s.wire.length) :
    SoundAt (if r.2 then r.1.waitSend h room else r.1)
      (if r.2 then r.1.waitSend h room else r.1).wire none := by
  split
  next hret =>
    refine hB.sound.waitSend (hB.phase hret) room fun hlt =>
      hB.ready hret (hS.ready fun habandoned => ?_)
    have hle := hquiet habandoned
    rw [if_pos hret, ← hB.wire] at hle
    omega
  · exact hB.sound

/-! ### Notifications -/

section

variable (hS : SoundAt s s.wire none)

include hS

theorem SoundAt.connectDone :
    SoundAt s.connectDone s.connectDone.wire none ∧ s.connectDone.wire = s.wire ∧
      s.connectDone.conns = s.conns ∧
      (Ready s s.wire → Ready s.connectDone s.connectDone.wire) := by
  obtain ⟨hmoved, hsend⟩ := connectDone_spec hS.listed
  obtain ⟨hwire, hrequests, -, hconns, -⟩ := hmoved.same
  have hS' : SoundAt { s with connected := s.connecting || s.connected } s.wire none :=
    hS.congr rfl rfl rfl rfl
  rw [hwire]
  exact ⟨hS'.moved hmoved, rfl, hconns, fun hready => hready.of_send hsend
    (fun h _ => hmoved.call h) fun _ hc => hrequests ▸ hc⟩

theorem grown_outputNotify (room : Room) :
    Grown s (s.outputNotify room) (takes (s.gather none) room) := by
  obtain ⟨hS₁, hwire, hconns, -⟩ := hS.connectDone
  obtain ⟨hmoved, hsend⟩ := connectDone_spec hS.listed
  have hgather : s.connectDone.gather none = s.gather none :=
    gather_congr hsend (fun h _ => Prod.ext (hmoved.call h) (hmoved.allData h)) none
  have hgrown := grown_sendCacheTcp hS₁.listed none room
  rw [hgather] at hgrown
  refine Grown.of_same ?_ hwire hconns
  unfold outputNotify
  dsimp only
  split
  next hneg =>
    have hzero : takes (s.gather none) room = 0 := by
      rw [← hgather]
      exact takes_of_failed hneg
    rw [sendCacheTcp_neg hneg, hzero]
    have hL : Listed { s.connectDone with errno := RC_SEND_FAIL } := hS₁.listed
    exact grown_destroy hL
  · split <;> exact hgrown

theorem SoundAt.outputNotify (room : Room)
    (hquiet : s.Abandoned → (s.outputNotify room).wire.length ≤ s.wire.length) :
    SoundAt (s.outputNotify room) (s.outputNotify room).wire none := by
  obtain ⟨hS₁, hwire, -, hready⟩ := hS.connectDone
  unfold Link.outputNotify at hquiet ⊢
  dsimp only at hquiet ⊢
  split
  next hneg =>
    rw [sendCacheTcp_neg hneg]
    exact hS₁.destroy _
  next hnonneg =>
  rw [if_neg hnonneg] at hquiet
  rw [apply_ite Link.wire, ite_self] at hquiet
  obtain ⟨wire, hS₂, hwire₂, -⟩ := hS₁.sendCacheTcp none room fun hlt => hready (hS.ready
    fun habandoned => by
      have hle : (s.connectDone.sendCacheTcp none room).1.wire.length ≤ s.wire.length :=
        hquiet habandoned
      rw [hwire] at hlt
      omega)
  have hwire₂' : (s.connectDone.sendCacheTcp none room).1.wire = wire := by
    simpa [bytesOf] using hwire₂
  have hS₃ : SoundAt (s.connectDone.sendCacheTcp none room).1
      (s.connectDone.sendCacheTcp none room).1.wire none := hwire₂' ▸ hS₂
  split
  · exact hS₃.congr rfl rfl rfl rfl
  · exact hS₃

end

/-! ### All of them -/

/-- If a request has been abandoned in the middle, `writev` takes nothing of what the step offers.
-/
def Calm (s : Link ι) (a : Act ι) : Prop := s.Abandoned → s.taken a = 0

/-- Handlers that only leave, in a step of a call that waits to send or to receive. -/
theorem moved_resume (hL : Listed s) (h : ι) (hphase : (s.handlers h).phase ≠ none) :
    Moved s (let t := s.switchToIdle h
      if (t.handlers h).errNo ≠ 0 then t.exit h
      else if (t.handlers h).reqData = [] then t.waitRecv h else t.exit h) ∧
    Moved s ((s.switchToIdle h).exit h) := by
  have hmoved : Moved s (s.switchToIdle h) := moved_switchTo hL (by decide) h
  have hexit := hmoved.trans (moved_exit hmoved.listed h)
  have hphase' : ((s.switchToIdle h).handlers h).phase ≠ none := by
    rwa [switchToIdle, (switchTo_handler ..).2.2.2]
  refine ⟨?_, hexit⟩
  dsimp only
  split
  · exact hexit
  · split
    · exact hmoved.trans (moved_waitRecv hmoved.listed hphase')
    · exact hexit

section

variable (hS : SoundAt s s.wire none)

include hS

/-- **What a step writes**: what `writev` takes. -/
theorem grown_step (a : Act ι) : Grown s (s.step a) (s.taken a) := by
  have hsending (h : ι) (hmem : h ∈ s.lists .send) := (hS.sending h hmem).1
  cases a with
  | sendRecv h request accepted sock ok room =>
    by_cases hphase : (s.handlers h).phase = none
    · have hspec := beforeSend_spec hS.listed hsending (.sendRecv h request accepted sock ok room)
      unfold beforeSend at hspec
      unfold step
      simp only [hphase, if_true] at hspec ⊢
      exact (begun_beginCall hS hphase request accepted sock ok).grown room hspec
    · have hstep : s.step (.sendRecv h request accepted sock ok room) = s := if_neg hphase
      have hnone : s.ownData (.sendRecv h request accepted sock ok room) = none :=
        if_neg fun hall => hphase hall.1
      unfold taken offered
      dsimp only
      rw [hstep, hnone]
      exact grown_of_same rfl rfl
  | resume h room =>
    by_cases hphase : (s.handlers h).phase = some .connect
    · have hspec := beforeSend_spec hS.listed hsending (.resume h room)
      unfold beforeSend at hspec
      unfold step
      simp only [hphase, if_true] at hspec ⊢
      exact (begun_resumeConnect hS hphase).grown room hspec
    · have hnone : s.ownData (.resume h room) = none := if_neg fun hall => hphase hall.1
      unfold step taken offered
      dsimp only
      rw [hnone]
      split
      · exact grown_of_same rfl rfl
      next hconnect => exact absurd hconnect hphase
      next hsend => exact (moved_resume hS.listed h (by simp [hsend])).1.grown
      next hrecv => exact (moved_resume hS.listed h (by simp [hrecv])).2.grown
  | output room =>
    unfold step taken offered
    dsimp only
    split
    · exact grown_of_same rfl rfl
    · exact grown_outputNotify hS room
  | input sessions failed =>
    have hmoved := moved_switchToIdle_all sessions hS.listed
    unfold step inputNotify
    dsimp only
    split
    · exact grown_of_same rfl rfl
    · split
      · exact hmoved.grown
      next errno =>
        have hL : Listed { sessions.foldl switchToIdle s with errno := errno } := hmoved.listed
        exact (grown_destroy hL).of_same hmoved.same.1 hmoved.same.2.2.2.1
  | hangup =>
    unfold step hangupNotify
    dsimp only
    split
    · exact grown_of_same rfl rfl
    · have hL : Listed { s with errno := RC_KQUEUE_ERROR } := hS.listed
      exact grown_destroy hL
  | timer => exact grown_destroy hS.listed

/-- **What a step preserves.** -/
theorem SoundAt.step {a : Act ι} (hcalm : s.Calm a) :
    SoundAt (s.step a) (s.step a).wire none := by
  have hquiet (habandoned : s.Abandoned) : (s.step a).wire.length ≤ s.wire.length := by
    have hgrown := grown_step hS a
    rw [hcalm habandoned] at hgrown
    exact hgrown.length_le
  cases a with
  | sendRecv h request accepted sock ok room =>
    unfold Link.step at hquiet ⊢
    dsimp only at hquiet ⊢
    split
    next hphase =>
      rw [if_pos hphase] at hquiet
      exact (begun_beginCall hS hphase request accepted sock ok).goOn hS room hquiet
    · exact hS
  | resume h room =>
    unfold Link.step at hquiet ⊢
    dsimp only at hquiet ⊢
    split
    · exact hS
    next hphase =>
      rw [hphase] at hquiet
      exact (begun_resumeConnect hS hphase).goOn hS room hquiet
    next hphase => exact hS.of_moved (moved_resume hS.listed h (by simp [hphase])).1
    next hphase => exact hS.of_moved (moved_resume hS.listed h (by simp [hphase])).2
  | output room =>
    unfold Link.step at hquiet ⊢
    dsimp only at hquiet ⊢
    split
    · exact hS
    next hfd =>
      rw [if_neg hfd] at hquiet
      exact hS.outputNotify room hquiet
  | input sessions failed =>
    have hS' := hS.of_moved (moved_switchToIdle_all sessions hS.listed)
    unfold Link.step inputNotify
    dsimp only
    split
    · exact hS
    · split
      · exact hS'
      · exact hS'.destroy _
  | hangup =>
    unfold Link.step hangupNotify
    dsimp only
    split
    · exact hS
    · exact hS.destroy _
  | timer => exact hS.destroy s.errno

/-- After the step the connection has whole requests and possibly a part of one more, and nothing
has been written if a request was abandoned in the middle, unless it is another connection. -/
structure Whole (s : Link ι) (a : Act ι) : Prop where
  framed : Framed (s.step a).requests (s.step a).wire
  quiet : s.Abandoned → (s.step a).conns = s.conns → (s.step a).wire = s.wire

theorem whole_iff_calm (a : Act ι) : s.Whole a ↔ s.Calm a := by
  have hgrown := grown_step hS a
  constructor
  · intro hW habandoned
    obtain ⟨bytes, hwire, hlen, hconns⟩ | ⟨hzero, -⟩ := hgrown
    · rw [hW.quiet habandoned hconns, self_eq_append_right] at hwire
      rw [← hlen, hwire, length_nil]
    · exact hzero
  · refine fun hcalm => ⟨(hS.step hcalm).framed, fun habandoned hsame => ?_⟩
    obtain ⟨bytes, hwire, hlen, -⟩ | ⟨-, -, hconns⟩ := hgrown
    · rw [hcalm habandoned, length_eq_zero_iff] at hlen
      rw [hwire, hlen, append_nil]
    · exact absurd hsame hconns

end

omit [DecidableEq ι] in
theorem soundAt_init (sendOnly : Bool) (maxfd : Nat) :
    SoundAt (init sendOnly maxfd : Link ι) [] none where
  listed _ := ⟨nodup_nil, fun _ => by simp [init]⟩
  framed := framed_nil _
  sending _ hmem := absurd hmem not_mem_nil
  connecting _ _ hphase := by simp [init] at hphase
  calls _ hphase := absurd rfl hphase
  distinct _ _ hphase := absurd rfl hphase
  fresh _ _ := rfl
  order _ hc := absurd hc.1 (lt_irrefl 0)

/-- **The requests on a connection stay whole** exactly if `writev` takes nothing after a request
was abandoned in the middle. -/
theorem requests_whole_iff (sendOnly : Bool) (maxfd : Nat) (acts : List (Act ι)) :
    Run.Guarded step Whole (init sendOnly maxfd) acts ↔
      Run.Guarded step Calm (init sendOnly maxfd) acts :=
  Run.guarded_congr (P := fun s => SoundAt s s.wire none) (fun a _ _ hS => whole_iff_calm hS a)
    (fun _ a hS hW => hS.step ((whole_iff_calm hS a).1 hW)) (soundAt_init sendOnly maxfd)

/-- The first request is written in part and its thread gives up; then the second one is written. -/
def stalledRun : List (Act Bool) :=
  [.sendRecv true ⟨[1, 2, 3], by decide⟩ true (some ⟨7, by decide⟩) true (.ok 1),
    .resume true (.ok 0),
    .sendRecv false ⟨[9], by decide⟩ true none true (.ok 5)]

theorem requests_not_whole : ¬∀ acts : List (Act Bool),
    Run.Guarded step Whole (init false 10) acts := by
  intro h
  have hwhole := (h stalledRun).2.2.1
  have habandoned : Abandoned ((stalledRun.take 2).foldl step (init false 10)) :=
    ⟨0, ⟨by decide, by decide⟩, by decide⟩
  exact absurd (hwhole.quiet habandoned (by decide)) (by decide)

end FStack.MicroThread.Link
