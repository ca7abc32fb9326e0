import FStack.MicroThread.LinkLists

/-!
# Micro threads: what is written to a link

Requests of many threads are written to one connection, in pieces. `Sound` says that the connection
has whole requests and a part of one more (`Framed`), and that every handler that waits to send has
to send just what is not written yet.

Only the first handler in `_wait_send` can have a part of its request written (`order`), so what is
written next goes on with that part. But the handler may leave the list first, when its time is over
or a response for it has come, and nothing is done about the connection then (`Abandoned`): whatever
is written next is in the middle of a request.
-/

namespace FStack.MicroThread.Link

open List FStack.Lib

variable {ι : Type} {s s' : Link ι} {h h' : ι} {items : List ι} {wire : List (Nat × UInt8)}
  {out : Option ι} {n c d : Nat}

/-- A request has been written in part, and its caller does not wait to send any more. -/
def Abandoned (s : Link ι) : Prop :=
  ∃ c, Unfinished s.requests s.wire c ∧ ∀ h ∈ s.lists .send, (s.handlers h).call ≠ c

/-- The link is sound, with `wire` written to the connection. The handler `out` is about to leave
`WaitConnect`. -/
structure SoundAt (s : Link ι) (wire : List (Nat × UInt8)) (out : Option ι) : Prop where
  listed : Listed s
  framed : Framed s.requests wire
  sending : ∀ h ∈ s.lists .send, (s.handlers h).phase = some .send ∧ (s.handlers h).reqData ≠ [] ∧
    (s.handlers h).reqData =
      (s.requests (s.handlers h).call).drop (written wire (s.handlers h).call)
  connecting : ∀ h, out ≠ some h → (s.handlers h).phase = some .connect →
    (s.handlers h).reqData = s.requests (s.handlers h).call ∧ written wire (s.handlers h).call = 0
  calls : ∀ h, (s.handlers h).phase ≠ none → (s.handlers h).call < s.calls
  distinct : ∀ h h', (s.handlers h).phase ≠ none → (s.handlers h').phase ≠ none →
    (s.handlers h).call = (s.handlers h').call → h = h'
  fresh : ∀ c, s.calls ≤ c → written wire c = 0
  order : ∀ c, Unfinished s.requests wire c →
    (∃ h items, s.lists .send = h :: items ∧ (s.handlers h).call = c) ∨
      ∀ h ∈ s.lists .send, (s.handlers h).call ≠ c

/-- Only what waits first to send can be written in part. -/
def Ready (s : Link ι) (wire : List (Nat × UInt8)) : Prop :=
  ∀ c, Unfinished s.requests wire c →
    ∃ h items, s.lists .send = h :: items ∧ (s.handlers h).call = c

theorem SoundAt.ready (hS : SoundAt s s.wire out) (hnot : ¬s.Abandoned) : Ready s s.wire :=
  fun c hc => (hS.order c hc).resolve_right fun hall => hnot ⟨c, hc, hall⟩

/-- What else there is to a link does not matter. -/
theorem SoundAt.congr (hS : SoundAt s wire out) (hlists : s'.lists = s.lists)
    (hhandlers : s'.handlers = s.handlers) (hrequests : s'.requests = s.requests)
    (hcalls : s'.calls = s.calls) : SoundAt s' wire out := by
  cases s
  cases hlists
  cases hhandlers
  cases hrequests
  cases hcalls
  exact ⟨hS.listed, hS.framed, hS.sending, hS.connecting, hS.calls, hS.distinct, hS.fresh, hS.order⟩

theorem SoundAt.not_mem_send (hS : SoundAt s wire out)
    (hphase : (s.handlers h).phase ≠ some .send) : h ∉ s.lists .send :=
  fun hmem => hphase (hS.sending h hmem).1

/-- The calls keep their numbers, and none begins. -/
theorem SoundAt.numbered (hS : SoundAt s wire out)
    (hcall : ∀ h, (s'.handlers h).call = (s.handlers h).call)
    (hin : ∀ h, (s'.handlers h).phase ≠ none → (s.handlers h).phase ≠ none)
    (hcalls : s'.calls = s.calls) :
    (∀ h, (s'.handlers h).phase ≠ none → (s'.handlers h).call < s'.calls) ∧
      ∀ h h', (s'.handlers h).phase ≠ none → (s'.handlers h').phase ≠ none →
        (s'.handlers h).call = (s'.handlers h').call → h = h' := by
  simp only [hcall, hcalls]
  exact ⟨fun h hphase => hS.calls h (hin h hphase),
    fun h h' hphase hphase' => hS.distinct h h' (hin h hphase) (hin h' hphase')⟩

/-! ## Moves -/

/-- The first handler stays first or leaves. -/
theorem head_of_sublist {l l' : List ι} (hsub : l'.Sublist (h :: l)) (hmem : h ∈ l')
    (hnodup : (h :: l).Nodup) : ∃ items, l' = h :: items := by
  cases hsub with
  | cons _ hsub => exact absurd (hsub.subset hmem) (nodup_cons.1 hnodup).1
  | cons_cons _ _ => exact ⟨_, rfl⟩

theorem SoundAt.moved (hS : SoundAt s wire out) (hM : Moved s s') : SoundAt s' wire out := by
  obtain ⟨-, hrequests, hcalls, -⟩ := hM.same
  obtain ⟨hnumber, hdistinct⟩ := hS.numbered hM.call (fun _ => hM.inCall) hcalls
  refine ⟨hM.listed, hrequests ▸ hS.framed, fun h hmem => ?_, fun h hout hphase => ?_, hnumber,
    hdistinct, fun c hc => hS.fresh c (hcalls ▸ hc), fun c hc => ?_⟩
  · obtain ⟨hphase, hne, hdata⟩ := hS.sending h (hM.send.subset hmem)
    obtain hsame | ⟨-, hnot, -⟩ := hM.phase h
    · rw [hM.call, hM.allData, hrequests, hsame]
      exact ⟨hphase, hne, hdata⟩
    · exact absurd hmem hnot
  · rw [hM.call, hM.allData, hrequests]
    exact hS.connecting h hout (hM.connect hphase)
  · obtain ⟨h, items, hsend, hcall⟩ | hall := hS.order c (hrequests ▸ hc)
    · by_cases hmem : h ∈ s'.lists .send
      · have hnodup := (hS.listed .send).nodup
        rw [hsend] at hnodup
        obtain ⟨items', heq⟩ := head_of_sublist (hsend ▸ hM.send) hmem hnodup
        exact .inl ⟨h, items', heq, (hM.call h).trans hcall⟩
      · -- The first one has left, and the others are other calls.
        refine .inr fun h' hmem' hcall' => hmem ?_
        have hin : h ∈ s.lists .send := hsend ▸ mem_cons_self
        have hphase := (hS.sending h hin).1
        have hphase' := (hS.sending h' (hM.send.subset hmem')).1
        rw [hM.call] at hcall'
        rwa [hS.distinct h h' (by simp [hphase]) (by simp [hphase']) (hcall.trans hcall'.symm)]
    · exact .inr fun h hmem => hM.call h ▸ hall h (hM.send.subset hmem)

/-! ## Writing -/

section Write

variable [DecidableEq ι]

omit [DecidableEq ι] in
theorem SoundAt.call_ne (hS : SoundAt s wire out) (hphase : (s.handlers h).phase ≠ none)
    (hphase' : (s.handlers h').phase ≠ none) (hne : h' ≠ h) :
    (s.handlers h').call ≠ (s.handlers h).call :=
  fun heq => hne (hS.distinct h' h hphase' hphase heq)

theorem written_write (wire : List (Nat × UInt8)) (bytes : List UInt8) (hne : d ≠ c) :
    written (wire ++ bytes.map (Prod.mk c)) d = written wire d := by
  rw [written_append, written_map, if_neg (Ne.symm hne), add_zero]

/-- Another call is as unfinished as before. -/
theorem unfinished_write {msg : Nat → List UInt8} {bytes : List UInt8} (hne : d ≠ c)
    (hd : Unfinished msg (wire ++ bytes.map (Prod.mk c)) d) : Unfinished msg wire d := by
  rwa [Unfinished, written_write wire bytes hne] at hd

/-- **The first handler in `_wait_send` has sent** as much as it could. -/
theorem SoundAt.skipItem (hS : SoundAt s wire out) (hsend : s.lists .send = h :: items)
    (hready : Ready s wire) (n : Nat) :
    SoundAt (s.skipItem h n).1
      (wire ++ ((s.handlers h).reqData.take n).map (Prod.mk (s.handlers h).call)) out ∧
    ∀ c, Unfinished s.requests
        (wire ++ ((s.handlers h).reqData.take n).map (Prod.mk (s.handlers h).call)) c →
      n < (s.handlers h).reqData.length ∧ c = (s.handlers h).call := by
  have hmem : h ∈ s.lists .send := hsend ▸ mem_cons_self
  have hnodup : (h :: items).Nodup := hsend ▸ (hS.listed .send).nodup
  have hshift := shifted_skipItem hS.listed hmem n
  obtain ⟨-, hrequests, hcalls, -⟩ := hshift.same
  obtain ⟨hphase, hne, hdata⟩ := hS.sending h hmem
  have hin : (s.handlers h).phase ≠ none := by simp [hphase]
  have honly (c : Nat) (hc : Unfinished s.requests wire c) : c = (s.handlers h).call := by
    obtain ⟨h', items', hsend', rfl⟩ := hready c hc
    rw [hsend] at hsend'
    cases hsend'
    rfl
  have hlt : written wire (s.handlers h).call < (s.requests (s.handlers h).call).length :=
    not_le.1 fun hle => hne (hdata.trans (drop_eq_nil_of_le hle))
  have hlen : (s.handlers h).reqData.length =
      (s.requests (s.handlers h).call).length - written wire (s.handlers h).call :=
    (congrArg length hdata).trans (length_drop ..)
  have hunfinished (c : Nat) (hc : Unfinished s.requests
        (wire ++ ((s.handlers h).reqData.take n).map (Prod.mk (s.handlers h).call)) c) :
      n < (s.handlers h).reqData.length ∧ c = (s.handlers h).call := by
    have heq : c = (s.handlers h).call :=
      Decidable.byContradiction fun hne' => hne' (honly c (unfinished_write hne' hc))
    have hlt' := hc.2
    rw [heq, written_append, written_map, if_pos rfl, length_take] at hlt'
    omega
  obtain ⟨hnumber, hdistinct⟩ := hS.numbered hshift.call (fun _ => hshift.inCall) hcalls
  refine ⟨⟨hshift.listed, ?_, fun h' hmem' => ?_, fun h' hout hphase' => ?_, hnumber, hdistinct,
    fun c hc => ?_, fun c hc => ?_⟩, hunfinished⟩
  · rw [hrequests]
    have hwrite := hS.framed.write honly hlt n
    rwa [← hdata] at hwrite
  · by_cases hne' : h' = h
    · subst hne'
      -- It would not be in the list with nothing left to send.
      have hn : n < (s.handlers h').reqData.length := not_le.1 fun hge => by
        rw [send_skipItem hS.listed hsend hge] at hmem'
        exact (nodup_cons.1 hnodup).1 hmem'
      have hself : (s.skipItem h' n).1.handlers h' =
          { s.handlers h' with reqData := (s.handlers h').reqData.drop n } := by
        rw [skipItem_of_lt h' hn]
        exact Function.update_self ..
      rw [hself, hrequests, written_append, written_map, if_pos rfl, length_take,
        min_eq_left hn.le, ← drop_drop, ← hdata]
      refine ⟨hphase, fun hnil => ?_, rfl⟩
      rw [drop_eq_nil_iff] at hnil
      omega
    · have hphase' := (hS.sending h' (hshift.send.subset hmem')).1
      rw [handlers_skipItem_of_ne s n hne', hrequests,
        written_write _ _ (hS.call_ne hin (by simp [hphase']) hne')]
      exact hS.sending h' (hshift.send.subset hmem')
  · have hphase'' := hshift.connect hphase'
    have hne' : h' ≠ h := fun heq => by rw [heq, hphase] at hphase''; cases hphase''
    rw [handlers_skipItem_of_ne s n hne', hrequests,
      written_write _ _ (hS.call_ne hin (by simp [hphase'']) hne')]
    exact hS.connecting h' hout hphase''
  · rw [hcalls] at hc
    have hne' : c ≠ (s.handlers h).call := by
      have := hS.calls h hin
      omega
    rw [written_write _ _ hne']
    exact hS.fresh c hc
  · obtain ⟨hn, rfl⟩ := hunfinished c (hrequests ▸ hc)
    refine .inl ⟨h, items, ?_, hshift.call h⟩
    rw [skipItem_of_lt h hn]
    exact hsend

/-- What the handlers have to send. -/
def pending (s : Link ι) (items : List ι) : List (Nat × UInt8) :=
  items.flatMap fun h => (s.handlers h).reqData.map (Prod.mk (s.handlers h).call)

omit [DecidableEq ι] in
theorem pending_cons (s : Link ι) (h : ι) (items : List ι) : s.pending (h :: items) =
    (s.handlers h).reqData.map (Prod.mk (s.handlers h).call) ++ s.pending items :=
  flatMap_cons

theorem pending_skipItem (hnodup : (h :: items).Nodup) (n : Nat) :
    (s.skipItem h n).1.pending items = s.pending items := by
  refine congrArg _ (map_congr_left fun h' hmem => ?_)
  have hne : h' ≠ h := fun heq => (nodup_cons.1 hnodup).1 (heq ▸ hmem)
  rw [handlers_skipItem_of_ne s n hne]

/-- **The loop**: what is written is what the handlers had to send, in their order. -/
theorem SoundAt.skipItems (hS : SoundAt s wire out) (hready : Ready s wire)
    (hsend : s.lists .send = items) (n : Nat) :
    SoundAt (skipItems items s n).1 (wire ++ (s.pending items).take n) out ∧
      Ready (skipItems items s n).1 (wire ++ (s.pending items).take n) ∧
      (skipItems items s n).2 = n - (s.pending items).length := by
  induction items generalizing s wire n with
  | nil =>
    simp only [pending, Link.skipItems, flatMap_nil, take_nil, append_nil]
    exact ⟨hS, hready, rfl⟩
  | cons h items ih =>
    have hmem : h ∈ s.lists .send := hsend ▸ mem_cons_self
    have hnodup : (h :: items).Nodup := hsend ▸ (hS.listed .send).nodup
    have hshift := shifted_skipItem hS.listed hmem n
    obtain ⟨hS', hunfinished⟩ := hS.skipItem hsend hready n
    have hlen : ((s.handlers h).reqData.map (Prod.mk (s.handlers h).call)).length =
      (s.handlers h).reqData.length := length_map ..
    rw [pending_cons, take_append, hlen, length_append, hlen, ← map_take]
    obtain hn | hn := lt_or_ge n (s.handlers h).reqData.length
    · have hzero : (s.skipItem h n).2 = 0 := by rw [skipItem_of_lt h hn]
      rw [Link.skipItems, if_pos hzero, Nat.sub_eq_zero_of_le hn.le, take_zero,
        append_nil]
      refine ⟨hS', fun c hc => ⟨h, items, ?_, ?_⟩, by omega⟩
      · rw [skipItem_of_lt h hn]
        exact hsend
      · rw [hshift.call, (hunfinished c (hshift.same.2.1 ▸ hc)).2]
    · have hleft : (s.skipItem h n).2 = n - (s.handlers h).reqData.length := by
        rw [skipItem_of_ge h hn]
      have hready' : Ready (s.skipItem h n).1
          (wire ++ ((s.handlers h).reqData.take n).map (Prod.mk (s.handlers h).call)) :=
        fun c hc => by
          have := (hunfinished c (hshift.same.2.1 ▸ hc)).1
          omega
      rw [Link.skipItems]
      split
      next hzero =>
        rw [← hleft, hzero, take_zero, append_nil]
        exact ⟨hS', hready', by omega⟩
      · obtain ⟨hS'', hready'', hleft'⟩ := ih hS' hready'
          (send_skipItem hS.listed hsend hn) (s.skipItem h n).2
        rw [pending_skipItem hnodup, hleft, append_assoc] at hS'' hready''
        rw [pending_skipItem hnodup] at hleft'
        rw [hleft] at hleft' ⊢
        refine ⟨hS'', hready'', ?_⟩
        omega

/-- Nothing is written, and nothing changes. -/
theorem SoundAt.skipItems_zero (hS : SoundAt s wire out) (hsend : s.lists .send = items) :
    Link.skipItems items s 0 = (s, 0) := by
  cases items with
  | nil => rfl
  | cons h items =>
    have hne := (hS.sending h (hsend ▸ mem_cons_self)).2.1
    have hsame :
        s.setHandler h { s.handlers h with reqData := (s.handlers h).reqData.drop 0 } = s := by
      simp [setHandler]
    rw [Link.skipItems, skipItem_of_lt h (length_pos_iff.2 hne), hsame]
    rfl

end Write

/-! ## What is offered to `writev` -/

theorem bytesOf_gather (s : Link ι) (data : Option (Nat × List UInt8)) :
    bytesOf (s.gather data) = if (s.lists .send).length < 64
      then s.pending (s.lists .send) ++ bytesOf data.toList
      else s.pending ((s.lists .send).take 64) := by
  have hmap (items : List ι) : bytesOf (items.map fun h =>
      ((s.handlers h).call, (s.handlers h).reqData)) = s.pending items := flatMap_map ..
  have hlen : ((s.lists .send).take 64).length < 64 ↔ (s.lists .send).length < 64 := by
    rw [length_take]
    omega
  unfold gather
  simp only [length_map, hlen]
  split
  next hlt =>
    rw [take_of_length_le hlt.le, bytesOf, flatMap_append]
    exact congrArg (· ++ _) (hmap _)
  · exact hmap _

theorem length_bytesOf (iov : List (Nat × List UInt8)) :
    (bytesOf iov).length = (iov.map (·.2.length)).sum := by
  simp [bytesOf, length_flatMap]

/-- What is written is what waits, and only then the caller's data. -/
theorem take_gather (s : Link ι) (data : Option (Nat × List UInt8))
    (hn : n ≤ (bytesOf (s.gather data)).length) : (bytesOf (s.gather data)).take n =
      (s.pending (s.lists .send)).take n ++
        (bytesOf data.toList).take (n - (s.pending (s.lists .send)).length) := by
  rw [bytesOf_gather] at hn ⊢
  split
  · exact take_append
  next hge =>
    rw [if_neg hge] at hn
    have hsplit : s.pending (s.lists .send) =
        s.pending ((s.lists .send).take 64) ++ s.pending ((s.lists .send).drop 64) := by
      rw [pending, pending, pending, ← flatMap_append, take_append_drop]
    rw [hsplit, take_append_of_le_length hn, length_append,
      Nat.sub_eq_zero_of_le (Nat.le_trans hn (Nat.le_add_right ..)), take_zero, append_nil]

theorem writev_le {iov : List (Nat × List UInt8)} {room : Room} (hok : writev iov room = .ok n) :
    n ≤ (bytesOf iov).length := by
  unfold writev at hok
  split at hok
  · cases hok
  · split at hok
    · cases hok
    · cases hok
      rw [length_bytesOf]
      omega

section Send

variable [DecidableEq ι]

/-- **`SendCacheTcp`**: the handlers that wait have sent what they could, and what is left was
written of the caller's data. -/
theorem SoundAt.sendCacheTcp (hS : SoundAt s s.wire out) (data : Option (Nat × List UInt8))
    (room : Room)
    (hready : s.wire.length < (s.sendCacheTcp data room).1.wire.length → Ready s s.wire) :
    ∃ wire, SoundAt (s.sendCacheTcp data room).1 wire out ∧
      (s.sendCacheTcp data room).1.wire =
        wire ++ (bytesOf data.toList).take (s.sendCacheTcp data room).2.toNat ∧
      (0 < (s.sendCacheTcp data room).2 → Ready (s.sendCacheTcp data room).1 wire) := by
  cases hw : writev (s.gather data) room with
  | error errno =>
    refine ⟨s.wire, ?_⟩
    cases errno with
    | again =>
      rw [sendCacheTcp_again hw]
      exact ⟨hS, by simp, fun hlt => absurd hlt (by simp)⟩
    | other =>
      rw [sendCacheTcp_other hw]
      exact ⟨hS, by simp, fun hlt => absurd hlt (by simp)⟩
  | ok n =>
    obtain ⟨hfst, hsnd⟩ := sendCacheTcp_ok hw
    have hn := writev_le hw
    rw [hfst] at hready
    rw [hfst, hsnd, Int.toNat_natCast]
    have hS' : SoundAt { s with wire := s.wire ++ (bytesOf (s.gather data)).take n } s.wire out :=
      hS.congr rfl rfl rfl rfl
    by_cases hzero : n = 0
    · subst hzero
      rw [hS'.skipItems_zero rfl]
      exact ⟨s.wire, hS', by simp, fun hlt => absurd hlt (by simp)⟩
    · have hL' : Listed { s with wire := s.wire ++ (bytesOf (s.gather data)).take n } := hS.listed
      have hwire := (shifted_skipItems hL' rfl n).1.same.1
      have hready' : Ready s s.wire := hready (by
        rw [hwire, length_append, length_take]
        omega)
      obtain ⟨hsound, hready'', hleft⟩ := hS'.skipItems hready' rfl n
      refine ⟨_, hsound, ?_, fun _ => hready''⟩
      rw [hwire, hleft, append_assoc]
      exact congrArg (s.wire ++ ·) (take_gather s data hn)

/-! ## The caller -/

theorem SoundAt.settle (hS : SoundAt s wire (some h)) (hphase : (s.handlers h).phase ≠ some .connect) :
    SoundAt s wire none :=
  { hS with
    connecting := fun h' _ hphase' => by
      by_cases heq : h = h'
      · exact absurd (heq ▸ hphase') hphase
      · exact hS.connecting h' (fun hout => heq (Option.some.inj hout)) hphase' }

/-- A part of the caller's data has been written. -/
theorem SoundAt.skipOwn (hS : SoundAt s wire none) (hphase : (s.handlers h).phase = some .connect)
    {left : Nat} (hempty : left ≠ 0 → s.lists .send = [] ∧ Ready s wire) :
    SoundAt (s.skipSendPos h left).1
      (wire ++ ((s.handlers h).reqData.take left).map (Prod.mk (s.handlers h).call)) (some h) := by
  obtain ⟨hdata, hzero⟩ := hS.connecting h (by simp) hphase
  have hin : (s.handlers h).phase ≠ none := by simp [hphase]
  have hnot : h ∉ s.lists .send := hS.not_mem_send (by simp [hphase])
  have hother (h' : ι) (hne : h' ≠ h) : (s.skipSendPos h left).1.handlers h' = s.handlers h' := by
    rw [handlers_skipSendPos, if_neg hne]
  have hself (h' : ι) : ((s.skipSendPos h left).1.handlers h').call = (s.handlers h').call ∧
      ((s.skipSendPos h left).1.handlers h').phase = (s.handlers h').phase := by
    rw [handlers_skipSendPos]
    split
    next heq => exact heq ▸ ⟨rfl, rfl⟩
    · exact ⟨rfl, rfl⟩
  obtain ⟨hnumber, hdistinct⟩ := hS.numbered (fun h' => (hself h').1)
    (fun h' => (hself h').2.symm ▸ id) rfl
  refine ⟨listed_setHandler hS.listed rfl, ?_, fun h' hmem => ?_, fun h' hout hphase' => ?_,
    hnumber, hdistinct, fun c hc => ?_, fun c hc => ?_⟩
  · by_cases hnone : (s.handlers h).reqData.take left = []
    · rw [hnone, map_nil, append_nil]
      exact hS.framed
    · -- Nothing else is unfinished, since nobody waits to send.
      have hleft : left ≠ 0 := fun hleft => hnone (by rw [hleft, take_zero])
      have honly (c : Nat) (hc : Unfinished s.requests wire c) : c = (s.handlers h).call := by
        obtain ⟨h', items, hsend, -⟩ := (hempty hleft).2 c hc
        rw [(hempty hleft).1] at hsend
        cases hsend
      have hlt : written wire (s.handlers h).call < (s.requests (s.handlers h).call).length := by
        rw [hzero, ← hdata]
        exact length_pos_iff.2 fun hnil => hnone (by rw [hnil, take_nil])
      have hwrite := hS.framed.write honly hlt left
      rwa [hzero, drop_zero, ← hdata] at hwrite
  · have hne : h' ≠ h := fun heq => hnot (heq ▸ hmem)
    have hsend := hS.sending h' hmem
    rw [hother h' hne, written_write _ _ (hS.call_ne hin (by simp [hsend.1]) hne)]
    exact hsend
  · have hne : h' ≠ h := fun heq => hout (congrArg some heq.symm)
    rw [hother h' hne] at hphase' ⊢
    rw [written_write _ _ (hS.call_ne hin (by simp [hphase']) hne)]
    exact hS.connecting h' (by simp) hphase'
  · have hne : c ≠ (s.handlers h).call := fun heq => by
      have hlt := hS.calls h hin
      rw [← heq] at hlt
      exact not_le.2 hlt hc
    rw [written_write _ _ hne]
    exact hS.fresh c hc
  · by_cases heq : c = (s.handlers h).call
    · refine .inr fun h' hmem => ?_
      have hne : h' ≠ h := fun heq => hnot (heq ▸ hmem)
      rw [(hself h').1, heq]
      exact hS.call_ne hin (by simp [(hS.sending h' hmem).1]) hne
    · obtain ⟨h', items, hsend, hcall⟩ | hall := hS.order c (unfinished_write heq hc)
      · exact .inl ⟨h', items, hsend, (hself h').1.trans hcall⟩
      · exact .inr fun h' hmem => (hself h').1 ▸ hall h' hmem

/-- The caller waits to send the rest. -/
theorem SoundAt.join (hS : SoundAt s wire (some h)) (hphase : (s.handlers h).phase = some .connect)
    (hlinked : (s.handlers h).list ≠ none) (hne : (s.handlers h).reqData ≠ [])
    (hdata : (s.handlers h).reqData =
      (s.requests (s.handlers h).call).drop (written wire (s.handlers h).call))
    (hempty : written wire (s.handlers h).call ≠ 0 → s.lists .send = []) :
    SoundAt ((s.switchToSend h).setPhase h (some .send)) wire none := by
  have hin : (s.handlers h).phase ≠ none := by simp [hphase]
  have hnot : h ∉ s.lists .send := hS.not_mem_send (by simp [hphase])
  have hsend := lists_join hS.listed hlinked hnot
  have hhandlers := handlers_join hlinked
  have hcall (h' : ι) : (((s.switchToSend h).setPhase h (some .send)).handlers h').call =
      (s.handlers h').call := by
    rw [hhandlers]
    split
    next heq => rw [heq]
    · rfl
  have hinCall (h' : ι)
      (hphase' : (((s.switchToSend h).setPhase h (some .send)).handlers h').phase ≠ none) :
      (s.handlers h').phase ≠ none := by
    rw [hhandlers] at hphase'
    split at hphase'
    next heq => exact heq ▸ hin
    · exact hphase'
  have hrequests : ((s.switchToSend h).setPhase h (some .send)).requests = s.requests :=
    (switchTo_same ..).2.1
  have hcalls : ((s.switchToSend h).setPhase h (some .send)).calls = s.calls :=
    (switchTo_same ..).2.2.1
  obtain ⟨hnumber, hdistinct⟩ := hS.numbered hcall hinCall hcalls
  refine ⟨listed_setHandler (listed_switchTo hS.listed _ _) rfl, hrequests ▸ hS.framed,
    fun h' hmem => ?_, fun h' hout hphase' => ?_, hnumber, hdistinct,
    fun c hc => hS.fresh c (hcalls ▸ hc), fun c hc => ?_⟩
  · rw [hhandlers, hrequests]
    split
    · exact ⟨rfl, hne, hdata⟩
    next heq =>
      rw [hsend] at hmem
      refine hS.sending h' ((mem_append.1 hmem).resolve_right fun hmem => ?_)
      exact heq (mem_singleton.1 hmem)
  · rw [hhandlers] at hphase' ⊢
    split at hphase'
    · cases hphase'
    next heq =>
      rw [if_neg heq, hrequests]
      exact hS.connecting h' (fun hout => heq (Option.some.inj hout).symm) hphase'
  · rw [hrequests] at hc
    rw [hsend]
    by_cases heq : c = (s.handlers h).call
    · -- The part that is written is the caller's, and nobody else waits.
      have hnil := hempty (heq ▸ Nat.ne_of_gt hc.1)
      exact .inl ⟨h, [], by rw [hnil]; rfl, (hcall h).trans heq.symm⟩
    · obtain ⟨h', items, hitems, hcall'⟩ | hall := hS.order c hc
      · exact .inl ⟨h', items ++ [h], by rw [hitems]; rfl, (hcall h').trans hcall'⟩
      · refine .inr fun h' hmem => ?_
        rw [hcall]
        obtain hmem | hmem := mem_append.1 hmem
        · exact hall h' hmem
        · rw [mem_singleton.1 hmem]
          exact Ne.symm heq

/-- The caller goes on, after a part of its data has been written. -/
theorem SoundAt.own (hS : SoundAt s wire none) (left : Nat)
    (hphase : (s.handlers h).phase = some .connect) (hlinked : (s.handlers h).list ≠ none)
    (hempty : left ≠ 0 → s.lists .send = [] ∧ Ready s wire) :
    SoundAt (if ((s.skipSendPos h left).1.handlers h).reqData = []
        then (s.skipSendPos h left).1.waitRecv h
        else ((s.skipSendPos h left).1.switchToSend h).setPhase h (some .send))
      (wire ++ ((s.handlers h).reqData.take left).map (Prod.mk (s.handlers h).call)) none := by
  have hS' := hS.skipOwn hphase hempty
  obtain ⟨hdata, hzero⟩ := hS.connecting h (by simp) hphase
  have hself : (s.skipSendPos h left).1.handlers h =
      { s.handlers h with reqData := (s.handlers h).reqData.drop left } := by
    rw [handlers_skipSendPos, if_pos rfl]
  have hphase' : ((s.skipSendPos h left).1.handlers h).phase = some .connect := by
    rw [hself]
    exact hphase
  split
  · have hmoved := moved_waitRecv hS'.listed (h := h) (by simp [hphase'])
    exact (hS'.moved hmoved).settle (phase_waitRecv _ h)
  next hne =>
    refine hS'.join hphase' (by rw [hself]; exact hlinked) hne ?_ fun hwritten => ?_
    · have hlt : left < (s.handlers h).reqData.length := not_le.1 fun hge =>
        hne (by rw [hself, drop_eq_nil_of_le hge])
      rw [hself, written_append, written_map, if_pos rfl, hzero, length_take,
        min_eq_left hlt.le, zero_add]
      exact congrArg (drop left) hdata
    · refine (hempty fun hleft => hwritten ?_).1
      rw [hself, hleft, take_zero, map_nil, append_nil, hzero]

/-- **`WaitSend`** up to where it waits. -/
theorem SoundAt.waitSend (hS : SoundAt s s.wire none)
    (hphase : (s.handlers h).phase = some .connect) (room : Room)
    (hready : s.wire.length < (s.waitSend h room).wire.length → Ready s s.wire) :
    SoundAt (s.waitSend h room) (s.waitSend h room).wire none := by
  by_cases hlinked : (s.handlers h).list = none
  · have heq : s.waitSend h room = s.exit h := if_pos hlinked
    rw [heq, (exit_same s h).1]
    exact hS.moved (moved_exit hS.listed h)
  have hnot : h ∉ s.lists .send := hS.not_mem_send (by simp [hphase])
  obtain ⟨hret, hlists, hhandlers, hrequests, hcalls, hwire, -⟩ := sendData_same s h room
  have hself : (s.sendData h room).1.handlers h = s.handlers h := by
    rw [hhandlers, handlers_sendCacheTcp hnot]
  have hfinal : (s.waitSend h room).wire =
      (s.sendCacheTcp (some ((s.handlers h).call, (s.handlers h).reqData)) room).1.wire :=
    (waitSend_same hlinked room).1.trans hwire
  obtain ⟨-, -, hge, hnil⟩ := shifted_sendCacheTcp hS.listed
    (some ((s.handlers h).call, (s.handlers h).reqData)) room
  obtain ⟨wire, hsound, hwire', hready'⟩ := hS.sendCacheTcp
    (some ((s.handlers h).call, (s.handlers h).reqData)) room (hfinal ▸ hready)
  have hsound' : SoundAt (s.sendData h room).1 wire none :=
    hsound.congr hlists hhandlers hrequests hcalls
  rw [hfinal, hwire', ← hret, waitSend_of_linked hlinked]
  rw [← hret] at hready' hnil
  split
  next hneg =>
    rw [Int.toNat_of_nonpos (Int.le_of_lt hneg), take_zero, append_nil]
    exact hsound'.moved (moved_exit hsound'.listed h)
  next hnonneg =>
    have hown := hsound'.own (h := h) (s.sendData h room).2.toNat
      (by rw [hself]; exact hphase) (by rw [hself]; exact hlinked) fun hleft => by
        have hpos : 0 < (s.sendData h room).2 := by omega
        refine ⟨hlists ▸ hnil hpos, fun c hc => ?_⟩
        obtain ⟨h', items, hsend, hcall⟩ := hready' hpos c (hrequests ▸ hc)
        exact ⟨h', items, hlists ▸ hsend, hhandlers ▸ hcall⟩
    rw [hself] at hown
    have hbytes : (bytesOf (some ((s.handlers h).call, (s.handlers h).reqData)).toList).take
        (s.sendData h room).2.toNat =
          ((s.handlers h).reqData.take (s.sendData h room).2.toNat).map
            (Prod.mk (s.handlers h).call) := by
      simp [bytesOf, map_take]
    rw [hbytes]
    exact hown

end Send

end FStack.MicroThread.Link
