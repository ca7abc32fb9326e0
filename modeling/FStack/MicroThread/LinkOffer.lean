import FStack.MicroThread.LinkLists

/-!
# Micro threads: what a step offers to `writev`

A step calls `writev` at most once: in `SendData`, for a call that has come to it, or in
`OutputNotify`. All that `writev` gets then is known before the step: what waits to be sent, and the
data of the call (`ownData`, `offered`). How much of it is taken is up to the room (`taken`), and so
is whether something waits to be sent after `SendData` (`Unsent`).

`beforeSend_spec` connects this with the state in which `SendData` is called.
-/

namespace FStack.MicroThread.Link

open Function List FStack.Lib

variable {ι : Type} [DecidableEq ι] {s t : Link ι} {h : ι} {d : Nat × List UInt8}

/-- The data of the call for which the step calls `SendData`. A call that begins has to get a
descriptor and a connection; one that has waited for the connection has to have it. -/
def ownData (s : Link ι) : Act ι → Option (Nat × List UInt8)
  | .sendRecv h request accepted sock ok _ =>
    if (s.handlers h).phase = none ∧ request.data ≠ [] ∧ accepted = true ∧
        (s.createSock sock).2 = true ∧ (s.connected = true ∨ s.connecting = false ∧ ok = true) then
      some (s.calls, request.data)
    else none
  | .resume h _ =>
    if (s.handlers h).phase = some .connect ∧ (s.handlers h).list ≠ none ∧
        (s.handlers h).errNo = 0 ∧ s.connected = true then
      some ((s.handlers h).call, (s.handlers h).reqData)
    else none
  | _ => none

/-- The room that the step's `writev` finds. -/
def Act.room : Act ι → Room
  | .sendRecv _ _ _ _ _ room | .resume _ room | .output room => room
  | _ => .ok 0

/-- The pieces that the step offers to `writev`. -/
def offered (s : Link ι) (a : Act ι) : Option (List (Nat × List UInt8)) :=
  match a with
  | .output _ => if s.fd < 0 then none else some (s.gather none)
  | _ => (s.ownData a).map fun d => s.gather (some d)

/-- The bytes that `writev` takes. -/
def takes (iov : List (Nat × List UInt8)) (room : Room) : Nat :=
  match writev iov room with
  | .ok n => n
  | .error _ => 0

/-- The bytes that `writev` takes in the step. -/
def taken (s : Link ι) (a : Act ι) : Nat :=
  match s.offered a with
  | some iov => takes iov a.room
  | none => 0

/-- The bytes that wait to be sent. -/
def waiting (s : Link ι) : Nat := ((s.lists .send).map fun h => (s.handlers h).reqData.length).sum

/-- Something waits to be sent after `SendData` with the data `d`. If `writev` fails for good, the
call is over and those that have waited go on waiting. -/
def Unsent (s : Link ι) (d : Nat × List UInt8) (room : Room) : Prop :=
  match writev (s.gather (some d)) room with
  | .error .again => True
  | .error .other => s.lists .send ≠ []
  | .ok n => n < s.waiting + d.2.length

/-! ## What is left of the room -/

/-- The room that is left for the caller's data is what those that wait have not used. -/
theorem skipItems_left {items : List ι} (hnodup : items.Nodup) (s : Link ι) (n : Nat) :
    (skipItems items s n).2 = n - (items.map fun h => (s.handlers h).reqData.length).sum := by
  induction items generalizing s n with
  | nil => rfl
  | cons h items ih =>
    obtain ⟨hnot, hnodup⟩ := nodup_cons.1 hnodup
    have hrest : (items.map fun h' => ((s.skipItem h n).1.handlers h').reqData.length) =
        items.map fun h' => (s.handlers h').reqData.length :=
      map_congr_left fun h' hmem => by
        have hne : h' ≠ h := fun heq => hnot (heq ▸ hmem)
        rw [handlers_skipItem_of_ne s n hne]
    have hleft : (s.skipItem h n).2 = n - (s.handlers h).reqData.length := by
      obtain hlt | hge := lt_or_ge n (s.handlers h).reqData.length
      · rw [skipItem_of_lt h hlt]
        dsimp only
        omega
      · rw [skipItem_of_ge h hge]
    rw [skipItems, map_cons, sum_cons]
    split
    next hzero => omega
    · rw [ih hnodup, hrest, hleft]
      omega

theorem sendCacheTcp_left (hL : Listed s) {data : Option (Nat × List UInt8)} {room : Room} {n : Nat}
    (hw : writev (s.gather data) room = .ok n) :
    (s.sendCacheTcp data room).2 = ((n - s.waiting : Nat) : Int) := by
  rw [(sendCacheTcp_ok hw).2, skipItems_left (hL .send).nodup]
  rfl

theorem takes_of_failed {data : Option (Nat × List UInt8)} {room : Room}
    (hneg : (s.sendCacheTcp data room).2 < 0) : takes (s.gather data) room = 0 := by
  unfold takes
  cases hw : writev (s.gather data) room with
  | error errno => rfl
  | ok n =>
    rw [(sendCacheTcp_ok hw).2] at hneg
    omega

/-! ## The state in which `SendData` is called -/

/-- In `t` the handler `h` calls `SendData` with the data `d`, and the same handlers wait to send,
and the same data, as in `s`. -/
structure Sends (s : Link ι) (d : Nat × List UInt8) (t : Link ι) (h : ι) : Prop where
  own : ((t.handlers h).call, (t.handlers h).reqData) = d
  send : t.lists .send = s.lists .send
  data : ∀ h' ∈ s.lists .send, ((t.handlers h').call, (t.handlers h').reqData) =
    ((s.handlers h').call, (s.handlers h').reqData)

omit [DecidableEq ι] in
theorem gather_congr (hsend : t.lists .send = s.lists .send)
    (hdata : ∀ h' ∈ s.lists .send, ((t.handlers h').call, (t.handlers h').reqData) =
      ((s.handlers h').call, (s.handlers h').reqData)) (own : Option (Nat × List UInt8)) :
    t.gather own = s.gather own := by
  unfold gather
  rw [hsend, map_congr_left fun h' hmem => hdata h' (mem_of_mem_take hmem)]

omit [DecidableEq ι] in
theorem Sends.gather (hS : Sends s d t h) (own : Option (Nat × List UInt8)) :
    t.gather own = s.gather own :=
  gather_congr hS.send hS.data own

omit [DecidableEq ι] in
theorem Sends.unsent_iff (hS : Sends s d t h) (room : Room) :
    t.Unsent ((t.handlers h).call, (t.handlers h).reqData) room ↔ s.Unsent d room := by
  have hwaiting : t.waiting = s.waiting := by
    unfold waiting
    rw [hS.send, map_congr_left fun h' hmem => ?_]
    exact congrArg (fun piece => piece.2.length) (hS.data h' hmem)
  unfold Unsent
  rw [hS.own, hS.gather, hwaiting, hS.send]

omit [DecidableEq ι] in
/-- `CreateSock` looks at the descriptor and at what is registered. -/
theorem createSock_congr (hfd : t.fd = s.fd) (hevents : t.events = s.events)
    (hproxy : t.proxy = s.proxy) (sock : Option { fd : Int // 0 < fd }) :
    (t.createSock sock).2 = (s.createSock sock).2 := by
  unfold createSock
  rw [hfd, hevents, hproxy]
  split
  · rfl
  · split
    · rfl
    · dsimp only
      split <;> rfl

/-- When `WaitConnect` goes on, and that it has changed no handler by then. -/
theorem waitConnect_goesOn (t : Link ι) (h : ι) (sock : Option { fd : Int // 0 < fd }) (ok : Bool) :
    ((t.waitConnect h sock ok).2 = true ↔ (t.createSock sock).2 = true ∧
      (t.connected = true ∨ t.connecting = false ∧ ok = true)) ∧
    ((t.waitConnect h sock ok).2 = true → (t.waitConnect h sock ok).1.lists = t.lists ∧
      (t.waitConnect h sock ok).1.handlers = t.handlers) := by
  obtain ⟨fd, events, proxy, hsock⟩ := createSock_eq t sock
  unfold waitConnect
  cases hret : (t.createSock sock).2 with
  | false => simp [hret]
  | true =>
    simp only [hret, if_true, hsock, connect]
    cases t.connected <;> cases t.connecting <;> cases ok <;> simp

theorem connecting_link (s : Link ι) (h : ι) : (s.link h).connecting = s.connecting := by
  change (s.detachConn h).connecting = s.connecting
  unfold detachConn
  split <;> rfl

theorem link_same (s : Link ι) (h : ι) : s.Same (s.link h) := detachConn_same s h

section

variable (hL : Listed s) (hsending : ∀ h ∈ s.lists .send, (s.handlers h).phase = some .send)

include hL hsending

/-- A call that begins comes to `SendData`, with its request. -/
theorem sends_beginCall (hphase : (s.handlers h).phase = none) (request : Request) (accepted : Bool)
    (sock : Option { fd : Int // 0 < fd }) (ok : Bool) :
    ((s.beginCall h request accepted sock ok).2 = true ↔ request.data ≠ [] ∧ accepted = true ∧
      (s.createSock sock).2 = true ∧ (s.connected = true ∨ s.connecting = false ∧ ok = true)) ∧
    ((s.beginCall h request accepted sock ok).2 = true →
      ((s.beginCall h request accepted sock ok).1.handlers h).list ≠ none ∧
      Sends s (s.calls, request.data) (s.beginCall h request accepted sock ok).1 h) := by
  have hnot : h ∉ s.lists .send := fun hmem => by simp [hsending h hmem] at hphase
  have hL₁ : Listed (s.newCall h request) := listed_setHandler hL rfl
  obtain ⟨-, -, -, -, hfd, hevents, hproxy, hconnected⟩ := link_same (s.newCall h request) h
  have hsock : (((s.newCall h request).link h).createSock sock).2 = (s.createSock sock).2 :=
    createSock_congr (s := s) hfd hevents hproxy sock
  have hself : ((s.newCall h request).link h).handlers h = { s.handlers h with
      call := s.calls, reqData := request.data, phase := some .connect, list := some .idle } := by
    rw [link, handlers_enlist, if_pos rfl]
    simp [newCall]
  have hother (h' : ι) (hne : h' ≠ h) :
      ((s.newCall h request).link h).handlers h' = s.handlers h' := by
    rw [link, handlers_enlist, if_neg hne]
    exact update_of_ne hne ..
  obtain ⟨hiff, hsame⟩ := waitConnect_goesOn ((s.newCall h request).link h) h sock ok
  rw [hsock, hconnected, connecting_link] at hiff
  unfold beginCall
  dsimp only
  split
  next hrefused =>
    refine ⟨iff_of_false Bool.false_ne_true fun hreach => ?_, fun hret => absurd hret (by simp)⟩
    rcases hrefused with hnil | hno
    · exact hreach.1 hnil
    · exact absurd (hno.symm.trans hreach.2.1) (by simp)
  next hrefused =>
    rw [not_or, Bool.not_eq_false] at hrefused
    refine ⟨?_, fun hret => ?_⟩
    · exact hiff.trans
        ⟨fun hreach => ⟨hrefused.1, hrefused.2, hreach⟩, fun hreach => hreach.2.2⟩
    · obtain ⟨hlists, hhandlers⟩ := hsame hret
      refine ⟨by rw [hhandlers, hself]; simp, ?_, ?_, fun h' hmem => ?_⟩
      · rw [hhandlers, hself]
      · rw [hlists]
        exact send_enlist hL₁ (by decide) hnot
      · rw [hhandlers, hother h' fun heq => hnot (heq ▸ hmem)]

/-- A call that has waited for the connection comes to `SendData`. -/
theorem sends_resumeConnect (hphase : (s.handlers h).phase = some .connect) :
    ((s.resumeConnect h).2 = true ↔ (s.handlers h).errNo = 0 ∧ s.connected = true) ∧
    ((s.resumeConnect h).2 = true →
      (((s.resumeConnect h).1.handlers h).list ≠ none ↔ (s.handlers h).list ≠ none) ∧
      Sends s ((s.handlers h).call, (s.handlers h).reqData) (s.resumeConnect h).1 h) := by
  have hnot : h ∉ s.lists .send := fun hmem => by simp [hsending h hmem] at hphase
  have hhandler := switchTo_handler s .idle h
  obtain ⟨-, -, -, -, -, -, -, hconnected⟩ := switchTo_same s .idle h
  have hsends : Sends s ((s.handlers h).call, (s.handlers h).reqData) (s.switchToIdle h) h := by
    refine ⟨?_, send_switchTo hL (by decide) hnot, fun h' _ => ?_⟩
    · rw [switchToIdle, (hhandler h).1, (hhandler h).2.1]
    · rw [switchToIdle, (hhandler h').1, (hhandler h').2.1]
  have hlist : ((s.switchToIdle h).handlers h).list ≠ none ↔ (s.handlers h).list ≠ none := by
    refine ⟨fun hne hnone => hne (unlinked_switchTo .idle h hnone), fun hne => ?_⟩
    rw [switchToIdle, list_switchTo hne]
    simp
  unfold resumeConnect
  dsimp only
  rw [switchToIdle, (hhandler h).2.2.1, hconnected, ← switchToIdle]
  split
  next herr => simp [herr]
  next herr =>
    rw [not_not] at herr
    split
    next hconn => simpa [herr, hconn] using ⟨by simpa using hlist, hsends⟩
    next hconn => simp [hconn]

/-- **When `SendData` is called** is known before the step, and so is what it finds. -/
theorem beforeSend_spec (a : Act ι) :
    match s.beforeSend a with
    | none => s.ownData a = none
    | some (t, h) => ∃ d, s.ownData a = some d ∧ Sends s d t h := by
  cases a with
  | sendRecv h request accepted sock ok room =>
    unfold beforeSend ownData
    by_cases hphase : (s.handlers h).phase = none
    · obtain ⟨hiff, hsends⟩ := sends_beginCall hL hsending hphase request accepted sock ok
      simp only [hphase, if_true, true_and, ← hiff]
      unfold sender
      by_cases hret : (s.beginCall h request accepted sock ok).2 = true
      · obtain ⟨hlinked, hsends⟩ := hsends hret
        rw [if_pos ⟨hret, hlinked⟩, if_pos hret]
        exact ⟨_, rfl, hsends⟩
      · rw [if_neg fun hboth => hret hboth.1, if_neg hret]
    · simp only [hphase, if_false, false_and]
  | resume h room =>
    unfold beforeSend ownData
    by_cases hphase : (s.handlers h).phase = some .connect
    · obtain ⟨hiff, hsends⟩ := sends_resumeConnect hL hsending hphase
      simp only [hphase, if_true, true_and, ← hiff]
      unfold sender
      by_cases hret : (s.resumeConnect h).2 = true
      · obtain ⟨hlinked, hsends⟩ := hsends hret
        by_cases hlist : (s.handlers h).list ≠ none
        · rw [if_pos ⟨hret, hlinked.2 hlist⟩, if_pos ⟨hlist, hret⟩]
          exact ⟨_, rfl, hsends⟩
        · rw [if_neg fun hboth => hlist (hlinked.1 hboth.2), if_neg fun hboth => hlist hboth.1]
      · rw [if_neg fun hboth => hret hboth.1, if_neg fun hboth => hret hboth.2]
    · simp only [hphase, if_false, false_and]
  | output | input | hangup | timer => rfl

end

end FStack.MicroThread.Link
