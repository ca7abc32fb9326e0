import FStack.Ipc.Server

/-!
# Every control message gets one reply

`handle_msg` (`lib/ff_dpdk_if.c:2403-2454`) puts a message on the ring whose index is the type the
client wrote into it, or back into the pool if that ring is full. Index 0 is the ring the requests
come in on, and from `FF_MSG_NUM` on there is no ring. `handle_knictl_msg` writes no result when it
is asked for the action (`2389-2390`).

Results:
* `msgs_answered_iff`: a run answers every message iff every request is fine when it is taken.
* `msgs_not_answered`: a type 0 goes round, a type 10 leaves the array, a result is left over.
-/

namespace FStack.Ipc

open Function List

variable {b : Build} {c : Calls} {p : Nat} {s : Shm} {m : Msg}

/-! ## One message -/

/-- The result the handler leaves does not depend on the one it found. -/
def FreshResult (b : Build) (c : Calls) (action : Int) (m : Msg) : Prop :=
  ∀ r, (handled b c action { m with result := r }).2.result = (handled b c action m).2.result

/-- The request is for the action of the KNI, and the server has one. -/
def KniGet (b : Build) (m : Msg) : Prop :=
  b.caseOf m.msgType = .knictl ∧ m.knictl.kniCmd = kniCmdGet

instance : Decidable (KniGet b m) := inferInstanceAs (Decidable (_ ∧ _))

theorem handleKnictlMsg_set (action : Int) (h : m.knictl.kniCmd ≠ kniCmdGet) (r : Int) :
    (handleKnictlMsg action { m with result := r }).2.result =
      (handleKnictlMsg action m).2.result := by
  unfold handleKnictlMsg
  split
  · split
    · rfl
    · split
      · rfl
      · split <;> rfl
  · rfl

theorem handleKnictlMsg_get (action : Int) (h : m.knictl.kniCmd = kniCmdGet) :
    (handleKnictlMsg action m).2.result = m.result := by
  unfold handleKnictlMsg
  have hset : m.knictl.kniCmd ≠ kniCmdSet := by
    rw [h]
    decide
  rw [if_neg hset, if_pos h]

/-- **Every handler writes the result**, but for the one that tells the action. -/
theorem freshResult_iff (action : Int) : FreshResult b c action m ↔ ¬ KniGet b m := by
  constructor
  · rintro hfresh ⟨hcase, hcmd⟩
    have h := hfresh (m.result + 1)
    unfold handled at h
    rw [hcase] at h
    rw [handleKnictlMsg_get action hcmd, handleKnictlMsg_get action (m := { m with
      result := m.result + 1 }) hcmd] at h
    dsimp only at h
    omega
  · intro hget r
    unfold handled
    cases hcase : b.caseOf m.msgType with
    | knictl => exact handleKnictlMsg_set action (fun hcmd => hget ⟨hcase, hcmd⟩) r
    | ngctl => rfl
    | ipfwCtl => rfl
    | sysctl => rfl
    | ioctl => rfl
    | route => rfl
    | top => rfl
    | traffic => rfl
    | other => rfl

/-- What of a message says how it is handled. -/
def Msg.request (m : Msg) : Nat × Int := (m.msgType, m.knictl.kniCmd)

/-- What of a message says where its buffer is. -/
def Msg.buffers (m : Msg) : Nat × Nat × Option Nat × Nat :=
  (m.bufAddr, m.bufLen, m.originalBuf, m.originalBufLen)

section

variable (b : Build)

variable (c : Calls)

/-- No handler changes what is asked, nor the buffers. -/
theorem handled_keeps (action : Int) (m : Msg) :
    (handled b c action m).2.request = m.request ∧
      (handled b c action m).2.buffers = m.buffers := by
  unfold handled
  split
  · exact ⟨rfl, rfl⟩
  · exact ⟨rfl, rfl⟩
  · exact ⟨rfl, rfl⟩
  · exact ⟨rfl, rfl⟩
  · unfold handleNgctlMsg
    split <;> exact ⟨rfl, rfl⟩
  · unfold handleIpfwMsg
    split
    · exact ⟨rfl, rfl⟩
    · split
      · exact ⟨rfl, rfl⟩
      · split <;> exact ⟨rfl, rfl⟩
  · exact ⟨rfl, rfl⟩
  · unfold handleKnictlMsg
    split
    · split
      · exact ⟨rfl, rfl⟩
      · split
        · exact ⟨rfl, rfl⟩
        · split <;> exact ⟨rfl, rfl⟩
    · split <;> exact ⟨rfl, rfl⟩
  · exact ⟨rfl, rfl⟩

theorem restore_request (m : Msg) : m.restore.request = m.request := by
  unfold Msg.restore
  split <;> rfl

/-- From `s` to `s'` the message `a` was put on one reply ring of `p`, or into the pool. -/
def Answered (p : Nat) (s s' : Shm) (a : Nat) : Prop :=
  (∃ j, 0 < j ∧ j < ffMsgNum ∧ s'.ring = (s.setRing p j (s.ring p j ++ [a])).ring ∧
    s'.pool = s.pool) ∨ s'.ring = s.ring ∧ s'.pool = a :: s.pool

/-- A message handled as it should be: its type is an index of the ring array, it is answered once,
and a reply has a result of its own. -/
structure HandleOk (room : Bool) (p : Nat) (s : Shm) (a : Nat) : Prop where
  inArray : (s.msg a).msgType < ffMsgNum
  answered : Answered p s (handleMsg b c room p s a) a
  fresh : room = true → FreshResult b c (s.action p) (s.msg a)

/-- A request that is answered: its type is below `FF_MSG_NUM`, and if there is room for the reply,
it is not 0 and no question for the action. -/
def MsgFine (room : Bool) (m : Msg) : Prop :=
  m.msgType < ffMsgNum ∧ (room = true → 0 < m.msgType ∧ ¬ KniGet b m)

theorem setRing_ne (s : Shm) {i j : Nat} (hij : i ≠ j) (a : Nat) :
    (s.setRing p i (s.ring p i ++ [a])).ring ≠ (s.setRing p j (s.ring p j ++ [a])).ring := by
  intro h
  have hj := congrFun (congrFun h p) j
  unfold Shm.setRing at hj
  dsimp only at hj
  rw [update_self, update_self, update_of_ne hij.symm, update_self] at hj
  exact cons_ne_nil _ _ (self_eq_append_right.mp hj)

theorem handleMsg_room (p : Nat) (s : Shm) (a : Nat) :
    (handleMsg b c true p s a).ring = (s.setRing p (s.msg a).msgType
      (s.ring p (s.msg a).msgType ++ [a])).ring ∧ (handleMsg b c true p s a).pool = s.pool := by
  have htype : (handled b c (s.action p) (s.msg a)).2.msgType = (s.msg a).msgType :=
    congrArg Prod.fst (handled_keeps b c (s.action p) (s.msg a)).1
  unfold handleMsg
  rw [if_pos rfl, htype]
  exact ⟨rfl, rfl⟩

theorem handleMsg_full (p : Nat) (s : Shm) (a : Nat) :
    (handleMsg b c false p s a).ring = s.ring ∧ (handleMsg b c false p s a).pool = a :: s.pool :=
  ⟨rfl, rfl⟩

end

/-- **One message** is handled as it should be iff the request is fine. -/
theorem handleOk_iff (room : Bool) (a : Nat) :
    HandleOk b c room p s a ↔ MsgFine b room (s.msg a) := by
  cases room with
  | false =>
    refine ⟨fun h => ⟨h.inArray, nofun⟩, fun h => ⟨h.1, .inr ?_, nofun⟩⟩
    exact handleMsg_full b c p s a
  | true =>
    obtain ⟨hring, hpool⟩ := handleMsg_room b c p s a
    constructor
    · rintro ⟨hin, hanswered, hfresh⟩
      refine ⟨hin, fun _ => ⟨?_, (freshResult_iff (s.action p)).mp (hfresh rfl)⟩⟩
      rcases hanswered with ⟨j, hj, -, hringj, -⟩ | ⟨-, hpool'⟩
      · by_contra htype
        rw [hring] at hringj
        exact setRing_ne s (by omega) a hringj
      · exact absurd hpool'.symm (cons_ne_self _ _)
    · rintro ⟨hin, hfine⟩
      obtain ⟨hpos, hget⟩ := hfine rfl
      exact ⟨hin, .inl ⟨_, hpos, hin, hring, hpool⟩, fun _ =>
        (freshResult_iff (s.action p)).mpr hget⟩

/-! ## Rounds -/

theorem handleMsg_request (b : Build) (c : Calls) (room : Bool) (p : Nat) (s : Shm) (a a' : Nat) :
    ((handleMsg b c room p s a).msg a').request = (s.msg a').request := by
  have hset (m : Msg) (hm : m.request = (s.msg a).request) :
      (update s.msg a m a').request = (s.msg a').request := by
    by_cases ha : a' = a
    · subst ha
      rw [update_self]
      exact hm
    · rw [update_of_ne ha]
  unfold handleMsg
  split
  · exact hset _ (handled_keeps _ _ _ _).1
  · unfold Shm.free Shm.setMsg
    dsimp only
    rw [update_self, update_idem]
    exact hset _ ((restore_request _).trans (handled_keeps _ _ _ _).1)

theorem msgFine_of_request {m' : Msg} (h : m'.request = m.request) (room : Bool) :
    MsgFine b room m' ↔ MsgFine b room m := by
  have htype : m'.msgType = m.msgType := congrArg Prod.fst h
  have hcmd : m'.knictl.kniCmd = m.knictl.kniCmd := congrArg Prod.snd h
  unfold MsgFine KniGet
  rw [htype, hcmd]

/-- Every message of a burst is handled as it should be, one after the other. -/
def BurstOk (b : Build) (o : Outside) (p : Nat) : Shm → List (Nat × Nat) → Prop
  | _, [] => True
  | s, x :: xs => HandleOk b (o x.2).1 (o x.2).2 p s x.1 ∧
      BurstOk b o p (handleMsg b (o x.2).1 (o x.2).2 p s x.1) xs

theorem burstOk_iff (o : Outside) (xs : List (Nat × Nat)) :
    BurstOk b o p s xs ↔ ∀ x ∈ xs, MsgFine b (o x.2).2 (s.msg x.1) := by
  induction xs generalizing s with
  | nil => exact iff_of_true trivial nofun
  | cons x xs ih =>
    unfold BurstOk
    rw [handleOk_iff, ih, forall_mem_cons]
    refine and_congr_right fun _ => forall₂_congr fun y _ => ?_
    exact msgFine_of_request (handleMsg_request b _ _ p s x.1 y.1) _

/-- The messages `process_msg_ring` takes, each with its place in the burst. -/
def burst (p : Nat) (s : Shm) : List (Nat × Nat) := ((s.ring p 0).take 32).zipIdx

/-- A round of `process_msg_ring` answers what it takes. -/
def RoundOk (b : Build) (o : Outside) (p : Nat) (s : Shm) : Prop :=
  BurstOk b o p (s.setRing p 0 ((s.ring p 0).drop 32)) (burst p s)

/-- What the clients do to the memory before each round, and what is outside in the round. -/
abbrev Rounds := List ((Shm → Shm) × Outside)

/-- Every round of the run answers what it takes. -/
def RunOk (b : Build) (p : Nat) : Shm → Rounds → Prop
  | _, [] => True
  | s, r :: rs => RoundOk b r.2 p (r.1 s) ∧ RunOk b p (processMsgRing b r.2 p (r.1 s)) rs

/-- Every request of the run is fine when its round takes it. -/
def RunFine (b : Build) (p : Nat) : Shm → Rounds → Prop
  | _, [] => True
  | s, r :: rs => (∀ x ∈ burst p (r.1 s), MsgFine b (r.2 x.2).2 ((r.1 s).msg x.1)) ∧
      RunFine b p (processMsgRing b r.2 p (r.1 s)) rs

/-- **Every control message gets one reply** in a run iff every request is fine. -/
theorem msgs_answered_iff (b : Build) (p : Nat) (s : Shm) (rounds : Rounds) :
    RunOk b p s rounds ↔ RunFine b p s rounds := by
  induction rounds generalizing s with
  | nil => exact iff_of_true trivial trivial
  | cons r rs ih =>
    unfold RunOk RunFine RoundOk
    rw [burstOk_iff, ih]
    rfl

/-- A request of the given type, left with a result of an earlier use. -/
def leftOver (msgType : Nat) : Msg where
  msgType := msgType
  result := enotsup
  bufLen := 0
  bufAddr := 0
  originalBuf := none
  originalBufLen := 0
  route := ⟨0, 0, 0⟩
  top := ⟨0, 0, 0, 0, 0⟩
  ngctl := ⟨0, 0⟩
  ipfw := ⟨0, 0, 0⟩
  traffic := ⟨0, 0, 0, 0, 0, 0⟩
  knictl := ⟨kniCmdGet, 0⟩

/-- Message 7, of the given type, is on the request ring of process 0. -/
def oneRequest (msgType : Nat) : Shm where
  msg := fun _ => leftOver msgType
  ring := update (fun _ _ => []) 0 (update (fun _ => []) 0 [7])
  pool := []
  action := fun _ => 0

/-- All calls succeed, and every ring has room. -/
def smooth : Outside := fun _ =>
  (⟨0, 0, 0, 0, 0, 0, 0, 0, 0, ⟨0, 0, 0, 0, 0⟩, ⟨0, 0, 0, 0, 0, 0⟩⟩, true)

/-- A build with `FF_KNI` alone. -/
def kniBuild : Build := ⟨false, false, false, true⟩

/-- A message of type 0 comes back on the request ring, one of type 10 goes to a ring that is not in
the array, and the reply to a question for the KNI's action has the result of an earlier use. -/
theorem msgs_not_answered :
    ((processMsgRing kniBuild smooth 0 (oneRequest 0)).ring 0 0 = [7] ∧
      ¬ RunOk kniBuild 0 (oneRequest 0) [(id, smooth)]) ∧
    ((processMsgRing kniBuild smooth 0 (oneRequest 10)).ring 0 10 = [7] ∧
      ¬ RunOk kniBuild 0 (oneRequest 10) [(id, smooth)]) ∧
    ((processMsgRing kniBuild smooth 0 (oneRequest 9)).ring 0 9 = [7] ∧
      ((processMsgRing kniBuild smooth 0 (oneRequest 9)).msg 7).result = enotsup ∧
      ¬ RunOk kniBuild 0 (oneRequest 9) [(id, smooth)]) := by
  have hnot {t : Nat} (ht : ¬ MsgFine kniBuild true (leftOver t)) :
      ¬ RunOk kniBuild 0 (oneRequest t) [(id, smooth)] := by
    intro h
    exact ht ((burstOk_iff smooth _).mp h.1 (7, 0) (mem_singleton.mpr rfl))
  refine ⟨⟨rfl, hnot fun h => ?_⟩, ⟨rfl, hnot fun h => ?_⟩, rfl, rfl, hnot fun h => ?_⟩
  · exact absurd (h.2 rfl).1 (Nat.lt_irrefl 0)
  · exact absurd h.1 (Nat.lt_irrefl 10)
  · exact (h.2 rfl).2 ⟨rfl, rfl⟩

end FStack.Ipc
