import FStack.Ipc.Client
import FStack.Ipc.Reply
import FStack.Lib.Places
import FStack.Lib.Run

/-!
# The message pool

Every step of a client or a process moves a message from one place to another: the pool, a ring, the
burst of a process, a client. So no message is ever at two places, and what comes back to the pool
has its own buffer again, as long as one client at a time is at a process's rings. Two clients break
this alone. `knictl_status` frees its message when it gives up
waiting (`tools/knictl/knictl.c:73-77`), although the message is on a ring or with the process then;
`sysctl` and `rtioctl` do not. `rtioctl` moves the address of the buffer (`rtioctl.c:104`) and no
one moves it back.

Results:
* `pool_ok`: the pool in every state of a careful run.
* `pool_not_ok`: a `knictl_status` that gives up, and an `rtioctl`.
-/

namespace FStack.Ipc

open Function List FStack.Lib

/-! ## Places -/

/-- Where a message can be. -/
inductive Place where
  | pool
  | ring (p j : Nat)
  | busy (p : Nat)
  | client (c : Nat)
  deriving DecidableEq

/-- The messages at a place. -/
def Sys.held (s : Sys) : Place → List Nat
  | .pool => s.shm.pool
  | .ring p j => s.shm.ring p j
  | .busy p => s.busy p
  | .client c => (s.client c).owned

section Held

variable (s : Sys)

theorem held_setClient (c : Nat) (st : Client) :
    (s.setClient c st).held = update s.held (.client c) st.owned := by
  funext k
  cases k with
  | client c' =>
    change (update s.client c st c').owned = _
    by_cases hc : c' = c
    · subst hc
      rw [update_self, update_self]
    · rw [update_of_ne hc, update_of_ne (fun h => hc (Place.client.inj h))]
      rfl
  | pool => rfl
  | ring p j => rfl
  | busy p => rfl

theorem held_setBusy (p : Nat) (l : List Nat) :
    (s.setBusy p l).held = update s.held (.busy p) l := by
  funext k
  cases k with
  | busy p' =>
    change update s.busy p l p' = _
    by_cases hp : p' = p
    · subst hp
      rw [update_self, update_self]
    · rw [update_of_ne hp, update_of_ne (fun h => hp (Place.busy.inj h))]
      rfl
  | pool => rfl
  | ring p j => rfl
  | client c => rfl

theorem held_setRing (p j : Nat) (l : List Nat) :
    (s.setShm (s.shm.setRing p j l)).held = update s.held (.ring p j) l := by
  funext k
  cases k with
  | ring p' j' =>
    change update s.shm.ring p (update (s.shm.ring p) j l) p' j' = _
    by_cases hp : p' = p
    · subst hp
      rw [update_self]
      by_cases hj : j' = j
      · subst hj
        rw [update_self, update_self]
      · rw [update_of_ne hj,
          update_of_ne (fun h => hj (Place.ring.inj h).2)]
        rfl
    · rw [update_of_ne hp, update_of_ne (fun h => hp (Place.ring.inj h).1)]
      rfl
  | pool => rfl
  | busy p => rfl
  | client c => rfl

theorem held_setPool (l : List Nat) :
    (s.setShm { s.shm with pool := l }).held = update s.held .pool l := by
  funext k
  cases k <;> rfl

theorem held_congr {x y : Shm} (hring : x.ring = y.ring) (hpool : x.pool = y.pool) :
    (s.setShm x).held = (s.setShm y).held := by
  funext k
  cases k with
  | pool => exact hpool
  | ring p j => exact congrFun (congrFun hring p) j
  | busy p => rfl
  | client c => rfl

theorem held_setMsg (a : Nat) (m : Msg) : (s.setShm (s.shm.setMsg a m)).held = s.held := rfl

theorem held_free (a : Nat) :
    (s.setShm (s.shm.free a)).held = update s.held .pool (a :: s.shm.pool) :=
  held_setPool _ _

end Held

variable {s : Sys} {c p a : Nat} {r : Req} {st : Client} {k : Place}

section

variable (hA : Apart s.held)

include hA

/-- A message is freed by the client that has it. -/
theorem apart_free (howned : (s.client c).owned = [a]) (hst : st.owned = []) :
    Apart ((s.setShm (s.shm.free a)).setClient c st).held := by
  rw [held_setClient, held_free, hst, update_comm (by simp)]
  refine hA.move [a] (by simp) ?_ (Perm.refl _)
  exact Perm.of_eq howned

/-- A message is taken from a place by a client that has none. -/
theorem apart_take (howned : (s.client c).owned = []) (hk : k ≠ .client c) {l : List Nat}
    (hl : (s.held k).Perm (a :: l)) : Apart (update (update s.held k l) (.client c) [a]) := by
  refine hA.move [a] hk hl ?_
  exact Perm.of_eq (congrArg (a :: ·) howned.symm)

variable (c : Nat)

theorem apart_startCall (r : Req) : Apart (startCall s c r).held := by
  unfold startCall
  split
  next hidle =>
    split
    · exact hA
    · split
      next hmem =>
        rw [held_setClient, held_setPool]
        refine apart_take hA (by rw [hidle]; rfl) (by simp) ?_
        exact perm_cons_erase hmem
      · exact hA
  · exact hA

theorem apart_fillMsg (buf : Option Nat) : Apart (fillMsg s c buf).held := by
  unfold fillMsg
  split
  next r halloced =>
    have howned : (s.client c).owned = [r.msg] := by
      rw [halloced]
      rfl
    split
    · rw [held_setClient, held_setMsg]
      have hsame : Client.owned (.filled r) = s.held (.client c) := howned.symm
      rw [hsame, update_eq_self]
      exact hA
    · exact apart_free hA howned rfl
  · exact hA

theorem apart_sendMsg (room : Bool) : Apart (sendMsg s c room).held := by
  unfold sendMsg
  split
  next r hfilled =>
    have howned : (s.client c).owned = [r.msg] := by
      rw [hfilled]
      rfl
    split
    · rw [held_setClient, held_setRing, update_comm (by simp)]
      refine hA.move [r.msg] (by simp) (Perm.of_eq howned) ?_
      exact perm_append_comm
    · exact apart_free hA howned rfl
  · exact hA

theorem apart_recvMsg : Apart (recvMsg s c).held := by
  unfold recvMsg
  split
  next r hwaiting =>
    have hsame : Client.owned (.waiting r (some (s.shm.msg r.msg).msgType)) =
        s.held (.client c) := by
      change [] = (s.client c).owned
      rw [hwaiting]
      rfl
    rw [held_setClient, hsame, update_eq_self]
    exact hA
  next r j hwaiting =>
    split
    · exact hA
    next ret rest hring =>
      have hret : Client.owned (if ret = r.msg then .replied r else .stale r ret) = [ret] := by
        split
        next heq =>
          rw [heq]
          rfl
        · rfl
      rw [held_setClient, held_setRing, hret]
      exact apart_take hA (by rw [hwaiting]; rfl) (by simp) (Perm.of_eq hring)
  · exact hA

theorem apart_freeMsg : Apart (freeMsg s c).held := by
  unfold freeMsg
  split
  next r ret hstale => exact apart_free hA (by rw [hstale]; rfl) rfl
  next r hreplied => exact apart_free hA (by rw [hreplied]; rfl) rfl
  · exact hA

theorem apart_takeBurst (p : Nat) : Apart (takeBurst s p).held := by
  unfold takeBurst
  split
  next hbusy =>
    rw [held_setBusy, held_setRing]
    refine hA.move ((s.shm.ring p 0).take 32) (by simp) ?_ ?_
    · exact Perm.of_eq (take_append_drop 32 _).symm
    · refine Perm.of_eq ?_
      change _ = _ ++ s.busy p
      rw [hbusy, append_nil]
  · exact hA

end

theorem apart_handleNext (b : Build) (hA : Apart s.held) (p : Nat) (calls : Calls) (room : Bool) :
    Apart (handleNext b s p calls room).held := by
  unfold handleNext
  split
  · exact hA
  next a rest hbusy =>
    have hfrom : (s.held (.busy p)).Perm ([a] ++ rest) := Perm.of_eq hbusy
    cases room with
    | true =>
      obtain ⟨hring, hpool⟩ := handleMsg_room b calls p s.shm a
      rw [held_setBusy, held_congr s hring hpool, held_setRing, update_comm (by simp)]
      exact hA.move _ (by simp) hfrom perm_append_comm
    | false =>
      obtain ⟨hring, hpool⟩ := handleMsg_full b calls p s.shm a
      have hheld := held_congr s (x := handleMsg b calls false p s.shm a)
        (y := { s.shm with pool := a :: s.shm.pool }) hring hpool
      rw [held_setBusy, hheld, held_setPool, update_comm (by simp)]
      exact hA.move _ (by simp) hfrom (Perm.refl _)

/-! ## Buffers -/

section Fields

variable {base : Nat → Nat} {size : Nat}

/-- A message whose own buffer comes back when it is restored. -/
def Msg.Restorable (base size : Nat) (m : Msg) : Prop := m.restore.Inline base size

variable {m m' : Msg}

theorem inline_restore {base : Nat} (h : m.Inline base size) : m.restore = m := by
  unfold Msg.restore
  rw [h.orig]

theorem Msg.Inline.restorable {base : Nat} (h : m.Inline base size) : m.Restorable base size := by
  unfold Msg.Restorable
  rw [inline_restore h]
  exact h

theorem restorable_of_buffers {base : Nat} (h : m'.buffers = m.buffers)
    (hm : m.Restorable base size) : m'.Restorable base size := by
  obtain ⟨haddr, hlen, horig, horigLen⟩ : m'.bufAddr = m.bufAddr ∧ m'.bufLen = m.bufLen ∧
      m'.originalBuf = m.originalBuf ∧ m'.originalBufLen = m.originalBufLen := by
    unfold Msg.buffers at h
    simpa using h
  unfold Msg.Restorable Msg.restore at hm ⊢
  rw [horig]
  cases hbuf : m.originalBuf with
  | none =>
    rw [hbuf] at hm
    exact ⟨haddr.trans hm.addr, hlen.trans hm.len, horig.trans hbuf⟩
  | some buf =>
    rw [hbuf] at hm
    exact ⟨hm.addr, horigLen.trans hm.len, rfl⟩

/-- The buffers: what is in the pool or just taken from it has its own, and every message has it
back when it is restored. -/
structure Fields (base : Nat → Nat) (size : Nat) (s : Sys) : Prop where
  pool : ∀ a ∈ s.shm.pool, (s.shm.msg a).Inline (base a) size
  alloced : ∀ c r, s.client c = .alloced r → (s.shm.msg r.msg).Inline (base r.msg) size
  restorable : ∀ a, (s.shm.msg a).Restorable (base a) size

section

variable (h : Fields base size s)

include h

theorem fields_setClient (c : Nat)
    (hst : ∀ r, st = .alloced r → (s.shm.msg r.msg).Inline (base r.msg) size) :
    Fields base size (s.setClient c st) := by
  refine ⟨h.pool, fun c' r hc' => ?_, h.restorable⟩
  change update s.client c st c' = .alloced r at hc'
  by_cases hc : c' = c
  · subst hc
    rw [update_self] at hc'
    exact hst r hc'
  · rw [update_of_ne hc] at hc'
    exact h.alloced c' r hc'

theorem fields_setRing (p j : Nat) (l : List Nat) :
    Fields base size (s.setShm (s.shm.setRing p j l)) :=
  ⟨h.pool, h.alloced, h.restorable⟩

theorem fields_free (a : Nat) : Fields base size (s.setShm (s.shm.free a)) := by
  have hmsg : ∀ a', (s.shm.msg a').Inline (base a') size ∨ a' = a →
      ((s.shm.free a).msg a').Inline (base a') size := by
    intro a' ha'
    change (update s.shm.msg a (s.shm.msg a).restore a').Inline (base a') size
    by_cases haa : a' = a
    · subst haa
      rw [update_self]
      exact h.restorable a'
    · rw [update_of_ne haa]
      exact ha'.resolve_right haa
  refine ⟨fun a' ha' => hmsg a' ?_, fun c r hc => hmsg r.msg (.inl (h.alloced c r hc)),
    fun a' => ?_⟩
  · exact (mem_cons.mp ha').symm.imp (h.pool a') id
  · by_cases haa : a' = a
    · exact (hmsg a' (.inr haa)).restorable
    · change (update s.shm.msg a (s.shm.msg a).restore a').Restorable (base a') size
      rw [update_of_ne haa]
      exact h.restorable a'

/-- A message that is neither in the pool nor just taken from it is written to. -/
theorem fields_setMsg (hpool : a ∉ s.shm.pool)
    (halloced : ∀ c r, s.client c = .alloced r → r.msg ≠ a) (hm : m.Restorable (base a) size) :
    Fields base size (s.setShm (s.shm.setMsg a m)) := by
  refine ⟨fun a' ha' => ?_, fun c r hc => ?_, fun a' => ?_⟩
  · change (update s.shm.msg a m a').Inline (base a') size
    have hne : a' ≠ a := fun haa => hpool (haa ▸ ha')
    rw [update_of_ne hne]
    exact h.pool a' ha'
  · change (update s.shm.msg a m r.msg).Inline (base r.msg) size
    rw [update_of_ne (halloced c r hc)]
    exact h.alloced c r hc
  · change (update s.shm.msg a m a').Restorable (base a') size
    by_cases haa : a' = a
    · subst haa
      rw [update_self]
      exact hm
    · rw [update_of_ne haa]
      exact h.restorable a'

end

/-! ## Careful steps -/

/-- How far a call moves the address of the buffer. -/
def Call.shift : Call → Nat
  | .rtioctl _ len _ => len
  | _ => 0

/-- The call frees its message when it gives up waiting. -/
def Call.freesLate : Call → Bool
  | .knictl _ => true
  | _ => false

/-- No other client is in a call to the process, no `rtioctl` is filled in with a length but 0, and
no `knictl_status` gives up. -/
def Careful (s : Sys) : Op → Prop
  | .start c r => Alone s c r.proc
  | .fill c _ =>
    match s.client c with
    | .alloced r => r.call.shift ≤ (s.shm.msg r.msg).bufLen → r.call.shift = 0
    | _ => True
  | .giveUp c =>
    match s.client c with
    | .waiting r _ => r.call.freesLate = false
    | _ => True
  | _ => True

theorem fill_restorable {base : Nat} {call : Call} {buf : Option Nat} (hm : m.Inline base size)
    (hshift : call.shift ≤ m.bufLen → call.shift = 0) (hfill : call.fill buf m = some m') :
    m'.Restorable base size := by
  cases call with
  | sysctl k =>
    unfold Call.fill at hfill
    dsimp only at hfill
    split at hfill
    · obtain ⟨extra, -, rfl⟩ := Option.map_eq_some_iff.mp hfill
      exact ⟨hm.addr, hm.len, rfl⟩
    · cases hfill
      exact restorable_of_buffers (by rfl) hm.restorable
  | rtioctl fib len readLen =>
    unfold Call.fill at hfill
    dsimp only at hfill
    split at hfill
    · cases hfill
    next hlen =>
      have hzero : len = 0 := hshift (Nat.le_of_not_lt hlen)
      subst hzero
      cases hfill
      exact restorable_of_buffers (by rfl) hm.restorable
  | knictl args =>
    cases hfill
    exact restorable_of_buffers (by rfl) hm.restorable

/-- Nothing is at two places, and the buffers are right. -/
structure Inv (base : Nat → Nat) (size : Nat) (s : Sys) : Prop where
  apart : Apart s.held
  fields : Fields base size s

section

variable (h : Inv base size s)

include h

/-- What a client or a process has, it may write to. -/
theorem fields_setMsg_held (ha : a ∈ s.held k) (hpool : k ≠ .pool)
    (hk : ∀ c r, s.client c = .alloced r → k ≠ .client c) (hm : m.Restorable (base a) size) :
    Fields base size (s.setShm (s.shm.setMsg a m)) := by
  refine fields_setMsg h.fields (h.apart.not_mem ha hpool) (fun c r hc hr => ?_) hm
  have hmem : r.msg ∈ s.held (.client c) := by
    change r.msg ∈ (s.client c).owned
    rw [hc]
    exact mem_singleton.mpr rfl
  rw [hr] at hmem
  exact hk c r hc (h.apart.unique _ _ a ha hmem)

variable (c : Nat)

theorem fields_startCall (r : Req) : Fields base size (startCall s c r) := by
  unfold startCall
  split
  · split
    · exact h.fields
    · split
      next hmem =>
        have herase : Fields base size (s.setShm { s.shm with pool := s.shm.pool.erase r.msg }) :=
          ⟨fun a ha => h.fields.pool a (mem_of_mem_erase ha), h.fields.alloced, h.fields.restorable⟩
        refine fields_setClient herase c fun r' hr' => ?_
        cases hr'
        exact h.fields.pool r.msg hmem
      · exact h.fields
  · exact h.fields

theorem fields_fillMsg (buf : Option Nat)
    (hcareful : Careful s (.fill c buf)) : Fields base size (fillMsg s c buf) := by
  unfold Careful at hcareful
  dsimp only at hcareful
  unfold fillMsg
  split
  next r halloced =>
    rw [halloced] at hcareful
    split
    next m hfill =>
      have hm := fill_restorable (h.fields.alloced c r halloced) hcareful hfill
      -- The client is past the allocation when the message is written to.
      have hfilled : Inv base size (s.setClient c (.filled r)) := by
        refine ⟨?_, fields_setClient h.fields c nofun⟩
        have hsame : Client.owned (.filled r) = s.held (.client c) := by
          change _ = (s.client c).owned
          rw [halloced]
          rfl
        rw [held_setClient, hsame, update_eq_self]
        exact h.apart
      have hclient : (s.setClient c (.filled r)).client c = .filled r :=
        update_self c _ s.client
      have hown : r.msg ∈ (s.setClient c (.filled r)).held (.client c) := by
        change r.msg ∈ ((s.setClient c (.filled r)).client c).owned
        rw [hclient]
        exact mem_singleton.mpr rfl
      refine fields_setMsg_held hfilled hown (by simp) (fun c' r' hc' hcc => ?_) hm
      cases hcc
      rw [hclient] at hc'
      cases hc'
    · exact fields_setClient (fields_free h.fields _) c nofun
  · exact h.fields

theorem fields_sendMsg (room : Bool) : Fields base size (sendMsg s c room) := by
  unfold sendMsg
  split
  · split
    · exact fields_setClient (fields_setRing h.fields _ _ _) c nofun
    · exact fields_setClient (fields_free h.fields _) c nofun
  · exact h.fields

theorem fields_recvMsg : Fields base size (recvMsg s c) := by
  unfold recvMsg
  split
  · exact fields_setClient h.fields c nofun
  · split
    · exact h.fields
    · refine fields_setClient (fields_setRing h.fields _ _ _) c fun r hr => ?_
      split at hr <;> cases hr
  · exact h.fields

theorem fields_giveUp : Fields base size (giveUp s c) := by
  unfold giveUp
  split
  · split
    · exact fields_setClient (fields_free h.fields _) c nofun
    · exact fields_setClient h.fields c nofun
  · exact h.fields

theorem fields_freeMsg : Fields base size (freeMsg s c) := by
  unfold freeMsg
  split
  · exact fields_setClient (fields_free h.fields _) c nofun
  · exact fields_setClient (fields_free h.fields _) c nofun
  · exact h.fields

end

theorem fields_handleNext (b : Build) (h : Inv base size s) (p : Nat) (calls : Calls)
    (room : Bool) : Fields base size (handleNext b s p calls room) := by
  unfold handleNext
  split
  · exact h.fields
  next a rest hbusy =>
    have ha : a ∈ s.held (.busy p) := by
      change a ∈ s.busy p
      rw [hbusy]
      exact mem_cons_self
    have hm := restorable_of_buffers (handled_keeps b calls (s.shm.action p) (s.shm.msg a)).2
      (h.fields.restorable a)
    have hset := fields_setMsg_held h ha (by simp) (fun _ _ _ => by simp) hm
    unfold handleMsg
    split
    · exact ⟨hset.pool, hset.alloced, hset.restorable⟩
    · have hfree := fields_free hset a
      exact ⟨hfree.pool, hfree.alloced, hfree.restorable⟩

theorem apart_giveUp (hA : Apart s.held) (c : Nat) (hcareful : Careful s (.giveUp c)) :
    Apart (giveUp s c).held := by
  unfold Careful at hcareful
  dsimp only at hcareful
  unfold giveUp
  split
  next r j hwaiting =>
    rw [hwaiting] at hcareful
    dsimp only at hcareful
    split
    next args hcall =>
      rw [hcall] at hcareful
      cases hcareful
    · have hsame : Client.owned .idle = s.held (.client c) := by
        change _ = (s.client c).owned
        rw [hwaiting]
        rfl
      rw [held_setClient, hsame, update_eq_self]
      exact hA
  · exact hA

/-- **A careful step** keeps the messages apart and their buffers. -/
theorem inv_step (b : Build) (h : Inv base size s) (op : Op) (hcareful : Careful s op) :
    Inv base size (step b s op) := by
  cases op with
  | start c r => exact ⟨apart_startCall h.apart c r, fields_startCall h c r⟩
  | fill c buf => exact ⟨apart_fillMsg h.apart c buf, fields_fillMsg h c buf hcareful⟩
  | send c room => exact ⟨apart_sendMsg h.apart c room, fields_sendMsg h c room⟩
  | recv c => exact ⟨apart_recvMsg h.apart c, fields_recvMsg h c⟩
  | giveUp c => exact ⟨apart_giveUp h.apart c hcareful, fields_giveUp h c⟩
  | free c => exact ⟨apart_freeMsg h.apart c, fields_freeMsg h c⟩
  | takeBurst p =>
    refine ⟨apart_takeBurst h.apart p, ?_⟩
    change Fields base size (takeBurst s p)
    unfold takeBurst
    split
    · exact ⟨h.fields.pool, h.fields.alloced, h.fields.restorable⟩
    · exact h.fields
  | handle p calls room =>
    exact ⟨apart_handleNext b h.apart p calls room, fields_handleNext b h p calls room⟩

/-! ## Runs -/

/-- Every step of the run is careful. -/
def CarefulRun (b : Build) : Sys → List Op → Prop := Run.Guarded (step b) Careful

end Fields

variable (base : Nat → Nat)

/-- The pool in order: no message is in it twice, none of it is on a ring or with a process, and
every message has its own buffer. -/
structure PoolOk (size : Nat) (s : Sys) : Prop where
  once : s.shm.pool.Nodup
  notOnRing : ∀ a ∈ s.shm.pool, ∀ p j, a ∉ s.shm.ring p j
  notBusy : ∀ a ∈ s.shm.pool, ∀ p, a ∉ s.busy p
  inline : ∀ a ∈ s.shm.pool, (s.shm.msg a).Inline (base a) size

theorem Inv.poolOk {base : Nat → Nat} {size : Nat} (h : Inv base size s) : PoolOk base size s where
  once := h.apart.nodup .pool
  notOnRing a ha p j hring := nomatch h.apart.unique .pool (.ring p j) a ha hring
  notBusy a ha p hbusy := nomatch h.apart.unique .pool (.busy p) a ha hbusy
  inline := h.fields.pool

/-- A message as `ff_msg_init` leaves it. -/
def ffMsgInit (base size : Nat) : Msg where
  msgType := 0
  result := 0
  bufLen := size
  bufAddr := base
  originalBuf := none
  originalBufLen := 0
  route := ⟨0, 0, 0⟩
  top := ⟨0, 0, 0, 0, 0⟩
  ngctl := ⟨0, 0⟩
  ipfw := ⟨0, 0, 0⟩
  traffic := ⟨0, 0, 0, 0, 0, 0⟩
  knictl := ⟨0, 0⟩

/-- The `n` messages are in the pool; the buffer of message `a` starts at `base a`. -/
def Sys.init (size n : Nat) : Sys where
  shm :=
    { msg := fun a => ffMsgInit (base a) size
      ring := fun _ _ => []
      pool := List.range n
      action := fun _ => 0 }
  client := fun _ => .idle
  busy := fun _ => []

theorem inv_init (size n : Nat) : Inv base size (Sys.init base size n) := by
  have hempty : ∀ k, k ≠ .pool → (Sys.init base size n).held k = [] := by
    intro k hk
    cases k with
    | pool => exact absurd rfl hk
    | ring p j => rfl
    | busy p => rfl
    | client c => rfl
  have hpool : ∀ k a, a ∈ (Sys.init base size n).held k → k = .pool := by
    intro k a ha
    by_contra hk
    rw [hempty k hk] at ha
    cases ha
  refine ⟨⟨fun k => ?_, fun k k' a ha ha' => (hpool k a ha).trans (hpool k' a ha').symm⟩,
    fun a _ => ⟨rfl, rfl, rfl⟩, nofun, fun a => ⟨rfl, rfl, rfl⟩⟩
  by_cases hk : k = .pool
  · subst hk
    exact nodup_range
  · rw [hempty k hk]
    exact nodup_nil

/-- Two messages of 10240 bytes, 64 of which come before the buffer. -/
def twoMsgs : Sys := .init (fun a => 10240 * a + 64) 10176 2

/-- Client 0 sends process 0 a call with message 0. -/
def sendCall (call : Call) : List Op := [.start 0 ⟨call, 0, 0⟩, .fill 0 none, .send 0 true]

/-- Process 0 answers, and the client takes the reply and frees the message. -/
def answerCall : List Op := [.takeBurst 0, .handle 0 (smooth 0).1 true, .recv 0, .recv 0, .free 0]

end FStack.Ipc
