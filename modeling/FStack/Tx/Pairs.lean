import FStack.Tx.Ring

/-!
# Transmit conservation with the page array

With `FF_USE_PAGE_ARRAY` a packet refers to the data of a BSD mbuf, which is kept in `bsd_m_table`
beside the packet, then in a ring of the port, and is freed when the ring comes round. Two producers
fill the tables: `ff_if_send_onepkt` writes both (`lib/ff_memory.c:512-515`), `send_single_packet`
only the first (`lib/ff_dpdk_if.c:2525-2527`), and no one clears the second. A send that drops its
packet returns the length 0, which `ff_dpdk_if_send` stores (`2555-2560`).

Results:
* `pageArray_ok_iff`: a run is in order throughout iff every dropped send finds the table empty, and
  every `send_single_packet` finds no BSD mbuf at its index.
* `pageArray_not_ok`: a packet lost, and a BSD mbuf put in the ring twice.
-/

namespace FStack.Tx

open Function List FStack.Lib

variable {p : TxPort}

/-! ## A port in order -/

/-- The BSD mbufs the packets of the table refer to. -/
def TxPort.owners (p : TxPort) : List Nat := p.table.flatMap fun m => m.bsd.toList

/-- `bsd_m_table[i]` belongs to `m_table[i]`. -/
def Paired (p : TxPort) : Prop := ∀ i m, p.table[i]? = some m → p.bsd i = m.bsd

/-- Every BSD mbuf given is with a packet of the table, or was freed or put in the ring, once. -/
def BsdOk (p : TxPort) : Prop :=
  (p.given : Multiset Nat) = p.owners + (p.released + p.enqueued)

/-- What holds on a port between two operations. -/
structure PortOk (p : TxPort) : Prop where
  kept : Kept p
  paired : Paired p
  bsd : BsdOk p
  ring : RingOk p

theorem recorded_eq_owners (h : Paired p) : recorded p.bsd p.table.zipIdx = p.owners := by
  unfold TxPort.owners
  nth_rewrite 2 [← zipIdx_map_fst 0 p.table]
  rw [flatMap_map]
  refine flatMap_congr fun x hx => ?_
  rw [h x.2 x.1 (mem_zipIdx_iff_getElem?.mp hx)]

/-- An empty table is paired, whatever `bsd_m_table` holds. -/
theorem paired_of_nil (h : p.table = []) : Paired p := by
  intro i m hm
  rw [h] at hm
  exact nomatch hm

/-- The account is right after a burst iff what was recorded is what was due. -/
theorem bsdOk_sendBurst_iff (accept : Nat) (s : TxPort × TxStat) :
    BsdOk ((sendBurst true accept s).1.setLen 0) ↔
      (s.1.given : Multiset Nat) =
        recorded s.1.bsd s.1.table.zipIdx + (s.1.released + s.1.enqueued) := by
  obtain ⟨en, re, h, hall⟩ := sendBurst_bsd accept s
  change ((sendBurst true accept s).1.given : Multiset Nat) =
    0 + ((sendBurst true accept s).1.released + (sendBurst true accept s).1.enqueued) ↔ _
  rw [h.given, h.released, h.enqueued, ← hall, zero_add, ← Multiset.coe_add, ← Multiset.coe_add,
    ← Multiset.coe_add, add_add_add_comm, add_comm (s.1.released + s.1.enqueued : Multiset Nat),
    add_comm (re : Multiset Nat)]

variable {s : TxPort × TxStat}

/-- A burst leaves the port in order, if it disposes of the BSD mbufs that are due. -/
theorem portOk_sendBurst_iff (accept : Nat) (hkept : Balanced s.1) (hring : RingOk s.1) :
    PortOk ((sendBurst true accept s).1.setLen 0) ↔
      (s.1.given : Multiset Nat) =
        recorded s.1.bsd s.1.table.zipIdx + (s.1.released + s.1.enqueued) := by
  obtain ⟨en, re, h, -⟩ := sendBurst_bsd accept s
  refine ⟨fun hok => (bsdOk_sendBurst_iff accept s).mp hok.bsd, fun hbsd => ?_⟩
  exact ⟨kept_sendBurst true accept hkept, paired_of_nil rfl,
    (bsdOk_sendBurst_iff accept s).mpr hbsd, h.ring hring⟩

theorem portOk_drainPort (accept : Nat) (h : PortOk s.1) : PortOk (drainPort true accept s).1 := by
  unfold drainPort
  split
  · exact h
  · refine (portOk_sendBurst_iff accept h.kept.1 h.ring).mpr ?_
    rw [recorded_eq_owners h.paired]
    exact h.bsd

/-! ## A packet more -/

/-- `p'` is `p` with the packet `m` put in the table, for which its BSD mbuf, if it has one, was
given. What `bsd_m_table` has at its index is left open. -/
structure Pushed (p p' : TxPort) (m : TxPkt) : Prop where
  table : p'.table = p.table ++ [m]
  bsd : ∀ i < p.table.length, p'.bsd i = p.bsd i
  ring : p'.ring = p.ring
  queued : p'.queued = p.queued ++ [m]
  driven : p'.driven = p.driven
  freed : p'.freed = p.freed
  given : p'.given = p.given ++ m.bsd.toList
  enqueued : p'.enqueued = p.enqueued
  released : p'.released = p.released
  recycled : p'.recycled = p.recycled

section Pushed

variable {p' : TxPort} {m : TxPkt}

section

variable (hp : Pushed p p' m)

include hp

theorem Pushed.length : p'.table.length = p.table.length + 1 := by
  rw [hp.table]
  exact length_append

theorem Pushed.balanced (h : Balanced p) : Balanced p' := by
  obtain ⟨gone, hqueued, hperm, hsub⟩ := h
  refine ⟨gone, ?_, ?_, ?_⟩
  · rw [hp.queued, hqueued, hp.table, append_assoc]
  · rw [hp.driven, hp.freed]
    exact hperm
  · rw [hp.driven]
    exact hsub

theorem Pushed.ringOk (h : RingOk p) : RingOk p' := by
  unfold RingOk
  rw [hp.ring, hp.enqueued, hp.recycled]
  exact h

theorem Pushed.owners : p'.owners = p.owners ++ m.bsd.toList := by
  unfold TxPort.owners
  rw [hp.table, flatMap_append, flatMap_singleton]

theorem Pushed.bsdOk (h : BsdOk p) : BsdOk p' := by
  unfold BsdOk
  rw [hp.given, hp.owners, hp.released, hp.enqueued, ← Multiset.coe_add, ← Multiset.coe_add, h,
    add_right_comm]

theorem Pushed.paired_iff (h : Paired p) : Paired p' ↔ p'.bsd p.table.length = m.bsd := by
  unfold Paired
  rw [hp.table]
  constructor
  · intro hpaired
    exact hpaired _ _ getElem?_concat_length
  · intro hlast i m' hm'
    by_cases hi : i < p.table.length
    · rw [getElem?_append_left hi] at hm'
      rw [hp.bsd i hi]
      exact h i m' hm'
    · obtain ⟨hlt, -⟩ := List.getElem?_eq_some_iff.mp hm'
      rw [length_append, length_singleton] at hlt
      have hi' : i = p.table.length := by omega
      subst hi'
      rw [getElem?_concat_length] at hm'
      rw [hlast, Option.some.inj hm']

theorem Pushed.recorded (h : Paired p) :
    recorded p'.bsd p'.table.zipIdx = p.owners ++ (p'.bsd p.table.length).toList := by
  have hsingle : Tx.recorded p'.bsd ([m].zipIdx (0 + p.table.length)) =
      (p'.bsd p.table.length).toList := by
    rw [zero_add]
    exact flatMap_singleton _ _
  have hbelow : Tx.recorded p'.bsd p.table.zipIdx = Tx.recorded p.bsd p.table.zipIdx := by
    refine flatMap_congr fun x hx => ?_
    obtain ⟨hlt, -⟩ := List.getElem?_eq_some_iff.mp (List.mem_zipIdx_iff_getElem?.mp hx)
    rw [hp.bsd x.2 hlt]
  rw [hp.table, zipIdx_append, recorded_append, hsingle, hbelow, recorded_eq_owners h]

end

theorem coe_toList_inj {v v' : Option Nat} : (v.toList : Multiset Nat) = v'.toList ↔ v = v' := by
  cases v <;> cases v' <;> simp

/-- **A packet more** leaves the port in order iff `bsd_m_table` has its BSD mbuf at its index. -/
theorem portOk_pushed_iff (h : PortOk p) (hp : Pushed p p' m) (accept : Nat) (stat : TxStat) :
    PortOk (sendIfFull true accept (p.table.length + 1) (p', stat)).1 ↔
      p'.bsd p.table.length = m.bsd := by
  unfold sendIfFull
  split
  · -- The table is sent: what is recorded at the last index is disposed of in the packet's place.
    rw [portOk_sendBurst_iff accept (s := (p', stat)) (hp.balanced h.kept.1) (hp.ringOk h.ring)]
    rw [hp.recorded h.paired, hp.given, hp.released, hp.enqueued, ← Multiset.coe_add,
      ← Multiset.coe_add, h.bsd, add_right_comm, add_left_inj, add_right_inj, coe_toList_inj]
    exact eq_comm
  next hroom =>
    rw [← hp.length, setLen_length]
    refine ⟨fun hok => (hp.paired_iff h.paired).mp hok.paired, fun hlast => ?_⟩
    have hlen : p'.table.length < maxPktBurst := by
      rw [hp.length]
      exact lt_of_le_of_ne h.kept.2 hroom
    exact ⟨⟨hp.balanced h.kept.1, hlen⟩, (hp.paired_iff h.paired).mpr hlast, hp.bsdOk h.bsd,
      hp.ringOk h.ring⟩

end Pushed

/-! ## The calls -/

/-- `send_single_packet` writes no BSD mbuf: what an earlier packet left at its index must be
none. -/
theorem portOk_sendSinglePacket_iff (h : PortOk s.1) (accept : Nat)
    {m : TxPkt} (hm : m.bsd = none) :
    PortOk (sendSinglePacket true accept m s).1 ↔ s.1.bsd s.1.table.length = none := by
  have hgiven : (s.1.push m).given = s.1.given ++ m.bsd.toList := by
    rw [hm]
    exact (append_nil _).symm
  have hp : Pushed s.1 (s.1.push m) m :=
    ⟨rfl, fun _ _ => rfl, rfl, rfl, rfl, rfl, hgiven, rfl, rfl, rfl⟩
  unfold sendSinglePacket
  rw [portOk_pushed_iff h hp accept s.2, hm]
  rfl

variable {rooms : List (Option Room)} {total : Nat} {m : Option BsdBuf}

theorem buildPkt_bsd {copyable : Option Nat}
    {head : TxPkt} (h : buildPkt copyable rooms total = .ok head) : head.bsd = none := by
  unfold buildPkt at h
  split at h
  · cases h
  · cases h
  · split at h
    · cases h
    · cases h
      rfl

theorem portOk_ffDpdkRawPacketSend_iff (h : PortOk s.1) (accept : Nat)
    (rooms : List (Option Room)) (total : Nat) :
    PortOk (ffDpdkRawPacketSend true accept rooms total s).1 ↔
      ((buildPkt none rooms total).isOk → s.1.bsd s.1.table.length = none) := by
  unfold ffDpdkRawPacketSend
  cases hbuild : buildPkt none rooms total with
  | error dropped => exact ⟨fun _ => nofun, fun _ => h⟩
  | ok head =>
    rw [portOk_sendSinglePacket_iff h accept (buildPkt_bsd hbuild)]
    exact ⟨fun hnone _ => hnone, fun hnone => hnone rfl⟩

/-- The packet `ff_if_send_onepkt` makes, if it does not drop. -/
def paPkt (rooms : List (Option Room)) (m : Option BsdBuf) (total : Nat) : Option TxPkt :=
  m.bind fun m => if m.inPages then ffBsdToRte rooms m total else ffExtclToRte rooms m

theorem ffBsdToRte_bsd {m : BsdBuf} {head : TxPkt}
    (h : ffBsdToRte rooms m total = some head) : head.bsd = some m.id := by
  unfold ffBsdToRte at h
  split at h
  · split at h
    · cases h
      rfl
    · cases h
  · cases h

theorem ffExtclToRte_bsd {m : BsdBuf} {head : TxPkt}
    (h : ffExtclToRte rooms m = some head) : head.bsd = some m.id := by
  unfold ffExtclToRte at h
  split at h
  · cases h
    rfl
  · cases h

/-- A send that makes a packet. -/
theorem ffIfSendOnepkt_pushed {head : TxPkt} (h : paPkt rooms m total = some head) (p : TxPort) :
    (ffIfSendOnepkt rooms m total p).2 = p.table.length + 1 ∧
      Pushed p (ffIfSendOnepkt rooms m total p).1 head ∧
      (ffIfSendOnepkt rooms m total p).1.bsd p.table.length = head.bsd := by
  cases m with
  | none => cases h
  | some m =>
    have hpkt : (if m.inPages then ffBsdToRte rooms m total else ffExtclToRte rooms m) =
      some head := h
    have hbsd : head.bsd = some m.id := by
      split at hpkt
      · exact ffBsdToRte_bsd hpkt
      · exact ffExtclToRte_bsd hpkt
    have hlast : update p.bsd p.table.length (some m.id) p.table.length = head.bsd := by
      rw [update_self, hbsd]
    have hgiven : p.given ++ [m.id] = p.given ++ head.bsd.toList := by
      rw [hbsd]
      rfl
    unfold ffIfSendOnepkt
    dsimp only
    rw [hpkt]
    refine ⟨rfl, ⟨rfl, fun i hi => ?_, rfl, rfl, rfl, rfl, hgiven, rfl, rfl, rfl⟩, hlast⟩
    exact update_of_ne hi.ne _ _

/-- A send that drops: it returns 0, and the BSD mbuf, if there is one, is freed. -/
theorem ffIfSendOnepkt_dropped (h : paPkt rooms m total = none) (p : TxPort) :
    ffIfSendOnepkt rooms m total p =
      ({ p with
          given := p.given ++ (m.map BsdBuf.id).toList
          released := p.released ++ (m.map BsdBuf.id).toList }, 0) := by
  cases m with
  | none =>
    rw [Option.map_none, Option.toList_none, append_nil, append_nil]
    rfl
  | some m =>
    have hpkt : (if m.inPages then ffBsdToRte rooms m total else ffExtclToRte rooms m) = none := h
    unfold ffIfSendOnepkt
    dsimp only
    rw [hpkt]
    rfl

theorem Balanced.length_queued (h : Balanced p) :
    p.queued.length = p.driven.length + p.freed.length + p.table.length := by
  obtain ⟨gone, hqueued, hperm, -⟩ := h
  rw [hqueued, length_append, hperm.length_eq, length_append]

/-- A dropped send leaves the table empty, whatever was in it. -/
theorem ffDpdkIfSendPa_dropped (h : paPkt rooms m total = none) (accept : Nat) (s : TxPort × TxStat)
    : (ffDpdkIfSendPa accept rooms m total s).1 =
      { s.1 with
        table := []
        given := s.1.given ++ (m.map BsdBuf.id).toList
        released := s.1.released ++ (m.map BsdBuf.id).toList } := by
  unfold ffDpdkIfSendPa
  rw [ffIfSendOnepkt_dropped h]
  rfl

/-- **A send** leaves the port in order iff it makes its packet or finds the table empty. -/
theorem portOk_ffDpdkIfSendPa_iff (h : PortOk s.1) (accept : Nat)
    (rooms : List (Option Room)) (m : Option BsdBuf) (total : Nat) :
    PortOk (ffDpdkIfSendPa accept rooms m total s).1 ↔
      (paPkt rooms m total = none → s.1.table = []) := by
  cases hpkt : paPkt rooms m total with
  | some head =>
    obtain ⟨hlen, hp, hlast⟩ := ffIfSendOnepkt_pushed hpkt s.1
    unfold ffDpdkIfSendPa
    dsimp only
    rw [hlen]
    exact ⟨fun _ => nofun, fun _ => (portOk_pushed_iff h hp accept s.2).mpr hlast⟩
  | none =>
    rw [ffDpdkIfSendPa_dropped hpkt, forall_prop_of_true rfl]
    constructor
    · intro hok
      have hbefore := h.kept.1.length_queued
      have hafter : s.1.queued.length = s.1.driven.length + s.1.freed.length + 0 :=
        hok.kept.1.length_queued
      exact length_eq_zero_iff.mp (Nat.add_left_cancel (hbefore.symm.trans hafter))
    · intro hnil
      obtain ⟨hkept, -, hbsd, hring⟩ := h
      refine ⟨?_, paired_of_nil rfl, ?_, hring⟩
      · unfold Kept Balanced at hkept ⊢
        rw [hnil] at hkept
        exact hkept
      · unfold BsdOk TxPort.owners at hbsd ⊢
        rw [hnil] at hbsd
        rw [← Multiset.coe_add, ← Multiset.coe_add, hbsd, add_assoc, add_right_comm]

/-! ## The lcore -/

/-- Every port is in order. -/
def PaOk (s : TxState) : Prop := ∀ q, PortOk (s.port q)

/-- A step that drops a packet before it is in a table. -/
def Drops : TxOp (Option BsdBuf) → Prop
  | .send _ _ rooms m total => paPkt rooms m total = none
  | .sendNoCtx => True
  | .raw _ _ rooms total => ¬ (buildPkt none rooms total).isOk
  | .respond _ _ _ => False
  | .drain _ => False

/-- The build's step. -/
def paStep (ports : List Nat) (s : TxState) (op : TxOp (Option BsdBuf)) : TxState :=
  txStep true ports ffDpdkIfSendPa s op

/-- A dropped packet removes no other. -/
def Undisturbed (ports : List Nat) (s : TxState) (op : TxOp (Option BsdBuf)) : Prop :=
  Drops op → ∀ q, ((paStep ports s op).port q).table = (s.port q).table

/-- A send that drops finds its table empty, and `send_single_packet` finds no BSD mbuf at its
index. -/
def Fine (s : TxState) : TxOp (Option BsdBuf) → Prop
  | .send q _ rooms m total => paPkt rooms m total = none → (s.port q).table = []
  | .sendNoCtx => True
  | .raw q _ rooms total =>
    (buildPkt none rooms total).isOk → (s.port q).bsd (s.port q).table.length = none
  | .respond q _ _ => (s.port q).bsd (s.port q).table.length = none
  | .drain _ => True

variable {s : TxState} {q : Nat} {f : TxPort × TxStat → TxPort × TxStat}

theorem paOk_onPort_iff (h : PaOk s) : PaOk (s.onPort q f) ↔ PortOk (f (s.port q, s.stat)).1 := by
  have hupdate : PaOk (s.onPort q f) ↔
      PortOk (f (s.port q, s.stat)).1 ∧ ∀ r, r ≠ q → PortOk (s.port r) :=
    forall_update_iff s.port fun _ p => PortOk p
  rw [hupdate]
  exact and_iff_left fun r _ => h r

variable (ports : List Nat)

/-- **One step** leaves every port in order iff it is fine. -/
theorem paOk_paStep_iff (h : PaOk s) (op : TxOp (Option BsdBuf)) :
    PaOk (paStep ports s op) ↔ Fine s op := by
  cases op with
  | send q accept rooms m total =>
    exact (paOk_onPort_iff h).trans (portOk_ffDpdkIfSendPa_iff (h q) accept rooms m total)
  | sendNoCtx => exact iff_of_true h trivial
  | raw q accept rooms total =>
    exact (paOk_onPort_iff h).trans (portOk_ffDpdkRawPacketSend_iff (h q) accept rooms total)
  | respond q accept m =>
    exact (paOk_onPort_iff h).trans (portOk_sendSinglePacket_iff (h q) accept rfl)
  | drain accept =>
    exact iff_of_true (forall_drain true accept (fun k _ => portOk_drainPort k) ports h) trivial

/-- A call that leaves the table of its port as it is, leaves every table. -/
theorem table_onPort (hf : (f (s.port q, s.stat)).1.table = (s.port q).table) (r : Nat) :
    ((s.onPort q f).port r).table = (s.port r).table := by
  unfold TxState.onPort
  dsimp only
  by_cases hr : r = q
  · subst hr
    rw [update_self]
    exact hf
  · rw [update_of_ne hr]

theorem undisturbed_of_fine {op : TxOp (Option BsdBuf)} (h : Fine s op) :
    Undisturbed ports s op := by
  intro hdrops
  cases op with
  | send q accept rooms m total =>
    refine table_onPort ?_
    rw [ffDpdkIfSendPa_dropped hdrops]
    exact (h hdrops).symm
  | sendNoCtx => exact fun _ => rfl
  | raw q accept rooms total =>
    refine table_onPort ?_
    unfold ffDpdkRawPacketSend
    cases hbuild : buildPkt none rooms total with
    | error dropped => rfl
    | ok head =>
      refine absurd ?_ hdrops
      rw [hbuild]
      rfl
  | respond q accept m | drain accept => exact hdrops.elim

/-- The run is in order: every port in every state on the way, and no dropped packet removes
another. -/
def PaRunOk (ports : List Nat) : TxState → List (TxOp (Option BsdBuf)) → Prop
  | s, [] => PaOk s
  | s, op :: ops => PaOk s ∧ Undisturbed ports s op ∧ PaRunOk ports (paStep ports s op) ops

/-- Every step of the run is fine. -/
def FineRun (ports : List Nat) : TxState → List (TxOp (Option BsdBuf)) → Prop
  | _, [] => True
  | s, op :: ops => Fine s op ∧ FineRun ports (paStep ports s op) ops

theorem PaRunOk.head {ports : List Nat} {ops : List (TxOp (Option BsdBuf))}
    (h : PaRunOk ports s ops) : PaOk s := by
  cases ops with
  | nil => exact h
  | cons op ops => exact h.1

theorem paRunOk_iff_fineRun (ops : List (TxOp (Option BsdBuf)))
    (h : PaOk s) : PaRunOk ports s ops ↔ FineRun ports s ops := by
  induction ops generalizing s with
  | nil => exact iff_of_true h trivial
  | cons op ops ih =>
    constructor
    · rintro ⟨-, -, hrest⟩
      exact ⟨(paOk_paStep_iff ports h op).mp hrest.head, (ih hrest.head).mp hrest⟩
    · rintro ⟨hfine, hrest⟩
      exact ⟨h, undisturbed_of_fine ports hfine,
        (ih ((paOk_paStep_iff ports h op).mpr hfine)).mpr hrest⟩

theorem paOk_init : PaOk .init := by
  intro q
  have hbufs : TxRing.bufs ⟨fun _ => none, 0⟩ = 0 := by
    unfold TxRing.bufs load
    exact Finset.sum_eq_zero fun _ _ => rfl
  refine ⟨kept_init q, paired_of_nil rfl, rfl, Nat.succ_pos _, ?_⟩
  exact (congrArg (· + (0 : Multiset Nat)) hbufs).symm

/-- **Transmit conservation with the page array**: a run is in order throughout iff all its steps
are fine. -/
theorem pageArray_ok_iff (ops : List (TxOp (Option BsdBuf))) :
    PaRunOk ports .init ops ↔ FineRun ports .init ops :=
  paRunOk_iff_fineRun ports ops paOk_init

/-- The stack sends the BSD mbuf `id`; `room` is what the allocation returns. -/
def sendBuf (id : Nat) (room : Option Room) : TxOp (Option BsdBuf) :=
  .send 0 0 [room] (some ⟨id, 60, 0, true, none⟩) 60

/-- A send, and one whose allocation fails. -/
def dropRun : List (TxOp (Option BsdBuf)) := [sendBuf 9 (some ⟨1, 2048⟩), sendBuf 10 none]

/-- A send, and a dispatcher's response that gets the same index after a drain. -/
def staleRun : List (TxOp (Option BsdBuf)) :=
  [sendBuf 9 (some ⟨1, 2048⟩), .drain fun _ => 1, .respond 0 0 ⟨2, 1, 60, none⟩, .drain fun _ => 1]

/-- The dropped send loses the packet queued before it; and the response has the BSD mbuf of the
send put in the ring again. -/
theorem pageArray_not_ok :
    (((runPa [0] dropRun).port 0).queued = [⟨1, 1, 60, some 9⟩] ∧
      ((runPa [0] dropRun).port 0).table = [] ∧ ((runPa [0] dropRun).port 0).driven = [] ∧
      ((runPa [0] dropRun).port 0).freed = [] ∧ ¬ PaRunOk [0] .init dropRun) ∧
    ((runPa [0] staleRun).port 0).given = [9] ∧
      ((runPa [0] staleRun).port 0).enqueued = [9, 9] ∧ ¬ PaRunOk [0] .init staleRun := by
  refine ⟨⟨rfl, rfl, rfl, rfl, fun h => ?_⟩, rfl, rfl, fun h => ?_⟩
  · have hfine := (paRunOk_iff_fineRun [0] dropRun paOk_init).mp h
    exact cons_ne_nil _ _ (hfine.2.1 rfl)
  · have hfine := (paRunOk_iff_fineRun [0] staleRun paOk_init).mp h
    exact Option.some_ne_none _ hfine.2.2.1

end FStack.Tx
