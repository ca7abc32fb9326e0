import FStack.Tx.Burst

/-!
# Transmit conservation and order

In the build without `FF_USE_PAGE_ARRAY`, over every sequence of sends, raw sends, dispatcher
responses and drain rounds: each packet put in a port's table is given to the driver once or freed
once, the driver gets the packets in the order they were queued, and a table has less than
`MAX_PKT_BURST` packets between calls (`Kept`). But `send_burst` (`lib/ff_dpdk_if.c:2495-2499`)
reads `nb_segs` and `pkt_len` of every packet after `rte_eth_tx_burst` accepted it, when the packet
is the driver's and may be free already.

Results:
* `transmit_ok_iff`: no packet is read late iff the driver never accepts one.
* `transmit_reads_late`: one packet, drained.
-/

namespace FStack.Tx

open Function List

variable (pa : Bool) {p : TxPort}

/-! ## A burst -/

/-- What a loop of `send_burst` leaves alone. -/
structure SameTable (p p' : TxPort) : Prop where
  table : p'.table = p.table
  queued : p'.queued = p.queued
  driven : p'.driven = p.driven

theorem SameTable.trans {p' p'' : TxPort} (h : SameTable p p') (h' : SameTable p' p'') :
    SameTable p p'' :=
  ⟨h'.table.trans h.table, h'.queued.trans h.queued, h'.driven.trans h.driven⟩

theorem acceptOne_spec (s : TxPort × TxStat) (x : TxPkt × Nat) :
    SameTable s.1 (acceptOne pa s x).1 ∧ (acceptOne pa s x).1.late = s.1.late ++ [x.1] ∧
      (acceptOne pa s x).1.freed = s.1.freed := by
  unfold acceptOne
  dsimp only
  split <;> exact ⟨⟨rfl, rfl, rfl⟩, rfl, rfl⟩

theorem dropOne_spec (s : TxPort × TxStat) (x : TxPkt × Nat) :
    SameTable s.1 (dropOne pa s x).1 ∧ (dropOne pa s x).1.late = s.1.late ∧
      (dropOne pa s x).1.freed = s.1.freed ++ [x.1] := by
  unfold dropOne
  dsimp only
  split <;> exact ⟨⟨rfl, rfl, rfl⟩, rfl, rfl⟩

theorem foldl_acceptOne (xs : List (TxPkt × Nat)) (s : TxPort × TxStat) :
    SameTable s.1 (xs.foldl (acceptOne pa) s).1 ∧
      (xs.foldl (acceptOne pa) s).1.late = s.1.late ++ xs.map Prod.fst ∧
      (xs.foldl (acceptOne pa) s).1.freed = s.1.freed := by
  induction xs generalizing s with
  | nil => exact ⟨⟨rfl, rfl, rfl⟩, (append_nil _).symm, rfl⟩
  | cons x xs ih =>
    obtain ⟨hs, hlate, hfreed⟩ := acceptOne_spec pa s x
    obtain ⟨hs', hlate', hfreed'⟩ := ih (acceptOne pa s x)
    refine ⟨hs.trans hs', ?_, hfreed'.trans hfreed⟩
    rw [foldl_cons, hlate', hlate, append_assoc]
    rfl

theorem foldl_dropOne (xs : List (TxPkt × Nat)) (s : TxPort × TxStat) :
    SameTable s.1 (xs.foldl (dropOne pa) s).1 ∧
      (xs.foldl (dropOne pa) s).1.late = s.1.late ∧
      (xs.foldl (dropOne pa) s).1.freed = s.1.freed ++ xs.map Prod.fst := by
  induction xs generalizing s with
  | nil => exact ⟨⟨rfl, rfl, rfl⟩, rfl, (append_nil _).symm⟩
  | cons x xs ih =>
    obtain ⟨hs, hlate, hfreed⟩ := dropOne_spec pa s x
    obtain ⟨hs', hlate', hfreed'⟩ := ih (dropOne pa s x)
    refine ⟨hs.trans hs', hlate'.trans hlate, ?_⟩
    rw [foldl_cons, hfreed', hfreed, append_assoc]
    rfl

/-- **A burst**: the first `accept` packets go to the driver and are read afterwards, the others are
freed. -/
theorem sendBurst_spec (accept : Nat) (s : TxPort × TxStat) :
    (sendBurst pa accept s).1.table = s.1.table ∧ (sendBurst pa accept s).1.queued = s.1.queued ∧
      (sendBurst pa accept s).1.driven = s.1.driven ++ s.1.table.take accept ∧
      (sendBurst pa accept s).1.late = s.1.late ++ s.1.table.take accept ∧
      (sendBurst pa accept s).1.freed = s.1.freed ++ s.1.table.drop accept := by
  unfold sendBurst
  dsimp only
  obtain ⟨h1, hlate1, hfreed1⟩ := foldl_acceptOne pa (s.1.table.take accept).zipIdx
    ({ s.1 with driven := s.1.driven ++ s.1.table.take accept }, s.2)
  generalize (s.1.table.take accept).zipIdx.foldl (acceptOne pa)
    ({ s.1 with driven := s.1.driven ++ s.1.table.take accept }, s.2) = t at h1 hlate1 hfreed1 ⊢
  obtain ⟨h2, hlate2, hfreed2⟩ := foldl_dropOne pa
    ((t.1.table.drop accept).zipIdx (s.1.table.take accept).length) t
  have h := h1.trans h2
  refine ⟨h.table, h.queued, h.driven, ?_, ?_⟩
  · rw [hlate2, hlate1, zipIdx_map_fst]
  · rw [hfreed2, hfreed1, zipIdx_map_fst, h1.table]

/-! ## The tables -/

/-- What was queued is in the table still, or was given to the driver or freed, each once; and the
driver got its packets in order. -/
def Balanced (p : TxPort) : Prop :=
  ∃ gone, p.queued = gone ++ p.table ∧ gone.Perm (p.driven ++ p.freed) ∧ p.driven.Sublist gone

/-- A port between calls. -/
def Kept (p : TxPort) : Prop := Balanced p ∧ p.table.length < maxPktBurst

theorem balanced_push (h : Balanced p) (m : TxPkt) : Balanced (p.push m) := by
  obtain ⟨gone, hq, hperm, hsub⟩ := h
  refine ⟨gone, ?_, hperm, hsub⟩
  unfold TxPort.push
  rw [hq, append_assoc]

variable {s : TxPort × TxStat}

section

variable (accept : Nat)

/-- A burst and `len = 0`. -/
theorem kept_sendBurst (h : Balanced s.1) : Kept ((sendBurst pa accept s).1.setLen 0) := by
  obtain ⟨gone, hq, hperm, hsub⟩ := h
  obtain ⟨-, hqueued, hdriven, -, hfreed⟩ := sendBurst_spec pa accept s
  refine ⟨⟨gone ++ s.1.table, ?_, ?_, ?_⟩, Nat.succ_pos _⟩
  · exact hqueued.trans (hq.trans (append_nil _).symm)
  · change (gone ++ s.1.table).Perm ((sendBurst pa accept s).1.driven ++
      (sendBurst pa accept s).1.freed)
    rw [hdriven, hfreed]
    have hsplit : (gone ++ s.1.table).Perm
        (s.1.driven ++ s.1.freed ++ (s.1.table.take accept ++ s.1.table.drop accept)) := by
      rw [take_append_drop]
      exact hperm.append_right _
    rw [append_assoc] at hsplit ⊢
    exact hsplit.trans ((perm_append_comm_assoc _ _ _).append_left _)
  · change (sendBurst pa accept s).1.driven.Sublist _
    rw [hdriven]
    exact hsub.append (take_sublist _ _)

theorem setLen_length (p : TxPort) : p.setLen p.table.length = p := by
  unfold TxPort.setLen
  rw [take_length]

theorem kept_sendIfFull (h : Balanced s.1) (hlen : s.1.table.length ≤ maxPktBurst) :
    Kept (sendIfFull pa accept s.1.table.length s).1 := by
  unfold sendIfFull
  split
  · exact kept_sendBurst pa accept h
  next hne =>
    rw [setLen_length]
    exact ⟨h, Nat.lt_of_le_of_ne hlen hne⟩

theorem kept_sendSinglePacket (m : TxPkt) (h : Kept s.1) :
    Kept (sendSinglePacket pa accept m s).1 := by
  have hlen : (s.1.push m).table.length = s.1.table.length + 1 := length_append
  unfold sendSinglePacket
  rw [← hlen]
  refine kept_sendIfFull pa accept (s := (s.1.push m, s.2)) (balanced_push h.1 m) ?_
  rw [hlen]
  exact h.2

theorem kept_drainPort (h : Kept s.1) : Kept (drainPort pa accept s).1 := by
  unfold drainPort
  split
  · exact h
  · exact kept_sendBurst pa accept h.1

theorem kept_ffDpdkIfSend (rooms : List (Option Room)) (m : BsdBuf) (total : Nat)
    (h : Kept s.1) : Kept (ffDpdkIfSend accept rooms m total s).1 := by
  unfold ffDpdkIfSend
  split
  · exact h
  · exact kept_sendSinglePacket false accept _ (s := (_, s.2)) h

theorem kept_ffDpdkRawPacketSend (rooms : List (Option Room)) (total : Nat)
    (h : Kept s.1) : Kept (ffDpdkRawPacketSend pa accept rooms total s).1 := by
  unfold ffDpdkRawPacketSend
  split
  · exact h
  · exact kept_sendSinglePacket pa accept _ h

end

/-! ## The lcore -/

section Lcore

variable {s : TxState} {q : Nat} {f : TxPort × TxStat → TxPort × TxStat} {P : TxPort → Prop}
  {xs : List TxPkt}

/-- What holds of every port holds after a call on one, if the call keeps it there. -/
theorem forall_onPort (h : ∀ r, P (s.port r)) (hq : P (f (s.port q, s.stat)).1) (r : Nat) :
    P ((s.onPort q f).port r) :=
  (forall_update_iff s.port fun _ p => P p).mpr ⟨hq, fun r _ => h r⟩ r

theorem forall_drain (accept : Nat → Nat) (hP : ∀ k t, P t.1 → P (drainPort pa k t).1)
    (ports : List Nat) (h : ∀ r, P (s.port r)) (r : Nat) :
    P ((ports.foldl (fun s q => s.onPort q (drainPort pa (accept q))) s).port r) := by
  induction ports generalizing s with
  | nil => exact h r
  | cons q ports ih => exact ih (forall_onPort h (hP _ _ (h q)))

variable (ports : List Nat)

/-- **Every step keeps the tables.** -/
theorem kept_txStep (h : ∀ r, Kept (s.port r)) (op : TxOp BsdBuf) (r : Nat) :
    Kept ((txStep false ports ffDpdkIfSend s op).port r) := by
  cases op with
  | send q accept rooms m total =>
    exact forall_onPort h (kept_ffDpdkIfSend accept rooms m total (h q)) r
  | sendNoCtx => exact h r
  | raw q accept rooms total =>
    exact forall_onPort h (kept_ffDpdkRawPacketSend false accept rooms total (h q)) r
  | respond q accept m => exact forall_onPort h (kept_sendSinglePacket false accept _ (h q)) r
  | drain accept => exact forall_drain false accept (fun k _ => kept_drainPort false k) ports h r

theorem kept_txRun (ops : List (TxOp BsdBuf)) (h : ∀ r, Kept (s.port r))
    (r : Nat) : Kept ((txRun false ports ffDpdkIfSend s ops).port r) := by
  induction ops generalizing s with
  | nil => exact h r
  | cons op ops ih => exact ih (kept_txStep ports h op)

theorem kept_init (r : Nat) : Kept (TxState.init.port r) :=
  ⟨⟨[], rfl, Perm.refl _, Sublist.refl _⟩, Nat.succ_pos _⟩

/-! ## Reads after the hand-off -/

/-- No packet was read after the driver accepted it. -/
def Clean (s : TxState) : Prop := ∀ q, (s.port q).late = []

/-- A port whose next packet fills the table has a burst; the driver accepts none of it. -/
def QuietPush (accept : Nat) (p : TxPort) : Prop :=
  p.table.length + 1 = maxPktBurst → accept = 0

/-- The driver accepts no packet of a burst of the step. -/
def Quiet (s : TxState) : TxOp BsdBuf → Prop
  | .send q accept rooms m total =>
    (buildPkt (some m.hdrLen) rooms total).isOk → QuietPush accept (s.port q)
  | .sendNoCtx => True
  | .raw q accept rooms total => (buildPkt none rooms total).isOk → QuietPush accept (s.port q)
  | .respond q accept _ => QuietPush accept (s.port q)
  | .drain accept => ∀ q ∈ ports, (s.port q).table ≠ [] → accept q = 0

/-- Every step of the run is quiet. -/
def QuietRun (ports : List Nat) : TxState → List (TxOp BsdBuf) → Prop
  | _, [] => True
  | s, op :: ops => Quiet ports s op ∧ QuietRun ports (txStep false ports ffDpdkIfSend s op) ops

/-- A call that reads `xs` late on its port. -/
theorem clean_onPort_iff (hf : (f (s.port q, s.stat)).1.late = (s.port q).late ++ xs) :
    Clean (s.onPort q f) ↔ Clean s ∧ xs = [] := by
  have hupdate : Clean (s.onPort q f) ↔
      (f (s.port q, s.stat)).1.late = [] ∧ ∀ r, r ≠ q → (s.port r).late = [] :=
    forall_update_iff s.port fun _ p => p.late = []
  rw [hupdate, hf, append_eq_nil_iff]
  constructor
  · rintro ⟨⟨hq, hxs⟩, hr⟩
    refine ⟨fun r => ?_, hxs⟩
    by_cases h : r = q
    · rw [h]
      exact hq
    · exact hr r h
  · rintro ⟨h, hxs⟩
    exact ⟨⟨h q, hxs⟩, fun r _ => h r⟩

/-- A call that reads nothing late. -/
theorem clean_onPort_iff_of_eq (hf : (f (s.port q, s.stat)).1.late = (s.port q).late) :
    Clean (s.onPort q f) ↔ Clean s := by
  rw [clean_onPort_iff (hf.trans (append_nil _).symm)]
  exact and_iff_left rfl

theorem take_eq_nil_iff_of_ne (h : xs ≠ []) (k : Nat) : xs.take k = [] ↔ k = 0 := by
  rw [take_eq_nil_iff]
  exact or_iff_left h

section

variable (accept : Nat)

theorem sendSinglePacket_late (m : TxPkt) (t : TxPort × TxStat) :
    (sendSinglePacket pa accept m t).1.late = t.1.late ++
      if t.1.table.length + 1 = maxPktBurst then (t.1.table ++ [m]).take accept else [] := by
  unfold sendSinglePacket sendIfFull
  split
  · exact (sendBurst_spec pa accept (t.1.push m, t.2)).2.2.2.1
  · exact (append_nil _).symm

/-- What a push reads late is nothing iff it is quiet. -/
theorem pushLate_eq_nil_iff (m : TxPkt) (p : TxPort) :
    (if p.table.length + 1 = maxPktBurst then (p.table ++ [m]).take accept else []) = [] ↔
      QuietPush accept p := by
  split
  next hfull =>
    rw [take_eq_nil_iff_of_ne (append_ne_nil_of_right_ne_nil _ (cons_ne_nil _ _))]
    exact ⟨fun h _ => h, fun h => h hfull⟩
  next hroom => exact ⟨fun _ hfull => absurd hfull hroom, fun _ => rfl⟩

theorem clean_sendSinglePacket_iff (m : TxPkt) :
    Clean (s.onPort q (sendSinglePacket pa accept m)) ↔ Clean s ∧ QuietPush accept (s.port q) := by
  rw [clean_onPort_iff (sendSinglePacket_late pa accept m _), pushLate_eq_nil_iff]

variable (rooms : List (Option Room))

theorem clean_ffDpdkIfSend_iff (m : BsdBuf) (total : Nat) :
    Clean (s.onPort q (ffDpdkIfSend accept rooms m total)) ↔
      Clean s ∧ ((buildPkt (some m.hdrLen) rooms total).isOk → QuietPush accept (s.port q)) := by
  cases hbuild : buildPkt (some m.hdrLen) rooms total with
  | error dropped =>
    have hlate (t : TxPort × TxStat) :
        (ffDpdkIfSend accept rooms m total t).1.late = t.1.late := by
      unfold ffDpdkIfSend
      rw [hbuild]
    rw [clean_onPort_iff_of_eq (hlate _)]
    exact (and_iff_left nofun).symm
  | ok head =>
    have hlate (t : TxPort × TxStat) : (ffDpdkIfSend accept rooms m total t).1.late =
        t.1.late ++
          if t.1.table.length + 1 = maxPktBurst then (t.1.table ++ [head]).take accept else [] := by
      unfold ffDpdkIfSend
      rw [hbuild]
      exact sendSinglePacket_late false accept head (_, t.2)
    rw [clean_onPort_iff (hlate _), pushLate_eq_nil_iff]
    exact and_congr_right fun _ => ⟨fun h _ => h, fun h => h rfl⟩

theorem clean_ffDpdkRawPacketSend_iff (total : Nat) :
    Clean (s.onPort q (ffDpdkRawPacketSend pa accept rooms total)) ↔
      Clean s ∧ ((buildPkt none rooms total).isOk → QuietPush accept (s.port q)) := by
  cases hbuild : buildPkt none rooms total with
  | error dropped =>
    have hlate (t : TxPort × TxStat) :
        (ffDpdkRawPacketSend pa accept rooms total t).1.late = t.1.late := by
      unfold ffDpdkRawPacketSend
      rw [hbuild]
    rw [clean_onPort_iff_of_eq (hlate _)]
    exact (and_iff_left nofun).symm
  | ok head =>
    have hsend : ffDpdkRawPacketSend pa accept rooms total = sendSinglePacket pa accept head := by
      unfold ffDpdkRawPacketSend
      rw [hbuild]
    rw [hsend, clean_sendSinglePacket_iff]
    exact and_congr_right fun _ => ⟨fun h _ => h, fun h => h rfl⟩

theorem drainPort_spec (t : TxPort × TxStat) :
    (drainPort pa accept t).1.table = [] ∧
      (drainPort pa accept t).1.late = t.1.late ++ t.1.table.take accept := by
  unfold drainPort
  split
  next hlen =>
    have hnil : t.1.table = [] := length_eq_zero_iff.mp hlen
    refine ⟨hnil, ?_⟩
    rw [hnil, take_nil, append_nil]
  · exact ⟨rfl, (sendBurst_spec pa accept t).2.2.2.1⟩

end

/-- A drain reads late what the driver accepts, on the ports that have packets. -/
theorem clean_drain_iff (accept : Nat → Nat) (ports : List Nat) :
    Clean (ports.foldl (fun s q => s.onPort q (drainPort pa (accept q))) s) ↔
      Clean s ∧ ∀ q ∈ ports, (s.port q).table ≠ [] → accept q = 0 := by
  induction ports generalizing s with
  | nil => exact (and_iff_left nofun).symm
  | cons q ports ih =>
    obtain ⟨htable, hlate⟩ := drainPort_spec pa (accept q) (s.port q, s.stat)
    have hhead : (s.port q).table.take (accept q) = [] ↔
        ((s.port q).table ≠ [] → accept q = 0) := by
      rw [take_eq_nil_iff]
      exact or_comm.trans Decidable.or_iff_not_imp_left
    rw [foldl_cons, ih, clean_onPort_iff hlate, hhead, forall_mem_cons, and_assoc]
    refine and_congr_right fun _ => and_congr_right fun hquiet => ?_
    -- The port just drained is empty, so a second drain of it in the round is quiet either way.
    refine forall₂_congr fun r _ => ?_
    by_cases hr : r = q
    · subst hr
      have hport : ((s.onPort r (drainPort pa (accept r))).port r).table = [] := by
        unfold TxState.onPort
        dsimp only
        rw [update_self]
        exact htable
      exact ⟨fun _ => hquiet, fun _ hne => absurd hport hne⟩
    · unfold TxState.onPort
      dsimp only
      rw [update_of_ne hr]

/-- **One step** reads nothing late iff it is quiet. -/
theorem clean_txStep_iff (op : TxOp BsdBuf) :
    Clean (txStep false ports ffDpdkIfSend s op) ↔ Clean s ∧ Quiet ports s op := by
  cases op with
  | send q accept rooms m total => exact clean_ffDpdkIfSend_iff accept rooms m total
  | sendNoCtx => exact (and_iff_left trivial).symm
  | raw q accept rooms total => exact clean_ffDpdkRawPacketSend_iff false accept rooms total
  | respond q accept m => exact clean_sendSinglePacket_iff false accept _
  | drain accept => exact clean_drain_iff false accept ports

theorem clean_txRun_iff (ops : List (TxOp BsdBuf)) :
    Clean (txRun false ports ffDpdkIfSend s ops) ↔ Clean s ∧ QuietRun ports s ops := by
  induction ops generalizing s with
  | nil => exact (and_iff_left trivial).symm
  | cons op ops ih =>
    change Clean (txRun false ports ffDpdkIfSend (txStep false ports ffDpdkIfSend s op) ops) ↔ _
    rw [ih, clean_txStep_iff, and_assoc]
    rfl

end Lcore

/-- The transmit path is in order: every table is kept and no packet was read late. -/
def TxOk (s : TxState) : Prop := (∀ q, Kept (s.port q)) ∧ Clean s

/-- **Transmit conservation and order**: every run keeps every table, and reads no packet after the
driver accepted it iff the driver accepts none. -/
theorem transmit_ok_iff (ports : List Nat) (ops : List (TxOp BsdBuf)) :
    (∀ q, Kept ((run ports ops).port q)) ∧ (TxOk (run ports ops) ↔ QuietRun ports .init ops) := by
  have hkept := kept_txRun ports ops kept_init
  refine ⟨hkept, (and_iff_right hkept).trans ?_⟩
  unfold run
  rw [clean_txRun_iff]
  exact and_iff_right fun _ => rfl

/-- A packet sent on port 0, in one segment. -/
def oneSend : TxOp BsdBuf := .send 0 0 [some ⟨1, 2048⟩] ⟨9, 60, 0, true, none⟩ 60

/-- It is drained, and the driver accepts it: its counters are then read from it. -/
theorem transmit_reads_late :
    ((run [0] [oneSend, .drain fun _ => 1]).port 0).driven = [⟨1, 1, 60, none⟩] ∧
      ((run [0] [oneSend, .drain fun _ => 1]).port 0).late = [⟨1, 1, 60, none⟩] ∧
      ¬ TxOk (run [0] [oneSend, .drain fun _ => 1]) := by
  have hlate : ((run [0] [oneSend, .drain fun _ => 1]).port 0).late = [⟨1, 1, 60, none⟩] := rfl
  refine ⟨rfl, hlate, fun h => ?_⟩
  have hclean := h.2 0
  exact cons_ne_nil _ _ hclean

end FStack.Tx
