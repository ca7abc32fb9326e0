import FStack.Lib.Load
import FStack.Rx.Classify

/-!
# Lcores that share a port

The system around `process_packets` (`lib/ff_dpdk_if.c:2071-2220`) and `process_dispatch_ring`
(`2222-2236`) on a port: any number of lcores, each with one queue, its own stack and a dispatch
ring, and the KNI ring, which one of them owns (`ff_kni_is_runtime_owner`,
`lib/ff_dpdk_kni.c:101-109`). No dispatcher is registered.

An lcore receives a burst or takes one from its dispatch ring, works through it packet by packet,
and hands what `process_packets` makes of a packet over one by one. The steps of the lcores
interleave freely, down to the single ring operation; which allocations and enqueues fail is
arbitrary.
-/

namespace FStack.Rx

open Function List

open FStack.Lib (load)

/-! ## The owner of the KNI -/

/-- What `ff_kni_is_runtime_owner` reads of the configuration. -/
structure OwnerCfg where
  threadMode : Bool
  primarySlim : Bool
  /-- `proc_lcore[0]`. -/
  firstLcore : Nat
  /-- `kni.owner_proc_id`. -/
  ownerProcId : Nat

/-- An lcore, and the process it belongs to. -/
structure Lcore where
  lcoreId : Nat
  /-- `rte_eal_process_type() == RTE_PROC_PRIMARY`. -/
  primary : Bool
  procId : Nat

/-- `ff_kni_is_runtime_owner`. -/
def ffKniIsRuntimeOwner (cfg : OwnerCfg) (lc : Lcore) : Bool :=
  if cfg.threadMode then lc.lcoreId == cfg.firstLcore
  else if !cfg.primarySlim then lc.primary
  else lc.procId == cfg.ownerProcId

/-! ## The system -/

/-- A port with its queues and the lcores that poll them. -/
structure Port where
  nbQueues : Nat
  /-- The lcore of each queue. -/
  lcore : Nat → Lcore
  ownerCfg : OwnerCfg
  kni : KniCfg

/-- The lcore of this queue is the runtime owner of KNI. -/
def Port.owner (P : Port) (q : Nat) : Bool := ffKniIsRuntimeOwner P.ownerCfg (P.lcore q)

/-- `e` is what `process_packets` may meet on the lcore of queue `q`. -/
structure Port.Runs (P : Port) (q : Nat) (e : Env) : Prop where
  queueId : e.queueId = q
  nbQueues : e.nbQueues = P.nbQueues
  dispatcher : e.dispatcher = none
  filter : e.filter = classify P.kni
  enableKni : e.enableKni = P.kni.enable
  runtimeOwner : e.runtimeOwner = P.owner q

/-- What the lcores of a port hold, with what they have delivered. -/
structure Net where
  /-- What each lcore has yet to process of its burst, with `pkts_from_ring`. -/
  todo : Nat → List (Bool × Mbuf)
  /-- What each lcore has yet to hand over for the packet it processes. -/
  outbox : Nat → List Handoff
  /-- The dispatch rings. -/
  ring : Nat → List Mbuf
  /-- What `ff_veth_input` was given on each lcore. -/
  stack : Nat → List Mbuf
  /-- What was put in the KNI ring. -/
  kni : List Mbuf
  cnt : Nat → Counters
  /-- Every packet received so far. -/
  received : List Mbuf
  /-- How many clones were made of each. -/
  clones : Nat → Nat

/-- Nothing was received. -/
def Net.init : Net where
  todo := fun _ => []
  outbox := fun _ => []
  ring := fun _ => []
  stack := fun _ => []
  kni := []
  cnt := fun _ => ⟨0, 0, 0, 0, 0, 0, 0, 0⟩
  received := []
  clones := fun _ => 0

/-- `rte_eth_rx_burst` on queue `q`. -/
def Net.receive (n : Net) (q : Nat) (bufs : List Mbuf) : Net :=
  { n with
    todo := update n.todo q (bufs.map (Prod.mk false))
    received := n.received ++ bufs }

/-- `rte_ring_dequeue_burst` of `k` packets on queue `q`. -/
def Net.dequeue (n : Net) (q k : Nat) : Net :=
  { n with
    todo := update n.todo q (((n.ring q).take k).map (Prod.mk true))
    ring := update n.ring q ((n.ring q).drop k) }

/-- The lcore of queue `q` is through with a packet, and `rest` is left of the burst. -/
def Net.process (n : Net) (q : Nat) (rest : List (Bool × Mbuf)) (m : Mbuf) (s : St) : Net :=
  { n with
    todo := update n.todo q rest
    outbox := update n.outbox q s.log
    cnt := update n.cnt q s.cnt
    clones := update n.clones m.origin (n.clones m.origin + s.made.length) }

/-- The lcore of queue `q` hands `h` over, and `rest` is left. -/
def Net.emit (n : Net) (q : Nat) (h : Handoff) (rest : List Handoff) : Net :=
  let n := { n with outbox := update n.outbox q rest }
  match h.sink with
  | .stack => { n with stack := update n.stack q (n.stack q ++ [h.pkt]) }
  | .ring j => { n with ring := update n.ring j.toNat (n.ring j.toNat ++ [h.pkt]) }
  | .kni => { n with kni := n.kni ++ [h.pkt] }
  | .tx => n
  | .free => n

/-- A step of one lcore; `ok` restricts what may happen around it. -/
inductive Step (P : Port) (ok : Env → Prop) : Net → Net → Prop where
  | receive {n q bufs} : q < P.nbQueues → n.todo q = [] → n.outbox q = [] →
      bufs.map Mbuf.origin = List.range' n.received.length bufs.length →
      Step P ok n (n.receive q bufs)
  | dequeue {n q k} : q < P.nbQueues → n.todo q = [] → n.outbox q = [] → k ≤ 32 →
      Step P ok n (n.dequeue q k)
  | process {n q fromRing m rest e i} : q < P.nbQueues → n.outbox q = [] →
      n.todo q = (fromRing, m) :: rest → P.Runs q e → ok e →
      Step P ok n (n.process q rest m (processPacket e fromRing i (.start (n.cnt q)) m))
  | emit {n q h rest} : q < P.nbQueues → n.outbox q = h :: rest → Step P ok n (n.emit q h rest)

/-- What the lcores can reach. -/
def Reach (P : Port) (ok : Env → Prop) (n : Net) : Prop :=
  Relation.ReflTransGen (Step P ok) Net.init n

/-- No allocation and no enqueue fails. -/
def Lossless (e : Env) : Prop := (∀ a, (e.alloc a).isSome) ∧ ∀ i, e.ringOk i = true

/-! ## Loads -/

/-- A packet and where it is. -/
inductive Item where
  | todo (p : Nat) (fromRing : Bool) (m : Mbuf)
  | out (p : Nat) (h : Handoff)
  | ring (q : Nat) (m : Mbuf)
  | stack (q : Nat) (m : Mbuf)
  | kni (m : Mbuf)

/-- The weight of all packets. -/
def Net.total (P : Port) (w : Item → Nat) (n : Net) : Nat :=
  load (Finset.range P.nbQueues) (fun p x => w (.todo p x.1 x.2)) n.todo +
    load (Finset.range P.nbQueues) (fun p h => w (.out p h)) n.outbox +
    load (Finset.range P.nbQueues) (fun q m => w (.ring q m)) n.ring +
    load (Finset.range P.nbQueues) (fun q m => w (.stack q m)) n.stack +
    (n.kni.map fun m => w (.kni m)).sum

/-- Where a packet goes when it is handed over. -/
def Handoff.target (p : Nat) (h : Handoff) : Option Item :=
  match h.sink with
  | .stack => some (.stack p h.pkt)
  | .ring j => some (.ring j.toNat h.pkt)
  | .kni => some (.kni h.pkt)
  | .tx => none
  | .free => none

section Totals

open FStack.Lib

variable {P : Port} {w : Item → Nat} {n : Net} {q : Nat}

theorem total_receive (hq : q < P.nbQueues) (htodo : n.todo q = []) (bufs : List Mbuf) :
    (n.receive q bufs).total P w = n.total P w + (bufs.map fun m => w (.todo q false m)).sum := by
  have h := load_update (w := fun p x => w (.todo p x.1 x.2)) (s := n.todo)
    (Finset.mem_range.mpr hq) (bufs.map (Prod.mk false))
  rw [htodo, map_nil, sum_nil, map_map] at h
  have hmap : (fun x : Bool × Mbuf => w (.todo q x.1 x.2)) ∘ Prod.mk false =
      fun m => w (.todo q false m) := rfl
  rw [hmap] at h
  unfold Net.total Net.receive
  dsimp only
  omega

theorem total_dequeue (hq : q < P.nbQueues) (htodo : n.todo q = []) (k : Nat) :
    (n.dequeue q k).total P w + (((n.ring q).take k).map fun m => w (.ring q m)).sum =
      n.total P w + (((n.ring q).take k).map fun m => w (.todo q true m)).sum := by
  have h := load_update (w := fun p x => w (.todo p x.1 x.2)) (s := n.todo)
    (Finset.mem_range.mpr hq) (((n.ring q).take k).map (Prod.mk true))
  rw [htodo, map_nil, sum_nil, map_map] at h
  have hmap : (fun x : Bool × Mbuf => w (.todo q x.1 x.2)) ∘ Prod.mk true =
      fun m => w (.todo q true m) := rfl
  rw [hmap] at h
  have hring := load_update (w := fun q m => w (.ring q m)) (s := n.ring)
    (Finset.mem_range.mpr hq) ((n.ring q).drop k)
  have hsplit : ((n.ring q).map fun m => w (.ring q m)).sum =
      (((n.ring q).take k).map fun m => w (.ring q m)).sum +
        (((n.ring q).drop k).map fun m => w (.ring q m)).sum := by
    rw [← sum_append, ← map_append, take_append_drop]
  unfold Net.total Net.dequeue
  dsimp only
  omega

theorem total_process {fromRing : Bool} {m : Mbuf} {rest : List (Bool × Mbuf)}
    (hq : q < P.nbQueues) (hout : n.outbox q = []) (htodo : n.todo q = (fromRing, m) :: rest)
    (s : St) :
    (n.process q rest m s).total P w + w (.todo q fromRing m) =
      n.total P w + (s.log.map fun h => w (.out q h)).sum := by
  have h := load_pop (w := fun p x => w (.todo p x.1 x.2)) (Finset.mem_range.mpr hq) htodo
  have hout' := load_update (w := fun p h => w (.out p h)) (s := n.outbox)
    (Finset.mem_range.mpr hq) s.log
  rw [hout, map_nil, sum_nil] at hout'
  unfold Net.total Net.process
  dsimp only at h ⊢
  omega

theorem total_emit {h : Handoff} {rest : List Handoff} (hq : q < P.nbQueues)
    (hout : n.outbox q = h :: rest) (hring : ∀ j, h.sink = .ring j → j.toNat < P.nbQueues) :
    (n.emit q h rest).total P w + w (.out q h) = n.total P w + (h.target q).elim 0 w := by
  have hpop := load_pop (w := fun p h => w (.out p h)) (Finset.mem_range.mpr hq) hout
  unfold Net.total Net.emit Handoff.target
  cases hsink : h.sink with
  | stack =>
    have hpush := load_push (w := fun q m => w (.stack q m)) (s := n.stack)
      (Finset.mem_range.mpr hq) h.pkt
    dsimp only [Option.elim] at hpush ⊢
    omega
  | ring j =>
    have hpush := load_push (w := fun q m => w (.ring q m)) (s := n.ring)
      (Finset.mem_range.mpr (hring j hsink)) h.pkt
    dsimp only [Option.elim] at hpush ⊢
    omega
  | kni =>
    dsimp only [Option.elim]
    rw [map_append, sum_append, map_singleton, sum_singleton]
    omega
  | tx | free =>
    dsimp only [Option.elim]
    omega

end Totals

end FStack.Rx
