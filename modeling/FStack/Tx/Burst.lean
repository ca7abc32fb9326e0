import Mathlib.Logic.Function.Basic

/-!
# The transmit tables

Model of the transmit path of an lcore: `send_burst` (`lib/ff_dpdk_if.c:2476-2516`),
`send_single_packet` (`2518-2538`), `ff_dpdk_if_send` (`2540-2700`), `ff_dpdk_raw_packet_send`
(`2702-2748`) and the drain of `main_loop` (`2841-2860`); and, for the build with
`FF_USE_PAGE_ARRAY`, `ff_if_send_onepkt` with what it calls and the transmit ring of BSD mbufs
(`lib/ff_memory.c:173-189`, `395-525`).

The two builds share their functions; `pa` says which build is meant. Outside are the outcomes of
the allocations and the number of packets the driver accepts of each burst. A port keeps, along with
its table, what became of every packet and BSD mbuf. The mbufs of a chain whose first one lies in
the page array lie there too: `ff_mem_virt2phy` panics for another one.
-/

namespace FStack.Tx

open Function

/-- A DPDK packet in a table. -/
structure TxPkt where
  id : Nat
  nbSegs : Nat
  pktLen : Nat
  /-- The BSD mbuf whose data it refers to. -/
  bsd : Option Nat
  deriving DecidableEq

/-- `ff_traffic`. -/
structure TxStat where
  packets : Nat
  bytes : Nat
  dropped : Nat

/-! ## The ring of BSD mbufs -/

/-- `struct mbuf_txring`. -/
structure TxRing where
  slots : Nat → Option Nat
  head : Nat

/-- `Head_INC`, with `TX_QUEUE_SIZE` slots. -/
def headInc (h : Nat) : Nat := if 512 ≤ h + 1 then 0 else h + 1

/-- The slot at the head is set, and the head moves on. -/
def TxRing.put (r : TxRing) (v : Option Nat) : TxRing :=
  ⟨update r.slots r.head v, headInc r.head⟩

/-- The loop of `ff_txring_enqueue`: `k` slots are emptied, and what they held is freed. -/
def clearSlots : Nat → TxRing → TxRing × List Nat
  | 0, r => (r, [])
  | k + 1, r =>
    let rest := clearSlots k (r.put none)
    (rest.1, (r.slots r.head).toList ++ rest.2)

/-- `ff_txring_enqueue`: the ring, and what it freed. -/
def ffTxringEnqueue (r : TxRing) (b segNum : Nat) : TxRing × List Nat :=
  let c := clearSlots (segNum - 1) r
  (c.1.put (some b), c.2 ++ (c.1.slots c.1.head).toList)

/-! ## A port -/

/-- `struct mbuf_table` of a port and its ring, and what was done so far. -/
structure TxPort where
  /-- `m_table` up to `len`. -/
  table : List TxPkt
  /-- `bsd_m_table`, also beyond `len`. -/
  bsd : Nat → Option Nat
  /-- `nic_tx_ring`. -/
  ring : TxRing
  /-- Packets put in the table, in this order. -/
  queued : List TxPkt
  /-- Packets the driver accepted, in this order. -/
  driven : List TxPkt
  /-- Packets read after the driver accepted them. -/
  late : List TxPkt
  /-- Packets freed from the table. -/
  freed : List TxPkt
  /-- BSD mbufs given to `ff_dpdk_if_send`. -/
  given : List Nat
  /-- BSD mbufs put in the ring. -/
  enqueued : List Nat
  /-- BSD mbufs freed without having been in the ring. -/
  released : List Nat
  /-- BSD mbufs freed from the ring. -/
  recycled : List Nat

/-- Nothing was sent on the port. -/
def TxPort.init : TxPort where
  table := []
  bsd := fun _ => none
  ring := ⟨fun _ => none, 0⟩
  queued := []
  driven := []
  late := []
  freed := []
  given := []
  enqueued := []
  released := []
  recycled := []

/-- `MAX_PKT_BURST`. -/
def maxPktBurst : Nat := 32

section Model

variable (pa : Bool)

/-- `ff_enq_tx_bsdmbuf`. -/
def TxPort.enqBsd (p : TxPort) (b nbSegs : Nat) : TxPort :=
  let r := ffTxringEnqueue p.ring b nbSegs
  { p with ring := r.1, enqueued := p.enqueued ++ [b], recycled := p.recycled ++ r.2 }

/-- A round of the first loop of `send_burst`: the driver has the packet already. -/
def acceptOne (s : TxPort × TxStat) (x : TxPkt × Nat) : TxPort × TxStat :=
  let stat :=
    { s.2 with packets := s.2.packets + x.1.nbSegs, bytes := s.2.bytes + x.1.pktLen }
  let p := { s.1 with late := s.1.late ++ [x.1] }
  match if pa then p.bsd x.2 else none with
  | none => (p, stat)
  | some b => (p.enqBsd b x.1.nbSegs, stat)

/-- A round of the second loop of `send_burst`. -/
def dropOne (s : TxPort × TxStat) (x : TxPkt × Nat) : TxPort × TxStat :=
  let stat := { s.2 with dropped := s.2.dropped + x.1.nbSegs }
  let p := { s.1 with freed := s.1.freed ++ [x.1] }
  match if pa then p.bsd x.2 else none with
  | none => (p, stat)
  | some b => ({ p with released := p.released ++ [b] }, stat)

variable (accept : Nat)

/-- `send_burst` of the whole table; of `n` packets the driver accepts `accept`, or all. -/
def sendBurst (s : TxPort × TxStat) : TxPort × TxStat :=
  let sent := s.1.table.take accept
  let s := ({ s.1 with driven := s.1.driven ++ sent }, s.2)
  let s := sent.zipIdx.foldl (acceptOne pa) s
  ((s.1.table.drop accept).zipIdx sent.length).foldl (dropOne pa) s

/-- `tx_mbufs[port].len = len`. -/
def TxPort.setLen (p : TxPort) (len : Nat) : TxPort := { p with table := p.table.take len }

/-- `m_table[len] = m`. -/
def TxPort.push (p : TxPort) (m : TxPkt) : TxPort :=
  { p with table := p.table ++ [m], queued := p.queued ++ [m] }

/-- A full table is sent, and `len` is stored. -/
def sendIfFull (accept len : Nat) (s : TxPort × TxStat) : TxPort × TxStat :=
  if len = maxPktBurst then
    let s := sendBurst pa accept s
    (s.1.setLen 0, s.2)
  else (s.1.setLen len, s.2)

/-- `send_single_packet`. -/
def sendSinglePacket (m : TxPkt) (s : TxPort × TxStat) : TxPort × TxStat :=
  sendIfFull pa accept (s.1.table.length + 1) (s.1.push m, s.2)

/-- The drain of `main_loop` on one port. -/
def drainPort (s : TxPort × TxStat) : TxPort × TxStat :=
  if s.1.table.length = 0 then s
  else
    let s := sendBurst pa accept s
    (s.1.setLen 0, s.2)

end Model

/-! ## Building a packet -/

/-- A BSD mbuf chain. -/
structure BsdBuf where
  id : Nat
  /-- `m_pkthdr.len`. -/
  hdrLen : Nat
  /-- How many mbufs the chain has behind the first. -/
  more : Nat
  /-- `ff_chk_vma`: the data lie in the page array. -/
  inPages : Bool
  /-- `nb_segs` and `pkt_len` of the DPDK mbuf the data come from (`ff_rte_frm_extcl`). -/
  ext : Option (Nat × Nat)

/-- What `rte_pktmbuf_alloc` returns: an mbuf and its tailroom. -/
structure Room where
  id : Nat
  tail : Nat

/-- The copying loop of `ff_dpdk_if_send` and `ff_dpdk_raw_packet_send`: the number of segments, or
how many the code counts as dropped. `copyable` is the length `ff_mbuf_copydata` can copy. -/
def fillSegs (copyable : Option Nat) : List (Option Room) → Nat → Nat → Nat → Except Nat Nat
  | _, _, 0, nbSegs => .ok nbSegs
  | [], _, _ + 1, nbSegs => .error (nbSegs + 1)
  | none :: _, _, _ + 1, nbSegs => .error (nbSegs + 1)
  | some cur :: rooms, off, total + 1, nbSegs =>
    let len := min (total + 1) cur.tail
    if copyable.any (· < off + len) then .error (nbSegs + 1)
    else fillSegs copyable rooms (off + len) (total + 1 - len) (nbSegs + 1)

/-- The packet both functions build, from the allocations `rooms`. -/
def buildPkt (copyable : Option Nat) (rooms : List (Option Room)) (total : Nat) :
    Except Nat TxPkt :=
  match rooms with
  | [] => .error 1
  | none :: _ => .error 1
  | some head :: rooms =>
    match fillSegs copyable (some head :: rooms) 0 total 0 with
    | .error dropped => .error dropped
    | .ok nbSegs => .ok ⟨head.id, nbSegs, total, none⟩

/-- `ff_dpdk_if_send`, built without `FF_USE_PAGE_ARRAY`. -/
def ffDpdkIfSend (accept : Nat) (rooms : List (Option Room)) (m : BsdBuf) (total : Nat)
    (s : TxPort × TxStat) : TxPort × TxStat :=
  let p := { s.1 with given := s.1.given ++ [m.id], released := s.1.released ++ [m.id] }
  match buildPkt (some m.hdrLen) rooms total with
  | .error dropped => (p, { s.2 with dropped := s.2.dropped + dropped })
  | .ok head => sendSinglePacket false accept head (p, s.2)

/-- `ff_dpdk_raw_packet_send`. -/
def ffDpdkRawPacketSend (pa : Bool) (accept : Nat) (rooms : List (Option Room)) (total : Nat)
    (s : TxPort × TxStat) : TxPort × TxStat :=
  match buildPkt none rooms total with
  | .error dropped => (s.1, { s.2 with dropped := s.2.dropped + dropped })
  | .ok head => sendSinglePacket pa accept head s

/-! ## The page array -/

section

variable (rooms : List (Option Room))

/-- `ff_bsd_to_rte`: a DPDK mbuf for each mbuf of the chain. -/
def ffBsdToRte (m : BsdBuf) (total : Nat) : Option TxPkt :=
  match rooms with
  | some head :: rooms =>
    if m.more ≤ rooms.length ∧ (rooms.take m.more).all Option.isSome then
      some ⟨head.id, m.more + 1, total, some m.id⟩
    else none
  | _ => none

/-- `ff_extcl_to_rte`: a clone of the DPDK mbuf the data come from. -/
def ffExtclToRte (m : BsdBuf) : Option TxPkt :=
  match m.ext, rooms with
  | some src, some head :: _ => some ⟨head.id, src.1, src.2, some m.id⟩
  | _, _ => none

/-- `ff_if_send_onepkt`: the port, and the length returned. -/
def ffIfSendOnepkt (m : Option BsdBuf) (total : Nat) (p : TxPort) :
    TxPort × Nat :=
  match m with
  | none => (p, 0)
  | some m =>
    let p := { p with given := p.given ++ [m.id] }
    match if m.inPages then ffBsdToRte rooms m total else ffExtclToRte rooms m with
    | none => ({ p with released := p.released ++ [m.id] }, 0)
    | some head =>
      let len := p.table.length
      ({ p.push head with bsd := update p.bsd len (some m.id) }, len + 1)

end

/-- `ff_dpdk_if_send`, built with `FF_USE_PAGE_ARRAY`. -/
def ffDpdkIfSendPa (accept : Nat) (rooms : List (Option Room)) (m : Option BsdBuf) (total : Nat)
    (s : TxPort × TxStat) : TxPort × TxStat :=
  let r := ffIfSendOnepkt rooms m total s.1
  sendIfFull true accept r.2 (r.1, s.2)

/-! ## The lcore -/

/-- The transmit side of an lcore. -/
structure TxState where
  port : Nat → TxPort
  stat : TxStat

/-- Nothing was sent. -/
def TxState.init : TxState := ⟨fun _ => .init, ⟨0, 0, 0⟩⟩

/-- Changes one port and the counters. -/
def TxState.onPort (s : TxState) (q : Nat) (f : TxPort × TxStat → TxPort × TxStat) : TxState :=
  let r := f (s.port q, s.stat)
  ⟨update s.port q r.1, r.2⟩

/-- What happens on the transmit path; `accept` is what the driver accepts of a burst, if there is
one, and `m` what the stack sends. -/
inductive TxOp (α : Type) where
  /-- `ff_dpdk_if_send` with a context, on port `q`. -/
  | send (q accept : Nat) (rooms : List (Option Room)) (m : α) (total : Nat)
  /-- `ff_dpdk_if_send` with `ctx == NULL`. -/
  | sendNoCtx
  /-- `ff_dpdk_raw_packet_send`. -/
  | raw (q accept : Nat) (rooms : List (Option Room)) (total : Nat)
  /-- A dispatcher's response, which `process_packets` gives to `send_single_packet`. -/
  | respond (q accept : Nat) (m : TxPkt)
  /-- A drain round; `accept q` is for the burst on port `q`. -/
  | drain (accept : Nat → Nat)

section Lcore

variable (pa : Bool) (ports : List Nat) {α : Type}
  (send : Nat → List (Option Room) → α → Nat → TxPort × TxStat → TxPort × TxStat)

/-- A step; `send` is `ff_dpdk_if_send` of the build and `ports` are the lcore's ports. -/
def txStep (s : TxState) : TxOp α → TxState
  | .send q accept rooms m total => s.onPort q (send accept rooms m total)
  | .sendNoCtx => { s with stat := { s.stat with dropped := s.stat.dropped + 1 } }
  | .raw q accept rooms total => s.onPort q (ffDpdkRawPacketSend pa accept rooms total)
  | .respond q accept m => s.onPort q (sendSinglePacket pa accept { m with bsd := none })
  | .drain accept => ports.foldl (fun s q => s.onPort q (drainPort pa (accept q))) s

/-- The state after a sequence of operations. -/
def txRun (s : TxState) (ops : List (TxOp α)) : TxState := ops.foldl (txStep pa ports send) s

end Lcore

/-- The lcore, built without `FF_USE_PAGE_ARRAY`. -/
def run (ports : List Nat) (ops : List (TxOp BsdBuf)) : TxState :=
  txRun false ports ffDpdkIfSend .init ops

/-- The lcore, built with `FF_USE_PAGE_ARRAY`. -/
def runPa (ports : List Nat) (ops : List (TxOp (Option BsdBuf))) : TxState :=
  txRun true ports ffDpdkIfSendPa .init ops

end FStack.Tx
