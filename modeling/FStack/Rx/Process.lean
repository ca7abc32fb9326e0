import FStack.Rx.Filter

/-!
# Processing a burst of received packets

Model of `process_packets` (`lib/ff_dpdk_if.c:2071-2220`) with `is_tcp_syn` (`2035-2069`),
`ff_add_vlan_tag` (`2006-2023`), `pktmbuf_deep_clone` (`1945-2003`) and `ff_kni_enqueue`
(`lib/ff_dpdk_kni.c:582-616`), in the build with `INET6` and `FF_KNI`.

What the function meets outside is a parameter (`Env`): the answers of the dispatcher callback, the
class `protocol_filter` gives, the outcome of each mbuf allocation and of each `rte_ring_enqueue`,
and the fill of the mbuf pool. Every call that takes a packet over (`ff_veth_input`,
`send_single_packet`, a successful enqueue, `rte_pktmbuf_free`) is one entry of a log.
-/

namespace FStack.Rx

open FStack.Rss (Byte)

/-! ## Mbufs -/

/-- A segment behind the first: the mbuf it is, and its `data_len`. -/
structure Seg where
  id : Nat
  dataLen : Nat

/-- A packet: a chain of mbufs. -/
structure Mbuf where
  /-- The first mbuf of the chain. -/
  id : Nat
  /-- Its data and `data_len`. -/
  frame : Frame
  rest : List Seg
  pktLen : Nat
  nbSegs : Nat
  /-- `vlan_tci`, if `RTE_MBUF_F_RX_VLAN_STRIPPED` is set. -/
  vlan : Option (Fin 65536)
  headroom : Nat
  /-- Which received frame the data come from. -/
  origin : Nat

/-- The mbufs of the chain. -/
def Mbuf.segIds (m : Mbuf) : List Nat := m.id :: m.rest.map Seg.id

/-- The sum of `data_len` behind the first segment. -/
def Mbuf.restLen (m : Mbuf) : Nat := (m.rest.map Seg.dataLen).sum

/-- The sum of `data_len` over the chain. -/
def Mbuf.dataLenSum (m : Mbuf) : Nat := m.frame.len + m.restLen

section

variable (mem : Nat → Byte)

/-- `memmove` of `n` bytes from `src` to `dst`. -/
def memmove (dst src n i : Nat) : Byte :=
  if dst ≤ i ∧ i < dst + n then mem (src + (i - dst)) else mem i

/-- A store of 16 bits in network order. -/
def storeBe16 (off v i : Nat) : Byte :=
  if i = off then BitVec.ofNat 8 (v / 256) else if i = off + 1 then BitVec.ofNat 8 v else mem i

/-- The bytes after `ff_add_vlan_tag`. -/
def taggedMem (tci : Fin 65536) : Nat → Byte :=
  -- what is in the headroom does not matter, the move writes over it
  let data := fun i => mem (i - 4)
  let data := memmove data 0 4 14
  let data := storeBe16 data 14 tci
  let data := memmove data 16 12 2
  storeBe16 data 12 0x8100

/-- `ff_add_vlan_tag`. -/
def ffAddVlanTag (m : Mbuf) : Mbuf :=
  match m.vlan with
  | none => m
  | some tci =>
    -- rte_pktmbuf_prepend: data_len has 16 bits, pkt_len has 32
    if m.headroom < 4 then m
    else
      { m with
        frame := ⟨taggedMem m.frame.mem tci, (m.frame.len + 4) % 65536, Nat.mod_lt _ (by decide)⟩
        pktLen := m.pktLen + 4
        headroom := m.headroom - 4 }

/-- `tcp_flags` of the TCP header at `off` have SYN without ACK. -/
def synOnly (off : Nat) : Bool := mem (off + 13) &&& 0x12#8 == 0x02#8

/-- `is_tcp_syn` behind the Ethernet header. -/
def ipTcpSyn (type off len : Nat) : Bool :=
  if type = 0x0800 then
    if len < 20 then false
    else if at8 mem (off + 9) ≠ 6 then false
    else if ipv4HdrLen mem off < 20 ∨ len < ipv4HdrLen mem off + 20 then false
    else synOnly mem (off + ipv4HdrLen mem off)
  else if type = 0x86DD then
    if len < 60 then false
    else if at8 mem (off + 6) ≠ 6 then false
    else synOnly mem (off + 40)
  else false

end

/-- `is_tcp_syn`. -/
def isTcpSyn (fr : Frame) : Bool :=
  if fr.len < 14 then false
  else if be16 fr.mem 12 = 0x8100 then
    if fr.len - 14 < 4 then false else ipTcpSyn fr.mem (be16 fr.mem 16) 18 (fr.len - 18)
  else ipTcpSyn fr.mem (be16 fr.mem 12) 14 (fr.len - 14)

/-! ## The surroundings -/

/-- `enum FF_KNICTL_ACTION`. -/
inductive KniAction where
  | default
  | allToKni
  | allToFf
  | max
  deriving DecidableEq

/-- What a dispatcher callback returns and what it leaves in the data and in `len`. -/
structure Answer where
  ret : Int
  frame : Frame

/-- What `process_packets` reads of its surroundings. -/
structure Env where
  queueId : Nat
  nbQueues : Nat
  /-- `mbuf_low_watermark`. -/
  lowWatermark : Nat
  /-- `rte_mempool_avail_count` when the packet at this place of the burst is met. -/
  avail : Nat → Nat
  /-- `packet_dispatcher` or `packet_dispatcher_with_context`: the answer for the packet at this
  place of the burst. -/
  dispatcher : Option (Nat → Mbuf → Answer)
  /-- `protocol_filter`. -/
  filter : Frame → FilterReturn
  /-- The outcome of each `rte_pktmbuf_alloc`: what the new buffer happens to hold. -/
  alloc : Nat → Option (Nat → Byte)
  /-- Whether each `rte_ring_enqueue` succeeds. -/
  ringOk : Nat → Bool
  enableKni : Bool
  /-- `ff_kni_is_runtime_owner()` and `ff_kni_is_owner_thread()`. -/
  runtimeOwner : Bool
  ownerThread : Bool
  /-- `knictl_action` and `kni_accept`. -/
  action : KniAction
  kniAccept : Bool
  /-- `console_packets_ratelimit` and `general_packets_ratelimit`, 0 for none. -/
  consoleLimit : Nat
  generalLimit : Nat

/-- What takes a packet over. -/
inductive Sink where
  | stack
  | tx
  | kni
  | ring (queue : Int)
  | free
  deriving DecidableEq

/-- A packet, and who has taken it over. -/
structure Handoff where
  pkt : Mbuf
  sink : Sink

/-- The counters the code keeps, and how often it asked for an mbuf and for a place in a ring. -/
structure Counters where
  allocs : Nat
  enqs : Nat
  rxPackets : Nat
  rxBytes : Nat
  rxDropped : Nat
  /-- `kni_rate_limt`. -/
  consolePackets : Nat
  generalPackets : Nat
  /-- `kni_stat[port_id]->rx_dropped`. -/
  kniDropped : Nat

/-- The counters, and what was done so far: who took which packet over, which chains
`pktmbuf_deep_clone` built, and at which indices `dispatch_ring[port_id]` was read. -/
structure St where
  cnt : Counters
  log : List Handoff
  made : List (List Nat)
  rings : List Int

/-- The state before the burst. -/
def St.start (cnt : Counters) : St := ⟨cnt, [], [], []⟩

section

variable (s : St)

/-- Writes the counters. -/
def St.setCnt (cnt : Counters) : St := { s with cnt := cnt }

/-- An mbuf is asked for. -/
def St.ask : St := s.setCnt { s.cnt with allocs := s.cnt.allocs + 1 }

/-- A place in a ring is asked for. -/
def St.enq : St := s.setCnt { s.cnt with enqs := s.cnt.enqs + 1 }

/-- `ff_traffic.rx_dropped += nb_segs`. -/
def St.drop (m : Mbuf) : St :=
  s.setCnt { s.cnt with rxDropped := s.cnt.rxDropped + m.nbSegs }

/-- `ff_traffic.rx_packets += nb_segs` and `ff_traffic.rx_bytes += pkt_len`. -/
def St.receive (m : Mbuf) : St :=
  s.setCnt
    { s.cnt with rxPackets := s.cnt.rxPackets + m.nbSegs, rxBytes := s.cnt.rxBytes + m.pktLen }

/-- `dispatch_ring[port_id][q]` is read. -/
def St.readRing (q : Int) : St := { s with rings := s.rings ++ [q] }

/-- A chain is built, from the allocations up to `allocs`. -/
def St.build (allocs : Nat) (m : Mbuf) : St :=
  { s with cnt := { s.cnt with allocs := allocs }, made := s.made ++ [m.segIds] }

/-- A packet is handed over. -/
def St.hand (m : Mbuf) (sink : Sink) : St := { s with log := s.log ++ [⟨m, sink⟩] }

end

/-! ## Clones -/

section Model

variable (e : Env)

/-- The loop of `pktmbuf_deep_clone` behind the first segment, from allocation `a` on: the segments
made, whether all of them were, and the next allocation. -/
def cloneSegs : Nat → List Seg → List Seg × Bool × Nat
  | a, [] => ([], true, a)
  | a, seg :: rest =>
    match e.alloc a with
    | none => ([], false, a + 1)
    | some _ =>
      let r := cloneSegs (a + 1) rest
      (⟨a, seg.dataLen⟩ :: r.1, r.2)

/-- `pktmbuf_deep_attach`: only `data_len` bytes are copied. -/
def deepAttach (fr : Frame) (buf : Nat → Byte) : Frame :=
  { fr with mem := fun i => if i < fr.len then fr.mem i else buf i }

variable (s : St)

variable (m : Mbuf)

/-- `pktmbuf_deep_clone`; an mbuf is named after the allocation it comes from. -/
def pktmbufDeepClone : Option Mbuf × St :=
  let a := s.cnt.allocs
  match e.alloc a with
  | none => (none, s.ask)
  | some buf =>
    let r := cloneSegs e (a + 1) m.rest
    let mc : Mbuf :=
      { m with
        id := a
        frame := deepAttach m.frame buf
        rest := r.1
        nbSegs := (r.1.length + 1) % 256  -- uint8_t nseg
        headroom := 128 }
    let s := s.build r.2.2 mc
    if r.2.1 then (some mc, s) else (none, s.hand mc .free)

/-! ## Rings -/

/-- `rte_ring_enqueue(dispatch_ring[port_id][q], m)`, and what both callers do when it fails. -/
def dispatchEnqueue (q : Int) : St :=
  let i := s.cnt.enqs
  let s := (s.readRing q).enq
  if e.ringOk i then s.hand m (.ring q) else (s.drop m).hand m .free

/-- `filter >= FILTER_ARP`. -/
def FilterReturn.isConsole : FilterReturn → Bool
  | .unknown | .kni => false
  | .arp | .ndp | .ospf | .multi => true

/-- The rate limit of `ff_kni_enqueue`: whether the packet passes. -/
def kniRateLimit (cnt : Counters) (filter : FilterReturn) : Bool × Counters :=
  if filter.isConsole then
    if e.consoleLimit = 0 then (true, cnt)
    else
      (cnt.consolePackets + 1 ≤ e.consoleLimit,
        { cnt with consolePackets := cnt.consolePackets + 1 })
  else if e.generalLimit = 0 then (true, cnt)
  else
    (cnt.generalPackets + 1 ≤ e.generalLimit, { cnt with generalPackets := cnt.generalPackets + 1 })

/-- The `error` label of `ff_kni_enqueue`. -/
def kniError : St :=
  let s :=
    if e.ownerThread || e.runtimeOwner then
      s.setCnt { s.cnt with kniDropped := s.cnt.kniDropped + 1 }
    else s
  s.hand m .free

section

variable (filter : FilterReturn)

/-- `ff_kni_enqueue`. -/
def ffKniEnqueue (m : Mbuf) : St :=
  let r := kniRateLimit e s.cnt filter
  let s := s.setCnt r.2
  if r.1 then
    let i := s.cnt.enqs
    let s := s.enq
    if e.ringOk i then s.hand m .kni else kniError e s m
  else kniError e s m

/-! ## One packet -/

/-- A clone for the queue `j`. -/
def fanOne (s : St) (j : Nat) : St :=
  if j = e.queueId then s
  else
    match pktmbufDeepClone e s m with
    | (none, s) => s
    | (some mc, s) => dispatchEnqueue e s mc j

/-- The loop over the queues of the port. -/
def fanOut : St := (List.range e.nbQueues).foldl (fanOne e m) s

/-- A clone for the kernel. -/
def kniCopy (m : Mbuf) : St :=
  match pktmbufDeepClone e s m with
  | (none, s) => s
  | (some mc, s) => ffKniEnqueue e s filter (ffAddVlanTag mc)

/-- Whether `FF_KNICTL_ACTION_DEFAULT` sends a packet of this class to the kernel. -/
def defaultToKni : Bool :=
  e.enableKni &&
    ((filter == .kni && e.kniAccept) ||
      ((filter == .unknown || filter == .ospf || filter == .multi) && !e.kniAccept))

end

variable (fromRing : Bool)

/-- `process_packets` from the call of `protocol_filter(data, len)` on, with `fr` the data and
`len`. -/
def deliver (s : St) (m : Mbuf) (fr : Frame) : St :=
  let filter := e.filter fr
  if filter = .arp ∨ filter = .ndp then
    let s := if fromRing then s else fanOut e s m
    let s := if e.enableKni && e.runtimeOwner then kniCopy e s filter m else s
    s.hand m .stack
  else if e.enableKni then
    match e.action with
    | .allToKni => ffKniEnqueue e s filter (ffAddVlanTag m)
    | .allToFf => s.hand m .stack
    | .default =>
      if defaultToKni e filter then ffKniEnqueue e s filter (ffAddVlanTag m) else s.hand m .stack
    | .max => s.hand m .stack
  else s.hand m .stack

/-- The test for a SYN met while the pool runs low. -/
def shedsSyn (i : Nat) (m : Mbuf) : Bool :=
  !fromRing && 0 < e.lowWatermark && e.avail i < e.lowWatermark && isTcpSyn m.frame

/-- `pkt_len = data_len = len`. -/
def setLen (fr : Frame) : Mbuf := { m with frame := fr, pktLen := fr.len }

/-- What the dispatcher's answer leads to. -/
def dispatch (ans : Answer) : St :=
  -- the callback may have rewritten the data; data_len is still the old one
  let m' := { m with frame := { m.frame with mem := ans.frame.mem } }
  if ans.ret = -2 then s.hand (ffAddVlanTag (setLen m' ans.frame)) .tx
  else if ans.ret = -1 ∨ (e.nbQueues : Int) ≤ ans.ret then s.hand m' .free
  else if ans.ret ≠ e.queueId then dispatchEnqueue e s m' ans.ret
  else deliver e false s m' ans.frame

/-- One round of the loop of `process_packets`, for the packet at place `i`. -/
def processPacket (i : Nat) (s : St) (m : Mbuf) : St :=
  if shedsSyn e fromRing i m then
    (s.drop m).hand m .free
  else if fromRing then deliver e true s m m.frame
  else
    match e.dispatcher with
    | none => deliver e false (s.receive m) m m.frame
    | some callback => dispatch e (s.receive m) m (callback i m)

/-- `process_packets`. -/
def processPackets (s : St) (bufs : List Mbuf) : St :=
  bufs.zipIdx.foldl (fun s p => processPacket e fromRing p.2 s p.1) s

end Model

end FStack.Rx
