import FStack.Tx.Copy

/-!
# What the device is told about a packet

Model of the offload part of `ff_dpdk_if_send` (`lib/ff_dpdk_if.c:2604-2695`), of `ff_offload_set`
(`lib/ff_memory.c:311-393`), which does the same for the page array, and of `ff_mbuf_tx_offload`
(`lib/ff_veth.c:285-310`). For what the stack asks for and the device can do, they set flags and
header lengths in the first mbuf of the packet. What the first of them writes to the frame is in
`Tx/Copy.lean`.

* The two are one function here (`offloadSet`), but for the branch that sets `RTE_MBUF_F_TX_IPV4` or
  `RTE_MBUF_F_TX_IPV6` whenever the device can do L4 checksums: `ff_offload_set` lacks it.
* The functions read from the first mbuf on. With the page array this is the first BSD mbuf; behind
  its end may stand anything (`seen`).
* The mbuf starts without flags and lengths. Masks and shifts of a byte are written as arithmetic.

Results:
* `offloadRight_iff`: when the two functions agree and describe the packet, whatever stands behind
  the first mbuf; `offloadRight_not`.
* `offload_eq`: the checksum is written to the frame exactly if the device is to segment it.
-/

namespace FStack.Tx.Offload

open FStack.Tx.Copy

/-! ## The functions -/

/-- `csum_flags` and `tso_segsz` of a BSD mbuf. -/
structure PktHdr where
  csumFlags : BitVec 32
  tsoSegsz : BitVec 16

/-- `struct ff_tx_offload`. -/
structure TxOffload where
  ipCsum : Bool
  tcpCsum : Bool
  udpCsum : Bool
  sctpCsum : Bool
  tsoSegSize : Nat

/-- `CSUM_IP` of `sys/mbuf.h`. -/
def CSUM_IP : BitVec 32 := 0x1
/-- `CSUM_IP_TCP`. -/
def CSUM_TCP : BitVec 32 := 0x4
/-- `CSUM_IP_UDP`. -/
def CSUM_UDP : BitVec 32 := 0x2
/-- `CSUM_IP_SCTP`. -/
def CSUM_SCTP : BitVec 32 := 0x8
/-- `CSUM_IP6_TCP`. -/
def CSUM_TCP_IPV6 : BitVec 32 := 0x400
/-- `CSUM_IP6_UDP`. -/
def CSUM_UDP_IPV6 : BitVec 32 := 0x200
/-- `CSUM_IP6_SCTP`. -/
def CSUM_SCTP_IPV6 : BitVec 32 := 0x800
/-- `CSUM_IP_TSO | CSUM_IP6_TSO`. -/
def CSUM_TSO : BitVec 32 := 0x1010

/-- `ff_mbuf_tx_offload`, of a request that is empty. -/
def ffMbufTxOffload (m : PktHdr) : TxOffload where
  ipCsum := m.csumFlags &&& CSUM_IP != 0
  tcpCsum := m.csumFlags &&& (CSUM_TCP ||| CSUM_TCP_IPV6) != 0
  udpCsum := m.csumFlags &&& (CSUM_UDP ||| CSUM_UDP_IPV6) != 0
  sctpCsum := m.csumFlags &&& (CSUM_SCTP ||| CSUM_SCTP_IPV6) != 0
  tsoSegSize := if m.csumFlags &&& CSUM_TSO != 0 then m.tsoSegsz.toNat else 0

/-- `hw_features`. -/
structure Features where
  txCsumIp : Bool
  txCsumL4 : Bool

/-- The fields of the first mbuf: some of `ol_flags`, and the lengths. -/
structure Meta where
  ipCksum : Bool
  ipv4 : Bool
  ipv6 : Bool
  tcpCksum : Bool
  udpCksum : Bool
  tcpSeg : Bool
  l2Len : Nat
  l3Len : Nat
  l4Len : Nat
  tsoSegsz : Nat
  deriving DecidableEq

/-- No offload is asked for. -/
def Meta.none : Meta := ⟨false, false, false, false, false, false, 0, 0, 0, 0⟩

/-- `iph_len`. -/
def iphLen (data : Nat → Byte) : Nat := (data 14).toNat % 16 * 4

/-- `tcph_len`, for an IP header of length `l3`. -/
def tcphLen (data : Nat → Byte) (l3 : Nat) : Nat := (data (14 + l3 + 12)).toNat / 16 * 4

/-- The branch for `tso_seg_size`. -/
def setTso (hw : Features) (segSize : Nat) (data : Nat → Byte) (m : Meta) : Meta :=
  let m :=
    if ipVersion data = 4 then
      { m with
        ipv4 := true
        ipCksum := m.ipCksum || hw.txCsumIp
        l3Len := iphLen data
        l4Len := tcphLen data (iphLen data) }
    else { m with ipv6 := true, l3Len := 40, l4Len := tcphLen data 40 }
  { m with tcpSeg := true, l2Len := 14, tsoSegsz := segSize }

/-- The branch for `tx_csum_l4`; `marks` tells whether it has the first test. -/
def setL4 (marks : Bool) (hw : Features) (q : TxOffload) (data : Nat → Byte) (m : Meta) : Meta :=
  let m :=
    if marks then
      if ipVersion data = 4 then { m with ipv4 := true } else { m with ipv6 := true }
    else m
  let m := if q.tcpCsum then { m with tcpCksum := true, l2Len := 14, l3Len := iphLen data } else m
  let m := if q.tsoSegSize ≠ 0 then setTso hw q.tsoSegSize data m else m
  if q.udpCsum then { m with udpCksum := true, l2Len := 14, l3Len := iphLen data } else m

/-- What the two functions have in common; `data` is what stands from `rte_pktmbuf_mtod` on. -/
def offloadSet (marks : Bool) (hw : Features) (q : TxOffload) (data : Nat → Byte) : Meta :=
  let m :=
    if hw.txCsumIp && q.ipCsum then
      { Meta.none with ipCksum := true, ipv4 := true, l2Len := 14, l3Len := iphLen data }
    else Meta.none
  if hw.txCsumL4 then setL4 marks hw q data m else m

/-- The offload part of `ff_dpdk_if_send`. -/
def ffDpdkIfSendOffload (hw : Features) (m : PktHdr) (data : Nat → Byte) : Meta :=
  offloadSet true hw (ffMbufTxOffload m) data

/-- `ff_offload_set`. -/
def ffOffloadSet (hw : Features) (m : PktHdr) (data : Nat → Byte) : Meta :=
  offloadSet false hw (ffMbufTxOffload m) data

/-! ## Closed form -/

section Closed

variable (marks : Bool) (hw : Features) (q : TxOffload) (data : Nat → Byte)

/-- The IP checksum is asked for, and the device does it. -/
def wantsIp : Bool := hw.txCsumIp && q.ipCsum

/-- The device is to segment the packet. -/
def wantsTso : Bool := hw.txCsumL4 && q.tsoSegSize != 0

/-- A TCP or UDP checksum is asked for, and the device does it. -/
def wantsL4 : Bool := hw.txCsumL4 && (q.tcpCsum || q.udpCsum)

/-- The flags and lengths, in one piece. -/
theorem offloadSet_eq :
    offloadSet marks hw q data =
      let v4 := decide (ipVersion data = 4)
      { ipCksum := wantsIp hw q || (wantsTso hw q && v4 && hw.txCsumIp)
        ipv4 := wantsIp hw q || (hw.txCsumL4 && (marks || q.tsoSegSize != 0) && v4)
        ipv6 := hw.txCsumL4 && (marks || q.tsoSegSize != 0) && !v4
        tcpCksum := hw.txCsumL4 && q.tcpCsum
        udpCksum := hw.txCsumL4 && q.udpCsum
        tcpSeg := wantsTso hw q
        l2Len := if wantsIp hw q || wantsL4 hw q || wantsTso hw q then 14 else 0
        l3Len :=
          if wantsTso hw q && !v4 && !q.udpCsum then 40
          else if wantsIp hw q || wantsL4 hw q || wantsTso hw q then iphLen data else 0
        l4Len :=
          if wantsTso hw q then tcphLen data (if v4 then iphLen data else 40) else 0
        tsoSegsz := if wantsTso hw q then q.tsoSegSize else 0 } := by
  obtain ⟨ip, l4⟩ := hw
  obtain ⟨qip, tcp, udp, sctp, tso⟩ := q
  unfold offloadSet setL4 setTso wantsIp wantsTso wantsL4 Meta.none
  by_cases hv : ipVersion data = 4 <;> by_cases ht : tso = 0 <;> cases marks <;> cases ip <;>
    cases l4 <;> cases qip <;> cases tcp <;> cases udp <;> simp [hv, ht]

end Closed

/-! ## Packets -/

/-- An untagged frame with an IPv4 or IPv6 packet. -/
structure Packet where
  frame : Nat → Byte
  v6 : Bool
  version : ipVersion frame = if v6 then 6 else 4
  ihl : v6 = false → 5 ≤ (frame 14).toNat % 16

/-- The length of the IP header. -/
def Packet.l3 (p : Packet) : Nat := if p.v6 then 40 else (p.frame 14).toNat % 16 * 4

/-- The length of the TCP header. -/
def Packet.l4 (p : Packet) : Nat := tcphLen p.frame p.l3

/-- If an offload is to be done, the flags and lengths are those of the packet. -/
def Describes (p : Packet) (m : Meta) : Prop :=
  m.ipCksum || m.tcpCksum || m.udpCksum || m.tcpSeg →
    m.ipv4 = !p.v6 ∧ m.ipv6 = p.v6 ∧ m.l2Len = 14 ∧ m.l3Len = p.l3 ∧ (m.tcpSeg → m.l4Len = p.l4)

/-- The low half of the byte after the Ethernet header is that of an IPv4 header of 40 bytes. -/
def Packet.TenWords (p : Packet) : Prop := (p.frame 14).toNat % 16 = 10

section Packets

variable (p : Packet) (marks : Bool) (hw : Features) (q : TxOffload)

theorem version_eq : decide (ipVersion p.frame = 4) = !p.v6 := by
  rw [p.version]
  cases p.v6 <;> rfl

theorem iphLen_eq_l3 (hv : p.v6 = false) : iphLen p.frame = p.l3 := by
  rw [Packet.l3, hv]
  rfl

theorem ite_l3 : (if !p.v6 then iphLen p.frame else 40) = p.l3 := by
  rw [Packet.l3, iphLen]
  cases p.v6 <;> rfl

/-- **What is set describes the packet**: an IPv4 packet, if the version is marked for L4 checksums;
an IPv6 packet, if in addition no IP checksum is asked for, and the length is not taken from the
first byte of its header, or is right there by chance. -/
theorem describes_iff : Describes p (offloadSet marks hw q p.frame) ↔
    if p.v6 then
      wantsIp hw q = false ∧
        (wantsL4 hw q || wantsTso hw q → (marks || wantsTso hw q) ∧
          (q.udpCsum || !wantsTso hw q → p.TenWords))
    else wantsL4 hw q → wantsIp hw q || wantsTso hw q || marks := by
  have hten : iphLen p.frame = 40 ↔ p.TenWords := by
    unfold iphLen Packet.TenWords
    omega
  rw [offloadSet_eq, version_eq]
  obtain ⟨ip, l4⟩ := hw
  obtain ⟨qip, tcp, udp, sctp, tso⟩ := q
  unfold Describes wantsIp wantsL4 wantsTso
  cases hv : p.v6 with
  | false =>
    have hl4 : tcphLen p.frame p.l3 = p.l4 := rfl
    by_cases ht : tso = 0 <;> cases marks <;> cases ip <;> cases l4 <;> cases qip <;> cases tcp <;>
      cases udp <;> simp [ht, iphLen_eq_l3 p hv, hl4]
  | true =>
    have hl3 : p.l3 = 40 := by
      rw [Packet.l3, hv]
      rfl
    have hl4 : tcphLen p.frame 40 = p.l4 := by rw [Packet.l4, hl3]
    by_cases ht : tso = 0 <;> cases marks <;> cases ip <;> cases l4 <;> cases qip <;> cases tcp <;>
      cases udp <;> simp [ht, hl3, hl4, hten]

/-- The two functions set the same if the missing branch has nothing to add. -/
theorem same_iff : offloadSet true hw q p.frame = offloadSet false hw q p.frame ↔
    hw.txCsumL4 → wantsTso hw q || (wantsIp hw q && !p.v6) := by
  rw [offloadSet_eq, offloadSet_eq, version_eq]
  obtain ⟨ip, l4⟩ := hw
  obtain ⟨qip, tcp, udp, sctp, tso⟩ := q
  unfold wantsIp wantsTso
  by_cases ht : tso = 0 <;> cases p.v6 <;> cases ip <;> cases l4 <;> cases qip <;> simp [ht]

end Packets

/-! ## Behind the first mbuf -/

/-- What a function reads of a packet whose first mbuf has `n` bytes. -/
def seen (p : Packet) (n : Nat) (behind : Nat → Byte) (i : Nat) : Byte :=
  if i < n then p.frame i else behind i

/-- The first mbuf has the byte with the version, and for segmentation the one with the length of
the TCP header. -/
def Shows (p : Packet) (tso : Bool) (n : Nat) : Prop := 14 < n ∧ (tso → 14 + p.l3 + 12 < n)

/-- The copying path has `c` bytes in the first mbuf, and the page array `f`. Both describe the
packet, and in the same way, whatever stands behind the first mbuf. -/
structure OffloadRight (p : Packet) (hw : Features) (m : PktHdr) (c f : Nat) : Prop where
  copy : ∀ behind, Describes p (ffDpdkIfSendOffload hw m (seen p c behind))
  page : ∀ behind, Describes p (ffOffloadSet hw m (seen p f behind))
  same : ∀ behind behind', ffDpdkIfSendOffload hw m (seen p c behind) =
    ffOffloadSet hw m (seen p f behind')

variable {p : Packet} {marks : Bool} {hw : Features} {q : TxOffload} {data : Nat → Byte} {n : Nat}

theorem seen_self (n : Nat) : seen p n p.frame = p.frame := by
  funext i
  unfold seen
  split <;> rfl

/-- Only the two bytes count. -/
theorem offloadSet_congr (h14 : data 14 = p.frame 14)
    (htso : wantsTso hw q → data (14 + p.l3 + 12) = p.frame (14 + p.l3 + 12)) :
    offloadSet marks hw q data = offloadSet marks hw q p.frame := by
  have hv : ipVersion data = ipVersion p.frame := by rw [ipVersion, ipVersion, h14]
  have hl : iphLen data = iphLen p.frame := by rw [iphLen, iphLen, h14]
  rw [offloadSet_eq, offloadSet_eq, hv, hl, version_eq]
  by_cases ht : wantsTso hw q = true
  · dsimp only
    rw [ite_l3, tcphLen, tcphLen, htso ht]
  · simp [ht]

theorem offloadSet_seen (h : Shows p (wantsTso hw q) n) (behind : Nat → Byte) :
    offloadSet marks hw q (seen p n behind) = offloadSet marks hw q p.frame :=
  offloadSet_congr (if_pos h.1) fun ht => if_pos (h.2 ht)

/-- A byte that is not the one with the version: another length, or another version. -/
def otherVersion (p : Packet) : Byte :=
  if p.v6 then 0x45 else if (p.frame 14).toNat % 16 = 5 then 0x46 else 0x45

/-- Without the byte with the version the packet is not described. -/
theorem not_describes_version (hset : wantsIp hw q || wantsL4 hw q || wantsTso hw q)
    (h14 : data 14 = otherVersion p) : ¬ Describes p (offloadSet marks hw q data) := by
  have hv : decide (ipVersion data = 4) = true := by
    rw [ipVersion, h14, otherVersion]
    split
    · rfl
    · split <;> rfl
  have hflags : (offloadSet marks hw q data).ipCksum || (offloadSet marks hw q data).tcpCksum ||
      (offloadSet marks hw q data).udpCksum || (offloadSet marks hw q data).tcpSeg := by
    rw [offloadSet_eq]
    revert hset
    unfold wantsIp wantsL4 wantsTso
    by_cases ht : q.tsoSegSize = 0 <;> cases hw.txCsumIp <;> cases hw.txCsumL4 <;>
      cases q.ipCsum <;> cases q.tcpCsum <;> cases q.udpCsum <;> simp [ht]
  intro h
  obtain ⟨-, hv6, -, hl3, -⟩ := h hflags
  cases hp : p.v6 with
  | true =>
    rw [offloadSet_eq, hv, hp] at hv6
    simp at hv6
  | false =>
    have hl3' : (offloadSet marks hw q data).l3Len = iphLen data := by
      rw [offloadSet_eq, hv]
      simp [hset]
    rw [hl3', ← iphLen_eq_l3 p hp, iphLen, iphLen, h14, otherVersion, hp] at hl3
    simp only [Bool.false_eq_true, if_false] at hl3
    split at hl3
    next h5 =>
      rw [h5] at hl3
      exact absurd hl3 (by decide)
    next h5 =>
      have h45 : (0x45 : Byte).toNat % 16 * 4 = 20 := by decide
      rw [h45] at hl3
      omega

/-- A byte with another length of the TCP header. -/
def otherLength (b : Byte) : Byte := if b.toNat / 16 = 5 then 0x60 else 0x50

theorem otherLength_ne (b : Byte) : (otherLength b).toNat / 16 * 4 ≠ b.toNat / 16 * 4 := by
  unfold otherLength
  split
  next h =>
    rw [h]
    decide
  next h =>
    have h50 : (0x50 : Byte).toNat / 16 * 4 = 20 := by decide
    rw [h50]
    omega

/-- Nor is it without the byte with the length of the TCP header. -/
theorem not_describes_length (hset : wantsTso hw q) (h14 : data 14 = p.frame 14)
    (hlen : data (14 + p.l3 + 12) = otherLength (p.frame (14 + p.l3 + 12))) :
    ¬ Describes p (offloadSet marks hw q data) := by
  have hv : ipVersion data = ipVersion p.frame := by rw [ipVersion, ipVersion, h14]
  have hl : iphLen data = iphLen p.frame := by rw [iphLen, iphLen, h14]
  have hseg : (offloadSet marks hw q data).tcpSeg = true := by rw [offloadSet_eq, hset]
  have hl4 : (offloadSet marks hw q data).l4Len =
      (otherLength (p.frame (14 + p.l3 + 12))).toNat / 16 * 4 := by
    rw [offloadSet_eq, hv, hl, version_eq]
    dsimp only
    rw [ite_l3, tcphLen, hlen, if_pos hset]
  intro h
  have hright := (h (by rw [hseg, Bool.or_true])).2.2.2.2 hseg
  rw [hl4] at hright
  exact otherLength_ne _ hright

/-- What is described whatever stands behind the first mbuf is in the first mbuf. -/
theorem shows_of_describes (hset : wantsIp hw q || wantsL4 hw q || wantsTso hw q)
    (h : ∀ behind, Describes p (offloadSet marks hw q (seen p n behind))) :
    Shows p (wantsTso hw q) n := by
  have h14 : 14 < n := by
    by_contra hlt
    exact not_describes_version hset (if_neg hlt) (h fun _ => otherVersion p)
  refine ⟨h14, fun ht => ?_⟩
  by_contra hlt
  exact not_describes_length ht (if_pos h14) (if_neg hlt)
    (h fun _ => otherLength (p.frame (14 + p.l3 + 12)))

/-! ## Both paths -/

/-- Nothing is to be done. -/
def Idle (hw : Features) (m : PktHdr) : Prop :=
  wantsIp hw (ffMbufTxOffload m) = false ∧ hw.txCsumL4 = false

/-- What is asked for is set rightly, and in the same way, by both functions. -/
def Offloadable (p : Packet) (hw : Features) (m : PktHdr) : Prop :=
  if p.v6 then
    wantsIp hw (ffMbufTxOffload m) = false ∧ wantsTso hw (ffMbufTxOffload m) ∧
      ((ffMbufTxOffload m).udpCsum → p.TenWords)
  else
    (hw.txCsumL4 → wantsTso hw (ffMbufTxOffload m) || wantsIp hw (ffMbufTxOffload m))

/-- On the frame itself. -/
theorem frame_right_iff (p : Packet) (hw : Features) (q : TxOffload) :
    (Describes p (offloadSet true hw q p.frame) ∧ Describes p (offloadSet false hw q p.frame) ∧
      offloadSet true hw q p.frame = offloadSet false hw q p.frame) ↔
    (wantsIp hw q = false ∧ hw.txCsumL4 = false) ∨
      if p.v6 then wantsIp hw q = false ∧ wantsTso hw q ∧ (q.udpCsum → p.TenWords)
      else (hw.txCsumL4 → wantsTso hw q || wantsIp hw q) := by
  rw [describes_iff, describes_iff, same_iff]
  obtain ⟨ip, l4⟩ := hw
  obtain ⟨qip, tcp, udp, sctp, tso⟩ := q
  unfold wantsIp wantsTso wantsL4
  by_cases ht : tso = 0 <;> cases p.v6 <;> cases ip <;> cases l4 <;> cases qip <;> cases tcp <;>
    cases udp <;> simp [ht]

/-- **The device is told what the packet is, and the same by both paths**, exactly if nothing is
asked for, or what is asked for is among what both set rightly and the headers are in the first
mbuf. -/
theorem offloadRight_iff (p : Packet) (hw : Features) (m : PktHdr) (c f : Nat) :
    OffloadRight p hw m c f ↔
      Idle hw m ∨ (Offloadable p hw m ∧ Shows p (wantsTso hw (ffMbufTxOffload m)) c ∧
        Shows p (wantsTso hw (ffMbufTxOffload m)) f) := by
  constructor
  · intro h
    have hcopy := h.copy p.frame
    have hpage := h.page p.frame
    have hsame := h.same p.frame p.frame
    rw [seen_self] at hcopy hpage hsame
    rw [seen_self] at hsame
    rcases (frame_right_iff p hw (ffMbufTxOffload m)).mp ⟨hcopy, hpage, hsame⟩ with hidle | hok
    · exact .inl hidle
    · by_cases hidle : Idle hw m
      · exact .inl hidle
      · have hset : wantsIp hw (ffMbufTxOffload m) || wantsL4 hw (ffMbufTxOffload m) ||
            wantsTso hw (ffMbufTxOffload m) := by
          revert hok hidle
          unfold Idle wantsTso
          by_cases ht : (ffMbufTxOffload m).tsoSegSize = 0 <;> cases p.v6 <;>
            cases hw.txCsumL4 <;> cases wantsIp hw (ffMbufTxOffload m) <;>
            cases wantsL4 hw (ffMbufTxOffload m) <;> simp [ht]
        exact .inr ⟨hok, shows_of_describes hset h.copy, shows_of_describes hset h.page⟩
  · rintro (⟨hip, hl4⟩ | ⟨hok, hc, hf⟩)
    · have hnone : ∀ marks data, offloadSet marks hw (ffMbufTxOffload m) data = Meta.none := by
        intro marks data
        unfold wantsIp at hip
        rw [offloadSet, hip, hl4]
        rfl
      refine ⟨fun _ => ?_, fun _ => ?_, fun _ _ => ?_⟩
      · rw [ffDpdkIfSendOffload, hnone]
        exact fun h => absurd h (by decide)
      · rw [ffOffloadSet, hnone]
        exact fun h => absurd h (by decide)
      · rw [ffDpdkIfSendOffload, ffOffloadSet, hnone, hnone]
    · obtain ⟨hcopy, hpage, hsame⟩ := (frame_right_iff p hw (ffMbufTxOffload m)).mpr (.inr hok)
      refine ⟨fun _ => ?_, fun _ => ?_, fun _ _ => ?_⟩
      · rw [ffDpdkIfSendOffload, offloadSet_seen hc]
        exact hcopy
      · rw [ffOffloadSet, offloadSet_seen hf]
        exact hpage
      · rw [ffDpdkIfSendOffload, ffOffloadSet, offloadSet_seen hc, offloadSet_seen hf]
        exact hsame

/-- An IPv4 header without options. -/
def plainV4 : Packet := ⟨fun _ => 0x45, false, by decide, fun _ => by decide⟩

/-- An IPv6 header without traffic class. -/
def plainV6 : Packet := ⟨fun _ => 0x60, true, by decide, fun h => nomatch h⟩

/-- A UDP checksum: with the page array the version is missing, and the length of an IPv6 header is
taken to be 0 by both. -/
theorem offloadRight_not :
    ¬ Describes plainV4 (ffOffloadSet ⟨false, true⟩ ⟨CSUM_UDP, 0⟩ plainV4.frame) ∧
      ¬ Describes plainV6 (ffDpdkIfSendOffload ⟨false, true⟩ ⟨CSUM_UDP_IPV6, 0⟩ plainV6.frame) ∧
      ¬ OffloadRight plainV4 ⟨false, true⟩ ⟨CSUM_UDP, 0⟩ 2048 2048 := by
  have hpage : ¬ Describes plainV4 (ffOffloadSet ⟨false, true⟩ ⟨CSUM_UDP, 0⟩ plainV4.frame) :=
    fun h => absurd (h (by decide)).1 (by decide)
  refine ⟨hpage, fun h => absurd (h (by decide)).2.2.2.1 (by decide), fun h => ?_⟩
  have := h.page plainV4.frame
  rw [seen_self] at this
  exact hpage this

/-! ## The checksum in the frame -/

/-- The frame gets the checksum of the pseudo header exactly if the device is told to segment it. -/
theorem offload_eq (phdr : Phdr) (hw : Features) (h : PktHdr) (m : BsdMbuf) (head : Nat) (M : Mem) :
    offload phdr hw.txCsumL4 { m with tsoSegSize := (ffMbufTxOffload h).tsoSegSize } head M =
      if (ffDpdkIfSendOffload hw h (M.buf head)).tcpSeg then
        { M with buf := Function.update M.buf head (writeTcpCksum phdr (M.buf head)) } else M := by
  unfold offload ffDpdkIfSendOffload
  rw [offloadSet_eq]
  rfl

end FStack.Tx.Offload
