import FStack.Rss.Check

/-!
# Packet classification

Model of `protocol_filter` (`lib/ff_dpdk_if.c:1893-1943`) and of the KNI filter behind it:
`protocol_filter_ip`, `get_ipv6_hdr_len`, `protocol_filter_tcp`, `protocol_filter_udp`,
`protocol_filter_icmp6` and the port bitmaps (`lib/ff_dpdk_kni.c:113-126`, `231-411`), in the build
with `INET6` and `FF_KNI`.

A frame is the memory from its first byte on, with the length the code is given; what lies beyond
the length is arbitrary. The functions return what they do along with their result: every byte they
read, every length they subtract from, every extension header they skip (`Event`).
`protocol_filter_ip` calls itself on tunnels and need not come to an end, so it takes fuel.
-/

namespace FStack.Rx

open FStack.Rss (Byte)

/-- `enum FilterReturn`. -/
inductive FilterReturn where
  | unknown
  | kni
  | arp
  | ndp
  | ospf
  | multi
  deriving DecidableEq

/-- A frame and its `uint16_t` length. -/
structure Frame where
  mem : Nat → Byte
  len : Nat
  len_lt : len < 65536

/-! ## Port bitmaps -/

/-- The 8 KiB bitmap of ports. -/
abbrev Bitmap := Nat → Byte

/-- `magic_bits[m]`. -/
def magicBits (m : Nat) : Byte := 0x80#8 >>> m

/-- `htons` on a number. -/
def swap16 (port : Nat) : Nat := port % 256 * 256 + port / 256 % 256

/-- `set_bitmap`. -/
def setBitmap (bitmap : Bitmap) (port : Nat) : Bitmap :=
  let port := swap16 port
  Function.update bitmap (port / 8) (bitmap (port / 8) ||| magicBits (port % 8))

/-- `get_bitmap`. -/
def getBitmap (port : Nat) (bitmap : Bitmap) : Bool :=
  bitmap (port / 8) &&& magicBits (port % 8) != 0#8

/-- The settings the filter reads. -/
structure KniCfg where
  /-- `enable_kni`. -/
  enable : Bool
  /-- The ports given for the kernel, from which the bitmaps are built. -/
  tcpPorts : List (Fin 65536)
  udpPorts : List (Fin 65536)

/-- The bitmap of a list of ports. -/
def portBitmap (ports : List (Fin 65536)) : Bitmap :=
  ports.foldl (fun bitmap (port : Fin 65536) => setBitmap bitmap port.val) fun _ => 0#8

/-! ## What the code does on its way -/

/-- What the filter does with the packet's bytes and lengths. -/
inductive Event where
  /-- The byte at this offset is read. -/
  | read (off : Nat)
  /-- `sub` is taken from a remaining length `len`. -/
  | shrink (len sub : Nat)
  /-- An extension header of protocol `proto` with length byte `lenByte` is skipped by `size`. -/
  | skip (proto lenByte size : Nat)

/-- The events of a run, in order. -/
abbrev Trace := List Event

section Model

variable (k : KniCfg) (mem : Nat → Byte)

/-- A byte of the frame, as a number. -/
def at8 (off : Nat) : Nat := (mem off).toNat

/-- A 16-bit field in network byte order. -/
def be16 (off : Nat) : Nat := at8 mem off * 256 + at8 mem (off + 1)

/-- A 16-bit field as a little-endian machine loads it. -/
def load16 (off : Nat) : Nat := at8 mem off + at8 mem (off + 1) * 256

/-! ## Transport protocols -/

/-- `protocol_filter_l4`. -/
def protocolFilterL4 (port : Nat) (bitmap : Bitmap) : FilterReturn :=
  if getBitmap port bitmap then .kni else .unknown

/-- `protocol_filter_tcp` and `protocol_filter_udp`, whose headers have `hdrSize` bytes. -/
def filterPorts (hdrSize : Nat) (ports : List (Fin 65536)) (off len : Nat) : Trace × FilterReturn :=
  if len < hdrSize then ([], .unknown)
  else
    ([.read (off + 2), .read (off + 3)], protocolFilterL4 (load16 mem (off + 2)) (portBitmap ports))

/-- `protocol_filter_tcp`. -/
def protocolFilterTcp (off len : Nat) : Trace × FilterReturn := filterPorts mem 20 k.tcpPorts off len

/-- `protocol_filter_udp`. -/
def protocolFilterUdp (off len : Nat) : Trace × FilterReturn := filterPorts mem 8 k.udpPorts off len

/-- `protocol_filter_icmp6`. -/
def protocolFilterIcmp6 (off len : Nat) : Trace × FilterReturn :=
  if len < 8 then ([], .unknown)
  else ([.read off], if 133 ≤ at8 mem off ∧ at8 mem off ≤ 137 then .ndp else .unknown)

/-! ## IPv6 extension headers -/

/-- Hop-by-hop, routing, destination options, MH, HIP and SHIM6. -/
def isOptionHdr (proto : Nat) : Bool :=
  proto == 0 || proto == 43 || proto == 60 || proto == 135 || proto == 139 || proto == 140

/-- The `switch` of `get_ipv6_hdr_len`: the size it computes and the read it takes, `none` for a
protocol that is no extension header. -/
def extHdrLen (proto off : Nat) : Option (Trace × Nat) :=
  if isOptionHdr proto then some ([.read (off + 1)], at8 mem (off + 1) + 1)
  else if proto = 44 then some ([], 8)
  else if proto = 51 then some ([.read (off + 1)], (at8 mem (off + 1) + 2) * 4)
  else none

theorem extHdrLen_pos {proto off : Nat} {r : Trace × Nat} (h : extHdrLen mem proto off = some r) :
    0 < r.2 := by
  unfold extHdrLen at h
  split at h
  · cases h
    exact Nat.succ_pos _
  · split at h
    · cases h
      decide
    · split at h
      · cases h
        exact Nat.mul_pos (Nat.succ_pos _) (by decide)
      · cases h

/-- `get_ipv6_hdr_len`: what it does, the protocol it leaves and the length it returns. -/
def getIpv6HdrLen (proto off len : Nat) : Trace × Nat × Nat :=
  match _h : extHdrLen mem proto off with
  | none => ([], proto, 0)
  | some ext =>
    if len ≤ ext.2 then (ext.1, proto, len)
    else
      let r := getIpv6HdrLen (at8 mem off) (off + ext.2) (len - ext.2)
      (ext.1 ++ .read off :: .skip proto (at8 mem (off + 1)) ext.2 :: .shrink len ext.2 :: r.1,
        r.2.1, ext.2 + r.2.2)
termination_by len
decreasing_by
  have := extHdrLen_pos mem _h
  omega

/-! ## IP -/

/-- `RTE_ETHER_TYPE_IPV4` or `RTE_ETHER_TYPE_IPV6`, as `protocol_filter_ip` is told. -/
inductive IpVersion where
  | ipv4
  | ipv6
  deriving DecidableEq

/-- The header length an IPv4 header gives. -/
def ipv4HdrLen (off : Nat) : Nat := at8 mem off % 16 * 4

/-- The `switch (proto)` of `protocol_filter_ip` on the payload at `next`, after `tr`; `again` is
the call for a tunnel. -/
def ipSwitch (again : Nat → Nat → IpVersion → Option (Trace × FilterReturn)) (tr : Trace)
    (proto next nextLen : Nat) : Option (Trace × FilterReturn) :=
  let after (r : Trace × FilterReturn) := some (tr ++ r.1, r.2)
  if proto = 89 then after ([], .ospf)
  else if proto = 6 then
    if k.enable then after (protocolFilterTcp k mem next nextLen) else after ([], .unknown)
  else if proto = 17 then
    if k.enable then after (protocolFilterUdp k mem next nextLen) else after ([], .unknown)
  else if proto = 4 then (again next nextLen .ipv4).bind after
  else if proto = 41 then (again next nextLen .ipv6).bind after
  else if proto = 58 then after (protocolFilterIcmp6 mem next nextLen)
  else after ([], .unknown)

/-- `protocol_filter_ip`, with at most `fuel` calls. -/
def protocolFilterIp : Nat → Nat → Nat → IpVersion → Option (Trace × FilterReturn)
  | 0, _, _, _ => none
  | fuel + 1, off, len, .ipv4 =>
    let hdrLen := ipv4HdrLen mem off
    if len < 20 then some ([], .unknown)
    else if len < hdrLen then some ([.read off], .unknown)
    else
      ipSwitch k mem (protocolFilterIp fuel) [.read off, .read (off + 9), .shrink len hdrLen]
        (at8 mem (off + 9)) (off + hdrLen) (len - hdrLen)
  | fuel + 1, off, len, .ipv6 =>
    if len < 40 then some ([], .unknown)
    else
      let r := getIpv6HdrLen mem (at8 mem (off + 6)) (off + 40) (len - 40)
      let hdrLen := 40 + r.2.2
      let tr := .read (off + 6) :: .shrink len 40 :: r.1
      if len < hdrLen then some (tr, .unknown)
      else
        ipSwitch k mem (protocolFilterIp fuel) (tr ++ [.shrink len hdrLen]) r.2.1 (off + hdrLen)
          (len - hdrLen)

end Model

/-- `len -= sub` on a `uint16_t`. -/
def sub16 (len sub : Nat) : Nat := (len + 65536 - sub) % 65536

/-- `protocol_filter`. -/
def protocolFilter (k : KniCfg) (fuel : Nat) (fr : Frame) : Option (Trace × FilterReturn) :=
  if fr.len < 6 then some ([], .unknown)  -- RTE_ETHER_ADDR_LEN
  else
    let type := be16 fr.mem 12
    let len := sub16 fr.len 14
    let tr := [.read 12, .read 13, .shrink fr.len 14]
    let vlan := type == 0x8100
    let tr := if vlan then tr ++ [.read 16, .read 17, .shrink len 4] else tr
    let off := if vlan then 18 else 14
    let type := if vlan then be16 fr.mem 16 else type
    let len := if vlan then sub16 len 4 else len
    if type = 0x0806 then some (tr, .arp)
    else if at8 fr.mem 0 % 2 = 1 then some (tr ++ [.read 0], .multi)
    else
      let after (r : Trace × FilterReturn) := some (tr ++ .read 0 :: r.1, r.2)
      if type = 0x86DD then (protocolFilterIp k fr.mem fuel off len .ipv6).bind after
      else if !k.enable then after ([], .unknown)
      else if type ≠ 0x0800 then after ([], .unknown)
      else (protocolFilterIp k fr.mem fuel off len .ipv4).bind after

end FStack.Rx
