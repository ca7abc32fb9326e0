import FStack.Lib.Chain
import FStack.Tx.Burst

/-!
# Copying a frame into DPDK mbufs

Model of `ff_dpdk_if_send` (`lib/ff_dpdk_if.c:2540-2700`, the build without `FF_USE_PAGE_ARRAY`) and
of `ff_dpdk_raw_packet_send` (`2702-2745`) with `ff_mbuf_copydata` (`lib/ff_veth.c:270-283`), down
to the bytes. `Tx/Burst.lean` has the same functions with the numbers alone.

The frame is copied piece by piece into a chain of mbufs, as much into each as its tailroom takes.
An allocation or a copy that fails frees the chain so far. Outside are what `rte_pktmbuf_alloc`
returns, one call after the other (`Pool`), and what stood in the buffers before.

* `Mem` holds the mbufs: their links, buffers and data lengths, how often each was given back, and
  which ones have been allocated. The counters `nb_segs` and `data_len` have 16 bits.
* The offload part of `ff_dpdk_if_send` writes to the frame in one case: for TCP segmentation it
  puts the pseudo header's checksum into the TCP header of the first segment (`offload`), with
  `rte_ipv4_phdr_cksum` and `rte_ipv6_phdr_cksum` as parameters (`Phdr`). The flags and lengths it
  sets for the device are in `Tx/Offload.lean`.

Results:
* `copyFrame_view`: without the bytes it is `buildPkt` of `Tx/Burst.lean`.
* `frame_sent`: both functions queue the frame's bytes, but for the checksum that TCP segmentation
  replaces. It says nothing of `nb_segs` for an empty frame, whose one segment the loop does not
  count.
-/

namespace FStack.Tx.Copy

open Function List FStack.Lib.Chain

/-- One byte of a frame. -/
abbrev Byte := BitVec 8

/-! ## The mbufs -/

/-- The mbufs of the pool: their links, bytes and lengths. -/
structure Mem where
  links : Links Nat
  /-- The bytes from `rte_pktmbuf_mtod` on. -/
  buf : Nat → Nat → Byte
  dataLen : Nat → Nat
  /-- What `rte_pktmbuf_alloc` has returned. -/
  allocated : List Nat

/-- No mbuf has been allocated; the buffers hold `old`. -/
def Mem.start (old : Nat → Nat → Byte) : Mem := ⟨⟨fun _ => none, fun _ => 0⟩, old, fun _ => 0, []⟩

/-- The data of a segment. -/
def Mem.data (M : Mem) (s : Nat) : List Byte := (range (M.dataLen s)).map (M.buf s)

/-- The segments of the packet `head`. -/
def Mem.chain (M : Mem) (head : Nat) : List Nat :=
  walk M.links.next M.allocated.length (some head)

/-- `rte_pktmbuf_alloc` returns `r`. -/
def rtePktmbufAlloc (r : Room) (M : Mem) : Mem :=
  { M with
    links := { M.links with next := update M.links.next r.id none }
    dataLen := update M.dataLen r.id 0
    allocated := M.allocated ++ [r.id] }

/-- `rte_pktmbuf_free`. -/
def rtePktmbufFree (head : Nat) (M : Mem) : Mem :=
  { M with links := freeChain M.allocated.length (some head) M.links }

/-- What `rte_pktmbuf_alloc` returns, one call after the other; behind the list it fails. -/
structure Pool where
  rooms : List (Option Room)
  distinct : (rooms.reduceOption.map Room.id).Nodup
  tail_pos : ∀ r ∈ rooms.reduceOption, 0 < r.tail

/-! ## The copy -/

/-- What is copied, and the length up to which `ff_mbuf_copydata` copies (`m_pkthdr.len`). -/
structure Source where
  bytes : List Byte
  copyable : Option Nat

/-- `ff_mbuf_copydata`, or `memcpy`. -/
def Source.copy (src : Source) (off len : Nat) : Option (List Byte) :=
  if src.copyable.any (· < off + len) then none else some ((src.bytes.drop off).take len)

/-- `len = total > cap ? cap : total`. -/
def pieceLen (cur : Room) (total : Nat) : Nat := if cur.tail < total then cur.tail else total

/-- `prev->next = cur`. -/
def linkTo (prev : Option Nat) (cur : Nat) (M : Mem) : Mem :=
  match prev with
  | none => M
  | some prev =>
    { M with links := { M.links with next := update M.links.next prev (some cur) } }

/-- The copy into `cur`, and `cur->data_len = len`. -/
def fill (cur len : Nat) (bytes : List Byte) (M : Mem) : Mem :=
  { M with
    buf := update M.buf cur fun i => bytes.getD i (M.buf cur i)
    dataLen := update M.dataLen cur (len % 65536) }

/-- The body of the loop behind the allocation: the mbufs, `head->nb_segs`, and the length that was
copied. -/
def pass (src : Source) (cur : Room) (prev : Option Nat) (off total nbSegs : Nat) (M : Mem) :
    Mem × Nat × Option Nat :=
  let M := linkTo prev cur.id M
  let nbSegs := (nbSegs + 1) % 65536
  let len := pieceLen cur total
  match src.copy off len with
  | none => (M, nbSegs, none)
  | some bytes => (fill cur.id len bytes M, nbSegs, some len)

/-- The loop, when `cur` is NULL: `nb_segs`, or what is added to `tx_dropped`. -/
def copyRest (src : Source) (head : Nat) :
    List (Option Room) → Nat → Nat → Nat → Nat → Mem → Mem × Except Nat Nat
  | _, _, _, 0, nbSegs, M => (M, .ok nbSegs)
  | some cur :: rooms, prev, off, total + 1, nbSegs, M =>
    match pass src cur (some prev) off (total + 1) nbSegs (rtePktmbufAlloc cur M) with
    | (M, nbSegs, none) => (rtePktmbufFree head M, .error nbSegs)
    | (M, nbSegs, some len) => copyRest src head rooms cur.id (off + len) (total + 1 - len) nbSegs M
  | _, _, _, _ + 1, nbSegs, M => (rtePktmbufFree head M, .error (nbSegs + 1))

/-- The fields of the first mbuf that describe the packet. -/
structure Frame where
  head : Nat
  pktLen : Nat
  nbSegs : Nat

/-- What the two functions share, up to the end of the loop. -/
def copyFrame (src : Source) (rooms : List (Option Room)) (total : Nat) (M : Mem) :
    Mem × Except Nat Frame :=
  match rooms with
  | some head :: rooms =>
    let M := rtePktmbufAlloc head M
    if total = 0 then (M, .ok ⟨head.id, total, 0⟩)
    else
      match pass src head none 0 total 0 M with
      | (M, nbSegs, none) => (rtePktmbufFree head.id M, .error nbSegs)
      | (M, nbSegs, some len) =>
        let r := copyRest src head.id rooms head.id len (total - len) nbSegs M
        (r.1, r.2.map fun nbSegs => ⟨head.id, total, nbSegs⟩)
  | _ => (M, .error 1)

/-! ## The functions -/

/-- A packet of the stack. -/
structure BsdMbuf where
  bytes : List Byte
  /-- `m_pkthdr.len`. -/
  hdrLen : Nat
  /-- `tso_segsz`, 0 without `CSUM_TSO`. -/
  tsoSegSize : Nat

/-- `rte_ipv4_phdr_cksum` and `rte_ipv6_phdr_cksum`, from the IP header on. -/
structure Phdr where
  ipv4 : (Nat → Byte) → BitVec 16
  ipv6 : (Nat → Byte) → BitVec 16

/-- `iph->version`. -/
def ipVersion (buf : Nat → Byte) : Nat := (buf 14).toNat / 16

/-- Where `tcph->cksum` is. -/
def tcpCksumOff (buf : Nat → Byte) : Nat :=
  if ipVersion buf = 4 then 14 + (buf 14).toNat % 16 * 4 + 16 else 14 + 40 + 16

/-- `tcph->cksum = ..`. -/
def writeTcpCksum (phdr : Phdr) (buf : Nat → Byte) : Nat → Byte :=
  let cksum := (if ipVersion buf = 4 then phdr.ipv4 else phdr.ipv6) fun i => buf (14 + i)
  let off := tcpCksumOff buf
  update (update buf off (cksum.setWidth 8)) (off + 1)
    ((cksum >>> 8).setWidth 8)

/-- What the offload part writes to the frame; `csumL4` is `hw_features.tx_csum_l4`. -/
def offload (phdr : Phdr) (csumL4 : Bool) (m : BsdMbuf) (head : Nat) (M : Mem) : Mem :=
  if csumL4 && m.tsoSegSize != 0 then
    { M with buf := update M.buf head (writeTcpCksum phdr (M.buf head)) }
  else M

/-- What a call leaves: the mbufs, how often the BSD mbuf was freed, what was given to
`send_single_packet` and what was added to `tx_dropped`. -/
structure Sent where
  mem : Mem
  bsdFrees : Nat
  queued : Option Frame
  dropped : Nat

/-- `ff_dpdk_if_send`; `ctx` is `none` for NULL. -/
def ffDpdkIfSend (phdr : Phdr) (ctx : Option Bool) (pool : Pool) (m : BsdMbuf) (total : Nat)
    (M : Mem) : Sent :=
  match ctx with
  | none => ⟨M, 1, none, 1⟩
  | some csumL4 =>
    match copyFrame ⟨m.bytes, some m.hdrLen⟩ pool.rooms total M with
    | (M, .error dropped) => ⟨M, 1, none, dropped⟩
    | (M, .ok f) => ⟨offload phdr csumL4 m f.head M, 1, some f, 0⟩

/-- `ff_dpdk_raw_packet_send`. -/
def ffDpdkRawPacketSend (pool : Pool) (data : List Byte) (total : Nat) (M : Mem) : Sent :=
  match copyFrame ⟨data, none⟩ pool.rooms total M with
  | (M, .error dropped) => ⟨M, 0, none, dropped⟩
  | (M, .ok f) => ⟨M, 0, some f, 0⟩

/-! ## One piece -/

section Data

variable {M : Mem} {cur len s : Nat} {bytes : List Byte}

theorem data_fill_self (hlen : bytes.length = len) (hlt : len < 65536) :
    (fill cur len bytes M).data cur = bytes := by
  rw [Mem.data]
  simp only [fill, update_self, Nat.mod_eq_of_lt hlt]
  apply ext_getElem
  · rw [length_map, length_range, hlen]
  · intro i h1 h2
    rw [getElem_map, getElem_range, getD_eq_getElem?_getD, getElem?_eq_getElem h2, Option.getD_some]

theorem data_fill_of_ne (hs : s ≠ cur) : (fill cur len bytes M).data s = M.data s := by
  simp only [Mem.data, fill, update_of_ne hs]

@[simp] theorem data_linkTo (prev : Option Nat) : (linkTo prev cur M).data s = M.data s := by
  cases prev <;> rfl

theorem data_alloc_of_ne {r : Room} (hs : s ≠ r.id) : (rtePktmbufAlloc r M).data s = M.data s := by
  simp only [Mem.data, rtePktmbufAlloc, update_of_ne hs]

end Data

/-- The mbufs `used` are those that have been allocated, none has gone back, and they are chained in
this order. -/
structure Chained (used : List Room) (M : Mem) : Prop where
  allocated : M.allocated = used.map Room.id
  frees : ∀ s, M.links.frees s = 0
  linked : Linked M.links.next (used.head?.map Room.id) (used.map Room.id)
  distinct : (used.map Room.id).Nodup

/-- Together they hold the bytes `copied`, and each holds what fits. -/
structure Holds (copied : List Byte) (used : List Room) (M : Mem) : Prop where
  data : (used.map fun r => M.data r.id).flatten = copied
  fits : ∀ r ∈ used, M.dataLen r.id ≤ r.tail

/-- Each allocated mbuf has gone back once. -/
def FreedOnce (M : Mem) : Prop := ∀ s, M.links.frees s = if s ∈ M.allocated then 1 else 0

theorem Chained.start (old : Nat → Nat → Byte) : Chained [] (Mem.start old) :=
  ⟨rfl, fun _ => rfl, rfl, nodup_nil⟩

variable {bytes : List Byte} {head : Nat}

variable {used : List Room} {M : Mem} {cur : Room} {copied : List Byte}

theorem Chained.free (h : Chained used M) (hhead : used.head?.map Room.id = some head) :
    FreedOnce (rtePktmbufFree head M) := by
  intro s
  have hlen : (used.map Room.id).length ≤ M.allocated.length := Nat.le_of_eq (h.allocated ▸ rfl)
  have hfree : (rtePktmbufFree head M).links = freeAll (used.map Room.id) M.links :=
    freeChain_eq (hhead ▸ h.linked) h.distinct hlen
  rw [hfree, frees_freeAll_nodup h.distinct, h.frees s, Nat.zero_add, ← h.allocated]
  rfl

theorem Chained.fill (h : Chained used M) (c len : Nat) (bytes : List Byte) :
    Chained used (fill c len bytes M) := ⟨h.allocated, h.frees, h.linked, h.distinct⟩

/-- A fresh mbuf is put behind the last one. -/
theorem Chained.link (h : Chained used M) (hcur : cur.id ∉ used.map Room.id) :
    Chained (used ++ [cur])
      (linkTo (used.getLast?.map Room.id) cur.id (rtePktmbufAlloc cur M)) := by
  have hdistinct : ((used ++ [cur]).map Room.id).Nodup := by
    rw [map_append, nodup_append]
    refine ⟨h.distinct, nodup_singleton _, ?_⟩
    rintro _ ha _ hb rfl
    exact hcur (mem_singleton.1 hb ▸ ha)
  rcases eq_nil_or_concat' used with rfl | ⟨pre, p, rfl⟩
  · exact ⟨by simp [linkTo, rtePktmbufAlloc, h.allocated], h.frees, ⟨rfl, update_self ..⟩,
      hdistinct⟩
  · have hlinked : Linked (update M.links.next cur.id none)
        ((pre ++ [p]).head?.map Room.id) (pre.map Room.id ++ [p.id]) := by
      rw [← map_singleton, ← map_append]
      refine h.linked.congr fun s hs => update_of_ne ?_ _ _
      rintro rfl
      exact hcur hs
    rw [map_append, mem_append, not_or] at hcur
    have hcp : cur.id ≠ p.id := fun he => hcur.2 (he ▸ mem_singleton_self _)
    have hp : p.id ∉ pre.map Room.id := by
      have hd := h.distinct
      rw [map_append, nodup_append] at hd
      exact fun hmem => hd.2.2 p.id hmem p.id (mem_singleton_self _) rfl
    have hhead : ((pre ++ [p]) ++ [cur]).head? = (pre ++ [p]).head? := by
      cases pre <;> rfl
    have hlast : ((pre ++ [p]).getLast?.map Room.id) = some p.id := by simp
    refine ⟨?_, ?_, ?_, hdistinct⟩ <;> rw [hlast]
    · simp [linkTo, rtePktmbufAlloc, h.allocated]
    · exact h.frees
    · rw [hhead, map_append, map_append]
      exact hlinked.snoc (update_self ..) hcp hp hcur.1

theorem Holds.link (h : Holds copied used M) (hcur : cur.id ∉ used.map Room.id) (prev : Option Nat)
    : Holds copied used (linkTo prev cur.id (rtePktmbufAlloc cur M)) := by
  have hne : ∀ r ∈ used, r.id ≠ cur.id := fun r hr he => hcur (he ▸ mem_map_of_mem hr)
  refine ⟨?_, fun r hr => ?_⟩
  · rw [← h.data]
    congr 1
    refine map_congr_left fun r hr => ?_
    rw [data_linkTo, data_alloc_of_ne (hne r hr)]
  · have hlen : (linkTo prev cur.id (rtePktmbufAlloc cur M)).dataLen r.id = M.dataLen r.id := by
      cases prev <;> exact update_of_ne (hne r hr) _ _
    rw [hlen]
    exact h.fits r hr

/-- A piece that fits is copied into an mbuf that holds nothing yet. -/
theorem Holds.fill (h : Holds copied used M) (hcur : cur.id ∉ used.map Room.id)
    (hfit : bytes.length ≤ cur.tail) (hlt : bytes.length < 65536) :
    Holds (copied ++ bytes) (used ++ [cur]) (fill cur.id bytes.length bytes M) := by
  have hne : ∀ r ∈ used, r.id ≠ cur.id := fun r hr he => hcur (he ▸ mem_map_of_mem hr)
  refine ⟨?_, fun r hr => ?_⟩
  · have hold : (used.map fun r => (Copy.fill cur.id bytes.length bytes M).data r.id) =
        used.map fun r => M.data r.id :=
      map_congr_left fun r hr => data_fill_of_ne (hne r hr)
    rw [map_append, flatten_append, hold, h.data, map_singleton,
      data_fill_self rfl hlt, flatten_singleton]
  · rcases mem_append.1 hr with hr | hr
    · simp only [Copy.fill, update_of_ne (hne r hr)]
      exact h.fits r hr
    · rw [mem_singleton.1 hr]
      simp only [Copy.fill, update_self]
      exact Nat.le_trans (Nat.mod_le _ _) hfit

variable {cur : Room} {total : Nat} {pool : Pool}

theorem pieceLen_le : pieceLen cur total ≤ total ∧ pieceLen cur total ≤ cur.tail := by
  unfold pieceLen
  split <;> omega

theorem pieceLen_pos (hpos : 0 < cur.tail) (htot : 0 < total) : 0 < pieceLen cur total := by
  unfold pieceLen
  split <;> omega

/-! ## The loop -/

section Loop

variable {src : Source} {used : List Room} {M : Mem}

/-- **One round**: the mbuf is chained, `nb_segs` counts it, and, unless the copy fails, it holds
the next piece. -/
theorem pass_spec {cur : Room} {off total : Nat} (hc : Chained used M)
    (hh : Holds (src.bytes.take off) used M) (hcur : cur.id ∉ used.map Room.id)
    (hlen : off + total = src.bytes.length) (hle : src.bytes.length ≤ 65535)
    (hpos : 0 < cur.tail) (htot : 0 < total) (hsegs : used.length ≤ off) :
    let r := pass src cur (used.getLast?.map Room.id) off total used.length (rtePktmbufAlloc cur M)
    Chained (used ++ [cur]) r.1 ∧ r.2.1 = (used ++ [cur]).length ∧
      ∀ len, r.2.2 = some len → 0 < len ∧ len ≤ total ∧
        Holds (src.bytes.take (off + len)) (used ++ [cur]) r.1 := by
  have hlink := hc.link hcur
  have hnb : (used.length + 1) % 65536 = (used ++ [cur]).length := by
    rw [length_append, length_singleton]
    exact Nat.mod_eq_of_lt (by omega)
  obtain ⟨hpt, hpc⟩ := @pieceLen_le cur total
  unfold pass
  dsimp only
  cases hcopy : src.copy off (pieceLen cur total) with
  | none => exact ⟨hlink, hnb, fun _ h => nomatch h⟩
  | some bytes =>
    have hbytes : bytes = (src.bytes.drop off).take (pieceLen cur total) := by
      unfold Source.copy at hcopy
      split at hcopy <;> cases hcopy
      rfl
    have hblen : bytes.length = pieceLen cur total := by
      rw [hbytes, length_take, length_drop]
      omega
    refine ⟨hlink.fill _ _ _, hnb, ?_⟩
    rintro _ ⟨⟩
    refine ⟨pieceLen_pos hpos htot, hpt, ?_⟩
    have hfill : Holds (src.bytes.take off ++ bytes) (used ++ [cur]) (fill cur.id bytes.length bytes
        (linkTo (used.getLast?.map Room.id) cur.id (rtePktmbufAlloc cur M))) :=
      (hh.link hcur _).fill hcur (by omega) (by omega)
    rwa [hbytes, ← take_add, ← hbytes, hblen] at hfill

/-- What the loop results in, for a frame with the bytes `bytes` and the first mbuf `head`. -/
def Copied (bytes : List Byte) (head : Nat) (rooms : List Room) : Mem × Except Nat Nat → Prop
  | (M, .ok nbSegs) => ∃ used : List Room, used.head?.map Room.id = some head ∧
      nbSegs = used.length ∧ Chained used M ∧ Holds bytes used M ∧ ∀ r ∈ used, r ∈ rooms
  | (M, .error _) => FreedOnce M

/-- **The loop** from a state in which `used` holds the first `off` bytes: by induction on the mbufs
still to be allocated. -/
theorem copyRest_spec (hle : src.bytes.length ≤ 65535) :
    ∀ (rooms : List (Option Room)) (used : List Room) (prev off total : Nat) (M : Mem),
    Chained used M → Holds (src.bytes.take off) used M → used.head?.map Room.id = some head →
    used.getLast?.map Room.id = some prev → off + total = src.bytes.length → used.length ≤ off →
    ((used ++ rooms.reduceOption).map Room.id).Nodup →
    (∀ r ∈ rooms.reduceOption, 0 < r.tail) →
    Copied src.bytes head (used ++ rooms.reduceOption)
      (copyRest src head rooms prev off total used.length M)
  | rooms, used, prev, off, 0, M, hc, hh, hhead, _, hlen, _, _, _ => by
    rw [Nat.add_zero] at hlen
    rw [hlen, take_length] at hh
    have hr : copyRest src head rooms prev off 0 used.length M = (M, .ok used.length) := by
      cases rooms with
      | nil => rfl
      | cons r rooms => cases r <;> rfl
    rw [hr]
    exact ⟨used, hhead, rfl, hc, hh, fun r hr => mem_append_left _ hr⟩
  | [], used, prev, off, total + 1, M, hc, _, hhead, _, _, _, _, _ => hc.free hhead
  | none :: rooms, used, prev, off, total + 1, M, hc, _, hhead, _, _, _, _, _ => hc.free hhead
  | some cur :: rooms, used, prev, off, total + 1, M, hc, hh, hhead, hprev, hlen, hsegs, hnd,
      hpos => by
    have hcur : cur.id ∉ used.map Room.id := by
      rw [map_append, nodup_append] at hnd
      exact fun hmem => hnd.2.2 _ hmem _ mem_cons_self rfl
    have hhead' : (used ++ [cur]).head?.map Room.id = some head := by
      rwa [head?_append_of_ne_nil _ (by rintro rfl; cases hhead)]
    obtain ⟨hc', hnb, hok⟩ := pass_spec hc hh hcur hlen hle (hpos cur mem_cons_self)
      (Nat.succ_pos total) hsegs
    rw [hprev] at hc' hnb hok
    unfold copyRest
    generalize pass src cur (some prev) off (total + 1) used.length (rtePktmbufAlloc cur M) = r
      at hc' hnb hok ⊢
    obtain ⟨M', nbSegs, r⟩ := r
    cases r with
    | none => exact hc'.free hhead'
    | some len =>
      obtain ⟨hlpos, hlle, hh'⟩ := hok len rfl
      have hrest := copyRest_spec hle rooms (used ++ [cur]) cur.id (off + len) (total + 1 - len) M'
        hc' hh' hhead' (by simp) (by omega) (by rw [length_append]; simp; omega)
        (by rwa [append_assoc]) fun r hr => hpos r (mem_cons_of_mem cur hr)
      rwa [append_assoc, ← hnb] at hrest

/-- What both functions have copied when the loop is over, from what `rte_pktmbuf_alloc` gives. -/
def CopiedFrame (bytes : List Byte) (rooms : List Room) : Mem × Except Nat Frame → Prop
  | (M, .ok f) => ∃ used : List Room, used.head?.map Room.id = some f.head ∧
      f.pktLen = bytes.length ∧ (bytes ≠ [] → f.nbSegs = used.length) ∧
      Chained used M ∧ Holds bytes used M ∧ ∀ r ∈ used, r ∈ rooms
  | (M, .error _) => FreedOnce M

variable (src) in
/-- **The copy**, from the allocation of the first mbuf on. -/
theorem copyFrame_spec (pool : Pool) (hle : src.bytes.length ≤ 65535) (old : Nat → Nat → Byte) :
    CopiedFrame src.bytes pool.rooms.reduceOption
      (copyFrame src pool.rooms src.bytes.length (Mem.start old)) := by
  obtain ⟨rooms, hnd, hpos⟩ := pool
  cases rooms with
  | nil => exact fun _ => rfl
  | cons r rooms =>
    cases r with
    | none => exact fun _ => rfl
    | some head =>
      have hcons : (some head :: rooms).reduceOption = head :: rooms.reduceOption := rfl
      rw [hcons] at hnd hpos ⊢
      have hstart := Chained.start old
      unfold copyFrame
      dsimp only
      split
      next h0 =>
        have hnil : src.bytes = [] := length_eq_zero_iff.1 h0
        rw [hnil]
        refine ⟨[head], rfl, rfl, absurd rfl, hstart.link not_mem_nil, ⟨?_, ?_⟩, by simp⟩
        · simp [Mem.data, rtePktmbufAlloc]
        · simp [rtePktmbufAlloc]
      next h0 =>
        have hpass := @pass_spec src [] _ head 0 src.bytes.length hstart
          ⟨rfl, fun _ h => absurd h not_mem_nil⟩ not_mem_nil (Nat.zero_add _) hle
          (hpos head mem_cons_self) (Nat.pos_of_ne_zero h0) (Nat.le_refl 0)
        simp only [getLast?_nil, Option.map_none, length_nil, nil_append, Nat.zero_add] at hpass
        obtain ⟨hc, hnb, hok⟩ := hpass
        generalize pass src head none 0 src.bytes.length 0 (rtePktmbufAlloc head (Mem.start old)) =
          r at hc hnb hok ⊢
        obtain ⟨M, nbSegs, r⟩ := r
        cases r with
        | none => exact hc.free rfl
        | some len =>
          obtain ⟨hlpos, hlle, hh⟩ := hok len rfl
          have hrest := copyRest_spec hle rooms [head] head.id len (src.bytes.length - len) M hc hh
            rfl rfl (by omega) hlpos hnd fun r hr => hpos r (mem_cons_of_mem head hr)
          rw [← hnb] at hrest
          dsimp only
          generalize copyRest src head.id rooms head.id len (src.bytes.length - len) nbSegs M = res
            at hrest ⊢
          obtain ⟨M', res⟩ := res
          cases res with
          | error d => exact hrest
          | ok n =>
            obtain ⟨used, hhead, rfl, hc', hh', hsub⟩ := hrest
            exact ⟨used, hhead, rfl, fun _ => rfl, hc', hh', hsub⟩

end Loop

/-! ## The frame -/

/-- The bytes of the packet `head`, segment by segment. -/
def Mem.frame (M : Mem) (head : Nat) : List Byte := ((M.chain head).map M.data).flatten

/-- A queued packet of `len` bytes: `pkt_len` is its length, each segment fits its buffer, the
segments are the mbufs that were allocated, and none has gone back. -/
structure Sound (pool : Pool) (len : Nat) (M : Mem) (f : Frame) : Prop where
  pktLen : f.pktLen = len
  fits : ∀ r ∈ pool.rooms.reduceOption, r.id ∈ M.chain f.head → M.dataLen r.id ≤ r.tail
  allocated : M.allocated = M.chain f.head
  frees : ∀ s, M.links.frees s = 0

/-- **The plain statement**: what is queued is the frame, with `nb_segs` its segments; otherwise
every allocated mbuf has gone back once. The BSD mbuf has gone back `bsd` times. -/
def Preserved (pool : Pool) (bytes : List Byte) (bsd : Nat) (r : Sent) : Prop :=
  r.bsdFrees = bsd ∧ match r.queued with
    | none => FreedOnce r.mem
    | some f => Sound pool bytes.length r.mem f ∧ r.mem.frame f.head = bytes ∧
        f.nbSegs = (r.mem.chain f.head).length

/-- The packet `head` has the bytes `bytes`, but for the TCP checksum if `tso` is set. -/
structure SameBut (tso : Bool) (bytes : List Byte) (M : Mem) (head : Nat) : Prop where
  length : (M.frame head).length = bytes.length
  plain : tso = false → M.frame head = bytes
  other : ∀ i, i ≠ tcpCksumOff (M.buf head) → i ≠ tcpCksumOff (M.buf head) + 1 →
    (M.frame head)[i]? = bytes[i]?

/-- What the functions do: with `tso` the TCP checksum is replaced. `nb_segs` is that of a frame
which is not empty. -/
def Sends (tso : Bool) (pool : Pool) (bytes : List Byte) (bsd : Nat) (r : Sent) : Prop :=
  r.bsdFrees = bsd ∧ match r.queued with
    | none => FreedOnce r.mem
    | some f => Sound pool bytes.length r.mem f ∧ SameBut tso bytes r.mem f.head ∧
        (bytes ≠ [] → f.nbSegs = (r.mem.chain f.head).length)

section Sent

variable {used : List Room} {M : Mem} {bytes : List Byte} {head i : Nat}

theorem Chained.chain_eq (h : Chained used M) (hhead : used.head?.map Room.id = some head) :
    M.chain head = used.map Room.id :=
  Linked.walk_eq (hhead ▸ h.linked) (Nat.le_of_eq (h.allocated ▸ rfl))

theorem Chained.frame_eq (h : Chained used M) (hhead : used.head?.map Room.id = some head) :
    M.frame head = (used.map fun r => M.data r.id).flatten := by
  rw [Mem.frame, h.chain_eq hhead, map_map]
  rfl

theorem Chained.sound {f : Frame} (h : Chained used M) (hh : Holds bytes used M)
    (hhead : used.head?.map Room.id = some f.head) (hlen : f.pktLen = bytes.length)
    (hsub : ∀ r ∈ used, r ∈ pool.rooms.reduceOption) : Sound pool bytes.length M f where
  pktLen := hlen
  fits := by
    intro r hr hmem
    rw [h.chain_eq hhead] at hmem
    obtain ⟨r', hr', he⟩ := mem_map.1 hmem
    rw [← inj_on_of_nodup_map pool.distinct (hsub r' hr') hr he]
    exact hh.fits r' hr'
  allocated := h.allocated.trans (h.chain_eq hhead).symm
  frees := h.frees

/-- The copy without the offload part. -/
theorem Chained.sameBut (h : Chained used M) (hh : Holds bytes used M)
    (hhead : used.head?.map Room.id = some head) (tso : Bool) : SameBut tso bytes M head := by
  have hframe : M.frame head = bytes := (h.frame_eq hhead).trans hh.data
  exact ⟨by rw [hframe], fun _ => hframe, fun _ _ _ => by rw [hframe]⟩

/-! ### The offload part -/

variable (phdr : Phdr)

theorem writeTcpCksum_of_ne (buf : Nat → Byte) (h : i ≠ tcpCksumOff buf)
    (h' : i ≠ tcpCksumOff buf + 1) : writeTcpCksum phdr buf i = buf i := by
  rw [writeTcpCksum, update_of_ne h', update_of_ne h]

/-- The write does not change where it goes. -/
theorem tcpCksumOff_writeTcpCksum (buf : Nat → Byte) :
    tcpCksumOff (writeTcpCksum phdr buf) = tcpCksumOff buf := by
  have hoff : 30 ≤ tcpCksumOff buf := by
    unfold tcpCksumOff
    split <;> omega
  have h14 : writeTcpCksum phdr buf 14 = buf 14 :=
    writeTcpCksum_of_ne phdr buf (by omega) (by omega)
  rw [tcpCksumOff, tcpCksumOff, ipVersion, ipVersion, h14]

/-- The mbufs after the checksum of `head` was written. -/
def withTcpCksum (head : Nat) (M : Mem) : Mem :=
  { M with buf := update M.buf head (writeTcpCksum phdr (M.buf head)) }

theorem data_withTcpCksum_of_ne {s : Nat} (hs : s ≠ head) :
    (withTcpCksum phdr head M).data s = M.data s := by
  simp only [Mem.data, withTcpCksum, update_of_ne hs]

/-- The first segment: the same length, and the same bytes but for the checksum's. -/
theorem getElem?_data_withTcpCksum (h : i ≠ tcpCksumOff (M.buf head))
    (h' : i ≠ tcpCksumOff (M.buf head) + 1) :
    ((withTcpCksum phdr head M).data head)[i]? = (M.data head)[i]? := by
  simp only [Mem.data, withTcpCksum, update_self, getElem?_map]
  rcases Nat.lt_or_ge i (M.dataLen head) with hlt | hge
  · rw [getElem?_range hlt, Option.map_some, Option.map_some, writeTcpCksum_of_ne phdr _ h h']
  · rw [getElem?_eq_none (by simpa using hge)]
    rfl

theorem Chained.sameBut_withTcpCksum (h : Chained used M) (hh : Holds bytes used M)
    (hhead : used.head?.map Room.id = some head) (phdr : Phdr) :
    SameBut true bytes (withTcpCksum phdr head M) head := by
  have h' : Chained used (withTcpCksum phdr head M) := ⟨h.allocated, h.frees, h.linked, h.distinct⟩
  cases used with
  | nil => cases hhead
  | cons r rest =>
    cases hhead
    have hne : ∀ q ∈ rest, q.id ≠ r.id := by
      intro q hq he
      exact (nodup_cons.1 h.distinct).1 (he ▸ mem_map_of_mem hq)
    have hrest : (rest.map fun q => (withTcpCksum phdr r.id M).data q.id) =
        rest.map fun q => M.data q.id :=
      map_congr_left fun q hq => data_withTcpCksum_of_ne phdr (hne q hq)
    have hframe := h'.frame_eq rfl
    have hbytes := hh.data
    rw [map_cons, flatten_cons] at hbytes hframe
    rw [hrest] at hframe
    have hlen : ((withTcpCksum phdr r.id M).data r.id).length = (M.data r.id).length := by
      simp [Mem.data, withTcpCksum]
    refine ⟨?_, fun h => (nomatch h), fun i hi hi' => ?_⟩
    · rw [hframe, ← hbytes, length_append, length_append, hlen]
    · have hoff : tcpCksumOff ((withTcpCksum phdr r.id M).buf r.id) = tcpCksumOff (M.buf r.id) := by
        simp only [withTcpCksum, update_self, tcpCksumOff_writeTcpCksum]
      rw [hoff] at hi hi'
      rw [hframe, ← hbytes]
      rcases Nat.lt_or_ge i (M.data r.id).length with hlt | hge
      · rw [getElem?_append_left (hlen.symm ▸ hlt), getElem?_append_left hlt,
          getElem?_data_withTcpCksum phdr hi hi']
      · rw [getElem?_append_right (hlen.symm ▸ hge), getElem?_append_right hge, hlen]

end Sent

/-! ## The two functions -/

section Send

variable (phdr : Phdr) (pool : Pool) (old : Nat → Nat → Byte)

theorem ifSend_spec (ctx : Option Bool) (m : BsdMbuf) (hm : m.bytes.length ≤ 65535) :
    Sends (ctx.getD false && m.tsoSegSize != 0) pool m.bytes 1
      (ffDpdkIfSend phdr ctx pool m m.bytes.length (Mem.start old)) := by
  cases ctx with
  | none => exact ⟨rfl, fun _ => rfl⟩
  | some csumL4 =>
    have hcopy := copyFrame_spec ⟨m.bytes, some m.hdrLen⟩ pool hm old
    unfold ffDpdkIfSend
    generalize copyFrame ⟨m.bytes, some m.hdrLen⟩ pool.rooms m.bytes.length (Mem.start old) = r
      at hcopy ⊢
    obtain ⟨M, r⟩ := r
    cases r with
    | error d => exact ⟨rfl, hcopy⟩
    | ok f =>
      obtain ⟨used, hhead, hlen, hnb, hc, hh, hsub⟩ := hcopy
      have hsound := hc.sound hh hhead hlen hsub
      rw [← length_map Room.id, ← hc.chain_eq hhead] at hnb
      refine ⟨rfl, ?_⟩
      dsimp only
      rw [Option.getD_some, offload]
      cases htso : csumL4 && m.tsoSegSize != 0 with
      | false => exact ⟨hsound, hc.sameBut hh hhead false, hnb⟩
      | true =>
        exact ⟨⟨hsound.pktLen, hsound.fits, hsound.allocated, hsound.frees⟩,
          hc.sameBut_withTcpCksum hh hhead phdr, hnb⟩

theorem rawSend_spec (data : List Byte) (hd : data.length ≤ 65535) :
    Sends false pool data 0 (ffDpdkRawPacketSend pool data data.length (Mem.start old)) := by
  have hcopy := copyFrame_spec ⟨data, none⟩ pool hd old
  unfold ffDpdkRawPacketSend
  generalize copyFrame ⟨data, none⟩ pool.rooms data.length (Mem.start old) = r at hcopy ⊢
  obtain ⟨M, r⟩ := r
  cases r with
  | error d => exact ⟨rfl, hcopy⟩
  | ok f =>
    obtain ⟨used, hhead, hlen, hnb, hc, hh, hsub⟩ := hcopy
    rw [← length_map Room.id, ← hc.chain_eq hhead] at hnb
    exact ⟨rfl, hc.sound hh hhead hlen hsub, hc.sameBut hh hhead false, hnb⟩

end Send

/-! ## Fixed frames -/

/-- Two mbufs, the first with room for two bytes. -/
def smallPool : Pool where
  rooms := [some ⟨0, 2⟩, some ⟨1, 64⟩]
  distinct := by decide
  tail_pos := by decide

/-- A pseudo header whose checksum is 0. -/
def zeroPhdr : Phdr := ⟨fun _ => 0, fun _ => 0⟩

/-- One mbuf, as the pools of the driver have them. -/
def onePool : Pool where
  rooms := [some ⟨0, 2048⟩]
  distinct := by decide
  tail_pos := by decide

/-- An IPv4 frame with a header of no words, whose TCP checksum is at its end. -/
def tsoFrame : List Byte := replicate 14 0 ++ [0x40] ++ replicate 16 0

section View

variable (src : Source) (head : Nat)

/-- One round of either loop. -/
theorem pass_view (cur : Room) (prev : Option Nat) (off total nbSegs : Nat) (M : Mem) :
    pass src cur prev off total nbSegs M = ((pass src cur prev off total nbSegs M).1,
      (nbSegs + 1) % 65536, if src.copyable.any (· < off + min total cur.tail) then none
        else some (min total cur.tail)) := by
  refine Prod.ext rfl ?_
  have hlen : pieceLen cur total = min total cur.tail := by
    unfold pieceLen
    split <;> omega
  simp only [pass, Source.copy, hlen]
  by_cases h : src.copyable.any (· < off + min total cur.tail) = true
  · rw [if_pos h, if_pos h]
  · rw [if_neg h, if_neg h]

theorem copyRest_view : ∀ (rooms : List (Option Room)) (prev off total nbSegs : Nat) (M : Mem),
    nbSegs + total ≤ 65535 → (∀ r ∈ rooms.reduceOption, 0 < r.tail) →
    (copyRest src head rooms prev off total nbSegs M).2 =
      fillSegs src.copyable rooms off total nbSegs
  | rooms, prev, off, 0, nbSegs, M, _, _ => by rcases rooms with _ | ⟨_ | _, _⟩ <;> rfl
  | [], _, _, _ + 1, _, _, _, _ => rfl
  | none :: _, _, _, _ + 1, _, _, _, _ => rfl
  | some cur :: rooms, prev, off, total + 1, nbSegs, M, hle, hpos => by
    have hcur : 0 < cur.tail := hpos cur mem_cons_self
    rw [copyRest, pass_view, fillSegs, Nat.mod_eq_of_lt (by omega)]
    by_cases h : src.copyable.any (· < off + min (total + 1) cur.tail) = true
    · rw [if_pos h, if_pos h]
    · rw [if_neg h, if_neg h]
      exact copyRest_view rooms _ _ _ _ _ (by omega) fun r hr => hpos r (mem_cons_of_mem cur hr)

/-- **Without the bytes** the copy is `buildPkt` of `Tx/Burst.lean`. -/
theorem copyFrame_view (pool : Pool) (total : Fin 65536) (M : Mem) :
    (copyFrame src pool.rooms total M).2 =
      (buildPkt src.copyable pool.rooms total).map fun p => ⟨p.id, p.pktLen, p.nbSegs⟩ := by
  obtain ⟨rooms, -, hpos⟩ := pool
  match rooms, total with
  | [], _ => rfl
  | none :: _, _ => rfl
  | some head :: rooms, ⟨0, _⟩ => rfl
  | some head :: rooms, ⟨total + 1, hlt⟩ =>
    have htail : 0 < head.tail := hpos head mem_cons_self
    unfold copyFrame buildPkt fillSegs
    dsimp only
    rw [pass_view, if_neg (Nat.succ_ne_zero total)]
    by_cases h : src.copyable.any (· < 0 + min (total + 1) head.tail) = true
    · rw [if_pos h, if_pos h]
      rfl
    · rw [if_neg h, if_neg h]
      dsimp only
      rw [copyRest_view src head.id rooms _ _ _ _ _ (by omega) fun r hr =>
        hpos r (mem_cons_of_mem head hr)]
      simp only [Nat.zero_add]
      cases fillSegs src.copyable rooms (min (total + 1) head.tail)
        (total + 1 - min (total + 1) head.tail) 1 <;> rfl

end View

end FStack.Tx.Copy
