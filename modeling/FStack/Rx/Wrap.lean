import FStack.Lib.Chain
import Mathlib.Algebra.GroupWithZero.Nat

/-!
# A received packet in BSD mbufs

Model of `ff_veth_input` (`lib/ff_dpdk_if.c:1838-1891`) with `ff_mbuf_gethdr`, `ff_mbuf_get`,
`ff_mbuf_free` and `ff_mbuf_ext_free` (`lib/ff_veth.c:312-322`, `466-511`).

A packet of the driver is a chain of segments. The function wraps each of them in a BSD mbuf that
refers to its data: a header mbuf for the first, a further mbuf for each one behind it. The BSD
mbufs own the segments they wrap; `m_freem` of the header gives back exactly these, one by one
(`rte_pktmbuf_free_seg`), while `rte_pktmbuf_free` walks the chain that is left
(`dpdk/lib/mbuf/rte_mbuf.h:1347-1427`; the segments are direct and have one reference).

Which allocations fail is the environment: `alloc k` says whether the `k`-th BSD mbuf was got. The
length of the packet is the sum of its segments' lengths, as drivers set it; it is a 32-bit number,
and the parameter `total` of `ff_mbuf_gethdr` has 16 bits.

When an mbuf behind the header cannot be got, the header is freed, and with it the segments wrapped
so far, and then `rte_pktmbuf_free(pkt)` is called on the first of them: it goes back twice, and the
segments behind it, which are not chained to it any more, are lost.

Results:
* `input_right_iff`: the packet is handed over whole, or each of its segments goes back once,
  exactly if no mbuf behind the header fails, and a packet that is handed over has less than 64 KiB.
-/

namespace FStack.Rx.Wrap

open List FStack.Lib.Chain

variable {σ δ : Type} [DecidableEq σ]

/-- A packet of the driver: the chain from `pkt` on. -/
structure RxPkt (σ δ : Type) where
  pkt : σ
  rest : List σ
  distinct : (pkt :: rest).Nodup
  /-- `rte_pktmbuf_mtod`. -/
  data : σ → δ
  dataLen : σ → BitVec 16
  pktLen : BitVec 32
  pktLen_eq : pktLen.toNat = ((pkt :: rest).map fun s => (dataLen s).toNat).sum
  /-- `RTE_MBUF_F_RX_IP_CKSUM_BAD | RTE_MBUF_F_RX_L4_CKSUM_BAD`. -/
  cksumBad : Bool
  /-- `vlan_tci`, with `RTE_MBUF_F_RX_VLAN_STRIPPED`. -/
  vlanTci : Option (BitVec 16)
  timestamp : Option (BitVec 64)

/-- All the segments of a packet. -/
def RxPkt.segs (p : RxPkt σ δ) : List σ := p.pkt :: p.rest

/-- A BSD mbuf with external storage: the segment it owns, and where its data are. -/
structure Mb (σ δ : Type) where
  seg : σ
  data : δ
  len : BitVec 16

/-- A BSD packet. -/
structure BsdPkt (σ δ : Type) where
  /-- `m_pkthdr.len`. -/
  len : Nat
  /-- `csum_flags` say that the checksums are valid. -/
  csumValid : Bool
  vtag : Option (BitVec 16)
  timestamp : Option (BitVec 64)
  chain : List (Mb σ δ)

/-- Where a packet is handed to. -/
inductive Way where
  | lro
  | process

/-! ## The function -/

/-- The mbuf that wraps a segment. -/
def RxPkt.mb (p : RxPkt σ δ) (s : σ) : Mb σ δ := ⟨s, p.data s, p.dataLen s⟩

/-- `ff_mbuf_gethdr`; `total` has 16 bits. -/
def ffMbufGethdr (ok : Bool) (total : BitVec 16) (m : Mb σ δ) (rxCsum : Bool) :
    Option (BsdPkt σ δ) :=
  if ok then some ⟨total.toNat, rxCsum, none, none, [m]⟩ else none

/-- `ff_mbuf_get`: the mbuf is put behind the last one. -/
def ffMbufGet (ok : Bool) (hdr : BsdPkt σ δ) (m : Mb σ δ) : Option (BsdPkt σ δ) :=
  if ok then some { hdr with chain := hdr.chain ++ [m] } else none

/-- `ff_mbuf_free`: every mbuf of the chain gives its segment back. -/
def ffMbufFree (hdr : BsdPkt σ δ) (M : Links σ) : Links σ := freeAll (hdr.chain.map Mb.seg) M

/-- The loop over the segments behind the first, from the `k`-th allocation on; `.error` with what
was wrapped when one fails. -/
def wrapRest (p : RxPkt σ δ) (alloc : Nat → Bool) :
    Nat → List σ → BsdPkt σ δ → Except (BsdPkt σ δ) (BsdPkt σ δ)
  | _, [], hdr => .ok hdr
  | k, pn :: rest, hdr =>
    match ffMbufGet (alloc k) hdr (p.mb pn) with
    | none => .error hdr
    | some hdr => wrapRest p alloc (k + 1) rest hdr

/-- `ff_veth_input`; `lro` says, for an interface with LRO, whether `ff_lro_rx` takes the packet.
What was given back, and what is handed over. -/
def ffVethInput (rxCsum : Bool) (lro : Option Bool) (alloc : Nat → Bool) (p : RxPkt σ δ)
    (M : Links σ) : Links σ × Option (Way × BsdPkt σ δ) :=
  let free := freeChain p.segs.length (some p.pkt)
  if rxCsum && p.cksumBad then (free M, none)
  else
    match ffMbufGethdr (alloc 0) (p.pktLen.setWidth 16) (p.mb p.pkt) rxCsum with
    | none => (free M, none)
    | some hdr =>
      let hdr := { hdr with vtag := p.vlanTci, timestamp := p.timestamp }
      match wrapRest p alloc 1 p.rest hdr with
      | .error hdr => (free (ffMbufFree hdr M), none)
      | .ok hdr => (M, some (if lro = some true then .lro else .process, hdr))

/-! ## The loop -/

section Loop

variable (p : RxPkt σ δ) {alloc : Nat → Bool}

omit [DecidableEq σ] in
theorem wrapRest_ok : ∀ {k : Nat} {rest : List σ} {hdr : BsdPkt σ δ},
    (∀ i, i < rest.length → alloc (k + i) = true) →
    wrapRest p alloc k rest hdr = .ok { hdr with chain := hdr.chain ++ rest.map p.mb }
  | _, [], hdr, _ => by simp [wrapRest]
  | k, pn :: rest, hdr, h => by
    have h0 : alloc k = true := h 0 (Nat.zero_lt_succ _)
    have hrest : ∀ i, i < rest.length → alloc (k + 1 + i) = true := by
      intro i hi
      rw [Nat.add_right_comm]
      exact h (i + 1) (Nat.succ_lt_succ hi)
    simp only [wrapRest, ffMbufGet, h0, if_true]
    rw [wrapRest_ok hrest]
    simp

omit [DecidableEq σ] in
/-- When an allocation fails, the mbufs so far are those from before and more. -/
theorem wrapRest_fail : ∀ {k : Nat} {rest : List σ} {hdr : BsdPkt σ δ},
    (∃ i, i < rest.length ∧ alloc (k + i) = false) →
    ∃ hdr' more, wrapRest p alloc k rest hdr = .error hdr' ∧ hdr'.chain = hdr.chain ++ more
  | _, [], hdr, ⟨i, hi, _⟩ => absurd hi (Nat.not_lt_zero i)
  | k, pn :: rest, hdr, ⟨i, hi, hfail⟩ => by
    cases h0 : alloc k with
    | false => exact ⟨hdr, [], by simp [wrapRest, ffMbufGet, h0], by simp⟩
    | true =>
      have hrest : ∃ i, i < rest.length ∧ alloc (k + 1 + i) = false := by
        cases i with
        | zero => rw [add_zero, h0] at hfail; cases hfail
        | succ i => exact ⟨i, Nat.lt_of_succ_lt_succ hi, by rwa [Nat.add_right_comm]⟩
      obtain ⟨hdr', more, he, hc⟩ :=
        @wrapRest_fail _ _ { hdr with chain := hdr.chain ++ [p.mb pn] } hrest
      refine ⟨hdr', p.mb pn :: more, ?_, by simpa using hc⟩
      simpa only [wrapRest, ffMbufGet, h0, if_true] using he

end Loop

/-! ## What it should do -/

/-- The packet before the call: its segments are chained and none has been given back. -/
def RxPkt.links (p : RxPkt σ δ) : Links σ := ⟨nextIn p.segs, fun _ => 0⟩

/-- Each segment of the packet, and nothing else, has been given back once. -/
def RxPkt.FreedOnce (p : RxPkt σ δ) (M : Links σ) : Prop :=
  ∀ s, M.frees s = if s ∈ p.segs then 1 else 0

/-- **The outcome is right**: a packet that is handed over wraps the segments in order, has their
length, and will give each of them back once; a packet that is dropped has done so. -/
def Right (p : RxPkt σ δ) : Links σ × Option (Way × BsdPkt σ δ) → Prop
  | (M, none) => p.FreedOnce M
  | (M, some (_, hdr)) => hdr.chain = p.segs.map p.mb ∧
      hdr.len = (p.segs.map fun s => (p.dataLen s).toNat).sum ∧ (∀ s, M.frees s = 0) ∧
      p.FreedOnce (ffMbufFree hdr M)

/-- The condition: no mbuf behind the header fails, and what is handed over has less than 64 KiB. -/
def Wrappable (rxCsum : Bool) (alloc : Nat → Bool) (p : RxPkt σ δ) : Prop :=
  (rxCsum && p.cksumBad) = true ∨ alloc 0 = false ∨
    (∀ i, i < p.rest.length → alloc (1 + i) = true) ∧ p.pktLen.toNat < 65536

section Right

variable (p : RxPkt σ δ)

theorem RxPkt.freedOnce_freeAll : p.FreedOnce (freeAll p.segs p.links) := by
  intro s
  rw [frees_freeAll_nodup (show p.segs.Nodup from p.distinct)]
  exact zero_add _

theorem RxPkt.free_links : freeChain p.segs.length (some p.pkt) p.links = freeAll p.segs p.links :=
  freeChain_eq (linked_nextIn p.distinct) p.distinct (Nat.le_refl _)

variable {hdr : BsdPkt σ δ}

/-- A first segment that has gone back goes back a second time. -/
theorem RxPkt.not_freedOnce_again (hmem : p.pkt ∈ hdr.chain.map Mb.seg) :
    ¬p.FreedOnce (freeChain p.segs.length (some p.pkt) (ffMbufFree hdr p.links)) := by
  intro h
  have hnext : (ffMbufFree hdr p.links).next p.pkt = none := next_freeAll _ _ (.inr hmem)
  have hwalk : freeChain p.segs.length (some p.pkt) (ffMbufFree hdr p.links) =
      freeSeg p.pkt (ffMbufFree hdr p.links) := by
    rw [show p.segs.length = p.rest.length + 1 from rfl, freeChain, hnext, freeChain_none]
  have hone := h p.pkt
  have hpos : 0 < (hdr.chain.map Mb.seg).count p.pkt := count_pos_iff.2 hmem
  rw [hwalk, if_pos (show p.pkt ∈ p.segs from mem_cons_self)] at hone
  simp only [freeSeg, Function.update_self, ffMbufFree, frees_freeAll] at hone
  omega

/-- A packet whose mbufs wrap all segments is right if its length is. -/
theorem RxPkt.right_handed (way : Way) (hchain : hdr.chain = p.segs.map p.mb) :
    Right p (p.links, some (way, hdr)) ↔ hdr.len = p.pktLen.toNat := by
  have hsegs : hdr.chain.map Mb.seg = p.segs := by
    rw [hchain, map_map]
    exact map_id _
  have hfree : p.FreedOnce (ffMbufFree hdr p.links) := by
    rw [ffMbufFree, hsegs]
    exact p.freedOnce_freeAll
  rw [p.pktLen_eq]
  exact ⟨fun h => h.2.1, fun h => ⟨hchain, h, fun _ => rfl, hfree⟩⟩

/-- **`ff_veth_input` is right** exactly if the packet has a bad checksum that the device has seen,
the header cannot be got, or all mbufs can be got and the packet has less than 64 KiB. -/
theorem input_right_iff (rxCsum : Bool) (lro : Option Bool) (alloc : Nat → Bool) :
    Right p (ffVethInput rxCsum lro alloc p p.links) ↔ Wrappable rxCsum alloc p := by
  unfold ffVethInput Wrappable
  dsimp only
  rw [p.free_links]
  split
  next hbad => exact ⟨fun _ => .inl hbad, fun _ => p.freedOnce_freeAll⟩
  rename_i hgood
  cases h0 : alloc 0 with
  | false => exact ⟨fun _ => .inr (.inl rfl), fun _ => p.freedOnce_freeAll⟩
  | true =>
    simp only [ffMbufGethdr, if_true]
    by_cases hall : ∀ i, i < p.rest.length → alloc (1 + i) = true
    · rw [wrapRest_ok p hall]
      have hcut : (p.pktLen.setWidth 16).toNat = p.pktLen.toNat ↔ p.pktLen.toNat < 65536 := by
        exact ⟨fun h => h ▸ Nat.mod_lt _ (by decide), fun h => Nat.mod_eq_of_lt h⟩
      refine (p.right_handed _ rfl).trans (hcut.trans ?_)
      exact ⟨fun h => .inr (.inr ⟨hall, h⟩),
        fun h => ((h.resolve_left hgood).resolve_left (by decide)).2⟩
    · -- an mbuf behind the header fails: the first segment goes back twice
      have hfail : ∃ i, i < p.rest.length ∧ alloc (1 + i) = false := by
        simpa only [not_forall, exists_prop, Bool.not_eq_true] using hall
      obtain ⟨hdr, more, he, hc⟩ := wrapRest_fail p hfail
      rw [he]
      have hmem : p.pkt ∈ hdr.chain.map Mb.seg := by
        rw [hc]
        simp [RxPkt.mb]
      exact ⟨fun h => absurd h (p.not_freedOnce_again hmem),
        fun h => absurd ((h.resolve_left hgood).resolve_left (by decide)).1 hall⟩

end Right

/-- A packet of two segments with one byte each. -/
def twoSegs : RxPkt Bool Unit where
  pkt := false
  rest := [true]
  distinct := by decide
  data := fun _ => ()
  dataLen := fun _ => 1#16
  pktLen := 2#32
  pktLen_eq := rfl
  cksumBad := false
  vlanTci := none
  timestamp := none

/-- The header is got and the second mbuf is not: the first segment goes back twice, the second
never. -/
theorem input_not_right :
    let r := ffVethInput false none (· == 0) twoSegs twoSegs.links
    ¬Right twoSegs r ∧ r.2.isNone = true ∧ r.1.frees false = 2 ∧ r.1.frees true = 0 :=
  ⟨fun h => absurd (h false) (by decide), rfl, by decide, by decide⟩

end FStack.Rx.Wrap
