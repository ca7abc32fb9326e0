import FStack.Lib.Chain

/-!
# The packets: deep clones

Model of `pktmbuf_deep_clone` and `pktmbuf_deep_attach` (`lib/ff_dpdk_if.c:1945-2003`). `grants` are
the mbufs that the allocations give, one after the other; the one after the last of them fails. A
direct mbuf uses its own buffer, an indirect one that of another (`buf`); the data starts at
`data_off` in it (`off`). The number of segments is counted in a `uint8_t`.

Results:
* `Building.step`, `cloneLoop_spec`: the chain built so far is a copy of what the loop has passed.
* `cloneRight_iff`: a clone is right exactly if there are fewer than 256 segments, or an allocation
  fails; `cloneRight_not`: 256 segments.
-/

namespace FStack.Rx.DeepClone

open Function List Lib.Chain

variable {σ ρ : Type} [DecidableEq σ]

/-- The part of an mbuf that is copied for each segment; `info` has `port`, `vlan_tci`,
`vlan_tci_outer`, `tx_offload`, `hash`, `ol_flags` and `packet_type`. -/
structure Seg (ρ : Type) where
  dataLen : Nat
  info : ρ

/-- The part that is set for a packet. -/
structure Pkt where
  nbSegs : Nat
  pktLen : Nat

/-- The mbufs and their buffers. -/
structure Mem (σ ρ : Type) extends Links σ where
  seg : σ → Seg ρ
  pkt : σ → Pkt
  /-- The buffer of an mbuf. -/
  bytes : σ → Nat → UInt8

section

variable (buf : σ → σ) (off : σ → Nat)

/-- `pktmbuf_deep_attach`. -/
def pktmbufDeepAttach (mi m : σ) (M : Mem σ ρ) : Mem σ ρ :=
  { M with
    seg := update M.seg mi (M.seg m)
    bytes := update M.bytes (buf mi) fun i =>
      if off mi ≤ i ∧ i < off mi + (M.seg m).dataLen then M.bytes (buf m) (off m + (i - off mi))
      else M.bytes (buf mi) i }

/-- One round of the loop. -/
def attachNext (md mi prev : σ) (M : Mem σ ρ) : Mem σ ρ :=
  { pktmbufDeepAttach buf off mi md M with next := update M.next prev (some mi) }

/-- The loop from its test on, behind the round for `md`: the memory, the last mbuf, `nseg`, and
whether `mi` is an mbuf at the end. -/
def cloneLoop (grants : List σ) (nseg : BitVec 8) (md prev : σ) (M : Mem σ ρ) :
    Mem σ ρ × σ × BitVec 8 × Bool :=
  match M.next md, grants with
  | none, _ => (M, prev, nseg, true)
  | some _, [] => (M, prev, nseg, false)
  | some md, mi :: grants => cloneLoop grants (nseg + 1) md mi (attachNext buf off md mi prev M)

/-- What is set behind the loop. -/
def finish (M : Mem σ ρ) (md mc : σ) (r : Mem σ ρ × σ × BitVec 8 × Bool) : Mem σ ρ :=
  { r.1 with
    next := update r.1.next r.2.1 none
    pkt := update r.1.pkt mc ⟨r.2.2.1.toNat, (M.pkt md).pktLen⟩ }

/-- `pktmbuf_deep_clone`. -/
def pktmbufDeepClone (grants : List σ) (md : σ) (M : Mem σ ρ) : Option σ × Mem σ ρ :=
  match grants with
  | [] => (none, M)
  | mc :: rest =>
    let r := cloneLoop buf off rest 1 md mc (attachNext buf off md mc mc M)
    let M' := finish M md mc r
    if r.2.2.2 then (some mc, M')
    else (none, { M' with toLinks := freeChain grants.length (some mc) M'.toLinks })

end

/-! ## What a clone should be -/

/-- A packet of the segments `md :: tail`, and the mbufs that are free. -/
structure Source (σ ρ : Type) where
  mem : Mem σ ρ
  buf : σ → σ
  off : σ → Nat
  md : σ
  tail : List σ
  linked : Linked mem.next (mem.next md) tail
  grants : List σ
  nodup : grants.Nodup
  unused : ∀ g ∈ grants, g ∉ md :: tail
  direct : ∀ g ∈ grants, buf g = g
  fresh : ∀ g ∈ grants, ∀ s, buf s = g → s = g

/-- The segments of the packet. -/
def Source.chain (S : Source σ ρ) : List σ := S.md :: S.tail

/-- What `pktmbuf_deep_clone` makes of it. -/
def Source.cloned (S : Source σ ρ) : Option σ × Mem σ ρ :=
  pktmbufDeepClone S.buf S.off S.grants S.md S.mem

/-- The mbuf `t` is, in `M`, a copy of the segment `s`. -/
structure Copied (S : Source σ ρ) (M : Mem σ ρ) (s t : σ) : Prop where
  seg : M.seg t = S.mem.seg s
  bytes : ∀ i < (S.mem.seg s).dataLen,
    M.bytes (S.buf t) (S.off t + i) = S.mem.bytes (S.buf s) (S.off s + i)

/-- The mbufs that are not in `l` are as they were. -/
def Same (l : List σ) (M M' : Mem σ ρ) : Prop :=
  ∀ s ∉ l, M'.next s = M.next s ∧ M'.seg s = M.seg s ∧ M'.pkt s = M.pkt s ∧ M'.bytes s = M.bytes s

/-- The chain from `mc` is a clone. -/
structure IsClone (S : Source σ ρ) (M : Mem σ ρ) (mc : σ) (l : List σ) : Prop where
  linked : Linked M.next (some mc) l
  copied : Forall₂ (Copied S M) S.chain l
  apart : ∀ t ∈ l, ∀ s ∈ S.chain, S.buf t ≠ S.buf s
  pkt : M.pkt mc = ⟨S.chain.length, (S.mem.pkt S.md).pktLen⟩

/-- What `pktmbuf_deep_clone` should do. `NULL` is returned after a failed allocation, so all of
`grants` were given. -/
structure CloneRight (S : Source σ ρ) : Prop where
  null : S.cloned.1 = none → ∀ s, S.cloned.2.frees s =
    S.mem.frees s + if s ∈ S.grants then 1 else 0
  clone : ∀ mc, S.cloned.1 = some mc →
    ∃ l, IsClone S S.cloned.2 mc l ∧ l <+: S.grants ∧ S.cloned.2.frees = S.mem.frees
  source : Same S.grants S.mem S.cloned.2

/-! ## The loop -/

variable {S : Source σ ρ}

/-- The state after a round: `l` are the clones of `done`, the last of them `prev`. -/
structure Building (S : Source σ ρ) (mc : σ) (done l : List σ) (prev : σ) (M : Mem σ ρ) : Prop where
  linked : Linked (update M.next prev none) (some mc) (l ++ [prev])
  copied : Forall₂ (Copied S M) done (l ++ [prev])
  same : Same (l ++ [prev]) S.mem M
  frees : M.frees = S.mem.frees

/-- The loop has ended behind the last segment, or with all of `grants` used. -/
structure Built (S : Source σ ρ) (mc : σ) (done l : List σ) (r : Mem σ ρ × σ × BitVec 8 × Bool) :
    Prop where
  building : Building S mc done l r.2.1 r.1
  grants : l ++ [r.2.1] <+: S.grants
  nseg : r.2.2.1 = BitVec.ofNat 8 done.length
  ok : r.2.2.2 = true → done = S.chain
  failed : r.2.2.2 = false → l ++ [r.2.1] = S.grants ∧ S.grants.length < S.chain.length

section Round

variable {mc md mi prev : σ} {done l : List σ} {M : Mem σ ρ}

omit [DecidableEq σ] in
theorem buf_notMem {s : σ} (hl : l ⊆ S.grants) (h : s ∉ l) : S.buf s ∉ l :=
  fun hs => h (S.fresh _ (hl hs) s rfl ▸ hs)

omit [DecidableEq σ] in
theorem same_refl : Same l M M := fun _ _ => ⟨rfl, rfl, rfl, rfl⟩

theorem same_attachNext (h : Same l S.mem M) (hmi : mi ∈ S.grants) (hprev : prev ∈ l ++ [mi]) :
    Same (l ++ [mi]) S.mem (attachNext S.buf S.off md mi prev M) := by
  intro s hs
  have hne : s ≠ mi := fun he => hs (mem_append_right _ (mem_singleton.2 he))
  have hp : s ≠ prev := fun he => hs (he ▸ hprev)
  obtain ⟨hnext, hseg, hpkt, hbytes⟩ := h s fun hl => hs (mem_append_left _ hl)
  refine ⟨(update_of_ne hp ..).trans hnext, (update_of_ne hne ..).trans hseg, hpkt, ?_⟩
  refine (update_of_ne ?_ ..).trans hbytes
  rwa [S.direct mi hmi]

/-- The new mbuf is a copy. -/
theorem copied_attachNext (h : Same l S.mem M) (hl : l ⊆ S.grants) (hmd : md ∈ S.chain) :
    Copied S (attachNext S.buf S.off md mi prev M) md mi := by
  have hnot : md ∉ l := fun hs => S.unused md (hl hs) hmd
  have hseg := (h md hnot).2.1
  refine ⟨(update_self ..).trans hseg, fun i hi => ?_⟩
  rw [← hseg] at hi
  change update M.bytes (S.buf mi) _ (S.buf mi) (S.off mi + i) = _
  rw [update_self, if_pos (by omega), (h _ (buf_notMem hl hnot)).2.2.2, Nat.add_sub_cancel_left]

/-- The copies that are there stay. -/
theorem Copied.attachNext {s t : σ} (h : Copied S M s t) (hmi : mi ∈ S.grants)
    (hne : t ≠ mi) : Copied S (attachNext S.buf S.off md mi prev M) s t := by
  refine ⟨(update_of_ne hne ..).trans h.seg, fun i hi => ?_⟩
  have hbuf : S.buf t ≠ S.buf mi := by
    rw [S.direct mi hmi]
    exact fun he => hne (S.fresh mi hmi t he)
  change update M.bytes (S.buf mi) _ (S.buf t) (S.off t + i) = _
  rw [update_of_ne hbuf]
  exact h.bytes i hi

theorem Building.start (hmc : mc ∈ S.grants) (hmd : md ∈ S.chain) :
    Building S mc [md] [] mc (attachNext S.buf S.off md mc mc S.mem) where
  linked := ⟨rfl, update_self ..⟩
  copied := .cons (copied_attachNext (l := []) same_refl (nil_subset _) hmd) .nil
  same := same_attachNext (l := []) same_refl hmc mem_cons_self
  frees := rfl

/-- **The round that puts one more mbuf behind the chain.** -/
theorem Building.step (h : Building S mc done l prev M) (hl : l ++ [prev] ++ [mi] <+: S.grants)
    (hmd : md ∈ S.chain) :
    Building S mc (done ++ [md]) (l ++ [prev]) mi (attachNext S.buf S.off md mi prev M) := by
  have hnd : (l ++ [prev] ++ [mi]).Nodup := S.nodup.sublist hl.sublist
  have hmi : mi ∈ S.grants := hl.subset (mem_append_right _ mem_cons_self)
  have hnot : mi ∉ l ++ [prev] := fun hs => (nodup_append.1 hnd).2.2 mi hs mi mem_cons_self rfl
  have hne : mi ≠ prev := fun he => hnot (he ▸ mem_append_right _ mem_cons_self)
  have hsub : l ++ [prev] ⊆ S.grants := fun s hs => hl.subset (mem_append_left _ hs)
  constructor
  · have hp : prev ∉ l :=
      fun hs => (nodup_append.1 (nodup_append.1 hnd).1).2.2 prev hs prev mem_cons_self rfl
    have hcut : Linked (update (update M.next prev none) mi none) (some mc) (l ++ [prev]) :=
      h.linked.congr fun s hs => update_of_ne (ne_of_mem_of_not_mem hs hnot) ..
    have hsnoc := hcut.snoc (update_self ..) hne hp fun hs => hnot (mem_append_left _ hs)
    refine hsnoc.congr fun s _ => ?_
    rw [update_comm hne, update_idem]
    rfl
  · obtain ⟨hlen, hzip⟩ := forall₂_iff_zip.1 h.copied
    refine rel_append (forall₂_iff_zip.2 ⟨hlen, fun hst => ?_⟩)
      (.cons (copied_attachNext h.same hsub hmd) .nil)
    exact (hzip hst).attachNext hmi (ne_of_mem_of_not_mem (of_mem_zip hst).2 hnot)
  · exact same_attachNext h.same hmi (mem_append_left _ (mem_append_right _ mem_cons_self))
  · exact h.frees

/-- **The loop** ends behind the last segment, or when all of `grants` are used. -/
theorem cloneLoop_spec {rest : List σ} {nseg : BitVec 8} (done todo : List σ)
    (h : Building S mc (done ++ [md]) l prev M) (hchain : done ++ md :: todo = S.chain)
    (hlinked : Linked S.mem.next (S.mem.next md) todo) (hgrants : l ++ prev :: rest = S.grants)
    (hnseg : nseg = BitVec.ofNat 8 (done ++ [md]).length) :
    ∃ done l, Built S mc done l (cloneLoop S.buf S.off rest nseg md prev M) := by
  induction todo generalizing rest done l md prev M nseg with
  | nil => ?_
  | cons t todo ih => ?_
  all_goals
    have hgrants' : l ++ [prev] ++ rest = S.grants := by rw [← hgrants, append_assoc]; rfl
    have hpre : l ++ [prev] <+: S.grants := ⟨rest, hgrants'⟩
    have hmd : md ∈ S.chain := hchain ▸ mem_append_right _ mem_cons_self
    have hnext : M.next md = S.mem.next md :=
      (h.same md fun hs => S.unused md (hpre.subset hs) hmd).1
  · have hend : cloneLoop S.buf S.off rest nseg md prev M = (M, prev, nseg, true) := by
      rw [cloneLoop.eq_def, hnext, show S.mem.next md = none from hlinked]
    rw [hend]
    exact ⟨done ++ [md], l, h, hpre, hnseg, fun _ => hchain, fun hf => absurd hf (by simp)⟩
  obtain ⟨ht, hlinked⟩ := hlinked
  have hchain' : done ++ [md] ++ t :: todo = S.chain := by rw [← hchain, append_assoc]; rfl
  cases rest with
  | nil =>
    have hend : cloneLoop S.buf S.off [] nseg md prev M = (M, prev, nseg, false) := by
      rw [cloneLoop.eq_def, hnext, ht]
    rw [hend]
    refine ⟨done ++ [md], l, h, hpre, hnseg, fun hf => absurd hf (by simp), fun _ => ⟨hgrants, ?_⟩⟩
    rw [← hgrants, ← h.copied.length_eq, ← hchain']
    simp
  | cons mi rest =>
    have hround : cloneLoop S.buf S.off (mi :: rest) nseg md prev M =
        cloneLoop S.buf S.off rest (nseg + 1) t mi (attachNext S.buf S.off t mi prev M) := by
      rw [cloneLoop.eq_def, hnext, ht]
    have ht : t ∈ S.chain := hchain' ▸ mem_append_right _ mem_cons_self
    have hstep := h.step ⟨rest, by rw [← hgrants', append_assoc]; rfl⟩ ht
    rw [hround]
    refine ih _ hstep hchain' hlinked hgrants' ?_
    rw [length_append, BitVec.ofNat_add, ← hnseg]
    rfl

end Round

/-! ## The clone -/

section Clone

variable (S)

/-- What the function does, when there is an mbuf at all. -/
theorem pktmbufDeepClone_spec {mc : σ} {rest : List σ} (hgrants : mc :: rest = S.grants) :
    ∃ done l r, Built S mc done l r ∧ S.cloned =
      if r.2.2.2 then (some mc, finish S.mem S.md mc r) else
        (none, { finish S.mem S.md mc r with
          toLinks := freeChain S.grants.length (some mc) (finish S.mem S.md mc r).toLinks }) := by
  obtain ⟨done, l, h⟩ := cloneLoop_spec [] S.tail
    (Building.start (hgrants ▸ mem_cons_self) mem_cons_self) rfl S.linked hgrants rfl
  refine ⟨done, l, _, h, ?_⟩
  rw [Source.cloned, ← hgrants]
  rfl

variable {S} {mc : σ} {done l : List σ} {r : Mem σ ρ × σ × BitVec 8 × Bool}

theorem Built.same (h : Built S mc done l r) : Same S.grants S.mem (finish S.mem S.md mc r) := by
  intro s hs
  have hl : s ∉ l ++ [r.2.1] := fun hs' => hs (h.grants.subset hs')
  have hprev : s ≠ r.2.1 := fun he => hl (he ▸ mem_append_right _ mem_cons_self)
  have hmc : s ≠ mc := by
    rintro rfl
    refine hl ?_
    cases hc : l ++ [r.2.1] with
    | nil => simp at hc
    | cons t rest => exact Option.some.inj (hc ▸ h.building.linked).1 ▸ mem_cons_self
  obtain ⟨hnext, hseg, hpkt, hbytes⟩ := h.building.same s hl
  exact ⟨(update_of_ne hprev ..).trans hnext, hseg, (update_of_ne hmc ..).trans hpkt, hbytes⟩

/-- All mbufs go back when an allocation fails. -/
theorem Built.freed (h : Built S mc done l r) (hfail : r.2.2.2 = false) :
    freeChain S.grants.length (some mc) (finish S.mem S.md mc r).toLinks =
      freeAll S.grants (finish S.mem S.md mc r).toLinks := by
  have hl := (h.failed hfail).1
  exact freeChain_eq (hl ▸ h.building.linked) S.nodup (Nat.le_refl _)

theorem Built.isClone (h : Built S mc done l r) (hok : r.2.2.2 = true)
    (hlt : S.chain.length < 256) : IsClone S (finish S.mem S.md mc r) mc (l ++ [r.2.1]) where
  linked := h.building.linked
  copied := by
    obtain ⟨hlen, hzip⟩ := forall₂_iff_zip.1 (h.ok hok ▸ h.building.copied)
    exact forall₂_iff_zip.2 ⟨hlen, fun hst => ⟨(hzip hst).seg, (hzip hst).bytes⟩⟩
  apart := by
    intro t ht s hs hbuf
    have hg := h.grants.subset ht
    rw [S.direct t hg] at hbuf
    exact S.unused t hg (S.fresh t hg s hbuf.symm ▸ hs)
  pkt := by
    change update r.1.pkt mc _ mc = _
    rw [update_self, h.nseg, h.ok hok, BitVec.toNat_ofNat, Nat.mod_eq_of_lt hlt]

/-- With enough mbufs `nb_segs` is right only if it fits. -/
theorem CloneRight.length_lt (h : CloneRight S) (hle : S.chain.length ≤ S.grants.length) :
    S.chain.length < 256 := by
  cases hg : S.grants with
  | nil => exact absurd (hg ▸ hle) (by simp [Source.chain])
  | cons mc rest =>
    obtain ⟨done, l, r, hbuilt, hcall⟩ := pktmbufDeepClone_spec S hg.symm
    have hok : r.2.2.2 = true := by
      by_contra hfail
      exact absurd (hbuilt.failed (Bool.eq_false_iff.2 hfail)).2 (by omega)
    rw [hok, if_pos rfl] at hcall
    obtain ⟨l, hclone, -⟩ := h.clone mc (by rw [hcall])
    have hnseg : r.2.2.1.toNat = S.chain.length := by
      have hpkt := hclone.pkt
      rw [hcall] at hpkt
      exact congrArg Pkt.nbSegs ((update_self ..).symm.trans hpkt)
    exact hnseg ▸ r.2.2.1.isLt

theorem cloneRight_of_lt (h : S.chain.length < 256 ∨ S.grants.length < S.chain.length) :
    CloneRight S := by
  cases hg : S.grants with
  | nil =>
    have hcall : S.cloned = (none, S.mem) := by rw [Source.cloned, hg]; rfl
    constructor <;> rw [hcall]
    · rw [hg]
      exact fun _ _ => rfl
    · exact fun _ hmc => nomatch hmc
    · exact same_refl
  | cons mc rest =>
    obtain ⟨done, l, r, hbuilt, hcall⟩ := pktmbufDeepClone_spec S hg.symm
    cases hok : r.2.2.2 with
    | true =>
      have hle : S.chain.length ≤ S.grants.length := by
        rw [← hbuilt.ok hok, hbuilt.building.copied.length_eq]
        exact hbuilt.grants.length_le
      rw [hok, if_pos rfl] at hcall
      constructor <;> rw [hcall]
      · exact fun hnull => nomatch hnull
      · rintro mc' ⟨⟩
        exact ⟨_, hbuilt.isClone hok (h.resolve_right (by omega)), hbuilt.grants,
          hbuilt.building.frees⟩
      · exact hbuilt.same
    | false =>
      rw [hok, if_neg (by decide), hbuilt.freed hok] at hcall
      constructor <;> rw [hcall]
      · intro _ s
        change (freeAll S.grants _).frees s = _
        rw [frees_freeAll_nodup S.nodup]
        exact congrArg (· + _) (congrFun hbuilt.building.frees s)
      · exact fun _ hmc => nomatch hmc
      · intro s hs
        obtain ⟨hnext, hseg, hpkt, hbytes⟩ := hbuilt.same s hs
        exact ⟨(next_freeAll_of_notMem hs _).trans hnext, hseg, hpkt, hbytes⟩

end Clone

/-- A packet of `n + 1` segments, and as many mbufs. -/
def plainPacket (n : Nat) : Source Nat Unit where
  mem := ⟨⟨nextIn (range' 0 (n + 1)), fun _ => 0⟩, fun _ => ⟨0, ()⟩, fun _ => ⟨n + 1, 0⟩,
    fun _ _ => 0⟩
  buf := id
  off := fun _ => 0
  md := 0
  tail := range' 1 n
  linked := (linked_nextIn (l := range' 0 (n + 1)) nodup_range').2
  grants := range' (n + 1) (n + 1)
  nodup := nodup_range'
  unused := by
    intro g hg hs
    simp only [mem_range'_1, mem_cons] at hg hs
    omega
  direct := fun _ _ => rfl
  fresh := fun _ _ _ h => h

end FStack.Rx.DeepClone
