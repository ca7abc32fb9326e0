import FStack.Rx.Classify

/-!
# A stripped VLAN tag is put back

`ff_add_vlan_tag` (`lib/ff_dpdk_if.c:2005-2021`) on a frame out of which the device has taken the
tag, and what `protocol_filter` and `is_tcp_syn` make of the frame with the tag. They look at the
bytes behind the type, which have moved by four (`protocolFilterIp_shift`).

The data of an mbuf lie in a buffer whose length has 16 bits, with the headroom before them.
-/

namespace FStack.Rx.VlanTag

open FStack.Rss (Byte)

/-- What a device that strips tags makes of a frame: the frame without its tag, and the tag. -/
def strip (fr : Frame) : Option (Frame × Nat) :=
  if 18 ≤ fr.len ∧ be16 fr.mem 12 = 0x8100 then
    some (⟨fun i => if i < 12 then fr.mem i else fr.mem (i + 4), fr.len - 4,
      Nat.lt_of_le_of_lt (Nat.sub_le _ _) fr.len_lt⟩, be16 fr.mem 14)
  else none

/-! ## Bytes that have moved -/

theorem map_snd_after (o : Option (Trace × FilterReturn)) (f : Trace × FilterReturn → Trace) :
    (o.bind fun r => some (f r, r.2)).map Prod.snd = o.map Prod.snd := by
  cases o <;> rfl

variable {mem : Nat → Byte} {k : KniCfg}

section Shift

variable {mem' : Nat → Byte} {off len : Nat} (hmem : ∀ i, 14 ≤ i → mem' (i + 4) = mem i)
  (hoff : 14 ≤ off)

include hmem hoff

theorem at8_shift : at8 mem' (off + 4) = at8 mem off := by
  rw [at8, at8, hmem off hoff]

theorem at8_shift_add (n : Nat) : at8 mem' (off + 4 + n) = at8 mem (off + n) := by
  rw [add_right_comm]
  exact at8_shift hmem (Nat.le_add_right_of_le hoff)

theorem extHdrLen_shift (proto : Nat) :
    (extHdrLen mem' proto (off + 4)).map Prod.snd = (extHdrLen mem proto off).map Prod.snd := by
  unfold extHdrLen
  rw [at8_shift_add hmem hoff]
  split
  · rfl
  split
  · rfl
  split <;> rfl

theorem getIpv6HdrLen_shift (proto : Nat) :
    (getIpv6HdrLen mem' proto (off + 4) len).2 = (getIpv6HdrLen mem proto off len).2 := by
  induction len using Nat.strongRecOn generalizing proto off with
  | ind len ih =>
    have hext := extHdrLen_shift hmem hoff proto
    cases hr : extHdrLen mem proto off with
    | none =>
      rw [hr, Option.map_none, Option.map_eq_none_iff] at hext
      rw [getIpv6HdrLen_none hr, getIpv6HdrLen_none hext]
    | some r =>
      rw [hr, Option.map_some, Option.map_eq_some_iff] at hext
      obtain ⟨r', hr', hsize⟩ := hext
      rw [getIpv6HdrLen_some hr, getIpv6HdrLen_some hr', hsize, at8_shift hmem hoff]
      split
      · rfl
      next hcut =>
        have hpos := extHdrLen_pos mem hr
        dsimp only
        rw [add_right_comm, ih (len - r.2) (by omega) (by omega)]

theorem ipSwitch_shift {again again' : Nat → Nat → IpVersion → Option (Trace × FilterReturn)}
    {proto : Nat} (hagain : ∀ version, (again' (off + 4) len version).map Prod.snd =
      (again off len version).map Prod.snd) (tr tr' : Trace) :
    (ipSwitch k mem' again' tr' proto (off + 4) len).map Prod.snd =
      (ipSwitch k mem again tr proto off len).map Prod.snd := by
  have hload : load16 mem' (off + 4 + 2) = load16 mem (off + 2) := by
    rw [load16, load16, at8_shift_add hmem hoff, Nat.add_assoc, at8_shift_add hmem hoff]
  unfold ipSwitch protocolFilterTcp protocolFilterUdp filterPorts protocolFilterIcmp6
  rw [hload, at8_shift hmem hoff]
  simp only [apply_ite (Option.map Prod.snd), apply_ite Prod.snd, Option.map_some, map_snd_after, hagain]

/-- The class of an IP packet that has moved, by induction on the calls. -/
theorem protocolFilterIp_shift (fuel : Nat) (version : IpVersion) :
    (protocolFilterIp k mem' fuel (off + 4) len version).map Prod.snd =
      (protocolFilterIp k mem fuel off len version).map Prod.snd := by
  induction fuel generalizing off len version with
  | zero => rfl
  | succ fuel ih =>
    have hadd (n : Nat) : off + 4 + n = off + n + 4 := add_right_comm ..
    cases version with
    | ipv4 =>
      have hlen : ipv4HdrLen mem' (off + 4) = ipv4HdrLen mem off := by
        rw [ipv4HdrLen, ipv4HdrLen, at8_shift hmem hoff]
      rw [protocolFilterIp, protocolFilterIp, hlen, at8_shift_add hmem hoff, hadd (ipv4HdrLen ..)]
      split
      · rfl
      split
      · rfl
      · exact ipSwitch_shift hmem (by omega) (fun version => ih (by omega) version) ..
    | ipv6 =>
      rw [protocolFilterIp, protocolFilterIp, at8_shift_add hmem hoff, hadd 40]
      split
      · rfl
      dsimp only
      rw [getIpv6HdrLen_shift hmem (by omega), hadd (40 + _)]
      split
      · rfl
      · exact ipSwitch_shift hmem (by omega) (fun version => ih (by omega) version) ..

theorem ipTcpSyn_shift (type : Nat) : ipTcpSyn mem' type (off + 4) len = ipTcpSyn mem type off len := by
  have hsyn (n : Nat) : synOnly mem' (off + 4 + n) = synOnly mem (off + n) := by
    unfold synOnly
    rw [add_right_comm off, add_right_comm, hmem _ (by omega)]
  unfold ipTcpSyn ipv4HdrLen
  simp only [at8_shift_add hmem hoff, at8_shift hmem hoff, hsyn]

end Shift

/-! ## The frame with its tag -/

section Tagged

variable {fr fr' : Frame} {tci : Fin 65536} {i : Nat}

theorem taggedMem_of_lt (hi : i < 12) : taggedMem mem tci i = mem i := by
  simp [taggedMem, storeBe16, memmove, show i ≠ 12 by omega, show i ≠ 13 by omega,
    show i ≠ 14 by omega, show i ≠ 15 by omega, show ¬16 ≤ i by omega, show i < 14 by omega]

/-- Behind the tag are the old type, which is stored again, and the payload. -/
theorem taggedMem_add (hi : 12 ≤ i) : taggedMem mem tci (i + 4) = mem i := by
  unfold taggedMem storeBe16 memmove
  dsimp only
  rw [if_neg (by omega), if_neg (by omega)]
  by_cases htype : i < 14
  · rw [if_pos (by omega), if_neg (by omega), if_neg (by omega), if_pos (by omega)]
    congr 1
    omega
  · rw [if_neg (by omega), if_neg (by omega), if_neg (by omega), if_neg (by omega),
      Nat.add_sub_cancel]

theorem be16_tagged_add (hi : 12 ≤ i) : be16 (taggedMem mem tci) (i + 4) = be16 mem i := by
  rw [be16, be16, at8, at8, add_right_comm, taggedMem_add hi, taggedMem_add (by omega)]
  rfl

theorem be16_tagged_type : be16 (taggedMem mem tci) 12 = 0x8100 := by
  simp [be16, at8, taggedMem, storeBe16]

theorem be16_tagged_tci : be16 (taggedMem mem tci) 14 = tci.val := by
  simp [be16, at8, taggedMem, storeBe16, memmove]
  omega

/-- A frame with its tag. -/
structure Tagged (fr fr' : Frame) (tci : Fin 65536) : Prop where
  mem : fr'.mem = taggedMem fr.mem tci
  len : fr'.len = fr.len + 4
  size : 14 ≤ fr.len
  type : be16 fr.mem 12 ≠ 0x8100

variable (h : Tagged fr fr' tci)

include h

theorem Tagged.strip_eq : strip fr' = some (fr, tci.val) := by
  have hmem : (fun i => if i < 12 then taggedMem fr.mem tci i else taggedMem fr.mem tci (i + 4)) =
      fr.mem := by
    funext i
    split
    next hi => exact taggedMem_of_lt hi
    next hi => exact taggedMem_add (not_lt.1 hi)
  have hsize := h.size
  have hlen := h.len
  unfold strip
  rw [if_pos ⟨by omega, by rw [h.mem]; exact be16_tagged_type⟩]
  simp only [h.mem, hmem, h.len, be16_tagged_tci, Nat.add_sub_cancel]

theorem Tagged.isTcpSyn_eq : isTcpSyn fr' = isTcpSyn fr := by
  have hsize := h.size
  have hlen := h.len
  have hrest : fr'.len - 18 = fr.len - 14 := by omega
  unfold isTcpSyn
  rw [h.mem, be16_tagged_type, be16_tagged_add (i := 12) (by omega), hrest, if_neg (by omega),
    if_pos rfl, if_neg (by omega), if_neg (by omega), if_neg h.type]
  exact ipTcpSyn_shift (fun i hi => taggedMem_add (by omega)) (Nat.le_refl 14) _

theorem Tagged.protocolFilter_snd (fuel : Nat) : (protocolFilter k fuel fr').map Prod.snd =
    (protocolFilter k fuel fr).map Prod.snd := by
  have hsize := h.size
  have hlen := h.len
  have hvlan : fr.vlan = false := beq_false_of_ne h.type
  have hvlan' : fr'.vlan = true := by rw [Frame.vlan, h.mem, be16_tagged_type]; rfl
  have htype : fr'.etherType = fr.etherType := by
    rw [Frame.etherType, Frame.etherType, hvlan, hvlan', h.mem]
    exact be16_tagged_add (by omega)
  have hmulti : fr'.multicast = fr.multicast := by
    rw [Frame.multicast, Frame.multicast, h.mem]
    rfl
  have hrest : fr'.rest = fr.rest := by
    simp only [Frame.rest, hvlan, hvlan', sub16]
    simp
    omega
  have hmem (i : Nat) (hi : 14 ≤ i) : fr'.mem (i + 4) = fr.mem i := by
    rw [h.mem]
    exact taggedMem_add (by omega)
  have hhdr : fr.hdrLen = 14 := by rw [Frame.hdrLen, hvlan]; rfl
  have hhdr' : fr'.hdrLen = 14 + 4 := by rw [Frame.hdrLen, hvlan']; rfl
  have hfiltered : fr'.filtered k = fr.filtered k := by
    rw [Frame.filtered, Frame.filtered, htype, hmulti]
  rw [protocolFilter_eq (by omega), protocolFilter_eq (by omega), htype, hmulti, hrest, hfiltered,
    hhdr, hhdr']
  cases fr.filtered k with
  | none => simp only [apply_ite (Option.map Prod.snd), Option.map_some]
  | some version =>
    simp only [apply_ite (Option.map Prod.snd), Option.map_some, map_snd_after,
      protocolFilterIp_shift hmem (Nat.le_refl 14)]

end Tagged

/-- A received mbuf: its data are an Ethernet frame, and they and the headroom before them lie in
a buffer whose length has 16 bits. -/
structure EthMbuf extends Mbuf where
  size : 14 ≤ frame.len
  fits : headroom + frame.len < 65536
  type : be16 frame.mem 12 ≠ 0x8100

theorem EthMbuf.tagged (m : EthMbuf) {tci : Fin 65536} (hvlan : m.vlan = some tci)
    (hroom : 4 ≤ m.headroom) : Tagged m.frame (ffAddVlanTag m.toMbuf).frame tci := by
  have hfits := m.fits
  unfold ffAddVlanTag
  rw [hvlan]
  simp only [if_neg (not_lt.2 hroom)]
  exact ⟨rfl, Nat.mod_eq_of_lt (by omega), m.size, m.type⟩

/-- The tag is put back, and nobody behind `ff_add_vlan_tag` sees a difference. -/
theorem ffAddVlanTag_transparent (m : EthMbuf) :
    (m.vlan = none ∨ m.headroom < 4 → ffAddVlanTag m.toMbuf = m.toMbuf) ∧
    ∀ tci, m.vlan = some tci → 4 ≤ m.headroom →
      strip (ffAddVlanTag m.toMbuf).frame = some (m.frame, tci.val) ∧
      (ffAddVlanTag m.toMbuf).pktLen = m.pktLen + 4 ∧
      isTcpSyn (ffAddVlanTag m.toMbuf).frame = isTcpSyn m.frame ∧
      ∀ k fuel, (protocolFilter k fuel (ffAddVlanTag m.toMbuf).frame).map Prod.snd =
        (protocolFilter k fuel m.frame).map Prod.snd := by
  refine ⟨fun hno => ?_, fun tci hvlan hroom => ?_⟩
  · unfold ffAddVlanTag
    split
    · rfl
    next tci htci => exact if_pos (hno.resolve_left (by rw [htci]; nofun))
  · have h := m.tagged hvlan hroom
    refine ⟨h.strip_eq, ?_, h.isTcpSyn_eq, fun k fuel => h.protocolFilter_snd fuel⟩
    unfold ffAddVlanTag
    rw [hvlan]
    exact congrArg Mbuf.pktLen (if_neg (not_lt.2 hroom))

/-- A frame of zeros without its tag, of VLAN 5. -/
def zeroFrame : EthMbuf where
  id := 0
  frame := ⟨fun _ => 0#8, 62, by decide⟩
  rest := []
  pktLen := 62
  nbSegs := 1
  vlan := some 5
  headroom := 128
  origin := 0
  size := by decide
  fits := by decide
  type := by decide

theorem ffAddVlanTag_transparent_zeros :
    strip (ffAddVlanTag zeroFrame.toMbuf).frame = some (zeroFrame.frame, 5) ∧
      (ffAddVlanTag zeroFrame.toMbuf).pktLen = 66 := by
  obtain ⟨hstrip, hlen, -⟩ := (ffAddVlanTag_transparent zeroFrame).2 5 rfl (by decide)
  exact ⟨hstrip, hlen⟩

end FStack.Rx.VlanTag
