import FStack.Rx.FilterExact
import FStack.Rx.Process

/-!
# The class of ARP and NDP frames

`classify` is `protocol_filter` (`lib/ff_dpdk_if.c:1893-1943`) as a function: with the fuel it gives
the walk, it finds the class of every frame on which the code returns (`protocolFilter_within`).
What the fan-out of ARP and NDP frames needs of it: a copy of the frame, which has its bytes up to
the length and any others beyond, is of the same class (`classify_copy`), and such a frame is no TCP
SYN (`not_classify_of_isTcpSyn`).

Results:
* `protocolFilterIp_enough`: a bound on the calls of `protocol_filter_ip`.
* `protocolFilter_within`, `classify_copy`, `not_classify_of_isTcpSyn`.
-/

namespace FStack.Rx

open FStack.Rss (Byte)

variable {k : KniCfg} {mem mem' : Nat → Byte} {off len fuel proto i next nextLen : Nat}
  {r : Trace × FilterReturn} {fr : Frame} {tr : Trace} {version : IpVersion}
  {again again' : Nat → Nat → IpVersion → Option (Trace × FilterReturn)}

/-- The class `protocol_filter` gives; `unknown` where it does not come to an end. -/
def classify (k : KniCfg) (fr : Frame) : FilterReturn :=
  match protocolFilter k 131074 fr with
  | some r => r.2
  | none => .unknown

/-! ## The fuel is enough -/

/-- An IPv4 header of length 0 that announces IPv4 is looked at for ever. -/
theorem protocolFilterIp_loops (h20 : 20 ≤ len) (hzero : ipv4HdrLen mem off = 0)
    (hproto : at8 mem (off + 9) = 4) (fuel : Nat) :
    protocolFilterIp k mem fuel off len .ipv4 = none := by
  induction fuel with
  | zero => rfl
  | succ fuel ih =>
    unfold protocolFilterIp
    rw [if_neg (not_lt.mpr h20), hzero, if_neg (Nat.not_lt_zero len), hproto]
    unfold ipSwitch
    rw [if_neg (by decide), if_neg (by decide), if_neg (by decide), if_pos rfl, add_zero,
      Nat.sub_zero, ih]
    rfl

/-- The `switch` keeps its result when the calls for tunnels keep theirs. -/
theorem ipSwitch_again
    (h4 : proto = 4 → ∀ r, again next nextLen .ipv4 = some r → again' next nextLen .ipv4 = some r)
    (h6 : proto = 41 → ∀ r, again next nextLen .ipv6 = some r → again' next nextLen .ipv6 = some r)
    (h : ipSwitch k mem again tr proto next nextLen = some r) :
    ipSwitch k mem again' tr proto next nextLen = some r := by
  by_cases hp4 : proto = 4
  · subst hp4
    obtain ⟨r', hr', hr⟩ := Option.bind_eq_some_iff.mp h
    exact Option.bind_eq_some_iff.mpr ⟨r', h4 rfl r' hr', hr⟩
  by_cases hp6 : proto = 41
  · subst hp6
    obtain ⟨r', hr', hr⟩ := Option.bind_eq_some_iff.mp h
    exact Option.bind_eq_some_iff.mpr ⟨r', h6 rfl r' hr', hr⟩
  · unfold ipSwitch at h ⊢
    dsimp only at h ⊢
    rw [if_neg hp4, if_neg hp6] at h ⊢
    exact h

/-- How many calls the walk from an IP header can take. -/
def walkFuel (len : Nat) : IpVersion → Nat
  | .ipv4 => 2 * len + 2
  | .ipv6 => 2 * len + 1

theorem walkFuel_pos (len : Nat) (version : IpVersion) : 0 < walkFuel len version := by
  cases version <;> exact Nat.succ_pos _

/-- **The bound.** A call with a result has it with any fuel above the bound: each header but an
IPv4 header of length 0 shortens the frame, and two such headers do not follow each other. -/
theorem protocolFilterIp_enough (fuel : Nat) {n : Nat}
    (h : protocolFilterIp k mem fuel off len version = some r) (hn : walkFuel len version ≤ n) :
    protocolFilterIp k mem n off len version = some r := by
  induction fuel generalizing off len n version r with
  | zero => cases h
  | succ fuel ih =>
    obtain ⟨n, rfl⟩ := Nat.exists_eq_add_one.mpr (Nat.lt_of_lt_of_le (walkFuel_pos len version) hn)
    cases version with
    | ipv4 =>
      unfold protocolFilterIp at h ⊢
      by_cases h20 : len < 20
      · rw [if_pos h20] at h ⊢
        exact h
      by_cases hle : len < ipv4HdrLen mem off
      · rw [if_neg h20, if_pos hle] at h ⊢
        exact h
      rw [if_neg h20, if_neg hle] at h ⊢
      refine ipSwitch_again (fun hp r' hr' => ih hr' ?_) (fun hp r' hr' => ih hr' ?_) h
      · by_cases hzero : ipv4HdrLen mem off = 0
        · rw [hzero, add_zero, Nat.sub_zero,
            protocolFilterIp_loops (not_lt.mp h20) hzero hp] at hr'
          cases hr'
        · simp only [walkFuel] at hn ⊢
          omega
      · simp only [walkFuel] at hn ⊢
        omega
    | ipv6 =>
      unfold protocolFilterIp at h ⊢
      dsimp only at h ⊢
      by_cases h40 : len < 40
      · rw [if_pos h40] at h ⊢
        exact h
      rw [if_neg h40] at h ⊢
      split at h
      next hle =>
        rw [if_pos hle]
        exact h
      next hle =>
        rw [if_neg hle]
        refine ipSwitch_again (fun _ r' hr' => ih hr' ?_) (fun _ r' hr' => ih hr' ?_) h
        · simp only [walkFuel] at hn ⊢
          omega
        · simp only [walkFuel] at hn ⊢
          omega

theorem walkFuel_rest (fr : Frame) (version : IpVersion) : walkFuel fr.rest version ≤ 131074 := by
  have hlt : fr.rest < 65536 := by
    unfold Frame.rest sub16
    split <;> exact Nat.mod_lt _ (by decide)
  cases version <;> simp only [walkFuel] <;> omega

/-- **`protocol_filter` returns within 131074 calls or never**, whatever the frame. -/
theorem protocolFilter_within :
    (∃ fuel, protocolFilter k fuel fr = some r) ↔ protocolFilter k 131074 fr = some r := by
  refine ⟨fun ⟨fuel, h⟩ => ?_, fun h => ⟨_, h⟩⟩
  by_cases h6 : fr.len < 6
  · unfold protocolFilter at h ⊢
    rw [if_pos h6] at h ⊢
    exact h
  rw [protocolFilter_eq h6] at h ⊢
  by_cases harp : fr.etherType = 0x0806
  · rw [if_pos harp] at h ⊢
    exact h
  by_cases hmul : fr.multicast
  · rw [if_neg harp, if_pos hmul] at h ⊢
    exact h
  rw [if_neg harp, if_neg hmul] at h ⊢
  cases hf : fr.filtered k with
  | none =>
    rw [hf] at h
    exact h
  | some version =>
    rw [hf] at h
    obtain ⟨r', hr', hr⟩ := Option.bind_eq_some_iff.mp h
    dsimp only
    rw [protocolFilterIp_enough fuel hr' (walkFuel_rest fr version)]
    exact hr

/-! ## ARP and NDP -/

/-- The result is one of the classes that are spread over the queues. -/
def Spreads (o : Option (Trace × FilterReturn)) : Prop :=
  ∃ r, o = some r ∧ (r.2 = .arp ∨ r.2 = .ndp)

theorem spreads_some : Spreads (some r) ↔ r.2 = .arp ∨ r.2 = .ndp := by
  constructor
  · rintro ⟨r', h, hc⟩
    cases h
    exact hc
  · exact fun h => ⟨r, rfl, h⟩

theorem not_spreads_unknown : ¬Spreads (some (tr, .unknown)) := fun h =>
  (spreads_some.mp h).elim nofun nofun

theorem spreads_bind {o : Option (Trace × FilterReturn)} {f : Trace → Trace} :
    Spreads (o.bind fun r => some (f r.1, r.2)) ↔ Spreads o := by
  constructor
  · rintro ⟨r, h, hc⟩
    obtain ⟨r', ho, hr⟩ := Option.bind_eq_some_iff.mp h
    cases hr
    exact ⟨r', ho, hc⟩
  · rintro ⟨r, rfl, hc⟩
    exact ⟨_, rfl, hc⟩

theorem filterPorts_class_cases (hdrSize : Nat) (ports : List (Fin 65536)) (off len : Nat) :
    (filterPorts mem hdrSize ports off len).2 = .kni ∨
      (filterPorts mem hdrSize ports off len).2 = .unknown := by
  unfold filterPorts protocolFilterL4
  split
  · exact .inr rfl
  · split
    · exact .inl rfl
    · exact .inr rfl

theorem not_spreads_filterPorts (hdrSize : Nat) (ports : List (Fin 65536)) (off len : Nat)
    (tr : Trace) :
    ¬Spreads (some (tr ++ (filterPorts mem hdrSize ports off len).1,
      (filterPorts mem hdrSize ports off len).2)) := by
  rw [spreads_some]
  rcases filterPorts_class_cases hdrSize ports off len with h | h <;>
    (rw [h]; exact fun h => h.elim nofun nofun)

theorem spreads_protocolFilterIcmp6 :
    ((protocolFilterIcmp6 mem off len).2 = .arp ∨ (protocolFilterIcmp6 mem off len).2 = .ndp) ↔
      8 ≤ len ∧ 133 ≤ at8 mem off ∧ at8 mem off ≤ 137 := by
  unfold protocolFilterIcmp6
  by_cases h8 : len < 8
  · rw [if_pos h8]
    exact iff_of_false (fun h => h.elim nofun nofun) fun h => absurd h8 (not_lt.mpr h.1)
  · rw [if_neg h8]
    by_cases ht : 133 ≤ at8 mem off ∧ at8 mem off ≤ 137
    · rw [if_pos ht]
      exact iff_of_true (.inr rfl) ⟨not_lt.mp h8, ht⟩
    · rw [if_neg ht]
      exact iff_of_false (fun h => h.elim nofun nofun) fun h => ht h.2

/-- Which payloads are spread: neighbour discovery, also in a tunnel. -/
theorem spreads_ipSwitch : Spreads (ipSwitch k mem again tr proto next nextLen) ↔
      proto = 4 ∧ Spreads (again next nextLen .ipv4) ∨
      proto = 41 ∧ Spreads (again next nextLen .ipv6) ∨
      proto = 58 ∧ 8 ≤ nextLen ∧ 133 ≤ at8 mem next ∧ at8 mem next ≤ 137 := by
  unfold ipSwitch
  by_cases h4 : proto = 4
  · subst h4
    simp only [spreads_bind, reduceIte, Nat.reduceEqDiff, true_and, false_and, or_false]
  by_cases h41 : proto = 41
  · subst h41
    simp only [spreads_bind, reduceIte, Nat.reduceEqDiff, true_and, false_and, or_false, false_or]
  by_cases h58 : proto = 58
  · subst h58
    simp only [spreads_some, spreads_protocolFilterIcmp6, reduceIte, Nat.reduceEqDiff, true_and,
      false_and, false_or]
  · refine iff_of_false ?_ fun h => ?_
    · split
      · exact fun h => (spreads_some.mp h).elim nofun nofun
      split
      · split
        · exact not_spreads_filterPorts _ _ _ _ _
        · exact not_spreads_unknown
      split
      · split
        · exact not_spreads_filterPorts _ _ _ _ _
        · exact not_spreads_unknown
      · exact not_spreads_unknown
    · rcases h with h | h | h
      · exact h4 h.1
      · exact h41 h.1
      · exact h58 h.1

/-! ## Copies -/

section Copy

variable {total : Nat} (hsame : ∀ i < total, mem' i = mem i)

include hsame

theorem at8_copy (hi : i < total) : at8 mem' i = at8 mem i := by
  unfold at8
  rw [hsame i hi]

theorem extHdrLen_copy (hoff : off + 1 < total) :
    extHdrLen mem' proto off = extHdrLen mem proto off := by
  unfold extHdrLen
  rw [at8_copy hsame hoff]

/-- The extension headers of a copy, if the walk through them comes to an upper protocol. -/
theorem getIpv6HdrLen_copy (proto off len : Nat) (hoff : off + len ≤ total)
    (hupper : isExtHdr (getIpv6HdrLen mem proto off len).2.1 = false) :
    (getIpv6HdrLen mem' proto off len).2 = (getIpv6HdrLen mem proto off len).2 := by
  induction len using Nat.strongRecOn generalizing proto off with
  | ind len ih =>
    cases hext : extHdrLen mem proto off with
    | none =>
      have hext' : extHdrLen mem' proto off = none :=
        extHdrLen_eq_none_iff.mpr (extHdrLen_eq_none_iff.mp hext)
      rw [getIpv6HdrLen_none hext, getIpv6HdrLen_none hext']
    | some r =>
      rw [getIpv6HdrLen_some hext] at hupper ⊢
      have hpos := extHdrLen_pos mem hext
      by_cases hcut : len ≤ r.2
      · -- the walk would end at an extension header
        rw [if_pos hcut] at hupper
        rw [extHdrLen_eq_none_iff.mpr hupper] at hext
        cases hext
      · rw [if_neg hcut] at hupper ⊢
        rw [← extHdrLen_copy hsame (by omega)] at hext
        rw [getIpv6HdrLen_some hext, if_neg hcut, at8_copy hsame (by omega)]
        dsimp only at hupper ⊢
        rw [ih (len - r.2) (by omega) _ _ (by omega) hupper]

/-- What is spread is spread from a copy: by induction on the calls. -/
theorem spreads_protocolFilterIp_copy (fuel : Nat) (hoff : off + len ≤ total)
    (h : Spreads (protocolFilterIp k mem fuel off len version)) :
    Spreads (protocolFilterIp k mem' fuel off len version) := by
  induction fuel generalizing off len version with
  | zero =>
    obtain ⟨r, h, -⟩ := h
    cases h
  | succ fuel ih =>
    cases version with
    | ipv4 =>
      by_cases h20 : len < 20
      · rw [protocolFilterIp, if_pos h20] at h
        exact absurd h not_spreads_unknown
      have hlen : ipv4HdrLen mem' off = ipv4HdrLen mem off := by
        unfold ipv4HdrLen
        rw [at8_copy hsame (by omega)]
      rw [protocolFilterIp, if_neg h20] at h ⊢
      rw [hlen, at8_copy hsame (by omega)]
      split at h
      · exact absurd h not_spreads_unknown
      next hle =>
        rw [if_neg hle]
        rw [spreads_ipSwitch] at h ⊢
        rcases h with ⟨hp, h⟩ | ⟨hp, h⟩ | ⟨hp, h8, ht⟩
        · exact .inl ⟨hp, ih (by omega) h⟩
        · exact .inr (.inl ⟨hp, ih (by omega) h⟩)
        · rw [at8_copy hsame (by omega)]
          exact .inr (.inr ⟨hp, h8, ht⟩)
    | ipv6 =>
      by_cases h40 : len < 40
      · rw [protocolFilterIp, if_pos h40] at h
        exact absurd h not_spreads_unknown
      obtain ⟨hle, heq⟩ := protocolFilterIp_ipv6 k mem h40 rfl fuel
      obtain ⟨-, heq'⟩ := protocolFilterIp_ipv6 k mem' h40 rfl fuel
      rw [heq, spreads_ipSwitch] at h
      have hupper : isExtHdr (getIpv6HdrLen mem (at8 mem (off + 6)) (off + 40) (len - 40)).2.1 =
          false := by
        rcases h with ⟨hp, -⟩ | ⟨hp, -⟩ | ⟨hp, -⟩ <;> (rw [hp]; decide)
      have hcopy := getIpv6HdrLen_copy hsame _ _ _ (by omega) hupper
      rw [heq', spreads_ipSwitch, at8_copy hsame (by omega), hcopy]
      rcases h with ⟨hp, h⟩ | ⟨hp, h⟩ | ⟨hp, h8, ht⟩
      · exact .inl ⟨hp, ih (by omega) h⟩
      · exact .inr (.inl ⟨hp, ih (by omega) h⟩)
      · rw [at8_copy hsame (by omega)]
        exact .inr (.inr ⟨hp, h8, ht⟩)

end Copy

/-- `fr'` has the bytes of `fr` up to its length, and any others beyond. -/
def Frame.Copy (fr fr' : Frame) : Prop := fr'.len = fr.len ∧ ∀ i < fr.len, fr'.mem i = fr.mem i

theorem Frame.Copy.trans {fr' fr'' : Frame} (h : fr.Copy fr') (h' : fr'.Copy fr'') : fr.Copy fr'' :=
  ⟨h'.1.trans h.1, fun i hi => (h'.2 i (h.1.symm ▸ hi)).trans (h.2 i hi)⟩

theorem copy_deepAttach (fr : Frame) (buf : Nat → Byte) : fr.Copy (deepAttach fr buf) :=
  ⟨rfl, fun _ hi => if_pos hi⟩

section EthernetCopy

variable {fr' : Frame} (hcopy : fr.Copy fr') (hlen : fr.hdrLen ≤ fr.len)

include hcopy hlen

omit hlen in
theorem be16_copy (hi : i + 1 < fr.len) : be16 fr'.mem i = be16 fr.mem i := by
  unfold be16
  rw [at8_copy hcopy.2 (by omega), at8_copy hcopy.2 hi]

theorem vlan_copy : fr'.vlan = fr.vlan := by
  have h14 : 14 ≤ fr.len := Nat.le_trans (by unfold Frame.hdrLen; split <;> decide) hlen
  unfold Frame.vlan
  rw [be16_copy hcopy (by omega)]

theorem hdrLen_copy : fr'.hdrLen = fr.hdrLen := by
  unfold Frame.hdrLen
  rw [vlan_copy hcopy hlen]

theorem etherType_copy : fr'.etherType = fr.etherType := by
  unfold Frame.etherType
  rw [vlan_copy hcopy hlen]
  unfold Frame.hdrLen at hlen
  split
  next hv =>
    rw [if_pos hv] at hlen
    exact be16_copy hcopy (by omega)
  next hv =>
    rw [if_neg hv] at hlen
    exact be16_copy hcopy (by omega)

theorem multicast_copy : fr'.multicast = fr.multicast := by
  unfold Frame.multicast
  rw [at8_copy hcopy.2 (Nat.lt_of_lt_of_le (hdrLen_pos fr) hlen)]

theorem filtered_copy : fr'.filtered k = fr.filtered k := by
  unfold Frame.filtered
  rw [etherType_copy hcopy hlen, multicast_copy hcopy hlen]

end EthernetCopy

theorem classify_spreads :
    (classify k fr = .arp ∨ classify k fr = .ndp) ↔ Spreads (protocolFilter k 131074 fr) := by
  unfold classify
  cases protocolFilter k 131074 fr with
  | none => exact iff_of_false (fun h => h.elim nofun nofun) fun ⟨_, h, _⟩ => nomatch h
  | some r => exact spreads_some.symm

/-- Which frames are spread. -/
theorem spreads_protocolFilter (h6 : ¬fr.len < 6) : Spreads (protocolFilter k fuel fr) ↔
      fr.etherType = 0x0806 ∨ fr.multicast = false ∧ ∃ version, fr.filtered k = some version ∧
        Spreads (protocolFilterIp k fr.mem fuel fr.hdrLen fr.rest version) := by
  rw [protocolFilter_eq h6]
  by_cases harp : fr.etherType = 0x0806
  · rw [if_pos harp, spreads_some]
    exact iff_of_true (.inl rfl) (.inl harp)
  rw [if_neg harp, or_iff_right harp]
  by_cases hmul : fr.multicast
  · rw [if_pos hmul, spreads_some, hmul]
    exact iff_of_false (fun h => h.elim nofun nofun) fun h => nomatch h.1
  rw [if_neg hmul]
  cases fr.filtered k with
  | none => exact iff_of_false not_spreads_unknown fun ⟨_, _, h, _⟩ => nomatch h
  | some version =>
    refine (spreads_bind (f := fun tr => fr.ethTrace ++ .read 0 :: tr)).trans ?_
    constructor
    · exact fun h => ⟨Bool.eq_false_iff.mpr hmul, version, rfl, h⟩
    · rintro ⟨-, v, hv, h⟩
      cases hv
      exact h

/-- A whole frame the code takes for ARP or NDP. -/
def ArpOrNdp (k : KniCfg) (fr : Frame) : Prop :=
  fr.hdrLen ≤ fr.len ∧ (classify k fr = .arp ∨ classify k fr = .ndp)

theorem not_lt_six (hlen : fr.hdrLen ≤ fr.len) : ¬fr.len < 6 := by
  unfold Frame.hdrLen at hlen
  split at hlen <;> omega

/-- **Copies** of ARP and NDP frames are taken for such. -/
theorem classify_copy {fr' : Frame} (h : ArpOrNdp k fr) (hcopy : fr.Copy fr') :
    classify k fr' = .arp ∨ classify k fr' = .ndp := by
  obtain ⟨hlen, hclass⟩ := h
  have h6 := not_lt_six hlen
  have h6' : ¬fr'.len < 6 := by rwa [hcopy.1]
  have hlen' : fr'.hdrLen ≤ fr'.len := by rwa [hdrLen_copy hcopy hlen, hcopy.1]
  rw [classify_spreads, spreads_protocolFilter h6] at hclass
  rw [classify_spreads, spreads_protocolFilter h6', etherType_copy hcopy hlen,
    multicast_copy hcopy hlen, filtered_copy hcopy hlen, rest_eq hlen', hdrLen_copy hcopy hlen,
    hcopy.1]
  refine hclass.imp id ?_
  rintro ⟨hmul, version, hf, hip⟩
  rw [rest_eq hlen] at hip
  refine ⟨hmul, version, hf, spreads_protocolFilterIp_copy hcopy.2 _ ?_ hip⟩
  omega

/-! ## SYNs -/

/-- What `is_tcp_syn` finds in the IP header. -/
theorem ipTcpSyn_header {type : Nat} (h : ipTcpSyn mem type off len = true) :
    type = 0x0800 ∧ 20 ≤ len ∧ ipv4HdrLen mem off ≤ len ∧ at8 mem (off + 9) = 6 ∨
      type = 0x86DD ∧ 60 ≤ len ∧ at8 mem (off + 6) = 6 := by
  unfold ipTcpSyn at h
  split at h
  next htype =>
    split at h
    · cases h
    split at h
    · cases h
    rename_i h20 hproto
    split at h
    · cases h
    · exact .inl ⟨htype, by omega, by omega, Decidable.not_not.mp hproto⟩
  split at h
  next htype =>
    split at h
    · cases h
    split at h
    · cases h
    next h60 hproto => exact .inr ⟨htype, not_lt.mp h60, Decidable.not_not.mp hproto⟩
  · cases h

theorem isTcpSyn_ip (h : isTcpSyn fr = true) : fr.hdrLen ≤ fr.len ∧
      ipTcpSyn fr.mem fr.etherType fr.hdrLen (fr.len - fr.hdrLen) = true := by
  unfold isTcpSyn at h
  unfold Frame.etherType Frame.hdrLen Frame.vlan
  split at h
  · cases h
  rename_i h14
  split at h
  next hv =>
    rw [hv]
    split at h
    · cases h
    · exact ⟨by rw [if_pos (beq_self_eq_true _)]; omega, h⟩
  next hv =>
    rw [if_neg (fun hb => hv (beq_iff_eq.mp hb)), if_neg (fun hb => hv (beq_iff_eq.mp hb))]
    exact ⟨not_lt.mp h14, h⟩

/-- **A SYN is neither ARP nor NDP**, so the test for a low pool drops none of these. -/
theorem not_classify_of_isTcpSyn (h : isTcpSyn fr = true) :
    ¬(classify k fr = .arp ∨ classify k fr = .ndp) := by
  obtain ⟨hlen, hip⟩ := isTcpSyn_ip h
  rw [classify_spreads, spreads_protocolFilter (not_lt_six hlen), rest_eq hlen]
  rintro (harp | ⟨hmul, version, hf, hs⟩)
  · rcases ipTcpSyn_header hip with ⟨ht, -⟩ | ⟨ht, -⟩ <;> (rw [harp] at ht; cases ht)
  have htcp (again : Nat → Nat → IpVersion → Option (Trace × FilterReturn)) (tr : Trace)
      (next nextLen : Nat) : ¬Spreads (ipSwitch k fr.mem again tr 6 next nextLen) := by
    rw [spreads_ipSwitch]
    omega
  rcases ipTcpSyn_header hip with ⟨htype, h20, hle, hproto⟩ | ⟨htype, h60, hproto⟩
  · have hv : version = .ipv4 := by
      rw [filtered_ipv4 hmul htype] at hf
      split at hf <;> cases hf
      rfl
    subst hv
    rw [protocolFilterIp, if_neg (not_lt.mpr h20), if_neg (not_lt.mpr hle), hproto] at hs
    exact htcp _ _ _ _ hs
  · rw [filtered_ipv6 hmul htype] at hf
    cases hf
    have hext : extHdrLen fr.mem 6 (fr.hdrLen + 40) = none := rfl
    have h40 : ¬fr.len - fr.hdrLen < 40 := by omega
    rw [(protocolFilterIp_ipv6 k fr.mem h40 rfl _).2, hproto, getIpv6HdrLen_none hext] at hs
    exact htcp _ _ _ _ hs

end FStack.Rx
