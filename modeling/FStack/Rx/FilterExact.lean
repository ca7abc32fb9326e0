import FStack.Rx.Filter

/-!
# When packet classification is right

What is wanted of `protocol_filter` (`lib/ff_dpdk_if.c:1893-1943`) on a frame: it returns, reads no
byte beyond the length, takes no length below zero, skips an IPv6 extension header by its standard
size, and classifies a well-formed frame by its innermost protocol and destination port
(`FilterOk`). What well-formed frames and their classes are is said without the code (`Std`,
`StdFrame`).

The code walks from header to header (`Hdr.next`). It goes wrong at an IPv4 header of length 0 that
announces IPv4 again, at an option header it skips by `len + 1` bytes instead of `8 * (len + 1)`,
and at an extension header whose length byte lies beyond the end; and, before any walk, on a frame
shorter than its Ethernet or VLAN header, since the length is compared with the size of an address.

Results:
* `protocolFilter_ok_iff`: the filter does right iff every header of the walk is fine.
* `protocolFilter_not_ok`: a frame of 6 bytes.
-/

namespace FStack.Rx

open List

open FStack.Rss (Byte)

variable {k : KniCfg} {mem : Nat → Byte} {total : Nat}

/-! ## The standard -/

/-- The standard size of an extension header with length byte `b`. -/
def standardSize (proto b : Nat) : Nat :=
  if isOptionHdr proto then 8 * (b + 1) else if proto = 44 then 8 else 4 * (b + 2)

/-- The extension headers that the walk skips. -/
def isExtHdr (proto : Nat) : Bool := isOptionHdr proto || proto == 44 || proto == 51

/-- A place in a frame: an IP header, what follows an IPv6 header, or a payload, with its protocol,
offset and remaining length. -/
inductive Hdr where
  | ip (version : IpVersion) (off len : Nat)
  | ext (proto off len : Nat)
  | payload (proto off len : Nat)

/-- `Std h c`: from `h` on the frame is well formed, and `c` is its class. -/
inductive Std (k : KniCfg) (mem : Nat → Byte) : Hdr → FilterReturn → Prop where
  | ipv4 {off len c} : 20 ≤ len → 20 ≤ ipv4HdrLen mem off → ipv4HdrLen mem off ≤ len →
      Std k mem (.payload (at8 mem (off + 9)) (off + ipv4HdrLen mem off)
        (len - ipv4HdrLen mem off)) c → Std k mem (.ip .ipv4 off len) c
  | ipv6 {off len c} : 40 ≤ len → Std k mem (.ext (at8 mem (off + 6)) (off + 40) (len - 40)) c →
      Std k mem (.ip .ipv6 off len) c
  | skip {proto off len c} : isExtHdr proto = true →
      standardSize proto (at8 mem (off + 1)) ≤ len →
      Std k mem (.ext (at8 mem off) (off + standardSize proto (at8 mem (off + 1)))
        (len - standardSize proto (at8 mem (off + 1)))) c → Std k mem (.ext proto off len) c
  | upper {proto off len c} : isExtHdr proto = false → Std k mem (.payload proto off len) c →
      Std k mem (.ext proto off len) c
  | ospf {off len} : 0 < len → Std k mem (.payload 89 off len) .ospf
  | tcp {off len} : 20 ≤ len → Std k mem (.payload 6 off len)
      (if k.enable ∧ ∃ p ∈ k.tcpPorts, p.val = be16 mem (off + 2) then .kni else .unknown)
  | udp {off len} : 8 ≤ len → Std k mem (.payload 17 off len)
      (if k.enable ∧ ∃ p ∈ k.udpPorts, p.val = be16 mem (off + 2) then .kni else .unknown)
  | ipip {off len c} : Std k mem (.ip .ipv4 off len) c → Std k mem (.payload 4 off len) c
  | ip6 {off len c} : Std k mem (.ip .ipv6 off len) c → Std k mem (.payload 41 off len) c
  | icmp6 {off len} : 8 ≤ len → Std k mem (.payload 58 off len)
      (if 133 ≤ at8 mem off ∧ at8 mem off ≤ 137 then .ndp else .unknown)
  | other {proto off len} : proto ≠ 89 → proto ≠ 6 → proto ≠ 17 → proto ≠ 4 → proto ≠ 41 →
      proto ≠ 58 → Std k mem (.payload proto off len) .unknown

/-! ## Right steps -/

/-- The step is one that is wanted, in a frame of `total` bytes. -/
def Event.Ok (total : Nat) : Event → Prop
  | .read off => off < total
  | .shrink len sub => sub ≤ len
  | .skip proto lenByte size => size = standardSize proto lenByte

/-- All steps are. -/
def Trace.Ok (total : Nat) (tr : Trace) : Prop := ∀ e ∈ tr, e.Ok total

@[simp] theorem Trace.ok_nil : Trace.Ok total [] := fun _ h => absurd h not_mem_nil

variable {tr : Trace}

@[simp] theorem Trace.ok_cons {e : Event} :
    Trace.Ok total (e :: tr) ↔ e.Ok total ∧ Trace.Ok total tr := forall_mem_cons

variable {tr' : Trace}

@[simp] theorem Trace.ok_append :
    Trace.Ok total (tr ++ tr') ↔ Trace.Ok total tr ∧ Trace.Ok total tr' := forall_mem_append

variable {proto off len fuel : Nat} {h : Hdr} {r : Trace × Nat} {version : IpVersion}

@[simp] theorem Event.ok_read : (Event.read off).Ok total ↔ off < total := Iff.rfl

@[simp] theorem Event.ok_shrink {sub : Nat} : (Event.shrink len sub).Ok total ↔ sub ≤ len :=
  Iff.rfl

/-! ## The walk -/

section

variable (mem : Nat → Byte)

/-- The next place the code goes to. -/
def Hdr.next : Hdr → Option Hdr
  | .ip .ipv4 off len =>
    if len < 20 ∨ len < ipv4HdrLen mem off then none
    else some (.payload (at8 mem (off + 9)) (off + ipv4HdrLen mem off) (len - ipv4HdrLen mem off))
  | .ip .ipv6 off len =>
    if len < 40 then none else some (.ext (at8 mem (off + 6)) (off + 40) (len - 40))
  | .ext proto off len =>
    match extHdrLen mem proto off with
    | none => some (.payload proto off len)
    | some r =>
      if len ≤ r.2 then some (.payload proto (off + len) 0)
      else some (.ext (at8 mem off) (off + r.2) (len - r.2))
  | .payload proto off len =>
    if proto = 4 then some (.ip .ipv4 off len)
    else if proto = 41 then some (.ip .ipv6 off len)
    else none

/-- The code handles this place as wanted: an IPv4 header of length 0 does not announce IPv4, an
option header or an authentication header has its length byte, and an option header is not
skipped. -/
def Hdr.Fine : Hdr → Prop
  | .ip .ipv4 off len => 20 ≤ len → ipv4HdrLen mem off = 0 → at8 mem (off + 9) ≠ 4
  | .ip .ipv6 _ _ => True
  | .ext proto off len =>
    (isOptionHdr proto = true → 2 ≤ len ∧ len ≤ at8 mem (off + 1) + 1) ∧ (proto = 51 → 2 ≤ len)
  | .payload _ _ _ => True

/-- Every place the walk reaches from `h` is fine. -/
def WalkFine (h : Hdr) : Prop :=
  ∀ h', Relation.ReflTransGen (fun a b => Hdr.next mem a = some b) h h' → h'.Fine mem

end

theorem walkFine_iff :
    WalkFine mem h ↔ h.Fine mem ∧ ∀ h', h.next mem = some h' → WalkFine mem h' := by
  constructor
  · intro hw
    exact ⟨hw h .refl, fun h' hn h'' hr => hw h'' (.head hn hr)⟩
  · rintro ⟨hf, hn⟩ h' hr
    rcases hr.cases_head with rfl | ⟨h₁, h1, hr'⟩
    · exact hf
    · exact hn h₁ h1 h' hr'

/-! ## Extension headers -/

theorem getIpv6HdrLen_none (h : extHdrLen mem proto off = none) :
    getIpv6HdrLen mem proto off len = ([], proto, 0) := by
  rw [getIpv6HdrLen]
  split
  · rfl
  next r hr =>
    rw [h] at hr
    cases hr

theorem getIpv6HdrLen_some (h : extHdrLen mem proto off = some r) :
    getIpv6HdrLen mem proto off len =
      if len ≤ r.2 then (r.1, proto, len)
      else
        let r' := getIpv6HdrLen mem (at8 mem off) (off + r.2) (len - r.2)
        (r.1 ++ .read off :: .skip proto (at8 mem (off + 1)) r.2 :: .shrink len r.2 :: r'.1,
          r'.2.1, r.2 + r'.2.2) := by
  rw [getIpv6HdrLen]
  split
  next hr =>
    rw [h] at hr
    cases hr
  next r₁ hr =>
    rw [h] at hr
    cases hr
    rfl

theorem extHdrLen_eq_none_iff : extHdrLen mem proto off = none ↔ isExtHdr proto = false := by
  unfold extHdrLen isExtHdr
  cases isOptionHdr proto with
  | true => simp
  | false =>
    by_cases hfrag : proto = 44
    · simp [hfrag]
    · by_cases hah : proto = 51
      · simp [hah]
      · simp [hfrag, hah]

/-- An extension header is fine iff its length byte is read within the frame and, when it is
skipped, it is skipped by its standard size. -/
theorem fine_ext_iff (hoff : off + len = total) (h : extHdrLen mem proto off = some r) :
    (Hdr.ext proto off len).Fine mem ↔ Trace.Ok total r.1 ∧
      (¬len ≤ r.2 → (Event.skip proto (at8 mem (off + 1)) r.2).Ok total) := by
  unfold extHdrLen at h
  unfold Hdr.Fine Event.Ok standardSize
  cases hopt : isOptionHdr proto with
  | true =>
    rw [if_pos hopt] at h
    cases h
    have hah : proto ≠ 51 := by
      rintro rfl
      exact absurd hopt (by decide)
    simp only [hopt, true_implies, hah, false_implies, and_true, Trace.ok_cons, Event.ok_read,
      Trace.ok_nil, if_true]
    constructor
    · rintro ⟨h1, h2⟩
      exact ⟨by omega, fun hlt => absurd h2 hlt⟩
    · rintro ⟨h1, h2⟩
      by_contra hlt
      omega
  | false =>
    simp only [hopt, Bool.false_eq_true, if_false, false_implies, true_and] at h ⊢
    split at h
    next hfrag =>
      cases h
      subst hfrag
      simp
    next hfrag =>
      split at h
      next hah =>
        cases h
        simp only [Trace.ok_cons, Event.ok_read, Trace.ok_nil, and_true, hfrag, if_false]
        constructor
        · intro h1
          exact ⟨by omega, fun _ => mul_comm _ _⟩
        · rintro ⟨h1, -⟩
          omega
      · cases h

theorem next_ext_none (h : extHdrLen mem proto off = none) :
    (Hdr.ext proto off len).next mem = some (.payload proto off len) := by
  simp only [Hdr.next, h]

theorem next_ext_some (h : extHdrLen mem proto off = some r) : (Hdr.ext proto off len).next mem =
      if len ≤ r.2 then some (.payload proto (off + len) 0)
      else some (.ext (at8 mem off) (off + r.2) (len - r.2)) := by
  simp only [Hdr.next, h]

variable {h' : Hdr}

/-- A walk with one possible next place. -/
theorem walkFine_of_next (hn : h.next mem = some h') :
    WalkFine mem h ↔ h.Fine mem ∧ WalkFine mem h' := by
  rw [walkFine_iff, hn]
  simp

theorem walkFine_of_end (hn : h.next mem = none) : WalkFine mem h ↔ h.Fine mem := by
  rw [walkFine_iff, hn]
  simp

variable (mem) in
/-- **The extension headers**: the length stays within what remains, and the steps taken are right
iff the walk is fine up to the payload. -/
theorem getIpv6HdrLen_walk (proto off len : Nat) (hoff : off + len = total) :
    let r := getIpv6HdrLen mem proto off len
    r.2.2 ≤ len ∧ (WalkFine mem (.ext proto off len) ↔
      Trace.Ok total r.1 ∧ WalkFine mem (.payload r.2.1 (off + r.2.2) (len - r.2.2))) := by
  induction len using Nat.strongRecOn generalizing proto off with
  | ind len ih =>
    cases hext : extHdrLen mem proto off with
    | none =>
      have hfine : (Hdr.ext proto off len).Fine mem := by
        have hno := extHdrLen_eq_none_iff.1 hext
        simp only [isExtHdr, Bool.or_eq_false_iff, beq_eq_false_iff_ne] at hno
        exact ⟨fun h => absurd h (by rw [hno.1.1]; decide), fun h => absurd h hno.2⟩
      rw [getIpv6HdrLen_none hext, walkFine_of_next (next_ext_none hext)]
      exact ⟨Nat.zero_le _, by simp [hfine]⟩
    | some r =>
      have hfine : (Hdr.ext proto off len).Fine mem ↔ _ := fine_ext_iff hoff hext
      rw [getIpv6HdrLen_some hext, walkFine_iff, next_ext_some hext, hfine]
      by_cases hcut : len ≤ r.2
      · simp [hcut]
      · have hpos := extHdrLen_pos mem hext
        obtain ⟨hle, hiff⟩ := ih (len - r.2) (by omega) (at8 mem off) (off + r.2) (by omega)
        have hread : off < total := by omega
        have hoff' : off + r.2 +
            (getIpv6HdrLen mem (at8 mem off) (off + r.2) (len - r.2)).2.2 =
            off + (r.2 + (getIpv6HdrLen mem (at8 mem off) (off + r.2) (len - r.2)).2.2) := by
          omega
        have hlen' : len - r.2 - (getIpv6HdrLen mem (at8 mem off) (off + r.2) (len - r.2)).2.2 =
            len - (r.2 + (getIpv6HdrLen mem (at8 mem off) (off + r.2) (len - r.2)).2.2) := by
          omega
        rw [hoff', hlen'] at hiff
        simp only [hcut, if_false, not_false_eq_true, true_implies, Option.some.injEq,
          forall_eq', hiff, Trace.ok_append, Trace.ok_cons, Event.ok_read, hread, true_and,
          Event.ok_shrink, Nat.le_of_not_le hcut]
        refine ⟨by omega, ?_⟩
        tauto

/-! ## Port bitmaps -/

theorem magicBits_and_ne_zero : ∀ m n : Fin 8, magicBits m &&& magicBits n ≠ 0#8 ↔ m = n := by
  decide

theorem getBitmap_setBitmap (bitmap : Bitmap) (port raw : Nat) :
    getBitmap raw (setBitmap bitmap port) = true ↔
      getBitmap raw bitmap = true ∨ swap16 port = raw := by
  simp only [getBitmap, setBitmap, bne_iff_ne]
  by_cases hbyte : raw / 8 = swap16 port / 8
  · rw [hbyte, Function.update_self, BitVec.and_comm, BitVec.and_or_distrib_left, ne_eq,
      BitVec.or_eq_zero_iff, not_and_or, BitVec.and_comm, BitVec.and_comm (magicBits (raw % 8))]
    refine or_congr Iff.rfl ?_
    have hbit := magicBits_and_ne_zero ⟨swap16 port % 8, Nat.mod_lt _ (by decide)⟩
      ⟨raw % 8, Nat.mod_lt _ (by decide)⟩
    rw [Fin.mk.injEq] at hbit
    refine hbit.trans ?_
    omega
  · rw [Function.update_of_ne hbyte]
    refine ⟨.inl, fun h => h.resolve_right fun heq => hbyte (by rw [heq])⟩

theorem getBitmap_foldl {α : Type} (raw : Nat) (f : α → Nat) (ports : List α) (bitmap : Bitmap) :
    getBitmap raw (ports.foldl (fun bitmap p => setBitmap bitmap (f p)) bitmap) = true ↔
      getBitmap raw bitmap = true ∨ ∃ p ∈ ports, swap16 (f p) = raw := by
  induction ports generalizing bitmap with
  | nil => simp
  | cons p ports ih =>
    rw [foldl_cons, ih, getBitmap_setBitmap, or_assoc]
    simp

theorem swap16_eq_load16 {p : Nat} (hp : p < 65536) :
    swap16 p = load16 mem off ↔ p = be16 mem off := by
  have hdiv : p / 256 < 256 := Nat.div_lt_of_lt_mul hp
  simp only [swap16, load16, be16, at8, Nat.mod_eq_of_lt hdiv]
  constructor <;> intro h <;> omega

theorem getBitmap_empty (raw : Nat) : getBitmap raw (fun _ => 0#8) = false := by simp [getBitmap]

/-- The bitmap holds the ports it was built from, as the wire carries them. -/
theorem getBitmap_portBitmap (ports : List (Fin 65536)) (off : Nat) :
    getBitmap (load16 mem off) (portBitmap ports) = true ↔ ∃ p ∈ ports, p.val = be16 mem off := by
  rw [portBitmap, getBitmap_foldl, getBitmap_empty]
  simp only [Bool.false_eq_true, false_or]
  exact exists_congr fun p => and_congr_right fun _ => swap16_eq_load16 p.isLt

/-! ## The `switch` -/

/-- The result is there and was reached by right steps. -/
def Clean (total : Nat) (o : Option (Trace × FilterReturn)) : Prop :=
  ∃ tr r, o = some (tr, r) ∧ Trace.Ok total tr

/-- It is moreover the class of what is at `h`, if that is well formed. -/
def Classifies (k : KniCfg) (mem : Nat → Byte) (total : Nat) (h : Hdr)
    (o : Option (Trace × FilterReturn)) : Prop :=
  ∃ tr r, o = some (tr, r) ∧ Trace.Ok total tr ∧ ∀ c, Std k mem h c → r = c

variable {again : Nat → Nat → IpVersion → Option (Trace × FilterReturn)} {tr : Trace}
  {next nextLen hdrSize : Nat} {o : Option (Trace × FilterReturn)}

theorem clean_bind (h : Clean total (o.bind fun r => some (tr ++ r.1, r.2))) :
    Trace.Ok total tr ∧ Clean total o := by
  obtain ⟨tr', r, heq, hok⟩ := h
  obtain ⟨a, ha, hret⟩ := Option.bind_eq_some_iff.1 heq
  cases hret
  rw [Trace.ok_append] at hok
  exact ⟨hok.1, a.1, a.2, ha, hok.2⟩

theorem clean_after {c : FilterReturn} (h : Clean total (some (tr ++ tr', c))) :
    Trace.Ok total tr := by
  obtain ⟨_, _, heq, hok⟩ := h
  cases heq
  exact (Trace.ok_append.1 hok).1

/-- What right steps through the `switch` say about the tunnels. -/
theorem clean_ipSwitch (h : Clean total (ipSwitch k mem again tr proto next nextLen)) :
    Trace.Ok total tr ∧ (proto = 4 → Clean total (again next nextLen .ipv4)) ∧
      (proto = 41 → Clean total (again next nextLen .ipv6)) := by
  unfold ipSwitch at h
  by_cases h4 : proto = 4
  · subst h4
    have hb := clean_bind h
    exact ⟨hb.1, fun _ => hb.2, fun h => absurd h (by decide)⟩
  by_cases h41 : proto = 41
  · subst h41
    have hb := clean_bind h
    exact ⟨hb.1, fun h => absurd h (by decide), fun _ => hb.2⟩
  refine ⟨?_, fun h => absurd h h4, fun h => absurd h h41⟩
  split at h
  · exact clean_after h
  split at h
  · split at h <;> exact clean_after h
  split at h
  · split at h <;> exact clean_after h
  split at h <;> exact clean_after h

theorem filterPorts_ok (hsize : 4 ≤ hdrSize) (ports : List (Fin 65536))
    (hoff : next + nextLen = total) :
    Trace.Ok total (filterPorts mem hdrSize ports next nextLen).1 := by
  unfold filterPorts
  split
  · exact Trace.ok_nil
  · simp only [Trace.ok_cons, Event.ok_read, Trace.ok_nil, and_true]
    omega

theorem filterPorts_class (ports : List (Fin 65536)) (hlen : hdrSize ≤ nextLen) :
    (filterPorts mem hdrSize ports next nextLen).2 =
      if ∃ p ∈ ports, p.val = be16 mem (next + 2) then .kni else .unknown := by
  unfold filterPorts
  rw [if_neg (not_lt.2 hlen)]
  simp only [protocolFilterL4, getBitmap_portBitmap]

theorem protocolFilterIcmp6_ok (hoff : next + nextLen = total) :
    Trace.Ok total (protocolFilterIcmp6 mem next nextLen).1 := by
  unfold protocolFilterIcmp6
  split
  · exact Trace.ok_nil
  · simp only [Trace.ok_cons, Event.ok_read, Trace.ok_nil, and_true]
    omega

theorem protocolFilterIcmp6_class (hlen : 8 ≤ nextLen) :
    (protocolFilterIcmp6 mem next nextLen).2 =
      if 133 ≤ at8 mem next ∧ at8 mem next ≤ 137 then .ndp else .unknown := by
  unfold protocolFilterIcmp6
  rw [if_neg (not_lt.2 hlen)]

theorem classifies_after {r : FilterReturn} (htr : Trace.Ok total tr) (hr : Trace.Ok total tr')
    (hc : ∀ c, Std k mem h c → r = c) : Classifies k mem total h (some (tr ++ tr', r)) :=
  ⟨_, _, rfl, Trace.ok_append.2 ⟨htr, hr⟩, hc⟩

theorem classifies_bind (htr : Trace.Ok total tr) (ho : Classifies k mem total h o)
    (hstd : ∀ c, Std k mem h' c → Std k mem h c) :
    Classifies k mem total h' (o.bind fun r => some (tr ++ r.1, r.2)) := by
  obtain ⟨tr', r, rfl, hok, hc⟩ := ho
  exact ⟨_, _, rfl, Trace.ok_append.2 ⟨htr, hok⟩, fun c hstd' => hc c (hstd c hstd')⟩

/-- **The `switch`** classifies a payload, if the calls for tunnels do. -/
theorem classifies_ipSwitch (htr : Trace.Ok total tr) (hoff : next + nextLen = total)
    (h4 : proto = 4 → Classifies k mem total (.ip .ipv4 next nextLen) (again next nextLen .ipv4))
    (h6 : proto = 41 → Classifies k mem total (.ip .ipv6 next nextLen) (again next nextLen .ipv6)) :
    Classifies k mem total (.payload proto next nextLen)
      (ipSwitch k mem again tr proto next nextLen) := by
  unfold ipSwitch
  split
  next hp =>
    subst hp
    refine classifies_after htr Trace.ok_nil fun c hc => ?_
    cases hc with
    | ospf => rfl
    | other h => exact absurd rfl h
  split
  next hp =>
    subst hp
    cases hen : k.enable with
    | true =>
      refine classifies_after htr (filterPorts_ok (by decide) _ hoff) fun c hc => ?_
      cases hc with
      | tcp hlen => simp only [protocolFilterTcp, filterPorts_class _ hlen, hen, true_and]
      | other _ h => exact absurd rfl h
    | false =>
      refine classifies_after htr Trace.ok_nil fun c hc => ?_
      cases hc with
      | tcp hlen => simp [hen]
      | other _ h => exact absurd rfl h
  split
  next hp =>
    subst hp
    cases hen : k.enable with
    | true =>
      refine classifies_after htr (filterPorts_ok (by decide) _ hoff) fun c hc => ?_
      cases hc with
      | udp hlen => simp only [protocolFilterUdp, filterPorts_class _ hlen, hen, true_and]
      | other _ _ h => exact absurd rfl h
    | false =>
      refine classifies_after htr Trace.ok_nil fun c hc => ?_
      cases hc with
      | udp hlen => simp [hen]
      | other _ _ h => exact absurd rfl h
  split
  next hp =>
    refine classifies_bind htr (h4 hp) fun c hc => ?_
    subst hp
    cases hc with
    | ipip hc => exact hc
    | other _ _ _ h => exact absurd rfl h
  split
  next hp =>
    refine classifies_bind htr (h6 hp) fun c hc => ?_
    subst hp
    cases hc with
    | ip6 hc => exact hc
    | other _ _ _ _ h => exact absurd rfl h
  split
  next hp =>
    subst hp
    refine classifies_after htr (protocolFilterIcmp6_ok hoff) fun c hc => ?_
    cases hc with
    | icmp6 hlen => exact protocolFilterIcmp6_class hlen
    | other _ _ _ _ _ h => exact absurd rfl h
  · refine classifies_after htr Trace.ok_nil fun c hc => ?_
    cases hc with
    | other => rfl
    | _ => contradiction

/-! ## IP -/

theorem walkFine_payload :
    WalkFine mem (.payload proto off len) ↔
      (proto = 4 → WalkFine mem (.ip .ipv4 off len)) ∧
        (proto = 41 → WalkFine mem (.ip .ipv6 off len)) := by
  rw [walkFine_iff]
  by_cases h4 : proto = 4
  · subst h4
    simp [Hdr.next, Hdr.Fine]
  by_cases h41 : proto = 41
  · subst h41
    simp [Hdr.next, Hdr.Fine]
  · simp [Hdr.next, Hdr.Fine, h4, h41]

theorem next_ipv4 (h20 : ¬len < 20) (hle : ¬len < ipv4HdrLen mem off) :
    (Hdr.ip .ipv4 off len).next mem = some (.payload (at8 mem (off + 9))
      (off + ipv4HdrLen mem off) (len - ipv4HdrLen mem off)) := by
  simp only [Hdr.next, h20, hle, or_self, if_false]

theorem next_ipv6 (h40 : ¬len < 40) :
    (Hdr.ip .ipv6 off len).next mem = some (.ext (at8 mem (off + 6)) (off + 40) (len - 40)) := by
  simp only [Hdr.next, h40, if_false]

theorem walkFine_ipv4_end (h : len < 20 ∨ len < ipv4HdrLen mem off) :
    WalkFine mem (.ip .ipv4 off len) := by
  have hn : (Hdr.ip .ipv4 off len).next mem = none := if_pos h
  rw [walkFine_of_end hn]
  intro h20 hzero
  rcases h with h | h
  · exact absurd h (not_lt.2 h20)
  · rw [hzero] at h
    exact absurd h (Nat.not_lt_zero _)

theorem walkFine_ipv6_end (h : len < 40) : WalkFine mem (.ip .ipv6 off len) := by
  have hn : (Hdr.ip .ipv6 off len).next mem = none := if_pos h
  rw [walkFine_of_end hn]
  trivial

section Ipv6

variable (k mem) (h40 : ¬len < 40) (hoff : off + len = total)

include h40 hoff

theorem walkFine_ipv6 :
    let r := getIpv6HdrLen mem (at8 mem (off + 6)) (off + 40) (len - 40)
    WalkFine mem (.ip .ipv6 off len) ↔ Trace.Ok total r.1 ∧
      WalkFine mem (.payload r.2.1 (off + (40 + r.2.2)) (len - (40 + r.2.2))) := by
  obtain ⟨-, hiff⟩ := getIpv6HdrLen_walk mem (at8 mem (off + 6)) (off + 40) (len - 40)
    (by omega : off + 40 + (len - 40) = total)
  rw [add_assoc, Nat.sub_sub] at hiff
  rw [walkFine_of_next (next_ipv6 h40), hiff]
  exact ⟨And.right, fun h => ⟨trivial, h⟩⟩

/-- The IPv6 branch, past the length check. -/
theorem protocolFilterIp_ipv6 (fuel : Nat) :
    let r := getIpv6HdrLen mem (at8 mem (off + 6)) (off + 40) (len - 40)
    40 + r.2.2 ≤ len ∧ protocolFilterIp k mem (fuel + 1) off len .ipv6 =
      ipSwitch k mem (protocolFilterIp k mem fuel)
        (.read (off + 6) :: .shrink len 40 :: r.1 ++ [.shrink len (40 + r.2.2)]) r.2.1
        (off + (40 + r.2.2)) (len - (40 + r.2.2)) := by
  obtain ⟨hle, -⟩ := getIpv6HdrLen_walk mem (at8 mem (off + 6)) (off + 40) (len - 40)
    (by omega : off + 40 + (len - 40) = total)
  refine ⟨by omega, ?_⟩
  rw [protocolFilterIp, if_neg h40]
  rw [if_neg (by omega)]

end Ipv6

/-- **Right steps only on a fine walk**: by induction on the calls. -/
theorem walkFine_of_clean (hoff : off + len = total)
    (h : Clean total (protocolFilterIp k mem fuel off len version)) :
    WalkFine mem (.ip version off len) := by
  induction fuel generalizing off len version with
  | zero =>
    obtain ⟨tr, r, heq, -⟩ := h
    cases heq
  | succ fuel ih =>
    cases version with
    | ipv4 =>
      by_cases hend : len < 20 ∨ len < ipv4HdrLen mem off
      · exact walkFine_ipv4_end hend
      obtain ⟨h20, hle⟩ := not_or.1 hend
      rw [protocolFilterIp, if_neg h20, if_neg hle] at h
      obtain ⟨-, h4, h6⟩ := clean_ipSwitch h
      by_cases hloop : ipv4HdrLen mem off = 0 ∧ at8 mem (off + 9) = 4
      · -- the call for the tunnel is this call again
        have hsame := h4 hloop.2
        rw [hloop.1] at hsame
        exact ih hoff hsame
      · rw [walkFine_of_next (next_ipv4 h20 hle), walkFine_payload]
        refine ⟨fun _ hzero hp => hloop ⟨hzero, hp⟩, fun hp => ?_, fun hp => ?_⟩
        · exact ih (by omega) (h4 hp)
        · exact ih (by omega) (h6 hp)
    | ipv6 =>
      by_cases h40 : len < 40
      · exact walkFine_ipv6_end h40
      obtain ⟨hle, heq⟩ := protocolFilterIp_ipv6 k mem h40 hoff fuel
      rw [heq] at h
      obtain ⟨htr, h4, h6⟩ := clean_ipSwitch h
      simp only [cons_append, Trace.ok_cons, Trace.ok_append] at htr
      refine (walkFine_ipv6 mem h40 hoff).2 ⟨htr.2.2.1, walkFine_payload.2 ⟨fun hp => ?_,
        fun hp => ?_⟩⟩
      · exact ih (by omega) (h4 hp)
      · exact ih (by omega) (h6 hp)

/-! ## Classes of well-formed packets -/

theorem standardSize_pos (proto b : Nat) : 0 < standardSize proto b := by
  unfold standardSize
  split
  · omega
  split <;> omega

theorem extHdrLen_le_standard (h : extHdrLen mem proto off = some r) :
    r.2 ≤ standardSize proto (at8 mem (off + 1)) := by
  unfold extHdrLen at h
  unfold standardSize
  split at h
  next hopt =>
    cases h
    rw [if_pos hopt]
    omega
  next hopt =>
    rw [if_neg hopt]
    split at h
    next hfrag =>
      cases h
      rw [if_pos hfrag]
    next hfrag =>
      rw [if_neg hfrag]
      split at h
      · cases h
        exact Nat.le_of_eq (mul_comm _ _)
      · cases h

/-- Nothing but an unclassified protocol is well formed in no bytes. -/
theorem std_ext_zero {c : FilterReturn} (h : Std k mem (.ext proto off 0) c) : c = .unknown := by
  cases h with
  | skip _ hle => exact absurd hle (not_le.2 (standardSize_pos _ _))
  | upper _ h =>
    cases h with
    | other => rfl
    | ipip h =>
      cases h with
      | ipv4 h20 => exact absurd h20 (by decide)
    | ip6 h =>
      cases h with
      | ipv6 h40 => exact absurd h40 (by decide)
    | _ h => exact absurd h (by decide)

theorem std_payload_of_ext (h : isExtHdr proto = true) :
    Std k mem (.payload proto off len) .unknown := by
  refine .other ?_ ?_ ?_ ?_ ?_ ?_ <;> rintro rfl <;> exact absurd h (by decide)

/-- On a fine walk the extension headers are skipped as the standard says. -/
theorem std_payload_of_std_ext {c : FilterReturn}
    (hoff : off + len = total) (hw : WalkFine mem (.ext proto off len))
    (hstd : Std k mem (.ext proto off len) c) :
    let r := getIpv6HdrLen mem proto off len
    Std k mem (.payload r.2.1 (off + r.2.2) (len - r.2.2)) c := by
  induction len using Nat.strongRecOn generalizing proto off with
  | ind len ih =>
    cases hext : extHdrLen mem proto off with
    | none =>
      rw [getIpv6HdrLen_none hext]
      cases hstd with
      | skip hyes => simp [extHdrLen_eq_none_iff.1 hext] at hyes
      | upper _ h => exact h
    | some r =>
      have hyes : isExtHdr proto = true := by
        by_contra hno
        rw [extHdrLen_eq_none_iff.2 (by simpa using hno)] at hext
        cases hext
      rw [getIpv6HdrLen_some hext]
      cases hstd with
      | upper hno => rw [hno] at hyes; cases hyes
      | skip _ hle hstd =>
        by_cases hcut : len ≤ r.2
        · -- the header fills what remains
          have hsize := extHdrLen_le_standard hext
          have hzero : len - standardSize proto (at8 mem (off + 1)) = 0 := by omega
          rw [hzero] at hstd
          rw [if_pos hcut, std_ext_zero hstd]
          exact std_payload_of_ext hyes
        · have hpos := extHdrLen_pos mem hext
          have hw' := walkFine_iff.1 hw
          have hsize : r.2 = standardSize proto (at8 mem (off + 1)) :=
            ((fine_ext_iff hoff hext).1 hw'.1).2 hcut
          rw [next_ext_some hext, if_neg hcut] at hw'
          rw [← hsize] at hstd
          have hrec := ih (len - r.2) (by omega) (by omega) (hw'.2 _ rfl) hstd
          rw [if_neg hcut]
          dsimp only at hrec ⊢
          rwa [add_assoc, Nat.sub_sub] at hrec

/-- **On a fine walk the filter returns**, by right steps, the class of a well-formed packet. The
remaining length drops at each call, but for an IPv4 header of length 0 that announces IPv6. -/
theorem classifies_of_walkFine (hoff : off + len = total) (hw : WalkFine mem (.ip version off len))
    : ∃ fuel, Classifies k mem total (.ip version off len)
      (protocolFilterIp k mem fuel off len version) := by
  generalize hn : 2 * len + (if version = .ipv4 then 1 else 0) = n
  induction n using Nat.strongRecOn generalizing off len version with
  | ind n ih =>
    -- the calls for tunnels, with one fuel for both
    have htunnel : ∀ proto off' len', off' + len' = total →
        WalkFine mem (.payload proto off' len') →
        (proto = 4 → 2 * len' + 1 < n) → (proto = 41 → 2 * len' < n) → ∃ fuel,
          (proto = 4 → Classifies k mem total (.ip .ipv4 off' len')
            (protocolFilterIp k mem fuel off' len' .ipv4)) ∧
          (proto = 41 → Classifies k mem total (.ip .ipv6 off' len')
            (protocolFilterIp k mem fuel off' len' .ipv6)) := by
      intro proto off' len' hoff' hw' hlt4 hlt6
      rw [walkFine_payload] at hw'
      by_cases h4 : proto = 4
      · obtain ⟨fuel, hc⟩ := ih _ (hlt4 h4) hoff' (hw'.1 h4) rfl
        exact ⟨fuel, fun _ => hc, fun h6 => absurd (h4.symm.trans h6) (by decide)⟩
      by_cases h6 : proto = 41
      · obtain ⟨fuel, hc⟩ := ih _ (hlt6 h6) hoff' (hw'.2 h6) rfl
        exact ⟨fuel, fun h => absurd h h4, fun _ => hc⟩
      · exact ⟨0, fun h => absurd h h4, fun h => absurd h h6⟩
    cases version with
    | ipv4 =>
      rw [if_pos rfl] at hn
      by_cases h20 : len < 20
      · refine ⟨1, [], .unknown, by rw [protocolFilterIp, if_pos h20], Trace.ok_nil, ?_⟩
        intro c hc
        cases hc with
        | ipv4 h => exact absurd h20 (not_lt.2 h)
      by_cases hle : len < ipv4HdrLen mem off
      · refine ⟨1, [.read off], .unknown, by rw [protocolFilterIp, if_neg h20, if_pos hle], ?_, ?_⟩
        · simp only [Trace.ok_cons, Event.ok_read, Trace.ok_nil, and_true]
          omega
        · intro c hc
          cases hc with
          | ipv4 _ _ h => exact absurd hle (not_lt.2 h)
      rw [walkFine_of_next (next_ipv4 h20 hle)] at hw
      have hfine := hw.1 (not_lt.1 h20)
      obtain ⟨fuel, h4, h6⟩ := htunnel _ _ _ (by omega) hw.2
        (fun hp => by
          omega) (fun _ => by omega)
      have htr : Trace.Ok total
          [.read off, .read (off + 9), .shrink len (ipv4HdrLen mem off)] := by
        simp only [Trace.ok_cons, Event.ok_read, Event.ok_shrink, Trace.ok_nil, and_true]
        omega
      obtain ⟨tr, r, heq, hok, hc⟩ := classifies_ipSwitch htr (by omega) h4 h6
      refine ⟨fuel + 1, tr, r, ?_, hok, fun c hstd => ?_⟩
      · rw [protocolFilterIp, if_neg h20, if_neg hle]
        exact heq
      · cases hstd with
        | ipv4 _ _ _ h => exact hc c h
    | ipv6 =>
      by_cases h40 : len < 40
      · refine ⟨1, [], .unknown, by rw [protocolFilterIp, if_pos h40], Trace.ok_nil, ?_⟩
        intro c hc
        cases hc with
        | ipv6 h => exact absurd h40 (not_lt.2 h)
      obtain ⟨htr, hw'⟩ := (walkFine_ipv6 mem h40 hoff).1 hw
      have hle := (protocolFilterIp_ipv6 k mem h40 hoff 0).1
      obtain ⟨fuel, h4, h6⟩ := htunnel _ _ _ (by omega) hw' (fun _ => by omega)
        (fun _ => by omega)
      have htr' : Trace.Ok total (.read (off + 6) :: .shrink len 40 ::
          (getIpv6HdrLen mem (at8 mem (off + 6)) (off + 40) (len - 40)).1 ++
          [.shrink len (40 + (getIpv6HdrLen mem (at8 mem (off + 6)) (off + 40) (len - 40)).2.2)]) := by
        simp only [cons_append, Trace.ok_cons, Trace.ok_append, Event.ok_read,
          Event.ok_shrink, Trace.ok_nil, and_true]
        exact ⟨by omega, by omega, htr, hle⟩
      obtain ⟨tr, r, heq, hok, hc⟩ := classifies_ipSwitch htr' (by omega) h4 h6
      refine ⟨fuel + 1, tr, r, ?_, hok, fun c hstd => hc c ?_⟩
      · rw [(protocolFilterIp_ipv6 k mem h40 hoff fuel).2]
        exact heq
      · cases hstd with
        | ipv6 _ hstd =>
          rw [walkFine_of_next (next_ipv6 h40)] at hw
          have hp := std_payload_of_std_ext (by omega : off + 40 + (len - 40) = total) hw.2 hstd
          dsimp only at hp
          rwa [add_assoc, Nat.sub_sub] at hp

/-! ## Frames -/

namespace Frame

variable (fr : Frame)

/-- The frame has a VLAN tag. -/
def vlan : Bool := be16 fr.mem 12 == 0x8100

/-- The length of the Ethernet header with the tag. -/
def hdrLen : Nat := if fr.vlan then 18 else 14

/-- The EtherType, behind the VLAN tag if there is one. -/
def etherType : Nat := if fr.vlan then be16 fr.mem 16 else be16 fr.mem 12

/-- `rte_is_multicast_ether_addr` of the destination. -/
def multicast : Bool := at8 fr.mem 0 % 2 == 1

/-- The remaining length the code computes. -/
def rest : Nat := if fr.vlan then sub16 (sub16 fr.len 14) 4 else sub16 fr.len 14

/-- What the code does before it looks at the type. -/
def ethTrace : Trace :=
  if fr.vlan then
    [.read 12, .read 13, .shrink fr.len 14, .read 16, .read 17, .shrink (sub16 fr.len 14) 4]
  else [.read 12, .read 13, .shrink fr.len 14]

/-- Which IP header the filter goes on to, if any. -/
def filtered (k : KniCfg) : Option IpVersion :=
  if fr.etherType = 0x0806 ∨ fr.multicast then none
  else if fr.etherType = 0x86DD then some .ipv6
  else if k.enable ∧ fr.etherType = 0x0800 then some .ipv4
  else none

end Frame

/-- `StdFrame k fr c`: the frame is well formed, and `c` is its class. ARP and multicast frames are
classes of their own, and IPv4 is classified only with KNI enabled. -/
inductive StdFrame (k : KniCfg) (fr : Frame) : FilterReturn → Prop where
  | arp : fr.hdrLen ≤ fr.len → fr.etherType = 0x0806 → StdFrame k fr .arp
  | multi : fr.hdrLen ≤ fr.len → fr.etherType ≠ 0x0806 → fr.multicast = true → StdFrame k fr .multi
  | ipv6 {c} : fr.hdrLen ≤ fr.len → fr.multicast = false → fr.etherType = 0x86DD →
      Std k fr.mem (.ip .ipv6 fr.hdrLen (fr.len - fr.hdrLen)) c → StdFrame k fr c
  | ipv4 {c} : fr.hdrLen ≤ fr.len → fr.multicast = false → fr.etherType = 0x0800 →
      Std k fr.mem (.ip .ipv4 fr.hdrLen (fr.len - fr.hdrLen)) c →
      StdFrame k fr (if k.enable then c else .unknown)

/-- **What is wanted**: the filter returns; its reads stay within the frame, its lengths above zero,
its skips standard; and a well-formed frame gets its class. -/
def FilterOk (k : KniCfg) (fr : Frame) : Prop :=
  ∃ fuel tr r, protocolFilter k fuel fr = some (tr, r) ∧ Trace.Ok fr.len tr ∧
    ∀ c, StdFrame k fr c → r = c

/-- **When that is so**: the frame is shorter than an address, or it has its Ethernet header (and
VLAN tag) and every place of the walk through its IP headers is fine. -/
def FrameFine (k : KniCfg) (fr : Frame) : Prop :=
  fr.len < 6 ∨ fr.hdrLen ≤ fr.len ∧ ∀ version, fr.filtered k = some version →
    WalkFine fr.mem (.ip version fr.hdrLen (fr.len - fr.hdrLen))

theorem ethTrace_ok_iff (fr : Frame) : Trace.Ok fr.len fr.ethTrace ↔ fr.hdrLen ≤ fr.len := by
  have hlt := fr.len_lt
  unfold Frame.ethTrace Frame.hdrLen
  cases fr.vlan with
  | true =>
    simp only [if_true, Trace.ok_cons, Event.ok_read, Event.ok_shrink, Trace.ok_nil, and_true,
      sub16]
    omega
  | false =>
    simp only [Bool.false_eq_true, if_false, Trace.ok_cons, Event.ok_read, Event.ok_shrink,
      Trace.ok_nil, and_true]
    omega

variable {fr : Frame}

theorem rest_eq (h : fr.hdrLen ≤ fr.len) : fr.rest = fr.len - fr.hdrLen := by
  have hlt := fr.len_lt
  unfold Frame.rest
  unfold Frame.hdrLen at h ⊢
  cases hv : fr.vlan with
  | true =>
    simp only [hv, if_true, sub16] at h ⊢
    omega
  | false =>
    simp only [hv, Bool.false_eq_true, if_false, sub16] at h ⊢
    omega

theorem protocolFilter_eq (h6 : ¬fr.len < 6) : protocolFilter k fuel fr =
      if fr.etherType = 0x0806 then some (fr.ethTrace, .arp)
      else if fr.multicast then some (fr.ethTrace ++ [.read 0], .multi)
      else
        match fr.filtered k with
        | some version => (protocolFilterIp k fr.mem fuel fr.hdrLen fr.rest version).bind fun r =>
            some (fr.ethTrace ++ .read 0 :: r.1, r.2)
        | none => some (fr.ethTrace ++ [.read 0], .unknown) := by
  unfold protocolFilter
  rw [if_neg h6]
  have hvlan : (be16 fr.mem 12 == 0x8100) = fr.vlan := rfl
  have htype : (if fr.vlan = true then be16 fr.mem 16 else be16 fr.mem 12) = fr.etherType := rfl
  have htrace : (if fr.vlan = true then
      [Event.read 12, .read 13, .shrink fr.len 14] ++
        [.read 16, .read 17, .shrink (sub16 fr.len 14) 4]
      else [.read 12, .read 13, .shrink fr.len 14]) = fr.ethTrace := rfl
  have hoff : (if fr.vlan = true then 18 else 14) = fr.hdrLen := rfl
  have hrest : (if fr.vlan = true then sub16 (sub16 fr.len 14) 4 else sub16 fr.len 14) = fr.rest :=
    rfl
  have hmulti : fr.multicast = decide (at8 fr.mem 0 % 2 = 1) := rfl
  simp only [hvlan, htype, htrace, hoff, hrest, hmulti, decide_eq_true_eq]
  by_cases harp : fr.etherType = 0x0806
  · simp [harp]
  by_cases hmul : at8 fr.mem 0 % 2 = 1
  · simp [harp, hmul]
  by_cases hv6 : fr.etherType = 0x86DD
  · simp [Frame.filtered, hmulti, hmul, hv6]
  by_cases hen : k.enable = true
  · by_cases hv4 : fr.etherType = 0x0800
    · simp [Frame.filtered, hmulti, hmul, hv4, hen]
    · simp [Frame.filtered, hmulti, harp, hmul, hv6, hv4, hen]
  · simp [Frame.filtered, hmulti, harp, hmul, hv6, hen]

theorem filtered_ipv6 (hmul : fr.multicast = false) (htype : fr.etherType = 0x86DD) :
    fr.filtered k = some .ipv6 := by
  simp [Frame.filtered, hmul, htype]

theorem filtered_ipv4 (hmul : fr.multicast = false) (htype : fr.etherType = 0x0800) :
    fr.filtered k = if k.enable then some .ipv4 else none := by
  simp [Frame.filtered, hmul, htype]

theorem hdrLen_pos (fr : Frame) : 0 < fr.hdrLen := by
  unfold Frame.hdrLen
  split <;> decide

/-- On a frame that passes the first test every step of `ethTrace` is taken. -/
theorem ethTrace_ok_of_clean (h6 : ¬fr.len < 6) (h : Clean fr.len (protocolFilter k fuel fr)) :
    Trace.Ok fr.len fr.ethTrace := by
  rw [protocolFilter_eq h6] at h
  split at h
  · obtain ⟨tr, r, heq, hok⟩ := h
    cases heq
    exact hok
  split at h
  · exact clean_after h
  split at h
  · obtain ⟨tr, r, heq, hok⟩ := h
    obtain ⟨a, -, hret⟩ := Option.bind_eq_some_iff.1 heq
    cases hret
    exact (Trace.ok_append.1 hok).1
  · exact clean_after h

theorem frameFine_of_filterOk (h : FilterOk k fr) : FrameFine k fr := by
  obtain ⟨fuel, tr, r, heq, hok, -⟩ := h
  by_cases h6 : fr.len < 6
  · exact .inl h6
  have hlen := (ethTrace_ok_iff fr).1 (ethTrace_ok_of_clean h6 ⟨tr, r, heq, hok⟩)
  refine .inr ⟨hlen, fun version hf => ?_⟩
  have hnot : ¬(fr.etherType = 0x0806 ∨ fr.multicast = true) := fun hc => by
    rw [Frame.filtered, if_pos hc] at hf
    cases hf
  obtain ⟨harp, hmul⟩ := not_or.1 hnot
  rw [protocolFilter_eq h6, if_neg harp, if_neg hmul, hf, rest_eq hlen] at heq
  obtain ⟨a, ha, hret⟩ := Option.bind_eq_some_iff.1 heq
  cases hret
  simp only [Trace.ok_append, Trace.ok_cons] at hok
  exact walkFine_of_clean (Nat.add_sub_cancel' hlen) ⟨a.1, a.2, ha, hok.2.2⟩

theorem filterOk_of_frameFine (h : FrameFine k fr) : FilterOk k fr := by
  by_cases h6 : fr.len < 6
  · refine ⟨0, [], .unknown, if_pos h6, Trace.ok_nil, fun c hc => ?_⟩
    have hlong : fr.hdrLen ≤ fr.len := by cases hc <;> assumption
    have hhdr : 14 ≤ fr.hdrLen := by
      unfold Frame.hdrLen
      split <;> decide
    exact absurd h6 (by omega)
  obtain ⟨hlen, hwalk⟩ := h.resolve_left h6
  have htr := (ethTrace_ok_iff fr).2 hlen
  have hread : 0 < fr.len := Nat.lt_of_lt_of_le (hdrLen_pos fr) hlen
  by_cases harp : fr.etherType = 0x0806
  · refine ⟨0, _, _, by rw [protocolFilter_eq h6, if_pos harp], htr, fun c hc => ?_⟩
    cases hc with
    | arp => rfl
    | multi _ h => exact absurd harp h
    | ipv6 _ _ h | ipv4 _ _ h => exact absurd (harp.symm.trans h) (by decide)
  cases hmul : fr.multicast with
  | true =>
    refine ⟨0, _, _, by rw [protocolFilter_eq h6, if_neg harp, hmul, if_pos rfl], ?_,
      fun c hc => ?_⟩
    · simp [htr, hread]
    · cases hc with
      | arp _ h => exact absurd h harp
      | multi => rfl
      | ipv6 _ h | ipv4 _ h => rw [hmul] at h; cases h
  | false =>
    cases hf : fr.filtered k with
    | none =>
      refine ⟨0, _, _, by rw [protocolFilter_eq h6, if_neg harp, hmul, if_neg (by decide), hf], ?_,
        fun c hc => ?_⟩
      · simp [htr, hread]
      · cases hc with
        | arp _ h => exact absurd h harp
        | multi _ _ h => rw [hmul] at h; cases h
        | ipv6 _ h htype => rw [filtered_ipv6 h htype] at hf; cases hf
        | ipv4 _ h htype =>
          rw [filtered_ipv4 h htype] at hf
          cases hen : k.enable with
          | true => simp [hen] at hf
          | false => rfl
    | some version =>
      obtain ⟨fuel, tr, r, heq, hok, hc⟩ := classifies_of_walkFine (k := k)
        (Nat.add_sub_cancel' hlen) (hwalk version hf)
      refine ⟨fuel, fr.ethTrace ++ .read 0 :: tr, r, ?_, ?_, fun c hstd => ?_⟩
      · rw [protocolFilter_eq h6, if_neg harp, hmul, if_neg (by decide), hf, rest_eq hlen]
        dsimp only
        rw [heq]
        rfl
      · simp [htr, hread, hok]
      · cases hstd with
        | arp _ h => exact absurd h harp
        | multi _ _ h => rw [hmul] at h; cases h
        | ipv6 _ h htype hstd =>
          rw [filtered_ipv6 h htype] at hf
          cases hf
          exact hc c hstd
        | ipv4 _ h htype hstd =>
          rw [filtered_ipv4 h htype] at hf
          cases hen : k.enable with
          | true =>
            simp only [hen, if_true, Option.some.injEq] at hf
            subst hf
            exact hc _ hstd
          | false => simp [hen] at hf

/-- **Packet classification is total, bounded and correct** on exactly the frames `FrameFine`
describes. -/
theorem protocolFilter_ok_iff (k : KniCfg) (fr : Frame) : FilterOk k fr ↔ FrameFine k fr :=
  ⟨frameFine_of_filterOk, filterOk_of_frameFine⟩

/-- A frame of 6 bytes: its type, at offset 12, is read all the same. -/
theorem protocolFilter_not_ok : ¬FilterOk ⟨true, [], []⟩ ⟨fun _ => 0, 6, by decide⟩ := by
  rintro ⟨fuel, tr, r, heq, hok, -⟩
  have htr := ethTrace_ok_of_clean (by decide) ⟨tr, r, heq, hok⟩
  exact absurd ((ethTrace_ok_iff _).1 htr) (by decide)

end FStack.Rx
