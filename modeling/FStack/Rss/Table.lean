import FStack.Lib.Probe
import FStack.Lib.Run
import FStack.Rss.Check

/-!
# The RSS port tables

Model of `ff_rss_tbl_init` and `ff_rss_tbl_get_portrange` (`lib/ff_dpdk_if.c:3091-3231`,
`3292-3345`) and of their IPv6 twins (`lib/ff_dpdk_if.c:3906-4015`, `4075-4121`).

A table has 16 slots, one per pair of remote address and port, found by circular probing; each has
4 slots, one per local address, again probed. An entry lists the local ports whose replies
`ff_rss_check` sends to this lcore's queue: `dport[1..num]`, with `dport[0]` the rotating index and
`first_idx..last_idx` the part in use. The counters are `uint16_t`.

The IPv4 and the IPv6 code differ in the address type, in how an address is folded into an index
and in the check they call: `Family`. The group counter `ff_rss_tbl[i].num` is written and never
read, and left out.

* `fillEntry_spec`: the entry the 65536-iteration loop builds, in closed form.
-/

namespace FStack.Rss

open Function List FStack.Lib.Probe FStack.Lib.Run

/-! ## The two address families -/

section

variable (A : Type)

/-- What the IPv4 and the IPv6 table differ in. -/
structure Family where
  /-- `INADDR_ANY`, or the address `ff_in6_is_any` accepts. -/
  any : A
  /-- The address as an index. -/
  fold : A → BitVec 32
  check : RssState → LcoreConf → Nat → A → A → InPort → InPort → Option Bool

/-- `saddr + (uint32_t)((uint8_t *)&saddr)[3]`. -/
def inetFold (addr : InAddr) : BitVec 32 := addr + ((memBytes addr).getD 3 0).setWidth 32

/-- `ff_in6_fold`. -/
def ffIn6Fold (addr6 : In6Addr) : BitVec 32 :=
  (range 16).foldl (fun v i => v + (addr6.bytes.getD i 0).setWidth 32 <<< (i % 4 * 8)) 0#32

/-- The IPv4 table. -/
def inetFamily : Family InAddr := ⟨0, inetFold, ffRssCheck⟩

/-- The IPv6 table. -/
def inet6Family : Family In6Addr := ⟨⟨replicate 16 0, rfl⟩, ffIn6Fold, ffRssCheck6⟩

/-! ## Tables -/

/-- `FF_RSS_TBL_MAX_SADDR_SPORT_ENTRIES`. -/
def maxSaddrSport : Nat := 16

/-- `FF_RSS_TBL_MAX_DADDR`. -/
def maxDaddr : Nat := 4

/-- `FF_RSS_TBL_MAX_DPORT`. -/
def maxDport : Nat := 65536

/-- `ENOENT`. -/
def enoent : Int := 2

/-- `struct ff_rss_tbl_dip_type`. -/
structure DipSlot where
  daddr : A
  first : Nat
  last : Nat
  firstIdx : Nat
  lastIdx : Nat
  num : Nat
  dport : Nat → Nat

/-- `struct ff_rss_tbl_type`. -/
structure SaddrSlot where
  saddr : A
  sport : InPort
  dipTbl : Nat → DipSlot A

/-- `ff_rss_tbl`. -/
abbrev RssTbl := Nat → SaddrSlot A

/-- One `rss_tbl` line of the configuration. -/
structure TblLine where
  portId : Nat
  daddr : A
  saddr : A
  sport : InPort

end

/-- `struct ff_rss_tbl_cfg`, by `family`. -/
inductive RssTblCfg where
  | inet (line : TblLine InAddr)
  | inet6 (line : TblLine In6Addr)

/-- Why a table is not initialised. -/
inductive TblFault where
  /-- `ff_veth_get_softc` failed; the function returns -1. -/
  | noSoftc
  /-- The check dereferenced a NULL `rsskey`. -/
  | nullKey

variable {A : Type} [DecidableEq A] (F : Family A)

/-- An entry after `memset`. -/
def DipSlot.zero : DipSlot A := ⟨F.any, 0, 0, 0, 0, 0, fun _ => 0⟩

/-- The table after `memset`. -/
def RssTbl.zero : RssTbl A := fun _ => ⟨F.any, 0, fun _ => DipSlot.zero F⟩

/-- `ori_idx`. -/
def oriIdx (key : A × InPort) : Nat :=
  ((F.fold key.1 ^^^ key.2.setWidth 32) &&& BitVec.ofNat 32 (maxSaddrSport - 1)).toNat

/-- `ori_daddr_idx`. -/
def oriDaddrIdx (daddr : A) : Nat := (F.fold daddr &&& BitVec.ofNat 32 (maxDaddr - 1)).toNat

/-- The first-level loop: the first slot that is empty or holds the pair. -/
def findSaddr (T : RssTbl A) (saddr : A) (sport : InPort) : Option Nat :=
  probe maxSaddrSport (oriIdx F (saddr, sport)) fun idx =>
    (T idx).saddr == F.any || ((T idx).saddr == saddr && (T idx).sport == sport)

/-- The second-level loop: the first slot that is empty or holds the address. -/
def findDaddr (slot : SaddrSlot A) (daddr : A) : Option Nat :=
  probe maxDaddr (oriDaddrIdx F daddr) fun idx =>
    (slot.dipTbl idx).daddr == F.any || (slot.dipTbl idx).daddr == daddr

/-! ## Filling an entry -/

/-- The variables of the port loop. -/
structure Fill (A : Type) where
  k : Nat
  prevDport : Int
  entry : DipSlot A

omit [DecidableEq A] in
/-- The body of the port loop. -/
def fillStep (check : InPort → Option Bool) (st : Fill A) (j : Nat) : Except TblFault (Fill A) :=
  match check (htons j) with
  | none => .error .nullKey
  | some false => .ok st
  | some true => .ok
    { k := st.k + 1
      prevDport := j
      entry := { st.entry with
        num := (st.entry.num + 1) % 65536
        dport := update st.entry.dport st.k j
        first := if st.prevDport = -1 then j else st.entry.first } }

/-- From "The idx of port start form 1" to the copy of `daddr`. -/
def fillEntry (check : InPort → Option Bool) (daddr : A) (entry : DipSlot A) :
    Except TblFault (DipSlot A) := do
  let start : Fill A :=
    ⟨1, -1, { entry with dport := update entry.dport 0 1, firstIdx := 1 }⟩
  let st ← (range maxDport).foldlM (fillStep check) start
  let entry :=
    if st.k = maxDport + 1 then { st.entry with num := st.k - 2, lastIdx := st.k - 2 }
    else { st.entry with lastIdx := st.k - 1 }
  return { entry with last := (st.prevDport % 65536).toNat, daddr := daddr }

/-! ## Initialisation and lookup -/

/-- One configuration line: ignored without a slot or as a duplicate, entered otherwise. -/
def tblLine (s : RssState) (lc : LcoreConf) (T : RssTbl A) (c : TblLine A) :
    Except TblFault (RssTbl A) :=
  match findSaddr F T c.saddr c.sport with
  | none => .ok T
  | some idx =>
    match findDaddr F (T idx) c.daddr with
    | none => .ok T
    | some daddrIdx =>
      if ((T idx).dipTbl daddrIdx).daddr = F.any then do
        let entry ← fillEntry (F.check s lc c.portId c.saddr c.daddr c.sport) c.daddr
          ((T idx).dipTbl daddrIdx)
        return update T idx
          ⟨c.saddr, c.sport, update (T idx).dipTbl daddrIdx entry⟩
      else .ok T

variable (softc : Bool)

variable (s : RssState)

variable (lc : LcoreConf)

/-- Initialisation of one family's table from its lines. -/
def tblInit (lines : List (TblLine A)) :
    Except TblFault (RssTbl A) :=
  if softc then lines.foldlM (tblLine F s lc) (RssTbl.zero F) else .error .noSoftc

variable (enabled : Bool)

/-- Lookup: `-1` when disabled, `-ENOENT`, or the entry whose indices and ports are returned. -/
def tblGet (T : RssTbl A) (saddr daddr : A) (sport : InPort) :
    Except Int (DipSlot A) :=
  if !enabled then .error (-1)
  else
    match findSaddr F T saddr sport with
    | none => .error (-enoent)
    | some idx =>
      if (T idx).saddr = F.any then .error (-enoent)
      else
        match findDaddr F (T idx) daddr with
        | none => .error (-enoent)
        | some daddrIdx =>
          if ((T idx).dipTbl daddrIdx).daddr = F.any then .error (-enoent)
          else .ok ((T idx).dipTbl daddrIdx)

variable (cfgs : List RssTblCfg)

/-- The lines `ff_rss_tbl_init` does not skip, in order. -/
def inetLines : List (TblLine InAddr) :=
  cfgs.filterMap fun | .inet line => some line | .inet6 _ => none

/-- The lines `ff_rss_tbl6_init` does not skip, in order. -/
def inet6Lines : List (TblLine In6Addr) :=
  cfgs.filterMap fun | .inet _ => none | .inet6 line => some line

/-- `ff_rss_tbl_init`. -/
def ffRssTblInit :
    Except TblFault (RssTbl InAddr) :=
  tblInit inetFamily softc s lc (inetLines cfgs)

/-- `ff_rss_tbl6_init`. -/
def ffRssTbl6Init :
    Except TblFault (RssTbl In6Addr) :=
  tblInit inet6Family softc s lc (inet6Lines cfgs)

/-- `ff_rss_tbl_get_portrange`. -/
def ffRssTblGetPortrange (T : RssTbl InAddr) (saddr daddr : InAddr)
    (sport : InPort) : Except Int (DipSlot InAddr) :=
  tblGet inetFamily enabled T saddr daddr sport

/-- `ff_rss_tbl6_get_portrange`. -/
def ffRssTbl6GetPortrange (T : RssTbl In6Addr) (saddr6 daddr6 : In6Addr)
    (sport : InPort) : Except Int (DipSlot In6Addr) :=
  tblGet inet6Family enabled T saddr6 daddr6 sport

/-! ## The filled entry -/

section Filled

variable {A : Type} {F : Family A} {check : InPort → Option Bool} {n : Nat}

/-- The ports below `n` that the check accepts, in increasing order. -/
def acceptedPorts (check : InPort → Option Bool) (n : Nat) : List Nat :=
  (range n).filter fun j => check (htons j) == some true

theorem acceptedPorts_succ (check : InPort → Option Bool) (n : Nat) :
    acceptedPorts check (n + 1) =
      acceptedPorts check n ++ if check (htons n) == some true then [n] else [] := by
  rw [acceptedPorts, range_succ, filter_append, acceptedPorts, filter_cons, filter_nil]

theorem mem_acceptedPorts {p : Nat} :
    p ∈ acceptedPorts check n ↔ p < n ∧ check (htons p) = some true := by
  simp [acceptedPorts]

section

variable (check : InPort → Option Bool)

theorem acceptedPorts_pairwise (n : Nat) : (acceptedPorts check n).Pairwise (· < ·) :=
  pairwise_lt_range.filter _

theorem acceptedPorts_length_le (n : Nat) : (acceptedPorts check n).length ≤ n := by
  simpa [acceptedPorts] using length_filter_le
    (fun j => check (htons j) == some true) (range n)

/-- The state of the port loop after the ports below `n`. -/
structure FillInv (n : Nat) (st : Fill A) : Prop where
  total : ∀ j, j < n → check (htons j) ≠ none
  k : st.k = (acceptedPorts check n).length + 1
  num : st.entry.num = (acceptedPorts check n).length % 65536
  prevDport : st.prevDport = (((acceptedPorts check n).getLast?).map Int.ofNat).getD (-1)
  first : st.entry.first = ((acceptedPorts check n).head?).getD 0
  firstIdx : st.entry.firstIdx = 1
  dport_zero : st.entry.dport 0 = 1
  dport : ∀ i, (hi : i < (acceptedPorts check n).length) →
    st.entry.dport (i + 1) = (acceptedPorts check n)[i]

end

theorem fillInv_step {st st' : Fill A} (hinv : FillInv check n st)
    (h : fillStep check st n = .ok st') : FillInv check (n + 1) st' := by
  have htotal : ∀ {o}, check (htons n) = some o → ∀ j, j < n + 1 → check (htons j) ≠ none := by
    intro o ho j hj
    rcases Nat.lt_succ_iff_lt_or_eq.1 hj with hlt | rfl
    · exact hinv.total j hlt
    · simp [ho]
  unfold fillStep at h
  split at h
  · cases h
  · -- refused: nothing changes
    rename_i hc
    cases h
    have hports : acceptedPorts check (n + 1) = acceptedPorts check n := by
      simp [acceptedPorts_succ, hc]
    refine ⟨htotal hc, ?_, ?_, ?_, ?_, hinv.firstIdx, hinv.dport_zero, ?_⟩
    · rw [hports, hinv.k]
    · rw [hports, hinv.num]
    · rw [hports, hinv.prevDport]
    · rw [hports, hinv.first]
    · intro i hi
      simp only [hports] at hi ⊢
      exact hinv.dport i hi
  · -- accepted: the port goes to index `k`
    rename_i hc
    cases h
    have hports : acceptedPorts check (n + 1) = acceptedPorts check n ++ [n] := by
      simp [acceptedPorts_succ, hc]
    refine ⟨htotal hc, ?_, ?_, ?_, ?_, hinv.firstIdx, ?_, ?_⟩
    · simp [hports, hinv.k]
    · simp [hports, hinv.num]
    · simp [hports]
    · rw [hinv.first, hinv.prevDport, hports]
      cases hhead : acceptedPorts check n with
      | nil => simp
      | cons p ps =>
        have hne : ((p :: ps).getLast?.map Int.ofNat).getD (-1) ≠ -1 := by
          rw [getLast?_eq_getLast_of_ne_nil (by simp)]
          simp
        simp [hne]
    · dsimp only
      rw [update_of_ne (by have := hinv.k; omega)]
      exact hinv.dport_zero
    · intro i hi
      dsimp only
      rcases lt_or_ge i (acceptedPorts check n).length with hlt | hge
      · rw [update_of_ne (by have := hinv.k; omega), hinv.dport i hlt]
        simp [hports, getElem_append_left hlt]
      · have hi' : i = (acceptedPorts check n).length := by
          rw [hports, length_append, length_singleton] at hi
          omega
        subst hi'
        rw [← hinv.k, update_self]
        simp [hports]

theorem fillInv_run {start : Fill A} (h0 : FillInv check 0 start) :
    ∀ (n : Nat) {st : Fill A}, (range n).foldlM (fillStep check) start = .ok st →
      FillInv check n st
  | 0, st, h => by
    cases h
    exact h0
  | n + 1, st, h => by
    rw [range_succ] at h
    obtain ⟨st₁, h₁, h₂⟩ := foldlM_append_eq_ok.1 h
    obtain ⟨st₂, h₃, h₄⟩ := foldlM_cons_eq_ok.1 h₂
    cases h₄
    exact fillInv_step (fillInv_run h0 n h₁) h₃

/-- What an entry holds about the ports `check` accepts. -/
structure Filled (check : InPort → Option Bool) (daddr : A) (e : DipSlot A) : Prop where
  total : ∀ j, j < maxDport → check (htons j) ≠ none
  daddr : e.daddr = daddr
  num : e.num = min (acceptedPorts check maxDport).length 65535
  firstIdx : e.firstIdx = 1
  lastIdx : e.lastIdx = e.num
  first : e.first = ((acceptedPorts check maxDport).head?).getD 0
  last : e.last = ((acceptedPorts check maxDport).getLast?).getD 65535
  dport_zero : e.dport 0 = 1
  dport : ∀ i, (hi : i < (acceptedPorts check maxDport).length) →
    e.dport (i + 1) = (acceptedPorts check maxDport)[i]

/-- **The filled entry**: the accepted ports in order; only when all 65536 are accepted is the last
one beyond `num`. -/
theorem fillEntry_spec {daddr : A} {e : DipSlot A}
    (h : fillEntry check daddr (DipSlot.zero F) = .ok e) : Filled check daddr e := by
  obtain ⟨st, hrun, hret⟩ := bind_eq_ok.1 h
  have hinv : FillInv check maxDport st := by
    refine fillInv_run ?_ maxDport hrun
    exact ⟨fun j hj => absurd hj (by omega), rfl, rfl, rfl, rfl, rfl, rfl,
      fun i hi => absurd hi (by simp [acceptedPorts])⟩
  have hle := acceptedPorts_length_le check maxDport
  have hlast : (st.prevDport % 65536).toNat =
      ((acceptedPorts check maxDport).getLast?).getD 65535 := by
    rw [hinv.prevDport]
    cases hl : (acceptedPorts check maxDport).getLast? with
    | none => rfl
    | some p =>
      have hp : p < 65536 := (mem_acceptedPorts.1 (mem_of_getLast? hl)).1
      show ((p : Int) % 65536).toNat = p
      omega
  injection hret with hret
  subst hret
  have hmax : maxDport = 65536 := rfl
  by_cases hk : st.k = maxDport + 1
  · simp only [hk, if_true]
    have hk' := hinv.k
    refine ⟨hinv.total, rfl, ?_, hinv.firstIdx, rfl, hinv.first, hlast, hinv.dport_zero, hinv.dport⟩
    simp only
    omega
  · simp only [hk, if_false]
    have hk' := hinv.k
    have hnum := hinv.num
    refine ⟨hinv.total, rfl, ?_, hinv.firstIdx, ?_, hinv.first, hlast, hinv.dport_zero,
      hinv.dport⟩ <;> simp only <;> omega

end Filled

end FStack.Rss
