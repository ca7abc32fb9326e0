import FStack.Rss.TableExact

/-!
# Restricting the RSS port tables to a port range

Model of `ff_rss_tbl_set_portrange` (`lib/ff_dpdk_if.c:3233-3290`) and
`ff_rss_tbl6_set_portrange` (`lib/ff_dpdk_if.c:4017-4073`), which narrow every entry's
`first_idx..last_idx` to the ports in `[first, last]`.

For each entry one scan over `dport[1..num]` sets both indices and leaves through four exits. Two of
them go wrong. When the largest port is below `last` the scan relies on `last_idx` being `num`
("ff_rss_tbl_init set last_idx as … num already"), which an earlier call may have changed. And a
scan that meets no port of the range can still end with `first_idx <= last_idx`: through the
`first == last` exit, and when the smallest port lies above the range, where `k > 1 ? k - 1 : k`
keeps `k = 1`.

Results:
* `scan_spec`: the two indices a scan leaves, for a sorted array.
* `restrictEntry_of_owns`, `restrictEntry_stale`, `restrictEntry_of_not_owns`: one entry.
* `restrictSlots_spec`: the whole table, with its early return.
-/

namespace FStack.Rss

open Function List

/-! ## The model -/

/-- The loop `for (k = 1; k <= num; k++)`, from `k` for `fuel` more iterations: the values of
`first_idx` and `last_idx` it leaves. -/
def scan (dport : Nat → Nat) (num first last : Nat) : Nat → Nat → Nat → Nat → Nat × Nat
  | 0, _, firstIdx, lastIdx => (firstIdx, lastIdx)
  | fuel + 1, k, firstIdx, lastIdx =>
    let hit := firstIdx == 0 && decide (first ≤ dport k)
    let firstIdx := if hit then k else firstIdx
    if hit && decide (dport num < last) then (firstIdx, lastIdx)
    else if hit && first == last then (firstIdx, k)
    else if dport k = last then (firstIdx, k)
    else if last < dport k then (firstIdx, if 1 < k then k - 1 else k)
    else scan dport num first last fuel (k + 1) firstIdx lastIdx

variable {A : Type} {F : Family A} {first last : Nat} {p : Nat × Nat}

/-- One entry: whether it passes the check after the scan, and the entry. -/
def restrictEntry (first last : Nat) (e : DipSlot A) : Bool × DipSlot A :=
  let r := scan e.dport e.num first last e.num 1 0 e.lastIdx
  (!(r.1 == 0 || decide (r.2 < r.1)),
    { e with first := first, last := last, firstIdx := r.1, lastIdx := r.2 })

/-- Writes one destination entry. -/
def setDip (T : RssTbl A) (i j : Nat) (e : DipSlot A) : RssTbl A :=
  update T i { T i with dipTbl := update (T i).dipTbl j e }

section Slots

variable [DecidableEq A]

/-- The slot holds an entry. -/
def isEntry (F : Family A) (T : RssTbl A) (p : Nat × Nat) : Bool :=
  (T p.1).saddr != F.any && ((T p.1).dipTbl p.2).daddr != F.any

/-- The two loops over the slots, with the early `return -1`. -/
def restrictSlots (F : Family A) (first last : Nat) : List (Nat × Nat) → RssTbl A → Int × RssTbl A
  | [], T => (0, T)
  | p :: ps, T =>
    if isEntry F T p then
      let r := restrictEntry first last ((T p.1).dipTbl p.2)
      let T := setDip T p.1 p.2 r.2
      if r.1 then restrictSlots F first last ps T else (-1, T)
    else restrictSlots F first last ps T

/-- The slots in the order of the loops. -/
def slots : List (Nat × Nat) :=
  (List.range maxSaddrSport).flatMap fun i => (List.range maxDaddr).map fun j => (i, j)

/-- `ff_rss_tbl_set_portrange` and its IPv6 twin. -/
def setPortrange (F : Family A) (enabled : Bool) (first last : Nat) (T : RssTbl A) :
    Int × RssTbl A :=
  if last < first || !enabled then (-1, T) else restrictSlots F first last slots T

/-- `ff_rss_tbl_set_portrange`. -/
def ffRssTblSetPortrange (enabled : Bool) (first last : Nat) (T : RssTbl InAddr) :
    Int × RssTbl InAddr :=
  setPortrange inetFamily enabled first last T

/-- `ff_rss_tbl6_set_portrange`. -/
def ffRssTbl6SetPortrange (enabled : Bool) (first last : Nat) (T : RssTbl In6Addr) :
    Int × RssTbl In6Addr :=
  setPortrange inet6Family enabled first last T

end Slots

/-! ## The scan -/

section Scan

variable {dport : Nat → Nat} {num first last k lastIdx : Nat}

/-- Ports below the range are passed before `first_idx` is set. -/
theorem scan_below (hle : first ≤ last) :
    ∀ (m fuel k : Nat), (∀ j, k ≤ j → j < k + m → dport j < first) →
      scan dport num first last (m + fuel) k 0 lastIdx =
        scan dport num first last fuel (k + m) 0 lastIdx
  | 0, fuel, k, _ => by simp
  | m + 1, fuel, k, h => by
    have hk : dport k < first := h k (Nat.le_refl k) (by omega)
    have hhit : decide (first ≤ dport k) = false := by simpa using hk
    rw [add_right_comm, scan]
    have hlast : dport k < last := hk.trans_le hle
    simp only [hhit, Bool.and_false, Bool.false_and, Bool.false_eq_true, if_false,
      Nat.ne_of_lt hlast, not_lt.2 hlast.le]
    rw [scan_below hle m fuel (k + 1) fun j hj hj' => h j (by omega) (by omega)]
    congr 1
    omega

/-- Ports of the range below `last` are passed once `first_idx` is set. -/
theorem scan_inside {firstIdx : Nat} (hf : firstIdx ≠ 0) :
    ∀ (m fuel k : Nat), (∀ j, k ≤ j → j < k + m → dport j < last) →
      scan dport num first last (m + fuel) k firstIdx lastIdx =
        scan dport num first last fuel (k + m) firstIdx lastIdx
  | 0, fuel, k, _ => by simp
  | m + 1, fuel, k, h => by
    have hk : dport k < last := h k (Nat.le_refl k) (by omega)
    have hhit : (firstIdx == 0) = false := by simpa using hf
    rw [add_right_comm, scan]
    simp only [hhit, Bool.false_and, Bool.false_eq_true, if_false, Nat.ne_of_lt hk,
      not_lt.2 hk.le]
    rw [scan_inside hf m fuel (k + 1) fun j hj hj' => h j (by omega) (by omega)]
    congr 1
    omega

variable (hle : first ≤ last)

include hle

theorem scan_none (lastIdx : Nat) (h : ∀ k, 1 ≤ k → k ≤ num → dport k < first) :
    scan dport num first last num 1 0 lastIdx = (0, lastIdx) := by
  have hrun : scan dport num first last (num + 0) 1 0 lastIdx =
      scan dport num first last 0 (1 + num) 0 lastIdx :=
    scan_below hle num 0 1 fun j hj hj' => h j hj (by omega)
  rw [add_zero] at hrun
  rw [hrun, scan]

/-- The scan up to the first port of at least `first`, at index `k`. -/
theorem scan_to_first (lastIdx : Nat) (hk : 1 ≤ k) (hkn : k ≤ num)
    (hbelow : ∀ j, 1 ≤ j → j < k → dport j < first) : scan dport num first last num 1 0 lastIdx =
      scan dport num first last (num - k + 1) k 0 lastIdx := by
  have hrun : scan dport num first last (k - 1 + (num - k + 1)) 1 0 lastIdx =
      scan dport num first last (num - k + 1) (1 + (k - 1)) 0 lastIdx :=
    scan_below hle (k - 1) (num - k + 1) 1 fun j hj hj' => hbelow j hj (by omega)
  have hfuel : k - 1 + (num - k + 1) = num := by omega
  have hidx : 1 + (k - 1) = k := by omega
  rwa [hfuel, hidx] at hrun

/-- The indices a scan leaves when a port of at least `first` exists, in a sorted array. -/
theorem scan_spec (lastIdx : Nat)
    (hmono : ∀ a b, 1 ≤ a → a < b → b ≤ num → dport a < dport b) (hk : 1 ≤ k) (hkn : k ≤ num)
    (hfirst : first ≤ dport k) (hbelow : ∀ j, 1 ≤ j → j < k → dport j < first) :
    let r := scan dport num first last num 1 0 lastIdx
    r.1 = k ∧
      (dport num < last → r.2 = lastIdx) ∧
      (last ≤ dport num → first = last → r.2 = k) ∧
      (first < last → last < dport k → r.2 = if 1 < k then k - 1 else k) ∧
      (last ≤ dport num → first < last → dport k ≤ last →
        k ≤ r.2 ∧ r.2 ≤ num ∧ dport r.2 ≤ last ∧ ∀ j, r.2 < j → j ≤ num → last < dport j) := by
  rw [scan_to_first hle lastIdx hk hkn hbelow, scan]
  have hhit : decide (first ≤ dport k) = true := by simpa using hfirst
  have hk0 : k ≠ 0 := by omega
  simp only [hhit, beq_self_eq_true, Bool.and_self, Bool.true_and, if_true, decide_eq_true_eq,
    beq_iff_eq]
  by_cases hnum : dport num < last
  · rw [if_pos hnum]
    -- the largest port is below `last`, so no port is above it
    rcases lt_or_ge k num with hlt' | hge
    · have := hmono k num hk hlt' (Nat.le_refl num)
      omega
    · obtain rfl : k = num := by omega
      omega
  rw [if_neg hnum]
  by_cases heq : first = last
  · rw [if_pos heq]
    exact ⟨rfl, fun h => absurd h hnum, fun _ _ => rfl, fun h => by omega, fun _ h => by omega⟩
  rw [if_neg heq]
  by_cases hexact : dport k = last
  · rw [if_pos hexact]
    refine ⟨rfl, fun h => absurd h hnum, fun _ h => absurd h heq, fun _ h => by omega,
      fun _ _ _ => ⟨Nat.le_refl k, hkn, hexact.le, fun j hj hjn => ?_⟩⟩
    rw [← hexact]
    exact hmono k j hk hj hjn
  rw [if_neg hexact]
  by_cases habove : last < dport k
  · rw [if_pos habove]
    exact ⟨rfl, fun h => absurd h hnum, fun _ h => absurd h heq, fun _ _ => rfl,
      fun _ _ h => by omega⟩
  rw [if_neg habove]
  -- on to the first port of at least `last`
  have hex : ∃ b, b ≤ num ∧ k < b ∧ last ≤ dport b := by
    refine ⟨num, Nat.le_refl num, ?_, not_lt.1 hnum⟩
    rcases lt_or_ge k num with h | h
    · exact h
    · obtain rfl : k = num := by omega
      omega
  classical
  obtain ⟨hbn, hkb, hlast⟩ := Nat.find_spec hex
  have hmin : ∀ j, k < j → j < Nat.find hex → dport j < last := fun j hj hjb => by
    by_contra hge
    exact Nat.find_min hex hjb ⟨by omega, hj, not_lt.1 hge⟩
  generalize Nat.find hex = b at hbn hkb hlast hmin
  have hrun : scan dport num first last (b - k - 1 + (num - b + 1)) (k + 1) k lastIdx =
      scan dport num first last (num - b + 1) (k + 1 + (b - k - 1)) k lastIdx :=
    scan_inside hk0 (b - k - 1) (num - b + 1) (k + 1)
      fun j hj hj' => hmin j (by omega) (by omega)
  have hfuel : b - k - 1 + (num - b + 1) = num - k := by omega
  have hidx : k + 1 + (b - k - 1) = b := by omega
  rw [hfuel, hidx] at hrun
  have hmiss : (k == 0) = false := by simpa using hk0
  rw [hrun, scan]
  simp only [hmiss, Bool.false_and, Bool.false_eq_true, if_false]
  by_cases hb : dport b = last
  · rw [if_pos hb]
    refine ⟨rfl, fun h => absurd h hnum, fun _ h => absurd h heq, fun _ h => absurd h habove,
      fun _ _ _ => ⟨by omega, hbn, hb.le, fun j hj hjn => ?_⟩⟩
    rw [← hb]
    exact hmono b j (by omega) hj hjn
  · rw [if_neg hb, if_pos (by omega), if_pos (by omega)]
    refine ⟨rfl, fun h => absurd h hnum, fun _ h => absurd h heq, fun _ h => absurd h habove,
      fun _ _ _ => ⟨by omega, by omega, ?_, fun j hj hjn => ?_⟩⟩
    · rcases lt_or_ge k (b - 1) with h | h
      · exact Nat.le_of_lt (hmin (b - 1) h (by omega))
      · obtain h : b - 1 = k := by omega
        rw [h]
        exact not_lt.1 habove
    · rcases lt_or_ge b j with h | h
      · have := hmono b j (by omega) h hjn
        omega
      · obtain rfl : j = b := by omega
        omega

end Scan

/-! ## One entry -/

section Entry

/-- The entry's ports are sorted and its last index is one of them. -/
structure EntryOk (e : DipSlot A) : Prop where
  mono : ∀ a b, 1 ≤ a → a < b → b ≤ e.num → e.dport a < e.dport b
  lastIdx_le : e.lastIdx ≤ e.num

/-- The entry has a port in the range. -/
def Owns (e : DipSlot A) (first last : Nat) : Prop :=
  ∃ k, 1 ≤ k ∧ k ≤ e.num ∧ first ≤ e.dport k ∧ e.dport k ≤ last

/-- `dport[first_idx..last_idx]` are exactly the entry's ports in the range. -/
def WindowExact (first last : Nat) (e : DipSlot A) : Prop :=
  ∀ p, (∃ k, e.firstIdx ≤ k ∧ k ≤ e.lastIdx ∧ e.dport k = p) ↔
    (∃ k, 1 ≤ k ∧ k ≤ e.num ∧ e.dport k = p) ∧ first ≤ p ∧ p ≤ last

/-- All ports of the entry are below the range, or some are and the range is not one port. -/
def FailsSafely (e : DipSlot A) (first last : Nat) : Prop :=
  (∀ k, 1 ≤ k → k ≤ e.num → e.dport k < first) ∨
    first < last ∧ ∃ k, 1 ≤ k ∧ k ≤ e.num ∧ e.dport k < first

variable {e e' : DipSlot A} {first last : Nat}

theorem EntryOk.le_of_le (h : EntryOk e) {a b : Nat} (ha : 1 ≤ a) (hab : a ≤ b) (hb : b ≤ e.num) :
    e.dport a ≤ e.dport b := by
  rcases lt_or_eq_of_le hab with hlt | rfl
  · exact Nat.le_of_lt (h.mono a b ha hlt hb)
  · exact le_rfl

/-- The index of the first port of at least `first`, if there is one. -/
theorem exists_first (h : ∃ k, 1 ≤ k ∧ k ≤ e.num ∧ first ≤ e.dport k) :
    ∃ k, 1 ≤ k ∧ k ≤ e.num ∧ first ≤ e.dport k ∧ ∀ j, 1 ≤ j → j < k → e.dport j < first := by
  classical
  obtain ⟨h1, hn, hf⟩ := Nat.find_spec h
  refine ⟨Nat.find h, h1, hn, hf, fun j hj hjk => ?_⟩
  by_contra hge
  exact Nat.find_min h hjk ⟨hj, by omega, not_lt.1 hge⟩

theorem restrictEntry_fst (first last : Nat) (e : DipSlot A) :
    (restrictEntry first last e).1 = true ↔
      (restrictEntry first last e).2.firstIdx ≠ 0 ∧
        (restrictEntry first last e).2.firstIdx ≤ (restrictEntry first last e).2.lastIdx := by
  simp [restrictEntry]

variable (hok : EntryOk e) (hle : first ≤ last)

include hok hle

theorem restrictEntry_entryOk : EntryOk (restrictEntry first last e).2 where
  mono := hok.mono
  lastIdx_le := by
    have hL := hok.lastIdx_le
    show (scan e.dport e.num first last e.num 1 0 e.lastIdx).2 ≤ e.num
    by_cases hex : ∃ k, 1 ≤ k ∧ k ≤ e.num ∧ first ≤ e.dport k
    · obtain ⟨k, hk, hkn, hf, hbelow⟩ := exists_first hex
      obtain ⟨-, h1, h2, h3, h4⟩ := scan_spec hle e.lastIdx hok.mono hk hkn hf hbelow
      rcases lt_or_ge (e.dport e.num) last with hnum | hnum
      · exact (h1 hnum).trans_le hL
      rcases lt_or_eq_of_le hle with hlt | heq
      · rcases lt_or_ge last (e.dport k) with habove | hbelow'
        · rw [h3 hlt habove]
          split <;> omega
        · exact (h4 hnum hlt hbelow').2.1
      · exact (h2 hnum heq).trans_le hkn
    · rw [scan_none hle e.lastIdx fun k hk hkn => by
        by_contra hge
        exact hex ⟨k, hk, hkn, not_lt.1 hge⟩]
      exact hL

omit hle in
/-- Indices around the range make an exact window. -/
theorem windowExact_of_bounds {k l : Nat} (hd : e'.dport = e.dport) (hn : e'.num = e.num)
    (hf : e'.firstIdx = k) (hl : e'.lastIdx = l) (hk : 1 ≤ k) (hln : l ≤ e.num)
    (hfirst : first ≤ e.dport k) (hbelow : ∀ j, 1 ≤ j → j < k → e.dport j < first)
    (hlast : e.dport l ≤ last) (habove : ∀ j, l < j → j ≤ e.num → last < e.dport j) :
    WindowExact first last e' := by
  intro p
  rw [hd, hn, hf, hl]
  constructor
  · rintro ⟨j, hj, hjl, rfl⟩
    have h1 := hok.le_of_le hk hj (by omega)
    have h2 := hok.le_of_le (by omega : 1 ≤ j) hjl hln
    exact ⟨⟨j, by omega, by omega, rfl⟩, by omega, by omega⟩
  · rintro ⟨⟨j, hj, hjn, rfl⟩, h1, h2⟩
    refine ⟨j, ?_, ?_, rfl⟩
    · by_contra hlt
      have := hbelow j hj (by omega)
      omega
    · by_contra hgt
      have := habove j (by omega) hjn
      omega

/-- **An owning entry** with a usable `last_idx` passes, with an exact window. -/
theorem restrictEntry_of_owns (howns : Owns e first last)
    (hfresh : e.dport e.num < last → e.lastIdx = e.num) :
    (restrictEntry first last e).1 = true ∧
      WindowExact first last (restrictEntry first last e).2 := by
  obtain ⟨k0, hk0, hk0n, hf0, hl0⟩ := howns
  obtain ⟨k, hk, hkn, hf, hbelow⟩ := exists_first ⟨k0, hk0, hk0n, hf0⟩
  have hkk0 : k ≤ k0 := by
    by_contra hlt
    have := hbelow k0 hk0 (by omega)
    omega
  have hkl : e.dport k ≤ last := Nat.le_trans (hok.le_of_le hk hkk0 hk0n) hl0
  obtain ⟨hr1, h1, h2, -, h4⟩ := scan_spec hle e.lastIdx hok.mono hk hkn hf hbelow
  -- the last index, in each of the three exits that remain
  have hr2 : k ≤ (scan e.dport e.num first last e.num 1 0 e.lastIdx).2 ∧
      (scan e.dport e.num first last e.num 1 0 e.lastIdx).2 ≤ e.num ∧
      e.dport (scan e.dport e.num first last e.num 1 0 e.lastIdx).2 ≤ last ∧
      ∀ j, (scan e.dport e.num first last e.num 1 0 e.lastIdx).2 < j → j ≤ e.num →
        last < e.dport j := by
    rcases lt_or_ge (e.dport e.num) last with hnum | hnum
    · rw [h1 hnum, hfresh hnum]
      exact ⟨hkn, le_rfl, hnum.le, fun j hj hjn => by omega⟩
    rcases lt_or_eq_of_le hle with hlt | heq
    · exact h4 hnum hlt hkl
    · rw [h2 hnum heq]
      refine ⟨Nat.le_refl k, hkn, hkl, fun j hj hjn => ?_⟩
      have := hok.mono k j hk hj hjn
      omega
  refine ⟨?_, windowExact_of_bounds hok rfl rfl hr1 rfl hk hr2.2.1 hf hbelow hr2.2.2.1
    hr2.2.2.2⟩
  rw [restrictEntry_fst]
  show (scan e.dport e.num first last e.num 1 0 e.lastIdx).1 ≠ 0 ∧
    (scan e.dport e.num first last e.num 1 0 e.lastIdx).1 ≤
      (scan e.dport e.num first last e.num 1 0 e.lastIdx).2
  rw [hr1]
  exact ⟨by omega, hr2.1⟩

/-- **A stale `last_idx`** makes an owning entry fail or cuts off its largest port. -/
theorem restrictEntry_stale (howns : Owns e first last) (hnum : e.dport e.num < last)
    (hstale : e.lastIdx ≠ e.num) :
    ¬((restrictEntry first last e).1 = true ∧
      WindowExact first last (restrictEntry first last e).2) := by
  rintro ⟨-, hexact⟩
  obtain ⟨k0, hk0, hk0n, hf0, -⟩ := howns
  obtain ⟨k, hk, hkn, hf, hbelow⟩ := exists_first ⟨k0, hk0, hk0n, hf0⟩
  obtain ⟨hr1, h1, -⟩ := scan_spec hle e.lastIdx hok.mono hk hkn hf hbelow
  have hmax := hok.le_of_le hk0 hk0n le_rfl
  obtain ⟨j, hkj, hj, hjp⟩ := (hexact (e.dport e.num)).2
    ⟨⟨e.num, by omega, le_rfl, rfl⟩, by omega, by omega⟩
  replace hkj : (scan e.dport e.num first last e.num 1 0 e.lastIdx).1 ≤ j := hkj
  replace hj : j ≤ (scan e.dport e.num first last e.num 1 0 e.lastIdx).2 := hj
  replace hjp : e.dport j = e.dport e.num := hjp
  have hL := hok.lastIdx_le
  have := hok.mono j e.num (by omega) (by omega) le_rfl
  omega

/-- **An entry without a port in the range** fails exactly when it `FailsSafely`. -/
theorem restrictEntry_of_not_owns (hnone : ¬Owns e first last) :
    (restrictEntry first last e).1 = false ↔ FailsSafely e first last := by
  rw [← Bool.not_eq_true, restrictEntry_fst]
  show ¬((scan e.dport e.num first last e.num 1 0 e.lastIdx).1 ≠ 0 ∧
    (scan e.dport e.num first last e.num 1 0 e.lastIdx).1 ≤
      (scan e.dport e.num first last e.num 1 0 e.lastIdx).2) ↔ _
  by_cases hex : ∃ k, 1 ≤ k ∧ k ≤ e.num ∧ first ≤ e.dport k
  · obtain ⟨k, hk, hkn, hf, hbelow⟩ := exists_first hex
    have habove : last < e.dport k := by
      by_contra hge
      exact hnone ⟨k, hk, hkn, hf, not_lt.1 hge⟩
    have hnum : last ≤ e.dport e.num :=
      habove.le.trans (hok.le_of_le hk hkn le_rfl)
    obtain ⟨hr1, -, h2, h3, -⟩ := scan_spec hle e.lastIdx hok.mono hk hkn hf hbelow
    have hsome : ¬∀ j, 1 ≤ j → j ≤ e.num → e.dport j < first := fun hall => by
      have := hall k hk hkn
      omega
    rcases lt_or_eq_of_le hle with hlt | heq
    · rw [hr1, h3 hlt habove]
      by_cases hk1 : 1 < k
      · -- a port below the range precedes index `k`
        rw [if_pos hk1]
        refine ⟨fun _ => .inr ⟨hlt, 1, by omega, by omega, hbelow 1 (by omega) hk1⟩,
          fun _ => by omega⟩
      · rw [if_neg hk1]
        refine ⟨fun h => absurd ⟨by omega, Nat.le_refl k⟩ h, ?_⟩
        rintro (hall | ⟨-, j, hj, hjn, hlow⟩)
        · exact absurd hall hsome
        · have := hok.le_of_le hk (by omega : k ≤ j) hjn
          omega
    · rw [hr1, h2 hnum heq]
      refine ⟨fun h => absurd ⟨by omega, Nat.le_refl k⟩ h, ?_⟩
      rintro (hall | ⟨hlt, -⟩)
      · exact absurd hall hsome
      · omega
  · have hall : ∀ k, 1 ≤ k → k ≤ e.num → e.dport k < first := fun k hk hkn => by
      by_contra hge
      exact hex ⟨k, hk, hkn, not_lt.1 hge⟩
    rw [scan_none hle e.lastIdx hall]
    exact ⟨fun _ => .inl hall, fun _ h => h.1 rfl⟩

omit hok hle in
theorem window_subset {e₁ : DipSlot A} (e₂ : DipSlot A) (h₁ : EntryOk e₁) (hd : e₂.dport = e₁.dport)
    (hw₁ : WindowExact first last e₁) (hw₂ : WindowExact first last e₂) (hn : e₂.num = e₁.num)
    (hi₁ : 1 ≤ e₁.firstIdx ∧ e₁.firstIdx ≤ e₁.lastIdx) (hi₂ : 1 ≤ e₂.firstIdx)
    (hl₂ : e₂.lastIdx ≤ e₂.num) : e₂.firstIdx ≤ e₁.firstIdx ∧ e₁.lastIdx ≤ e₂.lastIdx := by
  have hl₁ := h₁.lastIdx_le
  -- each end of the first window is a port of the second
  have key : ∀ k, e₁.firstIdx ≤ k → k ≤ e₁.lastIdx → e₂.firstIdx ≤ k ∧ k ≤ e₂.lastIdx := by
    intro k hk hkl
    obtain ⟨j, hj, hjl, hjp⟩ := (hw₂ (e₁.dport k)).2
      (by rw [hd, hn]; exact (hw₁ (e₁.dport k)).1 ⟨k, hk, hkl, rfl⟩)
    rw [hd] at hjp
    rcases lt_trichotomy j k with hlt | rfl | hgt
    · have := h₁.mono j k (by omega) hlt (by omega)
      omega
    · exact ⟨hj, hjl⟩
    · have := h₁.mono k j (by omega) hgt (by omega)
      omega
  exact ⟨(key e₁.firstIdx le_rfl hi₁.2).1, (key e₁.lastIdx hi₁.2 le_rfl).2⟩

/-- What a restriction to a range leaves does not depend on `last_idx` before, once it passes with
an exact window. -/
theorem restrictEntry_unique (hok' : EntryOk e') (hd : e'.dport = e.dport) (hn : e'.num = e.num)
    (hp : (restrictEntry first last e).1 = true ∧ WindowExact first last (restrictEntry first last e).2)
    (hp' : (restrictEntry first last e').1 = true ∧ WindowExact first last (restrictEntry first last e').2)
    : (restrictEntry first last e').2.firstIdx = (restrictEntry first last e).2.firstIdx ∧
      (restrictEntry first last e').2.lastIdx = (restrictEntry first last e).2.lastIdx := by
  have hr := restrictEntry_entryOk hok hle
  have hr' := restrictEntry_entryOk hok' hle
  obtain ⟨h0, hi⟩ := (restrictEntry_fst first last e).1 hp.1
  obtain ⟨h0', hi'⟩ := (restrictEntry_fst first last e').1 hp'.1
  have h₁ := window_subset (restrictEntry first last e').2 hr hd hp.2 hp'.2 hn
    ⟨by omega, hi⟩ (by omega) hr'.lastIdx_le
  have h₂ := window_subset (restrictEntry first last e).2 hr' hd.symm hp'.2 hp.2 hn.symm
    ⟨by omega, hi'⟩ (by omega) hr.lastIdx_le
  omega

end Entry

/-! ## The whole table -/

section

variable (T : RssTbl A)

/-- The second-level slot `p`. -/
def dipAt (p : Nat × Nat) : DipSlot A := (T p.1).dipTbl p.2

theorem dipAt_setDip_self (p : Nat × Nat) (e : DipSlot A) :
    dipAt (setDip T p.1 p.2 e) p = e := by
  simp [dipAt, setDip]

theorem dipAt_setDip_of_ne {q : Nat × Nat} (e : DipSlot A) (h : q ≠ p) :
    dipAt (setDip T p.1 p.2 e) q = dipAt T q := by
  unfold dipAt setDip
  by_cases h1 : q.1 = p.1
  · have h2 : q.2 ≠ p.2 := fun h2 => h (Prod.ext h1 h2)
    simp [h1, update_of_ne h2]
  · simp [update_of_ne h1]

/-- `T'` has the same entries with the same ports as `T`. -/
structure SameTable (T T' : RssTbl A) : Prop where
  saddr : ∀ i, (T' i).saddr = (T i).saddr
  sport : ∀ i, (T' i).sport = (T i).sport
  daddr : ∀ p, (dipAt T' p).daddr = (dipAt T p).daddr
  num : ∀ p, (dipAt T' p).num = (dipAt T p).num
  dport : ∀ p, (dipAt T' p).dport = (dipAt T p).dport

theorem SameTable.refl : SameTable T T :=
  ⟨fun _ => rfl, fun _ => rfl, fun _ => rfl, fun _ => rfl, fun _ => rfl⟩

theorem SameTable.trans {T T' T'' : RssTbl A} (h : SameTable T T') (h' : SameTable T' T'') :
    SameTable T T'' :=
  ⟨fun i => (h'.saddr i).trans (h.saddr i), fun i => (h'.sport i).trans (h.sport i),
    fun p => (h'.daddr p).trans (h.daddr p), fun p => (h'.num p).trans (h.num p),
    fun p => (h'.dport p).trans (h.dport p)⟩

/-- The table with the entry of one slot restricted. -/
def restricted (first last : Nat) (T : RssTbl A) (p : Nat × Nat) : RssTbl A :=
  setDip T p.1 p.2 (restrictEntry first last (dipAt T p)).2

theorem dipAt_restricted (p q : Nat × Nat) : dipAt (restricted first last T p) q =
    if q = p then (restrictEntry first last (dipAt T p)).2 else dipAt T q := by
  split
  next h =>
    rw [h]
    exact dipAt_setDip_self T p _
  next h => exact dipAt_setDip_of_ne T _ h

end

theorem sameTable_restricted (first last : Nat) (T : RssTbl A) (p : Nat × Nat) :
    SameTable T (restricted first last T p) := by
  have hgroup : ∀ i, (restricted first last T p i).saddr = (T i).saddr ∧
      (restricted first last T p i).sport = (T i).sport := by
    intro i
    unfold restricted setDip
    by_cases h : i = p.1
    · simp [h]
    · simp [update_of_ne h]
  refine ⟨fun i => (hgroup i).1, fun i => (hgroup i).2, ?_, ?_, ?_⟩ <;>
  · intro q
    rw [dipAt_restricted]
    split
    next h =>
      rw [h]
      rfl
    · rfl

variable [DecidableEq A]

theorem SameTable.isEntry {T T' : RssTbl A} (h : SameTable T T') (p : Nat × Nat) :
    isEntry F T' p = isEntry F T p := by
  have hd : ((T' p.1).dipTbl p.2).daddr = ((T p.1).dipTbl p.2).daddr := h.daddr p
  rw [Rss.isEntry, Rss.isEntry, h.saddr, hd]

variable (F first last) in
/-- **The two loops**: they return 0 iff every entry passes, and then every entry is restricted;
in any case each slot is as before or restricted. -/
theorem restrictSlots_spec : ∀ {ps : List (Nat × Nat)} (T : RssTbl A), ps.Nodup →
    let r := restrictSlots F first last ps T
    (r.1 = 0 ↔ ∀ p ∈ ps, isEntry F T p = true → (restrictEntry first last (dipAt T p)).1 = true) ∧
    (r.1 = 0 → ∀ p ∈ ps, isEntry F T p = true →
      dipAt r.2 p = (restrictEntry first last (dipAt T p)).2) ∧
    (∀ p, dipAt r.2 p = dipAt T p ∨ dipAt r.2 p = (restrictEntry first last (dipAt T p)).2) ∧
    (∀ p, p ∉ ps → dipAt r.2 p = dipAt T p) ∧ SameTable T r.2
  | [], T, _ => by simp [restrictSlots, SameTable.refl]
  | p :: ps, T, hnd => by
    obtain ⟨hp, hnd⟩ := nodup_cons.1 hnd
    have hcons : restrictSlots F first last (p :: ps) T = if isEntry F T p then
        if (restrictEntry first last (dipAt T p)).1 then
          restrictSlots F first last ps (restricted first last T p)
        else (-1, restricted first last T p)
      else restrictSlots F first last ps T := rfl
    rw [hcons]
    by_cases hent : isEntry F T p = true
    · have hsame := sameTable_restricted first last T p
      have hself : dipAt (restricted first last T p) p = _ :=
        (dipAt_restricted T p p).trans (if_pos rfl)
      have hother : ∀ q, q ≠ p → dipAt (restricted first last T p) q = dipAt T q :=
        fun q hq => (dipAt_restricted T p q).trans (if_neg hq)
      rw [if_pos hent]
      by_cases hpass : (restrictEntry first last (dipAt T p)).1 = true
      · rw [if_pos hpass]
        obtain ⟨h1, h2, h3, h4, h5⟩ := restrictSlots_spec (restricted first last T p) hnd
        -- for the slots that follow, the table is the one before
        have htail : ∀ q ∈ ps, isEntry F (restricted first last T p) q = isEntry F T q ∧
            dipAt (restricted first last T p) q = dipAt T q :=
          fun q hq => ⟨hsame.isEntry q, hother q fun hqp => hp (hqp ▸ hq)⟩
        refine ⟨h1.trans ?_, fun hz => forall_mem_cons.2 ⟨fun _ => ?_, fun q hq hqe => ?_⟩,
          fun q => ?_, fun q hq => ?_, hsame.trans h5⟩
        · rw [forall_mem_cons, and_iff_right fun _ => hpass]
          exact forall₂_congr fun q hq => by rw [(htail q hq).1, (htail q hq).2]
        · rw [h4 p hp, hself]
        · rw [← (htail q hq).2]
          exact h2 hz q hq ((htail q hq).1.trans hqe)
        · by_cases hqp : q = p
          · rw [hqp, h4 p hp]
            exact .inr hself
          · rw [← hother q hqp]
            exact h3 q
        · exact (h4 q (not_mem_of_not_mem_cons hq)).trans (hother q (ne_of_not_mem_cons hq))
      · rw [if_neg hpass]
        refine ⟨iff_of_false nofun fun h => hpass (h p mem_cons_self hent), nofun, fun q => ?_,
          fun q hq => hother q (ne_of_not_mem_cons hq), hsame⟩
        by_cases hqp : q = p
        · rw [hqp]
          exact .inr hself
        · exact .inl (hother q hqp)
    · rw [if_neg hent]
      obtain ⟨h1, h2, h3, h4, h5⟩ := restrictSlots_spec T hnd
      refine ⟨h1.trans ?_, fun hz => forall_mem_cons.2 ⟨fun h => absurd h hent, h2 hz⟩, h3,
        fun q hq => h4 q (not_mem_of_not_mem_cons hq), h5⟩
      rw [forall_mem_cons, and_iff_right fun h => absurd h hent]

theorem restrictSlots_ret : ∀ (ps : List (Nat × Nat)) (T : RssTbl A),
    (restrictSlots F first last ps T).1 = 0 ∨ (restrictSlots F first last ps T).1 = -1
  | [], _ => .inl rfl
  | p :: ps, T => by
    unfold restrictSlots
    split
    · dsimp only
      split
      · exact restrictSlots_ret ps _
      · exact .inr rfl
    · exact restrictSlots_ret ps T

theorem mem_slots : p ∈ slots ↔ p.1 < maxSaddrSport ∧ p.2 < maxDaddr := by
  obtain ⟨i, j⟩ := p
  simp [slots]

theorem slots_nodup : slots.Nodup := by decide

end FStack.Rss
