import Mathlib.Algebra.Group.Nat.Defs
import Mathlib.Data.List.Nodup

/-!
# The pages of the stack

The area that `ff_mmap_init` maps, its pages and their physical addresses
(`lib/ff_memory.c:100-156, 228-309`). `posix_memalign` finds memory, `rte_mem_virt2phy` finds every
page, and a mapping lies in the first half of the addresses.

`ff_chk_vma` takes the first byte of the area for one outside (`pages_iff`).
-/

namespace FStack.Tx.Pages

open List

/-- `mem_size << 20`, an `int`, as the `uint64_t` it is converted to. -/
def bsdMemsz (memSize : BitVec 32) : Nat := ((memSize <<< 20).signExtend 64).toNat

/-- The number of pages, an `unsigned`. -/
def bsdPagesz (memSize : BitVec 32) : Nat := bsdMemsz memSize / 4096 % 2 ^ 32

/-- What `mmap` returns. -/
structure Mapping (len : Nat) where
  start : Nat
  aligned : start % 4096 = 0
  fits : start + len ≤ 2 ^ 63

/-- The three structures: the bounds, the table and the stack, from its top. -/
structure Area where
  start : Nat
  stop : Nat
  size : Nat
  phy : Nat → Nat
  ele : List Nat

/-- The addresses that the loop of `ff_mmap_init` goes through. -/
def Mapping.pages {memSize : BitVec 32} (m : Mapping (bsdMemsz memSize)) : List Nat :=
  (range (bsdPagesz memSize)).map (m.start + 4096 * ·)

/-- `stklist_push`. -/
def stklistPush (size : Nat) (ele : List Nat) (val : Nat) : List Nat :=
  if ele.length < size then val :: ele else ele

/-- `ff_mmap_init`; `rteVirt2phy` is what `rte_mem_virt2phy` returns. -/
def ffMmapInit {memSize : BitVec 32} (m : Mapping (bsdMemsz memSize)) (rteVirt2phy : Nat → Nat) :
    Area where
  start := m.start
  stop := m.start + bsdMemsz memSize
  size := bsdPagesz memSize
  phy i := rteVirt2phy (m.start + 4096 * i)
  ele := m.pages.foldl (stklistPush (bsdPagesz memSize)) []

/-- `ff_chk_vma`. -/
def ffChkVma (a : Area) (virtaddr : Nat) : Bool := a.start < virtaddr && virtaddr < a.stop

/-- `ff_mem_virt2phy`, `none` where it panics. -/
def ffMemVirt2phy (a : Area) (virtaddr : Nat) : Option Nat :=
  let pages := (virtaddr + 2 ^ 64 - a.start) % 2 ^ 64 / 4096 % 2 ^ 32
  if a.size ≤ pages then none else some ((a.phy pages + virtaddr % 4096) % 2 ^ 64)

/-- `ff_mem_get_page` and `ff_mem_free_addr`. -/
inductive Call where
  | getPage
  | freeAddr (p : Nat)

/-- A call, with the pages that are out. Only these are freed. -/
def step : Area × List Nat → Call → Area × List Nat
  | (a, out), .getPage =>
    match a.ele with
    | [] => (a, out)
    | p :: ele => ({ a with ele }, p :: out)
  | (a, out), .freeAddr p =>
    if p ∈ out then ({ a with ele := stklistPush a.size a.ele p }, out.erase p) else (a, out)

theorem foldl_stklistPush {size : Nat} {vals ele : List Nat} (h : vals.length + ele.length ≤ size) :
    vals.foldl (stklistPush size) ele = vals.reverse ++ ele := by
  induction vals generalizing ele with
  | nil => rfl
  | cons val vals ih =>
    rw [length_cons] at h
    rw [foldl_cons, stklistPush, if_pos (by omega), ih (by rw [length_cons]; omega)]
    simp

variable {memSize : BitVec 32} (m : Mapping (bsdMemsz memSize)) (rteVirt2phy : Nat → Nat)

/-- After some calls every page is free or out. -/
structure Kept (s : Area × List Nat) : Prop where
  same : ∃ ele, s.1 = { ffMmapInit m rteVirt2phy with ele }
  perm : (s.2 ++ s.1.ele).Perm m.pages

theorem kept_init : Kept m rteVirt2phy (ffMmapInit m rteVirt2phy, []) := by
  refine ⟨⟨_, rfl⟩, ?_⟩
  show (foldl _ [] _).Perm _
  rw [foldl_stklistPush (by simp [Mapping.pages]), append_nil]
  exact reverse_perm _

variable {m rteVirt2phy} {s : Area × List Nat}

theorem Kept.step (h : Kept m rteVirt2phy s) (c : Call) : Kept m rteVirt2phy (step s c) := by
  obtain ⟨a, out⟩ := s
  obtain ⟨⟨ele, rfl⟩, hperm⟩ := h
  cases c with
  | getPage =>
    cases ele with
    | nil => exact ⟨⟨_, rfl⟩, hperm⟩
    | cons p ele => exact ⟨⟨_, rfl⟩, perm_middle.symm.trans hperm⟩
  | freeAddr p =>
    simp only [Pages.step]
    split
    next hp =>
      have hback : (out.erase p ++ p :: ele).Perm (out ++ ele) :=
        perm_middle.trans ((perm_cons_erase hp).symm.append_right _)
      have hlen := (hback.trans hperm).length_eq
      have hroom : ele.length < (ffMmapInit m rteVirt2phy).size := by
        simp [Mapping.pages] at hlen
        show _ < bsdPagesz memSize
        omega
      rw [stklistPush, if_pos hroom]
      exact ⟨⟨_, rfl⟩, hback.trans hperm⟩
    · exact ⟨⟨_, rfl⟩, hperm⟩

variable (m rteVirt2phy)

include m in
theorem memsz_eq : bsdMemsz memSize = 4096 * bsdPagesz memSize := by
  have hfits := m.fits
  -- a negative size would be one of almost 2^64 bytes
  have hsz : bsdMemsz memSize =
      memSize.toNat * 2 ^ 20 % 2 ^ 32 + if (memSize <<< 20).msb then 2 ^ 64 - 2 ^ 32 else 0 := by
    rw [bsdMemsz, BitVec.toNat_signExtend, BitVec.toNat_setWidth, BitVec.toNat_shiftLeft,
      Nat.shiftLeft_eq]
    omega
  unfold bsdPagesz
  split at hsz <;> omega

/-- **When the pages are right.** Whatever the calls, every page is free or out, and once. Of the
addresses in the pages that are out, `ff_mem_virt2phy` gives what it should; `ff_chk_vma` knows all
of them if the first page of the area, which goes last, is not out, and only then. -/
theorem pages_iff (calls : List Call) :
    let s := calls.foldl step (ffMmapInit m rteVirt2phy, [])
    (s.2 ++ s.1.ele).Nodup ∧ s.2.length + s.1.ele.length = bsdMemsz memSize / 4096 ∧
      (∀ v, v < m.start ∨ m.start + bsdMemsz memSize ≤ v → ffChkVma s.1 v = false) ∧
      (∀ p ∈ s.2, ∀ v, p ≤ v → v < p + 4096 →
        ffMemVirt2phy s.1 v = some ((rteVirt2phy p + (v - p)) % 2 ^ 64)) ∧
      ((∀ p ∈ s.2, ∀ v, p ≤ v → v < p + 4096 → ffChkVma s.1 v = true) ↔ m.start ∉ s.2) := by
  intro s
  obtain ⟨⟨ele, hs⟩, hperm⟩ : Kept m rteVirt2phy s :=
    foldlRecOn calls step (kept_init m rteVirt2phy) fun _ h c _ => h.step c
  have hsz := memsz_eq m
  have hlt : bsdPagesz memSize < 2 ^ 32 := Nat.mod_lt _ (by decide)
  have hal := m.aligned
  have hpage (p : Nat) (hp : p ∈ s.2) : ∃ i < bsdPagesz memSize, p = m.start + 4096 * i := by
    have := hperm.subset (mem_append_left _ hp)
    simpa [Mapping.pages, eq_comm] using this
  refine ⟨hperm.nodup_iff.mpr ?_, ?_, ?_, ?_, ?_⟩
  · refine nodup_range.map fun i j h => ?_
    omega
  · have := hperm.length_eq
    simp [Mapping.pages] at this
    omega
  · intro v hv
    simp [ffChkVma, hs, ffMmapInit]
    omega
  · intro p hp v hv hv'
    obtain ⟨i, hi, rfl⟩ := hpage p hp
    have hidx : (v + 2 ^ 64 - m.start) % 2 ^ 64 / 4096 % 2 ^ 32 = i := by omega
    have hoff : v % 4096 = v - (m.start + 4096 * i) := by omega
    simp only [ffMemVirt2phy, hs, ffMmapInit, hidx, hoff, if_neg (Nat.not_le.mpr hi)]
  · constructor
    · intro h hp
      have := h _ hp m.start (by omega) (by omega)
      simp [ffChkVma, hs, ffMmapInit] at this
    · intro h p hp v hv hv'
      obtain ⟨i, hi, rfl⟩ := hpage p hp
      have hne : i ≠ 0 := by
        rintro rfl
        exact h hp
      simp [ffChkVma, hs, ffMmapInit]
      omega

/-- A megabyte at the address 4096, and all of it handed out. -/
theorem not_pages : ∃ (m : Mapping (bsdMemsz 1)) (calls : List Call),
    let s := calls.foldl step (ffMmapInit m id, [])
    m.start ∈ s.2 ∧ ffChkVma s.1 m.start = false :=
  ⟨⟨4096, rfl, by decide⟩, replicate 256 .getPage, by decide +kernel⟩

end FStack.Tx.Pages
