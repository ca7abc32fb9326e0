import FStack.MicroThread.Heap
import Mathlib.Data.Fintype.Card

/-!
# Micro threads: what the heap's operations do

In every heap that the operations make, the entries know their positions (`Indexed`). An operation
that is not the deletion of an entry from the middle keeps the order as well, and `HeapDelete` does
exactly if the last entry is not before the one above the place that it takes
(`ordered_takeAt_iff`).
-/

namespace FStack.MicroThread.HeapList

open Function FStack.Lib.Heap

variable {ι : Type} {h : HeapList ι} {pos i : Nat} {item g e e' : ι}

/-- There is an entry at every position up to the last one, and it knows its position. -/
def Aligned (h : HeapList ι) : Prop :=
  ∀ pos, 0 < pos → pos ≤ h.count → ∃ e, h.list pos = some e ∧ h.index e = pos

/-- The entries know their positions, and those outside that they are outside. -/
structure Indexed (h : HeapList ι) : Prop where
  aligned : h.Aligned
  outside : ∀ e, ¬h.Stored e → h.index e = 0

/-- The entries are a minimum heap. -/
def Sorted (h : HeapList ι) : Prop := Ordered h.count h.valueAt

theorem Aligned.index_eq (ha : h.Aligned) (hpos : 0 < pos) (hle : pos ≤ h.count)
    (he : h.list pos = some e) : h.index e = pos := by
  obtain ⟨e', he', hindex⟩ := ha pos hpos hle
  rw [he, Option.some_inj] at he'
  rw [he', hindex]

theorem Aligned.of_stored (ha : h.Aligned) (hs : h.Stored e) :
    0 < h.index e ∧ h.index e ≤ h.count ∧ h.list (h.index e) = some e := by
  obtain ⟨pos, hpos, hle, he⟩ := hs
  rw [ha.index_eq hpos hle he]
  exact ⟨hpos, hle, he⟩

theorem Indexed.stored_iff (hi : h.Indexed) : h.Stored e ↔ h.index e ≠ 0 := by
  refine ⟨fun hs => Nat.ne_of_gt (hi.aligned.of_stored hs).1, fun hne => ?_⟩
  by_contra hs
  exact hne (hi.outside e hs)

theorem valueAt_of_list (he : h.list pos = some e) : h.valueAt pos = h.value e := by
  simp [valueAt, he]

/-- The first entry has the least value. -/
theorem Sorted.root_le (hs : h.Sorted) {root : ι} (hroot : h.list 1 = some root) (he : h.Stored e) :
    h.value root ≤ h.value e := by
  obtain ⟨pos, hpos, hle, he⟩ := he
  rw [← valueAt_of_list hroot, ← valueAt_of_list he]
  exact Ordered.root_le hs hpos hle

/-- There are at most as many positions as there are entries that may be in the heap. -/
theorem Aligned.count_le_card (ha : h.Aligned) {S : Finset ι} (hS : ∀ e, h.Stored e → e ∈ S) :
    h.count ≤ S.card := by
  have hlt (i : Fin h.count) : i.val + 1 ≤ h.count := i.isLt
  choose e he hindex using fun i : Fin h.count => ha (i.val + 1) (Nat.succ_pos _) (hlt i)
  have hcard := Finset.card_le_card_of_injOn (s := Finset.univ) e
    (fun i _ => hS _ ⟨i.val + 1, Nat.succ_pos _, hlt i, he i⟩) fun i _ j _ hij => by
      have hval : i.val + 1 = j.val + 1 := by rw [← hindex i, ← hindex j, hij]
      exact Fin.ext (Nat.succ.inj hval)
  rwa [Finset.card_univ, Fintype.card_fin] at hcard

/-! ## Exchanges -/

/-- The same entries, at other positions. -/
structure Sifted (h h' : HeapList ι) : Prop where
  count_eq : h'.count = h.count
  value_eq : h'.value = h.value
  aligned : h'.Aligned
  stored : ∀ e, h'.Stored e ↔ h.Stored e
  index_eq : ∀ e, ¬h.Stored e → h'.index e = h.index e

theorem Sifted.refl (ha : h.Aligned) : Sifted h h :=
  ⟨rfl, rfl, ha, fun _ => Iff.rfl, fun _ _ => rfl⟩

theorem Sifted.trans {h' h'' : HeapList ι} (h₁ : Sifted h h') (h₂ : Sifted h' h'') :
    Sifted h h'' where
  count_eq := h₂.count_eq.trans h₁.count_eq
  value_eq := h₂.value_eq.trans h₁.value_eq
  aligned := h₂.aligned
  stored e := (h₂.stored e).trans (h₁.stored e)
  index_eq e he := (h₂.index_eq e (mt (h₁.stored e).1 he)).trans (h₁.index_eq e he)

variable [DecidableEq ι]

theorem sifted_exchange {p q : Nat} (ha : h.Aligned) (hne : p ≠ q) (hp : 0 < p) (hpn : p ≤ h.count)
    (hq : 0 < q) (hqn : q ≤ h.count) : Sifted h (h.exchange p q) := by
  obtain ⟨e, he, hie⟩ := ha p hp hpn
  obtain ⟨f, hf, hif⟩ := ha q hq hqn
  have hlist := h.exchange_list p q
  have hlp : (h.exchange p q).list p = some f := by
    rw [hlist, comp, Equiv.swap_apply_left, hf]
  have hlq : (h.exchange p q).list q = some e := by
    rw [hlist, comp, Equiv.swap_apply_right, he]
  have hindex : (h.exchange p q).index = update (update h.index f p) e q := by
    unfold exchange at hlp hlq ⊢
    rw [setIndexAt_list] at hlp hlq
    rw [setIndexAt_index hlq]
    rw [setIndexAt_list] at hlp
    rw [setIndexAt_index hlp]
  have hef : f ≠ e := fun heq => hne (by rw [← hie, ← hif, heq])
  -- An exchange maps the positions of the heap to themselves.
  have hrange : ∀ pos, 0 < pos → pos ≤ h.count →
      0 < Equiv.swap p q pos ∧ Equiv.swap p q pos ≤ h.count := by
    intro pos hpos hle
    rw [Equiv.swap_apply_def]
    split
    · exact ⟨hq, hqn⟩
    · split
      · exact ⟨hp, hpn⟩
      · exact ⟨hpos, hle⟩
  refine ⟨exchange_count .., exchange_value .., ?_, ?_, ?_⟩
  · intro pos hpos hle
    rw [exchange_count] at hle
    by_cases hpp : pos = p
    · exact ⟨f, hpp ▸ hlp, by rw [hindex, update_of_ne hef, update_self, hpp]⟩
    by_cases hpq : pos = q
    · exact ⟨e, hpq ▸ hlq, by rw [hindex, update_self, hpq]⟩
    obtain ⟨g, hg, hig⟩ := ha pos hpos hle
    refine ⟨g, ?_, ?_⟩
    · rw [hlist, comp, Equiv.swap_apply_of_ne_of_ne hpp hpq, hg]
    · have hge : g ≠ e := fun heq => hpp (by rw [← hig, ← hie, heq])
      have hgf : g ≠ f := fun heq => hpq (by rw [← hig, ← hif, heq])
      rw [hindex, update_of_ne hge, update_of_ne hgf, hig]
  · intro g
    constructor
    · rintro ⟨pos, hpos, hle, hg⟩
      rw [exchange_count] at hle
      rw [hlist] at hg
      exact ⟨_, (hrange pos hpos hle).1, (hrange pos hpos hle).2, hg⟩
    · rintro ⟨pos, hpos, hle, hg⟩
      refine ⟨_, (hrange pos hpos hle).1, ?_, ?_⟩
      · rw [exchange_count]
        exact (hrange pos hpos hle).2
      · rw [hlist, comp, Equiv.swap_apply_self, hg]
  · intro g hg
    have hge : g ≠ e := fun heq => hg ⟨p, hp, hpn, heq ▸ he⟩
    have hgf : g ≠ f := fun heq => hg ⟨q, hq, hqn, heq ▸ hf⟩
    rw [hindex, update_of_ne hge, update_of_ne hgf]

theorem setIndexAt_max (h : HeapList ι) (pos : Nat) : (h.setIndexAt pos).max = h.max := by
  unfold setIndexAt
  split <;> rfl

theorem exchange_max (h : HeapList ι) (p q : Nat) : (h.exchange p q).max = h.max := by
  simp only [exchange, setIndexAt_max]

/-! ## Up and down -/

theorem sifted_heapUp (ha : h.Aligned) (hpos : 0 < pos) (hle : pos ≤ h.count) :
    Sifted h (h.heapUp pos) := by
  induction h, pos using heapUp.induct with
  | case1 h pos htop =>
    rw [heapUp, if_pos htop]
    exact Sifted.refl ha
  | case2 h pos htop hlt ih =>
    rw [heapUp, if_neg htop, if_pos hlt]
    have hexchange :=
      sifted_exchange ha (show pos ≠ pos / 2 by omega) hpos hle (by omega) (by omega)
    exact hexchange.trans (ih hexchange.aligned (by omega) (by rw [exchange_count]; omega))
  | case3 h pos htop hlt =>
    rw [heapUp, if_neg htop, if_neg hlt]
    exact Sifted.refl ha

theorem heapUp_max (h : HeapList ι) (pos : Nat) : (h.heapUp pos).max = h.max := by
  induction h, pos using heapUp.induct with
  | case1 h pos htop => rw [heapUp, if_pos htop]
  | case2 h pos htop hlt ih => rw [heapUp, if_neg htop, if_pos hlt, ih, exchange_max]
  | case3 h pos htop hlt => rw [heapUp, if_neg htop, if_neg hlt]

theorem sorted_heapUp (hup : UpOrder h.count h.valueAt pos) (hle : pos ≤ h.count) :
    (h.heapUp pos).Sorted := by
  induction h, pos using heapUp.induct with
  | case1 h pos htop =>
    rw [heapUp, if_pos htop]
    exact hup.stop fun hpos => by omega
  | case2 h pos htop hlt ih =>
    rw [heapUp, if_neg htop, if_pos hlt]
    refine ih ?_ (by rw [exchange_count]; omega)
    rw [exchange_count, exchange_valueAt]
    exact hup.swap (by omega) hle hlt.le
  | case3 h pos htop hlt =>
    rw [heapUp, if_neg htop, if_neg hlt]
    exact hup.stop fun _ => not_lt.1 hlt

omit [DecidableEq ι] in
theorem minSon_half (h : HeapList ι) (pos : Nat) : h.minSon pos / 2 = pos := by
  unfold minSon
  split
  · omega
  · split <;> omega

omit [DecidableEq ι] in
theorem valueAt_minSon_le (hi : i ≤ h.count) (hson : i / 2 = pos) :
    h.valueAt (h.minSon pos) ≤ h.valueAt i := by
  have hcases : i = pos * 2 ∨ i = pos * 2 + 1 := by omega
  unfold minSon
  split
  · have heq : i = pos * 2 := by omega
    rw [heq]
  · obtain rfl | rfl := hcases
    · split
      next hlt => exact Nat.le_of_lt hlt
      · exact le_rfl
    · split
      · exact le_rfl
      next hlt => exact not_lt.1 hlt

theorem sifted_heapDown (ha : h.Aligned) (hpos : 0 < pos) : Sifted h (h.heapDown pos) := by
  induction h, pos using heapDown.induct with
  | case1 h pos hout =>
    rw [heapDown, if_pos hout]
    exact Sifted.refl ha
  | case2 h pos hout hleaf =>
    rw [heapDown, if_neg hout, if_pos hleaf]
    exact Sifted.refl ha
  | case3 h pos hout hleaf hlt ih =>
    rw [heapDown, if_neg hout, if_neg hleaf, if_pos hlt]
    have hge := h.minSon_ge pos
    have hle : h.minSon pos ≤ h.count := minSon_le (by omega)
    have hexchange :=
      sifted_exchange ha (show pos ≠ h.minSon pos by omega) hpos (by omega) (by omega) hle
    exact hexchange.trans (ih hexchange.aligned (by omega))
  | case4 h pos hout hleaf hlt =>
    rw [heapDown, if_neg hout, if_neg hleaf, if_neg hlt]
    exact Sifted.refl ha

theorem heapDown_max (h : HeapList ι) (pos : Nat) : (h.heapDown pos).max = h.max := by
  induction h, pos using heapDown.induct with
  | case1 h pos hout => rw [heapDown, if_pos hout]
  | case2 h pos hout hleaf => rw [heapDown, if_neg hout, if_pos hleaf]
  | case3 h pos hout hleaf hlt ih =>
    rw [heapDown, if_neg hout, if_neg hleaf, if_pos hlt, ih, exchange_max]
  | case4 h pos hout hleaf hlt => rw [heapDown, if_neg hout, if_neg hleaf, if_neg hlt]

theorem sorted_heapDown (hdown : DownOrder h.count h.valueAt pos) (hpos : 0 < pos) :
    (h.heapDown pos).Sorted := by
  induction h, pos using heapDown.induct with
  | case1 h pos hout =>
    rw [heapDown, if_pos hout]
    exact hdown.stop fun i _ _ _ => by omega
  | case2 h pos hout hleaf =>
    rw [heapDown, if_neg hout, if_pos hleaf]
    exact hdown.stop fun i _ _ _ => by omega
  | case3 h pos hout hleaf hlt ih =>
    rw [heapDown, if_neg hout, if_neg hleaf, if_pos hlt]
    have hge := h.minSon_ge pos
    refine ih ?_ (by omega)
    rw [exchange_count, exchange_valueAt]
    exact hdown.swap (by omega) (h.minSon_half pos) (fun i _ hi hson => valueAt_minSon_le hi hson)
      (minSon_le (by omega)) hlt.le
  | case4 h pos hout hleaf hlt =>
    rw [heapDown, if_neg hout, if_neg hleaf, if_neg hlt]
    exact hdown.stop fun i _ hi hson => (not_lt.1 hlt).trans (valueAt_minSon_le hi hson)

/-- An entry that is in order with those below it stays. -/
theorem heapDown_of_le (hle : ∀ i ≤ h.count, i / 2 = pos → h.valueAt pos ≤ h.valueAt i) :
    h.heapDown pos = h := by
  rw [heapDown]
  split
  · rfl
  split
  · rfl
  next hleaf =>
    exact if_neg (not_lt.2 (hle _ (minSon_le (by omega)) (h.minSon_half pos)))

/-! ## An entry comes in -/

/-- The heap before `HeapUp`. -/
def appended (h : HeapList ι) (item : ι) : HeapList ι :=
  { h with
    count := h.count + 1
    list := update h.list (h.count + 1) (some item)
    index := update h.index item (h.count + 1) }

theorem heapPush_cases (h : HeapList ι) (item : ι) :
    (h.heapPush item).1 = h ∨
      h.index item = 0 ∧ (h.heapPush item).1 = (h.appended item).heapUp (h.count + 1) := by
  unfold heapPush
  split
  · exact .inl rfl
  split
  · exact .inl rfl
  next hindex => exact .inr ⟨Classical.not_not.1 hindex, rfl⟩

theorem stored_appended : (h.appended item).Stored g ↔ h.Stored g ∨ g = item := by
  constructor
  · rintro ⟨pos, hpos, hle, hg⟩
    simp only [appended] at hle hg
    by_cases heq : pos = h.count + 1
    · rw [heq, update_self, Option.some_inj] at hg
      exact .inr hg.symm
    · rw [update_of_ne heq] at hg
      exact .inl ⟨pos, hpos, by omega, hg⟩
  · rintro (⟨pos, hpos, hle, hg⟩ | rfl)
    · refine ⟨pos, hpos, Nat.le_succ_of_le hle, ?_⟩
      exact (update_of_ne (by omega) _ _).trans hg
    · exact ⟨h.count + 1, Nat.succ_pos _, Nat.le_refl _, update_self _ _ _⟩

theorem aligned_appended (ha : h.Aligned) (hindex : h.index item = 0) :
    (h.appended item).Aligned := by
  intro pos hpos hle
  simp only [appended] at hle ⊢
  by_cases heq : pos = h.count + 1
  · subst heq
    exact ⟨item, update_self .., update_self ..⟩
  · obtain ⟨g, hg, hig⟩ := ha pos hpos (by omega)
    have hne : g ≠ item := fun heq => by
      rw [heq, hindex] at hig
      omega
    exact ⟨g, by rw [update_of_ne heq, hg], by rw [update_of_ne hne, hig]⟩

theorem valueAt_appended (h : HeapList ι) (item : ι) :
    (h.appended item).valueAt = update h.valueAt (h.count + 1) (h.value item) := by
  funext pos
  by_cases heq : pos = h.count + 1
  · subst heq
    simp [valueAt, appended]
  · simp [valueAt, appended, heq]

theorem sifted_push (ha : h.Aligned) (hindex : h.index item = 0) :
    Sifted (h.appended item) ((h.appended item).heapUp (h.count + 1)) :=
  sifted_heapUp (aligned_appended ha hindex) (Nat.succ_pos _) (Nat.le_refl _)

theorem indexed_heapPush (hi : h.Indexed) : (h.heapPush item).1.Indexed := by
  obtain heq | ⟨hindex, heq⟩ := heapPush_cases h item
  · rw [heq]
    exact hi
  · have hsifted := sifted_push hi.aligned hindex
    rw [heq]
    refine ⟨hsifted.aligned, fun g hg => ?_⟩
    rw [hsifted.stored, stored_appended, not_or] at hg
    rw [hsifted.index_eq g (by rw [stored_appended, not_or]; exact hg)]
    exact (update_of_ne hg.2 _ _).trans (hi.outside g hg.1)

theorem sorted_heapPush (hs : h.Sorted) : (h.heapPush item).1.Sorted := by
  obtain heq | ⟨-, heq⟩ := heapPush_cases h item
  · rw [heq]
    exact hs
  · rw [heq]
    refine sorted_heapUp ?_ le_rfl
    rw [valueAt_appended]
    exact Ordered.push hs _

theorem heapPush_max (h : HeapList ι) (item : ι) : (h.heapPush item).1.max = h.max := by
  obtain heq | ⟨-, heq⟩ := heapPush_cases h item
  · rw [heq]
  · rw [heq, heapUp_max]
    rfl

/-- While there is room, the entry comes in. -/
theorem stored_heapPush (hi : h.Indexed) (hroom : h.count < h.max) (hs : ¬h.Stored item) (g : ι) :
    (h.heapPush item).1.Stored g ↔ h.Stored g ∨ g = item := by
  have hindex : h.index item = 0 := hi.outside item hs
  have heq : (h.heapPush item).1 = (h.appended item).heapUp (h.count + 1) := by
    rw [heapPush, if_neg (by omega), if_neg (by omega)]
    rfl
  rw [heq, (sifted_push hi.aligned hindex).stored, stored_appended]

/-- Nothing else changes. -/
theorem heapPush_others (item : ι) (hi : h.Indexed) :
    (h.heapPush item).1.value = h.value ∧
      ∀ g ≠ item, (h.heapPush item).1.Stored g ↔ h.Stored g := by
  obtain heq | ⟨hindex, heq⟩ := heapPush_cases h item
  · rw [heq]
    exact ⟨rfl, fun _ _ => Iff.rfl⟩
  · have hsifted := sifted_push hi.aligned hindex
    rw [heq]
    refine ⟨hsifted.value_eq, fun g hg => ?_⟩
    rw [hsifted.stored, stored_appended]
    exact or_iff_left hg

/-! ## An entry goes -/

section Take

@[simp] theorem fillFromLast_count (h : HeapList ι) (pos : Nat) :
    (h.fillFromLast pos).count = h.count - 1 := by
  simp only [fillFromLast, setIndexAt_count]

theorem fillFromLast_list (h : HeapList ι) (pos : Nat) :
    (h.fillFromLast pos).list = update (update h.list pos (h.list h.count)) h.count none := by
  simp only [fillFromLast, setIndexAt_list, setIndexAt_count]

@[simp] theorem fillFromLast_value (h : HeapList ι) (pos : Nat) :
    (h.fillFromLast pos).value = h.value := by
  simp only [fillFromLast, setIndexAt_value]

theorem fillFromLast_index {last : ι} (hlast : h.list h.count = some last) :
    (h.fillFromLast pos).index = update h.index last pos := by
  simp only [fillFromLast]
  rw [setIndexAt_index]
  exact (update_self ..).trans hlast

theorem fillFromLast_valueAt (hi : i < h.count) :
    (h.fillFromLast pos).valueAt i = update h.valueAt pos (h.valueAt h.count) i := by
  unfold valueAt
  rw [fillFromLast_list, fillFromLast_value, update_of_ne hi.ne]
  by_cases heq : i = pos
  · rw [heq, update_self, update_self]
  · rw [update_of_ne heq, update_of_ne heq]

variable (hi : h.Indexed) (hpos : 0 < pos) (hle : pos ≤ h.count)
include hi hpos hle

theorem stored_fillFromLast : (h.fillFromLast pos).Stored g ↔ h.Stored g ∧ h.list pos ≠ some g := by
  constructor
  · rintro ⟨i, hi0, hin, hg⟩
    rw [fillFromLast_count] at hin
    rw [fillFromLast_list, update_of_ne (by omega)] at hg
    by_cases heq : i = pos
    · subst heq
      rw [update_self] at hg
      refine ⟨⟨h.count, by omega, le_rfl, hg⟩, fun hg' => ?_⟩
      have hcount := hi.aligned.index_eq (by omega) le_rfl hg
      rw [hi.aligned.index_eq hpos hle hg'] at hcount
      omega
    · rw [update_of_ne heq] at hg
      refine ⟨⟨i, hi0, by omega, hg⟩, fun hg' => heq ?_⟩
      rw [← hi.aligned.index_eq hi0 (by omega) hg, hi.aligned.index_eq hpos hle hg']
  · rintro ⟨⟨i, hi0, hin, hg⟩, hne⟩
    have hip : i ≠ pos := fun heq => hne (heq ▸ hg)
    by_cases hlast : i = h.count
    · refine ⟨pos, hpos, by rw [fillFromLast_count]; omega, ?_⟩
      rw [fillFromLast_list, update_of_ne (by omega), update_self, ← hlast, hg]
    · refine ⟨i, hi0, by rw [fillFromLast_count]; omega, ?_⟩
      rw [fillFromLast_list, update_of_ne hlast, update_of_ne hip, hg]

theorem aligned_fillFromLast : (h.fillFromLast pos).Aligned := by
  intro i hi0 hin
  rw [fillFromLast_count] at hin
  obtain ⟨last, hlast, hilast⟩ := hi.aligned h.count (by omega) le_rfl
  rw [fillFromLast_list, fillFromLast_index hlast, update_of_ne (by omega)]
  by_cases heq : i = pos
  · subst heq
    exact ⟨last, by rw [update_self, hlast], update_self ..⟩
  · obtain ⟨g, hg, hig⟩ := hi.aligned i hi0 (by omega)
    have hne : g ≠ last := fun heq => by
      rw [heq, hilast] at hig
      omega
    exact ⟨g, by rw [update_of_ne heq, hg], by rw [update_of_ne hne, hig]⟩

theorem sifted_fillFromLast : Sifted (h.fillFromLast pos) ((h.fillFromLast pos).heapDown pos) :=
  sifted_heapDown (aligned_fillFromLast hi hpos hle) hpos

/-- The heap without the entry that was at `pos`. -/
structure Taken (h : HeapList ι) (pos : Nat) (h' : HeapList ι) : Prop where
  indexed : h'.Indexed
  count_eq : h'.count = h.count - 1
  value_eq : h'.value = h.value
  stored : ∀ g, h'.Stored g ↔ h.Stored g ∧ h.list pos ≠ some g

theorem taken_takeAt : Taken h pos (h.takeAt pos) := by
  have hsifted := sifted_fillFromLast hi hpos hle
  obtain ⟨e, he, -⟩ := hi.aligned pos hpos hle
  obtain ⟨last, hlast, -⟩ := hi.aligned h.count (by omega) le_rfl
  have hstored (g : ι) :
      ((h.fillFromLast pos).heapDown pos).Stored g ↔ h.Stored g ∧ h.list pos ≠ some g :=
    (hsifted.stored g).trans (stored_fillFromLast hi hpos hle)
  simp only [takeAt, he]
  refine ⟨⟨fun i hi0 hin => ?_, fun g hg => ?_⟩, ?_, ?_, he ▸ hstored⟩
  · obtain ⟨g, hg, hig⟩ := hsifted.aligned i hi0 hin
    have hne : g ≠ e := fun heq => ((hstored g).1 ⟨i, hi0, hin, hg⟩).2 (heq ▸ he)
    exact ⟨g, hg, (update_of_ne hne _ _).trans hig⟩
  · by_cases heq : g = e
    · subst heq
      exact update_self ..
    have hout : ¬h.Stored g := fun hs =>
      hg ((hstored g).2 ⟨hs, fun heq' => heq (Option.some.inj (heq'.symm.trans he))⟩)
    have hne : g ≠ last := fun heq' => hout ⟨h.count, by omega, le_rfl, heq' ▸ hlast⟩
    refine (update_of_ne heq _ _).trans ?_
    rw [hsifted.index_eq g (fun hs => hout ((stored_fillFromLast hi hpos hle).1 hs).1),
      fillFromLast_index hlast, update_of_ne hne, hi.outside g hout]
  · exact hsifted.count_eq.trans (fillFromLast_count h pos)
  · exact hsifted.value_eq.trans (fillFromLast_value h pos)

omit hi hpos hle in
theorem sorted_takeAt : (h.takeAt pos).Sorted ↔ ((h.fillFromLast pos).heapDown pos).Sorted := by
  unfold takeAt
  split <;> exact Iff.rfl

omit hi in
/-- **The order after an entry has gone**: it is kept exactly if the last entry is not before the
one above the place that it takes. -/
theorem sorted_takeAt_iff (hs : h.Sorted) :
    (h.takeAt pos).Sorted ↔ (2 ≤ pos → h.valueAt (pos / 2) ≤ h.valueAt h.count) := by
  rw [sorted_takeAt]
  constructor
  · intro hsorted hp
    by_contra hlt
    -- What is below the place is not before what was there, so the last entry stays.
    have hne : pos ≠ h.count := fun heq => by
      have habove := hs pos hp hle
      rw [heq] at habove hlt
      omega
    have hself : (h.fillFromLast pos).valueAt pos = h.valueAt h.count := by
      rw [fillFromLast_valueAt (by omega), update_self]
    have hstay : (h.fillFromLast pos).heapDown pos = h.fillFromLast pos := by
      refine heapDown_of_le fun i hin hson => ?_
      rw [fillFromLast_count] at hin
      rw [hself, fillFromLast_valueAt (by omega), update_of_ne (by omega)]
      have habove := hs pos hp hle
      have hbelow := hs i (by omega) (by omega)
      rw [hson] at hbelow
      omega
    rw [hstay] at hsorted
    have hbad := hsorted pos hp (by rw [fillFromLast_count]; omega)
    rw [hself, fillFromLast_valueAt (by omega), update_of_ne (by omega)] at hbad
    omega
  · intro hp
    refine sorted_heapDown ?_ hpos
    rw [fillFromLast_count]
    exact Ordered.replace hs hle (fun i hin => fillFromLast_valueAt hin) hp

end Take

/-! ## `HeapPop` and `HeapDelete` -/

theorem heapPop_cases (hi : h.Indexed) :
    (h.heapPop).1 = h ∨ (h.heapPop).1 = h.takeAt 1 ∧ Taken h 1 (h.takeAt 1) := by
  unfold heapPop
  split
  · exact .inl rfl
  · exact .inr ⟨rfl, taken_takeAt hi Nat.one_pos (by omega)⟩

theorem heapDelete_of_stored (hi : h.Indexed) (hs : h.Stored item) :
    (h.heapDelete item).1 = h.takeAt (h.index item) := by
  obtain ⟨hpos, hle, -⟩ := hi.aligned.of_stored hs
  rw [heapDelete, if_neg (by omega), if_neg (by omega)]

theorem heapDelete_max (h : HeapList ι) (item : ι) : (h.heapDelete item).1.max = h.max := by
  have htake (pos : Nat) : (h.takeAt pos).max = h.max := by
    unfold takeAt fillFromLast
    split
    · rw [heapDown_max, setIndexAt_max]
    · rw [heapDown_max, setIndexAt_max]
  unfold heapDelete
  split
  · rfl
  split
  · rfl
  · exact htake _

/-- An entry of the heap goes out. -/
theorem taken_heapDelete (hi : h.Indexed) (hs : h.Stored item) :
    Taken h (h.index item) (h.heapDelete item).1 := by
  obtain ⟨hpos, hle, -⟩ := hi.aligned.of_stored hs
  rw [heapDelete_of_stored hi hs]
  exact taken_takeAt hi hpos hle

theorem stored_heapDelete (hi : h.Indexed) (hs : h.Stored item) (g : ι) :
    (h.heapDelete item).1.Stored g ↔ h.Stored g ∧ g ≠ item := by
  rw [(taken_heapDelete hi hs).stored, (hi.aligned.of_stored hs).2.2, Ne, Option.some_inj, eq_comm]

theorem heapDelete_of_not_stored (hi : h.Indexed) (hs : ¬h.Stored item) :
    (h.heapDelete item).1 = h := by
  rw [heapDelete, hi.outside item hs]
  split
  · rfl
  · rw [if_pos (.inr rfl)]

end FStack.MicroThread.HeapList
