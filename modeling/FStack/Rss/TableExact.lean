import FStack.Rss.Table

/-!
# The RSS port tables are exact

What a table built from a list of configuration lines answers. The purpose of the two levels is
stated without slots: `accepted` goes through the lines and keeps each one whose triple is new, as
long as its remote pair is known or fewer than 16 are, and fewer than 4 local addresses belong to
that pair. `Represents` connects a table to the lines kept so far; one line preserves it
(`represents_line`), hence every initialisation does (`represents_init`).

Results:
* `rssTbl_exact`: lookup is lookup in the accepted lines, for IPv4 and for IPv6, with the entries'
  ports.
-/

namespace FStack.Rss

open Function List FStack.Lib.Probe FStack.Lib.Run

/-! ## Which lines are accepted -/

variable {A : Type} [DecidableEq A]

/-- Remote address and port. -/
def TblLine.key (c : TblLine A) : A × InPort := (c.saddr, c.sport)

/-- Remote address, remote port and local address. -/
def TblLine.triple (c : TblLine A) : (A × InPort) × A := (c.key, c.daddr)

/-- The line is new and both levels have room for it. -/
def accepts (acc : List (TblLine A)) (c : TblLine A) : Bool :=
  !(acc.map TblLine.triple).contains c.triple &&
    ((acc.map TblLine.key).contains c.key ||
      decide ((acc.map TblLine.key).dedup.length < maxSaddrSport)) &&
    decide ((acc.filter fun a => a.key == c.key).length < maxDaddr)

variable {c : TblLine A}

theorem accepts_iff {acc : List (TblLine A)} :
    accepts acc c = true ↔ c.triple ∉ acc.map TblLine.triple ∧
      (c.key ∈ acc.map TblLine.key ∨ (acc.map TblLine.key).dedup.length < maxSaddrSport) ∧
      (acc.filter fun a => a.key == c.key).length < maxDaddr := by
  simp [accepts, and_assoc]

/-- The lines that get an entry, in order. -/
def accepted (lines : List (TblLine A)) : List (TblLine A) :=
  lines.foldl (fun acc c => if accepts acc c then acc ++ [c] else acc) []

/-! ## Slots as keyed tables -/

variable (F : Family A)

/-- The key of a source slot, if it is in use. -/
def saddrKeys (T : RssTbl A) (i : Nat) : Option (A × InPort) :=
  if (T i).saddr = F.any then none else some ((T i).saddr, (T i).sport)

/-- The key of a destination slot, if it is in use. -/
def daddrKeys (slot : SaddrSlot A) (j : Nat) : Option A :=
  if (slot.dipTbl j).daddr = F.any then none else some (slot.dipTbl j).daddr

theorem findSaddr_eq (T : RssTbl A) (saddr : A) (sport : InPort) :
    findSaddr F T saddr sport = slotOf maxSaddrSport (oriIdx F) (saddrKeys F T) (saddr, sport) := by
  unfold findSaddr slotOf saddrKeys
  congr 1
  funext i
  by_cases h : (T i).saddr = F.any
  · simp [h]
  · have hne : ((T i).saddr == F.any) = false := by simpa using h
    simp [h, hne, Bool.beq_eq_decide_eq]

theorem findDaddr_eq (slot : SaddrSlot A) (daddr : A) :
    findDaddr F slot daddr = slotOf maxDaddr (oriDaddrIdx F) (daddrKeys F slot) daddr := by
  unfold findDaddr slotOf daddrKeys
  congr 1
  funext j
  by_cases h : (slot.dipTbl j).daddr = F.any
  · simp [h]
  · simp [h]

/-! ## The representation -/

/-- The check a line's entry is filled with. -/
def lineCheck (s : RssState) (lc : LcoreConf) (c : TblLine A) : InPort → Option Bool :=
  F.check s lc c.portId c.saddr c.daddr c.sport

/-- The table holds exactly the lines `acc`. -/
structure Represents (s : RssState) (lc : LcoreConf) (T : RssTbl A) (acc : List (TblLine A)) :
    Prop where
  saddrChained : Chained maxSaddrSport (oriIdx F) (saddrKeys F T)
  daddrChained : ∀ i, Chained maxDaddr (oriDaddrIdx F) (daddrKeys F (T i))
  /-- A free second-level slot is as `memset` left it. -/
  zero : ∀ i j, ((T i).dipTbl j).daddr = F.any → (T i).dipTbl j = DipSlot.zero F
  /-- A free first-level slot has only free second-level slots. -/
  empty : ∀ i j, (T i).saddr = F.any → ((T i).dipTbl j).daddr = F.any
  keys : ∀ k, k ∈ acc.map TblLine.key ↔ ∃ i, i < maxSaddrSport ∧ saddrKeys F T i = some k
  daddrs : ∀ i k, i < maxSaddrSport → saddrKeys F T i = some k → ∀ d,
    (k, d) ∈ acc.map TblLine.triple ↔ ∃ j, j < maxDaddr ∧ daddrKeys F (T i) j = some d
  entry : ∀ c ∈ acc, ∀ i j, i < maxSaddrSport → j < maxDaddr → saddrKeys F T i = some c.key →
    daddrKeys F (T i) j = some c.daddr → Filled (lineCheck F s lc c) c.daddr ((T i).dipTbl j)
  nodup : (acc.map TblLine.triple).Nodup

theorem represents_zero (s : RssState) (lc : LcoreConf) : Represents F s lc (RssTbl.zero F) [] where
  saddrChained := by
    intro i k _ h
    simp [saddrKeys, RssTbl.zero] at h
  daddrChained := by
    intro i j k _ h
    simp [daddrKeys, RssTbl.zero, DipSlot.zero] at h
  zero := fun _ _ _ => rfl
  empty := fun _ _ _ => rfl
  keys := by simp [saddrKeys, RssTbl.zero]
  daddrs := by simp [saddrKeys, RssTbl.zero]
  entry := by simp
  nodup := by simp

variable {F} {s : RssState} {lc : LcoreConf} {T : RssTbl A} {acc : List (TblLine A)}

/-! ## Free slots and room -/

theorem findSaddr_eq_none_iff (h : Represents F s lc T acc) (c : TblLine A) :
    findSaddr F T c.saddr c.sport = none ↔
      c.key ∉ acc.map TblLine.key ∧ maxSaddrSport ≤ (acc.map TblLine.key).dedup.length := by
  have hS : ∀ k, k ∈ (acc.map TblLine.key).toFinset ↔
      ∃ i, i < maxSaddrSport ∧ saddrKeys F T i = some k := fun k => by
    rw [mem_toFinset, h.keys]
  rw [findSaddr_eq]
  refine (slotOf_eq_none_iff h.saddrChained hS).trans ?_
  rw [mem_toFinset, card_toFinset]
  rfl

/-- The lines of one remote pair have distinct local addresses. -/
theorem length_filter_key (h : (acc.map TblLine.triple).Nodup) (k : A × InPort) :
    ((acc.filter fun a => a.key == k).map TblLine.daddr).toFinset.card =
      (acc.filter fun a => a.key == k).length := by
  rw [card_toFinset, Nodup.dedup, length_map]
  have hsub : ((acc.filter fun a => a.key == k).map TblLine.triple).Nodup :=
    h.sublist (filter_sublist.map _)
  have htriple : (acc.filter fun a => a.key == k).map TblLine.triple =
      ((acc.filter fun a => a.key == k).map TblLine.daddr).map fun d => (k, d) := by
    rw [map_map]
    refine map_congr_left fun a ha => ?_
    have hk : a.key = k := by simpa using (mem_filter.1 ha).2
    simp [TblLine.triple, hk]
  rw [htriple] at hsub
  exact hsub.of_map _

theorem findDaddr_eq_none_iff (h : Represents F s lc T acc) (c : TblLine A) {i : Nat}
    (hi : i < maxSaddrSport) (hkey : saddrKeys F T i = some c.key) :
    findDaddr F (T i) c.daddr = none ↔
      c.triple ∉ acc.map TblLine.triple ∧
        maxDaddr ≤ (acc.filter fun a => a.key == c.key).length := by
  have hmem : ∀ d, d ∈ ((acc.filter fun a => a.key == c.key).map TblLine.daddr).toFinset ↔
      (c.key, d) ∈ acc.map TblLine.triple := fun d => by
    rw [mem_toFinset, mem_map, mem_map]
    constructor
    · rintro ⟨a, ha, rfl⟩
      obtain ⟨ha, hk⟩ := mem_filter.1 ha
      have hk' : a.key = c.key := by simpa using hk
      exact ⟨a, ha, by simp [TblLine.triple, hk']⟩
    · rintro ⟨a, ha, heq⟩
      obtain ⟨hk, hd⟩ := Prod.mk.inj heq
      exact ⟨a, mem_filter.2 ⟨ha, by simpa using hk⟩, hd⟩
  have hS : ∀ d, d ∈ ((acc.filter fun a => a.key == c.key).map TblLine.daddr).toFinset ↔
      ∃ j, j < maxDaddr ∧ daddrKeys F (T i) j = some d := fun d => by
    rw [hmem, h.daddrs i c.key hi hkey]
  rw [findDaddr_eq]
  refine (slotOf_eq_none_iff (h.daddrChained i) hS).trans ?_
  rw [hmem, length_filter_key h.nodup]
  rfl

/-! ## Entering a line -/

omit [DecidableEq A] in
theorem key_mem_of_triple_mem (h : c.triple ∈ acc.map TblLine.triple) :
    c.key ∈ acc.map TblLine.key := by
  obtain ⟨a, ha, heq⟩ := mem_map.1 h
  exact mem_map.2 ⟨a, ha, (Prod.mk.inj heq).1⟩

variable {c : TblLine A} {i j i' n j' : Nat} {e : DipSlot A} {T' : RssTbl A}
  {lines : List (TblLine A)} {daddr saddr : A} {sport : InPort} {check : InPort → Option Bool}

theorem saddrSlot_spec (hi : findSaddr F T c.saddr c.sport = some i) :
    i < maxSaddrSport ∧ (saddrKeys F T i = none ∨ saddrKeys F T i = some c.key) := by
  rw [findSaddr_eq] at hi
  exact slotOf_spec hi

theorem daddrSlot_spec (hj : findDaddr F (T i) c.daddr = some j) :
    j < maxDaddr ∧ (daddrKeys F (T i) j = none ∨ daddrKeys F (T i) j = some c.daddr) := by
  rw [findDaddr_eq] at hj
  exact slotOf_spec hj

section

variable (h : Represents F s lc T acc)

include h

/-- A slot that holds the line's pair is the one the search stops at. -/
theorem saddrSlot_unique (hi : findSaddr F T c.saddr c.sport = some i)
    (hi' : i' < maxSaddrSport) (hk : saddrKeys F T i' = some c.key) : i' = i := by
  rw [findSaddr_eq] at hi
  exact Option.some.inj ((h.saddrChained i' c.key hi' hk).symm.trans hi)

theorem daddrSlot_unique (hj : findDaddr F (T i) c.daddr = some j)
    (hj' : j' < maxDaddr) (hd : daddrKeys F (T i) j' = some c.daddr) : j' = j := by
  rw [findDaddr_eq] at hj
  exact Option.some.inj ((h.daddrChained i j' c.daddr hj' hd).symm.trans hj)

theorem saddrSlot_of_mem
    (hi : findSaddr F T c.saddr c.sport = some i) (hmem : c.key ∈ acc.map TblLine.key) :
    saddrKeys F T i = some c.key := by
  obtain ⟨i', hi', hk⟩ := (h.keys c.key).1 hmem
  rwa [← saddrSlot_unique h hi hi' hk]

end

/-- The table with the line's entry written to slot `i`, `j`. -/
def enter (T : RssTbl A) (c : TblLine A) (i j : Nat) (e : DipSlot A) : RssTbl A :=
  update T i ⟨c.saddr, c.sport, update (T i).dipTbl j e⟩

omit [DecidableEq A] in
theorem enter_of_ne (hne : i' ≠ i) : enter T c i j e i' = T i' :=
  update_of_ne hne _ _

omit [DecidableEq A] in
theorem enter_dipTbl : (enter T c i j e i).dipTbl = update (T i).dipTbl j e := by
  simp [enter]

theorem saddrKeys_enter (hs : c.saddr ≠ F.any) (e : DipSlot A) :
    saddrKeys F (enter T c i j e) = update (saddrKeys F T) i (some c.key) := by
  funext i'
  by_cases hne : i' = i
  · subst hne
    simp [saddrKeys, enter, hs, TblLine.key]
  · rw [update_of_ne hne, saddrKeys, enter_of_ne hne]
    rfl

theorem daddrKeys_enter (he : e.daddr = c.daddr) (hd : c.daddr ≠ F.any) :
    daddrKeys F (enter T c i j e i) = update (daddrKeys F (T i)) j (some c.daddr) := by
  funext j'
  rw [daddrKeys, enter_dipTbl]
  by_cases hne : j' = j
  · subst hne
    simp [he, hd]
  · rw [update_of_ne hne, update_of_ne hne]
    rfl

section Enter

variable (h : Represents F s lc T acc) (hi : findSaddr F T c.saddr c.sport = some i)
  (hj : findDaddr F (T i) c.daddr = some j) (hfree : ((T i).dipTbl j).daddr = F.any)

include h hi hj hfree

/-- A line that reached a free slot is new. -/
theorem triple_not_mem : c.triple ∉ acc.map TblLine.triple := by
  intro hmem
  have hk := saddrSlot_of_mem h hi (key_mem_of_triple_mem hmem)
  obtain ⟨j', hj', hd⟩ := (h.daddrs i c.key (saddrSlot_spec hi).1 hk c.daddr).1 hmem
  rw [daddrSlot_unique h hj hj' hd, daddrKeys, if_pos hfree] at hd
  cases hd

theorem accepts_of_free : accepts acc c = true := by
  have hnew := triple_not_mem h hi hj hfree
  have hroom : c.key ∈ acc.map TblLine.key ∨
      (acc.map TblLine.key).dedup.length < maxSaddrSport := by
    by_contra hno
    rw [not_or, Nat.not_lt] at hno
    have := (findSaddr_eq_none_iff h c).2 hno
    rw [hi] at this
    cases this
  have hroom' : (acc.filter fun a => a.key == c.key).length < maxDaddr := by
    by_contra hno
    have hpos : 0 < (acc.filter fun a => a.key == c.key).length :=
      Nat.lt_of_lt_of_le (by decide) (Nat.le_of_not_lt hno)
    obtain ⟨a, ha⟩ := exists_mem_of_length_pos hpos
    obtain ⟨ha, hak⟩ := mem_filter.1 ha
    have hk := saddrSlot_of_mem h hi (mem_map.2 ⟨a, ha, by simpa using hak⟩)
    have := (findDaddr_eq_none_iff h c (saddrSlot_spec hi).1 hk).2 ⟨hnew, Nat.le_of_not_lt hno⟩
    rw [hj] at this
    cases this
  exact accepts_iff.2 ⟨hnew, hroom, hroom'⟩

variable (hs : c.saddr ≠ F.any) (hd : c.daddr ≠ F.any) (he : e.daddr = c.daddr)

include hs hd he

theorem enter_daddrs {k : A × InPort} (hi' : i' < maxSaddrSport)
    (hk : saddrKeys F (enter T c i j e) i' = some k) (d : A) :
    (k, d) ∈ (acc ++ [c]).map TblLine.triple ↔
      ∃ j', j' < maxDaddr ∧ daddrKeys F (enter T c i j e i') j' = some d := by
  rw [saddrKeys_enter hs] at hk
  rw [map_append, mem_append, map_singleton, mem_singleton]
  by_cases hne : i' = i
  · subst hne
    obtain rfl : c.key = k := by simpa using hk
    rw [daddrKeys_enter he hd]
    have hnone : daddrKeys F (T i') j = none := if_pos hfree
    -- the local addresses stored before, whether the pair was known or not
    have hold : (c.key, d) ∈ acc.map TblLine.triple ↔
        ∃ j', j' < maxDaddr ∧ daddrKeys F (T i') j' = some d := by
      rcases (saddrSlot_spec hi).2 with hfresh | hkey
      · constructor
        · intro hmem
          obtain ⟨a, ha, heq⟩ := mem_map.1 hmem
          have hk' := saddrSlot_of_mem h hi (mem_map.2 ⟨a, ha, (Prod.mk.inj heq).1⟩)
          rw [hfresh] at hk'
          cases hk'
        · rintro ⟨j', -, hd'⟩
          have hany : (T i').saddr = F.any := by
            by_contra hne
            simp [saddrKeys, hne] at hfresh
          rw [daddrKeys, if_pos (h.empty i' j' hany)] at hd'
          cases hd'
      · exact h.daddrs i' c.key hi' hkey d
    rw [hold]
    constructor
    · rintro (⟨j', hj', hd'⟩ | heq)
      · have hjne : j' ≠ j := by
          rintro rfl
          rw [hnone] at hd'
          cases hd'
        exact ⟨j', hj', by rw [update_of_ne hjne, hd']⟩
      · refine ⟨j, (daddrSlot_spec hj).1, ?_⟩
        rw [update_self, (Prod.mk.inj heq).2]
    · rintro ⟨j', hj', hd'⟩
      by_cases hjne : j' = j
      · subst hjne
        rw [update_self] at hd'
        exact .inr (by rw [TblLine.triple, Option.some.inj hd'])
      · rw [update_of_ne hjne] at hd'
        exact .inl ⟨j', hj', hd'⟩
  · rw [update_of_ne hne] at hk
    have hkne : (k, d) ≠ c.triple := by
      intro heq
      rw [(Prod.mk.inj heq).1] at hk
      exact hne (saddrSlot_unique h hi hi' hk)
    rw [enter_of_ne hne, h.daddrs i' k hi' hk d]
    simp [hkne]

theorem enter_entry (hfill : Filled (lineCheck F s lc c) c.daddr e) {a : TblLine A}
    (ha : a ∈ acc ++ [c]) (hi' : i' < maxSaddrSport) (hj' : j' < maxDaddr)
    (hk : saddrKeys F (enter T c i j e) i' = some a.key)
    (hda : daddrKeys F (enter T c i j e i') j' = some a.daddr) :
    Filled (lineCheck F s lc a) a.daddr ((enter T c i j e i').dipTbl j') := by
  have hnew := triple_not_mem h hi hj hfree
  rw [saddrKeys_enter hs] at hk
  by_cases hne : i' = i
  · subst hne
    have hkey : c.key = a.key := by simpa using hk
    rw [daddrKeys_enter he hd] at hda
    rw [enter_dipTbl]
    by_cases hjne : j' = j
    · -- the new entry, which only the new line matches
      subst hjne
      rw [update_self] at hda ⊢
      have htriple : a.triple = c.triple := by
        rw [TblLine.triple, TblLine.triple, hkey, Option.some.inj hda]
      rcases mem_append.1 ha with hmem | hmem
      · exact absurd (htriple ▸ mem_map_of_mem hmem) hnew
      · rw [mem_singleton.1 hmem]
        exact hfill
    · rw [update_of_ne hjne] at hda ⊢
      have hkeyT : a ∈ acc → saddrKeys F T i' = some a.key := fun hmem => by
        rw [← hkey]
        exact saddrSlot_of_mem h hi (mem_map.2 ⟨a, hmem, hkey.symm⟩)
      rcases mem_append.1 ha with hmem | hmem
      · exact h.entry a hmem i' j' hi' hj' (hkeyT hmem) hda
      · rw [mem_singleton.1 hmem] at hda
        exact absurd (daddrSlot_unique h hj hj' hda) hjne
  · rw [update_of_ne hne] at hk
    rw [enter_of_ne hne] at hda ⊢
    rcases mem_append.1 ha with hmem | hmem
    · exact h.entry a hmem i' j' hi' hj' hk hda
    · rw [mem_singleton.1 hmem] at hk
      exact absurd (saddrSlot_unique h hi hi' hk) hne

/-- **Entering a line** at the slots its searches stopped at. -/
theorem represents_enter (hfill : Filled (lineCheck F s lc c) c.daddr e) :
    Represents F s lc (enter T c i j e) (acc ++ [c]) where
  saddrChained := by
    rw [saddrKeys_enter hs]
    rcases (saddrSlot_spec hi).2 with hfresh | hkey
    · rw [findSaddr_eq] at hi
      exact chained_insert h.saddrChained hi hfresh
    · rw [← hkey, update_eq_self]
      exact h.saddrChained
  daddrChained := by
    intro i'
    by_cases hne : i' = i
    · subst hne
      rw [daddrKeys_enter he hd]
      rw [findDaddr_eq] at hj
      exact chained_insert (h.daddrChained i') hj (if_pos hfree)
    · rw [enter_of_ne hne]
      exact h.daddrChained i'
  zero := by
    intro i' j' hany
    by_cases hne : i' = i
    · subst hne
      rw [enter_dipTbl] at hany ⊢
      by_cases hjne : j' = j
      · subst hjne
        rw [update_self, he] at hany
        exact absurd hany hd
      · rw [update_of_ne hjne] at hany ⊢
        exact h.zero i' j' hany
    · rw [enter_of_ne hne] at hany ⊢
      exact h.zero i' j' hany
  empty := by
    intro i' j' hany
    by_cases hne : i' = i
    · subst hne
      have : c.saddr = F.any := by simpa [enter] using hany
      exact absurd this hs
    · rw [enter_of_ne hne] at hany ⊢
      exact h.empty i' j' hany
  keys := by
    intro k
    rw [saddrKeys_enter hs, map_append, mem_append, map_singleton, mem_singleton, h.keys]
    constructor
    · rintro (⟨i', hi', hk⟩ | rfl)
      · refine ⟨i', hi', ?_⟩
        by_cases hne : i' = i
        · subst hne
          rcases (saddrSlot_spec hi).2 with hfresh | hkey
          · rw [hfresh] at hk
            cases hk
          · rw [update_self, ← hkey, hk]
        · rw [update_of_ne hne, hk]
      · exact ⟨i, (saddrSlot_spec hi).1, update_self _ _ _⟩
    · rintro ⟨i', hi', hk⟩
      by_cases hne : i' = i
      · subst hne
        rw [update_self] at hk
        exact .inr (Option.some.inj hk).symm
      · rw [update_of_ne hne] at hk
        exact .inl ⟨i', hi', hk⟩
  daddrs := fun i' k hi' hk d => enter_daddrs h hi hj hfree hs hd he hi' hk d
  entry := fun a ha i' j' hi' hj' hk hda =>
    enter_entry h hi hj hfree hs hd he hfill ha hi' hj' hk hda
  nodup := by
    rw [map_append, nodup_append]
    refine ⟨h.nodup, by simp, ?_⟩
    rintro t ht u hu rfl
    rw [map_singleton, mem_singleton] at hu
    exact triple_not_mem h hi hj hfree (hu ▸ ht)

end Enter

/-! ## One line, and all lines -/

/-- What one line does: it is refused and nothing changes, or it is accepted and entered. -/
theorem tblLine_cases (h : Represents F s lc T acc) (hline : tblLine F s lc T c = .ok T') :
    (accepts acc c = false ∧ T' = T) ∨
      (accepts acc c = true ∧ ∃ i j e, findSaddr F T c.saddr c.sport = some i ∧
        findDaddr F (T i) c.daddr = some j ∧ ((T i).dipTbl j).daddr = F.any ∧
        Filled (lineCheck F s lc c) c.daddr e ∧ T' = enter T c i j e) := by
  unfold tblLine at hline
  split at hline
  · -- no first-level slot
    rename_i hnone
    cases hline
    obtain ⟨hkey, hfull⟩ := (findSaddr_eq_none_iff h c).1 hnone
    refine .inl ⟨Bool.eq_false_iff.2 fun hacc => ?_, rfl⟩
    rcases (accepts_iff.1 hacc).2.1 with hmem | hlt
    · exact hkey hmem
    · omega
  rename_i i hi
  have hknown : ∀ j, ((T i).dipTbl j).daddr ≠ F.any → saddrKeys F T i = some c.key := by
    intro j hne
    rcases (saddrSlot_spec hi).2 with hfresh | hkey
    · have hany : (T i).saddr = F.any := by
        by_contra hno
        simp [saddrKeys, hno] at hfresh
      exact absurd (h.empty i j hany) hne
    · exact hkey
  split at hline
  · -- no second-level slot
    rename_i hnone
    cases hline
    refine .inl ⟨Bool.eq_false_iff.2 fun hacc => ?_, rfl⟩
    have hocc : ((T i).dipTbl 0).daddr ≠ F.any := by
      intro hany
      rw [findDaddr_eq] at hnone
      exact (slotOf_eq_none.1 hnone 0 (by decide)).1 (if_pos hany)
    obtain ⟨-, hfull⟩ :=
      (findDaddr_eq_none_iff h c (saddrSlot_spec hi).1 (hknown 0 hocc)).1 hnone
    exact absurd (accepts_iff.1 hacc).2.2 (Nat.not_lt.2 hfull)
  rename_i j hj
  split at hline
  next hfree =>
    obtain ⟨e, hfill, hret⟩ := bind_eq_ok.1 hline
    rw [h.zero i j hfree] at hfill
    cases hret
    exact .inr ⟨accepts_of_free h hi hj hfree, i, j, e, hi, hj, hfree, fillEntry_spec hfill, rfl⟩
  · -- a duplicate
    rename_i hocc
    cases hline
    refine .inl ⟨Bool.eq_false_iff.2 fun hacc => (accepts_iff.1 hacc).1 ?_, rfl⟩
    have hd : daddrKeys F (T i) j = some c.daddr := by
      rcases (daddrSlot_spec hj).2 with hnone | hsome
      · simp [daddrKeys, hocc] at hnone
      · exact hsome
    exact (h.daddrs i c.key (saddrSlot_spec hi).1 (hknown j hocc) c.daddr).2
      ⟨j, (daddrSlot_spec hj).1, hd⟩

/-- **One line** keeps the representation. -/
theorem represents_line (h : Represents F s lc T acc) (hs : c.saddr ≠ F.any) (hd : c.daddr ≠ F.any)
    (hline : tblLine F s lc T c = .ok T') :
    Represents F s lc T' (if accepts acc c then acc ++ [c] else acc) := by
  rcases tblLine_cases h hline with ⟨hno, rfl⟩ | ⟨hyes, i, j, e, hi, hj, hfree, hfill, rfl⟩
  · rwa [hno, if_neg (by simp)]
  · rw [hyes, if_pos rfl]
    exact represents_enter h hi hj hfree hs hd hfill.daddr hfill

/-- **All lines** keep the representation. -/
theorem represents_run : ∀ {lines : List (TblLine A)} {T T' : RssTbl A} {acc : List (TblLine A)},
    (∀ c ∈ lines, c.saddr ≠ F.any ∧ c.daddr ≠ F.any) → Represents F s lc T acc →
    lines.foldlM (tblLine F s lc) T = .ok T' →
    Represents F s lc T'
      (lines.foldl (fun acc c => if accepts acc c then acc ++ [c] else acc) acc)
  | [], _, _, _, _, h, hrun => by
    cases hrun
    exact h
  | c :: lines, _, _, _, hne, h, hrun => by
    obtain ⟨T₁, h₁, h₂⟩ := foldlM_cons_eq_ok.1 hrun
    obtain ⟨hs, hd⟩ := hne c (by simp)
    exact @represents_run lines _ _ _ (fun a ha => hne a (by simp [ha]))
      (represents_line h hs hd h₁) h₂

theorem represents_init (hne : ∀ c ∈ lines, c.saddr ≠ F.any ∧ c.daddr ≠ F.any)
    (hrun : tblInit F true s lc lines = .ok T) : Represents F s lc T (accepted lines) :=
  represents_run hne (represents_zero F s lc) hrun

/-! ## Lookup -/

/-- Lookup finds what the slots hold. -/
theorem tblGet_eq_ok_iff (h : Represents F s lc T acc) (q : TblLine A) (e : DipSlot A) :
    tblGet F true T q.saddr q.daddr q.sport = .ok e ↔
      ∃ i j, i < maxSaddrSport ∧ j < maxDaddr ∧ saddrKeys F T i = some q.key ∧
        daddrKeys F (T i) j = some q.daddr ∧ (T i).dipTbl j = e := by
  constructor
  · intro hget
    simp only [tblGet, Bool.not_true, Bool.false_eq_true, if_false] at hget
    split at hget
    · cases hget
    rename_i i hi
    split at hget
    · cases hget
    rename_i hs
    split at hget
    · cases hget
    rename_i j hj
    split at hget
    · cases hget
    rename_i hd
    obtain ⟨hi', hik⟩ := saddrSlot_spec (c := q) hi
    obtain ⟨hj', hjk⟩ := daddrSlot_spec (c := q) hj
    refine ⟨i, j, hi', hj', hik.resolve_left ?_, hjk.resolve_left ?_, Except.ok.inj hget⟩
    · simp [saddrKeys, hs]
    · simp [daddrKeys, hd]
  · rintro ⟨i, j, hi, hj, hik, hjk, rfl⟩
    have hfi : findSaddr F T q.saddr q.sport = some i := by
      rw [findSaddr_eq]
      exact h.saddrChained i q.key hi hik
    have hfj : findDaddr F (T i) q.daddr = some j := by
      rw [findDaddr_eq]
      exact h.daddrChained i j q.daddr hj hjk
    have hs : (T i).saddr ≠ F.any := fun hany => by simp [saddrKeys, hany] at hik
    have hd : ((T i).dipTbl j).daddr ≠ F.any := fun hany => by simp [daddrKeys, hany] at hjk
    simp [tblGet, hfi, hfj, hs, hd]

theorem tblGet_cases (T : RssTbl A) (saddr daddr : A) (sport : InPort) :
    (∃ e, tblGet F true T saddr daddr sport = .ok e) ∨
      tblGet F true T saddr daddr sport = .error (-enoent) := by
  simp only [tblGet, Bool.not_true, Bool.false_eq_true, if_false]
  split
  · exact .inr rfl
  split
  · exact .inr rfl
  split
  · exact .inr rfl
  split
  · exact .inr rfl
  · exact .inl ⟨_, rfl⟩

section

variable (h : Represents F s lc T acc)

include h

/-- **Lookup** is lookup in the accepted lines. -/
theorem tblGet_of_mem (hc : c ∈ acc) :
    ∃ e, tblGet F true T c.saddr c.daddr c.sport = .ok e ∧
      Filled (lineCheck F s lc c) c.daddr e := by
  obtain ⟨i, hi, hk⟩ := (h.keys c.key).1 (mem_map_of_mem hc)
  obtain ⟨j, hj, hd⟩ := (h.daddrs i c.key hi hk c.daddr).1 (mem_map_of_mem hc)
  exact ⟨_, (tblGet_eq_ok_iff h c _).2 ⟨i, j, hi, hj, hk, hd, rfl⟩, h.entry c hc i j hi hj hk hd⟩

theorem tblGet_of_not_mem (hq : ((saddr, sport), daddr) ∉ acc.map TblLine.triple) :
    tblGet F true T saddr daddr sport = .error (-enoent) := by
  rcases tblGet_cases (F := F) T saddr daddr sport with ⟨e, he⟩ | hno
  · obtain ⟨i, j, hi, hj, hk, hd, -⟩ :=
      (tblGet_eq_ok_iff h ⟨0, daddr, saddr, sport⟩ e).1 he
    exact absurd ((h.daddrs i _ hi hk daddr).2 ⟨j, hj, hd⟩) hq
  · exact hno

/-- **No line disturbs another triple's entry.** -/
theorem tblLine_frame (hs : c.saddr ≠ F.any) (hd : c.daddr ≠ F.any)
    (hline : tblLine F s lc T c = .ok T') (hq : ((saddr, sport), daddr) ≠ c.triple) :
    tblGet F true T' saddr daddr sport = tblGet F true T saddr daddr sport := by
  have h' := represents_line h hs hd hline
  rcases tblLine_cases h hline with ⟨-, rfl⟩ | ⟨hyes, i, j, e, hi, hj, hfree, hfill, rfl⟩
  · rfl
  rw [hyes, if_pos rfl] at h'
  rcases tblGet_cases (F := F) T saddr daddr sport with ⟨e', he'⟩ | hno
  · rw [he']
    obtain ⟨i', j', hi', hj', hk, hdk, hent⟩ :=
      (tblGet_eq_ok_iff h ⟨0, daddr, saddr, sport⟩ e').1 he'
    refine (tblGet_eq_ok_iff h' ⟨0, daddr, saddr, sport⟩ e').2 ⟨i', j', hi', hj', ?_⟩
    rw [saddrKeys_enter hs]
    by_cases hne : i' = i
    · subst hne
      have hjne : j' ≠ j := by
        rintro rfl
        rw [daddrKeys, if_pos hfree] at hdk
        cases hdk
      have hkey : saddrKeys F T i' = some c.key := by
        rcases (saddrSlot_spec hi).2 with hfresh | hkey
        · rw [hfresh] at hk
          cases hk
        · exact hkey
      rw [daddrKeys_enter hfill.daddr hd, enter_dipTbl, update_of_ne hjne,
        update_of_ne hjne, update_self, ← hkey]
      exact ⟨hk, hdk, hent⟩
    · rw [update_of_ne hne, enter_of_ne hne]
      exact ⟨hk, hdk, hent⟩
  · rw [hno]
    refine tblGet_of_not_mem h' ?_
    rw [map_append, mem_append, map_singleton, mem_singleton, not_or]
    refine ⟨fun hmem => ?_, hq⟩
    obtain ⟨a, ha, heq⟩ := mem_map.1 hmem
    obtain ⟨e', he', -⟩ := tblGet_of_mem h ha
    obtain ⟨hk, hda⟩ := Prod.mk.inj heq
    obtain ⟨hsa, hsp⟩ := Prod.mk.inj hk
    rw [hsa, hda, hsp, hno] at he'
    cases he'

end

/-! ## The ports of an entry -/

/-- `dport[1..num]`, the part first in use, lists in increasing order exactly the ports the check
accepts, without port 65535 when it accepts all. -/
def PortsExact (check : InPort → Option Bool) (e : DipSlot A) : Prop :=
  e.firstIdx = 1 ∧ e.lastIdx = e.num ∧
  (∀ a b, 1 ≤ a → a < b → b ≤ e.num → e.dport a < e.dport b) ∧
  ∀ p, (∃ a, 1 ≤ a ∧ a ≤ e.num ∧ e.dport a = p) ↔
    p < maxDport ∧ check (htons p) = some true ∧
      ¬(p = maxDport - 1 ∧ ∀ q, q < maxDport → check (htons q) = some true)

theorem acceptedPorts_eq_range (h : ∀ q, q < n → check (htons q) = some true) :
    acceptedPorts check n = range n := by
  refine filter_eq_self.2 fun q hq => ?_
  simp [h q (mem_range.1 hq)]

theorem all_of_acceptedPorts_length (h : (acceptedPorts check n).length = n) :
    ∀ q, q < n → check (htons q) = some true := by
  intro q hq
  have hall := length_filter_eq_length_iff.1
    (h.trans (length_range (n := n)).symm)
  simpa using hall q (mem_range.2 hq)

omit [DecidableEq A] in
theorem portsExact_of_filled (h : Filled check daddr e) : PortsExact check e := by
  have hle := acceptedPorts_length_le check maxDport
  have hmax : maxDport = 65536 := rfl
  have hnum := h.num
  refine ⟨h.firstIdx, h.lastIdx, fun a b ha hab hb => ?_, fun p => ⟨?_, ?_⟩⟩
  · obtain ⟨a, rfl⟩ := Nat.exists_eq_add_of_le' ha
    obtain ⟨b, rfl⟩ := Nat.exists_eq_add_of_le' (Nat.le_trans ha (Nat.le_of_lt hab))
    rw [h.dport a (by omega), h.dport b (by omega)]
    exact pairwise_iff_getElem.1 (acceptedPorts_pairwise check maxDport) a b _ _ (by omega)
  · rintro ⟨a, ha, hb, rfl⟩
    obtain ⟨a, rfl⟩ := Nat.exists_eq_add_of_le' ha
    have hlt : a < (acceptedPorts check maxDport).length := by omega
    rw [h.dport a hlt]
    obtain ⟨hp, hcheck⟩ := mem_acceptedPorts.1 (getElem_mem hlt)
    refine ⟨hp, hcheck, ?_⟩
    rintro ⟨hlast, hall⟩
    simp only [acceptedPorts_eq_range hall, getElem_range] at hlast
    omega
  · rintro ⟨hp, hcheck, hnot⟩
    obtain ⟨a, ha, hap⟩ := getElem_of_mem (mem_acceptedPorts.2 ⟨hp, hcheck⟩)
    refine ⟨a + 1, by omega, ?_, by rw [h.dport a ha, hap]⟩
    -- only the last of 65536 accepted ports lies beyond `num`
    by_contra hgt
    have hfull : (acceptedPorts check maxDport).length = maxDport := by omega
    have hall := all_of_acceptedPorts_length hfull
    refine hnot ⟨?_, hall⟩
    simp only [acceptedPorts_eq_range hall, getElem_range] at hap
    omega

/-! ## The result -/

/-- What a table built from `lines` answers, through the lookup function `get`. -/
structure TblExact (F : Family A) (get : RssTbl A → A → A → InPort → Except Int (DipSlot A))
    (s : RssState) (lc : LcoreConf) (lines : List (TblLine A)) (T : RssTbl A) : Prop where
  /-- An accepted triple is found, with exactly its ports. -/
  found : ∀ c ∈ accepted lines, ∃ e, get T c.saddr c.daddr c.sport = .ok e ∧
    PortsExact (F.check s lc c.portId c.saddr c.daddr c.sport) e
  /-- Every other triple is not. -/
  missing : ∀ saddr daddr sport,
    (∀ c ∈ accepted lines, (c.saddr, c.daddr, c.sport) ≠ (saddr, daddr, sport)) →
    get T saddr daddr sport = .error (-enoent)
  /-- Entering a line leaves every other triple's entry alone. -/
  frame : ∀ pre c post, lines = pre ++ c :: post → ∃ T₁ T₂,
    tblInit F true s lc pre = .ok T₁ ∧ tblLine F s lc T₁ c = .ok T₂ ∧
    ∀ saddr daddr sport, (c.saddr, c.daddr, c.sport) ≠ (saddr, daddr, sport) →
      get T₂ saddr daddr sport = get T₁ saddr daddr sport

theorem tblExact_init (hne : ∀ c ∈ lines, c.saddr ≠ F.any ∧ c.daddr ≠ F.any)
    (hrun : tblInit F true s lc lines = .ok T) : TblExact F (tblGet F true) s lc lines T where
  found := by
    intro c hc
    obtain ⟨e, hget, hfill⟩ := tblGet_of_mem (represents_init hne hrun) hc
    exact ⟨e, hget, portsExact_of_filled hfill⟩
  missing := by
    intro saddr daddr sport hall
    refine tblGet_of_not_mem (represents_init hne hrun) fun hmem => ?_
    obtain ⟨c, hc, heq⟩ := mem_map.1 hmem
    obtain ⟨hk, hd⟩ := Prod.mk.inj heq
    obtain ⟨hs, hp⟩ := Prod.mk.inj hk
    exact hall c hc (by rw [hs, hd, hp])
  frame := by
    rintro pre c post rfl
    obtain ⟨T₁, T₂, h₁, h₂, -⟩ := foldlM_split hrun
    refine ⟨T₁, T₂, h₁, h₂, fun saddr daddr sport hq => ?_⟩
    obtain ⟨hs, hd⟩ := hne c (by simp)
    refine tblLine_frame (represents_init (fun a ha => hne a (by simp [ha])) h₁) hs hd h₂ ?_
    rintro heq
    obtain ⟨hk, rfl⟩ := Prod.mk.inj heq
    obtain ⟨rfl, rfl⟩ := Prod.mk.inj hk
    exact hq rfl

/-- The addresses of a line are not zero. -/
def RssTblCfg.NonZero : RssTblCfg → Prop
  | .inet line => line.saddr ≠ inetFamily.any ∧ line.daddr ≠ inetFamily.any
  | .inet6 line => line.saddr ≠ inet6Family.any ∧ line.daddr ≠ inet6Family.any

variable {cfgs : List RssTblCfg}

theorem mem_of_inetLines {line : TblLine InAddr} (h : line ∈ inetLines cfgs) :
    .inet line ∈ cfgs := by
  obtain ⟨_ | _, hc, heq⟩ := mem_filterMap.1 h <;> cases heq
  exact hc

theorem mem_of_inet6Lines {line : TblLine In6Addr} (h : line ∈ inet6Lines cfgs) :
    .inet6 line ∈ cfgs := by
  obtain ⟨_ | _, hc, heq⟩ := mem_filterMap.1 h <;> cases heq
  exact hc

/-- **The RSS port tables are exact**, for IPv4 and for IPv6. -/
theorem rssTbl_exact (hne : ∀ c ∈ cfgs, c.NonZero) : (∀ T, ffRssTblInit true s lc cfgs = .ok T →
      TblExact inetFamily (ffRssTblGetPortrange true) s lc (inetLines cfgs) T) ∧
    ∀ T, ffRssTbl6Init true s lc cfgs = .ok T →
      TblExact inet6Family (ffRssTbl6GetPortrange true) s lc (inet6Lines cfgs) T :=
  ⟨fun _ hT => tblExact_init (fun _ hc => hne _ (mem_of_inetLines hc)) hT,
    fun _ hT => tblExact_init (fun _ hc => hne _ (mem_of_inet6Lines hc)) hT⟩

/-! ## Initialisation succeeds -/

omit [DecidableEq A] in
theorem fillEntry_total (h : ∀ p, check p ≠ none) (daddr : A) (e : DipSlot A) :
    ∃ e', fillEntry check daddr e = .ok e' := by
  have hstep : ∀ j ∈ range maxDport, ∀ st : Fill A, ∃ st', fillStep check st j = .ok st' := by
    intro j _ st
    unfold fillStep
    split
    next hnone => exact absurd hnone (h _)
    · exact ⟨_, rfl⟩
    · exact ⟨_, rfl⟩
  obtain ⟨st, hst⟩ := foldlM_total
    ⟨1, -1, { e with dport := update e.dport 0 1, firstIdx := 1 }⟩ hstep
  exact ⟨_, bind_eq_ok.2 ⟨st, hst, rfl⟩⟩

/-- With a key for every multi-queue port, every list of lines is processed to the end. -/
theorem tblInit_total
    (hcheck : ∀ p saddr daddr sport dport, F.check s lc p saddr daddr sport dport ≠ none)
    (lines : List (TblLine A)) : ∃ T, tblInit F true s lc lines = .ok T := by
  refine foldlM_total _ fun c _ T => ?_
  unfold tblLine
  split
  · exact ⟨_, rfl⟩
  split
  · exact ⟨_, rfl⟩
  split
  · obtain ⟨e, he⟩ := fillEntry_total (hcheck c.portId c.saddr c.daddr c.sport) c.daddr
      ((T _).dipTbl _)
    exact ⟨_, bind_eq_ok.2 ⟨e, he, rfl⟩⟩
  · exact ⟨_, rfl⟩

/-- One line of each family on a single-queue port, where every port is accepted. -/
def sampleTblCfgs : List RssTblCfg :=
  [.inet ⟨0, 0x0100000a, 0x0200000a, htons 80⟩,
   .inet6 ⟨0, ⟨List.replicate 15 0 ++ [1], rfl⟩, ⟨List.replicate 15 0 ++ [2], rfl⟩, htons 80⟩]

/-- An lcore that serves no port with more than one queue. -/
def singleQueue : LcoreConf := ⟨fun _ => 1, fun _ => 0⟩

theorem sampleTbl_init : ∃ T, ffRssTblInit true RssState.start singleQueue sampleTblCfgs = .ok T :=
  tblInit_total (F := inetFamily)
    (fun _ _ _ _ _ => by simp [inetFamily, ffRssCheck, rssCheck, singleQueue])
    (inetLines sampleTblCfgs)

theorem sampleTbl_nonZero : ∀ c ∈ sampleTblCfgs, c.NonZero := by
  intro c hc
  have hc' : c = sampleTblCfgs[0] ∨ c = sampleTblCfgs[1] := by simpa [sampleTblCfgs] using hc
  rcases hc' with rfl | rfl <;> exact ⟨by decide, by decide⟩

theorem rssTbl_exact_sample :
    ∃ T, ffRssTblInit true RssState.start singleQueue sampleTblCfgs = .ok T ∧
      TblExact inetFamily (ffRssTblGetPortrange true) RssState.start singleQueue
        (inetLines sampleTblCfgs) T := by
  obtain ⟨T, hT⟩ := sampleTbl_init
  exact ⟨T, hT, (rssTbl_exact sampleTbl_nonZero).1 T hT⟩

end FStack.Rss
