import FStack.Rss.PortRange

/-!
# Restricting the tables again and again

Calls of `ff_rss_tbl_set_portrange` (`lib/ff_dpdk_if.c:3233-3290`) and its IPv6 sibling
(`lib/ff_dpdk_if.c:4017-4073`) on a table that earlier calls may have restricted.

A call changes only `first`, `last`, `first_idx` and `last_idx` of entries, so the ports stay sorted
and `last_idx` stays below `num` (`restricted_call`, `restricted_calls`). What initialisation adds
is `last_idx = num` (`fresh_init`), which the scan needs when all ports of an entry are below
`last`.

Results:
* `setPortrange_exact_iff`: when a call is exact, after any earlier calls.
* `setPortrange_not_exact`: two calls on one table, the second of which fails without reason.
-/

namespace FStack.Rss

open Function List FStack.Lib.Run

variable {A : Type} [DecidableEq A] {F : Family A} {first last : Nat}

/-! ## Calls after any history -/

/-- The table after earlier calls with these ranges. -/
def afterCalls (set : Nat → Nat → RssTbl A → Int × RssTbl A) (T : RssTbl A)
    (calls : List (Nat × Nat)) : RssTbl A :=
  calls.foldl (fun T c => (set c.1 c.2 T).2) T

section

variable (F : Family A)

/-- The law: the call succeeds iff every entry owns a port of the range; on success every window is
exact; and the outcome is the one on the table `T₀` as it was initialised. -/
structure CallExact (set : Nat → Nat → RssTbl A → Int × RssTbl A) (T₀ T : RssTbl A)
    (first last : Nat) : Prop where
  succeeds : (set first last T).1 = 0 ↔
    ∀ p ∈ slots, isEntry F T p = true → Owns (dipAt T p) first last
  exact_window : (set first last T).1 = 0 → ∀ p ∈ slots, isEntry F T p = true →
    WindowExact first last (dipAt (set first last T).2 p)
  history_free : (set first last T).1 = (set first last T₀).1 ∧
    ((set first last T).1 = 0 → ∀ p ∈ slots, isEntry F T p = true →
      (dipAt (set first last T).2 p).firstIdx = (dipAt (set first last T₀).2 p).firstIdx ∧
      (dipAt (set first last T).2 p).lastIdx = (dipAt (set first last T₀).2 p).lastIdx)

/-- **When the law holds**: every entry owns a port of the range, and one whose ports all lie below
`last` still has `last_idx = num`; or some entry owns none and fails through a sound exit. -/
def CallOk (T : RssTbl A) (first last : Nat) : Prop :=
  (∀ p ∈ slots, isEntry F T p = true → Owns (dipAt T p) first last ∧
    ((dipAt T p).dport (dipAt T p).num < last → (dipAt T p).lastIdx = (dipAt T p).num)) ∨
  ∃ p ∈ slots, isEntry F T p = true ∧ ¬Owns (dipAt T p) first last ∧
    FailsSafely (dipAt T p) first last

/-- Entries as initialisation leaves them. -/
def Fresh (T : RssTbl A) : Prop :=
  ∀ p ∈ slots, isEntry F T p = true → EntryOk (dipAt T p) ∧ (dipAt T p).lastIdx = (dipAt T p).num

/-- The table comes from `T₀` by restrictions. -/
structure Restricted (T₀ T : RssTbl A) : Prop where
  same : SameTable T₀ T
  ok : ∀ p ∈ slots, isEntry F T p = true → EntryOk (dipAt T p)

end

theorem setPortrange_eq (hle : first ≤ last) (T : RssTbl A) :
    setPortrange F true first last T = restrictSlots F first last slots T := by
  simp [setPortrange, not_lt.2 hle]

variable {T₀ T : RssTbl A} {s : RssState} {lc : LcoreConf} {lines : List (TblLine A)}

/-- **One call** keeps the table a restriction. -/
theorem restricted_call (h : Restricted F T₀ T) (first last : Nat) :
    Restricted F T₀ (setPortrange F true first last T).2 := by
  rcases lt_or_ge last first with hlt | hle
  · simpa [setPortrange, hlt] using h
  rw [setPortrange_eq hle]
  obtain ⟨-, -, hdip, -, hsame⟩ := restrictSlots_spec F first last T
    slots_nodup
  refine ⟨h.same.trans hsame, fun p hp hent => ?_⟩
  rw [hsame.isEntry] at hent
  rcases hdip p with heq | heq
  · rw [heq]
    exact h.ok p hp hent
  · rw [heq]
    exact restrictEntry_entryOk (h.ok p hp hent) hle

/-- **Any calls** keep the table a restriction. -/
theorem restricted_calls (h : Restricted F T₀ T) (calls : List (Nat × Nat)) :
    Restricted F T₀ (afterCalls (setPortrange F true) T calls) :=
  foldlRecOn (motive := Restricted F T₀) calls _ h fun _ hT c _ =>
    restricted_call hT c.1 c.2

theorem Fresh.restricted (h : Fresh F T₀) : Restricted F T₀ T₀ :=
  ⟨SameTable.refl T₀, fun p hp hent => (h p hp hent).1⟩

section Law

variable (hfresh : Fresh F T₀) (hT : Restricted F T₀ T) (hle : first ≤ last)

include hfresh hT hle

theorem callOk_of_callExact (h : CallExact F (setPortrange F true) T₀ T first last) :
    CallOk F T first last := by
  obtain ⟨hret, hwin, hhist, -⟩ := h
  rw [setPortrange_eq hle] at hret hwin hhist
  rw [setPortrange_eq hle] at hhist
  obtain ⟨h1, h2, -⟩ := restrictSlots_spec F first last T slots_nodup
  obtain ⟨h01, -⟩ := restrictSlots_spec F first last T₀ slots_nodup
  by_cases hall : ∀ p ∈ slots, isEntry F T p = true → Owns (dipAt T p) first last
  · have hz := hret.2 hall
    refine .inl fun p hp hent => ⟨hall p hp hent, fun hnum => ?_⟩
    by_contra hstale
    refine restrictEntry_stale (hT.ok p hp hent) hle (hall p hp hent) hnum hstale
      ⟨h1.1 hz p hp hent, ?_⟩
    rw [← h2 hz p hp hent]
    exact hwin hz p hp hent
  · -- the call fails on the initial table too, where only a sound exit can fail
    have hnz : (restrictSlots F first last slots T₀).1 ≠ 0 := by
      rw [← hhist]
      exact fun hz => hall (hret.1 hz)
    obtain ⟨p, hp, hent, hfail⟩ : ∃ p ∈ slots, isEntry F T₀ p = true ∧
        (restrictEntry first last (dipAt T₀ p)).1 = false := by
      by_contra hno
      refine hnz (h01.2 fun p hp hent => ?_)
      by_contra hf
      exact hno ⟨p, hp, hent, by simpa using hf⟩
    obtain ⟨hok, hlast⟩ := hfresh p hp hent
    have hnone : ¬Owns (dipAt T₀ p) first last := fun howns => by
      rw [(restrictEntry_of_owns hok hle howns fun _ => hlast).1] at hfail
      cases hfail
    have hsafe := (restrictEntry_of_not_owns hok hle hnone).1 hfail
    refine .inr ⟨p, hp, by rw [hT.same.isEntry]; exact hent, ?_, ?_⟩
    · simpa only [Owns, hT.same.num, hT.same.dport] using hnone
    · simpa only [FailsSafely, hT.same.num, hT.same.dport] using hsafe

theorem callExact_of_callOk (h : CallOk F T first last) :
    CallExact F (setPortrange F true) T₀ T first last := by
  have hent₀ : ∀ p, isEntry F T p = isEntry F T₀ p := fun p => hT.same.isEntry p
  obtain ⟨h1, h2, -⟩ := restrictSlots_spec F first last T slots_nodup
  obtain ⟨h01, h02, -⟩ := restrictSlots_spec F first last T₀ slots_nodup
  rcases h with hall | ⟨p, hp, hent, hnone, hsafe⟩
  · have hpass := fun p hp hent => restrictEntry_of_owns (hT.ok p hp hent) hle
      (hall p hp hent).1 (hall p hp hent).2
    have hpass₀ : ∀ p ∈ slots, isEntry F T p = true →
        (restrictEntry first last (dipAt T₀ p)).1 = true ∧
          WindowExact first last (restrictEntry first last (dipAt T₀ p)).2 := by
      intro p hp hent
      obtain ⟨hok, hlast⟩ := hfresh p hp (by rw [← hent₀]; exact hent)
      refine restrictEntry_of_owns hok hle ?_ fun _ => hlast
      simpa only [Owns, hT.same.num, hT.same.dport] using (hall p hp hent).1
    have hz := h1.2 fun p hp hent => (hpass p hp hent).1
    have hz₀ := h01.2 fun p hp hent => (hpass₀ p hp (by rw [hent₀]; exact hent)).1
    refine ⟨?_, ?_, ?_⟩ <;> rw [setPortrange_eq hle]
    · exact ⟨fun _ p hp hent => (hall p hp hent).1, fun _ => hz⟩
    · intro _ p hp hent
      rw [h2 hz p hp hent]
      exact (hpass p hp hent).2
    · rw [setPortrange_eq hle]
      refine ⟨hz.trans hz₀.symm, fun _ p hp hent => ?_⟩
      have hent' : isEntry F T₀ p = true := by rw [← hent₀]; exact hent
      rw [h2 hz p hp hent, h02 hz₀ p hp hent']
      exact restrictEntry_unique (hfresh p hp hent').1 hle (hT.ok p hp hent) (hT.same.dport p)
        (hT.same.num p) (hpass₀ p hp hent) (hpass p hp hent)
  · have hfail := (restrictEntry_of_not_owns (hT.ok p hp hent) hle hnone).2 hsafe
    have hent' : isEntry F T₀ p = true := by rw [← hent₀]; exact hent
    have hfail₀ : (restrictEntry first last (dipAt T₀ p)).1 = false := by
      refine (restrictEntry_of_not_owns (hfresh p hp hent').1 hle ?_).2 ?_
      · simpa only [Owns, hT.same.num, hT.same.dport] using hnone
      · simpa only [FailsSafely, hT.same.num, hT.same.dport] using hsafe
    have hnz : (restrictSlots F first last slots T).1 ≠ 0 := fun hz => by
      rw [h1.1 hz p hp hent] at hfail
      cases hfail
    have hnz₀ : (restrictSlots F first last slots T₀).1 ≠ 0 := fun hz => by
      rw [h01.1 hz p hp hent'] at hfail₀
      cases hfail₀
    refine ⟨?_, ?_, ?_⟩ <;> rw [setPortrange_eq hle]
    · exact ⟨fun hz => absurd hz hnz, fun hall => absurd (hall p hp hent) hnone⟩
    · exact fun hz => absurd hz hnz
    · rw [setPortrange_eq hle]
      refine ⟨?_, fun hz => absurd hz hnz⟩
      rw [(restrictSlots_ret slots T).resolve_left hnz,
        (restrictSlots_ret slots T₀).resolve_left hnz₀]

theorem callExact_iff : CallExact F (setPortrange F true) T₀ T first last ↔ CallOk F T first last :=
  ⟨callOk_of_callExact hfresh hT hle, callExact_of_callOk hfresh hT hle⟩

end Law

/-! ## Tables as initialised -/

/-- A free slot is zero, and a used one was filled with the ports a check accepts. -/
def SlotFilled (F : Family A) (s : RssState) (lc : LcoreConf) (e : DipSlot A) : Prop :=
  (e.daddr = F.any → e = DipSlot.zero F) ∧
    (e.daddr ≠ F.any → ∃ c : TblLine A,
      Filled (F.check s lc c.portId c.saddr c.daddr c.sport) c.daddr e)

/-- **One line** fills at most one slot, which was free. -/
theorem slotFilled_line {c : TblLine A} (hd : c.daddr ≠ F.any) {T' : RssTbl A}
    (hline : tblLine F s lc T c = .ok T') (h : ∀ p, SlotFilled F s lc (dipAt T p)) (p : Nat × Nat) :
    SlotFilled F s lc (dipAt T' p) := by
  unfold tblLine at hline
  split at hline
  · cases hline
    exact h p
  rename_i i hi
  split at hline
  · cases hline
    exact h p
  rename_i j hj
  split at hline
  next hfree =>
    obtain ⟨e, hfill, hret⟩ := bind_eq_ok.1 hline
    cases hret
    have hzero : (T i).dipTbl j = DipSlot.zero F := (h (i, j)).1 hfree
    rw [hzero] at hfill
    have hfilled := fillEntry_spec hfill
    by_cases hp : p = (i, j)
    · subst hp
      have heq : dipAt (update T i
          ⟨c.saddr, c.sport, update (T i).dipTbl j e⟩) (i, j) = e := by simp [dipAt]
      rw [heq]
      exact ⟨fun hany => absurd (hfilled.daddr.symm.trans hany) hd, fun _ => ⟨c, hfilled⟩⟩
    · have heq : dipAt (update T i
          ⟨c.saddr, c.sport, update (T i).dipTbl j e⟩) p = dipAt T p := by
        unfold dipAt
        by_cases hpi : p.1 = i
        · have hpj : p.2 ≠ j := fun hpj => hp (Prod.ext hpi hpj)
          rw [hpi, update_self]
          exact update_of_ne hpj _ _
        · rw [update_of_ne hpi]
      rw [heq]
      exact h p
  · cases hline
    exact h p

theorem slotFilled_init (hne : ∀ c ∈ lines, c.daddr ≠ F.any)
    (hrun : tblInit F true s lc lines = .ok T) : ∀ p, SlotFilled F s lc (dipAt T p) :=
  foldlM_invariant (P := fun T => ∀ p, SlotFilled F s lc (dipAt T p))
    (fun c hc _ _ hline h => slotFilled_line (hne c hc) hline h) hrun
    fun _ => ⟨fun _ => rfl, fun hany => absurd rfl hany⟩

theorem isEntry_daddr {p : Nat × Nat} (h : isEntry F T p = true) : (dipAt T p).daddr ≠ F.any := by
  simp only [isEntry, Bool.and_eq_true, bne_iff_ne] at h
  exact h.2

theorem isEntry_of_keys {i j : Nat} {k : A × InPort} {d : A} (hk : saddrKeys F T i = some k)
    (hd : daddrKeys F (T i) j = some d) : isEntry F T (i, j) = true := by
  have hs : (T i).saddr ≠ F.any := fun hany => by simp [saddrKeys, hany] at hk
  have hd' : ((T i).dipTbl j).daddr ≠ F.any := fun hany => by simp [daddrKeys, hany] at hd
  simp [isEntry, hs, hd']

theorem fresh_init (hne : ∀ c ∈ lines, c.daddr ≠ F.any) (hrun : tblInit F true s lc lines = .ok T) :
    Fresh F T := by
  intro p _ hent
  obtain ⟨c, hfill⟩ := (slotFilled_init hne hrun p).2 (isEntry_daddr hent)
  obtain ⟨-, hlast, hmono, -⟩ := portsExact_of_filled hfill
  exact ⟨⟨hmono, hlast.le⟩, hlast⟩

/-! ## The result -/

/-- The local address of a line is not zero. A line with a zero one leaves its slot free. -/
def RssTblCfg.LocalNonZero : RssTblCfg → Prop
  | .inet line => line.daddr ≠ inetFamily.any
  | .inet6 line => line.daddr ≠ inet6Family.any

variable {cfgs : List RssTblCfg} {e : DipSlot A}

/-- **A call on an initialised table, after any earlier calls, is exact and history-free iff** it
meets `CallOk`; for IPv4 and for IPv6. -/
theorem setPortrange_exact_iff (hne : ∀ c ∈ cfgs, c.LocalNonZero) (calls : List (Nat × Nat))
    (hle : first ≤ last) : (∀ T₀, ffRssTblInit true s lc cfgs = .ok T₀ →
      (CallExact inetFamily (ffRssTblSetPortrange true) T₀
          (afterCalls (ffRssTblSetPortrange true) T₀ calls) first last ↔
        CallOk inetFamily (afterCalls (ffRssTblSetPortrange true) T₀ calls) first last)) ∧
    ∀ T₀, ffRssTbl6Init true s lc cfgs = .ok T₀ →
      (CallExact inet6Family (ffRssTbl6SetPortrange true) T₀
          (afterCalls (ffRssTbl6SetPortrange true) T₀ calls) first last ↔
        CallOk inet6Family (afterCalls (ffRssTbl6SetPortrange true) T₀ calls) first last) := by
  refine ⟨fun T₀ hT₀ => ?_, fun T₀ hT₀ => ?_⟩
  · have hfresh := fresh_init (fun _ hc => hne _ (mem_of_inetLines hc)) hT₀
    exact callExact_iff hfresh (restricted_calls hfresh.restricted calls) hle
  · have hfresh := fresh_init (fun _ hc => hne _ (mem_of_inet6Lines hc)) hT₀
    exact callExact_iff hfresh (restricted_calls hfresh.restricted calls) hle

theorem setPortrange_exact_iff_sample :
    ∃ T₀, ffRssTblInit true RssState.start singleQueue sampleTblCfgs = .ok T₀ ∧
      (CallExact inetFamily (ffRssTblSetPortrange true) T₀
          (afterCalls (ffRssTblSetPortrange true) T₀ [(600, 1023)]) 10000 65535 ↔
        CallOk inetFamily (afterCalls (ffRssTblSetPortrange true) T₀ [(600, 1023)]) 10000 65535) := by
  obtain ⟨T₀, hT₀⟩ := sampleTbl_init
  refine ⟨T₀, hT₀, (setPortrange_exact_iff (fun c hc => ?_) [(600, 1023)] (by decide)).1 T₀ hT₀⟩
  cases c <;> exact (sampleTbl_nonZero _ hc).2

/-! ## A second call that fails without reason

On a single-queue port every port is in the table. The reserved range first, the default ephemeral
range second: `last_idx` is still that of the first call. -/

/-- The entry lists the ports from 0 to 65534. -/
def ListsAll (e : DipSlot A) : Prop := e.num = 65535 ∧ ∀ k, 1 ≤ k → k ≤ 65535 → e.dport k = k - 1

omit [DecidableEq A] in
theorem listsAll_of_filled {check : InPort → Option Bool} {daddr : A} (h : Filled check daddr e)
    (hall : ∀ q, q < maxDport → check (htons q) = some true) : ListsAll e := by
  have hports := acceptedPorts_eq_range hall
  have hmax : maxDport = 65536 := rfl
  refine ⟨?_, fun k hk hkn => ?_⟩
  · rw [h.num, hports, length_range, hmax]
    decide
  · obtain ⟨k, rfl⟩ := Nat.exists_eq_add_of_le' hk
    rw [h.dport k (by rw [hports, length_range]; omega)]
    simp [hports]

omit [DecidableEq A] in
theorem ListsAll.owns (h : ListsAll e) (hf : first ≤ 65534) (hle : first ≤ last) :
    Owns e first last := by
  have hport := h.2 (first + 1) (by omega) (by omega)
  exact ⟨first + 1, by omega, by rw [h.1]; omega, by omega, by omega⟩

/-- On a fresh table the call succeeds when every entry owns a port of the range. -/
theorem callExact_fresh (hfresh : Fresh F T₀) (hle : first ≤ last)
    (howns : ∀ p ∈ slots, isEntry F T₀ p = true → Owns (dipAt T₀ p) first last) :
    CallExact F (setPortrange F true) T₀ T₀ first last ∧
      (setPortrange F true first last T₀).1 = 0 := by
  have hexact := callExact_of_callOk hfresh hfresh.restricted hle
    (.inl fun p hp hent => ⟨howns p hp hent, fun _ => (hfresh p hp hent).2⟩)
  exact ⟨hexact, hexact.succeeds.2 howns⟩

/-- Restricted once below 65534, such a table is never exact again up to 65535. -/
theorem not_callOk_of_listsAll (hfresh : Fresh F T₀)
    (hall : ∀ p ∈ slots, isEntry F T₀ p = true → ListsAll (dipAt T₀ p))
    (hex : ∃ p ∈ slots, isEntry F T₀ p = true) {first' last' : Nat} (hle : first' ≤ last')
    (hlast' : last' < 65534) (hf : first ≤ 65534) :
    ¬CallOk F (setPortrange F true first' last' T₀).2 first 65535 := by
  have hcall := restricted_call hfresh.restricted first' last'
  have hlist : ∀ p ∈ slots, isEntry F (setPortrange F true first' last' T₀).2 p = true →
      ListsAll (dipAt (setPortrange F true first' last' T₀).2 p) := by
    intro p hp hent
    rw [hcall.same.isEntry] at hent
    simpa only [ListsAll, hcall.same.num, hcall.same.dport] using hall p hp hent
  rintro (hok | ⟨p, hp, hent, hnone, -⟩)
  · obtain ⟨p, hp, hent⟩ := hex
    have hent' : isEntry F (setPortrange F true first' last' T₀).2 p = true := by
      rw [hcall.same.isEntry]
      exact hent
    obtain ⟨hnum, hport⟩ := hlist p hp hent'
    have hidx := (hok p hp hent').2 (by rw [hnum, hport 65535 (by decide) (by decide)]; decide)
    -- the first call was exact, so the window it left does not reach index 65535
    obtain ⟨hfirst, hz⟩ := callExact_fresh hfresh hle fun q hq hqe =>
      (hall q hq hqe).owns (by omega) hle
    have hwin := hfirst.exact_window hz p hp hent
    obtain ⟨k, hk, hkl, -⟩ := (hwin first').2
      ⟨⟨first' + 1, by omega, by omega, by rw [hport (first' + 1) (by omega) (by omega)]; omega⟩,
        le_rfl, hle⟩
    obtain ⟨-, -, habs⟩ := (hwin 65534).1
      ⟨65535, by omega, by omega, hport 65535 (by omega) (by omega)⟩
    omega
  · exact hnone ((hlist p hp hent).owns hf (by omega))

section Sample

variable {T₀ : RssTbl InAddr}
  (hT₀ : ffRssTblInit true RssState.start singleQueue sampleTblCfgs = .ok T₀)

include hT₀

theorem sampleTbl_represents : Represents inetFamily RssState.start singleQueue T₀
    (accepted (inetLines sampleTblCfgs)) :=
  represents_init (by decide) hT₀

theorem sampleTbl_fresh : Fresh inetFamily T₀ := fresh_init (by decide) hT₀

theorem sampleTbl_listsAll :
    ∀ p ∈ slots, isEntry inetFamily T₀ p = true → ListsAll (dipAt T₀ p) := by
  intro p _ hent
  obtain ⟨c, hfill⟩ := (slotFilled_init (by decide) hT₀ p).2 (isEntry_daddr hent)
  exact listsAll_of_filled hfill fun q _ => by
    simp [inetFamily, ffRssCheck, rssCheck, singleQueue]

end Sample

theorem setPortrange_not_exact :
    ∃ T₀, ffRssTblInit true RssState.start singleQueue sampleTblCfgs = .ok T₀ ∧
      ¬CallExact inetFamily (ffRssTblSetPortrange true) T₀
        (afterCalls (ffRssTblSetPortrange true) T₀ [(600, 1023)]) 10000 65535 := by
  obtain ⟨T₀, hT₀⟩ := sampleTbl_init
  have hfresh := sampleTbl_fresh hT₀
  refine ⟨T₀, hT₀, fun h => ?_⟩
  refine not_callOk_of_listsAll hfresh (sampleTbl_listsAll hT₀) ?_ (by decide) (by decide)
    (by decide)
    (callOk_of_callExact hfresh (restricted_calls hfresh.restricted [(600, 1023)]) (by decide) h)
  have hrep := sampleTbl_represents hT₀
  have hc : (inetLines sampleTblCfgs)[0] ∈ accepted (inetLines sampleTblCfgs) :=
    mem_iff_getElem?.2 ⟨0, rfl⟩
  obtain ⟨i, hi, hk⟩ := (hrep.keys _).1 (mem_map_of_mem hc)
  obtain ⟨j, hj, hd⟩ := (hrep.daddrs i _ hi hk _).1 (mem_map_of_mem hc)
  exact ⟨(i, j), mem_slots.2 ⟨hi, hj⟩, isEntry_of_keys hk hd⟩

end FStack.Rss
