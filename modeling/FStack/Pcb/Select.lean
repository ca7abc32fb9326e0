import FStack.Pcb.LportDest

/-!
# What source-port selection guarantees

For a call of `in_pcb_lport_dest` (`freebsd/netinet/in_pcb.c:766-1103`) with
`INPLOOKUP_LPORT_RSS_CHECK`, after any calls: the port it returns lies in the caller's range, is
unused and belongs to the local queue, and it gives up only when no such port exists (`SelectsOk`).

This holds for the scan and, where the reverse calculation is right, for the fast path. A table hit
is as good as the table: its window was cut by the range of the *first* caller (`rss_tbl_init` is
static), its ports were computed for the DPDK port of the configuration line, and on a single-queue
port it lacks port 65535. `CallOk` says when none of this matters; a first caller that cannot cut
the table does without it (`GivesUp`).

Results:
* `inPcbLportDest_selects`: any call that meets `CallOk`, after any calls.
* `inPcbLportDest_leaves_range`: a second caller that gets a port outside its range.
-/

namespace FStack.Pcb

open Function List FStack.Rss FStack.Lib FStack.Lib.Run

variable {A : Type} {F : ThashFamily A} {env : LportEnv} {c : LportCall A} {T₀ T : RssTbl A}
  {fs : FamState A} {lastport first last : Nat} {e : DipSlot A}
  {r : FamState A × Nat × Except LportError Nat} {daddr saddr : A} {sport : InPort}

section Table

variable [DecidableEq A] {F : Family A} {T T' : RssTbl A}

/-! ## Lookup depends on the addresses only -/

/-- The slots hold the same addresses and ports. -/
structure SameKeys (T T' : RssTbl A) : Prop where
  saddr : ∀ i, (T' i).saddr = (T i).saddr
  sport : ∀ i, (T' i).sport = (T i).sport
  daddr : ∀ p, (dipAt T' p).daddr = (dipAt T p).daddr

section

variable (h : SameKeys T T')

include h

omit [DecidableEq A] in
theorem SameKeys.dipTbl (i j : Nat) :
    ((T' i).dipTbl j).daddr = ((T i).dipTbl j).daddr := h.daddr (i, j)

theorem SameKeys.findSaddr (saddr : A) (sport : InPort) :
    findSaddr F T' saddr sport = findSaddr F T saddr sport := by
  simp only [Rss.findSaddr, h.saddr, h.sport]

theorem SameKeys.findDaddr (i : Nat) (daddr : A) :
    findDaddr F (T' i) daddr = findDaddr F (T i) daddr := by
  simp only [Rss.findDaddr, h.dipTbl]

theorem SameKeys.tblSlot (saddr daddr : A) (sport : InPort) :
    tblSlot F T' saddr daddr sport = tblSlot F T saddr daddr sport := by
  simp only [Pcb.tblSlot, h.findSaddr, h.findDaddr]

end

/-- What a lookup finds is the entry at `tblSlot`. -/
theorem tblGet_slot (h : tblGet F true T saddr daddr sport = .ok e) :
    dipAt T (tblSlot F T saddr daddr sport) = e := by
  simp only [tblGet, Bool.not_true, Bool.false_eq_true, if_false] at h
  split at h
  · cases h
  rename_i i hi
  split at h
  · cases h
  split at h
  · cases h
  rename_i j hj
  split at h
  · cases h
  cases h
  simp only [tblSlot, hi, Option.getD_some, hj]
  rfl

theorem tblGet_of_sameKeys (h : SameKeys T T') (hget : tblGet F true T' saddr daddr sport = .ok e) :
    tblGet F true T saddr daddr sport = .ok (dipAt T (tblSlot F T saddr daddr sport)) := by
  simp only [tblGet, Bool.not_true, Bool.false_eq_true, if_false, h.findSaddr, h.findDaddr,
    h.saddr, h.dipTbl] at hget ⊢
  cases hi : findSaddr F T saddr sport with
  | none => simp [hi] at hget
  | some i =>
    simp only [hi] at hget ⊢
    split at hget
    · cases hget
    rename_i hany
    rw [if_neg hany]
    cases hj : findDaddr F (T i) daddr with
    | none => simp [hj] at hget
    | some j =>
      simp only [hj] at hget ⊢
      split at hget
      · cases hget
      rename_i hdany
      rw [if_neg hdany]
      simp only [tblSlot, hi, Option.getD_some, hj]
      rfl

/-! ## Tables that differ in the rotating index -/

/-- `T'` is `T` but for `dport[0]`. -/
structure SameButIdx (T T' : RssTbl A) : Prop where
  saddr : ∀ i, (T' i).saddr = (T i).saddr
  sport : ∀ i, (T' i).sport = (T i).sport
  entry : ∀ p, dipAt T' p = { dipAt T p with dport := (dipAt T' p).dport }
  dport : ∀ p k, k ≠ 0 → (dipAt T' p).dport k = (dipAt T p).dport k

omit [DecidableEq A]

theorem SameButIdx.refl (T : RssTbl A) : SameButIdx T T :=
  ⟨fun _ => rfl, fun _ => rfl, fun _ => rfl, fun _ _ _ => rfl⟩

theorem SameButIdx.sameKeys (h : SameButIdx T T') : SameKeys T T' :=
  ⟨h.saddr, h.sport, fun p => by rw [h.entry p]⟩

theorem sameKeys_of_sameTable (h : SameTable T T') : SameKeys T T' := ⟨h.saddr, h.sport, h.daddr⟩

theorem SameKeys.trans {T'' : RssTbl A} (h : SameKeys T T') (h' : SameKeys T' T'') :
    SameKeys T T'' :=
  ⟨fun i => (h'.saddr i).trans (h.saddr i), fun i => (h'.sport i).trans (h.sport i),
    fun p => (h'.daddr p).trans (h.daddr p)⟩

/-- Moving the index of one entry. -/
theorem SameButIdx.setIdx (h : SameButIdx T T') (p : Nat × Nat) (k : Nat) :
    SameButIdx T (setDip T' p.1 p.2
      { dipAt T' p with dport := update (dipAt T' p).dport 0 k }) where
  saddr := fun i => by
    rw [← h.saddr i]
    unfold setDip
    by_cases hi : i = p.1
    · simp [hi]
    · rw [update_of_ne hi]
  sport := fun i => by
    rw [← h.sport i]
    unfold setDip
    by_cases hi : i = p.1
    · simp [hi]
    · rw [update_of_ne hi]
  entry := fun q => by
    by_cases hq : q = p
    · subst hq
      rw [dipAt_setDip_self, h.entry q]
    · rw [dipAt_setDip_of_ne T' _ hq]
      exact h.entry q
  dport := fun q m hm => by
    by_cases hq : q = p
    · subst hq
      rw [dipAt_setDip_self]
      exact (update_of_ne hm _ _).trans (h.dport q m hm)
    · rw [dipAt_setDip_of_ne T' _ hq]
      exact h.dport q m hm

theorem SameKeys.symm (h : SameKeys T T') : SameKeys T' T :=
  ⟨fun i => (h.saddr i).symm, fun i => (h.sport i).symm, fun p => (h.daddr p).symm⟩

end Table

section Call

variable [DecidableEq A] {fs' : FamState A} {lastport' : Nat}

/-! ## The table along the calls -/

/-- **The state of a family's table**: as initialised, or cut once by some range, or not in use. -/
def FamInv (F : ThashFamily A) (env : LportEnv) (T₀ : RssTbl A) (fs : FamState A) : Prop :=
  match fs.init with
  | .unset => fs.tbl = T₀
  | .ready => ∃ first last, first ≤ last ∧
      (setPortrange F.toFamily env.enabled first last T₀).1 = 0 ∧
      SameButIdx (setPortrange F.toFamily env.enabled first last T₀).2 fs.tbl
  | .failed => True

theorem famInv_start : FamInv F env T₀ ⟨.unset, T₀⟩ := show T₀ = T₀ from rfl

theorem setPortrange_ret (F : Family A) (enabled : Bool) (first last : Nat) (T : RssTbl A) :
    (setPortrange F enabled first last T).1 = 0 ∨ (setPortrange F enabled first last T).1 = -1 := by
  unfold setPortrange
  split
  · exact .inr rfl
  · exact restrictSlots_ret slots T

theorem tableInit_unset (h : fs.init = .unset) :
    tableInit F env c fs =
      ⟨if (setPortrange F.toFamily env.enabled c.first c.last fs.tbl).1 < 0 then .failed else .ready,
        (setPortrange F.toFamily env.enabled c.first c.last fs.tbl).2⟩ := by
  unfold tableInit
  rw [h]

theorem tableInit_of_ne (h : fs.init ≠ .unset) : tableInit F env c fs = fs := by
  unfold tableInit
  split
  next hu => exact absurd hu h
  · rfl

theorem famInv_tableInit (h : FamInv F env T₀ fs) : FamInv F env T₀ (tableInit F env c fs) := by
  by_cases hu : fs.init = .unset
  · have htbl : fs.tbl = T₀ := by simpa [FamInv, hu] using h
    rw [tableInit_unset hu, htbl]
    rcases setPortrange_ret F.toFamily env.enabled c.first c.last T₀ with hz | hneg
    · rw [if_neg (by rw [hz]; decide)]
      exact ⟨c.first, c.last, c.first_le_last, hz, SameButIdx.refl _⟩
    · rw [if_pos (by rw [hneg]; decide)]
      trivial
  · rw [tableInit_of_ne hu]
    exact h

/-- A lookup leaves the table alone and gives the table up only on an error. -/
theorem tableGet_cases (F : ThashFamily A) (env : LportEnv) (c : LportCall A) (fs : FamState A) :
    (∃ e, tableGet F env c fs = (fs, some e) ∧ fs.init = .ready ∧
      tblGet F.toFamily env.enabled fs.tbl c.faddr c.laddr c.fport = .ok e) ∨
    ∃ fs', tableGet F env c fs = (fs', none) ∧ (fs' = fs ∨ fs'.init = .failed) := by
  unfold tableGet
  split
  next hready =>
    split
    next e hget => exact .inl ⟨e, rfl, hready, hget⟩
    · split
      · exact .inr ⟨_, rfl, .inr rfl⟩
      · exact .inr ⟨_, rfl, .inl rfl⟩
  · exact .inr ⟨fs, rfl, .inl rfl⟩

theorem famInv_of_failed (h : fs.init = .failed) : FamInv F env T₀ fs := by
  simp [FamInv, h]

omit [DecidableEq A] in
theorem portScan_fst (h : portScan F env c fs lastport = .ok r) : r.1 = fs := by
  obtain ⟨r', -, hret⟩ := bind_eq_ok.1 h
  cases hret
  rfl

theorem tableScan_fst (h : tableScan F c fs e = .ok r) :
    let p := tblSlot F.toFamily fs.tbl c.faddr c.laddr c.fport
    ∃ k, r.1 = ⟨fs.init, setDip fs.tbl p.1 p.2 { e with dport := update e.dport 0 k }⟩ := by
  obtain ⟨r', -, hret⟩ := bind_eq_ok.1 h
  cases hret
  exact ⟨r'.2, rfl⟩

/-- In the state `ready` the feature is enabled. -/
theorem enabled_of_ret (h : (setPortrange F.toFamily env.enabled first last T).1 = 0) :
    env.enabled = true := by
  cases he : env.enabled with
  | true => rfl
  | false => simp [setPortrange, he] at h

/-- **One call** keeps the state of the table. -/
theorem famInv_call (h : FamInv F env T₀ fs) (hcall : lportDest F env c fs lastport = .ok r) :
    FamInv F env T₀ r.1 := by
  unfold lportDest at hcall
  split at hcall
  · cases hcall
    exact h
  split at hcall
  · have hinit := famInv_tableInit (c := c) h
    rcases tableGet_cases F env c (tableInit F env c fs) with ⟨e, hget, hready, hfind⟩ |
      ⟨fs', hget, hfs'⟩
    · rw [hget] at hcall
      obtain ⟨k, hr⟩ := tableScan_fst hcall
      have hinv := hinit
      unfold FamInv at hinv
      rw [hready] at hinv
      obtain ⟨first, last, hle, hz, hsame⟩ := hinv
      rw [enabled_of_ret hz] at hfind
      rw [hr, FamInv, hready]
      refine ⟨first, last, hle, hz, ?_⟩
      rw [← tblGet_slot hfind]
      exact hsame.setIdx _ k
    · rw [hget] at hcall
      have hinv : FamInv F env T₀ fs' := by
        rcases hfs' with rfl | hf
        · exact hinit
        · exact famInv_of_failed hf
      dsimp only at hcall
      split at hcall
      · cases hcall
        exact hinv
      · rw [portScan_fst hcall]
        exact hinv
      · obtain ⟨sel, -, hcall⟩ := bind_eq_ok.1 hcall
        split at hcall
        · cases hcall
          exact hinv
        · rw [portScan_fst hcall]
          exact hinv
  · rw [portScan_fst hcall]
    exact h

/-! ## The property -/

/-- The reply to port `p` comes to the local queue of the DPDK port `port`. -/
def OnQueue (F : ThashFamily A) (env : LportEnv) (port : Nat) (c : LportCall A) (p : Nat) : Prop :=
  F.check env.s env.lc port c.faddr c.laddr c.fport (htons p) = some true

/-- A port that is returned lies in the caller's range, is unused and on the local queue; the call
gives up only when there is none. -/
structure SelectsOk (F : ThashFamily A) (env : LportEnv) (port : Nat) (c : LportCall A)
    (res : Except LportError Nat) : Prop where
  port_ok : ∀ p, res = .ok p → c.first ≤ p ∧ p ≤ c.last ∧ c.used p = false ∧ OnQueue F env port c p
  none_left : res = .error .addrNotAvail → ∀ p, c.first ≤ p → p ≤ c.last →
    ¬(c.used p = false ∧ OnQueue F env port c p)

variable {port p : Nat} {res : Except LportError Nat} {e₀ : DipSlot A} {lines : List (TblLine A)}

omit [DecidableEq A] in
theorem acceptPort_veth {b : Bool} (hflag : c.rssCheckFlag = true) (hifp : c.ifp = .veth port)
    (h : acceptPort F env c p = .ok b) : b = true ↔ c.used p = false ∧ OnQueue F env port c p := by
  unfold acceptPort at h
  rw [hflag, hifp] at h
  cases hu : c.used p with
  | true =>
    simp only [hu, if_true] at h
    cases h
    simp
  | false =>
    simp only [hu, Bool.false_eq_true, if_false, Bool.not_true] at h
    split at h
    · cases h
    next b' hcheck =>
      cases h
      simp [OnQueue, hcheck]

omit [DecidableEq A] in
/-- **The scan** finds a right port of the range if there is one. -/
theorem portScan_selectsOk (hflag : c.rssCheckFlag = true) (hifp : c.ifp = .veth port)
    (h : portScan F env c fs lastport = .ok (fs', lastport', res)) : SelectsOk F env port c res := by
  obtain ⟨⟨found, p⟩, hscan, hret⟩ := bind_eq_ok.1 h
  cases found with
  | true =>
    cases hret
    obtain ⟨hlo, hhi, hacc⟩ := CyclicScan.scan_range_found c.first_le_last hscan
    obtain ⟨hused, hqueue⟩ := (acceptPort_veth hflag hifp hacc).1 rfl
    refine ⟨fun q hq => ?_, nofun⟩
    cases hq
    exact ⟨hlo, hhi, hused, hqueue⟩
  | false =>
    cases hret
    refine ⟨nofun, fun _ q hlo hhi hright => ?_⟩
    have hrej := CyclicScan.scan_range_exhausted c.last_lt le_rfl hscan hlo hhi
    cases (acceptPort_veth hflag hifp hrej).2 hright

/-! ## A table hit -/

/-- An entry cut to `[first, last]`, its rotating index anywhere. -/
structure CutEntry (e₀ : DipSlot A) (first last : Nat) (e : DipSlot A) : Prop where
  pass : (restrictEntry first last e₀).1 = true
  entry : e = { (restrictEntry first last e₀).2 with dport := e.dport }
  dport : ∀ k, k ≠ 0 → e.dport k = e₀.dport k

omit [DecidableEq A] in
/-- The window of a cut entry with a port in the cut: where it lies, and what it holds. -/
theorem CutEntry.window {check : InPort → Option Bool} (he : CutEntry e₀ first last e)
    (hfill : Filled check daddr e₀) (hle : first ≤ last) (howns : Owns e₀ first last) :
    e.firstIdx ≤ e.lastIdx ∧ e.lastIdx < 65536 ∧
      (∀ i, e.firstIdx ≤ i → portrangeAt e i = e₀.dport i) ∧
      ∀ p, (∃ k, e.firstIdx ≤ k ∧ k ≤ e.lastIdx ∧ e₀.dport k = p) ↔
        (∃ k, 1 ≤ k ∧ k ≤ e₀.num ∧ e₀.dport k = p) ∧ first ≤ p ∧ p ≤ last := by
  obtain ⟨-, hlast, hmono, -⟩ := portsExact_of_filled hfill
  have hok : EntryOk e₀ := ⟨hmono, hlast.le⟩
  obtain ⟨hpass, hwin⟩ := restrictEntry_of_owns hok hle howns fun _ => hlast
  obtain ⟨hne, hidx⟩ := (restrictEntry_fst first last e₀).1 hpass
  have hnum : (restrictEntry first last e₀).2.lastIdx ≤ e₀.num :=
    (restrictEntry_entryOk hok hle).lastIdx_le
  have hsmall : e₀.num ≤ 65535 := by
    rw [hfill.num]
    exact min_le_right _ _
  have hf : e.firstIdx = (restrictEntry first last e₀).2.firstIdx := by rw [he.entry]
  have hl : e.lastIdx = (restrictEntry first last e₀).2.lastIdx := by rw [he.entry]
  refine ⟨by omega, by omega, fun i hi => ?_, fun p => ?_⟩
  · have hi0 : i ≠ 0 := by omega
    rw [portrangeAt, update_of_ne hi0, he.dport i hi0]
  · rw [hf, hl]
    exact hwin p

/-- What the loop through an entry's window returns. -/
theorem tableScan_cases (hidx : e.firstIdx ≤ e.lastIdx) (hsmall : e.lastIdx < 65536)
    (h : tableScan F c fs e = .ok (fs', lastport', res)) :
    (∃ i, e.firstIdx ≤ i ∧ i ≤ e.lastIdx ∧ res = .ok (portrangeAt e i) ∧
      c.used (portrangeAt e i) = false) ∨
    res = .error .addrNotAvail ∧
      ∀ i, e.firstIdx ≤ i → i ≤ e.lastIdx → c.used (portrangeAt e i) = true := by
  obtain ⟨⟨found, i⟩, hscan, hret⟩ := bind_eq_ok.1 h
  cases found with
  | true =>
    cases hret
    obtain ⟨hlo, hhi, hacc⟩ := CyclicScan.scan_range_found hidx hscan
    exact .inl ⟨i, hlo, hhi, rfl, by simpa using hacc⟩
  | false =>
    cases hret
    refine .inr ⟨rfl, fun i hlo hhi => ?_⟩
    have hrej := CyclicScan.scan_range_exhausted hsmall (by omega) hscan hlo hhi
    simpa using hrej

/-- **The table scan** finds a right port of the caller's range if there is one, when the cut and
the caller's range have the same ports of the table. -/
theorem tableScan_selectsOk
    (hfill : Filled (F.check env.s env.lc port c.faddr c.laddr c.fport) daddr e₀)
    (hle : first ≤ last) (he : CutEntry e₀ first last e) (howns : Owns e₀ first last)
    (hcut : ∀ k, 1 ≤ k → k ≤ e₀.num →
      (first ≤ e₀.dport k ∧ e₀.dport k ≤ last ↔ c.first ≤ e₀.dport k ∧ e₀.dport k ≤ c.last))
    (hspare : (∀ q, q < maxDport → OnQueue F env port c q) → c.last = 65535 →
      c.used 65535 = false → ∃ q, c.first ≤ q ∧ q < 65535 ∧ c.used q = false)
    (h : tableScan F c fs e = .ok (fs', lastport', res)) : SelectsOk F env port c res := by
  obtain ⟨-, -, -, hports⟩ := portsExact_of_filled hfill
  obtain ⟨hidx, hsmall, hread, hwindow⟩ := he.window hfill hle howns
  rcases tableScan_cases hidx hsmall h with ⟨i, hlo, hhi, rfl, hfree⟩ | ⟨rfl, hall⟩
  · rw [hread i hlo] at hfree ⊢
    refine ⟨fun q hq => ?_, nofun⟩
    cases hq
    obtain ⟨⟨k, hk, hkn, hki⟩, hin⟩ := (hwindow (e₀.dport i)).1 ⟨i, hlo, hhi, rfl⟩
    have hrange := (hcut k hk hkn).1 (by rw [hki]; exact hin)
    rw [hki] at hrange
    have hq := (hports (e₀.dport i)).1 ⟨k, hk, hkn, hki⟩
    exact ⟨hrange.1, hrange.2, hfree, hq.2.1⟩
  · -- every port of the table in the caller's range is in use
    have hused : ∀ q, c.first ≤ q → q ≤ c.last →
        (∃ k, 1 ≤ k ∧ k ≤ e₀.num ∧ e₀.dport k = q) → c.used q = true := by
      rintro q hlo hhi ⟨k, hk, hkn, rfl⟩
      obtain ⟨i, hi1, hi2, hik⟩ := (hwindow (e₀.dport k)).2
        ⟨⟨k, hk, hkn, rfl⟩, (hcut k hk hkn).2 ⟨hlo, hhi⟩⟩
      have hi := hall i hi1 hi2
      rwa [hread i hi1, hik] at hi
    refine ⟨nofun, fun _ q hlo hhi hright => ?_⟩
    have hq : q < maxDport := hhi.trans_lt c.last_lt
    by_cases hcorner : q = maxDport - 1 ∧
        ∀ q, q < maxDport → F.check env.s env.lc port c.faddr c.laddr c.fport (htons q) = some true
    · obtain ⟨rfl, hfull⟩ := hcorner
      have hlast' : c.last = 65535 := le_antisymm (Nat.le_of_lt_succ c.last_lt) hhi
      obtain ⟨r, hr1, hr2, hr3⟩ := hspare hfull hlast' hright.1
      have htable := (hports r).2 ⟨Nat.lt_succ_of_lt hr2, hfull r (Nat.lt_succ_of_lt hr2),
        fun hc => absurd hc.1 hr2.ne⟩
      rw [hused r hr1 (by omega) htable] at hr3
      cases hr3
    · rw [hused q hlo hhi ((hports q).2 ⟨hq, hright.2, hcorner⟩)] at hright
      cases hright.1

variable (env c) in
/-- **Where a table hit comes from**: a configuration line for the triple, whose entry the cut
left. -/
theorem cutEntry_of_get (hrep : Represents F.toFamily env.s env.lc T₀ (accepted lines))
    (hle : first ≤ last) (hz : (setPortrange F.toFamily true first last T₀).1 = 0)
    (hsame : SameButIdx (setPortrange F.toFamily true first last T₀).2 T)
    (hget : tblGet F.toFamily true T c.faddr c.laddr c.fport = .ok e) :
    ∃ l ∈ accepted lines, l.triple = ((c.faddr, c.fport), c.laddr) ∧ ∃ e₀,
      tblGet F.toFamily true T₀ c.faddr c.laddr c.fport = .ok e₀ ∧
      Filled (lineCheck F.toFamily env.s env.lc l) l.daddr e₀ ∧ CutEntry e₀ first last e := by
  rw [setPortrange_eq hle] at hz hsame
  obtain ⟨h1, h2, -, -, htab⟩ := restrictSlots_spec F.toFamily first last T₀ slots_nodup
  have hkeys := (sameKeys_of_sameTable htab).trans hsame.sameKeys
  have hget₀ := tblGet_of_sameKeys hkeys hget
  obtain ⟨i, j, hi, hj, hik, hjk, hent⟩ :=
    (tblGet_eq_ok_iff hrep ⟨0, c.laddr, c.faddr, c.fport⟩ _).1 hget₀
  obtain ⟨l, hl, htriple⟩ := mem_map.1 ((hrep.daddrs i _ hi hik c.laddr).2 ⟨j, hj, hjk⟩)
  have hslot : tblSlot F.toFamily T₀ c.faddr c.laddr c.fport = (i, j) := by
    have hfi : findSaddr F.toFamily T₀ c.faddr c.fport = some i := by
      rw [findSaddr_eq]
      exact hrep.saddrChained i _ hi hik
    have hfj : findDaddr F.toFamily (T₀ i) c.laddr = some j := by
      rw [findDaddr_eq]
      exact hrep.daddrChained i j _ hj hjk
    simp only [tblSlot, hfi, hfj, Option.getD_some]
  have hmem : (i, j) ∈ slots := mem_slots.2 ⟨hi, hj⟩
  have hentry := isEntry_of_keys hik hjk
  have hdip := h2 hz (i, j) hmem hentry
  have he : dipAt T (i, j) = e := by
    rw [← hslot, ← hkeys.tblSlot]
    exact tblGet_slot hget
  obtain ⟨hkey, hdaddr⟩ := Prod.mk.inj htriple
  refine ⟨l, hl, htriple, dipAt T₀ (i, j), by rw [← hslot]; exact hget₀, ?_, ?_, ?_, ?_⟩
  · exact hrep.entry l hl i j hi hj (by rw [hkey]; exact hik) (by rw [hdaddr]; exact hjk)
  · exact h1.1 hz (i, j) hmem hentry
  · rw [← hdip, ← he]
    exact hsame.entry (i, j)
  · intro k hk
    rw [← he, hsame.dport (i, j) k hk, htab.dport]

theorem accepted_subset : ∀ l ∈ accepted lines, l ∈ lines := by
  refine foldlRecOn (motive := fun acc => ∀ l ∈ acc, l ∈ lines) lines _ (by simp) ?_
  intro acc hacc c hc l hl
  split at hl
  · rcases mem_append.1 hl with hl | hl
    · exact hacc l hl
    · rw [mem_singleton.1 hl]
      exact hc
  · exact hacc l hl

/-! ## When a call is right -/

section

variable (F : ThashFamily A)

variable (env : LportEnv)

/-- **The table entry serves this caller**: it has a port in the caller's range, the range it was
cut to (`first`, `last` of the entry) has the same ports of it as the caller's range, its lines name
the interface's DPDK port, and the port 65535 that a full entry lacks is not the only one left. -/
structure TableOk (lines : List (TblLine A))
    (init : TblStatus) (port : Nat) (c : LportCall A) (e : DipSlot A) : Prop where
  owns : Owns e c.first c.last
  cut : init = .ready → ∀ k, 1 ≤ k → k ≤ e.num →
    (e.first ≤ e.dport k ∧ e.dport k ≤ e.last ↔ c.first ≤ e.dport k ∧ e.dport k ≤ c.last)
  port_eq : ∀ l ∈ lines, l.triple = ((c.faddr, c.fport), c.laddr) → l.portId = port
  spare : (∀ q, q < maxDport → OnQueue F env port c q) → c.last = 65535 →
    c.used 65535 = false → ∃ q, c.first ≤ q ∧ q < 65535 ∧ c.used q = false

/-- This caller is the first, and its cut fails: some entry has no port in its range. -/
def GivesUp (fs : FamState A) (c : LportCall A) : Prop :=
  fs.init = .unset ∧ ∃ p ∈ slots, isEntry F.toFamily fs.tbl p = true ∧
    ¬Owns (dipAt fs.tbl p) c.first c.last ∧ FailsSafely (dipAt fs.tbl p) c.first c.last

/-- **The reverse calculation is right**: it checks its result again, or the port has no context, or
this queue has a RETA entry and the published key hashes the tuple as the context's does. -/
def FastOk (port : Nat) (c : LportCall A) : Prop :=
  env.cfg.recheck = true ∨ ∀ ctxKey, F.ctx env.s port = some ctxKey →
    (∃ m, HasEntry env.s env.lc port m) ∧ HashesAlike env.s ctxKey (F.head c.faddr c.laddr c.fport)

/-- The condition on a call, in the state before it. -/
structure CallOk (lines : List (TblLine A)) (fs : FamState A)
    (port : Nat) (c : LportCall A) : Prop where
  table : fs.init ≠ .failed → ∀ e,
    tblGet F.toFamily env.enabled fs.tbl c.faddr c.laddr c.fport = .ok e →
      TableOk F env lines fs.init port c e ∨ GivesUp F fs c
  fast : 1 < env.lc.nbQueueList port → FastOk F env port c

/-- What is assumed of `rte_thash_adjust_tuple`. -/
def AdjustAssumed (port : Nat) (c : LportCall A) : Prop :=
  ∀ i ctxKey, F.ctx env.s port = some ctxKey →
    AdjustSound ctxKey (env.s.retaSize port) (c.adjust i).adjustTuple

end

omit [DecidableEq A] in
theorem fastPath_selects (hfast : 1 < env.lc.nbQueueList port → FastOk F env port c)
    (hadj : AdjustAssumed F env port c) : ∀ {n i : Nat},
    fastPath F env c port n i = .ok (some p) →
      c.first ≤ p ∧ p ≤ c.last ∧ c.used p = false ∧ OnQueue F env port c p
  | 0, i, h => by
    cases h
  | n + 1, i, h => by
    obtain ⟨sel, hsel, h⟩ := bind_eq_ok.1 h
    split at h
    · cases h
    split at h
    · exact fastPath_selects hfast hadj h
    rename_i hused
    cases h
    obtain ⟨hlo, hhi, -, hre⟩ := adjustSport_found hsel
    refine ⟨hlo, hhi, by simpa using hused, ?_⟩
    obtain ⟨hnb, hctx, -⟩ := adjustSport_eq_some hsel
    rcases hfast hnb with hrecheck | hkeys
    · exact hre hrecheck
    · obtain ⟨ctxKey, hctx⟩ := Option.isSome_iff_exists.1 hctx
      obtain ⟨m, hent⟩ := (hkeys ctxKey hctx).1
      exact adjustSport_found_unchecked hent (env.queueid_lt port) (hadj i)
        (fun key hkey => (hkeys key hkey).2) hsel

omit [DecidableEq A] in
/-- The condition on the cut entry is one on the entry as initialised. -/
theorem tableOk_of_cut (hcut : CutEntry e₀ first last e) (hok : TableOk F env lines .ready port c e)
    : TableOk F env lines .unset port c e₀ ∧
      ∀ k, 1 ≤ k → k ≤ e₀.num →
        (first ≤ e₀.dport k ∧ e₀.dport k ≤ last ↔ c.first ≤ e₀.dport k ∧ e₀.dport k ≤ c.last) := by
  have hnum : e.num = e₀.num := by rw [hcut.entry]; rfl
  have hf : e.first = first := by rw [hcut.entry]; rfl
  have hl : e.last = last := by rw [hcut.entry]; rfl
  refine ⟨⟨?_, nofun, hok.port_eq, hok.spare⟩, fun k hk hkn => ?_⟩
  · obtain ⟨k, hk, hkn, hin⟩ := hok.owns
    rw [hcut.dport k (by omega)] at hin
    exact ⟨k, hk, hnum ▸ hkn, hin⟩
  · have hagree := hok.cut rfl k hk (hnum.symm ▸ hkn)
    rwa [hcut.dport k (by omega), hf, hl] at hagree

section Hit

variable {lines : List (TblLine A)} (hrep : Represents F.toFamily env.s env.lc T₀ (accepted lines))

include hrep

/-- A hit in a table cut to `[first, last]`. -/
theorem hit_selectsOk (hle : first ≤ last) (hz : (setPortrange F.toFamily true first last T₀).1 = 0)
    (hsame : SameButIdx (setPortrange F.toFamily true first last T₀).2 fs.tbl)
    (hget : tblGet F.toFamily true fs.tbl c.faddr c.laddr c.fport = .ok e)
    (hok : ∀ e₀, tblGet F.toFamily true T₀ c.faddr c.laddr c.fport = .ok e₀ →
      CutEntry e₀ first last e → TableOk F env lines .unset port c e₀ ∧
      ∀ k, 1 ≤ k → k ≤ e₀.num →
        (first ≤ e₀.dport k ∧ e₀.dport k ≤ last ↔ c.first ≤ e₀.dport k ∧ e₀.dport k ≤ c.last))
    (h : tableScan F c fs e = .ok (fs', lastport', res)) : SelectsOk F env port c res := by
  obtain ⟨l, hl, htriple, e₀, hget₀, hfill, hcut⟩ := cutEntry_of_get env c hrep hle hz hsame hget
  obtain ⟨hserves, hagree⟩ := hok e₀ hget₀ hcut
  have hport := hserves.port_eq l (accepted_subset l hl) htriple
  obtain ⟨hkey, hdaddr⟩ := Prod.mk.inj htriple
  obtain ⟨hsaddr, hsport⟩ := Prod.mk.inj hkey
  rw [lineCheck, hport, hsaddr, hsport, hdaddr] at hfill
  have howns : Owns e₀ first last := by
    obtain ⟨k, hk, hkn, hin⟩ := hserves.owns
    exact ⟨k, hk, hkn, (hagree k hk hkn).2 hin⟩
  exact tableScan_selectsOk hfill hle hcut howns hagree hserves.spare h

omit hrep in
/-- The cut of a caller that gives the table up fails. -/
theorem cut_fails (hfresh : Fresh F.toFamily fs.tbl) (hgives : GivesUp F fs c) :
    (setPortrange F.toFamily true c.first c.last fs.tbl).1 ≠ 0 := by
  obtain ⟨-, p, hp, hent, hnone, hfail⟩ := hgives
  intro hz
  rw [setPortrange_eq c.first_le_last] at hz
  have hpass := (restrictSlots_spec F.toFamily c.first c.last fs.tbl slots_nodup).1.1 hz p hp hent
  rw [(restrictEntry_of_not_owns (hfresh p hp hent).1 c.first_le_last hnone).2 hfail] at hpass
  cases hpass

/-- **One call**, in a state any calls may have left. -/
theorem lportDest_selectsOk (hfresh : Fresh F.toFamily T₀) (hinv : FamInv F env T₀ fs)
    (hflag : c.rssCheckFlag = true) (hifp : c.ifp = .veth port) (hok : CallOk F env lines fs port c)
    (hadj : AdjustAssumed F env port c)
    (h : lportDest F env c fs lastport = .ok (fs', lastport', res)) :
    SelectsOk F env port c res := by
  unfold lportDest at h
  split at h
  · cases h
    exact ⟨nofun, nofun⟩
  rcases tableGet_cases F env c (tableInit F env c fs) with ⟨e, hget, hready, hfind⟩ |
    ⟨fs₁, hget, -⟩
  · rw [hget] at h
    by_cases hu : fs.init = .unset
    · -- this call cuts the table, to its own range
      have htbl : fs.tbl = T₀ := by simpa [FamInv, hu] using hinv
      rw [tableInit_unset hu, htbl] at hready hfind h
      have hz : (setPortrange F.toFamily env.enabled c.first c.last T₀).1 = 0 := by
        refine (setPortrange_ret F.toFamily env.enabled c.first c.last T₀).resolve_right ?_
        intro hneg
        rw [if_pos (by rw [hneg]; decide)] at hready
        cases hready
      have henabled := enabled_of_ret hz
      rw [henabled] at hz hfind h
      refine hit_selectsOk hrep c.first_le_last hz (SameButIdx.refl _) hfind ?_ h
      intro e₀ hget₀ _
      rcases hok.table (by rw [hu]; decide) e₀ (by rw [htbl, henabled]; exact hget₀) with
        htable | hgives
      · rw [hu] at htable
        exact ⟨htable, fun _ _ _ => Iff.rfl⟩
      · rw [← htbl] at hfresh hz
        exact absurd hz (cut_fails hfresh hgives)
    · rw [tableInit_of_ne hu] at hready hfind h
      have hcut := hinv
      unfold FamInv at hcut
      rw [hready] at hcut
      obtain ⟨first, last, hle, hz, hsame⟩ := hcut
      have henabled := enabled_of_ret hz
      have htable := (hok.table (by rw [hready]; decide) e hfind).resolve_right fun hgives => hu hgives.1
      rw [henabled] at hz hsame hfind
      refine hit_selectsOk hrep hle hz hsame hfind ?_ h
      intro e₀ _ hcut
      rw [hready] at htable
      exact tableOk_of_cut hcut htable
  · rw [hget] at h
    simp only [hifp] at h
    obtain ⟨sel, hsel, h⟩ := bind_eq_ok.1 h
    split at h
    · cases h
      refine ⟨fun q hq => ?_, nofun⟩
      cases hq
      exact fastPath_selects hok.fast hadj hsel
    · exact portScan_selectsOk hflag hifp h

end Hit

end Call

/-! ## Calls that hit the table -/

section HitCall

variable [DecidableEq A]

theorem tableScan_total (F : ThashFamily A) (c : LportCall A) (fs : FamState A) (e : DipSlot A) :
    ∃ r, tableScan F c fs e = .ok r := by
  have hacc : ∀ i, ∃ b, (.ok (!c.used (portrangeAt e i)) : Except TblFault Bool) = .ok b :=
    fun _ => ⟨_, rfl⟩
  obtain ⟨r, hr⟩ := CyclicScan.scan_total (CyclicScan.next e.firstIdx e.lastIdx) hacc
    ((e.lastIdx - e.firstIdx + 1 : Int) + 1).toNat
    (if c.dorandom then
      (e.firstIdx + c.rndWindow % (e.lastIdx - e.firstIdx + 1 : Int).toNat) % 65536
    else e.dport 0)
  exact ⟨_, bind_eq_ok.2 ⟨r, hr, rfl⟩⟩

/-- The table as `[first, last]` cuts it. -/
def cutTable (F : ThashFamily A) (first last : Nat) (T₀ : RssTbl A) : RssTbl A :=
  (setPortrange F.toFamily true first last T₀).2

variable (env c lastport) in
/-- A call whose triple is in the table stays in the table. -/
theorem lportDest_hit {e₀ : DipSlot A} (henabled : env.enabled = true) (hpriv : c.priv = true)
    (hflag : c.rssCheckFlag = true) (hle : first ≤ last)
    (hz : (setPortrange F.toFamily true first last T₀).1 = 0)
    (hfs : fs.init = .unset ∧ fs.tbl = T₀ ∧ c.first = first ∧ c.last = last ∨
      fs.init = .ready ∧ SameButIdx (cutTable F first last T₀) fs.tbl)
    (hget : tblGet F.toFamily true T₀ c.faddr c.laddr c.fport = .ok e₀) :
    ∃ tbl e r, SameButIdx (cutTable F first last T₀) tbl ∧
      tblGet F.toFamily true tbl c.faddr c.laddr c.fport = .ok e ∧
      lportDest F env c fs lastport = .ok r ∧ tableScan F c ⟨.ready, tbl⟩ e = .ok r := by
  obtain ⟨tbl, hinit, hsame⟩ : ∃ tbl, tableInit F env c fs = ⟨.ready, tbl⟩ ∧
      SameButIdx (cutTable F first last T₀) tbl := by
    rcases hfs with ⟨hu, rfl, rfl, rfl⟩ | ⟨hready, hsame⟩
    · refine ⟨_, ?_, SameButIdx.refl _⟩
      rw [tableInit_unset hu, henabled, if_neg (by rw [hz]; decide)]
      rfl
    · refine ⟨fs.tbl, ?_, hsame⟩
      rw [tableInit_of_ne (by rw [hready]; decide), ← hready]
  have hkeys : SameKeys T₀ tbl := by
    refine SameKeys.trans (sameKeys_of_sameTable ?_) hsame.sameKeys
    rw [cutTable, setPortrange_eq hle]
    exact (restrictSlots_spec F.toFamily first last T₀ slots_nodup).2.2.2.2
  have hfind := tblGet_of_sameKeys hkeys.symm hget
  obtain ⟨r, hr⟩ := tableScan_total F c ⟨.ready, tbl⟩
    (dipAt tbl (tblSlot F.toFamily tbl c.faddr c.laddr c.fport))
  refine ⟨tbl, _, r, hsame, hfind, ?_, hr⟩
  simp only [lportDest, hpriv, Bool.not_true, Bool.and_false, Bool.false_eq_true, if_false, hflag,
    if_true, hinit, tableGet, henabled, hfind, hr]

end HitCall

/-! ## Any calls -/

theorem famInv_step {T : RssTbl InAddr} {T6 : RssTbl In6Addr} {st st' : PcbState} {call : Call}
    {res : Except LportError Nat} (hcall : inPcbLportDest env st call = .ok (st', res))
    (h : FamInv inetThash env T st.inet ∧ FamInv inet6Thash env T6 st.inet6) :
    FamInv inetThash env T st'.inet ∧ FamInv inet6Thash env T6 st'.inet6 := by
  cases call with
  | inet pcbinfo c =>
    obtain ⟨r, hr, hret⟩ := bind_eq_ok.1 hcall
    cases hret
    exact ⟨famInv_call h.1 hr, h.2⟩
  | inet6 pcbinfo c =>
    obtain ⟨r, hr, hret⟩ := bind_eq_ok.1 hcall
    cases hret
    exact ⟨h.1, famInv_call h.2 hr⟩

/-- **Any calls** keep the state of both tables. -/
theorem famInv_run {T : RssTbl InAddr} {T6 : RssTbl In6Addr} {lastport : Nat → PortKind → Nat}
    {calls : List Call} {st : PcbState}
    (hrun : runCalls env (PcbState.start T T6 lastport) calls = .ok st) :
    FamInv inetThash env T st.inet ∧ FamInv inet6Thash env T6 st.inet6 := by
  refine foldlM_invariant
    (P := fun st => FamInv inetThash env T st.inet ∧ FamInv inet6Thash env T6 st.inet6)
    (fun call _ st st' hstep h => ?_) hrun ⟨famInv_start, famInv_start⟩
  cases hcall : inPcbLportDest env st call with
  | error e => simp [hcall, Functor.map, Except.map] at hstep
  | ok r =>
    rw [hcall] at hstep
    cases hstep
    exact famInv_step hcall h

/-- **Source-port selection.** After any calls, a call with the RSS flag on a veth that meets
`CallOk` returns an unused port of its own range on the local queue, and gives up only when there is
none; for IPv4 and for IPv6. -/
theorem inPcbLportDest_selects {cfgs : List RssTblCfg} (hne : ∀ l ∈ cfgs, l.NonZero)
    {T : RssTbl InAddr} {T6 : RssTbl In6Addr} (hT : ffRssTblInit true env.s env.lc cfgs = .ok T)
    (hT6 : ffRssTbl6Init true env.s env.lc cfgs = .ok T6) {lastport : Nat → PortKind → Nat}
    {calls : List Call} {st : PcbState}
    (hrun : runCalls env (PcbState.start T T6 lastport) calls = .ok st) (pcbinfo port : Nat) :
    (∀ c st' res, c.rssCheckFlag = true → c.ifp = .veth port →
      CallOk inetThash env (inetLines cfgs) st.inet port c → AdjustAssumed inetThash env port c →
      inPcbLportDest env st (.inet pcbinfo c) = .ok (st', res) →
      SelectsOk inetThash env port c res) ∧
    ∀ c st' res, c.rssCheckFlag = true → c.ifp = .veth port →
      CallOk inet6Thash env (inet6Lines cfgs) st.inet6 port c →
      AdjustAssumed inet6Thash env port c →
      inPcbLportDest env st (.inet6 pcbinfo c) = .ok (st', res) →
      SelectsOk inet6Thash env port c res := by
  obtain ⟨hinv, hinv6⟩ := famInv_run hrun
  refine ⟨fun c st' res hflag hifp hok hadj hcall => ?_,
    fun c st' res hflag hifp hok hadj hcall => ?_⟩
  · obtain ⟨r, hr, hret⟩ := bind_eq_ok.1 hcall
    cases hret
    have hrep := represents_init (fun _ hc => hne _ (mem_of_inetLines hc)) hT
    have hfresh := fresh_init (fun _ hc => (hne _ (mem_of_inetLines hc)).2) hT
    exact lportDest_selectsOk hrep hfresh hinv hflag hifp hok hadj hr
  · obtain ⟨r, hr, hret⟩ := bind_eq_ok.1 hcall
    cases hret
    have hrep := represents_init (fun _ hc => hne _ (mem_of_inet6Lines hc)) hT6
    have hfresh := fresh_init (fun _ hc => (hne _ (mem_of_inet6Lines hc)).2) hT6
    exact lportDest_selectsOk hrep hfresh hinv6 hflag hifp hok hadj hr

/-! ## Callers of one table

One table entry on a single-queue port. The first caller uses the default range, the second a
reserved port. -/

/-- A port with a single queue and the table in use. -/
def soloEnv : LportEnv where
  s := RssState.start
  lc := singleQueue
  cfg := ⟨true, false⟩
  enabled := true
  queueid_lt := fun _ h => absurd h (lt_irrefl 1)

/-- A call for the triple of the sample table, with every port unused. -/
def soloCall (kind : PortKind) (range : Fin 65536 × Fin 65536) : LportCall InAddr where
  kind := kind
  range := range
  priv := true
  randomized := false
  rssCheckFlag := true
  laddr := 0x0100000a
  faddr := 0x0200000a
  fport := htons 80
  used := fun _ => false
  ifp := .veth 0
  rndWindow := 0
  rndPort := 0
  adjust := fun _ => ⟨0, 0, fun _ _ _ => none⟩

theorem sampleTbl6_init :
    ∃ T6, ffRssTbl6Init true RssState.start singleQueue sampleTblCfgs = .ok T6 :=
  tblInit_total (F := inet6Family)
    (fun _ _ _ _ _ => by simp [inet6Family, ffRssCheck6, rssCheck, singleQueue])
    (inet6Lines sampleTblCfgs)

section Solo

variable {T : RssTbl InAddr}
  (hT : ffRssTblInit true RssState.start singleQueue sampleTblCfgs = .ok T)

include hT

theorem solo_get : ∃ e₀,
    tblGet inetFamily true T (0x0200000a : InAddr) (0x0100000a : InAddr) (htons 80) = .ok e₀ ∧
      ListsAll e₀ := by
  have hc : (inetLines sampleTblCfgs)[0] ∈ accepted (inetLines sampleTblCfgs) :=
    mem_iff_getElem?.2 ⟨0, rfl⟩
  obtain ⟨e₀, hget, hfill⟩ := tblGet_of_mem (sampleTbl_represents hT) hc
  refine ⟨e₀, hget, listsAll_of_filled hfill fun q _ => ?_⟩
  simp [lineCheck, inetFamily, ffRssCheck, rssCheck, singleQueue]

theorem solo_cut (hf : first ≤ 65534) (hle : first ≤ last) :
    (setPortrange inetThash.toFamily true first last T).1 = 0 :=
  (callExact_fresh (sampleTbl_fresh hT) hle fun p hp hent =>
    (sampleTbl_listsAll hT p hp hent).owns hf hle).2

/-- A call on the cut table gets a port of the cut, whatever its own range. -/
theorem solo_hit (fs : FamState InAddr) (kind : PortKind) (range : Fin 65536 × Fin 65536)
    (lastport : Nat) (hf : first ≤ 65534) (hle : first ≤ last)
    (hfs : fs.init = .unset ∧ fs.tbl = T ∧ (soloCall kind range).first = first ∧
        (soloCall kind range).last = last ∨
      fs.init = .ready ∧ SameButIdx (cutTable inetThash first last T) fs.tbl) : ∃ fs' lastport' p,
      lportDest inetThash soloEnv (soloCall kind range) fs lastport = .ok (fs', lastport', .ok p) ∧
      first ≤ p ∧ fs'.init = .ready ∧ SameButIdx (cutTable inetThash first last T) fs'.tbl := by
  obtain ⟨e₀, hget, -⟩ := solo_get hT
  obtain ⟨tbl, e, r, hsame, hfind, hcall, hscan⟩ := lportDest_hit soloEnv (soloCall kind range)
    lastport rfl rfl rfl hle (solo_cut hT hf hle) hfs hget
  obtain ⟨l, hl, -, e₁, -, hfill, hcut⟩ := cutEntry_of_get soloEnv (soloCall kind range)
    (sampleTbl_represents hT) hle (solo_cut hT hf hle) hsame hfind
  have hall : ListsAll e₁ := listsAll_of_filled hfill fun q _ => by
    simp [lineCheck, inetThash, inetFamily, ffRssCheck, rssCheck, soloEnv, singleQueue]
  obtain ⟨hidx, hsmall, hread, hwindow⟩ := hcut.window hfill hle (hall.owns hf hle)
  obtain ⟨fs', lastport', res⟩ := r
  obtain ⟨k, hfs'⟩ := tableScan_fst hscan
  rcases tableScan_cases hidx hsmall hscan with ⟨i, hlo, hhi, rfl, -⟩ | ⟨-, hused⟩
  · subst hfs'
    refine ⟨_, lastport', _, hcall, ?_, rfl, ?_⟩
    · rw [hread i hlo]
      exact ((hwindow (e₁.dport i)).1 ⟨i, hlo, hhi, rfl⟩).2.1
    · rw [← tblGet_slot hfind]
      exact hsame.setIdx _ k
  · cases hused e.firstIdx le_rfl hidx

/-- The table that `[10000, 65535]` has cut serves a caller with that range. -/
theorem solo_tableOk {tbl : RssTbl InAddr} {e : DipSlot InAddr} {init : TblStatus}
    (hsame : SameButIdx (cutTable inetThash 10000 65535 T) tbl)
    (hget : tblGet inetFamily true tbl (0x0200000a : InAddr) (0x0100000a : InAddr) (htons 80) =
      .ok e) :
    TableOk inetThash soloEnv (inetLines sampleTblCfgs) init 0 (soloCall .high (10000, 65535)) e := by
  have hle : 10000 ≤ 65535 := by decide
  obtain ⟨l, hl, -, e₀, -, hfill, hcut⟩ := cutEntry_of_get soloEnv (soloCall .high (10000, 65535))
    (sampleTbl_represents hT) hle (solo_cut hT (by decide) hle) hsame hget
  have hall : ListsAll e₀ := listsAll_of_filled hfill fun q _ => by
    simp [lineCheck, inetThash, inetFamily, ffRssCheck, rssCheck, soloEnv, singleQueue]
  have hnum : e.num = e₀.num := by rw [hcut.entry]; rfl
  have hf : e.first = 10000 := by rw [hcut.entry]; rfl
  have hl : e.last = 65535 := by rw [hcut.entry]; rfl
  refine ⟨?_, fun _ k _ _ => ?_, by decide, fun _ _ _ => ⟨10000, by decide, by decide, rfl⟩⟩
  · obtain ⟨k, hk, hkn, hin⟩ := hall.owns (by decide) hle
    rw [← hcut.dport k (by omega)] at hin
    exact ⟨k, hk, hnum.symm ▸ hkn, hin⟩
  · rw [hf, hl]
    exact Iff.rfl

end Solo

/-- The second caller asks for the range of the first one. -/
theorem inPcbLportDest_selects_solo : ∃ T T6 st st' res,
    ffRssTblInit true soloEnv.s soloEnv.lc sampleTblCfgs = .ok T ∧
    ffRssTbl6Init true soloEnv.s soloEnv.lc sampleTblCfgs = .ok T6 ∧
    runCalls soloEnv (PcbState.start T T6 fun _ _ => 0)
      [.inet 0 (soloCall .auto (10000, 65535))] = .ok st ∧
    inPcbLportDest soloEnv st (.inet 0 (soloCall .high (10000, 65535))) = .ok (st', res) ∧
    SelectsOk inetThash soloEnv 0 (soloCall .high (10000, 65535)) res := by
  obtain ⟨T, hT⟩ := sampleTbl_init
  obtain ⟨T6, hT6⟩ := sampleTbl6_init
  obtain ⟨fs, lp, p₁, hcall, -, hready, hsame⟩ := solo_hit hT ⟨.unset, T⟩ .auto (10000, 65535) 0
    (by decide) (by decide) (.inl ⟨rfl, rfl, rfl, rfl⟩)
  obtain ⟨fs', lp', p, hcall', -⟩ := solo_hit hT fs .high (10000, 65535)
    (setLastport (fun _ _ => 0) 0 .auto lp 0 .high) (by decide) (by decide) (.inr ⟨hready, hsame⟩)
  have hstep : inPcbLportDest soloEnv (PcbState.start T T6 fun _ _ => 0)
      (.inet 0 (soloCall .auto (10000, 65535))) = _ := bind_eq_ok.2 ⟨_, hcall, rfl⟩
  have hrun : runCalls soloEnv (PcbState.start T T6 fun _ _ => 0)
      [.inet 0 (soloCall .auto (10000, 65535))] =
      .ok ⟨fs, ⟨.unset, T6⟩, setLastport (fun _ _ => 0) 0 .auto lp⟩ :=
    foldlM_cons_eq_ok.2 ⟨_, by rw [hstep]; rfl, rfl⟩
  have hlast : inPcbLportDest soloEnv ⟨fs, ⟨.unset, T6⟩, setLastport (fun _ _ => 0) 0 .auto lp⟩
      (.inet 0 (soloCall .high (10000, 65535))) = _ := bind_eq_ok.2 ⟨_, hcall', rfl⟩
  refine ⟨T, T6, _, _, _, hT, hT6, hrun, hlast, ?_⟩
  refine (@inPcbLportDest_selects soloEnv _ sampleTbl_nonZero _ _ hT hT6 _ _ _ hrun 0 0).1 _ _ _
    rfl rfl ⟨fun _ e he => .inl ?_, fun hnb => absurd hnb (lt_irrefl 1)⟩ nofun hlast
  exact solo_tableOk hT hsame he

/-- The second caller asks for a port in `[600, 1023]` and gets one from 10000 on. -/
theorem inPcbLportDest_leaves_range : ∃ T T6 st st' p,
    ffRssTblInit true soloEnv.s soloEnv.lc sampleTblCfgs = .ok T ∧
    ffRssTbl6Init true soloEnv.s soloEnv.lc sampleTblCfgs = .ok T6 ∧
    runCalls soloEnv (PcbState.start T T6 fun _ _ => 0)
      [.inet 0 (soloCall .auto (10000, 65535))] = .ok st ∧
    inPcbLportDest soloEnv st (.inet 0 (soloCall .low (1023, 600))) = .ok (st', .ok p) ∧
    ¬SelectsOk inetThash soloEnv 0 (soloCall .low (1023, 600)) (.ok p) := by
  obtain ⟨T, hT⟩ := sampleTbl_init
  obtain ⟨T6, hT6⟩ := sampleTbl6_init
  obtain ⟨fs, lp, p₁, hcall, -, hready, hsame⟩ := solo_hit hT ⟨.unset, T⟩ .auto (10000, 65535) 0
    (by decide) (by decide) (.inl ⟨rfl, rfl, rfl, rfl⟩)
  obtain ⟨fs', lp', p, hcall', hp, -, -⟩ := solo_hit hT fs .low (1023, 600)
    (setLastport (fun _ _ => 0) 0 .auto lp 0 .low) (by decide) (by decide) (.inr ⟨hready, hsame⟩)
  have hstep : inPcbLportDest soloEnv (PcbState.start T T6 fun _ _ => 0)
      (.inet 0 (soloCall .auto (10000, 65535))) = _ := bind_eq_ok.2 ⟨_, hcall, rfl⟩
  refine ⟨T, T6, _, _, p, hT, hT6, foldlM_cons_eq_ok.2 ⟨_, by rw [hstep]; rfl, rfl⟩,
    bind_eq_ok.2 ⟨_, hcall', rfl⟩, fun h => ?_⟩
  have hlast : p ≤ 1023 := (h.port_ok p rfl).2.1
  have hfirst : 10000 ≤ p := hp
  omega

end FStack.Pcb
