import FStack.Timeout.Links
import Mathlib.Data.Prod.Lex

/-!
# The wheel keeps time

The wheel of `FStack.Timeout.Wheel` simulates the timers of `FStack.Timeout.Timers`, whatever the
callbacks reset and stop. `Sim` holds of a wheel all of whose callouts are armed for the tick `lo`
or later; a pass over the bucket of `lo` ends, and leaves none that is armed for `lo`.

Results:
* `wheel_exact`: on every run every arming runs exactly once, at its tick, unless it is stopped or
  armed anew before.
* `wheel_looks_again`: a pass that looks at an entry twice.
-/

namespace FStack.Timeout

open Function List FStack.Lib

variable {κ φ : Type} [DecidableEq κ]

/-- The account of what a wheel did. -/
def Cc.account (k : Nat) (s : Cc κ φ) : Timers κ φ := replay k .init s.log

/-- The log is lawful, the wheel holds what is outstanding, and no pass is under way. -/
structure Sim (k lo : Nat) (s : Cc κ φ) : Prop where
  lawful : Lawful k .init s.log
  holds : Holds k lo (s.account k).now (s.account k).out s
  calm : Calm s

/-- The scan of the bucket of `u`, which is over. -/
structure ScanInv (k u now : Nat) (s : Cc κ φ) (p : Option κ) : Prop where
  sim : Sim k u s
  now_eq : (s.account k).now = now
  late : u < now
  lag : now ≤ u + 2 ^ 31
  cur : (s.account k).cur = BitVec.ofNat 32 u
  soft : s.softticks = BitVec.ofNat 32 (u + 1)
  scan : Scanning k u (s.account k).out (s.account k).seen s p

/-- The same while a callback runs. -/
structure InPass (k u now : Nat) (s : Cc κ φ) : Prop where
  inv : ScanInv k u now s s.next
  bucket : s.bucket = bucketOf k (BitVec.ofNat 32 u)

/-- How many callouts are due. -/
def Cc.due (k u : Nat) (s : Cc κ φ) : Nat := dueCount k u (s.account k).out s

variable {k : Nat} {s : Cc κ φ}

section

variable {lo u now : Nat} {s' : Cc κ φ} {e : Event κ φ} {c : κ}

theorem account_of_log (h : s'.log = s.log ++ [e]) : s'.account k = (s.account k).next k e := by
  unfold Cc.account
  rw [h, replay_append]
  rfl

theorem account_note (k : Nat) (s : Cc κ φ) (e : Event κ φ) :
    (s.note e).account k = (s.account k).next k e :=
  account_of_log rfl

theorem Sim.lawful_snoc (h : Sim k lo s) (hlog : s'.log = s.log ++ [e]) (he : (s.account k).Legal e)
    : Lawful k .init s'.log := by
  rw [hlog, lawful_append]
  exact ⟨h.lawful, he, trivial⟩

theorem lock_update {co : κ → Callout φ} {v : Callout φ} (hv : v.lock = (co c).lock) (c' : κ) :
    (update co c v c').lock = (co c').lock := by
  by_cases hcc : c' = c
  · subst hcc
    rw [update_self, hv]
  · rw [update_of_ne hcc]

theorem drop_log (k : Nat) (s : Cc κ φ) (c : κ) : (drop k s c).log = s.log := by
  unfold drop
  split <;> rfl

theorem drop_softticks (k : Nat) (s : Cc κ φ) (c : κ) : (drop k s c).softticks = s.softticks := by
  unfold drop
  split <;> rfl

theorem drop_bucket (k : Nat) (s : Cc κ φ) (c : κ) : (drop k s c).bucket = s.bucket := by
  unfold drop
  split <;> rfl

theorem Calm.drop (h : Calm s) (c : κ) : Calm (drop k s c) := by
  unfold Timeout.drop
  split
  · exact h.congr rfl (lock_update rfl)
  · exact h

/-! ## Calls -/

section Calls

variable (hcalm : Calm s)

include hcalm

theorem reset_account (c : κ) (n : Tick) (f : φ) (direct : Bool) :
    (calloutReset k s c n f direct).1.account k = (s.account k).next k (.armed c n f) := by
  obtain ⟨s', hn, heq⟩ := calloutReset_eq (k := k) hcalm c n f direct
  rw [← account_of_log (k := k) hn.log, heq]
  exact congrArg (replay k .init) (drop_log k s' c)

theorem reset_softticks (c : κ) (n : Tick) (f : φ) (direct : Bool) :
    (calloutReset k s c n f direct).1.softticks = s.softticks := by
  obtain ⟨s', hn, heq⟩ := calloutReset_eq (k := k) hcalm c n f direct
  rw [heq]
  exact (drop_softticks k s' c).trans hn.softticks

theorem stop_account (c : κ) :
    (calloutStop k s c).1.account k = (s.account k).next k (.stopped c) := by
  obtain ⟨s', hn, heq⟩ := calloutStop_eq (k := k) hcalm c
  rw [← account_of_log (k := k) hn.log, heq]
  exact congrArg (replay k .init) (drop_log k s' c)

theorem stop_softticks (c : κ) : (calloutStop k s c).1.softticks = s.softticks := by
  obtain ⟨s', hn, heq⟩ := calloutStop_eq (k := k) hcalm c
  rw [heq]
  exact (drop_softticks k s' c).trans hn.softticks

end Calls

theorem Sim.reset (h : Sim k lo s) (hlo : lo ≤ (s.account k).now) (c : κ) (n : Tick) (f : φ)
    (direct : Bool) : Sim k lo (calloutReset k s c n f direct).1 := by
  have hacc := reset_account (k := k) h.calm c n f direct
  obtain ⟨s', hn, heq⟩ := calloutReset_eq (k := k) h.calm c n f direct
  have hdrop := (h.holds.congr hn.alike).drop (c := c)
  have hadd := hdrop.add (c := c) (update_self _ _ _) hlo (atLeastOne_bounds n).2 f direct
  rw [update_idem] at hadd
  refine ⟨?_, ?_, ?_⟩
  · rw [heq]
    exact (drop_log k s' c).symm ▸ h.lawful_snoc hn.log trivial
  · rw [hacc, heq]
    exact hadd
  · rw [heq]
    exact (hn.calm.drop c).congr rfl (lock_update rfl)

theorem Sim.stop (h : Sim k lo s) (c : κ) : Sim k lo (calloutStop k s c).1 := by
  have hacc := stop_account (k := k) h.calm c
  obtain ⟨s', hn, heq⟩ := calloutStop_eq (k := k) h.calm c
  refine ⟨?_, ?_, ?_⟩
  · rw [heq]
    exact (drop_log k s' c).symm ▸ h.lawful_snoc hn.log trivial
  · rw [hacc, heq]
    exact (h.holds.congr hn.alike).drop
  · rw [heq]
    exact hn.calm.drop c

theorem Noted.scan {out : κ → Option (Nat × φ)} {seen : List κ} (hn : Noted s s' e)
    (h : Scanning k u out seen s s.next) : Scanning k u out seen s' s'.next := by
  rw [hn.next]
  exact ⟨hn.alike.wheel ▸ h.at_mem, hn.alike.wheel ▸ h.due, hn.alike.wheel ▸ h.seen⟩

omit [DecidableEq κ] in
theorem Noted.dueCount_eq (hn : Noted s s' e) (out : κ → Option (Nat × φ)) :
    dueCount k u out s' = dueCount k u out s := by
  unfold dueCount
  rw [hn.alike.wheel]

/-- A call, in a pass. -/
theorem InPass.reset (h : InPass k u now s) (c : κ) (n : Tick) (f : φ) (direct : Bool) :
    InPass k u now (calloutReset k s c n f direct).1 ∧
      (calloutReset k s c n f direct).1.due k u ≤ s.due k u := by
  have hcalm := h.inv.sim.calm
  have hsim := h.inv.sim.reset (h.inv.now_eq ▸ h.inv.late.le) c n f direct
  have hacc := reset_account (k := k) hcalm c n f direct
  have hsoft := reset_softticks (k := k) hcalm c n f direct
  obtain ⟨s', hn, heq⟩ := calloutReset_eq (k := k) hcalm c n f direct
  have hholds := h.inv.sim.holds.congr hn.alike
  have hdead : u < (s.account k).deadline n :=
    Nat.lt_add_right _ (h.inv.now_eq ▸ h.inv.late)
  have hticks : (drop k s' c).ticks + atLeastOne n =
      BitVec.ofNat 32 ((s.account k).deadline n) := by
    rw [hholds.drop.ticks, ofNat_add_tick]
    rfl
  have hnone : update (s.account k).out c none c = none := update_self _ _ _
  have hbucket : (drop k s' c).bucket = bucketOf k (BitVec.ofNat 32 u) := by
    rw [drop_bucket, hn.bucket, h.bucket]
  refine ⟨⟨⟨hsim, ?_, h.inv.late, h.inv.lag, ?_, hsoft.trans h.inv.soft, ?_⟩, ?_⟩, ?_⟩
  · rw [hacc]
    exact h.inv.now_eq
  · rw [hacc]
    exact h.inv.cur
  · have hscan := ((hn.scan h.inv.scan).drop hholds).add hnone hbucket hticks hdead f direct
    rw [update_idem, ← h.inv.cur] at hscan
    rw [hacc, heq]
    exact hscan
  · rw [heq]
    exact hbucket
  · have hadd := dueCount_add_le (k := k) (s := drop k s' c) hnone hdead (n := atLeastOne n) f direct
    rw [update_idem] at hadd
    unfold Cc.due
    rw [hacc, heq]
    exact hadd.trans ((dueCount_drop_le hholds).trans (hn.dueCount_eq _).le)

theorem InPass.stop (h : InPass k u now s) (c : κ) :
    InPass k u now (calloutStop k s c).1 ∧ (calloutStop k s c).1.due k u ≤ s.due k u := by
  have hcalm := h.inv.sim.calm
  have hacc := stop_account (k := k) hcalm c
  have hsoft := stop_softticks (k := k) hcalm c
  obtain ⟨s', hn, heq⟩ := calloutStop_eq (k := k) hcalm c
  have hholds := h.inv.sim.holds.congr hn.alike
  refine ⟨⟨⟨h.inv.sim.stop c, ?_, h.inv.late, h.inv.lag, ?_, hsoft.trans h.inv.soft, ?_⟩, ?_⟩, ?_⟩
  · rw [hacc]
    exact h.inv.now_eq
  · rw [hacc]
    exact h.inv.cur
  · rw [hacc, heq]
    exact (hn.scan h.inv.scan).drop hholds
  · rw [heq, drop_bucket, hn.bucket, h.bucket]
  · unfold Cc.due
    rw [hacc, heq]
    exact (dueCount_drop_le hholds).trans (hn.dueCount_eq _).le

theorem InPass.runOps (ops : List (Op κ φ)) : ∀ {s : Cc κ φ}, InPass k u now s →
    InPass k u now (ops.foldl (runOp k) s) ∧ (ops.foldl (runOp k) s).due k u ≤ s.due k u := by
  induction ops with
  | nil => exact fun h => ⟨h, le_refl _⟩
  | cons op ops ih =>
    intro s h
    have hop : InPass k u now (runOp k s op) ∧ (runOp k s op).due k u ≤ s.due k u := by
      cases op with
      | reset c n f direct => exact h.reset c n f direct
      | stop c => exact h.stop c
    obtain ⟨hpass, hle⟩ := ih hop.1
    exact ⟨hpass, hle.trans hop.2⟩

/-! ## The scan of a bucket -/

section

variable (h : ScanInv k u now s (some c))

include h

/-- The entry at the pointer is in the list, and was not looked at. -/
theorem ScanInv.legal_look : (s.account k).Legal (.looked c) := by
  intro hseen
  refine h.scan.seen c hseen ?_
  rw [Cursor.rest_eq_cons (h.sim.holds.nodup _) (h.scan.at_mem c rfl)]
  exact mem_cons_self

/-- A callout in the bucket is due exactly if its time is that of the pass. -/
theorem ScanInv.time_eq_iff :
    (s.co c).time = BitVec.ofNat 32 u ↔ ∃ f, (s.account k).out c = some (u, f) := by
  obtain ⟨hsome, -⟩ := (h.sim.holds.mem _ c).mp (h.scan.at_mem c rfl)
  obtain ⟨⟨t, f⟩, htf⟩ := Option.isSome_iff_exists.mp hsome
  obtain ⟨htime, -, hlo, hhi⟩ := h.sim.holds.armed c t f htf
  have hlag := h.lag
  have hnow := h.now_eq
  constructor
  · intro heq
    obtain rfl := ofNat_inj_of_le (heq.symm.trans htime) hlo (by omega)
    exact ⟨f, htf⟩
  · rintro ⟨f', hf⟩
    rw [htf] at hf
    cases hf
    exact htime

/-- An entry that is not due is passed. -/
theorem ScanInv.skip (hc : (s.co c).time ≠ BitVec.ofNat 32 u) :
    ScanInv k u now (s.note (.looked c))
      (Cursor.after (s.wheel (bucketOf k (BitVec.ofNat 32 u))) c) := by
  have hacc := account_note k s (.looked c)
  have hrest := Cursor.rest_eq_cons (h.sim.holds.nodup _) (h.scan.at_mem c rfl)
  have hnd : (Cursor.rest (s.wheel (bucketOf k (BitVec.ofNat 32 u))) (some c)).Nodup :=
    (Cursor.rest_sublist _ _).nodup (h.sim.holds.nodup _)
  rw [hrest] at hnd
  refine ⟨⟨h.sim.lawful_snoc rfl h.legal_look, ?_, ?_⟩, ?_, h.late, h.lag, ?_, h.soft, ?_⟩
  · rw [hacc]
    exact h.sim.holds.congr ⟨rfl, rfl, fun _ => ⟨rfl, rfl, rfl⟩⟩
  · exact h.sim.calm.congr rfl fun _ => rfl
  · rw [hacc]
    exact h.now_eq
  · rw [hacc]
    exact h.cur
  · rw [hacc]
    refine ⟨fun d hd => Cursor.mem_of_after hd, fun d f hd => ?_, fun d hd => ?_⟩
    · have hmem := h.scan.due d f hd
      rw [hrest] at hmem
      refine (mem_cons.mp hmem).resolve_left fun hdc => hc (h.time_eq_iff.mpr ⟨f, ?_⟩)
      exact hdc ▸ hd
    · obtain rfl | hd := mem_cons.mp hd
      · exact (nodup_cons.mp hnd).1
      · have := h.scan.seen d hd
        rw [hrest] at this
        exact fun hm => this (mem_cons_of_mem c hm)

end

/-- The state a callback starts in. -/
def fire (k u : Nat) (s : Cc κ φ) (c : κ) : Cc κ φ :=
  { s with
    next := Cursor.after (s.wheel (bucketOf k (BitVec.ofNat 32 u))) c
    bucket := bucketOf k (BitVec.ofNat 32 u)
    wheel := update s.wheel (bucketOf k (BitVec.ofNat 32 u))
      ((s.wheel (bucketOf k (BitVec.ofNat 32 u))).erase c)
    co := update s.co c { s.co c with pending := false }
    exec := update s.exec true { s.exec true with curr := some c, cancel := (s.co c).lock }
    log := s.log ++ [.looked c] ++ [.fired c (s.co c).func (BitVec.ofNat 32 u)] }

theorem Calm.fire (h : Calm s) : Calm (fire k u s c) := by
  refine ⟨h.idle, fun d => ?_, fun c' hcurr hlock => ?_⟩
  · cases d <;> simp [Timeout.fire, h.waiting]
  · obtain rfl : c = c' := by simpa [Timeout.fire] using hcurr
    simpa [Timeout.fire] using hlock

/-- An entry that is due is taken off, and there is one less. -/
theorem ScanInv.fire (h : ScanInv k u now s (some c)) (hc : (s.co c).time = BitVec.ofNat 32 u) :
    InPass k u now (fire k u s c) ∧ (fire k u s c).due k u < s.due k u := by
  obtain ⟨f, hf⟩ := h.time_eq_iff.mp hc
  obtain ⟨-, hfunc, -, -⟩ := h.sim.holds.armed c u f hf
  have hpend : (s.co c).pending = true := by rw [h.sim.holds.pending, hf]; rfl
  have hacc : (Timeout.fire k u s c).account k =
      ((s.account k).next k (.looked c)).next k (.fired c (s.co c).func (BitVec.ofNat 32 u)) := by
    rw [← account_note]
    exact account_of_log rfl
  -- but for what `Holds` does not read, the callout is unlinked with the pointer at it
  have hholds : Holds k u (s.account k).now (s.account k).out { s with next := some c } :=
    h.sim.holds.congr ⟨rfl, rfl, fun _ => ⟨rfl, rfl, rfl⟩⟩
  have hunlink := hholds.unlink (c := c) hpend
  have hscan : Scanning k u (s.account k).out (s.account k).seen { s with next := some c }
      (some c) := ⟨h.scan.at_mem, h.scan.due, h.scan.seen⟩
  have hscan' := Scanning.unlink (s := { s with next := some c }) hscan hholds hpend
  have hwheel : (unlink k { s with next := some c } c).wheel = (Timeout.fire k u s c).wheel := by
    simp only [unlink, Timeout.fire, hc]
  have hnext : (unlink k { s with next := some c } c).next = (Timeout.fire k u s c).next := by
    simp only [unlink, Timeout.fire, hc, if_true]
  have hnodup := h.sim.holds.nodup (bucketOf k (BitVec.ofNat 32 u))
  refine ⟨⟨⟨⟨?_, ?_, ?_⟩, ?_, h.late, h.lag, ?_, h.soft, ?_⟩, rfl⟩, ?_⟩
  · have hlook : Lawful k .init (s.note (.looked c)).log := h.sim.lawful_snoc rfl h.legal_look
    refine lawful_append.mpr ⟨hlook, ⟨u, f, ?_, hfunc, rfl, ?_⟩, trivial⟩
    · rw [replay_append]
      exact hf
    · rw [replay_append]
      exact h.now_eq ▸ h.late
  · rw [hacc]
    refine hunlink.congr ⟨rfl, hwheel.symm, fun c' => ?_⟩
    by_cases hcc : c' = c
    · subst hcc
      simp [Timeout.fire, unlink]
    · simp [Timeout.fire, unlink, hcc]
  · exact h.sim.calm.fire
  · rw [hacc]
    exact h.now_eq
  · rw [hacc]
    exact h.cur
  · rw [hacc, ← hnext]
    refine ⟨hwheel ▸ hscan'.at_mem, hwheel ▸ hscan'.due, fun d hd => ?_⟩
    obtain rfl | hd := mem_cons.mp hd
    · intro hm
      have := (Cursor.rest_sublist _ _).subset hm
      simp [Timeout.fire, hnodup.mem_erase_iff] at this
    · exact hwheel ▸ hscan'.seen d hd
  · have hlt := dueCount_unlink_lt (s := { s with next := some c }) hholds hf
    unfold Cc.due
    rw [hacc]
    unfold dueCount at hlt ⊢
    rw [hwheel] at hlt
    exact hlt

/-- What is left of a scan: the callouts that are due, then the entries from the pointer on. -/
def scanMeasure (k u : Nat) (sp : Cc κ φ × Option κ) : ℕ ×ₗ ℕ :=
  toLex (sp.1.due k u, (Cursor.rest (sp.1.wheel (bucketOf k (BitVec.ofNat 32 u))) sp.2).length)

theorem ScanInv.step (h : ScanInv k u now s (some c)) (env : Env κ φ) :
    ScanInv k u now (scanStep k env (BitVec.ofNat 32 u) s (some c)).1
        (scanStep k env (BitVec.ofNat 32 u) s (some c)).2 ∧
      scanMeasure k u (scanStep k env (BitVec.ofNat 32 u) s (some c)) <
        scanMeasure k u (s, some c) := by
  by_cases hc : (s.co c).time = BitVec.ofNat 32 u
  · obtain ⟨hfire, hlt⟩ := h.fire hc
    obtain ⟨hend, hle⟩ := InPass.runOps
      ((s.co c).func.elim [] (env (Timeout.fire k u s c).log)) hfire
    -- the state after the callback
    set s' := ((s.co c).func.elim [] (env (Timeout.fire k u s c).log)).foldl (runOp k)
      (Timeout.fire k u s c) with hs'
    have hstep : scanStep k env (BitVec.ofNat 32 u) s (some c) =
        ({ s' with
          exec := update s'.exec true { s'.exec true with curr := none, waiting := false }
          next := none }, s'.next) := by
      exact if_neg (not_not.mpr hc)
    rw [hstep]
    refine ⟨⟨⟨hend.inv.sim.lawful, ?_, ?_⟩, hend.inv.now_eq, h.late, h.lag, hend.inv.cur,
      hend.inv.soft, ?_⟩, ?_⟩
    · exact hend.inv.sim.holds.congr ⟨rfl, rfl, fun _ => ⟨rfl, rfl, rfl⟩⟩
    · exact hend.inv.sim.calm.leave
    · exact ⟨hend.inv.scan.at_mem, hend.inv.scan.due, hend.inv.scan.seen⟩
    · exact Prod.Lex.toLex_lt_toLex.mpr (.inl (hle.trans_lt hlt))
  · have hstep : scanStep k env (BitVec.ofNat 32 u) s (some c) = (s.note (.looked c),
        Cursor.after (s.wheel (bucketOf k (BitVec.ofNat 32 u))) c) := by
      exact if_pos hc
    rw [hstep]
    refine ⟨h.skip hc, Prod.Lex.toLex_lt_toLex.mpr (.inr ⟨?_, ?_⟩)⟩
    · unfold Cc.due
      rw [account_note]
      rfl
    · rw [Cursor.rest_eq_cons (h.sim.holds.nodup _) (h.scan.at_mem c rfl)]
      exact Nat.lt_succ_self _

/-- With nothing due at its tick, a wheel goes on to the next. -/
theorem Sim.advance (h : Sim k u s) (hdue : ∀ c f, (s.account k).out c ≠ some (u, f)) :
    Sim k (u + 1) s := by
  refine ⟨h.lawful, { h.holds with armed := fun c t f hc => ?_ }, h.calm⟩
  obtain ⟨htime, hfunc, hlo, hhi⟩ := h.holds.armed c t f hc
  have hne : t ≠ u := fun htu => hdue c f (htu ▸ hc)
  exact ⟨htime, hfunc, by omega, hhi⟩

/-! ## The clock -/

/-- A wheel whose next pass is that of `u`. -/
structure Due (k now u : Nat) (s : Cc κ φ) : Prop where
  sim : Sim k u s
  now_eq : (s.account k).now = now
  soft : s.softticks = BitVec.ofNat 32 u
  le : u ≤ now
  lag : now ≤ u + 2 ^ 31

section

variable (h : Due k now u s)

include h

theorem Due.ticks : s.ticks = BitVec.ofNat 32 now :=
  h.now_eq ▸ h.sim.holds.ticks

/-- How far it is behind. -/
def Cc.lag (s : Cc κ φ) : Nat := (s.ticks - s.softticks).toNat

theorem Due.lag_eq : s.lag = now - u := by
  have hle := h.le
  have hlag := h.lag
  rw [Cc.lag, h.ticks, h.soft, BitVec.toNat_sub]
  simp only [BitVec.toNat_ofNat]
  omega

theorem Due.pass_ends (hlt : u < now) (env : Env κ φ) :
    Loop.Ends (fun fuel => pass k env fuel s) (Due k now (u + 1)) := by
  set s₀ : Cc κ φ := { s with softticks := s.softticks + 1 }.note (.pass s.softticks) with hs₀
  have hacc : s₀.account k = (s.account k).next k (.pass s.softticks) := account_of_log rfl
  have hstart : ScanInv k u now s₀ (s₀.wheel (bucketOf k (BitVec.ofNat 32 u))).head? := by
    refine ⟨⟨h.sim.lawful_snoc rfl trivial, ?_, h.sim.calm.congr rfl fun _ => rfl⟩, ?_, hlt, h.lag,
      ?_, ?_, ?_⟩
    · rw [hacc]
      exact h.sim.holds.congr ⟨rfl, rfl, fun _ => ⟨rfl, rfl, rfl⟩⟩
    · rw [hacc]
      exact h.now_eq
    · rw [hacc]
      exact h.soft
    · change s.softticks + 1 = _
      rw [h.soft, BitVec.ofNat_add]
      rfl
    · rw [hacc]
      refine ⟨fun c hc => mem_of_mem_head? hc, fun c f hc => ?_, nofun⟩
      rw [Cursor.rest_head]
      refine (h.sim.holds.mem _ c).mpr ⟨?_, ?_⟩
      · rw [show (s.account k).out c = some (u, f) from hc]
        rfl
      · rw [(h.sim.holds.armed c u f hc).1]
  rw [← h.soft] at hstart
  have hloop := Loop.Ends.whileLoop (fun sp : Cc κ φ × Option κ => sp.2.isSome)
    (fun _ sp => some (scanStep k env s.softticks sp.1 sp.2))
    (fun sp => ScanInv k u now sp.1 sp.2) (scanMeasure k u) (fun sp hsp hcont => by
      obtain ⟨s', p⟩ := sp
      obtain ⟨c, rfl⟩ := Option.isSome_iff_exists.mp hcont
      rw [h.soft]
      exact Loop.Ends.pure (ScanInv.step hsp env)) (s := (s₀, _)) hstart
  refine hloop.map Prod.fst fun sp hsp => ?_
  obtain ⟨hinv, hnone⟩ := hsp
  have hp : sp.2 = none := Option.isSome_eq_false_iff.mp hnone |> Option.isNone_iff_eq_none.mp
  -- the pointer is past the end, so nothing is due
  have hdue : ∀ c f, (sp.1.account k).out c ≠ some (u, f) := fun c f hc => by
    have := hinv.scan.due c f hc
    rw [hp, Cursor.rest_none] at this
    cases this
  have hlag := h.lag
  exact ⟨hinv.sim.advance hdue, hinv.now_eq, hinv.soft, hlt, by omega⟩

/-- `softclock` catches up. -/
theorem Due.softclock_ends (env : Env κ φ) :
    Loop.Ends (fun fuel => softclock k env fuel s) (Due k now now) := by
  have hloop := Loop.Ends.whileLoop (fun s : Cc κ φ => s.softticks != s.ticks)
    (pass k env) (fun s => ∃ u, Due k now u s) Cc.lag (fun s' hs' hcont => by
      obtain ⟨u', hu'⟩ := hs'
      have hne : u' ≠ now := fun he => by
        rw [hu'.soft, hu'.ticks, he] at hcont
        simp at hcont
      have hlt : u' < now := lt_of_le_of_ne hu'.le hne
      refine (hu'.pass_ends hlt env).mono fun s'' hs'' => ⟨⟨_, hs''⟩, ?_⟩
      rw [hu'.lag_eq, hs''.lag_eq]
      omega) ⟨u, h⟩
  refine hloop.mono fun s' hs' => ?_
  obtain ⟨⟨u', hu'⟩, heq⟩ := hs'
  have hsoft : s'.softticks = s'.ticks := by simpa using heq
  have hle := hu'.le
  have hlag := hu'.lag
  obtain rfl := ofNat_inj_of_le (hu'.soft.symm.trans (hsoft.trans hu'.ticks)) hle (by omega)
  exact hu'

theorem Due.calloutTick_ends (env : Env κ φ) :
    Loop.Ends (fun fuel => calloutTick k env fuel s) (Due k now now) := by
  have hloop := Loop.Ends.whileLoop
    (fun s : Cc κ φ => s.behind && (s.wheel (bucketOf k s.softticks)).isEmpty)
    (fun _ s => some { s with softticks := s.softticks + 1 })
    (fun s => ∃ u, Due k now u s) Cc.lag (fun s' hs' hcont => by
      obtain ⟨u', hu'⟩ := hs'
      obtain ⟨hbehind, hempty⟩ := Bool.and_eq_true_iff.mp hcont
      have hlt : u' < now := (behind_iff hu'.soft hu'.ticks hu'.le hu'.lag).mp hbehind
      have hlag := hu'.lag
      -- the bucket is empty, so nothing is due
      have hdue : ∀ c f, (s'.account k).out c ≠ some (u', f) := fun c f hc => by
        have hmem := (hu'.sim.holds.mem (bucketOf k s'.softticks) c).mpr
          ⟨by rw [hc]; rfl, by rw [(hu'.sim.holds.armed c u' f hc).1, hu'.soft]⟩
        rw [isEmpty_iff.mp hempty] at hmem
        cases hmem
      have hnext : Due k now (u' + 1) { s' with softticks := s'.softticks + 1 } := by
        have hsim := hu'.sim.advance hdue
        refine ⟨⟨hsim.lawful, ?_, hsim.calm.congr rfl fun _ => rfl⟩, hu'.now_eq, ?_, hlt, by omega⟩
        · exact hsim.holds.congr ⟨rfl, rfl, fun _ => ⟨rfl, rfl, rfl⟩⟩
        · rw [hu'.soft, BitVec.ofNat_add]
          rfl
      refine Loop.Ends.pure ⟨⟨_, hnext⟩, ?_⟩
      rw [hu'.lag_eq, hnext.lag_eq]
      omega) ⟨u, h⟩
  refine hloop.bind fun s' hs' => ?_
  obtain ⟨⟨u', hu'⟩, -⟩ := hs'
  by_cases hbehind : s'.behind = true
  · simp only [hbehind, if_true]
    exact hu'.softclock_ends env
  · simp only [hbehind, Bool.false_eq_true, if_false]
    have hle := hu'.le
    have hnlt := mt (behind_iff hu'.soft hu'.ticks hu'.le hu'.lag).mpr hbehind
    obtain rfl : u' = now := by omega
    exact Loop.Ends.pure hu'

end

/-! ## Runs -/

/-- A wheel between the calls. -/
def AtRest (k : Nat) (s : Cc κ φ) : Prop := ∃ now, Due k now now s

theorem AtRest.step (h : AtRest k s) (env : Env κ φ) (i : Input κ φ) :
    Loop.Ends (fun fuel => step k env fuel s i) (AtRest k) := by
  obtain ⟨now, h⟩ := h
  cases i with
  | op op =>
    refine Loop.Ends.pure ⟨now, ?_⟩
    cases op with
    | reset c n f direct =>
      refine ⟨h.sim.reset h.now_eq.ge c n f direct, ?_,
        (reset_softticks h.sim.calm c n f direct).trans h.soft, h.le, h.lag⟩
      exact (congrArg Timers.now (reset_account h.sim.calm c n f direct)).trans h.now_eq
    | stop c =>
      refine ⟨h.sim.stop c, ?_, (stop_softticks h.sim.calm c).trans h.soft, h.le, h.lag⟩
      exact (congrArg Timers.now (stop_account h.sim.calm c)).trans h.now_eq
  | hardclock =>
    set s₀ : Cc κ φ := { s with ticks := s.ticks + 1 }.note .clock with hs₀
    have hacc : s₀.account k = (s.account k).next k .clock := account_of_log rfl
    have hstart : Due k (now + 1) now s₀ := by
      refine ⟨⟨h.sim.lawful_snoc rfl trivial, ?_, h.sim.calm.congr rfl fun _ => rfl⟩, ?_, h.soft,
        Nat.le_succ now, by omega⟩
      · rw [hacc]
        refine ⟨?_, h.sim.holds.pending, fun c t f hc => ?_, h.sim.holds.mem, h.sim.holds.nodup⟩
        · change s.ticks + 1 = _
          rw [h.sim.holds.ticks]
          exact (BitVec.ofNat_add _ _).symm
        · obtain ⟨htime, hfunc, hlo, hhi⟩ := h.sim.holds.armed c t f hc
          exact ⟨htime, hfunc, hlo, hhi.trans (Nat.add_lt_add_right (Nat.lt_succ_self _) _)⟩
      · rw [hacc]
        exact congrArg (· + 1) h.now_eq
    exact (hstart.calloutTick_ends env).mono fun s' hs' => ⟨now + 1, hs'⟩

theorem AtRest.run (env : Env κ φ) (is : List (Input κ φ)) : ∀ {s : Cc κ φ}, AtRest k s →
    Loop.Ends (fun fuel => run k env fuel s is) (AtRest k) := by
  induction is with
  | nil => exact fun h => Loop.Ends.pure h
  | cons i is ih =>
    intro s h
    exact (h.step env i).bind fun s' hs' => ih hs'

theorem init_atRest (lock : κ → Bool) : AtRest k (init lock : Cc κ φ) := by
  refine ⟨0, ⟨⟨trivial, ⟨rfl, fun _ => rfl, nofun, fun b c => ?_, fun _ => nodup_nil⟩, ?_⟩, rfl,
    rfl, le_refl 0, Nat.zero_le _⟩⟩
  · exact iff_of_false not_mem_nil fun h => Bool.false_ne_true h.1
  · exact ⟨rfl, fun _ => rfl, nofun⟩

end

/-! ## What is promised -/

/-- The account of a log, from the start. -/
def accountOf (k : Nat) (log : List (Event κ φ)) : Timers κ φ := replay k .init log

/-- Every arming runs once, in the pass of its tick, with its own function. -/
structure Exact (k : Nat) (log : List (Event κ φ)) : Prop where
  /-- An arming that is left alone runs once when its tick is over. -/
  once : ∀ pre c n f post, log = pre ++ .armed c n f :: post → (∀ e ∈ post, ¬ e.Sets c) →
    (accountOf k pre).deadline n < (accountOf k log).now →
      post.filter (Event.runs c) =
        [.fired c (some f) (BitVec.ofNat 32 ((accountOf k pre).deadline n))]
  /-- It runs in the pass of its tick, and not before the tick is over. -/
  timely : ∀ pre c n f mid func cur post,
    log = pre ++ .armed c n f :: (mid ++ .fired c func cur :: post) →
      (∀ e ∈ mid, ¬ e.Sets c ∧ e.runs c = false) → func = some f ∧
        cur = BitVec.ofNat 32 ((accountOf k pre).deadline n) ∧
        (accountOf k pre).deadline n < (accountOf k (pre ++ .armed c n f :: mid)).now
  /-- A callout that was stopped does not run until it is armed anew. -/
  stopped : ∀ pre c post, log = pre ++ .stopped c :: post → (∀ e ∈ post, ¬ e.Arms c) →
    post.filter (Event.runs c) = []
  /-- A pass looks again at an entry only after a callout was put into its bucket. -/
  looks : ∀ pre c mid post, log = pre ++ .looked c :: (mid ++ .looked c :: post) →
    (∃ cur, .pass cur ∈ mid) ∨ ∃ mid₁ c' n f mid₂, mid = mid₁ ++ .armed c' n f :: mid₂ ∧
      (accountOf k (pre ++ .looked c :: mid₁)).Joins k n

theorem lawful_of_split {pre post : List (Event κ φ)} (h : Lawful k .init (pre ++ post)) :
    Lawful k (accountOf k pre) post :=
  (lawful_append.mp h).2

theorem accountOf_append (pre post : List (Event κ φ)) :
    accountOf k (pre ++ post) = replay k (accountOf k pre) post :=
  replay_append k _ pre post

theorem AtRest.exact (h : AtRest k s) : Exact k s.log := by
  obtain ⟨now, h⟩ := h
  have hlaw := h.sim.lawful
  refine ⟨?_, ?_, ?_, ?_⟩
  · intro pre c n f post hlog hset hlt
    rw [hlog] at hlaw
    have hout : ((accountOf k pre).next k (.armed c n f)).out c =
        some ((accountOf k pre).deadline n, f) := update_self _ _ _
    obtain ⟨-, hleft⟩ | ⟨hfired, -⟩ := fired_iff_due (lawful_of_split hlaw).2 hout hset
    · -- it would still be outstanding, and late
      have hacc : s.account k = replay k ((accountOf k pre).next k (.armed c n f)) post := by
        unfold Cc.account
        rw [hlog, replay_append]
        rfl
      obtain ⟨-, -, hlo, -⟩ := h.sim.holds.armed c _ f (hacc ▸ hleft)
      have hnow : (accountOf k s.log).now = now := h.now_eq
      omega
    · exact hfired
  · intro pre c n f mid func cur post hlog hmid
    rw [hlog] at hlaw
    have hlaw' := lawful_append.mp (lawful_of_split hlaw).2
    have hout : ((accountOf k pre).next k (.armed c n f)).out c =
        some ((accountOf k pre).deadline n, f) := update_self _ _ _
    obtain ⟨-, hleft⟩ | ⟨hfired, -⟩ := fired_iff_due hlaw'.1 hout fun e he => (hmid e he).1
    · obtain ⟨t, f', ht, hfunc, hcur, hlt⟩ := hlaw'.2.1
      rw [hleft] at ht
      cases ht
      refine ⟨hfunc, hcur, ?_⟩
      rw [accountOf_append]
      exact hlt
    · have hnil : mid.filter (Event.runs c) = [] :=
        filter_eq_nil_iff.mpr fun e he => by simp [(hmid e he).2]
      rw [hnil] at hfired
      cases hfired
  · intro pre c post hlog harm
    rw [hlog] at hlaw
    exact not_fired_of_stopped (lawful_of_split hlaw) harm
  · intro pre c mid post hlog
    rw [hlog] at hlaw
    obtain hpass | ⟨mid₁, c', n, f, mid₂, hmid, hj⟩ :=
      looked_again mem_cons_self (lawful_of_split hlaw).2
    · exact .inl hpass
    · refine .inr ⟨mid₁, c', n, f, mid₂, hmid, ?_⟩
      rw [accountOf_append]
      exact hj

/-- **The wheel keeps time.** Whatever is armed and stopped, by the callbacks or between the ticks,
the clock comes to an end of every tick, and what happened is exact. -/
theorem wheel_exact (k : Nat) (lock : κ → Bool) (env : Env κ φ) (is : List (Input κ φ)) :
    Loop.Ends (fun fuel => run k env fuel (init lock) is) fun s => Exact k s.log :=
  (AtRest.run env is (init_atRest lock)).mono fun _ h => h.exact

/-- No pass looks at an entry twice, but for one that was armed anew in between. -/
def LooksOnce (log : List (Event κ φ)) : Prop :=
  ∀ pre c mid post, log = pre ++ .looked c :: (mid ++ .looked c :: post) →
    (∃ cur, .pass cur ∈ mid) ∨ ∃ n f, .armed c n f ∈ mid

/-- Callout 0 is armed for tick 1 and callout 1, before it in the list of their bucket, for tick 3.
The callback of 0 arms 2, also for tick 3, which takes the scan back to the head of the list: it
looks at 1 again. -/
theorem wheel_looks_again :
    ∃ s, run 1 (fun _ (f : Nat) => if f = 0 then [.reset 2 1 1 false] else []) 10
      (init fun _ : Nat => false)
      [.op (.reset 0 1 0 false), .op (.reset 1 3 1 false), .hardclock, .hardclock] = some s ∧
        ¬ LooksOnce s.log := by
  refine ⟨_, rfl, fun h => ?_⟩
  have := h [.armed 0 1 0, .armed 1 3 1, .clock, .clock, .pass 1] 1
    [.looked 0, .fired 0 (some 0) 1, .armed 2 1 1, .looked 2] [] rfl
  simp at this

end FStack.Timeout
