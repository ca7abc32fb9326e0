import FStack.Timeout.Timers

/-!
# What arming and stopping do to a wheel

`Holds` relates a wheel to the outstanding deadlines of `FStack.Timeout.Timers`: a callout is
pending exactly if it has one, its time is the deadline modulo `2 ^ 32`, and it is in the bucket of
its time. `Scanning` is the invariant of the scan of a bucket: what the pointer has still to pass
contains every callout that is due, and nothing that was looked at. A removal moves the pointer on,
an insertion at the head takes it back to the head.

Results:
* `calloutReset_eq`, `calloutStop_eq`: the two operations as removals and insertions.
* `Holds.drop`, `Scanning.drop`, `Holds.add`, `Scanning.add`: what these keep.
-/

namespace FStack.Timeout

open Function List FStack.Lib

variable {κ φ : Type} {k lo now u t : Nat} {out : κ → Option (Nat × φ)} {s s' : Cc κ φ} {c : κ}
  {seen : List κ} {n : Tick}

/-! ## Ticks -/

theorem ofNat_inj_of_le {a b : Nat} (h : BitVec.ofNat 32 a = BitVec.ofNat 32 b) (hab : a ≤ b)
    (hlt : b < a + 2 ^ 32) : a = b := by
  have hmod : a % 2 ^ 32 = b % 2 ^ 32 := by
    simpa only [BitVec.toNat_ofNat] using congrArg BitVec.toNat h
  omega

theorem atLeastOne_bounds (n : Tick) :
    1 ≤ (atLeastOne n).toNat ∧ (atLeastOne n).toNat < 2 ^ 31 := by
  unfold atLeastOne
  split
  · decide
  next h =>
    rw [BitVec.toInt_eq_toNat_cond] at h
    split at h <;> omega

theorem ofNat_add_tick (a : Nat) (n : Tick) :
    BitVec.ofNat 32 a + n = BitVec.ofNat 32 (a + n.toNat) := by
  rw [BitVec.ofNat_add, BitVec.ofNat_toNat, BitVec.setWidth_eq]

theorem behind_iff {soft : Nat} (hs : s.softticks = BitVec.ofNat 32 soft)
    (ht : s.ticks = BitVec.ofNat 32 now) (hle : soft ≤ now) (hlag : now ≤ soft + 2 ^ 31) :
    s.behind = true ↔ soft < now := by
  unfold Cc.behind
  rw [hs, ht, decide_eq_true_iff, BitVec.toInt_eq_toNat_cond, BitVec.toNat_sub]
  simp only [BitVec.toNat_ofNat]
  split <;> omega

/-! ## The wheel and the deadlines -/

/-- The wheel holds the outstanding callouts `out`, each in the bucket of its time. -/
structure Holds (k lo now : Nat) (out : κ → Option (Nat × φ)) (s : Cc κ φ) : Prop where
  ticks : s.ticks = BitVec.ofNat 32 now
  pending : ∀ c, (s.co c).pending = (out c).isSome
  armed : ∀ c t f, out c = some (t, f) →
    (s.co c).time = BitVec.ofNat 32 t ∧ (s.co c).func = some f ∧ lo ≤ t ∧ t < now + 2 ^ 31
  mem : ∀ b c, c ∈ s.wheel b ↔ (out c).isSome = true ∧ bucketOf k (s.co c).time = b
  nodup : ∀ b, (s.wheel b).Nodup

/-- `cc_exec_entity[0]` is not in use, no one waits, and a callout with a lock that runs cannot be
cancelled. -/
structure Calm (s : Cc κ φ) : Prop where
  idle : (s.exec false).curr = none
  waiting : ∀ d, (s.exec d).waiting = false
  cancel : ∀ c, (s.exec true).curr = some c → (s.co c).lock = true → (s.exec true).cancel = true

/-- The two states differ in nothing that `Holds` reads. -/
structure Alike (s s' : Cc κ φ) : Prop where
  ticks : s'.ticks = s.ticks
  wheel : s'.wheel = s.wheel
  co : ∀ c, (s'.co c).pending = (s.co c).pending ∧ (s'.co c).time = (s.co c).time ∧
    (s'.co c).func = (s.co c).func

theorem Holds.congr (h : Holds k lo now out s) (hs : Alike s s') : Holds k lo now out s' where
  ticks := hs.ticks.trans h.ticks
  pending c := (hs.co c).1.trans (h.pending c)
  armed c t f hc := by
    rw [(hs.co c).2.1, (hs.co c).2.2]
    exact h.armed c t f hc
  mem b c := by
    rw [hs.wheel, (hs.co c).2.1]
    exact h.mem b c
  nodup b := hs.wheel ▸ h.nodup b

theorem Calm.congr (h : Calm s) (hexec : s'.exec = s.exec)
    (hlock : ∀ c, (s'.co c).lock = (s.co c).lock) : Calm s' := by
  refine ⟨hexec ▸ h.idle, hexec ▸ h.waiting, fun c hc hl => ?_⟩
  rw [hexec] at hc ⊢
  exact h.cancel c hc (hlock c ▸ hl)

/-- A callout that runs cannot be cancelled. -/
theorem Calm.cancels {d : Bool} (h : Calm s) (hc : (s.exec d).curr = some c) :
    ((s.co c).lock && !(s.exec d).cancel) = false := by
  cases d with
  | false => simp [h.idle] at hc
  | true =>
    cases hl : (s.co c).lock with
    | false => rfl
    | true => simp [h.cancel c hc hl]

/-- The state a callback leaves. -/
theorem Calm.leave (h : Calm s) : Calm { s with
    exec := update s.exec true { s.exec true with curr := none, waiting := false }
    next := none } := by
  refine ⟨h.idle, fun d => ?_, fun c' hcurr => ?_⟩
  · cases d <;> simp [h.waiting]
  · simp at hcurr

theorem Holds.out_none (h : Holds k lo now out s) (hc : (s.co c).pending = false) :
    out c = none := by
  rw [h.pending c] at hc
  simpa using hc

variable [DecidableEq κ]

/-- The scan of the bucket of the tick `u`, from `p` on. -/
structure Scanning (k u : Nat) (out : κ → Option (Nat × φ)) (seen : List κ) (s : Cc κ φ)
    (p : Option κ) : Prop where
  at_mem : ∀ c, p = some c → c ∈ s.wheel (bucketOf k (BitVec.ofNat 32 u))
  due : ∀ c f, out c = some (u, f) → c ∈ Cursor.rest (s.wheel (bucketOf k (BitVec.ofNat 32 u))) p
  seen : ∀ c ∈ seen, c ∉ Cursor.rest (s.wheel (bucketOf k (BitVec.ofNat 32 u))) p

/-- How many callouts are due at `u`. -/
def dueCount (k u : Nat) (out : κ → Option (Nat × φ)) (s : Cc κ φ) : Nat :=
  (s.wheel (bucketOf k (BitVec.ofNat 32 u))).countP fun c => (out c).any fun tf => tf.1 == u

/-! ### Taking a callout off -/

theorem Holds.unlink (h : Holds k lo now out s) (hc : (s.co c).pending = true) :
    Holds k lo now (update out c none) (unlink k s c) where
  ticks := h.ticks
  pending c' := by
    by_cases hcc : c' = c
    · subst hcc
      simp [Timeout.unlink]
    · simp [Timeout.unlink, hcc, h.pending c']
  armed c' t f hc' := by
    by_cases hcc : c' = c
    · subst hcc
      simp at hc'
    · rw [update_of_ne hcc] at hc'
      simpa [Timeout.unlink, hcc] using h.armed c' t f hc'
  mem b c' := by
    by_cases hb : b = bucketOf k (s.co c).time
    · subst hb
      by_cases hcc : c' = c
      · subst hcc
        simp [Timeout.unlink, (h.nodup _).mem_erase_iff]
      · simp [Timeout.unlink, hcc, (h.nodup _).mem_erase_iff, h.mem]
    · by_cases hcc : c' = c
      · subst hcc
        have hnot : c' ∉ s.wheel b := fun hm => hb ((h.mem b c').mp hm).2.symm
        simp [Timeout.unlink, hb, hnot]
      · simp [Timeout.unlink, hcc, hb, h.mem]
  nodup b := by
    by_cases hb : b = bucketOf k (s.co c).time
    · subst hb
      simpa [Timeout.unlink] using (h.nodup _).erase c
    · simpa [Timeout.unlink, hb] using h.nodup b

theorem Scanning.unlink (hs : Scanning k u out seen s s.next) (h : Holds k lo now out s)
    (hc : (s.co c).pending = true) :
    Scanning k u (update out c none) seen (unlink k s c) (unlink k s c).next := by
  by_cases hb : bucketOf k (BitVec.ofNat 32 u) = bucketOf k (s.co c).time
  · have hrest : Cursor.rest ((Timeout.unlink k s c).wheel (bucketOf k (BitVec.ofNat 32 u)))
        (Timeout.unlink k s c).next =
          (Cursor.rest (s.wheel (bucketOf k (BitVec.ofNat 32 u))) s.next).erase c := by
      simp only [Timeout.unlink, ← hb, update_self]
      exact Cursor.rest_erase c (h.nodup _) hs.at_mem
    refine ⟨fun d hd => ?_, fun d f hd => ?_, fun d hd => ?_⟩
    · -- the pointer is still in the list
      simp only [Timeout.unlink, ← hb, update_self] at hd ⊢
      split at hd
      · have hmem := Cursor.mem_of_after hd
        have hself := Cursor.rest_eq_cons (h.nodup _) hmem
        have herase := Cursor.rest_erase_after (c := c) (h.nodup (bucketOf k (BitVec.ofNat 32 u)))
        rw [hd, hself] at herase
        exact (Cursor.rest_sublist _ _).subset (herase ▸ mem_cons_self)
      next hne =>
        have hdc : d ≠ c := fun hdc => hne (hdc ▸ hd)
        exact (mem_erase_of_ne hdc).mpr (hs.at_mem d hd)
    · rw [hrest]
      have hdc : d ≠ c := by
        rintro rfl
        simp at hd
      rw [update_of_ne hdc] at hd
      exact (mem_erase_of_ne hdc).mpr (hs.due d f hd)
    · rw [hrest]
      exact fun hm => hs.seen d hd (mem_of_mem_erase hm)
  · have hwheel : (Timeout.unlink k s c).wheel (bucketOf k (BitVec.ofNat 32 u)) =
        s.wheel (bucketOf k (BitVec.ofNat 32 u)) := update_of_ne hb _ _
    have hnext : (Timeout.unlink k s c).next = s.next := by
      refine if_neg fun hn => hb ?_
      exact ((h.mem _ c).mp (hs.at_mem c hn)).2.symm
    rw [hnext]
    refine ⟨hwheel ▸ hs.at_mem, fun d f hd => ?_, hwheel ▸ hs.seen⟩
    have hdc : d ≠ c := by
      rintro rfl
      simp at hd
    rw [update_of_ne hdc] at hd
    exact hwheel ▸ hs.due d f hd

theorem countP_update_none_le (l : List κ) :
    l.countP (fun c' => ((update out c none) c').any fun tf => tf.1 == u) ≤
      l.countP fun c' => (out c').any fun tf => tf.1 == u := by
  refine countP_mono_left fun c' _ hc' => ?_
  by_cases hcc : c' = c
  · subst hcc
    simp at hc'
  · rwa [update_of_ne hcc] at hc'

theorem dueCount_unlink_le :
    dueCount k u (update out c none) (unlink k s c) ≤ dueCount k u out s := by
  refine (countP_update_none_le _).trans (Sublist.countP_le ?_)
  by_cases hb : bucketOf k (BitVec.ofNat 32 u) = bucketOf k (s.co c).time
  · simp only [Timeout.unlink, ← hb, update_self]
    exact erase_sublist
  · simp [Timeout.unlink, hb]

theorem dueCount_unlink_lt (h : Holds k lo now out s) {f : φ} (hc : out c = some (u, f)) :
    dueCount k u (update out c none) (unlink k s c) < dueCount k u out s := by
  have htime : (s.co c).time = BitVec.ofNat 32 u := (h.armed c u f hc).1
  have hmem : c ∈ s.wheel (bucketOf k (BitVec.ofNat 32 u)) :=
    (h.mem _ c).mpr ⟨by rw [hc]; rfl, by rw [htime]⟩
  refine (countP_update_none_le _).trans_lt ?_
  simp only [Timeout.unlink, htime, update_self]
  rw [dueCount, (perm_cons_erase hmem).countP_eq, countP_cons_of_pos (by simp [hc])]
  exact Nat.lt_succ_self _

/-! ### Putting one on -/

theorem Holds.add (h : Holds k lo now out s) (hc : out c = none) (hlo : lo ≤ now)
    (hn : n.toNat < 2 ^ 31) (f : φ) (direct : Bool) :
    Holds k lo now (update out c (some (now + n.toNat, f))) (calloutCcAdd k s c n f direct) where
  ticks := h.ticks
  pending c' := by
    by_cases hcc : c' = c
    · subst hcc
      simp [calloutCcAdd]
    · simp [calloutCcAdd, hcc, h.pending c']
  armed c' t f' hc' := by
    by_cases hcc : c' = c
    · subst hcc
      rw [update_self] at hc'
      cases hc'
      refine ⟨?_, ?_, Nat.le_add_right_of_le hlo, Nat.add_lt_add_left hn now⟩
      · simp [calloutCcAdd, h.ticks, ofNat_add_tick]
      · simp [calloutCcAdd]
    · rw [update_of_ne hcc] at hc'
      simpa [calloutCcAdd, hcc] using h.armed c' t f' hc'
  mem b c' := by
    have hnot : c ∉ s.wheel b := fun hm => by simpa [hc] using (h.mem b c).mp hm
    by_cases hb : b = bucketOf k (s.ticks + n)
    · subst hb
      by_cases hcc : c' = c
      · subst hcc
        simp [calloutCcAdd]
      · simp [calloutCcAdd, hcc, h.mem]
    · by_cases hcc : c' = c
      · subst hcc
        simp [calloutCcAdd, hb, hnot, Ne.symm hb]
      · simp [calloutCcAdd, hcc, hb, h.mem]
  nodup b := by
    have hnot : c ∉ s.wheel b := fun hm => by simpa [hc] using (h.mem b c).mp hm
    by_cases hb : b = bucketOf k (s.ticks + n)
    · subst hb
      simpa [calloutCcAdd] using ⟨hnot, h.nodup _⟩
    · simpa [calloutCcAdd, hb] using h.nodup b

theorem Scanning.add (hs : Scanning k u out seen s s.next) (hc : out c = none)
    (hbucket : s.bucket = bucketOf k (BitVec.ofNat 32 u)) (ht : s.ticks + n = BitVec.ofNat 32 t)
    (hu : u < t) (f : φ) (direct : Bool) : Scanning k u (update out c (some (t, f)))
      (if bucketOf k (BitVec.ofNat 32 t) = bucketOf k (BitVec.ofNat 32 u) then [] else seen)
      (calloutCcAdd k s c n f direct) (calloutCcAdd k s c n f direct).next := by
  have hdue : ∀ d f', (update out c (some (t, f))) d = some (u, f') → out d = some (u, f') := by
    intro d f' hd
    by_cases hdc : d = c
    · subst hdc
      rw [update_self] at hd
      cases hd
      exact absurd hu (lt_irrefl _)
    · rwa [update_of_ne hdc] at hd
  by_cases hb : bucketOf k (BitVec.ofNat 32 t) = bucketOf k (BitVec.ofNat 32 u)
  · have hwheel : (calloutCcAdd k s c n f direct).wheel (bucketOf k (BitVec.ofNat 32 u)) =
        c :: s.wheel (bucketOf k (BitVec.ofNat 32 u)) := by
      simp [calloutCcAdd, ht, hb]
    have hnext : (calloutCcAdd k s c n f direct).next = some c :=
      if_pos (by rw [hbucket, ht, hb])
    rw [if_pos hb, hnext]
    refine ⟨fun d hd => ?_, fun d f' hd => ?_, nofun⟩
    · rw [hwheel, ← Option.some.inj hd]
      exact mem_cons_self
    · rw [hwheel]
      simp only [Cursor.rest, if_true]
      exact mem_cons_of_mem c ((Cursor.rest_sublist _ _).subset (hs.due d f' (hdue d f' hd)))
  · have hwheel : (calloutCcAdd k s c n f direct).wheel (bucketOf k (BitVec.ofNat 32 u)) =
        s.wheel (bucketOf k (BitVec.ofNat 32 u)) := by
      simp [calloutCcAdd, ht, Ne.symm hb]
    have hnext : (calloutCcAdd k s c n f direct).next = s.next :=
      if_neg (by rw [hbucket, ht]; exact Ne.symm hb)
    rw [if_neg hb, hnext]
    exact ⟨hwheel ▸ hs.at_mem, fun d f' hd => hwheel ▸ hs.due d f' (hdue d f' hd), hwheel ▸ hs.seen⟩

theorem dueCount_add_le (hc : out c = none) (hu : u < t) (f : φ) (direct : Bool) :
    dueCount k u (update out c (some (t, f))) (calloutCcAdd k s c n f direct) ≤
      dueCount k u out s := by
  unfold dueCount
  have hsame : (fun c' => ((update out c (some (t, f))) c').any fun tf => tf.1 == u) =
      fun c' => (out c').any fun tf => tf.1 == u := by
    funext c'
    by_cases hcc : c' = c
    · subst hcc
      simp [hc, Nat.ne_of_gt hu]
    · rw [update_of_ne hcc]
  rw [hsame]
  by_cases hb : bucketOf k (BitVec.ofNat 32 u) = bucketOf k (s.ticks + n)
  · simp only [calloutCcAdd, ← hb, update_self]
    rw [countP_cons_of_neg (by simp [hc])]
  · simp [calloutCcAdd, hb]

/-! ### The two operations -/

/-- A callout taken off its list if it is on one. -/
def drop (k : Nat) (s : Cc κ φ) (c : κ) : Cc κ φ := if (s.co c).pending then unlink k s c else s

theorem Holds.update_none (h : Holds k lo now out s) (hc : (s.co c).pending = false) :
    update out c none = out := by
  rw [← h.out_none hc]
  exact update_eq_self c out

theorem Holds.drop (h : Holds k lo now out s) :
    Holds k lo now (update out c none) (drop k s c) := by
  unfold Timeout.drop
  split
  next hc => exact h.unlink hc
  next hc => rwa [h.update_none (Bool.eq_false_iff.mpr hc)]

theorem Scanning.drop (hs : Scanning k u out seen s s.next) (h : Holds k lo now out s) :
    Scanning k u (update out c none) seen (drop k s c) (drop k s c).next := by
  unfold Timeout.drop
  split
  next hc => exact hs.unlink h hc
  next hc => rwa [h.update_none (Bool.eq_false_iff.mpr hc)]

theorem dueCount_drop_le (h : Holds k lo now out s) :
    dueCount k u (update out c none) (drop k s c) ≤ dueCount k u out s := by
  unfold Timeout.drop
  split
  · exact dueCount_unlink_le
  next hc => rw [h.update_none (Bool.eq_false_iff.mpr hc)]

/-- Nothing happened but that the event was noted. -/
structure Noted (s s' : Cc κ φ) (e : Event κ φ) : Prop where
  alike : Alike s s'
  softticks : s'.softticks = s.softticks
  next : s'.next = s.next
  bucket : s'.bucket = s.bucket
  log : s'.log = s.log ++ [e]
  calm : Calm s'

/-- `callout_reset` takes the callout off its list and puts it on another. -/
theorem calloutReset_eq (hcalm : Calm s) (c : κ) (n : Tick) (f : φ) (direct : Bool) :
    ∃ s', Noted s s' (.armed c n f) ∧
      (calloutReset k s c n f direct).1 =
        calloutCcAdd k (drop k s' c) c (atLeastOne n) f direct := by
  refine ⟨{ s.note (.armed c n f) with
    exec := update s.exec direct { s.exec direct with
      cancel := (s.exec direct).cancel ||
        ((s.exec direct).curr = some c && (s.co c).lock && !(s.exec direct).cancel) } },
    ⟨⟨rfl, rfl, fun _ => ⟨rfl, rfl, rfl⟩⟩, rfl, rfl, rfl, rfl, ?_⟩, ?_⟩
  · refine ⟨?_, fun d => ?_, fun c' hcurr hlock => ?_⟩
    · cases direct <;> simpa using hcalm.idle
    · cases direct <;> cases d <;> simp [hcalm.waiting]
    · cases direct with
      | false => simpa using hcalm.cancel c' (by simpa using hcurr) hlock
      | true => simp [hcalm.cancel c' (by simpa using hcurr) hlock]
  · have hw : ((s.note (.armed c n f)).exec direct).waiting = false := hcalm.waiting direct
    exact congrArg Prod.fst (if_neg (by simp [hw]))

/-- `callout_stop` takes the callout off its list. -/
theorem calloutStop_eq (hcalm : Calm s) (c : κ) :
    ∃ s', Noted s s' (.stopped c) ∧ (calloutStop k s c).1 = drop k s' c := by
  unfold calloutStop
  by_cases hcurr : (s.exec (s.co c).direct).curr = some c
  · refine ⟨{ s.note (.stopped c) with
      co := update s.co c { s.co c with active := false } },
      ⟨⟨rfl, rfl, fun c' => ?_⟩, rfl, rfl, rfl, rfl, ?_⟩, ?_⟩
    · by_cases hcc : c' = c
      · subst hcc
        simp
      · simp [hcc]
    · refine ⟨hcalm.idle, hcalm.waiting, fun c' hc' hlock => hcalm.cancel c' hc' ?_⟩
      by_cases hcc : c' = c
      · subst hcc
        simpa using hlock
      · simpa [hcc] using hlock
    · simp only [Cc.note, hcurr, if_true, update_self, hcalm.cancels hcurr, Bool.false_eq_true,
        if_false, drop]
      split <;> rfl
  · refine ⟨s.note (.stopped c), ⟨⟨rfl, rfl, fun _ => ⟨rfl, rfl, rfl⟩⟩, rfl, rfl, rfl, rfl, ?_⟩, ?_⟩
    · exact ⟨hcalm.idle, hcalm.waiting, hcalm.cancel⟩
    · simp only [Cc.note, hcurr, if_false, drop]
      exact apply_ite Prod.fst _ _ _

end FStack.Timeout
