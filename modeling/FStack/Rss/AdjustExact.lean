import FStack.Rss.Adjust
import FStack.Lib.CyclicScan

/-!
# Reverse calculation, exactly

`Rss/Adjust.lean` models `ff_rss_adjust_sport` and `ff_rss_adjust_sport6` and says what a returned
port satisfies. Here the two outcomes are settled for a RETA of a power-of-two size on which each
queue has an entry.

The functions align `first` up to a block of `reta_size` ports, pick one of the blocks that lie in
`[first, last]` (`seedBase`) and seed every try with its first port. Since
`rte_thash_adjust_tuple` keeps the bits above the block, no solved port leaves the range, and since
it hits the requested RETA entry, `ff_rss_check` never rejects one. The requested entries are those
of this queue, from a random one on, round from the last to the first (`Lib/CyclicScan.lean`'s
`stride`); there are as many tries as the class of the queue can have entries.

Results:
* `adjust_sound_complete`: both functions return a port only from one aligned block inside the
  range, and it passes the check with or without `recheck`; they give up after the loop only when
  `rte_thash_adjust_tuple` failed for every RETA entry of this queue.
-/

namespace FStack.Rss

open List FStack.Lib.CyclicScan

variable {A : Type} (F : ThashFamily A) (g : AdjustCfg) (s : RssState) (lc : LcoreConf)
  (port : Nat) (saddr daddr : A) (dport : InPort) (first last : Nat) (calls : AdjustCalls)

/-! ## The block of the seed -/

/-- The port every try starts from, `none` when the function returns before its loop. -/
def seedBase : Option Nat :=
  let retaSize := s.retaSize port
  let base := alignBase first retaSize
  let nblocks := (last - base + 1) / retaSize % 65536
  if !F.ready s port || (F.ctx s port).isNone then none
  else if !g.thashAdjust then none
  else if lc.nbQueueList port ≤ 1 then none
  else if last < first then none
  else if base < first || last < (BitVec.ofNat 32 base + retaMask retaSize).toNat then none
  else if nblocks = 0 then none
  else some ((base + calls.block % nblocks * retaSize) % 65536)

/-- The number of tries: what a queue can have of RETA entries. -/
def entries : Nat := (s.retaSize port + lc.nbQueueList port - 1) / lc.nbQueueList port

/-- The first requested entry. -/
def firstDesired : Nat :=
  wrap (lc.txQueueId port) (s.retaSize port)
    (lc.txQueueId port + calls.desired % entries s lc port * lc.nbQueueList port)

theorem adjustSport_eq :
    adjustSport F g s lc port saddr daddr dport first last calls =
      match seedBase F g s lc port first last calls with
      | none => .ok none
      | some base => adjustTries F g s lc port saddr daddr dport first last calls base
          (entries s lc port) 0 (firstDesired s lc port calls) := by
  unfold adjustSport seedBase
  dsimp only
  split
  · rfl
  split
  · rfl
  split
  · rfl
  split
  · rfl
  split
  · rfl
  split
  · rfl
  · rfl

/-- The aligned base is a multiple of the block size. -/
theorem dvd_alignBase {m : Nat} (hm : m < 16) : 2 ^ m ∣ alignBase first (2 ^ m) := by
  have h16 : 2 ^ m ∣ 65536 := Nat.pow_dvd_pow 2 (Nat.le_of_lt hm : m ≤ 16)
  rw [alignBase, Nat.dvd_mod_iff h16, Nat.dvd_iff_mod_eq_zero, ← and_pred_toNat _ (by omega),
    ← retaMask, BitVec.and_assoc, BitVec.not_and_self]
  simp

/-- A block of `2 ^ m` ports from `base` on, aligned and inside `[first, last]`. -/
structure BlockIn (first last m base : Nat) : Prop where
  aligned : 2 ^ m ∣ base
  first_le : first ≤ base
  le_last : base + 2 ^ m ≤ last + 1

variable {F g s lc port saddr daddr dport first last calls} {m : Nat}

/-- One of the blocks that fit behind an aligned `a`. -/
theorem blockIn_of_lt {a k : Nat} (hdvd : 2 ^ m ∣ a) (hfirst : first ≤ a)
    (hlast : last < 65536) (hk : k < (last - a + 1) / 2 ^ m) (ha : a ≤ last) :
    BlockIn first last m ((a + k * 2 ^ m) % 65536) := by
  have hpos : 0 < 2 ^ m := Nat.pow_pos (by omega)
  have hfit : (k + 1) * 2 ^ m ≤ last - a + 1 := (Nat.le_div_iff_mul_le hpos).1 hk
  rw [Nat.succ_mul] at hfit
  rw [Nat.mod_eq_of_lt (by omega)]
  exact ⟨(Nat.dvd_add_right hdvd).2 (Nat.dvd_mul_left _ _), by omega, by omega⟩

/-- The last port of the block, in 32 bits. -/
theorem toNat_add_retaMask {a : Nat} (ha : a < 65536) (hm : m < 16) :
    (BitVec.ofNat 32 a + retaMask (2 ^ m)).toNat = a + 2 ^ m - 1 := by
  have hpos : 0 < 2 ^ m := Nat.pow_pos (by omega)
  have hpow : 2 ^ m < 65536 := Nat.pow_lt_pow_right (by omega) hm
  rw [retaMask, BitVec.toNat_add, BitVec.toNat_sub, BitVec.toNat_ofNat, BitVec.toNat_ofNat,
    BitVec.toNat_ofNat]
  omega

variable {base : Nat}

theorem seedBase_spec (hreta : s.retaSize port = 2 ^ m) (hm : m < 16) (hlast : last < 65536)
    (h : seedBase F g s lc port first last calls = some base) :
    (F.ctx s port).isSome = true ∧ 1 < lc.nbQueueList port ∧ BlockIn first last m base := by
  unfold seedBase at h
  dsimp only at h
  rw [hreta] at h
  split at h
  · cases h
  rename_i hready
  split at h
  · cases h
  split at h
  · cases h
  rename_i hnb
  split at h
  · cases h
  split at h
  · cases h
  rename_i hin
  split at h
  · cases h
  rename_i hblocks
  cases h
  have hctx : (F.ctx s port).isSome = true := by
    cases hctx : F.ctx s port with
    | none => simp [hctx] at hready
    | some key => rfl
  refine ⟨hctx, not_le.1 hnb, ?_⟩
  have halign : alignBase first (2 ^ m) < 65536 := Nat.mod_lt _ (by omega)
  rw [toNat_add_retaMask halign hm] at hin
  simp only [Bool.or_eq_true, decide_eq_true_eq, not_or, Nat.not_lt] at hin
  have hpos : 0 < 2 ^ m := Nat.pow_pos (by omega)
  refine blockIn_of_lt (dvd_alignBase first hm) hin.1 hlast ?_ (by omega)
  exact Nat.lt_of_lt_of_le (Nat.mod_lt _ (pos_of_ne_zero hblocks)) (Nat.mod_le _ _)

/-! ## The tries -/

/-- What the results below assume of one port and one call: a RETA of a power-of-two size with an
entry for each queue, what `rte_thash_adjust_tuple` does with the context's key, and a context's key
that agrees with the published one on the bits the hash of a tuple reads. -/
structure AdjustSetting (F : ThashFamily A) (s : RssState) (lc : LcoreConf) (port m : Nat)
    (calls : AdjustCalls) : Prop where
  retaSize : s.retaSize port = 2 ^ m
  log_lt : m < 16
  one_lt_nb : 1 < lc.nbQueueList port
  nb_le : lc.nbQueueList port ≤ 2 ^ m
  queueid_lt : lc.txQueueId port < lc.nbQueueList port
  sound : ∀ ctxKey, F.ctx s port = some ctxKey →
    AdjustSound ctxKey (s.retaSize port) calls.adjustTuple
  agree : ∀ ctxKey, F.ctx s port = some ctxKey → ∃ key, s.rsskey = some key ∧
    ∀ j, j < 8 * (F.portOff + 2) + 31 →
      keyBit (max 4 s.rsskeyLen) key j = keyBit (max 4 ctxKey.length) ctxKey j

namespace AdjustSetting

variable {ctxKey : List Byte} {v : Nat}

theorem hasEntry (h : AdjustSetting F s lc port m calls) : HasEntry s lc port m :=
  ⟨h.retaSize, h.log_lt.trans (by omega), h.queueid_lt.trans_le h.nb_le⟩

variable (saddr daddr dport) in
theorem hashesAlike (h : AdjustSetting F s lc port m calls) (hctx : F.ctx s port = some ctxKey) :
    HashesAlike s ctxKey (F.head saddr daddr dport) := by
  obtain ⟨key, hkey, hbits⟩ := h.agree ctxKey hctx
  refine ⟨key, hkey, fun sport => ?_⟩
  have hlen : (F.head saddr daddr dport ++ memBytes sport).length = F.portOff + 2 := by
    simp [F.head_length]
  rw [← toeplitzHash_max, ← toeplitzHash_max ctxKey.length]
  refine toeplitzHash_eq_of_key (le_max_left 4 _) (le_max_left 4 _) _ fun j hj => ?_
  exact hbits j (hlen ▸ hj)

/-- A requested entry is requested as it is. -/
theorem and_retaMask (h : AdjustSetting F s lc port m calls) (hv : v < 2 ^ m) :
    BitVec.ofNat 32 v &&& retaMask (s.retaSize port) = BitVec.ofNat 32 v := by
  have hpow : 2 ^ m < 65536 := Nat.pow_lt_pow_right (by omega) h.log_lt
  apply BitVec.eq_of_toNat_eq
  rw [h.retaSize, retaMask, and_pred_toNat _ h.hasEntry.log_lt, BitVec.toNat_ofNat,
    Nat.mod_eq_of_lt (show v < 2 ^ 32 by omega), Nat.mod_eq_of_lt hv]

/-- **A solved port** lies in the block and passes the check. -/
theorem solved (h : AdjustSetting F s lc port m calls) (hctx : F.ctx s port = some ctxKey) {i : Nat}
    {tuple : List Byte} (hblock : BlockIn first last m base) (hlast : last < 65536) (hv : v < 2 ^ m)
    (hmod : v % lc.nbQueueList port = lc.txQueueId port)
    (hadj : calls.adjustTuple i (F.head saddr daddr dport ++ memBytes (htons base))
      (BitVec.ofNat 32 v &&& retaMask (s.retaSize port)) = some tuple) :
    base ≤ ntohs (portAt F.portOff tuple) ∧ ntohs (portAt F.portOff tuple) < base + 2 ^ m ∧
      F.check s lc port saddr daddr dport (portAt F.portOff tuple) = some true := by
  obtain ⟨sport, rfl, hhigh, hhit⟩ := h.sound ctxKey hctx _ _ _ _ _ hadj
  obtain ⟨key, hkey, hsame⟩ := h.hashesAlike saddr daddr dport hctx
  rw [← F.head_length saddr daddr dport, portAt_append, F.check_eq]
  have hpos : 0 < 2 ^ m := Nat.pow_pos (by omega)
  have hbase : base < 65536 := by
    have := hblock.le_last
    omega
  have hport : ntohs sport / 2 ^ m = base / 2 ^ m := by
    rw [h.retaSize, Nat.log2_two_pow] at hhigh
    rw [hhigh, ntohs_htons hbase]
  obtain ⟨c, rfl⟩ := hblock.aligned
  rw [Nat.mul_div_cancel_left _ hpos] at hport
  refine ⟨?_, ?_, ?_⟩
  · rw [← hport]
    exact Nat.mul_div_le _ _
  · rw [← hport, ← Nat.mul_succ]
    exact Nat.lt_mul_div_succ _ hpos
  · rw [← hsame] at hhit
    exact rssCheck_of_hit hkey h.retaSize h.hasEntry.log_lt hv h.one_lt_nb hmod hhit

end AdjustSetting

variable (g saddr daddr dport) in
/-- **The loop**: it ends with a port of the block that passes the check, or each of its tries
failed in `rte_thash_adjust_tuple`, try `k` at the entry `k` strides on. -/
theorem adjustTries_spec {ctxKey : List Byte} (h : AdjustSetting F s lc port m calls)
    (hctx : F.ctx s port = some ctxKey) (hblock : BlockIn first last m base) (hlast : last < 65536)
    : ∀ (n i desired : Nat),
    desired % lc.nbQueueList port = lc.txQueueId port →
    (∃ p, adjustTries F g s lc port saddr daddr dport first last calls base n i desired =
        .ok (some p) ∧ base ≤ p ∧ p < base + 2 ^ m ∧
        F.check s lc port saddr daddr dport (htons p) = some true) ∨
      (adjustTries F g s lc port saddr daddr dport first last calls base n i desired = .ok none ∧
        ∀ k, k < n → calls.adjustTuple (i + k)
          (F.head saddr daddr dport ++ memBytes (htons base)) (BitVec.ofNat 32
            ((stride (lc.txQueueId port) (2 ^ m) (lc.nbQueueList port))^[k]
              (wrap (lc.txQueueId port) (2 ^ m) desired))) = none)
  | 0, i, desired, _ => .inr ⟨rfl, fun k hk => absurd hk (Nat.not_lt_zero k)⟩
  | n + 1, i, desired, hmod => by
    have hq := Nat.mod_eq_of_lt h.queueid_lt
    obtain ⟨hlt, hcand⟩ := wrap_mem (w := lc.nbQueueList port) h.hasEntry.queueid_lt
      (hmod.trans hq.symm)
    rw [hq] at hcand
    have hnext := (Nat.add_mod_right (wrap (lc.txQueueId port) (2 ^ m) desired)
      (lc.nbQueueList port)).trans hcand
    unfold adjustTries
    dsimp only
    rw [show (if s.retaSize port ≤ desired then lc.txQueueId port else desired) =
      wrap (lc.txQueueId port) (2 ^ m) desired by rw [h.retaSize]; rfl]
    cases hadj : calls.adjustTuple i (F.head saddr daddr dport ++ memBytes (htons base))
        (BitVec.ofNat 32 (wrap (lc.txQueueId port) (2 ^ m) desired) &&&
          retaMask (s.retaSize port)) with
    | none =>
      rcases adjustTries_spec h hctx hblock hlast n (i + 1) _ hnext with hfound | ⟨hnone, hall⟩
      · exact .inl hfound
      refine .inr ⟨hnone, fun k hk => ?_⟩
      cases k with
      | zero => rwa [h.and_retaMask hlt] at hadj
      | succ k =>
        rw [Function.iterate_succ_apply, ← add_assoc, add_right_comm]
        exact hall k (by omega)
    | some tuple =>
      obtain ⟨hlo, hhi, hcheck⟩ := h.solved hctx hblock hlast hlt hcand hadj
      have hfirst := hblock.first_le
      have hend := hblock.le_last
      refine .inl ⟨ntohs (portAt F.portOff tuple), ?_, hlo, hhi, by rwa [htons_ntohs]⟩
      -- neither the range test nor the second check can send the loop on
      dsimp only
      rw [if_neg (by simp only [Bool.or_eq_true, decide_eq_true_eq]; omega), hcheck]
      cases g.recheck <;> rfl

/-! ## The two functions -/

/-- What the reverse calculation of a local port for `daddr:dport` may result in. -/
structure AdjustExact (F : ThashFamily A) (g : AdjustCfg) (s : RssState) (lc : LcoreConf)
    (port : Nat) (saddr daddr : A) (dport : InPort) (first last : Nat) (calls : AdjustCalls)
    (r : Except TblFault (Option Nat)) : Prop where
  returns : ∃ o, r = .ok o
  /-- A port lies in one aligned block inside the range and passes the check. -/
  found : ∀ p, r = .ok (some p) → first ≤ p ∧ p ≤ last ∧
    (∃ base, seedBase F g s lc port first last calls = some base ∧ s.retaSize port ∣ base ∧
      first ≤ base ∧ base ≤ p ∧ p < base + s.retaSize port ∧ base + s.retaSize port ≤ last + 1) ∧
    F.check s lc port saddr daddr dport (htons p) = some true
  /-- After the loop, every RETA entry of this queue has failed. -/
  exhausted : ∀ base, seedBase F g s lc port first last calls = some base → r = .ok none →
    ∀ v, v < s.retaSize port → v % lc.nbQueueList port = lc.txQueueId port →
      ∃ i, i < entries s lc port ∧
        calls.adjustTuple i (F.head saddr daddr dport ++ memBytes (htons base))
          (BitVec.ofNat 32 v) = none

theorem firstDesired_mem (h : AdjustSetting F s lc port m calls) :
    firstDesired s lc port calls < 2 ^ m ∧
      firstDesired s lc port calls % lc.nbQueueList port = lc.txQueueId port := by
  have hq := Nat.mod_eq_of_lt h.queueid_lt
  have hmem := wrap_mem (w := lc.nbQueueList port) h.hasEntry.queueid_lt
    (Nat.add_mul_mod_self_right (lc.txQueueId port) (calls.desired % entries s lc port) _)
  rwa [← h.retaSize, hq, ← firstDesired, h.retaSize] at hmem

theorem adjustSport_exact (h : AdjustSetting F s lc port m calls) (hlast : last < 65536) :
    AdjustExact F g s lc port saddr daddr dport first last calls
      (adjustSport F g s lc port saddr daddr dport first last calls) := by
  rw [adjustSport_eq]
  cases hseed : seedBase F g s lc port first last calls with
  | none =>
    refine ⟨⟨_, rfl⟩, fun _ hp => (nomatch hp), fun base hbase => ?_⟩
    rw [hseed] at hbase
    cases hbase
  | some base =>
    obtain ⟨hctx, -, hblock⟩ := seedBase_spec h.retaSize h.log_lt hlast hseed
    obtain ⟨ctxKey, hctx⟩ := Option.isSome_iff_exists.1 hctx
    obtain ⟨hlt, hmod⟩ := firstDesired_mem h
    have hfirst := hblock.first_le
    have hend := hblock.le_last
    have hdvd := hblock.aligned
    dsimp only
    rcases adjustTries_spec g saddr daddr dport h hctx hblock hlast (entries s lc port) 0 _ hmod
      with ⟨p, hp, hlo, hhi, hcheck⟩ | ⟨hnone, hall⟩
    · rw [hp]
      refine ⟨⟨_, rfl⟩, ?_, fun _ _ hr => nomatch hr⟩
      rintro _ ⟨⟩
      rw [h.retaSize]
      exact ⟨by omega, by omega, ⟨base, hseed, hdvd, hfirst, hlo, hhi, hend⟩, hcheck⟩
    · rw [hnone]
      refine ⟨⟨_, rfl⟩, fun _ hp => (nomatch hp), ?_⟩
      intro base' hbase' _ v hv hvm
      rw [hseed] at hbase'
      cases hbase'
      rw [h.retaSize] at hv
      obtain ⟨k, hk, hkv⟩ := stride_covers h.queueid_lt hlt hmod hv hvm
      refine ⟨k, by rw [entries, h.retaSize]; exact hk, ?_⟩
      have := hall k (by rw [entries, h.retaSize]; exact hk)
      rwa [wrap_of_lt hlt, hkv, zero_add] at this

/-- **Reverse calculation is sound and complete over the RETA**, for IPv4 and IPv6. A returned port
lies in `[first, last]`, in one aligned block of it, and passes `ff_rss_check` whether or not it was
checked again; the functions give up after entering their loop only when `rte_thash_adjust_tuple`
has failed for each RETA entry of this queue. -/
theorem adjust_sound_complete (g : AdjustCfg) (s : RssState) (lc : LcoreConf) (port m : Nat)
    (dport : InPort) (first last : BitVec 16) (calls : AdjustCalls) :
    (AdjustSetting inetThash s lc port m calls → ∀ saddr daddr : InAddr,
      AdjustExact inetThash g s lc port saddr daddr dport first.toNat last.toNat calls
        (ffRssAdjustSport g s lc port dport first.toNat last.toNat calls saddr daddr)) ∧
    (AdjustSetting inet6Thash s lc port m calls → ∀ saddr6 daddr6 : In6Addr,
      AdjustExact inet6Thash g s lc port saddr6 daddr6 dport first.toNat last.toNat calls
        (ffRssAdjustSport6 g s lc port dport first.toNat last.toNat calls saddr6 daddr6)) :=
  ⟨fun h _ _ => adjustSport_exact h last.isLt, fun h _ _ => adjustSport_exact h last.isLt⟩

/-! ## The assumptions can be met -/

/-- A search through the block in place of `rte_thash_adjust_tuple`. -/
def solveTuple (key : List Byte) (m : Nat) (_ : Nat) (tuple : List Byte) (desired : BitVec 32) :
    Option (List Byte) :=
  let off := tuple.length - 2
  let base := ntohs (portAt off tuple) / 2 ^ m * 2 ^ m
  ((range (2 ^ m)).map fun k => tuple.take off ++ memBytes (htons (base + k))).find? fun t =>
    toeplitzHash key.length key t &&& retaMask (2 ^ m) == desired

theorem adjustSound_solveTuple (key : List Byte) (hm : m < 16) :
    AdjustSound key (2 ^ m) (solveTuple key m) := by
  intro i head seed desired tuple h
  have hhit := find?_some h
  obtain ⟨k, hk, rfl⟩ := mem_map.1 (mem_of_find?_eq_some h)
  have hoff : (head ++ memBytes seed).length - 2 = head.length := by simp
  rw [hoff, portAt_append, take_left] at hhit ⊢
  have hpos : 0 < 2 ^ m := Nat.pow_pos (by omega)
  have hk : k < 2 ^ m := mem_range.1 hk
  -- the block ends with the 16-bit ports
  have hblock : (ntohs seed / 2 ^ m + 1) * 2 ^ m ≤ 65536 := by
    have h16 : 2 ^ (16 - m) * 2 ^ m = 65536 := by
      rw [← Nat.pow_add, Nat.sub_add_cancel (Nat.le_of_lt hm)]
    rw [← h16]
    refine Nat.mul_le_mul_right _ (Nat.succ_le_of_lt ?_)
    rw [Nat.div_lt_iff_lt_mul hpos, h16]
    exact ntohs_lt seed
  rw [Nat.succ_mul] at hblock
  refine ⟨_, rfl, ?_, beq_iff_eq.1 hhit⟩
  rw [ntohs_htons (by omega), Nat.log2_two_pow, mul_comm, Nat.mul_add_div hpos,
    Nat.div_eq_of_lt hk, add_zero]

/-- A port with contexts for both families under the default key, and a RETA of 128 entries. -/
def readyState : RssState :=
  { RssState.start with
    retaSize := fun _ => 128
    thashReady := fun _ => true
    thash6Ready := fun _ => true
    thashCtx := fun _ => some defaultRsskey40bytes
    thash6Ctx := fun _ => some defaultRsskey40bytes }

/-- Queue 1 of three, which do not divide the RETA. -/
def queueOneOfThree : LcoreConf where
  nbQueueList := fun _ => 3
  txQueueId := fun _ => 1

/-- A library whose `rte_thash_adjust_tuple` solves for seven bits of the default key. -/
def solvingCalls : AdjustCalls where
  block := 5
  desired := 42
  adjustTuple := solveTuple defaultRsskey40bytes 7

theorem readyState_setting (hctx : F.ctx readyState 0 = some defaultRsskey40bytes) :
    AdjustSetting F readyState queueOneOfThree 0 7 solvingCalls where
  retaSize := rfl
  log_lt := by decide
  one_lt_nb := by decide
  nb_le := by decide
  queueid_lt := by decide
  sound := fun ctxKey h => by
    rw [hctx] at h
    cases h
    exact adjustSound_solveTuple _ (by decide)
  agree := fun ctxKey h => by
    rw [hctx] at h
    cases h
    exact ⟨_, rfl, fun _ _ => rfl⟩

theorem adjust_sound_complete_ready :
    AdjustExact inetThash ⟨true, false⟩ readyState queueOneOfThree 0 0x0100007f 0x0200007f 0x5000
        1024 65535 solvingCalls
        (ffRssAdjustSport ⟨true, false⟩ readyState queueOneOfThree 0 0x5000 1024 65535 solvingCalls
          0x0100007f 0x0200007f) ∧
      AdjustExact inet6Thash ⟨true, false⟩ readyState queueOneOfThree 0 inet6Family.any
        inet6Family.any 0x5000 1024 65535 solvingCalls
        (ffRssAdjustSport6 ⟨true, false⟩ readyState queueOneOfThree 0 0x5000 1024 65535
          solvingCalls inet6Family.any inet6Family.any) :=
  ⟨(adjust_sound_complete _ _ _ 0 7 _ 1024 65535 _).1 (readyState_setting rfl) _ _,
    (adjust_sound_complete _ _ _ 0 7 _ 1024 65535 _).2 (readyState_setting rfl) _ _⟩

end FStack.Rss
