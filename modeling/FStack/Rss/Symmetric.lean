import FStack.Rss.Init

/-!
# Symmetric RSS

With `symmetric_rss` the RSS block of `init_port_start` (`lib/ff_dpdk_if.c:958-961`) selects
`symmetric_rsskey`, "Use symmetric Receive-side Scaling(RSS) key", so that both directions of a
connection hash alike. `ff_rss_thash_build_key` then still rewrites the key bits under the
destination port, and what reaches the device need not be symmetric any more.

Results:
* `nicConf_symmetric_iff`: when a device's key hashes both directions alike, for every device of an
  initialisation run.
-/

namespace FStack.Rss

open List FStack.Lib.WindowHash

/-- Both directions of every IPv4 and IPv6 tuple hash alike under the key. -/
def SymmetricHash (keylen : Nat) (key : List Byte) : Prop :=
  (∀ (src dst : InAddr) (sport dport : InPort),
    toeplitzHash keylen key (tupleBytes src dst sport dport) =
      toeplitzHash keylen key (tupleBytes dst src dport sport)) ∧
  ∀ (src dst : In6Addr) (sport dport : InPort),
    toeplitzHash keylen key (tuple6Bytes src dst sport dport) =
      toeplitzHash keylen key (tuple6Bytes dst src dport sport)

/-! ## Symmetry is a property of the key bits -/

/-- Both directions hash alike, for addresses of `n` bytes. -/
def SymmetricOn (keylen : Nat) (key : List Byte) (n : Nat) : Prop :=
  ∀ src dst sport dport : List Byte, src.length = n → dst.length = n → sport.length = 2 →
    dport.length = 2 →
    toeplitzHash keylen key (src ++ dst ++ sport ++ dport) =
      toeplitzHash keylen key (dst ++ src ++ dport ++ sport)

variable {n i keylen len : Nat} {key : List Byte} {calls : BuildCalls}

theorem bitAt_swapped {src dst sport dport : List Byte} (hsrc : src.length = n)
    (hdst : dst.length = n) (hsp : sport.length = 2) (hdp : dport.length = 2)
    (hi : i < 8 * (2 * n + 4)) : bitAt (dst ++ src ++ dport ++ sport) i =
      swapTwo (bitAt (src ++ dst ++ sport ++ dport)) (8 * n) 16 i := by
  have hlen : (src ++ dst).length = 2 * n := by simp [hsrc, hdst]; omega
  have hlen' : (dst ++ src).length = 2 * n := by simp [hsrc, hdst]; omega
  rcases lt_or_ge i (8 * n + 8 * n) with h | h
  · rw [swapTwo_of_lt _ _ h, append_assoc, bitAt_append_left _ _ (by omega)]
    unfold swapBlocks
    split
    · rw [bitAt_append_left _ _ (by omega), append_assoc, bitAt_append_left _ _ (by omega),
        bitAt_append_right _ _ (by omega)]
      congr 1
      omega
    · rw [if_pos (by omega), bitAt_append_right _ _ (by omega), append_assoc,
        append_assoc, bitAt_append_left _ _ (by omega)]
      congr 1
      omega
  · rw [swapTwo_of_le _ _ h, append_assoc, bitAt_append_right _ _ (by omega)]
    unfold swapBlocks
    split
    · rw [bitAt_append_left _ _ (by omega), bitAt_append_right _ _ (by simp; omega)]
      congr 1
      simp
      omega
    · rw [if_pos (by omega), bitAt_append_right _ _ (by omega), append_assoc,
        bitAt_append_right _ _ (by omega), bitAt_append_left _ _ (by omega)]
      congr 1
      omega

theorem exists_parts (n : Nat) (x : Nat → Bool) :
    ∃ src dst sport dport : List Byte, src.length = n ∧ dst.length = n ∧ sport.length = 2 ∧
      dport.length = 2 ∧ src ++ dst ++ sport ++ dport = ofBits x (2 * n + 4) := by
  refine ⟨(ofBits x (2 * n + 4)).take n, ((ofBits x (2 * n + 4)).drop n).take n,
    (((ofBits x (2 * n + 4)).drop n).drop n).take 2,
    (((ofBits x (2 * n + 4)).drop n).drop n).drop 2, ?_, ?_, ?_, ?_, ?_⟩
  · simp; omega
  · simp; omega
  · simp; omega
  · simp; omega
  · rw [append_assoc, append_assoc, take_append_drop, take_append_drop, take_append_drop]

section Parts

variable {keylen : Nat} (hk : 4 ≤ keylen) (key : List Byte) {src dst sport dport : List Byte}
  (hsrc : src.length = n) (hdst : dst.length = n) (hsp : sport.length = 2) (hdp : dport.length = 2)

include hk hsrc hdst hsp hdp

theorem toeplitzHash_parts :
    toeplitzHash keylen key (src ++ dst ++ sport ++ dport) =
      hashRange 32 (keyBit keylen key) (bitAt (src ++ dst ++ sport ++ dport)) 0
        (16 * n + (16 + 16)) := by
  rw [toeplitzHash_eq hk]
  congr 1
  simp [hsrc, hdst, hsp, hdp]
  omega

theorem toeplitzHash_swapped :
    toeplitzHash keylen key (dst ++ src ++ dport ++ sport) =
      hashRange 32 (keyBit keylen key)
        (swapTwo (bitAt (src ++ dst ++ sport ++ dport)) (8 * n) 16) 0 (16 * n + (16 + 16)) := by
  rw [toeplitzHash_parts hk key hdst hsrc hdp hsp]
  exact hashRange_congr (fun i hi => bitAt_swapped hsrc hdst hsp hdp (by omega)) (fun _ _ _ => rfl)

end Parts

/-- **Symmetry for `n`-byte addresses**: the key repeats with the address length under the
addresses and with 16 bits under the ports. -/
theorem symmetricOn_iff (hk : 4 ≤ keylen) (key : List Byte) (hn : 0 < n) :
    SymmetricOn keylen key n ↔
      (∀ j, j < 8 * n + 31 → keyBit keylen key j = keyBit keylen key (8 * n + j)) ∧
        ∀ j, j < 47 → keyBit keylen key (16 * n + j) = keyBit keylen key (16 * n + 16 + j) := by
  have hiff := hashRange_swapTwo_iff (w := 32) (keyBit keylen key) (m := 8 * n) (n := 16)
    (by omega) (by omega) (by omega)
  have h16 : 8 * n + 8 * n = 16 * n := by omega
  simp only [zero_add, h16] at hiff
  refine Iff.trans ?_ hiff
  constructor
  · intro h x
    obtain ⟨src, dst, sport, dport, hsrc, hdst, hsp, hdp, hx⟩ := exists_parts n x
    have hbits : ∀ i, i < 8 * n + 8 * n + (16 + 16) →
        bitAt (src ++ dst ++ sport ++ dport) i = x i := fun i hi => by
      rw [hx, bitAt_ofBits x (by omega)]
    have hhash := h src dst sport dport hsrc hdst hsp hdp
    rw [toeplitzHash_parts hk key hsrc hdst hsp hdp,
      toeplitzHash_swapped hk key hsrc hdst hsp hdp] at hhash
    rw [← hashRange_congr (k := keyBit keylen key) (a := 0) (b := 0) (x := bitAt _) (y := x)
      (fun i hi => hbits (0 + i) (by omega)) (fun _ _ _ => rfl), hhash]
    exact hashRange_congr (fun i hi => (swapTwo_congr hbits (by omega)).symm) (fun _ _ _ => rfl)
  · intro h src dst sport dport hsrc hdst hsp hdp
    rw [toeplitzHash_parts hk key hsrc hdst hsp hdp,
      toeplitzHash_swapped hk key hsrc hdst hsp hdp, h]

/-! ## IPv4 and IPv6 tuples -/

theorem symmetricHash_iff_on (keylen : Nat) (key : List Byte) :
    SymmetricHash keylen key ↔ SymmetricOn keylen key 4 ∧ SymmetricOn keylen key 16 := by
  constructor
  · rintro ⟨h4, h6⟩
    refine ⟨fun src dst sport dport hsrc hdst hsp hdp => ?_,
      fun src dst sport dport hsrc hdst hsp hdp => ?_⟩
    · obtain ⟨src, rfl⟩ := exists_memBytes hsrc
      obtain ⟨dst, rfl⟩ := exists_memBytes hdst
      obtain ⟨sport, rfl⟩ := exists_memBytes hsp
      obtain ⟨dport, rfl⟩ := exists_memBytes hdp
      exact h4 src dst sport dport
    · obtain ⟨sport, rfl⟩ := exists_memBytes hsp
      obtain ⟨dport, rfl⟩ := exists_memBytes hdp
      exact h6 ⟨src, hsrc⟩ ⟨dst, hdst⟩ sport dport
  · rintro ⟨h4, h6⟩
    refine ⟨fun src dst sport dport => h4 _ _ _ _ ?_ ?_ ?_ ?_,
      fun src dst sport dport => h6 _ _ _ _ src.length_eq dst.length_eq ?_ ?_⟩ <;> simp

/-- **When a key hashes both directions alike.** -/
theorem symmetricHash_iff (hk : 4 ≤ keylen) (key : List Byte) : SymmetricHash keylen key ↔
      ((∀ j, j < 63 → keyBit keylen key j = keyBit keylen key (32 + j)) ∧
        ∀ j, j < 47 → keyBit keylen key (64 + j) = keyBit keylen key (80 + j)) ∧
      (∀ j, j < 159 → keyBit keylen key j = keyBit keylen key (128 + j)) ∧
        ∀ j, j < 47 → keyBit keylen key (256 + j) = keyBit keylen key (272 + j) := by
  rw [symmetricHash_iff_on, symmetricOn_iff hk key (n := 4) (by omega),
    symmetricOn_iff hk key (n := 16) (by omega)]

/-! ## The symmetric key, as it is and rewritten -/

/-- `symmetric_rsskey` repeats every 16 bits. -/
theorem bitAt_symmetricRsskey (hi : i + 16 < 416) :
    bitAt symmetricRsskey (i + 16) = bitAt symmetricRsskey i := by
  have h : ∀ i : Fin 400, bitAt symmetricRsskey (i + 16) = bitAt symmetricRsskey i := by
    decide +kernel
  exact h ⟨i, by omega⟩

theorem bitAt_symmetricRsskey_add :
    ∀ n, i + 16 * n < 416 → bitAt symmetricRsskey (i + 16 * n) = bitAt symmetricRsskey i
  | 0, _ => rfl
  | n + 1, h => by
    rw [Nat.mul_add, mul_one, ← add_assoc, bitAt_symmetricRsskey (by omega),
      bitAt_symmetricRsskey_add n (by omega)]

/-- A key whose first 319 bits are those of `symmetric_rsskey` is symmetric. -/
theorem symmetricHash_of_bits (hk : 4 ≤ keylen)
    (h : ∀ i, i < 319 → keyBit keylen key i = bitAt symmetricRsskey i) :
    SymmetricHash keylen key := by
  rw [symmetricHash_iff hk]
  refine ⟨⟨fun j hj => ?_, fun j hj => ?_⟩, fun j hj => ?_, fun j hj => ?_⟩ <;>
    rw [h _ (by omega), h _ (by omega)]
  · rw [add_comm 32 j, bitAt_symmetricRsskey_add 2 (by omega)]
  · rw [← bitAt_symmetricRsskey (by omega)]
    congr 1
    omega
  · rw [add_comm 128 j, bitAt_symmetricRsskey_add 8 (by omega)]
  · rw [← bitAt_symmetricRsskey (by omega)]
    congr 1
    omega

theorem symmetricHash_symmetricRsskey (h : keylen = 40 ∨ keylen = 52) :
    SymmetricHash keylen symmetricRsskey := by
  refine symmetricHash_of_bits (by omega) fun i hi => ?_
  have hlt : i / 8 < keylen := by omega
  simp [keyBit, hlt]

theorem rewrite_eq_of_period
    (h4 : ∀ j, j < 47 → calls.rewrite (bitAt symmetricRsskey) (64 + j) =
      calls.rewrite (bitAt symmetricRsskey) (80 + j))
    (h6 : ∀ j, j < 47 → calls.rewrite (bitAt symmetricRsskey) (256 + j) =
      calls.rewrite (bitAt symmetricRsskey) (272 + j))
    (i : Nat) (hi : i < 319) :
    calls.rewrite (bitAt symmetricRsskey) i = bitAt symmetricRsskey i := by
  induction i using Nat.strong_induction_on with
  | _ i ih =>
    -- a rewritten bit equals the bit 16 places before it, in this key and in the symmetric one
    have hback : 16 ≤ i → calls.rewrite (bitAt symmetricRsskey) (i - 16) =
        calls.rewrite (bitAt symmetricRsskey) i →
        calls.rewrite (bitAt symmetricRsskey) i = bitAt symmetricRsskey i := fun h16 heq => by
      rw [← heq, ih (i - 16) (by omega) (by omega), ← bitAt_symmetricRsskey (by omega),
        Nat.sub_add_cancel h16]
    by_cases hv4 : 80 ≤ i ∧ i < 127
    · refine hback (by omega) ?_
      have := h4 (i - 80) (by omega)
      rwa [show 64 + (i - 80) = i - 16 by omega, show 80 + (i - 80) = i by omega] at this
    by_cases hv6 : 272 ≤ i
    · refine hback (by omega) ?_
      have := h6 (i - 272) (by omega)
      rwa [show 256 + (i - 272) = i - 16 by omega, show 272 + (i - 272) = i by omega] at this
    · unfold BuildCalls.rewrite
      rw [if_neg (by simpa [v4SportOff, helperSpan] using hv4),
        if_neg (fun h => hv6 (by simpa [v6SportOff] using h.2.1))]

theorem keyBit_builtKey (hlen : len ≤ key.length) (hi : i < 8 * len) :
    keyBit len (builtKey true calls len key) i = calls.rewrite (bitAt key) i := by
  have hlt : i / 8 < len := by omega
  simp [keyBit, hlt, bitAt_builtKey calls hlen hi]

/-- **The rewritten symmetric key** is symmetric iff the helpers left its bits as they were. -/
theorem symmetricHash_builtKey_iff (calls : BuildCalls) (hlen : len = 40 ∨ len = 52) :
    SymmetricHash len (builtKey true calls len symmetricRsskey) ↔
      calls.Keeps (bitAt symmetricRsskey) := by
  have hle : len ≤ symmetricRsskey.length := by
    have : symmetricRsskey.length = 52 := by decide
    omega
  have hbit : ∀ i, i < 319 → keyBit len (builtKey true calls len symmetricRsskey) i =
      calls.rewrite (bitAt symmetricRsskey) i := fun i hi => keyBit_builtKey hle (by omega)
  rw [BuildCalls.keeps_iff]
  constructor
  · intro h i hi
    rw [symmetricHash_iff (by omega)] at h
    obtain ⟨⟨-, h4⟩, -, h6⟩ := h
    refine rewrite_eq_of_period (fun j hj => ?_) (fun j hj => ?_) i hi
    · rw [← hbit _ (by omega), ← hbit _ (by omega)]
      exact h4 j hj
    · rw [← hbit _ (by omega), ← hbit _ (by omega)]
      exact h6 j hj
  · intro h
    exact symmetricHash_of_bits (by omega) fun i hi => (hbit i hi).trans (h i hi)

/-! ## Devices -/

/-- **Symmetric RSS of an initialised device.** The key it was configured with hashes both
directions alike exactly when the device is not the one whose rewritten key is published, or the
helpers happened to write the symmetric key's own bits. -/
theorem nicConf_symmetric_iff {cfg : InitCfg} {env : InitEnv} {s : InitState} {d : Dev}
    (hg : cfg.rss.primary = true) (hsym : cfg.rss.symmetricRss = true)
    (h : initPortStart cfg env = .ok s) (hd : d ∈ initDevs cfg) (hrss : d.isRss env = true)
    (hsize : (env.info d.port).hashKeySize = 40 ∨ (env.info d.port).hashKeySize = 52) :
    (∃ key, s.nicConf d.port = some ⟨some key, (env.info d.port).hashKeySize⟩ ∧
        SymmetricHash (env.info d.port).hashKeySize key) ↔
      publishes cfg env d = false ∨ (env.calls d.port).Keeps (bitAt symmetricRsskey) := by
  have hbase : baseKey cfg.rss.symmetricRss (env.info d.port).hashKeySize =
      some symmetricRsskey := by
    rcases hsize with h | h <;> simp [baseKey, hsym, h]
  have hlen : baseLen (env.info d.port).hashKeySize = (env.info d.port).hashKeySize :=
    if_pos hsize
  rw [initPortStart_conf hg h hd hrss, finalKey, hbase, hlen, hg]
  cases hpub : publishes cfg env d with
  | false => simp [symmetricHash_symmetricRsskey hsize]
  | true => simp [symmetricHash_builtKey_iff _ hsize]

/-! ## A two-queue port -/

/-- A device with the given key size and 128 redirection entries. -/
def sampleInfo (hashKeySize : Nat) : DevInfo where
  rssOffloads := true
  hashKeySize := hashKeySize
  retaSize := 128
  retaSize_lt := by decide
  maxRxQueues := 8
  maxTxQueues := 8

/-- Every call succeeds; the helper writes `bits`. -/
def sampleCalls (bits : Nat → Bool) : ThashCalls where
  initCtx := true
  addHelper := true
  helperBits := bits
  existing := none
  getHelper := true
  getKey := true

/-- Devices of one kind, on which every driver call succeeds. -/
def sampleEnv (hashKeySize : Nat) (bits : Nat → Bool) : InitEnv where
  info := fun _ => sampleInfo hashKeySize
  calls := fun _ => ⟨sampleCalls bits, sampleCalls bits, true⟩
  configure := fun _ => true
  setup := fun _ => true

/-- Ports `portidList`, each served by lcores 0 and 1, in a primary process. -/
def sampleCfg (symmetricRss thashAdjust : Bool) (portidList : List Nat) : InitCfg where
  rss := ⟨true, symmetricRss, thashAdjust⟩
  portidList := portidList
  portCfgs := fun _ => ⟨[0, 1], []⟩
  enableKni := false
  nbDevPorts := 2

/-- One port with default settings besides `symmetric_rss`: the key it is configured with does not
hash the two directions alike. -/
theorem nicConf_not_symmetric :
    ∃ s key, initPortStart (sampleCfg true true [0]) (sampleEnv 40 fun _ => false) = .ok s ∧
      s.nicConf 0 = some ⟨some key, 40⟩ ∧ ¬SymmetricHash 40 key := by
  refine ⟨_, _, rfl, rfl, fun h => ?_⟩
  have := h.1 0 0 1 0
  revert this
  decide +kernel

theorem nicConf_symmetric_iff_sample :
    ∃ s, initPortStart (sampleCfg true false [0]) (sampleEnv 52 fun _ => false) = .ok s ∧
      ∃ key, s.nicConf 0 = some ⟨some key, 52⟩ ∧ SymmetricHash 52 key :=
  ⟨_, rfl, (@nicConf_symmetric_iff (sampleCfg true false [0]) (sampleEnv 52 fun _ => false) _
    ⟨0, 2, true⟩ rfl rfl rfl (by decide) rfl (.inr rfl)).2 (.inl rfl)⟩

end FStack.Rss
