import FStack.Rss.Symmetric

/-!
# Software prediction against the device

`ff_rss_check` predicts the receive queue with the one global `rsskey`
(`lib/ff_dpdk_if.c:3404-3406`), while each device keeps the key `rte_eth_dev_configure` was given
for it. After `init_port_start` the global key is the last RSS device's (`initPortStart_global`),
so the prediction for another port uses a foreign key. The source knows: "single-port semantics;
multi-port needs a per-port key" (`lib/ff_dpdk_if.c:3439`).

This module says exactly for which configurations the two still agree, for every tuple:
`KeyAligned`. The hard direction shows that keys which differ in one bit the hash can see are told
apart by some tuple on every queue that the redirection table can name.

Results:
* `rssCheck_agrees_iff`: `ff_rss_check` and `ff_rss_check6` agree with the device on every tuple
  iff the configuration is `KeyAligned`.
-/

namespace FStack.Rss

open List FStack.Lib.WindowHash

/-! ## What the device does -/

/-- The queue a device picks: the redirection table at the Toeplitz hash under the key it was
configured with. `none` when it was given no key or no table. -/
def nicQueue (env : InitEnv) (s : InitState) (port : Nat) (data : List Byte) : Option Nat :=
  match s.nicConf port, s.reta port with
  | some ⟨some key, keyLen⟩, some reta =>
    retaEntry reta ((toeplitzHash keyLen key data).toNat % (env.info port).retaSize)
  | _, _ => none

/-- The check on `data` answers 1 exactly when the device picks the lcore's queue. -/
def Predicts (env : InitEnv) (s : InitState) (port queueid : Nat) (data : List Byte)
    (check : Option Bool) : Prop :=
  ∃ queue, nicQueue env s port data = some queue ∧ check = some (queue == queueid)

variable {m size i nb : Nat} {k f : Nat → Bool} {cfg : InitCfg} {env : InitEnv} {key : List Byte}
  {d : Dev}

theorem retaEntry_retaConf {idx : Nat} (hidx : idx < 2 ^ m) :
    retaEntry (retaConf (2 ^ m) nb) idx = some (idx % nb) := by
  have hgroup : idx / retaGroupSize < max 1 (2 ^ m / retaGroupSize) := by
    unfold retaGroupSize
    rcases lt_or_ge m 6 with hm | hm
    · have : 2 ^ m ≤ 2 ^ 5 := Nat.pow_le_pow_right (by omega) (by omega)
      omega
    · obtain ⟨j, rfl⟩ := Nat.exists_eq_add_of_le hm
      rw [Nat.pow_add] at hidx ⊢
      omega
  have hpos : idx % retaGroupSize < retaGroupSize := Nat.mod_lt _ (by decide)
  have hidx' : retaGroupSize * (idx / retaGroupSize) + idx % retaGroupSize = idx :=
    Nat.div_add_mod _ _
  simp [retaEntry, retaConf, hgroup, hpos, hidx']

/-! ## The base keys reach every low half-word -/

/-- The bits of the key the `switch` and the `symmetric_rss` override select. -/
def baseBits (symmetricRss : Bool) (hashKeySize : Nat) : Nat → Bool :=
  bitAt ((baseKey symmetricRss hashKeySize).getD [])

/-- Inputs for the sixteen unit words, as numbers: bit `j` is input position `j`. -/
def units40 : List Nat :=
  [0x5604, 0xd10e, 0x1891e, 0xdaed, 0x19ed8, 0x8867, 0x110ce, 0x1c24f,
   0x1a4b, 0x1f94, 0x142a, 0x356, 0x50a8, 0xdc56, 0x1c5aa, 0x1581]

/-- The same for `default_rsskey_52bytes`. -/
def units52 : List Nat :=
  [0x1e29, 0x227b, 0x5adf, 0xb5be, 0xa8ff, 0x927d, 0xe779, 0x1358,
   0x3899, 0x6f1b, 0xde36, 0x7fef, 0xffde, 0x3c3f, 0x787e, 0xeed5]

/-- The same for `symmetric_rsskey`. -/
def unitsSym : List Nat :=
  [0x4d3e, 0x9a7c, 0x34f9, 0x69f2, 0xd3e4, 0xa7c9, 0x4f93, 0x9f26,
   0x3e4d, 0x7c9a, 0xf934, 0xf269, 0xe4d3, 0xc9a7, 0x934f, 0x269f]

/-- Inputs for the unit words of the pair of both default keys' low half-words. -/
def unitsPair : List Nat :=
  [0x30ffbb57a, 0x33d83df4b, 0xbc935f0, 0x31869de9a, 0x312a7088b, 0x22f7d0186, 0x306732d45,
   0x1092eff60, 0x11da64bba, 0x3130b325b, 0x30462d109, 0x32ab117ad, 0x32a571146, 0x10c270cc5,
   0x3ff209df, 0x205198848, 0x227bc1055, 0x23fb6abcc, 0x281fccab, 0xd7e12f5, 0x132bb80c5,
   0x1f8a9a7c, 0x3f1534f8, 0x204d7f206, 0x12bdb51b3, 0x322b08dea, 0x33a5425c8, 0x30b9d758c,
   0x21d09fb88, 0x3020e780, 0x332fbf1d9, 0x13d7ecdfb]

theorem reach_of_units (units : List Nat)
    (h : ∀ i : Fin 16, lowHash 32 16 k 49 (units.getD i 0).testBit = BitVec.twoPow 16 i)
    (u : BitVec 16) : ∃ x, lowHash 32 16 k 49 x = u :=
  exists_of_basis (lowHash 32 16 k 49) (lowHash_zero _ _ _) (lowHash_xor _ _ _)
    (fun i hi => ⟨_, h ⟨i, hi⟩⟩) u

/-- **The base keys**: whichever is selected, the first 49 input positions, whose windows no helper
touches, reach every low half-word. -/
theorem reach_base (symmetricRss : Bool) (hsize : size = 40 ∨ size = 52) (u : BitVec 16) :
    ∃ x, lowHash 32 16 (baseBits symmetricRss size) 49 x = u := by
  cases symmetricRss with
  | true =>
    have hbase : baseBits true size = bitAt symmetricRsskey := by
      rcases hsize with rfl | rfl <;> rfl
    rw [hbase]
    exact reach_of_units unitsSym (by decide +kernel) u
  | false =>
    rcases hsize with rfl | rfl
    · exact reach_of_units units40 (by decide +kernel) u
    · exact reach_of_units units52 (by decide +kernel) u

/-- The pair of the low half-words under both default keys takes every value. -/
theorem reach_pair (u v : BitVec 16) :
    ∃ x, lowHash 32 16 (baseBits false 40) 49 x = u ∧
      lowHash 32 16 (baseBits false 52) 49 x = v := by
  have hunits : ∀ i : Fin 32,
      lowHash 32 16 (baseBits false 40) 49 (unitsPair.getD i 0).testBit ++
        lowHash 32 16 (baseBits false 52) 49 (unitsPair.getD i 0).testBit =
      BitVec.twoPow 32 i := by
    decide +kernel
  obtain ⟨x, hx⟩ := exists_of_basis
    (fun x => lowHash 32 16 (baseBits false 40) 49 x ++ lowHash 32 16 (baseBits false 52) 49 x)
    (by simp [lowHash_zero]) (fun x y => by simp only [lowHash_xor, BitVec.xor_append])
    (fun i hi => ⟨_, hunits ⟨i, hi⟩⟩) (u ++ v)
  have hfst := congrArg (BitVec.extractLsb' 16 16) hx
  have hsnd := congrArg (BitVec.extractLsb' 0 16) hx
  rw [BitVec.extractLsb'_append_eq_left, BitVec.extractLsb'_append_eq_left] at hfst
  rw [BitVec.extractLsb'_append_eq_right, BitVec.extractLsb'_append_eq_right] at hsnd
  exact ⟨x, hfst, hsnd⟩

/-! ## The final keys, bit by bit -/

/-- The device was given a key. -/
def DevInfo.Keyed (info : DevInfo) : Prop :=
  info.rssOffloads = true ∧ (info.hashKeySize = 40 ∨ info.hashKeySize = 52)

variable {info : DevInfo} {x : Nat → Bool} {e : Dev} {q : Nat}

theorem DevInfo.Keyed.four_le (h : info.Keyed) : 4 ≤ info.hashKeySize := by
  rcases h.2 with h | h <;> omega

section FinalBits

variable (cfg : InitCfg) (env : InitEnv)

variable (d : Dev)

/-- The bits of a device's base key. -/
def devBits : Nat → Bool :=
  baseBits cfg.rss.symmetricRss (env.info d.port).hashKeySize

/-- The bits of the key a device's RSS block leaves. -/
def finalBits : Nat → Bool :=
  if publishes cfg env d then (env.calls d.port).rewrite (devBits cfg env d) else devBits cfg env d

/-- The device's key was rewritten to different bits. -/
def Rewritten : Prop :=
  publishes cfg env d = true ∧ ¬(env.calls d.port).Keeps (devBits cfg env d)

/-- **When prediction and device agree**, in terms of the configuration: the port and the last RSS
device were given keys, and the port's table has one entry, or none for the lcore's queue, or the
last device is the port itself, or both start from the same base key and neither was rewritten. -/
def KeyAligned (queueid : Nat) : Prop :=
  (env.info d.port).Keyed ∧ ∃ last, lastRss cfg env = some last ∧ (env.info last.port).Keyed ∧
    ((env.info d.port).retaSize = 1 ∨ (env.info d.port).retaSize ≤ queueid ∨ last = d ∨
      (cfg.rss.symmetricRss = true ∨
        (env.info d.port).hashKeySize = (env.info last.port).hashKeySize) ∧
      ¬Rewritten cfg env d ∧ ¬Rewritten cfg env last)

end FinalBits

theorem baseKey_length {sym : Bool} (hsize : size = 40 ∨ size = 52)
    (h : baseKey sym size = some key) : size ≤ key.length := by
  rcases hsize with rfl | rfl <;> cases sym <;> cases h <;> decide

theorem keyBit_finalKey (hg : cfg.rss.primary = true)
    (hsize : (env.info d.port).hashKeySize = 40 ∨ (env.info d.port).hashKeySize = 52)
    (hkey : finalKey cfg env d = some key) (hi : i < 319) :
    keyBit (env.info d.port).hashKeySize key i = finalBits cfg env d i := by
  have hlen : baseLen (env.info d.port).hashKeySize = (env.info d.port).hashKeySize :=
    if_pos hsize
  have hlt : i / 8 < (env.info d.port).hashKeySize := by omega
  have hsome : (baseKey cfg.rss.symmetricRss (env.info d.port).hashKeySize).isSome = true :=
    baseKey_isSome hsize
  obtain ⟨base, hbase⟩ := Option.isSome_iff_exists.1 hsome
  have hdev : devBits cfg env d = bitAt base := by
    rw [devBits, baseBits, hbase, Option.getD_some]
  rw [finalKey, hlen, hbase, hg] at hkey
  unfold finalBits
  rw [hdev]
  split at hkey
  · cases hkey
    rename_i hpub
    rw [if_pos hpub]
    exact keyBit_builtKey (baseKey_length hsize hbase) (by omega)
  · cases hkey
    rename_i hpub
    rw [if_neg hpub]
    simp [keyBit, hlt]

theorem finalBits_of_lt (d : Dev) (hi : i < 80) : finalBits cfg env d i = devBits cfg env d i := by
  unfold finalBits
  split
  · exact BuildCalls.rewrite_of_lt _ _ hi
  · rfl

theorem publishes_unique (hd : publishes cfg env d = true) (he : publishes cfg env e = true) :
    d = e := by
  rw [publishes, beq_iff_eq] at hd he
  exact Option.some.inj (hd.symm.trans he)

/-- Without a rewrite to other bits the final key is the base key. -/
theorem finalBits_of_not_rewritten (h : ¬Rewritten cfg env d) (hi : i < 319) :
    finalBits cfg env d i = devBits cfg env d i := by
  unfold finalBits
  split
  next hpub =>
    have hkeep : (env.calls d.port).Keeps (devBits cfg env d) := by
      by_contra hk
      exact h ⟨hpub, hk⟩
    exact (BuildCalls.keeps_iff _ _).1 hkeep i hi
  · rfl

/-! ## Telling final keys apart -/

/-- A rewrite to other bits is seen by some input of 36 bytes, at every target index. -/
theorem exists_neighbours_rewrite {calls : BuildCalls} (hkeep : ¬calls.Keeps f)
    (hreach : ∀ u, ∃ x, lowHash 32 16 f 49 x = u) (u : BitVec 16) :
    ∃ x, lowHash 32 16 f 288 x = u ∧ lowHash 32 16 (calls.rewrite f) 288 x = u ^^^ 1#16 := by
  rw [BuildCalls.keeps_iff] at hkeep
  -- the lowest rewritten bit
  have hex : ∃ p, p < 319 ∧ calls.rewrite f p ≠ f p := by
    by_contra hno
    refine hkeep fun i hi => ?_
    by_contra hne
    exact hno ⟨i, hi, hne⟩
  classical
  obtain ⟨hlt, hdiff⟩ := Nat.find_spec hex
  have hagree : ∀ j, j < Nat.find hex → f j = calls.rewrite f j := fun j hj => by
    by_contra hne
    exact Nat.find_min hex hj ⟨by omega, Ne.symm hne⟩
  have hge : 80 ≤ Nat.find hex := by
    by_contra hlow
    exact hdiff (BuildCalls.rewrite_of_lt _ _ (by simpa [v4SportOff] using hlow))
  exact exists_neighbours (by omega) (by omega) hreach hge (by omega) hagree (Ne.symm hdiff) u

/-- Inputs supported in the first 49 positions see only the first 80 key bits. -/
theorem lowHash_restrict {b : Nat → Bool} (h : ∀ j, j < 80 → k j = b j) :
    lowHash 32 16 k 288 (fun i => decide (i < 49) && x i) = lowHash 32 16 b 49 x := by
  have hsplit : hashRange 32 k (fun i => decide (i < 49) && x i) 0 (49 + 239) =
      hashRange 32 b x 0 49 := by
    have hrest : hashRange 32 k (fun i => decide (i < 49) && x i) (0 + 49) 239 = 0#32 :=
      hashRange_zero fun i hi => by simp
    rw [hashRange_add, hrest, BitVec.xor_zero,
      ← hashRange_key_congr (k := k) (fun j _ hj => h j (by omega))]
    exact hashRange_congr (fun i hi => by simp [hi]) (fun _ _ _ => rfl)
  rw [lowHash, hsplit, lowHash]

theorem devBits_eq_of_base (hd : (env.info d.port).Keyed) (he : (env.info e.port).Keyed)
    (hbase : cfg.rss.symmetricRss = true ∨ (env.info d.port).hashKeySize = (env.info e.port).hashKeySize)
    : devBits cfg env d = devBits cfg env e := by
  unfold devBits
  rcases hbase with hsym | heq
  · rcases hd.2 with h1 | h1 <;> rcases he.2 with h2 | h2 <;> rw [h1, h2, hsym] <;> rfl
  · rw [heq]

/-- **Telling final keys apart.** -/
theorem exists_tellApart {last : Dev} (hd : (env.info d.port).Keyed)
    (hlast : (env.info last.port).Keyed) (hne : last ≠ d)
    (hnot : ¬((cfg.rss.symmetricRss = true ∨ (env.info d.port).hashKeySize =
      (env.info last.port).hashKeySize) ∧ ¬Rewritten cfg env d ∧ ¬Rewritten cfg env last))
    (u : BitVec 16) : ∃ x, lowHash 32 16 (finalBits cfg env d) 288 x = u ∧
      lowHash 32 16 (finalBits cfg env last) 288 x = u ^^^ 1#16 := by
  by_cases hbase : cfg.rss.symmetricRss = true ∨
      (env.info d.port).hashKeySize = (env.info last.port).hashKeySize
  · -- one base key, and exactly one of the two was rewritten
    have hsame := devBits_eq_of_base hd hlast hbase
    have hreach : ∀ u, ∃ x, lowHash 32 16 (devBits cfg env d) 49 x = u :=
      reach_base cfg.rss.symmetricRss hd.2
    by_cases hrd : Rewritten cfg env d
    · have hpl : publishes cfg env last = false := by
        cases hp : publishes cfg env last with
        | false => rfl
        | true => exact absurd (publishes_unique hp hrd.1) hne
      obtain ⟨x, h1, h2⟩ := exists_neighbours_rewrite hrd.2 hreach (u ^^^ 1#16)
      refine ⟨x, ?_, ?_⟩
      · rw [finalBits, if_pos hrd.1, h2, BitVec.xor_assoc, BitVec.xor_self, BitVec.xor_zero]
      · rw [finalBits, hpl, if_neg (by simp), ← hsame, h1]
    · have hrl : Rewritten cfg env last := by
        by_contra hrl
        exact hnot ⟨hbase, hrd, hrl⟩
      have hpd : publishes cfg env d = false := by
        cases hp : publishes cfg env d with
        | false => rfl
        | true => exact absurd (publishes_unique hrl.1 hp) hne
      obtain ⟨x, h1, h2⟩ := exists_neighbours_rewrite (hsame ▸ hrl.2) hreach u
      refine ⟨x, ?_, ?_⟩
      · rw [finalBits, hpd, if_neg (by simp), h1]
      · rw [finalBits, if_pos hrl.1, ← hsame, h2]
  · -- the two default keys, whose windows are independent
    obtain ⟨hsym, hsize⟩ : cfg.rss.symmetricRss = false ∧
        (env.info d.port).hashKeySize ≠ (env.info last.port).hashKeySize := by
      simpa using hbase
    have hlow : ∀ e x, lowHash 32 16 (finalBits cfg env e) 288 (fun i => decide (i < 49) && x i) =
        lowHash 32 16 (devBits cfg env e) 49 x := fun e x =>
      lowHash_restrict fun j hj => finalBits_of_lt e hj
    rcases hd.2 with h1 | h1 <;> rcases hlast.2 with h2 | h2
    · exact absurd (h1.trans h2.symm) hsize
    · obtain ⟨x, hx, hy⟩ := reach_pair u (u ^^^ 1#16)
      refine ⟨_, (hlow d x).trans ?_, (hlow last x).trans ?_⟩
      · rw [devBits, hsym, h1, hx]
      · rw [devBits, hsym, h2, hy]
    · obtain ⟨x, hx, hy⟩ := reach_pair (u ^^^ 1#16) u
      refine ⟨_, (hlow d x).trans ?_, (hlow last x).trans ?_⟩
      · rw [devBits, hsym, h1, hy]
      · rw [devBits, hsym, h2, hx]
    · exact absurd (h1.trans h2.symm) hsize

/-! ## Agreement -/

/-- A configured port's own visit. -/
def portDev (cfg : InitCfg) (port : Nat) : Dev := ⟨port, (cfg.portCfgs port).nbLcores, true⟩

theorem portDev_mem {port : Nat} (h : port ∈ cfg.portidList) : portDev cfg port ∈ initDevs cfg := by
  refine mem_append_left _ (mem_flatMap.2 ⟨port, h, ?_⟩)
  exact mem_map.2 ⟨port, by simp, rfl⟩

/-- The two neighbours `q` and `q ^ 1` fall to different queues. -/
theorem xor_one_mod_ne (hq : q < nb) (hnb : 1 < nb) : (q ^^^ 1) % nb ≠ q := by
  have hhalf : (q ^^^ 1) / 2 = q / 2 := by simp [Nat.xor_div_two]
  have hlow : (q ^^^ 1) % 2 = 1 ↔ ¬q % 2 = 1 := by
    rw [Nat.xor_mod_two_eq_one]
    omega
  rcases lt_or_ge (q ^^^ 1) nb with hlt | hge
  · rw [Nat.mod_eq_of_lt hlt]
    omega
  · -- then `q ^ 1` is `nb` itself, and `nb` is odd
    have heq : q ^^^ 1 = nb := by omega
    rw [heq, Nat.mod_self]
    omega

/-- The table index of a 36-byte input, through the low half-word of its window hash. -/
theorem toeplitzHash_mod_eq (hsize : 4 ≤ size) (hm : m ≤ 16)
    (hbits : ∀ i, i < 319 → keyBit size key i = f i) :
    (toeplitzHash size key (ofBits x 36)).toNat % 2 ^ m =
      (lowHash 32 16 f 288 x).toNat % 2 ^ m := by
  have hhash : toeplitzHash size key (ofBits x 36) = hashRange 32 f x 0 288 := by
    rw [toeplitzHash_eq hsize, ofBits_length,
      hashRange_key_congr (fun j _ hj => hbits j (by omega))]
    exact hashRange_congr (fun i hi => bitAt_ofBits x (by omega)) (fun _ _ _ => rfl)
  rw [hhash, lowHash, BitVec.toNat_setWidth, Nat.mod_mod_of_dvd _ (Nat.pow_dvd_pow 2 hm)]

/-- An index and its neighbour, reduced to a table of `2 ^ m` entries. -/
theorem neighbour_mod (hm : m ≤ 16) (hone : 2 ^ m ≠ 1) (hq : q < 2 ^ m) :
    (BitVec.ofNat 16 q).toNat % 2 ^ m = q ∧
      (BitVec.ofNat 16 q ^^^ 1#16).toNat % 2 ^ m = q ^^^ 1 := by
  have hpow : 2 ^ m ≤ 2 ^ 16 := Nat.pow_le_pow_right (by omega) hm
  have hself : (BitVec.ofNat 16 q).toNat = q := by
    rw [BitVec.toNat_ofNat, Nat.mod_eq_of_lt (by omega)]
  have hxor : q ^^^ 1 < 2 ^ m := Nat.xor_lt_two_pow hq (by omega)
  refine ⟨by rw [hself, Nat.mod_eq_of_lt hq], ?_⟩
  rw [BitVec.toNat_xor, hself]
  exact Nat.mod_eq_of_lt hxor

theorem lt_of_retaSize (h : info.retaSize = 2 ^ m) : m < 16 := by
  have hlt := info.retaSize_lt
  by_contra hge
  have := Nat.pow_le_pow_right (n := 2) (by omega) (not_lt.1 hge)
  omega

section Port

variable {s : InitState} {lcore port queueid m : Nat}
  (hg : cfg.rss.primary = true) (h : initPortStart cfg env = .ok s)
  (hport : port ∈ cfg.portidList)
  (hq : queueidOf lcore (cfg.portCfgs port).lcoreList = some queueid)
  (hnb : 1 < (cfg.portCfgs port).nbLcores) (hreta : (env.info port).retaSize = 2 ^ m)

include hg h hport hnb hreta

variable {key data : List Byte} {last : Dev}

theorem nicQueue_eq (hkeyed : (env.info port).Keyed)
    (hkey : finalKey cfg env (portDev cfg port) = some key) (data : List Byte) :
    nicQueue env s port data =
      some ((toeplitzHash (env.info port).hashKeySize key data).toNat % 2 ^ m %
        (cfg.portCfgs port).nbLcores) := by
  have hpos : 0 < 2 ^ m := Nat.pow_pos (by omega)
  have hd := portDev_mem hport
  have hconf := initPortStart_conf hg h hd (by simp [Dev.isRss, portDev, hkeyed.1])
  obtain ⟨-, htable⟩ := initPortStart_reta hg h hd rfl (by simp [portDev, hreta])
  have hlen : baseLen (env.info port).hashKeySize = (env.info port).hashKeySize :=
    if_pos hkeyed.2
  simp only [portDev] at hconf htable
  rw [show finalKey cfg env ⟨port, _, true⟩ = some key from hkey, hlen] at hconf
  simp only [nicQueue, hconf, htable hnb, hreta]
  exact retaEntry_retaConf (Nat.mod_lt _ hpos)

include hq

theorem rssCheck_init_eq (hlast : lastRss cfg env = some last)
    (hsize : (env.info last.port).hashKeySize = 40 ∨ (env.info last.port).hashKeySize = 52)
    (hkey : finalKey cfg env last = some key) (hm : m < 32) (data : List Byte) :
    rssCheck s.toRssState (initLcoreConf cfg.portidList cfg.portCfgs lcore) port data =
      some ((toeplitzHash (env.info last.port).hashKeySize key data).toNat % 2 ^ m %
        (cfg.portCfgs port).nbLcores == queueid) := by
  obtain ⟨hnbq, htx⟩ := initLcoreConf_of_mem hq hport
  obtain ⟨hsk, hsl⟩ := initPortStart_global hg h hlast
  have hrs : s.retaSize port = 2 ^ m :=
    (initPortStart_reta hg h (portDev_mem hport) rfl (by simp [portDev, hreta])).1.trans hreta
  have hlen : baseLen (env.info last.port).hashKeySize = (env.info last.port).hashKeySize :=
    if_pos hsize
  rw [rssCheck_eq data (by rw [hnbq]; exact hnb) hrs hm (hsk.trans hkey), hsl, hlen, hnbq, htx]

omit hreta in
/-- A prediction that is right on one tuple has both keys. -/
theorem keyed_of_predicts (hp : Predicts env s port queueid data
      (rssCheck s.toRssState (initLcoreConf cfg.portidList cfg.portCfgs lcore) port data)) :
    (env.info port).Keyed ∧ ∃ last, lastRss cfg env = some last ∧ (env.info last.port).Keyed := by
  obtain ⟨queue, hnic, hcheck⟩ := hp
  have hd := portDev_mem hport
  have hrss : (portDev cfg port).isRss env = true := by
    by_contra hno
    have hconf := initPortStart_not_rss hg h hd (by simpa using hno)
    simp only [portDev] at hconf
    simp [nicQueue, hconf] at hnic
  have hoff : (env.info port).rssOffloads = true := by simpa [Dev.isRss, portDev] using hrss
  have hsize := (initPortStart_keyed hg h hd hrss).1 (by
    have hconf := initPortStart_conf hg h hd hrss
    simp only [portDev] at hconf
    cases hk : finalKey cfg env (portDev cfg port) with
    | some key => rfl
    | none =>
      rw [show finalKey cfg env ⟨port, _, true⟩ = none from hk] at hconf
      simp [nicQueue, hconf] at hnic)
  refine ⟨⟨hoff, hsize⟩, ?_⟩
  obtain ⟨last, hlast⟩ : ∃ last, lastRss cfg env = some last := by
    cases hl : lastRss cfg env with
    | some last => exact ⟨last, rfl⟩
    | none =>
      have hnone := find?_eq_none.1 hl _ (mem_reverse.2 hd)
      exact absurd hrss hnone
  have hlrss : last.isRss env = true := find?_some hlast
  have hlmem : last ∈ initDevs cfg := mem_reverse.1 (mem_of_find?_eq_some hlast)
  refine ⟨last, hlast, ?_, (initPortStart_keyed hg h hlmem hlrss).1 ?_⟩
  · simp only [Dev.isRss, Bool.and_eq_true] at hlrss
    exact hlrss.2
  · obtain ⟨hnbq, -⟩ := initLcoreConf_of_mem hq hport
    rw [← (initPortStart_global hg h hlast).1]
    cases hk : s.rsskey with
    | some key => rfl
    | none => simp [rssCheck, hk, hnbq, not_le.2 hnb] at hcheck

omit hq hnb hreta in
/-- The port and the last RSS device have their keys. -/
theorem exists_finalKeys (hkeyed : (env.info port).Keyed) (hlast : lastRss cfg env = some last)
    (hlkeyed : (env.info last.port).Keyed) :
    ∃ key lkey, finalKey cfg env (portDev cfg port) = some key ∧
      finalKey cfg env last = some lkey := by
  have hrss : (portDev cfg port).isRss env = true := by
    simpa [Dev.isRss, portDev] using hkeyed.1
  have hlrss : last.isRss env = true := find?_some hlast
  have hlmem : last ∈ initDevs cfg := mem_reverse.1 (mem_of_find?_eq_some hlast)
  obtain ⟨key, hkey⟩ := Option.isSome_iff_exists.1
    ((initPortStart_keyed hg h (portDev_mem hport) hrss).2 hkeyed.2)
  obtain ⟨lkey, hlkey⟩ := Option.isSome_iff_exists.1
    ((initPortStart_keyed hg h hlmem hlrss).2 hlkeyed.2)
  exact ⟨key, lkey, hkey, hlkey⟩

/-- Aligned keys predict every input of at most 36 bytes. -/
theorem predicts_of_keyAligned (hk : KeyAligned cfg env (portDev cfg port) queueid)
    (hdata : data.length ≤ 36) : Predicts env s port queueid data
      (rssCheck s.toRssState (initLcoreConf cfg.portidList cfg.portCfgs lcore) port data) := by
  have hm : m < 32 := Nat.lt_trans (lt_of_retaSize hreta) (by omega)
  have hqlt : queueid < (cfg.portCfgs port).nbLcores := queueidOf_lt hq
  obtain ⟨hkeyed, last, hlast, hlkeyed, halt⟩ := hk
  obtain ⟨key, lkey, hkey, hlkey⟩ := exists_finalKeys hg h hport hkeyed hlast hlkeyed
  refine ⟨_, nicQueue_eq hg h hport hnb hreta hkeyed hkey data, ?_⟩
  rw [rssCheck_init_eq hg h hport hq hnb hreta hlast hlkeyed.2 hlkey hm data]
  have hreta' : (env.info (portDev cfg port).port).retaSize = 2 ^ m := hreta
  rw [hreta'] at halt
  rcases halt with hone | hle | halt
  · rw [hone, Nat.mod_one, Nat.mod_one]
  · -- no table entry names the lcore's queue
    have hnever : ∀ a, a % 2 ^ m % (cfg.portCfgs port).nbLcores ≠ queueid := fun a => by
      rw [Nat.mod_eq_of_lt (by omega)]
      omega
    simp [hnever]
  · -- equal bits under every window
    have hbits : ∀ i, i < 319 →
        finalBits cfg env last i = finalBits cfg env (portDev cfg port) i := fun i hi => by
      rcases halt with rfl | ⟨hbase, hrd, hrl⟩
      · rfl
      · rw [finalBits_of_not_rewritten hrl hi, finalBits_of_not_rewritten hrd hi]
        exact congrFun (devBits_eq_of_base hlkeyed hkeyed (hbase.imp id Eq.symm)) i
    have hhash : toeplitzHash (env.info last.port).hashKeySize lkey data =
        toeplitzHash (env.info port).hashKeySize key data := by
      refine toeplitzHash_eq_of_key hlkeyed.four_le hkeyed.four_le data fun j hj => ?_
      rw [keyBit_finalKey hg hlkeyed.2 hlkey (by omega), hbits j (by omega)]
      exact (keyBit_finalKey hg hkeyed.2 hkey (by omega)).symm
    rw [hhash]

/-- Keys that are not aligned mispredict some IPv6 tuple. -/
theorem keyAligned_of_predicts6 (hp : ∀ saddr6 daddr6 sport dport, Predicts env s port queueid
      (tuple6Bytes saddr6 daddr6 sport dport)
      (ffRssCheck6 s.toRssState (initLcoreConf cfg.portidList cfg.portCfgs lcore) port
        saddr6 daddr6 sport dport)) : KeyAligned cfg env (portDev cfg port) queueid := by
  have hm : m < 16 := lt_of_retaSize hreta
  have hqlt : queueid < (cfg.portCfgs port).nbLcores := queueidOf_lt hq
  obtain ⟨saddr0, daddr0, sport0, dport0, -⟩ := exists_tuple6 (ofBits_length (fun _ => false) 36)
  obtain ⟨hkeyed, last, hlast, hlkeyed⟩ :=
    keyed_of_predicts hg h hport hq hnb (hp saddr0 daddr0 sport0 dport0)
  refine ⟨hkeyed, last, hlast, hlkeyed, ?_⟩
  by_contra hnot
  rw [not_or, not_or, not_or, show (env.info (portDev cfg port).port).retaSize = 2 ^ m from hreta]
    at hnot
  obtain ⟨hone, hle, hne, hnot⟩ := hnot
  obtain ⟨key, lkey, hkey, hlkey⟩ := exists_finalKeys hg h hport hkeyed hlast hlkeyed
  -- an input whose index is `queueid` on the device and its neighbour in the prediction
  obtain ⟨x, hx, hy⟩ := exists_tellApart (d := portDev cfg port) hkeyed hlkeyed hne hnot
    (BitVec.ofNat 16 queueid)
  obtain ⟨saddr6, daddr6, sport, dport, hdata⟩ := exists_tuple6 (ofBits_length x 36)
  obtain ⟨queue, hnic, hcheck⟩ := hp saddr6 daddr6 sport dport
  rw [nicQueue_eq hg h hport hnb hreta hkeyed hkey, Option.some.injEq] at hnic
  rw [ffRssCheck6, rssCheck_init_eq hg h hport hq hnb hreta hlast hlkeyed.2 hlkey (by omega),
    Option.some.injEq, ← hnic] at hcheck
  have hindex := toeplitzHash_mod_eq (x := x) hkeyed.four_le hm.le
    fun i hi => keyBit_finalKey hg hkeyed.2 hkey hi
  have hindexl := toeplitzHash_mod_eq (x := x) hlkeyed.four_le hm.le
    fun i hi => keyBit_finalKey hg hlkeyed.2 hlkey hi
  obtain ⟨hself, hneighbour⟩ := neighbour_mod hm.le hone (not_le.1 hle)
  rw [hx, hself] at hindex
  rw [hy, hneighbour] at hindexl
  rw [hdata, hindex, hindexl, Nat.mod_eq_of_lt hqlt] at hcheck
  simp [xor_one_mod_ne hqlt hnb] at hcheck

/-- **Software prediction against the device.** After `init_port_start`, for a port the lcore
serves with more than one queue and a redirection table of `2 ^ m` entries, `ff_rss_check` and
`ff_rss_check6` agree with the device on every tuple iff the configuration is aligned. -/
theorem rssCheck_agrees_iff :
    ((∀ saddr daddr sport dport, Predicts env s port queueid
        (tupleBytes saddr daddr sport dport)
        (ffRssCheck s.toRssState (initLcoreConf cfg.portidList cfg.portCfgs lcore) port
          saddr daddr sport dport)) ∧
      ∀ saddr6 daddr6 sport dport, Predicts env s port queueid
        (tuple6Bytes saddr6 daddr6 sport dport)
        (ffRssCheck6 s.toRssState (initLcoreConf cfg.portidList cfg.portCfgs lcore) port
          saddr6 daddr6 sport dport)) ↔
      KeyAligned cfg env (portDev cfg port) queueid := by
  constructor
  · rintro ⟨-, h6⟩
    exact keyAligned_of_predicts6 hg h hport hq hnb hreta h6
  · intro hk
    refine ⟨fun saddr daddr sport dport => ?_, fun saddr6 daddr6 sport dport => ?_⟩
    · exact predicts_of_keyAligned hg h hport hq hnb hreta hk (by simp)
    · exact predicts_of_keyAligned hg h hport hq hnb hreta hk (by simp)

end Port

/-- Two equal ports with default settings: port 0 is configured with the rewritten key, port 1 then
resets the global one, and the prediction for port 0 denies a tuple its device sends to the
lcore's queue. -/
theorem rssCheck_disagrees :
    ∃ s, initPortStart (sampleCfg false true [0, 1]) (sampleEnv 40 fun _ => false) = .ok s ∧
      queueidOf 0 ((sampleCfg false true [0, 1]).portCfgs 0).lcoreList = some 0 ∧
      ¬Predicts (sampleEnv 40 fun _ => false) s 0 0 (tupleBytes 0 0 (htons 1) 0)
        (ffRssCheck s.toRssState
          (initLcoreConf [0, 1] (sampleCfg false true [0, 1]).portCfgs 0) 0 0 0 (htons 1) 0) := by
  refine ⟨_, rfl, rfl, ?_⟩
  rintro ⟨queue, hnic, hcheck⟩
  have hqueue : some queue = some 0 := hnic.symm.trans (by decide +kernel)
  rw [Option.some.inj hqueue] at hcheck
  exact absurd hcheck (by decide +kernel)

theorem rssCheck_agrees_single_port :
    ∃ s, initPortStart (sampleCfg false true [0]) (sampleEnv 40 fun _ => false) = .ok s ∧
      ∀ saddr daddr sport dport, Predicts (sampleEnv 40 fun _ => false) s 0 1
        (tupleBytes saddr daddr sport dport)
        (ffRssCheck s.toRssState (initLcoreConf [0] (sampleCfg false true [0]).portCfgs 1) 0
          saddr daddr sport dport) :=
  ⟨_, rfl, ((@rssCheck_agrees_iff (sampleCfg false true [0]) (sampleEnv 40 fun _ => false) _ 1 0 1 7
    rfl rfl (by decide) rfl (by decide) rfl).2
      ⟨⟨rfl, .inl rfl⟩, _, rfl, ⟨rfl, .inl rfl⟩, .inr (.inr (.inl rfl))⟩).1⟩

end FStack.Rss
