import FStack.Rss.Toeplitz

/-!
# The RSS key of a port

Model of the key tables (`lib/ff_dpdk_if.c:114-145`), of the RSS block of `init_port_start`
(`lib/ff_dpdk_if.c:938-980`) and of `ff_rss_thash_build_key` (`lib/ff_dpdk_if.c:3458-3612`).

All ports share one global `rsskey` pointer with its length. For each device the RSS block first
points it at a default (or the symmetric) key, then, for a multi-queue device with `thash_adjust`
on, lets `ff_rss_thash_build_key` replace it by a rewritten copy, and last copies the pointer into
the device's `rss_conf`. Only the first successful rewrite of the process takes place
(`ff_rss_key_built`).

The `rte_thash_*` calls and `rte_malloc` are the environment: `ThashCalls` holds the outcome of
each call of one context. `rte_thash_add_helper(ctx, name, len, offset)` replaces the key bits
`offset, …, offset + len + 30` (`dpdk/lib/hash/rte_thash.c:557-610`), here by the arbitrary bits
`helperBits`, and leaves every other bit alone: `overwrite`.

Results:
* `ffRssThashBuildKey_spec`: when the global key is replaced, and by which key.
* `bitAt_builtKey`: the replaced key, bit by bit.
* `rssBlock_spec`: the globals and the `rss_conf` one device's RSS block leaves.
-/

namespace FStack.Rss

open Function List FStack.Lib.WindowHash

/-! ## The key tables -/

/-- `default_rsskey_40bytes`. -/
def defaultRsskey40bytes : List Byte :=
  [0xd1, 0x81, 0xc6, 0x2c, 0xf7, 0xf4, 0xdb, 0x5b,
   0x19, 0x83, 0xa2, 0xfc, 0x94, 0x3e, 0x1a, 0xdb,
   0xd9, 0x38, 0x9e, 0x6b, 0xd1, 0x03, 0x9c, 0x2c,
   0xa7, 0x44, 0x99, 0xad, 0x59, 0x3d, 0x56, 0xd9,
   0xf3, 0x25, 0x3c, 0x06, 0x2a, 0xdc, 0x1f, 0xfc]

/-- `default_rsskey_52bytes`. -/
def defaultRsskey52bytes : List Byte :=
  [0x44, 0x39, 0x79, 0x6b, 0xb5, 0x4c, 0x50, 0x23,
   0xb6, 0x75, 0xea, 0x5b, 0x12, 0x4f, 0x9f, 0x30,
   0xb8, 0xa2, 0xc0, 0x3d, 0xdf, 0xdc, 0x4d, 0x02,
   0xa0, 0x8c, 0x9b, 0x33, 0x4a, 0xf6, 0x4a, 0x4c,
   0x05, 0xc6, 0xfa, 0x34, 0x39, 0x58, 0xd8, 0x55,
   0x7d, 0x99, 0x58, 0x3a, 0xe1, 0x38, 0xc9, 0x2e,
   0x81, 0x15, 0x03, 0x66]

/-- `symmetric_rsskey`: the byte pair `6d 5a`, 26 times. -/
def symmetricRsskey : List Byte :=
  (replicate 26 [(0x6d : Byte), 0x5a]).flatten

/-! ## Rewriting part of a key -/

/-- The key with the bits `lo, …, lo + len - 1` taken from `f`. -/
def overwrite (key : List Byte) (lo len : Nat) (f : Nat → Bool) : List Byte :=
  key.mapIdx fun j _ => window 8 (fun i => if lo ≤ i ∧ i < lo + len then f i else bitAt key i) (8 * j)

@[simp] theorem overwrite_length (key : List Byte) (lo len : Nat) (f : Nat → Bool) :
    (overwrite key lo len f).length = key.length := by
  simp [overwrite]

variable {i len : Nat}

theorem bitAt_overwrite (key : List Byte) (lo len : Nat) (f : Nat → Bool) (hi : i < 8 * key.length)
    : bitAt (overwrite key lo len f) i = if lo ≤ i ∧ i < lo + len then f i else bitAt key i := by
  have hj : i / 8 < key.length := by omega
  have hb : i % 8 < 8 := Nat.mod_lt _ (by omega)
  have hpos : 8 * (i / 8) + i % 8 = i := by omega
  rw [bitAt, getD_eq_getElem?_getD, overwrite, getElem?_mapIdx,
    getElem?_eq_getElem hj, Option.map_some, Option.getD_some, getMsbD_window]
  simp only [hb, decide_true, Bool.true_and, hpos]

theorem bitAt_take (key : List Byte) (hi : i < 8 * len) : bitAt (key.take len) i = bitAt key i := by
  have hj : i / 8 < len := by omega
  simp [bitAt, getD_eq_getElem?_getD, hj]

/-! ## The environment -/

/-- `FF_RSS_THASH_SPORT_HELPER_LEN + 31`: how many key bits one helper rewrites. -/
def helperSpan : Nat := 16 + 31

/-- `FF_RSS_THASH_V4_SPORT_OFF`. -/
def v4SportOff : Nat := 80

/-- `FF_RSS_THASH_V6_SPORT_OFF`. -/
def v6SportOff : Nat := 272

/-- What the library calls made for one thash context return. -/
structure ThashCalls where
  /-- `rte_thash_init_ctx` returned a context. -/
  initCtx : Bool
  /-- `rte_thash_add_helper` returned 0. -/
  addHelper : Bool
  /-- The key bits `rte_thash_add_helper` writes, by position. -/
  helperBits : Nat → Bool
  /-- `rte_thash_find_existing`: the key of the context a secondary process finds. -/
  existing : Option (List Byte)
  /-- `rte_thash_get_helper` returned the helper. -/
  getHelper : Bool
  /-- `rte_thash_get_key` returned the key. -/
  getKey : Bool

/-- The calls one run of `ff_rss_thash_build_key` makes. -/
structure BuildCalls where
  v4 : ThashCalls
  v6 : ThashCalls
  /-- `rte_malloc` of the published key succeeded. -/
  malloc : Bool

/-- The global RSS state of a process. -/
structure RssState where
  /-- `rsskey`, `none` for NULL. -/
  rsskey : Option (List Byte)
  /-- `rsskey_len`. -/
  rsskeyLen : Nat
  /-- `ff_rss_key_built`. -/
  keyBuilt : Bool
  /-- `rss_reta_size[port]`. -/
  retaSize : Nat → Nat
  /-- `rss_thash_ready[port]` and `rss_thash6_ready[port]`. -/
  thashReady : Nat → Bool
  thash6Ready : Nat → Bool
  /-- The keys of `rss_thash_ctx[port]` and `rss_thash6_ctx[port]`. -/
  thashCtx : Nat → Option (List Byte)
  thash6Ctx : Nat → Option (List Byte)

/-- The state at program start. -/
def RssState.start : RssState where
  rsskey := some defaultRsskey40bytes
  rsskeyLen := 40
  keyBuilt := false
  retaSize := fun _ => 0
  thashReady := fun _ => false
  thash6Ready := fun _ => false
  thashCtx := fun _ => none
  thash6Ctx := fun _ => none

/-! ## `ff_rss_thash_build_key` -/

/-- One thash context with its `"sport"` helper at bit `off`: the context's key, `none` when a
call failed (the caller then gives the context up). -/
def openCtx (primary : Bool) (c : ThashCalls) (off : Nat) (key : List Byte) : Option (List Byte) :=
  let ctx :=
    if primary then
      if c.initCtx && c.addHelper then some (overwrite key off helperSpan c.helperBits) else none
    else c.existing
  if c.getHelper && c.getKey then ctx else none

/-- The `publish:` block. Without memory for the copy both ready flags are taken back. -/
def publish (malloc : Bool) (port : Nat) (pubKey : List Byte) (len : Nat) (s : RssState) :
    RssState :=
  if malloc then
    { s with rsskey := some (pubKey.take len), rsskeyLen := len, keyBuilt := true }
  else
    { s with thashReady := update s.thashReady port false
             thash6Ready := update s.thash6Ready port false }

/-- `ff_rss_thash_build_key`. -/
def ffRssThashBuildKey (primary thashAdjust : Bool) (calls : BuildCalls) (port retaSize : Nat)
    (s : RssState) : RssState :=
  let s := { s with thashReady := update s.thashReady port false
                    thash6Ready := update s.thash6Ready port false
                    retaSize := update s.retaSize port retaSize }
  match s.rsskey with
  | none => s
  | some key =>
    if !thashAdjust || s.rsskeyLen == 0 then s
    else if decide (retaSize < 2) || s.keyBuilt then s
    else if 64 < s.rsskeyLen then s  -- sizeof(key_v4_buf)
    else
      match openCtx primary calls.v4 v4SportOff (key.take s.rsskeyLen) with
      | none => s
      | some keyV4 =>
        let s := { s with thashCtx := update s.thashCtx port (some keyV4)
                          thashReady := update s.thashReady port true }
        -- the v6 context is seeded by the v4-rewritten key
        match openCtx primary calls.v6 v6SportOff keyV4 with
        | none => publish calls.malloc port keyV4 s.rsskeyLen s
        | some keyFinal =>
          publish calls.malloc port keyFinal s.rsskeyLen
            { s with thash6Ctx := update s.thash6Ctx port (some keyFinal)
                     thash6Ready := update s.thash6Ready port true }

/-! ## The RSS block of `init_port_start` -/

/-- The fields of `rte_eth_dev_info` the RSS set-up reads. -/
structure DevInfo where
  /-- `flow_type_rss_offloads != 0`. -/
  rssOffloads : Bool
  hashKeySize : Nat
  retaSize : Nat
  /-- `reta_size` is a `uint16_t`. -/
  retaSize_lt : retaSize < 65536
  maxRxQueues : Nat
  maxTxQueues : Nat

/-- `rss_key` and `rss_key_len` of `port_conf.rx_adv_conf.rss_conf`. -/
structure RssConf where
  key : Option (List Byte)
  keyLen : Nat

/-- The settings of `ff_global_cfg.dpdk` the RSS set-up reads. -/
structure RssCfg where
  primary : Bool
  symmetricRss : Bool
  /-- `rss_check_cfgs == NULL || rss_check_cfgs->thash_adjust`. -/
  thashAdjust : Bool

variable (g : RssCfg)

/-- The `switch (dev_info.hash_key_size)` and the `symmetric_rss` override. -/
def chooseKey (info : DevInfo) (s : RssState) : RssState :=
  let s := match info.hashKeySize with
    | 40 => { s with rsskey := some defaultRsskey40bytes, rsskeyLen := 40 }
    | 52 => { s with rsskey := some defaultRsskey52bytes, rsskeyLen := 52 }
    | _ => { s with rsskey := none, rsskeyLen := 0 }
  if g.symmetricRss && info.hashKeySize != 0 then { s with rsskey := some symmetricRsskey } else s

/-- "Set RSS mode": the new global state and the device's `rss_conf`. -/
def rssBlock (calls : BuildCalls) (info : DevInfo) (port nbQueues : Nat)
    (s : RssState) : RssState × RssConf :=
  if info.rssOffloads then
    let s := chooseKey g info s
    let s := if decide (1 < nbQueues) && g.thashAdjust then
        ffRssThashBuildKey g.primary g.thashAdjust calls port info.retaSize s
      else s
    (s, ⟨s.rsskey, s.rsskeyLen⟩)
  else (s, ⟨none, 0⟩)

/-! ## The key in closed form -/

/-- The key the `switch` and the `symmetric_rss` override leave, `none` for NULL. -/
def baseKey (symmetricRss : Bool) (hashKeySize : Nat) : Option (List Byte) :=
  if symmetricRss && hashKeySize != 0 then some symmetricRsskey
  else if hashKeySize = 40 then some defaultRsskey40bytes
  else if hashKeySize = 52 then some defaultRsskey52bytes
  else none

/-- The key length the `switch` leaves. -/
def baseLen (hashKeySize : Nat) : Nat :=
  if hashKeySize = 40 ∨ hashKeySize = 52 then hashKeySize else 0

theorem chooseKey_eq (info : DevInfo) (s : RssState) :
    chooseKey g info s =
      { s with rsskey := baseKey g.symmetricRss info.hashKeySize
               rsskeyLen := baseLen info.hashKeySize } := by
  unfold chooseKey baseKey baseLen
  split
  next h => cases g.symmetricRss <;> simp [h]
  next h => cases g.symmetricRss <;> simp [h]
  next h40 h52 =>
    replace h40 : ¬info.hashKeySize = 40 := h40
    replace h52 : ¬info.hashKeySize = 52 := h52
    by_cases hs : (g.symmetricRss && info.hashKeySize != 0) = true
    · simp [hs, h40, h52]
    · simp [hs, h40, h52]

variable (primary : Bool)

variable (c : ThashCalls)

/-- All calls for one context succeed. -/
def ThashCalls.opens : Bool :=
  (if primary then c.initCtx && c.addHelper else c.existing.isSome) && (c.getHelper && c.getKey)

/-- The key of an opened context. -/
def ThashCalls.ctxKey (off : Nat) (key : List Byte) : List Byte :=
  if primary then overwrite key off helperSpan c.helperBits else c.existing.getD []

theorem openCtx_eq (off : Nat) (key : List Byte) :
    openCtx primary c off key = if c.opens primary then some (c.ctxKey primary off key) else none := by
  unfold openCtx ThashCalls.opens ThashCalls.ctxKey
  cases primary with
  | true => cases c.initCtx <;> cases c.addHelper <;> cases c.getHelper <;> cases c.getKey <;> simp
  | false => cases h : c.existing <;> cases c.getHelper <;> cases c.getKey <;> simp

/-- The key `ff_rss_thash_build_key` publishes, from the first `len` bytes of `key`. -/
def builtKey (calls : BuildCalls) (len : Nat) (key : List Byte) : List Byte :=
  let keyV4 := calls.v4.ctxKey primary v4SportOff (key.take len)
  (if calls.v6.opens primary then calls.v6.ctxKey primary v6SportOff keyV4 else keyV4).take len

variable (calls : BuildCalls)

variable (f : Nat → Bool)

/-- Bit `i` of the published key of a primary process: the helpers' bits over the old ones. -/
def BuildCalls.rewrite (i : Nat) : Bool :=
  if v4SportOff ≤ i ∧ i < v4SportOff + helperSpan then calls.v4.helperBits i
  else if calls.v6.opens true = true ∧ v6SportOff ≤ i ∧ i < v6SportOff + helperSpan then
    calls.v6.helperBits i
  else f i

/-- The helpers write the bits that stood there before. -/
def BuildCalls.Keeps : Prop :=
  (∀ i, v4SportOff ≤ i → i < v4SportOff + helperSpan → calls.v4.helperBits i = f i) ∧
    (calls.v6.opens true = true →
      ∀ i, v6SportOff ≤ i → i < v6SportOff + helperSpan → calls.v6.helperBits i = f i)

theorem BuildCalls.keeps_iff :
    calls.Keeps f ↔ ∀ i, i < v6SportOff + helperSpan → calls.rewrite f i = f i := by
  have hoff : v4SportOff + helperSpan ≤ v6SportOff := by decide
  constructor
  · rintro ⟨h4, h6⟩ i -
    unfold BuildCalls.rewrite
    split
    next hi => exact h4 i hi.1 hi.2
    · split
      next hi => exact h6 hi.1 i hi.2.1 hi.2.2
      · rfl
  · intro h
    refine ⟨fun i hlo hhi => ?_, fun hopen i hlo hhi => ?_⟩
    · have hi := h i (by omega)
      rwa [BuildCalls.rewrite, if_pos ⟨hlo, hhi⟩] at hi
    · have hi := h i hhi
      rwa [BuildCalls.rewrite, if_neg (by omega), if_pos ⟨hopen, hlo, hhi⟩] at hi

theorem BuildCalls.rewrite_of_lt (hi : i < v4SportOff) : calls.rewrite f i = f i := by
  have hoff : v4SportOff ≤ v6SportOff := by decide
  rw [BuildCalls.rewrite, if_neg (by omega), if_neg (by omega)]

theorem bitAt_builtKey {key : List Byte} (hlen : len ≤ key.length) (hi : i < 8 * len) :
    bitAt (builtKey true calls len key) i = calls.rewrite (bitAt key) i := by
  have hi' : i < 8 * (key.take len).length := by simpa [min_eq_left hlen] using hi
  unfold builtKey BuildCalls.rewrite ThashCalls.ctxKey
  rw [bitAt_take _ hi]
  have hoff : v4SportOff + helperSpan ≤ v6SportOff := by decide
  cases calls.v6.opens true with
  | false =>
    simp only [if_true, Bool.false_eq_true, if_false, false_and]
    rw [bitAt_overwrite _ _ _ _ hi', bitAt_take _ hi]
  | true =>
    simp only [if_true, true_and]
    rw [bitAt_overwrite _ _ _ _ (by simpa using hi'), bitAt_overwrite _ _ _ _ hi', bitAt_take _ hi]
    -- the two rewritten ranges are disjoint
    split
    · rw [if_neg (by omega)]
    · rfl

variable (primary thashAdjust : Bool)

/-- When `ff_rss_thash_build_key` publishes a key. -/
def buildOk (calls : BuildCalls) (retaSize : Nat) (s : RssState) :
    Bool :=
  thashAdjust && s.rsskey.isSome && decide (0 < s.rsskeyLen ∧ s.rsskeyLen ≤ 64) &&
    decide (2 ≤ retaSize) && !s.keyBuilt && calls.v4.opens primary && calls.malloc

/-- **What `ff_rss_thash_build_key` does to the globals `ff_rss_check` reads.** -/
theorem ffRssThashBuildKey_spec (calls : BuildCalls) (port retaSize : Nat) (s : RssState) :
    let s' := ffRssThashBuildKey primary thashAdjust calls port retaSize s
    s'.rsskey = (if buildOk primary thashAdjust calls retaSize s then
        s.rsskey.map (builtKey primary calls s.rsskeyLen) else s.rsskey) ∧
      s'.rsskeyLen = s.rsskeyLen ∧
      s'.keyBuilt = (s.keyBuilt || buildOk primary thashAdjust calls retaSize s) ∧
      s'.retaSize = update s.retaSize port retaSize := by
  unfold ffRssThashBuildKey buildOk
  cases hkey : s.rsskey with
  | none => simp
  | some key =>
    by_cases h1 : (!thashAdjust || s.rsskeyLen == 0) = true
    · cases thashAdjust <;> simp_all
    by_cases h2 : (decide (retaSize < 2) || s.keyBuilt) = true
    · cases hb : s.keyBuilt <;> simp_all
    by_cases h3 : 64 < s.rsskeyLen
    · simp_all
    simp only [h1, h2, h3, openCtx_eq, Bool.false_eq_true, if_false]
    obtain ⟨hadj, hlen⟩ : thashAdjust = true ∧ 0 < s.rsskeyLen := by
      cases thashAdjust <;> simp_all; omega
    obtain ⟨hreta, hbuilt⟩ : 2 ≤ retaSize ∧ s.keyBuilt = false := by
      rw [Bool.or_eq_true, not_or, decide_eq_true_eq, Bool.not_eq_true] at h2
      exact ⟨not_lt.1 h2.1, h2.2⟩
    have hle : s.rsskeyLen ≤ 64 := by omega
    cases h4 : calls.v4.opens primary with
    | false => simp [hbuilt]
    | true =>
      cases h6 : calls.v6.opens primary <;> cases hm : calls.malloc <;>
        simp [publish, builtKey, hadj, hlen, hreta, hbuilt, hle, h6]

variable (calls : BuildCalls)

variable (info : DevInfo)

/-- The device publishes a rewritten key unless an earlier one did. -/
def canBuild (nbQueues : Nat) : Bool :=
  info.rssOffloads && decide (1 < nbQueues) && g.thashAdjust &&
    decide (info.hashKeySize = 40 ∨ info.hashKeySize = 52) && decide (2 ≤ info.retaSize) &&
    calls.v4.opens g.primary && calls.malloc

/-- The key a device's RSS block leaves; `built` says that the key was published before. -/
def devKey (nbQueues : Nat) (built : Bool) : Option (List Byte) :=
  if !built && canBuild g calls info nbQueues then
    (baseKey g.symmetricRss info.hashKeySize).map
      (builtKey g.primary calls (baseLen info.hashKeySize))
  else baseKey g.symmetricRss info.hashKeySize

theorem baseKey_isSome {sym : Bool} {size : Nat} (h : size = 40 ∨ size = 52) :
    (baseKey sym size).isSome = true := by
  rcases h with rfl | rfl <;> cases sym <;> rfl

theorem buildOk_chooseKey {nbQueues : Nat} (s : RssState) (hrss : info.rssOffloads = true)
    (hq : (decide (1 < nbQueues) && g.thashAdjust) = true) :
    buildOk g.primary g.thashAdjust calls info.retaSize (chooseKey g info s) =
      (!s.keyBuilt && canBuild g calls info nbQueues) := by
  obtain ⟨hnb, hadj⟩ : 1 < nbQueues ∧ g.thashAdjust = true := by simpa using hq
  rw [chooseKey_eq]
  unfold buildOk canBuild
  by_cases hsize : info.hashKeySize = 40 ∨ info.hashKeySize = 52
  · have hlen : 0 < info.hashKeySize ∧ info.hashKeySize ≤ 64 := by omega
    cases s.keyBuilt <;> simp [baseLen, hsize, hlen, hadj, hnb, hrss, baseKey_isSome hsize]
  · simp [baseLen, hsize]

/-- **The RSS block of one device**: the globals it leaves, and the `rss_conf` it fills. -/
theorem rssBlock_spec (port nbQueues : Nat) (s : RssState) (hrss : info.rssOffloads = true) :
    let r := rssBlock g calls info port nbQueues s
    r.1.rsskey = devKey g calls info nbQueues s.keyBuilt ∧
      r.1.rsskeyLen = baseLen info.hashKeySize ∧
      r.1.keyBuilt = (s.keyBuilt || canBuild g calls info nbQueues) ∧
      r.2 = ⟨devKey g calls info nbQueues s.keyBuilt, baseLen info.hashKeySize⟩ ∧
      ∀ p, p ≠ port → r.1.retaSize p = s.retaSize p := by
  unfold rssBlock
  simp only [hrss, if_true]
  by_cases hq : (decide (1 < nbQueues) && g.thashAdjust) = true
  · obtain ⟨hkey, hlen, hbuilt, hreta⟩ := ffRssThashBuildKey_spec g.primary g.thashAdjust calls
      port info.retaSize (chooseKey g info s)
    rw [buildOk_chooseKey g calls info s hrss hq] at hkey hbuilt
    rw [chooseKey_eq] at hkey hlen hbuilt hreta
    simp only [hq, if_true, chooseKey_eq, hkey, hlen, hbuilt, hreta, devKey]
    refine ⟨trivial, trivial, ?_, trivial, fun p hp => update_of_ne hp _ _⟩
    cases s.keyBuilt <;> simp
  · have hcan : canBuild g calls info nbQueues = false := by
      unfold canBuild
      cases hadj : g.thashAdjust <;> simp_all
    simp [hq, chooseKey_eq, devKey, hcan]

end FStack.Rss
