import FStack.Lib.Run
import FStack.Rss.Check

/-!
# Port initialisation

Model of the RSS side of `init_port_start` (`lib/ff_dpdk_if.c:856-1240`) and of `set_rss_table`
(`lib/ff_dpdk_if.c:831-854`).

The two nested loops visit the devices `initDevs`: for each configured port its bond slaves, then
the port itself, each with the port's number of queues; in a primary process with KNI one
virtio-user device per port follows, without a `pconf`. One visit is `initDev`. It fails where the
source calls `rte_exit`, trips the `assert` or returns an error.

`rte_eth_dev_configure` is outside the repository. Two of its refusals matter here and are
modelled: a device that is already started (`dpdk/lib/ethdev/rte_ethdev.c:1312`) and a non-NULL key
whose length is not the device's (`dpdk/lib/ethdev/rte_ethdev.c:1525`). Everything else it and the
other driver calls may answer is `InitEnv`.

Results, for a run of a primary process that returns 0:
* `initPortStart_nodup`: no device is visited twice.
* `initPortStart_conf`: each RSS device was configured with `finalKey`, a function of the inputs.
* `initPortStart_global`: the global key is the `finalKey` of the last RSS device.
* `initPortStart_reta`: the redirection table of a multi-queue device.
-/

namespace FStack.Rss

open Function List FStack.Lib.Run

/-! ## The model -/

/-- The configuration `init_port_start` reads. -/
structure InitCfg where
  rss : RssCfg
  portidList : List Nat
  portCfgs : Nat → PortCfg
  enableKni : Bool
  nbDevPorts : Nat

/-- What the library calls answer, by device. -/
structure InitEnv where
  info : Nat → DevInfo
  calls : Nat → BuildCalls
  /-- No other check of `rte_eth_dev_configure` fails. -/
  configure : Nat → Bool
  /-- Queue set-up, MTU, start and the table update succeed. -/
  setup : Nat → Bool

/-- One visit of the inner loop. -/
structure Dev where
  port : Nat
  nbQueues : Nat
  /-- `pconf != NULL`. -/
  hasConf : Bool
  deriving DecidableEq

/-- Why `init_port_start` does not return 0; the argument is the device. -/
inductive InitError where
  | tooManyQueues (port : Nat)
  | retaNotPowerOfTwo (port : Nat)
  | configure (port : Nat)
  | setup (port : Nat)

/-- The globals, and what the devices were told. -/
structure InitState extends RssState where
  /-- The `rss_conf` a device was configured with; such a device is started. -/
  nicConf : Nat → Option RssConf
  /-- The redirection table written to a device, in groups of `RTE_ETH_RETA_GROUP_SIZE`. -/
  reta : Nat → Option (List (List Nat))

/-- No port was configured. -/
def InitState.start : InitState where
  toRssState := RssState.start
  nicConf := fun _ => none
  reta := fun _ => none

/-- `RTE_ETH_RETA_GROUP_SIZE`. -/
def retaGroupSize : Nat := 64

/-- `reta_conf` of `set_rss_table`: the counter `hash` numbers the entries of all groups. -/
def retaConf (retaSize nbQueues : Nat) : List (List Nat) :=
  (range (max 1 (retaSize / retaGroupSize))).map fun i =>
    (range retaGroupSize).map fun j => (retaGroupSize * i + j) % nbQueues

/-- `set_rss_table`. -/
def setRssTable (port retaSize nbQueues : Nat) (s : InitState) : InitState :=
  if retaSize = 0 then s
  else { s with reta := update s.reta port (some (retaConf retaSize nbQueues)) }

/-- The entry a device reads at `idx`. -/
def retaEntry (reta : List (List Nat)) (idx : Nat) : Option Nat :=
  reta[idx / retaGroupSize]?.bind (·[idx % retaGroupSize]?)

/-- The globals and the `rss_conf` after the `if (pconf)` block. -/
def devRss (g : RssCfg) (env : InitEnv) (d : Dev) (s : RssState) : RssState × RssConf :=
  if d.hasConf then
    let info := env.info d.port
    let r := rssBlock g (env.calls d.port) info d.port d.nbQueues s
    if info.retaSize = 0 then r
    else ({ r.1 with retaSize := update r.1.retaSize d.port info.retaSize }, r.2)
  else (s, ⟨none, 0⟩)

/-- `rte_eth_dev_configure` accepts the device. -/
def devConfigure (env : InitEnv) (s : InitState) (port : Nat) (conf : RssConf) : Bool :=
  (s.nicConf port).isNone &&
    (conf.key.isNone || conf.keyLen == (env.info port).hashKeySize) && env.configure port

/-- The body of the inner loop. -/
def initDev (g : RssCfg) (env : InitEnv) (s : InitState) (d : Dev) : Except InitError InitState :=
  let info := env.info d.port
  if info.maxRxQueues < d.nbQueues || info.maxTxQueues < d.nbQueues then
    .error (.tooManyQueues d.port)
  else if d.hasConf && info.retaSize != 0 && info.retaSize &&& (info.retaSize - 1) != 0 then
    .error (.retaNotPowerOfTwo d.port)
  else
    let r := devRss g env d s.toRssState
    let s := { s with toRssState := r.1 }
    if !g.primary then .ok s
    else if !devConfigure env s d.port r.2 then .error (.configure d.port)
    else if !env.setup d.port then .error (.setup d.port)
    else
      let s := { s with nicConf := update s.nicConf d.port (some r.2) }
      .ok (if 1 < d.nbQueues then setRssTable d.port info.retaSize d.nbQueues s else s)

/-- The devices of one configured port: its slaves, then the port. -/
def portDevs (cfg : InitCfg) (port : Nat) : List Dev :=
  let pconf := cfg.portCfgs port
  (pconf.slavePortidList ++ [port]).map fun p => ⟨p, pconf.nbLcores, true⟩

/-- The devices in the order of the loops. -/
def initDevs (cfg : InitCfg) : List Dev :=
  cfg.portidList.flatMap (portDevs cfg) ++
    if cfg.enableKni && cfg.rss.primary then
      (range cfg.portidList.length).map fun i => ⟨i + cfg.nbDevPorts, 1, false⟩
    else []

/-- `init_port_start`. -/
def initPortStart (cfg : InitCfg) (env : InitEnv) : Except InitError InitState :=
  (initDevs cfg).foldlM (initDev cfg.rss env) InitState.start

/-! ## One visit -/

/-- The device gets an RSS configuration. -/
def Dev.isRss (env : InitEnv) (d : Dev) : Bool := d.hasConf && (env.info d.port).rssOffloads

/-- The device publishes a rewritten key unless an earlier one did. -/
def Dev.canBuild (g : RssCfg) (env : InitEnv) (d : Dev) : Bool :=
  d.hasConf && Rss.canBuild g (env.calls d.port) (env.info d.port) d.nbQueues

variable {g : RssCfg} {env : InitEnv} {d : Dev} {s s' : InitState} {p : Nat}
  {devs pre post : List Dev}

theorem Dev.isRss_of_canBuild (h : d.canBuild g env = true) : d.isRss env = true := by
  simp only [Dev.canBuild, Rss.canBuild, Bool.and_eq_true] at h
  simp [Dev.isRss, h.1, h.2.1.1.1.1.1.1]

section

variable (s : RssState)

theorem devRss_rss (h : d.isRss env = true) : let info := env.info d.port
    let key := devKey g (env.calls d.port) info d.nbQueues s.keyBuilt
    let r := devRss g env d s
    r.1.rsskey = key ∧ r.1.rsskeyLen = baseLen info.hashKeySize ∧
      r.1.keyBuilt = (s.keyBuilt || d.canBuild g env) ∧
      r.2 = ⟨key, baseLen info.hashKeySize⟩ := by
  obtain ⟨hconf, hrss⟩ : d.hasConf = true ∧ (env.info d.port).rssOffloads = true := by
    simpa [Dev.isRss] using h
  obtain ⟨hkey, hlen, hbuilt, hr, -⟩ :=
    rssBlock_spec g (env.calls d.port) (env.info d.port) d.port d.nbQueues s hrss
  unfold devRss Dev.canBuild
  simp only [hconf, if_true, Bool.true_and]
  split
  · exact ⟨hkey, hlen, hbuilt, hr⟩
  · exact ⟨hkey, hlen, hbuilt, hr⟩

theorem devRss_not_rss (h : d.isRss env = false) : let r := devRss g env d s
    r.1.rsskey = s.rsskey ∧ r.1.rsskeyLen = s.rsskeyLen ∧
      r.1.keyBuilt = (s.keyBuilt || d.canBuild g env) := by
  have hcan : d.canBuild g env = false := by
    cases hc : d.canBuild g env with
    | false => rfl
    | true => simp [Dev.isRss_of_canBuild hc] at h
  unfold devRss
  cases hconf : d.hasConf with
  | false => simp [hcan]
  | true =>
    have hrss : (env.info d.port).rssOffloads = false := by simpa [Dev.isRss, hconf] using h
    simp only [if_true, rssBlock, hrss, Bool.false_eq_true, if_false, hcan, Bool.or_false]
    split <;> simp

theorem devRss_retaSize_of_ne (hp : p ≠ d.port) :
    (devRss g env d s).1.retaSize p = s.retaSize p := by
  have hblock : (rssBlock g (env.calls d.port) (env.info d.port) d.port d.nbQueues s).1.retaSize p =
      s.retaSize p := by
    cases hrss : (env.info d.port).rssOffloads with
    | false => simp [rssBlock, hrss]
    | true => exact (rssBlock_spec g _ _ d.port d.nbQueues s hrss).2.2.2.2 p hp
  unfold devRss
  split
  · dsimp only
    split
    · exact hblock
    · exact (update_of_ne hp _ _).trans hblock
  · rfl

theorem devRss_retaSize_self (hconf : d.hasConf = true) (hreta : (env.info d.port).retaSize ≠ 0) :
    (devRss g env d s).1.retaSize d.port = (env.info d.port).retaSize := by
  simp [devRss, hconf, hreta]

end

/-- A visit that a primary process survives: the device was not started before and took the key's
length, and this is everything the visit changes. -/
theorem initDev_ok (hg : g.primary = true) (h : initDev g env s d = .ok s') :
    s.nicConf d.port = none ∧
      ((devRss g env d s.toRssState).2.key = none ∨
        (devRss g env d s.toRssState).2.keyLen = (env.info d.port).hashKeySize) ∧
      s'.toRssState = (devRss g env d s.toRssState).1 ∧
      s'.nicConf = update s.nicConf d.port (some (devRss g env d s.toRssState).2) ∧
      s'.reta = (if 1 < d.nbQueues ∧ (env.info d.port).retaSize ≠ 0 then
        update s.reta d.port (some (retaConf (env.info d.port).retaSize d.nbQueues))
        else s.reta) := by
  unfold initDev at h
  simp only [hg, Bool.not_true, Bool.false_eq_true, if_false] at h
  split at h
  · cases h
  split at h
  · cases h
  split at h
  · cases h
  rename_i hc
  split at h
  · cases h
  injection h with h
  simp only [devConfigure, Bool.not_eq_true', Bool.not_eq_false, Bool.and_eq_true,
    Bool.or_eq_true, Option.isNone_iff_eq_none, beq_iff_eq] at hc
  subst h
  refine ⟨hc.1.1, hc.1.2, ?_⟩
  unfold setRssTable
  by_cases hnb : 1 < d.nbQueues
  · by_cases hr : (env.info d.port).retaSize = 0
    · simp [hnb, hr]
    · simp [hnb, hr]
  · simp [hnb]

theorem initDev_keyBuilt (hg : g.primary = true) (h : initDev g env s d = .ok s') :
    s'.keyBuilt = (s.keyBuilt || d.canBuild g env) := by
  rw [(initDev_ok hg h).2.2.1]
  cases hrss : d.isRss env with
  | true => exact (devRss_rss s.toRssState hrss).2.2.1
  | false => exact (devRss_not_rss s.toRssState hrss).2.2

/-! ## Runs -/

theorem run_keyBuilt (hg : g.primary = true) :
    ∀ {devs : List Dev} {s s' : InitState}, devs.foldlM (initDev g env) s = .ok s' →
      s'.keyBuilt = (s.keyBuilt || devs.any (Dev.canBuild g env))
  | [], _, _, h => by
    cases h
    simp
  | d :: devs, s, s', h => by
    obtain ⟨s₁, h₁, h₂⟩ := foldlM_cons_eq_ok.1 h
    rw [run_keyBuilt hg h₂, initDev_keyBuilt hg h₁, any_cons, Bool.or_assoc]

theorem run_rsskey (hg : g.primary = true) (h : devs.foldlM (initDev g env) s = .ok s')
    (hrss : ∀ d ∈ devs, d.isRss env = false) :
    s'.rsskey = s.rsskey ∧ s'.rsskeyLen = s.rsskeyLen := by
  refine foldlM_invariant (P := fun t => t.rsskey = s.rsskey ∧ t.rsskeyLen = s.rsskeyLen)
    ?_ h ⟨rfl, rfl⟩
  intro d hd t t' ht hP
  obtain ⟨hkey, hlen, -⟩ := devRss_not_rss (g := g) t.toRssState (hrss d hd)
  rw [(initDev_ok hg ht).2.2.1]
  exact ⟨hkey.trans hP.1, hlen.trans hP.2⟩

/-- A started device stays as it is, and is not visited again. -/
theorem run_started (hg : g.primary = true) :
    ∀ {devs : List Dev} {s s' : InitState}, devs.foldlM (initDev g env) s = .ok s' →
      s.nicConf p ≠ none →
      (∀ d ∈ devs, d.port ≠ p) ∧ s'.nicConf p = s.nicConf p ∧ s'.reta p = s.reta p ∧
        s'.retaSize p = s.retaSize p
  | [], _, _, h, _ => by
    cases h
    simp
  | d :: devs, s, s', h, hp => by
    obtain ⟨s₁, h₁, h₂⟩ := foldlM_cons_eq_ok.1 h
    obtain ⟨hnone, -, hs₁, hnic, hreta⟩ := initDev_ok hg h₁
    have hne : p ≠ d.port := by
      rintro rfl
      exact hp hnone
    have hnic₁ : s₁.nicConf p = s.nicConf p := by rw [hnic, update_of_ne hne]
    have hreta₁ : s₁.reta p = s.reta p := by
      rw [hreta]
      split
      · rw [update_of_ne hne]
      · rfl
    have hsize₁ : s₁.retaSize p = s.retaSize p := by
      rw [hs₁]
      exact devRss_retaSize_of_ne s.toRssState hne
    obtain ⟨hall, h3, h4, h5⟩ := run_started hg h₂ (by rw [hnic₁]; exact hp)
    refine ⟨?_, h3.trans hnic₁, h4.trans hreta₁, h5.trans hsize₁⟩
    intro e he
    rcases mem_cons.1 he with rfl | he
    · exact Ne.symm hne
    · exact hall e he

theorem run_nodup (hg : g.primary = true) :
    ∀ {devs : List Dev} {s s' : InitState}, devs.foldlM (initDev g env) s = .ok s' →
      (devs.map Dev.port).Nodup
  | [], _, _, _ => by simp
  | d :: devs, s, s', h => by
    obtain ⟨s₁, h₁, h₂⟩ := foldlM_cons_eq_ok.1 h
    have hsome : s₁.nicConf d.port ≠ none := by
      rw [(initDev_ok hg h₁).2.2.2.1]
      simp
    have hall := (run_started hg h₂ hsome).1
    rw [map_cons, nodup_cons]
    refine ⟨?_, run_nodup hg h₂⟩
    intro hmem
    obtain ⟨e, he, hport⟩ := mem_map.1 hmem
    exact hall e he hport

/-- What a run leaves for the device visited between `pre` and `post`. -/
theorem run_at (hg : g.primary = true) (h : (pre ++ d :: post).foldlM (initDev g env) s = .ok s') :
    ∃ t : RssState, t.keyBuilt = (s.keyBuilt || pre.any (Dev.canBuild g env)) ∧
      s'.nicConf d.port = some (devRss g env d t).2 ∧
      ((devRss g env d t).2.key = none ∨
        (devRss g env d t).2.keyLen = (env.info d.port).hashKeySize) ∧
      s'.retaSize d.port = (devRss g env d t).1.retaSize d.port ∧
      (1 < d.nbQueues → (env.info d.port).retaSize ≠ 0 →
        s'.reta d.port = some (retaConf (env.info d.port).retaSize d.nbQueues)) := by
  obtain ⟨s₁, s₂, h₁, h₂, h₃⟩ := foldlM_split h
  obtain ⟨-, hlen, hs₂, hnic, hreta⟩ := initDev_ok hg h₂
  have hnic₂ : s₂.nicConf d.port = some (devRss g env d s₁.toRssState).2 := by
    rw [hnic, update_self]
  obtain ⟨-, h4, h5, h6⟩ := run_started hg h₃ (p := d.port) (by simp [hnic₂])
  refine ⟨s₁.toRssState, run_keyBuilt hg h₁, h4.trans hnic₂, hlen, ?_, ?_⟩
  · rw [h6, hs₂]
  · intro hnb hr
    rw [h5, hreta, if_pos ⟨hnb, hr⟩, update_self]

/-! ## What a successful initialisation leaves -/

/-- The device whose rewritten key is published: the first that can build one. -/
def publishes (cfg : InitCfg) (env : InitEnv) (d : Dev) : Bool :=
  (initDevs cfg).find? (Dev.canBuild cfg.rss env) == some d

/-- The key the RSS block of a device leaves, from the configuration alone. -/
def finalKey (cfg : InitCfg) (env : InitEnv) (d : Dev) : Option (List Byte) :=
  let info := env.info d.port
  let base := baseKey cfg.rss.symmetricRss info.hashKeySize
  if publishes cfg env d then
    base.map (builtKey cfg.rss.primary (env.calls d.port) (baseLen info.hashKeySize))
  else base

/-- The last device that gets an RSS configuration. -/
def lastRss (cfg : InitCfg) (env : InitEnv) : Option Dev :=
  (initDevs cfg).reverse.find? (Dev.isRss env)

theorem find?_split {α : Type} [DecidableEq α] {pre post : List α} {d : α} (p : α → Bool)
    (hpre : d ∉ pre) (hpost : d ∉ post) :
    ((pre ++ d :: post).find? p == some d) = (!pre.any p && p d) := by
  rw [find?_append]
  cases hp : pre.find? p with
  | some e =>
    have he := mem_of_find?_eq_some hp
    have hne : e ≠ d := fun h => hpre (h ▸ he)
    have hany : pre.any p = true := any_eq_true.2 ⟨e, he, find?_some hp⟩
    simp [hany, hne]
  | none =>
    have hany : pre.any p = false := by
      simpa using find?_eq_none.1 hp
    cases hd : p d with
    | true => simp [hd, hany]
    | false =>
      have hne : post.find? p ≠ some d := fun h => hpost (mem_of_find?_eq_some h)
      simpa [hd, hany] using hne

section Run

variable {cfg : InitCfg} (hg : cfg.rss.primary = true) (h : initPortStart cfg env = .ok s)

include hg h

theorem initPortStart_nodup : ((initDevs cfg).map Dev.port).Nodup :=
  run_nodup hg h

theorem devKey_eq_finalKey (hs : initDevs cfg = pre ++ d :: post) {t : RssState}
    (ht : t.keyBuilt = (false || pre.any (Dev.canBuild cfg.rss env))) (hrss : d.isRss env = true) :
    devKey cfg.rss (env.calls d.port) (env.info d.port) d.nbQueues t.keyBuilt =
      finalKey cfg env d := by
  have hnd := initPortStart_nodup hg h
  rw [hs, map_append, map_cons, nodup_append] at hnd
  have hpre : d ∉ pre := fun hm =>
    hnd.2.2 d.port (mem_map_of_mem hm) d.port (by simp) rfl
  have hpost : d ∉ post := fun hm =>
    (nodup_cons.1 hnd.2.1).1 (mem_map_of_mem hm)
  have hconf : d.hasConf = true := by
    simp only [Dev.isRss, Bool.and_eq_true] at hrss
    exact hrss.1
  have hpub : publishes cfg env d = (!t.keyBuilt && d.canBuild cfg.rss env) := by
    rw [publishes, hs, find?_split _ hpre hpost, ht, Bool.false_or]
  unfold devKey finalKey
  rw [hpub, Dev.canBuild, hconf, Bool.true_and]

section

variable (hd : d ∈ initDevs cfg)

include hd

/-- **The key each RSS device was configured with.** -/
theorem initPortStart_conf (hrss : d.isRss env = true) :
    s.nicConf d.port = some ⟨finalKey cfg env d, baseLen (env.info d.port).hashKeySize⟩ := by
  obtain ⟨pre, post, hs⟩ := append_of_mem hd
  unfold initPortStart at h
  obtain ⟨t, ht, hconf, -⟩ := run_at hg (hs ▸ h)
  rw [hconf, (devRss_rss t hrss).2.2.2, devKey_eq_finalKey hg h hs ht hrss]

/-- A non-NULL key has one of the two supported lengths. -/
theorem initPortStart_keyed (hrss : d.isRss env = true) :
    (finalKey cfg env d).isSome = true ↔
      (env.info d.port).hashKeySize = 40 ∨ (env.info d.port).hashKeySize = 52 := by
  obtain ⟨pre, post, hs⟩ := append_of_mem hd
  have hrun := h
  unfold initPortStart at hrun
  obtain ⟨t, ht, -, hlen, -⟩ := run_at hg (hs ▸ hrun)
  rw [(devRss_rss t hrss).2.2.2, devKey_eq_finalKey hg h hs ht hrss] at hlen
  constructor
  · intro hsome
    by_contra hsize
    have hzero : (env.info d.port).hashKeySize = 0 := by
      rcases hlen with hnone | hlen
      · simp only at hnone
        simp [hnone] at hsome
      · simpa [baseLen, hsize] using hlen.symm
    simp [finalKey, baseKey, hzero] at hsome
  · intro hsize
    unfold finalKey
    split <;> simp [baseKey_isSome hsize]

theorem initPortStart_not_rss (hrss : d.isRss env = false) : s.nicConf d.port = some ⟨none, 0⟩ := by
  obtain ⟨pre, post, hs⟩ := append_of_mem hd
  unfold initPortStart at h
  obtain ⟨t, -, hconf, -⟩ := run_at hg (hs ▸ h)
  rw [hconf]
  unfold devRss
  cases hc : d.hasConf with
  | false => simp
  | true =>
    have hoff : (env.info d.port).rssOffloads = false := by simpa [Dev.isRss, hc] using hrss
    simp only [if_true, rssBlock, hoff, Bool.false_eq_true, if_false]
    split <;> rfl

/-- The redirection table and the table size of a configured port. -/
theorem initPortStart_reta (hconf : d.hasConf = true) (hr : (env.info d.port).retaSize ≠ 0) :
    s.retaSize d.port = (env.info d.port).retaSize ∧
      (1 < d.nbQueues → s.reta d.port = some (retaConf (env.info d.port).retaSize d.nbQueues)) := by
  obtain ⟨pre, post, hs⟩ := append_of_mem hd
  unfold initPortStart at h
  obtain ⟨t, -, -, -, hsize, hreta⟩ := run_at hg (hs ▸ h)
  exact ⟨hsize.trans (devRss_retaSize_self t hconf hr), fun hnb => hreta hnb hr⟩

end

/-- **The global key is the last RSS device's.** -/
theorem initPortStart_global (hlast : lastRss cfg env = some d) :
    s.rsskey = finalKey cfg env d ∧ s.rsskeyLen = baseLen (env.info d.port).hashKeySize := by
  obtain ⟨hrss, l₁, l₂, hrev, hl₁⟩ := find?_eq_some_iff_append.1 hlast
  have hs : initDevs cfg = l₂.reverse ++ d :: l₁.reverse := by
    rw [← reverse_reverse (initDevs cfg), hrev]
    simp
  have hpost : ∀ e ∈ l₁.reverse, e.isRss env = false := fun e he => by
    simpa using hl₁ e (mem_reverse.1 he)
  unfold initPortStart at h
  obtain ⟨s₁, s₂, h₁, h₂, h₃⟩ := foldlM_split (hs ▸ h)
  obtain ⟨hkey, hlen⟩ := run_rsskey hg h₃ hpost
  obtain ⟨-, -, hs₂, -⟩ := initDev_ok hg h₂
  obtain ⟨hk, hl, -⟩ := devRss_rss (g := cfg.rss) s₁.toRssState hrss
  have ht : s₁.keyBuilt = (false || l₂.reverse.any (Dev.canBuild cfg.rss env)) :=
    run_keyBuilt hg h₁
  rw [hkey, hlen, hs₂, hl]
  exact ⟨hk.trans (devKey_eq_finalKey hg h hs ht hrss), rfl⟩

end Run

end FStack.Rss
