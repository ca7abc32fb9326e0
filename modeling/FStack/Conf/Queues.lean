import FStack.Conf.Consistent
import FStack.Rss.Check

/-!
# Queues and the lcores that serve them

Model of `init_lcore_conf` (`lib/ff_dpdk_if.c:448-551`), of what `ff_dpdk_init` checks before it
(`ff_dpdk_if.c:1702-1710`), and of the queues `init_port_start` configures on the devices
(`ff_dpdk_if.c:857-1262`, with `rte_eth_dev_configure` of `dpdk/lib/ethdev/rte_ethdev.c:1288`).

In process mode every process runs `init_lcore_conf` with its own id; in thread mode one call sets
up the lcore of every thread. A process, or in thread mode all of them, is gone if it exits. An
entry past the end of `rx_queue_list` is kept as if there were room.

Two things go wrong. An lcore that is listed twice for a port takes the last of its queues, and
nothing polls the others. A port without lcores, which a mask after the lines of the ports leaves,
gets the number of queues its driver likes.

Results:
* `lcoreQueues_rss`: the tables the hash check reads are those of `FStack.Rss.Check`.
* `queues_served_iff`: when every queue of every port is served by one lcore.
* `queues_not_served`: accepted configurations with a queue that nothing polls.
-/

namespace FStack.Conf

open Function List FStack.Lib

/-! ## The lcores -/

/-- `struct lcore_conf`; an entry of `rx_queue_list` is a port and a queue. -/
structure LcoreConf where
  procId : Nat
  nbQueueList : Nat → Nat
  rxQueueList : List (Nat × Nat)
  txPortId : List Nat
  txQueueId : Nat → Nat

/-- An entry of `lcore_conf` before the loop over the ports. -/
def LcoreConf.zero (procId : Nat) : LcoreConf := ⟨procId, fun _ => 0, [], [], fun _ => 0⟩

/-- `MAX_RX_QUEUE_PER_LCORE`. -/
def maxRxQueuePerLcore : Nat := 16

/-- What DPDK finds: the devices, the lcores, the type of a process. `slaveId` is what the slave
lists hold, `fails` that a call on the device fails for a reason of its own. -/
structure Machine where
  nbDevPorts : Nat
  enabled : Nat → Bool
  isPrimary : Nat → Bool
  maxQueues : Nat → Nat
  defaultQueues : Nat → Nat
  slaveId : Nat → Nat → Nat
  fails : Nat → Bool

/-- Why a process exits. -/
inductive Exit where
  | param
  | noPort
  | unavailable
  | nothingToDo
  | tooManyQueues
  | device
  deriving DecidableEq

/-- `proc_lcore[i]`. -/
def Config.lcoreOf (c : Config) (i : Nat) : Nat := (c.procLcore.getD fun _ => 0) i

/-- The body of the loop over the ports. -/
def initLcorePort (c : Config) (lcore : Nat) (lc : LcoreConf) (port : Nat) : LcoreConf :=
  match Rss.queueidOf lcore (c.port port).lcores with
  | none => lc
  | some queueid =>
    { lc with
      nbQueueList := update lc.nbQueueList port (c.port port).nbLcores
      rxQueueList := lc.rxQueueList ++ [(port, queueid)]
      txPortId := lc.txPortId ++ [port]
      txQueueId := update lc.txQueueId port queueid }

/-- The loop over the ports, for the `i`-th process or thread. -/
def lcoreQueues (c : Config) (i : Nat) : LcoreConf :=
  c.portidList.foldl (initLcorePort c (c.lcoreOf i)) (.zero i)

section

variable (m : Machine)

variable (c : Config)

/-- The part of `init_lcore_conf` for one lcore; only a slim primary may be without a queue. -/
def initLcore (slim : Bool) (i : Nat) : Except Exit (Nat × LcoreConf) :=
  if m.enabled (c.lcoreOf i) = false then .error .unavailable
  else if (lcoreQueues c i).rxQueueList = [] ∧ slim = false then .error .nothingToDo
  else .ok (c.lcoreOf i, lcoreQueues c i)

/-- `init_lcore_conf`: the lcores it sets up. -/
def initLcoreConf : Except Exit (List (Nat × LcoreConf)) :=
  if m.nbDevPorts ≤ c.maxPortid then .error .noPort
  else if c.threadMode then (range c.nbThreads).mapM (initLcore m c false)
  else do
    let e ← initLcore m c (c.primarySlim && m.isPrimary c.procId.toNat) c.procId.toNat
    return [e]

/-- `ff_dpdk_init` up to `init_lcore_conf`. -/
def ffDpdkInit : Except Exit (List (Nat × LcoreConf)) :=
  if c.nbProcs < 1 ∨ maxLcore < c.nbProcs ∨ (c.nbProcs : Int) ≤ c.procId ∨ c.procId < 0 then
    .error .param
  else initLcoreConf m c

/-- All processes, or threads, together. -/
def confs : List (Nat × LcoreConf) :=
  if c.threadMode then (ffDpdkInit m c).toOption.getD []
  else (range c.nbProcs).flatMap fun i : Nat =>
    (ffDpdkInit m { c with procId := i }).toOption.getD []

/-! ## The devices -/

/-- The queues a device gets if `nb` are asked for: for none at all, those its driver likes. -/
def Machine.queues (port nb : Nat) : Nat :=
  if nb = 0 then max 1 (m.defaultQueues port) else nb

/-- `rte_eth_dev_configure` and the calls after it: a device that was started is busy. -/
def devConfigure (nic : Nat → Option Nat) (p : Nat × Nat) : Except Exit (Nat → Option Nat) :=
  if m.maxQueues p.1 < p.2 then .error .tooManyQueues
  else if (nic p.1).isSome || m.fails p.1 then .error .device
  else .ok (update nic p.1 (some (m.queues p.1 p.2)))

/-- The devices in the order of `init_port_start`: each port after its slaves, then a virtio port
for each with KNI. -/
def devices : List (Nat × Nat) :=
  (c.portidList.flatMap fun port : Nat =>
    ((range (c.port port).nbSlaves).map (m.slaveId port) ++ [port]).map fun portId =>
      (portId, (c.port port).nbLcores)) ++
  if c.kniEnable then (range c.portidList.length).map fun i => (i + m.nbDevPorts, 1) else []

/-- `init_port_start` of the primary: the number of queues of each device. -/
def initPortStart : Except Exit (Nat → Option Nat) :=
  (devices m c).foldlM (devConfigure m) fun _ => none

/-! ## What is promised -/

/-- No process exits but for want of a queue, and no thread does. -/
def Started : Prop :=
  if c.threadMode then ∃ l, ffDpdkInit m c = .ok l
  else ∀ i < c.nbProcs, ffDpdkInit m { c with procId := i } = .error .nothingToDo ∨
    ∃ l, ffDpdkInit m { c with procId := i } = .ok l

/-- The lcores that serve a port, and its queues, are matched one to one, and the tables agree. -/
structure PortServed (confs : List (Nat × LcoreConf)) (port : Nat) : Prop where
  queue : ∀ q < (c.port port).nbLcores, ∃! e, e ∈ confs ∧ (port, q) ∈ e.2.rxQueueList
  lcore : ∀ e ∈ confs, ∀ q, (port, q) ∈ e.2.rxQueueList →
    q < (c.port port).nbLcores ∧ ∀ q', (port, q') ∈ e.2.rxQueueList → q' = q
  agree : ∀ e ∈ confs, ∀ q, (port, q) ∈ e.2.rxQueueList →
    e.2.txQueueId port = q ∧ e.2.nbQueueList port = (c.port port).nbLcores

/-- Each queue of each port is served by one lcore, set up on the device, and fits in its table. -/
structure QueuesServed : Prop where
  ports : ∀ port ∈ c.portidList, PortServed c (confs m c) port
  nic : ∀ nic, initPortStart m c = .ok nic →
    ∀ port ∈ c.portidList, nic port = some (c.port port).nbLcores
  room : ∀ e ∈ confs m c, e.2.rxQueueList.length ≤ maxRxQueuePerLcore

/-- No lcore is listed twice for a port, no port that is started is without lcores, and no lcore
serves more ports than it has room for. -/
structure QueuesSound : Prop where
  lcores : ∀ port ∈ c.portidList, (c.port port).lcores.Nodup
  nic : ∀ nic, initPortStart m c = .ok nic → ∀ port ∈ c.portidList, (c.port port).nbLcores ≠ 0
  room : ∀ lcore ∈ c.maskLcores,
    (c.portidList.filter fun port : Nat => decide (lcore ∈ (c.port port).lcores)).length ≤
      maxRxQueuePerLcore

/-! ## One lcore -/

/-- What `ff_rss_check` reads of it. -/
def LcoreConf.rss (lc : LcoreConf) : Rss.LcoreConf := ⟨lc.nbQueueList, lc.txQueueId⟩

/-- The port configuration as the RSS check reads it. -/
def Machine.rssPorts (port : Nat) : Rss.PortCfg where
  lcoreList := (c.port port).lcores
  slavePortidList := (range (c.port port).nbSlaves).map (m.slaveId port)

theorem PortCfg.length_lcores (p : PortCfg) : p.lcores.length = p.nbLcores := by
  simp [PortCfg.lcores]

theorem initLcorePort_rss (lcore : Nat) (lc : LcoreConf) (port : Nat) :
    (initLcorePort c lcore lc port).rss = Rss.initLcorePort (m.rssPorts c) lcore lc.rss port := by
  simp only [initLcorePort, Rss.initLcorePort, Machine.rssPorts]
  cases Rss.queueidOf lcore (c.port port).lcores with
  | none => rfl
  | some queueid =>
    simp only [LcoreConf.rss, Rss.PortCfg.nbLcores, PortCfg.length_lcores]

theorem lcoreQueues_rss (i : Nat) :
    (lcoreQueues c i).rss = Rss.initLcoreConf c.portidList (m.rssPorts c) (c.lcoreOf i) :=
  (foldl_hom LcoreConf.rss fun lc port => (initLcorePort_rss m c _ lc port).symm).symm

end

/-- The entries of `rx_queue_list`, one for each port the lcore is listed for. -/
theorem lcoreQueues_rx (c : Config) (i : Nat) : (lcoreQueues c i).rxQueueList =
    c.portidList.filterMap fun port : Nat =>
      (Rss.queueidOf (c.lcoreOf i) (c.port port).lcores).map fun queueid => (port, queueid) := by
  have hfold : ∀ (ports : List Nat) (lc : LcoreConf),
      (ports.foldl (initLcorePort c (c.lcoreOf i)) lc).rxQueueList =
        lc.rxQueueList ++ ports.filterMap fun port : Nat =>
          (Rss.queueidOf (c.lcoreOf i) (c.port port).lcores).map fun queueid =>
            (port, queueid) := by
    intro ports
    induction ports with
    | nil => simp
    | cons port ports ih =>
      intro lc
      rw [foldl_cons, ih]
      unfold initLcorePort
      cases hq : Rss.queueidOf (c.lcoreOf i) (c.port port).lcores <;> simp [hq]
  exact (hfold c.portidList (.zero i)).trans (nil_append _)

variable {c : Config} {m : Machine} {nic : Nat → Option Nat} {i port q lcore j : Nat}
  {opts : List Opt} {lines : List Line}

theorem mem_lcoreQueues_rx : (port, q) ∈ (lcoreQueues c i).rxQueueList ↔
      port ∈ c.portidList ∧ Rss.queueidOf (c.lcoreOf i) (c.port port).lcores = some q := by
  simp only [lcoreQueues_rx, mem_filterMap, Option.map_eq_some_iff, Prod.mk.injEq]
  constructor
  · rintro ⟨p, hp, q', hq, rfl, rfl⟩
    exact ⟨hp, hq⟩
  · rintro ⟨hp, hq⟩
    exact ⟨port, hp, q, hq, rfl, rfl⟩

theorem length_lcoreQueues_rx (c : Config) (i : Nat) : (lcoreQueues c i).rxQueueList.length =
    (c.portidList.filter fun port : Nat => decide (c.lcoreOf i ∈ (c.port port).lcores)).length := by
  rw [lcoreQueues_rx, ← countP_eq_length_filter, length_filterMap_eq_countP]
  refine countP_congr fun port _ => ?_
  rw [Option.isSome_map, decide_eq_true_iff, Option.isSome_iff_exists]
  exact ⟨fun ⟨q, hq⟩ => mem_of_getElem? (Rss.queueidOf_spec hq).1, Rss.queueidOf_of_mem⟩

/-! ## All of them -/

/-- The number of processes, or threads. -/
def Config.instances (c : Config) : Nat := if c.threadMode then c.nbThreads else c.nbProcs

theorem initLcore_ok {e : Nat × LcoreConf} (h : initLcore m c false i = .ok e) :
    e = (c.lcoreOf i, lcoreQueues c i) ∧ (lcoreQueues c i).rxQueueList ≠ [] := by
  unfold initLcore at h
  split_ifs at h with he hr
  cases h
  exact ⟨rfl, fun hnil => hr ⟨hnil, rfl⟩⟩

theorem ffDpdkInit_cases (m : Machine) (c : Config) :
    ffDpdkInit m c = .error .param ∨ ffDpdkInit m c = .error .noPort ∨
      (c.threadMode = true ∧ ffDpdkInit m c = (range c.nbThreads).mapM (initLcore m c false)) ∨
      (c.threadMode = false ∧ ffDpdkInit m c = (do
        let e ← initLcore m c (c.primarySlim && m.isPrimary c.procId.toNat) c.procId.toNat
        return [e])) := by
  unfold ffDpdkInit initLcoreConf
  split_ifs with h₁ h₂ ht
  · exact .inl rfl
  · exact .inr (.inl rfl)
  · exact .inr (.inr (.inl ⟨ht, rfl⟩))
  · exact .inr (.inr (.inr ⟨Bool.eq_false_iff.mpr ht, rfl⟩))

theorem ffDpdkInit_thread (ht : c.threadMode = true) {l : List (Nat × LcoreConf)}
    (h : ffDpdkInit m c = .ok l) : (range c.nbThreads).mapM (initLcore m c false) = .ok l := by
  rcases ffDpdkInit_cases m c with he | he | ⟨-, he⟩ | ⟨ht', -⟩
  · cases he.symm.trans h
  · cases he.symm.trans h
  · exact he.symm.trans h
  · exact absurd (ht'.symm.trans ht) Bool.false_ne_true

/-- A process that starts sets up its own lcore; another has none to set up. -/
theorem ffDpdkInit_process (ht : c.threadMode = false) (hslim : c.primarySlim = false)
    (h : ffDpdkInit m { c with procId := i } = .error .nothingToDo ∨
      ∃ l, ffDpdkInit m { c with procId := i } = .ok l) (e : Nat × LcoreConf) :
    e ∈ (ffDpdkInit m { c with procId := i }).toOption.getD [] ↔
      e = (c.lcoreOf i, lcoreQueues c i) ∧ (lcoreQueues c i).rxQueueList ≠ [] := by
  have hinit : ffDpdkInit m { c with procId := i } = (do
      let e ← initLcore m c false i
      return [e]) := by
    rcases ffDpdkInit_cases m { c with procId := i } with he | he | ⟨ht', -⟩ | ⟨-, he⟩
    · simp [he] at h
    · simp [he] at h
    · exact absurd (ht.symm.trans ht') Bool.false_ne_true
    · rw [he, hslim]
      rfl
  rw [hinit] at h ⊢
  unfold initLcore at h ⊢
  split_ifs at h ⊢ with he hr
  · obtain h | ⟨l, h⟩ := h <;> cases h
  · exact iff_of_false not_mem_nil fun h => h.2 hr.1
  · have hne : (lcoreQueues c i).rxQueueList ≠ [] := fun hnil => hr ⟨hnil, rfl⟩
    exact mem_singleton.trans (and_iff_left hne).symm

/-- The lcores that are set up are those with a queue. -/
theorem mem_confs (hmode : c.threadMode = true ∨ c.primarySlim = false) (h : Started m c)
    (e : Nat × LcoreConf) : e ∈ confs m c ↔
      ∃ i < c.instances, e = (c.lcoreOf i, lcoreQueues c i) ∧
        (lcoreQueues c i).rxQueueList ≠ [] := by
  unfold Started at h
  unfold confs Config.instances
  by_cases ht : c.threadMode = true
  · rw [if_pos ht] at h
    obtain ⟨l, hl⟩ := h
    have hmem := Run.mapM_ok (ffDpdkInit_thread ht hl)
    rw [if_pos ht, if_pos ht, hl]
    constructor
    · intro he
      obtain ⟨i, hi, hie⟩ := hmem.2 e he
      exact ⟨i, mem_range.mp hi, initLcore_ok hie⟩
    · rintro ⟨i, hi, rfl, -⟩
      obtain ⟨e, he, hie⟩ := hmem.1 i (mem_range.mpr hi)
      exact (initLcore_ok hie).1 ▸ he
  · have hslim : c.primarySlim = false := hmode.resolve_left ht
    rw [if_neg ht] at h
    rw [if_neg ht, if_neg ht, mem_flatMap]
    have hf : c.threadMode = false := Bool.eq_false_iff.mpr ht
    constructor
    · rintro ⟨i, hi, he⟩
      have hi : i < c.nbProcs := mem_range.mp hi
      exact ⟨i, hi, (ffDpdkInit_process hf hslim (h i hi) e).mp he⟩
    · rintro ⟨i, hi, he⟩
      exact ⟨i, mem_range.mpr hi, (ffDpdkInit_process hf hslim (h i hi) e).mpr he⟩

/-- A device keeps the queues it was started with. -/
theorem initPortStart_of_mem (h : initPortStart m c = .ok nic) {p : Nat × Nat}
    (hp : p ∈ devices m c) : nic p.1 = some (m.queues p.1 p.2) := by
  unfold initPortStart at h
  obtain ⟨pre, post, heq⟩ := append_of_mem hp
  rw [heq] at h
  obtain ⟨nic₁, nic₂, -, hstep, hpost⟩ := Run.foldlM_split h
  refine Run.foldlM_invariant (P := fun nic => nic p.1 = some (m.queues p.1 p.2))
    (fun d _ t t' ht hP => ?_) hpost ?_
  · unfold devConfigure at ht
    split_ifs at ht with h₁ h₂
    cases ht
    have hne : p.1 ≠ d.1 := by
      rintro heq
      simp [← heq, hP] at h₂
    rw [update_of_ne hne, hP]
  · unfold devConfigure at hstep
    split_ifs at hstep
    cases hstep
    exact update_self _ _ _

theorem mem_devices (h : port ∈ c.portidList) : (port, (c.port port).nbLcores) ∈ devices m c :=
  mem_append_left _ (mem_flatMap.mpr ⟨port, h, mem_map.mpr ⟨port, by simp, rfl⟩⟩)

variable {b : Config}

theorem Loaded.lcoreOf_lt (h : Loaded opts lines b c) (hij : i < j) (hj : j < c.instances) :
    c.lcoreOf i < c.lcoreOf j := by
  unfold Config.lcoreOf
  rw [h.frame.2.2.2.1]
  refine h.mask.increasing i j hij ?_
  obtain ⟨ht, rfl⟩ | ⟨ht, -, rfl⟩ := h.final
  · simpa [Config.instances, ht] using hj
  · simpa [Config.instances, collapse, ht] using hj

theorem Loaded.lcoreOf_inj (h : Loaded opts lines b c) (hi : i < c.instances) (hj : j < c.instances)
    (heq : c.lcoreOf i = c.lcoreOf j) : i = j := by
  rcases Nat.lt_trichotomy i j with hlt | rfl | hlt
  · exact absurd heq (Nat.ne_of_lt (h.lcoreOf_lt hlt hj))
  · rfl
  · exact absurd heq.symm (Nat.ne_of_lt (h.lcoreOf_lt hlt hi))

theorem mem_maskLcores : lcore ∈ c.maskLcores ↔ ∃ i < c.instances, c.lcoreOf i = lcore := by
  simp [Config.maskLcores, Config.instances, Config.lcoreOf]

/-- A listed lcore is that of a process or thread. -/
theorem Loaded.listed (h : Loaded opts lines b c) (hp : port ∈ c.portidList)
    (hl : lcore ∈ (c.port port).lcores) : ∃ i < c.instances, c.lcoreOf i = lcore := by
  obtain ⟨hlist, -, -, -, -, -, -, hmask⟩ := h.frame
  rw [hlist] at hp
  rw [h.port_eq] at hl
  exact mem_maskLcores.mp (hmask ▸ (h.checked port hp).2 lcore hl)

/-! ## The queues of a port -/

/-- Two places of one lcore leave a queue without an lcore. -/
theorem nodup_of_served (hmem : ∀ e ∈ confs m c, ∃ i, e.2 = lcoreQueues c i)
    (h : PortServed c (confs m c) port) : (c.port port).lcores.Nodup := by
  rw [nodup_iff_getElem?_ne_getElem?]
  intro i j hij hj heq
  rw [PortCfg.length_lcores] at hj
  obtain ⟨e, ⟨he, hrx⟩, -⟩ := h.queue i (hij.trans hj)
  obtain ⟨k, hk⟩ := hmem e he
  rw [hk] at hrx
  obtain ⟨hi, hlast⟩ := Rss.queueidOf_spec (mem_lcoreQueues_rx.mp hrx).2
  have := hlast j (heq ▸ hi)
  omega

theorem queueidOf_of_nodup {lcores : List Nat} (h : lcores.Nodup) (hq : lcores[q]? = some lcore) :
    Rss.queueidOf lcore lcores = some q := by
  obtain ⟨q', hq'⟩ := Rss.queueidOf_of_mem (mem_of_getElem? hq)
  have hlt := (List.getElem?_eq_some_iff.mp hq).1
  rw [hq', (getElem?_inj hlt h).mp (hq.trans (Rss.queueidOf_spec hq').1.symm)]

theorem served_of_nodup (hb : Loaded opts lines b c) (hmem : ∀ e, e ∈ confs m c ↔ ∃ i < c.instances,
      e = (c.lcoreOf i, lcoreQueues c i) ∧ (lcoreQueues c i).rxQueueList ≠ [])
    (hp : port ∈ c.portidList) (h : (c.port port).lcores.Nodup) :
    PortServed c (confs m c) port where
  queue := by
    intro q hq
    rw [← PortCfg.length_lcores] at hq
    obtain ⟨i, hi, hlcore⟩ := hb.listed hp (getElem_mem hq)
    have hat : (c.port port).lcores[q]? = some (c.lcoreOf i) := by
      rw [hlcore, getElem?_eq_getElem hq]
    have hrx : (port, q) ∈ (lcoreQueues c i).rxQueueList :=
      mem_lcoreQueues_rx.mpr ⟨hp, queueidOf_of_nodup h hat⟩
    refine ⟨(c.lcoreOf i, lcoreQueues c i), ⟨(hmem _).mpr ⟨i, hi, rfl, ne_nil_of_mem hrx⟩, hrx⟩, ?_⟩
    rintro e ⟨he, hrx'⟩
    obtain ⟨j, hj, rfl, -⟩ := (hmem e).mp he
    have hat' := (Rss.queueidOf_spec (mem_lcoreQueues_rx.mp hrx').2).1
    rw [hb.lcoreOf_inj hj hi (Option.some.inj (hat'.symm.trans hat))]
  lcore := by
    intro e he q hq
    obtain ⟨i, -, rfl, -⟩ := (hmem e).mp he
    obtain ⟨-, hqueue⟩ := mem_lcoreQueues_rx.mp hq
    refine ⟨PortCfg.length_lcores _ ▸ Rss.queueidOf_lt hqueue, fun q' hq' => ?_⟩
    exact Option.some.inj ((mem_lcoreQueues_rx.mp hq').2.symm.trans hqueue)
  agree := by
    intro e he q hq
    obtain ⟨i, -, rfl, -⟩ := (hmem e).mp he
    obtain ⟨-, hqueue⟩ := mem_lcoreQueues_rx.mp hq
    have hserves : (Rss.initLcoreConf c.portidList (m.rssPorts c) (c.lcoreOf i)).Serves port
        (m.rssPorts c port).nbLcores q := Rss.initLcoreConf_of_mem hqueue hp
    rw [← lcoreQueues_rss] at hserves
    exact ⟨hserves.2, hserves.1.trans (PortCfg.length_lcores _)⟩

theorem not_served_of_dup (port : Nat) (hmode : c.threadMode = true ∨ c.primarySlim = false)
    (hstart : Started m c) (hp : port ∈ c.portidList) (hdup : ¬ (c.port port).lcores.Nodup) :
    ¬ QueuesServed m c := by
  refine fun h => hdup (nodup_of_served (fun e he => ?_) (h.ports port hp))
  obtain ⟨i, -, rfl, -⟩ := (mem_confs hmode hstart e).mp he
  exact ⟨i, rfl⟩

theorem not_served_of_empty (port : Nat) (hnic : initPortStart m c = .ok nic)
    (hp : port ∈ c.portidList) (hempty : (c.port port).nbLcores = 0) : ¬ QueuesServed m c := by
  intro h
  have hq := (initPortStart_of_mem hnic (mem_devices hp)).symm.trans (h.nic nic hnic port hp)
  simp [hempty, Machine.queues] at hq

/-- **Every queue of every port is served by one lcore exactly if the configuration is sound.** -/
theorem queues_served_iff (opts : List Opt) (lines : List Line) (oob : Int → Nat) (c : Config)
    (argc : Nat) (h : ffLoadConfig opts lines oob = .ok (c, argc))
    (hmode : c.threadMode = true ∨ c.primarySlim = false) (m : Machine) (hstart : Started m c) :
    QueuesServed m c ↔ QueuesSound m c := by
  obtain ⟨⟨b, hb⟩, -⟩ := load_parts h
  have hmem := mem_confs hmode hstart
  constructor
  · intro hs
    refine ⟨fun port hp => ?_, fun nic hnic port hp hzero => ?_, fun lcore hl => ?_⟩
    · by_contra hdup
      exact not_served_of_dup port hmode hstart hp hdup hs
    · exact not_served_of_empty port hnic hp hzero hs
    · obtain ⟨i, hi, rfl⟩ := mem_maskLcores.mp hl
      rw [← length_lcoreQueues_rx]
      by_cases hnil : (lcoreQueues c i).rxQueueList = []
      · simp [hnil]
      · exact hs.room _ ((hmem _).mpr ⟨i, hi, rfl, hnil⟩)
  · intro hs
    refine ⟨fun port hp => served_of_nodup hb hmem hp (hs.lcores port hp),
      fun nic hnic port hp => ?_, fun e he => ?_⟩
    · rw [initPortStart_of_mem hnic (mem_devices hp), Machine.queues,
        if_neg (hs.nic nic hnic port hp)]
    · obtain ⟨i, hi, rfl, -⟩ := (hmem e).mp he
      rw [length_lcoreQueues_rx]
      exact hs.room _ (mem_maskLcores.mpr ⟨i, hi, rfl⟩)

/-- A machine with everything. -/
def bigMachine : Machine where
  nbDevPorts := 32
  enabled := fun _ => true
  isPrimary := fun i => i == 0
  maxQueues := fun _ => 128
  defaultQueues := fun _ => 0
  slaveId := fun _ _ => 0
  fails := fun _ => false

theorem started_of_two (ht : c.threadMode = false) (hn : c.nbProcs = 2)
    (h₀ : ∃ l, ffDpdkInit m { c with procId := (0 : Nat) } = .ok l)
    (h₁ : ∃ l, ffDpdkInit m { c with procId := (1 : Nat) } = .ok l) : Started m c := by
  unfold Started
  rw [if_neg (Bool.eq_false_iff.mp ht)]
  intro i hi
  rw [hn] at hi
  right
  match i with
  | 0 => exact h₀
  | 1 => exact h₁

theorem queues_served_twoLcores : ∃ c argc,
    ffLoadConfig [.procId ['1']] twoLcores (fun _ => 0) = .ok (c, argc) ∧
      Started bigMachine c ∧ QueuesServed bigMachine c := by
  refine ⟨_, _, rfl, started_of_two rfl rfl ⟨_, rfl⟩ ⟨_, rfl⟩,
    (queues_served_iff [.procId ['1']] twoLcores (fun _ => 0) _ _ rfl (.inr rfl) bigMachine
      (started_of_two rfl rfl ⟨_, rfl⟩ ⟨_, rfl⟩)).mpr ⟨?_, ?_, ?_⟩⟩
  · rintro port (_ | ⟨_, ⟨⟩⟩)
    decide
  · rintro nic - port (_ | ⟨_, ⟨⟩⟩)
    decide
  · intro lcore _
    exact (length_filter_le _ _).trans (by decide)

/-- An lcore that is listed twice; a port without lcores, for a mask that comes too late. -/
theorem queues_not_served :
    (∃ c argc, ffLoadConfig [.procId ['1']]
      (twoLcores ++ [.port ['0'] .lcoreList ['0', ',', '0', ',', '1']]) (fun _ => 0) =
        .ok (c, argc) ∧ Started bigMachine c ∧ ¬ QueuesServed bigMachine c) ∧
    ∃ c argc, ffLoadConfig [.procId ['0']]
      ([.portList ['0', ',', '1'] fun _ => 0] ++ addresses ['0'] ++ addresses ['1'] ++
        [.port ['1'] .lcoreList ['0', '-', '1'], .lcoreMask ['3']]) (fun _ => 0) =
        .ok (c, argc) ∧ Started bigMachine c ∧ ¬ QueuesServed bigMachine c := by
  constructor
  · refine ⟨_, _, rfl, started_of_two rfl rfl ⟨_, rfl⟩ ⟨_, rfl⟩, not_served_of_dup 0
      (.inr rfl) (started_of_two rfl rfl ⟨_, rfl⟩ ⟨_, rfl⟩) mem_cons_self ?_⟩
    decide
  · exact ⟨_, _, rfl, started_of_two rfl rfl ⟨_, rfl⟩ ⟨_, rfl⟩, not_served_of_empty 0
      rfl mem_cons_self rfl⟩

end FStack.Conf
