import FStack.Conf.Lines

/-!
# Accepted configurations

What `ff_load_config` should promise of a configuration it accepts is `Consistent`. The order of the
lcores, that the lcores of the ports in use are in the mask, and that a port is not beyond the
greatest of its list always hold. The rest is not checked, or not quite:

* the id of the process is cut to 16 bits before it is compared (`ff_config.c:1353`), and compared
  with the number of lcores only if there is a mask;
* a list may have one number more than its array has room for (`ff_config.c:280`, `302`), an empty
  range leaves the array as it was (`ff_config.c:311`), and a port may get any number of vlans;
* a port number is not compared with the size of `port_cfgs`, nor `owner_proc_id` with the number of
  processes;
* the arguments for the EAL are counted for `extra_eal_args` only.

`Sound` says this of the options and of the lines that are in force in the end: those of the lists,
and the last line of each setting (`lastSettings`).

Results:
* `load_consistent_iff`: an accepted configuration is consistent exactly if it is sound.
* `load_not_consistent`: accepted configurations that are not.
-/

namespace FStack.Conf

open List FStack.Lib

/-! ## What is promised -/

/-- The lcores of the mask. -/
def Config.maskLcores (c : Config) : List Nat :=
  (List.range (if c.threadMode then c.nbThreads else c.nbProcs)).map (c.procLcore.getD fun _ => 0)

/-- What is promised of a configuration and of the number of arguments for the EAL. -/
structure Consistent (c : Config) (argc : Nat) : Prop where
  procId : 0 ≤ c.procId ∧ c.procId < c.nbProcs
  increasing : ∃ arr, c.procLcore = some arr ∧ ∀ i j, i < j → j < c.nbProcs → arr i < arr j
  lcores : ∀ port ∈ c.portidList, ∀ lcore ∈ (c.port port).lcores, lcore ∈ c.maskLcores
  lengths : c.nbProcs ≤ maxLcore ∧ c.maskLcores.length ≤ maxLcore ∧
    c.portidList.length ≤ maxEthports ∧ c.nbVlanFilter ≤ dpdkMaxVlanFilter ∧
    c.nbRssTbl ≤ rssTblMaxEntries ∧ argc ≤ dpdkConfigNum + 1
  portLengths : ∀ p, (c.port p).nbLcores ≤ dpdkMaxLcore ∧ (c.port p).nbSlaves ≤ maxEthports ∧
    (c.port p).nbVlan ≤ dpdkMaxVlanFilter
  ports : ∀ port ∈ c.portidList, port ≤ c.maxPortid ∧ port < maxEthports ∧ c.portCfgs.isSome = true
  owner : c.primarySlim = true → c.kniEnable = true → 0 ≤ c.ownerProcId ∧ c.ownerProcId < c.nbProcs

/-! ## What makes it hold -/

/-- The id of the process on the command line. -/
def givenProcId (opts : List Opt) : Int :=
  opts.foldl (fun id opt => match opt with
    | .procId arg => atoi arg
    | _ => id) (-1)

/-- The configuration when the file is read. -/
def startConfig (opts : List Opt) : Config := (ffParseArgs opts).toOption.getD Config.default

/-- A list of ports that fits, of ports there can be; for an empty one, what the array held is such
a list. -/
def PortsSound (vj : Text × (Nat → Nat)) : Prop :=
  match parseConfigList maxEthports vj.1 with
  | none => True
  | some [] => ∀ i < maxEthports, vj.2 i < maxEthports ∧ vj.2 i ≤ vj.2 (maxEthports - 1)
  | some l => l.length ≤ maxEthports ∧ ∀ port ∈ l, port < maxEthports

/-- The settings that the lines make: each is what the last line of its key says. -/
def lastSettings (opts : List Opt) (lines : List Line) : Config :=
  let value (k : Key) := Run.lastWrite iniParseHandler (keyLine k) (startConfig opts) lines
  let flag (k : Key) := ((value k).map fun v => atoi v != 0).getD false
  { Config.default with
    logLevel := ((value .logLevel).map fun v => toU16 (atoi v) != 0).getD false
    nbChannel := flag .channel
    memory := flag .memory
    noHuge := flag .noHuge
    threadMode := flag .threadMode
    primarySlim := flag .primarySlim
    baseVirtaddr := ((value .baseVirtaddr).map fun _ => true).getD false
    filePrefix := ((value .filePrefix).map fun _ => true).getD false
    allow := ((value .allow).map some).getD none
    nbVdev := ((value .nbVdev).map atoi).getD 0
    nbBond := ((value .nbBond).map atoi).getD 0
    kniEnable := flag .kniEnable
    ownerProcId := ((value .ownerProcId).map atoi).getD 0 }

/-- The number of lcores in the last mask. -/
def lastLcores (opts : List Opt) (lines : List Line) : Nat :=
  ((Run.lastWrite iniParseHandler maskLine (startConfig opts) lines).map id).getD 0

/-- The arguments for the EAL that the settings ask for, without `extra_eal_args`. -/
def Config.ownArgs (c : Config) : Nat :=
  2 + c.noHuge.toNat + c.nbChannel.toNat + c.memory.toNat + c.logLevel.toNat +
    c.baseVirtaddr.toNat + c.filePrefix.toNat + c.allow.elim 0 (strtokCount ',') +
    (if c.nbVdev = 0 then 0 else c.nbVdev.toNat + 1 + (!c.filePrefix).toNat) + 2 * c.nbBond.toNat

/-- The options and the lines make a consistent configuration, if it is accepted. Of the arguments,
the mask is one more. -/
structure Sound (opts : List Opt) (lines : List Line) : Prop where
  mask : ∃ v, Line.lcoreMask v ∈ lines
  procId : (lastSettings opts lines).threadMode = true ∨ 0 ≤ givenProcId opts ∨
    maxLcore < toU16 (givenProcId opts)
  ports : ∀ vj, Run.lastWrite iniParseHandler portsLine (startConfig opts) lines = some vj →
    PortsSound vj
  vlanFilter : ∀ n, Run.lastWrite iniParseHandler vlanFilterLine (startConfig opts) lines = some n →
    n ≤ dpdkMaxVlanFilter
  lcores : ∀ p n, Run.lastWrite iniParseHandler (portListLine .lcoreList dpdkMaxLcore p)
    (startConfig opts) lines = some n → n ≤ dpdkMaxLcore
  slaves : ∀ p n, Run.lastWrite iniParseHandler (portListLine .slavePortList maxEthports p)
    (startConfig opts) lines = some n → n ≤ maxEthports
  vlans : ∀ p, Run.countHits iniParseHandler (vlanLine p) (startConfig opts) lines ≤
    dpdkMaxVlanFilter
  args : (lastSettings opts lines).ownArgs ≤ dpdkConfigNum
  owner : (lastSettings opts lines).primarySlim = true → (lastSettings opts lines).kniEnable = true →
    0 ≤ (lastSettings opts lines).ownerProcId ∧
      (lastSettings opts lines).ownerProcId < lastLcores opts lines

/-! ## The command line -/

variable {opts : List Opt} {c c' b : Config} {u : Unit} {l : List Nat} {oob : Int → Nat} {x : Nat}
  {lines : List Line}

theorem parseOpts_eq (h : opts.foldlM parseOpt c = .ok c') :
    c' = { c with procId := c'.procId, procType := c'.procType } ∧
      c'.procId = opts.foldl (fun id opt => match opt with
        | .procId arg => atoi arg
        | _ => id) c.procId := by
  induction opts generalizing c with
  | nil =>
    cases h
    exact ⟨rfl, rfl⟩
  | cons opt opts ih =>
    obtain ⟨c₁, h₁, h₂⟩ := Run.foldlM_cons_eq_ok.1 h
    obtain ⟨heq, hid⟩ := ih h₂
    cases opt with
    | unknown => cases h₁
    | conf | procId _ | procType _ =>
      cases h₁
      exact ⟨heq, hid⟩

/-- What the command line leaves to the file. -/
theorem ffParseArgs_spec (h : ffParseArgs opts = .ok c) :
    c = { Config.default with procId := c.procId, procType := c.procType } ∧
      (0 ≤ c.procId ↔ 0 ≤ givenProcId opts ∨ maxLcore < toU16 (givenProcId opts)) := by
  obtain ⟨c₁, h₁, h⟩ := Run.bind_eq_ok.1 h
  obtain ⟨heq, hid⟩ := parseOpts_eq h₁
  have hgiven : c₁.procId = givenProcId opts := hid
  split at h
  · cases h
  · split at h
    next hbig =>
      cases h
      rw [hgiven] at hbig
      exact ⟨by rw [heq], by simp [hbig]⟩
    next hsmall =>
      cases h
      rw [hgiven] at hsmall
      exact ⟨heq, by simp [hgiven, hsmall]⟩

/-! ## The check -/

theorem check_ok {ok : Bool} (h : check ok = .ok u) : ok = true := by
  unfold check at h
  split at h
  · assumption
  · cases h

theorem forM_ok {f : Nat → Except Fail Unit} (h : l.forM f = .ok u) : ∀ a ∈ l, f a = .ok () := by
  induction l with
  | nil => nofun
  | cons a l ih =>
    obtain ⟨_, ha, hl⟩ := Run.bind_eq_ok.1 h
    intro b hb
    rcases mem_cons.mp hb with rfl | hb
    · exact ha
    · exact ih hl b hb

/-- The search finds what is there, in an array in order. -/
theorem binarySearch_iff {arr : Nat → Nat} : ∀ {fuel l n : Nat}, n < fuel →
    (∀ i j, i < j → j < l + n → arr i < arr j) →
      (binarySearch arr x fuel l n = true ↔ ∃ i, l ≤ i ∧ i < l + n ∧ arr i = x)
  | 0, l, n, hfuel, _ => absurd hfuel (Nat.not_lt_zero _)
  | fuel + 1, l, n, hfuel, hinc => by
    unfold binarySearch
    by_cases hn : n = 0
    · rw [if_pos hn]
      constructor
      · nofun
      · rintro ⟨i, h₁, h₂, -⟩
        omega
    · rw [if_neg hn]
      dsimp only
      split
      next hmid => exact iff_of_true rfl ⟨l + (n - 1) / 2, by omega, by omega, hmid⟩
      next hmid =>
        split
        · -- everything from the middle on is greater
          rw [binarySearch_iff (by omega) fun i j hij hj => hinc i j hij (by omega)]
          refine exists_congr fun i => and_congr_right fun hi => ?_
          constructor
          · rintro ⟨h, hx⟩
            exact ⟨by omega, hx⟩
          · rintro ⟨h, hx⟩
            refine ⟨?_, hx⟩
            by_contra hge
            rcases lt_or_eq_of_le (not_lt.1 hge) with hlt' | heq
            · have := hinc _ _ hlt' h
              omega
            · exact hmid (heq ▸ hx)
        · -- everything up to the middle is less
          rw [binarySearch_iff (by omega) fun i j hij hj => hinc i j hij (by omega)]
          refine exists_congr fun i => ?_
          constructor
          · rintro ⟨h₁, h₂, hx⟩
            exact ⟨by omega, by omega, hx⟩
          · rintro ⟨h₁, h₂, hx⟩
            refine ⟨?_, by omega, hx⟩
            by_contra hlt
            rcases Nat.lt_or_eq_of_le (Nat.le_of_not_lt hlt) with hlt' | heq
            · have := hinc i (l + (n - 1) / 2) (by omega) (by omega)
              omega
            · exact hmid (heq ▸ hx)

theorem checkPort_ok {p : Nat} (h : checkPort c oob p = .ok ()) :
    c.portCfgs.isSome = true ∧ ∀ lcore ∈ (c.port p).lcores,
      binarySearch (c.procLcore.getD fun _ => 0) lcore (c.nbProcs + 1) 0 c.nbProcs = true := by
  obtain ⟨pc, hpc, h⟩ := Run.bind_eq_ok.1 h
  obtain ⟨-, -, h⟩ := Run.bind_eq_ok.1 h
  obtain ⟨_, hall, -⟩ := Run.bind_eq_ok.1 h
  unfold Config.portAt at hpc
  cases hpcs : c.portCfgs with
  | none =>
    rw [hpcs] at hpc
    cases hpc
  | some pcs =>
    rw [hpcs] at hpc
    cases hpc
    refine ⟨rfl, ?_⟩
    rw [port_of_some hpcs]
    exact fun lcore hl => all_eq_true.mp (check_ok hall) lcore hl

theorem ffCheckConfig_ok (h : ffCheckConfig c oob = .ok c') :
    (∀ p ∈ c.portidList, checkPort c oob p = .ok ()) ∧
      (c.threadMode = false ∧ c' = c ∨
        c.threadMode = true ∧ c.primarySlim = false ∧ c' = collapse c) := by
  obtain ⟨-, -, h⟩ := Run.bind_eq_ok.1 h
  obtain ⟨-, -, h⟩ := Run.bind_eq_ok.1 h
  obtain ⟨-, -, h⟩ := Run.bind_eq_ok.1 h
  obtain ⟨_, hports, h⟩ := Run.bind_eq_ok.1 h
  obtain ⟨-, -, h⟩ := Run.bind_eq_ok.1 h
  obtain ⟨_, hslim, h⟩ := Run.bind_eq_ok.1 h
  obtain ⟨-, -, h⟩ := Run.bind_eq_ok.1 h
  refine ⟨forM_ok hports, ?_⟩
  cases ht : c.threadMode with
  | false =>
    rw [ht] at h
    cases h
    exact .inl ⟨rfl, rfl⟩
  | true =>
    rw [ht] at h
    obtain ⟨-, -, h⟩ := Run.bind_eq_ok.1 h
    cases h
    have hslim := check_ok hslim
    rw [ht] at hslim
    exact .inr ⟨rfl, by simpa using hslim, rfl⟩

/-! ## The settings and the arguments -/

theorem settings_lines (h : lines.foldlM iniParseHandler (startConfig opts) = .ok c)
    (hstart : (startConfig opts).settings = Config.default.settings) :
    c.settings = lastSettings opts lines := by
  have hkey {γ : Type} (read : Config → γ) (k : Key) (g : Text → γ)
      (hset : ∀ c v k', read (setKey c v k') = if k' = k then g v else read c)
      (hkept : ∀ c, read c.settings = read c) :
      read c = ((Run.lastWrite iniParseHandler (keyLine k) (startConfig opts) lines).map g).getD
        (read Config.default) := by
    rw [key_lines h read k hset hkept, ← hkept (startConfig opts), hstart, hkept]
  have hflag (read : Config → Bool) (k : Key) := hkey read k fun v => atoi v != 0
  unfold Config.settings
  rw [hkey Config.logLevel .logLevel (fun v => toU16 (atoi v) != 0)
      (fun _ _ k => by cases k <;> rfl) fun _ => rfl,
    hflag Config.nbChannel .channel (fun _ _ k => by cases k <;> rfl) fun _ => rfl,
    hflag Config.memory .memory (fun _ _ k => by cases k <;> rfl) fun _ => rfl,
    hflag Config.noHuge .noHuge (fun _ _ k => by cases k <;> rfl) fun _ => rfl,
    hflag Config.threadMode .threadMode (fun _ _ k => by cases k <;> rfl) fun _ => rfl,
    hflag Config.primarySlim .primarySlim (fun _ _ k => by cases k <;> rfl) fun _ => rfl,
    hkey Config.baseVirtaddr .baseVirtaddr (fun _ => true) (fun _ _ k => by cases k <;> rfl)
      fun _ => rfl,
    hkey Config.filePrefix .filePrefix (fun _ => true) (fun _ _ k => by cases k <;> rfl) fun _ => rfl,
    hkey Config.allow .allow some (fun _ _ k => by cases k <;> rfl) fun _ => rfl,
    hkey Config.nbVdev .nbVdev atoi (fun _ _ k => by cases k <;> rfl) fun _ => rfl,
    hkey Config.nbBond .nbBond atoi (fun _ _ k => by cases k <;> rfl) fun _ => rfl,
    hflag Config.kniEnable .kniEnable (fun _ _ k => by cases k <;> rfl) fun _ => rfl,
    hkey Config.ownerProcId .ownerProcId atoi (fun _ _ k => by cases k <;> rfl) fun _ => rfl]
  rfl

/-- The tokens of `extra_eal_args` never make too many arguments. -/
theorem dpdkArgsSetup_le_iff {n : Nat} (h : dpdkArgsSetup c = .ok n) :
    n ≤ dpdkConfigNum + 1 ↔ c.ownArgs + c.procMask.toNat ≤ dpdkConfigNum + 1 := by
  unfold dpdkArgsSetup at h
  unfold Config.ownArgs
  dsimp only at h
  split at h
  next hvdev =>
    rw [if_neg hvdev]
    split at h
    · cases h
    · split at h
      · split at h <;> cases h
        omega
      · cases h
        omega
  next hvdev =>
    rw [if_pos (not_not.1 hvdev)]
    split at h
    · split at h <;> cases h
      omega
    · cases h
      omega

/-! ## The two together -/

theorem range_map_overwrite (arr : Nat → Nat) (l : List Nat) :
    (range l.length).map (overwrite arr l) = l := by
  refine ext_getElem (by simp) fun i h₁ h₂ => ?_
  simp [overwrite, h₂]

theorem le_getLast_of_sorted (hl : l.Pairwise (· ≤ ·)) (hx : x ∈ l) :
    x ≤ l.getLast (ne_nil_of_mem hx) := by
  obtain ⟨i, hi, rfl⟩ := mem_iff_getElem.mp hx
  rw [getLast_eq_getElem]
  rcases lt_or_ge i (l.length - 1) with h | h
  · exact pairwise_iff_getElem.mp hl i _ hi (by omega) h
  · have : i = l.length - 1 := by omega
    subst this
    exact le_refl _

/-- What a line of `port_list` stores is in order, and fits exactly if the line is sound. -/
theorem portsOf_iff (vj : Text × (Nat → Nat)) :
    ((∀ port ∈ (portsOf vj).1, port ≤ (portsOf vj).2 ∧ port < maxEthports) ∧
      (portsOf vj).1.length ≤ maxEthports) ↔ PortsSound vj := by
  unfold portsOf storeList PortsSound
  cases hl : parseConfigList maxEthports vj.1 with
  | none => simp
  | some l =>
    cases l with
    | nil =>
      simp only [mem_map, mem_range, forall_exists_index, and_imp,
        forall_apply_eq_imp_iff₂, length_map, length_range, le_refl, and_true]
      exact forall₂_congr fun i _ => and_comm
    | cons x l =>
      have hsorted := parseConfigList_sorted hl
      simp only [range_map_overwrite]
      refine and_comm.trans (and_congr_right fun _ => forall₂_congr fun port hport => ?_)
      refine and_iff_right_of_imp fun _ => ?_
      have hlast : overwrite vj.2 (x :: l) ((x :: l).length - 1) =
          (x :: l).getLast (cons_ne_nil x l) := by
        simp [overwrite, getLast_eq_getElem]
      rw [hlast]
      exact le_getLast_of_sorted hsorted hport

/-- The configuration before the check, and how the accepted one comes of it. -/
structure Loaded (opts : List Opt) (lines : List Line) (b c : Config) : Prop where
  mask : MaskInv b
  isSome : b.procLcore.isSome = true ↔ ∃ v, Line.lcoreMask v ∈ lines
  procId : 0 ≤ b.procId ↔ 0 ≤ givenProcId opts ∨ maxLcore < toU16 (givenProcId opts)
  ports : (b.portidList, b.maxPortid) = ((Run.lastWrite iniParseHandler portsLine
    (startConfig opts) lines).map portsOf).getD ([], 0)
  vlanFilter : b.nbVlanFilter = ((Run.lastWrite iniParseHandler vlanFilterLine
    (startConfig opts) lines).map id).getD 0
  lcores : ∀ p, decide ((b.port p).nbLcores ≤ dpdkMaxLcore) = ((Run.lastWrite iniParseHandler
    (portListLine .lcoreList dpdkMaxLcore p) (startConfig opts) lines).map
      fun n => decide (n ≤ dpdkMaxLcore)).getD true
  slaves : ∀ p, (b.port p).nbSlaves = ((Run.lastWrite iniParseHandler
    (portListLine .slavePortList maxEthports p) (startConfig opts) lines).map id).getD 0
  vlans : ∀ p, (b.port p).nbVlan =
    Run.countHits iniParseHandler (vlanLine p) (startConfig opts) lines
  rss : b.nbRssTbl ≤ rssTblMaxEntries
  checked : ∀ p ∈ b.portidList, b.portCfgs.isSome = true ∧ ∀ lcore ∈ (b.port p).lcores,
    lcore ∈ (List.range b.nbProcs).map (b.procLcore.getD fun _ => 0)
  final : b.threadMode = false ∧ c = b ∨
    b.threadMode = true ∧ b.primarySlim = false ∧ c = collapse b
  settings : b.settings = lastSettings opts lines
  nbProcs : b.nbProcs = lastLcores opts lines
  procMask : b.procMask = (b.procLcore.isSome && decide (0 ≤ b.procId)) ∧
    b.lcoreMask = b.procLcore.isSome

theorem MaskInv.increasing (h : MaskInv c) (i j : Nat) (hij : i < j) (hj : j < c.nbProcs) :
    (c.procLcore.getD fun _ => 0) i < (c.procLcore.getD fun _ => 0) j := by
  cases h with
  | unset hl hn =>
    rw [hn] at hj
    exact absurd hj (Nat.not_lt_zero j)
  | set l hl hn hinc hlen hid =>
    rw [hn] at hj
    have hi : i < l.length := hij.trans hj
    simp only [hl, Option.getD_some, getElem?_eq_getElem hi, getElem?_eq_getElem hj]
    exact pairwise_iff_getElem.mp hinc i j hi hj hij

theorem load_parts {argc : Nat} (h : ffLoadConfig opts lines oob = .ok (c, argc)) :
    (∃ b, Loaded opts lines b c) ∧ dpdkArgsSetup c = .ok argc := by
  obtain ⟨b₀, h₀, h⟩ := Run.bind_eq_ok.1 h
  obtain ⟨b, hb, h⟩ := Run.bind_eq_ok.1 h
  obtain ⟨c', hc, h⟩ := Run.bind_eq_ok.1 h
  obtain ⟨n, hargs, h⟩ := Run.bind_eq_ok.1 h
  cases h
  obtain ⟨heq, hid⟩ := ffParseArgs_spec h₀
  have hstart : startConfig opts = b₀ := by
    unfold startConfig
    rw [h₀]
    rfl
  obtain ⟨hports, hfinal⟩ := ffCheckConfig_ok hc
  have hmask : MaskInv b := maskInv_lines hb (.unset (by rw [heq]; rfl) (by rw [heq]; rfl))
  refine ⟨⟨b, hmask, procLcore_lines hb (by rw [heq]; rfl), ?_, ?_, ?_, fun p => ?_, fun p => ?_,
    fun p => ?_, nbRssTbl_lines hb (by rw [heq]; exact Nat.zero_le _), fun p hp => ?_, hfinal,
    settings_lines (hstart ▸ hb) (by rw [hstart, heq]; rfl), ?_,
    procMask_lines hb (by rw [heq]; exact ⟨rfl, rfl⟩)⟩, hargs⟩
  · rw [procId_lines hb]
    exact hid
  · rw [hstart, ports_lines hb, heq]
    rfl
  · rw [hstart, vlanFilter_lines hb, heq]
    rfl
  · rw [hstart, lcores_lines hb (.unset (by rw [heq]; rfl) (by rw [heq]; rfl)) p, heq]
    rfl
  · rw [hstart, slaves_lines hb p, heq]
    rfl
  · rw [hstart, vlans_lines hb p, heq]
    exact zero_add _
  · obtain ⟨hsome, hall⟩ := checkPort_ok (hports p hp)
    refine ⟨hsome, fun lcore hl => ?_⟩
    obtain ⟨i, -, hi, hx⟩ := (binarySearch_iff (Nat.lt_succ_self _) fun i j hij hj =>
      hmask.increasing i j hij (by omega)).mp (hall lcore hl)
    exact mem_map.mpr ⟨i, mem_range.mpr (by omega), hx⟩
  · rw [lastLcores, hstart, nbProcs_lines hb, heq]
    rfl

section

variable (h : Loaded opts lines b c)

include h

/-- What the check leaves. -/
theorem Loaded.frame : c.portidList = b.portidList ∧
    c.maxPortid = b.maxPortid ∧ c.portCfgs = b.portCfgs ∧ c.procLcore = b.procLcore ∧
    c.nbVlanFilter = b.nbVlanFilter ∧ c.nbRssTbl = b.nbRssTbl ∧ c.settings = b.settings ∧
    c.maskLcores = (range b.nbProcs).map (b.procLcore.getD fun _ => 0) := by
  obtain ⟨ht, rfl⟩ | ⟨ht, -, rfl⟩ := h.final
  · refine ⟨rfl, rfl, rfl, rfl, rfl, rfl, rfl, ?_⟩
    simp [Config.maskLcores, ht]
  · refine ⟨rfl, rfl, rfl, rfl, rfl, rfl, rfl, ?_⟩
    simp [Config.maskLcores, collapse, ht]

theorem Loaded.port_eq (p : Int) : c.port p = b.port p := by
  unfold Config.port
  rw [h.frame.2.2.1]

theorem Loaded.threadMode_eq : (lastSettings opts lines).threadMode = b.threadMode := by
  rw [← h.settings]
  rfl

theorem Loaded.procId_iff (hsome : b.procLcore.isSome = true) :
    (0 ≤ c.procId ∧ c.procId < c.nbProcs) ↔ (lastSettings opts lines).threadMode = true ∨
      0 ≤ givenProcId opts ∨ maxLcore < toU16 (givenProcId opts) := by
  rw [h.threadMode_eq]
  obtain ⟨ht, rfl⟩ | ⟨ht, -, rfl⟩ := h.final
  · have hlt : c.procId < c.nbProcs := by
      cases h.mask with
      | unset hl hn => simp [hl] at hsome
      | set l hl hn hinc hlen hid =>
        rw [hn]
        exact hid
    rw [← h.procId, ht]
    simp [hlt]
  · exact iff_of_true ⟨le_refl 0, Int.zero_lt_one⟩ (.inl ht)

/-- With a mask and an id, the arguments fit exactly if the lines ask for no more than there is
room. -/
theorem Loaded.args_iff {argc : Nat} (hargs : dpdkArgsSetup c = .ok argc)
    (hsome : b.procLcore.isSome = true)
    (hid : (lastSettings opts lines).threadMode = true ∨ 0 ≤ givenProcId opts ∨
      maxLcore < toU16 (givenProcId opts)) :
    argc ≤ dpdkConfigNum + 1 ↔ (lastSettings opts lines).ownArgs ≤ dpdkConfigNum := by
  obtain ⟨hmask, hlcore⟩ := h.procMask
  have hown : c.ownArgs = (lastSettings opts lines).ownArgs := by
    rw [← h.settings, ← h.frame.2.2.2.2.2.2.1]
    rfl
  have hprocMask : c.procMask = true := by
    rw [h.threadMode_eq, ← h.procId] at hid
    obtain ⟨ht, rfl⟩ | ⟨ht, -, rfl⟩ := h.final
    · rw [hmask, hsome]
      simpa [ht] using hid
    · simp [collapse, hlcore, hsome]
  rw [dpdkArgsSetup_le_iff hargs, hown, hprocMask]
  exact Nat.add_le_add_iff_right

/-- With `primary_slim` there are as many processes as lcores. -/
theorem Loaded.owner_iff :
    (c.primarySlim = true → c.kniEnable = true → 0 ≤ c.ownerProcId ∧ c.ownerProcId < c.nbProcs) ↔
      ((lastSettings opts lines).primarySlim = true → (lastSettings opts lines).kniEnable = true →
        0 ≤ (lastSettings opts lines).ownerProcId ∧
          (lastSettings opts lines).ownerProcId < lastLcores opts lines) := by
  rw [← h.settings, ← h.nbProcs]
  obtain ⟨-, rfl⟩ | ⟨-, hslim, rfl⟩ := h.final
  · exact Iff.rfl
  · have hoff : (collapse b).primarySlim = false ∧ b.settings.primarySlim = false := ⟨hslim, hslim⟩
    simp [hoff]

theorem Loaded.ports_iff :
    ((∀ port ∈ c.portidList, port ≤ c.maxPortid ∧ port < maxEthports) ∧
      c.portidList.length ≤ maxEthports) ↔
      ∀ vj, Run.lastWrite iniParseHandler portsLine (startConfig opts) lines = some vj →
        PortsSound vj := by
  have hports := h.ports
  rw [h.frame.1, h.frame.2.1]
  cases hw : Run.lastWrite iniParseHandler portsLine (startConfig opts) lines with
  | none =>
    rw [hw] at hports
    obtain ⟨hl, -⟩ := Prod.mk.inj hports
    simp [hl]
  | some vj =>
    rw [hw] at hports
    have hl : b.portidList = (portsOf vj).1 := congrArg Prod.fst hports
    have hm : b.maxPortid = (portsOf vj).2 := congrArg Prod.snd hports
    rw [hl, hm, portsOf_iff]
    exact ⟨fun hs _ hvj => Option.some.inj hvj ▸ hs, fun hs => hs vj rfl⟩

end

theorem le_iff_lastWrite {cap : Nat} {w : Option Nat} (hx : x = (w.map id).getD 0) :
    x ≤ cap ↔ ∀ n, w = some n → n ≤ cap := by
  subst hx
  cases w <;> simp

theorem Loaded.lcores_iff (h : Loaded opts lines b c) (p : Int) :
    (c.port p).nbLcores ≤ dpdkMaxLcore ↔ ∀ n, Run.lastWrite iniParseHandler
      (portListLine .lcoreList dpdkMaxLcore p) (startConfig opts) lines = some n →
        n ≤ dpdkMaxLcore := by
  have hp := h.lcores p
  rw [h.port_eq, ← decide_eq_true_iff (p := (b.port p).nbLcores ≤ dpdkMaxLcore), hp]
  cases Run.lastWrite iniParseHandler (portListLine .lcoreList dpdkMaxLcore p) (startConfig opts)
    lines <;> simp

/-- **An accepted configuration is consistent exactly if it is sound.** -/
theorem load_consistent_iff (opts : List Opt) (lines : List Line) (oob : Int → Nat) (c : Config)
    (argc : Nat) (h : ffLoadConfig opts lines oob = .ok (c, argc)) :
    Consistent c argc ↔ Sound opts lines := by
  obtain ⟨⟨b, hb⟩, hargs⟩ := load_parts h
  obtain ⟨hlist, hmax, hcfgs, hlcore, hvlan, hrss, -, hlcores⟩ := hb.frame
  constructor
  · intro hc
    have hsome : b.procLcore.isSome = true := by
      obtain ⟨arr, harr, -⟩ := hc.increasing
      rw [← hlcore, harr]
      rfl
    have hid := (hb.procId_iff hsome).mp hc.procId
    exact {
      mask := hb.isSome.mp hsome
      procId := hid
      ports := hb.ports_iff.mp ⟨fun port hp => ⟨(hc.ports port hp).1, (hc.ports port hp).2.1⟩,
        hc.lengths.2.2.1⟩
      vlanFilter := (le_iff_lastWrite (hvlan.trans hb.vlanFilter)).mp hc.lengths.2.2.2.1
      lcores := fun p => (hb.lcores_iff p).mp (hc.portLengths p).1
      slaves := fun p => (le_iff_lastWrite (hb.slaves p)).mp
        (hb.port_eq p ▸ (hc.portLengths p).2.1)
      vlans := fun p => hb.vlans p ▸ hb.port_eq p ▸ (hc.portLengths p).2.2
      args := (hb.args_iff hargs hsome hid).mp hc.lengths.2.2.2.2.2
      owner := hb.owner_iff.mp hc.owner }
  · intro hs
    have hsome : b.procLcore.isSome = true := hb.isSome.mpr hs.mask
    obtain ⟨hports, hlen⟩ := hb.ports_iff.mpr hs.ports
    have hprocs : b.nbProcs ≤ maxLcore := hb.mask.nbProcs_le
    exact {
      procId := (hb.procId_iff hsome).mpr hs.procId
      increasing := by
        obtain ⟨arr, harr⟩ := Option.isSome_iff_exists.mp hsome
        refine ⟨arr, hlcore.trans harr, fun i j hij hj => ?_⟩
        have hlt : ∀ i j, i < j → j < b.nbProcs → arr i < arr j := fun i j hij hj => by
          simpa [harr] using hb.mask.increasing i j hij hj
        obtain ⟨-, rfl⟩ | ⟨-, -, rfl⟩ := hb.final
        · exact hlt i j hij hj
        · have : j < 1 := hj
          omega
      lcores := fun port hp lcore hl => by
        rw [hlist] at hp
        rw [hb.port_eq] at hl
        rw [hlcores]
        exact (hb.checked port hp).2 lcore hl
      lengths := by
        refine ⟨?_, ?_, hlen, (le_iff_lastWrite (hvlan.trans hb.vlanFilter)).mpr hs.vlanFilter,
          hrss ▸ hb.rss, (hb.args_iff hargs hsome hs.procId).mpr hs.args⟩
        · obtain ⟨-, rfl⟩ | ⟨-, -, rfl⟩ := hb.final
          · exact hprocs
          · exact Nat.le_of_ble_eq_true rfl
        · rw [hlcores, length_map, length_range]
          exact hprocs
      portLengths := fun p => by
        refine ⟨(hb.lcores_iff p).mpr (hs.lcores p), ?_, ?_⟩
        · rw [hb.port_eq]
          exact (le_iff_lastWrite (hb.slaves p)).mpr (hs.slaves p)
        · rw [hb.port_eq, hb.vlans]
          exact hs.vlans p
      ports := fun port hp => by
        obtain ⟨hle, hlt⟩ := hports port hp
        rw [hlist] at hp
        exact ⟨hle, hlt, hcfgs ▸ (hb.checked port hp).1⟩
      owner := hb.owner_iff.mpr hs.owner }

/-- The addresses of a port. -/
def addresses (sec : Text) : List Line :=
  [.port sec .addr [], .port sec .netmask [], .port sec .broadcast [], .port sec .gateway []]

/-- Two lcores, and a port with its addresses. -/
def twoLcores : List Line :=
  [.lcoreMask ['3'], .portList ['0'] fun _ => 0] ++ addresses ['0']

/-- The second process of two is consistent. -/
theorem load_consistent_secondProcess : ∃ c argc,
    ffLoadConfig [.procId ['1']] twoLcores (fun _ => 0) = .ok (c, argc) ∧ Consistent c argc := by
  refine ⟨_, _, rfl, (load_consistent_iff [.procId ['1']] twoLcores (fun _ => 0) _ _ rfl).mpr {
    mask := ⟨['3'], by simp [twoLcores]⟩
    procId := .inr (.inl (by decide))
    ports := fun vj h => ?_
    vlanFilter := nofun
    lcores := fun p n h => ?_
    slaves := fun p n h => ?_
    vlans := fun p => Nat.zero_le _
    args := by decide
    owner := nofun }⟩
  · obtain rfl : (['0'], fun _ => 0) = vj := Option.some.inj h
    change [0].length ≤ maxEthports ∧ ∀ port ∈ [0], port < maxEthports
    decide
  · cases h
  · cases h

/-- No mask; an id below zero that the cast hides; one port too many in a list. -/
theorem load_not_consistent :
    (∃ c argc, ffLoadConfig [] [] (fun _ => 0) = .ok (c, argc) ∧ ¬ Consistent c argc) ∧
    (∃ c argc, ffLoadConfig [.procId ['-', '6', '5', '5', '3', '6']] twoLcores (fun _ => 0) =
      .ok (c, argc) ∧ ¬ Consistent c argc) ∧
    ∃ c argc, ffLoadConfig [.procId ['1']]
      (twoLcores ++ [.port ['0'] .slavePortList ['0', '-', '3', '2']]) (fun _ => 0) =
        .ok (c, argc) ∧ ¬ Consistent c argc := by
  refine ⟨⟨_, _, rfl, fun h => ?_⟩, ⟨_, _, rfl, fun h => ?_⟩, ⟨_, _, rfl, fun h => ?_⟩⟩
  · obtain ⟨arr, harr, -⟩ := h.increasing
    cases harr
  · exact absurd h.procId.1 (by decide)
  · exact absurd (h.portLengths 0).2.1 (by decide)

end FStack.Conf
