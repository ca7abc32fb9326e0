import FStack.Conf.Load
import FStack.Lib.Run

/-!
# What the lines of a configuration do

One inversion lemma says what a line that is accepted does (`effect_of_handler`). From it follows
what the whole file does to the lists: each holds what the last line that sets it gives
(`lastWrite`), a port has as many vlans as lines give it one (`countHits`), and the lcores of the
mask are in order (`MaskInv`). A setting is what the last line of its key says.

Results:
* `ports_lines`, `vlanFilter_lines`, `lcores_lines`, `slaves_lines`, `vlans_lines`: the lists.
* `maskInv_lines`, `nbProcs_lines`: the lcores.
* `key_lines`: the settings.
-/

namespace FStack.Conf

open Function List FStack.Lib

/-! ## What a line writes -/

/-- The length that a list has once it is stored. -/
def given (cap : Nat) (value : Text) : Option Nat :=
  (parseConfigList cap value).map fun l => if l = [] then cap else l.length

/-- The line sets `port_list`. -/
def portsLine (_ : Config) : Line → Option (Text × (Nat → Nat))
  | .portList value junk => some (value, junk)
  | _ => none

/-- The line sets `vlan_filter`. -/
def vlanFilterLine (_ : Config) : Line → Option Nat
  | .vlanFilter value => given dpdkMaxVlanFilter value
  | _ => none

/-- The line sets the list `k` of the port `p`. -/
def portListLine (k : PortKey) (cap : Nat) (p : Int) (c : Config) : Line → Option Nat
  | .port sec k' value =>
    if k' = k ∧ scanInt sec = some p ∧ p ≤ c.maxPortid then given cap value else none
  | _ => none

/-- The line sets the mask, of so many lcores. -/
def maskLine (c : Config) : Line → Option Nat
  | .lcoreMask value => (parseLcoreMask c.procId value).map length
  | _ => none

/-- The line sets `k`. -/
def keyLine (k : Key) (_ : Config) : Line → Option Text
  | .set k' value => if k' = k then some value else none
  | _ => none

/-- The line gives the port `p` a vlan. -/
def vlanLine (p : Int) (c : Config) : Line → Bool
  | .vlan sec .portid value =>
    (scanInt sec).any (fun vlanid =>
      (range c.nbVlanFilter).any fun i => vlanid == (c.vlanFilterId i : Int)) &&
    decide (atoi value ≤ c.maxPortid) && atoi value == p
  | _ => false

/-- The table of the ports once a line of a port was handled. -/
def Config.allocated (c : Config) : Int → PortCfg := c.portCfgs.getD (initPorts c)

/-- The settings that are stored as they are. -/
def Config.settings (c : Config) : Config :=
  { Config.default with
    logLevel := c.logLevel
    nbChannel := c.nbChannel
    memory := c.memory
    noHuge := c.noHuge
    threadMode := c.threadMode
    primarySlim := c.primarySlim
    baseVirtaddr := c.baseVirtaddr
    filePrefix := c.filePrefix
    allow := c.allow
    nbVdev := c.nbVdev
    nbBond := c.nbBond
    kniEnable := c.kniEnable
    ownerProcId := c.ownerProcId }

/-- The rest of a configuration, which most lines leave. -/
structure Same (c c' : Config) : Prop where
  procId : c'.procId = c.procId
  procMask : c'.procMask = c.procMask
  lcoreMask : c'.lcoreMask = c.lcoreMask
  procLcore : c'.procLcore = c.procLcore
  nbProcs : c'.nbProcs = c.nbProcs
  portidList : c'.portidList = c.portidList
  maxPortid : c'.maxPortid = c.maxPortid
  portCfgs : c'.portCfgs = c.portCfgs
  nbVlanFilter : c'.nbVlanFilter = c.nbVlanFilter
  nbRssTbl : c.nbRssTbl ≤ rssTblMaxEntries → c'.nbRssTbl ≤ rssTblMaxEntries

/-- The line sets no list, and no mask. -/
structure Quiet (c : Config) (line : Line) : Prop where
  mask : ∀ v, line ≠ .lcoreMask v
  lcores : maskLine c line = none
  ports : portsLine c line = none
  vlanFilter : vlanFilterLine c line = none
  lists : ∀ k cap p, portListLine k cap p c line = none
  vlans : ∀ p, vlanLine p c line = false

/-- The line makes a setting, or it leaves all of them. -/
def Sets (c : Config) (line : Line) (c' : Config) : Prop :=
  (∃ k v, line = .set k v ∧ c' = setKey c v k) ∨
    (∀ k, keyLine k c line = none) ∧ c'.settings = c.settings

/-- What an accepted line does. -/
inductive Effect (c : Config) : Line → Config → Prop
  | mask {v : Text} {lcores : List Nat} (h : parseLcoreMask c.procId v = some lcores) :
    Effect c (.lcoreMask v) { c with
      lcoreMask := true
      procMask := c.procMask || 0 ≤ c.procId
      procLcore := some fun i => (lcores[i]?).getD 0
      nbProcs := lcores.length }
  | ports {v : Text} {junk : Nat → Nat} {r : Nat × (Nat → Nat)}
    (h : storeList maxEthports junk v = .ok r) :
    Effect c (.portList v junk)
      { c with portidList := (range r.1).map r.2, maxPortid := r.2 (r.1 - 1) }
  | vlanFilter {v : Text} {r : Nat × (Nat → Nat)}
    (h : storeList dpdkMaxVlanFilter c.vlanFilterId v = .ok r) :
    Effect c (.vlanFilter v) { c with nbVlanFilter := r.1, vlanFilterId := r.2 }
  | noPort {sec v : Text} {k : PortKey} {p : Int} (hs : scanInt sec = some p)
    (hp : (c.maxPortid : Int) < p) :
    Effect c (.port sec k v) { c with portCfgs := some c.allocated }
  | port {sec v : Text} {k : PortKey} {p : Int} {pc : PortCfg} (hs : scanInt sec = some p)
    (hp : p ≤ c.maxPortid) (hset : setPort (c.allocated p) v k = .ok pc) :
    Effect c (.port sec k v) { c with portCfgs := some (update c.allocated p pc) }
  | vlan {line : Line} {pcs : Int → PortCfg} {p : Int} (hpcs : c.portCfgs = some pcs)
    (hline : ∀ q, vlanLine q c line = (q == p)) (hmask : ∀ v, line ≠ .lcoreMask v)
    (hports : portsLine c line = none) (hvlan : vlanFilterLine c line = none)
    (hlists : ∀ k cap q, portListLine k cap q c line = none) (hlcores : maskLine c line = none)
    (hkeys : ∀ k, keyLine k c line = none) :
    Effect c line { c with
      vlanCfgs := true
      portCfgs := some (update pcs p { pcs p with nbVlan := (pcs p).nbVlan + 1 }) }
  | same {line : Line} {c' : Config} (hquiet : Quiet c line) (h : Same c c') (hsets : Sets c line c') :
    Effect c line c'

theorem Same.refl (c : Config) : Same c c := ⟨rfl, rfl, rfl, rfl, rfl, rfl, rfl, rfl, rfl, id⟩

/-- The line may set a list or the mask. -/
def Line.sets : Line → Bool
  | .lcoreMask _ => true
  | .portList _ _ => true
  | .vlanFilter _ => true
  | .port _ _ _ => true
  | .vlan _ _ _ => true
  | _ => false

theorem quiet_of_sets {c : Config} {line : Line} (h : line.sets = false) : Quiet c line := by
  refine ⟨?_, ?_, ?_, ?_, ?_, ?_⟩
  · rintro v rfl
    cases h
  · cases line <;> first | rfl | cases h
  · cases line <;> first | rfl | cases h
  · cases line <;> first | rfl | cases h
  · intro k cap p
    cases line <;> first | rfl | cases h
  · intro p
    cases line <;> first | rfl | cases h

theorem strsplit_length (delim : Char) : ∀ (n : Nat) (s : Text), (strsplit delim n s).length ≤ n
  | 0, _ => Nat.zero_le _
  | _ + 1, [] => Nat.zero_le _
  | 1, c :: s => by simp [strsplit]
  | n + 2, c :: s => by
    exact Nat.succ_le_succ (strsplit_length delim (n + 1) _)

theorem rssTblCfgHandler_le {nb : Nat} (h : nb ≤ rssTblMaxEntries) (value : Text) :
    rssTblCfgHandler nb value ≤ rssTblMaxEntries := by
  unfold rssTblCfgHandler
  dsimp only
  split
  · exact strsplit_length _ _ _
  · exact h

variable {c c' : Config} {v sec : Text} {line : Line}

theorem same_setKey (k : Key) (v : Text) : Same c (setKey c v k) := by
  cases k <;> exact ⟨rfl, rfl, rfl, rfl, rfl, rfl, rfl, rfl, rfl, id⟩

theorem same_rssCheck {k : RssKey} (h : rssCheckCfgHandler c k v = .ok c') :
    Same c c' ∧ c'.settings = c.settings := by
  unfold rssCheckCfgHandler at h
  split at h
  · cases h
  · cases k with
    | rssTbl =>
      cases h
      exact ⟨⟨rfl, rfl, rfl, rfl, rfl, rfl, rfl, rfl, rfl, fun hnb => rssTblCfgHandler_le hnb v⟩, rfl⟩
    | other =>
      cases h
      exact ⟨Same.refl c, rfl⟩

theorem same_of_sets (hline : line.sets = false) (h : iniParseHandler c line = .ok c') :
    Same c c' ∧ Sets c line c' := by
  have hkept {line : Line} (hkeys : ∀ k, keyLine k c line = none)
      (hsame : Same c c' ∧ c'.settings = c.settings) : Same c c' ∧ Sets c line c' :=
    ⟨hsame.1, .inr ⟨hkeys, hsame.2⟩⟩
  cases line with
  | set k v =>
    cases h
    exact ⟨same_setKey k v, .inl ⟨k, v, rfl, rfl⟩⟩
  | maxMtu v =>
    obtain ⟨mtu, -, h⟩ := Run.bind_eq_ok.1 h
    cases h
    exact hkept (fun _ => rfl) ⟨⟨rfl, rfl, rfl, rfl, rfl, rfl, rfl, rfl, rfl, id⟩, rfl⟩
  | mbufMode mode =>
    cases mode with
    | none => cases h
    | some mode =>
      cases h
      exact hkept (fun _ => rfl) ⟨⟨rfl, rfl, rfl, rfl, rfl, rfl, rfl, rfl, rfl, id⟩, rfl⟩
  | vdev sec =>
    change vdevCfgHandler c sec = .ok c' at h
    unfold vdevCfgHandler at h
    split at h
    · cases h
    · cases h
      exact hkept (fun _ => rfl) ⟨⟨rfl, rfl, rfl, rfl, rfl, rfl, rfl, rfl, rfl, id⟩, rfl⟩
  | bond sec =>
    change bondCfgHandler c sec = .ok c' at h
    unfold bondCfgHandler at h
    split at h
    · cases h
    · cases h
      exact hkept (fun _ => rfl) ⟨⟨rfl, rfl, rfl, rfl, rfl, rfl, rfl, rfl, rfl, id⟩, rfl⟩
  | rssCheck k v => exact hkept (fun _ => rfl) (same_rssCheck h)
  | kniMethod _ | kniAction _ | kernelCoexist _ | other =>
    cases h
    exact hkept (fun _ => rfl) ⟨⟨rfl, rfl, rfl, rfl, rfl, rfl, rfl, rfl, rfl, id⟩, rfl⟩
  | lcoreMask _ | portList _ _ | vlanFilter _ | port _ _ _ | vlan _ _ _ => cases hline

theorem effect_lcoreMask (h : lcoreMaskHandler c v = .ok c') : Effect c (.lcoreMask v) c' := by
  unfold lcoreMaskHandler at h
  split at h
  · cases h
  next hl =>
    cases h
    exact .mask hl

theorem effect_port {k : PortKey} (h : portCfgHandler c sec k v = .ok c') :
    Effect c (.port sec k v) c' := by
  unfold portCfgHandler at h
  split at h
  · cases h
  · split at h
    · cases h
    next p hs =>
      split at h
      next hp =>
        cases h
        exact .noPort hs hp
      next hp =>
        obtain ⟨pc, hset, h⟩ := Run.bind_eq_ok.1 h
        cases h
        exact .port hs (Int.not_lt.mp hp) hset

theorem effect_vlan {k : VlanKey} (h : vlanCfgHandler c sec k v = .ok c') :
    Effect c (.vlan sec k v) c' := by
  unfold vlanCfgHandler at h
  split at h
  · cases h
  · split at h
    · cases h
    next vlanid hs =>
      have hquiet (hno : ∀ p, vlanLine p c (.vlan sec k v) = false) :
          Effect c (.vlan sec k v) { c with vlanCfgs := true } :=
        .same ⟨nofun, rfl, rfl, rfl, fun _ _ _ => rfl, hno⟩
          ⟨rfl, rfl, rfl, rfl, rfl, rfl, rfl, rfl, rfl, id⟩ (.inr ⟨fun _ => rfl, rfl⟩)
      dsimp only at h
      split at h
      next hfound =>
        cases k with
        | other =>
          cases h
          exact hquiet fun _ => rfl
        | portid =>
          dsimp only at h
          split at h
          next hp =>
            cases h
            refine hquiet fun p => ?_
            simp [vlanLine, Int.not_le.mpr hp]
          next hp =>
            split at h
            · cases h
            next pcs hpcs =>
              cases h
              refine .vlan hpcs (fun q => ?_) nofun rfl rfl (fun _ _ _ => rfl) rfl fun _ => rfl
              simp only [vlanLine, hs, Option.any_some, hfound, Int.not_lt.mp hp, decide_true,
                Bool.true_and]
              exact Bool.beq_comm
      next hfound =>
        cases h
        refine hquiet fun p => ?_
        cases k with
        | other => rfl
        | portid => simp [vlanLine, hs, Bool.not_eq_true _ ▸ hfound]

/-- **What an accepted line does.** -/
theorem effect_of_handler (h : iniParseHandler c line = .ok c') : Effect c line c' := by
  cases hline : line.sets with
  | false =>
    obtain ⟨hsame, hsets⟩ := same_of_sets hline h
    exact .same (quiet_of_sets hline) hsame hsets
  | true =>
    cases line with
    | lcoreMask v => exact effect_lcoreMask h
    | portList v junk =>
      obtain ⟨r, hr, h⟩ := Run.bind_eq_ok.1 h
      cases h
      exact .ports hr
    | vlanFilter v =>
      obtain ⟨r, hr, h⟩ := Run.bind_eq_ok.1 h
      cases h
      exact .vlanFilter hr
    | port sec k v => exact effect_port h
    | vlan sec k v => exact effect_vlan h
    | _ => cases hline

/-! ## The lists -/

section Lists

variable {lines : List Line} {cap : Nat} {pc pc' : PortCfg} {k : PortKey}

theorem given_of_store {arr : Nat → Nat} {r : Nat × (Nat → Nat)} (h : storeList cap arr v = .ok r) :
    given cap v = some r.1 := by
  unfold storeList at h
  unfold given
  split at h
  · cases h
  next hl =>
    cases h
    simp [hl]
  next l hne hl =>
    cases h
    simp only [hl, Option.map_some, if_neg hne]

/-- What a line of `port_list` stores: the ports, and the greatest. -/
def portsOf (vj : Text × (Nat → Nat)) : List Nat × Nat :=
  match storeList maxEthports vj.2 vj.1 with
  | .ok r => ((range r.1).map r.2, r.2 (r.1 - 1))
  | .error _ => ([], 0)

theorem ports_lines (h : lines.foldlM iniParseHandler c = .ok c') :
    (c'.portidList, c'.maxPortid) =
      ((Run.lastWrite iniParseHandler portsLine c lines).map portsOf).getD
        (c.portidList, c.maxPortid) := by
  refine Run.foldlM_lastWrite (fun c : Config => (c.portidList, c.maxPortid))
    (P := fun _ => True) (fun _ _ _ _ _ => trivial) (fun s line s' hs _ => ?_) h trivial
  cases effect_of_handler hs with
  | ports hr => simp [portsLine, portsOf, hr]
  | vlan hpcs hline hmask hports hvlan hlists => simp [hports]
  | same hquiet hsame => simp [hquiet.ports, hsame.portidList, hsame.maxPortid]
  | mask _ | vlanFilter _ | noPort _ _ | port _ _ _ => rfl

theorem vlanFilter_lines (h : lines.foldlM iniParseHandler c = .ok c') :
    c'.nbVlanFilter =
      ((Run.lastWrite iniParseHandler vlanFilterLine c lines).map id).getD c.nbVlanFilter := by
  refine Run.foldlM_lastWrite Config.nbVlanFilter (P := fun _ => True)
    (fun _ _ _ _ _ => trivial) (fun s line s' hs _ => ?_) h trivial
  cases effect_of_handler hs with
  | vlanFilter hr => simp [vlanFilterLine, given_of_store hr]
  | vlan hpcs hline hmask hports hvlan hlists => simp [hvlan]
  | same hquiet hsame => simp [hquiet.vlanFilter, hsame.nbVlanFilter]
  | mask _ | ports _ | noPort _ _ | port _ _ _ => rfl

/-! ### The ports' own lists -/

/-- An entry of the table of the ports before any line of its own. -/
structure FreshPort (c : Config) (pc : PortCfg) : Prop where
  nbLcores : pc.nbLcores = 0 ∨ pc.nbLcores = c.nbProcs
  nbSlaves : pc.nbSlaves = 0
  nbVlan : pc.nbVlan = 0

theorem freshPort_init (c : Config) (p : Int) : FreshPort c (initPorts c p) := by
  have hrun : ∀ (ports : List Nat) (pcs : Int → PortCfg), FreshPort c (pcs p) →
      FreshPort c (ports.foldl (initPort c) pcs p) := by
    intro ports
    induction ports with
    | nil => exact fun pcs hpcs => hpcs
    | cons portid ports ih =>
      intro pcs hpcs
      refine ih _ ?_
      unfold initPort
      by_cases hp : p = portid
      · subst hp
        rw [update_self]
        exact ⟨.inr rfl, rfl, rfl⟩
      · rw [update_of_ne hp]
        exact hpcs
  exact hrun c.portidList _ ⟨.inl rfl, rfl, rfl⟩

section Allocated

variable (c) (p : Int)

theorem allocated_nbSlaves : (c.allocated p).nbSlaves = (c.port p).nbSlaves := by
  unfold Config.allocated Config.port
  cases c.portCfgs with
  | none => exact (freshPort_init c p).nbSlaves
  | some pcs => rfl

theorem allocated_nbVlan : (c.allocated p).nbVlan = (c.port p).nbVlan := by
  unfold Config.allocated Config.port
  cases c.portCfgs with
  | none => exact (freshPort_init c p).nbVlan
  | some pcs => rfl

theorem allocated_nbLcores (hprocs : c.nbProcs ≤ dpdkMaxLcore) :
    decide ((c.allocated p).nbLcores ≤ dpdkMaxLcore) =
      decide ((c.port p).nbLcores ≤ dpdkMaxLcore) := by
  unfold Config.allocated Config.port
  cases c.portCfgs with
  | none =>
    have hfits : (initPorts c p).nbLcores ≤ dpdkMaxLcore := by
      rcases (freshPort_init c p).nbLcores with h | h <;> omega
    simp [hfits, PortCfg.zero]
  | some pcs => rfl

end Allocated

theorem port_of_some {pcs : Int → PortCfg} (hpcs : c.portCfgs = some pcs) (p : Int) :
    c.port p = pcs p := by
  unfold Config.port
  rw [hpcs]

theorem Same.port (h : Same c c') (p : Int) : c'.port p = c.port p := by
  unfold Config.port
  rw [h.portCfgs]

/-- A line of another key leaves a list, and the line of its key sets it. -/
theorem setPort_spec (h : setPort pc v k = .ok pc') :
    pc'.nbLcores = ((if k = .lcoreList then given dpdkMaxLcore v else none).map id).getD
        pc.nbLcores ∧
      pc'.nbSlaves = ((if k = .slavePortList then given maxEthports v else none).map id).getD
        pc.nbSlaves ∧
      pc'.nbVlan = pc.nbVlan := by
  cases k with
  | lcoreList | slavePortList =>
    obtain ⟨r, hr, h⟩ := Run.bind_eq_ok.1 h
    cases h
    simp [given_of_store hr]
  | mtu =>
    obtain ⟨r, -, h⟩ := Run.bind_eq_ok.1 h
    cases h
    exact ⟨rfl, rfl, rfl⟩
  | addr | netmask | broadcast | gateway | other =>
    cases h
    exact ⟨rfl, rfl, rfl⟩

/-- What a step writes to a field of the port `p` that only its own lines write. -/
theorem port_step {γ : Type} (f : PortCfg → γ) {g : Nat → γ}
    (halloc : ∀ p, f (c.allocated p) = f (c.port p))
    (hset : ∀ {pc pc' v k'}, setPort pc v k' = .ok pc' →
      f pc' = ((if k' = k then given cap v else none).map g).getD (f pc))
    (hvlan : ∀ pc : PortCfg, f { pc with nbVlan := pc.nbVlan + 1 } = f pc)
    (h : iniParseHandler c line = .ok c') (p : Int) :
    f (c'.port p) = ((portListLine k cap p c line).map g).getD (f (c.port p)) := by
  cases effect_of_handler h with
  | mask _ | ports _ | vlanFilter _ => rfl
  | same hquiet hsame =>
    rw [hquiet.lists, hsame.port]
    rfl
  | vlan hpcs hline hmask hports hvlanf hlists hlcores hkeys =>
    rename_i pcs q
    rw [hlists, port_of_some hpcs p, port_of_some rfl p]
    by_cases hp : p = q
    · subst hp
      rw [update_self, hvlan]
      rfl
    · rw [update_of_ne hp]
      rfl
  | noPort hs hp =>
    rename_i sec v k' q
    have hno : ¬ (k' = k ∧ some q = some p ∧ p ≤ c.maxPortid) := by
      rintro ⟨-, hq, hp'⟩
      cases hq
      omega
    rw [portListLine, hs, if_neg hno, port_of_some rfl p, halloc]
    rfl
  | port hs hp hpc =>
    rename_i sec v k' q pc
    rw [port_of_some rfl p, portListLine, hs]
    by_cases hpq : p = q
    · subst hpq
      rw [update_self, hset hpc, halloc]
      by_cases hk : k' = k <;> simp [hk, hp]
    · have hno : ¬ (k' = k ∧ some q = some p ∧ p ≤ c.maxPortid) := by
        rintro ⟨-, hq, -⟩
        exact hpq (Option.some.inj hq).symm
      rw [update_of_ne hpq, if_neg hno, halloc]
      rfl

theorem slaves_lines (h : lines.foldlM iniParseHandler c = .ok c') (p : Int) :
    (c'.port p).nbSlaves = ((Run.lastWrite iniParseHandler
      (portListLine .slavePortList maxEthports p) c lines).map id).getD (c.port p).nbSlaves :=
  Run.foldlM_lastWrite (fun c : Config => (c.port p).nbSlaves) (P := fun _ => True)
    (fun _ _ _ _ _ => trivial)
    (fun s _ _ hs _ => port_step PortCfg.nbSlaves (allocated_nbSlaves s)
      (fun h => (setPort_spec h).2.1) (fun _ => rfl) hs p) h trivial

/-! ### The lcores -/

/-- The lcores are those of a mask, in order, and more than the id of the process; or there is no
mask yet. -/
inductive MaskInv (c : Config) : Prop
  | unset (hl : c.procLcore = none) (hn : c.nbProcs = 0)
  | set (l : List Nat) (hl : c.procLcore = some fun i => (l[i]?).getD 0) (hn : c.nbProcs = l.length)
    (hinc : l.Pairwise (· < ·)) (hlen : l.length ≤ maxLcore) (hid : c.procId < l.length)

theorem MaskInv.nbProcs_le (h : MaskInv c) : c.nbProcs ≤ dpdkMaxLcore := by
  cases h with
  | unset hl hn =>
    rw [hn]
    exact Nat.zero_le _
  | set l hl hn hinc hlen hid =>
    rw [hn]
    exact hlen

theorem MaskInv.congr (h : MaskInv c) (hid : c'.procId = c.procId)
    (hl : c'.procLcore = c.procLcore) (hn : c'.nbProcs = c.nbProcs) : MaskInv c' := by
  cases h with
  | unset hl' hn' => exact .unset (hl.trans hl') (hn.trans hn')
  | set l hl' hn' hinc hlen hid' => exact .set l (hl.trans hl') (hn.trans hn') hinc hlen (hid ▸ hid')

theorem maskInv_step (h : iniParseHandler c line = .ok c') (hI : MaskInv c) : MaskInv c' := by
  cases effect_of_handler h with
  | mask hl =>
    obtain ⟨hinc, hlen, hid⟩ := parseLcoreMask_spec hl
    exact .set _ rfl rfl hinc hlen hid
  | same hquiet hsame => exact hI.congr hsame.procId hsame.procLcore hsame.nbProcs
  | ports _ | vlanFilter _ | noPort _ _ | port _ _ _ | vlan => exact hI.congr rfl rfl rfl

theorem maskInv_lines (h : lines.foldlM iniParseHandler c = .ok c') (hI : MaskInv c) : MaskInv c' :=
  Run.foldlM_invariant (fun _ _ _ _ hs => maskInv_step hs) h hI

theorem lcores_lines (h : lines.foldlM iniParseHandler c = .ok c') (hI : MaskInv c) (p : Int) :
    decide ((c'.port p).nbLcores ≤ dpdkMaxLcore) = ((Run.lastWrite iniParseHandler
      (portListLine .lcoreList dpdkMaxLcore p) c lines).map fun n => decide (n ≤ dpdkMaxLcore)).getD
        (decide ((c.port p).nbLcores ≤ dpdkMaxLcore)) := by
  refine Run.foldlM_lastWrite (fun c : Config => decide ((c.port p).nbLcores ≤ dpdkMaxLcore))
    (P := MaskInv) (fun _ _ _ => maskInv_step) (fun s _ _ hs hI => ?_) h hI
  refine port_step (fun pc => decide (pc.nbLcores ≤ dpdkMaxLcore))
    (fun p => allocated_nbLcores s p hI.nbProcs_le) (fun {pc pc' v k'} hset => ?_) (fun _ => rfl) hs p
  rw [(setPort_spec hset).1]
  cases (if k' = .lcoreList then given dpdkMaxLcore v else none) <;> rfl

theorem vlans_step (h : iniParseHandler c line = .ok c') (p : Int) :
    (c'.port p).nbVlan = (c.port p).nbVlan + (vlanLine p c line).toNat := by
  cases effect_of_handler h with
  | mask _ | ports _ | vlanFilter _ => rfl
  | same hquiet hsame =>
    rw [hquiet.vlans, hsame.port]
    rfl
  | noPort hsec hp => exact allocated_nbVlan c p
  | port hsec hp hpc =>
    rename_i q pc
    rw [port_of_some rfl p]
    by_cases hpq : p = q
    · subst hpq
      rw [update_self, (setPort_spec hpc).2.2]
      exact allocated_nbVlan c p
    · rw [update_of_ne hpq]
      exact allocated_nbVlan c p
  | vlan hpcs hline hmask hports hvlanf hlists hlcores hkeys =>
    rename_i pcs q
    rw [hline, port_of_some hpcs p, port_of_some rfl p]
    by_cases hpq : p = q
    · subst hpq
      simp
    · simp [hpq]

variable (h : lines.foldlM iniParseHandler c = .ok c')

include h

theorem vlans_lines (p : Int) :
    (c'.port p).nbVlan = (c.port p).nbVlan + Run.countHits iniParseHandler (vlanLine p) c lines :=
  Run.foldlM_countHits (fun c : Config => (c.port p).nbVlan)
    (fun _ _ _ hs => vlans_step hs p) h

/-! ### The settings -/

/-- **A setting is what the last line of its key says.** -/
theorem key_lines {γ : Type} (read : Config → γ) (k : Key) {g : Text → γ}
    (hset : ∀ c v k', read (setKey c v k') = if k' = k then g v else read c)
    (hkept : ∀ c, read c.settings = read c) :
    read c' = ((Run.lastWrite iniParseHandler (keyLine k) c lines).map g).getD (read c) := by
  refine Run.foldlM_lastWrite read (P := fun _ => True) (fun _ _ _ _ _ => trivial)
    (fun s line s' hs _ => ?_) h trivial
  cases effect_of_handler hs with
  | same _ _ hsets =>
    obtain ⟨k', v, rfl, rfl⟩ | ⟨hkeys, hsame⟩ := hsets
    · rw [hset, keyLine]
      split <;> rfl
    · rw [hkeys, ← hkept s', hsame, hkept]
      rfl
  | vlan _ _ _ _ _ _ _ hkeys =>
    rw [hkeys, ← hkept, ← hkept s]
    rfl
  | mask _ | ports _ | vlanFilter _ | noPort _ _ | port _ _ _ =>
    rw [← hkept, ← hkept s]
    rfl

/-! ### Other fields -/

theorem nbProcs_lines :
    c'.nbProcs = ((Run.lastWrite iniParseHandler maskLine c lines).map id).getD c.nbProcs := by
  refine Run.foldlM_lastWrite Config.nbProcs (P := fun _ => True)
    (fun _ _ _ _ _ => trivial) (fun s line s' hs _ => ?_) h trivial
  cases effect_of_handler hs with
  | mask hl => simp [maskLine, hl]
  | vlan _ _ _ _ _ _ hlcores _ => simp [hlcores]
  | same hquiet hsame _ => simp [hquiet.lcores, hsame.nbProcs]
  | ports _ | vlanFilter _ | noPort _ _ | port _ _ _ => rfl

/-- The mask is for the EAL if there is one and the process has an id. -/
theorem procMask_lines (hc : c.procMask = (c.procLcore.isSome && decide (0 ≤ c.procId)) ∧
      c.lcoreMask = c.procLcore.isSome) :
    c'.procMask = (c'.procLcore.isSome && decide (0 ≤ c'.procId)) ∧
      c'.lcoreMask = c'.procLcore.isSome := by
  refine Run.foldlM_invariant (P := fun s : Config =>
    s.procMask = (s.procLcore.isSome && decide (0 ≤ s.procId)) ∧ s.lcoreMask = s.procLcore.isSome)
    (fun line _ s s' hs hinv => ?_) h hc
  cases effect_of_handler hs with
  | mask _ => simp [hinv.1]
  | same _ hsame _ =>
    rw [hsame.procMask, hsame.procLcore, hsame.procId, hsame.lcoreMask]
    exact hinv
  | ports _ | vlanFilter _ | noPort _ _ | port _ _ _ | vlan => exact hinv

theorem procId_lines : c'.procId = c.procId := by
  refine Run.foldlM_invariant (P := fun s : Config => s.procId = c.procId)
    (fun line _ s s' hs hid => ?_) h rfl
  cases effect_of_handler hs with
  | same hquiet hsame => exact hsame.procId.trans hid
  | mask _ | ports _ | vlanFilter _ | noPort _ _ | port _ _ _ | vlan => exact hid

theorem nbRssTbl_lines (hc : c.nbRssTbl ≤ rssTblMaxEntries) : c'.nbRssTbl ≤ rssTblMaxEntries := by
  refine Run.foldlM_invariant (P := fun s : Config => s.nbRssTbl ≤ rssTblMaxEntries)
    (fun line _ s s' hs hnb => ?_) h hc
  cases effect_of_handler hs with
  | same hquiet hsame => exact hsame.nbRssTbl hnb
  | mask _ | ports _ | vlanFilter _ | noPort _ _ | port _ _ _ | vlan => exact hnb

/-- There are lcores once there was a mask. -/
theorem procLcore_lines (hc : c.procLcore = none) :
    c'.procLcore.isSome = true ↔ ∃ v, Line.lcoreMask v ∈ lines := by
  have hstep : ∀ {s line s'}, iniParseHandler s line = .ok s' →
      (s'.procLcore.isSome = true ↔ s.procLcore.isSome = true ∨ ∃ v, line = .lcoreMask v) := by
    intro s line s' hs
    cases effect_of_handler hs with
    | mask _ => simp
    | same hquiet hsame =>
      rw [hsame.procLcore]
      simp [hquiet.mask]
    | vlan hpcs hline hmask hports hvlanf hlists => simp [hmask]
    | ports _ | vlanFilter _ | noPort _ _ | port _ _ _ => simp
  have hrun : ∀ {lines : List Line} {s s' : Config}, lines.foldlM iniParseHandler s = .ok s' →
      (s'.procLcore.isSome = true ↔ s.procLcore.isSome = true ∨ ∃ v, Line.lcoreMask v ∈ lines) := by
    intro lines
    induction lines with
    | nil =>
      intro s s' h
      cases h
      simp
    | cons line lines ih =>
      intro s s' h
      obtain ⟨s₁, h₁, h₂⟩ := Run.foldlM_cons_eq_ok.1 h
      rw [ih h₂, hstep h₁]
      simp only [mem_cons, exists_or, or_assoc, eq_comm]
  rw [hrun h, hc]
  simp

end Lists

end FStack.Conf
