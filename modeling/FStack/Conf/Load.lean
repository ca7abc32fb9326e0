import FStack.Conf.Text

/-!
# Loading a configuration

Model of `ff_load_config` (`lib/ff_config.c:1605-1650`): the command line (`ff_parse_args`,
`ff_config.c:1318-1360`), the handlers of the lines of the file (`ini_parse_handler` and those it
calls, `ff_config.c:71-137`, `258-379`, `553-900`, `957-1210`), the final check (`ff_check_config`,
`ff_config.c:1362-1564`) and the number of arguments for the EAL (`dpdk_args_setup`,
`ff_config.c:1212-1316`).

A `Line` is a section, a name and a value, by the handler it goes to; the values are texts where the
code reads numbers from them, the words the code knows are enumerated. Lines that set what none of
this reads are one constructor. What `getopt_long` returns is a list of options.

An array is a function: a write past its end is kept as if there were room, and the lengths say that
there was none. `junk` is what an array holds that was not initialised, `oob` what is read outside
`proc_lcore`. A null pointer that is followed ends the load (`crashed`). Allocations do not fail.
-/

namespace FStack.Conf

/-! ## The configuration -/

/-- The `--proc-type` values that `ff_parse_args` knows. -/
inductive ProcType where
  | primary
  | secondary
  | auto
  | unknown
  deriving DecidableEq

/-- The values of `method` in the `kni` section. -/
inductive KniMethod where
  | accept
  | reject
  | unknown
  deriving DecidableEq

/-- The values of `kni_action`. -/
inductive KniAction where
  | alltokni
  | alltoff
  | default
  | unknown
  deriving DecidableEq

/-- The values of `mbuf_mode`. -/
inductive MbufMode where
  | large
  | scatter
  deriving DecidableEq

/-- `struct ff_port_cfg`. Of the addresses, whether they are set. -/
structure PortCfg where
  addr : Bool
  netmask : Bool
  broadcast : Bool
  gateway : Bool
  nbLcores : Nat
  lcoreList : Nat → Nat
  nbSlaves : Nat
  nbVlan : Nat
  mtu : Nat

/-- An entry of `port_cfgs` as `calloc` leaves it. -/
def PortCfg.zero : PortCfg := ⟨false, false, false, false, 0, fun _ => 0, 0, 0, 0⟩

/-- The lcores listed for the port. -/
def PortCfg.lcores (p : PortCfg) : List Nat := (List.range p.nbLcores).map p.lcoreList

/-- `struct ff_config`. A flag or a text that is only tested is a `Bool`. -/
structure Config where
  procType : ProcType
  procId : Int
  lcoreMask : Bool
  procMask : Bool
  procLcore : Option (Nat → Nat)
  nbProcs : Nat
  threadMode : Bool
  nbThreads : Nat
  primarySlim : Bool
  logLevel : Bool
  nbChannel : Bool
  memory : Bool
  noHuge : Bool
  baseVirtaddr : Bool
  filePrefix : Bool
  allow : Option Text
  extraEalArgs : Option Text
  nbVdev : Int
  nbBond : Int
  vdevCfgs : Bool
  bondCfgs : Bool
  nbVlanFilter : Nat
  vlanFilterId : Nat → Nat
  vlanCfgs : Bool
  portidList : List Nat
  maxPortid : Nat
  portCfgs : Option (Int → PortCfg)
  nbRssTbl : Nat
  mtuEnable : Bool
  maxMtu : Nat
  mbufMode : MbufMode
  kniEnable : Bool
  ownerProcId : Int
  kniMethod : Option KniMethod
  kniAction : Option KniAction
  kernelCoexist : Bool

/-- `ff_default_config`. -/
def Config.default : Config where
  procType := .auto
  procId := -1
  lcoreMask := false
  procMask := false
  procLcore := none
  nbProcs := 0
  threadMode := false
  nbThreads := 0
  primarySlim := false
  logLevel := false
  nbChannel := false
  memory := false
  noHuge := false
  baseVirtaddr := false
  filePrefix := false
  allow := none
  extraEalArgs := none
  nbVdev := 0
  nbBond := 0
  vdevCfgs := false
  bondCfgs := false
  nbVlanFilter := 0
  vlanFilterId := fun _ => 0
  vlanCfgs := false
  portidList := []
  maxPortid := 0
  portCfgs := none
  nbRssTbl := 0
  mtuEnable := false
  maxMtu := 9000
  mbufMode := .large
  kniEnable := false
  ownerProcId := 0
  kniMethod := none
  kniAction := none
  kernelCoexist := false

/-- `port_cfgs[port]`, of zeros if there is no such table. -/
def Config.port (c : Config) (port : Int) : PortCfg :=
  match c.portCfgs with
  | some pcs => pcs port
  | none => .zero

/-! ## The command line -/

/-- A command line option of `ff_parse_args`. -/
inductive Opt where
  | conf
  | procId (arg : Text)
  | procType (t : ProcType)
  | unknown

/-- How loading fails: with an error return, or on a null pointer. -/
inductive Fail where
  | rejected
  | crashed
  deriving DecidableEq

/-- One round of the `getopt_long` loop of `ff_parse_args`. -/
def parseOpt (c : Config) : Opt → Except Fail Config
  | .conf => .ok c
  | .procId arg => .ok { c with procId := atoi arg }
  | .procType t => .ok { c with procType := t }
  | .unknown => .error .rejected

/-- `ff_parse_args`. -/
def ffParseArgs (opts : List Opt) : Except Fail Config := do
  let c ← opts.foldlM parseOpt Config.default
  if c.procType = .unknown then .error .rejected
  else if maxLcore < toU16 c.procId then .ok { c with procId := 0 }
  else .ok c

/-! ## The lines of the file -/

/-- Settings that are stored as they are. -/
inductive Key where
  | logLevel
  | channel
  | memory
  | noHuge
  | threadMode
  | primarySlim
  | baseVirtaddr
  | filePrefix
  | allow
  | extraEalArgs
  | nbVdev
  | nbBond
  | mtuEnable
  | kniEnable
  | ownerProcId
  deriving DecidableEq

/-- The keys of a port section that `port_cfg_handler` tells apart here. -/
inductive PortKey where
  | addr
  | netmask
  | broadcast
  | gateway
  | lcoreList
  | slavePortList
  | mtu
  | other
  deriving DecidableEq

/-- The keys of a vlan section that `vlan_cfg_handler` tells apart here. -/
inductive VlanKey where
  | portid
  | other
  deriving DecidableEq

/-- The keys of the `rss_check` section that `rss_check_cfg_handler` tells apart here. -/
inductive RssKey where
  | rssTbl
  | other
  deriving DecidableEq

/-- A line; `sec` is what follows `port`, `vlan`, `vdev` or `bond` in its section. -/
inductive Line where
  | set (k : Key) (value : Text)
  | lcoreMask (value : Text)
  | portList (value : Text) (junk : Nat → Nat)
  | vlanFilter (value : Text)
  | maxMtu (value : Text)
  | mbufMode (mode : Option MbufMode)
  | kniMethod (method : KniMethod)
  | kniAction (action : KniAction)
  | kernelCoexist (on : Bool)
  | port (sec : Text) (k : PortKey) (value : Text)
  | vlan (sec : Text) (k : VlanKey) (value : Text)
  | vdev (sec : Text)
  | bond (sec : Text)
  | rssCheck (k : RssKey) (value : Text)
  | other

section

variable (c : Config)

section

variable (value : Text)

/-- A setting is stored. -/
def setKey : Key → Config
  | .logLevel => { c with logLevel := toU16 (atoi value) != 0 }
  | .channel => { c with nbChannel := atoi value != 0 }
  | .memory => { c with memory := atoi value != 0 }
  | .noHuge => { c with noHuge := atoi value != 0 }
  | .threadMode => { c with threadMode := atoi value != 0 }
  | .primarySlim => { c with primarySlim := atoi value != 0 }
  | .baseVirtaddr => { c with baseVirtaddr := true }
  | .filePrefix => { c with filePrefix := true }
  | .allow => { c with allow := some value }
  | .extraEalArgs => { c with extraEalArgs := some value }
  | .nbVdev => { c with nbVdev := atoi value }
  | .nbBond => { c with nbBond := atoi value }
  | .mtuEnable => { c with mtuEnable := atoi value != 0 }
  | .kniEnable => { c with kniEnable := atoi value != 0 }
  | .ownerProcId => { c with ownerProcId := atoi value }

/-- An array after a list was written over it. -/
def overwrite (arr : Nat → Nat) (l : List Nat) (i : Nat) : Nat := (l[i]?).getD (arr i)

/-- A list written to an array of `cap` numbers: its length, and the array. An empty list leaves the
array and counts as a full one. -/
def storeList (cap : Nat) (arr : Nat → Nat) (value : Text) : Except Fail (Nat × (Nat → Nat)) :=
  match parseConfigList cap value with
  | none => .error .rejected
  | some [] => .ok (cap, arr)
  | some l => .ok (l.length, overwrite arr l)

/-- `DPDK_MAX_LCORE`, the room in `lcore_list`. -/
def dpdkMaxLcore : Nat := 128

/-- `DPDK_MAX_VLAN_FILTER`, the room in `vlan_filter_id` and in `vlan_cfgs` of a port. -/
def dpdkMaxVlanFilter : Nat := 128

/-- `RTE_MAX_ETHPORTS`, the room in `port_cfgs` and for a list of ports. -/
def maxEthports : Nat := 32

/-- `FF_RSS_TBL_MAX_ENTRIES`. -/
def rssTblMaxEntries : Nat := 64

/-- `DPDK_CONFIG_NUM`; `dpdk_argv` has one entry more. -/
def dpdkConfigNum : Nat := 32

/-- `parse_lcore_mask`, and where the lcores go. -/
def lcoreMaskHandler : Except Fail Config :=
  match parseLcoreMask c.procId value with
  | none => .error .rejected
  | some lcores =>
    .ok { c with
      lcoreMask := true
      procMask := c.procMask || 0 ≤ c.procId
      procLcore := some fun i => (lcores[i]?).getD 0
      nbProcs := lcores.length }

/-- `parse_port_list`. -/
def parsePortList (junk : Nat → Nat) : Except Fail Config := do
  let r ← storeList maxEthports junk value
  return { c with portidList := (List.range r.1).map r.2, maxPortid := r.2 (r.1 - 1) }

/-- `parse_vlan_filter_list`. -/
def parseVlanFilterList : Except Fail Config := do
  let r ← storeList dpdkMaxVlanFilter c.vlanFilterId value
  return { c with nbVlanFilter := r.1, vlanFilterId := r.2 }

/-- `ff_parse_u16`. -/
def ffParseU16 (lo hi : Nat) : Except Fail Nat :=
  let t := signOf (value.dropWhile isSpace)
  let ds := t.2.takeWhile Char.isDigit
  let v : Int := t.1 * decimal ds
  -- `strtoul` takes a minus sign and returns the number modulo `2 ^ 64`
  if ds ≠ [] ∧ t.2.dropWhile Char.isDigit = [] ∧ decimal ds < 2 ^ 64 ∧ lo ≤ v % 2 ^ 64 ∧
      v % 2 ^ 64 ≤ hi then
    .ok (v % 2 ^ 64).toNat
  else .error .rejected

end

/-- The entry of a port in use, when the first line of a port comes. -/
def initPort (pcs : Int → PortCfg) (portid : Nat) : Int → PortCfg :=
  Function.update pcs (portid : Int) { PortCfg.zero with
    nbLcores := c.nbProcs
    lcoreList := fun i => if i < c.nbProcs then (c.procLcore.getD fun _ => 0) i else 0
    mtu := 1500 }

/-- The ports of `port_list` as `port_cfg_handler` finds them. -/
def initPorts : Int → PortCfg := c.portidList.foldl (initPort c) fun _ => .zero

/-- What a line sets in the entry of its port. -/
def setPort (pc : PortCfg) (value : Text) : PortKey → Except Fail PortCfg
  | .addr => .ok { pc with addr := true }
  | .netmask => .ok { pc with netmask := true }
  | .broadcast => .ok { pc with broadcast := true }
  | .gateway => .ok { pc with gateway := true }
  | .lcoreList => do
    let r ← storeList dpdkMaxLcore pc.lcoreList value
    return { pc with nbLcores := r.1, lcoreList := r.2 }
  | .slavePortList => do
    let r ← storeList maxEthports (fun _ => 0) value
    return { pc with nbSlaves := r.1 }
  | .mtu => do
    let mtu ← ffParseU16 value 68 65535
    return { pc with mtu := mtu }
  | .other => .ok pc

/-- `port_cfg_handler`. -/
def portCfgHandler (sec : Text) (k : PortKey) (value : Text) : Except Fail Config :=
  if c.portidList = [] then .error .rejected
  else
    let pcs := c.portCfgs.getD (initPorts c)
    match scanInt sec with
    | none => .error .rejected
    | some portid =>
      -- a port that is not there has no effect
      if (c.maxPortid : Int) < portid then .ok { c with portCfgs := some pcs }
      else do
        let pc ← setPort (pcs portid) value k
        return { c with portCfgs := some (Function.update pcs portid pc) }

/-- `vlan_cfg_handler`. -/
def vlanCfgHandler (sec : Text) (k : VlanKey) (value : Text) : Except Fail Config :=
  if c.nbVlanFilter = 0 then .error .rejected
  else
    match scanInt sec with
    | none => .error .rejected
    | some vlanid =>
      let c := { c with vlanCfgs := true }
      if (List.range c.nbVlanFilter).any fun i => vlanid == (c.vlanFilterId i : Int) then
        match k with
        | .other => .ok c
        | .portid =>
          if (c.maxPortid : Int) < atoi value then .ok c
          else
            match c.portCfgs with
            | none => .error .crashed
            | some pcs =>
              .ok { c with portCfgs := some (Function.update pcs (atoi value)
                { pcs (atoi value) with nbVlan := (pcs (atoi value)).nbVlan + 1 }) }
      else .ok c

/-- `vdev_cfg_handler`. -/
def vdevCfgHandler (sec : Text) : Except Fail Config :=
  if c.nbVdev = 0 ∨ scanInt sec = none then .error .rejected else .ok { c with vdevCfgs := true }

/-- `bond_cfg_handler`. -/
def bondCfgHandler (sec : Text) : Except Fail Config :=
  if c.nbBond = 0 ∨ scanInt sec = none then .error .rejected else .ok { c with bondCfgs := true }

/-- `rss_tbl_cfg_handler`: the number of entries. -/
def rssTblCfgHandler (nb : Nat) (value : Text) : Nat :=
  let entries := strsplit ';' rssTblMaxEntries value
  if entries ≠ [] ∧ (entries.all fun e => (strsplit ' ' 4 e).length == 4) = true then entries.length
  else nb

/-- `rss_check_cfg_handler`. -/
def rssCheckCfgHandler (k : RssKey) (value : Text) : Except Fail Config :=
  if c.portCfgs.isNone ∧ c.vlanCfgs = false then .error .rejected
  else
    match k with
    | .rssTbl => .ok { c with nbRssTbl := rssTblCfgHandler c.nbRssTbl value }
    | .other => .ok c

/-- `ini_parse_handler`. -/
def iniParseHandler : Line → Except Fail Config
  | .set k value => .ok (setKey c value k)
  | .lcoreMask value => lcoreMaskHandler c value
  | .portList value junk => parsePortList c value junk
  | .vlanFilter value => parseVlanFilterList c value
  | .maxMtu value => do
    let mtu ← ffParseU16 value 1500 65535
    return { c with maxMtu := mtu }
  | .mbufMode none => .error .rejected
  | .mbufMode (some mode) => .ok { c with mbufMode := mode }
  | .kniMethod method => .ok { c with kniMethod := some method }
  | .kniAction action => .ok { c with kniAction := some action }
  | .kernelCoexist on => .ok { c with kernelCoexist := on }
  | .port sec k value => portCfgHandler c sec k value
  | .vlan sec k value => vlanCfgHandler c sec k value
  | .vdev sec => vdevCfgHandler c sec
  | .bond sec => bondCfgHandler c sec
  | .rssCheck k value => rssCheckCfgHandler c k value
  | .other => .ok c

/-! ## The check -/

/-- `uint16_binary_search` in `arr[l..l+n)`, with so many calls. -/
def binarySearch (arr : Nat → Nat) (x : Nat) : Nat → Nat → Nat → Bool
  | 0, _, _ => false
  | fuel + 1, l, n =>
    if n = 0 then false
    else
      let mid := l + (n - 1) / 2
      if arr mid = x then true
      else if x < arr mid then binarySearch arr x fuel l ((n - 1) / 2)
      else binarySearch arr x fuel (mid + 1) (n - 1 - (n - 1) / 2)

variable (oob : Int → Nat)

/-- `proc_lcore[i]`. -/
def Config.lcoreAt (i : Int) : Except Fail Nat :=
  match c.procLcore with
  | none => .error .crashed
  | some arr => .ok (if 0 ≤ i ∧ i < maxLcore then arr i.toNat else oob i)

/-- `port_cfgs[portid]`. -/
def Config.portAt (portid : Nat) : Except Fail PortCfg :=
  match c.portCfgs with
  | none => .error .crashed
  | some pcs => .ok (pcs portid)

/-- A check of `ff_check_config`. -/
def check (ok : Bool) : Except Fail Unit := if ok then .ok () else .error .rejected

/-- The checks of a port. -/
def checkPort (portid : Nat) : Except Fail Unit := do
  let pc ← c.portAt portid
  check (pc.addr && pc.netmask && pc.broadcast && pc.gateway)
  check (pc.lcores.all fun lcore =>
    binarySearch (c.procLcore.getD fun _ => 0) lcore (c.nbProcs + 1) 0 c.nbProcs)
  if c.primarySlim && c.procType = .primary then
    let primLcore ← c.lcoreAt oob c.procId
    check (!pc.lcores.contains primLcore)
  if c.primarySlim && c.kniEnable then
    let ownerLcore ← c.lcoreAt oob c.ownerProcId
    check (pc.lcores.contains ownerLcore)
  if c.kniEnable && !c.primarySlim && c.procType = .primary then
    let lcore ← c.lcoreAt oob c.procId
    check (pc.lcores.contains lcore)

/-- The checks of the MTUs. -/
def checkMtu : Bool :=
  if c.mtuEnable then
    1500 ≤ c.maxMtu &&
    (c.mbufMode != .large || (128 + c.maxMtu + 26 + 63) / 64 * 64 ≤ 65535) &&
    (c.portidList.all fun p => 68 ≤ (c.port p).mtu && (c.port p).mtu ≤ c.maxMtu) &&
    !c.kernelCoexist
  else c.portidList.all fun p => (c.port p).mtu ≤ 1500

/-- What thread mode makes of a configuration. -/
def collapse : Config :=
  { c with
    procType := .primary
    nbThreads := c.nbProcs
    nbProcs := 1
    procId := 0
    procMask := c.procMask || c.lcoreMask }

/-- `ff_check_config`. -/
def ffCheckConfig : Except Fail Config := do
  check (!c.kniEnable || c.kniMethod.isSome)
  check (c.kniMethod != some .unknown)
  check (c.kniAction != some .unknown)
  c.portidList.forM (checkPort c oob)
  check (checkMtu c)
  check (!(c.primarySlim && c.threadMode))
  check (!(c.primarySlim && c.nbProcs < 2))
  if c.threadMode then
    check (c.procType != .secondary)
    return collapse c
  return c

/-! ## The arguments for the EAL -/

/-- The tokens `strtok_r` finds. -/
def strtokCount (delim : Char) (s : Text) : Nat :=
  ((s.splitOn delim).filter (· ≠ [])).length

/-- `dpdk_args_setup`: the number of arguments. -/
def dpdkArgsSetup : Except Fail Nat := do
  let mut n := 2 + c.noHuge.toNat + c.procMask.toNat + c.nbChannel.toNat + c.memory.toNat +
    c.logLevel.toNat + c.baseVirtaddr.toNat + c.filePrefix.toNat +
    (c.allow.elim 0 (strtokCount ','))
  if c.nbVdev ≠ 0 then
    if 0 < c.nbVdev ∧ c.vdevCfgs = false then throw .crashed
    n := n + c.nbVdev.toNat + 1 + (!c.filePrefix).toNat
  if c.nbBond ≠ 0 then
    if 0 < c.nbBond ∧ c.bondCfgs = false then throw .crashed
    n := n + 2 * c.nbBond.toNat
  -- the only tokens that are counted
  let room := dpdkConfigNum - n
  return n + min room (c.extraEalArgs.elim 0 (strtokCount ' '))

end

/-- `ff_load_config`: the configuration if it returns 0, and `dpdk_argc`. -/
def ffLoadConfig (opts : List Opt) (lines : List Line) (oob : Int → Nat) :
    Except Fail (Config × Nat) := do
  let c ← ffParseArgs opts
  let c ← lines.foldlM iniParseHandler c
  let c ← ffCheckConfig c oob
  let n ← dpdkArgsSetup c
  return (c, n)

end FStack.Conf
