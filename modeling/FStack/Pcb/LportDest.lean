import FStack.Lib.CyclicScan
import FStack.Rss.Adjust
import FStack.Rss.PortRangeExact

/-!
# Source-port selection

Model of `in_pcb_lport_dest` (`freebsd/netinet/in_pcb.c:766-1103`), in the build with `FSTACK`,
`INET` and `INET6`.

A call with `INPLOOKUP_LPORT_RSS_CHECK` looks for a port whose replies arrive at this lcore's queue,
in three ways: from the RSS port table, which the first such call of a family restricts to its own
port range; by reverse calculation, at most 8 times; by a scan of the range with `ff_rss_check`. The
state that outlives a call is the static `rss_tbl_init` of each family, the tables with their
rotating index `dport[0]`, and the `lastport` cursors of the pcbinfos.

The pcb lookups, the interface lookup, `priv_check_cred`, the sysctl values and the random numbers
are inputs of a call. The two callers that set the flag have cleared the version flag of the other
family, so the local lookup is one lookup. An interface is F-Stack's veth of a DPDK port, or the
loopback.
-/

namespace FStack.Pcb

open Function FStack.Rss FStack.Lib

/-! ## Calls and states -/

/-- `INP_HIGHPORT`, `INP_LOWPORT` or neither. -/
inductive PortKind where
  | high
  | low
  | auto
  deriving DecidableEq

/-- What `ifa_ifwithnet` finds for the local or the foreign address. -/
inductive Iface where
  | missing
  | loopback
  | veth (port : Nat)

/-- The errors of `in_pcb_lport_dest`. -/
inductive LportError where
  /-- The error of `priv_check_cred`. -/
  | priv
  | addrNotAvail
  deriving DecidableEq

/-- `rss_tbl_init`: 0, 1 or -1. -/
inductive TblStatus where
  | unset
  | ready
  | failed
  deriving DecidableEq

/-- One call: its arguments and what it meets. -/
structure LportCall (A : Type) where
  kind : PortKind
  /-- The sysctl pair of the kind. -/
  range : Fin 65536 × Fin 65536
  /-- `priv_check_cred` returned 0. -/
  priv : Bool
  /-- `V_ipport_randomized`. -/
  randomized : Bool
  rssCheckFlag : Bool
  laddr : A
  faddr : A
  fport : InPort
  /-- The pcb lookup finds a pcb at this port. -/
  used : Nat → Bool
  ifp : Iface
  /-- `arc4random` for the table index and for `*lastport`. -/
  rndWindow : Nat
  rndPort : Nat
  /-- What each call of `ff_rss_adjust_sport` meets. -/
  adjust : Nat → AdjustCalls

namespace LportCall

variable {A : Type} (c : LportCall A)

/-- `first`, after the swap of a reversed range. -/
def first : Nat := if c.range.2 < c.range.1 then c.range.2 else c.range.1

/-- `last`, after the swap of a reversed range. -/
def last : Nat := if c.range.2 < c.range.1 then c.range.1 else c.range.2

/-- `dorandom`: a range of one port is not randomized. -/
def dorandom : Bool := c.randomized && c.first != c.last

theorem first_le_last : c.first ≤ c.last := by
  unfold first last
  split
  next h => exact Nat.le_of_lt h
  next h => exact not_lt.1 h

theorem last_lt : c.last < 65536 := by
  unfold last
  split
  · exact c.range.1.isLt
  · exact c.range.2.isLt

end LportCall

/-- The settings and the RSS state, fixed once the stack runs. -/
structure LportEnv where
  s : RssState
  lc : LcoreConf
  cfg : AdjustCfg
  /-- `rss_check_cfgs && rss_check_cfgs->enable`. -/
  enabled : Bool
  /-- `init_lcore_conf` numbers the queues of a port below their count. -/
  queueid_lt : ∀ port, 1 < lc.nbQueueList port → lc.txQueueId port < lc.nbQueueList port

/-- `rss_tbl_init` and `ff_rss_tbl`, or their IPv6 twins. -/
structure FamState (A : Type) where
  init : TblStatus
  tbl : RssTbl A

/-! ## The model -/

section Model

variable {A : Type} [DecidableEq A] (F : ThashFamily A) (env : LportEnv) (c : LportCall A)

variable (fs : FamState A)

/-- `if (rss_tbl_init == 0)`. -/
def tableInit : FamState A :=
  match fs.init with
  | .unset =>
    let r := setPortrange F.toFamily env.enabled c.first c.last fs.tbl
    ⟨if r.1 < 0 then .failed else .ready, r.2⟩
  | _ => fs

/-- `if (rss_tbl_init == 1)`: the entry found, if any. -/
def tableGet : FamState A × Option (DipSlot A) :=
  match fs.init with
  | .ready =>
    match tblGet F.toFamily env.enabled fs.tbl c.faddr c.laddr c.fport with
    | .ok e => (fs, some e)
    | .error r => (if r ≠ -enoent then { fs with init := .failed } else fs, none)
  | _ => (fs, none)

/-- Where `rss_portrange` points to. -/
def tblSlot (F : Family A) (T : RssTbl A) (saddr daddr : A) (sport : InPort) : Nat × Nat :=
  let i := (findSaddr F T saddr sport).getD 0
  (i, (findDaddr F (T i) daddr).getD 0)

/-- `rss_portrange[rss_portrange[0]]` when the index is `i`. -/
def portrangeAt (e : DipSlot A) (i : Nat) : Nat := update e.dport 0 i i

/-- `do … while` with `rss_match`: through the entry's ports. -/
def tableScan (e : DipSlot A) :
    Except TblFault (FamState A × Nat × Except LportError Nat) := do
  let count : Int := e.lastIdx - e.firstIdx + 1
  let idx := if c.dorandom then (e.firstIdx + c.rndWindow % count.toNat) % 65536 else e.dport 0
  let r ← CyclicScan.scan (CyclicScan.next e.firstIdx e.lastIdx)
    (fun i => .ok (!c.used (portrangeAt e i))) (count + 1).toNat idx
  let p := tblSlot F.toFamily fs.tbl c.faddr c.laddr c.fport
  let tbl := setDip fs.tbl p.1 p.2 { e with dport := update e.dport 0 r.2 }
  let lastport := portrangeAt e r.2
  return ({ fs with tbl }, lastport, if r.1 then .ok lastport else .error .addrNotAvail)

/-- The reverse calculation, at most `n` more times. -/
def fastPath (port : Nat) : Nat → Nat → Except TblFault (Option Nat)
  | 0, _ => .ok none
  | n + 1, i => do
    match ← adjustSport F env.cfg env.s env.lc port c.faddr c.laddr c.fport c.first c.last
        (c.adjust i) with
    | none => return none
    | some rssSel => if c.used rssSel then fastPath port n (i + 1) else return some rssSel

/-- Whether the loop stops at `p`. -/
def acceptPort (p : Nat) : Except TblFault Bool :=
  if c.used p then .ok false
  else if !c.rssCheckFlag then .ok true
  else
    match c.ifp with
    | .veth port =>
      match F.check env.s env.lc port c.faddr c.laddr c.fport (htons p) with
      | none => .error .nullKey
      | some b => .ok b
    | _ => .ok true

/-- `do … while` without `rss_match`: through the range. -/
def portScan (lastport : Nat) :
    Except TblFault (FamState A × Nat × Except LportError Nat) := do
  let start := if c.dorandom then c.first + c.rndPort % (c.last - c.first) else lastport
  let r ← CyclicScan.scan (CyclicScan.next c.first c.last) (acceptPort F env c)
    (c.last - c.first + 1) start
  return (fs, r.2, if r.1 then .ok r.2 else .error .addrNotAvail)

/-- The body of `in_pcb_lport_dest` for one family: its state, `*lastport` and the result. -/
def lportDest (lastport : Nat) : Except TblFault (FamState A × Nat × Except LportError Nat) :=
  if c.kind = .low && !c.priv then .ok (fs, lastport, .error .priv)
  else if c.rssCheckFlag then
    match tableGet F env c (tableInit F env c fs) with
    | (fs, some e) => tableScan F c fs e
    | (fs, none) =>
      match c.ifp with
      | .missing => .ok (fs, lastport, .error .addrNotAvail)
      | .loopback => portScan F env c fs lastport
      | .veth port => do
        match ← fastPath F env c port 8 0 with
        | some rssSel => return (fs, rssSel, .ok rssSel)
        | none => portScan F env c fs lastport
  else portScan F env c fs lastport

end Model

/-- What outlives a call. -/
structure PcbState where
  inet : FamState InAddr
  inet6 : FamState In6Addr
  /-- `ipi_lasthi`, `ipi_lastlow` and `ipi_lastport` of each pcbinfo. -/
  lastport : Nat → PortKind → Nat

/-- A call for an IPv4 or an IPv6 pcb of some pcbinfo. -/
inductive Call where
  | inet (pcbinfo : Nat) (c : LportCall InAddr)
  | inet6 (pcbinfo : Nat) (c : LportCall In6Addr)

/-- Writes one of the three `lastport` counters of a `pcbinfo`. -/
def setLastport (lastport : Nat → PortKind → Nat) (pcbinfo : Nat) (kind : PortKind) (p : Nat) :
    Nat → PortKind → Nat :=
  update lastport pcbinfo (update (lastport pcbinfo) kind p)

/-- `in_pcb_lport_dest`. -/
def inPcbLportDest (env : LportEnv) (st : PcbState) :
    Call → Except TblFault (PcbState × Except LportError Nat)
  | .inet pcbinfo c => do
    let r ← lportDest inetThash env c st.inet (st.lastport pcbinfo c.kind)
    return ({ st with inet := r.1, lastport := setLastport st.lastport pcbinfo c.kind r.2.1 }, r.2.2)
  | .inet6 pcbinfo c => do
    let r ← lportDest inet6Thash env c st.inet6 (st.lastport pcbinfo c.kind)
    return ({ st with inet6 := r.1, lastport := setLastport st.lastport pcbinfo c.kind r.2.1 }, r.2.2)

/-- The state after a sequence of calls. -/
def runCalls (env : LportEnv) (st : PcbState) (calls : List Call) : Except TblFault PcbState :=
  calls.foldlM (fun st c => Prod.fst <$> inPcbLportDest env st c) st

/-- Before the first call, with the tables as initialised. -/
def PcbState.start (tbl : RssTbl InAddr) (tbl6 : RssTbl In6Addr)
    (lastport : Nat → PortKind → Nat) : PcbState :=
  ⟨⟨.unset, tbl⟩, ⟨.unset, tbl6⟩, lastport⟩

end FStack.Pcb
