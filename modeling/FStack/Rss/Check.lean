import FStack.Rss.Key

/-!
# Software queue prediction

Model of `ff_rss_check` (`lib/ff_dpdk_if.c:3371-3407`), `ff_rss_check6`
(`lib/ff_dpdk_if.c:3875-3904`) and of the queue assignment of `init_lcore_conf`
(`lib/ff_dpdk_if.c:449-551`).

Addresses and ports are the values the C code holds, in network byte order: an IPv4 address and a
port are unsigned integers whose bytes `bcopy` lays out from the lowest up, an IPv6 address is its
16 bytes. A NULL `rsskey` is dereferenced by `toeplitz_hash`; the check is then `none`.

Results:
* `rssCheck_eq`: the check on a multi-queue port, through the hash modulo the table size.
* `initLcoreConf_of_mem`: the queue numbers of a port the lcore serves.
* `exists_tuple6`: every 36-byte string is the hash input of some IPv6 tuple.
-/

namespace FStack.Rss

open Function List

/-! ## Values in memory -/

/-- An IPv4 address, in network byte order. -/
abbrev InAddr := BitVec 32

/-- A port number, in network byte order. -/
abbrev InPort := BitVec 16

/-- An IPv6 address: 16 bytes. -/
structure In6Addr where
  bytes : List Byte
  length_eq : bytes.length = 16
  deriving DecidableEq

/-- The lowest `n` bytes of a number, lowest first. -/
def natBytes : Nat → Nat → List Byte
  | 0, _ => []
  | n + 1, v => BitVec.ofNat 8 v :: natBytes n (v / 256)

/-- The bytes of an integer as `bcopy` reads them on a little-endian machine. -/
def memBytes {w : Nat} (x : BitVec w) : List Byte := natBytes (w / 8) x.toNat

/-- `htons`. -/
def htons (j : Nat) : InPort := BitVec.ofNat 16 (j % 256 * 256 + j / 256 % 256)

@[simp] theorem natBytes_length : ∀ n v, (natBytes n v).length = n
  | 0, _ => rfl
  | n + 1, v => by simp [natBytes, natBytes_length n]

@[simp] theorem memBytes_length {w : Nat} (x : BitVec w) : (memBytes x).length = w / 8 :=
  natBytes_length _ _

theorem exists_natBytes : ∀ l : List Byte, ∃ v, v < 256 ^ l.length ∧ natBytes l.length v = l
  | [] => ⟨0, by simp, rfl⟩
  | b :: l => by
    obtain ⟨v, hv, hl⟩ := exists_natBytes l
    refine ⟨v * 256 + b.toNat, ?_, ?_⟩
    · rw [length_cons, Nat.pow_succ]
      omega
    · have hlow : BitVec.ofNat 8 (v * 256 + b.toNat) = b := by
        apply BitVec.eq_of_toNat_eq
        simp only [BitVec.toNat_ofNat]
        omega
      have hhigh : (v * 256 + b.toNat) / 256 = v := by omega
      rw [length_cons, natBytes, hlow, hhigh, hl]

/-- Every string of the right length is some integer's bytes. -/
theorem exists_memBytes {n : Nat} {l : List Byte} (hl : l.length = n) :
    ∃ x : BitVec (8 * n), memBytes x = l := by
  obtain ⟨v, hv, hb⟩ := exists_natBytes l
  have hpow : 256 ^ n = 2 ^ (8 * n) := by rw [Nat.pow_mul]
  refine ⟨BitVec.ofNat (8 * n) v, ?_⟩
  rw [memBytes, BitVec.toNat_ofNat, Nat.mod_eq_of_lt (by rw [← hpow, ← hl]; exact hv),
    Nat.mul_div_cancel_left n (by omega), ← hl, hb]

/-! ## Hash inputs -/

/-- The 12 bytes `ff_rss_check` hashes. -/
def tupleBytes (saddr daddr : InAddr) (sport dport : InPort) : List Byte :=
  memBytes saddr ++ memBytes daddr ++ memBytes sport ++ memBytes dport

/-- The 36 bytes `ff_rss_check6` hashes. -/
def tuple6Bytes (saddr6 daddr6 : In6Addr) (sport dport : InPort) : List Byte :=
  saddr6.bytes ++ daddr6.bytes ++ memBytes sport ++ memBytes dport

@[simp] theorem tupleBytes_length (saddr daddr : InAddr) (sport dport : InPort) :
    (tupleBytes saddr daddr sport dport).length = 12 := by
  simp [tupleBytes]

@[simp] theorem tuple6Bytes_length (saddr6 daddr6 : In6Addr) (sport dport : InPort) :
    (tuple6Bytes saddr6 daddr6 sport dport).length = 36 := by
  simp [tuple6Bytes, saddr6.length_eq, daddr6.length_eq]

theorem exists_tuple6 {data : List Byte} (h : data.length = 36) :
    ∃ saddr6 daddr6 sport dport, tuple6Bytes saddr6 daddr6 sport dport = data := by
  obtain ⟨sport, hs⟩ := exists_memBytes (n := 2) (l := (data.drop 32).take 2) (by simp [h])
  obtain ⟨dport, hd⟩ := exists_memBytes (n := 2) (l := (data.drop 34)) (by simp [h])
  refine ⟨⟨data.take 16, by simp [h]⟩, ⟨(data.drop 16).take 16, by simp [h]⟩, sport, dport, ?_⟩
  unfold tuple6Bytes
  rw [hs, hd]
  have h1 : data.drop 34 = (data.drop 32).drop 2 := by rw [drop_drop]
  have h2 : data.drop 32 = (data.drop 16).drop 16 := by rw [drop_drop]
  rw [h1, append_assoc, append_assoc, take_append_drop, h2, take_append_drop, take_append_drop]

/-! ## The lcore's queues -/

/-- `struct ff_port_cfg`: the fields the set-up reads. -/
structure PortCfg where
  lcoreList : List Nat
  slavePortidList : List Nat

/-- `nb_lcores`. -/
def PortCfg.nbLcores (p : PortCfg) : Nat := p.lcoreList.length

/-- `struct lcore_conf`: the fields `ff_rss_check` reads. -/
structure LcoreConf where
  nbQueueList : Nat → Nat
  txQueueId : Nat → Nat

/-- The `queueid` loop: the last position at which the lcore is listed. -/
def queueidOf (lcore : Nat) (lcoreList : List Nat) : Option Nat :=
  lcoreList.zipIdx.foldl (fun queueid p => if p.1 = lcore then some p.2 else queueid) none

/-- The body of the port loop of `init_lcore_conf`: an lcore without a queue on the port skips
it. -/
def initLcorePort (portCfgs : Nat → PortCfg) (lcore : Nat) (lc : LcoreConf) (port : Nat) :
    LcoreConf :=
  match queueidOf lcore (portCfgs port).lcoreList with
  | none => lc
  | some queueid =>
    { nbQueueList := update lc.nbQueueList port (portCfgs port).nbLcores
      txQueueId := update lc.txQueueId port queueid }

/-- `init_lcore_conf`, for the lcore with id `lcore`. -/
def initLcoreConf (portidList : List Nat) (portCfgs : Nat → PortCfg) (lcore : Nat) : LcoreConf :=
  portidList.foldl (initLcorePort portCfgs lcore) ⟨fun _ => 0, fun _ => 0⟩

theorem queueidOf_append (lcore x : Nat) (l : List Nat) :
    queueidOf lcore (l ++ [x]) = if x = lcore then some l.length else queueidOf lcore l := by
  simp [queueidOf, zipIdx_append, foldl_append]

variable {lcore queueid : Nat} {lcoreList : List Nat}

/-- The queue is that of the lcore, and the last of them. -/
theorem queueidOf_spec (h : queueidOf lcore lcoreList = some queueid) :
    lcoreList[queueid]? = some lcore ∧ ∀ i, lcoreList[i]? = some lcore → i ≤ queueid := by
  induction lcoreList using reverseRecOn with
  | nil => cases h
  | append_singleton l x ih =>
    rw [queueidOf_append] at h
    split at h
    next hx =>
      cases h
      refine ⟨by simp [hx], fun i hi => ?_⟩
      have hlt := (List.getElem?_eq_some_iff.mp hi).1
      rw [length_append, length_singleton] at hlt
      omega
    next hx =>
      obtain ⟨hq, hlast⟩ := ih h
      have hlt : queueid < l.length := (List.getElem?_eq_some_iff.mp hq).1
      refine ⟨by rw [getElem?_append_left hlt, hq], fun i hi => ?_⟩
      rcases lt_or_ge i l.length with hil | hil
      · rw [getElem?_append_left hil] at hi
        exact hlast i hi
      · rw [getElem?_append_right hil] at hi
        obtain ⟨_, hxl⟩ := List.getElem?_eq_some_iff.mp hi
        exact absurd ((getElem_singleton _).symm.trans hxl) hx

theorem queueidOf_lt (h : queueidOf lcore lcoreList = some queueid) : queueid < lcoreList.length :=
  (List.getElem?_eq_some_iff.mp (queueidOf_spec h).1).1

theorem queueidOf_of_mem (h : lcore ∈ lcoreList) :
    ∃ queueid, queueidOf lcore lcoreList = some queueid := by
  induction lcoreList using reverseRecOn with
  | nil => cases h
  | append_singleton l x ih =>
    rw [queueidOf_append]
    split
    · exact ⟨_, rfl⟩
    next hx =>
      rcases mem_append.mp h with h | h
      · exact ih h
      · exact absurd (mem_singleton.mp h).symm hx

/-- The record serves `port` through queue `queueid` of `nb`. -/
def LcoreConf.Serves (lc : LcoreConf) (port nb queueid : Nat) : Prop :=
  lc.nbQueueList port = nb ∧ lc.txQueueId port = queueid

variable {lc : LcoreConf} {m : Nat}

section Serves

variable {portCfgs : Nat → PortCfg} {port queueid : Nat}
  (hq : queueidOf lcore (portCfgs port).lcoreList = some queueid)

include hq

theorem initLcorePort_self (lc : LcoreConf) :
    (initLcorePort portCfgs lcore lc port).Serves port (portCfgs port).nbLcores queueid := by
  simp [initLcorePort, hq, LcoreConf.Serves]

theorem initLcorePort_serves (p : Nat) (h : lc.Serves port (portCfgs port).nbLcores queueid) :
    (initLcorePort portCfgs lcore lc p).Serves port (portCfgs port).nbLcores queueid := by
  by_cases hp : p = port
  · subst hp
    exact initLcorePort_self hq lc
  · unfold initLcorePort
    split
    · exact h
    · exact ⟨(update_of_ne (Ne.symm hp) _ _).trans h.1,
        (update_of_ne (Ne.symm hp) _ _).trans h.2⟩

theorem initLcoreConf_of_mem {portidList : List Nat} (hport : port ∈ portidList) :
    (initLcoreConf portidList portCfgs lcore).Serves port (portCfgs port).nbLcores queueid := by
  obtain ⟨pre, post, rfl⟩ := append_of_mem hport
  unfold initLcoreConf
  rw [foldl_append, foldl_cons]
  refine foldlRecOn (motive := fun lc : LcoreConf => lc.Serves port _ queueid) post _
    (initLcorePort_self hq _) ?_
  intro lc h p _
  exact initLcorePort_serves hq p h

end Serves

/-! ## `ff_rss_check` -/

variable (s : RssState)

/-- The part `ff_rss_check` and `ff_rss_check6` share: the verdict on the bytes to hash. -/
def rssCheck (lc : LcoreConf) (port : Nat) (data : List Byte) : Option Bool :=
  let nbQueues := lc.nbQueueList port
  if nbQueues ≤ 1 then some true
  else
    let retaSize := s.retaSize port
    let queueid := lc.txQueueId port
    match s.rsskey with
    | none => none
    | some rsskey =>
      let hash := toeplitzHash s.rsskeyLen rsskey data
      some ((hash &&& (BitVec.ofNat 32 retaSize - 1#32)).toNat % nbQueues == queueid)

/-- `ff_rss_check`. -/
def ffRssCheck (lc : LcoreConf) (port : Nat) (saddr daddr : InAddr)
    (sport dport : InPort) : Option Bool :=
  rssCheck s lc port (tupleBytes saddr daddr sport dport)

/-- `ff_rss_check6`. -/
def ffRssCheck6 (lc : LcoreConf) (port : Nat) (saddr6 daddr6 : In6Addr)
    (sport dport : InPort) : Option Bool :=
  rssCheck s lc port (tuple6Bytes saddr6 daddr6 sport dport)

theorem and_pred_toNat (hash : BitVec 32) (hm : m < 32) :
    (hash &&& (BitVec.ofNat 32 (2 ^ m) - 1#32)).toNat = hash.toNat % 2 ^ m := by
  have hpos : 0 < 2 ^ m := Nat.pow_pos (by omega)
  have hlt : 2 ^ m < 2 ^ 32 := Nat.pow_lt_pow_right (by omega) hm
  have hmask : (BitVec.ofNat 32 (2 ^ m) - 1#32).toNat = 2 ^ m - 1 := by
    rw [BitVec.toNat_sub, BitVec.toNat_ofNat, BitVec.toNat_ofNat]
    omega
  rw [BitVec.toNat_and, hmask, Nat.and_two_pow_sub_one_eq_mod]

theorem rssCheck_eq {s : RssState} {port : Nat} {key : List Byte} (data : List Byte)
    (hnb : 1 < lc.nbQueueList port) (hreta : s.retaSize port = 2 ^ m) (hm : m < 32)
    (hkey : s.rsskey = some key) : rssCheck s lc port data =
      some ((toeplitzHash s.rsskeyLen key data).toNat % 2 ^ m % lc.nbQueueList port ==
        lc.txQueueId port) := by
  unfold rssCheck
  simp only [hkey, hreta, and_pred_toNat _ hm, not_le.2 hnb, if_false]

end FStack.Rss
