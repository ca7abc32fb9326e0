import FStack.Zc.Read

/-!
# Who owns a zero-copy chain

Model of `ff_zc_send` and `ff_zc_recv` (`lib/ff_syscall_wrapper.c:1319-1395`) and of
`kern_zc_sendit` and `kern_zc_recvit` (`freebsd/kern/uipc_syscalls.c:1064-1178`), with what each of
their exits does with the chain. Outside are the results of `getsock`, of the MAC checks (0 in a
build without `MAC`), of `sosend`, which takes the chain in every case, and of `soreceive`, which
returns as much data as it takes off `uio_resid`, also when it fails (`Soreceive`).

`ff_zc_send` checks its arguments before the call of `kern_zc_sendit`, and frees nothing there: for
`nbytes` 0, or above `INT_MAX`, it returns -1 with `EINVAL`, as it does for a chain without
`M_PKTHDR`, which has been freed then.

Results:
* `ownership_iff`: the chain is taken or freed once iff `nbytes` is in range, and receiving is
  always right; `ownership_not`: two calls with the same result, of which one leaves the chain.
-/

namespace FStack.Zc

/-! ## Sending -/

/-- What becomes of a chain. -/
inductive Fate where
  /-- `m_freem`. -/
  | freed
  /-- `sosend` took it. -/
  | taken
  deriving DecidableEq

/-- The first mbuf of a chain that is sent. -/
structure Top where
  /-- `m_flags & M_PKTHDR`. -/
  pktHdr : Bool
  /-- `m_pkthdr.len`. -/
  hdrLen : Int

/-- What the functions called return; `0` is success. -/
structure Kernel where
  getsock : Int
  mac : Int
  sosend : Int
  /-- `so_options & SO_NOSIGPIPE`. -/
  noSigpipe : Bool

/-- The error a kernel function returns, and what it has done. -/
structure Sendit where
  error : Int
  /-- `td_retval[0]`, if it is set. -/
  retval : Option Int
  fates : List Fate
  /-- `SIGPIPE` is sent. -/
  sigpipe : Bool
  deriving DecidableEq

/-- `EINVAL` of FreeBSD. -/
def EINVAL : Int := 22
/-- `EPIPE` of FreeBSD. -/
def EPIPE : Int := 32

/-- An exit that frees the chain. -/
def Sendit.drop (error : Int) : Sendit := ⟨error, none, [.freed], false⟩

variable (k : Kernel)

/-- `kern_zc_sendit`, with `flags` 0. -/
def kernZcSendit (top : Option Top) : Sendit :=
  match top with
  | none => ⟨EINVAL, none, [], false⟩
  | some top =>
    if !top.pktHdr then .drop EINVAL
    else if top.hdrLen < 0 then .drop EINVAL
    else if k.getsock ≠ 0 then .drop k.getsock
    else if k.mac ≠ 0 then .drop k.mac
    else if k.sosend = 0 then ⟨0, some top.hdrLen, [.taken], false⟩
    else ⟨k.sosend, none, [.taken], k.sosend == EPIPE && !k.noSigpipe⟩

/-- The result of a call: what it returns, the error it passes to `ff_os_errno`, and what became of
the chain. -/
structure Sent where
  ret : Int
  errno : Option Int
  fates : List Fate
  deriving DecidableEq

/-- `ff_zc_send`. -/
def ffZcSend (mb : Option Top) (nbytes : Nat) : Sent :=
  if mb.isNone ∨ nbytes = 0 ∨ 2147483647 < nbytes then ⟨-1, some EINVAL, []⟩
  else
    let r := kernZcSendit k mb
    if r.error ≠ 0 then ⟨-1, some r.error, r.fates⟩
    else ⟨r.retval.getD 0, none, r.fates⟩

variable (top : Top)

variable (nbytes : Nat)

/-- The chain is taken or freed once, and if the result is not -1 it was sent. -/
def SendRight : Prop :=
  (ffZcSend k (some top) nbytes).fates.length = 1 ∧
    ((ffZcSend k (some top) nbytes).ret ≠ -1 →
      ffZcSend k (some top) nbytes = ⟨top.hdrLen, none, [.taken]⟩)

/-- Every exit of `kern_zc_sendit` disposes of the chain once. -/
theorem kernZcSendit_spec :
    (kernZcSendit k (some top)).fates.length = 1 ∧
      ((kernZcSendit k (some top)).error = 0 →
        kernZcSendit k (some top) = ⟨0, some top.hdrLen, [.taken], false⟩) := by
  unfold kernZcSendit Sendit.drop
  dsimp only
  split
  · exact ⟨rfl, fun h => absurd h (by decide)⟩
  · split
    · exact ⟨rfl, fun h => absurd h (by decide)⟩
    · split
      next hsock => exact ⟨rfl, fun h => absurd h hsock⟩
      · split
        next hmac => exact ⟨rfl, fun h => absurd h hmac⟩
        · split
          · exact ⟨rfl, fun _ => rfl⟩
          next hsend => exact ⟨rfl, fun h => absurd h hsend⟩

/-- The chain is gone exactly if the argument check lets the call through. -/
theorem sendRight_iff :
    SendRight k top nbytes ↔ 0 < nbytes ∧ nbytes ≤ 2147483647 := by
  obtain ⟨hfates, hok⟩ := kernZcSendit_spec k top
  unfold SendRight ffZcSend
  by_cases hbad : nbytes = 0 ∨ 2147483647 < nbytes
  · rw [if_pos (.inr hbad)]
    exact ⟨fun h => absurd h.1 (by decide), fun h => by omega⟩
  · rw [if_neg (by simpa using hbad)]
    refine ⟨fun _ => by omega, fun _ => ?_⟩
    by_cases herror : (kernZcSendit k (some top)).error = 0
    · rw [hok herror]
      exact ⟨rfl, fun _ => rfl⟩
    · rw [if_pos herror]
      exact ⟨hfates, fun h => absurd rfl h⟩

/-! ## Receiving -/

/-- `ERESTART` of FreeBSD. -/
def ERESTART : Int := -1
/-- `EINTR` of FreeBSD. -/
def EINTR : Int := 4
/-- `EWOULDBLOCK` of FreeBSD. -/
def EWOULDBLOCK : Int := 35

/-- What `soreceive` does when `n` bytes are asked for. -/
structure Soreceive (n : Nat) where
  error : Int
  /-- The chain, NULL if it has no mbuf. -/
  chain : List Mbuf
  /-- `m_pkthdr.len` of its first mbuf. -/
  hdrLen : Int
  /-- `uio_resid` afterwards. -/
  resid : Nat
  resid_le : resid ≤ n
  length_eq : (bytesOf chain).length = n - resid

/-- The result of `kern_zc_recvit`: the error, `td_retval[0]` and the chain it stores in `*mp0`, and
the chains that were taken off the socket and freed. -/
structure Recvit where
  error : Int
  retval : Nat
  chain : List Mbuf
  hdrLen : Int
  detached : List (List Mbuf)
  freed : List (List Mbuf)

/-- A chain, if it is not NULL. -/
def nonNull (chain : List Mbuf) : List (List Mbuf) := if chain = [] then [] else [chain]

/-- The error after `soreceive`: it is dropped if some data came and the call can be repeated. -/
def keptError {n : Nat} (r : Soreceive n) : Int :=
  if r.error ≠ 0 ∧ r.resid ≠ n ∧
      (r.error = ERESTART ∨ r.error = EINTR ∨ r.error = EWOULDBLOCK) then 0
  else r.error

/-- `kern_zc_recvit`. -/
def kernZcRecvit {n : Nat} (r : Soreceive n) : Recvit :=
  if k.getsock ≠ 0 then ⟨k.getsock, 0, [], 0, [], []⟩
  else if k.mac ≠ 0 then ⟨k.mac, 0, [], 0, [], []⟩
  else if keptError r = 0 then ⟨0, n - r.resid, r.chain, r.hdrLen, nonNull r.chain, []⟩
  else ⟨keptError r, 0, [], 0, nonNull r.chain, nonNull r.chain⟩

/-- The result of `ff_zc_recv`. -/
structure Recvd where
  zm : Option ZcMbuf
  ret : Int
  errno : Option Int
  detached : List (List Mbuf)
  freed : List (List Mbuf)

variable (zm : Option ZcMbuf)

/-- `ff_zc_recv`; `zm` may be NULL. -/
def ffZcRecv (n : Nat) (r : Soreceive n) : Recvd :=
  if zm.isNone ∨ n = 0 ∨ 2147483647 < n then ⟨zm, -1, some EINVAL, [], []⟩
  else
    let q := kernZcRecvit k r
    if q.error ≠ 0 then ⟨zm, -1, some q.error, q.detached, q.freed⟩
    else ⟨some ⟨q.chain, q.hdrLen, 0, 0, q.retval⟩, q.retval, none, q.detached, q.freed⟩

/-- A call that fails leaves no chain and does not touch `zm`; one that succeeds leaves the whole
chain to `zm`, as `received` has it, and returns its length. -/
def RecvRight (n : Nat) (r : Soreceive n) : Prop :=
  let q := ffZcRecv k zm n r
  (q.ret = -1 → q.zm = zm ∧ q.freed = q.detached) ∧
    (q.ret ≠ -1 → q.freed = [] ∧ q.detached = nonNull r.chain ∧
      q.ret = (bytesOf r.chain).length ∧
      q.zm = some { received r.chain with hdrLen := r.hdrLen })

theorem recvRight (n : Nat) (r : Soreceive n) : RecvRight k zm n r := by
  have hlength := r.length_eq
  unfold RecvRight ffZcRecv
  by_cases hbad : zm.isNone ∨ n = 0 ∨ 2147483647 < n
  · rw [if_pos hbad]
    exact ⟨fun _ => ⟨rfl, rfl⟩, fun h => absurd rfl h⟩
  · rw [if_neg hbad]
    unfold kernZcRecvit
    by_cases hsock : k.getsock = 0
    · rw [if_neg (not_not_intro hsock)]
      by_cases hmac : k.mac = 0
      · rw [if_neg (not_not_intro hmac)]
        by_cases herror : keptError r = 0
        · rw [if_pos herror, if_neg (not_not_intro rfl)]
          dsimp only
          refine ⟨fun h => absurd h (by omega), fun _ => ⟨rfl, rfl, ?_, ?_⟩⟩
          · rw [hlength]
          · unfold received
            rw [hlength]
        · rw [if_neg herror, if_pos herror]
          exact ⟨fun _ => ⟨rfl, rfl⟩, fun h => absurd rfl h⟩
      · rw [if_pos hmac, if_pos hmac]
        exact ⟨fun _ => ⟨rfl, rfl⟩, fun h => absurd rfl h⟩
    · rw [if_pos hsock, if_pos hsock]
      exact ⟨fun _ => ⟨rfl, rfl⟩, fun h => absurd rfl h⟩

/-! ## Both -/

/-- **The chain has one owner**: a chain that is sent is taken or freed once exactly if `nbytes` is
neither 0 nor above `INT_MAX`, and every call that receives is right. -/
theorem ownership_iff (zm : Option ZcMbuf) (n : Nat) (r : Soreceive n) :
    (SendRight k top nbytes ↔ 0 < nbytes ∧ nbytes ≤ 2147483647) ∧ RecvRight k zm n r :=
  ⟨sendRight_iff k top nbytes, recvRight k zm n r⟩

/-- The results are the same, but the first call has left the chain to the caller. -/
theorem ownership_not :
    ffZcSend ⟨0, 0, 0, false⟩ (some ⟨true, 4⟩) 0 = ⟨-1, some EINVAL, []⟩ ∧
      ffZcSend ⟨0, 0, 0, false⟩ (some ⟨false, 4⟩) 4 = ⟨-1, some EINVAL, [.freed]⟩ ∧
      ¬ SendRight ⟨0, 0, 0, false⟩ ⟨true, 4⟩ 0 := by
  refine ⟨by decide, by decide, fun h => ?_⟩
  exact absurd h.1 (by decide)

end FStack.Zc
