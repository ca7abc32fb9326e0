import Mathlib.Algebra.Group.Nat.Defs

/-!
# The socket calls: addresses

Model of `linux2freebsd_sockaddr` and `freebsd2linux_sockaddr`
(`lib/ff_syscall_wrapper.c:686-716`), and of what the calls that use them write and report:
`ff_bind`, `ff_connect` and `ff_sendto` convert to a `struct sockaddr_storage`; `ff_accept`,
`ff_accept4`, `ff_getpeername` and `ff_getsockname` convert what the stack has to the caller's
buffer; `ff_recvfrom` has `kern_recvit` cut the address first. The length that is copied is
`len - sizeof(sa_family)`, a `size_t`.

Results: `convert_back`, the round trip; `address_iff`, which lengths are safe; `address_not`.
-/

namespace FStack.Sock.Address

/-- `struct linux_sockaddr`, with all that follows `sa_data`. -/
structure LinuxAddr where
  family : Nat
  data : Nat → UInt8

/-- `struct sockaddr`. -/
structure BsdAddr where
  len : Nat
  family : Nat
  data : Nat → UInt8

/-- The length of a `bcopy` of the data. -/
def dataLen (len : Nat) : Nat := (len + 2 ^ 64 - 2) % 2 ^ 64

/-- The bytes that a conversion writes: the header, and the data. -/
def written (len : Nat) : Nat := 2 + dataLen len

/-- `linux2freebsd_sockaddr`. -/
def linux2freebsdSockaddr (linux : LinuxAddr) (addrlen : Nat) (freebsd : BsdAddr) : BsdAddr where
  len := addrlen % 2 ^ 8
  family := if linux.family = 10 then 28 else linux.family % 2 ^ 8
  data i := if i < dataLen addrlen then linux.data i else freebsd.data i

/-- `freebsd2linux_sockaddr`. -/
def freebsd2linuxSockaddr (linux : LinuxAddr) (freebsd : BsdAddr) : LinuxAddr where
  family := if freebsd.family = 28 then 10 else freebsd.family
  data i := if i < dataLen freebsd.len then freebsd.data i else linux.data i

/-- A `sockaddr_in` or `sockaddr_in6` with its length. -/
structure Exact where
  addr : LinuxAddr
  len : Nat
  ok : addr.family = 2 ∧ len = 16 ∨ addr.family = 10 ∧ len = 28

/-- The family and the data bytes. -/
def LinuxAddr.contents (a : LinuxAddr) (len : Nat) : Nat × List UInt8 :=
  (a.family, (List.range (len - 2)).map a.data)

/-- The length of an address in the stack. -/
structure SaLen where
  len : Nat
  ge : 2 ≤ len
  le : len ≤ 128

/-- What `ff_bind`, `ff_connect` and `ff_sendto` write to their storage. -/
def ffBind (addr : Bool) (addrlen : Nat) : Nat := if addr then written addrlen else 0

/-- What `ff_accept`, `ff_accept4`, `ff_getpeername` and `ff_getsockname` write to the caller's
buffer, if there is one, and report. -/
def ffAccept (sa : SaLen) (addr : Bool) : Nat × Nat := (if addr then written sa.len else 0, sa.len)

variable (fromsa : Option SaLen)

/-- What `kern_recvit` makes of `msg_namelen`, which fits its `ssize_t`. -/
def recvNamelen (namelen : Nat) : Nat :=
  match fromsa with
  | none => 0
  | some sa => if namelen = 0 then 0 else min namelen sa.len

/-- The real length of an address, if there is one. -/
def realLen : Nat := (fromsa.map SaLen.len).getD 0

/-- What `ff_recvfrom` writes to the caller's buffer, if there is one, and reports. The `sa_len`
that is used is that of the address, whatever the caller's length. -/
def ffRecvfrom (addr : Bool) (fromlen : Nat) : Nat × Nat :=
  let namelen := recvNamelen fromsa fromlen
  (if addr ∧ namelen ≠ 0 then written (realLen fromsa) else 0, namelen)

/-- No more than `n` bytes are written, and the real length is reported. -/
def Bounded (n real : Nat) (r : Nat × Nat) : Prop := r.1 ≤ n ∧ r.2 = real

theorem written_of_le {len : Nat} (h : 2 ≤ len) (hlt : len < 2 ^ 32) : written len = len := by
  unfold written dataLen
  omega

theorem SaLen.written_eq (sa : SaLen) : written sa.len = sa.len :=
  written_of_le sa.ge (by have := sa.le; omega)

/-- **The round trip.** -/
theorem convert_back (x : Exact) (old : LinuxAddr) (b : BsdAddr) :
    (freebsd2linuxSockaddr old (linux2freebsdSockaddr x.addr x.len b)).contents x.len =
      x.addr.contents x.len := by
  refine Prod.ext ?_ (List.map_congr_left fun i hi => ?_)
  · rcases x.ok with ⟨hfamily, -⟩ | ⟨hfamily, -⟩ <;>
      simp [LinuxAddr.contents, freebsd2linuxSockaddr, linux2freebsdSockaddr, hfamily]
  · have hlen : x.len % 2 ^ 8 = x.len ∧ i < dataLen x.len := by
      have := List.mem_range.1 hi
      have := x.ok
      unfold dataLen
      omega
    simp only [freebsd2linuxSockaddr, linux2freebsdSockaddr, hlen, if_true]

theorem ffBind_iff (addr : Bool) {addrlen : Nat} (hlt : addrlen < 2 ^ 32) :
    ffBind addr addrlen ≤ 128 ↔ addr = false ∨ 2 ≤ addrlen ∧ addrlen ≤ 128 := by
  cases addr with
  | false => simp [ffBind]
  | true =>
    simp only [ffBind, if_true, written, dataLen, Bool.true_eq_false, false_or]
    omega

theorem ffAccept_iff (sa : SaLen) (addr : Bool) (n : Nat) :
    Bounded n sa.len (ffAccept sa addr) ↔ addr = false ∨ sa.len ≤ n := by
  cases addr with
  | false => simp [Bounded, ffAccept]
  | true => simp [Bounded, ffAccept, sa.written_eq]

theorem ffRecvfrom_iff (sa : SaLen) (addr : Bool) (n : Nat) :
    Bounded n sa.len (ffRecvfrom (some sa) addr n) ↔ sa.len ≤ n := by
  have hge := sa.ge
  unfold Bounded ffRecvfrom recvNamelen
  rw [show realLen (some sa) = sa.len from rfl, sa.written_eq]
  simp only
  split <;> split <;> omega

/-- **The lengths that are safe.** -/
theorem address_iff (x : Exact) (old : LinuxAddr) (b : BsdAddr) (sa : SaLen) (addr : Bool)
    (n : UInt32) :
    (freebsd2linuxSockaddr old (linux2freebsdSockaddr x.addr x.len b)).contents x.len =
      x.addr.contents x.len ∧
    (ffBind addr n.toNat ≤ 128 ↔ addr = false ∨ 2 ≤ n.toNat ∧ n.toNat ≤ 128) ∧
    (Bounded n.toNat sa.len (ffAccept sa addr) ↔ addr = false ∨ sa.len ≤ n.toNat) ∧
    (Bounded n.toNat sa.len (ffRecvfrom (some sa) addr n.toNat) ↔ sa.len ≤ n.toNat) ∧
    Bounded n.toNat 0 (ffRecvfrom none addr n.toNat) := by
  refine ⟨convert_back x old b, ffBind_iff addr n.toNat_lt, ffAccept_iff sa addr n.toNat,
    ffRecvfrom_iff sa addr n.toNat, ?_⟩
  simp [Bounded, ffRecvfrom, recvNamelen]

/-- An address of 16 bytes, with a buffer of 8: 16 bytes are written. `ff_recvfrom` reports 8. And
what `ff_bind` writes for the lengths 0 and 200. -/
theorem address_not : ¬ Bounded 8 16 (ffAccept ⟨16, by decide, by decide⟩ true) ∧
    ¬ Bounded 8 16 (ffRecvfrom (some ⟨16, by decide, by decide⟩) true 8) ∧
    ¬ ffBind true 0 ≤ 128 ∧ ¬ ffBind true 200 ≤ 128 :=
  ⟨fun h => absurd h.1 (by decide), fun h => absurd h.2 (by decide), by decide, by decide⟩

end FStack.Sock.Address
