import FStack.Lib.Run

/-!
# The syscall adapter: the table of bound descriptors

Model of `ff_bound_fds` and what reads and writes it: `sockaddr_cmp`, `sockaddr_is_bound`,
`sockaddr_bind`, `sockaddr_unbind`, `ff_sys_bind` and `ff_sys_close`
(`adapter/syscall/ff_socket_ops.c:37-147`, `269-275`). `bind` on an address that the table has for
another descriptor does not bind: it makes the descriptor a duplicate of the other one.

* Below the table are F-Stack's descriptors, each of which refers to a socket, and the local
  addresses of the sockets. A new socket gets any descriptor that is not in use. `ff_bind` refuses
  an address of another family and a socket that has an address (`in_pcbbind`, `in6_pcbbind`); for
  what other reasons it or `ff_dup2` fails is left open (`ok`). Port 0 is not replaced at `bind` but
  at `connect` (`in_pcbbind_setup` under `FSTACK`), so a socket bound to the wildcard address and
  port 0 has no address yet. An IPv6 socket that is not for IPv6 alone takes `::ffff:0.0.0.0` for
  the wildcard address of IPv4 (`tcp6_usr_bind`, `udp6_bind`).
* An entry keeps the first 16 bytes of the address (`sizeof(struct sockaddr)`), and two are compared
  as IPv4 addresses. Of an IPv6 address that compares the flow label and nothing of the address
  itself.
* Descriptor 0 marks an empty entry. What `sockaddr_bind` and `sockaddr_unbind` return is read by no
  one.

A duplicate replaces what its descriptor referred to, and an entry of that descriptor stays in the
table.
-/

namespace FStack.Adapter.Bound

open Function List FStack.Lib

/-- The address families. -/
inductive Family where
  | inet
  | inet6
  deriving DecidableEq

/-- An address as the caller gives it. -/
inductive Sockaddr where
  | in4 (port : BitVec 16) (addr : BitVec 32)
  | in6 (port : BitVec 16) (flowinfo : BitVec 32) (addr : BitVec 128) (scope : BitVec 32)
  deriving DecidableEq

namespace Sockaddr

/-- The family of an address. -/
def family : Sockaddr → Family
  | .in4 .. => .inet
  | .in6 .. => .inet6

/-- The wildcard address of IPv4 as an IPv6 address, `::ffff:0.0.0.0`. -/
def mappedAny : BitVec 128 := 0xffff00000000

/-- The wildcard address with port 0: a socket bound to it is as if it were not. -/
def isAny : Sockaddr → Bool
  | .in4 port addr => port = 0 && addr = 0
  | .in6 port _ addr _ => port = 0 && (addr = 0 || addr = mappedAny)

/-- What an address says about where a socket is bound: all but the flow label. -/
def name : Sockaddr → Family × BitVec 16 × BitVec 128 × BitVec 32
  | .in4 port addr => (.inet, port, addr.setWidth 128, 0)
  | .in6 port _ addr scope => (.inet6, port, addr, scope)

/-- Two IPv6 addresses that differ in nothing but the address. -/
def clash : Sockaddr → Sockaddr → Bool
  | .in6 port flowinfo addr scope, .in6 port' flowinfo' addr' scope' =>
    port = port' && flowinfo = flowinfo' && (addr ≠ addr' || scope ≠ scope')
  | _, _ => false

end Sockaddr

/-- The first 16 bytes of an address, as `struct sockaddr_in` has them. -/
structure SockaddrIn where
  sinFamily : Family
  sinPort : BitVec 16
  sinAddr : BitVec 32
  sinZero : BitVec 64
  deriving DecidableEq

/-- What an entry keeps of an address. -/
def Sockaddr.toIn : Sockaddr → SockaddrIn
  | .in4 port addr => ⟨.inet, port, addr, 0⟩
  | .in6 port flowinfo addr _ => ⟨.inet6, port, flowinfo, addr.extractLsb' 64 64⟩

/-- An entry of `ff_bound_fds`. -/
structure BoundInfo where
  fd : Nat
  addr : SockaddrIn
  deriving DecidableEq

/-- `FF_MAX_BOUND_NUM`. -/
def ffMaxBoundNum : Nat := 8

/-- `sockaddr_cmp`: 0 if two entries have the same family, port and IPv4 address. -/
def sockaddrCmp (a b : SockaddrIn) : Nat :=
  if a.sinFamily ≠ b.sinFamily then 1
  else if a.sinPort ≠ b.sinPort then 1
  else if a.sinAddr ≠ b.sinAddr then 1
  else 0

section

variable (table : List BoundInfo)

/-- `sockaddr_is_bound`: the descriptor of the first entry with that address, or 0. -/
def sockaddrIsBound (addr : SockaddrIn) : Nat :=
  match table.find? fun info => info.fd ≠ 0 && sockaddrCmp info.addr addr = 0 with
  | some info => info.fd
  | none => 0

/-- `sockaddr_bind`: the first empty entry is taken, if there is one. -/
def sockaddrBind (fd : Nat) (addr : SockaddrIn) : List BoundInfo :=
  table.replaceF fun info => if info.fd ≠ 0 then none else some ⟨fd, addr⟩

/-- `sockaddr_unbind`: the first entry of the descriptor is emptied. -/
def sockaddrUnbind (fd : Nat) : List BoundInfo :=
  table.replaceF fun info => if info.fd ≠ fd then none else some { info with fd := 0 }

end

/-! ## Sockets -/

/-- A socket of F-Stack and the address it is bound to. -/
structure Sock where
  family : Family
  laddr : Option Sockaddr
  deriving DecidableEq

/-- The socket has no address yet. -/
def Sock.unbound (so : Sock) : Bool :=
  so.laddr.all Sockaddr.isAny

/-- The table, the descriptors and the sockets they refer to. -/
structure State where
  table : List BoundInfo
  fds : Nat → Option Nat
  socks : Nat → Sock
  /-- The sockets from here on have not been made. -/
  next : Nat

/-- A request; `ok` is whether F-Stack's own call succeeds where it may. -/
inductive Act where
  | socket (fd : Nat) (family : Family)
  | bind (fd : Nat) (addr : Sockaddr) (ok : Bool)
  | close (fd : Nat)

section

variable (s : State)

/-- `ff_socket`, which gives a descriptor that is not in use. -/
def ffSocket (fd : Nat) (family : Family) : State :=
  if s.fds fd = none then
    { s with
      fds := update s.fds fd (some s.next)
      socks := update s.socks s.next ⟨family, none⟩
      next := s.next + 1 }
  else s

/-- `ff_bind`. -/
def ffBind (fd : Nat) (addr : Sockaddr) (ok : Bool) : Option State :=
  match s.fds fd with
  | none => none
  | some so =>
    if ok ∧ (s.socks so).family = addr.family ∧ (s.socks so).unbound then
      some { s with socks := update s.socks so ⟨addr.family, some addr⟩ }
    else none

/-- `ff_dup2`. -/
def ffDup2 (oldfd newfd : Nat) (ok : Bool) : Option State :=
  match s.fds oldfd with
  | none => none
  | some so => if ok then some { s with fds := update s.fds newfd (some so) } else none

/-- `ff_sys_bind`: bind, or become a duplicate of the descriptor that has the address. -/
def ffSysBind (fd : Nat) (addr : Sockaddr) (ok : Bool) : Int × State :=
  let boundFd := sockaddrIsBound s.table addr.toIn
  if boundFd ≠ 0 ∧ boundFd ≠ fd then
    match ffDup2 s boundFd fd ok with
    | some s' => (fd, s')
    | none => (-1, s)
  else
    match ffBind s fd addr ok with
    | some s' => (0, { s' with table := sockaddrBind s'.table fd addr.toIn })
    | none => (-1, s)

/-- `ff_sys_close`. -/
def ffSysClose (fd : Nat) : Int × State :=
  (if (s.fds fd).isSome then 0 else -1,
    { s with
      table := sockaddrUnbind s.table fd
      fds := update s.fds fd none })

/-- One request. -/
def step : Act → State
  | .socket fd family => ffSocket s fd family
  | .bind fd addr ok => (ffSysBind s fd addr ok).2
  | .close fd => (ffSysClose s fd).2

/-- No descriptor and an empty table. -/
def start : State where
  table := List.replicate ffMaxBoundNum ⟨0, ⟨.inet, 0, 0, 0⟩⟩
  fds := fun _ => none
  socks := fun _ => ⟨.inet, none⟩
  next := 0

/-! ## The table and the sockets -/

/-- The descriptor refers to a socket that is bound to `a`. -/
def State.BoundTo (fd : Nat) (a : Sockaddr) : Prop :=
  ∃ so, s.fds fd = some so ∧ (s.socks so).laddr = some a ∧ a.isAny = false

/-- Every entry names a descriptor whose socket is bound to the address of the entry. -/
def TableRight : Prop :=
  ∀ info ∈ s.table, info.fd ≠ 0 → ∃ a, s.BoundTo info.fd a ∧ a.toIn = info.addr

/-- If the request is answered with a duplicate, it is one of a socket bound to the same address. -/
def RedirectRight : Act → Prop
  | .bind fd addr _ =>
    sockaddrIsBound s.table addr.toIn ≠ 0 → sockaddrIsBound s.table addr.toIn ≠ fd →
      ∃ a, s.BoundTo (sockaddrIsBound s.table addr.toIn) a ∧ a.name = addr.name
  | _ => True

/-- The address of the socket that a descriptor refers to. -/
def State.laddr (s : State) (fd : Nat) : Option Sockaddr :=
  (s.fds fd).bind fun so => (s.socks so).laddr

/-- A bind is not to the wildcard address with port 0; a descriptor with an entry is not bound to
the address of another entry; and no entry's socket has the port and flow label of an IPv6 address
that is bound, and another address. -/
def Clean : Act → Prop
  | .bind fd addr _ =>
    addr.isAny = false ∧
      (∀ info ∈ s.table, info.fd ≠ 0 → info.fd = fd → sockaddrIsBound s.table addr.toIn ∈ [0, fd]) ∧
      ∀ info ∈ s.table, info.fd ≠ 0 → ∀ a ∈ s.laddr info.fd, a.clash addr = false
  | _ => True

end

instance (s : State) (act : Act) : Decidable (Clean s act) := by
  cases act <;> unfold Clean <;> infer_instance

/-! ## The table -/

/-- A descriptor has one entry at most. -/
def Unique (table : List BoundInfo) : Prop :=
  table.Pairwise fun a b => a.fd = b.fd → a.fd = 0

/-- One element is replaced, or there is none to be replaced. -/
theorem replaceF_cases {α : Type} (p : α → Option α) (l : List α) :
    (l.replaceF p = l ∧ ∀ a ∈ l, p a = none) ∨
      ∃ a a' rest, p a = some a' ∧ l.Perm (a :: rest) ∧ (l.replaceF p).Perm (a' :: rest) := by
  by_cases hnone : ∀ a ∈ l, p a = none
  · exact .inl ⟨replaceF_of_forall_none hnone, hnone⟩
  · push Not at hnone
    obtain ⟨b, hb, hsome⟩ := hnone
    obtain ⟨b', hb'⟩ := Option.ne_none_iff_exists'.1 hsome
    obtain ⟨a, a', l₁, l₂, -, hp, hl, hl'⟩ := exists_of_replaceF hb hb'
    refine .inr ⟨a, a', l₁ ++ l₂, hp, ?_, ?_⟩
    · rw [hl]
      exact perm_middle
    · rw [hl']
      exact perm_middle

section Table

variable {table table' rest : List BoundInfo} {info : BoundInfo} {fd : Nat} {addr : SockaddrIn}

theorem unique_perm (h : table.Perm table') : Unique table ↔ Unique table' :=
  h.pairwise_iff fun hab heq => heq.trans (hab heq.symm)

theorem unique_cons :
    Unique (info :: rest) ↔ (∀ b ∈ rest, info.fd = b.fd → info.fd = 0) ∧ Unique rest :=
  pairwise_cons

theorem bind_cases (table : List BoundInfo) (fd : Nat) (addr : SockaddrIn) :
    sockaddrBind table fd addr = table ∨ ∃ info rest, table.Perm (info :: rest) ∧
      (sockaddrBind table fd addr).Perm (⟨fd, addr⟩ :: rest) := by
  obtain ⟨h, -⟩ | ⟨info, info', rest, hp, hl, hl'⟩ := replaceF_cases _ table
  · exact .inl h
  · split at hp
    · cases hp
    · cases hp
      exact .inr ⟨info, rest, hl, hl'⟩

theorem unbind_cases (table : List BoundInfo) (fd : Nat) :
    (sockaddrUnbind table fd = table ∧ ∀ info ∈ table, info.fd ≠ fd) ∨
      ∃ info rest, info.fd = fd ∧ table.Perm (info :: rest) ∧
        (sockaddrUnbind table fd).Perm ({ info with fd := 0 } :: rest) := by
  obtain ⟨h, hnone⟩ | ⟨info, info', rest, hp, hl, hl'⟩ := replaceF_cases _ table
  · exact .inl ⟨h, fun info hinfo => by simpa using hnone info hinfo⟩
  · split at hp
    · cases hp
    next heq =>
      cases hp
      exact .inr ⟨info, rest, by simpa using heq, hl, hl'⟩

theorem mem_bind (h : info ∈ sockaddrBind table fd addr) : info ∈ table ∨ info = ⟨fd, addr⟩ := by
  obtain hsame | ⟨old, rest, hl, hl'⟩ := bind_cases table fd addr
  · exact .inl (hsame ▸ h)
  · rcases mem_cons.1 (hl'.mem_iff.1 h) with rfl | hrest
    · exact .inr rfl
    · exact .inl (hl.mem_iff.2 (mem_cons_of_mem _ hrest))

theorem unique_bind (h : Unique table) (hnew : ∀ info ∈ table, info.fd = fd → fd = 0) :
    Unique (sockaddrBind table fd addr) := by
  obtain hsame | ⟨old, rest, hl, hl'⟩ := bind_cases table fd addr
  · rwa [hsame]
  · refine (unique_perm hl').2 (unique_cons.2 ⟨fun b hb heq => ?_, ?_⟩)
    · exact hnew b (hl.mem_iff.2 (mem_cons_of_mem _ hb)) heq.symm
    · exact (unique_cons.1 ((unique_perm hl).1 h)).2

theorem mem_unbind (h : Unique table) (hinfo : info ∈ sockaddrUnbind table fd) (hfd : info.fd ≠ 0) :
    info ∈ table ∧ info.fd ≠ fd := by
  obtain ⟨hsame, hnone⟩ | ⟨old, rest, rfl, hl, hl'⟩ := unbind_cases table fd
  · rw [hsame] at hinfo
    exact ⟨hinfo, hnone info hinfo⟩
  · rcases mem_cons.1 (hl'.mem_iff.1 hinfo) with rfl | hrest
    · exact absurd rfl hfd
    · refine ⟨hl.mem_iff.2 (mem_cons_of_mem _ hrest), fun heq => hfd ?_⟩
      rw [heq]
      exact (unique_cons.1 ((unique_perm hl).1 h)).1 info hrest heq.symm

theorem unique_unbind (h : Unique table) : Unique (sockaddrUnbind table fd) := by
  obtain ⟨hsame, -⟩ | ⟨old, rest, -, hl, hl'⟩ := unbind_cases table fd
  · rwa [hsame]
  · exact (unique_perm hl').2 (unique_cons.2
      ⟨fun _ _ _ => rfl, (unique_cons.1 ((unique_perm hl).1 h)).2⟩)

/-- A descriptor that is found has an entry that compares equal. -/
theorem isBound_mem (h : sockaddrIsBound table addr ≠ 0) :
    ∃ info ∈ table, info.fd = sockaddrIsBound table addr ∧ sockaddrCmp info.addr addr = 0 := by
  unfold sockaddrIsBound at h ⊢
  split at h
  next info hfind =>
    have hprop := find?_some hfind
    simp only [ne_eq, decide_not, Bool.and_eq_true, decide_eq_true_eq] at hprop
    exact ⟨info, mem_of_find?_eq_some hfind, rfl, hprop.2⟩
  · exact absurd rfl h

theorem cmp_eq_zero {a b : SockaddrIn} : sockaddrCmp a b = 0 ↔
    a.sinFamily = b.sinFamily ∧ a.sinPort = b.sinPort ∧ a.sinAddr = b.sinAddr := by
  unfold sockaddrCmp
  split
  next h => simp [h]
  next h =>
    split
    next h' => simp [h']
    next h' =>
      split
      next h'' => simp [h'']
      next h'' => simp_all

end Table

variable {a addr : Sockaddr} {s s' : State} {fd : Nat} {ok : Bool} {act : Act}

/-- Addresses that compare equal and do not clash are one. -/
theorem name_eq_of_cmp {b : Sockaddr} (hcmp : sockaddrCmp a.toIn b.toIn = 0)
    (hclash : a.clash b = false) : a.name = b.name := by
  obtain ⟨hfamily, hport, haddr⟩ := cmp_eq_zero.1 hcmp
  cases a with
  | in4 port addr =>
    cases b with
    | in4 port' addr' =>
      simp only [Sockaddr.toIn] at hport haddr
      simp [Sockaddr.name, hport, haddr]
    | in6 port' flowinfo' addr' scope' => cases hfamily
  | in6 port flowinfo addr scope =>
    cases b with
    | in4 port' addr' => cases hfamily
    | in6 port' flowinfo' addr' scope' =>
      simp only [Sockaddr.toIn] at hport haddr
      simp only [Sockaddr.clash, hport, haddr, decide_true, Bool.true_and, Bool.or_eq_false_iff,
        ne_eq, decide_not, Bool.not_eq_false', decide_eq_true_eq] at hclash
      simp [Sockaddr.name, hport, hclash]

/-! ## A step -/

/-- The registrations are right, no two are of one descriptor, and every socket was made before. -/
structure Inv (s : State) : Prop where
  right : TableRight s
  unique : Unique s.table
  made : ∀ fd so, s.fds fd = some so → so < s.next

theorem inv_start : Inv start where
  right info hinfo hfd := absurd (congrArg BoundInfo.fd (eq_of_mem_replicate hinfo)) hfd
  unique := pairwise_replicate.2 (.inr fun _ => rfl)
  made fd so h := by cases h

/-- What a descriptor is bound to is a matter of the descriptor and its socket. -/
theorem State.BoundTo.frame (h : s.BoundTo fd a) (hfds : s'.fds fd = s.fds fd)
    (hsocks : ∀ so, s.fds fd = some so → (s.socks so).unbound = false → s'.socks so = s.socks so) :
    s'.BoundTo fd a := by
  obtain ⟨so, hso, hladdr, hany⟩ := h
  refine ⟨so, hfds.trans hso, ?_, hany⟩
  rw [hsocks so hso (by simp [Sock.unbound, hladdr, hany])]
  exact hladdr

theorem State.BoundTo.laddr_eq (h : s.BoundTo fd a) : s.laddr fd = some a := by
  obtain ⟨so, hso, hladdr, -⟩ := h
  simp [State.laddr, hso, hladdr]

section

variable (h : Inv s)

include h

theorem inv_socket (family : Family) : Inv (ffSocket s fd family) := by
  unfold ffSocket
  split
  next hfree =>
    refine ⟨fun info hinfo hfd => ?_, h.unique, ?_⟩
    · obtain ⟨a, hto, haddr⟩ := h.right info hinfo hfd
      refine ⟨a, hto.frame (update_of_ne ?_ _ _) fun so hso _ => ?_, haddr⟩
      · rintro rfl
        obtain ⟨so, hso, -⟩ := hto
        rw [hfree] at hso
        cases hso
      · exact update_of_ne (Nat.ne_of_lt (h.made info.fd so hso)) _ _
    · refine (forall_update_iff s.fds fun _ x => ∀ so, x = some so → so < s.next + 1).2
        ⟨?_, fun d _ so hso => Nat.lt_succ_of_lt (h.made d so hso)⟩
      rintro so ⟨⟩
      exact Nat.lt_succ_self s.next
  · exact h

theorem inv_close : Inv (ffSysClose s fd).2 := by
  refine ⟨fun info hinfo hfd => ?_, unique_unbind h.unique, ?_⟩
  · obtain ⟨hmem, hne⟩ := mem_unbind h.unique hinfo hfd
    obtain ⟨a, hto, haddr⟩ := h.right info hmem hfd
    exact ⟨a, hto.frame (update_of_ne hne _ _) fun _ _ _ => rfl, haddr⟩
  · exact (forall_update_iff s.fds fun _ x => ∀ so, x = some so → so < s.next).2
      ⟨nofun, fun d _ => h.made d⟩

/-- A descriptor without an entry becomes a duplicate. -/
theorem inv_dup2 {oldfd : Nat} (hdup : ffDup2 s oldfd fd ok = some s')
    (hnew : ∀ info ∈ s.table, info.fd ≠ 0 → info.fd ≠ fd) : Inv s' := by
  unfold ffDup2 at hdup
  split at hdup
  · cases hdup
  next so hso =>
    split at hdup
    · cases hdup
      refine ⟨fun info hinfo hfd => ?_, h.unique, ?_⟩
      · obtain ⟨a, hto, haddr⟩ := h.right info hinfo hfd
        have hne := hnew info hinfo hfd
        exact ⟨a, hto.frame (update_of_ne hne _ _) fun _ _ _ => rfl, haddr⟩
      · refine (forall_update_iff s.fds fun _ x => ∀ so, x = some so → so < s.next).2
          ⟨?_, fun d _ => h.made d⟩
        rintro so ⟨⟩
        exact h.made oldfd _ hso
    · cases hdup

theorem inv_bind (hbind : ffBind s fd addr ok = some s') (hany : addr.isAny = false) :
    Inv { s' with table := sockaddrBind s'.table fd addr.toIn } := by
  unfold ffBind at hbind
  split at hbind
  · cases hbind
  next so hso =>
    split at hbind
    next hok =>
      cases hbind
      -- the sockets of the entries have an address, so this is none of them
      have hother : ∀ so', (s.socks so').unbound = false → so' ≠ so := by
        rintro so' hbound rfl
        exact absurd hok.2.2 (by simp [hbound])
      refine ⟨fun info hinfo hfd => ?_, unique_bind h.unique fun info hinfo heq => ?_, h.made⟩
      · rcases mem_bind hinfo with hold | rfl
        · obtain ⟨a, hto, haddr⟩ := h.right info hold hfd
          refine ⟨a, hto.frame rfl fun so' _ hbound => ?_, haddr⟩
          exact update_of_ne (hother so' hbound) _ _
        · exact ⟨addr, ⟨so, hso, by simp, hany⟩, rfl⟩
      · by_contra hne
        obtain ⟨a, ⟨so', hso', hladdr, hany'⟩, -⟩ := h.right info hinfo (heq ▸ hne)
        rw [heq, hso] at hso'
        cases hso'
        exact hother so (by simp [Sock.unbound, hladdr, hany']) rfl
    · cases hbind

theorem inv_sysBind (hclean : Clean s (.bind fd addr ok)) :
    Inv (ffSysBind s fd addr ok).2 := by
  obtain ⟨hany, hown, -⟩ := hclean
  unfold ffSysBind
  simp only
  split
  next hbound =>
    split
    next s' hdup =>
      refine inv_dup2 h hdup fun info hinfo hfd heq => ?_
      have hmem := hown info hinfo hfd heq
      simp only [mem_cons, not_mem_nil, or_false] at hmem
      exact hmem.elim hbound.1 hbound.2
    · exact h
  · split
    next s' hbind => exact inv_bind h hbind hany
    · exact h

theorem inv_step (hclean : Clean s act) : Inv (step s act) := by
  cases act with
  | socket fd family => exact inv_socket h family
  | bind fd addr ok => exact inv_sysBind h hclean
  | close fd => exact inv_close h

theorem Inv.redirectRight (hclean : Clean s act) : RedirectRight s act := by
  cases act with
  | socket fd family => trivial
  | close fd => trivial
  | bind fd addr ok =>
    intro hbound _
    obtain ⟨info, hinfo, hfd, hcmp⟩ := isBound_mem hbound
    rw [← hfd] at hbound ⊢
    obtain ⟨a, hto, haddr⟩ := h.right info hinfo hbound
    exact ⟨a, hto, name_eq_of_cmp (haddr ▸ hcmp) (hclean.2.2 info hinfo hbound a hto.laddr_eq)⟩

end

/-! ## Every run -/

/-- Two listening sockets, a second process that binds to the first one's address, and a descriptor
that is closed, used again and bound to another address. -/
def serverRun : List Act :=
  [.socket 3 .inet, .bind 3 (.in4 80 0) true, .socket 4 .inet6, .bind 4 (.in6 443 0 1 0) true,
    .socket 5 .inet, .bind 5 (.in4 80 0) true, .close 4, .socket 4 .inet, .bind 4 (.in4 8080 0) true]

/-- Descriptor 4 gets its own address, and then becomes a duplicate of 3. -/
def twiceBound : List Act :=
  [.socket 3 .inet, .bind 3 (.in4 80 0) true, .socket 4 .inet, .bind 4 (.in4 81 0) true,
    .bind 4 (.in4 80 0) true, .socket 5 .inet]

/-- A socket with an IPv6 address, and one without. -/
def overIn6 : List Act :=
  [.socket 3 .inet6, .bind 3 (.in6 80 0 1 0) true, .socket 4 .inet6]

/-- A socket that is bound to the wildcard address with port 0 and then to another address. -/
def anyFirst : List Act :=
  [.socket 3 .inet, .bind 3 (.in4 0 0) true, .bind 3 (.in4 80 1) true, .socket 4 .inet]

end FStack.Adapter.Bound
