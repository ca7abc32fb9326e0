import FStack.Rss.Table

/-!
# Reverse calculation of a source port

Model of `ff_rss_adjust_sport` (`lib/ff_dpdk_if.c:3684-3847`) and `ff_rss_adjust_sport6`
(`lib/ff_dpdk_if.c:4123-4212`).

The functions seed the local port with a block of `reta_size` ports inside `[first, last]`, pick a
RETA entry of this queue and let `rte_thash_adjust_tuple` solve the low bits of the port for it;
they try one entry after the other. Whether the solved port is checked again with `ff_rss_check` is
the setting `recheck`.

The random values and `rte_thash_adjust_tuple` are the environment (`AdjustCalls`); what is known
about the library function is `AdjustSound`.

Results:
* `adjustSport_found`: a port that is returned lies in the range and, if it was checked again,
  passes the check.
* `adjustSport_found_unchecked`: without the second check it passes too, on a queue that has a RETA
  entry, when the context's key and the published key hash alike.
-/

namespace FStack.Rss

open List

/-! ## The model -/

/-- `ntohs`. -/
def ntohs (port : InPort) : Nat := port.toNat % 256 * 256 + port.toNat / 256

/-- `bcopy(&tuple[off], &sport, sizeof(sport))`. -/
def portAt (off : Nat) (tuple : List Byte) : InPort :=
  BitVec.ofNat 16 ((tuple.getD off 0).toNat + (tuple.getD (off + 1) 0).toNat * 256)

/-- What the IPv4 and the IPv6 function differ in, besides the check. -/
structure ThashFamily (A : Type) extends Family A where
  ready : RssState → Nat → Bool
  /-- The key of the port's thash context. -/
  ctx : RssState → Nat → Option (List Byte)
  /-- The tuple up to the local port. -/
  head : A → A → InPort → List Byte
  /-- The offset of the local port. -/
  portOff : Nat
  head_length : ∀ saddr daddr dport, (head saddr daddr dport).length = portOff
  check_eq : ∀ s lc port saddr daddr dport sport,
    check s lc port saddr daddr dport sport =
      rssCheck s lc port (head saddr daddr dport ++ memBytes sport)

/-- The IPv4 tables of `ff_rss_adjust_sport`. -/
def inetThash : ThashFamily InAddr where
  toFamily := inetFamily
  ready := RssState.thashReady
  ctx := RssState.thashCtx
  head := fun saddr daddr dport => memBytes saddr ++ memBytes daddr ++ memBytes dport
  portOff := 10
  head_length := fun _ _ _ => by simp
  check_eq := fun _ _ _ _ _ _ _ => rfl

/-- The IPv6 tables of `ff_rss_adjust_sport6`. -/
def inet6Thash : ThashFamily In6Addr where
  toFamily := inet6Family
  ready := RssState.thash6Ready
  ctx := RssState.thash6Ctx
  head := fun saddr6 daddr6 dport => saddr6.bytes ++ daddr6.bytes ++ memBytes dport
  portOff := 34
  head_length := fun saddr6 daddr6 _ => by simp [saddr6.length_eq, daddr6.length_eq]
  check_eq := fun _ _ _ _ _ _ _ => rfl

/-- The settings of `rss_check_cfgs` the functions read. -/
structure AdjustCfg where
  /-- `rss_check_cfgs == NULL || rss_check_cfgs->thash_adjust`. -/
  thashAdjust : Bool
  /-- `rss_check_cfgs && rss_check_cfgs->recheck`. -/
  recheck : Bool

/-- What one call meets: its random values, and what `rte_thash_adjust_tuple` makes of a tuple and
a desired value at each try, `none` when it does not return 0. -/
structure AdjustCalls where
  block : Nat
  desired : Nat
  adjustTuple : Nat → List Byte → BitVec 32 → Option (List Byte)

/-- `reta_size - 1`. -/
def retaMask (retaSize : Nat) : BitVec 32 := BitVec.ofNat 32 retaSize - 1#32

/-- The first multiple of `reta_size` from `first` on, as a `uint16_t`. -/
def alignBase (first retaSize : Nat) : Nat :=
  ((BitVec.ofNat 32 first + BitVec.ofNat 32 retaSize - 1#32) &&& ~~~retaMask retaSize).toNat % 65536

variable {A : Type} (F : ThashFamily A) (g : AdjustCfg) (s : RssState) (lc : LcoreConf)
  (port : Nat) (saddr daddr : A) (dport : InPort) (first last : Nat) (calls : AdjustCalls)

/-- The `tries` loop from try `i` on, for at most `n` tries: the host-order port, `none` for -1. -/
def adjustTries (base : Nat) : Nat → Nat → Nat → Except TblFault (Option Nat)
  | 0, _, _ => .ok none
  | n + 1, i, desired =>
    let desired := if s.retaSize port ≤ desired then lc.txQueueId port else desired
    let next := desired + lc.nbQueueList port
    match calls.adjustTuple i (F.head saddr daddr dport ++ memBytes (htons base))
        (BitVec.ofNat 32 desired &&& retaMask (s.retaSize port)) with
    | none => adjustTries base n (i + 1) next
    | some tuple =>
      let sport := portAt F.portOff tuple
      if ntohs sport < first || last < ntohs sport then adjustTries base n (i + 1) next
      else if !g.recheck then .ok (some (ntohs sport))
      else
        match F.check s lc port saddr daddr dport sport with
        | none => .error .nullKey
        | some true => .ok (some (ntohs sport))
        | some false => adjustTries base n (i + 1) next

/-- `ff_rss_adjust_sport` and `ff_rss_adjust_sport6`. -/
def adjustSport : Except TblFault (Option Nat) :=
  let nbQueues := lc.nbQueueList port
  let retaSize := s.retaSize port
  let queueid := lc.txQueueId port
  let base := alignBase first retaSize
  let nblocks := (last - base + 1) / retaSize % 65536
  if !F.ready s port || (F.ctx s port).isNone then .ok none
  else if !g.thashAdjust then .ok none
  else if nbQueues ≤ 1 then .ok none
  else if last < first then .ok none
  else if base < first || last < (BitVec.ofNat 32 base + retaMask retaSize).toNat then .ok none
  else if nblocks = 0 then .ok none
  else
    let base := (base + calls.block % nblocks * retaSize) % 65536
    let entries := (retaSize + nbQueues - 1) / nbQueues
    let desired := queueid + calls.desired % entries * nbQueues
    let desired := if retaSize ≤ desired then queueid else desired
    adjustTries F g s lc port saddr daddr dport first last calls base entries 0 desired

/-- `ff_rss_adjust_sport`. -/
def ffRssAdjustSport (saddr daddr : InAddr) : Except TblFault (Option Nat) :=
  adjustSport inetThash g s lc port saddr daddr dport first last calls

/-- `ff_rss_adjust_sport6`. -/
def ffRssAdjustSport6 (saddr6 daddr6 : In6Addr) : Except TblFault (Option Nat) :=
  adjustSport inet6Thash g s lc port saddr6 daddr6 dport first last calls

/-! ## Byte order -/

variable {p : Nat}

theorem toNat_htons (hp : p < 65536) : (htons p).toNat = p % 256 * 256 + p / 256 := by
  have hhigh : p / 256 % 256 = p / 256 := Nat.mod_eq_of_lt (by omega)
  rw [htons, hhigh, BitVec.toNat_ofNat]
  exact Nat.mod_eq_of_lt (by omega)

theorem swap_bytes {v : Nat} (hv : v < 65536) :
    (v % 256 * 256 + v / 256) % 256 = v / 256 ∧ (v % 256 * 256 + v / 256) / 256 = v % 256 := by
  omega

theorem htons_ntohs (x : InPort) : htons (ntohs x) = x := by
  have hx : x.toNat < 65536 := x.isLt
  obtain ⟨hlow, hhigh⟩ := swap_bytes hx
  apply BitVec.eq_of_toNat_eq
  rw [toNat_htons (by unfold ntohs; omega), ntohs, hlow, hhigh]
  omega

theorem ntohs_htons (hp : p < 65536) : ntohs (htons p) = p := by
  obtain ⟨hlow, hhigh⟩ := swap_bytes hp
  rw [ntohs, toNat_htons hp, hlow, hhigh]
  omega

theorem ntohs_lt (x : InPort) : ntohs x < 65536 := by
  unfold ntohs
  omega

theorem portAt_append (pre : List Byte) (x : InPort) :
    portAt pre.length (pre ++ memBytes x) = x := by
  have hbytes : memBytes x = [BitVec.ofNat 8 x.toNat, BitVec.ofNat 8 (x.toNat / 256)] := rfl
  apply BitVec.eq_of_toNat_eq
  simp only [portAt, hbytes, getD_eq_getElem?_getD, getElem?_append_right le_rfl,
    getElem?_append_right (Nat.le_add_right _ 1), Nat.sub_self, Nat.add_sub_cancel_left,
    getElem?_cons_zero, getElem?_cons_succ, Option.getD_some, BitVec.toNat_ofNat]
  omega

/-! ## What a returned port satisfies -/

section Found

variable {F g s lc port saddr daddr dport first last calls}

variable {base : Nat}

/-- **Without or with the second check** a returned port lies in the range. -/
theorem adjustTries_found : ∀ {n i desired : Nat},
    adjustTries F g s lc port saddr daddr dport first last calls base n i desired = .ok (some p) →
    first ≤ p ∧ p ≤ last ∧ p < 65536 ∧ (g.recheck = true →
      F.check s lc port saddr daddr dport (htons p) = some true)
  | 0, i, desired, h => by
    cases h
  | n + 1, i, desired, h => by
    unfold adjustTries at h
    dsimp only at h
    split at h
    · exact adjustTries_found h
    split at h
    · exact adjustTries_found h
    rename_i hin
    simp only [Bool.or_eq_true, decide_eq_true_eq, not_or, Nat.not_lt] at hin
    split at h
    next hre =>
      cases h
      exact ⟨hin.1, hin.2, ntohs_lt _, fun hre' => by simp [hre'] at hre⟩
    split at h
    · cases h
    next hcheck =>
      cases h
      exact ⟨hin.1, hin.2, ntohs_lt _, fun _ => by rw [htons_ntohs]; exact hcheck⟩
    · exact adjustTries_found h

/-- What is known of `rte_thash_adjust_tuple` on a context with key `key`: it changes only the low
bits of the port and makes the hash hit the desired RETA entry. -/
def AdjustSound (key : List Byte) (retaSize : Nat)
    (adjustTuple : Nat → List Byte → BitVec 32 → Option (List Byte)) : Prop :=
  ∀ i head (seed : InPort) desired tuple,
    adjustTuple i (head ++ memBytes seed) desired = some tuple →
    ∃ sport : InPort, tuple = head ++ memBytes sport ∧
      ntohs sport / 2 ^ retaSize.log2 = ntohs seed / 2 ^ retaSize.log2 ∧
      toeplitzHash key.length key tuple &&& retaMask retaSize = desired

/-- The published key hashes the tuple as the context's key does, whatever the local port. -/
def HashesAlike (s : RssState) (ctxKey head : List Byte) : Prop :=
  ∃ key, s.rsskey = some key ∧ ∀ sport : InPort,
    toeplitzHash s.rsskeyLen key (head ++ memBytes sport) =
      toeplitzHash ctxKey.length ctxKey (head ++ memBytes sport)

variable {ctxKey : List Byte} {m desired : Nat}

/-- A hash that hits the entry `desired` of this queue passes the check. -/
theorem rssCheck_of_hit {data key : List Byte} (hkey : s.rsskey = some key)
    (hreta : s.retaSize port = 2 ^ m) (hm : m < 32) (hlt : desired < 2 ^ m)
    (hnb : 1 < lc.nbQueueList port) (hmod : desired % lc.nbQueueList port = lc.txQueueId port)
    (hhit : toeplitzHash s.rsskeyLen key data &&& retaMask (s.retaSize port) =
      BitVec.ofNat 32 desired &&& retaMask (s.retaSize port)) :
    rssCheck s lc port data = some true := by
  rw [hreta] at hhit
  have hpow : 2 ^ m < 2 ^ 32 := Nat.pow_lt_pow_right (by omega) hm
  have hval : (toeplitzHash s.rsskeyLen key data).toNat % 2 ^ m = desired := by
    rw [← and_pred_toNat _ hm, ← retaMask, hhit, retaMask, and_pred_toNat _ hm,
      BitVec.toNat_ofNat, Nat.mod_eq_of_lt (hlt.trans hpow), Nat.mod_eq_of_lt hlt]
  rw [rssCheck_eq data hnb hreta hm hkey, hval, hmod, beq_self_eq_true]

/-- The queue has a RETA entry. -/
structure HasEntry (s : RssState) (lc : LcoreConf) (port m : Nat) : Prop where
  retaSize : s.retaSize port = 2 ^ m
  log_lt : m < 32
  queueid_lt : lc.txQueueId port < 2 ^ m

/-- The candidate of one try is an entry of this queue. -/
theorem HasEntry.candidate (h : HasEntry s lc port m) (hq : lc.txQueueId port < lc.nbQueueList port)
    (hmod : desired % lc.nbQueueList port = lc.txQueueId port) :
    (if s.retaSize port ≤ desired then lc.txQueueId port else desired) < 2 ^ m ∧
      (if s.retaSize port ≤ desired then lc.txQueueId port else desired) %
        lc.nbQueueList port = lc.txQueueId port := by
  split
  · exact ⟨h.queueid_lt, Nat.mod_eq_of_lt hq⟩
  next hlt =>
    rw [h.retaSize] at hlt
    exact ⟨not_le.1 hlt, hmod⟩

/-- **Without the second check** a returned port passes it, on a queue with a RETA entry. -/
theorem adjustTries_found_unchecked (hent : HasEntry s lc port m) (hnb : 1 < lc.nbQueueList port)
    (hq : lc.txQueueId port < lc.nbQueueList port)
    (hsound : AdjustSound ctxKey (s.retaSize port) calls.adjustTuple)
    (halike : HashesAlike s ctxKey (F.head saddr daddr dport)) : ∀ {n i desired : Nat},
    desired % lc.nbQueueList port = lc.txQueueId port →
    adjustTries F g s lc port saddr daddr dport first last calls base n i desired = .ok (some p) →
    F.check s lc port saddr daddr dport (htons p) = some true
  | 0, i, desired, _, h => by
    cases h
  | n + 1, i, desired, hmod, h => by
    obtain ⟨hlt, hmod'⟩ := hent.candidate hq hmod
    have hnext := (Nat.add_mod_right _ _).trans hmod'
    unfold adjustTries at h
    dsimp only at h
    split at h
    · exact adjustTries_found_unchecked hent hnb hq hsound halike hnext h
    rename_i tuple hadj
    split at h
    · exact adjustTries_found_unchecked hent hnb hq hsound halike hnext h
    split at h
    · cases h
      obtain ⟨sport, rfl, -, hhit⟩ := hsound _ _ _ _ _ hadj
      obtain ⟨key, hkey, hsame⟩ := halike
      rw [← F.head_length saddr daddr dport, portAt_append, htons_ntohs, F.check_eq]
      rw [← hsame] at hhit
      exact rssCheck_of_hit hkey hent.retaSize hent.log_lt hlt hnb hmod' hhit
    split at h
    · cases h
    next hcheck =>
      cases h
      rw [htons_ntohs]
      exact hcheck
    · exact adjustTries_found_unchecked hent hnb hq hsound halike hnext h

/-- The way into the loop. -/
theorem adjustSport_eq_some
    (h : adjustSport F g s lc port saddr daddr dport first last calls = .ok (some p)) :
    1 < lc.nbQueueList port ∧ (F.ctx s port).isSome = true ∧ ∃ base n k,
      adjustTries F g s lc port saddr daddr dport first last calls base n 0
        (if s.retaSize port ≤ lc.txQueueId port + k * lc.nbQueueList port then lc.txQueueId port
          else lc.txQueueId port + k * lc.nbQueueList port) = .ok (some p) := by
  unfold adjustSport at h
  dsimp only at h
  split at h
  · cases h
  rename_i hready
  split at h
  · cases h
  split at h
  · cases h
  rename_i hnb
  split at h
  · cases h
  split at h
  · cases h
  split at h
  · cases h
  refine ⟨not_le.1 hnb, ?_, _, _, _, h⟩
  cases hctx : F.ctx s port with
  | none => simp [hctx] at hready
  | some key => rfl

theorem adjustSport_found
    (h : adjustSport F g s lc port saddr daddr dport first last calls = .ok (some p)) :
    first ≤ p ∧ p ≤ last ∧ p < 65536 ∧ (g.recheck = true →
      F.check s lc port saddr daddr dport (htons p) = some true) := by
  obtain ⟨-, -, base, n, k, h⟩ := adjustSport_eq_some h
  exact adjustTries_found h

theorem adjustSport_found_unchecked (hent : HasEntry s lc port m)
    (hq : 1 < lc.nbQueueList port → lc.txQueueId port < lc.nbQueueList port)
    (hsound : ∀ ctxKey, F.ctx s port = some ctxKey →
      AdjustSound ctxKey (s.retaSize port) calls.adjustTuple)
    (halike : ∀ ctxKey, F.ctx s port = some ctxKey → HashesAlike s ctxKey (F.head saddr daddr dport))
    (h : adjustSport F g s lc port saddr daddr dport first last calls = .ok (some p)) :
    F.check s lc port saddr daddr dport (htons p) = some true := by
  obtain ⟨hnb, hctx, base, n, k, h⟩ := adjustSport_eq_some h
  obtain ⟨ctxKey, hctx⟩ := Option.isSome_iff_exists.1 hctx
  refine adjustTries_found_unchecked hent hnb (hq hnb) (hsound _ hctx) (halike _ hctx) ?_ h
  refine (hent.candidate (hq hnb) ?_).2
  rw [Nat.add_mul_mod_self_right, Nat.mod_eq_of_lt (hq hnb)]

end Found

end FStack.Rss
