import Mathlib.Algebra.GroupWithZero.Nat
import Mathlib.Algebra.Ring.Int.Defs

/-!
# The socket calls: scattered buffers

Model of `uiomove` for buffers in system space and of `copyinuio` (`lib/ff_kern_subr.c:162-264`). A
transfer is the list of its `bcopy` calls, and what it moves a list of pairs of addresses, one at
`cp` and one in the scattered area; which of the two is written depends on the direction alone.
Reading an `iovec` behind the array is a fault (`none`).

Results:
* `moveLoop_spec`, `moveLoop_add`: what a call moves, and that it can be cut in two anywhere.
* `transferred_run`: what the `bcopy` calls do to the memory, if what is read is not written.
* `uiomoves_consecutive`: any sequence of calls does what one call does.
* `copyinuio_eq`: which lists are rejected; `uio_right`: all of it.
-/

namespace FStack.Sock

open List

/-- `struct iovec`. -/
structure Iovec where
  base : Nat
  len : Nat
  deriving DecidableEq

/-- `struct uio`: the array, cut at `uio_iov`, with `uio_resid` and `uio_offset`. -/
structure Uio where
  past : List Iovec
  iov : List Iovec
  resid : Int
  offset : Int
  deriving DecidableEq

/-- A call of `bcopy` between `cp` and `base`. -/
structure Copy where
  cp : Nat
  base : Nat
  cnt : Nat
  deriving DecidableEq

/-- The pointer goes on to the next entry. -/
def Uio.skip (u : Uio) (v : Iovec) (rest : List Iovec) : Uio :=
  { u with past := u.past ++ [v], iov := rest }

/-- `cnt` bytes of the entry at the pointer have been copied. -/
def Uio.cut (u : Uio) (v : Iovec) (rest : List Iovec) (cnt : Nat) : Uio :=
  { u with
    iov := ⟨v.base + cnt, v.len - cnt⟩ :: rest
    resid := u.resid - cnt
    offset := u.offset + cnt }

/-- The loop of `uiomove`; `cnt` is a `u_int`. -/
def moveLoop (cp n : Nat) (u : Uio) : Option (List Copy × Uio) :=
  if n = 0 ∨ u.resid = 0 then some ([], u)
  else match _ : u.iov with
    | [] => none
    | v :: rest =>
      if v.len % 2 ^ 32 = 0 then moveLoop cp n (u.skip v rest)
      else
        let cnt := min (v.len % 2 ^ 32) n
        (moveLoop (cp + cnt) (n - cnt) (u.cut v rest cnt)).map fun r =>
          (⟨cp, v.base, cnt⟩ :: r.1, r.2)
termination_by n + u.iov.length
decreasing_by
  all_goals simp_all [Uio.skip, Uio.cut]
  all_goals omega

/-- `uiomove`. -/
def uiomove (cp : Nat) (n : Int) (u : Uio) : Option (List Copy × Uio) := moveLoop cp n.toNat u

/-- Several calls, each with its `cp` and `n`. -/
def uiomoves : List (Nat × Int) → Uio → Option (List Copy × Uio)
  | [], u => some ([], u)
  | (cp, n) :: calls, u =>
    (uiomove cp n u).bind fun r => (uiomoves calls r.2).map fun r' => (r.1 ++ r'.1, r'.2)

/-! ## What is moved -/

/-- The pairs of addresses of a transfer, in order. -/
def Copy.pairs (c : Copy) : List (Nat × Nat) := (range' c.cp c.cnt).zip (range' c.base c.cnt)

/-- What a transfer does. -/
def effect (r : List Copy × Uio) : List (Nat × Nat) × Uio := (r.1.flatMap Copy.pairs, r.2)

/-- The addresses of a scattered area. -/
def area (iov : List Iovec) : List Nat := iov.flatMap fun v => range' v.base v.len

/-- `uio_resid` is the length of the area, and the lengths fit `cnt`. -/
structure Sound (u : Uio) : Prop where
  small : ∀ v ∈ u.iov, v.len < 2 ^ 31
  resid : (area u.iov).length = u.resid

/-- `m` bytes have been moved. -/
structure Moved (cp m : Nat) (u : Uio) (copies : List Copy) (u' : Uio) : Prop where
  pairs : copies.flatMap Copy.pairs = (range' cp m).zip ((area u.iov).take m)
  resid : u'.resid + m = u.resid
  offset : u'.offset = u.offset + m
  left : area u'.iov = (area u.iov).drop m
  /-- The entries before `uio_iov` and behind the one it points to are as they were. -/
  past : u.past <+: u'.past
  rest : u'.iov.tail <:+ u.iov.tail
  count : u'.past.length + u'.iov.length = u.past.length + u.iov.length
  sound : Sound u'

theorem area_cons (v : Iovec) (iov : List Iovec) :
    area (v :: iov) = range' v.base v.len ++ area iov :=
  flatMap_cons ..

/-- The first bytes of an entry come off. -/
theorem area_cut (v : Iovec) (iov : List Iovec) {cnt : Nat} (h : cnt ≤ v.len) :
    area (v :: iov) = range' v.base cnt ++ area (⟨v.base + cnt, v.len - cnt⟩ :: iov) := by
  rw [area_cons, area_cons, ← append_assoc, range'_append_1, Nat.add_sub_of_le h]

theorem moved_zero {cp : Nat} {u : Uio} (h : Sound u) : Moved cp 0 u [] u :=
  ⟨rfl, Int.add_zero _, (Int.add_zero _).symm, rfl, prefix_refl _, suffix_refl _, rfl, h⟩

section Step

variable {cp m n cnt : Nat} {u u' : Uio} {v : Iovec} {rest : List Iovec} {copies : List Copy}

theorem area_skip (hiov : u.iov = v :: rest) (hv : v.len = 0) : area u.iov = area rest := by
  rw [hiov, area_cons, hv]
  rfl

theorem Sound.skip (h : Sound u) (hiov : u.iov = v :: rest) (hv : v.len = 0) :
    Sound (u.skip v rest) :=
  ⟨fun w hw => h.small w (hiov ▸ mem_cons_of_mem v hw), (area_skip hiov hv) ▸ h.resid⟩

theorem Sound.len_eq_zero (h : Sound u) (hiov : u.iov = v :: rest) (hv : v.len % 2 ^ 32 = 0) :
    v.len = 0 := by
  have := h.small v (hiov ▸ mem_cons_self)
  omega

theorem Sound.resid_eq_zero (h : Sound u) (hnil : u.iov = []) : u.resid = 0 := by
  rw [← h.resid, hnil]
  rfl

/-- An empty entry is passed. -/
theorem Moved.skip (hiov : u.iov = v :: rest) (hv : v.len = 0)
    (h : Moved cp m (u.skip v rest) copies u') : Moved cp m u copies u' where
  pairs := area_skip hiov hv ▸ h.pairs
  resid := h.resid
  offset := h.offset
  left := area_skip hiov hv ▸ h.left
  past := (prefix_append _ _).trans h.past
  rest := hiov ▸ h.rest.trans (tail_suffix rest)
  count := by
    rw [h.count, hiov, Uio.skip, length_append, length_cons, length_cons]
    simp only [length_nil]
    omega
  sound := h.sound

theorem Sound.cut (h : Sound u) (hiov : u.iov = v :: rest) (hcnt : cnt ≤ v.len) :
    Sound (u.cut v rest cnt) := by
  constructor
  · intro w hw
    rcases mem_cons.1 hw with rfl | hw
    · exact Nat.lt_of_le_of_lt (Nat.sub_le _ _) (h.small v (hiov ▸ mem_cons_self))
    · exact h.small w (hiov ▸ mem_cons_of_mem v hw)
  · have hresid := h.resid
    rw [hiov, area_cut v rest hcnt, length_append, length_range'] at hresid
    simp only [Uio.cut]
    omega

/-- `cnt` bytes are copied from the entry at `uio_iov`, before the others. -/
theorem Moved.copy (hiov : u.iov = v :: rest) (hcnt : cnt ≤ v.len)
    (h : Moved (cp + cnt) m (u.cut v rest cnt) copies u') :
    Moved cp (cnt + m) u (⟨cp, v.base, cnt⟩ :: copies) u' := by
  have harea : area u.iov = range' v.base cnt ++ area (u.cut v rest cnt).iov := by
    rw [hiov, area_cut v rest hcnt]
    rfl
  have htake : (area u.iov).take (cnt + m) =
      range' v.base cnt ++ (area (u.cut v rest cnt).iov).take m := by
    rw [harea, take_append, length_range', Nat.add_sub_cancel_left,
      take_of_length_le (by rw [length_range']; omega)]
  have hdrop : (area u.iov).drop (cnt + m) = (area (u.cut v rest cnt).iov).drop m := by
    rw [harea, drop_append, length_range', Nat.add_sub_cancel_left,
      drop_of_length_le (by rw [length_range']; omega), nil_append]
  constructor
  · rw [flatMap_cons, h.pairs, htake, ← range'_append_1, zip_append (by simp)]
    rfl
  · have := h.resid
    simp only [Uio.cut] at this
    omega
  · rw [h.offset]
    simp only [Uio.cut]
    omega
  · rw [h.left, hdrop]
  · exact h.past
  · exact hiov ▸ h.rest
  · rw [h.count, hiov]
    rfl
  · exact h.sound

/-- **A call moves as much as it can.** -/
theorem moveLoop_spec (h : Sound u) :
    ∃ copies u', moveLoop cp n u = some (copies, u') ∧
      Moved cp (min n (area u.iov).length) u copies u' := by
  fun_induction moveLoop cp n u with
  | case1 cp n u hend =>
    have hzero : min n (area u.iov).length = 0 := by
      have := h.resid
      omega
    exact ⟨[], u, rfl, hzero ▸ moved_zero h⟩
  | case2 cp n u hgo hnil =>
    exact absurd (.inr (h.resid_eq_zero hnil)) hgo
  | case3 cp n u hgo v rest hiov hv ih =>
    have hlen := h.len_eq_zero hiov hv
    obtain ⟨copies, u', hrun, hmoved⟩ := ih (h.skip hiov hlen)
    rw [area_skip hiov hlen]
    exact ⟨copies, u', hrun, hmoved.skip hiov hlen⟩
  | case4 cp n u hgo v rest hiov hv cnt ih =>
    have hsmall := h.small v (hiov ▸ mem_cons_self)
    have hcnt : cnt ≤ v.len := by omega
    obtain ⟨copies, u', hrun, hmoved⟩ := ih (h.cut hiov hcnt)
    have hmin : min n (area u.iov).length =
        cnt + min (n - cnt) (area (u.cut v rest cnt).iov).length := by
      rw [hiov, area_cut v rest hcnt, length_append, length_range']
      simp only [Uio.cut]
      omega
    rw [hmin]
    exact ⟨_, u', by rw [hrun]; rfl, hmoved.copy hiov hcnt⟩

theorem Uio.cut_cut (a b : Nat) :
    (u.cut v rest a).cut ⟨v.base + a, v.len - a⟩ rest b = u.cut v rest (a + b) := by
  simp only [Uio.cut, Uio.mk.injEq, cons.injEq, Iovec.mk.injEq, true_and, and_true]
  omega

theorem moveLoop_of_none (h : n = 0) : moveLoop cp n u = some ([], u) := by
  rw [moveLoop, if_pos (.inl h)]

theorem moveLoop_of_zero (h : u.resid = 0) : moveLoop cp n u = some ([], u) := by
  rw [moveLoop, if_pos (.inr h)]

theorem moveLoop_of_skip (hgo : ¬ (n = 0 ∨ u.resid = 0)) (hiov : u.iov = v :: rest)
    (hv : v.len % 2 ^ 32 = 0) : moveLoop cp n u = moveLoop cp n (u.skip v rest) := by
  rw [moveLoop, if_neg hgo]
  split
  · simp_all
  · next heq =>
    cases hiov.symm.trans heq
    rw [if_pos hv]

theorem moveLoop_of_copy (hgo : ¬ (n = 0 ∨ u.resid = 0)) (hiov : u.iov = v :: rest)
    (hv : ¬ v.len % 2 ^ 32 = 0) {c : Nat} (hc : c = min (v.len % 2 ^ 32) n) :
    moveLoop cp n u = (moveLoop (cp + c) (n - c) (u.cut v rest c)).map fun r =>
      (⟨cp, v.base, c⟩ :: r.1, r.2) := by
  subst hc
  rw [moveLoop, if_neg hgo]
  split
  · simp_all
  · next heq =>
    cases hiov.symm.trans heq
    rw [if_neg hv]

theorem Copy.pairs_add (base a b : Nat) :
    (⟨cp, base, a + b⟩ : Copy).pairs =
      Copy.pairs ⟨cp, base, a⟩ ++ Copy.pairs ⟨cp + a, base + a, b⟩ := by
  simp only [Copy.pairs, ← range'_append_1]
  exact zip_append (by simp)

/-- What is done before a transfer is put in front. -/
def after (copies : List Copy) (e : List (Nat × Nat) × Uio) : List (Nat × Nat) × Uio :=
  (copies.flatMap Copy.pairs ++ e.1, e.2)

theorem effect_append (copies copies' : List Copy) :
    effect (copies ++ copies', u) = after copies (effect (copies', u)) := by
  simp [effect, after]

theorem after_cons (c : Copy) (e : List (Nat × Nat) × Uio) :
    after (c :: copies) e = after [c] (after copies e) := by
  simp [after]

/-- **A call can be cut in two.** -/
theorem moveLoop_add (h : Sound u) (k : Nat) : (moveLoop cp (n + k) u).map effect =
    (moveLoop cp n u).bind fun r => ((moveLoop (cp + n) k r.2).map effect).map (after r.1) := by
  rcases Nat.eq_zero_or_pos k with rfl | hk
  · simp only [moveLoop_of_none, Option.map_some, Nat.add_zero]
    cases moveLoop cp n u <;> simp [effect, after]
  fun_induction moveLoop cp n u with
  | case1 cp n u hend =>
    rcases hend with rfl | hzero
    · rw [Nat.zero_add, Option.bind_some, Option.map_map]
      rfl
    · simp [moveLoop_of_zero hzero, after]
  | case2 cp n u hgo hnil =>
    exact absurd (.inr (h.resid_eq_zero hnil)) hgo
  | case3 cp n u hgo v rest hiov hv ih =>
    rw [moveLoop_of_skip (by omega) hiov hv]
    exact ih (h.skip hiov (h.len_eq_zero hiov hv))
  | case4 cp n u hgo v rest hiov hv cnt ih =>
    have hsmall := h.small v (hiov ▸ mem_cons_self)
    have hcnt : cnt ≤ v.len := by omega
    rcases Nat.lt_or_ge n v.len with hlt | hge
    · -- the first call ends within the entry, and the second goes on there
      have hn : cnt = n := by omega
      have hgo' : ¬ (k = 0 ∨ (u.cut v rest n).resid = 0) := by
        have hresid := (h.cut hiov (hn ▸ hcnt)).resid
        rw [Uio.cut, area_cons, length_append, length_range'] at hresid
        simp only [Uio.cut] at hresid ⊢
        omega
      rw [hn, Nat.sub_self, moveLoop_of_none rfl, Option.map_some, Option.bind_some,
        moveLoop_of_copy (n := n + k) (c := n + min (v.len - n) k) (by omega) hiov hv (by omega),
        moveLoop_of_copy (v := ⟨v.base + n, v.len - n⟩) (c := min (v.len - n) k) hgo' rfl
          (by simp only; omega) (by simp only; omega), Uio.cut_cut, Option.map_map, Option.map_map,
        Option.map_map, Nat.add_sub_add_left, Nat.add_assoc]
      congr 1
      funext r
      simp [after, effect, Copy.pairs_add]
    · have hsum : cnt = min (v.len % 2 ^ 32) (n + k) := by omega
      have hrun := ih (h.cut hiov hcnt)
      rw [Nat.add_assoc, Nat.add_sub_of_le (by omega), ← Nat.sub_add_comm (by omega)] at hrun
      have hcons : effect ∘ (fun r => (⟨cp, v.base, cnt⟩ :: r.1, r.2)) =
          after [⟨cp, v.base, cnt⟩] ∘ effect := funext fun r => effect_append [_] r.1
      rw [moveLoop_of_copy (n := n + k) (by omega) hiov hv hsum, Option.map_map, hcons,
        ← Option.map_map, hrun, Option.map_bind, Option.bind_map]
      congr 1
      funext r
      rw [Function.comp, Function.comp, Option.map_map]
      exact congrArg (Option.map · _) (funext fun e => (after_cons _ e).symm)

/-- The calls that move `ns` bytes from `cp` on. -/
def consecutive (cp : Nat) : List Nat → List (Nat × Int)
  | [] => []
  | n :: ns => (cp, n) :: consecutive (cp + n) ns

/-- **Any sequence of calls does what one call does.** -/
theorem uiomoves_consecutive (ns : List Nat) (h : Sound u) :
    (uiomoves (consecutive cp ns) u).map effect = (moveLoop cp ns.sum u).map effect := by
  induction ns generalizing cp u with
  | nil => rw [sum_nil, moveLoop_of_none rfl]; rfl
  | cons n ns ih =>
    obtain ⟨copies, u', hrun, hmoved⟩ : ∃ copies u', moveLoop cp n u = some (copies, u') ∧ _ :=
      moveLoop_spec h
    rw [sum_cons, moveLoop_add h, hrun, Option.bind_some, ← ih hmoved.sound, consecutive, uiomoves,
      uiomove, Int.toNat_natCast, hrun, Option.bind_some, Option.map_map, Option.map_map]
    exact congrArg (Option.map · _) (funext fun r => effect_append copies r.1)

end Step

/-! ## What is copied -/

/-- `uio_rw`: `UIO_READ` copies from `cp` to the buffers, `UIO_WRITE` from the buffers to `cp`. -/
inductive Rw
  | read
  | write

/-- Where a byte is read. -/
def Rw.src : Rw → Nat × Nat → Nat
  | .read, p => p.1
  | .write, p => p.2

/-- Where it is written. -/
def Rw.dst : Rw → Nat × Nat → Nat
  | .read, p => p.2
  | .write, p => p.1

section Memory

variable {β : Type} {rw : Rw} {mem mem' mem'' : Nat → β} {ps qs : List (Nat × Nat)}

/-- `bcopy`. -/
def bcopy (src dst cnt : Nat) (mem : Nat → β) : Nat → β := fun a =>
  if dst ≤ a ∧ a < dst + cnt then mem (src + (a - dst)) else mem a

/-- A call of `bcopy` in one direction. -/
def Copy.run (rw : Rw) (mem : Nat → β) (c : Copy) : Nat → β :=
  bcopy (rw.src (c.cp, c.base)) (rw.dst (c.cp, c.base)) c.cnt mem

/-- The bytes have been copied, and no other has changed. -/
structure Transferred (rw : Rw) (ps : List (Nat × Nat)) (mem mem' : Nat → β) : Prop where
  copied : ∀ p ∈ ps, mem' (rw.dst p) = mem (rw.src p)
  frame : ∀ a ∉ ps.map rw.dst, mem' a = mem a

/-- No byte is written twice, or read and written. -/
structure Apart (rw : Rw) (ps : List (Nat × Nat)) : Prop where
  nodup : (ps.map rw.dst).Nodup
  src : ∀ p ∈ ps, rw.src p ∉ ps.map rw.dst

theorem Copy.mem_pairs {c : Copy} {p : Nat × Nat} :
    p ∈ c.pairs ↔ ∃ i < c.cnt, p = (c.cp + i, c.base + i) := by
  rw [Copy.pairs, range'_eq_map_range, range'_eq_map_range, zip_map']
  simp [eq_comm]

theorem transferred_copy (c : Copy) : Transferred rw c.pairs mem (c.run rw mem) := by
  constructor
  · intro p hp
    obtain ⟨i, hi, rfl⟩ := Copy.mem_pairs.1 hp
    cases rw <;> simp [Copy.run, bcopy, Rw.src, Rw.dst, hi]
  · intro a ha
    refine if_neg fun hin => ha ?_
    have hlt := Nat.sub_lt_left_of_lt_add hin.1 hin.2
    refine mem_map.2 ⟨_, Copy.mem_pairs.2 ⟨_, hlt, rfl⟩, ?_⟩
    cases rw <;> exact Nat.add_sub_of_le hin.1

theorem Transferred.append (h : Transferred rw ps mem mem') (h' : Transferred rw qs mem' mem'')
    (hap : Apart rw (ps ++ qs)) : Transferred rw (ps ++ qs) mem mem'' := by
  obtain ⟨hnd, hsrc⟩ := hap
  rw [map_append] at hnd hsrc
  constructor
  · intro p hp
    rcases mem_append.1 hp with hps | hqs
    · rw [h'.frame _ fun hin => (nodup_append.1 hnd).2.2 _ (mem_map_of_mem hps) _ hin rfl,
        h.copied p hps]
    · rw [h'.copied p hqs, h.frame _ fun hin => hsrc p hp (mem_append_left _ hin)]
  · intro a ha
    rw [map_append, mem_append, not_or] at ha
    rw [h'.frame a ha.2, h.frame a ha.1]

/-- **What a transfer does to the memory.** -/
theorem transferred_run (mem : Nat → β) (copies : List Copy)
    (h : Apart rw (copies.flatMap Copy.pairs)) :
    Transferred rw (copies.flatMap Copy.pairs) mem (copies.foldl (Copy.run rw) mem) := by
  induction copies generalizing mem with
  | nil => exact ⟨nofun, fun _ _ => rfl⟩
  | cons c copies ih =>
    have hap : Apart rw (c.pairs ++ copies.flatMap Copy.pairs) := h
    have htail : Apart rw (copies.flatMap Copy.pairs) := by
      obtain ⟨hnd, hsrc⟩ := hap
      rw [map_append] at hnd hsrc
      exact ⟨(nodup_append.1 hnd).2.1,
        fun p hp hin => hsrc p (mem_append_right _ hp) (mem_append_right _ hin)⟩
    exact (transferred_copy c).append (ih _ htail) hap

/-- What has been copied determines the memory. -/
theorem Transferred.unique (h : Transferred rw ps mem mem') (h' : Transferred rw ps mem mem'') :
    mem' = mem'' := by
  funext a
  by_cases ha : a ∈ ps.map rw.dst
  · obtain ⟨p, hp, rfl⟩ := mem_map.1 ha
    rw [h.copied p hp, h'.copied p hp]
  · rw [h.frame a ha, h'.frame a ha]

end Memory

/-! ## The lists that are accepted -/

/-- The errors of `copyinuio`. -/
inductive Errno
  | einval
  | enomem
  deriving DecidableEq

/-- The loop of `copyinuio`. -/
def sumLoop : Int → List Iovec → Option Int
  | resid, [] => some resid
  | resid, v :: rest => if 2147483647 - resid < v.len then none else sumLoop (resid + v.len) rest

/-- `copyinuio`; `allocated` says whether `malloc` succeeds. -/
def copyinuio (iovp : List Iovec) (allocated : Bool) : Except Errno Uio :=
  if 1024 < iovp.length then .error .einval
  else if !allocated then .error .enomem
  else match sumLoop 0 iovp with
    | none => .error .einval
    | some resid => .ok ⟨[], iovp, resid, -1⟩

theorem sumLoop_eq (iov : List Iovec) {resid : Int} (h : resid ≤ 2147483647) : sumLoop resid iov =
    if resid + (area iov).length ≤ 2147483647 then some (resid + (area iov).length) else none := by
  induction iov generalizing resid with
  | nil => simp [sumLoop, area, h]
  | cons v rest ih =>
    rw [sumLoop, area_cons, length_append, length_range', Int.natCast_add, ← Int.add_assoc]
    split
    · rw [if_neg (by omega)]
    · exact ih (by omega)

/-- Exactly the lists that are too long are rejected. -/
theorem copyinuio_eq (iovp : List Iovec) : copyinuio iovp true =
    if 1024 < iovp.length ∨ 2147483647 < (area iovp).length then .error .einval
    else .ok ⟨[], iovp, (area iovp).length, -1⟩ := by
  rw [copyinuio, sumLoop_eq iovp (by decide), Int.zero_add]
  by_cases hcount : 1024 < iovp.length
  · rw [if_pos hcount, if_pos (.inl hcount)]
  · rw [if_neg hcount, if_neg (by decide)]
    by_cases hsum : 2147483647 < (area iovp).length
    · rw [if_neg (by omega), if_pos (.inr hsum)]
    · rw [if_pos (by omega), if_neg (by omega)]

section

variable {β : Type} (rw : Rw) (mem : Nat → β)

/-- **`uiomove` and `copyinuio`**: a call moves the first bytes of the area, and any calls that make
it up do the same; a list is accepted if it is not too long. -/
theorem uio_right (cp : Nat) (ns : List Nat) (u : { u : Uio // Sound u }) (iovp : List Iovec) :
    let m := min ns.sum (area u.1.iov).length
    let ps := (range' cp m).zip ((area u.1.iov).take m)
    (∃ copies split u', uiomove cp ns.sum u = some (copies, u') ∧
      uiomoves (consecutive cp ns) u = some (split, u') ∧ Moved cp m u copies u' ∧
      (Apart rw ps → Transferred rw ps mem (copies.foldl (Copy.run rw) mem) ∧
        split.foldl (Copy.run rw) mem = copies.foldl (Copy.run rw) mem)) ∧
    copyinuio iovp true =
      if 1024 < iovp.length ∨ 2147483647 < (area iovp).length then .error .einval
      else .ok ⟨[], iovp, (area iovp).length, -1⟩ := by
  intro m ps
  refine ⟨?_, copyinuio_eq iovp⟩
  obtain ⟨copies, u', hrun, hmoved⟩ : ∃ copies u', moveLoop cp ns.sum u = some (copies, u') ∧ _ :=
    moveLoop_spec u.2
  have hsplit : (uiomoves (consecutive cp ns) u).map effect = _ := uiomoves_consecutive ns u.2
  rw [hrun, Option.map_some] at hsplit
  obtain ⟨⟨split, _⟩, hruns, heffect⟩ := Option.map_eq_some_iff.1 hsplit
  obtain ⟨hpairs, rfl⟩ := Prod.mk.inj heffect
  refine ⟨copies, split, _, hrun, hruns, hmoved, fun hap => ?_⟩
  have hps : copies.flatMap Copy.pairs = ps := hmoved.pairs
  have hps' : split.flatMap Copy.pairs = ps := hpairs.trans hps
  have hcopied := hps ▸ transferred_run mem copies (hps ▸ hap)
  exact ⟨hcopied, (hps' ▸ transferred_run mem split (hps' ▸ hap)).unique hcopied⟩

end

/-- Three buffers, one of them empty. -/
def threeBuffers : { u : Uio // Sound u } :=
  ⟨⟨[], [⟨100, 2⟩, ⟨200, 0⟩, ⟨300, 3⟩], 5, 0⟩, by decide, by decide⟩

/-- Four bytes are read into them in two calls. -/
theorem uio_right_three : ∃ split u',
    uiomoves [(0, 1), (1, 3)] threeBuffers = some (split, u') ∧
      Transferred .read [(0, 100), (1, 101), (2, 300), (3, 301)] id
        (split.foldl (Copy.run .read) id) := by
  obtain ⟨⟨copies, split, u', -, hrun, -, h⟩, -⟩ := uio_right .read id 0 [1, 3] threeBuffers []
  obtain ⟨hcopied, hsplit⟩ := h ⟨by decide, by decide⟩
  exact ⟨split, u', hrun, hsplit ▸ hcopied⟩

end FStack.Sock
