import FStack.Sock.Uio

/-!
# The socket calls: the caller's array of buffers

`ff_readv` and `ff_writev` (`lib/ff_syscall_wrapper.c:1219-1307`) give the caller's array to the
stack as it is, and add the lengths up in an `int`. `ff_sendmsg` and `ff_recvmsg` (`1447-1495`,
`1550-1579`) keep a copy of the array, and put it back on success (`freebsd2linux_msghdr`);
`kern_sendit` and `kern_recvit` add the lengths up in a `ssize_t`, and fail when that is negative.
What the stack does with the array is a sequence of `uiomove` calls.

Results:
* `array_eq`: when the array is as it was; `uiomoves_isSome`: when the transfers stay in it.
* `scatter_iff`: when a call leaves the caller's array alone and gives the stack the right length;
  `scatter_not`: a read, and a receive that fails, after four bytes.
-/

namespace FStack.Sock

open List

/-- What the stack does in a call: the transfers, and whether it fails. -/
structure Outcome where
  calls : List (Nat × Int)
  error : Bool

/-- How many bytes the transfers ask for. -/
def asked (calls : List (Nat × Int)) : Nat := (calls.map fun c => c.2.toNat).sum

/-- How many bytes `uiomove` reaches: it reads 32 bits of each length. -/
def reach (iov : List Iovec) : Nat := (iov.map fun v => v.len % 2 ^ 32).sum

/-- The whole array. -/
def Uio.array (u : Uio) : List Iovec := u.past ++ u.iov

/-- The loop of `ff_readv` and `ff_writev` over the lengths. -/
def intLen : Int → List Iovec → Int
  | len, [] => len
  | len, v :: rest => intLen (Int.bmod (len + v.len) (2 ^ 32)) rest

/-- The loop of `kern_sendit` and `kern_recvit` over the lengths. -/
def ssizeLen : Int → List Iovec → Option Int
  | resid, [] => some resid
  | resid, v :: rest =>
    if Int.bmod (resid + v.len) (2 ^ 64) < 0 then none
    else ssizeLen (Int.bmod (resid + v.len) (2 ^ 64)) rest

/-- The caller's array after `ff_readv` or `ff_writev`. -/
def ffReadv (iov : List Iovec) (o : Outcome) : Option (List Iovec) :=
  (uiomoves o.calls ⟨[], iov, intLen 0 iov, 0⟩).map fun r => r.2.array

/-- The caller's array after `ff_sendmsg` or `ff_recvmsg`. -/
def ffRecvmsg (iov : List Iovec) (o : Outcome) : Option (List Iovec) :=
  match ssizeLen 0 iov with
  | none => some iov
  | some resid =>
    (uiomoves o.calls ⟨[], iov, resid, 0⟩).map fun r => if o.error then r.2.array else iov

/-- The caller's array is as it was, and the stack has the right length, or the call fails. -/
structure ReadvRight (iov : List Iovec) (o : Outcome) : Prop where
  array : ffReadv iov o = some iov
  resid : intLen 0 iov = (area iov).length ∨ o.error = true

/-- The same, where the call fails if there is no length. -/
structure RecvmsgRight (iov : List Iovec) (o : Outcome) : Prop where
  array : ffRecvmsg iov o = some iov
  resid : ssizeLen 0 iov = none ∨ ssizeLen 0 iov = some ((area iov).length : Int)

/-! ## The array behind the transfers -/

/-- The sum of the addresses, which a copy makes greater. -/
def bases (iov : List Iovec) : Nat := (iov.map Iovec.base).sum

theorem moveLoop_array {cp n : Nat} {u u' : Uio} {copies : List Copy}
    (h : moveLoop cp n u = some (copies, u')) :
    bases u.array + copies.length ≤ bases u'.array := by
  fun_induction moveLoop cp n u generalizing copies with
  | case1 cp n u hend =>
    cases h
    exact Nat.le_refl _
  | case2 cp n u hgo hnil => cases h
  | case3 cp n u hgo v rest hiov hv ih =>
    have harray : (u.skip v rest).array = u.array := by simp [Uio.array, Uio.skip, hiov]
    exact harray ▸ ih h
  | case4 cp n u hgo v rest hiov hv cnt =>
    rename_i ih
    obtain ⟨r, hr, hcons⟩ := Option.map_eq_some_iff.1 h
    cases hcons
    refine Nat.le_trans ?_ (ih hr)
    simp only [Uio.array, Uio.cut, hiov, bases, map_append, sum_append, map_cons, sum_cons,
      length_cons]
    omega

theorem uiomoves_array {calls : List (Nat × Int)} {u u' : Uio} {copies : List Copy}
    (h : uiomoves calls u = some (copies, u')) :
    bases u.array + copies.length ≤ bases u'.array := by
  induction calls generalizing u copies with
  | nil =>
    cases h
    exact Nat.le_refl _
  | cons call calls ih =>
    obtain ⟨r, hr, h⟩ := Option.bind_eq_some_iff.1 h
    obtain ⟨r', hr', heq⟩ := Option.map_eq_some_iff.1 h
    cases heq
    have hfirst := moveLoop_array hr
    have hrest := ih hr'
    rw [length_append]
    omega

/-- Nothing is copied if nothing is asked for, or there is no room. -/
theorem moveLoop_nil {cp n : Nat} {u u' : Uio} :
    moveLoop cp n u = some ([], u') ↔ (n = 0 ∨ u.resid = 0) ∧ u = u' := by
  by_cases hend : n = 0 ∨ u.resid = 0
  · rw [moveLoop, if_pos hend]
    simp [hend]
  refine iff_of_false (fun h => ?_) fun h => hend h.1
  fun_induction moveLoop cp n u with
  | case1 cp n u hend' => exact hend hend'
  | case2 => cases h
  | case3 cp n u hgo v rest hiov hv ih => exact ih hgo h
  | case4 =>
    obtain ⟨r, -, hcons⟩ := Option.map_eq_some_iff.1 h
    cases hcons

theorem asked_cons (c : Nat × Int) (calls : List (Nat × Int)) :
    asked (c :: calls) = c.2.toNat + asked calls :=
  sum_cons ..

theorem uiomoves_nil {calls : List (Nat × Int)} {u u' : Uio} :
    uiomoves calls u = some ([], u') ↔ (asked calls = 0 ∨ u.resid = 0) ∧ u = u' := by
  induction calls with
  | nil => simp [uiomoves, asked]
  | cons c calls ih =>
    rw [asked_cons, Nat.add_eq_zero_iff, and_or_right, and_assoc, ← ih, uiomoves]
    constructor
    · intro h
      obtain ⟨⟨copies, u₁⟩, hr, h⟩ := Option.bind_eq_some_iff.1 h
      obtain ⟨⟨copies', u₂⟩, hr', heq⟩ := Option.map_eq_some_iff.1 h
      obtain ⟨happ, rfl⟩ := Prod.mk.inj heq
      obtain ⟨rfl, rfl⟩ := append_eq_nil_iff.1 happ
      obtain ⟨hend, rfl⟩ := moveLoop_nil.1 hr
      exact ⟨hend, hr'⟩
    · rintro ⟨hend, h⟩
      rw [uiomove, moveLoop_nil.2 ⟨hend, rfl⟩, Option.bind_some, h]
      rfl

/-- **When the caller's array is as it was.** -/
theorem array_eq {calls : List (Nat × Int)} {iov : List Iovec} {n : Int} :
    (uiomoves calls ⟨[], iov, n, 0⟩).map (fun r => r.2.array) = some iov ↔
      asked calls = 0 ∨ n = 0 := by
  constructor
  · intro h
    obtain ⟨⟨copies, u⟩, hrun, hu⟩ := Option.map_eq_some_iff.1 h
    have hgrown : bases iov + copies.length ≤ bases u.array := uiomoves_array hrun
    rw [show u.array = iov from hu] at hgrown
    obtain rfl : copies = [] := length_eq_zero_iff.1 (by omega)
    exact (uiomoves_nil.1 hrun).1
  · intro hend
    rw [uiomoves_nil.2 ⟨hend, rfl⟩]
    rfl

theorem moveLoop_reach (cp n : Nat) {R : Nat} {u : Uio} (hR : u.resid = R) (hle : reach u.iov ≤ R) :
    (moveLoop cp n u = none ∧ reach u.iov < min n R) ∨
      ∃ r, moveLoop cp n u = some r ∧ reach r.2.iov + min n R = reach u.iov ∧
        r.2.resid = (R - min n R : Nat) := by
  fun_induction moveLoop cp n u generalizing R with
  | case1 cp n u hend =>
    have hzero : min n R = 0 := by omega
    exact .inr ⟨_, rfl, by rw [hzero, Nat.add_zero], by rw [hR, hzero, Nat.sub_zero]⟩
  | case2 cp n u hgo hnil =>
    have hnone : reach u.iov = 0 := by rw [hnil]; rfl
    exact .inl ⟨rfl, by omega⟩
  | case3 cp n u hgo v rest hiov hv ih =>
    have hskip : reach u.iov = reach (u.skip v rest).iov := by
      rw [hiov, reach, map_cons, sum_cons, hv, Nat.zero_add]
      rfl
    rw [hskip] at hle ⊢
    exact ih hR hle
  | case4 cp n u hgo v rest hiov hv cnt =>
    rename_i ih
    have hcut : reach u.iov = reach (u.cut v rest cnt).iov + cnt := by
      simp only [reach, hiov, Uio.cut, map_cons, sum_cons]
      omega
    have hresid : (u.cut v rest cnt).resid = (R - cnt : Nat) := by
      have : (u.cut v rest cnt).resid = u.resid - cnt := rfl
      have : cnt ≤ v.len % 2 ^ 32 := Nat.min_le_left ..
      have : v.len % 2 ^ 32 ≤ reach u.iov := by simp [reach, hiov]
      omega
    rcases ih hresid (by omega) with ⟨hnone, hlt⟩ | ⟨r, hr, hreach, hr'⟩
    · exact .inl ⟨by rw [hnone]; rfl, by omega⟩
    · exact .inr ⟨_, by rw [hr]; rfl, by dsimp only; omega, by dsimp only; omega⟩

/-- When the transfers stay in the array. -/
theorem uiomoves_isSome (calls : List (Nat × Int)) {R : Nat} {u : Uio} (hR : u.resid = R)
    (hle : reach u.iov ≤ R) :
    (∃ r, uiomoves calls u = some r) ↔ min (asked calls) R ≤ reach u.iov := by
  induction calls generalizing u R with
  | nil => exact iff_of_true ⟨_, rfl⟩ (Nat.le_trans (Nat.min_le_left ..) (Nat.zero_le _))
  | cons c calls ih =>
    rw [asked_cons, uiomoves, uiomove]
    rcases moveLoop_reach c.1 c.2.toNat hR hle with ⟨hnone, hlt⟩ | ⟨r, hr, hreach, hr'⟩
    · rw [hnone]
      exact iff_of_false (by rintro ⟨_, ⟨⟩⟩) (by omega)
    · have hrest := ih hr' (by omega)
      rw [hr, Option.bind_some, ← Option.isSome_iff_exists, Option.isSome_map,
        Option.isSome_iff_exists, hrest]
      omega

/-! ## The lengths -/

theorem intLen_eq (iov : List Iovec) (x : Int) :
    intLen (Int.bmod x (2 ^ 32)) iov = Int.bmod (x + (area iov).length) (2 ^ 32) := by
  induction iov generalizing x with
  | nil => simp [intLen, area]
  | cons v rest ih =>
    rw [intLen, Int.bmod_add_bmod, ih, area_cons, length_append, length_range', Int.natCast_add,
      Int.add_assoc]

theorem intLen_zero (iov : List Iovec) :
    intLen 0 iov = Int.bmod (area iov).length (2 ^ 32) := by
  have h := intLen_eq iov 0
  rwa [Int.zero_bmod, Int.zero_add] at h

theorem reach_le (iov : List Iovec) : reach iov ≤ (area iov).length := by
  induction iov with
  | nil => exact Nat.le_refl 0
  | cons v rest ih =>
    rw [area_cons, length_append, length_range']
    exact Nat.add_le_add (Nat.mod_le ..) ih

theorem ssizeLen_some {iov : List Iovec} {x y : Int} (h : ssizeLen x iov = some y) (hx : 0 ≤ x)
    (hlt : x < 2 ^ 63) :
    y < 2 ^ 63 ∧ (x + (area iov).length < 2 ^ 63 → y = x + (area iov).length) := by
  induction iov generalizing x with
  | nil =>
    cases h
    exact ⟨hlt, fun _ => (Int.add_zero _).symm⟩
  | cons v rest ih =>
    have hbmod := Int.bmod_def (x + v.len) (2 ^ 64)
    rw [area_cons, length_append, length_range', Int.natCast_add]
    rw [ssizeLen] at h
    split at h
    · cases h
    next hneg =>
      have hrest := ih h (by omega) (by split at hbmod <;> omega)
      split at hbmod <;> omega

/-! ## When a call is right -/

/-- **The caller's array** is left alone by `ff_readv` and `ff_writev` exactly if no byte is moved;
and by `ff_sendmsg` and `ff_recvmsg` if they succeed, or no byte is moved. The stack gets the right
length if the sum fits. -/
theorem scatter_iff (iov : List Iovec) (o : Outcome) :
    (ReadvRight iov o ↔ (asked o.calls = 0 ∨ 2 ^ 32 ∣ (area iov).length) ∧
      ((area iov).length < 2 ^ 31 ∨ o.error = true)) ∧
    (RecvmsgRight iov o ↔ ssizeLen 0 iov = none ∨ (area iov).length < 2 ^ 63 ∧
      if o.error then asked o.calls = 0 ∨ (area iov).length = 0
      else min (asked o.calls) (area iov).length ≤ reach iov) := by
  constructor
  · have hint := Int.bmod_def (area iov).length (2 ^ 32)
    rw [← intLen_zero] at hint
    have hsplit : ReadvRight iov o ↔ ffReadv iov o = some iov ∧ _ :=
      ⟨fun h => ⟨h.array, h.resid⟩, fun h => ⟨h.1, h.2⟩⟩
    rw [hsplit, ffReadv, array_eq]
    refine and_congr (or_congr_right ?_) (or_congr_left ?_) <;> split at hint <;> omega
  · rcases hlen : ssizeLen 0 iov with _ | resid
    · exact iff_of_true ⟨by rw [ffRecvmsg, hlen], .inl hlen⟩ (.inl rfl)
    have hright : resid = (area iov).length ↔ (area iov).length < 2 ^ 63 := by
      have := ssizeLen_some hlen (by decide) (by decide)
      omega
    simp only [reduceCtorEq, false_or]
    have hsplit : RecvmsgRight iov o ↔ resid = (area iov).length ∧ ffRecvmsg iov o = some iov := by
      refine ⟨fun h => ⟨by simpa [hlen] using h.resid, h.array⟩, fun h => ⟨h.2, .inr ?_⟩⟩
      rw [hlen, h.1]
    rw [hsplit, ← hright]
    refine and_congr_right fun hresid => ?_
    rw [ffRecvmsg, hlen, hresid]
    cases o.error with
    | true => exact array_eq.trans (or_congr_right Int.natCast_eq_zero)
    | false =>
      rw [if_neg (by decide), ← uiomoves_isSome o.calls (u := ⟨[], iov, _, 0⟩) rfl (reach_le iov)]
      simp

/-- Four bytes of a buffer of ten have been moved; for `ff_recvmsg` an error is reported then. -/
theorem scatter_not : ¬ ReadvRight [⟨100, 10⟩] ⟨[(0, 4)], false⟩ ∧
    ¬ RecvmsgRight [⟨100, 10⟩] ⟨[(0, 4)], true⟩ := by
  constructor <;> exact fun h => absurd (array_eq (n := 10).1 h.array) (by decide)

end FStack.Sock
