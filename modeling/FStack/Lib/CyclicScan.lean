import Mathlib.Logic.Function.Iterate

/-!
# Cyclic search through a range

A loop that advances a 16-bit cursor, brings it back to the start of a range when it leaves the
range, and stops at the first position a test accepts or after a given number of steps. The cursor
may start anywhere.

* `scan_found`, `scan_exhausted`: what the two outcomes say about the positions visited.
* `cyclic_covers`: as many steps as the range has positions visit all of them.
* `stride_covers`: the same for a cursor that moves by `w` and returns to the first member of its
  class modulo `w`, over the members of the class.
-/

namespace FStack.Lib.CyclicScan

open Function

/-- The position after `x`: the 16-bit successor, or `lo` when that is outside `[lo, hi]`. -/
def next (lo hi x : Nat) : Nat :=
  let y := (x + 1) % 65536
  if y < lo || hi < y then lo else y

variable {ε : Type} {accept : Nat → Except ε Bool} {lo hi x n y p w : Nat} {step : Nat → Nat}

/-- Advance at most `n` times, up to the first position `accept` accepts; whether there was one, and
the cursor. -/
def scan (next : Nat → Nat) (accept : Nat → Except ε Bool) : Nat → Nat → Except ε (Bool × Nat)
  | 0, x => .ok (false, x)
  | n + 1, x =>
    match accept (next x) with
    | .error e => .error e
    | .ok true => .ok (true, next x)
    | .ok false => scan next accept n (next x)

theorem scan_succ : scan step accept (n + 1) x = match accept (step x) with
      | .error e => .error e
      | .ok true => .ok (true, step x)
      | .ok false => scan step accept n (step x) := rfl

/-- A position that is found is accepted and was reached by a step. -/
theorem scan_found : ∀ {n x : Nat}, scan step accept n x = .ok (true, y) →
    accept y = .ok true ∧ ∃ z, y = step z
  | 0, x, h => by
    cases h
  | n + 1, x, h => by
    rw [scan_succ] at h
    split at h
    · cases h
    next hacc =>
      cases h
      exact ⟨hacc, x, rfl⟩
    · exact scan_found h

/-- A search without success has rejected every position it visited. -/
theorem scan_exhausted : ∀ {n x : Nat}, scan step accept n x = .ok (false, y) →
    ∀ k, k < n → accept (step^[k + 1] x) = .ok false
  | 0, x, _, k, hk => absurd hk (Nat.not_lt_zero k)
  | n + 1, x, h, k, hk => by
    rw [scan_succ] at h
    split at h
    · cases h
    · cases h
    next hacc =>
      cases k with
      | zero => exact hacc
      | succ k =>
        exact scan_exhausted h k (by omega)

/-- A test that cannot fail makes a search that cannot fail. -/
theorem scan_total (step : Nat → Nat) (h : ∀ x, ∃ b, accept x = .ok b) :
    ∀ n x, ∃ r, scan step accept n x = .ok r
  | 0, x => ⟨_, rfl⟩
  | n + 1, x => by
    obtain ⟨b, hb⟩ := h (step x)
    rw [scan_succ, hb]
    cases b with
    | true => exact ⟨_, rfl⟩
    | false => exact scan_total step h n (step x)

theorem next_mem (h : lo ≤ hi) (x : Nat) : lo ≤ next lo hi x ∧ next lo hi x ≤ hi := by
  unfold next
  dsimp only
  split
  · exact ⟨Nat.le_refl lo, h⟩
  next hin =>
    simp only [Bool.or_eq_true, decide_eq_true_eq, not_or, Nat.not_lt] at hin
    exact hin

theorem next_of_lt (hlo : lo ≤ x) (hhi : x < hi) (hw : hi < 65536) : next lo hi x = x + 1 := by
  have hmod : (x + 1) % 65536 = x + 1 := Nat.mod_eq_of_lt (by omega)
  have hin : ¬(x + 1 < lo) ∧ ¬(hi < x + 1) := by omega
  simp [next, hmod, hin.1, hin.2]

theorem next_last (hw : hi < 65536) (h : lo ≤ hi) : next lo hi hi = lo := by
  rcases Nat.lt_or_ge (hi + 1) 65536 with hlt | hge
  · simp [next, Nat.mod_eq_of_lt hlt]
  · have hmod : (hi + 1) % 65536 = 0 := by omega
    rcases Nat.eq_zero_or_pos lo with rfl | hpos
    · simp [next, hmod]
    · simp [next, hmod, hpos]

/-- From a position of the range, `k` steps lead `k` further. -/
theorem iterate_next (hw : hi < 65536) (hlo : lo ≤ x) : ∀ k, x + k ≤ hi → (next lo hi)^[k] x = x + k
  | 0, _ => rfl
  | k + 1, hk => by
    rw [iterate_succ_apply', iterate_next hw hlo k (by omega),
      next_of_lt (by omega) (by omega) hw, Nat.add_assoc]

/-- **Coverage**: from any cursor, `hi - lo + 1` steps visit every position of the range. -/
theorem cyclic_covers (hw : hi < 65536) (hlo : lo ≤ p) (hhi : p ≤ hi) (x : Nat) :
    ∃ k, k < hi - lo + 1 ∧ (next lo hi)^[k + 1] x = p := by
  obtain ⟨h1, h2⟩ := next_mem (Nat.le_trans hlo hhi) x
  rcases Nat.lt_or_ge p (next lo hi x) with hlt | hge
  · -- up to the end of the range, round to `lo`, and on to `p`
    refine ⟨hi - next lo hi x + 1 + (p - lo), by omega, ?_⟩
    have hend : (next lo hi)^[hi - next lo hi x] (next lo hi x) = hi := by
      rw [iterate_next hw h1 _ (by omega)]
      omega
    have hwrap : (next lo hi)^[hi - next lo hi x + 1] (next lo hi x) = lo := by
      rw [iterate_succ_apply', hend, next_last hw (Nat.le_trans hlo hhi)]
    rw [iterate_succ_apply, Nat.add_comm, iterate_add_apply, hwrap,
      iterate_next hw (Nat.le_refl lo) _ (by omega)]
    omega
  · refine ⟨p - next lo hi x, by omega, ?_⟩
    rw [iterate_succ_apply, iterate_next hw h1 _ (by omega)]
    omega

/-- **A search of at least the range's length that fails** has rejected the whole range. -/
theorem scan_range_exhausted (hw : hi < 65536) (hn : hi - lo + 1 ≤ n)
    (h : scan (next lo hi) accept n x = .ok (false, y)) (hlo : lo ≤ p) (hhi : p ≤ hi) :
    accept p = .ok false := by
  obtain ⟨k, hk, hp⟩ := cyclic_covers hw hlo hhi x
  rw [← hp]
  exact scan_exhausted h k (by omega)

/-- A position of the range that is found is accepted. -/
theorem scan_range_found (hle : lo ≤ hi) (h : scan (next lo hi) accept n x = .ok (true, y)) :
    lo ≤ y ∧ y ≤ hi ∧ accept y = .ok true := by
  obtain ⟨hacc, z, rfl⟩ := scan_found h
  exact ⟨(next_mem hle z).1, (next_mem hle z).2, hacc⟩

/-- The candidate at `x`: `x` itself below `hi`, and `lo` from there on. -/
def wrap (lo hi x : Nat) : Nat := if hi ≤ x then lo else x

/-- `w` further from `x`. -/
def stride (lo hi w x : Nat) : Nat := wrap lo hi (x + w)

theorem wrap_of_lt (h : x < hi) : wrap lo hi x = x := if_neg (Nat.not_le.2 h)

/-- The candidates stay below `hi` and in the class of `lo` modulo `w`. -/
theorem wrap_mem (hlo : lo < hi) (hmod : x % w = lo % w) :
    wrap lo hi x < hi ∧ wrap lo hi x % w = lo % w := by
  unfold wrap
  split
  · exact ⟨hlo, rfl⟩
  next hx => exact ⟨Nat.lt_of_not_le hx, hmod⟩

theorem iterate_stride : ∀ k, x + k * w < hi → (stride lo hi w)^[k] x = x + k * w
  | 0, _ => by simp
  | k + 1, hk => by
    rw [Nat.succ_mul] at hk ⊢
    rw [iterate_succ_apply', iterate_stride k (by omega), stride,
      wrap_of_lt (by omega), Nat.add_assoc]

/-- **Coverage**: from any member below `hi` of the class of `lo`, as many strides as the class can
have members below `hi` visit all of them. -/
theorem stride_covers (hlo : lo < w) {v : Nat} (hx : x < hi) (hxm : x % w = lo) (hv : v < hi)
    (hvm : v % w = lo) : ∃ k, k < (hi + w - 1) / w ∧ (stride lo hi w)^[k] x = v := by
  have hpos : 0 < w := Nat.lt_of_le_of_lt (Nat.zero_le lo) hlo
  -- `x` and `v` by their places in the class
  obtain ⟨a, rfl⟩ : ∃ a, x = lo + a * w :=
    ⟨x / w, by rw [← hxm, Nat.mul_comm]; exact (Nat.mod_add_div x w).symm⟩
  obtain ⟨j, rfl⟩ : ∃ j, v = lo + j * w :=
    ⟨v / w, by rw [← hvm, Nat.mul_comm]; exact (Nat.mod_add_div v w).symm⟩
  have hplace : ∀ k, lo + k * w < hi → k < (hi + w - 1) / w := by
    intro k hk
    rw [← Nat.succ_le_iff, Nat.le_div_iff_mul_le hpos, Nat.succ_mul]
    omega
  rcases Nat.lt_or_ge j a with hja | haj
  · -- up to the last member `b`, round to `lo`, and on to `v`
    obtain ⟨b, hb⟩ : ∃ b, b = (hi - 1 - lo) / w := ⟨_, rfl⟩
    have hble : b * w ≤ hi - 1 - lo := by rw [hb]; exact Nat.div_mul_le_self _ _
    have hblt : hi - 1 - lo < (b + 1) * w := by
      rw [hb, Nat.mul_comm]
      exact Nat.lt_mul_div_succ _ hpos
    rw [Nat.succ_mul] at hblt
    have hab : a ≤ b := by
      rw [hb, Nat.le_div_iff_mul_le hpos]
      omega
    have hlast : (stride lo hi w)^[b - a] (lo + a * w) = lo + b * w := by
      have hsum : lo + a * w + (b - a) * w = lo + b * w := by
        rw [Nat.add_assoc, ← Nat.add_mul, Nat.add_sub_cancel' hab]
      rw [iterate_stride _ (by omega), hsum]
    have hround : (stride lo hi w)^[b - a + 1] (lo + a * w) = lo := by
      rw [iterate_succ_apply', hlast, stride, wrap, if_pos (by omega)]
    refine ⟨j + (b - a + 1), ?_, ?_⟩
    · have := hplace b (by omega)
      omega
    · rw [iterate_add_apply, hround, iterate_stride j hv]
  · refine ⟨j - a, Nat.lt_of_le_of_lt (Nat.sub_le j a) (hplace j hv), ?_⟩
    have hsum : lo + a * w + (j - a) * w = lo + j * w := by
      rw [Nat.add_assoc, ← Nat.add_mul, Nat.add_sub_cancel' haj]
    rw [iterate_stride _ (by omega), hsum]

end FStack.Lib.CyclicScan
