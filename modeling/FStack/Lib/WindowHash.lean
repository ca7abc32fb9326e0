import Mathlib.Data.Nat.Basic

/-!
# Sliding-window hashes over GF(2)

A key is a stream of bits `k : Nat → Bool`. Its *window* at position `i` is the `w`-bit word
made of the bits `i, …, i + w - 1`, most significant first. The window hash of an input is the
exclusive or of the windows at the positions of its set bits, so it is linear in the input for a
fixed key. `hashRange` is that sum over a block of positions, which is the form the proofs use: a
hash splits into the hashes of its blocks, and two blocks with the same bits and the same windows
have the same hash.

Results:
* `hashRange_add`, `hashRange_congr`, `hashRange_xor`, `hashRange_single`: blocks, congruence,
  linearity, and the hash of one set bit.
* `hashRange_eq_foldr`: the hash over the list of set positions.
* `window_eq_iff`: equal windows along a block are equal key bits along a slightly longer one.
* `hashRange_swapTwo_iff`: exchanging the blocks of two adjacent pairs never changes the hash iff
  the key repeats with the blocks' length along each pair.
* `exists_of_basis`: a linear map that reaches every unit word reaches every word.
* `exists_neighbours`: keys that first differ behind a block that reaches every low word give some
  input neighbouring hashes.
-/

namespace FStack.Lib.WindowHash

open List BitVec

/-- The bits `i, …, i + w - 1` of the key, most significant first. -/
def window : (w : Nat) → (k : Nat → Bool) → (i : Nat) → BitVec w
  | 0, _, _ => 0#0
  | w + 1, k, i => BitVec.cons (k i) (window w k (i + 1))

/-- The exclusive or of the windows at the set positions of `x` in `[a, a + n)`. -/
def hashRange (w : Nat) (k x : Nat → Bool) (a : Nat) : Nat → BitVec w
  | 0 => 0
  | n + 1 => hashRange w k x a n ^^^ (if x (a + n) then window w k (a + n) else 0)

variable {w a n p m i b : Nat} {k l x y : Nat → Bool}

theorem getMsbD_window (k : Nat → Bool) (i t : Nat) :
    (window w k i).getMsbD t = (decide (t < w) && k (i + t)) := by
  induction w generalizing i t with
  | zero => simp
  | succ w ih =>
    cases t with
    | zero => simp [window]
    | succ t =>
      rw [window, getMsbD_cons_succ, ih]
      have : i + 1 + t = i + (t + 1) := by omega
      simp [this]

/-- Sliding by one position drops the leading bit and shifts in the next one. -/
theorem window_succ (k : Nat → Bool) (i : Nat) (hw : 0 < w) :
    window w k (i + 1) =
      (if k (i + w) then window w k i <<< 1 ||| 1#w else window w k i <<< 1) := by
  apply eq_of_getMsbD_eq
  intro t ht
  have hlast : (window w k i <<< 1).getMsbD t = (decide (t + 1 < w) && k (i + (t + 1))) := by
    rw [getMsbD_shiftLeft, getMsbD_window]
  have hpos : i + 1 + t = i + (t + 1) := by omega
  by_cases hk : k (i + w) = true
  · rw [if_pos hk, getMsbD_or, hlast, getMsbD_window, getMsbD_one, hpos]
    by_cases hlt : t + 1 < w
    · have : t ≠ w - 1 := by omega
      simp [ht, hlt, this]
    · have hend : t + 1 = w := by omega
      have hidx : t = w - 1 := by omega
      rw [hend, hk, ← hidx]
      simp [ht, hw]
  · rw [if_neg hk, hlast, getMsbD_window, hpos]
    by_cases hlt : t + 1 < w
    · simp [ht, hlt]
    · have : t + 1 = w := by omega
      simp [this, hk]

/-! ## Blocks -/

theorem hashRange_add (k x : Nat → Bool) (a n : Nat) :
    ∀ m, hashRange w k x a (n + m) = hashRange w k x a n ^^^ hashRange w k x (a + n) m
  | 0 => by simp [hashRange]
  | m + 1 => by
    show hashRange w k x a (n + m) ^^^ _ = _
    rw [hashRange_add k x a n m]
    show _ ^^^ (if x (a + (n + m)) then window w k (a + (n + m)) else 0) = _
    rw [← Nat.add_assoc a n m, xor_assoc]
    rfl

/-- Two blocks with the same bits and, at the set ones, the same windows. -/
theorem hashRange_congr : ∀ {n : Nat}, (∀ i, i < n → x (a + i) = y (b + i)) →
      (∀ i, i < n → x (a + i) = true → window w k (a + i) = window w l (b + i)) →
      hashRange w k x a n = hashRange w l y b n
  | 0, _, _ => rfl
  | n + 1, hx, hw => by
    show _ ^^^ _ = _ ^^^ _
    rw [hashRange_congr (fun i hi => hx i (by omega)) (fun i hi => hw i (by omega))]
    rw [← hx n (by omega)]
    by_cases h : x (a + n) = true
    · rw [if_pos h, if_pos h, hw n (by omega) h]
    · rw [if_neg h, if_neg h]

theorem xor_four (p q r s : BitVec w) : p ^^^ q ^^^ (r ^^^ s) = p ^^^ r ^^^ (q ^^^ s) := by
  ac_rfl

/-- The hash is linear in the input. -/
theorem hashRange_xor (k x y : Nat → Bool) (a : Nat) :
    ∀ n, hashRange w k (fun i => x i ^^ y i) a n = hashRange w k x a n ^^^ hashRange w k y a n
  | 0 => by simp [hashRange]
  | n + 1 => by
    show _ ^^^ _ = (_ ^^^ _) ^^^ (_ ^^^ _)
    rw [hashRange_xor k x y a n, xor_four]
    cases hx : x (a + n) <;> cases hy : y (a + n) <;> simp [hx, hy]

/-- The hash from position 0 on, as the exclusive or over the list of set positions. -/
theorem hashRange_eq_foldr (k x : Nat → Bool) :
    ∀ n, hashRange w k x 0 n = (((range n).filter x).map (window w k)).foldr (· ^^^ ·) 0
  | 0 => rfl
  | n + 1 => by
    have hacc : ∀ (l : List (BitVec w)) (v : BitVec w),
        l.foldr (· ^^^ ·) v = l.foldr (· ^^^ ·) 0 ^^^ v := by
      intro l v
      induction l with
      | nil => simp
      | cons u l ih => rw [foldr_cons, ih, foldr_cons, xor_assoc]
    rw [hashRange, hashRange_eq_foldr k x n, Nat.zero_add, range_succ, filter_append,
      map_append, foldr_append]
    cases hx : x n with
    | false => simp [hx]
    | true => simp [hx, hacc _ (window w k n)]

theorem hashRange_zero : ∀ {n : Nat}, (∀ i, i < n → x (a + i) = false) → hashRange w k x a n = 0
  | 0, _ => rfl
  | n + 1, h => by
    show _ ^^^ _ = _
    rw [hashRange_zero fun i hi => h i (by omega), h n (by omega)]
    simp

/-- The hash of one set bit is the window at its position. -/
theorem hashRange_single (k : Nat → Bool) (ha : a ≤ p) (hp : p < a + n) :
    hashRange w k (fun i => i == p) a n = window w k p := by
  have hsplit : n = (p - a) + (1 + (n - (p - a) - 1)) := by omega
  rw [hsplit, hashRange_add, hashRange_add,
    hashRange_zero fun i hi => by simp; omega,
    hashRange_zero (n := n - (p - a) - 1) fun i hi => by simp; omega]
  have : a + (p - a) = p := by omega
  simp [hashRange, this]

/-! ## Equal windows are equal key bits -/

theorem window_congr (h : ∀ t, t < w → k (a + t) = l (b + t)) : window w k a = window w l b := by
  apply eq_of_getMsbD_eq
  intro t ht
  rw [getMsbD_window, getMsbD_window, h t ht]

/-- Equal windows along a block of `n ≥ 1` positions are equal key bits along `n + w - 1`. -/
theorem window_eq_iff (hn : 0 < n) (hw : 0 < w) :
    (∀ i, i < n → window w k (a + i) = window w l (b + i)) ↔
      ∀ j, j < n + w - 1 → k (a + j) = l (b + j) := by
  constructor
  · intro h j hj
    -- bit `j` is bit `j - i` of the window at `i = min j (n - 1)`
    by_cases hjn : j < n
    · have := congrArg (fun v => v.getMsbD 0) (h j hjn)
      simpa [getMsbD_window, hw] using this
    · have := congrArg (fun v => v.getMsbD (j - (n - 1))) (h (n - 1) (by omega))
      have ht : j - (n - 1) < w := by omega
      have ha : a + (n - 1) + (j - (n - 1)) = a + j := by omega
      have hb : b + (n - 1) + (j - (n - 1)) = b + j := by omega
      simpa [getMsbD_window, ht, ha, hb] using this
  · intro h i hi
    apply window_congr
    intro t ht
    rw [Nat.add_assoc, Nat.add_assoc]
    exact h (i + t) (by omega)

/-- Keys that agree on the bits a block's windows cover hash the block alike. -/
theorem hashRange_key_congr (h : ∀ j, a ≤ j → j < a + n + w - 1 → k j = l j) :
    hashRange w k x a n = hashRange w l x a n := by
  apply hashRange_congr (fun _ _ => rfl)
  intro i hi _
  apply window_congr
  intro t ht
  exact h (a + i + t) (by omega) (by omega)

/-! ## Exchanging two adjacent blocks -/

/-- `x` with the blocks `[a, a + m)` and `[a + m, a + 2m)` exchanged. -/
def swapBlocks (x : Nat → Bool) (a m : Nat) : Nat → Bool := fun i =>
  if a ≤ i ∧ i < a + m then x (i + m)
  else if a + m ≤ i ∧ i < a + 2 * m then x (i - m)
  else x i

theorem hashRange_swap (h : ∀ i, i < m → window w k (a + i) = window w k (a + m + i)) :
    hashRange w k (swapBlocks x a m) a (m + m) = hashRange w k x a (m + m) := by
  rw [hashRange_add, hashRange_add, BitVec.xor_comm]
  congr 1
  · apply hashRange_congr
    · intro i hi
      unfold swapBlocks
      rw [if_neg (by omega), if_pos (by omega)]
      congr 1
      omega
    · intro i hi _
      exact (h i hi).symm
  · apply hashRange_congr
    · intro i hi
      unfold swapBlocks
      rw [if_pos (by omega)]
      congr 1
      omega
    · intro i hi _
      exact h i hi

theorem swapBlocks_single (hi : i < m) :
    swapBlocks (fun j => j == a + i) a m = fun j => j == a + m + i := by
  funext j
  unfold swapBlocks
  split
  · simp; omega
  · split <;> simp <;> omega

theorem swapBlocks_single_of_out (hp : p < a ∨ a + 2 * m ≤ p) :
    swapBlocks (fun j => j == p) a m = fun j => j == p := by
  funext j
  unfold swapBlocks
  split
  · simp; omega
  · split
    · simp; omega
    · rfl

/-- Two adjacent `m`-blocks exchanged, and the two `n`-blocks behind them. -/
def swapTwo (x : Nat → Bool) (m n : Nat) : Nat → Bool :=
  swapBlocks (swapBlocks x 0 m) (m + m) n

theorem swapTwo_of_lt (x : Nat → Bool) (n : Nat) (hi : i < m + m) :
    swapTwo x m n i = swapBlocks x 0 m i := by
  unfold swapTwo
  rw [swapBlocks, if_neg (by omega), if_neg (by omega)]

theorem swapTwo_of_le (x : Nat → Bool) (n : Nat) (hi : m + m ≤ i) :
    swapTwo x m n i = swapBlocks x (m + m) n i := by
  have h : ∀ j, m + m ≤ j → swapBlocks x 0 m j = x j := fun j hj => by
    rw [swapBlocks, if_neg (by omega), if_neg (by omega)]
  unfold swapTwo
  simp only [swapBlocks.eq_def _ (m + m) n]
  split
  · rw [h _ (by omega)]
  · split
    · rw [h _ (by omega)]
    · rw [h _ hi]

theorem swapTwo_congr (h : ∀ i, i < m + m + (n + n) → x i = y i) (hi : i < m + m + (n + n)) :
    swapTwo x m n i = swapTwo y m n i := by
  rcases lt_or_ge i (m + m) with hm | hm
  · rw [swapTwo_of_lt x n hm, swapTwo_of_lt y n hm]
    unfold swapBlocks
    rw [h i hi, h (i - m) (by omega)]
    split
    · exact h _ (by omega)
    · rfl
  · rw [swapTwo_of_le x n hm, swapTwo_of_le y n hm]
    unfold swapBlocks
    rw [h i hi, h (i - n) (by omega)]
    split
    · exact h _ (by omega)
    · rfl

/-- The hash ignores both exchanges iff the key repeats along both pairs of blocks. -/
theorem hashRange_swapTwo_iff (k : Nat → Bool) (hm : 0 < m) (hn : 0 < n) (hw : 0 < w) :
    (∀ x, hashRange w k (swapTwo x m n) 0 (m + m + (n + n)) =
        hashRange w k x 0 (m + m + (n + n))) ↔
      (∀ j, j < m + w - 1 → k (0 + j) = k (0 + m + j)) ∧
        ∀ j, j < n + w - 1 → k (m + m + j) = k (m + m + n + j) := by
  rw [← window_eq_iff hm hw, ← window_eq_iff hn hw]
  constructor
  · intro h
    refine ⟨fun i hi => ?_, fun i hi => ?_⟩
    · have hx := h fun j => j == 0 + i
      rw [swapTwo, swapBlocks_single hi, swapBlocks_single_of_out (by omega),
        hashRange_single k (by omega) (by omega), hashRange_single k (by omega) (by omega)] at hx
      exact hx.symm
    · have hx := h fun j => j == m + m + i
      rw [swapTwo, swapBlocks_single_of_out (by omega), swapBlocks_single hi,
        hashRange_single k (by omega) (by omega), hashRange_single k (by omega) (by omega)] at hx
      exact hx.symm
  · rintro ⟨h1, h2⟩ x
    rw [hashRange_add k (swapTwo x m n) 0 (m + m), hashRange_add k x 0 (m + m),
      ← hashRange_swap (x := x) h1, Nat.zero_add, ← hashRange_swap (x := x) h2]
    congr 1
    · exact hashRange_congr (fun i hi => by rw [swapTwo_of_lt x n (by omega)]) (fun _ _ _ => rfl)
    · exact hashRange_congr (fun i hi => by rw [swapTwo_of_le x n (by omega)]) (fun _ _ _ => rfl)

/-! ## Reaching every word -/

/-- A set of words closed under exclusive or that contains every unit word is everything. -/
theorem mem_of_xor_closed {S : BitVec w → Prop} (h0 : S 0#w)
    (hxor : ∀ u v, S u → S v → S (u ^^^ v)) (hbit : ∀ i, i < w → S (BitVec.twoPow w i))
    (v : BitVec w) : S v := by
  -- keep the low `n` bits; one more bit is one more unit word
  suffices h : ∀ n, n ≤ w → S ((v.setWidth n).setWidth w) by
    have hv := h w (Nat.le_refl w)
    rwa [setWidth_eq, setWidth_eq] at hv
  intro n
  induction n with
  | zero =>
    intro _
    have e : (v.setWidth 0).setWidth w = 0#w := by
      apply eq_of_getLsbD_eq
      simp
    rw [e]
    exact h0
  | succ n ih =>
    intro hn
    have e : (v.setWidth (n + 1)).setWidth w =
        (v.setWidth n).setWidth w ^^^ (if v.getLsbD n then BitVec.twoPow w n else 0#w) := by
      apply eq_of_getLsbD_eq
      intro i hi
      rw [getLsbD_xor]
      simp only [getLsbD_setWidth, hi, decide_true, Bool.true_and]
      rcases Nat.lt_trichotomy i n with hlt | rfl | hgt
      · have h1 : i < n + 1 := by omega
        have h2 : n ≠ i := by omega
        cases v.getLsbD n <;> simp [hlt, h1, h2]
      · cases hv : v.getLsbD i <;> simp [hi]
      · have h1 : ¬ i < n + 1 := by omega
        have h2 : ¬ i < n := by omega
        have h3 : n ≠ i := by omega
        cases v.getLsbD n <;> simp [h1, h2, h3]
    rw [e]
    refine hxor _ _ (ih (by omega)) ?_
    split
    · exact hbit n hn
    · exact h0

/-- **Reaching every word.** A linear map of bit strings that reaches every unit word reaches
every word. -/
theorem exists_of_basis (F : (Nat → Bool) → BitVec w) (F0 : F (fun _ => false) = 0#w)
    (Fxor : ∀ x y, F (fun i => x i ^^ y i) = F x ^^^ F y)
    (h : ∀ i, i < w → ∃ x, F x = BitVec.twoPow w i) (u : BitVec w) : ∃ x, F x = u := by
  refine mem_of_xor_closed (S := fun u => ∃ x, F x = u) ⟨_, F0⟩ ?_ h u
  rintro _ _ ⟨x, rfl⟩ ⟨y, rfl⟩
  exact ⟨_, Fxor x y⟩

/-! ## Telling two keys apart -/

/-- The low `v` bits of the hash of the first `n` positions. -/
def lowHash (w v : Nat) (k : Nat → Bool) (n : Nat) (x : Nat → Bool) : BitVec v :=
  (hashRange w k x 0 n).setWidth v

theorem lowHash_zero (v : Nat) (k : Nat → Bool) (n : Nat) :
    lowHash w v k n (fun _ => false) = 0#v := by
  rw [lowHash, hashRange_zero fun _ _ => rfl]
  simp

theorem lowHash_xor (v : Nat) (k : Nat → Bool) (n : Nat) (x y : Nat → Bool) :
    lowHash w v k n (fun i => x i ^^ y i) = lowHash w v k n x ^^^ lowHash w v k n y := by
  rw [lowHash, hashRange_xor, setWidth_xor]
  rfl

/-- Two keys that first differ at bit `p`: the last window that ends there differs in one bit. -/
theorem window_flip (hw : 0 < w) (hp : w - 1 ≤ p) (hagree : ∀ j, j < p → k j = l j)
    (hdiff : k p ≠ l p) : window w l (p - (w - 1)) = window w k (p - (w - 1)) ^^^ 1#w := by
  apply eq_of_getMsbD_eq
  intro t ht
  rw [getMsbD_xor, getMsbD_window, getMsbD_window]
  by_cases hlast : t = w - 1
  · cases hk : k p <;> cases hl : l p <;> simp_all
  · rw [hagree _ (by omega)]
    simp [hlast]

/-- **Telling two keys apart.** Let the keys first differ at bit `p`, behind the windows of the
first `n` positions, and let those reach every low word. Then for every word some input hashes to
it under one key and to its neighbour under the other. -/
theorem exists_neighbours {v N : Nat} (hv : 0 < v) (hvw : v ≤ w)
    (hreach : ∀ u, ∃ x, lowHash w v k n x = u) (hn : n + w - 1 ≤ p) (hN : p < N + w - 1)
    (hagree : ∀ j, j < p → k j = l j) (hdiff : k p ≠ l p) (u : BitVec v) :
    ∃ x, lowHash w v k N x = u ∧ lowHash w v l N x = u ^^^ 1#v := by
  have hw : 0 < w := by omega
  -- the position whose window ends at the differing bit
  obtain ⟨i, hi⟩ : ∃ i, i = p - (w - 1) := ⟨_, rfl⟩
  obtain ⟨x, hx⟩ := hreach (u ^^^ (window w k i).setWidth v)
  let y : Nat → Bool := fun j => if j < n then x j else j == i
  have hsplit : ∀ key : Nat → Bool,
      hashRange w key y 0 N = hashRange w key x 0 n ^^^ window w key i := fun key => by
    have hNn : N = n + (N - n) := by omega
    rw [hNn, hashRange_add]
    congr 1
    · exact hashRange_congr (fun j hj => by simp [y, hj]) (fun _ _ _ => rfl)
    · rw [← hashRange_single key (a := 0 + n) (n := N - n) (p := i) (by omega) (by omega)]
      exact hashRange_congr (fun j hj => if_neg (by omega)) (fun _ _ _ => rfl)
  have hsame : hashRange w l x 0 n = hashRange w k x 0 n :=
    hashRange_key_congr fun j _ hj => (hagree j (by omega)).symm
  have hflip : window w l i = window w k i ^^^ 1#w := by
    rw [hi]
    exact window_flip hw (by omega) hagree hdiff
  have hk : lowHash w v k N y = u := by
    rw [lowHash, hsplit, setWidth_xor, ← lowHash, hx, xor_assoc]
    simp
  refine ⟨y, hk, ?_⟩
  rw [lowHash, hsplit, hsame, hflip, ← xor_assoc, ← hsplit, setWidth_xor, ← lowHash, hk,
    setWidth_ofNat_of_le hvw]

end FStack.Lib.WindowHash
