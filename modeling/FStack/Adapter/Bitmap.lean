import FStack.Adapter.Select
import Mathlib.Algebra.Group.Int.Defs

/-!
# The bits of an `fd_set`

`ff_bitmap_first_set` and `ff_bitmap_next_set` (`adapter/syscall/ff_hook_syscall.c:318-357`), and
the loop that `ff_hook_select` makes of them. It goes through the bits that `Select.lean` goes
through, as a `long` and, if the positions fit, as the `int` it is.
-/

namespace FStack.Adapter.Bitmap

open List FStack.Lib

/-- The words of a set, `fd_mask` each. -/
abbrev Words := Nat → BitVec 64

/-- The set that the words are. -/
def Words.bits (ai : Words) : Bits := fun i => (ai (i / 64)).getLsbD (i % 64)

/-- Both loops: the first word from `i0` on that is not 0, and its lowest bit. -/
def firstFrom (ai : Words) (i0 setWords : Nat) : Option Nat :=
  ((range' i0 (setWords - i0)).find? fun i => ai i != 0#64).map fun i => i * 64 + (ai i).ctz.toNat

variable (ai : Words) (setWords : BitVec 32)

/-- `ff_bitmap_first_set`, which returns a `uint64_t`. -/
def ffBitmapFirstSet : Int := (firstFrom ai 0 setWords.toInt.toNat).elim (2 ^ 64 - 1) Nat.cast

/-- `ff_bitmap_next_set`, for an `i` that is not negative. The words are signed. -/
def ffBitmapNextSet (i : Int) : Int :=
  let i0 := i.toNat / 64
  let i1 := i.toNat % 64
  if i0 < setWords.toInt.toNat then
    let t := (ai i0).sshiftRight i1 <<< i1
    if t != 0#64 then t.ctz.toNat + i0 * 64
    else (firstFrom ai (i0 + 1) setWords.toInt.toNat).elim (-1) Nat.cast
  else -1

/-- What the loop goes through from `fd` on, in a variable of `w` bits. -/
def visit (w : Nat) : Nat → Int → Option (List Int)
  | 0, _ => none
  | fuel + 1, fd =>
    if fd = -1 then some []
    else (visit w fuel ((ffBitmapNextSet ai setWords (fd + 1)).bmod (2 ^ w))).map (fd :: ·)

/-- The loop from `ff_bitmap_first_set` on. There is no result if `fuel` rounds do not suffice. -/
def visited (w fuel : Nat) : Option (List Int) :=
  visit ai setWords w fuel ((ffBitmapFirstSet ai setWords).bmod (2 ^ w))

/-! ## The next bit -/

/-- The first bit from `i` on that is set, below `n`. -/
def nextBit (s : Bits) (i n : Nat) : Option Nat := (range' i (n - i)).find? s

variable {ai setWords} {s : Bits} {i i0 n : Nat}

theorem filter_nextBit : (range' i (n - i)).filter s =
    (nextBit s i n).elim [] fun p => p :: (range' (p + 1) (n - (p + 1))).filter s := by
  unfold nextBit
  induction hk : n - i generalizing i with
  | zero => rfl
  | succ k ih =>
    have hk' : n - (i + 1) = k := by omega
    rw [range'_succ, filter_cons, find?_cons]
    cases s i with
    | true => rw [if_pos rfl, Option.elim_some, hk']
    | false => exact ih hk'

/-- A word, of which `t` has the bits from `i1` on. -/
theorem nextBit_word {t : BitVec 64} (hn : i0 < n) {i1 : Nat} (hi1 : i1 < 64)
    (ht : ∀ q < 64, t.getLsbD q = (decide (i1 ≤ q) && (ai i0).getLsbD q)) :
    nextBit ai.bits (i0 * 64 + i1) (n * 64) =
      if t = 0#64 then nextBit ai.bits ((i0 + 1) * 64) (n * 64)
      else some (i0 * 64 + t.ctz.toNat) := by
  have hbits (q : Nat) (hle : i0 * 64 + i1 ≤ q) (hlt : q < i0 * 64 + 64) :
      ai.bits q = t.getLsbD (q - i0 * 64) := by
    have hdiv : q / 64 = i0 := by omega
    have hmod : q % 64 = q - i0 * 64 := by omega
    rw [ht _ (by omega), decide_eq_true (by omega), Bool.true_and, Words.bits, hdiv, hmod]
  split
  next hzero =>
    have hsplit : range' (i0 * 64 + i1) (n * 64 - (i0 * 64 + i1)) =
        range' (i0 * 64 + i1) (64 - i1) ++ range' ((i0 + 1) * 64) (n * 64 - (i0 + 1) * 64) :=
      range'_eq_append_iff.2 ⟨64 - i1, by omega, rfl, by congr 1 <;> omega⟩
    rw [nextBit, hsplit, find?_append, find?_range'_eq_none.2 fun q hle hlt => ?_]
    · rfl
    · rw [hbits q hle (by omega), hzero]
      simp
  next hne =>
    have hctz : t.ctz.toNat < 64 := BitVec.ctz_lt_iff_ne_zero.2 hne
    have hset := BitVec.getLsbD_true_ctz_of_ne_zero hne
    have hle : i1 ≤ t.ctz.toNat := by
      rw [ht _ hctz] at hset
      exact of_decide_eq_true (Bool.and_eq_true_iff.1 hset).1
    refine find?_range'_eq_some.2 ⟨?_, mem_range'_1.2 (by omega), fun q hi hq => ?_⟩
    · rw [hbits _ (by omega) (by omega), Nat.add_sub_cancel_left, hset]
    · rw [hbits q hi (by omega), BitVec.getLsbD_false_of_lt_ctz (by omega)]
      rfl

theorem firstFrom_eq : firstFrom ai i0 n = nextBit ai.bits (i0 * 64) (n * 64) := by
  unfold firstFrom
  induction hk : n - i0 generalizing i0 with
  | zero =>
    have hzero : n * 64 - i0 * 64 = 0 := by omega
    rw [nextBit, hzero]
    rfl
  | succ k ih =>
    have hlt : i0 < n := by omega
    have hall : ∀ q < 64, (ai i0).getLsbD q = (decide (0 ≤ q) && (ai i0).getLsbD q) := by simp
    have hword := nextBit_word hlt (Nat.zero_lt_succ 63) hall
    rw [range'_succ, find?_cons, ← Nat.add_zero (i0 * 64), hword, ← ih (by omega)]
    by_cases hzero : ai i0 = 0#64
    · simp [hzero]
    · rw [if_neg hzero, bne_iff_ne.2 hzero]
      rfl

/-- A word shifted to the right, with its sign, and back. -/
theorem getLsbD_shifted (x : BitVec 64) (k : Nat) {q : Nat} (hq : q < 64) :
    (x.sshiftRight k <<< k).getLsbD q = (decide (k ≤ q) && x.getLsbD q) := by
  rw [BitVec.getLsbD_shiftLeft, BitVec.getLsbD_sshiftRight]
  by_cases hle : k ≤ q
  · have hlt : ¬ 64 ≤ q - k := by omega
    simp [hq, hle, hlt, Nat.not_lt.2 hle, Nat.add_sub_cancel' hle]
  · simp [hle, Nat.not_le.1 hle]

section

variable (hn : setWords.toInt.toNat = n)

include hn

theorem ffBitmapNextSet_eq : ffBitmapNextSet ai setWords i =
    (nextBit ai.bits i (n * 64)).elim (-1) Nat.cast := by
  have hi : nextBit ai.bits i = nextBit ai.bits (i / 64 * 64 + i % 64) := by
    rw [Nat.div_add_mod']
  unfold ffBitmapNextSet
  rw [Int.toNat_natCast, hi, hn]
  dsimp only
  split
  next hlt =>
    rw [nextBit_word hlt (Nat.mod_lt i (by decide)) fun q => getLsbD_shifted _ _, firstFrom_eq]
    generalize (ai (i / 64)).sshiftRight (i % 64) <<< (i % 64) = t
    by_cases hzero : t = 0#64
    · simp [hzero]
    · simp [hzero, Int.add_comm]
  next hge =>
    have hnone : n * 64 - (i / 64 * 64 + i % 64) = 0 := by omega
    rw [nextBit, hnone]
    rfl

/-- The loop from the first bit on that is not below `i`; `e` is an end marker. -/
theorem visit_nextBit {w fuel : Nat} {e : Int} (he : e.bmod (2 ^ w) = -1)
    (hfit : ∀ v : Int, -1 ≤ v → v < n * 64 → v.bmod (2 ^ w) = v) (hi : n * 64 - i < fuel) :
    visit ai setWords w fuel (((nextBit ai.bits i (n * 64)).elim e Nat.cast).bmod (2 ^ w)) =
      some (((range' i (n * 64 - i)).filter ai.bits).map Nat.cast) := by
  induction fuel generalizing i e with
  | zero => omega
  | succ fuel ih =>
    rw [filter_nextBit]
    cases hp : nextBit ai.bits i (n * 64) with
    | none => simp [visit, he]
    | some p =>
      have hlt := mem_range'_1.1 (find?_range'_eq_some.1 hp).2.1
      have hfd : (p : Int).bmod (2 ^ w) = p := hfit p (by omega) (by omega)
      have hne : (p : Int) ≠ -1 := by omega
      have hnext : ((p : Int) + 1) = (p + 1 : Nat) := rfl
      rw [Option.elim_some, hfd, visit, if_neg hne, hnext, ffBitmapNextSet_eq hn,
        ih (hfit (-1) (by omega) (by omega)) (by omega)]
      rfl

theorem visited_eq {w fuel : Nat} (hend : (2 ^ 64 - 1 : Int).bmod (2 ^ w) = -1)
    (hfit : ∀ v : Int, -1 ≤ v → v < n * 64 → v.bmod (2 ^ w) = v) (hfuel : n * 64 < fuel) :
    visited ai setWords w fuel = some ((ai.bits.below (n * 64)).map Nat.cast) := by
  rw [visited, ffBitmapFirstSet, hn, firstFrom_eq, Bits.below, range_eq_range']
  exact visit_nextBit hn hend hfit (by omega)

/-- The loop of `ff_hook_select`. -/
theorem visited_int {fuel : Nat} (hlt : n * 64 < 2 ^ 31) (hfuel : n * 64 < fuel) :
    visited ai setWords 32 fuel = some ((ai.bits.below (n * 64)).map Nat.cast) :=
  visited_eq hn (by decide) (fun _ hlow hv => Int.bmod_eq_of_le (by omega) (by omega)) hfuel

end

/-- **The loop goes through the bits that are set**, in order, and ends: with a variable of 64 bits
for every number of words, and with the `int` of `ff_hook_select` if the positions fit. -/
theorem visited_exact (ai : Words) (setWords : BitVec 32) (more : Nat) :
    let n := setWords.toInt.toNat
    visited ai setWords 64 (n * 64 + 1 + more) = some ((ai.bits.below (n * 64)).map Nat.cast) ∧
      (n * 64 < 2 ^ 31 → visited ai setWords 32 (n * 64 + 1 + more) =
        some ((ai.bits.below (n * 64)).map Nat.cast)) := by
  intro n
  have hlt := setWords.toInt_lt
  refine ⟨visited_eq rfl (by decide) (fun v hlow hv => ?_) (by omega),
    fun hfit => visited_int rfl hfit (by omega)⟩
  exact Int.bmod_eq_of_le (by omega) (by omega)

/-- `splitSet` goes through what the loop of `ff_hook_select` goes through. -/
theorem splitSet_visited {fds : List Int} {sets : Select.Sets} {k : Select.Kind}
    (hn : setWords.toInt.toNat = n) (hfit : n * 64 < 2 ^ 31) (hset : sets k = some ai.bits)
    (hfds : visited ai setWords 32 (n * 64 + 1) = some fds) (maxFd nfds : Nat) (p : Select.Parts) :
    Select.splitSet maxFd nfds n sets p k =
      ((fds.map Int.toNat).filter (· < nfds)).foldl (Select.addFd maxFd k) (p.clear n k) := by
  obtain rfl := Option.some.inj (hfds.symm.trans (visited_int hn hfit (Nat.lt_succ_self _)))
  have hid : Int.toNat ∘ Nat.cast = id := funext Int.toNat_natCast
  rw [Select.splitSet, hset, map_map, hid, map_id, Nat.mul_comm]

end FStack.Adapter.Bitmap
