import FStack.Lib.WindowHash
import Mathlib.Tactic.Positivity

/-!
# The software Toeplitz hash

Model of `toeplitz_hash` (`lib/ff_dpdk_if.c:3041-3062`), the routine `ff_rss_check` and
`ff_rss_check6` predict the receive queue with. It walks the data bit by bit with a 32-bit window
`v` of the key: a set data bit folds `v` into the hash, then `v` moves one key bit on. Key bytes
at or beyond `keylen` are never read and count as zero.

* `toeplitzHash_eq`: for a key of at least four bytes the loop computes the window hash of
  `Lib/WindowHash.lean`: the exclusive or of the key windows at the set data bits.
* `toeplitzHash_eq_of_key`: two keys with the same bits under the data's windows hash it alike.
* `toeplitzHash_xor_windows`: the mathematical definition, over the list of set data bits, and the
  linearity that follows.
-/

namespace FStack.Rss

open List FStack.Lib.WindowHash

/-- A byte of a key or of a tuple. -/
abbrev Byte := BitVec 8

/-- Bit `i` of a byte string, counted from the most significant bit of byte 0. -/
def bitAt (bs : List Byte) (i : Nat) : Bool := (bs.getD (i / 8) 0).getMsbD (i % 8)

/-- Bit `i` of a key of `keylen` bytes; zero past its end. -/
def keyBit (keylen : Nat) (key : List Byte) (i : Nat) : Bool :=
  decide (i / 8 < keylen) && bitAt key i

/-- The `n` bytes with the bits of `x`. -/
def ofBits (x : Nat → Bool) (n : Nat) : List Byte :=
  (range n).map fun j => window 8 x (8 * j)

@[simp] theorem ofBits_length (x : Nat → Bool) (n : Nat) : (ofBits x n).length = n := by
  simp [ofBits]

variable {i keylen b : Nat}

theorem bitAt_ofBits (x : Nat → Bool) {n : Nat} (hi : i < 8 * n) : bitAt (ofBits x n) i = x i := by
  have hj : i / 8 < n := by omega
  have hpos : 8 * (i / 8) + i % 8 = i := by omega
  have hb : i % 8 < 8 := Nat.mod_lt _ (by omega)
  rw [bitAt, getD_eq_getElem?_getD, ofBits, getElem?_map, getElem?_range hj,
    Option.map_some, Option.getD_some, getMsbD_window, hpos]
  simp [hb]

theorem bitAt_append_left (as bs : List Byte) (hi : i < 8 * as.length) :
    bitAt (as ++ bs) i = bitAt as i := by
  have hj : i / 8 < as.length := by omega
  simp [bitAt, getD_eq_getElem?_getD, getElem?_append_left hj]

theorem bitAt_append_right (as bs : List Byte) (hi : 8 * as.length ≤ i) :
    bitAt (as ++ bs) i = bitAt bs (i - 8 * as.length) := by
  have hj : as.length ≤ i / 8 := by omega
  have h1 : (i - 8 * as.length) / 8 = i / 8 - as.length := by omega
  have h2 : (i - 8 * as.length) % 8 = i % 8 := by omega
  simp [bitAt, getD_eq_getElem?_getD, getElem?_append_right hj, h1, h2]

/-! ## The source loop -/

/-- `v = (key[0]<<24) + (key[1]<<16) + (key[2]<<8) + key[3]`. -/
def firstWindow (key : List Byte) : BitVec 32 :=
  (key.getD 0 0).setWidth 32 <<< 24 + (key.getD 1 0).setWidth 32 <<< 16 +
    (key.getD 2 0).setWidth 32 <<< 8 + (key.getD 3 0).setWidth 32

/-- The body of the inner loop, on the pair `(hash, v)`. In the source `i + 4` is an `u_int`, which
does not wrap: a tuple has at most 36 bytes. -/
def toeplitzBit (keylen : Nat) (key : List Byte) (d : Byte) (i : Nat)
    (s : BitVec 32 × BitVec 32) (b : Nat) : BitVec 32 × BitVec 32 :=
  let hash := if d.getLsbD (7 - b) then s.1 ^^^ s.2 else s.1
  let v := s.2 <<< 1
  (hash, if decide (i + 4 < keylen) && (key.getD (i + 4) 0).getLsbD (7 - b) then v ||| 1#32 else v)

/-- `for (b = 0; b < 8; b++)` on data byte `i`. -/
def toeplitzByte (keylen : Nat) (key : List Byte) (s : BitVec 32 × BitVec 32)
    (p : Byte × Nat) : BitVec 32 × BitVec 32 :=
  (range 8).foldl (toeplitzBit keylen key p.1 p.2) s

/-- `toeplitz_hash`. -/
def toeplitzHash (keylen : Nat) (key data : List Byte) : BitVec 32 :=
  (data.zipIdx.foldl (toeplitzByte keylen key) (0#32, firstWindow key)).1

/-! ## The loop computes the window hash -/

theorem bitAt_of_byte (bs : List Byte) (hb : b < 8) :
    bitAt bs (8 * i + b) = (bs.getD i 0).getLsbD (7 - b) := by
  have h1 : (8 * i + b) / 8 = i := by omega
  have h2 : (8 * i + b) % 8 = b := by omega
  rw [bitAt, h1, h2, BitVec.getMsbD_eq_getLsbD]
  simp [hb]

theorem setWidth_shift_toNat (x : Byte) (s : Nat) (hs : s ≤ 24) :
    (x.setWidth 32 <<< s).toNat = x.toNat * 2 ^ s := by
  have hx := x.isLt
  have hp : 2 ^ s ≤ 2 ^ 24 := Nat.pow_le_pow_right (by omega) hs
  have hlt : x.toNat * 2 ^ s < 2 ^ 32 :=
    calc x.toNat * 2 ^ s < 2 ^ 8 * 2 ^ s := Nat.mul_lt_mul_of_pos_right hx (by positivity)
      _ ≤ 2 ^ 8 * 2 ^ 24 := Nat.mul_le_mul_left _ hp
  rw [BitVec.toNat_shiftLeft, BitVec.toNat_setWidth, Nat.shiftLeft_eq,
    Nat.mod_eq_of_lt (show x.toNat < 2 ^ 32 by omega), Nat.mod_eq_of_lt hlt]

/-- The four bytes side by side. -/
theorem firstWindow_eq_append (key : List Byte) :
    firstWindow key = key.getD 0 0 ++ key.getD 1 0 ++ key.getD 2 0 ++ key.getD 3 0 := by
  apply BitVec.eq_of_toNat_eq
  have h1 := (key.getD 1 0).isLt
  have h2 := (key.getD 2 0).isLt
  have h3 := (key.getD 3 0).isLt
  have e3 : ((key.getD 3 0).setWidth 32).toNat = (key.getD 3 0).toNat := by
    rw [BitVec.toNat_setWidth, Nat.mod_eq_of_lt (by omega)]
  unfold firstWindow
  rw [BitVec.toNat_add, BitVec.toNat_add, BitVec.toNat_add, setWidth_shift_toNat _ 24 (by omega),
    setWidth_shift_toNat _ 16 (by omega), setWidth_shift_toNat _ 8 (by omega), e3]
  simp only [BitVec.toNat_append]
  rw [← Nat.shiftLeft_add_eq_or_of_lt h1, ← Nat.shiftLeft_add_eq_or_of_lt h2,
    ← Nat.shiftLeft_add_eq_or_of_lt h3]
  omega

theorem firstWindow_eq (hk : 4 ≤ keylen) (key : List Byte) :
    firstWindow key = window 32 (keyBit keylen key) 0 := by
  rw [firstWindow_eq_append]
  apply BitVec.eq_of_getMsbD_eq
  intro t ht
  have hlen : t / 8 < keylen := by omega
  rw [getMsbD_window]
  simp only [BitVec.getMsbD_append, keyBit, bitAt, zero_add, hlen, decide_true, Bool.true_and, ht]
  rcases (show t / 8 = 0 ∨ t / 8 = 1 ∨ t / 8 = 2 ∨ t / 8 = 3 by omega) with h | h | h | h
  all_goals
    rw [h]
    repeat' split
    all_goals first
      | omega
      | congr 1; omega

section

variable (keylen : Nat)

theorem keyBit_of_byte (key : List Byte) (hb : b < 8) :
    keyBit keylen key (8 * i + b + 32) =
      (decide (i + 4 < keylen) && (key.getD (i + 4) 0).getLsbD (7 - b)) := by
  have e : 8 * i + b + 32 = 8 * (i + 4) + b := by omega
  have h1 : (8 * (i + 4) + b) / 8 = i + 4 := by omega
  rw [keyBit, e, bitAt_of_byte key hb, h1]

variable (key data : List Byte)

/-- The pair `(hash, v)` when `n` data bits have been folded in. -/
def loopState (n : Nat) : BitVec 32 × BitVec 32 :=
  (hashRange 32 (keyBit keylen key) (bitAt data) 0 n, window 32 (keyBit keylen key) n)

theorem toeplitzBit_loopState (hb : b < 8) :
    toeplitzBit keylen key (data.getD i 0) i (loopState keylen key data (8 * i + b)) b =
      loopState keylen key data (8 * i + (b + 1)) := by
  unfold toeplitzBit loopState
  rw [← keyBit_of_byte keylen key hb, ← bitAt_of_byte data hb, ← add_assoc,
    window_succ _ _ (by omega)]
  simp only [hashRange, zero_add]
  split <;> simp

theorem toeplitzByte_loopState (i : Nat) :
    toeplitzByte keylen key (loopState keylen key data (8 * i)) (data.getD i 0, i) =
      loopState keylen key data (8 * (i + 1)) := by
  suffices h : ∀ m, m ≤ 8 →
      (range m).foldl (toeplitzBit keylen key (data.getD i 0) i)
        (loopState keylen key data (8 * i)) = loopState keylen key data (8 * i + m) from
    h 8 (Nat.le_refl 8)
  intro m
  induction m with
  | zero => intro _; rfl
  | succ m ih =>
    intro hm
    rw [range_succ, foldl_append, ih (by omega)]
    exact toeplitzBit_loopState keylen key data (by omega)

end

theorem toeplitzBytes_loopState (keylen : Nat) (key data : List Byte) :
    ∀ (rest : List Byte) (i : Nat), (∀ j, j < rest.length → rest.getD j 0 = data.getD (i + j) 0) →
      (rest.zipIdx i).foldl (toeplitzByte keylen key) (loopState keylen key data (8 * i)) =
        loopState keylen key data (8 * (i + rest.length))
  | [], i, _ => rfl
  | d :: rest, i, h => by
    have hd : d = data.getD i 0 := by simpa using h 0 (by simp)
    rw [zipIdx_cons, foldl_cons, hd, toeplitzByte_loopState,
      toeplitzBytes_loopState keylen key data rest (i + 1) fun j hj => ?_]
    · rw [length_cons]
      congr 1
      omega
    · have := h (j + 1) (by simpa using hj)
      rw [getD_cons_succ] at this
      rw [this]
      congr 1
      omega

/-- **`toeplitz_hash` is the window hash**: for a key of at least four bytes, the exclusive or of
the 32-bit key windows at the set data bits, key bits past the end counting as zero. -/
theorem toeplitzHash_eq (hk : 4 ≤ keylen) (key data : List Byte) : toeplitzHash keylen key data =
      hashRange 32 (keyBit keylen key) (bitAt data) 0 (8 * data.length) := by
  have h0 : ((0#32, firstWindow key) : BitVec 32 × BitVec 32) =
      loopState keylen key data (8 * 0) := by
    rw [firstWindow_eq hk]
    rfl
  have hloop := toeplitzBytes_loopState keylen key data data 0 (fun j _ => by rw [zero_add])
  rw [zero_add] at hloop
  unfold toeplitzHash
  rw [h0, hloop]
  rfl

/-- The first four key bytes are read whatever `keylen` is. -/
theorem toeplitzHash_max (keylen : Nat) (key data : List Byte) :
    toeplitzHash (max 4 keylen) key data = toeplitzHash keylen key data := by
  have hbit : toeplitzBit (max 4 keylen) key = toeplitzBit keylen key := by
    funext d i s b
    have hread : i + 4 < max 4 keylen ↔ i + 4 < keylen := by omega
    simp only [toeplitzBit, hread]
  have hbyte : toeplitzByte (max 4 keylen) key = toeplitzByte keylen key := by
    funext s p
    rw [toeplitzByte, toeplitzByte, hbit]
  rw [toeplitzHash, toeplitzHash, hbyte]

/-- Keys that agree on the bits below `8 * data.length + 31` hash `data` alike. -/
theorem toeplitzHash_eq_of_key {keylen' : Nat} {key key' : List Byte} (hk : 4 ≤ keylen)
    (hk' : 4 ≤ keylen') (data : List Byte)
    (h : ∀ j, j < 8 * data.length + 31 → keyBit keylen key j = keyBit keylen' key' j) :
    toeplitzHash keylen key data = toeplitzHash keylen' key' data := by
  rw [toeplitzHash_eq hk, toeplitzHash_eq hk']
  exact hashRange_key_congr fun j _ hj => h j (by omega)

/-! ## The mathematical definition -/

/-- The positions of the set bits of a byte string. -/
def setBits (data : List Byte) : List Nat := (range (8 * data.length)).filter (bitAt data)

/-- The exclusive or of two byte strings. -/
def xorBytes (a b : List Byte) : List Byte := zipWith (· ^^^ ·) a b

theorem bitAt_xorBytes {a b : List Byte} (h : a.length = b.length) (i : Nat) :
    bitAt (xorBytes a b) i = (bitAt a i ^^ bitAt b i) := by
  simp only [bitAt, xorBytes, getD_eq_getElem?_getD, getElem?_zipWith]
  rcases lt_or_ge (i / 8) a.length with hlt | hge
  · have hlt' : i / 8 < b.length := h ▸ hlt
    simp [getElem?_eq_getElem hlt, getElem?_eq_getElem hlt', BitVec.getMsbD_xor]
  · have hge' : b.length ≤ i / 8 := h ▸ hge
    simp [getElem?_eq_none hge, getElem?_eq_none hge']

/-- **`toeplitz_hash` is the Toeplitz hash**: the exclusive or, over the set bits `i` of the data,
of the 32-bit window of the key at `i`, where key bits past the end count as zero. So it is linear:
the hash of the exclusive or of two equally long inputs is the exclusive or of their hashes. -/
theorem toeplitzHash_xor_windows (hk : 4 ≤ keylen) (key data : List Byte) :
    toeplitzHash keylen key data =
        ((setBits data).map (window 32 (keyBit keylen key))).foldr (· ^^^ ·) 0 ∧
      ∀ data' : List Byte, data'.length = data.length →
        toeplitzHash keylen key (xorBytes data data') =
          toeplitzHash keylen key data ^^^ toeplitzHash keylen key data' := by
  refine ⟨?_, fun data' hlen => ?_⟩
  · rw [toeplitzHash_eq hk, hashRange_eq_foldr]
    rfl
  · have hbits : bitAt (xorBytes data data') = fun i => bitAt data i ^^ bitAt data' i :=
      funext (bitAt_xorBytes hlen.symm)
    have hxor : (xorBytes data data').length = data.length := by simp [xorBytes, hlen]
    rw [toeplitzHash_eq hk, toeplitzHash_eq hk, toeplitzHash_eq hk, hbits, hashRange_xor, hxor,
      hlen]

/-- Data longer than the key allows. -/
theorem toeplitzHash_xor_windows_short :
    toeplitzHash 4 [1, 2, 3, 4] [0x80, 0, 0, 0, 0, 1] =
        ((setBits [0x80, 0, 0, 0, 0, 1]).map (window 32 (keyBit 4 [1, 2, 3, 4]))).foldr
          (· ^^^ ·) 0 ∧
      toeplitzHash 4 [1, 2, 3, 4] (xorBytes [1, 2] [3, 4]) =
        toeplitzHash 4 [1, 2, 3, 4] [1, 2] ^^^ toeplitzHash 4 [1, 2, 3, 4] [3, 4] :=
  ⟨(toeplitzHash_xor_windows (by decide) _ _).1, (toeplitzHash_xor_windows (by decide) _ _).2 _ rfl⟩

end FStack.Rss
