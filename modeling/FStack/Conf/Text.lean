import Mathlib.Data.List.Sort
import Mathlib.Algebra.Group.Nat.Defs
import Mathlib.Algebra.Group.Int.Defs

/-!
# The texts of a configuration

Model of what `lib/ff_config.c` makes of the texts in a configuration file: numbers (`atoi`,
`strtol`, `%d` of `sscanf`), lists of numbers and ranges (`__parse_config_list`,
`ff_config.c:258-323`, with `rte_strsplit` and `__strstrip`) and the mask of lcores
(`parse_lcore_mask`, `ff_config.c:71-137`).

An `int`, a `long` and a `uint16_t` are numbers with the wrap-around of the conversion written out.
A list of the parser is what the array holds after it; a list with one number more than the array
has room for is accepted (`nr_ele > max_ele` is checked before the write).

Results:
* `parseConfigList_sorted`: a list that is accepted is in order.
* `parseLcoreMask_spec`: a mask that is accepted is an increasing list of lcores.
-/

namespace FStack.Conf

open Function List

/-- A C string without its terminator. -/
abbrev Text := List Char

/-! ## Numbers -/

/-- `isspace` in the C locale. -/
def isSpace (c : Char) : Bool := c.toNat == 32 || (9 ≤ c.toNat && c.toNat ≤ 13)

/-- `isblank` in the C locale. -/
def isBlank (c : Char) : Bool := c.toNat == 32 || c.toNat == 9

/-- `(int)` of a `long`. -/
def toInt (x : Int) : Int := x.bmod (2 ^ 32)

/-- `(uint16_t)`. -/
def toU16 (x : Int) : Nat := (x % 65536).toNat

/-- A `long` from a number that may not fit, as `strtol` returns it. -/
def clampLong (x : Int) : Int := max (-(2 ^ 63)) (min x (2 ^ 63 - 1))

/-- The value of a run of decimal digits. -/
def decimal (ds : Text) : Nat := ds.foldl (fun n c => 10 * n + (c.toNat - 48)) 0

/-- The sign a number starts with, and what is after it. -/
def signOf : Text → Int × Text
  | '-' :: s => (-1, s)
  | '+' :: s => (1, s)
  | s => (1, s)

/-- `strtol(s, &endptr, 10)`: the number and what is left at `endptr`. -/
def strtol (s : Text) : Int × Text :=
  let t := signOf (s.dropWhile isSpace)
  match t.2.takeWhile Char.isDigit with
  | [] => (0, s)
  | ds => (clampLong (t.1 * decimal ds), t.2.dropWhile Char.isDigit)

/-- `atoi`, which is `strtol` cut to `int`. -/
def atoi (s : Text) : Int := toInt (strtol s).1

/-- `%d` of `sscanf`. -/
def scanInt (s : Text) : Option Int :=
  match (signOf (s.dropWhile isSpace)).2.takeWhile Char.isDigit with
  | [] => none
  | _ => some (atoi s)

/-! ## Lists -/

/-- An array that begins with `l` gets one more element. -/
theorem update_getD_length {α : Type} (l : List α) (d : Nat → α) (x : α) :
    update (fun i => l.getD i (d i)) l.length x = fun i => (l ++ [x]).getD i (d i) := by
  funext i
  rcases lt_trichotomy i l.length with hlt | rfl | hgt
  · rw [update_of_ne hlt.ne]
    simp [getElem?_append_left hlt]
  · simp
  · rw [update_of_ne hgt.ne', getD_eq_getElem?_getD, getD_eq_getElem?_getD,
      getElem?_eq_none hgt.le, getElem?_eq_none (by rw [length_append]; exact hgt)]

/-- `rte_strsplit`, for at most so many tokens. A delimiter at the end starts no token, and the last
token there is room for runs to the end of the text. -/
def strsplit (delim : Char) : Nat → Text → List Text
  | 0, _ => []
  | _ + 1, [] => []
  | 1, c :: s => [if c == delim then [] else c :: s]
  | n + 2, c :: s =>
    (c :: s).takeWhile (· != delim) :: strsplit delim (n + 1) ((c :: s).dropWhile (· != delim)).tail

/-- `__strstrip`. -/
def strstrip (s : Text) : Text :=
  let t := s.dropWhile fun c => c.toNat == 32
  (t.reverse.dropWhile fun c => c.toNat == 32).reverse

/-- A number that takes the whole text. -/
def wholeNumber (s : Text) : Option Int :=
  let r := strtol (strstrip s)
  if r.2 = [] then some r.1 else none

/-- The numbers a token of a list stands for. The loop variable of a range is an `int`. -/
def tokenNumbers (tok : Text) : Option (List Nat) :=
  if '-' ∈ tok then do
    let lv ← wholeNumber (tok.takeWhile (· != '-'))
    let rv ← wholeNumber (tok.dropWhile (· != '-')).tail
    return (List.range (rv + 1 - toInt lv).toNat).map fun i => toU16 (toInt lv + i)
  else do
    let v ← wholeNumber tok
    return [toU16 v]

/-- Numbers appended to the array, each after the check that it is not too long yet. -/
def pushAll (maxEle : Nat) (arr : List Nat) : List Nat → Option (List Nat)
  | [] => some arr
  | x :: xs => if maxEle < arr.length then none else pushAll maxEle (arr ++ [x]) xs

/-- `__parse_config_list` for an array of `maxEle` numbers. -/
def parseConfigList (maxEle : Nat) (value : Text) : Option (List Nat) := do
  let arr ← (strsplit ',' 128 value).foldlM (fun arr tok => do
    pushAll maxEle arr (← tokenNumbers tok)) []
  return arr.insertionSort (· ≤ ·)

variable {maxEle : Nat} {value : Text} {l : List Nat}

theorem parseConfigList_sorted (h : parseConfigList maxEle value = some l) :
    l.Pairwise (· ≤ ·) := by
  obtain ⟨arr, -, hl⟩ := Option.bind_eq_some_iff.mp h
  cases hl
  exact pairwise_insertionSort _ _

/-! ## The mask -/

/-- `RTE_MAX_LCORE`. -/
def maxLcore : Nat := 128

/-- `isxdigit`. -/
def isXdigit (c : Char) : Bool :=
  c.isDigit || (65 ≤ c.toNat && c.toNat ≤ 70) || (97 ≤ c.toNat && c.toNat ≤ 102)

/-- `xdigit2val` of `ff_config.c`. -/
def xdigit2val (c : Char) : Nat :=
  if c.isDigit then c.toNat - 48
  else if c.isUpper then c.toNat - 65 + 10
  else c.toNat - 97 + 10

/-- The lcores of one digit of the mask. -/
def digitLcores (idx val : Nat) : List Nat :=
  ((List.range 4).filter fun j => val.testBit j).map (idx + ·)

/-- The lcores of the digits from the right, the first of them for the lcores from `idx` on. Digits
beyond the last lcore have to be zeros. -/
def lcoresFrom : Nat → Text → Option (List Nat)
  | _, [] => some []
  | idx, c :: s =>
    if idx < maxLcore then
      if isXdigit c then (lcoresFrom (idx + 4) s).map (digitLcores idx (xdigit2val c) ++ ·) else none
    else if (c :: s).all (· == '0') then some []
    else none

/-- What is left of a mask without `0x`. -/
def skipHex : Text → Text
  | '0' :: 'x' :: s => s
  | '0' :: 'X' :: s => s
  | s => s

/-- `parse_lcore_mask`: the lcores of the mask, for the process `procId`. -/
def parseLcoreMask (procId : Int) (coremask : Text) : Option (List Nat) :=
  match (skipHex (coremask.dropWhile isBlank)).reverse.dropWhile isBlank with
  | [] => none
  | digits =>
    match lcoresFrom 0 digits with
    | none => none
    | some lcores => if (lcores.length : Int) ≤ procId then none else some lcores

theorem mem_digitLcores {idx val x : Nat} (h : x ∈ digitLcores idx val) : idx ≤ x ∧ x < idx + 4 := by
  obtain ⟨j, hj, rfl⟩ := mem_map.mp h
  have hlt := mem_range.mp (mem_filter.mp hj).1
  omega

theorem digitLcores_pairwise (idx val : Nat) : (digitLcores idx val).Pairwise (· < ·) := by
  refine Pairwise.map _ (fun a b hab => Nat.add_lt_add_left hab idx) ?_
  exact Pairwise.filter _ pairwise_lt_range

theorem digitLcores_length (idx val : Nat) : (digitLcores idx val).length ≤ 4 := by
  unfold digitLcores
  rw [length_map]
  exact (length_filter_le _ _).trans (by simp)

theorem lcoresFrom_spec : ∀ {s : Text} {idx : Nat} {l : List Nat}, 4 ∣ idx →
    lcoresFrom idx s = some l →
      l.Pairwise (· < ·) ∧ (∀ x ∈ l, idx ≤ x ∧ x < maxLcore) ∧ l.length ≤ maxLcore - idx
  | [], idx, l, _, h => by
    cases h
    exact ⟨Pairwise.nil, nofun, Nat.zero_le _⟩
  | c :: s, idx, l, hdvd, h => by
    unfold lcoresFrom at h
    split at h
    next hidx =>
      split at h
      · obtain ⟨r, hr, rfl⟩ := Option.map_eq_some_iff.mp h
        obtain ⟨hinc, hmem, hlen⟩ := lcoresFrom_spec (Nat.dvd_add hdvd (Nat.dvd_refl 4)) hr
        have hfit : idx + 4 ≤ maxLcore := by
          unfold maxLcore at hidx ⊢
          omega
        refine ⟨pairwise_append.mpr ⟨digitLcores_pairwise _ _, hinc, ?_⟩, ?_, ?_⟩
        · intro a ha b hb
          have := mem_digitLcores ha
          have := hmem b hb
          omega
        · intro x hx
          rcases mem_append.mp hx with hx | hx
          · have := mem_digitLcores hx
            omega
          · have := hmem x hx
            omega
        · have := digitLcores_length idx (xdigit2val c)
          rw [length_append]
          omega
      · cases h
    · split at h
      · cases h
        exact ⟨Pairwise.nil, nofun, Nat.zero_le _⟩
      · cases h

/-- The lcores of an accepted mask are in order, and the process is below their number. -/
theorem parseLcoreMask_spec {procId : Int} {mask : Text} (h : parseLcoreMask procId mask = some l) :
    l.Pairwise (· < ·) ∧ l.length ≤ maxLcore ∧ procId < l.length := by
  unfold parseLcoreMask at h
  split at h
  · cases h
  · split at h
    · cases h
    next lcores hl =>
      split at h
      · cases h
      next hid =>
        cases h
        obtain ⟨hinc, -, hlen⟩ := lcoresFrom_spec (Nat.dvd_zero 4) hl
        exact ⟨hinc, hlen, Int.not_le.mp hid⟩

example : parseConfigList 128 ['1', '-', '3', ',', '0'] = some [0, 1, 2, 3] := by decide

example : parseLcoreMask 1 ['0', 'x', '1', '5'] = some [0, 2, 4] := by decide

end FStack.Conf
