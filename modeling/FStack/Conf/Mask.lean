import FStack.Conf.Text

/-!
# The mask of lcores

Model of `parse_lcore_mask` (`lib/ff_config.c:72-142`) with all it stores. The text is scanned from
its end, digit by digit and bit by bit; the lcore of each bit that is set is put in `proc_lcore`,
and for the one of this process the mask is written as a text of its own, a digit and zeros. Digits
beyond `RTE_MAX_LCORE` have to be zeros. `parseLcoreMask` of `Conf/Text.lean` has the lcores alone.

A hexadecimal number is read digit by digit here (`hexNumber`), with the usual table.

Results:
* `parseLcoreMaskCfg_iff`: it accepts the masks, and stores the bits and the mask of the process.
-/

namespace FStack.Conf

open List

/-! ## The function -/

/-- The variables of the loop: `idx`, `count`, `proc_lcore`, and `cfg->dpdk.proc_mask`. -/
structure MaskLoop where
  idx : Nat
  count : Nat
  procLcore : Nat → Nat
  procMask : Option Text

/-- `"%llx%s"` of `1 << (idx & 3)` and `idx >> 2` zeros; the buffer is long enough. -/
def maskText (idx : Nat) : Text :=
  Nat.toDigits 16 (1 <<< (idx % 4)) ++ replicate (idx / 4) '0'

/-- A round of the inner loop. -/
def maskBit (procId : Int) (val : Nat) (s : MaskLoop) (j : Nat) : MaskLoop :=
  if s.idx < maxLcore then
    if val.testBit j then
      { idx := s.idx + 1
        count := s.count + 1
        procLcore := Function.update s.procLcore s.count s.idx
        procMask := if procId = s.count then some (maskText s.idx) else s.procMask }
    else { s with idx := s.idx + 1 }
  else s

/-- The two loops over the digits, from the last one on; whether they are passed. -/
def maskLoop (procId : Int) : Text → MaskLoop → Bool × MaskLoop
  | [], s => (true, s)
  | c :: rest, s =>
    if s.idx < maxLcore then
      if isXdigit c then
        maskLoop procId rest ((range 4).foldl (maskBit procId (xdigit2val c)) s)
      else (false, s)
    else ((c :: rest).all (· == '0'), s)

/-- The fields of `cfg->dpdk`. -/
structure MaskCfg where
  procId : Int
  procLcore : Nat → Nat
  procMask : Option Text
  nbProcs : Nat

/-- The digits `parse_lcore_mask` scans, from the last one on. -/
def maskDigits (coremask : Text) : Text :=
  (skipHex (coremask.dropWhile isBlank)).reverse.dropWhile isBlank

/-- `parse_lcore_mask`: whether it returns 1, and the configuration. -/
def parseLcoreMaskCfg (cfg : MaskCfg) (coremask : Text) : Bool × MaskCfg :=
  match maskDigits coremask with
  | [] => (false, { cfg with procLcore := fun _ => 0 })
  | digits =>
    let r := maskLoop cfg.procId digits ⟨0, 0, fun _ => 0, cfg.procMask⟩
    let cfg := { cfg with procLcore := r.2.procLcore, procMask := r.2.procMask }
    if !r.1 then (false, cfg)
    else if r.2.count ≤ cfg.procId then (false, cfg)
    else (true, { cfg with nbProcs := r.2.count })

/-! ## Masks -/

/-- The value of a hexadecimal digit. -/
def digitValue (c : Char) : Option Nat :=
  match ['0', '1', '2', '3', '4', '5', '6', '7', '8', '9', 'a', 'b', 'c', 'd', 'e', 'f'].idxOf? c with
  | some n => some n
  | none => (['A', 'B', 'C', 'D', 'E', 'F'].idxOf? c).map (10 + ·)

/-- The number a text stands for. -/
def hexNumber (s : Text) : Option Nat :=
  s.foldlM (fun n c => (digitValue c).map (16 * n + ·)) 0

/-- The positions of the bits of a number. -/
def setBits (v : Nat) : List Nat := (range maxLcore).filter v.testBit

/-- A text without blanks around it, and without `0x`. -/
def maskBody (s : Text) : Text :=
  skipHex ((s.dropWhile isBlank).reverse.dropWhile isBlank).reverse

/-- `s` is a mask with the number `v`, and more than `procId` bits. -/
structure IsMask (procId : Nat) (s : Text) (v : Nat) : Prop where
  ne_nil : maskBody s ≠ []
  number : hexNumber (maskBody s) = some v
  lt : v < 2 ^ maxLcore
  procId_lt : procId < (setBits v).length

/-! ## The loop -/

/-- The variables when the lcores `l` have been stored. -/
def holding (procId : Nat) (old : Option Text) (idx : Nat) (l : List Nat) : MaskLoop where
  idx := idx
  count := l.length
  procLcore i := l.getD i 0
  procMask := (l[procId]?.map maskText).or old

section Loop

variable (procId : Nat) (old : Option Text) {idx : Nat} {l : List Nat}

theorem maskBit_holding (hidx : idx < maxLcore) (val j : Nat) :
    maskBit procId val (holding procId old idx l) j =
      holding procId old (idx + 1) (l ++ if val.testBit j then [idx] else []) := by
  unfold maskBit
  rw [if_pos (show (holding procId old idx l).idx < maxLcore from hidx)]
  by_cases hbit : val.testBit j = true
  · have hmask : (if (procId : Int) = l.length then some (maskText idx)
        else (l[procId]?.map maskText).or old) = ((l ++ [idx])[procId]?.map maskText).or old := by
      rcases lt_trichotomy procId l.length with hlt | rfl | hgt
      · rw [if_neg (by omega), getElem?_append_left hlt]
      · simp
      · rw [if_neg (by omega), getElem?_eq_none hgt.le,
          getElem?_eq_none (by rw [length_append]; exact hgt)]
    rw [if_pos hbit, if_pos hbit]
    simp only [holding, update_getD_length l fun _ => 0, length_append, length_singleton]
    exact congrArg (MaskLoop.mk _ _ _) hmask
  · rw [if_neg hbit, if_neg hbit, append_nil]
    rfl

/-- The first bits of a digit add their lcores. -/
theorem bits_holding (val : Nat) : ∀ k, idx + k ≤ maxLcore →
    (range k).foldl (maskBit procId val) (holding procId old idx l) =
      holding procId old (idx + k) (l ++ ((range k).filter fun j => val.testBit j).map (idx + ·))
  | 0, _ => by simp
  | k + 1, hk => by
    have hlast : ([k].filter fun j => val.testBit j).map (idx + ·) =
        if val.testBit k then [idx + k] else [] := by
      rw [filter_singleton]
      cases val.testBit k <;> rfl
    rw [range_succ, foldl_append, bits_holding val k (by omega), foldl_cons, foldl_nil,
      maskBit_holding procId old (by omega), filter_append, map_append, hlast, append_assoc,
      add_assoc]

/-- **The loop** passes the digits that `lcoresFrom` accepts, and stores their lcores. -/
theorem maskLoop_spec : ∀ (digits : Text) {idx : Nat} {l : List Nat}, 4 ∣ idx →
    match lcoresFrom idx digits with
    | none => (maskLoop procId digits (holding procId old idx l)).1 = false
    | some l' => ∃ idx', maskLoop procId digits (holding procId old idx l) =
        (true, holding procId old idx' (l ++ l'))
  | [], idx, l, _ => ⟨idx, by rw [append_nil]; rfl⟩
  | c :: rest, idx, l, hdvd => by
    unfold lcoresFrom maskLoop
    rw [show (holding procId old idx l).idx = idx from rfl]
    by_cases hidx : idx < maxLcore
    · rw [if_pos hidx, if_pos hidx]
      by_cases hc : isXdigit c = true
      · have hfit : idx + 4 ≤ maxLcore := by
          unfold maxLcore at hidx ⊢
          omega
        have hrest := maskLoop_spec rest (l := l ++ digitLcores idx (xdigit2val c))
          (Nat.dvd_add hdvd (Nat.dvd_refl 4))
        rw [if_pos hc, if_pos hc, bits_holding procId old (xdigit2val c) 4 hfit]
        cases hl : lcoresFrom (idx + 4) rest with
        | none =>
          rw [hl] at hrest
          exact hrest
        | some l' =>
          rw [hl] at hrest
          dsimp only [Option.map_some] at hrest ⊢
          rw [← append_assoc]
          exact hrest
      · rw [if_neg hc, if_neg hc]
    · rw [if_neg hidx, if_neg hidx]
      by_cases hzero : (c :: rest).all (· == '0') = true
      · rw [if_pos hzero, hzero]
        exact ⟨idx, by rw [append_nil]⟩
      · rw [if_neg hzero]
        exact Bool.eq_false_iff.mpr hzero

end Loop

/-! ## What is accepted -/

variable {s t : Text} {c : Char} {l : List Nat}

theorem parseLcoreMask_eq_some {procId : Int} : parseLcoreMask procId s = some l ↔
      maskDigits s ≠ [] ∧ lcoresFrom 0 (maskDigits s) = some l ∧ procId < l.length := by
  have heq : parseLcoreMask procId s =
      match maskDigits s with
      | [] => none
      | digits =>
        match lcoresFrom 0 digits with
        | none => none
        | some lcores => if (lcores.length : Int) ≤ procId then none else some lcores := rfl
  rw [heq]
  cases maskDigits s with
  | nil => simp
  | cons c digits =>
    dsimp only
    cases lcoresFrom 0 (c :: digits) with
    | none => simp
    | some lcores =>
      dsimp only
      split
      · constructor
        · exact fun h => nomatch h
        · rintro ⟨-, h, hlt⟩
          cases h
          omega
      · constructor
        · intro h
          cases h
          exact ⟨cons_ne_nil _ _, rfl, by omega⟩
        · exact fun h => h.2.1

section Accept

variable (cfg : MaskCfg) (procId : Nat)

/-- The function, for a mask with digits. -/
theorem parseLcoreMaskCfg_of_ne (hs : maskDigits s ≠ []) :
    parseLcoreMaskCfg { cfg with procId := procId } s =
      let r := maskLoop procId (maskDigits s) (holding procId cfg.procMask 0 [])
      if !r.1 then (false, ⟨procId, r.2.procLcore, r.2.procMask, cfg.nbProcs⟩)
      else if (r.2.count : Int) ≤ procId then
        (false, ⟨procId, r.2.procLcore, r.2.procMask, cfg.nbProcs⟩)
      else (true, ⟨procId, r.2.procLcore, r.2.procMask, r.2.count⟩) := by
  unfold parseLcoreMaskCfg
  cases hd : maskDigits s with
  | nil => exact absurd hd hs
  | cons c digits => rfl

/-- An accepted mask is stored. -/
theorem parseLcoreMaskCfg_of_some (h : parseLcoreMask procId s = some l) :
    parseLcoreMaskCfg { cfg with procId := procId } s =
      (true, ⟨procId, fun i => l.getD i 0, (l[procId]?.map maskText).or cfg.procMask, l.length⟩) := by
  obtain ⟨hs, hl, hlt⟩ := parseLcoreMask_eq_some.mp h
  have hspec := maskLoop_spec procId cfg.procMask (maskDigits s) (l := []) (Nat.dvd_zero 4)
  rw [hl] at hspec
  obtain ⟨idx', hloop⟩ := hspec
  rw [parseLcoreMaskCfg_of_ne cfg procId hs, hloop]
  exact if_neg (Int.not_le.mpr hlt)

/-- Any other is not accepted. -/
theorem parseLcoreMaskCfg_of_none (h : parseLcoreMask procId s = none) :
    (parseLcoreMaskCfg { cfg with procId := procId } s).1 = false := by
  by_cases hs : maskDigits s = []
  · unfold parseLcoreMaskCfg
    rw [hs]
  · have hspec := maskLoop_spec procId cfg.procMask (maskDigits s) (l := []) (Nat.dvd_zero 4)
    rw [parseLcoreMaskCfg_of_ne cfg procId hs]
    dsimp only
    cases hl : lcoresFrom 0 (maskDigits s) with
    | none =>
      rw [hl] at hspec
      rw [show (maskLoop _ _ _).1 = false from hspec]
      rfl
    | some l =>
      rw [hl] at hspec
      obtain ⟨idx', hloop⟩ := hspec
      have hle : (l.length : Int) ≤ procId := Int.not_lt.mp fun hlt => by
        cases h.symm.trans (parseLcoreMask_eq_some.mpr ⟨hs, hl, hlt⟩)
      rw [hloop]
      exact congrArg Prod.fst (if_pos hle)

/-- The function accepts what `parseLcoreMask` accepts. -/
theorem parseLcoreMaskCfg_fst : (parseLcoreMaskCfg { cfg with procId := procId } s).1 =
    (parseLcoreMask procId s).isSome := by
  cases h : parseLcoreMask procId s with
  | none => exact parseLcoreMaskCfg_of_none cfg procId h
  | some l =>
    rw [parseLcoreMaskCfg_of_some cfg procId h]
    rfl

end Accept

/-! ## Numbers -/

/-- The value of digits, from the last one on. -/
def digitsValue : Text → Nat
  | [] => 0
  | c :: s => 16 * digitsValue s + xdigit2val c

set_option maxRecDepth 4000 in
theorem digitValue_ofNat : ∀ n < 103, digitValue (Char.ofNat n) =
    if isXdigit (Char.ofNat n) then some (xdigit2val (Char.ofNat n)) else none := by
  decide

set_option maxRecDepth 4000 in
theorem xdigit2val_ofNat : ∀ n < 103, isXdigit (Char.ofNat n) = true →
    xdigit2val (Char.ofNat n) < 16 ∧ (xdigit2val (Char.ofNat n) = 0 ↔ Char.ofNat n = '0') := by
  decide

theorem isXdigit_lt (h : isXdigit c = true) : c.toNat < 103 := by
  simp only [isXdigit, Char.isDigit, Bool.or_eq_true, Bool.and_eq_true, decide_eq_true_eq,
    UInt32.le_iff_toNat_le, ge_iff_le] at h
  rcases h with (⟨-, h⟩ | ⟨-, h⟩) | ⟨-, h⟩
  · exact h.trans_lt (by decide)
  · omega
  · omega

/-- The digits are those of the table. -/
theorem digitValue_eq (c : Char) :
    digitValue c = if isXdigit c then some (xdigit2val c) else none := by
  by_cases hc : c.toNat < 103
  · have := digitValue_ofNat c.toNat hc
    rwa [Char.ofNat_toNat] at this
  · rw [if_neg fun h => hc (isXdigit_lt h)]
    have hlower : ∀ d ∈ ['0', '1', '2', '3', '4', '5', '6', '7', '8', '9', 'a', 'b', 'c', 'd', 'e',
        'f'], d.toNat < 103 := by simp
    have hupper : ∀ d ∈ ['A', 'B', 'C', 'D', 'E', 'F'], d.toNat < 103 := by simp
    unfold digitValue
    rw [idxOf?_eq_none_iff.mpr fun h => hc (hlower c h),
      idxOf?_eq_none_iff.mpr fun h => hc (hupper c h)]
    rfl

theorem xdigit2val_spec (h : isXdigit c = true) :
    xdigit2val c < 16 ∧ (xdigit2val c = 0 ↔ c = '0') := by
  have := xdigit2val_ofNat c.toNat (isXdigit_lt h)
  rw [Char.ofNat_toNat] at this
  exact this h

theorem digitsValue_eq (s : Text) :
    digitsValue s = s.foldr (fun c n => 16 * n + xdigit2val c) 0 := by
  induction s with
  | nil => rfl
  | cons c s ih => rw [digitsValue, ih, foldr_cons]

theorem hexNumber_eq (s : Text) :
    hexNumber s = if s.all isXdigit then some (digitsValue s.reverse) else none := by
  have hfold : ∀ (s : Text) (n : Nat),
      s.foldlM (fun n c => (digitValue c).map (16 * n + ·)) n =
        if s.all isXdigit then some (s.foldl (fun n c => 16 * n + xdigit2val c) n) else none := by
    intro s
    induction s with
    | nil => exact fun n => rfl
    | cons c s ih =>
      intro n
      rw [foldlM_cons, digitValue_eq]
      by_cases hc : isXdigit c = true
      · rw [if_pos hc, all_cons, hc, foldl_cons]
        exact ih _
      · rw [if_neg hc, all_cons, Bool.eq_false_iff.mpr hc]
        rfl
  rw [hexNumber, hfold, digitsValue_eq, foldr_reverse]

/-! ## The bits -/

/-- The positions of the bits of a number that begins at `idx`. -/
def bitsFrom (idx w : Nat) : List Nat :=
  ((range (maxLcore - idx)).filter w.testBit).map (idx + ·)

theorem bitsFrom_zero (w : Nat) : bitsFrom 0 w = setBits w := by
  exact (map_congr_left fun i _ => zero_add i).trans (map_id _)

theorem bitsFrom_none (idx : Nat) : bitsFrom idx 0 = [] := by
  unfold bitsFrom
  rw [filter_eq_nil_iff.mpr fun i _ => by rw [Nat.zero_testBit]; exact Bool.false_ne_true]
  rfl

/-- The last digit has the first four bits. -/
theorem bitsFrom_digit {idx d w : Nat} (hidx : idx + 4 ≤ maxLcore) (hd : d < 16) :
    bitsFrom idx (16 * w + d) = digitLcores idx d ++ bitsFrom (idx + 4) w := by
  have hbit : ∀ j, (16 * w + d).testBit j = if j < 4 then d.testBit j else w.testBit (j - 4) :=
    Nat.testBit_two_pow_mul_add w (i := 4) hd
  unfold bitsFrom digitLcores
  rw [show maxLcore - idx = 4 + (maxLcore - (idx + 4)) by omega, range_add, filter_append,
    map_append]
  congr 1
  · refine congrArg _ (filter_congr fun j hj => ?_)
    rw [hbit, if_pos (mem_range.mp hj)]
  · rw [filter_map, map_map]
    have hshift : ((16 * w + d).testBit ∘ fun x => 4 + x) = w.testBit := by
      funext j
      rw [Function.comp_apply, hbit, if_neg (by omega), Nat.add_sub_cancel_left]
    rw [hshift]
    exact map_congr_left fun j _ => (add_assoc idx 4 j).symm

theorem all_zero_iff (s : Text) :
    s.all (· == '0') = true ↔ s.all isXdigit = true ∧ digitsValue s = 0 := by
  induction s with
  | nil => simp [digitsValue]
  | cons c s ih =>
    rw [all_cons, all_cons, Bool.and_eq_true, Bool.and_eq_true, ih, digitsValue, beq_iff_eq]
    constructor
    · rintro ⟨rfl, hall, hzero⟩
      exact ⟨⟨rfl, hall⟩, by rw [hzero]; rfl⟩
    · rintro ⟨⟨hc, hall⟩, hzero⟩
      exact ⟨(xdigit2val_spec hc).2.mp (by omega), hall, by omega⟩

/-- **The lcores are the bits of the number.** -/
theorem lcoresFrom_iff : ∀ (digits : Text) {idx : Nat}, 4 ∣ idx → idx ≤ maxLcore →
    lcoresFrom idx digits =
      if digits.all isXdigit = true ∧ digitsValue digits < 2 ^ (maxLcore - idx) then
        some (bitsFrom idx (digitsValue digits))
      else none
  | [], idx, _, _ => by
    rw [if_pos ⟨rfl, Nat.two_pow_pos _⟩, digitsValue, bitsFrom_none]
    rfl
  | c :: rest, idx, hdvd, hle => by
    unfold lcoresFrom
    by_cases hidx : idx < maxLcore
    · have hfit : idx + 4 ≤ maxLcore := by
        unfold maxLcore at hidx ⊢
        omega
      rw [if_pos hidx]
      by_cases hc : isXdigit c = true
      · have hd := (xdigit2val_spec hc).1
        have hpow : 2 ^ (maxLcore - idx) = 16 * 2 ^ (maxLcore - (idx + 4)) := by
          rw [show maxLcore - idx = 4 + (maxLcore - (idx + 4)) by omega, Nat.pow_add]
        have hiff : digitsValue (c :: rest) < 2 ^ (maxLcore - idx) ↔
            digitsValue rest < 2 ^ (maxLcore - (idx + 4)) := by
          rw [hpow, digitsValue]
          omega
        rw [if_pos hc, lcoresFrom_iff rest (Nat.dvd_add hdvd (Nat.dvd_refl 4)) hfit, all_cons,
          hc, Bool.true_and]
        simp only [hiff]
        rw [digitsValue, bitsFrom_digit hfit hd]
        split <;> rfl
      · rw [if_neg hc, all_cons, if_neg fun h => hc (Bool.and_eq_true_iff.mp h.1).1]
    · have hlast : maxLcore - idx = 0 := by omega
      rw [if_neg hidx, hlast]
      have hiff : (c :: rest).all (· == '0') = true ↔
          (c :: rest).all isXdigit = true ∧ digitsValue (c :: rest) < 2 ^ 0 := by
        rw [all_zero_iff, Nat.pow_zero, Nat.lt_one_iff]
      by_cases hzero : (c :: rest).all (· == '0') = true
      · rw [if_pos hzero, if_pos (hiff.mp hzero), ((all_zero_iff _).mp hzero).2, bitsFrom_none]
      · rw [if_neg hzero, if_neg (hiff.not.mp hzero)]

/-! ## The text -/

/-- The text starts with `0x`. -/
def HexStart (t : Text) : Prop := ∃ r, t = '0' :: 'x' :: r ∨ t = '0' :: 'X' :: r

theorem skipHex_of_not (h : ¬ HexStart t) : skipHex t = t := by
  unfold skipHex
  split
  next r => exact absurd ⟨r, .inl rfl⟩ h
  next r => exact absurd ⟨r, .inr rfl⟩ h
  · rfl

theorem HexStart.append {u : Text} (h : HexStart t) : HexStart (t ++ u) := by
  obtain ⟨r, rfl | rfl⟩ := h
  · exact ⟨r ++ u, .inl rfl⟩
  · exact ⟨r ++ u, .inr rfl⟩

/-- Blanks at the end do not reach what is not blank. -/
theorem dropBlanks_cons (hc : isBlank c = false) (t : Text) :
    ((c :: t).reverse.dropWhile isBlank).reverse = c :: (t.reverse.dropWhile isBlank).reverse := by
  rw [reverse_cons, dropWhile_append]
  split
  next hempty =>
    rw [isEmpty_iff.mp hempty, dropWhile_cons_of_neg (by rw [hc]; exact Bool.false_ne_true)]
    rfl
  · rw [reverse_append]
    rfl

/-- The digits that are scanned are those of the mask. -/
theorem maskBody_eq (s : Text) : maskBody s = (maskDigits s).reverse := by
  unfold maskBody maskDigits
  generalize s.dropWhile isBlank = t
  by_cases ht : HexStart t
  · obtain ⟨r, rfl | rfl⟩ := ht <;> rw [dropBlanks_cons rfl, dropBlanks_cons rfl] <;> rfl
  · have hprefix : ∃ u, t = (t.reverse.dropWhile isBlank).reverse ++ u := by
      refine ⟨(t.reverse.takeWhile isBlank).reverse, ?_⟩
      rw [← reverse_append, takeWhile_append_dropWhile, reverse_reverse]
    obtain ⟨u, hu⟩ := hprefix
    rw [skipHex_of_not ht, skipHex_of_not]
    intro hstart
    exact ht (hu ▸ hstart.append)

/-- The text for an lcore is its bit. -/
theorem hexNumber_maskText (idx : Nat) : hexNumber (maskText idx) = some (2 ^ idx) := by
  have hzeros : ∀ k n, (replicate k '0').foldlM
      (fun n c => (digitValue c).map (16 * n + ·)) n = some (n * 16 ^ k) := by
    intro k
    induction k with
    | zero => exact fun n => congrArg some (mul_one n).symm
    | succ k ih =>
      intro n
      refine (ih (16 * n + 0)).trans (congrArg some ?_)
      rw [add_zero, Nat.pow_succ, mul_comm 16 n, mul_assoc, mul_comm 16]
  have hdigit : ∀ k < 4, hexNumber (Nat.toDigits 16 (1 <<< k)) = some (2 ^ k) := by decide
  have hfirst := hdigit (idx % 4) (Nat.mod_lt _ (by decide))
  unfold hexNumber at hfirst ⊢
  rw [maskText, foldlM_append, hfirst]
  refine (hzeros (idx / 4) (2 ^ (idx % 4))).trans (congrArg some ?_)
  rw [show 16 = 2 ^ 4 from rfl, ← Nat.pow_mul, ← Nat.pow_add, Nat.mod_add_div]

/-! ## Masks are accepted -/

theorem isMask_iff {procId v : Nat} :
    IsMask procId s v ↔ parseLcoreMask procId s = some (setBits v) ∧
      v = digitsValue (maskDigits s) := by
  have hbody := maskBody_eq s
  have hnum := hexNumber_eq (maskBody s)
  rw [hbody, all_reverse, reverse_reverse] at hnum
  rw [parseLcoreMask_eq_some, lcoresFrom_iff _ (Nat.dvd_zero 4) (Nat.zero_le _), Nat.sub_zero,
    bitsFrom_zero]
  constructor
  · rintro ⟨hne, hnumber, hlt, hproc⟩
    rw [hbody] at hnumber hne
    rw [hnum] at hnumber
    split at hnumber
    next hall =>
      cases hnumber
      refine ⟨⟨fun h => hne (by rw [h]; rfl), ?_, by omega⟩, rfl⟩
      rw [if_pos ⟨hall, hlt⟩]
    · cases hnumber
  · rintro ⟨⟨hne, hl, hproc⟩, rfl⟩
    split at hl
    next hall =>
      refine ⟨?_, ?_, hall.2, by omega⟩
      · rw [hbody]
        exact fun h => hne (reverse_eq_nil_iff.mp h)
      · rw [hbody, hnum, if_pos hall.1]
    · cases hl

/-- **The mask of lcores**: the function accepts the hexadecimal numbers, with blanks around them
and `0x` before them, that have no bit beyond the last lcore and more bits than the number of the
process. It stores the positions of the bits in order, and for the process the mask with its bit. -/
theorem parseLcoreMaskCfg_iff (cfg : MaskCfg) (procId : Nat) (s : Text) :
    let r := parseLcoreMaskCfg { cfg with procId := procId } s
    (r.1 = true ↔ ∃ v, IsMask procId s v) ∧
      ∀ v, IsMask procId s v →
        (range r.2.nbProcs).map r.2.procLcore = setBits v ∧
        ∃ mask, r.2.procMask = some mask ∧ hexNumber mask = some (2 ^ r.2.procLcore procId) := by
  constructor
  · rw [parseLcoreMaskCfg_fst]
    constructor
    · intro h
      obtain ⟨l, hl⟩ := Option.isSome_iff_exists.mp h
      refine ⟨digitsValue (maskDigits s), isMask_iff.mpr ⟨?_, rfl⟩⟩
      obtain ⟨hne, hfrom, hlt⟩ := parseLcoreMask_eq_some.mp hl
      have hfrom' := hfrom
      rw [lcoresFrom_iff _ (Nat.dvd_zero 4) (Nat.zero_le _), bitsFrom_zero] at hfrom'
      split at hfrom'
      · cases hfrom'
        exact hl
      · cases hfrom'
    · rintro ⟨v, hv⟩
      rw [(isMask_iff.mp hv).1]
      rfl
  · intro v hv
    have hproc := hv.procId_lt
    rw [parseLcoreMaskCfg_of_some cfg procId (isMask_iff.mp hv).1]
    refine ⟨ext_getElem (by simp) fun i h₁ h₂ => by simp [h₂], _, ?_, hexNumber_maskText _⟩
    simp [hproc]

end FStack.Conf
