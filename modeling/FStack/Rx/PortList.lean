import FStack.Conf.Text
import FStack.Rx.FilterExact

/-!
# The ports that are left to the kernel

Model of `kni_set_bitmap` (`lib/ff_dpdk_kni.c:128-153`), which reads a list of ports and ranges.
Whether an item is a range is decided by the places of the next comma and of the next dash, wherever
that is.

Results:
* `kniSetBitmap_right`: the ports that `protocol_filter_l4` leaves to the kernel are those listed.
-/

namespace FStack.Rx.PortList

open List FStack.Conf

/-- The ports from `i` to `last`. -/
def setRange (i last : Int) (bitmap : Bitmap) : Bitmap :=
  (range (last + 1 - i).toNat).foldl
    (fun bitmap (d : Nat) => setBitmap bitmap (toU16 (i + d))) bitmap

/-- The place `tail_num` of the dash if the item at `head` is a range; `tail` is that of a comma. -/
def isRange (head : Text) : Option Nat :=
  match head.idxOf? '-', head.idxOf? ',' with
  | none, _ => none
  | some tailNum, none => some tailNum
  | some tailNum, some tail => if tailNum + 1 < tail then some tailNum else none

/-- One round of the loop. -/
def setItem (head : Text) (bitmap : Bitmap) : Bitmap :=
  match isRange head with
  | some tailNum => setRange (atoi head) (atoi (head.drop (tailNum + 1))) bitmap
  | none => setBitmap bitmap (toU16 (atoi head))

/-- `kni_set_bitmap`. -/
def kniSetBitmap (head : Text) (bitmap : Bitmap) : Bitmap :=
  match h : head.idxOf? ',' with
  | none => setItem head bitmap
  | some tail => kniSetBitmap (head.drop (tail + 1)) (setItem head bitmap)
termination_by head.length
decreasing_by
  have := (List.idxOf?_eq_some_iff.1 h).choose
  simp only [length_drop]
  omega

/-! ## Lists -/

/-- The text of a port number. -/
structure Number where
  digits : Text
  ne_nil : digits ≠ []
  all : ∀ c ∈ digits, c.isDigit = true
  le : decimal digits ≤ 65535

/-- The port. -/
def Number.val (n : Number) : Nat := decimal n.digits

/-- An item of the list: a port or a range of ports. -/
inductive Item
  | port (n : Number)
  | range (a b : Number) (le : a.val ≤ b.val)

/-- The text of an item. -/
def Item.text : Item → Text
  | .port n => n.digits
  | .range a b _ => a.digits ++ '-' :: b.digits

/-- The item lists the port. -/
def Item.Lists : Item → Nat → Prop
  | .port n, p => p = n.val
  | .range a b _, p => a.val ≤ p ∧ p ≤ b.val

/-- A list of items, separated by commas. -/
def listText (item : Item) : List Item → Text
  | [] => item.text
  | next :: items => item.text ++ ',' :: listText next items

/-! ## Reading an item -/

variable {rest : Text} {p : Nat} {n : Number} {c : Char}

theorem not_mem_digits (hc : c.isDigit = false) : c ∉ n.digits :=
  fun h => absurd (n.all c h) (by simp [hc])

/-- A number is read up to what follows it. -/
theorem atoi_append (n : Number) (h : rest.takeWhile Char.isDigit = []) :
    atoi (n.digits ++ rest) = n.val := by
  obtain ⟨c, ds, hcons⟩ := exists_cons_of_ne_nil n.ne_nil
  have hc : c.isDigit = true := n.all c (hcons ▸ mem_cons_self)
  have hspace : isSpace c = false := by
    simp only [Char.isDigit, Bool.and_eq_true, decide_eq_true_eq] at hc
    have h48 : 48 ≤ c.toNat := hc.1
    simp only [isSpace, Bool.or_eq_false_iff, beq_eq_false_iff_ne, Bool.and_eq_false_iff,
      decide_eq_false_iff_not]
    omega
  have hsign : signOf (c :: (ds ++ rest)) = (1, c :: (ds ++ rest)) := by
    unfold signOf
    split
    next heq => cases heq; exact absurd hc (by decide)
    next heq => cases heq; exact absurd hc (by decide)
    · rfl
  have hall : ∀ x ∈ c :: ds, x.isDigit = true := hcons ▸ n.all
  have htake : (c :: (ds ++ rest)).takeWhile Char.isDigit = c :: ds := by
    rw [← cons_append, takeWhile_append_of_pos hall, h, append_nil]
  have hstrtol : (strtol (c :: (ds ++ rest))).1 = clampLong (1 * decimal (c :: ds)) := by
    unfold strtol
    rw [dropWhile_cons_of_neg (by simp [hspace]), hsign]
    simp only [htake]
  have hle := n.le
  unfold Number.val
  rw [hcons] at hle ⊢
  rw [cons_append, atoi, hstrtol, toInt, clampLong, Int.bmod_def]
  split <;> omega

/-- The place of the first `c`. -/
theorem idxOf?_append_cons (rest : Text) {l : Text} (h : c ∉ l) :
    (l ++ c :: rest).idxOf? c = some l.length := by
  induction l with
  | nil => simp [idxOf?_cons]
  | cons x l ih =>
    have hx : x ≠ c := fun he => h (he ▸ mem_cons_self)
    rw [cons_append, idxOf?_cons, if_neg (by simpa using hx), ih fun hl => h (mem_cons_of_mem x hl)]
    rfl

/-- What stands behind an item. -/
def Behind (rest : Text) : Prop := rest = [] ∨ ∃ t, rest = ',' :: t

theorem Behind.takeWhile_eq (h : Behind rest) : rest.takeWhile Char.isDigit = [] := by
  rcases h with rfl | ⟨t, rfl⟩ <;> rfl

/-- A port is not taken for a range, though there may be a dash behind it. -/
theorem isRange_port (n : Number) (h : Behind rest) : isRange (n.digits ++ rest) = none := by
  have hdash : '-' ∉ n.digits := not_mem_digits (by decide)
  unfold isRange
  rcases h with rfl | ⟨t, rfl⟩
  · rw [append_nil, idxOf?_eq_none_iff.2 hdash]
  · rw [idxOf?_append_cons _ (not_mem_digits (by decide))]
    split
    · rfl
    · contradiction
    next k tail hk htail =>
      cases htail
      refine if_neg fun hlt => ?_
      obtain ⟨_, heq, -⟩ := idxOf?_eq_some_iff.1 hk
      rw [getElem_append_left (by omega)] at heq
      exact hdash (heq ▸ getElem_mem _)

theorem comma_notMem (item : Item) : ',' ∉ item.text := by
  cases item with
  | port n => exact not_mem_digits (by decide)
  | range a b hle =>
    simp [Item.text, not_mem_digits (n := a) (c := ',') (by decide),
      not_mem_digits (n := b) (c := ',') (by decide)]

theorem isRange_range (a b : Number) (hle : a.val ≤ b.val) (h : Behind rest) :
    isRange (a.digits ++ '-' :: b.digits ++ rest) = some a.digits.length := by
  have hlen := length_pos_iff.2 b.ne_nil
  have hcomma := comma_notMem (.range a b hle)
  unfold Item.text at hcomma
  unfold isRange
  rw [append_assoc, cons_append, idxOf?_append_cons _ (not_mem_digits (by decide))]
  rcases h with rfl | ⟨t, rfl⟩
  · rw [append_nil, idxOf?_eq_none_iff.2 hcomma]
  · rw [← cons_append, ← append_assoc, idxOf?_append_cons _ hcomma]
    refine if_pos ?_
    rw [length_append, length_cons]
    omega

/-! ## What is set -/

section Set

variable (raw : Nat) (bitmap : Bitmap)

theorem toU16_natCast (h : p ≤ 65535) : toU16 p = p := by
  unfold toU16
  omega

theorem getBitmap_setRange {a b : Nat} (hb : b ≤ 65535) :
    getBitmap raw (setRange a b bitmap) = true ↔
      getBitmap raw bitmap = true ∨ ∃ p, (a ≤ p ∧ p ≤ b) ∧ swap16 p = raw := by
  rw [setRange, getBitmap_foldl]
  refine or_congr_right ⟨?_, ?_⟩
  · rintro ⟨d, hd, heq⟩
    have := mem_range.1 hd
    refine ⟨a + d, by omega, ?_⟩
    rwa [← Int.natCast_add, toU16_natCast (by omega)] at heq
  · rintro ⟨p, hp, heq⟩
    refine ⟨p - a, mem_range.2 (by omega), ?_⟩
    rwa [← Int.natCast_add, Nat.add_sub_of_le hp.1, toU16_natCast (by omega)]

/-- **One round** sets the ports of the item. -/
theorem getBitmap_setItem (item : Item) (h : Behind rest) :
    getBitmap raw (setItem (item.text ++ rest) bitmap) = true ↔
      getBitmap raw bitmap = true ∨ ∃ p, item.Lists p ∧ swap16 p = raw := by
  unfold setItem
  cases item with
  | port n =>
    rw [Item.text, isRange_port n h]
    simp only [atoi_append n h.takeWhile_eq, toU16_natCast n.le, Number.val, getBitmap_setBitmap,
      Item.Lists, exists_eq_left]
  | range a b hle =>
    rw [Item.text, isRange_range a b hle h]
    have hdrop : (a.digits ++ '-' :: b.digits ++ rest).drop (a.digits.length + 1) =
        b.digits ++ rest := by simp
    simp only [hdrop, atoi_append b h.takeWhile_eq]
    rw [append_assoc, atoi_append a rfl]
    exact getBitmap_setRange raw bitmap b.le

/-- **The loop** sets the ports of the list. -/
theorem getBitmap_kniSetBitmap (item : Item) (items : List Item) :
    getBitmap raw (kniSetBitmap (listText item items) bitmap) = true ↔
      getBitmap raw bitmap = true ∨ ∃ i ∈ item :: items, ∃ p, i.Lists p ∧ swap16 p = raw := by
  induction items generalizing item bitmap with
  | nil =>
    have hround := getBitmap_setItem raw bitmap item (.inl rfl)
    rw [append_nil] at hround
    have hloop : kniSetBitmap item.text bitmap = setItem item.text bitmap := by
      rw [kniSetBitmap]
      split
      · rfl
      next tail htail => cases (idxOf?_eq_none_iff.2 (comma_notMem item)).symm.trans htail
    rw [listText, hloop, hround]
    simp
  | cons next items ih =>
    have hcomma := idxOf?_append_cons (listText next items) (comma_notMem item)
    have hloop : kniSetBitmap (item.text ++ ',' :: listText next items) bitmap =
        kniSetBitmap (listText next items)
          (setItem (item.text ++ ',' :: listText next items) bitmap) := by
      rw [kniSetBitmap]
      split
      next hnone => cases hcomma.symm.trans hnone
      next tail htail =>
        cases hcomma.symm.trans htail
        simp
    rw [listText, hloop, ih, getBitmap_setItem raw bitmap item (.inr ⟨_, rfl⟩), or_assoc]
    simp

theorem Item.Lists.lt {item : Item} (h : item.Lists p) : p < 65536 := by
  cases item with
  | port n => exact Nat.lt_succ_of_le (h ▸ n.le)
  | range a b hle => exact Nat.lt_succ_of_le (h.2.trans b.le)

end Set

/-- **The ports that are left to the kernel** are those listed. -/
theorem kniSetBitmap_right (item : Item) (items : List Item) (mem : Nat → Rss.Byte) (off : Nat) :
    protocolFilterL4 (load16 mem off) (kniSetBitmap (listText item items) fun _ => 0#8) = .kni ↔
      ∃ i ∈ item :: items, i.Lists (be16 mem off) := by
  have hset := getBitmap_kniSetBitmap (load16 mem off) (fun _ => 0#8) item items
  rw [getBitmap_empty] at hset
  simp only [Bool.false_eq_true, false_or] at hset
  have hfilter : ∀ bitmap, protocolFilterL4 (load16 mem off) bitmap = .kni ↔
      getBitmap (load16 mem off) bitmap = true := by
    intro bitmap
    unfold protocolFilterL4
    split <;> simp [*]
  rw [hfilter, hset]
  refine exists_congr fun i => and_congr_right fun _ => ⟨?_, fun h => ⟨_, h, ?_⟩⟩
  · rintro ⟨p, hp, heq⟩
    exact (swap16_eq_load16 hp.lt).1 heq ▸ hp
  · exact (swap16_eq_load16 h.lt).2 rfl

/-- The ports 80 and from 8000 to 8080. -/
def webItems : Item × List Item :=
  (.port ⟨['8', '0'], by decide, all_eq_true.1 rfl, by decide⟩,
    [.range ⟨['8', '0', '0', '0'], by decide, all_eq_true.1 rfl, by decide⟩
      ⟨['8', '0', '8', '0'], by decide, all_eq_true.1 rfl, by decide⟩ (by decide)])

/-- The port 8042, in network order. -/
def webPort : Nat → Rss.Byte := fun i => if i = 0 then 0x1f#8 else 0x6a#8

theorem kniSetBitmap_right_web :
    listText webItems.1 webItems.2 = "80,8000-8080".toList ∧ protocolFilterL4 (load16 webPort 0)
      (kniSetBitmap (listText webItems.1 webItems.2) fun _ => 0#8) = .kni := by
  refine ⟨by decide, (kniSetBitmap_right webItems.1 webItems.2 webPort 0).2
    ⟨_, mem_cons_of_mem _ mem_cons_self, ?_⟩⟩
  exact ⟨by decide, by decide⟩

end FStack.Rx.PortList
