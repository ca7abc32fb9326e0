import FStack.Lib.Heap

/-!
# Micro threads: the heap of sleepers and timers

Model of `HeapList` and `HeapEntry` (`adapter/micro_thread/heap.h`): `HeapUp`, `HeapDown`,
`HeapPush`, `HeapPop`, `HeapDelete`, `HeapTop` and `HeapResize`. The sleeping micro threads are in
one such heap, by the time at which they wake up, and the timers in another one, by the time at
which they expire.

* An entry knows its position in the array; position 0 is not used, and is that of the entries
  outside. No object is in two heaps, so the positions (`index`) are those in one heap.
* A time is a number of milliseconds. The null pointers behind the last entry are kept in the model;
  a null pointer's value, which is read nowhere (`Aligned`), is zero.

`HeapDelete` puts the last entry in the place of the one that goes, and moves it down; it never
moves it up.
-/

namespace FStack.MicroThread

open Function FStack.Lib.Heap

/-- `HeapList`, with what its entries know: their `_index` and their `HeapValue`. -/
structure HeapList (ι : Type) where
  list : Nat → Option ι
  max : Nat
  count : Nat
  index : ι → Nat
  value : ι → Nat

namespace HeapList

variable {ι : Type} {h : HeapList ι} {pos : Nat}

/-- The value of the entry at a position. -/
def valueAt (h : HeapList ι) (pos : Nat) : Nat := (h.list pos).elim 0 h.value

/-- The entry is in the heap. -/
def Stored (h : HeapList ι) (e : ι) : Prop := ∃ pos, 0 < pos ∧ pos ≤ h.count ∧ h.list pos = some e

/-- The heap that `HeapList(max)` makes; no entry is in it. -/
def new (max : Nat) (value : ι → Nat) : HeapList ι where
  list := fun _ => none
  max := if 0 < max then max else 100000
  count := 0
  index := fun _ => 0
  value := value

/-- The lesser one of the entries below `pos`. -/
def minSon (h : HeapList ι) (pos : Nat) : Nat :=
  if pos * 2 = h.count then pos * 2
  else if h.valueAt (pos * 2 + 1) < h.valueAt (pos * 2) then pos * 2 + 1
  else pos * 2

theorem minSon_le (hle : pos * 2 ≤ h.count) : h.minSon pos ≤ h.count := by
  unfold minSon
  split
  · omega
  · split <;> omega

theorem minSon_ge (h : HeapList ι) (pos : Nat) : pos * 2 ≤ h.minSon pos := by
  unfold minSon
  split
  · omega
  · split <;> omega

variable [DecidableEq ι]

section

variable (h : HeapList ι)

variable (pos : Nat)

/-- `SetIndex` of the entry at a position. -/
def setIndexAt : HeapList ι :=
  match h.list pos with
  | some e => { h with index := update h.index e pos }
  | none => h

/-- The entries at two positions change places. -/
def exchange (pos other : Nat) : HeapList ι :=
  let list := update (update h.list other (h.list pos)) pos (h.list other)
  (setIndexAt { h with list } pos).setIndexAt other

@[simp] theorem setIndexAt_list : (h.setIndexAt pos).list = h.list := by
  unfold setIndexAt
  split <;> rfl

@[simp] theorem setIndexAt_count : (h.setIndexAt pos).count = h.count := by
  unfold setIndexAt
  split <;> rfl

@[simp] theorem setIndexAt_value : (h.setIndexAt pos).value = h.value := by
  unfold setIndexAt
  split <;> rfl

end

theorem setIndexAt_index {e : ι} (he : h.list pos = some e) :
    (h.setIndexAt pos).index = update h.index e pos := by
  simp only [setIndexAt, he]

variable (h : HeapList ι)

variable (pos other : Nat)

@[simp] theorem exchange_count : (h.exchange pos other).count = h.count := by
  simp only [exchange, setIndexAt_count]

@[simp] theorem exchange_value : (h.exchange pos other).value = h.value := by
  simp only [exchange, setIndexAt_value]

theorem exchange_list : (h.exchange pos other).list = h.list ∘ Equiv.swap pos other := by
  funext i
  simp only [exchange, setIndexAt_list, comp]
  by_cases hpos : i = pos
  · subst hpos
    rw [update_self, Equiv.swap_apply_left]
  rw [update_of_ne hpos]
  by_cases hother : i = other
  · subst hother
    rw [update_self, Equiv.swap_apply_right]
  · rw [update_of_ne hother, Equiv.swap_apply_of_ne_of_ne hpos hother]

theorem exchange_valueAt : (h.exchange pos other).valueAt = h.valueAt ∘ Equiv.swap pos other := by
  funext i
  simp only [valueAt, exchange_list, exchange_value, comp]

/-! ## Up and down -/

/-- `HeapUp`, from `pos` on. -/
def heapUp (h : HeapList ι) (pos : Nat) : HeapList ι :=
  if pos / 2 < 1 then h
  else if h.valueAt pos < h.valueAt (pos / 2) then (h.exchange pos (pos / 2)).heapUp (pos / 2)
  else h
termination_by pos

/-- `HeapDown`. -/
def heapDown (h : HeapList ι) (pos : Nat) : HeapList ι :=
  if h.count < pos then h
  else if h.count < pos * 2 then h
  else if h.valueAt (h.minSon pos) < h.valueAt pos then
    (h.exchange pos (h.minSon pos)).heapDown (h.minSon pos)
  else h
termination_by h.count - pos
decreasing_by
  have hle : h.minSon pos ≤ h.count := minSon_le (by omega)
  have hge := h.minSon_ge pos
  have hlt : h.valueAt (h.minSon pos) < h.valueAt pos := by assumption
  have hne : h.minSon pos ≠ pos := fun heq => Nat.lt_irrefl _ (heq ▸ hlt)
  rw [exchange_count]
  omega

/-! ## The operations -/

/-- `HeapPush` and its result. -/
def heapPush (item : ι) : HeapList ι × Int :=
  if h.max ≤ h.count then (h, -1)
  else if h.index item ≠ 0 then (h, -2)
  else
    (heapUp { h with
      count := h.count + 1
      list := update h.list (h.count + 1) (some item)
      index := update h.index item (h.count + 1) } (h.count + 1), 0)

/-- The last entry is put in the place of the one at `pos`. -/
def fillFromLast (pos : Nat) : HeapList ι :=
  let h := setIndexAt { h with list := update h.list pos (h.list h.count) } pos
  { h with
    list := update h.list h.count none
    count := h.count - 1 }

/-- What `HeapPop` and `HeapDelete` do to take the entry at `pos` out. -/
def takeAt (pos : Nat) : HeapList ι :=
  let h' := (h.fillFromLast pos).heapDown pos
  match h.list pos with
  | some e => { h' with index := update h'.index e 0 }
  | none => h'

/-- `HeapList::HeapPop`. -/
def heapPop : HeapList ι × Option ι :=
  if h.count = 0 then (h, none)
  else (h.takeAt 1, h.list 1)

/-- `HeapDelete` and its result. -/
def heapDelete (item : ι) : HeapList ι × Int :=
  if h.count = 0 then (h, -1)
  else if h.count < h.index item ∨ h.index item = 0 then (h, -2)
  else (h.takeAt (h.index item), 0)

/-- `HeapList::HeapTop`. -/
def heapTop : Option ι := if 0 < h.count then h.list 1 else none

/-- `HeapResize`; the entries are copied. -/
def heapResize (size : Nat) : HeapList ι :=
  if size ≤ h.max then h else { h with max := size }

end HeapList

end FStack.MicroThread
