import FStack.Lib.Load
import FStack.Tx.Order

/-!
# The ring of BSD mbufs

With `FF_USE_PAGE_ARRAY` a BSD mbuf whose packet the driver accepted is put in a ring of the port,
as far on as the packet has segments; what is in the slots on the way is freed
(`ff_txring_enqueue`, `lib/ff_memory.c:173-189`). `send_burst` puts in the ring, or frees, whatever
`bsd_m_table` has at the index of each packet.

Results:
* `ringOk_enqBsd`: the ring loses no BSD mbuf and frees none twice.
* `sendBurst_bsd`: a burst disposes of the BSD mbufs recorded beside the table.
-/

namespace FStack.Tx

open Function List FStack.Lib

variable {p : TxPort}

/-! ## The ring -/

/-- The BSD mbufs in the ring. -/
def TxRing.bufs (r : TxRing) : Multiset Nat :=
  load (Finset.range 512) (fun _ b => {b}) fun i => (r.slots i).toList

theorem headInc_lt {h : Nat} (hh : h < 512) : headInc h < 512 := by
  unfold headInc
  split <;> omega

theorem sum_map_singleton_toList (v : Option Nat) :
    (v.toList.map fun b => ({b} : Multiset Nat)).sum = ↑v.toList := by
  cases v <;> rfl

/-- Setting a slot puts `v` in, in place of what was there. -/
theorem bufs_update (r : TxRing) {i : Nat} (hi : i < 512) (v : Option Nat) (head : Nat) :
    (TxRing.mk (update r.slots i v) head).bufs + ↑(r.slots i).toList =
      r.bufs + ↑v.toList := by
  have h := load_update (w := fun _ b => ({b} : Multiset Nat)) (s := fun i => (r.slots i).toList)
    (Finset.mem_range.mpr hi) v.toList
  rw [sum_map_singleton_toList, sum_map_singleton_toList] at h
  have hslots : (fun j => (update r.slots i v j).toList) =
      update (fun j => (r.slots j).toList) i v.toList :=
    comp_update Option.toList r.slots i v
  unfold TxRing.bufs
  rw [hslots]
  exact h

variable {r : TxRing} {p' : TxPort}

theorem bufs_put (hr : r.head < 512) (v : Option Nat) :
    (r.put v).bufs + ↑(r.slots r.head).toList = r.bufs + ↑v.toList :=
  bufs_update r hr v (headInc r.head)

/-- What the loop empties, it frees. -/
theorem clearSlots_spec (k : Nat) (hr : r.head < 512) :
    (clearSlots k r).1.head < 512 ∧ (clearSlots k r).1.bufs + ↑(clearSlots k r).2 = r.bufs := by
  induction k generalizing r with
  | zero => exact ⟨hr, add_zero _⟩
  | succ k ih =>
    have hput := bufs_put hr none
    obtain ⟨hhead, hbufs⟩ := ih (r := r.put none) (headInc_lt hr)
    refine ⟨hhead, ?_⟩
    change (clearSlots k (r.put none)).1.bufs +
      ↑((r.slots r.head).toList ++ (clearSlots k (r.put none)).2) = r.bufs
    rw [← Multiset.coe_add, add_left_comm, hbufs, add_comm]
    exact hput.trans (add_zero _)

theorem ffTxringEnqueue_spec (hr : r.head < 512) (b segNum : Nat) :
    (ffTxringEnqueue r b segNum).1.head < 512 ∧
      (ffTxringEnqueue r b segNum).1.bufs + ↑(ffTxringEnqueue r b segNum).2 = r.bufs + {b} := by
  obtain ⟨hhead, hbufs⟩ := clearSlots_spec (segNum - 1) hr
  have hput := bufs_put hhead (some b)
  refine ⟨headInc_lt hhead, ?_⟩
  unfold ffTxringEnqueue
  rw [← Multiset.coe_add, add_left_comm, hput, ← add_assoc, add_comm _ (TxRing.bufs _), hbufs]
  rfl

/-- What was put in the ring is there still or was freed from it. -/
def RingOk (p : TxPort) : Prop :=
  p.ring.head < 512 ∧ (p.enqueued : Multiset Nat) = p.ring.bufs + p.recycled

/-- **The ring loses no BSD mbuf.** -/
theorem ringOk_enqBsd (h : RingOk p) (b nbSegs : Nat) : RingOk (p.enqBsd b nbSegs) := by
  obtain ⟨hhead, hbufs⟩ := ffTxringEnqueue_spec h.1 b nbSegs
  refine ⟨hhead, ?_⟩
  change ((p.enqueued ++ [b] : List Nat) : Multiset Nat) =
    (ffTxringEnqueue p.ring b nbSegs).1.bufs + ↑(p.recycled ++ (ffTxringEnqueue p.ring b nbSegs).2)
  rw [← Multiset.coe_add, ← Multiset.coe_add, h.2, add_right_comm, add_left_comm, hbufs, add_comm]
  rfl

/-! ## A burst -/

/-- The BSD mbufs `bsd_m_table` holds for packets and their indices. -/
def recorded (bsd : Nat → Option Nat) (xs : List (TxPkt × Nat)) : List Nat :=
  xs.flatMap fun x => (bsd x.2).toList

theorem recorded_append (bsd : Nat → Option Nat) (xs ys : List (TxPkt × Nat)) :
    recorded bsd (xs ++ ys) = recorded bsd xs ++ recorded bsd ys := flatMap_append

/-- A part of a burst that puts `en` in the ring and frees `re`. -/
structure Disposes (p p' : TxPort) (en re : List Nat) : Prop where
  bsd : p'.bsd = p.bsd
  given : p'.given = p.given
  enqueued : p'.enqueued = p.enqueued ++ en
  released : p'.released = p.released ++ re
  ring : RingOk p → RingOk p'

theorem Disposes.trans {p'' : TxPort} {en en' re re' : List Nat} (h : Disposes p p' en re)
    (h' : Disposes p' p'' en' re') : Disposes p p'' (en ++ en') (re ++ re') where
  bsd := h'.bsd.trans h.bsd
  given := h'.given.trans h.given
  enqueued := by rw [h'.enqueued, h.enqueued, append_assoc]
  released := by rw [h'.released, h.released, append_assoc]
  ring := fun hp => h'.ring (h.ring hp)

/-- A change of the packets alone. -/
theorem Disposes.of_eq (hbsd : p'.bsd = p.bsd) (hgiven : p'.given = p.given)
    (henqueued : p'.enqueued = p.enqueued) (hreleased : p'.released = p.released)
    (hring : p'.ring = p.ring) (hrecycled : p'.recycled = p.recycled) : Disposes p p' [] [] where
  bsd := hbsd
  given := hgiven
  enqueued := by rw [henqueued, append_nil]
  released := by rw [hreleased, append_nil]
  ring := by
    unfold RingOk
    rw [henqueued, hring, hrecycled]
    exact id

theorem acceptOne_bsd (s : TxPort × TxStat) (x : TxPkt × Nat) :
    Disposes s.1 (acceptOne true s x).1 (s.1.bsd x.2).toList [] := by
  unfold acceptOne
  dsimp only
  cases s.1.bsd x.2 with
  | none => exact .of_eq rfl rfl rfl rfl rfl rfl
  | some b =>
    exact ⟨rfl, rfl, rfl, (append_nil _).symm, fun h => ringOk_enqBsd (p := { s.1 with
      late := s.1.late ++ [x.1] }) h b x.1.nbSegs⟩

theorem dropOne_bsd (s : TxPort × TxStat) (x : TxPkt × Nat) :
    Disposes s.1 (dropOne true s x).1 [] (s.1.bsd x.2).toList := by
  unfold dropOne
  dsimp only
  cases s.1.bsd x.2 with
  | none => exact .of_eq rfl rfl rfl rfl rfl rfl
  | some b => exact ⟨rfl, rfl, (append_nil _).symm, rfl, id⟩

theorem foldl_acceptOne_bsd (xs : List (TxPkt × Nat)) (s : TxPort × TxStat) :
    Disposes s.1 (xs.foldl (acceptOne true) s).1 (recorded s.1.bsd xs) [] := by
  induction xs generalizing s with
  | nil => exact .of_eq rfl rfl rfl rfl rfl rfl
  | cons x xs ih =>
    have hx := acceptOne_bsd s x
    have hxs := ih (acceptOne true s x)
    rw [hx.bsd] at hxs
    exact hx.trans hxs

theorem foldl_dropOne_bsd (xs : List (TxPkt × Nat)) (s : TxPort × TxStat) :
    Disposes s.1 (xs.foldl (dropOne true) s).1 [] (recorded s.1.bsd xs) := by
  induction xs generalizing s with
  | nil => exact .of_eq rfl rfl rfl rfl rfl rfl
  | cons x xs ih =>
    have hx := dropOne_bsd s x
    have hxs := ih (dropOne true s x)
    rw [hx.bsd] at hxs
    exact hx.trans hxs

theorem zipIdx_take_append_drop (xs : List TxPkt) (k : Nat) :
    (xs.take k).zipIdx ++ (xs.drop k).zipIdx (xs.take k).length = xs.zipIdx := by
  have h : (xs.take k ++ xs.drop k).zipIdx = _ := zipIdx_append
  rw [take_append_drop, zero_add] at h
  exact h.symm

/-- **A burst** puts in the ring or frees the BSD mbufs recorded beside the table. -/
theorem sendBurst_bsd (accept : Nat) (s : TxPort × TxStat) :
    ∃ en re, Disposes s.1 (sendBurst true accept s).1 en re ∧
      en ++ re = recorded s.1.bsd s.1.table.zipIdx := by
  unfold sendBurst
  dsimp only
  have h1 := foldl_acceptOne_bsd (s.1.table.take accept).zipIdx
    ({ s.1 with driven := s.1.driven ++ s.1.table.take accept }, s.2)
  obtain ⟨hsame, -, -⟩ := foldl_acceptOne true (s.1.table.take accept).zipIdx
    ({ s.1 with driven := s.1.driven ++ s.1.table.take accept }, s.2)
  generalize (s.1.table.take accept).zipIdx.foldl (acceptOne true)
    ({ s.1 with driven := s.1.driven ++ s.1.table.take accept }, s.2) = t at h1 hsame ⊢
  have h2 := foldl_dropOne_bsd
    ((t.1.table.drop accept).zipIdx (s.1.table.take accept).length) t
  have h0 : Disposes s.1 { s.1 with driven := s.1.driven ++ s.1.table.take accept } [] [] :=
    .of_eq rfl rfl rfl rfl rfl rfl
  refine ⟨_, _, h0.trans (h1.trans h2), ?_⟩
  rw [h1.bsd, hsame.table, append_nil, nil_append, nil_append, nil_append, ← recorded_append]
  exact congrArg (recorded s.1.bsd) (zipIdx_take_append_drop s.1.table accept)

end FStack.Tx
