import FStack.Rx.Spread

/-!
# ARP and NDP frames reach every stack once

Invariants of the lcores that share a port (`FStack.Rx.Fanout`), for the fan-out of ARP and NDP
frames in `process_packets` (`lib/ff_dpdk_if.c:2153-2195`). Each is about the weight of the packets
that come from one received frame (`weight`): the weight towards a stack stays at one, what reached
the KNI and the number of clones are bounded by what the owner's stack was given.

A frame counts as ARP or NDP by `protocol_filter`. That is not every NDP frame: the test for a
multicast address comes first there, so a neighbour solicitation to a multicast address is of
another class and stays on its queue.

Results:
* `fanout_once`: once per stack, at most once to the KNI, at most `nb_queues + 1` copies.
* `multicast_ndp_not_spread`: a multicast neighbour solicitation reaches one stack of two.
-/

namespace FStack.Rx

open Function List FStack.Lib

variable {P : Port} {ok : Env → Prop} {n : Net} {f p q a a' : Nat} {e : Env} {fromRing : Bool}
  {m : Mbuf} {bufs : List Mbuf} {rest : List Handoff} {h : Handoff} {s : St} {cnt : Counters}

/-! ## Weights -/

/-- Where a copy can end up. -/
inductive Place where
  | stack (q : Nat)
  | ring (q : Nat)
  | kni

/-- Where lcore `p`'s hand-over to a sink ends up. -/
def place (p : Nat) : Sink → Option Place
  | .stack => some (.stack p)
  | .ring j => some (.ring j.toNat)
  | .kni => some .kni
  | .tx => none
  | .free => none

/-- Which received frame an item comes from. -/
def Item.origin : Item → Nat
  | .todo _ _ m | .ring _ m | .stack _ m | .kni m => m.origin
  | .out _ h => h.pkt.origin

/-- An item weighs `c` where it is or goes to, and `a` before it is fanned out. -/
def Item.base (a : Nat) (c : Place → Nat) : Item → Nat
  | .todo p fromRing _ => if fromRing then c (.ring p) else a
  | .out p h => (place p h.sink).elim 0 c
  | .ring q _ => c (.ring q)
  | .stack q _ => c (.stack q)
  | .kni _ => c .kni

/-- The weight of the copies of the frame `f`. -/
def weight (f a : Nat) (c : Place → Nat) (x : Item) : Nat := if x.origin = f then x.base a c else 0

/-- Counts what is on its way to the stack of lcore `q`. -/
def towardsAt (q : Nat) : Place → Nat
  | .stack p => if p = q then 1 else 0
  | .ring p => if p = q then 1 else 0
  | .kni => 0

/-- Copies that the stack of queue `q` was given or is still to be given. -/
def towards (q f : Nat) : Item → Nat := weight f 1 (towardsAt q)

/-- Counts what is with KNI. -/
def kniAt : Place → Nat
  | .kni => 1
  | .stack _ => 0
  | .ring _ => 0

/-- Copies in the KNI ring or on the way there. -/
def toKni (f : Nat) : Item → Nat := weight f 0 kniAt

/-- Counts what is in the stack of the runtime owner. -/
def ownerAt (P : Port) : Place → Nat
  | .stack p => if P.owner p then 1 else 0
  | .ring _ => 0
  | .kni => 0

/-- Copies the owner of the KNI gave its stack. -/
def ownerDone (P : Port) (f : Nat) : Item → Nat := weight f 0 (ownerAt P)

/-- The frame before it is fanned out. -/
def untouched (f : Nat) : Item → Nat := weight f 1 fun _ => 0

/-- All copies. -/
def present (f : Nat) : Item → Nat := weight f 1 fun _ => 1

theorem towardsAt_le (q : Nat) (l : Place) : towardsAt q l ≤ 1 := by
  cases l with
  | stack p | ring p =>
    change (if p = q then 1 else 0) ≤ 1
    split <;> decide
  | kni => exact Nat.zero_le 1

theorem kniAt_le (l : Place) : kniAt l ≤ 1 := by
  cases l with
  | stack p | ring p => exact Nat.zero_le 1
  | kni => exact Nat.le_refl 1

/-- The lcore an item is with. -/
def Item.Within (P : Port) : Item → Prop
  | .todo p _ _ | .out p _ | .ring p _ | .stack p _ => p < P.nbQueues
  | .kni _ => True

theorem total_mono {w w' : Item → Nat} (h : ∀ x : Item, x.Within P → w x ≤ w' x) :
    n.total P w ≤ n.total P w' := by
  refine add_le_add (add_le_add (add_le_add (add_le_add ?_ ?_) ?_) ?_)
    (sum_le_sum fun x _ => h _ trivial)
  all_goals exact load_mono fun i hi x _ => h _ (Finset.mem_range.mp hi)

variable {c c' : Place → Nat}

theorem base_le (ha : a ≤ a') (hc : ∀ l, c l ≤ c' l) (x : Item) : x.base a c ≤ x.base a' c' := by
  cases x with
  | todo p fromRing m =>
    cases fromRing with
    | true => exact hc _
    | false => exact ha
  | out p h =>
    change (place p h.sink).elim 0 c ≤ (place p h.sink).elim 0 c'
    cases place p h.sink with
    | none => exact Nat.le_refl 0
    | some l => exact hc l
  | ring q m | stack q m | kni m => exact hc _

theorem weight_le (ha : a ≤ a') (hc : ∀ l, c l ≤ c' l) (x : Item) :
    weight f a c x ≤ weight f a' c' x := by
  unfold weight
  split
  · exact base_le ha hc x
  · exact Nat.le_refl 0

/-! ## Steps -/

theorem weight_target (h : Handoff) :
    (h.target p).elim 0 (weight f a c) = weight f a c (.out p h) := by
  unfold Handoff.target weight Item.base
  cases hsink : h.sink with
  | stack | ring j | kni =>
    dsimp only
    rw [hsink]
    rfl
  | tx | free =>
    dsimp only
    rw [hsink]
    exact (ite_self 0).symm

theorem total_emit_weight (hp : p < P.nbQueues) (hout : n.outbox p = h :: rest)
    (hring : ∀ j, h.sink = .ring j → j.toNat < P.nbQueues) :
    (n.emit p h rest).total P (weight f a c) = n.total P (weight f a c) := by
  have hemit := total_emit (w := weight f a c) hp hout hring
  rw [weight_target] at hemit
  exact Nat.add_right_cancel hemit

theorem total_dequeue_weight (hp : p < P.nbQueues) (htodo : n.todo p = []) (k : Nat) :
    (n.dequeue p k).total P (weight f a c) = n.total P (weight f a c) :=
  Nat.add_right_cancel (total_dequeue (w := weight f a c) hp htodo k)

theorem sum_origin (bufs : List Mbuf) :
    (bufs.map fun m => weight f a c (.todo p false m)).sum =
      a * (bufs.map Mbuf.origin).count f := by
  induction bufs with
  | nil => rfl
  | cons m bufs ih =>
    rw [map_cons, sum_cons, ih, map_cons, count_cons, Nat.mul_add, add_comm]
    congr 1
    change (if m.origin = f then a else 0) = _
    by_cases hm : m.origin = f
    · rw [if_pos hm, hm, if_pos (beq_self_eq_true f), mul_one]
    · rw [if_neg hm, if_neg (fun h => hm (beq_iff_eq.mp h)), Nat.mul_zero]

theorem count_range' (s k : Nat) : (range' s k).count f = if s ≤ f ∧ f < s + k then 1 else 0 := by
  rw [Nodup.count nodup_range']
  congr 1
  rw [mem_range'_1]

theorem total_receive_weight (hp : p < P.nbQueues) (htodo : n.todo p = [])
    (horig : bufs.map Mbuf.origin = range' n.received.length bufs.length) :
    (n.receive p bufs).total P (weight f a c) = n.total P (weight f a c) +
      a * if n.received.length ≤ f ∧ f < n.received.length + bufs.length then 1 else 0 := by
  rw [total_receive hp htodo, sum_origin, horig, count_range']

/-! ## Processing a packet -/

/-- What a packet handed to `k` on the lcore of queue `p` weighs. -/
def sinkWeight (p : Nat) (c : Place → Nat) (k : Sink) : Nat := (place p k).elim 0 c

theorem sum_out_same (hlog : ∀ h ∈ s.log, h.pkt.origin = f) :
    (s.log.map fun h => weight f a c (.out p h)).sum = s.weigh (sinkWeight p c) := by
  congr 1
  exact map_congr_left fun h hh => if_pos (hlog h hh)

theorem sum_out_other (hlog : ∀ h ∈ s.log, h.pkt.origin ≠ f) :
    (s.log.map fun h => weight f a c (.out p h)).sum = 0 := by
  rw [sum_eq_zero_iff, forall_mem_map]
  exact fun h hh => if_neg (hlog h hh)

theorem sum_fanSinks (g : Sink → Nat) (js : List Nat) : ((fanSinks e js).map g).sum =
      (js.map fun j => if j = e.queueId then 0 else g (.ring j)).sum := by
  induction js with
  | nil => rfl
  | cons j js ih =>
    unfold fanSinks at ih ⊢
    rw [flatMap_cons, map_append, sum_append, ih, map_cons, sum_cons]
    split <;> rfl

theorem mem_cloneSinks {j : Int} (h : Sink.ring j ∈ cloneSinks e fromRing) :
    fromRing = false ∧ ∃ i < e.nbQueues, j = (i : Int) := by
  rcases mem_append.mp h with h | h
  · split at h
    · cases h
    next hring =>
      refine ⟨Bool.eq_false_iff.mpr hring, ?_⟩
      obtain ⟨i, hi, hmem⟩ := mem_flatMap.mp h
      split at hmem
      · cases hmem
      · cases mem_singleton.mp hmem
        exact ⟨i, mem_range.mp hi, rfl⟩
  · split at h
    · cases mem_singleton.mp h
    · cases h

/-- What `process_packets` does with a packet on the lcore of queue `p`. -/
theorem processPacket_cases (hrun : P.Runs p e) (fromRing : Bool) (i : Nat) (cnt : Counters)
    (m : Mbuf) : (classify P.kni m.frame = .arp ∨ classify P.kni m.frame = .ndp) ∧
      (∃ s, Spawns e m (cloneSinks e fromRing) (.start cnt) s ∧
        processPacket e fromRing i (.start cnt) m = s.hand m .stack) ∨
    ¬(classify P.kni m.frame = .arp ∨ classify P.kni m.frame = .ndp) ∧
      ∃ m' k, (processPacket e fromRing i (.start cnt) m).log = [⟨m', k⟩] ∧
        (processPacket e fromRing i (.start cnt) m).made = [] ∧ m'.origin = m.origin ∧
        ∀ j, k ≠ .ring j := by
  by_cases hclass : classify P.kni m.frame = .arp ∨ classify P.kni m.frame = .ndp
  · refine .inl ⟨hclass, processPacket_spread hrun.dispatcher ?_ ?_ cnt⟩
    · rw [hrun.filter]
      exact hclass
    · unfold shedsSyn
      have hsyn : isTcpSyn m.frame = false :=
        Bool.eq_false_iff.mpr fun h => not_classify_of_isTcpSyn h hclass
      rw [hsyn, Bool.and_false]
  · refine .inr ⟨hclass, processPacket_other hrun.dispatcher ?_ fromRing i cnt⟩
    rw [hrun.filter]
    exact hclass

/-- Every copy made of a packet comes from the same frame; those for other queues have its data and
are made only of a packet that did not come from a ring. -/
theorem processPacket_handoff (hrun : P.Runs p e) {i : Nat}
    (hh : h ∈ (processPacket e fromRing i (.start cnt) m).log) :
    h.pkt.origin = m.origin ∧ ∀ j, h.sink = .ring j → m.frame.Copy h.pkt.frame ∧
      fromRing = false ∧ ∃ i < P.nbQueues, j = (i : Int) := by
  rcases processPacket_cases hrun fromRing i cnt m with ⟨-, s, hs, heq⟩ | ⟨-, m', k, hlog, -, ho, hk⟩
  · rw [heq] at hh
    rcases mem_append.mp hh with hh | hh
    · rcases hs.clone h hh with hh | ⟨horig, hring⟩
      · cases hh
      · refine ⟨horig, fun j hj => ⟨(hring j hj).1, ?_⟩⟩
        rw [← hrun.nbQueues]
        exact mem_cloneSinks (hring j hj).2
    · cases mem_singleton.mp hh
      exact ⟨rfl, nofun⟩
  · rw [hlog] at hh
    cases mem_singleton.mp hh
    exact ⟨ho, fun j hj => absurd hj (hk j)⟩

theorem sum_cloneSinks (hrun : P.Runs p e) (fromRing : Bool) :
    ((cloneSinks e fromRing).map (sinkWeight p c)).sum =
      (if fromRing then 0
        else ((range P.nbQueues).map fun j => if j = p then 0 else c (.ring j)).sum) +
      if P.kni.enable && P.owner p then c .kni else 0 := by
  unfold cloneSinks
  rw [map_append, sum_append, hrun.enableKni, hrun.runtimeOwner]
  congr 1
  · cases fromRing with
    | true => rfl
    | false =>
      rw [if_neg Bool.false_ne_true, if_neg Bool.false_ne_true, sum_fanSinks, hrun.nbQueues,
        hrun.queueId]
      rfl
  · split <;> rfl

theorem sum_range_one (k : Nat) :
    ((range k).map fun j => if j = p then 0 else if j = q then 1 else 0).sum =
      if q < k ∧ q ≠ p then 1 else 0 := by
  induction k with
  | zero => exact (if_neg fun h => absurd h.1 (Nat.not_lt_zero q)).symm
  | succ k ih =>
    rw [range_succ, map_append, sum_append, ih, map_singleton, sum_singleton]
    split <;> split <;> (repeat' split) <;> omega

theorem sum_range_all (k : Nat) :
    ((range k).map fun j => if j = p then 0 else 1).sum + (if p < k then 1 else 0) = k := by
  induction k with
  | zero => rfl
  | succ k ih =>
    rw [range_succ, map_append, sum_append, map_singleton, sum_singleton]
    split at ih <;> split <;> split <;> omega

theorem length_cloneSinks (hrun : P.Runs p e) (hp : p < P.nbQueues) (fromRing : Bool) :
    (cloneSinks e fromRing).length ≤
      (if fromRing then 0 else P.nbQueues - 1) + if P.owner p then 1 else 0 := by
  have hlen (l : List Sink) : (l.map fun _ => 1).sum = l.length := by simp
  unfold cloneSinks
  rw [length_append]
  refine add_le_add ?_ ?_
  · cases fromRing with
    | true => exact Nat.le_refl 0
    | false =>
      have hall := sum_range_all (p := p) P.nbQueues
      rw [if_pos hp] at hall
      rw [if_neg Bool.false_ne_true, if_neg Bool.false_ne_true, ← hlen, sum_fanSinks,
        hrun.nbQueues, hrun.queueId]
      omega
  · rw [hrun.runtimeOwner]
    cases P.owner p with
    | true => cases e.enableKni <;> decide
    | false =>
      rw [Bool.and_false]
      exact Nat.le_refl 0

/-- What an ARP or NDP packet's copies weigh after it was processed. -/
theorem weigh_spread {ks : List Sink} (hs : Spawns e m ks (.start cnt) s) :
    sinkWeight p c .stack ≤ (s.hand m .stack).weigh (sinkWeight p c) ∧
      (s.hand m .stack).weigh (sinkWeight p c) ≤
        (ks.map (sinkWeight p c)).sum + sinkWeight p c .stack ∧
      (Lossless e → c .kni = 0 → (s.hand m .stack).weigh (sinkWeight p c) =
        (ks.map (sinkWeight p c)).sum + sinkWeight p c .stack) := by
  have hstart : (St.start cnt).weigh (sinkWeight p c) = 0 := rfl
  have hle := hs.weigh_le (sinkWeight p c) rfl
  rw [weigh_hand]
  refine ⟨Nat.le_add_left _ _, by omega, fun hl hk => ?_⟩
  rw [hs.weigh_eq hl (sinkWeight p c) rfl hk, hstart, Nat.zero_add]

/-! ## The invariants -/

/-- `m` is a copy of a received frame. -/
def Net.Holds (n : Net) (m : Mbuf) : Prop :=
  ∃ m₀, n.received[m.origin]? = some m₀ ∧ m₀.frame.Copy m.frame

/-- The accounts of a received ARP or NDP frame `f`. -/
structure Accounted (P : Port) (ok : Env → Prop) (n : Net) (f : Nat) : Prop where
  towards_le : ∀ q < P.nbQueues, n.total P (towards q f) ≤ 1
  towards_eq : (∀ e, ok e → Lossless e) → ∀ q < P.nbQueues, n.total P (towards q f) = 1
  kni_le : n.total P (toKni f) ≤ n.total P (ownerDone P f)
  clones_le : n.clones f + (P.nbQueues - 1) * n.total P (untouched f) ≤
    P.nbQueues - 1 + n.total P (ownerDone P f)

/-- Packets in flight are of received frames, and each ARP or NDP frame is accounted for. -/
structure Inv (P : Port) (ok : Env → Prop) (n : Net) : Prop where
  todo : ∀ p, ∀ x ∈ n.todo p, n.Holds x.2
  ring : ∀ q, ∀ m ∈ n.ring q, n.Holds m
  out : ∀ p, ∀ h ∈ n.outbox p, ∀ j, h.sink = .ring j →
    n.Holds h.pkt ∧ ∃ i < P.nbQueues, j = (i : Int)
  /-- Of a frame that was not received yet there is nothing. -/
  absent : ∀ f, n.received.length ≤ f → n.total P (present f) = 0 ∧ n.clones f = 0
  accounted : ∀ f m, n.received[f]? = some m → ArpOrNdp P.kni m.frame → Accounted P ok n f

theorem inv_init : Inv P ok Net.init := by
  have hzero (w : Item → Nat) : Net.init.total P w = 0 := by
    have hload {α : Type} (v : Nat → α → Nat) :
        load (Finset.range P.nbQueues) v (fun _ => []) = 0 :=
      load_eq_zero_iff.mpr fun _ _ _ hx => nomatch hx
    unfold Net.total Net.init
    rw [hload, hload, hload, hload]
    rfl
  exact ⟨fun _ => nofun, fun _ => nofun, fun _ => nofun, fun f _ => ⟨hzero _, rfl⟩, fun _ _ => nofun⟩

variable {n' : Net}

theorem Net.Holds.mono (hrec : ∃ l, n'.received = n.received ++ l) (h : n.Holds m) :
    n'.Holds m := by
  obtain ⟨l, hl⟩ := hrec
  obtain ⟨m₀, hm₀, hcopy⟩ := h
  refine ⟨m₀, ?_, hcopy⟩
  rw [hl, List.getElem?_append_left (List.getElem?_eq_some_iff.mp hm₀).1]
  exact hm₀

/-- Frames whose weights did not change stay accounted for. -/
theorem Accounted.congr (h : Accounted P ok n f)
    (hw : ∀ a c, n'.total P (weight f a c) = n.total P (weight f a c))
    (hclones : n'.clones f = n.clones f) : Accounted P ok n' f where
  towards_le := fun q hq => (hw _ _).symm ▸ h.towards_le q hq
  towards_eq := fun hok q hq => (hw _ _).trans (h.towards_eq hok q hq)
  kni_le := by
    unfold toKni ownerDone
    rw [hw, hw]
    exact h.kni_le
  clones_le := by
    unfold untouched ownerDone
    rw [hw, hw, hclones]
    exact h.clones_le

theorem total_absent (ha : a ≤ 1) (hc : ∀ l, c l ≤ 1) (h : n.total P (present f) = 0) :
    n.total P (weight f a c) = 0 :=
  Nat.le_zero.mp (h ▸ total_mono fun x _ => weight_le ha hc x)

theorem inv_emit (hinv : Inv P ok n) (hp : p < P.nbQueues) (hout : n.outbox p = h :: rest) :
    Inv P ok (n.emit p h rest) := by
  have hsame : (n.emit p h rest).received = n.received ∧ (n.emit p h rest).clones = n.clones ∧
      (n.emit p h rest).todo = n.todo ∧
      (n.emit p h rest).outbox = update n.outbox p rest := by
    unfold Net.emit
    cases h.sink <;> exact ⟨rfl, rfl, rfl, rfl⟩
  obtain ⟨hrec, hclones, htodo, houtbox⟩ := hsame
  have hmono {m : Mbuf} (hm : n.Holds m) : (n.emit p h rest).Holds m :=
    hm.mono ⟨[], by rw [hrec, append_nil]⟩
  have hmem : h ∈ n.outbox p := by
    rw [hout]
    exact mem_cons_self
  have htotal (f a : Nat) (c : Place → Nat) :
      (n.emit p h rest).total P (weight f a c) = n.total P (weight f a c) := by
    refine total_emit_weight hp hout fun j hj => ?_
    obtain ⟨-, i, hi, rfl⟩ := hinv.out p h hmem j hj
    exact hi
  refine ⟨?_, ?_, ?_, ?_, ?_⟩
  · rw [htodo]
    exact fun p x hx => hmono (hinv.todo p x hx)
  · have hring : (∃ j, h.sink = .ring j ∧ (n.emit p h rest).ring =
        update n.ring j.toNat (n.ring j.toNat ++ [h.pkt])) ∨
        (n.emit p h rest).ring = n.ring := by
      unfold Net.emit
      cases h.sink with
      | ring j => exact .inl ⟨j, rfl, rfl⟩
      | stack | kni | tx | free => exact .inr rfl
    rcases hring with ⟨j, hj, hring⟩ | hring
    · rw [hring]
      refine forall_mem_update (fun q m hm => hmono (hinv.ring q m hm)) fun m hm => ?_
      rcases mem_append.mp hm with hm | hm
      · exact hmono (hinv.ring _ m hm)
      · rw [mem_singleton.mp hm]
        exact hmono (hinv.out p h hmem j hj).1
    · rw [hring]
      exact fun q m hm => hmono (hinv.ring q m hm)
  · rw [houtbox]
    refine forall_mem_update (fun q x hx j hj => (hinv.out q x hx j hj).imp_left hmono)
      fun x hx j hj => ?_
    have hx' : x ∈ n.outbox p := by
      rw [hout]
      exact mem_cons_of_mem _ hx
    exact (hinv.out p x hx' j hj).imp_left hmono
  · intro f hf
    rw [hrec] at hf
    rw [hclones]
    exact ⟨(htotal f 1 _).trans (hinv.absent f hf).1, (hinv.absent f hf).2⟩
  · intro f m hf harp
    rw [hrec] at hf
    exact (hinv.accounted f m hf harp).congr (htotal f) (by rw [hclones])

theorem inv_dequeue (hinv : Inv P ok n) (hp : p < P.nbQueues) (htodo : n.todo p = []) (k : Nat) :
    Inv P ok (n.dequeue p k) := by
  have hmono {m : Mbuf} (hm : n.Holds m) : (n.dequeue p k).Holds m :=
    hm.mono ⟨[], (append_nil _).symm⟩
  refine ⟨?_, ?_, ?_, ?_, ?_⟩
  · refine forall_mem_update (fun q x hx => hmono (hinv.todo q x hx)) fun x hx => ?_
    obtain ⟨m, hm, rfl⟩ := mem_map.mp hx
    exact hmono (hinv.ring p m (mem_of_mem_take hm))
  · exact forall_mem_update (fun q m hm => hmono (hinv.ring q m hm)) fun m hm =>
      hmono (hinv.ring p m (mem_of_mem_drop hm))
  · exact fun q h hh j hj => (hinv.out q h hh j hj).imp_left hmono
  · exact fun f hf =>
      ⟨(total_dequeue_weight hp htodo k).trans (hinv.absent f hf).1, (hinv.absent f hf).2⟩
  · exact fun f m hf harp => (hinv.accounted f m hf harp).congr
      (fun _ _ => total_dequeue_weight hp htodo k) rfl

/-- The packets of a burst are found among the received ones. -/
theorem getElem?_origin (horig : bufs.map Mbuf.origin = range' n.received.length bufs.length)
    (hm : m ∈ bufs) : (n.received ++ bufs)[m.origin]? = some m := by
  obtain ⟨i, hi, rfl⟩ := mem_iff_getElem.mp hm
  have ho : bufs[i].origin = n.received.length + i := by
    have h := getElem_map Mbuf.origin (l := bufs) (i := i) (h := by rwa [length_map])
    rw [← h]
    simp only [horig, getElem_range', Nat.one_mul]
  rw [ho, getElem?_append_right (Nat.le_add_right _ _), Nat.add_sub_cancel_left]
  exact getElem?_eq_getElem hi

theorem inv_receive (hinv : Inv P ok n) (hp : p < P.nbQueues) (htodo : n.todo p = [])
    (horig : bufs.map Mbuf.origin = range' n.received.length bufs.length) :
    Inv P ok (n.receive p bufs) := by
  have hmono {m : Mbuf} (hm : n.Holds m) : (n.receive p bufs).Holds m := hm.mono ⟨bufs, rfl⟩
  have htotal (f a : Nat) (c : Place → Nat) := total_receive_weight (f := f) (a := a) (c := c) hp
    htodo horig
  have hlen : (n.receive p bufs).received.length = n.received.length + bufs.length :=
    length_append
  refine ⟨?_, ?_, ?_, ?_, ?_⟩
  · refine forall_mem_update (fun q x hx => hmono (hinv.todo q x hx)) fun x hx => ?_
    obtain ⟨m, hm, rfl⟩ := mem_map.mp hx
    exact ⟨m, getElem?_origin horig hm, rfl, fun _ _ => rfl⟩
  · exact fun q m hm => hmono (hinv.ring q m hm)
  · exact fun q h hh j hj => (hinv.out q h hh j hj).imp_left hmono
  · intro f hf
    rw [hlen] at hf
    obtain ⟨h0, hc⟩ := hinv.absent f (Nat.le_of_add_right_le hf)
    refine ⟨?_, hc⟩
    unfold present at h0 ⊢
    rw [htotal, h0, if_neg fun h => absurd h.2 (not_lt.mpr hf)]
  · intro f m hf harp
    by_cases hold : f < n.received.length
    · have hf' : n.received[f]? = some m := by
        rw [← hf]
        exact (getElem?_append_left hold).symm
      refine (hinv.accounted f m hf' harp).congr (fun a c => ?_) rfl
      rw [htotal, if_neg fun h => absurd h.1 (not_le.mpr hold), Nat.mul_zero, add_zero]
    · -- the frame is new, and its only copy has just been received
      have hnew : n.received.length ≤ f ∧ f < n.received.length + bufs.length := by
        refine ⟨not_lt.mp hold, ?_⟩
        rw [← hlen]
        exact (List.getElem?_eq_some_iff.mp hf).1
      obtain ⟨h0, hc⟩ := hinv.absent f hnew.1
      have hone {c : Place → Nat} (hc1 : ∀ l, c l ≤ 1) (a : Nat) (ha : a ≤ 1) :
          (n.receive p bufs).total P (weight f a c) = a := by
        rw [htotal, total_absent ha hc1 h0, if_pos hnew, mul_one, zero_add]
      have htow (q : Nat) : (n.receive p bufs).total P (towards q f) = 1 :=
        hone (towardsAt_le q) 1 (Nat.le_refl 1)
      refine ⟨fun q _ => Nat.le_of_eq (htow q), fun _ q _ => htow q, ?_, ?_⟩
      · have hk : (n.receive p bufs).total P (toKni f) = 0 :=
          hone kniAt_le 0 (Nat.zero_le 1)
        rw [hk]
        exact Nat.zero_le _
      · have hu : (n.receive p bufs).total P (untouched f) = 1 :=
          hone (fun _ => Nat.zero_le 1) 1 (Nat.le_refl 1)
        have hclones : (n.receive p bufs).clones f = 0 := hc
        rw [hu, hclones, zero_add, mul_one]
        exact Nat.le_add_right _ _

section Process

variable {rest : List (Bool × Mbuf)} {i : Nat} (hp : p < P.nbQueues) (hout : n.outbox p = [])
  (htodo : n.todo p = (fromRing, m) :: rest) (hrun : P.Runs p e)

include hp hout htodo hrun

/-- The weights of other frames. -/
theorem total_process_other (hf : m.origin ≠ f) :
    (n.process p rest m (processPacket e fromRing i (.start (n.cnt p)) m)).total P (weight f a c) =
      n.total P (weight f a c) := by
  have h := total_process (w := weight f a c) hp hout htodo
    (processPacket e fromRing i (.start (n.cnt p)) m)
  rw [sum_out_other fun x hx => (processPacket_handoff hrun hx).1 ▸ hf] at h
  rwa [show weight f a c (.todo p fromRing m) = 0 from if_neg hf] at h

/-- The weights of the packet's own frame. -/
theorem total_process_same :
    (n.process p rest m (processPacket e fromRing i (.start (n.cnt p)) m)).total P
        (weight m.origin a c) + (if fromRing then c (.ring p) else a) =
      n.total P (weight m.origin a c) +
        (processPacket e fromRing i (.start (n.cnt p)) m).weigh (sinkWeight p c) := by
  have h := total_process (w := weight m.origin a c) hp hout htodo
    (processPacket e fromRing i (.start (n.cnt p)) m)
  rw [sum_out_same fun x hx => (processPacket_handoff hrun hx).1] at h
  rwa [show weight m.origin a c (.todo p fromRing m) = if fromRing then c (.ring p) else a from
    if_pos rfl] at h

/-- **An ARP or NDP packet keeps its frame accounted for.** -/
theorem accounted_process (hok : ok e) (hacc : Accounted P ok n m.origin)
    (hclass : classify P.kni m.frame = .arp ∨ classify P.kni m.frame = .ndp) :
    Accounted P ok (n.process p rest m (processPacket e fromRing i (.start (n.cnt p)) m))
      m.origin := by
  obtain ⟨-, s, hs, heq⟩ | ⟨hno, -⟩ := processPacket_cases hrun fromRing i (n.cnt p) m
  swap
  · exact absurd hclass hno
  have hsame {a : Nat} {c : Place → Nat} := total_process_same (a := a) (c := c) (i := i) hp hout
    htodo hrun
  have hsum {c : Place → Nat} := sum_cloneSinks (c := c) hrun fromRing
  have hspread {c : Place → Nat} := weigh_spread (p := p) (c := c) hs
  rw [heq] at hsame ⊢
  -- towards a stack: one clone or the packet itself, or what the ring had
  have htow {q : Nat} (hq : q < P.nbQueues) :
      ((cloneSinks e fromRing).map (sinkWeight p (towardsAt q))).sum +
        sinkWeight p (towardsAt q) .stack = if fromRing then towardsAt q (.ring p) else 1 := by
    rw [hsum]
    change _ + (if P.kni.enable && P.owner p then 0 else 0) + (if p = q then 1 else 0) =
      if fromRing then (if p = q then 1 else 0) else 1
    rw [ite_self, add_zero]
    cases fromRing with
    | true => exact zero_add _
    | false =>
      have hrange := sum_range_one (p := p) (q := q) P.nbQueues
      have hrange' : ((range P.nbQueues).map fun j =>
          if j = p then 0 else towardsAt q (.ring j)).sum =
          if q < P.nbQueues ∧ q ≠ p then 1 else 0 := hrange
      rw [if_neg Bool.false_ne_true, if_neg Bool.false_ne_true, hrange']
      by_cases hpq : p = q
      · rw [if_neg fun h => h.2 hpq.symm, if_pos hpq]
      · rw [if_pos ⟨hq, fun h => hpq h.symm⟩, if_neg hpq]
  have hnone {c : Place → Nat} (hc : ∀ j, c (.ring j) = 0) :
      ((cloneSinks e fromRing).map (sinkWeight p c)).sum =
        if P.kni.enable && P.owner p then c .kni else 0 := by
    rw [hsum]
    have hzero : ((range P.nbQueues).map fun j => if j = p then 0 else c (.ring j)).sum = 0 := by
      rw [sum_eq_zero_iff, forall_mem_map]
      intro j _
      rw [hc, ite_self]
    rw [hzero, ite_self, zero_add]
  have hdone : (n.process p rest m (s.hand m .stack)).total P (ownerDone P m.origin) =
      n.total P (ownerDone P m.origin) + if P.owner p then 1 else 0 := by
    have h1 := hsame (a := 0) (c := ownerAt P)
    obtain ⟨hlow, hup, -⟩ := hspread (c := ownerAt P)
    have hz : (if P.kni.enable && P.owner p then ownerAt P .kni else 0) = 0 := ite_self 0
    have hr : (if fromRing then ownerAt P (.ring p) else 0) = 0 := ite_self 0
    have hst : sinkWeight p (ownerAt P) .stack = if P.owner p then 1 else 0 := rfl
    rw [hnone fun _ => rfl, hz] at hup
    unfold ownerDone
    omega
  refine ⟨?_, ?_, ?_, ?_⟩
  · intro q hq
    have h1 := hsame (a := 1) (c := towardsAt q)
    have h2 := (hspread (c := towardsAt q)).2.1
    rw [htow hq] at h2
    have h3 := hacc.towards_le q hq
    unfold towards at h3 ⊢
    omega
  · intro hl q hq
    have h1 := hsame (a := 1) (c := towardsAt q)
    have h2 := (hspread (c := towardsAt q)).2.2 (hl e hok) rfl
    rw [htow hq] at h2
    have h3 := hacc.towards_eq hl q hq
    unfold towards at h3 ⊢
    omega
  · have h1 := hsame (a := 0) (c := kniAt)
    have h2 := (hspread (c := kniAt)).2.1
    have hk : (if P.kni.enable && P.owner p then kniAt .kni else 0) ≤
        if P.owner p then 1 else 0 := by
      cases P.owner p with
      | true => cases P.kni.enable <;> decide
      | false => rw [Bool.and_false]; exact Nat.le_refl 0
    have hst : sinkWeight p kniAt .stack = 0 := rfl
    have h3 := hacc.kni_le
    rw [hnone fun _ => rfl] at h2
    unfold toKni at h3 ⊢
    omega
  · have h1 := hsame (a := 1) (c := fun _ => 0)
    have h2 := (hspread (c := fun _ => 0)).2.1
    have hz : (if P.kni.enable && P.owner p then 0 else 0) = 0 := ite_self 0
    have hst : sinkWeight p (fun _ => 0) .stack = 0 := rfl
    have h3 := hacc.clones_le
    have hmade := Nat.le_trans hs.made_le (Nat.add_le_add_left (length_cloneSinks hrun hp fromRing) _)
    have hclones : (n.process p rest m (s.hand m .stack)).clones m.origin =
        n.clones m.origin + s.made.length := update_self ..
    rw [hnone fun _ => rfl, hz] at h2
    unfold untouched at h3 ⊢
    have hstart : (St.start (n.cnt p)).made.length = 0 := rfl
    cases fromRing with
    | true =>
      rw [if_pos rfl] at h1 hmade
      have hu : (n.process p rest m (s.hand m .stack)).total P (weight m.origin 1 fun _ => 0) =
          n.total P (weight m.origin 1 fun _ => 0) := by omega
      rw [hu]
      omega
    | false =>
      rw [if_neg Bool.false_ne_true] at h1 hmade
      have hu : n.total P (weight m.origin 1 fun _ => 0) =
          (n.process p rest m (s.hand m .stack)).total P (weight m.origin 1 fun _ => 0) + 1 := by
        omega
      rw [hu, Nat.mul_add, mul_one] at h3
      omega

theorem inv_process (hinv : Inv P ok n) (hok : ok e) :
    Inv P ok (n.process p rest m (processPacket e fromRing i (.start (n.cnt p)) m)) := by
  have hmono {m' : Mbuf} (hm : n.Holds m') :
      (n.process p rest m (processPacket e fromRing i (.start (n.cnt p)) m)).Holds m' :=
    hm.mono ⟨[], (append_nil _).symm⟩
  have hheld : n.Holds m := hinv.todo p (fromRing, m) (by rw [htodo]; exact mem_cons_self)
  obtain ⟨m₀, hm₀, hcopy⟩ := hheld
  refine ⟨?_, fun q x hx => hmono (hinv.ring q x hx), ?_, ?_, ?_⟩
  · refine forall_mem_update (fun q x hx => hmono (hinv.todo q x hx)) fun x hx => ?_
    exact hmono (hinv.todo p x (by rw [htodo]; exact mem_cons_of_mem _ hx))
  · refine forall_mem_update (fun q x hx j hj => (hinv.out q x hx j hj).imp_left hmono)
      fun x hx j hj => ?_
    obtain ⟨horig, hring⟩ := processPacket_handoff hrun hx
    obtain ⟨hc, -, hj⟩ := hring j hj
    refine ⟨hmono ⟨m₀, ?_, hcopy.trans hc⟩, hj⟩
    rw [horig]
    exact hm₀
  · intro f hf
    have hne : m.origin ≠ f := by
      rintro rfl
      exact absurd (List.getElem?_eq_some_iff.mp hm₀).1 (not_lt.mpr hf)
    obtain ⟨h0, hc⟩ := hinv.absent f hf
    refine ⟨(total_process_other hp hout htodo hrun hne).trans h0, ?_⟩
    rw [← hc]
    exact update_of_ne (Ne.symm hne) _ _
  · intro f m' hf harp
    have hacc := hinv.accounted f m' hf harp
    by_cases hne : m.origin = f
    · subst hne
      cases hm₀.symm.trans hf
      exact accounted_process hp hout htodo hrun hok hacc (classify_copy harp hcopy)
    · exact hacc.congr (fun a c => total_process_other hp hout htodo hrun hne)
        (update_of_ne (Ne.symm hne) _ _)

end Process

/-- **The invariants hold in every interleaving.** -/
theorem reach_inv (h : Reach P ok n) : Inv P ok n := by
  induction h with
  | refl => exact inv_init
  | tail _ hstep ih =>
    cases hstep with
    | receive hq htodo hout horig => exact inv_receive ih hq htodo horig
    | dequeue hq htodo hout hk => exact inv_dequeue ih hq htodo _
    | process hq hout htodo hrun hok => exact inv_process hq hout htodo hrun ih hok
    | emit hq hout => exact inv_emit ih hq hout

/-! ## Once per stack -/

/-- How many of the packets come from the frame `f`. -/
def copies (f : Nat) (l : List Mbuf) : Nat := l.countP fun m => m.origin = f

/-- No copy of the frame `f` is still on its way. -/
def Settled (P : Port) (n : Net) (f : Nat) : Prop :=
  ∀ p < P.nbQueues, (∀ x ∈ n.todo p, x.2.origin ≠ f) ∧ (∀ h ∈ n.outbox p, h.pkt.origin ≠ f) ∧
    ∀ m ∈ n.ring p, m.origin ≠ f

theorem copies_eq_sum {w : Mbuf → Nat} (l : List Mbuf)
    (hw : ∀ m, w m = if m.origin = f then 1 else 0) : copies f l = (l.map w).sum := by
  induction l with
  | nil => rfl
  | cons m l ih =>
    unfold copies at ih ⊢
    rw [countP_cons, ih, map_cons, sum_cons, hw, add_comm]
    simp only [decide_eq_true_eq]

theorem weight_stack (q : Nat) (m : Mbuf) :
    towards q f (.stack q m) = if m.origin = f then 1 else 0 := by
  change (if m.origin = f then (if q = q then 1 else 0) else 0) = _
  rw [if_pos (rfl : q = q)]

theorem copies_stack_le (hq : q < P.nbQueues) : copies f (n.stack q) ≤ n.total P (towards q f) := by
  have h := le_load (w := fun q' m => towards q f (.stack q' m)) (s := n.stack)
    (Finset.mem_range.mpr hq)
  rw [copies_eq_sum (n.stack q) (weight_stack q)]
  unfold Net.total
  omega

theorem copies_stack_eq (hq : q < P.nbQueues) (hs : Settled P n f) :
    n.total P (towards q f) = copies f (n.stack q) := by
  have hstack : load (Finset.range P.nbQueues) (fun q' m => towards q f (.stack q' m)) n.stack =
      copies f (n.stack q) := by
    rw [load_eq_single (Finset.mem_range.mpr hq), copies_eq_sum (n.stack q) (weight_stack q)]
    intro j hj m _
    unfold towards weight
    split
    · exact if_neg hj
    · rfl
  have htodo : load (Finset.range P.nbQueues)
      (fun p x => towards q f (.todo p x.1 x.2)) n.todo = 0 :=
    load_eq_zero_iff.mpr fun p hp x hx => if_neg ((hs p (Finset.mem_range.mp hp)).1 x hx)
  have hout : load (Finset.range P.nbQueues) (fun p h => towards q f (.out p h)) n.outbox = 0 :=
    load_eq_zero_iff.mpr fun p hp x hx => if_neg ((hs p (Finset.mem_range.mp hp)).2.1 x hx)
  have hring : load (Finset.range P.nbQueues) (fun q' m => towards q f (.ring q' m)) n.ring = 0 :=
    load_eq_zero_iff.mpr fun p hp x hx => if_neg ((hs p (Finset.mem_range.mp hp)).2.2 x hx)
  have hkni : (n.kni.map fun m => towards q f (.kni m)).sum = 0 := by
    rw [sum_eq_zero_iff, forall_mem_map]
    exact fun m _ => ite_self 0
  unfold Net.total
  omega

theorem copies_kni_le : copies f n.kni ≤ n.total P (toKni f) := by
  rw [copies_eq_sum (w := fun m => toKni f (.kni m)) n.kni fun m => rfl]
  unfold Net.total
  omega

theorem nbQueues_pos (h : Reach P ok n) (hf : n.received[f]? = some m) : 0 < P.nbQueues := by
  cases h with
  | refl => cases hf
  | tail _ hstep =>
    cases hstep with
    | receive hq | dequeue hq | process hq | emit hq => exact Nat.zero_lt_of_lt hq

/-- If only the lcore of queue `o` can own the KNI, the owner's stack is that of `o`. -/
theorem ownerDone_le_towards {o : Nat} (ho : ∀ p < P.nbQueues, P.owner p → p = o) :
    n.total P (ownerDone P f) ≤ n.total P (towards o f) := by
  refine total_mono fun x hx => ?_
  have hplace {p : Nat} (hp : p < P.nbQueues) :
      ownerAt P (.stack p) ≤ towardsAt o (.stack p) := by
    change (if P.owner p then 1 else 0) ≤ if p = o then 1 else 0
    split
    next hown => rw [if_pos (ho p hp hown)]
    · exact Nat.zero_le _
  unfold ownerDone towards weight
  split
  · cases x with
    | todo p fromRing m => cases fromRing <;> exact Nat.zero_le _
    | out p h =>
      change (place p h.sink).elim 0 _ ≤ (place p h.sink).elim 0 _
      cases h.sink with
      | stack => exact hplace hx
      | ring j | kni | tx | free => exact Nat.zero_le _
    | ring p m | kni m => exact Nat.zero_le _
    | stack p m => exact hplace hx
  · exact Nat.zero_le _

/-- With at most one owner, its stack is given a frame at most once. -/
theorem ownerDone_le_one (hpos : 0 < P.nbQueues)
    (hone : ∀ q < P.nbQueues, ∀ q' < P.nbQueues, P.owner q → P.owner q' → q = q')
    (hacc : Accounted P ok n f) : n.total P (ownerDone P f) ≤ 1 := by
  by_cases hex : ∃ o < P.nbQueues, P.owner o
  · obtain ⟨o, ho, hown⟩ := hex
    exact Nat.le_trans (ownerDone_le_towards fun p hp hpo => hone p hp o ho hpo hown)
      (hacc.towards_le o ho)
  · exact Nat.le_trans (ownerDone_le_towards fun p hp hpo => absurd ⟨p, hp, hpo⟩ hex)
      (hacc.towards_le 0 hpos)

/-- **ARP and NDP frames.** In every interleaving of the lcores of a port, whatever fails, a frame
that `protocol_filter` takes for ARP or NDP is given to each stack at most once, and exactly once
when nothing fails and nothing is on its way any more; at most one copy goes to the KNI; what comes
from a ring is not fanned out; and there are at most `nb_queues + 1` copies. -/
theorem fanout_once (P : Port) (ok : Env → Prop)
    (hone : ∀ q < P.nbQueues, ∀ q' < P.nbQueues, P.owner q → P.owner q' → q = q')
    (n : Net) (h : Reach P ok n) (f : Nat) (m : Mbuf) (hf : n.received[f]? = some m)
    (harp : ArpOrNdp P.kni m.frame) :
    (∀ q < P.nbQueues, copies f (n.stack q) ≤ 1) ∧
    ((∀ e, ok e → Lossless e) → Settled P n f → ∀ q < P.nbQueues, copies f (n.stack q) = 1) ∧
    copies f n.kni ≤ 1 ∧
    (∀ q e, P.Runs q e → ∀ i cnt m', ∀ x ∈ (processPacket e true i (.start cnt) m').log,
      ∀ j, x.sink ≠ .ring j) ∧
    1 + n.clones f ≤ P.nbQueues + 1 := by
  have hacc := (reach_inv h).accounted f m hf harp
  have hpos := nbQueues_pos h hf
  have hown := ownerDone_le_one hpos hone hacc
  refine ⟨fun q hq => ?_, fun hl hs q hq => ?_, ?_, fun q e hrun i cnt m' x hx j hj => ?_, ?_⟩
  · exact Nat.le_trans (copies_stack_le hq) (hacc.towards_le q hq)
  · exact (copies_stack_eq hq hs).symm.trans (hacc.towards_eq hl q hq)
  · exact copies_kni_le.trans (hacc.kni_le.trans hown)
  · exact absurd ((processPacket_handoff hrun hx).2 j hj).2.1 nofun
  · have hclones := hacc.clones_le
    omega

/-! ## Two lcores -/

/-- Two queues in thread mode, the KNI being owned by the first lcore. -/
def twoQueues : Port where
  nbQueues := 2
  lcore := fun q => ⟨q, false, 0⟩
  ownerCfg := ⟨true, false, 0, 0⟩
  kni := ⟨true, [], []⟩

/-- The lcore of queue `q`, with nothing failing. -/
def smoothEnv (q : Nat) : Env where
  queueId := q
  nbQueues := 2
  lowWatermark := 0
  avail := fun _ => 0
  dispatcher := none
  filter := classify twoQueues.kni
  alloc := fun _ => some fun _ => 0#8
  ringOk := fun _ => true
  enableKni := true
  runtimeOwner := twoQueues.owner q
  ownerThread := false
  action := .default
  kniAccept := true
  consoleLimit := 0
  generalLimit := 0

theorem smoothEnv_runs (q : Nat) : twoQueues.Runs q (smoothEnv q) := ⟨rfl, rfl, rfl, rfl, rfl, rfl⟩

/-- The lcore of queue `q` processes its next packet. -/
def runPacket (n : Net) (q : Nat) : Net :=
  match n.todo q with
  | [] => n
  | (fromRing, m) :: rest =>
    n.process q rest m (processPacket (smoothEnv q) fromRing 0 (.start (n.cnt q)) m)

/-- The lcore of queue `q` hands the next packet over. -/
def handOver (n : Net) (q : Nat) : Net :=
  match n.outbox q with
  | [] => n
  | h :: rest => n.emit q h rest

theorem reach_runPacket (h : Reach twoQueues Lossless n) (hq : q < 2) (hout : n.outbox q = []) :
    Reach twoQueues Lossless (runPacket n q) := by
  unfold runPacket
  split
  · exact h
  next htodo =>
    exact h.tail (.process hq hout htodo (smoothEnv_runs q) ⟨fun _ => rfl, fun _ => rfl⟩)

theorem reach_handOver (h : Reach twoQueues Lossless n) (hq : q < 2) :
    Reach twoQueues Lossless (handOver n q) := by
  unfold handOver
  split
  · exact h
  next hout => exact h.tail (.emit hq hout)

theorem reach_receive (bufs : List Mbuf) (horig : bufs.map Mbuf.origin = range' 0 bufs.length) :
    Reach twoQueues Lossless (Net.init.receive 0 bufs) :=
  .single (.receive (by decide) rfl rfl horig)

theorem twoQueues_owner (p : Nat) (h : twoQueues.owner p = true) : p = 0 := beq_iff_eq.mp h

/-- A packet of one segment with the given bytes. -/
def framePkt (mem : Nat → FStack.Rss.Byte) : Mbuf where
  id := 0
  frame := ⟨mem, 86, by decide⟩
  rest := []
  pktLen := 86
  nbSegs := 1
  vlan := none
  headroom := 128
  origin := 0

/-- An ARP request to the broadcast address. -/
def arpMem : Nat → FStack.Rss.Byte
  | 0 | 1 | 2 | 3 | 4 | 5 => 0xff#8
  | 12 => 0x08#8
  | 13 => 0x06#8
  | _ => 0#8

/-- The ARP frame goes from queue 0 to its stack, to the KNI, and to queue 1 and its stack. -/
def arpRun : Net :=
  let n := runPacket (Net.init.receive 0 [framePkt arpMem]) 0
  let n := handOver (handOver (handOver n 0) 0) 0
  handOver (runPacket (n.dequeue 1 32) 1) 1

theorem arpRun_reach : Reach twoQueues Lossless arpRun := by
  have h0 := reach_receive [framePkt arpMem] rfl
  have h1 := reach_runPacket h0 (q := 0) (by decide) rfl
  have h2 := reach_handOver (reach_handOver (reach_handOver h1 (q := 0) (by decide)) (q := 0)
    (by decide)) (q := 0) (by decide)
  have h3 : Reach twoQueues Lossless (Net.dequeue _ 1 32) :=
    h2.tail (.dequeue (by decide) rfl rfl (Nat.le_refl 32))
  exact reach_handOver (reach_runPacket h3 (q := 1) (by decide) rfl) (q := 1) (by decide)

theorem arpRun_settled : Settled twoQueues arpRun 0 := by
  intro p hp
  have hcases : p = 0 ∨ p = 1 := by
    change p < 2 at hp
    omega
  rcases hcases with rfl | rfl <;> exact ⟨nofun, nofun, nofun⟩

theorem fanout_once_arpRun :
    Reach twoQueues Lossless arpRun ∧ Settled twoQueues arpRun 0 ∧
      (∀ q < 2, copies 0 (arpRun.stack q) = 1) ∧ copies 0 arpRun.kni ≤ 1 ∧
      1 + arpRun.clones 0 ≤ 3 := by
  have h := fanout_once twoQueues Lossless
    (fun q _ q' _ hq hq' => (twoQueues_owner q hq).trans (twoQueues_owner q' hq').symm)
    arpRun arpRun_reach 0 (framePkt arpMem) rfl ⟨by decide, .inl rfl⟩
  exact ⟨arpRun_reach, arpRun_settled, h.2.1 (fun _ he => he) arpRun_settled, h.2.2.1, h.2.2.2.2⟩

/-- A neighbour solicitation to a solicited-node multicast address. -/
def solicitMem : Nat → FStack.Rss.Byte
  | 0 | 1 => 0x33#8
  | 2 => 0xff#8
  | 12 => 0x86#8
  | 13 => 0xdd#8
  | 14 => 0x60#8
  | 19 => 32#8   -- payload length
  | 20 => 58#8   -- next header: ICMPv6
  | 21 => 255#8  -- hop limit
  | 54 => 135#8  -- neighbour solicitation
  | _ => 0#8

/-- A neighbor solicitation is received, processed and handed over once. -/
def solicitRun : Net :=
  handOver (runPacket (Net.init.receive 0 [framePkt solicitMem]) 0) 0

/-- The solicitation is a well-formed NDP frame, nothing fails and nothing is left to do, but the
stack of queue 1 was not given it: `protocol_filter` looks at the address before the protocol. -/
theorem multicast_ndp_not_spread :
    Reach twoQueues Lossless solicitRun ∧
      solicitRun.received[0]? = some (framePkt solicitMem) ∧
      (framePkt solicitMem).frame.etherType = 0x86DD ∧
      Std twoQueues.kni solicitMem (.ip .ipv6 14 72) .ndp ∧
      Settled twoQueues solicitRun 0 ∧ ¬copies 0 (solicitRun.stack 1) = 1 := by
  refine ⟨?_, rfl, by decide, ?_, ?_, by decide⟩
  · have h0 := reach_receive [framePkt solicitMem] rfl
    have h1 := reach_runPacket h0 (q := 0) (by decide) rfl
    exact reach_handOver h1 (q := 0) (by decide)
  · refine .ipv6 (by decide) ?_
    refine .upper rfl ?_
    have h : Std twoQueues.kni solicitMem (.payload 58 54 32) _ := .icmp6 (by decide)
    exact h
  · intro p hp
    have hcases : p = 0 ∨ p = 1 := by
      change p < 2 at hp
      omega
    rcases hcases with rfl | rfl <;> exact ⟨nofun, nofun, nofun⟩

end FStack.Rx
