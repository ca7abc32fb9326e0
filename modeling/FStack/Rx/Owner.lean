import FStack.Lib.Ledger
import FStack.Rx.Process

/-!
# Every received packet has one owner

`process_packets` (`lib/ff_dpdk_if.c:2071-2220`) has to pass every packet of a burst, and every
clone it makes, to exactly one taker, index `dispatch_ring` only at queues that exist, and queue an
answered packet with a `pkt_len` that is the sum of its segments (`OneOwner`).

Each function of the model passes on what it is given, whatever the allocations and the rings do
(`Passes`); the accounts are kept in the ledger of `FStack.Lib.Ledger`. What can go wrong comes from
the dispatcher: it may return an `int` below `FF_DISPATCH_RESPONSE`, which is neither an error nor a
queue, and it may answer a packet of several segments, whose further segments are then not counted.

Results:
* `processPackets_oneOwner_iff`: when each packet of a burst has one owner.
* `processPackets_not_oneOwner`: a dispatcher that returns -3, and one that answers a packet of two
  segments.
-/

namespace FStack.Rx

open FStack.Lib (Ledger)
open List FStack.Lib.Ledger

/-! ## What is wanted -/

/-- The mbufs the allocations from `a` up to `b` gave. -/
def taken (e : Env) (a b : Nat) : List Nat :=
  (List.range' a (b - a)).filter fun i => (e.alloc i).isSome

/-- Every packet and every clone has exactly one owner after `process_packets`. -/
structure OneOwner (e : Env) (cnt : Counters) (bufs : List Mbuf) (s : St) : Prop where
  /-- The packets passed on are those of the burst and the clones, each once. -/
  once : (s.log.map fun h => h.pkt.segIds).Perm (bufs.map Mbuf.segIds ++ s.made)
  /-- Every mbuf allocated is in one clone. -/
  built : s.made.flatten = taken e cnt.allocs s.cnt.allocs
  /-- `dispatch_ring[port_id]` is read at existing queues only. -/
  rings : ∀ q ∈ s.rings, 0 ≤ q ∧ q < e.nbQueues
  /-- A packet in a dispatch ring is in a ring that was so read. -/
  logged : ∀ h ∈ s.log, ∀ q, h.sink = .ring q → q ∈ s.rings
  /-- A packet answered in place has the length of its segments. -/
  answered : ∀ h ∈ s.log, h.sink = .tx → h.pkt.pktLen = h.pkt.dataLenSum

/-- After an answer that sets `len`, the further segments make up for what the first one lacks:
nothing, unless the VLAN tag takes `data_len` over 16 bits. -/
def AnswerFits (m : Mbuf) (len : Nat) : Prop :=
  m.restLen = if m.vlan.isSome ∧ 4 ≤ m.headroom ∧ 65536 ≤ len + 4 then 65536 else 0

/-- The dispatcher's answer for a packet is one `process_packets` can follow. -/
def AnswerFine (m : Mbuf) (ans : Answer) : Prop :=
  -2 ≤ ans.ret ∧ (ans.ret = -2 → AnswerFits m ans.frame.len)

/-- The dispatcher, if it is asked about the packet at place `i`, gives a fine answer. -/
def PacketFine (e : Env) (fromRing : Bool) (i : Nat) (m : Mbuf) : Prop :=
  fromRing = false → shedsSyn e fromRing i m = false → ∀ callback, e.dispatcher = some callback →
    AnswerFine m (callback i m)

/-! ## Passing packets on -/

/-- The packets that were made, and those that were handed over. -/
def St.ledger (s : St) : Ledger (List Nat) := ⟨↑s.made, ↑(s.log.map fun h => h.pkt.segIds)⟩

/-- The ring of each enqueue is one that was read in `dispatch_ring`. -/
def Logged (s : St) : Prop := ∀ h ∈ s.log, ∀ q, h.sink = .ring q → q ∈ s.rings

/-- Nothing wrong was done so far. -/
def Sound (e : Env) (s : St) : Prop :=
  (∀ q ∈ s.rings, 0 ≤ q ∧ q < e.nbQueues) ∧
    ∀ h ∈ s.log, h.sink = .tx → h.pkt.pktLen = h.pkt.dataLenSum

/-- From `s` to `s'` the code, which held the packets `a`, came to hold `b` and gave the others to
one owner each; it did nothing wrong iff `P`. -/
structure Passes (e : Env) (s s' : St) (a b : Multiset (List Nat)) (P : Prop) : Prop where
  moves : Moves s.ledger s'.ledger a b
  allocs_le : s.cnt.allocs ≤ s'.cnt.allocs
  built : s'.made.flatten = s.made.flatten ++ taken e s.cnt.allocs s'.cnt.allocs
  logged : Logged s → Logged s'
  sound : Sound e s' ↔ Sound e s ∧ P

variable {e : Env} {s s' s'' : St} {a b c : Multiset (List Nat)} {P Q : Prop} {j i : Nat} {k : Sink}

theorem taken_self (n : Nat) : taken e n n = [] := by
  unfold taken
  rw [Nat.sub_self]
  rfl

theorem taken_append {k : Nat} (hij : i ≤ j) (hjk : j ≤ k) :
    taken e i j ++ taken e j k = taken e i k := by
  unfold taken
  rw [← filter_append]
  congr 1
  have h := range'_append_1 (s := i) (m := j - i) (n := k - j)
  rw [Nat.add_sub_cancel' hij] at h
  rw [h]
  congr 1
  omega

theorem taken_succ (hij : i < j) :
    taken e i j = (if (e.alloc i).isSome then [i] else []) ++ taken e (i + 1) j := by
  rw [← taken_append (Nat.le_succ i) hij]
  congr 1
  unfold taken
  rw [Nat.succ_sub (Nat.le_refl i), Nat.sub_self, range'_one, filter_singleton]
  exact Bool.cond_eq_ite _ _ _

theorem passes_refl (a : Multiset (List Nat)) : Passes e s s a a True where
  moves := moves_refl _ _
  allocs_le := le_rfl
  built := by rw [taken_self, append_nil]
  logged := id
  sound := (and_iff_left trivial).symm

theorem Passes.trans (h : Passes e s s' a b P) (h' : Passes e s' s'' b c Q) :
    Passes e s s'' a c (P ∧ Q) where
  moves := h.moves.trans h'.moves
  allocs_le := h.allocs_le.trans h'.allocs_le
  built := by
    rw [h'.built, h.built, append_assoc, taken_append h.allocs_le h'.allocs_le]
  logged := h'.logged ∘ h.logged
  sound := by rw [h'.sound, h.sound, and_assoc]

theorem Passes.congr (h : Passes e s s' a b P) (hPQ : P ↔ Q) : Passes e s s' a b Q :=
  { h with sound := by rw [h.sound, hPQ] }

/-- A part that does nothing wrong, and what follows it. -/
theorem Passes.seq (h : Passes e s s' a b True) (h' : Passes e s' s'' b c Q) :
    Passes e s s'' a c Q :=
  (h.trans h').congr (by rw [true_and])

theorem Passes.frame (h : Passes e s s' a b P) (c : Multiset (List Nat)) :
    Passes e s s' (a + c) (b + c) P :=
  { h with moves := h.moves.frame c }

/-- A part that needs nothing, while a packet is held. -/
theorem Passes.beside (h : Passes e s s' 0 0 P) (a : Multiset (List Nat)) :
    Passes e s s' a a P := by
  have hf := h.frame a
  rwa [zero_add] at hf

section

variable (m : Mbuf)

theorem passes_hand (hk : ∀ q, k = .ring q → q ∈ s.rings) :
    Passes e s (s.hand m k) {m.segIds} 0 (k = .tx → m.pktLen = m.dataLenSum) where
  moves := by
    have hl : (s.hand m k).ledger = ⟨s.ledger.made, s.ledger.spent + {m.segIds}⟩ := by
      unfold St.ledger St.hand
      rw [map_append, ← Multiset.coe_add]
      rfl
    rw [hl]
    exact moves_spend _ _
  allocs_le := le_rfl
  built := by
    change _ = _ ++ taken e s.cnt.allocs s.cnt.allocs
    rw [taken_self, append_nil]
    rfl
  logged := by
    intro hs h hh
    rcases mem_append.mp hh with hh | hh
    · exact hs h hh
    · rw [mem_singleton.mp hh]
      exact hk
  sound := by
    unfold Sound St.hand
    rw [and_assoc]
    refine and_congr_right fun _ => ?_
    constructor
    · intro h
      exact ⟨fun x hx => h x (mem_append_left _ hx),
        h _ (mem_append_right _ (mem_singleton_self _))⟩
    · rintro ⟨hs, hm⟩ x hx
      rcases mem_append.mp hx with hx | hx
      · exact hs x hx
      · rw [mem_singleton.mp hx]
        exact hm

/-- A taker that is neither the transmit queue nor a dispatch ring. -/
theorem passes_give (hk : k = .stack ∨ k = .kni ∨ k = .free) :
    Passes e s (s.hand m k) {m.segIds} 0 True := by
  refine (passes_hand m fun q hq => ?_).congr (iff_true_intro fun htx => ?_)
  · rcases hk with rfl | rfl | rfl <;> cases hq
  · rcases hk with rfl | rfl | rfl <;> cases htx

theorem passes_setCnt (cnt : Counters) (hcnt : cnt.allocs = s.cnt.allocs)
    (a : Multiset (List Nat)) : Passes e s (s.setCnt cnt) a a True where
  moves := moves_refl _ _
  allocs_le := Nat.le_of_eq hcnt.symm
  built := by
    change _ = _ ++ taken e s.cnt.allocs cnt.allocs
    rw [hcnt, taken_self, append_nil]
    rfl
  logged := id
  sound := (and_iff_left trivial).symm

variable (a : Multiset (List Nat))

theorem passes_enq : Passes e s s.enq a a True := passes_setCnt _ (by rfl) a

theorem passes_drop : Passes e s (s.drop m) a a True :=
  passes_setCnt _ (by rfl) a

theorem passes_receive : Passes e s (s.receive m) a a True :=
  passes_setCnt _ (by rfl) a

theorem passes_readRing (q : Int) (a : Multiset (List Nat)) :
    Passes e s (s.readRing q) a a (0 ≤ q ∧ q < e.nbQueues) where
  moves := moves_refl _ _
  allocs_le := le_rfl
  built := by
    change _ = _ ++ taken e s.cnt.allocs s.cnt.allocs
    rw [taken_self, append_nil]
    rfl
  logged := fun hs h hh r hr => mem_append_left _ (hs h hh r hr)
  sound := by
    constructor
    · rintro ⟨hr, hl⟩
      exact ⟨⟨fun x hx => hr x (mem_append_left _ hx), hl⟩,
        hr q (mem_append_right _ (mem_singleton_self _))⟩
    · rintro ⟨⟨hr, hl⟩, hq⟩
      refine ⟨fun x hx => ?_, hl⟩
      rcases mem_append.mp hx with hx | hx
      · exact hr x hx
      · rw [mem_singleton.mp hx]
        exact hq

/-- A chain built from the allocations up to `n` is held from then on. -/
theorem passes_build {n : Nat} (hle : s.cnt.allocs ≤ n)
    (hids : m.segIds = taken e s.cnt.allocs n) : Passes e s (s.build n m) 0 {m.segIds} True where
  moves := by
    exact moves_make _ _
  allocs_le := hle
  built := by
    unfold St.build
    rw [flatten_append, ← hids, flatten_singleton]
  logged := id
  sound := (and_iff_left trivial).symm

end

/-! ## The parts of `process_packets` -/

theorem cloneSegs_taken (segs : List Seg) (n : Nat) :
    n ≤ (cloneSegs e n segs).2.2 ∧
      (cloneSegs e n segs).1.map Seg.id = taken e n (cloneSegs e n segs).2.2 := by
  induction segs generalizing n with
  | nil => exact ⟨le_rfl, (taken_self n).symm⟩
  | cons seg segs ih =>
    unfold cloneSegs
    cases halloc : e.alloc n with
    | none =>
      refine ⟨Nat.le_succ n, ?_⟩
      rw [taken_succ (Nat.lt_succ_self n), halloc, taken_self]
      rfl
    | some buf =>
      obtain ⟨hle, hids⟩ := ih (n + 1)
      refine ⟨Nat.le_of_succ_le hle, ?_⟩
      rw [taken_succ hle, halloc, map_cons, hids]
      rfl

/-- The packet that the loop still holds. -/
def heldBy : Option Mbuf → Multiset (List Nat)
  | none => 0
  | some m => {m.segIds}

section

variable (m : Mbuf)

theorem passes_pktmbufDeepClone :
    Passes e s (pktmbufDeepClone e s m).2 0 (heldBy (pktmbufDeepClone e s m).1) True := by
  unfold pktmbufDeepClone
  dsimp only
  cases halloc : e.alloc s.cnt.allocs with
  | none =>
    refine ⟨moves_refl _ _, Nat.le_succ _, ?_, id, (and_iff_left trivial).symm⟩
    unfold St.ask St.setCnt
    rw [taken_succ (Nat.lt_succ_self _), halloc, taken_self]
    exact (append_nil _).symm
  | some buf =>
    obtain ⟨hle, hids⟩ := cloneSegs_taken (e := e) m.rest (s.cnt.allocs + 1)
    have hchain : s.cnt.allocs :: (cloneSegs e (s.cnt.allocs + 1) m.rest).1.map Seg.id =
        taken e s.cnt.allocs (cloneSegs e (s.cnt.allocs + 1) m.rest).2.2 := by
      rw [taken_succ hle, halloc, hids]
      rfl
    dsimp only
    split
    · exact passes_build _ (Nat.le_of_succ_le hle) (by exact hchain)
    · exact (passes_build _ (Nat.le_of_succ_le hle) (by exact hchain)).seq
        (passes_give _ (.inr (.inr rfl)))

theorem passes_dispatchEnqueue (q : Int) :
    Passes e s (dispatchEnqueue e s m q) {m.segIds} 0 (0 ≤ q ∧ q < e.nbQueues) := by
  unfold dispatchEnqueue
  dsimp only
  refine ((passes_readRing q _).trans ((passes_enq _).seq (Q := True) ?_)).congr
    (and_iff_left trivial)
  split
  · refine (passes_hand m (k := .ring q) fun r hr => ?_).congr (iff_true_intro nofun)
    cases hr
    exact mem_append_right _ (mem_singleton_self _)
  · exact (passes_drop m _).seq (passes_give m (.inr (.inr rfl)))

@[simp] theorem ffAddVlanTag_segIds : (ffAddVlanTag m).segIds = m.segIds := by
  unfold ffAddVlanTag
  split
  · rfl
  · split <;> rfl

theorem kniRateLimit_allocs (cnt : Counters) (filter : FilterReturn) :
    (kniRateLimit e cnt filter).2.allocs = cnt.allocs := by
  unfold kniRateLimit
  split <;> split <;> rfl

theorem passes_kniError : Passes e s (kniError e s m) {m.segIds} 0 True := by
  unfold kniError
  split
  · have hcount : Passes e s (s.setCnt { s.cnt with kniDropped := s.cnt.kniDropped + 1 })
        {m.segIds} {m.segIds} True := passes_setCnt _ (by rfl) _
    exact hcount.seq (passes_give m (.inr (.inr rfl)))
  · exact passes_give m (.inr (.inr rfl))

theorem passes_ffKniEnqueue (filter : FilterReturn) (m : Mbuf) :
    Passes e s (ffKniEnqueue e s filter m) {m.segIds} 0 True := by
  unfold ffKniEnqueue
  dsimp only
  refine (passes_setCnt _ (kniRateLimit_allocs (e := e) s.cnt filter) _).seq ?_
  split
  · refine (passes_enq _).seq ?_
    split
    · exact passes_give m (.inr (.inl rfl))
    · exact passes_kniError m
  · exact passes_kniError m

/-- A queue the loop visits exists. -/
theorem passes_fanOne (hj : j < e.nbQueues) : Passes e s (fanOne e m s j) 0 0 True := by
  unfold fanOne
  split
  · exact passes_refl 0
  · have hclone := passes_pktmbufDeepClone (e := e) (s := s) m
    split
    next heq =>
      rw [heq] at hclone
      exact hclone
    next heq =>
      rw [heq] at hclone
      refine hclone.seq ((passes_dispatchEnqueue _ _).congr (iff_true_intro ?_))
      exact ⟨Int.natCast_nonneg j, Int.ofNat_lt.mpr hj⟩

theorem passes_fanOut : Passes e s (fanOut e s m) 0 0 True := by
  have key : ∀ (js : List Nat) (s : St), (∀ j ∈ js, j < e.nbQueues) →
      Passes e s (js.foldl (fanOne e m) s) 0 0 True := by
    intro js
    induction js with
    | nil => exact fun s _ => passes_refl 0
    | cons j js ih =>
      intro s hjs
      exact (passes_fanOne m (hjs j mem_cons_self)).seq
        (ih _ fun i hi => hjs i (mem_cons_of_mem _ hi))
  exact key _ s fun j hj => mem_range.mp hj

theorem passes_kniCopy (filter : FilterReturn) (m : Mbuf) :
    Passes e s (kniCopy e s filter m) 0 0 True := by
  have hclone := passes_pktmbufDeepClone (e := e) (s := s) m
  unfold kniCopy
  split
  next heq =>
    rw [heq] at hclone
    exact hclone
  next mc _ heq =>
    rw [heq] at hclone
    have henq := passes_ffKniEnqueue (e := e) (s := (pktmbufDeepClone e s m).2) filter
      (ffAddVlanTag mc)
    rw [heq, ffAddVlanTag_segIds] at henq
    exact hclone.seq henq

/-! ## A packet and a burst -/

theorem passes_deliver (fromRing : Bool) (m : Mbuf) (fr : Frame) :
    Passes e s (deliver e fromRing s m fr) {m.segIds} 0 True := by
  have hstack (t : St) : Passes e t (t.hand m .stack) {m.segIds} 0 True := passes_give m (.inl rfl)
  have hkni : Passes e s (ffKniEnqueue e s (e.filter fr) (ffAddVlanTag m)) {m.segIds} 0 True := by
    rw [← ffAddVlanTag_segIds m]
    exact passes_ffKniEnqueue _ _
  unfold deliver
  dsimp only
  split
  · have hfan : Passes e s (if fromRing then s else fanOut e s m) 0 0 True := by
      split
      · exact passes_refl 0
      · exact passes_fanOut m
    generalize (if fromRing then s else fanOut e s m) = t at hfan ⊢
    have hcopy : Passes e t
        (if e.enableKni && e.runtimeOwner then kniCopy e t (e.filter fr) m else t) 0 0 True := by
      split
      · exact passes_kniCopy _ m
      · exact passes_refl 0
    exact (hfan.beside _).seq ((hcopy.beside _).seq (hstack _))
  · split
    · split
      · exact hkni
      · exact hstack s
      · split
        · exact hkni
        · exact hstack s
      · exact hstack s
    · exact hstack s

theorem answerFits_iff (fr : Frame) :
    (ffAddVlanTag (setLen m fr)).pktLen = (ffAddVlanTag (setLen m fr)).dataLenSum ↔
      AnswerFits m fr.len := by
  have hlen := fr.len_lt
  unfold ffAddVlanTag AnswerFits Mbuf.dataLenSum Mbuf.restLen setLen
  cases m.vlan with
  | none =>
    rw [if_neg fun h => by cases h.1]
    exact ⟨fun h => by dsimp only at h; omega, fun h => by dsimp only; omega⟩
  | some tci =>
    dsimp only
    by_cases hroom : m.headroom < 4
    · rw [if_pos hroom, if_neg fun h => by omega]
      exact ⟨fun h => by dsimp only at h; omega, fun h => by dsimp only; omega⟩
    · rw [if_neg hroom]
      dsimp only
      by_cases hwrap : 65536 ≤ fr.len + 4
      · rw [if_pos ⟨rfl, by omega, hwrap⟩]
        omega
      · rw [if_neg fun h => hwrap h.2.2, Nat.mod_eq_of_lt (not_le.mp hwrap)]
        omega

theorem passes_dispatch (ans : Answer) :
    Passes e s (dispatch e s m ans) {m.segIds} 0 (AnswerFine m ans) := by
  unfold dispatch AnswerFine
  split
  next hret =>
    rw [show m.segIds = (ffAddVlanTag (setLen { m with
      frame := { m.frame with mem := ans.frame.mem } } ans.frame)).segIds by
        rw [ffAddVlanTag_segIds]; rfl]
    refine (passes_hand _ (k := .tx) nofun).congr ?_
    rw [answerFits_iff]
    constructor
    · intro h
      exact ⟨by rw [hret], fun _ => h rfl⟩
    · exact fun h _ => h.2 hret
  next hret =>
    have hfine : (-2 ≤ ans.ret ∧ (ans.ret = -2 → AnswerFits m ans.frame.len)) ↔ -2 ≤ ans.ret :=
      and_iff_left fun h => absurd h hret
    split
    · refine (passes_give _ (.inr (.inr rfl))).congr (iff_of_true trivial (hfine.mpr ?_))
      omega
    · split
      · refine (passes_dispatchEnqueue _ _).congr ?_
        omega
      · refine (passes_deliver _ _ _).congr (iff_of_true trivial (hfine.mpr ?_))
        omega

end

theorem passes_processPacket (fromRing : Bool) (i : Nat) (m : Mbuf) :
    Passes e s (processPacket e fromRing i s m) {m.segIds} 0 (PacketFine e fromRing i m) := by
  unfold processPacket PacketFine
  split
  next hshed =>
    refine ((passes_drop m _).seq (passes_give m (.inr (.inr rfl)))).congr ?_
    exact iff_of_true trivial fun _ h => absurd hshed (Bool.eq_false_iff.mp h)
  next hshed =>
    split
    next hring =>
      refine (passes_deliver _ _ _).congr (iff_of_true trivial fun h => ?_)
      rw [hring] at h
      cases h
    next hring =>
      refine (passes_receive m _).seq ?_
      cases hdisp : e.dispatcher with
      | none =>
        refine (passes_deliver _ _ _).congr (iff_of_true trivial ?_)
        intro _ _ callback h
        cases h
      | some callback =>
        refine (passes_dispatch m (callback i m)).congr ⟨?_, fun h => ?_⟩
        · intro h _ _ cb hcb
          cases hcb
          exact h
        · exact h (Bool.eq_false_iff.mpr hring) (Bool.eq_false_iff.mpr hshed) callback rfl

theorem passes_foldl (fromRing : Bool) (ps : List (Mbuf × Nat)) (s : St) :
    Passes e s (ps.foldl (fun s p => processPacket e fromRing p.2 s p.1) s)
      ↑(ps.map fun p => p.1.segIds) 0 (∀ p ∈ ps, PacketFine e fromRing p.2 p.1) := by
  induction ps generalizing s with
  | nil => exact (passes_refl 0).congr (iff_of_true trivial nofun)
  | cons p ps ih =>
    have hp := (passes_processPacket (e := e) (s := s) fromRing p.2 p.1).frame
      ↑(ps.map fun p => p.1.segIds)
    refine (hp.trans (ih _)).congr ?_
    rw [forall_mem_cons]

/-- **A burst.** Whatever the allocations, the rings, the filter and the KNI settings do, every
packet and every clone has exactly one owner iff the dispatcher's answers are ones `process_packets`
can follow. -/
theorem processPackets_oneOwner_iff (e : Env) (fromRing : Bool) (cnt : Counters)
    (bufs : List Mbuf) :
    OneOwner e cnt bufs (processPackets e fromRing (.start cnt) bufs) ↔
      ∀ p ∈ bufs.zipIdx, PacketFine e fromRing p.2 p.1 := by
  have h := passes_foldl (e := e) fromRing bufs.zipIdx (.start cnt)
  have hstart : Sound e (.start cnt) := ⟨nofun, nofun⟩
  have hmap : bufs.zipIdx.map (fun p => p.1.segIds) = bufs.map Mbuf.segIds := by
    rw [← zipIdx_map_fst 0 bufs, map_map, zipIdx_map_fst]
    rfl
  have hsound := h.sound.trans (and_iff_right hstart)
  constructor
  · exact fun ho => hsound.mp ⟨ho.rings, ho.answered⟩
  · intro hfine
    obtain ⟨hrings, hanswered⟩ := hsound.mpr hfine
    refine ⟨?_, h.built, hrings, h.logged nofun, hanswered⟩
    have hmoves := Moves.total h.moves
    rw [hmap, add_zero, St.ledger] at hmoves
    exact Multiset.coe_eq_coe.mp (hmoves.trans (Multiset.coe_add _ _))

/-- Queue 0 of two, with a dispatcher that always returns `ret` and sets `len` to 60. -/
def sampleEnv (ret : Int) : Env where
  queueId := 0
  nbQueues := 2
  lowWatermark := 0
  avail := fun _ => 0
  dispatcher := some fun _ m => ⟨ret, m.frame.mem, 60, by decide⟩
  filter := fun _ => .unknown
  alloc := fun _ => none
  ringOk := fun _ => true
  enableKni := false
  runtimeOwner := false
  ownerThread := false
  action := .default
  kniAccept := false
  consoleLimit := 0
  generalLimit := 0

/-- A packet of 60 bytes and a further segment of 40. -/
def samplePkt : Mbuf where
  id := 0
  frame := ⟨fun _ => 0#8, 60, by decide⟩
  rest := [⟨1, 40⟩]
  pktLen := 100
  nbSegs := 2
  vlan := none
  headroom := 128
  origin := 0

/-- Counters after two packets. -/
def sampleCnt : Counters := ⟨2, 0, 0, 0, 0, 0, 0, 0⟩

theorem processPackets_not_oneOwner :
    ¬ OneOwner (sampleEnv (-3)) sampleCnt [samplePkt]
        (processPackets (sampleEnv (-3)) false (.start sampleCnt) [samplePkt]) ∧
      ¬ OneOwner (sampleEnv (-2)) sampleCnt [samplePkt]
        (processPackets (sampleEnv (-2)) false (.start sampleCnt) [samplePkt]) := by
  constructor
  · intro h
    have hring : (processPackets (sampleEnv (-3)) false (.start sampleCnt) [samplePkt]).rings =
        [-3] := rfl
    have hrange := (h.rings (-3) (by rw [hring]; exact mem_singleton_self _)).1
    exact absurd hrange (by decide)
  · intro h
    have hlog : (processPackets (sampleEnv (-2)) false (.start sampleCnt) [samplePkt]).log =
        [⟨setLen samplePkt ⟨samplePkt.frame.mem, 60, by decide⟩, .tx⟩] := rfl
    have hlen := h.answered _ (by rw [hlog]; exact mem_singleton_self _) rfl
    exact absurd hlen (by decide)

end FStack.Rx
