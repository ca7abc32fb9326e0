import FStack.Zc.Write

/-!
# Reading a zero-copy chain

Model of `ff_zc_mbuf_read`, `ff_zc_mbuf_segment` and `ff_zc_recv_free` (`lib/ff_veth.c:388-463`). An
application that has received a chain takes the data out in pieces: `ff_zc_mbuf_read` copies, across
mbufs, and `ff_zc_mbuf_segment` returns a pointer to the data of one mbuf. Both move the same
cursor, an mbuf and an offset in it. A read that returns less than was asked for, and a segment of
length 0, tell the application that there is nothing left.

`ff_zc_mbuf_segment` passes over the offset: it returns all data of the mbuf, also those that were
read. And it returns 0 for an mbuf without data, wherever it is in the chain.

Results:
* `deliversRight_iff`: all bytes are delivered once, and the end is not told too early, for all
  contents of the chain, iff every segment is asked for at the start of an mbuf that has data, or
  behind the last one that has; `deliversRight_not`: two chains.
-/

namespace FStack.Zc

open List FStack.Lib.Run

/-! ## The functions -/

/-- The loop of `ff_zc_mbuf_read` over the mbufs from the cursor on, at `moff` in the first of them:
the bytes, how far the cursor moves, and `moff`. -/
def readLoop : List Mbuf → Nat → Nat → List Byte × Nat × Nat
  | [], moff, _ => ([], 0, moff)
  | _ :: _, moff, 0 => ([], 0, moff)
  | mb :: rest, moff, want + 1 =>
    let length := min (mb.data.length - moff) (want + 1)
    let bytes := (mb.data.drop moff).take length
    if mb.data.length ≤ moff + length then
      let r := readLoop rest 0 (want + 1 - length)
      (bytes ++ r.1, r.2.1 + 1, r.2.2)
    -- nothing more is wanted
    else (bytes, 0, moff + length)

section

variable (z : ZcMbuf)

/-- `ff_zc_mbuf_read`: the bytes copied to `data`, and the result. -/
def ffZcMbufRead (len : Int) : ZcMbuf × List Byte × Int :=
  if len ≤ 0 then (z, [], -1)
  else
    let r := readLoop (z.chain.drop z.cursor) z.off.toNat len.toNat
    ({ z with cursor := z.cursor + r.2.1, off := r.2.2 }, r.1, r.1.length)

/-- `ff_zc_mbuf_segment`: the bytes of the segment, and the result. -/
def ffZcMbufSegment : ZcMbuf × List Byte × Int :=
  match z.chain.drop z.cursor with
  | [] => (z, [], 0)
  | mb :: _ => ({ z with cursor := z.cursor + 1, off := 0 }, mb.data, mb.data.length)

/-- `ff_zc_recv_free`, and the chain it frees. -/
def ffZcRecvFree : ZcMbuf × Option (List Mbuf) :=
  if z.chain = [] then (z, none)
  else (⟨[], 0, 0, 0, 0⟩, some z.chain)

/-! ## Taking the data out -/

/-- The two ways to get at the data. -/
inductive Access where
  | read (len : Int)
  | segment

/-- A call: what it delivers, and whether it tells that there is nothing left. -/
def access : Access → ZcMbuf × List Byte × Bool
  | .read len =>
    let r := ffZcMbufRead z len
    (r.1, r.2.1, 0 < len && r.2.2 < len)
  | .segment =>
    let r := ffZcMbufSegment z
    (r.1, r.2.1, r.2.2 == 0)

/-- Calls in order, and what they deliver. -/
def accessAll (ops : List Access) : ZcMbuf × List Byte :=
  ops.foldl (fun s op => ((access s.1 op).1, s.2 ++ (access s.1 op).2.1)) (z, [])

end

/-- What some calls of `ff_zc_recv_free` free. -/
def freeAll : Nat → ZcMbuf → List (List Mbuf)
  | 0, _ => []
  | k + 1, z => (ffZcRecvFree z).2.toList ++ freeAll k (ffZcRecvFree z).1

section

variable (chain : List Mbuf)

/-- What `ff_zc_recv` hands out. -/
def received : ZcMbuf :=
  ⟨chain, (bytesOf chain).length, 0, 0, (bytesOf chain).length⟩

/-- What is delivered is the beginning of the data, all of them when a call tells so, and the chain
is freed once afterwards, however often this is asked for. -/
structure DeliversRight (ops : List Access) : Prop where
  bytes : ∀ pre op post, ops = pre ++ op :: post →
    (accessAll (received chain) (pre ++ [op])).2 <+: bytesOf chain
  told : ∀ pre op post, ops = pre ++ op :: post →
    (access (accessAll (received chain) pre).1 op).2.2 = true →
    (accessAll (received chain) (pre ++ [op])).2 = bytesOf chain
  free : ∀ k, freeAll (k + 1) (accessAll (received chain) ops).1 =
    if chain = [] then [] else [chain]

/-- The cursor is at the start of an mbuf that has data, or nothing is left. -/
def AtStart (z : ZcMbuf) : Prop :=
  ∀ mb rest, z.chain.drop z.cursor = mb :: rest → z.off = 0 ∧ (mb.data ≠ [] ∨ bytesOf rest = [])

/-- Every segment is asked for at such a place. -/
def SegmentsAtStart (ops : List Access) : Prop :=
  ∀ pre post, ops = pre ++ .segment :: post → AtStart (accessAll (received chain) pre).1

/-! ## A read -/

theorem bytesOf_cons (mb : Mbuf) (rest : List Mbuf) :
    bytesOf (mb :: rest) = mb.data ++ bytesOf rest := flatMap_cons

/-- The offset is in the first mbuf. -/
def Inside (moff : Nat) : List Mbuf → Prop
  | [] => True
  | mb :: _ => moff = 0 ∨ moff < mb.data.length

theorem inside_zero : ∀ rest : List Mbuf, Inside 0 rest
  | [] => trivial
  | _ :: _ => .inl rfl

/-- A read delivers what comes next, and the cursor goes behind it. -/
theorem readLoop_spec : ∀ (rest : List Mbuf) (moff want : Nat), Inside moff rest →
    (readLoop rest moff want).1 = ((bytesOf rest).drop moff).take want ∧
    (bytesOf (rest.drop (readLoop rest moff want).2.1)).drop (readLoop rest moff want).2.2 =
      ((bytesOf rest).drop moff).drop want ∧
    Inside (readLoop rest moff want).2.2 (rest.drop (readLoop rest moff want).2.1)
  | [], moff, want, _ => by simp [readLoop, bytesOf, Inside]
  | mb :: rest, moff, 0, h => by
    exact ⟨take_zero.symm, rfl, h⟩
  | mb :: rest, moff, want + 1, h => by
    have hmoff : moff ≤ mb.data.length := by
      rcases h with h | h <;> omega
    have hdrop : (bytesOf (mb :: rest)).drop moff = mb.data.drop moff ++ bytesOf rest := by
      rw [bytesOf_cons, drop_append_of_le_length hmoff]
    unfold readLoop
    dsimp only
    rw [hdrop]
    split
    · -- the mbuf is read to its end
      have hlen : min (mb.data.length - moff) (want + 1) = mb.data.length - moff := by omega
      rw [hlen]
      obtain ⟨hbytes, hrest, hinside⟩ :=
        readLoop_spec rest 0 (want + 1 - (mb.data.length - moff)) (inside_zero rest)
      have hall : (mb.data.drop moff).take (mb.data.length - moff) = mb.data.drop moff := by
        rw [← length_drop, take_length]
      have hle : (mb.data.drop moff).length ≤ want + 1 := by
        rw [length_drop]
        omega
      refine ⟨?_, ?_, hinside⟩
      · rw [hall, hbytes, drop_zero, take_append, take_of_length_le hle, length_drop]
      · rw [drop_succ_cons, hrest, drop_zero, drop_append,
          drop_of_length_le hle, length_drop, nil_append]
    next hend =>
      have hlen : min (mb.data.length - moff) (want + 1) = want + 1 := by omega
      rw [hlen] at hend ⊢
      have hlt : want + 1 ≤ (mb.data.drop moff).length := by
        rw [length_drop]
        omega
      dsimp only
      refine ⟨?_, ?_, .inr (by omega)⟩
      · rw [take_append_of_le_length hlt]
      · rw [drop_zero, bytesOf_cons, drop_append_of_le_length (by omega),
          drop_append_of_le_length hlt, drop_drop]

/-! ## What is left -/

/-- What was delivered and what is left are the data of the chain. -/
structure Left (out : List Byte) (z : ZcMbuf) : Prop where
  same : z.chain = chain
  off : 0 ≤ z.off
  inside : Inside z.off.toNat (z.chain.drop z.cursor)
  bytes : out ++ (bytesOf (z.chain.drop z.cursor)).drop z.off.toNat = bytesOf chain

end

variable {chain : List Mbuf} {out : List Byte} {z : ZcMbuf} {ops : List Access}

theorem left_received (chain : List Mbuf) : Left chain [] (received chain) where
  same := rfl
  off := Int.le_refl _
  inside := inside_zero _
  bytes := rfl

/-- A read. -/
theorem left_read (h : Left chain out z) (len : Int) :
    Left chain (out ++ (access z (.read len)).2.1) (access z (.read len)).1 ∧
      ((access z (.read len)).2.2 = true → out ++ (access z (.read len)).2.1 = bytesOf chain) := by
  unfold access ffZcMbufRead
  by_cases hlen : len ≤ 0
  · simp only [if_pos hlen, append_nil]
    exact ⟨h, fun htold => absurd htold (by simp [Int.not_lt.mpr hlen])⟩
  · simp only [if_neg hlen]
    obtain ⟨hbytes, hrest, hinside⟩ :=
      readLoop_spec (z.chain.drop z.cursor) z.off.toNat len.toNat h.inside
    have hout := h.bytes
    generalize readLoop (z.chain.drop z.cursor) z.off.toNat len.toNat = r at hbytes hrest hinside ⊢
    rw [drop_drop] at hrest hinside
    refine ⟨⟨h.same, Int.natCast_nonneg _, ?_, ?_⟩, fun htold => ?_⟩
    · exact hinside
    · rw [Int.toNat_natCast, hrest, hbytes, append_assoc, take_append_drop]
      exact hout
    · have hshort : r.1.length < len.toNat := by
        simp only [Bool.and_eq_true, decide_eq_true_eq] at htold
        omega
      rw [hbytes, length_take] at hshort
      rw [hbytes, take_of_length_le (by omega)]
      exact hout

/-- A segment that is asked for at the start of an mbuf. -/
theorem left_segment (h : Left chain out z) (hstart : AtStart z) :
    Left chain (out ++ (access z .segment).2.1) (access z .segment).1 ∧
      ((access z .segment).2.2 = true → out ++ (access z .segment).2.1 = bytesOf chain) := by
  have hbytes := h.bytes
  unfold access ffZcMbufSegment
  dsimp only
  split
  next hend =>
    rw [hend] at hbytes
    simp only [append_nil]
    refine ⟨h, fun _ => ?_⟩
    simpa [bytesOf] using hbytes
  next mb rest hcur =>
    obtain ⟨hoff, hdata⟩ := hstart mb rest hcur
    have hdrop : z.chain.drop (z.cursor + 1) = rest := by
      rw [← drop_drop, hcur]
      rfl
    rw [hcur, hoff, bytesOf_cons] at hbytes
    refine ⟨⟨h.same, Int.le_refl _, ?_, ?_⟩, fun htold => ?_⟩
    · exact inside_zero _
    · rw [hdrop, append_assoc]
      exact hbytes
    · have hnil : mb.data = [] := by simpa using htold
      rcases hdata with hdata | hdata
      · exact absurd hnil hdata
      · rw [hdata, append_nil] at hbytes
        exact hbytes

/-! ## Sequences of calls -/

theorem accessAll_snoc (z : ZcMbuf) (pre : List Access) (op : Access) :
    accessAll z (pre ++ [op]) = ((access (accessAll z pre).1 op).1,
      (accessAll z pre).2 ++ (access (accessAll z pre).1 op).2.1) := by
  unfold accessAll
  rw [foldl_append]
  rfl

theorem left_access (h : Left chain out z) (op : Access) (hstart : op = .segment → AtStart z) :
    Left chain (out ++ (access z op).2.1) (access z op).1 ∧
      ((access z op).2.2 = true → out ++ (access z op).2.1 = bytesOf chain) := by
  cases op with
  | read len => exact left_read h len
  | segment => exact left_segment h (hstart rfl)

theorem left_run (h : SegmentsAtStart chain ops) :
    Left chain (accessAll (received chain) ops).2 (accessAll (received chain) ops).1 := by
  induction ops using reverseRecOn with
  | nil => exact left_received chain
  | append_singleton ops op ih =>
    have hops : SegmentsAtStart chain ops := fun pre post hpre =>
      h pre (post ++ [op]) (by rw [hpre, append_assoc]; rfl)
    rw [accessAll_snoc]
    exact (left_access (ih hops) op fun hop => h ops [] (by rw [hop])).1

theorem chain_access (z : ZcMbuf) (op : Access) : (access z op).1.chain = z.chain := by
  cases op with
  | read len =>
    unfold access ffZcMbufRead
    dsimp only
    split <;> rfl
  | segment =>
    unfold access ffZcMbufSegment
    dsimp only
    split <;> rfl

theorem chain_accessAll (z : ZcMbuf) (ops : List Access) : (accessAll z ops).1.chain = z.chain := by
  induction ops using reverseRecOn with
  | nil => rfl
  | append_singleton ops op ih => rw [accessAll_snoc, chain_access, ih]

theorem freeAll_nil (k : Nat) (hz : z.chain = []) : freeAll k z = [] := by
  induction k with
  | zero => rfl
  | succ k ih =>
    have hfree : ffZcRecvFree z = (z, none) := if_pos hz
    rw [freeAll, hfree, ih]
    rfl

/-- The chain is freed once, however often it is freed. -/
theorem freeAll_eq (k : Nat) (z : ZcMbuf) :
    freeAll (k + 1) z = if z.chain = [] then [] else [z.chain] := by
  by_cases hz : z.chain = []
  · rw [if_pos hz, freeAll_nil _ hz]
  · have hfree : ffZcRecvFree z = (⟨[], 0, 0, 0, 0⟩, some z.chain) := if_neg hz
    rw [if_neg hz, freeAll, hfree, freeAll_nil k rfl]
    rfl

theorem deliversRight_of_segmentsAtStart (h : SegmentsAtStart chain ops) :
    DeliversRight chain ops := by
  have hstep : ∀ pre op post, ops = pre ++ op :: post →
      Left chain (accessAll (received chain) pre).2 (accessAll (received chain) pre).1 ∧
        (op = .segment → AtStart (accessAll (received chain) pre).1) := by
    intro pre op post hops
    refine ⟨left_run fun p p' hp => ?_, fun hop => ?_⟩
    · exact h p (p' ++ op :: post) (by rw [hops, hp, append_assoc]; rfl)
    · subst hop
      exact h pre post hops
  refine ⟨fun pre op post hops => ?_, fun pre op post hops htold => ?_, fun k => ?_⟩
  · obtain ⟨hleft, hstart⟩ := hstep pre op post hops
    have hnext := (left_access hleft op hstart).1.bytes
    rw [accessAll_snoc]
    exact ⟨_, hnext⟩
  · obtain ⟨hleft, hstart⟩ := hstep pre op post hops
    rw [accessAll_snoc]
    exact (left_access hleft op hstart).2 htold
  · rw [freeAll_eq, chain_accessAll]
    rfl

/-! ## The contents of the chain -/

/-- Bytes of which only the first is set. -/
def stampBytes : Nat → List Byte
  | 0 => []
  | n + 1 => 1 :: List.replicate n 0

/-- An mbuf of the same length, in which only the first byte is set. -/
def stamp (mb : Mbuf) : Mbuf := ⟨stampBytes mb.data.length, 0⟩

theorem length_stamp (mb : Mbuf) : (stamp mb).data.length = mb.data.length := by
  change (stampBytes mb.data.length).length = _
  cases mb.data.length with
  | zero => rfl
  | succ n => exact congrArg (· + 1) length_replicate

/-- The bytes do not go on as they begin. -/
theorem stampBytes_ne {n k : Nat} (hk : k ≠ 0) (hkn : k < n) (tail rest : List Byte) :
    stampBytes n ++ tail ≠ (stampBytes n).drop k ++ rest := by
  obtain ⟨n, rfl⟩ : ∃ m, n = m + 1 := ⟨n - 1, by omega⟩
  obtain ⟨k, rfl⟩ : ∃ j, k = j + 1 := ⟨k - 1, by omega⟩
  rw [stampBytes, drop_succ_cons, drop_replicate,
    show n - k = n - k - 1 + 1 by omega, replicate_succ]
  exact fun h => absurd (cons.inj h).1 (by decide)

/-- How the cursor moves depends on the lengths alone. -/
theorem readLoop_stamp : ∀ (rest : List Mbuf) (moff want : Nat),
    (readLoop (rest.map stamp) moff want).2 = (readLoop rest moff want).2
  | [], _, _ => rfl
  | _ :: _, _, 0 => rfl
  | mb :: rest, moff, want + 1 => by
    rw [map_cons, readLoop, readLoop]
    dsimp only
    rw [length_stamp]
    split
    · rw [readLoop_stamp]
    · rfl

/-- The cursor of `z` in the stamped chain. -/
def ZcMbuf.stamped (z : ZcMbuf) : ZcMbuf := { z with chain := z.chain.map stamp }

theorem access_stamped (z : ZcMbuf) (op : Access) :
    (access z.stamped op).1 = (access z op).1.stamped := by
  cases op with
  | read len =>
    unfold access ffZcMbufRead ZcMbuf.stamped
    dsimp only
    rw [← map_drop]
    split
    · rfl
    · rw [readLoop_stamp]
  | segment =>
    unfold access ffZcMbufSegment ZcMbuf.stamped
    rw [← map_drop]
    cases z.chain.drop z.cursor <;> rfl

theorem accessAll_stamped (z : ZcMbuf) (ops : List Access) :
    (accessAll z.stamped ops).1 = (accessAll z ops).1.stamped := by
  induction ops using reverseRecOn with
  | nil => rfl
  | append_singleton ops op ih => rw [accessAll_snoc, accessAll_snoc, ih, access_stamped]

theorem bytesOf_stamp :
    ∀ rest : List Mbuf, (bytesOf (rest.map stamp)).length = (bytesOf rest).length
  | [] => rfl
  | mb :: rest => by
    rw [map_cons, bytesOf_cons, bytesOf_cons, length_append, length_append,
      length_stamp, bytesOf_stamp rest]

theorem received_stamp (chain : List Mbuf) :
    received (chain.map stamp) = (received chain).stamped := by
  unfold received ZcMbuf.stamped
  rw [bytesOf_stamp]

theorem atStart_stamped (z : ZcMbuf) : AtStart z.stamped ↔ AtStart z := by
  unfold AtStart ZcMbuf.stamped
  rw [← map_drop]
  cases hcur : z.chain.drop z.cursor with
  | nil => simp
  | cons mb rest =>
    have hdata : (stamp mb).data ≠ [] ↔ mb.data ≠ [] := by
      rw [← length_pos_iff, ← length_pos_iff, length_stamp]
    have hrest : bytesOf (rest.map stamp) = [] ↔ bytesOf rest = [] := by
      rw [← length_eq_zero_iff, ← length_eq_zero_iff, bytesOf_stamp]
    constructor
    · rintro h mb' rest' hcons
      cases hcons
      obtain ⟨hoff, hor⟩ := h _ _ rfl
      exact ⟨hoff, hor.imp hdata.mp hrest.mp⟩
    · rintro h mb' rest' hcons
      cases hcons
      obtain ⟨hoff, hor⟩ := h _ _ rfl
      exact ⟨hoff, hor.imp hdata.mpr hrest.mpr⟩

theorem segmentsAtStart_stamp (chain : List Mbuf) (ops : List Access) :
    SegmentsAtStart (chain.map stamp) ops ↔ SegmentsAtStart chain ops := by
  unfold SegmentsAtStart
  simp only [received_stamp, accessAll_stamped, atStart_stamped]

/-- In a stamped chain a segment that is asked for elsewhere shows. -/
theorem atStart_of_delivers (h : Left (chain.map stamp) out z)
    (hbytes : out ++ (access z .segment).2.1 <+: bytesOf (chain.map stamp))
    (htold : (access z .segment).2.2 = true → out ++ (access z .segment).2.1 = bytesOf (chain.map stamp))
    : AtStart z := by
  intro mb rest hcur
  have hout := h.bytes
  have hinside := h.inside
  have hseg : ffZcMbufSegment z =
      ({ z with cursor := z.cursor + 1, off := 0 }, mb.data, (mb.data.length : Int)) := by
    unfold ffZcMbufSegment
    rw [hcur]
  unfold access at hbytes htold
  rw [hseg] at hbytes htold
  rw [hcur] at hout hinside
  rw [← hout, prefix_append_right_inj] at hbytes
  by_cases hoff : z.off.toNat = 0
  · have hoff' : z.off = 0 := by
      have := h.off
      omega
    refine ⟨hoff', ?_⟩
    by_cases hdata : mb.data = []
    · right
      have hall := htold (by rw [hdata]; rfl)
      rw [hdata, append_nil] at hall
      rw [hoff, drop_zero, bytesOf_cons, hdata, nil_append, ← hall] at hout
      exact self_eq_append_right.mp hout.symm
    · exact .inl hdata
  · -- the first byte of the segment is 1, and the next one to be delivered is 0
    exfalso
    have hlt : z.off.toNat < mb.data.length := hinside.resolve_left hoff
    obtain ⟨mb₀, -, rfl⟩ : ∃ mb₀ ∈ chain, stamp mb₀ = mb := by
      have hmem : mb ∈ chain.map stamp := by
        rw [← h.same]
        exact mem_of_mem_drop (hcur ▸ mem_cons_self)
      exact mem_map.mp hmem
    obtain ⟨tail, htail⟩ := hbytes
    rw [bytesOf_cons, drop_append_of_le_length (by omega)] at htail
    rw [length_stamp] at hlt
    exact stampBytes_ne hoff hlt tail (bytesOf rest) htail

theorem map_stamp (chain : List Mbuf) :
    chain.map stamp = (chain.map fun mb => mb.data.length).map fun n => ⟨stampBytes n, 0⟩ := by
  rw [map_map]
  rfl

/-- **Every byte is delivered once and the end is told in time**, whatever the chain contains,
exactly if every segment is asked for at the start of an mbuf that has data, or behind the last
data. -/
theorem deliversRight_iff (chain : List Mbuf) (ops : List Access) :
    (∀ chain', chain'.map (fun mb => mb.data.length) = chain.map (fun mb => mb.data.length) →
      DeliversRight chain' ops) ↔ SegmentsAtStart chain ops := by
  constructor
  · intro h
    have hright : DeliversRight (chain.map stamp) ops := by
      refine h _ ?_
      rw [map_map]
      exact map_congr_left fun mb _ => length_stamp mb
    rw [← segmentsAtStart_stamp]
    -- the segments asked for so far are right, and so is the next
    have hall := forall_split (P := fun pre op => op = .segment →
      AtStart (accessAll (received (chain.map stamp)) pre).1) (l := ops)
      fun pre op post hops hpre => by
        rintro rfl
        have hbytes := hright.bytes pre .segment post hops
        have htold := hright.told pre .segment post hops
        rw [accessAll_snoc] at hbytes htold
        exact atStart_of_delivers (left_run fun p p' hp => hpre p _ p' hp rfl) hbytes htold
    exact fun pre post hops => hall pre _ post hops rfl
  · intro h chain' hchain'
    apply deliversRight_of_segmentsAtStart
    rwa [← segmentsAtStart_stamp, map_stamp, hchain', ← map_stamp, segmentsAtStart_stamp]

/-- A segment after a read of one byte; and a segment of a chain that begins with an mbuf without
data. -/
theorem deliversRight_not :
    ¬ DeliversRight [⟨[1, 2], 0⟩] [.read 1, .segment] ∧
      ¬ DeliversRight [⟨[], 0⟩, ⟨[5], 0⟩] [.segment] := by
  constructor
  · intro h
    have hlen := (h.bytes [.read 1] .segment [] rfl).length_le
    exact absurd hlen (by decide)
  · intro h
    have hall := h.told [] .segment [] rfl (by decide)
    exact absurd hall (by decide)

end FStack.Zc
