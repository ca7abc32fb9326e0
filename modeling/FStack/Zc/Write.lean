import FStack.Lib.Run
import Mathlib.Data.List.Induction

/-!
# Writing to a zero-copy chain

Model of `ff_zc_mbuf_get` and `ff_zc_mbuf_write` (`lib/ff_veth.c:324-386`). The application asks for
a chain of mbufs with room for `n` bytes and writes to it piece by piece. A cursor keeps the mbuf a
write has ended in, which may be full; the next one goes on from there.

Outside is the chain `m_getm2` returns: how many mbufs, and how much room each of them has
(`M_TRAILINGSPACE`, which fits an `int`). `ff_zc_mbuf_write` tests `zm->off + len > zm->len` in
`int`. The sum overflows if the application has written something and passes a length near
`INT_MAX`; here it wraps, and is then below `zm->len`.

Results:
* `writeRight_iff`: the calls append, and reject what is beyond `n`, iff no sum overflows;
  `writeRight_not`: one does.
-/

namespace FStack.Zc

open List FStack.Lib.Run

/-- A byte of an mbuf. -/
abbrev Byte := BitVec 8

/-! ## The functions -/

/-- An mbuf: its data, and the room behind them. -/
structure Mbuf where
  data : List Byte
  room : Nat
  deriving DecidableEq

/-- `bcopy` behind the data, and `m_len += length`. -/
def Mbuf.fill (mb : Mbuf) (bytes : List Byte) : Mbuf := ⟨mb.data ++ bytes, mb.room - bytes.length⟩

/-- `struct ff_zc_mbuf`, and the chain it points to. -/
structure ZcMbuf where
  /-- The mbufs from `bsd_mbuf` on; there is none if it is NULL. -/
  chain : List Mbuf
  /-- `m_pkthdr.len` of the first mbuf. -/
  hdrLen : Int
  /-- Where `bsd_mbuf_off` is in the chain; behind its end it is NULL. -/
  cursor : Nat
  off : Int
  len : Int
  deriving DecidableEq

/-- What `int` makes of a sum. -/
def int32 (x : Int) : Int := x.bmod 4294967296

/-- A chain of empty mbufs. -/
def fresh (rooms : List Nat) : List Mbuf := rooms.map (⟨[], ·⟩)

/-- `ff_zc_mbuf_get`; `m_getm2` returns a chain of mbufs with `rooms`, or NULL. -/
def ffZcMbufGet (rooms : List Nat) (z : ZcMbuf) (len : Int) : ZcMbuf × Int :=
  if len < 0 then (z, -1)
  else if rooms = [] then (z, -1)
  else (⟨fresh rooms, 0, 0, 0, len⟩, 0)

/-- The arguments `data` and `len` of `ff_zc_mbuf_write`: the bytes from `data` on, unless it is
NULL. -/
structure Call where
  data : Option (Nat → Byte)
  len : Int
  min_le : -2147483648 ≤ len
  lt_max : len < 2147483648

/-- The data of a call. -/
def Call.bytes (c : Call) : List Byte :=
  match c.data with
  | none => []
  | some data => (List.range c.len.toNat).map data

/-- The loop of `ff_zc_mbuf_write` over the mbufs from the cursor on: the mbufs, `progress`, and how
far the cursor moves. -/
def writeLoop : List Mbuf → List Byte → List Mbuf × Nat × Nat
  | [], _ => ([], 0, 0)
  | mb :: rest, data =>
    let length := min mb.room data.length
    let mb := mb.fill (data.take length)
    if data.length = length then (mb :: rest, length, 0)
    else
      let r := writeLoop rest (data.drop length)
      (mb :: r.1, length + r.2.1, r.2.2 + 1)

/-- `ff_zc_mbuf_write`; there is no result if `bsd_mbuf` is NULL and `m_pkthdr` is accessed. -/
def ffZcMbufWrite (z : ZcMbuf) (c : Call) : Option (ZcMbuf × Int) :=
  if c.data = none ∨ c.len < 0 then some (z, -1)
  else if c.len = 0 then some (z, 0)
  else if z.len < int32 (z.off + c.len) then some (z, -1)
  else if z.chain = [] then none
  else
    let r := writeLoop (z.chain.drop z.cursor) c.bytes
    some ({ z with
      chain := z.chain.take z.cursor ++ r.1
      hdrLen := int32 (z.hdrLen + r.2.1)
      cursor := z.cursor + r.2.2
      off := int32 (z.off + r.2.1) }, r.2.1)

/-- A sequence of calls; `none` if one of them accesses NULL. -/
def writeAll (z : ZcMbuf) (calls : List Call) : Option ZcMbuf :=
  calls.foldlM (fun z c => (ffZcMbufWrite z c).map Prod.fst) z

/-! ## The loop -/

/-- The data of a chain. -/
def bytesOf (chain : List Mbuf) : List Byte := chain.flatMap Mbuf.data

/-- The room in a chain. -/
def roomOf : List Mbuf → Nat
  | [] => 0
  | mb :: chain => mb.room + roomOf chain

/-- A chain that is written up to `mb`. -/
structure Upto (full : List Mbuf) (mb : Mbuf) (rest : List Mbuf) (bytes : List Byte) : Prop where
  no_room : ∀ m ∈ full, m.room = 0
  no_data : ∀ m ∈ rest, m.data = []
  bytes_eq : bytesOf full ++ mb.data = bytes

theorem bytesOf_rest : ∀ {rest : List Mbuf}, (∀ m ∈ rest, m.data = []) → bytesOf rest = []
  | [], _ => rfl
  | m :: rest, h => by
    rw [bytesOf, flatMap_cons, h m mem_cons_self, nil_append]
    exact bytesOf_rest fun m' hm' => h m' (mem_cons_of_mem _ hm')

theorem Upto.bytesOf_eq {full rest : List Mbuf} {mb : Mbuf} {bytes : List Byte}
    (h : Upto full mb rest bytes) : bytesOf (full ++ mb :: rest) = bytes := by
  have hrest := bytesOf_rest h.no_data
  rw [bytesOf] at hrest
  rw [← h.bytes_eq, bytesOf, flatMap_append, flatMap_cons, hrest, append_nil]
  rfl

/-- Data that fit are written behind those of `mb`, and the loop ends in the mbuf they end in. -/
theorem writeLoop_spec : ∀ {rest : List Mbuf} {mb : Mbuf} {data : List Byte},
    (∀ m ∈ rest, m.data = []) → data.length ≤ roomOf (mb :: rest) →
    ∃ full' mb' rest', writeLoop (mb :: rest) data =
        (full' ++ mb' :: rest', data.length, full'.length) ∧
      Upto full' mb' rest' (mb.data ++ data) ∧
      roomOf (mb' :: rest') + data.length = roomOf (mb :: rest)
  | rest, mb, data, hrest, hroom => by
    by_cases hle : data.length ≤ mb.room
    · refine ⟨[], mb.fill data, rest, ?_, ⟨nofun, hrest, rfl⟩, ?_⟩
      · rw [writeLoop]
        rw [Nat.min_eq_right hle, if_pos rfl, take_length]
        rfl
      · simp only [roomOf, Mbuf.fill]
        omega
    cases rest with
    | nil => exact absurd hroom hle
    | cons next rest =>
      -- the mbuf is filled, and the loop goes on with the next one
      have hnext : next.data = [] := hrest next mem_cons_self
      have hdrop : (data.drop mb.room).length ≤ roomOf (next :: rest) := by
        rw [length_drop]
        simp only [roomOf] at hroom ⊢
        omega
      obtain ⟨full', mb', rest', hloop, hupto, hrooms⟩ :=
        writeLoop_spec (fun m hm => hrest m (mem_cons_of_mem _ hm)) hdrop
      rw [length_drop] at hloop hrooms
      refine ⟨mb.fill (data.take mb.room) :: full', mb', rest', ?_, ⟨?_, hupto.no_data, ?_⟩, ?_⟩
      · rw [writeLoop]
        rw [Nat.min_eq_left (by omega), if_neg (by omega), hloop]
        simp only [cons_append, length_cons, Prod.mk.injEq, true_and, and_true]
        omega
      · intro m hm
        rcases mem_cons.mp hm with rfl | hm
        · simp only [Mbuf.fill, length_take]
          omega
        · exact hupto.no_room m hm
      · have hbytes := hupto.bytes_eq
        rw [hnext, nil_append] at hbytes
        rw [bytesOf, flatMap_cons, append_assoc]
        change mb.data ++ data.take mb.room ++ (bytesOf full' ++ mb'.data) = _
        rw [hbytes, append_assoc, take_append_drop]
      · simp only [roomOf] at hrooms hroom ⊢
        omega

/-! ## A call -/

/-- The application has written `acc` of at most `n` bytes. -/
structure Written (n : Nat) (acc : List Byte) (z : ZcMbuf) : Prop where
  len : z.len = n
  off : z.off = acc.length
  hdrLen : z.hdrLen = acc.length
  le : acc.length ≤ n
  upto : ∃ full mb rest, z.chain = full ++ mb :: rest ∧ z.cursor = full.length ∧
    Upto full mb rest acc ∧ n ≤ acc.length + roomOf (mb :: rest)

/-- The call is valid and what it has fits. -/
def Fits (n : Nat) (acc : List Byte) (c : Call) : Prop :=
  c.data ≠ none ∧ 0 ≤ c.len ∧ acc.length + c.len ≤ n

instance (n : Nat) (acc : List Byte) (c : Call) : Decidable (Fits n acc c) :=
  inferInstanceAs (Decidable (_ ∧ _ ∧ _))

/-- What is written after the call. -/
def append (n : Nat) (acc : List Byte) (c : Call) : List Byte :=
  if Fits n acc c then acc ++ c.bytes else acc

/-- The sum the call is tested with overflows. -/
def Overflows (acc : List Byte) (c : Call) : Prop :=
  c.data ≠ none ∧ 0 < c.len ∧ 2147483648 ≤ acc.length + c.len

variable {c : Call} {x : Int}

theorem length_bytes (hdata : c.data ≠ none) : c.bytes.length = c.len.toNat := by
  obtain ⟨data, hd⟩ := Option.ne_none_iff_exists'.mp hdata
  simp [Call.bytes, hd]

theorem int32_of_lt (h0 : 0 ≤ x) (h : x < 2147483648) : int32 x = x := by
  unfold int32
  rw [Int.bmod_eq_of_le (by omega) (by omega)]

theorem int32_neg (h : 2147483648 ≤ x) (h' : x < 4294967296) : int32 x < 0 := by
  unfold int32
  rw [Int.bmod_def]
  omega

section Call

variable {n : Nat} {acc : List Byte} {z : ZcMbuf} {c : Call}

theorem written_ne_nil (h : Written n acc z) : z.chain ≠ [] := by
  obtain ⟨full, mb, rest, hchain, -⟩ := h.upto
  rw [hchain]
  exact append_ne_nil_of_right_ne_nil _ (cons_ne_nil _ _)

/-- Data that fit are written. -/
theorem write_of_fits (hn : n < 2147483648) (h : Written n acc z) (hc : Fits n acc c)
    (hpos : 0 < c.len) :
    ∃ z', ffZcMbufWrite z c = some (z', c.len) ∧ Written n (acc ++ c.bytes) z' := by
  obtain ⟨hdata, -, hfits⟩ := hc
  have hlen := length_bytes hdata
  have hoff := h.off
  obtain ⟨full, mb, rest, hchain, hcursor, hupto, hroom⟩ := h.upto
  have hbytes : c.bytes.length ≤ roomOf (mb :: rest) := by omega
  obtain ⟨full', mb', rest', hloop, hupto', hrooms⟩ := writeLoop_spec hupto.no_data hbytes
  have hdrop : z.chain.drop z.cursor = mb :: rest := by rw [hchain, hcursor, drop_left]
  have htake : z.chain.take z.cursor = full := by rw [hchain, hcursor, take_left]
  have hprogress : (c.bytes.length : Int) = c.len := by omega
  have hsum : int32 (z.off + c.len) = z.off + c.len := int32_of_lt (by omega) (by omega)
  have hsum' : int32 (z.hdrLen + c.len) = z.hdrLen + c.len := by
    rw [h.hdrLen, ← hoff, hsum]
  refine ⟨{ z with
    chain := full ++ (full' ++ mb' :: rest')
    hdrLen := z.hdrLen + c.len
    cursor := full.length + full'.length
    off := z.off + c.len }, ?_, ?_⟩
  · unfold ffZcMbufWrite
    rw [if_neg (by simp only [hdata, false_or]; omega), if_neg (by omega), hsum,
      if_neg (by rw [h.len]; omega), if_neg (written_ne_nil h), hdrop, htake, hloop]
    dsimp only
    rw [hprogress, hsum, hsum', hcursor]
  · refine ⟨h.len, ?_, ?_, ?_, full ++ full', mb', rest', ?_, ?_, ⟨?_, hupto'.no_data, ?_⟩, ?_⟩
    · rw [length_append]
      dsimp only
      omega
    · rw [length_append]
      dsimp only
      rw [h.hdrLen]
      omega
    · rw [length_append]
      omega
    · exact (append_assoc _ _ _).symm
    · exact length_append.symm
    · intro m hm
      exact (mem_append.mp hm).elim (hupto.no_room m) (hupto'.no_room m)
    · rw [bytesOf, flatMap_append, append_assoc]
      change bytesOf full ++ (bytesOf full' ++ mb'.data) = _
      rw [hupto'.bytes_eq, ← append_assoc, hupto.bytes_eq]
    · rw [length_append]
      omega

/-- What does not fit is rejected, if the sum does not overflow. -/
theorem write_of_not_fits (h : Written n acc z) (hc : ¬ Fits n acc c) (ho : ¬ Overflows acc c) :
    ffZcMbufWrite z c = some (z, -1) := by
  have hoff := h.off
  have hlen := h.len
  unfold ffZcMbufWrite
  by_cases hinvalid : c.data = none ∨ c.len < 0
  · rw [if_pos hinvalid]
  · rw [if_neg hinvalid]
    obtain ⟨hdata, hnonneg⟩ := not_or.mp hinvalid
    have hbeyond : n < acc.length + c.len := by
      by_contra hle
      exact hc ⟨hdata, Int.not_lt.mp hnonneg, by omega⟩
    have hle := h.le
    have hsmall : acc.length + c.len < 2147483648 := by
      by_contra hge
      exact ho ⟨hdata, by omega, by omega⟩
    rw [if_neg (by omega), int32_of_lt (by omega) (by omega), if_pos (by omega)]

/-- A sum that overflows lets the call through. -/
theorem write_of_overflows (hn : n < 2147483648) (h : Written n acc z) (ho : Overflows acc c) :
    ∃ z' r, ffZcMbufWrite z c = some (z', r) ∧ 0 ≤ r := by
  obtain ⟨hdata, hpos, hbig⟩ := ho
  have hle := h.le
  have hoff := h.off
  have hmax := c.lt_max
  have hneg : int32 (z.off + c.len) < 0 := int32_neg (by omega) (by omega)
  unfold ffZcMbufWrite
  rw [if_neg (by simp only [hdata, false_or]; omega), if_neg (by omega),
    if_neg (by rw [h.len]; omega), if_neg (written_ne_nil h)]
  exact ⟨_, _, rfl, Int.natCast_nonneg _⟩

theorem write_zero (hdata : c.data ≠ none) (hzero : c.len = 0) :
    ffZcMbufWrite z c = some (z, 0) := by
  unfold ffZcMbufWrite
  rw [if_neg (by simp [hdata, hzero]), if_pos hzero]

/-- **A call** that does not overflow appends or is rejected. -/
theorem write_spec (hn : n < 2147483648) (h : Written n acc z) (ho : ¬ Overflows acc c) :
    ∃ z', ffZcMbufWrite z c = some (z', if Fits n acc c then c.len else -1) ∧
      Written n (append n acc c) z' ∧ (¬ Fits n acc c ∨ c.len = 0 → z' = z) := by
  unfold append
  by_cases hc : Fits n acc c
  · rw [if_pos hc, if_pos hc]
    by_cases hzero : c.len = 0
    · have hbytes : c.bytes = [] := by
        apply eq_nil_of_length_eq_zero
        rw [length_bytes hc.1, hzero]
        rfl
      rw [hbytes, append_nil, hzero]
      exact ⟨z, write_zero hc.1 hzero, h, fun _ => rfl⟩
    · obtain ⟨z', hwrite, hwritten⟩ := write_of_fits hn h hc (by have := hc.2.1; omega)
      exact ⟨z', hwrite, hwritten, fun hor => absurd hor (by simp [hc, hzero])⟩
  · rw [if_neg hc, if_neg hc]
    exact ⟨z, write_of_not_fits h hc ho, h, fun _ => rfl⟩

end Call

/-! ## Sequences of calls -/

/-- A request for `n` bytes and what the allocator returns for it. -/
structure Request where
  n : Nat
  lt_max : n < 2147483648
  rooms : List Nat
  ne_nil : rooms ≠ []
  le : n ≤ roomOf (fresh rooms)

variable (q : Request)

variable (z : ZcMbuf)

/-- The chain the application gets. -/
def Request.chain : ZcMbuf := (ffZcMbufGet q.rooms z q.n).1

variable (n : Nat)

/-- What the calls leave in the chain. -/
def appended (calls : List Call) : List Byte := calls.foldl (append n) []

/-- The calls append: after each of them the chain holds what it should, and the next one returns
its length, or -1 if it does not fit. -/
def WriteRight (z : ZcMbuf) (calls : List Call) : Prop :=
  ∀ pre c post, calls = pre ++ c :: post →
    ∃ y y', writeAll z pre = some y ∧
      ffZcMbufWrite y c = some (y', if Fits n (appended n pre) c then c.len else -1) ∧
      (¬ Fits n (appended n pre) c ∨ c.len = 0 → y' = y) ∧
      bytesOf y'.chain = appended n (pre ++ [c]) ∧
      y'.hdrLen = (appended n (pre ++ [c])).length ∧ y'.off = (appended n (pre ++ [c])).length

theorem written_get : Written q.n [] (q.chain z) := by
  have hget : q.chain z = ⟨fresh q.rooms, 0, 0, 0, q.n⟩ := by
    unfold Request.chain ffZcMbufGet
    rw [if_neg (by omega), if_neg q.ne_nil]
  obtain ⟨r, rest, hrooms⟩ := exists_cons_of_ne_nil q.ne_nil
  have hle := q.le
  rw [hrooms] at hle
  rw [hget, hrooms]
  refine ⟨rfl, rfl, rfl, Nat.zero_le _, [], ⟨[], r⟩, fresh rest, rfl, rfl,
    ⟨fun _ h => (nomatch h), fun m hm => ?_, rfl⟩, ?_⟩
  · obtain ⟨r', -, rfl⟩ := mem_map.mp hm
    rfl
  · rw [length_nil, Nat.zero_add]
    exact hle

theorem appended_snoc (pre : List Call) (c : Call) :
    appended n (pre ++ [c]) = append n (appended n pre) c := by
  unfold appended
  rw [foldl_append]
  rfl

theorem writeAll_snoc {z y : ZcMbuf} {pre : List Call} (h : writeAll z pre = some y) :
    writeAll z (pre ++ [c]) = (ffZcMbufWrite y c).map Prod.fst := by
  unfold writeAll at h ⊢
  rw [foldlM_append, h]
  simp

theorem bytesOf_of_written {n : Nat} {acc : List Byte} {z : ZcMbuf} (h : Written n acc z) :
    bytesOf z.chain = acc := by
  obtain ⟨full, mb, rest, hchain, -, hupto, -⟩ := h.upto
  rw [hchain, hupto.bytesOf_eq]

/-- As long as no sum overflows, the calls do what they should. -/
theorem written_run (pre : List Call)
    (ho : ∀ p c p', pre = p ++ c :: p' → ¬ Overflows (appended q.n p) c) :
    ∃ y, writeAll (q.chain z) pre = some y ∧ Written q.n (appended q.n pre) y := by
  induction pre using reverseRecOn with
  | nil => exact ⟨_, rfl, written_get q z⟩
  | append_singleton pre c ih =>
    obtain ⟨y, hy, hwritten⟩ := ih fun p c' p' hp =>
      ho p c' (p' ++ [c]) (by rw [hp, append_assoc]; rfl)
    obtain ⟨y', hwrite, hwritten', -⟩ := write_spec q.lt_max hwritten (ho pre c [] rfl)
    refine ⟨y', ?_, ?_⟩
    · rw [writeAll_snoc hy, hwrite]
      rfl
    · rw [appended_snoc]
      exact hwritten'

/-- **Writing is appending**, exactly as long as no call passes a length whose sum with what was
written overflows. -/
theorem writeRight_iff (calls : List Call) :
    WriteRight q.n (q.chain z) calls ↔
      ∀ pre c post, calls = pre ++ c :: post → ¬ Overflows (appended q.n pre) c := by
  constructor
  · -- the first call that overflows is let through, and should not be
    intro h
    refine forall_split fun pre c post hcalls hbefore ho => ?_
    obtain ⟨y, hy, hwritten⟩ := written_run q z pre hbefore
    obtain ⟨y₁, y', hy₁, hwrite, -⟩ := h pre c post hcalls
    cases hy₁.symm.trans hy
    obtain ⟨z', r, hz', hr⟩ := write_of_overflows q.lt_max hwritten ho
    have hnot : ¬ Fits q.n (appended q.n pre) c := fun hfits => by
      have := q.lt_max
      have := hfits.2.2
      have := ho.2.2
      omega
    rw [if_neg hnot, hz'] at hwrite
    cases hwrite
    omega
  · intro ho pre c post hcalls
    obtain ⟨y, hy, hwritten⟩ := written_run q z pre fun p c' p' hp =>
      ho p c' (p' ++ c :: post) (by rw [hcalls, hp, append_assoc]; rfl)
    obtain ⟨y', hwrite, hwritten', hsame⟩ := write_spec q.lt_max hwritten (ho pre c post hcalls)
    rw [← appended_snoc] at hwritten'
    exact ⟨y, y', hy, hwrite, hsame, bytesOf_of_written hwritten', hwritten'.hdrLen, hwritten'.off⟩

/-- A chain for 10 bytes. -/
def tenBytes : Request := ⟨10, by decide, [10], by decide, by decide⟩

/-- A call with some number of bytes. -/
def sevens (h : n < 2147483648) : Call := ⟨some fun _ => 7, n, by omega, by omega⟩

/-- A byte is written, and then a call has `INT_MAX`. -/
theorem writeRight_not :
    ¬ WriteRight 10 (tenBytes.chain ⟨[], 0, 0, 0, 0⟩)
      [sevens 1 (by decide), sevens 2147483647 (by decide)] := by
  intro h
  obtain ⟨y, y', hy, hwrite, -⟩ := h [sevens 1 (by decide)] _ [] rfl
  obtain ⟨y₁, hy₁, hwritten⟩ :
      ∃ y₁, writeAll (tenBytes.chain ⟨[], 0, 0, 0, 0⟩) [sevens 1 (by decide)] = some y₁ ∧
        Written 10 (appended 10 [sevens 1 (by decide)]) y₁ := by
    refine written_run tenBytes _ _ fun p c p' hp ho => ?_
    cases p with
    | nil =>
      cases hp
      exact absurd ho.2.2 (by decide)
    | cons x p => simp at hp
  cases hy.symm.trans hy₁
  have ho : Overflows (appended 10 [sevens 1 (by decide)]) (sevens 2147483647 (by decide)) :=
    ⟨Option.some_ne_none _, by decide, by decide⟩
  obtain ⟨z', r, hz', hr⟩ := write_of_overflows (by decide) hwritten ho
  cases hz'.symm.trans hwrite
  exact absurd hr (by decide)

end FStack.Zc
