import Mathlib.Data.List.Nodup

/-!
# Messages in a stream

Messages are written to a stream in pieces. Every byte of the stream has the name of its message.
`Framed` says that the stream is one whole message after the other, no message twice, and then
possibly the first part of one more.

`Framed.write` is the rule for a piece: a message goes on where it has stopped, and no other message
is unfinished.
-/

namespace FStack.Lib

open List

variable {κ β : Type*} [DecidableEq κ]

section

variable (msg : κ → List β)

/-- The message, with its name on every byte. -/
def tagged (c : κ) : List (κ × β) := (msg c).map (Prod.mk c)

variable (wire : List (κ × β))

/-- How many bytes of the message are in the stream. -/
def written (c : κ) : Nat := wire.countP (·.1 = c)

/-- A part of the message is in the stream. -/
def Unfinished (c : κ) : Prop :=
  0 < written wire c ∧ written wire c < (msg c).length

/-- The messages `done`, and the first `k` bytes of `c`. -/
structure Frames (done : List κ) (c : κ) (k : Nat) :
    Prop where
  nodup : done.Nodup
  nonempty : ∀ d ∈ done, msg d ≠ []
  rest : k = 0 ∨ c ∉ done ∧ k < (msg c).length
  eq : wire = done.flatMap (tagged msg) ++ (tagged msg c).take k

/-- Whole messages, each once, and possibly the first part of one more. -/
def Framed : Prop :=
  ∃ done c k, Frames msg wire done c k

end

variable {msg msg' : κ → List β} {wire : List (κ × β)} {done : List κ} {c d : κ} {k : Nat}

/-! ## How much is written -/

@[simp] theorem written_append (wire wire' : List (κ × β)) (c : κ) :
    written (wire ++ wire') c = written wire c + written wire' c :=
  countP_append

@[simp] theorem written_map (bytes : List β) (c d : κ) :
    written (bytes.map (Prod.mk c)) d = if c = d then bytes.length else 0 := by
  unfold written
  rw [countP_map]
  split
  next h => exact countP_eq_length.2 fun _ _ => decide_eq_true h
  next h => exact countP_eq_zero.2 fun _ _ => by simpa using h

omit [DecidableEq κ] in
theorem take_tagged (msg : κ → List β) (c : κ) (k : Nat) :
    (tagged msg c).take k = ((msg c).take k).map (Prod.mk c) :=
  map_take.symm

theorem written_flatMap (hnodup : done.Nodup) (d : κ) :
    written (done.flatMap (tagged msg)) d = if d ∈ done then (msg d).length else 0 := by
  induction done with
  | nil => rfl
  | cons c done ih =>
    obtain ⟨hc, hnodup⟩ := nodup_cons.1 hnodup
    rw [flatMap_cons, written_append, ih hnodup, tagged, written_map]
    by_cases hd : c = d
    · subst hd
      simp [hc]
    · simp [hd, Ne.symm hd]

theorem Frames.written (h : Frames msg wire done c k) (d : κ) :
    written wire d = (if d ∈ done then (msg d).length else 0) + if c = d then k else 0 := by
  rw [h.eq, written_append, written_flatMap h.nodup, take_tagged, written_map, length_take]
  obtain rfl | ⟨-, hk⟩ := h.rest
  · simp
  · rw [Nat.min_eq_left (Nat.le_of_lt hk)]

/-- Only the last message can be unfinished. -/
theorem Frames.unfinished_iff (h : Frames msg wire done c k) (d : κ) :
    Unfinished msg wire d ↔ d = c ∧ k ≠ 0 := by
  unfold Unfinished
  rw [h.written]
  by_cases hd : d ∈ done
  · obtain rfl | ⟨hc, -⟩ := h.rest
    · simp [hd]
    · have hne : c ≠ d := fun heq => hc (heq ▸ hd)
      simp [hd, hne, Ne.symm hne]
  · by_cases hcd : c = d
    · subst hcd
      obtain rfl | ⟨-, hk⟩ := h.rest
      · simp [hd]
      · simp [hd, hk, Nat.pos_iff_ne_zero]
    · simp [hd, hcd, Ne.symm hcd]

/-! ## Writing -/

omit [DecidableEq κ] in
theorem framed_nil [Inhabited κ] (msg : κ → List β) : Framed msg [] :=
  ⟨[], default, 0, nodup_nil, fun _ hd => absurd hd not_mem_nil, .inl rfl, rfl⟩

/-- Messages of which nothing is in the stream may be others. -/
theorem Framed.congr (h : Framed msg wire) (heq : ∀ d, written wire d ≠ 0 → msg' d = msg d) :
    Framed msg' wire := by
  obtain ⟨done, c, k, hF⟩ := h
  have hdone (d : κ) (hd : d ∈ done) : msg' d = msg d := heq d (by
    have := length_pos_iff.2 (hF.nonempty d hd)
    rw [hF.written, if_pos hd]
    omega)
  have hc (hk : k ≠ 0) : msg' c = msg c := heq c (by
    rw [hF.written, if_pos rfl]
    omega)
  have hflat : done.flatMap (tagged msg') = done.flatMap (tagged msg) := by
    exact congrArg _ (map_congr_left fun d hd => by rw [tagged, hdone d hd, tagged])
  refine ⟨done, c, k, hF.nodup, fun d hd => hdone d hd ▸ hF.nonempty d hd, ?_, ?_⟩
  · obtain hk | ⟨hnot, hk⟩ := hF.rest
    · exact .inl hk
    · by_cases hzero : k = 0
      · exact .inl hzero
      · exact .inr ⟨hnot, (hc hzero).symm ▸ hk⟩
  · rw [hF.eq, hflat]
    by_cases hzero : k = 0
    · subst hzero
      simp
    · rw [tagged, tagged, hc hzero]

omit [DecidableEq κ] in
/-- The next message, or a part of it. -/
theorem Frames.begin (h : Frames msg wire done d 0) (hc : c ∉ done) (hne : msg c ≠ []) (n : Nat) :
    Framed msg (wire ++ ((msg c).take n).map (Prod.mk c)) := by
  have heq : wire = done.flatMap (tagged msg) := by simpa using h.eq
  obtain hn | hn := Nat.lt_or_ge n (msg c).length
  · exact ⟨done, c, n, h.nodup, h.nonempty, .inr ⟨hc, hn⟩, by rw [heq, take_tagged]⟩
  · refine ⟨done ++ [c], c, 0, ?_, ?_, .inl rfl, ?_⟩
    · exact nodup_append.2 ⟨h.nodup, nodup_singleton c, fun x hx y hy hxy =>
        hc (mem_singleton.1 hy ▸ hxy ▸ hx)⟩
    · intro x hx
      obtain hx | hx := mem_append.1 hx
      · exact h.nonempty x hx
      · exact mem_singleton.1 hx ▸ hne
    · rw [heq, take_of_length_le hn]
      simp [tagged]

/-- **A piece of a message** goes on where the message has stopped, if no other one is
unfinished. -/
theorem Framed.write (h : Framed msg wire) (honly : ∀ d, Unfinished msg wire d → d = c)
    (hlt : written wire c < (msg c).length) (n : Nat) :
    Framed msg (wire ++ (((msg c).drop (written wire c)).take n).map (Prod.mk c)) := by
  obtain ⟨done, d, k, hF⟩ := h
  have hc : c ∉ done := fun hc => by
    rw [hF.written, if_pos hc] at hlt
    omega
  have hne : msg c ≠ [] := length_pos_iff.1 (by omega)
  by_cases hk : k = 0
  · subst hk
    have hzero : written wire c = 0 := by
      rw [hF.written, if_neg hc]
      simp
    rw [hzero, drop_zero]
    exact hF.begin hc hne n
  · obtain rfl : d = c := honly d ((hF.unfinished_iff d).2 ⟨rfl, hk⟩)
    have hwritten : written wire d = k := by
      rw [hF.written, if_neg hc, if_pos rfl, Nat.zero_add]
    -- The whole messages before it, and then the message from its beginning.
    have hbegin : Frames msg (done.flatMap (tagged msg)) done d 0 :=
      ⟨hF.nodup, hF.nonempty, .inl rfl, by simp⟩
    have htake : (msg d).take k ++ ((msg d).drop k).take n = (msg d).take (k + n) :=
      (take_add ..).symm
    rw [hwritten, hF.eq, take_tagged, append_assoc, ← map_append, htake]
    exact hbegin.begin hc hne (k + n)

end FStack.Lib
