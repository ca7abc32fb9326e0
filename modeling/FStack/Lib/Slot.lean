import Mathlib.Data.List.Induction

/-!
# A request slot

One slot through which callers hand requests to a server and get the replies back. What happens at
the slot is a list of events; `Phase.next` says which event may follow which, so that a list of
events that has a phase (`phaseOf`) is a sequence of rounds: a caller submits a request, the server
executes that request once, and the caller that submitted it takes the reply to it. A caller may
also give up; its request is then executed all the same, and nobody takes the reply.

Callers, requests and replies are of arbitrary types.
-/

namespace FStack.Lib.Slot

open List

/-- What happens at the slot. -/
inductive Event (α ρ β : Type) where
  | submit (a : α) (r : ρ)
  | execute (r : ρ) (x : β)
  | answer (a : α) (x : β)
  | giveUp (a : α)
  deriving DecidableEq

/-- Where the round stands. -/
inductive Phase (α ρ β : Type) where
  | free
  /-- Caller `a` waits for the reply to `r`, which has not been executed. -/
  | asked (a : α) (r : ρ)
  /-- The request of caller `a` has been executed, with the reply `x`. -/
  | answered (a : α) (x : β)
  /-- The caller gave up before `r` was executed. -/
  | left (r : ρ)
  deriving DecidableEq

variable {α ρ β : Type} [DecidableEq α] [DecidableEq ρ] [DecidableEq β]

/-- The phase after an event; none if it is out of place. -/
def Phase.next : Phase α ρ β → Event α ρ β → Option (Phase α ρ β)
  | .free, .submit a r => some (.asked a r)
  | .asked a r, .execute r' x => if r' = r then some (.answered a x) else none
  | .asked a r, .giveUp a' => if a' = a then some (.left r) else none
  | .answered a x, .answer a' x' => if a' = a ∧ x' = x then some .free else none
  | .answered a _, .giveUp a' => if a' = a then some .free else none
  | .left r, .execute r' _ => if r' = r then some .free else none
  | _, _ => none

section

variable (es : List (Event α ρ β))

/-- Where the events leave the slot; `none` if one of them was out of place. -/
def phaseOf : Option (Phase α ρ β) :=
  es.foldlM Phase.next .free

theorem phaseOf_snoc (e : Event α ρ β) :
    phaseOf (es ++ [e]) = (phaseOf es).bind fun p => p.next e := by
  unfold phaseOf
  rw [foldlM_append]
  cases es.foldlM Phase.next .free with
  | none => rfl
  | some p => simp

end

variable {es : List (Event α ρ β)} {p p' : Phase α ρ β} {e : Event α ρ β}

theorem phaseOf_step (h : phaseOf es = some p) (hp : p.next e = some p') :
    phaseOf (es ++ [e]) = some p' := by
  rw [phaseOf_snoc, h]
  exact hp

/-! ## Once -/

/-- The requests that were submitted, in order. -/
def submitted (es : List (Event α ρ β)) : List ρ :=
  es.filterMap fun
    | .submit _ r => some r
    | _ => none

/-- The requests that were executed, in order. -/
def executed (es : List (Event α ρ β)) : List ρ :=
  es.filterMap fun
    | .execute r _ => some r
    | _ => none

/-- The request that is still to be executed. -/
def Phase.pending : Phase α ρ β → List ρ
  | .asked _ r | .left r => [r]
  | .free | .answered _ _ => []

theorem pending_next (h : p.next e = some p') :
    p.pending ++ submitted [e] = executed [e] ++ p'.pending := by
  cases p with
  | free =>
    cases e with
    | submit a r => cases h; rfl
    | _ => cases h
  | asked a r =>
    cases e with
    | execute r' x | giveUp a' =>
      obtain ⟨rfl, rfl⟩ := (Option.ite_none_right_eq_some.1 h).imp id Option.some.inj
      rfl
    | _ => cases h
  | answered a x =>
    cases e with
    | answer a' x' | giveUp a' =>
      obtain ⟨-, rfl⟩ := (Option.ite_none_right_eq_some.1 h).imp id Option.some.inj
      rfl
    | _ => cases h
  | left r =>
    cases e with
    | execute r' x =>
      obtain ⟨rfl, rfl⟩ := (Option.ite_none_right_eq_some.1 h).imp id Option.some.inj
      rfl
    | _ => cases h

/-- Every request that was submitted has been executed once, in the order of submission, but for
the one that is pending. -/
theorem submitted_eq (h : phaseOf es = some p) : submitted es = executed es ++ p.pending := by
  induction es using reverseRecOn generalizing p with
  | nil =>
    cases h
    rfl
  | append_singleton es e ih =>
    rw [phaseOf_snoc] at h
    obtain ⟨q, hq, hqp⟩ := Option.bind_eq_some_iff.1 h
    have hs : submitted (es ++ [e]) = submitted es ++ submitted [e] := filterMap_append
    have he : executed (es ++ [e]) = executed es ++ executed [e] := filterMap_append
    rw [hs, he, ih hq, append_assoc, pending_next hqp, append_assoc]

end FStack.Lib.Slot
