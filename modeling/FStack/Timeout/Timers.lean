import FStack.Timeout.Wheel

/-!
# Timers

What a wheel is for, as an account of what happened: the true number of ticks, the deadlines that
are outstanding, and the entries the present pass has looked at since a callout was last put into
its bucket. `Lawful` says of a log that every callback that runs has an outstanding deadline that
has come, and that no entry is looked at twice.

Results:
* `fired_iff_due`: in a lawful log, an arming that is left alone runs once or is still outstanding.
* `not_fired_of_stopped`: an arming that is stopped does not run.
* `looked_again`: what must happen before an entry is looked at again.
-/

namespace FStack.Timeout

open Function List

variable {κ φ : Type} [DecidableEq κ]

/-- `cur` is the tick of the last pass, `seen` what it has looked at. -/
structure Timers (κ φ : Type) where
  now : Nat
  out : κ → Option (Nat × φ)
  cur : Tick
  seen : List κ

/-- Nothing is outstanding. -/
def Timers.init : Timers κ φ := ⟨0, fun _ => none, 0, []⟩

/-- The tick a callout that is armed now is armed for. -/
def Timers.deadline (m : Timers κ φ) (toTicks : Tick) : Nat := m.now + (atLeastOne toTicks).toNat

/-- A callout that is armed now goes into the bucket of the last pass. -/
def Timers.Joins (k : Nat) (m : Timers κ φ) (toTicks : Tick) : Prop :=
  bucketOf k (BitVec.ofNat 32 (m.deadline toTicks)) = bucketOf k m.cur

instance (k : Nat) (m : Timers κ φ) (toTicks : Tick) : Decidable (m.Joins k toTicks) :=
  inferInstanceAs (Decidable (_ = _))

/-- What an event changes. -/
def Timers.next (k : Nat) (m : Timers κ φ) : Event κ φ → Timers κ φ
  | .clock => { m with now := m.now + 1 }
  | .armed c toTicks ftn =>
    { m with
      out := update m.out c (some (m.deadline toTicks, ftn))
      seen := if m.Joins k toTicks then [] else m.seen }
  | .stopped c => { m with out := update m.out c none }
  | .pass curticks => { m with cur := curticks, seen := [] }
  | .looked c => { m with seen := c :: m.seen }
  | .fired c _ _ => { m with out := update m.out c none }

/-- The account of a log. -/
def replay (k : Nat) (m : Timers κ φ) (log : List (Event κ φ)) : Timers κ φ :=
  log.foldl (Timers.next k) m

/-- What may happen. -/
def Timers.Legal (m : Timers κ φ) : Event κ φ → Prop
  | .fired c func curticks => ∃ t f, m.out c = some (t, f) ∧ func = some f ∧
      curticks = BitVec.ofNat 32 t ∧ t < m.now
  | .looked c => c ∉ m.seen
  | _ => True

/-- Each event of the log was legal when it happened. -/
def Lawful (k : Nat) : Timers κ φ → List (Event κ φ) → Prop
  | _, [] => True
  | m, e :: log => m.Legal e ∧ Lawful k (m.next k e) log

theorem lawful_append {k : Nat} {m : Timers κ φ} {log log' : List (Event κ φ)} :
    Lawful k m (log ++ log') ↔ Lawful k m log ∧ Lawful k (replay k m log) log' := by
  induction log generalizing m with
  | nil => simp [Lawful, replay]
  | cons e log ih =>
    simp only [cons_append, Lawful, ih, and_assoc]
    rfl

theorem replay_append (k : Nat) (m : Timers κ φ) (log log' : List (Event κ φ)) :
    replay k m (log ++ log') = replay k (replay k m log) log' :=
  foldl_append

/-! ## Deadlines -/

/-- The callout is armed anew, or stopped. -/
def Event.Sets (c : κ) : Event κ φ → Prop
  | .armed c' _ _ => c' = c
  | .stopped c' => c' = c
  | _ => False

/-- The callout runs. -/
def Event.runs (c : κ) : Event κ φ → Bool
  | .fired c' _ _ => c' = c
  | _ => false

/-- The callout is armed. -/
def Event.Arms (c : κ) : Event κ φ → Prop
  | .armed c' _ _ => c' = c
  | _ => False

variable {k : Nat} {m : Timers κ φ} {c : κ} {log : List (Event κ φ)}

theorem next_out_of_ne {e : Event κ φ} (hs : ¬ e.Sets c) (hr : e.runs c = false) :
    (m.next k e).out c = m.out c := by
  cases e with
  | clock | pass _ | looked _ => rfl
  | armed c' _ _ | stopped c' => exact update_of_ne (Ne.symm hs) _ _
  | fired c' _ _ => exact update_of_ne (Ne.symm (of_decide_eq_false hr)) _ _

/-- Without an outstanding deadline, and without a new one, nothing runs. -/
theorem quiet_of_out_none (hlaw : Lawful k m log) (hout : m.out c = none)
    (harm : ∀ e ∈ log, ¬ e.Arms c) :
    log.filter (Event.runs c) = [] ∧ (replay k m log).out c = none := by
  induction log generalizing m with
  | nil => exact ⟨rfl, hout⟩
  | cons e log ih =>
    obtain ⟨hlegal, hlaw⟩ := hlaw
    have hruns : e.runs c = false := by
      cases e with
      | fired c' func cur =>
        refine decide_eq_false fun hc => ?_
        obtain ⟨t, f, ht, -⟩ := hlegal
        rw [hc, hout] at ht
        cases ht
      | clock | armed _ _ _ | stopped _ | pass _ | looked _ => rfl
    have hnext : (m.next k e).out c = none := by
      by_cases hs : e.Sets c
      · cases e with
        | stopped c' =>
          have hc : c' = c := hs
          subst hc
          exact update_self _ _ _
        | armed c' _ _ => exact absurd hs (harm _ mem_cons_self)
        | clock | pass _ | looked _ | fired _ _ _ => exact hs.elim
      · exact (next_out_of_ne hs hruns).trans hout
    obtain ⟨hfil, hrep⟩ := ih hlaw hnext fun e' he' => harm e' (mem_cons_of_mem e he')
    exact ⟨by rw [filter_cons_of_neg (by simp [hruns]), hfil], hrep⟩

/-- An outstanding deadline that is left alone is still there, or the callout ran once, when the
deadline had come. -/
theorem fired_iff_due (hlaw : Lawful k m log) {t : Nat} {f : φ} (hout : m.out c = some (t, f))
    (hset : ∀ e ∈ log, ¬ e.Sets c) :
    (log.filter (Event.runs c) = [] ∧ (replay k m log).out c = some (t, f)) ∨
    (log.filter (Event.runs c) = [.fired c (some f) (BitVec.ofNat 32 t)] ∧
      ∃ pre post, log = pre ++ .fired c (some f) (BitVec.ofNat 32 t) :: post ∧
        t < (replay k m pre).now) := by
  induction log generalizing m with
  | nil => exact .inl ⟨rfl, hout⟩
  | cons e log ih =>
    obtain ⟨hlegal, hlaw⟩ := hlaw
    have hs : ¬ e.Sets c := hset e mem_cons_self
    have hset' : ∀ e ∈ log, ¬ e.Sets c := fun e' he' => hset e' (mem_cons_of_mem e he')
    cases hr : e.runs c with
    | true =>
      cases e with
      | fired c' func cur =>
        have hc : c' = c := of_decide_eq_true hr
        subst hc
        obtain ⟨t', f', ht, rfl, rfl, hlt⟩ := hlegal
        obtain ⟨rfl, rfl⟩ := Prod.mk.inj (Option.some.inj (hout.symm.trans ht))
        have hnone : (m.next k (.fired c' (some f) (BitVec.ofNat 32 t))).out c' = none :=
          update_self _ _ _
        have hquiet := quiet_of_out_none hlaw hnone fun e' he' ha => hset' e' he' (by
          cases e' with
          | armed _ _ _ => exact ha
          | clock | stopped _ | pass _ | looked _ | fired _ _ _ => exact ha.elim)
        refine .inr ⟨by rw [filter_cons_of_pos hr, hquiet.1], [], log, rfl, hlt⟩
      | clock | armed _ _ _ | stopped _ | pass _ | looked _ => cases hr
    | false =>
      have hfil : (e :: log).filter (Event.runs c) = log.filter (Event.runs c) :=
        filter_cons_of_neg (by simp [hr])
      rw [hfil]
      obtain h | ⟨h, pre, post, rfl, hlt⟩ := ih hlaw ((next_out_of_ne hs hr).trans hout) hset'
      · exact .inl h
      · exact .inr ⟨h, e :: pre, post, rfl, hlt⟩

theorem not_fired_of_stopped (hlaw : Lawful k m (.stopped c :: log)) (harm : ∀ e ∈ log, ¬ e.Arms c)
    : log.filter (Event.runs c) = [] :=
  (quiet_of_out_none hlaw.2 (update_self _ _ _) harm).1

/-! ## Passes -/

/-- An entry that was looked at is not looked at again but by another pass, or after a callout was
put into the bucket. -/
theorem looked_again {mid : List (Event κ φ)} (hseen : c ∈ m.seen)
    (hlaw : Lawful k m (mid ++ .looked c :: log)) : (∃ curticks, .pass curticks ∈ mid) ∨
      ∃ pre c' toTicks ftn post, mid = pre ++ .armed c' toTicks ftn :: post ∧
        (replay k m pre).Joins k toTicks := by
  induction mid generalizing m with
  | nil => exact absurd hseen hlaw.1
  | cons e mid ih =>
    -- the event leaves the list of what was looked at, or is one of the two
    have hkeep : c ∈ (m.next k e).seen → (∃ curticks, .pass curticks ∈ e :: mid) ∨
        ∃ pre c' toTicks ftn post, e :: mid = pre ++ .armed c' toTicks ftn :: post ∧
          (replay k m pre).Joins k toTicks := by
      intro hseen'
      obtain ⟨cur, hcur⟩ | ⟨pre, c', n, ftn, post, rfl, hj⟩ := ih hseen' hlaw.2
      · exact .inl ⟨cur, mem_cons_of_mem e hcur⟩
      · exact .inr ⟨e :: pre, c', n, ftn, post, rfl, hj⟩
    cases e with
    | clock | stopped _ | fired _ _ _ => exact hkeep hseen
    | looked c' => exact hkeep (mem_cons_of_mem c' hseen)
    | pass cur => exact .inl ⟨cur, mem_cons_self⟩
    | armed c' n ftn =>
      by_cases hj : m.Joins k n
      · exact .inr ⟨[], c', n, ftn, mid, rfl, hj⟩
      · refine hkeep ?_
        change c ∈ if m.Joins k n then [] else m.seen
        rw [if_neg hj]
        exact hseen

end FStack.Timeout
