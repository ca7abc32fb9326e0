import FStack.Lib.Cursor
import FStack.Lib.Loop
import Mathlib.Algebra.Group.Nat.Defs

/-!
# The callout wheel

Model of `lib/ff_kern_timeout.c`: arming (`callout_reset_tick_on`, `718-800`, and `callout_cc_add`,
`372-395`), stopping (`_ff_callout_stop_safe`, `825-1047`, as `callout_stop` calls it), and the
clock: `ff_hardclock` (`1243`), `callout_tick` (`324-352`), `softclock` (`583-635`) and
`softclock_call_cc` (`408-565`).

Ticks are 32-bit numbers that wrap around. A bucket is the list of its callouts, `cc_next` the
pointer the scan of a bucket goes on from. A callback is given by what it resets and stops, which
may depend on all that happened before. The log says what happened; nothing of the model reads it
but the callbacks.

There is one thread, so locks are free: `cc_exec_cancel` is still false when `softclock_call_cc`
looks at it. `softclock` runs every callout as the second `cc_exec_entity`. The flags
`CALLOUT_LOCAL_ALLOC`, `CALLOUT_DFRMIGRATION` and `CALLOUT_PROCESSED` are never set, and there is no
drain.
-/

namespace FStack.Timeout

open Function FStack.Lib

/-- An `int` that counts ticks. -/
abbrev Tick := BitVec 32

/-- `struct callout`. -/
structure Callout (φ : Type) where
  pending : Bool
  active : Bool
  direct : Bool
  lock : Bool
  time : Tick
  func : Option φ

/-- `struct cc_exec`. -/
structure Exec (κ : Type) where
  curr : Option κ
  cancel : Bool
  waiting : Bool

/-- What happens. -/
inductive Event (κ φ : Type) where
  /-- A tick of the clock. -/
  | clock
  /-- `callout_reset`. -/
  | armed (c : κ) (toTicks : Tick) (ftn : φ)
  /-- `callout_stop`. -/
  | stopped (c : κ)
  /-- A pass of `softclock` over the bucket of `curticks`. -/
  | pass (curticks : Tick)
  /-- An entry the pass looks at. -/
  | looked (c : κ)
  /-- A callback runs. -/
  | fired (c : κ) (func : Option φ) (curticks : Tick)
  deriving DecidableEq

/-- What a callback, or anyone else, does. -/
inductive Op (κ φ : Type) where
  | reset (c : κ) (toTicks : Tick) (ftn : φ) (direct : Bool)
  | stop (c : κ)

/-- `struct callout_cpu`, with `ticks` and the callouts; `exec` is by `direct`. -/
structure Cc (κ φ : Type) where
  ticks : Tick
  softticks : Tick
  wheel : Nat → List κ
  next : Option κ
  bucket : Nat
  exec : Bool → Exec κ
  co : κ → Callout φ
  log : List (Event κ φ)

/-- `callout_get_bucket`, for a wheel of `2 ^ k` buckets. -/
def bucketOf (k : Nat) (t : Tick) : Nat := t.toNat % 2 ^ k

/-- The ticks `callout_reset` waits. -/
def atLeastOne (toTicks : Tick) : Tick := if toTicks.toInt ≤ 0 then 1 else toTicks

section

variable {κ φ : Type} [DecidableEq κ]

/-- Appends to the log. -/
def Cc.note (s : Cc κ φ) (e : Event κ φ) : Cc κ φ := { s with log := s.log ++ [e] }

/-- A wheel after `callout_cpu_init`; `lock` says which callouts have one. -/
def init (lock : κ → Bool) : Cc κ φ where
  ticks := 0
  softticks := 0
  wheel := fun _ => []
  next := none
  bucket := 0
  exec := fun _ => ⟨none, false, false⟩
  co := fun c => ⟨false, false, false, lock c, 0, none⟩
  log := []

/-! ## Arming and stopping -/

variable (k : Nat)

variable (s : Cc κ φ)

/-- `LIST_REMOVE` of a pending callout, with `cc_next` moved on. -/
def unlink (c : κ) : Cc κ φ :=
  let b := bucketOf k (s.co c).time
  { s with
    next := if s.next = some c then Cursor.after (s.wheel b) c else s.next
    wheel := update s.wheel b ((s.wheel b).erase c)
    co := update s.co c { s.co c with pending := false, active := false } }

/-- `callout_cc_add`. -/
def calloutCcAdd (c : κ) (toTicks : Tick) (ftn : φ) (direct : Bool) : Cc κ φ :=
  let time := s.ticks + toTicks
  let b := bucketOf k time
  { s with
    co := update s.co c { s.co c with
      pending := true, active := true, direct := (s.co c).direct || direct, time := time,
      func := some ftn }
    wheel := update s.wheel b (c :: s.wheel b)
    next := if s.bucket = b then some c else s.next }

/-- `callout_reset_tick_on`, and whether it cancelled. -/
def calloutReset (c : κ) (toTicks : Tick) (ftn : φ) (direct : Bool) : Cc κ φ × Bool :=
  let s := s.note (.armed c toTicks ftn)
  let e := s.exec direct
  let running : Bool := e.curr = some c
  let cancelled := running && (s.co c).lock && !e.cancel
  let s := { s with exec := update s.exec direct { e with cancel := e.cancel || cancelled } }
  -- someone waits for it to be gone
  if running && e.waiting then (s, cancelled)
  else
    (calloutCcAdd k (if (s.co c).pending then unlink k s c else s) c (atLeastOne toTicks) ftn direct,
      cancelled || (s.co c).pending)

/-- `callout_stop`, and what it returns. -/
def calloutStop (c : κ) : Cc κ φ × Int :=
  let s := s.note (.stopped c)
  let direct := (s.co c).direct
  let e := s.exec direct
  if e.curr = some c then
    let s := { s with co := update s.co c { s.co c with active := false } }
    -- it waits for its lock
    if (s.co c).lock && !e.cancel then
      ({ s with exec := update s.exec direct { e with cancel := true } }, 1)
    else if (s.co c).pending then (unlink k s c, 0)
    else (s, 0)
  else if (s.co c).pending then (unlink k s c, 1)
  else (s, -1)

/-- A call of `callout_reset_tick_on` or `callout_stop`. -/
def runOp : Op κ φ → Cc κ φ
  | .reset c toTicks ftn direct => (calloutReset k s c toTicks ftn direct).1
  | .stop c => (calloutStop k s c).1

/-! ## The clock -/

/-- What the callbacks do, by all that happened and the callback. -/
abbrev Env (κ φ : Type) := List (Event κ φ) → φ → List (Op κ φ)

variable (env : Env κ φ)

/-- `softclock_call_cc`, for a callout that was taken off its list. -/
def softclockCallCc (curticks : Tick) (s : Cc κ φ) (c : κ) : Cc κ φ :=
  let func := (s.co c).func
  let s := { s with
    co := update s.co c { s.co c with pending := false }
    exec := update s.exec true
      { s.exec true with curr := some c, cancel := (s.co c).lock } }
  let s := s.note (.fired c func curticks)
  let s := (func.elim [] (env s.log)).foldl (runOp k) s
  { s with
    exec := update s.exec true { s.exec true with curr := none, waiting := false } }

/-- The body of `while (c)`. -/
def scanStep (curticks : Tick) (s : Cc κ φ) :
    Option κ → Cc κ φ × Option κ
  | none => (s, none)
  | some c =>
    let b := bucketOf k curticks
    let s := s.note (.looked c)
    let next := Cursor.after (s.wheel b) c
    if (s.co c).time ≠ curticks then (s, next)
    else
      let s := { s with
        next := next
        bucket := b
        wheel := update s.wheel b ((s.wheel b).erase c) }
      let s := softclockCallCc k env curticks s c
      ({ s with next := none }, s.next)

/-- One round of `softclock`. -/
def pass (k : Nat) (env : Env κ φ) (fuel : Nat) (s : Cc κ φ) : Option (Cc κ φ) :=
  let curticks := s.softticks
  let s := { s with softticks := s.softticks + 1 }.note (.pass curticks)
  (Loop.whileLoop (fun sp => sp.2.isSome) (fun _ sp => some (scanStep k env curticks sp.1 sp.2)) fuel
    (s, (s.wheel (bucketOf k curticks)).head?)).map Prod.fst

variable (fuel : Nat)

/-- `softclock`. -/
def softclock (s : Cc κ φ) : Option (Cc κ φ) :=
  Loop.whileLoop (fun s => s.softticks != s.ticks) (pass k env) fuel s

/-- The test of the loop of `callout_tick`. -/
def Cc.behind : Bool := (s.softticks - s.ticks).toInt < 0

variable (s : Cc κ φ)

/-- `callout_tick`. -/
def calloutTick : Option (Cc κ φ) :=
  (Loop.whileLoop (fun s => s.behind && (s.wheel (bucketOf k s.softticks)).isEmpty)
    (fun _ s => some { s with softticks := s.softticks + 1 }) fuel s).bind fun s =>
  if s.behind then softclock k env fuel s else some s

/-- `ff_hardclock`. -/
def ffHardclock : Option (Cc κ φ) :=
  calloutTick k env fuel ({ s with ticks := s.ticks + 1 }.note .clock)

/-- A step of the stack: a call from outside, or a tick. -/
inductive Input (κ φ : Type) where
  | op (op : Op κ φ)
  | hardclock

/-- A call from outside the passes, or a hardware tick. -/
def step : Input κ φ → Option (Cc κ φ)
  | .op op => some (runOp k s op)
  | .hardclock => ffHardclock k env fuel s

/-- The state after a sequence of inputs, if every pass ends. -/
def run (is : List (Input κ φ)) : Option (Cc κ φ) :=
  is.foldlM (step k env fuel) s

end

end FStack.Timeout
