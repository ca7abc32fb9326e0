import FStack.MicroThread.HeapSpec
import FStack.Lib.Run

/-!
# Micro threads: who is woken up

Model of `MtFrame::WakeupTimeout` (`adapter/micro_thread/micro_thread.cpp:749-768`) and of the
timers (`heap_timer.cpp:49-90`). Both take the first entry out of their heap as long as its time has
come.

* `RemoveIoWait` and `RemoveSleep` take a thread out of the heap of sleepers with `HeapDelete`; it
  is put in the list of threads that may run.
* A timer that has expired is told so. Those of the program start again for a minute (`CDestLinks`,
  while it has links) or stop (`CDestLinks` without links, `TcpKeepConn`).
* The times are set by the callers, before `HeapPush` and by `start_timer` also if the timer is in
  the heap already; `Act` has this as a step of its own.

A heap in order is all that the loops need (`expire_exact`). A run keeps it in order exactly if no
entry is deleted whose place the last entry may not take, and no time in the heap is set to one that
is out of order (`Keeps`).
-/

namespace FStack.MicroThread

open Function List FStack.Lib FStack.Lib.Heap HeapList

variable {ι : Type} [DecidableEq ι]

/-! ## The loops -/

/-- The loop that takes out the entries whose time has come, and those it has taken out; `after` is
what is done then. There is no result if `fuel` rounds do not suffice. -/
def expire (now : Nat) (after : ι → HeapList ι → HeapList ι) :
    Nat → HeapList ι → Option (HeapList ι × List ι)
  | 0, _ => none
  | fuel + 1, h =>
    match h.heapTop with
    | none => some (h, [])
    | some e =>
      if h.value e ≤ now then
        (expire now after fuel (after e (h.heapDelete e).1)).map fun r => (r.1, e :: r.2)
      else some (h, [])

/-- The loop of `MtFrame::WakeupTimeout` over the sleeping threads. -/
def wakeupTimeout (now fuel : Nat) (h : HeapList ι) : Option (HeapList ι × List ι) :=
  expire now (fun _ h => h) fuel h

/-- `set_expired_time` and `SetWakeupTime`. -/
def setTime (h : HeapList ι) (e : ι) (time : Nat) : HeapList ι :=
  { h with value := update h.value e time }

/-- `start_timer` and its result. -/
def startTimer (h : HeapList ι) (timerable : ι) (now interval : Nat) : HeapList ι × Bool :=
  let r := (setTime h timerable (now + interval)).heapPush timerable
  (r.1, decide (0 ≤ r.2))

/-- `CTimerMng::stop_timer`. -/
def stopTimer (h : HeapList ι) (timerable : ι) : HeapList ι := (h.heapDelete timerable).1

section

variable (now : Nat)

/-- `timer_notify`: the timer starts again for a minute, or stops. -/
def timerNotify (restarts : ι → Bool) (timer : ι) (h : HeapList ι) : HeapList ι :=
  if restarts timer then (startTimer h timer now (60 * 1000)).1 else stopTimer h timer

/-- `CTimerMng::check_expired`. -/
def checkExpired (restarts : ι → Bool) (fuel : Nat) (h : HeapList ι) :
    Option (HeapList ι × List ι) :=
  expire now (timerNotify now restarts) fuel h

/-- The entries whose time has come are those taken out, and none is left. -/
structure Exact (h : HeapList ι) (r : HeapList ι × List ι) : Prop where
  rest : ∀ e, r.1.Stored e → now < r.1.value e
  due : ∀ e, e ∈ r.2 ↔ h.Stored e ∧ h.value e ≤ now

/-- What is done with an entry that was taken out keeps the heap, and brings the entry back for a
later time only. -/
def Later (after : ι → HeapList ι → HeapList ι) : Prop :=
  ∀ e h, h.Indexed → h.Sorted → ¬h.Stored e → (after e h).Indexed ∧ (after e h).Sorted ∧
    (∀ g ≠ e, ((after e h).Stored g ↔ h.Stored g) ∧ (after e h).value g = h.value g) ∧
    ((after e h).Stored e → now < (after e h).value e)

omit [DecidableEq ι] in
theorem later_id : Later now fun (_ : ι) h => h :=
  fun _ _ hi hs he => ⟨hi, hs, fun _ _ => ⟨Iff.rfl, rfl⟩, fun he' => absurd he' he⟩

end

variable {h : HeapList ι}

/-- The loop ends with the entries that are due taken out. -/
theorem expire_exact {now : Nat} {after : ι → HeapList ι → HeapList ι} (hafter : Later now after)
    {due : Finset ι} {fuel : Nat} (hi : h.Indexed) (hs : h.Sorted)
    (hdue : ∀ e, h.Stored e → h.value e ≤ now → e ∈ due) (hfuel : due.card < fuel) :
    ∃ r, expire now after fuel h = some r ∧ Exact now h r := by
  induction fuel generalizing due h with
  | zero => omega
  | succ fuel ih =>
    unfold expire heapTop
    by_cases hcount : 0 < h.count
    · obtain ⟨e, he, hindex⟩ := hi.aligned 1 Nat.one_pos hcount
      have hstored : h.Stored e := ⟨1, Nat.one_pos, hcount, he⟩
      simp only [if_pos hcount, he]
      by_cases hnow : h.value e ≤ now
      · rw [if_pos hnow, heapDelete_of_stored hi hstored, hindex]
        have htaken := taken_takeAt hi Nat.one_pos hcount
        have hsorted : (h.takeAt 1).Sorted :=
          (sorted_takeAt_iff Nat.one_pos hcount hs).2 fun hle => by omega
        have hout : ¬(h.takeAt 1).Stored e := fun hs => ((htaken.stored e).1 hs).2 he
        obtain ⟨hi', hs', hother, hlater⟩ := hafter e _ htaken.indexed hsorted hout
        -- Another entry is in the heap if it was, and at the same time.
        have hsame (g : ι) (hg : g ≠ e) : (after e (h.takeAt 1)).Stored g ∧
            (after e (h.takeAt 1)).value g ≤ now ↔ h.Stored g ∧ h.value g ≤ now := by
          rw [(hother g hg).1, (hother g hg).2, htaken.stored, htaken.value_eq, he]
          simp [Ne.symm hg]
        have hgone : ¬((after e (h.takeAt 1)).Stored e ∧ (after e (h.takeAt 1)).value e ≤ now) :=
          fun hback => not_le.2 (hlater hback.1) hback.2
        have hdue' (g : ι) (hg : (after e (h.takeAt 1)).Stored g)
            (hle : (after e (h.takeAt 1)).value g ≤ now) : g ∈ due.erase e := by
          have hg' : g ≠ e := by
            rintro rfl
            exact hgone ⟨hg, hle⟩
          obtain ⟨hold, hold'⟩ := (hsame g hg').1 ⟨hg, hle⟩
          exact Finset.mem_erase.2 ⟨hg', hdue g hold hold'⟩
        have hcard := Finset.card_erase_lt_of_mem (hdue e hstored hnow)
        obtain ⟨r, hr, hexact⟩ := ih hi' hs' hdue' (by omega)
        refine ⟨(r.1, e :: r.2), by rw [hr]; rfl, hexact.rest, fun g => ?_⟩
        rw [mem_cons, hexact.due]
        by_cases hg : g = e
        · subst hg
          exact iff_of_true (.inl rfl) ⟨hstored, hnow⟩
        · rw [or_iff_right hg, hsame g hg]
      · rw [if_neg hnow]
        have hall (g : ι) (hg : h.Stored g) : now < h.value g :=
          Nat.lt_of_lt_of_le (not_le.1 hnow) (hs.root_le he hg)
        refine ⟨_, rfl, hall, fun g => ?_⟩
        exact iff_of_false (not_mem_nil) fun hg => not_le.2 (hall g hg.1) hg.2
    · simp only [if_neg hcount]
      have hnone (g : ι) : ¬h.Stored g := fun ⟨pos, hpos, hle, _⟩ => by omega
      refine ⟨_, rfl, fun g hg => absurd hg (hnone g), fun g => ?_⟩
      exact iff_of_false (not_mem_nil) fun hg => hnone g hg.1

/-! ## Times that change -/

section SetTime

variable {e : ι} {time : Nat}

variable (hi : h.Indexed)

include hi

theorem indexed_setTime : (setTime h e time).Indexed := ⟨hi.aligned, hi.outside⟩

theorem valueAt_setTime {pos : Nat} (hpos : 0 < pos) (hle : pos ≤ h.count) :
    (setTime h e time).valueAt pos = if h.index e = pos then time else h.valueAt pos := by
  obtain ⟨g, hg, hig⟩ := hi.aligned pos hpos hle
  rw [valueAt_of_list (show (setTime h e time).list pos = some g from hg), valueAt_of_list hg]
  by_cases heq : g = e
  · subst heq
    rw [if_pos hig]
    exact update_self ..
  · rw [if_neg]
    · exact update_of_ne heq _ _
    · intro hpos'
      have hstored : h.Stored e := hi.stored_iff.2 (by omega)
      have he := (hi.aligned.of_stored hstored).2.2
      rw [hpos', hg] at he
      exact heq (Option.some.inj he)

/-- The time of an entry outside the heap does not matter. -/
theorem sorted_setTime (he : ¬h.Stored e) :
    (setTime h e time).Sorted ↔ h.Sorted := by
  refine ordered_congr fun pos hpos hle => ?_
  rw [valueAt_setTime hi hpos hle, hi.outside e he, if_neg (Nat.ne_of_lt hpos)]

theorem sorted_setTime_iff (hs : h.Sorted) (he : h.Stored e) :
    (setTime h e time).Sorted ↔ (2 ≤ h.index e → h.valueAt (h.index e / 2) ≤ time) ∧
      ∀ i ≤ h.count, i / 2 = h.index e → time ≤ h.valueAt i := by
  obtain ⟨hpos, hle, -⟩ := hi.aligned.of_stored he
  rw [← ordered_set_iff hs hpos hle]
  refine ordered_congr fun pos hpos hle => ?_
  rw [valueAt_setTime hi hpos hle, update_apply]
  simp only [eq_comm]

end SetTime

theorem later_timerNotify (now : Nat) (restarts : ι → Bool) :
    Later now (timerNotify now restarts) := by
  intro e h hi hs he
  unfold timerNotify
  split
  · have hi' : (setTime h e (now + 60 * 1000)).Indexed := indexed_setTime hi
    obtain ⟨hvalue, hstored⟩ := heapPush_others e hi'
    have hvalue' : (startTimer h e now (60 * 1000)).1.value =
        update h.value e (now + 60 * 1000) :=
      hvalue
    refine ⟨indexed_heapPush hi', sorted_heapPush ((sorted_setTime hi he).2 hs),
      fun g hg => ⟨hstored g hg, ?_⟩, fun _ => ?_⟩
    · rw [hvalue', update_of_ne hg]
    · rw [hvalue', update_self]
      omega
  · rw [stopTimer, heapDelete_of_not_stored hi he]
    exact later_id now e h hi hs he

/-! ## Runs -/

/-- The calls of a `HeapList`, and the writes of an entry's time. -/
inductive Act (ι : Type) where
  | setTime (e : ι) (time : Nat)
  | push (e : ι)
  | pop
  | delete (e : ι)
  | resize (size : Nat)

/-- One call. -/
def step (h : HeapList ι) : Act ι → HeapList ι
  | .setTime e time => setTime h e time
  | .push e => (h.heapPush e).1
  | .pop => h.heapPop.1
  | .delete e => (h.heapDelete e).1
  | .resize size => h.heapResize size

/-- The entries are a minimum heap and know their positions; those whose time has come are woken up,
and no others. -/
structure Sound (h : HeapList ι) : Prop where
  indexed : h.Indexed
  sorted : h.Sorted
  wakes : ∀ now, ∃ fuel r, wakeupTimeout now fuel h = some r ∧ Exact now h r
  expires : ∀ now restarts, ∃ fuel r, checkExpired now restarts fuel h = some r ∧ Exact now h r

theorem sound_iff : Sound h ↔ h.Indexed ∧ h.Sorted := by
  refine ⟨fun hsound => ⟨hsound.indexed, hsound.sorted⟩, fun ⟨hi, hs⟩ => ?_⟩
  have hdue : ∀ e, h.Stored e → e ∈ ((range (h.count + 1)).filterMap h.list).toFinset := by
    rintro e ⟨pos, -, hle, he⟩
    exact mem_toFinset.2 (mem_filterMap.2 ⟨pos, mem_range.2 (by omega), he⟩)
  have hloop {now : Nat} {after : ι → HeapList ι → HeapList ι} (hafter : Later now after) :=
    expire_exact hafter hi hs (fun e he _ => hdue e he) (Nat.lt_succ_self _)
  exact ⟨hi, hs, fun now => ⟨_, hloop (later_id now)⟩,
    fun now restarts => ⟨_, hloop (later_timerNotify now restarts)⟩⟩

/-- A time in the heap stays in order with those above and below it, and if an entry is deleted, the
last one is not before the one above its place. -/
def Keeps (h : HeapList ι) : Act ι → Prop
  | .setTime e time => h.Stored e → (2 ≤ h.index e → h.valueAt (h.index e / 2) ≤ time) ∧
      ∀ i ≤ h.count, i / 2 = h.index e → time ≤ h.valueAt i
  | .delete e => 2 ≤ h.index e → h.valueAt (h.index e / 2) ≤ h.valueAt h.count
  | _ => True

theorem indexed_step (hi : h.Indexed) (act : Act ι) : (step h act).Indexed := by
  cases act with
  | setTime e time => exact indexed_setTime hi
  | push e => exact indexed_heapPush hi
  | pop =>
    obtain heq | ⟨heq, htaken⟩ := heapPop_cases hi
    · rw [step, heq]
      exact hi
    · rw [step, heq]
      exact htaken.indexed
  | delete e =>
    rw [step]
    by_cases he : h.Stored e
    · obtain ⟨hpos, hle, -⟩ := hi.aligned.of_stored he
      rw [heapDelete_of_stored hi he]
      exact (taken_takeAt hi hpos hle).indexed
    · rw [heapDelete_of_not_stored hi he]
      exact hi
  | resize size =>
    rw [step, heapResize]
    split
    · exact hi
    · exact ⟨hi.aligned, hi.outside⟩

theorem sorted_step_iff (hi : h.Indexed) (hs : h.Sorted) (act : Act ι) :
    (step h act).Sorted ↔ Keeps h act := by
  cases act with
  | setTime e time =>
    by_cases he : h.Stored e
    · rw [Keeps, forall_prop_of_true he]
      exact sorted_setTime_iff hi hs he
    · exact iff_of_true ((sorted_setTime hi he).2 hs) fun he' => absurd he' he
  | push e => exact iff_of_true (sorted_heapPush hs) trivial
  | pop =>
    refine iff_of_true ?_ trivial
    rw [step, heapPop]
    split
    · exact hs
    · exact (sorted_takeAt_iff Nat.one_pos (by omega) hs).2 fun hle => by omega
  | delete e =>
    rw [step]
    by_cases he : h.Stored e
    · obtain ⟨hpos, hle, -⟩ := hi.aligned.of_stored he
      rw [heapDelete_of_stored hi he]
      exact sorted_takeAt_iff hpos hle hs
    · rw [heapDelete_of_not_stored hi he]
      refine iff_of_true hs fun hle => ?_
      rw [hi.outside e he] at hle
      omega
  | resize size =>
    refine iff_of_true ?_ trivial
    rw [step, heapResize]
    split <;> exact hs

theorem sound_new (max : Nat) (value : ι → Nat) : Sound (new max value) := by
  refine sound_iff.2 ⟨⟨fun pos hpos hle => ?_, fun _ _ => rfl⟩, fun i hi hle => ?_⟩
  · exact absurd hle (not_le.2 hpos)
  · exact absurd hle (not_le.2 (by show 0 < i; omega))

/-- **The heap is sound after each step of a run exactly if every step keeps it in order**: the
operations' only fault is that an entry which takes another one's place does not move up. -/
theorem sound_run_iff (max : Nat) (value : ι → Nat) (acts : List (Act ι)) :
    (∀ pre, pre <+: acts → Sound (pre.foldl step (new max value))) ↔
      Run.Guarded step Keeps (new max value) acts := by
  refine Run.guarded_iff (fun h act hsound => ?_) (sound_new max value)
  rw [sound_iff, and_iff_right (indexed_step hsound.indexed act)]
  exact sorted_step_iff hsound.indexed hsound.sorted act

/-- Six entries, of which the fourth one is deleted: the last one, which is due at 3, is then below
one that is due at 10. -/
theorem delete_not_sound :
    ¬∀ (max : Nat) (value : Nat → Nat) (acts : List (Act Nat)),
      Sound (acts.foldl step (new max value)) := by
  intro h
  have hsound := h 10 (fun e => [1, 10, 2, 11, 12, 3].getD e 0)
    [.push 0, .push 1, .push 2, .push 3, .push 4, .push 5, .delete 3]
  have hbad := hsound.sorted 4 (by decide) (by decide +kernel)
  revert hbad
  decide +kernel

end FStack.MicroThread
