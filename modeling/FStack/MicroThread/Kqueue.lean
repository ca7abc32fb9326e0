import FStack.Lib.Run
import Mathlib.Data.Fintype.Basic

/-!
# Micro threads: which events a descriptor is registered for

Model of `KqFdRef` and of `KqueueCtrlAdd`, `KqueueCtrlDel` and `KqueueCtrlDelRef`
(`adapter/micro_thread/kqueue_proxy.h:156-219`, `kqueue_proxy.cpp:168-311`). The proxy records for
each descriptor the events it listens to. A change of them is made by deleting every filter that is
recorded and adding anew, with one `ff_kevent` for each filter, and stops at the first one that
fails.

* A mask of events is an `int`: `KQ_EVENT_READ` and `KQ_EVENT_WRITE` are its two lowest bits.
* `ff_kevent` may fail; it does if a filter is to be deleted that is not in the kqueue. A call makes
  each change at most once, so which of them fail is a function of the change.

`KqueueCtrlAdd` adds the events of the call, not those it records, and no failure is undone.
-/

namespace FStack.MicroThread

open Function FStack.Lib

/-- `EVFILT_READ` and `EVFILT_WRITE`. -/
inductive Filter where
  | read
  | write
deriving DecidableEq

instance : Fintype Filter where
  elems := {.read, .write}
  complete := by rintro (_ | _) <;> decide

/-- `KQ_EVENT_READ` and `KQ_EVENT_WRITE`. -/
def Filter.event : Filter → BitVec 32
  | .read => 1
  | .write => 2

/-- The mask has the bit of the filter. -/
def has (events : BitVec 32) (filter : Filter) : Bool := events &&& filter.event ≠ 0

/-- A change of the kqueue: `EV_DELETE` or `EV_ADD` of a filter. -/
inductive Change where
  | delete (filter : Filter)
  | add (filter : Filter)
deriving DecidableEq

/-- `ff_kevent` with one change, on the filters of the descriptor. -/
def ffKevent (filters : Filter → Bool) (fails : Change → Bool) (change : Change) :
    Option (Filter → Bool) :=
  if fails change then none
  else
    match change with
    | .delete filter => if filters filter then some (update filters filter false) else none
    | .add filter => some (update filters filter true)

/-- The changes one after the other, until one fails; the filters then, and whether none has. -/
def submit (fails : Change → Bool) : List Change → (Filter → Bool) → (Filter → Bool) × Bool
  | [], filters => (filters, true)
  | change :: rest, filters =>
    match ffKevent filters fails change with
    | none => (filters, false)
    | some filters => submit fails rest filters

/-- The changes from the filters `old` to the filters `target`. -/
def changes (old target : Filter → Bool) : List Change :=
  (if old .write then [.delete .write] else []) ++ (if old .read then [.delete .read] else []) ++
    (if target .write then [.add .write] else []) ++ (if target .read then [.add .read] else [])

/-- `KqFdRef`; `ω` are the objects that are notified. -/
structure KqFdRef (ω : Type) where
  wrRef : Nat
  rdRef : Nat
  events : BitVec 32
  kqobj : Option ω

namespace KqFdRef

variable {ω : Type}

/-- A `KqFdRef` as its constructor leaves it. -/
def new : KqFdRef ω := ⟨0, 0, 0, none⟩

variable (item : KqFdRef ω)

/-- `KqFdRef::AttachEvents`. -/
def attachEvents (event : BitVec 32) : KqFdRef ω :=
  { item with
    rdRef := if has event .read then item.rdRef + 1 else item.rdRef
    wrRef := if has event .write then item.wrRef + 1 else item.wrRef }

/-- `KqFdRef::DetachEvents`. -/
def detachEvents (event : BitVec 32) : KqFdRef ω :=
  { item with
    rdRef := if has event .read then item.rdRef - 1 else item.rdRef
    wrRef := if has event .write then item.wrRef - 1 else item.wrRef }

/-- The events that are left, in `KqueueCtrlDelRef`. -/
def left (events : BitVec 32) (useRef : Bool) : BitVec 32 :=
  if useRef then
    let rest := item.events
    let rest := if item.rdRef = 0 then rest &&& ~~~Filter.read.event else rest
    if item.wrRef = 0 then rest &&& ~~~Filter.write.event else rest
  else item.events &&& ~~~events

end KqFdRef

/-- `KqueueProxy`, and the filters in the kqueue. -/
structure KqueueProxy (ω : Type) where
  maxfd : Nat
  kqrefs : Int → KqFdRef ω
  filters : Int → Filter → Bool

namespace KqueueProxy

variable {ω : Type}

/-- After `InitKqueue`. -/
def init (maxfd : Nat) : KqueueProxy ω := ⟨maxfd, fun _ => .new, fun _ _ => false⟩

section

variable (p : KqueueProxy ω)

variable (fd : Int)

/-- `KqueueProxy::KqFdRefGet`. -/
def kqFdRefGet : Option (KqFdRef ω) :=
  if fd ≥ p.maxfd ∨ fd < 0 then none else some (p.kqrefs fd)

/-- Writes the entry of a descriptor. -/
def setRef (item : KqFdRef ω) : KqueueProxy ω :=
  { p with kqrefs := update p.kqrefs fd item }

/-- Writes which filters of a descriptor the kernel has. -/
def setFilters (filters : Filter → Bool) : KqueueProxy ω :=
  { p with filters := update p.filters fd filters }

variable (events : BitVec 32)

/-- `KqueueProxy::KqueueCtrlAdd`. -/
def kqueueCtrlAdd (fails : Change → Bool) : KqueueProxy ω × Bool :=
  match p.kqFdRefGet fd with
  | none => (p, false)
  | some item =>
    let item := item.attachEvents events
    let old := item.events
    let new := old ||| events
    if old = new then (p.setRef fd item, true)
    else
      let r := submit fails (changes (has old) (has events)) (p.filters fd)
      let p := p.setFilters fd r.1
      if r.2 then (p.setRef fd { item with events := new }, true)
      else (p.setRef fd (item.detachEvents events), false)

/-- `KqueueProxy::KqueueCtrlDelRef`. -/
def kqueueCtrlDelRef (useRef : Bool) (fails : Change → Bool) : KqueueProxy ω × Bool :=
  match p.kqFdRefGet fd with
  | none => (p, false)
  | some item =>
    let item := item.detachEvents events
    let old := item.events
    let new := item.left events useRef
    if old = new then (p.setRef fd item, true)
    else
      let r := submit fails (changes (has old) (has new)) (p.filters fd)
      let p := p.setFilters fd r.1
      if r.2 then (p.setRef fd { item with events := new }, true) else (p.setRef fd item, false)

/-- `KqueueProxy::KqueueCtrlDel`. -/
def kqueueCtrlDel (fails : Change → Bool) : KqueueProxy ω × Bool :=
  p.kqueueCtrlDelRef fd events false fails

/-- `KqFdRef::SetNotifyObj` on the entry of a descriptor. -/
def setNotifyObj (obj : Option ω) : KqueueProxy ω :=
  p.setRef fd { p.kqrefs fd with kqobj := obj }

end

variable [DecidableEq ω]

/-- `KqueueAddObj`, with `KqueuerObj::KqueueCtlAdd`. -/
def kqueueAddObj (p : KqueueProxy ω) (obj : ω) (fd : Int) (events : BitVec 32)
    (fails : Change → Bool) : KqueueProxy ω × Bool :=
  match p.kqFdRefGet fd with
  | none => (p, false)
  | some item =>
    if item.kqobj ≠ none ∧ item.kqobj ≠ some obj then (p, false)
    else
      let r := (p.setNotifyObj fd (some obj)).kqueueCtrlAdd fd events fails
      if r.2 then r else (r.1.setNotifyObj fd item.kqobj, false)

/-- `KqueueDelObj`, with `KqueuerObj::KqueueCtlDel`. -/
def kqueueDelObj (p : KqueueProxy ω) (obj : ω) (fd : Int) (events : BitVec 32)
    (fails : Change → Bool) : KqueueProxy ω × Bool :=
  match p.kqFdRefGet fd with
  | none => (p, false)
  | some item =>
    if item.kqobj ≠ some obj then (p, false)
    else
      let r := (p.setNotifyObj fd none).kqueueCtrlDelRef fd events false fails
      if r.2 then r else (r.1.setNotifyObj fd item.kqobj, false)

end KqueueProxy

/-! ## Masks -/

/-- The position of the filter's bit. -/
def Filter.bit : Filter → Nat
  | .read => 0
  | .write => 1

theorem has_eq (events : BitVec 32) (filter : Filter) :
    has events filter = events.getLsbD filter.bit := by
  have hevent : filter.event = BitVec.twoPow 32 filter.bit := by cases filter <;> rfl
  have hne : BitVec.twoPow 32 filter.bit ≠ 0#32 := by cases filter <;> decide
  rw [has, hevent, BitVec.and_twoPow]
  cases events.getLsbD filter.bit <;> simp [hne]

variable (a b : BitVec 32)

section

variable (filter : Filter)

@[simp] theorem has_or :
    has (a ||| b) filter = (has a filter || has b filter) := by
  simp only [has_eq, BitVec.getLsbD_or]

@[simp] theorem has_and_not :
    has (a &&& ~~~b) filter = (has a filter && !has b filter) := by
  have hlt : filter.bit < 32 := by cases filter <;> decide
  simp only [has_eq, BitVec.getLsbD_and, BitVec.getLsbD_not, hlt, decide_true, Bool.true_and]

@[simp] theorem has_event (filter filter' : Filter) :
    has filter.event filter' = decide (filter = filter') := by
  cases filter <;> cases filter' <;> decide

@[simp] theorem has_zero : has 0 filter = false := by cases filter <;> decide

end

/-! ## What a change of the filters leaves -/

section

variable (old target : Filter → Bool)

variable (fails : Change → Bool)

/-- Nothing is left of a change that has failed: its first `ff_kevent` has failed, or `EVFILT_WRITE`
was the only filter, both are wanted and `EVFILT_WRITE` has been added again. -/
def Undone : Prop :=
  (changes old target).head?.any fails = true ∨
    (old .read = false ∧ old .write = true ∧ target .read = true ∧ target .write = true ∧
      fails (.delete .write) = false ∧ fails (.add .write) = false)

instance (old target : Filter → Bool) (fails : Change → Bool) :
    Decidable (Undone old target fails) :=
  inferInstanceAs (Decidable (_ ∨ _))

/-- What is left of the change from `old` to `target`. -/
structure Replaced
    (r : (Filter → Bool) × Bool) : Prop where
  result : r.2 = !(changes old target).any fails
  made : r.2 = true → r.1 = target
  undone : r.2 = false → (r.1 = old ↔ Undone old target fails)

/-- The filters, or the failures, one by one. -/
def ofBits (write read : Bool) : Filter → Bool
  | .write => write
  | .read => read

/-- A choice for each of the four changes. -/
def Change.ofBits (deleteWrite deleteRead addWrite addRead : Bool) : Change → Bool
  | .delete filter => MicroThread.ofBits deleteWrite deleteRead filter
  | .add filter => MicroThread.ofBits addWrite addRead filter

theorem ofBits_eq (filters : Filter → Bool) : ofBits (filters .write) (filters .read) = filters := by
  funext filter
  cases filter <;> rfl

theorem Change.ofBits_eq :
    Change.ofBits (fails (.delete .write)) (fails (.delete .read)) (fails (.add .write))
      (fails (.add .read)) = fails := by
  funext change
  obtain filter | filter := change <;> cases filter <;> rfl

theorem replaced_submit :
    Replaced old target fails (submit fails (changes old target) old) := by
  have hcases : ∀ w r w' r' dw dr aw ar : Bool,
      let old := ofBits w r
      let target := ofBits w' r'
      let fails := Change.ofBits dw dr aw ar
      let s := submit fails (changes old target) old
      s.2 = !(changes old target).any fails ∧ (s.2 = true → s.1 = target) ∧
        (s.2 = false → (s.1 = old ↔ Undone old target fails)) := by
    decide +kernel
  obtain ⟨hresult, hmade, hundone⟩ := hcases (old .write) (old .read) (target .write) (target .read)
    (fails (.delete .write)) (fails (.delete .read)) (fails (.add .write)) (fails (.add .read))
  simp only [ofBits_eq, Change.ofBits_eq] at hresult hmade hundone
  exact ⟨hresult, hmade, hundone⟩

end

/-- A change that has not failed: whatever was registered, the old filters were and are deleted, and
the others are added. -/
theorem submit_made (filters old target : Filter → Bool) (fails : Change → Bool)
    (hok : (submit fails (changes old target) filters).2 = true) (filter : Filter) :
    (old filter = true → filters filter = true) ∧
      (submit fails (changes old target) filters).1 filter =
        (filters filter && !old filter || target filter) := by
  have hcases : ∀ fw fr w r w' r' dw dr aw ar : Bool,
      let filters := ofBits fw fr
      let old := ofBits w r
      let target := ofBits w' r'
      let s := submit (Change.ofBits dw dr aw ar) (changes old target) filters
      s.2 = true → ∀ filter, (old filter = true → filters filter = true) ∧
        s.1 filter = (filters filter && !old filter || target filter) := by
    decide +kernel
  have hbits := hcases (filters .write) (filters .read) (old .write) (old .read) (target .write)
    (target .read) (fails (.delete .write)) (fails (.delete .read)) (fails (.add .write))
    (fails (.add .read))
  simp only [ofBits_eq, Change.ofBits_eq] at hbits
  exact hbits hok filter

/-! ## Runs -/

namespace KqueueProxy

variable {ω : Type}

/-- A call, and which of its changes fail. -/
inductive Call where
  | ctrlAdd (fd : Int) (events : BitVec 32) (fails : Change → Bool)
  | ctrlDel (fd : Int) (events : BitVec 32) (fails : Change → Bool)
  | ctrlDelRef (fd : Int) (events : BitVec 32) (useRef : Bool) (fails : Change → Bool)

/-- The descriptor of a call. -/
def Call.fd : Call → Int
  | .ctrlAdd fd _ _ | .ctrlDel fd _ _ | .ctrlDelRef fd _ _ _ => fd

section

variable (p : KqueueProxy ω)

/-- The state and the result of a call. -/
def perform : Call → KqueueProxy ω × Bool
  | .ctrlAdd fd events fails => p.kqueueCtrlAdd fd events fails
  | .ctrlDel fd events fails => p.kqueueCtrlDel fd events fails
  | .ctrlDelRef fd events useRef fails => p.kqueueCtrlDelRef fd events useRef fails

/-- The state after a call. -/
def step (call : Call) : KqueueProxy ω := (p.perform call).1

/-- The filters in the kqueue are those that are recorded. -/
def Agrees (fd : Int) : Prop := p.filters fd = has (p.kqrefs fd).events

/-- What is recorded for `fd` is what is registered, after a call that returns true; after one that
returns false both are as they were. -/
def RightFor (fd : Int) (r : KqueueProxy ω × Bool) : Prop :=
  if r.2 then r.1.Agrees fd
  else r.1.filters = p.filters ∧ ∀ fd', (r.1.kqrefs fd').events = (p.kqrefs fd').events

/-- The call does what it returns. -/
def Right (call : Call) : Prop := p.RightFor call.fd (p.perform call)

/-- The change from `old` to `target` has not failed, or nothing is left of it. -/
def Clean (old target : BitVec 32) (fails : Change → Bool) : Prop :=
  (changes (has old) (has target)).any fails = true → Undone (has old) (has target) fails

/-- If `KqueueCtrlAdd` changes the mask, the events of the call include those recorded already, and
no change fails in the middle. -/
def Safe : Call → Prop
  | .ctrlAdd fd events fails => ∀ item, p.kqFdRefGet fd = some item →
    item.events ||| events ≠ item.events → Clean item.events events fails ∧
      ((changes (has item.events) (has events)).any fails = false →
        ∀ filter, has item.events filter = true → has events filter = true)
  | .ctrlDel fd events fails => ∀ item, p.kqFdRefGet fd = some item →
    (item.detachEvents events).left events false ≠ item.events →
      Clean item.events ((item.detachEvents events).left events false) fails
  | .ctrlDelRef fd events useRef fails => ∀ item, p.kqFdRefGet fd = some item →
    (item.detachEvents events).left events useRef ≠ item.events →
      Clean item.events ((item.detachEvents events).left events useRef) fails

end

section Right

variable {p : KqueueProxy ω} {fd : Int} {item : KqFdRef ω} {filters : Filter → Bool}
  {target new : BitVec 32} {fails : Change → Bool} {r : KqueueProxy ω × Bool}

theorem kqrefs_of_get (h : p.kqFdRefGet fd = some item) : p.kqrefs fd = item := by
  unfold kqFdRefGet at h
  split at h
  · cases h
  · exact Option.some.inj h

theorem agrees_changed (h : ∀ fd, p.Agrees fd) (hfilters : filters = has item.events) (fd' : Int) :
    ((p.setFilters fd filters).setRef fd item).Agrees fd' := by
  unfold Agrees setFilters setRef
  by_cases heq : fd' = fd
  · subst heq
    simp only [update_self]
    exact hfilters
  · simp only [update_of_ne heq]
    exact h fd'

theorem agrees_setRef (h : ∀ fd, p.Agrees fd) (hevents : item.events = (p.kqrefs fd).events)
    (fd' : Int) : (p.setRef fd item).Agrees fd' := by
  unfold Agrees setRef
  by_cases heq : fd' = fd
  · subst heq
    simp only [update_self, hevents]
    exact h fd'
  · simp only [update_of_ne heq]
    exact h fd'

theorem unchanged_iff (hevents : item.events = (p.kqrefs fd).events) :
    (((p.setFilters fd filters).setRef fd item).filters = p.filters ∧
      ∀ fd', (((p.setFilters fd filters).setRef fd item).kqrefs fd').events =
        (p.kqrefs fd').events) ↔ filters = p.filters fd := by
  have hrefs (fd' : Int) : (((p.setFilters fd filters).setRef fd item).kqrefs fd').events =
      (p.kqrefs fd').events := by
    unfold setFilters setRef
    by_cases heq : fd' = fd
    · subst heq
      simp only [update_self, hevents]
    · simp only [update_of_ne heq]
  rw [and_iff_left hrefs]
  exact update_eq_self_iff

/-- What a call does that is to record the events `new` for a descriptor, and to register those of
`target`. -/
inductive Outcome (p : KqueueProxy ω) (fd : Int) (target new : BitVec 32) (fails : Change → Bool) :
    KqueueProxy ω × Bool → Prop where
  | missing (hget : p.kqFdRefGet fd = none) : Outcome p fd target new fails (p, false)
  | same (item : KqFdRef ω) (hnew : new = (p.kqrefs fd).events)
      (hevents : item.events = (p.kqrefs fd).events) :
    Outcome p fd target new fails (p.setRef fd item, true)
  | made (item : KqFdRef ω) (hget : p.kqFdRefGet fd = some (p.kqrefs fd))
      (hnew : new ≠ (p.kqrefs fd).events) (hevents : item.events = new)
      (hok : (submit fails (changes (has (p.kqrefs fd).events) (has target)) (p.filters fd)).2 = true) :
    Outcome p fd target new fails ((p.setFilters fd (submit fails
      (changes (has (p.kqrefs fd).events) (has target)) (p.filters fd)).1).setRef fd item, true)
  | failed (item : KqFdRef ω) (hget : p.kqFdRefGet fd = some (p.kqrefs fd))
      (hnew : new ≠ (p.kqrefs fd).events) (hevents : item.events = (p.kqrefs fd).events)
      (hok : (submit fails (changes (has (p.kqrefs fd).events) (has target)) (p.filters fd)).2 = false) :
    Outcome p fd target new fails ((p.setFilters fd (submit fails
      (changes (has (p.kqrefs fd).events) (has target)) (p.filters fd)).1).setRef fd item, false)

theorem outcome_ctrlAdd (p : KqueueProxy ω) (fd : Int) (events : BitVec 32)
    (fails : Change → Bool) :
    Outcome p fd events ((p.kqrefs fd).events ||| events) fails
      (p.kqueueCtrlAdd fd events fails) := by
  unfold kqueueCtrlAdd
  split
  next hget => exact .missing hget
  next item hget =>
    obtain rfl := kqrefs_of_get hget
    simp only
    split
    next hsame => exact .same _ hsame.symm rfl
    next hne =>
      split
      next hok => exact .made _ hget (Ne.symm hne) rfl hok
      next hok => exact .failed _ hget (Ne.symm hne) rfl (Bool.not_eq_true _ ▸ hok)

theorem outcome_ctrlDelRef (p : KqueueProxy ω) (fd : Int) (events : BitVec 32) (useRef : Bool)
    (fails : Change → Bool) :
    Outcome p fd (((p.kqrefs fd).detachEvents events).left events useRef)
      (((p.kqrefs fd).detachEvents events).left events useRef) fails
      (p.kqueueCtrlDelRef fd events useRef fails) := by
  unfold kqueueCtrlDelRef
  split
  next hget => exact .missing hget
  next item hget =>
    obtain rfl := kqrefs_of_get hget
    simp only
    split
    next hsame => exact .same _ hsame.symm rfl
    next hne =>
      split
      next hok => exact .made _ hget (Ne.symm hne) rfl hok
      next hok => exact .failed _ hget (Ne.symm hne) rfl (Bool.not_eq_true _ ▸ hok)

variable (h : ∀ fd, p.Agrees fd)

include h

/-- A call is right exactly if it registers what it records and no change fails in the middle. -/
theorem Outcome.rightFor_iff (ho : Outcome p fd target new fails r) :
    p.RightFor fd r ↔ (p.kqFdRefGet fd = some (p.kqrefs fd) → new ≠ (p.kqrefs fd).events →
      Clean (p.kqrefs fd).events target fails ∧
        ((changes (has (p.kqrefs fd).events) (has target)).any fails = false →
          has target = has new)) := by
  have hreplaced := replaced_submit (has (p.kqrefs fd).events) (has target) fails
  cases ho with
  | missing hget =>
    refine iff_of_true ⟨rfl, fun _ => rfl⟩ fun hsome => ?_
    rw [hget] at hsome
    cases hsome
  | same item hnew hevents =>
    exact iff_of_true (agrees_setRef h hevents fd) fun _ hne => absurd hnew hne
  | made item hget hnew hevents hok =>
    rw [h fd] at hok ⊢
    have hany : (changes (has (p.kqrefs fd).events) (has target)).any fails = false := by
      rw [hreplaced.result] at hok
      simpa using hok
    simp only [forall_prop_of_true hget, forall_prop_of_true hnew, Clean, hany, RightFor, if_true,
      Bool.false_eq_true, false_implies, true_and, forall_prop_of_true]
    rw [Agrees, setFilters, setRef]
    simp only [update_self, hevents, hreplaced.made hok]
  | failed item hget hnew hevents hok =>
    rw [h fd] at hok ⊢
    have hany : (changes (has (p.kqrefs fd).events) (has target)).any fails = true := by
      rw [hreplaced.result] at hok
      simpa using hok
    simp only [forall_prop_of_true hget, forall_prop_of_true hnew, Clean, hany, RightFor,
      Bool.false_eq_true, if_false, forall_prop_of_true, Bool.true_eq_false, false_implies, and_true]
    rw [unchanged_iff hevents, h fd]
    exact hreplaced.undone hok

theorem Outcome.agrees (ho : Outcome p fd target new fails r)
    (hright : p.RightFor fd r) (fd' : Int) : r.1.Agrees fd' := by
  cases ho with
  | missing hget => exact h fd'
  | same item hnew hevents => exact agrees_setRef h hevents fd'
  | made item hget hnew hevents hok =>
    refine agrees_changed h ?_ fd'
    have hagree : Agrees _ fd := hright
    simpa [Agrees, setFilters, setRef] using hagree
  | failed item hget hnew hevents hok =>
    refine agrees_changed h ?_ fd'
    rw [(unchanged_iff hevents).1 hright, hevents, h fd]

/-- A call is right exactly if it is safe, and then what is recorded is registered everywhere. -/
theorem right_iff_safe (call : Call) : p.Right call ↔ p.Safe call := by
  have hitem (fd : Int) (Q : KqFdRef ω → Prop) :
      (∀ item, p.kqFdRefGet fd = some item → Q item) ↔
        (p.kqFdRefGet fd = some (p.kqrefs fd) → Q (p.kqrefs fd)) :=
    ⟨fun hQ hget => hQ _ hget, fun hQ item hget => by
      obtain rfl := kqrefs_of_get hget
      exact hQ hget⟩
  cases call with
  | ctrlAdd fd events fails =>
    have hsub : has events = has ((p.kqrefs fd).events ||| events) ↔
        ∀ filter, has (p.kqrefs fd).events filter = true → has events filter = true := by
      rw [funext_iff]
      refine forall_congr' fun filter => ?_
      rw [has_or]
      cases has (p.kqrefs fd).events filter <;> cases has events filter <;> decide
    rw [Safe, hitem, ← hsub]
    exact (outcome_ctrlAdd p fd events fails).rightFor_iff h
  | ctrlDel fd events fails =>
    rw [Safe, hitem]
    exact ((outcome_ctrlDelRef p fd events false fails).rightFor_iff h).trans (by simp)
  | ctrlDelRef fd events useRef fails =>
    rw [Safe, hitem]
    exact ((outcome_ctrlDelRef p fd events useRef fails).rightFor_iff h).trans (by simp)

theorem agrees_of_right (call : Call) (hright : p.Right call) (fd' : Int) :
    (p.step call).Agrees fd' := by
  cases call with
  | ctrlAdd fd events fails => exact (outcome_ctrlAdd p fd events fails).agrees h hright fd'
  | ctrlDel fd events fails => exact (outcome_ctrlDelRef p fd events false fails).agrees h hright fd'
  | ctrlDelRef fd events useRef fails =>
    exact (outcome_ctrlDelRef p fd events useRef fails).agrees h hright fd'

end Right

/-- A call of `KqueueCtrlDel` that returns true takes the filters of the call that were recorded. -/
theorem lost_ctrlDel {p : KqueueProxy ω} {fd : Int} {events : BitVec 32} {fails : Change → Bool}
    (hret : (p.kqueueCtrlDel fd events fails).2 = true) (filter : Filter) :
    (p.filters fd filter = true ∧ (p.kqueueCtrlDel fd events fails).1.filters fd filter = false) ↔
      (has (p.kqrefs fd).events filter = true ∧ has events filter = true) := by
  have hleft : has (((p.kqrefs fd).detachEvents events).left events false) filter =
      (has (p.kqrefs fd).events filter && !has events filter) := has_and_not _ _ _
  have ho := outcome_ctrlDelRef p fd events false fails
  unfold kqueueCtrlDel at hret ⊢
  generalize p.kqueueCtrlDelRef fd events false fails = r at ho hret ⊢
  cases ho with
  | missing hget | failed item hget hnew hevents hok => cases hret
  | same item hnew hevents =>
    simp only [setRef]
    cases hf : p.filters fd filter <;> cases ho : has (p.kqrefs fd).events filter <;>
      cases he : has events filter <;> simp_all
  | made item hget hnew hevents hok =>
    obtain ⟨hold, hafter⟩ := submit_made _ _ _ _ hok filter
    simp only [setFilters, setRef, update_self, hafter, hleft]
    cases hf : p.filters fd filter <;> cases ho : has (p.kqrefs fd).events filter <;>
      cases he : has events filter <;> simp_all

/-- **Every call of a run leaves the recorded events equal to the registered ones, or both as they
were, exactly if every call is safe**: the events that are added include the recorded ones, and no
`ff_kevent` fails after another one has changed the kqueue. -/
theorem calls_right_iff (maxfd : Nat) (calls : List Call) :
    Run.Guarded step Right (init maxfd : KqueueProxy ω) calls ↔
      Run.Guarded step Safe (init maxfd : KqueueProxy ω) calls := by
  refine Run.guarded_congr (P := fun p => ∀ fd, p.Agrees fd)
    (fun call _ p h => right_iff_safe h call) (fun p call h => agrees_of_right h call) fun fd => ?_
  funext filter
  exact (has_zero filter).symm

/-- A descriptor that listens to `EVFILT_READ`, to which `EVFILT_WRITE` is added: the read filter is
deleted and not added again. -/
theorem ctrlAdd_not_right :
    ¬∀ (maxfd : Nat) (calls : List Call),
      Run.Guarded step Right (init maxfd : KqueueProxy Unit) calls := by
  intro h
  obtain ⟨-, hright, -⟩ := h 10 [.ctrlAdd 5 1 fun _ => false, .ctrlAdd 5 2 fun _ => false]
  have hread := congrFun (show Agrees _ _ from hright) Filter.read
  revert hread
  decide

end KqueueProxy

end FStack.MicroThread
