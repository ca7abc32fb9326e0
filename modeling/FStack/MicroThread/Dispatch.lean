import FStack.MicroThread.Kqueue

/-!
# Micro threads: who is told of an event

Model of `KqueueRcvEventList` (`adapter/micro_thread/kqueue_proxy.cpp:366-427`). For each event that
`ff_kevent` has returned, the object registered for the descriptor gets the events and is notified;
the events of a descriptor without an object are deleted.

* The objects are of any kind. What their notifications do to the proxy and to everything else
  (`World`) and what they return is a parameter (`Notify`); the number of descriptors is fixed when
  the proxy is made. `KqueuerObj`'s own ones are `Frame.inputNotify` and `Frame.outputNotify`.
* `EV_ERROR` is compared with the filter, which it never is; the branch is there as it is written.
* `Round` is what is done for one event; `kqueueRcvEventList` returns the rounds of its loop.

`revents` is set to zero before the loop, not for each event, so it has the events of every
descriptor that came before (`foldl_rcvStep`). `dispatch_exact_iff` says for which lists this does
no harm.
-/

namespace FStack.MicroThread

open FStack.Lib KqueueProxy

/-- `KqEvent`. -/
structure KqEvent where
  ident : Int
  filter : Int
deriving DecidableEq

/-- `EVFILT_READ`. -/
def evfiltRead : Int := -1

/-- `EVFILT_WRITE`. -/
def evfiltWrite : Int := -2

/-- `EV_ERROR`. -/
def evError : Int := 0x4000

/-- The number of a filter. -/
def Filter.num : Filter → Int
  | .read => evfiltRead
  | .write => evfiltWrite

/-- The proxy, what the objects have received, and everything else. -/
structure World (σ ω : Type) where
  proxy : KqueueProxy ω
  rcvEvents : ω → BitVec 32
  rest : σ

/-- `InputNotify`, `OutputNotify` and `HangupNotify` of the objects. -/
structure Notify (σ ω : Type) where
  input : ω → World σ ω → World σ ω × Int
  output : ω → World σ ω → World σ ω × Int
  hangup : ω → World σ ω → World σ ω
  input_maxfd : ∀ obj w, (input obj w).1.proxy.maxfd = w.proxy.maxfd
  output_maxfd : ∀ obj w, (output obj w).1.proxy.maxfd = w.proxy.maxfd
  hangup_maxfd : ∀ obj w, (hangup obj w).proxy.maxfd = w.proxy.maxfd

/-- What is done for an event: an object gets a mask and is notified, or filters are deleted, with
those registered before and after and the result of `KqueueCtrlDel`. -/
inductive Told (ω : Type) where
  | setRcvEvents (obj : ω) (revents : BitVec 32)
  | input (obj : ω)
  | output (obj : ω)
  | hangup (obj : ω)
  | ctrlDel (before after : Filter → Bool) (ret : Bool)

/-- What is done for an event, with the object that its descriptor has then. -/
structure Round (ω : Type) where
  event : KqEvent
  obj : Option ω
  told : List (Told ω)

variable {σ ω : Type} [DecidableEq ω]

/-- `SetRcvEvents` of an object. -/
def World.setRcvEvents (w : World σ ω) (obj : ω) (revents : BitVec 32) : World σ ω :=
  { w with rcvEvents := Function.update w.rcvEvents obj revents }

/-- The events of `revents`, with that of the filter. -/
def collect (revents : BitVec 32) (filter : Int) : BitVec 32 :=
  let revents := if filter = evfiltRead then revents ||| Filter.read.event else revents
  if filter = evfiltWrite then revents ||| Filter.write.event else revents

section

variable (notify : Notify σ ω)

/-- The notifications of an object; the second one only if the first one has returned zero. -/
def notifyObj (w : World σ ω) (obj : ω) (revents : BitVec 32) (filter : Int) :
    World σ ω × List (Told ω) :=
  let w := w.setRcvEvents obj revents
  if filter = evError then (notify.hangup obj w, [.setRcvEvents obj revents, .hangup obj])
  else
    let r := if has revents .read then notify.input obj w else (w, 0)
    let told := if has revents .read then [.setRcvEvents obj revents, .input obj]
      else [.setRcvEvents obj revents]
    if r.2 ≠ 0 then (r.1, told)
    else if has revents .write then ((notify.output obj r.1).1, told ++ [.output obj])
    else (r.1, told)

/-- An event, with the `ff_kevent` calls that fail when it is dispatched. -/
abbrev Arrival := KqEvent × (Change → Bool)

/-- One round of the loop, with the mask that is left for the next one. -/
def rcvEvent (s : World σ ω × BitVec 32) (arrival : Arrival) :
    (World σ ω × BitVec 32) × Round ω :=
  let event := arrival.1
  match s.1.proxy.kqFdRefGet event.ident with
  | none => (s, ⟨event, none, []⟩)
  | some item =>
    let revents := collect s.2 event.filter
    match item.kqobj with
    | none =>
      let mask := revents &&& (Filter.read.event ||| Filter.write.event)
      let r := s.1.proxy.kqueueCtrlDel event.ident mask arrival.2
      (({ s.1 with proxy := r.1 }, revents),
        ⟨event, none, [.ctrlDel (s.1.proxy.filters event.ident) (r.1.filters event.ident) r.2]⟩)
    | some obj =>
      let r := notifyObj notify s.1 obj revents event.filter
      ((r.1, revents), ⟨event, some obj, r.2⟩)

/-- The loop adds a round to those it has made. -/
def rcvStep (s : (World σ ω × BitVec 32) × List (Round ω)) (arrival : Arrival) :
    (World σ ω × BitVec 32) × List (Round ω) :=
  let r := rcvEvent notify s.1 arrival
  (r.1, s.2 ++ [r.2])

/-- `KqueueRcvEventList`, with its rounds. -/
def kqueueRcvEventList (w : World σ ω) (arrivals : List Arrival) : World σ ω × List (Round ω) :=
  let s := arrivals.foldl (rcvStep notify) ((w, 0), [])
  (s.1.1, s.2)

/-- The list has an event of the descriptor for the filter. -/
def Reported (arrivals : List Arrival) (fd : Int) (f : Filter) : Prop :=
  ∃ a ∈ arrivals, a.1.ident = fd ∧ a.1.filter = f.num

/-- What an object is told, or a descriptor loses, is in the list for the descriptor. -/
def Told.Exact (reported : Filter → Prop) : Told ω → Prop
  | .setRcvEvents _ revents => ∀ filter, has revents filter = true → reported filter
  | .input _ => reported .read
  | .output _ => reported .write
  | .hangup _ => True
  | .ctrlDel before after ret => ret = true →
    ∀ filter, before filter = true → after filter = false → reported filter

/-- The round for an event is exact: what is done is in the list for the descriptor, and the event
is dispatched if there is an object. -/
structure Round.Exact (reported : Filter → Prop) (r : Round ω) : Prop where
  own : ∀ told ∈ r.told, told.Exact reported
  read : ∀ obj, r.obj = some obj → r.event.filter = evfiltRead → .input obj ∈ r.told
  write : ∀ obj, r.obj = some obj → r.event.filter = evfiltWrite → .output obj ∈ r.told

/-- The mask of some of the two events. -/
def maskOf (events : Filter → Bool) : BitVec 32 :=
  (if events .read then Filter.read.event else 0) |||
    (if events .write then Filter.write.event else 0)

/-- The list has an event for the filter, of any descriptor that the proxy has. -/
def World.seen (w : World σ ω) (arrivals : List Arrival) (f : Filter) : Bool :=
  arrivals.any fun a => (w.proxy.kqFdRefGet a.1.ident).isSome && a.1.filter == f.num

/-- An event that comes after the events `earlier` of any descriptors, in the state `w`. If its
descriptor has an object, each of them is also an event of this descriptor, and the object's
`InputNotify` returns zero before an event to write when one of them is to read. If it has none,
each of them that the descriptor listens to is also an event of it, unless an `ff_kevent` of
`KqueueCtrlDel` fails. -/
def SafeRound (reported : Filter → Prop) (earlier : Filter → Bool) (w : World σ ω)
    (arrival : Arrival) : Prop :=
  let mask := maskOf fun f => earlier f || arrival.1.filter == f.num
  ∀ item, w.proxy.kqFdRefGet arrival.1.ident = some item →
    match item.kqobj with
    | some obj =>
      (∀ filter, earlier filter = true → reported filter) ∧
        (arrival.1.filter = evfiltWrite → earlier .read = true →
          (notify.input obj (w.setRcvEvents obj mask)).2 = 0)
    | none =>
      (w.proxy.kqueueCtrlDel arrival.1.ident mask arrival.2).2 = true →
        ∀ filter, earlier filter = true → has item.events filter = true → reported filter

end

/-! ## One round -/

@[simp] theorem has_maskOf (events : Filter → Bool) (f : Filter) :
    has (maskOf events) f = events f := by
  unfold maskOf
  cases f <;> cases hr : events .read <;> cases hw : events .write <;> rfl

/-- The mask of the next event. -/
theorem collect_maskOf (events : Filter → Bool) (filter : Int) :
    collect (maskOf events) filter = maskOf fun f => events f || filter == f.num := by
  have hne : evfiltRead ≠ evfiltWrite := by decide
  unfold collect maskOf
  by_cases hread : filter = evfiltRead
  · cases hr : events .read <;> cases hw : events .write <;>
      simp [Filter.num, hread, hne, Filter.event, hr, hw]
  · by_cases hwrite : filter = evfiltWrite
    · cases hr : events .read <;> cases hw : events .write <;>
        simp [Filter.num, hwrite, Ne.symm hne, Filter.event, hr, hw]
    · simp [Filter.num, hread, hwrite]

theorem maskOf_and (events : Filter → Bool) :
    maskOf events &&& (Filter.read.event ||| Filter.write.event) = maskOf events := by
  unfold maskOf
  cases events .read <;> cases events .write <;> rfl

variable {notify : Notify σ ω} {reported : Filter → Prop} {earlier : Filter → Bool}
  {w : World σ ω} {arrival : Arrival} {item : KqFdRef ω}

/-- What an object is told: the events first, then to read if there is something to read, then to
write if there is something to write and the object has not said otherwise. -/
theorem mem_notifyObj (w : World σ ω) (obj : ω) (revents : BitVec 32) {filter : Int}
    (told : Told ω) : told ∈ (notifyObj notify w obj revents filter).2 ↔
      told = .setRcvEvents obj revents ∨ (filter = evError ∧ told = .hangup obj) ∨
      (filter ≠ evError ∧ told = .input obj ∧ has revents .read = true) ∨
      (filter ≠ evError ∧ told = .output obj ∧ has revents .write = true ∧
        (has revents .read = true → (notify.input obj (w.setRcvEvents obj revents)).2 = 0)) := by
  unfold notifyObj
  by_cases herror : filter = evError
  · simp [herror]
  cases hread : has revents .read with
  | false => cases hwrite : has revents .write <;> simp [herror]
  | true =>
    cases hwrite : has revents .write with
    | false => simp [herror]
    | true =>
      by_cases hret : (notify.input obj (w.setRcvEvents obj revents)).2 = 0 <;> simp [herror, hret]

variable (hown : ∀ f : Filter, arrival.1.filter = f.num → reported f)

include hown

theorem exactRound_obj {obj : ω} (hget : w.proxy.kqFdRefGet arrival.1.ident = some item)
    (hobj : item.kqobj = some obj) :
    (rcvEvent notify (w, maskOf earlier) arrival).2.Exact reported ↔
      SafeRound notify reported earlier w arrival := by
  have hround : (rcvEvent notify (w, maskOf earlier) arrival).2 = ⟨arrival.1, some obj,
      (notifyObj notify w obj (maskOf fun f => earlier f || arrival.1.filter == f.num)
        arrival.1.filter).2⟩ := by
    simp only [rcvEvent, hget, hobj, collect_maskOf]
  have hread : evfiltRead ≠ evError := by decide
  have hwrite : evfiltWrite ≠ evError := by decide
  have hsafe : SafeRound notify reported earlier w arrival ↔
      (∀ filter, earlier filter = true → reported filter) ∧
        (arrival.1.filter = evfiltWrite → earlier .read = true →
          (notify.input obj (w.setRcvEvents obj
            (maskOf fun f => earlier f || arrival.1.filter == f.num))).2 = 0) := by
    simp [SafeRound, hget, hobj]
  rw [hsafe, hround]
  constructor
  · rintro ⟨htold, -, hout⟩
    refine ⟨fun filter hf => ?_, fun hfilter hf => ?_⟩
    · exact htold (.setRcvEvents obj _) ((mem_notifyObj ..).2 (.inl rfl)) filter (by simp [hf])
    · have hmem := hout obj rfl hfilter
      rw [mem_notifyObj] at hmem
      obtain h | ⟨-, h⟩ | ⟨-, h, -⟩ | ⟨-, -, -, hret⟩ := hmem
      · cases h
      · cases h
      · cases h
      · exact hret (by simp [hf])
  · rintro ⟨hleft, hret⟩
    -- What is in the mask is an earlier event, or the event itself.
    have hreported (f : Filter)
        (hf : has (maskOf fun f => earlier f || arrival.1.filter == f.num) f = true) :
        reported f := by
      rw [has_maskOf, Bool.or_eq_true, beq_iff_eq] at hf
      exact hf.elim (hleft f) (hown f)
    refine ⟨fun told ht => ?_, fun obj' hobj' hfilter => ?_, fun obj' hobj' hfilter => ?_⟩
    · rw [mem_notifyObj] at ht
      obtain rfl | ⟨-, rfl⟩ | ⟨-, rfl, hf⟩ | ⟨-, rfl, hf, -⟩ := ht
      · exact hreported
      · trivial
      · exact hreported .read hf
      · exact hreported .write hf
    · cases hobj'
      have hfilter : arrival.1.filter = evfiltRead := hfilter
      rw [mem_notifyObj]
      exact .inr (.inr (.inl ⟨hfilter ▸ hread, rfl, by simp [hfilter, Filter.num]⟩))
    · cases hobj'
      have hfilter : arrival.1.filter = evfiltWrite := hfilter
      rw [mem_notifyObj]
      refine .inr (.inr (.inr ⟨hfilter ▸ hwrite, rfl, by simp [hfilter, Filter.num], fun hf => ?_⟩))
      rw [has_maskOf, Bool.or_eq_true, beq_iff_eq] at hf
      rcases hf with hf | hf
      · exact hret hfilter hf
      · exact absurd (hf.symm.trans hfilter) (by decide)

theorem exactRound_none (hget : w.proxy.kqFdRefGet arrival.1.ident = some item)
    (hobj : item.kqobj = none) :
    (rcvEvent notify (w, maskOf earlier) arrival).2.Exact reported ↔
      SafeRound notify reported earlier w arrival := by
  obtain rfl := kqrefs_of_get hget
  simp only [rcvEvent, hget, hobj, collect_maskOf, maskOf_and, SafeRound, Option.some.injEq,
    forall_eq']
  have hround : ∀ told : Told ω, Round.Exact reported ⟨arrival.1, none, [told]⟩ ↔
      told.Exact reported := fun told =>
    ⟨fun h => h.own told List.mem_cons_self,
      fun h => ⟨List.forall_mem_singleton.2 h, nofun, nofun⟩⟩
  rw [hround]
  refine forall_congr' fun hret => forall_congr' fun filter => ?_
  rw [← and_imp, lost_ctrlDel hret, has_maskOf, Bool.or_eq_true, beq_iff_eq]
  constructor
  · exact fun h hf hevents => h ⟨hevents, .inl hf⟩
  · rintro h ⟨hevents, hf | hf⟩
    · exact h hf hevents
    · exact hown filter hf

/-- A round after the events `earlier` is exact exactly if it is safe. -/
theorem exactRound_iff : (rcvEvent notify (w, maskOf earlier) arrival).2.Exact reported ↔
    SafeRound notify reported earlier w arrival := by
  cases hget : w.proxy.kqFdRefGet arrival.1.ident with
  | none =>
    refine iff_of_true ?_ fun item h => ?_
    · simp only [rcvEvent, hget]
      exact ⟨List.forall_mem_nil _, nofun, nofun⟩
    · rw [hget] at h
      cases h
  | some item =>
    cases hobj : item.kqobj with
    | none => exact exactRound_none hown hget hobj
    | some obj => exact exactRound_obj hown hget hobj

omit hown

/-! ## The loop -/

omit [DecidableEq ω] in
theorem maxfd_ctrlDel (p : KqueueProxy ω) (fd : Int) (events : BitVec 32) (fails : Change → Bool) :
    (p.kqueueCtrlDel fd events fails).1.maxfd = p.maxfd := by
  unfold kqueueCtrlDel kqueueCtrlDelRef
  dsimp only
  repeat' split
  all_goals rfl

theorem maxfd_notifyObj (notify : Notify σ ω) (w : World σ ω) (obj : ω) (revents : BitVec 32)
    (filter : Int) : (notifyObj notify w obj revents filter).1.proxy.maxfd = w.proxy.maxfd := by
  have hset : (w.setRcvEvents obj revents).proxy.maxfd = w.proxy.maxfd := rfl
  unfold notifyObj
  dsimp only
  repeat' split
  all_goals simp only [notify.hangup_maxfd, notify.input_maxfd, notify.output_maxfd, hset]

/-- The mask after an event: those so far, and its own if the proxy has the descriptor. -/
theorem rcvEvent_snd (notify : Notify σ ω) (w : World σ ω) (earlier : Filter → Bool)
    (arrival : Arrival) : (rcvEvent notify (w, maskOf earlier) arrival).1.2 =
      maskOf fun f => earlier f ||
        ((w.proxy.kqFdRefGet arrival.1.ident).isSome && arrival.1.filter == f.num) := by
  unfold rcvEvent
  dsimp only
  split
  next hget => simp [hget]
  next item hget =>
    simp only [hget, Option.isSome_some, Bool.true_and, ← collect_maskOf]
    split <;> rfl

theorem rcvEvent_maxfd (notify : Notify σ ω) (s : World σ ω × BitVec 32) (arrival : Arrival) :
    (rcvEvent notify s arrival).1.1.proxy.maxfd = s.1.proxy.maxfd := by
  unfold rcvEvent
  dsimp only
  split
  · rfl
  · split
    · exact maxfd_ctrlDel ..
    · exact maxfd_notifyObj ..

omit [DecidableEq ω] in
theorem isSome_kqFdRefGet {p q : KqueueProxy ω} (h : p.maxfd = q.maxfd) (fd : Int) :
    (p.kqFdRefGet fd).isSome = (q.kqFdRefGet fd).isSome := by
  unfold kqFdRefGet
  rw [h]
  split <;> rfl

/-- **The mask** that the loop has after some events is that of all of them. -/
theorem foldl_rcvStep (notify : Notify σ ω) (w : World σ ω) (pre : List Arrival) :
    (pre.foldl (rcvStep notify) ((w, 0), [])).1 =
        ((kqueueRcvEventList notify w pre).1, maskOf (w.seen pre)) ∧
      (kqueueRcvEventList notify w pre).1.proxy.maxfd = w.proxy.maxfd := by
  induction pre using List.reverseRecOn with
  | nil => exact ⟨Prod.ext rfl (by simp [maskOf, World.seen]), rfl⟩
  | append_singleton pre a ih =>
    obtain ⟨hstate, hmaxfd⟩ := ih
    have hnext : (pre ++ [a]).foldl (rcvStep notify) ((w, 0), []) =
        rcvStep notify (pre.foldl (rcvStep notify) ((w, 0), [])) a := by simp
    constructor
    · refine Prod.ext rfl ?_
      rw [hnext, rcvStep, hstate, rcvEvent_snd]
      refine congrArg maskOf (funext fun f => ?_)
      simp [World.seen, isSome_kqFdRefGet hmaxfd]
    · unfold kqueueRcvEventList
      rw [hnext, rcvStep, hstate]
      exact (rcvEvent_maxfd ..).trans hmaxfd

theorem kqueueRcvEventList_concat (notify : Notify σ ω) (w : World σ ω) (pre : List Arrival)
    (a : Arrival) : (kqueueRcvEventList notify w (pre ++ [a])).2 =
      (kqueueRcvEventList notify w pre).2 ++
        [(rcvEvent notify ((kqueueRcvEventList notify w pre).1, maskOf (w.seen pre)) a).2] := by
  rw [← (foldl_rcvStep notify w pre).1]
  unfold kqueueRcvEventList
  simp only [List.foldl_append, List.foldl_cons, List.foldl_nil, rcvStep]

theorem event_rcvEvent (notify : Notify σ ω) (s : World σ ω × BitVec 32) (arrival : Arrival) :
    (rcvEvent notify s arrival).2.event = arrival.1 := by
  unfold rcvEvent
  dsimp only
  repeat' split
  all_goals rfl

/-- **The dispatch of a list of events is exact exactly if every event is safe after those before
it**: none of another descriptor is among them that matters. -/
theorem dispatch_exact_iff (notify : Notify σ ω) (w : World σ ω) (arrivals : List Arrival) :
    (∀ r ∈ (kqueueRcvEventList notify w arrivals).2,
        r.Exact (Reported arrivals r.event.ident)) ↔
      ∀ pre a, pre ++ [a] <+: arrivals → SafeRound notify (Reported arrivals a.1.ident)
        (w.seen pre) (kqueueRcvEventList notify w pre).1 a := by
  -- The events reported stay those of the whole list while the induction is on its first part.
  suffices h : ∀ l, l <+: arrivals →
      ((∀ r ∈ (kqueueRcvEventList notify w l).2, r.Exact (Reported arrivals r.event.ident)) ↔
        ∀ pre a, pre ++ [a] <+: l → SafeRound notify (Reported arrivals a.1.ident)
          (w.seen pre) (kqueueRcvEventList notify w pre).1 a) from
    h arrivals (List.prefix_refl _)
  intro l hl
  induction l using List.reverseRecOn with
  | nil => simp [kqueueRcvEventList]
  | append_singleton l b ih =>
    have hown : ∀ f : Filter, b.1.filter = f.num → Reported arrivals b.1.ident f := fun f hf =>
      ⟨b, hl.subset (by simp), rfl, hf⟩
    have hlast : (rcvEvent notify ((kqueueRcvEventList notify w l).1, maskOf (w.seen l)) b).2.Exact
        (Reported arrivals b.1.ident) ↔ SafeRound notify (Reported arrivals b.1.ident)
          (w.seen l) (kqueueRcvEventList notify w l).1 b := exactRound_iff hown
    rw [kqueueRcvEventList_concat, List.forall_mem_append, List.forall_mem_singleton,
      event_rcvEvent, hlast, ih ((List.prefix_append _ _).trans hl)]
    constructor
    · rintro ⟨hpre, hb⟩ pre a hprefix
      rcases List.prefix_concat_iff.1 hprefix with heq | hin
      · obtain ⟨rfl, hab⟩ := List.append_inj' heq rfl
        rw [List.singleton_inj.1 hab]
        exact hb
      · exact hpre pre a hin
    · intro h
      exact ⟨fun pre a hin => h pre a (hin.trans (List.prefix_append _ _)),
        h l b (List.prefix_refl _)⟩

/-- Two descriptors with objects; the first one is ready to read, the second one to write: the
object of the second one is told to read. -/
theorem dispatch_not_exact :
    ¬∀ (notify : Notify Unit Nat) (w : World Unit Nat) (arrivals : List Arrival),
      ∀ r ∈ (kqueueRcvEventList notify w arrivals).2,
        r.Exact (Reported arrivals r.event.ident) := by
  intro h
  have hround := h ⟨fun _ w => (w, 0), fun _ w => (w, 0), fun _ w => w, fun _ _ => rfl,
      fun _ _ => rfl, fun _ _ => rfl⟩
    ⟨⟨10, fun fd => ⟨0, 0, 0, some fd.toNat⟩, fun _ _ => false⟩, fun _ => 0, ()⟩
    [(⟨3, evfiltRead⟩, fun _ => false), (⟨4, evfiltWrite⟩, fun _ => false)]
    ⟨⟨4, evfiltWrite⟩, some 4, [.setRcvEvents 4 3, .input 4, .output 4]⟩ (.tail _ (.head _))
  have hread := hround.own (.input 4) (.tail _ (.head _))
  simp [Told.Exact, Reported, Filter.num, evfiltRead, evfiltWrite] at hread

end FStack.MicroThread
