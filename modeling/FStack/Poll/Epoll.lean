import FStack.Lib.Run
import FStack.Poll.Kevent
import Mathlib.Algebra.Group.Nat.Defs

/-!
# epoll over a kqueue

Model of `ff_epoll_ctl`, `ff_event_to_epoll` and `ff_epoll_wait` (`lib/ff_epoll.c:91-288`) for one
descriptor of F-Stack alone. A registration is two filters of the kqueue, read and write, the one
that is not asked for disabled. The kqueue is as `kqueue_register` and `kqueue_scan` have it
(`freebsd/kern/kern_event.c:1598-1865`, `2026-2226`): `EV_ADD` makes a filter or changes the one
there is; a change of a filter that is not there fails and, with no event list, ends the call; the
flags of a filter (`EV_ONESHOT`, `EV_CLEAR`) are those it was made with; a filter with `EV_ONESHOT`
is dropped when it is reported. Outside is which of the enabled filters a wait reports, with which
data.

`Spec` is the epoll side, which the code does not keep: the latest `ADD` or `MOD` that succeeded,
and whether an `EPOLLONESHOT` report has disarmed it.

The two sides part when a filter is dropped by its one-shot report. The `MOD` that should arm it
again has no `EV_ADD` and fails, and so does `DEL`, whose deletion of the read filter comes first
and ends the call. A one-shot registration for both conditions is reported once for each.
`EPOLLONESHOT` of a `MOD` does not reach the filters. And data 0 is a null `udata`, for which the
descriptor's number is reported.

Results:
* `epoll_ok`: every call of a run that avoids all this.
* `epoll_not_ok`: one-shot, and data 0.
-/

namespace FStack.Poll.Epoll

open Function FStack.Lib
open FStack.Fd (CtlOp)

/-! ## The kqueue -/

/-- A filter of the kqueue, for the descriptor. -/
structure Knote where
  enabled : Bool
  oneshot : Bool
  clear : Bool
  udata : Nat
  deriving DecidableEq

/-- The filters of the descriptor. -/
abbrev Notes := Filter → Option Knote

/-- A change of a filter of the descriptor. -/
structure Kev where
  filter : Filter
  evAdd : Bool
  evDelete : Bool
  evEnable : Bool
  evDisable : Bool
  evOneshot : Bool
  evClear : Bool
  udata : Nat

/-- `kqueue_register`, on the filter the change names; none is `ENOENT`. -/
def kqueueRegister (kn : Option Knote) (kev : Kev) : Option (Option Knote) :=
  match kn with
  | none =>
    if kev.evAdd then some (some ⟨!kev.evDisable, kev.evOneshot, kev.evClear, kev.udata⟩) else none
  | some kn =>
    if kev.evDelete then some none
    else
      let enabled := if kev.evEnable then true else if kev.evDisable then false else kn.enabled
      some (some { kn with enabled := enabled, udata := kev.udata })

/-- `kqueue_kevent` with no event list, and whether it succeeds. -/
def kqueueKevent (n : Notes) : List Kev → Notes × Bool
  | [] => (n, true)
  | kev :: kevs =>
    match kqueueRegister (n kev.filter) kev with
    | none => (n, false)
    | some kn => kqueueKevent (update n kev.filter kn) kevs

/-! ## `ff_epoll_ctl` -/

/-- `struct epoll_event`, of a call: `EPOLLIN`, `EPOLLOUT`, `EPOLLET`, `EPOLLONESHOT` and the
data. -/
structure Req where
  inp : Bool
  out : Bool
  et : Bool
  oneshot : Bool
  data : Nat
  deriving DecidableEq

/-- The condition of a filter is asked for. -/
def Req.wants (r : Req) : Filter → Bool
  | .read => r.inp
  | .write => r.out
  | .other => false

/-- The change of one filter for an `ADD` or a `MOD`. -/
def armKev (add : Bool) (r : Req) (φ : Filter) : Kev :=
  ⟨φ, add, false, r.wants φ, !r.wants φ, r.oneshot, r.et, r.data⟩

/-- The change of one filter for a `DEL`. -/
def deleteKev (φ : Filter) : Kev := ⟨φ, false, true, false, false, false, false, 0⟩

/-- `ff_epoll_ctl`, and whether it succeeds. There are other operations, and events that are
null. -/
def ffEpollCtl (n : Notes) (op : Option CtlOp) (event : Option Req) : Notes × Bool :=
  match op, event with
  | none, _ => (n, false)
  | some .del, _ => kqueueKevent n [deleteKev .read, deleteKev .write]
  | some _, none => (n, false)
  | some op, some r =>
    kqueueKevent n [armKev (op == .add) r .read, armKev (op == .add) r .write]

/-! ## `ff_epoll_wait` -/

/-- A filter that `kqueue_scan` finds active: whether there is data, `EV_EOF`, whether `fflags` are
set, and what the entry of the application's array holds. -/
structure Pick where
  filter : Filter
  data : Bool
  eof : Bool
  fflags : Bool
  held : Nat

/-- `struct epoll_event`, of a report: `EPOLLIN`, `EPOLLOUT`, `EPOLLERR`, `EPOLLHUP` and the
data. -/
structure Report where
  inp : Bool
  out : Bool
  err : Bool
  hup : Bool
  data : Nat
  deriving DecidableEq

section

variable (ident : Nat)

/-- `ff_event_to_epoll`, for the filter `kn`; a scan does not set `EV_ERROR`. `data.fd` is the lower
half of the data. -/
def ffEventToEpoll (p : Pick) (kn : Knote) : Report where
  inp := p.filter == .read && (p.data || !p.eof || p.eof)
  out := p.filter == .write
  err := p.eof && (p.fflags || p.filter == .write)
  hup := p.eof
  data := if kn.udata ≠ 0 then kn.udata else p.held / 2 ^ 32 * 2 ^ 32 + ident % 2 ^ 32

/-- One round of `kqueue_scan`: a filter that is disabled is passed over, one with `EV_ONESHOT` is
dropped. -/
def scanRound (n : Notes) (p : Pick) : Notes × Option Report :=
  match n p.filter with
  | none => (n, none)
  | some kn =>
    if kn.enabled then
      (if kn.oneshot then update n p.filter none else n, some (ffEventToEpoll ident p kn))
    else (n, none)

/-- The rounds of `kqueue_scan`. -/
def scan (ident : Nat) (n : Notes) : List Pick → Notes × List Report
  | [] => (n, [])
  | p :: ps =>
    let r := scanRound ident n p
    let rest := scan ident r.1 ps
    (rest.1, r.2.toList ++ rest.2)

/-- `ff_epoll_wait`, for the entries that are of the descriptor. -/
def ffEpollWait (n : Notes) (maxevents : Int) (picks : List Pick) : Notes × List Report :=
  if maxevents < 1 then (n, []) else scan ident n (picks.take maxevents.toNat)

/-! ## What epoll promises -/

/-- What epoll remembers of a descriptor: its registration, and whether a report has disarmed it. -/
structure Spec where
  reg : Option Req
  disarmed : Bool

/-- A report of a one-shot registration disarms it. -/
def Spec.reported (sp : Spec) : Spec :=
  { sp with disarmed := sp.disarmed || sp.reg.any fun r => r.oneshot }

/-- The call was made, and succeeded or not. -/
def Spec.called (sp : Spec) (op : Option CtlOp) (event : Option Req) (ok : Bool) : Spec :=
  match op, ok with
  | none, _ => sp
  | _, false => sp
  | some .del, true => ⟨none, false⟩
  | some _, true => ⟨event, false⟩

/-- The knotes of a descriptor, beside the epoll registration they stand for. -/
structure St where
  notes : Notes
  spec : Spec

/-- Nothing is registered. -/
def St.init : St := ⟨fun _ => none, ⟨none, false⟩⟩

/-- A call of `ff_epoll_ctl` or `ff_epoll_wait`. -/
inductive Op where
  | ctl (op : Option CtlOp) (event : Option Req)
  | wait (maxevents : Int) (picks : List Pick)

/-- One call. -/
def step (s : St) : Op → St
  | .ctl op event =>
    let r := ffEpollCtl s.notes op event
    ⟨r.1, s.spec.called op event r.2⟩
  | .wait maxevents picks =>
    let r := ffEpollWait ident s.notes maxevents picks
    ⟨r.1, r.2.foldl (fun sp _ => sp.reported) s.spec⟩

/-- The state after a sequence of calls. -/
def run (ops : List Op) : St := ops.foldl (step ident) .init

/-- A report is of an armed registration, of conditions asked for, with its data. -/
def ReportOk (sp : Spec) (e : Report) : Prop :=
  sp.disarmed = false ∧ ∃ r, sp.reg = some r ∧ (e.inp = true → r.inp = true) ∧
    (e.out = true → r.out = true) ∧ e.data = r.data

/-- Each event is right for what is registered when it is reported. -/
def ReportsOk : Spec → List Report → Prop
  | _, [] => True
  | sp, e :: es => ReportOk sp e ∧ ReportsOk sp.reported es

/-- The filter is there and enabled exactly if it is asked for. -/
def Armed (n : Notes) (r : Req) : Prop :=
  ∀ φ, φ ≠ .other → ∃ kn, n φ = some kn ∧ kn.enabled = r.wants φ

/-- A `MOD` or `DEL` of a registered descriptor succeeds; what succeeds arms the filters or removes
them. -/
def CtlOk (sp : Spec) (op : Option CtlOp) (event : Option Req) (res : Notes × Bool) : Prop :=
  match op, event with
  | some .del, _ => sp.reg.isSome = true → res.2 = true ∧ ∀ φ, res.1 φ = none
  | some op, some r =>
    (op = .mod → sp.reg.isSome = true → res.2 = true) ∧ (res.2 = true → Armed res.1 r)
  | _, _ => True

/-- A call returns what epoll would return. -/
def StepOk (s : St) : Op → Prop
  | .ctl op event => CtlOk s.spec op event (ffEpollCtl s.notes op event)
  | .wait maxevents picks => ReportsOk s.spec (ffEpollWait ident s.notes maxevents picks).2

end

/-! ## Care -/

/-- Data other than 0, one condition at most if one-shot, and one-shot or not as before. -/
structure CarefulReq (sp : Spec) (r : Req) : Prop where
  data : r.data ≠ 0
  sole : r.oneshot = true → r.inp = true → r.out = false
  same : ∀ r', sp.reg = some r' → r'.oneshot = r.oneshot

/-- No `MOD` and no `DEL` after a one-shot report. -/
structure CarefulCtl (sp : Spec) (op : Option CtlOp) (event : Option Req) : Prop where
  armed : op = some .mod ∨ op = some .del → sp.disarmed = false
  req : op = some .add ∨ op = some .mod → ∀ r, event = some r → CarefulReq sp r

/-- The condition on a call. -/
def Careful (s : St) : Op → Prop
  | .ctl op event => CarefulCtl s.spec op event
  | .wait _ _ => True

/-! ## The two filters and the registration -/

/-- The knotes are those of the registration. -/
structure Inv (n : Notes) (sp : Spec) : Prop where
  empty : sp.reg = none → ∀ φ, n φ = none
  req : ∀ r, sp.reg = some r →
    r.data ≠ 0 ∧ (r.oneshot = true → ∀ φ ψ, r.wants φ = true → r.wants ψ = true → φ = ψ)
  armed : ∀ r, sp.reg = some r → sp.disarmed = false → ∀ φ, φ ≠ .other →
    ∃ c, n φ = some ⟨r.wants φ, r.oneshot, c, r.data⟩
  disarmed : sp.disarmed = true → ∀ φ kn, n φ = some kn → kn.enabled = false
  flags : ∀ r φ kn, sp.reg = some r → n φ = some kn → kn.oneshot = r.oneshot
  other : n .other = none

theorem inv_init : Inv St.init.notes St.init.spec where
  empty := fun _ _ => rfl
  req := nofun
  armed := nofun
  disarmed := nofun
  flags := nofun
  other := rfl

theorem CarefulReq.wants_unique {sp : Spec} {r : Req} (hr : CarefulReq sp r) (hone : r.oneshot = true)
    (φ ψ : Filter) (hφ : r.wants φ = true) (hψ : r.wants ψ = true) : φ = ψ := by
  have hsole := hr.sole hone
  cases φ <;> cases ψ <;> simp_all [Req.wants]

variable {n : Notes} {sp : Spec} {φ : Filter} {kn : Knote} {ident : Nat} {s : St}

section Ctl

variable {r r' : Req} {add : Bool} {n' : Notes}

theorem register_arm (hthere : add = true ∨ (n φ).isSome = true)
    (hflag : ∀ kn, n φ = some kn → kn.oneshot = r.oneshot) :
    ∃ c, kqueueRegister (n φ) (armKev add r φ) = some (some ⟨r.wants φ, r.oneshot, c, r.data⟩) := by
  unfold kqueueRegister armKev
  cases hn : n φ with
  | none =>
    have hadd : add = true := by simpa [hn] using hthere
    exact ⟨r.et, by simp [hadd]⟩
  | some kn =>
    rw [← hflag kn hn]
    cases r.wants φ <;> simp

/-- A call that changes both filters. -/
theorem kqueueKevent_both {kr kw : Kev} {x y : Option Knote} (hr : kr.filter = .read)
    (hw : kw.filter = .write) (hread : kqueueRegister (n .read) kr = some x)
    (hwrite : kqueueRegister (n .write) kw = some y) : kqueueKevent n [kr, kw] =
      (update (update n .read x) .write y, true) := by
  have hne : Filter.write ≠ .read := nofun
  have hn : update n .read x .write = n .write := update_of_ne hne _ _
  simp only [kqueueKevent, hr, hw, hread, hn, hwrite]

/-- `ADD`, or `MOD` when both filters are there. -/
theorem arm_spec (add : Bool) (hthere : ∀ φ, φ ≠ .other → add = true ∨ (n φ).isSome = true)
    (hflag : ∀ φ kn, n φ = some kn → kn.oneshot = r.oneshot) :
    ∃ n', kqueueKevent n [armKev add r .read, armKev add r .write] = (n', true) ∧
      (∀ φ, φ ≠ .other → ∃ c, n' φ = some ⟨r.wants φ, r.oneshot, c, r.data⟩) ∧
      n' .other = n .other := by
  obtain ⟨c, hread⟩ := register_arm (hthere .read nofun) (hflag .read)
  obtain ⟨c', hwrite⟩ := register_arm (hthere .write nofun) (hflag .write)
  refine ⟨_, kqueueKevent_both rfl rfl hread hwrite, fun φ hφ => ?_, rfl⟩
  cases φ with
  | read => exact ⟨c, by simp⟩
  | write => exact ⟨c', by simp⟩
  | other => exact absurd rfl hφ

theorem inv_arm (hr : CarefulReq sp r)
    (harm : ∀ φ, φ ≠ .other → ∃ c, n' φ = some ⟨r.wants φ, r.oneshot, c, r.data⟩)
    (hother : n' .other = none) : Inv n' ⟨some r, false⟩ where
  empty := nofun
  req := by
    rintro _ ⟨⟩
    exact ⟨hr.data, hr.wants_unique⟩
  armed := by
    rintro _ ⟨⟩ -
    exact harm
  disarmed := nofun
  flags := by
    rintro _ φ kn ⟨⟩ hkn
    have hφ : φ ≠ .other := by
      rintro rfl
      rw [hother] at hkn
      cases hkn
    obtain ⟨c, hc⟩ := harm φ hφ
    rw [hc] at hkn
    cases hkn
    rfl
  other := hother

theorem armed_of_arm (harm : ∀ φ, φ ≠ .other → ∃ c, n' φ = some ⟨r.wants φ, r.oneshot, c, r.data⟩) :
    Armed n' r := by
  intro φ hφ
  obtain ⟨c, hc⟩ := harm φ hφ
  exact ⟨_, hc, rfl⟩

variable (hI : Inv n sp)
include hI

theorem oneshot_eq (hr : CarefulReq sp r) (hkn : n φ = some kn) : kn.oneshot = r.oneshot := by
  cases hreg : sp.reg with
  | none =>
    rw [hI.empty hreg φ] at hkn
    cases hkn
  | some r' => exact (hI.flags r' φ kn hreg hkn).trans (hr.same r' hreg)

theorem add_spec (hr : CarefulReq sp r) : ∃ n', ffEpollCtl n (some .add) (some r) = (n', true) ∧
    Inv n' ⟨some r, false⟩ ∧ Armed n' r := by
  obtain ⟨n', hn', harm, hother⟩ := arm_spec true (fun _ _ => .inl rfl)
    (fun φ kn (hkn : n φ = some kn) => oneshot_eq hI hr hkn)
  exact ⟨n', hn', inv_arm hr harm (hother.trans hI.other), armed_of_arm harm⟩

theorem isSome_of_armed (hreg : sp.reg = some r') (hd : sp.disarmed = false) (hφ : φ ≠ .other) :
    (n φ).isSome = true := by
  obtain ⟨c, hc⟩ := hI.armed r' hreg hd φ hφ
  exact Option.isSome_iff_exists.mpr ⟨_, hc⟩

theorem mod_spec (hr : CarefulReq sp r) (hreg : sp.reg = some r') (hd : sp.disarmed = false) :
    ∃ n', ffEpollCtl n (some .mod) (some r) = (n', true) ∧ Inv n' ⟨some r, false⟩ ∧ Armed n' r := by
  obtain ⟨n', hn', harm, hother⟩ := arm_spec false
    (fun _ hφ => .inr (isSome_of_armed hI hreg hd hφ)) (fun _ _ hkn => oneshot_eq hI hr hkn)
  exact ⟨n', hn', inv_arm hr harm (hother.trans hI.other), armed_of_arm harm⟩

theorem del_spec (hreg : sp.reg = some r') (hd : sp.disarmed = false) (event : Option Req) :
    ∃ n', ffEpollCtl n (some .del) event = (n', true) ∧ ∀ φ, n' φ = none := by
  have hdel : ∀ φ, φ ≠ .other → kqueueRegister (n φ) (deleteKev φ) = some none := by
    intro φ hφ
    obtain ⟨kn, hkn⟩ := Option.isSome_iff_exists.mp (isSome_of_armed hI hreg hd hφ)
    rw [hkn]
    rfl
  refine ⟨_, kqueueKevent_both rfl rfl (hdel .read nofun) (hdel .write nofun), fun φ => ?_⟩
  cases φ with
  | read => simp
  | write => simp
  | other => exact hI.other

/-- `MOD` and `DEL` fail when nothing is registered. -/
theorem ctl_unregistered (hreg : sp.reg = none) (op : CtlOp) (hop : op ≠ .add)
    (event : Option Req) : ffEpollCtl n (some op) event = (n, false) := by
  have hread : n .read = none := hI.empty hreg .read
  cases op with
  | add => exact absurd rfl hop
  | mod =>
    cases event with
    | none => rfl
    | some r =>
      simp only [ffEpollCtl, kqueueKevent, armKev, hread, kqueueRegister]
      rfl
  | del =>
    simp only [ffEpollCtl, kqueueKevent, deleteKev, hread, kqueueRegister]
    rfl

theorem ctl_spec {op : Option CtlOp} {event : Option Req} (hc : CarefulCtl sp op event) :
    CtlOk sp op event (ffEpollCtl n op event) ∧
      Inv (ffEpollCtl n op event).1 (sp.called op event (ffEpollCtl n op event).2) := by
  match op, event with
  | none, event => exact ⟨trivial, hI⟩
  | some .add, none => exact ⟨trivial, hI⟩
  | some .mod, none => exact ⟨trivial, hI⟩
  | some .add, some r =>
    obtain ⟨n', hn', hI', harm⟩ := add_spec hI (hc.req (.inl rfl) r rfl)
    rw [hn']
    exact ⟨⟨nofun, fun _ => harm⟩, hI'⟩
  | some .mod, some r =>
    cases hreg : sp.reg with
    | none =>
      rw [ctl_unregistered hI hreg .mod nofun]
      exact ⟨⟨by simp [hreg], nofun⟩, hI⟩
    | some r' =>
      obtain ⟨n', hn', hI', harm⟩ :=
        mod_spec hI (hc.req (.inr rfl) r rfl) hreg (hc.armed (.inl rfl))
      rw [hn']
      exact ⟨⟨fun _ _ => rfl, fun _ => harm⟩, hI'⟩
  | some .del, event =>
    cases hreg : sp.reg with
    | none =>
      rw [ctl_unregistered hI hreg .del nofun]
      exact ⟨by simp [CtlOk, hreg], hI⟩
    | some r' =>
      obtain ⟨n', hn', hnone⟩ := del_spec hI hreg (hc.armed (.inr rfl)) event
      rw [hn']
      exact ⟨fun _ => ⟨rfl, hnone⟩, fun _ => hnone, nofun, nofun, nofun, nofun, hnone .other⟩

end Ctl

/-! ## A wait -/

/-- A filter that can be reported is one of an armed registration that asks for it. -/
theorem Inv.live (hI : Inv n sp) (hkn : n φ = some kn) (hen : kn.enabled = true) :
    sp.disarmed = false ∧ ∃ r c, sp.reg = some r ∧ r.wants φ = true ∧
      kn = ⟨true, r.oneshot, c, r.data⟩ := by
  have hd : sp.disarmed = false := by
    by_contra hd
    rw [hI.disarmed (by simpa using hd) φ kn hkn] at hen
    cases hen
  have hφ : φ ≠ .other := by
    rintro rfl
    rw [hI.other] at hkn
    cases hkn
  cases hreg : sp.reg with
  | none =>
    rw [hI.empty hreg φ] at hkn
    cases hkn
  | some r =>
    obtain ⟨c, hc⟩ := hI.armed r hreg hd φ hφ
    rw [hc] at hkn
    cases hkn
    exact ⟨hd, r, c, rfl, hen, by rw [← hen]⟩

/-- A one-shot report drops the only filter that was enabled. -/
theorem inv_drop (hI : Inv n sp) {r : Req} (hreg : sp.reg = some r) (hone : r.oneshot = true)
    (hwant : r.wants φ = true) : Inv (update n φ none) ⟨some r, true⟩ := by
  have hold : ∀ ψ kn, update n φ none ψ = some kn → ψ ≠ φ ∧ n ψ = some kn := by
    intro ψ kn hkn
    by_cases hψ : ψ = φ
    · subst hψ
      rw [update_self] at hkn
      cases hkn
    · rw [update_of_ne hψ] at hkn
      exact ⟨hψ, hkn⟩
  have hφ : φ ≠ .other := by
    rintro rfl
    cases hwant
  exact {
    empty := nofun
    req := by
      rintro _ ⟨⟩
      exact hI.req r hreg
    armed := nofun
    disarmed := by
      intro _ ψ kn hkn
      obtain ⟨hψ, hkn⟩ := hold ψ kn hkn
      by_contra hen
      obtain ⟨-, r', c, hreg', hwant', -⟩ := hI.live hkn (by simpa using hen)
      rw [hreg] at hreg'
      cases hreg'
      exact hψ ((hI.req r hreg).2 hone ψ φ hwant' hwant)
    flags := by
      rintro _ ψ kn ⟨⟩ hkn
      exact hI.flags r ψ kn hreg (hold ψ kn hkn).2
    other := by
      rw [update_of_ne (Ne.symm hφ)]
      exact hI.other }

theorem scanRound_spec (hI : Inv n sp) (ident : Nat) (p : Pick) :
    scanRound ident n p = (n, none) ∨
      ∃ n' e, scanRound ident n p = (n', some e) ∧ ReportOk sp e ∧ Inv n' sp.reported := by
  unfold scanRound
  cases hkn : n p.filter with
  | none => exact .inl rfl
  | some kn =>
    cases hen : kn.enabled with
    | false => exact .inl (by simp [hen])
    | true =>
      obtain ⟨hd, r, c, hreg, hwant, rfl⟩ := hI.live hkn hen
      refine .inr ⟨_, _, rfl, ⟨hd, r, hreg, ?_, ?_, ?_⟩, ?_⟩
      · intro hinp
        cases hp : p.filter <;> simp_all [ffEventToEpoll, Req.wants]
      · intro hout
        cases hp : p.filter <;> simp_all [ffEventToEpoll, Req.wants]
      · exact if_pos (hI.req r hreg).1
      · cases hone : r.oneshot with
        | true =>
          have hrep : sp.reported = ⟨some r, true⟩ := by simp [Spec.reported, hreg, hone]
          rw [hrep]
          exact inv_drop hI hreg hone hwant
        | false =>
          have hrep : sp.reported = sp := by
            obtain ⟨reg, disarmed⟩ := sp
            cases hreg
            simp [Spec.reported, hone]
          rw [hrep]
          exact hI

theorem scan_spec (ident : Nat) (ps : List Pick) (hI : Inv n sp) :
    ReportsOk sp (scan ident n ps).2 ∧
      Inv (scan ident n ps).1 ((scan ident n ps).2.foldl (fun sp _ => sp.reported) sp) := by
  induction ps generalizing n sp with
  | nil => exact ⟨trivial, hI⟩
  | cons p ps ih =>
    obtain h | ⟨n', e, h, hok, hI'⟩ := scanRound_spec hI ident p
    · simp only [scan, h]
      exact ih hI
    · simp only [scan, h]
      obtain ⟨hrest, hinv⟩ := ih hI'
      exact ⟨⟨hok, hrest⟩, hinv⟩

theorem wait_spec (ident : Nat) (maxevents : Int) (ps : List Pick) (hI : Inv n sp) :
    ReportsOk sp (ffEpollWait ident n maxevents ps).2 ∧
      Inv (ffEpollWait ident n maxevents ps).1
        ((ffEpollWait ident n maxevents ps).2.foldl (fun sp _ => sp.reported) sp) := by
  unfold ffEpollWait
  split
  · exact ⟨trivial, hI⟩
  · exact scan_spec ident _ hI

/-! ## Runs -/

/-- One careful call keeps its promise, and what the next one needs. -/
theorem step_spec (hI : Inv s.notes s.spec) {op : Op} (hc : Careful s op) :
    StepOk ident s op ∧ Inv (step ident s op).notes (step ident s op).spec := by
  cases op with
  | ctl op event => exact ctl_spec hI hc
  | wait maxevents picks => exact wait_spec ident maxevents picks hI

/-- In a run of careful calls, every call keeps what epoll promises. -/
theorem epoll_ok (ident : Nat) (ops : List Op) (hrun : Run.Guarded (step ident) Careful .init ops) :
    ∀ pre op, pre ++ [op] <+: ops → StepOk ident (run ident pre) op := by
  intro pre op hpre
  have hI := hrun.invariant (P := fun s => Inv s.notes s.spec)
    (fun _ _ hI hc => (step_spec hI hc).2) inv_init ((List.prefix_append _ _).trans hpre)
  exact (step_spec hI (hrun.guard_at hpre)).1

/-! ## Sample runs -/

/-- The descriptor is readable. -/
def readable : Pick := ⟨.read, true, false, false, 0⟩

/-- The descriptor is writable. -/
def writable : Pick := ⟨.write, true, false, false, 0⟩

/-- A registration that is changed, reported and removed, and one that is one-shot. -/
def plainRun : List Op :=
  [.ctl (some .add) (some ⟨true, false, false, false, 7⟩), .wait 8 [readable, writable],
   .ctl (some .mod) (some ⟨true, true, false, false, 9⟩), .wait 8 [readable, writable],
   .ctl (some .del) none, .ctl (some .add) (some ⟨true, false, true, true, 7⟩),
   .wait 8 [writable, readable, writable]]

theorem epoll_ok_plainRun : Run.Guarded (step 3) Careful .init plainRun ∧
    StepOk 3 (run 3 (plainRun.take 6)) (.wait 8 [writable, readable, writable]) := by
  have hreq : ∀ {sp r}, CarefulReq sp r → ∀ r', some r = some r' → CarefulReq sp r' := by
    rintro sp r h _ ⟨⟩
    exact h
  have hrun : Run.Guarded (step 3) Careful .init plainRun := by
    refine ⟨⟨nofun, fun _ => hreq ⟨nofun, nofun, nofun⟩⟩, trivial,
      ⟨fun _ => rfl, fun _ => hreq ⟨nofun, nofun, ?_⟩⟩, trivial, ⟨fun _ => rfl, nofun⟩,
      ⟨nofun, fun _ => hreq ⟨nofun, fun _ _ => rfl, nofun⟩⟩, trivial, trivial⟩
    rintro _ ⟨⟩
    rfl
  exact ⟨hrun, epoll_ok 3 plainRun hrun (plainRun.take 6) _ (List.prefix_refl _)⟩

/-- After a one-shot report `MOD` and `DEL` fail, a one-shot registration for both conditions is
reported twice, and data 0 is reported as the number of the descriptor. -/
theorem epoll_not_ok :
    ¬ StepOk 3 (run 3 [.ctl (some .add) (some ⟨true, false, false, true, 7⟩), .wait 8 [readable]])
      (.ctl (some .mod) (some ⟨true, false, false, true, 7⟩)) ∧
    ¬ StepOk 3 (run 3 [.ctl (some .add) (some ⟨true, false, false, true, 7⟩), .wait 8 [readable]])
      (.ctl (some .del) none) ∧
    ¬ StepOk 3 (run 3 [.ctl (some .add) (some ⟨true, true, false, true, 7⟩)])
      (.wait 8 [readable, writable]) ∧
    ¬ StepOk 3 (run 3 [.ctl (some .add) (some ⟨true, false, false, false, 0⟩)])
      (.wait 8 [readable]) := by
  refine ⟨fun h => ?_, fun h => ?_, fun h => ?_, fun h => ?_⟩
  · cases h.1 rfl rfl
  · cases (h rfl).1
  · cases h.2.1.1
  · obtain ⟨-, r, hr, -, -, hdata⟩ := h.1
    cases hr
    cases hdata

end FStack.Poll.Epoll
