import FStack.Fd.Table

/-!
# The books of the two stacks

A host socket or a host epoll that the library made for an F-Stack file should be open exactly as
long as some descriptor refers to that file; a host descriptor the application got, as long as the
application has it. `Good` says this, and that the library's books (`ff_native_fd_map`,
`ff_epoll_pairs`), which go by descriptor number, name only what is open.

Results, the ways a call changes the books:
* `inv_relink`: a descriptor that is in no book is closed or duplicated onto.
* `inv_handOut`, `inv_takeBack`: the application gets and gives back a host descriptor.
* `inv_dualSocket`, `inv_pairUp`: a file gets a host socket, a host epoll.
* `inv_closeOwned`: the last descriptor of a file is closed.
-/

namespace FStack.Fd

open Function List

/-! ## What should be open -/

/-- Some descriptor refers to the file. -/
def St.Alive (s : St) (x : Nat) : Prop := ∃ f, s.file f = some x

/-- The host descriptors there is a reason for. -/
def St.Due (s : St) (h : Int) : Role → Prop
  | .app => s.kfds h = true
  | .pair x => s.Alive x ∧ s.made x = some h
  | .ep x => ∃ y, x = some y ∧ s.Alive y ∧ s.madeEp y = some h
  | .lost => False

/-- A slot of `ff_epoll_pairs` in use, and for `kq`. -/
def St.Paired (s : St) (i : Nat) (kq : Int) : Prop :=
  i < 4 ∧ 0 < (s.pairs i).hostEp ∧ (s.pairs i).kq = kq

/-- The books are right: the open host descriptors are those due; an entry of the map, and a pair,
is of an open descriptor and names what was made for its file; no kqueue is in two pairs. -/
structure Good (s : St) : Prop where
  host : ∀ h r, s.host h = some r ↔ s.Due h r
  map : ∀ f, 0 < s.mapGet f → ∃ x, s.file f = some x ∧ s.made x = some (s.mapGet f)
  pairs : ∀ i kq, s.Paired i kq → ∃ x, s.file kq = some x ∧ s.madeEp x = some (s.pairs i).hostEp
  once : ∀ i j kq, s.Paired i kq → s.Paired j kq → i = j

/-- And the library can find what it made. -/
structure Inv (s : St) : Prop extends Good s where
  fileLt : ∀ f x, s.file f = some x → x < s.next
  madeLt : ∀ x h, s.made x = some h → x < s.next
  madeEpLt : ∀ x h, s.madeEp x = some h → x < s.next
  find : ∀ x h, s.Alive x → s.made x = some h → ∃ f, s.file f = some x ∧ s.mapGet f = h ∧ 0 < h
  findEp : ∀ x h, s.Alive x → s.madeEp x = some h → ∃ i kq, s.Paired i kq ∧ s.file kq = some x ∧
    (s.pairs i).hostEp = h

variable {s : St} {kq fd f h : Int} {i x : Nat}

/-! ## The books' operations -/

theorem slotOf_some (h : s.slotOf kq = some i) : s.Paired i kq := by
  obtain ⟨hmem, hp⟩ := And.intro (mem_of_find?_eq_some h) (find?_some h)
  simp only [Bool.and_eq_true, decide_eq_true_eq, beq_iff_eq] at hp
  exact ⟨mem_range.mp hmem, hp.1, hp.2⟩

theorem slotOf_none (h : s.slotOf kq = none) (i : Nat) : ¬ s.Paired i kq := by
  rintro ⟨hi, hpos, hkq⟩
  have hnot := find?_eq_none.mp h i (mem_range.mpr hi)
  simp only [Bool.and_eq_true, decide_eq_true_eq, beq_iff_eq] at hnot
  exact hnot ⟨hpos, hkq⟩

theorem freeSlot_some (h : s.freeSlot = some i) : i < 4 ∧ ¬ 0 < (s.pairs i).hostEp := by
  obtain ⟨hmem, hp⟩ := And.intro (mem_of_find?_eq_some h) (find?_some h)
  simp only [Bool.not_eq_true', decide_eq_false_iff_not] at hp
  exact ⟨mem_range.mp hmem, hp⟩

theorem mapGet_mapSet (s : St) (hfd : 0 ≤ fd ∧ fd < maxFreebsdFiles) (h f : Int) :
    (s.mapSet fd h).mapGet f = if f = fd then h else s.mapGet f := by
  unfold St.mapSet St.mapGet
  rw [if_pos hfd]
  dsimp only
  by_cases hf : f = fd
  · subst hf
    rw [if_pos rfl, update_self, if_neg (by omega)]
  · rw [if_neg hf, update_of_ne hf]

theorem mapGet_pos_bounds (h : 0 < s.mapGet f) : 0 ≤ f ∧ f < maxFreebsdFiles := by
  unfold St.mapGet at h
  split at h
  · omega
  · omega

/-- There is one reason for a host descriptor at most. -/
theorem Good.due_unique (hG : Good s) {r r' : Role} (hr : s.Due h r) (hr' : s.Due h r') : r = r' :=
  Option.some.inj (((hG.host h r).mpr hr).symm.trans ((hG.host h r').mpr hr'))

/-- A host descriptor becomes open for a new reason. -/
theorem host_add (hG : Good s) (r₀ : Role) (hfree : ∀ r, s.host h = some r → r = r₀)
    {host : Int → Option Role} {due : Int → Role → Prop} (hhost : host = update s.host h (some r₀))
    (hdue : ∀ h' r, due h' r ↔ s.Due h' r ∨ h' = h ∧ r = r₀) (h' : Int) (r : Role) :
    host h' = some r ↔ due h' r := by
  rw [hdue, hhost]
  by_cases hh : h' = h
  · subst hh
    rw [update_self]
    constructor
    · intro heq
      exact .inr ⟨rfl, (Option.some.inj heq).symm⟩
    · rintro (hr | ⟨-, rfl⟩)
      · rw [hfree r ((hG.host h' r).mpr hr)]
      · rfl
  · rw [update_of_ne hh, hG.host h' r]
    exact ⟨.inl, fun hr => hr.resolve_right fun hr => hh hr.1⟩

/-- A descriptor that no entry and no pair is about. -/
def St.Plain (s : St) (f : Int) : Prop := ¬ 0 < s.mapGet f ∧ ∀ i, ¬ s.Paired i f

/-- A closed descriptor is plain. -/
theorem Good.plain_of_closed (hG : Good s) (hf : s.file f = none) : s.Plain f := by
  refine ⟨fun hpos => ?_, fun i hi => ?_⟩
  · obtain ⟨x, hx, -⟩ := hG.map f hpos
    rw [hf] at hx
    cases hx
  · obtain ⟨x, hx, -⟩ := hG.pairs i f hi
    rw [hf] at hx
    cases hx

/-- **A plain descriptor is closed or made to refer to another file**, which was alive before or is
new. -/
theorem inv_relink (hI : Inv s) (hf : s.Plain f) {v : Option Nat} {n : Nat} (hn : s.next ≤ n)
    (hv : ∀ x, v = some x → x < n ∧ (s.Alive x ∨ s.made x = none ∧ s.madeEp x = none)) :
    Inv { s with file := update s.file f v, next := n } := by
  have hother : ∀ g x, g ≠ f → s.file g = some x → update s.file f v g = some x := by
    intro g x hg hx
    rwa [update_of_ne hg]
  have hold : ∀ g x, update s.file f v g = some x → s.file g = some x ∨ v = some x := by
    intro g x hx
    by_cases hg : g = f
    · subst hg
      rw [update_self] at hx
      exact .inr hx
    · rw [update_of_ne hg] at hx
      exact .inl hx
  -- What was made for a file is found at a descriptor that is not plain.
  have hfind : ∀ x h, s.Alive x → s.made x = some h →
      ∃ g, g ≠ f ∧ s.file g = some x ∧ s.mapGet g = h ∧ 0 < h := by
    intro x h halive hmade
    obtain ⟨g, hg, hmap, hpos⟩ := hI.find x h halive hmade
    refine ⟨g, fun hgf => hf.1 ?_, hg, hmap, hpos⟩
    rw [← hgf, hmap]
    exact hpos
  have hfindEp : ∀ x h, s.Alive x → s.madeEp x = some h →
      ∃ i kq, kq ≠ f ∧ s.Paired i kq ∧ s.file kq = some x ∧ (s.pairs i).hostEp = h := by
    intro x h halive hmade
    obtain ⟨i, kq, hpair, hkq, hep⟩ := hI.findEp x h halive hmade
    refine ⟨i, kq, fun hkf => hf.2 i ?_, hpair, hkq, hep⟩
    rw [← hkf]
    exact hpair
  have halive : ∀ x, (∃ g, update s.file f v g = some x) →
      s.Alive x ∨ s.made x = none ∧ s.madeEp x = none := by
    rintro x ⟨g, hg⟩
    rcases hold g x hg with hx | hx
    · exact .inl ⟨g, hx⟩
    · exact (hv x hx).2
  have hstays : ∀ x h, s.made x = some h ∨ s.madeEp x = some h →
      ((∃ g, update s.file f v g = some x) ↔ s.Alive x) := by
    intro x h hmade
    constructor
    · intro hx
      refine (halive x hx).resolve_right fun hnew => ?_
      rw [hnew.1, hnew.2] at hmade
      rcases hmade with hmade | hmade <;> cases hmade
    · intro hx
      rcases hmade with hmade | hmade
      · obtain ⟨g, hgf, hg, -⟩ := hfind x h hx hmade
        exact ⟨g, hother g x hgf hg⟩
      · obtain ⟨i, kq, hkf, -, hkq, -⟩ := hfindEp x h hx hmade
        exact ⟨kq, hother kq x hkf hkq⟩
  refine { host := fun h r => ?_, map := fun g hg => ?_, pairs := fun i kq hpair => ?_,
           once := hI.once, fileLt := fun g x hg => ?_, madeLt := fun x h hmade => ?_,
           madeEpLt := fun x h hmade => ?_, find := fun x h hx hmade => ?_,
           findEp := fun x h hx hmade => ?_ }
  · refine (hI.host h r).trans ?_
    cases r with
    | app | lost => exact Iff.rfl
    | pair x => exact and_congr_left fun hmade => (hstays x h (.inl hmade)).symm
    | ep x =>
      exact exists_congr fun y => and_congr_right fun _ => and_congr_left fun hmade =>
        (hstays y h (.inr hmade)).symm
  · obtain ⟨x, hx, hmade⟩ := hI.map g hg
    have hgf : g ≠ f := by
      rintro rfl
      exact hf.1 hg
    exact ⟨x, hother g x hgf hx, hmade⟩
  · obtain ⟨x, hx, hmade⟩ := hI.pairs i kq hpair
    have hkf : kq ≠ f := by
      rintro rfl
      exact hf.2 i hpair
    exact ⟨x, hother kq x hkf hx, hmade⟩
  · rcases hold g x hg with hx | hx
    · exact Nat.lt_of_lt_of_le (hI.fileLt g x hx) hn
    · exact (hv x hx).1
  · exact Nat.lt_of_lt_of_le (hI.madeLt x h hmade) hn
  · exact Nat.lt_of_lt_of_le (hI.madeEpLt x h hmade) hn
  · obtain ⟨g, hgf, hg, hmap, hpos⟩ := hfind x h ((hstays x h (.inl hmade)).mp hx) hmade
    exact ⟨g, hother g x hgf hg, hmap, hpos⟩
  · obtain ⟨i, kq, hkf, hpair, hkq, hep⟩ := hfindEp x h ((hstays x h (.inr hmade)).mp hx) hmade
    exact ⟨i, kq, hpair, hother kq x hkf hkq, hep⟩

theorem inv_openFile (hI : Inv s) (hf : s.file f = none) : Inv (s.openFile f) := by
  refine inv_relink hI (hI.plain_of_closed hf) (Nat.le_succ _) fun x hx => ?_
  cases hx
  refine ⟨Nat.lt_succ_self _, .inr ⟨?_, ?_⟩⟩
  · exact Option.eq_none_iff_forall_ne_some.mpr fun h hh => lt_irrefl _ (hI.madeLt _ h hh)
  · exact Option.eq_none_iff_forall_ne_some.mpr fun h hh => lt_irrefl _ (hI.madeEpLt _ h hh)

/-- The application gets a host descriptor that is free or its own. -/
theorem inv_handOut (hI : Inv s) (hfree : ∀ r, s.host h = some r → r = .app) :
    Inv (s.handOut h) := by
  refine { hI with host := host_add hI.toGood .app hfree rfl fun h' r => ?_ }
  cases r with
  | app =>
    change update s.kfds h true h' = true ↔ s.kfds h' = true ∨ h' = h ∧ _
    by_cases hh : h' = h
    · rw [hh, update_self]
      exact iff_of_true rfl (.inr ⟨rfl, rfl⟩)
    · rw [update_of_ne hh]
      exact ⟨.inl, fun hr => hr.resolve_right fun hr => hh hr.1⟩
  | pair x | ep x | lost => exact ⟨.inl, fun hr => hr.resolve_right nofun⟩

/-- The application closes a host descriptor of its own. -/
theorem inv_takeBack (hI : Inv s) (hown : ∀ r, s.host h = some r → r = .app) :
    Inv { s.setHost h none with kfds := update s.kfds h false } := by
  refine { hI with host := fun h' r => ?_ }
  change update s.host h none h' = some r ↔ _
  by_cases hh : h' = h
  · subst hh
    rw [update_self]
    refine iff_of_false nofun fun hr => ?_
    have happ : s.Due h' r → r = .app := fun hr => hown r ((hI.host h' r).mpr hr)
    cases r with
    | app =>
      change update s.kfds h' false h' = true at hr
      rw [update_self] at hr
      cases hr
    | pair x | ep x => cases happ hr
    | lost => exact hr
  · rw [update_of_ne hh, hI.host h' r]
    cases r with
    | app =>
      change s.kfds h' = true ↔ update s.kfds h false h' = true
      rw [update_of_ne hh]
    | pair x | ep x | lost => exact Iff.rfl

/-- A record is made for a file that had none. -/
theorem made_update {m : Nat → Option Int} (hnone : m x = none) (y : Nat) (g : Int) :
    update m x (some h) y = some g ↔ m y = some g ∨ g = h ∧ y = x := by
  by_cases hyx : y = x
  · subst hyx
    rw [update_self, hnone, Option.some_inj]
    exact ⟨fun heq => .inr ⟨heq.symm, rfl⟩, fun hr => (hr.resolve_left nofun).1.symm⟩
  · rw [update_of_ne hyx]
    exact ⟨.inl, fun hr => hr.resolve_right fun hr => hyx hr.2⟩

/-- **A new socket is paired** with a host socket. -/
theorem inv_dualSocket (hI : Inv s) (hfile : s.file f = some x) (hplain : s.Plain f)
    (hmade : s.made x = none) (hfd : 0 ≤ f ∧ f < maxFreebsdFiles) (hfree : s.host h = none)
    (hpos : 0 < h) : Inv (({ s.setHost h (some (.pair x)) with
      made := update s.made x (some h) } : St).mapSet f h) := by
  have hmapGet : ∀ g, (({ s.setHost h (some (.pair x)) with
      made := update s.made x (some h) } : St).mapSet f h).mapGet g =
        if g = f then h else s.mapGet g :=
    mapGet_mapSet _ hfd h
  have hget := made_update (h := h) hmade
  unfold St.mapSet at hmapGet ⊢
  rw [if_pos hfd] at hmapGet ⊢
  refine { hI with host := host_add hI.toGood (.pair x) (fun r hr => ?_) rfl fun h' r => ?_,
                   map := fun g hg => ?_, madeLt := fun y g hy => ?_,
                   find := fun y g hy hg => ?_ }
  · rw [hfree] at hr
    cases hr
  · cases r with
    | app | ep y | lost => exact ⟨.inl, fun hr => hr.resolve_right nofun⟩
    | pair y =>
      change s.Alive y ∧ update s.made x (some h) y = some h' ↔
        (s.Alive y ∧ s.made y = some h') ∨ h' = h ∧ Role.pair y = .pair x
      rw [hget, and_or_left]
      refine or_congr_right ⟨fun ⟨_, hh, hyx⟩ => ⟨hh, congrArg _ hyx⟩, fun ⟨hh, heq⟩ => ?_⟩
      cases heq
      exact ⟨⟨f, hfile⟩, hh, rfl⟩
  · rw [hmapGet] at hg ⊢
    by_cases hgf : g = f
    · subst hgf
      rw [if_pos rfl]
      exact ⟨x, hfile, update_self x _ s.made⟩
    · rw [if_neg hgf] at hg ⊢
      obtain ⟨y, hy, hmadeY⟩ := hI.map g hg
      exact ⟨y, hy, (hget y _).mpr (.inl hmadeY)⟩
  · rcases (hget y g).mp hy with hold | ⟨-, rfl⟩
    · exact hI.madeLt y g hold
    · exact hI.fileLt f y hfile
  · rcases (hget y g).mp hg with hold | ⟨rfl, rfl⟩
    · obtain ⟨k, hk, hmap, hk0⟩ := hI.find y g hy hold
      have hkf : k ≠ f := by
        rintro rfl
        exact hplain.1 (hmap ▸ hk0)
      refine ⟨k, hk, ?_, hk0⟩
      rw [hmapGet, if_neg hkf]
      exact hmap
    · refine ⟨f, hfile, ?_, hpos⟩
      rw [hmapGet, if_pos rfl]

/-- The host descriptors `ff_close` closes with `fd`. -/
def St.Tied (s : St) (fd h : Int) : Prop :=
  (0 < s.mapGet fd ∧ h = s.mapGet fd) ∨ ∃ i, s.Paired i fd ∧ h = (s.pairs i).hostEp

/-- What `ff_close` does when `kern_close` succeeds. -/
structure Closed (s s' : St) (fd : Int) : Prop where
  file : s'.file = update s.file fd none
  next : s'.next = s.next
  kfds : s'.kfds = s.kfds
  made : s'.made = s.made
  madeEp : s'.madeEp = s.madeEp
  hostTied : ∀ h, s.Tied fd h → s'.host h = none
  hostOther : ∀ h, ¬ s.Tied fd h → s'.host h = s.host h
  mapSelf : ¬ 0 < s'.mapGet fd
  mapOther : ∀ g, g ≠ fd → s'.mapGet g = s.mapGet g
  paired : ∀ i kq, s'.Paired i kq ↔ s.Paired i kq ∧ kq ≠ fd
  hostEp : ∀ i kq, s'.Paired i kq → (s'.pairs i).hostEp = (s.pairs i).hostEp

/-- Only descriptors that are open and tied to `fd` through its file are closed. -/
theorem Good.tied_due (hG : Good s) (hfile : s.file fd = some x) (ht : s.Tied fd h) :
    s.Due h (.pair x) ∨ s.Due h (.ep (some x)) := by
  rcases ht with ⟨hpos, rfl⟩ | ⟨i, hi, rfl⟩
  · obtain ⟨y, hy, hmade⟩ := hG.map fd hpos
    rw [hfile] at hy
    cases hy
    exact .inl ⟨⟨fd, hfile⟩, hmade⟩
  · obtain ⟨y, hy, hmade⟩ := hG.pairs i fd hi
    rw [hfile] at hy
    cases hy
    exact .inr ⟨x, rfl, ⟨fd, hfile⟩, hmade⟩

section

variable {s' : St} (hI : Inv s) (hfile : s.file fd = some x) (hc : Closed s s' fd)
  (hsole : ∀ g, s.file g = some x → g = fd)

include hfile hc hsole in
theorem Closed.file_iff (g : Int) (y : Nat) : s'.file g = some y ↔ s.file g = some y ∧ y ≠ x := by
  rw [hc.file]
  by_cases hg : g = fd
  · subst hg
    rw [update_self, hfile]
    refine iff_of_false nofun fun h => h.2 (Option.some.inj h.1).symm
  · rw [update_of_ne hg]
    refine ⟨fun h => ⟨h, ?_⟩, And.left⟩
    rintro rfl
    exact hg (hsole g h)

include hfile hc hsole in
theorem Closed.alive_iff (y : Nat) : s'.Alive y ↔ s.Alive y ∧ y ≠ x := by
  unfold St.Alive
  simp only [hc.file_iff hfile hsole, exists_and_right]

include hI hsole in
/-- What was made for the file is tied to its last descriptor. -/
theorem Inv.tied_of_due (hd : s.Due h (.pair x) ∨ s.Due h (.ep (some x))) : s.Tied fd h := by
  rcases hd with ⟨hx, hmade⟩ | ⟨y, hy, hx, hmade⟩
  · obtain ⟨g, hg, hmap, hpos⟩ := hI.find x h hx hmade
    rw [hsole g hg] at hmap
    exact .inl ⟨by rw [hmap]; exact hpos, hmap.symm⟩
  · cases hy
    obtain ⟨i, kq, hpair, hkq, hep⟩ := hI.findEp x h hx hmade
    rw [hsole kq hkq] at hpair
    exact .inr ⟨i, hpair, hep.symm⟩

include hI hfile hc hsole

theorem Closed.due_iff (h : Int) (r : Role) : s'.Due h r ↔ s.Due h r ∧ ¬ s.Tied fd h := by
  have halive := hc.alive_iff hfile hsole
  have huntied : s.Due h r → r ≠ .pair x → r ≠ .ep (some x) → ¬ s.Tied fd h := by
    intro hr hp he ht
    rcases hI.tied_due hfile ht with hd | hd
    · exact hp (hI.due_unique hr hd)
    · exact he (hI.due_unique hr hd)
  cases r with
  | app =>
    change s'.kfds h = true ↔ s.kfds h = true ∧ _
    rw [hc.kfds]
    exact ⟨fun hr => ⟨hr, huntied hr nofun nofun⟩, And.left⟩
  | lost => exact ⟨False.elim, fun hr => hr.1⟩
  | pair y =>
    change s'.Alive y ∧ s'.made y = some h ↔ (s.Alive y ∧ s.made y = some h) ∧ _
    rw [halive, hc.made]
    constructor
    · rintro ⟨⟨hy, hyx⟩, hmade⟩
      exact ⟨⟨hy, hmade⟩, huntied ⟨hy, hmade⟩ (fun heq => hyx (Role.pair.inj heq)) nofun⟩
    · rintro ⟨⟨hy, hmade⟩, hnot⟩
      refine ⟨⟨hy, ?_⟩, hmade⟩
      rintro rfl
      exact hnot (hI.tied_of_due hsole (.inl ⟨hy, hmade⟩))
  | ep y =>
    constructor
    · rintro ⟨z, rfl, hz, hmade⟩
      obtain ⟨hz, hzx⟩ := (halive z).mp hz
      rw [hc.madeEp] at hmade
      have hd : s.Due h (.ep (some z)) := ⟨z, rfl, hz, hmade⟩
      exact ⟨hd, huntied hd nofun fun heq => hzx (Option.some.inj (Role.ep.inj heq))⟩
    · rintro ⟨⟨z, rfl, hz, hmade⟩, hnot⟩
      refine ⟨z, rfl, (halive z).mpr ⟨hz, ?_⟩, by rw [hc.madeEp]; exact hmade⟩
      rintro rfl
      exact hnot (hI.tied_of_due hsole (.inr ⟨z, rfl, hz, hmade⟩))

/-- **The last descriptor of a file is closed**, and with it what was made for the file. -/
theorem inv_closeOwned : Inv s' := by
  have halive := hc.alive_iff hfile hsole
  have hkeep : ∀ g y, g ≠ fd → s.file g = some y → s'.file g = some y := by
    intro g y hg hy
    rwa [hc.file, update_of_ne hg]
  have hne : ∀ g y, s.file g = some y → y ≠ x → g ≠ fd := by
    rintro g y hg hyx rfl
    exact hyx (Option.some.inj (hg.symm.trans hfile))
  refine { host := fun h r => ?_, map := fun g hg => ?_, pairs := fun i kq hpair => ?_,
           once := fun i j kq hi hj => ?_, fileLt := fun g y hg => ?_, madeLt := fun y h hy => ?_,
           madeEpLt := fun y h hy => ?_, find := fun y h hy hmade => ?_,
           findEp := fun y h hy hmade => ?_ }
  · rw [hc.due_iff hI hfile hsole]
    by_cases ht : s.Tied fd h
    · rw [hc.hostTied h ht]
      exact iff_of_false nofun fun hr => hr.2 ht
    · rw [hc.hostOther h ht, hI.host h r]
      exact (and_iff_left ht).symm
  · have hgf : g ≠ fd := by
      rintro rfl
      exact hc.mapSelf hg
    rw [hc.mapOther g hgf] at hg ⊢
    obtain ⟨y, hy, hmade⟩ := hI.map g hg
    exact ⟨y, hkeep g y hgf hy, by rw [hc.made]; exact hmade⟩
  · obtain ⟨hpair', hkf⟩ := (hc.paired i kq).mp hpair
    obtain ⟨y, hy, hmade⟩ := hI.pairs i kq hpair'
    rw [hc.hostEp i kq hpair, hc.madeEp]
    exact ⟨y, hkeep kq y hkf hy, hmade⟩
  · exact hI.once i j kq ((hc.paired i kq).mp hi).1 ((hc.paired j kq).mp hj).1
  · rw [hc.next]
    exact hI.fileLt g y ((hc.file_iff hfile hsole g y).mp hg).1
  · rw [hc.next]
    rw [hc.made] at hy
    exact hI.madeLt y h hy
  · rw [hc.next]
    rw [hc.madeEp] at hy
    exact hI.madeEpLt y h hy
  · rw [hc.made] at hmade
    obtain ⟨hy, hyx⟩ := (halive y).mp hy
    obtain ⟨g, hg, hmap, hpos⟩ := hI.find y h hy hmade
    have hgf := hne g y hg hyx
    refine ⟨g, hkeep g y hgf hg, ?_, hpos⟩
    rw [hc.mapOther g hgf]
    exact hmap
  · rw [hc.madeEp] at hmade
    obtain ⟨hy, hyx⟩ := (halive y).mp hy
    obtain ⟨i, kq, hpair, hkq, hep⟩ := hI.findEp y h hy hmade
    have hkf := hne kq y hkq hyx
    have hpair' := (hc.paired i kq).mpr ⟨hpair, hkf⟩
    refine ⟨i, kq, hpair', hkeep kq y hkf hkq, ?_⟩
    rw [hc.hostEp i kq hpair']
    exact hep

end

/-- `ff_close` of an F-Stack descriptor, up to its pair. -/
def unmap (s : St) (fd : Int) : St :=
  let s := { s with file := update s.file fd none }
  if 0 < s.mapGet fd then (s.setHost (s.mapGet fd) none).mapSet fd 0 else s

theorem ffClose_eq (hkernel : isKernelFd fd = false) (hfile : s.file fd = some x) :
    (ffClose s fd false).1 = ffEpollClosePair (unmap s fd) fd := by
  unfold ffClose unmap
  rw [if_neg (by rw [hkernel]; exact Bool.false_ne_true), if_neg (by rw [hfile]; simp),
    if_neg Bool.false_ne_true]

/-- What `ff_close` does to the map and the host socket. -/
theorem unmap_spec (s : St) (fd : Int) :
    (unmap s fd).file = update s.file fd none ∧ (unmap s fd).next = s.next ∧
      (unmap s fd).kfds = s.kfds ∧ (unmap s fd).made = s.made ∧ (unmap s fd).madeEp = s.madeEp ∧
      (unmap s fd).pairs = s.pairs ∧
      (∀ h, (unmap s fd).host h = if 0 < s.mapGet fd ∧ h = s.mapGet fd then none else s.host h) ∧
      ¬ 0 < (unmap s fd).mapGet fd ∧ ∀ g, g ≠ fd → (unmap s fd).mapGet g = s.mapGet g := by
  have hget : ({ s with file := update s.file fd none } : St).mapGet fd = s.mapGet fd := rfl
  unfold unmap
  dsimp only
  rw [hget]
  by_cases hpos : 0 < s.mapGet fd
  · have hfd := mapGet_pos_bounds hpos
    have hmap := mapGet_mapSet (({ s with file := update s.file fd none } : St).setHost
      (s.mapGet fd) none) hfd 0
    unfold St.mapSet at hmap ⊢
    rw [if_pos hfd] at hmap
    rw [if_pos hpos, if_pos hfd]
    refine ⟨rfl, rfl, rfl, rfl, rfl, rfl, fun h => ?_, ?_, fun g hg => ?_⟩
    · change update s.host (s.mapGet fd) none h = _
      by_cases hh : h = s.mapGet fd
      · rw [if_pos ⟨hpos, hh⟩, hh, update_self]
      · rw [if_neg (fun hand => hh hand.2), update_of_ne hh]
    · rw [hmap, if_pos rfl]
      exact Int.lt_irrefl 0
    · rw [hmap, if_neg hg]
      rfl
  · rw [if_neg hpos]
    refine ⟨rfl, rfl, rfl, rfl, rfl, rfl, fun h => ?_, hpos, fun _ _ => rfl⟩
    rw [if_neg (fun hand => hpos hand.1)]

theorem closed_ffClose (hG : Good s) (hkernel : isKernelFd fd = false) (hfile : s.file fd = some x)
    : Closed s (ffClose s fd false).1 fd := by
  rw [ffClose_eq hkernel hfile]
  obtain ⟨hfile', hnext, hkfds, hmade, hmadeEp, hpairs, hhost, hself, hother⟩ := unmap_spec s fd
  have hslot : (unmap s fd).slotOf fd = s.slotOf fd := by
    unfold St.slotOf
    rw [hpairs]
  unfold ffEpollClosePair
  rw [hslot]
  cases hi : s.slotOf fd with
  | none =>
    have hnone := slotOf_none hi
    have hpaired : ∀ i kq, (unmap s fd).Paired i kq ↔ s.Paired i kq := by
      intro i kq
      unfold St.Paired
      rw [hpairs]
    refine ⟨hfile', hnext, hkfds, hmade, hmadeEp, fun h ht => ?_, fun h ht => ?_, hself, hother,
      fun i kq => ?_, fun i kq _ => by rw [hpairs]⟩
    · rw [hhost]
      rcases ht with hmap | ⟨i, hpair, -⟩
      · rw [if_pos hmap]
      · exact absurd hpair (hnone i)
    · rw [hhost, if_neg fun hmap => ht (.inl hmap)]
    · rw [hpaired]
      refine ⟨fun hpair => ⟨hpair, ?_⟩, And.left⟩
      rintro rfl
      exact hnone i hpair
  | some i =>
    have hpair := slotOf_some hi
    rw [hpairs]
    have hpaired : ∀ j kq, ({ (unmap s fd).setHost (s.pairs i).hostEp none with
        pairs := update s.pairs i ⟨0, 0⟩ } : St).Paired j kq ↔
        s.Paired j kq ∧ kq ≠ fd := by
      intro j kq
      change (j < 4 ∧ 0 < (update s.pairs i ⟨0, 0⟩ j).hostEp ∧
        (update s.pairs i ⟨0, 0⟩ j).kq = kq) ↔ _
      by_cases hj : j = i
      · subst hj
        rw [update_self]
        refine iff_of_false (fun h => Int.lt_irrefl 0 h.2.1) fun h => h.2 ?_
        exact h.1.2.2.symm.trans hpair.2.2
      · rw [update_of_ne hj]
        refine ⟨fun h => ⟨h, ?_⟩, And.left⟩
        rintro rfl
        exact hj (hG.once j i kq h hpair)
    refine ⟨hfile', hnext, hkfds, hmade, hmadeEp, fun h ht => ?_, fun h ht => ?_, hself, hother,
      hpaired, fun j kq hj => ?_⟩
    · change update (unmap s fd).host (s.pairs i).hostEp none h = none
      by_cases hh : h = (s.pairs i).hostEp
      · rw [hh, update_self]
      · rw [update_of_ne hh, hhost]
        rcases ht with hmap | ⟨j, hj, rfl⟩
        · rw [if_pos hmap]
        · rw [hG.once j i fd hj hpair] at hh
          exact absurd rfl hh
    · change update (unmap s fd).host (s.pairs i).hostEp none h = s.host h
      have hh : h ≠ (s.pairs i).hostEp := fun hh => ht (.inr ⟨i, hpair, hh⟩)
      rw [update_of_ne hh, hhost, if_neg fun hmap => ht (.inl hmap)]
    · change (update s.pairs i ⟨0, 0⟩ j).hostEp = _
      have hji : j ≠ i := by
        rintro rfl
        exact ((hpaired j kq).mp hj).2 ((((hpaired j kq).mp hj).1.2.2).symm.trans hpair.2.2)
      rw [update_of_ne hji]

/-- **A file is paired** with a new host epoll. -/
theorem inv_pairUp (hI : Inv s) {ep : Int} (hfile : s.file kq = some x) (hslot : s.slotOf kq = none)
    (hi : s.freeSlot = some i) (hmade : s.madeEp x = none) (hfree : s.host ep = none)
    (hpos : 0 < ep) : Inv { s.setHost ep (some (.ep (some x))) with
      madeEp := update s.madeEp x (some ep)
      pairs := update s.pairs i ⟨kq, ep⟩ } := by
  obtain ⟨hi4, hunused⟩ := freeSlot_some hi
  have hpaired : ∀ j k, ({ s.setHost ep (some (.ep (some x))) with
      madeEp := update s.madeEp x (some ep)
      pairs := update s.pairs i ⟨kq, ep⟩ } : St).Paired j k ↔
      s.Paired j k ∨ j = i ∧ k = kq := by
    intro j k
    change (j < 4 ∧ 0 < (update s.pairs i ⟨kq, ep⟩ j).hostEp ∧
      (update s.pairs i ⟨kq, ep⟩ j).kq = k) ↔ _
    by_cases hj : j = i
    · subst hj
      rw [update_self]
      constructor
      · rintro ⟨-, -, rfl⟩
        exact .inr ⟨rfl, rfl⟩
      · rintro (hold | ⟨-, rfl⟩)
        · exact absurd hold.2.1 hunused
        · exact ⟨hi4, hpos, rfl⟩
    · rw [update_of_ne hj]
      exact ⟨.inl, fun h => h.resolve_right fun h => hj h.1⟩
  have hget := made_update (h := ep) hmade
  have hne : ∀ j k, s.Paired j k → j ≠ i := by
    rintro j k hjk rfl
    exact hunused hjk.2.1
  refine { hI with host := host_add hI.toGood (.ep (some x)) (fun r hr => ?_) rfl
                     fun h r => ?_,
                   pairs := fun j k hjk => ?_, once := fun j j' k hj hj' => ?_,
                   madeEpLt := fun y g hy => ?_, findEp := fun y g hy hg => ?_ }
  · rw [hfree] at hr
    cases hr
  · cases r with
    | app | pair y | lost => exact ⟨.inl, fun hr => hr.resolve_right nofun⟩
    | ep o =>
      change (∃ y, o = some y ∧ s.Alive y ∧ update s.madeEp x (some ep) y = some h) ↔
        (∃ y, o = some y ∧ s.Alive y ∧ s.madeEp y = some h) ∨ h = ep ∧ Role.ep o = .ep (some x)
      simp only [hget]
      constructor
      · rintro ⟨y, rfl, hy, hold | ⟨rfl, rfl⟩⟩
        · exact .inl ⟨y, rfl, hy, hold⟩
        · exact .inr ⟨rfl, rfl⟩
      · rintro (⟨y, rfl, hy, hold⟩ | ⟨rfl, heq⟩)
        · exact ⟨y, rfl, hy, .inl hold⟩
        · exact ⟨x, Role.ep.inj heq, ⟨kq, hfile⟩, .inr ⟨rfl, rfl⟩⟩
  · rcases (hpaired j k).mp hjk with hold | ⟨rfl, rfl⟩
    · obtain ⟨y, hy, hmadeY⟩ := hI.pairs j k hold
      refine ⟨y, hy, ?_⟩
      change update s.madeEp x (some ep) y = some (update s.pairs i ⟨kq, ep⟩ j).hostEp
      rw [update_of_ne (hne j k hold)]
      exact (hget y _).mpr (.inl hmadeY)
    · refine ⟨x, hfile, ?_⟩
      change update s.madeEp x (some ep) x = some (update s.pairs j ⟨k, ep⟩ j).hostEp
      rw [update_self, update_self]
  · rcases (hpaired j k).mp hj with hold | ⟨rfl, rfl⟩
    · rcases (hpaired j' k).mp hj' with hold' | ⟨rfl, rfl⟩
      · exact hI.once j j' k hold hold'
      · exact absurd hold (slotOf_none hslot j)
    · rcases (hpaired j' k).mp hj' with hold' | ⟨rfl, -⟩
      · exact absurd hold' (slotOf_none hslot j')
      · rfl
  · rcases (hget y g).mp hy with hold | ⟨-, rfl⟩
    · exact hI.madeEpLt y g hold
    · exact hI.fileLt kq y hfile
  · rcases (hget y g).mp hg with hold | ⟨rfl, rfl⟩
    · obtain ⟨j, k, hjk, hk, hep⟩ := hI.findEp y g hy hold
      refine ⟨j, k, (hpaired j k).mpr (.inl hjk), hk, ?_⟩
      change (update s.pairs i ⟨kq, ep⟩ j).hostEp = g
      rw [update_of_ne (hne j k hjk)]
      exact hep
    · refine ⟨i, kq, (hpaired i kq).mpr (.inr ⟨rfl, rfl⟩), hfile, ?_⟩
      change (update s.pairs i ⟨kq, g⟩ i).hostEp = g
      rw [update_self]

end FStack.Fd
