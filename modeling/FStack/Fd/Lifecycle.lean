import FStack.Fd.Books
import FStack.Lib.Run

/-!
# The lifecycle of paired descriptors

Only `ff_close` clears the books. `ff_dup2` closes a descriptor as well and does not
(`lib/ff_syscall_wrapper.c:2207-2215`); nor does `ff_fcntl` with `F_DUP2FD` or `F_DUP3FD`, which
`linux2freebsd_fcntl` lets through. `ff_close` closes the host's side although a duplicate of the
descriptor is left (`1169-1177`), and does not close it if `kern_close` freed the descriptor and
returned an error. `ff_fcntl` repeats `F_DUPFD` in the host and forgets the descriptor
(`1593-1600`). `ff_epoll_host_ep` pairs any number, also one that is not open
(`lib/ff_epoll.c:43-66`).

Results:
* `descriptors_ok`: what holds in every state of a run of fine steps.
* `descriptors_not_ok`: `ff_dup2` over a paired descriptor, `F_DUPFD`, and `ff_close` beside a
  duplicate.
-/

namespace FStack.Fd

open Function FStack.Lib

variable {s : St} {h fd old new kq maxfd : Int} {create : Bool} {ep : Option Int}

/-! ## Fine steps -/

/-- The host descriptor, if it is open, is the application's. -/
def St.OwnHost (s : St) (h : Int) : Prop := ∀ r, s.host h = some r → r = .app

/-- The descriptor is the host's, or paired with one of the host. -/
def St.HostSide (s : St) (fd : Int) : Prop := isKernelFd fd = true ∨ 0 < s.mapGet fd

/-- A number that is paired or can be: it is open, no duplicate of it is paired, and the host does
not give 0 to the epoll. -/
def St.CanPair (s : St) (kq : Int) (ep : Option Int) : Prop :=
  s.slotOf kq = none →
    (∃ x, s.file kq = some x ∧ ∀ i k, s.Paired i k → s.file k ≠ some x) ∧ ep ≠ some 0

/-- A descriptor that can be overwritten by a duplicate of `old`. -/
def St.CanCover (s : St) (old new : Int) : Prop := old ≠ new → s.Plain new

/-- Each change that adds a descriptor of the host finds its kqueue paired or can pair it. -/
def FineChanges (kq : Int) : St → List (Change × Option Int) → Prop
  | _, [] => True
  | s, c :: cs => (c.1.evDelete = false → s.HostSide c.1.ident → s.CanPair kq c.2) ∧
      FineChanges kq (ffKeventHostChange s kq c.1 c.2) cs

/-- A step that keeps the books right. -/
def Fine (s : St) : Op → Prop
  | .socket kernel fstack f h => kernel = false → fstack = false →
      ∀ f₀, f = some f₀ → f₀ < maxFreebsdFiles ∧ h ≠ some 0
  | .kqueue _ => True
  | .close fd kernErr =>
      (isKernelFd fd = true → s.OwnHost (kernelFdReal fd)) ∧
      (isKernelFd fd = false → ∀ x, s.file fd = some x → ¬ s.Plain fd →
        kernErr = false ∧ ∀ g, s.file g = some x → g = fd)
  | .dup old _ => isKernelFd old = true → s.OwnHost (kernelFdReal old)
  | .dup2 _ old new =>
      (isKernelFd old = true → isKernelFd new = true →
        s.OwnHost (kernelFdReal old) ∧ s.OwnHost (kernelFdReal new)) ∧
      (isKernelFd old = false → isKernelFd new = false → s.CanCover old new)
  | .fcntl _ fd cmd arg _ _ => (hostDups cmd = true → ¬ s.HostSide fd) ∧
      (kernDup2s cmd = true → s.CanCover fd arg)
  | .accept _ _ _ => True
  | .epollCtl epfd op fd ep => op ≠ .del → s.HostSide fd → s.CanPair epfd ep
  | .kevent kq changes => FineChanges kq s changes

/-! ## The calls -/

theorem freeHost_iff : s.freeHost h = true ↔ 0 ≤ h ∧ s.host h = none := by
  unfold St.freeHost
  simp

theorem freeFd_iff {f : Int} :
    s.freeFd f = true ↔ (0 ≤ f ∧ f < kernelFdBase) ∧ s.file f = none := by
  unfold St.freeFd
  simp

theorem ownHost_of_free (hfree : s.freeHost h = true) : s.OwnHost h := by
  intro r hr
  rw [(freeHost_iff.mp hfree).2] at hr
  cases hr

theorem inv_ffSocket (hI : Inv s) {kernel fstack : Bool} {f h : Option Int}
    (hfine : Fine s (.socket kernel fstack f h)) : Inv (ffSocket s kernel fstack f h).1 := by
  unfold ffSocket
  split
  · split
    · split
      next hfree => exact inv_handOut hI (ownHost_of_free hfree)
      · exact hI
    · exact hI
  next hnot =>
    split
    · exact hI
    next f =>
      split
      next hfreeFd =>
        obtain ⟨hbounds, hclosed⟩ := freeFd_iff.mp hfreeFd
        have hopen : Inv (s.openFile f) := inv_openFile hI hclosed
        dsimp only
        split
        next h =>
          split
          next hfree =>
            have hkernel : kernel = false := by
              cases kernel with
              | false => rfl
              | true => exact absurd rfl hnot
            obtain ⟨hmax, hzero⟩ := hfine hkernel rfl f rfl
            obtain ⟨hnonneg, hhost⟩ := freeHost_iff.mp hfree
            have hmade : s.made s.next = none := by
              by_contra hmade
              obtain ⟨g, hg⟩ := Option.ne_none_iff_exists'.mp hmade
              exact lt_irrefl _ (hI.madeLt _ _ hg)
            refine inv_dualSocket hopen (update_self f _ s.file) ?_ hmade
              ⟨hbounds.1, hmax⟩ hhost ?_
            · exact hI.plain_of_closed hclosed
            · have hne : h ≠ 0 := fun h0 => hzero (by rw [h0])
              omega
          · exact hopen
        · exact hopen
      · exact hI

theorem inv_ffClose (hI : Inv s) {kernErr : Bool} (hfine : Fine s (.close fd kernErr)) :
    Inv (ffClose s fd kernErr).1 := by
  by_cases hkernel : isKernelFd fd = true
  · unfold ffClose
    rw [if_pos hkernel]
    dsimp only
    split
    · exact inv_takeBack hI (hfine.1 hkernel)
    · exact hI
  · have hkernel' : isKernelFd fd = false := by
      rw [Bool.not_eq_true] at hkernel
      exact hkernel
    cases hfile : s.file fd with
    | none =>
      unfold ffClose
      rw [if_neg hkernel, if_pos (by rw [hfile]; rfl)]
      exact hI
    | some x =>
      by_cases hplain : s.Plain fd
      · have hrelink : Inv { s with file := update s.file fd none } :=
          inv_relink hI hplain le_rfl nofun
        cases kernErr with
        | true =>
          unfold ffClose
          rw [if_neg hkernel, if_neg (by rw [hfile]; simp), if_pos rfl]
          exact hrelink
        | false =>
          have hslot : s.slotOf fd = none := by
            by_contra hsome
            obtain ⟨i, hi⟩ := Option.ne_none_iff_exists'.mp hsome
            exact hplain.2 i (slotOf_some hi)
          have hunmap : unmap s fd = { s with file := update s.file fd none } :=
            if_neg hplain.1
          rw [ffClose_eq hkernel' hfile, hunmap]
          unfold ffEpollClosePair
          have hslot' : ({ s with file := update s.file fd none } : St).slotOf fd = none :=
            hslot
          rw [hslot']
          exact hrelink
      · obtain ⟨rfl, hsole⟩ := hfine.2 hkernel' x hfile hplain
        exact inv_closeOwned hI hfile (closed_ffClose hI.toGood hkernel' hfile) hsole

theorem inv_kernDup (hI : Inv s) (old new : Int) : Inv (kernDup s old new).1 := by
  unfold kernDup
  split
  · exact hI
  next x hx =>
    split
    next hfree =>
      refine inv_relink hI (hI.plain_of_closed (freeFd_iff.mp hfree).2) le_rfl ?_
      intro y hy
      cases hy
      exact ⟨hI.fileLt old x hx, .inl ⟨old, hx⟩⟩
    · exact hI

section

variable (hI : Inv s)

include hI

theorem inv_kernDup2 (maxfd : Int) (hcover : s.CanCover old new) :
    Inv (kernDup2 s maxfd old new).1 := by
  unfold kernDup2
  split
  · exact hI
  · split
    · exact hI
    next x hx =>
      by_cases heq : old = new
      · subst heq
        have hsame : update s.file old (some x) = s.file := by
          rw [← hx]
          exact update_eq_self old s.file
        rw [hsame]
        exact hI
      · refine inv_relink hI (hcover heq) le_rfl ?_
        intro y hy
        cases hy
        exact ⟨hI.fileLt old x hx, .inl ⟨old, hx⟩⟩

/-- A copy of a host descriptor of the application's is handed out. -/
theorem inv_hostCopy {r : Role} (hr : r = .app) (hnew : s.OwnHost new) :
    Inv { s.setHost new (some r) with kfds := update s.kfds new true } := by
  subst hr
  exact inv_handOut hI hnew

theorem inv_ffDup (hfine : Fine s (.dup old new)) : Inv (ffDup s old new).1 := by
  unfold ffDup
  split
  next hkernel =>
    unfold hostDup
    split
    · exact hI
    next r hr =>
      split
      next hfree => exact inv_hostCopy hI (hfine hkernel r hr) (ownHost_of_free hfree)
      · exact hI
  · exact inv_kernDup hI old new

theorem inv_ffDup2 (hfine : Fine s (.dup2 maxfd old new)) : Inv (ffDup2 s maxfd old new).1 := by
  unfold ffDup2
  split
  · exact hI
  next hsame =>
    have hboth : isKernelFd old = isKernelFd new := by
      rw [Bool.not_eq_true, bne_eq_false_iff_eq] at hsame
      exact hsame
    split
    next hkernel =>
      rw [Bool.and_eq_true] at hkernel
      obtain ⟨hold, hnew⟩ := hfine.1 hkernel.1 hkernel.2
      split
      · exact hI
      next r hr => exact inv_hostCopy hI (hold r hr) hnew
    next hkernel =>
      have hold : isKernelFd old = false := by
        cases hk : isKernelFd old with
        | false => rfl
        | true => exact absurd (by rw [← hboth, hk]; rfl) hkernel
      exact inv_kernDup2 hI maxfd (hfine.2 hold (hboth ▸ hold))

theorem inv_ffFcntl {cmd arg hnew : Int} (hfine : Fine s (.fcntl maxfd fd cmd arg new hnew)) :
    Inv (ffFcntl s maxfd fd cmd arg new hnew).1 := by
  unfold ffFcntl
  split
  next hkernel =>
    split
    next hdups => exact absurd (.inl hkernel) (hfine.1 hdups)
    · exact hI
  · have hsame : (if (0 < s.mapGet fd && hostDups cmd) = true then
        hostDupLost s (s.mapGet fd) hnew else s) = s := by
      refine if_neg fun hboth => ?_
      rw [Bool.and_eq_true, decide_eq_true_eq] at hboth
      exact hfine.1 hboth.2 (.inr hboth.1)
    rw [hsame]
    split
    · exact inv_kernDup hI fd new
    · split
      next hdup2 => exact inv_kernDup2 hI maxfd (hfine.2 hdup2)
      · exact hI

theorem inv_hostAccept (listening : Int) (h : Option Int) : Inv (hostAccept s listening h).1 := by
  unfold hostAccept
  split
  · split
    next hfree => exact inv_handOut hI (ownHost_of_free hfree)
    · exact hI
  · exact hI

theorem inv_ffAccept (fd : Int) (f h : Option Int) : Inv (ffAccept s fd f h).1 := by
  unfold ffAccept
  split
  · exact inv_hostAccept hI _ _
  · split
    · exact hI
    · split
      · split
        next hfree => exact inv_openFile hI (freeFd_iff.mp hfree).2
        · exact hI
      · split
        · exact inv_hostAccept hI _ _
        · exact hI

end

theorem inv_ffEpollHostEp (hI : Inv s) (hcan : create = true → s.CanPair kq ep) :
    Inv (ffEpollHostEp s kq create ep).1 := by
  unfold ffEpollHostEp
  split
  · exact hI
  next hslot =>
    split
    next i ep hi =>
      obtain ⟨⟨x, hfile, hunpaired⟩, hzero⟩ := hcan rfl hslot
      split
      next hfree =>
        obtain ⟨hnonneg, hhost⟩ := freeHost_iff.mp hfree
        have hpos : 0 < ep := by
          have hne : ep ≠ 0 := fun h0 => hzero (by rw [h0])
          omega
        have hmade : s.madeEp x = none := by
          by_contra hmade
          obtain ⟨g, hg⟩ := Option.ne_none_iff_exists'.mp hmade
          obtain ⟨j, k, hjk, hk, -⟩ := hI.findEp x g ⟨kq, hfile⟩ hg
          exact hunpaired j k hjk hk
        rw [hfile, if_pos hpos]
        exact inv_pairUp hI hfile hslot hi hmade hhost hpos
      · exact hI
    · exact hI

theorem inv_hostRegister (hI : Inv s) (hcan : create = true → s.HostSide fd → s.CanPair kq ep) :
    Inv (hostRegister s kq fd create ep) := by
  unfold hostRegister
  split
  next hside =>
    rw [Bool.or_eq_true, decide_eq_true_eq] at hside
    exact inv_ffEpollHostEp hI fun hcreate => hcan hcreate hside
  · exact hI

theorem inv_ffKeventHostChange (hI : Inv s) {c : Change}
    (hcan : c.evDelete = false → s.HostSide c.ident → s.CanPair kq ep) :
    Inv (ffKeventHostChange s kq c ep) := by
  unfold ffKeventHostChange
  split
  · refine inv_hostRegister hI fun hcreate => hcan ?_
    rw [Bool.not_eq_true'] at hcreate
    exact hcreate
  · exact hI

theorem inv_ffKevent (hI : Inv s) {changes : List (Change × Option Int)}
    (hfine : FineChanges kq s changes) : Inv (ffKevent s kq changes) := by
  induction changes generalizing s with
  | nil => exact hI
  | cons c cs ih => exact ih (inv_ffKeventHostChange hI hfine.1) hfine.2

/-- **A fine step** keeps the books right. -/
theorem inv_step (hI : Inv s) (op : Op) (hfine : Fine s op) : Inv (step s op) := by
  cases op with
  | socket kernel fstack f h => exact inv_ffSocket hI hfine
  | kqueue f =>
    change Inv (ffKqueue s f).1
    unfold ffKqueue
    split
    · exact hI
    · split
      next hfree => exact inv_openFile hI (freeFd_iff.mp hfree).2
      · exact hI
  | close fd kernErr => exact inv_ffClose hI hfine
  | dup old new => exact inv_ffDup hI hfine
  | dup2 maxfd old new => exact inv_ffDup2 hI hfine
  | fcntl maxfd fd cmd arg new hnew => exact inv_ffFcntl hI hfine
  | accept fd f h => exact inv_ffAccept hI fd f h
  | epollCtl epfd op fd ep =>
    refine inv_hostRegister hI fun hcreate => hfine ?_
    rw [bne_iff_ne] at hcreate
    exact hcreate
  | kevent kq changes => exact inv_ffKevent hI hfine

/-! ## Runs -/

/-- Every step of the run is fine. -/
def FineRun : St → List Op → Prop := Run.Guarded step Fine

theorem inv_init : Inv .init where
  host h r := by
    refine iff_of_false nofun fun hr => ?_
    cases r with
    | app => cases hr
    | pair x =>
      obtain ⟨⟨f, hf⟩, -⟩ := hr
      cases hf
    | ep x =>
      obtain ⟨y, -, ⟨f, hf⟩, -⟩ := hr
      cases hf
    | lost => exact hr
  map f hf := by
    have hzero : St.init.mapGet f = 0 := ite_self _
    rw [hzero] at hf
    exact absurd hf (Int.lt_irrefl 0)
  pairs i kq hi := absurd hi.2.1 (Int.lt_irrefl 0)
  once i j kq hi _ := absurd hi.2.1 (Int.lt_irrefl 0)
  fileLt _ _ hf := nomatch hf
  madeLt _ _ hx := nomatch hx
  madeEpLt _ _ hx := nomatch hx
  find _ _ _ hx := nomatch hx
  findEp _ _ _ hx := nomatch hx

/-- **The lifecycle of descriptors**: in every state of a run of fine steps the books are right. -/
theorem descriptors_ok (ops : List Op) (hrun : FineRun .init ops) (pre : List Op)
    (hpre : pre <+: ops) : Good (run pre) :=
  (Run.Guarded.invariant (P := Inv) (fun _ op hI => inv_step hI op) inv_init hrun hpre).toGood

/-- A dual-stack socket and a kqueue it is registered with, both closed in the end. -/
def pairedRun : List Op :=
  [.socket false false (some 3) (some 5), .kqueue (some 4), .epollCtl 4 .add 3 (some 6),
    .close 3 false, .close 4 false]

theorem descriptors_ok_pairedRun : FineRun .init pairedRun ∧ Good (run pairedRun) := by
  have hrun : FineRun .init pairedRun := by
    refine ⟨fun _ _ f hf => ?_, trivial, fun _ _ _ => ⟨⟨1, rfl, ?_⟩, by decide⟩, ?_, ?_, trivial⟩
    · cases hf
      decide
    · rintro i k ⟨-, hpos, -⟩
      exact absurd hpos (Int.lt_irrefl 0)
    · refine ⟨nofun, fun _ x hx _ => ⟨rfl, fun g hg => ?_⟩⟩
      change update (update (fun _ => none) 3 (some 0)) 4 (some 1) g = some x at hg
      rw [← hx, update_apply, update_apply] at hg
      split at hg
      · cases hg
      · split at hg
        · assumption
        · cases hg
    · refine ⟨nofun, fun _ x hx _ => ⟨rfl, fun g hg => ?_⟩⟩
      change update (update (update (fun _ => none) 3 (some 0)) 4
        (some 1)) 3 none g = some x at hg
      rw [← hx, update_apply, update_apply, update_apply] at hg
      split at hg
      · cases hg
      · split at hg
        · assumption
        · cases hg
  exact ⟨hrun, descriptors_ok pairedRun hrun pairedRun (List.prefix_refl _)⟩

/-- Two dual-stack sockets, and the first duplicated onto the second. -/
def coverRun : List Op :=
  [.socket false false (some 3) (some 5), .socket false false (some 4) (some 6), .dup2 1024 3 4]

/-- A dual-stack socket, and `F_DUPFD` of it. -/
def dupfdRun : List Op := [.socket false false (some 3) (some 5), .fcntl 1024 3 0 0 4 6]

/-- A dual-stack socket, a duplicate of it, and the socket closed. -/
def dupCloseRun : List Op := [.socket false false (some 3) (some 5), .dup 3 4, .close 3 false]

/-- After the first run host descriptor 6 is open, though no descriptor refers to the file it was
made for; after the second, descriptor 6 is open for no reason; after the third, descriptor 5 is
closed, though the duplicate refers to the file it was made for. -/
theorem descriptors_not_ok :
    ((run coverRun).host 6 = some (.pair 1) ∧ (∀ f, (run coverRun).file f ≠ some 1) ∧
      ¬ Good (run coverRun)) ∧
    ((run dupfdRun).host 6 = some .lost ∧ ¬ Good (run dupfdRun)) ∧
    ((run dupCloseRun).file 4 = some 0 ∧ (run dupCloseRun).made 0 = some 5 ∧
      (run dupCloseRun).host 5 = none ∧ ¬ Good (run dupCloseRun)) := by
  have hgone : ∀ f, (run coverRun).file f ≠ some 1 := by
    intro f hf
    change update (update (update (fun _ => none) 3 (some 0)) 4
      (some 1)) 4 (some 0) f = some 1 at hf
    rw [update_idem, update_apply, update_apply] at hf
    split at hf
    · cases hf
    · split at hf <;> cases hf
  refine ⟨⟨rfl, hgone, fun h => ?_⟩, ⟨rfl, fun h => ?_⟩, rfl, rfl, rfl, fun h => ?_⟩
  · obtain ⟨⟨f, hf⟩, -⟩ := (h.host 6 (.pair 1)).mp rfl
    exact hgone f hf
  · exact (h.host 6 .lost).mp rfl
  · have hopen := (h.host 5 (.pair 0)).mpr ⟨⟨4, rfl⟩, rfl⟩
    cases hopen

end FStack.Fd
