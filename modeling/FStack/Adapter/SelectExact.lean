import FStack.Adapter.Select

/-!
# The syscall adapter: when `select` is right

`separate` has F-Stack's and the kernel's descriptors of each set apart (`Seen`, `separated`). A
round leaves the words of the copies behind those of F-Stack's descriptors as they were
(`ffSysSelect_share`), and `finish` adds all the bits of a copy to the caller's set (`merge_apply`).
From these the call is right whatever is reported if `Sound` holds, and only then
(`select_exact_iff`).
-/

namespace FStack.Adapter.Select

open Function List FStack.Lib

theorem Kind.mem_all (k : Kind) : k ∈ Kind.all := by
  cases k <;> decide

@[simp] theorem flag_flag (k : Kind) : flag (flag k) = k := by
  cases k <;> rfl

theorem flag_inj {k k' : Kind} : flag k = flag k' ↔ k = k' :=
  ⟨fun h => by rw [← flag_flag k, h, flag_flag], fun h => h ▸ rfl⟩

/-! ## The two parts of the sets -/

/-- The sets of one stack, with the numbers that its descriptors have there; `done` are the kinds
that have been cleared. -/
structure Half (setWords : Nat) (done : Kind → Prop) (seen : Kind → Nat → Prop) (sets : Kind → Bits)
    (max : Nat) : Prop where
  sets : ∀ k, done k → ∀ i < 64 * setWords, sets k i = true ↔ seen k i
  le_max : ∀ k i, seen k i → i ≤ max
  max_mem : max = 0 ∨ ∃ k, seen k max

variable {i maxFd setWords nfds fd ret kernelRet : Nat} {sets share share' kr fr : Kind → Bits}
  {done : Kind → Prop} {seen seen' : Kind → Nat → Prop} {p : Parts} {k : Kind} {ring : Bool}
  {s st : State} {c : Call} {t : Task} {out out' : Sets} {o : Option Bits} {fds : List Nat}

section Half

variable {setWords m : Nat} {done : Kind → Prop} {seen seen' : Kind → Nat → Prop} {k : Kind}

variable (h : Half setWords done seen sets m)

include h

theorem Half.congr (hseen : ∀ k i, seen k i ↔ seen' k i) : Half setWords done seen' sets m where
  sets k hk i hi := (h.sets k hk i hi).trans (hseen k i)
  le_max k i hi := h.le_max k i ((hseen k i).2 hi)
  max_mem := h.max_mem.imp_right fun ⟨k, hk⟩ => ⟨k, (hseen k m).1 hk⟩

theorem Half.insert :
    Half setWords done (fun k' i' => seen k' i' ∨ k' = k ∧ i' = i)
      (update sets k ((sets k).insert i)) (max m i) where
  sets k' hk' i' hi' := by
    by_cases hkk : k' = k
    · subst hkk
      rw [update_self, Bits.insert_apply, h.sets k' hk' i' hi']
      simp [or_comm]
    · rw [update_of_ne hkk, h.sets k' hk' i' hi']
      simp [hkk]
  le_max k' i' hi' := by
    rcases hi' with hi' | ⟨-, rfl⟩
    · exact (h.le_max k' i' hi').trans (le_max_left m i)
    · exact le_max_right m i'
  max_mem := by
    rcases le_total i m with hle | hle
    · rw [max_eq_left hle]
      exact h.max_mem.imp_right fun ⟨k', hk'⟩ => ⟨k', .inl hk'⟩
    · rw [max_eq_right hle]
      exact .inr ⟨k, .inr ⟨rfl, rfl⟩⟩

/-- The set of a kind of which nothing has been seen is cleared. -/
theorem Half.clear (hk : ∀ i, ¬ seen k i) :
    Half setWords (fun k' => done k' ∨ k' = k) seen
      (update sets k (Bits.copy (64 * setWords) (sets k) .empty)) m where
  __ := h
  sets k' hk' i hi := by
    by_cases hkk : k' = k
    · subst hkk
      rw [update_self, Bits.copy_lt hi]
      simp [Bits.empty, hk i]
    · rw [update_of_ne hkk]
      exact h.sets k' (hk'.resolve_right hkk) i hi

end Half

/-- The descriptors that have been seen are where they belong. -/
structure Seen (maxFd setWords : Nat) (done : Kind → Prop) (seen : Kind → Nat → Prop) (p : Parts) :
    Prop where
  ff : Half setWords done (fun k i => seen k (i + maxFd)) p.ffFds p.maxFf
  kernel : Half setWords done (fun k i => i < maxFd ∧ seen k i) p.kernelFds p.maxKernel
  haveFf : ∀ k, p.haveFf (flag k) = true ↔ ∃ i, seen k (i + maxFd)
  haveKernel : p.haveKernel = true ↔ ∃ k i, i < maxFd ∧ seen k i

theorem Seen.congr (h : Seen maxFd setWords done seen p) (hseen : ∀ k i, seen k i ↔ seen' k i) :
    Seen maxFd setWords done seen' p where
  ff := h.ff.congr fun k i => hseen k (i + maxFd)
  kernel := h.kernel.congr fun k i => and_congr_right fun _ => hseen k i
  haveFf k := (h.haveFf k).trans (exists_congr fun i => hseen k (i + maxFd))
  haveKernel := h.haveKernel.trans
    (exists_congr fun k => exists_congr fun i => and_congr_right fun _ => hseen k i)

theorem Seen.of_done {done' : Kind → Prop} (h : Seen maxFd setWords done seen p)
    (hdone : ∀ k, done' k → done k) : Seen maxFd setWords done' seen p where
  __ := h
  ff := ⟨fun k hk => h.ff.sets k (hdone k hk), h.ff.le_max, h.ff.max_mem⟩
  kernel := ⟨fun k hk => h.kernel.sets k (hdone k hk), h.kernel.le_max, h.kernel.max_mem⟩

theorem seen_addFd (h : Seen maxFd setWords done seen p) :
    Seen maxFd setWords done (fun k' i => seen k' i ∨ k' = k ∧ i = fd) (addFd maxFd k p fd) := by
  unfold addFd
  split
  next hfd =>
    refine ⟨h.ff.insert.congr fun k' i => ?_, h.kernel.congr fun k' i => ?_, fun k' => ?_, ?_⟩
    · have hi : i = fd - maxFd ↔ i + maxFd = fd := by omega
      rw [hi]
    · exact and_congr_right fun hi => (or_iff_left (by omega)).symm
    · by_cases hkk : k' = k
      · subst hkk
        simp only [update_self, true_and, true_iff]
        exact ⟨fd - maxFd, .inr (by omega)⟩
      · simp only [ne_eq, flag_inj, hkk, not_false_eq_true, update_of_ne, h.haveFf k',
          false_and, or_false]
    · refine h.haveKernel.trans (exists_congr fun k' => exists_congr fun i => ?_)
      exact and_congr_right fun hi => (or_iff_left (by omega)).symm
  next hfd =>
    have hlt : fd < maxFd := by omega
    refine ⟨h.ff.congr fun k' i => ?_, h.kernel.insert.congr fun k' i => ?_, fun k' => ?_, ?_⟩
    · exact (or_iff_left (by omega)).symm
    · constructor
      · rintro (⟨hi, hs⟩ | ⟨hk, rfl⟩)
        · exact ⟨hi, .inl hs⟩
        · exact ⟨hlt, .inr ⟨hk, rfl⟩⟩
      · rintro ⟨hi, hs | hs⟩
        · exact .inl ⟨hi, hs⟩
        · exact .inr hs
    · exact (h.haveFf k').trans (exists_congr fun i => (or_iff_left (by omega)).symm)
    · simp only [true_iff]
      exact ⟨k, fd, hlt, .inr ⟨rfl, rfl⟩⟩

theorem seen_foldl (fds : List Nat) (h : Seen maxFd setWords done seen p) :
    Seen maxFd setWords done (fun k' i => seen k' i ∨ k' = k ∧ i ∈ fds)
      (fds.foldl (addFd maxFd k) p) := by
  induction fds generalizing p seen with
  | nil => exact h.congr fun k' i => by simp
  | cons fd fds ih =>
    refine (ih (seen_addFd h)).congr fun k' i => ?_
    simp only [mem_cons, and_or_left, or_assoc]

theorem seen_clear (h : Seen maxFd setWords done seen p) (hk : ∀ i, ¬ seen k i) :
    Seen maxFd setWords (fun k' => done k' ∨ k' = k) seen (p.clear setWords k) where
  __ := h
  ff := h.ff.clear fun i => hk (i + maxFd)
  kernel := h.kernel.clear fun i hi => hk i hi.2

/-- One of the caller's sets has been split. -/
theorem seen_splitSet (sets : Sets) (h : Seen maxFd setWords done seen p) (hk : ∀ i, ¬ seen k i)
    (hwords : nfds ≤ 64 * setWords) :
    Seen maxFd setWords (fun k' => done k' ∨ k' = k ∧ (sets k).isSome)
      (fun k' i => seen k' i ∨ k' = k ∧ i < nfds ∧ has (sets k) i = true)
      (splitSet maxFd nfds setWords sets p k) := by
  unfold splitSet
  cases hs : sets k with
  | none => exact (h.congr fun k' i => by simp [has]).of_done fun k' hk' => by simpa using hk'
  | some s =>
    refine ((seen_foldl _ (seen_clear h hk)).congr fun k' i => ?_).of_done fun k' hk' => by
      simpa using hk'
    simp only [mem_filter, Bits.mem_below, decide_eq_true_eq, has, Option.any_some]
    refine or_congr_right (and_congr_right fun _ => ⟨fun hi => ⟨hi.2, hi.1.2⟩, fun hi => ?_⟩)
    exact ⟨⟨hi.1.trans_le hwords, hi.2⟩, hi.1⟩

theorem separated (sets : Sets) (s : State) (hwords : nfds ≤ 64 * setWords) :
    Seen maxFd setWords (fun k => (sets k).isSome) (fun k i => i < nfds ∧ has (sets k) i = true)
      (separate maxFd nfds setWords sets s) := by
  have hstart : Seen maxFd setWords (fun _ => False) (fun _ _ => False)
      { ffFds := s.ffFds, kernelFds := s.kernelFds, haveFf := fun _ => false, haveKernel := false,
        maxFf := 0, maxKernel := 0 } :=
    ⟨⟨fun _ hk => hk.elim, fun _ _ h => h.elim, .inl rfl⟩,
      ⟨fun _ hk => hk.elim, fun _ _ h => h.2.elim, .inl rfl⟩, by simp, by simp⟩
  have hread := seen_splitSet (k := .read) sets hstart (by simp) hwords
  have hwrite := seen_splitSet (k := .write) sets hread (by simp) hwords
  have hexcept := seen_splitSet (k := .except) sets hwrite (by simp) hwords
  refine (hexcept.congr fun k i => ?_).of_done fun k hk => ?_
  · cases k <;> simp
  · cases k <;> simpa using hk

/-! ## The call and its parts -/

section Call

theorem examined_le_words : c.examined ≤ 64 * c.setWords.toNat := by
  unfold Call.examined Call.setWords
  by_cases hneg : c.cutNfds ≤ 0
  · omega
  · rw [Int.tdiv_eq_ediv_of_nonneg (by omega)]
    omega

theorem examined_le_fdSetsize : c.examined ≤ fdSetsize := by
  unfold Call.examined Call.cutNfds
  split <;> omega

variable (maxFd ring s c)

theorem seen_task : Seen maxFd c.setWords.toNat (fun k => (c.sets k).isSome)
    (fun k i => i < c.examined ∧ has (c.sets k) i = true) (task maxFd ring s c).parts :=
  separated c.sets s examined_le_words

variable {maxFd c}

theorem inFf_add : InFf maxFd c k (i + maxFd) ↔
    i + maxFd < c.examined ∧ has (c.sets k) (i + maxFd) = true := by
  unfold InFf
  simp

theorem exists_inFf : (∃ fd, InFf maxFd c k fd) ↔ ∃ i, InFf maxFd c k (i + maxFd) := by
  refine ⟨fun ⟨fd, h⟩ => ⟨fd - maxFd, ?_⟩, fun ⟨i, h⟩ => ⟨_, h⟩⟩
  rwa [Nat.sub_add_cancel h.2.1]

theorem isSome_of_has (h : has o fd = true) : o.isSome = true := by
  cases o with
  | none => cases h
  | some b => rfl

theorem haveFf_flag : (task maxFd ring s c).parts.haveFf (flag k) = true ↔
    ∃ fd, InFf maxFd c k fd := by
  rw [(seen_task maxFd ring s c).haveFf k, exists_inFf]
  simp only [inFf_add]

theorem haveKernel_iff : (task maxFd ring s c).parts.haveKernel = true ↔
    ∃ k fd, InKernel maxFd c k fd := by
  rw [(seen_task maxFd ring s c).haveKernel]
  refine exists_congr fun k => exists_congr fun i => ?_
  unfold InKernel
  rw [and_left_comm]

theorem ffFds_iff (hk : (c.sets k).isSome) (hi : i < 64 * c.setWords.toNat) :
    (task maxFd ring s c).parts.ffFds k i = true ↔ InFf maxFd c k (i + maxFd) :=
  ((seen_task maxFd ring s c).ff.sets k hk i hi).trans inFf_add.symm

theorem kernelFds_iff (hk : (c.sets k).isSome) (hi : i < 64 * c.setWords.toNat) :
    (task maxFd ring s c).parts.kernelFds k i = true ↔ InKernel maxFd c k i := by
  rw [(seen_task maxFd ring s c).kernel.sets k hk i hi]
  unfold InKernel
  rw [and_left_comm]

theorem le_maxFf (h : InFf maxFd c k (i + maxFd)) : i ≤ (task maxFd ring s c).parts.maxFf :=
  (seen_task maxFd ring s c).ff.le_max k i (inFf_add.1 h)

theorem le_maxKernel (h : InKernel maxFd c k i) : i ≤ (task maxFd ring s c).parts.maxKernel :=
  (seen_task maxFd ring s c).kernel.le_max k i ⟨h.2.1, h.1, h.2.2⟩

/-- The greatest descriptor of F-Stack is one. -/
theorem maxFf_mem (h : InFf maxFd c k fd) :
    ∃ k', InFf maxFd c k' ((task maxFd ring s c).parts.maxFf + maxFd) := by
  rcases (seen_task maxFd ring s c).ff.max_mem with hzero | ⟨k', hk'⟩
  · have hle : fd - maxFd ≤ (task maxFd ring s c).parts.maxFf :=
      le_maxFf ring s (k := k) (by rwa [Nat.sub_add_cancel h.2.1])
    rw [hzero] at hle ⊢
    have hfd : fd = 0 + maxFd := by have := h.2.1; omega
    exact ⟨k, hfd ▸ h⟩
  · exact ⟨k', inFf_add.2 hk'⟩

theorem maxKernel_lt (h : InKernel maxFd c k fd) :
    (task maxFd ring s c).parts.maxKernel < c.examined := by
  rcases (seen_task maxFd ring s c).kernel.max_mem with hzero | ⟨k', -, hk', -⟩
  · rw [hzero]
    exact Nat.zero_lt_of_lt h.1
  · exact hk'

/-- There is a descriptor of F-Stack. -/
theorem haveAny_iff :
    ((task maxFd ring s c).parts.haveFf .read || (task maxFd ring s c).parts.haveFf .write ||
      (task maxFd ring s c).parts.haveFf .except) = true ↔ ∃ k fd, InFf maxFd c k fd := by
  have hread : (task maxFd ring s c).parts.haveFf .read = true ↔ _ :=
    haveFf_flag ring s (k := .read)
  have hwrite : (task maxFd ring s c).parts.haveFf .write = true ↔ _ :=
    haveFf_flag ring s (k := .except)
  have hexcept : (task maxFd ring s c).parts.haveFf .except = true ↔ _ :=
    haveFf_flag ring s (k := .write)
  rw [Bool.or_eq_true, Bool.or_eq_true, hread, hwrite, hexcept]
  constructor
  · rintro ((h | h) | h)
    · exact ⟨_, h⟩
    · exact ⟨_, h⟩
    · exact ⟨_, h⟩
  · rintro ⟨k, h⟩
    cases k with
    | read => exact .inl (.inl h)
    | write => exact .inr h
    | except => exact .inl (.inr h)

theorem task_nfds (h : InFf maxFd c k fd) :
    (task maxFd ring s c).nfds = (task maxFd ring s c).parts.maxFf + 1 :=
  if_pos ((haveAny_iff ring s).2 ⟨k, fd, h⟩)

theorem task_nfds_of_none (h : ∀ k fd, ¬ InFf maxFd c k fd) : (task maxFd ring s c).nfds = s.nfds :=
  if_neg fun hany => by
    obtain ⟨k, fd, hfd⟩ := (haveAny_iff ring s).1 hany
    exact h k fd hfd

variable (h : InFf maxFd c k fd)

include h

theorem ffWords_eq :
    (task maxFd ring s c).parts.ffWords = words ((task maxFd ring s c).parts.maxFf + 1) :=
  if_pos ((haveAny_iff ring s).2 ⟨k, fd, h⟩)

theorem task_words :
    words (task maxFd ring s c).nfds.toNat = (task maxFd ring s c).parts.ffWords := by
  rw [task_nfds ring s h, ffWords_eq ring s h]
  rfl

/-- The words behind those of F-Stack's descriptors. -/
theorem ffWords_le_iff : 64 * (task maxFd ring s c).parts.ffWords ≤ i ↔
    ∀ k' fd', InFf maxFd c k' fd' → (fd' - maxFd) / 64 < i / 64 := by
  rw [ffWords_eq ring s h]
  unfold words
  constructor
  · intro hle k' fd' hfd'
    have hmax := le_maxFf ring s (i := fd' - maxFd) (k := k')
      (by rwa [Nat.sub_add_cancel hfd'.2.1])
    omega
  · intro hall
    obtain ⟨k', hk'⟩ := maxFf_mem ring s h
    have := hall k' _ hk'
    omega

end Call

/-! ## The polls of a round -/

section Round

variable {ready : Option (Kind → Bits)} {p : Option Poll} {n : Nat}

theorem total_eq_zero : total n sets = 0 ↔ ∀ k, ∀ i < n, sets k i = false := by
  unfold total
  constructor
  · intro h k
    apply Bits.size_eq_zero.1
    cases k <;> omega
  · intro h
    rw [Bits.size_eq_zero.2 (h .read), Bits.size_eq_zero.2 (h .write), Bits.size_eq_zero.2 (h .except)]

theorem total_empty (n : Nat) : (total n fun _ => .empty) = 0 :=
  total_eq_zero.2 fun _ _ _ => rfl

theorem total_eq_of_bound {m : Nat} (hn : ∀ k i, sets k i = true → i < n)
    (hm : ∀ k i, sets k i = true → i < m) : total n sets = total m sets := by
  unfold total
  rw [Bits.size_eq_of_bound (hn .read) (hm .read), Bits.size_eq_of_bound (hn .write) (hm .write),
    Bits.size_eq_of_bound (hn .except) (hm .except)]

/-- F-Stack's descriptors are asked for in the sets they are in. -/
def Paired (maxFd : Nat) (ring : Bool) (s : State) (c : Call) : Prop :=
  ∀ k, (task maxFd ring s c).parts.haveFf k = true ↔ ∃ fd, InFf maxFd c k fd

theorem paired_of_iff (h : (∃ fd, InFf maxFd c .write fd) ↔ ∃ fd, InFf maxFd c .except fd) :
    Paired maxFd ring s c := by
  intro k
  cases k with
  | read => exact haveFf_flag ring s (k := .read)
  | write => exact (haveFf_flag ring s (k := .except)).trans h.symm
  | except => exact (haveFf_flag ring s (k := .write)).trans h

theorem asked_iff (hpair : Paired maxFd ring s c) (ready : Kind → Bits) :
    (poll (task maxFd ring s c).nfds.toNat
      ((task maxFd ring s c).args ((task maxFd ring s c).request share)) ready).asked k i = true ↔
      InFf maxFd c k (i + maxFd) := by
  have hhas := hpair k
  simp only [poll, Task.args, Task.request, Bool.and_eq_true, decide_eq_true_eq]
  by_cases hff : ∃ fd, InFf maxFd c k fd
  · obtain ⟨fd, hfd⟩ := hff
    rw [if_pos (hhas.2 ⟨fd, hfd⟩), if_pos (hhas.2 ⟨fd, hfd⟩), task_nfds ring s hfd,
      ffWords_eq ring s hfd]
    simp only [has, Option.any_some]
    have hsome := isSome_of_has hfd.2.2
    obtain ⟨k', hmax⟩ := maxFf_mem ring s hfd
    have hwords := hmax.1.trans_le (examined_le_words (c := c))
    unfold words
    constructor
    · rintro ⟨hbit, hlt⟩
      rw [Bits.copy_lt (by omega)] at hbit
      exact (ffFds_iff ring s hsome (by omega)).1 hbit
    · intro hin
      have hle := le_maxFf ring s hin
      refine ⟨?_, by omega⟩
      rw [Bits.copy_lt (by omega)]
      exact (ffFds_iff ring s hsome (by omega)).2 hin
  · rw [if_neg (fun h => hff (hhas.1 h))]
    simp only [has, Option.any_none, Bool.false_eq_true, false_and, false_iff]
    exact fun hin => hff ⟨_, hin⟩

/-- What F-Stack has reported in a round, `fr`, and what the copies in shared memory are then. -/
structure FfReport (maxFd : Nat) (ring : Bool) (s : State) (c : Call) (share share' : Kind → Bits)
    (p : Option Poll) (ret : Nat) (fr : Kind → Bits) : Prop where
  poll : ∀ q, p = some q → q.reported = fr
  inFf : ∀ k i, fr k i = true → InFf maxFd c k (i + maxFd)
  ret : ret = total c.examined fr
  share : ∀ k fd, InFf maxFd c k fd → ∀ i, share' k i = true ↔
    fr k i = true ∨ 64 * (task maxFd ring s c).parts.ffWords ≤ i ∧ share k i = true

theorem ffSysSelect_ok (hpair : Paired maxFd ring s c)
    (hring : ∀ k fd, InFf maxFd c k fd → ring = false)
    (h : ffSysSelect (task maxFd ring s c) share ready = (p, some ret, share')) :
    ∃ fr, FfReport maxFd ring s c share share' p ret fr := by
  have hring' : (task maxFd ring s c).ring = ring := rfl
  unfold ffSysSelect at h
  simp only [hring'] at h
  split at h
  next hr =>
    cases h
    refine ⟨fun _ => .empty, nofun, nofun, ?_, ?_⟩
    · exact (total_empty _).symm
    · exact fun k fd hfd => absurd (hring k fd hfd) (by simp [hr])
  next hr =>
    split at h
    · cases h
    next hnfds =>
      split at h
      · cases h
      next ready =>
        cases h
        have hin : ∀ k i, (poll (task maxFd ring s c).nfds.toNat ((task maxFd ring s c).args
            ((task maxFd ring s c).request share)) ready).reported k i = true →
            InFf maxFd c k (i + maxFd) :=
          fun k i hi => (asked_iff hpair ready).1 (Bool.and_eq_true_iff.1 hi).1
        refine ⟨_, fun q hq => (by cases hq; rfl), hin, total_eq_of_bound ?_ ?_, fun k fd hfd i => ?_⟩
        · intro k i hi
          simp only [poll, Bool.and_eq_true, decide_eq_true_eq] at hi
          exact hi.1.2
        · intro k i hi
          have := (hin k i hi).1
          omega
        · have hff := (hpair k).2 ⟨fd, hfd⟩
          have hargs : (task maxFd ring s c).args ((task maxFd ring s c).request share) k =
              some ((task maxFd ring s c).request share k) := if_pos hff
          simp only [Poll.results, hargs, Option.map_some, Option.getD_some, task_words ring s hfd]
          by_cases hlt : i < 64 * (task maxFd ring s c).parts.ffWords
          · rw [Bits.copy_lt hlt]
            simp [not_le.2 hlt]
          · have hge := not_lt.1 hlt
            rw [Bits.copy_ge hge, Task.request, if_pos hff, Bits.copy_ge hge]
            refine ⟨fun hi => .inr ⟨hge, hi⟩, ?_⟩
            rintro (hi | ⟨-, hi⟩)
            · have := (ffWords_le_iff ring s hfd).1 hge k _ (hin k i hi)
              omega
            · exact hi

theorem FfReport.none (h : FfReport maxFd ring s c share share' p ret fr) (hret : ret = 0)
    (k : Kind) (i : Nat) : fr k i = false := by
  have hzero := total_eq_zero.1 (h.ret.symm.trans hret)
  by_contra hne
  have hbit : fr k i = true := by simpa using hne
  have := (h.inFf k i hbit).1
  exact hne (hzero k i (by omega))

/-- Without F-Stack descriptors the `nfds` that was left is used. -/
theorem ffSysSelect_of_neg (hnone : ∀ k fd, ¬ InFf maxFd c k fd) (hneg : s.nfds < 0) :
    ffSysSelect (task maxFd false s c) share ready =
      (none, none, (task maxFd false s c).request share) := by
  have hnfds : (task maxFd false s c).nfds < 0 := by rwa [task_nfds_of_none false s hnone]
  have hring : (task maxFd false s c).ring = false := rfl
  unfold ffSysSelect
  simp only [hring, Bool.false_eq_true, if_false, if_pos hnfds]

theorem ffSysSelect_asked (hpair : Paired maxFd ring s c)
    (hring : ∀ k fd, InFf maxFd c k fd → ring = false) (hfd : InFf maxFd c k fd) :
    ∃ q, (ffSysSelect (task maxFd ring s c) share ready).1 = some q ∧
      q.asked k (fd - maxFd) = true := by
  have hr : (task maxFd ring s c).ring = false := hring k fd hfd
  have hpos : ¬ (task maxFd ring s c).nfds < 0 := by
    rw [task_nfds ring s hfd]
    omega
  have hin : InFf maxFd c k (fd - maxFd + maxFd) := by rwa [Nat.sub_add_cancel hfd.2.1]
  unfold ffSysSelect
  simp only [hr, Bool.false_eq_true, if_false, if_neg hpos]
  cases ready with
  | none | some ready => exact ⟨_, rfl, (asked_iff hpair _).2 hin⟩

/-- What the kernel has reported, `kr`, and the caller's sets then. -/
structure KernelReport (maxFd : Nat) (c : Call) (out : Sets) (ret : Nat) (kr : Kind → Bits) :
    Prop where
  inKernel : ∀ k i, kr k i = true → InKernel maxFd c k i
  ret : ret = total c.examined kr
  has_out : ∀ k i, has (out k) i = true ↔
    kr k i = true ∨ 64 * c.setWords.toNat ≤ i ∧ has (c.sets k) i = true
  isSome : ∀ k, (out k).isSome = (c.sets k).isSome

theorem has_map_copy {b : Bits} : has (o.map fun x => Bits.copy n x b) i = true ↔
      i < n ∧ o.isSome = true ∧ b i = true ∨ n ≤ i ∧ has o i = true := by
  unfold has
  cases o with
  | none => simp
  | some x =>
    simp only [Option.map_some, Option.any_some, Option.isSome_some, true_and]
    by_cases hi : i < n
    · rw [Bits.copy_lt hi]
      simp [hi, not_le.2 hi]
    · rw [Bits.copy_ge (not_lt.1 hi)]
      simp [hi, not_lt.1 hi]

theorem has_cleared :
    has (c.cleared k) i = true ↔ 64 * c.setWords.toNat ≤ i ∧ has (c.sets k) i = true := by
  unfold Call.cleared
  rw [has_map_copy]
  simp [Bits.empty]

/-- The kernel is not asked. -/
theorem kernelReport_cleared (maxFd : Nat) (c : Call) :
    KernelReport maxFd c c.cleared 0 fun _ => .empty where
  inKernel k i hi := by cases hi
  ret := (total_empty _).symm
  has_out k i := by simp [has_cleared, Bits.empty]
  isSome k := by simp [Call.cleared]

theorem ffLinuxSelect_ok {q : Poll} (hk : InKernel maxFd c k fd)
    (h : ffLinuxSelect (task maxFd ring s c).parts c.cleared ready = (q, some ret, out)) :
    KernelReport maxFd c out ret q.reported := by
  have hmax := maxKernel_lt ring s hk
  have hexam := examined_le_words (c := c)
  have hwords : (task maxFd ring s c).parts.maxKernel + 1 ≤
      64 * words ((task maxFd ring s c).parts.maxKernel + 1) ∧
      words ((task maxFd ring s c).parts.maxKernel + 1) ≤ c.setWords.toNat := by
    unfold words
    omega
  unfold ffLinuxSelect at h
  split at h
  · cases h
  next ready =>
    cases h
    have hsome : ∀ k, (c.cleared k).isSome = (c.sets k).isSome := fun k => by simp [Call.cleared]
    have hin : ∀ k i, has ((c.cleared k).map fun x => Bits.copy
        (64 * words ((task maxFd ring s c).parts.maxKernel + 1)) x
        ((task maxFd ring s c).parts.kernelFds k)) i = true →
        i < (task maxFd ring s c).parts.maxKernel + 1 → InKernel maxFd c k i := by
      intro k i hi hlt
      rcases has_map_copy.1 hi with ⟨-, hset, hbit⟩ | ⟨hge, -⟩
      · rw [hsome] at hset
        exact (kernelFds_iff ring s hset (by omega)).1 hbit
      · omega
    refine ⟨fun k i hi => ?_, total_eq_of_bound (fun k i hi => ?_) (fun k i hi => ?_),
      fun k i => ?_, fun k => ?_⟩
    · simp only [poll, Bool.and_eq_true, decide_eq_true_eq] at hi
      exact hin k i hi.1.1 hi.1.2
    · simp only [poll, Bool.and_eq_true, decide_eq_true_eq] at hi
      exact hi.1.2
    · simp only [poll, Bool.and_eq_true, decide_eq_true_eq] at hi
      exact (hin k i hi.1.1 hi.1.2).1
    · rw [Poll.results, has_map_copy, Option.isSome_map, hsome]
      constructor
      · rintro (⟨-, -, hi⟩ | ⟨hge, hi⟩)
        · exact .inl hi
        · rcases has_map_copy.1 hi with ⟨hlt, -, -⟩ | ⟨-, hi⟩
          · omega
          · exact .inr (has_cleared.1 hi)
      · rintro (hi | ⟨hge, hi⟩)
        · have hbit := hi
          simp only [poll, Bool.and_eq_true, decide_eq_true_eq] at hbit
          have hkin := hin k i hbit.1.1 hbit.1.2
          exact .inl ⟨by omega, isSome_of_has hkin.2.2, hi⟩
        · exact .inr ⟨by omega, has_map_copy.2 (.inr ⟨by omega, has_cleared.2 ⟨hge, hi⟩⟩)⟩
    · simp [Poll.results, hsome]

end Round

/-! ## The merge -/

/-- A fold in which a step fails or not whatever was done before. -/
theorem foldlM_eq_some {α σ : Type} {f : σ → α → Option σ} {p : σ → α → Prop} {next : σ → α → σ}
    (hf : ∀ s a s', f s a = some s' ↔ p s a ∧ next s a = s')
    (hp : ∀ s a b, p (next s a) b ↔ p s b) {l : List α} {s s' : σ} :
    l.foldlM f s = some s' ↔ (∀ a ∈ l, p s a) ∧ l.foldl next s = s' := by
  induction l generalizing s with
  | nil => simp
  | cons a l ih => simp [Option.bind_eq_some_iff, hf, ih, hp, and_assoc]

/-- A set with the descriptors of a report. -/
def addAll (maxFd : Nat) (fds : List Nat) (o : Option Bits) : Option Bits :=
  fds.foldl (fun o fd => o.map fun b => b.insert (fd + maxFd)) o

theorem isSome_addAll (fds : List Nat) (o : Option Bits) :
    (addAll maxFd fds o).isSome = o.isSome := by
  induction fds generalizing o with
  | nil => rfl
  | cons fd fds ih => exact (ih _).trans Option.isSome_map

theorem has_addAll (h : ∀ fd ∈ fds, o.isSome) :
    has (addAll maxFd fds o) i = true ↔ has o i = true ∨ ∃ fd ∈ fds, fd + maxFd = i := by
  induction fds generalizing o with
  | nil => simp [addAll]
  | cons fd fds ih =>
    obtain ⟨b, rfl⟩ := Option.isSome_iff_exists.1 (h fd mem_cons_self)
    refine (ih fun _ _ => rfl).trans ?_
    simp only [has, Option.map_some, Option.any_some, Bits.insert_apply, mem_cons, exists_eq_or_imp]
    rw [or_assoc, or_left_comm, eq_comm (a := i)]

theorem foldlM_fdSet {o' : Option Bits} :
    fds.foldlM (fun s fd => fdSet s (fd + maxFd)) o = some o' ↔
      (∀ fd ∈ fds, fd + maxFd < fdSetsize ∧ o.isSome) ∧ addAll maxFd fds o = o' := by
  refine foldlM_eq_some (p := fun (o : Option Bits) fd => fd + maxFd < fdSetsize ∧ o.isSome) ?_ (by simp)
  intro o fd o'
  unfold fdSet
  cases o with
  | none => simp
  | some b => simp

/-- The descriptors that are added to a set. -/
def Added (t : Task) (share : Kind → Bits) (k : Kind) (i : Nat) : Prop :=
  t.parts.haveFf k = true ∧ ∃ fd, fd < 64 * t.setWords ∧ share k fd = true ∧ fd + t.maxFd = i

/-- A set when F-Stack's report has been added. -/
def withReport (t : Task) (share : Kind → Bits) (k : Kind) (o : Option Bits) : Option Bits :=
  if t.parts.haveFf k then addAll t.maxFd ((share k).below (64 * t.setWords)) o else o

theorem has_withReport (h : ∀ i, Added t share k i → i < fdSetsize ∧ o.isSome) :
    has (withReport t share k o) i = true ↔ has o i = true ∨ Added t share k i := by
  unfold withReport
  unfold Added at h ⊢
  split
  next hff =>
    rw [has_addAll fun fd hfd =>
      (h _ ⟨hff, fd, (Bits.mem_below.1 hfd).1, (Bits.mem_below.1 hfd).2, rfl⟩).2]
    simp [hff, Bits.mem_below, and_assoc]
  next hff => simp [hff]

theorem mergeSet_eq_some : mergeSet t share out k = some out' ↔
    (∀ i, Added t share k i → i < fdSetsize ∧ (out k).isSome) ∧
      update out k (withReport t share k (out k)) = out' := by
  unfold mergeSet withReport Added
  split
  next hff =>
    simp only [Option.map_eq_some_iff, foldlM_fdSet, and_assoc, exists_and_left, exists_eq_left']
    refine and_congr_left fun _ => ⟨?_, fun h fd hfd => ?_⟩
    · rintro h i ⟨-, fd, hlt, hfd, rfl⟩
      exact h fd (Bits.mem_below.2 ⟨hlt, hfd⟩)
    · exact h _ ⟨hff, fd, (Bits.mem_below.1 hfd).1, (Bits.mem_below.1 hfd).2, rfl⟩
  next hff => simp [hff]

theorem merge_eq_some : Kind.all.foldlM (mergeSet t share) out = some out' ↔
    (∀ k i, Added t share k i → i < fdSetsize ∧ (out k).isSome) ∧
      (fun k => withReport t share k (out k)) = out' := by
  rw [foldlM_eq_some (fun _ _ _ => mergeSet_eq_some) fun out a b => ?_]
  · have hall : Kind.all.foldl (fun out k => update out k (withReport t share k (out k))) out =
        fun k => withReport t share k (out k) := by
      funext k
      cases k <;> simp [Kind.all]
    rw [hall]
    exact and_congr_left fun _ => ⟨fun h k => h k (Kind.mem_all k), fun h k _ => h k⟩
  · by_cases hb : b = a
    · subst hb
      unfold withReport
      split <;> simp [isSome_addAll]
    · rw [update_of_ne hb]

/-- What `finish` returns if every descriptor fits, and only then. -/
theorem finish_returned (kernelRet : Nat) (hret : 0 < ret)
    (h : ∀ k i, Added t share k i → i < fdSetsize ∧ (out k).isSome) :
    ∃ out', finish t share out ret kernelRet = .returned (ret + kernelRet) out' ∧
      ∀ k i, has (out' k) i = true ↔ has (out k) i = true ∨ Added t share k i :=
  ⟨_, by simp [finish, hret, merge_eq_some.2 ⟨h, rfl⟩], fun k _ => has_withReport (h k)⟩

theorem fits_of_finish (hret : 0 < ret) (h : finish t share out ret kernelRet ≠ .crashed) :
    ∀ k i, Added t share k i → i < fdSetsize ∧ (out k).isSome := by
  unfold finish at h
  rw [if_pos hret] at h
  split at h
  next out' h' => exact (merge_eq_some.1 h').1
  · exact absurd rfl h

/-! ## The sets in the end -/

/-- The caller's sets in the end: what the kernel and F-Stack have reported, and bits that were set
before. -/
structure Merged (maxFd : Nat) (c : Call) (kr fr : Kind → Bits) (out : Sets) : Prop where
  inKernel : ∀ k i, kr k i = true → InKernel maxFd c k i
  inFf : ∀ k i, fr k i = true → InFf maxFd c k (i + maxFd)
  kernel : ∀ k i, kr k i = true → has (out k) i = true
  fstack : ∀ k i, fr k i = true → has (out k) (i + maxFd) = true
  rest : ∀ k i, has (out k) i = true → kr k i = true ∨ maxFd ≤ i ∧ fr k (i - maxFd) = true ∨
    c.examined ≤ i ∧ has (c.sets k) i = true

section

variable (h : Merged maxFd c kr fr out)

include h

theorem Merged.subset (k : Kind) (i : Nat)
    (hi : has (out k) i = true) : has (c.sets k) i = true := by
  rcases h.rest k i hi with hkr | ⟨hle, hfr⟩ | hrest
  · exact (h.inKernel k i hkr).2.2
  · have hin := h.inFf k (i - maxFd) hfr
    rw [Nat.sub_add_cancel hle] at hin
    exact hin.2.2
  · exact hrest.2

theorem Merged.size (k : Kind) :
    Bits.size (has (out k)) c.examined = (kr k).size c.examined + (fr k).size c.examined := by
  let both : Bits := fun i => kr k i || (decide (maxFd ≤ i) && fr k (i - maxFd))
  have hboth : ∀ i, both i = true ↔ kr k i = true ∨ maxFd ≤ i ∧ fr k (i - maxFd) = true := by
    simp [both]
  have hlt : ∀ i, both i = true → i < c.examined := by
    intro i hi
    rcases (hboth i).1 hi with hkr | ⟨hle, hfr⟩
    · exact (h.inKernel k i hkr).1
    · have := (h.inFf k _ hfr).1
      omega
  calc Bits.size (has (out k)) c.examined
      = both.size c.examined := by
        refine Bits.size_congr fun i hi => ?_
        rw [hboth]
        constructor
        · intro hhas
          rcases h.rest k i hhas with hkr | hfr | ⟨hge, -⟩
          · exact .inl hkr
          · exact .inr hfr
          · omega
        · rintro (hkr | ⟨hle, hfr⟩)
          · exact h.kernel k i hkr
          · have := h.fstack k _ hfr
            rwa [Nat.sub_add_cancel hle] at this
    _ = both.size (maxFd + c.examined) :=
        Bits.size_eq_of_bound hlt fun i hi => (hlt i hi).trans_le (Nat.le_add_left _ _)
    _ = (kr k).size maxFd + (fr k).size c.examined :=
        Bits.size_add (fun i hi => (h.inKernel k i hi).2.1) hboth
    _ = (kr k).size c.examined + (fr k).size c.examined := by
        rw [Bits.size_eq_of_bound (fun i hi => (h.inKernel k i hi).2.1)
          fun i hi => (h.inKernel k i hi).1]

theorem Merged.total :
    (total c.examined fun k => has (out k)) = total c.examined kr + total c.examined fr := by
  unfold Select.total
  simp only [h.size]
  omega

end

/-- F-Stack has reported nothing. -/
theorem KernelReport.merged (h : KernelReport maxFd c out ret kr) (hfr : ∀ k i, fr k i = false) :
    Merged maxFd c kr fr out where
  inKernel := h.inKernel
  inFf k i hi := absurd hi (by simp [hfr])
  kernel k i hi := (h.has_out k i).2 (.inl hi)
  fstack k i hi := absurd hi (by simp [hfr])
  rest k i hi := ((h.has_out k i).1 hi).imp_right fun ⟨hge, hhas⟩ =>
    .inr ⟨examined_le_words.trans hge, hhas⟩

/-! ## The loop -/

section Loop

/-- A round in which F-Stack was asked and after which the call did not wait in vain. -/
structure EntryOk (maxFd : Nat) (c : Call) (e : Entry) : Prop where
  prompt : e.kept = true → ∀ p, e.kernel = some p → ∀ k fd, p.reported k fd = false
  polled : ∀ k fd, InFf maxFd c k fd → ∃ p, e.fstack = some p ∧ p.asked k (fd - maxFd) = true

/-- A round in which nothing was reported and the kernel was not asked. -/
structure Silent (maxFd : Nat) (c : Call) (e : Entry) : Prop where
  ok : EntryOk maxFd c e
  kernel : e.kernel = none
  fstack : ∀ p, e.fstack = some p → ∀ k fd, p.reported k fd = false

variable {log : List Entry} {l : Local} {p : Option Poll}

/-- The call has not returned a count. -/
theorem exact_of_failed {o : Outcome} (halive : o ≠ .crashed)
    (hneg : ∀ ret out, o = .returned ret out → ¬ 0 ≤ ret) (hlog : ∀ e ∈ log, EntryOk maxFd c e) :
    Exact maxFd c ⟨o, log, st⟩ where
  alive := halive
  subset ret out h hpos := absurd hpos (hneg ret out h)
  fstack ret out h hpos := absurd hpos (hneg ret out h)
  kernel ret out h hpos := absurd hpos (hneg ret out h)
  count ret out h hpos := absurd hpos (hneg ret out h)
  prompt e he := (hlog e he).prompt
  polled e he := (hlog e he).polled

theorem exact_of_neg {ret : Int} (hret : ¬ 0 ≤ ret) (hlog : ∀ e ∈ log, EntryOk maxFd c e) :
    Exact maxFd c ⟨.returned ret out, log, st⟩ :=
  exact_of_failed nofun (fun _ _ h => by cases h; exact hret) hlog

theorem exact_waiting (hlog : ∀ e ∈ log, EntryOk maxFd c e) : Exact maxFd c ⟨.waiting, log, st⟩ :=
  exact_of_failed nofun nofun hlog

theorem exact_returned {e : Entry} (hmerged : Merged maxFd c kr fr out)
    (hret : ret = total c.examined kr + total c.examined fr)
    (hfr : ∀ p, e.fstack = some p → p.reported = fr)
    (hkr : ∀ p, e.kernel = some p → p.reported = kr) (he : EntryOk maxFd c e)
    (hlog : ∀ e ∈ log, Silent maxFd c e) : Exact maxFd c ⟨.returned ret out, e :: log, st⟩ where
  alive h := by cases h
  subset _ _ h _ := by
    cases h
    exact hmerged.subset
  fstack _ _ h _ p hp k fd hrep := by
    cases h
    rw [findSome?_cons] at hp
    split at hp
    next q hq =>
      cases hp
      rw [hfr _ hq] at hrep
      exact hmerged.fstack k fd hrep
    · obtain ⟨e', he', hq⟩ := exists_of_findSome?_eq_some hp
      exact absurd hrep (by simp [(hlog e' he').fstack p hq])
  kernel _ _ h _ p hp k fd hrep := by
    cases h
    rw [findSome?_cons] at hp
    split at hp
    next q hq =>
      cases hp
      rw [hkr _ hq] at hrep
      exact hmerged.kernel k fd hrep
    · obtain ⟨e', he', hq⟩ := exists_of_findSome?_eq_some hp
      rw [(hlog e' he').kernel] at hq
      cases hq
  count _ _ h _ := by
    cases h
    rw [hmerged.total, hret]
  prompt e' he' := by
    rcases mem_cons.1 he' with rfl | he'
    · exact he.prompt
    · exact (hlog e' he').ok.prompt
  polled e' he' := by
    rcases mem_cons.1 he' with rfl | he'
    · exact he.polled
    · exact (hlog e' he').ok.polled

/-- The result of a call that leaves the loop. -/
def ended (st : State) (r : Outcome × Local) : Result := ⟨r.1, r.2.log, st⟩

/-- The words of the copies behind those of F-Stack's descriptors are as they were left. -/
def Untouched (maxFd : Nat) (ring : Bool) (s : State) (c : Call) (share : Kind → Bits) : Prop :=
  ∀ k fd, InFf maxFd c k fd → ∀ i, 64 * (task maxFd ring s c).parts.ffWords ≤ i →
    share k i = s.share k i

/-- A descriptor that is added was reported, or comes from an earlier call. -/
theorem added_cases (hpair : Paired maxFd ring s c)
    (hreport : FfReport maxFd ring s c share share' p ret fr)
    (hshare : Untouched maxFd ring s c share) (h : Added (task maxFd ring s c) share' k i) :
    maxFd ≤ i ∧ (fr k (i - maxFd) = true ∨ i - maxFd < 64 * c.setWords.toNat ∧
      (∀ k' fd', InFf maxFd c k' fd' → (fd' - maxFd) / 64 < (i - maxFd) / 64) ∧
      s.share k (i - maxFd) = true) := by
  obtain ⟨hff, j, hlt, hj, rfl⟩ := h
  obtain ⟨fd, hfd⟩ := (hpair k).1 hff
  have hsub : j + (task maxFd ring s c).maxFd - maxFd = j := Nat.add_sub_cancel j maxFd
  rw [hsub]
  refine ⟨Nat.le_add_left _ _, ((hreport.share k fd hfd j).1 hj).imp_right fun ⟨hge, hold⟩ => ?_⟩
  exact ⟨hlt, (ffWords_le_iff ring s hfd).1 hge, (hshare k fd hfd j hge).symm.trans hold⟩

theorem merged_finish (hsound : Sound maxFd ring s c)
    (hreport : FfReport maxFd ring s c share share' p ret fr)
    (hshare : Untouched maxFd ring s c share) (hkernel : KernelReport maxFd c out kernelRet kr)
    (hret : 0 < ret) : ∃ out', finish (task maxFd ring s c) share' out ret kernelRet =
      .returned (ret + kernelRet) out' ∧ Merged maxFd c kr fr out' := by
  have hpair : Paired maxFd ring s c := paired_of_iff hsound.paired
  have hadded : ∀ k i, Added (task maxFd ring s c) share' k i →
      maxFd ≤ i ∧ fr k (i - maxFd) = true ∨
        c.examined ≤ i ∧ i < fdSetsize ∧ has (c.sets k) i = true := by
    intro k i hadd
    obtain ⟨fd, hfd⟩ := (hpair k).1 hadd.1
    obtain ⟨hle, hfr | ⟨hlt, hbehind, hold⟩⟩ := added_cases hpair hreport hshare hadd
    · exact .inl ⟨hle, hfr⟩
    · have := hsound.fresh k fd hfd _ hlt hbehind hold
      rw [Nat.sub_add_cancel hle] at this
      exact .inr this
  have hfits : ∀ k i, Added (task maxFd ring s c) share' k i → i < fdSetsize ∧ (out k).isSome := by
    intro k i hadd
    obtain ⟨fd, hfd⟩ := (hpair k).1 hadd.1
    refine ⟨?_, (hkernel.isSome k).trans (isSome_of_has hfd.2.2)⟩
    rcases hadded k i hadd with ⟨hle, hfr⟩ | ⟨-, hlt, -⟩
    · have hin := (hreport.inFf k _ hfr).1
      rw [Nat.sub_add_cancel hle] at hin
      exact hin.trans_le examined_le_fdSetsize
    · exact hlt
  obtain ⟨out', hfinish, hout'⟩ := finish_returned kernelRet hret hfits
  refine ⟨out', hfinish, hkernel.inKernel, hreport.inFf, fun k i hi => ?_, fun k i hi => ?_,
    fun k i hi => ?_⟩
  · exact (hout' k i).2 (.inl ((hkernel.has_out k i).2 (.inl hi)))
  · have hin := hreport.inFf k i hi
    refine (hout' k _).2 (.inr ⟨(hpair k).2 ⟨_, hin⟩, i, ?_, ?_, rfl⟩)
    · have := hin.1.trans_le (examined_le_words (c := c))
      exact Nat.lt_of_le_of_lt (Nat.le_add_right i maxFd) this
    · exact (hreport.share k _ hin i).2 (.inl hi)
  · rcases (hout' k i).1 hi with hold | hadd
    · rcases (hkernel.has_out k i).1 hold with hkr | ⟨hge, hhas⟩
      · exact .inl hkr
      · exact .inr (.inr ⟨examined_le_words.trans hge, hhas⟩)
    · rcases hadded k i hadd with hfr | ⟨hge, -, hhas⟩
      · exact .inr (.inl hfr)
      · exact .inr (.inr ⟨hge, hhas⟩)

/-- The call before a round, when nothing has been reported and the kernel has not been asked. -/
structure Idle (maxFd : Nat) (ring : Bool) (s : State) (c : Call) (l : Local) : Prop where
  share : Untouched maxFd ring s c l.share
  out : l.out = c.cleared
  kernelRet : l.kernelRet = 0
  polledKernel : l.polledKernel = false
  log : ∀ e ∈ l.log, Silent maxFd c e

theorem over_of_atOnce (h : AtOnce c) (r : Round) : (task maxFd ring s c).over r = true := by
  obtain ⟨sec, usec, htimeout, hle⟩ := h
  unfold Task.over
  simp only [task, htimeout, Bool.or_eq_true, Bool.and_eq_true, decide_eq_true_eq]
  right
  omega

theorem exact_exit {r : Round} (hsound : Sound maxFd ring s c) (hidle : Idle maxFd ring s c l)
    (hreport : FfReport maxFd ring s c l.share share' p ret fr) (hret : 0 < ret)
    (hasked : ∀ k fd, InFf maxFd c k fd → ∃ q, p = some q ∧ q.asked k (fd - maxFd) = true) :
    Exact maxFd c
      (ended st (selectExit (task maxFd ring s c) { l with share := share' } p ret r)) := by
  have hlog : ∀ e ∈ l.log, EntryOk maxFd c e := fun e he => (hidle.log e he).ok
  have hfr := hreport.poll
  unfold selectExit
  simp only [hidle.polledKernel, Bool.not_false, Bool.and_true, hidle.out]
  split
  next hhave =>
    obtain ⟨k, fd, hkfd⟩ := (haveKernel_iff ring s).1 hhave
    split
    next q out hq =>
      refine exact_of_neg (by decide) (forall_mem_cons.2 ⟨⟨nofun, hasked⟩, hlog⟩)
    next q kernelRet out hq =>
      have hkernel := ffLinuxSelect_ok hkfd hq
      obtain ⟨out', hfinish, hmerged⟩ := merged_finish hsound hreport hidle.share hkernel hret
      rw [hfinish]
      refine exact_returned hmerged ?_ hfr (fun q' hq' => by cases hq'; rfl)
        ⟨nofun, hasked⟩ hidle.log
      rw [hreport.ret, hkernel.ret, add_comm]
  · obtain ⟨out', hfinish, hmerged⟩ :=
      merged_finish hsound hreport hidle.share (kernelReport_cleared maxFd c) hret
    rw [hidle.kernelRet, hfinish]
    refine exact_returned hmerged ?_ hfr nofun
      ⟨nofun, hasked⟩ hidle.log
    rw [hreport.ret, total_empty, add_comm]

/-- Nothing is reported, and the kernel has no descriptors. -/
theorem idle_silent (hidle : Idle maxFd ring s c l)
    (hreport : FfReport maxFd ring s c l.share share' p 0 fr) (hfr : ∀ k i, fr k i = false)
    (hasked : ∀ k fd, InFf maxFd c k fd → ∃ q, p = some q ∧ q.asked k (fd - maxFd) = true)
    (kept : Bool) :
    Idle maxFd ring s c { l with share := share', log := ⟨p, none, kept⟩ :: l.log } where
  __ := hidle
  share k fd hfd i hge := by
    rw [← hidle.share k fd hfd i hge, Bool.eq_iff_iff, hreport.share k fd hfd i]
    simp [hfr, hge]
  log := forall_mem_cons.2
    ⟨⟨⟨nofun, hasked⟩, rfl, fun q hq k fd => by rw [hreport.poll q hq, hfr]⟩,
      hidle.log⟩

theorem exact_loop (hsound : Sound maxFd ring s c) : ∀ (rounds : List Round) {l : Local},
    Idle maxFd ring s c l → Exact maxFd c (ended st (selectLoop (task maxFd ring s c) rounds l))
  | [], l, hidle => exact_waiting fun e he => (hidle.log e he).ok
  | r :: rounds, l, hidle => by
    have hpair : Paired maxFd ring s c := paired_of_iff hsound.paired
    have hasked : ∀ k fd, InFf maxFd c k fd →
        ∃ q, (ffSysSelect (task maxFd ring s c) l.share r.fstack).1 = some q ∧
          q.asked k (fd - maxFd) = true :=
      fun k fd hfd => ffSysSelect_asked hpair hsound.semaphore hfd
    have hlog : ∀ e ∈ l.log, EntryOk maxFd c e := fun e he => (hidle.log e he).ok
    unfold selectLoop
    split
    next p share' hsys =>
      rw [hsys] at hasked
      exact exact_of_neg (by decide) (forall_mem_cons.2 ⟨⟨nofun, hasked⟩, hlog⟩)
    next p ret share' hsys =>
      rw [hsys] at hasked
      obtain ⟨fr, hreport⟩ := ffSysSelect_ok hpair hsound.semaphore hsys
      simp only
      split
      next hret => exact exact_exit hsound hidle hreport hret hasked
      next hret =>
        have hzero : ret = 0 := by omega
        subst hzero
        have hfr := hreport.none rfl
        split
        next hhave =>
          obtain ⟨k, fd, hkfd⟩ := (haveKernel_iff ring s).1 hhave
          have hatOnce : AtOnce c := by
            refine (hsound.brief k fd hkfd).resolve_right ?_
            rintro ⟨rfl, hnone, hneg⟩
            rw [ffSysSelect_of_neg hnone hneg] at hsys
            cases hsys
          have hover : (task maxFd ring s c).over r = true := over_of_atOnce hatOnce r
          rw [hidle.out]
          split
          next q out hq =>
            refine exact_of_neg (by decide) (forall_mem_cons.2 ⟨⟨fun h => ?_, hasked⟩, hlog⟩)
            cases h
          next q kernelRet out hq =>
            have hkernel := ffLinuxSelect_ok hkfd hq
            simp only [hover, if_true, Bool.not_true]
            refine exact_returned (hkernel.merged hfr) ?_ hreport.poll
              (fun q' hq' => by cases hq'; rfl) ⟨nofun, hasked⟩ hidle.log
            rw [← hreport.ret, ← hkernel.ret, add_zero]
        · have hnext := idle_silent hidle hreport hfr hasked (!(task maxFd ring s c).over r)
          split
          next hover =>
            rw [hidle.kernelRet, hidle.out]
            refine exact_returned ((kernelReport_cleared maxFd c).merged hfr) ?_ hreport.poll
              nofun ⟨nofun, hasked⟩ hidle.log
            rw [← hreport.ret, total_empty]
          · exact exact_loop hsound rounds hnext

end Loop

/-! ## Every call -/

section Every

theorem setWords_neg_iff : c.setWords < 0 ↔ c.nfds ≤ -127 := by
  have hsign : Int.sign 64 = 1 := rfl
  unfold Call.setWords Call.cutNfds fdSetsize
  split <;> rw [Int.tdiv_eq_ediv] <;> split <;> omega

theorem any_isSome : (Kind.all.any fun k => (c.sets k).isSome) = true ↔
    ∃ k, (c.sets k).isSome = true := by
  rw [any_eq_true]
  exact ⟨fun ⟨k, _, h⟩ => ⟨k, h⟩, fun ⟨k, h⟩ => ⟨k, Kind.mem_all k, h⟩⟩

/-- With no room for F-Stack's descriptors, the kernel's `select` is called. -/
theorem exact_plain (hmax : fdSetsize ≤ maxFd) (rounds : List Round) :
    Exact maxFd c (ffHookSelect maxFd ring s c rounds) := by
  have hnone : ∀ k fd, ¬ InFf maxFd c k fd := fun k fd h => by
    have := h.1.trans_le examined_le_fdSetsize
    have := h.2.1
    omega
  unfold ffHookSelect
  rw [if_pos hmax]
  cases rounds with
  | nil => exact exact_waiting (forall_mem_nil _)
  | cons r rounds =>
    simp only
    split
    · exact exact_of_neg (by decide) (forall_mem_nil _)
    next ready _ =>
      split
      · exact exact_of_neg (by decide) (forall_mem_nil _)
      · have hbits : ∀ k i, (poll c.cutNfds.toNat c.sets ready).reported k i = true →
            has (c.sets k) i = true ∧ i < c.examined := by
          intro k i hi
          simp only [poll, Bool.and_eq_true, decide_eq_true_eq] at hi
          exact hi.1
        have hexam : c.examined ≤ 64 * words c.cutNfds.toNat := by
          unfold Call.examined words
          omega
        have hmerged : Merged maxFd c (poll c.cutNfds.toNat c.sets ready).reported
            (fun _ => .empty) ((poll c.cutNfds.toNat c.sets ready).results c.cutNfds.toNat c.sets) := by
          refine ⟨fun k i hi => ?_, nofun, fun k i hi => ?_,
            nofun, fun k i hi => ?_⟩
          · obtain ⟨hhas, hlt⟩ := hbits k i hi
            exact ⟨hlt, (hlt.trans_le examined_le_fdSetsize).trans_le hmax, hhas⟩
          · obtain ⟨hhas, hlt⟩ := hbits k i hi
            exact has_map_copy.2 (.inl ⟨hlt.trans_le hexam, isSome_of_has hhas, hi⟩)
          · rcases has_map_copy.1 hi with ⟨-, -, hi⟩ | ⟨hge, hi⟩
            · exact .inl hi
            · exact .inr (.inr ⟨hexam.trans hge, hi⟩)
        refine exact_returned hmerged ?_ nofun (fun q hq => by cases hq; rfl)
          ⟨nofun, fun k fd hfd => absurd hfd (hnone k fd)⟩ (forall_mem_nil _)
        rw [total_empty]
        rfl

/-- A call before its first round. -/
def Call.begin (c : Call) (s : State) : Local := ⟨s.share, c.cleared, 0, false, []⟩

theorem ffHookSelect_loop (ring : Bool) (s : State) (hmax : ¬ fdSetsize ≤ maxFd)
    (hpos : (∃ k, (c.sets k).isSome) → -127 < c.nfds) (rounds : List Round) :
    ∃ st, ffHookSelect maxFd ring s c rounds =
      ended st (selectLoop (task maxFd ring s c) rounds (c.begin s)) := by
  unfold ffHookSelect
  rw [if_neg hmax, if_neg]
  · exact ⟨_, rfl⟩
  · rintro ⟨hneg, hany⟩
    have := hpos (any_isSome.1 hany)
    have := setWords_neg_iff.1 hneg
    omega

theorem exact_of_sound (hsound : Sound maxFd ring s c) (rounds : List Round) :
    Exact maxFd c (ffHookSelect maxFd ring s c rounds) := by
  by_cases hmax : fdSetsize ≤ maxFd
  · exact exact_plain hmax rounds
  · obtain ⟨st, heq⟩ := ffHookSelect_loop ring s hmax hsound.positive rounds
    rw [heq]
    exact exact_loop hsound rounds ⟨fun k fd _ i _ => rfl, rfl, rfl, rfl, forall_mem_nil _⟩

/-! ### Reports under which the call is wrong -/

theorem mem_log_first (t : Task) (l : Local) (r : Round) :
    ∃ e ∈ (selectLoop t [r] l).2.log, e.fstack = (ffSysSelect t l.share r.fstack).1 := by
  unfold selectLoop
  split
  next p share' hsys =>
    rw [hsys]
    exact ⟨_, mem_cons_self, rfl⟩
  next p ret share' hsys =>
    rw [hsys]
    -- however the round ends, it is logged
    unfold selectExit
    dsimp only
    repeat' split
    all_goals exact ⟨_, mem_cons_self, rfl⟩

variable {ready : Option (Kind → Bits)} {p : Poll}

theorem eq_poll (hp : (ffSysSelect t share ready).1 = some p) :
    p = poll t.nfds.toNat (t.args (t.request share)) (ready.getD fun _ => .empty) := by
  unfold ffSysSelect at hp
  split at hp
  · cases hp
  · split at hp
    · cases hp
    · cases ready <;> exact (Option.some.inj hp).symm

theorem haveFf_of_asked (hp : (ffSysSelect t share ready).1 = some p) (hasked : p.asked k i = true)
    : t.parts.haveFf k = true := by
  rw [eq_poll hp] at hasked
  have hhas : has (t.args (t.request share) k) i = true := (Bool.and_eq_true_iff.1 hasked).1
  unfold Task.args at hhas
  split at hhas
  next h => exact h
  · cases hhas

theorem reported_all (hp : (ffSysSelect t share (some fun _ _ => true)).1 = some p) :
    p.reported = p.asked := by
  rw [eq_poll hp]
  funext k i
  simp [poll]

theorem ffSysSelect_ready (hfd : InFf maxFd c k fd) (hr : ring = false) (share ready : Kind → Bits)
    : ∃ q ret share',
      ffSysSelect (task maxFd ring s c) share (some ready) = (some q, some ret, share') := by
  have hring : (task maxFd ring s c).ring = false := hr
  have hpos : ¬ (task maxFd ring s c).nfds < 0 := by
    rw [task_nfds ring s hfd]
    omega
  unfold ffSysSelect
  simp only [hring, Bool.false_eq_true, if_false, if_neg hpos]
  exact ⟨_, _, _, rfl⟩

theorem ffSysSelect_quiet (h : t.ring = false → 0 ≤ t.nfds) (share : Kind → Bits) :
    ∃ p share', ffSysSelect t share (some fun _ => .empty) = (p, some 0, share') := by
  unfold ffSysSelect
  split
  · exact ⟨_, _, rfl⟩
  next hring =>
    have hpos := h (by simpa using hring)
    rw [if_neg (Int.not_lt.2 hpos)]
    refine ⟨_, _, Prod.ext rfl (Prod.ext (congrArg some ?_) rfl)⟩
    exact total_eq_zero.2 fun k i _ => by simp [poll, Bits.empty]

theorem over_at_start {kernel fstack : Option (Kind → Bits)} (h : ¬ AtOnce c) :
    (task maxFd ring s c).over ⟨fstack, kernel, 0⟩ = false := by
  unfold Task.over
  simp only [task]
  split
  next sec usec htimeout =>
    have hpos : 0 < sec * 1000 + usec.tdiv 1000 := by
      by_contra hle
      exact h ⟨sec, usec, htimeout, Int.not_lt.1 hle⟩
    have hne : ¬ (sec = 0 ∧ usec = 0) := by
      rintro ⟨rfl, rfl⟩
      exact absurd hpos (by decide)
    rw [← Bool.not_eq_true, Bool.or_eq_true, Bool.and_eq_true]
    simp only [decide_eq_true_eq, Nat.add_zero]
    rintro (hzero | hle)
    · exact hne hzero
    · have := of_decide_eq_true hle
      omega
  · rfl

/-- If F-Stack reports nothing and all of the kernel's descriptors are ready, the call goes on
waiting. -/
theorem brief_of_exact (hk : InKernel maxFd c k fd)
    (h : Exact maxFd c (ended st (selectLoop (task maxFd ring s c)
      [⟨some fun _ => .empty, some fun _ _ => true, 0⟩] (c.begin s))))
    (hquiet : (task maxFd ring s c).ring = false → 0 ≤ (task maxFd ring s c).nfds) : AtOnce c := by
  by_contra hlate
  have hprompt := h.prompt
  obtain ⟨p, share', hsys⟩ := ffSysSelect_quiet hquiet s.share
  have hhave : (task maxFd ring s c).parts.haveKernel = true := (haveKernel_iff ring s).2 ⟨k, fd, hk⟩
  have hsys' : ffSysSelect (task maxFd ring s c) (c.begin s).share (some fun _ => .empty) =
      (p, some 0, share') := hsys
  simp only [selectLoop, hsys', lt_irrefl, if_false, if_pos hhave, ffLinuxSelect,
    over_at_start hlate, Bool.not_false, Bool.false_eq_true] at hprompt
  have hfalse := hprompt _ mem_cons_self rfl _ rfl k fd
  have hmax := maxKernel_lt ring s hk
  have hle := le_maxKernel ring s hk
  have hexam := examined_le_words (c := c)
  have hwords : fd < 64 * words ((task maxFd ring s c).parts.maxKernel + 1) := by
    unfold words
    omega
  have hsome := isSome_of_has hk.2.2
  have hhas : has (((c.begin s).out k).map fun x => Bits.copy
      (64 * words ((task maxFd ring s c).parts.maxKernel + 1)) x
      ((task maxFd ring s c).parts.kernelFds k)) fd = true :=
    has_map_copy.2 (.inl ⟨hwords, by simpa [Call.begin, Call.cleared] using hsome,
      (kernelFds_iff ring s hsome (by omega)).2 hk⟩)
  simp only [poll, hhas, Bool.true_and, Bool.and_true, decide_eq_false_iff_not] at hfalse
  omega

theorem exit_finish (maxFd : Nat) (ring : Bool) (s : State) (c : Call) (share : Kind → Bits)
    (p : Option Poll) (ret : Nat) (fstack : Option (Kind → Bits)) (ready : Kind → Bits) :
    ∃ out kernelRet kr, KernelReport maxFd c out kernelRet kr ∧
      (selectExit (task maxFd ring s c) { c.begin s with share := share } p ret
        ⟨fstack, some ready, 0⟩).1 = finish (task maxFd ring s c) share out ret kernelRet := by
  unfold selectExit
  simp only [Call.begin, Bool.not_false, Bool.and_true]
  split
  next hhave =>
    obtain ⟨k, fd, hk⟩ := (haveKernel_iff ring s).1 hhave
    obtain ⟨q, kernelRet, out, hq⟩ : ∃ q kernelRet out,
        ffLinuxSelect (task maxFd ring s c).parts c.cleared (some ready) = (q, some kernelRet, out) :=
      ⟨_, _, _, rfl⟩
    rw [hq]
    exact ⟨out, kernelRet, _, ffLinuxSelect_ok hk hq, rfl⟩
  · exact ⟨_, _, _, kernelReport_cleared maxFd c, rfl⟩

/-- If all of F-Stack's descriptors are ready, so is every bit that was left behind them. -/
theorem fresh_of_exact (hpair : Paired maxFd ring s c)
    (hring : ∀ k fd, InFf maxFd c k fd → ring = false) (hfd : InFf maxFd c k fd)
    (h : Exact maxFd c (ended st (selectLoop (task maxFd ring s c)
      [⟨some fun _ _ => true, some fun _ => .empty, 0⟩] (c.begin s))))
    (hlt : i < 64 * c.setWords.toNat)
    (hbehind : ∀ k' fd', InFf maxFd c k' fd' → (fd' - maxFd) / 64 < i / 64)
    (hold : s.share k i = true) :
    c.examined ≤ i + maxFd ∧ i + maxFd < fdSetsize ∧ has (c.sets k) (i + maxFd) = true := by
  obtain ⟨q, ret, share', hsys⟩ :=
    ffSysSelect_ready (s := s) hfd (hring k fd hfd) (c.begin s).share fun _ _ => true
  obtain ⟨fr, hreport⟩ := ffSysSelect_ok hpair hring hsys
  have hfirst : (ffSysSelect (task maxFd ring s c) (c.begin s).share (some fun _ _ => true)).1 =
      some q := by rw [hsys]
  have hret : 0 < ret := by
    by_contra hzero
    obtain ⟨q', hq', hasked⟩ := ffSysSelect_asked (s := s) hpair hring hfd
    rw [hfirst] at hq'
    cases hq'
    rw [← reported_all hfirst, hreport.poll q rfl, hreport.none (by omega)] at hasked
    cases hasked
  obtain ⟨out, kernelRet, kr, hkernel, hexit⟩ :=
    exit_finish maxFd ring s c share' (some q) ret (some fun _ _ => true) fun _ => .empty
  have houtcome : (selectLoop (task maxFd ring s c)
      [⟨some fun _ _ => true, some fun _ => .empty, 0⟩] (c.begin s)).1 =
      finish (task maxFd ring s c) share' out ret kernelRet := by
    rw [← hexit]
    simp only [selectLoop, hsys, if_pos hret]
  have hadded : Added (task maxFd ring s c) share' k (i + maxFd) :=
    ⟨(hpair k).2 ⟨fd, hfd⟩, i, hlt, (hreport.share k fd hfd i).2
      (.inr ⟨(ffWords_le_iff ring s hfd).2 hbehind, hold⟩), rfl⟩
  have hfits := fits_of_finish hret fun hcrash => h.alive (houtcome.trans hcrash)
  obtain ⟨out', hfinish, hhas⟩ := finish_returned kernelRet hret hfits
  have hsubset := h.subset _ out' (houtcome.trans hfinish) (Int.natCast_nonneg _) k (i + maxFd)
    ((hhas k _).2 (.inr hadded))
  refine ⟨not_lt.1 fun hexam => ?_, (hfits k _ hadded).1, hsubset⟩
  have := hbehind k (i + maxFd) ⟨hexam, Nat.le_add_left _ _, hsubset⟩
  omega

theorem sound_of_exact (hmax : ¬ fdSetsize ≤ maxFd)
    (h : ∀ rounds, Exact maxFd c (ffHookSelect maxFd ring s c rounds)) : Sound maxFd ring s c := by
  have hpos : (∃ k, (c.sets k).isSome) → -127 < c.nfds := by
    intro hany
    by_contra hle
    refine (h []).alive ?_
    have hneg := setWords_neg_iff.2 (Int.not_lt.1 hle)
    simp only [ffHookSelect, if_neg hmax, if_pos (And.intro hneg (any_isSome.2 hany))]
  have hbegin (rounds) :
      ∃ st, Exact maxFd c (ended st (selectLoop (task maxFd ring s c) rounds (c.begin s))) := by
    obtain ⟨st, heq⟩ := ffHookSelect_loop ring s hmax hpos rounds
    exact ⟨st, heq ▸ h rounds⟩
  -- a round without reports shows what F-Stack is asked for
  obtain ⟨st, hfirst⟩ := hbegin [⟨none, none, 0⟩]
  obtain ⟨e, he, hfstack⟩ := mem_log_first (task maxFd ring s c) (c.begin s) ⟨none, none, 0⟩
  have hasked : ∀ k fd, InFf maxFd c k fd → ring = false ∧
      (task maxFd ring s c).parts.haveFf k = true := by
    intro k fd hfd
    obtain ⟨p, hp, hbit⟩ := hfirst.polled e he k fd hfd
    rw [hfstack] at hp
    refine ⟨?_, haveFf_of_asked hp hbit⟩
    by_contra hring
    have hr : (task maxFd ring s c).ring = true := Bool.eq_true_of_not_eq_false hring
    simp [ffSysSelect, hr] at hp
  have hring : ∀ k fd, InFf maxFd c k fd → ring = false := fun k fd hfd => (hasked k fd hfd).1
  have hpaired : (∃ fd, InFf maxFd c .write fd) ↔ ∃ fd, InFf maxFd c .except fd :=
    ⟨fun ⟨fd, hfd⟩ => (haveFf_flag ring s).1 (hasked .write fd hfd).2,
      fun ⟨fd, hfd⟩ => (haveFf_flag ring s).1 (hasked .except fd hfd).2⟩
  refine ⟨hpos, hring, hpaired, fun k fd hk => ?_, fun k fd hfd i hlt hbehind hold => ?_⟩
  · by_cases hfail : ring = false ∧ (∀ k fd, ¬ InFf maxFd c k fd) ∧ s.nfds < 0
    · exact .inr hfail
    · obtain ⟨st, hexact⟩ := hbegin _
      refine .inl (brief_of_exact hk hexact fun hr => ?_)
      by_cases hnone : ∀ k fd, ¬ InFf maxFd c k fd
      · rw [task_nfds_of_none ring s hnone]
        exact Int.not_lt.1 fun hneg => hfail ⟨hr, hnone, hneg⟩
      · push Not at hnone
        obtain ⟨k', fd', hfd'⟩ := hnone
        rw [task_nfds ring s hfd']
        omega
  · obtain ⟨st, hexact⟩ := hbegin _
    exact fresh_of_exact (paired_of_iff hpaired) hring hfd hexact hlt hbehind hold

/-- A call of `select` is right whatever the stacks report, exactly if it is sound. -/
theorem select_exact_iff (maxFd : Nat) (ring : Bool) (s : State) (c : Call) :
    (∀ rounds, Exact maxFd c (ffHookSelect maxFd ring s c rounds)) ↔
      fdSetsize ≤ maxFd ∨ Sound maxFd ring s c := by
  by_cases hmax : fdSetsize ≤ maxFd
  · exact ⟨fun _ => .inl hmax, fun _ => exact_plain hmax⟩
  · exact ⟨fun h => .inr (sound_of_exact hmax h), fun h => exact_of_sound (h.resolve_left hmax)⟩

end Every

/-- A thread that has not called `select` before, with shared memory that is zero. -/
def newThread : State := ⟨fun _ => .empty, fun _ => .empty, fun _ => .empty, 0⟩

/-- A call with one descriptor in one set. -/
def oneFd (k : Kind) (fd : Nat) (timeout : Option (Int × Int)) : Call where
  nfds := fd + 1
  sets := update (fun _ => none) k (some (Bits.empty.insert fd))
  timeout := timeout
  start := 0

/-- A round where neither stack reports anything. -/
def nothingReady : Round := ⟨some fun _ => .empty, some fun _ => .empty, 0⟩

/-- A round where both stacks report every descriptor. -/
def allReady : Round := ⟨some fun _ _ => true, some fun _ _ => true, 0⟩

/-- A round where only the kernel reports. -/
def kernelReady : Round := ⟨some fun _ => .empty, some fun _ _ => true, 0⟩

/-- A F-Stack descriptor in `writefds` alone is not polled for writing, and with ring IPC none is
polled at all; a call goes on waiting though a descriptor of the kernel is ready; and a call for
descriptor 70 reports 134, which was ready in the call before. -/
theorem select_not_exact :
    ¬ Exact 70 (oneFd .write 71 none) (ffHookSelect 70 false newThread (oneFd .write 71 none)
        [nothingReady]) ∧
      ¬ Exact 70 (oneFd .read 71 none) (ffHookSelect 70 true newThread (oneFd .read 71 none)
        [nothingReady]) ∧
      ¬ Exact 70 (oneFd .read 5 none) (ffHookSelect 70 false newThread (oneFd .read 5 none)
        [kernelReady]) ∧
      ¬ Exact 70 (oneFd .read 70 none) (ffHookSelect 70 false
        (ffHookSelect 70 false newThread (oneFd .read 134 none) [allReady]).state
        (oneFd .read 70 none) [allReady]) := by
  refine ⟨fun h => ?_, fun h => ?_, fun h => ?_, fun h => ?_⟩
  · obtain ⟨p, hp, hasked⟩ := h.polled _ mem_cons_self .write 71 ⟨by decide, by decide, by decide⟩
    cases hp
    exact absurd hasked (by decide)
  · obtain ⟨p, hp, -⟩ := h.polled _ mem_cons_self .read 71 ⟨by decide, by decide, by decide⟩
    cases hp
  · exact absurd (h.prompt _ mem_cons_self rfl _ rfl .read 5) (by decide)
  · exact absurd (h.subset _ _ rfl (by decide) .read 134 (by decide)) (by decide)

end FStack.Adapter.Select
