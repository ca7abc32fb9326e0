import FStack.MicroThread.Frame

/-!
# Micro threads: the counts of the pool

`InitialPool`, `AllocThread` and `FreeThread` (`adapter/micro_thread/micro_thread.cpp:387-497`), by
themselves: whoever allocates threads and frees them, the counts are those of the threads in use and
of the free list, and no thread is deleted but one that was free before.
-/

namespace FStack.MicroThread.Frame

open List

variable {ι : Type} [DecidableEq ι]

/-- `InitialPool`; `threads` are those that could be made. -/
def initialPool (f : Frame ι) (threads : List ι) (maxNum : Int) : Frame ι :=
  { f with
    freelist := threads
    totalNum := threads.length
    useNum := 0
    maxNum
    thread := fun t =>
      if t ∈ threads then { Thread.new .normal with flag := { Flags.notInlist with free := true } }
      else f.thread t
    objects := threads }

/-- A call of `AllocThread`, with what `new` gives, or of `FreeThread`. -/
inductive PoolCall (ι : Type) where
  | alloc (fresh : Option ι)
  | free (thread : ι)

/-- A call, with the threads in use. Only these are freed. -/
def poolStep : Frame ι × List ι → PoolCall ι → Frame ι × List ι
  | (f, used), .alloc fresh => ((f.allocThread fresh).1, (f.allocThread fresh).2.toList ++ used)
  | (f, used), .free thread =>
    if thread ∈ used then (f.freeThread thread, used.erase thread) else (f, used)

/-- The counts in `f`, after a start with `f₀`. -/
structure Counted (f₀ f : Frame ι) (used : List ι) : Prop where
  nodup : (used ++ f.freelist).Nodup
  objects : ∀ t ∈ used ++ f.freelist, t ∈ f.objects
  total : f.totalNum = used.length + f.freelist.length
  use : f.useNum = used.length
  maxNum : f.maxNum = f₀.maxNum
  total_le : f.totalNum ≤ max f₀.maxNum f₀.totalNum
  limit : defaultNum ≤ f₀.defaultThreadNum ∧ f₀.defaultThreadNum ≤ f₀.maxNum →
    defaultNum ≤ f.defaultThreadNum ∧ f.defaultThreadNum ≤ f₀.maxNum

variable {f₀ f : Frame ι} {used l : List ι} {t u : ι}

theorem Counted.alloc (h : Counted f₀ f used) (fresh : Option ι) :
    Counted f₀ (f.allocThread fresh).1 ((f.allocThread fresh).2.toList ++ used) := by
  have htotal := h.total
  have huse := h.use
  have hmaxNum := h.maxNum
  unfold allocThread
  split
  next t rest hlist =>
    have hperm : (t :: used ++ rest).Perm (used ++ f.freelist) := by
      rw [hlist]
      exact perm_middle.symm
    exact { h with
      nodup := hperm.nodup_iff.2 h.nodup
      objects := fun u hu => h.objects u (hperm.mem_iff.1 hu)
      total := by simp [setFlag, setThread, assert, htotal, hlist]; omega
      use := by simp [setFlag, setThread, assert, huse] }
  next hlist =>
    split
    · exact h
    next hmax =>
      split
      · exact h
      next t =>
        split
        · exact h
        next ht =>
          have hmem (u : ι) : u ∈ t :: used ++ f.freelist → u ∈ t :: f.objects := by
            rw [cons_append, mem_cons, mem_cons]
            exact Or.imp_right (h.objects u)
          exact { h with
            nodup := nodup_cons.2 ⟨fun hu => ht (h.objects t hu), h.nodup⟩
            objects := hmem
            total := by simp [setThread, htotal]; omega
            use := by simp [setThread, huse]
            total_le := by
              show f.totalNum + 1 ≤ _
              omega
            limit := fun hstart => by
              obtain ⟨hlow, hhigh⟩ := h.limit hstart
              dsimp only [setThread]
              split <;> omega }

/-- Neither the thread that was put last into the free list nor one that is not there goes. -/
theorem mem_trimPool (hlist : f.freelist = l ++ [t]) (hu : u ∉ l) (h : u ∈ f.objects) :
    u ∈ f.trimPool.objects := by
  unfold trimPool
  cases l with
  | nil => simpa [hlist] using h
  | cons w l =>
    have hne : u ≠ w := fun heq => hu (heq ▸ mem_cons_self)
    simp only [hlist, cons_append]
    split
    · exact (mem_erase_of_ne hne).2 h
    · exact h

theorem Counted.trimPool (h : Counted f₀ f used) : Counted f₀ f.trimPool used := by
  have htotal := h.total
  unfold Frame.trimPool
  split
  next w rest hlist =>
    split
    · rw [hlist] at htotal
      have hperm : (used ++ f.freelist).Perm (w :: (used ++ rest)) := by
        rw [hlist]
        exact perm_middle
      obtain ⟨hw, hnodup⟩ := nodup_cons.1 (hperm.nodup_iff.1 h.nodup)
      exact { h with
        nodup := hnodup
        objects := fun u hu => by
          have hmem := h.objects u (hperm.mem_iff.2 (mem_cons_of_mem w hu))
          exact (mem_erase_of_ne (ne_of_mem_of_not_mem hu hw)).2 hmem
        total := by simp at htotal ⊢; omega
        total_le := by
          have hle := h.total_le
          show f.totalNum - 1 ≤ _
          omega
        limit := fun hstart => by
          obtain ⟨hlow, hhigh⟩ := h.limit hstart
          dsimp only
          split <;> omega }
    · exact h
  · exact h

theorem Counted.free (h : Counted f₀ f used) (ht : t ∈ used) :
    Counted f₀ (f.freeThread t) (used.erase t) ∧ ∀ u ∈ used, u ∈ (f.freeThread t).objects := by
  have hperm : (used.erase t ++ (f.freelist ++ [t])).Perm (used ++ f.freelist) := by
    rw [← append_assoc]
    exact (perm_append_singleton ..).trans ((perm_cons_erase ht).symm.append_right _)
  have htotal := h.total
  have huse := h.use
  have hlen := length_erase_of_mem ht
  have hpos := length_pos_of_mem ht
  constructor
  · exact Counted.trimPool { h with
      nodup := hperm.nodup_iff.2 h.nodup
      objects := fun u hu => h.objects u (hperm.mem_iff.1 hu)
      total := by
        show f.totalNum = (used.erase t).length + ((f.freelist ++ [t]).length : Int)
        rw [length_append, length_singleton]
        omega
      use := by
        show f.useNum - 1 = _
        omega }
  · intro u hu
    have hnot : u ∉ f.freelist := fun hfree => (nodup_append.1 h.nodup).2.2 u hu u hfree rfl
    exact mem_trimPool rfl hnot (h.objects u (mem_append_left _ hu))

/-- **The pool counts its threads.** Whatever is allocated and freed after `InitialPool`, the counts
are right and bounded, and `FreeThread` deletes none of the threads in use, of which the one it is
given is one. -/
theorem pool_counted (f : Frame ι) (threads : { l : List ι // l.Nodup }) (maxNum : Int)
    (calls : List (PoolCall ι)) :
    let s := calls.foldl poolStep (f.initialPool threads maxNum, [])
    (s.2 ++ s.1.freelist).Nodup ∧ s.1.totalNum = s.2.length + s.1.freelist.length ∧
      s.1.useNum = s.2.length ∧ s.1.totalNum ≤ max maxNum threads.1.length ∧
      (∀ t ∈ s.2, ∀ u ∈ s.2, u ∈ (s.1.freeThread t).objects) ∧
      (defaultNum ≤ f.defaultThreadNum ∧ f.defaultThreadNum ≤ maxNum →
        defaultNum ≤ s.1.defaultThreadNum ∧ s.1.defaultThreadNum ≤ maxNum) := by
  intro s
  have h : Counted (f.initialPool threads maxNum) s.1 s.2 := by
    refine foldlRecOn (motive := fun s => Counted _ s.1 s.2) calls poolStep ?_
      fun s hs call _ => ?_
    · exact ⟨threads.2, fun _ => id, (Int.zero_add _).symm, rfl, rfl, le_max_right _ _, id⟩
    · cases call with
      | alloc fresh => exact hs.alloc fresh
      | free t =>
        simp only [poolStep]
        split
        next ht => exact (hs.free ht).1
        · exact hs
  exact ⟨h.nodup, h.total, h.use, h.total_le, fun t ht u => (h.free ht).2 u, h.limit⟩

end FStack.MicroThread.Frame
