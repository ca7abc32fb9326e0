import Mathlib.Data.List.Nodup

/-!
# Lists that are changed while they are scanned

A scan of a linked list keeps a pointer to the entry it looks at next. An entry that is removed
takes the pointer to the one after it. `rest l p` is what the scan has still to look at.

* `rest_eq_cons`: one step of the scan.
* `rest_erase`: a removal takes the entry out of what is left, and nothing else.
-/

namespace FStack.Lib.Cursor

open List

variable {κ : Type} [DecidableEq κ]

/-- The entry after `c`. -/
def after : List κ → κ → Option κ
  | [], _ => none
  | x :: l, c => if x = c then l.head? else after l c

/-- The entries from the pointer on. -/
def rest : List κ → Option κ → List κ
  | _, none => []
  | [], some _ => []
  | x :: l, some c => if x = c then x :: l else rest l (some c)

@[simp] theorem rest_none (l : List κ) : rest l none = [] := by
  cases l <;> rfl

theorem rest_sublist : ∀ (l : List κ) (p : Option κ), (rest l p).Sublist l
  | l, none => by
    rw [rest_none]
    exact nil_sublist l
  | [], some _ => Sublist.refl _
  | x :: l, some c => by
    unfold rest
    split
    · exact Sublist.refl _
    · exact (rest_sublist l (some c)).cons x

@[simp] theorem rest_head (l : List κ) : rest l l.head? = l := by
  cases l <;> simp [rest]

theorem mem_of_after : ∀ {l : List κ} {c d : κ}, after l c = some d → d ∈ l
  | [], c, d, h => by cases h
  | x :: l, c, d, h => by
    unfold after at h
    split at h
    · exact mem_cons_of_mem x (mem_of_mem_head? h)
    · exact mem_cons_of_mem x (mem_of_after h)

variable {p : Option κ}

theorem rest_cons_of_ne {x : κ} (l : List κ) (h : p ≠ some x) : rest (x :: l) p = rest l p := by
  cases p with
  | none => simp
  | some c =>
    have hxc : x ≠ c := fun hxc => h (hxc ▸ rfl)
    simp [rest, hxc]

/-- The entry at the pointer, and the rest after it. -/
theorem rest_eq_cons : ∀ {l : List κ} {c : κ}, l.Nodup → c ∈ l →
    rest l (some c) = c :: rest l (after l c)
  | [], c, _, hc => by cases hc
  | x :: l, c, hl, hc => by
    obtain ⟨hx, hl⟩ := nodup_cons.mp hl
    by_cases hxc : x = c
    · subst hxc
      simp only [rest, after, if_true]
      rw [rest_cons_of_ne l fun h => hx (mem_of_mem_head? h), rest_head]
    · have hc : c ∈ l := (mem_cons.mp hc).resolve_left (Ne.symm hxc)
      simp only [rest, after, hxc, if_false]
      rw [rest_cons_of_ne l fun h => hx (mem_of_after h), rest_eq_cons hl hc]

/-- The pointer moved on past an entry that is removed. -/
theorem rest_erase_after : ∀ {l : List κ} {c : κ}, l.Nodup →
    rest (l.erase c) (after l c) = rest l (after l c)
  | [], c, _ => rfl
  | x :: l, c, hl => by
    obtain ⟨hx, hl⟩ := nodup_cons.mp hl
    by_cases hxc : x = c
    · subst hxc
      simp only [erase_cons_head, after, if_true]
      rw [rest_cons_of_ne l fun h => hx (mem_of_mem_head? h)]
    · rw [erase_cons_tail (by simpa using hxc)]
      simp only [after, hxc, if_false]
      rw [rest_cons_of_ne _ fun h => hx (mem_of_after h),
        rest_cons_of_ne _ fun h => hx (mem_of_after h), rest_erase_after hl]

/-- A removal of an entry that the pointer is not at. -/
theorem rest_erase_of_ne : ∀ {l : List κ} {x c : κ}, l.Nodup → c ∈ l → c ≠ x →
    rest (l.erase x) (some c) = (rest l (some c)).erase x
  | [], x, c, _, hc, _ => by cases hc
  | y :: l, x, c, hl, hc, hcx => by
    obtain ⟨hy, hl⟩ := nodup_cons.mp hl
    by_cases hyc : y = c
    · subst hyc
      rw [erase_cons_tail (by simpa using hcx)]
      simp only [rest, if_true]
      rw [erase_cons_tail (by simpa using hcx)]
    · have hcl : c ∈ l := (mem_cons.mp hc).resolve_left (Ne.symm hyc)
      have hne : some c ≠ some y := fun h => hyc (Option.some.inj h).symm
      rw [rest_cons_of_ne l hne]
      by_cases hyx : y = x
      · subst hyx
        rw [erase_cons_head]
        exact (erase_of_not_mem fun h => hy ((rest_sublist l _).subset h)).symm
      · rw [erase_cons_tail (by simpa using hyx), rest_cons_of_ne _ hne,
          rest_erase_of_ne hl hcl hcx]

/-- A removal, with the pointer moved on if it was there. -/
theorem rest_erase {l : List κ} (x : κ) (hl : l.Nodup) (hp : ∀ c, p = some c → c ∈ l) :
    rest (l.erase x) (if p = some x then after l x else p) = (rest l p).erase x := by
  cases p with
  | none => simp
  | some c =>
    by_cases hcx : c = x
    · subst hcx
      rw [if_pos rfl, rest_erase_after hl, rest_eq_cons hl (hp c rfl), erase_cons_head]
    · rw [if_neg fun h => hcx (Option.some.inj h), rest_erase_of_ne hl (hp c rfl) hcx]

end FStack.Lib.Cursor
