import Mathlib.Algebra.BigOperators.Group.Multiset.Basic
import Mathlib.Tactic.Abel

/-!
# Ledgers of owned resources

A program that owns resources makes some, gives some away for good, and holds the rest. A `Ledger`
records the first two as multisets over an arbitrary type; `Moves l l' a b` says that a program
that held `a` when the ledger was `l` holds `b` when it is `l'`, and that nothing was lost or given
away twice in between. Programs compose by `Moves.trans` and run beside other holdings by
`Moves.frame`.
-/

namespace FStack.Lib

/-- What was made, and what was handed on or given back. -/
structure Ledger (R : Type*) where
  made : Multiset R
  spent : Multiset R

namespace Ledger

variable {R : Type*} {l l' l'' : Ledger R} {a b c : Multiset R}

/-- What was held and what was made since is what was spent since and what is held now. -/
def Moves (l l' : Ledger R) (a b : Multiset R) : Prop :=
  l.spent + a + l'.made = l'.spent + b + l.made

theorem moves_refl (l : Ledger R) (a : Multiset R) : Moves l l a a := rfl

theorem Moves.trans (h : Moves l l' a b) (h' : Moves l' l'' b c) : Moves l l'' a c := by
  refine add_right_cancel (b := l'.made + (l'.spent + b)) ?_
  calc l.spent + a + l''.made + (l'.made + (l'.spent + b))
      = (l.spent + a + l'.made) + (l'.spent + b + l''.made) := by abel
    _ = (l'.spent + b + l.made) + (l''.spent + c + l'.made) := by rw [h, h']
    _ = l''.spent + c + l.made + (l'.made + (l'.spent + b)) := by abel

/-- What the program does not touch stays held. -/
theorem Moves.frame (h : Moves l l' a b) (c : Multiset R) : Moves l l' (a + c) (b + c) := by
  calc l.spent + (a + c) + l'.made = (l.spent + a + l'.made) + c := by abel
    _ = (l'.spent + b + l.made) + c := by rw [h]
    _ = l'.spent + (b + c) + l.made := by abel

theorem moves_make (l : Ledger R) (r : R) : Moves l ⟨l.made + {r}, l.spent⟩ 0 {r} := by
  unfold Moves
  dsimp only
  abel

theorem moves_spend (l : Ledger R) (r : R) : Moves l ⟨l.made, l.spent + {r}⟩ {r} 0 := by
  unfold Moves
  dsimp only
  abel

/-- From an empty ledger: what was held and made is what is spent and held. -/
theorem Moves.total (h : Moves ⟨0, 0⟩ l' a b) : l'.spent + b = a + l'.made := by
  unfold Moves at h
  rw [zero_add, add_zero] at h
  exact h.symm

end Ledger

end FStack.Lib
