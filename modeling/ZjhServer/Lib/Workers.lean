/-
ZjhServer/Lib/Workers.lean

Counting workers.  Each worker of a finite family is at some program counter;
`tally p pc` is how many of them are at one that satisfies `p`.  A step moves one
worker, so it changes a tally by at most one (`tally_update`): that is how an
atomic counter, incremented and decremented along the way, stays equal to the
number of workers in a region of the code.
-/
import Mathlib.Algebra.BigOperators.Group.Finset.Basic
import Mathlib.Algebra.BigOperators.Pi
import Mathlib.Data.Fintype.Basic

namespace Workers

variable {ι β : Type} [Fintype ι] [DecidableEq ι]

/-- How many workers are at a `p` program counter. -/
def tally (p : β → Bool) (pc : ι → β) : Nat := ∑ w, (p (pc w)).toNat

/-- Moving one worker. -/
theorem tally_update (p : β → Bool) (pc : ι → β) (w : ι) (b : β) :
    tally p (Function.update pc w b) + (p (pc w)).toNat = tally p pc + (p b).toNat := by
  have hrest : ∑ v ∈ Finset.univ.erase w, (p (Function.update pc w b v)).toNat =
      ∑ v ∈ Finset.univ.erase w, (p (pc v)).toNat :=
    Finset.sum_congr rfl fun v hv => by rw [Function.update_of_ne (Finset.ne_of_mem_erase hv)]
  unfold tally
  rw [← Finset.add_sum_erase _ _ (Finset.mem_univ w),
    ← Finset.add_sum_erase _ _ (Finset.mem_univ w), hrest, Function.update_self]
  omega

omit [DecidableEq ι] in
/-- Somebody is counted exactly when somebody is there. -/
theorem tally_pos_iff {p : β → Bool} {pc : ι → β} : 0 < tally p pc ↔ ∃ w, p (pc w) = true := by
  rw [Nat.pos_iff_ne_zero, Ne, tally, Finset.sum_eq_zero_iff]
  constructor
  · intro h
    by_contra hno
    push Not at hno
    exact h fun w _ => by rw [Bool.eq_false_iff.mpr (hno w)]; rfl
  · rintro ⟨w, hw⟩ h
    have hzero := h w (Finset.mem_univ w)
    rw [hw] at hzero
    cases hzero

end Workers
