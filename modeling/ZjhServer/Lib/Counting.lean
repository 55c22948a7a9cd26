/-
ZjhServer/Lib/Counting.lean

How counts change when one entry of a list does.  Stated as sums on both sides, so that an
invariant that says how many entries there are of a kind goes through by arithmetic.
-/
import Mathlib.Data.List.Basic

namespace Counting

variable {α β : Type*}

theorem countP_set {l : List α} {i : Nat} {x : α} (h : l[i]? = some x) (p : α → Bool) (y : α) :
    (l.set i y).countP p + (p x).toNat = l.countP p + (p y).toNat := by
  induction l generalizing i with
  | nil => cases h
  | cons z l ih =>
      cases i with
      | zero =>
          cases h
          cases hx : p x <;> cases hy : p y <;> simp [hx, hy]
      | succ i =>
          have hrest := ih h
          rw [List.set_cons_succ, List.countP_cons, List.countP_cons]
          omega

/-- Two entries are counted twice. -/
theorem two_le_countP {l : List α} {p : α → Bool} {i j : Nat} {x y : α} (hi : l[i]? = some x)
    (hj : l[j]? = some y) (hne : i ≠ j) (hx : p x = true) (hy : p y = true) : 2 ≤ l.countP p := by
  induction l generalizing i j with
  | nil => cases hi
  | cons z l ih =>
      rw [List.countP_cons]
      rcases i with _ | i <;> rcases j with _ | j
      · exact absurd rfl hne
      · cases hi
        have hj' : l[j]? = some y := hj
        have hpos := List.countP_pos_iff.mpr ⟨y, List.mem_of_getElem? hj', hy⟩
        rw [if_pos hx]
        omega
      · cases hj
        have hi' : l[i]? = some x := hi
        have hpos := List.countP_pos_iff.mpr ⟨x, List.mem_of_getElem? hi', hx⟩
        rw [if_pos hy]
        omega
      · have hrest := ih hi hj fun h => hne (congrArg _ h)
        omega

end Counting
