/-
ZjhServer/Lib/Memory.lean

`memcmp`, and the order it gives: what differs first decides, and where nothing does up to the
common length the shorter one comes first.  That is the lexicographic order on the values of the
bytes (`lt_iff_difference`).
-/
import Mathlib.Data.List.Basic
import Mathlib.Order.Basic
import Mathlib.Tactic.Common

namespace Memory

/-- The first difference of two byte strings, up to the end of the shorter one. -/
def difference : List UInt8 → List UInt8 → Int
  | a :: s, b :: t => if a = b then difference s t else a.toNat - b.toNat
  | _, _ => 0

/-- `memcmp(s, t, n)`; `none` where it would read behind one of the two. -/
def memcmp (s t : List UInt8) (n : Nat) : Option Int :=
  if n ≤ s.length ∧ n ≤ t.length then some (difference (s.take n) (t.take n)) else none

/-- Only the common length counts. -/
theorem difference_take (s t : List UInt8) :
    difference (s.take (min s.length t.length)) (t.take (min s.length t.length)) =
      difference s t := by
  induction s generalizing t with
  | nil => cases t <;> rfl
  | cons a s ih =>
      cases t with
      | nil => rfl
      | cons b t =>
          rw [List.length_cons, List.length_cons, Nat.succ_min_succ, List.take_succ_cons,
            List.take_succ_cons, difference, difference, ih]

theorem memcmp_common {s t : List UInt8} (u v : List UInt8) :
    memcmp (s ++ u) (t ++ v) (min s.length t.length) = some (difference s t) := by
  rw [memcmp, if_pos (by simp only [List.length_append]; omega),
    List.take_append_of_le_length (Nat.min_le_left _ _),
    List.take_append_of_le_length (Nat.min_le_right _ _), difference_take]

theorem eq_iff_difference (s t : List UInt8) :
    s = t ↔ s.length = t.length ∧ difference s t = 0 := by
  induction s generalizing t with
  | nil => cases t <;> simp [difference]
  | cons a s ih =>
      cases t with
      | nil => simp
      | cons b t =>
          rw [difference]
          by_cases hab : a = b
          · rw [if_pos hab, List.cons.injEq, ih, List.length_cons, List.length_cons]
            simp only [hab, true_and, Nat.succ_inj]
          · have hne : (a.toNat : Int) - b.toNat ≠ 0 := by
              intro h
              exact hab (UInt8.toNat_inj.mp (by omega))
            rw [if_neg hab]
            simp only [List.cons.injEq, hab, hne, false_and, and_false]

/-- The values of the bytes. -/
def values (s : List UInt8) : List Nat := s.map UInt8.toNat

theorem values_inj {s t : List UInt8} : values s = values t ↔ s = t :=
  (List.map_injective_iff.mpr fun _ _ => UInt8.toNat_inj.mp).eq_iff

/-- **`memcmp` sorts like a dictionary.** -/
theorem lt_iff_difference (s t : List UInt8) :
    values s < values t ↔ difference s t < 0 ∨ difference s t = 0 ∧ s.length < t.length := by
  induction s generalizing t with
  | nil =>
      cases t with
      | nil => simp [difference, values]
      | cons b t => simp [difference, values]
  | cons a s ih =>
      cases t with
      | nil => simp [difference, values]
      | cons b t =>
          have hcons : values (a :: s) < values (b :: t) ↔
              a.toNat < b.toNat ∨ a.toNat = b.toNat ∧ values s < values t :=
            List.cons_lt_cons_iff
          rw [hcons, difference]
          by_cases hab : a = b
          · subst hab
            rw [if_pos rfl, ih, List.length_cons, List.length_cons, Nat.succ_lt_succ_iff]
            simp only [Nat.lt_irrefl, true_and, false_or]
          · have hne : a.toNat ≠ b.toNat := fun h => hab (UInt8.toNat_inj.mp h)
            rw [if_neg hab]
            simp only [hne, false_and, or_false]
            omega

end Memory
