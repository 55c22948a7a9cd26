/-
ZjhServer/Lib/CString.lean

Reading a string through pointers, as C does.  The last character that may be read is the
terminator behind the string; `none` is a read behind that.

`memchr` finds the first place of a character, and does not leave the string (`memchr_none`,
`memchr_some`).
-/
import Mathlib.Data.List.Basic
import Mathlib.Tactic.Common

namespace CString

/-- `s.c_str()[i]`, where the terminator is the last character there is. -/
def charAt (s : List Char) (i : Nat) : Option Char :=
  if i < s.length then s[i]? else if i = s.length then some '\x00' else none

/-- `memchr(s.c_str() + p, c, n)`, as a position in the string. -/
def memchr (s : List Char) (p : Nat) (c : Char) : Nat → Option (Option Nat)
  | 0 => some none
  | n + 1 => do
      let x ← charAt s p
      if x = c then some (some p) else memchr s (p + 1) c n

/-! ### Reads inside the string -/

theorem charAt_append (a : List Char) (c : Char) (s : List Char) :
    charAt (a ++ c :: s) a.length = some c := by
  rw [charAt, if_pos (by simp)]
  simp

theorem charAt_end (a : List Char) : charAt a a.length = some '\x00' := by
  rw [charAt, if_neg (Nat.lt_irrefl _), if_pos rfl]

/-- A search that fails stays inside the string. -/
theorem memchr_none {c : Char} {s : List Char} (h : c ∉ s) (a : List Char) :
    memchr (a ++ s) a.length c s.length = some none := by
  induction s generalizing a with
  | nil => rfl
  | cons x s ih =>
      have hne : ¬x = c := fun heq => h (heq ▸ List.mem_cons_self)
      have hrest := ih (fun hmem => h (List.mem_cons_of_mem x hmem)) (a ++ [x])
      rw [List.append_assoc, List.singleton_append, List.length_append] at hrest
      rw [List.length_cons, memchr, charAt_append]
      show (if x = c then _ else _) = _
      rw [if_neg hne]
      exact hrest

/-- One that succeeds ends at the first place. -/
theorem memchr_some {c : Char} {x : List Char} (h : c ∉ x) (a y : List Char) :
    memchr (a ++ (x ++ c :: y)) a.length c (x ++ c :: y).length =
      some (some (a.length + x.length)) := by
  induction x generalizing a with
  | nil =>
      rw [List.nil_append, List.length_cons, memchr, charAt_append]
      exact if_pos rfl
  | cons b x ih =>
      have hne : ¬b = c := fun heq => h (heq ▸ List.mem_cons_self)
      have hrest := ih (fun hmem => h (List.mem_cons_of_mem b hmem)) (a ++ [b])
      rw [List.append_assoc, List.singleton_append, List.length_append, List.length_singleton,
        Nat.add_assoc, Nat.add_comm 1] at hrest
      rw [List.cons_append, List.length_cons, memchr, charAt_append]
      show (if b = c then _ else _) = _
      rw [if_neg hne]
      exact hrest

/-- The first place of a character splits a string in one way. -/
theorem append_cons_inj {c : Char} {a b s t : List Char} (ha : c ∉ a) (hb : c ∉ b)
    (h : a ++ c :: s = b ++ c :: t) : a = b ∧ s = t := by
  induction a generalizing b with
  | nil =>
      cases b with
      | nil => exact ⟨rfl, (List.cons_eq_cons.mp h).2⟩
      | cons x b => exact absurd ((List.cons_eq_cons.mp h).1 ▸ List.mem_cons_self) hb
  | cons y a ih =>
      cases b with
      | nil => exact absurd ((List.cons_eq_cons.mp h).1 ▸ List.mem_cons_self) ha
      | cons x b =>
          obtain ⟨rfl, hrest⟩ := List.cons_eq_cons.mp h
          obtain ⟨rfl, rfl⟩ := ih (fun hmem => ha (List.mem_cons_of_mem y hmem))
            (fun hmem => hb (List.mem_cons_of_mem y hmem)) hrest
          exact ⟨rfl, rfl⟩

end CString
