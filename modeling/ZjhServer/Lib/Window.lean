/-
ZjhServer/Lib/Window.lean

Windows of a list: reading the `n` entries from position `p` on (`slice`) and
overwriting the entries from position `p` on (`splice`).  Neither ever changes
a length, so a list of fixed-size blocks can be cut and concatenated freely:

* `slice_append_*`, `splice_append_*` say what a window of `l ++ r` is in terms
  of windows of `l` and of `r` (left of the seam, right of it);
* `getElem?_slice`, `getElem?_splice` are the pointwise specifications from
  which everything else follows.
-/
import Mathlib.Data.List.Basic
import Mathlib.Tactic.Ring

namespace Window

variable {α : Type*}

/-- The (at most) `n` entries of `l` from position `p` on. -/
def slice (l : List α) (p n : Nat) : List α := (l.drop p).take n

/-- `l` with the entries from position `p` on overwritten by `d`; what would
fall behind the end of `l` is dropped, so the length never changes. -/
def splice (l : List α) (p : Nat) (d : List α) : List α :=
  l.take p ++ d.take (l.length - p) ++ l.drop (p + d.length)

/-! ### Pointwise specifications -/

theorem getElem?_slice (l : List α) (p n i : Nat) :
    (slice l p n)[i]? = if i < n then l[p + i]? else none := by
  simp only [slice, List.getElem?_take, List.getElem?_drop]

@[simp] theorem length_splice (l : List α) (p : Nat) (d : List α) :
    (splice l p d).length = l.length := by
  simp only [splice, List.length_append, List.length_take, List.length_drop]
  omega

theorem getElem?_splice (l : List α) (p : Nat) (d : List α) (i : Nat) (hi : i < l.length) :
    (splice l p d)[i]? =
      if p ≤ i ∧ i < p + d.length then d[i - p]? else l[i]? := by
  simp only [splice, List.getElem?_append, List.length_append, List.length_take,
    List.getElem?_take, List.getElem?_drop]
  split_ifs <;> first | rfl | omega | (congr 1; omega)

/-- Two lists of one length that agree at every index of it are equal. -/
theorem ext_lt {l r : List α} (hlen : l.length = r.length)
    (h : ∀ i, i < l.length → l[i]? = r[i]?) : l = r := by
  apply List.ext_getElem?
  intro i
  by_cases hi : i < l.length
  · exact h i hi
  · rw [List.getElem?_eq_none (by omega), List.getElem?_eq_none (by omega)]

/-! ### Slices -/

theorem length_slice (l : List α) (p n : Nat) :
    (slice l p n).length = min n (l.length - p) := by
  simp [slice]

@[simp] theorem slice_zero (l : List α) (p : Nat) : slice l p 0 = [] := by
  simp [slice]

theorem slice_add (l : List α) (p m n : Nat) :
    slice l p (m + n) = slice l p m ++ slice l (p + m) n := by
  simp only [slice, List.take_add, List.drop_drop]

theorem slice_append_left {l r : List α} {p n : Nat} (h : p + n ≤ l.length) :
    slice (l ++ r) p n = slice l p n := by
  simp only [slice, List.drop_append, List.take_append, List.length_drop]
  rw [show n - (l.length - p) = 0 by omega]
  simp

theorem slice_append_right {l r : List α} {p n : Nat} (h : l.length ≤ p) :
    slice (l ++ r) p n = slice r (p - l.length) n := by
  simp only [slice, List.drop_append, List.drop_eq_nil_of_le h, List.nil_append]

/-! ### Splices -/

@[simp] theorem splice_nil (l : List α) (p : Nat) : splice l p [] = l := by
  simp [splice]

theorem splice_append_left {l r : List α} {p : Nat} {d : List α}
    (h : p + d.length ≤ l.length) : splice (l ++ r) p d = splice l p d ++ r := by
  apply ext_lt (by simp)
  intro i hi
  have hi' : i < (l ++ r).length := by simpa using hi
  rw [getElem?_splice _ _ _ _ hi']
  by_cases hl : i < l.length
  · have hl' : i < (splice l p d).length := by simpa using hl
    rw [List.getElem?_append_left hl, List.getElem?_append_left hl', getElem?_splice _ _ _ _ hl]
  · rw [if_neg (by omega), List.getElem?_append_right (by omega),
      List.getElem?_append_right (by simpa using hl), length_splice]

theorem splice_append_right {l r : List α} {p : Nat} {d : List α} (h : l.length ≤ p) :
    splice (l ++ r) p d = l ++ splice r (p - l.length) d := by
  apply ext_lt (by simp)
  intro i hi
  have hi' : i < (l ++ r).length := by simpa using hi
  rw [getElem?_splice _ _ _ _ hi']
  by_cases hl : i < l.length
  · rw [if_neg (by omega), List.getElem?_append_left hl, List.getElem?_append_left hl]
  · have hr : i - l.length < r.length := by
      rw [List.length_append] at hi'; omega
    rw [List.getElem?_append_right (by omega), List.getElem?_append_right (by omega),
      getElem?_splice _ _ _ _ hr]
    have hcond : (p ≤ i ∧ i < p + d.length) ↔
        (p - l.length ≤ i - l.length ∧ i - l.length < p - l.length + d.length) := by omega
    simp only [hcond]
    split_ifs
    · congr 1; omega
    · rfl

/-- Overwriting in two consecutive pieces is overwriting with both. -/
theorem splice_splice (l : List α) (p : Nat) (a b : List α) :
    splice (splice l p a) (p + a.length) b = splice l p (a ++ b) := by
  apply ext_lt (by simp)
  intro i hi
  have hi' : i < l.length := by simpa using hi
  rw [getElem?_splice _ _ _ _ (by simpa using hi'), getElem?_splice _ _ _ _ hi',
    getElem?_splice _ _ _ _ hi', List.length_append]
  by_cases hb : p + a.length ≤ i
  · rw [List.getElem?_append_right (by omega)]
    split_ifs <;> first | rfl | omega | (congr 1; omega)
  · by_cases ha : p ≤ i
    · rw [List.getElem?_append_left (by omega)]
      split_ifs <;> first | rfl | omega
    · split_ifs <;> first | rfl | omega

/-- Reading back what was just written. -/
theorem slice_splice_self {l : List α} {p : Nat} {d : List α} (h : p + d.length ≤ l.length) :
    slice (splice l p d) p d.length = d := by
  apply ext_lt (by rw [length_slice, length_splice]; omega)
  intro i hi
  rw [length_slice, length_splice] at hi
  rw [getElem?_slice, if_pos (by omega), getElem?_splice _ _ _ _ (by omega),
    if_pos (by omega)]
  congr 1
  omega

/-- A window that the splice does not meet is unchanged. -/
theorem slice_splice_of_disjoint {l : List α} {p q n : Nat} {d : List α}
    (h : q + n ≤ p ∨ p + d.length ≤ q) : slice (splice l p d) q n = slice l q n := by
  apply ext_lt (by simp [length_slice])
  intro i hi
  rw [length_slice, length_splice] at hi
  rw [getElem?_slice, getElem?_slice, if_pos (by omega), if_pos (by omega),
    getElem?_splice _ _ _ _ (by omega), if_neg (by omega)]

/-! ### Uniform blocks

A list cut into blocks of one size `B`: entry `p` of block `i` is entry
`B * i + p` of the whole. -/

/-- Every block of `bs` has length `B`. -/
def Uniform (B : Nat) (bs : List (List α)) : Prop := ∀ b ∈ bs, b.length = B

theorem Uniform.tail {B : Nat} {b : List α} {bs : List (List α)} (h : Uniform B (b :: bs)) :
    Uniform B bs := fun c hc => h c (List.mem_cons_of_mem _ hc)

theorem Uniform.head {B : Nat} {b : List α} {bs : List (List α)} (h : Uniform B (b :: bs)) :
    b.length = B := h b (List.mem_cons_self ..)

theorem Uniform.length_flatten {B : Nat} {bs : List (List α)} (h : Uniform B bs) :
    bs.flatten.length = B * bs.length := by
  induction bs with
  | nil => rfl
  | cons b bs ih =>
      rw [List.flatten_cons, List.length_append, h.head, ih h.tail, List.length_cons]
      ring

/-- A window inside block `i`. -/
theorem Uniform.slice_flatten {B : Nat} {bs : List (List α)} (h : Uniform B bs) {i p n : Nat}
    {b : List α} (hb : bs[i]? = some b) (hp : p + n ≤ B) :
    slice bs.flatten (B * i + p) n = slice b p n := by
  induction bs generalizing i with
  | nil => cases hb
  | cons c bs ih =>
      rw [List.flatten_cons]
      cases i with
      | zero =>
          obtain rfl : c = b := by simpa using hb
          rw [Nat.mul_zero, Nat.zero_add, slice_append_left (by rw [h.head]; exact hp)]
      | succ i =>
          have hc := h.head
          have hle : B * (i + 1) + p = c.length + (B * i + p) := by rw [hc]; ring
          rw [slice_append_right (by omega), hle, Nat.add_sub_cancel_left]
          exact ih h.tail (by simpa using hb)

/-- Overwriting inside block `i`. -/
theorem Uniform.splice_flatten {B : Nat} {bs : List (List α)} (h : Uniform B bs) {i p : Nat}
    {d : List α} (hi : i < bs.length) (hp : p + d.length ≤ B) :
    (bs.modify i (splice · p d)).flatten = splice bs.flatten (B * i + p) d := by
  induction bs generalizing i with
  | nil => cases hi
  | cons c bs ih =>
      cases i with
      | zero =>
          rw [List.modify_zero_cons, List.flatten_cons, List.flatten_cons, Nat.mul_zero,
            Nat.zero_add, splice_append_left (by rw [h.head]; exact hp)]
      | succ i =>
          have hc := h.head
          have hle : B * (i + 1) + p = c.length + (B * i + p) := by rw [hc]; ring
          rw [List.modify_succ_cons, List.flatten_cons, List.flatten_cons,
            ih h.tail (by simpa using hi), hle, splice_append_right (by omega),
            Nat.add_sub_cancel_left]

end Window
