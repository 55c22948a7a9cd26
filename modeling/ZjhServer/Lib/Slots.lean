/-
ZjhServer/Lib/Slots.lean

Tables of slots that may be empty: a vector of pointers, indexed by small numbers,
that grows when a slot behind its end is filled.  A slot that is not there reads as an
empty one, so all there is to say of a table is what `get` finds, and growing it says
nothing new (`get_resize`).
-/
import Mathlib.Data.List.Basic

abbrev Slots (α : Type) := List (Option α)

namespace Slots

variable {α : Type}

def get (table : Slots α) (i : Nat) : Option α := (table[i]?).join

/-- Behind the end the slots are new. -/
def resize (table : Slots α) (size : Nat) : Slots α :=
  table.take size ++ List.replicate (size - table.length) none

/-- Filling a slot, for which the table grows if it is behind the end. -/
def fill (table : Slots α) (size i : Nat) (a : α) : Slots α :=
  let table := if i ≥ table.length then resize table size else table
  table.set i (some a)

theorem get_replicate (n i : Nat) : get (List.replicate n (none : Option α)) i = none := by
  unfold get
  rcases h : (List.replicate n (none : Option α))[i]? with _ | slot
  · rfl
  · obtain rfl := List.eq_of_mem_replicate (List.mem_of_getElem? h)
    rfl

theorem get_of_le {table : Slots α} {i : Nat} (h : table.length ≤ i) : get table i = none := by
  unfold get
  rw [List.getElem?_eq_none h]
  rfl

theorem lt_of_get {table : Slots α} {i : Nat} {a : α} (h : get table i = some a) :
    i < table.length := by
  by_contra hlt
  rw [get_of_le (Nat.le_of_not_lt hlt)] at h
  cases h

theorem length_resize (table : Slots α) (size : Nat) : (resize table size).length = size := by
  simp only [resize, List.length_append, List.length_take, List.length_replicate]
  omega

/-- **Growing** a table shows nowhere. -/
theorem get_resize {table : Slots α} {size : Nat} (h : table.length ≤ size) (i : Nat) :
    get (resize table size) i = get table i := by
  unfold resize
  rw [List.take_of_length_le h]
  rcases Nat.lt_or_ge i table.length with hi | hi
  · unfold get
    rw [List.getElem?_append_left hi]
  · rw [get_of_le hi]
    show ((table ++ _)[i]?).join = none
    rw [List.getElem?_append_right hi]
    exact get_replicate _ _

/-- **Writing** a slot shows there and nowhere else. -/
theorem get_set {table : Slots α} {i : Nat} (h : i < table.length) (a : Option α) (j : Nat) :
    get (table.set i a) j = if j = i then a else get table j := by
  unfold get
  rw [List.getElem?_set]
  split_ifs with hi hj hj
  · rfl
  · exact absurd hi.symm hj
  · exact absurd hj.symm hi
  · rfl

/-- **Filling** a slot shows there and nowhere else, in a table that does not get shorter than
`least`. -/
theorem fill_spec {table : Slots α} {size i least : Nat} (hleast : least ≤ table.length)
    (hroom : table.length ≤ i → i < size) (a : α) :
    least ≤ (fill table size i a).length ∧
      ∀ j, get (fill table size i a) j = if j = i then some a else get table j := by
  unfold fill
  split_ifs with hi
  · have hlt := hroom hi
    have hlen := length_resize table size
    have hgrow : table.length ≤ size := Nat.le_of_lt (Nat.lt_of_le_of_lt hi hlt)
    refine ⟨by rw [List.length_set]; omega, fun j => ?_⟩
    rw [get_set (by omega), get_resize hgrow]
  · exact ⟨by rw [List.length_set]; exact hleast, get_set (by omega) _⟩

end Slots
