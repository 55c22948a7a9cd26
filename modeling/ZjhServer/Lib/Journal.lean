/-
ZjhServer/Lib/Journal.lean

Journals of writes: an entry gives a key a value or takes its value away.  An entry is live
when it gives a value and no later entry is about its key; `live` lists these, in the order
they were written.

A further entry removes what is live of its key, and stands last (`live_append`).  So no key is
live twice (`live_nodup`), and a table is told by its journal (`lookup_append`).
-/
import Mathlib.Data.List.Nodup
import Mathlib.Tactic.Common

namespace Journal

variable {K V : Type*} [DecidableEq K]

/-- The entries that are live. -/
def live : List (K × Option V) → List (K × V)
  | [] => []
  | e :: later =>
      if ∃ d ∈ later, d.1 = e.1 then live later
      else
        match e.2 with
        | none => live later
        | some v => (e.1, v) :: live later

/-- The value a key has. -/
def lookup (l : List (K × Option V)) (k : K) : Option V :=
  ((live l).find? fun e => e.1 = k).map Prod.snd

theorem key_of_mem_live {l : List (K × Option V)} {e : K × V} (h : e ∈ live l) :
    ∃ d ∈ l, d.1 = e.1 := by
  induction l with
  | nil => exact absurd h List.not_mem_nil
  | cons f l ih =>
      have hlater : e ∈ live l → ∃ d ∈ f :: l, d.1 = e.1 := by
        intro he
        obtain ⟨d, hd, hde⟩ := ih he
        exact ⟨d, List.mem_cons_of_mem f hd, hde⟩
      rw [live] at h
      split_ifs at h with htouched
      · exact hlater h
      · obtain ⟨k, v⟩ := f
        cases v with
        | none => exact hlater h
        | some v =>
            rcases List.mem_cons.mp h with rfl | h
            · exact ⟨_, List.mem_cons_self, rfl⟩
            · exact hlater h

/-- **No key is live twice.** -/
theorem live_nodup (l : List (K × Option V)) : ((live l).map Prod.fst).Nodup := by
  induction l with
  | nil => exact List.nodup_nil
  | cons e l ih =>
      rw [live]
      split_ifs with htouched
      · exact ih
      · obtain ⟨k, v⟩ := e
        cases v with
        | none => exact ih
        | some v =>
            refine List.nodup_cons.mpr ⟨fun hmem => ?_, ih⟩
            obtain ⟨d, hd, hdk⟩ := List.mem_map.mp hmem
            obtain ⟨f, hf, hfd⟩ := key_of_mem_live hd
            exact htouched ⟨f, hf, hfd.trans hdk⟩

/-- **A further entry**: what was live of its key is not any more. -/
theorem live_append (l : List (K × Option V)) (k : K) (v : Option V) :
    live (l ++ [(k, v)]) =
      (live l).filter (fun e => e.1 ≠ k) ++ (v.map fun v => (k, v)).toList := by
  induction l with
  | nil =>
      cases v with
      | none => simp [live]
      | some v => simp [live]
  | cons e l ih =>
      rw [List.cons_append, live, live]
      by_cases htouched : ∃ d ∈ l, d.1 = e.1
      · -- an entry that is not live stays so
        have hlater : ∃ d ∈ l ++ [(k, v)], d.1 = e.1 := by
          obtain ⟨d, hd, hde⟩ := htouched
          exact ⟨d, List.mem_append_left _ hd, hde⟩
        rw [if_pos htouched, if_pos hlater, ih]
      · rw [if_neg htouched]
        by_cases hk : e.1 = k
        · -- the new entry is about the key of this one
          have hlater : ∃ d ∈ l ++ [(k, v)], d.1 = e.1 := ⟨(k, v), by simp, hk.symm⟩
          rw [if_pos hlater, ih]
          cases e.2 with
          | none => rfl
          | some u => rw [List.filter_cons_of_neg (by simpa using hk)]
        · have hlater : ¬∃ d ∈ l ++ [(k, v)], d.1 = e.1 := by
            rintro ⟨d, hd, hde⟩
            rcases List.mem_append.mp hd with hd | hd
            · exact htouched ⟨d, hd, hde⟩
            · rw [List.mem_singleton.mp hd] at hde
              exact hk hde.symm
          rw [if_neg hlater, ih]
          cases e.2 with
          | none => rfl
          | some u => rw [List.filter_cons_of_pos (by simpa using hk), List.cons_append]

theorem lookup_append (l : List (K × Option V)) (k : K) (v : Option V) (k' : K) :
    lookup (l ++ [(k, v)]) k' = if k = k' then v else lookup l k' := by
  rw [lookup, live_append, List.find?_append, List.find?_filter]
  by_cases hk : k = k'
  · subst hk
    have hnone : (live l).find?
        (fun e => decide (decide (e.1 ≠ k) = true ∧ decide (e.1 = k) = true)) = none := by
      rw [List.find?_eq_none]
      simp
    rw [if_pos rfl, hnone]
    cases v <;> simp
  · have hsame : (fun e : K × V => decide (decide (e.1 ≠ k) = true ∧ decide (e.1 = k') = true)) =
        fun e => decide (e.1 = k') := by
      funext e
      by_cases he : e.1 = k'
      · rw [he]
        simp [Ne.symm hk]
      · simp [he]
    rw [if_neg hk, hsame, lookup]
    cases v with
    | none => simp
    | some v => simp [hk]

end Journal
