/-
ZjhServer/Lib/OrderedMap.lean

`std::map` as a list sorted by a comparison of keys, with assignment to a key and erasing a key
as its changes.

Two keys are one key when neither comes before the other.  Assigning to a key that is there
keeps the key as it was first spelt, so a map made by assignments gives each key its
first spelling and its last value, and is known by these (`ofList_eq_iff`).
-/
import Mathlib.Data.List.Induction
import Mathlib.Order.Lattice
import Mathlib.Tactic.Common

namespace OrderedMap

variable {K V O : Type}

/-- `m.find(key)` -/
def find (lt : K → K → Bool) (m : List (K × V)) (key : K) : Option V :=
  match List.find? (fun e => !lt e.1 key) m with
  | none => none
  | some e => if lt key e.1 then none else some e.2

/-- `m[key] = val` -/
def set (lt : K → K → Bool) (key : K) (val : V) : List (K × V) → List (K × V)
  | [] => [(key, val)]
  | e :: m =>
      if lt e.1 key then e :: set lt key val m
      else if lt key e.1 then (key, val) :: e :: m
      else (e.1, val) :: m

/-- `m.erase(key)` -/
def erase (lt : K → K → Bool) (key : K) (m : List (K × V)) : List (K × V) :=
  m.filter fun e => lt e.1 key || lt key e.1

/-- The map of a list of assignments. -/
def ofList (lt : K → K → Bool) (l : List (K × V)) : List (K × V) :=
  l.foldl (fun m e => set lt e.1 e.2 m) []

/-- Neither key comes before the other. -/
def same (lt : K → K → Bool) (key key' : K) : Bool := !lt key key' && !lt key' key

/-- The key as it is first spelt in the list. -/
def firstKey (lt : K → K → Bool) (l : List (K × V)) (key : K) : Option K :=
  (l.find? fun e => same lt e.1 key).map Prod.fst

/-- The last value the list has for the key. -/
def lastValue (lt : K → K → Bool) (l : List (K × V)) (key : K) : Option V :=
  (l.reverse.find? fun e => same lt e.1 key).map Prod.snd

/-- The comparison is that of a rank. -/
def Ranks [LinearOrder O] (lt : K → K → Bool) (rank : K → O) : Prop :=
  ∀ key key', lt key key' = true ↔ rank key < rank key'

section

variable [LinearOrder O] {lt : K → K → Bool} {rank : K → O}

theorem same_iff (hrank : Ranks lt rank) {key key' : K} :
    same lt key key' = true ↔ rank key = rank key' := by
  rw [same, Bool.and_eq_true, Bool.not_eq_true', Bool.not_eq_true', Bool.eq_false_iff,
    Bool.eq_false_iff, Ne, Ne, hrank, hrank, not_lt, not_lt]
  exact ⟨fun h => le_antisymm h.2 h.1, fun h => ⟨h.ge, h.le⟩⟩

/-- Sorted, each key once. -/
def Sorted (rank : K → O) (m : List (K × V)) : Prop := m.Pairwise fun e e' => rank e.1 < rank e'.1

/-- What the map has of a rank. -/
def entry (rank : K → O) (m : List (K × V)) (r : O) : Option (K × V) :=
  m.find? fun e => rank e.1 = r

/-- Nothing of a rank that is before all others. -/
theorem entry_none {m : List (K × V)} {r : O} (h : ∀ e ∈ m, r < rank e.1) :
    entry rank m r = none :=
  List.find?_eq_none.mpr fun e he heq => (h e he).ne' (of_decide_eq_true heq)

theorem entry_cons (e : K × V) (m : List (K × V)) (r : O) :
    entry rank (e :: m) r = if rank e.1 = r then some e else entry rank m r := by
  rw [entry, List.find?_cons]
  split_ifs with h
  · rw [decide_eq_true h]
  · rw [decide_eq_false h]
    rfl

/-- Assignment changes the entry of its key, and of that one only. -/
theorem entry_set (hrank : Ranks lt rank) {m : List (K × V)} (h : Sorted rank m) (key : K)
    (val : V) (r : O) :
    entry rank (set lt key val m) r =
      if rank key = r then some (((entry rank m r).map Prod.fst).getD key, val)
      else entry rank m r := by
  induction m with
  | nil => rw [set, entry_cons]; rfl
  | cons e m ih =>
      obtain ⟨hfirst, hrest⟩ := List.pairwise_cons.mp h
      rw [set, entry_cons]
      -- the first entry comes before the key, behind it, or has its rank
      by_cases hlt : lt e.1 key = true
      · have hne := ((hrank _ _).mp hlt).ne
        rw [if_pos hlt, entry_cons, ih hrest]
        by_cases he : rank e.1 = r
        · rw [if_pos he, if_pos he, if_neg (he ▸ hne.symm)]
        · rw [if_neg he, if_neg he]
      · rw [if_neg hlt]
        by_cases hgt : lt key e.1 = true
        · have hlt' := (hrank _ _).mp hgt
          rw [if_pos hgt, entry_cons, entry_cons]
          by_cases hr : rank key = r
          · rw [if_pos hr, if_pos hr, if_neg (hr ▸ hlt'.ne'),
              entry_none fun d hd => hr ▸ hlt'.trans (hfirst d hd)]
            rfl
          · rw [if_neg hr, if_neg hr]
        · have heq : rank e.1 = rank key :=
            le_antisymm (not_lt.mp fun hl => hgt ((hrank _ _).mpr hl))
              (not_lt.mp fun hl => hlt ((hrank _ _).mpr hl))
          rw [if_neg hgt, entry_cons]
          by_cases hr : rank key = r
          · rw [if_pos (heq.trans hr), if_pos hr, if_pos (heq.trans hr)]
            rfl
          · rw [if_neg (heq ▸ hr), if_neg hr, if_neg (heq ▸ hr)]

theorem mem_set {m : List (K × V)} {key : K} {val : V} {e : K × V} (h : e ∈ set lt key val m) :
    e.1 = key ∨ ∃ d ∈ m, d.1 = e.1 := by
  induction m with
  | nil => exact .inl (by rw [List.mem_singleton.mp h])
  | cons d m ih =>
      rw [set] at h
      split_ifs at h with hlt hgt
      · rcases List.mem_cons.mp h with rfl | h
        · exact .inr ⟨e, List.mem_cons_self .., rfl⟩
        · exact (ih h).imp_right fun ⟨d', hd', heq⟩ => ⟨d', List.mem_cons_of_mem _ hd', heq⟩
      · rcases List.mem_cons.mp h with rfl | h
        · exact .inl rfl
        · exact .inr ⟨e, h, rfl⟩
      · rcases List.mem_cons.mp h with rfl | h
        · exact .inr ⟨d, List.mem_cons_self .., rfl⟩
        · exact .inr ⟨e, List.mem_cons_of_mem _ h, rfl⟩

theorem set_sorted (hrank : Ranks lt rank) {m : List (K × V)} (h : Sorted rank m) (key : K)
    (val : V) : Sorted rank (set lt key val m) := by
  induction m with
  | nil => exact List.pairwise_singleton _ _
  | cons e m ih =>
      obtain ⟨hfirst, hrest⟩ := List.pairwise_cons.mp h
      rw [set]
      split_ifs with hlt hgt
      · refine List.pairwise_cons.mpr ⟨fun d hd => ?_, ih hrest⟩
        rcases mem_set hd with hkey | ⟨d', hd', heq⟩
        · exact hkey ▸ (hrank _ _).mp hlt
        · exact heq ▸ hfirst d' hd'
      · refine List.pairwise_cons.mpr ⟨fun d hd => ?_, h⟩
        have hkey := (hrank _ _).mp hgt
        rcases List.mem_cons.mp hd with rfl | hd
        · exact hkey
        · exact hkey.trans (hfirst d hd)
      · exact List.pairwise_cons.mpr ⟨hfirst, hrest⟩

/-- A sorted map is known by its entries. -/
theorem Sorted.ext {m m' : List (K × V)} (h : Sorted rank m) (h' : Sorted rank m')
    (hentry : ∀ r, entry rank m r = entry rank m' r) : m = m' := by
  induction m generalizing m' with
  | nil =>
      cases m' with
      | nil => rfl
      | cons e' m' =>
          have := hentry (rank e'.1)
          rw [entry_cons, if_pos rfl] at this
          cases this
  | cons e m ih =>
      obtain ⟨hfirst, hrest⟩ := List.pairwise_cons.mp h
      cases m' with
      | nil =>
          have := hentry (rank e.1)
          rw [entry_cons, if_pos rfl] at this
          cases this
      | cons e' m' =>
          obtain ⟨hfirst', hrest'⟩ := List.pairwise_cons.mp h'
          -- the smallest rank of each is the smallest of both
          have hranks : rank e.1 = rank e'.1 := by
            rcases lt_trichotomy (rank e.1) (rank e'.1) with hlt | heq | hgt
            · have := hentry (rank e.1)
              rw [entry_cons, if_pos rfl, entry_cons, if_neg hlt.ne',
                entry_none fun d hd => hlt.trans (hfirst' d hd)] at this
              cases this
            · exact heq
            · have := hentry (rank e'.1)
              rw [entry_cons, if_neg hgt.ne', entry_cons, if_pos rfl,
                entry_none fun d hd => hgt.trans (hfirst d hd)] at this
              cases this
          have hhead := hentry (rank e.1)
          rw [entry_cons, if_pos rfl, entry_cons, if_pos hranks.symm] at hhead
          obtain rfl := Option.some.inj hhead
          congr 1
          refine ih hrest hrest' fun r => ?_
          by_cases hr : rank e.1 = r
          · rw [entry_none (hr ▸ hfirst), entry_none (hr ▸ hfirst')]
          · have := hentry r
            rwa [entry_cons, if_neg hr, entry_cons, if_neg hr] at this

/-- Finding a key in a sorted map. -/
theorem Sorted.find_eq (hrank : Ranks lt rank) {m : List (K × V)} (h : Sorted rank m) (key : K) :
    find lt m key = (entry rank m (rank key)).map Prod.snd := by
  induction m with
  | nil => rfl
  | cons e m ih =>
      obtain ⟨hfirst, hrest⟩ := List.pairwise_cons.mp h
      have hfind : find lt (e :: m) key =
          if lt e.1 key then find lt m key else if lt key e.1 then none else some e.2 := by
        rw [find, List.find?_cons]
        cases lt e.1 key with
        | true => rfl
        | false => rfl
      rw [hfind, entry_cons, ih hrest]
      by_cases hlt : lt e.1 key = true
      · rw [if_pos hlt, if_neg ((hrank _ _).mp hlt).ne]
      · rw [if_neg hlt]
        by_cases hgt : lt key e.1 = true
        · have hless := (hrank _ _).mp hgt
          rw [if_pos hgt, if_neg hless.ne', entry_none fun d hd => hless.trans (hfirst d hd)]
          rfl
        · have heq : rank e.1 = rank key :=
            le_antisymm (not_lt.mp fun hl => hgt ((hrank _ _).mpr hl))
              (not_lt.mp fun hl => hlt ((hrank _ _).mpr hl))
          rw [if_neg hgt, if_pos heq]
          rfl

/-- Erasing removes the entry of its key, and no other. -/
theorem entry_erase (hrank : Ranks lt rank) (m : List (K × V)) (key : K) (r : O) :
    entry rank (erase lt key m) r = if rank key = r then none else entry rank m r := by
  induction m with
  | nil => rw [erase, List.filter_nil]; exact (ite_self none).symm
  | cons e m ih =>
      rw [erase, List.filter_cons, ← erase, entry_cons]
      by_cases heq : rank e.1 = rank key
      · have hnone : (lt e.1 key || lt key e.1) = false := by
          rw [Bool.or_eq_false_iff, Bool.eq_false_iff, Bool.eq_false_iff, Ne, Ne, hrank, hrank]
          exact ⟨heq.not_lt, heq.not_gt⟩
        rw [if_neg (by rw [hnone]; exact Bool.false_ne_true), ih, heq]
        by_cases hr : rank key = r
        · rw [if_pos hr, if_pos hr]
        · rw [if_neg hr, if_neg hr, if_neg hr]
      · have hsome : (lt e.1 key || lt key e.1) = true := by
          rw [Bool.or_eq_true, hrank, hrank]
          exact lt_or_gt_of_ne heq
        rw [if_pos hsome, entry_cons, ih]
        by_cases hr : rank e.1 = r
        · rw [if_pos hr, if_pos hr, if_neg (hr ▸ Ne.symm heq)]
        · rw [if_neg hr, if_neg hr]

theorem erase_sorted {m : List (K × V)} (h : Sorted rank m) (key : K) :
    Sorted rank (erase lt key m) := h.filter _

/-- What is found after an assignment. -/
theorem Sorted.find_set (hrank : Ranks lt rank) {m : List (K × V)} (h : Sorted rank m)
    (key : K) (val : V) (key' : K) :
    find lt (set lt key val m) key' =
      if rank key = rank key' then some val else find lt m key' := by
  rw [(set_sorted hrank h key val).find_eq hrank, h.find_eq hrank, entry_set hrank h]
  by_cases hr : rank key = rank key'
  · rw [if_pos hr, if_pos hr]
    rfl
  · rw [if_neg hr, if_neg hr]

/-- What is found after a key is erased. -/
theorem Sorted.find_erase (hrank : Ranks lt rank) {m : List (K × V)} (h : Sorted rank m)
    (key key' : K) :
    find lt (erase lt key m) key' = if rank key = rank key' then none else find lt m key' := by
  rw [(erase_sorted h key).find_eq hrank, h.find_eq hrank, entry_erase hrank]
  by_cases hr : rank key = rank key'
  · rw [if_pos hr, if_pos hr]
    rfl
  · rw [if_neg hr, if_neg hr]

/-- Assignments to different keys, in either order. -/
theorem set_comm (hrank : Ranks lt rank) {m : List (K × V)} (h : Sorted rank m) {key key' : K}
    (hne : rank key ≠ rank key') (val val' : V) :
    set lt key val (set lt key' val' m) = set lt key' val' (set lt key val m) := by
  have hset := set_sorted hrank h key val
  have hset' := set_sorted hrank h key' val'
  refine (set_sorted hrank hset' key val).ext (set_sorted hrank hset key' val') fun r => ?_
  rw [entry_set hrank hset', entry_set hrank hset, entry_set hrank h, entry_set hrank h]
  by_cases hr : rank key = r
  · rw [if_pos hr, if_pos hr, if_neg (hr ▸ hne.symm), if_neg (hr ▸ hne.symm)]
  · rw [if_neg hr, if_neg hr]

/-- A key after all of the map. -/
theorem set_last (hrank : Ranks lt rank) {m : List (K × V)} {e : K × V}
    (h : ∀ d ∈ m, rank d.1 < rank e.1) : set lt e.1 e.2 m = m ++ [e] := by
  induction m with
  | nil => rfl
  | cons d m ih =>
      rw [set, if_pos ((hrank _ _).mpr (h d (List.mem_cons_self ..))),
        ih fun d hd => h d (List.mem_cons_of_mem _ hd)]
      rfl

/-- No key has the rank. -/
theorem entry_eq_none {m : List (K × V)} {r : O} (h : ∀ e ∈ m, rank e.1 ≠ r) :
    entry rank m r = none :=
  List.find?_eq_none.mpr fun e he heq => h e he (of_decide_eq_true heq)

theorem entry_isSome {m : List (K × V)} {e : K × V} (h : e ∈ m) :
    (entry rank m (rank e.1)).isSome := by
  rw [entry, List.find?_isSome]
  exact ⟨e, h, decide_eq_true rfl⟩

/-! ### Lists of assignments -/

theorem ofList_append (l : List (K × V)) (e : K × V) :
    ofList lt (l ++ [e]) = set lt e.1 e.2 (ofList lt l) := by
  rw [ofList, List.foldl_append]
  rfl

theorem ofList_sorted (hrank : Ranks lt rank) (l : List (K × V)) : Sorted rank (ofList lt l) := by
  induction l using List.reverseRecOn with
  | nil => exact List.Pairwise.nil
  | append_singleton l e ih =>
      rw [ofList_append]
      exact set_sorted hrank ih e.1 e.2

/-- A sorted map is made by assigning what it has. -/
theorem Sorted.ofList_eq (hrank : Ranks lt rank) {m : List (K × V)} (h : Sorted rank m) :
    ofList lt m = m := by
  induction m using List.reverseRecOn with
  | nil => rfl
  | append_singleton m e ih =>
      obtain ⟨hfront, -, hlast⟩ := List.pairwise_append.mp h
      rw [ofList_append, ih hfront]
      exact set_last hrank fun d hd => hlast d hd e (List.mem_singleton_self e)

/-- An assignment made first, if its key is not assigned to again. -/
theorem ofList_cons (hrank : Ranks lt rank) {l : List (K × V)} {e : K × V}
    (h : ∀ d ∈ l, rank e.1 ≠ rank d.1) : ofList lt (e :: l) = set lt e.1 e.2 (ofList lt l) := by
  induction l using List.reverseRecOn with
  | nil => rfl
  | append_singleton l d ih =>
      rw [← List.cons_append, ofList_append, ofList_append,
        ih fun d hd => h d (List.mem_append_left _ hd),
        set_comm hrank (ofList_sorted hrank l)
          (h d (List.mem_append_right _ (List.mem_singleton_self d)))]

/-- Of a key the map has its first spelling and its last value. -/
theorem entry_ofList (hrank : Ranks lt rank) (l : List (K × V)) (key : K) :
    (entry rank (ofList lt l) (rank key)).map Prod.fst = firstKey lt l key ∧
      (entry rank (ofList lt l) (rank key)).map Prod.snd = lastValue lt l key := by
  induction l using List.reverseRecOn with
  | nil => exact ⟨rfl, rfl⟩
  | append_singleton l e ih =>
      rw [ofList_append, entry_set hrank (ofList_sorted hrank l), firstKey, lastValue,
        List.find?_append, List.reverse_append, List.reverse_singleton, List.singleton_append,
        List.find?_cons, List.find?_cons]
      by_cases hkey : rank e.1 = rank key
      · rw [if_pos hkey, (same_iff hrank).mpr hkey]
        refine ⟨?_, rfl⟩
        rw [Option.map_some, ih.1, firstKey]
        cases l.find? fun e => same lt e.1 key with
        | none => rfl
        | some d => rfl
      · rw [if_neg hkey, Bool.eq_false_iff.mpr (mt (same_iff hrank).mp hkey)]
        rw [ih.1, ih.2, firstKey, lastValue, List.find?_nil, Option.or_none]
        exact ⟨rfl, rfl⟩

/-- **A map made by assignments** is known by the first spelling and the last value of each
key. -/
theorem ofList_eq_iff (hrank : Ranks lt rank) (l l' : List (K × V)) :
    ofList lt l = ofList lt l' ↔
      ∀ key, firstKey lt l key = firstKey lt l' key ∧ lastValue lt l key = lastValue lt l' key := by
  constructor
  · intro h key
    rw [← (entry_ofList hrank l key).1, ← (entry_ofList hrank l key).2, h]
    exact entry_ofList hrank l' key
  · intro h
    refine (ofList_sorted hrank l).ext (ofList_sorted hrank l') fun r => ?_
    by_cases hr : ∃ key, rank key = r
    · obtain ⟨key, rfl⟩ := hr
      obtain ⟨hfst, hsnd⟩ := entry_ofList hrank l key
      obtain ⟨hfst', hsnd'⟩ := entry_ofList hrank l' key
      rw [(h key).1, ← hfst'] at hfst
      rw [(h key).2, ← hsnd'] at hsnd
      rcases hentry : entry rank (ofList lt l) (rank key) with _ | e
      · rw [hentry] at hfst
        exact (Option.map_eq_none_iff.mp hfst.symm).symm
      · rw [hentry] at hfst hsnd
        obtain ⟨e', he', hfst⟩ := Option.map_eq_some_iff.mp hfst.symm
        rw [he'] at hsnd ⊢
        rw [Prod.ext hfst (Option.some.inj hsnd).symm]
    · have hnone : ∀ m : List (K × V), entry rank m r = none := fun m =>
        List.find?_eq_none.mpr fun e _ heq => hr ⟨e.1, of_decide_eq_true heq⟩
      rw [hnone, hnone]

end

end OrderedMap
