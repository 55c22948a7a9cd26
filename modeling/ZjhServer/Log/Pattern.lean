/-
ZjhServer/Log/Pattern.lean

`LogFormatter::init` (server/log.cc): the scanner of a log pattern and the table of items,
against the pattern language of server/log.h.

The language is `Lexes`: complete items, up to a place where none begins.  Every pattern is read
so in one way (`Lexes.total`, `Lexes.unique`), and the scanner follows that reading item by item.
It leaves it in two places.  Behind a `%d` at the very end it steps over the terminator and
reads what follows it; and a `%` at the very end is passed over without an error.  Elsewhere a
pattern is accepted if and only if it is one of the language (`init_accepts_iff`).
-/
import Mathlib.Data.List.Basic
import Mathlib.Tactic.Common
import ZjhServer.Lib.CString

namespace Will

namespace LogFormatter

open CString

/-! ### The source -/

/-- The subclasses of `LogFormatter::FormatItem`. -/
inductive FormatItem
  | Message
  | Level
  | LoggerName
  | Elapse
  | FileName
  | Line
  | ThreadId
  | FiberId
  | ThreadName
  | PercentSign
  | Tab
  | NewLine
  | String (m_string : List Char)
  | DateTime (m_format : List Char)
  deriving DecidableEq, Repr

/-- `DateTimeFormatItem(format)`: an empty format is the default one. -/
def DateTimeFormatItem (format : List Char) : FormatItem :=
  .DateTime (if format = [] then "%Y-%m-%d %H:%M:%S".toList else format)

def s_format_items : List (List Char × FormatItem) := [
  (['m'], .Message), (['p'], .Level), (['c'], .LoggerName), (['r'], .Elapse),
  (['f'], .FileName), (['l'], .Line), (['t'], .ThreadId), (['F'], .FiberId),
  (['N'], .ThreadName), (['%'], .PercentSign), (['T'], .Tab), (['n'], .NewLine)]

/-- The local variables of `init`. -/
structure Scan where
  patterns : List (Nat × List Char)
  tmp : List Char
  dateformat : List Char
  parsing_string : Bool
  i : Nat
  deriving DecidableEq, Repr

/-- `while(i < m_pattern.size() && m_pattern[i] != '}')` -/
def braces (m_pattern : List Char) (i : Nat) (dateformat : List Char) : Nat × List Char :=
  if h : i < m_pattern.length then
    if m_pattern[i] ≠ '}' then braces m_pattern (i + 1) (dateformat ++ [m_pattern[i]])
    else (i, dateformat)
  else (i, dateformat)
termination_by m_pattern.length - i

theorem le_braces (m_pattern : List Char) (i : Nat) (dateformat : List Char) :
    i ≤ (braces m_pattern i dateformat).1 := by
  fun_induction braces m_pattern i dateformat with
  | case1 i dateformat h hne ih => exact Nat.le_of_succ_le ih
  | case2 i dateformat h heq => exact Nat.le_refl i
  | case3 i dateformat h => exact Nat.le_refl i

/-- `patterns.push_back(std::make_pair(0, tmp))` unless `tmp` is empty. -/
def flush (patterns : List (Nat × List Char)) (tmp : List Char) : List (Nat × List Char) :=
  if tmp ≠ [] then patterns ++ [(0, tmp)] else patterns

/-- The loop over the pattern: `error` and the variables at its end.  `none` is a read behind
the terminator. -/
def scan (m_pattern : List Char) (s : Scan) : Option (Bool × Scan) :=
  if h : s.i < m_pattern.length then
    let c := m_pattern[s.i]
    if c = '%' then
      if s.parsing_string then
        scan m_pattern { s with
          patterns := flush s.patterns s.tmp, tmp := [], parsing_string := false, i := s.i + 1 }
      else
        -- the item `%%`
        scan m_pattern { s with
          patterns := s.patterns ++ [(1, [c])], parsing_string := true, i := s.i + 1 }
    else if s.parsing_string then
      scan m_pattern { s with tmp := s.tmp ++ [c], i := s.i + 1 }
    else if c ≠ 'd' then
      scan m_pattern { s with
        patterns := s.patterns ++ [(1, [c])], parsing_string := true, i := s.i + 1 }
    else if s.i + 1 < m_pattern.length ∧ m_pattern[s.i + 1]? ≠ some '{' then
      scan m_pattern { s with
        patterns := s.patterns ++ [(1, [c])], parsing_string := true, i := s.i + 1 }
    else
      -- a brace stands at `s.i + 1`, or the pattern ends there
      let i := (braces m_pattern (s.i + 2) s.dateformat).1
      let dateformat := (braces m_pattern (s.i + 2) s.dateformat).2
      match charAt m_pattern i with
      | none => none
      | some b =>
          if b ≠ '}' then
            some (true, { s with
              patterns := s.patterns ++ [(1, [c])], parsing_string := true, i := i,
              dateformat := dateformat })
          else
            scan m_pattern { s with
              patterns := s.patterns ++ [(1, [c])], parsing_string := true, i := i + 1,
              dateformat := dateformat }
  else some (false, s)
termination_by m_pattern.length - s.i
decreasing_by
  all_goals have := le_braces m_pattern (s.i + 2) s.dateformat
  all_goals omega

/-- The loop over `patterns`: `m_items` and `error` at its end. -/
def buildItems (dateformat : List Char) : List (Nat × List Char) → List FormatItem × Bool
  | [] => ([], false)
  | v :: patterns =>
      if v.1 = 0 then
        let r := buildItems dateformat patterns
        (.String v.2 :: r.1, r.2)
      else if v.2 = ['d'] then
        let r := buildItems dateformat patterns
        (DateTimeFormatItem dateformat :: r.1, r.2)
      else
        match s_format_items.find? (fun x => x.1 = v.2) with
        | none => ([], true)
        | some x =>
            let r := buildItems dateformat patterns
            (x.2 :: r.1, r.2)

end LogFormatter

structure LogFormatter where
  m_pattern : List Char
  m_items : List LogFormatter.FormatItem
  m_error : Bool
  deriving DecidableEq, Repr

namespace LogFormatter

open CString

/-- `LogFormatter(pattern)`, which calls `init`. -/
def init (m_pattern : List Char) : Option LogFormatter :=
  match scan m_pattern ⟨[], [], [], true, 0⟩ with
  | none => none
  | some (true, _) => some ⟨m_pattern, [], true⟩
  | some (false, s) =>
      let r := buildItems s.dateformat (flush s.patterns s.tmp)
      some ⟨m_pattern, r.1, r.2⟩

/-! ### The pattern language -/

/-- What a pattern is made of. -/
inductive Piece
  | literal (c : Char)
  | field (x : Char)
  | date (format : Option (List Char))
  deriving DecidableEq, Repr

/-- The documented letters, but for `d`. -/
def Documented (x : Char) : Prop :=
  x ∈ ['m', 'p', 'c', 'r', 'f', 'l', 't', 'F', 'N', '%', 'T', 'n']

instance : DecidablePred Documented := fun x => List.instDecidableMemOfLawfulBEq x _

/-- The pattern `s` is the pieces `ps`, with letters out of `P`, and then `t`.  Braces right
behind a `%d` belong to it. -/
inductive Lexes (P : Char → Prop) : List Char → List Piece → List Char → Prop
  | stop (t) : Lexes P t [] t
  | literal {c s ps t} : c ≠ '%' → Lexes P s ps t → Lexes P (c :: s) (.literal c :: ps) t
  | field {x s ps t} : x ≠ 'd' → P x → Lexes P s ps t →
      Lexes P ('%' :: x :: s) (.field x :: ps) t
  | date {s ps t} : s.head? ≠ some '{' → Lexes P s ps t →
      Lexes P ('%' :: 'd' :: s) (.date none :: ps) t
  | braced {f s ps t} : '}' ∉ f → Lexes P s ps t →
      Lexes P ('%' :: 'd' :: '{' :: (f ++ '}' :: s)) (.date (some f) :: ps) t

/-- The ways a pattern can break off: it is over, in the middle of an item, or inside braces. -/
inductive Stuck : List Char → Prop
  | nil : Stuck []
  | percent : Stuck ['%']
  | open_brace {f} : '}' ∉ f → Stuck ('%' :: 'd' :: '{' :: f)

/-- **The language**: patterns that are pieces with documented letters. -/
def Accepted (s : List Char) : Prop := ∃ ps, Lexes Documented s ps []

/-- Every pattern is read up to a place where it breaks off. -/
theorem Lexes.total (s : List Char) : ∃ ps t, Lexes (fun _ => True) s ps t ∧ Stuck t := by
  induction hn : s.length using Nat.strongRecOn generalizing s with
  | _ n ih =>
      -- behind a piece the rest is shorter, whatever the piece is
      have hrest : ∀ u : List Char, u.length < s.length →
          ∃ ps t, Lexes (fun _ => True) u ps t ∧ Stuck t := fun u hu => ih _ (hn ▸ hu) u rfl
      match s, hrest with
      | [], _ => exact ⟨[], [], .stop [], .nil⟩
      | [c], _ =>
          by_cases hc : c = '%'
          · exact ⟨[], [c], .stop _, hc ▸ .percent⟩
          · exact ⟨[.literal c], [], .literal hc (.stop []), .nil⟩
      | c :: x :: s, hrest =>
          by_cases hc : c = '%'
          · subst hc
            obtain ⟨ps, t, hlex, hstuck⟩ := hrest s (by simp only [List.length_cons]; omega)
            by_cases hx : x = 'd'
            · subst hx
              by_cases hs : s.head? = some '{'
              · obtain ⟨u, rfl⟩ : ∃ u, s = '{' :: u := by
                  cases s with
                  | nil => cases hs
                  | cons b u => exact ⟨u, by rw [Option.some.inj hs]⟩
                by_cases hu : '}' ∈ u
                · obtain ⟨f, v, rfl, hf⟩ := List.eq_append_cons_of_mem hu
                  obtain ⟨ps, t, hlex, hstuck⟩ := hrest v (by simp; omega)
                  exact ⟨_, t, .braced hf hlex, hstuck⟩
                · exact ⟨[], _, .stop _, .open_brace hu⟩
              · exact ⟨_, t, .date hs hlex, hstuck⟩
            · exact ⟨_, t, .field hx trivial hlex, hstuck⟩
          · obtain ⟨ps, t, hlex, hstuck⟩ := hrest (x :: s) (by simp)
            exact ⟨_, t, .literal hc hlex, hstuck⟩

/-- Where a pattern breaks off, no piece begins. -/
theorem Stuck.pieces {P : Char → Prop} {s t : List Char} {ps : List Piece} (h : Stuck s)
    (hlex : Lexes P s ps t) : ps = [] ∧ t = s := by
  cases h with
  | nil => cases hlex; exact ⟨rfl, rfl⟩
  | percent =>
      cases hlex with
      | stop => exact ⟨rfl, rfl⟩
      | literal hc _ => exact absurd rfl hc
  | @open_brace f hf =>
      generalize hs : '%' :: 'd' :: '{' :: f = s at hlex
      cases hlex with
      | stop => exact ⟨rfl, rfl⟩
      | literal hc _ => cases hs; exact absurd rfl hc
      | field hx _ _ => cases hs; exact absurd rfl hx
      | date hd _ => cases hs; exact absurd rfl hd
      | braced _ _ => cases hs; simp at hf

/-- A pattern is read in one way. -/
theorem Lexes.unique {P Q : Char → Prop} {s t u : List Char} {ps qs : List Piece}
    (h : Lexes P s ps t) (ht : Stuck t) (h' : Lexes Q s qs u) (hu : Stuck u) :
    ps = qs ∧ t = u := by
  -- on the first reading: its first characters leave one constructor for the second one
  induction h generalizing qs with
  | stop s =>
      obtain ⟨rfl, rfl⟩ := ht.pieces h'
      exact ⟨rfl, rfl⟩
  | @literal c s ps t hc hlex ih =>
      cases h' with
      | stop =>
          obtain ⟨hnil, -⟩ := hu.pieces (.literal (P := P) hc hlex)
          cases hnil
      | literal _ hlex' =>
          obtain ⟨rfl, rfl⟩ := ih ht hlex'
          exact ⟨rfl, rfl⟩
      | field _ _ _ => exact absurd rfl hc
      | date _ _ => exact absurd rfl hc
      | braced _ _ => exact absurd rfl hc
  | @field x s ps t hx hP hlex ih =>
      cases h' with
      | stop =>
          obtain ⟨hnil, -⟩ := hu.pieces (.field (P := P) hx hP hlex)
          cases hnil
      | literal hc _ => exact absurd rfl hc
      | field _ _ hlex' =>
          obtain ⟨rfl, rfl⟩ := ih ht hlex'
          exact ⟨rfl, rfl⟩
      | date _ _ => exact absurd rfl hx
      | braced _ _ => exact absurd rfl hx
  | @date s ps t hd hlex ih =>
      cases h' with
      | stop =>
          obtain ⟨hnil, -⟩ := hu.pieces (.date (P := P) hd hlex)
          cases hnil
      | literal hc _ => exact absurd rfl hc
      | field hx _ _ => exact absurd rfl hx
      | date _ hlex' =>
          obtain ⟨rfl, rfl⟩ := ih ht hlex'
          exact ⟨rfl, rfl⟩
      | braced _ _ => exact absurd rfl hd
  | @braced f s ps t hf hlex ih =>
      generalize hs : '%' :: 'd' :: '{' :: (f ++ '}' :: s) = w at h'
      cases h' with
      | stop =>
          obtain ⟨hnil, -⟩ := hu.pieces (hs ▸ Lexes.braced (P := P) hf hlex)
          cases hnil
      | literal hc _ => cases hs; exact absurd rfl hc
      | field hx _ _ => cases hs; exact absurd rfl hx
      | date hd _ => cases hs; exact absurd rfl hd
      | @braced f' s' _ _ hf' hlex' =>
          have hsplit : f ++ '}' :: s = f' ++ '}' :: s' := by
            simpa using hs
          obtain ⟨rfl, rfl⟩ := append_cons_inj hf hf' hsplit
          obtain ⟨rfl, rfl⟩ := ih ht hlex'
          exact ⟨rfl, rfl⟩

theorem Lexes.fields {P : Char → Prop} {s t : List Char} {ps : List Piece}
    (h : Lexes P s ps t) : ∀ x, .field x ∈ ps → x ≠ 'd' ∧ P x := by
  induction h with
  | stop => exact fun x hx => absurd hx List.not_mem_nil
  | literal _ _ ih => exact fun x hx => ih x ((List.mem_cons.mp hx).resolve_left (by simp))
  | field hd hP _ ih =>
      intro x hx
      rcases List.mem_cons.mp hx with heq | hx
      · cases heq
        exact ⟨hd, hP⟩
      · exact ih x hx
  | date _ _ ih => exact fun x hx => ih x ((List.mem_cons.mp hx).resolve_left (by simp))
  | braced _ _ ih => exact fun x hx => ih x ((List.mem_cons.mp hx).resolve_left (by simp))

theorem Lexes.restrict {P Q : Char → Prop} {s t : List Char} {ps : List Piece}
    (h : Lexes P s ps t) (hQ : ∀ x, .field x ∈ ps → Q x) : Lexes Q s ps t := by
  induction h with
  | stop t => exact .stop t
  | literal hc _ ih => exact .literal hc (ih fun x hx => hQ x (List.mem_cons_of_mem _ hx))
  | field hd _ _ ih =>
      exact .field hd (hQ _ List.mem_cons_self) (ih fun x hx => hQ x (List.mem_cons_of_mem _ hx))
  | date hd _ ih => exact .date hd (ih fun x hx => hQ x (List.mem_cons_of_mem _ hx))
  | braced hf _ ih => exact .braced hf (ih fun x hx => hQ x (List.mem_cons_of_mem _ hx))

/-- The last piece can be read on its own. -/
theorem Lexes.split {P : Char → Prop} {s t : List Char} {ps qs : List Piece}
    (h : Lexes P s (ps ++ qs) t) : ∃ u, Lexes P s ps u ∧ Lexes P u qs t := by
  induction ps generalizing s with
  | nil => exact ⟨s, .stop s, h⟩
  | cons p ps ih =>
      cases h with
      | literal hc hlex =>
          obtain ⟨u, hps, hqs⟩ := ih hlex
          exact ⟨u, .literal hc hps, hqs⟩
      | field hd hP hlex =>
          obtain ⟨u, hps, hqs⟩ := ih hlex
          exact ⟨u, .field hd hP hps, hqs⟩
      | date hd hlex =>
          obtain ⟨u, hps, hqs⟩ := ih hlex
          exact ⟨u, .date hd hps, hqs⟩
      | braced hf hlex =>
          obtain ⟨u, hps, hqs⟩ := ih hlex
          exact ⟨u, .braced hf hps, hqs⟩

/-! ### The turns of the loop -/

section Turns

variable {m : List Char} {s : Scan} {c : Char}

/-- A `%` in a run of literal characters. -/
theorem scan_percent (hget : m[s.i]? = some '%') (hp : s.parsing_string = true) :
    scan m s = scan m { s with
      patterns := flush s.patterns s.tmp, tmp := [], parsing_string := false, i := s.i + 1 } := by
  obtain ⟨hlt, hc⟩ := List.getElem?_eq_some_iff.mp hget
  rw [scan, dif_pos hlt]
  simp only [hc, hp, if_true]

theorem scan_char (hget : m[s.i]? = some c) (hc : c ≠ '%') (hp : s.parsing_string = true) :
    scan m s = scan m { s with tmp := s.tmp ++ [c], i := s.i + 1 } := by
  obtain ⟨hlt, hget⟩ := List.getElem?_eq_some_iff.mp hget
  rw [scan, dif_pos hlt]
  simp only [hget, hp, if_true, if_neg hc]

/-- The letter behind a `%`. -/
theorem scan_letter (hget : m[s.i]? = some c) (hd : c ≠ 'd') (hp : s.parsing_string = false) :
    scan m s = scan m { s with
      patterns := s.patterns ++ [(1, [c])], parsing_string := true, i := s.i + 1 } := by
  obtain ⟨hlt, hget⟩ := List.getElem?_eq_some_iff.mp hget
  rw [scan, dif_pos hlt]
  by_cases hc : c = '%'
  · simp only [hget, hp, if_pos hc, Bool.false_eq_true, if_false]
  · simp only [hget, hp, if_neg hc, Bool.false_eq_true, if_false, ne_eq, hd, not_false_eq_true,
      if_true]

/-- A `d` with something else than braces behind it. -/
theorem scan_date (hget : m[s.i]? = some 'd') (hp : s.parsing_string = false)
    (hlt' : s.i + 1 < m.length) (hbrace : m[s.i + 1]? ≠ some '{') :
    scan m s = scan m { s with
      patterns := s.patterns ++ [(1, ['d'])], parsing_string := true, i := s.i + 1 } := by
  obtain ⟨hlt, hget⟩ := List.getElem?_eq_some_iff.mp hget
  rw [scan, dif_pos hlt]
  simp only [hget, hp, if_neg (show ¬ 'd' = '%' by decide), Bool.false_eq_true, if_false, ne_eq,
    not_true_eq_false, if_pos (And.intro hlt' hbrace)]

/-- A `d` at the end, or with a brace behind it: what the braces leave decides. -/
theorem scan_braces (hget : m[s.i]? = some 'd') (hp : s.parsing_string = false)
    (hbrace : ¬(s.i + 1 < m.length ∧ m[s.i + 1]? ≠ some '{')) {i : Nat} {dateformat : List Char}
    (hbraces : braces m (s.i + 2) s.dateformat = (i, dateformat)) :
    scan m s = match charAt m i with
      | none => none
      | some b =>
          if b ≠ '}' then
            some (true, { s with
              patterns := s.patterns ++ [(1, ['d'])], parsing_string := true, i := i,
              dateformat := dateformat })
          else
            scan m { s with
              patterns := s.patterns ++ [(1, ['d'])], parsing_string := true, i := i + 1,
              dateformat := dateformat } := by
  obtain ⟨hlt, hget⟩ := List.getElem?_eq_some_iff.mp hget
  rw [scan, dif_pos hlt]
  simp only [hget, hp, if_neg (show ¬ 'd' = '%' by decide), Bool.false_eq_true, if_false, ne_eq,
    not_true_eq_false, if_neg hbrace, hbraces]

theorem scan_end (h : m.length ≤ s.i) : scan m s = some (false, s) := by
  rw [scan, dif_neg (Nat.not_lt.mpr h)]

end Turns

theorem braces_push {m : List Char} {i : Nat} {b : Char} (hget : m[i]? = some b) (hb : b ≠ '}')
    (dateformat : List Char) : braces m i dateformat = braces m (i + 1) (dateformat ++ [b]) := by
  obtain ⟨hlt, hget⟩ := List.getElem?_eq_some_iff.mp hget
  rw [braces, dif_pos hlt, hget, if_pos hb]

theorem braces_stop {m : List Char} {i : Nat} (h : m[i]? = some '}' ∨ m.length ≤ i)
    (dateformat : List Char) : braces m i dateformat = (i, dateformat) := by
  rcases h with hget | hle
  · obtain ⟨hlt, hget⟩ := List.getElem?_eq_some_iff.mp hget
    rw [braces, dif_pos hlt, hget, if_neg (not_not.mpr rfl)]
  · rw [braces, dif_neg (Nat.not_lt.mpr hle)]

/-- The braces take everything up to the first `}`, or up to the end. -/
theorem braces_append {f rest : List Char} (hf : '}' ∉ f)
    (hrest : rest = [] ∨ ∃ u, rest = '}' :: u) (a dateformat : List Char) :
    braces (a ++ (f ++ rest)) a.length dateformat = (a.length + f.length, dateformat ++ f) := by
  induction f generalizing a dateformat with
  | nil =>
      rw [List.append_nil]
      refine braces_stop ?_ dateformat
      rcases hrest with rfl | ⟨u, rfl⟩
      · exact .inr (by simp)
      · exact .inl (by simp)
  | cons b f ih =>
      have hb : b ≠ '}' := fun heq => hf (heq ▸ List.mem_cons_self)
      have hnext := ih (fun hmem => hf (List.mem_cons_of_mem b hmem)) (a ++ [b])
        (dateformat ++ [b])
      rw [List.append_assoc, List.singleton_append, List.append_assoc, List.singleton_append,
        List.length_append, List.length_singleton, Nat.add_assoc, Nat.add_comm 1] at hnext
      rw [braces_push (by simp) hb, List.length_cons]
      exact hnext

/-! ### The run of the loop -/

/-- The variables behind a piece. -/
def Scan.take (s : Scan) : Piece → Scan
  | .literal c => { s with tmp := s.tmp ++ [c], i := s.i + 1 }
  | .field x => { s with
      patterns := flush s.patterns s.tmp ++ [(1, [x])], tmp := [], i := s.i + 2 }
  | .date none => { s with
      patterns := flush s.patterns s.tmp ++ [(1, ['d'])], tmp := [], i := s.i + 2 }
  | .date (some f) => { s with
      patterns := flush s.patterns s.tmp ++ [(1, ['d'])], tmp := [],
      dateformat := s.dateformat ++ f, i := s.i + (f.length + 4) }

theorem getElem?_at (a u : List Char) (k : Nat) : (a ++ u)[a.length + k]? = u[k]? := by
  rw [List.getElem?_append_right (Nat.le_add_right _ _), Nat.add_sub_cancel_left]

section Pieces

variable {a u : List Char} {s : Scan}

/-- The turns at an item: one for the `%` and one for what is behind it. -/
theorem scan_field {x : Char} (hx : x ≠ 'd') (hi : s.i = a.length)
    (hp : s.parsing_string = true) :
    scan (a ++ '%' :: x :: u) s = scan (a ++ '%' :: x :: u) (s.take (.field x)) := by
  rw [scan_percent (by rw [hi]; simp) hp,
    scan_letter (c := x) (by rw [hi, getElem?_at]; rfl) hx rfl]
  simp only [Scan.take, hp]

theorem scan_bare (hu : u ≠ []) (hbrace : u.head? ≠ some '{') (hi : s.i = a.length)
    (hp : s.parsing_string = true) :
    scan (a ++ '%' :: 'd' :: u) s = scan (a ++ '%' :: 'd' :: u) (s.take (.date none)) := by
  have hlen : 0 < u.length := List.length_pos_iff.mpr hu
  rw [scan_percent (by rw [hi]; simp) hp, scan_date (by rw [hi, getElem?_at]; rfl) rfl]
  · simp only [Scan.take, hp]
  · simp only [hi, List.length_append, List.length_cons]
    omega
  · show (a ++ '%' :: 'd' :: u)[s.i + 1 + 1]? ≠ _
    rw [hi, Nat.add_assoc, getElem?_at]
    rwa [List.head?_eq_getElem?] at hbrace

/-- A `%d` at the very end: the terminator is stepped over, and what is behind it is read. -/
theorem scan_bare_end (hi : s.i = a.length) (hp : s.parsing_string = true) :
    scan (a ++ ['%', 'd']) s = none := by
  rw [scan_percent (by rw [hi]; simp) hp,
    scan_braces (by rw [hi, getElem?_at]; rfl) rfl (by simp [hi])
      (braces_stop (.inr (by simp [hi])) _)]
  have hread : charAt (a ++ ['%', 'd']) (s.i + 1 + 2) = none := by
    rw [charAt, if_neg (by simp [hi]), if_neg (by simp [hi])]
  rw [hread]

/-- The turns at a `%d` with a brace behind it, up to the end of the braces. -/
theorem scan_braced_turns {f rest : List Char} (hf : '}' ∉ f)
    (hrest : rest = [] ∨ ∃ u, rest = '}' :: u) (hi : s.i = a.length)
    (hp : s.parsing_string = true) :
    scan (a ++ '%' :: 'd' :: '{' :: (f ++ rest)) s =
      match charAt (a ++ '%' :: 'd' :: '{' :: (f ++ rest)) (a.length + (f.length + 3)) with
      | none => none
      | some b =>
          if b ≠ '}' then
            some (true, { s.take (.date (some f)) with i := a.length + (f.length + 3) })
          else scan (a ++ '%' :: 'd' :: '{' :: (f ++ rest)) (s.take (.date (some f))) := by
  have hbraces : braces (a ++ '%' :: 'd' :: '{' :: (f ++ rest)) (s.i + 1 + 2) s.dateformat =
      (a.length + (f.length + 3), s.dateformat ++ f) := by
    have h := braces_append hf hrest (a ++ ['%', 'd', '{']) s.dateformat
    rw [List.append_assoc, List.length_append] at h
    rw [hi, Nat.add_comm f.length 3, ← Nat.add_assoc]
    exact h
  have hopen : ¬(s.i + 1 + 1 < (a ++ '%' :: 'd' :: '{' :: (f ++ rest)).length ∧
      (a ++ '%' :: 'd' :: '{' :: (f ++ rest))[s.i + 1 + 1]? ≠ some '{') := by
    rintro ⟨-, hne⟩
    refine hne ?_
    rw [hi, Nat.add_assoc, getElem?_at]
    rfl
  rw [scan_percent (by rw [hi]; simp) hp,
    scan_braces (by rw [hi, getElem?_at]; rfl) rfl hopen hbraces]
  simp only [Scan.take, hi, hp, Nat.add_assoc]

theorem scan_braced {f : List Char} (hf : '}' ∉ f) (hi : s.i = a.length)
    (hp : s.parsing_string = true) :
    scan (a ++ '%' :: 'd' :: '{' :: (f ++ '}' :: u)) s =
      scan (a ++ '%' :: 'd' :: '{' :: (f ++ '}' :: u)) (s.take (.date (some f))) := by
  have hread : charAt (a ++ '%' :: 'd' :: '{' :: (f ++ '}' :: u)) (a.length + (f.length + 3)) =
      some '}' := by
    have h := charAt_append (a ++ '%' :: 'd' :: '{' :: f) '}' u
    rw [List.append_assoc, List.length_append] at h
    exact h
  rw [scan_braced_turns hf (.inr ⟨u, rfl⟩) hi hp, hread]
  exact if_neg (not_not.mpr rfl)

/-- Braces that are not closed: the terminator is read, and the pattern is refused. -/
theorem scan_open {f : List Char} (hf : '}' ∉ f) (hi : s.i = a.length)
    (hp : s.parsing_string = true) :
    ∃ s', scan (a ++ '%' :: 'd' :: '{' :: f) s = some (true, s') := by
  have hturns := scan_braced_turns hf (.inl rfl) hi hp
  have hread : charAt (a ++ '%' :: 'd' :: '{' :: f) (a.length + (f.length + 3)) =
      some '\x00' := by
    have h := charAt_end (a ++ '%' :: 'd' :: '{' :: f)
    rw [List.length_append] at h
    exact h
  rw [List.append_nil] at hturns
  rw [hturns, hread]
  exact ⟨_, if_pos (by decide)⟩

/-- A `%` at the very end: the loop ends without an error. -/
theorem scan_dangling (hi : s.i = a.length) (hp : s.parsing_string = true) :
    scan (a ++ ['%']) s = some (false, { s with
      patterns := flush s.patterns s.tmp, tmp := [], parsing_string := false, i := s.i + 1 }) := by
  rw [scan_percent (by rw [hi]; simp) hp]
  exact scan_end (by simp [hi])

end Pieces

/-- The variables behind some pieces. -/
def Scan.takes (s : Scan) (ps : List Piece) : Scan := ps.foldl Scan.take s

/-- The pattern ends in a `%d` without braces. -/
def BareEnd (ps : List Piece) (t : List Char) : Prop := t = [] ∧ ps.getLast? = some (.date none)

theorem BareEnd.cons {p : Piece} {ps : List Piece} {t : List Char} (h : BareEnd ps t) :
    BareEnd (p :: ps) t := by
  refine ⟨h.1, ?_⟩
  rw [List.getLast?_cons, h.2]
  rfl

/-- From its place in front of `u` the scanner comes to that in front of `t`, and `ps` is
what it has met. -/
def Follows (a u : List Char) (s : Scan) (ps : List Piece) (t : List Char) : Prop :=
  ∃ a', a ++ u = a' ++ t ∧ (s.takes ps).i = a'.length ∧ (s.takes ps).parsing_string = true ∧
    scan (a ++ u) s = scan (a ++ u) (s.takes ps)

theorem Follows.cons {a w u t : List Char} {s : Scan} {p : Piece} {ps : List Piece}
    (hscan : scan (a ++ (w ++ u)) s = scan (a ++ (w ++ u)) (s.take p))
    (h : Follows (a ++ w) u (s.take p) ps t) : Follows a (w ++ u) s (p :: ps) t := by
  obtain ⟨a', hsplit, hi, hp, hrest⟩ := h
  rw [List.append_assoc] at hsplit hrest
  exact ⟨a', hsplit, hi, hp, hscan.trans hrest⟩

/-- **The scanner follows the pieces of a pattern**, unless the last of them is a `%d` at its
very end. -/
theorem scan_lexes {P : Char → Prop} {u t : List Char} {ps : List Piece} (h : Lexes P u ps t)
    (hend : ¬BareEnd ps t) (a : List Char) {s : Scan} (hi : s.i = a.length)
    (hp : s.parsing_string = true) : Follows a u s ps t := by
  -- on the reading; `a` is what the scanner has behind it
  induction h generalizing a s with
  | stop t => exact ⟨a, rfl, hi, hp, rfl⟩
  | @literal c u ps t hc hlex ih =>
      exact .cons (w := [c]) (scan_char (by rw [hi]; simp) hc hp)
        (ih (fun hb => hend hb.cons) _ (by simp [Scan.take, hi]) hp)
  | @field x u ps t hx hP hlex ih =>
      exact .cons (w := ['%', x]) (scan_field hx hi hp)
        (ih (fun hb => hend hb.cons) _ (by simp [Scan.take, hi]) hp)
  | @date u ps t hd hlex ih =>
      have hu : u ≠ [] := by
        rintro rfl
        cases hlex
        exact hend ⟨rfl, rfl⟩
      exact .cons (w := ['%', 'd']) (scan_bare hu hd hi hp)
        (ih (fun hb => hend hb.cons) _ (by simp [Scan.take, hi]) hp)
  | @braced f u ps t hf hlex ih =>
      have hscan := scan_braced (u := u) hf hi hp
      have hrest := ih (fun hb => hend hb.cons) (a ++ '%' :: 'd' :: '{' :: (f ++ ['}']))
        (s := s.take (.date (some f))) (by simp [Scan.take, hi]) hp
      have hsplit : '%' :: 'd' :: '{' :: (f ++ '}' :: u) =
          '%' :: 'd' :: '{' :: (f ++ ['}']) ++ u := by simp
      rw [hsplit] at hscan ⊢
      exact .cons hscan hrest

/-! ### The table of items -/

/-- The items a pattern may name. -/
def Known (v : Nat × List Char) : Prop :=
  v.1 = 0 ∨ v.2 = ['d'] ∨ ∃ y ∈ s_format_items, y.1 = v.2

theorem buildItems_error (dateformat : List Char) (patterns : List (Nat × List Char)) :
    (buildItems dateformat patterns).2 = false ↔ ∀ v ∈ patterns, Known v := by
  induction patterns with
  | nil => simp [buildItems]
  | cons v patterns ih =>
      rw [List.forall_mem_cons, ← ih, buildItems]
      by_cases h0 : v.1 = 0
      · rw [if_pos h0]
        simp [Known, h0]
      by_cases hd : v.2 = ['d']
      · rw [if_neg h0, if_pos hd]
        simp [Known, hd]
      rw [if_neg h0, if_neg hd]
      cases hfind : s_format_items.find? (fun x => x.1 = v.2) with
      | none =>
          rw [List.find?_eq_none] at hfind
          simp only [Bool.true_eq_false, false_iff, not_and]
          rintro (h | h | ⟨y, hy, heq⟩)
          · exact absurd h h0
          · exact absurd h hd
          · exact absurd (decide_eq_true heq) (hfind y hy)
      | some y =>
          have hy := List.mem_of_find?_eq_some hfind
          have heq : y.1 = v.2 := by simpa using List.find?_some hfind
          have hknown : Known v := .inr (.inr ⟨y, hy, heq⟩)
          simp [hknown]

theorem known_letter (x : Char) : Known (1, [x]) ↔ x = 'd' ∨ Documented x := by
  simp [Known, s_format_items, Documented, eq_comm]

theorem known_flush (patterns : List (Nat × List Char)) (tmp : List Char) :
    (∀ v ∈ flush patterns tmp, Known v) ↔ ∀ v ∈ patterns, Known v := by
  rw [flush]
  split_ifs
  · rw [List.forall_mem_append]
    simp [Known]
  · rfl

/-- What the scanner has stored is known if the letters it has met are. -/
theorem known_takes (s : Scan) (ps : List Piece) :
    (∀ v ∈ (s.takes ps).patterns, Known v) ↔
      (∀ v ∈ s.patterns, Known v) ∧ ∀ x, .field x ∈ ps → x = 'd' ∨ Documented x := by
  induction ps generalizing s with
  | nil => simp [Scan.takes]
  | cons p ps ih =>
      show (∀ v ∈ ((s.take p).takes ps).patterns, Known v) ↔ _
      rw [ih]
      have hpush : ∀ c, (∀ v ∈ flush s.patterns s.tmp ++ [(1, [c])], Known v) ↔
          (∀ v ∈ s.patterns, Known v) ∧ (c = 'd' ∨ Documented c) := by
        intro c
        rw [List.forall_mem_append, known_flush, List.forall_mem_singleton, known_letter]
      cases p with
      | literal c => simp [Scan.take]
      | field x =>
          simp only [Scan.take, hpush, List.mem_cons, Piece.field.injEq, and_assoc]
          refine and_congr_right fun _ => ?_
          constructor
          · rintro ⟨hx, hps⟩ y (rfl | hy)
            · exact hx
            · exact hps y hy
          · exact fun h => ⟨h x (.inl rfl), fun y hy => h y (.inr hy)⟩
      | date format =>
          cases format <;>
            simp only [Scan.take, hpush, true_or, and_true, List.mem_cons, reduceCtorEq, false_or]

/-! ### Acceptance -/

theorem accepted_iff {s t : List Char} {ps : List Piece} (h : Lexes (fun _ => True) s ps t)
    (ht : Stuck t) : Accepted s ↔ t = [] ∧ ∀ x, .field x ∈ ps → Documented x := by
  constructor
  · rintro ⟨qs, hqs⟩
    obtain ⟨rfl, rfl⟩ := h.unique ht hqs .nil
    exact ⟨rfl, fun x hx => (hqs.fields x hx).2⟩
  · rintro ⟨rfl, hfields⟩
    exact ⟨ps, h.restrict hfields⟩

/-- The run over a pattern that does not break off inside braces. -/
theorem scan_complete {P : Char → Prop} {m t : List Char} {ps : List Piece} (h : Lexes P m ps t)
    (hend : ¬BareEnd ps t) (ht : t = [] ∨ t = ['%']) :
    ∃ s, scan m ⟨[], [], [], true, 0⟩ = some (false, s) ∧
      s.dateformat = ((⟨[], [], [], true, 0⟩ : Scan).takes ps).dateformat ∧
      flush s.patterns s.tmp = flush ((⟨[], [], [], true, 0⟩ : Scan).takes ps).patterns
        ((⟨[], [], [], true, 0⟩ : Scan).takes ps).tmp := by
  obtain ⟨a', hsplit, hi, hp, hscan⟩ := scan_lexes h hend [] (s := ⟨[], [], [], true, 0⟩) rfl rfl
  rw [List.nil_append] at hsplit hscan
  rcases ht with rfl | rfl
  · refine ⟨_, ?_, rfl, rfl⟩
    rw [hscan, hsplit, List.append_nil, scan_end (Nat.le_of_eq hi.symm)]
  · have hrun := scan_dangling hi hp
    rw [← hsplit, ← hscan] at hrun
    exact ⟨_, hrun, rfl, if_neg (not_not.mpr rfl)⟩

/-- What `init` does with a pattern, by the way it breaks off. -/
theorem init_spec {m t : List Char} {ps : List Piece} (h : Lexes (fun _ => True) m ps t)
    (ht : Stuck t) :
    (BareEnd ps t ∧ init m = none) ∨
      (¬BareEnd ps t ∧ (t = [] ∨ t = ['%']) ∧
        ∃ f, init m = some f ∧ (f.m_error = false ↔ ∀ x, .field x ∈ ps → Documented x)) ∨
      (¬(t = [] ∨ t = ['%']) ∧ ∃ f, init m = some f ∧ f.m_error = true) := by
  by_cases hend : BareEnd ps t
  · -- the scanner follows the pieces up to the last `%d`, and reads too far there
    obtain ⟨rfl, hlast⟩ := hend
    refine .inl ⟨⟨rfl, hlast⟩, ?_⟩
    obtain ⟨qs, rfl⟩ := List.getLast?_eq_some_iff.mp hlast
    obtain ⟨u, hqs, hu⟩ := h.split
    obtain rfl : u = ['%', 'd'] := by
      cases hu with
      | date _ hu => cases hu; rfl
    obtain ⟨a', hsplit, hi, hp, hscan⟩ := scan_lexes hqs (fun hb => by cases hb.1) []
      (s := ⟨[], [], [], true, 0⟩) rfl rfl
    rw [List.nil_append] at hsplit hscan
    rw [init, hscan, hsplit, scan_bare_end hi hp]
  by_cases hshape : t = [] ∨ t = ['%']
  · obtain ⟨s, hscan, -, hflush⟩ := scan_complete h hend hshape
    refine .inr (.inl ⟨hend, hshape, _, by rw [init, hscan], ?_⟩)
    -- no error of the scanner: the letters decide
    show (buildItems _ _).2 = false ↔ _
    rw [buildItems_error, hflush, known_flush, known_takes]
    constructor
    · rintro ⟨-, hall⟩ x hx
      exact (hall x hx).resolve_left (h.fields x hx).1
    · exact fun hall => ⟨fun v hv => absurd hv List.not_mem_nil, fun x hx => .inr (hall x hx)⟩
  · -- only braces that are not closed are left
    obtain ⟨f, rfl, hf⟩ : ∃ f, t = '%' :: 'd' :: '{' :: f ∧ '}' ∉ f := by
      cases ht with
      | nil => exact absurd (.inl rfl) hshape
      | percent => exact absurd (.inr rfl) hshape
      | open_brace hf => exact ⟨_, rfl, hf⟩
    obtain ⟨a', hsplit, hi, hp, hscan⟩ := scan_lexes h hend []
      (s := ⟨[], [], [], true, 0⟩) rfl rfl
    rw [List.nil_append] at hsplit hscan
    obtain ⟨s', hopen⟩ := scan_open hf hi hp
    refine .inr (.inr ⟨hshape, ⟨m, [], true⟩, ?_, rfl⟩)
    rw [init, hscan, hsplit, hopen]

/-- Every read is inside the pattern, and the pattern is accepted if it is one of the
language. -/
def Judged (m_pattern : List Char) : Prop :=
  ∃ f, init m_pattern = some f ∧ (f.m_error = false ↔ Accepted m_pattern)

/-- The patterns that are judged wrongly: a `%d` without braces is the last item and the end,
or items with documented letters are followed by one `%` and the end. -/
def Misjudged (m_pattern : List Char) : Prop :=
  (∃ ps, Lexes (fun _ => True) m_pattern (ps ++ [.date none]) []) ∨
    ∃ ps, Lexes Documented m_pattern ps ['%']

theorem misjudged_iff {m_pattern t : List Char} {ps : List Piece}
    (h : Lexes (fun _ => True) m_pattern ps t) (ht : Stuck t) :
    Misjudged m_pattern ↔
      BareEnd ps t ∨ t = ['%'] ∧ ∀ x, .field x ∈ ps → Documented x := by
  refine or_congr ?_ ?_
  · constructor
    · rintro ⟨qs, hqs⟩
      obtain ⟨rfl, rfl⟩ := h.unique ht hqs .nil
      exact ⟨rfl, List.getLast?_concat⟩
    · rintro ⟨rfl, hlast⟩
      obtain ⟨qs, rfl⟩ := List.getLast?_eq_some_iff.mp hlast
      exact ⟨qs, h⟩
  · constructor
    · rintro ⟨qs, hqs⟩
      obtain ⟨rfl, rfl⟩ := h.unique ht hqs .percent
      exact ⟨rfl, fun x hx => (hqs.fields x hx).2⟩
    · rintro ⟨rfl, hfields⟩
      exact ⟨ps, h.restrict hfields⟩

theorem Misjudged.not_judged {m_pattern : List Char} (h : Misjudged m_pattern) :
    ¬Judged m_pattern := by
  obtain ⟨ps, t, hlex, ht⟩ := Lexes.total m_pattern
  rintro ⟨f, hf, hiff⟩
  rw [accepted_iff hlex ht] at hiff
  rcases init_spec hlex ht with ⟨-, hnone⟩ | ⟨hend, hshape, g, hg, herror⟩ | ⟨hshape, -⟩
  · rw [hnone] at hf
    cases hf
  · obtain rfl := Option.some.inj (hf.symm.trans hg)
    rcases (misjudged_iff hlex ht).mp h with hbare | ⟨rfl, hfields⟩
    · exact hend hbare
    · cases (hiff.mp (herror.mpr hfields)).1
  · rcases (misjudged_iff hlex ht).mp h with hbare | ⟨hpercent, -⟩
    · exact hshape (.inl hbare.1)
    · exact hshape (.inr hpercent)

theorem judged_of_not_misjudged {m_pattern : List Char} (h : ¬Misjudged m_pattern) :
    Judged m_pattern := by
  obtain ⟨ps, t, hlex, ht⟩ := Lexes.total m_pattern
  rw [misjudged_iff hlex ht] at h
  rcases init_spec hlex ht with ⟨hend, -⟩ | ⟨-, hshape, f, hf, herror⟩ |
    ⟨hshape, f, hf, herror⟩
  · exact absurd (.inl hend) h
  · refine ⟨f, hf, ?_⟩
    rw [herror, accepted_iff hlex ht]
    rcases hshape with rfl | rfl
    · exact ⟨fun hfields => ⟨rfl, hfields⟩, fun hacc => hacc.2⟩
    · exact ⟨fun hfields => absurd (.inr ⟨rfl, hfields⟩) h, fun hacc => by cases hacc.1⟩
  · refine ⟨f, hf, ?_⟩
    rw [herror, accepted_iff hlex ht]
    exact ⟨fun hfalse => (by cases hfalse), fun hacc => absurd (.inl hacc.1) hshape⟩

/-- **Acceptance of patterns.**  For every pattern, `init` reads inside it and accepts it
exactly if it is one of the language, if and only if it does not end in a `%d` without braces
and does not end in a `%` behind documented items. -/
theorem init_accepts_iff (m_pattern : List Char) : Judged m_pattern ↔ ¬Misjudged m_pattern :=
  ⟨fun hjudged hmis => hmis.not_judged hjudged, judged_of_not_misjudged⟩

/-- `%d` alone is read past its terminator, and `100%` is not refused. -/
theorem init_misjudges : ¬Judged "%d".toList ∧ ¬Judged "100%".toList := by
  have hdate : Misjudged "%d".toList := .inl ⟨[], .date (by decide) (.stop [])⟩
  have hpercent : Misjudged "100%".toList :=
    .inr ⟨[.literal '1', .literal '0', .literal '0'],
      .literal (by decide) (.literal (by decide) (.literal (by decide) (.stop _)))⟩
  exact ⟨hdate.not_judged, hpercent.not_judged⟩

end LogFormatter

end Will
