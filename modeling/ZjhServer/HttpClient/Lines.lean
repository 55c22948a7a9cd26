/-
ZjhServer/HttpClient/Lines.lean

The names and values of header lines in the table of server/http/httpclient_parser.rl.

The machine tells three names from the others, letter by letter and whatever their case, and
for two of them a value: the state in a name is known by what has been read of it as
long as that begins one of the three (`Spells`), and so is the state in a value (`Says`).
A byte of a name or a value never leads out of these states (`name_step`, `value_step`).

What a row does is checked for every byte, once.
-/
import ZjhServer.HttpClient.Parser

namespace Will

namespace Http

namespace Client

open Transducer

/-! ### Bytes -/

def CTL (c : UInt8) : Bool := c < 32 || c == 127

def tspecials (c : UInt8) : Bool :=
  [40, 41, 60, 62, 64, 44, 59, 58, 92, 34, 47, 91, 93, 63, 61, 123, 125, 32, 9].contains c

/-- `ascii -- (CTL | tspecials)` -/
def token (c : UInt8) : Bool := c < 128 && !CTL c && !tspecials c

def digit (c : UInt8) : Bool := 48 ≤ c && c ≤ 57

/-- A byte of a line. -/
def inLine (c : UInt8) : Bool := c != 10 && c != 13

/-! ### Names and values that the grammar knows -/

def connection : Bytes := [99, 111, 110, 110, 101, 99, 116, 105, 111, 110]

def transfer_encoding : Bytes :=
  [116, 114, 97, 110, 115, 102, 101, 114, 45, 101, 110, 99, 111, 100, 105, 110, 103]

def content_length : Bytes := [99, 111, 110, 116, 101, 110, 116, 45, 108, 101, 110, 103, 116, 104]

def close : Bytes := [99, 108, 111, 115, 101]

def chunked : Bytes := [99, 104, 117, 110, 107, 101, 100]

theorem words_ascii : connection = ascii "connection" ∧
    transfer_encoding = ascii "transfer-encoding" ∧ content_length = ascii "content-length" ∧
    close = ascii "close" ∧ chunked = ascii "chunked" := by decide

/-- The productions of `message_header`; `fields` is the last. -/
inductive Kind
  | transfer_encoding
  | connection
  | content_length
  | fields
  deriving DecidableEq, Repr

/-- By the name in lower case. -/
def kindOf (name : Bytes) : Kind :=
  if name = Client.transfer_encoding then .transfer_encoding
  else if name = Client.connection then .connection
  else if name = Client.content_length then .content_length
  else .fields

/-- The state behind the colon. -/
def Kind.valueState : Kind → Nat
  | .transfer_encoding => 61
  | .connection => 35
  | .content_length => 112
  | .fields => 22

/-! ### Rows -/

/-- The number lies in one of the ranges. -/
def within (on : List (Nat × Nat)) (n : Nat) : Bool := on.any fun r => r.1 ≤ n && n ≤ r.2

def row (q : Nat) : List Transition := (transitions.lookup q).getD []

/-- What a row does on a byte. -/
def rowNext (r : List Transition) (n : Nat) : Option (List Action × Nat) :=
  (r.find? fun t => within t.on n).map fun t => (t.actions, t.target)

/-- A check of a row, which is looked up once. -/
def onRow (q : Nat) (P : List Transition → Bool) : Bool :=
  match transitions.lookup q with
  | some r => P r
  | none => P []

theorem onRow_eq (q : Nat) (P : List Transition → Bool) : onRow q P = P (row q) := by
  unfold onRow row
  split <;> simp [*]

theorem machine_next (q : Nat) (c : UInt8) : machine.next q c = rowNext (row q) c.toNat := rfl

def lowNat (n : Nat) : Nat := if 65 ≤ n ∧ n ≤ 90 then n + 32 else n

theorem toNat_tolower (c : UInt8) : (tolower c).toNat = lowNat c.toNat := by
  unfold tolower lowNat
  have hlt := c.toNat_lt
  have hge : (65 ≤ c) ↔ 65 ≤ c.toNat := UInt8.le_iff_toNat_le
  have hle : (c ≤ 90) ↔ c.toNat ≤ 90 := UInt8.le_iff_toNat_le
  by_cases h : 65 ≤ c.toNat ∧ c.toNat ≤ 90
  · rw [if_pos (by simpa [hge, hle] using h), if_pos h, UInt8.toNat_add]
    simp only [UInt8.reduceToNat]
    omega
  · rw [if_neg (by simpa [hge, hle] using h), if_neg h]

/-! ### Names -/

/-- The states in a name that begins as a name of the grammar does: what has been read of it,
and where the letters that go on with such a name lead. -/
def spelling : List (Nat × Bytes × List (Nat × Nat)) :=
  [25, 73, 90].map (fun q => (q, [99], [(111, 26)])) ++
    [(26, [99, 111], [(110, 27)]), (27, [99, 111, 110], [(110, 28), (116, 101)])] ++
    (List.range 6).map (fun i =>
      (28 + i, connection.take (4 + i), [((connection.getD (4 + i) 0).toNat, 29 + i)])) ++
    [(34, connection, [])] ++
    (List.range 16).map (fun i => (44 + i, transfer_encoding.take (1 + i),
      [((transfer_encoding.getD (1 + i) 0).toNat, 45 + i)])) ++
    [(60, transfer_encoding, [])] ++
    (List.range 10).map (fun i =>
      (101 + i, content_length.take (4 + i), [((content_length.getD (4 + i) 0).toNat, 102 + i)])) ++
    [(111, content_length, [])]

/-- The states in other names. -/
def plain : List Nat := [21, 74, 75, 76, 77, 78, 79, 91, 92, 93, 94, 117]

/-- The states at the beginning of a line, with what they do on its first byte. -/
def lineStarts : List (Nat × List Action) :=
  [(20, []), (36, []), (62, []), (113, []), (43, [.write_connection_close])]

/-- The names of the grammar, with the states behind their colons. -/
def names : List (Bytes × Nat) := [(transfer_encoding, 61), (connection, 35), (content_length, 112)]

def BeginsName (u : Bytes) : Prop := ∃ w ∈ names, u <+: w.1

instance (u : Bytes) : Decidable (BeginsName u) := inferInstanceAs (Decidable (∃ _ ∈ _, _))

/-- The state `q` in a name, when `u` is what has been read of it, in lower case. -/
def Spells (q : Nat) (u : Bytes) : Prop :=
  if BeginsName u then ∃ ls, (q, u, ls) ∈ spelling else q ∈ plain

/-- The bytes of `token`. -/
def tokens : List Nat := (List.range 256).filter (within Classes.token)

theorem mem_tokens {c : UInt8} (h : token c = true) : c.toNat ∈ tokens := by
  have hall : ∀ n < 256, token (UInt8.ofNat n) = true → within Classes.token n = true := by
    decide +kernel
  refine List.mem_filter.mpr ⟨List.mem_range.mpr c.toNat_lt, hall _ c.toNat_lt ?_⟩
  rwa [UInt8.ofNat_toNat]

/-- Every byte of a name, in every state of one. -/
theorem names_checked :
    (∀ x ∈ spelling, onRow x.1 (fun r => tokens.all fun n =>
      match rowNext r n with
      | some ([], q) =>
          match x.2.2.lookup (lowNat n) with
          | some q' => q == q'
          | none => plain.contains q
      | _ => false) = true) ∧
    (∀ q ∈ plain, onRow q (fun r => tokens.all fun n =>
      match rowNext r n with
      | some ([], q) => plain.contains q
      | _ => false) = true) := by
  decide +kernel

/-- The letters of `spelling` go on with the names of the grammar, and no others do. -/
theorem spelling_checked :
    (∀ x ∈ spelling, BeginsName x.2.1) ∧
    (∀ x ∈ spelling, ∀ l ∈ x.2.2,
      (spelling.map fun y => (y.1, y.2.1)).contains (l.2, x.2.1 ++ [UInt8.ofNat l.1]) = true) ∧
    (∀ x ∈ spelling, ∀ w ∈ names, x.2.1 <+: w.1 → ∀ d, w.1[x.2.1.length]? = some d →
      (x.2.2.lookup d.toNat).isSome = true) := by
  decide +kernel

theorem mem_spelling {q : Nat} {u : Bytes}
    (h : (spelling.map fun y => (y.1, y.2.1)).contains (q, u) = true) :
    ∃ ls, (q, u, ls) ∈ spelling := by
  obtain ⟨⟨q', u', ls⟩, hmem, heq⟩ := List.mem_map.mp (List.contains_iff_mem.mp h)
  obtain ⟨rfl, rfl⟩ := Prod.mk.inj heq
  exact ⟨ls, hmem⟩

theorem BeginsName.of_append {u v : Bytes} (h : BeginsName (u ++ v)) : BeginsName u := by
  obtain ⟨w, hw, hprefix⟩ := h
  exact ⟨w, hw, (List.prefix_append u v).trans hprefix⟩

/-- A byte of a name leads on in the name. -/
theorem name_step {q : Nat} {u : Bytes} {c : UInt8} (h : Spells q u) (hc : token c = true) :
    ∃ q', machine.next q c = some ([], q') ∧ Spells q' (u ++ [tolower c]) := by
  have hmem := mem_tokens hc
  unfold Spells at h
  split_ifs at h with hbegins
  · obtain ⟨ls, hls⟩ := h
    have hrow := names_checked.1 _ hls
    rw [onRow_eq, List.all_eq_true] at hrow
    have hnext := hrow _ hmem
    rw [← machine_next] at hnext
    rcases hm : machine.next q c with _ | ⟨acts, q'⟩
    · rw [hm] at hnext; cases hnext
    · rw [hm] at hnext
      cases acts with
      | cons => cases hnext
      | nil =>
          refine ⟨q', rfl, ?_⟩
          simp only at hnext
          rw [Spells]
          rcases hlook : ls.lookup (lowNat c.toNat) with _ | t
          · -- a letter that no name goes on with
            rw [hlook] at hnext
            rw [if_neg, ← List.contains_iff_mem]
            · exact hnext
            · rintro ⟨w, hw, hprefix⟩
              have hget : w.1[u.length]? = some (tolower c) := by
                obtain ⟨v, hv⟩ := hprefix
                rw [← hv]
                simp
              have hsome := spelling_checked.2.2 _ hls w hw
                ((List.prefix_append u _).trans hprefix) _ hget
              rw [toNat_tolower, hlook] at hsome
              cases hsome
          · rw [hlook] at hnext
            obtain rfl : q' = t := eq_of_beq hnext
            obtain ⟨l₁, l₂, hl, -⟩ := List.lookup_eq_some_iff.mp hlook
            have hin := spelling_checked.2.1 _ hls (lowNat c.toNat, q')
              (show _ ∈ ls by rw [hl]; simp)
            rw [← toNat_tolower, UInt8.ofNat_toNat] at hin
            obtain ⟨ls', hls'⟩ := mem_spelling hin
            rw [if_pos (spelling_checked.1 _ hls')]
            exact ⟨ls', hls'⟩
  · have hrow := names_checked.2 _ h
    rw [onRow_eq, List.all_eq_true] at hrow
    have hnext := hrow _ hmem
    rw [← machine_next] at hnext
    rcases hm : machine.next q c with _ | ⟨acts, q'⟩
    · rw [hm] at hnext; cases hnext
    · rw [hm] at hnext
      cases acts with
      | cons => cases hnext
      | nil =>
          refine ⟨q', rfl, ?_⟩
          rw [Spells, if_neg fun hb => hbegins hb.of_append]
          exact List.contains_iff_mem.mp hnext

/-- The first byte of a name, with what the line before left to do. -/
theorem firsts_checked : ∀ x ∈ lineStarts, onRow x.1 (fun r => tokens.all fun n =>
    match rowNext r n with
    | some (acts, q) =>
        (acts == x.2 ++ [.start_field] || acts == x.2 ++ [.start_value, .start_field]) &&
          if (names.map fun w => (w.1.headD 0).toNat).contains (lowNat n) then
            (spelling.map fun y => (y.1, y.2.1)).contains (q, [UInt8.ofNat (lowNat n)])
          else plain.contains q
    | none => false) = true := by
  decide +kernel

theorem name_first {x : Nat × List Action} {c : UInt8} (hx : x ∈ lineStarts)
    (hc : token c = true) :
    ∃ acts q, machine.next x.1 c = some (acts, q) ∧ Spells q [tolower c] ∧
      (acts = x.2 ++ [.start_field] ∨ acts = x.2 ++ [.start_value, .start_field]) := by
  have hrow := firsts_checked x hx
  rw [onRow_eq, List.all_eq_true] at hrow
  have hnext := hrow _ (mem_tokens hc)
  rw [← machine_next] at hnext
  rcases hm : machine.next x.1 c with _ | ⟨acts, q⟩
  · rw [hm] at hnext; cases hnext
  · rw [hm] at hnext
    simp only [Bool.and_eq_true, Bool.or_eq_true, beq_iff_eq] at hnext
    refine ⟨acts, q, rfl, ?_, hnext.1⟩
    have hfirst : BeginsName [tolower c] ↔
        (names.map fun w => (w.1.headD 0).toNat).contains (lowNat c.toNat) = true := by
      rw [← toNat_tolower]
      have hall : ∀ n < 256, BeginsName [UInt8.ofNat n] ↔
          (names.map fun w => (w.1.headD 0).toNat).contains n = true := by
        decide +kernel
      have h := hall _ (tolower c).toNat_lt
      rwa [UInt8.ofNat_toNat] at h
    have hspells := hnext.2
    rw [← toNat_tolower, UInt8.ofNat_toNat] at hspells
    rw [Spells]
    by_cases hb : BeginsName [tolower c]
    · rw [← toNat_tolower] at hfirst
      rw [if_pos (hfirst.mp hb)] at hspells
      rw [if_pos hb]
      exact mem_spelling hspells
    · rw [← toNat_tolower] at hfirst
      rw [if_neg (mt hfirst.mpr hb)] at hspells
      rw [if_neg hb]
      exact List.contains_iff_mem.mp hspells

/-- Behind a name comes the value of its kind. -/
theorem colons_checked :
    (∀ x ∈ spelling, machine.next x.1 58 =
      some ([.write_field], (kindOf x.2.1).valueState)) ∧
    ∀ q ∈ plain, machine.next q 58 = some ([.write_field], Kind.fields.valueState) := by
  decide +kernel

theorem kindOf_other {u : Bytes} (h : ¬ BeginsName u) : kindOf u = .fields := by
  have hne : ∀ w ∈ names, u ≠ w.1 := fun w hw heq => h ⟨w, hw, heq ▸ List.prefix_rfl⟩
  have h1 := hne _ (show (transfer_encoding, 61) ∈ names by decide)
  have h2 := hne _ (show (connection, 35) ∈ names by decide)
  have h3 := hne _ (show (content_length, 112) ∈ names by decide)
  rw [kindOf, if_neg h1, if_neg h2, if_neg h3]

theorem name_colon {q : Nat} {u : Bytes} (h : Spells q u) :
    machine.next q 58 = some ([.write_field], (kindOf u).valueState) := by
  unfold Spells at h
  split_ifs at h with hbegins
  · obtain ⟨ls, hls⟩ := h
    exact colons_checked.1 _ hls
  · rw [colons_checked.2 q h, kindOf_other hbegins]

/-! ### Values -/

/-- The value that the grammar knows behind a name, and the state after its first letter; the
others follow. -/
def Kind.word : Kind → Option (Bytes × Nat)
  | .transfer_encoding => some (chunked, 81)
  | .connection => some (close, 96)
  | _ => none

/-- The state `q` in a value, when `u` is what has been read of it, in lower case. -/
def Says (k : Kind) (q : Nat) (u : Bytes) : Prop :=
  match k.word with
  | some (w, first) =>
      if u <+: w then u ≠ [] ∧ q = first + (u.length - 1) else q = 23
  | none => if k = .content_length ∧ u.all digit then q = 119 else q = 23

/-- The bytes of a line. -/
def lineBytes : List Nat := (List.range 256).filter fun n => n != 10 && n != 13

theorem mem_lineBytes {c : UInt8} (h : inLine c = true) : c.toNat ∈ lineBytes := by
  unfold inLine at h
  simp only [Bool.and_eq_true, bne_iff_ne, ne_eq] at h
  refine List.mem_filter.mpr ⟨List.mem_range.mpr c.toNat_lt, ?_⟩
  simp only [Bool.and_eq_true, bne_iff_ne, ne_eq]
  exact ⟨fun h10 => h.1 (UInt8.toNat_inj.mp h10), fun h13 => h.2 (UInt8.toNat_inj.mp h13)⟩

/-- Every byte of a value, in every state of one. -/
theorem values_checked :
    (∀ k : Kind, ∀ w ∈ k.word, ∀ i < w.1.length, onRow (w.2 + i) (fun r => lineBytes.all fun n =>
      rowNext r n == some ([],
        if (w.1.map UInt8.toNat)[i + 1]? = some (lowNat n) then w.2 + (i + 1) else 23)) = true) ∧
    onRow 119 (fun r => lineBytes.all fun n =>
      rowNext r n == some ([], if 48 ≤ n ∧ n ≤ 57 then 119 else 23)) = true ∧
    onRow 23 (fun r => lineBytes.all fun n => rowNext r n == some ([], 23)) = true := by
  refine ⟨?_, by decide +kernel, by decide +kernel⟩
  rintro (_ | _ | _ | _) w hw
  · obtain rfl := Option.some.inj hw
    decide +kernel
  · obtain rfl := Option.some.inj hw
    decide +kernel
  · cases hw
  · cases hw

/-- The first byte of a value. -/
theorem valueFirsts_checked (k : Kind) : onRow k.valueState (fun r => lineBytes.all fun n =>
    rowNext r n == some ([.start_value],
      if n = 32 ∨ 9 ≤ n ∧ n ≤ 13 then k.valueState
      else match k.word with
        | some (w, first) => if (w.headD 0).toNat = lowNat n then first else 23
        | none => if k = .content_length ∧ 48 ≤ n ∧ n ≤ 57 then 119 else 23)) = true := by
  cases k <;> decide +kernel

theorem digit_iff (c : UInt8) : digit c = true ↔ 48 ≤ c.toNat ∧ c.toNat ≤ 57 := by
  rw [digit, Bool.and_eq_true, decide_eq_true_iff, decide_eq_true_iff, UInt8.le_iff_toNat_le,
    UInt8.le_iff_toNat_le]
  rfl

theorem digit_tolower (c : UInt8) : digit (tolower c) = digit c := by
  rw [Bool.eq_iff_iff, digit_iff, digit_iff, toNat_tolower, lowNat]
  split_ifs <;> omega

/-- A byte of the line leads on in the value. -/
theorem value_step {k : Kind} {q : Nat} {u : Bytes} {c : UInt8} (h : Says k q u) (hu : u ≠ [])
    (hc : inLine c = true) :
    ∃ q', machine.next q c = some ([], q') ∧ Says k q' (u ++ [tolower c]) := by
  have hmem := mem_lineBytes hc
  obtain ⟨hwords, hdigits, hplain⟩ := values_checked
  have h23 : machine.next 23 c = some ([], 23) := by
    rw [onRow_eq, List.all_eq_true] at hplain
    exact eq_of_beq (hplain _ hmem)
  unfold Says at h ⊢
  rcases hword : k.word with _ | ⟨w, first⟩
  · rw [hword] at h
    simp only at h ⊢
    rw [List.all_append, List.all_cons, List.all_nil, digit_tolower]
    by_cases hk : k = .content_length ∧ u.all digit = true
    · rw [if_pos hk] at h
      rw [onRow_eq, List.all_eq_true] at hdigits
      refine ⟨_, (congrArg (machine.next · c) h).trans (eq_of_beq (hdigits _ hmem)), ?_⟩
      by_cases hd : digit c = true
      · rw [if_pos ((digit_iff c).mp hd), if_pos (by simp [hk.1, hk.2, hd])]
      · rw [if_neg (mt (digit_iff c).mpr hd), if_neg (by simp [hd])]
    · rw [if_neg hk] at h
      refine ⟨23, h ▸ h23, ?_⟩
      rw [if_neg fun hd => hk ⟨hd.1, (Bool.and_eq_true _ _ ▸ hd.2).1⟩]
  · rw [hword] at h
    simp only at h ⊢
    by_cases hprefix : u <+: w
    · rw [if_pos hprefix] at h
      obtain ⟨n, hn⟩ : ∃ n, u.length = n + 1 := ⟨u.length - 1, by
        have := List.length_pos_of_ne_nil hu
        omega⟩
      have hlt : n < w.length := by
        have := hprefix.length_le
        omega
      have hrow := hwords k (w, first) hword n hlt
      rw [onRow_eq, List.all_eq_true] at hrow
      obtain ⟨-, rfl⟩ := h
      rw [hn, Nat.add_sub_cancel]
      refine ⟨_, eq_of_beq (hrow _ hmem), ?_⟩
      -- the word goes on with this letter, or it does not
      have hnext : u ++ [tolower c] <+: w ↔
          (w.map UInt8.toNat)[n + 1]? = some (lowNat c.toNat) := by
        rw [List.getElem?_map, ← toNat_tolower, ← hn]
        obtain ⟨v, rfl⟩ := hprefix
        rw [List.prefix_append_right_inj, List.getElem?_append_right (Nat.le_refl _), Nat.sub_self]
        cases v with
        | nil => simp
        | cons d v =>
            simp only [List.cons_prefix_cons, List.nil_prefix, and_true, List.getElem?_cons_zero,
              Option.map_some, Option.some.injEq]
            rw [UInt8.toNat_inj]
            exact eq_comm
      by_cases hgo : u ++ [tolower c] <+: w
      · rw [if_pos hgo, if_pos (hnext.mp hgo), List.length_append, hn]
        exact ⟨by simp, rfl⟩
      · rw [if_neg hgo, if_neg (mt hnext.mpr hgo)]
    · rw [if_neg hprefix] at h
      refine ⟨23, h ▸ h23, ?_⟩
      rw [if_neg fun hgo => hprefix ((List.prefix_append u _).trans hgo)]

theorem isspace_iff (c : UInt8) : isspace c = true ↔ c.toNat = 32 ∨ 9 ≤ c.toNat ∧ c.toNat ≤ 13 := by
  rw [isspace, Bool.or_eq_true, Bool.and_eq_true, decide_eq_true_iff, decide_eq_true_iff,
    decide_eq_true_iff, UInt8.le_iff_toNat_le, UInt8.le_iff_toNat_le, ← UInt8.toNat_inj]
  rfl

/-- Blanks in front of a value. -/
theorem value_blank (k : Kind) {c : UInt8} (hc : inLine c = true) (hspace : isspace c = true) :
    machine.next k.valueState c = some ([.start_value], k.valueState) := by
  have hrow := valueFirsts_checked k
  rw [onRow_eq, List.all_eq_true] at hrow
  have hnext := eq_of_beq (hrow _ (mem_lineBytes hc))
  rwa [if_pos ((isspace_iff c).mp hspace), ← machine_next] at hnext

theorem value_first (k : Kind) {c : UInt8} (hc : inLine c = true) (hspace : isspace c = false) :
    ∃ q, machine.next k.valueState c = some ([.start_value], q) ∧ Says k q [tolower c] := by
  have hrow := valueFirsts_checked k
  rw [onRow_eq, List.all_eq_true] at hrow
  have hnext := eq_of_beq (hrow _ (mem_lineBytes hc))
  have hnot : ¬(c.toNat = 32 ∨ 9 ≤ c.toNat ∧ c.toNat ≤ 13) := fun h => by
    rw [(isspace_iff c).mpr h] at hspace
    cases hspace
  rw [if_neg hnot, ← machine_next] at hnext
  refine ⟨_, hnext, ?_⟩
  unfold Says
  rcases hword : k.word with _ | ⟨w, first⟩
  · simp only [List.all_cons, List.all_nil, Bool.and_true, digit_tolower, digit_iff]
    split_ifs <;> rfl
  · have hne : w ≠ [] := by
      cases k <;> simp only [Kind.word, Option.some.injEq, Prod.mk.injEq, reduceCtorEq] at hword <;>
      · obtain ⟨rfl, -⟩ := hword
        exact List.cons_ne_nil _ _
    obtain ⟨d, w, rfl⟩ := List.exists_cons_of_ne_nil hne
    simp only [List.headD_cons, List.cons_prefix_cons, List.nil_prefix, and_true]
    have hsame : tolower c = d ↔ d.toNat = lowNat c.toNat := by
      rw [← toNat_tolower, UInt8.toNat_inj]
      exact eq_comm
    by_cases h : tolower c = d
    · rw [if_pos h]
      exact ⟨List.cons_ne_nil _ _, if_pos (hsame.mp h)⟩
    · rw [if_neg h]
      exact if_neg (mt hsame.mpr h)

/-! ### Line ends -/

/-- The end of a line from a state of it: the state behind the carriage return, what is done on
that, what is done on the line feed, and the state at the next line.  A line feed alone does
both. -/
structure LineEnd where
  state : Nat
  returned : Nat
  acts : List Action
  last : List Action
  next : Nat
  deriving DecidableEq, Repr

def LineEnd.Read (e : LineEnd) : Prop :=
  machine.next e.state 13 = some (e.acts, e.returned) ∧
    machine.next e.returned 10 = some (e.last, e.next) ∧
    machine.next e.state 10 = some (e.acts ++ e.last, e.next)

instance (e : LineEnd) : Decidable e.Read := inferInstanceAs (Decidable (_ ∧ _))

/-- The end of the status line. -/
def reasonEnd : LineEnd := ⟨19, 24, [.reason_phrase], [], 20⟩

/-- The state behind a line with no value. -/
def Kind.emptyNext : Kind → Nat
  | .transfer_encoding => 62
  | .connection => 36
  | .content_length => 113
  | .fields => 20

/-- The end of a line with no value: the grammar lets its value follow, on the next lines. -/
def Kind.emptyEnd (k : Kind) : LineEnd where
  state := k.valueState
  returned := match k with
    | .transfer_encoding => 80
    | .connection => 95
    | .content_length => 118
    | .fields => 24
  acts := [.start_value, .write_value]
  last := []
  next := k.emptyNext

/-- The value is one the grammar knows; `u` is it in lower case. -/
def Kind.Known (k : Kind) (u : Bytes) : Prop :=
  match k with
  | .transfer_encoding => u = chunked
  | .connection => u = close
  | .content_length => u ≠ [] ∧ u.all digit = true
  | .fields => False

instance (k : Kind) (u : Bytes) : Decidable (k.Known u) := by
  cases k <;> unfold Kind.Known <;> infer_instance

/-- The end of a line whose value the grammar does not know. -/
def valueEnd (q : Nat) : LineEnd := ⟨q, 24, [.write_value], [], 20⟩

/-- The end of a line whose value it knows. -/
def Kind.knownEnd : Kind → LineEnd
  | .transfer_encoding => ⟨87, 71, [.write_value], [.trans_chunked], 20⟩
  | .connection => ⟨100, 88, [.write_value], [], 43⟩
  | .content_length => ⟨119, 24, [.write_content_len, .write_value], [], 20⟩
  | .fields => valueEnd 23

/-- The end of the head, from the beginning of a line. -/
def headEnds : List LineEnd :=
  [⟨20, 3, [], [.done], 120⟩, ⟨36, 89, [], [.done], 122⟩, ⟨62, 72, [], [.done], 121⟩,
    ⟨113, 116, [], [.done], 123⟩, ⟨43, 3, [.write_connection_close], [.done], 120⟩]

theorem lineEnds_read :
    reasonEnd.Read ∧ (∀ k : Kind, k.emptyEnd.Read) ∧ (∀ k : Kind, k.knownEnd.Read) ∧
      (∀ q ∈ [23, 81, 82, 83, 84, 85, 86, 96, 97, 98, 99], (valueEnd q).Read) ∧
      ∀ e ∈ headEnds, e.Read := by
  refine ⟨by decide +kernel, fun k => ?_, fun k => ?_, by decide +kernel, by decide +kernel⟩ <;>
    cases k <;> decide +kernel

/-- The end of a line with a value. -/
theorem value_end {k : Kind} {q : Nat} {u : Bytes} (h : Says k q u) (hu : u ≠ []) :
    (k.Known u → k.knownEnd.state = q) ∧ (¬ k.Known u → (valueEnd q).Read) := by
  obtain ⟨-, -, -, hvalue, -⟩ := lineEnds_read
  unfold Says at h
  cases k with
  | fields =>
      simp only [Kind.word, reduceCtorEq, false_and, if_false] at h
      exact ⟨fun hk => hk.elim, fun _ => hvalue q (by rw [h]; decide)⟩
  | content_length =>
      simp only [Kind.word, true_and] at h
      refine ⟨fun hk => ?_, fun hk => hvalue q ?_⟩
      · rw [if_pos hk.2] at h
        exact h.symm
      · rw [if_neg fun hd => hk ⟨hu, hd⟩] at h
        rw [h]
        decide
  | transfer_encoding | connection =>
      simp only [Kind.word] at h
      refine ⟨fun hk => ?_, fun hk => hvalue q ?_⟩
      · have hk : u = _ := hk
        rw [if_pos (hk ▸ List.prefix_rfl), hk] at h
        exact h.2.symm
      · split_ifs at h with hprefix
        · -- a word that is not at its end
          obtain ⟨v, hv⟩ := hprefix
          have hv0 : v ≠ [] := by
            rintro rfl
            exact hk ((List.append_nil u).symm.trans hv)
          have hlen := congrArg List.length hv
          have := List.length_pos_of_ne_nil hv0
          have := List.length_pos_of_ne_nil hu
          rw [List.length_append] at hlen
          simp only [chunked, close, List.length_cons, List.length_nil] at hlen
          simp only [List.mem_cons, List.not_mem_nil, or_false]
          omega
        · rw [h]
          decide

end Client

end Http

end Will
