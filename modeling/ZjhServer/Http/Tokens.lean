/-
ZjhServer/Http/Tokens.lean

What the parser takes from a head, whatever the calls of `execute` it comes in.

The walk of the machine over the head gives the calls of the callbacks, each with the
positions in the head that the registers stand for (`calls`).  Of these positions a
call of `execute` sees only what is in its own buffer: with `start e` the position
of the first byte of the buffer that position `e` is in, a mark before `start e` has
been cleared, and a query start before it counts from the wrong buffer (`Call.see`).
`exec_see` says that this is all there is to `http_parser_execute`.

Which states a callback may still come from, and which registers have been set there, is
a discipline of the machine, checked once over its table (`rights_obeyed`).
-/
import ZjhServer.Http.Parser

namespace Will

namespace Http

open Transducer

/-! ### Rights -/

/-- What a state has a right to: a callback not called yet, the name of a field, the
start of a query. -/
inductive Right
  | method
  | path
  | query
  | fragment
  | version
  | named
  | queried
  deriving DecidableEq, Repr

instance : Fintype Right :=
  Fintype.ofList [.method, .path, .query, .fragment, .version, .named, .queried]
    fun r => by cases r <;> simp

/-- The states that have a right, as ranges. -/
def Right.holders : Right → List (Nat × Nat)
  | .method => [(1, 2), (175, 193)]
  | .path => [(1, 3), (19, 19), (24, 28), (33, 195), (198, 198), (202, 347)]
  | .query => [(1, 3), (19, 19), (24, 193)]
  | .fragment => [(1, 3), (19, 193)]
  | .version => [(1, 12), (19, 193)]
  | .named => [(15, 16)]
  | .queried => [(30, 32)]

/-- The right to a callback that an action uses up. -/
def Action.uses : Action → Option Right
  | .request_method => some .method
  | .request_path => some .path
  | .query_string => some .query
  | .fragment => some .fragment
  | .http_version => some .version
  | _ => none

def rights : Discipline Nat Action Right where
  needs b r := b.uses = some r || (b = .write_value && r = .named) ||
    (b = .query_string && r = .queried)
  drops b r := b.uses = some r || (b = .start_field && r = .named)
  gives b r := (b = .write_field && r = .named) || (b = .start_query && r = .queried)
  holds q r := r.holders.any fun h => h.1 ≤ q && q ≤ h.2

/-- The table, transition by transition: it keeps to the rights, a method ends at a
blank, no transition leads to the error state, and those to a final state are done. -/
theorem transitions_checked : ∀ row ∈ transitions, ∀ t ∈ row.2,
    rights.Fits t.target t.actions (rights.holds row.1) ∧
      (Action.request_method ∈ t.actions → t.on = [(32, 32)]) ∧
      t.target ≠ http_parser_error ∧
      (http_parser_first_final ≤ t.target ↔ Action.done ∈ t.actions) := by
  decide +kernel

theorem transition_some {uri_relaxed : Bool} {cs : Nat} {c : UInt8} {t : Transition}
    (h : transition uri_relaxed cs c = some t) :
    (∃ row ∈ transitions, row.1 = cs ∧ t ∈ row.2) ∧ t.accepts uri_relaxed c = true := by
  unfold transition at h
  refine ⟨?_, List.find?_some (p := fun t : Transition => t.accepts uri_relaxed c) h⟩
  have hmem := List.mem_of_find?_eq_some h
  rcases hrow : transitions.lookup cs with _ | ts
  · rw [hrow] at hmem; cases hmem
  · obtain ⟨l₁, l₂, hl, -⟩ := List.lookup_eq_some_iff.mp hrow
    rw [hrow] at hmem
    exact ⟨(cs, ts), by rw [hl]; simp, rfl, hmem⟩

theorem next_some {uri_relaxed : Bool} {cs cs' : Nat} {c : UInt8} {acts : List Action}
    (h : (machine uri_relaxed).next cs c = some (acts, cs')) :
    ∃ t, transition uri_relaxed cs c = some t ∧ t.actions = acts ∧ t.target = cs' := by
  obtain ⟨t, ht, heq⟩ := Option.map_eq_some_iff.mp h
  obtain ⟨rfl, rfl⟩ := Prod.mk.inj heq
  exact ⟨t, ht, rfl, rfl⟩

theorem rights_obeyed (uri_relaxed : Bool) : rights.Obeyed (machine uri_relaxed) := by
  intro cs c acts cs' h
  obtain ⟨t, ht, rfl, rfl⟩ := next_some h
  obtain ⟨⟨row, hrow, rfl, htrow⟩, -⟩ := transition_some ht
  exact (transitions_checked row hrow t htrow).1

/-- A method ends at a blank. -/
theorem method_at_blank {uri_relaxed : Bool} {cs cs' : Nat} {c : UInt8} {acts : List Action}
    (h : (machine uri_relaxed).next cs c = some (acts, cs')) (hacts : .request_method ∈ acts) :
    c = 32 := by
  obtain ⟨t, ht, rfl, rfl⟩ := next_some h
  obtain ⟨⟨row, hrow, rfl, htrow⟩, haccepts⟩ := transition_some ht
  have hon := (transitions_checked row hrow t htrow).2.1 hacts
  rw [Transition.accepts, hon, Bool.and_eq_true] at haccepts
  have hc := haccepts.2
  simp only [List.any_cons, List.any_nil, Bool.or_false, Bool.and_eq_true,
    decide_eq_true_eq] at hc
  exact UInt8.toNat_inj.mp (Nat.le_antisymm hc.2 hc.1)

/-- Where a walk over a head can be: in no final state before it halts. -/
theorem walk_state (uri_relaxed : Bool) {cs : Nat} (hcs : cs ≠ http_parser_error)
    (hfinal : cs < http_parser_first_final) (p : Nat) (w : Bytes) :
    ((machine uri_relaxed).walk cs p w).state ≠ http_parser_error ∧
      (((machine uri_relaxed).walk cs p w).ended = .halted ↔
        http_parser_first_final ≤ ((machine uri_relaxed).walk cs p w).state) := by
  induction w generalizing cs p with
  | nil => exact ⟨hcs, ⟨fun h => (by cases h), fun h => absurd hfinal (Nat.not_lt.mpr h)⟩⟩
  | cons c w ih =>
      rw [Machine.walk]
      rcases hnext : (machine uri_relaxed).next cs c with _ | ⟨acts, cs'⟩
      · exact ⟨hcs, ⟨fun h => (by cases h), fun h => absurd hfinal (Nat.not_lt.mpr h)⟩⟩
      · obtain ⟨t, ht, rfl, rfl⟩ := next_some hnext
        obtain ⟨⟨row, hrow, rfl, htrow⟩, -⟩ := transition_some ht
        obtain ⟨-, -, herr, hdone⟩ := transitions_checked row hrow t htrow
        have hhalts : t.actions.any (machine uri_relaxed).halts = true ↔ .done ∈ t.actions := by
          rw [List.any_eq_true]
          refine ⟨?_, fun h => ⟨.done, h, rfl⟩⟩
          rintro ⟨a, ha, hd⟩
          exact eq_of_beq hd ▸ ha
        simp only
        split_ifs with hhalt
        · exact ⟨herr, ⟨fun _ => hdone.mpr (hhalts.mp hhalt), fun _ => rfl⟩⟩
        · exact ih herr (Nat.lt_of_not_le fun h => hhalt (hhalts.mpr (hdone.mp h))) (p + 1)

/-! ### Calls -/

/-- Where in the head the registers were set, and where the name of a field ended. -/
structure Marks where
  mark : Nat
  field_start : Nat
  field_end : Nat
  query_start : Nat
  deriving DecidableEq, Repr

/-- A call of a callback: where its token begins, and the position it is called at; for
a field, where its name begins and ends, where its value begins, and the position. -/
inductive Call
  | method (m e : Nat)
  | path (m e : Nat)
  | query (q e : Nat)
  | fragment (m e : Nat)
  | version (m e : Nat)
  | field (s f m e : Nat)
  deriving DecidableEq, Repr

/-- An action at position `p`: what it marks, and what it calls. -/
def Marks.act (k : Marks) (p : Nat) : Action → Marks × Option Call
  | .mark | .start_value => ({ k with mark := p }, none)
  | .start_field => ({ k with field_start := p }, none)
  | .write_field => ({ k with field_end := p }, none)
  | .write_value => (k, some (.field k.field_start k.field_end k.mark p))
  | .request_method => (k, some (.method k.mark p))
  | .fragment => (k, some (.fragment k.mark p))
  | .start_query => ({ k with query_start := p }, none)
  | .query_string => (k, some (.query k.query_start p))
  | .http_version => (k, some (.version k.mark p))
  | .request_path => (k, some (.path k.mark p))
  | .request_uri | .done | .xml | .json => (k, none)

/-- The calls along a walk. -/
def callsFrom (k : Marks) : List (Nat × Action) → List Call
  | [] => []
  | (p, a) :: events => (k.act p a).2.toList ++ callsFrom (k.act p a).1 events

/-- The callback as called from the buffer that begins at `start e`: it sees nothing
before that, and a query start that was set in an earlier buffer is still counted
from the beginning of that one. -/
def Call.see (start : Nat → Nat) (head : Bytes) (d : ParserData) : Call → Option ParserData
  | .method m e => on_request_method d (head.drop (max m (start e))) (e - max m (start e))
  | .path m e => on_request_path d (head.drop (max m (start e))) (e - max m (start e))
  | .query q e =>
      on_request_query d (head.drop (start e + (q - start q))) (LEN (q - start q) (e - start e))
  | .fragment m e => on_request_fragment d (head.drop (max m (start e))) (e - max m (start e))
  | .version m e => on_request_version d (head.drop (max m (start e))) (e - max m (start e))
  | .field s f m e =>
      on_request_http_field d (head.drop (max s (start e))) (f - max s (start e))
        (head.drop (max m (start e))) (e - max m (start e))

/-- An action as seen in its buffer. -/
def seeAct (start : Nat → Nat) (head : Bytes) (p : Nat) (a : Action) (y : Marks × ParserData) :
    Option (Marks × ParserData) :=
  match (y.1.act p a).2 with
  | none => some ((y.1.act p a).1, y.2)
  | some c => (c.see start head y.2).map ((y.1.act p a).1, ·)

theorem foldlM_seeAct (start : Nat → Nat) (head : Bytes) (events : List (Nat × Action))
    (k : Marks) (d : ParserData) :
    (events.foldlM (fun y e => seeAct start head e.1 e.2 y) (k, d)).map Prod.snd =
      (callsFrom k events).foldlM (Call.see start head) d := by
  induction events generalizing k d with
  | nil => rfl
  | cons e events ih =>
      obtain ⟨p, a⟩ := e
      rw [List.foldlM_cons, callsFrom]
      rcases hcall : (k.act p a).2 with _ | c
      · have hact : seeAct start head p a (k, d) = some ((k.act p a).1, d) := by
          simp only [seeAct, hcall]
        rw [hact]
        exact ih _ _
      · have hact : seeAct start head p a (k, d) =
            (c.see start head d).map ((k.act p a).1, ·) := by
          simp only [seeAct, hcall]
        rw [hact, Option.toList_some, List.singleton_append, List.foldlM_cons]
        rcases c.see start head d with _ | d'
        · rfl
        · exact ih _ _

/-! ### One buffer -/

/-- The buffer of a call of `execute`: `data`, which begins at position `b` of the
head. -/
structure Buffer (start : Nat → Nat) (head data : Bytes) (b : Nat) : Prop where
  window : (head.drop b).take data.length = data
  fits : b + data.length ≤ head.length
  start : ∀ p, b ≤ p → p < b + data.length → start p = b

/-- The registers of the machine while it reads position `p`, and the positions they
stand for. -/
structure Regs (start : Nat → Nat) (b : Nat) (φ : Right → Bool) (p : Nat)
    (s : HttpRequestParser) (y : Marks × ParserData) : Prop where
  data : s.toParserData = y.2
  mark : s.parser.mark = y.1.mark - b
  mark_le : y.1.mark ≤ p
  field_start : s.parser.field_start = y.1.field_start - b
  field_start_le : y.1.field_start ≤ p
  field_end_le : y.1.field_end ≤ p
  named : φ .named = true → s.parser.field_len = y.1.field_end - max y.1.field_start b
  queried : φ .queried = true → s.parser.query_start = y.1.query_start - start y.1.query_start
  query_start_le : y.1.query_start ≤ p

theorem Regs.mono {start : Nat → Nat} {b : Nat} {φ ψ : Right → Bool} {p p' : Nat}
    {s : HttpRequestParser} {y : Marks × ParserData} (h : Regs start b φ p s y)
    (hle : ∀ r, ψ r = true → φ r = true) (hp : p ≤ p') : Regs start b ψ p' s y where
  data := h.data
  mark := h.mark
  mark_le := Nat.le_trans h.mark_le hp
  field_start := h.field_start
  field_start_le := Nat.le_trans h.field_start_le hp
  field_end_le := Nat.le_trans h.field_end_le hp
  named := fun hn => h.named (hle _ hn)
  queried := fun hq => h.queried (hle _ hq)
  query_start_le := Nat.le_trans h.query_start_le hp

theorem LEN_eq {start fpc : Nat} (h : start ≤ fpc) : LEN start fpc = fpc - start := if_pos h

/-- A length that has wrapped around is no length of a string. -/
theorem LEN_wrapped {start fpc : Nat} (h : fpc < start) (hlt : start < 2 ^ 63) :
    2 ^ 63 ≤ LEN start fpc := by
  rw [LEN, if_neg (Nat.not_le.mpr h)]
  omega

theorem string_congr {chars chars' : Bytes} {n : Nat} (h : chars.take n = chars'.take n) :
    string chars n = string chars' n := by
  unfold string
  rw [h]

variable {start : Nat → Nat} {head data : Bytes} {b : Nat}

/-- A window of the buffer is a window of the head. -/
theorem Buffer.take_drop (h : Buffer start head data b) {i n : Nat} (hin : i + n ≤ data.length) :
    (data.drop i).take n = (head.drop (b + i)).take n := by
  conv_lhs => rw [← h.window]
  rw [List.drop_take, List.take_take, List.drop_drop]
  congr 1
  omega

/-! ### Callbacks see their token only -/

theorem versionOf_congr {chars chars' : Bytes} {n : Nat} (h : chars.take n = chars'.take n) :
    versionOf chars n = versionOf chars' n := by
  unfold versionOf
  rw [strncmpEq_comm chars, strncmpEq_comm chars, strncmpEq_comm chars', strncmpEq_comm chars',
    strncmpEq_take h, strncmpEq_take h]

theorem on_request_version_congr (d : ParserData) {chars chars' : Bytes} {n : Nat}
    (h : chars.take n = chars'.take n) :
    on_request_version d chars n = on_request_version d chars' n := by
  unfold on_request_version
  rw [versionOf_congr h, string_congr h]

/-- A method that ends at a blank. -/
theorem CharsToHttpMethod_take {chars : Bytes} {n : Nat} (h : chars[n]? = some 32) :
    CharsToHttpMethod chars = CharsToHttpMethod (chars.take n) := by
  have hdrop : chars.drop n = 32 :: chars.drop (n + 1) := by
    obtain ⟨hlt, hget⟩ := List.getElem?_eq_some_iff.mp h
    rw [List.drop_eq_getElem_cons hlt, hget]
  conv_lhs => rw [← List.take_append_drop n chars, hdrop]
  exact CharsToHttpMethod_blank _ _

theorem on_request_method_congr (d : ParserData) {chars chars' : Bytes} {n : Nat}
    (h : chars.take n = chars'.take n) (hchars : chars[n]? = some 32)
    (hchars' : chars'[n]? = some 32) :
    on_request_method d chars n = on_request_method d chars' n := by
  unfold on_request_method
  rw [CharsToHttpMethod_take hchars, CharsToHttpMethod_take hchars', h, string_congr h]

/-- The bytes of the buffer between a register and the position read are bytes of the
head. -/
theorem Buffer.seen (h : Buffer start head data b) {m p : Nat} (hb : b ≤ p)
    (hp : p < b + data.length) (hm : m ≤ p) :
    (data.drop (m - b)).take (p - max m b) = (head.drop (max m b)).take (p - max m b) := by
  rw [h.take_drop (by omega)]
  congr 2
  omega

/-- What a register that stands for `m` gives as a length at position `p`. -/
theorem LEN_seen {m p : Nat} (hb : b ≤ p) (hm : m ≤ p) : LEN (m - b) (p - b) = p - max m b := by
  rw [LEN_eq (by omega)]
  omega

/-- The string a stale query start gives, or its impossible length. -/
theorem query_seen (h : Buffer start head data b)
    (hshort : ∀ q, q < b + data.length → q - start q < 2 ^ 63) {q p : Nat}
    (hb : b ≤ p) (hp : p < b + data.length) (hq : q ≤ p) :
    string (data.drop (q - start q)) (LEN (q - start q) (p - b)) =
      string (head.drop (b + (q - start q))) (LEN (q - start q) (p - b)) := by
  by_cases hle : q - start q ≤ p - b
  · apply string_congr
    rw [LEN_eq hle]
    exact h.take_drop (by omega)
  · have hwrapped := LEN_wrapped (Nat.lt_of_not_le hle) (hshort q (by omega))
    unfold string
    rw [if_neg (Nat.not_lt.mpr hwrapped), if_neg (Nat.not_lt.mpr hwrapped)]

/-! ### One action -/

/-- A callback that sees the same in its buffer and in the head. -/
theorem Regs.called {φ : Right → Bool} {p : Nat} {s : HttpRequestParser}
    {y : Marks × ParserData} (h : Regs start b φ p s y) {r r' : Option ParserData}
    (hr : r = r') :
    Option.Rel (Regs start b φ p) (r.map s.setData) (r'.map (y.1, ·)) := by
  subst hr
  rcases r with _ | d
  · exact .none
  · exact .some { h with data := rfl }

theorem act_see (hbuf : Buffer start head data b)
    (hshort : ∀ q, q < b + data.length → q - start q < 2 ^ 63) {p : Nat}
    (hb : b ≤ p) (hp : p < b + data.length) {φ : Right → Bool} {s : HttpRequestParser}
    {y : Marks × ParserData} {a : Action} (hallowed : rights.Allowed a φ)
    (hblank : a = .request_method → head[p]? = some 32) (h : Regs start b φ p s y) :
    Option.Rel (Regs start b (rights.after a φ) p) (act data (p - b) s a)
      (seeAct start head p a y) := by
  have hstart : start p = b := hbuf.start p hb hp
  have hafter : a ≠ .write_field → a ≠ .start_query →
      ∀ r, rights.after a φ r = true → φ r = true := by
    intro hf hq r hr
    simp only [Discipline.after, rights, hf, hq, decide_false, Bool.false_and, Bool.or_self,
      Bool.false_or, Bool.and_eq_true] at hr
    exact hr.1
  cases a with
  | mark =>
      exact .some { h.mono (hafter (by decide) (by decide)) (Nat.le_refl p) with
        mark := rfl, mark_le := Nat.le_refl p }
  | start_value =>
      exact .some { h.mono (hafter (by decide) (by decide)) (Nat.le_refl p) with
        mark := rfl, mark_le := Nat.le_refl p }
  | start_field =>
      refine .some { h.mono (hafter (by decide) (by decide)) (Nat.le_refl p) with
        field_start := rfl, field_start_le := Nat.le_refl p, named := fun hn => ?_ }
      simp [Discipline.after, rights] at hn
  | write_field =>
      refine .some { h with
        field_end_le := Nat.le_refl p, named := fun _ => ?_, queried := fun hq => h.queried ?_ }
      · show LEN s.parser.field_start (p - b) = p - max y.1.field_start b
        rw [h.field_start]
        exact LEN_seen hb h.field_start_le
      · simpa [Discipline.after, rights, Action.uses] using hq
  | start_query =>
      refine .some { h with
        named := fun hn => h.named ?_, queried := fun _ => ?_, query_start_le := Nat.le_refl p }
      · simpa [Discipline.after, rights, Action.uses] using hn
      · show p - b = p - start p
        rw [hstart]
  | request_uri | done | xml | json =>
      exact .some { h.mono (hafter (by decide) (by decide)) (Nat.le_refl p) with }
  | write_value =>
      have hnamed := h.named (hallowed .named (by decide))
      refine (h.mono (hafter (by decide) (by decide)) (Nat.le_refl p)).called ?_
      have hfe := h.field_end_le
      -- what the buffer has of the name, from its start to the recorded end
      have hname : (data.drop s.parser.field_start).take s.parser.field_len =
          (head.drop (max y.1.field_start b)).take (y.1.field_end - max y.1.field_start b) := by
        have := h.field_start_le
        rw [h.field_start, hnamed, hbuf.take_drop (by omega)]
        congr 2
        omega
      rw [hnamed] at hname
      simp only [Call.see, hstart, hnamed, h.mark, h.data, LEN_seen hb h.mark_le,
        on_request_http_field, string_congr hname,
        string_congr (hbuf.seen hb hp h.mark_le)]
  | request_method =>
      refine (h.mono (hafter (by decide) (by decide)) (Nat.le_refl p)).called ?_
      have hm := h.mark_le
      have hhead' := hblank rfl
      rw [Call.see, h.mark, h.data, hstart, LEN_seen hb hm]
      -- the lookup reads on to the blank behind the token, which both texts have
      refine on_request_method_congr _ (hbuf.seen hb hp hm) ?_ ?_
      · rw [List.getElem?_drop, ← hbuf.window, List.getElem?_take_of_lt (by omega),
          List.getElem?_drop, ← hhead']
        congr 1
        omega
      · rw [List.getElem?_drop, ← hhead']
        congr 1
        omega
  | fragment =>
      refine (h.mono (hafter (by decide) (by decide)) (Nat.le_refl p)).called ?_
      simp only [Call.see, hstart, h.mark, h.data, LEN_seen hb h.mark_le,
        on_request_fragment, string_congr (hbuf.seen hb hp h.mark_le)]
  | query_string =>
      refine (h.mono (hafter (by decide) (by decide)) (Nat.le_refl p)).called ?_
      simp only [Call.see, hstart, h.data, h.queried (hallowed .queried (by decide)),
        on_request_query,
        query_seen hbuf hshort hb hp h.query_start_le]
  | http_version =>
      refine (h.mono (hafter (by decide) (by decide)) (Nat.le_refl p)).called ?_
      rw [Call.see, h.mark, h.data, hstart, LEN_seen hb h.mark_le]
      exact on_request_version_congr _ (hbuf.seen hb hp h.mark_le)
  | request_path =>
      refine (h.mono (hafter (by decide) (by decide)) (Nat.le_refl p)).called ?_
      simp only [Call.see, hstart, h.mark, h.data, LEN_seen hb h.mark_le,
        on_request_path, string_congr (hbuf.seen hb hp h.mark_le)]

/-! ### Registers stay inside the buffer -/

/-- The registers before the byte at offset `p` is read. -/
structure Bounded (p : Nat) (s : HttpRequestParser) : Prop where
  mark : s.parser.mark ≤ p - 1
  field_start : s.parser.field_start ≤ p - 1
  field_len : s.parser.field_len ≤ p
  body_start : s.parser.body_start ≤ p

theorem Bounded.succ {p : Nat} {s : HttpRequestParser} (h : Bounded p s) : Bounded (p + 1) s where
  mark := by have := h.mark; omega
  field_start := by have := h.field_start; omega
  field_len := by have := h.field_len; omega
  body_start := by have := h.body_start; omega

/-- After a callback the registers are as before. -/
theorem setData_keeps {s s' : HttpRequestParser} {r : Option ParserData}
    (h : r.map s.setData = some s') : s'.parser = s.parser := by
  obtain ⟨d, -, rfl⟩ := Option.map_eq_some_iff.mp h
  rfl

theorem act_bounded {buffer : Bytes} {p : Nat} {s s' : HttpRequestParser} {a : Action}
    (h : Bounded (p + 1) s) (hact : act buffer p s a = some s') : Bounded (p + 1) s' := by
  have hcallback : s'.parser = s.parser → Bounded (p + 1) s' := by
    intro hsame
    exact ⟨hsame ▸ h.mark, hsame ▸ h.field_start, hsame ▸ h.field_len, hsame ▸ h.body_start⟩
  cases a with
  | mark | start_value => cases hact; exact { h with mark := Nat.le_refl p }
  | start_field => cases hact; exact { h with field_start := Nat.le_refl p }
  | write_field =>
      cases hact
      refine { h with field_len := ?_ }
      show LEN s.parser.field_start p ≤ p + 1
      rw [LEN_eq (show s.parser.field_start ≤ p from h.field_start)]
      omega
  | start_query | xml | json => cases hact; exact { h with }
  | done =>
      cases hact
      refine { h with body_start := ?_ }
      show (if _ then s.parser.mark else p + 1) ≤ p + 1
      split
      · exact Nat.le_succ_of_le h.mark
      · exact Nat.le_refl _
  | request_uri => cases hact; exact h
  | write_value | request_method | fragment | query_string | http_version | request_path =>
      exact hcallback (setData_keeps hact)

theorem acts_bounded {buffer : Bytes} {p : Nat} {acts : List Action} {s s' : HttpRequestParser}
    (h : Bounded (p + 1) s) (hacts : acts.foldlM (act buffer p) s = some s') :
    Bounded (p + 1) s' := by
  induction acts generalizing s with
  | nil => cases hacts; exact h
  | cons a acts ih =>
      rw [List.foldlM_cons] at hacts
      obtain ⟨t, ht, hrest⟩ := Option.bind_eq_some_iff.mp hacts
      exact ih (act_bounded h ht) hrest

theorem exec_bounded {buffer rest : Bytes} {p cs : Nat} {s : HttpRequestParser} {r : Exec}
    (h : Bounded p s) (hexec : exec buffer p rest cs s = some r) :
    Bounded r.p r.parser ∧ r.p ≤ p + rest.length := by
  induction rest generalizing p cs s with
  | nil => cases hexec; exact ⟨h, Nat.le_refl _⟩
  | cons c rest ih =>
      rw [exec] at hexec
      rcases htrans : transition s.parser.uri_relaxed cs c with _ | t
      · rw [htrans] at hexec
        cases hexec
        exact ⟨h, Nat.le_add_right _ _⟩
      · rw [htrans] at hexec
        obtain ⟨s', hs', hrest⟩ := Option.bind_eq_some_iff.mp hexec
        have hs := acts_bounded h.succ hs'
        rw [List.length_cons]
        split_ifs at hrest with hdone
        · cases hrest
          exact ⟨hs, by simp only; omega⟩
        · obtain ⟨hbounded, hle⟩ := ih hs hrest
          exact ⟨hbounded, by omega⟩

/-- `parser->cs = cs`, unless there has been an error. -/
def Exec.finish (r : Exec) : HttpRequestParser :=
  if http_parser_has_error r.parser.parser then r.parser
  else r.parser.setParser { r.parser.parser with cs := r.cs }

/-- The assertions hold, for a parser that has not yet seen the end of a head. -/
theorem http_parser_execute_eq {s : HttpRequestParser} (hbody : s.parser.body_start = 0)
    {buffer : Bytes} (hempty : buffer ≠ []) :
    http_parser_execute s buffer =
      match exec buffer 0 buffer s.parser.cs s.clear with
      | none => .length_error
      | some r => .returned r.finish r.p := by
  have hclear : Bounded 0 s.clear :=
    ⟨Nat.le_refl 0, Nat.le_refl 0, Nat.le_refl 0, Nat.le_of_eq hbody⟩
  rw [http_parser_execute, if_neg hempty]
  rcases hexec : exec buffer 0 buffer s.parser.cs s.clear with _ | r
  · rfl
  · obtain ⟨hbounded, hle⟩ := exec_bounded hclear hexec
    have hlen := List.length_pos_of_ne_nil hempty
    have hmark := hbounded.mark
    have hstart := hbounded.field_start
    have hflen := hbounded.field_len
    have hbs := hbounded.body_start
    have hasserts : asserts r.finish.parser r.p buffer.length = true := by
      have hregs : asserts r.parser.parser r.p buffer.length = true := by
        simp only [asserts, Bool.and_eq_true, decide_eq_true_eq]
        omega
      unfold Exec.finish
      split
      · exact hregs
      · exact hregs
    exact if_pos hasserts

/-- **The assertions behind the machine never fail.** -/
theorem http_parser_execute_asserts {s : HttpRequestParser} (hbody : s.parser.body_start = 0)
    (buffer : Bytes) : http_parser_execute s buffer ≠ .aborted := by
  rcases eq_or_ne buffer [] with rfl | hempty
  · exact fun h => by cases h
  · rw [http_parser_execute_eq hbody hempty]
    split <;> exact fun h => by cases h

/-! ### One call of `execute` -/

/-- What no action changes, and only `done` changes. -/
theorem act_keeps {buffer : Bytes} {p : Nat} {s s' : HttpRequestParser} {a : Action}
    (hact : act buffer p s a = some s') :
    s'.parser.uri_relaxed = s.parser.uri_relaxed ∧ s'.parser.cs = s.parser.cs ∧
      (a ≠ .done → s'.parser.body_start = s.parser.body_start) := by
  cases a with
  | write_value | request_method | fragment | query_string | http_version | request_path =>
      rw [setData_keeps hact]
      exact ⟨rfl, rfl, fun _ => rfl⟩
  | done => cases hact; exact ⟨rfl, rfl, fun h => absurd rfl h⟩
  | _ => cases hact; exact ⟨rfl, rfl, fun _ => rfl⟩

theorem events_keep {buffer : Bytes} (offset : Nat → Nat) {events : List (Nat × Action)}
    {s s' : HttpRequestParser}
    (h : events.foldlM (fun s e => act buffer (offset e.1) s e.2) s = some s') :
    s'.parser.uri_relaxed = s.parser.uri_relaxed ∧ s'.parser.cs = s.parser.cs ∧
      ((∀ e ∈ events, e.2 ≠ .done) → s'.parser.body_start = s.parser.body_start) := by
  induction events generalizing s with
  | nil => cases h; exact ⟨rfl, rfl, fun _ => rfl⟩
  | cons e events ih =>
      rw [List.foldlM_cons] at h
      obtain ⟨t, ht, hrest⟩ := Option.bind_eq_some_iff.mp h
      obtain ⟨hrelaxed, hcs, hbody⟩ := ih hrest
      obtain ⟨hrelaxed', hcs', hbody'⟩ := act_keeps ht
      refine ⟨hrelaxed.trans hrelaxed', hcs.trans hcs', fun hdone => ?_⟩
      rw [hbody fun e he => hdone e (List.mem_cons_of_mem _ he),
        hbody' (hdone e (List.mem_cons_self ..))]

/-- `exec` is the walk of the machine, its actions performed one after the other. -/
theorem exec_walk (data rest : Bytes) {b p : Nat} (hb : b ≤ p) (cs : Nat)
    (s : HttpRequestParser) :
    exec data (p - b) rest cs s =
      (((machine s.parser.uri_relaxed).walk cs p rest).events.foldlM
        (fun s e => act data (e.1 - b) s e.2) s).map fun s' =>
          ⟨s', if ((machine s.parser.uri_relaxed).walk cs p rest).ended = .stuck then
              http_parser_error
            else ((machine s.parser.uri_relaxed).walk cs p rest).state,
            ((machine s.parser.uri_relaxed).walk cs p rest).pos - b⟩ := by
  induction rest generalizing p cs s with
  | nil => rfl
  | cons c rest ih =>
      rw [exec, Machine.walk]
      rcases htrans : transition s.parser.uri_relaxed cs c with _ | t
      · have hnext : (machine s.parser.uri_relaxed).next cs c = none := by
          simp only [machine, htrans, Option.map_none]
        rw [hnext]
        rfl
      · have hnext : (machine s.parser.uri_relaxed).next cs c = some (t.actions, t.target) := by
          simp only [machine, htrans, Option.map_some]
        have hhalts : t.actions.any (machine s.parser.uri_relaxed).halts =
            t.actions.contains .done := by
          rw [List.contains_eq_any_beq]
          congr 1
          funext a
          exact Bool.beq_comm
        rw [hnext]
        simp only [hhalts]
        -- `done` stops the parser behind the character it read
        rcases hdone : t.actions.contains .done with _ | _
        · simp only [Bool.false_eq_true, if_false, Walk.events_behind, Walk.state_behind,
            Walk.pos_behind, Walk.ended_behind, List.foldlM_append, List.foldlM_map]
          rcases hacts : t.actions.foldlM (act data (p - b)) s with _ | s'
          · rfl
          · have hevents : (t.actions.map (p, ·)).foldlM
                (fun s e => act data (e.1 - b) s e.2) s = some s' := by
              rw [List.foldlM_map]
              exact hacts
            obtain ⟨hrelaxed, -, -⟩ := events_keep (· - b) hevents
            have hrest := ih (Nat.le_succ_of_le hb) t.target s'
            rw [hrelaxed, Nat.succ_sub hb] at hrest
            exact hrest
        · simp only [if_true, List.foldlM_map, Nat.sub_add_comm hb]
          rcases hacts : t.actions.foldlM (act data (p - b)) s with _ | s'
          · rfl
          · rfl

/-- A parser before a call of `execute` on the buffer that begins at `b`. -/
structure Ready (start : Nat → Nat) (b : Nat) (uri_relaxed : Bool) (cs : Nat)
    (s : HttpRequestParser) (y : Marks × ParserData) : Prop where
  reached : s.parser.cs = cs
  alive : cs ≠ http_parser_error
  running : cs < http_parser_first_final
  relaxed : s.parser.uri_relaxed = uri_relaxed
  body : s.parser.body_start = 0
  regs : Regs start b (rights.holds cs) b s.clear y

/-- The registers cleared at the end of a buffer stand for what they did. -/
theorem Regs.clear {φ : Right → Bool} {b' : Nat} {s : HttpRequestParser} {y : Marks × ParserData}
    (h : Regs start b φ b' s y) : Regs start b' φ b' s.clear y where
  data := h.data
  mark := (Nat.sub_eq_zero_of_le h.mark_le).symm
  mark_le := h.mark_le
  field_start := (Nat.sub_eq_zero_of_le h.field_start_le).symm
  field_start_le := h.field_start_le
  field_end_le := h.field_end_le
  named := fun _ => (Nat.sub_eq_zero_of_le
    (Nat.le_trans h.field_end_le (Nat.le_max_right _ _))).symm
  queried := h.queried
  query_start_le := h.query_start_le

/-- The actions of a walk over one buffer. -/
theorem events_see (uri_relaxed : Bool) (hbuf : Buffer start head data b)
    (hshort : ∀ q, q < b + data.length → q - start q < 2 ^ 63) {cs : Nat}
    {s : HttpRequestParser} {y : Marks × ParserData}
    (h : Regs start b (rights.holds cs) b s y) :
    Option.Rel
      (Regs start b (rights.holds ((machine uri_relaxed).walk cs b data).state)
        ((machine uri_relaxed).walk cs b data).pos)
      (((machine uri_relaxed).walk cs b data).events.foldlM
        (fun s e => act data (e.1 - b) s e.2) s)
      (((machine uri_relaxed).walk cs b data).events.foldlM
        (fun y e => seeAct start head e.1 e.2 y) y) := by
  refine Discipline.sim (rights_obeyed uri_relaxed) (R := Regs start b)
    (f := fun p a s => act data (p - b) s a) (g := fun p a y => seeAct start head p a y)
    ?_ (fun φ ψ p p' s y hle hp h => h.mono hle hp) (Nat.le_refl b)
    (by rw [Nat.sub_self, List.drop_zero]) h
  intro φ p q c acts q' a s y hb hc hnext ha hallowed h
  obtain ⟨hlt, -⟩ := List.getElem?_eq_some_iff.mp hc
  refine act_see hbuf hshort hb (by omega) hallowed (fun hmethod => ?_) h
  rw [method_at_blank hnext (hmethod ▸ ha), ← hbuf.window, List.getElem?_take_of_lt hlt,
    List.getElem?_drop] at hc
  rw [← hc]
  congr 1
  omega

/-- **One call of `execute`**: it does what the walk over its buffer says, the callbacks
seeing what is in the buffer. -/
theorem execute_see (hbuf : Buffer start head data b)
    (hshort : ∀ q, q < b + data.length → q - start q < 2 ^ 63)
    (hdata : data ≠ []) {uri_relaxed : Bool} {cs : Nat} {s : HttpRequestParser}
    {y : Marks × ParserData} (h : Ready start b uri_relaxed cs s y) :
    let r := (machine uri_relaxed).walk cs b data
    match r.events.foldlM (fun y e => seeAct start head e.1 e.2 y) y with
    | none => s.execute data = .length_error
    | some y' => ∃ s', s.execute data = .returned s' (r.pos - b) ∧ s'.toParserData = y'.2 ∧
        s'.parser.cs = (if r.ended = .stuck then http_parser_error else r.state) ∧
        (r.ended = .ran → Ready start (b + data.length) uri_relaxed r.state s' y') := by
  intro r
  have hexec := exec_walk data data (Nat.le_refl b) cs s.clear
  rw [show s.clear.parser.uri_relaxed = uri_relaxed from h.relaxed, Nat.sub_self] at hexec
  have hrel := events_see uri_relaxed hbuf hshort h.regs
  have hcall := http_parser_execute_eq h.body hdata
  rw [h.reached, hexec] at hcall
  -- both runs fail or both go on, by `events_see`
  rcases hacts : r.events.foldlM (fun s e => act data (e.1 - b) s e.2) s.clear with _ | s' <;>
    rcases hsee : r.events.foldlM (fun y e => seeAct start head e.1 e.2 y) y with _ | y' <;>
    rw [hacts, hsee] at hrel <;> rw [hsee]
  · rw [hacts] at hcall
    exact hcall
  · cases hrel
  · cases hrel
  · cases hrel with
    | some hregs =>
      rw [hacts] at hcall
      obtain ⟨hrelaxed, hcs, hbody⟩ := events_keep (· - b) hacts
      have hstate := walk_state uri_relaxed h.alive h.running b data
      have hfinish : Exec.finish ⟨s', if r.ended = .stuck then http_parser_error else r.state,
          r.pos - b⟩ = s'.setParser { s'.parser with
            cs := if r.ended = .stuck then http_parser_error else r.state } := by
        have hnoerr : http_parser_has_error s'.parser = false := by
          rw [http_parser_has_error, hcs]
          exact decide_eq_false (h.reached.symm ▸ h.alive)
        rw [Exec.finish, if_neg (by rw [hnoerr]; exact Bool.false_ne_true)]
      refine ⟨_, hcall.trans (congrArg (Executed.returned · (r.pos - b)) hfinish), hregs.data, rfl,
        fun hran => ⟨?_, hstate.1, ?_, ?_, ?_, ?_⟩⟩
      · exact if_neg (by rw [hran]; decide)
      · exact Nat.lt_of_not_le fun hle => by
          have := hstate.2.mpr hle
          rw [hran] at this
          cases this
      · exact hrelaxed.trans h.relaxed
      · refine (hbody fun e he hdone => ?_).trans h.body
        have hhalts := Machine.walk_not_halts (by rw [hran]; decide) e he
        rw [hdone] at hhalts
        cases hhalts
      · have hpos : r.pos = b + data.length := Machine.walk_pos_ran hran
        rw [← hpos]
        exact Regs.clear { hregs with }

end Http

end Will
