/-
ZjhServer/HttpClient/Execute.lean

What a call of `HttpResponseParser::execute` (server/http/http_parser.cc) comes to, for every
parser and every buffer (`execute_outcome`).

A mark lies in front of the byte that is read, so what a callback gets is a piece of the buffer,
but for the name of a header.  Where a `chunked` or digits stand at the very beginning of the line
behind `Transfer-Encoding:` or `Content-Length:`, the machine has noted where a next name may begin
and still has the length of the last; what it takes for a name there may end behind the buffer
(`Overreads`).

The check behind the machine fails on an empty buffer only, and the call then returns -1, which its
caller takes as an offset.  An assertion fails on a buffer that is not terminated or that an `int`
does not count, and on one that is shorter than the header an earlier call found the end of.
-/
import ZjhServer.Http.Tokens
import ZjhServer.HttpClient.Parser

namespace Will

namespace Http

namespace Client

open Transducer

/-- An action, as a walk has it. -/
def performed (buffer : Bytes) (p : Nat) (a : Action) (s : HttpResponseParser) :
    Option HttpResponseParser := act buffer p s a

/-! ### Actions -/

/-- The registers before the byte at offset `p` is read. -/
structure Bounded (p : Nat) (s : HttpResponseParser) : Prop where
  mark : s.parser.mark ≤ p - 1
  field_start : s.parser.field_start ≤ p - 1
  field_len : s.parser.field_len ≤ p

theorem Bounded.mono {p q : Nat} {s : HttpResponseParser} (h : Bounded p s) (hpq : p ≤ q) :
    Bounded q s where
  mark := by have := h.mark; omega
  field_start := by have := h.field_start; omega
  field_len := h.field_len.trans hpq

theorem text_some {chars : Bytes} {n : Nat} (h : n ≤ chars.length) (hn : n < 2 ^ 63) :
    text chars n = some (chars.take n) := by
  rw [text, if_pos (Nat.le_succ_of_le h), string, if_pos hn, List.take_append_of_le_length h]

/-- A text of the buffer, which may take in the NUL. -/
theorem text_isSome {buffer : Bytes} {start n : Nat} (hstart : start ≤ buffer.length)
    (hn : n < 2 ^ 63) :
    (text (buffer.drop start) n).isSome = true ↔ start + n ≤ buffer.length + 1 := by
  rw [text, string, if_pos hn, List.length_drop]
  by_cases h : n ≤ buffer.length - start + 1
  · rw [if_pos h]
    exact iff_of_true rfl (by omega)
  · rw [if_neg h]
    exact iff_of_false Bool.false_ne_true (by omega)

/-- What `write_value` takes for the name of a header ends behind the buffer. -/
def Overreads (buffer : Bytes) (_ : Nat) (a : Action) (s : HttpResponseParser) : Prop :=
  a = .write_value ∧ s.parser.field_len ≠ 0 ∧
    buffer.length + 1 < s.parser.field_start + s.parser.field_len

/-- A version is seen that is neither 1.0 nor 1.1. -/
def Unversioned (buffer : Bytes) (p : Nat) (a : Action) (s : HttpResponseParser) : Prop :=
  a = .http_version ∧ versionOf (buffer.drop s.parser.mark) (p - s.parser.mark) = none

/-- The registers after an action, and the error. -/
structure Left (buffer : Bytes) (p : Nat) (a : Action) (s s' : HttpResponseParser) : Prop where
  bounded : Bounded (p + 1) s'
  cs : s'.parser.cs = s.parser.cs
  body_start : s'.parser.body_start = if a = .done then p + 1 else s.parser.body_start
  error : Unversioned buffer p a s → s'.m_error = 1001
  noError : ¬Unversioned buffer p a s → s'.m_error = s.m_error

/-- A callback that has got its texts leaves the registers as they are. -/
theorem callback_left {buffer : Bytes} {p : Nat} {a : Action} {s s₀ : HttpResponseParser}
    {r : Option ParserData} (hr : r.isSome = true) (hbounded : Bounded (p + 1) s₀)
    (hcs : s₀.parser.cs = s.parser.cs) (hbody : s₀.parser.body_start = s.parser.body_start)
    (hdone : a ≠ .done)
    (herror : ∀ d ∈ r, (Unversioned buffer p a s → d.m_error = 1001) ∧
      (¬Unversioned buffer p a s → d.m_error = s.m_error)) :
    ∃ s', r.map s₀.setData = some s' ∧ Left buffer p a s s' := by
  obtain ⟨d, rfl⟩ := Option.isSome_iff_exists.mp hr
  obtain ⟨hyes, hno⟩ := herror d rfl
  exact ⟨_, rfl, ⟨hbounded.mark, hbounded.field_start, hbounded.field_len⟩, hcs,
    hbody.trans (if_neg hdone).symm, hyes, hno⟩

/-- What an action does to the registers: it keeps them inside the buffer, and `done` notes where
the header ends. -/
theorem act_left {buffer : Bytes} {p : Nat} (hp : p < buffer.length)
    (hbuffer : buffer.length < 2 ^ 63) (a : Action) {s : HttpResponseParser}
    (h : Bounded (p + 1) s) :
    (Overreads buffer p a s → performed buffer p a s = none) ∧
      (¬Overreads buffer p a s → ∃ s', performed buffer p a s = some s' ∧
        Left buffer p a s s') := by
  have hmark : s.parser.mark ≤ p := h.mark
  have hfield : s.parser.field_start ≤ p := h.field_start
  have hlen : LEN s.parser.mark p = p - s.parser.mark := LEN_eq hmark
  -- a piece from the mark to the byte that is read
  have hpiece : (text (buffer.drop s.parser.mark) (p - s.parser.mark)).isSome = true :=
    (text_isSome (by omega) (by omega)).mpr (by omega)
  -- an action on the registers alone
  have hregister {a : Action} {parser : HttpClientParser} (ha : a ≠ .http_version)
      (hbounded : Bounded (p + 1) (s.setParser parser)) (hcs : parser.cs = s.parser.cs)
      (hbody : parser.body_start = if a = .done then p + 1 else s.parser.body_start) :
      Left buffer p a s (s.setParser parser) :=
    ⟨hbounded, hcs, hbody, fun hun => absurd hun.1 ha, fun _ => rfl⟩
  cases a with
  | mark | start_value =>
      exact ⟨fun hover => (by cases hover.1), fun _ => ⟨_, rfl,
        hregister nofun { h with mark := Nat.le_refl p } rfl rfl⟩⟩
  | start_field =>
      exact ⟨fun hover => (by cases hover.1), fun _ => ⟨_, rfl,
        hregister nofun { h with field_start := Nat.le_refl p } rfl rfl⟩⟩
  | write_field =>
      refine ⟨fun hover => (by cases hover.1), fun _ => ⟨_, rfl,
        hregister nofun { h with field_len := ?_ } rfl rfl⟩⟩
      show LEN s.parser.field_start p ≤ p + 1
      rw [LEN_eq hfield]
      omega
  | write_content_len | write_connection_close | chunk_size | trans_chunked =>
      exact ⟨fun hover => (by cases hover.1), fun _ => ⟨_, rfl,
        hregister nofun { h with } rfl rfl⟩⟩
  | done =>
      exact ⟨fun hover => (by cases hover.1), fun _ => ⟨_, rfl,
        hregister nofun { h with } rfl rfl⟩⟩
  | write_value =>
      have hname : (text (buffer.drop s.parser.field_start) s.parser.field_len).isSome = true ↔
          s.parser.field_start + s.parser.field_len ≤ buffer.length + 1 :=
        text_isSome (by omega) (by have := h.field_len; omega)
      constructor
      · rintro ⟨-, hne, hlong⟩
        have hnone : text (buffer.drop s.parser.field_start) s.parser.field_len = none :=
          Option.not_isSome_iff_eq_none.mp fun hsome => absurd (hname.mp hsome) (by omega)
        simp only [performed, act, on_response_http_field, if_neg hne, hnone]
        rfl
      · intro hover
        refine callback_left ?_ h rfl rfl nofun fun d hd =>
          ⟨fun hun => (by cases hun.1), fun _ => ?_⟩
        · unfold on_response_http_field
          split_ifs with hzero
          · rfl
          · have hfits := hname.mpr (Nat.le_of_not_lt fun hlong => hover ⟨rfl, hzero, hlong⟩)
            obtain ⟨key, hkey⟩ := Option.isSome_iff_exists.mp hfits
            rw [hkey, Option.bind_some, Option.isSome_map, hlen]
            exact hpiece
        · unfold on_response_http_field at hd
          split_ifs at hd with hzero
          · exact Option.some.inj hd ▸ rfl
          · obtain ⟨key, -, hval⟩ := Option.bind_eq_some_iff.mp hd
            obtain ⟨val, -, rfl⟩ := Option.map_eq_some_iff.mp hval
            rfl
  | reason_phrase =>
      refine ⟨fun hover => (by cases hover.1), fun _ => ?_⟩
      refine callback_left ?_ h rfl rfl nofun fun d hd => ⟨fun hun => (by cases hun.1), fun _ => ?_⟩
      · rw [on_response_reason, Option.isSome_map, hlen]
        exact hpiece
      · obtain ⟨v, -, rfl⟩ := Option.map_eq_some_iff.mp hd
        rfl
  | status_code =>
      refine ⟨fun hover => (by cases hover.1), fun _ => ?_⟩
      refine @callback_left buffer p .status_code s (s.setParser _)
        (on_response_status s.toParserData (buffer.drop s.parser.mark)) rfl { h with } rfl rfl nofun
        fun d hd => ⟨fun hun => (by cases hun.1), fun _ => ?_⟩
      exact Option.some.inj hd ▸ rfl
  | http_version =>
      refine ⟨fun hover => (by cases hover.1), fun _ => ?_⟩
      refine callback_left ?_ h rfl rfl nofun fun d hd => ?_
      · unfold on_response_version
        split
        · rfl
        · rw [Option.isSome_map, hlen]
          exact hpiece
      · unfold on_response_version at hd
        rw [hlen] at hd
        split at hd
        · rename_i v hv
          refine ⟨fun hun => ?_, fun _ => Option.some.inj hd ▸ rfl⟩
          cases hv.symm.trans hun.2
        · rename_i hv
          obtain ⟨v, -, rfl⟩ := Option.map_eq_some_iff.mp hd
          exact ⟨fun _ => rfl, fun hno => absurd ⟨rfl, hv⟩ hno⟩

/-- Some event of these comes upon `P`. -/
def Meets (buffer : Bytes) (P : Nat → Action → HttpResponseParser → Prop) :
    List (Nat × Action) → HttpResponseParser → Prop
  | [], _ => False
  | e :: es, s => P e.1 e.2 s ∨ ∃ s', performed buffer e.1 e.2 s = some s' ∧ Meets buffer P es s'

/-- Where the last `done` of these has been, if there is one. -/
def bodyStart : List (Nat × Action) → Nat → Nat
  | [], body_start => body_start
  | e :: es, body_start => bodyStart es (if e.2 = .done then e.1 + 1 else body_start)

/-- What the events of a walk come to, up to `pos`. -/
theorem events_left {buffer : Bytes} (hbuffer : buffer.length < 2 ^ 63) {pos : Nat}
    (hpos : pos ≤ buffer.length) {events : List (Nat × Action)}
    (hsorted : events.Pairwise fun e e' => e.1 ≤ e'.1) (hlast : ∀ e ∈ events, e.1 < pos)
    {p : Nat} (hfirst : ∀ e ∈ events, p ≤ e.1 + 1) (hp : p ≤ pos) {s : HttpResponseParser}
    (h : Bounded p s) :
    (Meets buffer (Overreads buffer) events s →
      events.foldlM (fun s e => performed buffer e.1 e.2 s) s = none) ∧
    (¬Meets buffer (Overreads buffer) events s →
      ∃ s', events.foldlM (fun s e => performed buffer e.1 e.2 s) s = some s' ∧
        Bounded pos s' ∧ s'.parser.cs = s.parser.cs ∧
        s'.parser.body_start = bodyStart events s.parser.body_start ∧
        (Meets buffer (Unversioned buffer) events s → s'.m_error = 1001) ∧
        (¬Meets buffer (Unversioned buffer) events s → s'.m_error = s.m_error)) := by
  induction events generalizing p s with
  | nil => exact ⟨False.elim, fun _ => ⟨s, rfl, h.mono hp, rfl, rfl, False.elim, fun _ => rfl⟩⟩
  | cons e events ih =>
      obtain ⟨hle, hsorted⟩ := List.pairwise_cons.mp hsorted
      have he := hlast e List.mem_cons_self
      have hbounded : Bounded (e.1 + 1) s := h.mono (hfirst e List.mem_cons_self)
      obtain ⟨hover, hleft⟩ := act_left (by omega : e.1 < buffer.length) hbuffer e.2 hbounded
      rw [List.foldlM_cons]
      by_cases hhere : Overreads buffer e.1 e.2 s
      · rw [hover hhere]
        exact ⟨fun _ => rfl, fun hno => absurd (.inl hhere) hno⟩
      obtain ⟨s₁, hs₁, left⟩ := hleft hhere
      obtain ⟨hthrows, hgoes⟩ := ih hsorted (fun e' he' => hlast e' (List.mem_cons_of_mem e he'))
        (fun e' he' => Nat.succ_le_succ (hle e' he')) he left.bounded
      -- what the later events come upon
      have hlater : ∀ P : Nat → Action → HttpResponseParser → Prop,
          Meets buffer P (e :: events) s ↔ P e.1 e.2 s ∨ Meets buffer P events s₁ := by
        intro P
        refine or_congr_right ⟨?_, fun hm => ⟨s₁, hs₁, hm⟩⟩
        rintro ⟨s₂, hs₂, hm⟩
        obtain rfl := Option.some.inj (hs₁.symm.trans hs₂)
        exact hm
      rw [hs₁, Option.bind_eq_bind, Option.bind_some, hlater, hlater, or_iff_right hhere]
      refine ⟨hthrows, fun hno => ?_⟩
      obtain ⟨s', hs', hbounded, hcs, hbody, herror, hnoError⟩ := hgoes hno
      refine ⟨s', hs', hbounded, hcs.trans left.cs, ?_, ?_, fun hnone => ?_⟩
      · rw [hbody, left.body_start, bodyStart]
      · rintro (hbad | hbad)
        · -- the error of an earlier version stays, or is that of a later one
          by_cases hagain : Meets buffer (Unversioned buffer) events s₁
          · exact herror hagain
          · exact (hnoError hagain).trans (left.error hbad)
        · exact herror hbad
      · obtain ⟨hthis, hrest⟩ := not_or.mp hnone
        exact (hnoError hrest).trans (left.noError hthis)

/-! ### The walk -/

/-- What a transition of the machine is. -/
theorem halts_iff (acts : List Action) : acts.any machine.halts = acts.contains .done := by
  rw [List.contains_eq_any_beq]
  congr 1
  funext a
  exact Bool.beq_comm

/-- `exec` is the walk of the machine, its actions performed one after the other. -/
theorem exec_walk (buffer rest : Bytes) (p cs : Nat) (s : HttpResponseParser) :
    exec buffer p rest cs s =
      ((machine.walk cs p rest).events.foldlM (fun s e => performed buffer e.1 e.2 s) s).map
        fun s' => ⟨s', if (machine.walk cs p rest).ended = .stuck then httpclient_parser_error
          else (machine.walk cs p rest).state, (machine.walk cs p rest).pos⟩ := by
  induction rest generalizing p cs s with
  | nil => rfl
  | cons c rest ih =>
      rw [exec, Machine.walk]
      rcases htrans : transition cs c with _ | t
      · have hnext : machine.next cs c = none := by simp only [machine, htrans, Option.map_none]
        rw [hnext]
        rfl
      · have hnext : machine.next cs c = some (t.actions, t.target) := by
          simp only [machine, htrans, Option.map_some]
        rw [hnext]
        simp only [halts_iff]
        -- `done` stops the parser behind the byte it read
        rcases hdone : t.actions.contains .done with _ | _
        · simp only [Bool.false_eq_true, if_false, Walk.events_behind, Walk.state_behind,
            Walk.pos_behind, Walk.ended_behind, List.foldlM_append, List.foldlM_map]
          rcases hacts : t.actions.foldlM (act buffer p) s with _ | s'
          · simp only [performed, hacts]
            rfl
          · simp only [performed, hacts, Option.bind_some]
            exact ih (p + 1) t.target s'
        · simp only [if_true, List.foldlM_map]
          rcases hacts : t.actions.foldlM (act buffer p) s with _ | s'
          · simp only [performed, hacts]
            rfl
          · simp only [performed, hacts]
            rfl

theorem bodyStart_append (events events' : List (Nat × Action)) (body_start : Nat) :
    bodyStart (events ++ events') body_start = bodyStart events' (bodyStart events body_start) := by
  induction events generalizing body_start with
  | nil => rfl
  | cons e events ih => exact ih _

/-- The actions of one byte. -/
theorem bodyStart_acts (p : Nat) (acts : List Action) (body_start : Nat) :
    bodyStart (acts.map (p, ·)) body_start =
      if Action.done ∈ acts then p + 1 else body_start := by
  induction acts generalizing body_start with
  | nil => rfl
  | cons a acts ih =>
      rw [List.map_cons, bodyStart, ih]
      by_cases hmem : Action.done ∈ acts
      · rw [if_pos hmem, if_pos (List.mem_cons_of_mem _ hmem)]
      · rw [if_neg hmem]
        simp [hmem, eq_comm]

/-- A walk performs `done` where it halts. -/
theorem bodyStart_walk (cs p : Nat) (w : Bytes) (body_start : Nat) :
    bodyStart (machine.walk cs p w).events body_start =
      if (machine.walk cs p w).ended = .halted then (machine.walk cs p w).pos else body_start := by
  induction w generalizing cs p with
  | nil => rfl
  | cons c w ih =>
      rw [Machine.walk]
      rcases machine.next cs c with _ | ⟨acts, cs'⟩
      · rfl
      · simp only [halts_iff]
        rcases hdone : acts.contains .done with _ | _
        · have hmem : Action.done ∉ acts := by
            rw [← List.contains_iff_mem, hdone]
            exact Bool.false_ne_true
          show bodyStart (acts.map (p, ·) ++ _) body_start = _
          rw [bodyStart_append, bodyStart_acts, if_neg hmem]
          exact ih cs' (p + 1)
        · rw [if_pos rfl, bodyStart_acts, if_pos (List.contains_iff_mem.mp hdone), if_pos rfl]

/-! ### A call -/

theorem longToInt_length {n : Nat} : (n : Int) = longToInt n ↔ n < 2 ^ 31 := by
  unfold longToInt
  rw [BitVec.toInt_ofInt, Int.bmod_def]
  split_ifs <;> omega

/-- The parser that a call of `execute` starts from. -/
def HttpResponseParser.started (s : HttpResponseParser) (chunck : Bool) : HttpResponseParser :=
  if chunck then s.setParser (httpclient_parser_init s.parser) else s

/-- The call fails an assertion at its entry. -/
def Refused (data : Bytes) (terminator : UInt8) : Prop := terminator ≠ 0 ∨ 2 ^ 31 ≤ data.length

/-- The call fails the assertion about `body_start`. -/
def Outrun (s : HttpResponseParser) (data : Bytes) : Prop :=
  (machine.walk s.parser.cs 0 data).ended ≠ .halted ∧ data.length < s.parser.body_start

/-- The walk of a call takes a name from behind the buffer. -/
def Runaway (s : HttpResponseParser) (data : Bytes) : Prop :=
  Meets data (Overreads data) (machine.walk s.parser.cs 0 data).events s.clear

/-- What the events of a call come to. -/
theorem clear_left (s : HttpResponseParser) {data : Bytes} (hdata : data.length < 2 ^ 63) :
    let r := machine.walk s.parser.cs 0 data
    (Runaway s data →
      r.events.foldlM (fun s e => performed data e.1 e.2 s) s.clear = none) ∧
    (¬Runaway s data →
      ∃ s', r.events.foldlM (fun s e => performed data e.1 e.2 s) s.clear = some s' ∧
        Bounded r.pos s' ∧
        s'.parser.body_start = (if r.ended = .halted then r.pos else s.parser.body_start) ∧
        (Meets data (Unversioned data) r.events s.clear → s'.m_error = 1001) ∧
        (¬Meets data (Unversioned data) r.events s.clear → s'.m_error = s.m_error)) := by
  intro r
  obtain ⟨hin, hsorted⟩ := Machine.walk_events (M := machine) s.parser.cs 0 data
  have hpos := Machine.walk_pos_le (M := machine) s.parser.cs 0 data
  rw [Nat.zero_add] at hpos
  obtain ⟨hthrows, hgoes⟩ := events_left hdata hpos.2 hsorted (fun e he => (hin e he).2)
    (fun e _ => Nat.zero_le _) hpos.1 (s := s.clear)
    ⟨Nat.le_refl 0, Nat.le_refl 0, Nat.le_refl 0⟩
  refine ⟨hthrows, fun hno => ?_⟩
  obtain ⟨s', hs', hbounded, -, hbody, herror, hnoError⟩ := hgoes hno
  exact ⟨s', hs', hbounded, hbody.trans (bodyStart_walk ..), herror, hnoError⟩

theorem runaway_iff (s : HttpResponseParser) {data : Bytes} (hdata : data.length < 2 ^ 63) :
    Runaway s data ↔ (machine.walk s.parser.cs 0 data).events.foldlM
      (fun s e => performed data e.1 e.2 s) s.clear = none := by
  obtain ⟨hthrows, hgoes⟩ := clear_left s hdata
  refine ⟨hthrows, fun hnone => by_contra fun hno => ?_⟩
  obtain ⟨s', hs', -⟩ := hgoes hno
  cases hnone.symm.trans hs'

theorem parser_execute_outcome (s : HttpResponseParser) (data : Bytes) (terminator : UInt8) :
    let r := machine.walk s.parser.cs 0 data
    (Refused data terminator → httpclient_parser_execute s data terminator = .aborted) ∧
    (¬Refused data terminator → Runaway s data →
      httpclient_parser_execute s data terminator = .overread) ∧
    (¬Refused data terminator → ¬Runaway s data → Outrun s data →
      httpclient_parser_execute s data terminator = .aborted) ∧
    (¬Refused data terminator → ¬Runaway s data → ¬Outrun s data →
      ∃ s', r.events.foldlM (fun s e => performed data e.1 e.2 s) s.clear = some s' ∧
        s'.parser.body_start = (if r.ended = .halted then r.pos else s.parser.body_start) ∧
        (Meets data (Unversioned data) r.events s.clear → s'.m_error = 1001) ∧
        (¬Meets data (Unversioned data) r.events s.clear → s'.m_error = s.m_error) ∧
        httpclient_parser_execute s data terminator =
          let s' := s'.setParser { s'.parser with
            cs := if r.ended = .stuck then httpclient_parser_error else r.state }
          if data = [] then .failed s' else .returned s' r.pos) := by
  intro r
  have hexec := exec_walk data data 0 s.parser.cs s.clear
  have hpos := Machine.walk_pos_le (M := machine) s.parser.cs 0 data
  rw [Nat.zero_add] at hpos
  unfold httpclient_parser_execute
  by_cases hterm : terminator ≠ 0
  · rw [if_pos hterm]
    exact ⟨fun _ => rfl, fun h => absurd (.inl hterm) h, fun h => absurd (.inl hterm) h,
      fun h => absurd (.inl hterm) h⟩
  rw [if_neg hterm]
  by_cases hlen : 2 ^ 31 ≤ data.length
  · rw [if_pos fun h => absurd (longToInt_length.mp h) (Nat.not_lt.mpr hlen)]
    exact ⟨fun _ => rfl, fun h => absurd (.inr hlen) h, fun h => absurd (.inr hlen) h,
      fun h => absurd (.inr hlen) h⟩
  rw [if_neg (not_not.mpr (longToInt_length.mpr (Nat.lt_of_not_le hlen)))]
  refine ⟨fun h => absurd h (not_or.mpr ⟨hterm, hlen⟩), fun _ hover => ?_, ?_⟩
  · rw [(runaway_iff s (by omega)).mp hover, Option.map_none] at hexec
    rw [hexec]
  by_cases hover : Runaway s data
  · exact ⟨fun _ h => absurd hover h, fun _ h => absurd hover h⟩
  obtain ⟨s', hs', hbounded, hbody, herror, hnoError⟩ := (clear_left s (by omega)).2 hover
  rw [hs', Option.map_some] at hexec
  rw [hexec]
  simp only
  have hstart : s'.parser.body_start ≤ data.length ↔ ¬Outrun s data := by
    rw [hbody, Outrun]
    split_ifs with hhalted
    · exact ⟨fun _ h => h.1 hhalted, fun _ => hpos.2⟩
    · rw [not_and, Nat.not_lt]
      exact ⟨fun h _ => h, fun h => h hhalted⟩
  by_cases hshort : Outrun s data
  · rw [if_pos fun h => hstart.mp h.2 hshort]
    exact ⟨fun _ _ _ => rfl, fun _ _ h => absurd hshort h⟩
  rw [if_neg (not_not.mpr ⟨hpos.2, hstart.mpr hshort⟩)]
  refine ⟨fun _ _ h => absurd h hshort, fun _ _ _ => ⟨s', hs', hbody, herror, hnoError, ?_⟩⟩
  -- the registers are in the buffer, if there is a buffer
  have hmark := hbounded.mark
  have hfield := hbounded.field_start
  have hflen := hbounded.field_len
  by_cases hempty : data = []
  · rw [if_pos hempty, if_pos]
    rintro ⟨hlt, -⟩
    rw [hempty] at hlt
    exact absurd hlt (Nat.not_lt_zero _)
  · have hlt := List.length_pos_of_ne_nil hempty
    have hin : s'.parser.mark < data.length ∧ s'.parser.field_len ≤ data.length ∧
        s'.parser.field_start < data.length := by omega
    rw [if_neg hempty]
    exact if_neg (not_not.mpr hin)

/-- A call that finds the end of a header. -/
theorem execute_of_halted {s x : HttpResponseParser} {data : Bytes} (hlen : data.length < 2 ^ 31)
    (hended : (machine.walk s.parser.cs 0 data).ended = .halted)
    (hacts : (machine.walk s.parser.cs 0 data).events.foldlM
      (fun s e => performed data e.1 e.2 s) s.clear = some x) :
    httpclient_parser_execute s data 0 = .returned
        (x.setParser { x.parser with cs := (machine.walk s.parser.cs 0 data).state })
        (machine.walk s.parser.cs 0 data).pos ∧
      x.parser.body_start = (machine.walk s.parser.cs 0 data).pos := by
  have hentered : ¬Refused data 0 := not_or.mpr ⟨fun h => h rfl, Nat.not_le.mpr hlen⟩
  have hinside : ¬Runaway s data := fun hover => by
    cases hacts.symm.trans ((runaway_iff s (by omega)).mp hover)
  have hgoes : ¬Outrun s data := fun h => h.1 hended
  have hne : data ≠ [] := by
    rintro rfl
    cases hended
  obtain ⟨-, -, -, hreturns⟩ := parser_execute_outcome s data 0
  obtain ⟨x', hx', hbody, -, -, hcall⟩ := hreturns hentered hinside hgoes
  obtain rfl : x = x' := Option.some.inj (hacts.symm.trans hx')
  rw [if_pos hended] at hbody
  refine ⟨hcall.trans ?_, hbody⟩
  have hstuck : (machine.walk s.parser.cs 0 data).ended ≠ .stuck := by
    rw [hended]
    decide
  simp only [if_neg hne, if_neg hstuck]

/-! ### Where the machine stops -/

/-- Registers to begin with. -/
def HttpClientParser.zero : HttpClientParser := ⟨0, 0, 0, 0, false, false, false, 0, 0, 0⟩

end Client

end Http

end Will
