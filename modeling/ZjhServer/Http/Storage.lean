/-
ZjhServer/Http/Storage.lean

What a parser finds in its memory.  The constructor of `HttpRequestParser` and
`http_parser_init` leave two fields as they were: `query_start`, which no action reads before
`start_query` has set it, and `uri_relaxed`, which the guard of `more_delims` asks.

So two parsers that are given the same bytes report the same unless their memory answers the
guard differently and the guard is asked (`parse_iff`).  Two runs are compared call by call:
`Twin` is what the parsers share, and `Discipline.sim` carries it along the actions of a call;
where the strict machine is stuck and the relaxed one is not, the reports part.
-/
import Mathlib.Data.List.Find
import ZjhServer.Http.Limits

namespace Will

namespace Http

open Transducer

/-! ### Calls and reports -/

namespace HttpRequestParser

/-- `execute`, with the assertion at the entry of `http_parser_execute`:
`pe - p == (int)len - (int)off`. -/
def call (s : HttpRequestParser) (data : Bytes) : Executed :=
  if (data.length : Int) = toInt data.length then s.execute data else .aborted

end HttpRequestParser

/-- What a caller sees of a call. -/
inductive Report
  | returned (nread : Nat) (hasError : Bool) (isFinished : Int) (data : HttpRequest)
  | length_error
  | aborted
  deriving DecidableEq, Repr

namespace HttpRequestParser

/-- What is asked of the parser behind a call. -/
def report (s : HttpRequestParser) (nread : Nat) : Report :=
  .returned nread s.hasError s.isFinished s.m_data

/-- The reports of a run; nothing is called behind a call that does not return. -/
def reports (s : HttpRequestParser) : List Bytes → List Report
  | [] => []
  | data :: chunks =>
      match s.call data with
      | .returned s' nread => s'.report nread :: s'.reports chunks
      | .length_error => [.length_error]
      | .aborted => [.aborted]

/-- A run whose first call gets past the assertion at the entry. -/
theorem reports_cons (s : HttpRequestParser) {data : Bytes}
    (hint : (data.length : Int) = toInt data.length) (chunks : List Bytes) :
    s.reports (data :: chunks) =
      match s.execute data with
      | .returned s' nread => s'.report nread :: s'.reports chunks
      | .length_error => [.length_error]
      | .aborted => [.aborted] := by
  rw [reports, call, if_pos hint]

/-- A run whose first call does not. -/
theorem reports_cut (s : HttpRequestParser) {data : Bytes}
    (hint : ¬(data.length : Int) = toInt data.length) (chunks : List Bytes) :
    s.reports (data :: chunks) = [.aborted] := by
  rw [reports, call, if_neg hint]

end HttpRequestParser

/-- The calls that get past the assertion at the entry. -/
def entered (chunks : List Bytes) : List Bytes :=
  chunks.takeWhile fun data => (data.length : Int) = toInt data.length

/-! ### Where the guard is asked -/

/-- A walk of the strict machine is stuck where the relaxed one is not. -/
def Guarded (r : Walk Nat Action) (p : Nat) (bytes : Bytes) : Prop :=
  r.ended = .stuck ∧
    ∃ c, bytes[r.pos - p]? = some c ∧ ((machine true).next r.state c).isSome

/-- The guard decides about a byte, and no callback has thrown before. -/
def ConsultedFrom (start : Nat → Nat) (k : Marks) (cs p : Nat) (bytes : Bytes) : Prop :=
  let r := (machine false).walk cs p bytes
  Guarded r p bytes ∧ ¬∃ c ∈ callsFrom k r.events, c.Throws start

/-- **The chunks bring a byte that only the guard of `more_delims` admits**: a `^`, a `{` or a
`}` in the URI, with no query cut by a chunk before it. -/
def Consulted (chunks : List Bytes) : Prop :=
  ConsultedFrom (readStart (entered chunks)) .init http_parser_start 0 (entered chunks).flatten

/-! ### The two machines -/

/-- The states behind the URI, those of the error and of the end among them. -/
def settled (cs : Nat) : Bool := [0, 13, 14, 15, 16, 17, 18, 348, 349].contains cs

/-- The table, state by state: the guarded transitions come last, and there are none in the
settled states, which are not left; the final states are settled. -/
theorem guards_checked : ∀ row ∈ transitions,
    (row.2.Pairwise fun t u => t.uri_relaxed = true → u.uri_relaxed = true) ∧
      ∀ t ∈ row.2, (settled row.1 = true → t.uri_relaxed = false ∧ settled t.target = true) ∧
        (http_parser_first_final ≤ t.target → settled t.target = true) := by
  decide +kernel

/-- Without a guard the two machines are the same. -/
theorem accepts_unguarded {t : Transition} (h : t.uri_relaxed = false) (c : UInt8) :
    t.accepts true c = t.accepts false c := by
  rw [Transition.accepts, Transition.accepts, h]
  rfl

theorem find_strict {ts : List Transition} {c : UInt8} {t : Transition}
    (hsorted : ts.Pairwise fun t u => t.uri_relaxed = true → u.uri_relaxed = true)
    (h : ts.find? (·.accepts false c) = some t) : ts.find? (·.accepts true c) = some t := by
  induction ts with
  | nil => cases h
  | cons u ts ih =>
      obtain ⟨hlast, hsorted⟩ := List.pairwise_cons.mp hsorted
      rcases hu : u.uri_relaxed with _ | _
      · rw [List.find?_cons, ← accepts_unguarded hu] at h
        rw [List.find?_cons]
        cases haccepts : u.accepts true c with
        | true => rwa [haccepts] at h
        | false =>
            rw [haccepts] at h
            exact ih hsorted h
      · -- from here on there are only guarded transitions
        have hclosed : ∀ v ∈ u :: ts, v.accepts false c = false := by
          intro v hv
          have hv : v.uri_relaxed = true := by
            rcases List.mem_cons.mp hv with rfl | hv
            · exact hu
            · exact hlast v hv hu
          rw [Transition.accepts, hv]
          rfl
        rw [List.find?_eq_none.mpr fun v hv => by rw [hclosed v hv]; decide] at h
        cases h

/-- The row of a state; a state without a row has no transition. -/
theorem row_of_state (cs : Nat) : (transitions.lookup cs).getD [] = [] ∨
    ∃ row ∈ transitions, row.1 = cs ∧ (transitions.lookup cs).getD [] = row.2 := by
  rcases hrow : transitions.lookup cs with _ | ts
  · exact .inl rfl
  · obtain ⟨l₁, l₂, hl, -⟩ := List.lookup_eq_some_iff.mp hrow
    refine .inr ⟨(cs, ts), ?_, rfl, rfl⟩
    rw [hl]
    exact List.mem_append_right _ List.mem_cons_self

theorem machine_extends : (machine true).Extends (machine false) where
  next := by
    intro cs c x h
    obtain ⟨t, ht, rfl⟩ := Option.map_eq_some_iff.mp h
    refine Option.map_eq_some_iff.mpr ⟨t, ?_, rfl⟩
    rcases row_of_state cs with hnone | ⟨row, hrow, -, hlookup⟩
    · rw [transition, hnone] at ht
      cases ht
    · rw [transition, hlookup] at ht ⊢
      exact find_strict (guards_checked row hrow).1 ht
  halts := rfl

/-- In a settled state no guard is asked. -/
theorem transition_settled {cs : Nat} (h : settled cs = true) (c : UInt8) :
    transition true cs c = transition false cs c := by
  rcases row_of_state cs with hnone | ⟨row, hrow, rfl, hlookup⟩
  · rw [transition, transition, hnone]
    rfl
  · rw [transition, transition, hlookup]
    refine List.find?_congr fun t ht => ?_
    exact accepts_unguarded ((guards_checked row hrow).2 t ht |>.1 h).1 c

theorem settled_next {uri_relaxed : Bool} {cs cs' : Nat} {c : UInt8} {acts : List Action}
    (h : (machine uri_relaxed).next cs c = some (acts, cs')) :
    (settled cs = true → settled cs' = true) ∧
      (http_parser_first_final ≤ cs' → settled cs' = true) := by
  obtain ⟨t, ht, rfl, rfl⟩ := next_some h
  obtain ⟨⟨row, hrow, rfl, htrow⟩, -⟩ := transition_some ht
  have hchecked := (guards_checked row hrow).2 t htrow
  exact ⟨fun hsettled => (hchecked.1 hsettled).2, hchecked.2⟩

/-- A walk in settled states. -/
theorem walk_settled {cs : Nat} (h : settled cs = true) (p : Nat) (bytes : Bytes) :
    settled ((machine false).walk cs p bytes).state = true ∧
      (machine true).walk cs p bytes = (machine false).walk cs p bytes := by
  have hsame : ∀ cs, settled cs = true → ∀ c,
      (machine true).next cs c = (machine false).next cs c :=
    fun cs hcs c => congrArg (Option.map _) (transition_settled hcs c)
  induction bytes generalizing cs p with
  | nil => exact ⟨h, rfl⟩
  | cons c bytes ih =>
      rw [Machine.walk, Machine.walk, hsame cs h]
      rcases hnext : (machine false).next cs c with _ | ⟨acts, cs'⟩
      · exact ⟨h, rfl⟩
      · have hcs' := (settled_next hnext).1 h
        have hhalts : (machine true).halts = (machine false).halts := rfl
        simp only [hhalts]
        split_ifs with hhalt
        · exact ⟨hcs', rfl⟩
        · exact ⟨(ih hcs' (p + 1)).1, congrArg (Walk.behind · _) (ih hcs' (p + 1)).2⟩

/-- A walk that halts is settled. -/
theorem settled_of_halted {uri_relaxed : Bool} {cs p : Nat} {bytes : Bytes}
    (h : ((machine uri_relaxed).walk cs p bytes).ended = .halted) :
    settled ((machine uri_relaxed).walk cs p bytes).state = true := by
  induction bytes generalizing cs p with
  | nil => cases h
  | cons c bytes ih =>
      rw [Machine.walk] at h ⊢
      rcases hnext : (machine uri_relaxed).next cs c with _ | ⟨acts, cs'⟩
      · rw [hnext] at h
        cases h
      · rw [hnext] at h
        simp only at h ⊢
        split_ifs at h ⊢ with hhalt
        · obtain ⟨a, ha, hdone⟩ := List.any_eq_true.mp hhalt
          obtain ⟨t, ht, rfl, rfl⟩ := next_some hnext
          obtain ⟨⟨row, hrow, rfl, htrow⟩, -⟩ := transition_some ht
          refine (settled_next hnext).2 ((transitions_checked row hrow t htrow).2.2.2.mpr ?_)
          exact eq_of_beq hdone ▸ ha
        · exact ih h

/-! ### One call -/

/-- The state behind a call. -/
def stateBehind (r : Walk Nat Action) : Nat :=
  if r.ended = .stuck then http_parser_error else r.state

theorem stateBehind_error {uri_relaxed : Bool} {cs : Nat} (hcs : cs = http_parser_error)
    {data : Bytes} (hdata : data ≠ []) (p : Nat) :
    stateBehind ((machine uri_relaxed).walk cs p data) = http_parser_error := by
  subst hcs
  cases data with
  | nil => exact absurd rfl hdata
  | cons c data => rfl

/-- The state and the assertions at the end of a call. -/
def HttpRequestParser.leave (t : HttpRequestParser) (cs nread len : Nat) : Executed :=
  let s := t.setParser { t.parser with cs := cs }
  if asserts s.parser nread len then .returned s nread else .aborted

/-- **`execute` in closed form**: the walk over the buffer with its actions performed, the state
behind it, and the assertions. -/
theorem execute_walk (s : HttpRequestParser) {data : Bytes} (hdata : data ≠ []) (b : Nat) :
    let r := (machine s.parser.uri_relaxed).walk s.parser.cs b data
    s.execute data =
      match r.events.foldlM (fun s e => act data (e.1 - b) s e.2) s.clear with
      | none => .length_error
      | some t => t.leave (stateBehind r) (r.pos - b) data.length := by
  intro r
  have hexec := exec_walk data data (Nat.le_refl b) s.parser.cs s.clear
  rw [show s.clear.parser.uri_relaxed = s.parser.uri_relaxed from rfl, Nat.sub_self] at hexec
  rw [HttpRequestParser.execute, http_parser_execute, if_neg hdata, hexec]
  rcases hacts : r.events.foldlM (fun s e => act data (e.1 - b) s e.2) s.clear with _ | t
  · rw [hacts]
    rfl
  · rw [hacts]
    obtain ⟨-, hcs, -⟩ := events_keep (· - b) hacts
    have hfinish : Exec.finish ⟨t, stateBehind r, r.pos - b⟩ =
        t.setParser { t.parser with cs := stateBehind r } := by
      rw [Exec.finish]
      split_ifs with herr
      · -- the error state is not left
        have ht : t.parser.cs = http_parser_error := of_decide_eq_true herr
        rw [show stateBehind r = t.parser.cs from
          (stateBehind_error (hcs ▸ ht : s.parser.cs = _) hdata b).trans ht.symm]
        rfl
      · rfl
    show (if asserts (Exec.finish ⟨t, stateBehind r, r.pos - b⟩).parser (r.pos - b) data.length
      then Executed.returned (Exec.finish ⟨t, stateBehind r, r.pos - b⟩) (r.pos - b)
      else .aborted) = _
    rw [hfinish]
    rfl

/-! ### Twins -/

/-- The parser, had its memory held something else. -/
def HttpRequestParser.restored (s : HttpRequestParser) (query_start : Nat) (uri_relaxed : Bool) :
    HttpRequestParser :=
  s.setParser { s.parser with query_start := query_start, uri_relaxed := uri_relaxed }

/-- Parsers that differ only in what nothing has set. -/
inductive Twin (φ : Right → Bool) (s : HttpRequestParser) : HttpRequestParser → Prop
  | mk (query_start : Nat) (uri_relaxed : Bool)
      (h : φ .queried = true → query_start = s.parser.query_start) :
      Twin φ s (s.restored query_start uri_relaxed)

namespace Twin

variable {φ ψ : Right → Bool} {s s' : HttpRequestParser}

theorem mono (h : Twin φ s s') (hle : ψ .queried = true → φ .queried = true) : Twin ψ s s' := by
  obtain ⟨query_start, uri_relaxed, hq⟩ := h
  exact .mk query_start uri_relaxed fun hψ => hq (hle hψ)

theorem cs_eq (h : Twin φ s s') : s'.parser.cs = s.parser.cs := by
  obtain ⟨query_start, uri_relaxed, hq⟩ := h
  rfl

theorem clear (h : Twin φ s s') : Twin φ s.clear s'.clear := by
  obtain ⟨query_start, uri_relaxed, hq⟩ := h
  exact .mk query_start uri_relaxed hq

/-- They report the same. -/
theorem report_eq (h : Twin φ s s') (nread : Nat) : s'.report nread = s.report nread := by
  obtain ⟨query_start, uri_relaxed, hq⟩ := h
  rfl

/-- What a callback does, if it sees the same. -/
theorem called (query_start : Nat) (uri_relaxed : Bool)
    (h : φ .queried = true → query_start = s.parser.query_start) (r : Option ParserData) :
    Option.Rel (Twin φ) (r.map s.setData)
      (r.map (s.restored query_start uri_relaxed).setData) := by
  rcases r with _ | d
  · exact .none
  · exact .some (.mk query_start uri_relaxed h)

/-- **An action with its rights** does the same to both. -/
theorem act (h : Twin φ s s') {a : Action} (hallowed : rights.Allowed a φ) (buffer : Bytes)
    (p : Nat) : Option.Rel (Twin (rights.after a φ)) (act buffer p s a) (act buffer p s' a) := by
  obtain ⟨query_start, uri_relaxed, hq⟩ := h
  have hafter : a ≠ .start_query → rights.after a φ .queried = true → φ .queried = true := by
    intro ha hr
    simp only [Discipline.after, rights, ha, decide_false, Bool.false_and, reduceCtorEq,
      Bool.and_false, Bool.or_self, Bool.false_or, Bool.and_eq_true] at hr
    exact hr.1
  cases a with
  | start_query => exact .some (.mk p uri_relaxed fun _ => rfl)
  | query_string =>
      -- the one action that reads the start of the query
      have hread : query_start = s.parser.query_start := hq (hallowed .queried (by decide))
      subst hread
      exact called _ uri_relaxed (fun _ => rfl) _
  | mark | start_value | start_field | write_field | request_uri | done | xml | json =>
      exact .some (.mk query_start uri_relaxed fun hr => hq (hafter (by decide) hr))
  | write_value | request_method | fragment | http_version | request_path =>
      exact called query_start uri_relaxed (fun hr => hq (hafter (by decide) hr)) _

/-- The actions of a walk. -/
theorem events (uri_relaxed : Bool) {cs : Nat} (h : Twin (rights.holds cs) s s') (data : Bytes)
    (b : Nat) :
    let r := (machine uri_relaxed).walk cs b data
    Option.Rel (Twin (rights.holds r.state))
      (r.events.foldlM (fun s e => Http.act data (e.1 - b) s e.2) s)
      (r.events.foldlM (fun s e => Http.act data (e.1 - b) s e.2) s') :=
  Discipline.sim (rights_obeyed uri_relaxed) (R := fun φ _ => Twin φ)
    (fun _ p _ _ _ _ _ _ _ _ _ _ _ hallowed h => h.act hallowed data (p - b))
    (fun _ _ _ _ _ _ hle _ h => h.mono (hle _)) (Nat.le_refl b)
    (by rw [Nat.sub_self, List.drop_zero]) h

end Twin

/-- Calls that do the same. -/
inductive Alike : Executed → Executed → Prop
  | returned (s s' : HttpRequestParser) (nread : Nat) (h : Twin (rights.holds s.parser.cs) s s') :
      Alike (.returned s nread) (.returned s' nread)
  | length_error : Alike .length_error .length_error
  | aborted : Alike .aborted .aborted

/-- The assertions look at nothing that twins differ in. -/
theorem Twin.leave {φ : Right → Bool} {t t' : HttpRequestParser} (h : Twin φ t t') {cs : Nat}
    (hle : rights.holds cs .queried = true → φ .queried = true) (nread len : Nat) :
    Alike (t.leave cs nread len) (t'.leave cs nread len) := by
  obtain ⟨query_start, uri_relaxed, hq⟩ := h
  have hsame : asserts { (t.restored query_start uri_relaxed).parser with cs := cs } nread len =
      asserts { t.parser with cs := cs } nread len := rfl
  simp only [HttpRequestParser.leave]
  split_ifs with hasserts hasserts'
  · exact .returned _ _ _ (.mk query_start uri_relaxed fun hholds => hq (hle hholds))
  · exact absurd hasserts hasserts'
  · exact absurd ‹_› hasserts
  · exact .aborted

/-- **A call on twins** whose machines walk the same. -/
theorem execute_alike {s s' : HttpRequestParser} (h : Twin (rights.holds s.parser.cs) s s')
    {data : Bytes} (b : Nat)
    (hwalk : (machine s'.parser.uri_relaxed).walk s.parser.cs b data =
      (machine s.parser.uri_relaxed).walk s.parser.cs b data) :
    Alike (s.execute data) (s'.execute data) := by
  by_cases hdata : data = []
  · subst hdata
    exact .returned s s' 0 h
  · have hrel := h.clear.events s.parser.uri_relaxed data b
    rw [execute_walk s hdata b, execute_walk s' hdata b, h.cs_eq, hwalk]
    generalize (machine s.parser.uri_relaxed).walk s.parser.cs b data = r at hrel ⊢
    simp only at hrel ⊢
    generalize r.events.foldlM (fun s e => act data (e.1 - b) s e.2) s.clear = x at hrel ⊢
    generalize r.events.foldlM (fun s e => act data (e.1 - b) s e.2) s'.clear = x' at hrel ⊢
    cases hrel with
    | none => exact .length_error
    | some htwin =>
        refine htwin.leave (fun hholds => ?_) (r.pos - b) data.length
        rw [stateBehind] at hholds
        split_ifs at hholds with hstuck
        · exact absurd hholds (by decide)
        · exact hholds

/-- What a call leaves of its parser. -/
theorem execute_returned {s t : HttpRequestParser} {data : Bytes} (hdata : data ≠ []) (b : Nat)
    {nread : Nat} (h : s.execute data = .returned t nread) :
    t.parser.uri_relaxed = s.parser.uri_relaxed ∧
      t.parser.cs = stateBehind ((machine s.parser.uri_relaxed).walk s.parser.cs b data) := by
  rw [execute_walk s hdata b] at h
  generalize (machine s.parser.uri_relaxed).walk s.parser.cs b data = r at h ⊢
  rcases hacts : r.events.foldlM (fun s e => act data (e.1 - b) s e.2) s.clear with _ | u
  · rw [hacts] at h
    cases h
  · rw [hacts] at h
    simp only [HttpRequestParser.leave] at h
    split_ifs at h with hasserts
    cases h
    exact ⟨(events_keep (· - b) hacts).1, rfl⟩

theorem settled_behind {r : Walk Nat Action} (h : settled r.state = true) :
    settled (stateBehind r) = true := by
  rw [stateBehind]
  split_ifs with hstuck
  · rfl
  · exact h

/-- What a walk that ended leaves is settled. -/
theorem settled_of_ended {uri_relaxed : Bool} {cs p : Nat} {bytes : Bytes}
    (h : ((machine uri_relaxed).walk cs p bytes).ended ≠ .ran) :
    settled (stateBehind ((machine uri_relaxed).walk cs p bytes)) = true := by
  rcases hended : ((machine uri_relaxed).walk cs p bytes).ended with _ | _ | _
  · exact absurd hended h
  · exact settled_behind (settled_of_halted hended)
  · rw [stateBehind, if_pos hended]
    rfl

/-- A settled walk is that of the strict machine. -/
theorem walk_strict (uri_relaxed : Bool) {cs : Nat} (h : settled cs = true) (p : Nat)
    (bytes : Bytes) :
    (machine uri_relaxed).walk cs p bytes = (machine false).walk cs p bytes := by
  cases uri_relaxed with
  | false => rfl
  | true => exact (walk_settled h p bytes).2

/-- **Runs of twins** that no guard tells apart. -/
theorem reports_alike {s s' : HttpRequestParser} (h : Twin (rights.holds s.parser.cs) s s')
    (hsame : s'.parser.uri_relaxed = s.parser.uri_relaxed ∨ settled s.parser.cs = true)
    (chunks : List Bytes) : s'.reports chunks = s.reports chunks := by
  induction chunks generalizing s s' with
  | nil => rfl
  | cons data chunks ih =>
      by_cases hint : (data.length : Int) = toInt data.length
      · rw [s'.reports_cons hint, s.reports_cons hint]
        by_cases hdata : data = []
        · subst hdata
          show s'.report 0 :: s'.reports chunks = s.report 0 :: s.reports chunks
          rw [h.report_eq, ih h hsame]
        -- in a settled state no guard is asked any more
        have hwalk : (machine s'.parser.uri_relaxed).walk s.parser.cs 0 data =
            (machine s.parser.uri_relaxed).walk s.parser.cs 0 data := by
          rcases hsame with hsame | hsettled
          · rw [hsame]
          · exact (walk_strict _ hsettled 0 data).trans (walk_strict _ hsettled 0 data).symm
        have halike := execute_alike h 0 hwalk
        generalize hs : s.execute data = x at halike ⊢
        generalize hs' : s'.execute data = x' at halike ⊢
        cases halike with
        | length_error => rfl
        | aborted => rfl
        | returned t t' nread htwin =>
            obtain ⟨hrelaxed, hcs⟩ := execute_returned hdata 0 hs
            obtain ⟨hrelaxed', -⟩ := execute_returned hdata 0 hs'
            simp only [htwin.report_eq]
            refine congrArg (_ :: ·) (ih htwin ?_)
            rcases hsame with hsame | hsettled
            · exact .inl (hrelaxed'.trans (hsame.trans hrelaxed.symm))
            · refine .inr ?_
              rw [hcs, walk_strict _ hsettled]
              exact settled_behind (walk_settled hsettled 0 data).1
      · rw [s'.reports_cut hint, s.reports_cut hint]

/-! ### Where the reports part -/

/-- A walk that ends in its chunk, and all the bytes behind it. -/
theorem consultedFrom_append {start : Nat → Nat} {k : Marks} {cs p : Nat} {data rest : Bytes}
    (h : ((machine false).walk cs p data).ended ≠ .ran) :
    ConsultedFrom start k cs p (data ++ rest) ↔
      Guarded ((machine false).walk cs p data) p data ∧
        ¬∃ c ∈ callsFrom k ((machine false).walk cs p data).events, c.Throws start := by
  rw [ConsultedFrom, Machine.walk_append_of_ended h]
  refine and_congr_left fun _ => and_congr_right fun hstuck => ?_
  obtain ⟨c, hc, -⟩ := Machine.stuck_at hstuck
  rw [List.getElem?_append_left (List.getElem?_eq_some_iff.mp hc).1]

/-- A walk that goes on behind its chunk. -/
theorem consultedFrom_ran {start : Nat → Nat} {k : Marks} {cs p : Nat} {data rest : Bytes}
    (h : ((machine false).walk cs p data).ended = .ran)
    (hnone : ¬∃ c ∈ callsFrom k ((machine false).walk cs p data).events, c.Throws start) :
    ConsultedFrom start k cs p (data ++ rest) ↔
      ConsultedFrom start (k.along ((machine false).walk cs p data).events)
        ((machine false).walk cs p data).state (p + data.length) rest := by
  rw [ConsultedFrom, ConsultedFrom, Machine.walk_append h]
  generalize (machine false).walk cs p data = r at hnone
  have hle := (Machine.walk_pos_le (M := machine false) r.state (p + data.length) rest).1
  generalize (machine false).walk r.state (p + data.length) rest = r' at hle
  simp only [Guarded, Walk.ended_behind, Walk.pos_behind, Walk.state_behind, Walk.events_behind,
    callsFrom_append]
  refine and_congr ?_ (not_congr ?_)
  · rw [List.getElem?_append_right (by omega), Nat.sub_sub]
  · constructor
    · rintro ⟨c, hc, hthrows⟩
      rcases List.mem_append.mp hc with hc | hc
      · exact absurd ⟨c, hc, hthrows⟩ hnone
      · exact ⟨c, hc, hthrows⟩
    · rintro ⟨c, hc, hthrows⟩
      exact ⟨c, List.mem_append_right _ hc, hthrows⟩

/-- A call that throws has thrown, whatever comes behind. -/
theorem not_consultedFrom {start : Nat → Nat} {k : Marks} {cs p : Nat} {data rest : Bytes}
    (h : ∃ c ∈ callsFrom k ((machine false).walk cs p data).events, c.Throws start) :
    ¬ConsultedFrom start k cs p (data ++ rest) := by
  obtain ⟨c, hc, hthrows⟩ := h
  obtain ⟨later, hevents, -⟩ := Machine.walk_events_append (M := machine false) cs p data rest
  refine fun hconsulted => hconsulted.2 ⟨c, ?_, hthrows⟩
  rw [hevents, callsFrom_append]
  exact List.mem_append_left _ hc

theorem leave_returned {t u : HttpRequestParser} {cs nread len nread' : Nat}
    (h : t.leave cs nread len = .returned u nread') : nread' = nread := by
  simp only [HttpRequestParser.leave] at h
  split_ifs at h
  cases h
  rfl

theorem leave_ne_length_error (t : HttpRequestParser) (cs nread len : Nat) :
    t.leave cs nread len ≠ .length_error := by
  intro h
  simp only [HttpRequestParser.leave] at h
  split_ifs at h

/-- **Where the strict parser is stuck and the relaxed one is not**: the one has consumed less,
unless both have thrown. -/
theorem execute_parts {s s' : HttpRequestParser} (h : Twin (rights.holds s.parser.cs) s s')
    (hstrict : s.parser.uri_relaxed = false) (hrelaxed : s'.parser.uri_relaxed = true)
    {data : Bytes} {b : Nat} (hguarded : Guarded ((machine false).walk s.parser.cs b data) b data) :
    (s.execute data = .length_error → s'.execute data = .length_error) ∧
      ∀ t nread, s.execute data = .returned t nread →
        ∀ t' nread', s'.execute data = .returned t' nread' → nread ≠ nread' := by
  obtain ⟨hstuck, c, hc, hnext⟩ := hguarded
  have hdata : data ≠ [] := by
    rintro rfl
    cases hstuck
  -- up to the guard both have done the same
  have hrel := h.clear.events false data b
  obtain ⟨⟨later, hlater⟩, hpos⟩ := machine_extends.walk_beyond hstuck hc hnext
  have hle := (Machine.walk_pos_le (M := machine false) s.parser.cs b data).1
  have hs := execute_walk s hdata b
  have hs' := execute_walk s' hdata b
  rw [hstrict] at hs
  rw [hrelaxed, h.cs_eq] at hs'
  generalize (machine false).walk s.parser.cs b data = r at hrel hlater hpos hle hs
  generalize (machine true).walk s.parser.cs b data = r' at hlater hpos hs'
  simp only [hlater, List.foldlM_append] at hrel hs hs'
  rcases hacts : r.events.foldlM (fun s e => act data (e.1 - b) s e.2) s.clear with _ | u <;>
    rcases hacts' : r.events.foldlM (fun s e => act data (e.1 - b) s e.2) s'.clear with _ | u' <;>
    rw [hacts, hacts'] at hrel <;> rw [hacts] at hs <;> rw [hacts'] at hs'
  · refine ⟨fun _ => hs', fun t nread h => ?_⟩
    rw [hs] at h
    cases h
  · cases hrel
  · cases hrel
  · refine ⟨fun h => absurd (hs.symm.trans h) (leave_ne_length_error _ _ _ _), ?_⟩
    intro t nread h t' nread' h'
    have hnread := leave_returned (hs.symm.trans h)
    have hnread' : nread' = r'.pos - b := by
      rw [hs'] at h'
      rcases hrest : later.foldlM (fun s e => act data (e.1 - b) s e.2) u' with _ | v
      · rw [Option.bind_eq_bind, Option.bind_some, hrest] at h'
        cases h'
      · rw [Option.bind_eq_bind, Option.bind_some, hrest] at h'
        exact leave_returned h'
    omega

/-! ### Runs -/

variable {start : Nat → Nat} {head : Bytes}

/-- A call of a parser that is ready: it throws where a callback does, or it returns. -/
theorem ready_call {uri_relaxed : Bool} {cs b : Nat} {data : Bytes} {s : HttpRequestParser}
    {y : Marks × ParserData} (hbuf : Buffer start head data b)
    (hshort : ∀ p, p < head.length → p - start p < 2 ^ 63) (hdata : data ≠ [])
    (h : Ready start b uri_relaxed cs s y) :
    let r := (machine uri_relaxed).walk cs b data
    let thrown := ∃ c ∈ callsFrom y.1 r.events, c.Throws start
    (s.execute data = .length_error ∧ thrown) ∨
      ∃ t y', s.execute data = .returned t (r.pos - b) ∧ ¬thrown ∧ t.parser.cs = stateBehind r ∧
        (r.ended = .ran → Ready start (b + data.length) uri_relaxed r.state t y' ∧
          y'.1 = y.1.along r.events) := by
  intro r thrown
  have hsee := execute_see hbuf (fun q hq => hshort q (Nat.lt_of_lt_of_le hq hbuf.fits)) hdata h
  have hnone : _ = none ↔ thrown := seeAct_eq_none _ _ hshort h.regs.upto hbuf.fits
  simp only at hsee
  rcases hsees : ((machine uri_relaxed).walk cs b data).events.foldlM
    (fun y e => seeAct start head e.1 e.2 y) y with _ | y'
  · rw [hsees] at hsee
    exact .inl ⟨hsee, hnone.mp hsees⟩
  · rw [hsees] at hsee
    obtain ⟨t, hexec, -, hcs, hready⟩ := hsee
    have hfine : ¬thrown := by
      intro hthrown
      rw [hnone.mpr hthrown] at hsees
      cases hsees
    exact .inr ⟨t, y', hexec, hfine, hcs, fun hran => ⟨hready hran, seeAct_marks hsees⟩⟩

/-- The reports of a strict and a relaxed parser part where the guard is asked. -/
theorem reports_part {s s' : HttpRequestParser} (h : Twin (rights.holds s.parser.cs) s s')
    (hstrict : s.parser.uri_relaxed = false) (hrelaxed : s'.parser.uri_relaxed = true)
    {data : Bytes} {b : Nat} (hguarded : Guarded ((machine false).walk s.parser.cs b data) b data)
    (hint : (data.length : Int) = toInt data.length) (chunks : List Bytes) :
    (s.execute data = .length_error → s.reports (data :: chunks) = s'.reports (data :: chunks)) ∧
      ∀ t nread, s.execute data = .returned t nread →
        s.reports (data :: chunks) ≠ s'.reports (data :: chunks) := by
  -- the first report tells them apart: the bytes consumed are in it
  obtain ⟨hthrow, hpart⟩ := execute_parts h hstrict hrelaxed hguarded
  rw [s.reports_cons hint, s'.reports_cons hint]
  constructor
  · intro hthrown
    rw [hthrown, hthrow hthrown]
  · intro t nread hexec heq
    rw [hexec] at heq
    rcases hexec' : s'.execute data with ⟨t', nread'⟩ | _ | _
    · rw [hexec'] at heq
      have hreport : t.report nread = t'.report nread' := (List.cons.inj heq).1
      exact hpart t nread hexec t' nread' hexec' (Report.returned.inj hreport).1
    · rw [hexec'] at heq
      cases heq
    · rw [hexec'] at heq
      cases heq

/-- A strict and a relaxed parser report the same of a chunk where the guard is not asked, and
after it as long as they do of the rest. -/
theorem reports_along {data rest : Bytes} {b : Nat} {s s' : HttpRequestParser}
    {y : Marks × ParserData} (hbuf : Buffer start head data b)
    (hshort : ∀ p, p < head.length → p - start p < 2 ^ 63) (hdata : data ≠ [])
    (hint : (data.length : Int) = toInt data.length) (h : Ready start b false s.parser.cs s y)
    (htwin : Twin (rights.holds s.parser.cs) s s') (hrelaxed : s'.parser.uri_relaxed = true)
    (hguarded : ¬Guarded ((machine false).walk s.parser.cs b data) b data) {chunks : List Bytes}
    (hrest : ∀ {cs : Nat} {t t' : HttpRequestParser} {y' : Marks × ParserData},
      Ready start (b + data.length) false cs t y' → Twin (rights.holds cs) t t' →
        t'.parser.uri_relaxed = true →
        (t.reports chunks = t'.reports chunks ↔
          ¬ConsultedFrom start y'.1 cs (b + data.length) rest)) :
    s.reports (data :: chunks) = s'.reports (data :: chunks) ↔
      ¬ConsultedFrom start y.1 s.parser.cs b (data ++ rest) := by
  have hwalk : (machine true).walk s.parser.cs b data =
      (machine false).walk s.parser.cs b data := by
    refine machine_extends.walk_eq fun hstuck c hc => ?_
    by_contra hnext
    exact hguarded ⟨hstuck, c, hc, Option.isSome_iff_ne_none.mpr hnext⟩
  -- so both walk as the strict machine does
  have halike := execute_alike htwin b (by rw [hrelaxed, h.relaxed, hwalk])
  rw [s.reports_cons hint, s'.reports_cons hint]
  rcases ready_call hbuf hshort hdata h with
    ⟨hexec, hthrown⟩ | ⟨t, y', hexec, hthrown, hcs, hran⟩
  · rw [hexec] at halike ⊢
    generalize s'.execute data = x' at halike
    cases halike
    exact iff_of_true rfl (not_consultedFrom hthrown)
  · rw [hexec] at halike ⊢
    generalize hexec' : s'.execute data = x' at halike
    cases halike with
    | returned _ t' _ htwin' =>
        obtain ⟨hrelaxed', -⟩ := execute_returned hdata b hexec'
        simp only [htwin'.report_eq, List.cons_inj_right]
        by_cases hended : ((machine false).walk s.parser.cs b data).ended = .ran
        · obtain ⟨hready, hmarks⟩ := hran hended
          rw [consultedFrom_ran hended hthrown, ← hmarks]
          exact hrest hready (hready.reached ▸ htwin') (hrelaxed'.trans hrelaxed)
        · -- nothing is asked behind the end of a walk
          have hsettled : settled t.parser.cs = true := hcs ▸ settled_of_ended hended
          rw [consultedFrom_append hended]
          exact iff_of_true (reports_alike htwin' (.inr hsettled) chunks).symm
            fun hconsulted => hguarded hconsulted.1

/-- **A strict and a relaxed parser**, from a position of the head on: they report the same
unless the guard is asked. -/
theorem reports_iff {chunks : List Bytes} {b cs : Nat} {s s' : HttpRequestParser}
    {y : Marks × ParserData} (hshort : ∀ p, p < head.length → p - start p < 2 ^ 63)
    (hb : b ≤ head.length) (hstream : head.drop b = (entered chunks).flatten)
    (hstart : ∀ p, b ≤ p → start p = b + readStart (entered chunks) (p - b))
    (h : Ready start b false cs s y) (htwin : Twin (rights.holds cs) s s')
    (hrelaxed : s'.parser.uri_relaxed = true) :
    s.reports chunks = s'.reports chunks ↔ ¬ConsultedFrom start y.1 cs b (head.drop b) := by
  induction chunks generalizing b cs s s' y with
  | nil =>
      rw [show head.drop b = [] from hstream]
      exact iff_of_true rfl fun hconsulted => by cases hconsulted.1.1
  | cons data chunks ih =>
      by_cases hint : (data.length : Int) = toInt data.length
      · rw [entered, List.takeWhile_cons, if_pos (decide_eq_true hint), ← entered] at hstream hstart
        by_cases hdata : data = []
        · -- an empty chunk changes nothing, in neither parser
          subst hdata
          show s.report 0 :: s.reports chunks = s'.report 0 :: s'.reports chunks ↔ _
          rw [htwin.report_eq, List.cons_inj_right]
          refine ih hb hstream (fun p hp => (hstart p hp).trans ?_) h htwin hrelaxed
          rw [readStart, List.length_nil, if_neg (Nat.not_lt_zero _), Nat.zero_add, Nat.sub_zero]
        rw [List.flatten_cons] at hstream
        have hbuf := Buffer.of_first hb hstream hstart
        obtain rfl := h.reached
        rw [hstream]
        by_cases hguarded : Guarded ((machine false).walk s.parser.cs b data) b data
        · have hpart := reports_part htwin h.relaxed hrelaxed hguarded hint chunks
          rw [consultedFrom_append (by rw [hguarded.1]; decide)]
          rcases ready_call hbuf hshort hdata h with
            ⟨hexec, hthrown⟩ | ⟨t, y', hexec, hthrown, -⟩
          · exact iff_of_true (hpart.1 hexec) fun hconsulted => hconsulted.2 hthrown
          · exact iff_of_false (hpart.2 t _ hexec) (not_not.mpr ⟨hguarded, hthrown⟩)
        · have hrest : head.drop (b + data.length) = (entered chunks).flatten := by
            rw [← List.drop_drop, hstream, List.drop_left]
          rw [← hrest]
          exact reports_along hbuf hshort hdata hint h htwin hrelaxed hguarded
            fun hready htwin' hrelaxed' =>
              ih hbuf.fits hrest (readStart_behind hstart) hready htwin' hrelaxed'
      · rw [entered, List.takeWhile_cons, if_neg (by simpa using hint)] at hstream
        rw [show head.drop b = [] from hstream, s.reports_cut hint, s'.reports_cut hint]
        exact iff_of_true rfl fun hconsulted => by cases hconsulted.1.1

theorem lt_of_toInt {n : Nat} (h : (n : Int) = toInt n) : n < 2147483648 := by
  have hlt : toInt n < 2 ^ (32 - 1) := BitVec.toInt_lt
  omega

/-- What two memories make of a parser. -/
theorem twin_new (storage storage' : HttpParser) :
    Twin (rights.holds http_parser_start) (.new storage) (.new storage') :=
  .mk storage'.query_start storage'.uri_relaxed fun h => absurd h (by decide)

/-- A strict parser and a relaxed one. -/
theorem new_reports_iff {storage storage' : HttpParser} (hstrict : storage.uri_relaxed = false)
    (hrelaxed : storage'.uri_relaxed = true) (chunks : List Bytes) :
    (HttpRequestParser.new storage).reports chunks =
      (HttpRequestParser.new storage').reports chunks ↔ ¬Consulted chunks := by
  have hready := Ready.new (readStart (entered chunks)) storage
  rw [hstrict] at hready
  refine @reports_iff _ (entered chunks).flatten chunks 0 _ _ _ _ (fun p hp => ?_) (Nat.zero_le _)
    rfl (fun p _ => by rw [Nat.zero_add, Nat.sub_zero]) hready (twin_new storage storage') hrelaxed
  have hlength : ∀ c ∈ entered chunks, c.length ≤ 2147483648 := by
    intro c hc
    have hfits := of_decide_eq_true (List.all_eq_true.mp List.all_takeWhile c hc)
    exact Nat.le_of_lt (lt_of_toInt hfits)
  have hnear := readStart_near hlength hp
  omega

/-- **Parsing and the memory of the parser.**  Two parsers that are given the same chunks report
the same if and only if their memory says the same to the guard, or the chunks do not ask it. -/
theorem parse_iff (storage storage' : HttpParser) (chunks : List Bytes) :
    (HttpRequestParser.new storage).reports chunks =
        (HttpRequestParser.new storage').reports chunks ↔
      storage.uri_relaxed = storage'.uri_relaxed ∨ ¬Consulted chunks := by
  by_cases hsame : storage.uri_relaxed = storage'.uri_relaxed
  · refine iff_of_true (reports_alike (twin_new storage storage') (.inl hsame.symm) chunks).symm ?_
    exact .inl hsame
  · rw [or_iff_right hsame]
    rcases hu : storage.uri_relaxed with _ | _ <;> rcases hu' : storage'.uri_relaxed with _ | _
    · exact absurd (hu.trans hu'.symm) hsame
    · exact new_reports_iff hu hu' chunks
    · exact eq_comm.trans (new_reports_iff hu' hu chunks)
    · exact absurd (hu.trans hu'.symm) hsame

/-- The memory says whether "/^" is a path. -/
theorem parse_indeterminate :
    (HttpRequestParser.new .zero).reports [ascii "GET /^ HTTP/1.1\r\n\r\n"] =
        [.returned 5 true (-1) .new] ∧
      (HttpRequestParser.new { HttpParser.zero with uri_relaxed := true }).reports
          [ascii "GET /^ HTTP/1.1\r\n\r\n"] =
        [.returned 19 false 1 { HttpRequest.new with m_path := ascii "/^" }] := by
  decide +kernel

end Http

end Will
