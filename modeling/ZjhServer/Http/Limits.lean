/-
ZjhServer/Http/Limits.lean

The limits on the size of a request (server/http/http_session.cc,
server/http/http_parser.cc).

The parser consumes all of each read but what follows the end of the head, so `offset` is 0
whenever the loop goes on and the test for a full buffer never fires;
`GetHttpRequestMaxBodySize()` is asked nowhere.  How the loop over the head ends is left to
the machine and the callbacks alone (`recvHead_outcome`), for streams and reads of any
kind, and the limits hold only where one of these refuses the request anyway
(`limits_enforced_iff`).
-/
import ZjhServer.Http.Body

namespace Will

namespace Http

open Transducer

/-! ### Calls that throw -/

/-- Where the callback is called. -/
def Call.position : Call → Nat
  | .method _ e | .path _ e | .query _ e | .fragment _ e | .version _ e | .field _ _ _ e => e

/-- The callback makes a string whose length has wrapped around. -/
def Call.Throws (start : Nat → Nat) : Call → Prop
  | .query q e => e - start e < q - start q
  | _ => False

/-- A call throws, and no callback has failed in an earlier read: errors are looked at
behind each read only. -/
def Thrown (start : Nat → Nat) (head : Bytes) (cs : List Call) : Prop :=
  ∃ c ∈ cs, c.Throws start ∧ ∀ c' ∈ cs, ¬ c'.Ok start head → start c.position ≤ c'.position

variable {start : Nat → Nat} {head : Bytes}

theorem Call.Throws.not_ok {c : Call} (h : c.Throws start) : ¬ c.Ok start head := by
  cases c with
  | query q e => exact Nat.not_le.mpr h
  | _ => exact h.elim

theorem see_eq_none {c : Call} {n : Nat} (hwithin : c.Within n)
    (hshort : ∀ p, p < n → p - start p < 2 ^ 63) (d : ParserData) :
    c.see start head d = none ↔ c.Throws start := by
  have hlen : ∀ {e}, e < n → ∀ m, e - max m (start e) < 2 ^ 63 := by
    intro e he m
    have := hshort e he
    omega
  -- only the length of a query is a difference that may wrap
  cases c with
  | query q e =>
      obtain ⟨hq, he⟩ := hwithin
      rw [Call.see, on_request_query, Option.map_eq_none_iff, Call.Throws]
      constructor
      · intro hnone
        refine Nat.lt_of_not_le fun hle => ?_
        have := hshort e he
        rw [LEN_eq hle, string_some (by omega)] at hnone
        cases hnone
      · intro hlt
        exact if_neg (Nat.not_lt.mpr (LEN_wrapped hlt (hshort q (by omega))))
  | method m e =>
      refine ⟨fun h => ?_, fun h => h.elim⟩
      simp only [Call.see, on_request_method, string_some (hlen hwithin.2 m)] at h
      split_ifs at h
      cases h
  | path m e | fragment m e =>
      refine ⟨fun h => ?_, fun h => h.elim⟩
      simp only [Call.see, on_request_path, on_request_fragment,
        string_some (hlen hwithin.2 m)] at h
      cases h
  | version m e =>
      refine ⟨fun h => ?_, fun h => h.elim⟩
      simp only [Call.see, on_request_version, string_some (hlen hwithin.2 m)] at h
      split at h
      · cases h
      · cases h
  | field s f m e =>
      refine ⟨fun h => ?_, fun h => h.elim⟩
      obtain ⟨hs, hf, hm, he⟩ := hwithin
      have hname : f - max s (start e) < 2 ^ 63 := by
        have := hlen he s
        omega
      simp only [Call.see, on_request_http_field, string_some hname,
        string_some (hlen he m)] at h
      split_ifs at h
      cases h

theorem foldlM_see_eq_none {n : Nat} (hshort : ∀ p, p < n → p - start p < 2 ^ 63)
    {cs : List Call} (hwithin : ∀ c ∈ cs, c.Within n) (d : ParserData) :
    cs.foldlM (Call.see start head) d = none ↔ ∃ c ∈ cs, c.Throws start := by
  induction cs generalizing d with
  | nil => exact ⟨fun h => (by cases h), fun ⟨_, hc, _⟩ => absurd hc List.not_mem_nil⟩
  | cons c cs ih =>
      rw [List.foldlM_cons, List.exists_mem_cons_iff]
      have hfirst : c.see start head d = none ↔ c.Throws start :=
        see_eq_none (hwithin c (List.mem_cons_self ..)) hshort d
      have hrest := ih fun c hc => hwithin c (List.mem_cons_of_mem _ hc)
      rcases hsee : c.see start head d with _ | d'
      · exact ⟨fun _ => .inl (hfirst.mp hsee), fun _ => rfl⟩
      · have hnot : ¬ c.Throws start := fun h => by
          rw [hfirst.mpr h] at hsee
          cases hsee
        rw [show (some d' >>= fun d => cs.foldlM (Call.see start head) d) =
          cs.foldlM (Call.see start head) d' from rfl, hrest d', or_iff_right hnot]

/-! ### Calls, read by read -/

theorem Marks.act_position {k : Marks} {p : Nat} {a : Action} {c : Call}
    (h : (k.act p a).2 = some c) : c.position = p := by
  cases a <;> cases h <;> rfl

theorem callsFrom_position {k : Marks} {events : List (Nat × Action)} :
    ∀ c ∈ callsFrom k events, ∃ e ∈ events, c.position = e.1 := by
  induction events generalizing k with
  | nil => exact fun _ hc => absurd hc List.not_mem_nil
  | cons e events ih =>
      intro c hc
      rcases List.mem_append.mp hc with hc | hc
      · exact ⟨e, List.mem_cons_self .., Marks.act_position (Option.mem_toList.mp hc)⟩
      · obtain ⟨e', he', hpos⟩ := ih c hc
        exact ⟨e', List.mem_cons_of_mem _ he', hpos⟩

/-- The marks behind some events. -/
def Marks.along (k : Marks) (events : List (Nat × Action)) : Marks :=
  events.foldl (fun k e => (k.act e.1 e.2).1) k

theorem callsFrom_append (k : Marks) (events later : List (Nat × Action)) :
    callsFrom k (events ++ later) = callsFrom k events ++ callsFrom (k.along events) later := by
  induction events generalizing k with
  | nil => rfl
  | cons e events ih =>
      rw [List.cons_append, callsFrom, callsFrom, ih, List.append_assoc]
      rfl

theorem seeAct_marks {events : List (Nat × Action)} {y y' : Marks × ParserData}
    (h : events.foldlM (fun y e => seeAct start head e.1 e.2 y) y = some y') :
    y'.1 = y.1.along events := by
  induction events generalizing y with
  | nil => cases h; rfl
  | cons e events ih =>
      rw [List.foldlM_cons] at h
      obtain ⟨z, hz, hrest⟩ := Option.bind_eq_some_iff.mp h
      have hmarks : z.1 = (y.1.act e.1 e.2).1 := by
        unfold seeAct at hz
        split at hz
        · cases hz; rfl
        · obtain ⟨d, -, rfl⟩ := Option.map_eq_some_iff.mp hz
          rfl
      rw [ih hrest, hmarks]
      rfl

/-! ### How the loop over the head ends -/

open HttpRequestParser in
/-- The reads of the loop over the head, as long as something comes. -/
def headReads : Nat → Socket → List Bytes
  | 0, _ => []
  | turns + 1, sock =>
      let r := sock.read GetHttpRequestBufferSize
      if r.1 = [] then [] else r.1 :: headReads turns r.2

/-- What the machine and the calls of a head make of the loop: it ends with the request, by
an exception, or with the session closed. -/
structure HeadOutcome (start : Nat → Nat) (head : Bytes) (ended : Ended) (cs : List Call)
    (req : HttpRequest) (h : Head) : Prop where
  accepted : ended = .halted → (∀ c ∈ cs, c.Ok start head) →
    ∃ s data sock, h = .finished s data sock ∧ s.m_data = cs.foldl (Call.set start head) req
  thrown : Thrown start head cs → ∃ sock, h = .failed .length_error sock
  refused : ¬ (ended = .halted ∧ ∀ c ∈ cs, c.Ok start head) → ¬ Thrown start head cs →
    ∃ sock, h = .failed .null sock ∧ sock.connected = false

namespace HeadOutcome

variable {ended : Ended} {cs cs₁ cs₂ : List Call} {req : HttpRequest} {h : Head}

/-- No callback has failed, but the machine has not halted. -/
theorem of_unfinished (sock : Socket) (hok : ∀ c ∈ cs, c.Ok start head) (hended : ended ≠ .halted)
    (hclosed : h = .failed .null sock.close) : HeadOutcome start head ended cs req h where
  accepted := fun hhalted => absurd hhalted hended
  thrown := fun ⟨c, hc, hthrows, _⟩ => absurd (hok c hc) hthrows.not_ok
  refused := fun _ _ => ⟨sock.close, hclosed, rfl⟩

/-- Every callback has succeeded, and the machine has halted. -/
theorem of_finished (s : HttpRequestParser) (data : Bytes) (sock : Socket)
    (hok : ∀ c ∈ cs, c.Ok start head) (hended : ended = .halted)
    (hdata : s.m_data = cs.foldl (Call.set start head) req)
    (hfinished : h = .finished s data sock) : HeadOutcome start head ended cs req h where
  accepted := fun _ _ => ⟨s, data, sock, hfinished, hdata⟩
  thrown := fun ⟨c, hc, hthrows, _⟩ => absurd (hok c hc) hthrows.not_ok
  refused := fun hnot _ => absurd ⟨hended, hok⟩ hnot

/-- A call of the first read, which begins at `b`, throws. -/
theorem of_throws (sock : Socket) {b : Nat} (hthrows : ∃ c ∈ cs₁, c.Throws start)
    (hstart : ∀ c ∈ cs₁, start c.position = b) (hbehind : ∀ c ∈ cs₁ ++ cs₂, b ≤ c.position)
    (hthrown : h = .failed .length_error sock) :
    HeadOutcome start head ended (cs₁ ++ cs₂) req h := by
  obtain ⟨c, hc, hthrows⟩ := hthrows
  have hmem : c ∈ cs₁ ++ cs₂ := List.mem_append_left _ hc
  refine ⟨fun _ hok => absurd (hok c hmem) hthrows.not_ok, fun _ => ⟨sock, hthrown⟩,
    fun _ hnot => absurd ⟨c, hmem, hthrows, fun c' hc' _ => ?_⟩ hnot⟩
  rw [hstart c hc]
  exact hbehind c' hc'

/-- A call of the first read, which ends at `m`, fails, but none throws. -/
theorem of_fails (sock : Socket) {m : Nat} (hnone : ¬ ∃ c ∈ cs₁, c.Throws start)
    (hfails : ¬ ∀ c ∈ cs₁, c.Ok start head) (hbefore : ∀ c ∈ cs₁, c.position < m)
    (hstart : ∀ c ∈ cs₂, m ≤ start c.position) (hclosed : h = .failed .null sock.close) :
    HeadOutcome start head ended (cs₁ ++ cs₂) req h := by
  refine ⟨fun _ hok => absurd (fun c hc => hok c (List.mem_append_left _ hc)) hfails, ?_,
    fun _ _ => ⟨sock.close, hclosed, rfl⟩⟩
  -- a later call could throw only if the failed one were not before its read
  rintro ⟨c, hc, hthrows, hall⟩
  rcases List.mem_append.mp hc with hc | hc
  · exact absurd ⟨c, hc, hthrows⟩ hnone
  · refine absurd (fun c' hc' => ?_) hfails
    by_contra hnot
    have := hall c' (List.mem_append_left _ hc') hnot
    have := hbefore c' hc'
    have := hstart c hc
    omega

/-- After calls that succeed the rest decides. -/
theorem of_rest (hok : ∀ c ∈ cs₁, c.Ok start head)
    (hrest : HeadOutcome start head ended cs₂ (cs₁.foldl (Call.set start head) req) h) :
    HeadOutcome start head ended (cs₁ ++ cs₂) req h where
  accepted := fun hhalted hall => by
    rw [List.foldl_append]
    exact hrest.accepted hhalted fun c hc => hall c (List.mem_append_right _ hc)
  thrown := fun ⟨c, hc, hthrows, hall⟩ => by
    refine hrest.thrown ⟨c, ?_, hthrows, fun c' hc' => hall c' (List.mem_append_right _ hc')⟩
    exact (List.mem_append.mp hc).resolve_left fun hc => hthrows.not_ok (hok c hc)
  refused := fun hnot hnone => by
    refine hrest.refused (fun hall => hnot ⟨hall.1, fun c hc => ?_⟩) ?_
    · exact (List.mem_append.mp hc).elim (hok c) (hall.2 c)
    · rintro ⟨c, hc, hthrows, hall⟩
      refine hnone ⟨c, List.mem_append_right _ hc, hthrows, fun c' hc' hfails => ?_⟩
      exact (List.mem_append.mp hc').elim (fun hc' => absurd (hok c' hc') hfails)
        fun hc' => hall c' hc' hfails

end HeadOutcome

/-- The marks of a parser before a read. -/
theorem Regs.upto {φ : Right → Bool} {b p : Nat} {s : HttpRequestParser} {y : Marks × ParserData}
    (h : Regs start b φ p s y) : y.1.Upto p :=
  ⟨h.mark_le, h.field_start_le, h.field_end_le, h.query_start_le⟩

/-- The calls of a read are made inside it. -/
theorem callsFrom_walk (uri_relaxed : Bool) (cs : Nat) {b n : Nat} {data : Bytes} {k : Marks}
    (hupto : k.Upto b) (hfits : b + data.length ≤ n) :
    ∀ c ∈ callsFrom k ((machine uri_relaxed).walk cs b data).events,
      c.Within n ∧ b ≤ c.position ∧ c.position < b + data.length := by
  have hpos := Machine.walk_pos_le (M := machine uri_relaxed) cs b data
  obtain ⟨hin, hsorted⟩ := Machine.walk_events (M := machine uri_relaxed) cs b data
  intro c hc
  refine ⟨callsFrom_within hupto (fun e he => ?_) hsorted c hc, ?_⟩
  · have := hin e he
    omega
  · obtain ⟨e, he, hat⟩ := callsFrom_position c hc
    have := hin e he
    omega

/-- The calls behind a read, which are those of the walk that goes on there. -/
theorem callsFrom_behind (uri_relaxed : Bool) (cs b : Nat) (data rest : Bytes) (k : Marks) :
    let r := (machine uri_relaxed).walk cs b data
    ∃ later, callsFrom k ((machine uri_relaxed).walk cs b (data ++ rest)).events =
        callsFrom k r.events ++ later ∧
      (∀ c ∈ later, b + data.length ≤ c.position) ∧
      (r.ended = .ran → later = callsFrom (k.along r.events)
        ((machine uri_relaxed).walk r.state (b + data.length) rest).events) ∧
      (r.ended ≠ .ran → later = []) := by
  intro r
  by_cases hran : r.ended = .ran
  · rw [Machine.walk_append hran, Walk.events_behind, callsFrom_append]
    refine ⟨_, rfl, fun c hc => ?_, fun _ => rfl, fun h => absurd hran h⟩
    obtain ⟨e, he, hat⟩ := callsFrom_position c hc
    exact hat ▸ ((Machine.walk_events _ _ rest).1 e he).1
  · rw [Machine.walk_append_of_ended hran]
    exact ⟨[], (List.append_nil _).symm, fun _ hc => absurd hc List.not_mem_nil,
      fun h => absurd h hran, fun _ => rfl⟩

/-- The callbacks of a walk over a buffer fail where one of them throws. -/
theorem seeAct_eq_none (uri_relaxed : Bool) (cs : Nat) {b : Nat} {data : Bytes}
    {y : Marks × ParserData}
    (hshort : ∀ p, p < head.length → p - start p < 2 ^ 63) (hupto : y.1.Upto b)
    (hfits : b + data.length ≤ head.length) :
    ((machine uri_relaxed).walk cs b data).events.foldlM
        (fun y e => seeAct start head e.1 e.2 y) y = none ↔
      ∃ c ∈ callsFrom y.1 ((machine uri_relaxed).walk cs b data).events, c.Throws start := by
  have hwithin := fun c hc => (callsFrom_walk uri_relaxed cs hupto hfits c hc).1
  rw [← foldlM_see_eq_none hshort hwithin y.2, ← foldlM_seeAct, Option.map_eq_none_iff]

/-- The callbacks of a walk over a buffer that do not throw: they are fine unless they leave an
error, and then the request is what they set. -/
theorem seeAct_eq_some {uri_relaxed : Bool} {cs b : Nat} {data : Bytes} {y y' : Marks × ParserData}
    (hshort : ∀ p, p < head.length → p - start p < 2 ^ 63) (hle : ∀ p, start p ≤ p)
    (hupto : y.1.Upto b) (hfits : b + data.length ≤ head.length) (herr : y.2.m_error = 0)
    (h : ((machine uri_relaxed).walk cs b data).events.foldlM
      (fun y e => seeAct start head e.1 e.2 y) y = some y') :
    let cs := callsFrom y.1 ((machine uri_relaxed).walk cs b data).events
    (y'.2.m_error = 0 ↔ ∀ c ∈ cs, c.Ok start head) ∧
      (y'.2.m_error = 0 → y'.2.m_data = cs.foldl (Call.set start head) y.2.m_data) := by
  intro cs
  have hwithin : ∀ c ∈ cs, c.Within head.length := fun c hc =>
    (callsFrom_walk uri_relaxed _ hupto hfits c hc).1
  have hfold : cs.foldlM (Call.see start head) y.2 = some y'.2 := by
    rw [← foldlM_seeAct, h]
    rfl
  by_cases hok : ∀ c ∈ cs, c.Ok start head
  · rw [foldlM_see_of_ok hshort hle hwithin hok, Option.some.injEq] at hfold
    rw [← hfold]
    exact ⟨iff_of_true herr hok, fun _ => rfl⟩
  · have hfails := foldlM_see_of_not_ok hshort hwithin hok hfold
    exact ⟨iff_of_false hfails hok, fun h => absurd h hfails⟩

/-- **The loop over the head**, for any stream and any reads: how it ends is up to the machine
and the callbacks. -/
theorem recvHead_outcome {uri_relaxed : Bool} {turns b cs : Nat} {s : HttpRequestParser}
    {y : Marks × ParserData} {sock : Socket}
    (hshort : ∀ p, p < head.length → p - start p < 2 ^ 63) (hle : ∀ p, start p ≤ p)
    (hb : b ≤ head.length) (hstream : head.drop b = (headReads turns sock).flatten)
    (hstart : ∀ p, b ≤ p → start p = b + readStart (headReads turns sock) (p - b))
    (h : Ready start b uri_relaxed cs s y) (herr : y.2.m_error = 0) :
    let r := (machine uri_relaxed).walk cs b (head.drop b)
    HeadOutcome start head r.ended (callsFrom y.1 r.events) y.2.m_data
      (recvHead turns s [] sock) := by
  induction turns generalizing b cs s y sock with
  | zero =>
      rw [show head.drop b = [] from hstream]
      exact .of_unfinished sock (fun _ hc => absurd hc List.not_mem_nil)
        (fun h => by cases h) rfl
  | succ turns ih =>
      obtain ⟨data, sock', hread⟩ : ∃ data sock',
          sock.read HttpRequestParser.GetHttpRequestBufferSize = (data, sock') := ⟨_, _, rfl⟩
      rw [headReads, hread] at hstream hstart
      simp only at hstream hstart
      by_cases hdata : data = []
      · -- the read fails, or nothing more comes
        rw [if_pos hdata] at hstream
        rw [show head.drop b = [] from hstream]
        refine .of_unfinished sock' (fun _ hc => absurd hc List.not_mem_nil)
          (fun h => by cases h) ?_
        rw [recvHead, List.length_nil, Nat.sub_zero, hread]
        exact if_pos hdata
      rw [if_neg hdata] at hstream hstart
      rw [List.flatten_cons] at hstream
      have hbuf := Buffer.of_first hb hstream hstart
      have hfits := hbuf.fits
      have hturn := recvHead_see_turn turns hread hdata hbuf (fun q hq => hshort q (by omega)) h
      simp only at hturn
      -- the calls of this read, and those of the reads to come
      obtain ⟨later, hcalls, hthere, hlater, hnil⟩ := callsFrom_behind uri_relaxed
        cs b data (headReads turns sock').flatten y.1
      have hhere := callsFrom_walk uri_relaxed cs h.regs.upto hfits
      have hnone : _ ↔ ∃ c ∈ callsFrom y.1 _, c.Throws start :=
        seeAct_eq_none uri_relaxed cs hshort h.regs.upto hfits
      rw [hstream]
      simp only [hcalls]
      generalize hsees : ((machine uri_relaxed).walk cs b data).events.foldlM
        (fun y e => seeAct start head e.1 e.2 y) y = o at hturn hnone
      generalize recvHead (turns + 1) s [] sock = out at hturn ⊢
      cases hturn with
      | thrown =>
          refine .of_throws sock' (b := b) (hnone.mp rfl) (fun c hc => ?_) (fun c hc => ?_) rfl
          · exact hbuf.start _ (hhere c hc).2.1 (hhere c hc).2.2
          · rcases List.mem_append.mp hc with hc | hc
            · exact (hhere c hc).2.1
            · exact Nat.le_trans (Nat.le_add_right ..) (hthere c hc)
      | error y₁ herr₁ =>
          -- the error is seen behind this read
          have hok := (seeAct_eq_some hshort hle h.regs.upto hfits herr hsees).1
          refine .of_fails sock' (m := b + data.length) (fun h => by cases hnone.mpr h)
            (fun h => herr₁ (hok.mpr h)) (fun c hc => (hhere c hc).2.2) (fun c hc => ?_) rfl
          rw [readStart_behind hstart _ (hthere c hc)]
          exact Nat.le_add_right _ _
      | stuck y₁ herr₁ hended =>
          -- every callback has succeeded, and the machine is not at its end
          have hran : ((machine uri_relaxed).walk cs b data).ended ≠ .ran := by
            rw [hended]
            decide
          have hok := (seeAct_eq_some hshort hle h.regs.upto hfits herr hsees).1.mp herr₁
          rw [Machine.walk_append_of_ended hran, hnil hran, List.append_nil]
          exact .of_unfinished sock' hok (by rw [hended]; decide) rfl
      | finished y₁ s' herr₁ hended hdata' =>
          have hran : ((machine uri_relaxed).walk cs b data).ended ≠ .ran := by
            rw [hended]
            decide
          obtain ⟨hok, hset⟩ := seeAct_eq_some hshort hle h.regs.upto hfits herr hsees
          rw [Machine.walk_append_of_ended hran, hnil hran, List.append_nil]
          refine .of_finished s' _ sock' (hok.mp herr₁) hended ?_ rfl
          show s'.toParserData.m_data = _
          rw [hdata', hset herr₁]
      | next y₁ s' herr₁ hran hready =>
          -- on to the next read, with an empty buffer
          obtain ⟨hok, hset⟩ := seeAct_eq_some hshort hle h.regs.upto hfits herr hsees
          have hrest : head.drop (b + data.length) = (headReads turns sock').flatten := by
            rw [← List.drop_drop, hstream, List.drop_left]
          have hnext := ih hfits hrest (readStart_behind hstart) hready herr₁
          rw [hrest, seeAct_marks hsees, hset herr₁] at hnext
          rw [Machine.walk_append hran, Walk.ended_behind, hlater hran]
          exact .of_rest (hok.mp herr₁) hnext

/-! ### Reads of any stream -/

theorem length_supplied_le (arrivals : List Bytes) :
    (supplied arrivals).length ≤ arrivals.flatten.length := by
  induction arrivals with
  | nil => exact Nat.le_refl _
  | cons c cs ih =>
      by_cases hc : c = []
      · rw [hc]
        exact Nat.zero_le _
      · rw [supplied_cons hc, List.flatten_cons, List.length_append, List.length_append]
        omega

/-- The reads bring what is supplied. -/
theorem headReads_supplied {turns : Nat} {sock : Socket} (hconnected : sock.connected = true)
    (hturns : (supplied sock.arrivals).length < turns) :
    (headReads turns sock).flatten = supplied sock.arrivals := by
  induction turns generalizing sock with
  | zero => exact absurd hturns (Nat.not_lt_zero _)
  | succ turns ih =>
      obtain ⟨hconnected', hread⟩ := Socket.read_supplied hconnected
        (show 0 < HttpRequestParser.GetHttpRequestBufferSize by decide)
      rw [headReads]
      rcases hread with ⟨hnone, hnothing⟩ | ⟨k, hk, -, hlen, hfirst, hrest⟩
      · rw [if_pos hnone, hnothing]
        rfl
      · have hsome : (sock.read HttpRequestParser.GetHttpRequestBufferSize).1 ≠ [] := by
          rw [hfirst, ← List.length_pos_iff, List.length_take]
          omega
        rw [if_neg hsome, List.flatten_cons,
          ih hconnected' (by rw [hrest, List.length_drop]; omega), hfirst, hrest,
          List.take_append_drop]

theorem length_of_mem_headReads {turns : Nat} {sock : Socket} :
    ∀ c ∈ headReads turns sock, c.length ≤ HttpRequestParser.GetHttpRequestBufferSize := by
  induction turns generalizing sock with
  | zero => exact fun _ hc => absurd hc List.not_mem_nil
  | succ turns ih =>
      intro c hc
      rw [headReads] at hc
      split_ifs at hc
      · exact absurd hc List.not_mem_nil
      · rcases List.mem_cons.mp hc with rfl | hc
        · exact sock.length_read_le _
        · exact ih c hc

/-- No position is far behind the start of its read. -/
theorem readStart_near {cs : List Bytes} {n : Nat} (h : ∀ c ∈ cs, c.length ≤ n) {p : Nat}
    (hp : p < cs.flatten.length) : p - readStart cs p < n := by
  induction cs generalizing p with
  | nil => exact absurd hp (Nat.not_lt_zero _)
  | cons c cs ih =>
      have hc := h c (List.mem_cons_self ..)
      rw [List.flatten_cons, List.length_append] at hp
      rw [readStart]
      split_ifs with hlt
      · omega
      · have := ih (fun d hd => h d (List.mem_cons_of_mem _ hd)) (p := p - c.length) (by omega)
        omega

/-- Where the read begins that gives a position, when arrivals longer than the buffer are cut. -/
def headStart (arrivals : List Bytes) : Nat → Nat :=
  readStart (headReads (arrivals.flatten.length + 1) ⟨true, arrivals⟩)

/-- The loop of `recvRequest`. -/
theorem recvHead_arrivals (storage : HttpParser) (arrivals : List Bytes) :
    HeadOutcome (headStart arrivals) (supplied arrivals)
      (headWalk storage (supplied arrivals)).ended (calls storage (supplied arrivals)) .new
      (recvHead ((⟨true, arrivals⟩ : Socket).stream.length + 1) (.new storage) []
        ⟨true, arrivals⟩) := by
  have hstream : (headReads (arrivals.flatten.length + 1) ⟨true, arrivals⟩).flatten =
      supplied arrivals :=
    headReads_supplied (show (⟨true, arrivals⟩ : Socket).connected = true from rfl)
      (Nat.lt_succ_of_le (length_supplied_le arrivals))
  refine recvHead_outcome (y := (.init, ⟨.new, 0⟩)) (fun p hp => ?_) (readStart_le _)
    (Nat.zero_le _) hstream.symm (fun p _ => (Nat.zero_add _).symm)
    (Ready.new (headStart arrivals) storage) rfl
  have hnear := readStart_near (p := p) length_of_mem_headReads (by rw [hstream]; exact hp)
  exact Nat.lt_trans hnear (by decide)

/-! ### The limits -/

/-- `GetHttpRequestMaxBodySize()` -/
def HttpRequestParser.GetHttpRequestMaxBodySize : Nat := 64 * 1024 * 1024

/-- The length that the header of a head declares, its tokens as seen. -/
def declared (lexical_cast : Bytes → Option UInt64) (start : Nat → Nat) (storage : HttpParser)
    (bytes : Bytes) : UInt64 :=
  (headRequest start storage bytes).getHeaderAs lexical_cast (ascii "content-length") 0

/-- The size of `body.resize(length)`, 0 if it is not reached. -/
def bodyAllocation (lexical_cast : Bytes → Option UInt64) (storage : HttpParser)
    (sock : Socket) : Nat :=
  match recvHead (sock.stream.length + 1) (.new storage) [] sock with
  | .finished parser _ _ => (parser.getContentLength lexical_cast).toInt64.toInt.toNat
  | .failed .. => 0

open HttpRequestParser in
/-- A request over a limit: its head is longer than the buffer, or it declares a longer
body than it may, be it in its bytes or as they are read. -/
def Over (lexical_cast : Bytes → Option UInt64) (storage : HttpParser)
    (arrivals : List Bytes) : Prop :=
  GetHttpRequestBufferSize < headLength storage (supplied arrivals) ∨
    GetHttpRequestMaxBodySize < (declared lexical_cast whole storage (supplied arrivals)).toNat ∨
    GetHttpRequestMaxBodySize <
      (declared lexical_cast (headStart arrivals) storage (supplied arrivals)).toNat

open HttpRequestParser in
/-- The limits are enforced on a stream and its reads. -/
structure Enforced (lexical_cast : Bytes → Option UInt64) (storage : HttpParser)
    (arrivals : List Bytes) : Prop where
  refuses : Over lexical_cast storage arrivals →
    (recvRequest lexical_cast storage ⟨true, arrivals⟩).1 = .null ∧
      (recvRequest lexical_cast storage ⟨true, arrivals⟩).2.connected = false ∧
      bodyAllocation lexical_cast storage ⟨true, arrivals⟩ = 0
  returns : ∀ req, (recvRequest lexical_cast storage ⟨true, arrivals⟩).1 = .request req →
    headLength storage (supplied arrivals) ≤ GetHttpRequestBufferSize ∧
      req.m_body.length ≤ GetHttpRequestMaxBodySize

/-- The head is refused anyway: the machine is stuck in it or is not at its end when no more
comes, or the method or the version is none, and no callback throws before that is seen. -/
def Refused (storage : HttpParser) (arrivals : List Bytes) : Prop :=
  ¬ ((headWalk storage (supplied arrivals)).ended = .halted ∧
      HeadOk (headStart arrivals) storage (supplied arrivals)) ∧
    ¬ Thrown (headStart arrivals) (supplied arrivals) (calls storage (supplied arrivals))

theorem length_readFixLoop_le (length turns left : Nat) (bytes : Bytes) (sock : Socket) :
    (readFixLoop length turns left bytes sock).bytes.length ≤ bytes.length + left := by
  induction turns generalizing left bytes sock with
  | zero => exact Nat.le_add_right _ _
  | succ turns ih =>
      have hread := sock.length_read_le left
      rw [readFixLoop]
      split_ifs with hzero
      · exact Nat.le_add_right _ _
      · simp only
        split_ifs with hnone
        · exact Nat.le_add_right _ _
        · have hrest := ih (left - (sock.read left).1.length) (bytes ++ (sock.read left).1)
            (sock.read left).2
          rw [List.length_append] at hrest
          omega

/-- A body is not longer than was declared. -/
theorem recvBody_length {lexical_cast : Bytes → Option UInt64} {parser : HttpRequestParser}
    {data : Bytes} {sock : Socket} {req : HttpRequest} (hnew : parser.m_data.m_body = [])
    (h : (recvBody lexical_cast parser data sock).1 = .request req) :
    req.m_body.length ≤ (parser.getContentLength lexical_cast).toInt64.toInt.toNat := by
  have hkeep : ∀ r : HttpRequest, (keepAlive r).m_body = r.m_body := by
    intro r
    rw [keepAlive]
    split <;> rfl
  generalize hlength : (parser.getContentLength lexical_cast).toInt64.toInt = length
  unfold recvBody at h
  simp only [hlength] at h
  split_ifs at h with hsome hmore hshort
  · cases h
    rw [hkeep, List.length_append, List.length_take]
    have := length_readFixLoop_le (length - data.length).toNat (length - data.length).toNat
      (length - data.length).toNat [] sock
    rw [List.length_nil, Nat.zero_add] at this
    have : (sock.readFixSize (length - data.length).toNat).bytes.length ≤
      (length - data.length).toNat := this
    omega
  · cases h
    rw [hkeep, List.length_take]
    omega
  · cases h
    rw [hkeep, hnew]
    exact Nat.zero_le _

theorem toNat_toInt64_le (length : UInt64) : length.toInt64.toInt.toNat ≤ length.toNat := by
  have hlt := length.toNat_lt
  show (length.toBitVec.toInt).toNat ≤ length.toBitVec.toNat
  rw [BitVec.toInt_eq_toNat_cond]
  split_ifs
  · exact Nat.le_refl _
  · have : length.toBitVec.toNat < 18446744073709551616 := hlt
    omega

/-- Without a body there is a request. -/
theorem recvBody_bodiless {lexical_cast : Bytes → Option UInt64} {parser : HttpRequestParser}
    (data : Bytes) (sock : Socket)
    (h : (parser.getContentLength lexical_cast).toInt64.toInt.toNat = 0) :
    ∃ req, (recvBody lexical_cast parser data sock).1 = .request req := by
  have hnone : ¬ (parser.getContentLength lexical_cast).toInt64.toInt > 0 := by omega
  unfold recvBody
  simp only [if_neg hnone]
  exact ⟨_, rfl⟩

section

variable {storage : HttpParser} {arrivals : List Bytes}

/-- A head that is refused: nothing is returned or made room for, and the session is closed. -/
theorem recvRequest_refused (lexical_cast : Bytes → Option UInt64)
    (h : Refused storage arrivals) :
    (recvRequest lexical_cast storage ⟨true, arrivals⟩).1 = .null ∧
      (recvRequest lexical_cast storage ⟨true, arrivals⟩).2.connected = false ∧
      bodyAllocation lexical_cast storage ⟨true, arrivals⟩ = 0 := by
  obtain ⟨sock, hfailed, hclosed⟩ := (recvHead_arrivals storage arrivals).refused h.1 h.2
  rw [recvRequest, bodyAllocation, hfailed]
  exact ⟨rfl, hclosed, rfl⟩

theorem recvRequest_thrown (lexical_cast : Bytes → Option UInt64)
    (h : Thrown (headStart arrivals) (supplied arrivals) (calls storage (supplied arrivals))) :
    (recvRequest lexical_cast storage ⟨true, arrivals⟩).1 = .length_error := by
  obtain ⟨sock, hfailed⟩ := (recvHead_arrivals storage arrivals).thrown h
  rw [recvRequest, hfailed]

/-- A head that is accepted: the rest is up to the body. -/
theorem recvRequest_accepted (lexical_cast : Bytes → Option UInt64)
    (hhalted : (headWalk storage (supplied arrivals)).ended = .halted)
    (hok : HeadOk (headStart arrivals) storage (supplied arrivals)) :
    ∃ s data sock, recvRequest lexical_cast storage ⟨true, arrivals⟩ =
        recvBody lexical_cast s data sock ∧
      bodyAllocation lexical_cast storage ⟨true, arrivals⟩ =
        (s.getContentLength lexical_cast).toInt64.toInt.toNat ∧
      s.m_data = headRequest (headStart arrivals) storage (supplied arrivals) := by
  obtain ⟨s, data, sock, hfinished, hdata⟩ :=
    (recvHead_arrivals storage arrivals).accepted hhalted hok
  refine ⟨s, data, sock, ?_, ?_, hdata⟩
  · rw [recvRequest, hfinished]
  · rw [bodyAllocation, hfinished]

/-- A head that is not refused is not answered by null without room made for a body. -/
theorem not_null_without_body (lexical_cast : Bytes → Option UInt64)
    (h : ¬ Refused storage arrivals) :
    ¬ ((recvRequest lexical_cast storage ⟨true, arrivals⟩).1 = .null ∧
      bodyAllocation lexical_cast storage ⟨true, arrivals⟩ = 0) := by
  rintro ⟨hnull, hnone⟩
  by_cases hthrown : Thrown (headStart arrivals) (supplied arrivals)
      (calls storage (supplied arrivals))
  · rw [recvRequest_thrown lexical_cast hthrown] at hnull
    cases hnull
  · obtain ⟨hhalted, hok⟩ := not_not.mp fun hnot => h ⟨hnot, hthrown⟩
    obtain ⟨s, data, sock, hbody, hroom, -⟩ := recvRequest_accepted lexical_cast hhalted hok
    obtain ⟨req, hreq⟩ := recvBody_bodiless data sock (hroom.symm.trans hnone)
    rw [hbody, hreq] at hnull
    cases hnull

/-- What is returned has an accepted head, and a body not longer than was declared. -/
theorem returned_length {lexical_cast : Bytes → Option UInt64} {req : HttpRequest}
    (h : (recvRequest lexical_cast storage ⟨true, arrivals⟩).1 = .request req) :
    ¬ Refused storage arrivals ∧ req.m_body.length ≤
      (declared lexical_cast (headStart arrivals) storage (supplied arrivals)).toNat := by
  have hnot : ¬ Refused storage arrivals := fun hrefused => by
    rw [(recvRequest_refused lexical_cast hrefused).1] at h
    cases h
  refine ⟨hnot, ?_⟩
  have hthrown : ¬ Thrown (headStart arrivals) (supplied arrivals)
      (calls storage (supplied arrivals)) := fun hthrown => by
    rw [recvRequest_thrown lexical_cast hthrown] at h
    cases h
  obtain ⟨hhalted, hok⟩ := not_not.mp fun hrefused => hnot ⟨hrefused, hthrown⟩
  obtain ⟨s, data, sock, hbody, -, hdata⟩ := recvRequest_accepted lexical_cast hhalted hok
  have hnew : s.m_data.m_body = [] := by
    rw [hdata]
    exact (foldl_set_keeps _ _).1
  have hdeclared : s.getContentLength lexical_cast =
      declared lexical_cast (headStart arrivals) storage (supplied arrivals) := by
    rw [HttpRequestParser.getContentLength, hdata]
    rfl
  rw [hbody] at h
  rw [← hdeclared]
  exact Nat.le_trans (recvBody_length hnew h) (toNat_toInt64_le _)

end

/-- **When the limits are enforced**: exactly for requests that are over neither, or that are
refused anyway. -/
theorem limits_enforced_iff (lexical_cast : Bytes → Option UInt64) (storage : HttpParser)
    (arrivals : List Bytes) :
    Enforced lexical_cast storage arrivals ↔
      ¬ Over lexical_cast storage arrivals ∨ Refused storage arrivals := by
  constructor
  · intro h
    by_contra hnot
    obtain ⟨hover, haccepted⟩ := not_or.mp hnot
    obtain ⟨hnull, -, hnone⟩ := h.refuses (not_not.mp hover)
    exact not_null_without_body lexical_cast haccepted ⟨hnull, hnone⟩
  · intro h
    refine ⟨fun hover => ?_, fun req hreq => ?_⟩
    · exact recvRequest_refused lexical_cast (h.resolve_left (not_not.mpr hover))
    · obtain ⟨hnot, hlength⟩ := returned_length hreq
      obtain ⟨hhead, hbody⟩ := not_or.mp (h.resolve_right hnot)
      refine ⟨Nat.le_of_not_lt hhead, ?_⟩
      exact Nat.le_trans hlength (Nat.le_of_not_lt (not_or.mp hbody).2)

/-- A body of 64 MiB and a byte is declared: room is made for it. -/
theorem limit_exceeded : ¬ Enforced (fun _ => some 67108865) .zero
    [ascii "POST / HTTP/1.1\r\nContent-Length: 67108865\r\n\r\n"] := by
  intro h
  have hover : Over (fun _ => some 67108865) .zero
      [ascii "POST / HTTP/1.1\r\nContent-Length: 67108865\r\n\r\n"] :=
    .inr (.inl (by decide +kernel))
  have hnone := (h.refuses hover).2.2
  revert hnone
  decide +kernel

end Http

end Will
