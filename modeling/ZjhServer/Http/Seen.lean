/-
ZjhServer/Http/Seen.lean

What `recvRequest` returns for a stream that begins with a complete head, in closed
form: the calls of the walk over the head, applied one after the other to a fresh
request as each is seen in its read (`Call.set`), if none of them fails
(`Call.Ok`); then the body (`recvRequest_of_ok`, `recvRequest_of_not_ok`).
-/
import ZjhServer.Http.Session

namespace Will

namespace Http

open Transducer

/-! ### The head of a stream -/

def Marks.init : Marks := ⟨0, 0, 0, 0⟩

def headWalk (storage : HttpParser) (bytes : Bytes) : Walk Nat Action :=
  (machine storage.uri_relaxed).walk http_parser_start 0 bytes

/-- The length of the head. -/
def headLength (storage : HttpParser) (bytes : Bytes) : Nat := (headWalk storage bytes).pos

def calls (storage : HttpParser) (bytes : Bytes) : List Call :=
  callsFrom .init (headWalk storage bytes).events

/-- The bytes begin with a complete head, not longer than the buffer. -/
structure HeadFits (storage : HttpParser) (bytes : Bytes) : Prop where
  halted : (headWalk storage bytes).ended = .halted
  size : headLength storage bytes ≤ HttpRequestParser.GetHttpRequestBufferSize

instance (storage : HttpParser) (bytes : Bytes) : Decidable (HeadFits storage bytes) :=
  decidable_of_iff ((headWalk storage bytes).ended = .halted ∧
    headLength storage bytes ≤ HttpRequestParser.GetHttpRequestBufferSize)
    ⟨fun h => ⟨h.1, h.2⟩, fun h => ⟨h.halted, h.size⟩⟩

/-! ### Where the calls are -/

/-- The positions of a call, up to `n`. -/
def Call.Within (n : Nat) : Call → Prop
  | .method m e | .path m e | .query m e | .fragment m e | .version m e => m ≤ e ∧ e < n
  | .field s f m e => s ≤ e ∧ f ≤ e ∧ m ≤ e ∧ e < n

structure Marks.Upto (k : Marks) (p : Nat) : Prop where
  mark : k.mark ≤ p
  field_start : k.field_start ≤ p
  field_end : k.field_end ≤ p
  query_start : k.query_start ≤ p

theorem Marks.Upto.mono {k : Marks} {p p' : Nat} (h : k.Upto p) (hp : p ≤ p') : k.Upto p' :=
  ⟨Nat.le_trans h.mark hp, Nat.le_trans h.field_start hp, Nat.le_trans h.field_end hp,
    Nat.le_trans h.query_start hp⟩

theorem Marks.act_upto {k : Marks} {p n : Nat} (h : k.Upto p) (hp : p < n) (a : Action) :
    (k.act p a).1.Upto p ∧ ∀ c, (k.act p a).2 = some c → c.Within n := by
  have hle := Nat.le_refl p
  cases a with
  | mark | start_value => exact ⟨{ h with mark := hle }, fun c hc => by cases hc⟩
  | start_field => exact ⟨{ h with field_start := hle }, fun c hc => by cases hc⟩
  | write_field => exact ⟨{ h with field_end := hle }, fun c hc => by cases hc⟩
  | start_query => exact ⟨{ h with query_start := hle }, fun c hc => by cases hc⟩
  | request_uri | done | xml | json => exact ⟨h, fun c hc => by cases hc⟩
  | write_value =>
      refine ⟨h, fun c hc => ?_⟩
      cases hc
      exact ⟨h.field_start, h.field_end, h.mark, hp⟩
  | query_string =>
      refine ⟨h, fun c hc => ?_⟩
      cases hc
      exact ⟨h.query_start, hp⟩
  | request_method | fragment | http_version | request_path =>
      refine ⟨h, fun c hc => ?_⟩
      cases hc
      exact ⟨h.mark, hp⟩

theorem callsFrom_within {k : Marks} {p n : Nat} {events : List (Nat × Action)} (h : k.Upto p)
    (hin : ∀ e ∈ events, p ≤ e.1 ∧ e.1 < n)
    (hsorted : events.Pairwise fun e e' => e.1 ≤ e'.1) :
    ∀ c ∈ callsFrom k events, c.Within n := by
  induction events generalizing k p with
  | nil => exact fun _ hc => absurd hc List.not_mem_nil
  | cons e events ih =>
      obtain ⟨q, a⟩ := e
      obtain ⟨hpq, hqn⟩ := hin (q, a) (List.mem_cons_self ..)
      obtain ⟨hupto, hcall⟩ := Marks.act_upto (h.mono hpq) hqn a
      obtain ⟨hfirst, hrest⟩ := List.pairwise_cons.mp hsorted
      intro c hc
      rcases List.mem_append.mp hc with hc | hc
      · exact hcall c (Option.mem_toList.mp hc)
      · exact ih hupto (fun e he => ⟨hfirst e he, (hin e (List.mem_cons_of_mem _ he)).2⟩) hrest c hc

theorem calls_within (storage : HttpParser) (bytes : Bytes) :
    ∀ c ∈ calls storage bytes, c.Within (headLength storage bytes) := by
  obtain ⟨hin, hsorted⟩ := Machine.walk_events (M := machine storage.uri_relaxed)
    http_parser_start 0 bytes
  exact callsFrom_within ⟨Nat.le_refl 0, Nat.le_refl 0, Nat.le_refl 0, Nat.le_refl 0⟩ hin hsorted

/-! ### Each token at most once -/

def Call.uses : Call → Option Right
  | .method .. => some .method
  | .path .. => some .path
  | .query .. => some .query
  | .fragment .. => some .fragment
  | .version .. => some .version
  | .field .. => none

theorem countP_callsFrom (r : Right) (k : Marks) (events : List (Nat × Action)) :
    (callsFrom k events).countP (fun c => c.uses = some r) =
      events.countP fun e => e.2.uses = some r := by
  induction events generalizing k with
  | nil => rfl
  | cons e events ih =>
      obtain ⟨p, a⟩ := e
      rw [callsFrom, List.countP_append, ih, List.countP_cons, Nat.add_comm]
      congr 1
      cases a <;> simp [Marks.act, Call.uses, Action.uses, List.countP_cons]

/-- **Every token but the fields comes at most once.** -/
theorem calls_once (storage : HttpParser) (bytes : Bytes) {r : Right} (hnamed : r ≠ .named)
    (hqueried : r ≠ .queried) :
    (calls storage bytes).countP (fun c => c.uses = some r) ≤ 1 := by
  rw [calls, countP_callsFrom]
  refine Nat.le_trans (Discipline.count_le (rights_obeyed storage.uri_relaxed) (r := r)
    (k := fun a => a.uses = some r) (fun a ha => ?_) (fun a => ?_) http_parser_start 0 bytes)
    (Bool.toNat_le _)
  · rw [decide_eq_true_eq] at ha
    simp [rights, ha]
  · simp [rights, hnamed, hqueried]

/-! ### What a call does -/

/-- The callback called as seen succeeds. -/
def Call.Ok (start : Nat → Nat) (head : Bytes) : Call → Prop
  | .method m e => CharsToHttpMethod (head.drop (max m (start e))) ≠ .INVALID_METHOD
  | .query q e => q - start q ≤ e - start e
  | .version m e => (versionOf (head.drop (max m (start e))) (e - max m (start e))).isSome
  | .path .. | .fragment .. | .field .. => True

/-- The bytes from `p` up to `e`. -/
def between (head : Bytes) (p e : Nat) : Bytes := (head.drop p).take (e - p)

/-- What it makes of the request then. -/
def Call.set (start : Nat → Nat) (head : Bytes) (req : HttpRequest) : Call → HttpRequest
  | .method m e => { req with m_method := CharsToHttpMethod (head.drop (max m (start e))) }
  | .path m e => { req with m_path := between head (max m (start e)) e }
  | .query q e => { req with m_query := between head (start e + (q - start q)) e }
  | .fragment m e => { req with m_fragment := between head (max m (start e)) e }
  | .version m e =>
      { req with
        m_version := (versionOf (head.drop (max m (start e))) (e - max m (start e))).getD
          req.m_version }
  | .field s f m e =>
      if f - max s (start e) = 0 then req
      else req.setHeader (between head (max s (start e)) f) (between head (max m (start e)) e)

variable {start : Nat → Nat} {head : Bytes}

theorem string_some {chars : Bytes} {n : Nat} (h : n < 2 ^ 63) :
    string chars n = some (chars.take n) :=
  if_pos h

theorem see_of_ok {c : Call} {n : Nat} (hwithin : c.Within n)
    (hshort : ∀ p, p < n → p - start p < 2 ^ 63) (hstart : ∀ p, start p ≤ p)
    (hok : c.Ok start head) (d : ParserData) :
    c.see start head d = some { d with m_data := c.set start head d.m_data } := by
  cases c with
  | method m e =>
      rw [Call.see, on_request_method]
      exact if_neg hok
  | path m e | fragment m e =>
      have := hshort e hwithin.2
      simp only [Call.see, on_request_path, on_request_fragment,
        string_some (show e - max m (start e) < 2 ^ 63 by omega)]
      rfl
  | query q e =>
      -- the counts do not wrap, as the query begins no later than it ends
      have := hshort e hwithin.2
      have hok' : q - start q ≤ e - start e := hok
      have := hstart e
      rw [Call.see, on_request_query, LEN_eq hok', string_some (by omega), Call.set, between,
        show e - (start e + (q - start q)) = e - start e - (q - start q) by omega]
      rfl
  | version m e =>
      obtain ⟨v, hv⟩ := Option.isSome_iff_exists.mp hok
      simp only [Call.see, on_request_version, Call.set, hv, Option.getD_some]
  | field s f m e =>
      obtain ⟨hs, hf, hm, he⟩ := hwithin
      have := hshort e he
      simp only [Call.see, on_request_http_field, Call.set]
      split_ifs with hempty
      · rfl
      · rw [string_some (show f - max s (start e) < 2 ^ 63 by omega),
          string_some (show e - max m (start e) < 2 ^ 63 by omega)]
        rfl

theorem see_of_not_ok {c : Call} {n : Nat} (hwithin : c.Within n)
    (hshort : ∀ p, p < n → p - start p < 2 ^ 63) (hok : ¬ c.Ok start head)
    {d d' : ParserData} (h : c.see start head d = some d') : d'.m_error ≠ 0 := by
  cases c with
  | method m e =>
      rw [Call.see, on_request_method, if_pos (not_not.mp hok)] at h
      obtain ⟨v, -, rfl⟩ := Option.map_eq_some_iff.mp h
      exact fun h => by cases h
  | query q e =>
      obtain ⟨hm, he⟩ := hwithin
      have hok' : e - start e < q - start q := Nat.lt_of_not_le hok
      have hwrapped := LEN_wrapped hok' (hshort q (Nat.lt_of_le_of_lt hm he))
      rw [Call.see, on_request_query, string, if_neg (Nat.not_lt.mpr hwrapped)] at h
      cases h
  | version m e =>
      rw [Call.see, on_request_version, Option.not_isSome_iff_eq_none.mp hok] at h
      obtain ⟨v, -, rfl⟩ := Option.map_eq_some_iff.mp h
      exact fun h => by cases h
  | path m e | fragment m e | field s f m e => exact absurd trivial hok

/-! ### The whole head -/

theorem foldlM_see_of_ok {n : Nat} (hshort : ∀ p, p < n → p - start p < 2 ^ 63)
    (hstart : ∀ p, start p ≤ p) {cs : List Call} (hwithin : ∀ c ∈ cs, c.Within n)
    (hok : ∀ c ∈ cs, c.Ok start head)
    (d : ParserData) :
    cs.foldlM (Call.see start head) d =
      some { d with m_data := cs.foldl (Call.set start head) d.m_data } := by
  induction cs generalizing d with
  | nil => rfl
  | cons c cs ih =>
      rw [List.foldlM_cons, see_of_ok (hwithin c (List.mem_cons_self ..)) hshort hstart
        (hok c (List.mem_cons_self ..))]
      exact ih (fun c hc => hwithin c (List.mem_cons_of_mem _ hc))
        (fun c hc => hok c (List.mem_cons_of_mem _ hc)) _

theorem foldlM_see_error {cs : List Call} {d d' : ParserData}
    (h : cs.foldlM (Call.see start head) d = some d') (herr : d.m_error ≠ 0) :
    d'.m_error ≠ 0 := by
  induction cs generalizing d with
  | nil => cases h; exact herr
  | cons c cs ih =>
      rw [List.foldlM_cons] at h
      obtain ⟨t, ht, hrest⟩ := Option.bind_eq_some_iff.mp h
      exact ih hrest (see_error ht herr)

theorem foldlM_see_of_not_ok {n : Nat} (hshort : ∀ p, p < n → p - start p < 2 ^ 63)
    {cs : List Call} (hwithin : ∀ c ∈ cs, c.Within n) (hok : ¬ ∀ c ∈ cs, c.Ok start head)
    {d d' : ParserData}
    (h : cs.foldlM (Call.see start head) d = some d') : d'.m_error ≠ 0 := by
  induction cs generalizing d with
  | nil => exact absurd (fun _ hc => absurd hc List.not_mem_nil) hok
  | cons c cs ih =>
      rw [List.foldlM_cons] at h
      obtain ⟨t, ht, hrest⟩ := Option.bind_eq_some_iff.mp h
      by_cases hc : c.Ok start head
      · refine ih (fun c hc => hwithin c (List.mem_cons_of_mem _ hc)) (fun hall => hok ?_) hrest
        intro c' hc'
        rcases List.mem_cons.mp hc' with rfl | hc'
        · exact hc
        · exact hall c' hc'
      · exact foldlM_see_error hrest
          (see_of_not_ok (hwithin c (List.mem_cons_self ..)) hshort hc ht)

/-- The request the head gives, as seen. -/
def headRequest (start : Nat → Nat) (storage : HttpParser) (bytes : Bytes) : HttpRequest :=
  (calls storage bytes).foldl (Call.set start bytes) .new

def HeadOk (start : Nat → Nat) (storage : HttpParser) (bytes : Bytes) : Prop :=
  ∀ c ∈ calls storage bytes, c.Ok start bytes

/-- The callbacks of a head that is fine. -/
theorem HeadOk.see {storage : HttpParser} {bytes : Bytes} (h : HeadOk start storage bytes)
    (hshort : ∀ p, p < headLength storage bytes → p - start p < 2 ^ 63)
    (hstart : ∀ p, start p ≤ p) :
    ∃ k, (headWalk storage bytes).events.foldlM (fun y e => seeAct start bytes e.1 e.2 y)
      (.init, ⟨.new, 0⟩) = some (k, ⟨headRequest start storage bytes, 0⟩) := by
  have hsome := foldlM_see_of_ok hshort hstart (calls_within storage bytes) h ⟨.new, 0⟩
  have hfold := foldlM_seeAct start bytes (headWalk storage bytes).events .init ⟨.new, 0⟩
  rw [← calls, hsome] at hfold
  obtain ⟨⟨k, d⟩, hy, rfl⟩ := Option.map_eq_some_iff.mp hfold
  exact ⟨k, hy⟩

/-- The callbacks set neither the body nor the connection flag. -/
theorem foldl_set_keeps (cs : List Call) (req : HttpRequest) :
    (cs.foldl (Call.set start head) req).m_body = req.m_body ∧
      (cs.foldl (Call.set start head) req).m_close = req.m_close := by
  induction cs generalizing req with
  | nil => exact ⟨rfl, rfl⟩
  | cons c cs ih =>
      have hset : (c.set start head req).m_body = req.m_body ∧
          (c.set start head req).m_close = req.m_close := by
        cases c with
        | field s f m e =>
            rw [Call.set]
            split
            · exact ⟨rfl, rfl⟩
            · exact ⟨rfl, rfl⟩
        | _ => exact ⟨rfl, rfl⟩
      rw [List.foldl_cons, (ih _).1, (ih _).2]
      exact hset

/-! ### Where reads begin and end -/

theorem readStart_le (cs : List Bytes) (p : Nat) : readStart cs p ≤ p := by
  induction cs generalizing p with
  | nil => exact Nat.zero_le _
  | cons c cs ih =>
      rw [readStart]
      split_ifs with hlt
      · exact Nat.zero_le _
      · have := ih (p - c.length)
        omega

/-- Two positions of one read. -/
theorem readStart_same (cs : List Bytes) {p p' : Nat} (h : readStart cs p' ≤ p) (hp : p ≤ p') :
    readStart cs p = readStart cs p' := by
  induction cs generalizing p p' with
  | nil => rfl
  | cons c cs ih =>
      rw [readStart] at h
      rw [readStart, readStart]
      split_ifs at h ⊢ with hlt' hlt
      · rfl
      · omega
      · omega
      · rw [ih (show readStart cs (p' - c.length) ≤ p - c.length by omega) (by omega)]

theorem headRead_bounds {cs : List Bytes} {n : Nat} (hn : n ≤ cs.flatten.length)
    (hsize : n ≤ HttpRequestParser.GetHttpRequestBufferSize) :
    n ≤ headRead cs n ∧ headRead cs n ≤ cs.flatten.length := by
  induction cs generalizing n with
  | nil => exact ⟨hn, Nat.zero_le _⟩
  | cons c cs ih =>
      rw [List.flatten_cons, List.length_append] at hn ⊢
      rw [headRead]
      split_ifs with hle
      · omega
      · have := ih (n := n - c.length) (by omega) (by omega)
        omega

/-! ### Receiving -/

variable {storage : HttpParser} {sock : Socket}

theorem headLength_le (storage : HttpParser) (bytes : Bytes) :
    headLength storage bytes ≤ bytes.length := by
  have := (Machine.walk_pos_le (M := machine storage.uri_relaxed) http_parser_start 0 bytes).2
  rw [Nat.zero_add] at this
  exact this

/-- A new parser is ready for the first read. -/
theorem Ready.new (start : Nat → Nat) (storage : HttpParser) :
    Ready start 0 storage.uri_relaxed http_parser_start (.new storage) (.init, ⟨.new, 0⟩) where
  reached := rfl
  alive := by decide
  running := by decide
  relaxed := rfl
  body := rfl
  regs := {
    data := rfl
    mark := rfl
    mark_le := Nat.le_refl 0
    field_start := rfl
    field_start_le := Nat.le_refl 0
    field_end_le := Nat.le_refl 0
    named := fun h => absurd h (by decide)
    queried := fun h => absurd h (by decide)
    query_start_le := Nat.le_refl 0 }

theorem recvHead_new (hsock : sock.Delivers) (hfits : HeadFits storage sock.stream) :
    (HeadOk (readStart sock.arrivals) storage sock.stream → ∃ s,
      recvHead (sock.stream.length + 1) (.new storage) [] sock =
        .finished s ((sock.stream.take
            (headRead sock.arrivals (headLength storage sock.stream))).drop
              (headLength storage sock.stream))
          (sock.after (headRead sock.arrivals (headLength storage sock.stream))) ∧
      s.m_data = headRequest (readStart sock.arrivals) storage sock.stream) ∧
    (¬ HeadOk (readStart sock.arrivals) storage sock.stream →
      (recvHead (sock.stream.length + 1) (.new storage) [] sock).Fails) := by
  have hshort : ∀ p, p < headLength storage sock.stream →
      p - readStart sock.arrivals p < 2 ^ 63 := fun p hp =>
    Nat.lt_of_le_of_lt (Nat.le_trans (Nat.sub_le ..) (Nat.le_of_lt hp))
      (Nat.lt_of_le_of_lt hfits.size (by decide))
  have hsee := recvHead_see hsock (show sock.stream.drop 0 = sock.stream from List.drop_zero ..)
    (fun p _ => by rw [Nat.zero_add, Nat.sub_zero])
    (Ready.new (readStart sock.arrivals) storage) hfits.halted hfits.size (Nat.lt_succ_self _)
  simp only [Nat.sub_zero] at hsee
  obtain ⟨hsucc, hfail⟩ := hsee
  constructor
  · intro hok
    obtain ⟨k, hy⟩ := hok.see hshort (readStart_le sock.arrivals)
    obtain ⟨s, hs, hdata⟩ := hsucc _ hy rfl
    exact ⟨s, hs, congrArg ParserData.m_data hdata⟩
  · intro hok
    refine hfail fun y hy => ?_
    refine foldlM_see_of_not_ok hshort (calls_within storage sock.stream) hok
      (d := ⟨.new, 0⟩) ?_
    rw [calls, ← foldlM_seeAct]
    exact Option.map_eq_some_iff.mpr ⟨y, hy, rfl⟩

/-- **What `recvRequest` returns** when every callback succeeds: the request of the head
and its body, if the body comes and can be counted. -/
theorem recvRequest_of_ok (lexical_cast : Bytes → Option UInt64) (hsock : sock.Delivers)
    (hfits : HeadFits storage sock.stream)
    (hok : HeadOk (readStart sock.arrivals) storage sock.stream) :
    let H := headLength storage sock.stream
    let n := headRead sock.arrivals H
    let req := headRequest (readStart sock.arrivals) storage sock.stream
    let L := bodyLength lexical_cast req
    (H + L ≤ sock.stream.length ∧ Counted (H + L - n) → recvRequest lexical_cast storage sock =
      (.request (complete req ((sock.stream.drop H).take L)), sock.after (max n (H + L)))) ∧
    (¬ (H + L ≤ sock.stream.length ∧ Counted (H + L - n)) →
      (recvRequest lexical_cast storage sock).1 = .null) := by
  obtain ⟨s, hhead, hdata⟩ := (recvHead_new hsock hfits).1 hok
  have hbounds := headRead_bounds
    (show headLength storage sock.stream ≤ sock.arrivals.flatten.length from
      headLength_le storage sock.stream) hfits.size
  have hbody := recvBody_delivers lexical_cast s hsock
    hbounds.1 hbounds.2 (by rw [hdata]; exact (foldl_set_keeps _ _).1)
  rw [recvRequest, hhead]
  simp only [hdata] at hbody ⊢
  exact hbody

theorem recvRequest_of_not_ok (lexical_cast : Bytes → Option UInt64) (hsock : sock.Delivers)
    (hfits : HeadFits storage sock.stream)
    (hok : ¬ HeadOk (readStart sock.arrivals) storage sock.stream) (req : HttpRequest) :
    (recvRequest lexical_cast storage sock).1 ≠ .request req := by
  obtain ⟨received, sock', hfails, hnot⟩ := (recvHead_new hsock hfits).2 hok
  rw [recvRequest, hfails]
  exact hnot req

end Http

end Will
