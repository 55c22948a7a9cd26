/-
ZjhServer/Http/Chunking.lean

The same bytes, delivered in different reads.

A request accepted in one read is received the same from any other reads only if these
do no harm (`Harmless`): no read begins inside the path, the query or the fragment;
what is left of the method and of the version still names the same; the header lines,
without those whose name or value was cut, still give the same map; and what is left of
the body can be counted.  `recvRequest_chunking` says that this is exact.
-/
import ZjhServer.Http.Seen

namespace Will

namespace Http

/-! ### What is left of the tokens -/

/-- The header line a call brings, as seen; none if nothing is left of the name. -/
def Call.line (start : Nat → Nat) (head : Bytes) : Call → Option (Bytes × Bytes)
  | .field s f m e =>
      if f - max s (start e) = 0 then none
      else some (between head (max s (start e)) f, between head (max m (start e)) e)
  | _ => none

/-- The header lines of a head, as seen. -/
def headLines (start : Nat → Nat) (storage : HttpParser) (bytes : Bytes) : List (Bytes × Bytes) :=
  (calls storage bytes).filterMap (Call.line start bytes)

/-- Everything in one read. -/
def whole : Nat → Nat := fun _ => 0

/-- What the reads leave of the tokens of a head still says the same: the method and the
version name the same, the path, the query and the fragment are whole, and every header
name has the same first spelling and the same last value. -/
structure SameHead (start : Nat → Nat) (storage : HttpParser) (bytes : Bytes) : Prop where
  method : ∀ m e, .method m e ∈ calls storage bytes →
    CharsToHttpMethod (bytes.drop (max m (start e))) = CharsToHttpMethod (bytes.drop m)
  path : ∀ m e, .path m e ∈ calls storage bytes → start e ≤ m
  query : ∀ q e, .query q e ∈ calls storage bytes → start e ≤ q
  fragment : ∀ m e, .fragment m e ∈ calls storage bytes → start e ≤ m
  version : ∀ m e, .version m e ∈ calls storage bytes →
    versionOf (bytes.drop (max m (start e))) (e - max m (start e)) =
      versionOf (bytes.drop m) (e - m)
  headers : ∀ name,
    OrderedMap.firstKey CaseInsensitiveLess (headLines start storage bytes) name =
        OrderedMap.firstKey CaseInsensitiveLess (headLines whole storage bytes) name ∧
      OrderedMap.lastValue CaseInsensitiveLess (headLines start storage bytes) name =
        OrderedMap.lastValue CaseInsensitiveLess (headLines whole storage bytes) name

/-- Reads that do no harm to a request: they leave the head the same, and what they leave
of the body to `readFixSize` can be counted. -/
structure Harmless (lexical_cast : Bytes → Option UInt64) (storage : HttpParser) (bytes : Bytes)
    (chunks : List Bytes) : Prop extends SameHead (readStart chunks) storage bytes where
  body : Counted (headLength storage bytes +
    bodyLength lexical_cast (headRequest whole storage bytes) -
      headRead chunks (headLength storage bytes))

/-! ### Folds -/

/-- What the one call of its kind sets. -/
theorem foldl_once {β γ δ : Type} {f : β → γ → β} {proj : β → δ} {k : γ → Bool}
    (hnot : ∀ b c, k c = false → proj (f b c) = proj b) {c₀ : γ} {v : δ}
    (hset : ∀ b, proj (f b c₀) = v) (hk : k c₀ = true) {l : List γ} (hcount : l.countP k ≤ 1)
    (hmem : c₀ ∈ l) (b : β) : proj (l.foldl f b) = v := by
  have hrest : ∀ (l : List γ), l.countP k = 0 → ∀ b, proj (l.foldl f b) = proj b := by
    intro l
    induction l with
    | nil => exact fun _ _ => rfl
    | cons c l ih =>
        intro hzero b
        rw [List.countP_cons] at hzero
        have hc : k c = false := by
          rw [Bool.eq_false_iff]
          intro hc
          rw [if_pos hc] at hzero
          omega
        rw [List.foldl_cons, ih (by omega), hnot b c hc]
  induction l generalizing b with
  | nil => exact absurd hmem List.not_mem_nil
  | cons c l ih =>
      rw [List.countP_cons] at hcount
      rw [List.foldl_cons]
      rcases List.mem_cons.mp hmem with rfl | hmem
      · rw [if_pos hk] at hcount
        rw [hrest l (by omega), hset]
      · refine ih ?_ hmem _
        split at hcount <;> omega

variable {start : Nat → Nat} {head : Bytes}

theorem foldl_set_headers (cs : List Call) (req : HttpRequest) :
    (cs.foldl (Call.set start head) req).m_headers =
      (cs.filterMap (Call.line start head)).foldl (fun m e => MapType.set e.1 e.2 m)
        req.m_headers := by
  induction cs generalizing req with
  | nil => rfl
  | cons c cs ih =>
      rw [List.foldl_cons, ih, List.filterMap_cons]
      cases c with
      | field s f m e =>
          rw [Call.set, Call.line]
          split_ifs with hempty
          · rfl
          · rfl
      | _ => rfl

/-- The header map of a head. -/
theorem headRequest_headers (start : Nat → Nat) (storage : HttpParser) (bytes : Bytes) :
    (headRequest start storage bytes).m_headers =
      OrderedMap.ofList CaseInsensitiveLess (headLines start storage bytes) :=
  foldl_set_headers (calls storage bytes) .new

/-- A request without its header map. -/
def HttpRequest.bare (req : HttpRequest) : HttpRequest := { req with m_headers := [] }

theorem bare_set {start' : Nat → Nat} {c : Call} {req req' : HttpRequest}
    (hsame : c.uses ≠ none → ∀ req, c.set start head req = c.set start' head req)
    (h : req.bare = req'.bare) : (c.set start head req).bare = (c.set start' head req').bare := by
  have hkeep : ∀ (st : Nat → Nat) (req : HttpRequest),
      (c.set st head req).bare = (c.set st head req.bare).bare := by
    intro st req
    cases c with
    | field s f m e =>
        rw [Call.set, Call.set]
        split
        · rfl
        · rfl
    | _ => rfl
  have hfield : c.uses = none → ∀ (st : Nat → Nat) (req : HttpRequest),
      (c.set st head req).bare = req.bare := by
    intro hnone st req
    cases c with
    | field s f m e =>
        rw [Call.set]
        split
        · rfl
        · rfl
    | _ => cases hnone
  by_cases huses : c.uses = none
  · rw [hfield huses, hfield huses, h]
  · rw [hkeep start, hkeep start', h, hsame huses]

theorem bare_foldl {start' : Nat → Nat} {cs : List Call}
    (hsame : ∀ c ∈ cs, c.uses ≠ none → ∀ req, c.set start head req = c.set start' head req)
    {req req' : HttpRequest} (h : req.bare = req'.bare) :
    (cs.foldl (Call.set start head) req).bare = (cs.foldl (Call.set start' head) req').bare := by
  induction cs generalizing req req' with
  | nil => exact h
  | cons c cs ih =>
      exact ih (fun c hc => hsame c (List.mem_cons_of_mem _ hc))
        (bare_set (hsame c (List.mem_cons_self ..)) h)

theorem eq_of_bare {req req' : HttpRequest} (hbare : req.bare = req'.bare)
    (hheaders : req.m_headers = req'.m_headers) : req = req' := by
  obtain ⟨method, version, close, path, query, fragment, body, headers⟩ := req
  obtain ⟨method', version', close', path', query', fragment', body', headers'⟩ := req'
  simp only [HttpRequest.bare, HttpRequest.mk.injEq] at hbare hheaders ⊢
  exact ⟨hbare.1, hbare.2.1, hbare.2.2.1, hbare.2.2.2.1, hbare.2.2.2.2.1, hbare.2.2.2.2.2.1,
    hbare.2.2.2.2.2.2.1, hheaders⟩

/-- A call that is not of a token leaves the token as it was. -/
theorem Call.set_keeps (c : Call) (req : HttpRequest) :
    (c.uses ≠ some .method → (c.set start head req).m_method = req.m_method) ∧
      (c.uses ≠ some .path → (c.set start head req).m_path = req.m_path) ∧
      (c.uses ≠ some .query → (c.set start head req).m_query = req.m_query) ∧
      (c.uses ≠ some .fragment → (c.set start head req).m_fragment = req.m_fragment) ∧
      (c.uses ≠ some .version → (c.set start head req).m_version = req.m_version) := by
  cases c with
  | field s f m e =>
      rw [Call.set]
      split_ifs with hempty
      · exact ⟨fun _ => rfl, fun _ => rfl, fun _ => rfl, fun _ => rfl, fun _ => rfl⟩
      · exact ⟨fun _ => rfl, fun _ => rfl, fun _ => rfl, fun _ => rfl, fun _ => rfl⟩
  | _ => simp [Call.set, Call.uses]

variable {storage : HttpParser} {bytes : Bytes}

/-- What the head gives for a token is what its call sets. -/
theorem headRequest_token {δ : Type} {proj : HttpRequest → δ} {r : Right} {c : Call} {v : δ}
    (hnamed : r ≠ .named) (hqueried : r ≠ .queried) (hmem : c ∈ calls storage bytes)
    (hc : c.uses = some r)
    (hother : ∀ (c : Call) req, c.uses ≠ some r → proj (c.set start bytes req) = proj req)
    (hset : ∀ req, proj (c.set start bytes req) = v) :
    proj (headRequest start storage bytes) = v :=
  foldl_once (k := fun c => c.uses = some r)
    (fun req c hk => hother c req (of_decide_eq_false hk)) hset (decide_eq_true hc)
    (calls_once storage bytes hnamed hqueried) hmem _

theorem headRequest_method {m e : Nat} (hmem : .method m e ∈ calls storage bytes) :
    (headRequest start storage bytes).m_method =
      CharsToHttpMethod (bytes.drop (max m (start e))) :=
  headRequest_token (by decide) (by decide) hmem rfl (fun c req => (c.set_keeps req).1)
    fun _ => rfl

theorem headRequest_path {m e : Nat} (hmem : .path m e ∈ calls storage bytes) :
    (headRequest start storage bytes).m_path = between bytes (max m (start e)) e :=
  headRequest_token (by decide) (by decide) hmem rfl (fun c req => (c.set_keeps req).2.1)
    fun _ => rfl

theorem headRequest_query {q e : Nat} (hmem : .query q e ∈ calls storage bytes) :
    (headRequest start storage bytes).m_query = between bytes (start e + (q - start q)) e :=
  headRequest_token (by decide) (by decide) hmem rfl (fun c req => (c.set_keeps req).2.2.1)
    fun _ => rfl

theorem headRequest_fragment {m e : Nat} (hmem : .fragment m e ∈ calls storage bytes) :
    (headRequest start storage bytes).m_fragment = between bytes (max m (start e)) e :=
  headRequest_token (by decide) (by decide) hmem rfl (fun c req => (c.set_keeps req).2.2.2.1)
    fun _ => rfl

theorem headRequest_version {m e : Nat} {v : UInt16} (hmem : .version m e ∈ calls storage bytes)
    (hv : versionOf (bytes.drop (max m (start e))) (e - max m (start e)) = some v) :
    (headRequest start storage bytes).m_version = v :=
  headRequest_token (by decide) (by decide) hmem rfl (fun c req => (c.set_keeps req).2.2.2.2)
    fun req => by
      show (versionOf _ _).getD req.m_version = v
      rw [hv, Option.getD_some]

/-! ### The head -/

theorem whole_max (m e : Nat) : max m (whole e) = m := Nat.max_eq_left (Nat.zero_le m)

theorem length_between {p e : Nat} (h : e ≤ bytes.length) : (between bytes p e).length = e - p := by
  rw [between, List.length_take, List.length_drop]
  omega

/-- A token cut by a read is too short. -/
theorem start_le_of_between {m e : Nat} (he : e ≤ bytes.length) (hm : m ≤ e)
    (hstart : start e ≤ e) (h : between bytes (max m (start e)) e = between bytes m e) :
    start e ≤ m := by
  have hlen := congrArg List.length h
  rw [length_between he, length_between he] at hlen
  omega

/-- **The head in different reads**: every callback succeeds and the request is as in one read
exactly if what the reads leave of the tokens says the same. -/
theorem sameHead_iff (hle : ∀ p, start p ≤ p)
    (hsame : ∀ p p', start p' ≤ p → p ≤ p' → start p = start p')
    (hok : HeadOk whole storage bytes) :
    SameHead start storage bytes ↔
      HeadOk start storage bytes ∧
        headRequest start storage bytes = headRequest whole storage bytes := by
  have hwithin := calls_within storage bytes
  have hlength := headLength_le storage bytes
  constructor
  · intro h
    -- the query is cut by counts, so both ends have to lie in the same read
    have hquery : ∀ q e, .query q e ∈ calls storage bytes → start q = start e := fun q e hmem =>
      hsame q e (h.query q e hmem) (hwithin _ hmem).1
    constructor
    · intro c hmem
      have hc := hok c hmem
      cases c with
      | method m e =>
          rw [Call.Ok, whole_max] at hc
          rw [Call.Ok, h.method m e hmem]
          exact hc
      | version m e =>
          rw [Call.Ok, whole_max] at hc
          rw [Call.Ok, h.version m e hmem]
          exact hc
      | query q e =>
          rw [Call.Ok, hquery q e hmem]
          exact Nat.sub_le_sub_right (hwithin _ hmem).1 _
      | path m e | fragment m e | field s f m e => trivial
    · refine eq_of_bare (bare_foldl (fun c hmem huses req => ?_) rfl) ?_
      · cases c with
        | method m e => rw [Call.set, Call.set, whole_max, h.method m e hmem]
        | version m e => rw [Call.set, Call.set, whole_max, h.version m e hmem]
        | path m e => rw [Call.set, Call.set, whole_max, Nat.max_eq_left (h.path m e hmem)]
        | fragment m e => rw [Call.set, Call.set, whole_max, Nat.max_eq_left (h.fragment m e hmem)]
        | query q e =>
            have hq := h.query q e hmem
            rw [Call.set, Call.set, hquery q e hmem, Nat.add_sub_cancel' hq]
            simp only [whole, Nat.zero_add, Nat.sub_zero]
        | field s f m e => exact absurd rfl huses
      · -- two maps are the same if each name has the same spelling and the same value in both
        rw [headRequest_headers, headRequest_headers,
          OrderedMap.ofList_eq_iff CaseInsensitiveLess_ranks]
        exact h.headers
  · rintro ⟨hok', heq⟩
    constructor
    case method =>
      intro m e hmem
      have h := congrArg HttpRequest.m_method heq
      rw [headRequest_method hmem, headRequest_method hmem, whole_max] at h
      exact h
    case path =>
      intro m e hmem
      obtain ⟨hm, he⟩ := hwithin _ hmem
      have h := congrArg HttpRequest.m_path heq
      rw [headRequest_path hmem, headRequest_path hmem, whole_max] at h
      exact start_le_of_between (by omega) hm (hle e) h
    case fragment =>
      intro m e hmem
      obtain ⟨hm, he⟩ := hwithin _ hmem
      have h := congrArg HttpRequest.m_fragment heq
      rw [headRequest_fragment hmem, headRequest_fragment hmem, whole_max] at h
      exact start_le_of_between (by omega) hm (hle e) h
    case query =>
      intro q e hmem
      obtain ⟨hq, he⟩ := hwithin _ hmem
      have h := congrArg HttpRequest.m_query heq
      rw [headRequest_query hmem, headRequest_query hmem] at h
      -- the lengths alone show where the query began
      have hlen := congrArg List.length h
      rw [length_between (by omega), length_between (by omega)] at hlen
      have hcounts : q - start q ≤ e - start e := hok' _ hmem
      have hstart := hle e
      have hstart' := hle q
      simp only [whole, Nat.zero_add, Nat.sub_zero] at hlen
      omega
    case version =>
      intro m e hmem
      obtain ⟨v, hv⟩ := Option.isSome_iff_exists.mp (hok' _ hmem)
      obtain ⟨v', hv'⟩ := Option.isSome_iff_exists.mp (hok _ hmem)
      have h := congrArg HttpRequest.m_version heq
      rw [headRequest_version hmem hv, headRequest_version hmem hv'] at h
      rw [whole_max] at hv'
      rw [hv, hv', h]
    case headers =>
      rw [← OrderedMap.ofList_eq_iff CaseInsensitiveLess_ranks, ← headRequest_headers,
        ← headRequest_headers, heq]

/-! ### Different reads -/

theorem headRequest_congr {start start' : Nat → Nat}
    (h : ∀ p, p < headLength storage bytes → start p = start' p) :
    headRequest start storage bytes = headRequest start' storage bytes ∧
      (HeadOk start storage bytes ↔ HeadOk start' storage bytes) := by
  have hcall : ∀ c ∈ calls storage bytes,
      (∀ req, c.set start bytes req = c.set start' bytes req) ∧
        (c.Ok start bytes ↔ c.Ok start' bytes) := by
    intro c hmem
    have hwithin := calls_within storage bytes c hmem
    cases c with
    | method m e | path m e | fragment m e | version m e =>
        simp only [Call.set, Call.Ok, h e hwithin.2, implies_true, and_self]
    | query q e =>
        simp only [Call.set, Call.Ok, h e hwithin.2,
          h q (Nat.lt_of_le_of_lt hwithin.1 hwithin.2), implies_true, and_self]
    | field s f m e =>
        simp only [Call.set, Call.Ok, h e hwithin.2.2.2, implies_true, and_self]
  constructor
  · exact List.foldl_ext _ _ _ fun req c hc => (hcall c hc).1 req
  · exact forall₂_congr fun c hc => (hcall c hc).2

/-- The body and the connection flag filled in, field by field. -/
theorem complete_eq (req : HttpRequest) (body : Bytes) :
    complete req body =
      { req with m_body := body, m_close := (keepAlive req).m_close } := by
  by_cases h :
      strcasecmp ((req.m_headers.find (ascii "Connection")).getD []) (ascii "keep-alive") = 0
  · simp only [complete, keepAlive, HttpRequest.getHeader, h, if_true]
  · simp only [complete, keepAlive, HttpRequest.getHeader, h, if_false]

theorem complete_inj {req req' : HttpRequest} {body body' : Bytes}
    (h : complete req body = complete req' body') (hbody : req.m_body = req'.m_body)
    (hclose : req.m_close = req'.m_close) : req = req' := by
  rw [complete_eq, complete_eq, HttpRequest.mk.injEq] at h
  obtain ⟨method, version, close, path, query, fragment, body, headers⟩ := req
  obtain ⟨method', version', close', path', query', fragment', body', headers'⟩ := req'
  obtain ⟨hmethod, hversion, -, hpath, hquery, hfragment, -, hheaders⟩ := h
  rw [HttpRequest.mk.injEq]
  exact ⟨hmethod, hversion, hclose, hpath, hquery, hfragment, hbody, hheaders⟩

/-- What an accepted request is made of. -/
theorem accepted {lexical_cast : Bytes → Option UInt64} {sock : Socket} (hsock : sock.Delivers)
    (hfits : HeadFits storage sock.stream) {req : HttpRequest}
    (h : (recvRequest lexical_cast storage sock).1 = .request req) :
    let H := headLength storage sock.stream
    let r := headRequest (readStart sock.arrivals) storage sock.stream
    HeadOk (readStart sock.arrivals) storage sock.stream ∧
      H + bodyLength lexical_cast r ≤ sock.stream.length ∧
      Counted (H + bodyLength lexical_cast r - headRead sock.arrivals H) ∧
      req = complete r ((sock.stream.drop H).take (bodyLength lexical_cast r)) := by
  intro H r
  by_cases hok : HeadOk (readStart sock.arrivals) storage sock.stream
  · obtain ⟨hsome, hnull⟩ := recvRequest_of_ok lexical_cast hsock hfits hok
    by_cases hcond : H + bodyLength lexical_cast r ≤ sock.stream.length ∧
        Counted (H + bodyLength lexical_cast r - headRead sock.arrivals H)
    · rw [hsome hcond] at h
      exact ⟨hok, hcond.1, hcond.2, (Received.request.inj h).symm⟩
    · rw [hnull hcond] at h
      cases h
  · exact absurd h (recvRequest_of_not_ok lexical_cast hsock hfits hok req)

/-- What a request accepted in one read is made of. -/
theorem accepted_whole {lexical_cast : Bytes → Option UInt64} (hfits : HeadFits storage bytes)
    {req : HttpRequest}
    (h : (recvRequest lexical_cast storage ⟨true, [bytes]⟩).1 = .request req) :
    let H := headLength storage bytes
    let r := headRequest whole storage bytes
    HeadOk whole storage bytes ∧ H + bodyLength lexical_cast r ≤ bytes.length ∧
      req = complete r ((bytes.drop H).take (bodyLength lexical_cast r)) := by
  have hne : bytes ≠ [] := by
    rintro rfl
    cases hfits.halted
  have hstream : (⟨true, [bytes]⟩ : Socket).stream = bytes := by
    rw [Socket.stream, List.flatten_cons, List.flatten_nil, List.append_nil]
  have hone : ∀ p, p < headLength storage bytes → readStart [bytes] p = whole p := fun p hp => by
    rw [readStart, if_pos (Nat.lt_of_lt_of_le hp (headLength_le storage bytes)), whole]
  have hacc := accepted
    (show (⟨true, [bytes]⟩ : Socket).Delivers from
      ⟨rfl, fun c hc => List.mem_singleton.mp hc ▸ hne⟩) (hstream.symm ▸ hfits) h
  simp only [hstream, (headRequest_congr hone).1, (headRequest_congr hone).2] at hacc
  exact ⟨hacc.1, hacc.2.1, hacc.2.2.2⟩

/-- **The same bytes in other reads** give the same request exactly if the reads do no
harm. -/
theorem recvRequest_chunking (lexical_cast : Bytes → Option UInt64) (storage : HttpParser)
    (bytes : Bytes) (chunks : List Bytes) (req : HttpRequest) (hfits : HeadFits storage bytes)
    (haccepted : (recvRequest lexical_cast storage ⟨true, [bytes]⟩).1 = .request req)
    (hsplit : chunks.flatten = bytes) (hchunks : ∀ c ∈ chunks, c ≠ []) :
    (recvRequest lexical_cast storage ⟨true, chunks⟩).1 = .request req ↔
      Harmless lexical_cast storage bytes chunks := by
  obtain ⟨hok, hlength, hreq⟩ := accepted_whole hfits haccepted
  have hstream' : (⟨true, chunks⟩ : Socket).stream = bytes := hsplit
  have hsock' : (⟨true, chunks⟩ : Socket).Delivers := ⟨rfl, hchunks⟩
  have hsame := sameHead_iff (readStart_le chunks)
    (fun p p' => readStart_same chunks) hok
  constructor
  · intro h
    have hacc := accepted hsock' (hstream'.symm ▸ hfits) h
    simp only [hstream'] at hacc
    obtain ⟨hok', -, hcounted, hreq'⟩ := hacc
    have hhead :
        headRequest (readStart chunks) storage bytes = headRequest whole storage bytes := by
      refine complete_inj (hreq'.symm.trans hreq) ?_ ?_
      · exact (foldl_set_keeps _ _).1.trans (foldl_set_keeps _ _).1.symm
      · exact (foldl_set_keeps _ _).2.trans (foldl_set_keeps _ _).2.symm
    rw [hhead] at hcounted
    exact ⟨hsame.mpr ⟨hok', hhead⟩, hcounted⟩
  · intro h
    obtain ⟨hok', hhead⟩ := hsame.mp h.toSameHead
    have hrecv := (recvRequest_of_ok lexical_cast hsock' (hstream'.symm ▸ hfits)
      (hstream'.symm ▸ hok')).1
    simp only [hstream', hhead] at hrecv
    rw [hrecv ⟨hlength, h.body⟩, hreq]

/-- The memory of a parser when it happens to be zero. -/
def HttpParser.zero : HttpParser := ⟨0, 0, 0, 0, 0, 0, false, false, false⟩

/-- A read that begins at the blank line does no harm. -/
theorem recvRequest_chunking_at_blank_line :
    Harmless (fun _ => none) .zero (ascii "GET /a HTTP/1.1\r\nHost: h\r\n\r\n")
      [ascii "GET /a HTTP/1.1\r\nHost: h\r\n", ascii "\r\n"] :=
  (recvRequest_chunking (fun _ => none) .zero (ascii "GET /a HTTP/1.1\r\nHost: h\r\n\r\n")
    [ascii "GET /a HTTP/1.1\r\nHost: h\r\n", ascii "\r\n"]
    { HttpRequest.new with m_path := ascii "/a", m_headers := [(ascii "Host", ascii "h")] }
    (by decide +kernel) (by decide +kernel) (by decide +kernel) (by decide +kernel)).mp
      (by decide +kernel)

/-- A read that begins inside the path: what came before is lost. -/
theorem path_cut :
    ∃ (bytes : Bytes) (chunks : List Bytes) (req req' : HttpRequest),
      HeadFits .zero bytes ∧ chunks.flatten = bytes ∧ (∀ c ∈ chunks, c ≠ []) ∧
      (recvRequest (fun _ => none) .zero ⟨true, [bytes]⟩).1 = .request req ∧
      (recvRequest (fun _ => none) .zero ⟨true, chunks⟩).1 = .request req' ∧
      req.m_path = ascii "/ab" ∧ req'.m_path = ascii "b" := by
  refine ⟨ascii "GET /ab HTTP/1.1\r\n\r\n", [ascii "GET /a", ascii "b HTTP/1.1\r\n\r\n"],
    { HttpRequest.new with m_path := ascii "/ab" },
    { HttpRequest.new with m_path := ascii "b" }, ?_⟩
  decide +kernel

end Http

end Will
