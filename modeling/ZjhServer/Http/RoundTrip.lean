/-
ZjhServer/Http/RoundTrip.lean

What `HttpSession::recvRequest` makes of the bytes of `HttpRequest::dump`.

The text of `dump` is put together of the parts of the grammar, so the machine reads it to
its end and the callbacks make the request again, with the headers that `dump` writes
itself (`HttpRequest.echo`).  There are three ways in which this fails: `M-SEARCH` is no
method of the grammar; a name that begins with a line end, which a token of the grammar
may, ends the head; and a body may have more bytes than an `int` counts (`Returned`).
`recvRequest_dump` says that there is no other.
-/
import ZjhServer.Http.Dump
import ZjhServer.Http.Grammar

namespace Will

namespace Http

open Transducer Grammar

/-! ### Requests to send -/

/-- A request of the productions of the grammar, for a parser with this `uri_relaxed`.  Its header
map is sorted, as a `std::map` is, and without the headers of `dump`. -/
structure Sendable (uri_relaxed : Bool) (req : HttpRequest) : Prop where
  method : req.m_method ≠ .INVALID_METHOD
  version : req.m_version = 0x10 ∨ req.m_version = 0x11
  path : Path uri_relaxed req.m_path
  query : Query uri_relaxed req.m_query
  fragment : Query uri_relaxed req.m_fragment
  sorted : OrderedMap.Sorted lowered req.m_headers
  names : ∀ i ∈ req.m_headers, FieldName i.1
  values : ∀ i ∈ req.m_headers, FieldValue i.2
  foreign : ∀ i ∈ req.m_headers, strcasecmp i.1 (ascii "connection") ≠ 0 ∧
    strcasecmp i.1 (ascii "content-length") ≠ 0
  body : req.m_body.length < 2 ^ 63

def connectionValue (m_close : Bool) : Bytes := ascii (if m_close then "close" else "keep-alive")

/-- The request with the headers that `dump` writes for it. -/
def HttpRequest.echo (req : HttpRequest) : HttpRequest :=
  let req' := req.setHeader (ascii "connection") (connectionValue req.m_close)
  if req.m_body = [] then req'
  else req'.setHeader (ascii "content-length") (decimal req.m_body.length)

/-- How long the text before the body is. -/
def HttpRequest.headSize (req : HttpRequest) : Nat := req.dump.length - req.m_body.length

/-- A request that comes back: its method is one of the grammar, none of its header names
begins with a line end, and what the read of its head leaves of the body to `readFixSize`
can be counted. -/
structure Returned (req : HttpRequest) (arrivals : List Bytes) : Prop where
  method : req.m_method ≠ .MSEARCH
  names : ∀ i ∈ req.m_headers, ¬ EndsHead i.1
  body : Counted (req.dump.length - headRead arrivals req.headSize)

/-! ### The text in parts -/

/-- The header lines `dump` writes, in their order. -/
def HttpRequest.sent (req : HttpRequest) : MapType :=
  (ascii "connection", connectionValue req.m_close) ::
    (req.m_headers ++
      if req.m_body = [] then [] else [(ascii "content-length", decimal req.m_body.length)])

def fieldText (i : Bytes × Bytes) : Bytes := i.1 ++ [58, 32] ++ i.2 ++ [13, 10]

/-- The request line, with its line end. -/
def HttpRequest.requestLine (req : HttpRequest) : Bytes :=
  HttpMethodToString req.m_method ++ [32] ++
    (target req.m_path req.m_query req.m_fragment ++ [32]) ++
    (ascii "HTTP/" ++ versionText req.m_version ++ [13, 10])

theorem fieldsText_foreign {m_headers : MapType}
    (h : ∀ i ∈ m_headers, strcasecmp i.1 (ascii "connection") ≠ 0) :
    fieldsText m_headers = m_headers.flatMap fieldText := by
  induction m_headers with
  | nil => rfl
  | cons i m_headers ih =>
      rw [fieldsText, if_neg (h i (List.mem_cons_self ..)),
        ih fun j hj => h j (List.mem_cons_of_mem _ hj)]
      rfl

theorem connectionLine_text (m_close : Bool) :
    connectionLine m_close ++ crlf = fieldText (ascii "connection", connectionValue m_close) := by
  cases m_close <;> decide

theorem lengthLine_text (body : Bytes) :
    lengthLine body ++ crlf = fieldText (ascii "content-length", decimal body.length) := by
  rw [lengthLine_eq, fieldText, List.append_assoc _ [58, 32]]
  rfl

theorem firstLine_text (req : HttpRequest) : req.firstLine ++ crlf = req.requestLine := by
  have hblank : ascii " HTTP/" = [32] ++ ascii "HTTP/" := by decide
  rw [HttpRequest.firstLine, HttpRequest.requestLine, target, hblank,
    show ascii " " = [32] by decide]
  simp only [List.append_assoc]
  rfl

/-- **The text of `dump`**: the request line, the header lines, an empty line and the body. -/
theorem dump_text {req : HttpRequest}
    (h : ∀ i ∈ req.m_headers, strcasecmp i.1 (ascii "connection") ≠ 0) :
    req.dump = req.requestLine ++ req.sent.flatMap fieldText ++ [13, 10] ++ req.m_body := by
  rw [HttpRequest.dump, firstLine_text, List.append_assoc _ (connectionLine _), connectionLine_text,
    fieldsText_foreign h, HttpRequest.sent, List.flatMap_cons, List.flatMap_append, bodyText]
  by_cases hbody : req.m_body = []
  · rw [if_neg (by simpa using hbody), if_pos hbody, hbody]
    simp [crlf]
  · rw [if_pos hbody, if_neg hbody, List.flatMap_singleton, lengthLine_text]
    simp [crlf]

theorem headSize_eq {req : HttpRequest}
    (h : ∀ i ∈ req.m_headers, strcasecmp i.1 (ascii "connection") ≠ 0) :
    req.headSize = (req.requestLine ++ req.sent.flatMap fieldText ++ [13, 10]).length := by
  rw [HttpRequest.headSize, dump_text h, List.length_append, Nat.add_sub_cancel]

/-! ### What the machine makes of it -/

/-- A header line that the machine reads to its end. -/
def Readable (i : Bytes × Bytes) : Prop := FieldName i.1 ∧ ¬ EndsHead i.1 ∧ FieldValue i.2

theorem connection_readable (m_close : Bool) :
    Readable (ascii "connection", connectionValue m_close) := by
  have hends : ¬ EndsHead (ascii "connection") := by decide
  refine ⟨⟨List.cons_ne_nil _ _, forall_ascii rfl⟩, hends, ?_⟩
  cases m_close with
  | false => exact ⟨forall_ascii rfl, by decide, by decide⟩
  | true => exact ⟨forall_ascii rfl, by decide, by decide⟩

theorem decimal_fieldValue (n : Nat) : FieldValue (decimal n) := by
  have hdigit {c : UInt8} (hc : c ∈ decimal n) : 32 ≤ c ∧ c ≠ 127 ∧ c ≠ 32 := by
    obtain ⟨hge, hle⟩ := decimal_digit hc
    refine ⟨UInt8.le_iff_toNat_le.mpr (Nat.le_trans (by decide) hge), ?_, ?_⟩ <;>
    · rintro rfl
      revert hge hle
      decide
  refine ⟨fun c hc => ⟨(hdigit hc).1, (hdigit hc).2.1⟩, fun h => ?_, fun h => ?_⟩
  · exact (hdigit (List.mem_of_head? h)).2.2 rfl
  · exact (hdigit (List.mem_of_getLast? h)).2.2 rfl

theorem contentLength_readable (n : Nat) : Readable (ascii "content-length", decimal n) := by
  have hends : ¬ EndsHead (ascii "content-length") := by decide
  exact ⟨⟨List.cons_ne_nil _ _, forall_ascii rfl⟩, hends, decimal_fieldValue n⟩

/-- The request that the request line and these header lines make. -/
def HttpRequest.made (req : HttpRequest) (m_headers : MapType) : HttpRequest :=
  { HttpRequest.new with
    m_method := req.m_method
    m_version := req.m_version
    m_path := req.m_path
    m_query := req.m_query
    m_fragment := req.m_fragment
    m_headers := OrderedMap.ofList CaseInsensitiveLess m_headers }

section

variable {uri_relaxed : Bool} {head : Bytes} {req : HttpRequest}

theorem HttpMethodToString_mem {m : HttpMethod} (h : m ≠ .INVALID_METHOD) :
    ∃ x ∈ HTTP_METHOD_MAP, x.1 = m ∧ HttpMethodToString m = ascii x.2 := by
  cases m with
  | INVALID_METHOD => exact absurd rfl h
  | _ => decide +kernel

theorem versionText_mem {v : UInt16} (h : v = 0x10 ∨ v = 0x11) :
    ∃ x ∈ versions, x.1 = v ∧ ascii "HTTP/" ++ versionText v = ascii x.2 := by
  rcases h with rfl | rfl
  · exact ⟨(0x10, "HTTP/1.0"), List.mem_cons_self .., rfl, rfl⟩
  · exact ⟨(0x11, "HTTP/1.1"), List.mem_cons_of_mem _ (List.mem_cons_self ..), rfl, rfl⟩

theorem requestLine_parses (hreq : Sendable uri_relaxed req) (hmsearch : req.m_method ≠ .MSEARCH)
    (hat : At head 0 req.requestLine) :
    Parses uri_relaxed head 0 req.requestLine http_parser_start .new 13 (req.made []) := by
  obtain ⟨x, hx, hxm, hname⟩ := HttpMethodToString_mem hreq.method
  obtain ⟨v, hv, hvm, htext⟩ := versionText_mem hreq.version
  rw [HttpRequest.requestLine, hname, htext] at hat ⊢
  have h := ((method_parses uri_relaxed hx (hxm ▸ hmsearch) hat.left.left .new).append
    (target_parses hreq.path hreq.query hreq.fragment hat.left.right rfl rfl)).append
    (version_parses hv hat.right.left _)
  rw [hxm, hvm] at h
  exact h

theorem fields_parse {l : MapType} (hl : ∀ i ∈ l, Readable i) {p : Nat}
    (hat : At head p (l.flatMap fieldText)) (r : HttpRequest) :
    Parses uri_relaxed head p (l.flatMap fieldText) 13 r 13
      { r with m_headers := l.foldl (fun m i => m.set i.1 i.2) r.m_headers } := by
  induction l generalizing p r with
  | nil => exact .nil uri_relaxed head p 13 r
  | cons i l ih =>
      obtain ⟨hname, hends, hvalue⟩ := hl i (List.mem_cons_self ..)
      rw [List.flatMap_cons] at hat ⊢
      exact (field_parses hname hends hvalue hat.left.left r).append
        (ih (fun j hj => hl j (List.mem_cons_of_mem _ hj)) hat.right (r.setHeader i.1 i.2))

theorem lines_parse (hreq : Sendable uri_relaxed req) (hmsearch : req.m_method ≠ .MSEARCH)
    {l : MapType} (hl : ∀ i ∈ l, Readable i)
    (hat : At head 0 (req.requestLine ++ l.flatMap fieldText)) :
    Parses uri_relaxed head 0 (req.requestLine ++ l.flatMap fieldText) http_parser_start .new 13
      (req.made l) :=
  (requestLine_parses hreq hmsearch hat.left).append (fields_parse hl hat.right _)

end

/-! ### The headers -/

/-- Names without NUL that have a rank in common have the same lower case. -/
theorem lowered_eq {s : Bytes} (h : ∀ c ∈ s, c ≠ 0) :
    lowered s = (s.map tolower).map UInt8.toNat := by
  induction s with
  | nil => rfl
  | cons c s ih =>
      rw [lowered, if_neg (h c (List.mem_cons_self ..)),
        ih fun d hd => h d (List.mem_cons_of_mem _ hd)]
      rfl

theorem lowered_ne {s t : Bytes} (hs : FieldName s) (ht : ∀ c ∈ t, c ≠ 0)
    (h : strcasecmp s t ≠ 0) : lowered s ≠ lowered t := by
  have hplain : ∀ c ∈ s, c ≠ 0 := by
    rintro c hc rfl
    exact absurd (hs.2 0 hc) (by decide)
  rw [lowered_eq hplain, lowered_eq ht]
  intro heq
  refine h ((strcasecmp_eq_zero hplain ht).mpr ?_)
  exact List.map_injective_iff.mpr (fun a b hab => UInt8.toNat_inj.mp hab) heq

section

variable {uri_relaxed : Bool} {req : HttpRequest}

/-- The headers of `dump` have other names than those of the request. -/
theorem Sendable.ranks (hreq : Sendable uri_relaxed req) : ∀ i ∈ req.m_headers,
    lowered i.1 ≠ lowered (ascii "connection") ∧
      lowered i.1 ≠ lowered (ascii "content-length") := fun i hi =>
  ⟨lowered_ne (hreq.names i hi) (forall_ascii rfl) (hreq.foreign i hi).1,
    lowered_ne (hreq.names i hi) (forall_ascii rfl) (hreq.foreign i hi).2⟩

theorem own_ranks : lowered (ascii "connection") ≠ lowered (ascii "content-length") := by
  decide

theorem mem_sent {i : Bytes × Bytes} (h : i ∈ req.sent) :
    i = (ascii "connection", connectionValue req.m_close) ∨ i ∈ req.m_headers ∨
      i = (ascii "content-length", decimal req.m_body.length) := by
  rcases List.mem_cons.mp h with rfl | h
  · exact .inl rfl
  · rcases List.mem_append.mp h with h | h
    · exact .inr (.inl h)
    · split_ifs at h
      · exact absurd h List.not_mem_nil
      · exact .inr (.inr (List.mem_singleton.mp h))

theorem sent_readable (hreq : Sendable uri_relaxed req) {i : Bytes × Bytes} (hi : i ∈ req.sent)
    (hends : i ∈ req.m_headers → ¬ EndsHead i.1) : Readable i := by
  rcases mem_sent hi with rfl | hmem | rfl
  · exact connection_readable req.m_close
  · exact ⟨hreq.names i hmem, hends hmem, hreq.values i hmem⟩
  · exact contentLength_readable req.m_body.length

/-- Every header is sent once. -/
theorem sent_ranks (hreq : Sendable uri_relaxed req) :
    req.sent.Pairwise fun i j => lowered i.1 ≠ lowered j.1 := by
  have hlength : ∀ j ∈ (if req.m_body = [] then []
      else [(ascii "content-length", decimal req.m_body.length)]),
      j.1 = ascii "content-length" := by
    intro j hj
    split_ifs at hj
    · exact absurd hj List.not_mem_nil
    · rw [List.mem_singleton.mp hj]
  refine List.pairwise_cons.mpr ⟨fun j hj => ?_, List.pairwise_append.mpr
    ⟨hreq.sorted.imp fun h => h.ne, ?_, fun i hi j hj => ?_⟩⟩
  · rcases List.mem_append.mp hj with hj | hj
    · exact (hreq.ranks j hj).1.symm
    · rw [hlength j hj]
      exact own_ranks
  · split_ifs
    · exact List.Pairwise.nil
    · exact List.pairwise_singleton _ _
  · rw [hlength j hj]
    exact (hreq.ranks i hi).2

/-- **The header map comes back** with the headers of `dump`. -/
theorem ofList_sent (hreq : Sendable uri_relaxed req) :
    OrderedMap.ofList CaseInsensitiveLess req.sent = req.echo.m_headers := by
  have hranks := hreq.ranks
  have hsorted := hreq.sorted
  have hself := hsorted.ofList_eq CaseInsensitiveLess_ranks
  unfold HttpRequest.sent HttpRequest.echo
  by_cases hbody : req.m_body = []
  · rw [if_pos hbody, List.append_nil, OrderedMap.ofList_cons CaseInsensitiveLess_ranks
      (fun d hd => (hranks d hd).1.symm), hself]
    simp only [hbody, if_true]
    rfl
  · rw [if_neg hbody, OrderedMap.ofList_cons CaseInsensitiveLess_ranks, OrderedMap.ofList_append,
      hself, OrderedMap.set_comm CaseInsensitiveLess_ranks hsorted own_ranks]
    · simp only [hbody, if_false]
      rfl
    · intro d hd
      rcases List.mem_append.mp hd with hd | hd
      · exact (hranks d hd).1.symm
      · rw [List.mem_singleton.mp hd]
        exact own_ranks

/-- What the header map that comes back has of a rank. -/
theorem entry_echo (hreq : Sendable uri_relaxed req) (r : List Nat) :
    OrderedMap.entry lowered req.echo.m_headers r =
      if lowered (ascii "connection") = r then
        some (ascii "connection", connectionValue req.m_close)
      else if lowered (ascii "content-length") = r then
        if req.m_body = [] then none
        else some (ascii "content-length", decimal req.m_body.length)
      else OrderedMap.entry lowered req.m_headers r := by
  have hsorted := OrderedMap.set_sorted CaseInsensitiveLess_ranks hreq.sorted (ascii "connection")
    (connectionValue req.m_close)
  have hconn : OrderedMap.entry lowered (OrderedMap.set CaseInsensitiveLess (ascii "connection")
      (connectionValue req.m_close) req.m_headers) r =
        if lowered (ascii "connection") = r then
          some (ascii "connection", connectionValue req.m_close)
        else OrderedMap.entry lowered req.m_headers r := by
    rw [OrderedMap.entry_set CaseInsensitiveLess_ranks hreq.sorted]
    split_ifs with hr
    · rw [← hr, OrderedMap.entry_eq_none fun i hi => (hreq.ranks i hi).1]
      rfl
    · rfl
  -- the maps of a request that can be sent name neither of the two headers itself
  unfold HttpRequest.echo
  by_cases hbody : req.m_body = []
  · simp only [hbody, if_true]
    refine hconn.trans (ite_congr rfl (fun _ => rfl) fun _ => ?_)
    split_ifs with hr
    · rw [← hr]
      exact OrderedMap.entry_eq_none fun i hi => (hreq.ranks i hi).2
    · rfl
  · simp only [hbody, if_false]
    refine (OrderedMap.entry_set CaseInsensitiveLess_ranks hsorted (ascii "content-length")
      (decimal req.m_body.length) r).trans ?_
    rw [hconn]
    by_cases hr : lowered (ascii "content-length") = r
    · have hne : lowered (ascii "connection") ≠ r := hr ▸ own_ranks
      rw [if_pos hr, if_neg hne, if_neg hne, if_pos hr, ← hr,
        OrderedMap.entry_eq_none fun i hi => (hreq.ranks i hi).2]
      rfl
    · rw [if_neg hr, if_neg hr]

theorem find_echo (hreq : Sendable uri_relaxed req) (key : Bytes) :
    req.echo.m_headers.find key =
      (OrderedMap.entry lowered req.echo.m_headers (lowered key)).map Prod.snd := by
  rw [← ofList_sent hreq]
  exact (OrderedMap.ofList_sorted CaseInsensitiveLess_ranks req.sent).find_eq
    CaseInsensitiveLess_ranks key

/-- The connection flag comes back. -/
theorem keepAlive_made (hreq : Sendable uri_relaxed req) :
    (keepAlive (req.made req.sent)).m_close = req.m_close := by
  have hrank : lowered (ascii "connection") = lowered (ascii "Connection") := by decide
  have hvalue : (req.made req.sent).getHeader (ascii "Connection") =
      connectionValue req.m_close := by
    have hfind := find_echo hreq (ascii "Connection")
    rw [entry_echo hreq, if_pos hrank, ← ofList_sent hreq] at hfind
    exact congrArg (·.getD []) hfind
  rw [keepAlive, hvalue]
  cases hclose : req.m_close with
  | false => rfl
  | true => rfl

/-- The body comes back as long as it was. -/
theorem bodyLength_made {lexical_cast : Bytes → Option UInt64}
    (hcast : ∀ n, n < 2 ^ 64 → lexical_cast (decimal n) = some (UInt64.ofNat n))
    (hreq : Sendable uri_relaxed req) :
    bodyLength lexical_cast (req.made req.sent) = req.m_body.length := by
  have hfind := find_echo hreq (ascii "content-length")
  rw [entry_echo hreq, if_neg own_ranks, if_pos rfl, ← ofList_sent hreq] at hfind
  have hvalue : (req.made req.sent).getHeaderAs lexical_cast (ascii "content-length") 0 =
      UInt64.ofNat req.m_body.length := by
    unfold HttpRequest.getHeaderAs
    show ((MapType.find (OrderedMap.ofList CaseInsensitiveLess req.sent)
      (ascii "content-length")).bind lexical_cast).getD 0 = _
    rw [hfind]
    by_cases hbody : req.m_body = []
    · rw [if_pos hbody, hbody]
      rfl
    · have hlt := hreq.body
      rw [if_neg hbody, Option.map_some, Option.bind_some, hcast _ (by omega)]
      rfl
  have hint : (UInt64.ofNat req.m_body.length).toInt64.toInt = req.m_body.length := by
    rw [UInt64.toInt64_ofNat']
    exact Int64.toInt_ofNat_of_lt hreq.body
  rw [bodyLength, contentLength, hvalue, hint, Int.toNat_natCast]

/-- The request, its body and its connection flag. -/
theorem complete_made (hreq : Sendable uri_relaxed req) :
    complete (req.made req.sent) req.m_body = req.echo := by
  rw [complete_eq, keepAlive_made hreq]
  have hheaders := ofList_sent hreq
  have hecho : req.echo = { req with m_headers := req.echo.m_headers } := by
    unfold HttpRequest.echo
    by_cases hbody : req.m_body = []
    · simp only [if_pos hbody]
      rfl
    · simp only [if_neg hbody]
      rfl
  rw [hecho, ← hheaders]
  rfl

end

/-! ### What the session makes of it -/

section

variable {storage : HttpParser} {sock : Socket} {req : HttpRequest}

/-- A position of the first arrival. -/
theorem readStart_first {p : Nat} (h : p < (sock.arrivals.headD []).length) :
    readStart sock.arrivals p = whole p := by
  rcases harr : sock.arrivals with _ | ⟨c, cs⟩
  · rfl
  · rw [harr, List.headD_cons] at h
    rw [readStart, if_pos h, whole]

/-- The head in one read: it gives the request that its lines make. -/
theorem head_received (hreq : Sendable storage.uri_relaxed req) (hmsearch : req.m_method ≠ .MSEARCH)
    {l : MapType} (hl : ∀ i ∈ l, Readable i) {ending rest : Bytes} (hending : ending ∈ headEnds)
    (hstream : sock.stream = req.requestLine ++ l.flatMap fieldText ++ ending ++ rest)
    (hsize : (req.requestLine ++ l.flatMap fieldText ++ ending).length ≤
      HttpRequestParser.GetHttpRequestBufferSize)
    (hfirst : (req.requestLine ++ l.flatMap fieldText ++ ending).length ≤
      (sock.arrivals.headD []).length) :
    HeadFits storage sock.stream ∧
      headLength storage sock.stream =
        (req.requestLine ++ l.flatMap fieldText ++ ending).length ∧
      HeadOk (readStart sock.arrivals) storage sock.stream ∧
      headRequest (readStart sock.arrivals) storage sock.stream = req.made l := by
  have hat : At sock.stream 0 (req.requestLine ++ l.flatMap fieldText) := by
    refine ⟨?_, ?_⟩
    · rw [List.drop_zero, hstream, List.append_assoc]
      exact List.prefix_append _ _
    · rw [List.length_append] at hsize
      omega
  have hparses := lines_parse hreq hmsearch hl hat
  rw [hstream] at hparses ⊢
  obtain ⟨hfits, hlength, hok, hhead⟩ := headRequest_of_parses hending hsize hparses
  have hstart : ∀ p, p < headLength storage
      (req.requestLine ++ l.flatMap fieldText ++ ending ++ rest) →
        readStart sock.arrivals p = whole p := fun p hp =>
    readStart_first (Nat.lt_of_lt_of_le (hlength ▸ hp) hfirst)
  obtain ⟨hsame, hsameok⟩ := headRequest_congr hstart
  exact ⟨hfits, hlength, hsameok.mpr hok, hsame.trans hhead⟩

/-- A machine that is stuck in the first read ends the session. -/
theorem recvRequest_stuck (lexical_cast : Bytes → Option UInt64) (hsock : sock.Delivers)
    (hstream : [77, 45] <+: sock.stream) (hfirst : 2 ≤ (sock.arrivals.headD []).length) :
    (recvRequest lexical_cast storage sock).1 = .null := by
  obtain ⟨c, cs, harr⟩ := Socket.exists_arrival (show sock.stream ≠ [] from fun hnil => by
    rw [hnil] at hstream
    exact absurd (List.prefix_nil.mp hstream) (by decide))
  rw [harr, List.headD_cons] at hfirst
  obtain ⟨n, hn, -, -, hread⟩ := hsock.head_read harr
  have hbufsize : 2 ≤ HttpRequestParser.GetHttpRequestBufferSize ∧
      HttpRequestParser.GetHttpRequestBufferSize < 2 ^ 63 := by decide
  -- the first read has at least the first two bytes
  obtain ⟨text, htext⟩ := hstream
  have hdata : sock.stream.take n = 77 :: 45 :: text.take (n - 2) := by
    obtain ⟨m, rfl⟩ : ∃ m, n = m + 2 := ⟨n - 2, by omega⟩
    rw [← htext]
    rfl
  have hne : sock.stream.take n ≠ [] := by
    rw [hdata]
    exact List.cons_ne_nil _ _
  have hlen : (sock.stream.take n).length ≤ n ∧
      (sock.stream.take n).length ≤ sock.stream.length := by
    rw [List.length_take]
    omega
  have hbuf : Buffer whole sock.stream (sock.stream.take n) 0 := by
    refine ⟨?_, ?_, fun p _ _ => rfl⟩
    · rw [List.drop_zero]
      exact (List.prefix_iff_eq_take.mp (List.take_prefix n sock.stream)).symm
    · omega
  have hwalk : (machine storage.uri_relaxed).walk http_parser_start 0 (sock.stream.take n) =
      ⟨[(0, .mark)], 2, 1, .stuck⟩ := by
    have hm : (machine storage.uri_relaxed).next 1 77 = some ([.mark], 2) ∧
        (machine storage.uri_relaxed).next 2 45 = none := by
      cases storage.uri_relaxed <;> decide +kernel
    rw [hdata, http_parser_start, Machine.walk, hm.1]
    simp only [Machine.walk, hm.2]
    rfl
  have hexec := execute_see hbuf (fun q hq => by omega) hne (Ready.new whole storage)
  simp only [hwalk] at hexec
  obtain ⟨s, hs, -, hcs, -⟩ := hexec
  have herr : s.hasError = true := hasError_of_stuck (hcs.trans (if_pos trivial))
  rw [recvRequest, recvHead_hasError hread hne hs herr]

/-- A name that ends the head leaves its header out. -/
theorem recvRequest_cut {lexical_cast : Bytes → Option UInt64}
    (hreq : Sendable storage.uri_relaxed req) (hmsearch : req.m_method ≠ .MSEARCH)
    (hsock : sock.Delivers) (hstream : sock.stream = req.dump)
    (hbuffer : req.headSize ≤ HttpRequestParser.GetHttpRequestBufferSize)
    (harrival : req.headSize ≤ (sock.arrivals.headD []).length) {i : Bytes × Bytes}
    (hi : i ∈ req.m_headers) (hends : EndsHead i.1) :
    (recvRequest lexical_cast storage sock).1 ≠ .request req.echo := by
  -- the first such header, in the order they are sent
  obtain ⟨j, hj⟩ : ∃ j, req.sent.find? (fun i => EndsHead i.1) = some j :=
    Option.isSome_iff_exists.mp (List.find?_isSome.mpr
      ⟨i, List.mem_cons_of_mem _ (List.mem_append_left _ hi), decide_eq_true hends⟩)
  obtain ⟨hjends, l, l', hsplit, hl⟩ := List.find?_eq_some_iff_append.mp hj
  have hjends := of_decide_eq_true hjends
  have hjmem : j ∈ req.m_headers := by
    rcases mem_sent (List.mem_of_find?_eq_some hj) with rfl | hmem | rfl
    · exact absurd hjends (connection_readable req.m_close).2.1
    · exact hmem
    · exact absurd hjends (contentLength_readable req.m_body.length).2.1
  have hlread : ∀ d ∈ l, Readable d := fun d hd =>
    sent_readable hreq (hsplit ▸ List.mem_append_left _ hd) fun _ => by simpa using hl d hd
  obtain ⟨ending, hending, name, hname⟩ : ∃ ending ∈ headEnds, ending <+: j.1 := by
    rcases hjends with h | h
    · exact ⟨[10], by decide, h⟩
    · exact ⟨[13, 10], by decide, h⟩
  have hdump : req.requestLine ++ req.sent.flatMap fieldText ++ [13, 10] =
      req.requestLine ++ l.flatMap fieldText ++ ending ++
        (name ++ [58, 32] ++ j.2 ++ [13, 10] ++ l'.flatMap fieldText ++ [13, 10]) := by
    rw [hsplit, List.flatMap_append, List.flatMap_cons, fieldText, ← hname]
    simp
  have hsize := headSize_eq fun d hd => (hreq.foreign d hd).1
  rw [hdump, List.length_append] at hsize
  rw [dump_text fun d hd => (hreq.foreign d hd).1, hdump,
    List.append_assoc _ _ req.m_body] at hstream
  obtain ⟨hfits, hlength, hok, hhead⟩ := head_received hreq hmsearch hlread hending hstream
    (by omega) (by omega)
  intro hrecv
  obtain ⟨-, -, -, heq⟩ := accepted hsock hfits hrecv
  rw [hhead, complete_eq] at heq
  -- the header map that comes back does not have the header
  have hheaders : req.echo.m_headers = OrderedMap.ofList CaseInsensitiveLess l :=
    congrArg HttpRequest.m_headers heq
  have hsome : (OrderedMap.entry lowered req.m_headers (lowered j.1)).isSome :=
    OrderedMap.entry_isSome hjmem
  have hentry := entry_echo hreq (lowered j.1)
  rw [if_neg (hreq.ranks j hjmem).1.symm, if_neg (hreq.ranks j hjmem).2.symm, hheaders] at hentry
  have hnone : OrderedMap.firstKey CaseInsensitiveLess l j.1 = none := by
    have hpair := sent_ranks hreq
    rw [hsplit] at hpair
    obtain ⟨-, -, hne⟩ := List.pairwise_append.mp hpair
    rw [OrderedMap.firstKey, Option.map_eq_none_iff, List.find?_eq_none]
    intro d hd hsame
    exact hne d hd j (List.mem_cons_self ..)
      ((OrderedMap.same_iff CaseInsensitiveLess_ranks).mp hsame)
  rw [← (OrderedMap.entry_ofList CaseInsensitiveLess_ranks l j.1).1, hentry] at hnone
  rw [Option.map_eq_none_iff.mp hnone] at hsome
  cases hsome

/-- **The bytes of `dump` come back** as the request they were made of, with the headers of
`dump`, exactly if the request is one that comes back. -/
theorem recvRequest_dump (lexical_cast : Bytes → Option UInt64) (storage : HttpParser)
    (sock : Socket) (req : HttpRequest)
    (hcast : ∀ n, n < 2 ^ 64 → lexical_cast (decimal n) = some (UInt64.ofNat n))
    (hreq : Sendable storage.uri_relaxed req) (hsock : sock.Delivers)
    (hstream : sock.stream = req.dump)
    (hbuffer : req.headSize ≤ HttpRequestParser.GetHttpRequestBufferSize)
    (harrival : req.headSize ≤ (sock.arrivals.headD []).length) :
    (recvRequest lexical_cast storage sock).1 = .request req.echo ↔
      Returned req sock.arrivals := by
  have hdump := dump_text fun i hi => (hreq.foreign i hi).1
  have hsize := headSize_eq fun i hi => (hreq.foreign i hi).1
  by_cases hmsearch : req.m_method = .MSEARCH
  · -- the grammar has no method that starts with `M-`
    have hprefix : [77, 45] <+: sock.stream := by
      have hname : [77, 45] <+: HttpMethodToString .MSEARCH :=
        ⟨ascii "SEARCH", rfl⟩
      rw [hstream, hdump, HttpRequest.requestLine, hmsearch]
      simp only [List.append_assoc]
      exact hname.trans (List.prefix_append _ _)
    have htwo : 2 ≤ (sock.arrivals.headD []).length := by
      refine Nat.le_trans ?_ harrival
      rw [hsize, List.length_append]
      exact Nat.le_add_left 2 _
    rw [recvRequest_stuck lexical_cast hsock hprefix htwo]
    exact ⟨fun h => (by cases h), fun h => absurd hmsearch h.method⟩
  · by_cases hnames : ∀ i ∈ req.m_headers, ¬ EndsHead i.1
    · have hread : ∀ i ∈ req.sent, Readable i := fun i hi => sent_readable hreq hi (hnames i)
      obtain ⟨hfits, hlength, hok, hhead⟩ := head_received hreq hmsearch hread
        (show [13, 10] ∈ headEnds by decide) (hstream.trans hdump) (hsize ▸ hbuffer)
        (hsize ▸ harrival)
      obtain ⟨hsome, hnull⟩ := recvRequest_of_ok lexical_cast hsock hfits hok
      have hbody : req.headSize + req.m_body.length = sock.stream.length := by
        rw [hsize, hstream, hdump]
        exact (List.length_append ..).symm
      have hrest : (sock.stream.drop req.headSize).take req.m_body.length = req.m_body := by
        rw [hstream, hdump, hsize, List.drop_left, List.take_length]
      rw [hhead, hlength, ← hsize, bodyLength_made hcast hreq, hbody, hrest,
        complete_made hreq] at hsome
      rw [hhead, hlength, ← hsize, bodyLength_made hcast hreq, hbody] at hnull
      constructor
      · intro h
        refine ⟨hmsearch, hnames, ?_⟩
        by_contra hcounted
        rw [hnull fun hc => hcounted (hstream ▸ hc.2)] at h
        cases h
      · intro h
        rw [hsome ⟨Nat.le_refl _, hstream ▸ h.body⟩]
    · -- some header ends the head early
      simp only [not_forall, not_not] at hnames
      obtain ⟨i, hi, hends⟩ := hnames
      exact ⟨fun h => absurd h
        (recvRequest_cut hreq hmsearch hsock hstream hbuffer harrival hi hends),
        fun h => absurd hends (h.names i hi)⟩

end

/-! ### One request -/

/-- `boost::lexical_cast<uint64_t>` of decimal digits. -/
def castDecimal (s : Bytes) : Option UInt64 :=
  let n := s.foldl (fun n c => 10 * n + (c.toNat - 48)) 0
  if s ≠ [] ∧ s.all digit = true ∧ n < 2 ^ 64 then some (UInt64.ofNat n) else none

theorem castDecimal_decimal (n : Nat) (h : n < 2 ^ 64) :
    castDecimal (decimal n) = some (UInt64.ofNat n) := by
  have hvalue : (decimal n).foldl (fun n c => 10 * n + (c.toNat - 48)) 0 = n := by
    unfold decimal ascii
    rw [Nat.toList_repr, List.foldl_map]
    refine Eq.trans (List.foldl_ext _ _ _ fun m c hc => ?_) Nat.ofDigitChars_ten_toDigits
    have hdigit := Nat.isDigit_of_mem_toDigits (by decide) (by decide) hc
    unfold Char.isDigit at hdigit
    simp only [ge_iff_le, Bool.and_eq_true, decide_eq_true_eq] at hdigit
    have hle : c.toNat ≤ 57 := UInt32.le_iff_toNat_le.mp hdigit.2
    rw [UInt8.toNat_ofNat', Nat.mod_eq_of_lt (by omega)]
    rfl
  have hdigits : (decimal n).all digit = true := by
    refine List.all_eq_true.mpr fun c hc => ?_
    obtain ⟨hge, hle⟩ := decimal_digit hc
    rw [digit, Bool.and_eq_true, decide_eq_true_iff, decide_eq_true_iff]
    exact ⟨UInt8.le_iff_toNat_le.mpr hge, UInt8.le_iff_toNat_le.mpr hle⟩
  unfold castDecimal
  simp only [hvalue]
  rw [if_pos ⟨decimal_ne_nil n, hdigits, h⟩]

theorem recvRequest_dump_post :
    let req : HttpRequest :=
      { m_method := .POST, m_version := 0x10, m_close := false, m_path := ascii "/a/%20",
        m_query := ascii "x=1", m_fragment := ascii "f", m_body := ascii "hello",
        m_headers := [(ascii "Host", ascii "h")] }
    (recvRequest castDecimal .zero ⟨true, [req.dump.take 84, req.dump.drop 84]⟩).1 =
      .request req.echo := by
  intro req
  have hsegments : Segments false (47 :: [37, 50, 48] ++ []) :=
    .cons (.pct_encoded (by decide) (by decide) .nil) .nil
  have hpath : Path false req.m_path :=
    .inl (.segments (List.cons_ne_nil _ _) (.char (c := 97) (by decide) .nil) hsegments)
  have hquery : Query false req.m_query :=
    .char (c := 120) (by decide) (.char (c := 61) (by decide) (.char (c := 49) (by decide) .nil))
  have hfragment : Query false req.m_fragment := .char (c := 102) (by decide) .nil
  have hsend : Sendable HttpParser.zero.uri_relaxed req := {
    method := by decide
    version := .inl rfl
    path := hpath
    query := hquery
    fragment := hfragment
    sorted := List.pairwise_singleton _ _
    names := by decide +kernel
    values := by decide +kernel
    foreign := by decide +kernel
    body := by decide +kernel }
  refine (recvRequest_dump castDecimal .zero _ req castDecimal_decimal hsend ⟨rfl, ?_⟩ ?_ ?_
    ?_).mpr ⟨?_, ?_, ?_⟩ <;> decide +kernel

/-- `M-SEARCH` does not come back. -/
theorem recvRequest_dump_msearch :
    let req : HttpRequest := { HttpRequest.new with m_method := .MSEARCH }
    Sendable HttpParser.zero.uri_relaxed req ∧
      req.headSize ≤ HttpRequestParser.GetHttpRequestBufferSize ∧
      (recvRequest castDecimal .zero ⟨true, [req.dump]⟩).1 = .null := by
  refine ⟨?_, by decide +kernel, by decide +kernel⟩
  exact {
    method := by decide
    version := .inr rfl
    path := .inl .root
    query := .nil
    fragment := .nil
    sorted := List.Pairwise.nil
    names := by decide
    values := by decide
    foreign := by decide
    body := by decide }

end Http

end Will
