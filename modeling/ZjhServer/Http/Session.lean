/-
ZjhServer/Http/Session.lean

`HttpSession::recvRequest` (server/http/http_session.cc) over a socket that delivers the
bytes of the peer in arrivals, with `SocketStream::read`, `Stream::readFixSize` and the loop of
`HttpServer::handleClient` (server/http/http_server.cc).

A read gives what is asked for or what is left of the first arrival, whichever is
less.  An empty arrival is a read that gives 0 or -1, and so is the end of the list;
nothing here tells the two apart.
-/
import ZjhServer.Http.Tokens

namespace Will

namespace Http

open Transducer

/-! ### The socket -/

structure Socket where
  connected : Bool
  arrivals : List Bytes
  deriving DecidableEq, Repr

namespace Socket

/-- What one `::recv` transfers at most. -/
def MAX_RW_COUNT : Nat := 0x7ffff000

/-- `SocketStream::read` with room for `length` bytes: the bytes read. -/
def read (sock : Socket) (length : Nat) : Bytes × Socket :=
  if sock.connected then
    match sock.arrivals with
    | [] => ([], sock)
    | c :: cs =>
        let n := min length MAX_RW_COUNT
        (c.take n, { sock with arrivals := if n < c.length then c.drop n :: cs else cs })
  else ([], sock)

def close (sock : Socket) : Socket := { sock with connected := false }

/-- What is still to come. -/
def stream (sock : Socket) : Bytes := sock.arrivals.flatten

end Socket

/-- A `size_t` returned as an `int`. -/
def toInt (length : Nat) : Int := (BitVec.ofNat 32 length).toInt

/-- What `readFixSize` returns, and the bytes it has written. -/
structure FixRead where
  result : Int
  bytes : Bytes
  sock : Socket
  deriving DecidableEq, Repr

/-- The loop of `readFixSize`, with `left` bytes to go; it takes at most `left`
turns. -/
def readFixLoop (length : Nat) : Nat → Nat → Bytes → Socket → FixRead
  | 0, _, bytes, sock => ⟨toInt length, bytes, sock⟩
  | turns + 1, left, bytes, sock =>
      if left = 0 then ⟨toInt length, bytes, sock⟩
      else
        let r := sock.read left
        if r.1 = [] then ⟨0, bytes, r.2⟩
        else readFixLoop length turns (left - r.1.length) (bytes ++ r.1) r.2

/-- `readFixSize(buffer, length)` -/
def Socket.readFixSize (sock : Socket) (length : Nat) : FixRead :=
  readFixLoop length length length [] sock

/-! ### Receiving a request -/

/-- How `recvRequest` ends: it returns a request or null, or an exception or a failed
assertion ends it. -/
inductive Received
  | request (req : HttpRequest)
  | null
  | length_error
  | aborted
  deriving DecidableEq, Repr

/-- After the loop over the head: the parser has finished, with `data` left in the
buffer; or the session has ended. -/
inductive Head
  | finished (parser : HttpRequestParser) (data : Bytes) (sock : Socket)
  | failed (received : Received) (sock : Socket)
  deriving DecidableEq, Repr

open HttpRequestParser in
/-- The loop over the head, with `data` left in the buffer; a turn that goes on has
read something. -/
def recvHead : Nat → HttpRequestParser → Bytes → Socket → Head
  | 0, _, _, sock => .failed .null sock.close
  | turns + 1, parser, data, sock =>
      let r := sock.read (GetHttpRequestBufferSize - data.length)
      if r.1 = [] then .failed .null r.2.close
      else
        match parser.execute (data ++ r.1) with
        | .length_error => .failed .length_error r.2
        | .aborted => .failed .aborted r.2
        | .returned parser nparser =>
            let data := (data ++ r.1).drop nparser
            if parser.hasError then .failed .null r.2.close
            else if data.length = GetHttpRequestBufferSize then .failed .null r.2.close
            else if parser.isFinished ≠ 0 then .finished parser data r.2
            else recvHead turns parser data r.2

/-- `setClose(false)` if the request asks to keep the connection alive. -/
def keepAlive (req : HttpRequest) : HttpRequest :=
  if strcasecmp (req.getHeader (ascii "Connection")) (ascii "keep-alive") = 0 then
    { req with m_close := false }
  else req

/-- What comes after the head, with `data` left in the buffer. -/
def recvBody (lexical_cast : Bytes → Option UInt64) (parser : HttpRequestParser) (data : Bytes)
    (sock : Socket) : Received × Socket :=
  let length := (parser.getContentLength lexical_cast).toInt64.toInt
  if length > 0 then
    let copied := data.take length.toNat
    let left := length - data.length
    if left > 0 then
      let r := sock.readFixSize left.toNat
      if r.result ≤ 0 then (.null, r.sock.close)
      else (.request (keepAlive { parser.m_data with m_body := copied ++ r.bytes }), r.sock)
    else (.request (keepAlive { parser.m_data with m_body := copied }), sock)
  else (.request (keepAlive parser.m_data), sock)

/-- `HttpSession::recvRequest`; the memory of the new parser holds `storage`. -/
def recvRequest (lexical_cast : Bytes → Option UInt64) (storage : HttpParser) (sock : Socket) :
    Received × Socket :=
  match recvHead (sock.stream.length + 1) (.new storage) [] sock with
  | .finished parser data sock => recvBody lexical_cast parser data sock
  | .failed received sock => (received, sock)

/-- The loop of `HttpServer::handleClient`: the requests it gets and the socket after
each.  A turn that goes on has read something. -/
def handleLoop (lexical_cast : Bytes → Option UInt64) (storage : HttpParser)
    (m_isKeepLive : Bool) : Nat → Socket → List (HttpRequest × Socket)
  | 0, _ => []
  | turns + 1, sock =>
      match recvRequest lexical_cast storage sock with
      | (.request req, sock) =>
          if !m_isKeepLive || req.m_close then [(req, sock)]
          else (req, sock) :: handleLoop lexical_cast storage m_isKeepLive turns sock
      | _ => []

/-- `HttpServer::handleClient`: what it receives. -/
def handleClient (lexical_cast : Bytes → Option UInt64) (storage : HttpParser)
    (m_isKeepLive : Bool) (sock : Socket) : List (HttpRequest × Socket) :=
  handleLoop lexical_cast storage m_isKeepLive (sock.stream.length + 1) sock

/-! ### Reads -/

/-- The arrivals without their first `n` bytes. -/
def skip : Nat → List Bytes → List Bytes
  | _, [] => []
  | n, c :: cs => if n < c.length then c.drop n :: cs else skip (n - c.length) cs

/-- Connected, and every arrival brings something. -/
structure Socket.Delivers (sock : Socket) : Prop where
  connected : sock.connected = true
  arrivals : ∀ c ∈ sock.arrivals, c ≠ []

theorem flatten_skip (n : Nat) (cs : List Bytes) : (skip n cs).flatten = cs.flatten.drop n := by
  induction cs generalizing n with
  | nil => rw [skip, List.flatten_nil, List.drop_nil]
  | cons c cs ih =>
      rw [skip, List.flatten_cons, List.drop_append]
      split_ifs with hlt
      · rw [List.flatten_cons, Nat.sub_eq_zero_of_le (Nat.le_of_lt hlt), List.drop_zero]
      · rw [ih, List.drop_eq_nil_of_le (Nat.le_of_not_lt hlt), List.nil_append]

theorem mem_skip {n : Nat} {cs : List Bytes} (h : ∀ c ∈ cs, c ≠ []) : ∀ c ∈ skip n cs, c ≠ [] := by
  induction cs generalizing n with
  | nil => exact fun _ hc => absurd hc List.not_mem_nil
  | cons c cs ih =>
      rw [skip]
      split_ifs with hlt
      · intro d hd
        rcases List.mem_cons.mp hd with rfl | hd
        · exact fun hnil => by
            rw [List.drop_eq_nil_iff] at hnil
            omega
        · exact h d (List.mem_cons_of_mem _ hd)
      · exact ih fun d hd => h d (List.mem_cons_of_mem _ hd)

theorem skip_skip (m n : Nat) (cs : List Bytes) : skip n (skip m cs) = skip (m + n) cs := by
  induction cs generalizing m n with
  | nil => rfl
  | cons c cs ih =>
      rw [skip, skip]
      split_ifs with hm hmn hmn
      · rw [skip, List.length_drop, if_pos (by omega), List.drop_drop]
      · rw [skip, List.length_drop, if_neg (by omega)]
        congr 1
        omega
      · omega
      · rw [ih]
        congr 1
        omega

theorem skip_zero {cs : List Bytes} (h : ∀ c ∈ cs, c ≠ []) : skip 0 cs = cs := by
  cases cs with
  | nil => rfl
  | cons c cs =>
      rw [skip, if_pos (List.length_pos_of_ne_nil (h c (List.mem_cons_self ..))), List.drop_zero]

theorem Socket.length_read_le (sock : Socket) (length : Nat) :
    (sock.read length).1.length ≤ length := by
  unfold Socket.read
  split_ifs
  · split
    · exact Nat.zero_le _
    · rw [List.length_take]
      omega
  · exact Nat.zero_le _

theorem Socket.length_le_of_read {sock sock' : Socket} {length : Nat} {data : Bytes}
    (h : sock.read length = (data, sock')) : data.length ≤ length := by
  have hle := sock.length_read_le length
  rw [h] at hle
  exact hle

namespace Socket

variable {sock : Socket}

/-- A socket that has delivered `n` bytes. -/
def after (sock : Socket) (n : Nat) : Socket := { sock with arrivals := skip n sock.arrivals }

theorem stream_after (sock : Socket) (n : Nat) : (sock.after n).stream = sock.stream.drop n :=
  flatten_skip n sock.arrivals

theorem after_after (sock : Socket) (m n : Nat) : (sock.after m).after n = sock.after (m + n) := by
  simp only [after, skip_skip]

theorem Delivers.after (h : sock.Delivers) (n : Nat) : (sock.after n).Delivers :=
  ⟨h.connected, mem_skip h.arrivals⟩

theorem Delivers.after_zero (h : sock.Delivers) : sock.after 0 = sock := by
  rw [Socket.after, skip_zero h.arrivals]

/-- A read takes what it can from the first arrival. -/
theorem Delivers.read (h : sock.Delivers) {c : Bytes} {cs : List Bytes}
    (harrivals : sock.arrivals = c :: cs) (length : Nat) :
    sock.read length =
      (sock.stream.take (min (min length MAX_RW_COUNT) c.length),
        sock.after (min (min length MAX_RW_COUNT) c.length)) := by
  obtain ⟨connected, arrivals⟩ := sock
  obtain rfl : arrivals = c :: cs := harrivals
  rw [Socket.read, if_pos h.connected, Socket.after, stream]
  simp only [List.flatten_cons, skip]
  generalize min length MAX_RW_COUNT = n
  have htake : (c ++ cs.flatten).take (min n c.length) = c.take n := by
    rw [List.take_append_of_le_length (Nat.min_le_right _ _), ← List.take_take, List.take_length]
  rw [htake]
  by_cases hlt : n < c.length
  · rw [Nat.min_eq_left (Nat.le_of_lt hlt), if_pos hlt, if_pos hlt]
  · rw [Nat.min_eq_right (Nat.le_of_not_lt hlt), if_neg (Nat.lt_irrefl _), if_neg hlt,
      Nat.sub_self, skip_zero fun d hd => h.arrivals d (List.mem_cons_of_mem _ hd)]

/-- The first read of a head. -/
theorem Delivers.head_read (h : sock.Delivers) {c : Bytes} {cs : List Bytes}
    (harrivals : sock.arrivals = c :: cs) :
    ∃ k, min HttpRequestParser.GetHttpRequestBufferSize c.length = k ∧ 0 < k ∧
      k ≤ sock.stream.length ∧
      sock.read HttpRequestParser.GetHttpRequestBufferSize =
        (sock.stream.take k, sock.after k) := by
  have hread := h.read harrivals HttpRequestParser.GetHttpRequestBufferSize
  rw [Nat.min_eq_left (show HttpRequestParser.GetHttpRequestBufferSize ≤
    Socket.MAX_RW_COUNT by decide)] at hread
  have hpos := List.length_pos_of_ne_nil (h.arrivals c (harrivals ▸ List.mem_cons_self ..))
  have hbufsize : 0 < HttpRequestParser.GetHttpRequestBufferSize := by decide
  refine ⟨_, rfl, Nat.lt_min.mpr ⟨hbufsize, hpos⟩, ?_, hread⟩
  rw [stream, harrivals, List.flatten_cons, List.length_append]
  omega

/-- Something is still to come. -/
theorem exists_arrival (hstream : sock.stream ≠ []) : ∃ c cs, sock.arrivals = c :: cs := by
  rcases harrivals : sock.arrivals with _ | ⟨c, cs⟩
  · exact absurd (by rw [stream, harrivals]; rfl) hstream
  · exact ⟨c, cs, rfl⟩

end Socket

theorem readFixLoop_delivers {length turns left : Nat} {bytes : Bytes} {sock : Socket}
    (h : sock.Delivers) (hturns : left ≤ turns) (hleft : left ≤ sock.stream.length) :
    readFixLoop length turns left bytes sock =
      ⟨toInt length, bytes ++ sock.stream.take left, sock.after left⟩ := by
  induction turns generalizing left bytes sock with
  | zero =>
      obtain rfl : left = 0 := Nat.le_zero.mp hturns
      rw [readFixLoop, List.take_zero, List.append_nil, h.after_zero]
  | succ turns ih =>
      rw [readFixLoop]
      split_ifs with hzero
      · rw [hzero, List.take_zero, List.append_nil, h.after_zero]
      · -- each read brings at least one byte
        obtain ⟨c, cs, hc⟩ := Socket.exists_arrival (show sock.stream ≠ [] from fun hnil => by
          rw [hnil] at hleft
          exact hzero (Nat.le_zero.mp hleft))
        have hpos := List.length_pos_of_ne_nil (h.arrivals c (hc ▸ List.mem_cons_self ..))
        rw [h.read hc]
        have hmax : 0 < Socket.MAX_RW_COUNT := by decide
        have hn : 0 < min (min left Socket.MAX_RW_COUNT) c.length := by omega
        have hn' : min (min left Socket.MAX_RW_COUNT) c.length ≤ left := by omega
        generalize min (min left Socket.MAX_RW_COUNT) c.length = n at hn hn'
        have htake : (sock.stream.take n).length = n := by
          rw [List.length_take]
          omega
        have hne : sock.stream.take n ≠ [] := by
          rw [← List.length_pos_iff, htake]
          exact hn
        simp only [hne, if_false]
        rw [htake, ih (h.after n) (by omega) (by
          rw [Socket.stream_after, List.length_drop]
          omega), Socket.stream_after, Socket.after_after, List.append_assoc,
          ← List.take_add, Nat.add_sub_cancel' hn']

/-- **A fixed read** of bytes that are still to come gives exactly these, however they
arrive; its result is their number as an `int`. -/
theorem Socket.Delivers.readFixSize {sock : Socket} (h : sock.Delivers) {length : Nat}
    (hlength : length ≤ sock.stream.length) :
    sock.readFixSize length = ⟨toInt length, sock.stream.take length, sock.after length⟩ :=
  readFixLoop_delivers h (Nat.le_refl _) hlength

/-! ### The loop over the head -/

/-- Where the read that gives position `p` begins. -/
def readStart : List Bytes → Nat → Nat
  | [], _ => 0
  | c :: cs, p => if p < c.length then 0 else c.length + readStart cs (p - c.length)

/-- The first read is a buffer of the head. -/
theorem Buffer.of_first {start : Nat → Nat} {head data : Bytes} {reads : List Bytes} {b : Nat}
    (hb : b ≤ head.length) (hstream : head.drop b = data ++ reads.flatten)
    (hstart : ∀ p, b ≤ p → start p = b + readStart (data :: reads) (p - b)) :
    Buffer start head data b := by
  have hlength := congrArg List.length hstream
  rw [List.length_drop, List.length_append] at hlength
  refine ⟨by rw [hstream, List.take_left], by omega, fun p hbp hp => ?_⟩
  rw [hstart p hbp, readStart, if_pos (by omega), Nat.add_zero]

/-- The reads behind the first one. -/
theorem readStart_behind {start : Nat → Nat} {data : Bytes} {reads : List Bytes} {b : Nat}
    (hstart : ∀ p, b ≤ p → start p = b + readStart (data :: reads) (p - b)) :
    ∀ p, b + data.length ≤ p →
      start p = b + data.length + readStart reads (p - (b + data.length)) := by
  intro p hp
  rw [hstart p (by omega), readStart, if_neg (by omega), Nat.sub_sub, Nat.add_assoc]

/-- How much has been read when a head of `n` bytes has been. -/
def headRead : List Bytes → Nat → Nat
  | [], _ => 0
  | c :: cs, n =>
      if n ≤ c.length then min HttpRequestParser.GetHttpRequestBufferSize c.length
      else c.length + headRead cs (n - c.length)

/-- The session has ended without a request. -/
def Head.Fails (h : Head) : Prop :=
  ∃ received sock, h = .failed received sock ∧ ∀ req, received ≠ .request req

/-- A callback clears no error. -/
theorem see_error {start : Nat → Nat} {head : Bytes} {d d' : ParserData} {c : Call}
    (h : c.see start head d = some d') (herr : d.m_error ≠ 0) : d'.m_error ≠ 0 := by
  cases c with
  | path m e | query m e | fragment m e =>
      obtain ⟨v, -, rfl⟩ := Option.map_eq_some_iff.mp h
      exact herr
  | method m e =>
      rw [Call.see, on_request_method] at h
      simp only at h
      split_ifs at h with hinvalid
      · obtain ⟨v, -, rfl⟩ := Option.map_eq_some_iff.mp h
        exact fun h => by cases h
      · cases h; exact herr
  | version m e =>
      rw [Call.see, on_request_version] at h
      split at h
      · cases h; exact herr
      · obtain ⟨v, -, rfl⟩ := Option.map_eq_some_iff.mp h
        exact fun h => by cases h
  | field s f m e =>
      rw [Call.see, on_request_http_field] at h
      split_ifs at h with hempty
      · cases h; exact herr
      · obtain ⟨key, -, hval⟩ := Option.bind_eq_some_iff.mp h
        obtain ⟨v, -, rfl⟩ := Option.map_eq_some_iff.mp hval
        exact herr

theorem events_error {start : Nat → Nat} {head : Bytes} {events : List (Nat × Action)}
    {y y' : Marks × ParserData}
    (h : events.foldlM (fun y e => seeAct start head e.1 e.2 y) y = some y')
    (herr : y.2.m_error ≠ 0) : y'.2.m_error ≠ 0 := by
  induction events generalizing y with
  | nil => cases h; exact herr
  | cons e events ih =>
      rw [List.foldlM_cons] at h
      obtain ⟨z, hz, hrest⟩ := Option.bind_eq_some_iff.mp h
      refine ih hrest ?_
      unfold seeAct at hz
      split at hz
      · cases hz; exact herr
      · obtain ⟨d, hd, rfl⟩ := Option.map_eq_some_iff.mp hz
        exact see_error hd herr

/-- One turn, with an empty buffer. -/
theorem recvHead_turn {turns : Nat} {s : HttpRequestParser} {sock sock' : Socket} {data : Bytes}
    (hread : sock.read HttpRequestParser.GetHttpRequestBufferSize = (data, sock'))
    (hdata : data ≠ []) :
    recvHead (turns + 1) s [] sock =
      match s.execute data with
      | .length_error => .failed .length_error sock'
      | .aborted => .failed .aborted sock'
      | .returned parser nparser =>
          if parser.hasError then .failed .null sock'.close
          else if (data.drop nparser).length = HttpRequestParser.GetHttpRequestBufferSize then
            .failed .null sock'.close
          else if parser.isFinished ≠ 0 then .finished parser (data.drop nparser) sock'
          else recvHead turns parser (data.drop nparser) sock' := by
  rw [recvHead, List.length_nil, Nat.sub_zero, hread, if_neg hdata]
  rfl

/-- A session whose parser has an error, in the callbacks or in the machine, is closed. -/
theorem recvHead_hasError {turns nparser : Nat} {s s' : HttpRequestParser} {sock sock' : Socket}
    {data : Bytes}
    (hread : sock.read HttpRequestParser.GetHttpRequestBufferSize = (data, sock'))
    (hdata : data ≠ []) (hexec : s.execute data = .returned s' nparser)
    (hhas : s'.hasError = true) : recvHead (turns + 1) s [] sock = .failed .null sock'.close := by
  rw [recvHead_turn hread hdata, hexec]
  simp only [hhas, if_true]

theorem hasError_of_error {s : HttpRequestParser} (herr : s.m_error ≠ 0) :
    s.hasError = true := by
  rw [HttpRequestParser.hasError, decide_eq_true herr, Bool.true_or]

theorem hasError_of_stuck {s : HttpRequestParser} (hcs : s.parser.cs = http_parser_error) :
    s.hasError = true := by
  rw [HttpRequestParser.hasError, http_parser_has_error, hcs]
  exact Bool.or_true _

theorem hasError_false {s : HttpRequestParser} (herr : s.m_error = 0)
    (hcs : s.parser.cs ≠ http_parser_error) : s.hasError = false := by
  rw [HttpRequestParser.hasError, http_parser_has_error, herr, decide_eq_false hcs]
  rfl

theorem isFinished_iff {s : HttpRequestParser} (hcs : s.parser.cs ≠ http_parser_error) :
    s.isFinished ≠ 0 ↔ http_parser_first_final ≤ s.parser.cs := by
  rw [HttpRequestParser.isFinished, http_parser_has_error, http_parser_is_finished,
    decide_eq_false hcs]
  by_cases hfinal : http_parser_first_final ≤ s.parser.cs
  · simp [hfinal]
  · simp [hfinal]

/-- A read in which the parser keeps running: it is consumed whole, and the next one begins
with an empty buffer. -/
theorem recvHead_running {start : Nat → Nat} {b cs : Nat} {uri_relaxed : Bool}
    {y : Marks × ParserData} {turns nparser : Nat} {s s' : HttpRequestParser}
    {sock sock' : Socket} {data : Bytes}
    (hread : sock.read HttpRequestParser.GetHttpRequestBufferSize = (data, sock'))
    (hdata : data ≠ []) (hexec : s.execute data = .returned s' nparser) (herr : s'.m_error = 0)
    (hready : Ready start b uri_relaxed cs s' y) (hall : data.length ≤ nparser) :
    recvHead (turns + 1) s [] sock = recvHead turns s' [] sock' := by
  have halive : s'.parser.cs ≠ http_parser_error := hready.reached ▸ hready.alive
  have hnot : ¬ s'.isFinished ≠ 0 := by
    rw [isFinished_iff halive, hready.reached]
    exact Nat.not_le.mpr hready.running
  have hdrop : data.drop nparser = [] := List.drop_eq_nil_iff.mpr hall
  rw [recvHead_turn hread hdata, hexec]
  simp only [hasError_false herr halive, hdrop, Bool.false_eq_true, if_false, hnot,
    List.length_nil]
  exact if_neg (by decide)

/-- The read in which the parser comes to the end of the head; what it does not consume is
shorter than the buffer. -/
theorem recvHead_final {turns nparser : Nat} {s s' : HttpRequestParser} {sock sock' : Socket}
    {data : Bytes}
    (hread : sock.read HttpRequestParser.GetHttpRequestBufferSize = (data, sock'))
    (hdata : data ≠ []) (hexec : s.execute data = .returned s' nparser) (herr : s'.m_error = 0)
    (halive : s'.parser.cs ≠ http_parser_error)
    (hfinal : http_parser_first_final ≤ s'.parser.cs)
    (hmore : (data.drop nparser).length ≠ HttpRequestParser.GetHttpRequestBufferSize) :
    recvHead (turns + 1) s [] sock = .finished s' (data.drop nparser) sock' := by
  rw [recvHead_turn hread hdata, hexec]
  simp only [hasError_false herr halive, Bool.false_eq_true, if_false]
  rw [if_neg hmore, if_pos ((isFinished_iff halive).mpr hfinal)]

/-- **How a turn ends** after the walk `r` over its read, by what the callbacks make of it. -/
inductive Turn (start : Nat → Nat) (uri_relaxed : Bool) (b turns : Nat) (data : Bytes)
    (sock : Socket) (r : Walk Nat Action) : Option (Marks × ParserData) → Head → Prop
  | thrown : Turn start uri_relaxed b turns data sock r none (.failed .length_error sock)
  | error (y : Marks × ParserData) (herr : y.2.m_error ≠ 0) :
      Turn start uri_relaxed b turns data sock r (some y) (.failed .null sock.close)
  | stuck (y : Marks × ParserData) (herr : y.2.m_error = 0) (hended : r.ended = .stuck) :
      Turn start uri_relaxed b turns data sock r (some y) (.failed .null sock.close)
  | finished (y : Marks × ParserData) (s : HttpRequestParser) (herr : y.2.m_error = 0)
      (hended : r.ended = .halted) (hdata : s.toParserData = y.2) :
      Turn start uri_relaxed b turns data sock r (some y)
        (.finished s (data.drop (r.pos - b)) sock)
  | next (y : Marks × ParserData) (s : HttpRequestParser) (herr : y.2.m_error = 0)
      (hended : r.ended = .ran)
      (hready : Ready start (b + data.length) uri_relaxed r.state s y) :
      Turn start uri_relaxed b turns data sock r (some y) (recvHead turns s [] sock)

/-- **A turn of the loop**: the exception, the error and the end of the head are those of the
walk over its read; otherwise the parser is ready for the next one. -/
theorem recvHead_see_turn {start : Nat → Nat} {head data : Bytes} {uri_relaxed : Bool}
    {b cs : Nat} {s : HttpRequestParser} {y : Marks × ParserData} {sock sock' : Socket}
    (turns : Nat) (hread : sock.read HttpRequestParser.GetHttpRequestBufferSize = (data, sock'))
    (hdata : data ≠ []) (hbuf : Buffer start head data b)
    (hshort : ∀ q, q < b + data.length → q - start q < 2 ^ 63)
    (h : Ready start b uri_relaxed cs s y) :
    let r := (machine uri_relaxed).walk cs b data
    Turn start uri_relaxed b turns data sock' r
      (r.events.foldlM (fun y e => seeAct start head e.1 e.2 y) y)
      (recvHead (turns + 1) s [] sock) := by
  have hsee := execute_see hbuf hshort hdata h
  have hstate := walk_state uri_relaxed h.alive h.running b data
  have hall : ((machine uri_relaxed).walk cs b data).ended = .ran → _ := Machine.walk_pos_ran
  have hsome : ((machine uri_relaxed).walk cs b data).ended = .halted → _ :=
    Machine.lt_pos_of_halted
  generalize (machine uri_relaxed).walk cs b data = r at hsee hstate hall hsome ⊢
  simp only at hsee ⊢
  rcases hsees : r.events.foldlM (fun y e => seeAct start head e.1 e.2 y) y with _ | y'
  · rw [hsees] at hsee ⊢
    rw [recvHead_turn hread hdata, hsee]
    exact .thrown
  · rw [hsees] at hsee ⊢
    obtain ⟨s', hexec, hdata', hcs, hready⟩ := hsee
    have herr_eq : s'.m_error = y'.2.m_error := by rw [hdata']
    by_cases herr : y'.2.m_error = 0
    · rcases hended : r.ended with _ | _ | _
      · have hpos := hall hended
        rw [recvHead_running hread hdata hexec (herr_eq.trans herr) (hready hended) (by omega)]
        exact .next y' s' herr hended (hready hended)
      · have hcs' := hcs.trans (if_neg (by rw [hended]; decide))
        have hlt := hsome hended
        have hmax := Socket.length_le_of_read hread
        -- the machine has consumed a byte, so the rest does not fill the buffer
        have hmore : (data.drop (r.pos - b)).length ≠
            HttpRequestParser.GetHttpRequestBufferSize := by
          have := List.length_pos_of_ne_nil hdata
          rw [List.length_drop]
          exact Nat.ne_of_lt (by omega)
        rw [recvHead_final hread hdata hexec (herr_eq.trans herr) (hcs' ▸ hstate.1)
          (hcs' ▸ hstate.2.mp hended) hmore]
        exact .finished y' s' herr hended hdata'
      · rw [recvHead_hasError hread hdata hexec (hasError_of_stuck (hcs.trans (if_pos hended)))]
        exact .stuck y' herr hended
    · rw [recvHead_hasError hread hdata hexec (hasError_of_error (herr_eq ▸ herr))]
      exact .error y' herr

/-- **The loop over the head**: it gets what the callbacks see of it, read by read, or
ends the session. -/
theorem recvHead_see {start : Nat → Nat} {head : Bytes} {uri_relaxed : Bool} {turns b cs : Nat}
    {s : HttpRequestParser} {y : Marks × ParserData} {sock : Socket} (hsock : sock.Delivers)
    (hstream : head.drop b = sock.stream)
    (hstart : ∀ p, b ≤ p → start p = b + readStart sock.arrivals (p - b))
    (h : Ready start b uri_relaxed cs s y)
    (hhalted : ((machine uri_relaxed).walk cs b sock.stream).ended = .halted)
    (hsize : ((machine uri_relaxed).walk cs b sock.stream).pos ≤
      HttpRequestParser.GetHttpRequestBufferSize)
    (hturns : sock.stream.length < turns) :
    let r := (machine uri_relaxed).walk cs b sock.stream
    let o := r.events.foldlM (fun y e => seeAct start head e.1 e.2 y) y
    let n := headRead sock.arrivals (r.pos - b)
    (∀ y', o = some y' → y'.2.m_error = 0 → ∃ s',
      recvHead turns s [] sock =
        .finished s' ((sock.stream.take n).drop (r.pos - b)) (sock.after n) ∧
      s'.toParserData = y'.2) ∧
    ((∀ y', o = some y' → y'.2.m_error ≠ 0) → (recvHead turns s [] sock).Fails) := by
  induction turns generalizing b cs s y sock with
  | zero => exact absurd hturns (Nat.not_lt_zero _)
  | succ turns ih =>
      have hne : sock.stream ≠ [] := fun hnil => by
        rw [hnil] at hhalted
        cases hhalted
      obtain ⟨c, arr, hc⟩ := Socket.exists_arrival hne
      obtain ⟨k, hk, hpos, hle, hread⟩ := hsock.head_read hc
      have hklen : (sock.stream.take k).length = k := List.length_take_of_le hle
      have hdata : sock.stream.take k ≠ [] := by
        rw [← List.length_pos_iff, hklen]
        exact hpos
      have hbuf : Buffer start head (sock.stream.take k) b := by
        refine ⟨?_, ?_, fun p hbp hp => ?_⟩
        · rw [hstream, hklen]
        · have hfits := congrArg List.length hstream
          rw [List.length_drop] at hfits
          omega
        · rw [hklen] at hp
          rw [hstart p hbp, hc, readStart, if_pos (by omega), Nat.add_zero]
      have hwpos := Machine.walk_pos_le (M := machine uri_relaxed) cs b sock.stream
      have hshort : ∀ q, q < b + (sock.stream.take k).length → q - start q < 2 ^ 63 := by
        intro q hq
        have : HttpRequestParser.GetHttpRequestBufferSize < 2 ^ 62 := by decide
        omega
      have hturn := recvHead_see_turn turns hread hdata hbuf hshort h
      simp only at hturn
      have hpos₁ := Machine.walk_pos_le (M := machine uri_relaxed) cs b (sock.stream.take k)
      rw [hklen] at hpos₁
      by_cases hran : ((machine uri_relaxed).walk cs b (sock.stream.take k)).ended = .ran
      · -- the machine is still running: the whole arrival has been read, on to the next
        have hsplit := Machine.walk_append (v := sock.stream.drop k) hran
        rw [List.take_append_drop, hklen] at hsplit
        rw [hsplit] at hhalted hsize ⊢
        generalize (machine uri_relaxed).walk cs b (sock.stream.take k) = r₁ at *
        simp only [Walk.ended_behind, Walk.pos_behind, Walk.events_behind,
          List.foldlM_append] at hhalted hsize ⊢
        have hlt := Machine.lt_pos_of_halted hhalted
        -- a read that filled the buffer would hold the end of the head
        have hkc : k = c.length := by
          have := (Machine.walk_pos_le (M := machine uri_relaxed) r₁.state (b + k)
            (sock.stream.drop k)).1
          omega
        have harr : (sock.after k).arrivals = arr := by
          rw [Socket.after, hc, hkc, skip, if_neg (Nat.lt_irrefl _), Nat.sub_self]
          exact skip_zero fun d hd => hsock.arrivals d (hc ▸ List.mem_cons_of_mem _ hd)
        generalize hr₂ : (machine uri_relaxed).walk r₁.state (b + k) (sock.stream.drop k) = r₂ at *
        have hread_eq : headRead sock.arrivals (r₂.pos - b) =
            k + headRead arr (r₂.pos - (b + k)) := by
          rw [hc, headRead, if_neg (by omega), hkc, Nat.sub_sub]
        rw [hread_eq]
        generalize r₁.events.foldlM (fun y e => seeAct start head e.1 e.2 y) y = o at hturn ⊢
        generalize recvHead (turns + 1) s [] sock = out at hturn ⊢
        cases hturn with
        | thrown => exact ⟨fun y' h => (by cases h), fun _ => ⟨_, _, rfl, fun _ h => by cases h⟩⟩
        | error y₁ herr =>
            exact ⟨fun y' hy' herr' => absurd herr' (events_error hy' herr),
              fun _ => ⟨_, _, rfl, fun _ h => by cases h⟩⟩
        | stuck _ _ hended => rw [hended] at hran; cases hran
        | finished _ _ _ hended => rw [hended] at hran; cases hran
        | next y₁ s' herr _ hready =>
            rw [hklen] at hready
            have hstart' : ∀ p, b + k ≤ p →
                start p = b + k + readStart (sock.after k).arrivals (p - (b + k)) := by
              rw [harr, hkc]
              exact readStart_behind (hc ▸ hstart)
            have hrec := ih (hsock.after k) (by rw [Socket.stream_after, ← List.drop_drop, hstream])
              hstart' hready (by rw [Socket.stream_after, hr₂]; exact hhalted)
              (by rw [Socket.stream_after, hr₂]; exact hsize)
              (by rw [Socket.stream_after, List.length_drop]; omega)
            simp only [Socket.stream_after, Socket.after_after, harr, hr₂] at hrec
            refine ⟨fun y' hy' herr' => ?_, hrec.2⟩
            obtain ⟨s'', hrecv, hdata''⟩ := hrec.1 y' hy' herr'
            refine ⟨s'', hrecv.trans ?_, hdata''⟩
            have hnil : (sock.stream.take k).drop (r₂.pos - b) = [] := by
              rw [List.drop_eq_nil_iff, hklen]
              omega
            rw [List.take_add, List.drop_append, hklen, Nat.sub_sub, hnil, List.nil_append]
      · -- the machine halts in this read
        have hsame := Machine.walk_append_of_ended (v := sock.stream.drop k) hran
        rw [List.take_append_drop] at hsame
        rw [hsame] at hhalted ⊢
        have hlt := Machine.lt_pos_of_halted hhalted
        generalize (machine uri_relaxed).walk cs b (sock.stream.take k) = r₁ at *
        have hread_eq : headRead sock.arrivals (r₁.pos - b) = k := by
          rw [hc, headRead, if_pos (by omega), hk]
        simp only [hread_eq]
        generalize r₁.events.foldlM (fun y e => seeAct start head e.1 e.2 y) y = o at hturn ⊢
        generalize recvHead (turns + 1) s [] sock = out at hturn ⊢
        cases hturn with
        | thrown => exact ⟨fun y' h => (by cases h), fun _ => ⟨_, _, rfl, fun _ h => by cases h⟩⟩
        | error y₁ herr =>
            exact ⟨fun y' hy' herr' => absurd herr' (Option.some.inj hy' ▸ herr),
              fun _ => ⟨_, _, rfl, fun _ h => by cases h⟩⟩
        | stuck _ _ hended => rw [hended] at hhalted; cases hhalted
        | finished y₁ s' herr _ hdata' =>
            exact ⟨fun y' hy' _ => ⟨s', rfl, Option.some.inj hy' ▸ hdata'⟩,
              fun hfails => absurd herr (hfails y₁ rfl)⟩
        | next _ _ _ hended => exact absurd hended hran

/-! ### The body -/

theorem Socket.Delivers.read_nil {sock : Socket} (h : sock.Delivers) (hnil : sock.stream = [])
    (length : Nat) : (sock.read length).1 = [] := by
  have harrivals : sock.arrivals = [] := by
    rcases harr : sock.arrivals with _ | ⟨c, cs⟩
    · rfl
    · rw [Socket.stream, harr, List.flatten_cons, List.append_eq_nil_iff] at hnil
      exact absurd hnil.1 (h.arrivals c (harr ▸ List.mem_cons_self ..))
  rw [Socket.read, if_pos h.connected, harrivals]

theorem readFixLoop_short {length turns left : Nat} {bytes : Bytes} {sock : Socket}
    (h : sock.Delivers) (hturns : left ≤ turns) (hleft : sock.stream.length < left) :
    (readFixLoop length turns left bytes sock).result = 0 := by
  induction turns generalizing left bytes sock with
  | zero => omega
  | succ turns ih =>
      rw [readFixLoop, if_neg (by omega)]
      by_cases hr : (sock.read left).1 = []
      · simp only [hr, if_true]
      · obtain ⟨c, cs, hc⟩ := Socket.exists_arrival (show sock.stream ≠ [] from fun hnil =>
          hr (h.read_nil hnil left))
        have hlen := List.length_pos_of_ne_nil hr
        simp only [hr, if_false]
        rw [h.read hc] at hlen ⊢
        simp only [List.length_take] at hlen ⊢
        exact ih (h.after _) (by omega) (by rw [Socket.stream_after, List.length_drop]; omega)

/-- A fixed read of more than is still to come fails. -/
theorem Socket.Delivers.readFixSize_short {sock : Socket} (h : sock.Delivers) {length : Nat}
    (hlength : sock.stream.length < length) : (sock.readFixSize length).result = 0 :=
  readFixLoop_short h (Nat.le_refl _) hlength

/-- The content length, as `recvRequest` takes it. -/
def contentLength (lexical_cast : Bytes → Option UInt64) (req : HttpRequest) : Int :=
  (req.getHeaderAs lexical_cast (ascii "content-length") 0).toInt64.toInt

/-- How long the body is. -/
def bodyLength (lexical_cast : Bytes → Option UInt64) (req : HttpRequest) : Nat :=
  (contentLength lexical_cast req).toNat

/-- The body and the connection flag filled in. -/
def complete (req : HttpRequest) (body : Bytes) : HttpRequest :=
  keepAlive { req with m_body := body }

/-- The bytes `readFixSize` has to read for the body are as many as an `int` can say. -/
def Counted (left : Nat) : Prop := left = 0 ∨ 0 < toInt left

instance (left : Nat) : Decidable (Counted left) := inferInstanceAs (Decidable (_ ∨ _))

/-- **The body**: with `n` bytes of the stream read, of which the head took `H`, the body
is what follows the head, if it comes and can be counted. -/
theorem recvBody_delivers (lexical_cast : Bytes → Option UInt64) (parser : HttpRequestParser)
    {sock : Socket} {H n : Nat} (hsock : sock.Delivers) (hH : H ≤ n) (hn : n ≤ sock.stream.length)
    (hnew : parser.m_data.m_body = []) :
    let L := bodyLength lexical_cast parser.m_data
    let received := recvBody lexical_cast parser ((sock.stream.take n).drop H) (sock.after n)
    (H + L ≤ sock.stream.length ∧ Counted (H + L - n) → received =
      (.request (complete parser.m_data ((sock.stream.drop H).take L)),
        sock.after (max n (H + L)))) ∧
    (¬ (H + L ≤ sock.stream.length ∧ Counted (H + L - n)) → received.1 = .null) := by
  intro L received
  have hdata : ((sock.stream.take n).drop H).length = n - H := by
    rw [List.length_drop, List.length_take]
    omega
  have hreceived : received = recvBody lexical_cast parser ((sock.stream.take n).drop H)
      (sock.after n) := rfl
  have hL : L = (contentLength lexical_cast parser.m_data).toNat := rfl
  unfold recvBody at hreceived
  simp only [hdata] at hreceived
  rw [show (parser.getContentLength lexical_cast).toInt64.toInt =
    contentLength lexical_cast parser.m_data from rfl] at hreceived
  by_cases hpos : contentLength lexical_cast parser.m_data > 0
  · rw [if_pos hpos] at hreceived
    by_cases hleft : contentLength lexical_cast parser.m_data - (n - H : Nat) > 0
    · -- the buffer holds only part of the body
      rw [if_pos hleft, show (contentLength lexical_cast parser.m_data - (n - H : Nat)).toNat =
        H + L - n by omega, ← hL] at hreceived
      by_cases henough : H + L ≤ sock.stream.length
      · have hfix := (hsock.after n).readFixSize
          (show H + L - n ≤ (sock.after n).stream.length by
            rw [Socket.stream_after, List.length_drop]; omega)
        rw [hfix, Socket.stream_after, Socket.after_after] at hreceived
        by_cases hcounted : 0 < toInt (H + L - n)
        · rw [if_neg (Int.not_le.mpr hcounted)] at hreceived
          refine ⟨fun _ => ?_, fun hnot => absurd ⟨henough, .inr hcounted⟩ hnot⟩
          rw [hreceived, complete, Nat.max_eq_right (by omega),
            Nat.add_sub_cancel' (show n ≤ H + L by omega)]
          congr 3
          rw [List.take_of_length_le (by rw [hdata]; omega), List.drop_take]
          have hdrop : sock.stream.drop n = (sock.stream.drop H).drop (n - H) := by
            rw [List.drop_drop, Nat.add_sub_cancel' hH]
          rw [hdrop, ← List.take_add, show n - H + (H + L - n) = L by omega]
        · rw [if_pos (Int.not_lt.mp hcounted)] at hreceived
          refine ⟨fun h => absurd h.2 ?_, fun _ => by rw [hreceived]⟩
          rintro (hzero | hcounted')
          · omega
          · exact hcounted hcounted'
      · have hfix := (hsock.after n).readFixSize_short
          (show (sock.after n).stream.length < H + L - n by
            rw [Socket.stream_after, List.length_drop]; omega)
        rw [hfix, if_pos (Int.le_refl 0)] at hreceived
        exact ⟨fun h => absurd h.1 henough, fun _ => by rw [hreceived]⟩
    · rw [if_neg hleft] at hreceived
      refine ⟨fun _ => ?_, fun hnot => absurd ⟨by omega, .inl (by omega)⟩ hnot⟩
      rw [hreceived, complete, ← hL, Nat.max_eq_left (by omega), List.drop_take, List.take_take,
        Nat.min_eq_left (by omega)]
  · rw [if_neg hpos] at hreceived
    have hzero : L = 0 := by omega
    refine ⟨fun _ => ?_, fun hnot => absurd ⟨by omega, .inl (by omega)⟩ hnot⟩
    rw [hreceived, hzero, Nat.max_eq_left (by omega), List.take_zero, complete, ← hnew]

end Http

end Will
