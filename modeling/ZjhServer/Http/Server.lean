/-
ZjhServer/Http/Server.lean

`HttpServer::handleClient` (server/http/http_server.cc) in full: it receives a request, has it
handled by a servlet (server/http/servlet.cc), sends the response and goes on, with
`HttpSession::sendResponse` (server/http/http_session.cc) and `Stream::writeFixSize`
(server/stream.cc) over a socket whose sends are given.

A servlet gets the request, the response and the session, and may change all three.  One that
leaves the request and the session alone is told by the response it makes
(`HttpServer.Answers`); what a server with such servlets sends is then told by the requests
it receives, which are those of the loop in Http/Session.lean (`handleClient_sends`).
-/
import ZjhServer.Http.Dump
import ZjhServer.Http.Servlet
import ZjhServer.Http.Session

namespace Will

namespace Http

/-! ### Sending -/

/-- A session: its socket, what the sends to come will return, and what has been sent.  A send
takes all it is given when nothing says otherwise. -/
structure Session where
  sock : Socket
  sends : List Int
  sent : Bytes
  deriving DecidableEq, Repr

namespace Session

/-- `SocketStream::write` -/
def write (s : Session) (data : Bytes) : Int × Session :=
  if s.sock.connected then
    match s.sends with
    | [] => (data.length, { s with sent := s.sent ++ data })
    | r :: sends =>
        let n := min r data.length
        (n, { s with sends := sends, sent := s.sent ++ data.take n.toNat })
  else (-1, s)

/-- The loop of `writeFixSize`, with `data` left; it takes at most as many turns as there are
bytes. -/
def writeFixLoop (length : Nat) : Nat → Bytes → Session → Int × Session
  | 0, _, s => (toInt length, s)
  | turns + 1, data, s =>
      if data = [] then (toInt length, s)
      else
        let r := s.write data
        if r.1 ≤ 0 then r else writeFixLoop length turns (data.drop r.1.toNat) r.2

/-- `writeFixSize(data.c_str(), data.size())` -/
def writeFixSize (s : Session) (data : Bytes) : Int × Session :=
  writeFixLoop data.length data.length data s

/-- `HttpSession::sendResponse` -/
def sendResponse (s : Session) (rsp : HttpResponse) : Int × Session := s.writeFixSize rsp.dump

def close (s : Session) : Session := { s with sock := s.sock.close }

end Session

/-! ### Servlets -/

/-- `Servlet::handle`; what it returns is dropped. -/
abbrev Servlet := HttpRequest → HttpResponse → Session → HttpRequest × HttpResponse × Session

namespace NotFoundServlet

def RSP_BODY : Bytes :=
  ascii "<html><head><title>404 Not Found</title></head><body><center><h1>404 Not Found</h1></center><hr><center>Hello, This is My Server!</center></body></html>"

/-- What it makes of a response. -/
def answer (response : HttpResponse) : HttpResponse :=
  { response.setHeader (ascii "Content-Type") (ascii "text/html") with
    m_status := 404, m_body := RSP_BODY }

/-- `NotFoundServlet::handle` -/
def handle : Servlet := fun request response session => (request, answer response, session)

end NotFoundServlet

/-- `ServletDispatch::handle`, over pointers to servlets. -/
def ServletDispatch.handle (fnmatch : Bytes → Bytes → Bool) (d : ServletDispatch (Option Servlet)) :
    Servlet := fun request response session =>
  match d.getMatchedServlet request.m_path fnmatch with
  | some slt => slt request response session
  | none => (request, response, session)

/-! ### The server -/

structure HttpServer where
  m_isKeepLive : Bool
  m_name : Bytes
  m_dispatch : ServletDispatch (Option Servlet)

/-- How `handleClient` ends: it has closed the session, or an exception or a failed assertion has
ended the process. -/
inductive Handled
  | closed (session : Session)
  | terminated (session : Session)
  deriving DecidableEq, Repr

def Handled.session : Handled → Session
  | closed session => session
  | terminated session => session

def Handled.isClosed : Handled → Bool
  | closed _ => true
  | terminated _ => false

namespace HttpServer

variable (fnmatch : Bytes → Bytes → Bool) (lexical_cast : Bytes → Option UInt64)
  (storage : HttpParser) (server : HttpServer)

/-- The response that a servlet is given. -/
def response (req : HttpRequest) : HttpResponse :=
  (HttpResponse.new req.m_version (req.m_close || !server.m_isKeepLive)).setHeader
    (ascii "Server") server.m_name

/-- The loop of `handleClient`. -/
def loop : Nat → Session → Handled
  | 0, session => .closed session.close
  | turns + 1, session =>
      match recvRequest lexical_cast storage session.sock with
      | (.request req, sock) =>
          let r := server.m_dispatch.handle fnmatch req (server.response req)
            { session with sock := sock }
          let session := (r.2.2.sendResponse r.2.1).2
          if !server.m_isKeepLive || r.1.m_close then .closed session.close
          else loop turns session
      | (.null, sock) => .closed { session with sock := sock.close }
      | (.length_error, sock) | (.aborted, sock) => .terminated { session with sock := sock }

/-- `HttpServer::handleClient`, with as many turns as there are bytes to come: a turn that goes on
has read something, unless its servlet has put that back. -/
def handleClient (session : Session) : Handled :=
  server.loop fnmatch lexical_cast storage (session.sock.stream.length + 1) session

end HttpServer

/-! ### What is sent -/

namespace Session

/-- A write on a connected socket sends a front of its data, as long as what it returns. -/
theorem write_sends {data : Bytes} {s : Session} (hconn : s.sock.connected = true) :
    (s.write data).2.sent = s.sent ++ data.take (s.write data).1.toNat ∧
      (s.write data).2.sock = s.sock ∧ (s.write data).2.sends <:+ s.sends ∧
      (data ≠ [] → (∀ r ∈ s.sends, 0 < r) → 0 < (s.write data).1) := by
  unfold write
  rw [if_pos hconn]
  rcases hsends : s.sends with _ | ⟨r, sends⟩
  · refine ⟨?_, rfl, ?_, fun hne _ => ?_⟩
    · show s.sent ++ data = s.sent ++ data.take data.length
      rw [List.take_length]
    · exact List.suffix_rfl
    · exact Int.natCast_pos.mpr (List.length_pos_of_ne_nil hne)
  · refine ⟨rfl, rfl, List.suffix_cons r sends, fun hne hpos => ?_⟩
    have hlen := List.length_pos_of_ne_nil hne
    have hr := hpos r (List.mem_cons_self ..)
    show 0 < min r data.length
    omega

/-- A fixed write sends a front of its data, and all of it if no send fails. -/
theorem writeFixLoop_sends {length turns : Nat} {data : Bytes} {s : Session}
    (hturns : data.length ≤ turns) (hconn : s.sock.connected = true) :
    ∃ piece, piece <+: data ∧
      (writeFixLoop length turns data s).2.sent = s.sent ++ piece ∧
      (writeFixLoop length turns data s).2.sock = s.sock ∧
      (writeFixLoop length turns data s).2.sends <:+ s.sends ∧
      ((∀ r ∈ s.sends, 0 < r) → piece = data) := by
  induction turns generalizing data s with
  | zero =>
      obtain rfl := List.length_eq_zero_iff.mp (Nat.le_zero.mp hturns)
      exact ⟨[], List.nil_prefix, (List.append_nil _).symm, rfl, List.suffix_rfl, fun _ => rfl⟩
  | succ turns ih =>
      rw [writeFixLoop]
      by_cases hempty : data = []
      · rw [if_pos hempty, hempty]
        exact ⟨[], List.nil_prefix, (List.append_nil _).symm, rfl, List.suffix_rfl, fun _ => rfl⟩
      rw [if_neg hempty]
      obtain ⟨hsent, hsock, hsends, hpos⟩ := write_sends hconn
      by_cases hfail : (s.write data).1 ≤ 0
      · -- a send that fails ends the write
        simp only [if_pos hfail]
        refine ⟨[], List.nil_prefix, ?_, hsock, hsends, fun hall => ?_⟩
        · rw [hsent, Int.toNat_of_nonpos hfail, List.take_zero]
        · exact absurd (hpos hempty hall) (Int.not_lt.mpr hfail)
      · simp only [if_neg hfail]
        have hn : 0 < (s.write data).1.toNat := by omega
        obtain ⟨piece, hpiece, hsent', hsock', hsends', hwhole⟩ :=
          @ih (data.drop (s.write data).1.toNat) (s.write data).2
            (by rw [List.length_drop]; omega) (by rw [hsock]; exact hconn)
        refine ⟨data.take (s.write data).1.toNat ++ piece, ?_, ?_, hsock'.trans hsock,
          hsends'.trans hsends, fun hall => ?_⟩
        · conv_rhs => rw [← List.take_append_drop (s.write data).1.toNat data]
          exact (List.prefix_append_right_inj _).mpr hpiece
        · rw [hsent', hsent, List.append_assoc]
        · rw [hwhole fun r hr => hall r (hsends.subset hr), List.take_append_drop]

/-- **A response sent**: a front of its text goes out, and the whole if no send fails. -/
theorem sendResponse_sends (rsp : HttpResponse) {s : Session} (hconn : s.sock.connected = true) :
    ∃ piece, piece <+: rsp.dump ∧ (s.sendResponse rsp).2.sent = s.sent ++ piece ∧
      (s.sendResponse rsp).2.sock = s.sock ∧ (s.sendResponse rsp).2.sends <:+ s.sends ∧
      ((∀ r ∈ s.sends, 0 < r) → piece = rsp.dump) :=
  writeFixLoop_sends (Nat.le_refl _) hconn

end Session

/-! ### Turns -/

/-- A read takes bytes off the front of the stream. -/
theorem Socket.read_stream (sock : Socket) (length : Nat) :
    sock.stream = (sock.read length).1 ++ (sock.read length).2.stream ∧
      (sock.read length).2.connected = sock.connected := by
  unfold Socket.read
  split_ifs with hconn
  · rcases harr : sock.arrivals with _ | ⟨c, cs⟩
    · exact ⟨rfl, rfl⟩
    · refine ⟨?_, rfl⟩
      simp only [Socket.stream, harr, List.flatten_cons]
      split_ifs with hlt
      · rw [List.flatten_cons, ← List.append_assoc, List.take_append_drop]
      · rw [List.take_of_length_le (Nat.le_of_not_lt hlt)]
  · exact ⟨rfl, rfl⟩

theorem readFixLoop_stream {length turns left : Nat} {bytes : Bytes} {sock : Socket} :
    (readFixLoop length turns left bytes sock).sock.stream.length ≤ sock.stream.length ∧
      (readFixLoop length turns left bytes sock).sock.connected = sock.connected := by
  induction turns generalizing left bytes sock with
  | zero => exact ⟨Nat.le_refl _, rfl⟩
  | succ turns ih =>
      have hread := (sock.read_stream left)
      have hlen := congrArg List.length hread.1
      rw [List.length_append] at hlen
      rw [readFixLoop]
      simp only
      split_ifs
      · exact ⟨Nat.le_refl _, rfl⟩
      · exact ⟨by simp only; omega, hread.2⟩
      · have hrest := @ih (left - (sock.read left).1.length)
          (bytes ++ (sock.read left).1) (sock.read left).2
        exact ⟨by omega, hrest.2.trans hread.2⟩

/-- A head that has been read has taken something, and left the socket connected. -/
theorem recvHead_stream {turns : Nat} {parser parser' : HttpRequestParser} {data data' : Bytes}
    {sock sock' : Socket} (h : recvHead turns parser data sock = .finished parser' data' sock') :
    sock'.stream.length < sock.stream.length ∧ sock'.connected = sock.connected := by
  induction turns generalizing parser data sock with
  | zero => cases h
  | succ turns ih =>
      have hread := sock.read_stream (HttpRequestParser.GetHttpRequestBufferSize - data.length)
      have hlen := congrArg List.length hread.1
      rw [List.length_append] at hlen
      rw [recvHead] at h
      simp only at h
      split_ifs at h with hempty
      have hpos := List.length_pos_of_ne_nil hempty
      split at h
      · cases h
      · cases h
      · split_ifs at h
        · cases h
          exact ⟨by omega, hread.2⟩
        · obtain ⟨hlt, hconn⟩ := ih h
          exact ⟨by omega, hconn.trans hread.2⟩

theorem recvHead_no_request {turns : Nat} {parser : HttpRequestParser} {data : Bytes}
    {sock sock' : Socket} {req : HttpRequest} :
    recvHead turns parser data sock ≠ .failed (.request req) sock' := by
  induction turns generalizing parser data sock with
  | zero => exact fun h => by cases h
  | succ turns ih =>
      intro h
      rw [recvHead] at h
      simp only at h
      split_ifs at h
      · cases h
      · split at h
        · cases h
        · cases h
        · split_ifs at h
          · cases h
          · cases h
          · exact ih h

/-- A request received has taken something, and left the socket connected. -/
theorem recvRequest_stream {lexical_cast : Bytes → Option UInt64} {storage : HttpParser}
    {sock sock' : Socket} {req : HttpRequest}
    (h : recvRequest lexical_cast storage sock = (.request req, sock')) :
    sock'.stream.length < sock.stream.length ∧ sock'.connected = sock.connected := by
  unfold recvRequest at h
  split at h
  · rename_i parser data sock₁ hhead
    obtain ⟨hlt, hconn⟩ := recvHead_stream hhead
    have hfix (left : Nat) := @readFixLoop_stream left left left [] sock₁
    unfold recvBody at h
    simp only at h
    split_ifs at h
    · cases h
    · -- the body is read behind what the head left
      obtain ⟨-, rfl⟩ := Prod.mk.inj h
      exact ⟨Nat.lt_of_le_of_lt (hfix _).1 hlt, (hfix _).2.trans hconn⟩
    · obtain ⟨-, rfl⟩ := Prod.mk.inj h
      exact ⟨hlt, hconn⟩
    · obtain ⟨-, rfl⟩ := Prod.mk.inj h
      exact ⟨hlt, hconn⟩
  · rename_i received sock₁ hhead
    obtain ⟨rfl, rfl⟩ := Prod.mk.inj h
    exact absurd hhead recvHead_no_request

/-- More turns than there are bytes to come are enough. -/
theorem handleLoop_turns (lexical_cast : Bytes → Option UInt64) (storage : HttpParser)
    (m_isKeepLive : Bool) {turns turns' : Nat} {sock : Socket}
    (hturns : sock.stream.length < turns) (hturns' : sock.stream.length < turns') :
    handleLoop lexical_cast storage m_isKeepLive turns sock =
      handleLoop lexical_cast storage m_isKeepLive turns' sock := by
  induction turns generalizing turns' sock with
  | zero => exact absurd hturns (Nat.not_lt_zero _)
  | succ turns ih =>
      obtain ⟨turns', rfl⟩ : ∃ t, turns' = t + 1 := ⟨turns' - 1, by omega⟩
      rw [handleLoop, handleLoop]
      rcases hrecv : recvRequest lexical_cast storage sock with ⟨received, sock'⟩
      cases received with
      | request req =>
          obtain ⟨hlt, -⟩ := recvRequest_stream hrecv
          simp only
          split_ifs
          · rfl
          · rw [@ih turns' _ (by omega) (by omega)]
      | null | length_error | aborted => rfl

/-! ### Servers that answer -/

/-- The servlets of a dispatch, each made of another. -/
def ServletDispatch.map {S T : Type} (f : S → T) (d : ServletDispatch S) : ServletDispatch T where
  m_datas uri := (d.m_datas uri).map f
  m_globs := d.m_globs.map fun it => (it.1, f it.2)
  m_default := f d.m_default

theorem ServletDispatch.getMatchedServlet_map {S T : Type} (f : S → T) (d : ServletDispatch S)
    (uri : Bytes) (fnmatch : Bytes → Bytes → Bool) :
    (d.map f).getMatchedServlet uri fnmatch = f (d.getMatchedServlet uri fnmatch) := by
  have hfind : (d.map f).m_globs.find? (fun it => matched fnmatch it.1 uri) =
      (d.m_globs.find? fun it => matched fnmatch it.1 uri).map fun it => (it.1, f it.2) := by
    rw [ServletDispatch.map, List.find?_map]
    rfl
  have hdatas : (d.map f).m_datas uri = (d.m_datas uri).map f := rfl
  unfold getMatchedServlet
  rw [hfind, hdatas]
  rcases d.m_datas uri with _ | slt
  · generalize d.m_globs.find? _ = found
    cases found <;> rfl
  · rfl

/-- What a servlet makes of the response it is given, when it leaves the request and the session
alone. -/
abbrev Reply := HttpRequest → HttpResponse → HttpResponse

def Reply.servlet (f : Reply) : Servlet := fun request response session =>
  (request, f request response, session)

/-- The servlet that a dispatch is made with is one of them. -/
theorem notFound_replies : NotFoundServlet.handle = Reply.servlet fun _ => NotFoundServlet.answer :=
  rfl

namespace HttpServer

/-- A server with such servlets. -/
def replying (m_isKeepLive : Bool) (m_name : Bytes) (d : ServletDispatch (Option Reply)) :
    HttpServer := ⟨m_isKeepLive, m_name, d.map (Option.map Reply.servlet)⟩

variable (fnmatch : Bytes → Bytes → Bool) (lexical_cast : Bytes → Option UInt64)
  (storage : HttpParser) (m_isKeepLive : Bool) (m_name : Bytes) (d : ServletDispatch (Option Reply))

/-- Its answer to a request. -/
def answer (req : HttpRequest) : HttpResponse :=
  let rsp := (replying m_isKeepLive m_name d).response req
  match d.getMatchedServlet req.m_path fnmatch with
  | some f => f req rsp
  | none => rsp

theorem handle_replying (req : HttpRequest) (session : Session) :
    (replying m_isKeepLive m_name d).m_dispatch.handle fnmatch req
        ((replying m_isKeepLive m_name d).response req) session =
      (req, answer fnmatch m_isKeepLive m_name d req, session) := by
  have hmatched : (replying m_isKeepLive m_name d).m_dispatch.getMatchedServlet req.m_path fnmatch =
      (d.getMatchedServlet req.m_path fnmatch).map Reply.servlet :=
    d.getMatchedServlet_map _ req.m_path fnmatch
  unfold ServletDispatch.handle answer
  rw [hmatched]
  rcases d.getMatchedServlet req.m_path fnmatch with _ | f <;> rfl

/-- Each turn sends a front of one answer. -/
theorem loop_sends {turns : Nat} {session : Session} (hconn : session.sock.connected = true) :
    ∃ pieces, ((replying m_isKeepLive m_name d).loop fnmatch lexical_cast storage turns
        session).session.sent = session.sent ++ pieces.flatten ∧
      List.Forall₂ (fun piece x => piece <+: (answer fnmatch m_isKeepLive m_name d x.1).dump) pieces
        (handleLoop lexical_cast storage m_isKeepLive turns session.sock) ∧
      ((∀ r ∈ session.sends, 0 < r) →
        pieces = (handleLoop lexical_cast storage m_isKeepLive turns session.sock).map
          fun x => (answer fnmatch m_isKeepLive m_name d x.1).dump) := by
  induction turns generalizing session with
  | zero => exact ⟨[], (List.append_nil _).symm, .nil, fun _ => rfl⟩
  | succ turns ih =>
      rw [loop, handleLoop]
      rcases hrecv : recvRequest lexical_cast storage session.sock with ⟨received, sock⟩
      cases received with
      | null | length_error | aborted => exact ⟨[], (List.append_nil _).symm, .nil, fun _ => rfl⟩
      | request req =>
          obtain ⟨-, hsock⟩ := recvRequest_stream hrecv
          simp only [handle_replying]
          have hconn' : ({ session with sock := sock } : Session).sock.connected = true :=
            hsock.trans hconn
          obtain ⟨piece, hpiece, hsent, hsame, hsends, hwhole⟩ :=
            Session.sendResponse_sends (answer fnmatch m_isKeepLive m_name d req) hconn'
          have hkeep : (replying m_isKeepLive m_name d).m_isKeepLive = m_isKeepLive := rfl
          rw [hkeep]
          split_ifs with hclose
          · -- the last turn
            refine ⟨[piece], ?_, .cons hpiece .nil, fun hall => ?_⟩
            · rw [List.flatten_singleton]
              exact hsent
            · rw [hwhole hall]
              rfl
          · obtain ⟨pieces, hrest, hfronts, hall⟩ := ih (hsame ▸ hconn')
            rw [hsame] at hfronts hall
            refine ⟨piece :: pieces, ?_, .cons hpiece hfronts, fun hpos => ?_⟩
            · rw [hrest, hsent, List.flatten_cons, List.append_assoc]
            · rw [hwhole hpos, hall fun r hr => hpos r (hsends.subset hr)]
              rfl

/-- **What a server sends**: one after the other, a front of its answer to each request that it
receives, and the whole answers if no send fails.  What it receives does not depend on
what becomes of its answers. -/
theorem handleClient_sends (arrivals : List Bytes) (sends : List Int) :
    let received := Http.handleClient lexical_cast storage m_isKeepLive ⟨true, arrivals⟩
    let sent := ((replying m_isKeepLive m_name d).handleClient fnmatch lexical_cast storage
      ⟨⟨true, arrivals⟩, sends, []⟩).session.sent
    ∃ pieces, sent = pieces.flatten ∧
      List.Forall₂ (fun piece x => piece <+: (answer fnmatch m_isKeepLive m_name d x.1).dump) pieces
        received ∧
      ((∀ r ∈ sends, 0 < r) →
        pieces = received.map fun x => (answer fnmatch m_isKeepLive m_name d x.1).dump) := by
  obtain ⟨pieces, hsent, hfronts, hwhole⟩ :=
    @loop_sends fnmatch lexical_cast storage m_isKeepLive m_name d
      ((⟨true, arrivals⟩ : Socket).stream.length + 1) ⟨⟨true, arrivals⟩, sends, []⟩ rfl
  exact ⟨pieces, hsent, hfronts, hwhole⟩

end HttpServer

end Http

end Will
