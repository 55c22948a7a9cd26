/-
ZjhServer/HttpClient/Replies.lean

A client at the other end of `HttpServer::handleClient` (server/http/http_server.cc), which
reads the bytes that the server sends with `HttpResponseParser`.

There is no client in the repository that uses that parser, so this one is a relation
(`Replies`): the parser reads the front of what has come, and `getContentLength` bytes behind
it are the body.  It gets the answers to the requests that the server has received, in their
order, and is told with each whether the server goes on (`client_replies`).
-/
import ZjhServer.Http.Server
import ZjhServer.HttpClient.RoundTrip

namespace Will

namespace Http

namespace Client

/-- The responses that a client reads off bytes, each with what the parser says of the
connection. -/
inductive Replies (lexical_cast : Bytes → Option UInt64) (storage : HttpClientParser) :
    Bytes → List (HttpResponse × Bool) → Prop
  | nil : Replies lexical_cast storage [] []
  | cons {bytes : Bytes} {s : HttpResponseParser} {nread : Nat} {body rest : Bytes}
      {replies : List (HttpResponse × Bool)}
      (hcall : (HttpResponseParser.new storage).execute bytes 0 true = .returned s nread)
      (hdone : s.isFinished = 1 ∧ s.hasError = false)
      (hbody : bytes.drop nread = body ++ rest)
      (hlength : (s.getContentLength lexical_cast).toNat = body.length)
      (hrest : Replies lexical_cast storage rest replies) :
      Replies lexical_cast storage bytes
        (({ s.m_data with m_body := body }, s.parser.close) :: replies)

/-- What there is to get of a response. -/
def replyOf (rsp : HttpResponse) : HttpResponse × Bool :=
  ({ rsp.echo with m_body := rsp.m_body }, rsp.m_close)

theorem replies_dumps {lexical_cast : Bytes → Option UInt64}
    (hcast : ∀ n, n < 2 ^ 64 → lexical_cast (decimal n) = some (UInt64.ofNat n))
    (storage : HttpClientParser) {rsps : List HttpResponse}
    (hsend : ∀ rsp ∈ rsps, SendableResponse rsp)
    (hlen : (rsps.flatMap HttpResponse.dump).length < 2 ^ 31) :
    Replies lexical_cast storage (rsps.flatMap HttpResponse.dump) (rsps.map replyOf) := by
  induction rsps with
  | nil => exact .nil
  | cons rsp rsps ih =>
      rw [List.flatMap_cons] at hlen ⊢
      have hrsp := hsend rsp (List.mem_cons_self ..)
      obtain ⟨s, nread, hcall, hdrop, hview, hfinal⟩ := execute_sent hrsp storage _ hlen true
      obtain ⟨hdone, herror, hlength⟩ :=
        sent_done hcast hrsp (body_length_lt hrsp hlen) hview hfinal
      have hrest := ih (fun r hr => hsend r (List.mem_cons_of_mem _ hr)) (by
        rw [List.length_append] at hlen
        omega)
      have hdata : s.m_data = rsp.echo := congrArg (·.data.m_data) hview
      have hclose : s.parser.close = rsp.m_close := congrArg View.close hview
      rw [List.map_cons, replyOf, ← hdata, ← hclose]
      exact .cons hcall ⟨hdone, herror⟩ hdrop hlength hrest

/-- What a server goes on with behind a request that it has received. -/
theorem handleLoop_behind {lexical_cast : Bytes → Option UInt64} {storage : HttpParser}
    {m_isKeepLive : Bool} {turns : Nat} {sock sock' : Socket} {req : HttpRequest}
    {before after : List (HttpRequest × Socket)} (hturns : sock.stream.length < turns)
    (h : handleLoop lexical_cast storage m_isKeepLive turns sock =
      before ++ (req, sock') :: after) :
    after = if !m_isKeepLive || req.m_close then []
      else handleClient lexical_cast storage m_isKeepLive sock' := by
  induction turns generalizing sock before with
  | zero => exact absurd hturns (Nat.not_lt_zero _)
  | succ turns ih =>
      rw [handleLoop] at h
      rcases hrecv : recvRequest lexical_cast storage sock with ⟨received, sock₁⟩
      rw [hrecv] at h
      cases received with
      | null | length_error | aborted => simp at h
      | request req₁ =>
          obtain ⟨hlt, -⟩ := recvRequest_stream hrecv
          simp only at h
          rcases before with _ | ⟨x, before⟩
          · split_ifs at h ⊢ with hclose hclose' hclose'
            · exact (List.cons.inj h).2.symm
            · obtain ⟨hhead, -⟩ := List.cons.inj h
              exact absurd ((Prod.mk.inj hhead).1 ▸ hclose) hclose'
            · obtain ⟨hhead, -⟩ := List.cons.inj h
              exact absurd ((Prod.mk.inj hhead).1 ▸ hclose') hclose
            · obtain ⟨hhead, hrest⟩ := List.cons.inj h
              obtain ⟨-, rfl⟩ := Prod.mk.inj hhead
              rw [← hrest]
              exact handleLoop_turns lexical_cast storage m_isKeepLive (by omega)
                (Nat.lt_succ_self _)
          · split_ifs at h with hclose
            · simp at h
            · exact ih (by omega) (List.cons.inj h).2

/-- **A client reads the answers of the server**, whole and in order, off the bytes that it sends;
and if the servlets leave the connection flag as they find it, what the client is told with
each is whether the server goes on behind it. -/
theorem client_replies {lexical_cast : Bytes → Option UInt64}
    (hcast : ∀ n, n < 2 ^ 64 → lexical_cast (decimal n) = some (UInt64.ofNat n))
    (fnmatch : Bytes → Bytes → Bool) (storage : HttpParser) (storage' : HttpClientParser)
    (m_isKeepLive : Bool) (m_name : Bytes) (d : ServletDispatch (Option Reply))
    (arrivals : List Bytes) {sends : List Int} (hsends : ∀ r ∈ sends, 0 < r) :
    let received := handleClient lexical_cast storage m_isKeepLive ⟨true, arrivals⟩
    let answer := HttpServer.answer fnmatch m_isKeepLive m_name d
    let sent := ((HttpServer.replying m_isKeepLive m_name d).handleClient fnmatch lexical_cast
      storage ⟨⟨true, arrivals⟩, sends, []⟩).session.sent
    ((∀ x ∈ received, SendableResponse (answer x.1)) → sent.length < 2 ^ 31 →
      Replies lexical_cast storage' sent (received.map fun x => replyOf (answer x.1))) ∧
    ∀ before x after, received = before ++ x :: after →
      (answer x.1).m_close = (x.1.m_close || !m_isKeepLive) →
      after = if (replyOf (answer x.1)).2 then []
        else handleClient lexical_cast storage m_isKeepLive x.2 := by
  intro received answer sent
  obtain ⟨pieces, hsent, -, hwhole⟩ :=
    @HttpServer.loop_sends fnmatch lexical_cast storage m_isKeepLive m_name d
      ((⟨true, arrivals⟩ : Socket).stream.length + 1) ⟨⟨true, arrivals⟩, sends, []⟩ rfl
  have hdumps : sent = (received.map fun x => answer x.1).flatMap HttpResponse.dump := by
    have hsent' : sent = pieces.flatten := hsent
    rw [hsent', hwhole hsends, List.flatMap_map]
    rfl
  refine ⟨fun hsend hlen => ?_, fun before x after hsplit hflag => ?_⟩
  · rw [hdumps] at hlen ⊢
    have hsendable : ∀ rsp ∈ received.map fun x => answer x.1, SendableResponse rsp := by
      intro rsp hrsp
      obtain ⟨x, hx, rfl⟩ := List.mem_map.mp hrsp
      exact hsend x hx
    have hreplies := replies_dumps hcast storage' hsendable hlen
    rwa [List.map_map] at hreplies
  · rw [handleLoop_behind (Nat.lt_succ_self _) hsplit]
    show _ = if (answer x.1).m_close then _ else _
    rw [hflag, Bool.or_comm]

/-- A request that asks to keep the connection alive. -/
def ask : Bytes := ascii "GET / HTTP/1.1\r\nConnection: keep-alive\r\n\r\n"

def askRequest : HttpRequest :=
  { HttpRequest.new with
    m_close := false
    m_headers := [(ascii "Connection", ascii "keep-alive")] }

/-- A dispatch that knows no uri. -/
def nowhere : ServletDispatch (Option Reply) := .new (some fun _ => NotFoundServlet.answer)

/-- Its answer. -/
def missing : HttpResponse :=
  HttpServer.answer (fun _ _ => false) true (ascii "will/1.0.0") nowhere askRequest

theorem missing_sendable : SendableResponse missing := by
  have hheaders : missing.m_headers =
      [(ascii "Content-Type", ascii "text/html"), (ascii "Server", ascii "will/1.0.0")] := by
    decide
  have hsent : ∀ i ∈ missing.m_headers, Sent i := by
    intro i hi
    rw [hheaders] at hi
    simp only [List.mem_cons, List.not_mem_nil, or_false] at hi
    rcases hi with rfl | rfl
    · exact ⟨by decide +kernel, by decide +kernel, by decide +kernel, by decide +kernel⟩
    · exact ⟨by decide +kernel, by decide +kernel, by decide +kernel, by decide +kernel⟩
  refine ⟨by decide +kernel, by decide +kernel, ?_, hsent, by decide +kernel⟩
  rw [hheaders]
  refine List.pairwise_pair.mpr ?_
  decide

theorem ask_received : (handleClient castDecimal .zero true ⟨true, [ask, ask]⟩).map Prod.fst =
    [askRequest, askRequest] := by
  decide +kernel

/-- Two requests that the server knows no servlet for, answered in sends of ten bytes. -/
theorem client_replies_twice :
    Replies castDecimal .zero
      ((HttpServer.replying true (ascii "will/1.0.0") nowhere).handleClient (fun _ _ => false)
        castDecimal .zero ⟨⟨true, [ask, ask]⟩, List.replicate 80 10, []⟩).session.sent
      [replyOf missing, replyOf missing] := by
  obtain ⟨hreplies, -⟩ := client_replies castDecimal_decimal (fun _ _ => false) .zero .zero true
    (ascii "will/1.0.0") nowhere [ask, ask]
    (show ∀ r ∈ List.replicate 80 (10 : Int), 0 < r by decide)
  have hanswers : (handleClient castDecimal .zero true ⟨true, [ask, ask]⟩).map (fun x =>
      HttpServer.answer (fun _ _ => false) true (ascii "will/1.0.0") nowhere x.1) =
      [missing, missing] := by
    have h := congrArg (List.map fun req =>
      HttpServer.answer (fun _ _ => false) true (ascii "will/1.0.0") nowhere req) ask_received
    rwa [List.map_map] at h
  have hread := hreplies (fun x hx => ?_) ?_
  · have h := congrArg (List.map replyOf) hanswers
    rw [List.map_map] at h
    rw [← show _ = [replyOf missing, replyOf missing] from h]
    exact hread
  · have hmem : HttpServer.answer (fun _ _ => false) true (ascii "will/1.0.0") nowhere x.1 ∈
        [missing, missing] := hanswers ▸ List.mem_map_of_mem hx
    simp only [List.mem_cons, List.not_mem_nil, or_false, or_self] at hmem
    rw [hmem]
    exact missing_sendable
  · decide +kernel

end Client

end Http

end Will
