/-
ZjhServer/Http/Hooked.lean

`HttpServer::handleClient` (server/http/http_server.cc) over a connection that `do_io` hides.

`client` is the loop of `handleClient` as a program of its stream; over a session it does what
Http/Server.lean says (`client_over`).  So what is known of sessions holds of the kernel's
connection, whatever the kernel refuses and interrupts (`client_hooked`).
-/
import ZjhServer.Hook.Connection

namespace Will

namespace Http

open Hook.Io (Prog)

/-! ### The programs -/

/-- The loop of `readFixSize`: what it returns, and the bytes it has written. -/
def readFixProg (length : Nat) : Nat → Nat → Bytes → Prog (Int × Bytes)
  | 0, _, bytes => .ret (toInt length, bytes)
  | turns + 1, left, bytes =>
      if left = 0 then .ret (toInt length, bytes)
      else
        .read left fun data =>
          if data = [] then .ret (0, bytes)
          else readFixProg length turns (left - data.length) (bytes ++ data)

/-- The loop of `writeFixSize` -/
def writeFixProg (length : Nat) : Nat → Bytes → Prog Int
  | 0, _ => .ret (toInt length)
  | turns + 1, data =>
      if data = [] then .ret (toInt length)
      else
        .write data fun n =>
          if n ≤ 0 then .ret n else writeFixProg length turns (data.drop n.toNat)

/-- How the loop over the head ends. -/
inductive HeadEnd
  | finished (parser : HttpRequestParser) (data : Bytes)
  | failed (received : Received)

def Head.ending : Head → HeadEnd
  | .finished parser data _ => .finished parser data
  | .failed received _ => .failed received

open HttpRequestParser in
def recvHeadProg : Nat → HttpRequestParser → Bytes → Prog HeadEnd
  | 0, _, _ => .ret (.failed .null)
  | turns + 1, parser, data =>
      .read (GetHttpRequestBufferSize - data.length) fun read =>
        if read = [] then .ret (.failed .null)
        else
          match parser.execute (data ++ read) with
          | .length_error => .ret (.failed .length_error)
          | .aborted => .ret (.failed .aborted)
          | .returned parser nparser =>
              let data := (data ++ read).drop nparser
              if parser.hasError then .ret (.failed .null)
              else if data.length = GetHttpRequestBufferSize then .ret (.failed .null)
              else if parser.isFinished ≠ 0 then .ret (.finished parser data)
              else recvHeadProg turns parser data

section

variable (lexical_cast : Bytes → Option UInt64)

def recvBodyProg (parser : HttpRequestParser) (data : Bytes) : Prog Received :=
  let length := (parser.getContentLength lexical_cast).toInt64.toInt
  if length > 0 then
    let copied := data.take length.toNat
    let left := length - data.length
    if left > 0 then
      (readFixProg left.toNat left.toNat left.toNat []).bind fun r =>
        if r.1 ≤ 0 then .ret .null
        else .ret (.request (keepAlive { parser.m_data with m_body := copied ++ r.2 }))
    else .ret (.request (keepAlive { parser.m_data with m_body := copied }))
  else .ret (.request (keepAlive parser.m_data))

variable (storage : HttpParser)

/-- `recvRequest`, with `reads` reads at most for its head -/
def recvRequestProg (reads : Nat) : Prog Received :=
  (recvHeadProg reads (.new storage) []).bind fun
    | .finished parser data => recvBodyProg lexical_cast parser data
    | .failed received => .ret received

variable (fnmatch : Bytes → Bytes → Bool) (m_isKeepLive : Bool) (m_name : Bytes)
  (d : ServletDispatch (Option Reply)) (reads : Nat)

/-- The loop of `handleClient`; whether it has closed the session. -/
def clientLoop : Nat → Prog Bool
  | 0 => .ret true
  | turns + 1 =>
      (recvRequestProg lexical_cast storage reads).bind fun
        | .request req =>
            let text := (HttpServer.answer fnmatch m_isKeepLive m_name d req).dump
            (writeFixProg text.length text.length text).bind fun _ =>
              if !m_isKeepLive || req.m_close then .ret true else clientLoop turns
        | .null => .ret true
        | .length_error | .aborted => .ret false

/-- `handleClient` of a server whose servlets reply. -/
def client : Prog Bool := clientLoop lexical_cast storage fnmatch m_isKeepLive m_name d reads reads

end

/-! ### Over a session -/

theorem readFixProg_over (length : Nat) (turns left : Nat) (bytes : Bytes) (s : Session) :
    (readFixProg length turns left bytes).onSession s =
      (((readFixLoop length turns left bytes s.sock).result,
        (readFixLoop length turns left bytes s.sock).bytes),
        { s with sock := (readFixLoop length turns left bytes s.sock).sock }) := by
  induction turns generalizing left bytes s with
  | zero => rfl
  | succ turns ih =>
      rw [readFixProg, readFixLoop]
      by_cases hleft : left = 0
      · rw [if_pos hleft, if_pos hleft]
        rfl
      · rw [if_neg hleft, if_neg hleft, Prog.onSession]
        by_cases hempty : (s.sock.read left).1 = []
        · simp only [if_pos hempty]
          rfl
        · simp only [if_neg hempty]
          exact ih _ _ _

theorem writeFixProg_over (length : Nat) (turns : Nat) (data : Bytes) (s : Session) :
    (writeFixProg length turns data).onSession s = Session.writeFixLoop length turns data s := by
  induction turns generalizing data s with
  | zero => rfl
  | succ turns ih =>
      rw [writeFixProg, Session.writeFixLoop]
      by_cases hempty : data = []
      · rw [if_pos hempty, if_pos hempty]
        rfl
      · rw [if_neg hempty, if_neg hempty, Prog.onSession]
        by_cases hfail : (s.write data).1 ≤ 0
        · simp only [if_pos hfail]
          rfl
        · simp only [if_neg hfail]
          exact ih _ _

/-- The socket after a head, before it is closed. -/
theorem recvHeadProg_over (turns : Nat) (parser : HttpRequestParser) (data : Bytes)
    (s : Session) : ∃ sock,
      (recvHeadProg turns parser data).onSession s =
        ((recvHead turns parser data s.sock).ending, { s with sock := sock }) ∧
      ∀ parser' data' sock', recvHead turns parser data s.sock = .finished parser' data' sock' →
        sock = sock' := by
  induction turns generalizing parser data s with
  | zero => exact ⟨s.sock, rfl, fun _ _ _ h => by cases h⟩
  | succ turns ih =>
      rw [recvHeadProg, recvHead, Prog.onSession]
      simp only
      by_cases hempty :
          (s.sock.read (HttpRequestParser.GetHttpRequestBufferSize - data.length)).1 = []
      · simp only [if_pos hempty]
        exact ⟨_, rfl, fun _ _ _ h => by cases h⟩
      · simp only [if_neg hempty]
        cases parser.execute (data ++
            (s.sock.read (HttpRequestParser.GetHttpRequestBufferSize - data.length)).1) with
        | length_error => exact ⟨_, rfl, fun _ _ _ h => by cases h⟩
        | aborted => exact ⟨_, rfl, fun _ _ _ h => by cases h⟩
        | returned parser nparser =>
            simp only
            split_ifs
            · exact ⟨_, rfl, fun _ _ _ h => by cases h⟩
            · exact ⟨_, rfl, fun _ _ _ h => by cases h⟩
            · refine ⟨_, rfl, fun _ _ _ h => ?_⟩
              cases h
              rfl
            · exact ih _ _ _

/-- More turns than there are bytes to come are enough. -/
theorem recvHead_turns {turns turns' : Nat} {parser : HttpRequestParser} {data : Bytes}
    {sock : Socket} (hturns : sock.stream.length < turns) (hturns' : sock.stream.length < turns') :
    recvHead turns parser data sock = recvHead turns' parser data sock := by
  induction turns generalizing turns' parser data sock with
  | zero => exact absurd hturns (Nat.not_lt_zero _)
  | succ turns ih =>
      obtain ⟨turns', rfl⟩ : ∃ t, turns' = t + 1 := ⟨turns' - 1, by omega⟩
      have hlen := congrArg List.length
        (sock.read_stream (HttpRequestParser.GetHttpRequestBufferSize - data.length)).1
      rw [List.length_append] at hlen
      rw [recvHead, recvHead]
      simp only
      split_ifs with hempty
      · rfl
      · have hpos := List.length_pos_of_ne_nil hempty
        split
        · rfl
        · rfl
        · split_ifs
          · rfl
          · rfl
          · rfl
          · exact ih (by omega) (by omega)

section

variable (lexical_cast : Bytes → Option UInt64) (storage : HttpParser)

theorem recvBodyProg_over (parser : HttpRequestParser) (data : Bytes) (s : Session) : ∃ sock,
    (recvBodyProg lexical_cast parser data).onSession s =
      ((recvBody lexical_cast parser data s.sock).1, { s with sock := sock }) ∧
    ∀ req sock', recvBody lexical_cast parser data s.sock = (.request req, sock') →
      sock = sock' := by
  unfold recvBodyProg recvBody
  simp only
  by_cases hlength : (parser.getContentLength lexical_cast).toInt64.toInt > 0
  · simp only [if_pos hlength]
    by_cases hleft : (parser.getContentLength lexical_cast).toInt64.toInt - data.length > 0
    · simp only [if_pos hleft]
      rw [Prog.over_bind, readFixProg_over]
      have hfix (n : Nat) : readFixLoop n n n [] s.sock = s.sock.readFixSize n := rfl
      simp only [hfix]
      generalize s.sock.readFixSize _ = r
      by_cases hfailed : r.result ≤ 0
      · simp only [if_pos hfailed]
        exact ⟨_, rfl, fun _ _ h => by cases h⟩
      · simp only [if_neg hfailed]
        exact ⟨_, rfl, fun _ _ h => (Prod.mk.inj h).2⟩
    · simp only [if_neg hleft]
      exact ⟨_, rfl, fun _ _ h => (Prod.mk.inj h).2⟩
  · simp only [if_neg hlength]
    exact ⟨_, rfl, fun _ _ h => (Prod.mk.inj h).2⟩

theorem recvRequestProg_over {reads : Nat} {s : Session}
    (hreads : s.sock.stream.length < reads) : ∃ sock,
    (recvRequestProg lexical_cast storage reads).onSession s =
      ((recvRequest lexical_cast storage s.sock).1, { s with sock := sock }) ∧
    ∀ req sock', recvRequest lexical_cast storage s.sock = (.request req, sock') →
      sock = sock' := by
  obtain ⟨sock, hover, hsame⟩ := recvHeadProg_over reads (.new storage) [] s
  have hturns := @recvHead_turns reads (s.sock.stream.length + 1) (.new storage) [] s.sock hreads
    (Nat.lt_succ_self _)
  rw [recvRequestProg, Prog.over_bind, hover, recvRequest, ← hturns]
  cases hhead : recvHead reads (.new storage) [] s.sock with
  | failed received sock' =>
      refine ⟨sock, rfl, fun req sock'' h => ?_⟩
      obtain ⟨rfl, -⟩ := Prod.mk.inj h
      exact absurd hhead recvHead_no_request
  | finished parser data sock' =>
      obtain rfl := hsame parser data sock' hhead
      exact recvBodyProg_over lexical_cast parser data { s with sock := sock }

variable (fnmatch : Bytes → Bytes → Bool) (m_isKeepLive : Bool) (m_name : Bytes)
  (d : ServletDispatch (Option Reply))

theorem clientLoop_over {reads turns : Nat} {s : Session} (hconn : s.sock.connected = true)
    (hreads : s.sock.stream.length < reads) :
    let handled := (HttpServer.replying m_isKeepLive m_name d).loop fnmatch lexical_cast storage
      turns s
    ((clientLoop lexical_cast storage fnmatch m_isKeepLive m_name d reads turns).onSession s).1 =
        handled.isClosed ∧
      ((clientLoop lexical_cast storage fnmatch m_isKeepLive m_name d reads turns).onSession
        s).2.sent =
        handled.session.sent := by
  induction turns generalizing s with
  | zero => exact ⟨rfl, rfl⟩
  | succ turns ih =>
      obtain ⟨sock, hover, hsame⟩ := recvRequestProg_over lexical_cast storage hreads
      rw [clientLoop, Prog.over_bind, hover, HttpServer.loop]
      rcases hrecv : recvRequest lexical_cast storage s.sock with ⟨received, sock'⟩
      cases received with
      | null | length_error | aborted => exact ⟨rfl, rfl⟩
      | request req =>
          obtain rfl := hsame req sock' hrecv
          obtain ⟨hlt, hsock⟩ := recvRequest_stream hrecv
          simp only [HttpServer.handle_replying]
          rw [Prog.over_bind, writeFixProg_over]
          have hkeep : (HttpServer.replying m_isKeepLive m_name d).m_isKeepLive = m_isKeepLive :=
            rfl
          have hconn' : ({ s with sock := sock } : Session).sock.connected = true :=
            hsock.trans hconn
          obtain ⟨-, -, -, hsock', -⟩ := Session.sendResponse_sends
            (HttpServer.answer fnmatch m_isKeepLive m_name d req) hconn'
          rw [hkeep]
          by_cases hclose : (!m_isKeepLive || req.m_close) = true
          · simp only [if_pos hclose]
            exact ⟨rfl, rfl⟩
          · simp only [if_neg hclose]
            refine ih ?_ ?_
            · exact (congrArg Socket.connected hsock').trans hconn'
            · exact (congrArg (fun sock => sock.stream.length) hsock').trans_lt (hlt.trans hreads)

/-- More turns than there are bytes to come are enough. -/
theorem loop_turns {turns turns' : Nat} {s : Session} (hconn : s.sock.connected = true)
    (hturns : s.sock.stream.length < turns) (hturns' : s.sock.stream.length < turns') :
    (HttpServer.replying m_isKeepLive m_name d).loop fnmatch lexical_cast storage turns s =
      (HttpServer.replying m_isKeepLive m_name d).loop fnmatch lexical_cast storage turns' s := by
  induction turns generalizing turns' s with
  | zero => exact absurd hturns (Nat.not_lt_zero _)
  | succ turns ih =>
      obtain ⟨turns', rfl⟩ : ∃ t, turns' = t + 1 := ⟨turns' - 1, by omega⟩
      rw [HttpServer.loop, HttpServer.loop]
      rcases hrecv : recvRequest lexical_cast storage s.sock with ⟨received, sock⟩
      cases received with
      | null | length_error | aborted => rfl
      | request req =>
          obtain ⟨hlt, hsock⟩ := recvRequest_stream hrecv
          simp only [HttpServer.handle_replying]
          have hconn' : ({ s with sock := sock } : Session).sock.connected = true :=
            hsock.trans hconn
          obtain ⟨-, -, -, hsock', -⟩ := Session.sendResponse_sends
            (HttpServer.answer fnmatch m_isKeepLive m_name d req) hconn'
          have hstream := congrArg (fun sock => sock.stream.length) hsock'
          split_ifs
          · rfl
          · exact ih ((congrArg Socket.connected hsock').trans hconn')
              (hstream.trans_lt (by simp only; omega)) (hstream.trans_lt (by simp only; omega))

variable {lexical_cast storage fnmatch m_isKeepLive m_name d}

open Hook.Io (Conn Waiting) in
/-- **The server over the kernel**: whatever the kernel refuses, interrupts and breaks, a client's
connection is handled as a session would be that gives what has been taken off the stream, and what
has been sent is the same.  If no wait fails and the connection does not break, the whole answers to
all requests that are received go out, one after the other. -/
theorem client_hooked {t_hook_enable : Bool} {ctx : Option Hook.FdCtx} {fuel reads : Nat}
    {turns : List Hook.Io.Turn} {k k' : Conn} {closed : Bool} (hreads : k.stream.length < reads)
    (h : (client lexical_cast storage fnmatch m_isKeepLive m_name d reads).hooked t_hook_enable ctx
      fuel turns k = some (closed, k')) :
    ∃ arrivals sends, k.stream = arrivals.flatten ++ k'.stream ∧
      (let handled := (HttpServer.replying m_isKeepLive m_name d).handleClient fnmatch lexical_cast
        storage ⟨⟨true, arrivals⟩, sends, k.sent⟩
      handled.isClosed = closed ∧ handled.session.sent = k'.sent) ∧
      (Waiting t_hook_enable ctx → (∀ t ∈ turns, t.Fair) → k.Sound →
        (∀ c ∈ arrivals, c ≠ []) ∧
        k'.sent = k.sent ++ ((handleClient lexical_cast storage m_isKeepLive ⟨true, arrivals⟩).map
          fun x => (HttpServer.answer fnmatch m_isKeepLive m_name d x.1).dump).flatten) := by
  obtain ⟨arrivals, sends, hstream, hover, hfair⟩ := Hook.Io.connection_refines _ h
  have hlength : arrivals.flatten.length < reads := by
    have hlen := congrArg List.length hstream
    rw [List.length_append] at hlen
    omega
  obtain ⟨hclosed, hsent⟩ := @clientLoop_over lexical_cast storage fnmatch m_isKeepLive m_name d
    reads reads ⟨⟨true, arrivals⟩, sends, k.sent⟩ rfl hlength
  rw [← client, hover] at hclosed hsent
  refine ⟨arrivals, sends, hstream, ?_, fun hwaiting hturns hk => ?_⟩
  · have hhandled := @loop_turns lexical_cast storage fnmatch m_isKeepLive m_name d
      (arrivals.flatten.length + 1) reads ⟨⟨true, arrivals⟩, sends, k.sent⟩ rfl
      (Nat.lt_succ_self _) hlength
    simp only [HttpServer.handleClient, Socket.stream, hhandled]
    exact ⟨hclosed.symm, hsent.symm⟩
  · obtain ⟨hne, hpos⟩ := hfair hwaiting hturns hk
    obtain ⟨pieces, hpieces, -, hall⟩ := @HttpServer.loop_sends fnmatch lexical_cast storage
      m_isKeepLive m_name d reads ⟨⟨true, arrivals⟩, sends, k.sent⟩ rfl
    have hreceived := handleLoop_turns lexical_cast storage m_isKeepLive
      (show (⟨true, arrivals⟩ : Socket).stream.length < reads from hlength) (Nat.lt_succ_self _)
    refine ⟨hne, hsent.trans (hpieces.trans ?_)⟩
    rw [hall hpos, hreceived]
    rfl

end

/-! ### A client in pieces -/

section

open Hook.Io (Conn)

def zeroed : HttpParser := ⟨0, 0, 0, 0, 0, 0, false, false, false⟩

def getRoot : Bytes := ascii "GET / HTTP/1.1\r\n\r\n"

def unknown : ServletDispatch (Option Reply) := .new (some fun _ => NotFoundServlet.answer)

/-- The answer to it, where no uri is known. -/
def unknownText : Bytes :=
  (HttpServer.answer (fun _ _ => false) false (ascii "will/1.0.0") unknown HttpRequest.new).dump

/-- The read is interrupted and finds nothing yet, and again; the answer finds no room, then too
little. -/
def pieces : List Hook.Io.Turn :=
  [⟨[.signal], [⟨true, 0, [.signal], false⟩, ⟨true, 0, [.arrive 90], false⟩]⟩,
    ⟨[], [⟨true, 0, [.drain 100], false⟩]⟩, ⟨[.drain 1000], []⟩]

def opened : Conn := ⟨[], getRoot, false, none, 0, [], 0, []⟩

def answered : Conn := ⟨[], [], false, none, 1100 - unknownText.length, unknownText, 0, getRoot⟩

theorem client_hooked_pieces : ∃ arrivals : List Bytes, getRoot = arrivals.flatten ∧
    unknownText = ((handleClient (fun _ => none) zeroed false ⟨true, arrivals⟩).map fun x =>
      (HttpServer.answer (fun _ _ => false) false (ascii "will/1.0.0") unknown
        x.1).dump).flatten := by
  have hrun : (client (fun _ => none) zeroed (fun _ _ => false) false (ascii "will/1.0.0") unknown
      19).hooked true (some Hook.Io.accepted) 4 pieces opened = some (true, answered) := by
    decide +kernel
  obtain ⟨arrivals, sends, hstream, -, hfair⟩ := client_hooked (by decide) hrun
  have hturns : ∀ t ∈ pieces, t.Fair := by
    intro t ht
    simp only [pieces, List.mem_cons, List.not_mem_nil, or_false] at ht
    rcases ht with rfl | rfl | rfl
    · exact ⟨by decide, by decide, by decide, by decide⟩
    · exact ⟨by decide, by decide, by decide, by decide⟩
    · exact ⟨by decide, by decide, by decide, by decide⟩
  obtain ⟨-, hsent⟩ := hfair ⟨rfl, _, rfl, rfl, rfl, rfl⟩ hturns rfl
  exact ⟨arrivals, hstream.trans (List.append_nil _), hsent⟩

end

end Http

end Will
