/-
ZjhServer/Http/Pipeline.lean

Requests sent back to back on one connection.

A head that comes with bytes after it is received as the head alone
(`headRequest_append`).  But the bytes that the read of the head brings beyond the end of its
request stay in the buffer of `recvRequest`, which is gone when it returns; so the
requests are all received if and only if no read of a head goes beyond its request
(`handleClient_pipelined`).
-/
import ZjhServer.Http.Chunking

namespace Will

namespace Http

open Transducer

variable {storage : HttpParser} {bytes : Bytes}

/-! ### Bytes after a head -/

theorem headWalk_append (h : (headWalk storage bytes).ended = .halted) (rest : Bytes) :
    headWalk storage (bytes ++ rest) = headWalk storage bytes :=
  Machine.walk_append_of_ended (by rw [← headWalk, h]; decide)

theorem mem_callsFrom_method {k : Marks} {events : List (Nat × Action)} {m e : Nat}
    (h : .method m e ∈ callsFrom k events) : (e, .request_method) ∈ events := by
  induction events generalizing k with
  | nil => exact absurd h List.not_mem_nil
  | cons x events ih =>
      obtain ⟨p, a⟩ := x
      rcases List.mem_append.mp h with h | h
      · cases a <;> simp [Marks.act] at h
        obtain ⟨rfl, rfl⟩ := h
        exact List.mem_cons_self ..
      · exact List.mem_cons_of_mem _ (ih h)

/-- After the method there is a blank. -/
theorem method_blank {m e : Nat} (h : .method m e ∈ calls storage bytes) :
    bytes[e]? = some 32 := by
  obtain ⟨q, c, acts, q', -, hget, hstep, hmem⟩ := Machine.walk_event (mem_callsFrom_method h)
  rw [Nat.sub_zero] at hget
  rw [hget, method_at_blank hstep hmem]

theorem between_append {p e : Nat} (he : e ≤ bytes.length) (rest : Bytes) :
    between (bytes ++ rest) p e = between bytes p e := by
  by_cases hp : p ≤ e
  · rw [between, between, List.drop_append_of_le_length (by omega),
      List.take_append_of_le_length (by rw [List.length_drop]; omega)]
  · rw [between, between, Nat.sub_eq_zero_of_le (by omega), List.take_zero, List.take_zero]

/-- A method is followed by a blank. -/
theorem CharsToHttpMethod_append {p e : Nat} (hpe : p ≤ e) (hblank : bytes[e]? = some 32)
    (rest : Bytes) :
    CharsToHttpMethod ((bytes ++ rest).drop p) = CharsToHttpMethod (bytes.drop p) := by
  have he : e < bytes.length := (List.getElem?_eq_some_iff.mp hblank).1
  have hget : (bytes.drop p)[e - p]? = some 32 := by
    rw [List.getElem?_drop, Nat.add_sub_cancel' hpe, hblank]
  have hget' : ((bytes ++ rest).drop p)[e - p]? = some 32 := by
    rw [List.getElem?_drop, Nat.add_sub_cancel' hpe, List.getElem?_append_left he, hblank]
  rw [CharsToHttpMethod_take hget, CharsToHttpMethod_take hget']
  exact congrArg CharsToHttpMethod (between_append (Nat.le_of_lt he) rest)

/-- **The head with bytes after it** is seen as the head alone. -/
theorem headRequest_append {start : Nat → Nat} (hle : ∀ p, start p ≤ p)
    (h : (headWalk storage bytes).ended = .halted) (rest : Bytes) :
    headRequest start storage (bytes ++ rest) = headRequest start storage bytes ∧
      (HeadOk start storage (bytes ++ rest) ↔ HeadOk start storage bytes) := by
  have hcalls : calls storage (bytes ++ rest) = calls storage bytes := by
    rw [calls, calls, headWalk_append h]
  have hlength := headLength_le storage bytes
  -- a token ends before its head does, so what follows is not in it
  have hcall : ∀ c ∈ calls storage bytes,
      (∀ req, c.set start (bytes ++ rest) req = c.set start bytes req) ∧
        (c.Ok start (bytes ++ rest) ↔ c.Ok start bytes) := by
    intro c hmem
    have hwithin := calls_within storage bytes c hmem
    cases c with
    | method m e =>
        have hp : max m (start e) ≤ e := Nat.max_le.mpr ⟨hwithin.1, hle e⟩
        simp only [Call.set, Call.Ok, CharsToHttpMethod_append hp (method_blank hmem),
          implies_true, and_self]
    | version m e =>
        obtain ⟨-, he⟩ := hwithin
        have hversion := versionOf_congr (between_append (p := max m (start e))
          (show e ≤ bytes.length by omega) rest)
        simp only [Call.set, Call.Ok, hversion, implies_true, and_self]
    | path m e | fragment m e | query q e =>
        obtain ⟨-, he⟩ := hwithin
        simp only [Call.set, Call.Ok, between_append (show e ≤ bytes.length by omega),
          implies_true, and_self]
    | field s f m e =>
        obtain ⟨-, hf, -, he⟩ := hwithin
        simp only [Call.set, Call.Ok, between_append (show e ≤ bytes.length by omega),
          between_append (show f ≤ bytes.length by omega), implies_true, and_self]
  constructor
  · rw [headRequest, hcalls]
    exact List.foldl_ext _ _ _ fun req c hc => (hcall c hc).1 req
  · rw [HeadOk, hcalls]
    exact forall₂_congr fun c hc => (hcall c hc).2

/-! ### One request -/

/-- A request and how it is received when it comes alone: its bytes are its head and
the body that its content length announces. -/
structure Alone (lexical_cast : Bytes → Option UInt64) (storage : HttpParser) (bytes : Bytes)
    (req : HttpRequest) : Prop where
  fits : HeadFits storage bytes
  received : (recvRequest lexical_cast storage ⟨true, [bytes]⟩).1 = .request req
  exact_length : bytes.length = headLength storage bytes + bodyLength lexical_cast req

theorem bodyLength_complete (lexical_cast : Bytes → Option UInt64) (req : HttpRequest)
    (body : Bytes) :
    bodyLength lexical_cast (complete req body) = bodyLength lexical_cast req := by
  rw [complete_eq]
  rfl

/-- **One request at the front of a stream**, its head in one read: it is received as
alone, and the socket has delivered what the read of the head brought, at least. -/
theorem Alone.front {lexical_cast : Bytes → Option UInt64} {req : HttpRequest} {rest : Bytes}
    {sock : Socket} (h : Alone lexical_cast storage bytes req) (hsock : sock.Delivers)
    (hstream : sock.stream = bytes ++ rest)
    (hhead : headLength storage bytes ≤ (sock.arrivals.headD []).length) :
    let n := headRead sock.arrivals (headLength storage bytes)
    (Counted (bytes.length - n) → recvRequest lexical_cast storage sock =
      (.request req, sock.after (max n bytes.length))) ∧
    (¬ Counted (bytes.length - n) → (recvRequest lexical_cast storage sock).1 = .null) := by
  intro n
  obtain ⟨hok, hlength, hreq⟩ := accepted_whole h.fits h.received
  have hwalk : headWalk storage sock.stream = headWalk storage bytes := by
    rw [hstream, headWalk_append h.fits.halted]
  have hH : headLength storage sock.stream = headLength storage bytes := by
    rw [headLength, hwalk, headLength]
  have hfits : HeadFits storage sock.stream := ⟨hwalk ▸ h.fits.halted, hH ▸ h.fits.size⟩
  have hstart : ∀ p, p < headLength storage bytes → readStart sock.arrivals p = whole p := by
    intro p hp
    rcases harr : sock.arrivals with _ | ⟨c, cs⟩
    · rfl
    · rw [harr, List.headD_cons] at hhead
      rw [readStart, if_pos (by omega), whole]
  have hsame := headRequest_append (readStart_le sock.arrivals) h.fits.halted rest
  rw [(headRequest_congr hstart).1, (headRequest_congr hstart).2, ← hstream] at hsame
  obtain ⟨hsome, hnull⟩ := recvRequest_of_ok lexical_cast hsock hfits (hsame.2.mpr hok)
  have hbody : bodyLength lexical_cast (headRequest whole storage bytes) =
      bodyLength lexical_cast req := by
    rw [hreq, bodyLength_complete]
  -- the body ends where the request does
  have hexact := h.exact_length
  rw [hsame.1, hH, hbody, ← hexact] at hsome hnull
  have hle : bytes.length ≤ sock.stream.length := by
    rw [hstream, List.length_append]
    exact Nat.le_add_right _ _
  refine ⟨fun hcounted => ?_, fun hcounted => hnull fun hc => hcounted hc.2⟩
  rw [hsome ⟨hle, hcounted⟩, hstream,
    List.drop_append_of_le_length (headLength_le storage bytes),
    List.take_append_of_le_length (by rw [List.length_drop]; omega), ← hbody, ← hreq]

/-- A read that goes beyond the request has taken bytes of what follows. -/
theorem Alone.beyond {lexical_cast : Bytes → Option UInt64} {req : HttpRequest} {rest : Bytes}
    {sock : Socket} {n : Nat} (h : Alone lexical_cast storage bytes req)
    (hstream : sock.stream = bytes ++ rest)
    (hn : headRead sock.arrivals (headLength storage bytes) = n) (hlt : bytes.length < n) :
    (sock.after n).stream ≠ rest := by
  intro hgone
  have hlen := congrArg List.length hgone
  have hlen' := congrArg List.length hstream
  have hhead := headLength_le storage bytes
  rw [Socket.stream_after, List.length_drop] at hlen
  rw [List.length_append] at hlen'
  have hbounds := headRead_bounds
    (show headLength storage bytes ≤ sock.arrivals.flatten.length by
      show headLength storage bytes ≤ sock.stream.length
      omega) h.fits.size
  rw [hn] at hbounds
  have : n ≤ sock.stream.length := hbounds.2
  omega

/-! ### The connection -/

/-- The bytes of requests sent back to back. -/
def backToBack (rs : List (Bytes × HttpRequest)) : Bytes := (rs.map Prod.fst).flatten

/-- The requests in order, each with the bytes that follow it. -/
def inOrder : List (Bytes × HttpRequest) → List (HttpRequest × Bytes)
  | [] => []
  | (_, req) :: rs => (req, backToBack rs) :: inOrder rs

/-- The head of each request is in one arrival, which may go on. -/
def HeadsWhole (storage : HttpParser) : List (Bytes × HttpRequest) → List Bytes → Prop
  | [], _ => True
  | (bytes, _) :: rs, arrivals =>
      headLength storage bytes ≤ (arrivals.headD []).length ∧
        HeadsWhole storage rs (skip bytes.length arrivals)

/-- No read of a head goes beyond the end of its request, and what it leaves of the body to
`readFixSize` can be counted. -/
def NotBeyond (storage : HttpParser) : List (Bytes × HttpRequest) → List Bytes → Prop
  | [], _ => True
  | (bytes, _) :: rs, arrivals =>
      headRead arrivals (headLength storage bytes) ≤ bytes.length ∧
        Counted (bytes.length - headRead arrivals (headLength storage bytes)) ∧
        NotBeyond storage rs (skip bytes.length arrivals)

theorem recvRequest_end (lexical_cast : Bytes → Option UInt64) (storage : HttpParser)
    {sock : Socket} (hsock : sock.Delivers) (hnil : sock.stream = []) :
    (recvRequest lexical_cast storage sock).1 = .null := by
  rw [recvRequest, hnil, recvHead, List.length_nil, Nat.sub_zero, if_pos (hsock.read_nil hnil _)]

theorem handleLoop_end (lexical_cast : Bytes → Option UInt64) (storage : HttpParser)
    {turns : Nat} {sock : Socket} (hsock : sock.Delivers) (hnil : sock.stream = []) :
    handleLoop lexical_cast storage true turns sock = [] := by
  cases turns with
  | zero => rfl
  | succ turns =>
      have hend := recvRequest_end lexical_cast storage hsock hnil
      rw [handleLoop]
      rcases hrecv : recvRequest lexical_cast storage sock with ⟨received, sock'⟩
      rw [hrecv] at hend
      obtain rfl : received = .null := hend
      rfl

theorem handleLoop_pipelined {lexical_cast : Bytes → Option UInt64}
    {rs : List (Bytes × HttpRequest)} {turns : Nat} {sock : Socket} (hsock : sock.Delivers)
    (halone : ∀ x ∈ rs, Alone lexical_cast storage x.1 x.2)
    (hkeep : ∀ x ∈ rs.dropLast, x.2.m_close = false) (hstream : sock.stream = backToBack rs)
    (hheads : HeadsWhole storage rs sock.arrivals) (hturns : sock.stream.length < turns) :
    (handleLoop lexical_cast storage true turns sock).map (fun x => (x.1, x.2.stream)) =
      inOrder rs ↔ NotBeyond storage rs sock.arrivals := by
  induction rs generalizing sock turns with
  | nil =>
      rw [handleLoop_end lexical_cast storage hsock hstream]
      exact ⟨fun _ => trivial, fun _ => rfl⟩
  | cons x rs ih =>
      obtain ⟨bytes, req⟩ := x
      have hx : Alone lexical_cast storage bytes req := halone _ (List.mem_cons_self ..)
      have hrest : ∀ x ∈ rs, Alone lexical_cast storage x.1 x.2 := fun x hx =>
        halone x (List.mem_cons_of_mem _ hx)
      have hkeep' : ∀ x ∈ rs.dropLast, x.2.m_close = false := fun x hx => by
        refine hkeep x ?_
        cases rs with
        | nil => exact absurd hx List.not_mem_nil
        | cons y rs => exact List.mem_cons_of_mem _ hx
      have hstream' : sock.stream = bytes ++ backToBack rs := hstream
      obtain ⟨hhead, hheads'⟩ := hheads
      obtain ⟨turns, rfl⟩ : ∃ t, turns = t + 1 := ⟨turns - 1, by omega⟩
      obtain ⟨hsome, hnull⟩ := hx.front hsock hstream' hhead
      obtain ⟨n, hn⟩ : ∃ n, headRead sock.arrivals (headLength storage bytes) = n := ⟨_, rfl⟩
      rw [hn] at hsome hnull
      rw [NotBeyond, hn, handleLoop]
      by_cases hcounted : Counted (bytes.length - n)
      · rw [hsome hcounted]
        simp only [Bool.not_true, Bool.false_or]
        by_cases hle : n ≤ bytes.length
        · -- the rest of the stream is what the next call sees
          have hpos : 0 < bytes.length := by
            have := Machine.lt_pos_of_halted hx.fits.halted
            have := headLength_le storage bytes
            rw [headLength, headWalk] at this
            omega
          have hafter : (sock.after bytes.length).stream = backToBack rs := by
            rw [Socket.stream_after, hstream', List.drop_left]
          have hrec := ih (hsock.after bytes.length) hrest hkeep' hafter hheads'
            (show (sock.after bytes.length).stream.length < turns by
              rw [hstream', List.length_append] at hturns
              rw [hafter]
              omega)
          rw [Nat.max_eq_right hle]
          split_ifs with hclose
          · -- a request that closes the connection is the last
            have hnil : rs = [] := by
              cases rs with
              | nil => rfl
              | cons y rs =>
                  have := hkeep (bytes, req) (List.mem_cons_self ..)
                  rw [hclose] at this
                  cases this
            subst hnil
            rw [List.map_singleton, hafter, inOrder]
            exact ⟨fun _ => ⟨hle, hcounted, trivial⟩, fun _ => rfl⟩
          · rw [List.map_cons, hafter, inOrder, List.cons_inj_right, hrec]
            exact ⟨fun h => ⟨hle, hcounted, h⟩, fun h => h.2.2⟩
        · -- bytes of the next request have been read, and are gone
          refine ⟨fun h => absurd ?_ hle, fun h => absurd h.1 hle⟩
          rw [Nat.max_eq_left (Nat.le_of_not_le hle), inOrder] at h
          refine absurd ?_ (hx.beyond hstream' hn (Nat.lt_of_not_le hle))
          split_ifs at h with hclose
          · rw [List.map_singleton] at h
            exact (Prod.mk.inj (List.cons.inj h).1).2
          · rw [List.map_cons] at h
            exact (Prod.mk.inj (List.cons.inj h).1).2
      · have hnone := hnull hcounted
        rcases hrecv : recvRequest lexical_cast storage sock with ⟨received, sock'⟩
        rw [hrecv] at hnone
        obtain rfl : received = .null := hnone
        refine ⟨fun h => ?_, fun h => absurd h.2.1 hcounted⟩
        rw [inOrder] at h
        cases h

/-- **Pipelined requests**: a server that keeps connections alive receives the requests sent
back to back, each with the stream left at its end, if and only if no read of a head goes
beyond its request. -/
theorem handleClient_pipelined (lexical_cast : Bytes → Option UInt64) (storage : HttpParser)
    (rs : List (Bytes × HttpRequest)) (arrivals : List Bytes)
    (halone : ∀ x ∈ rs, Alone lexical_cast storage x.1 x.2)
    (hkeep : ∀ x ∈ rs.dropLast, x.2.m_close = false)
    (harrivals : ∀ c ∈ arrivals, c ≠ []) (hstream : arrivals.flatten = backToBack rs)
    (hheads : HeadsWhole storage rs arrivals) :
    (handleClient lexical_cast storage true ⟨true, arrivals⟩).map
        (fun x => (x.1, x.2.stream)) = inOrder rs ↔
      NotBeyond storage rs arrivals :=
  handleLoop_pipelined (show (⟨true, arrivals⟩ : Socket).Delivers from ⟨rfl, harrivals⟩) halone
    hkeep hstream hheads
    (Nat.lt_succ_self _)

/-- A request that asks to keep the connection alive. -/
def stay : Bytes := ascii "GET / HTTP/1.1\r\nConnection: keep-alive\r\n\r\n"

def stayRequest : HttpRequest :=
  { HttpRequest.new with
    m_close := false
    m_headers := [(ascii "Connection", ascii "keep-alive")] }

theorem stay_alone : Alone (fun _ => none) .zero stay stayRequest :=
  ⟨by decide +kernel, by decide +kernel, by decide +kernel⟩

/-- Two requests in two reads: both are received. -/
theorem handleClient_pipelined_apart :
    (handleClient (fun _ => none) .zero true ⟨true, [stay, stay]⟩).map
        (fun x => (x.1, x.2.stream)) = inOrder [(stay, stayRequest), (stay, stayRequest)] :=
  (handleClient_pipelined (fun _ => none) .zero [(stay, stayRequest), (stay, stayRequest)]
    [stay, stay] (fun x hx => by
      rcases List.mem_cons.mp hx with rfl | hx
      · exact stay_alone
      · obtain rfl := List.mem_singleton.mp hx
        exact stay_alone)
    (by decide +kernel) (by decide +kernel) (by decide +kernel)
    ⟨by decide +kernel, by decide +kernel, trivial⟩).mpr
      ⟨by decide +kernel, by decide +kernel, by decide +kernel, by decide +kernel, trivial⟩

/-- Two requests in one read: the second is never received. -/
theorem second_lost :
    ∃ (rs : List (Bytes × HttpRequest)) (arrivals : List Bytes),
      (∀ x ∈ rs, Alone (fun _ => none) .zero x.1 x.2 ∧ x.2.m_close = false) ∧
      (∀ c ∈ arrivals, c ≠ []) ∧ arrivals.flatten = backToBack rs ∧
      HeadsWhole .zero rs arrivals ∧
      rs.map Prod.snd = [stayRequest, stayRequest] ∧
      (handleClient (fun _ => none) .zero true ⟨true, arrivals⟩).map
        (fun x => (x.1, x.2.stream)) = [(stayRequest, [])] := by
  refine ⟨[(stay, stayRequest), (stay, stayRequest)], [stay ++ stay], fun x hx => ?_,
    by decide +kernel, by decide +kernel, ⟨by decide +kernel, by decide +kernel, trivial⟩, rfl,
    by decide +kernel⟩
  rcases List.mem_cons.mp hx with rfl | hx
  · exact ⟨stay_alone, rfl⟩
  · obtain rfl := List.mem_singleton.mp hx
    exact ⟨stay_alone, rfl⟩

end Http

end Will
