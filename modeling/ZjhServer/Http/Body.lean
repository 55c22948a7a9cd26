/-
ZjhServer/Http/Body.lean

How `recvRequest` puts the body together (server/http/http_session.cc,
`Stream::readFixSize` of server/stream.cc) when the head comes in the first read.

The body is what is left of that read behind the head, and then what the fixed read gets.
Here a read may also fail, or meet the end of the stream, which is an empty arrival:
`supplied` is what comes before.  The writes into the body string, with the room that each
is told to have, are lists of their own (`bodyWrites`): none reaches behind the string, and
performed one after the other they leave the body that is returned
(`recvRequest_assembles`).
-/
import ZjhServer.Http.Chunking
import ZjhServer.Lib.Window

namespace Will

namespace Http

open Window

/-- What comes before the first read that gives nothing. -/
def supplied (arrivals : List Bytes) : Bytes := (arrivals.takeWhile (· ≠ [])).flatten

theorem supplied_cons {c : Bytes} (h : c ≠ []) (cs : List Bytes) :
    supplied (c :: cs) = c ++ supplied cs := by
  rw [supplied, List.takeWhile_cons, if_pos (decide_eq_true h), List.flatten_cons]
  rfl

/-! ### The writes -/

/-- A write of `bytes` at `offset` of the body string, by somebody who is told that there
are `room` bytes. -/
structure BodyWrite where
  offset : Nat
  room : Nat
  bytes : Bytes
  deriving DecidableEq, Repr

/-- The writes of `readFixLoop`. -/
def readFixWrites : Nat → Nat → Nat → Socket → List BodyWrite
  | 0, _, _, _ => []
  | turns + 1, left, offset, sock =>
      if left = 0 then []
      else
        let r := sock.read left
        if r.1 = [] then [⟨offset, left, []⟩]
        else ⟨offset, left, r.1⟩ ::
          readFixWrites turns (left - r.1.length) (offset + r.1.length) r.2

/-- The writes of `recvBody` into the string of `length` bytes. -/
def bodyWrites (lexical_cast : Bytes → Option UInt64) (parser : HttpRequestParser) (data : Bytes)
    (sock : Socket) : List BodyWrite :=
  let length := (parser.getContentLength lexical_cast).toInt64.toInt
  if length > 0 then
    -- `memcpy(&body[0], data, len)`
    let len := if length ≥ data.length then data.length else length.toNat
    let left := length - data.length
    ⟨0, len, data.take len⟩ ::
      if left > 0 then readFixWrites left.toNat left.toNat len sock else []
  else []

/-- The writes of `recvRequest`. -/
def recvWrites (lexical_cast : Bytes → Option UInt64) (storage : HttpParser) (sock : Socket) :
    List BodyWrite :=
  match recvHead (sock.stream.length + 1) (.new storage) [] sock with
  | .finished parser data sock => bodyWrites lexical_cast parser data sock
  | .failed _ _ => []

/-- The string after a write. -/
def BodyWrite.store (body : Bytes) (w : BodyWrite) : Bytes := splice body w.offset w.bytes

/-! ### Reads of any socket -/

namespace Socket

/-- **A read** gives nothing when nothing is supplied, and else the front of it. -/
theorem read_supplied {sock : Socket} (hconnected : sock.connected = true) {length : Nat}
    (hlength : 0 < length) : (sock.read length).2.connected = true ∧
      (((sock.read length).1 = [] ∧ supplied sock.arrivals = []) ∨
        ∃ k, 0 < k ∧ k ≤ length ∧ k ≤ (supplied sock.arrivals).length ∧
          (sock.read length).1 = (supplied sock.arrivals).take k ∧
          supplied (sock.read length).2.arrivals = (supplied sock.arrivals).drop k) := by
  obtain ⟨connected, arrivals⟩ := sock
  obtain rfl : connected = true := hconnected
  rw [Socket.read, if_pos rfl]
  rcases arrivals with _ | ⟨c, cs⟩
  · exact ⟨rfl, .inl ⟨rfl, rfl⟩⟩
  · refine ⟨rfl, ?_⟩
    by_cases hc : c = []
    · subst hc
      exact .inl ⟨List.take_nil, rfl⟩
    · right
      have hpos := List.length_pos_of_ne_nil hc
      have hmax : 0 < MAX_RW_COUNT := by decide
      simp only [supplied_cons hc, List.length_append]
      obtain ⟨n, hn⟩ : ∃ n, min length MAX_RW_COUNT = n := ⟨_, rfl⟩
      rw [hn]
      refine ⟨min n c.length, by omega, by omega, by omega, ?_, ?_⟩
      · rw [List.take_append_of_le_length (Nat.min_le_right _ _), ← List.take_take,
          List.take_length]
      · split_ifs with hlt
        · have hdrop : c.drop n ≠ [] := by
            rw [← List.length_pos_iff, List.length_drop]
            omega
          rw [supplied_cons hdrop, Nat.min_eq_left (Nat.le_of_lt hlt),
            List.drop_append_of_le_length (Nat.le_of_lt hlt)]
        · rw [Nat.min_eq_right (Nat.le_of_not_lt hlt), List.drop_left]

/-- The first read of a socket, and what is left to be supplied. -/
theorem read_first (c : Bytes) (later : List Bytes) {length : Nat}
    (hmax : length ≤ MAX_RW_COUNT) :
    ∃ sock, (⟨true, c :: later⟩ : Socket).read length = (c.take length, sock) ∧
      sock.connected = true ∧ c.take length ++ supplied sock.arrivals = c ++ supplied later := by
  rw [Socket.read, if_pos rfl]
  simp only [Nat.min_eq_left hmax]
  refine ⟨_, rfl, rfl, ?_⟩
  split_ifs with hlt
  · have hdrop : c.drop length ≠ [] := by
      rw [← List.length_pos_iff, List.length_drop]
      omega
    rw [supplied_cons hdrop, ← List.append_assoc, List.take_append_drop]
  · rw [List.take_of_length_le (Nat.le_of_not_lt hlt)]

end Socket

/-- **A fixed read** of any socket: it gets its bytes if they are supplied, else its result
is 0. -/
theorem readFixLoop_supplied (length : Nat) {turns : Nat} (left : Nat) (bytes : Bytes)
    {sock : Socket}
    (hconnected : sock.connected = true) (hturns : left ≤ turns) :
    (left ≤ (supplied sock.arrivals).length →
      ∃ sock', readFixLoop length turns left bytes sock =
        ⟨toInt length, bytes ++ (supplied sock.arrivals).take left, sock'⟩ ∧
        sock'.connected = true) ∧
    ((supplied sock.arrivals).length < left →
      (readFixLoop length turns left bytes sock).result = 0) := by
  induction turns generalizing left bytes sock with
  | zero =>
      obtain rfl : left = 0 := Nat.le_zero.mp hturns
      refine ⟨fun _ => ⟨sock, ?_, hconnected⟩, fun hshort => absurd hshort (Nat.not_lt_zero _)⟩
      rw [readFixLoop, List.take_zero, List.append_nil]
  | succ turns ih =>
      rw [readFixLoop]
      by_cases hzero : left = 0
      · rw [if_pos hzero]
        subst hzero
        refine ⟨fun _ => ⟨sock, ?_, hconnected⟩, fun hshort => absurd hshort (Nat.not_lt_zero _)⟩
        rw [List.take_zero, List.append_nil]
      · rw [if_neg hzero]
        obtain ⟨hconnected', hread⟩ :=
          Socket.read_supplied hconnected (Nat.pos_of_ne_zero hzero)
        rcases hread with ⟨hnone, hnothing⟩ | ⟨k, hk, hkleft, hklen, hfirst, hrest⟩
        · -- a read that gives nothing ends the loop
          simp only [if_pos hnone]
          rw [hnothing]
          exact ⟨fun henough => absurd (Nat.le_zero.mp henough) hzero, fun _ => trivial⟩
        · have hlen : ((supplied sock.arrivals).take k).length = k := by
            rw [List.length_take, Nat.min_eq_left hklen]
          have hsome : (sock.read left).1 ≠ [] := by
            rw [hfirst, ← List.length_pos_iff, hlen]
            exact hk
          simp only [hsome, if_false]
          rw [hfirst, hlen]
          obtain ⟨henough, hshort⟩ := ih (left - k)
            (bytes ++ (supplied sock.arrivals).take k) hconnected' (by omega)
          rw [hrest, List.length_drop] at henough hshort
          refine ⟨fun h => ?_, fun h => hshort (by omega)⟩
          obtain ⟨sock', hrun, hopen⟩ := henough (by omega)
          refine ⟨sock', ?_, hopen⟩
          rw [hrun, List.append_assoc, ← List.take_add, Nat.add_sub_cancel' hkleft]

/-- The writes of the loop stay in the string. -/
theorem readFixWrites_inside {turns left offset : Nat} {sock : Socket} {w : BodyWrite}
    (hw : w ∈ readFixWrites turns left offset sock) :
    w.bytes.length ≤ w.room ∧ w.offset + w.room ≤ offset + left := by
  induction turns generalizing left offset sock with
  | zero => exact absurd hw List.not_mem_nil
  | succ turns ih =>
      have hread := sock.length_read_le left
      rw [readFixWrites] at hw
      split_ifs at hw with hzero
      · exact absurd hw List.not_mem_nil
      · simp only at hw
        split_ifs at hw with hnone
        · rw [List.mem_singleton.mp hw]
          exact ⟨Nat.zero_le _, Nat.le_refl _⟩
        · rcases List.mem_cons.mp hw with rfl | hw
          · exact ⟨hread, Nat.le_refl _⟩
          · obtain ⟨hbytes, hroom⟩ := ih hw
            exact ⟨hbytes, by omega⟩

/-- A write at the end of what has been written. -/
theorem take_store (body d : Bytes) {offset : Nat} (h : offset + d.length ≤ body.length) :
    (splice body offset d).take (offset + d.length) = body.take offset ++ d := by
  have hfits : d.length ≤ body.length - offset := by omega
  have hfront : (body.take offset ++ d).length = offset + d.length := by
    rw [List.length_append, List.length_take]
    omega
  rw [splice, List.take_of_length_le hfits, ← hfront, List.take_left]

/-- The writes of the loop leave what it reads. -/
theorem readFixWrites_fill {turns left offset : Nat} {sock : Socket} {body : Bytes}
    (hconnected : sock.connected = true) (hturns : left ≤ turns)
    (henough : left ≤ (supplied sock.arrivals).length) (hbody : body.length = offset + left) :
    (readFixWrites turns left offset sock).foldl BodyWrite.store body =
      body.take offset ++ (supplied sock.arrivals).take left := by
  -- on the turns; `body` holds what the turns before have written
  induction turns generalizing left offset sock body with
  | zero =>
      obtain rfl : left = 0 := Nat.le_zero.mp hturns
      rw [readFixWrites, List.foldl_nil, List.take_zero, List.append_nil,
        List.take_of_length_le (by omega)]
  | succ turns ih =>
      rw [readFixWrites]
      by_cases hzero : left = 0
      · subst hzero
        rw [if_pos rfl, List.foldl_nil, List.take_zero, List.append_nil,
          List.take_of_length_le (by omega)]
      · rw [if_neg hzero]
        obtain ⟨hconnected', hread⟩ :=
          Socket.read_supplied hconnected (Nat.pos_of_ne_zero hzero)
        rcases hread with ⟨-, hnothing⟩ | ⟨k, hk, hkleft, hklen, hfirst, hrest⟩
        · rw [hnothing] at henough
          exact absurd (Nat.le_zero.mp henough) hzero
        · have hlen : ((supplied sock.arrivals).take k).length = k := by
            rw [List.length_take, Nat.min_eq_left hklen]
          have hsome : (sock.read left).1 ≠ [] := by
            rw [hfirst, ← List.length_pos_iff, hlen]
            exact hk
          simp only [hsome, if_false]
          rw [hfirst, hlen, List.foldl_cons, ih hconnected' (by omega)
            (by rw [hrest, List.length_drop]; omega)
            (by rw [BodyWrite.store, length_splice]; omega)]
          have hfront := take_store body ((supplied sock.arrivals).take k)
            (show offset + _ ≤ body.length by omega)
          rw [hlen] at hfront
          rw [BodyWrite.store, hfront, hrest, List.append_assoc, ← List.take_add,
            Nat.add_sub_cancel' hkleft]

/-! ### The head in the first read -/

/-- A head that is complete in the first read, whatever comes later. -/
theorem recvHead_first (turns : Nat) {storage : HttpParser} {first : Bytes} {sock sock' : Socket}
    (hread : sock.read HttpRequestParser.GetHttpRequestBufferSize = (first, sock'))
    (hfits : HeadFits storage first) (hok : HeadOk whole storage first) :
    ∃ s, recvHead (turns + 1) (.new storage) [] sock =
        .finished s (first.drop (headLength storage first)) sock' ∧
      s.m_data = headRequest whole storage first := by
  have hlength := Socket.length_le_of_read hread
  have hne : first ≠ [] := by
    rintro rfl
    cases hfits.halted
  have hbuf : Buffer whole first first 0 :=
    ⟨by rw [List.drop_zero, List.take_length], by omega, fun _ _ _ => rfl⟩
  have hshort : ∀ n, n ≤ first.length → ∀ q, q < n → q - whole q < 2 ^ 63 := by
    intro n hn q hq
    have : HttpRequestParser.GetHttpRequestBufferSize < 2 ^ 62 := by decide
    omega
  have hturn := recvHead_see_turn turns hread hne hbuf
    (hshort _ (by omega)) (Ready.new whole storage)
  obtain ⟨k, hsee⟩ := hok.see (hshort _ (headLength_le storage first)) fun p => Nat.zero_le p
  simp only at hturn
  rw [show (machine storage.uri_relaxed).walk http_parser_start 0 first =
    headWalk storage first from rfl, hsee] at hturn
  generalize recvHead (turns + 1) (.new storage) [] sock = out at hturn ⊢
  have hhalted := hfits.halted
  cases hturn with
  | error _ herr => exact absurd rfl herr
  | stuck _ _ hended => rw [hended] at hhalted; cases hhalted
  | finished _ s _ _ hdata => exact ⟨s, rfl, congrArg ParserData.m_data hdata⟩
  | next _ _ _ hended => rw [hended] at hhalted; cases hhalted

/-! ### The body -/

/-- A length below `2^31` comes back from `readFixSize` as a positive `int`. -/
theorem toInt_pos {n : Nat} (hpos : 0 < n) (hlt : n < 2147483648) : 0 < toInt n := by
  have hbits : (BitVec.ofNat 32 n).toNat = n := Nat.mod_eq_of_lt (by omega)
  rw [toInt, BitVec.toInt_eq_toNat_bmod, hbits, Int.bmod_eq_of_le (by omega) (by omega)]
  omega

/-- What `recvRequest` does behind the head, with `data` left in the buffer. -/
structure Assembled (lexical_cast : Bytes → Option UInt64) (parser : HttpRequestParser)
    (data : Bytes) (sock : Socket) (n : Nat) : Prop where
  enough : n ≤ (data ++ supplied sock.arrivals).length →
    ∃ sock', recvBody lexical_cast parser data sock =
        (.request (complete parser.m_data ((data ++ supplied sock.arrivals).take n)), sock') ∧
      sock'.connected = true
  short : (data ++ supplied sock.arrivals).length < n →
    ∃ sock', recvBody lexical_cast parser data sock = (.null, sock') ∧ sock'.connected = false
  inside : ∀ w ∈ bodyWrites lexical_cast parser data sock,
    w.bytes.length ≤ w.room ∧ w.offset + w.room ≤ n
  fill : n ≤ (data ++ supplied sock.arrivals).length →
    (bodyWrites lexical_cast parser data sock).foldl BodyWrite.store (List.replicate n 0) =
      (data ++ supplied sock.arrivals).take n

/-- The first write of the body string. -/
theorem store_front {n : Nat} {d : Bytes} (h : d.length ≤ n) :
    (splice (List.replicate n 0) 0 d).take d.length = d := by
  have hfront := take_store (List.replicate n (0 : UInt8)) d
    (show 0 + d.length ≤ _ by rw [List.length_replicate]; omega)
  rw [Nat.zero_add, List.take_zero, List.nil_append] at hfront
  exact hfront

theorem recvBody_assembled (lexical_cast : Bytes → Option UInt64) (parser : HttpRequestParser)
    (data : Bytes) {sock : Socket} (hconnected : sock.connected = true) {n : Nat}
    (hn : contentLength lexical_cast parser.m_data = n) (hpos : 0 < n) (hlt : n < 2147483648) :
    Assembled lexical_cast parser data sock n := by
  have hlength : (parser.getContentLength lexical_cast).toInt64.toInt = n := hn
  have hsome : (n : Int) > 0 := by omega
  by_cases hleft : data.length < n
  · -- part of the body is left to the fixed read
    have hge : (n : Int) ≥ data.length := by omega
    have hmore : (n : Int) - data.length > 0 := by omega
    have hnat : ((n : Int) - data.length).toNat = n - data.length := by omega
    have hcopied : data.take n = data := List.take_of_length_le (Nat.le_of_lt hleft)
    have hbody : recvBody lexical_cast parser data sock =
        if (sock.readFixSize (n - data.length)).result ≤ 0 then
          (.null, (sock.readFixSize (n - data.length)).sock.close)
        else (.request (keepAlive { parser.m_data with
            m_body := data ++ (sock.readFixSize (n - data.length)).bytes }),
          (sock.readFixSize (n - data.length)).sock) := by
      unfold recvBody
      simp only [hlength, if_pos hsome, if_pos hmore, hnat, Int.toNat_natCast, hcopied]
    have hwrites : bodyWrites lexical_cast parser data sock = ⟨0, data.length, data⟩ ::
        readFixWrites (n - data.length) (n - data.length) data.length sock := by
      unfold bodyWrites
      simp only [hlength, if_pos hsome, if_pos hmore, if_pos hge, hnat, List.take_length]
    have htake : (data ++ supplied sock.arrivals).take n =
        data ++ (supplied sock.arrivals).take (n - data.length) := by
      rw [List.take_append, hcopied]
    obtain ⟨henough, hshort⟩ := readFixLoop_supplied (n - data.length) (n - data.length) []
      hconnected (Nat.le_refl (n - data.length))
    refine ⟨fun h => ?_, fun h => ?_, fun w hw => ?_, fun h => ?_⟩
    · rw [List.length_append] at h
      obtain ⟨sock', hrun, hopen⟩ := henough (by omega)
      refine ⟨sock', ?_, hopen⟩
      rw [hbody, Socket.readFixSize, hrun,
        if_neg (Int.not_le.mpr (toInt_pos (by omega) (by omega))),
        htake]
      rfl
    · rw [List.length_append] at h
      refine ⟨(sock.readFixSize (n - data.length)).sock.close, ?_, rfl⟩
      have hresult : (sock.readFixSize (n - data.length)).result = 0 := hshort (by omega)
      rw [hbody, if_pos (Int.le_of_eq hresult)]
    · rw [hwrites] at hw
      rcases List.mem_cons.mp hw with rfl | hw
      · exact ⟨Nat.le_refl _, by simp only; omega⟩
      · obtain ⟨hbytes, hroom⟩ := readFixWrites_inside hw
        exact ⟨hbytes, by omega⟩
    · rw [List.length_append] at h
      rw [hwrites, List.foldl_cons, readFixWrites_fill hconnected (Nat.le_refl _) (by omega)
        (by rw [BodyWrite.store, length_splice, List.length_replicate]; omega), htake]
      rw [BodyWrite.store, store_front (Nat.le_of_lt hleft)]
  · -- the buffer holds the whole body
    have hle : n ≤ data.length := Nat.le_of_not_lt hleft
    have hnone : ¬(n : Int) - data.length > 0 := by omega
    have htaken : (data.take n).length = n := by
      rw [List.length_take]
      omega
    have htake : (data ++ supplied sock.arrivals).take n = data.take n :=
      List.take_append_of_le_length hle
    have hlen : (if (n : Int) ≥ data.length then data.length else n) = n := by
      split_ifs <;> omega
    have hwrites : bodyWrites lexical_cast parser data sock = [⟨0, n, data.take n⟩] := by
      unfold bodyWrites
      simp only [hlength, if_pos hsome, if_neg hnone, Int.toNat_natCast, hlen]
    refine ⟨fun _ => ⟨sock, ?_, hconnected⟩, fun h => ?_, fun w hw => ?_, fun _ => ?_⟩
    · unfold recvBody
      simp only [hlength, if_pos hsome, if_neg hnone, Int.toNat_natCast, htake]
      rfl
    · rw [List.length_append] at h
      omega
    · rw [hwrites] at hw
      rw [List.mem_singleton.mp hw]
      exact ⟨Nat.le_of_eq htaken, Nat.le_of_eq (Nat.zero_add n)⟩
    · have hfront := store_front (Nat.le_of_eq htaken)
      rw [htaken, List.take_of_length_le (by rw [length_splice, List.length_replicate])] at hfront
      rw [hwrites, htake]
      exact hfront

/-! ### The request -/

/-- **The body is assembled**: when the head is complete in the first read, whatever
follows it there and however the rest comes, the request has the `n` bytes behind the head
for its body if they are supplied; if they are not, the session is closed and nothing is
returned.  No write into the body string is told to have room behind its `n` bytes, or
takes more than it has, and together the writes leave the body. -/
theorem recvRequest_assembles (lexical_cast : Bytes → Option UInt64) {storage : HttpParser}
    {c first : Bytes} (hfirst : c.take HttpRequestParser.GetHttpRequestBufferSize = first)
    (hfits : HeadFits storage first) (hok : HeadOk whole storage first) {n : Nat}
    (hn : contentLength lexical_cast (headRequest whole storage first) = n) (hpos : 0 < n)
    (hlt : n < 2147483648) (later : List Bytes) :
    let H := headLength storage first
    let stream := c ++ supplied later
    let writes := recvWrites lexical_cast storage ⟨true, c :: later⟩
    (H + n ≤ stream.length → ∃ req sock',
      recvRequest lexical_cast storage ⟨true, c :: later⟩ = (.request req, sock') ∧
      req.m_body = (stream.drop H).take n ∧
      req = complete (headRequest whole storage first) req.m_body ∧ sock'.connected = true ∧
      writes.foldl BodyWrite.store (List.replicate n 0) = req.m_body) ∧
    (stream.length < H + n → ∃ sock',
      recvRequest lexical_cast storage ⟨true, c :: later⟩ = (.null, sock') ∧
      sock'.connected = false) ∧
    ∀ w ∈ writes, w.bytes.length ≤ w.room ∧ w.offset + w.room ≤ n := by
  intro H stream writes
  have hH : H ≤ first.length := headLength_le storage first
  obtain ⟨sock, hread, hconnected, hsplit⟩ := Socket.read_first c later
    (show HttpRequestParser.GetHttpRequestBufferSize ≤ Socket.MAX_RW_COUNT by decide)
  rw [hfirst] at hread hsplit
  -- what the first read has left over and what still comes are the rest of the stream
  have hbehind : first.drop H ++ supplied sock.arrivals = stream.drop H := by
    show _ = (c ++ supplied later).drop H
    rw [← hsplit, List.drop_append_of_le_length hH]
  obtain ⟨s, hhead, hdata⟩ := recvHead_first
    (⟨true, c :: later⟩ : Socket).stream.length hread hfits hok
  have hbody := recvBody_assembled lexical_cast s (first.drop H) hconnected (hdata.symm ▸ hn)
    hpos hlt
  have hrequest : recvRequest lexical_cast storage ⟨true, c :: later⟩ =
      recvBody lexical_cast s (first.drop H) sock := by
    rw [recvRequest, hhead]
  have hwrites : writes = bodyWrites lexical_cast s (first.drop H) sock := by
    show recvWrites _ _ _ = _
    rw [recvWrites, hhead]
  obtain ⟨henough, hshort, hinside, hfill⟩ := hbody
  rw [hbehind, List.length_drop] at henough hshort hfill
  refine ⟨fun h => ?_, fun h => ?_, hwrites ▸ hinside⟩
  · obtain ⟨sock', hrun, hopen⟩ := henough (by omega)
    have hm : (complete s.m_data ((stream.drop H).take n)).m_body = (stream.drop H).take n := by
      rw [complete_eq]
    refine ⟨_, sock', hrequest.trans hrun, hm, ?_, hopen, ?_⟩
    · rw [hm, hdata]
    · rw [hwrites, hfill (by omega), hm]
  · rw [hrequest]
    exact hshort (by omega)

instance (start : Nat → Nat) (head : Bytes) : (c : Call) → Decidable (c.Ok start head)
  | .method .. => inferInstanceAs (Decidable (_ ≠ _))
  | .query .. => inferInstanceAs (Decidable (_ ≤ _))
  | .version .. => inferInstanceAs (Decidable (_ = true))
  | .path .. | .fragment .. | .field .. => inferInstanceAs (Decidable True)

instance (start : Nat → Nat) (storage : HttpParser) (bytes : Bytes) :
    Decidable (HeadOk start storage bytes) :=
  inferInstanceAs (Decidable (∀ c ∈ calls storage bytes, c.Ok start bytes))

/-- A post whose body comes in two more reads after three of its five bytes. -/
theorem recvRequest_assembles_split : ∃ req sock',
    recvRequest (fun _ => some 5) .zero
      ⟨true, [ascii "POST / HTTP/1.1\r\nContent-Length: 5\r\n\r\nabc", ascii "d", ascii "ef"]⟩ =
        (.request req, sock') ∧ req.m_body = ascii "abcde" := by
  obtain ⟨henough, -⟩ := recvRequest_assembles (fun _ => some 5)
    (c := ascii "POST / HTTP/1.1\r\nContent-Length: 5\r\n\r\nabc") rfl
    (show HeadFits .zero _ by decide +kernel) (by decide +kernel) (n := 5) (by decide +kernel)
    (by decide) (by decide)
    [ascii "d", ascii "ef"]
  obtain ⟨req, sock', hrun, hm, -⟩ := henough (by decide +kernel)
  exact ⟨req, sock', hrun, hm.trans (by decide +kernel)⟩

end Http

end Will
