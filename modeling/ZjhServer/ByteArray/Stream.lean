/-
ZjhServer/ByteArray/Stream.lean

Streaming through a `ByteArray`: `getReadBuffers` (server/bytearray.cc), the
`ByteArray` overloads of `SocketStream::read` and `write` (server/socket_stream.cc) and
of `Stream::readFixSize` and `writeFixSize` (server/stream.cc).

Every turn of these loops hands the socket an iovec list over the chain, and then moves
the cursor with `setPosition` by what the socket has taken or given.  `Sent` and
`Received` say what the turns so far add up to: they compose (`Sent.trans`,
`Received.trans`), so a whole loop does what a single turn does.

What goes through is decided by the socket alone: `results` are what its calls return,
each for the bytes that those before it have left, and up to the first that is not
positive they are counted (`passed`), added up and returned (`returned`).
-/
import ZjhServer.ByteArray.Runs

namespace Will

open Effect Window

namespace ByteArray

/-- `getReadBuffers(buffers, len)`: the number returned and the pieces. -/
def getReadBuffers (len : Nat) : M (Nat × List Iov) := fun s =>
  let len := if len > s.getReadSize then s.getReadSize else len
  if len = 0 then .ok (0, []) s
  else
    match s.walkFrom len with
    | none => .error .nullptr s
    | some (iovs, _) => .ok (len, iovs) s

/-- `::sendmsg`: the socket has room for `room` bytes; those it takes. -/
def sendmsg (iovs : List Iov) (room : Nat) : M (List UInt8) := fun s =>
  .ok ((gather s.m_nodes iovs).take room) s

/-- `::recvmsg`: `data` has arrived; the bytes of it that the pieces have room for. -/
def recvmsg (iovs : List Iov) (data : List UInt8) : M (List UInt8) := fun s =>
  let got := data.take (iovs.map (·.iov_len)).sum
  .ok got { s with m_nodes := scatter s.m_nodes iovs got }

end ByteArray

/-! ### The streams -/

/-- What a call of the socket meets: no connection, an error (`-code` is returned, 0
included), or a socket that is ready. -/
inductive Answer (α : Type)
  | disconnected
  | error (code : Nat)
  | ready (x : α)

/-- The fresh memory of a call, and the socket's answer to it. -/
abbrev Turn (α : Type) := Junk × Answer α

namespace SocketStream

open Will.ByteArray

/-- `if(rt > 0) { ba->setPosition(ba->getPosition() + rt); } return rt;`, with the bytes
that went through the socket. -/
def advance (bytes : List UInt8) : M (Int × List UInt8) := do
  if bytes.length > 0 then
    let s ← get
    setPosition (s.m_position + bytes.length)
  pure (bytes.length, bytes)

/-- `SocketStream::read(ba, length)` -/
def read (length : Nat) (turn : Turn (List UInt8)) : M (Int × List UInt8) :=
  match turn.2 with
  | .disconnected => pure (-1, [])
  | .error code => do
      let _ ← getWriteBuffers turn.1 length
      pure (-code, [])
  | .ready data => do
      let r ← getWriteBuffers turn.1 length
      let got ← recvmsg r.2 data
      advance got

/-- `SocketStream::write(ba, length)` -/
def write (length : Nat) (turn : Turn Nat) : M (Int × List UInt8) :=
  match turn.2 with
  | .disconnected => pure (-1, [])
  | .error code => do
      let _ ← getReadBuffers length
      pure (-code, [])
  | .ready room => do
      let r ← getReadBuffers length
      let sent ← sendmsg r.2 room
      advance sent

end SocketStream

namespace Stream

open Will.ByteArray

/-- `int64_t left = length;` -/
@[irreducible] def asInt64 (length : Nat) : Int := Int.bmod length 18446744073709551616

/-- `return length;` as an `int` -/
def asInt (length : Nat) : Int := Int.bmod length 4294967296

/-- The loop `while(left > 0)` of `readFixSize` and `writeFixSize`, over the turns of the
socket: what is returned, nothing while it still waits for a turn, and the bytes that
went through the socket. -/
def fixSize {α : Type} (io : Nat → α → M (Int × List UInt8)) (length : Nat) :
    Int → List α → M (Option Int × List UInt8)
  | left, [] => pure (if left > 0 then none else some (asInt length), [])
  | left, a :: as =>
      if left > 0 then do
        let r ← io left.toNat a
        if r.1 ≤ 0 then pure (some r.1, r.2)
        else do
          let rest ← fixSize io length (left - r.1) as
          pure (rest.1, r.2 ++ rest.2)
      else pure (some (asInt length), [])

/-- `Stream::readFixSize(ba, length)` -/
def readFixSize (length : Nat) (turns : List (Turn (List UInt8))) : M (Option Int × List UInt8) :=
  fixSize SocketStream.read length (asInt64 length) turns

/-- `Stream::writeFixSize(ba, length)` -/
def writeFixSize (length : Nat) (turns : List (Turn Nat)) : M (Option Int × List UInt8) :=
  fixSize SocketStream.write length (asInt64 length) turns

end Stream

/-! ### What the socket answers -/

/-- What a call returns that is offered so many bytes, or room for them. -/
def Answer.result {α : Type} (size : α → Nat) (offered : Nat) : Answer α → Int
  | .disconnected => -1
  | .error code => -code
  | .ready x => (min (size x) offered : Nat)

/-- The bytes that arrive. -/
def Answer.data : Answer (List UInt8) → List UInt8
  | .ready data => data
  | _ => []

namespace Stream

/-- The results, turn by turn, each turn being offered what those before it have left. -/
def results {α : Type} (size : α → Nat) : Nat → List (Turn α) → List Int
  | _, [] => []
  | offered, turn :: turns =>
      let rt := turn.2.result size offered
      rt :: results size (offered - rt.toNat) turns

/-- The results up to the first that is not positive. -/
def passed (rts : List Int) : List Int := rts.takeWhile (0 < ·)

/-- The bytes that a loop is about. -/
def asked (length : Nat) : Nat := (asInt64 length).toNat

/-- What the loop returns: the length, when the results add up to it, and otherwise the first that
is not positive. -/
def returned (length left : Nat) (rts : List Int) : Option Int :=
  if (passed rts).sum = left then some (asInt length) else (rts.dropWhile (0 < ·)).head?

/-- The bytes that results count of what has arrived, turn by turn. -/
def arrived (rts : List Int) (turns : List (Turn (List UInt8))) : List UInt8 :=
  (List.zipWith (fun rt turn => turn.2.data.take rt.toNat) rts turns).flatten

end Stream

section Answers

variable {α : Type} {size : α → Nat}

theorem Answer.result_le (offered : Nat) (answer : Answer α) :
    answer.result size offered ≤ offered := by
  cases answer with
  | disconnected =>
      show (-1 : Int) ≤ offered
      omega
  | error code =>
      show -(code : Int) ≤ offered
      omega
  | ready x => exact Int.ofNat_le.mpr (Nat.min_le_right _ _)

namespace Stream

@[simp] theorem passed_nil : passed [] = [] := rfl

theorem passed_of_pos {rt : Int} (h : 0 < rt) (rts : List Int) :
    passed (rt :: rts) = rt :: passed rts :=
  List.takeWhile_cons_of_pos (decide_eq_true h)

theorem passed_of_nonpos {rt : Int} (h : rt ≤ 0) (rts : List Int) : passed (rt :: rts) = [] :=
  List.takeWhile_cons_of_neg (by simpa using h)

theorem returned_of_nonpos {length left : Nat} {rt : Int} (h : rt ≤ 0) (hleft : 0 < left)
    (rts : List Int) : returned length left (rt :: rts) = some rt := by
  have hdrop : (rt :: rts).dropWhile (fun rt : Int => decide (0 < rt)) = rt :: rts :=
    List.dropWhile_cons_of_neg (by simpa using h)
  rw [returned, passed_of_nonpos h, hdrop, List.sum_nil, if_neg (by omega)]
  rfl

theorem returned_of_pos {length left : Nat} {rt : Int} (h : 0 < rt) (hle : rt ≤ left)
    (rts : List Int) :
    returned length left (rt :: rts) = returned length (left - rt.toNat) rts := by
  have hdrop : (rt :: rts).dropWhile (fun rt : Int => decide (0 < rt)) =
      rts.dropWhile fun rt => decide (0 < rt) := List.dropWhile_cons_of_pos (decide_eq_true h)
  rw [returned, returned, passed_of_pos h, hdrop, List.sum_cons]
  by_cases hdone : (passed rts).sum = (left - rt.toNat : Nat)
  · rw [if_pos hdone, if_pos (by omega)]
  · rw [if_neg hdone, if_neg (by omega)]

/-- The bytes that go through are at least as many as the turns. -/
theorem length_passed_le (rts : List Int) : ((passed rts).length : Int) ≤ (passed rts).sum := by
  induction rts with
  | nil => exact Int.le_refl 0
  | cons rt rts ih =>
      rcases Int.lt_or_le 0 rt with h | h
      · rw [passed_of_pos h, List.length_cons, List.sum_cons]
        omega
      · rw [passed_of_nonpos h]
        exact Int.le_refl 0

theorem length_results (offered : Nat) (turns : List (Turn α)) :
    (results size offered turns).length = turns.length := by
  induction turns generalizing offered with
  | nil => rfl
  | cons turn turns ih => rw [results, List.length_cons, List.length_cons, ih]

/-- As many turns as bytes are asked for are enough. -/
theorem returned_isSome {length left : Nat} {rts : List Int} (hlength : left ≤ rts.length)
    (hle : (passed rts).sum ≤ left) : (returned length left rts).isSome := by
  unfold returned
  split_ifs with hsum
  · rfl
  · rw [List.isSome_head?]
    intro hnil
    -- every turn has gone through, and not enough bytes
    have hall : passed rts = rts := by
      have happend : passed rts ++ rts.dropWhile (fun rt => decide (0 < rt)) = rts :=
        List.takeWhile_append_dropWhile
      rwa [hnil, List.append_nil] at happend
    have hcount := length_passed_le rts
    rw [hall] at hcount hsum hle
    omega

end Stream

end Answers

/-! ### What turns add up to -/

namespace ByteArray

/-- The bytes `out`, from the position of `s` on, have been handed to the socket. -/
structure Sent (s t : ByteArray) (out : List UInt8) : Prop where
  window : out = slice s.bytes s.m_position out.length
  room : s.m_position + out.length ≤ s.m_size
  after : t = { s with m_position := s.m_position + out.length, m_cur := t.m_cur }

/-- The bytes `got` have been stored from the position of `s` on, behind which the array
may have grown. -/
structure Received (s t : ByteArray) (got : List UInt8) : Prop where
  position : t.m_position = s.m_position + got.length
  size : t.m_size = max s.m_size (s.m_position + got.length)
  capacity : s.m_capacity ≤ t.m_capacity
  stored : slice t.bytes s.m_position got.length = got
  kept : ∀ i < s.m_capacity, i < s.m_position ∨ s.m_position + got.length ≤ i →
    t.bytes[i]? = s.bytes[i]?

theorem Sent.refl {s : ByteArray} (h : s.Inv) : Sent s s [] :=
  ⟨(slice_zero _ _).symm, h.pos_le_size, rfl⟩

theorem Sent.trans {s t u : ByteArray} {out out' : List UInt8} (h : Sent s t out)
    (h' : Sent t u out') : Sent s u (out ++ out') := by
  have ht := h.after
  have hbytes : t.bytes = s.bytes := by rw [ht]; rfl
  have hpos : t.m_position = s.m_position + out.length := by rw [ht]
  have hsize : t.m_size = s.m_size := by rw [ht]
  refine ⟨?_, ?_, ?_⟩
  · have hout := h'.window
    rw [hbytes, hpos] at hout
    rw [List.length_append, slice_add, ← h.window, ← hout]
  · have hroom := h'.room
    rw [List.length_append]
    omega
  · have hu := h'.after
    rw [ht] at hu
    rw [List.length_append, ← Nat.add_assoc]
    exact hu

theorem Received.refl {s : ByteArray} (h : s.Inv) : Received s s [] := by
  have hle := h.pos_le_size
  refine ⟨rfl, ?_, Nat.le_refl _, slice_zero _ _, fun _ _ _ => rfl⟩
  simp only [List.length_nil]
  omega

/-- Windows of two lists that have the same entries there. -/
theorem slice_congr {l l' : List UInt8} {p n : Nat} (h : ∀ i, p ≤ i → i < p + n → l[i]? = l'[i]?) :
    slice l p n = slice l' p n := by
  apply List.ext_getElem?
  intro i
  rw [getElem?_slice, getElem?_slice]
  split_ifs with hi
  · exact h (p + i) (by omega) (by omega)
  · rfl

theorem Received.trans {s t u : ByteArray} {got got' : List UInt8} (ht : t.Inv)
    (h : Received s t got) (h' : Received t u got') : Received s u (got ++ got') := by
  have hcap := h.capacity
  have hcap' := h'.capacity
  have hpos := h.position
  have hle := ht.pos_le_capacity
  refine ⟨?_, ?_, hcap.trans hcap', ?_, fun i hi hout => ?_⟩
  · rw [h'.position, hpos, List.length_append, Nat.add_assoc]
  · rw [h'.size, h.size, hpos, List.length_append]
    omega
  · -- the second turn stores behind the first one
    have hfirst : slice u.bytes s.m_position got.length = got :=
      (slice_congr fun i _ hi => h'.kept i (by omega) (.inl (by omega))).trans h.stored
    have hsecond := h'.stored
    rw [hpos] at hsecond
    rw [List.length_append, slice_add, hfirst, hsecond]
  · rw [List.length_append] at hout
    rw [h'.kept i (by omega) (by omega), h.kept i hi (by omega)]

/-! ### One turn -/

theorem getReadBuffers_spec {s : ByteArray} (h : s.Inv) (len : Nat) :
    ∃ iovs, getReadBuffers len s = .ok (min len s.getReadSize, iovs) s ∧
      Tiles s.m_baseSize iovs s.m_position (min len s.getReadSize) := by
  have hmin : (if len > s.getReadSize then s.getReadSize else len) = min len s.getReadSize := by
    split <;> omega
  unfold getReadBuffers
  simp only [hmin]
  by_cases h0 : min len s.getReadSize = 0
  · rw [if_pos h0, h0]
    exact ⟨[], rfl, rfl⟩
  · have hsize : s.m_position + s.getReadSize = s.m_size := by
      have := h.pos_le_size
      unfold getReadSize
      omega
    have hle := h.size_le_capacity
    have hpos : 0 < min len s.getReadSize := by omega
    have hroom : s.m_position + min len s.getReadSize ≤ s.m_capacity := by omega
    obtain ⟨iovs, hw, ht⟩ := walkFrom_spec h hpos hroom
    rw [if_neg h0, hw]
    exact ⟨iovs, rfl, ht⟩

/-- The room the pieces of a window have. -/
theorem Tiles.sum {B : Nat} {iovs : List Iov} {a size : Nat} (h : Tiles B iovs a size) :
    (iovs.map (·.iov_len)).sum = size := by
  induction iovs generalizing a size with
  | nil => exact h.symm
  | cons v vs ih =>
      obtain ⟨-, -, hle, hrest⟩ := h
      rw [List.map_cons, List.sum_cons, ih hrest]
      omega

/-- What `recvmsg` stores through the pieces of a window. -/
theorem recvmsg_spec {s : ByteArray} (h : s.Inv) {iovs : List Iov} {size : Nat}
    (ht : Tiles s.m_baseSize iovs s.m_position size)
    (hroom : s.m_position + size ≤ s.m_capacity) (data : List UInt8) :
    ∃ t, recvmsg iovs data s = .ok (data.take size) t ∧ t.Inv ∧
      t = { s with m_nodes := t.m_nodes } ∧
      t.bytes = splice s.bytes s.m_position (data.take size) := by
  have hcap := h.capacity
  refine ⟨{ s with m_nodes := scatter s.m_nodes iovs (data.take size) }, ?_,
    ⟨h.base_pos, ?_, h.blocks.scatter _ _, ?_, h.pos_le_size, h.size_le_capacity, ?_⟩, rfl,
    scatter_of_tiles_le h.blocks ht (by rw [List.length_take]; omega) (by omega)⟩
  · unfold recvmsg
    rw [Tiles.sum ht]
  · intro hnil
    have hlen := congrArg List.length hnil
    rw [scatter_length] at hlen
    exact h.root (List.length_eq_zero_iff.mp hlen)
  · simp only [scatter_length, hcap]
  · simp only [scatter_length, h.cur]

/-- Fresh blocks are behind the old bytes. -/
theorem Grown.kept {size : Nat} {s t : ByteArray} {junk : Junk} (h : s.Inv)
    (hG : Grown size s t junk) : s.m_capacity ≤ t.m_capacity ∧
      ∀ i < s.m_capacity, t.bytes[i]? = s.bytes[i]? := by
  have hlen := h.length_bytes
  have hlen' := hG.inv.length_bytes
  have hprefix : s.bytes <+: t.bytes := by
    rw [ByteArray.bytes, ByteArray.bytes, hG.grown]
    split_ifs
    · exact List.prefix_rfl
    · rw [content_append]
      exact List.prefix_append _ _
  refine ⟨by rw [← hlen, ← hlen']; exact hprefix.length_le, fun i hi => ?_⟩
  obtain ⟨more, hmore⟩ := hprefix
  rw [← hmore, List.getElem?_append_left (by omega)]

/-- Bytes stored at the position, after growing for at least as many. -/
theorem Grown.stores {size : Nat} {s g t : ByteArray} {junk : Junk} {d : List UInt8} (h : s.Inv)
    (hG : Grown size s g junk) (hle : d.length ≤ size)
    (hposition : t.m_position = s.m_position + d.length)
    (hsize : t.m_size = max s.m_size (s.m_position + d.length))
    (hcapacity : t.m_capacity = g.m_capacity)
    (hbytes : t.bytes = splice g.bytes s.m_position d) : Received s t d := by
  obtain ⟨hcap, hkept⟩ := hG.kept h
  have hlength := hG.inv.length_bytes
  have hroom := hG.room
  have hpos := hG.position
  refine ⟨hposition, hsize, by omega, ?_, fun i hi hother => ?_⟩
  · rw [hbytes]
    exact slice_splice_self (by omega)
  · rw [hbytes, getElem?_splice _ _ _ _ (by omega), if_neg (by omega), hkept i hi]

/-- Growing receives nothing. -/
theorem Grown.received {size : Nat} {s t : ByteArray} {junk : Junk} (h : s.Inv)
    (hG : Grown size s t junk) : Received s t [] := by
  obtain ⟨hcap, hkept⟩ := hG.kept h
  have hle := h.pos_le_size
  refine ⟨hG.position, ?_, hcap, slice_zero _ _, fun i hi _ => hkept i hi⟩
  rw [hG.size_eq, List.length_nil]
  omega

end ByteArray

namespace SocketStream

open Will.ByteArray

/-- `setPosition` behind bytes the array has room for does not throw. -/
theorem advance_spec {s : ByteArray} (h : s.Inv) {bytes : List UInt8}
    (hroom : s.m_position + bytes.length ≤ s.m_capacity) :
    ∃ t, advance bytes s = .ok (bytes.length, bytes) t ∧ t.Inv ∧
      t = { s with
        m_position := s.m_position + bytes.length
        m_size := max s.m_size (s.m_position + bytes.length)
        m_cur := t.m_cur } := by
  unfold advance
  by_cases hlen : bytes.length > 0
  · obtain ⟨t, ht, hinv, heq⟩ := setPosition_spec h hroom
    refine ⟨t, ?_, hinv, heq⟩
    rw [if_pos hlen]
    exact (run_bind_ok (run_get s)).trans (run_bind_ok ht)
  · have hnil : bytes = [] := List.length_eq_zero_iff.mp (by omega)
    have hle := h.pos_le_size
    subst hnil
    refine ⟨s, rfl, h, ?_⟩
    rw [List.length_nil, Nat.add_zero, max_eq_left hle]

/-- **A turn of `write`** hands over a piece of the array and moves the position behind
it. -/
theorem write_spec {s : ByteArray} (h : s.Inv) (length : Nat) (turn : Turn Nat) :
    ∃ out t, write length turn s = .ok (turn.2.result id (min length s.getReadSize), out) t ∧
      out.length = (turn.2.result id (min length s.getReadSize)).toNat ∧ t.Inv ∧ Sent s t out := by
  obtain ⟨iovs, hbuffers, htiles⟩ := getReadBuffers_spec h length
  obtain ⟨junk, answer⟩ := turn
  cases answer with
  | disconnected => exact ⟨[], s, rfl, rfl, h, .refl h⟩
  | error code =>
      refine ⟨[], s, run_bind_ok hbuffers, ?_, h, .refl h⟩
      show 0 = (-(code : Int)).toNat
      omega
  | ready room =>
      have hps := h.pos_le_size
      have hsc := h.size_le_capacity
      have hcap := h.capacity
      have hread : s.getReadSize = s.m_size - s.m_position := rfl
      have hgather : gather s.m_nodes iovs =
          slice s.bytes s.m_position (min length s.getReadSize) :=
        gather_of_tiles h.blocks htiles (by omega)
      have hbytes := h.length_bytes
      have hlen : ((gather s.m_nodes iovs).take room).length =
          min room (min length s.getReadSize) := by
        rw [hgather, List.length_take, length_slice]
        omega
      -- the bytes of the pieces that the socket takes are the front of the window
      have hout : (gather s.m_nodes iovs).take room =
          slice s.bytes s.m_position ((gather s.m_nodes iovs).take room).length := by
        rw [hlen, hgather]
        unfold slice
        rw [List.take_take]
      have hroom : s.m_position + ((gather s.m_nodes iovs).take room).length ≤ s.m_capacity := by
        omega
      obtain ⟨t, ht, hinv, heq⟩ := advance_spec h hroom
      refine ⟨_, t, (run_bind_ok hbuffers).trans (ht.trans ?_), hlen, hinv, hout, by omega, ?_⟩
      · rw [hlen]
        rfl
      · rw [max_eq_left (by omega)] at heq
        exact heq

/-- **A turn of `read`** stores what the socket gives at the position and moves the
position behind it. -/
theorem read_spec {s : ByteArray} (h : s.Inv) (length : Nat) (turn : Turn (List UInt8)) :
    ∃ t, read length turn s = .ok (turn.2.result List.length length,
        turn.2.data.take (turn.2.result List.length length).toNat) t ∧ t.Inv ∧
      Received s t (turn.2.data.take (turn.2.result List.length length).toNat) := by
  obtain ⟨junk, answer⟩ := turn
  obtain ⟨g, iovs, hbuffers, hG, htiles⟩ := getWriteBuffers_spec h junk length
  cases answer with
  | disconnected => exact ⟨s, rfl, h, .refl h⟩
  | error code =>
      have htake : ∀ n : Nat, (Answer.data (.error code)).take n = [] := fun n => List.take_nil
      rw [htake]
      exact ⟨g, run_bind_ok hbuffers, hG.inv, hG.received h⟩
  | ready data =>
      have hroom := hG.room
      rw [← hG.base, ← hG.position] at htiles
      obtain ⟨m, hm, hminv, hmeq, hmbytes⟩ := recvmsg_spec hG.inv htiles hroom data
      have htake : data.take (Answer.result List.length length (.ready data)).toNat =
          data.take length := by
        show data.take (min data.length length) = _
        rw [List.take_eq_take_iff, Nat.min_assoc, Nat.min_comm length, ← Nat.min_assoc,
          Nat.min_self]
      have hlen : (data.take length).length ≤ length := List.length_take_le ..
      have hmpos : m.m_position = g.m_position := by rw [hmeq]
      have hmsize : m.m_size = g.m_size := by rw [hmeq]
      have hmcap : m.m_capacity = g.m_capacity := by rw [hmeq]
      have hend : m.m_position + (data.take length).length ≤ m.m_capacity := by omega
      obtain ⟨t, ht, hinv, heq⟩ := advance_spec hminv hend
      show ∃ t, _ = EStateM.Result.ok (_, data.take _) t ∧ _ ∧ Received s t (data.take _)
      rw [htake]
      refine ⟨t, (run_bind_ok hbuffers).trans ((run_bind_ok hm).trans (ht.trans ?_)), hinv,
        hG.stores h hlen ?_ ?_ ?_ ?_⟩
      · rw [List.length_take, Nat.min_comm]
        rfl
      · rw [heq, hmpos, hG.position]
      · rw [heq]
        show max m.m_size (m.m_position + _) = _
        rw [hmsize, hmpos, hG.size_eq, hG.position]
      · rw [heq]
        exact hmcap
      · rw [heq, ← hG.position]
        exact hmbytes

end SocketStream

/-! ### The loops -/

namespace Stream

open Will.ByteArray SocketStream

/-- What a loop does with each of its turns: `offered` is what it can offer of so many bytes, `T`
holds of the arrays before and after a turn, and `R` of those before and after the turns that went
through, with their results. -/
structure Turns {α : Type} (size : α → Nat) (io : Nat → Turn α → M (Int × List UInt8))
    (offered : ByteArray → Nat → Nat)
    (R : List Int → List (Turn α) → ByteArray → ByteArray → List UInt8 → Prop) : Prop where
  offered_le : ∀ s n, offered s n ≤ n
  turn : ∀ {s : ByteArray}, s.Inv → ∀ n a, ∃ bs t,
    io n a s = .ok (a.2.result size (offered s n), bs) t ∧
      bs.length = (a.2.result size (offered s n)).toNat ∧ t.Inv ∧
      offered t (n - bs.length) = offered s n - bs.length ∧
      -- a turn without a byte ends the loop
      (bs = [] → ∀ as, R [] as s t []) ∧
      ∀ {rts : List Int} {as : List (Turn α)} {u : ByteArray} {bs' : List UInt8},
        R rts as t u bs' → R (bs.length :: rts) (a :: as) s u (bs ++ bs')
  done : ∀ {s : ByteArray}, s.Inv → ∀ as, R [] as s s []

/-- **The loop** returns what the results of the socket say. -/
theorem fixSize_spec {α : Type} {size : α → Nat} {io : Nat → Turn α → M (Int × List UInt8)}
    {offered : ByteArray → Nat → Nat}
    {R : List Int → List (Turn α) → ByteArray → ByteArray → List UInt8 → Prop}
    (hio : Turns size io offered R) (length : Nat) (left : Int) (turns : List (Turn α))
    {s : ByteArray} (h : s.Inv) :
    ∃ rts bs t, rts = results size (offered s left.toNat) turns ∧
      fixSize io length left turns s = .ok (returned length left.toNat rts, bs) t ∧ t.Inv ∧
      R (passed rts) turns s t bs ∧ (bs.length : Int) = (passed rts).sum ∧
      bs.length ≤ left.toNat := by
  induction turns generalizing left s with
  | nil =>
      refine ⟨[], [], s, rfl, ?_, h, hio.done h [], rfl, Nat.zero_le _⟩
      unfold fixSize returned
      rw [passed_nil, List.sum_nil]
      by_cases hleft : left > 0
      · rw [if_pos hleft, if_neg (by omega)]
        rfl
      · rw [if_neg hleft, if_pos (by omega)]
        rfl
  | cons a as ih =>
      obtain ⟨bs, t, ht, hlen, hinv, hoffered, hstop, hgo⟩ := hio.turn h left.toNat a
      have hle : a.2.result size (offered s left.toNat) ≤ offered s left.toNat :=
        Answer.result_le (offered s left.toNat) a.2
      have hoff := hio.offered_le s left.toNat
      unfold fixSize
      refine ⟨results size (offered s left.toNat) (a :: as), ?_⟩
      generalize hrt : a.2.result size (offered s left.toNat) = rt at *
      by_cases hleft : left > 0
      · rw [if_pos hleft, run_bind_ok ht]
        by_cases hpos : rt ≤ 0
        · -- an error, or no byte: the loop returns it
          have hnil : bs = [] := List.length_eq_zero_iff.mp (by omega)
          refine ⟨[], t, rfl, ?_, hinv, ?_, ?_, Nat.zero_le _⟩
          · rw [if_pos hpos, hnil, results, hrt, returned_of_nonpos hpos (by omega)]
            rfl
          · rw [results, hrt, passed_of_nonpos hpos]
            exact hstop hnil _
          · rw [results, hrt, passed_of_nonpos hpos]
            rfl
        · have hcount : (bs.length : Int) = rt := by omega
          have hnext : (left - rt).toNat = left.toNat - bs.length := by omega
          obtain ⟨rts, bs', u, hrts, hu, huinv, hR, hsum, hbs'⟩ := ih (left - rt) hinv
          rw [hnext, hoffered, hlen] at hrts
          have hall : results size (offered s left.toNat) (a :: as) = rt :: rts := by
            rw [results, hrt, hrts]
          refine ⟨bs ++ bs', u, rfl, ?_, huinv, ?_, ?_, ?_⟩
          · rw [if_neg hpos, hall]
            refine (run_bind_ok hu).trans ?_
            rw [returned_of_pos (by omega) (by omega), ← hlen, ← hnext]
            rfl
          · rw [hall, passed_of_pos (by omega), ← hcount]
            exact hgo hR
          · rw [hall, passed_of_pos (by omega), List.sum_cons, List.length_append]
            omega
          · rw [List.length_append]
            omega
      · -- nothing is left, and nothing would be offered
        have hpos : rt ≤ 0 := by omega
        refine ⟨[], s, rfl, ?_, h, ?_, ?_, Nat.zero_le _⟩
        · rw [if_neg hleft, results, hrt, returned, passed_of_nonpos hpos, List.sum_nil,
            if_pos (by omega)]
          rfl
        · rw [results, hrt, passed_of_nonpos hpos]
          exact hio.done h _
        · rw [results, hrt, passed_of_nonpos hpos]
          rfl

theorem write_turns : Turns id SocketStream.write (fun s n => min n s.getReadSize)
    fun _ _ s t out => Sent s t out where
  offered_le s n := Nat.min_le_left _ _
  turn {s} h n a := by
    obtain ⟨out, t, ht, hlen, hinv, hsent⟩ := SocketStream.write_spec h n a
    refine ⟨out, t, ht, hlen, hinv, ?_, fun hnil _ => hnil ▸ hsent, fun hR => hsent.trans hR⟩
    have hroom := hsent.room
    have hsize : t.getReadSize = s.getReadSize - out.length := by
      rw [hsent.after]
      show s.m_size - (s.m_position + out.length) = s.m_size - s.m_position - out.length
      omega
    rw [hsize]
    omega
  done h _ := Sent.refl h

theorem read_turns : Turns List.length SocketStream.read (fun _ n => n)
    fun rts turns s t got => Received s t got ∧ got = arrived rts turns where
  offered_le s n := Nat.le_refl n
  turn {s} h n a := by
    obtain ⟨t, ht, hinv, hreceived⟩ := SocketStream.read_spec h n a
    have hlen : (a.2.data.take (a.2.result List.length n).toNat).length =
        (a.2.result List.length n).toNat := by
      rw [List.length_take]
      refine Nat.min_eq_left ?_
      cases a.2 with
      | disconnected => exact Nat.zero_le _
      | error code =>
          show (-(code : Int)).toNat ≤ 0
          omega
      | ready data => exact Nat.min_le_left _ _
    refine ⟨_, t, ht, hlen, hinv, rfl, fun hnil as => ?_, fun hR => ⟨?_, ?_⟩⟩
    · rw [hnil] at hreceived
      exact ⟨hreceived, by cases as <;> rfl⟩
    · exact Received.trans hinv hreceived hR.1
    · rw [hR.2, hlen]
      rfl
  done h as := ⟨Received.refl h, by cases as <;> rfl⟩

theorem asInt64_le (length : Nat) : (asInt64 length).toNat ≤ length := by
  unfold asInt64
  simp only [Int.bmod]
  split <;> omega

/-- The arrays a program can come by: from the constructor, by calls, returning or
throwing, and by streaming. -/
inductive Reachable (host : Endian) (max_size : Nat) : ByteArray → Prop
  | new {B : Nat} (hB : 1 ≤ B) (junk : Junk) : Reachable host max_size (ByteArray.new B junk)
  | returns {s t : ByteArray} (call : Call) : Reachable host max_size s →
      call.exec host max_size s = .ok () t → Reachable host max_size t
  | throws {s t : ByteArray} {e : Exn} (call : Call) : Reachable host max_size s →
      call.exec host max_size s = .error e t → Reachable host max_size t
  | readFixSize {s t : ByteArray} {r : Option Int × List UInt8} (length : Nat)
      (turns : List (Turn (List UInt8))) : Reachable host max_size s →
      readFixSize length turns s = .ok r t → Reachable host max_size t
  | writeFixSize {s t : ByteArray} {r : Option Int × List UInt8} (length : Nat)
      (turns : List (Turn Nat)) : Reachable host max_size s →
      writeFixSize length turns s = .ok r t → Reachable host max_size t

theorem Reachable.inv {host : Endian} {max_size : Nat} {s : ByteArray}
    (h : Reachable host max_size s) : s.Inv := by
  induction h with
  | new hB junk => exact new_inv hB junk
  | returns call _ hexec ih => exact ((exec_keeps host max_size call).ok ⟨ih, rfl⟩ hexec).inv
  | throws call _ hexec ih => exact ((exec_keeps host max_size call).error ⟨ih, rfl⟩ hexec).2.inv
  | readFixSize length turns _ hrun ih =>
      obtain ⟨_, got, t, -, ht, hinv, -⟩ := fixSize_spec read_turns length _ turns ih
      rw [Stream.readFixSize, ht] at hrun
      cases hrun
      exact hinv
  | writeFixSize length turns _ hrun ih =>
      obtain ⟨_, out, t, -, ht, hinv, -⟩ := fixSize_spec write_turns length _ turns ih
      rw [Stream.writeFixSize, ht] at hrun
      cases hrun
      exact hinv

/-- **Streaming is exact**, whatever the socket answers, turn by turn.  `writeFixSize`
throws nothing; it hands over as many bytes as the results add up to, those from the position
on, each once and in order, moves the position behind them and changes nothing else.
`readFixSize` throws nothing; it stores the bytes that have arrived, as many as the results add
up to, from the position on and changes no other byte that was there, moves the position behind
them, and the size follows.  Each returns what the results say, after at most as many turns as
bytes were asked for. -/
theorem fixSize_exact {host : Endian} {max_size : Nat} {s : ByteArray}
    (h : Reachable host max_size s) (length : Nat) :
    (∀ turns, ∃ rts out t, rts = results id (min (asked length) s.getReadSize) turns ∧
      writeFixSize length turns s = .ok (returned length (asked length) rts, out) t ∧
      (out.length : Int) = (passed rts).sum ∧ out.length ≤ length ∧
      out = slice s.bytes s.m_position out.length ∧
      t.m_position = s.m_position + out.length ∧ t.m_size = s.m_size ∧ t.bytes = s.bytes ∧
      (length ≤ turns.length → (returned length (asked length) rts).isSome)) ∧
    ∀ turns, ∃ rts got t, rts = results List.length (asked length) turns ∧
      readFixSize length turns s = .ok (returned length (asked length) rts, got) t ∧
      (got.length : Int) = (passed rts).sum ∧ got.length ≤ length ∧
      got = arrived (passed rts) turns ∧ slice t.bytes s.m_position got.length = got ∧
      (∀ i < s.m_size, i < s.m_position ∨ s.m_position + got.length ≤ i →
        t.bytes[i]? = s.bytes[i]?) ∧
      t.m_position = s.m_position + got.length ∧
      t.m_size = max s.m_size (s.m_position + got.length) ∧
      (length ≤ turns.length → (returned length (asked length) rts).isSome) := by
  have hinv := h.inv
  have hle := asInt64_le length
  refine ⟨fun turns => ?_, fun turns => ?_⟩
  · obtain ⟨rts, out, t, hrts, ht, -, hsent, hsum, hlen⟩ :=
      fixSize_spec write_turns length (asInt64 length) turns hinv
    refine ⟨rts, out, t, hrts, ht, hsum, hlen.trans hle, hsent.window, ?_, ?_, ?_,
      fun hturns => returned_isSome ?_ ?_⟩
    · rw [hsent.after]
    · rw [hsent.after]
    · rw [hsent.after]
      rfl
    · rw [hrts, length_results]
      exact hle.trans hturns
    · rw [← hsum]
      exact Int.ofNat_le.mpr hlen
  · obtain ⟨rts, got, t, hrts, ht, -, ⟨hreceived, harrived⟩, hsum, hlen⟩ :=
      fixSize_spec read_turns length (asInt64 length) turns hinv
    refine ⟨rts, got, t, hrts, ht, hsum, hlen.trans hle, harrived, hreceived.stored,
      fun i hi => hreceived.kept i ?_, hreceived.position, hreceived.size,
      fun hturns => returned_isSome ?_ ?_⟩
    · exact Nat.lt_of_lt_of_le hi hinv.size_le_capacity
    · rw [hrts, length_results]
      exact hle.trans hturns
    · rw [← hsum]
      exact Int.ofNat_le.mpr hlen

/-- Five bytes asked for, into blocks of two: four arrive in two turns, then the stream ends. -/
theorem fixSize_exact_two :
    ∃ t : ByteArray, readFixSize 5 [(fun _ _ => 0, .ready [1, 2, 3]), (fun _ _ => 0, .ready [4]),
        (fun _ _ => 0, .ready [])] (ByteArray.new 2 fun _ _ => 0) = .ok (some 0, [1, 2, 3, 4]) t ∧
      slice t.bytes 0 4 = [1, 2, 3, 4] ∧ t.m_position = 4 := by
  have hnew : Reachable .little 64 (ByteArray.new 2 fun _ _ => 0) := .new (by decide) _
  obtain ⟨rts, got, t, hrts, ht, -, -, hgot, hstored, -, hposition, -⟩ :=
    (fixSize_exact hnew 5).2 [(fun _ _ => 0, .ready [1, 2, 3]), (fun _ _ => 0, .ready [4]),
      (fun _ _ => 0, .ready [])]
  have hasked : asked 5 = 5 := by
    unfold asked asInt64
    decide
  rw [hasked] at hrts ht
  subst hrts
  obtain rfl : got = [1, 2, 3, 4] := hgot
  exact ⟨t, ht, hstored, hposition⟩

end Stream

end Will
