/-
ZjhServer/Hook/Connection.lean

A connected socket under `do_io` (server/hook.cc), as the programs above it see it through
`SocketStream::read` and `SocketStream::write` (server/socket_stream.cc).

Below is the kernel's end of the connection, which never waits: it refuses a call for a signal
that has come, for want of data or of room.  Above is the `Session` of Http/Server.lean, whose
reads and sends are given and are never refused.  Whatever the peer, the signals and the timers do
to the one, there are reads and sends with which the other gives a program the same answers; the
bytes go over in the order in which they came, none of them twice (`connection_refines`).
If no wait fails and the connection does not break, every read brings something until the
peer has ended, and every send takes something.
-/
import ZjhServer.Hook.Io
import ZjhServer.Http.Server

namespace Will

namespace Hook

namespace Io

open Http (Bytes Session)

/-! ### The connection -/

/-- The kernel's end of a connection, and the memory that its user reads into. -/
structure Conn where
  /-- received and not yet read -/
  buffer : Bytes
  /-- what the peer sends yet -/
  coming : Bytes
  /-- the peer ends the stream there -/
  shut : Bool
  error : Option Int
  room : Nat
  sent : Bytes
  signals : Nat
  memory : Bytes
  deriving DecidableEq, Repr

namespace Conn

/-- What there is to read, now or later. -/
def stream (k : Conn) : Bytes := k.buffer ++ k.coming

/-- `recv_f(fd, buf, len, flags)` on a descriptor in non-blocking mode -/
def recv_f (len : Nat) (k : Conn) : Answer × Conn :=
  if 0 < k.signals then (⟨-1, EINTR⟩, { k with signals := k.signals - 1 })
  else if len = 0 then (⟨0, 0⟩, { k with memory := [] })
  else if k.buffer ≠ [] then
    let data := k.buffer.take (min len Http.Socket.MAX_RW_COUNT)
    (⟨data.length, 0⟩,
      { k with memory := data, buffer := k.buffer.drop (min len Http.Socket.MAX_RW_COUNT) })
  else
    match k.error with
    | some errno => (⟨-1, errno⟩, k)
    | none =>
        if k.shut = true ∧ k.coming = [] then (⟨0, 0⟩, { k with memory := [] })
        else (⟨-1, EAGAIN⟩, k)

/-- `send_f(fd, msg, len, flags)` -/
def send_f (data : Bytes) (k : Conn) : Answer × Conn :=
  if 0 < k.signals then (⟨-1, EINTR⟩, { k with signals := k.signals - 1 })
  else
    match k.error with
    | some errno => (⟨-1, errno⟩, k)
    | none =>
        if data = [] then (⟨0, 0⟩, k)
        else if k.room = 0 then (⟨-1, EAGAIN⟩, k)
        else
          let n := min (min data.length Http.Socket.MAX_RW_COUNT) k.room
          (⟨n, 0⟩, { k with sent := k.sent ++ data.take n, room := k.room - n })

end Conn

/-- What a `recv` that has returned `a` has read. -/
def Conn.bytes (k : Conn) (a : Answer) : Bytes := if 0 < a.n then k.memory else []

/-- What happens to a connection from outside. -/
inductive Event
  /-- bytes arrive -/
  | arrive (n : Nat)
  /-- the peer takes what has been sent -/
  | drain (n : Nat)
  | signal
  /-- the peer ends the stream -/
  | shut
  | fail (errno : Int)
  deriving DecidableEq, Repr

namespace Event

def apply : Event → Conn → Conn
  | arrive n, k => { k with buffer := k.buffer ++ k.coming.take n, coming := k.coming.drop n }
  | drain n, k => { k with room := k.room + n }
  | signal, k => { k with signals := k.signals + 1 }
  | shut, k => { k with shut := true }
  | fail errno, k => { k with error := some errno }

def applyAll (events : List Event) (k : Conn) : Conn := events.foldl (fun k e => e.apply k) k

def isFail : Event → Bool
  | fail _ => true
  | arrive _ | drain _ | signal | shut => false

end Event

/-- A wait in a call: what `addEvent` does, what happens until the fiber is resumed, and whether
its timer has expired by then. -/
structure Pause where
  addEvent : Bool
  errno : Int
  events : List Event
  expired : Bool
  deriving DecidableEq, Repr

def Pause.wait (p : Pause) : Wait Conn := ⟨p.addEvent, p.errno, Event.applyAll p.events, p.expired⟩

/-- A call: what happens before it, and its waits. -/
structure Turn where
  before : List Event
  pauses : List Pause
  deriving DecidableEq, Repr

def Turn.waits (t : Turn) : List (Wait Conn) := t.pauses.map Pause.wait

variable (t_hook_enable : Bool) (ctx : Option FdCtx) (fuel : Nat)

/-- `SocketStream::read` on the connection; the bytes read, none if the call fails. -/
def read (length : Nat) (t : Turn) (k : Conn) : Option (Bytes × Conn) :=
  (do_io t_hook_enable ctx SO_RCVTIMEO (Conn.recv_f length) fuel t.waits
    (Event.applyAll t.before k)).map fun o =>
      (o.kernel.bytes o.answer, o.kernel)

/-- `SocketStream::write` on the connection -/
def write (data : Bytes) (t : Turn) (k : Conn) : Option (Int × Conn) :=
  (do_io t_hook_enable ctx SO_SNDTIMEO (Conn.send_f data) fuel t.waits
    (Event.applyAll t.before k)).map fun o => (o.answer.n, o.kernel)

/-! ### Programs -/

/-- A program that uses one stream; what it does next may depend on all that it has got. -/
inductive Prog (α : Type)
  | ret (a : α)
  | read (length : Nat) (next : Bytes → Prog α)
  | write (data : Bytes) (next : Int → Prog α)

namespace Prog

variable {α β : Type}

def bind : Prog α → (α → Prog β) → Prog β
  | ret a, f => f a
  | read length next, f => read length fun data => (next data).bind f
  | write data next, f => write data fun n => (next n).bind f

/-- A program over the connection, one turn for each call. -/
def hooked : Prog α → List Turn → Conn → Option (α × Conn)
  | ret a, _, k => some (a, k)
  | read _ _, [], _ => none
  | write _ _, [], _ => none
  | read length next, t :: ts, k =>
      (Io.read t_hook_enable ctx fuel length t k).bind fun r => (next r.1).hooked ts r.2
  | write data next, t :: ts, k =>
      (Io.write t_hook_enable ctx fuel data t k).bind fun r => (next r.1).hooked ts r.2

/-- A program over the session above. -/
def onSession : Prog α → Session → α × Session
  | ret a, s => (a, s)
  | read length next, s =>
      let r := s.sock.read length
      (next r.1).onSession { s with sock := r.2 }
  | write data next, s =>
      let r := s.write data
      (next r.1).onSession r.2

theorem over_bind (p : Prog α) (f : α → Prog β) (s : Session) :
    (p.bind f).onSession s = (f (p.onSession s).1).onSession (p.onSession s).2 := by
  induction p generalizing s with
  | ret a => rfl
  | read length next ih => exact ih _ _
  | write data next ih => exact ih _ _

end Prog

/-! ### One call -/

/-- What a connection is about to give and has taken. -/
structure Conn.Same (k k' : Conn) : Prop where
  stream : k'.stream = k.stream
  sent : k'.sent = k.sent

/-- Nothing has failed for good. -/
def Conn.Sound (k : Conn) : Prop := k.error = none

theorem Event.apply_same (e : Event) (k : Conn) : k.Same (e.apply k) := by
  cases e with
  | arrive n =>
      refine ⟨?_, rfl⟩
      show (k.buffer ++ k.coming.take n) ++ k.coming.drop n = k.buffer ++ k.coming
      rw [List.append_assoc, List.take_append_drop]
  | drain | signal | shut | fail => exact ⟨rfl, rfl⟩

theorem Event.applyAll_same (events : List Event) (k : Conn) :
    k.Same (applyAll events k) := by
  induction events generalizing k with
  | nil => exact ⟨rfl, rfl⟩
  | cons e events ih =>
      have hfirst := e.apply_same k
      have hrest := ih (e.apply k)
      exact ⟨hrest.stream.trans hfirst.stream, hrest.sent.trans hfirst.sent⟩

theorem Event.applyAll_sound {events : List Event} {k : Conn}
    (hfair : ∀ e ∈ events, e.isFail = false) (hk : k.Sound) : (applyAll events k).Sound := by
  induction events generalizing k with
  | nil => exact hk
  | cons e events ih =>
      refine ih (fun e' he' => hfair e' (List.mem_cons_of_mem _ he')) ?_
      cases e with
      | arrive | drain | signal | shut => exact hk
      | fail errno => cases hfair _ List.mem_cons_self

theorem refused_count (n : Nat) (errno : Int) : (Answer.mk n errno).refused = false := by
  have hn : ((n : Int) = -1) = False := eq_false fun h => by omega
  simp only [Answer.refused, Answer.interrupted, Answer.again, hn, decide_false, Bool.false_and,
    Bool.or_self]

/-- What `recv_f` has done when it answers. -/
structure Conn.Received (len : Nat) (k : Conn) (a : Answer) (k' : Conn) : Prop where
  stream : k.stream = k'.bytes a ++ k'.stream
  sent : k'.sent = k.sent
  length : (k'.bytes a).length ≤ min len Http.Socket.MAX_RW_COUNT

theorem Conn.recv_f_received (len : Nat) (k : Conn) :
    k.Received len (k.recv_f len).1 (k.recv_f len).2 := by
  unfold recv_f
  split_ifs with hsignal hlen hbuffer hend
  · exact ⟨rfl, rfl, Nat.zero_le _⟩
  · exact ⟨rfl, rfl, Nat.zero_le _⟩
  · -- the front of the buffer goes to the reader
    have hmax : 0 < Http.Socket.MAX_RW_COUNT := by decide
    have hpos : (0 : Int) < (k.buffer.take (min len Http.Socket.MAX_RW_COUNT)).length := by
      have := List.length_pos_of_ne_nil hbuffer
      rw [List.length_take]
      omega
    refine ⟨?_, rfl, ?_⟩
    · rw [bytes, if_pos hpos, stream, stream, ← List.append_assoc, List.take_append_drop]
    · rw [bytes, if_pos hpos, List.length_take]
      exact Nat.min_le_left _ _
  · split
    · exact ⟨rfl, rfl, Nat.zero_le _⟩
    · exact ⟨rfl, rfl, Nat.zero_le _⟩
  · split
    · exact ⟨rfl, rfl, Nat.zero_le _⟩
    · exact ⟨rfl, rfl, Nat.zero_le _⟩

/-- A refused call has done nothing. -/
theorem Conn.recv_f_refused {len : Nat} {k : Conn} (h : (k.recv_f len).1.refused = true) :
    k.Same (k.recv_f len).2 ∧ (k.recv_f len).2.error = k.error := by
  unfold recv_f at h ⊢
  split_ifs at h ⊢ with hsignal hlen hbuffer hend
  · exact ⟨⟨rfl, rfl⟩, rfl⟩
  · cases h
  · exact absurd h (Bool.eq_false_iff.mp (refused_count _ _))
  · split
    · exact ⟨⟨rfl, rfl⟩, rfl⟩
    · exact ⟨⟨rfl, rfl⟩, rfl⟩
  · split
    · exact ⟨⟨rfl, rfl⟩, rfl⟩
    · exact ⟨⟨rfl, rfl⟩, rfl⟩

/-- Nothing comes back from a sound connection only where nothing is asked for, or at the end. -/
theorem Conn.recv_f_ended {len : Nat} {k : Conn} (hsound : k.Sound)
    (htaken : (k.recv_f len).1.refused = false) :
    (k.recv_f len).2.Sound ∧
      ((k.recv_f len).2.bytes (k.recv_f len).1 = [] → len = 0 ∨ (k.recv_f len).2.stream = []) := by
  have hnone : k.error = none := hsound
  unfold recv_f at htaken ⊢
  split_ifs at htaken ⊢ with hsignal hlen hbuffer hend
  · cases htaken
  · exact ⟨hsound, fun _ => .inl hlen⟩
  · refine ⟨hsound, fun hempty => ?_⟩
    have hlength := List.length_pos_of_ne_nil hbuffer
    have hmax : 0 < Http.Socket.MAX_RW_COUNT := by decide
    have hpos : 0 < (k.buffer.take (min len Http.Socket.MAX_RW_COUNT)).length := by
      rw [List.length_take]
      omega
    have hempty' : k.buffer.take (min len Http.Socket.MAX_RW_COUNT) = [] :=
      (if_pos (Int.natCast_pos.mpr hpos)).symm.trans hempty
    exact absurd (congrArg List.length hempty') (Nat.ne_of_gt hpos)
  · simp only [hnone]
    refine ⟨rfl, fun _ => .inr ?_⟩
    show k.buffer ++ k.coming = []
    rw [Decidable.not_not.mp hbuffer, hend.2, List.append_nil]
  · simp only [hnone] at htaken
    cases htaken

/-- What `send_f` has done when it answers. -/
structure Conn.Sent (data : Bytes) (k : Conn) (a : Answer) (k' : Conn) : Prop where
  stream : k'.stream = k.stream
  sent : k'.sent = k.sent ++ data.take a.n.toNat
  length : a.n ≤ data.length

theorem Conn.Sent.failed (data : Bytes) (k : Conn) (errno : Int) : k.Sent data ⟨-1, errno⟩ k :=
  ⟨rfl, (List.append_nil _).symm, by show (-1 : Int) ≤ data.length; omega⟩

theorem Conn.send_f_sent (data : Bytes) (k : Conn) :
    k.Sent data (k.send_f data).1 (k.send_f data).2 := by
  unfold send_f
  split_ifs with hsignal hempty hroom
  · exact ⟨rfl, (List.append_nil _).symm, by show (-1 : Int) ≤ data.length; omega⟩
  · split
    · exact .failed data k _
    · exact ⟨rfl, (List.append_nil _).symm, Int.natCast_nonneg _⟩
  · split
    · exact .failed data k _
    · exact .failed data k _
  · split
    · exact .failed data k _
    · refine ⟨rfl, rfl, ?_⟩
      show ((min (min data.length Http.Socket.MAX_RW_COUNT) k.room : Nat) : Int) ≤ data.length
      omega

theorem Conn.send_f_refused {data : Bytes} {k : Conn} (h : (k.send_f data).1.refused = true) :
    k.Same (k.send_f data).2 ∧ (k.send_f data).2.error = k.error := by
  unfold send_f at h ⊢
  split_ifs at h ⊢ with hsignal hempty hroom
  · exact ⟨⟨rfl, rfl⟩, rfl⟩
  · split
    · exact ⟨⟨rfl, rfl⟩, rfl⟩
    · exact ⟨⟨rfl, rfl⟩, rfl⟩
  · split
    · exact ⟨⟨rfl, rfl⟩, rfl⟩
    · exact ⟨⟨rfl, rfl⟩, rfl⟩
  · split at h
    · exact ⟨⟨rfl, rfl⟩, rfl⟩
    · exact absurd h (Bool.eq_false_iff.mp (refused_count _ _))

/-- A sound connection takes something of what it is given. -/
theorem Conn.send_f_takes {data : Bytes} {k : Conn} (hsound : k.Sound)
    (htaken : (k.send_f data).1.refused = false) :
    (k.send_f data).2.Sound ∧ (data = [] ∧ (k.send_f data).1.n = 0 ∨ 0 < (k.send_f data).1.n) := by
  have hnone : k.error = none := hsound
  unfold send_f at htaken ⊢
  simp only [hnone] at htaken ⊢
  split_ifs at htaken ⊢ with hsignal hempty hroom
  · cases htaken
  · exact ⟨hnone, .inl ⟨hempty, rfl⟩⟩
  · cases htaken
  · have hlength := List.length_pos_of_ne_nil hempty
    have hmax : 0 < Http.Socket.MAX_RW_COUNT := by decide
    refine ⟨rfl, .inr (Int.natCast_pos.mpr ?_)⟩
    omega

/-! ### One call of the stream -/

/-- `do_io` waits for the descriptor. -/
structure Waiting (t_hook_enable : Bool) (ctx : Option FdCtx) : Prop where
  hook : t_hook_enable = true
  managed : ∃ c, ctx = some c ∧ Managed c

/-- No wait fails and the connection does not break. -/
structure Turn.Fair (t : Turn) : Prop where
  before : ∀ e ∈ t.before, e.isFail = false
  added : ∀ p ∈ t.pauses, p.addEvent = true
  resumed : ∀ p ∈ t.pauses, p.expired = false
  events : ∀ p ∈ t.pauses, ∀ e ∈ p.events, e.isFail = false

variable {t_hook_enable ctx fuel}

theorem Conn.Same.trans {k k₁ k₂ : Conn} (h : k.Same k₁) (h' : k₁.Same k₂) : k.Same k₂ :=
  ⟨h'.stream.trans h.stream, h'.sent.trans h.sent⟩

/-- What holds of a connection that has not been read or written is kept by the waits. -/
theorem Turn.waits_same (t : Turn) (k : Conn) :
    ∀ w ∈ t.waits, ∀ k₁, k.Same k₁ → k.Same (w.meanwhile k₁) := by
  intro w hw k₁ hk₁
  obtain ⟨p, -, rfl⟩ := List.mem_map.mp hw
  exact hk₁.trans (Event.applyAll_same p.events k₁)

theorem Turn.Fair.waits {t : Turn} (ht : t.Fair) :
    ∀ w ∈ t.waits, w.Useful ∧ ∀ k : Conn, k.Sound → (w.meanwhile k).Sound := by
  intro w hw
  obtain ⟨p, hp, rfl⟩ := List.mem_map.mp hw
  exact ⟨⟨ht.added p hp, ht.resumed p hp⟩, fun k hk => Event.applyAll_sound (ht.events p hp) hk⟩

/-- **A read** takes what it gives off the front of the stream, and sends nothing. -/
theorem read_received {length : Nat} {t : Turn} {k k' : Conn} {data : Bytes}
    (h : read t_hook_enable ctx fuel length t k = some (data, k')) :
    k.stream = data ++ k'.stream ∧ k'.sent = k.sent ∧
      data.length ≤ min length Http.Socket.MAX_RW_COUNT := by
  obtain ⟨o, ho, heq⟩ := Option.map_eq_some_iff.mp h
  obtain ⟨rfl, rfl⟩ := Prod.mk.inj heq
  have hdone : k.Received length o.answer o.kernel := by
    refine do_io_rule (fun k₁ hk₁ hrefused => hk₁.trans (Conn.recv_f_refused hrefused).1)
      (fun k₁ hk₁ => ?_) (fun errno k₁ hk₁ => ?_) (t.waits_same k)
      (Event.applyAll_same t.before k) ho
    · have hreceived := k₁.recv_f_received length
      exact ⟨hk₁.stream.symm.trans hreceived.stream, hreceived.sent.trans hk₁.sent,
        hreceived.length⟩
    · exact ⟨hk₁.stream.symm, hk₁.sent, Nat.zero_le _⟩
  exact ⟨hdone.stream, hdone.sent, hdone.length⟩

theorem read_ended {length : Nat} {t : Turn} {k k' : Conn} {data : Bytes}
    (hwaiting : Waiting t_hook_enable ctx) (ht : t.Fair) (hk : k.Sound)
    (h : read t_hook_enable ctx fuel length t k = some (data, k')) :
    k'.Sound ∧ (data = [] → length = 0 ∨ k'.stream = []) := by
  obtain ⟨o, ho, heq⟩ := Option.map_eq_some_iff.mp h
  obtain ⟨rfl, rfl⟩ := Prod.mk.inj heq
  obtain ⟨rfl, c, rfl, hc⟩ := hwaiting
  exact @do_io_useful Conn (Conn.recv_f length) Conn.Sound c hc SO_RCVTIMEO
    (fun a k' => k'.Sound ∧ (k'.bytes a = [] → length = 0 ∨ k'.stream = []))
    (fun k₁ hk₁ hrefused => (Conn.recv_f_refused hrefused).2.trans hk₁)
    (fun k₁ hk₁ htaken => Conn.recv_f_ended hk₁ htaken) fuel t.waits ht.waits
    (Event.applyAll t.before k) o (Event.applyAll_sound ht.before hk) ho

/-- **A write** sends the front of its data that it counts, and reads nothing. -/
theorem write_sent {data : Bytes} {t : Turn} {k k' : Conn} {n : Int}
    (h : write t_hook_enable ctx fuel data t k = some (n, k')) :
    k'.stream = k.stream ∧ k'.sent = k.sent ++ data.take n.toNat ∧ n ≤ data.length := by
  obtain ⟨o, ho, heq⟩ := Option.map_eq_some_iff.mp h
  obtain ⟨rfl, rfl⟩ := Prod.mk.inj heq
  have hdone : k.Sent data o.answer o.kernel := by
    refine do_io_rule (fun k₁ hk₁ hrefused => hk₁.trans (Conn.send_f_refused hrefused).1)
      (fun k₁ hk₁ => ?_) (fun errno k₁ hk₁ => ?_) (t.waits_same k)
      (Event.applyAll_same t.before k) ho
    · have hsent := k₁.send_f_sent data
      exact ⟨hsent.stream.trans hk₁.stream, hk₁.sent ▸ hsent.sent, hsent.length⟩
    · have hsent := Conn.Sent.failed data k₁ errno
      exact ⟨hsent.stream.trans hk₁.stream, hk₁.sent ▸ hsent.sent, hsent.length⟩
  exact ⟨hdone.stream, hdone.sent, hdone.length⟩

theorem write_takes {data : Bytes} {t : Turn} {k k' : Conn} {n : Int}
    (hwaiting : Waiting t_hook_enable ctx) (ht : t.Fair) (hk : k.Sound)
    (h : write t_hook_enable ctx fuel data t k = some (n, k')) :
    k'.Sound ∧ (data = [] ∧ n = 0 ∨ 0 < n) := by
  obtain ⟨o, ho, heq⟩ := Option.map_eq_some_iff.mp h
  obtain ⟨rfl, rfl⟩ := Prod.mk.inj heq
  obtain ⟨rfl, c, rfl, hc⟩ := hwaiting
  exact @do_io_useful Conn (Conn.send_f data) Conn.Sound c hc SO_SNDTIMEO
    (fun a k' => k'.Sound ∧ (data = [] ∧ a.n = 0 ∨ 0 < a.n))
    (fun k₁ hk₁ hrefused => (Conn.send_f_refused hrefused).2.trans hk₁)
    (fun k₁ hk₁ htaken => Conn.send_f_takes hk₁ htaken) fuel t.waits ht.waits
    (Event.applyAll t.before k) o (Event.applyAll_sound ht.before hk) ho

/-! ### The session above -/

/-- What a call has read is an arrival. -/
theorem read_piece {data : Bytes} {length : Nat}
    (hlength : data.length ≤ min length Http.Socket.MAX_RW_COUNT) (arrivals : List Bytes) :
    (⟨true, data :: arrivals⟩ : Http.Socket).read length = (data, ⟨true, arrivals⟩) := by
  show (data.take (min length Http.Socket.MAX_RW_COUNT), _) = _
  rw [List.take_of_length_le hlength, if_neg (Nat.not_lt.mpr hlength)]

/-- Where arrivals bring something, a read that has brought nothing was none of them. -/
theorem read_none {length : Nat} {arrivals : List Bytes}
    (h : length = 0 ∨ arrivals.flatten = []) (hne : ∀ c ∈ arrivals, c ≠ []) :
    (⟨true, arrivals⟩ : Http.Socket).read length = ([], ⟨true, arrivals⟩) := by
  rcases arrivals with _ | ⟨c, cs⟩
  · rfl
  · have hc := hne c List.mem_cons_self
    rcases h with rfl | hnil
    · show (c.take (min 0 Http.Socket.MAX_RW_COUNT), _) = _
      rw [Nat.zero_min, List.take_zero, if_pos (List.length_pos_of_ne_nil hc), List.drop_zero]
    · rw [List.flatten_cons] at hnil
      exact absurd (List.append_eq_nil_iff.mp hnil).1 hc

/-- The send that a call of the session makes when the call below returns `n`. -/
def sendOf (data : Bytes) (n : Int) : Int := if data = [] ∧ n = 0 then 1 else n

theorem write_sendOf {data : Bytes} {n : Int} (hn : n ≤ data.length) (sock : Http.Socket)
    (hconn : sock.connected = true) (sends : List Int) (sent : Bytes) :
    (⟨sock, sendOf data n :: sends, sent⟩ : Session).write data =
      (n, ⟨sock, sends, sent ++ data.take n.toNat⟩) := by
  have hmin : min (sendOf data n) data.length = n := by
    unfold sendOf
    split_ifs with hempty
    · obtain ⟨rfl, rfl⟩ := hempty
      rfl
    · exact min_eq_left hn
  rw [Session.write, if_pos hconn]
  simp only [hmin]

/-- **The connection refines the session**: whatever the kernel refuses, interrupts and breaks,
there are arrivals and sends with which the session gives a program the same answers, to the same
end.  The arrivals are what has been taken off the stream, in its order, and what has been sent is
the same.  If no wait fails and the connection does not break, every arrival brings something, and
every send takes something. -/
theorem connection_refines {α : Type} (p : Prog α) {turns : List Turn} {k k' : Conn} {a : α}
    (h : p.hooked t_hook_enable ctx fuel turns k = some (a, k')) :
    ∃ arrivals sends, k.stream = arrivals.flatten ++ k'.stream ∧
      p.onSession ⟨⟨true, arrivals⟩, sends, k.sent⟩ = (a, ⟨⟨true, []⟩, [], k'.sent⟩) ∧
      (Waiting t_hook_enable ctx → (∀ t ∈ turns, t.Fair) → k.Sound →
        (∀ c ∈ arrivals, c ≠ []) ∧ ∀ r ∈ sends, 0 < r) := by
  induction p generalizing turns k with
  | ret b =>
      obtain ⟨rfl, rfl⟩ := Prod.mk.inj (Option.some.inj h)
      exact ⟨[], [], rfl, rfl, fun _ _ _ =>
        ⟨fun _ hc => absurd hc List.not_mem_nil, fun _ hr => absurd hr List.not_mem_nil⟩⟩
  | read length next ih =>
      rcases turns with _ | ⟨t, turns⟩
      · cases h
      obtain ⟨⟨data, k₁⟩, hread, hrest⟩ := Option.bind_eq_some_iff.mp h
      obtain ⟨arrivals, sends, hstream, hover, hfair⟩ := ih data hrest
      obtain ⟨hstream₁, hsent₁, hlength⟩ := read_received hread
      rw [hsent₁] at hover
      by_cases hskip : data = [] ∧ Waiting t_hook_enable ctx ∧
          (∀ t' ∈ t :: turns, t'.Fair) ∧ k.Sound
      · -- nothing was asked for, or the stream has ended
        obtain ⟨rfl, hwaiting, hturns, hk⟩ := hskip
        obtain ⟨hk₁, hended⟩ := read_ended hwaiting (hturns t List.mem_cons_self) hk hread
        have hturns' := fun t' ht' => hturns t' (List.mem_cons_of_mem t ht')
        have hne := hfair hwaiting hturns' hk₁
        have hnone : length = 0 ∨ arrivals.flatten = [] := by
          refine (hended rfl).imp id fun hnil => ?_
          rw [hnil] at hstream
          exact (List.append_eq_nil_iff.mp hstream.symm).1
        refine ⟨arrivals, sends, hstream₁.trans hstream, ?_, fun _ _ _ => hne⟩
        rw [Prog.onSession, read_none hnone hne.1]
        exact hover
      · refine ⟨data :: arrivals, sends, ?_, ?_, fun hwaiting hturns hk => ?_⟩
        · rw [hstream₁, hstream, List.flatten_cons, List.append_assoc]
        · rw [Prog.onSession, read_piece hlength]
          exact hover
        · obtain ⟨hk₁, -⟩ := read_ended hwaiting (hturns t List.mem_cons_self) hk hread
          have hturns' := fun t' ht' => hturns t' (List.mem_cons_of_mem t ht')
          obtain ⟨hne, hpos⟩ := hfair hwaiting hturns' hk₁
          refine ⟨fun c hc => ?_, hpos⟩
          rcases List.mem_cons.mp hc with rfl | hc
          · exact fun hempty => hskip ⟨hempty, hwaiting, hturns, hk⟩
          · exact hne c hc
  | write data next ih =>
      rcases turns with _ | ⟨t, turns⟩
      · cases h
      obtain ⟨⟨n, k₁⟩, hwrite, hrest⟩ := Option.bind_eq_some_iff.mp h
      obtain ⟨arrivals, sends, hstream, hover, hfair⟩ := ih n hrest
      obtain ⟨hstream₁, hsent₁, hlength⟩ := write_sent hwrite
      refine ⟨arrivals, sendOf data n :: sends, hstream₁.symm.trans hstream, ?_,
        fun hwaiting hturns hk => ?_⟩
      · rw [Prog.onSession, write_sendOf hlength _ rfl]
        rw [hsent₁] at hover
        exact hover
      · obtain ⟨hk₁, htakes⟩ := write_takes hwaiting (hturns t List.mem_cons_self) hk hwrite
        have hturns' := fun t' ht' => hturns t' (List.mem_cons_of_mem t ht')
        obtain ⟨hne, hpos⟩ := hfair hwaiting hturns' hk₁
        refine ⟨hne, fun r hr => ?_⟩
        rcases List.mem_cons.mp hr with rfl | hr
        · unfold sendOf
          rcases htakes with hempty | hn
          · rw [if_pos hempty]
            exact Int.one_pos
          · rw [if_neg fun hempty => by omega]
            exact hn
        · exact hpos r hr

end Io

end Hook

end Will
