/-
ZjhServer/Tcp/Accept.lean

`TcpServer::start`, `startAccept` and `stop` (server/tcp_server.cc), called by any number of
callers, with the accept loops and the closures of `stop` as tasks that run beside them.

`bind` is one step, which does not run beside a closure; and `start` and the closures go through
the `m_socks` they have found, where the source goes through the vector itself.  An accept that
waits when its socket is closed fails: its descriptor is not given out again before the hook
retries.

Every client accepted is handed to the I/O worker once, with its receive timeout set
(`clients_handed`).  After `stop` each loop that has already tested `m_isStop` accepts at most
one client more; and once a closure of `stop` has cleared `m_socks`, nothing is accepted any
more until the next `bind`, even if the server is started again (`closed_for_good`).  A server
started again before its loops have seen the stop runs two loops on each of its sockets
(`restart_two_loops`); otherwise there is one (`one_loop`).
-/
import ZjhServer.Hook.Reuse
import ZjhServer.Lib.Counting
import ZjhServer.Tcp.Bind

namespace Will

namespace TcpServer

namespace Accept

/-! ### The source -/

/-- `Socket::setRecvTimeout(v)`: the `timeval`, its fields narrowed to `int`. -/
def timeval (v : BitVec 64) : BitVec 64 × BitVec 64 :=
  (((v.sdiv 1000).setWidth 32).signExtend 64, ((v.srem 1000 * 1000).setWidth 32).signExtend 64)

/-- The timeout that the hooked `setsockopt` leaves in the `FdCtx`. -/
def setRecvTimeout (v : BitVec 64) : BitVec 64 :=
  Hook.Reuse.timeout_ms (timeval v).1 (timeval v).2

/-- Where a task of `startAccept(sock)` is. -/
inductive LoopPc
  /-- scheduled, or back at `while(!m_isStop)` -/
  | test
  /-- before `sock->accept()` returns -/
  | accept
  /-- before `client->setRecvTimeout` -/
  | got (client : Nat)
  /-- before `m_ioWorker->schedule` -/
  | timed (client : Nat) (timeout : BitVec 64)
  | left
  deriving DecidableEq, Repr

structure Loop where
  sock : Nat
  pc : LoopPc
  deriving DecidableEq, Repr

/-- A closure that `stop` has scheduled. -/
inductive Closer
  | queued
  /-- in its loop: the sockets left to close -/
  | closing (left : List Nat)
  | done
  deriving DecidableEq, Repr

/-- Where a caller of the server is. -/
inductive Pc
  | out
  /-- in `start`, before the test -/
  | starting
  /-- before `m_isStop = false` -/
  | setting
  /-- in the loop: the sockets left to schedule -/
  | scheduling (left : List Nat)
  /-- in `stop`, before `m_isStop = true` -/
  | stopping
  /-- before `m_acceptWorker->schedule` -/
  | stopped
  deriving DecidableEq, Repr

structure State where
  m_isStop : Bool
  m_socks : List Nat
  /-- the sockets closed -/
  closed : List Nat
  /-- the tasks of `startAccept`, as they were scheduled -/
  loops : List Loop
  closers : List Closer
  pc : Nat → Pc
  /-- the sockets made by `bind` -/
  made : List Nat
  /-- the sockets that a failing `bind` has taken out of `m_socks` -/
  dropped : List Nat
  /-- the listening socket of each client; clients go by the order in which they come -/
  accepted : List Nat
  /-- the tasks of `handleClient` scheduled on `m_ioWorker`: the client and its timeout -/
  handed : List (Nat × BitVec 64)

namespace State

def goto (s : State) (c : Nat) (pc : Pc) : State := { s with pc := Function.update s.pc c pc }

def loop (s : State) (i : Nat) (l : Loop) : State := { s with loops := s.loops.set i l }

def closer (s : State) (j : Nat) (x : Closer) : State := { s with closers := s.closers.set j x }

/-- `bind(addrs, fails)` -/
def bind (s : State) (call : Call Nat Nat) : State :=
  let r := TcpServer.bind s.m_socks call
  { s with
    m_socks := r.m_socks
    made := s.made ++ call.addrs.map Attempt.sock
    dropped := if r.result then s.dropped else s.dropped ++ s.m_socks }

end State

inductive Action
  | start (c : Nat)
  | testStart (c : Nat)
  | setStart (c : Nat)
  | schedule (c : Nat)
  | stop (c : Nat)
  | setStop (c : Nat)
  | scheduleStop (c : Nat)
  | bind (call : Call Nat Nat)
  | test (i : Nat)
  /-- `accept` returns a client, or none -/
  | accept (i : Nat) (client : Bool)
  | setRecvTimeout (i : Nat)
  | hand (i : Nat)
  | close (j : Nat)

/-- `start` and `stop` -/
def stepCaller (s : State) : Action → Option State
  | .start c => if s.pc c = .out then some (s.goto c .starting) else none
  | .testStart c =>
      if s.pc c = .starting then some (s.goto c (if !s.m_isStop then .out else .setting)) else none
  | .setStart c =>
      if s.pc c = .setting then
        some { s.goto c (.scheduling s.m_socks) with m_isStop := false }
      else none
  | .schedule c =>
      match s.pc c with
      | .scheduling [] => some (s.goto c .out)
      | .scheduling (sock :: left) =>
          some { s.goto c (.scheduling left) with loops := s.loops ++ [⟨sock, .test⟩] }
      | _ => none
  | .stop c => if s.pc c = .out then some (s.goto c .stopping) else none
  | .setStop c =>
      if s.pc c = .stopping then some { s.goto c .stopped with m_isStop := true } else none
  | .scheduleStop c =>
      if s.pc c = .stopped then some { s.goto c .out with closers := s.closers ++ [.queued] }
      else none
  | _ => none

/-- A closure goes through `m_socks`, so no `bind` may change them meanwhile. -/
def stepBind (s : State) : Action → Option State
  | .bind call =>
      if (∀ x ∈ s.closers, x = .queued ∨ x = .done) ∧ (s.made ++ call.addrs.map Attempt.sock).Nodup
      then some (s.bind call)
      else none
  | _ => none

/-- `startAccept(sock)` -/
def stepLoop (m_recvTimeout : BitVec 64) (s : State) : Action → Option State
  | .test i =>
      match s.loops[i]? with
      | some ⟨sock, .test⟩ =>
          some (s.loop i ⟨sock, if !s.m_isStop then .accept else .left⟩)
      | _ => none
  | .accept i client =>
      match s.loops[i]? with
      | some ⟨sock, .accept⟩ =>
          if !client then some (s.loop i ⟨sock, .test⟩)
          -- `accept(-1)` fails
          else if sock ∈ s.closed then none
          else some { s.loop i ⟨sock, .got s.accepted.length⟩ with
            accepted := s.accepted ++ [sock] }
      | _ => none
  | .setRecvTimeout i =>
      match s.loops[i]? with
      | some ⟨sock, .got client⟩ =>
          some (s.loop i ⟨sock, .timed client (setRecvTimeout m_recvTimeout)⟩)
      | _ => none
  | .hand i =>
      match s.loops[i]? with
      | some ⟨sock, .timed client timeout⟩ =>
          some { s.loop i ⟨sock, .test⟩ with handed := s.handed ++ [(client, timeout)] }
      | _ => none
  | _ => none

/-- The closure of `stop`. -/
def stepCloser (s : State) : Action → Option State
  | .close j =>
      match s.closers[j]? with
      | some .queued => some (s.closer j (.closing s.m_socks))
      | some (.closing (sock :: left)) =>
          some { s.closer j (.closing left) with closed := sock :: s.closed }
      | some (.closing []) => some { s.closer j .done with m_socks := [] }
      | _ => none
  | _ => none

def step (m_recvTimeout : BitVec 64) (s : State) (a : Action) : Option State :=
  (stepCaller s a).or ((stepBind s a).or ((stepLoop m_recvTimeout s a).or (stepCloser s a)))

/-- A server that has been constructed. -/
def start : State where
  m_isStop := true
  m_socks := []
  closed := []
  loops := []
  closers := []
  pc := fun _ => .out
  made := []
  dropped := []
  accepted := []
  handed := []

/-! ### The receive timeout -/

theorem narrow_eq {x : BitVec 64} (h : x.toNat < 2147483648) :
    (x.setWidth 32).signExtend 64 = x := by
  have hnarrow : (x.setWidth 32).toNat = x.toNat := by
    rw [BitVec.toNat_setWidth, Nat.mod_eq_of_lt (by omega)]
  have hmsb : (x.setWidth 32).msb = false := by
    rw [BitVec.msb_eq_decide, hnarrow, decide_eq_false_iff_not]
    omega
  rw [BitVec.signExtend_eq_setWidth_of_msb_false hmsb]
  refine BitVec.eq_of_toNat_eq ?_
  rw [BitVec.toNat_setWidth, hnarrow, Nat.mod_eq_of_lt x.isLt]

theorem msb_small {x : BitVec 64} (h : x.toNat < 9223372036854775808) : x.msb = false := by
  rw [BitVec.msb_eq_decide, decide_eq_false_iff_not]
  omega

theorem toNat_sdiv {x : BitVec 64} (h : x.toNat < 9223372036854775808) :
    (x.sdiv 1000).toNat = x.toNat / 1000 := by
  rw [BitVec.sdiv_eq, msb_small h, show (1000 : BitVec 64).msb = false by decide]
  exact BitVec.toNat_udiv

theorem toNat_srem {x : BitVec 64} (h : x.toNat < 9223372036854775808) :
    (x.srem 1000).toNat = x.toNat % 1000 := by
  rw [BitVec.srem_eq, msb_small h, show (1000 : BitVec 64).msb = false by decide]
  exact BitVec.toNat_umod

/-- A timeout below 2^31 seconds is the one that is set. -/
theorem setRecvTimeout_exact {v : BitVec 64} (h : v.toNat < 2147483648000) :
    setRecvTimeout v = v := by
  have hsec := @toNat_sdiv v (by omega)
  have hrem := @toNat_srem v (by omega)
  have husec : (v.srem 1000 * 1000).toNat = v.toNat % 1000 * 1000 := by
    rw [BitVec.toNat_mul, hrem, show (1000 : BitVec 64).toNat = 1000 from rfl]
    exact Nat.mod_eq_of_lt (by omega)
  have hmul : (v.sdiv 1000 * 1000).toNat = v.toNat / 1000 * 1000 := by
    rw [BitVec.toNat_mul, hsec, show (1000 : BitVec 64).toNat = 1000 from rfl]
    exact Nat.mod_eq_of_lt (by omega)
  refine BitVec.eq_of_toNat_eq ?_
  show (Hook.Reuse.timeout_ms (((v.sdiv 1000).setWidth 32).signExtend 64)
    (((v.srem 1000 * 1000).setWidth 32).signExtend 64)).toNat = v.toNat
  rw [narrow_eq (by omega), narrow_eq (by omega), Hook.Reuse.timeout_ms, BitVec.toNat_add, hmul,
    toNat_sdiv (by omega), husec, Nat.mul_div_cancel _ (by decide), Nat.div_add_mod']
  exact Nat.mod_eq_of_lt v.isLt

/-! ### What a step can do -/

inductive Moves (m_recvTimeout : BitVec 64) (s : State) : Action → State → Prop
  | start {c} (hpc : s.pc c = .out) : Moves m_recvTimeout s (.start c) (s.goto c .starting)
  | testStart {c} (hpc : s.pc c = .starting) :
      Moves m_recvTimeout s (.testStart c) (s.goto c (if !s.m_isStop then .out else .setting))
  | setStart {c} (hpc : s.pc c = .setting) :
      Moves m_recvTimeout s (.setStart c)
        { s.goto c (.scheduling s.m_socks) with m_isStop := false }
  | scheduled {c} (hpc : s.pc c = .scheduling []) :
      Moves m_recvTimeout s (.schedule c) (s.goto c .out)
  | schedule {c sock left} (hpc : s.pc c = .scheduling (sock :: left)) :
      Moves m_recvTimeout s (.schedule c)
        { s.goto c (.scheduling left) with loops := s.loops ++ [⟨sock, .test⟩] }
  | stop {c} (hpc : s.pc c = .out) : Moves m_recvTimeout s (.stop c) (s.goto c .stopping)
  | setStop {c} (hpc : s.pc c = .stopping) :
      Moves m_recvTimeout s (.setStop c) { s.goto c .stopped with m_isStop := true }
  | scheduleStop {c} (hpc : s.pc c = .stopped) :
      Moves m_recvTimeout s (.scheduleStop c)
        { s.goto c .out with closers := s.closers ++ [.queued] }
  | bind {call} (hclosers : ∀ x ∈ s.closers, x = .queued ∨ x = .done)
      (hnew : (s.made ++ call.addrs.map Attempt.sock).Nodup) :
      Moves m_recvTimeout s (.bind call) (s.bind call)
  | test {i sock} (hl : s.loops[i]? = some ⟨sock, .test⟩) :
      Moves m_recvTimeout s (.test i) (s.loop i ⟨sock, if !s.m_isStop then .accept else .left⟩)
  | refused {i sock} (hl : s.loops[i]? = some ⟨sock, .accept⟩) :
      Moves m_recvTimeout s (.accept i false) (s.loop i ⟨sock, .test⟩)
  | accept {i sock} (hl : s.loops[i]? = some ⟨sock, .accept⟩) (hopen : sock ∉ s.closed) :
      Moves m_recvTimeout s (.accept i true)
        { s.loop i ⟨sock, .got s.accepted.length⟩ with accepted := s.accepted ++ [sock] }
  | setRecvTimeout {i sock client} (hl : s.loops[i]? = some ⟨sock, .got client⟩) :
      Moves m_recvTimeout s (.setRecvTimeout i)
        (s.loop i ⟨sock, .timed client (Accept.setRecvTimeout m_recvTimeout)⟩)
  | hand {i sock client timeout} (hl : s.loops[i]? = some ⟨sock, .timed client timeout⟩) :
      Moves m_recvTimeout s (.hand i)
        { s.loop i ⟨sock, .test⟩ with handed := s.handed ++ [(client, timeout)] }
  | begin {j} (hx : s.closers[j]? = some .queued) :
      Moves m_recvTimeout s (.close j) (s.closer j (.closing s.m_socks))
  | close {j sock left} (hx : s.closers[j]? = some (.closing (sock :: left))) :
      Moves m_recvTimeout s (.close j)
        { s.closer j (.closing left) with closed := sock :: s.closed }
  | clear {j} (hx : s.closers[j]? = some (.closing [])) :
      Moves m_recvTimeout s (.close j) { s.closer j .done with m_socks := [] }

variable {m_recvTimeout : BitVec 64} {s t : State} {a : Action}

theorem step_moves (hs : step m_recvTimeout s a = some t) : Moves m_recvTimeout s a t := by
  cases a <;>
    simp only [step, stepCaller, stepBind, stepLoop, stepCloser, Option.none_or, Option.or_none]
      at hs
  case start c | stop c | setStart c | setStop c | scheduleStop c =>
    split_ifs at hs with hpc
    cases hs
    constructor
    exact hpc
  case testStart c =>
    by_cases hpc : s.pc c = .starting
    · rw [if_pos hpc] at hs
      cases hs
      exact .testStart hpc
    · rw [if_neg hpc] at hs
      cases hs
  case schedule c =>
    split at hs <;> cases hs
    · exact .scheduled ‹_›
    · exact .schedule ‹_›
  case bind call =>
    split_ifs at hs with h
    cases hs
    exact .bind h.1 h.2
  case test i =>
    split at hs <;> cases hs
    exact .test ‹_›
  case accept i client =>
    split at hs
    · cases client with
      | false =>
          cases hs
          exact .refused ‹_›
      | true =>
          simp only [Bool.not_true, Bool.false_eq_true, if_false] at hs
          split_ifs at hs with hclosed
          cases hs
          exact .accept ‹_› hclosed
    · cases hs
  case setRecvTimeout i =>
    split at hs <;> cases hs
    exact .setRecvTimeout ‹_›
  case hand i =>
    split at hs <;> cases hs
    exact .hand ‹_›
  case close j =>
    split at hs <;> cases hs
    · exact .begin ‹_›
    · exact .close ‹_›
    · exact .clear ‹_›

/-! ### Counting loops -/

/-- The loop has the client. -/
def Loop.holds (client : Nat) (l : Loop) : Bool :=
  match l.pc with
  | .got k | .timed k _ => k = client
  | _ => false

/-- The loop is about to accept. -/
def Loop.accepts (l : Loop) : Bool := l.pc = .accept

/-- The loop is a live one of the socket. -/
def Loop.on (sock : Nat) (l : Loop) : Bool := l.sock = sock ∧ l.pc ≠ .left

/-! ### Every client is handed over -/

/-- Each client accepted is with one loop or has been handed over once; a client handed over
has its timeout. -/
structure Handed (m_recvTimeout : BitVec 64) (s : State) : Prop where
  once : ∀ k, (s.handed.map Prod.fst).count k + s.loops.countP (Loop.holds k) =
    if k < s.accepted.length then 1 else 0
  timed : ∀ l ∈ s.loops, ∀ k ms, l.pc = .timed k ms → ms = setRecvTimeout m_recvTimeout
  timeout : ∀ x ∈ s.handed, x.2 = setRecvTimeout m_recvTimeout

theorem start_handed : Handed m_recvTimeout start where
  once _ := rfl
  timed _ hl := absurd hl List.not_mem_nil
  timeout _ hx := absurd hx List.not_mem_nil

/-- A loop that neither gets nor gives a client. -/
theorem Handed.loop (h : Handed m_recvTimeout s) {i : Nat} {l l' : Loop}
    (hl : s.loops[i]? = some l) (hsame : ∀ k, l'.holds k = l.holds k)
    (htimed : ∀ k ms, l'.pc = .timed k ms → ms = setRecvTimeout m_recvTimeout) :
    Handed m_recvTimeout (s.loop i l') where
  once := by
    intro k
    have hcount := Counting.countP_set hl (Loop.holds k) l'
    rw [hsame k] at hcount
    have honce := h.once k
    show (s.handed.map Prod.fst).count k + (s.loops.set i l').countP (Loop.holds k) =
      if k < s.accepted.length then 1 else 0
    omega
  timed := by
    intro x hx k ms hpc
    rcases List.mem_or_eq_of_mem_set hx with hmem | rfl
    · exact h.timed x hmem k ms hpc
    · exact htimed k ms hpc
  timeout := h.timeout

theorem Handed.moves (h : Handed m_recvTimeout s) (hs : Moves m_recvTimeout s a t) :
    Handed m_recvTimeout t := by
  cases hs with
  | start | testStart | setStart | scheduled | stop | setStop | scheduleStop | bind | begin | close
  | clear => exact ⟨h.once, h.timed, h.timeout⟩
  | @schedule c sock left hpc =>
      refine ⟨fun k => ?_, fun l hl k ms hpc' => ?_, h.timeout⟩
      · show (s.handed.map Prod.fst).count k +
          (s.loops ++ [Loop.mk sock .test]).countP (Loop.holds k) = _
        rw [List.countP_append]
        exact h.once k
      · rcases List.mem_append.mp hl with hmem | hmem
        · exact h.timed l hmem k ms hpc'
        · rw [List.mem_singleton.mp hmem] at hpc'
          cases hpc'
  | @test i sock hl =>
      refine h.loop hl (fun k => ?_) fun k ms hpc => ?_
      · cases s.m_isStop <;> rfl
      · cases hstop : s.m_isStop <;> rw [hstop] at hpc <;> cases hpc
  | refused hl => exact h.loop hl (fun _ => rfl) nofun
  | @accept i sock hl hopen =>
      refine ⟨fun k => ?_, fun l hmem k ms hpc => ?_, h.timeout⟩
      · have hcount := Counting.countP_set hl (Loop.holds k) ⟨sock, .got s.accepted.length⟩
        have honce := h.once k
        show (s.handed.map Prod.fst).count k +
          (s.loops.set i ⟨sock, .got s.accepted.length⟩).countP (Loop.holds k) =
            if k < (s.accepted ++ [sock]).length then 1 else 0
        have hold : (Loop.mk sock .accept).holds k = false := rfl
        have hnew : (Loop.mk sock (.got s.accepted.length)).holds k =
          decide (s.accepted.length = k) := rfl
        rw [hold, hnew] at hcount
        rw [List.length_append, List.length_singleton]
        by_cases hk : s.accepted.length = k
        · rw [decide_eq_true hk] at hcount
          rw [if_neg (by omega)] at honce
          rw [if_pos (by omega)]
          simp only [Bool.toNat_false, Bool.toNat_true] at hcount
          omega
        · rw [decide_eq_false hk] at hcount
          have hiff : k < s.accepted.length + 1 ↔ k < s.accepted.length := by omega
          simp only [hiff]
          simp only [Bool.toNat_false] at hcount
          omega
      · rcases List.mem_or_eq_of_mem_set hmem with hmem | rfl
        · exact h.timed l hmem k ms hpc
        · cases hpc
  | setRecvTimeout hl => exact h.loop hl (fun _ => rfl) fun k ms hpc => by cases hpc; rfl
  | @hand i sock client timeout hl =>
      refine ⟨fun k => ?_, fun l hmem k ms hpc => ?_, fun x hx => ?_⟩
      · have hcount := Counting.countP_set hl (Loop.holds k) ⟨sock, .test⟩
        have honce := h.once k
        show ((s.handed ++ [(client, timeout)]).map Prod.fst).count k +
          (s.loops.set i ⟨sock, .test⟩).countP (Loop.holds k) =
            if k < s.accepted.length then 1 else 0
        have hold : (Loop.mk sock (.timed client timeout)).holds k = decide (client = k) := rfl
        have hnew : (Loop.mk sock .test).holds k = false := rfl
        rw [hold, hnew] at hcount
        rw [List.map_append, List.count_append, List.map_singleton, List.count_singleton]
        by_cases hk : client = k
        · rw [decide_eq_true hk] at hcount
          rw [if_pos (by simpa using hk)]
          simp only [Bool.toNat_false, Bool.toNat_true] at hcount
          omega
        · rw [decide_eq_false hk] at hcount
          rw [if_neg (by simpa using hk)]
          simp only [Bool.toNat_false] at hcount
          omega
      · rcases List.mem_or_eq_of_mem_set hmem with hmem | rfl
        · exact h.timed l hmem k ms hpc
        · cases hpc
      · rcases List.mem_append.mp hx with hmem | hmem
        · exact h.timeout x hmem
        · rw [List.mem_singleton.mp hmem]
          exact h.timed _ (List.mem_of_getElem? hl) client timeout rfl

/-- **Every client is handed over**: at any time, whatever is started and stopped meanwhile, each
client that was accepted is with one of the loops or has been scheduled on the I/O worker, once;
and what was scheduled has the receive timeout of the server. -/
theorem clients_handed (h : Lts.Reach (step m_recvTimeout) Lts.Any start s) :
    (∀ k, (s.handed.map Prod.fst).count k + s.loops.countP (Loop.holds k) =
      if k < s.accepted.length then 1 else 0) ∧
    (m_recvTimeout.toNat < 2147483648000 → ∀ x ∈ s.handed, x.2 = m_recvTimeout) := by
  have hinv : Handed m_recvTimeout s :=
    h.invariant start_handed fun _ _ _ hI _ hs => hI.moves (step_moves hs)
  refine ⟨hinv.once, fun hsmall x hx => ?_⟩
  rw [hinv.timeout x hx, setRecvTimeout_exact hsmall]

/-! ### Stopping -/

/-- No `start` takes effect. -/
def NoStart (_ : State) : Action → Prop
  | .setStart _ => False
  | _ => True

/-- **One step** behind a stop: a loop that is about to accept gets a client at most once. -/
theorem bounded_moves (hs : Moves m_recvTimeout s a t) (hgood : NoStart s a)
    (hstop : s.m_isStop = true) :
    t.m_isStop = true ∧ t.accepted.length + t.loops.countP Loop.accepts ≤
      s.accepted.length + s.loops.countP Loop.accepts := by
  cases hs with
  | start | testStart | scheduled | stop | scheduleStop | bind | begin | close | clear =>
      exact ⟨hstop, Nat.le_refl _⟩
  | setStop => exact ⟨rfl, Nat.le_refl _⟩
  | setStart => exact hgood.elim
  | @schedule c sock left hpc =>
      refine ⟨hstop, ?_⟩
      show _ + (s.loops ++ [Loop.mk sock .test]).countP Loop.accepts ≤ _
      rw [List.countP_append]
      exact Nat.le_refl _
  | @test i sock hl =>
      have hcount :=
        Counting.countP_set hl Loop.accepts ⟨sock, if !s.m_isStop then .accept else .left⟩
      refine ⟨hstop, ?_⟩
      show s.accepted.length + (s.loops.set i _).countP Loop.accepts ≤ _
      rw [hstop] at hcount ⊢
      exact Nat.add_le_add_left (Nat.le_of_eq hcount) _
  | @refused i sock hl =>
      have hcount := Counting.countP_set hl Loop.accepts ⟨sock, .test⟩
      refine ⟨hstop, ?_⟩
      show s.accepted.length + (s.loops.set i _).countP Loop.accepts ≤ _
      have hle : (s.loops.set i ⟨sock, .test⟩).countP Loop.accepts + 1 =
        s.loops.countP Loop.accepts := hcount
      omega
  | @accept i sock hl hopen =>
      have hcount := Counting.countP_set hl Loop.accepts ⟨sock, .got s.accepted.length⟩
      refine ⟨hstop, ?_⟩
      show (s.accepted ++ [sock]).length + (s.loops.set i _).countP Loop.accepts ≤ _
      have hle : (s.loops.set i ⟨sock, .got s.accepted.length⟩).countP Loop.accepts + 1 =
        s.loops.countP Loop.accepts := hcount
      rw [List.length_append, List.length_singleton]
      omega
  | @setRecvTimeout i sock client hl =>
      have hcount := Counting.countP_set hl Loop.accepts
        ⟨sock, .timed client (Accept.setRecvTimeout m_recvTimeout)⟩
      exact ⟨hstop, Nat.add_le_add_left (Nat.le_of_eq hcount) _⟩
  | @hand i sock client timeout hl =>
      have hcount := Counting.countP_set hl Loop.accepts ⟨sock, .test⟩
      exact ⟨hstop, Nat.add_le_add_left (Nat.le_of_eq hcount) _⟩

/-- **Behind a stop**, as long as no `start` takes effect, no more clients are accepted than there
are loops that had tested `m_isStop` before. -/
theorem stop_bounds (hstop : s.m_isStop = true)
    (h : Lts.Reach (step m_recvTimeout) NoStart s t) :
    t.m_isStop = true ∧
      t.accepted.length ≤ s.accepted.length + s.loops.countP Loop.accepts := by
  have hbound : t.m_isStop = true ∧ t.accepted.length + t.loops.countP Loop.accepts ≤
      s.accepted.length + s.loops.countP Loop.accepts := by
    refine h.invariant (I := fun u => u.m_isStop = true ∧ u.accepted.length +
      u.loops.countP Loop.accepts ≤ s.accepted.length + s.loops.countP Loop.accepts)
      ⟨hstop, Nat.le_refl _⟩ fun u b v hI hgood hs => ?_
    obtain ⟨hv, hle⟩ := bounded_moves (step_moves hs) hgood hI.1
    exact ⟨hv, Nat.le_trans hle hI.2⟩
  exact ⟨hbound.1, by omega⟩

/-- The sockets left to schedule. -/
def Pc.socks : Pc → List Nat
  | .scheduling left => left
  | _ => []

/-- A socket of a loop, or left to be scheduled, is in `m_socks`, closed or dropped; and a
closure has closed what it leaves behind. -/
structure Kept (s : State) : Prop where
  loops : ∀ l ∈ s.loops, l.sock ∈ s.m_socks ∨ l.sock ∈ s.closed ∨ l.sock ∈ s.dropped
  pc : ∀ c, ∀ x ∈ (s.pc c).socks, x ∈ s.m_socks ∨ x ∈ s.closed ∨ x ∈ s.dropped
  closers : ∀ left, .closing left ∈ s.closers → ∀ x ∈ s.m_socks, x ∈ left ∨ x ∈ s.closed

theorem start_kept : Kept start where
  loops _ hl := absurd hl List.not_mem_nil
  pc _ _ hx := absurd hx List.not_mem_nil
  closers _ hx := absurd hx List.not_mem_nil

/-- A caller moves. -/
theorem socks_goto {c : Nat} {pc : Pc} {P : Nat → Prop} (h : ∀ c, ∀ x ∈ (s.pc c).socks, P x)
    (hpc : ∀ x ∈ pc.socks, P x) (c' : Nat) : ∀ x ∈ ((s.goto c pc).pc c').socks, P x := by
  show ∀ x ∈ (Function.update s.pc c pc c').socks, P x
  rcases eq_or_ne c' c with rfl | hne
  · rw [Function.update_self]
    exact hpc
  · rw [Function.update_of_ne hne]
    exact h c'

/-- A loop goes on with its socket. -/
theorem sock_of_mem {i : Nat} {sock : Nat} {p p' : LoopPc} (hl : s.loops[i]? = some ⟨sock, p⟩)
    {l : Loop} (hmem : l ∈ s.loops.set i ⟨sock, p'⟩) : ∃ l' ∈ s.loops, l'.sock = l.sock := by
  rcases List.mem_or_eq_of_mem_set hmem with hmem | rfl
  · exact ⟨l, hmem, rfl⟩
  · exact ⟨_, List.mem_of_getElem? hl, rfl⟩

/-- What `bind` does to `m_socks`. -/
theorem bind_socks (call : Call Nat Nat) :
    ((s.bind call).m_socks = s.m_socks ++ call.socks ∧ (s.bind call).dropped = s.dropped) ∨
      (s.bind call).m_socks = [] ∧ (s.bind call).dropped = s.dropped ++ s.m_socks := by
  by_cases hfails : call.fails ++ call.failed = []
  · left
    simp only [State.bind, bind_of_nil hfails]
    exact ⟨trivial, rfl⟩
  · right
    simp only [State.bind, bind_of_ne hfails]
    exact ⟨trivial, rfl⟩

theorem Kept.moves (h : Kept s) (hs : Moves m_recvTimeout s a t) : Kept t := by
  cases hs with
  | start | testStart | stop | setStop | scheduled =>
      refine ⟨h.loops, socks_goto h.pc ?_, h.closers⟩
      first | exact fun _ hx => absurd hx List.not_mem_nil | (split_ifs <;> exact nofun)
  | setStart => exact ⟨h.loops, socks_goto h.pc fun x hx => .inl hx, h.closers⟩
  | @schedule c sock left hpc =>
      have hleft := h.pc c
      rw [hpc] at hleft
      refine ⟨fun l hl => ?_, socks_goto h.pc fun x hx => hleft x (List.mem_cons_of_mem _ hx),
        h.closers⟩
      rcases List.mem_append.mp hl with hmem | hmem
      · exact h.loops l hmem
      · rw [List.mem_singleton.mp hmem]
        exact hleft sock List.mem_cons_self
  | scheduleStop =>
      refine ⟨h.loops, socks_goto h.pc fun _ hx => absurd hx List.not_mem_nil, fun left hx => ?_⟩
      rcases List.mem_append.mp hx with hmem | hmem
      · exact h.closers left hmem
      · cases List.mem_singleton.mp hmem
  | @bind call hclosers hnew =>
      have hkeep : ∀ x, x ∈ s.m_socks ∨ x ∈ s.closed ∨ x ∈ s.dropped →
          x ∈ (s.bind call).m_socks ∨ x ∈ s.closed ∨ x ∈ (s.bind call).dropped := by
        intro x hx
        rcases bind_socks (s := s) call with ⟨hm, hd⟩ | ⟨hm, hd⟩
        · rw [hm, hd, List.mem_append]
          tauto
        · rw [hm, hd, List.mem_append]
          tauto
      refine ⟨fun l hl => hkeep _ (h.loops l hl), fun c x hx => hkeep x (h.pc c x hx),
        fun left hx => ?_⟩
      rcases hclosers _ hx with hq | hq <;> cases hq
  | test hl | refused hl | setRecvTimeout hl | hand hl | accept hl =>
      refine ⟨fun l hmem => ?_, h.pc, h.closers⟩
      obtain ⟨l', hl', heq⟩ := sock_of_mem hl hmem
      rw [← heq]
      exact h.loops l' hl'
  | @begin j hx =>
      refine ⟨h.loops, h.pc, fun left hmem x hm => ?_⟩
      rcases List.mem_or_eq_of_mem_set hmem with hmem | heq
      · exact h.closers left hmem x hm
      · cases heq
        exact .inl hm
  | @close j sock left hx =>
      have hcons : ∀ x, x ∈ s.m_socks ∨ x ∈ s.closed ∨ x ∈ s.dropped →
          x ∈ s.m_socks ∨ x ∈ sock :: s.closed ∨ x ∈ s.dropped :=
        fun x hx => hx.imp_right fun h => h.imp_left (List.mem_cons_of_mem _)
      refine ⟨fun l hl => hcons _ (h.loops l hl), fun c x hx => hcons x (h.pc c x hx),
        fun left' hmem x hm => ?_⟩
      rcases List.mem_or_eq_of_mem_set hmem with hmem | heq
      · exact (h.closers left' hmem x hm).imp_right (List.mem_cons_of_mem _)
      · -- the socket just closed goes over to the closed ones
        cases heq
        rcases h.closers _ (List.mem_of_getElem? hx) x hm with hin | hin
        · rcases List.mem_cons.mp hin with rfl | hin
          · exact .inr List.mem_cons_self
          · exact .inl hin
        · exact .inr (List.mem_cons_of_mem _ hin)
  | @clear j hx =>
      have hclosed := h.closers [] (List.mem_of_getElem? hx)
      have hkeep : ∀ x, x ∈ s.m_socks ∨ x ∈ s.closed ∨ x ∈ s.dropped →
          x ∈ ([] : List Nat) ∨ x ∈ s.closed ∨ x ∈ s.dropped := by
        rintro x (hm | hrest)
        · exact .inr (.inl ((hclosed x hm).resolve_left List.not_mem_nil))
        · exact .inr hrest
      exact ⟨fun l hl => hkeep _ (h.loops l hl), fun c x hx => hkeep x (h.pc c x hx),
        fun _ _ _ hm => absurd hm List.not_mem_nil⟩

/-- No further `bind`. -/
def NoBind (_ : State) : Action → Prop
  | .bind _ => False
  | _ => True

/-- Nothing that is left to a loop is open. -/
structure Shut (s : State) : Prop where
  m_socks : s.m_socks = []
  loops : ∀ l ∈ s.loops, l.sock ∈ s.closed
  pc : ∀ c, ∀ x ∈ (s.pc c).socks, x ∈ s.closed

/-- **One step** of a server that is shut: it stays so, and accepts nothing. -/
theorem Shut.moves (h : Shut s) (hs : Moves m_recvTimeout s a t) (hgood : NoBind s a) :
    Shut t ∧ t.accepted = s.accepted := by
  cases hs with
  | start | testStart | stop | setStop | scheduled | scheduleStop =>
      refine ⟨⟨h.m_socks, h.loops, socks_goto h.pc ?_⟩, rfl⟩
      first | exact fun _ hx => absurd hx List.not_mem_nil | (split_ifs <;> exact nofun)
  | setStart =>
      refine ⟨⟨h.m_socks, h.loops, socks_goto h.pc fun x hx => ?_⟩, rfl⟩
      have hx' : x ∈ s.m_socks := hx
      rw [h.m_socks] at hx'
      exact absurd hx' List.not_mem_nil
  | @schedule c sock left hpc =>
      have hleft := h.pc c
      rw [hpc] at hleft
      refine ⟨⟨h.m_socks, fun l hl => ?_,
        socks_goto h.pc fun x hx => hleft x (List.mem_cons_of_mem _ hx)⟩, rfl⟩
      rcases List.mem_append.mp hl with hmem | hmem
      · exact h.loops l hmem
      · rw [List.mem_singleton.mp hmem]
        exact hleft sock List.mem_cons_self
  | bind => exact hgood.elim
  | test hl | refused hl | setRecvTimeout hl | hand hl =>
      refine ⟨⟨h.m_socks, fun l hmem => ?_, h.pc⟩, rfl⟩
      obtain ⟨l', hl', heq⟩ := sock_of_mem hl hmem
      rw [← heq]
      exact h.loops l' hl'
  | accept hl hopen => exact absurd (h.loops _ (List.mem_of_getElem? hl)) hopen
  | begin => exact ⟨⟨h.m_socks, h.loops, h.pc⟩, rfl⟩
  | close =>
      exact ⟨⟨h.m_socks, fun l hl => List.mem_cons_of_mem _ (h.loops l hl),
        fun c x hx => List.mem_cons_of_mem _ (h.pc c x hx)⟩, rfl⟩
  | clear => exact ⟨⟨rfl, h.loops, h.pc⟩, rfl⟩

/-- **Closed for good**: once a closure of `stop` has cleared `m_socks`, and unless a failing
`bind` had dropped sockets from it before, every socket of a loop, or left to a `start`, is closed
until the next `bind`, and nothing is accepted, also when the server is started again. -/
theorem closed_for_good (h : Lts.Reach (step m_recvTimeout) Lts.Any start s)
    (hsocks : s.m_socks = []) (hdropped : s.dropped = [])
    (h' : Lts.Reach (step m_recvTimeout) NoBind s t) : Shut t ∧ t.accepted = s.accepted := by
  have hkept : Kept s := h.invariant start_kept fun _ _ _ hI _ hs => hI.moves (step_moves hs)
  have hclosed : ∀ x, x ∈ s.m_socks ∨ x ∈ s.closed ∨ x ∈ s.dropped → x ∈ s.closed := by
    rw [hsocks, hdropped]
    simp
  have hshut : Shut s :=
    ⟨hsocks, fun l hl => hclosed _ (hkept.loops l hl), fun c x hx => hclosed x (hkept.pc c x hx)⟩
  refine h'.invariant (I := fun u => Shut u ∧ u.accepted = s.accepted) ⟨hshut, rfl⟩
    fun u b v hI hgood hs => ?_
  obtain ⟨hv, hsame⟩ := hI.1.moves (step_moves hs) hgood
  exact ⟨hv, hsame.trans hI.2⟩

/-! ### One loop for a socket -/

/-- A `start` that takes effect finds no loop left of an earlier one, and no other `start` at
its loop. -/
def Fine (s : State) : Action → Prop
  | .setStart _ => (∀ l ∈ s.loops, l.pc = .left) ∧ ∀ c, (s.pc c).socks = []
  | _ => True

structure One (s : State) : Prop where
  made : s.made.Nodup
  nodup : s.m_socks.Nodup
  m_socks : ∀ x ∈ s.m_socks, x ∈ s.made
  solo : ∀ c c', (s.pc c).socks ≠ [] → (s.pc c').socks ≠ [] → c = c'
  one : ∀ c sock, (s.pc c).socks.count sock + s.loops.countP (Loop.on sock) ≤ 1

theorem start_one : One start where
  made := List.nodup_nil
  nodup := List.nodup_nil
  m_socks _ hx := absurd hx List.not_mem_nil
  solo _ _ h := absurd rfl h
  one _ _ := Nat.zero_le _

/-- A caller goes where it has nothing to schedule. -/
theorem One.goto (h : One s) (c : Nat) {pc : Pc} (hpc : pc.socks = []) : One (s.goto c pc) := by
  have hsocks : ∀ c', ((s.goto c pc).pc c').socks = [] ∨
      ((s.goto c pc).pc c').socks = (s.pc c').socks := by
    intro c'
    show (Function.update s.pc c pc c').socks = [] ∨ (Function.update s.pc c pc c').socks = _
    rcases eq_or_ne c' c with rfl | hne
    · rw [Function.update_self]
      exact .inl hpc
    · rw [Function.update_of_ne hne]
      exact .inr rfl
  refine ⟨h.made, h.nodup, h.m_socks, fun c' c'' hc' hc'' => ?_, fun c' sock => ?_⟩
  · exact h.solo c' c'' (((hsocks c').resolve_left hc') ▸ hc')
      (((hsocks c'').resolve_left hc'') ▸ hc'')
  · have hle := h.one c' sock
    show _ + s.loops.countP (Loop.on sock) ≤ 1
    rcases hsocks c' with heq | heq <;> rw [heq]
    · rw [List.count_nil]
      omega
    · exact hle

/-- A loop goes on, or leaves. -/
theorem One.loop (h : One s) {i : Nat} {sock : Nat} {p p' : LoopPc}
    (hl : s.loops[i]? = some ⟨sock, p⟩) (hp : p ≠ .left) : One (s.loop i ⟨sock, p'⟩) := by
  refine ⟨h.made, h.nodup, h.m_socks, h.solo, fun c sock' => ?_⟩
  have hcount := Counting.countP_set hl (Loop.on sock') ⟨sock, p'⟩
  have hle : ((Loop.mk sock p').on sock').toNat ≤ ((Loop.mk sock p).on sock').toNat := by
    simp only [Loop.on]
    by_cases hsock : sock = sock'
    · simp only [hsock, hp, ne_eq, not_false_eq_true, and_self, decide_true, true_and,
        Bool.toNat_true]
      exact Bool.toNat_le _
    · simp [hsock]
  have hone := h.one c sock'
  show (s.pc c).socks.count sock' + (s.loops.set i ⟨sock, p'⟩).countP (Loop.on sock') ≤ 1
  omega

theorem One.bind (h : One s) {call : Call Nat Nat}
    (hnew : (s.made ++ call.addrs.map Attempt.sock).Nodup) : One (s.bind call) := by
  have hsub : call.socks.Sublist (call.addrs.map Attempt.sock) := List.filter_sublist.map _
  obtain ⟨hmade, haddrs, hdisjoint⟩ := List.nodup_append.mp hnew
  have hmem : ∀ x ∈ s.made, x ∈ (s.bind call).made := fun x hx => List.mem_append_left _ hx
  rcases bind_socks (s := s) call with ⟨hsocks, -⟩ | ⟨hsocks, -⟩
  · refine ⟨hnew, ?_, fun x hx => ?_, h.solo, h.one⟩
    · rw [hsocks, List.nodup_append]
      exact ⟨h.nodup, hsub.nodup haddrs,
        fun x hx y hy => hdisjoint x (h.m_socks x hx) y (hsub.subset hy)⟩
    · rw [hsocks] at hx
      rcases List.mem_append.mp hx with hx | hx
      · exact hmem x (h.m_socks x hx)
      · exact List.mem_append_right _ (hsub.subset hx)
  · refine ⟨hnew, ?_, fun x hx => ?_, h.solo, h.one⟩
    · rw [hsocks]
      exact List.nodup_nil
    · rw [hsocks] at hx
      exact absurd hx List.not_mem_nil

theorem One.moves (h : One s) (hs : Moves m_recvTimeout s a t) (hfine : Fine s a) : One t := by
  cases hs with
  | start | stop => exact h.goto _ rfl
  | testStart => exact h.goto _ (by split_ifs <;> rfl)
  | @scheduled c hpc => exact h.goto c rfl
  | @setStop c hpc =>
      have hgoto := @One.goto s h c .stopped rfl
      exact ⟨hgoto.made, hgoto.nodup, hgoto.m_socks, hgoto.solo, hgoto.one⟩
  | @scheduleStop c hpc =>
      have hgoto := @One.goto s h c .out rfl
      exact ⟨hgoto.made, hgoto.nodup, hgoto.m_socks, hgoto.solo, hgoto.one⟩
  | @setStart c hpc =>
      obtain ⟨hleft, hidle⟩ := hfine
      -- no loop is live, and the sockets differ
      have hnone : ∀ sock, s.loops.countP (Loop.on sock) = 0 := fun sock =>
        List.countP_eq_zero.mpr fun l hl => by simp [Loop.on, hleft l hl]
      have hother : ∀ c', c' ≠ c →
          (Function.update s.pc c (.scheduling s.m_socks) c').socks = [] := by
        intro c' hne
        rw [Function.update_of_ne hne]
        exact hidle c'
      refine ⟨h.made, h.nodup, h.m_socks, fun c' c'' hc' hc'' => ?_, fun c' sock => ?_⟩
      · have heq : ∀ d, ((Function.update s.pc c (.scheduling s.m_socks)) d).socks ≠ [] → d = c :=
          fun d hd => by
            by_contra hne
            exact hd (hother d hne)
        rw [heq c' hc', heq c'' hc'']
      · show (Function.update s.pc c (.scheduling s.m_socks) c').socks.count sock +
          s.loops.countP (Loop.on sock) ≤ 1
        rw [hnone sock]
        rcases eq_or_ne c' c with rfl | hne
        · rw [Function.update_self]
          exact List.nodup_iff_count.mp h.nodup sock
        · rw [hother c' hne]
          exact Nat.zero_le _
  | @schedule c sock left hpc =>
      have hc : (s.pc c).socks = sock :: left := by rw [hpc]; rfl
      have hidle : ∀ c', c' ≠ c → (s.pc c').socks = [] := by
        intro c' hne
        by_contra hbusy
        exact hne (h.solo c' c hbusy (by rw [hc]; exact List.cons_ne_nil _ _))
      refine ⟨h.made, h.nodup, h.m_socks, fun c' c'' hc' hc'' => ?_, fun c' sock' => ?_⟩
      · have heq : ∀ d, ((Function.update s.pc c (.scheduling left)) d).socks ≠ [] → d = c :=
          fun d hd => by
            by_contra hne
            rw [Function.update_of_ne hne, hidle d hne] at hd
            exact hd rfl
        rw [heq c' hc', heq c'' hc'']
      · have hone := h.one c sock'
        rw [hc, List.count_cons] at hone
        show (Function.update s.pc c (.scheduling left) c').socks.count sock' +
          (s.loops ++ [Loop.mk sock .test]).countP (Loop.on sock') ≤ 1
        have hadd : (s.loops ++ [Loop.mk sock .test]).countP (Loop.on sock') =
            s.loops.countP (Loop.on sock') + if sock == sock' then 1 else 0 := by
          rw [List.countP_append, List.countP_singleton]
          simp [Loop.on]
        rw [hadd]
        rcases eq_or_ne c' c with rfl | hne
        · rw [Function.update_self]
          show left.count sock' + _ ≤ 1
          omega
        · rw [Function.update_of_ne hne, hidle c' hne, List.count_nil]
          omega
  | bind _ hnew => exact h.bind hnew
  | test hl | refused hl | setRecvTimeout hl => exact h.loop hl nofun
  | @accept i sock hl hopen =>
      have hloop := @One.loop s h i sock .accept (.got s.accepted.length) hl nofun
      exact ⟨hloop.made, hloop.nodup, hloop.m_socks, hloop.solo, hloop.one⟩
  | @hand i sock client timeout hl =>
      have hloop := @One.loop s h i sock (.timed client timeout) .test hl nofun
      exact ⟨hloop.made, hloop.nodup, hloop.m_socks, hloop.solo, hloop.one⟩
  | begin | close => exact ⟨h.made, h.nodup, h.m_socks, h.solo, h.one⟩
  | clear =>
      exact ⟨h.made, List.nodup_nil, fun x hx => absurd hx List.not_mem_nil, h.solo, h.one⟩

/-- **One loop for a socket**, where each `start` that takes effect comes when the loops of the
one before have left: no two accepts ever wait on one socket. -/
theorem one_loop (h : Lts.Reach (step m_recvTimeout) Fine start s) (sock : Nat) :
    s.loops.countP (Loop.on sock) ≤ 1 := by
  have hinv : One s := h.invariant start_one fun _ _ _ hI hfine hs => hI.moves (step_moves hs) hfine
  exact Nat.le_trans (Nat.le_add_left ..) (hinv.one 0 sock)

/-! ### Runs of a server on one socket -/

/-- Socket 7 is bound, and caller 0 starts the server. -/
def opening : List Action :=
  [.bind ⟨[⟨1, 7, true, true⟩], []⟩, .start 0, .testStart 0, .setStart 0, .schedule 0, .schedule 0]

/-- A client comes, and is handed over. -/
def serving : List Action := [.test 0, .accept 0 true, .setRecvTimeout 0, .hand 0]

/-- The server is stopped while its loop waits for a client. -/
def stopping : List Action := [.test 0, .stop 0, .setStop 0, .scheduleStop 0]

/-- The closure closes the socket. -/
def closing : List Action := [.close 0, .close 0, .close 0]

/-- The server is started. -/
def starting : List Action := [.start 0, .testStart 0, .setStart 0]

theorem clients_handed_one : ∃ s : State, s.handed = [(0, 120000)] ∧ s.accepted = [7] ∧
    (s.handed.map Prod.fst).count 0 + s.loops.countP (Loop.holds 0) = 1 := by
  have hrun : Lts.run (step 120000) (opening ++ serving) start = some _ := rfl
  have honce := (clients_handed (Lts.reach_of_run hrun)).1 0
  exact ⟨_, rfl, rfl, honce⟩

/-- The server with its loop at an accept, when it has been stopped. -/
def waiting : State := (Lts.run (step 120000) (opening ++ stopping) start).getD start

theorem stop_bounds_one : ∃ t : State, waiting.accepted = [] ∧ t.accepted = [7] ∧
    t.accepted.length ≤ waiting.accepted.length + waiting.loops.countP Loop.accepts := by
  have hstart : Lts.Reach (step 120000) NoStart waiting waiting := .init
  have hreach := hstart.step (Action.accept 0 true) trivial rfl
  exact ⟨_, rfl, rfl, (stop_bounds rfl hreach).2⟩

/-- The server when the closure has closed its socket. -/
def shut : State := (Lts.run (step 120000) (opening ++ stopping ++ closing) start).getD start

theorem closed_for_good_again : ∃ t : State, t.m_isStop = false ∧ t.loops = shut.loops ∧
    Shut t ∧ t.accepted = shut.accepted := by
  have hrun : Lts.run (step 120000) (opening ++ stopping ++ closing) start = some shut := rfl
  have hstart : Lts.Reach (step 120000) NoBind shut shut := .init
  have hagain := ((hstart.step (Action.start 0) trivial rfl).step (Action.testStart 0) trivial
    rfl).step (Action.setStart 0) trivial rfl
  refine ⟨_, ?_, ?_, closed_for_good (Lts.reach_of_run hrun) rfl rfl hagain⟩
  · rfl
  · rfl

/-- The server is started, stopped, and started again when its loop has left. -/
theorem one_loop_once : ∃ s : State, s.loops = [⟨7, .left⟩, ⟨7, .test⟩] ∧
    s.loops.countP (Loop.on 7) ≤ 1 := by
  have hstart : Lts.Reach (step 120000) Fine start start := .init
  have hbound := hstart.step (Action.bind ⟨[⟨1, 7, true, true⟩], []⟩) trivial rfl
  have htested := (hbound.step (Action.start 0) trivial rfl).step (Action.testStart 0) trivial rfl
  have hset := htested.step (Action.setStart 0) ⟨nofun, fun c => by cases c <;> rfl⟩ rfl
  have hopened := (hset.step (Action.schedule 0) trivial rfl).step (Action.schedule 0) trivial rfl
  have hstopped := ((hopened.step (Action.stop 0) trivial rfl).step (Action.setStop 0) trivial
    rfl).step (Action.scheduleStop 0) trivial rfl
  have hleft := hstopped.step (Action.test 0) trivial rfl
  have hagain := (hleft.step (Action.start 0) trivial rfl).step (Action.testStart 0) trivial rfl
  -- the only loop there is has left
  have hloops : ∀ l ∈ [(⟨7, .left⟩ : Loop)], l.pc = .left := by
    intro l hl
    rw [List.mem_singleton.mp hl]
  have hreset := hagain.step (Action.setStart 0) ⟨hloops, fun c => by cases c <;> rfl⟩ rfl
  exact ⟨_, rfl, one_loop (hreset.step (Action.schedule 0) trivial rfl) 7⟩

/-- **The second loop**: the server is started again before its loop has seen the stop, and two
loops accept on socket 7. -/
theorem restart_two_loops : ∃ s, Lts.Reach (step 120000) Lts.Any start s ∧
    s.loops.countP (Loop.on 7) = 2 := by
  have hrun : Lts.run (step 120000) (opening ++ stopping ++ starting ++ [.schedule 0]) start =
    some _ := rfl
  exact ⟨_, Lts.reach_of_run hrun, rfl⟩

end Accept

end TcpServer

end Will
