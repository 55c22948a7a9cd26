/-
ZjhServer/Timer/Notify.lean

Notifying workers of timers: `addTimer`, `reset` and `getNextTimer` (server/timer.cc)
with the `tickle` and the `idle` of an `IOManager` (server/iomanager.cc), for any number of
workers and of outside threads.

A timer inserted at the front sets `m_tickled` and tickles; the next `getNextTimer` of any
worker clears the flag, and until then other timers at the front tickle nobody.  But the
worker that the byte in the pipe has woken up may find a task, and be busy with it before
it calls `getNextTimer`: the flag is set, the pipe is empty, and an earlier timer is not
noticed by the workers that sleep (`notification_lost`).  If no worker starts a task in
that state, and no call relies on one that is still inside `tickle`, no notification is
lost (`no_lost_notification`): while the flag is set, somebody is inside `tickle`, or the
pipe holds a byte, or some worker will call `getNextTimer`, or none sleeps (`Rung`).
-/
import ZjhServer.Scheduler.Wakeup
import ZjhServer.Timer.Basic

namespace Will

namespace TimerManager

/-- The locked region of `reset`, up to the one of its `addTimer`, if it gets there. -/
def resetLocked (s : TimerManager) (p : Nat) (now ms : UInt64) (from_now : Bool) :
    Option (TimerManager × Bool) :=
  if ms = (s.heap p).m_ms && !from_now then none
  else if (s.heap p).m_cb = none then none
  else
    match s.find p with
    | none => none
    | some it =>
        let s := s.erase it
        let start := if from_now then now else (s.heap p).m_next - (s.heap p).m_ms
        let s := s.setTimer p { s.heap p with m_ms := ms, m_next := start + ms }
        some (s.addTimerLocked p)

/-- It is the region of `reset`, with the flag that `reset` drops. -/
theorem reset_eq (s : TimerManager) (p : Nat) (now ms : UInt64) (from_now : Bool) :
    (s.reset p now ms from_now).1 = ((s.resetLocked p now ms from_now).map Prod.fst).getD s := by
  unfold reset resetLocked
  cases s.find p <;> split_ifs <;> rfl

theorem resetLocked_some {s : TimerManager} {p : Nat} {now ms : UInt64} {from_now : Bool}
    {r : TimerManager × Bool} (h : s.resetLocked p now ms from_now = some r) :
    ∃ u : TimerManager, u.m_tickled = s.m_tickled ∧ u.addTimerLocked p = r := by
  unfold resetLocked at h
  cases hfind : s.find p with
  | none =>
      rw [hfind] at h
      split_ifs at h
  | some it =>
      rw [hfind] at h
      split_ifs at h <;> cases h
      · refine ⟨_, ?_, rfl⟩
        rfl
      · refine ⟨_, ?_, rfl⟩
        rfl

/-! ### Who changes `m_tickled` -/

/-- A timer at the front that does not tickle: the flag was set. -/
theorem addTimerLocked_suppressed {s : TimerManager} {val : Nat}
    (h : (s.addTimerLocked val).2 = false) :
    (s.addTimerLocked val).1.m_tickled = s.m_tickled ∧
      ((s.addTimerLocked val).1.m_timers.head? = some val → s.m_tickled = true) := by
  have hflag : (decide ((s.insert val).m_timers.head? = some val) && !s.m_tickled) = false := h
  refine ⟨?_, fun hfirst => ?_⟩
  · show ((s.addTimerLocked val).2 || s.m_tickled) = s.m_tickled
    rw [h, Bool.false_or]
  · have hhead : (s.insert val).m_timers.head? = some val := hfirst
    rw [decide_eq_true hhead, Bool.true_and, Bool.not_eq_false'] at hflag
    exact hflag

theorem cancel_tickled {s : TimerManager} {p : Nat} {r : TimerManager × Bool}
    (h : s.cancel p = some r) : r.1.m_tickled = s.m_tickled := by
  unfold cancel at h
  split_ifs at h
  · obtain ⟨it, -, hr⟩ := Option.bind_eq_some_iff.mp h
    cases hr
    rfl
  · cases h
    rfl

theorem refresh_tickled (s : TimerManager) (p : Nat) (now : UInt64) :
    (s.refresh p now).1.m_tickled = s.m_tickled := by
  unfold refresh
  cases s.find p <;> split_ifs <;> rfl

end TimerManager

namespace Notify

open Scheduler.Wakeup (Caller Pc)

/-! ### The idle loop -/

/-- `(int)next_timeout` -/
def asInt (next_timeout : UInt64) : Int := (next_timeout.toBitVec.setWidth 32).toInt

def MAX_TIMEOUT : Int := 5000

/-- `next_timeout` as it goes to `epoll_wait`. -/
def clip (next_timeout : UInt64) : UInt64 :=
  if next_timeout ≠ ~~~0 then .ofBitVec (BitVec.ofInt 64 (min (asInt next_timeout) MAX_TIMEOUT))
  else .ofBitVec (BitVec.ofInt 64 MAX_TIMEOUT)

/-- When an `epoll_wait` entered at `now` times out; a negative timeout is none. -/
def deadline (now next_timeout : UInt64) : Option Nat :=
  if asInt next_timeout < 0 then none else some (now.toNat + (asInt next_timeout).toNat)

/-- Where a worker is in its turn of the loop of `idle`. -/
inductive Turn
  /-- before `stopping(next_timeout)`, which calls `getNextTimer` -/
  | top
  /-- before or in `epoll_wait` -/
  | asked (next_timeout : UInt64)
  /-- before `listExpiredCb` -/
  | back
  /-- with callbacks to schedule, and then events to dispatch -/
  | owing (cbs : List (Option Cb))
  deriving DecidableEq, Repr

/-- The scheduler and the timers of one manager; `wait w` is when the `epoll_wait` of
worker `w` times out.  `urgent c` says that the call of `addTimer` or `reset` that `c` is
in has met `State.Urgent`, and `left c` that some worker has left `epoll_wait` since
the last insertion by `c`. -/
structure State (n : Nat) where
  sched : Scheduler.Wakeup.State n
  timers : TimerManager
  now : UInt64
  turn : Fin n → Turn
  wait : Fin n → Option Nat
  urgent : Caller n → Bool
  left : Caller n → Bool

variable {n : Nat}

/-- What a call of `addTimer` or `reset` does under the lock; `at_front` is whether it goes
on to `onTimerInsertedAtFront`. -/
structure Insertion (n : Nat) where
  caller : Caller n
  timer : Nat
  timers : TimerManager
  at_front : Bool

inductive Action (n : Nat)
  | addTimer (c : Caller n) (p : Nat) (reading ms : UInt64) (cb : Option Cb) (recurring : Bool)
  | reset (c : Caller n) (p : Nat) (ms : UInt64) (from_now : Bool)
  | cancel (c : Caller n) (p : Nat)
  | refresh (c : Caller n) (p : Nat)
  | getNextTimer (w : Fin n)
  | listExpiredCb (w : Fin n) (reading : UInt64) (probe : Nat)
  /-- `epoll_wait` ends with `EINTR` and is entered again. -/
  | interrupt (w : Fin n)
  | sched (a : Scheduler.Wakeup.Action n)
  | tick (now : UInt64)

namespace State

def init (tid : Fin n → Int) (now : UInt64) : State n where
  sched := .init tid
  timers := .new now
  now := now
  turn := fun _ => .top
  wait := fun _ => none
  urgent := fun _ => false
  left := fun _ => false

/-- A task or an outside thread may call a function of a timer now. -/
def calls (s : State n) : Caller n → Bool
  | .outside c => s.sched.outside c = none
  | .worker w =>
      match s.sched.pc w with
      | .exec none _ => true
      | _ => false

/-- The worker has left `epoll_wait`, and has yet to call `listExpiredCb`. -/
def isBack (s : State n) (w : Fin n) : Bool :=
  match s.sched.pc w, s.turn w with
  | .woken none _, .back => true
  | _, _ => false

/-- The insertion that an action makes. -/
def inserts (s : State n) : Action n → Option (Insertion n)
  | .addTimer c p reading ms cb recurring =>
      -- the clock is read before the lock is taken
      if s.calls c ∧ p ∉ s.timers.m_timers ∧ reading ≤ s.now then
        let r := s.timers.addTimer p reading ms cb recurring
        some ⟨c, p, r.1, r.2⟩
      else none
  | .reset c p ms from_now =>
      if s.calls c then
        (s.timers.resetLocked p s.now ms from_now).map fun r => ⟨c, p, r.1, r.2⟩
      else none
  | _ => none

/-- Whether an `epoll_wait` would time out only after `next`. -/
def later (wait : Option Nat) (next : UInt64) : Bool := wait.all fun t => next.toNat < t

/-- The timer is the earliest one, some worker is blocked in `epoll_wait`, and each one
that is would time out only after the timer is due. -/
def Urgent (s : State n) (i : Insertion n) : Prop :=
  i.timers.m_timers.head? = some i.timer ∧ (∃ w, s.sched.pc w = .blocked) ∧
    ∀ w, s.sched.pc w = .blocked → later (s.wait w) (i.timers.heap i.timer).m_next = true

instance (s : State n) (i : Insertion n) : Decidable (s.Urgent i) :=
  inferInstanceAs (Decidable (_ ∧ _ ∧ _))

/-- A timer is inserted; at the front, the caller goes into `tickle`. -/
def insert (s : State n) (i : Insertion n) : State n :=
  { s with
    timers := i.timers
    sched := if i.at_front then s.sched.toTest i.caller else s.sched
    urgent := Function.update s.urgent i.caller (i.at_front && s.Urgent i)
    left := Function.update s.left i.caller false }

/-- Worker `w` enters `epoll_wait`. -/
def enter (s : State n) (w : Fin n) : State n :=
  match s.turn w with
  | .asked next_timeout =>
      { s with
        turn := Function.update s.turn w (.asked (clip next_timeout))
        wait := Function.update s.wait w (deadline s.now (clip next_timeout)) }
  | _ => s

/-- What the idle loop lets a step of the scheduler do. -/
def admits (s : State n) : Scheduler.Wakeup.Action n → Bool
  | .block w =>
      match s.turn w with
      | .asked _ => true
      | _ => false
  | .push (.worker w) task =>
      match s.sched.pc w, s.turn w with
      | .woken .., .owing (cb :: _) => task = ⟨none, cb, -1⟩
      | .woken .., .owing [] => true
      | .woken .., _ => false
      | _, _ => true
  | .drain w => s.turn w = .owing []
  | .yield w => s.turn w = .owing []
  | _ => true

/-- What a step of the scheduler does besides. -/
def follow (s : State n) : Scheduler.Wakeup.Action n → State n
  | .incIdle w =>
      -- the idle fiber goes on at the top of its loop
      { s with turn := Function.update s.turn w .top }
  | .block w => s.enter w
  | .wake w _ => { s with turn := Function.update s.turn w .back, left := fun _ => true }
  | .push (.worker w) _ =>
      match s.sched.pc w, s.turn w with
      | .woken .., .owing (_ :: cbs) => { s with turn := Function.update s.turn w (.owing cbs) }
      | _, _ => s
  | .test c =>
      -- the call returns if there are no idle workers
      if s.sched.m_idleThreadCount > 0 then s
      else { s with urgent := Function.update s.urgent c false }
  | .write c => { s with urgent := Function.update s.urgent c false }
  | _ => s

end State

/-! ### Steps -/

open State

/-- A call of a timer function that makes no insertion. -/
def stepTimers (s : State n) : Action n → Option (State n)
  | .reset c _ _ _ => if s.calls c then some s else none
  | .cancel c p =>
      if s.calls c then (s.timers.cancel p).map fun r => { s with timers := r.1 } else none
  | .refresh c p =>
      if s.calls c then some { s with timers := (s.timers.refresh p s.now).1 } else none
  | .getNextTimer w =>
      if s.sched.pc w = .idling ∧ s.turn w = .top then
        let r := s.timers.getNextTimer s.now
        some { s with timers := r.1, turn := Function.update s.turn w (.asked r.2) }
      else none
  | .listExpiredCb w reading probe =>
      if s.isBack w ∧ reading ≤ s.now ∧ probe ∉ s.timers.m_timers then
        let r := s.timers.listExpiredCb reading probe
        some { s with timers := r.1, turn := Function.update s.turn w (.owing r.2) }
      else none
  | _ => none

def step (s : State n) (a : Action n) : Option (State n) :=
  match s.inserts a with
  | some i => some (s.insert i)
  | none =>
      match a with
      | .interrupt w => if s.sched.pc w = .blocked then some (s.enter w) else none
      | .sched a =>
          if s.admits a then
            (Scheduler.Wakeup.step s.sched a).map fun sched => { s.follow a with sched := sched }
          else none
      | .tick now => if s.now ≤ now then some { s with now := now } else none
      | a => stepTimers s a

/-! ### What is asked of the notifications -/

namespace State

/-- The worker is awake, executes no task, and calls `getNextTimer` before it blocks. -/
def heeds (s : State n) (w : Fin n) : Bool :=
  match s.sched.pc w with
  | .exec .. | .blocked => false
  | .idling => s.turn w = .top
  | _ => true

/-- The worker is in `epoll_wait`, or has called `getNextTimer` and is about to be. -/
def asleep (s : State n) (w : Fin n) : Bool :=
  match s.sched.pc w with
  | .blocked => true
  | .idling => s.turn w ≠ .top
  | _ => false

/-- Some thread is inside `tickle`. -/
def Tickling (s : State n) : Prop := ∃ c, (s.sched.stage c).isSome

/-- The caller of `addTimer` or `reset` that has met `Urgent` and returns in this step. -/
def returns (s : State n) (a : Action n) : Option (Caller n) :=
  match s.inserts a with
  | some i => if s.Urgent i ∧ i.at_front = false then some i.caller else none
  | none =>
      match a with
      | .sched (.test c) =>
          if s.urgent c ∧ s.sched.m_idleThreadCount = 0 then some c else none
      | .sched (.write c) => if s.urgent c then some c else none
      | _ => none

/-- The pipe holds an unread byte, or some worker has left `epoll_wait` since the
insertion, or some worker will call `getNextTimer`. -/
def Noticed (s : State n) (c : Caller n) : Prop :=
  0 < s.sched.pipe ∨ s.left c = true ∨ ∃ w, s.heeds w = true

/-- While `m_tickled` is set and somebody sleeps, no worker starts a task unless some
thread is inside `tickle`, the pipe holds a byte, or another worker will call
`getNextTimer`.  And an urgent insertion that `m_tickled` keeps from tickling does not
come while a thread is inside `tickle` and has not written, if no worker will call
`getNextTimer`. -/
def Fine (s : State n) : Action n → Prop
  | .sched (.resume w) => s.timers.m_tickled = true →
      s.Tickling ∨ 0 < s.sched.pipe ∨ (∃ v, v ≠ w ∧ s.heeds v = true) ∨ ∀ v, s.asleep v = false
  | a => ∀ i, s.inserts a = some i → i.at_front = false → s.Urgent i →
      ¬ s.Tickling ∨ 0 < s.sched.pipe ∨ ∃ w, s.heeds w = true

/-! ### The invariant -/

/-- Somebody will see to `m_tickled`, or nobody needs to. -/
def Rung (s : State n) : Prop :=
  s.Tickling ∨ 0 < s.sched.pipe ∨ (∃ w, s.heeds w = true) ∨ ∀ w, s.asleep w = false

structure Inv (s : State n) : Prop where
  idle : s.sched.m_idleThreadCount = Workers.tally Pc.idle s.sched.pc
  rung : s.timers.m_tickled = true → s.Rung
  blocked : ∀ c, s.urgent c = true → s.left c = true ∨ ∃ w, s.sched.pc w = .blocked

theorem init_inv (tid : Fin n → Int) (now : UInt64) : (init tid now).Inv where
  idle := (Scheduler.Wakeup.State.init_inv tid).idle
  rung := fun h => by cases h
  blocked := fun _ h => by cases h

/-! ### Who sees to the flag -/

/-- A worker at `pc` is awake, executes no task, and has not called `getNextTimer`. -/
def alert : Pc → Bool
  | .exec .. | .blocked | .idling => false
  | _ => true

theorem rung_of_alert {t : State n} {w : Fin n} (h : alert (t.sched.pc w) = true) : t.Rung := by
  refine .inr (.inr (.inl ⟨w, ?_⟩))
  unfold heeds
  revert h
  cases t.sched.pc w <;> intro h <;> first | rfl | cases h

/-- A sleeper counts as idle. -/
theorem asleep_idle {s : State n} {w : Fin n} (h : s.asleep w = true) :
    (s.sched.pc w).idle = true := by
  unfold asleep at h
  revert h
  cases s.sched.pc w <;> intro h <;> first | rfl | cases h

/-- Without idle workers there are no sleepers. -/
theorem rung_of_busy {t : State n}
    (hidle : t.sched.m_idleThreadCount = Workers.tally Pc.idle t.sched.pc)
    (hbusy : t.sched.m_idleThreadCount = 0) : t.Rung := by
  refine .inr (.inr (.inr fun w => ?_))
  rw [Bool.eq_false_iff]
  intro hasleep
  have hpos : 0 < Workers.tally Pc.idle t.sched.pc :=
    Workers.tally_pos_iff.mpr ⟨w, asleep_idle hasleep⟩
  omega

/-- The scheduler and the idle loops stay as they are. -/
theorem Rung.congr {s t : State n} (h : s.Rung) (hsched : t.sched = s.sched)
    (hturn : t.turn = s.turn) : t.Rung := by
  unfold Rung Tickling heeds asleep
  rw [hsched, hturn]
  exact h

/-! ### Insertions -/

theorem toTest_stage {s : Scheduler.Wakeup.State n} {c : Caller n} (h : s.free c = true) :
    (s.toTest c).stage c = some .test := by
  cases c with
  | outside c => exact Function.update_self ..
  | worker w =>
      unfold Scheduler.Wakeup.State.free at h
      unfold Scheduler.Wakeup.State.toTest Scheduler.Wakeup.State.stage
      simp only at h ⊢
      split at h
      · rename_i hpc
        simp only [hpc, Scheduler.Wakeup.State.goto_pc_self]
        rfl
      · rename_i hpc
        simp only [hpc, Scheduler.Wakeup.State.goto_pc_self]
        rfl
      · cases h

theorem toTest_blocked {s : Scheduler.Wakeup.State n} (c : Caller n) {w : Fin n}
    (h : s.pc w = .blocked) : (s.toTest c).pc w = .blocked := by
  cases c with
  | outside c => exact h
  | worker v =>
      have hne : ∀ pc, s.pc v = pc → pc ≠ .blocked → w ≠ v := by
        rintro pc hpc hblocked rfl
        exact hblocked (hpc.symm.trans h)
      unfold Scheduler.Wakeup.State.toTest
      simp only
      split
      · rename_i hpc
        rw [Scheduler.Wakeup.State.goto_pc_ne s _ (hne _ hpc nofun)]
        exact h
      · rename_i hpc
        rw [Scheduler.Wakeup.State.goto_pc_ne s _ (hne _ hpc nofun)]
        exact h
      · exact h

theorem calls_free {s : State n} {c : Caller n} (h : s.calls c = true) :
    s.sched.free c = true := by
  cases c with
  | outside c => exact h
  | worker w =>
      unfold calls at h
      unfold Scheduler.Wakeup.State.free
      simp only at h ⊢
      split at h
      · rename_i hpc
        rw [hpc]
      · cases h

/-- An insertion is one of `addTimer(val, lock)`, by a caller that is not inside
`tickle`. -/
theorem inserts_spec {s : State n} {a : Action n} {i : Insertion n} (h : s.inserts a = some i) :
    s.calls i.caller = true ∧ ∃ u : TimerManager, u.m_tickled = s.timers.m_tickled ∧
      u.addTimerLocked i.timer = (i.timers, i.at_front) := by
  cases a with
  | addTimer c p reading ms cb recurring =>
      simp only [inserts] at h
      split_ifs at h with hguard
      cases h
      exact ⟨hguard.1, s.timers.setTimer p ⟨recurring, ms, reading + ms, cb⟩, rfl, rfl⟩
  | reset c p ms from_now =>
      simp only [inserts] at h
      split_ifs at h with hcalls
      obtain ⟨r, hr, rfl⟩ := Option.map_eq_some_iff.mp h
      exact ⟨hcalls, TimerManager.resetLocked_some hr⟩
  | cancel | refresh | getNextTimer | listExpiredCb | interrupt | sched | tick => cases h

/-- An insertion that does not tickle leaves the flag, which was set if the timer is
the earliest one. -/
theorem inserts_suppressed {s : State n} {a : Action n} {i : Insertion n}
    (h : s.inserts a = some i) (hfront : i.at_front = false) :
    i.timers.m_tickled = s.timers.m_tickled ∧
      (i.timers.m_timers.head? = some i.timer → s.timers.m_tickled = true) := by
  obtain ⟨-, u, htickled, hlocked⟩ := inserts_spec h
  have hflag : (u.addTimerLocked i.timer).2 = false := by rw [hlocked]; exact hfront
  have hspec := TimerManager.addTimerLocked_suppressed hflag
  rw [hlocked, htickled] at hspec
  exact hspec

/-- **An insertion** at the front has its caller inside `tickle`; another one changes
nothing about who sees to the flag. -/
theorem insert_inv {s : State n} {a : Action n} {i : Insertion n} (h : s.Inv)
    (hi : s.inserts a = some i) : (s.insert i).Inv := by
  have hfree := calls_free (inserts_spec hi).1
  refine ⟨?_, fun htickled => ?_, fun c hc => ?_⟩
  · show (if i.at_front then s.sched.toTest i.caller else s.sched).m_idleThreadCount = _
    unfold insert
    split_ifs
    · exact Scheduler.Wakeup.State.toTest_idle h.idle i.caller
    · exact h.idle
  · -- at the front the flag goes up with its caller inside `tickle`, elsewhere it stays
    rcases hfront : i.at_front with _ | _
    · obtain ⟨hsame, -⟩ := inserts_suppressed hi hfront
      have hsched : (s.insert i).sched = s.sched := by
        unfold insert
        rw [hfront]
        rfl
      exact (h.rung (hsame.symm.trans htickled)).congr hsched rfl
    · refine .inl ⟨i.caller, ?_⟩
      simp only [insert, hfront, if_true]
      rw [toTest_stage hfree]
      rfl
  · -- whoever inserts is not blocked, so the blocked workers stay so
    have hkeep : ∀ w, s.sched.pc w = .blocked → (s.insert i).sched.pc w = .blocked := by
      intro w hw
      unfold insert
      simp only
      split_ifs
      · exact toTest_blocked i.caller hw
      · exact hw
    have hurgent : Function.update s.urgent i.caller (i.at_front && s.Urgent i) c = true := hc
    show Function.update s.left i.caller false c = true ∨ _
    rcases eq_or_ne c i.caller with rfl | hne
    · rw [Function.update_self, Bool.and_eq_true, decide_eq_true_eq] at hurgent
      obtain ⟨w, hw⟩ := hurgent.2.2.1
      exact .inr ⟨w, hkeep w hw⟩
    · rw [Function.update_of_ne hne] at hurgent ⊢
      exact (h.blocked c hurgent).imp_right fun ⟨w, hw⟩ => ⟨w, hkeep w hw⟩

/-! ### Calls that insert nothing -/

/-- A timer function that leaves the scheduler alone, and clears the flag or keeps it. -/
theorem Inv.timers {s t : State n} (h : s.Inv) (hsched : t.sched = s.sched)
    (hurgent : t.urgent = s.urgent) (hleft : t.left = s.left)
    (hrung : t.timers.m_tickled = true → t.Rung) : t.Inv where
  idle := by
    rw [hsched]
    exact h.idle
  rung := hrung
  blocked := by
    rw [hurgent, hleft, hsched]
    exact h.blocked

theorem stepTimers_inv {s t : State n} {a : Action n} (h : s.Inv) (hs : stepTimers s a = some t) :
    t.Inv := by
  cases a with
  | reset c p ms from_now =>
      simp only [stepTimers] at hs
      split_ifs at hs
      cases hs
      exact h
  | cancel c p =>
      simp only [stepTimers] at hs
      split_ifs at hs
      obtain ⟨r, hr, rfl⟩ := Option.map_eq_some_iff.mp hs
      refine h.timers rfl rfl rfl fun htickled => ?_
      rw [TimerManager.cancel_tickled hr] at htickled
      exact (h.rung htickled).congr rfl rfl
  | refresh c p =>
      simp only [stepTimers] at hs
      split_ifs at hs
      cases hs
      refine h.timers rfl rfl rfl fun htickled => ?_
      rw [TimerManager.refresh_tickled] at htickled
      exact (h.rung htickled).congr rfl rfl
  | getNextTimer w =>
      simp only [stepTimers] at hs
      split_ifs at hs
      cases hs
      refine h.timers rfl rfl rfl fun htickled => ?_
      rw [TimerManager.getNextTimer_fst] at htickled
      cases htickled
  | listExpiredCb w reading probe =>
      simp only [stepTimers] at hs
      split_ifs at hs with hguard
      cases hs
      -- the worker that lists them is awake
      refine h.timers rfl rfl rfl fun _ => rung_of_alert (w := w) ?_
      have hback := hguard.1
      unfold isBack at hback
      show alert (s.sched.pc w) = true
      split at hback
      · rename_i hpc _
        rw [hpc]
        rfl
      · cases hback
  | addTimer | interrupt | sched | tick => cases hs

/-! ### Entering `epoll_wait` -/

theorem heeds_congr {s t : State n} {v : Fin n} (hpc : t.sched.pc v = s.sched.pc v)
    (hturn : t.turn v = s.turn v) : t.heeds v = s.heeds v ∧ t.asleep v = s.asleep v := by
  unfold heeds asleep
  rw [hpc, hturn]
  exact ⟨rfl, rfl⟩

/-- Only the turn of the worker and its timeout change. -/
theorem enter_frame (s : State n) (w : Fin n) :
    (s.enter w).sched = s.sched ∧ (s.enter w).timers = s.timers ∧
      (s.enter w).urgent = s.urgent ∧ (s.enter w).left = s.left ∧
      ∀ v, v ≠ w → (s.enter w).turn v = s.turn v := by
  unfold enter
  split
  · exact ⟨rfl, rfl, rfl, rfl, fun v hv => Function.update_of_ne hv _ _⟩
  · exact ⟨rfl, rfl, rfl, rfl, fun _ _ => rfl⟩

/-- One of the sleepers goes on sleeping. -/
theorem Rung.sleeper {s t : State n} (h : s.Rung) {w : Fin n} (hw : s.asleep w = true)
    (hstage : ∀ c, (s.sched.stage c).isSome → (t.sched.stage c).isSome)
    (hpipe : s.sched.pipe ≤ t.sched.pipe)
    (hpc : ∀ v, v ≠ w → t.sched.pc v = s.sched.pc v)
    (hturn : ∀ v, v ≠ w → t.turn v = s.turn v) : t.Rung := by
  have hother : ∀ v, v ≠ w → t.heeds v = s.heeds v := fun v hv =>
    (heeds_congr (hpc v hv) (hturn v hv)).1
  have hdeaf : s.heeds w = false := by
    unfold heeds
    unfold asleep at hw
    revert hw
    cases s.sched.pc w <;> intro hw <;> first | rfl | cases hw | simpa using hw
  rcases h with ⟨c, hc⟩ | hpos | ⟨v, hv⟩ | hnone
  · exact .inl ⟨c, hstage c hc⟩
  · exact .inr (.inl (Nat.lt_of_lt_of_le hpos hpipe))
  · have hne : v ≠ w := by
      rintro rfl
      rw [hdeaf] at hv
      cases hv
    exact .inr (.inr (.inl ⟨v, (hother v hne).trans hv⟩))
  · rw [hnone w] at hw
    cases hw

theorem interrupt_inv {s : State n} (h : s.Inv) {w : Fin n} (hpc : s.sched.pc w = .blocked) :
    (s.enter w).Inv := by
  obtain ⟨hsched, htimers, hurgent, hleft, hturn⟩ := s.enter_frame w
  refine h.timers hsched hurgent hleft fun htickled => ?_
  rw [htimers] at htickled
  have hasleep : s.asleep w = true := by
    unfold asleep
    rw [hpc]
  refine (h.rung htickled).sleeper hasleep (fun c hc => ?_) ?_ (fun v _ => ?_) hturn
  · rw [hsched]
    exact hc
  · rw [hsched]
  · rw [hsched]

/-! ### Steps of the scheduler -/

/-- Another worker moves. -/
theorem goto_blocked {s : Scheduler.Wakeup.State n} {v w : Fin n} (pc : Pc)
    (hv : s.pc v ≠ .blocked) (hw : s.pc w = .blocked) : (s.goto v pc).pc w = .blocked := by
  have hne : w ≠ v := by
    rintro rfl
    exact hv hw
  rw [Scheduler.Wakeup.State.goto_pc_ne s pc hne]
  exact hw

/-- Who is inside `tickle` is not in `epoll_wait`. -/
theorem staged_blocked {s : Scheduler.Wakeup.State n} {c : Caller n}
    (hc : (s.stage c).isSome) {w : Fin n} (hw : s.pc w = .blocked) :
    (s.toWrite c).pc w = .blocked ∧ (s.untickle c).pc w = .blocked := by
  cases c with
  | outside c => exact ⟨hw, hw⟩
  | worker v =>
      have hv : s.pc v ≠ .blocked := by
        intro hblocked
        have hstage : (s.pc v).stage.isSome := hc
        rw [hblocked] at hstage
        cases hstage
      exact ⟨goto_blocked _ hv hw, goto_blocked _ hv hw⟩

/-- A worker leaves `epoll_wait` by waking up. -/
theorem step_blocked {s t : Scheduler.Wakeup.State n} {a : Scheduler.Wakeup.Action n}
    (hs : Scheduler.Wakeup.step s a = some t) {w : Fin n} (hw : s.pc w = .blocked) :
    (∃ event, a = .wake w event) ∨ t.pc w = .blocked := by
  -- every other step moves a worker that is elsewhere
  have hmove : ∀ {u : Scheduler.Wakeup.State n} {v : Fin n} {pc pc' : Pc}, u.pc = s.pc →
      s.pc v = pc → pc ≠ .blocked → (u.goto v pc').pc w = .blocked := by
    intro u v pc pc' hu hpc hne
    refine goto_blocked pc' ?_ (by rw [hu]; exact hw)
    rw [hu, hpc]
    exact hne
  cases a with
  | push c task =>
      simp only [Scheduler.Wakeup.step] at hs
      split_ifs at hs <;> cases hs
      · exact .inr (toTest_blocked c hw)
      · exact .inr hw
  | test c =>
      simp only [Scheduler.Wakeup.step] at hs
      split_ifs at hs with hstage hcount <;> cases hs
      · exact .inr (staged_blocked (by rw [hstage]; rfl) hw).1
      · exact .inr (staged_blocked (by rw [hstage]; rfl) hw).2
  | write c =>
      simp only [Scheduler.Wakeup.step] at hs
      split_ifs at hs with hstage
      cases hs
      have hstaged : (Scheduler.Wakeup.State.stage { s with pipe := s.pipe + 1 } c).isSome := by
        show (s.stage c).isSome
        rw [hstage]
        rfl
      exact .inr (staged_blocked hstaged hw).2
  | wake v event =>
      simp only [Scheduler.Wakeup.step] at hs
      split_ifs at hs
      cases hs
      rcases eq_or_ne w v with rfl | hne
      · exact .inl ⟨event, rfl⟩
      · right
        rw [Scheduler.Wakeup.State.goto_pc_ne s _ hne]
        exact hw
  | resume v =>
      simp only [Scheduler.Wakeup.step] at hs
      split at hs
      · rename_i task hpc
        cases hs
        exact .inr (hmove rfl hpc fun h => by cases h)
      · cases hs
  | finish v =>
      simp only [Scheduler.Wakeup.step] at hs
      split at hs
      · rename_i task hpc
        cases hs
        exact .inr (hmove rfl hpc fun h => by cases h)
      · cases hs
  | scan v | switched v | incIdle v | block v | drain v | yield v | decIdle v =>
      simp only [Scheduler.Wakeup.step] at hs
      split_ifs at hs with hpc
      cases hs
      exact .inr (hmove rfl hpc fun h => by cases h)

theorem follow_timers (s : State n) (a : Scheduler.Wakeup.Action n) :
    (s.follow a).timers = s.timers := by
  unfold follow
  split
  · rfl
  · exact (s.enter_frame _).2.1
  · rfl
  · split <;> rfl
  · split_ifs <;> rfl
  · rfl
  · rfl

/-- No step of the scheduler makes a call urgent, or forgets that a worker has left. -/
theorem follow_calls (s : State n) (a : Scheduler.Wakeup.Action n) (c : Caller n) :
    ((s.follow a).urgent c = true → s.urgent c = true) ∧
      (s.left c = true → (s.follow a).left c = true) := by
  have hclear : ∀ c', Function.update s.urgent c' false c = true → s.urgent c = true := by
    intro c' h
    rcases eq_or_ne c c' with rfl | hne
    · rw [Function.update_self] at h
      cases h
    · rwa [Function.update_of_ne hne] at h
  unfold follow
  split
  · exact ⟨id, id⟩
  · obtain ⟨-, -, hurgent, hleft, -⟩ := s.enter_frame ‹_›
    rw [hurgent, hleft]
    exact ⟨id, id⟩
  · exact ⟨id, fun _ => rfl⟩
  · split
    · exact ⟨id, id⟩
    · exact ⟨id, id⟩
  · split_ifs
    · exact ⟨id, id⟩
    · exact ⟨hclear _, id⟩
  · exact ⟨hclear _, id⟩
  · exact ⟨id, id⟩

/-! ### Who sees to the flag after a step of the scheduler -/

theorem toWrite_stage {s : Scheduler.Wakeup.State n} {c : Caller n} (h : (s.stage c).isSome) :
    ((s.toWrite c).stage c).isSome := by
  cases c with
  | outside c =>
      show (Function.update s.outside c (some Scheduler.Wakeup.Stage.write) c).isSome = true
      rw [Function.update_self]
      rfl
  | worker w =>
      show ((s.goto w (s.pc w).toWrite).pc w).stage.isSome = true
      rw [Scheduler.Wakeup.State.goto_pc_self]
      have hstage : (s.pc w).stage.isSome := h
      revert hstage
      cases s.pc w <;> intro hstage <;> first | rfl | cases hstage

/-- A worker that moves is not inside `tickle` unless it was a caller. -/
theorem goto_stage {s : Scheduler.Wakeup.State n} {w : Fin n} {pc : Pc}
    (hw : (s.pc w).stage = none) {c : Caller n} (hc : (s.stage c).isSome) :
    ((s.goto w pc).stage c).isSome := by
  cases c with
  | outside c => exact hc
  | worker v =>
      have hne : v ≠ w := by
        rintro rfl
        have hstage : (s.pc v).stage.isSome := hc
        rw [hw] at hstage
        cases hstage
      show ((s.goto w pc).pc v).stage.isSome = true
      rw [Scheduler.Wakeup.State.goto_pc_ne s pc hne]
      exact hc

/-- **A push**: its caller is inside `tickle`, or nothing but the queue changes. -/
theorem push_rung {s : State n} (h : s.Rung) {c : Caller n} (hfree : s.sched.free c = true)
    (task : ScheduleTask) (tasks : List ScheduleTask) (tickle : Bool) :
    Rung { s.follow (.push c task) with
      sched := if tickle then { s.sched with m_tasks := tasks }.toTest c
        else { s.sched with m_tasks := tasks } } := by
  cases tickle with
  | true =>
      have hstage := toTest_stage (s := { s.sched with m_tasks := tasks }) hfree
      exact .inl ⟨c, Option.isSome_of_eq_some hstage⟩
  | false =>
      cases c with
      | outside c => exact h
      | worker w =>
          unfold Scheduler.Wakeup.State.free at hfree
          simp only at hfree
          split at hfree
          · rename_i task' hpc
            -- a task, whose worker is in no turn of the idle loop
            have hturn : (s.follow (.push (.worker w) task)).turn = s.turn := by
              unfold follow
              simp only [hpc]
            have hkeep := h
            unfold Rung Tickling heeds asleep at hkeep ⊢
            simp only [hturn]
            exact hkeep
          · rename_i event hpc
            refine rung_of_alert (w := w) ?_
            show alert (s.sched.pc w) = true
            rw [hpc]
            rfl
          · cases hfree

/-- **A task starts**: its worker is out of sight, the others are as they were. -/
theorem resume_rung {s : State n} {w : Fin n} {task : ScheduleTask}
    (hpc : s.sched.pc w = .taken task)
    (h : s.Tickling ∨ 0 < s.sched.pipe ∨ (∃ v, v ≠ w ∧ s.heeds v = true) ∨
      ∀ v, s.asleep v = false) :
    Rung { s with sched := s.sched.goto w (.exec none task) } := by
  have hother : ∀ v, v ≠ w →
      State.heeds { s with sched := s.sched.goto w (.exec none task) } v = s.heeds v ∧
        State.asleep { s with sched := s.sched.goto w (.exec none task) } v = s.asleep v :=
    fun v hv => heeds_congr (Scheduler.Wakeup.State.goto_pc_ne _ _ hv) rfl
  rcases h with ⟨c, hc⟩ | hpos | ⟨v, hne, hv⟩ | hnone
  · exact .inl ⟨c, goto_stage (by rw [hpc]; rfl) hc⟩
  · exact .inr (.inl hpos)
  · refine .inr (.inr (.inl ⟨v, ?_⟩))
    rw [(hother v hne).1]
    exact hv
  · refine .inr (.inr (.inr fun v => ?_))
    rcases eq_or_ne v w with rfl | hne
    · unfold asleep
      simp only [Scheduler.Wakeup.State.goto_pc_self]
    · rw [(hother v hne).2]
      exact hnone v

/-- **A worker blocks** that has called `getNextTimer`: it was asleep already. -/
theorem block_rung {s : State n} (h : s.Rung) {w : Fin n} (hpc : s.sched.pc w = .idling)
    (hadmits : s.admits (.block w) = true) :
    Rung { s.enter w with sched := s.sched.goto w .blocked } := by
  obtain ⟨-, -, -, -, hturn⟩ := s.enter_frame w
  have hasleep : s.asleep w = true := by
    unfold admits at hadmits
    unfold asleep
    rw [hpc]
    simp only at hadmits ⊢
    split at hadmits
    · rename_i hasked
      rw [hasked]
      rfl
    · cases hadmits
  exact h.sleeper hasleep (fun c hc => goto_stage (by rw [hpc]; rfl) hc) (Nat.le_refl _)
    (fun v hv => Scheduler.Wakeup.State.goto_pc_ne _ _ hv) hturn

/-- A worker that moves to where it is alert. -/
theorem goto_rung {s : State n} {u : Scheduler.Wakeup.State n} {w : Fin n} {pc : Pc}
    (h : alert pc = true) : Rung { s with sched := u.goto w pc } := by
  refine rung_of_alert (w := w) ?_
  show alert ((u.goto w pc).pc w) = true
  rw [Scheduler.Wakeup.State.goto_pc_self]
  exact h

/-- **A step of the scheduler** leaves somebody to see to the flag. -/
theorem sched_rung {s : State n} {a : Scheduler.Wakeup.Action n} {u : Scheduler.Wakeup.State n}
    (h : s.Inv) (htickled : s.timers.m_tickled = true) (hfine : s.Fine (.sched a))
    (hadmits : s.admits a = true) (hs : Scheduler.Wakeup.step s.sched a = some u) :
    Rung { s.follow a with sched := u } := by
  have hrung := h.rung htickled
  have hidle := Scheduler.Wakeup.State.step_idle h.idle hs
  cases a with
  | push c task =>
      simp only [Scheduler.Wakeup.step] at hs
      split_ifs at hs with hfree hneed <;> cases hs
      · exact push_rung hrung hfree task _ true
      · exact push_rung hrung hfree task _ false
  | test c =>
      simp only [Scheduler.Wakeup.step] at hs
      split_ifs at hs with hstage hcount <;> cases hs
      · exact .inl ⟨c, toWrite_stage (by rw [hstage]; rfl)⟩
      · -- nobody is idle
        refine rung_of_busy hidle ?_
        have hzero : s.sched.m_idleThreadCount = 0 := by omega
        cases c <;> exact hzero
  | write c =>
      simp only [Scheduler.Wakeup.step] at hs
      split_ifs at hs
      cases hs
      refine .inr (.inl ?_)
      cases c <;> exact Nat.succ_pos _
  | scan w =>
      simp only [Scheduler.Wakeup.step] at hs
      split_ifs at hs
      cases hs
      refine goto_rung ?_
      unfold Scheduler.Wakeup.afterScan
      split
      · rfl
      · split <;> rfl
  | resume w =>
      simp only [Scheduler.Wakeup.step] at hs
      split at hs
      · rename_i task hpc
        cases hs
        exact resume_rung hpc (hfine htickled)
      · cases hs
  | finish w =>
      simp only [Scheduler.Wakeup.step] at hs
      split at hs <;> cases hs
      exact goto_rung rfl
  | incIdle w =>
      simp only [Scheduler.Wakeup.step] at hs
      split_ifs at hs
      cases hs
      refine .inr (.inr (.inl ⟨w, ?_⟩))
      unfold heeds follow
      simp only [Scheduler.Wakeup.State.goto_pc_self, Function.update_self, decide_true]
  | block w =>
      simp only [Scheduler.Wakeup.step] at hs
      split_ifs at hs with hpc
      cases hs
      exact block_rung hrung hpc hadmits
  | switched w | wake w event | drain w | yield w | decIdle w =>
      simp only [Scheduler.Wakeup.step] at hs
      split_ifs at hs
      cases hs
      exact goto_rung rfl

theorem sched_inv {s : State n} {a : Scheduler.Wakeup.Action n} {u : Scheduler.Wakeup.State n}
    (h : s.Inv) (hfine : s.Fine (.sched a)) (hadmits : s.admits a = true)
    (hs : Scheduler.Wakeup.step s.sched a = some u) : Inv { s.follow a with sched := u } where
  idle := Scheduler.Wakeup.State.step_idle h.idle hs
  rung := fun htickled => by
    have hold : s.timers.m_tickled = true := by
      rw [← s.follow_timers a]
      exact htickled
    exact sched_rung h hold hfine hadmits hs
  blocked := fun c hc => by
    obtain ⟨hurgent, hleft⟩ := s.follow_calls a c
    rcases h.blocked c (hurgent hc) with hl | ⟨w, hw⟩
    · exact .inl (hleft hl)
    · rcases step_blocked hs hw with ⟨event, rfl⟩ | hw'
      · exact .inl rfl
      · exact .inr ⟨w, hw'⟩

theorem step_inv {s t : State n} {a : Action n} (h : s.Inv) (hfine : s.Fine a)
    (hs : step s a = some t) : t.Inv := by
  unfold step at hs
  split at hs
  · rename_i i hi
    cases hs
    exact insert_inv h hi
  · cases a with
    | interrupt w =>
        simp only at hs
        split_ifs at hs with hpc
        cases hs
        exact interrupt_inv h hpc
    | sched a =>
        simp only at hs
        split_ifs at hs with hadmits
        obtain ⟨u, hu, rfl⟩ := Option.map_eq_some_iff.mp hs
        exact sched_inv h hfine hadmits hu
    | tick now =>
        simp only at hs
        split_ifs at hs
        cases hs
        exact h.timers rfl rfl rfl fun htickled => (h.rung htickled).congr rfl rfl
    | addTimer | reset | cancel | refresh | getNextTimer | listExpiredCb =>
        exact stepTimers_inv h hs

/-! ### Returning calls -/

/-- Nobody sees to a flag that is set, and a worker is blocked: some thread is inside
`tickle`. -/
theorem Rung.noticed {s : State n} (h : s.Rung) (hsilent : ¬ s.Tickling)
    (hblocked : ∃ w, s.sched.pc w = .blocked) :
    0 < s.sched.pipe ∨ ∃ w, s.heeds w = true := by
  rcases h with htickling | hpos | hheeds | hnone
  · exact absurd htickling hsilent
  · exact .inl hpos
  · exact .inr hheeds
  · obtain ⟨w, hw⟩ := hblocked
    have hasleep := hnone w
    unfold asleep at hasleep
    rw [hw] at hasleep
    cases hasleep

/-- **A suppressed insertion** is noticed exactly if it does not rely on a thread that is
still inside `tickle`. -/
theorem insert_noticed_iff {s : State n} {a : Action n} {i : Insertion n} (h : s.Inv)
    (hi : s.inserts a = some i) (hfront : i.at_front = false) (hurgent : s.Urgent i) :
    (s.insert i).Noticed i.caller ↔
      ¬ s.Tickling ∨ 0 < s.sched.pipe ∨ ∃ w, s.heeds w = true := by
  have hsched : (s.insert i).sched = s.sched := by
    unfold insert
    rw [hfront]
    rfl
  have hheeds : ∀ w, (s.insert i).heeds w = s.heeds w := by
    intro w
    have hpc : (s.insert i).sched.pc w = s.sched.pc w := by rw [hsched]
    exact (heeds_congr hpc rfl).1
  have hleft : (s.insert i).left i.caller = false := Function.update_self ..
  unfold Noticed
  simp only [hsched, hheeds, hleft]
  constructor
  · rintro (hpos | hl | hw)
    · exact .inr (.inl hpos)
    · cases hl
    · exact .inr (.inr hw)
  · rintro (hsilent | hpos | hw)
    · have htickled := (inserts_suppressed hi hfront).2 hurgent.1
      exact ((h.rung htickled).noticed hsilent hurgent.2.1).imp_right .inr
    · exact .inl hpos
    · exact .inr (.inr hw)

/-- A call that leaves `tickle` without a write: all workers have left `epoll_wait`. -/
theorem test_noticed {s : State n} (h : s.Inv) {c : Caller n} (hurgent : s.urgent c = true)
    (hidle : s.sched.m_idleThreadCount = 0) : s.left c = true := by
  rcases h.blocked c hurgent with hl | ⟨w, hw⟩
  · exact hl
  · have hpos : 0 < Workers.tally Pc.idle s.sched.pc :=
      Workers.tally_pos_iff.mpr ⟨w, by rw [hw]; rfl⟩
    rw [← h.idle] at hpos
    omega

/-- **A call that returns** is noticed exactly if its step is admitted. -/
theorem returns_iff {s t : State n} {a : Action n} {c : Caller n} (h : s.Inv)
    (hs : step s a = some t) (hreturns : s.returns a = some c) : t.Noticed c ↔ s.Fine a := by
  unfold step at hs
  unfold returns at hreturns
  -- the caller leaves `tickle`, or its insertion did not call it
  rcases hi : s.inserts a with _ | i
  · rw [hi] at hs hreturns
    cases a with
    | sched a =>
        simp only at hs
        split_ifs at hs
        obtain ⟨u, hu, rfl⟩ := Option.map_eq_some_iff.mp hs
        cases a with
        | test c' =>
            simp only at hreturns
            split_ifs at hreturns with hguard
            cases hreturns
            -- nobody idles, so the worker that was blocked has left `epoll_wait`
            have hleft := (s.follow_calls (.test c) c).2 (test_noticed h hguard.1 hguard.2)
            refine ⟨fun _ i hi => ?_, fun _ => .inr (.inl hleft)⟩
            cases hi
        | write c' =>
            simp only at hreturns
            split_ifs at hreturns
            cases hreturns
            simp only [Scheduler.Wakeup.step] at hu
            split_ifs at hu
            cases hu
            refine ⟨fun _ i hi => ?_, fun _ => .inl ?_⟩
            · cases hi
            · cases c <;> exact Nat.succ_pos _
        | push | scan | resume | finish | switched | incIdle | block | wake | drain | yield
          | decIdle => cases hreturns
    | addTimer | reset | cancel | refresh | getNextTimer | listExpiredCb | interrupt | tick =>
        cases hreturns
  · rw [hi] at hs hreturns
    simp only at hs hreturns
    split_ifs at hreturns with hguard
    cases hreturns
    cases hs
    -- the flag was up already, and the call counts on whoever set it
    have hiff := insert_noticed_iff h hi hguard.2 hguard.1
    have hfine : s.Fine a ↔ ¬ s.Tickling ∨ 0 < s.sched.pipe ∨ ∃ w, s.heeds w = true := by
      have hunique : ∀ i', s.inserts a = some i' → i' = i := fun i' hi' =>
        Option.some.inj (hi'.symm.trans hi)
      cases a with
      | addTimer | reset =>
          refine ⟨fun hall => hall i hi hguard.2 hguard.1, fun hor i' hi' _ _ => hor⟩
      | cancel | refresh | getNextTimer | listExpiredCb | interrupt | sched | tick => cases hi
    exact hiff.trans hfine.symm

/-- **No lost timer notification** in runs whose steps are admitted, for any number of
workers and of outside threads: a call of `addTimer` or `reset` that has met `Urgent` and
returns in the next step is noticed, exactly if that step is admitted too. -/
theorem no_lost_notification {tid : Fin n → Int} {now : UInt64} {s : State n}
    (h : Lts.Reach step Fine (init tid now) s) :
    ∀ a t c, step s a = some t → s.returns a = some c → (t.Noticed c ↔ s.Fine a) := by
  have hinv : s.Inv := h.invariant (init_inv tid now) fun _ _ _ hI hfine hs =>
    step_inv hI hfine hs
  exact fun a t c hs hreturns => returns_iff hinv hs hreturns

end State

/-- A worker finds nothing to do, and sleeps. -/
def sleeps (w : Fin n) : List (Action n) :=
  [.sched (.scan w), .sched (.incIdle w), .getNextTimer w, .sched (.block w)]

/-- A worker sleeps, and an outside thread inserts a timer at the front; its call returns
with the write to the pipe. -/
theorem no_lost_notification_asleep :
    ∃ s t : State 1, Lts.Reach step Fine (init (fun _ => 1) 0) s ∧ t.Noticed (.outside 0) ∧
      s.returns (.sched (.write (.outside 0))) = some (.outside 0) ∧
      step s (.sched (.write (.outside 0))) = some t := by
  have hstart : Lts.Reach step Fine (init (fun _ : Fin 1 => 1) 0) _ := .init
  have hscan := hstart.step (Action.sched (.scan 0)) nofun rfl
  have hidle := hscan.step (Action.sched (.incIdle 0)) nofun rfl
  have hasked := hidle.step (Action.getNextTimer 0) nofun rfl
  have hblocked := hasked.step (Action.sched (.block 0)) nofun rfl
  have hadded := hblocked.step (Action.addTimer (.outside 0) 1 0 1000 (some 7) false)
    (fun i hi hfront => by cases hi; cases hfront) rfl
  have htested := hadded.step (Action.sched (.test (.outside 0))) nofun rfl
  have hiff := no_lost_notification htested (.sched (.write (.outside 0))) _ (.outside 0) rfl rfl
  exact ⟨_, _, htested, hiff.mpr nofun, rfl, rfl⟩

/-- Two workers sleep.  A timer is inserted at the front, and a task is pushed; the first
worker wakes up, empties the pipe and starts the task. -/
def busy (v w : Fin n) : List (Action n) :=
  sleeps v ++ sleeps w ++
  [.addTimer (.outside 0) 1 0 1000 (some 7) false, .sched (.test (.outside 0)),
    .sched (.write (.outside 0)), .sched (.push (.outside 0) ⟨none, some 8, -1⟩),
    .sched (.test (.outside 0)), .sched (.write (.outside 0)), .sched (.wake v true),
    .listExpiredCb v 0 99, .sched (.drain v), .sched (.yield v), .sched (.decIdle v),
    .sched (.scan v), .sched (.resume v)]

/-- **A notification is lost**: after that, a timer that is due before the other worker
times out is inserted at the front, and tickles nobody. -/
theorem notification_lost :
    ¬ ∀ (n : Nat) (tid : Fin n → Int) (now : UInt64) (s t : State n) (a : Action n) (c : Caller n),
      Lts.Reach step Lts.Any (init tid now) s → step s a = some t → s.returns a = some c →
        t.Noticed c := by
  intro h
  have hrun : Lts.run step (busy (0 : Fin 2) 1) (init (fun w => w.val + 1) 0) = some _ := rfl
  rcases h 2 _ 0 _ _ (.addTimer (.outside 0) 2 0 500 (some 9) false) (.outside 0)
    (Lts.reach_of_run hrun) rfl rfl with hpipe | hleft | ⟨w, hw⟩
  · cases hpipe
  · cases hleft
  · revert w
    decide

end Notify

end Will
