/-
ZjhServer/Hook/Timeout.lean

A fiber in `do_io` (server/hook.cc) with a finite timeout, and the workers around it.

Each turn of `do_io` arms a condition timer, registers the event and yields.  The timer's
callback stores `ETIMEDOUT` in `cancelled` and cancels the event; it does so once, a
later callback finds `cancelled` set and returns.  So if the callback runs before the event
is registered, its `cancelEvent` finds nothing, and no other callback will cancel the
event that is registered then: the fiber sleeps on (`timeout_lost`).  In runs where
no timeout callback cancels between the arming, or what comes before it, and the
registration, no timeout is lost (`no_lost_timeout`).
-/
import ZjhServer.IOManager.Registrations
import ZjhServer.Scheduler.Shutdown

namespace Will

namespace Hook

namespace Timeout

def ETIMEDOUT : Nat := 110

/-- A call of `do_io`: its arguments, the fiber and the scheduler that make it, and
the name of its timeout callbacks, the one of turn `k` being `callback + k`.  No other
callback has a name that large. -/
structure Call where
  fd : Nat
  event : IOManager.Event
  scheduler : Nat
  fiber : Nat
  callback : Cb
  timeout : UInt64

/-- Where the fiber is in `do_io`; the timer is that of the turn. -/
inductive Pc
  /-- before `fun` -/
  | call
  /-- before `addConditionTimer` -/
  | arm
  /-- before `addEvent` -/
  | add (timer : Nat)
  /-- before `timer->cancel()`, after `addEvent` has failed -/
  | undo (timer : Nat)
  /-- before `yield` -/
  | yield (timer : Nat)
  | suspended (timer : Nat)
  /-- before `timer->cancel()`, after `yield` -/
  | resumed (timer : Nat)
  /-- before `if(tinfo->cancelled)` -/
  | test
  /-- out of `do_io` -/
  | done
  deriving DecidableEq, Repr

namespace Pc

/-- The timer that `do_io` holds. -/
def timer : Pc → Option Nat
  | .add p | .undo p | .yield p | .suspended p | .resumed p => some p
  | .call | .arm | .test | .done => none

/-- The timer of a turn that has yet to be woken up. -/
def armed : Pc → Option Nat
  | .add p | .yield p | .suspended p => some p
  | _ => none

/-- The event of the turn is not registered yet. -/
def before : Pc → Bool
  | .call | .arm | .add _ => true
  | _ => false

end Pc

/-- Where a worker is. -/
inductive Worker
  /-- before the scan -/
  | scan
  /-- executing the fiber in `do_io` -/
  | fiber
  /-- executing another task -/
  | task
  /-- executing the timeout callback of a turn, before its test of `cancelled` -/
  | check (turn : Nat)
  /-- executing a timeout callback, before its `cancelEvent` -/
  | cancel
  /-- in the idle fiber, before `epoll_wait` is over -/
  | idle
  /-- before `listExpiredCb` -/
  | woken
  /-- with callbacks to schedule, then events to dispatch -/
  | owing (cbs : List (Option Cb))
  deriving DecidableEq, Repr

structure State (n : Nat) where
  tid : Fin n → Int
  m_tasks : List ScheduleTask
  timers : TimerManager
  events : IOManager
  worker : Fin n → Worker
  pc : Pc
  /-- `tinfo->cancelled` -/
  cancelled : Nat
  /-- how many timers the call has armed -/
  turn : Nat

variable {n : Nat}

namespace State

def goto (s : State n) (w : Fin n) (x : Worker) : State n :=
  { s with worker := Function.update s.worker w x }

def push (s : State n) (task : ScheduleTask) : State n :=
  { s with m_tasks := (Scheduler.scheduleNoLock s.m_tasks task).1 }

/-- A step of the events; what it scheduled goes to the queue. -/
def setEvents (s : State n) (scheduler : Nat) (events : IOManager) : State n :=
  { s with
    events := events
    m_tasks := ((events.scheduled.drop s.events.scheduled.length).filterMap
      (·.forScheduler scheduler)).foldl (fun tasks task => (Scheduler.scheduleNoLock tasks task).1)
        s.m_tasks }

/-- Which fibers are `RUNNING`: that of the call unless it is suspended, or as
`running` says once the call is over. -/
def running (s : State n) (c : Call) (running : Nat → Bool) (f : Nat) : Bool :=
  if f = c.fiber then
    match s.pc with
    | .suspended _ => false
    | .done => running f
    | _ => true
  else running f

/-- Worker `w` executes the task it has taken. -/
def take (s : State n) (c : Call) (w : Fin n) (task : ScheduleTask) : State n :=
  match task.fiber with
  | some f =>
      match s.pc with
      | .suspended p =>
          if f = c.fiber then { s with pc := .resumed p }.goto w .fiber else s.goto w .task
      | _ => s.goto w .task
  | none =>
      match task.cb with
      | some cb => s.goto w (if c.callback ≤ cb then .check (cb - c.callback) else .task)
      | none => s.goto w .task

end State

/-! ### Steps -/

/-- A step of the fiber in `do_io`, or of worker `w`. -/
inductive Action (n : Nat)
  | call (again : Bool)
  | arm (timer : Nat) (now : UInt64)
  | add (fails : Bool)
  | undo
  | yield (w : Fin n)
  | disarm
  | test
  | leave (w : Fin n)
  | scan (w : Fin n) (running : Nat → Bool)
  | check (w : Fin n)
  | cancel (w : Fin n) (fails : Bool)
  | schedule (w : Fin n) (task : ScheduleTask)
  | timer (w : Fin n) (op : TimerManager.Op)
  | event (w : Fin n) (a : IOManager.Action)
  | finish (w : Fin n)
  | getNextTimer (w : Fin n) (now : UInt64)
  | wake (w : Fin n) (reports : List (Nat × IOManager.Mask))
  | expire (w : Fin n) (now : UInt64) (probe : Nat)
  | scheduleCb (w : Fin n)
  | dispatch (w : Fin n) (fails : Bool)
  | yieldIdle (w : Fin n)

/-- A step of `do_io`. -/
def stepFiber (c : Call) (s : State n) : Action n → Option (State n)
  | .call again =>
      if s.pc = .call then some { s with pc := if again then .arm else .done } else none
  | .arm p now =>
      if s.pc = .arm then
        (s.timers.step (.addTimer p now c.timeout (some (c.callback + (s.turn + 1))) false)).map
          fun timers => { s with timers := timers, pc := .add p, turn := s.turn + 1 }
      else none
  | .add fails =>
      match s.pc with
      | .add p =>
          (s.events.addEvent c.fd c.event c.scheduler (.fiber c.fiber) fails).map fun r =>
            { s with events := r.1, pc := if r.2 then .yield p else .undo p }
      | _ => none
  | .undo =>
      match s.pc with
      | .undo p =>
          (s.timers.step (.cancel p)).map fun timers => { s with timers := timers, pc := .done }
      | _ => none
  | .yield w =>
      match s.pc with
      | .yield p =>
          if s.worker w = .fiber then some ({ s with pc := .suspended p }.goto w .scan) else none
      | _ => none
  | .disarm =>
      match s.pc with
      | .resumed p =>
          (s.timers.step (.cancel p)).map fun timers => { s with timers := timers, pc := .test }
      | _ => none
  | .test =>
      if s.pc = .test then some { s with pc := if s.cancelled ≠ 0 then .done else .call } else none
  | .leave w =>
      if s.pc = .done ∧ s.worker w = .fiber then some (s.goto w .task) else none
  | _ => none

/-- A step of a worker. -/
def stepWorker (c : Call) (s : State n) : Action n → Option (State n)
  | .scan w running =>
      if s.worker w = .scan then
        let r := Scheduler.scan (s.tid w) (s.running c running) s.m_tasks
        let s := { s with m_tasks := r.m_tasks }
        match r.task with
        | none => some (s.goto w .idle)
        | some task => some (s.take c w task)
      else none
  | .check w =>
      match s.worker w with
      | .check _ =>
          -- once `do_io` has returned, `winfo` gives no `timer_info`
          if s.pc = .done ∨ s.cancelled ≠ 0 then some (s.goto w .scan)
          else some ({ s with cancelled := ETIMEDOUT }.goto w .cancel)
      | _ => none
  | .cancel w fails =>
      if s.worker w = .cancel then
        some ((s.setEvents c.scheduler (s.events.cancelEvent c.fd c.event fails).1).goto w .scan)
      else none
  | .schedule w task => if s.worker w = .task then some (s.push task) else none
  | .timer w op =>
      if s.worker w = .task ∧ op.ofTask ∧ (s.pc.timer.isNone ∨ op.address ≠ s.pc.timer) then
        (s.timers.step op).map fun timers => { s with timers := timers }
      else none
  | .event w a =>
      if s.worker w = .task ∧ a.ofTask ∧ a.waiter ≠ some (.fiber c.fiber) then
        (s.events.step a).map (s.setEvents c.scheduler)
      else none
  | .finish w => if s.worker w = .task then some (s.goto w .scan) else none
  | .getNextTimer w now =>
      if s.worker w = .idle then some { s with timers := (s.timers.getNextTimer now).1 } else none
  | .wake w reports =>
      if s.worker w = .idle then
        (s.events.step (.epollWait w reports)).map fun events =>
          { s with events := events }.goto w .woken
      else none
  | .expire w now probe =>
      if s.worker w = .woken ∧ probe ∉ s.timers.m_timers then
        let r := s.timers.listExpiredCb now probe
        some ({ s with timers := r.1 }.goto w (.owing r.2))
      else none
  | .scheduleCb w =>
      match s.worker w with
      | .owing (cb :: cbs) => some ((s.push ⟨none, cb, -1⟩).goto w (.owing cbs))
      | _ => none
  | .dispatch w fails =>
      if s.worker w = .owing [] then
        (s.events.step (.dispatch w fails)).map (s.setEvents c.scheduler)
      else none
  | .yieldIdle w =>
      if s.worker w = .owing [] ∧ s.events.ready w = [] then some (s.goto w .scan) else none
  | _ => none

/-- A failed assertion ends the process. -/
def step (c : Call) (s : State n) (a : Action n) : Option (State n) :=
  ((stepFiber c s a).or (stepWorker c s a)).filter fun t => !t.events.aborted

/-! ### What may be lost -/

/-- The event of the call is registered with its fiber. -/
def Waits (c : Call) (s : State n) : Prop :=
  s.events.context c.fd c.event = some ((IOManager.Waiter.fiber c.fiber).context c.scheduler)

/-- The timeout callback of the turn. -/
def State.timeoutCb (s : State n) (c : Call) : Cb := c.callback + s.turn

/-- The fiber is suspended with its event registered, its timer is not pending, and its
timeout callback is neither waiting to run nor running, nor is any other about to cancel. -/
structure Lost (c : Call) (s : State n) : Prop where
  suspended : ∃ p, s.pc = .suspended p ∧ p ∉ s.timers.m_timers
  registered : s.events.registered c.fd c.event = true
  waits : Waits c s
  owed : ∀ w cbs, s.worker w = .owing cbs → some (s.timeoutCb c) ∉ cbs
  queued : ∀ task ∈ s.m_tasks, task.cb ≠ some (s.timeoutCb c)
  checked : ∀ w, s.worker w ≠ .check s.turn
  cancelled : ∀ w, s.worker w ≠ .cancel

/-! ### The invariant -/

/-- The timeout callback of the turn has yet to test `cancelled`. -/
inductive Coming (c : Call) (s : State n) (p : Nat) : Prop
  | pending (timer : Timer) (holds : s.timers.Holds p timer)
      (cb : timer.m_cb = some (s.timeoutCb c))
  | owed (w : Fin n) (cbs : List (Option Cb)) (worker : s.worker w = .owing cbs)
      (mem : some (s.timeoutCb c) ∈ cbs)
  | queued (task : ScheduleTask) (mem : task ∈ s.m_tasks) (fiber : task.fiber = none)
      (cb : task.cb = some (s.timeoutCb c))
  | checked (w : Fin n) (worker : s.worker w = .check s.turn)

/-- As long as nobody has stored `ETIMEDOUT`, the callback of an armed turn is to come;
once somebody has, he is about to cancel, unless that has woken the fiber up. -/
structure Inv (c : Call) (s : State n) : Prop where
  timers : s.timers.Inv
  events : s.events.Inv
  coming : s.cancelled = 0 → ∀ p, s.pc.armed = some p → Coming c s p
  cancelling : s.cancelled ≠ 0 → s.pc.before = true ∨ s.pc.armed.isSome = true ∧ Waits c s →
    ∃ w, s.worker w = .cancel

variable {c : Call} {s t : State n}

theorem Inv.not_lost (h : Inv c s) : ¬ Lost c s := by
  rintro ⟨⟨p, hpc, hp⟩, -, hwaits, howed, hqueued, hchecked, hcancel⟩
  by_cases hzero : s.cancelled = 0
  · rcases h.coming hzero p (by rw [hpc]; rfl) with
      ⟨timer, hholds, -⟩ | ⟨w, cbs, hw, hmem⟩ | ⟨task, hmem, -, hcb⟩ | ⟨w, hw⟩
    · exact hp hholds.1
    · exact howed w cbs hw hmem
    · exact hqueued task hmem hcb
    · exact hchecked w hw
  · obtain ⟨w, hw⟩ := h.cancelling hzero (.inr ⟨by rw [hpc]; rfl, hwaits⟩)
    exact hcancel w hw

/-! ### What the pieces of a step keep -/

theorem Coming.mono {p : Nat} (h : Coming c s p) (hturn : t.turn = s.turn)
    (hworker : t.worker = s.worker)
    (htimers : ∀ timer, s.timers.Holds p timer → t.timers.Holds p timer)
    (htasks : ∀ task ∈ s.m_tasks, task ∈ t.m_tasks) : Coming c t p := by
  have hcb : t.timeoutCb c = s.timeoutCb c := by rw [State.timeoutCb, State.timeoutCb, hturn]
  rcases h with ⟨timer, hholds, htimer⟩ | ⟨w, cbs, hw, hmem⟩ | ⟨task, hmem, hfiber, htask⟩ | ⟨w, hw⟩
  · exact .pending timer (htimers timer hholds) (hcb ▸ htimer)
  · exact .owed w cbs (hworker ▸ hw) (hcb ▸ hmem)
  · exact .queued task (htasks task hmem) hfiber (hcb ▸ htask)
  · exact .checked w (by rw [hworker, hturn]; exact hw)

theorem goto_other (s : State n) {w v : Fin n} (x : Worker) (h : v ≠ w) :
    (s.goto w x).worker v = s.worker v := Function.update_of_ne h _ _

theorem goto_self (s : State n) (w : Fin n) (x : Worker) : (s.goto w x).worker w = x :=
  Function.update_self ..

/-- A worker that leaves neither owed callbacks nor a callback moves. -/
theorem Coming.goto {p : Nat} (h : Coming c s p) {w : Fin n} (x : Worker)
    (howing : ∀ cbs, s.worker w = .owing cbs → some (s.timeoutCb c) ∈ cbs →
      Coming c (s.goto w x) p)
    (hcheck : s.worker w = .check s.turn → Coming c (s.goto w x) p) : Coming c (s.goto w x) p := by
  rcases h with ⟨timer, hholds, htimer⟩ | ⟨v, cbs, hv, hmem⟩ | ⟨task, hmem, hfiber, htask⟩ | ⟨v, hv⟩
  · exact .pending timer hholds htimer
  · rcases eq_or_ne v w with rfl | hne
    · exact howing cbs hv hmem
    · exact .owed v cbs ((goto_other s x hne).trans hv) hmem
  · exact .queued task hmem hfiber htask
  · rcases eq_or_ne v w with rfl | hne
    · exact hcheck hv
    · exact .checked v ((goto_other s x hne).trans hv)

/-- Where a worker has no timeout callback in hand. -/
def Worker.free : Worker → Bool
  | .owing cbs => cbs.isEmpty
  | .check _ | .cancel => false
  | _ => true

theorem Coming.goto_free {p : Nat} (h : Coming c s p) {w : Fin n} (x : Worker)
    (hw : (s.worker w).free = true) : Coming c (s.goto w x) p := by
  refine h.goto x (fun cbs howing hmem => ?_) fun hcheck => ?_
  · rw [howing, Worker.free, List.isEmpty_iff] at hw
    rw [hw] at hmem
    cases hmem
  · rw [hcheck] at hw
    cases hw

theorem cancel_goto {w : Fin n} (x : Worker) (hw : s.worker w ≠ .cancel)
    (h : ∃ v, s.worker v = .cancel) : ∃ v, (s.goto w x).worker v = .cancel := by
  obtain ⟨v, hv⟩ := h
  refine ⟨v, (goto_other s x ?_).trans hv⟩
  rintro rfl
  exact hw hv

theorem mem_setEvents {scheduler : Nat} {events : IOManager} {task : ScheduleTask}
    (h : task ∈ s.m_tasks) : task ∈ (s.setEvents scheduler events).m_tasks := by
  unfold State.setEvents
  simp only
  generalize (events.scheduled.drop s.events.scheduled.length).filterMap
    (·.forScheduler scheduler) = new
  generalize s.m_tasks = tasks at h
  induction new generalizing tasks with
  | nil => exact h
  | cons new rest ih => exact ih _ (Scheduler.mem_scheduleNoLock_of_mem h)

/-- The fiber stays where it is. -/
theorem Inv.around (h : Inv c s) (htimers : t.timers.Inv) (hevents : t.events.Inv)
    (hpc : t.pc = s.pc) (hcancelled : t.cancelled = s.cancelled)
    (hcoming : ∀ p, s.pc.armed = some p → Coming c s p → Coming c t p)
    (hwaits : Waits c t → Waits c s)
    (hcancel : (∃ w, s.worker w = .cancel) → ∃ w, t.worker w = .cancel) : Inv c t where
  timers := htimers
  events := hevents
  coming := by
    rw [hpc, hcancelled]
    exact fun hzero p hp => hcoming p hp (h.coming hzero p hp)
  cancelling := by
    rw [hpc, hcancelled]
    exact fun hset hwhere => hcancel (h.cancelling hset
      (hwhere.imp_right fun harmed => ⟨harmed.1, hwaits harmed.2⟩))

/-- A worker with no timeout callback in hand moves. -/
theorem Inv.goto (h : Inv c s) {w : Fin n} (x : Worker) (hw : (s.worker w).free = true) :
    Inv c (s.goto w x) := by
  refine h.around h.timers h.events rfl rfl (fun p _ hp => hp.goto_free x hw) (fun hp => hp) ?_
  refine cancel_goto x fun hcancel => ?_
  rw [hcancel] at hw
  cases hw

/-- Tasks are added to the queue. -/
theorem Inv.push (h : Inv c s) (task : ScheduleTask) : Inv c (s.push task) :=
  h.around h.timers h.events rfl rfl
    (fun _ _ hp => hp.mono rfl rfl (fun _ hholds => hholds)
      fun _ => Scheduler.mem_scheduleNoLock_of_mem)
    (fun hp => hp) fun hcancel => hcancel

/-- A call on the timers that leaves that of the fiber. -/
theorem Inv.setTimers (h : Inv c s) {timers : TimerManager} (hinv : timers.Inv)
    (hholds : ∀ p timer, s.pc.armed = some p → s.timers.Holds p timer → timers.Holds p timer) :
    Inv c { s with timers := timers } :=
  h.around hinv h.events rfl rfl
    (fun p hp hcoming => hcoming.mono rfl rfl (fun timer => hholds p timer hp) fun _ hm => hm)
    (fun hp => hp) fun hcancel => hcancel

/-- A call on the events that does not register the fiber. -/
theorem Inv.setEvents (h : Inv c s) {events : IOManager} (hinv : events.Inv)
    (hwaits : Waits c { s with events := events } → Waits c s) (scheduler : Nat) :
    Inv c (s.setEvents scheduler events) :=
  h.around h.timers hinv rfl rfl
    (fun _ _ hp => hp.mono rfl rfl (fun _ hholds => hholds) fun _ => mem_setEvents)
    hwaits fun hcancel => hcancel

/-! ### The steps of the fiber -/

theorem armed_timer {pc : Pc} {p : Nat} (h : pc.armed = some p) : pc.timer = some p := by
  cases pc <;> simp_all [Pc.armed, Pc.timer]

/-- The timer of a new turn is pending. -/
theorem arm_inv (h : Inv c s) {p : Nat} {now : UInt64} (hpc : s.pc = .arm)
    {timers : TimerManager}
    (hs : s.timers.step (.addTimer p now c.timeout (some (c.callback + (s.turn + 1))) false) =
      some timers) :
    Inv c { s with timers := timers, pc := .add p, turn := s.turn + 1 } where
  timers := TimerManager.step_keeps_inv h.timers hs
  events := h.events
  coming := by
    intro _ q hq
    obtain rfl : p = q := Option.some.inj hq
    rw [TimerManager.step] at hs
    split at hs
    · cases hs
    · rename_i hnew
      cases hs
      have hmem : p ∈ (s.timers.addTimer p now c.timeout
          (some (c.callback + (s.turn + 1))) false).1.m_timers :=
        (TimerManager.mem_insertInto hnew).mpr (.inl rfl)
      have hheap := s.timers.setTimer_heap_same p
        ⟨false, c.timeout, now + c.timeout, some (c.callback + (s.turn + 1))⟩
      exact .pending _ ⟨hmem, hheap⟩ rfl
  cancelling := fun hset _ => h.cancelling hset (.inl (by rw [hpc]; rfl))

/-- The event is registered, and whoever has stored `ETIMEDOUT` still is to cancel it. -/
theorem add_inv (h : Inv c s) {p : Nat} (hpc : s.pc = .add p) {fails b : Bool} {events : IOManager}
    (hs : s.events.addEvent c.fd c.event c.scheduler (.fiber c.fiber) fails = some (events, b)) :
    Inv c { s with events := events, pc := if b then .yield p else .undo p } where
  timers := h.timers
  events := IOManager.addEvent_inv h.events hs
  coming := by
    intro hzero q hq
    have hp : s.pc.armed = some q := by
      cases b with
      | true => rw [hpc]; exact hq
      | false => cases hq
    exact (h.coming hzero q hp).mono rfl rfl (fun _ hholds => hholds) fun _ hm => hm
  cancelling := fun hset _ => h.cancelling hset (.inl (by rw [hpc]; rfl))

/-- The fiber leaves the turn. -/
theorem Inv.leave (h : Inv c s) {timers : TimerManager} (hinv : timers.Inv) {pc : Pc}
    (harmed : pc.armed = none) (hbefore : s.cancelled ≠ 0 → pc.before = false) :
    Inv c { s with timers := timers, pc := pc } where
  timers := hinv
  events := h.events
  coming := fun _ p hp => by
    rw [show pc.armed = some p from hp] at harmed
    cases harmed
  cancelling := by
    rintro hset (htrue | ⟨harm, -⟩)
    · rw [show pc.before = true from htrue] at hbefore
      cases hbefore hset
    · have hnone : pc.armed.isSome = true := harm
      rw [harmed] at hnone
      cases hnone

theorem suspend_inv (h : Inv c s) {p : Nat} (hpc : s.pc = .yield p) :
    Inv c { s with pc := .suspended p } where
  timers := h.timers
  events := h.events
  coming := by
    intro hzero q hq
    have hp : s.pc.armed = some q := by rw [hpc]; exact hq
    exact (h.coming hzero q hp).mono rfl rfl (fun _ hholds => hholds) fun _ hm => hm
  cancelling := by
    rintro hset (hbefore | ⟨-, hwaits⟩)
    · cases hbefore
    · exact h.cancelling hset (.inr ⟨by rw [hpc]; rfl, hwaits⟩)

theorem stepFiber_inv (h : Inv c s) {a : Action n} (hs : stepFiber c s a = some t) : Inv c t := by
  cases a with
  | call again =>
      simp only [stepFiber] at hs
      split at hs
      · rename_i hpc
        cases hs
        -- no timer is armed yet, whether the call returned or asks again
        refine ⟨h.timers, h.events, fun _ p hp => ?_, fun hset _ => ?_⟩
        · cases again <;> cases hp
        · exact h.cancelling hset (.inl (by rw [hpc]; rfl))
      · cases hs
  | arm p now =>
      simp only [stepFiber] at hs
      split_ifs at hs with hpc
      obtain ⟨timers, htimers, rfl⟩ := Option.map_eq_some_iff.mp hs
      exact arm_inv h hpc htimers
  | add fails =>
      simp only [stepFiber] at hs
      split at hs
      · rename_i p hpc
        obtain ⟨⟨events, b⟩, hadd, rfl⟩ := Option.map_eq_some_iff.mp hs
        exact add_inv h hpc hadd
      · cases hs
  | undo =>
      simp only [stepFiber] at hs
      split at hs
      · obtain ⟨timers, htimers, rfl⟩ := Option.map_eq_some_iff.mp hs
        exact h.leave (TimerManager.step_keeps_inv h.timers htimers) rfl fun _ => rfl
      · cases hs
  | yield w =>
      simp only [stepFiber] at hs
      split at hs
      · rename_i p hpc
        split_ifs at hs with hw
        cases hs
        exact (suspend_inv h hpc).goto .scan (by rw [show s.worker w = .fiber from hw]; rfl)
      · cases hs
  | disarm =>
      simp only [stepFiber] at hs
      split at hs
      · obtain ⟨timers, htimers, rfl⟩ := Option.map_eq_some_iff.mp hs
        exact h.leave (TimerManager.step_keeps_inv h.timers htimers) rfl fun _ => rfl
      · cases hs
  | test =>
      simp only [stepFiber] at hs
      split at hs
      · cases hs
        -- a condition that is set ends the call, another one asks the kernel again
        by_cases hset : s.cancelled ≠ 0
        · rw [if_pos hset]
          exact h.leave h.timers rfl fun _ => rfl
        · rw [if_neg hset]
          exact h.leave h.timers rfl fun hne => absurd hne hset
      · cases hs
  | leave w =>
      simp only [stepFiber] at hs
      split_ifs at hs with hpc
      cases hs
      exact h.goto .task (by rw [hpc.2]; rfl)
  | _ => cases hs

/-! ### The steps of the workers -/

/-- What is not registered is nobody's. -/
theorem not_waits (h : s.events.Inv) (hreg : s.events.registered c.fd c.event = false) :
    ¬ Waits c s := by
  intro hwaits
  obtain ⟨ctx, hctx, hcontext⟩ := Option.map_eq_some_iff.mp hwaits
  unfold IOManager.registered at hreg
  rw [hctx] at hreg
  rw [(h.ok _ ctx hctx).empty c.event hreg] at hcontext
  cases hcontext

/-- A step of the events that is not the fiber's does not register it. -/
theorem waits_of_step {a : IOManager.Action} (ha : a.waiter ≠ some (.fiber c.fiber))
    {events : IOManager} (hs : s.events.step a = some events)
    (hwaits : Waits c { s with events := events }) : Waits c s := by
  rcases IOManager.step_context hs hwaits with hnull | hold | ⟨waiter, scheduler, hw, heq⟩
  · cases hnull
  · exact hold
  · cases waiter with
    | cb name => cases heq
    | fiber name =>
        have hname : c.fiber = name := Option.some.inj (congrArg IOManager.EventContext.fiber heq)
        rw [hname] at ha
        exact absurd hw ha

theorem Inv.step_events (h : Inv c s) {a : IOManager.Action}
    (ha : a.waiter ≠ some (.fiber c.fiber)) {events : IOManager}
    (hs : s.events.step a = some events) (halive : events.aborted = false) (scheduler : Nat) :
    Inv c (s.setEvents scheduler events) :=
  h.setEvents (IOManager.step_alive_inv h.events hs halive) (waits_of_step ha hs) scheduler

/-- A task other than the timeout callback is taken from the queue. -/
theorem Inv.dequeue (h : Inv c s) {tasks : List ScheduleTask} {task : ScheduleTask}
    (htasks : ∀ x ∈ s.m_tasks, x = task ∨ x ∈ tasks)
    (hother : task.fiber = none → task.cb ≠ some (s.timeoutCb c)) :
    Inv c { s with m_tasks := tasks } := by
  refine h.around h.timers h.events rfl rfl (fun p _ hp => ?_) (fun hp => hp) fun hcancel => hcancel
  rcases hp with ⟨timer, hholds, htimer⟩ | ⟨v, cbs, hv, hmem⟩ | ⟨x, hmem, hfiber, hcb⟩ | ⟨v, hv⟩
  · exact .pending timer hholds htimer
  · exact .owed v cbs hv hmem
  · rcases htasks x hmem with rfl | hmem
    · exact absurd hcb (hother hfiber)
    · exact .queued x hmem hfiber hcb
  · exact .checked v hv

/-- The timeout callback is taken from the queue and executed. -/
theorem Inv.take_timeout (h : Inv c s) {w : Fin n} (hw : s.worker w = .scan)
    (tasks : List ScheduleTask) : Inv c ({ s with m_tasks := tasks }.goto w (.check s.turn)) := by
  refine h.around h.timers h.events rfl rfl (fun p _ _ => ?_) (fun hp => hp)
    (cancel_goto _ (by rw [hw]; decide))
  exact .checked w (goto_self _ w _)

theorem take_inv (h : Inv c s) {w : Fin n} (hw : s.worker w = .scan) {tasks : List ScheduleTask}
    {task : ScheduleTask} (htasks : ∀ x ∈ s.m_tasks, x = task ∨ x ∈ tasks) :
    Inv c (State.take { s with m_tasks := tasks } c w task) := by
  have hfree : (s.worker w).free = true := by rw [hw]; rfl
  unfold State.take
  rcases hfiber : task.fiber with _ | f
  · rcases hcb : task.cb with _ | cb
    · have hother := h.dequeue htasks fun _ => by rw [hcb]; exact fun heq => by cases heq
      exact hother.goto .task hfree
    · by_cases hname : cb = s.timeoutCb c
      · have hle : c.callback ≤ cb := hname ▸ Nat.le_add_right ..
        have hturn : cb - c.callback = s.turn := by rw [hname]; exact Nat.add_sub_cancel_left ..
        simp only [if_pos hle, hturn]
        exact h.take_timeout hw tasks
      · have hother := h.dequeue htasks fun _ => by
          rw [hcb]
          exact fun heq => hname (Option.some.inj heq)
        exact hother.goto _ hfree
  · have hother := h.dequeue htasks fun hnone => by rw [hfiber] at hnone; cases hnone
    have htask := hother.goto .task hfree
    simp only
    split
    · rename_i p hpc
      split_ifs
      · -- the fiber leaves the turn, whatever woke it up
        have hresumed : Inv c { s with m_tasks := tasks, pc := .resumed p } :=
          hother.leave hother.timers rfl fun _ => rfl
        exact hresumed.goto .fiber hfree
      · exact htask
    · exact htask

/-- A timeout callback stores `ETIMEDOUT` unless somebody has. -/
theorem check_inv (h : Inv c s) {w : Fin n} {k : Nat} (hw : s.worker w = .check k) :
    Inv c (if s.pc = .done ∨ s.cancelled ≠ 0 then s.goto w .scan
      else { s with cancelled := ETIMEDOUT }.goto w .cancel) := by
  have hcancel := cancel_goto (s := s) (w := w) .scan (by rw [hw]; exact fun heq => by cases heq)
  split_ifs with hover
  · refine ⟨h.timers, h.events, fun hzero p hp => ?_, fun hset hwhere =>
      hcancel (h.cancelling hset hwhere)⟩
    rcases hover with hdone | hset
    · have hp : s.pc.armed = some p := hp
      rw [hdone] at hp
      cases hp
    · exact absurd hzero hset
  · have hstored : ETIMEDOUT ≠ 0 := by decide
    exact ⟨h.timers, h.events, fun hzero => absurd hzero hstored, fun _ _ => ⟨w, goto_self _ w _⟩⟩

/-! ### Runs -/

/-- No timeout callback cancels before the fiber has registered the event, and `epoll_ctl`
does not fail it. -/
def Fine (c : Call) (s : State n) : Action n → Prop
  | .cancel _ fails =>
      s.pc.before = false ∧ (s.events.registered c.fd c.event = true → fails = false)
  | _ => True

/-- A timeout callback cancels the event, and the fiber no longer waits. -/
theorem cancel_inv (h : Inv c s) {w : Fin n} (hw : s.worker w = .cancel) {fails : Bool}
    (hfine : Fine c s (.cancel w fails)) :
    Inv c ((s.setEvents c.scheduler (s.events.cancelEvent c.fd c.event fails).1).goto w .scan) := by
  have hevents := IOManager.cancelEvent_inv h.events c.fd c.event fails
  have hreg := IOManager.cancelEvent_registered h.events hfine.2
  refine ⟨h.timers, hevents, fun hzero p hp => ?_, fun _ hwhere => ?_⟩
  · have hcoming := h.coming hzero p hp
    have hqueue := hcoming.mono (t := s.setEvents c.scheduler
      (s.events.cancelEvent c.fd c.event fails).1) rfl rfl (fun _ hholds => hholds)
      fun _ => mem_setEvents
    refine hqueue.goto .scan (fun cbs howing => ?_) fun hcheck => ?_
    · cases hw.symm.trans howing
    · cases hw.symm.trans hcheck
  · rcases hwhere with hbefore | ⟨-, hwaits⟩
    · have hbefore : s.pc.before = true := hbefore
      rw [hfine.1] at hbefore
      cases hbefore
    · exact absurd hwaits (not_waits hevents hreg)

/-- The callbacks of the expired timers are owed. -/
theorem expire_inv (h : Inv c s) {w : Fin n} (hw : s.worker w = .woken) (now : UInt64)
    (probe : Nat) :
    Inv c ({ s with timers := (s.timers.listExpiredCb now probe).1 }.goto w
      (.owing (s.timers.listExpiredCb now probe).2)) := by
  refine h.around (TimerManager.listExpiredCb_spec h.timers now probe).1 h.events rfl rfl
    (fun p _ hp => ?_) (fun hp => hp) (cancel_goto _ (by rw [hw]; decide))
  have howed : some (s.timeoutCb c) ∈ (s.timers.listExpiredCb now probe).2 →
      Coming c ({ s with timers := (s.timers.listExpiredCb now probe).1 }.goto w
        (.owing (s.timers.listExpiredCb now probe).2)) p :=
    fun hmem => .owed w _ (goto_self _ w _) hmem
  rcases hp with ⟨timer, hholds, htimer⟩ | ⟨v, cbs, hv, hmem⟩ | ⟨x, hmem, hfiber, hcb⟩ | ⟨v, hv⟩
  · rcases hholds.listExpiredCb h.timers now probe with hlisted | hstays
    · exact howed (htimer ▸ hlisted)
    · exact .pending timer hstays htimer
  · refine .owed v cbs ((goto_other _ _ ?_).trans hv) hmem
    rintro rfl
    cases hw.symm.trans hv
  · exact .queued x hmem hfiber hcb
  · refine .checked v ((goto_other _ _ ?_).trans hv)
    rintro rfl
    cases hw.symm.trans hv

/-- The first of the callbacks owed is queued. -/
theorem scheduleCb_inv (h : Inv c s) {w : Fin n} {cb : Option Cb} {cbs : List (Option Cb)}
    (hw : s.worker w = .owing (cb :: cbs)) :
    Inv c ((s.push ⟨none, cb, -1⟩).goto w (.owing cbs)) := by
  have hnot : (s.push ⟨none, cb, -1⟩).worker w ≠ .cancel := fun heq => by cases hw.symm.trans heq
  refine (h.push ⟨none, cb, -1⟩).around h.timers h.events rfl rfl (fun p _ hp => ?_) (fun hp => hp)
    (cancel_goto _ hnot)
  refine hp.goto _ (fun cbs' howing hmem => ?_) fun hcheck => ?_
  · obtain rfl : cb :: cbs = cbs' := Worker.owing.inj (hw.symm.trans howing)
    rcases List.mem_cons.mp hmem with heq | hmem
    · refine .queued ⟨none, cb, -1⟩ ?_ rfl heq.symm
      rw [← heq]
      exact Scheduler.mem_scheduleNoLock_self s.m_tasks (s.timeoutCb c) (-1)
    · exact .owed w cbs (goto_self _ w _) hmem
  · cases hw.symm.trans hcheck

/-- A scan takes the first task it may take. -/
theorem scan_inv (h : Inv c s) {w : Fin n} (hw : s.worker w = .scan) (running : Nat → Bool) :
    Inv c (match (Scheduler.scan (s.tid w) (s.running c running) s.m_tasks).task with
      | none => State.goto { s with
          m_tasks := (Scheduler.scan (s.tid w) (s.running c running) s.m_tasks).m_tasks } w .idle
      | some task => State.take { s with
          m_tasks := (Scheduler.scan (s.tid w) (s.running c running) s.m_tasks).m_tasks }
            c w task) := by
  split
  · rename_i hnone
    rw [(Scheduler.scan_none hnone).1]
    exact h.goto .idle (by rw [hw]; rfl)
  · rename_i task hsome
    obtain ⟨earlier, later, hsplit, hleft, -⟩ := Scheduler.scan_split hsome
    refine take_inv h hw fun x hx => ?_
    rw [hsplit] at hx
    rw [hleft]
    simp only [List.mem_append, List.mem_cons] at hx ⊢
    tauto

theorem stepWorker_inv (h : Inv c s) {a : Action n} (hfine : Fine c s a)
    (hs : stepWorker c s a = some t) (halive : t.events.aborted = false) : Inv c t := by
  cases a with
  | scan w running =>
      simp only [stepWorker] at hs
      split at hs
      · rename_i hw
        have hinv := scan_inv h hw running
        split at hs <;> rename_i htask <;> rw [htask] at hinv <;> cases hs <;> exact hinv
      · cases hs
  | check w =>
      simp only [stepWorker] at hs
      split at hs
      · rename_i k hw
        have hinv := check_inv h hw
        split_ifs at hs hinv <;> cases hs <;> exact hinv
      · cases hs
  | cancel w fails =>
      simp only [stepWorker] at hs
      split_ifs at hs with hw
      cases hs
      exact cancel_inv h hw hfine
  | schedule w task =>
      simp only [stepWorker] at hs
      split_ifs at hs
      cases hs
      exact h.push task
  | timer w op =>
      simp only [stepWorker] at hs
      split_ifs at hs with hguard
      obtain ⟨timers, htimers, rfl⟩ := Option.map_eq_some_iff.mp hs
      refine h.setTimers (TimerManager.step_keeps_inv h.timers htimers) fun p timer hp hholds => ?_
      have htimer := armed_timer hp
      -- the armed timer is kept: the call is about another one, and lists no expired ones
      refine hholds.step htimers (fun haddress => ?_) fun now probe hop => ?_
      · rcases hguard.2.2 with hnone | hne
        · rw [htimer] at hnone
          cases hnone
        · exact hne (haddress.trans htimer.symm)
      · have htask := hguard.2.1
        rw [hop] at htask
        cases htask
  | event w a =>
      simp only [stepWorker] at hs
      split_ifs at hs with hguard
      obtain ⟨events, hevents, rfl⟩ := Option.map_eq_some_iff.mp hs
      exact h.step_events hguard.2.2 hevents halive c.scheduler
  | finish w =>
      simp only [stepWorker] at hs
      split_ifs at hs with hw
      cases hs
      exact h.goto .scan (by rw [hw]; rfl)
  | getNextTimer w now =>
      simp only [stepWorker] at hs
      split_ifs at hs
      cases hs
      -- only the tickled flag changes
      refine h.setTimers (TimerManager.getNextTimer_inv h.timers now) fun p timer _ hholds => ?_
      rw [TimerManager.getNextTimer_fst]
      exact hholds
  | wake w reports =>
      simp only [stepWorker] at hs
      split_ifs at hs with hw
      obtain ⟨events, hevents, rfl⟩ := Option.map_eq_some_iff.mp hs
      have hinv := IOManager.step_alive_inv h.events hevents halive
      -- `epoll_wait` hands out reports and leaves the registrations
      have hwoken : Inv c { s with events := events } :=
        h.around h.timers hinv rfl rfl
          (fun p _ hp => hp.mono rfl rfl (fun _ hholds => hholds) fun _ hm => hm)
          (waits_of_step (fun heq => by cases heq) hevents) fun hcancel => hcancel
      exact hwoken.goto .woken (by rw [show s.worker w = .idle from hw]; rfl)
  | expire w now probe =>
      simp only [stepWorker] at hs
      split_ifs at hs with hguard
      cases hs
      exact expire_inv h hguard.1 now probe
  | scheduleCb w =>
      simp only [stepWorker] at hs
      split at hs
      · rename_i cb cbs hw
        cases hs
        exact scheduleCb_inv h hw
      · cases hs
  | dispatch w fails =>
      simp only [stepWorker] at hs
      split_ifs at hs
      obtain ⟨events, hevents, rfl⟩ := Option.map_eq_some_iff.mp hs
      exact h.step_events (fun heq => by cases heq) hevents halive c.scheduler
  | yieldIdle w =>
      simp only [stepWorker] at hs
      split_ifs at hs with hguard
      cases hs
      exact h.goto .scan (by rw [hguard.1]; rfl)
  | _ => cases hs

theorem step_inv (h : Inv c s) {a : Action n} (hfine : Fine c s a) (hs : step c s a = some t) :
    Inv c t := by
  obtain ⟨hor, halive⟩ := Option.filter_eq_some_iff.mp hs
  rcases Option.or_eq_some_iff.mp hor with hfiber | ⟨-, hworker⟩
  · exact stepFiber_inv h hfiber
  · exact stepWorker_inv h hfine hworker (by simpa using halive)

/-- The fiber has called `do_io`. -/
structure Start (s : State n) : Prop where
  timers : s.timers.Inv
  events : s.events.Inv
  pc : s.pc = .call
  cancelled : s.cancelled = 0

theorem Start.inv (h : Start s) : Inv c s where
  timers := h.timers
  events := h.events
  coming := fun _ p hp => by rw [h.pc] at hp; cases hp
  cancelling := fun hset _ => absurd h.cancelled hset

/-- **No timeout is lost** in a run in which no timeout callback cancels before the
registration. -/
theorem no_lost_timeout (c : Call) {s₀ s : State n} (h₀ : Start s₀)
    (h : Lts.Reach (step c) (Fine c) s₀ s) : ¬ Lost c s := by
  have hinv : Inv c s := h.invariant h₀.inv fun _ _ _ hI hfine hs => step_inv hI hfine hs
  exact hinv.not_lost

/-- A read of descriptor 5 with 10 ms to go. -/
def read10 : Call := ⟨5, .READ, 0, 1, 100, 10⟩

/-- Worker 0 executes the fiber, the others wait. -/
def started (n : Nat) : State n where
  tid w := w
  m_tasks := []
  timers := .new 0
  events := .init
  worker w := if w.val = 0 then .fiber else .idle
  pc := .call
  cancelled := 0
  turn := 0

theorem started_start (n : Nat) : Start (started n) where
  timers := TimerManager.new_inv 0
  events := IOManager.init_inv
  pc := rfl
  cancelled := rfl

/-- The timer of a fiber that sleeps has expired, its callback is owed by `w`. -/
def expiring {n : Nat} (host w : Fin n) : List (Action n) :=
  [.call true, .arm 1 0, .add false, .yield host, .wake w [], .expire w 20 2]

/-- The callback is executed by `w`, up to its `cancelEvent`. -/
def checking {n : Nat} (w : Fin n) : List (Action n) :=
  [.scheduleCb w, .yieldIdle w, .scan w (fun _ => false), .check w]

/-- The callback of a fiber that sleeps cancels its event, and so the fiber is queued. -/
theorem no_lost_timeout_asleep :
    ∃ s : State 2, s.pc = .suspended 1 ∧ s.timers.m_timers = [] ∧ s.cancelled = ETIMEDOUT ∧
      s.m_tasks = [⟨some 1, none, -1⟩] ∧ ¬ Lost read10 s := by
  obtain ⟨s, hs, hfacts⟩ := Option.map_eq_some_iff.mp
    (show (Lts.run (step read10) (expiring (0 : Fin 2) 1 ++ checking 1) (started 2)).map
        (fun s => (s.pc, (step read10 s (.cancel 1 false)).map
          fun t => (t.pc, t.timers.m_timers, t.cancelled, t.m_tasks))) =
      some (.suspended 1, some (.suspended 1, [], ETIMEDOUT, [⟨some 1, none, -1⟩]))
      from rfl)
  have hfine : ∀ a ∈ expiring (0 : Fin 2) 1 ++ checking 1, ∀ s, Fine read10 s a := by
    simp [expiring, checking, Fine]
  obtain ⟨hpc, hnext⟩ := Prod.mk.inj hfacts
  obtain ⟨t, ht, hafter⟩ := Option.map_eq_some_iff.mp hnext
  simp only [Prod.mk.injEq] at hafter
  obtain ⟨hpc', htimers, hcancelled, htasks⟩ := hafter
  -- the fiber has registered its event before the callback cancels it
  have hcancel : Fine read10 s (.cancel 1 false) := ⟨by rw [hpc]; rfl, fun _ => rfl⟩
  exact ⟨t, hpc', htimers, hcancelled, htasks, no_lost_timeout read10 (started_start 2)
    ((Lts.Reach.init.run hfine hs).step (.cancel 1 false) hcancel ht)⟩

/-- The timer expires, and its callback runs, before the event is registered. -/
def overtaken {n : Nat} (host w : Fin n) : List (Action n) :=
  [.call true, .arm 1 0, .wake w [], .expire w 20 2, .scheduleCb w, .yieldIdle w,
    .scan w (fun _ => false), .check w, .cancel w false, .add false, .yield host]

/-- **A timeout is lost**: the fiber sleeps, and nobody will cancel its event. -/
theorem timeout_lost :
    ¬ ∀ (s₀ s : State 2), Start s₀ → Lts.Reach (step read10) Lts.Any s₀ s → ¬ Lost read10 s := by
  intro h
  obtain ⟨s, hs, hfacts⟩ := Option.map_eq_some_iff.mp
    (show (Lts.run (step read10) (overtaken (0 : Fin 2) 1) (started 2)).map
        (fun s => (s.pc, s.timers.m_timers, s.m_tasks, s.worker 0, s.worker 1,
          s.events.registered 5 .READ, s.events.context 5 .READ)) =
      some (.suspended 1, [], [], .scan, .scan, true, some ⟨some 0, some 1, none⟩) from rfl)
  simp only [Prod.mk.injEq] at hfacts
  obtain ⟨hpc, htimers, htasks, h0, h1, hregistered, hwaits⟩ := hfacts
  have hworker : ∀ w, s.worker w = .scan := Fin.forall_fin_two.mpr ⟨h0, h1⟩
  apply h _ s (started_start 2) (Lts.reach_of_run hs)
  refine ⟨⟨1, hpc, by rw [htimers]; exact List.not_mem_nil⟩, hregistered, hwaits, ?_, ?_, ?_, ?_⟩
  · intro w cbs hw
    cases (hworker w).symm.trans hw
  · rw [htasks]
    exact fun _ hm => absurd hm List.not_mem_nil
  · intro w hw
    cases (hworker w).symm.trans hw
  · intro w hw
    cases (hworker w).symm.trans hw

end Timeout

end Hook

end Will
