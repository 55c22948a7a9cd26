/-
ZjhServer/Scheduler/Shutdown.lean

Stopping an `IOManager` (server/iomanager.cc, server/scheduler.cc), for any number
of workers, from any state in which `stop()` has set `m_stopping`.

The manager is its task queue, its timers and its events, each the model of its
own module; tasks run by workers may call anything on them.  `stopping(timeout)`
is three steps, and a worker that has seen all three hold ends its idle fiber; it
still takes tasks until a scan gives none.

By the third test the first two may be stale.  A timer or an event that a task adds
is seen by every worker that has yet to make its test, the worker of the task
included; if there is none, because the idle fiber of each has ended or is past the
test, everybody may leave with it pending (`leaves_timer_behind`).  Runs in which
somebody is left to see whatever is added drain everything (`drains_everything`).
-/
import ZjhServer.IOManager.Registrations
import ZjhServer.Lib.Workers
import ZjhServer.Scheduler.Queue
import ZjhServer.Timer.Expire

namespace Will

/-- What a task may do to the timers. -/
def TimerManager.Op.ofTask : TimerManager.Op → Bool
  | .addTimer .. | .cancel .. | .refresh .. | .reset .. => true
  | .getNextTimer .. | .listExpiredCb .. => false

/-- What a task may do to the events. -/
def IOManager.Action.ofTask : IOManager.Action → Bool
  | .addEvent .. | .delEvent .. | .cancelEvent .. | .cancelAll .. => true
  | .epollWait .. | .dispatch .. => false

/-- What `triggerEvent` scheduled, if it is for the scheduler of that name. -/
def IOManager.Task.forScheduler (name : Nat) : IOManager.Task → Option ScheduleTask
  | .cb scheduler f => if scheduler = name then some ⟨none, some f, -1⟩ else none
  | .fiber scheduler f => if scheduler = name then some ⟨f, none, -1⟩ else none

namespace Scheduler

namespace Shutdown

open Workers

/-- Where a worker is. -/
inductive Pc
  /-- before the scan -/
  | scan
  /-- executing a task, counted in `m_activeThreadCount` -/
  | running
  /-- in `stopping(timeout)`, before `getNextTimer()` -/
  | timers
  /-- before `m_pendingEventCount == 0` -/
  | events
  /-- before `Scheduler::stopping()` -/
  | tasks
  /-- in `epoll_wait` -/
  | waiting
  /-- before `listExpiredCb` -/
  | woken
  /-- with callbacks to schedule, then events to dispatch -/
  | owing (cbs : List (Option Cb))
  /-- out of `run` -/
  | left
  deriving DecidableEq, Repr

/-- Counted in `m_activeThreadCount`. -/
def Pc.active : Pc → Bool
  | .running => true
  | _ => false

/-- Inside the idle fiber. -/
def Pc.idle : Pc → Bool
  | .timers | .events | .tasks | .waiting | .woken | .owing _ => true
  | _ => false

/-- The manager, by name among the schedulers, and its workers. -/
structure State (n : Nat) where
  name : Nat
  tid : Fin n → Int
  m_tasks : List ScheduleTask
  timers : TimerManager
  events : IOManager
  m_activeThreadCount : Nat
  pc : Fin n → Pc
  /-- the idle fiber of the worker has ended -/
  term : Fin n → Bool

variable {n : Nat}

namespace State

def goto (s : State n) (w : Fin n) (pc : Pc) : State n :=
  { s with pc := Function.update s.pc w pc }

/-- A step of the events; what it scheduled here goes to the queue. -/
def setEvents (s : State n) (events : IOManager) : State n :=
  { s with
    events := events
    m_tasks := ((events.scheduled.drop s.events.scheduled.length).filterMap
      (·.forScheduler s.name)).foldl (fun tasks task => (scheduleNoLock tasks task).1) s.m_tasks }

/-- Nothing is left to do. -/
def Drained (s : State n) : Prop :=
  s.m_tasks = [] ∧ s.timers.m_timers = [] ∧ s.events.m_pendingEventCount = 0

instance (s : State n) : Decidable s.Drained := inferInstanceAs (Decidable (_ ∧ _ ∧ _))

end State

/-! ### Steps -/

/-- A step of worker `w`; `running` says which fibers are `RUNNING`. -/
inductive Action (n : Nat)
  | scan (w : Fin n) (running : Nat → Bool)
  | schedule (w : Fin n) (task : ScheduleTask)
  | timer (w : Fin n) (op : TimerManager.Op)
  | event (w : Fin n) (a : IOManager.Action)
  | finish (w : Fin n)
  | testTimers (w : Fin n) (now : UInt64)
  | testEvents (w : Fin n)
  | testTasks (w : Fin n)
  | wake (w : Fin n) (reports : List (Nat × IOManager.Mask))
  | expire (w : Fin n) (now : UInt64) (probe : Nat)
  | scheduleCb (w : Fin n)
  | dispatch (w : Fin n) (fails : Bool)
  | yield (w : Fin n)

/-- A step of a process that no failed assertion has ended. -/
def stepAlive (s : State n) : Action n → Option (State n)
  | .scan w running =>
      if s.pc w = .scan then
        let r := Scheduler.scan (s.tid w) running s.m_tasks
        let s := { s with m_tasks := r.m_tasks }
        if r.task.isSome then
          some ({ s with m_activeThreadCount := s.m_activeThreadCount + 1 }.goto w .running)
        else some (s.goto w (if s.term w then .left else .timers))
      else none
  | .schedule w task =>
      if s.pc w = .running then some { s with m_tasks := (scheduleNoLock s.m_tasks task).1 }
      else none
  | .timer w op =>
      if s.pc w = .running && op.ofTask then
        (s.timers.step op).map fun timers => { s with timers := timers }
      else none
  | .event w a =>
      if s.pc w = .running && a.ofTask then (s.events.step a).map s.setEvents else none
  | .finish w =>
      if s.pc w = .running then
        some ({ s with m_activeThreadCount := s.m_activeThreadCount - 1 }.goto w .scan)
      else none
  | .testTimers w now =>
      if s.pc w = .timers then
        let r := s.timers.getNextTimer now
        some ({ s with timers := r.1 }.goto w (if r.2 = ~~~0 then .events else .waiting))
      else none
  | .testEvents w =>
      if s.pc w = .events then
        some (s.goto w (if s.events.m_pendingEventCount = 0 then .tasks else .waiting))
      else none
  | .testTasks w =>
      if s.pc w = .tasks then
        if s.m_tasks = [] ∧ s.m_activeThreadCount = 0 then
          some ({ s with term := Function.update s.term w true }.goto w .scan)
        else some (s.goto w .waiting)
      else none
  | .wake w reports =>
      if s.pc w = .waiting then
        (s.events.step (.epollWait w reports)).map fun events =>
          { s with events := events }.goto w .woken
      else none
  | .expire w now probe =>
      if s.pc w = .woken ∧ probe ∉ s.timers.m_timers then
        let r := s.timers.listExpiredCb now probe
        some ({ s with timers := r.1 }.goto w (.owing r.2))
      else none
  | .scheduleCb w =>
      match s.pc w with
      | .owing (cb :: cbs) =>
          some ({ s with m_tasks := (scheduleNoLock s.m_tasks ⟨none, cb, -1⟩).1 }.goto w
            (.owing cbs))
      | _ => none
  | .dispatch w fails =>
      if s.pc w = .owing [] then (s.events.step (.dispatch w fails)).map s.setEvents else none
  | .yield w =>
      if s.pc w = .owing [] ∧ s.events.ready w = [] then some (s.goto w .scan) else none

def step (s : State n) (a : Action n) : Option (State n) :=
  if s.events.aborted then none else stepAlive s a

/-! ### What is seen -/

namespace State

/-- Worker `v` has yet to test the timers before it can end its idle fiber. -/
structure SeesTimers (s : State n) (v : Fin n) : Prop where
  term : s.term v = false
  events : s.pc v ≠ .events
  tasks : s.pc v ≠ .tasks

/-- Worker `v` has yet to test the events. -/
structure SeesEvents (s : State n) (v : Fin n) : Prop where
  term : s.term v = false
  tasks : s.pc v ≠ .tasks

/-- Somebody has yet to see the timers and the events that are pending. -/
structure Watched (s : State n) : Prop where
  timers : s.timers.m_timers ≠ [] → ∃ v, s.SeesTimers v
  events : s.events.m_pendingEventCount ≠ 0 → ∃ v, s.SeesEvents v

/-- A timer or an event is added while somebody is left to see it; and a clock that
reads 0 is not taken for a distance of `~0ull`. -/
def Attended (s : State n) : Action n → Prop
  | .timer _ (.addTimer ..) => ∃ v, s.SeesTimers v
  | .event _ (.addEvent ..) => ∃ v, s.SeesEvents v
  | .testTimers _ now =>
      now = 0 → ∀ p, s.timers.m_timers.head? = some p → (s.timers.heap p).m_next ≠ ~~~0
  | _ => True

end State

/-- Into an empty set only `addTimer` puts a timer. -/
theorem timers_nil {s t : TimerManager} {op : TimerManager.Op} (hs : s.step op = some t)
    (hop : ∀ p now ms cb recurring, op ≠ .addTimer p now ms cb recurring)
    (hnil : s.m_timers = []) : t.m_timers = [] := by
  have hfind : ∀ p, s.find p = none := fun p => by rw [TimerManager.find, hnil]; rfl
  cases op with
  | addTimer p now ms cb recurring => exact absurd rfl (hop p now ms cb recurring)
  | cancel p =>
      obtain ⟨⟨u, b⟩, hu, rfl⟩ := Option.map_eq_some_iff.mp hs
      unfold TimerManager.cancel at hu
      split_ifs at hu
      · obtain ⟨it, -, hu⟩ := Option.bind_eq_some_iff.mp hu
        cases hu
        show s.m_timers.erase it = []
        rw [hnil]
        rfl
      · cases hu
        exact hnil
  | refresh p now =>
      cases hs
      unfold TimerManager.refresh
      simp only [hfind p]
      split_ifs <;> exact hnil
  | reset p now ms from_now =>
      cases hs
      unfold TimerManager.reset
      simp only [hfind p]
      split_ifs <;> exact hnil
  | getNextTimer now =>
      cases hs
      unfold TimerManager.getNextTimer
      simp only [hnil]
  | listExpiredCb now probe =>
      simp only [TimerManager.step] at hs
      split_ifs at hs
      cases hs
      unfold TimerManager.listExpiredCb
      simp only [hnil]

/-- The timers do not change, and the answer is `~0ull` for none; for a clock that reads 0 also
for one due at the end of time. -/
theorem getNextTimer_sees (s : TimerManager) (now : UInt64) :
    (s.getNextTimer now).1.m_timers = s.m_timers ∧ ((s.getNextTimer now).2 = ~~~0 →
      s.m_timers ≠ [] → now = 0 ∧ ∃ p, s.m_timers.head? = some p ∧ (s.heap p).m_next = ~~~0) := by
  unfold TimerManager.getNextTimer
  cases hl : s.m_timers with
  | nil => exact ⟨rfl, fun _ h => absurd rfl h⟩
  | cons p ps =>
      simp only
      split_ifs with hdue
      · exact ⟨rfl, fun h => absurd (show (0 : UInt64) = ~~~0 from h) (by decide)⟩
      · refine ⟨rfl, fun h _ => ?_⟩
        have hnone : (s.heap p).m_next - now = ~~~0 := h
        have hlt : now.toNat < (s.heap p).m_next.toNat := by
          rw [ge_iff_le, UInt64.not_le] at hdue
          exact hdue
        have hsub : (s.heap p).m_next.toNat - now.toNat = 18446744073709551615 := by
          rw [← UInt64.toNat_sub_of_le _ _ (Nat.le_of_lt hlt), hnone]
          rfl
        have hmax := (s.heap p).m_next.toNat_lt
        refine ⟨UInt64.toNat_inj.mp ?_, p, rfl, UInt64.toNat_inj.mp ?_⟩
        · show now.toNat = 0
          omega
        · show (s.heap p).m_next.toNat = 18446744073709551615
          omega

/-! ### The invariant -/

namespace State

/-- When `stop()` has set `m_stopping`: the workers are anywhere, but no idle fiber
has ended. -/
structure Start (s : State n) : Prop where
  active : s.m_activeThreadCount = tally Pc.active s.pc
  term : ∀ w, s.term w = false
  left : ∀ w, s.pc w ≠ .left
  manager : s.events.Inv
  counted : s.events.Counted

structure Inv (s : State n) : Prop where
  active : s.m_activeThreadCount = tally Pc.active s.pc
  left : ∀ w, s.pc w = .left → s.term w = true
  term : ∀ w, s.term w = true → (s.pc w).idle = false
  /-- once every idle fiber has ended nothing is queued, and nobody executes anything -/
  done : (∀ w, s.term w = true) → s.m_tasks = [] ∧ s.m_activeThreadCount = 0
  watched : s.Watched
  manager : s.events.Inv
  counted : s.events.Counted

theorem Start.inv {s : State n} (h : s.Start) (hn : 1 ≤ n) (hwatched : s.Watched) : s.Inv where
  active := h.active
  left := fun w hw => absurd hw (h.left w)
  term := fun w hw => by rw [h.term w] at hw; cases hw
  done := fun hall => by
    have hfirst := hall ⟨0, hn⟩
    rw [h.term] at hfirst
    cases hfirst
  watched := hwatched
  manager := h.manager
  counted := h.counted

/-- Once every idle fiber has ended, nobody has seen anything pending. -/
theorem Inv.drained {s : State n} (h : s.Inv) (hall : ∀ w, s.term w = true) : s.Drained := by
  refine ⟨(h.done hall).1, ?_, ?_⟩
  · by_contra hne
    obtain ⟨v, hv⟩ := h.watched.timers hne
    cases (hall v).symm.trans hv.term
  · by_contra hne
    obtain ⟨v, hv⟩ := h.watched.events hne
    cases (hall v).symm.trans hv.term

/-- While a worker executes a task or is in its idle fiber, some idle fiber has not
ended. -/
theorem Inv.not_all_term {s : State n} (h : s.Inv) {w : Fin n}
    (hw : (s.pc w).active = true ∨ (s.pc w).idle = true) : ¬ ∀ v, s.term v = true := by
  intro hall
  rcases hw with hactive | hidle
  · have hpos : 0 < tally Pc.active s.pc := tally_pos_iff.mpr ⟨w, hactive⟩
    rw [← h.active, (h.done hall).2] at hpos
    cases hpos
  · rw [h.term w (hall w)] at hidle
    cases hidle

/-- A step inside a task, or inside the idle fiber, that changes the queue, the
timers or the events only. -/
theorem Inv.work {s t : State n} (h : s.Inv) {w : Fin n}
    (hw : (s.pc w).active = true ∨ (s.pc w).idle = true)
    (hactive : t.m_activeThreadCount = s.m_activeThreadCount) (hpc : t.pc = s.pc)
    (hterm : t.term = s.term) (htimers : t.timers.m_timers ≠ [] → ∃ v, s.SeesTimers v)
    (hevents : t.events.m_pendingEventCount ≠ 0 → ∃ v, s.SeesEvents v)
    (hmanager : t.events.Inv) (hcounted : t.events.Counted) : t.Inv where
  active := by rw [hactive, hpc]; exact h.active
  left := by rw [hpc, hterm]; exact h.left
  term := by rw [hpc, hterm]; exact h.term
  done := by rw [hterm]; exact fun hall => absurd hall (h.not_all_term hw)
  watched := by
    refine ⟨fun hne => ?_, fun hne => ?_⟩
    · obtain ⟨v, hv⟩ := htimers hne
      exact ⟨v, by rw [hterm]; exact hv.term, by rw [hpc]; exact hv.events,
        by rw [hpc]; exact hv.tasks⟩
    · obtain ⟨v, hv⟩ := hevents hne
      exact ⟨v, by rw [hterm]; exact hv.term, by rw [hpc]; exact hv.tasks⟩
  manager := hmanager
  counted := hcounted

/-- Worker `w` goes to `c`, and perhaps ends its idle fiber, which only a worker that has seen
everything pending does. -/
theorem Inv.moved {s t : State n} (h : s.Inv) {w : Fin n} {c : Pc}
    (hactive : t.m_activeThreadCount + (s.pc w).active.toNat =
      s.m_activeThreadCount + c.active.toNat)
    (hpc : t.pc = Function.update s.pc w c) (hterm : ∀ v, v ≠ w → t.term v = s.term v)
    (hleft : c = .left → t.term w = true) (hidle : t.term w = true → c.idle = false)
    (hdone : (∀ v, t.term v = true) → t.m_tasks = [] ∧ t.m_activeThreadCount = 0)
    (htimers : t.timers.m_timers ≠ [] → s.timers.m_timers ≠ [] ∧
      (s.SeesTimers w → t.SeesTimers w))
    (hevents : t.events.m_pendingEventCount ≠ 0 → s.events.m_pendingEventCount ≠ 0 ∧
      (s.SeesEvents w → t.SeesEvents w))
    (hmanager : t.events.Inv) (hcounted : t.events.Counted) : t.Inv where
  active := by
    have hupd := tally_update Pc.active s.pc w c
    rw [← h.active] at hupd
    rw [hpc]
    omega
  left := by
    intro v hv
    rw [hpc] at hv
    rcases eq_or_ne v w with rfl | hne
    · rw [Function.update_self] at hv
      exact hleft hv
    · rw [Function.update_of_ne hne] at hv
      rw [hterm v hne]
      exact h.left v hv
  term := by
    intro v hv
    rw [hpc]
    rcases eq_or_ne v w with rfl | hne
    · rw [Function.update_self]
      exact hidle hv
    · rw [Function.update_of_ne hne]
      rw [hterm v hne] at hv
      exact h.term v hv
  done := hdone
  watched := by
    -- the others stand where they stood
    have hother : ∀ v, v ≠ w → t.pc v = s.pc v := fun v hne => by
      rw [hpc, Function.update_of_ne hne]
    refine ⟨fun hne => ?_, fun hne => ?_⟩
    · obtain ⟨hold, hself⟩ := htimers hne
      obtain ⟨v, hv⟩ := h.watched.timers hold
      rcases eq_or_ne v w with rfl | hvw
      · exact ⟨v, hself hv⟩
      · exact ⟨v, (hterm v hvw).trans hv.term, (hother v hvw).symm ▸ hv.events,
          (hother v hvw).symm ▸ hv.tasks⟩
    · obtain ⟨hold, hself⟩ := hevents hne
      obtain ⟨v, hv⟩ := h.watched.events hold
      rcases eq_or_ne v w with rfl | hvw
      · exact ⟨v, hself hv⟩
      · exact ⟨v, (hterm v hvw).trans hv.term, (hother v hvw).symm ▸ hv.tasks⟩
  manager := hmanager
  counted := hcounted

/-- A worker in a task or in its idle fiber moves, and does not end the fiber; it goes past a
test only when the test holds. -/
theorem Inv.move {s t : State n} (h : s.Inv) {w : Fin n} {c : Pc}
    (hw : (s.pc w).active = true ∨ (s.pc w).idle = true)
    (hactive : t.m_activeThreadCount + (s.pc w).active.toNat =
      s.m_activeThreadCount + c.active.toNat)
    (hpc : t.pc = Function.update s.pc w c) (hterm : t.term = s.term) (hleft : c ≠ .left)
    (hidle : c.idle = true → (s.pc w).idle = true)
    (htimers : t.timers.m_timers ≠ [] → s.timers.m_timers ≠ [] ∧
      (c = .events ∨ c = .tasks → s.pc w = .events ∨ s.pc w = .tasks))
    (hevents : t.events.m_pendingEventCount ≠ 0 → s.events.m_pendingEventCount ≠ 0 ∧ c ≠ .tasks)
    (hmanager : t.events.Inv) (hcounted : t.events.Counted) : t.Inv := by
  have hself : t.pc w = c := by rw [hpc, Function.update_self]
  refine h.moved hactive hpc (fun v _ => congrFun hterm v) (fun hc => absurd hc hleft) ?_ ?_
    (fun hne => ⟨(htimers hne).1, fun hv => ?_⟩) (fun hne => ⟨(hevents hne).1, fun hv => ?_⟩)
    hmanager hcounted
  · intro hw'
    rw [hterm] at hw'
    have hnot := h.term w hw'
    rcases hc : c.idle with _ | _
    · rfl
    · rw [hidle hc] at hnot
      cases hnot
  · rw [hterm]
    exact fun hall => absurd hall (h.not_all_term hw)
  · have hpast := (htimers hne).2
    refine ⟨by rw [hterm]; exact hv.term, ?_, ?_⟩ <;> rw [hself] <;> rintro rfl
    · exact (hpast (.inl rfl)).elim hv.events hv.tasks
    · exact (hpast (.inr rfl)).elim hv.events hv.tasks
  · refine ⟨by rw [hterm]; exact hv.term, ?_⟩
    rw [hself]
    exact (hevents hne).2

/-! ### Each step -/

/-- A scan takes a task, or it ends the worker if its idle fiber has ended. -/
theorem scan_inv {s t : State n} (h : s.Inv) {w : Fin n} {running : Nat → Bool}
    (hs : stepAlive s (.scan w running) = some t) : t.Inv := by
  simp only [stepAlive] at hs
  have hself : ∀ (s : State n) (c : Pc), (s.goto w c).pc w = c := fun s c =>
    Function.update_self ..
  split_ifs at hs with hpc htask hterm <;> cases hs
  · refine h.moved (c := .running) (by rw [hpc]; rfl) rfl (fun _ _ => rfl)
      (fun hleft => by cases hleft) (fun _ => rfl) (fun hall => ?_)
      (fun hne => ⟨hne, fun hv => ⟨hv.term, ?_, ?_⟩⟩) (fun hne => ⟨hne, fun hv => ⟨hv.term, ?_⟩⟩)
      h.manager h.counted
    · -- nothing is queued once every idle fiber has ended
      rw [(h.done hall).1] at htask
      cases htask
    all_goals rw [hself]; decide
  · refine h.moved (c := .left) (by rw [hpc]; rfl) rfl (fun _ _ => rfl)
      (fun _ => hterm) (fun _ => rfl) (fun hall => ?_)
      (fun hne => ⟨hne, fun hv => ⟨hv.term, ?_, ?_⟩⟩) (fun hne => ⟨hne, fun hv => ⟨hv.term, ?_⟩⟩)
      h.manager h.counted
    · obtain ⟨hnil, hzero⟩ := h.done hall
      refine ⟨?_, hzero⟩
      show (Scheduler.scan (s.tid w) running s.m_tasks).m_tasks = []
      rw [hnil]
      rfl
    all_goals rw [hself]; decide
  · refine h.moved (c := .timers) (by rw [hpc]; rfl) rfl (fun _ _ => rfl)
      (fun hleft => by cases hleft) (fun hw => absurd hw hterm) (fun hall => absurd (hall w) hterm)
      (fun hne => ⟨hne, fun hv => ⟨hv.term, ?_, ?_⟩⟩) (fun hne => ⟨hne, fun hv => ⟨hv.term, ?_⟩⟩)
      h.manager h.counted
    all_goals rw [hself]; decide

/-- An idle fiber ends: its worker has seen that nothing is pending, or somebody else is to see
it. -/
theorem term_inv {s : State n} (h : s.Inv) {w : Fin n} (hpc : s.pc w = .tasks)
    (htasks : s.m_tasks = []) (hzero : s.m_activeThreadCount = 0) :
    Inv ({ s with term := Function.update s.term w true }.goto w .scan) :=
  h.moved (c := .scan) (by rw [hpc]; rfl) rfl (fun v hne => Function.update_of_ne hne ..)
    (fun hleft => by cases hleft) (fun _ => rfl) (fun _ => ⟨htasks, hzero⟩)
    (fun hne => ⟨hne, fun hv => absurd hpc hv.tasks⟩)
    (fun hne => ⟨hne, fun hv => absurd hpc hv.tasks⟩) h.manager h.counted

/-- The first test. -/
theorem testTimers_inv {s : State n} (h : s.Inv) {w : Fin n} {now : UInt64}
    (hpc : s.pc w = .timers) (hclock : s.Attended (.testTimers w now)) :
    Inv ({ s with timers := (s.timers.getNextTimer now).1 }.goto w
      (if (s.timers.getNextTimer now).2 = ~~~0 then .events else .waiting)) := by
  obtain ⟨hkept, hsees⟩ := getNextTimer_sees s.timers now
  refine h.move (.inr (by rw [hpc]; rfl)) ?_ rfl rfl ?_ (fun _ => by rw [hpc]; rfl)
    (fun hne => ?_) (fun hne => ⟨hne, ?_⟩) h.manager h.counted
  · rw [hpc]
    split_ifs <;> rfl
  · split_ifs <;> decide
  · have hold : s.timers.m_timers ≠ [] := hkept ▸ hne
    refine ⟨hold, fun hc => ?_⟩
    by_cases hnone : (s.timers.getNextTimer now).2 = ~~~0
    · obtain ⟨hnow, p, hp, hnext⟩ := hsees hnone hold
      exact absurd hnext (hclock hnow p hp)
    · rw [if_neg hnone] at hc
      rcases hc with hc | hc <;> cases hc
  · split_ifs <;> decide

/-- Nothing outside a task adds an event, and only `addEvent` inside one. -/
theorem events_zero {s t : IOManager} {a : IOManager.Action} (hinv : s.Inv) (h : s.Counted)
    (ha : a.waiter = none) (hs : s.step a = some t) (hne : t.m_pendingEventCount ≠ 0) :
    s.m_pendingEventCount ≠ 0 := fun hzero =>
  hne (IOManager.step_pending_zero hinv h hzero ha hs)

theorem step_inv {s t : State n} {a : Action n} (h : s.Inv) (hattended : s.Attended a)
    (hs : step s a = some t) (halive : t.events.aborted = false) : t.Inv := by
  unfold step at hs
  split at hs
  · cases hs
  cases a with
  | scan w running => exact scan_inv h hs
  | schedule w task =>
      simp only [stepAlive] at hs
      split_ifs at hs with hpc
      cases hs
      exact h.work (.inl (by rw [hpc]; rfl)) rfl rfl rfl h.watched.timers h.watched.events
        h.manager h.counted
  | timer w op =>
      simp only [stepAlive] at hs
      split_ifs at hs with hpc
      obtain ⟨timers, hstep, rfl⟩ := Option.map_eq_some_iff.mp hs
      rw [Bool.and_eq_true, decide_eq_true_eq] at hpc
      refine h.work (.inl (by rw [hpc.1]; rfl)) rfl rfl rfl (fun hne => ?_) h.watched.events
        h.manager h.counted
      by_cases hadd : ∃ p now ms cb recurring, op = .addTimer p now ms cb recurring
      · obtain ⟨p, now, ms, cb, recurring, rfl⟩ := hadd
        exact hattended
      · refine h.watched.timers fun hnil => hne (timers_nil hstep ?_ hnil)
        rintro p now ms cb recurring rfl
        exact hadd ⟨p, now, ms, cb, recurring, rfl⟩
  | event w a =>
      simp only [stepAlive] at hs
      split_ifs at hs with hpc
      obtain ⟨events, hstep, rfl⟩ := Option.map_eq_some_iff.mp hs
      rw [Bool.and_eq_true, decide_eq_true_eq] at hpc
      refine h.work (.inl (by rw [hpc.1]; rfl)) rfl rfl rfl h.watched.timers (fun hne => ?_)
        (IOManager.step_alive_inv h.manager hstep halive)
        (IOManager.step_counted h.manager h.counted hstep halive)
      cases a with
      | addEvent fd event scheduler waiter fails => exact hattended
      | _ => exact h.watched.events (events_zero h.manager h.counted rfl hstep hne)
  | finish w =>
      simp only [stepAlive] at hs
      split_ifs at hs with hpc
      cases hs
      -- the worker that finishes is one of those counted, so the counter does not wrap
      have hpos : 0 < s.m_activeThreadCount := by
        rw [h.active, tally_pos_iff]
        exact ⟨w, by rw [hpc]; rfl⟩
      refine h.move (.inl (by rw [hpc]; rfl)) ?_ rfl rfl (by decide) (fun hidle => by cases hidle)
        (fun hne => ⟨hne, by simp⟩) (fun hne => ⟨hne, by decide⟩) h.manager h.counted
      rw [hpc]
      show s.m_activeThreadCount - 1 + 1 = s.m_activeThreadCount + 0
      omega
  | testTimers w now =>
      simp only [stepAlive] at hs
      split_ifs at hs with hpc <;> cases hs
      · have hinv := testTimers_inv h hpc hattended
        rwa [if_pos ‹_›] at hinv
      · have hinv := testTimers_inv h hpc hattended
        rwa [if_neg ‹_›] at hinv
  | testEvents w =>
      simp only [stepAlive] at hs
      split_ifs at hs with hpc hzero <;> cases hs
      · exact h.move (.inr (by rw [hpc]; rfl)) (by rw [hpc]; rfl) rfl rfl (by decide)
          (fun _ => by rw [hpc]; rfl) (fun hne => ⟨hne, fun _ => .inl hpc⟩)
          (fun hne => absurd hzero hne) h.manager h.counted
      · exact h.move (.inr (by rw [hpc]; rfl)) (by rw [hpc]; rfl) rfl rfl (by decide)
          (fun _ => by rw [hpc]; rfl) (fun hne => ⟨hne, fun _ => .inl hpc⟩)
          (fun hne => ⟨hne, by decide⟩) h.manager h.counted
  | testTasks w =>
      simp only [stepAlive] at hs
      split_ifs at hs with hpc hdone <;> cases hs
      · -- all tests passed: the worker ends
        exact term_inv h hpc hdone.1 hdone.2
      · exact h.move (.inr (by rw [hpc]; rfl)) (by rw [hpc]; rfl) rfl rfl (by decide)
          (fun _ => by rw [hpc]; rfl) (fun hne => ⟨hne, fun _ => .inr hpc⟩)
          (fun hne => ⟨hne, by decide⟩) h.manager h.counted
  | wake w reports =>
      simp only [stepAlive] at hs
      split_ifs at hs with hpc
      obtain ⟨events, hstep, rfl⟩ := Option.map_eq_some_iff.mp hs
      exact h.move (.inr (by rw [hpc]; rfl)) (by rw [hpc]; rfl) rfl rfl (by decide)
        (fun _ => by rw [hpc]; rfl) (fun hne => ⟨hne, by simp⟩)
        (fun hne => ⟨events_zero h.manager h.counted rfl hstep hne, by decide⟩)
        (IOManager.step_alive_inv h.manager hstep halive)
        (IOManager.step_counted h.manager h.counted hstep halive)
  | expire w now probe =>
      simp only [stepAlive] at hs
      split_ifs at hs with hpc
      cases hs
      have hstep : s.timers.step (.listExpiredCb now probe) =
          some (s.timers.listExpiredCb now probe).1 := if_neg hpc.2
      refine h.move (.inr (by rw [hpc.1]; rfl)) (by rw [hpc.1]; rfl) rfl rfl (by simp)
        (fun _ => by rw [hpc.1]; rfl) (fun hne => ⟨fun hnil => hne ?_, by simp⟩)
        (fun hne => ⟨hne, by simp⟩) h.manager h.counted
      exact timers_nil hstep (by simp) hnil
  | scheduleCb w =>
      simp only [stepAlive] at hs
      split at hs
      · rename_i cb cbs hpc
        cases hs
        exact h.move (.inr (by rw [hpc]; rfl)) (by rw [hpc]; rfl) rfl rfl (by simp)
          (fun _ => by rw [hpc]; rfl) (fun hne => ⟨hne, by simp⟩) (fun hne => ⟨hne, by simp⟩)
          h.manager h.counted
      · cases hs
  | dispatch w fails =>
      simp only [stepAlive] at hs
      split_ifs at hs with hpc
      obtain ⟨events, hstep, rfl⟩ := Option.map_eq_some_iff.mp hs
      exact h.work (.inr (by rw [hpc]; rfl)) rfl rfl rfl h.watched.timers
        (fun hne => h.watched.events (events_zero h.manager h.counted rfl hstep hne))
        (IOManager.step_alive_inv h.manager hstep halive)
        (IOManager.step_counted h.manager h.counted hstep halive)
  | yield w =>
      simp only [stepAlive] at hs
      split_ifs at hs with hpc
      cases hs
      exact h.move (.inr (by rw [hpc.1]; rfl)) (by rw [hpc.1]; rfl) rfl rfl (by decide)
        (fun hidle => by cases hidle) (fun hne => ⟨hne, by simp⟩) (fun hne => ⟨hne, by decide⟩)
        h.manager h.counted

/-- An assertion that fails stops its worker, before it has left. -/
theorem step_aborts {s t : State n} {a : Action n} (hs : step s a = some t)
    (haborted : t.events.aborted = true) : ∃ w, t.pc w ≠ .left := by
  unfold step at hs
  split at hs
  · cases hs
  rename_i halive
  cases a with
  | event w a =>
      simp only [stepAlive] at hs
      split_ifs at hs with hpc
      obtain ⟨events, -, rfl⟩ := Option.map_eq_some_iff.mp hs
      rw [Bool.and_eq_true, decide_eq_true_eq] at hpc
      exact ⟨w, by show s.pc w ≠ _; rw [hpc.1]; decide⟩
  | dispatch w fails =>
      simp only [stepAlive] at hs
      split_ifs at hs with hpc
      obtain ⟨events, -, rfl⟩ := Option.map_eq_some_iff.mp hs
      exact ⟨w, by show s.pc w ≠ _; rw [hpc]; simp⟩
  | wake w reports =>
      simp only [stepAlive] at hs
      split_ifs at hs with hpc
      obtain ⟨events, -, rfl⟩ := Option.map_eq_some_iff.mp hs
      exact ⟨w, by show Function.update s.pc w .woken w ≠ _; simp⟩
  | timer w op =>
      simp only [stepAlive] at hs
      split_ifs at hs
      obtain ⟨timers, -, rfl⟩ := Option.map_eq_some_iff.mp hs
      exact absurd haborted halive
  | scheduleCb w =>
      simp only [stepAlive] at hs
      split at hs
      · cases hs
        exact absurd haborted halive
      · cases hs
  | _ =>
      -- every other step leaves the events alone
      simp only [stepAlive] at hs
      split_ifs at hs <;> cases hs <;> exact absurd haborted halive

/-! ### Runs -/

/-- **Shutdown drains everything** in runs in which somebody is left to see whatever is
pending at first or added later, for any number of workers. -/
theorem drains_everything (hn : 1 ≤ n) {s₀ s : State n} (hstart : s₀.Start)
    (hwatched : s₀.Watched) (h : Lts.Reach step Attended s₀ s) (hleft : ∀ w, s.pc w = .left) :
    s.Drained := by
  have hboth : (s.events.aborted = true → ∃ w, s.pc w ≠ .left) ∧
      (s.events.aborted = false → s.Inv) := by
    refine h.invariant (I := fun s => (s.events.aborted = true → ∃ w, s.pc w ≠ .left) ∧
      (s.events.aborted = false → s.Inv)) ⟨fun _ => ⟨⟨0, hn⟩, hstart.left _⟩,
        fun _ => hstart.inv hn hwatched⟩ fun s a t hs hattended hstep => ?_
    refine ⟨step_aborts hstep, fun halive => step_inv (hs.2 ?_) hattended hstep halive⟩
    unfold step at hstep
    split_ifs at hstep with haborted
    exact Bool.not_eq_true _ ▸ haborted
  cases haborted : s.events.aborted with
  | true =>
      obtain ⟨w, hw⟩ := hboth.1 haborted
      exact absurd (hleft w) hw
  | false =>
      have hinv := hboth.2 haborted
      exact hinv.drained fun w => hinv.left w (hleft w)

end State

open State

/-- One callback is queued, everybody is before the scan. -/
def oneTask (n : Nat) : State n where
  name := 0
  tid := fun w => w
  m_tasks := [⟨none, some 1, -1⟩]
  timers := .new 0
  events := .init
  m_activeThreadCount := 0
  pc := fun _ => .scan
  term := fun _ => false

theorem oneTask_start (n : Nat) : (oneTask n).Start where
  active := by simp [oneTask, tally, Pc.active]
  term := fun _ => rfl
  left := fun _ hw => by cases hw
  manager := IOManager.init_inv
  counted := IOManager.init_books.pending

/-- Worker `w` takes the callback, worker `v` tests the timers and the events. -/
def testing {n : Nat} (v w : Fin n) : List (Action n) :=
  [.scan w fun _ => false, .scan v fun _ => false, .testTimers v 5, .testEvents v]

/-- A task of `w` starts a timer of 10 ms. -/
def startTimer {n : Nat} (w : Fin n) (p : Nat) (now : UInt64) : Action n :=
  .timer w (.addTimer p now 10 (some 7) false)

/-- With a timer started, `v` ends its idle fiber; `w` hands it the callback of the timer, and
tests the timers. -/
def handOver {n : Nat} (v w : Fin n) : List (Action n) :=
  [.finish w, .scan w fun _ => false, .testTimers w 5, .testTasks v, .wake w [], .expire w 15 2,
    .scheduleCb w, .yield w, .scan v fun _ => false, .scan w fun _ => false, .testTimers w 15]

def leaving {n : Nat} (v w : Fin n) : List (Action n) :=
  [.finish v, .scan v fun _ => false, .testEvents w, .testTasks w, .scan w fun _ => false]

/-- Worker `v` is between its tests. -/
def betweenTests {n : Nat} (v w : Fin n) : State n :=
  (Lts.run step (testing v w) (oneTask n)).getD (oneTask n)

/-- Worker 0 is between its tests when the task starts a timer, and worker 1, which runs the task,
is left to see it. -/
theorem drains_everything_two : ∃ s : State 2, (∀ w, s.pc w = .left) ∧ s.Drained := by
  have hrun : Lts.run step (testing 0 1) (oneTask 2) = some (betweenTests 0 1) := rfl
  have htesting : Lts.Reach step Attended (oneTask 2) (betweenTests 0 1) :=
    Lts.Reach.init.run (by simp [testing, Attended]) hrun
  obtain ⟨t, ht⟩ : ∃ t : State 2, step (betweenTests 0 1) (startTimer 1 1 5) = some t := ⟨_, rfl⟩
  have hsees : ∃ v : Fin 2, (betweenTests 0 1).SeesTimers v := ⟨1, rfl, by decide, by decide⟩
  have htimer := htesting.step (startTimer 1 1 5) hsees ht
  obtain ⟨s, hs⟩ : ∃ s, Lts.run step (handOver 0 1 ++ leaving 0 1) t = some s := by
    cases ht
    exact ⟨_, rfl⟩
  have hend := htimer.run (by simp [handOver, leaving, Attended]) hs
  have hleft : ∀ w, s.pc w = .left := by
    cases ht
    cases hs
    decide
  exact ⟨s, hleft, drains_everything (by decide) (oneTask_start 2)
    ⟨fun h => absurd rfl h, fun h => absurd rfl h⟩ hend hleft⟩

/-- The callback of the timer starts a second one, when `v` has ended its idle fiber and `w` is
past its test. -/
def staleRun {n : Nat} (v w : Fin n) : List (Action n) :=
  testing v w ++ startTimer w 1 5 :: handOver v w ++ startTimer v 1 15 :: leaving v w

/-- **Shutdown leaves a timer behind**, with two workers. -/
theorem leaves_timer_behind :
    ¬ ∀ (n : Nat) (s₀ s : State n), 1 ≤ n → s₀.Start → Lts.Reach step Lts.Any s₀ s →
      (∀ w, s.pc w = .left) → s.Drained := by
  intro h
  obtain ⟨s, hs⟩ : ∃ s, Lts.run step (staleRun 0 1) (oneTask 2) = some s := ⟨_, rfl⟩
  have hdrained := h 2 _ s (by decide) (oneTask_start 2) (Lts.reach_of_run hs)
  cases hs
  exact absurd (hdrained (by decide)) (by decide)

end Shutdown

end Scheduler

end Will
