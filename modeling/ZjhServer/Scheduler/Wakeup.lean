/-
ZjhServer/Scheduler/Wakeup.lean

Waking idle workers: `schedule`, `tickle`, `run` and `idle` of an `IOManager`
(server/scheduler.{h,cc}, server/iomanager.cc), for any number of workers and of
outside threads.

A step is one of: the push under the queue mutex; the `hasIdleThreads()` test in
`tickle`, and its write to the pipe; the scan under the queue mutex; the
increment and the decrement of `m_idleThreadCount`; entering and leaving
`epoll_wait`; draining the pipe; a task starting and ending.  A fiber is `RUNNING`
while some worker executes it.

A worker that found nothing to do has not yet incremented the idle count.  A
`tickle` that falls into that window wakes nobody (`lost_wakeup`).  If no test
does, tasks never wait for workers that all sleep (`no_lost_wakeup`): a queued
task always has a worker that will scan again, a byte in the pipe, or a caller
still inside `tickle` (`Inv.attended`).
-/
import ZjhServer.Scheduler.Queue
import ZjhServer.Lib.Workers
import ZjhServer.Lib.Lts

namespace Will

namespace Scheduler

namespace Wakeup

open Workers

/-- Where a thread is inside `tickle`: before the test, or before the write. -/
inductive Stage
  | test
  | write
  deriving DecidableEq, Repr

/-- Where a worker is. -/
inductive Pc
  /-- before the scan -/
  | scan
  /-- in the `tickle` after a scan that gave `task` -/
  | tickle (stage : Stage) (task : Option ScheduleTask)
  /-- with a task, before its `resume` -/
  | taken (task : ScheduleTask)
  /-- executing a task, inside `schedule` if a stage is given -/
  | exec (stage : Option Stage) (task : ScheduleTask)
  /-- the task has ended or yielded, its fiber no longer `RUNNING` -/
  | switching
  /-- without a task, before `++m_idleThreadCount` -/
  | window
  /-- in `idle`, before `epoll_wait` -/
  | idling
  /-- in `epoll_wait` -/
  | blocked
  /-- in `idle`, after `epoll_wait`, with the pipe still to drain if `event`; inside
  `schedule` if a stage is given -/
  | woken (stage : Option Stage) (event : Bool)
  /-- before `--m_idleThreadCount` -/
  | leaving
  deriving DecidableEq, Repr

namespace Pc

def stage : Pc → Option Stage
  | .tickle stage _ => some stage
  | .exec stage _ => stage
  | .woken stage _ => stage
  | _ => none

/-- Go on to the write. -/
def toWrite : Pc → Pc
  | .tickle _ task => .tickle .write task
  | .exec _ task => .exec (some .write) task
  | .woken _ event => .woken (some .write) event
  | pc => pc

/-- Leave `tickle`. -/
def untickle : Pc → Pc
  | .tickle _ (some task) => .taken task
  | .tickle _ none => .window
  | .exec _ task => .exec none task
  | .woken _ event => .woken none event
  | pc => pc

/-- The worker scans the queue before it enters `epoll_wait` again. -/
def awake : Pc → Bool
  | .tickle _ none | .window | .idling | .blocked => false
  | _ => true

/-- The worker is awake, or at least inside `tickle`. -/
def attends : Pc → Bool
  | .window | .idling | .blocked => false
  | _ => true

/-- Counted in `m_idleThreadCount`. -/
def idle : Pc → Bool
  | .idling | .blocked | .woken .. | .leaving => true
  | _ => false

/-- The fiber the worker executes. -/
def fiber : Pc → Option Nat
  | .exec _ task => task.fiber
  | _ => none

end Pc

/-- Who calls `schedule`: an outside thread, or the task or the idle fiber of a
worker. -/
inductive Caller (n : Nat)
  | outside (c : Nat)
  | worker (w : Fin n)
  deriving DecidableEq, Repr

/-- The manager, its workers and the outside threads; `tid w` is the thread id of
worker `w`. -/
structure State (n : Nat) where
  tid : Fin n → Int
  m_tasks : List ScheduleTask
  m_idleThreadCount : Nat
  pipe : Nat
  pc : Fin n → Pc
  outside : Nat → Option Stage

variable {n : Nat}

namespace State

def init (tid : Fin n → Int) : State n where
  tid := tid
  m_tasks := []
  m_idleThreadCount := 0
  pipe := 0
  pc := fun _ => .scan
  outside := fun _ => none

/-- Whether some worker executes the fiber. -/
def running (s : State n) (f : Nat) : Bool := decide (∃ w, (s.pc w).fiber = some f)

def goto (s : State n) (w : Fin n) (pc : Pc) : State n :=
  { s with pc := Function.update s.pc w pc }

/-- The stage of a caller. -/
def stage (s : State n) : Caller n → Option Stage
  | .outside c => s.outside c
  | .worker w => (s.pc w).stage

/-- A caller may call `schedule` now. -/
def free (s : State n) : Caller n → Bool
  | .outside c => s.outside c = none
  | .worker w =>
      match s.pc w with
      | .exec none _ => true
      | .woken none _ => true
      | _ => false

/-- The caller inside `tickle`, before the test. -/
def toTest (s : State n) : Caller n → State n
  | .outside c => { s with outside := Function.update s.outside c (some .test) }
  | .worker w =>
      match s.pc w with
      | .exec _ task => s.goto w (.exec (some .test) task)
      | .woken _ event => s.goto w (.woken (some .test) event)
      | _ => s

def toWrite (s : State n) : Caller n → State n
  | .outside c => { s with outside := Function.update s.outside c (some .write) }
  | .worker w => s.goto w (s.pc w).toWrite

def untickle (s : State n) : Caller n → State n
  | .outside c => { s with outside := Function.update s.outside c none }
  | .worker w => s.goto w (s.pc w).untickle

end State

/-! ### Steps -/

inductive Action (n : Nat)
  | push (c : Caller n) (task : ScheduleTask)
  | test (c : Caller n)
  | write (c : Caller n)
  | scan (w : Fin n)
  | resume (w : Fin n)
  | finish (w : Fin n)
  | switched (w : Fin n)
  | incIdle (w : Fin n)
  | block (w : Fin n)
  | wake (w : Fin n) (event : Bool)
  | drain (w : Fin n)
  | yield (w : Fin n)
  | decIdle (w : Fin n)
  deriving DecidableEq, Repr

/-- After the scan: into `tickle`, to the task, or towards `idle`. -/
def afterScan (r : Scanned) : Pc :=
  if r.tickle_me then .tickle .test r.task
  else
    match r.task with
    | some task => .taken task
    | none => .window

def step (s : State n) : Action n → Option (State n)
  | .push c task =>
      if s.free c then
        let (m_tasks, need_tickle) := scheduleNoLock s.m_tasks task
        let s := { s with m_tasks := m_tasks }
        some (if need_tickle then s.toTest c else s)
      else none
  | .test c =>
      if s.stage c = some .test then
        some (if s.m_idleThreadCount > 0 then s.toWrite c else s.untickle c)
      else none
  | .write c =>
      if s.stage c = some .write then some ({ s with pipe := s.pipe + 1 }.untickle c) else none
  | .scan w =>
      if s.pc w = .scan then
        let r := Scheduler.scan (s.tid w) s.running s.m_tasks
        some ({ s with m_tasks := r.m_tasks }.goto w (afterScan r))
      else none
  | .resume w =>
      match s.pc w with
      | .taken task => some (s.goto w (.exec none task))
      | _ => none
  | .finish w =>
      match s.pc w with
      | .exec none _ => some (s.goto w .switching)
      | _ => none
  | .switched w => if s.pc w = .switching then some (s.goto w .scan) else none
  | .incIdle w =>
      if s.pc w = .window then
        some ({ s with m_idleThreadCount := s.m_idleThreadCount + 1 }.goto w .idling)
      else none
  | .block w => if s.pc w = .idling then some (s.goto w .blocked) else none
  | .wake w event =>
      if s.pc w = .blocked && (!event || s.pipe > 0) then some (s.goto w (.woken none event))
      else none
  | .drain w =>
      if s.pc w = .woken none true then some ({ s with pipe := 0 }.goto w (.woken none false))
      else none
  | .yield w => if s.pc w = .woken none false then some (s.goto w .leaving) else none
  | .decIdle w =>
      if s.pc w = .leaving then
        some ({ s with m_idleThreadCount := s.m_idleThreadCount - 1 }.goto w .scan)
      else none

/-! ### The invariant -/

theorem Pc.attends_of_awake {pc : Pc} (h : pc.awake = true) : pc.attends = true := by
  cases pc <;> first | rfl | cases h

theorem Pc.untickle_attends {pc : Pc} (h : pc.awake = true) : pc.untickle.attends = true := by
  cases pc with
  | tickle stage task =>
      cases task with
      | none => cases h
      | some task => rfl
  | window | idling | blocked => cases h
  | _ => rfl

theorem Pc.toWrite_attends {pc : Pc} (h : pc.stage.isSome) : pc.toWrite.attends = true := by
  cases pc <;> first | rfl | cases h

theorem Pc.toWrite_idle (pc : Pc) : pc.toWrite.idle = pc.idle := by cases pc <;> rfl

theorem Pc.untickle_idle (pc : Pc) : pc.untickle.idle = pc.idle := by
  cases pc with
  | tickle stage task => cases task <;> rfl
  | _ => rfl

namespace State

/-- Somebody will see to the queue: a worker that will scan it or is inside
`tickle`, a byte in the pipe, or an outside thread inside `tickle`. -/
def Attended (s : State n) : Prop :=
  (∃ w, (s.pc w).attends = true) ∨ 0 < s.pipe ∨ ∃ c, (s.outside c).isSome

structure Inv (s : State n) : Prop where
  /-- the counter counts the workers between its increment and its decrement -/
  idle : s.m_idleThreadCount = tally Pc.idle s.pc
  attended : s.m_tasks ≠ [] → s.Attended

theorem init_inv (tid : Fin n → Int) : (init tid).Inv where
  idle := by simp [init, tally, Pc.idle]
  attended := fun h => absurd rfl h

theorem goto_pc_self (s : State n) (w : Fin n) (pc : Pc) : (s.goto w pc).pc w = pc :=
  Function.update_self ..

theorem goto_pc_ne (s : State n) {w v : Fin n} (pc : Pc) (h : v ≠ w) :
    (s.goto w pc).pc v = s.pc v := Function.update_of_ne h ..

/-- A worker that attends where it goes. -/
theorem attended_goto (s : State n) {w : Fin n} {pc : Pc} (h : pc.attends = true) :
    (s.goto w pc).Attended := .inl ⟨w, by rw [goto_pc_self]; exact h⟩

/-- A worker that did not attend before it moved. -/
theorem Attended.goto {s : State n} (h : s.Attended) {w : Fin n} {pc : Pc}
    (hw : (s.pc w).attends = true → pc.attends = true) : (s.goto w pc).Attended := by
  rcases h with ⟨v, hv⟩ | hpipe | hout
  · by_cases hvw : v = w
    · subst hvw
      exact s.attended_goto (hw hv)
    · exact .inl ⟨v, by rw [goto_pc_ne s pc hvw]; exact hv⟩
  · exact .inr (.inl hpipe)
  · exact .inr (.inr hout)

/-- The counter after a move: it changes as the region of the worker does. -/
theorem idle_goto {s : State n} (h : s.m_idleThreadCount = tally Pc.idle s.pc) {w : Fin n}
    {pc : Pc} {count : Nat}
    (hcount : count + (s.pc w).idle.toNat = s.m_idleThreadCount + pc.idle.toNat) :
    count = tally Pc.idle (s.goto w pc).pc := by
  have hupd := tally_update Pc.idle s.pc w pc
  rw [← h] at hupd
  show count = tally Pc.idle (Function.update s.pc w pc)
  omega

/-- A move that stays in its region. -/
theorem idle_same {s : State n} (h : s.m_idleThreadCount = tally Pc.idle s.pc) {w : Fin n}
    {pc : Pc} (hidle : pc.idle = (s.pc w).idle) :
    s.m_idleThreadCount = tally Pc.idle (s.goto w pc).pc :=
  idle_goto h (by rw [hidle])

/-! ### The counter -/

theorem toTest_idle {s : State n} (h : s.m_idleThreadCount = tally Pc.idle s.pc) (c : Caller n) :
    (s.toTest c).m_idleThreadCount = tally Pc.idle (s.toTest c).pc := by
  cases c with
  | outside c => exact h
  | worker w =>
      unfold toTest
      simp only
      split
      · rename_i hpc
        exact idle_same h (by rw [hpc]; rfl)
      · rename_i hpc
        exact idle_same h (by rw [hpc]; rfl)
      · exact h

theorem toWrite_idle {s : State n} (h : s.m_idleThreadCount = tally Pc.idle s.pc)
    (c : Caller n) : (s.toWrite c).m_idleThreadCount = tally Pc.idle (s.toWrite c).pc := by
  cases c with
  | outside c => exact h
  | worker w => exact idle_same h (Pc.toWrite_idle _)

theorem untickle_idle {s : State n} (h : s.m_idleThreadCount = tally Pc.idle s.pc)
    (c : Caller n) : (s.untickle c).m_idleThreadCount = tally Pc.idle (s.untickle c).pc := by
  cases c with
  | outside c => exact h
  | worker w => exact idle_same h (Pc.untickle_idle _)

theorem afterScan_idle (r : Scanned) : (afterScan r).idle = false := by
  unfold afterScan
  split
  · rfl
  · split <;> rfl

/-- **The counter** stays the number of workers between its increment and its
decrement. -/
theorem step_idle {s t : State n} {a : Action n} (h : s.m_idleThreadCount = tally Pc.idle s.pc)
    (hs : step s a = some t) : t.m_idleThreadCount = tally Pc.idle t.pc := by
  cases a with
  | push c task =>
      simp only [step] at hs
      split_ifs at hs <;> cases hs
      · exact toTest_idle (s := { s with m_tasks := (scheduleNoLock s.m_tasks task).1 }) h c
      · exact h
  | test c =>
      simp only [step] at hs
      split_ifs at hs <;> cases hs
      · exact toWrite_idle h c
      · exact untickle_idle h c
  | write c =>
      simp only [step] at hs
      split_ifs at hs
      cases hs
      exact untickle_idle (s := { s with pipe := s.pipe + 1 }) h c
  | scan w =>
      simp only [step] at hs
      split_ifs at hs with hpc
      cases hs
      exact idle_same (s := { s with m_tasks := _ }) h (by rw [afterScan_idle, hpc]; rfl)
  | resume w =>
      simp only [step] at hs
      split at hs <;> cases hs
      exact idle_same h (by rw [‹s.pc w = _›]; rfl)
  | finish w =>
      simp only [step] at hs
      split at hs <;> cases hs
      exact idle_same h (by rw [‹s.pc w = _›]; rfl)
  | switched w =>
      simp only [step] at hs
      split_ifs at hs with hpc
      cases hs
      exact idle_same h (by rw [hpc]; rfl)
  | incIdle w =>
      simp only [step] at hs
      split_ifs at hs with hpc
      cases hs
      exact idle_goto h (by rw [hpc]; rfl)
  | block w =>
      simp only [step] at hs
      split_ifs at hs with hpc
      cases hs
      exact idle_same h (by rw [hpc]; rfl)
  | wake w event =>
      simp only [step] at hs
      split_ifs at hs with hguard
      cases hs
      rw [Bool.and_eq_true, decide_eq_true_eq] at hguard
      exact idle_same h (by rw [hguard.1]; rfl)
  | drain w =>
      simp only [step] at hs
      split_ifs at hs with hpc
      cases hs
      exact idle_same (s := { s with pipe := 0 }) h (by rw [hpc]; rfl)
  | yield w =>
      simp only [step] at hs
      split_ifs at hs with hpc
      cases hs
      exact idle_same h (by rw [hpc]; rfl)
  | decIdle w =>
      simp only [step] at hs
      split_ifs at hs with hpc
      cases hs
      -- the worker that leaves is counted
      have hpos : 0 < s.m_idleThreadCount := by
        rw [h, tally_pos_iff]
        exact ⟨w, by rw [hpc]; rfl⟩
      refine idle_goto h ?_
      rw [hpc]
      show s.m_idleThreadCount - 1 + 1 = s.m_idleThreadCount + 0
      omega

/-! ### Each step -/

/-- A test does not fall into the window: if it finds no idle worker, the queue is
empty or some worker will scan it again. -/
def Seen (s : State n) : Action n → Prop
  | .test _ => s.m_idleThreadCount = 0 → s.m_tasks = [] ∨ ∃ w, (s.pc w).awake = true
  | _ => True

/-- A test that finds somebody idle. -/
theorem seen_of_idle {s : State n} {c : Caller n} (h : s.m_idleThreadCount ≠ 0) :
    s.Seen (.test c) := fun hnobody => absurd hnobody h

/-- A caller inside `tickle`. -/
theorem toTest_attended {s : State n} {c : Caller n} (hfree : s.free c = true) :
    (s.toTest c).Attended := by
  cases c with
  | outside c => exact .inr (.inr ⟨c, by simp [toTest]⟩)
  | worker w =>
      unfold free at hfree
      simp only at hfree
      split at hfree
      · rename_i task hpc
        simp only [toTest, hpc]
        exact attended_goto _ rfl
      · rename_i event hpc
        simp only [toTest, hpc]
        exact attended_goto _ rfl
      · cases hfree

theorem toWrite_attended {s : State n} {c : Caller n} (hstage : (s.stage c).isSome) :
    (s.toWrite c).Attended := by
  cases c with
  | outside c => exact .inr (.inr ⟨c, by simp [toWrite]⟩)
  | worker w => exact attended_goto s (Pc.toWrite_attends hstage)

/-- A caller leaves `tickle` while somebody else attends. -/
theorem untickle_attended {s : State n} (c : Caller n)
    (h : (∃ w, (s.pc w).awake = true) ∨ 0 < s.pipe) : (s.untickle c).Attended := by
  cases c with
  | outside c =>
      rcases h with ⟨w, hw⟩ | hpipe
      · exact .inl ⟨w, Pc.attends_of_awake hw⟩
      · exact .inr (.inl hpipe)
  | worker w =>
      rcases h with ⟨v, hv⟩ | hpipe
      · by_cases hvw : v = w
        · subst hvw
          exact attended_goto s (Pc.untickle_attends hv)
        · refine .inl ⟨v, ?_⟩
          show ((s.goto w _).pc v).attends = true
          rw [goto_pc_ne s _ hvw]
          exact Pc.attends_of_awake hv
      · exact .inr (.inl hpipe)

/-- After a scan that took nothing and does not tickle, what is queued is a fiber
that another worker executes. -/
theorem scan_attended {s : State n} {w : Fin n} (hpc : s.pc w = .scan)
    (htasks : (Scheduler.scan (s.tid w) s.running s.m_tasks).m_tasks ≠ []) :
    Attended ({ s with m_tasks := (Scheduler.scan (s.tid w) s.running s.m_tasks).m_tasks }.goto w
      (afterScan (Scheduler.scan (s.tid w) s.running s.m_tasks))) := by
  rcases htask : (Scheduler.scan (s.tid w) s.running s.m_tasks).task with _ | task
  · obtain ⟨hsame, hcause⟩ := scan_none htask
    rcases htickle : (Scheduler.scan (s.tid w) s.running s.m_tasks).tickle_me with _ | _
    · -- a queued task, whose fiber some worker executes
      have hne : s.m_tasks ≠ [] := hsame ▸ htasks
      obtain ⟨task, rest, hcons⟩ := List.exists_cons_of_ne_nil hne
      have hrun : isRunning s.running task = true := by
        rcases hcause task (by rw [hcons]; exact List.mem_cons_self ..) with hrun | htick
        · exact hrun
        · rw [htickle] at htick; cases htick
      unfold isRunning at hrun
      rcases hf : task.fiber with _ | f
      · rw [hf] at hrun; cases hrun
      · rw [hf] at hrun
        obtain ⟨v, hv⟩ := of_decide_eq_true hrun
        have hvw : v ≠ w := by
          rintro rfl
          rw [hpc] at hv
          cases hv
        refine .inl ⟨v, ?_⟩
        rw [goto_pc_ne _ _ hvw]
        show (s.pc v).attends = true
        revert hv
        cases s.pc v <;> intro hv <;> first | rfl | cases hv
    · exact attended_goto _ (by unfold afterScan; rw [if_pos htickle]; rfl)
  · refine attended_goto _ ?_
    unfold afterScan
    rw [htask]
    split <;> rfl

theorem step_attended {s t : State n} {a : Action n} (h : s.Inv) (hseen : s.Seen a)
    (hs : step s a = some t) (htasks : t.m_tasks ≠ []) : t.Attended := by
  cases a with
  | push c task =>
      simp only [step] at hs
      split_ifs at hs with hfree hneed <;> cases hs
      · exact toTest_attended hfree
      · exact h.attended fun hnil => hneed (by simp [scheduleNoLock, hnil])
  | test c =>
      simp only [step] at hs
      split_ifs at hs with hstage hcount <;> cases hs
      · exact toWrite_attended (by rw [hstage]; rfl)
      · -- nobody idles and a task is queued, so the test saw a worker on its way to a scan
        have hold : s.m_tasks ≠ [] := by cases c <;> exact htasks
        exact untickle_attended c (.inl ((hseen (by omega)).resolve_left hold))
  | write c =>
      simp only [step] at hs
      split_ifs at hs
      cases hs
      -- the byte is in the pipe
      exact untickle_attended c (.inr (Nat.succ_pos _))
  | scan w =>
      simp only [step] at hs
      split_ifs at hs with hpc
      cases hs
      exact scan_attended hpc htasks
  | resume w =>
      simp only [step] at hs
      split at hs <;> cases hs
      exact attended_goto s rfl
  | finish w =>
      simp only [step] at hs
      split at hs <;> cases hs
      exact attended_goto s rfl
  | switched w =>
      simp only [step] at hs
      split_ifs at hs
      cases hs
      exact attended_goto s rfl
  | incIdle w =>
      simp only [step] at hs
      split_ifs at hs with hpc
      cases hs
      exact Attended.goto (s := { s with m_idleThreadCount := s.m_idleThreadCount + 1 })
        (h.attended htasks) fun hw => by rw [show s.pc w = .window from hpc] at hw; cases hw
  | block w =>
      simp only [step] at hs
      split_ifs at hs with hpc
      cases hs
      exact (h.attended htasks).goto fun hw => by rw [hpc] at hw; cases hw
  | wake w event =>
      simp only [step] at hs
      split_ifs at hs
      cases hs
      exact attended_goto s rfl
  | drain w =>
      simp only [step] at hs
      split_ifs at hs
      cases hs
      exact attended_goto _ rfl
  | yield w =>
      simp only [step] at hs
      split_ifs at hs
      cases hs
      exact attended_goto s rfl
  | decIdle w =>
      simp only [step] at hs
      split_ifs at hs
      cases hs
      exact attended_goto _ rfl

theorem step_inv {s t : State n} {a : Action n} (h : s.Inv) (hseen : s.Seen a)
    (hs : step s a = some t) : t.Inv :=
  ⟨step_idle h.idle hs, step_attended h hseen hs⟩

/-! ### Runs -/

/-- **The stall**: every worker is blocked in `epoll_wait` with the pipe empty, no
caller is between its push and the end of its `tickle`, and a queued task could be
taken by some worker. -/
def Stalled (s : State n) : Prop :=
  (∀ w, s.pc w = .blocked) ∧ s.pipe = 0 ∧ (∀ c, s.outside c = none) ∧
    ∃ task ∈ s.m_tasks, ∃ w, Takable (s.tid w) s.running task

theorem Inv.not_stalled {s : State n} (h : s.Inv) : ¬ s.Stalled := by
  rintro ⟨hblocked, hpipe, hout, task, htask, -⟩
  rcases h.attended (List.ne_nil_of_mem htask) with ⟨w, hw⟩ | hpos | ⟨c, hc⟩
  · rw [hblocked w] at hw; cases hw
  · omega
  · rw [hout c] at hc; cases hc

/-- **No lost wake-up** in runs whose tests do not fall into the window, for any
number of workers and of outside threads. -/
theorem no_lost_wakeup {tid : Fin n → Int} {s : State n}
    (h : Lts.Reach step Seen (init tid) s) : ¬ s.Stalled :=
  (h.invariant (I := Inv) (init_inv tid) fun _ _ _ hs hseen => step_inv hs hseen).not_stalled

end State

open State

/-- A worker sleeps, and an outside thread pushes a callback. -/
def pushRun : List (Action 1) :=
  [.scan 0, .incIdle 0, .block 0, .push (.outside 0) ⟨none, some 7, -1⟩]

/-- The test of its `tickle` counts the worker, and the write wakes it. -/
theorem no_lost_wakeup_asleep :
    ∃ s, Lts.run step (pushRun ++ [.test (.outside 0), .write (.outside 0)]) (init fun _ => 1) =
        some s ∧ s.m_tasks = [⟨none, some 7, -1⟩] ∧ (∀ w, s.pc w = .blocked) ∧
      (∀ c, s.outside c = none) ∧ s.pipe = 1 ∧ ¬ s.Stalled := by
  obtain ⟨s, hs⟩ : ∃ s, Lts.run step pushRun (init fun _ => 1) = some s := ⟨_, rfl⟩
  have hseen : ∀ a ∈ pushRun, ∀ s, State.Seen s a := by simp [pushRun, Seen]
  have hpushed := Lts.Reach.init.run hseen hs
  cases hs
  have htested := hpushed.step (.test (.outside 0)) (seen_of_idle Nat.one_ne_zero) rfl
  refine ⟨_, rfl, rfl, by decide, fun c => ?_, rfl,
    no_lost_wakeup (htested.step (.write (.outside 0)) trivial rfl)⟩
  rcases c with _ | c <;> rfl

/-- The push and the test come after the scan that found nothing and before the
worker counts as idle. -/
def lostRun : List (Action 1) :=
  [.scan 0, .push (.outside 0) ⟨none, some 7, -1⟩, .test (.outside 0), .incIdle 0, .block 0]

/-- **A wake-up is lost** with one worker and one outside thread. -/
theorem lost_wakeup :
    ¬ ∀ (n : Nat) (tid : Fin n → Int) (s : State n), 1 ≤ n →
      Lts.Reach step Lts.Any (init tid) s → ¬ s.Stalled := by
  intro h
  obtain ⟨s, hs⟩ : ∃ s, Lts.run step lostRun (init fun _ => 1) = some s := ⟨_, rfl⟩
  refine h 1 _ s (Nat.le_refl 1) (Lts.reach_of_run hs) ?_
  cases hs
  refine ⟨by decide, rfl, fun c => ?_, ⟨none, some 7, -1⟩, by decide, 0, by decide⟩
  rcases c with _ | c <;> rfl

end Wakeup

end Scheduler

end Will
