/-
ZjhServer/Scheduler/Queue.lean

The task queue of `Scheduler` (server/scheduler.{h,cc}): the two regions under
`m_mutex`, the push in `schedule` and the scan in `run`.
-/
import Mathlib.Tactic.Common

namespace Will

/-- `Scheduler::ScheduleTask`: a fiber or a callback, by name, and the thread to
run it on, -1 for any. -/
structure ScheduleTask where
  fiber : Option Nat
  cb : Option Nat
  thread : Int
  deriving DecidableEq, Repr

namespace Scheduler

/-- `scheduleNoLock`: the queue with the task, unless that is empty, and whether to
tickle. -/
def scheduleNoLock (m_tasks : List ScheduleTask) (task : ScheduleTask) :
    List ScheduleTask × Bool :=
  (if task.fiber.isSome || task.cb.isSome then m_tasks ++ [task] else m_tasks, m_tasks.isEmpty)

/-- `it->fiber && it->fiber->getState() == Fiber::RUNNING` -/
def isRunning (running : Nat → Bool) (task : ScheduleTask) : Bool :=
  task.fiber.elim false running

/-- The task is for another thread than `me`. -/
def elsewhere (me : Int) (task : ScheduleTask) : Bool := task.thread ≠ -1 && task.thread ≠ me

/-- What a scan gives: the task taken, the queue left, and `tickle_me`. -/
structure Scanned where
  task : Option ScheduleTask
  m_tasks : List ScheduleTask
  tickle_me : Bool
  deriving DecidableEq, Repr

/-- The scan of `run` by thread `me`, where `running` says which fibers are
`RUNNING`. -/
def scan (me : Int) (running : Nat → Bool) : List ScheduleTask → Scanned
  | [] => ⟨none, [], false⟩
  | it :: rest =>
      if elsewhere me it then
        let r := scan me running rest
        { r with m_tasks := it :: r.m_tasks, tickle_me := true }
      else if isRunning running it then
        let r := scan me running rest
        { r with m_tasks := it :: r.m_tasks }
      else ⟨some it, rest, !rest.isEmpty⟩

variable {me : Int} {running : Nat → Bool}

/-- A task that thread `me` may take now. -/
def Takable (me : Int) (running : Nat → Bool) (task : ScheduleTask) : Prop :=
  elsewhere me task = false ∧ isRunning running task = false

instance (task : ScheduleTask) : Decidable (Takable me running task) :=
  inferInstanceAs (Decidable (_ ∧ _))

/-- A scan that takes nothing leaves the queue as it is; what is in it is for other
threads, and then it tickles, or is a fiber running elsewhere. -/
theorem scan_none {tasks : List ScheduleTask} (h : (scan me running tasks).task = none) :
    (scan me running tasks).m_tasks = tasks ∧
      ∀ task ∈ tasks, isRunning running task = true ∨
        (scan me running tasks).tickle_me = true := by
  induction tasks with
  | nil => exact ⟨rfl, fun _ hm => absurd hm List.not_mem_nil⟩
  | cons it rest ih =>
      rw [scan] at h ⊢
      split_ifs at h ⊢ with helse hrun
      · obtain ⟨hrest, -⟩ := ih h
        exact ⟨congrArg (it :: ·) hrest, fun _ _ => .inr rfl⟩
      · obtain ⟨hrest, htasks⟩ := ih h
        refine ⟨congrArg (it :: ·) hrest, fun task hm => ?_⟩
        rcases List.mem_cons.mp hm with rfl | hm
        · exact .inl hrun
        · exact htasks task hm

/-- The task taken is takable, and was queued. -/
theorem scan_some {tasks : List ScheduleTask} {task : ScheduleTask}
    (h : (scan me running tasks).task = some task) :
    Takable me running task ∧ task ∈ tasks := by
  induction tasks with
  | nil => cases h
  | cons it rest ih =>
      rw [scan] at h
      split_ifs at h with helse hrun
      · exact ⟨(ih h).1, List.mem_cons_of_mem _ (ih h).2⟩
      · exact ⟨(ih h).1, List.mem_cons_of_mem _ (ih h).2⟩
      · cases h
        exact ⟨⟨Bool.not_eq_true _ ▸ helse, Bool.not_eq_true _ ▸ hrun⟩, List.mem_cons_self ..⟩

/-- The task taken is the first takable one, and the rest of the queue stays as it is. -/
theorem scan_split {tasks : List ScheduleTask} {task : ScheduleTask}
    (h : (scan me running tasks).task = some task) :
    ∃ earlier later, tasks = earlier ++ task :: later ∧
      (scan me running tasks).m_tasks = earlier ++ later ∧
      ∀ t ∈ earlier, ¬ Takable me running t := by
  induction tasks with
  | nil => cases h
  | cons it rest ih =>
      rw [scan] at h ⊢
      split_ifs at h ⊢ with helse hrun
      · obtain ⟨earlier, later, hrest, hleft, hnot⟩ := ih h
        refine ⟨it :: earlier, later, congrArg (it :: ·) hrest, congrArg (it :: ·) hleft, ?_⟩
        intro t ht
        rcases List.mem_cons.mp ht with rfl | ht
        · exact fun htake => absurd (htake.1.symm.trans helse) (by decide)
        · exact hnot t ht
      · obtain ⟨earlier, later, hrest, hleft, hnot⟩ := ih h
        refine ⟨it :: earlier, later, congrArg (it :: ·) hrest, congrArg (it :: ·) hleft, ?_⟩
        intro t ht
        rcases List.mem_cons.mp ht with rfl | ht
        · exact fun htake => absurd (htake.2.symm.trans hrun) (by decide)
        · exact hnot t ht
      · cases h
        exact ⟨[], rest, rfl, rfl, fun _ ht => absurd ht List.not_mem_nil⟩

/-- A scan that takes nothing has found nothing takable. -/
theorem scan_none_takable {tasks : List ScheduleTask} (h : (scan me running tasks).task = none) :
    ∀ task ∈ tasks, ¬ Takable me running task := by
  induction tasks with
  | nil => exact fun _ hm => absurd hm List.not_mem_nil
  | cons it rest ih =>
      intro task hm
      rw [scan] at h
      split_ifs at h with helse hrun
      · rcases List.mem_cons.mp hm with rfl | hm
        · exact fun htake => absurd (htake.1.symm.trans helse) (by decide)
        · exact ih h task hm
      · rcases List.mem_cons.mp hm with rfl | hm
        · exact fun htake => absurd (htake.2.symm.trans hrun) (by decide)
        · exact ih h task hm

/-- A scan adds nothing to the queue. -/
theorem scan_subset (tasks : List ScheduleTask) :
    ∀ task ∈ (scan me running tasks).m_tasks, task ∈ tasks := by
  induction tasks with
  | nil => exact fun _ hm => hm
  | cons it rest ih =>
      intro task hm
      rw [scan] at hm
      split_ifs at hm
      · exact List.mem_cons.mpr ((List.mem_cons.mp hm).imp_right (ih task))
      · exact List.mem_cons.mpr ((List.mem_cons.mp hm).imp_right (ih task))
      · exact List.mem_cons_of_mem _ hm

theorem mem_scheduleNoLock {tasks : List ScheduleTask} {task t : ScheduleTask}
    (h : t ∈ (scheduleNoLock tasks task).1) : t ∈ tasks ∨ t = task := by
  unfold scheduleNoLock at h
  simp only at h
  split at h
  · rcases List.mem_append.mp h with h | h
    · exact .inl h
    · exact .inr (List.mem_singleton.mp h)
  · exact .inl h

theorem mem_scheduleNoLock_of_mem {tasks : List ScheduleTask} {t task : ScheduleTask}
    (h : t ∈ tasks) : t ∈ (scheduleNoLock tasks task).1 := by
  unfold scheduleNoLock
  simp only
  split_ifs
  · exact List.mem_append_left _ h
  · exact h

theorem mem_scheduleNoLock_self (tasks : List ScheduleTask) (cb : Nat) (thread : Int) :
    ⟨none, some cb, thread⟩ ∈ (scheduleNoLock tasks ⟨none, some cb, thread⟩).1 :=
  List.mem_append_right _ (List.mem_singleton.mpr rfl)

end Scheduler

end Will
