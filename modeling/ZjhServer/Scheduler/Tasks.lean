/-
ZjhServer/Scheduler/Tasks.lean

The tasks of a plain `Scheduler` (server/scheduler.{h,cc}), for any number of workers:
`schedule`, the scan and the execution of tasks in `run`, `stop` and the base
`stopping` and `idle`.

Three lists remember what has happened: the tasks pushed (`run_pushed`), the tasks taken and by
which worker, the tasks executed.  Nothing is lost between them (`exactly_once`).  Once a
worker has seen `stopping()` hold, the queue is empty, and as only running tasks schedule
then, it stays so (`stopping_stable`).
-/
import ZjhServer.Scheduler.Queue
import ZjhServer.Lib.Lts
import ZjhServer.Lib.Workers

namespace Will

namespace Scheduler

namespace Tasks

open Workers

/-- Where a worker is in `run`. -/
inductive Pc
  /-- before the scan -/
  | scan
  /-- executing the task it has taken -/
  | running (task : ScheduleTask)
  /-- the task has returned, before `--m_activeThreadCount` -/
  | returned
  /-- in `idle`, before `stopping()` -/
  | idle
  /-- out of `run` -/
  | left
  deriving DecidableEq, Repr

/-- The worker has taken a task and not yet finished it. -/
def Pc.active : Pc → Bool
  | .running _ | .returned => true
  | _ => false

/-- The worker executes the task. -/
def Pc.executes (task : ScheduleTask) : Pc → Bool
  | .running t => t = task
  | _ => false

structure State (n : Nat) where
  tid : Fin n → Int
  m_stopping : Bool
  m_tasks : List ScheduleTask
  m_activeThreadCount : Nat
  pc : Fin n → Pc
  /-- the idle fiber of the worker has ended: `stopping()` was true in it -/
  term : Fin n → Bool
  pushed : List ScheduleTask
  taken : List (Fin n × ScheduleTask)
  executed : List ScheduleTask

variable {n : Nat}

/-- The threads have started. -/
def start (tid : Fin n → Int) : State n where
  tid := tid
  m_stopping := false
  m_tasks := []
  m_activeThreadCount := 0
  pc := fun _ => .scan
  term := fun _ => false
  pushed := []
  taken := []
  executed := []

namespace State

def goto (s : State n) (w : Fin n) (pc : Pc) : State n :=
  { s with pc := Function.update s.pc w pc }

/-- `schedule(task)` -/
def schedule (s : State n) (task : ScheduleTask) : State n :=
  { s with
    m_tasks := (scheduleNoLock s.m_tasks task).1
    pushed := if task.fiber.isSome || task.cb.isSome then s.pushed ++ [task] else s.pushed }

end State

/-! ### Steps -/

/-- A step of worker `w`, of the task it executes, or of a thread that is no worker. -/
inductive Action (n : Nat)
  | schedule (task : ScheduleTask)
  | spawn (w : Fin n) (task : ScheduleTask)
  | scan (w : Fin n) (running : Nat → Bool)
  | finish (w : Fin n)
  | count (w : Fin n)
  | test (w : Fin n)
  | stop

def step (s : State n) : Action n → Option (State n)
  | .schedule task => some (s.schedule task)
  | .spawn w task =>
      match s.pc w with
      | .running _ => some (s.schedule task)
      | _ => none
  | .scan w running =>
      if s.pc w = .scan then
        let r := Scheduler.scan (s.tid w) running s.m_tasks
        match r.task with
        | some task =>
            some ({ s with
              m_tasks := r.m_tasks
              m_activeThreadCount := s.m_activeThreadCount + 1
              taken := s.taken ++ [(w, task)] }.goto w (.running task))
        | none =>
            some ({ s with m_tasks := r.m_tasks }.goto w (if s.term w then .left else .idle))
      else none
  | .finish w =>
      match s.pc w with
      | .running task => some ({ s with executed := s.executed ++ [task] }.goto w .returned)
      | _ => none
  | .count w =>
      if s.pc w = .returned then
        some ({ s with m_activeThreadCount := s.m_activeThreadCount - 1 }.goto w .scan)
      else none
  | .test w =>
      if s.pc w = .idle then
        -- `while(!stopping()) yield();`
        if s.m_stopping ∧ s.m_tasks = [] ∧ s.m_activeThreadCount = 0 then
          some ({ s with term := Function.update s.term w true }.goto w .scan)
        else some (s.goto w .scan)
      else none
  | .stop => some { s with m_stopping := true }

/-- What a scan does: it takes the first takable task, or there is none and the worker goes
to its idle fiber, or leaves if that has ended. -/
theorem scan_step {s t : State n} {w : Fin n} {running : Nat → Bool}
    (hs : step s (.scan w running) = some t) :
    s.pc w = .scan ∧
      ((∃ earlier task later, s.m_tasks = earlier ++ task :: later ∧
        Takable (s.tid w) running task ∧ (∀ t ∈ earlier, ¬ Takable (s.tid w) running t) ∧
        t = { s with
          m_tasks := earlier ++ later
          m_activeThreadCount := s.m_activeThreadCount + 1
          taken := s.taken ++ [(w, task)] }.goto w (.running task)) ∨
      (∀ task ∈ s.m_tasks, ¬ Takable (s.tid w) running task) ∧
        t = s.goto w (if s.term w then .left else .idle)) := by
  simp only [step] at hs
  by_cases hpc : s.pc w = .scan
  · rw [if_pos hpc] at hs
    refine ⟨hpc, ?_⟩
    split at hs
    · rename_i task htask
      cases hs
      obtain ⟨earlier, later, hsplit, hleft, hnot⟩ := scan_split htask
      exact .inl ⟨earlier, task, later, hsplit, (scan_some htask).1, hnot, by rw [hleft]⟩
    · rename_i htask
      cases hs
      refine .inr ⟨scan_none_takable htask, ?_⟩
      rw [(scan_none htask).1]
  · rw [if_neg hpc] at hs
    cases hs

/-! ### What has been pushed -/

/-- The task that a step schedules, unless that is empty. -/
def Action.pushes : Action n → Option ScheduleTask
  | .schedule task | .spawn _ task =>
      if task.fiber.isSome || task.cb.isSome then some task else none
  | _ => none

theorem schedule_pushed (s : State n) (task : ScheduleTask) :
    (s.schedule task).pushed = s.pushed ++ (Action.schedule (n := n) task).pushes.toList := by
  unfold State.schedule Action.pushes
  by_cases h : (task.fiber.isSome || task.cb.isSome) = true
  · simp only [if_pos h, Option.toList_some]
  · simp only [if_neg h, Option.toList_none, List.append_nil]

theorem step_pushed {s t : State n} {a : Action n} (hs : step s a = some t) :
    t.pushed = s.pushed ++ a.pushes.toList := by
  cases a with
  | schedule task =>
      cases hs
      exact schedule_pushed s task
  | spawn w task =>
      simp only [step] at hs
      split at hs <;> cases hs
      exact schedule_pushed s task
  | scan w running =>
      obtain ⟨-, ⟨earlier, task, later, -, -, -, rfl⟩ | ⟨-, rfl⟩⟩ := scan_step hs
      · exact (List.append_nil _).symm
      · exact (List.append_nil _).symm
  | finish w =>
      simp only [step] at hs
      split at hs <;> cases hs
      exact (List.append_nil _).symm
  | count w =>
      simp only [step] at hs
      split_ifs at hs
      cases hs
      exact (List.append_nil _).symm
  | test w =>
      simp only [step] at hs
      split_ifs at hs <;> cases hs <;> exact (List.append_nil _).symm
  | stop =>
      cases hs
      exact (List.append_nil _).symm

/-- **What a run has pushed**: the tasks of its steps that schedule one, in order. -/
theorem run_pushed {s t : State n} {as : List (Action n)} (hs : Lts.run step as s = some t) :
    t.pushed = s.pushed ++ as.filterMap Action.pushes := by
  induction as generalizing s with
  | nil =>
      cases hs
      exact (List.append_nil _).symm
  | cons a as ih =>
      obtain ⟨u, hu, hrest⟩ := Option.bind_eq_some_iff.mp hs
      rw [ih hrest, step_pushed hu, List.append_assoc, List.filterMap_cons]
      cases a.pushes <;> rfl

/-! ### The invariant -/

namespace State

structure Inv (s : State n) : Prop where
  conserved : ∀ task, s.pushed.count task =
    s.m_tasks.count task + (s.taken.map Prod.snd).count task
  executed : ∀ task, (s.taken.map Prod.snd).count task =
    s.executed.count task + tally (Pc.executes task) s.pc
  pinned : ∀ x ∈ s.taken, x.2.thread ≠ -1 → x.2.thread = s.tid x.1
  active : s.m_activeThreadCount = tally Pc.active s.pc
  left : ∀ w, s.pc w = .left → s.term w = true

theorem start_inv (tid : Fin n → Int) : (start tid).Inv where
  conserved := fun _ => rfl
  executed := fun _ => by simp [start, tally, Pc.executes]
  pinned := fun _ hx => absurd hx List.not_mem_nil
  active := by simp [start, tally, Pc.active]
  left := fun _ hw => by cases hw

/-- Scheduling touches the queue only. -/
theorem schedule_inv {s : State n} (h : s.Inv) (task : ScheduleTask) : (s.schedule task).Inv where
  conserved := by
    intro t
    have hold := h.conserved t
    unfold schedule scheduleNoLock
    simp only
    split_ifs with hempty
    · rw [List.count_append, List.count_append, hold]
      omega
    · exact hold
  executed := h.executed
  pinned := h.pinned
  active := h.active
  left := h.left

/-- Worker `w` goes to `c`; of the tasks it has taken and executed only these counts
change. -/
theorem Inv.moved {s t : State n} (h : s.Inv) {w : Fin n} {c : Pc}
    (hpc : t.pc = Function.update s.pc w c) (htid : t.tid = s.tid)
    (hconserved : ∀ task, t.pushed.count task =
      t.m_tasks.count task + (t.taken.map Prod.snd).count task)
    (hexecuted : ∀ task, (t.taken.map Prod.snd).count task + s.executed.count task +
        (Pc.executes task (s.pc w)).toNat =
      (s.taken.map Prod.snd).count task + t.executed.count task + (Pc.executes task c).toNat)
    (hpinned : ∀ x ∈ t.taken, x ∈ s.taken ∨ (x.2.thread ≠ -1 → x.2.thread = s.tid x.1))
    (hactive : t.m_activeThreadCount + (s.pc w).active.toNat =
      s.m_activeThreadCount + c.active.toNat)
    (hterm : ∀ v, s.term v = true → t.term v = true) (hleft : c = .left → t.term w = true) :
    t.Inv where
  conserved := hconserved
  executed := by
    intro task
    -- of the workers that execute the task only `w` has changed
    have hupd := tally_update (Pc.executes task) s.pc w c
    have hold := h.executed task
    have hnew := hexecuted task
    rw [hpc]
    omega
  pinned := by
    intro x hx
    rw [htid]
    rcases hpinned x hx with hold | hnew
    · exact h.pinned x hold
    · exact hnew
  active := by
    have hupd := tally_update Pc.active s.pc w c
    rw [← h.active] at hupd
    rw [hpc]
    omega
  left := by
    intro v hv
    rw [hpc] at hv
    rcases eq_or_ne v w with rfl | hne
    · rw [Function.update_self] at hv
      exact hleft hv
    · rw [Function.update_of_ne hne] at hv
      exact hterm v (h.left v hv)

/-- A worker that executes nothing goes to another place where it executes nothing. -/
theorem Inv.walk {s t : State n} (h : s.Inv) {w : Fin n} {c : Pc}
    (hfrom : (s.pc w).active = false) (hto : c.active = false)
    (hpc : t.pc = Function.update s.pc w c) (htid : t.tid = s.tid) (hpushed : t.pushed = s.pushed)
    (htasks : t.m_tasks = s.m_tasks) (htaken : t.taken = s.taken)
    (hexecuted : t.executed = s.executed)
    (hactive : t.m_activeThreadCount = s.m_activeThreadCount)
    (hterm : ∀ v, s.term v = true → t.term v = true) (hleft : c = .left → t.term w = true) :
    t.Inv := by
  have hnone : ∀ pc : Pc, pc.active = false → ∀ task, pc.executes task = false := by
    intro pc hpc task
    cases pc with
    | running t => cases hpc
    | _ => rfl
  refine h.moved hpc htid ?_ (fun task => ?_) (fun x hx => .inl (htaken ▸ hx)) ?_ hterm hleft
  · rw [hpushed, htasks, htaken]
    exact h.conserved
  · rw [htaken, hexecuted, hnone _ hfrom, hnone _ hto]
  · rw [hactive, hfrom, hto]

theorem scan_inv {s t : State n} (h : s.Inv) {w : Fin n} {running : Nat → Bool}
    (hs : step s (.scan w running) = some t) : t.Inv := by
  obtain ⟨hpc, ⟨earlier, task, later, hsplit, htake, -, rfl⟩ | ⟨-, rfl⟩⟩ := scan_step hs
  · refine h.moved (w := w) (c := .running task) rfl rfl (fun t => ?_) (fun t => ?_) ?_ ?_
      (fun _ hv => hv) (fun hleft => by cases hleft)
    · -- from the queue to the worker
      have hold := h.conserved t
      rw [hsplit] at hold
      show s.pushed.count t = (earlier ++ later).count t +
        ((s.taken ++ [(w, task)]).map Prod.snd).count t
      rw [hold]
      simp only [List.map_append, List.map_cons, List.map_nil, List.count_append, List.count_cons,
        List.count_nil]
      omega
    · show ((s.taken ++ [(w, task)]).map Prod.snd).count t + s.executed.count t +
        (Pc.executes t (s.pc w)).toNat = (s.taken.map Prod.snd).count t + s.executed.count t +
        (decide (task = t)).toNat
      rw [hpc]
      by_cases heq : task = t
      · simp [heq, Pc.executes]
        omega
      · simp [heq, Pc.executes]
    · intro x hx
      rcases List.mem_append.mp hx with hx | hx
      · exact .inl hx
      · obtain rfl := List.mem_singleton.mp hx
        -- a pinned task is takable only by its own thread
        refine .inr fun hpin => ?_
        simpa [elsewhere, hpin] using htake.1
    · rw [hpc]
      rfl
  · refine h.walk (w := w) (c := if s.term w then .left else .idle) (by rw [hpc]; rfl) ?_ rfl rfl
      rfl rfl rfl rfl rfl (fun _ hv => hv) fun hleft => ?_
    · split <;> rfl
    · show s.term w = true
      by_contra hterm
      rw [if_neg hterm] at hleft
      cases hleft

theorem step_inv {s t : State n} {a : Action n} (h : s.Inv) (hs : step s a = some t) : t.Inv := by
  cases a with
  | schedule task =>
      cases hs
      exact schedule_inv h task
  | spawn w task =>
      simp only [step] at hs
      split at hs
      · cases hs
        exact schedule_inv h task
      · cases hs
  | scan w running => exact scan_inv h hs
  | finish w =>
      simp only [step] at hs
      split at hs
      · rename_i task hpc
        cases hs
        refine h.moved (w := w) (c := .returned) rfl rfl h.conserved (fun t => ?_)
          (fun _ hx => .inl hx) ?_ (fun _ hv => hv) (fun hleft => by cases hleft)
        · rw [hpc]
          by_cases heq : task = t
          · simp [goto, heq, Pc.executes]
            omega
          · simp [goto, heq, Pc.executes]
        · rw [hpc]
          rfl
      · cases hs
  | count w =>
      simp only [step] at hs
      split_ifs at hs with hpc
      cases hs
      -- the worker is one of those counted, so the counter does not wrap
      have hpos : 0 < s.m_activeThreadCount := by
        rw [h.active, tally_pos_iff]
        exact ⟨w, by rw [hpc]; rfl⟩
      refine h.moved (w := w) (c := .scan) rfl rfl h.conserved (fun t => ?_)
        (fun _ hx => .inl hx) ?_ (fun _ hv => hv) (fun hleft => by cases hleft)
      · rw [hpc]
        rfl
      · rw [hpc]
        show s.m_activeThreadCount - 1 + 1 = s.m_activeThreadCount + 0
        omega
  | test w =>
      simp only [step] at hs
      split_ifs at hs with hpc hstop
      · cases hs
        refine h.walk (w := w) (c := .scan) (by rw [hpc]; rfl) rfl rfl rfl rfl rfl rfl rfl rfl
          (fun v hv => ?_) (fun hleft => by cases hleft)
        show Function.update s.term w true v = true
        rcases eq_or_ne v w with rfl | hne
        · rw [Function.update_self]
        · rw [Function.update_of_ne hne, hv]
      · cases hs
        exact h.walk (w := w) (c := .scan) (by rw [hpc]; rfl) rfl rfl rfl rfl rfl rfl rfl rfl
          (fun _ hv => hv) (fun hleft => by cases hleft)
  | stop =>
      cases hs
      exact ⟨h.conserved, h.executed, h.pinned, h.active, h.left⟩

end State

open State

/-- **Exactly once**, for any number of workers and any interleaving: the tasks pushed
are the tasks queued and the tasks taken, a pinned task is taken by its own thread only,
a scan takes the first task that is neither pinned elsewhere nor a running fiber and leaves
the others in order, and the active count is the number of workers with a task. -/
theorem exactly_once (tid : Fin n → Int) (s : State n)
    (h : Lts.Reach step Lts.Any (start tid) s) :
    s.pushed.Perm (s.m_tasks ++ s.taken.map Prod.snd) ∧
      (∀ x ∈ s.taken, x.2.thread ≠ -1 → x.2.thread = s.tid x.1) ∧
      (∀ w running t, step s (.scan w running) = some t →
        (t.taken = s.taken ∧ t.m_tasks = s.m_tasks ∧
          ∀ task ∈ s.m_tasks, ¬ Takable (s.tid w) running task) ∨
        ∃ earlier task later, t.taken = s.taken ++ [(w, task)] ∧
          s.m_tasks = earlier ++ task :: later ∧ t.m_tasks = earlier ++ later ∧
          Takable (s.tid w) running task ∧ ∀ task ∈ earlier, ¬ Takable (s.tid w) running task) ∧
      s.m_activeThreadCount = tally Pc.active s.pc := by
  have hinv : s.Inv := h.invariant (I := Inv) (start_inv tid) fun _ _ _ hs _ => step_inv hs
  refine ⟨?_, hinv.pinned, fun w running t hs => ?_, hinv.active⟩
  · rw [List.perm_iff_count]
    intro task
    rw [List.count_append]
    exact hinv.conserved task
  · obtain ⟨-, ⟨earlier, task, later, hsplit, htake, hnot, rfl⟩ | ⟨hnone, rfl⟩⟩ := scan_step hs
    · exact .inr ⟨earlier, task, later, rfl, hsplit, rfl, htake, hnot⟩
    · exact .inl ⟨rfl, rfl, hnone⟩

/-- Two callbacks, one of them for the other worker. -/
def twoTasks {n : Nat} (w : Fin n) : List (Action n) :=
  [.schedule ⟨none, some 1, 1⟩, .schedule ⟨none, some 2, -1⟩, .scan w fun _ => false]

theorem exactly_once_two :
    ∃ s : State 2, Lts.Reach step Lts.Any (start fun w => (w : Int)) s ∧
      s.pushed = [⟨none, some 1, 1⟩, ⟨none, some 2, -1⟩] ∧
      s.taken = [(0, ⟨none, some 2, -1⟩)] ∧
      s.pushed.Perm (s.m_tasks ++ s.taken.map Prod.snd) := by
  obtain ⟨s, hs⟩ :
      ∃ s, Lts.run step (twoTasks (0 : Fin 2)) (start fun w => (w : Int)) = some s := ⟨_, rfl⟩
  have hreach := Lts.reach_of_run hs
  have hpushed := run_pushed hs
  have hperm := (exactly_once _ s hreach).1
  cases hs
  exact ⟨_, hreach, hpushed, rfl, hperm⟩

/-! ### Stopping -/

/-- Once `m_stopping` is set, only running tasks schedule. -/
def Quiet (s : State n) : Action n → Prop
  | .schedule _ => s.m_stopping = false
  | _ => True

/-- What holds once `stopping()` has been seen to hold. -/
structure State.Stopped (s : State n) : Prop where
  stopping : s.m_stopping = true
  tasks : s.m_tasks = []
  active : s.m_activeThreadCount = 0

/-- A worker with a task is counted. -/
theorem State.Inv.idle {s : State n} (h : s.Inv) (hzero : s.m_activeThreadCount = 0) (w : Fin n) :
    (s.pc w).active = false := by
  rw [Bool.eq_false_iff]
  intro hw
  have hpos := tally_pos_iff.mpr ⟨w, hw⟩
  rw [← h.active, hzero] at hpos
  cases hpos

/-- **The stop condition is stable**: no step undoes it. -/
theorem State.Stopped.step {s t : State n} {a : Action n} (h : s.Stopped) (hinv : s.Inv)
    (hquiet : Quiet s a) (hs : step s a = some t) : t.Stopped := by
  -- no worker is active, so the steps that need one that executes cannot be taken
  cases a with
  | schedule task => exact absurd (h.stopping.symm.trans hquiet) (by decide)
  | spawn w task =>
      simp only [Tasks.step] at hs
      split at hs
      · rename_i task' hpc
        have hidle := hinv.idle h.active w
        rw [hpc] at hidle
        cases hidle
      · cases hs
  | scan w running =>
      obtain ⟨-, ⟨earlier, task, later, hsplit, -, -, -⟩ | ⟨-, rfl⟩⟩ := scan_step hs
      · rw [h.tasks] at hsplit
        cases earlier <;> cases hsplit
      · exact ⟨h.stopping, h.tasks, h.active⟩
  | finish w =>
      simp only [Tasks.step] at hs
      split at hs
      · rename_i task hpc
        have hidle := hinv.idle h.active w
        rw [hpc] at hidle
        cases hidle
      · cases hs
  | count w =>
      simp only [Tasks.step] at hs
      split_ifs at hs with hpc
      have hidle := hinv.idle h.active w
      rw [hpc] at hidle
      cases hidle
  | test w =>
      simp only [Tasks.step] at hs
      split_ifs at hs with hpc hstop <;> cases hs
      · exact ⟨h.stopping, h.tasks, h.active⟩
      · exact ⟨h.stopping, h.tasks, h.active⟩
  | stop =>
      cases hs
      exact ⟨rfl, h.tasks, h.active⟩

/-- An idle fiber ends only if the stop condition holds. -/
theorem seen_step {s t : State n} {a : Action n} (hinv : s.Inv)
    (hseen : ∀ w, s.term w = true → s.Stopped) (hquiet : Quiet s a) (hs : step s a = some t) :
    ∀ w, t.term w = true → t.Stopped := by
  intro w hw
  by_cases hold : ∃ v, s.term v = true
  · obtain ⟨v, hv⟩ := hold
    exact (hseen v hv).step hinv hquiet hs
  · -- the first idle fiber to end has just tested
    have hnew : s.term w ≠ t.term w := fun heq => hold ⟨w, heq.trans hw⟩
    cases a with
    | test v =>
        simp only [step] at hs
        split_ifs at hs with hpc hstop <;> cases hs
        · exact ⟨hstop.1, hstop.2.1, hstop.2.2⟩
        · exact absurd rfl hnew
    | schedule task => cases hs; exact absurd rfl hnew
    | stop => cases hs; exact absurd rfl hnew
    | spawn v task =>
        simp only [step] at hs
        split at hs <;> cases hs
        exact absurd rfl hnew
    | scan v running =>
        obtain ⟨-, ⟨earlier, task, later, -, -, -, rfl⟩ | ⟨-, rfl⟩⟩ := scan_step hs
        · exact absurd rfl hnew
        · exact absurd rfl hnew
    | finish v =>
        simp only [step] at hs
        split at hs <;> cases hs
        exact absurd rfl hnew
    | count v =>
        simp only [step] at hs
        split_ifs at hs with hpc
        cases hs
        exact absurd rfl hnew

/-- **`stop()` finishes all work**, for any number of workers: in every state after one in
which a worker has seen `stopping()` hold, the queue is empty and no task is executing;
and when all workers have left `run`, every task pushed has been executed. -/
theorem stopping_stable (hn : 1 ≤ n) (tid : Fin n → Int) (s : State n)
    (h : Lts.Reach step Quiet (start tid) s) :
    (∀ w, s.term w = true → ∀ t, Lts.Reach step Quiet s t →
      t.m_tasks = [] ∧ ∀ v, (t.pc v).active = false) ∧
    ((∀ w, s.pc w = .left) → s.pushed.Perm s.executed) := by
  have hboth : ∀ {s₀ s : State n}, Lts.Reach step Quiet s₀ s →
      (s₀.Inv ∧ ∀ w, s₀.term w = true → s₀.Stopped) →
      s.Inv ∧ ∀ w, s.term w = true → s.Stopped := by
    intro s₀ s h h₀
    refine h.invariant (I := fun s => s.Inv ∧ ∀ w, s.term w = true → s.Stopped) h₀ ?_
    rintro s a t ⟨hinv, hseen⟩ hquiet hs
    exact ⟨step_inv hinv hs, seen_step hinv hseen hquiet hs⟩
  have hs := hboth h ⟨start_inv tid, fun w hw => by cases hw⟩
  constructor
  · intro w hw t ht
    -- the stop condition is kept along the rest of the run
    have hstop : t.Inv ∧ t.Stopped := by
      refine ht.invariant (I := fun t => t.Inv ∧ t.Stopped) ⟨hs.1, hs.2 w hw⟩ ?_
      rintro u a v ⟨hinv, hstop⟩ hquiet hstep
      exact ⟨step_inv hinv hstep, hstop.step hinv hquiet hstep⟩
    exact ⟨hstop.2.tasks, hstop.1.idle hstop.2.active⟩
  · intro hleft
    have hstop := hs.2 ⟨0, hn⟩ (hs.1.left _ (hleft _))
    rw [List.perm_iff_count]
    intro task
    have hconserved := hs.1.conserved task
    have hexecuted := hs.1.executed task
    have hnobody : tally (Pc.executes task) s.pc = 0 := by
      unfold tally
      apply Finset.sum_eq_zero
      intro w _
      rw [hleft w]
      rfl
    rw [hstop.tasks, List.count_nil] at hconserved
    omega

/-- One worker executes one task, which schedules another one, and stops. -/
def lastTasks {n : Nat} (w : Fin n) : List (Action n) :=
  [.schedule ⟨none, some 1, -1⟩, .stop, .scan w fun _ => false, .spawn w ⟨none, some 2, -1⟩,
    .finish w, .count w, .scan w fun _ => false, .finish w, .count w, .scan w fun _ => false,
    .test w, .scan w fun _ => false]

theorem stopping_stable_alone :
    ∃ s : State 1, Lts.Reach step Quiet (start fun w => (w : Int)) s ∧
      s.pushed = [⟨none, some 1, -1⟩, ⟨none, some 2, -1⟩] ∧ (∀ w, s.pc w = .left) ∧
      s.pushed.Perm s.executed := by
  obtain ⟨s, hs⟩ : ∃ s, Lts.run step (lastTasks 0).tail
      ((start fun w : Fin 1 => (w : Int)).schedule ⟨none, some 1, -1⟩) = some s := ⟨_, rfl⟩
  have hfirst : Lts.Reach step Quiet (start fun w : Fin 1 => (w : Int))
      ((start fun w : Fin 1 => (w : Int)).schedule ⟨none, some 1, -1⟩) :=
    .step (.schedule ⟨none, some 1, -1⟩) .init rfl rfl
  have hquiet : ∀ a ∈ (lastTasks (0 : Fin 1)).tail, ∀ t, Quiet t a := by simp [lastTasks, Quiet]
  have hreach := hfirst.run hquiet hs
  have hpushed := run_pushed hs
  have hall := (stopping_stable (Nat.le_refl 1) _ s hreach).2
  cases hs
  exact ⟨_, hreach, hpushed, by decide, hall (by decide)⟩

end Tasks

end Scheduler

end Will
