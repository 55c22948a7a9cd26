/-
ZjhServer/Hook/Connect.lean

A fiber in `connect_with_timeout` (server/hook.cc), among timeouts and others who cancel.

While an attempt is in progress the fiber waits for the descriptor to become writable.  It
can be woken up by `epoll_wait`'s report, by the timeout, or by another fiber's
`cancelEvent` or `cancelAll`; and `addEvent` may fail, in which case it does not wait at
all.  Only the timeout leaves a trace that the fiber looks at (`tinfo->cancelled`).
Every other way leads to `getsockopt`, and `SO_ERROR` is 0 also as long as nothing has
been decided: the fiber then returns 0 (`connect_unconnected`).  In runs in which
`SO_ERROR` is not 0 there unless the kernel has reported the attempt, what is
returned is true (`connect_truthful`).
-/
import ZjhServer.Scheduler.Shutdown
import ZjhServer.Hook.Nonblock

namespace Will

namespace Hook

namespace Connect

def EBADF : Nat := 9
def ETIMEDOUT : Nat := 110
def EINPROGRESS : Nat := 115

/-- A call of `connect_with_timeout`, the fiber and the scheduler that make it, and the
name of its timeout callback, which no other timer has. -/
structure Call where
  fd : Nat
  timeout_ms : UInt64
  scheduler : Nat
  fiber : Nat
  callback : Cb

/-- Where the fiber is; it may hold a timer. -/
inductive Pc
  | start
  /-- before `addConditionTimer` -/
  | arm
  /-- before `addEvent` -/
  | add (timer : Option Nat)
  /-- before `timer->cancel()`, after `addEvent` has failed -/
  | undo (timer : Option Nat)
  /-- before `yield` -/
  | yield (timer : Option Nat)
  | suspended (timer : Option Nat)
  /-- before `timer->cancel()`, after `yield` -/
  | resumed (timer : Option Nat)
  /-- before `if(tinfo->cancelled)` -/
  | test
  /-- before `getsockopt` -/
  | getsockopt
  | done (result : Int)
  deriving DecidableEq, Repr

/-- The timer that the fiber holds. -/
def Pc.timer : Pc → Option Nat
  | .add p | .undo p | .yield p | .suspended p | .resumed p => p
  | .start | .arm | .test | .getsockopt | .done _ => none

def Pc.over : Pc → Bool
  | .done _ => true
  | _ => false

/-- Where the timeout callback is. -/
inductive Callback
  | idle
  /-- taken by `listExpiredCb`, before its test of `cancelled` -/
  | due
  /-- before its `cancelEvent` -/
  | cancelling
  deriving DecidableEq, Repr

/-- What has scheduled the fiber. -/
inductive Cause
  /-- a report that the descriptor is writable, taken after `addEvent` -/
  | kernel
  /-- any other report: one that was taken before -/
  | stale
  /-- `cancelEvent` or `cancelAll` of somebody else -/
  | cancelled
  | timeout
  deriving DecidableEq, Repr

/-- The last five fields only record what has happened. -/
structure State where
  timers : TimerManager
  events : IOManager
  pc : Pc
  errno : Nat
  /-- `tinfo->cancelled` -/
  cancelled : Nat
  callback : Callback
  /-- the tasks in the queue that resume the fiber, by what scheduled them; nothing but its
  event does -/
  wakeups : List Cause
  /-- whether the reports that a worker holds were taken after `addEvent` -/
  fresh : Nat → Bool
  /-- what `connect_f` has returned -/
  connect_f : Option Int
  /-- whether `addEvent` has succeeded -/
  added : Option Bool
  /-- what the fiber was resumed by -/
  cause : Option Cause
  /-- the error that `getsockopt` has given -/
  so_error : Option Nat

namespace State

/-- `errno = error; return -1;` -/
def fail (s : State) (error : Nat) : State := { s with pc := .done (-1), errno := error }

/-- `return connect_f(fd, addr, addrlen);`, which returns `n`. -/
def pass (s : State) (n : Int) (errno : Nat) : State :=
  { s with pc := .done n, errno := errno, connect_f := some n }

/-- `connect_f`, and out of the function unless the attempt is in progress. -/
def attempt (s : State) (n : Int) (errno : Nat) : State :=
  if n = 0 then s.pass 0 errno
  else if n ≠ -1 ∨ errno ≠ EINPROGRESS then s.pass n errno
  else { s with pc := .arm, errno := errno, connect_f := some n }

/-- The function up to `addConditionTimer`. -/
def enter (s : State) (t_hook_enable : Bool) (ctx : Option FdCtx) (n : Int) (errno : Nat) : State :=
  if !t_hook_enable then s.pass n errno
  else
    match ctx with
    | none => s.fail EBADF
    | some ctx =>
        if ctx.m_isClosed then s.fail EBADF
        else if !ctx.m_isSocket then s.pass n errno
        else if ctx.m_userNonblock then s.pass n errno
        else s.attempt n errno

/-- `if(timer) timer->cancel();` -/
def disarm (s : State) : Option Nat → Option State
  | none => some s
  | some p => (s.timers.step (.cancel p)).map fun timers => { s with timers := timers }

/-- Worker `w` is about to dispatch a report of this attempt; an error or a hang-up counts as
a report of every event asked for. -/
def reported (s : State) (c : Call) (w : Nat) : Bool :=
  match s.events.ready w with
  | [] => false
  | (fd, event) :: _ =>
      s.fresh w && fd == c.fd && (event.EPOLLOUT || event.EPOLLERR || event.EPOLLHUP)

/-- What a step of the events by others would wake the fiber up with. -/
def causeOf (s : State) (c : Call) : IOManager.Action → Cause
  | .dispatch w _ => if s.reported c w then .kernel else .stale
  | _ => .cancelled

/-- A step of the events; if it has scheduled the fiber, `cause` has. -/
def setEvents (s : State) (c : Call) (cause : Cause) (events : IOManager) : State :=
  { s with
    events := events
    wakeups := s.wakeups ++ ((events.scheduled.drop s.events.scheduled.length).filter fun
      | .fiber _ fiber => fiber = some c.fiber
      | .cb .. => false).map fun _ => cause }

end State

/-! ### Steps -/

/-- A step of the fiber, of its timeout callback, or of others. -/
inductive Action
  | enter (t_hook_enable : Bool) (ctx : Option FdCtx) (n : Int) (errno : Nat)
  | arm (timer : Nat) (now : UInt64)
  | add (fails : Bool)
  | undo
  | yield
  | resume
  | disarm
  | test
  | getsockopt (r : Except Nat Nat)
  | check
  | cancel (fails : Bool)
  | timer (op : TimerManager.Op)
  | expire (now : UInt64) (probe : Nat)
  | event (a : IOManager.Action)

/-- A step of `connect_with_timeout`. -/
def stepFiber (c : Call) (s : State) : Action → Option State
  | .enter t_hook_enable ctx n errno =>
      if s.pc = .start then some (s.enter t_hook_enable ctx n errno) else none
  | .arm p now =>
      if s.pc = .arm then
        if c.timeout_ms ≠ -1 then
          (s.timers.step (.addTimer p now c.timeout_ms (some c.callback) false)).map fun timers =>
            { s with timers := timers, pc := .add (some p) }
        else some { s with pc := .add none }
      else none
  | .add fails =>
      match s.pc with
      | .add p =>
          (s.events.addEvent c.fd .WRITE c.scheduler (.fiber c.fiber) fails).map fun r =>
            { s with
              events := r.1
              pc := if r.2 then .yield p else .undo p
              added := some r.2 }
      | _ => none
  | .undo =>
      match s.pc with
      | .undo p => (s.disarm p).map fun s => { s with pc := .getsockopt }
      | _ => none
  | .yield =>
      match s.pc with
      | .yield p => some { s with pc := .suspended p }
      | _ => none
  | .resume =>
      match s.pc, s.wakeups with
      | .suspended p, cause :: rest =>
          some { s with pc := .resumed p, wakeups := rest, cause := some cause }
      | _, _ => none
  | .disarm =>
      match s.pc with
      | .resumed p => (s.disarm p).map fun s => { s with pc := .test }
      | _ => none
  | .test =>
      if s.pc = .test then
        some (if s.cancelled ≠ 0 then s.fail s.cancelled else { s with pc := .getsockopt })
      else none
  | .getsockopt r =>
      if s.pc = .getsockopt then
        some (match r with
          | .error errno => s.fail errno
          | .ok 0 => { s with pc := .done 0, so_error := some 0 }
          | .ok error => { s with so_error := some error }.fail error)
      else none
  | _ => none

/-- A step of the timeout callback, or of others. -/
def stepOthers (c : Call) (s : State) : Action → Option State
  | .check =>
      if s.callback = .due then
        -- once the function has returned, `winfo` gives no `timer_info`
        some (if s.pc.over ∨ s.cancelled ≠ 0 then { s with callback := .idle }
          else { s with cancelled := ETIMEDOUT, callback := .cancelling })
      else none
  | .cancel fails =>
      if s.callback = .cancelling then
        some (({ s with callback := .idle } : State).setEvents c .timeout
          (s.events.cancelEvent c.fd .WRITE fails).1)
      else none
  | .timer op =>
      if op.ofTask ∧ (s.pc.timer.isNone ∨ op.address ≠ s.pc.timer) then
        (s.timers.step op).map fun timers => { s with timers := timers }
      else none
  | .expire now probe =>
      if probe ∉ s.timers.m_timers then
        let r := s.timers.listExpiredCb now probe
        some { s with
          timers := r.1
          callback := if some c.callback ∈ r.2 then .due else s.callback }
      else none
  | .event a =>
      if a.waiter ≠ some (.fiber c.fiber) then
        (s.events.step a).map fun events =>
          let s := s.setEvents c (s.causeOf c a) events
          match a with
          | .epollWait w _ => { s with fresh := Function.update s.fresh w (s.added == some true) }
          | _ => s
      else none
  | _ => none

/-- A failed assertion ends the process. -/
def step (c : Call) (s : State) (a : Action) : Option State :=
  ((stepFiber c s a).or (stepOthers c s a)).filter fun t => !t.events.aborted

/-! ### What is to be returned -/

/-- A result that is true: 0 only for a connection that `connect_f` or the kernel has
reported, -1 if the event has not been registered or the wait has been cancelled. -/
structure Truthful (s : State) : Prop where
  connected : s.pc = .done 0 →
    s.connect_f = some 0 ∨ s.cause = some .kernel ∧ s.so_error = some 0
  unregistered : ∀ r, s.pc = .done r → s.added = some false → r = -1
  cancelled : ∀ r, s.pc = .done r → s.cause = some .cancelled ∨ s.cause = some .timeout → r = -1

/-- `SO_ERROR` is not 0 after a registration that has failed, or a wait that somebody else
or a stale report has ended. -/
def Fine (s : State) : Action → Prop
  | .getsockopt r =>
      s.added = some false ∨ s.cause = some .cancelled ∨ s.cause = some .stale → r ≠ .ok 0
  | _ => True

/-! ### The invariant -/

/-- What has happened when the fiber is there. -/
def Pc.Past (connect_f : Option Int) (added : Option Bool) (cause : Option Cause) : Pc → Prop
  | .start => connect_f = none ∧ added = none ∧ cause = none
  | .arm | .add _ => connect_f = some (-1) ∧ added = none ∧ cause = none
  | .undo _ => connect_f = some (-1) ∧ added = some false ∧ cause = none
  | .yield _ | .suspended _ => connect_f = some (-1) ∧ added = some true ∧ cause = none
  | .resumed _ | .test => connect_f = some (-1) ∧ added = some true ∧ cause ≠ none
  | .getsockopt => connect_f = some (-1) ∧
      (added = some false ∧ cause = none ∨
        added = some true ∧ cause ≠ none ∧ cause ≠ some .timeout)
  | .done _ => True

/-- The timeout callback stores `ETIMEDOUT` before it cancels. -/
structure Inv (s : State) : Prop where
  past : s.pc.Past s.connect_f s.added s.cause
  stored : .timeout ∈ s.wakeups ∨ s.cause = some .timeout ∨ s.callback = .cancelling →
    s.cancelled ≠ 0

variable {c : Call} {s t : State}

/-- The fiber has not moved. -/
structure Still (s t : State) : Prop where
  pc : t.pc = s.pc
  connect_f : t.connect_f = s.connect_f
  added : t.added = s.added
  cause : t.cause = s.cause
  so_error : t.so_error = s.so_error

theorem Still.past (h : Still s t) (hpast : s.pc.Past s.connect_f s.added s.cause) :
    t.pc.Past t.connect_f t.added t.cause := by
  rw [h.pc, h.connect_f, h.added, h.cause]
  exact hpast

theorem Still.truthful (h : Still s t) (htrue : Truthful s) : Truthful t := by
  refine ⟨fun hdone => ?_, fun r hdone hadded => ?_, fun r hdone hcause => ?_⟩
  · rw [h.connect_f, h.cause, h.so_error]
    exact htrue.connected (h.pc ▸ hdone)
  · exact htrue.unregistered r (h.pc ▸ hdone) (h.added ▸ hadded)
  · exact htrue.cancelled r (h.pc ▸ hdone) (h.cause ▸ hcause)

/-- A result is looked at only when there is one. -/
theorem truthful_of_not_over (h : t.pc.over = false) : Truthful t := by
  have hnot : ∀ r, t.pc ≠ .done r := fun r hdone => by
    rw [hdone] at h
    cases h
  exact ⟨fun hdone => absurd hdone (hnot 0), fun r hdone => absurd hdone (hnot r),
    fun r hdone => absurd hdone (hnot r)⟩

/-- -1 claims nothing. -/
theorem truthful_of_failed (h : t.pc = .done (-1)) : Truthful t := by
  refine ⟨fun hdone => ?_, fun r hdone _ => ?_, fun r hdone _ => ?_⟩
  · cases h.symm.trans hdone
  · exact (Pc.done.inj (h.symm.trans hdone)).symm
  · exact (Pc.done.inj (h.symm.trans hdone)).symm

/-! ### Steps of others -/

theorem setEvents_timeout {cause : Cause} {events : IOManager}
    (h : .timeout ∈ (s.setEvents c cause events).wakeups) :
    .timeout ∈ s.wakeups ∨ cause = .timeout := by
  rcases List.mem_append.mp h with h | h
  · exact .inl h
  · obtain ⟨_, -, heq⟩ := List.mem_map.mp h
    exact .inr heq

theorem causeOf_ne_timeout (s : State) (c : Call) (a : IOManager.Action) :
    s.causeOf c a ≠ .timeout := by
  unfold State.causeOf
  split
  · split_ifs <;> decide
  · decide

/-- **Others** leave the fiber where it is, and `ETIMEDOUT` stored. -/
theorem stepOthers_keeps {a : Action} (h : Inv s) (hs : stepOthers c s a = some t) :
    Still s t ∧ Inv t := by
  -- who stands still keeps the invariant, as long as a wake-up by the timer finds its code
  have hkeep : ∀ {t}, Still s t →
      (.timeout ∈ t.wakeups ∨ t.cause = some .timeout ∨ t.callback = .cancelling →
        t.cancelled ≠ 0) → Still s t ∧ Inv t :=
    fun hstill hstored => ⟨hstill, hstill.past h.past, hstored⟩
  cases a with
  | check =>
      simp only [stepOthers] at hs
      split_ifs at hs with hdue hover
      · cases hs
        refine hkeep ⟨rfl, rfl, rfl, rfl, rfl⟩ fun hwhere => h.stored ?_
        exact hwhere.imp_right fun hwhere => hwhere.imp_right fun hidle => by cases hidle
      · cases hs
        exact hkeep ⟨rfl, rfl, rfl, rfl, rfl⟩ fun _ => (by decide : ETIMEDOUT ≠ 0)
  | cancel fails =>
      simp only [stepOthers] at hs
      split_ifs at hs with hcancelling
      cases hs
      exact hkeep ⟨rfl, rfl, rfl, rfl, rfl⟩ fun _ => h.stored (.inr (.inr hcancelling))
  | timer op =>
      simp only [stepOthers] at hs
      split_ifs at hs
      obtain ⟨timers, -, rfl⟩ := Option.map_eq_some_iff.mp hs
      exact hkeep ⟨rfl, rfl, rfl, rfl, rfl⟩ h.stored
  | expire now probe =>
      simp only [stepOthers] at hs
      split_ifs at hs
      · cases hs
        refine hkeep ⟨rfl, rfl, rfl, rfl, rfl⟩ fun hwhere => h.stored ?_
        exact hwhere.imp_right fun hwhere => hwhere.imp_right fun hdue => by cases hdue
      · cases hs
        exact hkeep ⟨rfl, rfl, rfl, rfl, rfl⟩ h.stored
  | event a =>
      simp only [stepOthers] at hs
      split_ifs at hs
      obtain ⟨events, -, rfl⟩ := Option.map_eq_some_iff.mp hs
      have hstored : .timeout ∈ (s.setEvents c (s.causeOf c a) events).wakeups ∨
          s.cause = some .timeout ∨ s.callback = .cancelling → s.cancelled ≠ 0 :=
        fun hwhere => h.stored (hwhere.imp_left fun hmem =>
          (setEvents_timeout hmem).resolve_right (causeOf_ne_timeout s c a))
      split <;> exact hkeep ⟨rfl, rfl, rfl, rfl, rfl⟩ hstored
  | _ => cases hs

/-! ### Steps of the fiber -/

theorem fail_keeps (h : Inv s) (error : Nat) :
    Inv (s.fail error) ∧ Truthful (s.fail error) :=
  ⟨⟨trivial, h.stored⟩, truthful_of_failed rfl⟩

/-- The result of `connect_f`, before anything has been registered. -/
theorem pass_keeps (h : Inv s) (hpc : s.pc = .start) (n : Int) (errno : Nat) :
    Inv (s.pass n errno) ∧ Truthful (s.pass n errno) := by
  have hpast := h.past
  rw [hpc] at hpast
  obtain ⟨-, hadded, hcause⟩ := hpast
  refine ⟨⟨trivial, h.stored⟩, fun hzero => .inl ?_, fun r _ hfalse => ?_, fun r _ hwhere => ?_⟩
  · exact congrArg some (Pc.done.inj hzero)
  · cases hadded.symm.trans hfalse
  · rcases hwhere with hwhere | hwhere
    · cases hcause.symm.trans hwhere
    · cases hcause.symm.trans hwhere

theorem enter_keeps (h : Inv s) (hpc : s.pc = .start) (t_hook_enable : Bool)
    (ctx : Option FdCtx) (n : Int) (errno : Nat) :
    Inv (s.enter t_hook_enable ctx n errno) ∧ Truthful (s.enter t_hook_enable ctx n errno) := by
  have hattempt : Inv (s.attempt n errno) ∧ Truthful (s.attempt n errno) := by
    have hpast := h.past
    rw [hpc] at hpast
    obtain ⟨-, hadded, hcause⟩ := hpast
    unfold State.attempt
    split_ifs with hzero hfailed
    · exact pass_keeps h hpc 0 errno
    · exact pass_keeps h hpc n errno
    · have hn : n = -1 := by
        by_contra hne
        exact hfailed (.inl hne)
      exact ⟨⟨⟨congrArg some hn, hadded, hcause⟩, h.stored⟩, truthful_of_not_over rfl⟩
  unfold State.enter
  cases t_hook_enable with
  | false => exact pass_keeps h hpc n errno
  | true =>
      cases ctx with
      | none => exact fail_keeps h EBADF
      | some ctx =>
          simp only [Bool.not_true, Bool.false_eq_true, if_false]
          split_ifs
          · exact fail_keeps h EBADF
          · exact pass_keeps h hpc n errno
          · exact pass_keeps h hpc n errno
          · exact hattempt

theorem disarm_eq {p : Option Nat} (hs : s.disarm p = some t) :
    ∃ timers, t = { s with timers := timers } := by
  cases p with
  | none =>
      cases hs
      exact ⟨s.timers, rfl⟩
  | some p =>
      obtain ⟨timers, -, rfl⟩ := Option.map_eq_some_iff.mp hs
      exact ⟨timers, rfl⟩

/-- At an admitted `getsockopt` that gives 0 the kernel has woken the fiber up. -/
theorem cause_of_fine (hpast : Pc.getsockopt.Past s.connect_f s.added s.cause)
    (hfine : Fine s (.getsockopt (.ok 0))) : s.cause = some .kernel ∧ s.added = some true := by
  obtain ⟨-, ⟨hadded, -⟩ | ⟨hadded, hnone, htimeout⟩⟩ := hpast
  · exact absurd rfl (hfine (.inl hadded))
  · rcases hcause : s.cause with _ | cause
    · exact absurd hcause hnone
    · cases cause with
      | kernel => exact ⟨rfl, hadded⟩
      | stale => exact absurd rfl (hfine (.inr (.inr hcause)))
      | cancelled => exact absurd rfl (hfine (.inr (.inl hcause)))
      | timeout => exact absurd hcause htimeout

/-- The fiber has moved, and not out of the function. -/
theorem moved {a : Action} (hpast : t.pc.Past t.connect_f t.added t.cause)
    (hstored : .timeout ∈ t.wakeups ∨ t.cause = some .timeout ∨ t.callback = .cancelling →
      t.cancelled ≠ 0) (hinside : t.pc.over = false) : Inv t ∧ (Fine s a → Truthful t) :=
  ⟨⟨hpast, hstored⟩, fun _ => truthful_of_not_over hinside⟩

/-- **The fiber** keeps the invariant, and what it returns is true if `getsockopt` is
admitted. -/
theorem stepFiber_keeps {a : Action} (h : Inv s) (hs : stepFiber c s a = some t) :
    Inv t ∧ (Fine s a → Truthful t) := by
  have hpast := h.past
  cases a with
  | enter t_hook_enable ctx n errno =>
      simp only [stepFiber] at hs
      split_ifs at hs with hpc
      cases hs
      obtain ⟨hinv, htrue⟩ := enter_keeps h hpc t_hook_enable ctx n errno
      exact ⟨hinv, fun _ => htrue⟩
  | arm p now =>
      simp only [stepFiber] at hs
      split_ifs at hs with hpc hfinite
      all_goals rw [hpc] at hpast
      · obtain ⟨timers, -, rfl⟩ := Option.map_eq_some_iff.mp hs
        exact moved hpast h.stored rfl
      · cases hs
        exact moved hpast h.stored rfl
  | add fails =>
      simp only [stepFiber] at hs
      split at hs
      · rename_i p hpc
        rw [hpc] at hpast
        obtain ⟨hconnect, -, hcause⟩ := hpast
        obtain ⟨⟨events, success⟩, -, rfl⟩ := Option.map_eq_some_iff.mp hs
        cases success with
        | false => exact moved ⟨hconnect, rfl, hcause⟩ h.stored rfl
        | true => exact moved ⟨hconnect, rfl, hcause⟩ h.stored rfl
      · cases hs
  | undo =>
      simp only [stepFiber] at hs
      split at hs
      · rename_i p hpc
        rw [hpc] at hpast
        obtain ⟨hconnect, hadded, hcause⟩ := hpast
        obtain ⟨u, hu, rfl⟩ := Option.map_eq_some_iff.mp hs
        obtain ⟨timers, rfl⟩ := disarm_eq hu
        exact moved ⟨hconnect, .inl ⟨hadded, hcause⟩⟩ h.stored rfl
      · cases hs
  | yield =>
      simp only [stepFiber] at hs
      split at hs
      · rename_i p hpc
        rw [hpc] at hpast
        cases hs
        exact moved hpast h.stored rfl
      · cases hs
  | resume =>
      simp only [stepFiber] at hs
      split at hs
      · rename_i p cause rest hpc hwakeups
        rw [hpc] at hpast
        obtain ⟨hconnect, hadded, -⟩ := hpast
        cases hs
        refine moved ⟨hconnect, hadded, Option.some_ne_none _⟩ (fun hwhere => h.stored ?_) rfl
        -- the cause was among the tasks of the fiber
        rcases hwhere with hrest | hcause | hcancelling
        · exact .inl (hwakeups ▸ List.mem_cons_of_mem _ hrest)
        · exact .inl (hwakeups ▸ Option.some.inj hcause ▸ List.mem_cons_self ..)
        · exact .inr (.inr hcancelling)
      · cases hs
  | disarm =>
      simp only [stepFiber] at hs
      split at hs
      · rename_i p hpc
        rw [hpc] at hpast
        obtain ⟨u, hu, rfl⟩ := Option.map_eq_some_iff.mp hs
        obtain ⟨timers, rfl⟩ := disarm_eq hu
        exact moved hpast h.stored rfl
      · cases hs
  | test =>
      simp only [stepFiber] at hs
      split_ifs at hs with hpc hcancelled
      · cases hs
        obtain ⟨hinv, htrue⟩ := fail_keeps h s.cancelled
        exact ⟨hinv, fun _ => htrue⟩
      · cases hs
        rw [hpc] at hpast
        obtain ⟨hconnect, hadded, hcause⟩ := hpast
        -- a timeout would have left `ETIMEDOUT`
        have htimeout : s.cause ≠ some .timeout := fun heq =>
          hcancelled (h.stored (.inr (.inl heq)))
        exact moved ⟨hconnect, .inr ⟨hadded, hcause, htimeout⟩⟩ h.stored rfl
  | getsockopt r =>
      simp only [stepFiber] at hs
      split_ifs at hs with hpc
      rw [hpc] at hpast
      split at hs
      · cases hs
        exact ⟨⟨trivial, h.stored⟩, fun _ => truthful_of_failed rfl⟩
      · cases hs
        refine ⟨⟨trivial, h.stored⟩, fun hfine => ?_⟩
        obtain ⟨hkernel, hadded⟩ := cause_of_fine hpast hfine
        refine ⟨fun _ => .inr ⟨hkernel, rfl⟩, fun r _ hfalse => ?_, fun r _ hwhere => ?_⟩
        · cases hadded.symm.trans hfalse
        · rcases hwhere with hwhere | hwhere
          · cases hkernel.symm.trans hwhere
          · cases hkernel.symm.trans hwhere
      · cases hs
        exact ⟨⟨trivial, h.stored⟩, fun _ => truthful_of_failed rfl⟩
  | _ => cases hs

/-! ### Runs -/

theorem step_keeps {a : Action} (h : Inv s) (hs : step c s a = some t) :
    Inv t ∧ (Truthful s → Fine s a → Truthful t) := by
  obtain ⟨hor, -⟩ := Option.filter_eq_some_iff.mp hs
  rcases Option.or_eq_some_iff.mp hor with hfiber | ⟨-, hothers⟩
  · obtain ⟨hinv, htrue⟩ := stepFiber_keeps h hfiber
    exact ⟨hinv, fun _ => htrue⟩
  · obtain ⟨hstill, hinv⟩ := stepOthers_keeps h hothers
    exact ⟨hinv, fun htrue _ => hstill.truthful htrue⟩

/-- A step that is not admitted returns 0 for an attempt that nobody has reported. -/
theorem step_untruthful {a : Action} (h : Inv s) (hs : step c s a = some t) (hnot : ¬ Fine s a) :
    ¬ Truthful t := by
  obtain ⟨hor, -⟩ := Option.filter_eq_some_iff.mp hs
  cases a with
  | getsockopt r =>
      rw [Fine, Classical.not_imp, not_not] at hnot
      obtain ⟨hwhere, rfl⟩ := hnot
      rcases Option.or_eq_some_iff.mp hor with hfiber | ⟨-, hothers⟩
      · simp only [stepFiber] at hfiber
        split_ifs at hfiber with hpc
        have hpast := h.past
        rw [hpc] at hpast
        obtain ⟨hconnect, hpast⟩ := hpast
        cases hfiber
        intro htrue
        rcases htrue.connected rfl with hzero | ⟨hkernel, -⟩
        · cases hconnect.symm.trans hzero
        · have hkernel : s.cause = some .kernel := hkernel
          rcases hwhere with hadded | hcancelled | hstale
          · rcases hpast with ⟨-, hnone⟩ | ⟨hadded', -⟩
            · cases hnone.symm.trans hkernel
            · cases hadded.symm.trans hadded'
          · cases hcancelled.symm.trans hkernel
          · cases hstale.symm.trans hkernel
      · cases hothers
  | _ => exact absurd trivial hnot

/-- The fiber has called `connect_with_timeout`. -/
structure Start (s : State) : Prop where
  pc : s.pc = .start
  cancelled : s.cancelled = 0
  callback : s.callback = .idle
  wakeups : s.wakeups = []
  fresh : ∀ w, s.fresh w = false
  connect_f : s.connect_f = none
  added : s.added = none
  cause : s.cause = none

theorem Start.inv (h : Start s) : Inv s := by
  refine ⟨?_, fun hwhere => ?_⟩
  · rw [h.pc]
    exact ⟨h.connect_f, h.added, h.cause⟩
  · rw [h.wakeups, h.cause, h.callback] at hwhere
    rcases hwhere with hmem | hcause | hcancelling
    · cases hmem
    · cases hcause
    · cases hcancelling

/-- **What is returned is true** in the runs whose steps are admitted, and in no run after a
step that is not. -/
theorem connect_truthful (c : Call) {s₀ : State} (h₀ : Start s₀) :
    (∀ s, Lts.Reach (step c) Fine s₀ s → Truthful s) ∧
      ∀ s a t, Lts.Reach (step c) Lts.Any s₀ s → step c s a = some t → ¬ Fine s a →
        ¬ Truthful t := by
  have hstart : Truthful s₀ := truthful_of_not_over (by rw [h₀.pc]; rfl)
  constructor
  · intro s hreach
    have hboth : Inv s ∧ Truthful s := by
      refine hreach.invariant (I := fun s => Inv s ∧ Truthful s) ⟨h₀.inv, hstart⟩ ?_
      intro s a t hI hfine hs
      obtain ⟨hinv, htrue⟩ := step_keeps hI.1 hs
      exact ⟨hinv, htrue hI.2 hfine⟩
    exact hboth.2
  · intro s a t hreach hs hnot
    have hinv : Inv s :=
      hreach.invariant h₀.inv fun s a t hI _ hs => (step_keeps hI hs).1
    exact step_untruthful hinv hs hnot

/-- A connect on descriptor 5 with 10 ms to go. -/
def connect10 : Call := ⟨5, 10, 0, 1, 100⟩

def started : State where
  timers := .new 0
  events := .init
  pc := .start
  errno := 0
  cancelled := 0
  callback := .idle
  wakeups := []
  fresh _ := false
  connect_f := none
  added := none
  cause := none
  so_error := none

theorem started_start : Start started := ⟨rfl, rfl, rfl, rfl, fun _ => rfl, rfl, rfl, rfl⟩

/-- The attempt is in progress, the timer armed. -/
def inProgress : List Action :=
  [.enter true (some ⟨true, true, true, false, false, -1, -1⟩) (-1) EINPROGRESS, .arm 1 0]

/-- The fiber waits until `a` wakes it up, and comes to `getsockopt`. -/
def waits (a : List IOManager.Action) : List Action :=
  inProgress ++ [.add false, .yield] ++ a.map .event ++ [.resume, .disarm, .test]

/-- `epoll_wait` reports the descriptor as writable. -/
def writable : List IOManager.Action :=
  [.epollWait 0 [(5, ⟨false, true, false, false⟩)], .dispatch 0 false]

theorem connect_truthful_writable :
    ∃ s, s.pc = .done 0 ∧ s.connect_f = some (-1) ∧ s.cause = some .kernel ∧ Truthful s := by
  obtain ⟨s, hs, hfacts⟩ := Option.map_eq_some_iff.mp
    (show (Lts.run (step connect10) (waits writable) started).map
        (fun s => (s.pc, s.events.aborted, s.connect_f, s.added, s.cause)) =
      some (.getsockopt, false, some (-1), some true, some .kernel) from by decide +kernel)
  simp only [Prod.mk.injEq] at hfacts
  obtain ⟨hpc, halive, hconnect, hadded, hcause⟩ := hfacts
  have hfine : ∀ a ∈ waits writable, ∀ s, Fine s a := by
    simp [waits, inProgress, writable, Fine]
  have hlast : Fine s (.getsockopt (.ok 0)) := by
    rintro (hfalse | hcancelled | hstale)
    · cases hadded.symm.trans hfalse
    · cases hcause.symm.trans hcancelled
    · cases hcause.symm.trans hstale
  have hstep : step connect10 s (.getsockopt (.ok 0)) =
      some { s with pc := .done 0, so_error := some 0 } := by
    rw [step, stepFiber, if_pos hpc]
    show Option.filter _ (some _) = _
    rw [Option.filter_some, if_pos (by rw [halive]; rfl)]
  exact ⟨{ s with pc := .done 0, so_error := some 0 }, rfl, hconnect, hcause,
    (connect_truthful connect10 started_start).1 _
      (.step _ (Lts.Reach.init.run hfine hs) hlast hstep)⟩

/-- **A connection that there is not**: 0 is returned for an attempt in progress whose
event could not be registered, or whose wait another fiber has cancelled. -/
theorem connect_unconnected :
    (∃ s, Lts.run (step connect10) (inProgress ++ [.add true, .undo, .getsockopt (.ok 0)])
      started = some s ∧ ¬ Truthful s) ∧
    ∃ s, Lts.run (step connect10) (waits [.cancelAll 5 false] ++ [.getsockopt (.ok 0)])
      started = some s ∧ ¬ Truthful s := by
  have hnot : ∀ s : State, s.pc = .done 0 → s.connect_f = some (-1) → s.cause ≠ some .kernel →
      ¬ Truthful s := by
    intro s hpc hconnect hcause htrue
    rcases htrue.connected hpc with hzero | ⟨hkernel, -⟩
    · cases hconnect.symm.trans hzero
    · exact hcause hkernel
  constructor
  · obtain ⟨s, hs, hfacts⟩ := Option.map_eq_some_iff.mp
      (show (Lts.run (step connect10) (inProgress ++ [.add true, .undo, .getsockopt (.ok 0)])
          started).map (fun s => (s.pc, s.connect_f, s.cause)) =
        some (.done 0, some (-1), none) from by decide +kernel)
    simp only [Prod.mk.injEq] at hfacts
    exact ⟨s, hs, hnot s hfacts.1 hfacts.2.1 (by rw [hfacts.2.2]; decide)⟩
  · obtain ⟨s, hs, hfacts⟩ := Option.map_eq_some_iff.mp
      (show (Lts.run (step connect10) (waits [.cancelAll 5 false] ++ [.getsockopt (.ok 0)])
          started).map (fun s => (s.pc, s.connect_f, s.cause)) =
        some (.done 0, some (-1), some .cancelled) from by decide +kernel)
    simp only [Prod.mk.injEq] at hfacts
    exact ⟨s, hs, hnot s hfacts.1 hfacts.2.1 (by rw [hfacts.2.2]; decide)⟩

end Connect

end Hook

end Will
