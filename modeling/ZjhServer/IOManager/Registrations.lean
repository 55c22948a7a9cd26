/-
ZjhServer/IOManager/Registrations.lean

What happens to a registration of `IOManager` (server/iomanager.{h,cc}) from the
`addEvent` that makes it to the call that ends it.

A ledger beside the manager numbers the registrations in the order they are made
and moves each from `live` to `deleted` (`delEvent`) or to `cancelled`
(`cancelEvent`, `cancelAll`).  `registrations` ties the two together over all
sequences of calls: the ledger never loses or doubles a registration, the tasks
scheduled are those of the cancelled ones, and the mask, the contexts, the kernel's
list and the counter agree.

The read end of the pipe that `tickle` writes to is not in `interest`: for a caller
that tries to register it `EPOLL_CTL_ADD` fails.
-/
import ZjhServer.IOManager.Dispatch
import Mathlib.Algebra.Order.BigOperators.Group.List
import Mathlib.Algebra.Order.Group.Int
import Mathlib.Algebra.Ring.Int.Defs

namespace Will

namespace IOManager

/-! ### The calls -/

/-- What the calls of the event interface do and return; no result when an assertion
ends the process.  The steps of `idle` are not calls. -/
def call (s : IOManager) : Action → Option (IOManager × Bool)
  | .addEvent fd event scheduler waiter fails => s.addEvent fd event scheduler waiter fails
  | .delEvent fd event fails => some (s.delEvent fd event fails)
  | .cancelEvent fd event fails => some (s.cancelEvent fd event fails)
  | .cancelAll fd fails => some (s.cancelAll fd fails)
  | .epollWait _ _ | .dispatch _ _ => none

/-- The four calls, `addEvent` only of an event not yet registered. -/
def Asked (s : IOManager) : Action → Prop
  | .addEvent fd event _ _ _ => s.registered fd event = false
  | .delEvent _ _ _ | .cancelEvent _ _ _ | .cancelAll _ _ => True
  | .epollWait _ _ | .dispatch _ _ => False

/-- The call finds its event and `epoll_ctl` does not fail. -/
def Succeeds (s : IOManager) : Action → Prop
  | .addEvent _ _ _ _ fails => fails = false
  | .delEvent fd event fails | .cancelEvent fd event fails =>
      s.registered fd event = true ∧ fails = false
  | .cancelAll fd fails => (∃ event, s.registered fd event = true) ∧ fails = false
  | .epollWait _ _ | .dispatch _ _ => False

/-- The context of `fd`; one not yet allocated counts as new. -/
def contextOf (s : IOManager) (fd : Nat) : FdContext := (s.m_fdContexts[fd]?).getD .new

/-- No registration has changed, nor anything that goes with them. -/
structure Unchanged (s t : IOManager) : Prop where
  contexts : t.contextOf = s.contextOf
  pending : t.m_pendingEventCount = s.m_pendingEventCount
  interest : t.interest = s.interest
  scheduled : t.scheduled = s.scheduled

/-! ### The ledger -/

/-- A successful `addEvent`, and the task it will be scheduled as. -/
structure Registration where
  number : Nat
  fd : Nat
  event : Event
  task : Task
  deriving DecidableEq, Repr

/-- The registration is of `event` on `fd`. -/
def Registration.at (fd : Nat) (event : Event) (r : Registration) : Bool :=
  r.fd = fd && r.event = event

structure Ledger where
  registered : List Registration
  live : List Registration
  deleted : List Registration
  cancelled : List Registration

namespace Ledger

def empty : Ledger := ⟨[], [], [], []⟩

def register (L : Ledger) (fd : Nat) (event : Event) (task : Task) : Ledger :=
  let r : Registration := ⟨L.registered.length, fd, event, task⟩
  { L with registered := L.registered ++ [r], live := L.live ++ [r] }

def delete (L : Ledger) (fd : Nat) (event : Event) : Ledger :=
  { L with
    live := L.live.filter fun r => !r.at fd event
    deleted := L.deleted ++ L.live.filter (Registration.at fd event) }

def cancel (L : Ledger) (fd : Nat) (event : Event) : Ledger :=
  { L with
    live := L.live.filter fun r => !r.at fd event
    cancelled := L.cancelled ++ L.live.filter (Registration.at fd event) }

/-- The task of `schedule(cb)` or `schedule(fiber)` for this waiter. -/
def taskOf (scheduler : Nat) : Waiter → Task
  | .cb name => .cb scheduler name
  | .fiber name => .fiber scheduler (some name)

/-- What a call that returned success did; `cancelAll` takes the read event first. -/
def record (L : Ledger) (a : Action) (success : Bool) : Ledger :=
  if success then
    match a with
    | .addEvent fd event scheduler waiter _ => L.register fd event (taskOf scheduler waiter)
    | .delEvent fd event _ => L.delete fd event
    | .cancelEvent fd event _ => L.cancel fd event
    | .cancelAll fd _ => (L.cancel fd .READ).cancel fd .WRITE
    | .epollWait _ _ | .dispatch _ _ => L
  else L

end Ledger

/-- A call, and the ledger's record of it. -/
def recorded (x : IOManager × Ledger) (a : Action) : Option (IOManager × Ledger) :=
  (x.1.call a).map fun r => (r.1, x.2.record a r.2)

/-! ### What each call does -/

theorem registered_eq (s : IOManager) (fd : Nat) (e : Event) :
    s.registered fd e = (s.contextOf fd).events.has e := by
  unfold IOManager.registered contextOf
  cases s.m_fdContexts[fd]? with
  | none => cases e <;> rfl
  | some ctx => rfl

theorem contextOf_eq {s : IOManager} {fd : Nat} {ctx : FdContext}
    (hctx : s.m_fdContexts[fd]? = some ctx) : s.contextOf fd = ctx := by
  rw [contextOf, hctx, Option.getD_some]

/-- A registered event has its context in the table. -/
theorem context_of_registered {s : IOManager} {fd : Nat} {e : Event}
    (h : s.registered fd e = true) :
    ∃ ctx, s.m_fdContexts[fd]? = some ctx ∧ ctx.events.has e = true := by
  unfold IOManager.registered at h
  cases hctx : s.m_fdContexts[fd]? with
  | none => rw [hctx] at h; cases h
  | some ctx => rw [hctx] at h; exact ⟨ctx, rfl, h⟩

/-- Growing the table changes no context. -/
theorem resized_contextOf {s : IOManager} (h : s.Inv) (fd : Nat) :
    (s.resized fd).contextOf = s.contextOf := by
  obtain ⟨k, hk, -⟩ := resized_eq h fd
  rw [hk]
  funext fd'
  show ((s.m_fdContexts ++ List.replicate k FdContext.new)[fd']?).getD .new = _
  rw [List.getElem?_append]
  split_ifs with hlt
  · rfl
  · rw [contextOf, List.getElem?_eq_none (Nat.le_of_not_lt hlt), Option.getD_none]
    rcases hnew : (List.replicate k FdContext.new)[fd' - s.m_fdContexts.length]? with _ | ctx
    · rfl
    · exact List.eq_of_mem_replicate (List.mem_of_getElem? hnew)

theorem resized_unchanged {s : IOManager} (h : s.Inv) (fd : Nat) : Unchanged s (s.resized fd) := by
  refine ⟨resized_contextOf h fd, ?_, ?_, ?_⟩ <;>
  · obtain ⟨k, hk, -⟩ := resized_eq h fd
    rw [hk]

theorem Unchanged.refl (s : IOManager) : Unchanged s s := ⟨rfl, rfl, rfl, rfl⟩

/-- The state after an `addEvent` that succeeds, in a table with the context `ctx` of
`fd`. -/
def added (s : IOManager) (fd : Nat) (ctx : FdContext) (event : Event) (c : EventContext) :
    IOManager :=
  { s.setMask fd (some (ctx.events.insert event)) with
    m_pendingEventCount := s.m_pendingEventCount + 1
    m_fdContexts := s.m_fdContexts.set fd (ctx.add event c) }

/-- `addEvent` of an event not yet registered: no assertion fails, and only `epoll_ctl`
decides. -/
theorem addEvent_eq {s : IOManager} (h : s.Inv) {fd : Nat} {event : Event}
    (hnew : s.registered fd event = false) (scheduler : Nat) (waiter : Waiter) (fails : Bool) :
    ∃ ctx, (s.resized fd).m_fdContexts[fd]? = some ctx ∧ ctx.events.has event = false ∧
      s.addEvent fd event scheduler waiter fails =
        some (if fails then (s.resized fd, false)
          else ((s.resized fd).added fd ctx event (waiter.context scheduler), true)) := by
  have hr := resized_inv h fd
  obtain ⟨-, -, hfd⟩ := resized_eq h fd
  obtain ⟨ctx, hctx⟩ : ∃ ctx, (s.resized fd).m_fdContexts[fd]? = some ctx :=
    ⟨_, List.getElem?_eq_getElem hfd⟩
  have hev : ctx.events.has event = false := by
    rw [← contextOf_eq hctx, resized_contextOf h, ← registered_eq, hnew]
  refine ⟨ctx, hctx, hev, ?_⟩
  have hempty := (hr.ok fd ctx hctx).empty event hev
  have hmask := hr.interest fd
  rw [hctx, Option.bind_some, kernelMask] at hmask
  unfold addEvent
  simp only [hctx, hev, Bool.false_eq_true, if_false, hempty, if_true]
  cases fails with
  | true => rfl
  | false =>
      -- `ADD` for a descriptor the kernel does not have, `MOD` for one it has
      by_cases hnone : ctx.events = .NONE
      · rw [if_pos hnone] at hmask
        simp [epollCtl, hnone, hmask, added, setMask]
      · rw [if_neg hnone] at hmask
        simp [epollCtl, hnone, hmask, added, setMask]

/-- Without its event a call returns `false` at once. -/
theorem delEvent_of_not {s : IOManager} {fd : Nat} {event : Event}
    (h : s.registered fd event = false) (fails : Bool) :
    s.delEvent fd event fails = (s, false) ∧ s.cancelEvent fd event fails = (s, false) := by
  rw [registered_eq, contextOf] at h
  unfold delEvent cancelEvent
  rcases hctx : s.m_fdContexts[fd]? with _ | ctx
  · exact ⟨rfl, rfl⟩
  · rw [hctx, Option.getD_some] at h
    simp [h]

/-- `delEvent` of a registered event: only `epoll_ctl` decides. -/
theorem delEvent_eq {s : IOManager} (h : s.Inv) {fd : Nat} {ctx : FdContext}
    (hctx : s.m_fdContexts[fd]? = some ctx) {event : Event} (hev : ctx.events.has event = true)
    (fails : Bool) :
    s.delEvent fd event fails =
      if fails then (s, false)
      else ({ s.setMask fd (kernelMask (ctx.events.remove event)) with
        m_pendingEventCount := s.m_pendingEventCount - 1
        m_fdContexts := s.m_fdContexts.set fd (ctx.drop event) }, true) := by
  unfold delEvent
  simp only [hctx, hev, if_true, leave_eq h hctx (has_ne_none hev)]
  cases fails <;> rfl

theorem cancelEvent_eq {s : IOManager} (h : s.Inv) {fd : Nat} {ctx : FdContext}
    (hctx : s.m_fdContexts[fd]? = some ctx) {event : Event} (hev : ctx.events.has event = true)
    (fails : Bool) :
    s.cancelEvent fd event fails =
      if fails then (s, false)
      else ((s.setMask fd (kernelMask (ctx.events.remove event))).trigger fd event, true) := by
  unfold cancelEvent
  simp only [hctx, hev, if_true, leave_eq h hctx (has_ne_none hev)]
  cases fails <;> rfl

/-- A `cancelEvent` that `epoll_ctl` does not fail leaves nothing registered. -/
theorem cancelEvent_registered {s : IOManager} (h : s.Inv) {fd : Nat} {event : Event} {fails : Bool}
    (hfails : s.registered fd event = true → fails = false) :
    (s.cancelEvent fd event fails).1.registered fd event = false := by
  rcases hreg : s.registered fd event with _ | _
  · rw [(delEvent_of_not hreg fails).2]
    exact hreg
  · obtain ⟨ctx, hctx, hev⟩ := context_of_registered hreg
    have hlt := (List.getElem?_eq_some_iff.mp hctx).1
    rw [cancelEvent_eq h hctx hev, hfails hreg, if_neg (by decide),
      trigger_of_has (s := s.setMask fd _) h.alive hctx (h.ok fd ctx hctx) hev]
    simp [IOManager.registered, setMask, hlt, FdContext.drop_events]

theorem cancelAll_eq {s : IOManager} (h : s.Inv) {fd : Nat} {ctx : FdContext}
    (hctx : s.m_fdContexts[fd]? = some ctx) {event : Event} (hev : ctx.events.has event = true)
    (fails : Bool) :
    s.cancelAll fd fails =
      if fails then (s, false) else ((s.setMask fd none).triggerAll fd ctx.events, true) := by
  have hleave := leave_eq h hctx (has_ne_none hev) .NONE fails
  rw [leave, if_pos rfl] at hleave
  unfold cancelAll
  simp only [hctx, has_ne_none hev, if_false, hleave]
  cases fails <;> rfl

theorem cancelAll_of_not {s : IOManager} {fd : Nat} (h : ∀ e, s.registered fd e = false)
    (fails : Bool) : s.cancelAll fd fails = (s, false) := by
  unfold cancelAll
  rcases hctx : s.m_fdContexts[fd]? with _ | ctx
  · rfl
  · have hnone : ctx.events = .NONE := Events.eq_none_iff.mpr fun e => by
      rw [← contextOf_eq hctx, ← registered_eq, h e]
    simp [hnone]

/-- **Every call** returns, its result says whether it succeeded, and a call that fails
changes nothing. -/
theorem call_eq {s : IOManager} (h : s.Inv) {a : Action} (ha : Asked s a) :
    ∃ t b, s.call a = some (t, b) ∧ (b = true ↔ Succeeds s a) ∧ (b = false → Unchanged s t) := by
  have hfail : ∀ {P : Prop}, ¬ P → ((false = true ↔ P) ∧ (false = false → Unchanged s s)) :=
    fun hP => ⟨iff_of_false (fun h => by cases h) hP, fun _ => .refl s⟩
  cases a with
  | addEvent fd event scheduler waiter fails =>
      obtain ⟨ctx, -, -, heq⟩ := addEvent_eq h ha scheduler waiter fails
      cases fails with
      | true => exact ⟨_, _, heq, iff_of_false (by decide) (by simp [Succeeds]),
          fun _ => resized_unchanged h fd⟩
      | false => exact ⟨_, _, heq, iff_of_true rfl rfl, fun hb => by cases hb⟩
  | delEvent fd event fails =>
      cases hreg : s.registered fd event with
      | false =>
          -- the descriptor or its event is unknown, and the call returns at once
          refine ⟨_, _, by rw [call, (delEvent_of_not hreg fails).1], hfail ?_⟩
          rintro ⟨htrue, -⟩
          rw [hreg] at htrue
          cases htrue
      | true =>
          obtain ⟨ctx, hctx, hev⟩ := context_of_registered hreg
          have heq := delEvent_eq h hctx hev fails
          cases fails with
          | true => exact ⟨_, _, congrArg some heq, hfail fun hs => by cases hs.2⟩
          | false => exact ⟨_, _, congrArg some heq, iff_of_true rfl ⟨hreg, rfl⟩,
              fun hb => by cases hb⟩
  | cancelEvent fd event fails =>
      cases hreg : s.registered fd event with
      | false =>
          refine ⟨_, _, by rw [call, (delEvent_of_not hreg fails).2], hfail ?_⟩
          rintro ⟨htrue, -⟩
          rw [hreg] at htrue
          cases htrue
      | true =>
          obtain ⟨ctx, hctx, hev⟩ := context_of_registered hreg
          have heq := cancelEvent_eq h hctx hev fails
          cases fails with
          | true => exact ⟨_, _, congrArg some heq, hfail fun hs => by cases hs.2⟩
          | false => exact ⟨_, _, congrArg some heq, iff_of_true rfl ⟨hreg, rfl⟩,
              fun hb => by cases hb⟩
  | cancelAll fd fails =>
      by_cases hreg : ∃ event, s.registered fd event = true
      · obtain ⟨event, hreg⟩ := hreg
        obtain ⟨ctx, hctx, hev⟩ := context_of_registered hreg
        have heq := cancelAll_eq h hctx hev fails
        cases fails with
        | true => exact ⟨_, _, congrArg some heq, hfail fun hs => by cases hs.2⟩
        | false => exact ⟨_, _, congrArg some heq, iff_of_true rfl ⟨⟨event, hreg⟩, rfl⟩,
            fun hb => by cases hb⟩
      · have hnone : ∀ e, s.registered fd e = false := fun e =>
          Bool.eq_false_iff.mpr fun he => hreg ⟨e, he⟩
        -- no event of the descriptor is registered
        exact ⟨_, _, by rw [call, cancelAll_of_not hnone], hfail fun hs => hreg hs.1⟩
  | epollWait w reports => exact ha.elim
  | dispatch w fails => exact ha.elim

/-! ### The ledger keeps the books -/

/-- The task scheduled when `e` of this context is cancelled. -/
def FdContext.tasksAt (ctx : FdContext) (e : Event) : List Task :=
  if ctx.events.has e then [ctx.task e] else []

structure Books (s : IOManager) (L : Ledger) : Prop where
  pending : s.m_pendingEventCount = (s.m_fdContexts.map (·.events.count)).sum
  live : ∀ fd e, (L.live.filter (Registration.at fd e)).map (·.task) = (s.contextOf fd).tasksAt e
  numbered : L.registered.map (·.number) = List.range L.registered.length
  kept : L.registered.Perm (L.live ++ L.deleted ++ L.cancelled)
  scheduled : s.scheduled = L.cancelled.map (·.task)

theorem init_books : Books init .empty where
  pending := by simp [init, FdContext.new, Events.count, Events.NONE, Events.has]
  live := by
    intro fd e
    have hnew : init.contextOf fd = .new := by
      unfold contextOf
      rcases hctx : init.m_fdContexts[fd]? with _ | ctx
      · rfl
      · exact List.eq_of_mem_replicate (List.mem_of_getElem? hctx)
    rw [hnew]
    cases e <;> rfl
  numbered := rfl
  kept := .refl _
  scheduled := rfl

theorem count_insert {ev : Events} {e : Event} (h : ev.has e = false) :
    (ev.insert e).count = ev.count + 1 := by
  obtain ⟨r, w⟩ := ev
  cases e <;> cases r <;> cases w <;> first | rfl | cases h

theorem count_remove {ev : Events} {e : Event} (h : ev.has e = true) :
    (ev.remove e).count = ev.count - 1 := by
  obtain ⟨r, w⟩ := ev
  cases e <;> cases r <;> cases w <;> first | rfl | cases h

/-- The number of registered events after one context has changed. -/
theorem sum_set {ctxs : List FdContext} {fd : Nat} {ctx : FdContext} (hctx : ctxs[fd]? = some ctx)
    (ctx' : FdContext) :
    ((ctxs.set fd ctx').map (·.events.count)).sum =
      (ctxs.map (·.events.count)).sum - ctx.events.count + ctx'.events.count := by
  induction ctxs generalizing fd with
  | nil => cases hctx
  | cons c ctxs ih =>
      cases fd with
      | zero =>
          cases hctx
          simp only [List.set_cons_zero, List.map_cons, List.sum_cons]
          omega
      | succ fd =>
          simp only [List.set_cons_succ, List.map_cons, List.sum_cons, ih hctx]
          omega

theorem contextOf_set {s t : IOManager} {fd : Nat} {ctx : FdContext}
    (hfd : fd < s.m_fdContexts.length) (ht : t.m_fdContexts = s.m_fdContexts.set fd ctx)
    (fd' : Nat) : t.contextOf fd' = if fd' = fd then ctx else s.contextOf fd' := by
  unfold contextOf
  rw [ht, List.getElem?_set]
  by_cases hne : fd' = fd
  · rw [if_pos hne, if_pos hne.symm, if_pos hfd]
    rfl
  · rw [if_neg hne, if_neg (Ne.symm hne)]

/-- The task of a context that `addEvent` has just filled in. -/
theorem add_task (ctx : FdContext) (event : Event) (scheduler : Nat) (waiter : Waiter) :
    (ctx.add event (waiter.context scheduler)).task event = Ledger.taskOf scheduler waiter := by
  unfold FdContext.task FdContext.add
  rw [FdContext.getEventContext_set, if_pos rfl]
  cases waiter <;> rfl

theorem task_congr {ctx ctx' : FdContext} {e : Event}
    (h : ctx'.getEventContext e = ctx.getEventContext e) : ctx'.task e = ctx.task e := by
  unfold FdContext.task
  rw [h]

theorem add_tasksAt {ctx : FdContext} {event : Event} (scheduler : Nat) (waiter : Waiter)
    (e : Event) :
    (ctx.add event (waiter.context scheduler)).tasksAt e =
      if e = event then [Ledger.taskOf scheduler waiter] else ctx.tasksAt e := by
  have hevents : (ctx.add event (waiter.context scheduler)).events = ctx.events.insert event :=
    FdContext.events_set _ _ _
  unfold FdContext.tasksAt
  rw [hevents, Events.has_insert]
  by_cases hee : e = event
  · subst hee
    simp [add_task]
  · have hother : (ctx.add event (waiter.context scheduler)).getEventContext e =
        ctx.getEventContext e := by
      rw [FdContext.add, FdContext.getEventContext_set, if_neg hee]
      cases e <;> rfl
    simp [hee, task_congr hother]

theorem drop_tasksAt (ctx : FdContext) (event e : Event) :
    (ctx.drop event).tasksAt e = if e = event then [] else ctx.tasksAt e := by
  unfold FdContext.tasksAt
  rw [FdContext.drop_events, Events.has_remove]
  by_cases hee : e = event
  · simp [hee]
  · simp [hee, task_congr (ctx.drop_context hee)]

/-- Both conditions on the same registration. -/
theorem at_eq_at {r : Registration} {fd fd' : Nat} {e e' : Event} (h : r.at fd e = true)
    (h' : r.at fd' e' = true) : fd' = fd ∧ e' = e := by
  simp only [Registration.at, Bool.and_eq_true, decide_eq_true_eq] at h h'
  exact ⟨h'.1.symm.trans h.1, h'.2.symm.trans h.2⟩

/-- What stays of the live registrations of `fd'`, `e'` without those of `fd`, `e`. -/
theorem filter_at_rest (live : List Registration) (fd fd' : Nat) (e e' : Event) :
    (live.filter fun r => !r.at fd e).filter (Registration.at fd' e') =
      if fd' = fd ∧ e' = e then [] else live.filter (Registration.at fd' e') := by
  rw [List.filter_filter]
  split_ifs with hsame
  · obtain ⟨rfl, rfl⟩ := hsame
    simp
  · apply List.filter_congr
    intro r _
    cases hat : r.at fd' e' with
    | false => rfl
    | true =>
        cases hat' : r.at fd e with
        | false => rfl
        | true => exact absurd (at_eq_at hat' hat) hsame

theorem Books.congr {s t : IOManager} {L : Ledger} (h : Books s L)
    (hctx : t.m_fdContexts = s.m_fdContexts)
    (hpending : t.m_pendingEventCount = s.m_pendingEventCount)
    (hscheduled : t.scheduled = s.scheduled) : Books t L where
  pending := by rw [hpending, hctx]; exact h.pending
  live := by
    intro fd e
    rw [h.live, contextOf, contextOf, hctx]
  numbered := h.numbered
  kept := h.kept
  scheduled := by rw [hscheduled, h.scheduled]

theorem resized_books {s : IOManager} {L : Ledger} (hinv : s.Inv) (h : Books s L) (fd : Nat) :
    Books (s.resized fd) L where
  pending := by
    have hpending := (resized_unchanged hinv fd).pending
    obtain ⟨k, hk, -⟩ := resized_eq hinv fd
    rw [hpending, h.pending, hk]
    simp [FdContext.new, Events.count, Events.NONE, Events.has]
  live := by
    intro fd' e
    rw [h.live, resized_contextOf hinv]
  numbered := h.numbered
  kept := h.kept
  scheduled := by rw [(resized_unchanged hinv fd).scheduled, h.scheduled]

theorem added_books {s : IOManager} {L : Ledger} (h : Books s L) {fd : Nat} {ctx : FdContext}
    (hctx : s.m_fdContexts[fd]? = some ctx) {event : Event} (hev : ctx.events.has event = false)
    (scheduler : Nat) (waiter : Waiter) :
    Books (s.added fd ctx event (waiter.context scheduler))
      (L.register fd event (Ledger.taskOf scheduler waiter)) where
  pending := by
    show s.m_pendingEventCount + 1 = ((s.m_fdContexts.set fd _).map _).sum
    rw [sum_set hctx, FdContext.add, FdContext.events_set, count_insert hev, h.pending]
    omega
  live := by
    intro fd' e
    have hfd : fd < s.m_fdContexts.length := (List.getElem?_eq_some_iff.mp hctx).1
    rw [contextOf_set (t := s.added fd ctx event _) hfd rfl]
    show ((L.live ++ [_]).filter _).map _ = _
    rw [List.filter_append, List.map_append, h.live]
    -- the new registration is behind the older ones, of which there are none
    by_cases hne : fd' = fd
    · subst hne
      rw [contextOf_eq hctx, if_pos rfl, add_tasksAt]
      by_cases hee : e = event
      · subst hee
        simp [FdContext.tasksAt, hev, Registration.at]
      · simp [hee, Ne.symm hee, Registration.at]
    · simp [hne, Ne.symm hne, Registration.at]
  numbered := by
    show (L.registered ++ [_]).map _ = List.range (L.registered ++ [_]).length
    rw [List.map_append, h.numbered, List.length_append, List.length_singleton,
      List.range_succ]
    rfl
  kept := by
    show (L.registered ++ [_]).Perm (L.live ++ [_] ++ L.deleted ++ L.cancelled)
    rw [List.append_assoc, List.append_assoc, List.singleton_append]
    refine (List.perm_append_singleton _ _).trans ((List.Perm.cons _ ?_).trans
      List.perm_middle.symm)
    rw [← List.append_assoc]
    exact h.kept
  scheduled := h.scheduled

/-- Dropping a registered event counts it off and takes it out of the live ones. -/
theorem drop_books {s t : IOManager} {L L' : Ledger} (h : Books s L) {fd : Nat} {ctx : FdContext}
    (hctx : s.m_fdContexts[fd]? = some ctx) {event : Event} (hev : ctx.events.has event = true)
    (hstore : t.m_fdContexts = s.m_fdContexts.set fd (ctx.drop event))
    (hpending : t.m_pendingEventCount = s.m_pendingEventCount - 1)
    (hregistered : L'.registered = L.registered)
    (hlive : L'.live = L.live.filter fun r => !r.at fd event)
    (hgone : (L'.deleted ++ L'.cancelled).Perm
      (L.live.filter (Registration.at fd event) ++ (L.deleted ++ L.cancelled)))
    (hscheduled : t.scheduled = L'.cancelled.map (·.task)) : Books t L' where
  pending := by
    rw [hpending, hstore, sum_set hctx, FdContext.drop_events, count_remove hev, h.pending]
    omega
  live := by
    intro fd' e
    have hfd : fd < s.m_fdContexts.length := (List.getElem?_eq_some_iff.mp hctx).1
    rw [contextOf_set hfd hstore, hlive, filter_at_rest]
    by_cases hne : fd' = fd
    · subst hne
      rw [if_pos rfl, drop_tasksAt]
      -- the other event of the descriptor keeps its task
      by_cases hee : e = event
      · simp [hee]
      · simp [hee, h.live, contextOf_eq hctx]
    · simp [hne, h.live]
  numbered := by rw [hregistered]; exact h.numbered
  kept := by
    rw [hregistered, hlive, List.append_assoc]
    refine h.kept.trans ?_
    rw [List.append_assoc]
    refine ((List.filter_append_perm (Registration.at fd event) L.live).symm.append_right _).trans
      ?_
    refine (List.perm_append_comm.append_right _).trans ?_
    rw [List.append_assoc]
    exact hgone.symm.append_left _
  scheduled := hscheduled

theorem delete_books {s : IOManager} {L : Ledger} (h : Books s L) {fd : Nat} {ctx : FdContext}
    (hctx : s.m_fdContexts[fd]? = some ctx) {event : Event} (hev : ctx.events.has event = true)
    (mask : Option Events) :
    Books { s.setMask fd mask with
      m_pendingEventCount := s.m_pendingEventCount - 1
      m_fdContexts := s.m_fdContexts.set fd (ctx.drop event) } (L.delete fd event) := by
  refine drop_books h hctx hev rfl rfl rfl rfl ?_ h.scheduled
  show (L.deleted ++ _ ++ L.cancelled).Perm _
  rw [← List.append_assoc]
  exact List.perm_append_comm.append_right _

/-- `if(mask & event) trigger(event)`, where `mask` has the event if it is registered:
cancelling it in the ledger. -/
theorem trigger_books {s : IOManager} {L : Ledger} (h : Books s L) (hinv : s.aborted = false)
    {fd : Nat} {ctx : FdContext} (hctx : s.m_fdContexts[fd]? = some ctx) (hok : ctx.Ok)
    (event : Event) :
    Books (if ctx.events.has event then s.trigger fd event else s) (L.cancel fd event) := by
  have hat : (L.live.filter (Registration.at fd event)).map (·.task) = ctx.tasksAt event := by
    rw [h.live, contextOf_eq hctx]
  cases hev : ctx.events.has event with
  | true =>
      rw [if_pos rfl, trigger_of_has hinv hctx hok hev]
      refine drop_books h hctx hev rfl rfl rfl rfl ?_ ?_
      · show (L.deleted ++ (L.cancelled ++ _)).Perm _
        rw [← List.append_assoc]
        exact List.perm_append_comm
      · show s.scheduled ++ _ = (L.cancelled ++ _).map _
        rw [List.map_append, hat, h.scheduled, FdContext.tasksAt, if_pos hev]
  | false =>
      -- there is no such registration, and the ledger stays as it is
      have hnil : L.live.filter (Registration.at fd event) = [] := by
        rw [FdContext.tasksAt, if_neg (by rw [hev]; decide)] at hat
        exact List.map_eq_nil_iff.mp hat
      have hall : (L.live.filter fun r => !r.at fd event) = L.live := by
        rw [List.filter_eq_self]
        intro r hr
        rw [List.filter_eq_nil_iff] at hnil
        simpa using hnil r hr
      have hsame : L.cancel fd event = L := by
        unfold Ledger.cancel
        rw [hnil, hall, List.append_nil]
      rw [if_neg (by decide), hsame]
      exact h

theorem triggerAll_books {s : IOManager} {L : Ledger} (h : Books s L) (hinv : s.aborted = false)
    {fd : Nat} {ctx : FdContext} (hctx : s.m_fdContexts[fd]? = some ctx) (hok : ctx.Ok) :
    Books (s.triggerAll fd ctx.events) ((L.cancel fd .READ).cancel fd .WRITE) := by
  have hread := trigger_books h hinv hctx hok .READ
  unfold triggerAll
  cases hr : ctx.events.has .READ with
  | false =>
      rw [hr] at hread
      exact trigger_books hread hinv hctx hok .WRITE
  | true =>
      rw [hr, if_pos rfl, trigger_of_has hinv hctx hok hr] at hread
      rw [if_pos rfl, trigger_of_has hinv hctx hok hr]
      have hfd : fd < s.m_fdContexts.length := (List.getElem?_eq_some_iff.mp hctx).1
      rw [← ctx.drop_has_other]
      exact trigger_books hread hinv (by simp [hfd]) (hok.drop .READ) .WRITE

/-- What the calls change, the ledger records. -/
theorem call_books {s t : IOManager} {L : Ledger} (hinv : s.Inv) (h : Books s L) {a : Action}
    (ha : Asked s a) {b : Bool} (hs : s.call a = some (t, b)) : Books t (L.record a b) := by
  -- a call that fails only ever grows the table
  cases a with
  | addEvent fd event scheduler waiter fails =>
      obtain ⟨ctx, hctx, hev, heq⟩ := addEvent_eq hinv ha scheduler waiter fails
      rw [call, heq] at hs
      cases fails with
      | true => cases hs; exact resized_books hinv h fd
      | false =>
          cases hs
          exact added_books (resized_books hinv h fd) hctx hev scheduler waiter
  | delEvent fd event fails =>
      cases hreg : s.registered fd event with
      | false =>
          rw [call, (delEvent_of_not hreg fails).1] at hs
          cases hs
          exact h
      | true =>
          obtain ⟨ctx, hctx, hev⟩ := context_of_registered hreg
          rw [call, delEvent_eq hinv hctx hev] at hs
          cases fails with
          | true => cases hs; exact h
          | false => cases hs; exact delete_books h hctx hev _
  | cancelEvent fd event fails =>
      cases hreg : s.registered fd event with
      | false =>
          rw [call, (delEvent_of_not hreg fails).2] at hs
          cases hs
          exact h
      | true =>
          obtain ⟨ctx, hctx, hev⟩ := context_of_registered hreg
          rw [call, cancelEvent_eq hinv hctx hev] at hs
          cases fails with
          | true => cases hs; exact h
          | false =>
              cases hs
              have hbooks : Books (s.setMask fd (kernelMask (ctx.events.remove event))) L :=
                h.congr rfl rfl rfl
              have := trigger_books hbooks hinv.alive hctx (hinv.ok fd ctx hctx) event
              rwa [if_pos hev] at this
  | cancelAll fd fails =>
      by_cases hreg : ∃ event, s.registered fd event = true
      · obtain ⟨event, hreg⟩ := hreg
        obtain ⟨ctx, hctx, hev⟩ := context_of_registered hreg
        rw [call, cancelAll_eq hinv hctx hev] at hs
        cases fails with
        | true => cases hs; exact h
        | false =>
            cases hs
            have hbooks : Books (s.setMask fd none) L := h.congr rfl rfl rfl
            exact triggerAll_books hbooks hinv.alive hctx (hinv.ok fd ctx hctx)
      · have hnone : ∀ e, s.registered fd e = false := fun e =>
          Bool.eq_false_iff.mpr fun he => hreg ⟨e, he⟩
        rw [call, cancelAll_of_not hnone] at hs
        cases hs
        exact h
  | epollWait w reports => cases hs
  | dispatch w fails => cases hs

/-! ### The counter along every step -/

/-- The counter is the number of registered events. -/
def Counted (s : IOManager) : Prop :=
  s.m_pendingEventCount = (s.m_fdContexts.map (·.events.count)).sum

theorem count_diff {ev mask : Events} (h : ∀ e, mask.has e = true → ev.has e = true) :
    (ev.diff mask).count = ev.count - mask.count := by
  have hread := h .READ
  have hwrite := h .WRITE
  obtain ⟨r, w⟩ := ev
  obtain ⟨r', w'⟩ := mask
  revert hread hwrite
  cases r <;> cases w <;> cases r' <;> cases w' <;> decide

theorem Counted.congr {s t : IOManager} (h : s.Counted) (hctx : t.m_fdContexts = s.m_fdContexts)
    (hpending : t.m_pendingEventCount = s.m_pendingEventCount) : t.Counted := by
  rw [Counted, hpending, hctx]
  exact h

theorem triggerAll_counted {s : IOManager} (h : s.Counted) (halive : s.aborted = false) {fd : Nat}
    {ctx : FdContext} (hctx : s.m_fdContexts[fd]? = some ctx) (hok : ctx.Ok) {mask : Events}
    (hmask : ∀ e, mask.has e = true → ctx.events.has e = true) :
    (s.triggerAll fd mask).Counted := by
  rw [triggerAll_of_has halive hctx hok hmask]
  show s.m_pendingEventCount - mask.count = ((s.m_fdContexts.set fd _).map _).sum
  rw [sum_set hctx, FdContext.dropAll_events, count_diff hmask, h]
  omega

theorem trigger_counted {s : IOManager} (h : s.Counted) (halive : s.aborted = false) {fd : Nat}
    {ctx : FdContext} (hctx : s.m_fdContexts[fd]? = some ctx) (hok : ctx.Ok) {event : Event}
    (hev : ctx.events.has event = true) : (s.trigger fd event).Counted := by
  rw [trigger_of_has halive hctx hok hev]
  show s.m_pendingEventCount - 1 = ((s.m_fdContexts.set fd _).map _).sum
  rw [sum_set hctx, FdContext.drop_events, count_remove hev, h]
  omega

theorem addEvent_counted {s t : IOManager} (hinv : s.Inv) (h : s.Counted) {fd : Nat}
    {event : Event} {scheduler : Nat} {waiter : Waiter} {fails b : Bool}
    (hs : s.addEvent fd event scheduler waiter fails = some (t, b)) : t.Counted := by
  have hresized : (s.resized fd).Counted := by
    obtain ⟨k, hk, -⟩ := resized_eq hinv fd
    rw [hk]
    show s.m_pendingEventCount = _
    rw [h]
    simp [FdContext.new, Events.count, Events.NONE, Events.has]
  cases hreg : s.registered fd event with
  | false =>
      obtain ⟨ctx, hctx, hev, heq⟩ := addEvent_eq hinv hreg scheduler waiter fails
      rw [heq] at hs
      cases fails with
      | true => cases hs; exact hresized
      | false =>
          cases hs
          show (s.resized fd).m_pendingEventCount + 1 =
            (((s.resized fd).m_fdContexts.set fd _).map _).sum
          rw [sum_set hctx, FdContext.add, FdContext.events_set, count_insert hev, hresized]
          omega
  | true =>
      -- the first assertion fails
      rw [registered_eq, ← resized_contextOf hinv fd] at hreg
      obtain ⟨ctx, hctx, hev⟩ := context_of_registered ((registered_eq _ _ _).trans hreg)
      unfold addEvent at hs
      simp only [hctx, hev, if_true] at hs
      cases hs

/-- A turn of the dispatch loop counts off what it triggers, if no assertion fails. -/
theorem dispatch_counted {s t : IOManager} (hinv : s.Inv) (h : s.Counted) {fd : Nat} {event : Mask}
    {fails : Bool} (ht : s.dispatch fd event fails = some t) (halive : t.aborted = false) :
    t.Counted := by
  rcases hctx : s.m_fdContexts[fd]? with _ | ctx
  · unfold dispatch at ht
    rw [hctx] at ht
    cases ht
  · by_cases hsome : hits ctx event = .NONE
    · obtain rfl := Option.some.inj ((dispatch_none fails hinv.alive hctx hsome).1.symm.trans ht)
      exact h
    · cases fails with
      | true =>
          obtain rfl := Option.some.inj ((dispatch_fails hctx hsome).1.symm.trans ht)
          exact h
      | false =>
          by_cases hall : hits ctx event = realEvents event ctx.events
          · obtain rfl := Option.some.inj ((dispatch_some hinv hctx hsome).symm.trans ht)
            refine triggerAll_counted (s := s.setMask fd _) (h.congr rfl rfl) hinv.alive hctx
              (hinv.ok fd ctx hctx) fun e he => ?_
            rw [← hall, hits, Events.has_inter, Bool.and_eq_true] at he
            exact he.1
          · obtain ⟨u, hu, haborted⟩ := dispatch_aborts hinv hctx hsome hall
            obtain rfl := Option.some.inj (hu.symm.trans ht)
            cases halive.symm.trans haborted

/-- **The counter** is the number of registered events after every step that fails no
assertion, the dispatch of stale masks included. -/
theorem step_counted {s t : IOManager} {a : Action} (hinv : s.Inv) (h : s.Counted)
    (hs : s.step a = some t) (halive : t.aborted = false) : t.Counted := by
  unfold step at hs
  rw [if_neg (by rw [hinv.alive]; decide)] at hs
  cases a with
  | addEvent fd event scheduler waiter fails =>
      obtain ⟨⟨u, b⟩, hadd, rfl⟩ := Option.map_eq_some_iff.mp hs
      exact addEvent_counted hinv h hadd
  | delEvent fd event fails =>
      cases hs
      rcases hreg : s.registered fd event with _ | _
      · rwa [(delEvent_of_not hreg fails).1]
      · obtain ⟨ctx, hctx, hev⟩ := context_of_registered hreg
        rw [delEvent_eq hinv hctx hev]
        cases fails with
        | true => exact h
        | false =>
            show s.m_pendingEventCount - 1 = ((s.m_fdContexts.set fd _).map _).sum
            rw [sum_set hctx, FdContext.drop_events, count_remove hev, h]
            omega
  | cancelEvent fd event fails =>
      cases hs
      rcases hreg : s.registered fd event with _ | _
      · rwa [(delEvent_of_not hreg fails).2]
      · obtain ⟨ctx, hctx, hev⟩ := context_of_registered hreg
        rw [cancelEvent_eq hinv hctx hev]
        cases fails with
        | true => exact h
        | false =>
            exact trigger_counted (s := s.setMask fd _) (h.congr rfl rfl) hinv.alive hctx
              (hinv.ok fd ctx hctx) hev
  | cancelAll fd fails =>
      cases hs
      by_cases hreg : ∃ event, s.registered fd event = true
      · obtain ⟨event, hreg⟩ := hreg
        obtain ⟨ctx, hctx, hev⟩ := context_of_registered hreg
        rw [cancelAll_eq hinv hctx hev]
        cases fails with
        | true => exact h
        | false =>
            exact triggerAll_counted (s := s.setMask fd none) (h.congr rfl rfl) hinv.alive hctx
              (hinv.ok fd ctx hctx) fun _ he => he
      · rwa [cancelAll_of_not fun e => Bool.eq_false_iff.mpr fun he => hreg ⟨e, he⟩]
  | epollWait w reports =>
      simp only at hs
      split_ifs at hs
      cases hs
      exact h.congr rfl rfl
  | dispatch w fails =>
      rcases hw : s.ready w with _ | ⟨⟨fd, event⟩, rest⟩
      · simp only [hw] at hs
        cases hs
      · simp only [hw] at hs
        exact dispatch_counted (hinv.pop hw) (h.congr rfl rfl) hs halive

theorem count_nonneg (ev : Events) : 0 ≤ ev.count := by
  unfold Events.count
  omega

theorem count_eq_zero {ev : Events} (h : ev.count = 0) : ev = .NONE := by
  obtain ⟨r, w⟩ := ev
  revert h
  cases r <;> cases w <;> decide

theorem events_of_sum_zero {ctxs : List FdContext} (h : (ctxs.map (·.events.count)).sum = 0) :
    ∀ ctx ∈ ctxs, ctx.events = .NONE := by
  intro ctx hctx
  have hnonneg : ∀ n ∈ ctxs.map (·.events.count), 0 ≤ n := by
    intro n hn
    obtain ⟨c, -, rfl⟩ := List.mem_map.mp hn
    exact count_nonneg c.events
  exact count_eq_zero
    (List.all_zero_of_le_zero_le_of_sum_eq_zero hnonneg h (List.mem_map_of_mem hctx))

/-- Without a registered event only `addEvent` makes one. -/
theorem step_pending_zero {s t : IOManager} {a : Action} (hinv : s.Inv) (h : s.Counted)
    (hzero : s.m_pendingEventCount = 0) (ha : a.waiter = none) (hs : s.step a = some t) :
    t.m_pendingEventCount = 0 := by
  have hnone : ∀ (fd : Nat) (ctx : FdContext), s.m_fdContexts[fd]? = some ctx →
      ctx.events = .NONE := fun fd ctx hctx =>
    events_of_sum_zero (h.symm.trans hzero) ctx (List.mem_of_getElem? hctx)
  have hreg : ∀ fd e, s.registered fd e = false := by
    intro fd e
    rcases hreg : s.registered fd e with _ | _
    · rfl
    · obtain ⟨ctx, hctx, hev⟩ := context_of_registered hreg
      rw [hnone fd ctx hctx] at hev
      cases e <;> cases hev
  unfold step at hs
  rw [if_neg (by rw [hinv.alive]; decide)] at hs
  cases a with
  | addEvent fd event scheduler waiter fails => cases ha
  | delEvent fd event fails =>
      cases hs
      rwa [(delEvent_of_not (hreg fd event) fails).1]
  | cancelEvent fd event fails =>
      cases hs
      rwa [(delEvent_of_not (hreg fd event) fails).2]
  | cancelAll fd fails =>
      cases hs
      rwa [cancelAll_of_not (hreg fd)]
  | epollWait w reports =>
      simp only at hs
      split_ifs at hs
      cases hs
      exact hzero
  | dispatch w fails =>
      rcases hw : s.ready w with _ | ⟨⟨fd, event⟩, rest⟩
      · simp only [hw] at hs
        cases hs
      · simp only [hw] at hs
        obtain ⟨ctx, hctx⟩ := hinv.ready_context hw
        have hits_none : hits ctx event = .NONE := by
          refine Events.eq_none_iff.mpr fun e => ?_
          rw [hits, Events.has_inter, hnone fd ctx hctx]
          cases e <;> rfl
        obtain rfl := Option.some.inj
          ((dispatch_none fails (hinv.pop hw).alive hctx hits_none).1.symm.trans hs)
        exact hzero

/-! ### Runs -/

/-- A call is a step. -/
theorem step_of_call {s t : IOManager} (h : s.Inv) {a : Action} {b : Bool}
    (hs : s.call a = some (t, b)) : s.step a = some t ∧ Fine s a := by
  unfold step
  rw [if_neg (by rw [h.alive]; decide)]
  cases a with
  | addEvent fd event scheduler waiter fails =>
      have hadd : s.addEvent fd event scheduler waiter fails = some (t, b) := hs
      exact ⟨by simp [hadd], trivial⟩
  | delEvent fd event fails =>
      have hdel : s.delEvent fd event fails = (t, b) := Option.some.inj hs
      exact ⟨by simp [hdel], trivial⟩
  | cancelEvent fd event fails =>
      have hcancel : s.cancelEvent fd event fails = (t, b) := Option.some.inj hs
      exact ⟨by simp [hcancel], trivial⟩
  | cancelAll fd fails =>
      have hcancel : s.cancelAll fd fails = (t, b) := Option.some.inj hs
      exact ⟨by simp [hcancel], trivial⟩
  | epollWait w reports => cases hs
  | dispatch w fails => cases hs

theorem recorded_inv {x y : IOManager × Ledger} {a : Action} (hinv : x.1.Inv) (h : Books x.1 x.2)
    (ha : Asked x.1 a) (hs : recorded x a = some y) : y.1.Inv ∧ Books y.1 y.2 := by
  obtain ⟨⟨t, b⟩, hcall, rfl⟩ := Option.map_eq_some_iff.mp hs
  obtain ⟨hstep, hfine⟩ := step_of_call hinv hcall
  exact ⟨step_inv hinv hfine hstep, call_books hinv h ha hcall⟩

/-- **The registrations**: over every sequence of `addEvent` (of an event not yet
registered), `delEvent`, `cancelEvent` and `cancelAll`, whatever `epoll_ctl` answers,
the counter is the number of registered events, a context is filled exactly when its
event is registered, and the kernel has the mask of each descriptor; each call returns,
with success exactly when it finds its event and `epoll_ctl` does not fail, and
otherwise changes nothing; and every registration is live (once for each event
registered), deleted or cancelled, and only one of these, the tasks scheduled being
those of the cancelled ones. -/
theorem registrations {x : IOManager × Ledger}
    (h : Lts.Reach recorded (fun x a => Asked x.1 a) (init, .empty) x) :
    (x.1.m_pendingEventCount = (x.1.m_fdContexts.map (·.events.count)).sum ∧
      (∀ fd e, if x.1.registered fd e then ((x.1.contextOf fd).getEventContext e).Filled
        else (x.1.contextOf fd).getEventContext e = .null) ∧
      ∀ fd, x.1.interest fd = kernelMask (x.1.contextOf fd).events) ∧
    (∀ a, Asked x.1 a → ∃ t b, x.1.call a = some (t, b) ∧ (b = true ↔ Succeeds x.1 a) ∧
      (b = false → Unchanged x.1 t)) ∧
    (x.2.registered.map (·.number) = List.range x.2.registered.length ∧
      x.2.registered.Perm (x.2.live ++ x.2.deleted ++ x.2.cancelled) ∧
      (∀ fd e, (x.2.live.filter (Registration.at fd e)).length = (x.1.registered fd e).toNat) ∧
      x.1.scheduled = x.2.cancelled.map (·.task)) := by
  have hboth : x.1.Inv ∧ Books x.1 x.2 :=
    h.invariant (I := fun x => x.1.Inv ∧ Books x.1 x.2) ⟨init_inv, init_books⟩
      fun _ _ _ hI ha hs => recorded_inv hI.1 hI.2 ha hs
  obtain ⟨hinv, hbooks⟩ := hboth
  -- a descriptor beyond the table stands for a new context
  have hok : ∀ fd, (x.1.contextOf fd).Ok := by
    intro fd
    rcases hctx : x.1.m_fdContexts[fd]? with _ | ctx
    · rw [contextOf, hctx]
      exact FdContext.new_ok
    · rw [contextOf_eq hctx]
      exact hinv.ok fd ctx hctx
  refine ⟨⟨hbooks.pending, fun fd e => ?_, fun fd => ?_⟩, fun a ha => call_eq hinv ha,
    hbooks.numbered, hbooks.kept, fun fd e => ?_, hbooks.scheduled⟩
  · rw [registered_eq]
    split_ifs with hev
    · exact (hok fd).filled e hev
    · exact (hok fd).empty e (Bool.eq_false_iff.mpr hev)
  · rw [hinv.interest fd, contextOf]
    cases x.1.m_fdContexts[fd]? with
    | none => rfl
    | some ctx => rfl
  · rw [← List.length_map (·.task), hbooks.live, registered_eq, FdContext.tasksAt]
    split_ifs with hev
    · rw [hev]; rfl
    · rw [Bool.eq_false_iff.mpr hev]; rfl

/-- Both events of descriptor 5 registered, the write event deleted after a first
attempt has failed, the read event cancelled. -/
theorem registrations_both :
    ∃ x : IOManager × Ledger, x.1.scheduled = [.fiber 0 (some 1)] ∧
      x.2.deleted.map (·.number) = [1] ∧
      x.1.m_pendingEventCount = (x.1.m_fdContexts.map (·.events.count)).sum ∧
      x.1.scheduled = x.2.cancelled.map (·.task) := by
  have hstart : Lts.Reach recorded (fun x a => Asked x.1 a) (init, .empty) (init, .empty) := .init
  have hread := hstart.step (Action.addEvent 5 .READ 0 (.fiber 1) false) rfl rfl
  have hwrite := hread.step (Action.addEvent 5 .WRITE 0 (.cb 2) false) rfl rfl
  have hfailed := hwrite.step (Action.delEvent 5 .WRITE true) trivial rfl
  have hdeleted := hfailed.step (Action.delEvent 5 .WRITE false) trivial rfl
  have hcancelled := hdeleted.step (Action.cancelEvent 5 .READ false) trivial rfl
  have hall := registrations hcancelled
  exact ⟨_, rfl, rfl, hall.1.1, hall.2.2.2.2.2⟩

end IOManager

end Will
