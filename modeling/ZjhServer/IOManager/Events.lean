/-
ZjhServer/IOManager/Events.lean

The event registrations of `IOManager` (server/iomanager.{h,cc}) and the kernel's
interest list behind them.

Each of `addEvent`, `delEvent`, `cancelEvent`, `cancelAll` and one turn of the
dispatch loop of `idle` is one step: the region under the mutex of the
`FdContext`.  An idle worker holds the readiness masks its `epoll_wait` gave it,
taken before any of those locks.  `epoll_ctl` fails when the kernel's list says so
(`EEXIST`, `ENOENT`), or when the environment says so (`fails`).

A failed assertion ends the process: inside `triggerEvent` it is recorded
(`aborted`), and nothing happens after it.
-/
import ZjhServer.Lib.Lts
import Mathlib.Logic.Function.Basic

namespace Will

namespace IOManager

/-! ### Events -/

/-- `IOManager::Event`, its two bits. -/
inductive Event
  | READ
  | WRITE
  deriving DecidableEq, Repr

/-- An `Event` mask; all false is `NONE`. -/
structure Events where
  READ : Bool
  WRITE : Bool
  deriving DecidableEq, Repr

namespace Events

def NONE : Events := ⟨false, false⟩

def has (ev : Events) : Event → Bool
  | .READ => ev.READ
  | .WRITE => ev.WRITE

/-- `events | event` -/
def insert (ev : Events) : Event → Events
  | .READ => { ev with READ := true }
  | .WRITE => { ev with WRITE := true }

/-- `events & ~event` -/
def remove (ev : Events) : Event → Events
  | .READ => { ev with READ := false }
  | .WRITE => { ev with WRITE := false }

/-- `events & other` -/
def inter (ev other : Events) : Events := ⟨ev.READ && other.READ, ev.WRITE && other.WRITE⟩

/-- `events & ~other` -/
def diff (ev other : Events) : Events := ⟨ev.READ && !other.READ, ev.WRITE && !other.WRITE⟩

/-- How many events the mask names. -/
def count (ev : Events) : Int := (ev.has .READ).toNat + (ev.has .WRITE).toNat

@[simp] theorem has_insert (ev : Events) (e e' : Event) :
    (ev.insert e).has e' = (decide (e' = e) || ev.has e') := by
  cases e <;> cases e' <;> simp [insert, has]

@[simp] theorem has_remove (ev : Events) (e e' : Event) :
    (ev.remove e).has e' = (!decide (e' = e) && ev.has e') := by
  cases e <;> cases e' <;> simp [remove, has]

@[simp] theorem has_inter (ev other : Events) (e : Event) :
    (ev.inter other).has e = (ev.has e && other.has e) := by cases e <;> rfl

@[simp] theorem has_diff (ev other : Events) (e : Event) :
    (ev.diff other).has e = (ev.has e && !other.has e) := by cases e <;> rfl

theorem ext_has {a b : Events} (h : ∀ e, a.has e = b.has e) : a = b := by
  obtain ⟨r, w⟩ := a
  obtain ⟨r', w'⟩ := b
  rw [mk.injEq]
  exact ⟨h .READ, h .WRITE⟩

theorem eq_none_iff {ev : Events} : ev = NONE ↔ ∀ e, ev.has e = false :=
  ⟨fun h e => by rw [h]; cases e <;> rfl, fun h => ext_has fun e => by rw [h e]; cases e <;> rfl⟩

end Events

/-- The bits of an `epoll_event` mask that `idle` looks at. -/
structure Mask where
  EPOLLIN : Bool
  EPOLLOUT : Bool
  EPOLLERR : Bool
  EPOLLHUP : Bool
  deriving DecidableEq, Repr

/-- `real_events`: after `EPOLLERR` or `EPOLLHUP` the registered events count as
reported. -/
def realEvents (event : Mask) (events : Events) : Events :=
  if event.EPOLLERR || event.EPOLLHUP then
    ⟨event.EPOLLIN || events.READ, event.EPOLLOUT || events.WRITE⟩
  else ⟨event.EPOLLIN, event.EPOLLOUT⟩

/-! ### The context of a descriptor -/

/-- `FdContext::EventContext`; schedulers, fibers and callbacks by name. -/
structure EventContext where
  scheduler : Option Nat
  fiber : Option Nat
  cb : Option Nat
  deriving DecidableEq, Repr

/-- After `resetEventContext`. -/
def EventContext.null : EventContext := ⟨none, none, none⟩

/-- What a caller of `addEvent` waits with: a callback, or the current fiber. -/
inductive Waiter
  | cb (name : Nat)
  | fiber (name : Nat)
  deriving DecidableEq, Repr

/-- The context `addEvent` fills in for its caller. -/
def Waiter.context (scheduler : Nat) : Waiter → EventContext
  | .cb name => ⟨some scheduler, none, some name⟩
  | .fiber name => ⟨some scheduler, some name, none⟩

/-- `ctx.scheduler->schedule(ctx.cb)` or `schedule(ctx.fiber)`; the fiber may be
null. -/
inductive Task
  | cb (scheduler name : Nat)
  | fiber (scheduler : Nat) (name : Option Nat)
  deriving DecidableEq, Repr

structure FdContext where
  read : EventContext
  write : EventContext
  events : Events
  deriving DecidableEq, Repr

namespace FdContext

/-- `new FdContext` -/
def new : FdContext := ⟨.null, .null, .NONE⟩

def getEventContext (ctx : FdContext) : Event → EventContext
  | .READ => ctx.read
  | .WRITE => ctx.write

def setEventContext (ctx : FdContext) (event : Event) (c : EventContext) : FdContext :=
  match event with
  | .READ => { ctx with read := c }
  | .WRITE => { ctx with write := c }

@[simp] theorem getEventContext_set (ctx : FdContext) (e e' : Event) (c : EventContext) :
    (ctx.setEventContext e c).getEventContext e' =
      if e' = e then c else ctx.getEventContext e' := by
  cases e <;> cases e' <;> rfl

@[simp] theorem events_set (ctx : FdContext) (e : Event) (c : EventContext) :
    (ctx.setEventContext e c).events = ctx.events := by cases e <;> rfl

/-- The event registered, its context filled in. -/
def add (ctx : FdContext) (event : Event) (c : EventContext) : FdContext :=
  { ctx with events := ctx.events.insert event }.setEventContext event c

/-- The event no longer registered, its context reset. -/
def drop (ctx : FdContext) (event : Event) : FdContext :=
  { ctx with events := ctx.events.remove event }.setEventContext event .null

/-- `triggerEvent`: no result if its assertion fails, or the scheduler is null. -/
def triggerEvent (ctx : FdContext) (event : Event) : Option (FdContext × Task) :=
  if ctx.events.has event then
    let c := ctx.getEventContext event
    c.scheduler.map fun scheduler =>
      (ctx.drop event,
        match c.cb with
        | some cb => .cb scheduler cb
        | none => .fiber scheduler c.fiber)
  else none

end FdContext

end IOManager

/-! ### The manager -/

open IOManager in
/-- The members the event functions use, the kernel's interest list, and what the
steps of `idle` and of the scheduler need to remember. -/
structure IOManager where
  m_fdContexts : List FdContext
  m_pendingEventCount : Int
  /-- the interest list of the kernel: the mask of each registered descriptor -/
  interest : Nat → Option Events
  /-- the tasks scheduled by `triggerEvent`, oldest first -/
  scheduled : List Task
  /-- what is left of the `events` array of each idle worker -/
  ready : Nat → List (Nat × Mask)
  aborted : Bool

namespace IOManager

/-- `contextResize(32)` -/
def init : IOManager where
  m_fdContexts := List.replicate 32 .new
  m_pendingEventCount := 0
  interest := fun _ => none
  scheduled := []
  ready := fun _ => []
  aborted := false

inductive CtlOp
  | EPOLL_CTL_ADD
  | EPOLL_CTL_MOD
  | EPOLL_CTL_DEL
  deriving DecidableEq, Repr

/-- The kernel's mask of one descriptor changed. -/
def setMask (s : IOManager) (fd : Nat) (mask : Option Events) : IOManager :=
  { s with interest := Function.update s.interest fd mask }

/-- `epoll_ctl`; no result for a failure. -/
def epollCtl (s : IOManager) (op : CtlOp) (fd : Nat) (events : Events) (fails : Bool) :
    Option IOManager :=
  if fails then none
  else
    match op, s.interest fd with
    | .EPOLL_CTL_ADD, none => some (s.setMask fd (some events))
    | .EPOLL_CTL_MOD, some _ => some (s.setMask fd (some events))
    | .EPOLL_CTL_DEL, some _ => some (s.setMask fd none)
    | _, _ => none

/-- `contextResize(size)`: new contexts behind the old ones. -/
def contextResize (s : IOManager) (size : Nat) : IOManager :=
  { s with
    m_fdContexts := s.m_fdContexts.take size ++
      List.replicate (size - s.m_fdContexts.length) .new }

/-- The table `addEvent` finds the context of `fd` in. -/
def resized (s : IOManager) (fd : Nat) : IOManager :=
  if s.m_fdContexts.length > fd then s else s.contextResize (fd * 3 / 2)

/-- `addEvent`, called by a thread of `scheduler`; no result when one of its
assertions aborts the process, `false` when it returns -1. -/
def addEvent (s : IOManager) (fd : Nat) (event : Event) (scheduler : Nat) (waiter : Waiter)
    (fails : Bool) : Option (IOManager × Bool) :=
  let s := s.resized fd
  match s.m_fdContexts[fd]? with
  | none => none
  | some ctx =>
      if ctx.events.has event then none
      else
        let op : CtlOp := if ctx.events = .NONE then .EPOLL_CTL_ADD else .EPOLL_CTL_MOD
        match s.epollCtl op fd (ctx.events.insert event) fails with
        | none => some (s, false)
        | some s =>
            if ctx.getEventContext event = .null then
              some ({ s with
                m_pendingEventCount := s.m_pendingEventCount + 1
                m_fdContexts :=
                  s.m_fdContexts.set fd (ctx.add event (waiter.context scheduler)) }, true)
            else none

/-- The `epoll_ctl` with which `delEvent`, `cancelEvent` and `idle` leave `events`. -/
def leave (s : IOManager) (fd : Nat) (events : Events) (fails : Bool) : Option IOManager :=
  s.epollCtl (if events = .NONE then .EPOLL_CTL_DEL else .EPOLL_CTL_MOD) fd events fails

def delEvent (s : IOManager) (fd : Nat) (event : Event) (fails : Bool) : IOManager × Bool :=
  match s.m_fdContexts[fd]? with
  | none => (s, false)
  | some ctx =>
      if ctx.events.has event then
        match s.leave fd (ctx.events.remove event) fails with
        | none => (s, false)
        | some s =>
            ({ s with
              m_pendingEventCount := s.m_pendingEventCount - 1
              m_fdContexts := s.m_fdContexts.set fd (ctx.drop event) }, true)
      else (s, false)

/-- `fd_ctx->triggerEvent(event); --m_pendingEventCount;`, unless the process is
gone. -/
def trigger (s : IOManager) (fd : Nat) (event : Event) : IOManager :=
  if s.aborted then s
  else
    match s.m_fdContexts[fd]?.bind (·.triggerEvent event) with
    | none => { s with aborted := true }
    | some (ctx, task) =>
        { s with
          m_fdContexts := s.m_fdContexts.set fd ctx
          scheduled := s.scheduled ++ [task]
          m_pendingEventCount := s.m_pendingEventCount - 1 }

def cancelEvent (s : IOManager) (fd : Nat) (event : Event) (fails : Bool) : IOManager × Bool :=
  match s.m_fdContexts[fd]? with
  | none => (s, false)
  | some ctx =>
      if ctx.events.has event then
        match s.leave fd (ctx.events.remove event) fails with
        | none => (s, false)
        | some s => (s.trigger fd event, true)
      else (s, false)

/-- `if(mask & READ) …; if(mask & WRITE) …;` -/
def triggerAll (s : IOManager) (fd : Nat) (mask : Events) : IOManager :=
  let s := if mask.has .READ then s.trigger fd .READ else s
  if mask.has .WRITE then s.trigger fd .WRITE else s

def cancelAll (s : IOManager) (fd : Nat) (fails : Bool) : IOManager × Bool :=
  match s.m_fdContexts[fd]? with
  | none => (s, false)
  | some ctx =>
      if ctx.events = .NONE then (s, false)
      else
        match s.epollCtl .EPOLL_CTL_DEL fd .NONE fails with
        | none => (s, false)
        | some s => (s.triggerAll fd ctx.events, true)

/-- What `epoll_wait` may report: a descriptor of the interest list, with events
asked for, or an error or hang-up, which are always reported. -/
def reportable (s : IOManager) (r : Nat × Mask) : Bool :=
  match s.interest r.1 with
  | none => false
  | some events => (!r.2.EPOLLIN || events.READ) && (!r.2.EPOLLOUT || events.WRITE)

/-- One turn of the dispatch loop of `idle`, for a ready descriptor with the
reported mask. -/
def dispatch (s : IOManager) (fd : Nat) (event : Mask) (fails : Bool) : Option IOManager :=
  match s.m_fdContexts[fd]? with
  | none => none
  | some ctx =>
      let real_events := realEvents event ctx.events
      if ctx.events.inter real_events = .NONE then some s
      else
        match s.leave fd (ctx.events.diff real_events) fails with
        | none => some s
        | some s => some (s.triggerAll fd real_events)

/-! ### Steps -/

/-- A step of some thread: of a caller, or of idle worker `w`. -/
inductive Action
  | addEvent (fd : Nat) (event : Event) (scheduler : Nat) (waiter : Waiter) (fails : Bool)
  | delEvent (fd : Nat) (event : Event) (fails : Bool)
  | cancelEvent (fd : Nat) (event : Event) (fails : Bool)
  | cancelAll (fd : Nat) (fails : Bool)
  | epollWait (w : Nat) (reports : List (Nat × Mask))
  | dispatch (w : Nat) (fails : Bool)
  deriving DecidableEq, Repr

def step (s : IOManager) (a : Action) : Option IOManager :=
  if s.aborted then none
  else
    match a with
    | .addEvent fd event scheduler waiter fails =>
        (s.addEvent fd event scheduler waiter fails).map Prod.fst
    | .delEvent fd event fails => some (s.delEvent fd event fails).1
    | .cancelEvent fd event fails => some (s.cancelEvent fd event fails).1
    | .cancelAll fd fails => some (s.cancelAll fd fails).1
    | .epollWait w reports =>
        if s.ready w = [] && reports.all s.reportable then
          some { s with ready := Function.update s.ready w reports }
        else none
    | .dispatch w fails =>
        match s.ready w with
        | [] => none
        | (fd, event) :: rest =>
            { s with ready := Function.update s.ready w rest }.dispatch fd event fails

/-! ### The invariant -/

/-- A context that can be triggered: a scheduler, and a callback or a fiber. -/
structure EventContext.Filled (c : EventContext) : Prop where
  scheduler : c.scheduler.isSome
  waiter : c.cb.isSome ∨ c.fiber.isSome

/-- The contexts of the registered events are filled, the others empty. -/
structure FdContext.Ok (ctx : FdContext) : Prop where
  filled : ∀ e, ctx.events.has e = true → (ctx.getEventContext e).Filled
  empty : ∀ e, ctx.events.has e = false → ctx.getEventContext e = .null

/-- What the kernel has for a descriptor with these events. -/
def kernelMask (events : Events) : Option Events := if events = .NONE then none else some events

structure Inv (s : IOManager) : Prop where
  ok : ∀ (fd : Nat) (ctx : FdContext), s.m_fdContexts[fd]? = some ctx → ctx.Ok
  interest : ∀ fd, s.interest fd = (s.m_fdContexts[fd]?).bind fun ctx => kernelMask ctx.events
  ready : ∀ w, ∀ r ∈ s.ready w, r.1 < s.m_fdContexts.length
  size : 32 ≤ s.m_fdContexts.length
  alive : s.aborted = false

theorem FdContext.new_ok : FdContext.new.Ok where
  filled := by intro e he; cases e <;> cases he
  empty := by intro e _; cases e <;> rfl

theorem FdContext.Ok.drop {ctx : FdContext} (h : ctx.Ok) (event : Event) :
    (ctx.drop event).Ok where
  filled := by
    intro e he
    simp only [FdContext.drop, FdContext.events_set, Events.has_remove, Bool.and_eq_true,
      Bool.not_eq_true', decide_eq_false_iff_not] at he
    rw [FdContext.drop, FdContext.getEventContext_set, if_neg he.1]
    exact h.filled e he.2
  empty := by
    intro e he
    rw [FdContext.drop, FdContext.getEventContext_set]
    split_ifs with hee
    · rfl
    · simp only [FdContext.drop, FdContext.events_set, Events.has_remove, hee, decide_false,
        Bool.not_false, Bool.true_and] at he
      exact h.empty e he

theorem init_inv : init.Inv where
  ok := by
    intro fd ctx h
    rw [List.eq_of_mem_replicate (List.mem_of_getElem? h)]
    exact FdContext.new_ok
  interest := by
    intro fd
    rcases h : init.m_fdContexts[fd]? with _ | ctx
    · rfl
    · have hctx : ctx = FdContext.new := List.eq_of_mem_replicate (List.mem_of_getElem? h)
      rw [hctx]
      rfl
  ready := by intro w r hr; cases hr
  size := by simp [init]
  alive := rfl

/-! ### What the pieces of a step do -/

/-- Changing one context, and the kernel's mask with it. -/
theorem Inv.store {s t : IOManager} (h : s.Inv) {fd : Nat} {ctx : FdContext} (hok : ctx.Ok)
    (hfd : fd < s.m_fdContexts.length) (hctx : t.m_fdContexts = s.m_fdContexts.set fd ctx)
    (hint : t.interest = Function.update s.interest fd (kernelMask ctx.events))
    (hready : t.ready = s.ready) (halive : t.aborted = false) : t.Inv where
  ok := by
    intro fd' ctx' h'
    rw [hctx, List.getElem?_set] at h'
    split_ifs at h'
    · cases h'; exact hok
    · exact h.ok fd' ctx' h'
  interest := by
    intro fd'
    rw [hint, hctx, List.getElem?_set]
    by_cases hne : fd' = fd
    · subst hne
      rw [Function.update_self, if_pos rfl, if_pos hfd]
      rfl
    · rw [Function.update_of_ne hne, if_neg (Ne.symm hne)]
      exact h.interest fd'
  ready := by
    intro w r hr
    rw [hctx, List.length_set]
    exact h.ready w r (hready ▸ hr)
  size := by rw [hctx, List.length_set]; exact h.size
  alive := halive

/-- Leaving fewer events registered succeeds unless the environment fails it. -/
theorem leave_eq {s : IOManager} (h : s.Inv) {fd : Nat} {ctx : FdContext}
    (hctx : s.m_fdContexts[fd]? = some ctx) (hev : ctx.events ≠ .NONE) (events : Events)
    (fails : Bool) :
    s.leave fd events fails =
      if fails then none else some (s.setMask fd (kernelMask events)) := by
  have hmask : s.interest fd = some ctx.events := by
    rw [h.interest fd, hctx, Option.bind_some, kernelMask, if_neg hev]
  unfold leave epollCtl
  rw [hmask, kernelMask]
  by_cases hnone : events = .NONE
  · simp only [if_pos hnone]
  · simp only [if_neg hnone]

theorem has_ne_none {ev : Events} {e : Event} (h : ev.has e = true) : ev ≠ .NONE := by
  rintro rfl
  rw [Events.eq_none_iff.mp rfl e] at h
  cases h

/-- The task of a registered event. -/
def FdContext.task (ctx : FdContext) (event : Event) : Task :=
  let c := ctx.getEventContext event
  match c.cb with
  | some cb => .cb (c.scheduler.getD 0) cb
  | none => .fiber (c.scheduler.getD 0) c.fiber

theorem FdContext.triggerEvent_of_has {ctx : FdContext} (hok : ctx.Ok) {event : Event}
    (h : ctx.events.has event = true) :
    ctx.triggerEvent event = some (ctx.drop event, ctx.task event) := by
  obtain ⟨scheduler, hs⟩ := Option.isSome_iff_exists.mp (hok.filled event h).scheduler
  unfold FdContext.triggerEvent FdContext.task
  rw [if_pos h]
  simp only [hs, Option.map_some, Option.getD_some]

theorem FdContext.triggerEvent_of_not_has {ctx : FdContext} {event : Event}
    (h : ctx.events.has event = false) : ctx.triggerEvent event = none := by
  unfold FdContext.triggerEvent
  rw [if_neg (by rw [h]; decide)]

theorem trigger_of_has {s : IOManager} (halive : s.aborted = false) {fd : Nat} {ctx : FdContext}
    (hctx : s.m_fdContexts[fd]? = some ctx) (hok : ctx.Ok) {event : Event}
    (h : ctx.events.has event = true) :
    s.trigger fd event =
      { s with
        m_fdContexts := s.m_fdContexts.set fd (ctx.drop event)
        scheduled := s.scheduled ++ [ctx.task event]
        m_pendingEventCount := s.m_pendingEventCount - 1 } := by
  unfold trigger
  rw [if_neg (by rw [halive]; decide), hctx, Option.bind_some, ctx.triggerEvent_of_has hok h]

/-- The assertion of `triggerEvent`. -/
theorem trigger_of_not_has {s : IOManager} (halive : s.aborted = false) {fd : Nat}
    {ctx : FdContext} (hctx : s.m_fdContexts[fd]? = some ctx) {event : Event}
    (h : ctx.events.has event = false) : s.trigger fd event = { s with aborted := true } := by
  unfold trigger
  rw [if_neg (by rw [halive]; decide), hctx, Option.bind_some, ctx.triggerEvent_of_not_has h]

/-- Nothing happens in a process that is gone. -/
theorem trigger_of_aborted {s : IOManager} (h : s.aborted = true) (fd : Nat) (event : Event) :
    s.trigger fd event = s := if_pos h

/-- `ctx` with the events of `mask` triggered. -/
def FdContext.dropAll (ctx : FdContext) (mask : Events) : FdContext :=
  let ctx := if mask.has .READ then ctx.drop .READ else ctx
  if mask.has .WRITE then ctx.drop .WRITE else ctx

/-- The tasks of the events of `mask`, in the order they are triggered. -/
def FdContext.tasks (ctx : FdContext) (mask : Events) : List Task :=
  (if mask.has .READ then [ctx.task .READ] else []) ++
    if mask.has .WRITE then [ctx.task .WRITE] else []

theorem FdContext.drop_events (ctx : FdContext) (e : Event) :
    (ctx.drop e).events = ctx.events.remove e := FdContext.events_set _ _ _

theorem FdContext.drop_context (ctx : FdContext) {e e' : Event} (h : e' ≠ e) :
    (ctx.drop e).getEventContext e' = ctx.getEventContext e' := by
  rw [FdContext.drop, FdContext.getEventContext_set, if_neg h]
  cases e' <;> rfl

theorem FdContext.dropAll_events (ctx : FdContext) (mask : Events) :
    (ctx.dropAll mask).events = ctx.events.diff mask := by
  apply Events.ext_has
  intro e
  unfold FdContext.dropAll
  rcases hr : mask.has .READ with _ | _ <;> rcases hw : mask.has .WRITE with _ | _ <;>
    cases e <;> simp [FdContext.drop_events, hr, hw]

theorem FdContext.dropAll_context (ctx : FdContext) (mask : Events) {e : Event}
    (h : mask.has e = false) : (ctx.dropAll mask).getEventContext e = ctx.getEventContext e := by
  have hne : ∀ e', mask.has e' = true → e ≠ e' := by
    rintro e' he' rfl
    rw [h] at he'
    cases he'
  unfold FdContext.dropAll
  split_ifs with hr hw hw
  · rw [FdContext.drop_context _ (hne _ hw), FdContext.drop_context _ (hne _ hr)]
  · rw [FdContext.drop_context _ (hne _ hr)]
  · rw [FdContext.drop_context _ (hne _ hw)]
  · rfl

theorem FdContext.Ok.dropAll {ctx : FdContext} (h : ctx.Ok) (mask : Events) :
    (ctx.dropAll mask).Ok := by
  unfold FdContext.dropAll
  split <;> split
  · exact (h.drop .READ).drop .WRITE
  · exact h.drop .READ
  · exact h.drop .WRITE
  · exact h

/-- Triggering one event leaves the other one, registered or not. -/
theorem FdContext.drop_has_other (ctx : FdContext) :
    (ctx.drop .READ).events.has .WRITE = ctx.events.has .WRITE := by
  simp [FdContext.drop_events]

theorem FdContext.drop_task_other (ctx : FdContext) :
    (ctx.drop .READ).task .WRITE = ctx.task .WRITE := rfl

/-- Triggering registered events: each is scheduled and dropped, and counted. -/
theorem triggerAll_of_has {s : IOManager} (halive : s.aborted = false) {fd : Nat}
    {ctx : FdContext} (hctx : s.m_fdContexts[fd]? = some ctx) (hok : ctx.Ok) {mask : Events}
    (h : ∀ e, mask.has e = true → ctx.events.has e = true) :
    s.triggerAll fd mask =
      { s with
        m_fdContexts := s.m_fdContexts.set fd (ctx.dropAll mask)
        scheduled := s.scheduled ++ ctx.tasks mask
        m_pendingEventCount := s.m_pendingEventCount - mask.count } := by
  have hfd : fd < s.m_fdContexts.length := (List.getElem?_eq_some_iff.mp hctx).1
  have hself : s.m_fdContexts.set fd ctx = s.m_fdContexts := by
    obtain ⟨_, rfl⟩ := List.getElem?_eq_some_iff.mp hctx
    exact List.set_getElem_self _
  unfold triggerAll FdContext.dropAll FdContext.tasks Events.count
  rcases hr : mask.has .READ with _ | _ <;> rcases hw : mask.has .WRITE with _ | _
  · simp [hself]
  · simp [trigger_of_has halive hctx hok (h .WRITE hw)]
  · simp [trigger_of_has halive hctx hok (h .READ hr)]
  · -- the second event is triggered in the context the first one left
    have hw' : (ctx.drop .READ).events.has .WRITE = true := by
      rw [FdContext.drop_has_other]; exact h .WRITE hw
    simp only [if_true, trigger_of_has halive hctx hok (h .READ hr)]
    rw [trigger_of_has (by exact halive) (show _ = some (ctx.drop .READ) by simp [hfd])
      (hok.drop .READ) hw', FdContext.drop_task_other]
    simp only [List.set_set, List.append_assoc, Bool.toNat_true, Int.sub_sub]
    rfl

/-- Triggering an event that is not registered aborts the process. -/
theorem triggerAll_of_not_has {s : IOManager} (halive : s.aborted = false) {fd : Nat}
    {ctx : FdContext} (hctx : s.m_fdContexts[fd]? = some ctx) (hok : ctx.Ok) {mask : Events}
    {e : Event} (hmask : mask.has e = true) (h : ctx.events.has e = false) :
    (s.triggerAll fd mask).aborted = true := by
  have hfd : fd < s.m_fdContexts.length := (List.getElem?_eq_some_iff.mp hctx).1
  unfold triggerAll
  cases e with
  | READ =>
      rw [if_pos hmask, trigger_of_not_has halive hctx h]
      split
      · rw [trigger_of_aborted rfl]
      · rfl
  | WRITE =>
      rw [if_pos hmask]
      rcases hr : mask.has .READ with _ | _
      · simp only [Bool.false_eq_true, if_false]
        rw [trigger_of_not_has halive hctx h]
      · simp only [if_true]
        rcases hread : ctx.events.has .READ with _ | _
        · rw [trigger_of_not_has halive hctx hread, trigger_of_aborted rfl]
        · rw [trigger_of_has halive hctx hok hread,
            trigger_of_not_has (by exact halive) (show _ = some (ctx.drop .READ) by simp [hfd])
              (by rw [FdContext.drop_has_other]; exact h)]

/-! ### The calls keep the invariant -/

/-- The table grows: `fd * 1.5` is above every index in use. -/
theorem resized_eq {s : IOManager} (h : s.Inv) (fd : Nat) :
    ∃ k, s.resized fd = { s with m_fdContexts := s.m_fdContexts ++ List.replicate k .new } ∧
      fd < (s.resized fd).m_fdContexts.length := by
  have hsize := h.size
  unfold resized
  split_ifs with hlen
  · exact ⟨0, by simp, hlen⟩
  · refine ⟨fd * 3 / 2 - s.m_fdContexts.length, ?_, ?_⟩
    · unfold contextResize
      rw [List.take_of_length_le (by omega)]
    · simp only [contextResize, List.length_append, List.length_take, List.length_replicate]
      omega

theorem resized_inv {s : IOManager} (h : s.Inv) (fd : Nat) : (s.resized fd).Inv := by
  obtain ⟨k, hk, -⟩ := resized_eq h fd
  rw [hk]
  -- a context behind the old ones is new, and not registered
  have hcases : ∀ (fd' : Nat) (ctx : FdContext),
      (s.m_fdContexts ++ List.replicate k FdContext.new)[fd']? = some ctx →
      s.m_fdContexts[fd']? = some ctx ∨ (s.m_fdContexts[fd']? = none ∧ ctx = FdContext.new) := by
    intro fd' ctx hctx
    by_cases hlt : fd' < s.m_fdContexts.length
    · rw [List.getElem?_append_left hlt] at hctx
      exact .inl hctx
    · rw [List.getElem?_append_right (by omega)] at hctx
      exact .inr ⟨List.getElem?_eq_none (by omega),
        List.eq_of_mem_replicate (List.mem_of_getElem? hctx)⟩
  refine ⟨fun fd' ctx hctx => ?_, fun fd' => ?_, fun w r hr => ?_, ?_, h.alive⟩
  · rcases hcases fd' ctx hctx with hold | ⟨-, rfl⟩
    · exact h.ok fd' ctx hold
    · exact FdContext.new_ok
  · simp only
    rw [h.interest fd']
    rcases hctx : (s.m_fdContexts ++ List.replicate k FdContext.new)[fd']? with _ | ctx
    · rw [List.getElem?_eq_none_iff, List.length_append] at hctx
      rw [List.getElem?_eq_none (by omega)]
    · rcases hcases fd' ctx hctx with hold | ⟨hold, rfl⟩
      · rw [hold]
      · rw [hold]; rfl
  · have := h.ready w r hr
    simp only [List.length_append]
    omega
  · have := h.size
    simp only [List.length_append]
    omega

/-- Registering an event with a filled context. -/
theorem FdContext.Ok.add {ctx : FdContext} (h : ctx.Ok) (event : Event) {c : EventContext}
    (hc : c.Filled) : (ctx.add event c).Ok where
  filled := by
    intro e he
    rw [FdContext.add, FdContext.getEventContext_set]
    split_ifs with hee
    · exact hc
    · rw [FdContext.add, FdContext.events_set] at he
      simp only [Events.has_insert, hee, decide_false, Bool.false_or] at he
      have hold := h.filled e he
      cases e <;> exact hold
  empty := by
    intro e he
    rw [FdContext.add, FdContext.events_set] at he
    simp only [Events.has_insert, Bool.or_eq_false_iff, decide_eq_false_iff_not] at he
    rw [FdContext.add, FdContext.getEventContext_set, if_neg he.1]
    have hold := h.empty e he.2
    cases e <;> exact hold

theorem Waiter.context_filled (scheduler : Nat) (waiter : Waiter) :
    (waiter.context scheduler).Filled := by
  cases waiter with
  | cb name => exact ⟨rfl, .inl rfl⟩
  | fiber name => exact ⟨rfl, .inr rfl⟩

theorem insert_ne_none (ev : Events) (e : Event) : ev.insert e ≠ .NONE :=
  has_ne_none (e := e) (by simp)

theorem addEvent_inv {s t : IOManager} (h : s.Inv) {fd : Nat} {event : Event} {scheduler : Nat}
    {waiter : Waiter} {fails b : Bool}
    (hs : s.addEvent fd event scheduler waiter fails = some (t, b)) : t.Inv := by
  have hr := resized_inv h fd
  obtain ⟨-, -, hfd⟩ := resized_eq h fd
  unfold addEvent at hs
  simp only at hs
  split at hs
  · cases hs
  · rename_i ctx hctx
    split at hs
    · cases hs
    · split at hs
      · cases hs; exact hr
      · rename_i u hu
        split at hs
        · -- `ADD` or `MOD`, the kernel now has the mask with the new event
          have hkernel : u =
              (s.resized fd).setMask fd (kernelMask (ctx.events.insert event)) := by
            rw [kernelMask, if_neg (insert_ne_none _ _)]
            unfold epollCtl at hu
            split at hu
            · cases hu
            · split at hu
              · cases hu; rfl
              · cases hu; rfl
              · rename_i hop _
                split at hop <;> cases hop
              · cases hu
          cases hs
          refine hr.store ((hr.ok fd ctx hctx).add event (waiter.context_filled scheduler)) hfd
            ?_ ?_ ?_ ?_
          · rw [hkernel]; rfl
          · rw [hkernel, FdContext.add, FdContext.events_set]; rfl
          · rw [hkernel]; rfl
          · rw [hkernel]; exact hr.alive
        · cases hs

theorem delEvent_inv {s : IOManager} (h : s.Inv) (fd : Nat) (event : Event) (fails : Bool) :
    (s.delEvent fd event fails).1.Inv := by
  unfold delEvent
  rcases hctx : s.m_fdContexts[fd]? with _ | ctx
  · exact h
  · simp only
    split_ifs with hev
    · rw [leave_eq h hctx (has_ne_none hev)]
      cases fails with
      | true => exact h
      | false =>
          refine h.store ((h.ok fd ctx hctx).drop event) (List.getElem?_eq_some_iff.mp hctx).1
            rfl ?_ rfl h.alive
          rw [FdContext.drop_events]
          rfl
    · exact h

theorem cancelEvent_inv {s : IOManager} (h : s.Inv) (fd : Nat) (event : Event) (fails : Bool) :
    (s.cancelEvent fd event fails).1.Inv := by
  unfold cancelEvent
  rcases hctx : s.m_fdContexts[fd]? with _ | ctx
  · exact h
  · simp only
    split_ifs with hev
    · rw [leave_eq h hctx (has_ne_none hev)]
      cases fails with
      | true => exact h
      | false =>
          simp only [Bool.false_eq_true, if_false]
          rw [trigger_of_has (s := s.setMask fd _) h.alive hctx (h.ok fd ctx hctx) hev]
          refine h.store ((h.ok fd ctx hctx).drop event) (List.getElem?_eq_some_iff.mp hctx).1
            rfl ?_ rfl h.alive
          rw [FdContext.drop_events]
          rfl
    · exact h

theorem cancelAll_inv {s : IOManager} (h : s.Inv) (fd : Nat) (fails : Bool) :
    (s.cancelAll fd fails).1.Inv := by
  unfold cancelAll
  rcases hctx : s.m_fdContexts[fd]? with _ | ctx
  · exact h
  · simp only
    split_ifs with hev
    · exact h
    · have hleave := leave_eq h hctx hev .NONE fails
      rw [leave, if_pos rfl] at hleave
      rw [hleave]
      cases fails with
      | true => exact h
      | false =>
          simp only [Bool.false_eq_true, if_false]
          rw [triggerAll_of_has (s := s.setMask fd _) h.alive hctx (h.ok fd ctx hctx)
            fun _ he => he]
          refine h.store ((h.ok fd ctx hctx).dropAll ctx.events)
            (List.getElem?_eq_some_iff.mp hctx).1 rfl ?_ rfl h.alive
          rw [FdContext.dropAll_events]
          have hnone : ctx.events.diff ctx.events = .NONE :=
            Events.eq_none_iff.mpr fun e => by simp
          rw [hnone]
          rfl

theorem epollWait_inv {s : IOManager} (h : s.Inv) {w : Nat} {reports : List (Nat × Mask)}
    (hr : reports.all s.reportable = true) :
    Inv { s with ready := Function.update s.ready w reports } := by
  refine ⟨h.ok, h.interest, fun w' r hmem => ?_, h.size, h.alive⟩
  simp only at hmem
  by_cases hw : w' = w
  · subst hw
    rw [Function.update_self] at hmem
    -- a reported descriptor is on the interest list, hence in the table
    have hrep := List.all_eq_true.mp hr r hmem
    unfold reportable at hrep
    rw [h.interest r.1] at hrep
    rcases hctx : s.m_fdContexts[r.1]? with _ | ctx
    · rw [hctx] at hrep
      cases hrep
    · exact (List.getElem?_eq_some_iff.mp hctx).1
  · rw [Function.update_of_ne hw] at hmem
    exact h.ready w' r hmem

end IOManager

end Will
