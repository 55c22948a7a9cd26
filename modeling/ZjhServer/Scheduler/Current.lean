/-
ZjhServer/Scheduler/Current.lean

The fiber a thread believes to run (server/fiber.cc, server/scheduler.cc): `t_fiber`, beside
the context that really executes, the thread's main fiber and the fiber of its scheduler.

A context is named after the fiber on whose stack it lives.  `swapcontext` saves the one that
executes in the fiber that `m_runInScheduler` selects, whoever resumes, and loads what is saved
in the other.  `resume` designates the fiber it resumes; `yield` designates the main fiber of
the thread, whatever it switches back to.  So `t_fiber` is right as long as fibers go back to the
main fiber (`current_fiber`): in a pool thread, where `Scheduler::run` is the main fiber, and not
in a thread with `use_caller`, where it is the root fiber.

Other threads are the environment: a fiber arrives, new or left ready by another thread, and a
fiber that is not running departs.
-/
import ZjhServer.Scheduler.Fibers

namespace Will

namespace Scheduler

namespace Current

open Fibers (FiberState)

/-! ### The source -/

structure Thread where
  t_fiber : Nat
  t_thread_fiber : Nat
  t_scheduler_fiber : Nat
  /-- The context on the processor. -/
  executing : Nat
  /-- The contexts suspended in a `resume` below it, the latest first. -/
  below : List Nat
  /-- None for a fiber that is not of this thread. -/
  m_state : Nat → Option FiberState
  m_runInScheduler : Nat → Bool
  /-- The context that is saved in a fiber. -/
  m_ctx : Nat → Nat

namespace Thread

/-- The fiber `Fiber()` makes for a thread; it does not set `m_runInScheduler`. -/
def main_fiber : Nat := 0

def m_rootFiber : Nat := 1

/-- A thread before its first switch: a pool thread in `Scheduler::run`, or the one that has
called `Scheduler(threads, true)`. -/
def init (use_caller : Bool) (memory : Nat → Bool) : Thread where
  t_fiber := main_fiber
  t_thread_fiber := main_fiber
  t_scheduler_fiber := if use_caller then m_rootFiber else main_fiber
  executing := main_fiber
  below := []
  m_state f :=
    if f = main_fiber then some .RUNNING
    else if use_caller && f = m_rootFiber then some .READY
    else none
  -- what `Fiber()` leaves as it was
  m_runInScheduler f := if f = m_rootFiber then false else memory f
  m_ctx f := f

/-- `GetThis()`, of a thread that has a fiber -/
def GetThis (s : Thread) : Nat := s.t_fiber

/-- `swapcontext(&oucp->m_ctx, &ucp->m_ctx)` -/
def swapcontext (s : Thread) (oucp ucp : Nat) : Thread :=
  let m_ctx := Function.update s.m_ctx oucp s.executing
  { s with m_ctx := m_ctx, executing := m_ctx ucp }

/-- The fiber that a fiber is swapped with. -/
def partner (s : Thread) (f : Nat) : Nat :=
  if s.m_runInScheduler f then s.t_scheduler_fiber else s.t_thread_fiber

/-- `f->resume()` -/
def resume (s : Thread) (f : Nat) : Option Thread :=
  if s.m_state f = some .READY then
    let s' := { s with
      t_fiber := f
      m_state := Function.update s.m_state f (some .RUNNING)
      below := s.executing :: s.below }
    some (s'.swapcontext (s.partner f) f)
  else none

/-- The resumers below a context that goes on. -/
def resumersOf (c : Nat) (below : List Nat) : List Nat := (below.dropWhile fun d => d ≠ c).tail

/-- The rest of `yield` behind its assertion, which leaves the fiber in a state. -/
def switchBack (s : Thread) (f : Nat) (left : FiberState) : Thread :=
  -- `SetThis(t_thread_fiber.get())`, whoever the partner is
  let s' := { s with
    t_fiber := s.t_thread_fiber
    m_state := Function.update s.m_state f (some left) }
  let t := s'.swapcontext f (s.partner f)
  { t with below := resumersOf t.executing s.below }

/-- `f->yield()` -/
def yield (s : Thread) (f : Nat) : Option Thread :=
  match s.m_state f with
  | some .RUNNING => some (s.switchBack f .READY)
  | some .TERM => some (s.switchBack f .TERM)
  | _ => none

/-- The end of `MainFunc`, on the fiber it got from `GetThis()` when it began. -/
def finish (s : Thread) : Option Thread :=
  { s with
    m_state := Function.update s.m_state s.executing (some FiberState.TERM) }.yield s.executing

end Thread

inductive Action
  | arrive (f : Nat) (run_in_scheduler : Bool)
  | depart (f : Nat)
  | reset (f : Nat)
  | resume (f : Nat)
  | yield
  | finish
  deriving DecidableEq, Repr

/-- The fibers of the thread itself and of its scheduler. -/
def Thread.own (s : Thread) (f : Nat) : Bool := f = s.t_thread_fiber || f = s.t_scheduler_fiber

/-- One step of the context that executes, or of the other threads.  Whoever yields is
`GetThis()`; the main fiber of the thread does not. -/
def step (s : Thread) : Action → Option Thread
  | .arrive f run_in_scheduler =>
      if s.m_state f = none then
        some { s with
          m_state := Function.update s.m_state f (some .READY)
          m_runInScheduler := Function.update s.m_runInScheduler f run_in_scheduler
          m_ctx := Function.update s.m_ctx f f }
      else none
  | .depart f =>
      if s.m_state f ≠ some .RUNNING ∧ s.own f = false then
        some { s with m_state := Function.update s.m_state f none }
      else none
  | .reset f =>
      if s.m_state f = some .TERM ∧ s.own f = false then
        some { s with
          m_state := Function.update s.m_state f (some .READY)
          m_ctx := Function.update s.m_ctx f f }
      else none
  | .resume f => s.resume f
  | .yield => if s.executing = s.t_thread_fiber then none else s.yield s.GetThis
  | .finish => if s.executing = s.t_thread_fiber then none else s.finish

/-- **The bookkeeping is right**: `t_fiber` designates the fiber that executes, and nobody but it
and its resumers is `RUNNING`. -/
def IsCurrent (s : Thread) : Prop :=
  s.GetThis = s.executing ∧
    ∀ f, s.m_state f = some .RUNNING → f = s.executing ∨ f ∈ s.below

/-- The fiber resumed has its own context, and a fiber goes back to the context of the thread's
main fiber. -/
def Homeward (s : Thread) : Action → Prop
  | .resume f => s.m_ctx f = f
  | .yield => s.m_ctx (s.partner s.GetThis) = s.t_thread_fiber
  | .finish => s.m_ctx (s.partner s.executing) = s.t_thread_fiber
  | .arrive _ _ | .depart _ | .reset _ => True

/-! ### The invariant -/

structure Inv (s : Thread) : Prop where
  current : s.t_fiber = s.executing
  running : ∀ f, s.m_state f = some .RUNNING ↔ f ∈ s.executing :: s.below
  nodup : (s.executing :: s.below).Nodup
  bottom : (s.executing :: s.below).getLast? = some s.t_thread_fiber
  /-- The resumer is what the fiber it was swapped with has saved. -/
  resumer : s.executing ≠ s.t_thread_fiber →
    s.below.head? = some (s.m_ctx (s.partner s.executing))
  scheduler : s.t_scheduler_fiber ≠ s.t_thread_fiber →
    s.m_runInScheduler s.t_scheduler_fiber = false ∧ s.m_state s.t_scheduler_fiber ≠ none

theorem Inv.isCurrent {s : Thread} (h : Inv s) : IsCurrent s :=
  ⟨h.current, fun f hf => List.mem_cons.mp ((h.running f).mp hf)⟩

theorem init_inv (use_caller : Bool) (memory : Nat → Bool) :
    Inv (Thread.init use_caller memory) where
  current := rfl
  running := by
    intro f
    show (if f = Thread.main_fiber then some FiberState.RUNNING else _) = _ ↔ _
    by_cases hf : f = Thread.main_fiber
    · simp [hf, Thread.init]
    · rw [if_neg hf]
      refine iff_of_false ?_ (by simpa [Thread.init] using hf)
      split_ifs
      · exact fun h => by cases h
      · exact fun h => by cases h
  nodup := List.nodup_cons.mpr ⟨List.not_mem_nil, List.nodup_nil⟩
  bottom := rfl
  resumer := fun h => absurd rfl h
  scheduler := by
    intro hne
    cases use_caller with
    | false => exact absurd rfl hne
    | true => exact ⟨rfl, fun h => by cases h⟩

variable {s : Thread}

/-- The main fiber of a thread is never switched off: it waits in its `resume`. -/
theorem Inv.main_running (h : Inv s) : s.m_state s.t_thread_fiber = some .RUNNING :=
  (h.running _).mpr (List.mem_of_getLast? h.bottom)

/-- No fiber but the main one is swapped with itself. -/
theorem Inv.partner_ne (h : Inv s) {f : Nat} (hf : f ≠ s.t_thread_fiber) : s.partner f ≠ f := by
  rw [Thread.partner]
  split_ifs with hflag
  · rintro rfl
    rw [(h.scheduler hf).1] at hflag
    cases hflag
  · exact Ne.symm hf

/-! ### Switches -/

/-- A fiber that is ready begins or goes on. -/
theorem Inv.enter (h : Inv s) {f : Nat} (hready : s.m_state f = some .READY) :
    Inv { s with
      t_fiber := f
      executing := f
      below := s.executing :: s.below
      m_state := Function.update s.m_state f (some .RUNNING)
      m_ctx := Function.update s.m_ctx (s.partner f) s.executing } where
  current := rfl
  running := by
    intro g
    show Function.update s.m_state f (some .RUNNING) g = some .RUNNING ↔
      g ∈ f :: s.executing :: s.below
    -- the resumer stays `RUNNING` below the fiber it has resumed
    by_cases hg : g = f
    · subst hg
      exact iff_of_true (Function.update_self ..) List.mem_cons_self
    · rw [Function.update_of_ne hg, h.running g]
      exact ⟨List.mem_cons_of_mem f, fun hmem => (List.mem_cons.mp hmem).resolve_left hg⟩
  nodup := by
    refine List.nodup_cons.mpr ⟨fun hmem => ?_, h.nodup⟩
    rw [(h.running f).mpr hmem] at hready
    cases hready
  bottom := by
    rw [← h.bottom]
    exact List.getLast?_cons_cons ..
  resumer := by
    intro _
    show some s.executing =
      some (Function.update s.m_ctx (s.partner f) s.executing (s.partner f))
    rw [Function.update_self]
  scheduler := by
    intro hne
    refine ⟨(h.scheduler hne).1, ?_⟩
    show Function.update s.m_state f (some .RUNNING) s.t_scheduler_fiber ≠ none
    by_cases hf : s.t_scheduler_fiber = f
    · rw [hf, Function.update_self]
      exact fun h => by cases h
    · rw [Function.update_of_ne hf]
      exact (h.scheduler hne).2

/-- A fiber that the main fiber has resumed goes back. -/
theorem Inv.leave (h : Inv s) (hmain : s.executing ≠ s.t_thread_fiber)
    (hhome : s.m_ctx (s.partner s.executing) = s.t_thread_fiber) {x : FiberState}
    (hx : x ≠ .RUNNING) :
    s.below = [s.t_thread_fiber] ∧
      Inv { s with
        t_fiber := s.t_thread_fiber
        executing := s.t_thread_fiber
        below := []
        m_state := Function.update s.m_state s.executing (some x)
        m_ctx := Function.update s.m_ctx s.executing s.executing } := by
  have hbelow : s.below = [s.t_thread_fiber] := by
    obtain ⟨rest, hrest⟩ := List.head?_eq_some_iff.mp (hhome ▸ h.resumer hmain)
    -- the main fiber is at the bottom, and stands there once
    have hnodup := h.nodup
    have hbottom := h.bottom
    rw [hrest] at hnodup hbottom ⊢
    cases rest with
    | nil => rfl
    | cons c rest =>
        rw [List.getLast?_cons_cons, List.getLast?_cons_cons] at hbottom
        have hagain := List.mem_of_getLast? hbottom
        exact absurd hagain (List.nodup_cons.mp (List.nodup_cons.mp hnodup).2).1
  refine ⟨hbelow, rfl, fun f => ?_, List.nodup_cons.mpr ⟨List.not_mem_nil, List.nodup_nil⟩, rfl,
    fun hne => absurd rfl hne, fun hne => ⟨(h.scheduler hne).1, ?_⟩⟩
  · show Function.update s.m_state s.executing (some x) f = some .RUNNING ↔
      f ∈ [s.t_thread_fiber]
    rw [List.mem_singleton]
    by_cases hf : f = s.executing
    · subst hf
      rw [Function.update_self]
      exact iff_of_false (fun hrun => hx (Option.some.inj hrun)) hmain
    · rw [Function.update_of_ne hf, h.running f, hbelow, List.mem_cons, List.mem_singleton,
        or_iff_right hf]
  · show Function.update s.m_state s.executing (some x) s.t_scheduler_fiber ≠ none
    by_cases hf : s.t_scheduler_fiber = s.executing
    · rw [hf, Function.update_self]
      exact fun h => by cases h
    · rw [Function.update_of_ne hf]
      exact (h.scheduler hne).2

/-- Going back to the main fiber is leaving. -/
theorem Inv.switchBack (h : Inv s) (hmain : s.executing ≠ s.t_thread_fiber)
    (hhome : s.m_ctx (s.partner s.executing) = s.t_thread_fiber) {x : FiberState}
    (hx : x ≠ .RUNNING) : Inv (s.switchBack s.executing x) := by
  have hload : Function.update s.m_ctx s.executing s.executing (s.partner s.executing) =
      s.t_thread_fiber := by
    rw [Function.update_of_ne (h.partner_ne hmain), hhome]
  obtain ⟨hbelow, hleft⟩ := h.leave hmain hhome hx
  have hnone : Thread.resumersOf s.t_thread_fiber s.below = [] := by
    rw [hbelow, Thread.resumersOf, List.dropWhile_cons_of_neg (by simp)]
    rfl
  simp only [Thread.switchBack, Thread.swapcontext, hload, hnone]
  exact hleft

/-- Who has switched back designates the main fiber, and goes on where its partner was. -/
theorem switchBack_current (h : Inv s) (hmain : s.executing ≠ s.t_thread_fiber) (x : FiberState) :
    IsCurrent (s.switchBack s.executing x) →
      s.m_ctx (s.partner s.executing) = s.t_thread_fiber := by
  rintro ⟨hcurrent, -⟩
  have hload : s.t_thread_fiber =
      Function.update s.m_ctx s.executing s.executing (s.partner s.executing) := hcurrent
  rw [Function.update_of_ne (h.partner_ne hmain)] at hload
  exact hload.symm

/-! ### Steps -/

theorem own_ne {f : Nat} (h : s.own f = false) :
    s.t_thread_fiber ≠ f ∧ s.t_scheduler_fiber ≠ f := by
  rw [Thread.own, Bool.or_eq_false_iff, decide_eq_false_iff_not, decide_eq_false_iff_not] at h
  exact ⟨Ne.symm h.1, Ne.symm h.2⟩

/-- A fiber that is not there is not the thread's own. -/
theorem Inv.own_of_none (h : Inv s) {f : Nat} (hf : s.m_state f = none) : s.own f = false := by
  rw [Thread.own, Bool.or_eq_false_iff, decide_eq_false_iff_not, decide_eq_false_iff_not]
  have hmain : f ≠ s.t_thread_fiber := by
    rintro rfl
    rw [h.main_running] at hf
    cases hf
  refine ⟨hmain, ?_⟩
  rintro rfl
  exact (h.scheduler hmain).2 hf

/-- Fibers come and go that are neither on the stack nor the thread's own. -/
theorem Inv.others (h : Inv s) {f : Nat} (hown : s.own f = false)
    (hf : s.m_state f ≠ some .RUNNING) {x : Option FiberState} (hx : x ≠ some .RUNNING)
    {flags : Nat → Bool} (hflags : ∀ g, g ≠ f → flags g = s.m_runInScheduler g)
    {ctx : Nat → Nat} (hctx : ∀ g, g ≠ f → ctx g = s.m_ctx g) :
    Inv { s with
      m_state := Function.update s.m_state f x
      m_runInScheduler := flags
      m_ctx := ctx } := by
  obtain ⟨hmain, hscheduler⟩ := own_ne hown
  have hexecuting : s.executing ≠ f := by
    rintro rfl
    exact hf ((h.running _).mpr List.mem_cons_self)
  refine ⟨h.current, fun g => ?_, h.nodup, h.bottom, fun hne => ?_, fun hne => ?_⟩
  · show Function.update s.m_state f x g = some .RUNNING ↔ g ∈ s.executing :: s.below
    by_cases hg : g = f
    · subst hg
      rw [Function.update_self]
      exact iff_of_false hx fun hmem => hf ((h.running g).mpr hmem)
    · rw [Function.update_of_ne hg]
      exact h.running g
  · show s.below.head? = some
      (ctx (if flags s.executing then s.t_scheduler_fiber else s.t_thread_fiber))
    rw [hflags _ hexecuting, hctx]
    · exact h.resumer hne
    · split_ifs
      · exact hscheduler
      · exact hmain
  · refine ⟨(hflags _ hscheduler).trans (h.scheduler hne).1, ?_⟩
    show Function.update s.m_state f x s.t_scheduler_fiber ≠ none
    rw [Function.update_of_ne hscheduler]
    exact (h.scheduler hne).2

/-- The executing fiber yields. -/
theorem yield_executing (h : Inv s) :
    s.yield s.executing = some (s.switchBack s.executing .READY) := by
  rw [Thread.yield, (h.running _).mpr List.mem_cons_self]

/-- The executing fiber ends. -/
theorem finish_executing (s : Thread) : s.finish = some (s.switchBack s.executing .TERM) := by
  rw [Thread.finish, Thread.yield]
  simp only [Function.update_self, Thread.switchBack, Function.update_idem]
  rfl

/-- **One step** homeward keeps the bookkeeping right. -/
theorem step_inv {t : Thread} {a : Action} (h : Inv s) (hgood : Homeward s a)
    (hs : step s a = some t) : Inv t := by
  cases a with
  | arrive f run_in_scheduler =>
      rw [step] at hs
      split_ifs at hs with hf
      obtain rfl := Option.some.inj hs
      refine h.others (h.own_of_none hf) ?_ (by decide) (fun g hg => Function.update_of_ne hg _ _)
        fun g hg => Function.update_of_ne hg _ _
      rw [hf]
      exact fun h => by cases h
  | depart f =>
      rw [step] at hs
      split_ifs at hs with hf
      obtain rfl := Option.some.inj hs
      exact h.others hf.2 hf.1 (fun h => by cases h) (fun _ _ => rfl) fun _ _ => rfl
  | reset f =>
      rw [step] at hs
      split_ifs at hs with hf
      obtain rfl := Option.some.inj hs
      refine h.others hf.2 ?_ (by decide) (fun _ _ => rfl) fun g hg => Function.update_of_ne hg _ _
      rw [hf.1]
      exact fun h => by cases h
  | resume f =>
      rw [step, Thread.resume] at hs
      split_ifs at hs with hready
      obtain rfl := Option.some.inj hs
      have hf : f ≠ s.t_thread_fiber := by
        rintro rfl
        rw [h.main_running] at hready
        cases hready
      -- the fiber that executes is saved elsewhere, so `f` still has its own context
      have hload : Function.update s.m_ctx (s.partner f) s.executing f = f := by
        rw [Function.update_of_ne (h.partner_ne hf).symm]
        exact hgood
      simp only [Thread.swapcontext, hload]
      exact h.enter hready
  | yield =>
      rw [step] at hs
      split_ifs at hs with hmain
      rw [Thread.GetThis, h.current, yield_executing h] at hs
      obtain rfl := Option.some.inj hs
      rw [Homeward, Thread.GetThis, h.current] at hgood
      exact h.switchBack hmain hgood (by decide)
  | finish =>
      rw [step] at hs
      split_ifs at hs with hmain
      rw [finish_executing] at hs
      obtain rfl := Option.some.inj hs
      exact h.switchBack hmain hgood (by decide)

/-- A step that is not homeward breaks the bookkeeping. -/
theorem homeward_of_current {t : Thread} {a : Action} (h : Inv s) (hs : step s a = some t)
    (ht : IsCurrent t) : Homeward s a := by
  cases a with
  | arrive f run_in_scheduler | depart f | reset f => trivial
  | resume f =>
      rw [step, Thread.resume] at hs
      split_ifs at hs with hready
      obtain rfl := Option.some.inj hs
      have hf : f ≠ s.t_thread_fiber := by
        rintro rfl
        rw [h.main_running] at hready
        cases hready
      have hload : f = Function.update s.m_ctx (s.partner f) s.executing f := ht.1
      rw [Function.update_of_ne (h.partner_ne hf).symm] at hload
      exact hload.symm
  | yield =>
      rw [step] at hs
      split_ifs at hs with hmain
      rw [Thread.GetThis, h.current, yield_executing h] at hs
      obtain rfl := Option.some.inj hs
      rw [Homeward, Thread.GetThis, h.current]
      exact switchBack_current h hmain .READY ht
  | finish =>
      rw [step] at hs
      split_ifs at hs with hmain
      rw [finish_executing] at hs
      obtain rfl := Option.some.inj hs
      exact switchBack_current h hmain .TERM ht

/-! ### Runs -/

/-- **The current fiber.**  In runs whose fibers go back to the main fiber of the thread,
`t_fiber` designates the fiber that executes and only its resumers are `RUNNING` beside it; and
the first step that is not such a step breaks this. -/
theorem current_fiber (use_caller : Bool) (memory : Nat → Bool) {s : Thread}
    (h : Lts.Reach step Homeward (.init use_caller memory) s) :
    IsCurrent s ∧ ∀ a t, step s a = some t → (IsCurrent t ↔ Homeward s a) := by
  have hinv : Inv s := h.invariant (init_inv use_caller memory) fun _ _ _ => step_inv
  refine ⟨hinv.isCurrent, fun a t hs => ⟨homeward_of_current hinv hs, fun hgood => ?_⟩⟩
  exact (step_inv hinv hgood hs).isCurrent

/-- A pool thread resumes a fiber, which yields. -/
theorem current_fiber_pool :
    ∃ s, Lts.run step [.arrive 2 true, .resume 2, .yield] (.init false fun _ => false) = some s ∧
      IsCurrent s :=
  ⟨_, rfl, (current_fiber false (fun _ => false) (.step .yield (.step (.resume 2)
    (.step (.arrive 2 true) .init trivial rfl) rfl rfl) rfl rfl)).1⟩

/-- **The root fiber is not designated.**  With `use_caller`, a task goes back to the root fiber,
and `t_fiber` is the main fiber of the thread. -/
theorem root_not_designated :
    ¬∀ (memory : Nat → Bool) (s : Thread),
      Lts.Reach step Lts.Any (.init true memory) s → IsCurrent s := by
  intro h
  obtain ⟨s, hs⟩ : ∃ s, Lts.run step [.resume 1, .arrive 2 true, .resume 2, .yield]
      (.init true fun _ => false) = some s := ⟨_, rfl⟩
  obtain ⟨hcurrent, -⟩ := h _ s (Lts.reach_of_run hs)
  obtain rfl := Option.some.inj hs
  exact absurd hcurrent (by decide)

/-! ### Which threads -/

/-- Resumes are those of `Scheduler::run`. -/
def ByScheduler (s : Thread) : Action → Prop
  | .resume _ => s.executing = s.t_scheduler_fiber
  | _ => True

structure PoolInv (s : Thread) : Prop where
  inv : Inv s
  pool : s.t_scheduler_fiber = s.t_thread_fiber
  home : s.m_ctx s.t_thread_fiber = s.t_thread_fiber
  ready : ∀ f, s.m_state f = some .READY → s.m_ctx f = f

theorem PoolInv.partner (h : PoolInv s) (f : Nat) : s.partner f = s.t_thread_fiber := by
  rw [Thread.partner, h.pool, ite_self]

/-- In a pool thread every step of the scheduler is homeward. -/
theorem PoolInv.homeward (h : PoolInv s) {a : Action} {t : Thread} (hs : step s a = some t) :
    Homeward s a := by
  cases a with
  | arrive f run_in_scheduler | depart f | reset f => trivial
  | resume f =>
      rw [step, Thread.resume] at hs
      split_ifs at hs with hready
      exact h.ready f hready
  | yield =>
      rw [Homeward, h.partner]
      exact h.home
  | finish =>
      rw [Homeward, h.partner]
      exact h.home

/-- A fiber whose context is its own keeps it, and one that becomes ready has its own. -/
theorem PoolInv.of (h : PoolInv s) {t : Thread} (hinv : Inv t)
    (hthread : t.t_thread_fiber = s.t_thread_fiber)
    (hscheduler : t.t_scheduler_fiber = s.t_scheduler_fiber)
    (hkeeps : ∀ g, s.m_ctx g = g → t.m_ctx g = g)
    (hready : ∀ g, t.m_state g = some .READY → s.m_state g = some .READY ∨ t.m_ctx g = g) :
    PoolInv t where
  inv := hinv
  pool := by rw [hthread, hscheduler, h.pool]
  home := by
    rw [hthread]
    exact hkeeps _ h.home
  ready := by
    intro g hg
    rcases hready g hg with hold | hnew
    · exact hkeeps g (h.ready g hold)
    · exact hnew

/-- What is saved in a fiber is its own context. -/
theorem update_own {ctx : Nat → Nat} {f g : Nat} (h : ctx g = g) :
    Function.update ctx f f g = g := by
  by_cases hg : g = f
  · rw [hg, Function.update_self]
  · rw [Function.update_of_ne hg, h]

/-- Where no fiber becomes ready. -/
theorem ready_before {m_state : Nat → Option FiberState} {f g : Nat} {x : Option FiberState}
    (hx : x ≠ some .READY) (hg : Function.update m_state f x g = some .READY) :
    m_state g = some .READY := by
  have hne : g ≠ f := by
    rintro rfl
    rw [Function.update_self] at hg
    exact hx hg
  rwa [Function.update_of_ne hne] at hg

theorem PoolInv.step {t : Thread} {a : Action} (h : PoolInv s) (hby : ByScheduler s a)
    (hs : step s a = some t) : PoolInv t := by
  have hinv := step_inv h.inv (h.homeward hs) hs
  -- a fiber that another state is stored in was ready before, or has its own context now
  have hstored : ∀ (f : Nat) (x : Option FiberState) g,
      Function.update s.m_state f x g = some .READY →
        s.m_state g = some .READY ∨ Function.update s.m_ctx f f g = g := by
    intro f x g hg
    by_cases hf : g = f
    · exact .inr (by rw [hf, Function.update_self])
    · rw [Function.update_of_ne hf] at hg
      exact .inl hg
  cases a with
  | arrive f run_in_scheduler =>
      rw [Current.step] at hs
      split_ifs at hs with hf
      obtain rfl := Option.some.inj hs
      exact h.of hinv rfl rfl (fun _ => update_own) (hstored f _)
  | depart f =>
      rw [Current.step] at hs
      split_ifs at hs with hf
      obtain rfl := Option.some.inj hs
      exact h.of hinv rfl rfl (fun _ hg => hg) fun g hg => .inl (ready_before (by decide) hg)
  | reset f =>
      rw [Current.step] at hs
      split_ifs at hs with hf
      obtain rfl := Option.some.inj hs
      exact h.of hinv rfl rfl (fun _ => update_own) (hstored f _)
  | resume f =>
      rw [Current.step, Thread.resume] at hs
      split_ifs at hs with hready
      obtain rfl := Option.some.inj hs
      -- the main fiber saves itself in itself
      have hexecuting : s.executing = s.partner f := by
        rw [h.partner, ← h.pool]
        exact hby
      refine h.of hinv rfl rfl (fun g hg => ?_) fun g hg => .inl (ready_before (by decide) hg)
      show Function.update s.m_ctx (s.partner f) s.executing g = g
      rw [hexecuting]
      exact update_own hg
  | yield =>
      rw [Current.step] at hs
      split_ifs at hs with hmain
      rw [Thread.GetThis, h.inv.current, yield_executing h.inv] at hs
      obtain rfl := Option.some.inj hs
      exact h.of hinv rfl rfl (fun _ => update_own) (hstored s.executing _)
  | finish =>
      rw [Current.step] at hs
      split_ifs at hs with hmain
      rw [finish_executing] at hs
      obtain rfl := Option.some.inj hs
      exact h.of hinv rfl rfl (fun _ => update_own) (hstored s.executing _)

/-- **A pool thread is right about its fiber** whatever its tasks do, as long as only the
scheduler resumes. -/
theorem pool_current (memory : Nat → Bool) {s : Thread}
    (h : Lts.Reach step ByScheduler (.init false memory) s) : IsCurrent s := by
  have hinv : PoolInv s := h.invariant
    ⟨init_inv false memory, rfl, rfl, fun _ _ => rfl⟩ fun _ _ _ => PoolInv.step
  exact hinv.inv.isCurrent

/-- With `use_caller` nothing that the root fiber has resumed goes homeward. -/
theorem root_not_homeward (h : Inv s) (hcaller : s.t_scheduler_fiber ≠ s.t_thread_fiber)
    (hroot : s.below.head? = some s.t_scheduler_fiber) :
    ¬Homeward s .yield ∧ ¬Homeward s .finish := by
  obtain ⟨rest, hrest⟩ := List.head?_eq_some_iff.mp hroot
  -- the main fiber stands at the bottom, below the root fiber
  have hmain : s.executing ≠ s.t_thread_fiber := by
    intro hmain
    have hnodup := h.nodup
    have hbottom := h.bottom
    rw [hrest, List.getLast?_cons_cons] at hbottom
    rw [hrest, hmain] at hnodup
    exact (List.nodup_cons.mp hnodup).1 (List.mem_of_getLast? hbottom)
  have hpartner : s.m_ctx (s.partner s.executing) ≠ s.t_thread_fiber := by
    rw [← Option.some.inj (hroot.symm.trans (h.resumer hmain))]
    exact hcaller
  refine ⟨fun hyield => hpartner ?_, hpartner⟩
  rw [Homeward, Thread.GetThis, h.current] at hyield
  exact hyield

end Current

end Scheduler

end Will
