/-
ZjhServer/Scheduler/Fibers.lean

Fibers moving between workers: `Fiber::resume`, `Fiber::yield` and
`Fiber::MainFunc` (server/fiber.cc) under the scan of `Scheduler::run`, for any
number of workers.

A step is one of: scheduling a fiber or a callback, by anybody at any time; the
scan; in `resume`, the assertion, the store `m_state = RUNNING` and the switch that
loads the context; in `yield`, the store `m_state = READY` and the switch that
saves the context; the store `m_state = TERM` at the end of a fiber.

The scan trusts `m_state`, but `yield` stores `READY` before its context is saved,
so a fiber scheduled in between can be taken and loaded too early
(`loaded_before_saved`).  In runs whose scans take no such fiber, and none that
another worker has taken and not yet resumed, a context is loaded only after it
was saved, and no fiber is executed by two workers (`one_place`).
-/
import ZjhServer.Scheduler.Queue
import ZjhServer.Lib.Lts
import Mathlib.Logic.Function.Basic

namespace Will

namespace Scheduler

namespace Fibers

/-- `Fiber::State` -/
inductive FiberState
  | READY
  | RUNNING
  | TERM
  deriving DecidableEq, Repr

/-- A fiber; `saved` says that `m_ctx` is the context of its latest suspension, or
the one it was made with. -/
structure Fiber where
  m_state : FiberState
  saved : Bool
  deriving DecidableEq, Repr

/-- `new Fiber(cb)` -/
def Fiber.new : Fiber := ⟨.READY, true⟩

/-- Where a worker is. -/
inductive Pc
  /-- before the scan, or idle -/
  | scan
  /-- with a fiber, before the assertion of `resume` -/
  | took (f : Nat)
  /-- before `m_state = RUNNING` -/
  | checked (f : Nat)
  /-- before the switch that loads the context -/
  | resuming (f : Nat)
  /-- executing the fiber -/
  | exec (f : Nat)
  /-- in its `yield`, after `m_state = READY`, before the switch that saves the
  context -/
  | yielding (f : Nat)
  /-- after `m_state = TERM`, before the last switch -/
  | ending (f : Nat)
  deriving DecidableEq, Repr

namespace Pc

/-- The fiber the worker took from the queue and has not left. -/
def holds : Pc → Option Nat
  | .scan => none
  | .took f | .checked f | .resuming f | .exec f | .yielding f | .ending f => some f

/-- The fiber whose code the worker executes. -/
def executes : Pc → Option Nat
  | .exec f | .yielding f | .ending f => some f
  | _ => none

end Pc

/-- The queue, the fibers created so far and the workers.  `early` records that
some `resume` has loaded a context that was not saved. -/
structure State (n : Nat) where
  tid : Fin n → Int
  m_tasks : List ScheduleTask
  fiber : Nat → Option Fiber
  pc : Fin n → Pc
  early : Bool

variable {n : Nat}

namespace State

def init (tid : Fin n → Int) : State n where
  tid := tid
  m_tasks := []
  fiber := fun _ => none
  pc := fun _ => .scan
  early := false

def goto (s : State n) (w : Fin n) (pc : Pc) : State n :=
  { s with pc := Function.update s.pc w pc }

def setFiber (s : State n) (f : Nat) (x : Fiber) : State n :=
  { s with fiber := Function.update s.fiber f (some x) }

/-- `getState() == RUNNING` -/
def running (s : State n) (f : Nat) : Bool := (s.fiber f).elim false (·.m_state = .RUNNING)

end State

inductive Action (n : Nat)
  | create (f : Nat)
  | schedule (task : ScheduleTask)
  | scan (w : Fin n) (fresh : Nat)
  | check (w : Fin n)
  | run (w : Fin n)
  | load (w : Fin n)
  | yield (w : Fin n)
  | save (w : Fin n)
  | term (w : Fin n)
  | leave (w : Fin n)
  deriving DecidableEq, Repr

open State

/-- A failed assertion of `resume` ends the process: there is no step.  A callback
gets a new fiber, at an address `fresh` not in use. -/
def step (s : State n) : Action n → Option (State n)
  | .create f => if s.fiber f = none then some (s.setFiber f .new) else none
  | .schedule task =>
      if task.fiber.elim true (fun f => (s.fiber f).isSome) then
        some { s with m_tasks := (scheduleNoLock s.m_tasks task).1 }
      else none
  | .scan w fresh =>
      if s.pc w = .scan then
        let r := Scheduler.scan (s.tid w) s.running s.m_tasks
        let s := { s with m_tasks := r.m_tasks }
        match r.task with
        | none => some s
        | some ⟨some f, _, _⟩ => some (s.goto w (.took f))
        | some ⟨none, _, _⟩ =>
            if s.fiber fresh = none then some ((s.setFiber fresh .new).goto w (.took fresh))
            else none
      else none
  | .check w =>
      match s.pc w with
      | .took f =>
          match s.fiber f with
          | some ⟨.READY, _⟩ => some (s.goto w (.checked f))
          | _ => none
      | _ => none
  | .run w =>
      match s.pc w with
      | .checked f =>
          (s.fiber f).map fun x =>
            (s.setFiber f { x with m_state := .RUNNING }).goto w (.resuming f)
      | _ => none
  | .load w =>
      match s.pc w with
      | .resuming f =>
          (s.fiber f).map fun x =>
            { (s.setFiber f { x with saved := false }).goto w (.exec f) with
              early := s.early || !x.saved }
      | _ => none
  | .yield w =>
      match s.pc w with
      | .exec f =>
          (s.fiber f).map fun x =>
            (s.setFiber f { x with m_state := .READY }).goto w (.yielding f)
      | _ => none
  | .save w =>
      match s.pc w with
      | .yielding f =>
          (s.fiber f).map fun x => (s.setFiber f { x with saved := true }).goto w .scan
      | _ => none
  | .term w =>
      match s.pc w with
      | .exec f =>
          (s.fiber f).map fun x =>
            (s.setFiber f { x with m_state := .TERM }).goto w (.ending f)
      | _ => none
  | .leave w =>
      match s.pc w with
      | .ending _ => some (s.goto w .scan)
      | _ => none

/-! ### The invariant -/

/-- What the fiber is like that a worker holds. -/
def Fits (fiber : Nat → Option Fiber) : Pc → Prop
  | .scan => True
  | .took f => fiber f = some ⟨.READY, true⟩ ∨ ∃ saved, fiber f = some ⟨.TERM, saved⟩
  | .checked f => fiber f = some ⟨.READY, true⟩
  | .resuming f => fiber f = some ⟨.RUNNING, true⟩
  | .exec f => fiber f = some ⟨.RUNNING, false⟩
  | .yielding f => fiber f = some ⟨.READY, false⟩
  | .ending f => ∃ saved, fiber f = some ⟨.TERM, saved⟩

/-- A fiber that no worker holds has its context saved, or has ended. -/
def Settled (x : Fiber) : Prop := x = ⟨.READY, true⟩ ∨ x.m_state = .TERM

structure State.Inv (s : State n) : Prop where
  fits : ∀ w, Fits s.fiber (s.pc w)
  settled : ∀ f x, s.fiber f = some x → (∀ w, (s.pc w).holds ≠ some f) → Settled x
  /-- two workers hold one fiber only if it has ended, and one of them is about to
  fail the assertion of `resume` -/
  unique : ∀ w v f, w ≠ v → (s.pc w).holds = some f → (s.pc v).holds = some f →
    (s.pc w = .took f ∨ s.pc v = .took f) ∧ ∃ saved, s.fiber f = some ⟨.TERM, saved⟩
  queued : ∀ task ∈ s.m_tasks, ∀ f, task.fiber = some f → (s.fiber f).isSome
  on_time : s.early = false

/-- A scan does not take a fiber that is between its `READY` and its saved context,
or that another worker took and has not yet marked `RUNNING`. -/
def State.TakesSettled (s : State n) : Action n → Prop
  | .scan w _ =>
      ∀ task f, (Scheduler.scan (s.tid w) s.running s.m_tasks).task = some task →
        task.fiber = some f →
        ∀ v, s.pc v ≠ .took f ∧ s.pc v ≠ .checked f ∧ s.pc v ≠ .yielding f
  | _ => True

theorem init_inv (tid : Fin n → Int) : (init tid).Inv where
  fits := fun _ => trivial
  settled := fun _ _ h => nomatch h
  unique := fun _ _ _ _ h => nomatch h
  queued := fun _ h => nomatch h
  on_time := rfl

theorem goto_self (s : State n) (w : Fin n) (pc : Pc) : (s.goto w pc).pc w = pc :=
  Function.update_self ..

theorem goto_ne (s : State n) {w v : Fin n} (pc : Pc) (h : v ≠ w) :
    (s.goto w pc).pc v = s.pc v := Function.update_of_ne h ..

theorem setFiber_self (s : State n) (f : Nat) (x : Fiber) : (s.setFiber f x).fiber f = some x :=
  Function.update_self ..

theorem setFiber_ne (s : State n) {f g : Nat} (x : Fiber) (h : g ≠ f) :
    (s.setFiber f x).fiber g = s.fiber g := Function.update_of_ne h ..

/-- A worker is not concerned by the fibers it does not hold. -/
theorem fits_update {fiber : Nat → Option Fiber} {pc : Pc} {f : Nat} {y : Option Fiber}
    (h : pc.holds ≠ some f) : Fits (Function.update fiber f y) pc ↔ Fits fiber pc := by
  cases pc with
  | scan => exact Iff.rfl
  | took g | checked g | resuming g | exec g | yielding g | ending g =>
      have hne : g ≠ f := fun e => h (congrArg some e)
      simp only [Fits, Function.update_of_ne hne]

/-- A fiber that has not ended has at most one holder. -/
theorem State.Inv.alone {s : State n} (h : s.Inv) {w : Fin n} {f : Nat} {x : Fiber}
    (hw : (s.pc w).holds = some f) (hx : s.fiber f = some x) (hterm : x.m_state ≠ .TERM) :
    ∀ v, v ≠ w → (s.pc v).holds ≠ some f := by
  intro v hv hheld
  obtain ⟨-, saved, hf⟩ := h.unique v w f hv hheld hw
  rw [hx] at hf
  cases hf
  exact hterm rfl

/-- The only holder of a fiber changes it, and keeps it or leaves it settled. -/
theorem State.Inv.move {s : State n} (h : s.Inv) {w : Fin n} {f : Nat} {x' : Fiber} {pc' : Pc}
    (hw : (s.pc w).holds = some f) (halone : ∀ v, v ≠ w → (s.pc v).holds ≠ some f)
    (hfits : Fits (s.setFiber f x').fiber pc')
    (hpc' : pc'.holds = some f ∨ pc'.holds = none ∧ Settled x') :
    Inv ((s.setFiber f x').goto w pc') where
  fits := by
    intro v
    by_cases hv : v = w
    · subst hv
      rw [goto_self]
      exact hfits
    · rw [goto_ne _ _ hv]
      exact (fits_update (halone v hv)).mpr (h.fits v)
  settled := by
    intro g x hg hfree
    have hfree' : ∀ v, v ≠ w → (s.pc v).holds ≠ some g := by
      intro v hv
      have := hfree v
      rwa [goto_ne _ _ hv] at this
    have hfw := hfree w
    rw [goto_self] at hfw
    by_cases hgf : g = f
    · subst hgf
      obtain rfl : x' = x := by
        have hsame : (s.setFiber g x').fiber g = some x := hg
        rw [setFiber_self] at hsame
        exact Option.some.inj hsame
      exact (hpc'.resolve_left hfw).2
    · have hgs : s.fiber g = some x := by
        have hsame : (s.setFiber f x').fiber g = some x := hg
        rwa [setFiber_ne _ _ hgf] at hsame
      refine h.settled g x hgs fun v => ?_
      by_cases hv : v = w
      · subst hv
        rw [hw]
        exact fun e => hgf (Option.some.inj e).symm
      · exact hfree' v hv
  unique := by
    intro u v g huv hu hv
    -- a second holder of the fiber that moved would have held it before
    have hothers : ∀ u v, u ≠ v → u = w → ((s.setFiber f x').goto w pc').pc u = pc' →
        pc'.holds = some g → ((s.setFiber f x').goto w pc').pc v = s.pc v →
        (s.pc v).holds = some g → False := by
      intro u v huv huw _ hg _ hvg
      have hgf : g = f := by
        rcases hpc' with hpc' | ⟨hpc', -⟩
        · exact Option.some.inj (hg.symm.trans hpc')
        · rw [hpc'] at hg; cases hg
      exact halone v (fun e => huv (huw.trans e.symm)) (hgf ▸ hvg)
    by_cases huw : u = w
    · have hvw : v ≠ w := fun e => huv (huw.trans e.symm)
      rw [goto_ne _ _ hvw] at hv
      rw [huw, goto_self] at hu
      exact (hothers w v (Ne.symm hvw) rfl (goto_self ..) hu (goto_ne _ _ hvw) hv).elim
    · rw [goto_ne _ _ huw] at hu ⊢
      by_cases hvw : v = w
      · rw [hvw, goto_self] at hv
        exact (hothers w u (Ne.symm huw) rfl (goto_self ..) hv (goto_ne _ _ huw) hu).elim
      · rw [goto_ne _ _ hvw] at hv ⊢
        have hgf : g ≠ f := by
          rintro rfl
          exact halone u huw hu
        obtain ⟨hpc, saved, hg⟩ := h.unique u v g huv hu hv
        refine ⟨hpc, saved, ?_⟩
        show (s.setFiber f x').fiber g = _
        rw [setFiber_ne _ _ hgf]
        exact hg
  queued := by
    intro task hm g hg
    show ((s.setFiber f x').fiber g).isSome
    by_cases hgf : g = f
    · subst hgf; rw [setFiber_self]; rfl
    · rw [setFiber_ne _ _ hgf]
      exact h.queued task hm g hg
  on_time := h.on_time

theorem setFiber_eq_self {s : State n} {f : Nat} {x : Fiber} (h : s.fiber f = some x) :
    s.setFiber f x = s := by
  unfold setFiber
  rw [← h, Function.update_eq_self]

/-- A held fiber exists. -/
theorem State.Inv.held_some {s : State n} (h : s.Inv) {w : Fin n} {f : Nat}
    (hw : (s.pc w).holds = some f) : ∃ x, s.fiber f = some x := by
  have hfits := h.fits w
  revert hw hfits
  cases s.pc w with
  | scan => intro hw; cases hw
  | took g =>
      intro hw hfits
      cases hw
      rcases hfits with hg | ⟨saved, hg⟩ <;> exact ⟨_, hg⟩
  | checked g | resuming g | exec g | yielding g =>
      intro hw hfits
      cases hw
      exact ⟨_, hfits⟩
  | ending g =>
      intro hw hfits
      cases hw
      obtain ⟨saved, hg⟩ := hfits
      exact ⟨_, hg⟩

theorem State.Inv.tasks {s : State n} (h : s.Inv) {m_tasks : List ScheduleTask}
    (hqueued : ∀ task ∈ m_tasks, ∀ f, task.fiber = some f → (s.fiber f).isSome) :
    Inv { s with m_tasks := m_tasks } :=
  ⟨h.fits, h.settled, h.unique, hqueued, h.on_time⟩

theorem State.Inv.create {s : State n} (h : s.Inv) {f : Nat} (hf : s.fiber f = none) :
    (s.setFiber f .new).Inv where
  fits := by
    intro w
    refine (fits_update fun hw => ?_).mpr (h.fits w)
    obtain ⟨x, hx⟩ := h.held_some hw
    rw [hf] at hx
    cases hx
  settled := by
    intro g x hg hfree
    by_cases hgf : g = f
    · subst hgf
      rw [setFiber_self] at hg
      cases hg
      exact .inl rfl
    · rw [setFiber_ne _ _ hgf] at hg
      exact h.settled g x hg hfree
  unique := by
    intro w v g hwv hw hv
    obtain ⟨hpc, saved, hg⟩ := h.unique w v g hwv hw hv
    refine ⟨hpc, saved, ?_⟩
    rw [setFiber_ne _ _ (by rintro rfl; rw [hf] at hg; cases hg)]
    exact hg
  queued := by
    intro task hm g hg
    by_cases hgf : g = f
    · subst hgf; rw [setFiber_self]; rfl
    · rw [setFiber_ne _ _ hgf]
      exact h.queued task hm g hg
  on_time := h.on_time

/-- A worker takes a fiber that is settled, and that nobody else holds unless it
has ended. -/
theorem State.Inv.take {s : State n} (h : s.Inv) {w : Fin n} {f : Nat} {x : Fiber}
    (hw : s.pc w = .scan) (hf : s.fiber f = some x) (hsettled : Settled x)
    (hfree : x.m_state ≠ .TERM → ∀ v, (s.pc v).holds ≠ some f) : (s.goto w (.took f)).Inv where
  fits := by
    intro v
    by_cases hv : v = w
    · subst hv
      rw [goto_self]
      rcases hsettled with rfl | hterm
      · exact .inl hf
      · refine .inr ⟨x.saved, ?_⟩
        show s.fiber f = _
        rw [hf, ← hterm]
    · rw [goto_ne _ _ hv]
      exact h.fits v
  settled := by
    intro g y hg hfree'
    refine h.settled g y hg fun v => ?_
    by_cases hv : v = w
    · subst hv
      rw [hw]
      exact fun e => nomatch e
    · have := hfree' v
      rwa [goto_ne _ _ hv] at this
  unique := by
    -- who already holds the fiber taken shows that it has ended
    have hended : ∀ v, v ≠ w → (s.pc v).holds = some f →
        ∃ saved, s.fiber f = some ⟨.TERM, saved⟩ := by
      intro v hv hheld
      by_cases hterm : x.m_state = .TERM
      · exact ⟨x.saved, by rw [hf, ← hterm]⟩
      · exact absurd hheld (hfree hterm v)
    intro u v g huv hu hv
    by_cases huw : u = w
    · have hvw : v ≠ w := fun e => huv (huw.trans e.symm)
      rw [huw, goto_self] at hu ⊢
      obtain rfl : f = g := Option.some.inj hu
      rw [goto_ne _ _ hvw] at hv
      exact ⟨.inl rfl, hended v hvw hv⟩
    · rw [goto_ne _ _ huw] at hu ⊢
      by_cases hvw : v = w
      · rw [hvw, goto_self] at hv ⊢
        obtain rfl : f = g := Option.some.inj hv
        exact ⟨.inr rfl, hended u huw hu⟩
      · rw [goto_ne _ _ hvw] at hv ⊢
        exact h.unique u v g huv hu hv
  queued := h.queued
  on_time := h.on_time

/-- A worker leaves a fiber that has ended. -/
theorem State.Inv.leave {s : State n} (h : s.Inv) {w : Fin n} {f : Nat}
    (hw : s.pc w = .ending f) : (s.goto w .scan).Inv where
  fits := by
    intro v
    by_cases hv : v = w
    · subst hv; rw [goto_self]; trivial
    · rw [goto_ne _ _ hv]; exact h.fits v
  settled := by
    intro g x hg hfree
    by_cases hgf : g = f
    · -- the fiber that nobody holds any more has ended
      subst hgf
      have hfits := h.fits w
      rw [hw] at hfits
      obtain ⟨saved, hfits⟩ := hfits
      rw [show s.fiber g = some x from hg] at hfits
      cases hfits
      exact .inr rfl
    · refine h.settled g x hg fun v => ?_
      by_cases hv : v = w
      · subst hv
        rw [hw]
        exact fun e => hgf (Option.some.inj e).symm
      · have := hfree v
        rwa [goto_ne _ _ hv] at this
  unique := by
    intro u v g huv hu hv
    by_cases huw : u = w
    · rw [huw, goto_self] at hu; cases hu
    · rw [goto_ne _ _ huw] at hu ⊢
      by_cases hvw : v = w
      · rw [hvw, goto_self] at hv; cases hv
      · rw [goto_ne _ _ hvw] at hv ⊢
        exact h.unique u v g huv hu hv
  queued := h.queued
  on_time := h.on_time

/-! ### Each step -/

/-- The fiber a scan takes: not `RUNNING`, and, if the scan takes settled fibers,
held by nobody unless it has ended. -/
theorem taken_free {s : State n} (h : s.Inv) {f : Nat} {x : Fiber} (hf : s.fiber f = some x)
    (hrun : s.running f = false)
    (hgood : ∀ v, s.pc v ≠ .took f ∧ s.pc v ≠ .checked f ∧ s.pc v ≠ .yielding f) :
    Settled x ∧ (x.m_state ≠ .TERM → ∀ v, (s.pc v).holds ≠ some f) := by
  have hnot : x.m_state ≠ .RUNNING := by
    intro hx
    unfold State.running at hrun
    rw [hf, Option.elim_some, hx] at hrun
    cases hrun
  have hfree : x.m_state ≠ .TERM → ∀ v, (s.pc v).holds ≠ some f := by
    intro hterm v hheld
    have hfits := h.fits v
    obtain ⟨htook, hchecked, hyielding⟩ := hgood v
    rcases hpc : s.pc v with _ | g | g | g | g | g | g
    all_goals rw [hpc] at hheld hfits htook hchecked hyielding
    all_goals first | (cases hheld; done) | obtain rfl : g = f := Option.some.inj hheld
    · exact htook rfl
    · exact hchecked rfl
    · rw [Fits, hf] at hfits; cases hfits; exact hnot rfl
    · rw [Fits, hf] at hfits; cases hfits; exact hnot rfl
    · exact hyielding rfl
    · obtain ⟨saved, hfits⟩ := hfits
      rw [hf] at hfits; cases hfits; exact hterm rfl
  refine ⟨?_, hfree⟩
  by_cases hterm : x.m_state = .TERM
  · exact .inr hterm
  · exact h.settled f x hf (hfree hterm)

theorem scan_inv {s t : State n} (h : s.Inv) {w : Fin n} {fresh : Nat}
    (hgood : s.TakesSettled (.scan w fresh)) (hs : step s (.scan w fresh) = some t) : t.Inv := by
  have hpc : s.pc w = .scan := by
    by_contra hne
    rw [step, if_neg hne] at hs
    cases hs
  rw [step, if_pos hpc] at hs
  have hrest : Inv { s with
      m_tasks := (Scheduler.scan (s.tid w) s.running s.m_tasks).m_tasks } :=
    h.tasks fun task hm => h.queued task (scan_subset _ task hm)
  simp only at hs
  split at hs
  · cases hs
    exact hrest
  · rename_i f cb thread htask
    cases hs
    obtain ⟨htakable, hmem⟩ := scan_some htask
    obtain ⟨x, hf⟩ := Option.isSome_iff_exists.mp (h.queued _ hmem f rfl)
    obtain ⟨hsettled, hfree⟩ := taken_free h hf htakable.2 (hgood _ f htask rfl)
    exact hrest.take hpc hf hsettled hfree
  · rename_i cb thread htask
    split_ifs at hs with hfresh
    cases hs
    refine (hrest.create hfresh).take hpc (setFiber_self _ _ _) (.inl rfl) fun _ v hv => ?_
    obtain ⟨x, hx⟩ := h.held_some (show (s.pc v).holds = some fresh from hv)
    rw [hx] at hfresh
    cases hfresh

theorem step_inv {s t : State n} {a : Action n} (h : s.Inv) (hgood : s.TakesSettled a)
    (hs : step s a = some t) : t.Inv := by
  cases a with
  | create f =>
      simp only [step] at hs
      split_ifs at hs with hf
      cases hs
      exact h.create hf
  | schedule task =>
      simp only [step] at hs
      split_ifs at hs with htask
      cases hs
      -- only the queue changes: its tasks are the old ones and this one, whose fiber exists
      refine h.tasks fun task' hm f hf => ?_
      rcases mem_scheduleNoLock hm with hold | rfl
      · exact h.queued task' hold f hf
      · rw [hf] at htask
        exact htask
  | scan w fresh => exact scan_inv h hgood hs
  | check w =>
      simp only [step] at hs
      split at hs
      · rename_i f hpc
        split at hs
        · rename_i saved hf
          cases hs
          have hheld : (s.pc w).holds = some f := by rw [hpc]; rfl
          have hfits := h.fits w
          rw [hpc, Fits, hf] at hfits
          -- a fiber that has ended does not pass the assertion, so this one is ready and saved
          obtain rfl : saved = true := by
            rcases hfits with hfits | ⟨_, hfits⟩ <;> cases hfits
            rfl
          rw [← setFiber_eq_self hf]
          exact h.move hheld (h.alone hheld hf (by decide)) (setFiber_self _ _ _) (.inl rfl)
        · cases hs
      · cases hs
  | run w =>
      simp only [step] at hs
      split at hs
      · rename_i f hpc
        have hheld : (s.pc w).holds = some f := by rw [hpc]; rfl
        have hf := h.fits w
        rw [hpc] at hf
        obtain ⟨x, hx, rfl⟩ := Option.map_eq_some_iff.mp hs
        obtain rfl : x = ⟨.READY, true⟩ := Option.some.inj (hx.symm.trans hf)
        exact h.move hheld (h.alone hheld hf (by decide)) (setFiber_self _ _ _) (.inl rfl)
      · cases hs
  | load w =>
      simp only [step] at hs
      split at hs
      · rename_i f hpc
        have hheld : (s.pc w).holds = some f := by rw [hpc]; rfl
        have hf := h.fits w
        rw [hpc] at hf
        obtain ⟨x, hx, rfl⟩ := Option.map_eq_some_iff.mp hs
        obtain rfl : x = ⟨.RUNNING, true⟩ := Option.some.inj (hx.symm.trans hf)
        -- what is loaded was saved, so `early` stays false
        have hmoved := h.move hheld (h.alone hheld hf (by decide))
          (show Fits (s.setFiber f ⟨.RUNNING, false⟩).fiber (.exec f) from setFiber_self _ _ _)
          (.inl rfl)
        exact ⟨hmoved.fits, hmoved.settled, hmoved.unique, hmoved.queued, by
          show (s.early || !true) = false
          rw [h.on_time]
          rfl⟩
      · cases hs
  | yield w =>
      simp only [step] at hs
      split at hs
      · rename_i f hpc
        have hheld : (s.pc w).holds = some f := by rw [hpc]; rfl
        have hf := h.fits w
        rw [hpc] at hf
        obtain ⟨x, hx, rfl⟩ := Option.map_eq_some_iff.mp hs
        obtain rfl : x = ⟨.RUNNING, false⟩ := Option.some.inj (hx.symm.trans hf)
        exact h.move hheld (h.alone hheld hf (by decide)) (setFiber_self _ _ _) (.inl rfl)
      · cases hs
  | save w =>
      simp only [step] at hs
      split at hs
      · rename_i f hpc
        have hheld : (s.pc w).holds = some f := by rw [hpc]; rfl
        have hf := h.fits w
        rw [hpc] at hf
        obtain ⟨x, hx, rfl⟩ := Option.map_eq_some_iff.mp hs
        obtain rfl : x = ⟨.READY, false⟩ := Option.some.inj (hx.symm.trans hf)
        exact h.move hheld (h.alone hheld hf (by decide)) trivial (.inr ⟨rfl, .inl rfl⟩)
      · cases hs
  | term w =>
      simp only [step] at hs
      split at hs
      · rename_i f hpc
        have hheld : (s.pc w).holds = some f := by rw [hpc]; rfl
        have hf := h.fits w
        rw [hpc] at hf
        obtain ⟨x, hx, rfl⟩ := Option.map_eq_some_iff.mp hs
        obtain rfl : x = ⟨.RUNNING, false⟩ := Option.some.inj (hx.symm.trans hf)
        exact h.move hheld (h.alone hheld hf (by decide)) ⟨false, setFiber_self _ _ _⟩ (.inl rfl)
      · cases hs
  | leave w =>
      simp only [step] at hs
      split at hs
      · rename_i f hpc
        cases hs
        exact h.leave hpc
      · cases hs

/-! ### Runs -/

/-- No context has been loaded before it was saved, and no fiber is executed by two
workers. -/
def OnePlace (s : State n) : Prop :=
  s.early = false ∧
    ∀ w v f, (s.pc w).executes = some f → (s.pc v).executes = some f → w = v

theorem State.Inv.onePlace {s : State n} (h : s.Inv) : OnePlace s := by
  refine ⟨h.on_time, fun w v f hw hv => ?_⟩
  have hholds : ∀ pc : Pc, pc.executes = some f → pc.holds = some f ∧ pc ≠ .took f := by
    intro pc
    cases pc <;> intro he <;> cases he <;> exact ⟨rfl, fun e => nomatch e⟩
  by_contra hwv
  obtain ⟨hpc | hpc, -⟩ := h.unique w v f hwv (hholds _ hw).1 (hholds _ hv).1
  · exact (hholds _ hw).2 hpc
  · exact (hholds _ hv).2 hpc

/-- **A fiber is in one place** in runs whose scans take settled fibers, for any
number of workers. -/
theorem one_place {tid : Fin n → Int} {s : State n}
    (h : Lts.Reach step TakesSettled (init tid) s) : OnePlace s :=
  (h.invariant (I := Inv) (init_inv tid) fun _ _ _ hs hgood => step_inv hs hgood).onePlace

/-- Worker 0 takes fiber 1 off the queue and resumes it. -/
theorem one_place_first :
    ∃ s, Lts.run step [.create 1, .schedule ⟨some 1, none, -1⟩, .scan 0 0, .check 0, .run 0,
        .load 0] (init fun _ : Fin 2 => 1) = some s ∧ OnePlace s :=
  ⟨_, rfl, one_place (.step (.load 0) (.step (.run 0) (.step (.check 0) (.step (.scan 0 0)
    (.step (.schedule ⟨some 1, none, -1⟩) (.step (.create 1) .init trivial rfl) trivial rfl)
    (fun _ _ _ _ _ => ⟨nofun, nofun, nofun⟩) rfl) trivial rfl) trivial rfl) trivial rfl)⟩

/-- Worker 0 runs fiber 1, which is scheduled again while it runs. -/
def runOne : List (Action 2) :=
  [.create 1, .schedule ⟨some 1, none, -1⟩, .scan 0 0, .check 0, .run 0, .load 0,
    .schedule ⟨some 1, none, -1⟩]

/-- **A context is loaded before it is saved**: fiber 1 stores `READY`, and worker 1
takes and resumes it before worker 0 has saved its context. -/
theorem loaded_before_saved :
    ¬ ∀ (n : Nat) (tid : Fin n → Int) (s : State n),
      Lts.Reach step Lts.Any (init tid) s → OnePlace s := by
  intro h
  obtain ⟨s, hs⟩ : ∃ s, Lts.run step
      (runOne ++ [.yield 0, .scan 1 0, .check 1, .run 1, .load 1]) (init fun _ => 1) = some s :=
    ⟨_, rfl⟩
  have hearly := (h 2 _ s (Lts.reach_of_run hs)).1
  cases hs
  exact absurd hearly (by decide)

end Fibers

end Scheduler

end Will
