/-
ZjhServer/Scheduler/Pool.lean

The steps of `start`, `stop` and `Thread::run` keep the pool of a scheduler orderly.

No thread of the pool gets at the queue before `start` has released the lock, and the lock
and the semaphores of the new threads cannot block each other (`start_returns`).  Whatever
calls of `start` and `stop` there are and however they interleave, each thread is joined by
one of them, once, and none is left behind (`pool_orderly`).

A constructor whose `sem_wait` is interrupted throws, and the new thread is left with a
pointer to an object that is gone (`interrupted_dangles`); the results are about runs in
which none is.
-/
import ZjhServer.Scheduler.Threads

namespace Will

namespace Scheduler

namespace Threads

variable {cfg : Config} {s t : State}

/-! ### Steps of `start` -/

/-- A `stop` that is on its way stays so while others move. -/
theorem Inv.pending_goto (h : Inv cfg s) (ha : s.aborted = none) {c : Nat}
    (hc : s.pc c ≠ .resume ∧ s.pc c ≠ .swap) (p : Pc) (hs : s.m_stopping = true) :
    s.m_threads = [] ∧ (∀ c, (s.pc c).building = false) ∨
      ∃ c', Function.update s.pc c p c' = .resume ∨ Function.update s.pc c p c' = .swap := by
  refine (h.pending ha hs).imp_right fun ⟨c', hc'⟩ => ⟨c', ?_⟩
  have hne : c' ≠ c := by
    rintro rfl
    exact hc'.elim hc.1 hc.2
  rwa [Function.update_of_ne hne]

theorem Inv.marked_goto (h : Inv cfg s) (c : Nat) {p : Pc} (hp : p.marked = false) (c' : Nat)
    (hc' : (Function.update s.pc c p c').marked = true) : s.m_stopping = true := by
  rcases eq_or_ne c' c with rfl | hne
  · rw [Function.update_self, hp] at hc'
    cases hc'
  · rw [Function.update_of_ne hne] at hc'
    exact h.marked c' hc'

/-- A caller that is not busy and has nothing to do with the lock moves. -/
theorem Inv.walked (h : Inv cfg s) (ha : s.aborted = none) {c : Nat} {p : Pc}
    (hbusy : (s.pc c).busy = false) (hp : p.busy = false) (hholds : (s.pc c).holds = false)
    (hp' : p.holds = false) (hmarked : p.marked = true → s.m_stopping = true)
    (hc : s.pc c ≠ .resume ∧ s.pc c ≠ .swap) : Inv cfg (s.goto c p) := by
  refine @Inv.moved cfg s h c p s.m_mutex s.m_stopping hbusy hp ?_ (fun _ _ => Iff.rfl) id
    hmarked (h.pending_goto ha hc p)
  rw [hp', ← h.mutex c, hholds]

/-- The lock is free, so nobody is in the loop. -/
theorem Inv.unlocked (h : Inv cfg s) (hmutex : s.m_mutex = none) (c : Nat) :
    (s.pc c).building = false := by
  by_contra hb
  have hheld := (h.mutex c).mp (holds_of_building (Bool.not_eq_false _ ▸ hb))
  rw [hmutex] at hheld
  cases hheld

/-- Nothing has been made yet where `start` finds `m_threads` empty and no `stop`. -/
theorem Inv.first (h : Inv cfg s) {c : Nat} (hpc : s.pc c = .locked) (hstop : s.m_stopping = false)
    (hthreads : s.m_threads = []) :
    s.created = 0 ∧ s.m_threadIds = ids cfg 0 ∧ s.joined = [] ∧ Quiet s none := by
  have hother : ∀ c' p, s.pc c' = p → p.building = false := by
    rintro c' _ rfl
    by_contra hb
    have hheld := (h.mutex c').mp (holds_of_building (Bool.not_eq_false _ ▸ hb))
    have hmine := (h.mutex c).mp (by rw [hpc]; rfl)
    obtain rfl := Option.some.inj (hheld.symm.trans hmine)
    rw [hpc] at hb
    exact hb rfl
  cases h.stage with
  | fresh h₁ _ h₃ h₄ h₅ => exact ⟨h₁, h₃, h₄, h₅⟩
  | create c' i hpc' | wait c' i hpc' | push c' i hpc' => cases hother c' _ hpc'
  | pooled h₁ h₂ h₃ h₄ h₅ =>
      have hlen := length_slots h₁
      rw [← h₂, hthreads] at hlen
      have hzero : s.created = 0 := by
        rw [List.length_nil] at hlen
        omega
      rw [hzero] at h₃
      exact ⟨hzero, h₃, h₄, h₅⟩
  | handed _ _ _ _ _ _ _ hs | gone _ _ _ hs =>
      rw [hstop] at hs
      cases hs

theorem Inv.test (h : Inv cfg s) {c : Nat} (hpc : s.pc c = .locked) (hstop : s.m_stopping = false)
    (hthreads : s.m_threads = []) :
    Inv cfg { s.goto c (.create 0) with m_threads := List.replicate cfg.m_threadCount none } := by
  obtain ⟨hcreated, hids, hjoined, hquiet⟩ := h.first hpc hstop hthreads
  have hnone : ∀ k, ¬ k < s.created := fun k hk => Nat.not_lt_zero k (hcreated ▸ hk)
  have hmine := (h.mutex c).mp (by rw [hpc]; rfl)
  have hself : Function.update s.pc c (.create 0) c = .create 0 := Function.update_self ..
  refine {
    mutex := fun c' => ?_
    stage := .create c 0 hself (Nat.zero_le _) hcreated rfl hids hjoined
      (quiet_goto hquiet (.inr rfl) _)
    made := fun k hk => absurd hk (hnone k)
    sem := fun c' i k heq => ?_
    posted := fun k hk => absurd hk (hnone k)
    thread := fun k hk => absurd hk (hnone k)
    ended := h.ended
    destroyed := fun k hk => absurd hk (hnone k)
    scans := fun k hk => absurd hk (hnone k)
    pending := fun _ hs => ?_
    marked := h.marked_goto c rfl
    null := h.null
    live := h.live }
  · show (Function.update s.pc c (.create 0) c').holds = true ↔ s.m_mutex = some c'
    rcases eq_or_ne c' c with rfl | hne
    · rw [hself]
      exact iff_of_true rfl hmine
    · rw [Function.update_of_ne hne]
      exact h.mutex c'
  · have heq' : Function.update s.pc c (.create 0) c' = .wait i k := heq
    rcases eq_or_ne c' c with rfl | hne
    · rw [hself] at heq'
      cases heq'
    · rw [Function.update_of_ne hne] at heq'
      exact h.sem c' i k heq'
  · have hs' : s.m_stopping = true := hs
    rw [hstop] at hs'
    cases hs'

/-- The only caller that can be at a wait. -/
theorem wait_self {c : Nat} (hquiet : Quiet s (some c)) {p : Pc} {c' i k : Nat}
    (heq : Function.update s.pc c p c' = .wait i k) : c' = c ∧ p = .wait i k := by
  rcases eq_or_ne c' c with rfl | hne
  · rw [Function.update_self] at heq
    exact ⟨rfl, heq⟩
  · rw [Function.update_of_ne hne] at heq
    have hidle := hquiet c' fun h => hne (Option.some.inj h).symm
    rw [heq] at hidle
    cases hidle

/-- The lock stays with a caller that goes on in the loop. -/
theorem Inv.mutex_goto (h : Inv cfg s) {c : Nat} {p : Pc} (hc : (s.pc c).building = true)
    (hp : p.building = true) (c' : Nat) :
    (Function.update s.pc c p c').holds = true ↔ s.m_mutex = some c' := by
  rcases eq_or_ne c' c with rfl | hne
  · rw [Function.update_self, ← h.mutex]
    exact iff_of_true (holds_of_building hp) (holds_of_building hc)
  · rw [Function.update_of_ne hne]
    exact h.mutex c'

/-- No thread gets at the queue while a caller is in the loop. -/
theorem Inv.unscanned (h : Inv cfg s) {c : Nat} (hc : (s.pc c).building = true) {k : Nat}
    (hk : k < s.created) : (s.run k).scans = false := by
  by_contra hscan
  rw [h.scans k hk (Bool.not_eq_false _ ▸ hscan) c] at hc
  cases hc

/-- A caller in the loop is not on its way through `stop`. -/
theorem Inv.pending_loop (h : Inv cfg s) (ha : s.aborted = none) {c : Nat}
    (hc : (s.pc c).building = true) (p : Pc) (hs : s.m_stopping = true) :
    ∃ c', Function.update s.pc c p c' = .resume ∨ Function.update s.pc c p c' = .swap := by
  have hne : s.pc c ≠ .resume ∧ s.pc c ≠ .swap := by
    constructor <;> intro heq <;> rw [heq] at hc <;> cases hc
  refine (h.pending_goto ha hne p hs).resolve_left fun hleft => ?_
  rw [hleft.2 c] at hc
  cases hc

theorem Inv.create (h : Inv cfg s) (ha : s.aborted = none) {c i : Nat} (hpc : s.pc c = .create i)
    (hi : i ≠ cfg.m_threadCount) :
    Inv cfg { s.goto c (.wait i s.created) with
      heap := Function.update s.heap s.created .new
      run := Function.update s.run s.created .entry
      created := s.created + 1 } := by
  have hc : (s.pc c).building = true := by rw [hpc]; rfl
  obtain ⟨hquiet, hjoined, hstage⟩ := h.stage.of_building hc
  simp only [hpc, Pc.create.injEq, reduceCtorEq, false_and, exists_false, or_false] at hstage
  obtain ⟨i, rfl, hle, hcreated, hthreads, hids⟩ := hstage
  have hother : ∀ k, k < s.created + 1 → k ≠ s.created → k < s.created :=
    fun k hk hne => by omega
  have hposted : ∀ k < s.created, (s.run k).posted = true := fun k hk =>
    (h.posted k hk).resolve_right fun ⟨c', i', heq⟩ => by
      have hbusy : (s.pc c').busy = true := by rw [heq]; rfl
      obtain rfl := Option.some.inj (hquiet.same hbusy)
      rw [hpc] at heq
      cases heq
  refine {
    mutex := h.mutex_goto hc rfl
    stage := .wait c i ?_ (Nat.lt_of_le_of_ne hle hi) (congrArg (· + 1) hcreated) hthreads hids
      hjoined (quiet_goto hquiet (.inl rfl) _)
    made := fun k hk => ?_, sem := fun c' i' k heq => ?_, posted := fun k hk => ?_
    thread := fun k hk => ?_, ended := fun k hk => ?_, destroyed := fun k hk hdead => ?_
    scans := fun k hk hscan => ?_
    pending := fun _ hs => .inr (h.pending_loop ha hc _ hs)
    marked := h.marked_goto c rfl
    null := fun hnull => ?_, live := h.live }
  all_goals dsimp only [State.goto] at *
  · rw [Function.update_self, hcreated]
  · rcases eq_or_ne k s.created with rfl | hne
    · rw [Function.update_self]
      exact ⟨fun hentry => absurd rfl hentry, fun hentry => absurd rfl hentry⟩
    · rw [Function.update_of_ne hne, Function.update_of_ne hne]
      exact h.made k (hother k hk hne)
  · obtain ⟨-, hwait⟩ := wait_self hquiet heq
    cases hwait
    rw [Function.update_self, Function.update_self]
    rfl
  · rcases eq_or_ne k s.created with rfl | hne
    · exact .inr ⟨c, i, Function.update_self ..⟩
    · rw [Function.update_of_ne hne]
      exact .inl (hposted k (hother k hk hne))
  · rw [hjoined]
    rcases eq_or_ne k s.created with rfl | hne
    · rw [Function.update_self]
      exact iff_of_true rfl List.not_mem_nil
    · rw [Function.update_of_ne hne, ← hjoined]
      exact h.thread k (hother k hk hne)
  · rw [hjoined] at hk
    exact absurd hk List.not_mem_nil
  · rcases eq_or_ne k s.created with rfl | hne
    · rw [Function.update_self] at hdead
      cases hdead
    · rw [Function.update_of_ne hne] at hdead ⊢
      exact h.destroyed k (hother k hk hne) hdead
  · rcases eq_or_ne k s.created with rfl | hne
    · rw [Function.update_self] at hscan
      cases hscan
    · rw [Function.update_of_ne hne, h.unscanned hc (hother k hk hne)] at hscan
      cases hscan
  · rw [ha] at hnull
    cases hnull

theorem ids_succ (i : Nat) : ids cfg (i + 1) = ids cfg i ++ [cfg.tid i] := by
  rw [ids, ids, List.range_succ, List.map_append, List.append_assoc]
  rfl

/-- The constructor returns. -/
theorem Inv.wait (h : Inv cfg s) (ha : s.aborted = none) {c i k : Nat} (hpc : s.pc c = .wait i k)
    (hsem : (s.heap k).m_semaphore ≠ 0) :
    Inv cfg { s.goto c (.push i k) with
      heap := Function.update s.heap k
        { s.heap k with m_semaphore := (s.heap k).m_semaphore - 1 }
      m_threads := s.m_threads.set i (some k) } := by
  have hc : (s.pc c).building = true := by rw [hpc]; rfl
  obtain ⟨hquiet, hjoined, hstage⟩ := h.stage.of_building hc
  simp only [hpc, Pc.wait.injEq, reduceCtorEq, false_and, exists_false, false_or, or_false]
    at hstage
  obtain ⟨i, ⟨rfl, rfl⟩, hlt, hcreated, hthreads, hids⟩ := hstage
  -- the new thread has posted the semaphore
  have hposted : (s.run k).posted = true := by
    by_contra hno
    rw [h.sem c k k hpc, Bool.eq_false_iff.mpr hno] at hsem
    exact hsem rfl
  refine {
    mutex := h.mutex_goto hc rfl
    stage := .push c k (Function.update_self ..) hlt hcreated ?_ hids hjoined
      (quiet_goto hquiet (.inl rfl) _)
    made := fun j hj => ?_, sem := fun c' i' j heq => ?_, posted := fun j hj => ?_
    thread := fun j hj => ?_, ended := h.ended, destroyed := fun j hj hdead => ?_
    scans := fun j hj hscan => ?_
    pending := fun _ hs => .inr (h.pending_loop ha hc _ hs)
    marked := h.marked_goto c rfl
    null := fun hnull => ?_, live := h.live }
  all_goals dsimp only [State.goto] at *
  · rw [hthreads, slots_set hlt]
  · rcases eq_or_ne j k with rfl | hne
    · rw [Function.update_self]
      exact h.made j hj
    · rw [Function.update_of_ne hne]
      exact h.made j hj
  · cases (wait_self hquiet heq).2
  · refine (h.posted j hj).elim .inl fun ⟨c', i', heq⟩ => .inl ?_
    have hbusy : (s.pc c').busy = true := by rw [heq]; rfl
    obtain rfl := Option.some.inj (hquiet.same hbusy)
    rw [hpc] at heq
    cases heq
    exact hposted
  · rcases eq_or_ne j k with rfl | hne
    · rw [Function.update_self]
      exact h.thread j hj
    · rw [Function.update_of_ne hne]
      exact h.thread j hj
  · rcases eq_or_ne j k with rfl | hne
    · rw [Function.update_self] at hdead
      exact h.destroyed j hj hdead
    · rw [Function.update_of_ne hne] at hdead
      exact h.destroyed j hj hdead
  · rw [h.unscanned hc hj] at hscan
    cases hscan
  · rw [ha] at hnull
    cases hnull

theorem Inv.push (h : Inv cfg s) (ha : s.aborted = none) {c i k : Nat} (hpc : s.pc c = .push i k) :
    Inv cfg { s.goto c (.create (i + 1)) with
      m_threadIds := s.m_threadIds ++ [(s.heap k).m_id] } := by
  have hc : (s.pc c).building = true := by rw [hpc]; rfl
  obtain ⟨hquiet, hjoined, hstage⟩ := h.stage.of_building hc
  simp only [hpc, Pc.push.injEq, reduceCtorEq, false_and, exists_false, false_or] at hstage
  obtain ⟨i, ⟨rfl, rfl⟩, hlt, hcreated, hthreads, hids⟩ := hstage
  have hk : k < s.created := by omega
  have hnowait : ∀ c' i' j, s.pc c' ≠ .wait i' j := fun c' i' j heq => by
    have hbusy : (s.pc c').busy = true := by rw [heq]; rfl
    obtain rfl := Option.some.inj (hquiet.same hbusy)
    rw [hpc] at heq
    cases heq
  have hposted : ∀ j < s.created, (s.run j).posted = true := fun j hj =>
    (h.posted j hj).resolve_right fun ⟨c', i', heq⟩ => hnowait c' i' j heq
  -- so the object has its id
  have hid : (s.heap k).m_id = cfg.tid k := (h.made k hk).1 fun hentry => by
    have hmine := hposted k hk
    rw [hentry] at hmine
    cases hmine
  refine { h with
    mutex := h.mutex_goto hc rfl
    stage := .create c (k + 1) (Function.update_self ..) hlt hcreated hthreads ?_ hjoined
      (quiet_goto hquiet (.inl rfl) _)
    sem := fun c' i' j heq => (nomatch (wait_self hquiet heq).2)
    posted := fun j hj => .inl (hposted j hj)
    scans := fun j hj hscan => ?_
    pending := fun _ hs => .inr (h.pending_loop ha hc _ hs)
    marked := h.marked_goto c rfl }
  · show s.m_threadIds ++ [(s.heap k).m_id] = ids cfg (k + 1)
    rw [hids, hid, ids_succ]
  · have hno := h.unscanned hc hj
    exact absurd hscan (Bool.eq_false_iff.mp hno)

/-- The loop is over, or the constructor throws; the lock is released. -/
theorem Inv.leave_loop (h : Inv cfg s) (ha : s.aborted = none) {c i : Nat}
    (hpc : s.pc c = .create i) : Inv cfg (s.unlock c) := by
  have hc : (s.pc c).building = true := by rw [hpc]; rfl
  obtain ⟨hquiet, hjoined, hstage⟩ := h.stage.of_building hc
  simp only [hpc, Pc.create.injEq, reduceCtorEq, false_and, exists_false, or_false] at hstage
  obtain ⟨i, rfl, hle, rfl, hthreads, hids⟩ := hstage
  have hposted : ∀ j < s.created, (s.run j).posted = true := fun j hj =>
    (h.posted j hj).resolve_right fun ⟨c', i', heq⟩ => by
      have hbusy : (s.pc c').busy = true := by rw [heq]; rfl
      obtain rfl := Option.some.inj (hquiet.same hbusy)
      rw [hpc] at heq
      cases heq
  have hmine := (h.mutex c).mp (by rw [hpc]; rfl)
  refine { h with
    mutex := fun c' => ?_
    stage := .pooled hle hthreads hids hjoined (quiet_goto_idle hquiet (.inl rfl) rfl)
    sem := fun c' i' j heq => (nomatch (wait_self hquiet heq).2)
    posted := fun j hj => .inl (hposted j hj)
    scans := fun j hj hscan => absurd hscan (Bool.eq_false_iff.mp (h.unscanned hc hj))
    pending := fun _ hs => .inr (h.pending_loop ha hc _ hs)
    marked := h.marked_goto c rfl }
  show (Function.update s.pc c .out c').holds = true ↔ none = some c'
  rcases eq_or_ne c' c with rfl | hne
  · rw [Function.update_self]
    exact iff_of_false Bool.false_ne_true nofun
  · rw [Function.update_of_ne hne, h.mutex, hmine]
    exact iff_of_false (fun heq => hne (Option.some.inj heq).symm) nofun

/-! ### Steps of `stop` -/

/-- Nobody is at a wait, so every thread has posted its semaphore. -/
theorem Inv.all_posted (h : Inv cfg s) (hnone : ∀ c, (s.pc c).building = false) {k : Nat}
    (hk : k < s.created) : (s.run k).posted = true :=
  (h.posted k hk).resolve_right fun ⟨c, i, heq⟩ => by
    have hidle := hnone c
    rw [heq] at hidle
    cases hidle

theorem building_goto {c : Nat} {p : Pc} (hnone : ∀ c, (s.pc c).building = false)
    (hp : p.building = false) (c' : Nat) : (Function.update s.pc c p c').building = false := by
  rcases eq_or_ne c' c with rfl | hne
  · rw [Function.update_self]
    exact hp
  · rw [Function.update_of_ne hne]
    exact hnone c'

/-- A caller that joins moves: nobody is in the loop. -/
theorem Inv.stepped (h : Inv cfg s) {c : Nat} {p : Pc} (hnone : ∀ c, (s.pc c).building = false)
    (hholds : (s.pc c).holds = false) (hp : p.building = false ∧ p.holds = false)
    (hstop : s.m_stopping = true)
    {heap : Nat → Thread} {joined : List Nat} {m_threads : List (Option Nat)}
    (hstage : Stage cfg { s.goto c p with heap := heap, joined := joined, m_threads := m_threads })
    (hsame : ∀ k, (heap k).m_id = (s.heap k).m_id ∧ (heap k).m_cb = (s.heap k).m_cb)
    (hthread : ∀ k < s.created, (heap k).m_thread = true ↔ k ∉ joined)
    (hended : ∀ k ∈ joined, s.run k = .ended)
    (hlive : ∀ k < s.created, (heap k).live = false → s.run k = .ended)
    (hempty : m_threads = []) :
    Inv cfg { s.goto c p with heap := heap, joined := joined, m_threads := m_threads } := by
  refine {
    mutex := fun c' => ?_, stage := hstage, made := fun k hk => ?_, sem := fun c' i k heq => ?_
    posted := fun k hk => .inl (h.all_posted hnone hk), thread := hthread, ended := hended
    destroyed := hlive, scans := fun _ _ _ => building_goto hnone hp.1
    pending := fun _ _ => .inl ⟨hempty, building_goto hnone hp.1⟩
    marked := fun _ _ => hstop, null := h.null, live := h.live }
  · show (Function.update s.pc c p c').holds = true ↔ s.m_mutex = some c'
    rcases eq_or_ne c' c with rfl | hne
    · rw [Function.update_self, hp.2, ← h.mutex, hholds]
    · rw [Function.update_of_ne hne]
      exact h.mutex c'
  · show (_ → (heap k).m_id = _) ∧ (_ → _ → (heap k).m_cb = false)
    rw [(hsame k).1, (hsame k).2]
    exact h.made k hk
  · have hidle := @building_goto s c p hnone hp.1 c'
    rw [show Function.update s.pc c p c' = .wait i k from heq] at hidle
    cases hidle

/-- The threads are taken out of `m_threads`. -/
theorem Inv.swap (h : Inv cfg s) {c : Nat} (hpc : s.pc c = .swap) (hmutex : s.m_mutex = none) :
    Inv cfg { s.goto c (.join [] s.m_threads) with m_threads := [] } := by
  have hidle : (s.pc c).busy = false := by rw [hpc]; rfl
  have hstop : s.m_stopping = true := h.marked c (by rw [hpc]; rfl)
  have hnone := h.unlocked hmutex
  have hbusy : ∀ {c' p}, s.pc c' = p → p.building = true → False := by
    rintro c' _ rfl hb
    rw [hnone c'] at hb
    cases hb
  refine @Inv.stepped cfg s h c (.join [] s.m_threads) hnone (by rw [hpc]; rfl) ⟨rfl, rfl⟩ hstop
    s.heap s.joined [] ?_ (fun k => ⟨rfl, rfl⟩) h.thread h.ended h.destroyed rfl
  by_cases hempty : s.m_threads = []
  · refine h.stage.congr rfl hempty.symm rfl rfl id fun c' => ?_
    rcases eq_or_ne c' c with rfl | hne
    · refine .inr ⟨hidle, ?_⟩
      show (Function.update s.pc c' (.join [] s.m_threads) c').busy = false
      rw [Function.update_self, hempty]
      rfl
    · exact .inl (Function.update_of_ne hne ..)
  · cases h.stage with
    | fresh _ h₂ => exact absurd h₂ hempty
    | create c' i hpc' | wait c' i hpc' | push c' i hpc' => exact (hbusy hpc' rfl).elim
    | pooled h₁ h₂ h₃ h₄ h₅ =>
        refine .handed c s.m_threads ?_ h₁ ?_ rfl h₃ hstop (quiet_goto h₅ (.inr rfl) _)
        · rw [h₄]
          exact Function.update_self ..
        · rw [h₄]
          exact h₂
    | handed _ _ _ _ _ h₄ => exact absurd h₄ hempty
    | gone _ h₂ => exact absurd h₂ hempty

/-- While a caller has threads to join, nobody is in the loop. -/
theorem none_building {c : Nat} (hquiet : Quiet s (some c)) (hc : (s.pc c).building = false)
    (c' : Nat) : (s.pc c').building = false := by
  rcases eq_or_ne c' c with rfl | hne
  · exact hc
  · exact idle_of_quiet hquiet fun heq => hne (Option.some.inj heq).symm

/-- **A thread is joined.** -/
theorem Inv.join (h : Inv cfg s) {c k : Nat} {done : List Nat} {left : List (Option Nat)}
    (hpc : s.pc c = .join done (some k :: left)) (hrun : s.run k = .ended) :
    Inv cfg { s.goto c (.join (done ++ [k]) left) with
      heap := Function.update s.heap k { s.heap k with m_thread := false }
      joined := s.joined ++ [k] } := by
  have hbusy : (s.pc c).busy = true := by rw [hpc]; simp [Pc.busy]
  obtain ⟨hquiet, rfl, hcreated, hslots, hthreads, hids, hstop⟩ := h.stage.of_join hpc hbusy
  have hnone := none_building hquiet (by rw [hpc]; rfl)
  refine @Inv.stepped cfg s h c (.join (s.joined ++ [k]) left) hnone (by rw [hpc]; rfl) ⟨rfl, rfl⟩
    hstop _ (s.joined ++ [k]) s.m_threads ?_ (fun j => ?_) (fun j hj => ?_) (fun j hj => ?_)
    (fun j hj hdead => ?_) hthreads
  · refine .handed c left (Function.update_self ..) hcreated ?_ hthreads hids hstop
      (quiet_goto hquiet (.inl rfl) _)
    rw [List.map_append, List.append_assoc]
    exact hslots
  · rcases eq_or_ne j k with rfl | hne
    · rw [Function.update_self]
      exact ⟨rfl, rfl⟩
    · rw [Function.update_of_ne hne]
      exact ⟨rfl, rfl⟩
  · rw [List.mem_append, List.mem_singleton]
    rcases eq_or_ne j k with rfl | hne
    · rw [Function.update_self]
      exact iff_of_false Bool.false_ne_true fun hno => hno (.inr rfl)
    · rw [Function.update_of_ne hne, h.thread j hj]
      exact not_congr (or_iff_left hne).symm
  · rcases List.mem_append.mp hj with hmem | hmem
    · exact h.ended j hmem
    · rw [List.mem_singleton.mp hmem]
      exact hrun
  · rcases eq_or_ne j k with rfl | hne
    · exact hrun
    · rw [Function.update_of_ne hne] at hdead
      exact h.destroyed j hj hdead

/-- The next thread to join has been made, and not been joined; a null pointer comes behind all
that have been made. -/
theorem Inv.next (h : Inv cfg s) {c : Nat} {done : List Nat} {x : Option Nat}
    {left : List (Option Nat)} (hpc : s.pc c = .join done (x :: left)) :
    (∀ k, x = some k → (s.heap k).m_thread = true) ∧
      (x = none → s.created < cfg.m_threadCount) := by
  have hbusy : (s.pc c).busy = true := by rw [hpc]; simp [Pc.busy]
  obtain ⟨hquiet, rfl, hcreated, hslots, -⟩ := h.stage.of_join hpc hbusy
  obtain ⟨hrange, -, -, hhead, hnull⟩ := joined_of_slots hcreated hslots
  refine ⟨?_, fun hx => hnull left (by rw [hx])⟩
  rintro k rfl
  have hk := hhead _ _ rfl
  split_ifs at hk with hlt
  cases hk
  rw [h.thread _ hlt, hrange, List.mem_range, List.length_range]
  exact Nat.lt_irrefl _

/-- The call ends; its threads are destroyed. -/
theorem Inv.joined_all (h : Inv cfg s) (ha : s.aborted = none) {c : Nat} {done : List Nat}
    (hpc : s.pc c = .join done []) :
    Inv cfg { s.goto c .out with
      heap := fun k => if k ∈ done then { s.heap k with live := false } else s.heap k } := by
  by_cases hempty : done = []
  · subst hempty
    have hheap : (fun k => if k ∈ ([] : List Nat) then { s.heap k with live := false }
        else s.heap k) = s.heap := funext fun k => if_neg List.not_mem_nil
    rw [hheap]
    exact h.walked ha (by rw [hpc]; rfl) rfl (by rw [hpc]; rfl) rfl nofun
      (by rw [hpc]; exact ⟨nofun, nofun⟩)
  · have hbusy : (s.pc c).busy = true := by rw [hpc]; simp [Pc.busy, hempty]
    obtain ⟨hquiet, rfl, hcreated, hslots, hthreads, hids, hstop⟩ := h.stage.of_join hpc hbusy
    obtain ⟨hrange, -, hall, -⟩ := joined_of_slots hcreated hslots
    have hnone := none_building hquiet (by rw [hpc]; rfl)
    refine @Inv.stepped cfg s h c .out hnone (by rw [hpc]; rfl) ⟨rfl, rfl⟩ hstop _ s.joined
      s.m_threads ?_ (fun j => ?_) (fun j hj => ?_) h.ended (fun j hj hdead => ?_)
      hthreads
    · refine .gone ?_ hthreads hids hstop (quiet_goto_idle hquiet (.inl rfl) rfl)
      obtain ⟨hn, hc⟩ := hall rfl
      show s.joined = List.range s.created
      rw [hc, ← hn]
      exact hrange
    · split_ifs <;> exact ⟨rfl, rfl⟩
    · rw [← h.thread j hj]
      split_ifs <;> rfl
    · split_ifs at hdead with hmem
      · exact h.ended j hmem
      · exact h.destroyed j hj hdead

/-! ### Runs -/

theorem stepStart_inv {a : Action} (h : Inv cfg s) (ha : s.aborted = none) (hfine : Fine s a)
    (hs : stepStart cfg s a = some t) : Inv cfg t := by
  cases a <;> simp only [stepStart, reduceCtorEq] at hs
  case start c =>
    split_ifs at hs with hpc
    cases hs
    exact h.walked ha (by rw [hpc]; rfl) rfl (by rw [hpc]; rfl) rfl nofun
      (by rw [hpc]; exact ⟨nofun, nofun⟩)
  case lock c =>
    split_ifs at hs with hpc
    cases hs
    refine @Inv.moved cfg s h c .locked (some c) s.m_stopping (by rw [hpc.1]; rfl) rfl
      (iff_of_true rfl rfl) (fun c' hne => ?_) id nofun
      (h.pending_goto ha (by rw [hpc.1]; exact ⟨nofun, nofun⟩) _)
    rw [hpc.2]
    exact iff_of_false (fun heq => hne (Option.some.inj heq).symm) nofun
  case test c =>
    split_ifs at hs with hpc hstop hempty
    · cases hs
      have hmine := (h.mutex c).mp (by rw [hpc]; rfl)
      refine @Inv.moved cfg s h c .out none s.m_stopping (by rw [hpc]; rfl) rfl
        (iff_of_false nofun nofun) (fun c' hne => ?_) id nofun
        (h.pending_goto ha (by rw [hpc]; exact ⟨nofun, nofun⟩) _)
      rw [hmine]
      exact iff_of_false nofun fun heq => hne (Option.some.inj heq).symm
    · cases hs
      exact @Inv.abort cfg s h .started s.m_stopping id nofun
    · cases hs
      exact h.test hpc (Bool.not_eq_true _ ▸ hstop) (not_not.mp hempty)
  case create c ok =>
    split at hs
    · rename_i i hpc
      split_ifs at hs with hi
      · cases hs
        exact h.create ha hpc hi
      · cases hs
        exact h.leave_loop ha hpc
    · cases hs
  case wait c =>
    split at hs
    · rename_i i k hpc
      split_ifs at hs with hsem
      cases hs
      exact h.wait ha hpc hsem
    · cases hs
  case interrupt c => cases hfine
  case push c =>
    split at hs
    · rename_i i k hpc
      cases hs
      exact h.push ha hpc
    · cases hs
  case finish c =>
    split_ifs at hs with hpc
    cases hs
    exact h.leave_loop ha hpc

theorem stepStop_inv {a : Action} (h : Inv cfg s) (ha : s.aborted = none)
    (hs : stepStop cfg s a = some t) : Inv cfg t := by
  cases a <;> simp only [stepStop, reduceCtorEq] at hs
  case stop c =>
    split_ifs at hs with hpc
    cases hs
    exact h.walked ha (by rw [hpc]; rfl) rfl (by rw [hpc]; rfl) rfl nofun
      (by rw [hpc]; exact ⟨nofun, nofun⟩)
  case stopping c quiet =>
    have hwalk (p : Pc) (hpc : s.pc c = .stopping) (hp : p.busy = false) (hholds : p.holds = false)
        (hmarked : p.marked = false) : Inv cfg (s.goto c p) :=
      h.walked ha (by rw [hpc]; rfl) hp (by rw [hpc]; rfl) hholds (by rw [hmarked]; exact nofun)
        (by rw [hpc]; exact ⟨nofun, nofun⟩)
    split_ifs at hs with hpc hquiet
    · cases hs
      exact hwalk .out hpc.1 rfl rfl rfl
    · cases hs
      exact hwalk .mark hpc.1 rfl rfl rfl
  case mark c =>
    split_ifs at hs with hpc hroot
    · cases hs
      refine @Inv.moved cfg s h c .resume s.m_mutex true (by rw [hpc]; rfl) rfl ?_
        (fun _ _ => Iff.rfl) (fun _ => rfl) (fun _ => rfl)
        fun _ => .inr ⟨c, .inl (Function.update_self ..)⟩
      rw [← h.mutex c, hpc]
      exact Iff.rfl
    · cases hs
      exact @Inv.abort cfg s h .caller true (fun _ => rfl) nofun
  case resume c =>
    split_ifs at hs with hpc
    cases hs
    have hstop := h.marked c (by rw [hpc]; rfl)
    refine @Inv.moved cfg s h c .swap s.m_mutex s.m_stopping (by rw [hpc]; rfl) rfl ?_
      (fun _ _ => Iff.rfl) id (fun _ => hstop) fun _ => .inr ⟨c, .inr (Function.update_self ..)⟩
    rw [← h.mutex c, hpc]
    exact Iff.rfl
  case swap c =>
    split_ifs at hs with hpc
    cases hs
    exact h.swap hpc.1 hpc.2
  case join c =>
    split at hs
    · rename_i hpc
      cases hs
      exact @Inv.abort cfg s h .null s.m_stopping id fun _ => (h.next hpc).2 rfl
    · rename_i done k left hpc
      rw [if_pos ((h.next hpc).1 k rfl)] at hs
      split_ifs at hs with hrun
      cases hs
      exact h.join hpc hrun
    · rename_i done hpc
      cases hs
      exact h.joined_all ha hpc
    · cases hs

theorem stepRun_inv {a : Action} (h : Inv cfg s) (hs : stepRun cfg s a = some t) : Inv cfg t := by
  cases a <;> simp only [stepRun, reduceCtorEq] at hs
  case identify k =>
    split_ifs at hs with hk
    cases hs
    have hne : s.run k ≠ .ended := by rw [hk.2]; exact nofun
    rw [h.use_eq hk.1 hne]
    refine h.ran hne ⟨fun _ => rfl, fun _ hno => absurd rfl hno⟩ rfl rfl (fun c i heq => ?_)
      (by rw [hk.2]; exact id) nofun
    exact (h.sem c i k heq).trans (by rw [hk.2]; rfl)
  case take k =>
    split_ifs at hs with hk
    cases hs
    have hne : s.run k ≠ .ended := by rw [hk.2]; exact nofun
    rw [h.use_eq hk.1 hne]
    have hmade := (h.made k hk.1).1 (by rw [hk.2]; exact nofun)
    refine h.ran hne ⟨fun _ => hmade, fun _ _ => rfl⟩ rfl rfl (fun c i heq => ?_)
      (by rw [hk.2]; exact nofun) nofun
    exact (h.sem c i k heq).trans (by rw [hk.2]; rfl)
  case notify k =>
    split_ifs at hs with hk
    cases hs
    have hne : s.run k ≠ .ended := by rw [hk.2]; exact nofun
    rw [h.use_eq hk.1 hne]
    have hmade := h.made k hk.1
    rw [hk.2] at hmade
    refine h.ran hne ⟨fun _ => hmade.1 nofun, fun _ _ => hmade.2 nofun nofun⟩ rfl rfl
      (fun c i heq => ?_) (fun _ => rfl) nofun
    -- the one who waits finds the semaphore posted
    show (s.heap k).m_semaphore + 1 = 1
    rw [h.sem c i k heq, hk.2]
    rfl
  case scan k =>
    split_ifs at hs with hk
    cases hs
    obtain ⟨hlt, hrun, hmutex⟩ := hk
    have hne : s.run k ≠ .ended ∧ s.run k ≠ .entry ∧ s.run k ≠ .named := by
      rcases hrun with heq | heq <;> rw [heq] <;> exact ⟨nofun, nofun, nofun⟩
    have hposted : (s.run k).posted = true := by rcases hrun with heq | heq <;> rw [heq] <;> rfl
    have hmade := h.made k hlt
    have hran := @Inv.ran cfg s h k (s.heap k) .scanned hne.1
      ⟨fun _ => hmade.1 hne.2.1, fun _ _ => hmade.2 hne.2.1 hne.2.2⟩ rfl rfl
      (fun c i heq => (h.sem c i k heq).trans (by rw [hposted]; rfl)) (fun _ => rfl)
      fun _ => .inr (h.unlocked hmutex)
    rwa [Function.update_eq_self] at hran
  case leave k =>
    split_ifs at hs with hk
    cases hs
    obtain ⟨hlt, hrun⟩ := hk
    have hmade := h.made k hlt
    rw [hrun] at hmade
    have hran := @Inv.ran cfg s h k (s.heap k) .ended (by rw [hrun]; exact nofun)
      ⟨fun _ => hmade.1 nofun, fun _ _ => hmade.2 nofun nofun⟩ rfl rfl
      (fun c i heq => (h.sem c i k heq).trans (by rw [hrun]; rfl)) (fun _ => rfl)
      fun _ => .inl (by rw [hrun]; rfl)
    rwa [Function.update_eq_self] at hran

theorem step_inv {a : Action} (h : Inv cfg s) (hfine : Fine s a) (hs : step cfg s a = some t) :
    Inv cfg t := by
  unfold step at hs
  split_ifs at hs with ha
  have ha' : s.aborted = none := Option.not_isSome_iff_eq_none.mp ha
  rcases Option.or_eq_some_iff.mp hs with hs | ⟨-, hs⟩
  · exact stepStart_inv h ha' hfine hs
  · rcases Option.or_eq_some_iff.mp hs with hs | ⟨-, hs⟩
    · exact stepStop_inv h ha' hs
    · exact stepRun_inv h hs

/-- What is in `m_threads` has been constructed. -/
theorem Stage.mem_threads (h : Stage cfg s) {k : Nat} (hk : some k ∈ s.m_threads) :
    k < s.created ∧ ∀ c i, s.pc c ≠ .wait i k := by
  have hnone : ∀ {who} c i, Quiet s who → who ≠ some c → s.pc c ≠ .wait i k := by
    intro who c i hq hne heq
    have hidle := hq c hne
    rw [heq] at hidle
    cases hidle
  cases h with
  | fresh _ h₂ | handed _ _ _ _ _ h₂ | gone _ h₂ =>
      rw [h₂] at hk
      exact absurd hk List.not_mem_nil
  | create c i h₁ hi h₂ h₃ h₄ h₅ h₆ =>
      rw [h₃, mem_slots] at hk
      refine ⟨h₂ ▸ hk, fun c' i' heq => ?_⟩
      rcases eq_or_ne c c' with rfl | hne
      · rw [h₁] at heq
        cases heq
      · exact hnone c' i' h₆ (fun hsame => hne (Option.some.inj hsame)) heq
  | wait c i h₁ hi h₂ h₃ h₄ h₅ h₆ =>
      rw [h₃, mem_slots] at hk
      refine ⟨by omega, fun c' i' heq => ?_⟩
      rcases eq_or_ne c c' with rfl | hne
      · rw [h₁] at heq
        cases heq
        exact Nat.lt_irrefl _ hk
      · exact hnone c' i' h₆ (fun hsame => hne (Option.some.inj hsame)) heq
  | push c i h₁ hi h₂ h₃ h₄ h₅ h₆ =>
      rw [h₃, mem_slots] at hk
      refine ⟨by omega, fun c' i' heq => ?_⟩
      rcases eq_or_ne c c' with rfl | hne
      · rw [h₁] at heq
        cases heq
      · exact hnone c' i' h₆ (fun hsame => hne (Option.some.inj hsame)) heq
  | pooled h₁ h₂ h₃ h₄ h₅ =>
      rw [h₂, mem_slots] at hk
      exact ⟨hk, fun c i => hnone c i h₅ nofun⟩

/-- The ids are in their place when nobody is in the loop. -/
theorem Stage.ids_eq (h : Stage cfg s) (hnone : ∀ c, (s.pc c).building = false) :
    s.m_threadIds = ids cfg s.created := by
  have hbusy : ∀ {c p}, s.pc c = p → p.building = true → False := by
    rintro c _ rfl hb
    rw [hnone c] at hb
    cases hb
  cases h with
  | fresh h₁ _ h₃ => rw [h₁, h₃]
  | create c i h₁ | wait c i h₁ | push c i h₁ => exact (hbusy h₁ rfl).elim
  | pooled _ _ h₃ | handed _ _ _ _ _ _ h₃ | gone _ _ h₃ => exact h₃

theorem Stage.joined_nodup (h : Stage cfg s) : s.joined.Nodup := by
  cases h with
  | fresh _ _ _ h₄ | create _ _ _ _ _ _ _ h₄ | wait _ _ _ _ _ _ _ h₄ | push _ _ _ _ _ _ _ h₄
  | pooled _ _ _ h₄ =>
      rw [h₄]
      exact List.nodup_nil
  | handed c left _ h₂ h₃ =>
      rw [(joined_of_slots h₂ h₃).1]
      exact List.nodup_range
  | gone h₁ =>
      rw [h₁]
      exact List.nodup_range

/-- Nothing is left in `m_threads` nor to be joined: all has been joined. -/
theorem Stage.all_joined (h : Stage cfg s) (hthreads : s.m_threads = [])
    (hnone : ∀ c, (s.pc c).building = false) (hending : ∀ c, (s.pc c).ending = false) {k : Nat}
    (hk : k < s.created) : k ∈ s.joined := by
  have hbusy : ∀ {c p}, s.pc c = p → p.building = true → False := by
    rintro c _ rfl hb
    rw [hnone c] at hb
    cases hb
  cases h with
  | fresh h₁ => omega
  | create c i h₁ | wait c i h₁ | push c i h₁ => exact (hbusy h₁ rfl).elim
  | pooled h₁ h₂ =>
      have hlen := length_slots h₁
      rw [← h₂, hthreads, List.length_nil] at hlen
      omega
  | handed c left h₁ h₂ h₃ =>
      have hleft : left = [] := by
        have hend := hending c
        rw [h₁] at hend
        cases left with
        | nil => rfl
        | cons => cases hend
      obtain ⟨hrange, -, hall, -⟩ := joined_of_slots h₂ h₃
      have hcount := hall hleft
      rw [hrange, List.mem_range]
      omega
  | gone h₁ =>
      rw [h₁]
      exact List.mem_range.mpr hk

theorem Inv.orderly (h : Inv cfg s) : Orderly cfg s where
  constructed := by
    intro k hk
    obtain ⟨hlt, hnowait⟩ := h.stage.mem_threads hk
    have hposted := (h.posted k hlt).resolve_right fun ⟨c, i, heq⟩ => hnowait c i heq
    have hpast : s.run k ≠ .entry ∧ s.run k ≠ .named := by
      constructor <;> intro heq <;> rw [heq] at hposted <;> cases hposted
    exact ⟨hlt, (h.made k hlt).1 hpast.1, (h.made k hlt).2 hpast.1 hpast.2, hposted⟩
  complete k hk hscan := ⟨h.scans k hk hscan, h.stage.ids_eq (h.scans k hk hscan)⟩
  once := h.stage.joined_nodup
  ended := h.ended
  stopped := by
    intro ha hstop hending k hk
    rcases h.pending ha hstop with ⟨hthreads, hnone⟩ | ⟨c, hc⟩
    · exact h.stage.all_joined hthreads hnone hending hk
    · -- that `stop` would be on its way
      have hend := hending c
      rcases hc with hc | hc <;> rw [hc] at hend <;> cases hend
  null := h.null
  live := h.live

/-- **The pool is orderly** whatever calls of `start` and `stop` there are, in any order of
their steps and those of the threads, as long as no wait for a new thread is interrupted. -/
theorem pool_orderly (h : Lts.Reach (step cfg) Fine (start cfg) s) : Orderly cfg s :=
  (h.invariant start_inv fun _ _ _ hI hfine hs => step_inv hI hfine hs : Inv cfg s).orderly

/-! ### No deadlock in `start` -/

/-- Steps of caller `c` in the loop, and of new threads up to their notifications. -/
def Own (c : Nat) (_ : State) : Action → Prop
  | .create c' ok => c' = c ∧ ok = true
  | .wait c' | .push c' | .finish c' => c' = c
  | .identify _ | .take _ | .notify _ => True
  | _ => False

theorem Own.fine {c : Nat} {a : Action} (h : Own c s a) : Fine s a := by
  cases a <;> first | rfl | exact h.elim

theorem step_of_start {a : Action} (ha : s.aborted = none) (hs : stepStart cfg s a = some t) :
    step cfg s a = some t := by
  rw [step, ha, if_neg (by simp), hs]
  rfl

theorem step_of_run {a : Action} (ha : s.aborted = none) (hstart : stepStart cfg s a = none)
    (hstop : stepStop cfg s a = none) (hs : stepRun cfg s a = some t) : step cfg s a = some t := by
  rw [step, ha, if_neg (by simp), hstart, hstop, hs]
  rfl

/-- What a new thread has before it. -/
def RunPc.left : RunPc → Nat
  | .entry => 5
  | .named => 4
  | .swapped => 3
  | _ => 2

/-- What a caller in the loop has before it. -/
def Config.left (cfg : Config) (s : State) : Pc → Nat
  | .create i => 6 * (cfg.m_threadCount - i)
  | .wait i k => 6 * (cfg.m_threadCount - i - 1) + (s.run k).left
  | .push i _ => 6 * (cfg.m_threadCount - i - 1) + 1
  | _ => 0

/-- **One step**: a caller in the loop, or the thread it waits for, can go on. -/
theorem Inv.progress (h : Inv cfg s) (ha : s.aborted = none) {c : Nat}
    (hc : (s.pc c).building = true) (hn : s.pc c ≠ .create cfg.m_threadCount) :
    ∃ a t, Own c s a ∧ step cfg s a = some t ∧ t.aborted = none ∧ (t.pc c).building = true ∧
      cfg.left t (t.pc c) < cfg.left s (s.pc c) := by
  obtain ⟨-, -, hstage⟩ := h.stage.of_building hc
  rcases hstage with ⟨i, hpc, hi, -⟩ | ⟨i, hpc, hi, hcreated, -⟩ | ⟨i, hpc, hi, -⟩
  · have hne : i ≠ cfg.m_threadCount := fun heq => hn (by rw [hpc, heq])
    have hs : stepStart cfg s (.create c true) = some { s.goto c (.wait i s.created) with
        heap := Function.update s.heap s.created .new
        run := Function.update s.run s.created .entry
        created := s.created + 1 } := by
      simp only [stepStart, hpc]
      rw [if_neg hne, if_pos trivial]
    refine ⟨.create c true, _, ⟨rfl, rfl⟩, step_of_start ha hs, ha, ?_, ?_⟩
    · simp [State.goto, Pc.building]
    · simp only [State.goto, Function.update_self, hpc, Config.left, RunPc.left]
      omega
  · have hk : i < s.created := by omega
    -- the new thread first, until it has posted the semaphore
    cases hrun : s.run i with
    | entry =>
        refine ⟨.identify i, _, trivial, step_of_run ha rfl rfl (if_pos ⟨hk, hrun⟩), ha, hc, ?_⟩
        simp [State.use, hpc, Config.left, RunPc.left, hrun]
    | named =>
        refine ⟨.take i, _, trivial, step_of_run ha rfl rfl (if_pos ⟨hk, hrun⟩), ha, hc, ?_⟩
        simp [State.use, hpc, Config.left, RunPc.left, hrun]
    | swapped =>
        refine ⟨.notify i, _, trivial, step_of_run ha rfl rfl (if_pos ⟨hk, hrun⟩), ha, hc, ?_⟩
        simp [State.use, hpc, Config.left, RunPc.left, hrun]
    | running | scanned | ended =>
        have hsem : (s.heap i).m_semaphore ≠ 0 := by
          rw [h.sem c i i hpc, hrun]
          exact Nat.one_ne_zero
        have hs : stepStart cfg s (.wait c) = some { s.goto c (.push i i) with
            heap := Function.update s.heap i
              { s.heap i with m_semaphore := (s.heap i).m_semaphore - 1 }
            m_threads := s.m_threads.set i (some i) } := by
          simp only [stepStart, hpc]
          rw [if_neg hsem]
        refine ⟨.wait c, _, rfl, step_of_start ha hs, ha, ?_, ?_⟩
        · simp [State.goto, Pc.building]
        · simp [State.goto, hpc, Config.left, RunPc.left, hrun]
  · have hs : stepStart cfg s (.push c) = some { s.goto c (.create (i + 1)) with
        m_threadIds := s.m_threadIds ++ [(s.heap i).m_id] } := by
      simp only [stepStart, hpc]
    refine ⟨.push c, _, rfl, step_of_start ha hs, ha, ?_, ?_⟩
    · simp [State.goto, Pc.building]
    · simp only [State.goto, Function.update_self, hpc, Config.left]
      omega

/-- **`start` can return** from wherever it is in its loop, with all threads in the pool, by its
own steps and those of the new threads up to their notifications: the lock that it holds and
the semaphore that it waits for never block each other. -/
theorem start_returns (h : Lts.Reach (step cfg) Fine (start cfg) s) (ha : s.aborted = none)
    {c : Nat} (hc : (s.pc c).building = true) :
    ∃ t, Lts.Reach (step cfg) (Own c) s t ∧ t.pc c = .out ∧ t.m_mutex = none ∧
      t.m_threads = (List.range cfg.m_threadCount).map some ∧
      t.m_threadIds = ids cfg cfg.m_threadCount := by
  have hinv : Inv cfg s := h.invariant start_inv fun _ _ _ hI hfine hs => step_inv hI hfine hs
  clear h
  induction hleft : cfg.left s (s.pc c) using Nat.strongRecOn generalizing s with
  | ind left ih =>
      by_cases hn : s.pc c = .create cfg.m_threadCount
      · obtain ⟨-, -, hstage⟩ := hinv.stage.of_building hc
        simp only [hn, Pc.create.injEq, reduceCtorEq, false_and, exists_false, or_false] at hstage
        obtain ⟨i, rfl, -, -, hthreads, hids⟩ := hstage
        refine ⟨s.unlock c, .step (.finish c) .init rfl (step_of_start ha (if_pos hn)),
          Function.update_self .., rfl, ?_, hids⟩
        · show s.m_threads = _
          rw [hthreads, slots, Nat.sub_self]
          exact List.append_nil _
      · obtain ⟨a, u, hown, hstep, hu, hbuilding, hless⟩ := hinv.progress ha hc hn
        have hinv' := step_inv hinv hown.fine hstep
        obtain ⟨t, ht, hrest⟩ := ih _ (hleft ▸ hless) hu hbuilding hinv' rfl
        exact ⟨t, (Lts.Reach.init.step a hown hstep).trans ht, hrest⟩

/-! ### Runs of two threads -/

def pair : Config := ⟨2, none, -1, fun k => 100 + k⟩

/-- Caller 0 starts the pool, and its first thread is created. -/
def opening : List Action := [.start 0, .lock 0, .test 0, .create 0 true]

/-- Both threads are made; one gets at the queue, both end, and caller 1 stops the pool. -/
def wholeLife : List Action :=
  opening ++ [.identify 0, .take 0, .notify 0, .wait 0, .push 0, .create 0 true, .identify 1,
    .take 1, .notify 1, .wait 0, .push 0, .finish 0, .scan 1, .scan 0, .stop 1, .stopping 1 true,
    .mark 1, .resume 1, .leave 0, .swap 1, .join 1, .leave 1, .join 1, .join 1]

theorem pool_orderly_whole : ∃ s, Orderly pair s ∧ s.joined = [0, 1] ∧ s.m_threads = [] ∧
    s.m_threadIds = [100, 101] := by
  have hrun : Lts.run (step pair) wholeLife (start pair) = some _ := rfl
  have hcalm : ∀ a ∈ wholeLife, a.calm = true := by decide
  have hstart : Lts.Reach (step pair) Fine (start pair) (start pair) := .init
  have hreach := hstart.run (fun a ha _ => hcalm a ha) hrun
  exact ⟨_, pool_orderly hreach, rfl, rfl, rfl⟩

theorem start_returns_opening : ∃ s t, Lts.Reach (step pair) (Own 0) s t ∧ s.created = 1 ∧
    t.m_threads = [some 0, some 1] := by
  have hrun : Lts.run (step pair) opening (start pair) = some _ := rfl
  have hcalm : ∀ a ∈ opening, a.calm = true := by decide
  have hstart : Lts.Reach (step pair) Fine (start pair) (start pair) := .init
  have hreach := hstart.run (fun a ha _ => hcalm a ha) hrun
  obtain ⟨t, ht, -, -, hthreads, -⟩ := start_returns (c := 0) hreach rfl rfl
  exact ⟨_, t, ht, rfl, hthreads⟩

/-- **The dangling thread**: where the wait is interrupted, the constructor throws, and the
thread sets the id of an object that is gone. -/
theorem interrupted_dangles : ∃ s, Lts.Reach (step pair) Lts.Any (start pair) s ∧
    s.dangling = true := by
  have hrun : Lts.run (step pair) (opening ++ [.interrupt 0, .identify 0]) (start pair) = some _ :=
    rfl
  exact ⟨_, Lts.reach_of_run hrun, rfl⟩

end Threads

end Scheduler

end Will
