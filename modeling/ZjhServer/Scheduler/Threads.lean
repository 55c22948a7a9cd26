/-
ZjhServer/Scheduler/Threads.lean

The threads of a scheduler's pool, from `Scheduler::start` to the joins of
`Scheduler::stop` (server/scheduler.cc, server/thread.{h,cc}, server/mutex.{h,cc}), for any
number of callers of the two.

`start` holds `m_mutex` while it constructs the threads, and each constructor waits on a
semaphore that the new thread posts before it calls `Scheduler::run`.  `stop` sets
`m_stopping` before it takes the threads out of `m_threads` under the lock, and `start` tests
it under the lock.  What is asked of the pool is `Orderly`.  At any time the threads are in
one place (`Stage`): being made by one caller, in `m_threads`, with one caller that joins
them, or joined.
-/
import ZjhServer.Lib.Lts
import Mathlib.Data.List.Basic
import Mathlib.Logic.Function.Basic

namespace Will

namespace Scheduler

namespace Threads

/-! ### The source -/

/-- What a scheduler is constructed with, and the ids that the system gives.  Its callers are not
threads of the pool. -/
structure Config where
  m_threadCount : Nat
  /-- the caller that has the root fiber, if `use_caller` -/
  root : Option Nat
  m_rootThread : Int
  /-- `GetThreadId()` in the `k`th thread created -/
  tid : Nat → Int

/-- An object of class `Thread`. -/
structure Thread where
  m_id : Int
  /-- `m_thread` is not 0 -/
  m_thread : Bool
  /-- `m_cb` is not empty -/
  m_cb : Bool
  m_semaphore : Nat
  /-- it has not been destroyed -/
  live : Bool
  deriving DecidableEq, Repr

/-- `Thread::Thread`, up to the wait: `pthread_create` has made a thread. -/
def Thread.new : Thread where
  m_id := -1
  m_thread := true
  m_cb := true
  m_semaphore := 0
  live := true

/-- Where a thread of the pool is in `Thread::run`. -/
inductive RunPc
  /-- before `m_id` is set -/
  | entry
  /-- before `cb.swap(thread->m_cb)` -/
  | named
  /-- before `m_semaphore.notify()` -/
  | swapped
  /-- in `Scheduler::run`, before the first scan -/
  | running
  /-- in `Scheduler::run`, behind a scan -/
  | scanned
  | ended
  deriving DecidableEq, Repr

/-- Where a caller is. -/
inductive Pc
  | out
  /-- in `start`, before the lock -/
  | starting
  /-- before the test of `m_stopping` -/
  | locked
  /-- before the constructor of thread `i` -/
  | create (i : Nat)
  /-- in the constructor of thread `i`, object `k`, at `m_semaphore.wait()` -/
  | wait (i k : Nat)
  /-- before `m_threadIds.push_back` -/
  | push (i k : Nat)
  /-- in `stop`, before `stopping()` -/
  | stopping
  /-- before `m_stopping = true` -/
  | mark
  /-- before `m_rootFiber->resume()` returns -/
  | resume
  /-- before `thrs.swap(m_threads)` -/
  | swap
  /-- at the joins: those done, those left -/
  | join (done : List Nat) (left : List (Option Nat))
  deriving DecidableEq, Repr

/-- It holds `m_mutex`. -/
def Pc.holds : Pc → Bool
  | .locked | .create _ | .wait .. | .push .. => true
  | _ => false

/-- It is in the loop of `start`. -/
def Pc.building : Pc → Bool
  | .create _ | .wait .. | .push .. => true
  | _ => false

/-- What ends the process. -/
inductive Abort
  /-- `WILL_ASSERT(m_threads.empty())` -/
  | started
  /-- `WILL_ASSERT(GetThis() == this)` -/
  | caller
  /-- `i->join()` of a null pointer -/
  | null
  deriving DecidableEq, Repr

structure State where
  m_stopping : Bool
  /-- the caller that holds it; the scans of the pool hold it within one step -/
  m_mutex : Option Nat
  m_threads : List (Option Nat)
  m_threadIds : List Int
  /-- the objects, in the order of their construction -/
  heap : Nat → Thread
  created : Nat
  run : Nat → RunPc
  pc : Nat → Pc
  /-- the calls of `pthread_join` that have returned -/
  joined : List Nat
  /-- a thread has used an object that was gone -/
  dangling : Bool
  aborted : Option Abort

namespace State

def goto (s : State) (c : Nat) (pc : Pc) : State := { s with pc := Function.update s.pc c pc }

/-- The end of the scope of the lock, and of the call. -/
def unlock (s : State) (c : Nat) : State := { s.goto c .out with m_mutex := none }

/-- What thread `k` does to its object. -/
def use (s : State) (k : Nat) (thread : Thread) (run : RunPc) : State :=
  { s with
    heap := Function.update s.heap k thread
    run := Function.update s.run k run
    dangling := s.dangling || !(s.heap k).live }

def abort (s : State) (why : Abort) : State := { s with aborted := some why }

end State

inductive Action
  | start (c : Nat)
  | lock (c : Nat)
  | test (c : Nat)
  /-- `pthread_create`, which may fail -/
  | create (c : Nat) (ok : Bool)
  | wait (c : Nat)
  /-- `sem_wait` fails -/
  | interrupt (c : Nat)
  | push (c : Nat)
  /-- the loop is over -/
  | finish (c : Nat)
  | stop (c : Nat)
  /-- `stopping()`; `quiet`: no task is queued or active -/
  | stopping (c : Nat) (quiet : Bool)
  | mark (c : Nat)
  | resume (c : Nat)
  | swap (c : Nat)
  | join (c : Nat)
  | identify (k : Nat)
  | take (k : Nat)
  | notify (k : Nat)
  | scan (k : Nat)
  | leave (k : Nat)
  deriving DecidableEq, Repr

variable (cfg : Config)

/-- `Scheduler::start` -/
def stepStart (s : State) : Action → Option State
  | .start c => if s.pc c = .out then some (s.goto c .starting) else none
  | .lock c =>
      if s.pc c = .starting ∧ s.m_mutex = none then
        some { s.goto c .locked with m_mutex := some c }
      else none
  | .test c =>
      if s.pc c = .locked then
        if s.m_stopping then some (s.unlock c)
        else if s.m_threads ≠ [] then some (s.abort .started)
        else some { s.goto c (.create 0) with
          m_threads := List.replicate cfg.m_threadCount none }
      else none
  | .create c ok =>
      match s.pc c with
      | .create i =>
          if i = cfg.m_threadCount then none
          else if ok then
            some { s.goto c (.wait i s.created) with
              heap := Function.update s.heap s.created .new
              run := Function.update s.run s.created .entry
              created := s.created + 1 }
          -- the exception leaves the scope of the lock
          else some (s.unlock c)
      | _ => none
  | .wait c =>
      match s.pc c with
      | .wait i k =>
          if (s.heap k).m_semaphore = 0 then none
          else some { s.goto c (.push i k) with
            heap := Function.update s.heap k
              { s.heap k with m_semaphore := (s.heap k).m_semaphore - 1 }
            m_threads := s.m_threads.set i (some k) }
      | _ => none
  | .interrupt c =>
      match s.pc c with
      | .wait _ k =>
          some { s.unlock c with heap := Function.update s.heap k { s.heap k with live := false } }
      | _ => none
  | .push c =>
      match s.pc c with
      | .push i k =>
          some { s.goto c (.create (i + 1)) with
            m_threadIds := s.m_threadIds ++ [(s.heap k).m_id] }
      | _ => none
  | .finish c => if s.pc c = .create cfg.m_threadCount then some (s.unlock c) else none
  | _ => none

/-- `Scheduler::stop` -/
def stepStop (s : State) : Action → Option State
  | .stop c => if s.pc c = .out then some (s.goto c .stopping) else none
  | .stopping c quiet =>
      if s.pc c = .stopping ∧ s.m_mutex = none then
        some (s.goto c (if s.m_stopping && quiet then .out else .mark))
      else none
  | .mark c =>
      if s.pc c = .mark then
        if cfg.root.all (· = c) then some { s.goto c .resume with m_stopping := true }
        else some ({ s with m_stopping := true }.abort .caller)
      else none
  | .resume c => if s.pc c = .resume then some (s.goto c .swap) else none
  | .swap c =>
      if s.pc c = .swap ∧ s.m_mutex = none then
        some { s.goto c (.join [] s.m_threads) with m_threads := [] }
      else none
  | .join c =>
      match s.pc c with
      | .join _ (none :: _) => some (s.abort .null)
      | .join done (some k :: left) =>
          if (s.heap k).m_thread then
            if s.run k = .ended then
              some { s.goto c (.join (done ++ [k]) left) with
                heap := Function.update s.heap k { s.heap k with m_thread := false }
                joined := s.joined ++ [k] }
            else none
          else some (s.goto c (.join (done ++ [k]) left))
      -- the objects go with `thrs`
      | .join done [] =>
          some { s.goto c .out with
            heap := fun k => if k ∈ done then { s.heap k with live := false } else s.heap k }
      | _ => none
  | _ => none

/-- `Thread::run` -/
def stepRun (s : State) : Action → Option State
  | .identify k =>
      if k < s.created ∧ s.run k = .entry then
        some (s.use k { s.heap k with m_id := cfg.tid k } .named)
      else none
  | .take k =>
      if k < s.created ∧ s.run k = .named then
        some (s.use k { s.heap k with m_cb := false } .swapped)
      else none
  | .notify k =>
      if k < s.created ∧ s.run k = .swapped then
        some (s.use k { s.heap k with m_semaphore := (s.heap k).m_semaphore + 1 } .running)
      else none
  | .scan k =>
      if k < s.created ∧ (s.run k = .running ∨ s.run k = .scanned) ∧ s.m_mutex = none then
        some { s with run := Function.update s.run k .scanned }
      else none
  | .leave k =>
      if k < s.created ∧ s.run k = .scanned then
        some { s with run := Function.update s.run k .ended }
      else none
  | _ => none

def step (s : State) (a : Action) : Option State :=
  if s.aborted.isSome then none
  else (stepStart cfg s a).or ((stepStop cfg s a).or (stepRun cfg s a))

/-- The scheduler has been constructed. -/
def start : State where
  m_stopping := false
  m_mutex := none
  m_threads := []
  m_threadIds := if cfg.root.isSome then [cfg.m_rootThread] else []
  heap := fun _ => .new
  created := 0
  run := fun _ => .entry
  pc := fun _ => .out
  joined := []
  dangling := false
  aborted := none

def Action.calm : Action → Bool
  | .interrupt _ => false
  | _ => true

/-- No wait for a new thread is interrupted. -/
def Fine (_ : State) (a : Action) : Prop := a.calm = true

/-! ### What is asked of the pool -/

/-- It has posted the semaphore. -/
def RunPc.posted : RunPc → Bool
  | .running | .scanned | .ended => true
  | _ => false

/-- It has got at the queue. -/
def RunPc.scans : RunPc → Bool
  | .scanned | .ended => true
  | _ => false

/-- The ids of the first `i` threads, behind the one of the root thread. -/
def ids (i : Nat) : List Int := (start cfg).m_threadIds ++ (List.range i).map cfg.tid

/-- In `stop`, between `m_stopping = true` and the last join. -/
def Pc.ending : Pc → Bool
  | .resume | .swap | .join _ (_ :: _) => true
  | _ => false

/-- What holds of the pool at any time. -/
structure Orderly (s : State) : Prop where
  /-- a thread in the pool is past its semaphore: its object has its id and not its callback -/
  constructed : ∀ k, some k ∈ s.m_threads →
    k < s.created ∧ (s.heap k).m_id = cfg.tid k ∧ (s.heap k).m_cb = false ∧
      (s.run k).posted = true
  /-- a thread gets at the queue when `start` is over, with all ids in their place -/
  complete : ∀ k < s.created, (s.run k).scans = true →
    (∀ c, (s.pc c).building = false) ∧ s.m_threadIds = ids cfg s.created
  once : s.joined.Nodup
  ended : ∀ k ∈ s.joined, s.run k = .ended
  /-- when a `stop` has set `m_stopping` and none is on its way, no thread is left -/
  stopped : s.aborted = none → s.m_stopping = true → (∀ c, (s.pc c).ending = false) →
    ∀ k < s.created, k ∈ s.joined
  /-- a null pointer is joined only where `pthread_create` has failed -/
  null : s.aborted = some .null → s.created < cfg.m_threadCount
  live : s.dangling = false

/-! ### The stages of a pool -/

/-- The pointers of a pool of `n` threads, `i` of which have been made. -/
def slots (n i : Nat) : List (Option Nat) :=
  (List.range i).map some ++ List.replicate (n - i) none

theorem length_slots {n i : Nat} (h : i ≤ n) : (slots n i).length = n := by
  simp [slots]
  omega

theorem slots_set {n i : Nat} (h : i < n) : (slots n i).set i (some i) = slots n (i + 1) := by
  obtain ⟨m, hm⟩ : ∃ m, n - i = m + 1 := ⟨n - i - 1, by omega⟩
  have hrest : n - (i + 1) = m := by omega
  rw [slots, slots, hm, hrest, List.set_append, List.range_succ, List.replicate_succ]
  simp

theorem mem_slots {n i k : Nat} : some k ∈ slots n i ↔ k < i := by
  simp [slots]

/-- What has been joined is a front of the pool; a null pointer comes behind all threads. -/
theorem joined_of_slots {n i : Nat} {joined : List Nat} {left : List (Option Nat)} (h : i ≤ n)
    (hslots : joined.map some ++ left = slots n i) :
    joined = List.range joined.length ∧ joined.length ≤ i ∧
      (left = [] → joined.length = n ∧ i = n) ∧
      (∀ x rest, left = x :: rest → x = if joined.length < i then some joined.length else none) ∧
      (∀ rest, left = none :: rest → i < n) := by
  have hlen := congrArg List.length hslots
  rw [length_slots h, List.length_append, List.length_map] at hlen
  have hat : ∀ j, (joined.map some ++ left)[j]? = if j < i then some (some j) else
      if j < n then some none else none := by
    intro j
    rw [hslots, slots]
    grind
  have hle : joined.length ≤ i := by
    by_contra hgt
    have hget := hat i
    rw [List.getElem?_append_left (by rw [List.length_map]; omega), List.getElem?_map,
      if_neg (Nat.lt_irrefl i), List.getElem?_eq_getElem (by omega)] at hget
    split_ifs at hget <;> cases hget
  have hhead : ∀ x rest, left = x :: rest →
      x = if joined.length < i then some joined.length else none := by
    rintro x rest rfl
    have hget := hat joined.length
    rw [List.length_cons] at hlen
    rw [List.getElem?_append_right (by simp), List.length_map, Nat.sub_self] at hget
    split_ifs at hget ⊢ with hlt hn
    · exact Option.some.inj hget
    · exact Option.some.inj hget
    · omega
  refine ⟨?_, hle, ?_, hhead, ?_⟩
  · refine List.ext_getElem? fun j => ?_
    by_cases hj : j < joined.length
    · have hget := hat j
      rw [List.getElem?_append_left (by rw [List.length_map]; exact hj), List.getElem?_map,
        if_pos (by omega), List.getElem?_eq_getElem hj] at hget
      rw [List.getElem?_eq_getElem hj, List.getElem?_range hj]
      exact Option.some.inj hget
    · rw [List.getElem?_eq_none (by omega), List.getElem?_eq_none (by simp; omega)]
  · rintro rfl
    rw [List.length_nil] at hlen
    omega
  · rintro rest rfl
    have hnone := hhead none rest rfl
    rw [List.length_cons] at hlen
    split_ifs at hnone
    omega

/-- It is in the loop of `start`, or has threads to join. -/
def Pc.busy : Pc → Bool
  | .create _ | .wait .. | .push .. => true
  | .join done left => !(done.isEmpty && left.isEmpty)
  | _ => false

/-- It has set `m_stopping`. -/
def Pc.marked : Pc → Bool
  | .resume | .swap | .join .. => true
  | _ => false

/-- No other caller than `who` is busy. -/
def Quiet (s : State) (who : Option Nat) : Prop := ∀ c, who ≠ some c → (s.pc c).busy = false

/-- Where the threads of the pool are. -/
inductive Stage (s : State) : Prop
  | fresh (hcreated : s.created = 0) (hthreads : s.m_threads = [])
      (hids : s.m_threadIds = ids cfg 0) (hjoined : s.joined = []) (hquiet : Quiet s none)
  | create (c i : Nat) (hpc : s.pc c = .create i) (hi : i ≤ cfg.m_threadCount)
      (hcreated : s.created = i) (hthreads : s.m_threads = slots cfg.m_threadCount i)
      (hids : s.m_threadIds = ids cfg i) (hjoined : s.joined = []) (hquiet : Quiet s (some c))
  | wait (c i : Nat) (hpc : s.pc c = .wait i i) (hi : i < cfg.m_threadCount)
      (hcreated : s.created = i + 1) (hthreads : s.m_threads = slots cfg.m_threadCount i)
      (hids : s.m_threadIds = ids cfg i) (hjoined : s.joined = []) (hquiet : Quiet s (some c))
  | push (c i : Nat) (hpc : s.pc c = .push i i) (hi : i < cfg.m_threadCount)
      (hcreated : s.created = i + 1) (hthreads : s.m_threads = slots cfg.m_threadCount (i + 1))
      (hids : s.m_threadIds = ids cfg i) (hjoined : s.joined = []) (hquiet : Quiet s (some c))
  | pooled (hcreated : s.created ≤ cfg.m_threadCount)
      (hthreads : s.m_threads = slots cfg.m_threadCount s.created)
      (hids : s.m_threadIds = ids cfg s.created) (hjoined : s.joined = []) (hquiet : Quiet s none)
  | handed (c : Nat) (left : List (Option Nat)) (hpc : s.pc c = .join s.joined left)
      (hcreated : s.created ≤ cfg.m_threadCount)
      (hslots : s.joined.map some ++ left = slots cfg.m_threadCount s.created)
      (hthreads : s.m_threads = []) (hids : s.m_threadIds = ids cfg s.created)
      (hstopping : s.m_stopping = true) (hquiet : Quiet s (some c))
  | gone (hjoined : s.joined = List.range s.created) (hthreads : s.m_threads = [])
      (hids : s.m_threadIds = ids cfg s.created) (hstopping : s.m_stopping = true)
      (hquiet : Quiet s none)

variable {cfg} {s t : State}

/-- What is not busy moves freely. -/
theorem Stage.congr (h : Stage cfg s) (hcreated : t.created = s.created)
    (hthreads : t.m_threads = s.m_threads) (hids : t.m_threadIds = s.m_threadIds)
    (hjoined : t.joined = s.joined) (hstop : s.m_stopping = true → t.m_stopping = true)
    (hpc : ∀ c, t.pc c = s.pc c ∨ (s.pc c).busy = false ∧ (t.pc c).busy = false) :
    Stage cfg t := by
  have hquiet : ∀ {who}, Quiet s who → Quiet t who := by
    intro who hq c hc
    rcases hpc c with hsame | ⟨-, hidle⟩
    · rw [hsame]
      exact hq c hc
    · exact hidle
  have hsame : ∀ {c p}, s.pc c = p → p.busy = true → t.pc c = p := by
    rintro c _ rfl hbusy
    rcases hpc c with hsame | ⟨hidle, -⟩
    · exact hsame
    · rw [hidle] at hbusy
      cases hbusy
  cases h with
  | fresh h₁ h₂ h₃ h₄ h₅ =>
      exact .fresh (hcreated.trans h₁) (hthreads.trans h₂) (hids.trans h₃) (hjoined.trans h₄)
        (hquiet h₅)
  | create c i h₁ hi h₂ h₃ h₄ h₅ h₆ =>
      exact .create c i (hsame h₁ rfl) hi (hcreated.trans h₂) (hthreads.trans h₃) (hids.trans h₄)
        (hjoined.trans h₅) (hquiet h₆)
  | wait c i h₁ hi h₂ h₃ h₄ h₅ h₆ =>
      exact .wait c i (hsame h₁ rfl) hi (hcreated.trans h₂) (hthreads.trans h₃) (hids.trans h₄)
        (hjoined.trans h₅) (hquiet h₆)
  | push c i h₁ hi h₂ h₃ h₄ h₅ h₆ =>
      exact .push c i (hsame h₁ rfl) hi (hcreated.trans h₂) (hthreads.trans h₃) (hids.trans h₄)
        (hjoined.trans h₅) (hquiet h₆)
  | pooled h₁ h₂ h₃ h₄ h₅ =>
      rw [← hcreated] at h₁ h₂ h₃
      exact .pooled h₁ (hthreads.trans h₂) (hids.trans h₃) (hjoined.trans h₄) (hquiet h₅)
  | handed c left h₁ h₂ h₃ h₄ h₅ h₆ h₇ =>
      rw [← hcreated] at h₂ h₃ h₅
      rw [← hjoined] at h₁ h₃
      by_cases hbusy : (Pc.join t.joined left).busy = true
      · exact .handed c left (hsame h₁ hbusy) h₂ h₃ (hthreads.trans h₄) (hids.trans h₅) (hstop h₆)
          (hquiet h₇)
      · -- no thread was there
        obtain ⟨hdone, hleft⟩ : t.joined = [] ∧ left = [] := by simpa [Pc.busy] using hbusy
        have hcount := joined_of_slots h₂ h₃
        have hzero : t.created = 0 := by
          have hall := hcount.2.2.1 hleft
          rw [hdone] at hall
          exact hall.2.trans hall.1.symm
        refine .fresh hzero (hthreads.trans h₄) (by rw [hids, h₅, hzero]) hdone fun c' _ => ?_
        by_cases hc : c' = c
        · rcases hpc c with heq | ⟨-, hidle⟩
          · rw [hc, heq, h₁, hdone, hleft]
            rfl
          · rw [hc]
            exact hidle
        · exact hquiet h₇ c' fun heq => hc (Option.some.inj heq).symm
  | gone h₁ h₂ h₃ h₄ h₅ =>
      rw [← hjoined, ← hcreated] at h₁
      rw [← hcreated] at h₃
      exact .gone h₁ (hthreads.trans h₂) (hids.trans h₃) (hstop h₄) (hquiet h₅)

/-! ### The invariant -/

structure Inv (cfg : Config) (s : State) : Prop where
  mutex : ∀ c, (s.pc c).holds = true ↔ s.m_mutex = some c
  stage : Stage cfg s
  made : ∀ k < s.created, (s.run k ≠ .entry → (s.heap k).m_id = cfg.tid k) ∧
    (s.run k ≠ .entry → s.run k ≠ .named → (s.heap k).m_cb = false)
  sem : ∀ c i k, s.pc c = .wait i k → (s.heap k).m_semaphore = (s.run k).posted.toNat
  posted : ∀ k < s.created, (s.run k).posted = true ∨ ∃ c i, s.pc c = .wait i k
  thread : ∀ k < s.created, (s.heap k).m_thread = true ↔ k ∉ s.joined
  ended : ∀ k ∈ s.joined, s.run k = .ended
  destroyed : ∀ k < s.created, (s.heap k).live = false → s.run k = .ended
  scans : ∀ k < s.created, (s.run k).scans = true → ∀ c, (s.pc c).building = false
  pending : s.aborted = none → s.m_stopping = true →
    s.m_threads = [] ∧ (∀ c, (s.pc c).building = false) ∨ ∃ c, s.pc c = .resume ∨ s.pc c = .swap
  marked : ∀ c, (s.pc c).marked = true → s.m_stopping = true
  null : s.aborted = some .null → s.created < cfg.m_threadCount
  live : s.dangling = false

theorem start_inv : Inv cfg (start cfg) where
  mutex _ := ⟨nofun, nofun⟩
  stage := .fresh rfl rfl (List.append_nil _).symm rfl fun _ _ => rfl
  made _ hk := absurd hk (Nat.not_lt_zero _)
  sem _ _ _ := nofun
  posted _ hk := absurd hk (Nat.not_lt_zero _)
  thread _ hk := absurd hk (Nat.not_lt_zero _)
  ended _ hk := absurd hk List.not_mem_nil
  destroyed _ hk := absurd hk (Nat.not_lt_zero _)
  scans _ hk := absurd hk (Nat.not_lt_zero _)
  pending _ := nofun
  marked _ := nofun
  null := nofun
  live := rfl

theorem idle_of_quiet {who : Option Nat} (h : Quiet s who) {c : Nat} (hc : who ≠ some c) :
    (s.pc c).building = false := by
  have hidle := h c hc
  cases hpc : s.pc c <;> rw [hpc] at hidle <;> first | rfl | cases hidle

theorem busy_of_building {p : Pc} (h : p.building = true) : p.busy = true := by
  cases p <;> first | rfl | cases h

theorem holds_of_building {p : Pc} (h : p.building = true) : p.holds = true := by
  cases p <;> first | rfl | cases h

/-- A caller that is not busy, before and after, moves. -/
theorem Inv.moved (h : Inv cfg s) {c : Nat} {p : Pc} {m_mutex : Option Nat} {m_stopping : Bool}
    (hbusy : (s.pc c).busy = false) (hp : p.busy = false)
    (hholds : p.holds = true ↔ m_mutex = some c)
    (hmutex : ∀ c', c' ≠ c → (m_mutex = some c' ↔ s.m_mutex = some c'))
    (hstop : s.m_stopping = true → m_stopping = true)
    (hmarked : p.marked = true → m_stopping = true)
    (hpending : m_stopping = true → s.m_threads = [] ∧ (∀ c, (s.pc c).building = false) ∨
      ∃ c', Function.update s.pc c p c' = .resume ∨ Function.update s.pc c p c' = .swap) :
    Inv cfg { s.goto c p with m_mutex := m_mutex, m_stopping := m_stopping } := by
  have hpc : ∀ c', Function.update s.pc c p c' = s.pc c' ∨
      (s.pc c').busy = false ∧ (Function.update s.pc c p c').busy = false := by
    intro c'
    rcases eq_or_ne c' c with rfl | hne
    · rw [Function.update_self]
      exact .inr ⟨hbusy, hp⟩
    · exact .inl (Function.update_of_ne hne ..)
  have hbuilding : ∀ c', (s.pc c').building = false →
      (Function.update s.pc c p c').building = false := by
    intro c' hc'
    rcases hpc c' with hsame | ⟨-, hidle⟩
    · rw [hsame]
      exact hc'
    · exact Bool.eq_false_iff.mpr fun hb => by rw [busy_of_building hb] at hidle; cases hidle
  have hwait : ∀ c' i k, Function.update s.pc c p c' = .wait i k ↔ s.pc c' = .wait i k := by
    intro c' i k
    rcases hpc c' with hsame | ⟨hidle, hidle'⟩
    · rw [hsame]
    · exact ⟨fun heq => (by rw [heq] at hidle'; cases hidle'),
        fun heq => (by rw [heq] at hidle; cases hidle)⟩
  refine ⟨fun c' => ?_, h.stage.congr rfl rfl rfl rfl hstop hpc, h.made,
    fun c' i k heq => h.sem c' i k ((hwait c' i k).mp heq), fun k hk => ?_, h.thread, h.ended,
    h.destroyed, fun k hk hscan c' => hbuilding c' (h.scans k hk hscan c'), fun _ hs => ?_,
    fun c' hc' => ?_, h.null, h.live⟩
  · show (Function.update s.pc c p c').holds = true ↔ m_mutex = some c'
    rcases eq_or_ne c' c with rfl | hne
    · rw [Function.update_self]
      exact hholds
    · rw [Function.update_of_ne hne, hmutex c' hne]
      exact h.mutex c'
  · exact (h.posted k hk).imp_right fun ⟨c', i, heq⟩ => ⟨c', i, (hwait c' i k).mpr heq⟩
  · exact (hpending hs).imp_left fun hnone => ⟨hnone.1, fun c' => hbuilding c' (hnone.2 c')⟩
  · have hc'' : (Function.update s.pc c p c').marked = true := hc'
    rcases eq_or_ne c' c with rfl | hne
    · rw [Function.update_self] at hc''
      exact hmarked hc''
    · rw [Function.update_of_ne hne] at hc''
      exact hstop (h.marked c' hc'')

theorem Inv.abort (h : Inv cfg s) {why : Abort} {m_stopping : Bool}
    (hstop : s.m_stopping = true → m_stopping = true)
    (hnull : why = .null → s.created < cfg.m_threadCount) :
    Inv cfg ({ s with m_stopping := m_stopping }.abort why) :=
  { h with
    stage := h.stage.congr rfl rfl rfl rfl hstop fun _ => .inl rfl
    pending := nofun
    marked := fun c hc => hstop (h.marked c hc)
    null := fun hwhy => hnull (Option.some.inj hwhy) }

/-- A thread of the pool moves. -/
theorem Inv.ran (h : Inv cfg s) {k : Nat} {thread : Thread} {run : RunPc}
    (hne : s.run k ≠ .ended)
    (hmade : (run ≠ .entry → thread.m_id = cfg.tid k) ∧
      (run ≠ .entry → run ≠ .named → thread.m_cb = false))
    (hthread : thread.m_thread = (s.heap k).m_thread) (hlive : thread.live = (s.heap k).live)
    (hsem : ∀ c i, s.pc c = .wait i k → thread.m_semaphore = run.posted.toNat)
    (hposted : (s.run k).posted = true → run.posted = true)
    (hscans : run.scans = true → (s.run k).scans = true ∨ ∀ c, (s.pc c).building = false) :
    Inv cfg { s with
      heap := Function.update s.heap k thread
      run := Function.update s.run k run } := by
  -- every other thread, and its object, stay
  have hother : ∀ j, j ≠ k → Function.update s.heap k thread j = s.heap j ∧
      Function.update s.run k run j = s.run j :=
    fun j hj => ⟨Function.update_of_ne hj .., Function.update_of_ne hj ..⟩
  have hself : Function.update s.heap k thread k = thread ∧ Function.update s.run k run k = run :=
    ⟨Function.update_self .., Function.update_self ..⟩
  refine { h with
    stage := h.stage.congr rfl rfl rfl rfl id fun _ => .inl rfl
    made := fun j hj => ?_, sem := fun c i j heq => ?_, posted := fun j hj => ?_
    thread := fun j hj => ?_, ended := fun j hj => ?_, destroyed := fun j hj hdead => ?_
    scans := fun j hj hscan => ?_ }
  all_goals dsimp only at *
  all_goals rcases eq_or_ne j k with rfl | hjk
  · rw [hself.1, hself.2]
    exact hmade
  · rw [(hother j hjk).1, (hother j hjk).2]
    exact h.made j hj
  · rw [hself.1, hself.2]
    exact hsem c i heq
  · rw [(hother j hjk).1, (hother j hjk).2]
    exact h.sem c i j heq
  · rw [hself.2]
    exact (h.posted j hj).imp_left hposted
  · rw [(hother j hjk).2]
    exact h.posted j hj
  · rw [hself.1, hthread]
    exact h.thread j hj
  · rw [(hother j hjk).1]
    exact h.thread j hj
  · exact absurd (h.ended j hj) hne
  · rw [(hother j hjk).2]
    exact h.ended j hj
  · rw [hself.1, hlive] at hdead
    exact absurd (h.destroyed j hj hdead) hne
  · rw [(hother j hjk).1] at hdead
    rw [(hother j hjk).2]
    exact h.destroyed j hj hdead
  · rw [hself.2] at hscan
    exact (hscans hscan).elim (h.scans j hj) id
  · rw [(hother j hjk).2] at hscan
    exact h.scans j hj hscan

/-- A thread that has not ended finds its object. -/
theorem Inv.use_eq (h : Inv cfg s) {k : Nat} (hk : k < s.created) (hne : s.run k ≠ .ended)
    (thread : Thread) (run : RunPc) :
    s.use k thread run = { s with
      heap := Function.update s.heap k thread
      run := Function.update s.run k run } := by
  have hlive : (s.heap k).live = true := by
    by_contra hdead
    exact hne (h.destroyed k hk (Bool.not_eq_true _ ▸ hdead))
  simp only [State.use, hlive, Bool.not_true, Bool.or_false]

theorem Quiet.same {who : Option Nat} (h : Quiet s who) {c : Nat} (hbusy : (s.pc c).busy = true) :
    who = some c := by
  by_contra hne
  rw [h c hne] at hbusy
  cases hbusy

/-- What the stage is while a caller is in the loop of `start`. -/
theorem Stage.of_building (h : Stage cfg s) {c : Nat} (hc : (s.pc c).building = true) :
    Quiet s (some c) ∧ s.joined = [] ∧
      ((∃ i, s.pc c = .create i ∧ i ≤ cfg.m_threadCount ∧ s.created = i ∧
          s.m_threads = slots cfg.m_threadCount i ∧ s.m_threadIds = ids cfg i) ∨
        (∃ i, s.pc c = .wait i i ∧ i < cfg.m_threadCount ∧ s.created = i + 1 ∧
          s.m_threads = slots cfg.m_threadCount i ∧ s.m_threadIds = ids cfg i) ∨
        ∃ i, s.pc c = .push i i ∧ i < cfg.m_threadCount ∧ s.created = i + 1 ∧
          s.m_threads = slots cfg.m_threadCount (i + 1) ∧ s.m_threadIds = ids cfg i) := by
  have hbusy := busy_of_building hc
  cases h with
  | fresh _ _ _ _ hq => cases hq.same hbusy
  | create c' i hpc hi hcreated hthreads hids hjoined hq =>
      cases hq.same hbusy
      exact ⟨hq, hjoined, .inl ⟨i, hpc, hi, hcreated, hthreads, hids⟩⟩
  | wait c' i hpc hi hcreated hthreads hids hjoined hq =>
      cases hq.same hbusy
      exact ⟨hq, hjoined, .inr (.inl ⟨i, hpc, hi, hcreated, hthreads, hids⟩)⟩
  | push c' i hpc hi hcreated hthreads hids hjoined hq =>
      cases hq.same hbusy
      exact ⟨hq, hjoined, .inr (.inr ⟨i, hpc, hi, hcreated, hthreads, hids⟩)⟩
  | pooled _ _ _ _ hq => cases hq.same hbusy
  | handed c' left hpc _ _ _ _ _ hq =>
      cases hq.same hbusy
      rw [hpc] at hc
      cases hc
  | gone _ _ _ _ hq => cases hq.same hbusy

/-- What it is while a caller has threads to join. -/
theorem Stage.of_join (h : Stage cfg s) {c : Nat} {done : List Nat} {left : List (Option Nat)}
    (hpc : s.pc c = .join done left) (hbusy : (s.pc c).busy = true) :
    Quiet s (some c) ∧ done = s.joined ∧ s.created ≤ cfg.m_threadCount ∧
      s.joined.map some ++ left = slots cfg.m_threadCount s.created ∧ s.m_threads = [] ∧
      s.m_threadIds = ids cfg s.created ∧ s.m_stopping = true := by
  cases h with
  | fresh _ _ _ _ hq => cases hq.same hbusy
  | create c' i hpc' _ _ _ _ _ hq | wait c' i hpc' _ _ _ _ _ hq | push c' i hpc' _ _ _ _ _ hq =>
      cases hq.same hbusy
      rw [hpc] at hpc'
      cases hpc'
  | pooled _ _ _ _ hq => cases hq.same hbusy
  | handed c' left' hpc' hcreated hslots hthreads hids hstopping hq =>
      cases hq.same hbusy
      rw [hpc] at hpc'
      cases hpc'
      exact ⟨hq, rfl, hcreated, hslots, hthreads, hids, hstopping⟩
  | gone _ _ _ _ hq => cases hq.same hbusy

theorem quiet_goto {who : Option Nat} (h : Quiet s who) {c : Nat} (hwho : who = some c ∨ who = none)
    (p : Pc) : Quiet (s.goto c p) (some c) := by
  intro c' hc'
  have hne : c' ≠ c := fun heq => hc' (by rw [heq])
  show (Function.update s.pc c p c').busy = false
  rw [Function.update_of_ne hne]
  refine h c' ?_
  rcases hwho with rfl | rfl
  · exact hc'
  · exact nofun

theorem quiet_goto_idle {who : Option Nat} (h : Quiet s who) {c : Nat}
    (hwho : who = some c ∨ who = none) {p : Pc} (hp : p.busy = false) :
    Quiet (s.goto c p) none := by
  intro c' _
  by_cases hc : c' = c
  · show (Function.update s.pc c p c').busy = false
    rw [hc, Function.update_self]
    exact hp
  · exact quiet_goto h hwho p c' fun heq => hc (Option.some.inj heq).symm

end Threads

end Scheduler

end Will
