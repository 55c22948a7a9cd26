/-
ZjhServer/Timer/Basic.lean

`Timer` and `TimerManager` (server/timer.{h,cc}).

A `Timer*` is a number, its address; `heap` is the object at each address, one
that was never allocated counting as dead.  `m_timers`, a `std::set` ordered by
`Timer::Comparator`, is the list of its members in that order.  Each public
function is one step: its locked region is, and what it does before the lock
reads only its arguments and the clock (`now`).  Erasing `end()` is undefined;
the functions give no result there, and `Inv` excludes it.
-/
import ZjhServer.Lib.Lts
import Mathlib.Data.List.Pairwise
import Mathlib.Data.List.TakeWhile

namespace Will

/-- A callback, by name. -/
abbrev Cb := Nat

/-- The data members; `m_cb` is `none` for an empty `std::function`. -/
structure Timer where
  m_recurring : Bool
  m_ms : UInt64
  m_next : UInt64
  m_cb : Option Cb
  deriving DecidableEq, Repr

structure TimerManager where
  m_timers : List Nat
  m_tickled : Bool
  m_previouseTime : UInt64
  heap : Nat → Timer

namespace TimerManager

/-- `TimerManager::TimerManager()` at clock reading `now`. -/
def new (now : UInt64) : TimerManager where
  m_timers := []
  m_tickled := false
  m_previouseTime := now
  heap := fun _ => ⟨false, 0, 0, none⟩

def setTimer (s : TimerManager) (p : Nat) (timer : Timer) : TimerManager :=
  { s with heap := fun q => if q = p then timer else s.heap q }

/-- `Timer::Comparator` on non-null pointers. -/
def less (s : TimerManager) (lhs rhs : Nat) : Bool :=
  if (s.heap lhs).m_next < (s.heap rhs).m_next then true
  else if (s.heap rhs).m_next < (s.heap lhs).m_next then false
  else lhs < rhs

/-- `m_timers.find(p)`: the member equivalent to `p` under the comparator. -/
def find (s : TimerManager) (p : Nat) : Option Nat :=
  s.m_timers.find? fun q => !s.less q p && !s.less p q

/-- `m_timers.insert(p)`: before the first member that is not less, unless that
one is equivalent. -/
def insertInto (s : TimerManager) (p : Nat) : List Nat → List Nat
  | [] => [p]
  | q :: qs =>
      if s.less q p then q :: s.insertInto p qs
      else if s.less p q then p :: q :: qs
      else q :: qs

def insert (s : TimerManager) (p : Nat) : TimerManager :=
  { s with m_timers := s.insertInto p s.m_timers }

def erase (s : TimerManager) (p : Nat) : TimerManager :=
  { s with m_timers := s.m_timers.erase p }

/-- `addTimer(val, lock)`; the flag is whether `onTimerInsertedAtFront` is called. -/
def addTimerLocked (s : TimerManager) (val : Nat) : TimerManager × Bool :=
  let s := s.insert val
  let at_front := s.m_timers.head? = some val && !s.m_tickled
  ({ s with m_tickled := at_front || s.m_tickled }, at_front)

/-- `addTimer(ms, cb, recurring)`: the constructor of the timer at `p` reads the
clock. -/
def addTimer (s : TimerManager) (p : Nat) (now ms : UInt64) (cb : Option Cb)
    (recurring : Bool) : TimerManager × Bool :=
  (s.setTimer p ⟨recurring, ms, now + ms, cb⟩).addTimerLocked p

/-- `Timer::cancel` -/
def cancel (s : TimerManager) (p : Nat) : Option (TimerManager × Bool) :=
  if (s.heap p).m_cb.isSome then do
    let s := s.setTimer p { s.heap p with m_cb := none }
    let it ← s.find p
    pure (s.erase it, true)
  else some (s, false)

/-- `Timer::refresh` at clock reading `now`. -/
def refresh (s : TimerManager) (p : Nat) (now : UInt64) : TimerManager × Bool :=
  if (s.heap p).m_cb = none then (s, false)
  else
    match s.find p with
    | none => (s, false)
    | some it =>
        let s := s.erase it
        let s := s.setTimer p { s.heap p with m_next := now + (s.heap p).m_ms }
        (s.insert p, true)

/-- `Timer::reset` at clock reading `now`. -/
def reset (s : TimerManager) (p : Nat) (now ms : UInt64) (from_now : Bool) :
    TimerManager × Bool :=
  if ms = (s.heap p).m_ms && !from_now then (s, true)
  else if (s.heap p).m_cb = none then (s, false)
  else
    match s.find p with
    | none => (s, false)
    | some it =>
        let s := s.erase it
        let start := if from_now then now else (s.heap p).m_next - (s.heap p).m_ms
        let s := s.setTimer p { s.heap p with m_ms := ms, m_next := start + ms }
        ((s.addTimerLocked p).1, true)

/-- `getNextTimer` at clock reading `now`. -/
def getNextTimer (s : TimerManager) (now : UInt64) : TimerManager × UInt64 :=
  let s := { s with m_tickled := false }
  match s.m_timers with
  | [] => (s, ~~~0)
  | next :: _ =>
      if now ≥ (s.heap next).m_next then (s, 0) else (s, (s.heap next).m_next - now)

/-- `now_ms < m_previouseTime && now_ms < (m_previouseTime - 60 * 60 * 1000)` -/
def rollover (previouse now : UInt64) : Bool :=
  now < previouse && now < previouse - 60 * 60 * 1000

def detectClockRollover (s : TimerManager) (now : UInt64) : TimerManager × Bool :=
  ({ s with m_previouseTime := now }, rollover s.m_previouseTime now)

/-- `now_timer` at address `probe` against a member: `lower_bound` stops at the
first member for which this fails. -/
def beforeProbe (s : TimerManager) (now : UInt64) (probe p : Nat) : Bool :=
  if (s.heap p).m_next < now then true
  else if now < (s.heap p).m_next then false
  else p < probe

/-- The members `[begin, it)` that `listExpiredCb` moves out of the set. -/
def expired (s : TimerManager) (now : UInt64) (probe : Nat) (rollover : Bool) : List Nat :=
  if rollover then s.m_timers
  else
    s.m_timers.takeWhile (s.beforeProbe now probe) ++
      (s.m_timers.dropWhile (s.beforeProbe now probe)).takeWhile
        fun p => (s.heap p).m_next = now

/-- The loop over `expired`: the callbacks, in order, and each timer re-armed or
dead. -/
def fireAll (now : UInt64) : List Nat → TimerManager → TimerManager × List (Option Cb)
  | [], s => (s, [])
  | p :: ps, s =>
      let timer := s.heap p
      let s :=
        if timer.m_recurring then
          (s.setTimer p { timer with m_next := now + timer.m_ms }).insert p
        else s.setTimer p { timer with m_cb := none }
      let r := fireAll now ps s
      (r.1, timer.m_cb :: r.2)

/-- `listExpiredCb` at clock reading `now`; `probe` is the address of `now_timer`.
The callbacks are those put in `cbs`. -/
def listExpiredCb (s : TimerManager) (now : UInt64) (probe : Nat) :
    TimerManager × List (Option Cb) :=
  match s.m_timers with
  | [] => (s, [])
  | first :: _ =>
      let (s, rollover) := s.detectClockRollover now
      if !rollover && (s.heap first).m_next > now then (s, [])
      else
        let out := s.expired now probe rollover
        fireAll now out { s with m_timers := s.m_timers.drop out.length }

/-- The timers that call takes out of the set. -/
def due (s : TimerManager) (now : UInt64) (probe : Nat) : List Nat :=
  match s.m_timers with
  | [] => []
  | first :: _ =>
      if !rollover s.m_previouseTime now && (s.heap first).m_next > now then []
      else s.expired now probe (rollover s.m_previouseTime now)

/-! ### The set invariant -/

@[simp] theorem setTimer_heap_same (s : TimerManager) (p : Nat) (timer : Timer) :
    (s.setTimer p timer).heap p = timer := if_pos rfl

theorem setTimer_heap_ne (s : TimerManager) {p q : Nat} (timer : Timer) (h : q ≠ p) :
    (s.setTimer p timer).heap q = s.heap q := if_neg h

/-- The comparator orders by `(m_next, address)`. -/
theorem less_iff (s : TimerManager) (p q : Nat) :
    s.less p q = true ↔ (s.heap p).m_next < (s.heap q).m_next ∨
      ((s.heap p).m_next = (s.heap q).m_next ∧ p < q) := by
  unfold less
  simp only [← UInt64.toNat_inj, UInt64.lt_iff_toNat_lt]
  split_ifs <;> simp <;> omega

theorem less_trans {s : TimerManager} {p q r : Nat} (h : s.less p q = true)
    (h' : s.less q r = true) : s.less p r = true := by
  simp only [less_iff, ← UInt64.toNat_inj, UInt64.lt_iff_toNat_lt] at *
  omega

theorem less_irrefl (s : TimerManager) (p : Nat) : s.less p p = false := by
  rw [Bool.eq_false_iff, Ne, less_iff]
  simp

/-- Equivalent under the comparator is equal. -/
theorem eq_of_not_less {s : TimerManager} {p q : Nat} (h : s.less p q = false)
    (h' : s.less q p = false) : p = q := by
  rw [Bool.eq_false_iff, Ne, less_iff] at h h'
  simp only [← UInt64.toNat_inj, UInt64.lt_iff_toNat_lt] at *
  omega

/-- `find` finds exactly the members. -/
theorem find_eq (s : TimerManager) (p : Nat) :
    s.find p = if p ∈ s.m_timers then some p else none := by
  unfold find
  split_ifs with hmem
  · have hsome : (s.m_timers.find? fun q => !s.less q p && !s.less p q).isSome :=
      List.find?_isSome.mpr ⟨p, hmem, by rw [less_irrefl]; rfl⟩
    obtain ⟨q, hq⟩ := Option.isSome_iff_exists.mp hsome
    have heq := List.find?_some hq
    simp only [Bool.and_eq_true, Bool.not_eq_true'] at heq
    rw [hq, eq_of_not_less heq.1 heq.2]
  · rw [List.find?_eq_none]
    rintro q hq heq
    simp only [Bool.and_eq_true, Bool.not_eq_true'] at heq
    exact hmem (eq_of_not_less heq.1 heq.2 ▸ hq)

/-- The list is in the order of the comparator. -/
def Sorted (s : TimerManager) (l : List Nat) : Prop := l.Pairwise fun p q => s.less p q = true

theorem Sorted.not_mem {s : TimerManager} {p : Nat} {l : List Nat} (h : s.Sorted (p :: l)) :
    p ∉ l := by
  intro hmem
  have := (List.pairwise_cons.mp h).1 p hmem
  rw [less_irrefl] at this
  cases this

theorem Sorted.nodup {s : TimerManager} {l : List Nat} (h : s.Sorted l) : l.Nodup := by
  induction l with
  | nil => exact List.nodup_nil
  | cons p l ih => exact List.nodup_cons.mpr ⟨h.not_mem, ih h.of_cons⟩

/-- Objects outside the list do not matter. -/
theorem Sorted.setTimer {s : TimerManager} {l : List Nat} (h : s.Sorted l) {p : Nat}
    (hp : p ∉ l) (timer : Timer) : (s.setTimer p timer).Sorted l := by
  refine List.Pairwise.imp_of_mem (fun {a b} ha hb hab => ?_) h
  have hap : a ≠ p := fun e => hp (e ▸ ha)
  have hbp : b ≠ p := fun e => hp (e ▸ hb)
  rw [less, setTimer_heap_ne _ _ hap, setTimer_heap_ne _ _ hbp]
  exact hab

theorem mem_insertInto {s : TimerManager} {p q : Nat} {l : List Nat} (hp : p ∉ l) :
    q ∈ s.insertInto p l ↔ q = p ∨ q ∈ l := by
  induction l with
  | nil => simp [insertInto]
  | cons r l ih =>
      rw [List.mem_cons, not_or] at hp
      rw [insertInto]
      split_ifs with h₁ h₂
      · rw [List.mem_cons, ih hp.2, List.mem_cons]
        tauto
      · rw [List.mem_cons]
      · exact absurd (eq_of_not_less (Bool.not_eq_true _ ▸ h₂) (Bool.not_eq_true _ ▸ h₁)) hp.1

theorem Sorted.insertInto {s : TimerManager} {p : Nat} {l : List Nat} (h : s.Sorted l)
    (hp : p ∉ l) : s.Sorted (s.insertInto p l) := by
  induction l with
  | nil => exact List.pairwise_singleton _ _
  | cons r l ih =>
      have hne := (List.mem_cons.not.mp hp)
      rw [not_or] at hne
      have hr := (List.pairwise_cons.mp h).1
      rw [TimerManager.insertInto]
      split_ifs with h₁ h₂
      · refine List.pairwise_cons.mpr ⟨fun q hq => ?_, ih h.of_cons hne.2⟩
        rcases (mem_insertInto hne.2).mp hq with rfl | hq
        · exact h₁
        · exact hr q hq
      · refine List.pairwise_cons.mpr ⟨fun q hq => ?_, h⟩
        rcases List.mem_cons.mp hq with rfl | hq
        · exact h₂
        · exact less_trans h₂ (hr q hq)
      · exact h

/-- The set is sorted, and a timer with a callback is in the set, or among those
of `out`, which `listExpiredCb` is about to fire. -/
structure InvBut (out : List Nat) (s : TimerManager) : Prop where
  sorted : s.Sorted s.m_timers
  member : ∀ p, (s.heap p).m_cb.isSome → p ∈ s.m_timers ∨ p ∈ out

/-- The invariant between any two calls. -/
abbrev Inv (s : TimerManager) : Prop := InvBut [] s

theorem Inv.mem {s : TimerManager} (h : s.Inv) {p : Nat} (hp : (s.heap p).m_cb.isSome) :
    p ∈ s.m_timers := (h.member p hp).resolve_right (List.not_mem_nil)

theorem new_inv (now : UInt64) : (new now).Inv where
  sorted := List.Pairwise.nil
  member := by intro p hp; cases hp

/-- Arm a timer that is not in the set: set its object, insert it. -/
theorem InvBut.arm {p : Nat} {out : List Nat} {s : TimerManager} (h : InvBut (p :: out) s)
    (hp : p ∉ s.m_timers) (timer : Timer) : InvBut out ((s.setTimer p timer).insert p) where
  sorted := (h.sorted.setTimer hp timer).insertInto hp
  member := by
    intro q hq
    show q ∈ (s.setTimer p timer).insertInto p s.m_timers ∨ q ∈ out
    rw [mem_insertInto hp]
    by_cases hqp : q = p
    · exact .inl (.inl hqp)
    · have hq' : (s.heap q).m_cb.isSome := by
        rw [← setTimer_heap_ne s timer hqp]; exact hq
      rcases h.member q hq' with hm | hm
      · exact .inl (.inr hm)
      · exact .inr ((List.mem_cons.mp hm).resolve_left hqp)

/-- Kill a timer that is not in the set. -/
theorem InvBut.kill {p : Nat} {out : List Nat} {s : TimerManager} (h : InvBut (p :: out) s)
    (hp : p ∉ s.m_timers) (timer : Timer) (hcb : timer.m_cb = none) :
    InvBut out (s.setTimer p timer) where
  sorted := h.sorted.setTimer hp timer
  member := by
    intro q hq
    by_cases hqp : q = p
    · subst hqp
      rw [setTimer_heap_same, hcb] at hq
      cases hq
    · rw [setTimer_heap_ne s timer hqp] at hq
      rcases h.member q hq with hm | hm
      · exact .inl hm
      · exact .inr ((List.mem_cons.mp hm).resolve_left hqp)

/-- Take a member out. -/
theorem InvBut.erase {out : List Nat} {s : TimerManager} (h : InvBut out s) (p : Nat) :
    InvBut (p :: out) (s.erase p) ∧ p ∉ (s.erase p).m_timers := by
  refine ⟨⟨h.sorted.sublist List.erase_sublist, fun q hq => ?_⟩, h.sorted.nodup.not_mem_erase⟩
  by_cases hqp : q = p
  · exact .inr (hqp ▸ List.mem_cons_self ..)
  · rcases h.member q hq with hm | hm
    · exact .inl ((List.mem_erase_of_ne hqp).mpr hm)
    · exact .inr (List.mem_cons_of_mem _ hm)

theorem setTimer_erase (s : TimerManager) (p q : Nat) (timer : Timer) :
    (s.setTimer p timer).erase q = (s.erase q).setTimer p timer := rfl

theorem addTimerLocked_inv {out : List Nat} {s : TimerManager} {val : Nat}
    (h : InvBut out (s.insert val)) : InvBut out (s.addTimerLocked val).1 := ⟨h.sorted, h.member⟩

theorem addTimer_inv {s : TimerManager} (h : s.Inv) {p : Nat} (hp : p ∉ s.m_timers)
    (now ms : UInt64) (cb : Option Cb) (recurring : Bool) :
    (s.addTimer p now ms cb recurring).1.Inv := by
  have h' : InvBut [p] s := ⟨h.sorted, fun q hq => .inl (h.mem hq)⟩
  exact addTimerLocked_inv (h'.arm hp _)

/-- The `find` of `cancel` never gives `end()`. -/
theorem cancel_inv {s : TimerManager} (h : s.Inv) (p : Nat) :
    ∃ t b, s.cancel p = some (t, b) ∧ t.Inv := by
  unfold cancel
  split_ifs with hcb
  · have hmem : p ∈ (s.setTimer p { s.heap p with m_cb := none }).m_timers := h.mem hcb
    obtain ⟨he, hp⟩ := h.erase p
    refine ⟨_, true, by simp only [find_eq, if_pos hmem]; rfl, ?_⟩
    rw [setTimer_erase]
    exact he.kill hp _ rfl
  · exact ⟨s, false, rfl, h⟩

theorem refresh_inv {s : TimerManager} (h : s.Inv) (p : Nat) (now : UInt64) :
    (s.refresh p now).1.Inv := by
  unfold refresh
  rw [find_eq]
  split_ifs with hcb hmem
  · exact h
  · obtain ⟨he, hp⟩ := h.erase p
    exact he.arm hp _
  · exact h

theorem reset_inv {s : TimerManager} (h : s.Inv) (p : Nat) (now ms : UInt64)
    (from_now : Bool) : (s.reset p now ms from_now).1.Inv := by
  obtain ⟨he, hp⟩ := h.erase p
  unfold reset
  rw [find_eq]
  by_cases hsame : (ms = (s.heap p).m_ms && !from_now) = true
  · rw [if_pos hsame]; exact h
  rw [if_neg hsame]
  by_cases hcb : (s.heap p).m_cb = none
  · rw [if_pos hcb]; exact h
  rw [if_neg hcb]
  by_cases hmem : p ∈ s.m_timers
  · rw [if_pos hmem]
    exact addTimerLocked_inv (he.arm hp _)
  · rw [if_neg hmem]
    exact h

theorem getNextTimer_fst (s : TimerManager) (now : UInt64) :
    (s.getNextTimer now).1 = { s with m_tickled := false } := by
  unfold getNextTimer
  rcases s.m_timers with _ | ⟨first, rest⟩
  · rfl
  · simp only
    split_ifs <;> rfl

theorem getNextTimer_inv {s : TimerManager} (h : s.Inv) (now : UInt64) :
    (s.getNextTimer now).1.Inv := by
  rw [getNextTimer_fst]
  exact ⟨h.sorted, h.member⟩

/-- The loop of `listExpiredCb`, over distinct timers outside the set: it re-arms
or kills each, and collects the callbacks they had. -/
theorem fireAll_spec (now : UInt64) {out : List Nat} {s : TimerManager} (h : InvBut out s)
    (hnodup : out.Nodup) (hout : ∀ p ∈ out, p ∉ s.m_timers) :
    (fireAll now out s).1.Inv ∧
      (fireAll now out s).2 = out.map fun p => (s.heap p).m_cb := by
  induction out generalizing s with
  | nil => exact ⟨h, rfl⟩
  | cons p out ih =>
      have hp := hout p (List.mem_cons_self ..)
      rw [List.nodup_cons] at hnodup
      have hne : ∀ q ∈ out, q ≠ p := fun q hq e => hnodup.1 (e ▸ hq)
      rw [fireAll]
      simp only
      -- the timers still to fire are neither touched nor inserted by this turn
      split_ifs with hrec
      · have harm := h.arm hp { s.heap p with m_next := now + (s.heap p).m_ms }
        obtain ⟨hinv, hcbs⟩ := ih harm hnodup.2 (by
          intro q hq hmem
          rcases (mem_insertInto hp).mp hmem with e | hmem
          · exact hne q hq e
          · exact hout q (List.mem_cons_of_mem _ hq) hmem)
        refine ⟨hinv, ?_⟩
        rw [hcbs, List.map_cons]
        congr 1
        exact List.map_congr_left fun q hq =>
          congrArg Timer.m_cb (setTimer_heap_ne s _ (hne q hq))
      · have hkill := h.kill hp { s.heap p with m_cb := none } rfl
        obtain ⟨hinv, hcbs⟩ := ih hkill hnodup.2
          fun q hq => hout q (List.mem_cons_of_mem _ hq)
        refine ⟨hinv, ?_⟩
        rw [hcbs, List.map_cons]
        congr 1
        exact List.map_congr_left fun q hq =>
          congrArg Timer.m_cb (setTimer_heap_ne s _ (hne q hq))

/-- `[begin, it)` is a front of the set. -/
theorem expired_front (s : TimerManager) (now : UInt64) (probe : Nat) (rollover : Bool) :
    ∃ rest, s.m_timers = s.expired now probe rollover ++ rest := by
  unfold expired
  split
  · exact ⟨[], (List.append_nil _).symm⟩
  · refine ⟨(s.m_timers.dropWhile (s.beforeProbe now probe)).dropWhile
      fun p => (s.heap p).m_next = now, ?_⟩
    rw [List.append_assoc, List.takeWhile_append_dropWhile, List.takeWhile_append_dropWhile]

theorem listExpiredCb_cons {s : TimerManager} {first : Nat} {rest : List Nat}
    (h : s.m_timers = first :: rest) (now : UInt64) (probe : Nat) :
    s.listExpiredCb now probe =
      if !rollover s.m_previouseTime now && (s.heap first).m_next > now then
        ({ s with m_previouseTime := now }, [])
      else
        fireAll now (s.expired now probe (rollover s.m_previouseTime now))
          { s with
            m_previouseTime := now
            m_timers := s.m_timers.drop
              (s.expired now probe (rollover s.m_previouseTime now)).length } := by
  unfold listExpiredCb
  split
  · rename_i hnil
    rw [hnil] at h
    cases h
  · rename_i first' rest' hset
    obtain ⟨rfl, rfl⟩ := List.cons.inj (hset.symm.trans h)
    rfl

/-- A call of `listExpiredCb` fires the timers of `due`, a front of the set, with
the callbacks they had. -/
theorem listExpiredCb_spec {s : TimerManager} (h : s.Inv) (now : UInt64) (probe : Nat) :
    (s.listExpiredCb now probe).1.Inv ∧
      (s.listExpiredCb now probe).2 = (s.due now probe).map fun p => (s.heap p).m_cb := by
  rcases hset : s.m_timers with _ | ⟨first, rest⟩
  · have hdue : s.due now probe = [] := by unfold due; rw [hset]
    have hrun : s.listExpiredCb now probe = (s, []) := by unfold listExpiredCb; rw [hset]
    rw [hdue, hrun]
    exact ⟨h, rfl⟩
  · have hdue : s.due now probe =
        if !rollover s.m_previouseTime now && (s.heap first).m_next > now then []
        else s.expired now probe (rollover s.m_previouseTime now) := by
      unfold due; rw [hset]
    rw [hdue, listExpiredCb_cons hset]
    split_ifs with hnone
    · exact ⟨⟨h.sorted, h.member⟩, rfl⟩
    · obtain ⟨more, hmore⟩ := expired_front s now probe (rollover s.m_previouseTime now)
      have hdrop : s.m_timers.drop
          (s.expired now probe (rollover s.m_previouseTime now)).length = more := by
        rw [hmore, List.drop_left]
      have hall := h.sorted.nodup
      rw [hmore, List.nodup_append] at hall
      rw [hdrop]
      refine fireAll_spec now ⟨?_, fun q hq => ?_⟩ hall.1 fun q hq hmem => ?_
      · have hsorted := h.sorted
        rw [hmore] at hsorted
        exact hsorted.sublist (List.sublist_append_right _ _)
      · have hmem := h.mem hq
        rw [hmore, List.mem_append] at hmem
        exact hmem.symm
      · exact hall.2.2 q hq q hmem rfl

end TimerManager

end Will
