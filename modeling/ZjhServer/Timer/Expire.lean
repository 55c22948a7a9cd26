/-
ZjhServer/Timer/Expire.lean

When timers fire.  A run is a sequence of calls by any threads; a call of
`listExpiredCb` brings the clock reading it took before the lock, which may be
older than one already processed.  `largest` is the largest reading processed so
far, the constructor's included.

A reading at most one hour behind is no rollover, as long as the subtraction in
`detectClockRollover` does not wrap (`rollover_late_iff`); with a previous
reading below one hour it wraps, and any smaller reading flushes every timer
(`fires_early_after_boot`).  In runs where that does not happen no timer fires
early (`fires_not_early`).
-/
import ZjhServer.Timer.Basic

namespace Will

namespace TimerManager

/-! ### Calls -/

/-- A call, with the clock reading it takes.  The constructor called by `addTimer`
puts the timer at address `p`; `probe` is the address of `now_timer`. -/
inductive Op
  | addTimer (p : Nat) (now ms : UInt64) (cb : Option Cb) (recurring : Bool)
  | cancel (p : Nat)
  | refresh (p : Nat) (now : UInt64)
  | reset (p : Nat) (now ms : UInt64) (from_now : Bool)
  | getNextTimer (now : UInt64)
  | listExpiredCb (now : UInt64) (probe : Nat)
  deriving DecidableEq, Repr

/-- The effect of a call.  `new` gives no address that a timer in the set has. -/
def step (s : TimerManager) : Op → Option TimerManager
  | .addTimer p now ms cb recurring =>
      if p ∈ s.m_timers then none else some (s.addTimer p now ms cb recurring).1
  | .cancel p => (s.cancel p).map Prod.fst
  | .refresh p now => some (s.refresh p now).1
  | .reset p now ms from_now => some (s.reset p now ms from_now).1
  | .getNextTimer now => some (s.getNextTimer now).1
  | .listExpiredCb now probe =>
      if probe ∈ s.m_timers then none else some (s.listExpiredCb now probe).1

/-- No call is undefined: the allocator aside, every call of every reachable
manager gives a result, and that keeps the set invariant. -/
theorem step_inv {s : TimerManager} (h : s.Inv) (op : Op)
    (hnew : ∀ p now ms cb recurring, op = .addTimer p now ms cb recurring → p ∉ s.m_timers)
    (hprobe : ∀ now probe, op = .listExpiredCb now probe → probe ∉ s.m_timers) :
    ∃ t, s.step op = some t ∧ t.Inv := by
  cases op with
  | addTimer p now ms cb recurring =>
      have hp := hnew p now ms cb recurring rfl
      exact ⟨_, if_neg hp, addTimer_inv h hp now ms cb recurring⟩
  | cancel p =>
      obtain ⟨t, b, ht, hinv⟩ := cancel_inv h p
      exact ⟨t, by rw [step, ht]; rfl, hinv⟩
  | refresh p now => exact ⟨_, rfl, refresh_inv h p now⟩
  | reset p now ms from_now => exact ⟨_, rfl, reset_inv h p now ms from_now⟩
  | getNextTimer now => exact ⟨_, rfl, getNextTimer_inv h now⟩
  | listExpiredCb now probe =>
      exact ⟨_, if_neg (hprobe now probe rfl), (listExpiredCb_spec h now probe).1⟩

theorem step_keeps_inv {s t : TimerManager} {op : Op} (h : s.Inv) (hs : s.step op = some t) :
    t.Inv := by
  have hnew : ∀ p now ms cb recurring, op = .addTimer p now ms cb recurring →
      p ∉ s.m_timers := by
    rintro p now ms cb recurring rfl hmem
    rw [step, if_pos hmem] at hs
    cases hs
  have hprobe : ∀ now probe, op = .listExpiredCb now probe → probe ∉ s.m_timers := by
    rintro now probe rfl hmem
    rw [step, if_pos hmem] at hs
    cases hs
  obtain ⟨u, hu, hinv⟩ := step_inv h op hnew hprobe
  obtain rfl : u = t := Option.some.inj (hu.symm.trans hs)
  exact hinv

/-! ### The other timers -/

/-- The timer a call is about. -/
def Op.address : Op → Option Nat
  | .addTimer p .. | .cancel p | .refresh p _ | .reset p .. => some p
  | .getNextTimer _ | .listExpiredCb .. => none

theorem mem_insertInto_of_mem {s : TimerManager} {p q : Nat} {l : List Nat} (h : q ∈ l) :
    q ∈ s.insertInto p l := by
  induction l with
  | nil => cases h
  | cons r l ih =>
      rw [insertInto]
      split_ifs
      · rcases List.mem_cons.mp h with rfl | h
        · exact List.mem_cons_self ..
        · exact List.mem_cons_of_mem _ (ih h)
      · exact List.mem_cons_of_mem _ h
      · exact h

/-- The timer at `q` is in the set, and its object is `timer`. -/
def Holds (s : TimerManager) (q : Nat) (timer : Timer) : Prop := q ∈ s.m_timers ∧ s.heap q = timer

theorem Holds.insert {s : TimerManager} {q : Nat} {timer : Timer} (h : s.Holds q timer) (p : Nat) :
    (s.insert p).Holds q timer := ⟨mem_insertInto_of_mem h.1, h.2⟩

theorem Holds.setTimer {s : TimerManager} {q : Nat} {timer : Timer} (h : s.Holds q timer) {p : Nat}
    (hne : q ≠ p) (other : Timer) : (s.setTimer p other).Holds q timer :=
  ⟨h.1, by rw [setTimer_heap_ne s other hne, h.2]⟩

theorem Holds.erase {s : TimerManager} {q : Nat} {timer : Timer} (h : s.Holds q timer) {p : Nat}
    (hne : q ≠ p) : (s.erase p).Holds q timer :=
  ⟨(List.mem_erase_of_ne hne).mpr h.1, h.2⟩

theorem Holds.addTimerLocked {s : TimerManager} {q : Nat} {timer : Timer} (h : s.Holds q timer)
    (p : Nat) : (s.addTimerLocked p).1.Holds q timer := ⟨mem_insertInto_of_mem h.1, h.2⟩

/-- A call that is not about it leaves a timer where it is, unless it lists the expired
ones. -/
theorem Holds.step {s t : TimerManager} {q : Nat} {timer : Timer} (h : s.Holds q timer) {op : Op}
    (hs : s.step op = some t) (hne : op.address ≠ some q)
    (hlist : ∀ now probe, op ≠ .listExpiredCb now probe) : t.Holds q timer := by
  cases op with
  | addTimer p now ms cb recurring =>
      have hpq : q ≠ p := fun e => hne (congrArg some e.symm)
      rw [TimerManager.step] at hs
      split at hs
      · cases hs
      · cases hs
        exact (h.setTimer hpq _).addTimerLocked p
  | cancel p =>
      have hpq : q ≠ p := fun e => hne (congrArg some e.symm)
      obtain ⟨⟨u, b⟩, hu, rfl⟩ := Option.map_eq_some_iff.mp hs
      unfold cancel at hu
      split at hu
      · simp only [find_eq] at hu
        split at hu
        · cases hu
          exact (h.setTimer hpq _).erase hpq
        · cases hu
      · cases hu
        exact h
  | refresh p now =>
      have hpq : q ≠ p := fun e => hne (congrArg some e.symm)
      cases hs
      unfold refresh
      rw [find_eq]
      split_ifs
      · exact h
      · -- taken out, moved and put back: the others stay
        exact ((h.erase hpq).setTimer hpq _).insert p
      · exact h
  | reset p now ms from_now =>
      have hpq : q ≠ p := fun e => hne (congrArg some e.symm)
      cases hs
      unfold reset
      rw [find_eq]
      by_cases hsame : (ms = (s.heap p).m_ms && !from_now) = true
      · rw [if_pos hsame]
        exact h
      rw [if_neg hsame]
      by_cases hcb : (s.heap p).m_cb = none
      · rw [if_pos hcb]
        exact h
      rw [if_neg hcb]
      by_cases hmem : p ∈ s.m_timers
      · rw [if_pos hmem]
        exact ((h.erase hpq).setTimer hpq _).addTimerLocked p
      · rw [if_neg hmem]
        exact h
  | getNextTimer now =>
      cases hs
      rw [getNextTimer_fst]
      exact h
  | listExpiredCb now probe => exact absurd rfl (hlist now probe)

theorem Holds.fireAll {now : UInt64} {out : List Nat} {s : TimerManager} {q : Nat} {timer : Timer}
    (h : s.Holds q timer) (hq : q ∉ out) : (fireAll now out s).1.Holds q timer := by
  induction out generalizing s with
  | nil => exact h
  | cons p out ih =>
      rw [List.mem_cons, not_or] at hq
      rw [TimerManager.fireAll]
      refine ih ?_ hq.2
      split_ifs
      · exact (h.setTimer hq.1 _).insert p
      · exact h.setTimer hq.1 _

/-- **A timer of the set is listed or stays.** -/
theorem Holds.listExpiredCb {s : TimerManager} (hinv : s.Inv) {q : Nat} {timer : Timer}
    (h : s.Holds q timer) (now : UInt64) (probe : Nat) :
    timer.m_cb ∈ (s.listExpiredCb now probe).2 ∨ (s.listExpiredCb now probe).1.Holds q timer := by
  by_cases hdue : q ∈ s.due now probe
  · left
    rw [(listExpiredCb_spec hinv now probe).2]
    exact List.mem_map.mpr ⟨q, hdue, congrArg Timer.m_cb h.2⟩
  · right
    rcases hset : s.m_timers with _ | ⟨first, rest⟩
    · rw [Holds, hset] at h
      cases h.1
    · unfold due at hdue
      simp only [hset] at hdue
      rw [listExpiredCb_cons hset]
      split_ifs at hdue ⊢ with hnone
      · exact h
      · refine Holds.fireAll ⟨?_, h.2⟩ hdue
        obtain ⟨more, hmore⟩ := expired_front s now probe (rollover s.m_previouseTime now)
        have hmem := h.1
        rw [hmore, List.mem_append] at hmem
        have hdrop := congrArg
          (List.drop (s.expired now probe (rollover s.m_previouseTime now)).length) hmore
        rw [List.drop_left] at hdrop
        show q ∈ s.m_timers.drop _
        rw [hdrop]
        exact hmem.resolve_left hdue

/-! ### The previous reading -/

/-- The reading a call processes: that of `listExpiredCb`, unless it finds the set
empty. -/
def reading (s : TimerManager) : Op → Option UInt64
  | .listExpiredCb now _ => if s.m_timers = [] then none else some now
  | _ => none

theorem fireAll_previouse (now : UInt64) (out : List Nat) (s : TimerManager) :
    (fireAll now out s).1.m_previouseTime = s.m_previouseTime := by
  induction out generalizing s with
  | nil => rfl
  | cons p out ih =>
      rw [fireAll]
      simp only
      rw [ih]
      split <;> rfl

/-- Only a processed reading moves `m_previouseTime`. -/
theorem step_previouse {s t : TimerManager} {op : Op} (hs : s.step op = some t) :
    t.m_previouseTime = (s.reading op).getD s.m_previouseTime := by
  cases op with
  | addTimer p now ms cb recurring =>
      rw [step] at hs
      split at hs
      · cases hs
      · cases hs; rfl
  | cancel p =>
      rw [step, cancel] at hs
      split at hs
      · obtain ⟨⟨u, b⟩, hu, rfl⟩ := Option.map_eq_some_iff.mp hs
        obtain ⟨it, -, hit⟩ := Option.bind_eq_some_iff.mp hu
        obtain ⟨rfl, -⟩ := Prod.mk.inj (Option.some.inj hit)
        rfl
      · cases hs; rfl
  | refresh p now =>
      cases hs
      unfold refresh
      split
      · rfl
      · split <;> rfl
  | reset p now ms from_now =>
      cases hs
      unfold reset
      split
      · rfl
      · split
        · rfl
        · split <;> rfl
  | getNextTimer now =>
      cases hs
      unfold getNextTimer
      rcases s.m_timers with _ | ⟨first, rest⟩
      · rfl
      · simp only
        split <;> rfl
  | listExpiredCb now probe =>
      rw [step] at hs
      split at hs
      · cases hs
      · cases hs
        rcases hset : s.m_timers with _ | ⟨first, rest⟩
        · -- an empty set is left before the reading is kept
          rw [reading, if_pos hset, listExpiredCb, hset]
          rfl
        · rw [reading, if_neg (by rw [hset]; exact List.cons_ne_nil _ _),
            listExpiredCb_cons hset]
          split
          · rfl
          · exact fireAll_previouse now _ _

/-! ### Rollover -/

/-- **The rollover verdict** is that the reading is more than an hour behind,
exactly where the subtraction does not wrap. -/
theorem rollover_late_iff (previouse now : UInt64) :
    (rollover previouse now = true → now.toNat + 60 * 60 * 1000 < previouse.toNat) ↔
      (now < previouse → 60 * 60 * 1000 ≤ previouse) := by
  have hhour : (60 * 60 * 1000 : UInt64).toNat = 60 * 60 * 1000 := rfl
  have hp := previouse.toNat_lt
  have hsub : (previouse - 60 * 60 * 1000).toNat =
      (2 ^ 64 - 60 * 60 * 1000 + previouse.toNat) % 2 ^ 64 := by
    rw [UInt64.toNat_sub, hhour]
  unfold rollover
  simp only [Bool.and_eq_true, decide_eq_true_eq, UInt64.lt_iff_toNat_lt, UInt64.le_iff_toNat_le,
    hsub, hhour]
  omega

/-- Without a rollover, only timers whose deadline the reading has passed are
due. -/
theorem due_le {s : TimerManager} {now : UInt64} {probe p : Nat}
    (hroll : rollover s.m_previouseTime now = false) (hp : p ∈ s.due now probe) :
    (s.heap p).m_next ≤ now := by
  unfold due at hp
  split at hp
  · cases hp
  · rw [hroll] at hp
    split at hp
    · cases hp
    · simp only [expired, Bool.false_eq_true, if_false, List.mem_append] at hp
      rcases hp with hp | hp
      · -- before `lower_bound(now_timer)`
        have hbefore := List.mem_takeWhile_imp hp
        unfold beforeProbe at hbefore
        rw [UInt64.le_iff_toNat_le]
        split_ifs at hbefore with hlt hgt
        · rw [UInt64.lt_iff_toNat_lt] at hlt; omega
        · rw [UInt64.lt_iff_toNat_lt] at hlt hgt; omega
      · -- the members at the reading itself
        have hat := List.mem_takeWhile_imp hp
        rw [decide_eq_true_eq.mp hat]
        exact UInt64.le_refl now

/-! ### Runs -/

/-- The manager and the largest reading processed so far. -/
abbrev Clocked := TimerManager × Nat

def clockedStep (c : Clocked) (op : Op) : Option Clocked :=
  (c.1.step op).map fun t => (t, max c.2 ((c.1.reading op).elim 0 UInt64.toNat))

/-- The clock as the threads read it: the reading of a `listExpiredCb` lags the
largest one processed by at most an hour. -/
def Lag (c : Clocked) : Op → Prop
  | .listExpiredCb now _ => c.2 ≤ now.toNat + 60 * 60 * 1000
  | _ => True

/-- A reading behind the previous one comes when that is at least one hour. -/
def NoWrap (c : Clocked) : Op → Prop
  | .listExpiredCb now _ => now < c.1.m_previouseTime → 60 * 60 * 1000 ≤ c.1.m_previouseTime
  | _ => True

/-- Every timer a call fires has its deadline at or before the largest reading
seen, that of the call included. -/
def NotEarly (c : Clocked) : Op → Prop
  | .listExpiredCb now probe =>
      ∀ p ∈ c.1.due now probe, (c.1.heap p).m_next.toNat ≤ max c.2 now.toNat
  | _ => True

instance (c : Clocked) : (op : Op) → Decidable (Lag c op)
  | .listExpiredCb now _ => inferInstanceAs (Decidable (c.2 ≤ now.toNat + 60 * 60 * 1000))
  | .addTimer .. | .cancel .. | .refresh .. | .reset .. | .getNextTimer .. =>
      inferInstanceAs (Decidable True)

instance (c : Clocked) : (op : Op) → Decidable (NoWrap c op)
  | .listExpiredCb now _ => inferInstanceAs
      (Decidable (now < c.1.m_previouseTime → 60 * 60 * 1000 ≤ c.1.m_previouseTime))
  | .addTimer .. | .cancel .. | .refresh .. | .reset .. | .getNextTimer .. =>
      inferInstanceAs (Decidable True)

/-- What every run keeps. -/
structure Clocked.Inv (c : Clocked) : Prop where
  set : c.1.Inv
  previouse : c.1.m_previouseTime.toNat ≤ c.2

theorem clockedStep_inv {c d : Clocked} {op : Op} (h : c.Inv) (hs : clockedStep c op = some d) :
    d.Inv := by
  obtain ⟨t, ht, rfl⟩ := Option.map_eq_some_iff.mp hs
  refine ⟨step_keeps_inv h.set ht, ?_⟩
  have hprev := h.previouse
  simp only
  rw [step_previouse ht]
  rcases c.1.reading op with _ | now
  · simp only [Option.getD_none]; omega
  · simp only [Option.getD_some, Option.elim_some]; omega

/-- One call. -/
theorem notEarly_of_noWrap {c : Clocked} {op : Op} (h : c.Inv) (hlag : Lag c op)
    (hwrap : NoWrap c op) : NotEarly c op := by
  cases op with
  | listExpiredCb now probe =>
      intro p hp
      have hprev := h.previouse
      have hlag' : c.2 ≤ now.toNat + 60 * 60 * 1000 := hlag
      have hroll : rollover c.1.m_previouseTime now = false := by
        rw [Bool.eq_false_iff]
        intro hroll
        have hlate := (rollover_late_iff _ _).mpr hwrap hroll
        omega
      have hle := due_le hroll hp
      rw [UInt64.le_iff_toNat_le] at hle
      omega
  | _ => trivial

/-- **Timers never fire early**, in every run of calls whose readings lag by at most
an hour and whose backward readings come after the first hour: each call of
`listExpiredCb` in it hands out the callbacks of the timers due, and each of
these has its deadline at or before the largest reading seen.  The rollover
verdict itself means more than an hour exactly under that condition. -/
theorem fires_not_early (start : UInt64) (c : Clocked) (now : UInt64) (probe : Nat)
    (hreach : Lts.Reach clockedStep (fun c op => Lag c op ∧ NoWrap c op) (new start, start.toNat) c)
    (hlag : Lag c (.listExpiredCb now probe)) (hwrap : NoWrap c (.listExpiredCb now probe)) :
    (c.1.listExpiredCb now probe).2 = (c.1.due now probe).map (fun p => (c.1.heap p).m_cb) ∧
      NotEarly c (.listExpiredCb now probe) ∧
      ∀ previouse now, (rollover previouse now = true →
          now.toNat + 60 * 60 * 1000 < previouse.toNat) ↔
        (now < previouse → 60 * 60 * 1000 ≤ previouse) := by
  have hinv : c.Inv := hreach.invariant (I := Clocked.Inv) ⟨new_inv start, Nat.le_refl _⟩
    fun _ _ _ h _ hs => clockedStep_inv h hs
  exact ⟨(listExpiredCb_spec hinv.set now probe).2, notEarly_of_noWrap hinv hlag hwrap,
    rollover_late_iff⟩

/-- A manager that started within its first hour, as the two calls below leave
it. -/
def afterBoot : Clocked :=
  ((((new 10).addTimer 1 10 1000 (some 7) false).1.listExpiredCb 12 2).1, 12)

theorem afterBoot_reach (hgood : (c : Clocked) → Op → Prop)
    (hadd : hgood (new 10, 10) (.addTimer 1 10 1000 (some 7) false))
    (hlist : hgood (((new 10).addTimer 1 10 1000 (some 7) false).1, 10) (.listExpiredCb 12 2)) :
    Lts.Reach clockedStep hgood (new 10, (10 : UInt64).toNat) afterBoot :=
  .step (.listExpiredCb 12 2) (.step _ .init hadd rfl) hlist rfl

/-- A forward reading fires what is due and nothing else. -/
theorem fires_not_early_after_boot :
    (afterBoot.1.listExpiredCb 1010 2).2 =
        (afterBoot.1.due 1010 2).map (fun p => (afterBoot.1.heap p).m_cb) ∧
      NotEarly afterBoot (.listExpiredCb 1010 2) ∧
      ∀ previouse now, (rollover previouse now = true →
          now.toNat + 60 * 60 * 1000 < previouse.toNat) ↔
        (now < previouse → 60 * 60 * 1000 ≤ previouse) := by
  have hreach := afterBoot_reach (fun c op => Lag c op ∧ NoWrap c op) ⟨trivial, trivial⟩
    ⟨by decide, by decide⟩
  exact fires_not_early 10 afterBoot 1010 2 hreach (by decide) (by decide)

/-- **Within the first hour a reading 1 ms old flushes the set**: with a timer
due at 1010 and the readings 12 and then 11, the second call fires it. -/
theorem fires_early_after_boot :
    ¬ ∀ (start : UInt64) (c : Clocked) (now : UInt64) (probe : Nat),
      Lts.Reach clockedStep Lag (new start, start.toNat) c →
      Lag c (.listExpiredCb now probe) → NotEarly c (.listExpiredCb now probe) := by
  intro h
  have hfired : 1 ∈ afterBoot.1.due 11 2 := by decide
  have hearly := h 10 afterBoot 11 2 (afterBoot_reach Lag trivial (by decide)) (by decide) 1 hfired
  exact absurd hearly (by decide)

end TimerManager

end Will
