/-
ZjhServer/Timer/Handle.lean

What `Timer::cancel`, `refresh` and `reset` return, over any run of calls.

A call is truthful when it returns true exactly for a timer that is in the set, and leaves
everything as it is when it returns false; a `reset` that returns true also leaves the
timer in the set with the period asked for and the deadline that goes with it.  For a
`reset` that is not from now the deadline goes back to the last arming of the timer, which
the objects do not keep: `armed` is that reading, and `Kept.deadline` says how the objects
determine it.

`cancel` and `refresh` look at `m_cb` and at the set.  `reset` compares the periods before
it looks at either (`Shortcut`), and that is the only call that is not truthful
(`handle_truthful_iff`).
-/
import ZjhServer.Timer.Fired

namespace Will

namespace TimerManager

/-- The manager, and the clock reading at which each timer was last armed: by the
constructor, by `refresh`, by a `reset` from now, or by firing when it is recurring. -/
abbrev Dated := TimerManager × (Nat → UInt64)

/-- `armed`, with the reading of a call that arms `p`. -/
def arm (armed : Nat → UInt64) (p : Nat) (now : UInt64) : Nat → UInt64 :=
  fun q => if q = p then now else armed q

/-- The arming readings after a call. -/
def armedAfter (s : TimerManager) (armed : Nat → UInt64) : Op → Nat → UInt64
  | .addTimer p now .. => arm armed p now
  | .refresh p now => if (s.refresh p now).2 then arm armed p now else armed
  | .reset p now ms from_now =>
      if (s.reset p now ms from_now).2 && from_now then arm armed p now else armed
  | .listExpiredCb now probe => fun q =>
      if q ∈ s.due now probe ∧ (s.heap q).m_recurring then now else armed q
  | .cancel _ | .getNextTimer _ => armed

def datedStep (d : Dated) (op : Op) : Option Dated :=
  (d.1.step op).map fun t => (t, armedAfter d.1 d.2 op)

/-- What a call on the handle `p` returns, and what it leaves. -/
structure Told (s : TimerManager) (p : Nat) (r : TimerManager × Bool) : Prop where
  pending : r.2 = true ↔ p ∈ s.m_timers
  unchanged : r.2 = false → r.1 = s

/-- The call is truthful. -/
def Truthful (d : Dated) : Op → Prop
  | .cancel p => ∃ r, d.1.cancel p = some r ∧ Told d.1 p r
  | .refresh p now => Told d.1 p (d.1.refresh p now)
  | .reset p now ms from_now =>
      Told d.1 p (d.1.reset p now ms from_now) ∧
        ((d.1.reset p now ms from_now).2 = true →
          p ∈ (d.1.reset p now ms from_now).1.m_timers ∧
          ((d.1.reset p now ms from_now).1.heap p).m_ms = ms ∧
          ((d.1.reset p now ms from_now).1.heap p).m_next =
            (if from_now then now else d.2 p) + ms)
  | .addTimer .. | .getNextTimer _ | .listExpiredCb .. => True

/-- `if(ms == m_ms && !from_now) return true;` of a timer that is not in the set. -/
def Shortcut (s : TimerManager) : Op → Prop
  | .reset p _ ms from_now => ms = (s.heap p).m_ms ∧ from_now = false ∧ p ∉ s.m_timers
  | .addTimer .. | .cancel _ | .refresh .. | .getNextTimer _ | .listExpiredCb .. => False

/-! ### The calls -/

/-- A timer taken out, changed and put back. -/
def rearm (s : TimerManager) (p : Nat) (timer : Timer) : TimerManager :=
  ((s.erase p).setTimer p timer).insert p

theorem rearm_mem {s : TimerManager} (h : s.Inv) {p : Nat} (hp : p ∈ s.m_timers) (timer : Timer)
    (q : Nat) : q ∈ (s.rearm p timer).m_timers ↔ q ∈ s.m_timers := by
  obtain ⟨-, hout⟩ := h.erase p
  show q ∈ ((s.erase p).setTimer p timer).insertInto p (s.erase p).m_timers ↔ _
  rw [mem_insertInto hout]
  by_cases hq : q = p
  · subst hq
    simp only [true_or, hp]
  · simp only [hq, false_or]
    exact List.mem_erase_of_ne hq

theorem rearm_heap (s : TimerManager) (p : Nat) (timer : Timer) (q : Nat) :
    (s.rearm p timer).heap q = if q = p then timer else s.heap q := rfl

/-- What every run keeps: the members are the live timers, and `armed` explains their
deadlines. -/
structure Kept (d : Dated) : Prop where
  inv : d.1.Inv
  live : d.1.Live
  deadline : ∀ p ∈ d.1.m_timers, (d.1.heap p).m_next = d.2 p + (d.1.heap p).m_ms

theorem Kept.dead_iff {d : Dated} (h : Kept d) (p : Nat) :
    (d.1.heap p).m_cb = none ↔ p ∉ d.1.m_timers := by
  rw [← Option.not_isSome_iff_eq_none, not_iff_not]
  exact ⟨h.inv.mem, h.live p⟩

theorem Kept.cancel_eq {d : Dated} (h : Kept d) (p : Nat) : d.1.cancel p =
    some (if p ∈ d.1.m_timers then
      ((d.1.setTimer p { d.1.heap p with m_cb := none }).erase p, true) else (d.1, false)) := by
  have hdead := h.dead_iff p
  unfold cancel
  by_cases hp : p ∈ d.1.m_timers
  · rw [if_pos hp, if_pos (h.live p hp)]
    simp only [find_eq]
    rw [if_pos (show p ∈ (d.1.setTimer p _).m_timers from hp)]
    rfl
  · rw [if_neg hp, hdead.mpr hp]
    rfl

theorem Kept.refresh_eq {d : Dated} (h : Kept d) (p : Nat) (now : UInt64) : d.1.refresh p now =
    if p ∈ d.1.m_timers then
      (d.1.rearm p { d.1.heap p with m_next := now + (d.1.heap p).m_ms }, true)
    else (d.1, false) := by
  have hdead := h.dead_iff p
  unfold refresh
  rw [find_eq]
  by_cases hp : p ∈ d.1.m_timers
  · rw [if_neg (hdead.not_left.mpr hp), if_pos hp, if_pos hp]
    rfl
  · rw [if_pos (hdead.mpr hp), if_neg hp]

/-- Behind the shortcut. -/
theorem Kept.reset_eq {d : Dated} (h : Kept d) {p : Nat} {now ms : UInt64} {from_now : Bool}
    (hms : ¬(ms = (d.1.heap p).m_ms && !from_now) = true) : d.1.reset p now ms from_now =
    if p ∈ d.1.m_timers then
      (((d.1.erase p).setTimer p { d.1.heap p with
          m_ms := ms
          m_next := (if from_now then now else (d.1.heap p).m_next - (d.1.heap p).m_ms) + ms
        }).addTimerLocked p |>.1, true)
    else (d.1, false) := by
  have hdead := h.dead_iff p
  unfold reset
  rw [if_neg hms, find_eq]
  by_cases hp : p ∈ d.1.m_timers
  · rw [if_neg (hdead.not_left.mpr hp), if_pos hp, if_pos hp]
    rfl
  · rw [if_pos (hdead.mpr hp), if_neg hp]

/-! ### Runs -/

/-- The deadlines, when `p` is the only timer that may have changed. -/
theorem Kept.deadline_at {d : Dated} (h : Kept d) {t : TimerManager} {armed : Nat → UInt64}
    {p : Nat} (hmem : ∀ q ∈ t.m_timers, q ≠ p → q ∈ d.1.m_timers)
    (hheap : ∀ q, q ≠ p → t.heap q = d.1.heap q) (harmed : ∀ q, q ≠ p → armed q = d.2 q)
    (hp : p ∈ t.m_timers → (t.heap p).m_next = armed p + (t.heap p).m_ms) :
    ∀ q ∈ t.m_timers, (t.heap q).m_next = armed q + (t.heap q).m_ms := by
  intro q hq
  by_cases hqp : q = p
  · subst hqp
    exact hp hq
  · rw [hheap q hqp, harmed q hqp]
    exact h.deadline q (hmem q hq hqp)

theorem arm_ne (armed : Nat → UInt64) {p q : Nat} (now : UInt64) (h : q ≠ p) :
    arm armed p now q = armed q := if_neg h

@[simp] theorem arm_same (armed : Nat → UInt64) (p : Nat) (now : UInt64) :
    arm armed p now p = now := if_pos rfl

/-- What a `reset` behind the shortcut leaves of a timer of the set. -/
theorem Kept.reset_deadline {d : Dated} (h : Kept d) {p : Nat} (hp : p ∈ d.1.m_timers)
    (now : UInt64) (from_now : Bool) :
    (if from_now then now else (d.1.heap p).m_next - (d.1.heap p).m_ms) =
      if from_now then now else d.2 p := by
  rw [h.deadline p hp, UInt64.add_sub_cancel]

theorem datedStep_kept {d e : Dated} {op : Op} (h : Kept d) (hcb : NonNull d.1 op)
    (hs : datedStep d op = some e) : Kept e := by
  obtain ⟨t, ht, rfl⟩ := Option.map_eq_some_iff.mp hs
  refine ⟨step_keeps_inv h.inv ht, step_live h.inv h.live hcb ht, ?_⟩
  show ∀ q ∈ t.m_timers, (t.heap q).m_next = armedAfter d.1 d.2 op q + (t.heap q).m_ms
  cases op with
  | addTimer p now ms cb recurring =>
      rw [step] at ht
      split_ifs at ht with hp
      cases ht
      refine h.deadline_at (p := p) ?_ ?_ (fun q hq => arm_ne d.2 now hq) fun _ => ?_
      · intro q hq hne
        exact ((mem_insertInto hp).mp hq).resolve_left hne
      · exact fun q hq => setTimer_heap_ne d.1 _ hq
      · show ((d.1.setTimer p _).heap p).m_next = arm d.2 p now p + ((d.1.setTimer p _).heap p).m_ms
        rw [setTimer_heap_same, arm_same]
  | cancel p =>
      rw [step, h.cancel_eq p] at ht
      by_cases hp : p ∈ d.1.m_timers
      · rw [if_pos hp] at ht
        cases ht
        refine h.deadline_at (p := p) (fun q hq _ => List.mem_of_mem_erase hq)
          (fun q hq => setTimer_heap_ne d.1 _ hq) (fun _ _ => rfl) fun hin => ?_
        exact absurd hin (h.inv.erase p).2
      · rw [if_neg hp] at ht
        cases ht
        exact h.deadline
  | refresh p now =>
      rw [step, h.refresh_eq p now] at ht
      rw [armedAfter, h.refresh_eq p now]
      by_cases hp : p ∈ d.1.m_timers
      · rw [if_pos hp] at ht ⊢
        cases ht
        refine h.deadline_at (p := p) (fun q hq _ => (rearm_mem h.inv hp _ q).mp hq)
          (fun q hq => if_neg hq) (fun q hq => arm_ne d.2 now hq) fun _ => ?_
        rw [if_pos rfl, arm_same, rearm_heap, if_pos rfl]
      · rw [if_neg hp] at ht ⊢
        cases ht
        exact h.deadline
  | reset p now ms from_now =>
      rw [step] at ht
      rw [armedAfter]
      by_cases hms : (ms = (d.1.heap p).m_ms && !from_now) = true
      · -- the same period, counted from the same moment: nothing is done
        have hrun : d.1.reset p now ms from_now = (d.1, true) := if_pos hms
        have hlater : from_now = false := by simpa using (Bool.and_eq_true_iff.mp hms).2
        rw [hrun] at ht ⊢
        cases ht
        rw [hlater]
        exact h.deadline
      · rw [h.reset_eq hms] at ht ⊢
        by_cases hp : p ∈ d.1.m_timers
        · rw [if_pos hp, h.reset_deadline hp] at ht ⊢
          cases ht
          refine h.deadline_at (p := p) (fun q hq _ => (rearm_mem h.inv hp _ q).mp hq)
            (fun q hq => if_neg hq) (fun q hq => ?_) fun _ => ?_
          · cases from_now with
            | false => rfl
            | true => exact arm_ne d.2 now hq
          · show ((d.1.rearm p _).heap p).m_next = _ + ((d.1.rearm p _).heap p).m_ms
            rw [rearm_heap, if_pos rfl]
            cases from_now with
            | false => rfl
            | true => exact congrArg (· + ms) (arm_same d.2 p now).symm
        · rw [if_neg hp] at ht ⊢
          cases ht
          exact h.deadline
  | getNextTimer now =>
      cases ht
      rw [getNextTimer_fst]
      exact h.deadline
  | listExpiredCb now probe =>
      rw [step] at ht
      split_ifs at ht with hp
      cases ht
      intro q hq
      obtain ⟨hheap, hmem⟩ := listExpiredCb_effect h.inv now probe q
      obtain ⟨hin, hrec⟩ := hmem.mp hq
      rw [hheap]
      simp only [armedAfter]
      -- a timer that is due and still in the set is a recurring one, armed again
      by_cases hdue : q ∈ d.1.due now probe
      · rw [if_pos hdue, if_pos ⟨hdue, hrec hdue⟩, fired, if_pos (hrec hdue)]
      · rw [if_neg hdue, if_neg fun hboth => hdue hboth.1]
        exact h.deadline q hin

/-- A call that finds the timer in the set returns true, and one that does not returns
false and leaves everything. -/
theorem told_of_ite (s : TimerManager) (p : Nat) (t : TimerManager) :
    Told s p (if p ∈ s.m_timers then (t, true) else (s, false)) := by
  by_cases hp : p ∈ s.m_timers
  · rw [if_pos hp]
    exact ⟨iff_of_true rfl hp, fun h => absurd h Bool.noConfusion⟩
  · rw [if_neg hp]
    exact ⟨iff_of_false Bool.false_ne_true hp, fun _ => rfl⟩

/-- One call. -/
theorem Kept.truthful_iff {d : Dated} (h : Kept d) (op : Op) :
    Truthful d op ↔ ¬Shortcut d.1 op := by
  cases op with
  | cancel p => exact iff_of_true ⟨_, h.cancel_eq p, told_of_ite ..⟩ not_false
  | refresh p now =>
      refine iff_of_true ?_ not_false
      rw [Truthful, h.refresh_eq p now]
      exact told_of_ite ..
  | reset p now ms from_now =>
      by_cases hms : (ms = (d.1.heap p).m_ms && !from_now) = true
      · -- the shortcut: right if and only if the timer is in the set
        have hrun : d.1.reset p now ms from_now = (d.1, true) := if_pos hms
        obtain ⟨hsame, hlater⟩ := Bool.and_eq_true_iff.mp hms
        replace hsame : ms = (d.1.heap p).m_ms := of_decide_eq_true hsame
        replace hlater : from_now = false := by simpa using hlater
        rw [Truthful, hrun]
        constructor
        · rintro ⟨⟨hpending, -⟩, -⟩ ⟨-, -, hout⟩
          exact hout (hpending.mp rfl)
        · intro hnot
          have hp : p ∈ d.1.m_timers := by
            by_contra hout
            exact hnot ⟨hsame, hlater, hout⟩
          refine ⟨⟨iff_of_true rfl hp, fun hfalse => absurd hfalse Bool.noConfusion⟩,
            fun _ => ⟨hp, hsame.symm, ?_⟩⟩
          rw [hlater, hsame]
          exact h.deadline p hp
      · refine iff_of_true ?_ fun hshort => hms ?_
        · rw [Truthful, h.reset_eq hms]
          refine ⟨told_of_ite .., fun htrue => ?_⟩
          by_cases hp : p ∈ d.1.m_timers
          · rw [if_pos hp, h.reset_deadline hp]
            show p ∈ (d.1.rearm p _).m_timers ∧ ((d.1.rearm p _).heap p).m_ms = ms ∧
              ((d.1.rearm p _).heap p).m_next = _
            rw [rearm_mem h.inv hp, rearm_heap, if_pos rfl]
            exact ⟨hp, rfl, rfl⟩
          · rw [if_neg hp] at htrue
            exact absurd htrue Bool.false_ne_true
        · obtain ⟨hsame, hlater, -⟩ := hshort
          rw [hlater, decide_eq_true hsame]
          rfl
  | addTimer p now ms cb recurring => exact iff_of_true trivial not_false
  | getNextTimer now => exact iff_of_true trivial not_false
  | listExpiredCb now probe => exact iff_of_true trivial not_false

/-- **Handles tell the truth**: in every state that calls with non-null callbacks reach at
any readings, a call of `cancel`, `refresh` or `reset` is truthful exactly when it is not a
`reset` to the period the timer has, not from now, of a timer that is not in the set. -/
theorem handle_truthful_iff (start : UInt64) (armed : Nat → UInt64) (d : Dated)
    (h : Lts.Reach datedStep (fun d op => NonNull d.1 op) (new start, armed) d) (op : Op) :
    Truthful d op ↔ ¬Shortcut d.1 op := by
  have hkept : Kept d := h.invariant (I := Kept)
    ⟨new_inv start, new_live start, fun _ hp => absurd hp List.not_mem_nil⟩
    fun _ _ _ hd hcb hs => datedStep_kept hd hcb hs
  exact hkept.truthful_iff op

/-- A timer of 5 ms armed at 10 and reset to 8 ms from its arming is due at 18. -/
theorem handle_truthful_iff_eight :
    (((new 10).addTimer 1 10 5 (some 7) false).1.reset 1 12 8 false).2 = true ∧
      ((((new 10).addTimer 1 10 5 (some 7) false).1.reset 1 12 8 false).1.heap 1).m_next = 18 := by
  have hreach : Lts.Reach datedStep (fun d op => NonNull d.1 op) (new 10, fun _ => 0)
      (((new 10).addTimer 1 10 5 (some 7) false).1, arm (fun _ => 0) 1 10) :=
    .step (.addTimer 1 10 5 (some 7) false) .init rfl rfl
  obtain ⟨htold, hdeadline⟩ := (handle_truthful_iff 10 (fun _ => 0) _ hreach
    (.reset 1 12 8 false)).mpr fun hshort => absurd hshort.1 (by decide)
  have htrue := htold.pending.mpr (by decide)
  exact ⟨htrue, (hdeadline htrue).2.2⟩

/-- **A cancelled timer** is reset to the period it had: the answer is true. -/
theorem reset_cancelled :
    ¬ ∀ (start : UInt64) (armed : Nat → UInt64) (d : Dated),
      Lts.Reach datedStep (fun d op => NonNull d.1 op) (new start, armed) d →
      ∀ op, Truthful d op := by
  intro h
  obtain ⟨d, hd, hout, hanswer⟩ : ∃ d : Dated,
      Lts.run datedStep [.addTimer 1 10 5 (some 7) false, .cancel 1] (new 10, fun _ => 0) = some d ∧
      1 ∉ d.1.m_timers ∧ (d.1.reset 1 12 5 false).2 = true :=
    ⟨_, rfl, by decide, by decide⟩
  have hreach : Lts.Reach datedStep (fun d op => NonNull d.1 op) (new 10, fun _ => 0) d := by
    refine Lts.Reach.init.run (fun op hop s => ?_) hd
    rcases List.mem_cons.mp hop with rfl | hop
    · rfl
    · rw [List.mem_singleton.mp hop]
      trivial
  obtain ⟨⟨hpending, -⟩, -⟩ := h 10 (fun _ => 0) d hreach (.reset 1 12 5 false)
  exact hout (hpending.mp hanswer)

end TimerManager

end Will
