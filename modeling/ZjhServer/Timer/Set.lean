/-
ZjhServer/Timer/Set.lean

The set of timers, over any run of calls on a `TimerManager`.

`m_next`, the key of the set, is changed by `refresh`, `reset` and the re-arming of
recurring timers, and `m_cb`, which says whether a timer is alive, is cleared away
from the `erase`.  That `m_timers` stays sorted by the current keys is the invariant of
Timer.Basic; here is its other half, that no dead timer is in the set (`Live`), so that
membership and liveness are the same (`set_invariant`), and with it that each lookup finds
what it looks for.
-/
import ZjhServer.Timer.Expire

namespace Will

namespace TimerManager

/-! ### Dead timers are not in the set -/

/-- Every member has a callback. -/
def Live (s : TimerManager) : Prop := ∀ p ∈ s.m_timers, (s.heap p).m_cb.isSome

/-- `addTimer` is given a callback. -/
def NonNull (_ : TimerManager) : Op → Prop
  | .addTimer _ _ _ cb _ => cb.isSome
  | _ => True

theorem new_live (now : UInt64) : (new now).Live := fun _ hp => absurd hp List.not_mem_nil

/-- Arming a timer that is not in the set and has a callback. -/
theorem Live.arm {s : TimerManager} (h : s.Live) {p : Nat} (hp : p ∉ s.m_timers) {timer : Timer}
    (hcb : timer.m_cb.isSome) : ((s.setTimer p timer).insert p).Live := by
  intro q hq
  show ((s.setTimer p timer).heap q).m_cb.isSome
  rcases (mem_insertInto hp).mp hq with rfl | hmem
  · rw [setTimer_heap_same]
    exact hcb
  · have hne : q ≠ p := fun e => hp (e ▸ hmem)
    rw [setTimer_heap_ne s timer hne]
    exact h q hmem

/-- A timer that is not in the set does not matter. -/
theorem Live.setTimer {s : TimerManager} (h : s.Live) {p : Nat} (hp : p ∉ s.m_timers)
    (timer : Timer) : (s.setTimer p timer).Live := by
  intro q hq
  have hne : q ≠ p := fun e => hp (e ▸ hq)
  rw [setTimer_heap_ne s timer hne]
  exact h q hq

theorem Live.erase {s : TimerManager} (h : s.Live) (p : Nat) : (s.erase p).Live :=
  fun q hq => h q (List.mem_of_mem_erase hq)

/-- The loop of `listExpiredCb`, over distinct live timers outside the set. -/
theorem fireAll_live (now : UInt64) {out : List Nat} {s : TimerManager} (h : s.Live)
    (hnodup : out.Nodup) (hout : ∀ p ∈ out, p ∉ s.m_timers ∧ (s.heap p).m_cb.isSome) :
    (fireAll now out s).1.Live := by
  induction out generalizing s with
  | nil => exact h
  | cons p out ih =>
      obtain ⟨hp, hcb⟩ := hout p (List.mem_cons_self ..)
      obtain ⟨hfirst, hrest⟩ := List.nodup_cons.mp hnodup
      have hne : ∀ q ∈ out, q ≠ p := fun q hq e => hfirst (e ▸ hq)
      rw [fireAll]
      simp only
      split_ifs with hrec
      · -- a recurring timer goes back into the set, callback and all
        refine ih (h.arm hp hcb) hrest fun q hq => ?_
        obtain ⟨hmem, hq'⟩ := hout q (List.mem_cons_of_mem _ hq)
        constructor
        · intro hin
          rcases (mem_insertInto hp).mp hin with e | hin
          · exact hne q hq e
          · exact hmem hin
        · show ((s.setTimer p _).heap q).m_cb.isSome
          rw [setTimer_heap_ne _ _ (hne q hq)]
          exact hq'
      · refine ih (h.setTimer hp _) hrest fun q hq => ?_
        rw [setTimer_heap_ne _ _ (hne q hq)]
        exact hout q (List.mem_cons_of_mem _ hq)

theorem listExpiredCb_live {s : TimerManager} (hinv : s.Inv) (h : s.Live) (now : UInt64)
    (probe : Nat) : (s.listExpiredCb now probe).1.Live := by
  rcases hset : s.m_timers with _ | ⟨first, rest⟩
  · have hrun : s.listExpiredCb now probe = (s, []) := by unfold listExpiredCb; rw [hset]
    rw [hrun]
    exact h
  · rw [listExpiredCb_cons hset]
    split_ifs with hnone
    · exact h
    · obtain ⟨more, hmore⟩ := expired_front s now probe (rollover s.m_previouseTime now)
      have hnodup := hinv.sorted.nodup
      rw [hmore, List.nodup_append] at hnodup
      rw [hmore, List.drop_left]
      apply fireAll_live now _ hnodup.1
      · intro p hp
        refine ⟨fun hin => hnodup.2.2 p hp p hin rfl, h p ?_⟩
        rw [hmore]
        exact List.mem_append_left _ hp
      · intro p hp
        apply h p
        rw [hmore]
        exact List.mem_append_right _ hp

/-- Every call keeps dead timers out of the set. -/
theorem step_live {s t : TimerManager} {op : Op} (hinv : s.Inv) (h : s.Live)
    (hcb : NonNull s op) (hs : s.step op = some t) : t.Live := by
  cases op with
  | addTimer p now ms cb recurring =>
      rw [step] at hs
      split_ifs at hs with hp
      cases hs
      exact h.arm hp hcb
  | cancel p =>
      rw [step, cancel] at hs
      split_ifs at hs with hsome
      · -- the timer dies and leaves the set in one call
        have hmem : p ∈ (s.setTimer p { s.heap p with m_cb := none }).m_timers := hinv.mem hsome
        simp only [find_eq, if_pos hmem] at hs
        cases hs
        exact (h.erase p).setTimer (hinv.erase p).2 _
      · cases hs
        exact h
  | refresh p now =>
      rw [step, refresh, find_eq] at hs
      cases hs
      split_ifs with hdead hmem
      · exact h
      · exact (h.erase p).arm (hinv.erase p).2 (Option.isSome_iff_ne_none.mpr hdead)
      · exact h
  | reset p now ms from_now =>
      rw [step, reset, find_eq] at hs
      cases hs
      by_cases hsame : (ms = (s.heap p).m_ms && !from_now) = true
      · rw [if_pos hsame]
        exact h
      rw [if_neg hsame]
      by_cases hdead : (s.heap p).m_cb = none
      · rw [if_pos hdead]
        exact h
      rw [if_neg hdead]
      by_cases hmem : p ∈ s.m_timers
      · rw [if_pos hmem]
        exact (h.erase p).arm (hinv.erase p).2 (Option.isSome_iff_ne_none.mpr hdead)
      · rw [if_neg hmem]
        exact h
  | getNextTimer now =>
      cases hs
      unfold getNextTimer
      rcases hset : s.m_timers with _ | ⟨first, rest⟩
      · simp [Live]
      · simp only
        split_ifs
        · simpa [Live, hset] using h
        · simpa [Live, hset] using h
  | listExpiredCb now probe =>
      rw [step] at hs
      split_ifs at hs with hp
      cases hs
      exact listExpiredCb_live hinv h now probe

/-! ### Lookups -/

/-- `lower_bound`: as the set is sorted, the members before the probe are a front of it. -/
theorem takeWhile_of_sorted {s : TimerManager} {l : List Nat} (h : s.Sorted l)
    {before : Nat → Bool} (hbefore : ∀ p q, s.less p q = true → before q = true → before p = true) :
    l.takeWhile before = l.filter before ∧ l.dropWhile before = l.filter fun p => !before p := by
  induction l with
  | nil => exact ⟨rfl, rfl⟩
  | cons p l ih =>
      obtain ⟨hfirst, hrest⟩ := List.pairwise_cons.mp h
      by_cases hp : before p = true
      · simp [hp, ih hrest]
      · have hnone : ∀ q ∈ l, before q = false := fun q hq =>
          Bool.eq_false_iff.mpr fun hq' => hp (hbefore p q (hfirst q hq) hq')
        have hfilter : l.filter before = [] := by
          rw [List.filter_eq_nil_iff]
          intro q hq
          rw [hnone q hq]
          decide
        have hall : l.filter (fun p => !before p) = l := by
          rw [List.filter_eq_self]
          intro q hq
          rw [hnone q hq]
          rfl
        simp [hp, hfilter, hall]

/-- Without a rollover, `lower_bound` and the loop after it find exactly the timers whose
deadline has come. -/
theorem expired_eq {s : TimerManager} (h : s.Sorted s.m_timers) (now : UInt64) (probe : Nat) :
    s.expired now probe false = s.m_timers.filter fun p => (s.heap p).m_next ≤ now := by
  have hbefore : ∀ p q, s.less p q = true → s.beforeProbe now probe q = true →
      s.beforeProbe now probe p = true := by
    intro p q hless hq
    rw [less_iff] at hless
    unfold beforeProbe at hq ⊢
    simp only [← UInt64.toNat_inj, UInt64.lt_iff_toNat_lt] at hless hq ⊢
    split_ifs at hq ⊢ <;> simp at hq ⊢ <;> omega
  have hlater : ∀ p q, s.less p q = true → decide ((s.heap q).m_next ≤ now) = true →
      decide ((s.heap p).m_next ≤ now) = true := by
    intro p q hless hq
    rw [less_iff] at hless
    simp only [decide_eq_true_eq, ← UInt64.toNat_inj, UInt64.lt_iff_toNat_lt,
      UInt64.le_iff_toNat_le] at hless hq ⊢
    omega
  obtain ⟨htake, hdrop⟩ := takeWhile_of_sorted h hbefore
  rw [expired, if_neg Bool.false_ne_true, ← (takeWhile_of_sorted h hlater).1]
  -- behind the probe there are the members due now, then those due later
  have hsplit : ∀ l : List Nat, (∀ p ∈ l, s.beforeProbe now probe p = false) →
      l.takeWhile (fun p => decide ((s.heap p).m_next = now)) =
        l.takeWhile fun p => decide ((s.heap p).m_next ≤ now) := by
    intro l
    induction l with
    | nil => exact fun _ => rfl
    | cons p l ih =>
        intro hl
        have hp := hl p (List.mem_cons_self ..)
        have heq : decide ((s.heap p).m_next = now) = decide ((s.heap p).m_next ≤ now) := by
          unfold beforeProbe at hp
          rw [decide_eq_decide]
          simp only [← UInt64.toNat_inj, UInt64.lt_iff_toNat_lt, UInt64.le_iff_toNat_le] at hp ⊢
          split_ifs at hp <;> omega
        rw [List.takeWhile_cons, List.takeWhile_cons, heq,
          ih fun q hq => hl q (List.mem_cons_of_mem _ hq)]
  have hdue : ∀ p ∈ s.m_timers.takeWhile (s.beforeProbe now probe),
      decide ((s.heap p).m_next ≤ now) = true := by
    intro p hp
    rw [htake, List.mem_filter] at hp
    have hp' := hp.2
    unfold beforeProbe at hp'
    simp only [decide_eq_true_eq, UInt64.lt_iff_toNat_lt, UInt64.le_iff_toNat_le] at hp' ⊢
    split_ifs at hp' <;> omega
  rw [hsplit _ fun p hp => by
    rw [hdrop, List.mem_filter] at hp
    simpa using hp.2]
  conv_rhs =>
    rw [← List.takeWhile_append_dropWhile (p := s.beforeProbe now probe) (l := s.m_timers)]
  rw [List.takeWhile_append_of_pos hdue]

/-! ### Runs -/

/-- **The set invariant**, in every state that calls of `addTimer` with a callback,
`cancel`, `refresh`, `reset`, `getNextTimer` and `listExpiredCb` reach at any clock
readings: the set is strictly sorted by the current `(m_next, address)`, each timer in
it once, and its members are the timers with a callback.  So no call is undefined, the
`find` of `cancel` gives the timer, and `lower_bound` all that are due. -/
theorem set_invariant (start : UInt64) (s : TimerManager)
    (h : Lts.Reach step NonNull (new start) s) :
    s.Sorted s.m_timers ∧ s.m_timers.Nodup ∧
      (∀ p, p ∈ s.m_timers ↔ (s.heap p).m_cb.isSome) ∧
      (∀ p, (s.heap p).m_cb.isSome → s.find p = some p ∧
        (s.setTimer p { s.heap p with m_cb := none }).find p = some p) ∧
      (∀ p, (s.cancel p).isSome) ∧
      ∀ now probe, s.expired now probe false =
        s.m_timers.filter fun p => (s.heap p).m_next ≤ now := by
  have hboth : s.Inv ∧ s.Live := by
    refine h.invariant (I := fun s => s.Inv ∧ s.Live) ⟨new_inv start, new_live start⟩ ?_
    rintro s op t ⟨hinv, hlive⟩ hcb hs
    exact ⟨step_keeps_inv hinv hs, step_live hinv hlive hcb hs⟩
  obtain ⟨hinv, hlive⟩ := hboth
  have hfind : ∀ (u : TimerManager), u.m_timers = s.m_timers → ∀ p, (s.heap p).m_cb.isSome →
      u.find p = some p := by
    intro u hu p hp
    rw [find_eq, hu, if_pos (hinv.mem hp)]
  refine ⟨hinv.sorted, hinv.sorted.nodup, fun p => ⟨hlive p, hinv.mem⟩,
    fun p hp => ⟨hfind s rfl p hp, hfind (s.setTimer p { s.heap p with m_cb := none }) rfl p hp⟩,
    fun p => ?_, expired_eq hinv.sorted⟩
  obtain ⟨t, b, ht, -⟩ := cancel_inv hinv p
  rw [ht]
  rfl

theorem set_invariant_recurring :
    ((((new 10).addTimer 1 10 5 (some 7) true).1.listExpiredCb 20 2).1.cancel 1).isSome := by
  have h : Lts.Reach step NonNull (new 10)
      (((new 10).addTimer 1 10 5 (some 7) true).1.listExpiredCb 20 2).1 :=
    .step (.listExpiredCb 20 2) (.step (.addTimer 1 10 5 (some 7) true) .init rfl rfl) trivial rfl
  exact (set_invariant 10 _ h).2.2.2.2.1 1

end TimerManager

end Will
