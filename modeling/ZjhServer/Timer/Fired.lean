/-
ZjhServer/Timer/Fired.lean

What one call of `listExpiredCb` does to every timer.

The loop over the expired timers changes each of their objects once, by `fired`, and puts
the recurring ones back (`fireAll_heap`, `fireAll_mem`), whatever keys and addresses the
others have.  With `expired_eq`, which says that the expired ones are those due, a call
whose reading is not behind the previous one fires exactly the timers due, in the order of
their deadlines (`expiry_exact`).
-/
import ZjhServer.Timer.Set
import Mathlib.Data.List.Nodup

namespace Will

namespace TimerManager

/-- What is left of a timer that has been put in `expired`. -/
def fired (now : UInt64) (timer : Timer) : Timer :=
  if timer.m_recurring then { timer with m_next := now + timer.m_ms }
  else { timer with m_cb := none }

/-! ### The loop -/

theorem fireAll_heap (now : UInt64) {out : List Nat} (hnodup : out.Nodup) (s : TimerManager)
    (q : Nat) : (fireAll now out s).1.heap q =
      if q ∈ out then fired now (s.heap q) else s.heap q := by
  induction out generalizing s with
  | nil => rfl
  | cons p out ih =>
      obtain ⟨hfirst, hrest⟩ := List.nodup_cons.mp hnodup
      have hturn : (if (s.heap p).m_recurring then
          (s.setTimer p { s.heap p with m_next := now + (s.heap p).m_ms }).insert p
        else s.setTimer p { s.heap p with m_cb := none }).heap =
          (s.setTimer p (fired now (s.heap p))).heap := by
        unfold fired
        split_ifs <;> rfl
      rw [fireAll]
      simp only
      rw [ih hrest, hturn]
      by_cases hq : q = p
      · subst hq
        rw [if_neg hfirst, if_pos (List.mem_cons_self ..), setTimer_heap_same]
      · simp only [setTimer_heap_ne s _ hq, List.mem_cons, hq, false_or]

theorem fireAll_mem (now : UInt64) {out : List Nat} (hnodup : out.Nodup) {s : TimerManager}
    (hout : ∀ p ∈ out, p ∉ s.m_timers) (q : Nat) : q ∈ (fireAll now out s).1.m_timers ↔
      q ∈ s.m_timers ∨ (q ∈ out ∧ (s.heap q).m_recurring = true) := by
  induction out generalizing s with
  | nil => simp [fireAll]
  | cons p out ih =>
      obtain ⟨hfirst, hrest⟩ := List.nodup_cons.mp hnodup
      have hp := hout p (List.mem_cons_self ..)
      have hne : ∀ r ∈ out, r ≠ p := fun r hr e => hfirst (e ▸ hr)
      -- a timer still to fire has the object it had before this turn
      have hsame : ∀ timer, q ∈ out → (s.setTimer p timer).heap q = s.heap q :=
        fun timer hq => setTimer_heap_ne s timer (hne q hq)
      rw [fireAll]
      simp only
      split_ifs with hrec
      · rw [ih hrest fun r hr hmem => ?_]
        · show q ∈ (s.setTimer p _).insertInto p s.m_timers ∨ (q ∈ out ∧
            ((s.setTimer p _).heap q).m_recurring = true) ↔ _
          rw [mem_insertInto hp, List.mem_cons]
          constructor
          · rintro ((rfl | hq) | ⟨hq, hr⟩)
            · exact .inr ⟨.inl rfl, hrec⟩
            · exact .inl hq
            · rw [hsame _ hq] at hr
              exact .inr ⟨.inr hq, hr⟩
          · rintro (hq | ⟨rfl | hq, hr⟩)
            · exact .inl (.inr hq)
            · exact .inl (.inl rfl)
            · exact .inr ⟨hq, by rw [hsame _ hq]; exact hr⟩
        · rcases (mem_insertInto hp).mp hmem with e | hmem
          · exact hne r hr e
          · exact hout r (List.mem_cons_of_mem _ hr) hmem
      · refine (ih (s := s.setTimer p { s.heap p with m_cb := none }) hrest
          fun r hr => hout r (List.mem_cons_of_mem _ hr)).trans ?_
        show q ∈ s.m_timers ∨ (q ∈ out ∧ ((s.setTimer p _).heap q).m_recurring = true) ↔ _
        rw [List.mem_cons]
        constructor
        · rintro (hq | ⟨hq, hr⟩)
          · exact .inl hq
          · rw [hsame _ hq] at hr
            exact .inr ⟨.inr hq, hr⟩
        · rintro (hq | ⟨rfl | hq, hr⟩)
          · exact .inl hq
          · exact absurd hr hrec
          · exact .inr ⟨hq, by rw [hsame _ hq]; exact hr⟩

/-! ### The call -/

/-- The timers a call takes out are a front of the set. -/
theorem due_front (s : TimerManager) (now : UInt64) (probe : Nat) :
    ∃ rest, s.m_timers = s.due now probe ++ rest := by
  unfold due
  split
  · rename_i hnil
    exact ⟨[], hnil⟩
  · split_ifs
    · exact ⟨s.m_timers, rfl⟩
    · exact expired_front s now probe _

/-- **The effect of a call** on every object and on the set, also with a rollover. -/
theorem listExpiredCb_effect {s : TimerManager} (h : s.Inv) (now : UInt64) (probe q : Nat) :
    (s.listExpiredCb now probe).1.heap q =
        (if q ∈ s.due now probe then fired now (s.heap q) else s.heap q) ∧
      (q ∈ (s.listExpiredCb now probe).1.m_timers ↔
        q ∈ s.m_timers ∧ (q ∈ s.due now probe → (s.heap q).m_recurring = true)) := by
  rcases hset : s.m_timers with _ | ⟨first, rest⟩
  · have hdue : s.due now probe = [] := by unfold due; rw [hset]
    have hrun : s.listExpiredCb now probe = (s, []) := by unfold listExpiredCb; rw [hset]
    rw [hdue, hrun]
    simp [hset]
  · have hdue : s.due now probe =
        if !rollover s.m_previouseTime now && (s.heap first).m_next > now then []
        else s.expired now probe (rollover s.m_previouseTime now) := by
      unfold due; rw [hset]
    rw [listExpiredCb_cons hset]
    by_cases hnone : (!rollover s.m_previouseTime now && (s.heap first).m_next > now) = true
    · rw [if_pos hnone] at hdue ⊢
      simp [hdue, hset]
    · rw [if_neg hnone] at hdue ⊢
      obtain ⟨more, hmore⟩ := due_front s now probe
      have hnodup := h.sorted.nodup
      rw [hmore, List.nodup_append] at hnodup
      rw [← hdue, ← hset]
      -- the due timers are the front of the set, and nothing stands in it twice
      have hdrop : s.m_timers.drop (s.due now probe).length = more := by
        rw [hmore, List.drop_left]
      constructor
      · exact fireAll_heap now hnodup.1 _ q
      · rw [hdrop, fireAll_mem now hnodup.1 fun p hp hin => hnodup.2.2 p hp p hin rfl, hmore,
          List.mem_append]
        have hapart : q ∈ more → q ∉ s.due now probe := fun hin hq => hnodup.2.2 q hq q hin rfl
        show q ∈ more ∨ (q ∈ s.due now probe ∧ (s.heap q).m_recurring = true) ↔ _
        tauto

/-- Without a rollover the timers taken out are those due. -/
theorem due_eq {s : TimerManager} (h : s.Sorted s.m_timers) {now : UInt64}
    (hroll : rollover s.m_previouseTime now = false) (probe : Nat) :
    s.due now probe = s.m_timers.filter fun p => (s.heap p).m_next ≤ now := by
  unfold due
  split
  · rename_i hnil
    rw [hnil]
    rfl
  · rename_i first rest hset
    rw [hroll]
    split_ifs with hnone
    · -- the first one is not due, so none is
      symm
      rw [List.filter_eq_nil_iff]
      intro p hp
      rw [hset] at h hp
      have hfirst : now < (s.heap first).m_next := by simpa using hnone
      rcases List.mem_cons.mp hp with rfl | hp
      · simpa using hfirst
      · have hless := (less_iff s first p).mp ((List.pairwise_cons.mp h).1 p hp)
        simp only [decide_eq_true_eq, ← UInt64.toNat_inj, UInt64.lt_iff_toNat_lt,
          UInt64.le_iff_toNat_le] at hless hfirst ⊢
        omega
    · exact expired_eq h now probe

/-- A reading that is not behind the previous one is no rollover. -/
theorem rollover_of_le {previouse now : UInt64} (h : previouse ≤ now) :
    rollover previouse now = false := by
  rw [UInt64.le_iff_toNat_le] at h
  unfold rollover
  rw [Bool.and_eq_false_iff, decide_eq_false_iff_not, UInt64.lt_iff_toNat_lt]
  exact .inl (by omega)

/-- **Expiry is exact**, in every state that calls at any readings reach, for a reading
that is not behind the previous one and does not wrap with the period of a recurring timer
due: the callbacks are those of the timers due, each once and in the order of their
deadlines; of these the recurring ones are in the set again, once and a period later, the
others are out of it and dead; every other timer is as it was. -/
theorem expiry_exact {start : UInt64} {s : TimerManager}
    (h : Lts.Reach step Lts.Any (new start) s) {now : UInt64} (probe : Nat)
    (hclock : s.m_previouseTime ≤ now)
    (hwrap : ∀ p ∈ s.m_timers, (s.heap p).m_next ≤ now → (s.heap p).m_recurring = true →
      now.toNat + (s.heap p).m_ms.toNat < 18446744073709551616) :
    ∃ (t : TimerManager) (out : List Nat),
      s.listExpiredCb now probe = (t, out.map fun p => (s.heap p).m_cb) ∧
      out.Nodup ∧ (∀ p, p ∈ out ↔ p ∈ s.m_timers ∧ (s.heap p).m_next ≤ now) ∧
      (out.Pairwise fun p q => (s.heap p).m_next ≤ (s.heap q).m_next) ∧
      (∀ p ∈ out, (s.heap p).m_recurring = false → p ∉ t.m_timers ∧
        t.heap p = { s.heap p with m_cb := none }) ∧
      (∀ p ∈ out, (s.heap p).m_recurring = true → t.m_timers.count p = 1 ∧
        (t.heap p).m_next.toNat = now.toNat + (s.heap p).m_ms.toNat ∧
        t.heap p = { s.heap p with m_next := (t.heap p).m_next }) ∧
      (∀ p ∉ out, t.heap p = s.heap p ∧ (p ∈ t.m_timers ↔ p ∈ s.m_timers)) := by
  have hinv : s.Inv := h.invariant (I := Inv) (new_inv start) fun _ _ _ hs _ => step_keeps_inv hs
  have hdue := due_eq hinv.sorted (rollover_of_le hclock) probe
  obtain ⟨htinv, hcbs⟩ := listExpiredCb_spec hinv now probe
  have heffect := listExpiredCb_effect hinv now probe
  have hmem : ∀ p, p ∈ s.due now probe ↔ p ∈ s.m_timers ∧ (s.heap p).m_next ≤ now := by
    intro p
    rw [hdue, List.mem_filter, decide_eq_true_eq]
  refine ⟨_, s.due now probe, Prod.ext rfl hcbs, ?_, hmem, ?_, ?_, ?_, ?_⟩
  · rw [hdue]
    exact hinv.sorted.nodup.filter _
  · -- the order of the set is that of the deadlines
    rw [hdue]
    refine List.Pairwise.sublist List.filter_sublist (hinv.sorted.imp fun {p q} hless => ?_)
    rw [less_iff] at hless
    simp only [← UInt64.toNat_inj, UInt64.lt_iff_toNat_lt, UInt64.le_iff_toNat_le] at hless ⊢
    omega
  · intro p hp hrec
    obtain ⟨hheap, hin⟩ := heffect p
    rw [if_pos hp, fired, if_neg (by rw [hrec]; exact Bool.false_ne_true)] at hheap
    refine ⟨fun ht => ?_, hheap⟩
    rw [(hin.mp ht).2 hp] at hrec
    cases hrec
  · intro p hp hrec
    obtain ⟨hheap, hin⟩ := heffect p
    obtain ⟨hps, hnext⟩ := (hmem p).mp hp
    rw [if_pos hp, fired, if_pos hrec] at hheap
    refine ⟨List.count_eq_one_of_mem htinv.sorted.nodup (hin.mpr ⟨hps, fun _ => hrec⟩), ?_, ?_⟩
    · rw [hheap, UInt64.toNat_add, Nat.mod_eq_of_lt (hwrap p hps hnext hrec)]
    · rw [hheap]
  · intro p hp
    obtain ⟨hheap, hin⟩ := heffect p
    rw [if_neg hp] at hheap
    exact ⟨hheap, hin.trans ⟨And.left, fun hps => ⟨hps, fun hq => absurd hq hp⟩⟩⟩

/-- A timer of 5 ms and a recurring one of 3 ms, both due at 20. -/
theorem expiry_exact_two : ∃ (s t : TimerManager) (out : List Nat),
    s.listExpiredCb 20 9 = (t, out.map fun p => (s.heap p).m_cb) ∧ 1 ∈ out ∧ 1 ∉ t.m_timers ∧
      t.m_timers.count 2 = 1 := by
  have hreach : Lts.Reach step Lts.Any (new 10)
      (((new 10).addTimer 1 10 5 (some 7) false).1.addTimer 2 10 3 (some 8) true).1 :=
    .step (.addTimer 2 10 3 (some 8) true)
      (.step (.addTimer 1 10 5 (some 7) false) .init trivial rfl) trivial rfl
  obtain ⟨t, out, hrun, -, hdue, -, hdead, hagain, -⟩ :=
    expiry_exact hreach 9 (by decide : _ ≤ (20 : UInt64)) (by decide)
  exact ⟨_, t, out, hrun, (hdue 1).mpr (by decide),
    (hdead 1 ((hdue 1).mpr (by decide)) (by decide)).1,
    (hagain 2 ((hdue 2).mpr (by decide)) (by decide)).1⟩

end TimerManager

end Will
