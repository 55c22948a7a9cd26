/-
ZjhServer/Timer/Poll.lean

The timeout that `IOManager::idle` gives to `epoll_wait` (server/iomanager.cc).

`getNextTimer` gives the distance to the earliest deadline in 64 bits, all ones for no
timer.  `idle` narrows it to an `int`, takes the minimum with `MAX_TIMEOUT`, stores that in
the same 64 bits and narrows again; a retry after `EINTR` starts from what is stored
(`timeout`).  Once a value below `2^31` has been stored it stays (`clip_settled`), so the
retries are the first call again, and all depends on the sign of the first narrowing
(`poll_bounded_iff`).
-/
import ZjhServer.Timer.Notify
import ZjhServer.Timer.Set

namespace Will

namespace Notify

/-- The timeout of the call of `epoll_wait` after `k` calls that ended with `EINTR`. -/
def timeout (next_timeout : UInt64) (k : Nat) : Int := asInt (clip^[k + 1] next_timeout)

/-! ### The conversions -/

theorem asInt_eq (x : UInt64) : asInt x = Int.bmod (x.toNat % 4294967296 : Nat) 4294967296 := by
  rw [asInt, BitVec.toInt_eq_toNat_bmod, BitVec.toNat_setWidth]
  rfl

theorem asInt_of_lt {x : UInt64} (h : x.toNat % 4294967296 < 2147483648) :
    asInt x = (x.toNat % 4294967296 : Nat) := by
  rw [asInt_eq]
  exact Int.bmod_eq_of_le (by omega) (by omega)

theorem asInt_nonneg_iff (x : UInt64) : 0 ≤ asInt x ↔ x.toNat % 4294967296 < 2147483648 := by
  refine ⟨fun h => ?_, fun h => by rw [asInt_of_lt h]; exact Int.natCast_nonneg _⟩
  by_contra hge
  have hbmod := Int.bmod_def (x.toNat % 4294967296 : Nat) 4294967296
  rw [asInt_eq, hbmod] at h
  split_ifs at h <;> omega

/-- An `int` stored in 64 bits comes out as it went in. -/
theorem asInt_ofInt {z : Int} (hlo : -2147483648 ≤ z) (hhi : z < 2147483648) :
    asInt (.ofBitVec (BitVec.ofInt 64 z)) = z := by
  have hbits : (UInt64.ofBitVec (BitVec.ofInt 64 z)).toNat = (z % 18446744073709551616).toNat := by
    rw [UInt64.toNat_ofBitVec, BitVec.toNat_ofInt]
    rfl
  rw [asInt_eq, hbits, Int.bmod_def]
  split_ifs <;> omega

/-- A distance that narrows to a negative number is passed on as that number. -/
theorem asInt_clip_neg {x : UInt64} (hnone : x ≠ ~~~0) (hneg : asInt x < 0) :
    asInt (clip x) = asInt x := by
  have hlo : -2147483648 ≤ asInt x := BitVec.le_toInt _
  rw [clip, if_pos hnone, min_eq_left (by rw [MAX_TIMEOUT]; omega), asInt_ofInt hlo (by omega)]

/-- What is stored for a distance that narrows to no negative number. -/
theorem clip_toNat {x : UInt64} (h : x = ~~~0 ∨ x.toNat % 4294967296 < 2147483648) :
    (clip x).toNat = if x = ~~~0 then 5000 else min (x.toNat % 4294967296) 5000 := by
  unfold clip
  by_cases hnone : x = ~~~0
  · rw [if_neg (not_not.mpr hnone), if_pos hnone]
    rfl
  · rw [if_pos hnone, if_neg hnone, asInt_of_lt (h.resolve_left hnone)]
    have hmin : min ((x.toNat % 4294967296 : Nat) : Int) MAX_TIMEOUT =
        (min (x.toNat % 4294967296) 5000 : Nat) := by
      rw [MAX_TIMEOUT]
      omega
    rw [hmin, BitVec.ofInt_natCast, UInt64.toNat_ofBitVec, BitVec.toNat_ofNat]
    omega

/-- A stored timeout is stored again. -/
theorem clip_settled {x : UInt64} (h : x.toNat ≤ 5000) : clip x = x := by
  apply UInt64.toNat_inj.mp
  have hnone : x ≠ ~~~0 := by
    rintro rfl
    exact absurd h (by decide)
  rw [clip_toNat (.inr (by omega)), if_neg hnone]
  omega

/-- Every retry is the first call again. -/
theorem timeout_eq {x : UInt64} (h : x = ~~~0 ∨ x.toNat % 4294967296 < 2147483648) (k : Nat) :
    timeout x k = (if x = ~~~0 then 5000 else min (x.toNat % 4294967296) 5000 : Nat) := by
  have hle : (clip x).toNat ≤ 5000 := by
    rw [clip_toNat h]
    split_ifs <;> omega
  have hsame : clip^[k + 1] x = clip x := by
    rw [Function.iterate_succ_apply]
    exact Function.iterate_fixed (clip_settled hle) k
  rw [timeout, hsame, asInt_of_lt (by omega), Nat.mod_eq_of_lt (by omega), clip_toNat h]

/-! ### The bound -/

/-- The time from a reading to the earliest deadline, all ones for no timer. -/
def distance (s : TimerManager) (now : UInt64) : UInt64 := (s.getNextTimer now).2

/-- What is asked of every call: a timeout of at most five seconds, and no later than any
deadline. -/
def Bounded (s : TimerManager) (now : UInt64) : Prop :=
  ∀ k, 0 ≤ timeout (distance s now) k ∧ timeout (distance s now) k ≤ 5000 ∧
    ∀ p ∈ s.m_timers,
      timeout (distance s now) k ≤ ((s.heap p).m_next.toNat - now.toNat : Nat)

/-- `getNextTimer` gives the time to the first member, and no member comes before it. -/
theorem distance_le {s : TimerManager} (h : s.Sorted s.m_timers) (now : UInt64) {p : Nat}
    (hp : p ∈ s.m_timers) :
    (distance s now).toNat ≤ (s.heap p).m_next.toNat - now.toNat := by
  unfold distance TimerManager.getNextTimer
  rcases hset : s.m_timers with _ | ⟨first, rest⟩
  · rw [hset] at hp
    cases hp
  · rw [hset] at h hp
    have hfirst : (s.heap first).m_next.toNat ≤ (s.heap p).m_next.toNat := by
      rcases List.mem_cons.mp hp with rfl | hp
      · exact Nat.le_refl _
      · have hless := (s.less_iff first p).mp ((List.pairwise_cons.mp h).1 p hp)
        simp only [← UInt64.toNat_inj, UInt64.lt_iff_toNat_lt] at hless
        omega
    simp only
    by_cases hdue : now ≥ (s.heap first).m_next
    · rw [if_pos hdue]
      exact Nat.zero_le _
    · rw [if_neg hdue]
      rw [ge_iff_le, UInt64.le_iff_toNat_le, Nat.not_le] at hdue
      show ((s.heap first).m_next - now).toNat ≤ _
      rw [UInt64.toNat_sub_of_le _ _ (UInt64.le_iff_toNat_le.mpr (Nat.le_of_lt hdue))]
      omega

/-- **The timeout of `epoll_wait` is bounded**, on the first call and on every retry, if
and only if the distance to the earliest deadline is all ones (as it is without a timer),
or its low 32 bits are no negative `int`. -/
theorem poll_bounded_iff {s : TimerManager} (h : s.Sorted s.m_timers) (now : UInt64) :
    Bounded s now ↔
      distance s now = ~~~0 ∨ (distance s now).toNat % 4294967296 < 2147483648 := by
  constructor
  · intro hbounded
    obtain ⟨hpos, -⟩ := hbounded 0
    by_cases hnone : distance s now = ~~~0
    · exact .inl hnone
    · right
      rw [← asInt_nonneg_iff]
      by_contra hneg
      have hfirst := asInt_clip_neg hnone (by omega)
      rw [timeout, Function.iterate_one, hfirst] at hpos
      exact hneg hpos
  · intro hgood k
    have hle : timeout (distance s now) k ≤ (distance s now).toNat := by
      rw [timeout_eq hgood]
      split_ifs with hnone
      · rw [hnone]
        decide
      · have hmod := Nat.mod_le (distance s now).toNat 4294967296
        omega
    refine ⟨?_, ?_, fun p hp => ?_⟩
    · rw [timeout_eq hgood]
      exact Int.natCast_nonneg _
    · rw [timeout_eq hgood]
      split_ifs <;> omega
    · have hfirst := distance_le h now hp
      omega

/-- Three seconds ahead, after an interrupt. -/
theorem poll_bounded_iff_three : ∃ s : TimerManager, s.m_timers = [1] ∧
    0 ≤ timeout (distance s 20) 1 ∧ timeout (distance s 20) 1 ≤ 5000 := by
  have hsorted : ((TimerManager.new 10).addTimer 1 10 3000 (some 7) false).1.Sorted [1] :=
    List.pairwise_singleton _ _
  have hbounded := (poll_bounded_iff hsorted 20).mpr (.inr (by decide)) 1
  exact ⟨_, rfl, hbounded.1, hbounded.2.1⟩

/-- **A timer `2^31` ms ahead**: the timeout is negative, and `epoll_wait` waits for ever. -/
theorem poll_unbounded :
    ¬ ∀ (s : TimerManager) (now : UInt64), s.Sorted s.m_timers → Bounded s now := by
  intro h
  have hbounded := h ((TimerManager.new 0).addTimer 1 0 2147483648 (some 7) false).1 0
    (List.pairwise_singleton _ _)
  have hfirst := (hbounded 0).1
  revert hfirst
  decide

end Notify

end Will
