/-
ZjhServer/Hook/Sleep.lean

The hooked `sleep`, `usleep` and `nanosleep` (server/hook.cc).

Each turns its argument into milliseconds by arithmetic of its own, `unsigned int` in
`sleep` and `usleep`, `long` and then `int` in `nanosleep`, and hands them as a `uint64_t`
to `addTimer`, which adds the clock reading.  `Fits` is where nothing of that shortens the
sleep: the product of `sleep` does not wrap at `2^32`; the milliseconds of `nanosleep` fit
an `int`, or become a negative one whose sum with the reading does not wrap back
(`sleep_not_early_iff`).
-/
import ZjhServer.Timer.Basic

namespace Will

namespace Hook

namespace Sleep

/-- `struct timespec` -/
structure timespec where
  tv_sec : Int64
  tv_nsec : Int64

/-- What the three functions are called with. -/
inductive Request
  | sleep (seconds : UInt32)
  | usleep (usec : UInt32)
  | nanosleep (req : timespec)

/-- A `long` with the value `v`; none when the arithmetic overflows. -/
def long (v : Int) : Option Int :=
  if -9223372036854775808 ≤ v ∧ v < 9223372036854775808 then some v else none

/-- `int timeout_ms = req->tv_sec * 1000 + req->tv_nsec / 1000 / 1000;` -/
def timeout_ms (req : timespec) : Option Int := do
  let sec ← long (req.tv_sec.toInt * 1000)
  let total ← long (sec + (req.tv_nsec.toInt.tdiv 1000).tdiv 1000)
  pure (Int.bmod total 4294967296)

namespace Request

/-- The first argument of `addTimer`, a `uint64_t`. -/
def timer : Request → Option UInt64
  | sleep seconds => some (seconds * 1000).toUInt64
  | usleep usec => some (usec / 1000).toUInt64
  | nanosleep req => (timeout_ms req).map fun v => .ofBitVec (BitVec.ofInt 64 v)

/-- The timer a call arms at address `p`, before the fiber yields. -/
def arm (s : TimerManager) (p : Nat) (now : UInt64) (cb : Cb) (r : Request) :
    Option TimerManager :=
  r.timer.map fun ms => (s.addTimer p now ms (some cb) false).1

/-- The arguments a caller may pass. -/
def Valid : Request → Prop
  | nanosleep req => 0 ≤ req.tv_sec.toInt ∧ 0 ≤ req.tv_nsec.toInt ∧ req.tv_nsec.toInt < 1000000000
  | sleep _ | usleep _ => True

/-- The duration asked for, in nanoseconds. -/
def nanoseconds : Request → Nat
  | sleep seconds => seconds.toNat * 1000000000
  | usleep usec => usec.toNat * 1000
  | nanosleep req => req.tv_sec.toInt.toNat * 1000000000 + req.tv_nsec.toInt.toNat

/-- The duration asked for, in whole milliseconds. -/
def ms (r : Request) : Nat := r.nanoseconds / 1000000

theorem ms_sleep (seconds : UInt32) : (sleep seconds).ms = seconds.toNat * 1000 := by
  show seconds.toNat * 1000000000 / 1000000 = _
  omega

theorem ms_usleep (usec : UInt32) : (usleep usec).ms = usec.toNat / 1000 := by
  show usec.toNat * 1000 / 1000000 = _
  omega

theorem ms_nanosleep {req : timespec} (h : (nanosleep req).Valid) :
    ((nanosleep req).ms : Int) = req.tv_sec.toInt * 1000 + req.tv_nsec.toInt / 1000000 := by
  obtain ⟨hsec, hnsec, -⟩ := h
  show (((req.tv_sec.toInt.toNat * 1000000000 + req.tv_nsec.toInt.toNat) / 1000000 : Nat) : Int) = _
  omega

/-- Where no conversion shortens the sleep. -/
def Fits (now : UInt64) : Request → Prop
  | sleep seconds => seconds.toNat * 1000 < 4294967296
  | usleep _ => True
  | nanosleep req =>
      (nanosleep req).ms < 2147483648 ∨
        ((nanosleep req).ms < 9223372036854775808 ∧
          2147483648 ≤ (nanosleep req).ms % 4294967296 ∧
          now.toNat < 4294967296 - (nanosleep req).ms % 4294967296)

end Request

/-- What is asked of a call: the timer it arms is due no earlier than the duration after
the clock reading. -/
def NotEarly (s : TimerManager) (p : Nat) (now : UInt64) (cb : Cb) (r : Request) : Prop :=
  ∃ t, r.arm s p now cb = some t ∧ now.toNat + r.ms ≤ (t.heap p).m_next.toNat

/-! ### The deadline -/

/-- The deadline is the sum that the constructor of the timer computes. -/
theorem notEarly_iff (s : TimerManager) (p : Nat) (now : UInt64) (cb : Cb) (r : Request) :
    NotEarly s p now cb r ↔
      ∃ ms, r.timer = some ms ∧ now.toNat + r.ms ≤ (now + ms).toNat := by
  have hheap : ∀ ms, ((s.addTimer p now ms (some cb) false).1.heap p).m_next = now + ms :=
    fun ms => congrArg Timer.m_next (TimerManager.setTimer_heap_same s p _)
  constructor
  · rintro ⟨t, harm, hle⟩
    obtain ⟨ms, hms, rfl⟩ := Option.map_eq_some_iff.mp harm
    exact ⟨ms, hms, by rw [← hheap]; exact hle⟩
  · rintro ⟨ms, hms, hle⟩
    refine ⟨_, by rw [Request.arm, hms]; rfl, ?_⟩
    rw [hheap]
    exact hle

/-- A duration that goes to the timer as it is. -/
theorem le_deadline_iff {now ms : UInt64} (hnow : now.toNat < 4611686018427387904)
    (hms : ms.toNat < 4294967296) (d : Nat) :
    now.toNat + d ≤ (now + ms).toNat ↔ d ≤ ms.toNat := by
  rw [UInt64.toNat_add]
  omega

/-- `nanosleep` in exact arithmetic: what the `long` holds when it does not overflow. -/
theorem timeout_ms_eq {req : timespec} (h : (Request.nanosleep req).Valid) :
    timeout_ms req = if (Request.nanosleep req).ms < 9223372036854775808 then
      some (Int.bmod (Request.nanosleep req).ms 4294967296) else none := by
  have hms := Request.ms_nanosleep h
  obtain ⟨hsec, hnsec, hlt⟩ := h
  have hdiv : (req.tv_nsec.toInt.tdiv 1000).tdiv 1000 = req.tv_nsec.toInt / 1000000 := by
    rw [Int.tdiv_eq_ediv_of_nonneg hnsec, Int.tdiv_eq_ediv_of_nonneg (by omega)]
    omega
  rw [timeout_ms, hdiv]
  by_cases hproduct : req.tv_sec.toInt * 1000 < 9223372036854775808
  · have hsum : req.tv_sec.toInt * 1000 + req.tv_nsec.toInt / 1000000 =
        (Request.nanosleep req).ms := hms.symm
    rw [long, if_pos ⟨by omega, hproduct⟩, Option.bind_eq_bind, Option.bind_some, hsum, long]
    split_ifs with hlong hfits
    · rfl
    · omega
    · omega
    · rfl
  · -- the product overflows, and then so would the sum
    rw [long, if_neg fun hboth => hproduct hboth.2, if_neg (by omega)]
    rfl

/-- A sleep of `nanosleep`, by the sign of the `int`. -/
theorem nanosleep_deadline_iff {now : UInt64} (hnow : now.toNat < 4611686018427387904) {d : Nat}
    (hd : d < 9223372036854775808) :
    now.toNat + d ≤ (now + .ofBitVec (BitVec.ofInt 64 (Int.bmod d 4294967296))).toNat ↔
      d < 2147483648 ∨ (2147483648 ≤ d % 4294967296 ∧
        now.toNat < 4294967296 - d % 4294967296) := by
  have hbits : (UInt64.ofBitVec (BitVec.ofInt 64 (Int.bmod d 4294967296))).toNat =
      (Int.bmod d 4294967296 % 18446744073709551616).toNat := by
    rw [UInt64.toNat_ofBitVec, BitVec.toNat_ofInt]
    rfl
  rw [UInt64.toNat_add, hbits, Int.bmod_def]
  split_ifs with hsign
  · omega
  · omega

/-- **A hooked sleep is not early**, for every argument and every clock reading below
`2^62`, if and only if its milliseconds come through the conversions: they are below `2^32`
in `sleep`, whatever they are in `usleep`, and in `nanosleep` they are below `2^31`, or are
a `long` whose low 32 bits are a negative `int` that the reading does not make up for. -/
theorem sleep_not_early_iff (s : TimerManager) (p : Nat) {now : UInt64} (cb : Cb) {r : Request}
    (hr : r.Valid) (hnow : now.toNat < 4611686018427387904) :
    NotEarly s p now cb r ↔ r.Fits now := by
  rw [notEarly_iff]
  cases r with
  | sleep seconds =>
      -- the product is one of 32 bits
      have harg : (seconds * 1000).toUInt64.toNat = seconds.toNat * 1000 % 4294967296 := by
        rw [UInt32.toNat_toUInt64, UInt32.toNat_mul]
        rfl
      have hle := le_deadline_iff hnow
        (show (seconds * 1000).toUInt64.toNat < 4294967296 by omega)
        (seconds.toNat * 1000)
      simp only [Request.timer, Option.some.injEq, exists_eq_left', Request.ms_sleep, hle, harg,
        Request.Fits]
      omega
  | usleep usec =>
      have harg : (usec / 1000).toUInt64.toNat = usec.toNat / 1000 := by
        rw [UInt32.toNat_toUInt64, UInt32.toNat_div]
        rfl
      have hlt := usec.toNat_lt
      have hle := le_deadline_iff hnow
        (show (usec / 1000).toUInt64.toNat < 4294967296 by omega)
        (usec.toNat / 1000)
      simp only [Request.timer, Option.some.injEq, exists_eq_left', Request.ms_usleep, hle, harg,
        Request.Fits, Nat.le_refl]
  | nanosleep req =>
      rw [Request.Fits]
      simp only [Request.timer, timeout_ms_eq hr]
      split_ifs with hlong
      · simp only [Option.map_some, Option.some.injEq, exists_eq_left',
          nanosleep_deadline_iff hnow hlong, hlong, true_and]
      · refine iff_of_false (fun ⟨_, hnone, _⟩ => ?_) fun hfits => ?_
        · cases hnone
        · rcases hfits with hint | ⟨hfits, -⟩ <;> omega

/-- A millisecond and a half. -/
theorem sleep_not_early_iff_usleep : NotEarly (.new 10) 1 10 7 (.usleep 1500) :=
  (sleep_not_early_iff (.new 10) 1 7 (r := .usleep 1500) trivial (by decide)).mpr trivial

/-- **Fifty days** are a sleep of 704 ms: the product wraps. -/
theorem sleep_early :
    ¬ ∀ (s : TimerManager) (p : Nat) (now : UInt64) (cb : Cb) (r : Request), r.Valid →
      now.toNat < 4611686018427387904 → NotEarly s p now cb r := by
  intro h
  obtain ⟨t, harm, hle⟩ := h (.new 0) 1 0 7 (.sleep 4294968) trivial (by decide)
  cases harm
  revert hle
  decide

end Sleep

end Hook

end Will
