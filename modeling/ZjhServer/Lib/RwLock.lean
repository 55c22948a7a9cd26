/-
ZjhServer/Lib/RwLock.lean

A lock for many readers or one writer, which knows how many have it but not who.  `Fits` says
that the lock and a list of holders agree; taking and dropping keep it, and with it two
holders of one lock are both readers (`Fits.both_read`).

A lock for one holder is one that only writers take.
-/
import ZjhServer.Lib.Counting

namespace RwLock

inductive Mode
  | read
  | write
  deriving DecidableEq, Repr

structure Lock where
  writer : Bool
  readers : Nat
  deriving DecidableEq, Repr

namespace Lock

def free : Lock := ⟨false, 0⟩

/-- The lock can be taken now. -/
def admits (l : Lock) : Mode → Bool
  | .read => !l.writer
  | .write => !l.writer && l.readers = 0

def take (l : Lock) : Mode → Lock
  | .read => { l with readers := l.readers + 1 }
  | .write => { l with writer := true }

/-- Whoever has it, the writer first. -/
def drop (l : Lock) : Lock :=
  if l.writer then { l with writer := false } else { l with readers := l.readers - 1 }

end Lock

/-- The lock is held by the holders listed, one entry for each party; no entry for a party that
does not have it. -/
structure Fits (l : Lock) (holders : List (Option Mode)) : Prop where
  writers : holders.countP (· = some .write) = l.writer.toNat
  readers : holders.countP (· = some .read) = l.readers
  apart : l.writer = true → l.readers = 0

variable {l : Lock} {holders : List (Option Mode)} {i j : Nat} {m m' : Mode}

theorem Fits.start : Fits .free [] := ⟨rfl, rfl, fun _ => rfl⟩

/-- A party that does not have the lock. -/
theorem Fits.push (h : Fits l holders) : Fits l (holders ++ [none]) := by
  refine ⟨?_, ?_, h.apart⟩
  · rw [List.countP_append]
    exact h.writers
  · rw [List.countP_append]
    exact h.readers

theorem Fits.take (h : Fits l holders) (hi : holders[i]? = some none) (hm : l.admits m = true) :
    Fits (l.take m) (holders.set i (some m)) := by
  have hwrite := Counting.countP_set hi (· = some .write) (some m)
  have hread := Counting.countP_set hi (· = some .read) (some m)
  have hwriters := h.writers
  have hreaders := h.readers
  cases m with
  | read =>
      have hno : l.writer = false := by simpa [Lock.admits] using hm
      simp only [reduceCtorEq, decide_false, Option.some.injEq, decide_true, Bool.toNat_false,
        Bool.toNat_true] at hwrite hread
      refine ⟨?_, ?_, fun hw => ?_⟩
      · show _ = l.writer.toNat
        omega
      · show _ = l.readers + 1
        omega
      · cases hno.symm.trans hw
  | write =>
      have hno : l.writer = false ∧ l.readers = 0 := by simpa [Lock.admits] using hm
      simp only [reduceCtorEq, decide_false, Option.some.injEq, decide_true, Bool.toNat_false,
        Bool.toNat_true] at hwrite hread
      rw [hno.1, Bool.toNat_false] at hwriters
      refine ⟨?_, ?_, fun _ => hno.2⟩
      · show _ = 1
        omega
      · show _ = l.readers
        omega

/-- What a holder knows of the lock. -/
theorem Fits.held (h : Fits l holders) (hi : holders[i]? = some (some m)) :
    (m = .write ∧ l.writer = true) ∨ (m = .read ∧ l.writer = false ∧ 0 < l.readers) := by
  have hmem := List.mem_of_getElem? hi
  cases m with
  | write =>
      have hpos : 0 < holders.countP (· = some .write) :=
        List.countP_pos_iff.mpr ⟨_, hmem, decide_eq_true rfl⟩
      rw [h.writers] at hpos
      cases hw : l.writer with
      | true => exact .inl ⟨rfl, rfl⟩
      | false =>
          rw [hw] at hpos
          cases hpos
  | read =>
      have hpos : 0 < holders.countP (· = some .read) :=
        List.countP_pos_iff.mpr ⟨_, hmem, decide_eq_true rfl⟩
      rw [h.readers] at hpos
      refine .inr ⟨rfl, Bool.eq_false_iff.mpr fun hw => ?_, hpos⟩
      have := h.apart hw
      omega

theorem Fits.drop (h : Fits l holders) (hi : holders[i]? = some (some m)) :
    Fits l.drop (holders.set i none) := by
  have hwrite := Counting.countP_set hi (· = some .write) none
  have hread := Counting.countP_set hi (· = some .read) none
  have hwriters := h.writers
  have hreaders := h.readers
  rcases h.held hi with ⟨rfl, hw⟩ | ⟨rfl, hw, hpos⟩
  · simp only [reduceCtorEq, decide_false, Option.some.injEq, decide_true, Bool.toNat_false,
      Bool.toNat_true] at hwrite hread
    rw [hw, Bool.toNat_true] at hwriters
    rw [Lock.drop, if_pos hw]
    refine ⟨?_, ?_, fun hw' => by cases hw'⟩
    · show _ = 0
      omega
    · show _ = l.readers
      omega
  · simp only [reduceCtorEq, decide_false, Option.some.injEq, decide_true, Bool.toNat_false,
      Bool.toNat_true] at hwrite hread
    rw [hw, Bool.toNat_false] at hwriters
    rw [Lock.drop, if_neg (by rw [hw]; decide)]
    refine ⟨?_, ?_, fun hw' => ?_⟩
    · show _ = l.writer.toNat
      rw [hw, Bool.toNat_false]
      omega
    · show _ = l.readers - 1
      omega
    · cases hw.symm.trans hw'

/-- **Two holders of one lock** are both readers. -/
theorem Fits.both_read (h : Fits l holders) (hi : holders[i]? = some (some m))
    (hj : holders[j]? = some (some m')) (hne : i ≠ j) : m = .read ∧ m' = .read := by
  rcases h.held hi with ⟨rfl, hw⟩ | ⟨rfl, hw, -⟩ <;>
    rcases h.held hj with ⟨rfl, hw'⟩ | ⟨rfl, hw', -⟩
  · have htwo := Counting.two_le_countP hi hj hne (p := (· = some .write)) (decide_eq_true rfl)
      (decide_eq_true rfl)
    rw [h.writers, hw, Bool.toNat_true] at htwo
    omega
  · cases hw.symm.trans hw'
  · cases hw.symm.trans hw'
  · exact ⟨rfl, rfl⟩

/-- Where nobody has it, the lock is free. -/
theorem Fits.free_of_none (h : Fits l holders) (hnone : ∀ x ∈ holders, x = none) :
    l = .free := by
  have hzero (m : Mode) : holders.countP (· = some m) = 0 := by
    rw [List.countP_eq_zero]
    intro x hx
    rw [hnone x hx]
    exact nofun
  have hwriters := h.writers
  have hreaders := h.readers
  rw [hzero] at hwriters hreaders
  obtain ⟨writer, readers⟩ := l
  obtain rfl : readers = 0 := hreaders.symm
  cases writer with
  | true => cases hwriters
  | false => rfl

end RwLock
