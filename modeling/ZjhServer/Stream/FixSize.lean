/-
ZjhServer/Stream/FixSize.lean

`Stream::readFixSize` and `Stream::writeFixSize` on a buffer (server/stream.cc), over the
results the underlying `read` or `write` gives turn by turn.

The transfers tile the buffer from its front (`loop_spec`), until it is full or a result is not
positive.  What the caller is told goes through `int64_t` and `int`: a length from `2^63` on is
negative as `left`, so nothing is transferred, and the low 32 bits of the length are all that is
returned of a transfer that is complete (`fixSize_law`).
-/
import Mathlib.Data.List.Range
import ZjhServer.Http.Body

namespace Will

namespace Stream

namespace Buffer

open Http

/-! ### The source -/

/-- One call of `read` or `write`: where in the buffer, for how many bytes, and what it
returned. -/
structure Transfer where
  offset : Nat
  asked : Nat
  len : Int
  deriving DecidableEq, Repr

structure FixResult where
  result : Int
  transfers : List Transfer
  deriving DecidableEq, Repr

/-- The loop `while(left > 0)`, in its turn `k`.  The result of the call is an `int`, so
`return len` does not lose any of it. -/
def fixLoop (length : Nat) (results : Nat → Int32) (k offset : Nat) (left : Int) : FixResult :=
  if left > 0 then
    let len := (results k).toInt
    if len ≤ 0 then ⟨len, [⟨offset, left.toNat, len⟩]⟩
    else
      let r := fixLoop length results (k + 1) (offset + len.toNat) (left - len)
      ⟨r.result, ⟨offset, left.toNat, len⟩ :: r.transfers⟩
  else ⟨toInt length, []⟩
termination_by left.toNat
decreasing_by omega

/-- `size_t offset = 0; int64_t left = length;` and the loop. -/
def fixSize (length : UInt64) (results : Nat → Int32) : FixResult :=
  fixLoop length.toNat results 0 0 length.toInt64.toInt

/-- `Stream::readFixSize(buffer, length)`, with the results of `read`. -/
def readFixSize (length : UInt64) (read : Nat → Int32) : FixResult := fixSize length read

/-- `Stream::writeFixSize(buffer, length)`, with the results of `write`. -/
def writeFixSize (length : UInt64) (write : Nat → Int32) : FixResult := fixSize length write

/-! ### Results -/

/-- What the first `k` results add up to. -/
def total (results : Nat → Int32) : Nat → Int
  | 0 => 0
  | k + 1 => total results k + (results k).toInt

/-- The first `k` results are positive. -/
def Positive (results : Nat → Int32) (k : Nat) : Prop := ∀ j < k, 0 < (results j).toInt

/-- A stream never gives more than it is asked for. -/
def Behaves (length : Nat) (results : Nat → Int32) : Prop :=
  ∀ k, Positive results k → total results k < length →
    (results k).toInt ≤ length - total results k

/-- A result that is not positive comes before `length` bytes are through. -/
def Short (length : Nat) (results : Nat → Int32) : Prop :=
  ∃ n, Positive results n ∧ total results n < length ∧ (results n).toInt ≤ 0

/-- The bytes of the buffer that are transferred, in order. -/
def covered (transfers : List Transfer) : List Nat :=
  transfers.flatMap fun t => List.range' t.offset t.len.toNat

/-- **What a fixed-size transfer should return.** -/
structure Law (length : Nat) (r : FixResult) : Prop where
  positive : 0 < r.result ↔ covered r.transfers = List.range length
  stopped : covered r.transfers ≠ List.range length →
    ∃ earlier t, r.transfers = earlier ++ [t] ∧ (∀ u ∈ earlier, 0 < u.len) ∧ t.len ≤ 0 ∧
      r.result = t.len

theorem total_mono {results : Nat → Int32} {m n : Nat} (h : Positive results n) (hle : m ≤ n) :
    total results m ≤ total results n := by
  induction n with
  | zero => rw [Nat.le_zero.mp hle]
  | succ n ih =>
      rcases Nat.lt_or_ge n m with hlt | hge
      · rw [show m = n + 1 by omega]
      · have hprev := ih (fun j hj => h j (by omega)) hge
        have hpos := h n (by omega)
        rw [total]
        omega

/-- The transfer is over when the results add up, or at the first that is not positive; not
both. -/
theorem not_short_of_total {length n : Nat} {results : Nat → Int32} (h : Positive results n)
    (htotal : total results n = length) : ¬Short length results := by
  rintro ⟨m, hpos, hlt, hle⟩
  rcases Nat.lt_or_ge m n with hmn | hmn
  · exact absurd (h m hmn) (by omega)
  · have := total_mono hpos hmn
    omega

/-! ### The loop -/

/-- How the loop ends from its turn `k` on. -/
inductive Ends (length : Nat) (results : Nat → Int32) (offset : Nat) (r : FixResult) : Prop
  | full (n : Nat) : Positive results n → total results n = length → r.result = toInt length →
      covered r.transfers = List.range' offset (length - offset) → Ends length results offset r
  | short (n : Nat) (earlier : List Transfer) (t : Transfer) : Positive results n →
      total results n < length → r.transfers = earlier ++ [t] → (∀ u ∈ earlier, 0 < u.len) →
      t.len = (results n).toInt → (results n).toInt ≤ 0 → r.result = t.len →
      covered r.transfers = List.range' offset (total results n - offset).toNat →
      Ends length results offset r

/-- **The transfers tile the buffer** from the offset on. -/
theorem loop_spec {length : Nat} {results : Nat → Int32} (hres : Behaves length results)
    {k offset : Nat} {left : Int} (hpos : Positive results k)
    (hoffset : (offset : Int) = total results k) (hleft : left = length - total results k)
    (hle : total results k ≤ length) :
    Ends length results offset (fixLoop length results k offset left) := by
  fun_induction fixLoop length results k offset left with
  | case1 k offset left hgt len hlen =>
      -- the turn fails, and transfers nothing
      refine .short k [] _ hpos (by omega) rfl (fun u hu => absurd hu List.not_mem_nil)
        rfl hlen rfl ?_
      show List.range' offset len.toNat ++ [] = _
      rw [Int.toNat_of_nonpos hlen, ← hoffset, Int.sub_self]
      rfl
  | case2 k offset left hgt len hlen r ih =>
      have hnext : Positive results (k + 1) := by
        intro j hj
        rcases Nat.lt_succ_iff_lt_or_eq.mp hj with hj | rfl
        · exact hpos j hj
        · exact Int.not_le.mp hlen
      have hbound : len ≤ length - total results k := hres k hpos (by omega)
      have htotal : total results (k + 1) = total results k + len := rfl
      -- what this turn transfers stands right before what the rest of the loop does
      have hcover : ∀ m : Nat, offset + len.toNat ≤ m →
          List.range' offset len.toNat ++
            List.range' (offset + len.toNat) (m - (offset + len.toNat)) =
              List.range' offset (m - offset) := by
        intro m hm
        rw [List.range'_append_1]
        congr 1
        omega
      cases ih hnext (by omega) (by omega) (by omega) with
      | full n hn hfull hresult hcovered =>
          refine .full n hn hfull hresult ?_
          show List.range' offset len.toNat ++ covered _ = _
          rw [hcovered, hcover length (by omega)]
      | short n earlier t hn hlt htransfers hearlier ht hstop hresult hcovered =>
          have hkn : k + 1 ≤ n := Nat.le_of_not_lt fun hnk => absurd (hnext n hnk) (by omega)
          have hmono := total_mono hn hkn
          refine .short n (⟨offset, left.toNat, len⟩ :: earlier) t hn hlt
            (congrArg (_ :: ·) htransfers) ?_ ht hstop hresult ?_
          · intro u hu
            rcases List.mem_cons.mp hu with rfl | hu
            · exact Int.not_le.mp hlen
            · exact hearlier u hu
          · show List.range' offset len.toNat ++ covered _ = _
            rw [hcovered]
            have h := hcover (total results n).toNat (by omega)
            rw [show (total results n - ↑(offset + len.toNat)).toNat =
                (total results n).toNat - (offset + len.toNat) by omega,
              show (total results n - (offset : Int)).toNat =
                (total results n).toNat - offset by omega]
            exact h
  | case3 k offset left hgt =>
      -- nothing is left
      refine .full k hpos (by omega) rfl ?_
      rw [show length - offset = 0 by omega]
      rfl

/-! ### What the caller is told -/

theorem toInt64_toInt (length : UInt64) :
    length.toInt64.toInt =
      if length.toNat < 9223372036854775808 then (length.toNat : Int)
      else length.toNat - 18446744073709551616 := by
  show length.toBitVec.toInt = _
  rw [BitVec.toInt_eq_toNat_cond]
  show (if 2 * length.toNat < 2 ^ 64 then _ else _) = _
  by_cases h : length.toNat < 9223372036854775808
  · rw [if_pos (by omega), if_pos h]
    rfl
  · rw [if_neg (by omega), if_neg h]
    rfl

theorem range'_ne_range {m n : Nat} (h : m ≠ n) : List.range' 0 m ≠ List.range n := by
  intro heq
  have hlen := congrArg List.length heq
  rw [List.length_range', List.length_range] at hlen
  exact h hlen

/-- **Fixed-size transfers.**  For every length from 1 on and every stream that gives no more
than it is asked for, what is returned says whether all bytes went through if and only if the
length fits into `int64_t`, and its low 32 bits are a positive `int` or the stream ends
early. -/
theorem fixSize_law (length : UInt64) (hlength : 1 ≤ length.toNat) {results : Nat → Int32}
    (hres : Behaves length.toNat results) :
    Law length.toNat (fixSize length results) ↔
      length.toNat < 9223372036854775808 ∧
        (0 < toInt length.toNat ∨ Short length.toNat results) := by
  have hleft := toInt64_toInt length
  have hlt := length.toNat_lt
  by_cases hbig : length.toNat < 9223372036854775808
  · rw [if_pos hbig] at hleft
    have hends : Ends length.toNat results 0 (fixSize length results) :=
      loop_spec hres (fun j hj => absurd hj (Nat.not_lt_zero j)) rfl
        (by rw [hleft]; simp [total]) (by simp [total])
    cases hends with
    | full n hn htotal hresult hcovered =>
        rw [Nat.sub_zero, ← List.range_eq_range'] at hcovered
        constructor
        · intro h
          rw [← hresult]
          exact ⟨hbig, .inl (h.positive.mpr hcovered)⟩
        · rintro ⟨-, hint | hshort⟩
          · refine ⟨iff_of_true (by rw [hresult]; exact hint) hcovered, fun h => ?_⟩
            exact absurd hcovered h
          · exact absurd hshort (not_short_of_total hn htotal)
    | short n earlier t hn hlt htransfers hearlier ht hstop hresult hcovered =>
        have hpart : covered (fixSize length results).transfers ≠ List.range length.toNat := by
          rw [hcovered]
          refine range'_ne_range ?_
          omega
        refine iff_of_true ⟨iff_of_false ?_ hpart, fun _ => ?_⟩ ⟨hbig, .inr ⟨n, hn, hlt, hstop⟩⟩
        · rw [hresult, ht]
          exact Int.not_lt.mpr hstop
        · exact ⟨earlier, t, htransfers, hearlier, by rw [ht]; exact hstop, hresult⟩
  · -- `left` is negative: there is no transfer at all
    rw [if_neg hbig] at hleft
    have hrun : fixSize length results = ⟨toInt length.toNat, []⟩ := by
      rw [fixSize, fixLoop, if_neg (by omega)]
    refine iff_of_false ?_ fun h => hbig h.1
    intro h
    rw [hrun] at h
    have hnone : covered [] ≠ List.range length.toNat := by
      have hne : 0 ≠ length.toNat := by omega
      exact range'_ne_range hne
    obtain ⟨earlier, t, htransfers, -⟩ := h.stopped hnone
    exact absurd htransfers.symm (List.append_ne_nil_of_right_ne_nil _ (List.cons_ne_nil t []))

/-- **Fixed-size transfers**, in both directions. -/
theorem transfer_law (length : UInt64) (hlength : 1 ≤ length.toNat) {results : Nat → Int32}
    (hres : Behaves length.toNat results) :
    (Law length.toNat (readFixSize length results) ↔
        length.toNat < 9223372036854775808 ∧
          (0 < toInt length.toNat ∨ Short length.toNat results)) ∧
      (Law length.toNat (writeFixSize length results) ↔
        length.toNat < 9223372036854775808 ∧
          (0 < toInt length.toNat ∨ Short length.toNat results)) :=
  ⟨fixSize_law length hlength hres, fixSize_law length hlength hres⟩

/-- A stream that gives `a` bytes first and then `b` each time. -/
def inTwo (a b : Int32) (k : Nat) : Int32 := if k = 0 then a else b

theorem total_inTwo (a b : Int32) : total (inTwo a b) 2 = a.toInt + b.toInt := by
  show 0 + a.toInt + b.toInt = _
  rw [Int.zero_add]

theorem behaves_inTwo {a b : Int32} {length : Nat} (hb : 0 ≤ b.toInt)
    (hlength : (length : Int) = a.toInt + b.toInt) : Behaves length (inTwo a b) := by
  intro k hpos hlt
  match k, hpos, hlt with
  | 0, _, _ =>
      show a.toInt ≤ length - 0
      omega
  | 1, _, _ =>
      show b.toInt ≤ length - (0 + a.toInt)
      omega
  | k + 2, hpos, hlt =>
      have hmono := total_mono hpos (Nat.le_add_left 2 k)
      rw [total_inTwo] at hmono
      omega

/-- Five bytes in two turns. -/
theorem transfer_law_five :
    (Law 5 (readFixSize 5 (inTwo 2 3)) ↔
        5 < 9223372036854775808 ∧ (0 < toInt 5 ∨ Short 5 (inTwo 2 3))) ∧
      (Law 5 (writeFixSize 5 (inTwo 2 3)) ↔
        5 < 9223372036854775808 ∧ (0 < toInt 5 ∨ Short 5 (inTwo 2 3))) :=
  transfer_law 5 (by decide) (behaves_inTwo (by decide) (by decide))

/-- `2^31` bytes that all go through are reported as a failure. -/
theorem transfer_negative :
    Behaves 2147483648 (inTwo 2147483647 1) ∧
      ¬Law 2147483648 (readFixSize 2147483648 (inTwo 2147483647 1)) := by
  have hres : Behaves 2147483648 (inTwo 2147483647 1) := behaves_inTwo (by decide) (by decide)
  have htotal : total (inTwo 2147483647 1) 2 = (2147483648 : Nat) := by
    rw [total_inTwo]
    decide
  have hpos : Positive (inTwo 2147483647 1) 2 := by
    intro j hj
    match j, hj with
    | 0, _ => decide
    | 1, _ => decide
  refine ⟨hres, fun hlaw => ?_⟩
  obtain ⟨-, hint | hshort⟩ := (fixSize_law 2147483648 (by decide) hres).mp hlaw
  · exact absurd hint (by decide)
  · exact not_short_of_total hpos htotal hshort

/-! ### The socket of a session -/

/-- The results of the reads on a socket. -/
def reads (sock : Socket) (left : Nat) : Nat → Int32
  | 0 => Int32.ofNat (sock.read left).1.length
  | k + 1 => reads (sock.read left).2 (left - (sock.read left).1.length) k

theorem toInt_read (sock : Socket) (left : Nat) :
    (Int32.ofNat (sock.read left).1.length).toInt = (sock.read left).1.length := by
  have hle : (sock.read left).1.length ≤ Socket.MAX_RW_COUNT := by
    unfold Socket.read
    split
    · split
      · exact Nat.zero_le _
      · rw [List.length_take]
        omega
    · exact Nat.zero_le _
  exact Int32.toInt_ofNat_of_lt (Nat.lt_of_le_of_lt hle (by decide))

theorem readFixLoop_result (length : Nat) {turns left : Nat} {sock : Socket}
    {results : Nat → Int32} {k offset : Nat} (bytes : Bytes) (hturns : left ≤ turns)
    (hresults : ∀ j, results (k + j) = reads sock left j) :
    (readFixLoop length turns left bytes sock).result =
      (fixLoop length results k offset left).result := by
  induction turns generalizing left sock k offset bytes with
  | zero =>
      obtain rfl : left = 0 := Nat.le_zero.mp hturns
      rw [fixLoop, if_neg (by omega)]
      rfl
  | succ turns ih =>
      rw [readFixLoop, fixLoop]
      by_cases h0 : left = 0
      · rw [if_pos h0, if_neg (show ¬(left : Int) > 0 by omega)]
      · have hlen : (results k).toInt = (sock.read left).1.length := by
          rw [← toInt_read, show results k = results (k + 0) from rfl, hresults]
          rfl
        rw [if_neg h0, if_pos (show (left : Int) > 0 by omega)]
        simp only [hlen]
        by_cases hnil : (sock.read left).1 = []
        · rw [if_pos hnil, if_pos (by rw [hnil]; exact Int.le_refl 0), hnil]
          rfl
        · -- `left` stays a natural number, as no read gives more than it is asked for
          have hpos := List.length_pos_iff.mpr hnil
          have hle := sock.length_read_le left
          rw [if_neg hnil, if_neg (show ¬((sock.read left).1.length : Int) ≤ 0 by omega),
            show (left : Int) - ((sock.read left).1.length : Int) =
              ((left - (sock.read left).1.length : Nat) : Int) by omega]
          refine ih _ (by omega) fun j => ?_
          rw [Nat.add_assoc, Nat.add_comm 1 j, hresults]
          rfl

/-- What a session gets from its socket is what this loop makes of the reads. -/
theorem socket_readFixSize (sock : Socket) {length : UInt64}
    (h : length.toNat < 9223372036854775808) :
    (sock.readFixSize length.toNat).result =
      (readFixSize length (reads sock length.toNat)).result := by
  rw [Socket.readFixSize, readFixSize, fixSize, toInt64_toInt, if_pos h]
  exact readFixLoop_result length.toNat [] (Nat.le_refl _) fun j => by rw [Nat.zero_add]

end Buffer

end Stream

end Will
