/-
ZjhServer/Lib/Groups.lean

Decoding base 128, also from bytes that no encoder has written.

A decoding loop of `n` turns takes the bytes `groups n bs` from the front of `bs`: up to
the first one whose high bit is clear, but no more than `n`.  It gets all it asks for when
`bs` is `Whole`; then it returns the sum of the groups modulo the width of its word
(`decodeGroups_stops`), else it runs dry with all bytes taken (`decodeGroups_starves`).

On the groups of a number the loop gives the number back (`Leb.decode`).

Where the last turn is the one that reaches the top of the word, nothing is lost exactly
when the byte of that turn, if it comes to it, is small enough (`exact_iff`).
-/
import ZjhServer.Lib.Wire

namespace Wire

open Effect

/-- The low seven bits of the bytes, weighted by the powers of 128. -/
def ofGroups : List UInt8 → Nat
  | [] => 0
  | b :: bs => b.toNat % 128 + 128 * ofGroups bs

/-- The bytes that `n` turns of the decoding loop take. -/
def groups : Nat → List UInt8 → List UInt8
  | 0, _ => []
  | _ + 1, [] => []
  | n + 1, b :: bs => if b < 0x80 then [b] else b :: groups n bs

/-- The loop of `n` turns stops before the bytes run out. -/
def Whole (n : Nat) (bs : List UInt8) : Prop := n ≤ bs.length ∨ ∃ b ∈ bs, b < 0x80

/-- The last byte has its high bit clear, all the others have it set. -/
def Terminated (bs : List UInt8) : Prop :=
  ∃ init last, bs = init ++ [last] ∧ (∀ b ∈ init, 0x80 ≤ b) ∧ last < 0x80

theorem whole_zero (bs : List UInt8) : Whole 0 bs := .inl (Nat.zero_le _)

theorem not_whole_nil (n : Nat) : ¬ Whole (n + 1) [] := by
  rintro (h | ⟨b, hb, -⟩)
  · cases h
  · cases hb

theorem whole_cons {n : Nat} {b : UInt8} {bs : List UInt8} :
    Whole (n + 1) (b :: bs) ↔ b < 0x80 ∨ Whole n bs := by
  unfold Whole
  simp only [List.length_cons, List.mem_cons, exists_eq_or_imp, Nat.add_le_add_iff_right]
  exact or_left_comm

theorem groups_front (n : Nat) (bs : List UInt8) : groups n bs <+: bs := by
  induction n generalizing bs with
  | zero => exact List.nil_prefix
  | succ n ih =>
      cases bs with
      | nil => exact List.nil_prefix
      | cons b bs =>
          unfold groups
          split_ifs
          · exact ⟨bs, rfl⟩
          · exact List.cons_prefix_cons.mpr ⟨rfl, ih bs⟩

theorem groups_ne_nil {n : Nat} {bs : List UInt8} (h : bs ≠ []) : groups (n + 1) bs ≠ [] := by
  cases bs with
  | nil => exact absurd rfl h
  | cons b bs =>
      unfold groups
      split_ifs <;> exact List.cons_ne_nil _ _

/-! ### The loop -/

variable {ε σ : Type} {w : Nat}

/-- Setting a group at bit `i` of a word that has no bit from `i` on; what is shifted out
of the word is lost. -/
theorem or_shiftLeft {result : BitVec w} {b : UInt8} {i : Nat} (hw : 8 ≤ w) (hi : i ≤ w)
    (hres : result.toNat < 2 ^ i) :
    result ||| b.toBitVec.setWidth w <<< i =
      BitVec.ofNat w (result.toNat + b.toNat * 2 ^ i) := by
  have hbig : 2 ^ 8 ≤ 2 ^ w := Nat.pow_le_pow_right (by decide) hw
  have hb : b.toNat < 2 ^ 8 := b.toNat_lt
  have hwide : (b.toBitVec.setWidth w).toNat = b.toNat := by
    rw [BitVec.toNat_setWidth, UInt8.toNat_toBitVec, Nat.mod_eq_of_lt (by omega)]
  have hpow : 2 ^ w = 2 ^ i * 2 ^ (w - i) := by
    rw [← Nat.pow_add]
    congr 1
    omega
  have hpos : 0 < 2 ^ i := Nat.two_pow_pos i
  have hlow : (result.toNat + b.toNat * 2 ^ i) % 2 ^ i = result.toNat := by
    rw [Nat.add_mul_mod_self_right, Nat.mod_eq_of_lt hres]
  have hhigh : (result.toNat + b.toNat * 2 ^ i) / 2 ^ i = b.toNat := by
    rw [Nat.add_mul_div_right _ _ hpos, Nat.div_eq_of_lt hres, Nat.zero_add]
  apply BitVec.eq_of_toNat_eq
  have hsum : (result.toNat + b.toNat * 2 ^ i) % 2 ^ w =
      2 ^ i * (b.toNat % 2 ^ (w - i)) + result.toNat := by
    rw [hpow, Nat.mod_mul, hlow, hhigh, Nat.add_comm]
  have hshift : b.toNat * 2 ^ i % 2 ^ w = 2 ^ i * (b.toNat % 2 ^ (w - i)) := by
    rw [hpow, Nat.mul_comm b.toNat, Nat.mul_mod_mul_left]
  rw [BitVec.toNat_or, BitVec.toNat_shiftLeft, hwide, Nat.shiftLeft_eq, BitVec.toNat_ofNat, hsum,
    hshift, Nat.or_comm, ← Nat.two_pow_add_eq_or_of_lt hres]

theorem toNat_and_0x7f (b : UInt8) : (b &&& 0x7f).toNat = b.toNat % 128 := by
  rw [UInt8.toNat_and, show (0x7f : UInt8).toNat = 2 ^ 7 - 1 from rfl,
    Nat.and_two_pow_sub_one_eq_mod]

variable {next : EStateM ε σ UInt8} (Ahead : List UInt8 → σ → Prop)

/-- **The loop stops**, on any bytes that are whole; `Ahead bs s` says that the bytes to
come in `s` are `bs`.  It takes the groups, and the sum of the groups lands at bit `7 * k`
of the word. -/
theorem decodeGroups_stops
    (hnext : ∀ b bs s, Ahead (b :: bs) s → ∃ t, next s = .ok b t ∧ Ahead bs t)
    (hw : 8 ≤ w) {n k : Nat} {bs : List UInt8} (hwhole : Whole n bs)
    (hroom : 7 * (k + n) < w + 7) (result : BitVec w) (hres : result.toNat < 2 ^ (7 * k)) {s : σ}
    (hs : Ahead bs s) :
    ∃ t, decodeGroups next ((List.range' k n).map (7 * ·)) result s =
        .ok (BitVec.ofNat w (result.toNat + ofGroups (groups n bs) * 2 ^ (7 * k))) t ∧
      Ahead (bs.drop (groups n bs).length) t := by
  -- on the shifts that are left; `result` holds the groups below bit `7 * k`
  induction n generalizing k bs result s with
  | zero =>
      refine ⟨s, ?_, hs⟩
      simp [decodeGroups, groups, ofGroups, run_pure]
  | succ n ih =>
      cases bs with
      | nil => exact absurd hwhole (not_whole_nil n)
      | cons b bs =>
          obtain ⟨t, ht, hat⟩ := hnext b bs s hs
          rw [List.range'_succ, List.map_cons, decodeGroups, run_bind_ok ht, groups]
          by_cases hlast : b < 0x80
          · have hb := (lt_0x80_iff b).mp hlast
            rw [if_pos hlast, if_pos hlast, run_pure, or_shiftLeft hw (by omega) hres]
            refine ⟨t, ?_, hat⟩
            rw [ofGroups, ofGroups, Nat.mod_eq_of_lt hb, Nat.mul_zero, Nat.add_zero]
          · rw [if_neg hlast, if_neg hlast, or_shiftLeft hw (by omega) hres, toNat_and_0x7f]
            have hpow : 2 ^ (7 * (k + 1)) = 128 * 2 ^ (7 * k) := by
              rw [Nat.mul_succ, Nat.pow_add]; ring
            have hlow : b.toNat % 128 < 128 := Nat.mod_lt _ (by decide)
            -- the word may lose high bits of the group, which makes it smaller
            have hle : (BitVec.ofNat w (result.toNat + b.toNat % 128 * 2 ^ (7 * k))).toNat ≤
                result.toNat + b.toNat % 128 * 2 ^ (7 * k) := by
              rw [BitVec.toNat_ofNat]
              exact Nat.mod_le _ _
            have hres' : result.toNat + b.toNat % 128 * 2 ^ (7 * k) < 2 ^ (7 * (k + 1)) := by
              calc result.toNat + b.toNat % 128 * 2 ^ (7 * k)
                  < 1 * 2 ^ (7 * k) + b.toNat % 128 * 2 ^ (7 * k) := by omega
                _ = (1 + b.toNat % 128) * 2 ^ (7 * k) := by ring
                _ ≤ 128 * 2 ^ (7 * k) := Nat.mul_le_mul_right _ (by omega)
                _ = 2 ^ (7 * (k + 1)) := hpow.symm
            obtain ⟨u, hu, hau⟩ := ih ((whole_cons.mp hwhole).resolve_left hlast) (k := k + 1)
              (by omega) _ (Nat.lt_of_le_of_lt hle hres') hat
            refine ⟨u, ?_, hau⟩
            rw [hu, ofGroups, BitVec.toNat_ofNat]
            congr 1
            apply BitVec.eq_of_toNat_eq
            rw [BitVec.toNat_ofNat, BitVec.toNat_ofNat, Nat.mod_add_mod]
            congr 1
            rw [hpow]
            ring

/-- The groups of a number are all that the loop takes of the bytes they begin. -/
theorem Leb.groups_append {x : Nat} {bs : List UInt8} (h : Leb x bs) {n : Nat}
    (hn : bs.length ≤ n) (rest : List UInt8) :
    Whole n (bs ++ rest) ∧ groups n (bs ++ rest) = bs ∧ ofGroups bs = x := by
  induction bs generalizing x n with
  | nil => exact absurd rfl h.ne_nil
  | cons b bs ih =>
      obtain ⟨m, rfl⟩ : ∃ m, n = m + 1 := ⟨n - 1, by rw [List.length_cons] at hn; omega⟩
      rw [List.cons_append, whole_cons, groups, ofGroups]
      rw [Leb] at h
      by_cases hlast : b < 0x80
      · rw [if_pos hlast] at h ⊢
        obtain ⟨rfl, rfl⟩ := h
        have hb := (lt_0x80_iff b).mp hlast
        exact ⟨.inl hlast, rfl, by rw [ofGroups, Nat.mod_eq_of_lt hb]; omega⟩
      · rw [if_neg hlast] at h ⊢
        obtain ⟨y, hy, rfl⟩ := h
        obtain ⟨hwhole, hgroups, hsum⟩ := ih hy (Nat.le_of_succ_le_succ hn)
        exact ⟨.inr hwhole, by rw [hgroups], by rw [hsum]⟩

/-- **The loop undoes the groups** of a number that fits in the word. -/
theorem Leb.decode
    (hnext : ∀ b bs s, Ahead (b :: bs) s → ∃ t, next s = .ok b t ∧ Ahead bs t)
    (hw : 8 ≤ w) {x : Nat} {bs : List UInt8} (h : Leb x bs) {n : Nat} (hn : bs.length ≤ n)
    (hroom : 7 * n < w + 7) (rest : List UInt8) {s : σ} (hs : Ahead (bs ++ rest) s) :
    ∃ t, decodeGroups next ((List.range' 0 n).map (7 * ·)) 0#w s = .ok (BitVec.ofNat w x) t ∧
      Ahead rest t := by
  obtain ⟨hwhole, hgroups, hsum⟩ := h.groups_append hn rest
  obtain ⟨t, ht, hat⟩ := decodeGroups_stops Ahead hnext hw hwhole (k := 0) (by omega) 0#w
    (by simp) hs
  rw [hgroups, hsum] at ht
  rw [hgroups, List.drop_left] at hat
  refine ⟨t, ?_, hat⟩
  rw [ht]
  simp

/-- **The loop starves** on bytes that are not whole: it takes them all. -/
theorem decodeGroups_starves {e : ε}
    (hnext : ∀ b bs s, Ahead (b :: bs) s → ∃ t, next s = .ok b t ∧ Ahead bs t)
    (hempty : ∀ s, Ahead [] s → next s = .error e s) {n k : Nat} {bs : List UInt8}
    (hwhole : ¬ Whole n bs) (result : BitVec w) {s : σ} (hs : Ahead bs s) :
    ∃ t, decodeGroups next ((List.range' k n).map (7 * ·)) result s = .error e t ∧
      Ahead [] t := by
  induction n generalizing k bs result s with
  | zero => exact absurd (whole_zero bs) hwhole
  | succ n ih =>
      rw [List.range'_succ, List.map_cons, decodeGroups]
      cases bs with
      | nil => exact ⟨s, run_bind_error (hempty s hs), hs⟩
      | cons b bs =>
          obtain ⟨hlast, hrest⟩ := not_or.mp (mt whole_cons.mpr hwhole)
          obtain ⟨t, ht, hat⟩ := hnext b bs s hs
          rw [run_bind_ok ht, if_neg hlast]
          exact ih hrest _ hat

/-! ### Nothing lost -/

theorem terminated_singleton {b : UInt8} : Terminated [b] ↔ b < 0x80 := by
  constructor
  · rintro ⟨init, last, heq, -, hlast⟩
    obtain ⟨-, hb⟩ := List.append_inj' (show [] ++ [b] = init ++ [last] from heq) rfl
    rw [List.singleton_inj.mp hb]
    exact hlast
  · exact fun h => ⟨[], b, rfl, by simp, h⟩

theorem terminated_cons {b : UInt8} {bs : List UInt8} (hb : ¬ b < 0x80) :
    Terminated (b :: bs) ↔ Terminated bs := by
  constructor
  · rintro ⟨init, last, heq, hinit, hlast⟩
    cases init with
    | nil =>
        cases heq
        exact absurd hlast hb
    | cons c init =>
        cases heq
        exact ⟨init, last, rfl, fun d hd => hinit d (List.mem_cons_of_mem _ hd), hlast⟩
  · rintro ⟨init, last, rfl, hinit, hlast⟩
    refine ⟨b :: init, last, rfl, ?_, hlast⟩
    rintro c (- | ⟨-, hc⟩)
    · exact UInt8.not_lt.mp hb
    · exact hinit c hc

/-- **Nothing is lost** by a loop of `k + 1` turns over a word that the last turn reaches
the top of: the groups are terminated and their sum fits in the word exactly when the byte
of the last turn, if it comes to it, is below what is left of the word. -/
theorem exact_iff {k : Nat} (hlow : 7 * k < w) (hhigh : w ≤ 7 * k + 7) {bs : List UInt8}
    (hwhole : Whole (k + 1) bs) :
    (Terminated (groups (k + 1) bs) ∧ ofGroups (groups (k + 1) bs) < 2 ^ w) ↔
      ((∀ c ∈ bs.take k, 0x80 ≤ c) → ∀ b, bs[k]? = some b → b.toNat < 2 ^ (w - 7 * k)) := by
  induction k generalizing w bs with
  | zero =>
      cases bs with
      | nil => exact absurd hwhole (not_whole_nil 0)
      | cons b bs =>
          have hg : groups 1 (b :: bs) = [b] := by
            unfold groups
            split_ifs <;> rfl
          have hpow : 2 ^ w ≤ 2 ^ 7 := Nat.pow_le_pow_right (by decide) (by omega)
          rw [hg, terminated_singleton, lt_0x80_iff]
          simp only [ofGroups, Nat.mul_zero, Nat.add_zero, List.take_zero, List.not_mem_nil,
            false_implies, implies_true, forall_const, List.getElem?_cons_zero, Option.some.injEq,
            forall_eq', Nat.sub_zero]
          omega
  | succ k ih =>
      cases bs with
      | nil => exact absurd hwhole (not_whole_nil _)
      | cons b bs =>
          rw [groups]
          by_cases hlast : b < 0x80
          · -- the first byte is the last one
            have hb := (lt_0x80_iff b).mp hlast
            have hpow : 2 ^ 7 ≤ 2 ^ w := Nat.pow_le_pow_right (by decide) (by omega)
            rw [if_pos hlast, terminated_singleton]
            refine ⟨fun _ hall => ?_, fun _ => ⟨hlast, ?_⟩⟩
            · exact absurd hlast (UInt8.not_lt.mpr (hall b (by simp)))
            · rw [ofGroups, ofGroups]
              omega
          · have hpow : 2 ^ w = 128 * 2 ^ (w - 7) := by
              rw [show 128 = 2 ^ 7 from rfl, ← Nat.pow_add]
              congr 1
              omega
            have hrest := ih (w := w - 7) (by omega) (by omega)
              ((whole_cons.mp hwhole).resolve_left hlast)
            have hshift : w - 7 - 7 * k = w - 7 * (k + 1) := by omega
            rw [hshift] at hrest
            rw [if_neg hlast, terminated_cons hlast, ofGroups, hpow, List.take_succ_cons,
              List.getElem?_cons_succ]
            simp only [List.mem_cons, forall_eq_or_imp, UInt8.not_lt.mp hlast, true_and]
            rw [← hrest]
            have hmod : b.toNat % 128 < 128 := Nat.mod_lt _ (by decide)
            refine and_congr_right fun _ => ?_
            omega

end Wire
