/-
ZjhServer/Lib/Wire.lean

Number formats on the wire, over machine words of any width.

* **Fixed width.**  `leBytes k x` is the `k` low-order bytes of `x`, least
  significant first; `ofLe` reads them back, modulo `256 ^ k`.  `memBytes` and
  `ofMem` are the object representation of a word on a machine of either byte
  order, and `byteswap` reverses it.
* **Zigzag.**  Signed words as unsigned ones, small magnitudes first
  (`zigzagDecode_encode`), at every width and for every word.
* **Base 128.**  `Leb x bs`: the bytes `bs` are the groups of seven bits of `x`,
  least significant first, all but the last with the high bit set.  The encoding
  loop produces them (`encodeGroups_leb`); what the decoding loop, which counts
  shifts instead of looking at what is left, makes of them and of other bytes is
  the subject of Lib/Groups.
-/
import ZjhServer.Lib.Effect
import Mathlib.Tactic.Ring

namespace Wire

/-! ### Little-endian bytes -/

/-- The `k` low-order bytes of `x`, least significant first. -/
def leBytes : Nat → Nat → List UInt8
  | 0, _ => []
  | k + 1, x => UInt8.ofNat x :: leBytes k (x / 256)

/-- The number whose little-endian bytes these are. -/
def ofLe : List UInt8 → Nat
  | [] => 0
  | b :: bs => b.toNat + 256 * ofLe bs

@[simp] theorem length_leBytes (k x : Nat) : (leBytes k x).length = k := by
  induction k generalizing x with
  | zero => rfl
  | succ k ih => rw [leBytes, List.length_cons, ih]

theorem ofLe_leBytes (k x : Nat) : ofLe (leBytes k x) = x % 256 ^ k := by
  induction k generalizing x with
  | zero => simp [leBytes, ofLe, Nat.mod_one]
  | succ k ih =>
      rw [leBytes, ofLe, ih, Nat.pow_succ', Nat.mod_mul, UInt8.toNat_ofNat']

theorem leBytes_ofLe (bs : List UInt8) : leBytes bs.length (ofLe bs) = bs := by
  induction bs with
  | nil => rfl
  | cons b bs ih =>
      have hb := b.toNat_lt
      have hdiv : (b.toNat + 256 * ofLe bs) / 256 = ofLe bs := by omega
      rw [List.length_cons, ofLe, leBytes, hdiv, ih]
      congr 1
      apply UInt8.toNat_inj.mp
      rw [UInt8.toNat_ofNat']
      omega

/-! ### Words in memory -/

/-- The byte orders of a machine, or of a format. -/
inductive Order
  | little
  | big
  deriving DecidableEq, Repr

/-- The object representation of a word of `n` bytes. -/
def memBytes (host : Order) {n : Nat} (v : BitVec (8 * n)) : List UInt8 :=
  match host with
  | .little => leBytes n v.toNat
  | .big => (leBytes n v.toNat).reverse

/-- The word with that object representation. -/
def ofMem (host : Order) (n : Nat) (bs : List UInt8) : BitVec (8 * n) :=
  match host with
  | .little => BitVec.ofNat (8 * n) (ofLe bs)
  | .big => BitVec.ofNat (8 * n) (ofLe bs.reverse)

/-- The word with its bytes in the opposite order. -/
def byteswap {n : Nat} (v : BitVec (8 * n)) : BitVec (8 * n) :=
  BitVec.ofNat (8 * n) (ofLe (leBytes n v.toNat).reverse)

@[simp] theorem length_memBytes (host : Order) {n : Nat} (v : BitVec (8 * n)) :
    (memBytes host v).length = n := by
  cases host <;> simp [memBytes]

theorem pow_bytes (n : Nat) : 2 ^ (8 * n) = 256 ^ n := by
  rw [Nat.pow_mul]

theorem ofNat_ofLe_leBytes {n : Nat} (v : BitVec (8 * n)) :
    BitVec.ofNat (8 * n) (ofLe (leBytes n v.toNat)) = v := by
  apply BitVec.eq_of_toNat_eq
  rw [BitVec.toNat_ofNat, ofLe_leBytes, ← pow_bytes, Nat.mod_mod, Nat.mod_eq_of_lt v.isLt]

theorem ofMem_memBytes (host : Order) {n : Nat} (v : BitVec (8 * n)) :
    ofMem host n (memBytes host v) = v := by
  cases host
  · exact ofNat_ofLe_leBytes v
  · simp only [ofMem, memBytes, List.reverse_reverse]
    exact ofNat_ofLe_leBytes v

theorem ofLe_lt (bs : List UInt8) : ofLe bs < 256 ^ bs.length := by
  have h := ofLe_leBytes bs.length (ofLe bs)
  rw [leBytes_ofLe] at h
  rw [h]
  exact Nat.mod_lt _ (Nat.pow_pos (by decide))

/-- Swapping reverses the bytes. -/
theorem leBytes_byteswap {n : Nat} (v : BitVec (8 * n)) :
    leBytes n (byteswap v).toNat = (leBytes n v.toNat).reverse := by
  have hlen : (leBytes n v.toNat).reverse.length = n := by simp
  have hlt := ofLe_lt (leBytes n v.toNat).reverse
  rw [hlen] at hlt
  have hback := leBytes_ofLe (leBytes n v.toNat).reverse
  rw [hlen] at hback
  rw [byteswap, BitVec.toNat_ofNat, pow_bytes, Nat.mod_eq_of_lt hlt, hback]

theorem byteswap_byteswap {n : Nat} (v : BitVec (8 * n)) : byteswap (byteswap v) = v := by
  rw [byteswap, leBytes_byteswap, List.reverse_reverse, ofNat_ofLe_leBytes]

/-! ### Zigzag -/

/-- `0, -1, 1, -2, …` as `0, 1, 2, 3, …`, with the wrap-around of the word. -/
def zigzagEncode {w : Nat} (v : BitVec w) : BitVec w :=
  if v.slt 0#w then -v * 2#w - 1#w else v * 2#w

def zigzagDecode {w : Nat} (v : BitVec w) : BitVec w := (v >>> 1) ^^^ -(v &&& 1#w)

theorem toNat_one {w : Nat} (hw : 0 < w) : (1#w).toNat = 1 := by
  rw [BitVec.toNat_ofNat, Nat.mod_eq_of_lt (Nat.one_lt_two_pow (by omega))]

theorem toNat_mul_two {w : Nat} (v : BitVec w) : (v * 2#w).toNat = 2 * v.toNat % 2 ^ w := by
  rw [BitVec.toNat_mul, BitVec.toNat_ofNat, Nat.mul_mod_mod, Nat.mul_comm]

/-- A word is negative when its magnitude does not fit in the other half. -/
theorem slt_zero_iff {w : Nat} (v : BitVec w) : v.slt 0#w = true ↔ 2 ^ w ≤ 2 * v.toNat := by
  rw [BitVec.slt_zero_iff_msb_cond, BitVec.msb_eq_true_iff_two_mul_ge]

theorem zigzagEncode_toNat {w : Nat} (hw : 0 < w) (v : BitVec w) :
    (zigzagEncode v).toNat =
      if 2 ^ w ≤ 2 * v.toNat then 2 * (2 ^ w - v.toNat) - 1 else 2 * v.toNat := by
  have hlt := v.isLt
  have hhalf : 2 ^ w = 2 * 2 ^ (w - 1) := by rw [← Nat.pow_succ']; congr 1; omega
  unfold zigzagEncode
  simp only [slt_zero_iff]
  split_ifs with hneg
  · have hnegv : (-v).toNat = 2 ^ w - v.toNat := by
      rw [BitVec.toNat_neg, Nat.mod_eq_of_lt (by omega)]
    rw [BitVec.toNat_sub, toNat_one hw, toNat_mul_two, hnegv]
    -- only the least word doubles to a multiple of `2 ^ w`
    rcases Nat.lt_or_ge (2 ^ (w - 1)) v.toNat with hmin | hmin
    · rw [Nat.mod_eq_of_lt (by omega : 2 * (2 ^ w - v.toNat) < 2 ^ w),
        show 2 ^ w - 1 + 2 * (2 ^ w - v.toNat) = 2 * (2 ^ w - v.toNat) - 1 + 2 ^ w by omega,
        Nat.add_mod_right, Nat.mod_eq_of_lt (by omega)]
    · rw [show 2 * (2 ^ w - v.toNat) = 2 ^ w by omega, Nat.mod_self, Nat.add_zero,
        Nat.mod_eq_of_lt (by omega)]
  · rw [toNat_mul_two, Nat.mod_eq_of_lt (by omega)]

theorem zigzagDecode_toNat {w : Nat} (hw : 0 < w) (v : BitVec w) :
    (zigzagDecode v).toNat =
      if v.toNat % 2 = 0 then v.toNat / 2 else 2 ^ w - 1 - v.toNat / 2 := by
  have hshift : (v >>> 1).toNat = v.toNat / 2 := by
    rw [BitVec.toNat_ushiftRight, Nat.shiftRight_one]
  have hand : (v &&& 1#w).toNat = v.toNat % 2 := by
    rw [BitVec.toNat_and, toNat_one hw, Nat.and_one_is_mod]
  -- the low bit, negated, is all zeros or all ones
  split_ifs with heven
  · have h0 : v &&& 1#w = 0#w := BitVec.eq_of_toNat_eq (by rw [hand, heven]; simp)
    rw [zigzagDecode, h0, BitVec.neg_zero, BitVec.xor_zero, hshift]
  · have h1 : v &&& 1#w = 1#w :=
      BitVec.eq_of_toNat_eq (by rw [hand, toNat_one hw]; omega)
    rw [zigzagDecode, h1, BitVec.neg_one_eq_allOnes, BitVec.xor_allOnes, BitVec.toNat_not, hshift]

/-- **Zigzag round trip**, for every word of every width. -/
theorem zigzagDecode_encode {w : Nat} (v : BitVec w) : zigzagDecode (zigzagEncode v) = v := by
  rcases Nat.eq_zero_or_pos w with rfl | hw
  · exact BitVec.eq_of_getLsbD_eq fun i hi => absurd hi (Nat.not_lt_zero i)
  have hlt := v.isLt
  apply BitVec.eq_of_toNat_eq
  rw [zigzagDecode_toNat hw, zigzagEncode_toNat hw]
  split_ifs <;> omega

/-! ### Base 128

`bs` encodes `x` when every byte but the last has its high bit set and the low
seven bits, weighted by the powers of 128, sum up to `x`. -/

/-- The bytes `bs` are a base-128 encoding of `x`. -/
def Leb : Nat → List UInt8 → Prop
  | _, [] => False
  | x, b :: bs =>
      if b < 0x80 then bs = [] ∧ x = b.toNat
      else ∃ y, Leb y bs ∧ x = b.toNat % 128 + 128 * y

/-- `while(value >= 0x80) { tmp[i++] = (value & 0x7F) | 0x80; value >>= 7; }
tmp[i++] = value;` into an array with `room` bytes left; `none` is a store
behind its end. -/
def encodeGroups {w : Nat} : (room : Nat) → BitVec w → Option (List UInt8)
  | 0, _ => none
  | room + 1, value =>
      if value ≥ 0x80#w then
        (encodeGroups room (value >>> 7)).map
          (⟨((value &&& 0x7F#w) ||| 0x80#w).setWidth 8⟩ :: ·)
      else some [⟨value.setWidth 8⟩]

/-- The shifts of `for(int i = 0; i < w; i += 7)`. -/
def shifts (w : Nat) : List Nat := (List.range ((w + 6) / 7)).map (7 * ·)

open Effect

variable {ε σ : Type} {w : Nat}

/-- The body of that loop, with `next` to get a byte: `result |= b << i; break;`
on the last byte, `result |= (b & 0x7f) << i` on the others. -/
def decodeGroups (next : EStateM ε σ UInt8) : List Nat → BitVec w → EStateM ε σ (BitVec w)
  | [], result => pure result
  | i :: is, result => do
      let b ← next
      if b < 0x80 then pure (result ||| b.toBitVec.setWidth w <<< i)
      else decodeGroups next is (result ||| (b &&& 0x7f).toBitVec.setWidth w <<< i)

theorem lt_0x80_iff (b : UInt8) : b < 0x80 ↔ b.toNat < 128 := by
  rw [UInt8.lt_iff_toNat_lt]; rfl

theorem Leb.ne_nil {x : Nat} {bs : List UInt8} (h : Leb x bs) : bs ≠ [] := by
  rintro rfl
  exact h

/-- The encoding loop stays inside an array of `room` bytes if `128 ^ room` is
large enough, and leaves the groups of the value there. -/
theorem encodeGroups_leb (hw : 8 ≤ w) {room : Nat} {value : BitVec w}
    (hroom : value.toNat < 128 ^ room) (hpos : 0 < room) :
    ∃ bs, encodeGroups room value = some bs ∧ Leb value.toNat bs ∧ bs.length ≤ room := by
  have hbig : 2 ^ 8 ≤ 2 ^ w := Nat.pow_le_pow_right (by decide) hw
  have h80 : (0x80#w).toNat = 128 := by
    rw [BitVec.toNat_ofNat, Nat.mod_eq_of_lt (by omega)]
  have h7f : (0x7F#w).toNat = 127 := by
    rw [BitVec.toNat_ofNat, Nat.mod_eq_of_lt (by omega)]
  induction room generalizing value with
  | zero => omega
  | succ room ih =>
      rw [encodeGroups]
      by_cases hge : value ≥ 0x80#w
      · rw [if_pos hge]
        rw [ge_iff_le, BitVec.le_def, h80] at hge
        have hshift : (value >>> 7).toNat = value.toNat / 128 := by
          rw [BitVec.toNat_ushiftRight, Nat.shiftRight_eq_div_pow]
        -- the group is marked by the top bit, which its seven bits leave free
        have hlow : ((value &&& 0x7F#w) ||| 0x80#w).toNat = 128 + value.toNat % 128 := by
          have hor := Nat.two_pow_add_eq_or_of_lt
            (Nat.mod_lt value.toNat (by decide : 0 < 2 ^ 7)) 1
          rw [BitVec.toNat_or, BitVec.toNat_and, h80, h7f, Nat.or_comm,
            show 127 = 2 ^ 7 - 1 from rfl, Nat.and_two_pow_sub_one_eq_mod]
          simpa using hor.symm
        have hroom0 : 0 < room := by
          rcases Nat.eq_zero_or_pos room with rfl | h
          · omega
          · exact h
        obtain ⟨bs, hbs, hleb, hlen⟩ := ih
          (show (value >>> 7).toNat < 128 ^ room by
            rw [hshift, Nat.div_lt_iff_lt_mul (by decide)]; rwa [Nat.pow_succ] at hroom)
          hroom0
        have hb : (⟨((value &&& 0x7F#w) ||| 0x80#w).setWidth 8⟩ : UInt8).toNat =
            128 + value.toNat % 128 := by
          show (((value &&& 0x7F#w) ||| 0x80#w).setWidth 8).toNat = _
          rw [BitVec.toNat_setWidth, hlow]
          omega
        refine ⟨_, by rw [hbs]; rfl, ?_, by rw [List.length_cons]; omega⟩
        rw [Leb, if_neg (by rw [lt_0x80_iff, hb]; omega)]
        exact ⟨_, hleb, by rw [hb, hshift]; omega⟩
      · rw [if_neg hge]
        rw [ge_iff_le, BitVec.le_def, h80] at hge
        have hb : (⟨value.setWidth 8⟩ : UInt8).toNat = value.toNat := by
          show (value.setWidth 8).toNat = _
          rw [BitVec.toNat_setWidth]
          omega
        refine ⟨_, rfl, ?_, by rw [List.length_singleton]; omega⟩
        rw [Leb, if_pos (by rw [lt_0x80_iff, hb]; omega)]
        exact ⟨rfl, hb.symm⟩

/-- Everything a byte source keeps, the decoding loop keeps. -/
theorem decodeGroups_keeps {I : σ → Prop} {A : ε → Prop} {next : EStateM ε σ UInt8}
    (h : Keeps I A next) (is : List Nat) (result : BitVec w) :
    Keeps I A (decodeGroups next is result) := by
  induction is generalizing result with
  | nil => exact Keeps.pure _
  | cons i is ih =>
      refine h.bind fun b => ?_
      split
      · exact Keeps.pure _
      · exact ih _

end Wire
