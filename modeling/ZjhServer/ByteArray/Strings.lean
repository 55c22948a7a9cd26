/-
ZjhServer/ByteArray/Strings.lean

Strings written and read back (server/bytearray.cc).

The four formats differ in the length they put in front of the bytes; the one of
`writeStringF16` is `value.size()` cut to 16 bits and the one of `writeStringF32` cut to
32, while the bytes are written in full.  A string comes back, with the position behind
it, exactly when its length survives the cut and it is not an empty string whose length
ends at the end of the capacity, where the read follows a null cursor
(`str_roundTrip_iff`).
-/
import ZjhServer.ByteArray.Reads

namespace Will

open Effect Wire Window Will.ByteArray

namespace StrFmt

/-! ### The length -/

/-- The write of the length. -/
def writeLength (host : Endian) (n : Nat) (junk : Junk) : StrFmt → M Unit
  | f16 => writeFuint16 host junk (UInt16.ofNat n)
  | f32 => writeFuint32 host junk (UInt32.ofNat n)
  | f64 => writeFuint64 host junk (UInt64.ofNat n)
  | vint => writeUint64 junk (UInt64.ofNat n)

/-- The length that is stored for a string of `n` bytes. -/
def stored (n : Nat) : StrFmt → Nat
  | f16 => n % 65536
  | f32 => n % 4294967296
  | f64 | vint => n % 18446744073709551616

/-- The length field can hold the length. -/
def Fits (n : Nat) : StrFmt → Prop
  | f16 => n < 65536
  | f32 => n < 4294967296
  | f64 | vint => True

/-- The bytes of an empty string. -/
def emptySize : StrFmt → Nat
  | f16 => 2
  | f32 => 4
  | f64 => 8
  | vint => 1

theorem write_eq (host : Endian) (junk body : Junk) (value : List UInt8) (fmt : StrFmt) :
    fmt.write host junk body value =
      (do fmt.writeLength host value.length junk; ByteArray.write body value) := by
  cases fmt <;> rfl

theorem stored_le (n : Nat) (fmt : StrFmt) : fmt.stored n ≤ n := by
  cases fmt <;> exact Nat.mod_le _ _

theorem stored_eq_iff {n : Nat} (hn : n < 18446744073709551616) (fmt : StrFmt) :
    fmt.stored n = n ↔ fmt.Fits n := by
  cases fmt with
  | f16 | f32 =>
      simp only [stored, Fits]
      omega
  | f64 | vint =>
      simp only [stored, Fits, iff_true]
      omega

/-- The length round-trips, cut to its field. -/
theorem length_roundTrips (host e : Endian) (n : Nat) (fmt : StrFmt) :
    ∃ bs, RoundTrips e (fun junk => fmt.writeLength host n junk) (fmt.readLength host)
      (fmt.stored n) bs ∧ (n = 0 → bs.length = fmt.emptySize) := by
  cases fmt with
  | f16 =>
      have h := ((writeF_roundTrips host e (n := 2) (by decide) (UInt16.ofNat n).toBitVec).map
        fun v => (⟨v⟩ : UInt16)).map UInt16.toNat
      rw [show UInt16.toNat _ = n % 65536 from UInt16.toNat_ofNat'] at h
      exact ⟨_, h, fun _ => length_wire host e (n := 2) _⟩
  | f32 =>
      have h := ((writeF_roundTrips host e (n := 4) (by decide) (UInt32.ofNat n).toBitVec).map
        fun v => (⟨v⟩ : UInt32)).map UInt32.toNat
      rw [show UInt32.toNat _ = n % 4294967296 from UInt32.toNat_ofNat'] at h
      exact ⟨_, h, fun _ => length_wire host e (n := 4) _⟩
  | f64 =>
      have h := ((writeF_roundTrips host e (n := 8) (by decide) (UInt64.ofNat n).toBitVec).map
        fun v => (⟨v⟩ : UInt64)).map UInt64.toNat
      rw [show UInt64.toNat _ = n % 18446744073709551616 from UInt64.toNat_ofNat'] at h
      exact ⟨_, h, fun _ => length_wire host e (n := 8) _⟩
  | vint =>
      obtain ⟨bs, hbs, hround⟩ := writeVarint_roundTrips host e (w := 64) 10 (by decide)
        (by decide) (by decide) (UInt64.ofNat n).toBitVec
      have h := (hround.map fun v => (⟨v⟩ : UInt64)).map UInt64.toNat
      rw [show UInt64.toNat _ = n % 18446744073709551616 from UInt64.toNat_ofNat'] at h
      refine ⟨bs, h, ?_⟩
      rintro rfl
      -- the groups of 0 are one byte
      cases hbs
      rfl

end StrFmt

/-! ### The capacity -/

namespace ByteArray

/-- The new blocks are no more than what is missing exactly when that is whole blocks. -/
theorem mul_nodeCount_eq_iff {base : Nat} (hbase : 0 < base) (size : Nat) :
    base * nodeCount size base = size ↔ size % base = 0 := by
  unfold nodeCount
  constructor
  · intro h
    rw [← h, Nat.mul_mod_right]
  · intro h
    obtain ⟨q, rfl⟩ := Nat.dvd_of_mod_eq_zero h
    rw [Nat.add_sub_assoc (by omega), Nat.mul_add_div hbase, Nat.div_eq_of_lt (by omega),
      Nat.add_zero]

/-- A window of `n` bytes ends at the end of the capacity it is given exactly when it ends
on a seam that is not inside the capacity it had. -/
theorem Grown.end_iff {n : Nat} {s g : ByteArray} {junk : Junk} (hs : s.Inv)
    (h : Grown n s g junk) :
    s.m_position + n = g.m_capacity ↔
      (s.m_position + n) % s.m_baseSize = 0 ∧ s.m_capacity ≤ s.m_position + n := by
  have hbase := hs.base_pos
  have hcap := hs.capacity
  have hgcap := h.inv.capacity
  have hle := hs.pos_le_capacity
  have hfree : s.getCapacity = s.m_capacity - s.m_position := rfl
  rw [h.base, h.grown] at hgcap
  split_ifs at hgcap with hroom
  · rw [hgcap, ← hcap]
    refine ⟨fun heq => ⟨?_, heq.ge⟩, fun hend => by omega⟩
    rw [heq, hcap, Nat.mul_mod_right]
  · have hmiss : s.m_position + n = s.m_capacity + (n - s.getCapacity) := by omega
    rw [List.length_append, newNodes_length, Nat.mul_add, ← hcap] at hgcap
    have hmod : (s.m_position + n) % s.m_baseSize = (n - s.getCapacity) % s.m_baseSize := by
      rw [hmiss, hcap, Nat.mul_add_mod]
    rw [hgcap, hmod, ← mul_nodeCount_eq_iff hbase]
    omega

/-! ### The round trip -/

/-- What is asked of a string: written, the position set back, and read, it comes back,
and the position is behind what was written. -/
def RoundTrip (host : Endian) (max_size : Nat) (junk body : Junk) (fmt : StrFmt)
    (value : List UInt8) (s : ByteArray) : Prop :=
  ∃ t u v, fmt.write host junk body value s = .ok () t ∧
    setPosition s.m_position t = .ok () u ∧
    fmt.read host read max_size u = .ok value v ∧ v.m_position = t.m_position

/-- A string written and the position set back: its length and its bytes lie ahead. -/
theorem string_written {host : Endian} (junk body : Junk) {fmt : StrFmt}
    {value bs : List UInt8} {n : Nat} {s : ByteArray} (h : s.Inv)
    (hround : RoundTrips s.m_endian (fun junk => fmt.writeLength host value.length junk)
      (fmt.readLength host) n bs) :
    ∃ t u, fmt.write host junk body value s = .ok () t ∧
      setPosition s.m_position t = .ok () u ∧ u.Inv ∧ u.m_endian = s.m_endian ∧
      t.m_position = s.m_position + bs.length + value.length ∧
      u.m_position = s.m_position ∧ Ahead (bs ++ value) u ∧
      (value = [] → ∃ g, Grown bs.length s g junk ∧ u.m_capacity = g.m_capacity) := by
  obtain ⟨l, hl, hL⟩ := write_spec h junk bs
  obtain ⟨t, ht, hT⟩ := write_spec hL.inv body value
  have htpos : t.m_position = s.m_position + bs.length + value.length := by
    rw [hT.position, hL.position]
  have htsize := hT.inv.pos_le_size
  obtain ⟨u, hu, huinv, heq⟩ := setPosition_spec hT.inv (v := s.m_position)
    (by have := hT.inv.pos_le_capacity; omega)
  have hupos : u.m_position = s.m_position := by rw [heq]
  have husize : u.m_size = max t.m_size s.m_position := by rw [heq]
  have hubytes : u.bytes = t.bytes := by rw [heq]; rfl
  have hwrite : fmt.write host junk body value s = .ok () t := by
    rw [StrFmt.write_eq]
    exact (run_bind_ok ((hround.put_eq junk s rfl).trans hl)).trans ht
  -- the second write starts where the first one ended, and keeps what lies before
  have hwindow := hT.window
  rw [hL.position] at hwindow
  refine ⟨t, u, hwrite, hu, huinv, ?_, htpos, hupos, ⟨?_, ?_⟩, ?_⟩
  · rw [heq]
    exact hT.endian.trans hL.endian
  · rw [List.length_append, getReadSize]
    omega
  · rw [hubytes, hupos, List.length_append, slice_add, hwindow,
      hT.before hL.inv (by rw [hL.position]), hL.window]
  · -- an empty string is its length only
    rintro rfl
    obtain ⟨g, hG, hcap, -⟩ := hL.grown
    have hsame : t = l := by
      injection ht with _ hlt
      exact hlt.symm
    refine ⟨g, hG, ?_⟩
    rw [heq, hsame]
    exact hcap

/-- The length of a string written and rewound is read: what is left is the end of the
read, `w` with the bytes of the string ahead. -/
theorem string_rewound (host : Endian) (max_size : Nat) {s : ByteArray} (h : s.Inv)
    (junk body : Junk) (fmt : StrFmt) (value : List UInt8) :
    ∃ t u w, fmt.write host junk body value s = .ok () t ∧
      setPosition s.m_position t = .ok () u ∧ w.Inv ∧
      fmt.read host read max_size u = readString read max_size (fmt.stored value.length) w ∧
      t.m_position = w.m_position + value.length ∧ value <+: w.unread ∧
      (value = [] → (w.m_position = w.m_capacity ↔
        (s.m_position + fmt.emptySize) % s.m_baseSize = 0 ∧
          s.m_capacity ≤ s.m_position + fmt.emptySize)) := by
  obtain ⟨bs, hround, hempty⟩ := fmt.length_roundTrips host s.m_endian value.length
  obtain ⟨t, u, ht, hu, huinv, huendian, htpos, hupos, hahead, hcap⟩ :=
    string_written junk body h hround
  obtain ⟨w, hw, hadv⟩ := hround.get_eq u huinv huendian hahead.front
  have hbody := hahead.advance hadv
  have hwpos := hadv.position
  have hwcap : w.m_capacity = u.m_capacity := by rw [hadv.same]
  refine ⟨t, u, w, ht, hu, hadv.inv, ?_, by omega, ?_, fun hnil => ?_⟩
  · rw [StrFmt.read_eq, run_bind_ok hw]
  · have hfront : w.unread.take value.length = value :=
      (take_unread hbody.len).trans hbody.window
    exact List.prefix_iff_eq_take.mpr hfront.symm
  · -- nothing is written behind the length, so its growth decides
    obtain ⟨g, hG, hg⟩ := hcap hnil
    rw [hwpos, hupos, hwcap, hg, ← hempty (by rw [hnil]; rfl)]
    exact hG.end_iff h

/-- Written and read back in a well-formed object. -/
theorem roundTrip_iff {host : Endian} {max_size : Nat} {s : ByteArray} (h : s.Inv)
    (hmax : max_size < 18446744073709551616) (junk body : Junk) (fmt : StrFmt)
    {value : List UInt8} (hvalue : value.length ≤ max_size) :
    RoundTrip host max_size junk body fmt value s ↔
      fmt.Fits value.length ∧
        ¬ (value = [] ∧ (s.m_position + fmt.emptySize) % s.m_baseSize = 0 ∧
          s.m_capacity ≤ s.m_position + fmt.emptySize) := by
  obtain ⟨t, u, w, ht, hu, hinv, hread, htpos, ⟨rest, hrest⟩, hseam⟩ :=
    string_rewound host max_size h junk body fmt value
  have hstored := fmt.stored_le value.length
  -- what comes back is the front of the string that the stored length says
  have hfront : w.unread.take (fmt.stored value.length) =
      value.take (fmt.stored value.length) := by
    rw [← hrest, List.take_append_of_le_length hstored]
  have hlength : value.length ≤ w.unread.length := by
    rw [← hrest, List.length_append]
    omega
  have hback : RoundTrip host max_size junk body fmt value s ↔
      ∃ v, fmt.read host read max_size u = .ok value v ∧ v.m_position = t.m_position := by
    constructor
    · rintro ⟨t', u', v, ht', hu', hv⟩
      rw [ht] at ht'
      cases ht'
      rw [hu] at hu'
      cases hu'
      exact ⟨v, hv⟩
    · rintro ⟨v, hv⟩
      exact ⟨t, u, v, ht, hu, hv⟩
  have hcases := readString_cases hinv max_size (fmt.stored value.length)
  rw [hback]
  rw [← hread] at hcases
  split_ifs at hcases with hlong hshort hend
  · omega
  · omega
  · -- nothing lies behind the end of the capacity
    have hroom : w.unread.length = w.m_size - w.m_position := length_unread hinv
    have hwsize := hinv.size_le_capacity
    have hnil : value = [] := List.length_eq_zero_iff.mp (by omega)
    refine ⟨fun ⟨v, hv, _⟩ => ?_, fun hok => absurd ⟨hnil, (hseam hnil).mp hend.2⟩ hok.2⟩
    rw [hcases] at hv
    cases hv
  · obtain ⟨v, hv, hadv⟩ := hcases
    have hvpos := hadv.position
    rw [hfront] at hv
    rw [← fmt.stored_eq_iff (by omega : value.length < _)]
    constructor
    · rintro ⟨v', hv', -⟩
      rw [hv] at hv'
      injection hv' with hsame _
      have hlen := congrArg List.length hsame
      rw [List.length_take] at hlen
      refine ⟨by omega, fun hlost => hend ⟨?_, (hseam hlost.1).mpr hlost.2⟩⟩
      rw [hlost.1] at hstored ⊢
      exact Nat.le_zero.mp hstored
    · rintro ⟨hfits, -⟩
      rw [hfits, List.take_length] at hv
      exact ⟨v, hv, by rw [hvpos, hfits, htpos]⟩

/-- **Strings come back** exactly when their length fits its field and they are not empty
with a length that ends on a seam at or behind the end of the capacity.  A `std::string`
is no longer than `max_size`. -/
theorem str_roundTrip_iff {host : Endian} {max_size : Nat} {s : ByteArray}
    (h : Stream.Reachable host max_size s) (hmax : max_size < 18446744073709551616)
    (junk body : Junk) (fmt : StrFmt) {value : List UInt8} (hvalue : value.length ≤ max_size) :
    RoundTrip host max_size junk body fmt value s ↔
      fmt.Fits value.length ∧
        ¬ (value = [] ∧ (s.m_position + fmt.emptySize) % s.m_baseSize = 0 ∧
          s.m_capacity ≤ s.m_position + fmt.emptySize) :=
  roundTrip_iff h.inv hmax junk body fmt hvalue

/-- Two bytes, over blocks of two. -/
theorem str_roundTrip_iff_two : ∃ s : ByteArray, s.m_position = 0 ∧
    RoundTrip .little 64 (fun _ _ => 0) (fun _ _ => 0) .f16 [0, 7] s := by
  obtain ⟨s, hs, -, hpos, -⟩ := exists_rewound .little 64 (by decide : 1 ≤ 2) [1, 2, 3]
  have hfits : StrFmt.f16.Fits [(0 : UInt8), 7].length := show 2 < 65536 by decide
  refine ⟨s, hpos, (str_roundTrip_iff hs (by decide) _ _ .f16 (by decide)).mpr ⟨hfits, ?_⟩⟩
  rintro ⟨hnil, -⟩
  cases hnil

/-- **A string of 65536 bytes** is written behind the length 0, and comes back empty. -/
theorem long_string_lost :
    ¬ ∀ (host : Endian) (max_size : Nat) (s : ByteArray), Stream.Reachable host max_size s →
      max_size < 18446744073709551616 → ∀ (junk body : Junk) (fmt : StrFmt) (value : List UInt8),
        value.length ≤ max_size → RoundTrip host max_size junk body fmt value s := by
  intro h
  have hB : 1 ≤ 4 := by decide
  have hlen : (List.replicate 65536 (0 : UInt8)).length = 65536 := List.length_replicate
  have hback := h .little 65536 _ (.new hB fun _ _ => 0) (by decide) (fun _ _ => 0)
    (fun _ _ => 0) .f16 (List.replicate 65536 0) (Nat.le_of_eq hlen)
  have hfits : (List.replicate 65536 (0 : UInt8)).length < 65536 :=
    ((roundTrip_iff (new_inv hB _) (by decide) _ _ .f16 (Nat.le_of_eq hlen)).mp hback).1
  omega

end ByteArray

end Will
