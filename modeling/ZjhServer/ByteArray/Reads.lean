/-
ZjhServer/ByteArray/Reads.lean

What the typed reads of `ByteArray` (server/bytearray.cc) do when the bytes ahead are too
few, and what a read of no bytes does.

Every value read has a shape, a fixed number of bytes or a varint, and `Shaped` is its
contract: with enough bytes ahead it returns a value and moves behind it, else it throws,
a fixed-width one with nothing consumed and a varint with every byte consumed.  A string
read is a length of some shape followed by `read(&buff[0], len)`.

* A read of no bytes follows a null cursor at the end of the capacity (`read_completes_iff`),
  and so does an empty string whose length ends there (`empty_reads_iff`).
* A read that fails part of the way has moved the position (`reads_atomic_iff`).
-/
import ZjhServer.ByteArray.Varint

namespace Will

open Effect Wire Window

namespace ByteArray

/-! ### Reads of no bytes -/

/-- **A read** of bytes that are there returns them, unless it asks for none at the end of
the capacity. -/
theorem read_completes {s : ByteArray} (h : s.Inv) {size : Nat} (hsize : size ≤ s.getReadSize)
    (hcur : size ≠ 0 ∨ s.m_position ≠ s.m_capacity) :
    ∃ t, read size s = .ok (s.unread.take size) t ∧ Advanced size s t := by
  rcases Nat.eq_zero_or_pos size with rfl | hpos
  · have hnull : s.m_cur ≠ none := mt h.cur_eq_none_iff.mp (hcur.resolve_left fun hne => hne rfl)
    refine ⟨s, ?_, .refl h⟩
    unfold read
    rw [if_neg (Nat.not_lt_zero _), if_neg hnull, if_pos rfl]
    rfl
  · exact read_advances h hpos (by rw [length_unread h]; exact hsize)

theorem read_null {s : ByteArray} (h : s.Inv) (hend : s.m_position = s.m_capacity) :
    read 0 s = .error .nullptr s := by
  unfold read
  rw [if_neg (Nat.not_lt_zero _), if_pos (h.cur_eq_none_iff.mpr hend)]

theorem read_completes_iff {s : ByteArray} (h : s.Inv) {size : Nat}
    (hsize : size ≤ s.getReadSize) :
    (∃ bs t, read size s = .ok bs t) ↔ size ≠ 0 ∨ s.m_position ≠ s.m_capacity := by
  constructor
  · rintro ⟨bs, t, hrun⟩
    by_contra hnot
    obtain ⟨rfl, hend⟩ : size = 0 ∧ s.m_position = s.m_capacity := by
      simpa only [not_or, not_not] using hnot
    rw [read_null h hend] at hrun
    cases hrun
  · intro hcur
    obtain ⟨t, ht, -⟩ := read_completes h hsize hcur
    exact ⟨_, t, ht⟩

/-! ### Shapes -/

/-- How many bytes a value takes: a fixed number of them, or a varint read in so many
turns. -/
inductive Shape
  | fixed (n : Nat)
  | varint (n : Nat)
  deriving DecidableEq, Repr

namespace Shape

/-- The bytes start with a value of the shape. -/
def Whole : Shape → List UInt8 → Prop
  | .fixed n, bs => n ≤ bs.length
  | .varint n, bs => Wire.Whole n bs

/-- The bytes it takes, when they start with one. -/
def size : Shape → List UInt8 → Nat
  | .fixed n, _ => n
  | .varint n, bs => (groups n bs).length

/-- The bytes a read consumes before it throws. -/
def lost : Shape → List UInt8 → Nat
  | .fixed _, _ => 0
  | .varint _, bs => bs.length

end Shape

/-- The contract of a value read; `val` is the value, from the byte order of the object and
the bytes ahead. -/
structure Shaped {α : Type} (m : M α) (shape : Shape) (val : Endian → List UInt8 → α) : Prop where
  whole : ∀ s, s.Inv → shape.Whole s.unread →
    ∃ t, m s = .ok (val s.m_endian s.unread) t ∧ Advanced (shape.size s.unread) s t
  short : ∀ s, s.Inv → ¬ shape.Whole s.unread →
    ∃ t, m s = .error .out_of_range t ∧ Advanced (shape.lost s.unread) s t

theorem Shaped.map {α β : Type} {m : M α} {shape : Shape} {val : Endian → List UInt8 → α}
    (h : Shaped m shape val) (f : α → β) :
    Shaped (do let a ← m; pure (f a)) shape fun e bs => f (val e bs) where
  whole := by
    intro s hs hwhole
    obtain ⟨t, ht, hadv⟩ := h.whole s hs hwhole
    exact ⟨t, run_bind_ok ht, hadv⟩
  short := by
    intro s hs hshort
    obtain ⟨t, ht, hadv⟩ := h.short s hs hshort
    exact ⟨t, run_bind_error ht, hadv⟩

/-- The word at the front of the bytes, in byte order `e`. -/
def wordAt (host : Endian) (n : Nat) (e : Endian) (bs : List UInt8) : BitVec (8 * n) :=
  if e = host then ofMem host n (bs.take n) else byteswap (ofMem host n (bs.take n))

/-- The varint at the front of the bytes, as a word. -/
def varintAt (w : Nat) (_ : Endian) (bs : List UInt8) : BitVec w :=
  BitVec.ofNat w (ofGroups (groups (turns w) bs))

theorem readF_shaped (host : Endian) {n : Nat} (hn : 1 ≤ n) :
    Shaped (readF host n) (.fixed n) (wordAt host n) where
  whole := by
    intro s hs hle
    obtain ⟨t, ht, hadv⟩ := read_advances hs hn hle
    refine ⟨t, ?_, hadv⟩
    rw [readF, run_bind_ok ht, run_bind_ok (run_get t), run_pure, hadv.endian, wordAt]
  short := by
    intro s hs hlt
    have hthrow := read_starves hs (Nat.not_le.mp hlt)
    exact ⟨s, run_bind_error hthrow, .refl hs⟩

theorem readByte_shaped (host : Endian) :
    Shaped (readByte host) (.fixed 1) fun _ bs => ofMem host 1 (bs.take 1) where
  whole := by
    intro s hs hle
    obtain ⟨t, ht, hadv⟩ := read_advances hs (Nat.le_refl 1) hle
    exact ⟨t, run_bind_ok ht, hadv⟩
  short := by
    intro s hs hlt
    have hthrow := read_starves hs (Nat.not_le.mp hlt)
    exact ⟨s, run_bind_error hthrow, .refl hs⟩

theorem readVarint_shaped (host : Endian) {w : Nat} (hw : 8 ≤ w) :
    Shaped (readVarint host w) (.varint (turns w)) (varintAt w) where
  whole := fun _ hs hwhole => readVarint_stops host hw hs hwhole
  short := fun _ hs hshort => readVarint_starves host w hs hshort

end ByteArray

open Will.ByteArray

/-- The shape of a format. -/
def Fmt.shape : Fmt → Shape
  | fint8 | fuint8 => .fixed 1
  | fint16 | fuint16 => .fixed 2
  | fint32 | fuint32 | float => .fixed 4
  | fint64 | fuint64 | double => .fixed 8
  | int32 | uint32 => .varint 5
  | int64 | uint64 => .varint 10

theorem Fmt.read_shaped (host : Endian) (fmt : Fmt) :
    ∃ val, Shaped (fmt.read host) fmt.shape val := by
  have h8 := readByte_shaped host
  have h16 := readF_shaped host (n := 2) (by decide)
  have h32 := readF_shaped host (n := 4) (by decide)
  have h64 := readF_shaped host (n := 8) (by decide)
  have hv32 := (readVarint_shaped host (w := 32) (by decide)).map fun v => (⟨v⟩ : UInt32)
  have hv64 := (readVarint_shaped host (w := 64) (by decide)).map fun v => (⟨v⟩ : UInt64)
  cases fmt with
  | fint8 => exact ⟨_, h8.map fun v => (⟨⟨v⟩⟩ : Int8)⟩
  | fuint8 => exact ⟨_, h8.map fun v => (⟨v⟩ : UInt8)⟩
  | fint16 => exact ⟨_, h16.map fun v => (⟨⟨v⟩⟩ : Int16)⟩
  | fuint16 => exact ⟨_, h16.map fun v => (⟨v⟩ : UInt16)⟩
  | fint32 => exact ⟨_, h32.map fun v => (⟨⟨v⟩⟩ : Int32)⟩
  | fuint32 | float => exact ⟨_, h32.map fun v => (⟨v⟩ : UInt32)⟩
  | fint64 => exact ⟨_, h64.map fun v => (⟨⟨v⟩⟩ : Int64)⟩
  | fuint64 | double => exact ⟨_, h64.map fun v => (⟨v⟩ : UInt64)⟩
  | int32 => exact ⟨_, hv32.map DecodeZigzag32⟩
  | uint32 => exact ⟨_, hv32⟩
  | int64 => exact ⟨_, hv64.map DecodeZigzag64⟩
  | uint64 => exact ⟨_, hv64⟩

/-! ### String reads -/

namespace StrFmt

/-- The shape of the length. -/
def shape : StrFmt → Shape
  | f16 => .fixed 2
  | f32 => .fixed 4
  | f64 => .fixed 8
  | vint => .varint 10

/-- The length at the front of the bytes. -/
def length (host e : Endian) (bs : List UInt8) : StrFmt → Nat
  | f16 => (wordAt host 2 e bs).toNat
  | f32 => (wordAt host 4 e bs).toNat
  | f64 => (wordAt host 8 e bs).toNat
  | vint => (varintAt 64 e bs).toNat

/-- The bytes start with a whole string, its length and as many bytes. -/
def Whole (host e : Endian) (bs : List UInt8) (fmt : StrFmt) : Prop :=
  fmt.shape.Whole bs ∧ fmt.shape.size bs + fmt.length host e bs ≤ bs.length

/-- The read of the length. -/
def readLength (host : Endian) : StrFmt → M Nat
  | f16 => do let len ← readFuint16 host; pure len.toNat
  | f32 => do let len ← readFuint32 host; pure len.toNat
  | f64 => do let len ← readFuint64 host; pure len.toNat
  | vint => do let len ← readUint64 host; pure len.toNat

theorem readLength_shaped (host : Endian) (fmt : StrFmt) :
    Shaped (fmt.readLength host) fmt.shape fun e bs => fmt.length host e bs := by
  cases fmt with
  | f16 =>
      exact ((readF_shaped host (n := 2) (by decide)).map fun v => (⟨v⟩ : UInt16)).map UInt16.toNat
  | f32 =>
      exact ((readF_shaped host (n := 4) (by decide)).map fun v => (⟨v⟩ : UInt32)).map UInt32.toNat
  | f64 =>
      exact ((readF_shaped host (n := 8) (by decide)).map fun v => (⟨v⟩ : UInt64)).map UInt64.toNat
  | vint =>
      exact ((readVarint_shaped host (w := 64) (by decide)).map fun v => (⟨v⟩ : UInt64)).map
        UInt64.toNat

/-- A string read is the read of its length, then the read of so many bytes. -/
theorem read_eq (host : Endian) (rd : Nat → M (List UInt8)) (max_size : Nat) (fmt : StrFmt)
    (s : ByteArray) :
    fmt.read host rd max_size s = (fmt.readLength host >>= readString rd max_size) s := by
  cases fmt with
  | f16 => exact (run_map_bind (readFuint16 host) UInt16.toNat (readString rd max_size) s).symm
  | f32 => exact (run_map_bind (readFuint32 host) UInt32.toNat (readString rd max_size) s).symm
  | f64 => exact (run_map_bind (readFuint64 host) UInt64.toNat (readString rd max_size) s).symm
  | vint => exact (run_map_bind (readUint64 host) UInt64.toNat (readString rd max_size) s).symm

/-- A whole length takes some bytes, and no more than are there. -/
theorem shape_size {fmt : StrFmt} {bs : List UInt8} (h : fmt.shape.Whole bs) :
    0 < fmt.shape.size bs ∧ fmt.shape.size bs ≤ bs.length := by
  cases fmt with
  | f16 | f32 | f64 => exact ⟨by simp [shape, Shape.size], h⟩
  | vint =>
      refine ⟨?_, (groups_front 10 bs).length_le⟩
      cases bs with
      | nil => exact absurd h (not_whole_nil 9)
      | cons b bs => exact List.length_pos_iff.mpr (groups_ne_nil (List.cons_ne_nil b bs))

/-- **What a string read does**: by the length ahead, and the bytes behind it. -/
theorem read_whole (host : Endian) (max_size : Nat) {fmt : StrFmt} {s : ByteArray} (h : s.Inv)
    (hwhole : fmt.shape.Whole s.unread) :
    ∃ t, Advanced (fmt.shape.size s.unread) s t ∧
      fmt.read host ByteArray.read max_size s =
        readString ByteArray.read max_size (fmt.length host s.m_endian s.unread) t := by
  obtain ⟨t, ht, hadv⟩ := (readLength_shaped host fmt).whole s h hwhole
  exact ⟨t, hadv, by rw [read_eq, run_bind_ok ht]⟩

theorem read_short (host : Endian) (max_size : Nat) {fmt : StrFmt} {s : ByteArray} (h : s.Inv)
    (hshort : ¬ fmt.shape.Whole s.unread) :
    ∃ t, Advanced (fmt.shape.lost s.unread) s t ∧
      fmt.read host ByteArray.read max_size s = .error .out_of_range t := by
  obtain ⟨t, ht, hadv⟩ := (readLength_shaped host fmt).short s h hshort
  exact ⟨t, hadv, by rw [read_eq, run_bind_error ht]⟩

end StrFmt

namespace ByteArray

/-! ### Empty strings -/

/-- The bytes ahead are the length of an empty string, which ends at the end of the
capacity. -/
def EmptyAtEnd (host : Endian) (fmt : StrFmt) (s : ByteArray) : Prop :=
  fmt.shape.Whole s.unread ∧ fmt.length host s.m_endian s.unread = 0 ∧
    s.m_position + fmt.shape.size s.unread = s.m_capacity

/-- The end of a string read, behind its length. -/
theorem readString_cases {t : ByteArray} (h : t.Inv) (max_size len : Nat) :
    if len > max_size then readString read max_size len t = .error .length_error t
    else if len > t.unread.length then readString read max_size len t = .error .out_of_range t
    else if len = 0 ∧ t.m_position = t.m_capacity then
      readString read max_size len t = .error .nullptr t
    else ∃ u, readString read max_size len t = .ok (t.unread.take len) u ∧ Advanced len t u := by
  unfold readString
  split_ifs with hmax hlen hend
  · rfl
  · exact read_starves h hlen
  · rw [hend.1]
    exact read_null h hend.2
  · exact read_completes h (by rw [← length_unread h]; omega) (by omega)

theorem str_read_null_iff {host : Endian} (max_size : Nat) {fmt : StrFmt} {s : ByteArray}
    (h : s.Inv) :
    (∃ t, fmt.read host read max_size s = .error .nullptr t) ↔ EmptyAtEnd host fmt s := by
  by_cases hwhole : fmt.shape.Whole s.unread
  · obtain ⟨t, hadv, heq⟩ := StrFmt.read_whole host max_size h hwhole
    -- the length is read; what is left is the read of the bytes, which has four outcomes
    have hcases := readString_cases hadv.inv max_size (fmt.length host s.m_endian s.unread)
    have hpos := hadv.position
    have hcap : t.m_capacity = s.m_capacity := by rw [hadv.same]
    rw [heq]
    split_ifs at hcases with hmax hlen hend
    · rw [hcases]
      refine ⟨fun ⟨_, hnull⟩ => (nomatch hnull), fun hempty => ?_⟩
      rw [hempty.2.1] at hmax
      exact absurd hmax (Nat.not_lt_zero _)
    · rw [hcases]
      refine ⟨fun ⟨_, hnull⟩ => (nomatch hnull), fun hempty => ?_⟩
      rw [hempty.2.1] at hlen
      exact absurd hlen (Nat.not_lt_zero _)
    · exact ⟨fun _ => ⟨hwhole, hend.1, by rw [← hpos, hend.2, hcap]⟩, fun _ => ⟨t, hcases⟩⟩
    · obtain ⟨u, hu, -⟩ := hcases
      rw [hu]
      refine ⟨fun ⟨_, hnull⟩ => (nomatch hnull), fun hempty => ?_⟩
      exact absurd ⟨hempty.2.1, by rw [hpos, hempty.2.2, hcap]⟩ hend
  · obtain ⟨t, -, heq⟩ := StrFmt.read_short host max_size h hwhole
    rw [heq]
    exact ⟨fun ⟨_, hnull⟩ => (nomatch hnull), fun hempty => absurd hempty.1 hwhole⟩

/-- **Reads of no bytes**: `read` completes unless it is asked for no bytes at the end of
the capacity, and a string read follows a null cursor only for an empty string whose
length ends there. -/
theorem empty_reads_iff {host : Endian} {max_size : Nat} {s : ByteArray}
    (h : Stream.Reachable host max_size s) :
    (∀ size ≤ s.getReadSize,
      (∃ bs t, read size s = .ok bs t) ↔ size ≠ 0 ∨ s.m_position ≠ s.m_capacity) ∧
    ∀ fmt : StrFmt,
      (∀ t, fmt.read host read max_size s ≠ .error .nullptr t) ↔ ¬ EmptyAtEnd host fmt s := by
  refine ⟨fun size hsize => read_completes_iff h.inv hsize, fun fmt => ?_⟩
  rw [← str_read_null_iff max_size h.inv, not_exists]

/-- An empty string with two bytes behind it. -/
theorem empty_reads_iff_inside : ∃ s : ByteArray, s.unread = [0, 0, 1, 2] ∧
    ∀ t, StrFmt.f16.read .little read 64 s ≠ .error .nullptr t := by
  obtain ⟨s, hs, hunread, hpos, hsize, -⟩ :=
    exists_rewound .little 64 (by decide : 1 ≤ 4) [0, 0, 1, 2]
  refine ⟨s, hunread, ((empty_reads_iff hs).2 .f16).mpr ?_⟩
  rintro ⟨-, -, hend⟩
  have hle := hs.inv.size_le_capacity
  rw [hpos, ← Nat.zero_add (StrFmt.f16.shape.size s.unread)] at hend
  rw [hsize] at hle
  have hfour : 4 ≤ 0 + (0 + 2) := hle.trans (Nat.le_of_eq hend.symm)
  omega

/-- **A read of no bytes** behind two bytes that fill the only block, and an empty string
whose length fills it. -/
theorem read_nothing_at_end :
    (¬ ∀ (host : Endian) (max_size : Nat) (s : ByteArray), Stream.Reachable host max_size s →
      ∀ size ≤ s.getReadSize, ∀ t, read size s ≠ .error .nullptr t) ∧
    ¬ ∀ (host : Endian) (max_size : Nat) (s : ByteArray), Stream.Reachable host max_size s →
      ∀ fmt : StrFmt, fmt.length host s.m_endian s.unread = 0 →
        ∀ t, fmt.read host read max_size s ≠ .error .nullptr t := by
  obtain ⟨s, hwrite, t, hback, hread, hlen, hstr⟩ : ∃ s,
      Call.exec .little 64 (.op (.write (fun _ _ => 0) [0, 0])) (new 2 fun _ _ => 0) = .ok () s ∧
      ∃ t, Call.exec .little 64 (.op (.setPosition 0)) s = .ok () t ∧
        read 0 s = .error .nullptr s ∧ StrFmt.f16.length .little t.m_endian t.unread = 0 ∧
        ∃ u, StrFmt.f16.read .little read 64 t = .error .nullptr u :=
    ⟨_, rfl, _, rfl, rfl, rfl, _, rfl⟩
  have hs : Stream.Reachable .little 64 s := .returns _ (.new (by decide) _) hwrite
  refine ⟨fun h => h .little 64 s hs 0 (Nat.zero_le _) s hread, fun h => ?_⟩
  obtain ⟨u, hu⟩ := hstr
  exact h .little 64 t (hs.returns _ hback) .f16 hlen u hu

/-! ### Failed reads -/

/-- What is asked of a read of an item that is `whole` or not: it throws `out_of_range`
exactly when it is not, and whatever it throws, it leaves the position, the size and the
cursor as they were. -/
structure Atomic {α : Type} (m : M α) (whole : Prop) (s : ByteArray) : Prop where
  throws : (∃ t, m s = .error .out_of_range t) ↔ ¬ whole
  kept : ∀ e t, m s = .error e t →
    t.m_position = s.m_position ∧ t.m_size = s.m_size ∧ t.m_cur = s.m_cur

theorem Advanced.eq_self {s t : ByteArray} (h : s.Inv) (hadv : Advanced 0 s t) : t = s := by
  have hcur : t.m_cur = s.m_cur := by
    rw [hadv.inv.cur, h.cur, hadv.same]
    rfl
  rw [hadv.same, hcur]
  rfl

/-- A read that returns is atomic exactly when the item was whole. -/
theorem atomic_of_ok {α : Type} {m : M α} {whole : Prop} {s t : ByteArray} {a : α}
    (h : m s = .ok a t) : Atomic m whole s ↔ whole := by
  refine ⟨fun hatomic => ?_, fun hwhole => ⟨?_, ?_⟩⟩
  · by_contra hnot
    obtain ⟨u, hu⟩ := hatomic.throws.mpr hnot
    rw [h] at hu
    cases hu
  · rw [h]
    exact ⟨fun ⟨_, ht⟩ => (nomatch ht), fun hnot => absurd hwhole hnot⟩
  · rw [h]
    exact fun _ _ ht => (nomatch ht)

/-- A read that throws `out_of_range` is atomic exactly when the item was not whole and
nothing has been consumed. -/
theorem atomic_of_throw {α : Type} {m : M α} {whole : Prop} {n : Nat} {s t : ByteArray}
    (hs : s.Inv) (h : m s = .error .out_of_range t) (hadv : Advanced n s t) :
    Atomic m whole s ↔ ¬ whole ∧ n = 0 := by
  constructor
  · intro hatomic
    have hpos := hadv.position
    have hkept := (hatomic.kept _ t h).1
    exact ⟨hatomic.throws.mp ⟨t, h⟩, by omega⟩
  · rintro ⟨hshort, rfl⟩
    have hsame := hadv.eq_self hs
    refine ⟨⟨fun _ => hshort, fun _ => ⟨t, h⟩⟩, fun e u hu => ?_⟩
    rw [h] at hu
    cases hu
    rw [hsame]
    exact ⟨rfl, rfl, rfl⟩

/-- **A value read** is atomic unless it is a varint cut behind its first byte. -/
theorem Shaped.atomic_iff {α : Type} {m : M α} {shape : Shape} {val : Endian → List UInt8 → α}
    (hm : Shaped m shape val) {s : ByteArray} (h : s.Inv) :
    Atomic m (shape.Whole s.unread) s ↔ shape.Whole s.unread ∨ shape.lost s.unread = 0 := by
  by_cases hwhole : shape.Whole s.unread
  · obtain ⟨t, ht, -⟩ := hm.whole s h hwhole
    rw [atomic_of_ok ht]
    exact ⟨.inl, fun _ => hwhole⟩
  · obtain ⟨t, ht, hadv⟩ := hm.short s h hwhole
    rw [atomic_of_throw h ht hadv]
    exact ⟨fun hlost => .inr hlost.2, fun hor => ⟨hwhole, hor.resolve_left hwhole⟩⟩

/-- **A string read** is atomic when the string is whole, or when its length is not and
nothing of it is consumed. -/
theorem str_atomic_iff {host : Endian} {max_size : Nat} {fmt : StrFmt} {s : ByteArray}
    (h : s.Inv) :
    Atomic (fmt.read host read max_size) (fmt.Whole host s.m_endian s.unread) s ↔
      (fmt.Whole host s.m_endian s.unread ∧ fmt.length host s.m_endian s.unread ≤ max_size ∧
        ¬ EmptyAtEnd host fmt s) ∨
      (¬ fmt.shape.Whole s.unread ∧ fmt.shape.lost s.unread = 0) := by
  by_cases hlength : fmt.shape.Whole s.unread
  · obtain ⟨t, hadv, heq⟩ := StrFmt.read_whole host max_size h hlength
    obtain ⟨hsize, hle⟩ := StrFmt.shape_size hlength
    have hpos := hadv.position
    have hcap : t.m_capacity = s.m_capacity := by rw [hadv.same]
    have hleft : t.unread.length = s.unread.length - fmt.shape.size s.unread := by
      rw [hadv.unread, List.length_drop]
    -- whatever is thrown behind the length, the position has moved
    have hmoved : ∀ e, fmt.read host read max_size s = .error e t →
        ¬ Atomic (fmt.read host read max_size) (fmt.Whole host s.m_endian s.unread) s := by
      intro e he hatomic
      have hkept := (hatomic.kept e t he).1
      omega
    have hcases := readString_cases hadv.inv max_size (fmt.length host s.m_endian s.unread)
    rw [← heq] at hcases
    simp only [hlength, not_true, false_and, or_false]
    split_ifs at hcases with hmax hlen hend
    · exact ⟨fun hatomic => absurd hatomic (hmoved _ hcases), fun hok => absurd hok.2.1 (by omega)⟩
    · refine ⟨fun hatomic => absurd hatomic (hmoved _ hcases), fun hok => ?_⟩
      have hbody := hok.1.2
      omega
    · refine ⟨fun hatomic => absurd hatomic (hmoved _ hcases), fun hok => absurd ?_ hok.2.2⟩
      exact ⟨hlength, hend.1, by rw [← hpos, hend.2, hcap]⟩
    · obtain ⟨u, hu, -⟩ := hcases
      rw [atomic_of_ok hu]
      refine ⟨fun hwhole => ⟨hwhole, by omega, fun hempty => hend ⟨hempty.2.1, ?_⟩⟩,
        fun hok => hok.1⟩
      rw [hpos, hempty.2.2, hcap]
  · obtain ⟨t, hadv, heq⟩ := StrFmt.read_short host max_size h hlength
    rw [atomic_of_throw h heq hadv]
    have hshort : ¬ fmt.Whole host s.m_endian s.unread := fun hwhole => hlength hwhole.1
    simp only [hshort, hlength, not_false_eq_true, true_and, false_and, false_or]

/-- **Failed reads**: a value read is atomic exactly when the value is whole or nothing is
consumed, that is, unless it is a varint of which some bytes are there and not all.  A
string read is atomic exactly when the string is whole, within `max_size` and not an empty
one whose length ends at the end of the capacity, or when not even its length is whole and
nothing of it is consumed. -/
theorem reads_atomic_iff {host : Endian} {max_size : Nat} {s : ByteArray}
    (h : Stream.Reachable host max_size s) :
    (∀ fmt : Fmt, Atomic (fmt.read host) (fmt.shape.Whole s.unread) s ↔
      fmt.shape.Whole s.unread ∨ fmt.shape.lost s.unread = 0) ∧
    ∀ fmt : StrFmt,
      Atomic (fmt.read host read max_size) (fmt.Whole host s.m_endian s.unread) s ↔
        (fmt.Whole host s.m_endian s.unread ∧ fmt.length host s.m_endian s.unread ≤ max_size ∧
          ¬ EmptyAtEnd host fmt s) ∨
        (¬ fmt.shape.Whole s.unread ∧ fmt.shape.lost s.unread = 0) := by
  refine ⟨fun fmt => ?_, fun fmt => str_atomic_iff h.inv⟩
  obtain ⟨val, hval⟩ := fmt.read_shaped host
  exact hval.atomic_iff h.inv

/-- Two bytes of four. -/
theorem reads_atomic_iff_short : ∃ s : ByteArray, s.unread = [1, 2] ∧
    Atomic (Fmt.fuint32.read .little) (Fmt.fuint32.shape.Whole s.unread) s := by
  obtain ⟨s, hs, hunread, -⟩ := exists_rewound .little 64 (by decide : 1 ≤ 4) [1, 2]
  exact ⟨s, hunread, ((reads_atomic_iff hs).1 .fuint32).mpr (.inr rfl)⟩

/-- **A string of five bytes** with none of them there: its length is consumed. -/
theorem string_read_moves :
    ¬ ∀ (host : Endian) (max_size : Nat) (s : ByteArray), Stream.Reachable host max_size s →
      ∀ fmt : StrFmt,
        Atomic (fmt.read host read max_size) (fmt.Whole host s.m_endian s.unread) s := by
  intro h
  obtain ⟨s, hs, hunread, -, -, -, hendian⟩ :=
    exists_rewound .little 64 (by decide : 1 ≤ 4) [0, 5]
  have hatomic := str_atomic_iff hs.inv |>.mp (h .little 64 s hs .f16)
  rw [hunread, hendian] at hatomic
  rcases hatomic with ⟨⟨-, hbody⟩, -⟩ | ⟨hshort, -⟩
  · exact absurd hbody (by decide)
  · exact hshort (Nat.le_refl 2)

end ByteArray

end Will
