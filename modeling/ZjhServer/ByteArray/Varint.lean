/-
ZjhServer/ByteArray/Varint.lean

The varint reads of `ByteArray` (server/bytearray.cc) on whatever bytes lie ahead, written
by the matching encoder or not.

`readUint32` makes five turns at most, `readUint64` ten; the last turn reaches the top of
the word.  With bytes enough the loop returns the sum of the groups modulo the width of the
word (`readVarint_stops`), else it throws with every byte consumed (`readVarint_starves`).
It decodes exactly what it consumes as long as the fifth byte, or the tenth, is small when
it comes to it (`varint_exact_iff`).
-/
import ZjhServer.ByteArray.Codec
import ZjhServer.ByteArray.Stream

namespace Will

open Effect Wire Window

namespace ByteArray

/-! ### The bytes to come -/

/-- The bytes `[m_position, m_size)` -/
def unread (s : ByteArray) : List UInt8 := slice s.bytes s.m_position s.getReadSize

theorem length_unread {s : ByteArray} (h : s.Inv) : s.unread.length = s.getReadSize := by
  have hps := h.pos_le_size
  have hsc := h.size_le_capacity
  rw [unread, length_slice, h.length_bytes, getReadSize]
  omega

theorem take_unread {s : ByteArray} {n : Nat} (hn : n ≤ s.getReadSize) :
    s.unread.take n = slice s.bytes s.m_position n := by
  unfold unread slice
  rw [List.take_take, Nat.min_eq_left hn]

theorem Advanced.unread {n : Nat} {s t : ByteArray} (h : Advanced n s t) :
    t.unread = s.unread.drop n := by
  rw [ByteArray.unread, ByteArray.unread, h.bytes, h.position, h.readSize]
  unfold slice
  rw [List.drop_take, List.drop_drop]

/-- Bytes that are there can be read. -/
theorem read_advances {s : ByteArray} (h : s.Inv) {n : Nat} (hn : 1 ≤ n)
    (hle : n ≤ s.unread.length) :
    ∃ t, read n s = .ok (s.unread.take n) t ∧ Advanced n s t := by
  rw [length_unread h] at hle
  obtain ⟨t, ht, hinv, heq⟩ := read_spec h hn hle
  exact ⟨t, by rw [take_unread hle]; exact ht, hinv, heq⟩

theorem read_starves {s : ByteArray} (h : s.Inv) {n : Nat} (hlt : s.unread.length < n) :
    read n s = .error .out_of_range s :=
  read_throws (by rw [← length_unread h]; exact hlt)

theorem readFuint8_cons (host : Endian) {b : UInt8} {bs : List UInt8} {s : ByteArray} (h : s.Inv)
    (hs : s.unread = b :: bs) :
    ∃ t, readFuint8 host s = .ok b t ∧ Advanced 1 s t ∧ t.unread = bs := by
  have hlen := length_unread h
  have hone : Ahead [b] s := by
    have hle : 1 ≤ s.getReadSize := by
      rw [← hlen, hs]
      exact Nat.le_add_left 1 _
    refine ⟨hle, ?_⟩
    show slice s.bytes s.m_position 1 = [b]
    rw [← take_unread hle, hs]
    rfl
  obtain ⟨t, ht, hadv⟩ := readFuint8_ahead host b [] h hone
  exact ⟨t, ht, hadv, by rw [hadv.unread, hs]; rfl⟩

theorem readFuint8_nil (host : Endian) {s : ByteArray} (h : s.Inv) (hs : s.unread = []) :
    readFuint8 host s = .error .out_of_range s := by
  have hthrow : read 1 s = .error .out_of_range s := read_starves h (by rw [hs]; decide)
  exact run_bind_error (run_bind_error hthrow)

/-! ### The varint loop -/

/-- In the course of a loop that started in `s`: the bytes `bs` are left. -/
def Left (s : ByteArray) (bs : List UInt8) (t : ByteArray) : Prop :=
  ∃ n, Advanced n s t ∧ t.unread = bs ∧ n + bs.length = s.unread.length

theorem Left.refl {s : ByteArray} (h : s.Inv) : Left s s.unread s :=
  ⟨0, .refl h, rfl, Nat.zero_add _⟩

theorem Left.next (host : Endian) {s : ByteArray} (b : UInt8) (bs : List UInt8) (t : ByteArray)
    (h : Left s (b :: bs) t) : ∃ u, readFuint8 host t = .ok b u ∧ Left s bs u := by
  obtain ⟨n, hadv, hunread, hlen⟩ := h
  obtain ⟨u, hu, hone, hrest⟩ := readFuint8_cons host hadv.inv hunread
  rw [List.length_cons] at hlen
  exact ⟨u, hu, n + 1, hadv.trans hone, hrest, by omega⟩

theorem Left.empty (host : Endian) {s : ByteArray} (t : ByteArray) (h : Left s [] t) :
    readFuint8 host t = .error .out_of_range t := by
  obtain ⟨n, hadv, hunread, -⟩ := h
  exact readFuint8_nil host hadv.inv hunread

/-- The number of turns of `for(int i = 0; i < w; i += 7)`. -/
def turns (w : Nat) : Nat := (w + 6) / 7

/-- **A varint read returns** the sum of the groups, modulo the width of the word. -/
theorem readVarint_stops (host : Endian) {w : Nat} (hw : 8 ≤ w) {s : ByteArray} (h : s.Inv)
    (hwhole : Whole (turns w) s.unread) :
    ∃ t, readVarint host w s = .ok (BitVec.ofNat w (ofGroups (groups (turns w) s.unread))) t ∧
      Advanced (groups (turns w) s.unread).length s t := by
  obtain ⟨t, ht, n, hadv, -, hlen⟩ := decodeGroups_stops (Left s) (Left.next host) hw (k := 0)
    hwhole (by unfold turns; omega) 0#w (by simp) (Left.refl h)
  have hle := (groups_front (turns w) s.unread).length_le
  rw [List.length_drop] at hlen
  obtain rfl : n = (groups (turns w) s.unread).length := by omega
  refine ⟨t, ?_, hadv⟩
  rw [readVarint, shifts, List.range_eq_range']
  refine ht.trans ?_
  simp

/-- **A varint read throws** with every byte consumed. -/
theorem readVarint_starves (host : Endian) (w : Nat) {s : ByteArray} (h : s.Inv)
    (hwhole : ¬ Whole (turns w) s.unread) :
    ∃ t, readVarint host w s = .error .out_of_range t ∧ Advanced s.unread.length s t := by
  obtain ⟨t, ht, n, hadv, -, hlen⟩ := decodeGroups_starves (Left s) (Left.next host)
    (Left.empty host) (k := 0) hwhole 0#w (Left.refl h)
  obtain rfl : n = s.unread.length := by simpa using hlen
  refine ⟨t, ?_, hadv⟩
  rw [readVarint, shifts, List.range_eq_range']
  exact ht

/-! ### Exact decoding -/

/-- What is asked of a varint read that took the object from `s` to `t` and returned `x`:
the bytes consumed are terminated, and `x` is the sum of their groups. -/
def Decoded (s t : ByteArray) (x : Nat) : Prop :=
  Terminated (slice s.bytes s.m_position (t.m_position - s.m_position)) ∧
    x = ofGroups (slice s.bytes s.m_position (t.m_position - s.m_position))

/-- If the first `k` bytes all have their high bit set, the byte behind them, if there is
one, is below `bound`. -/
def Bounded (k : Nat) (bound : UInt8) (bs : List UInt8) : Prop :=
  (∀ c ∈ bs.take k, 0x80 ≤ c) → ∀ b, bs[k]? = some b → b < bound

/-- A varint read, of a word whose top the last turn reaches. -/
theorem readVarint_exact_iff (host : Endian) {w k : Nat} (hw : 8 ≤ w) (hlow : 7 * k < w)
    (hhigh : w ≤ 7 * k + 7) {s : ByteArray} (h : s.Inv) :
    (∀ v t, readVarint host w s = .ok v t → Decoded s t v.toNat) ↔
      ((∀ c ∈ s.unread.take k, 0x80 ≤ c) →
        ∀ b, s.unread[k]? = some b → b.toNat < 2 ^ (w - 7 * k)) := by
  have hturns : turns w = k + 1 := by
    unfold turns
    omega
  by_cases hwhole : Whole (turns w) s.unread
  · obtain ⟨t, ht, hadv⟩ := readVarint_stops host hw h hwhole
    have hprefix := groups_front (turns w) s.unread
    have hconsumed : slice s.bytes s.m_position (t.m_position - s.m_position) =
        groups (turns w) s.unread := by
      have hle := hprefix.length_le
      rw [length_unread h] at hle
      rw [hadv.position, Nat.add_sub_cancel_left, ← take_unread hle]
      exact (List.prefix_iff_eq_take.mp hprefix).symm
    rw [← exact_iff hlow hhigh (hturns ▸ hwhole), ← hturns]
    have hlt : 0 < 2 ^ w := Nat.two_pow_pos w
    constructor
    · intro hall
      obtain ⟨hterm, hsum⟩ := hall _ t ht
      rw [hconsumed] at hterm hsum
      refine ⟨hterm, ?_⟩
      rw [← hsum]
      exact BitVec.isLt _
    · rintro ⟨hterm, hfits⟩ v u hu
      rw [ht] at hu
      cases hu
      unfold Decoded
      rw [hconsumed]
      exact ⟨hterm, by rw [BitVec.toNat_ofNat, Nat.mod_eq_of_lt hfits]⟩
  · -- nothing is returned, and the byte in question is not there
    obtain ⟨t, ht, -⟩ := readVarint_starves host w h hwhole
    refine ⟨fun _ _ b hb => ?_, fun _ v u hu => ?_⟩
    · obtain ⟨hk, -⟩ := List.getElem?_eq_some_iff.mp hb
      exact absurd (.inl (by omega)) hwhole
    · rw [ht] at hu
      cases hu

/-- A value of another type, through a conversion that keeps the number. -/
theorem decoded_map {α β : Type} {m : M α} {f : α → β} {s : ByteArray} {x : α → Nat} {y : β → Nat}
    (hf : ∀ a, y (f a) = x a) :
    (∀ v t, (do let a ← m; pure (f a) : M β) s = .ok v t → Decoded s t (y v)) ↔
      ∀ v t, m s = .ok v t → Decoded s t (x v) := by
  rcases hm : m s with ⟨a, u⟩ | ⟨e, u⟩
  · have hrun : (do let a ← m; pure (f a) : M β) s = .ok (f a) u := run_bind_ok hm
    rw [hrun]
    constructor
    · rintro h v t ⟨⟩
      rw [← hf]
      exact h _ _ rfl
    · rintro h v t ⟨⟩
      rw [hf]
      exact h _ _ rfl
  · have hrun : (do let a ← m; pure (f a) : M β) s = .error e u := run_bind_error hm
    rw [hrun]
    exact ⟨fun _ v t hv => (nomatch hv), fun _ v t hv => (nomatch hv)⟩

/-- **Varint decoding** is exact on the bytes ahead exactly when the fifth byte of a 32-bit
varint, reached through four with their high bit set, is below 16, and the tenth of a
64-bit one below 2. -/
theorem varint_exact_iff {host : Endian} {max_size : Nat} {s : ByteArray}
    (h : Stream.Reachable host max_size s) :
    ((∀ v t, readUint32 host s = .ok v t → Decoded s t v.toNat) ↔ Bounded 4 0x10 s.unread) ∧
    ((∀ v t, readUint64 host s = .ok v t → Decoded s t v.toNat) ↔ Bounded 9 0x02 s.unread) := by
  constructor
  · refine (decoded_map (m := readVarint host 32) (f := fun v => (⟨v⟩ : UInt32))
      (x := BitVec.toNat) (y := UInt32.toNat) fun _ => rfl).trans ?_
    rw [readVarint_exact_iff host (k := 4) (by decide) (by decide) (by decide) h.inv]
    simp only [Bounded, UInt8.lt_iff_toNat_lt]
    exact Iff.rfl
  · refine (decoded_map (m := readVarint host 64) (f := fun v => (⟨v⟩ : UInt64))
      (x := BitVec.toNat) (y := UInt64.toNat) fun _ => rfl).trans ?_
    rw [readVarint_exact_iff host (k := 9) (by decide) (by decide) (by decide) h.inv]
    simp only [Bounded, UInt8.lt_iff_toNat_lt]
    exact Iff.rfl

/-- An object that the bytes `bs` were written to, and that was set back to its start. -/
theorem exists_rewound (host : Endian) (max_size : Nat) {B : Nat} (hB : 1 ≤ B)
    (bs : List UInt8) :
    ∃ s : ByteArray, Stream.Reachable host max_size s ∧ s.unread = bs ∧ s.m_position = 0 ∧
      s.m_size = bs.length ∧ s.m_baseSize = B ∧ s.m_endian = .big := by
  obtain ⟨t, ht, hW⟩ := write_spec (new_inv hB fun _ _ => 0) (fun _ _ => 0) bs
  have hpos : t.m_position = bs.length := hW.position.trans (Nat.zero_add _)
  have hsize : t.m_size = bs.length := by
    have hmax : t.m_size = max 0 (0 + bs.length) := hW.size_eq
    omega
  -- setting the position back keeps the size, which lies behind it
  obtain ⟨u, hu, hinv, heq⟩ := setPosition_spec hW.inv (v := 0) (Nat.zero_le _)
  have hwrite : Call.exec host max_size (.op (.write (fun _ _ => 0) bs))
      (new B fun _ _ => 0) = .ok () t := run_bind_ok (run_bind_ok ht)
  have hback : Call.exec host max_size (.op (.setPosition 0)) t = .ok () u :=
    run_bind_ok (run_bind_ok hu)
  have husize : u.m_size = bs.length := by
    rw [heq]
    exact (Nat.max_zero _).trans hsize
  have hupos : u.m_position = 0 := by rw [heq]
  refine ⟨u, .returns _ (.returns _ (.new hB _) hwrite) hback, ?_, hupos, husize, ?_, ?_⟩
  · have hbytes : u.bytes = t.bytes := by rw [heq]; rfl
    rw [unread, getReadSize, hbytes, hupos, husize]
    exact hW.window
  · rw [heq]
    exact hW.base
  · rw [heq]
    exact hW.endian

/-- The bytes `ac 02`, three hundred. -/
theorem varint_exact_iff_three_hundred : ∃ s : ByteArray, s.unread = [0xac, 0x02] ∧
    ∀ v t, readUint32 .little s = .ok v t → Decoded s t v.toNat := by
  obtain ⟨s, hs, hunread, -⟩ := exists_rewound .little 64 (by decide : 1 ≤ 2) [0xac, 0x02]
  refine ⟨s, hunread, (varint_exact_iff hs).1.mpr ?_⟩
  rw [hunread]
  intro _ b hb
  cases hb

/-- **Six bytes of a 64-bit varint** read as a 32-bit one: the loop ends behind the fifth
byte, in the middle of the number. -/
theorem varint_cut : ¬ ∀ (host : Endian) (max_size : Nat) (s : ByteArray),
    Stream.Reachable host max_size s →
      ∀ v t, readUint32 host s = .ok v t → Decoded s t v.toNat := by
  intro h
  obtain ⟨s, hs, hunread, -⟩ :=
    exists_rewound .little 64 (by decide : 1 ≤ 4) [0x80, 0x80, 0x80, 0x80, 0x80, 0x01]
  have hall := h .little 64 s hs
  have hbounded := ((decoded_map (m := readVarint .little 32) (f := fun v => (⟨v⟩ : UInt32))
      (x := BitVec.toNat) (y := UInt32.toNat) fun _ => rfl).trans
    (readVarint_exact_iff .little (k := 4) (by decide) (by decide) (by decide) hs.inv)).mp hall
  rw [hunread] at hbounded
  have hhigh : ∀ c ∈ List.replicate 4 (0x80 : UInt8), 0x80 ≤ c := by
    intro c hc
    rw [List.eq_of_mem_replicate hc]
    exact UInt8.le_refl 0x80
  exact absurd (hbounded hhigh 0x80 rfl) (by decide)

end ByteArray

end Will
