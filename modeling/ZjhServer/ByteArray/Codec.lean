/-
ZjhServer/ByteArray/Codec.lean

What is written with a format is read back with it.

`RoundTrips e put get v bs` is the contract between a writing and a reading
member function of one format, for an object set to byte order `e`: writing `v`
is writing the bytes `bs`, and reading where `bs` lies ahead gives `v` and moves
behind it.  Each of the fourteen formats has it (`fmt_roundTrips`), so a list of
values, each with its own format and byte order, can be written, the position
set back, and read (`readAll_writeAll`).
-/
import ZjhServer.ByteArray.Runs
import ZjhServer.Lib.Groups

namespace Will

open Effect Wire Window Will.ByteArray

namespace ByteArray

/-! ### Bytes ahead -/

/-- From the position of `s` on, the readable bytes start with `bs`. -/
structure Ahead (bs : List UInt8) (s : ByteArray) : Prop where
  len : bs.length ≤ s.getReadSize
  window : slice s.bytes s.m_position bs.length = bs

/-- `t` is `s` with the position `n` bytes further. -/
structure Advanced (n : Nat) (s t : ByteArray) : Prop where
  inv : t.Inv
  same : t = { s with m_position := s.m_position + n, m_cur := t.m_cur }

theorem Advanced.bytes {n : Nat} {s t : ByteArray} (h : Advanced n s t) : t.bytes = s.bytes := by
  rw [h.same]; rfl

theorem Advanced.position {n : Nat} {s t : ByteArray} (h : Advanced n s t) :
    t.m_position = s.m_position + n := by rw [h.same]

theorem Advanced.endian {n : Nat} {s t : ByteArray} (h : Advanced n s t) :
    t.m_endian = s.m_endian := by rw [h.same]

theorem Advanced.readSize {n : Nat} {s t : ByteArray} (h : Advanced n s t) :
    t.getReadSize = s.getReadSize - n := by
  rw [h.same]
  unfold getReadSize
  simp only
  omega

theorem Advanced.refl {s : ByteArray} (h : s.Inv) : Advanced 0 s s := ⟨h, rfl⟩

theorem Advanced.trans {m n : Nat} {s t u : ByteArray} (h : Advanced m s t)
    (h' : Advanced n t u) : Advanced (m + n) s u := by
  refine ⟨h'.inv, ?_⟩
  rw [h'.same, h.same]
  simp only [Nat.add_assoc]

/-- Bytes ahead, in two parts. -/
theorem Ahead.split {as bs : List UInt8} {s : ByteArray} (h : Ahead (as ++ bs) s) :
    slice s.bytes s.m_position as.length = as ∧
      slice s.bytes (s.m_position + as.length) bs.length = bs := by
  have hwin := h.window
  rw [List.length_append, slice_add] at hwin
  have htotal := congrArg List.length hwin
  have h₁ := length_slice s.bytes s.m_position as.length
  have h₂ := length_slice s.bytes (s.m_position + as.length) bs.length
  simp only [List.length_append] at htotal
  exact List.append_inj hwin (by omega)

theorem Ahead.front {as bs : List UInt8} {s : ByteArray} (h : Ahead (as ++ bs) s) :
    Ahead as s := by
  have hlen := h.len
  rw [List.length_append] at hlen
  exact ⟨by omega, h.split.1⟩

/-- The bytes behind those just read. -/
theorem Ahead.advance {as bs : List UInt8} {s t : ByteArray} (h : Ahead (as ++ bs) s)
    (ht : Advanced as.length s t) : Ahead bs t := by
  have hlen := h.len
  rw [List.length_append] at hlen
  refine ⟨by rw [ht.readSize]; omega, ?_⟩
  rw [ht.bytes, ht.position]
  exact h.split.2

theorem read_ahead {s : ByteArray} (h : s.Inv) {bs : List UInt8} (hbs : bs ≠ [])
    (ha : Ahead bs s) : ∃ t, read bs.length s = .ok bs t ∧ Advanced bs.length s t := by
  obtain ⟨t, ht, hinv, heq⟩ := read_spec h (List.length_pos_iff.mpr hbs) ha.len
  rw [ha.window] at ht
  exact ⟨t, ht, hinv, heq⟩

/-! ### The contract of a format -/

/-- In byte order `e`, `put` writes `v` as the bytes `bs`, and `get` reads it back
from them. -/
structure RoundTrips {α : Type} (e : Endian) (put : Junk → M Unit) (get : M α) (v : α)
    (bs : List UInt8) : Prop where
  put_eq : ∀ junk s, s.m_endian = e → put junk s = write junk bs s
  get_eq : ∀ s, s.Inv → s.m_endian = e → Ahead bs s →
    ∃ t, get s = .ok v t ∧ Advanced bs.length s t

/-- A format of a type that is converted to another one and back. -/
theorem RoundTrips.map {α β : Type} {e : Endian} {put : Junk → M Unit} {get : M α} {v : α}
    {bs : List UInt8} (h : RoundTrips e put get v bs) (f : α → β) :
    RoundTrips e put (do let a ← get; pure (f a)) (f v) bs where
  put_eq := h.put_eq
  get_eq := by
    intro s hs he ha
    obtain ⟨t, ht, hadv⟩ := h.get_eq s hs he ha
    exact ⟨t, by rw [run_bind_ok ht]; rfl, hadv⟩

/-- What a fixed-width word is on the wire. -/
def wire (host e : Endian) {n : Nat} (v : BitVec (8 * n)) : List UInt8 :=
  memBytes host (if e ≠ host then byteswap v else v)

theorem length_wire (host e : Endian) {n : Nat} (v : BitVec (8 * n)) :
    (wire host e v).length = n := length_memBytes host _

theorem wire_ne_nil (host e : Endian) {n : Nat} (hn : 1 ≤ n) (v : BitVec (8 * n)) :
    wire host e v ≠ [] := by
  rw [← List.length_pos_iff, length_wire]
  exact hn

theorem readF_wire {host : Endian} {n : Nat} (hn : 1 ≤ n) (v : BitVec (8 * n)) {s : ByteArray}
    (h : s.Inv) (ha : Ahead (wire host s.m_endian v) s) :
    ∃ t, readF host n s = .ok v t ∧ Advanced n s t := by
  obtain ⟨t, ht, hadv⟩ := read_ahead h (wire_ne_nil host _ hn v) ha
  rw [length_wire] at ht hadv
  refine ⟨t, ?_, hadv⟩
  rw [readF, run_bind_ok ht, run_bind_ok (run_get t), run_pure, hadv.endian, wire, ofMem_memBytes]
  by_cases he : s.m_endian = host
  · rw [if_pos he, if_neg (not_not.mpr he)]
  · rw [if_neg he, if_pos he, byteswap_byteswap]

theorem writeF_roundTrips (host e : Endian) {n : Nat} (hn : 1 ≤ n) (v : BitVec (8 * n)) :
    RoundTrips e (fun junk => writeF host junk v) (readF host n) v (wire host e v) where
  put_eq := by
    rintro junk s rfl
    rw [writeF, run_bind_ok (run_get s)]
    rfl
  get_eq := by
    rintro s hs rfl ha
    rw [length_wire]
    exact readF_wire hn v hs ha

/-- The formats of one byte, which is the same in both byte orders. -/
theorem writeByte_roundTrips (host e : Endian) (v : BitVec (8 * 1)) :
    RoundTrips e (fun junk => writeByte host junk v) (readByte host) v (memBytes host v) where
  put_eq := fun _ _ _ => rfl
  get_eq := by
    intro s hs _ ha
    have hne : memBytes host v ≠ [] := by
      rw [← List.length_pos_iff, length_memBytes]; decide
    obtain ⟨t, ht, hadv⟩ := read_ahead hs hne ha
    refine ⟨t, ?_, hadv⟩
    rw [length_memBytes] at ht
    rw [readByte, run_bind_ok ht, run_pure, ofMem_memBytes]

theorem readFuint8_ahead (host : Endian) (b : UInt8) (bs : List UInt8) {s : ByteArray} (h : s.Inv)
    (ha : Ahead (b :: bs) s) : ∃ t, readFuint8 host s = .ok b t ∧ Advanced 1 s t := by
  have hone : Ahead [b] s := Ahead.front (show Ahead ([b] ++ bs) s from ha)
  have hmem : memBytes host (n := 1) b.toBitVec = [b] := by
    cases host <;> simp [memBytes, leBytes]
  obtain ⟨t, ht, hadv⟩ := ((writeByte_roundTrips host s.m_endian b.toBitVec).map
    fun v => (⟨v⟩ : UInt8)).get_eq s h rfl (by rw [hmem]; exact hone)
  rw [hmem] at hadv
  exact ⟨t, ht, hadv⟩

/-- The varint formats of `w` bits: `room` bytes hold the groups of any word, and
the reading loop runs at least as often. -/
theorem writeVarint_roundTrips (host e : Endian) {w : Nat} (room : Nat) (hw : 8 ≤ w)
    (hroom : 2 ^ w ≤ 128 ^ room) (hloop : room ≤ (w + 6) / 7) (v : BitVec w) :
    ∃ bs, encodeGroups room v = some bs ∧
      RoundTrips e (fun junk => writeVarint junk room v) (readVarint host w) v bs := by
  have hpos : 0 < room := by
    rcases Nat.eq_zero_or_pos room with rfl | h
    · have : 2 ^ 8 ≤ 2 ^ w := Nat.pow_le_pow_right (by decide) hw
      omega
    · exact h
  obtain ⟨bs, hbs, hleb, hlen⟩ :=
    encodeGroups_leb hw (Nat.lt_of_lt_of_le v.isLt hroom) hpos
  refine ⟨bs, hbs, ⟨fun junk s _ => by rw [writeVarint, hbs], ?_⟩⟩
  intro s hs _ ha
  -- what the loop keeps: the groups not yet read lie ahead of the object it has
  have hnext : ∀ b rest u, (u.Inv ∧ Ahead (b :: rest) u ∧ ∃ n, n + (rest.length + 1) = bs.length ∧
        Advanced n s u) →
      ∃ t, readFuint8 host u = .ok b t ∧ (t.Inv ∧ Ahead rest t ∧
        ∃ n, n + rest.length = bs.length ∧ Advanced n s t) := by
    rintro b rest u ⟨hu, hau, n, hn, hadv⟩
    obtain ⟨t, ht, hadv'⟩ := readFuint8_ahead host b rest hu hau
    exact ⟨t, ht, hadv'.inv, Ahead.advance (show Ahead ([b] ++ rest) u from hau) hadv',
      n + 1, by omega, hadv.trans hadv'⟩
  obtain ⟨t, ht, -, -, n, hn, hadv⟩ := Leb.decode
    (fun rest u => u.Inv ∧ Ahead rest u ∧
      ∃ n, n + rest.length = bs.length ∧ Advanced n s u)
    hnext hw hleb (Nat.le_trans hlen hloop) (by omega) []
    ⟨hs, by rw [List.append_nil]; exact ha, 0, by simp, Advanced.refl hs⟩
  refine ⟨t, ?_, by rw [← hn]; exact hadv⟩
  rw [readVarint, shifts, List.range_eq_range', ht]
  simp

/-- **Every format round-trips**, in either byte order. -/
theorem fmt_roundTrips (host e : Endian) (fmt : Fmt) (v : fmt.Val) :
    ∃ bs, RoundTrips e (fun junk => fmt.write host junk v) (fmt.read host) v bs := by
  -- the varint formats, on which the signed ones rest through zigzag
  have h32 : ∀ u : UInt32, ∃ bs,
      RoundTrips e (fun junk => writeUint32 junk u) (readUint32 host) u bs := by
    intro u
    obtain ⟨bs, -, h⟩ := writeVarint_roundTrips host e 5 (by decide) (by decide)
      (by decide) u.toBitVec
    exact ⟨bs, h.map fun v => (⟨v⟩ : UInt32)⟩
  have h64 : ∀ u : UInt64, ∃ bs,
      RoundTrips e (fun junk => writeUint64 junk u) (readUint64 host) u bs := by
    intro u
    obtain ⟨bs, -, h⟩ := writeVarint_roundTrips host e 10 (by decide) (by decide)
      (by decide) u.toBitVec
    exact ⟨bs, h.map fun v => (⟨v⟩ : UInt64)⟩
  cases fmt with
  | fint8 => exact ⟨_, (writeByte_roundTrips host e _).map fun v => (⟨⟨v⟩⟩ : Int8)⟩
  | fuint8 => exact ⟨_, (writeByte_roundTrips host e _).map fun v => (⟨v⟩ : UInt8)⟩
  | fint16 => exact ⟨_, (writeF_roundTrips host e (n := 2) (by decide) _).map
      fun v => (⟨⟨v⟩⟩ : Int16)⟩
  | fuint16 => exact ⟨_, (writeF_roundTrips host e (n := 2) (by decide) _).map
      fun v => (⟨v⟩ : UInt16)⟩
  | fint32 => exact ⟨_, (writeF_roundTrips host e (n := 4) (by decide) _).map
      fun v => (⟨⟨v⟩⟩ : Int32)⟩
  | fuint32 | float => exact ⟨_, (writeF_roundTrips host e (n := 4) (by decide) _).map
      fun v => (⟨v⟩ : UInt32)⟩
  | fint64 => exact ⟨_, (writeF_roundTrips host e (n := 8) (by decide) _).map
      fun v => (⟨⟨v⟩⟩ : Int64)⟩
  | fuint64 | double => exact ⟨_, (writeF_roundTrips host e (n := 8) (by decide) _).map
      fun v => (⟨v⟩ : UInt64)⟩
  | uint32 => exact h32 v
  | uint64 => exact h64 v
  | int32 =>
      obtain ⟨bs, h⟩ := h32 (EncodeZigzag32 v)
      have hv : DecodeZigzag32 (EncodeZigzag32 v) = v := by
        rw [DecodeZigzag32, EncodeZigzag32, zigzagDecode_encode]; rfl
      have hmap := h.map DecodeZigzag32
      rw [hv] at hmap
      exact ⟨bs, hmap⟩
  | int64 =>
      obtain ⟨bs, h⟩ := h64 (EncodeZigzag64 v)
      have hv : DecodeZigzag64 (EncodeZigzag64 v) = v := by
        rw [DecodeZigzag64, EncodeZigzag64, zigzagDecode_encode]; rfl
      have hmap := h.map DecodeZigzag64
      rw [hv] at hmap
      exact ⟨bs, hmap⟩

/-! ### Written windows -/

/-- The old contents stay in front of what `addCapacity` adds. -/
theorem Grown.bytes {size : Nat} {s t : ByteArray} {junk : Junk} (h : Grown size s t junk) :
    ∃ more, t.bytes = s.bytes ++ more := by
  unfold ByteArray.bytes
  rw [h.grown]
  split
  · exact ⟨[], (List.append_nil _).symm⟩
  · exact ⟨_, content_append _ _⟩

/-- What was just written is there. -/
theorem Wrote.window {buf : List UInt8} {s t : ByteArray} {junk : Junk} (h : Wrote buf s t junk) :
    slice t.bytes s.m_position buf.length = buf := by
  obtain ⟨g, hG, -, hbytes⟩ := h.grown
  have hroom := hG.room
  rw [hG.position] at hroom
  rw [hbytes, slice_splice_self (by rw [hG.inv.length_bytes]; exact hroom)]

/-- What lies before the position stays. -/
theorem Wrote.before {buf : List UInt8} {s t : ByteArray} {junk : Junk} (hs : s.Inv)
    (h : Wrote buf s t junk) {q n : Nat} (hq : q + n ≤ s.m_position) :
    slice t.bytes q n = slice s.bytes q n := by
  obtain ⟨g, hG, -, hbytes⟩ := h.grown
  obtain ⟨more, hmore⟩ := hG.bytes
  have hcap := hs.pos_le_capacity
  rw [hbytes, slice_splice_of_disjoint (.inl hq), hmore,
    slice_append_left (by rw [hs.length_bytes]; omega)]

end ByteArray

/-! ### Lists of values -/

/-- A value with its format and the byte order to write it in. -/
structure Item where
  fmt : Fmt
  val : fmt.Val
  le : Bool

/-- `setIsLittleEndian(le)`, then the write of the format. -/
def Item.write (host : Endian) (junk : Junk) (it : Item) : M Unit := do
  setIsLittleEndian it.le
  it.fmt.write host junk it.val

/-- The value read back, with its format. -/
def Item.value (it : Item) : Σ fmt : Fmt, fmt.Val := ⟨it.fmt, it.val⟩

/-- `setIsLittleEndian(le)`, then the read of the format. -/
def readItem (host : Endian) (tag : Fmt × Bool) : M (Σ fmt : Fmt, fmt.Val) := do
  setIsLittleEndian tag.2
  let v ← tag.1.read host
  pure ⟨tag.1, v⟩

/-- Write the items in order; `junks k` is the memory for the `k`-th of them. -/
def writeAll (host : Endian) : (junks : Nat → Junk) → List Item → M Unit
  | _, [] => pure ()
  | junks, it :: its => do
      it.write host (junks 0)
      writeAll host (fun k => junks (k + 1)) its

/-- Read values of the given formats, in the given byte orders. -/
def readAll (host : Endian) : List (Fmt × Bool) → M (List (Σ fmt : Fmt, fmt.Val))
  | [] => pure []
  | tag :: tags => do
      let v ← readItem host tag
      let vs ← readAll host tags
      pure (v :: vs)

/-- The byte order `setIsLittleEndian(le)` sets. -/
def orderOf (le : Bool) : Endian := if le then .little else .big

/-- `bs` is what item `it` is on the wire. -/
def Item.On (host : Endian) (it : Item) (bs : List UInt8) : Prop :=
  RoundTrips (orderOf it.le) (fun junk => it.fmt.write host junk it.val) (it.fmt.read host)
    it.val bs

theorem setIsLittleEndian_run (le : Bool) (s : ByteArray) :
    setIsLittleEndian le s = .ok () { s with m_endian := orderOf le } := rfl

theorem inv_setEndian {s : ByteArray} (hs : s.Inv) (e : Endian) :
    ByteArray.Inv { s with m_endian := e } :=
  ⟨hs.base_pos, hs.root, hs.blocks, hs.capacity, hs.pos_le_size, hs.size_le_capacity, hs.cur⟩

/-- One item written: its bytes lie behind the old position, and what lay before
stays. -/
theorem Item.write_spec {host : Endian} {it : Item} {bs : List UInt8} (h : it.On host bs)
    (junk : Junk) {s : ByteArray} (hs : s.Inv) :
    ∃ t, it.write host junk s = .ok () t ∧ t.Inv ∧
      t.m_position = s.m_position + bs.length ∧
      slice t.bytes s.m_position bs.length = bs ∧
      ∀ q n, q + n ≤ s.m_position → slice t.bytes q n = slice s.bytes q n := by
  have hs' := inv_setEndian hs (orderOf it.le)
  obtain ⟨t, ht, hW⟩ := ByteArray.write_spec hs' junk bs
  refine ⟨t, ?_, hW.inv, hW.position, hW.window, fun q n hq => hW.before hs' hq⟩
  rw [Item.write, run_bind_ok (setIsLittleEndian_run it.le s), h.put_eq junk _ rfl, ht]

theorem readItem_spec {host : Endian} {it : Item} {bs rest : List UInt8} (h : it.On host bs)
    {s : ByteArray} (hs : s.Inv) (ha : Ahead (bs ++ rest) s) :
    ∃ t, readItem host (it.fmt, it.le) s = .ok it.value t ∧ t.Inv ∧
      t.m_position = s.m_position + bs.length ∧ Ahead rest t := by
  have hs' := inv_setEndian hs (orderOf it.le)
  have ha' : Ahead (bs ++ rest) { s with m_endian := orderOf it.le } := ⟨ha.len, ha.window⟩
  obtain ⟨t, ht, hadv⟩ := h.get_eq _ hs' rfl ha'.front
  refine ⟨t, ?_, hadv.inv, hadv.position, ha'.advance hadv⟩
  rw [readItem, run_bind_ok (setIsLittleEndian_run it.le s), run_bind_ok ht]
  rfl

/-- All items written: their bytes lie one behind the other from the old position
on. -/
theorem writeAll_spec {host : Endian} {items : List Item} {bss : List (List UInt8)}
    (h : List.Forall₂ (Item.On host) items bss) (junks : Nat → Junk) {s : ByteArray}
    (hs : s.Inv) :
    ∃ t, writeAll host junks items s = .ok () t ∧ t.Inv ∧
      t.m_position = s.m_position + bss.flatten.length ∧
      slice t.bytes s.m_position bss.flatten.length = bss.flatten ∧
      ∀ q n, q + n ≤ s.m_position → slice t.bytes q n = slice s.bytes q n := by
  induction h generalizing junks s with
  | nil => exact ⟨s, rfl, hs, rfl, slice_zero _ _, fun _ _ _ => rfl⟩
  | @cons it bs items bss hit _ ih =>
      obtain ⟨t, ht, htinv, htpos, htwin, htbefore⟩ := Item.write_spec hit (junks 0) hs
      obtain ⟨u, hu, huinv, hupos, huwin, hubefore⟩ := ih (fun k => junks (k + 1)) htinv
      refine ⟨u, ?_, huinv, ?_, ?_, ?_⟩
      · rw [writeAll, run_bind_ok ht, hu]
      · rw [hupos, htpos, List.flatten_cons, List.length_append, Nat.add_assoc]
      · rw [List.flatten_cons, List.length_append, slice_add, ← htpos, huwin,
          hubefore _ _ (by omega), htwin]
      · intro q n hq
        rw [hubefore q n (by omega), htbefore q n hq]

theorem readAll_spec {host : Endian} {items : List Item} {bss : List (List UInt8)}
    (h : List.Forall₂ (Item.On host) items bss) {s : ByteArray} (hs : s.Inv)
    (ha : Ahead bss.flatten s) :
    ∃ t, readAll host (items.map fun it => (it.fmt, it.le)) s = .ok (items.map Item.value) t ∧
      t.m_position = s.m_position + bss.flatten.length := by
  induction h generalizing s with
  | nil => exact ⟨s, rfl, rfl⟩
  | @cons it bs items bss hit _ ih =>
      rw [List.flatten_cons] at ha
      obtain ⟨t, ht, htinv, htpos, hta⟩ := readItem_spec hit hs ha
      obtain ⟨u, hu, hupos⟩ := ih htinv hta
      refine ⟨u, ?_, ?_⟩
      · rw [List.map_cons, readAll, run_bind_ok ht, run_bind_ok hu]
        rfl
      · rw [hupos, htpos, List.flatten_cons, List.length_append, Nat.add_assoc]

/-- Every list of items has its bytes. -/
theorem exists_on (host : Endian) (items : List Item) :
    ∃ bss, List.Forall₂ (Item.On host) items bss := by
  induction items with
  | nil => exact ⟨[], .nil⟩
  | cons it items ih =>
      obtain ⟨bss, hbss⟩ := ih
      obtain ⟨bs, hbs⟩ := fmt_roundTrips host (orderOf it.le) it.fmt it.val
      exact ⟨bs :: bss, .cons hbs hbss⟩

/-- **Typed codec round trip**: in every reachable object, at position `p`, any
list of values written each in its format and byte order, then `setPosition(p)`,
are read back in the same formats and byte orders; nothing throws, and the
position is the one after the last write. -/
theorem readAll_writeAll (host : Endian) (max_size : Nat) {B : Nat} (hB : 1 ≤ B) (junk : Junk)
    (calls : List Call) {s : ByteArray}
    (hs : runCalls host max_size B junk calls = some s) (junks : Nat → Junk)
    (items : List Item) :
    ∃ t u v, writeAll host junks items s = .ok () t ∧
      setPosition s.m_position t = .ok () u ∧
      readAll host (items.map fun it => (it.fmt, it.le)) u = .ok (items.map Item.value) v ∧
      v.m_position = t.m_position := by
  obtain ⟨s', hrun, hinv, -⟩ := runCalls_sound host max_size hB junk calls
  obtain rfl : s' = s := Option.some.inj (hrun.symm.trans hs)
  obtain ⟨bss, hbss⟩ := exists_on host items
  obtain ⟨t, ht, htinv, htpos, htwin, -⟩ := writeAll_spec hbss junks hinv
  have hsize := htinv.pos_le_size
  obtain ⟨u, hu, huinv, heq⟩ := setPosition_spec htinv (v := s'.m_position)
    (by have := htinv.pos_le_capacity; omega)
  have hupos : u.m_position = s'.m_position := by rw [heq]
  have husize : u.m_size = max t.m_size s'.m_position := by rw [heq]
  have hubytes : u.bytes = t.bytes := by rw [heq]; rfl
  have ha : Ahead bss.flatten u := by
    refine ⟨?_, by rw [hubytes, hupos, htwin]⟩
    unfold getReadSize
    omega
  obtain ⟨v, hv, hvpos⟩ := readAll_spec hbss huinv ha
  exact ⟨t, u, v, ht, hu, hv, by rw [hvpos, hupos, htpos]⟩

/-- The least 32-bit word as a varint, and a big-endian word, over blocks of two
bytes from position 1 on. -/
theorem readAll_writeAll_two :
    ∃ s t u v,
      runCalls .little 64 2 (fun _ _ => 0)
        [.op (.write (fun _ _ => 0) [1, 2, 3]), .op (.setPosition 1)] = some s ∧
      writeAll .little (fun _ _ _ => 0)
        [⟨.int32, -2147483648, true⟩, ⟨.fuint16, 258, false⟩] s = .ok () t ∧
      setPosition s.m_position t = .ok () u ∧
      readAll .little [(.int32, true), (.fuint16, false)] u =
        .ok [⟨.int32, (-2147483648 : Int32)⟩, ⟨.fuint16, (258 : UInt16)⟩] v ∧
      v.m_position = t.m_position := by
  have hB : 1 ≤ 2 := by decide
  obtain ⟨s, hs, -⟩ := runCalls_sound .little 64 hB (fun _ _ => 0)
    [.op (.write (fun _ _ => 0) [1, 2, 3]), .op (.setPosition 1)]
  obtain ⟨t, u, v, h⟩ := readAll_writeAll .little 64 hB (fun _ _ => 0) _ hs (fun _ _ _ => 0)
    [⟨.int32, -2147483648, true⟩, ⟨.fuint16, 258, false⟩]
  exact ⟨s, t, u, v, hs, h⟩

end Will
