/-
ZjhServer/ByteArray/Runs.lean

The representation invariant over whole runs.  A `Call` is any member function
that moves bytes, typed or not, or sets the byte order; the caller catches what
it throws and goes on.  Every call keeps `ByteArray.Inv` and none is undefined
(`exec_keeps`), so the invariant holds after every run (`runCalls_sound`).
-/
import ZjhServer.ByteArray.Typed
import ZjhServer.ByteArray.Flat

namespace Will

open Effect Will.ByteArray

/-- Throws nothing undefined. -/
abbrev Exn.Mild (e : Exn) : Prop := e.fatal = false

namespace ByteArray

/-! ### Every member function keeps the invariant -/

/-- The invariant of an array whose base size is `B`. -/
structure Sound (B : Nat) (s : ByteArray) : Prop where
  inv : s.Inv
  base : s.m_baseSize = B

variable {B : Nat}

theorem write_keeps (junk : Junk) (buf : List UInt8) :
    Keeps (Sound B) Exn.Mild (write junk buf) := by
  intro s hs
  obtain ⟨t, ht, hW⟩ := write_spec hs.inv junk buf
  exact wp_of_ok ht ⟨hW.inv, hW.base.trans hs.base⟩

theorem read_keeps {n : Nat} (hn : 1 ≤ n) : Keeps (Sound B) Exn.Mild (read n) := by
  intro s hs
  by_cases hlong : s.getReadSize < n
  · exact wp_of_error (read_throws hlong) ⟨rfl, hs⟩
  · obtain ⟨t, ht, hinv, heq⟩ := read_spec hs.inv hn (by omega)
    exact wp_of_ok ht ⟨hinv, by rw [heq]; exact hs.base⟩

/-- `read`, with a read of no bytes leaving the object alone. -/
def readSome (n : Nat) : M (List UInt8) := if n = 0 then pure [] else read n

theorem readSome_keeps (n : Nat) : Keeps (Sound B) Exn.Mild (readSome n) := by
  unfold readSome
  split
  · exact Keeps.pure _
  · exact read_keeps (by omega)

theorem setPosition_keeps (v : Nat) : Keeps (Sound B) Exn.Mild (setPosition v) := by
  intro s hs
  by_cases hv : s.m_capacity < v
  · exact wp_of_error (setPosition_throws hv) ⟨rfl, hs⟩
  · obtain ⟨t, ht, hinv, heq⟩ := setPosition_spec hs.inv (by omega : v ≤ s.m_capacity)
    exact wp_of_ok ht ⟨hinv, by rw [heq]; exact hs.base⟩

theorem clear_keeps : Keeps (Sound B) Exn.Mild clear := by
  intro s hs
  obtain ⟨t, ht, hinv, heq⟩ := clear_spec hs.inv
  exact wp_of_ok ht ⟨hinv, by rw [heq]; exact hs.base⟩

theorem getWriteBuffers_keeps (junk : Junk) (len : Nat) :
    Keeps (Sound B) Exn.Mild (getWriteBuffers junk len) := by
  intro s hs
  obtain ⟨t, iovs, ht, hG, -⟩ := getWriteBuffers_spec hs.inv junk len
  exact wp_of_ok ht ⟨hG.inv, hG.base.trans hs.base⟩

/-- The byte order is no part of the representation. -/
theorem setIsLittleEndian_keeps (val : Bool) : Keeps (Sound B) Exn.Mild (setIsLittleEndian val) :=
  fun _ ⟨hs, hB⟩ => ⟨⟨hs.base_pos, hs.root, hs.blocks, hs.capacity, hs.pos_le_size,
    hs.size_le_capacity, hs.cur⟩, hB⟩

theorem writeF_keeps (host : Endian) (junk : Junk) {n : Nat} (value : BitVec (8 * n)) :
    Keeps (Sound B) Exn.Mild (writeF host junk value) :=
  Keeps.get_bind fun _ => write_keeps junk _

/-- The groups of a word fit in the local array when `128 ^ room` exceeds every
word of that width. -/
theorem writeVarint_keeps (junk : Junk) {w room : Nat} (hw : 8 ≤ w) (hroom : 2 ^ w ≤ 128 ^ room)
    (value : BitVec w) : Keeps (Sound B) Exn.Mild (writeVarint junk room value) := by
  have hpos : 0 < room := by
    rcases Nat.eq_zero_or_pos room with rfl | h
    · have : 2 ^ 8 ≤ 2 ^ w := Nat.pow_le_pow_right (by decide) hw
      omega
    · exact h
  obtain ⟨bs, hbs, -, -⟩ :=
    Wire.encodeGroups_leb hw (Nat.lt_of_lt_of_le value.isLt hroom) hpos
  rw [writeVarint, hbs]
  exact write_keeps junk bs

theorem writeUint64_keeps (junk : Junk) (value : UInt64) :
    Keeps (Sound B) Exn.Mild (writeUint64 junk value) :=
  writeVarint_keeps junk (by decide) (by decide) _

theorem fmt_write_keeps (host : Endian) (junk : Junk) (fmt : Fmt) (v : fmt.Val) :
    Keeps (Sound B) Exn.Mild (fmt.write host junk v) := by
  cases fmt with
  | fint8 | fuint8 => exact write_keeps junk _
  | fint16 | fuint16 | fint32 | fuint32 | fint64 | fuint64 | float | double =>
      exact writeF_keeps host junk _
  | int32 | uint32 => exact writeVarint_keeps junk (by decide) (by decide) _
  | int64 | uint64 => exact writeVarint_keeps junk (by decide) (by decide) _

theorem readF_keeps (host : Endian) {n : Nat} (hn : 1 ≤ n) :
    Keeps (Sound B) Exn.Mild (readF host n) :=
  (read_keeps hn).bind fun _ => Keeps.get_bind fun _ => Keeps.pure _

theorem readByte_keeps (host : Endian) : Keeps (Sound B) Exn.Mild (readByte host) :=
  (read_keeps (by decide)).bind fun _ => Keeps.pure _

theorem readFuint8_keeps (host : Endian) : Keeps (Sound B) Exn.Mild (readFuint8 host) :=
  (readByte_keeps host).bind fun _ => Keeps.pure _

theorem readVarint_keeps (host : Endian) (w : Nat) : Keeps (Sound B) Exn.Mild (readVarint host w) :=
  Wire.decodeGroups_keeps (readFuint8_keeps host) _ _

theorem readUint64_keeps (host : Endian) : Keeps (Sound B) Exn.Mild (readUint64 host) :=
  (readVarint_keeps host 64).bind fun _ => Keeps.pure _

theorem fmt_read_keeps (host : Endian) (fmt : Fmt) : Keeps (Sound B) Exn.Mild (fmt.read host) := by
  cases fmt with
  | fint8 | fuint8 => exact (readByte_keeps host).bind fun _ => Keeps.pure _
  | fint16 | fuint16 | fint32 | fuint32 | fint64 | fuint64 | float | double =>
      exact (readF_keeps host (by decide)).bind fun _ => Keeps.pure _
  | uint32 => exact (readVarint_keeps host 32).bind fun _ => Keeps.pure _
  | int32 =>
      exact ((readVarint_keeps host 32).bind fun _ => Keeps.pure _).bind fun _ => Keeps.pure _
  | uint64 => exact readUint64_keeps host
  | int64 => exact (readUint64_keeps host).bind fun _ => Keeps.pure _

theorem str_write_keeps (host : Endian) (junk body : Junk) (value : List UInt8) (fmt : StrFmt) :
    Keeps (Sound B) Exn.Mild (fmt.write host junk body value) := by
  cases fmt with
  | f16 | f32 | f64 => exact (writeF_keeps host junk _).bind fun _ => write_keeps body value
  | vint => exact (writeUint64_keeps junk _).bind fun _ => write_keeps body value

theorem readString_keeps {rd : Nat → M (List UInt8)} (hrd : ∀ n, Keeps (Sound B) Exn.Mild (rd n))
    (max_size len : Nat) : Keeps (Sound B) Exn.Mild (readString rd max_size len) := by
  unfold readString
  split
  · exact Keeps.throw rfl
  · exact hrd len

theorem str_read_keeps (host : Endian) {rd : Nat → M (List UInt8)}
    (hrd : ∀ n, Keeps (Sound B) Exn.Mild (rd n)) (max_size : Nat) (fmt : StrFmt) :
    Keeps (Sound B) Exn.Mild (fmt.read host rd max_size) := by
  have hlen : ∀ n, Keeps (Sound B) Exn.Mild (readString rd max_size n) :=
    readString_keeps hrd max_size
  cases fmt with
  | f16 | f32 | f64 =>
      exact ((readF_keeps host (by decide)).bind fun _ => Keeps.pure _).bind fun _ => hlen _
  | vint => exact (readUint64_keeps host).bind fun _ => hlen _

end ByteArray

/-! ### Runs -/

/-- A call of a member function. -/
inductive Call
  | op (o : Op)
  | setIsLittleEndian (val : Bool)
  | write (junk : Junk) (fmt : Fmt) (v : fmt.Val)
  | read (fmt : Fmt)
  | writeString (junk body : Junk) (fmt : StrFmt) (value : List UInt8)
  | writeStringWithoutLength (junk : Junk) (value : List UInt8)
  | readString (fmt : StrFmt)

/-- The effect of a call; what it returns is dropped.  A read of no bytes is taken
as leaving the object alone. -/
def Call.exec (host : Endian) (max_size : Nat) : Call → M Unit
  | op (.read n) => do let _ ← readSome n; pure ()
  | op o => do let _ ← o.exec; pure ()
  | setIsLittleEndian val => ByteArray.setIsLittleEndian val
  | write junk fmt v => fmt.write host junk v
  | read fmt => do let _ ← fmt.read host; pure ()
  | writeString junk body fmt value => fmt.write host junk body value
  | writeStringWithoutLength junk value => ByteArray.writeStringWithoutLength junk value
  | readString fmt => do let _ ← fmt.read host readSome max_size; pure ()

/-- **Every call keeps the invariant** and follows no null pointer. -/
theorem exec_keeps {B : Nat} (host : Endian) (max_size : Nat) (call : Call) :
    Keeps (Sound B) Exn.Mild (call.exec host max_size) := by
  cases call with
  | op o =>
      cases o with
      | write junk buf =>
          exact ((write_keeps junk buf).bind fun _ => Keeps.pure _).bind fun _ => Keeps.pure _
      | read n => exact (readSome_keeps n).bind fun _ => Keeps.pure _
      | setPosition v =>
          exact ((setPosition_keeps v).bind fun _ => Keeps.pure _).bind fun _ => Keeps.pure _
      | clear => exact (clear_keeps.bind fun _ => Keeps.pure _).bind fun _ => Keeps.pure _
      | getWriteBuffers junk len =>
          exact ((getWriteBuffers_keeps junk len).bind fun _ => Keeps.pure _).bind
            fun _ => Keeps.pure _
  | setIsLittleEndian val => exact setIsLittleEndian_keeps val
  | write junk fmt v => exact fmt_write_keeps host junk fmt v
  | read fmt => exact (fmt_read_keeps host fmt).bind fun _ => Keeps.pure _
  | writeString junk body fmt value => exact str_write_keeps host junk body value fmt
  | writeStringWithoutLength junk value => exact write_keeps junk value
  | readString fmt =>
      exact (str_read_keeps host readSome_keeps max_size fmt).bind fun _ => Keeps.pure _

/-- The object after a run of calls from the constructor; no result if a call
was undefined. -/
def runCalls (host : Endian) (max_size B : Nat) (junk : Junk) (calls : List Call) :
    Option ByteArray :=
  (runAll Exn.fatal (calls.map (Call.exec host max_size)) (ByteArray.new B junk)).map Prod.snd

theorem runCalls_sound (host : Endian) (max_size : Nat) {B : Nat} (hB : 1 ≤ B) (junk : Junk)
    (calls : List Call) :
    ∃ s, runCalls host max_size B junk calls = some s ∧ Sound B s := by
  have hcalls : ∀ m ∈ calls.map (Call.exec host max_size), Keeps (Sound B) Exn.Mild m := by
    intro m hm
    obtain ⟨call, -, rfl⟩ := List.mem_map.mp hm
    exact exec_keeps host max_size call
  obtain ⟨rs, s, hrun, hs⟩ :=
    runAll_keeps Exn.fatal _ hcalls ⟨new_inv hB junk, rfl⟩
  exact ⟨s, by rw [runCalls, hrun]; rfl, hs⟩

/-- **The representation invariant**, after every run of calls, thrown exceptions
included: the capacity is `B` times the number of nodes, each of size `B`; the
position, the size and the capacity are in order; the cursor is node number
`m_position / B`, null exactly at the end of the capacity.  No further call
follows a null pointer, and after `addCapacity(n)` there is room for `n` bytes. -/
theorem runCalls_representation (host : Endian) (max_size : Nat) {B : Nat} (hB : 1 ≤ B)
    (junk : Junk) (calls : List Call) :
    ∃ s, runCalls host max_size B junk calls = some s ∧
      s.m_capacity = B * s.m_nodes.length ∧ (∀ n ∈ s.m_nodes, n.size = B) ∧
      s.m_position ≤ s.m_size ∧ s.m_size ≤ s.m_capacity ∧
      s.m_cur = (if s.m_position / B < s.m_nodes.length then some (s.m_position / B) else none) ∧
      (s.m_cur = none ↔ s.m_position = s.m_capacity) ∧
      (∀ call e t, Call.exec host max_size call s = .error e t → e ≠ .nullptr) ∧
      ∀ junk' n, ∃ t, addCapacity junk' n s = .ok () t ∧ n ≤ t.getCapacity := by
  obtain ⟨s, hrun, hs, rfl⟩ := runCalls_sound host max_size hB junk calls
  refine ⟨s, hrun, hs.capacity, hs.blocks, hs.pos_le_size, hs.size_le_capacity, hs.cur,
    hs.cur_eq_none_iff, ?_, ?_⟩
  · rintro call e t hexec rfl
    have hmild := ((exec_keeps host max_size call).error ⟨hs, rfl⟩ hexec).1
    cases hmild
  · intro junk' n
    obtain ⟨t, ht, hG⟩ := addCapacity_spec hs junk' n
    have hroom := hG.room
    exact ⟨t, ht, by unfold getCapacity; omega⟩

theorem runCalls_representation_two :
    ∃ s, runCalls .little 64 2 (fun _ _ => 0)
        [.op (.write (fun _ _ => 7) [1, 2, 3]), .read .fuint16, .op (.setPosition 4)] = some s ∧
      s.m_capacity = 2 * s.m_nodes.length ∧ (s.m_cur = none ↔ s.m_position = s.m_capacity) := by
  obtain ⟨s, hrun, hcap, -, -, -, -, hcur, -⟩ :=
    runCalls_representation .little 64 (by decide : 1 ≤ 2) (fun _ _ => 0)
      [.op (.write (fun _ _ => 7) [1, 2, 3]), .read .fuint16, .op (.setPosition 4)]
  exact ⟨s, hrun, hcap, hcur⟩

end Will
