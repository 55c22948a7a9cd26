/-
ZjhServer/ByteArray/Basic.lean

`ByteArray` (server/bytearray.{h,cc}): a growing byte buffer over a chain of
blocks of one size, with a position that reads and writes move.

The member functions run in `EStateM Exn ByteArray`: an exception leaves the
object as it is at the `throw`.  A null dereference is undefined behaviour in
the source; here it is the exception `nullptr`, which no caller may ever see.
`size_t` is `Nat` (no sum wraps), and `ceil(1.0 * size / m_baseSize)` is the
exact ceiling.
-/
import ZjhServer.ByteArray.Node
import ZjhServer.Lib.Wire

namespace Will

/-- What a member function can throw: `std::out_of_range`, and `std::length_error`
from `std::string::resize`.  The other two are not exceptions of the source but
its undefined behaviour, a null pointer followed and a write behind the end of a
local array. -/
inductive Exn
  | out_of_range
  | length_error
  | nullptr
  | stack_overrun
  deriving DecidableEq, Repr

/-- Undefined behaviour, as opposed to an exception a caller can catch. -/
def Exn.fatal : Exn → Bool
  | .out_of_range => false
  | .length_error => false
  | .nullptr => true
  | .stack_overrun => true

/-- `WILL_LITTLE_ENDIAN`, `WILL_BIG_ENDIAN` (server/endian.h) -/
abbrev Endian := Wire.Order

/-- The data members.  `m_root` is the head of `m_nodes`; `m_cur` is the number
of a node, or null. -/
structure ByteArray where
  m_baseSize : Nat
  m_position : Nat
  m_capacity : Nat
  m_size : Nat
  m_endian : Endian
  m_nodes : List Node
  m_cur : Option Nat

/-- What fresh memory holds: byte `i` of the `j`-th block allocated by a call. -/
abbrev Junk := Nat → Nat → UInt8

namespace ByteArray

abbrev M := EStateM Exn ByteArray

/-- `ByteArray::ByteArray(size_t base_size)` -/
def new (base_size : Nat) (junk : Junk) : ByteArray where
  m_baseSize := base_size
  m_position := 0
  m_capacity := base_size
  m_size := 0
  m_endian := .big
  m_nodes := [Node.new base_size (junk 0)]
  m_cur := some 0

def getReadSize (s : ByteArray) : Nat := s.m_size - s.m_position

def getCapacity (s : ByteArray) : Nat := s.m_capacity - s.m_position

def isLittleEndian (s : ByteArray) : Bool := s.m_endian = .little

def setIsLittleEndian (val : Bool) : M Unit := fun s =>
  .ok () { s with m_endian := if val then .little else .big }

/-- `size_t count = ceil(1.0 * size / m_baseSize)` -/
def nodeCount (size base : Nat) : Nat := (size + base - 1) / base

/-- The blocks of `count` calls of `new Node(m_baseSize)`. -/
def newNodes (base count : Nat) (junk : Junk) : List Node :=
  (List.range count).map fun j => Node.new base (junk j)

def addCapacity (junk : Junk) (size : Nat) : M Unit := fun s =>
  if size = 0 then .ok () s
  else if s.getCapacity ≥ size then .ok () s
  else if s.m_nodes = [] then .error .nullptr s   -- `tmp->next` of a null root
  else
    let old_cap := s.getCapacity
    let count := nodeCount (size - old_cap) s.m_baseSize
    let first := if count = 0 then none else some s.m_nodes.length
    .ok () { s with
      m_nodes := s.m_nodes ++ newNodes s.m_baseSize count junk
      m_capacity := s.m_capacity + s.m_baseSize * count
      m_cur := if old_cap = 0 then first else s.m_cur }

/-- The pieces the copy loop visits for `size > 0` bytes from `m_position` on, and
the cursor behind them. -/
def walkFrom (size : Nat) (s : ByteArray) : Option (List Iov × Option Nat) :=
  s.m_cur.bind fun c => walk (s.m_nodes.drop c) c (s.m_position % s.m_baseSize) size

/-- `write`, after `addCapacity` -/
def copyIn (buf : List UInt8) : M Unit := fun s =>
  match s.walkFrom buf.length with
  | none => .error .nullptr s
  | some (iovs, cur) =>
      let pos := s.m_position + buf.length
      .ok () { s with
        m_nodes := scatter s.m_nodes iovs buf
        m_cur := cur
        m_position := pos
        m_size := if pos > s.m_size then pos else s.m_size }

def write (junk : Junk) (buf : List UInt8) : M Unit :=
  if buf.length = 0 then pure ()
  else do
    addCapacity junk buf.length
    copyIn buf

/-- `read(void* buf, size_t size)`.  `m_cur->size` is evaluated before the loop,
so a null `m_cur` is followed even when `size` is 0. -/
def read (size : Nat) : M (List UInt8) := fun s =>
  if size > s.getReadSize then .error .out_of_range s
  else if s.m_cur = none then .error .nullptr s
  else if size = 0 then .ok [] s
  else
    match s.walkFrom size with
    | none => .error .nullptr s
    | some (iovs, cur) =>
        .ok (gather s.m_nodes iovs) { s with
          m_cur := cur
          m_position := s.m_position + size }

def setPosition (v : Nat) : M Unit := fun s =>
  if v > s.m_capacity then .error .out_of_range s
  else
    match seek s.m_nodes 0 v with
    | none => .error .nullptr s
    | some cur =>
        .ok () { s with
          m_position := v
          m_size := if v > s.m_size then v else s.m_size
          m_cur := cur }

def clear : M Unit := fun s =>
  if s.m_nodes = [] then .error .nullptr s   -- `m_root->next`
  else
    .ok () { s with
      m_position := 0
      m_size := 0
      m_capacity := s.m_baseSize
      m_nodes := s.m_nodes.take 1
      m_cur := some 0 }

/-- `getWriteBuffers(buffers, len)`: the number returned and the pieces appended
to `buffers`. -/
def getWriteBuffers (junk : Junk) (len : Nat) : M (Nat × List Iov) :=
  if len = 0 then pure (0, [])
  else do
    addCapacity junk len
    let s ← get
    match s.walkFrom len with
    | none => throw .nullptr
    | some (iovs, _) => pure (len, iovs)

/-! ### The representation invariant -/

/-- What every call finds and leaves: blocks of the base size and nothing else,
`m_position ≤ m_size ≤ m_capacity`, and the cursor on the node of the current
position, null behind the last one. -/
structure Inv (s : ByteArray) : Prop where
  base_pos : 0 < s.m_baseSize
  root : s.m_nodes ≠ []
  blocks : Blocks s.m_baseSize s.m_nodes
  capacity : s.m_capacity = s.m_baseSize * s.m_nodes.length
  pos_le_size : s.m_position ≤ s.m_size
  size_le_capacity : s.m_size ≤ s.m_capacity
  cur : s.m_cur = nodeAt s.m_baseSize s.m_nodes.length s.m_position

/-- The flat contents of the array, all of its capacity. -/
def bytes (s : ByteArray) : List UInt8 := content s.m_nodes

theorem Inv.length_bytes {s : ByteArray} (h : s.Inv) : s.bytes.length = s.m_capacity := by
  rw [bytes, h.blocks.length_content, h.capacity]

theorem Inv.pos_le_capacity {s : ByteArray} (h : s.Inv) : s.m_position ≤ s.m_capacity :=
  h.pos_le_size.trans h.size_le_capacity

/-- Node number `m_position / B` exists exactly below the capacity. -/
theorem Inv.div_lt_iff {s : ByteArray} (h : s.Inv) :
    s.m_position / s.m_baseSize < s.m_nodes.length ↔ s.m_position < s.m_capacity := by
  rw [h.capacity, Nat.div_lt_iff_lt_mul h.base_pos, Nat.mul_comm]

/-- The cursor is null exactly at the end of the capacity. -/
theorem Inv.cur_eq_none_iff {s : ByteArray} (h : s.Inv) :
    s.m_cur = none ↔ s.m_position = s.m_capacity := by
  have hle := h.pos_le_capacity
  rw [h.cur, nodeAt]
  split_ifs with hlt
  · rw [h.div_lt_iff] at hlt
    simp; omega
  · rw [h.div_lt_iff] at hlt
    simp; omega

theorem new_inv {B : Nat} (hB : 0 < B) (junk : Junk) : (new B junk).Inv where
  base_pos := hB
  root := by simp [new]
  blocks := by intro n hn; simp [new] at hn; simp [hn, new]
  capacity := by simp [new]
  pos_le_size := Nat.le_refl 0
  size_le_capacity := Nat.zero_le _
  cur := by simp [new, nodeAt]

/-! ### What each operation does to a well-formed array -/

theorem newNodes_blocks (base count : Nat) (junk : Junk) :
    Blocks base (newNodes base count junk) := by
  intro n hn
  obtain ⟨j, -, rfl⟩ := List.mem_map.mp hn
  rfl

@[simp] theorem newNodes_length (base count : Nat) (junk : Junk) :
    (newNodes base count junk).length = count := by
  simp [newNodes]

/-- The new blocks make up for what is missing. -/
theorem le_mul_nodeCount {base : Nat} (hbase : 0 < base) (size : Nat) :
    size ≤ base * nodeCount size base := by
  have h := Nat.div_add_mod (size + base - 1) base
  have hmod := Nat.mod_lt (size + base - 1) hbase
  unfold nodeCount
  omega

theorem nodeCount_pos {base size : Nat} (hbase : 0 < base) (hsize : 0 < size) :
    0 < nodeCount size base := Nat.div_pos (by omega) hbase

/-- What `addCapacity(size)` leaves: room for `size` bytes, the same contents with
blocks added behind, and nothing else changed. -/
structure Grown (size : Nat) (s t : ByteArray) (junk : Junk) : Prop where
  inv : t.Inv
  base : t.m_baseSize = s.m_baseSize
  position : t.m_position = s.m_position
  size_eq : t.m_size = s.m_size
  endian : t.m_endian = s.m_endian
  room : t.m_position + size ≤ t.m_capacity
  grown : t.m_nodes = if s.getCapacity ≥ size then s.m_nodes
    else s.m_nodes ++ newNodes s.m_baseSize (nodeCount (size - s.getCapacity) s.m_baseSize) junk

theorem addCapacity_spec {s : ByteArray} (h : s.Inv) (junk : Junk) (size : Nat) :
    ∃ t, addCapacity junk size s = .ok () t ∧ Grown size s t junk := by
  have hcap := h.pos_le_capacity
  unfold addCapacity
  by_cases h0 : size = 0
  · rw [if_pos h0]
    refine ⟨s, rfl, h, rfl, rfl, rfl, rfl, by omega, ?_⟩
    rw [if_pos (by omega)]
  · rw [if_neg h0]
    by_cases hroom : s.getCapacity ≥ size
    · rw [if_pos hroom]
      refine ⟨s, rfl, h, rfl, rfl, rfl, rfl, ?_, (if_pos hroom).symm⟩
      unfold getCapacity at hroom
      omega
    · rw [if_neg hroom, if_neg h.root]
      have hmiss : 0 < size - s.getCapacity := by omega
      have hcount := nodeCount_pos h.base_pos hmiss
      have hfill := le_mul_nodeCount h.base_pos (size - s.getCapacity)
      refine ⟨_, rfl, ?_, rfl, rfl, rfl, rfl, ?_, (if_neg hroom).symm⟩
      · refine ⟨h.base_pos, by simp [h.root], h.blocks.append (newNodes_blocks _ _ _), ?_,
          h.pos_le_size, h.size_le_capacity.trans (Nat.le_add_right ..), ?_⟩
        · simp only [List.length_append, newNodes_length, h.capacity, Nat.mul_add]
        · -- a cursor that was null gets the first new node, which is its node now
          simp only [List.length_append, newNodes_length]
          split_ifs with hfull hzero
          · omega
          · have hp : s.m_position = s.m_baseSize * s.m_nodes.length + 0 := by
              rw [← h.capacity]; unfold getCapacity at hfull; omega
            rw [hp, nodeAt_of_lt h.base_pos (by omega)]
          · have hlt : s.m_position < s.m_capacity := by unfold getCapacity at hfull; omega
            rw [← h.div_lt_iff] at hlt
            rw [h.cur, nodeAt, nodeAt, if_pos hlt, if_pos (by omega)]
      · have hfree : s.getCapacity = s.m_capacity - s.m_position := rfl
        simp only
        omega

/-- With room for `size > 0` bytes from position `p` on, a copy loop that starts there
meets no null pointer: its pieces tile the window, and it ends on the node of the first
byte behind it. -/
theorem walkAt_spec {s : ByteArray} (h : s.Inv) {p size : Nat} (hsize : 0 < size)
    (hroom : p + size ≤ s.m_capacity) :
    p / s.m_baseSize < s.m_nodes.length ∧
      ∃ iovs, walk (s.m_nodes.drop (p / s.m_baseSize)) (p / s.m_baseSize)
          (p % s.m_baseSize) size =
        some (iovs, nodeAt s.m_baseSize s.m_nodes.length (p + size)) ∧
      Tiles s.m_baseSize iovs p size := by
  have hcapacity := h.capacity
  have hdiv := Nat.div_add_mod p s.m_baseSize
  have hmod := Nat.mod_lt p h.base_pos
  have hlt : p / s.m_baseSize < s.m_nodes.length := by
    rw [Nat.div_lt_iff_lt_mul h.base_pos, Nat.mul_comm]
    omega
  have hmul : s.m_baseSize * s.m_nodes.length =
      s.m_baseSize * (p / s.m_baseSize) +
        s.m_baseSize * (s.m_nodes.drop (p / s.m_baseSize)).length := by
    rw [← Nat.mul_add, List.length_drop]
    congr 1
    omega
  obtain ⟨iovs, hw, ht⟩ := walk_tiles (h.blocks.drop (p / s.m_baseSize))
    (i := p / s.m_baseSize) hmod hsize (by omega)
  have hlen : p / s.m_baseSize + (s.m_nodes.drop (p / s.m_baseSize)).length =
      s.m_nodes.length := by
    rw [List.length_drop]; omega
  rw [hdiv, hlen] at hw
  rw [hdiv] at ht
  exact ⟨hlt, iovs, hw, ht⟩

/-- The copy loop of a call that starts at the cursor. -/
theorem walkFrom_spec {s : ByteArray} (h : s.Inv) {size : Nat} (hsize : 0 < size)
    (hroom : s.m_position + size ≤ s.m_capacity) :
    ∃ iovs, s.walkFrom size =
        some (iovs, nodeAt s.m_baseSize s.m_nodes.length (s.m_position + size)) ∧
      Tiles s.m_baseSize iovs s.m_position size := by
  obtain ⟨hlt, iovs, hw, ht⟩ := walkAt_spec h hsize hroom
  have hcur : s.m_cur = some (s.m_position / s.m_baseSize) := by
    rw [h.cur, nodeAt, if_pos hlt]
  exact ⟨iovs, by rw [walkFrom, hcur]; exact hw, ht⟩

theorem copyIn_spec {s : ByteArray} (h : s.Inv) {buf : List UInt8} (hbuf : 0 < buf.length)
    (hroom : s.m_position + buf.length ≤ s.m_capacity) :
    ∃ t, copyIn buf s = .ok () t ∧ t.Inv ∧ t.m_baseSize = s.m_baseSize ∧
      t.m_endian = s.m_endian ∧ t.m_capacity = s.m_capacity ∧
      t.m_position = s.m_position + buf.length ∧
      t.m_size = max s.m_size (s.m_position + buf.length) ∧
      t.bytes = Window.splice s.bytes s.m_position buf := by
  obtain ⟨iovs, hw, ht⟩ := walkFrom_spec h hbuf hroom
  have hcap := h.capacity
  have hsize : (if s.m_position + buf.length > s.m_size then s.m_position + buf.length
      else s.m_size) = max s.m_size (s.m_position + buf.length) := by split <;> omega
  have hle := h.size_le_capacity
  refine ⟨{ s with
      m_nodes := scatter s.m_nodes iovs buf
      m_cur := nodeAt s.m_baseSize s.m_nodes.length (s.m_position + buf.length)
      m_position := s.m_position + buf.length
      m_size := max s.m_size (s.m_position + buf.length) }, by simp only [copyIn, hw, hsize],
    ⟨h.base_pos, ?_, h.blocks.scatter _ _, ?_, ?_, ?_, ?_⟩,
    rfl, rfl, rfl, rfl, rfl, scatter_of_tiles h.blocks ht (by omega)⟩
  · intro hnil
    have := congrArg List.length hnil
    rw [scatter_length] at this
    exact h.root (List.length_eq_zero_iff.mp (by simpa using this))
  · simp only [scatter_length, hcap]
  · simp only; omega
  · simp only; omega
  · simp only [scatter_length]

/-- What `write(buf, n)` leaves. -/
structure Wrote (buf : List UInt8) (s t : ByteArray) (junk : Junk) : Prop where
  inv : t.Inv
  base : t.m_baseSize = s.m_baseSize
  endian : t.m_endian = s.m_endian
  position : t.m_position = s.m_position + buf.length
  size_eq : t.m_size = max s.m_size (s.m_position + buf.length)
  grown : ∃ g, Grown buf.length s g junk ∧ t.m_capacity = g.m_capacity ∧
    t.bytes = Window.splice g.bytes s.m_position buf

theorem write_spec {s : ByteArray} (h : s.Inv) (junk : Junk) (buf : List UInt8) :
    ∃ t, write junk buf s = .ok () t ∧ Wrote buf s t junk := by
  obtain ⟨g, hg, hG⟩ := addCapacity_spec h junk buf.length
  unfold write
  by_cases h0 : buf.length = 0
  · rw [if_pos h0]
    have hnil : buf = [] := List.length_eq_zero_iff.mp h0
    have hgs : g = s := by
      unfold addCapacity at hg
      rw [if_pos h0] at hg
      cases hg
      rfl
    subst hgs hnil
    have hle := h.pos_le_size
    exact ⟨g, rfl, h, rfl, rfl, rfl, by simp only [List.length_nil]; omega,
      g, hG, rfl, (Window.splice_nil ..).symm⟩
  · rw [if_neg h0]
    obtain ⟨t, ht, hinv, hbase, hend, hcap, hpos, hsz, hbytes⟩ :=
      copyIn_spec hG.inv (by omega) hG.room
    refine ⟨t, by rw [Effect.run_bind_ok hg, ht], hinv, hbase.trans hG.base,
      hend.trans hG.endian, by rw [hpos, hG.position], by rw [hsz, hG.size_eq, hG.position],
      g, hG, hcap, by rw [hbytes, hG.position]⟩

theorem read_throws {s : ByteArray} {size : Nat} (hsize : s.getReadSize < size) :
    read size s = .error .out_of_range s := by
  unfold read
  rw [if_pos hsize]

theorem read_spec {s : ByteArray} (h : s.Inv) {size : Nat} (hpos : 0 < size)
    (hsize : size ≤ s.getReadSize) :
    ∃ t, read size s = .ok (Window.slice s.bytes s.m_position size) t ∧ t.Inv ∧
      t = { s with m_cur := t.m_cur, m_position := s.m_position + size } := by
  have hps := h.pos_le_size
  have hsc := h.size_le_capacity
  have hcap := h.capacity
  have hend : s.m_position + size ≤ s.m_size := by unfold getReadSize at hsize; omega
  obtain ⟨iovs, hw, ht⟩ := walkFrom_spec h hpos (by omega)
  have hcur : s.m_cur ≠ none := by rw [Ne, h.cur_eq_none_iff]; omega
  refine ⟨{ s with m_cur := nodeAt s.m_baseSize s.m_nodes.length (s.m_position + size)
                   m_position := s.m_position + size }, ?_,
    ⟨h.base_pos, h.root, h.blocks, h.capacity, hend, hsc, rfl⟩, rfl⟩
  simp only [read, if_neg (Nat.not_lt.mpr hsize), if_neg hcur, if_neg (Nat.pos_iff_ne_zero.mp hpos),
    hw, gather_of_tiles h.blocks ht (by omega)]
  rfl

theorem setPosition_throws {s : ByteArray} {v : Nat} (hv : s.m_capacity < v) :
    setPosition v s = .error .out_of_range s := by
  unfold setPosition
  rw [if_pos hv]

theorem setPosition_spec {s : ByteArray} (h : s.Inv) {v : Nat} (hv : v ≤ s.m_capacity) :
    ∃ t, setPosition v s = .ok () t ∧ t.Inv ∧
      t = { s with m_position := v, m_size := max s.m_size v, m_cur := t.m_cur } := by
  have hsize : (if v > s.m_size then v else s.m_size) = max s.m_size v := by split <;> omega
  have hcap := h.capacity
  have hle := h.size_le_capacity
  have hseek := seek_eq h.base_pos h.blocks (i := 0) h.root (by omega : v ≤ _)
  rw [Nat.zero_add, Nat.mul_zero, Nat.zero_add] at hseek
  refine ⟨{ s with m_position := v, m_size := max s.m_size v
                   m_cur := nodeAt s.m_baseSize s.m_nodes.length v }, ?_,
    ⟨h.base_pos, h.root, h.blocks, h.capacity, by simp only; omega, by simp only; omega, rfl⟩, rfl⟩
  simp only [setPosition, if_neg (Nat.not_lt.mpr hv), hseek, hsize]

theorem clear_spec {s : ByteArray} (h : s.Inv) :
    ∃ t, clear s = .ok () t ∧ t.Inv ∧
      t = { s with m_position := 0, m_size := 0, m_capacity := s.m_baseSize
                   m_nodes := s.m_nodes.take 1, m_cur := t.m_cur } := by
  have hlen : (s.m_nodes.take 1).length = 1 := by
    have := List.length_pos_iff.mpr h.root
    rw [List.length_take]; omega
  refine ⟨{ s with m_position := 0, m_size := 0, m_capacity := s.m_baseSize
                   m_nodes := s.m_nodes.take 1, m_cur := some 0 }, ?_, ⟨h.base_pos, ?_, ?_, ?_,
    Nat.le_refl 0, Nat.zero_le _, ?_⟩, rfl⟩
  · simp only [clear, if_neg h.root]
  · intro hnil
    simp only at hnil
    rw [hnil] at hlen
    cases hlen
  · exact fun n hn => h.blocks n (List.mem_of_mem_take hn)
  · simp only [hlen, Nat.mul_one]
  · simp [nodeAt, hlen]

theorem getWriteBuffers_spec {s : ByteArray} (h : s.Inv) (junk : Junk) (len : Nat) :
    ∃ t iovs, getWriteBuffers junk len s = .ok (len, iovs) t ∧ Grown len s t junk ∧
      Tiles s.m_baseSize iovs s.m_position len := by
  obtain ⟨t, ht, hG⟩ := addCapacity_spec h junk len
  unfold getWriteBuffers
  by_cases h0 : len = 0
  · rw [if_pos h0]
    subst h0
    have hts : t = s := by
      unfold addCapacity at ht
      rw [if_pos rfl] at ht
      cases ht
      rfl
    subst hts
    exact ⟨t, [], rfl, hG, rfl⟩
  · rw [if_neg h0, Effect.run_bind_ok ht, Effect.run_bind_ok (Effect.run_get t)]
    obtain ⟨iovs, hw, htiles⟩ := walkFrom_spec hG.inv (by omega) hG.room
    rw [hG.base, hG.position] at htiles
    exact ⟨t, iovs, by rw [hw]; rfl, hG, htiles⟩

end ByteArray

end Will
