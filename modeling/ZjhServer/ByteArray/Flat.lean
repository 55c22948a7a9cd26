/-
ZjhServer/ByteArray/Flat.lean

What a `ByteArray` is for: one flat array of bytes with a position, a size and a
capacity.  `Flat` is that array; its two bounds are fields, so a position behind
the size, or a size behind the capacity, cannot be written down.

The chain of blocks refines it (`Reps`): each operation of `ByteArray` runs in
lock step with its namesake on the flat array (`exec_sim`), with the same
replies and the same exceptions, hence so does every sequence of operations
(`chain_refines_flat`).
-/
import ZjhServer.ByteArray.Basic

namespace Will

open Effect Window

/-- A flat byte array that grows by multiples of `base`; its capacity is the
length of `bytes`. -/
structure Flat where
  base : Nat
  bytes : List UInt8
  position : Nat
  size : Nat
  base_pos : 0 < base
  pos_le_size : position ≤ size
  size_le_capacity : size ≤ bytes.length

namespace Flat

def capacity (f : Flat) : Nat := f.bytes.length

/-- The bytes that come with `count` new blocks. -/
def fresh (base count : Nat) (junk : Junk) : List UInt8 :=
  (List.range count).flatMap fun j => (List.range base).map (junk j)

/-- The contents once there is room for `n` bytes from the position on: a missing
byte count is rounded up to whole blocks. -/
def reserved (f : Flat) (junk : Junk) (n : Nat) : List UInt8 :=
  if f.capacity - f.position ≥ n then f.bytes
  else f.bytes ++
    fresh f.base (ByteArray.nodeCount (n - (f.capacity - f.position)) f.base) junk

theorem length_fresh (base count : Nat) (junk : Junk) :
    (fresh base count junk).length = base * count := by
  simp [fresh, List.length_flatMap, Nat.mul_comm]

theorem capacity_le_reserved (f : Flat) (junk : Junk) (n : Nat) :
    f.capacity ≤ (f.reserved junk n).length := by
  unfold reserved
  split
  · exact Nat.le_refl _
  · rw [List.length_append]; exact Nat.le_add_right _ _

/-- After growing for `n` bytes there is room for them. -/
theorem room_reserved (f : Flat) (junk : Junk) (n : Nat) :
    f.position + n ≤ (f.reserved junk n).length := by
  have h₁ := f.pos_le_size
  have h₂ := f.size_le_capacity
  have h₃ := ByteArray.le_mul_nodeCount f.base_pos (n - (f.capacity - f.position))
  unfold reserved
  split
  · unfold capacity at *; omega
  · rw [List.length_append, length_fresh]
    unfold capacity at *
    omega

/-! ### The operations -/

abbrev M := EStateM Exn Flat

def new (base : Nat) (hbase : 0 < base) (junk : Junk) : Flat where
  base := base
  bytes := fresh base 1 junk
  position := 0
  size := 0
  base_pos := hbase
  pos_le_size := Nat.le_refl 0
  size_le_capacity := Nat.zero_le _

/-- Overwrite `[position, position + n)`, move the position behind it and raise
the size to it. -/
def write (junk : Junk) (buf : List UInt8) : M Unit := fun f =>
  .ok () { f with
    bytes := splice (f.reserved junk buf.length) f.position buf
    position := f.position + buf.length
    size := max f.size (f.position + buf.length)
    pos_le_size := Nat.le_max_right ..
    size_le_capacity := by
      have h₁ := f.size_le_capacity
      have h₂ := f.capacity_le_reserved junk buf.length
      have h₃ := f.room_reserved junk buf.length
      rw [length_splice]
      unfold capacity at h₂
      omega }

/-- The bytes `[position, position + n)`, if there are that many below the size. -/
def read (n : Nat) : M (List UInt8) := fun f =>
  if h : n > f.size - f.position then .error .out_of_range f
  else
    .ok (slice f.bytes f.position n) { f with
      position := f.position + n
      pos_le_size := by have := f.pos_le_size; omega }

/-- Go to `v`, anywhere up to the capacity; the size follows. -/
def setPosition (v : Nat) : M Unit := fun f =>
  if h : v > f.capacity then .error .out_of_range f
  else
    .ok () { f with
      position := v
      size := max f.size v
      pos_le_size := Nat.le_max_right ..
      size_le_capacity := by
        have := f.size_le_capacity
        unfold capacity at h
        omega }

/-- Back to the first block, which keeps its bytes. -/
def clear : M Unit := fun f =>
  .ok () { f with
    bytes := f.bytes.take f.base
    position := 0
    size := 0
    pos_le_size := Nat.le_refl 0
    size_le_capacity := Nat.zero_le _ }

/-- Grow, and hand out the window `[position, position + len)`. -/
def getWriteBuffers (junk : Junk) (len : Nat) : M Nat := fun f =>
  .ok len { f with
    bytes := f.reserved junk len
    size_le_capacity := f.size_le_capacity.trans (f.capacity_le_reserved junk len) }

end Flat

/-! ### Sequences of operations -/

/-- The operations of the buffer; the allocating ones come with what the fresh
memory holds. -/
inductive Op
  | write (junk : Junk) (buf : List UInt8)
  | read (n : Nat)
  | setPosition (v : Nat)
  | clear
  | getWriteBuffers (junk : Junk) (len : Nat)

/-- What an operation returns. -/
inductive Out
  | done
  | bytes (bs : List UInt8)
  | count (n : Nat)
  deriving DecidableEq, Repr

/-- A read asks for at least one byte. -/
def Op.Proper : Op → Prop
  | .read n => 1 ≤ n
  | _ => True

namespace Op

/-- The operation on the chain of blocks. -/
def exec : Op → ByteArray.M Out
  | write junk buf => do ByteArray.write junk buf; pure .done
  | read n => do let bs ← ByteArray.read n; pure (.bytes bs)
  | setPosition v => do ByteArray.setPosition v; pure .done
  | clear => do ByteArray.clear; pure .done
  | getWriteBuffers junk len => do
      let r ← ByteArray.getWriteBuffers junk len
      pure (.count r.1)

/-- The operation on the flat array. -/
def flat : Op → Flat.M Out
  | write junk buf => do Flat.write junk buf; pure .done
  | read n => do let bs ← Flat.read n; pure (.bytes bs)
  | setPosition v => do Flat.setPosition v; pure .done
  | clear => do Flat.clear; pure .done
  | getWriteBuffers junk len => do let n ← Flat.getWriteBuffers junk len; pure (.count n)

end Op

/-! ### The refinement -/

/-- The chain `s` represents the flat array `f`. -/
structure Reps (s : ByteArray) (f : Flat) : Prop where
  inv : s.Inv
  base : f.base = s.m_baseSize
  bytes : f.bytes = s.bytes
  position : f.position = s.m_position
  size : f.size = s.m_size

theorem Reps.capacity {s : ByteArray} {f : Flat} (h : Reps s f) : f.capacity = s.m_capacity := by
  rw [Flat.capacity, h.bytes, h.inv.length_bytes]

theorem content_newNodes (base count : Nat) (junk : Junk) :
    content (ByteArray.newNodes base count junk) = Flat.fresh base count junk := by
  simp [content, ByteArray.newNodes, Flat.fresh, List.flatMap, Node.new, Function.comp_def]

theorem new_reps {B : Nat} (hB : 0 < B) (junk : Junk) :
    Reps (ByteArray.new B junk) (Flat.new B hB junk) where
  inv := ByteArray.new_inv hB junk
  base := rfl
  bytes := by simp [Flat.new, Flat.fresh, ByteArray.new, ByteArray.bytes, content, Node.new]
  position := rfl
  size := rfl

/-- Growing the chain is growing the flat array. -/
theorem Grown.reserved {s t : ByteArray} {f : Flat} {junk : Junk} {n : Nat} (h : Reps s f)
    (hG : ByteArray.Grown n s t junk) : f.reserved junk n = t.bytes := by
  have hfree : f.capacity - f.position = s.getCapacity := by
    rw [h.capacity, h.position]; rfl
  rw [Flat.reserved, hfree, ByteArray.bytes, hG.grown]
  split
  · exact h.bytes
  · rw [content_append, content_newNodes, h.bytes, h.base]; rfl

theorem write_sim (junk : Junk) (buf : List UInt8) :
    Sim Reps (ByteArray.write junk buf) (Flat.write junk buf) := by
  intro s f h
  obtain ⟨t, ht, hW⟩ := ByteArray.write_spec h.inv junk buf
  obtain ⟨g, hG, hcap, hbytes⟩ := hW.grown
  rw [ht]
  refine ⟨rfl, hW.inv, h.base.trans hW.base.symm, ?_, ?_, ?_⟩
  · rw [hbytes, ← Grown.reserved h hG, ← h.position]
  · rw [hW.position, ← h.position]
  · rw [hW.size_eq, ← h.position, ← h.size]

theorem read_sim {n : Nat} (hn : 1 ≤ n) : Sim Reps (ByteArray.read n) (Flat.read n) := by
  intro s f h
  have hsize : f.size - f.position = s.getReadSize := by rw [h.size, h.position]; rfl
  unfold Flat.read
  by_cases hlong : n > s.getReadSize
  · rw [ByteArray.read_throws hlong, dif_pos (by omega)]
    exact ⟨rfl, h⟩
  · obtain ⟨t, ht, hinv, heq⟩ := ByteArray.read_spec h.inv hn (by omega)
    rw [ht, dif_neg (by omega)]
    refine ⟨by rw [h.bytes, h.position], hinv, ?_, ?_, ?_, ?_⟩ <;> rw [heq]
    · exact h.base
    · exact h.bytes
    · exact congrArg (· + n) h.position
    · exact h.size

theorem setPosition_sim (v : Nat) :
    Sim Reps (ByteArray.setPosition v) (Flat.setPosition v) := by
  intro s f h
  have hcap := h.capacity
  unfold Flat.setPosition
  by_cases hv : v > s.m_capacity
  · rw [ByteArray.setPosition_throws hv, dif_pos (by omega)]
    exact ⟨rfl, h⟩
  · obtain ⟨t, ht, hinv, heq⟩ := ByteArray.setPosition_spec h.inv (by omega : v ≤ s.m_capacity)
    rw [ht, dif_neg (by omega)]
    refine ⟨rfl, hinv, ?_, ?_, ?_, ?_⟩ <;> rw [heq]
    · exact h.base
    · exact h.bytes
    · exact congrArg (max · v) h.size

theorem clear_sim : Sim Reps ByteArray.clear Flat.clear := by
  intro s f h
  obtain ⟨t, ht, hinv, heq⟩ := ByteArray.clear_spec h.inv
  rw [ht]
  refine ⟨rfl, hinv, ?_, ?_, ?_, ?_⟩ <;> rw [heq]
  · exact h.base
  · -- the first block of the flat contents is the root node
    obtain ⟨n, ns, hns⟩ := List.exists_cons_of_ne_nil h.inv.root
    have hsize : n.ptr.length = s.m_baseSize := by
      rw [n.alloc]; exact h.inv.blocks n (by rw [hns]; exact List.mem_cons_self ..)
    simp only [ByteArray.bytes, h.bytes, h.base, hns, content, List.take_succ_cons, List.take_zero,
      List.map_cons, List.map_nil, List.flatten_cons, List.flatten_nil, List.append_nil]
    rw [← hsize, List.take_left]

theorem getWriteBuffers_sim (junk : Junk) (len : Nat) :
    Sim Reps (Op.getWriteBuffers junk len).exec (Op.getWriteBuffers junk len).flat := by
  intro s f h
  obtain ⟨t, iovs, ht, hG, -⟩ := ByteArray.getWriteBuffers_spec h.inv junk len
  rw [Op.exec, run_bind_ok ht]
  exact ⟨rfl, hG.inv, h.base.trans hG.base.symm, Grown.reserved h hG,
    h.position.trans hG.position.symm, h.size.trans hG.size_eq.symm⟩

/-- One operation, on the chain and on the flat array. -/
theorem exec_sim {op : Op} (hop : op.Proper) : Sim Reps op.exec op.flat := by
  cases op with
  | write junk buf => exact (write_sim junk buf).bind fun _ => Sim.pure _
  | read n => exact (read_sim hop).bind fun _ => Sim.pure _
  | setPosition v => exact (setPosition_sim v).bind fun _ => Sim.pure _
  | clear => exact clear_sim.bind fun _ => Sim.pure _
  | getWriteBuffers junk len => exact getWriteBuffers_sim junk len

/-- No operation on the flat array is undefined. -/
theorem flat_keeps (op : Op) : Keeps (fun _ => True) (fun e => e.fatal = false) op.flat := by
  cases op with
  | write junk buf => exact fun _ _ => trivial
  | read n =>
      refine Keeps.bind (fun f _ => ?_) fun _ => Keeps.pure _
      unfold wp Flat.read
      split_ifs <;> simp [Exn.fatal]
  | setPosition v =>
      refine Keeps.bind (fun f _ => ?_) fun _ => Keeps.pure _
      unfold wp Flat.setPosition
      split_ifs <;> simp [Exn.fatal]
  | clear => exact fun _ _ => trivial
  | getWriteBuffers junk len => exact fun _ _ => trivial

/-- **The chain of blocks is a flat array**: every sequence of operations runs to
its end on both, with the same replies, the same exceptions and, at the end, the
same contents, position, size and capacity. -/
theorem chain_refines_flat {B : Nat} (hB : 1 ≤ B) (junk : Junk) (ops : List Op)
    (hops : ∀ op ∈ ops, op.Proper) :
    ∃ rs s f, runAll Exn.fatal (ops.map Op.exec) (ByteArray.new B junk) = some (rs, s) ∧
      runAll Exn.fatal (ops.map Op.flat) (Flat.new B hB junk) = some (rs, f) ∧
      f.bytes = s.bytes ∧ f.position = s.m_position ∧ f.size = s.m_size ∧
      f.capacity = s.m_capacity := by
  have hkeeps : ∀ m ∈ ops.map Op.flat, Keeps (fun _ => True) (fun e => e.fatal = false) m := by
    intro m hm
    obtain ⟨op, -, rfl⟩ := List.mem_map.mp hm
    exact flat_keeps op
  obtain ⟨rs, f, hf, -⟩ := runAll_keeps Exn.fatal _ hkeeps
    (s := Flat.new B hB junk) trivial
  obtain ⟨s, hs, hR⟩ := runAll_sim Op.exec Op.flat ops (fun op hop => exec_sim (hops op hop))
    (new_reps hB junk) hf
  exact ⟨rs, s, f, hs, hf, hR.bytes, hR.position, hR.size, hR.capacity⟩

/-- Blocks of two bytes, writes and reads across their seams. -/
theorem chain_refines_flat_two :
    ∃ rs s f, runAll Exn.fatal
          ([Op.write (fun _ _ => 7) [1, 2, 3], .setPosition 1, .read 2, .read 9].map Op.exec)
          (ByteArray.new 2 fun _ _ => 0) = some (rs, s) ∧
      runAll Exn.fatal
          ([Op.write (fun _ _ => 7) [1, 2, 3], .setPosition 1, .read 2, .read 9].map Op.flat)
          (Flat.new 2 (by decide) fun _ _ => 0) = some (rs, f) ∧
      f.bytes = s.bytes ∧ f.position = s.m_position ∧ f.size = s.m_size ∧
      f.capacity = s.m_capacity :=
  chain_refines_flat (by decide) _ _ (by simp [Op.Proper])

end Will
