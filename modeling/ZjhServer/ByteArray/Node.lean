/-
ZjhServer/ByteArray/Node.lean

The chain of memory blocks under `ByteArray` (server/bytearray.{h,cc}).

A chain is the list of its nodes from `m_root` on; a `Node*` into it is the
number of the node, and `none` is the null pointer, so `p->next` is `p + 1` or
null after the last node.  The copy loops of `write`, `read` and
`getWriteBuffers` all walk the chain by the same rule; `walk` is that rule, and
gives the pieces (`Iov`) the loop visits with the cursor it ends on:

* `walk_tiles`: on blocks of one size `B` the walk never meets a null pointer
  while there is room, its pieces tile the wanted window of the flat contents,
  and the cursor it ends on is the node of the first byte behind the window;
* `gather_of_tiles`, `scatter_of_tiles`: copying out of, or into, pieces that
  tile a window is reading, or overwriting, that window.
-/
import ZjhServer.Lib.Window

namespace Will

open Window

/-- `ByteArray::Node`: a heap block and its size; the destructor and the `next`
pointer are the chain's business. -/
structure Node where
  size : Nat
  ptr : List UInt8
  alloc : ptr.length = size

/-- `new Node(s)`: `new char[s]` leaves the block's contents indeterminate, so
they are whatever `junk` says. -/
def Node.new (s : Nat) (junk : Nat → UInt8) : Node where
  size := s
  ptr := (List.range s).map junk
  alloc := by simp

/-- `memcpy(cur->ptr + npos, buf, len)` -/
def Node.store (n : Node) (npos : Nat) (buf : List UInt8) : Node where
  size := n.size
  ptr := splice n.ptr npos buf
  alloc := by rw [length_splice, n.alloc]

/-- `memcpy(buf, cur->ptr + npos, len)` -/
def Node.load (n : Node) (npos len : Nat) : List UInt8 := slice n.ptr npos len

@[simp] theorem Node.new_size (s : Nat) (junk : Nat → UInt8) : (Node.new s junk).size = s := rfl

@[simp] theorem Node.store_size (n : Node) (npos : Nat) (buf : List UInt8) :
    (n.store npos buf).size = n.size := rfl

/-- `struct iovec`: `iov_base` is an offset into a node, `iov_len` a length. -/
structure Iov where
  node : Nat
  off : Nat
  iov_len : Nat
  deriving DecidableEq, Repr

/-- `cur->next` of node `i`, where `ns` is the chain behind it. -/
def next (ns : List Node) (i : Nat) : Option Nat := if ns = [] then none else some (i + 1)

/-- The loop `while(size > 0)` of the copy functions, entered with `size > 0` at
node `i`, the first of the list.  `none` is the null dereference `cur->size`. -/
def walk : List Node → (i npos size : Nat) → Option (List Iov × Option Nat)
  | [], _, _, _ => none
  | n :: ns, i, npos, size =>
      let ncap := n.size - npos
      if ncap ≥ size then
        some ([⟨i, npos, size⟩], if n.size = npos + size then next ns i else some i)
      else
        (walk ns (i + 1) 0 (size - ncap)).map fun r => (⟨i, npos, ncap⟩ :: r.1, r.2)

/-- The bytes of the pieces `iovs`, in order. -/
def gather (nodes : List Node) (iovs : List Iov) : List UInt8 :=
  iovs.flatMap fun v => (nodes[v.node]?.map fun n => n.load v.off v.iov_len).getD []

/-- Fill the pieces `iovs` in order with the bytes of `buf`. -/
def scatter (nodes : List Node) : List Iov → List UInt8 → List Node
  | [], _ => nodes
  | v :: vs, buf =>
      scatter (nodes.modify v.node (·.store v.off (buf.take v.iov_len))) vs (buf.drop v.iov_len)

/-- The loop of `setPosition`, from node `i`, the first of the list: the node
that byte `v` from here on falls into. -/
def seek : List Node → (i v : Nat) → Option (Option Nat)
  | [], _, _ => none
  | n :: ns, i, v =>
      if v > n.size then seek ns (i + 1) (v - n.size)
      else if v = n.size then some (next ns i)
      else some (some i)

/-! ### The flat contents -/

/-- The bytes of the chain, one block after the other. -/
def content (nodes : List Node) : List UInt8 := (nodes.map Node.ptr).flatten

/-- Every node of the chain has size `B`. -/
def Blocks (B : Nat) (nodes : List Node) : Prop := ∀ n ∈ nodes, n.size = B

theorem Blocks.uniform {B : Nat} {nodes : List Node} (h : Blocks B nodes) :
    Uniform B (nodes.map Node.ptr) := by
  intro b hb
  obtain ⟨n, hn, rfl⟩ := List.mem_map.mp hb
  rw [n.alloc]
  exact h n hn

theorem Blocks.length_content {B : Nat} {nodes : List Node} (h : Blocks B nodes) :
    (content nodes).length = B * nodes.length := by
  rw [content, h.uniform.length_flatten, List.length_map]

theorem Blocks.head {B : Nat} {n : Node} {ns : List Node} (h : Blocks B (n :: ns)) :
    n.size = B := h n (List.mem_cons_self ..)

theorem Blocks.tail {B : Nat} {n : Node} {ns : List Node} (h : Blocks B (n :: ns)) :
    Blocks B ns := fun m hm => h m (List.mem_cons_of_mem _ hm)

theorem Blocks.append {B : Nat} {ms ns : List Node} (hm : Blocks B ms) (hn : Blocks B ns) :
    Blocks B (ms ++ ns) := fun n h => (List.mem_append.mp h).elim (hm n) (hn n)

theorem Blocks.drop {B : Nat} {ns : List Node} (h : Blocks B ns) (k : Nat) :
    Blocks B (ns.drop k) := fun n hn => h n (List.mem_of_mem_drop hn)

theorem Blocks.modify {B : Nat} {ns : List Node} (h : Blocks B ns) (i : Nat) {f : Node → Node}
    (hf : ∀ n, (f n).size = n.size) : Blocks B (ns.modify i f) := by
  intro n hn
  obtain ⟨j, hj, rfl⟩ := List.mem_iff_getElem.mp hn
  rw [List.getElem_modify]
  split
  · rw [hf]; exact h _ (List.getElem_mem _)
  · exact h _ (List.getElem_mem _)

theorem content_append (ms ns : List Node) : content (ms ++ ns) = content ms ++ content ns := by
  simp [content]

/-! ### Pieces that tile a window -/

/-- The pieces are the window `[a, a + size)` of the flat contents, in order and
without gap or overlap, none of them crossing the end of its node. -/
def Tiles (B : Nat) : List Iov → (a size : Nat) → Prop
  | [], _, size => size = 0
  | v :: vs, a, size =>
      B * v.node + v.off = a ∧ v.off + v.iov_len ≤ B ∧ v.iov_len ≤ size ∧
        Tiles B vs (a + v.iov_len) (size - v.iov_len)

/-- The node of byte `p`, or null behind the last of `len` nodes. -/
def nodeAt (B len p : Nat) : Option Nat := if p / B < len then some (p / B) else none

theorem next_eq_nodeAt {B : Nat} (hB : 0 < B) (ns : List Node) (i : Nat) :
    next ns i = nodeAt B (i + 1 + ns.length) (B * (i + 1)) := by
  unfold next nodeAt
  rw [Nat.mul_div_cancel_left _ hB]
  cases ns with
  | nil => simp
  | cons n ns => rw [if_neg (by simp), if_pos (by simp)]

theorem nodeAt_of_lt {B len i r : Nat} (hr : r < B) (hi : i < len) :
    nodeAt B len (B * i + r) = some i := by
  have hdiv : (B * i + r) / B = i := by
    rw [Nat.mul_add_div (by omega), Nat.div_eq_of_lt hr, Nat.add_zero]
  unfold nodeAt
  rw [hdiv, if_pos hi]

/-- **The walk**: with room for `size` bytes from offset `npos` of node `i`, it
meets no null pointer, its pieces tile the window there, and it ends on the node
of the first byte behind the window. -/
theorem walk_tiles {B : Nat} {ns : List Node} (hns : Blocks B ns) {i npos size : Nat}
    (hpos : npos < B) (hsize : 0 < size) (hroom : npos + size ≤ B * ns.length) :
    ∃ iovs, walk ns i npos size =
        some (iovs, nodeAt B (i + ns.length) (B * i + npos + size)) ∧
      Tiles B iovs (B * i + npos) size := by
  induction ns generalizing i npos size with
  | nil => simp at hroom; omega
  | cons n ns ih =>
      have hn : n.size = B := hns.head
      have hsucc : B * (i + 1) = B * i + B := Nat.mul_succ B i
      have hlen : B * (ns.length + 1) = B * ns.length + B := Nat.mul_succ B ns.length
      have hcount : i + (n :: ns).length = i + 1 + ns.length := by
        rw [List.length_cons]; omega
      rw [List.length_cons, hlen] at hroom
      rw [hcount]
      by_cases hfit : n.size - npos ≥ size
      · -- the rest fits into this node; the cursor leaves it if it is now full
        refine ⟨[⟨i, npos, size⟩], ?_, rfl, ?_, ?_, Nat.sub_self size⟩
        rotate_left
        · simp only; omega
        · exact Nat.le_refl size
        simp only [walk, if_pos hfit]
        by_cases hfull : n.size = npos + size
        · have hend : B * i + npos + size = B * (i + 1) := by omega
          rw [if_pos hfull, next_eq_nodeAt (B := B) (by omega), hend]
        · rw [if_neg hfull, Nat.add_assoc (B * i), nodeAt_of_lt (by omega) (by omega)]
      · -- the node is used up and the walk goes on at the next one
        obtain ⟨iovs, hw, ht⟩ := ih hns.tail (i := i + 1) (show 0 < B by omega)
          (show 0 < size - (n.size - npos) by omega) (by omega)
        have hstart : B * i + npos + (n.size - npos) = B * (i + 1) + 0 := by omega
        have hend : B * (i + 1) + 0 + (size - (n.size - npos)) = B * i + npos + size := by omega
        refine ⟨⟨i, npos, n.size - npos⟩ :: iovs, ?_, rfl, ?_, ?_, ?_⟩
        · simp only [walk, if_neg hfit, hw, Option.map_some, hend]
        · simp only; omega
        · simp only; omega
        · simp only [hstart]
          exact ht

theorem gather_of_tiles {B : Nat} {nodes : List Node} (hB : Blocks B nodes) {iovs : List Iov}
    {a size : Nat} (ht : Tiles B iovs a size) (hroom : a + size ≤ B * nodes.length) :
    gather nodes iovs = slice (content nodes) a size := by
  induction iovs generalizing a size with
  | nil =>
      obtain rfl : size = 0 := ht
      simp [gather]
  | cons v vs ih =>
      obtain ⟨rfl, hin, hle, hrest⟩ := ht
      have hgo : gather nodes (v :: vs) =
          (nodes[v.node]?.map fun n => n.load v.off v.iov_len).getD [] ++ gather nodes vs := by
        simp [gather]
      have hih := ih hrest (by omega)
      rw [hgo, hih, show size = v.iov_len + (size - v.iov_len) by omega, slice_add,
        Nat.add_sub_cancel_left]
      congr 1
      by_cases hl : v.iov_len = 0
      · cases nodes[v.node]? <;> simp [hl, Node.load]
      · have hnode : v.node < nodes.length := by
          by_contra hge
          have := Nat.mul_le_mul_left B (Nat.le_of_not_lt hge)
          omega
        have hb : (nodes.map Node.ptr)[v.node]? = some nodes[v.node].ptr := by simp [hnode]
        rw [List.getElem?_eq_getElem hnode, Option.map_some, Option.getD_some, Node.load, content,
          hB.uniform.slice_flatten hb hin]

theorem content_modify_store {B : Nat} {nodes : List Node} (hB : Blocks B nodes) {i off : Nat}
    {d : List UInt8} (hi : i < nodes.length) (hin : off + d.length ≤ B) :
    content (nodes.modify i (·.store off d)) = splice (content nodes) (B * i + off) d := by
  unfold content
  rw [← hB.uniform.splice_flatten (by simpa using hi) hin]
  congr 1
  apply List.ext_getElem (by simp)
  intro j h₁ h₂
  simp only [List.getElem_map, List.getElem_modify]
  split <;> rfl

theorem scatter_length (nodes : List Node) (iovs : List Iov) (buf : List UInt8) :
    (scatter nodes iovs buf).length = nodes.length := by
  induction iovs generalizing nodes buf with
  | nil => rfl
  | cons v vs ih => rw [scatter, ih, List.length_modify]

theorem Blocks.scatter {B : Nat} {nodes : List Node} (hB : Blocks B nodes) (iovs : List Iov)
    (buf : List UInt8) : Blocks B (Will.scatter nodes iovs buf) := by
  induction iovs generalizing nodes buf with
  | nil => exact hB
  | cons v vs ih =>
      have hstep : Blocks B (nodes.modify v.node (·.store v.off (buf.take v.iov_len))) :=
        hB.modify _ fun _ => rfl
      exact ih hstep _

/-- Filling pieces from the front, which may leave the last ones as they are. -/
theorem scatter_of_tiles_le {B : Nat} {nodes : List Node} (hB : Blocks B nodes) {iovs : List Iov}
    {a size : Nat} {buf : List UInt8} (ht : Tiles B iovs a size) (hle : buf.length ≤ size)
    (hroom : a + size ≤ B * nodes.length) :
    content (scatter nodes iovs buf) = splice (content nodes) a buf := by
  induction iovs generalizing nodes a size buf with
  | nil =>
      obtain rfl : size = 0 := ht
      obtain rfl : buf = [] := List.length_eq_zero_iff.mp (Nat.le_zero.mp hle)
      simp [scatter]
  | cons v vs ih =>
      obtain ⟨rfl, hin, hfit, hrest⟩ := ht
      have htake : (buf.take v.iov_len).length ≤ v.iov_len := List.length_take_le ..
      have hstore : content (nodes.modify v.node (·.store v.off (buf.take v.iov_len))) =
          splice (content nodes) (B * v.node + v.off) (buf.take v.iov_len) := by
        by_cases hl : v.iov_len = 0
        · have hsame : nodes.modify v.node (·.store v.off []) = nodes := by
            apply List.ext_getElem (by simp)
            intro j h₁ h₂
            rw [List.getElem_modify]
            split <;> simp [Node.store]
          rw [hl, List.take_zero, hsame, splice_nil]
        · -- a piece that is not empty lies in a block that exists
          have hnode : v.node < nodes.length := by
            by_contra hge
            have := Nat.mul_le_mul_left B (Nat.le_of_not_lt hge)
            omega
          exact content_modify_store hB hnode (by omega)
      have hstep : Blocks B (nodes.modify v.node (·.store v.off (buf.take v.iov_len))) :=
        hB.modify _ fun _ => rfl
      rw [scatter, ih hstep hrest (by rw [List.length_drop]; omega)
        (by rw [List.length_modify]; omega), hstore]
      -- either the piece is filled, or it takes all that is left of the buffer
      rcases Nat.le_total v.iov_len buf.length with hfull | hshort
      · have hsp := splice_splice (content nodes) (B * v.node + v.off) (buf.take v.iov_len)
          (buf.drop v.iov_len)
        rw [List.length_take_of_le hfull, List.take_append_drop] at hsp
        exact hsp
      · rw [List.take_of_length_le hshort, List.drop_of_length_le hshort, splice_nil]

theorem scatter_of_tiles {B : Nat} {nodes : List Node} (hB : Blocks B nodes) {iovs : List Iov}
    {a : Nat} {buf : List UInt8} (ht : Tiles B iovs a buf.length)
    (hroom : a + buf.length ≤ B * nodes.length) :
    content (scatter nodes iovs buf) = splice (content nodes) a buf :=
  scatter_of_tiles_le hB ht (Nat.le_refl _) hroom

/-- **The seek**: a position inside the chain, or at its end, is found without
meeting a null pointer. -/
theorem seek_eq {B : Nat} (hB : 0 < B) {ns : List Node} (hns : Blocks B ns) {i v : Nat}
    (hne : ns ≠ []) (hv : v ≤ B * ns.length) :
    seek ns i v = some (nodeAt B (i + ns.length) (B * i + v)) := by
  induction ns generalizing i v with
  | nil => exact absurd rfl hne
  | cons n ns ih =>
      have hn : n.size = B := hns.head
      have hsucc : B * (i + 1) = B * i + B := Nat.mul_succ B i
      have hlen : B * (ns.length + 1) = B * ns.length + B := Nat.mul_succ B ns.length
      have hcount : i + (n :: ns).length = i + 1 + ns.length := by
        rw [List.length_cons]; omega
      rw [List.length_cons, hlen] at hv
      rw [hcount, seek]
      split
      · have hne' : ns ≠ [] := by
          rintro rfl
          simp only [List.length_nil, Nat.mul_zero] at hv
          omega
        have hgo : B * (i + 1) + (v - n.size) = B * i + v := by omega
        rw [ih hns.tail hne' (by omega), hgo]
      · split
        · have hend : B * i + v = B * (i + 1) := by omega
          rw [next_eq_nodeAt (B := B) hB, hend]
        · rw [nodeAt_of_lt (by omega) (by omega)]

end Will
