/-
ZjhServer/ByteArray/Positional.lean

The readers of `ByteArray` that move nothing (server/bytearray.cc): the `const`
overload `read(buf, size, position)`, `toString`, and the overload of `getReadBuffers`
with a position.

They walk the chain by the same rule as `read`, from a start of their own:

* the positional `read` starts in the node of the cursor, at the offset of the position
  in its node, and its length check wraps behind the size; so it copies the right bytes
  exactly when the position lies in the cursor's node (`readAt_iff`);
* the positional `getReadBuffers` starts where it should, but takes as many bytes as are
  left behind the cursor (`getReadBuffersAt_iff`);
* at the cursor itself all the readers agree (`readers_agree`).
-/
import ZjhServer.ByteArray.Stream

namespace Will

open Effect Window

namespace ByteArray

/-- `m_size - position` in a `size_t` -/
def sizeFrom (s : ByteArray) (position : Nat) : Nat :=
  if position ≤ s.m_size then s.m_size - position
  else 18446744073709551616 + s.m_size - position

/-- `read(buf, size, position) const`: the pieces it copies, and their bytes.
`m_cur->size` is evaluated before the loop. -/
def readAt (size position : Nat) : M (List Iov × List UInt8) := fun s =>
  if size > s.sizeFrom position then .error .out_of_range s
  else
    match s.m_cur with
    | none => .error .nullptr s
    | some cur =>
        if size = 0 then .ok ([], []) s
        else
          match walk (s.m_nodes.drop cur) cur (position % s.m_baseSize) size with
          | none => .error .nullptr s
          | some (iovs, _) => .ok (iovs, gather s.m_nodes iovs) s

def toString : M (List UInt8) := fun s =>
  if s.getReadSize = 0 then .ok [] s
  else
    match readAt s.getReadSize s.m_position s with
    | .ok r t => .ok r.2 t
    | .error e t => .error e t

/-- `getReadBuffers(buffers, len, position)`: the number returned and the pieces.  The
loop `while(count > 0)` follows `next` from the root. -/
def getReadBuffersAt (len position : Nat) : M (Nat × List Iov) := fun s =>
  let len := if len > s.getReadSize then s.getReadSize else len
  if len = 0 then .ok (0, []) s
  else
    let count := position / s.m_baseSize
    match walk (s.m_nodes.drop count) count (position % s.m_baseSize) len with
    | none => .error .nullptr s
    | some (iovs, _) => .ok (len, iovs) s

/-! ### The positional read -/

/-- The loop copies from where it is started. -/
theorem walk_head {ns : List Node} {i npos size : Nat} {iovs : List Iov} {cur : Option Nat}
    (h : walk ns i npos size = some (iovs, cur)) :
    ∃ len rest, iovs = ⟨i, npos, len⟩ :: rest := by
  cases ns with
  | nil => cases h
  | cons n ns =>
      simp only [walk] at h
      split at h
      · cases h
        exact ⟨_, _, rfl⟩
      · obtain ⟨r, -, hr⟩ := Option.map_eq_some_iff.mp h
        cases hr
        exact ⟨_, _, rfl⟩

/-- What is asked of `read(buf, size, position)`: it throws when the window ends behind
the size, else copies the window, and in any case leaves the object as it is. -/
def ReadsAt (s : ByteArray) (size position : Nat) : Prop :=
  if position + size > s.m_size then readAt size position s = .error .out_of_range s
  else
    ∃ iovs, readAt size position s = .ok (iovs, slice s.bytes position size) s ∧
      Tiles s.m_baseSize iovs position size

/-- The window ends behind the size: the check sees it unless it wraps. -/
theorem readAt_behind {s : ByteArray} {size position : Nat}
    (hend : s.m_size < position + size) :
    readAt size position s = .error .out_of_range s ↔
      position ≤ s.m_size ∨ 18446744073709551616 + s.m_size - position < size := by
  have hcheck : size > s.sizeFrom position ↔
      position ≤ s.m_size ∨ 18446744073709551616 + s.m_size - position < size := by
    unfold sizeFrom
    split_ifs with hle <;> omega
  rw [← hcheck]
  unfold readAt
  refine ⟨fun h => ?_, fun h => if_pos h⟩
  by_contra hnot
  rw [if_neg hnot] at h
  -- behind the check nothing is thrown
  split at h
  · cases h
  · split_ifs at h
    split at h <;> cases h

/-- The window is inside the size, and the cursor's node is the node of its first byte. -/
theorem readAt_inside {s : ByteArray} (h : s.Inv) {size position : Nat}
    (hend : position + size ≤ s.m_size) :
    (∃ iovs, readAt size position s = .ok (iovs, slice s.bytes position size) s ∧
        Tiles s.m_baseSize iovs position size) ↔
      s.m_position < s.m_capacity ∧
        (size = 0 ∨ s.m_position / s.m_baseSize = position / s.m_baseSize) := by
  have hcheck : ¬ size > s.sizeFrom position := by
    unfold sizeFrom
    split_ifs <;> omega
  have hcapacity := h.capacity
  have hsc := h.size_le_capacity
  have hps := h.pos_le_size
  have hcur : s.m_cur = if s.m_position < s.m_capacity then some (s.m_position / s.m_baseSize)
      else none := by
    rw [h.cur, nodeAt]
    simp only [h.div_lt_iff]
  unfold readAt
  rw [if_neg hcheck, hcur]
  by_cases hnull : s.m_position < s.m_capacity
  · rw [if_pos hnull]
    simp only [hnull, true_and]
    by_cases h0 : size = 0
    · subst h0
      simp only [if_true, true_or, iff_true]
      exact ⟨[], by rw [slice_zero], rfl⟩
    · rw [if_neg h0]
      simp only [h0, false_or]
      constructor
      · rintro ⟨iovs, hrun, htiles⟩
        -- the first piece lies in the cursor's node
        split at hrun
        · cases hrun
        · rename_i pieces cur hwalk
          injection hrun with hpieces
          obtain ⟨len, rest, hhead⟩ := walk_head hwalk
          rw [← (Prod.mk.inj hpieces).1, hhead] at htiles
          obtain ⟨hstart, -⟩ := htiles
          simp only at hstart
          have hdiv := Nat.div_add_mod position s.m_baseSize
          exact Nat.eq_of_mul_eq_mul_left h.base_pos (by omega)
      · intro hsame
        obtain ⟨-, iovs, hwalk, htiles⟩ :=
          walkAt_spec h (Nat.pos_of_ne_zero h0) (by omega : position + size ≤ s.m_capacity)
        refine ⟨iovs, ?_, htiles⟩
        rw [hsame]
        simp only [hwalk, gather_of_tiles h.blocks htiles (by omega : _ ≤ _)]
        rfl
  · rw [if_neg hnull]
    simp [hnull]

/-- **The positional read** copies the window it is asked for exactly when the window is
empty or starts in the node of the current position, and the cursor is not null; a window
that ends behind the size makes it throw exactly when the subtraction of its check does
not wrap, or wraps to less than the length. -/
theorem readAt_iff {host : Endian} {max_size : Nat} {s : ByteArray}
    (h : Stream.Reachable host max_size s) (size position : Nat) :
    ReadsAt s size position ↔
      if position + size > s.m_size then
        position ≤ s.m_size ∨ 18446744073709551616 + s.m_size - position < size
      else
        s.m_position < s.m_capacity ∧
          (size = 0 ∨ s.m_position / s.m_baseSize = position / s.m_baseSize) := by
  unfold ReadsAt
  split_ifs with hend
  · exact readAt_behind hend
  · exact readAt_inside h.inv (by omega)

/-- Two blocks of two bytes with `1, 2, 3` written, the cursor in the second one. -/
theorem exists_three (host : Endian) (max_size : Nat) :
    ∃ s : ByteArray, Stream.Reachable host max_size s ∧ s.m_baseSize = 2 ∧ s.m_position = 3 ∧
      s.m_size = 3 ∧ s.m_capacity = 4 :=
  have hwrite : Call.exec host max_size (.op (.write (fun _ _ => 0) [1, 2, 3]))
    (new 2 fun _ _ => 0) = .ok () _ := rfl
  ⟨_, .returns _ (.new (by decide) _) hwrite, rfl, rfl, rfl, rfl⟩

/-- The byte at position 2, the first of the second block. -/
theorem readAt_iff_same : ∃ s, s.m_position = 3 ∧ ReadsAt s 1 2 := by
  obtain ⟨s, hs, hbase, hpos, hsize, hcap⟩ := exists_three .little 64
  refine ⟨s, hpos, (readAt_iff hs 1 2).mpr ?_⟩
  rw [hbase, hpos, hsize, hcap]
  decide

/-- **The byte at position 0** is looked for in the second block. -/
theorem readAt_elsewhere :
    ¬ ∀ (host : Endian) (max_size : Nat) (s : ByteArray), Stream.Reachable host max_size s →
      ∀ size position, ReadsAt s size position := by
  intro h
  obtain ⟨s, hs, hbase, hpos, hsize, hcap⟩ := exists_three .little 64
  have hread := h .little 64 s hs 1 0
  rw [ReadsAt, if_neg (by omega), readAt_inside hs.inv (by omega), hbase, hpos, hcap] at hread
  revert hread
  decide

/-! ### The positional scatter list -/

/-- What is asked of `getReadBuffers(buffers, len, position)`: the pieces are a window at
the position that does not end behind the size, and their length is returned. -/
def GathersAt (s : ByteArray) (len position : Nat) : Prop :=
  ∃ r iovs, getReadBuffersAt len position s = .ok (r, iovs) s ∧ position + r ≤ s.m_size ∧
    (iovs.map (·.iov_len)).sum = r ∧ gather s.m_nodes iovs = slice s.bytes position r

/-- Whatever is returned is the length clamped to what is left behind the cursor. -/
theorem getReadBuffersAt_count {s t : ByteArray} {len position r : Nat} {iovs : List Iov}
    (h : getReadBuffersAt len position s = .ok (r, iovs) t) : r = min len s.getReadSize := by
  have hmin : (if len > s.getReadSize then s.getReadSize else len) = min len s.getReadSize := by
    split <;> omega
  unfold getReadBuffersAt at h
  simp only [hmin] at h
  split_ifs at h with h0
  · cases h
    exact h0.symm
  · split at h
    · cases h
    · cases h
      rfl

/-- **The positional scatter list** stays inside the size exactly when the position is
not behind the current one, or the length asked for is there. -/
theorem getReadBuffersAt_iff {host : Endian} {max_size : Nat} {s : ByteArray}
    (h : Stream.Reachable host max_size s) (len : Nat) {position : Nat}
    (hpos : position ≤ s.m_size) :
    GathersAt s len position ↔ position ≤ s.m_position ∨ position + len ≤ s.m_size := by
  have hinv := h.inv
  have hps := hinv.pos_le_size
  have hsc := hinv.size_le_capacity
  have hcapacity := hinv.capacity
  have hread : s.getReadSize = s.m_size - s.m_position := rfl
  constructor
  · rintro ⟨r, iovs, hrun, hend, -⟩
    have hr := getReadBuffersAt_count hrun
    omega
  · intro hfit
    -- the length is cut at what is unread from the current position, not from the argument
    have hmin : (if len > s.getReadSize then s.getReadSize else len) = min len s.getReadSize := by
      split <;> omega
    refine ⟨min len s.getReadSize, ?_⟩
    unfold getReadBuffersAt
    simp only [hmin]
    by_cases h0 : min len s.getReadSize = 0
    · rw [if_pos h0, h0]
      exact ⟨[], rfl, hpos, rfl, (slice_zero _ _).symm⟩
    · obtain ⟨-, iovs, hwalk, htiles⟩ :=
        walkAt_spec hinv (p := position) (Nat.pos_of_ne_zero h0) (by omega)
      rw [if_neg h0, hwalk]
      exact ⟨iovs, rfl, by omega, Tiles.sum htiles, gather_of_tiles hinv.blocks htiles (by omega)⟩

/-- The first two bytes, across no seam, with one byte left behind the cursor. -/
theorem getReadBuffersAt_iff_front : ∃ s, s.m_position = 3 ∧ GathersAt s 2 0 := by
  obtain ⟨s, hs, -, hpos, hsize, -⟩ := exists_three .little 64
  exact ⟨s, hpos, (getReadBuffersAt_iff hs 2 (Nat.zero_le _)).mpr (.inl (Nat.zero_le _))⟩

/-- **Behind the last byte**: four bytes fill two blocks; from the start of the array on,
four bytes are left, so at position 4 the walk is sent behind the last block. -/
theorem getReadBuffersAt_behind :
    ¬ ∀ (host : Endian) (max_size : Nat) (s : ByteArray), Stream.Reachable host max_size s →
      ∀ len position, position ≤ s.m_size → GathersAt s len position := by
  intro h
  obtain ⟨t, hwrite, u, hback, hsize, hwalk⟩ : ∃ t,
      Call.exec .little 64 (.op (.write (fun _ _ => 0) [1, 2, 3, 4])) (new 2 fun _ _ => 0) =
        .ok () t ∧
      ∃ u, Call.exec .little 64 (.op (.setPosition 0)) t = .ok () u ∧ u.m_size = 4 ∧
        getReadBuffersAt 4 4 u = .error .nullptr u := ⟨_, rfl, _, rfl, rfl, rfl⟩
  have hreach : Stream.Reachable .little 64 u :=
    .returns _ (.returns _ (.new (by decide) _) hwrite) hback
  obtain ⟨r, iovs, hrun, -⟩ := h .little 64 u hreach 4 4 (Nat.le_of_eq hsize.symm)
  rw [hwalk] at hrun
  cases hrun

/-! ### At the cursor -/

/-- `toString` starts at the cursor, where the positional `read` is right. -/
theorem toString_spec {s : ByteArray} (h : s.Inv) :
    toString s = .ok (slice s.bytes s.m_position s.getReadSize) s := by
  have hps := h.pos_le_size
  have hsc := h.size_le_capacity
  have hread : s.getReadSize = s.m_size - s.m_position := rfl
  unfold toString
  split_ifs with h0
  · rw [h0, slice_zero]
  · obtain ⟨iovs, hrun, -⟩ := (readAt_inside h (by omega : s.m_position + s.getReadSize ≤ _)).mpr
      ⟨by omega, .inr rfl⟩
    rw [hrun]

/-- **The readers agree**: the pieces of `getReadBuffers(len)`, the front of `toString()`
and what `read` returns are the same bytes, those from the position on; `toString` gives
all of them up to the size; and the first two leave the object as it is. -/
theorem readers_agree {host : Endian} {max_size : Nat} {s : ByteArray}
    (h : Stream.Reachable host max_size s) (len : Nat) :
    ∃ r iovs str, r = min len s.getReadSize ∧
      getReadBuffers len s = .ok (r, iovs) s ∧ (iovs.map (·.iov_len)).sum = r ∧
      (gather s.m_nodes iovs).length = r ∧
      toString s = .ok str s ∧ str = slice s.bytes s.m_position (s.m_size - s.m_position) ∧
      str.length = s.m_size - s.m_position ∧ gather s.m_nodes iovs = str.take r ∧
      (1 ≤ r → ∃ t, read r s = .ok (gather s.m_nodes iovs) t) := by
  have hinv := h.inv
  have hps := hinv.pos_le_size
  have hsc := hinv.size_le_capacity
  have hcapacity := hinv.capacity
  have hread : s.getReadSize = s.m_size - s.m_position := rfl
  have hlength : ∀ n, n ≤ s.getReadSize → (slice s.bytes s.m_position n).length = n := by
    intro n hn
    rw [length_slice, hinv.length_bytes]
    omega
  -- the pieces tile what is unread, so joined they are one slice of the bytes
  obtain ⟨iovs, hbuffers, htiles⟩ := getReadBuffers_spec hinv len
  have hgather : gather s.m_nodes iovs = slice s.bytes s.m_position (min len s.getReadSize) :=
    gather_of_tiles hinv.blocks htiles (by omega)
  refine ⟨_, iovs, slice s.bytes s.m_position s.getReadSize, rfl, hbuffers, Tiles.sum htiles,
    ?_, toString_spec hinv, rfl, hlength _ (Nat.le_refl _), ?_, fun hr => ?_⟩
  · rw [hgather]
    exact hlength _ (Nat.min_le_right _ _)
  · rw [hgather]
    unfold slice
    rw [List.take_take]
    congr 1
    omega
  · obtain ⟨t, ht, -⟩ := read_spec hinv hr (Nat.min_le_right _ _)
    exact ⟨t, by rw [hgather]; exact ht⟩

/-- Two bytes across the seam between blocks of two. -/
theorem readers_agree_seam : ∃ s, s.m_position = 1 ∧ ∃ iovs str,
    getReadBuffers 2 s = .ok (2, iovs) s ∧ toString s = .ok str s ∧
      gather s.m_nodes iovs = str.take 2 := by
  obtain ⟨s, hwrite, t, hback, hpos, hsize⟩ : ∃ s,
      Call.exec .little 64 (.op (.write (fun _ _ => 0) [1, 2, 3])) (new 2 fun _ _ => 0) =
        .ok () s ∧
      ∃ t, Call.exec .little 64 (.op (.setPosition 1)) s = .ok () t ∧ t.m_position = 1 ∧
        t.m_size = 3 := ⟨_, rfl, _, rfl, rfl, rfl⟩
  have hreach : Stream.Reachable .little 64 t :=
    .returns _ (.returns _ (.new (by decide) _) hwrite) hback
  obtain ⟨r, iovs, str, hr, hbuffers, -, -, hstr, -, -, hsame, -⟩ := readers_agree hreach 2
  have htwo : r = 2 := by
    rw [hr, getReadSize, hpos, hsize]
    rfl
  rw [htwo] at hbuffers hsame
  exact ⟨t, hpos, iovs, str, hbuffers, hstr, hsame⟩

end ByteArray

end Will
