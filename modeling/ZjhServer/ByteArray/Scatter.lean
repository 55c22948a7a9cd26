/-
ZjhServer/ByteArray/Scatter.lean

Writing without a copy: `getWriteBuffers`, the pieces filled from the front by somebody
else, and `setPosition` behind what was filled (server/bytearray.cc); `SocketStream::read`
does this (server/socket_stream.cc).

Whatever is stored so, and whatever `write` stores, is `Received`: the bytes from the
position on, with the other bytes of the array kept.  That says all there is to say of an
array up to its size (`Received.agree`), so the two ways leave the same
(`scatterWrite_eq_write`), for any room asked for and any fresh memory.
-/
import ZjhServer.ByteArray.Stream

namespace Will

open Effect Window

namespace ByteArray

/-- `getWriteBuffers(iovs, len)`, the first bytes of the pieces filled with `d`, and
`setPosition(getPosition() + n)`; the pieces. -/
def scatterWrite (junk : Junk) (len : Nat) (d : List UInt8) : M (List Iov) := do
  let r ← getWriteBuffers junk len
  let _ ← recvmsg r.2 d
  let s ← get
  setPosition (s.m_position + d.length)
  pure r.2

/-! ### What is stored -/

/-- **What an array has received determines it** up to its size. -/
theorem Received.agree {s t u : ByteArray} {d : List UInt8} (h : s.Inv) (ht : Received s t d)
    (hu : Received s u d) : t.m_position = u.m_position ∧ t.m_size = u.m_size ∧
      slice t.bytes 0 t.m_size = slice u.bytes 0 u.m_size := by
  have hposition := ht.position.trans hu.position.symm
  have hsize := ht.size.trans hu.size.symm
  have hps := h.pos_le_size
  have hsc := h.size_le_capacity
  refine ⟨hposition, hsize, ?_⟩
  rw [← hsize]
  refine slice_congr fun i _ hi => ?_
  have htsize := ht.size
  by_cases hin : s.m_position ≤ i ∧ i < s.m_position + d.length
  · -- a byte of the window: both have the one of `d`
    have hwindow : ∀ v : ByteArray, slice v.bytes s.m_position d.length = d →
        v.bytes[i]? = d[i - s.m_position]? := by
      intro v hv
      have hat := getElem?_slice v.bytes s.m_position d.length (i - s.m_position)
      rw [hv, if_pos (by omega), Nat.add_sub_cancel' hin.1] at hat
      exact hat.symm
    rw [hwindow t ht.stored, hwindow u hu.stored]
  · rw [ht.kept i (by omega) (by omega), hu.kept i (by omega) (by omega)]

/-- `write` stores its bytes. -/
theorem Wrote.received {s t : ByteArray} {junk : Junk} {buf : List UInt8} (h : s.Inv)
    (hW : Wrote buf s t junk) : Received s t buf := by
  obtain ⟨g, hG, hcap, hbytes⟩ := hW.grown
  exact hG.stores h (Nat.le_refl _) hW.position hW.size_eq hcap hbytes

/-- **The scatter write**: it never throws, its pieces are the window at the position,
and what it stores is received. -/
theorem scatterWrite_spec {s : ByteArray} (h : s.Inv) (junk : Junk) {len : Nat} {d : List UInt8}
    (hle : d.length ≤ len) :
    ∃ iovs t, scatterWrite junk len d s = .ok iovs t ∧ t.Inv ∧ Received s t d ∧
      t.m_baseSize = s.m_baseSize ∧ Tiles s.m_baseSize iovs s.m_position len ∧
      s.m_position + len ≤ t.m_capacity := by
  obtain ⟨g, iovs, hbuffers, hG, htiles⟩ := getWriteBuffers_spec h junk len
  have hroom := hG.room
  have hgtiles := htiles
  rw [← hG.base, ← hG.position] at hgtiles
  obtain ⟨m, hm, hminv, hmeq, hmbytes⟩ := recvmsg_spec hG.inv hgtiles hroom d
  rw [List.take_of_length_le hle] at hmbytes
  have hmpos : m.m_position = s.m_position := by rw [hmeq]; exact hG.position
  have hmsize : m.m_size = s.m_size := by rw [hmeq]; exact hG.size_eq
  have hmcap : m.m_capacity = g.m_capacity := by rw [hmeq]
  have hmbase : m.m_baseSize = s.m_baseSize := by rw [hmeq]; exact hG.base
  have hgpos := hG.position
  -- there is room for the whole window, so the position may move over what came
  obtain ⟨t, ht, hinv, heq⟩ := setPosition_spec hminv
    (show m.m_position + d.length ≤ m.m_capacity by omega)
  have hrun : scatterWrite junk len d s = .ok iovs t :=
    (run_bind_ok hbuffers).trans ((run_bind_ok hm).trans ((run_bind_ok (run_get m)).trans
      (run_bind_ok ht)))
  refine ⟨iovs, t, hrun, hinv, hG.stores h hle ?_ ?_ ?_ ?_, ?_, htiles, ?_⟩
  · rw [heq, ← hmpos]
  · rw [heq, ← hmpos, ← hmsize]
  · rw [heq, ← hmcap]
  · rw [heq, ← hgpos]
    exact hmbytes
  · rw [heq]
    exact hmbase
  · rw [heq]
    show s.m_position + len ≤ m.m_capacity
    omega

/-- **A scatter write is a write**: for any room `len` asked for, filling the front of the
pieces with `d` and moving the position leaves the same contents up to the size, the same
size and the same position as `write`, with the cursor in either case on the node of the
position.  The pieces have room for `len` bytes, those of the window at the position. -/
theorem scatterWrite_eq_write {host : Endian} {max_size : Nat} {s : ByteArray}
    (h : Stream.Reachable host max_size s) (junk junk' : Junk) {len : Nat} {d : List UInt8}
    (hle : d.length ≤ len) :
    ∃ iovs t u, scatterWrite junk len d s = .ok iovs t ∧ write junk' d s = .ok () u ∧
      t.m_position = u.m_position ∧ t.m_size = u.m_size ∧
      slice t.bytes 0 t.m_size = slice u.bytes 0 u.m_size ∧
      t.m_cur = nodeAt t.m_baseSize t.m_nodes.length t.m_position ∧
      u.m_cur = nodeAt u.m_baseSize u.m_nodes.length u.m_position ∧
      (iovs.map (·.iov_len)).sum = len ∧ Tiles t.m_baseSize iovs s.m_position len ∧
      s.m_position + len ≤ t.m_capacity := by
  have hinv := h.inv
  obtain ⟨iovs, t, ht, htinv, htreceived, htbase, htiles, hroom⟩ :=
    scatterWrite_spec hinv junk hle
  obtain ⟨u, hu, hW⟩ := write_spec hinv junk' d
  obtain ⟨hposition, hsize, hbytes⟩ := htreceived.agree hinv (hW.received hinv)
  exact ⟨iovs, t, u, ht, hu, hposition, hsize, hbytes, htinv.cur, hW.inv.cur, Tiles.sum htiles,
    htbase ▸ htiles, hroom⟩

/-- Room for five bytes, two of them filled, from position 1 of blocks of two. -/
theorem scatterWrite_eq_write_two :
    ∃ s : ByteArray, s.m_position = 1 ∧ ∃ iovs t u,
      scatterWrite (fun _ _ => 0) 5 [8, 9] s = .ok iovs t ∧
      write (fun _ _ => 7) [8, 9] s = .ok () u ∧
      slice t.bytes 0 t.m_size = slice u.bytes 0 u.m_size := by
  obtain ⟨s, hwrite, hpos⟩ : ∃ s,
      Call.exec .little 64 (.op (.write (fun _ _ => 0) [1])) (new 2 fun _ _ => 0) = .ok () s ∧
        s.m_position = 1 := ⟨_, rfl, rfl⟩
  obtain ⟨iovs, t, u, ht, hu, -, -, hsame, -⟩ := scatterWrite_eq_write
    (.returns _ (.new (by decide : 1 ≤ 2) fun _ _ => 0) hwrite)
    (fun _ _ => 0) (fun _ _ => 7) (show ([8, 9] : List UInt8).length ≤ 5 by decide)
  exact ⟨s, hpos, iovs, t, u, ht, hu, hsame⟩

end ByteArray

end Will
