/-
ZjhServer/ByteArray/File.lean

`writeToFile` and `readFromFile` (server/bytearray.cc).

`writeToFile` takes a piece of each node from the cursor on: from the offset of `pos` in
its node, and as many bytes as are left or as a node has, less that offset.  That is right
in the first node when the offset is 0 or a whole node's worth of bytes is left, and in
every later node (`dumpLoop_aligned`); else too few bytes are taken and the walk goes on
in the next node (`writeToFile_iff`).  The offset is an `int`; the other lengths are of
allocated memory, so that `int64_t` holds them.

`readFromFile` writes one block after the other, so it is `write` of the whole file
(`readFromFile_spec`).
-/
import ZjhServer.ByteArray.Positional
import ZjhServer.ByteArray.Scatter

namespace Will

open Effect Window

namespace ByteArray

/-- A call `ofs.write(cur->ptr + off, len)` in node `node`. -/
structure FileWrite where
  node : Nat
  off : Int
  len : Int
  deriving DecidableEq, Repr

/-- The piece of the chain that is written, when the offset and the length are not
negative. -/
def FileWrite.iov (w : FileWrite) : Iov := ⟨w.node, w.off.toNat, w.len.toNat⟩

/-- The loop `while(read_size > 0)`, at node `i`, the first of the list.  `none` is the
null dereference `cur->ptr`. -/
def dumpLoop (base : Nat) : List Node → (i : Nat) → (pos read_size : Int) →
    Option (List FileWrite)
  | [], _, _, read_size => if read_size > 0 then none else some []
  | _ :: ns, i, pos, read_size =>
      if read_size > 0 then
        let diff := Stream.asInt (pos % base).toNat
        let len := (if read_size > base then (base : Int) else read_size) - diff
        (dumpLoop base ns (i + 1) (pos + len) (read_size - len)).map (⟨i, diff, len⟩ :: ·)
      else some []

/-- `writeToFile(name)`; `opened` says whether the file could be opened. -/
def writeToFile (opened : Bool) : M (Bool × List FileWrite) := fun s =>
  if opened then
    match dumpLoop s.m_baseSize ((s.m_cur.map s.m_nodes.drop).getD []) (s.m_cur.getD 0)
        s.m_position s.getReadSize with
    | none => .error .nullptr s
    | some ws => .ok (true, ws) s
  else .ok (false, []) s

/-- What is in the file then. -/
def dumped (s : ByteArray) (ws : List FileWrite) : List UInt8 :=
  gather s.m_nodes (ws.map FileWrite.iov)

/-- At most `turns` turns of the loop `while(!ifs.eof())`: whether the end of the file has
been met. -/
def readLoop (junk : Nat → Junk) : Nat → List UInt8 → M Bool
  | 0, _ => pure false
  | turns + 1, rest => do
      let s ← get
      write (junk turns) (rest.take s.m_baseSize)
      -- the stream sees the end when it has fewer bytes than it is asked for
      if rest.length < s.m_baseSize then pure true
      else readLoop junk turns (rest.drop s.m_baseSize)

/-- `readFromFile(name)`, nothing when the loop runs for more than `turns` turns; `none`
is a file that could not be opened. -/
def readFromFile (junk : Nat → Junk) (turns : Nat) : Option (List UInt8) → M (Option Bool)
  | none => pure (some false)
  | some file => do
      let ended ← readLoop junk turns file
      pure (if ended then some true else none)

/-! ### Reading a file -/

theorem readLoop_spec (junk : Nat → Junk) {turns : Nat} {rest : List UInt8} {s : ByteArray}
    (h : s.Inv) (hturns : rest.length / s.m_baseSize < turns) :
    ∃ t, readLoop junk turns rest s = .ok true t ∧ t.Inv ∧ t.m_baseSize = s.m_baseSize ∧
      Received s t rest := by
  induction turns generalizing rest s with
  | zero => exact absurd hturns (Nat.not_lt_zero _)
  | succ turns ih =>
      have hbase := h.base_pos
      obtain ⟨m, hm, hW⟩ := write_spec h (junk turns) (rest.take s.m_baseSize)
      have hreceived := hW.received h
      have hmbase : m.m_baseSize = s.m_baseSize := hW.base
      by_cases hend : rest.length < s.m_baseSize
      · rw [List.take_of_length_le (Nat.le_of_lt hend)] at hreceived
        refine ⟨m, ?_, hW.inv, hmbase, hreceived⟩
        refine (run_bind_ok (run_get s)).trans ((run_bind_ok hm).trans ?_)
        rw [if_pos hend]
        rfl
      · have hle : s.m_baseSize ≤ rest.length := Nat.le_of_not_lt hend
        -- one turn less is needed for what is left
        have hleft : (rest.drop s.m_baseSize).length / m.m_baseSize < turns := by
          rw [List.length_drop, hmbase]
          have hsub := Nat.sub_add_cancel hle
          have hdiv := Nat.add_div_right (rest.length - s.m_baseSize) hbase
          rw [hsub] at hdiv
          omega
        obtain ⟨t, ht, htinv, htbase, hrest⟩ := ih hW.inv hleft
        have hall := hreceived.trans hW.inv hrest
        rw [List.take_append_drop] at hall
        refine ⟨t, ?_, htinv, htbase.trans hmbase, hall⟩
        refine (run_bind_ok (run_get s)).trans ((run_bind_ok hm).trans ?_)
        rw [if_neg hend]
        exact ht

/-- **Reading a file** into an empty array gives its bytes, whatever the base size. -/
theorem readFromFile_spec {B : Nat} (hB : 1 ≤ B) (fresh : Junk) (junk : Nat → Junk) {turns : Nat}
    {file : List UInt8} (hturns : file.length / B < turns) :
    ∃ t, readFromFile junk turns (some file) (new B fresh) = .ok (some true) t ∧
      t.m_position = file.length ∧ t.m_size = file.length ∧ slice t.bytes 0 t.m_size = file := by
  obtain ⟨t, ht, -, -, hreceived⟩ := readLoop_spec junk (new_inv hB fresh) hturns
  have hsize := hreceived.size
  have hposition := hreceived.position
  have hstored := hreceived.stored
  simp only [new, Nat.zero_add, Nat.zero_max] at hsize hposition hstored
  refine ⟨t, (run_bind_ok ht).trans rfl, hposition, hsize, ?_⟩
  rw [hsize]
  exact hstored

/-! ### Writing one -/

@[simp] theorem dumpLoop_zero (base : Nat) (ns : List Node) (i : Nat) (pos : Int) :
    dumpLoop base ns i pos 0 = some [] := by
  cases ns <;> rfl

/-- A turn that writes `len` bytes from offset `diff` on. -/
theorem dumpLoop_cons {base : Nat} {node : Node} {ns : List Node} {i p n : Nat} {diff len : Int}
    (hn : 0 < n) (hdiff : Stream.asInt (p % base) = diff)
    (hlen : (if (n : Int) > base then (base : Int) else n) - diff = len) :
    dumpLoop base (node :: ns) i p n =
      (dumpLoop base ns (i + 1) (p + len) (n - len)).map (⟨i, diff, len⟩ :: ·) := by
  have hpos : (n : Int) > 0 := by omega
  have hmod : ((p : Int) % (base : Int)).toNat = p % base := by
    rw [← Int.natCast_emod, Int.toNat_natCast]
  rw [dumpLoop, if_pos hpos]
  simp only [hmod, hdiff, hlen]

/-- The first piece is one of the first node. -/
theorem dumpLoop_head {base : Nat} {ns : List Node} {i : Nat} {pos n : Int} {w : FileWrite}
    {ws : List FileWrite} (h : dumpLoop base ns i pos n = some (w :: ws)) : w.node = i := by
  cases ns with
  | nil =>
      rw [dumpLoop] at h
      split_ifs at h
      cases h
  | cons node ns =>
      by_cases hn : n > 0
      · rw [dumpLoop, if_pos hn] at h
        obtain ⟨rest, -, heq⟩ := Option.map_eq_some_iff.mp h
        rw [← (List.cons.inj heq).1]
      · rw [dumpLoop, if_neg hn] at h
        cases h

/-- From the start of a node on the loop takes whole nodes and then what is left: the
pieces are those of the window. -/
theorem dumpLoop_aligned {base : Nat} (hbase : 0 < base) (ns : List Node) (i : Nat) {n : Nat}
    (hroom : n ≤ base * ns.length) :
    ∃ ws, dumpLoop base ns i ((base * i : Nat) : Int) n = some ws ∧
      (∀ w ∈ ws, 0 ≤ w.off ∧ 0 < w.len) ∧ Tiles base (ws.map FileWrite.iov) (base * i) n := by
  induction ns generalizing i n with
  | nil =>
      have hzero : n = 0 := by simpa using hroom
      subst hzero
      exact ⟨[], rfl, fun w hw => absurd hw List.not_mem_nil, rfl⟩
  | cons node ns ih =>
      by_cases h0 : n = 0
      · subst h0
        exact ⟨[], dumpLoop_zero .., fun w hw => absurd hw List.not_mem_nil, rfl⟩
      · have hdiff : Stream.asInt (base * i % base) = 0 := by
          rw [Nat.mul_mod_right]
          rfl
        rw [List.length_cons, Nat.mul_succ] at hroom
        have hlen : (if (n : Int) > base then (base : Int) else n) - 0 = (min base n : Nat) := by
          split_ifs <;> omega
        -- behind this node there is nothing left, or the next node starts
        obtain ⟨ws, hws, hgood, htiles⟩ : ∃ ws,
            dumpLoop base ns (i + 1) (((base * i : Nat) : Int) + (min base n : Nat))
              (n - (min base n : Nat)) = some ws ∧ (∀ w ∈ ws, 0 ≤ w.off ∧ 0 < w.len) ∧
            Tiles base (ws.map FileWrite.iov) (base * i + min base n) (n - min base n) := by
          by_cases hlast : n ≤ base
          · rw [min_eq_right hlast, Int.sub_self, Nat.sub_self]
            exact ⟨[], dumpLoop_zero .., fun w hw => absurd hw List.not_mem_nil, rfl⟩
          · obtain ⟨ws, hws, hgood, htiles⟩ := ih (i + 1) (n := n - base) (by omega)
            rw [min_eq_left (by omega)]
            rw [Nat.mul_succ] at hws htiles
            rw [Nat.cast_add, Nat.cast_sub (by omega)] at hws
            exact ⟨ws, hws, hgood, htiles⟩
        refine ⟨⟨i, 0, (min base n : Nat)⟩ :: ws, ?_, ?_, ?_⟩
        · rw [dumpLoop_cons (Nat.pos_of_ne_zero h0) hdiff hlen, hws]
          rfl
        · rintro w hw
          rcases List.mem_cons.mp hw with rfl | hw
          · exact ⟨Int.le_refl 0, by show (0 : Int) < (min base n : Nat); omega⟩
          · exact hgood w hw
        · exact ⟨rfl, by show 0 + min base n ≤ base; omega, Nat.min_le_right _ _, htiles⟩

/-! ### The whole loop -/

/-- The loop gets it right: every length is positive, no null pointer is followed, and
what is written is the window. -/
structure Dumps (s : ByteArray) (ws : List FileWrite) : Prop where
  run : writeToFile true s = .ok (true, ws) s
  positive : ∀ w ∈ ws, 0 ≤ w.off ∧ 0 < w.len
  window : Tiles s.m_baseSize (ws.map FileWrite.iov) s.m_position s.getReadSize

/-- Nothing is left to write. -/
theorem dumps_nothing {s : ByteArray} (h : s.getReadSize = 0) : Dumps s [] := by
  refine ⟨?_, fun w hw => absurd hw List.not_mem_nil, h⟩
  simp only [writeToFile, if_true, h, Nat.cast_zero, dumpLoop_zero]

/-- The first turn, when something is left: in the node of the position. -/
theorem writeToFile_eq {s : ByteArray} (h : s.Inv) (hpos : 0 < s.getReadSize) :
    ∃ node ns, s.m_nodes.drop (s.m_position / s.m_baseSize) = node :: ns ∧
      s.m_nodes.length = s.m_position / s.m_baseSize + ns.length + 1 ∧
      writeToFile true s =
        match dumpLoop s.m_baseSize (node :: ns) (s.m_position / s.m_baseSize) s.m_position
          s.getReadSize with
        | none => .error .nullptr s
        | some ws => .ok (true, ws) s := by
  have hps := h.pos_le_size
  have hsc := h.size_le_capacity
  have hread : s.getReadSize = s.m_size - s.m_position := rfl
  have hlt : s.m_position / s.m_baseSize < s.m_nodes.length :=
    h.div_lt_iff.mpr (by omega)
  have hcur : s.m_cur = some (s.m_position / s.m_baseSize) := by
    rw [h.cur, nodeAt, if_pos hlt]
  refine ⟨_, _, List.drop_eq_getElem_cons hlt, ?_, ?_⟩
  · rw [List.length_drop]
    omega
  · rw [← List.drop_eq_getElem_cons hlt]
    simp only [writeToFile, if_true, hcur, Option.map_some, Option.getD_some]

/-- An offset comes through as itself when it is below `2^31`. -/
theorem asInt_eq_self_iff (v : Nat) : Stream.asInt v = v ↔ v < 2147483648 := by
  unfold Stream.asInt
  refine ⟨fun h => ?_, fun h => Int.bmod_eq_of_le (by omega) (by omega)⟩
  have hlt := @Int.bmod_lt v 4294967296 (by decide)
  omega

/-- The exact dump, from the loop. -/
theorem dumps_of_fits {s : ByteArray} (h : s.Inv) (hpos : 0 < s.getReadSize)
    (hoffset : s.m_position % s.m_baseSize < 2147483648)
    (hfits : s.m_position % s.m_baseSize = 0 ∨ s.m_baseSize ≤ s.getReadSize) :
    ∃ ws, Dumps s ws := by
  obtain ⟨node, ns, -, hlength, hrun⟩ := writeToFile_eq h hpos
  have hbase := h.base_pos
  have hps := h.pos_le_size
  have hsc := h.size_le_capacity
  have hcap := h.capacity
  have hread : s.getReadSize = s.m_size - s.m_position := rfl
  have hdiv := Nat.div_add_mod s.m_position s.m_baseSize
  have hmod := Nat.mod_lt s.m_position hbase
  generalize s.m_position / s.m_baseSize = i at hlength hrun hdiv
  rw [hlength, Nat.mul_succ, Nat.mul_add] at hcap
  by_cases h0 : s.m_position % s.m_baseSize = 0
  · -- the position is the start of a node
    rw [h0, Nat.add_zero] at hdiv
    obtain ⟨ws, hws, hgood, htiles⟩ := dumpLoop_aligned hbase (node :: ns) i
      (n := s.getReadSize) (by rw [List.length_cons, Nat.mul_succ]; omega)
    rw [hdiv] at hws htiles
    exact ⟨ws, by rw [hrun, hws], hgood, htiles⟩
  · -- the rest of the node, and then whole nodes
    have hwhole := hfits.resolve_left h0
    have hlen : (if (s.getReadSize : Int) > s.m_baseSize then (s.m_baseSize : Int)
        else s.getReadSize) - (s.m_position % s.m_baseSize : Nat) =
          (s.m_baseSize - s.m_position % s.m_baseSize : Nat) := by
      split_ifs <;> omega
    obtain ⟨ws, hws, hgood, htiles⟩ := dumpLoop_aligned hbase ns (i + 1)
      (n := s.getReadSize - (s.m_baseSize - s.m_position % s.m_baseSize)) (by omega)
    have hnext : s.m_baseSize * (i + 1) =
        s.m_position + (s.m_baseSize - s.m_position % s.m_baseSize) := by
      rw [Nat.mul_succ]
      omega
    have hle : s.m_baseSize - s.m_position % s.m_baseSize ≤ s.getReadSize := by omega
    rw [hnext, Nat.cast_add, Nat.cast_sub hle] at hws
    rw [hnext] at htiles
    refine ⟨⟨i, (s.m_position % s.m_baseSize : Nat),
      (s.m_baseSize - s.m_position % s.m_baseSize : Nat)⟩ :: ws, ?_, ?_, ?_⟩
    · rw [hrun, dumpLoop_cons hpos ((asInt_eq_self_iff _).mpr hoffset) hlen, hws]
      rfl
    · intro w hw
      rcases List.mem_cons.mp hw with rfl | hw
      · exact ⟨Int.natCast_nonneg _, Int.natCast_pos.mpr (by omega)⟩
      · exact hgood w hw
    · exact ⟨hdiv, by simp only [FileWrite.iov, Int.toNat_natCast]; omega,
        by simp only [FileWrite.iov, Int.toNat_natCast]; omega, htiles⟩

/-- What a dump that is right says of its first piece. -/
theorem fits_of_dumps {s : ByteArray} (h : s.Inv) (hpos : 0 < s.getReadSize)
    {ws : List FileWrite} (hdumps : Dumps s ws) :
    s.m_position % s.m_baseSize < 2147483648 ∧
      (s.m_position % s.m_baseSize = 0 ∨ s.m_baseSize ≤ s.getReadSize) := by
  obtain ⟨node, ns, -, hlength, hrun⟩ := writeToFile_eq h hpos
  have hdiv := Nat.div_add_mod s.m_position s.m_baseSize
  generalize s.m_position / s.m_baseSize = i at hlength hrun hdiv
  rw [dumpLoop_cons hpos rfl rfl, hdumps.run] at hrun
  split at hrun
  · cases hrun
  · rename_i ws' hws'
    injection hrun with hpair
    rw [← (Prod.mk.inj hpair).2] at hws'
    obtain ⟨rest, hrest, rfl⟩ := Option.map_eq_some_iff.mp hws'
    obtain ⟨⟨hoff, hlen⟩, -⟩ := List.forall_mem_cons.mp hdumps.positive
    obtain ⟨hstart, -, -, hbehind⟩ := hdumps.window
    simp only [FileWrite.iov] at hoff hlen hstart hbehind
    -- the offset of the first piece is the one of the position in its node
    have hoffset : Stream.asInt (s.m_position % s.m_baseSize) =
        (s.m_position % s.m_baseSize : Nat) := by omega
    refine ⟨(asInt_eq_self_iff _).mp hoffset, ?_⟩
    by_contra hshort
    rw [not_or] at hshort
    rw [hoffset, if_neg (by omega)] at hbehind hrest
    -- so bytes are left for a second piece, which starts too early for the node it is in
    cases rest with
    | nil =>
        have hleft : s.getReadSize - ((s.getReadSize : Int) -
          (s.m_position % s.m_baseSize : Nat)).toNat = 0 := hbehind
        omega
    | cons w rest =>
        obtain ⟨hsecond, -⟩ := hbehind
        simp only [FileWrite.iov, dumpLoop_head hrest, Nat.mul_succ] at hsecond
        omega

/-! ### The file -/

/-- What is asked of `writeToFile`: it writes positive lengths and follows no null pointer,
what is in the file are the bytes from the position up to the size, which is what `toString`
gives, and `readFromFile` of them into an empty array of any base size gives them back. -/
def DumpsExactly (s : ByteArray) : Prop :=
  ∃ ws, Dumps s ws ∧
    s.dumped ws = slice s.bytes s.m_position (s.m_size - s.m_position) ∧
    toString s = .ok (s.dumped ws) s ∧
    ∀ B, 1 ≤ B → ∀ fresh junk turns, (s.dumped ws).length / B < turns →
      ∃ t, readFromFile junk turns (some (s.dumped ws)) (new B fresh) = .ok (some true) t ∧
        t.m_position = (s.dumped ws).length ∧ t.m_size = (s.dumped ws).length ∧
        slice t.bytes 0 t.m_size = s.dumped ws

/-- **The dump is exact** if and only if nothing is left to write, or the offset of the
position in its node fits an `int` and is 0 or a node's worth of bytes is left. -/
theorem writeToFile_iff {host : Endian} {max_size : Nat} {s : ByteArray}
    (h : Stream.Reachable host max_size s) :
    DumpsExactly s ↔ s.getReadSize = 0 ∨ (s.m_position % s.m_baseSize < 2147483648 ∧
      (s.m_position % s.m_baseSize = 0 ∨ s.m_baseSize ≤ s.getReadSize)) := by
  have hinv := h.inv
  have hps := hinv.pos_le_size
  have hsc := hinv.size_le_capacity
  have hcap := hinv.capacity
  have hread : s.getReadSize = s.m_size - s.m_position := rfl
  constructor
  · rintro ⟨ws, hdumps, -⟩
    by_cases h0 : s.getReadSize = 0
    · exact .inl h0
    · exact .inr (fits_of_dumps hinv (Nat.pos_of_ne_zero h0) hdumps)
  · intro hfits
    obtain ⟨ws, hdumps⟩ : ∃ ws, Dumps s ws := by
      by_cases h0 : s.getReadSize = 0
      · exact ⟨[], dumps_nothing h0⟩
      · obtain ⟨hoffset, hwhole⟩ := hfits.resolve_left h0
        exact dumps_of_fits hinv (Nat.pos_of_ne_zero h0) hoffset hwhole
    have hdumped : s.dumped ws = slice s.bytes s.m_position s.getReadSize :=
      gather_of_tiles hinv.blocks hdumps.window (by omega)
    exact ⟨ws, hdumps, hdumped, hdumped ▸ toString_spec hinv,
      fun B hB fresh junk turns hturns => readFromFile_spec hB fresh junk hturns⟩

/-- Five bytes in blocks of two from position 1 on: a byte, and two whole blocks. -/
theorem writeToFile_iff_five : ∃ s : ByteArray, s.m_position = 1 ∧ DumpsExactly s := by
  obtain ⟨s, hwrite, t, hback, hbase, hpos, hsize⟩ : ∃ s,
      Call.exec .little 64 (.op (.write (fun _ _ => 0) [1, 2, 3, 4, 5])) (new 2 fun _ _ => 0) =
        .ok () s ∧
      ∃ t, Call.exec .little 64 (.op (.setPosition 1)) s = .ok () t ∧ t.m_baseSize = 2 ∧
        t.m_position = 1 ∧ t.m_size = 5 := ⟨_, rfl, _, rfl, rfl, rfl, rfl⟩
  have hreach : Stream.Reachable .little 64 t :=
    .returns _ (.returns _ (.new (by decide) _) hwrite) hback
  refine ⟨t, hpos, (writeToFile_iff hreach).mpr (.inr ?_)⟩
  rw [getReadSize, hbase, hpos, hsize]
  decide

/-- **Three of four bytes**: two are written, the position is taken to the next node, of
which there is none, and a null pointer is followed. -/
theorem writeToFile_null :
    ¬ ∀ (host : Endian) (max_size : Nat) (s : ByteArray), Stream.Reachable host max_size s →
      DumpsExactly s := by
  intro h
  obtain ⟨s, hwrite, t, hback, hnull⟩ : ∃ s,
      Call.exec .little 64 (.op (.write (fun _ _ => 0) [1, 2, 3, 4])) (new 4 fun _ _ => 0) =
        .ok () s ∧
      ∃ t, Call.exec .little 64 (.op (.setPosition 1)) s = .ok () t ∧
        writeToFile true t = .error .nullptr t := ⟨_, rfl, _, rfl, rfl⟩
  have hreach : Stream.Reachable .little 64 t :=
    .returns _ (.returns _ (.new (by decide) _) hwrite) hback
  obtain ⟨ws, hdumps, -⟩ := h .little 64 t hreach
  have hrun := hdumps.run
  rw [hnull] at hrun
  cases hrun

end ByteArray

end Will
