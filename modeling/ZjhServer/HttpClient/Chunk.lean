/-
ZjhServer/HttpClient/Chunk.lean

The header of a chunk as `HttpResponseParser` reads it (server/http/httpclient_parser.rl): a size
in hexadecimal digits, and extensions.

The size goes through `strtol` and an `int`, so that of a chunk of 2^31 bytes or more is
another one, and an extension is set as a header of the response (`execute_chunk`).
-/
import ZjhServer.HttpClient.Head

namespace Will

namespace Http

namespace Client

open Transducer

/-! ### Productions -/

def xdigit (c : UInt8) : Bool := digit c || (65 ≤ c && c ≤ 70) || (97 ≤ c && c ≤ 102)

/-- `chunk_extension`, of which the value may be missing. -/
structure ChunkExtension where
  name : Bytes
  value : Option Bytes
  name_ne : name ≠ []
  name_token : ∀ c ∈ name, token c = true
  value_token : ∀ w ∈ value, w ≠ [] ∧ ∀ c ∈ w, token c = true

def ChunkExtension.text (e : ChunkExtension) : Bytes :=
  [59] ++ e.name ++
    match e.value with
    | some w => [61] ++ w
    | none => []

/-- `Chunked_Header` -/
structure ChunkHeader where
  size : Bytes
  extensions : List ChunkExtension
  ending : Bytes
  size_ne : size ≠ []
  size_xdigit : ∀ c ∈ size, xdigit c = true
  ending_mem : ending ∈ CRLF

def ChunkHeader.text (h : ChunkHeader) : Bytes :=
  h.size ++ h.extensions.flatMap ChunkExtension.text ++ h.ending

/-! ### What they say -/

def View.chunkSize (v : View) (size : Bytes) : View :=
  { v with content_len := intOf 16 size, chunked := true, chunks_done := intOf 16 size ≤ 0 }

def View.extension (v : View) (e : ChunkExtension) : View :=
  { v with data := { v.data with m_data := v.data.m_data.setHeader e.name (e.value.getD []) } }

def View.chunk (v : View) (h : ChunkHeader) : View :=
  h.extensions.foldl View.extension (v.chunkSize h.size)

/-! ### Rows -/

def xdigits : List Nat := (List.range 256).filter (within Classes.xdigit)

theorem mem_xdigits {c : UInt8} (h : xdigit c = true) :
    c.toNat ∈ xdigits ∧ digitValue c < 16 := by
  have hall : ∀ n < 256, xdigit (UInt8.ofNat n) = true →
      within Classes.xdigit n = true ∧ digitValue (UInt8.ofNat n) < 16 := by
    decide +kernel
  have hc := hall _ c.toNat_lt (by rwa [UInt8.ofNat_toNat])
  rw [UInt8.ofNat_toNat] at hc
  exact ⟨List.mem_filter.mpr ⟨List.mem_range.mpr c.toNat_lt, hc.1⟩, hc.2⟩

/-- The states behind a size, a name and a value, with what they have left to do. -/
def chunkParts : List (Nat × List Action) :=
  [(2, [.chunk_size]), (5, [.write_field, .start_value, .write_value]), (7, [.write_value])]

/-- The end of the header behind a part. -/
def chunkEnd (x : Nat × List Action) : LineEnd := ⟨x.1, 3, x.2, [.done], 120⟩

/-- The states that take digits of the size, with what they do. -/
def xdigitRows : List (Nat × List Action × Nat) := [(1, [.mark], 2), (2, [], 2)]

/-- The states that take bytes of a name or a value. -/
def extensionRows : List (Nat × List Action × Nat) :=
  [(4, [.start_field], 5), (5, [], 5), (6, [.start_value], 7), (7, [], 7)]

theorem chunk_checked :
    (∀ x ∈ chunkParts, (chunkEnd x).Read ∧ machine.next x.1 59 = some (x.2, 4)) ∧
    machine.next 5 61 = some ([.write_field, .start_value], 6) ∧
    (∀ x ∈ xdigitRows,
      onRow x.1 (fun r => xdigits.all fun n => rowNext r n == some x.2) = true) ∧
    ∀ x ∈ extensionRows,
      onRow x.1 (fun r => tokens.all fun n => rowNext r n == some x.2) = true := by
  decide +kernel

theorem xdigit_next {q q' : Nat} {acts : List Action} (hx : (q, acts, q') ∈ xdigitRows)
    {c : UInt8} (hc : xdigit c = true) : machine.next q c = some (acts, q') := by
  have hrow := chunk_checked.2.2.1 _ hx
  rw [onRow_eq, List.all_eq_true] at hrow
  exact eq_of_beq (hrow _ (mem_xdigits hc).1)

theorem extension_next {q q' : Nat} {acts : List Action} (hx : (q, acts, q') ∈ extensionRows)
    {c : UInt8} (hc : token c = true) : machine.next q c = some (acts, q') := by
  have hrow := chunk_checked.2.2.2 _ hx
  rw [onRow_eq, List.all_eq_true] at hrow
  exact eq_of_beq (hrow _ (mem_tokens hc))

/-! ### Parts -/

section

variable {buffer : Bytes} {p : Nat} {s : HttpResponseParser}

/-- A byte that a part of the header ends with. -/
def separators : List UInt8 := [59, 10, 13]

/-- Behind a part at offset `p`: what it has left to do makes the parser show `v`. -/
def Leaves (buffer : Bytes) (p : Nat) (x : Nat × List Action) (s : HttpResponseParser) (v : View) :
    Prop :=
  x ∈ chunkParts ∧ ∃ s', x.2.foldlM (fun s a => performed buffer p a s) s = some s' ∧ s'.view = v

/-- The size. -/
theorem size_reads {size : Bytes} (hne : size ≠ []) (hsize : ∀ c ∈ size, xdigit c = true)
    {c : UInt8} (hc : c ∈ separators) (hat : At buffer p (size ++ [c])) :
    machine.Reads (performed buffer) p size 1 s 2 (s.marked p) ∧
      Leaves buffer (p + size.length) (2, [.chunk_size]) (s.marked p) (s.view.chunkSize size) := by
  have hloop : machine.Reads (performed buffer) p size 1 s 2 (s.marked p) :=
    loop_reads hne (fun d hd =>
        xdigit_next (show (1, [.mark], 2) ∈ xdigitRows by decide) (hsize d (List.mem_of_head? hd)))
      (fun d hd => xdigit_next (by decide) (hsize d (List.mem_of_mem_tail hd))) rfl rfl
  have hend : 16 ≤ digitValue c ∧ c ≠ 120 ∧ c ≠ 88 := by
    simp only [separators, List.mem_cons, List.not_mem_nil, or_false] at hc
    rcases hc with rfl | rfl | rfl <;> decide
  have hnumber := hat.strtol (by decide) hne (fun d hd => (mem_xdigits (hsize d hd)).2) hend
  refine ⟨hloop, by decide, _, rfl, ?_⟩
  simp only [HttpResponseParser.marked, HttpResponseParser.setParser, hnumber]
  rfl

/-- The name of an extension. -/
theorem extensionName_reads (e : ChunkExtension) :
    ∃ s', machine.Reads (performed buffer) p e.name 4 s 5 s' ∧ s'.view = s.view ∧
      s'.parser.field_start = p := by
  refine ⟨s.setParser { s.parser with field_start := p }, ?_, rfl, rfl⟩
  exact loop_reads e.name_ne (fun d hd =>
      extension_next (show (4, [.start_field], 5) ∈ extensionRows by decide)
        (e.name_token d (List.mem_of_head? hd)))
    (fun d hd => extension_next (by decide) (e.name_token d (List.mem_of_mem_tail hd))) rfl rfl

/-- The length of the name is noted. -/
theorem write_field_named {start len : Nat} (h : s.parser.field_start = start) :
    ∃ s', performed buffer (start + len) .write_field s = some s' ∧ s'.view = s.view ∧
      Named s' start len := by
  refine ⟨_, rfl, rfl, h, ?_⟩
  show LEN s.parser.field_start (start + len) = len
  rw [h, LEN_eq (Nat.le_add_right ..), Nat.add_sub_cancel_left]

/-- An extension behind its semicolon. -/
theorem extension_reads (e : ChunkExtension) (hat : At buffer p e.text) :
    ∃ x s', machine.Reads (performed buffer) (p + 1) (e.text.drop 1) 4 s x.1 s' ∧
      Leaves buffer (p + e.text.length) x s' (s.view.extension e) := by
  obtain ⟨s₁, hname, hview₁, hstart⟩ :=
    extensionName_reads (p := p + 1) (s := s) e
  obtain ⟨s₂, hwrite, hview₂, hs₂⟩ :=
    @write_field_named _ _ _ e.name.length hstart
  have hkey : At buffer (p + 1) e.name := hat.left.right
  have hpos : p + ([59] ++ e.name).length = p + 1 + e.name.length := by
    rw [List.length_append, List.length_singleton, Nat.add_assoc]
  have hvalue := hat.right
  rw [hpos] at hvalue
  unfold View.extension
  rcases he : e.value with _ | w
  · -- the value is empty where the name ends
    have htext : e.text = [59] ++ e.name := by rw [ChunkExtension.text, he]; simp
    rw [he] at hvalue
    have hset := write_value_performed e.name_ne hkey hvalue (hs₂.marked _) rfl
    refine ⟨(5, [.write_field, .start_value, .write_value]), s₁, ?_, by decide,
      (s₂.marked (p + 1 + e.name.length)).wrote e.name [], ?_, ?_⟩
    · rw [htext]
      exact hname
    · rw [htext, hpos, List.foldlM_cons, hwrite]
      exact congrArg (·.bind some) hset
    · rw [view_wrote, view_marked, hview₂, hview₁]
      rfl
  · have htext : e.text = [59] ++ (e.name ++ ([61] ++ w)) := by
      rw [ChunkExtension.text, he]
      simp
    obtain ⟨hne, htoken⟩ := e.value_token w he
    rw [he] at hvalue
    have hequal : machine.Reads (performed buffer) (p + 1 + e.name.length) [61] 5 s₁ 6
        (s₂.marked (p + 1 + e.name.length)) := by
      refine .letter chunk_checked.2.1 rfl ?_
      rw [List.foldlM_cons, hwrite]
      rfl
    have hw : machine.Reads (performed buffer) (p + 1 + e.name.length + [61].length) w 6
        (s₂.marked (p + 1 + e.name.length)) 7
        ((s₂.marked (p + 1 + e.name.length)).marked (p + 1 + e.name.length + [61].length)) :=
      loop_reads hne (fun d hd =>
          extension_next (show (6, [.start_value], 7) ∈ extensionRows by decide)
            (htoken d (List.mem_of_head? hd)))
        (fun d hd => extension_next (by decide) (htoken d (List.mem_of_mem_tail hd))) rfl rfl
    have hset := write_value_performed e.name_ne hkey hvalue.right
      ((hs₂.marked (p + 1 + e.name.length)).marked _) rfl
    have hend : p + e.text.length = p + 1 + e.name.length + [61].length + w.length := by
      rw [htext]
      simp only [List.length_append, List.length_singleton]
      omega
    rw [hend, htext]
    refine ⟨(7, [.write_value]), _, hname.append (hequal.append hw), by decide, _,
      congrArg (·.bind some) hset, ?_⟩
    rw [view_wrote, view_marked, view_marked, hview₂, hview₁]
    rfl

theorem chunkParts_halt {x : Nat × List Action} (hx : x ∈ chunkParts) :
    x.2.any machine.halts = false := by
  simp only [chunkParts, List.mem_cons, List.not_mem_nil, or_false] at hx
  rcases hx with rfl | rfl | rfl <;> rfl

/-- Extensions behind a part. -/
theorem extensions_read (l : List ChunkExtension) {x : Nat × List Action} {v : View}
    (hx : Leaves buffer p x s v) (hat : At buffer p (l.flatMap ChunkExtension.text)) :
    ∃ y s', machine.Reads (performed buffer) p (l.flatMap ChunkExtension.text) x.1 s y.1 s' ∧
      Leaves buffer (p + (l.flatMap ChunkExtension.text).length) y s'
        (l.foldl View.extension v) := by
  induction l generalizing p x s v with
  | nil => exact ⟨x, s, .nil p _ s, hx⟩
  | cons e l ih =>
      rw [List.flatMap_cons] at hat ⊢
      obtain ⟨hmem, s₁, hs₁, hview⟩ := hx
      obtain ⟨z, s₂, hread, hz⟩ := extension_reads (s := s₁) e hat.left
      rw [hview] at hz
      obtain ⟨y, s₃, hrest, hy⟩ := ih hz hat.right
      obtain ⟨-, hsemicolon⟩ := chunk_checked.1 x hmem
      have hhalt : x.2.any machine.halts = false := chunkParts_halt hmem
      have htext : e.text = 59 :: e.text.drop 1 := by
        unfold ChunkExtension.text
        simp
      refine ⟨y, s₃, ?_, ?_⟩
      · have hfirst : machine.Reads (performed buffer) p e.text x.1 s z.1 s₂ := by
          rw [htext]
          exact .cons (.letter hsemicolon hhalt hs₁) hread
        exact hfirst.append hrest
      · rw [List.length_append, ← Nat.add_assoc]
        exact hy

end

/-- Extensions are headers, and nothing else. -/
theorem foldl_extension (l : List ChunkExtension) (v : View) :
    (l.foldl View.extension v).chunks_done = v.chunks_done := by
  induction l generalizing v with
  | nil => rfl
  | cons e l ih => exact ih (v.extension e)

/-- The size ends at a separator. -/
theorem ChunkHeader.separated (h : ChunkHeader) : ∃ c ∈ separators, h.size ++ [c] <+: h.text := by
  unfold ChunkHeader.text
  rcases h.extensions with _ | ⟨e, l⟩
  · rcases List.mem_pair.mp h.ending_mem with hending | hending <;> rw [hending]
    · exact ⟨10, by decide, [], by simp⟩
    · exact ⟨13, by decide, [10], by simp⟩
  · refine ⟨59, by decide, e.text.drop 1 ++ l.flatMap ChunkExtension.text ++ h.ending, ?_⟩
    simp [ChunkExtension.text]

/-- A size that passes for the last one: that of a chunk that is not empty may. -/
theorem intOf_nonpos (base : Nat) (w : Bytes) :
    intOf base w ≤ 0 ↔ min (digitsValue base w) (2 ^ 63 - 1) % 2 ^ 32 = 0 ∨
      2 ^ 31 ≤ min (digitsValue base w) (2 ^ 63 - 1) % 2 ^ 32 := by
  have hmin : (min (digitsValue base w : Int) (2 ^ 63 - 1)) =
      ((min (digitsValue base w) (2 ^ 63 - 1) : Nat) : Int) := by
    omega
  rw [intOf, hmin]
  generalize min (digitsValue base w) (2 ^ 63 - 1) = n
  rw [longToInt, BitVec.toInt_ofInt, Int.bmod_def]
  split_ifs <;> omega

/-- **The header of a chunk**: whatever follows it in the buffer, a call of `execute` that starts
over takes the header, and what the parser shows is what the header says.  A size is taken
for the last one by its lower 32 bits. -/
theorem execute_chunk (h : ChunkHeader) (rest : Bytes) (s : HttpResponseParser) (chunck : Bool)
    (hstart : (s.started chunck).parser.cs = httpclient_parser_start)
    (hlen : (h.text ++ rest).length < 2 ^ 31) :
    ∃ s', s.execute (h.text ++ rest) 0 chunck = .returned s' h.text.length ∧
      s'.view = (s.started chunck).view.chunk h ∧ s'.parser.body_start = h.text.length ∧
      s'.isFinished = 1 ∧
      (s'.parser.chunks_done = true ↔
        min (digitsValue 16 h.size) (2 ^ 63 - 1) % 2 ^ 32 = 0 ∨
          2 ^ 31 ≤ min (digitsValue 16 h.size) (2 ^ 63 - 1) % 2 ^ 32) := by
  have hat : At (h.text ++ rest) 0 (h.size ++ h.extensions.flatMap ChunkExtension.text) := by
    refine ⟨?_, by omega⟩
    rw [List.drop_zero, ChunkHeader.text, List.append_assoc]
    exact List.prefix_append _ _
  obtain ⟨c, hc, hprefix⟩ := h.separated
  have hsize : At (h.text ++ rest) 0 (h.size ++ [c]) :=
    ⟨by rw [List.drop_zero]; exact hprefix.trans (List.prefix_append _ _), by omega⟩
  obtain ⟨hread, hleaves⟩ := size_reads (s := (s.started chunck).clear) h.size_ne h.size_xdigit hc
    hsize
  obtain ⟨x, s₁, hrest, hmem, s₂, hs₂, hview⟩ := extensions_read h.extensions hleaves hat.right
  have hall := hread.append hrest
  rw [Nat.zero_add, ← List.length_append] at hs₂
  obtain ⟨t, hcall, hview', hcs, hbody⟩ := execute_halts (s := s.started chunck)
    (chunk_checked.1 x hmem).1 rfl (chunkParts_halt hmem) h.ending_mem hlen
    (by rw [hstart]; exact hall) hs₂
  have hshown : t.view = (s.started chunck).view.chunk h := hview'.trans hview
  refine ⟨t, hcall, hshown, hbody, isFinished_of_final (q := 120) hcs (by decide), ?_⟩
  have hdone : t.parser.chunks_done = decide (intOf 16 h.size ≤ 0) := by
    refine (congrArg View.chunks_done hshown).trans ?_
    exact foldl_extension h.extensions _
  rw [hdone, decide_eq_true_iff, intOf_nonpos]

/-- A chunk of two gigabytes is taken for the last one, and its extension for a header. -/
theorem execute_chunk_large :
    let data := ascii "80000000;a=b\r\n" ++ ascii "hello"
    ∃ s', (HttpResponseParser.new .zero).execute data 0 true = .returned s' 14 ∧
      s'.m_data.m_headers = [(ascii "a", ascii "b")] ∧ s'.parser.chunks_done = true := by
  let h : ChunkHeader := {
    size := ascii "80000000"
    extensions := [⟨ascii "a", some (ascii "b"), by decide, by decide +kernel,
      by decide +kernel⟩]
    ending := [13, 10]
    size_ne := by decide
    size_xdigit := by decide +kernel
    ending_mem := crlf_mem }
  obtain ⟨s', hcall, hview, -, -, hdone⟩ :=
    execute_chunk h (ascii "hello") (.new .zero) true rfl (by decide)
  refine ⟨s', hcall, (congrArg (·.data.m_data.m_headers) hview).trans ?_, hdone.mpr ?_⟩
  · decide
  · decide

end Client

end Http

end Will
