/-
ZjhServer/HttpClient/Head.lean

The head of a response as `HttpResponseParser` reads it: a status line and header lines.

What each line changes is told by `View.statusLine` and `View.headerLine`; `execute_head` says
that a call of `execute` on a buffer that begins with a head takes the head, and makes of it
what its lines say.  Then the parser is in one of four final states, of which
`httpclient_parser_is_finished` knows one.
-/
import ZjhServer.Http.Seen
import ZjhServer.HttpClient.Execute
import ZjhServer.HttpClient.Lines

namespace Will

namespace Http

namespace Client

open Transducer

/-! ### Numbers -/

theorem digitValue_lt {c : UInt8} {base : Nat} (h : digitValue c < base) (hbase : base ≤ 36) :
    isspace c = false ∧ c ≠ 45 ∧ c ≠ 43 := by
  have hne : digitValue c ≠ 36 := by omega
  refine ⟨?_, ?_, ?_⟩
  · rw [← Bool.not_eq_true, isspace_iff]
    intro hspace
    refine hne ?_
    unfold digitValue
    simp only [UInt8.le_iff_toNat_le, UInt8.reduceToNat]
    rw [if_neg (by omega), if_neg (by omega), if_neg (by omega)]
  · rintro rfl
    exact hne rfl
  · rintro rfl
    exact hne rfl

/-- Digits in front of something else. -/
theorem strtol_digits {base : Nat} {w v : Bytes} (hbase : base ≤ 36) (hne : w ≠ [])
    (hw : ∀ c ∈ w, digitValue c < base)
    (hv : ∀ c ∈ v.head?, base ≤ digitValue c ∧ c ≠ 120 ∧ c ≠ 88) :
    strtol (w ++ v) base = min (digitsValue base w : Int) (2 ^ 63 - 1) := by
  obtain ⟨c, w, rfl⟩ := List.exists_cons_of_ne_nil hne
  obtain ⟨hspace, hminus, hplus⟩ := digitValue_lt (hw c (List.mem_cons_self ..)) hbase
  have hdrop : (c :: w ++ v).dropWhile isspace = c :: w ++ v :=
    List.dropWhile_cons_of_neg (by rw [hspace]; decide)
  -- the byte behind a zero is no `x`: it is a digit or what follows the digits
  have hprefix : dropPrefix base (c :: w ++ v) = c :: w ++ v := by
    rw [dropPrefix, if_neg]
    rintro ⟨rfl, -, hx, -⟩
    rw [List.cons_append, List.tail_cons] at hx
    rcases w with _ | ⟨d, w⟩
    · rcases v with _ | ⟨d, v⟩
      · rcases hx with hx | hx <;> cases hx
      · obtain ⟨-, h120, h88⟩ := hv d rfl
        exact hx.elim h120 h88
    · have hd := hw d (List.mem_cons_of_mem _ (List.mem_cons_self ..))
      rcases hx with hx | hx <;>
      · obtain rfl : d = _ := hx
        exact absurd hd (by decide)
  have hdigits : digitsOf base (c :: w ++ v) = c :: w := by
    unfold digitsOf
    rw [List.takeWhile_append_of_pos (by simpa using hw)]
    rcases v with _ | ⟨d, v⟩
    · exact List.append_nil _
    · rw [List.takeWhile_cons_of_neg (by simpa using (hv d rfl).1), List.append_nil]
  have hhead : (c :: w ++ v).headD 0 = c := rfl
  rw [strtol, hdrop]
  simp only [hhead]
  rw [if_neg hminus, if_neg (by simp [hminus, hplus]), hprefix, hdigits]

/-! ### Lines of a head -/

/-- `CRLF` of the grammar -/
def CRLF : List Bytes := [[10], [13, 10]]

theorem crlf_mem : [13, 10] ∈ CRLF := by decide

def Digits (w : Bytes) : Prop := w ≠ [] ∧ ∀ c ∈ w, digit c = true

instance (w : Bytes) : Decidable (Digits w) := inferInstanceAs (Decidable (_ ∧ _))

/-- A `Status_Line`; its reason may begin with a carriage return. -/
structure StatusLine where
  major : Bytes
  minor : Bytes
  status : Bytes
  reason : Bytes
  ending : Bytes
  major_digits : Digits major
  minor_digits : Digits minor
  status_digits : Digits status
  reason_ne : reason ≠ []
  reason_first : ∀ c ∈ reason.head?, c ≠ 10
  reason_rest : ∀ c ∈ reason.tail, inLine c = true
  ending_mem : ending ∈ CRLF

def StatusLine.version (l : StatusLine) : Bytes :=
  [72, 84, 84, 80, 47] ++ l.major ++ [46] ++ l.minor

def StatusLine.text (l : StatusLine) : Bytes :=
  l.version ++ [32] ++ l.status ++ [32] ++ l.reason ++ l.ending

/-- A header line; the blanks in front of its value are no part of it. -/
structure HeaderLine where
  name : Bytes
  blanks : Bytes
  value : Bytes
  ending : Bytes
  name_ne : name ≠ []
  name_token : ∀ c ∈ name, token c = true
  blanks_space : ∀ c ∈ blanks, inLine c = true ∧ isspace c = true
  value_inLine : ∀ c ∈ value, inLine c = true
  value_first : ∀ c ∈ value.head?, isspace c = false
  ending_mem : ending ∈ CRLF

def HeaderLine.text (l : HeaderLine) : Bytes :=
  l.name ++ [58] ++ l.blanks ++ (l.value ++ l.ending)

def HeaderLine.kind (l : HeaderLine) : Kind := kindOf (l.name.map tolower)

/-- The value is one the grammar knows behind this name. -/
def HeaderLine.Known (l : HeaderLine) (k : Kind) : Prop :=
  l.kind = k ∧ k.Known (l.value.map tolower)

instance (l : HeaderLine) (k : Kind) : Decidable (l.Known k) := inferInstanceAs (Decidable (_ ∧ _))

structure Head where
  line : StatusLine
  fields : List HeaderLine
  ending : Bytes
  ending_mem : ending ∈ CRLF

def Head.text (h : Head) : Bytes := h.line.text ++ h.fields.flatMap HeaderLine.text ++ h.ending

/-! ### What the lines say -/

/-- What there is to see of a parser, but for its registers. -/
structure View where
  data : ParserData
  content_len : Int
  status : Int
  chunked : Bool
  chunks_done : Bool
  close : Bool
  deriving DecidableEq, Repr

def HttpResponseParser.view (s : HttpResponseParser) : View where
  data := s.toParserData
  content_len := s.parser.content_len
  status := s.parser.status
  chunked := s.parser.chunked
  chunks_done := s.parser.chunks_done
  close := s.parser.close

/-- Digits as a `long` and then as an `int`. -/
def intOf (base : Nat) (w : Bytes) : Int := longToInt (min (digitsValue base w : Int) (2 ^ 63 - 1))

/-- The version, or the error 1001, the status and the reason. -/
def View.statusLine (v : View) (l : StatusLine) : View :=
  let rsp := { v.data.m_data with
    m_version := (versionOf l.version l.version.length).getD v.data.m_data.m_version
    m_status := ⟨BitVec.ofInt 32 (intOf 10 l.status)⟩
    m_reason := l.reason }
  let m_error := if versionOf l.version l.version.length = none then 1001 else v.data.m_error
  { v with data := ⟨rsp, m_error⟩, status := intOf 10 l.status }

/-- The header, and what the grammar knows it to say. -/
def View.headerLine (v : View) (l : HeaderLine) : View :=
  { v with
    data := { v.data with m_data := v.data.m_data.setHeader l.name l.value }
    content_len := if l.Known .content_length then intOf 10 l.value else v.content_len
    chunked := v.chunked || l.Known .transfer_encoding
    close := v.close || l.Known .connection }

def View.head (v : View) (h : Head) : View := h.fields.foldl View.headerLine (v.statusLine h.line)

/-- **The header lines together**: the headers are set in their order, a flag by any line, the
length by the last line that has one. -/
theorem foldl_headerLine (fields : List HeaderLine) (v : View) :
    fields.foldl View.headerLine v = { v with
      data := { v.data with m_data := { v.data.m_data with
        m_headers := fields.foldl (fun m l => m.set l.name l.value) v.data.m_data.m_headers } }
      content_len := ((fields.filter fun l => l.Known .content_length).getLast?.map
        fun l => intOf 10 l.value).getD v.content_len
      chunked := v.chunked || fields.any fun l => l.Known .transfer_encoding
      close := v.close || fields.any fun l => l.Known .connection } := by
  induction fields generalizing v with
  | nil => simp
  | cons l fields ih =>
      rw [List.foldl_cons, ih, List.any_cons, List.any_cons, List.filter_cons, ← Bool.or_assoc,
        ← Bool.or_assoc]
      by_cases hlength : l.Known .content_length
      · rw [if_pos (by simpa using hlength), List.getLast?_cons]
        simp only [View.headerLine, hlength, if_true]
        generalize (fields.filter _).getLast? = last
        cases last <;> rfl
      · rw [if_neg (by simpa using hlength)]
        simp only [View.headerLine, hlength, if_false]
        rfl

/-- The final state a head ends in. -/
def Head.final (h : Head) : Nat :=
  match h.fields.getLast? with
  | some l =>
      if l.value = [] then
        match l.kind with
        | .transfer_encoding => 121
        | .connection => 122
        | .content_length => 123
        | .fields => 120
      else 120
  | none => 120

/-! ### Texts in a buffer -/

/-- The text `w` is at offset `p` of the buffer. -/
structure At (buffer : Bytes) (p : Nat) (w : Bytes) : Prop where
  here : w <+: buffer.drop p
  size : buffer.length < 2 ^ 63

section

variable {buffer w v : Bytes} {p : Nat}

theorem At.left (h : At buffer p (w ++ v)) : At buffer p w where
  here := (List.prefix_append w v).trans h.here
  size := h.size

theorem At.right (h : At buffer p (w ++ v)) : At buffer (p + w.length) v where
  here := by
    obtain ⟨rest, hrest⟩ := h.here
    refine ⟨rest, ?_⟩
    rw [← List.drop_drop, ← hrest, List.append_assoc, List.drop_left]
  size := h.size

theorem At.length_lt (h : At buffer p w) : w.length < 2 ^ 63 := by
  have hle := h.here.length_le
  have hsize := h.size
  rw [List.length_drop] at hle
  omega

/-- The callback gets the text. -/
theorem At.string (h : At buffer p w) :
    text (buffer.drop p) (LEN p (p + w.length)) = some w := by
  rw [LEN_eq (Nat.le_add_right ..), Nat.add_sub_cancel_left,
    text_some h.here.length_le h.length_lt, ← List.prefix_iff_eq_take.mp h.here]

/-- Digits in front of something else are the number. -/
theorem At.strtol {base : Nat} {c : UInt8} (h : At buffer p (w ++ [c])) (hbase : base ≤ 36)
    (hne : w ≠ []) (hw : ∀ d ∈ w, digitValue d < base)
    (hc : base ≤ digitValue c ∧ c ≠ 120 ∧ c ≠ 88) :
    longToInt (Http.strtol (buffer.drop p) base) = intOf base w := by
  obtain ⟨rest, hrest⟩ := h.here
  rw [← hrest, List.append_assoc, List.singleton_append, strtol_digits hbase hne hw]
  · rfl
  · rintro d hd
    obtain rfl := Option.some.inj hd
    exact hc

end

/-! ### Reading a line -/

/-- Read at offset `p`, the text takes the machine from `q` to `q'`, and what the parser shows
from `v` to `v'`. -/
def Parses (buffer : Bytes) (p : Nat) (w : Bytes) (q : Nat) (v : View) (q' : Nat) (v' : View) :
    Prop :=
  ∀ s, s.view = v → ∃ s', s'.view = v' ∧ machine.Reads (performed buffer) p w q s q' s'

section

variable {buffer w : Bytes} {p q q' q'' : Nat} {v v' v'' : View} {s s' : HttpResponseParser}

theorem Parses.append {u : Bytes} (hw : Parses buffer p w q v q' v')
    (hu : Parses buffer (p + w.length) u q' v' q'' v'') :
    Parses buffer p (w ++ u) q v q'' v'' := by
  intro s hs
  obtain ⟨s', hs', hread⟩ := hw s hs
  obtain ⟨s'', hs'', hread'⟩ := hu s' hs'
  exact ⟨s'', hs'', hread.append hread'⟩

/-- With the mark at an offset. -/
def HttpResponseParser.marked (s : HttpResponseParser) (p : Nat) : HttpResponseParser :=
  s.setParser { s.parser with mark := p }

/-- With a header more. -/
def HttpResponseParser.wrote (s : HttpResponseParser) (name value : Bytes) : HttpResponseParser :=
  s.setData { s.toParserData with m_data := s.m_data.setHeader name value }

@[simp] theorem view_marked (s : HttpResponseParser) (p : Nat) : (s.marked p).view = s.view := rfl

@[simp] theorem view_wrote (s : HttpResponseParser) (name value : Bytes) :
    (s.wrote name value).view = { s.view with
      data := { s.view.data with m_data := s.view.data.m_data.setHeader name value } } := rfl

/-- The registers of a header line: where its name began, and how long it is. -/
structure Named (s : HttpResponseParser) (start len : Nat) : Prop where
  field_start : s.parser.field_start = start
  field_len : s.parser.field_len = len

/-- What the first byte of a line does for the line before it. -/
def View.settle (v : View) (x : Nat × List Action) : View :=
  if Action.write_connection_close ∈ x.2 then { v with close := true } else v

/-- The first byte of a name. -/
theorem nameFirst_acts {x : Nat × List Action} {acts : List Action} (hx : x ∈ lineStarts)
    (hacts : acts = x.2 ++ [.start_field] ∨ acts = x.2 ++ [.start_value, .start_field])
    (s : HttpResponseParser) :
    acts.any machine.halts = false ∧
      ∃ s', acts.foldlM (fun s a => performed buffer p a s) s = some s' ∧
        s'.view = s.view.settle x ∧ s'.parser.field_start = p := by
  simp only [lineStarts, List.mem_cons, List.not_mem_nil, or_false] at hx
  rcases hx with rfl | rfl | rfl | rfl | rfl <;> rcases hacts with rfl | rfl <;>
    exact ⟨rfl, _, rfl, rfl, rfl⟩

theorem name_reads {x : Nat × List Action} (hx : x ∈ lineStarts) {name : Bytes} (hne : name ≠ [])
    (htoken : ∀ c ∈ name, token c = true) (s : HttpResponseParser) :
    ∃ q s', machine.Reads (performed buffer) p name x.1 s q s' ∧ Spells q (name.map tolower) ∧
      s'.view = s.view.settle x ∧ s'.parser.field_start = p := by
  obtain ⟨c, name, rfl⟩ := List.exists_cons_of_ne_nil hne
  obtain ⟨acts, q, hnext, hspells, hacts⟩ :=
    name_first hx (htoken c (List.mem_cons_self ..))
  obtain ⟨hhalt, s', hs', hview, hstart⟩ := nameFirst_acts (p := p) hx hacts s
  -- the letters behind the first one do nothing
  have hloop : ∀ (w u : Bytes) (p q : Nat), (∀ d ∈ w, token d = true) → Spells q u →
      ∃ q', machine.Reads (performed buffer) p w q s' q' s' ∧ Spells q' (u ++ w.map tolower) := by
    intro w
    induction w with
    | nil => exact fun u p q _ hu => ⟨q, .nil p q s', by simpa using hu⟩
    | cons d w ih =>
        intro u p q hw hu
        obtain ⟨q', hnext, hu'⟩ := name_step hu (hw d (List.mem_cons_self ..))
        obtain ⟨q'', hread, hu''⟩ :=
          ih _ (p + 1) q' (fun e he => hw e (List.mem_cons_of_mem _ he)) hu'
        refine ⟨q'', .cons (.letter hnext rfl rfl) hread, ?_⟩
        rwa [List.append_assoc] at hu''
  obtain ⟨q', hread, hq'⟩ := hloop name [tolower c] (p + 1) q
    (fun d hd => htoken d (List.mem_cons_of_mem _ hd)) hspells
  exact ⟨q', s', .cons (.letter hnext hhalt hs') hread, hq', hview, hstart⟩

/-- A name and its colon. -/
theorem field_reads {x : Nat × List Action} (hx : x ∈ lineStarts) {name : Bytes} (hne : name ≠ [])
    (htoken : ∀ c ∈ name, token c = true) (s : HttpResponseParser) :
    ∃ s', machine.Reads (performed buffer) p (name ++ [58]) x.1 s
        (kindOf (name.map tolower)).valueState s' ∧
      s'.view = s.view.settle x ∧ Named s' p name.length := by
  obtain ⟨q, s', hread, hspells, hview, hstart⟩ := name_reads hx hne htoken s
  refine ⟨_, hread.append (.letter (name_colon hspells) rfl rfl), hview, hstart, ?_⟩
  show LEN s'.parser.field_start (p + name.length) = name.length
  rw [hstart, LEN_eq (Nat.le_add_right ..), Nat.add_sub_cancel_left]

theorem Named.marked {start len : Nat} (hs : Named s start len) (p : Nat) :
    Named (s.marked p) start len := ⟨hs.field_start, hs.field_len⟩

theorem blanks_reads (k : Kind) {blanks : Bytes}
    (hblanks : ∀ c ∈ blanks, inLine c = true ∧ isspace c = true) {start len : Nat}
    (hs : Named s start len) :
    ∃ s', machine.Reads (performed buffer) p blanks k.valueState s k.valueState s' ∧
      s'.view = s.view ∧ Named s' start len := by
  induction blanks generalizing p s with
  | nil => exact ⟨s, .nil p _ s, rfl, hs⟩
  | cons c blanks ih =>
      obtain ⟨hc, hspace⟩ := hblanks c (List.mem_cons_self ..)
      obtain ⟨s', hread, hview, hs'⟩ :=
        ih (p := p + 1) (fun d hd => hblanks d (List.mem_cons_of_mem _ hd)) (hs.marked p)
      exact ⟨s', .cons (.letter (value_blank k hc hspace) rfl rfl) hread, hview, hs'⟩

/-- A value that is not empty. -/
theorem value_reads (k : Kind) {value : Bytes} (hne : value ≠ [])
    (hvalue : ∀ c ∈ value, inLine c = true) (hfirst : ∀ c ∈ value.head?, isspace c = false)
    (s : HttpResponseParser) :
    ∃ q, machine.Reads (performed buffer) p value k.valueState s q (s.marked p) ∧
      Says k q (value.map tolower) := by
  obtain ⟨c, value, rfl⟩ := List.exists_cons_of_ne_nil hne
  obtain ⟨q, hnext, hspelt⟩ := value_first k (hvalue c (List.mem_cons_self ..)) (hfirst c rfl)
  -- the bytes behind the first one do nothing
  have hloop : ∀ (s' : HttpResponseParser) (w u : Bytes) (p q : Nat), (∀ d ∈ w, inLine d = true) →
      u ≠ [] → Says k q u →
      ∃ q', machine.Reads (performed buffer) p w q s' q' s' ∧ Says k q' (u ++ w.map tolower) := by
    intro s' w
    induction w with
    | nil => exact fun u p q _ _ hu => ⟨q, .nil p q s', by simpa using hu⟩
    | cons d w ih =>
        intro u p q hw hne hu
        obtain ⟨q', hnext, hu'⟩ := value_step hu hne (hw d (List.mem_cons_self ..))
        obtain ⟨q'', hread, hu''⟩ :=
          ih _ (p + 1) q' (fun e he => hw e (List.mem_cons_of_mem _ he)) (by simp) hu'
        refine ⟨q'', .cons (.letter hnext rfl rfl) hread, ?_⟩
        rwa [List.append_assoc] at hu''
  obtain ⟨q', hread, hq'⟩ := hloop (s.marked p) value [tolower c] (p + 1) q
    (fun d hd => hvalue d (List.mem_cons_of_mem _ hd)) (List.cons_ne_nil _ _) hspelt
  exact ⟨q', .cons (.letter hnext rfl rfl) hread, hq'⟩

/-- The end of a line. -/
theorem ending_reads {e : LineEnd} (h : e.Read)
    (hhalt : (e.acts ++ e.last).any machine.halts = false)
    {ending : Bytes} (hending : ending ∈ CRLF) {s₁ s₂ : HttpResponseParser}
    (hacts : e.acts.foldlM (fun s a => performed buffer p a s) s = some s₁)
    (hlast : ∀ p, e.last.foldlM (fun s a => performed buffer p a s) s₁ = some s₂) :
    machine.Reads (performed buffer) p ending e.state s e.next s₂ := by
  obtain ⟨hreturn, hfeed, hboth⟩ := h
  rw [List.any_append, Bool.or_eq_false_iff] at hhalt
  rcases List.mem_pair.mp hending with rfl | rfl
  · refine .letter hboth (by rw [List.any_append, hhalt.1, hhalt.2]; rfl) ?_
    rw [List.foldlM_append, hacts]
    exact hlast p
  · exact .cons (.letter hreturn hhalt.1 hacts) (.letter hfeed hhalt.2 (hlast (p + 1)))

/-- The header is written. -/
theorem write_value_performed {name value : Bytes} {start m : Nat} (hne : name ≠ [])
    (hname : At buffer start name) (hvalue : At buffer m value) (hs : Named s start name.length)
    (hm : s.parser.mark = m) :
    performed buffer (m + value.length) .write_value s =
      some (s.wrote name value) := by
  have hlen : name.length ≠ 0 := fun h => hne (List.length_eq_zero_iff.mp h)
  have hkey := hname.string
  rw [LEN_eq (Nat.le_add_right ..), Nat.add_sub_cancel_left] at hkey
  have hval := hvalue.string
  simp only [performed, act, on_response_http_field, hs.field_start, hs.field_len, hm, if_neg hlen,
    hkey, hval]
  rfl

theorem digitValue_digit {c : UInt8} (h : digit c = true) : digitValue c < 10 := by
  rw [digit_iff] at h
  unfold digitValue
  simp only [UInt8.le_iff_toNat_le, UInt8.reduceToNat]
  rw [if_pos h]
  omega

end

/-! ### Header lines -/

/-- The state behind a line, and what is left to do for it. -/
def HeaderLine.after (l : HeaderLine) : Nat × List Action :=
  if l.value = [] then (l.kind.emptyNext, [])
  else if l.Known .connection then (43, [.write_connection_close])
  else (20, [])

/-- A line, but for what is left to do. -/
def View.written (v : View) (l : HeaderLine) : View := { v.headerLine l with close := v.close }

theorem HeaderLine.not_known {l : HeaderLine} (h : l.value = []) (k : Kind) : ¬ l.Known k := by
  rintro ⟨-, hk⟩
  rw [h] at hk
  cases k with
  | content_length => exact hk.1 rfl
  | fields => exact hk
  | transfer_encoding | connection => cases hk

theorem HeaderLine.after_mem (l : HeaderLine) : l.after ∈ lineStarts := by
  unfold HeaderLine.after
  split_ifs
  · cases l.kind <;> decide
  · decide
  · decide

theorem written_settle (v : View) (l : HeaderLine) :
    (v.written l).settle l.after = v.headerLine l := by
  unfold HeaderLine.after View.settle
  by_cases hclose : l.Known .connection
  · have hne : l.value ≠ [] := fun h => l.not_known h .connection hclose
    rw [if_neg hne, if_pos hclose, if_pos (List.mem_cons_self ..)]
    simp [View.written, View.headerLine, hclose]
  · rw [if_neg hclose, if_neg (by split_ifs <;> exact List.not_mem_nil)]
    simp [View.written, View.headerLine, hclose]

section

variable {buffer : Bytes} {p : Nat}

/-- The end of a line with no value. -/
theorem emptyEnd_reads {l : HeaderLine} (hempty : l.value = []) {start : Nat}
    {s : HttpResponseParser} (hname : At buffer start l.name) (hs : Named s start l.name.length)
    (hat : At buffer p (l.value ++ l.ending)) :
    ∃ s', machine.Reads (performed buffer) p (l.value ++ l.ending) l.kind.valueState s
        l.after.1 s' ∧
      s'.view = s.view.written l := by
  have hwrite := write_value_performed l.name_ne hname hat.left (hs.marked p) rfl
  have hacts : l.kind.emptyEnd.acts.foldlM (fun s a => performed buffer p a s) s =
      some ((s.marked p).wrote l.name l.value) := by
    rw [hempty] at hwrite ⊢
    exact congrArg (·.bind some) hwrite
  obtain ⟨-, hends, -⟩ := lineEnds_read
  refine ⟨(s.marked p).wrote l.name l.value, ?_, ?_⟩
  · rw [HeaderLine.after, if_pos hempty]
    have hread := ending_reads (hends l.kind) rfl l.ending_mem hacts fun p => rfl
    rw [hempty] at hread ⊢
    exact hread
  · simp [View.written, View.headerLine, l.not_known hempty]

/-- The value is read as a number. -/
theorem write_content_len_performed {value ending : Bytes} (hending : ending ∈ CRLF)
    (hvalue : value ≠ [] ∧ (value.map tolower).all digit = true)
    (hat : At buffer p (value ++ ending)) {s : HttpResponseParser} (hm : s.parser.mark = p) :
    performed buffer (p + value.length) .write_content_len s =
      some (s.setParser { s.parser with content_len := intOf 10 value }) := by
  have hdigits : ∀ c ∈ value, digitValue c < 10 := by
    intro c hc
    refine digitValue_digit ?_
    rw [← digit_tolower]
    exact List.all_eq_true.mp hvalue.2 _ (List.mem_map_of_mem hc)
  have hnumber : longToInt (strtol (buffer.drop p) 10) = intOf 10 value := by
    rcases List.mem_pair.mp hending with rfl | rfl
    · exact hat.strtol (by decide) hvalue.1 hdigits (by decide)
    · rw [show value ++ [13, 10] = value ++ [13] ++ [10] by simp] at hat
      exact hat.left.strtol (by decide) hvalue.1 hdigits (by decide)
  show some (s.setParser { s.parser with
    content_len := longToInt (strtol (buffer.drop s.parser.mark) 10) }) = _
  rw [hm, hnumber]

/-- The end of a line with a value. -/
theorem valueEnd_reads {l : HeaderLine} (hne : l.value ≠ []) {start q : Nat}
    {s : HttpResponseParser} (hname : At buffer start l.name) (hs : Named s start l.name.length)
    (hat : At buffer p (l.value ++ l.ending)) (hmark : s.parser.mark = p)
    (hspelt : Says l.kind q (l.value.map tolower)) :
    ∃ s', machine.Reads (performed buffer) (p + l.value.length) l.ending q s l.after.1 s' ∧
      s'.view = s.view.written l := by
  obtain ⟨hknown, hunknown⟩ := value_end hspelt (by simpa using hne)
  obtain ⟨-, -, hends, -⟩ := lineEnds_read
  have hwrite {s' : HttpResponseParser} (hs' : Named s' start l.name.length)
      (hm : s'.parser.mark = p) := write_value_performed l.name_ne hname hat.left hs' hm
  rw [HeaderLine.after, if_neg hne]
  by_cases hk : l.kind.Known (l.value.map tolower)
  · have hread := hends l.kind
    rw [← hknown hk]
    rcases hkind : l.kind with _ | _ | _ | _ <;> rw [hkind] at hk hread
    · -- chunked
      have hl : l.Known .transfer_encoding := ⟨hkind, hkind ▸ hk⟩
      have hlength : ¬ l.Known .content_length := fun h => by simp [HeaderLine.Known, hkind] at h
      have hclose : ¬ l.Known .connection := fun h => by simp [HeaderLine.Known, hkind] at h
      rw [if_neg hclose]
      refine ⟨_, ending_reads hread rfl l.ending_mem (congrArg (·.bind some) (hwrite hs hmark))
        fun p => rfl, ?_⟩
      simp only [View.written, View.headerLine, hl, hlength, if_false, decide_true, Bool.or_true]
      rfl
    · -- close: done with the next byte
      have hl : l.Known .connection := ⟨hkind, hkind ▸ hk⟩
      have hlength : ¬ l.Known .content_length := fun h => by simp [HeaderLine.Known, hkind] at h
      have hchunked : ¬ l.Known .transfer_encoding := fun h => by
        simp [HeaderLine.Known, hkind] at h
      rw [if_pos hl]
      refine ⟨_, ending_reads hread rfl l.ending_mem (congrArg (·.bind some) (hwrite hs hmark))
        fun p => rfl, ?_⟩
      simp only [View.written, View.headerLine, hlength, hchunked, if_false, decide_false,
        Bool.or_false]
      rfl
    · -- a length
      have hl : l.Known .content_length := ⟨hkind, hkind ▸ hk⟩
      have hchunked : ¬ l.Known .transfer_encoding := fun h => by
        simp [HeaderLine.Known, hkind] at h
      have hclose : ¬ l.Known .connection := fun h => by simp [HeaderLine.Known, hkind] at h
      rw [if_neg hclose]
      have hdigits : l.value ≠ [] ∧ (l.value.map tolower).all digit = true := ⟨hne, hk.2⟩
      have hlen := write_content_len_performed l.ending_mem hdigits hat hmark
      have hs' : Named (s.setParser { s.parser with content_len := intOf 10 l.value }) start
          l.name.length := ⟨hs.field_start, hs.field_len⟩
      have hacts : List.foldlM (fun s a => performed buffer (p + l.value.length) a s) s
          [Action.write_content_len, Action.write_value] =
          some ((s.setParser { s.parser with content_len := intOf 10 l.value }).wrote l.name
            l.value) := by
        rw [List.foldlM_cons, hlen]
        exact congrArg (·.bind some) (hwrite hs' hmark)
      refine ⟨_, ending_reads hread rfl l.ending_mem hacts fun p => rfl, ?_⟩
      · simp only [View.written, View.headerLine, hl, hchunked, if_true, decide_false,
          Bool.or_false]
        rfl
    · exact hk.elim
  · have hnot (k : Kind) : ¬ l.Known k := fun h => hk (h.1 ▸ h.2)
    rw [if_neg (hnot _)]
    refine ⟨_, ending_reads (hunknown hk) rfl l.ending_mem
      (congrArg (·.bind some) (hwrite hs hmark)) fun p => rfl, ?_⟩
    simp only [View.written, View.headerLine, hnot, if_false, decide_false, Bool.or_false]
    rfl

/-- **One header line.** -/
theorem line_parses {x : Nat × List Action} (hx : x ∈ lineStarts) (l : HeaderLine)
    (hat : At buffer p l.text) (v : View) :
    Parses buffer p l.text x.1 v l.after.1 ((v.settle x).written l) := by
  rintro s rfl
  obtain ⟨s₁, hfield, hview₁, hs₁⟩ := @field_reads buffer p _ hx _ l.name_ne l.name_token s
  obtain ⟨s₂, hblanks, hview₂, hs₂⟩ :=
    @blanks_reads buffer (p + (l.name ++ [58]).length) _ l.kind _ l.blanks_space _ _ hs₁
  have hname : At buffer p l.name := hat.left.left.left
  have hfront := hfield.append hblanks
  rw [← hview₁, ← hview₂]
  by_cases hempty : l.value = []
  · obtain ⟨s₃, hend, hview₃⟩ := emptyEnd_reads hempty hname hs₂ hat.right
    exact ⟨s₃, hview₃, hfront.append hend⟩
  · obtain ⟨q, hvalue, hspelt⟩ := value_reads
      (p := p + (l.name ++ [58] ++ l.blanks).length) l.kind hempty l.value_inLine l.value_first s₂
    obtain ⟨s₃, hend, hview₃⟩ := valueEnd_reads hempty hname (hs₂.marked _) hat.right rfl hspelt
    exact ⟨s₃, hview₃, hfront.append (hvalue.append hend)⟩

/-- The state behind header lines, and what is left to do for the last one. -/
def afterLines (x : Nat × List Action) : List HeaderLine → Nat × List Action
  | [] => x
  | l :: fields => afterLines l.after fields

theorem lines_parse {x : Nat × List Action} (hx : x ∈ lineStarts) (fields : List HeaderLine)
    (hat : At buffer p (fields.flatMap HeaderLine.text)) (v : View) :
    afterLines x fields ∈ lineStarts ∧
      ∃ v', Parses buffer p (fields.flatMap HeaderLine.text) x.1 v (afterLines x fields).1 v' ∧
        v'.settle (afterLines x fields) = fields.foldl View.headerLine (v.settle x) := by
  induction fields generalizing x p v with
  | nil => exact ⟨hx, v, fun s hs => ⟨s, hs, .nil p _ s⟩, rfl⟩
  | cons l fields ih =>
      rw [List.flatMap_cons] at hat ⊢
      obtain ⟨hmem, v', hrest, hsettle⟩ := ih l.after_mem hat.right ((v.settle x).written l)
      refine ⟨hmem, v', (line_parses hx l hat.left v).append hrest, ?_⟩
      rw [List.foldl_cons, ← written_settle]
      exact hsettle

end

/-! ### The status line -/

/-- The states that take digits, with what they do. -/
def digitRows : List (Nat × List Action × Nat) :=
  [(12, [], 13), (13, [], 13), (14, [], 15), (15, [], 15), (16, [.mark], 17), (17, [], 17)]

theorem statusLine_checked :
    (∀ x ∈ digitRows,
      onRow x.1 (fun r => (List.range 10).all fun n => rowNext r (48 + n) == some x.2) = true) ∧
    onRow 18 (fun r => ((List.range 256).filter (· != 10)).all fun n =>
      rowNext r n == some ([.mark], 19)) = true ∧
    onRow 19 (fun r => lineBytes.all fun n => rowNext r n == some ([], 19)) = true := by
  decide +kernel

theorem digit_next {x : Nat × List Action × Nat} (hx : x ∈ digitRows) {c : UInt8}
    (hc : digit c = true) : machine.next x.1 c = some x.2 := by
  have hrow := statusLine_checked.1 x hx
  rw [onRow_eq, List.all_eq_true] at hrow
  rw [digit_iff] at hc
  have hnext := eq_of_beq (hrow (c.toNat - 48) (List.mem_range.mpr (by omega)))
  rwa [Nat.add_sub_cancel' hc.1] at hnext

theorem reason_next {c : UInt8} :
    (c ≠ 10 → machine.next 18 c = some ([.mark], 19)) ∧
      (inLine c = true → machine.next 19 c = some ([], 19)) := by
  obtain ⟨-, hfirst, hrest⟩ := statusLine_checked
  rw [onRow_eq, List.all_eq_true] at hfirst hrest
  refine ⟨fun hc => eq_of_beq (hfirst _ ?_), fun hc => eq_of_beq (hrest _ (mem_lineBytes hc))⟩
  refine List.mem_filter.mpr ⟨List.mem_range.mpr c.toNat_lt, ?_⟩
  simpa using fun h => hc (UInt8.toNat_inj.mp h)

section

variable {buffer : Bytes} {p : Nat} {s : HttpResponseParser}

/-- A first byte that performs actions, and others that do nothing. -/
theorem loop_reads {acts : List Action} {q q' : Nat} {w : Bytes} (hne : w ≠ [])
    (hfirst : ∀ c ∈ w.head?, machine.next q c = some (acts, q'))
    (hrest : ∀ c ∈ w.tail, machine.next q' c = some ([], q')) {s' : HttpResponseParser}
    (hacts : acts.foldlM (fun s a => performed buffer p a s) s = some s')
    (hhalt : acts.any machine.halts = false) :
    machine.Reads (performed buffer) p w q s q' s' := by
  obtain ⟨c, w, rfl⟩ := List.exists_cons_of_ne_nil hne
  exact .cons (.letter (hfirst c rfl) hhalt hacts) (.silent hrest)

theorem digits_read {acts : List Action} {q q' : Nat} (hfirst : (q, acts, q') ∈ digitRows)
    (hrest : (q', [], q') ∈ digitRows) {w : Bytes} (hw : Digits w) {s' : HttpResponseParser}
    (hacts : acts.foldlM (fun s a => performed buffer p a s) s = some s')
    (hhalt : acts.any machine.halts = false) : machine.Reads (performed buffer) p w q s q' s' :=
  loop_reads hw.1 (fun c hc => digit_next hfirst (hw.2 c (List.mem_of_head? hc)))
    (fun c hc => digit_next hrest (hw.2 c (List.mem_of_mem_tail hc))) hacts hhalt

theorem version_reads (l : StatusLine) :
    machine.Reads (performed buffer) p l.version 1 s 15 (s.marked p) := by
  have hletters : machine.quiet 8 [84, 84, 80, 47] = some 12 := by decide +kernel
  have hfirst : machine.next 1 72 = some ([.mark], 8) := by decide +kernel
  have hpoint : machine.next 13 46 = some ([], 14) := by decide +kernel
  have hword : machine.Reads (performed buffer) p [72, 84, 84, 80, 47] 1 s 12 (s.marked p) :=
    .cons (.letter hfirst rfl rfl) (.of_quiet hletters)
  have hmajor : machine.Reads (performed buffer) (p + [72, 84, 84, 80, 47].length) l.major 12
      (s.marked p) 13 (s.marked p) :=
    digits_read (show (12, [], 13) ∈ digitRows by decide) (by decide) l.major_digits rfl rfl
  have hminor {p' : Nat} : machine.Reads (performed buffer) p' l.minor 14 (s.marked p) 15
      (s.marked p) :=
    digits_read (show (14, [], 15) ∈ digitRows by decide) (by decide) l.minor_digits rfl rfl
  exact ((hword.append hmajor).append (.letter hpoint rfl rfl)).append hminor

/-- The version is seen. -/
theorem http_version_performed {version : Bytes} (hat : At buffer p version)
    (hm : s.parser.mark = p) :
    performed buffer (p + version.length) .http_version s = some (s.setData
      ⟨{ s.m_data with m_version := (versionOf version version.length).getD s.m_data.m_version },
        if versionOf version version.length = none then 1001 else s.m_error⟩) := by
  have hstring := hat.string
  have hversion : versionOf (buffer.drop p) version.length = versionOf version version.length := by
    refine versionOf_congr ?_
    rw [List.take_length]
    exact (List.prefix_iff_eq_take.mp hat.here).symm
  rw [LEN_eq (Nat.le_add_right ..), Nat.add_sub_cancel_left] at hstring
  simp only [performed, act, hm, on_response_version, LEN_eq (Nat.le_add_right ..),
    Nat.add_sub_cancel_left, hstring, hversion]
  rcases versionOf version version.length with _ | v
  · rfl
  · rfl

theorem status_code_performed {status : Bytes} (hstatus : Digits status)
    (hat : At buffer p (status ++ [32])) (hm : s.parser.mark = p) (p' : Nat) :
    performed buffer p' .status_code s = some
      ((s.setParser { s.parser with status := intOf 10 status }).setData { s.toParserData with
        m_data := { s.m_data with m_status := ⟨BitVec.ofInt 32 (intOf 10 status)⟩ } }) := by
  have hdigits : ∀ c ∈ status, digitValue c < 10 := fun c hc => digitValue_digit (hstatus.2 c hc)
  have hnumber := hat.strtol (by decide) hstatus.1 hdigits (by decide)
  simp only [performed, act, on_response_status, atoi, HttpResponseParser.setParser, hm, hnumber]
  rfl

theorem reason_phrase_performed {reason : Bytes} (hat : At buffer p reason)
    (hm : s.parser.mark = p) :
    performed buffer (p + reason.length) .reason_phrase s = some (s.setData { s.toParserData with
      m_data := { s.m_data with m_reason := reason } }) := by
  simp only [performed, act, on_response_reason, hm, hat.string]
  rfl

/-- The version, up to its blank. -/
theorem version_parses (l : StatusLine) (hat : At buffer p l.version) (v : View) :
    Parses buffer p (l.version ++ [32]) 1 v 16 { v with data :=
      ⟨{ v.data.m_data with
          m_version := (versionOf l.version l.version.length).getD v.data.m_data.m_version },
        if versionOf l.version l.version.length = none then 1001 else v.data.m_error⟩ } := by
  rintro s rfl
  have hblank : machine.next 15 32 = some ([.http_version], 16) := by decide +kernel
  have hversion := http_version_performed (s := s.marked p) hat rfl
  exact ⟨_, rfl, (version_reads l).append (.letter hblank rfl (congrArg (·.bind some) hversion))⟩

/-- The status, up to its blank. -/
theorem status_parses {status : Bytes} (hstatus : Digits status)
    (hat : At buffer p (status ++ [32])) (v : View) :
    Parses buffer p (status ++ [32]) 16 v 18 { v with
      data := { v.data with
        m_data := { v.data.m_data with m_status := ⟨BitVec.ofInt 32 (intOf 10 status)⟩ } }
      status := intOf 10 status } := by
  rintro s rfl
  have hblank : machine.next 17 32 = some ([.status_code], 18) := by decide +kernel
  have hdigits : machine.Reads (performed buffer) p status 16 s 17 (s.marked p) :=
    digits_read (show (16, [.mark], 17) ∈ digitRows by decide) (by decide) hstatus rfl rfl
  have hcode := status_code_performed (s := s.marked p) hstatus hat rfl (p + status.length)
  exact ⟨_, rfl, hdigits.append (.letter hblank rfl (congrArg (·.bind some) hcode))⟩

/-- The reason, up to the line end. -/
theorem reason_parses (l : StatusLine) (hat : At buffer p l.reason) (v : View) :
    Parses buffer p (l.reason ++ l.ending) 18 v 20 { v with
      data := { v.data with m_data := { v.data.m_data with m_reason := l.reason } } } := by
  rintro s rfl
  have hread : machine.Reads (performed buffer) p l.reason 18 s 19 (s.marked p) :=
    loop_reads l.reason_ne (fun c hc => reason_next.1 (l.reason_first c hc))
      (fun c hc => reason_next.2 (l.reason_rest c hc)) rfl rfl
  have hphrase := reason_phrase_performed (s := s.marked p) hat rfl
  exact ⟨_, rfl, hread.append (ending_reads lineEnds_read.1 rfl l.ending_mem
    (congrArg (·.bind some) hphrase) fun p => rfl)⟩

/-- **The status line.** -/
theorem statusLine_parses (l : StatusLine) (hat : At buffer p l.text) (v : View) :
    Parses buffer p l.text httpclient_parser_start v 20 (v.statusLine l) := by
  have htext : l.text = l.version ++ [32] ++ (l.status ++ [32]) ++ (l.reason ++ l.ending) := by
    simp only [StatusLine.text, List.append_assoc]
  rw [htext] at hat ⊢
  exact ((version_parses l hat.left.left.left v).append
    (status_parses l.status_digits hat.left.right _)).append (reason_parses l hat.right.left _)

end

/-! ### The end of a header -/

/-- A line end that ends the header: a call of `execute` takes what is in front of it, and it. -/
theorem execute_halts {e : LineEnd} (he : e.Read) (hlast : e.last = [.done])
    (hacts : e.acts.any machine.halts = false) {s s' s'' : HttpResponseParser}
    {w ending rest : Bytes} (hending : ending ∈ CRLF)
    (hlen : (w ++ ending ++ rest).length < 2 ^ 31)
    (hread : machine.Reads (performed (w ++ ending ++ rest)) 0 w s.parser.cs s.clear e.state s')
    (hs'' : e.acts.foldlM (fun s a => performed (w ++ ending ++ rest) w.length a s) s' =
      some s'') :
    ∃ t, httpclient_parser_execute s (w ++ ending ++ rest) 0 =
        .returned t (w ++ ending).length ∧ t.view = s''.view ∧ t.parser.cs = e.next ∧
      t.parser.body_start = (w ++ ending).length := by
  obtain ⟨hreturn, hfeed, hboth⟩ := he
  have hdone : e.last.any machine.halts = true := by rw [hlast]; rfl
  -- what `done` leaves, behind the last byte
  have hhalted {w' : Bytes} {a : UInt8} {acts : List Action} {q : Nat} {x : HttpResponseParser}
      (htext : w ++ ending ++ rest = w' ++ a :: rest) (hsize : (w ++ ending).length = w'.length + 1)
      (hw' : machine.Reads (performed (w ++ ending ++ rest)) 0 w' s.parser.cs s.clear q x)
      (hnext : machine.next q a = some (acts, e.next)) (hhalts : acts.any machine.halts = true)
      (hy : acts.foldlM (fun s b => performed (w ++ ending ++ rest) w'.length b s) x =
        some (s''.setParser { s''.parser with body_start := w'.length + 1 })) :
      ∃ t, httpclient_parser_execute s (w ++ ending ++ rest) 0 =
          .returned t (w ++ ending).length ∧ t.view = s''.view ∧ t.parser.cs = e.next ∧
        t.parser.body_start = (w ++ ending).length := by
    rw [← Nat.zero_add w'.length] at hy
    obtain ⟨hended, hpos, hfold⟩ := hw'.halt hnext hhalts hy rest
    have hstate := hw'.halt_state hnext hhalts rest
    rw [← htext] at hended hpos hfold hstate
    obtain ⟨hcall, hbody⟩ := execute_of_halted hlen hended hfold
    rw [hpos, Nat.zero_add, ← hsize, hstate] at hcall
    rw [hpos, Nat.zero_add, ← hsize] at hbody
    exact ⟨_, hcall, rfl, rfl, hbody⟩
  rcases List.mem_pair.mp hending with rfl | rfl
  · refine hhalted (by simp) (by simp) hread hboth ?_ ?_
    · rw [List.any_append, hdone, Bool.or_true]
    · rw [List.foldlM_append, hs'', hlast]
      rfl
  · have hcr := hread.append (.letter hreturn hacts (by rwa [Nat.zero_add]))
    refine hhalted (by simp) (by simp) hcr hfeed hdone ?_
    rw [hlast]
    rfl

/-- Header lines may begin where a status line ends. -/
theorem headEnd_mem {x : Nat × List Action} (hx : x ∈ lineStarts) :
    ∃ e ∈ headEnds, e.state = x.1 ∧ e.acts = x.2 ∧ e.last = [.done] := by
  simp only [lineStarts, List.mem_cons, List.not_mem_nil, or_false] at hx
  rcases hx with rfl | rfl | rfl | rfl | rfl <;> decide

theorem settle_performed {x : Nat × List Action} (hx : x ∈ lineStarts) (buffer : Bytes) (p : Nat)
    (s : HttpResponseParser) :
    x.2.any machine.halts = false ∧ ∃ s', x.2.foldlM (fun s a => performed buffer p a s) s =
      some s' ∧ s'.view = s.view.settle x := by
  simp only [lineStarts, List.mem_cons, List.not_mem_nil, or_false] at hx
  rcases hx with rfl | rfl | rfl | rfl | rfl <;> exact ⟨rfl, _, rfl, rfl⟩

theorem afterLines_eq (fields : List HeaderLine) : ∀ x : Nat × List Action,
    afterLines x fields = (fields.getLast?.map HeaderLine.after).getD x := by
  induction fields with
  | nil => exact fun x => rfl
  | cons l fields ih =>
      intro x
      rw [afterLines, ih]
      cases fields with
      | nil => rfl
      | cons l' fields => rfl

theorem headEnd_next {e : LineEnd} (he : e ∈ headEnds) (h : Head)
    (hstate : e.state = (afterLines (20, []) h.fields).1) : e.next = h.final := by
  rw [afterLines_eq] at hstate
  unfold Head.final
  simp only [headEnds, List.mem_cons, List.not_mem_nil, or_false] at he
  rcases hlast : h.fields.getLast? with _ | l
  · rw [hlast] at hstate
    rcases he with rfl | rfl | rfl | rfl | rfl <;> first | rfl | cases hstate
  · rw [hlast, Option.map_some, Option.getD_some, HeaderLine.after] at hstate
    simp only
    split_ifs at hstate ⊢ with hempty hclose
    · rcases hkind : l.kind with _ | _ | _ | _ <;> rw [hkind] at hstate <;>
        rcases he with rfl | rfl | rfl | rfl | rfl <;> first | rfl | cases hstate
    · rcases he with rfl | rfl | rfl | rfl | rfl <;> first | rfl | cases hstate
    · rcases he with rfl | rfl | rfl | rfl | rfl <;> first | rfl | cases hstate

theorem Head.final_ne (h : Head) : h.final ≠ httpclient_parser_error := by
  unfold Head.final
  split
  · split_ifs
    · split <;> decide
    · decide
  · decide

theorem isFinished_of_final {s : HttpResponseParser} {q : Nat} (h : s.parser.cs = q)
    (hq : q ≠ httpclient_parser_error) :
    s.isFinished = if q = httpclient_parser_first_final then 1 else 0 := by
  have herr : httpclient_parser_has_error s.parser = false := decide_eq_false (h ▸ hq)
  rw [HttpResponseParser.isFinished, herr, httpclient_parser_is_finished, h]
  simp only [Bool.false_eq_true, if_false, decide_eq_true_eq]

/-- A call that reads a head. -/
theorem parser_execute_head (h : Head) (rest : Bytes) {s : HttpResponseParser}
    (hstart : s.parser.cs = httpclient_parser_start) (hlen : (h.text ++ rest).length < 2 ^ 31) :
    ∃ s', httpclient_parser_execute s (h.text ++ rest) 0 = .returned s' h.text.length ∧
      s'.view = s.view.head h ∧ s'.parser.cs = h.final ∧ s'.parser.body_start = h.text.length := by
  have hat : At (h.text ++ rest) 0 (h.line.text ++ h.fields.flatMap HeaderLine.text) := by
    refine ⟨?_, by omega⟩
    rw [List.drop_zero, Head.text, List.append_assoc]
    exact List.prefix_append _ _
  obtain ⟨hmem, v, hlines, hsettle⟩ := lines_parse (x := (20, [])) (by decide) h.fields hat.right
    (s.view.statusLine h.line)
  obtain ⟨s₁, hview₁, hread⟩ := ((statusLine_parses h.line hat.left _).append hlines) s.clear rfl
  obtain ⟨e, he, hstate, hacts, hlast⟩ := headEnd_mem hmem
  obtain ⟨hhalts, s₂, hs₂, hview₂⟩ := settle_performed hmem (h.text ++ rest)
    (h.line.text ++ h.fields.flatMap HeaderLine.text).length s₁
  rw [← hstate, ← hstart] at hread
  rw [← hacts] at hhalts hs₂
  obtain ⟨-, -, -, -, hends⟩ := lineEnds_read
  obtain ⟨t, hcall, hview, hcs, hbody⟩ :=
    execute_halts (hends e he) hlast hhalts h.ending_mem hlen hread hs₂
  refine ⟨t, hcall, ?_, hcs.trans (headEnd_next he h hstate), hbody⟩
  rw [hview, hview₂, hview₁, hsettle]
  rfl

/-- **The head of a response**: whatever follows it in the buffer, a call of `execute` on a parser
at its start takes the head, and what the parser shows is what the lines of the head say.  It
calls itself finished unless the last line is one of the three names without a value. -/
theorem execute_head (h : Head) (rest : Bytes) (s : HttpResponseParser) (chunck : Bool)
    (hstart : (s.started chunck).parser.cs = httpclient_parser_start)
    (hlen : (h.text ++ rest).length < 2 ^ 31) :
    ∃ s', s.execute (h.text ++ rest) 0 chunck = .returned s' h.text.length ∧
      s'.view = (s.started chunck).view.head h ∧ s'.parser.body_start = h.text.length ∧
      s'.parser.cs = h.final ∧
      s'.isFinished = if h.final = httpclient_parser_first_final then 1 else 0 := by
  obtain ⟨t, hcall, hview, hfinal, hbody⟩ := parser_execute_head h rest hstart hlen
  exact ⟨t, hcall, hview, hbody, hfinal, isFinished_of_final hfinal h.final_ne⟩

/-- The status line of a short head. -/
def okLine : StatusLine where
  major := ascii "1"
  minor := ascii "1"
  status := ascii "200"
  reason := ascii "OK"
  ending := [13, 10]
  major_digits := by decide +kernel
  minor_digits := by decide +kernel
  status_digits := by decide +kernel
  reason_ne := by decide
  reason_first := by decide +kernel
  reason_rest := by decide +kernel
  ending_mem := crlf_mem

/-- A line that names a header and leaves it without a value. -/
def openLine : HeaderLine where
  name := ascii "Connection"
  blanks := []
  value := []
  ending := [10]
  name_ne := by decide
  name_token := by decide +kernel
  blanks_space := by decide +kernel
  value_inLine := by decide +kernel
  value_first := by decide +kernel
  ending_mem := by decide

/-- A head that is read to its end, and yet not finished. -/
theorem execute_head_open :
    let data := ascii "HTTP/1.1 200 OK\r\nConnection:\n\r\nhello"
    ∃ s', (HttpResponseParser.new .zero).execute data 0 false = .returned s' 31 ∧
      s'.m_data.m_headers = [(ascii "Connection", [])] ∧ s'.isFinished = 0 := by
  let h : Head := ⟨okLine, [openLine], [13, 10], crlf_mem⟩
  obtain ⟨s', hcall, hview, -, -, hfinished⟩ :=
    execute_head h (ascii "hello") (.new .zero) false rfl (by decide)
  refine ⟨s', hcall, (congrArg (·.data.m_data.m_headers) hview).trans ?_, hfinished⟩
  decide

end Client

end Http

end Will
