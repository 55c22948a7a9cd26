/-
ZjhServer/Http/Grammar.lean

The productions of server/http/http11_parser.rl for the parts of a request, and how the machine
reads a text made of them.

Each part is read from a state of the machine to the next, and what its actions call
changes the request that is being made (`Parses`).  The parts are then put together
(`Parses.append`) up to the line end behind the header lines, where the machine halts
(`headRequest_of_parses`).
-/
import ZjhServer.Http.Chunking

namespace Will

namespace Http

open Transducer

/-! ### Productions -/

namespace Grammar

def alpha (c : UInt8) : Bool := (65 ≤ c && c ≤ 90) || (97 ≤ c && c ≤ 122)

def digit (c : UInt8) : Bool := 48 ≤ c && c ≤ 57

def xdigit (c : UInt8) : Bool := digit c || (65 ≤ c && c ≤ 70) || (97 ≤ c && c ≤ 102)

/-- `( "{" | "}" | "^" ) when { parser->uri_relaxed }` -/
def more_delims (uri_relaxed : Bool) (c : UInt8) : Bool :=
  uri_relaxed && (c == 123 || c == 125 || c == 94)

def sub_delims (uri_relaxed : Bool) (c : UInt8) : Bool :=
  [33, 36, 38, 39, 40, 41, 42, 43, 44, 59, 61].contains c || more_delims uri_relaxed c

def unreserved (c : UInt8) : Bool := alpha c || digit c || [45, 46, 95, 126].contains c

/-- One byte of `pchar`, which also has `pct_encoded`. -/
def pchar (uri_relaxed : Bool) (c : UInt8) : Bool :=
  128 ≤ c || unreserved c || sub_delims uri_relaxed c || c == 58 || c == 64

/-- `( pchar | … )*` -/
inductive Pchars (uri_relaxed : Bool) (others : List UInt8) : Bytes → Prop
  | nil : Pchars uri_relaxed others []
  | char {c : UInt8} {w : Bytes} (hc : (pchar uri_relaxed c || others.contains c) = true)
      (hw : Pchars uri_relaxed others w) : Pchars uri_relaxed others (c :: w)
  | pct_encoded {a b : UInt8} {w : Bytes} (ha : xdigit a = true) (hb : xdigit b = true)
      (hw : Pchars uri_relaxed others w) : Pchars uri_relaxed others (37 :: a :: b :: w)

/-- `( "/" segment )*` -/
inductive Segments (uri_relaxed : Bool) : Bytes → Prop
  | nil : Segments uri_relaxed []
  | cons {segment w : Bytes} (hsegment : Pchars uri_relaxed [] segment)
      (hw : Segments uri_relaxed w) : Segments uri_relaxed (47 :: segment ++ w)

/-- `path_absolute` -/
inductive PathAbsolute (uri_relaxed : Bool) : Bytes → Prop
  | root : PathAbsolute uri_relaxed [47]
  | segments {segment_nz w : Bytes} (hne : segment_nz ≠ [])
      (hsegment : Pchars uri_relaxed [] segment_nz) (hw : Segments uri_relaxed w) :
      PathAbsolute uri_relaxed (47 :: segment_nz ++ w)

/-- `path_absolute` or `path_empty` -/
def Path (uri_relaxed : Bool) (path : Bytes) : Prop := PathAbsolute uri_relaxed path ∨ path = []

/-- `query` and `fragment` -/
def Query (uri_relaxed : Bool) (query : Bytes) : Prop := Pchars uri_relaxed [47, 63] query

/-- `(0 - 31) | 127`, where Ragel's difference leaves 0. -/
def HTTP_CTL (c : UInt8) : Bool := c == 0 || c == 127

def HTTP_separator (c : UInt8) : Bool :=
  [40, 41, 60, 62, 64, 44, 59, 58, 92, 34, 47, 91, 93, 63, 61, 123, 125, 32, 9].contains c

/-- One byte of `token`. -/
def token (c : UInt8) : Bool := c < 128 && !HTTP_CTL c && !HTTP_separator c

def FieldName (name : Bytes) : Prop := name ≠ [] ∧ ∀ c ∈ name, token c = true

/-- No control characters, no blanks at the ends. -/
def FieldValue (value : Bytes) : Prop :=
  (∀ c ∈ value, 32 ≤ c ∧ c ≠ 127) ∧ value.head? ≠ some 32 ∧ value.getLast? ≠ some 32

instance (name : Bytes) : Decidable (FieldName name) := inferInstanceAs (Decidable (_ ∧ _))

instance (value : Bytes) : Decidable (FieldValue value) := inferInstanceAs (Decidable (_ ∧ _))

theorem Pchars.mono {uri_relaxed : Bool} {others others' : List UInt8} {w : Bytes}
    (h : Pchars uri_relaxed others w) (hsub : ∀ c ∈ others, c ∈ others') :
    Pchars uri_relaxed others' w := by
  induction h with
  | nil => exact .nil
  | char hc _ ih =>
      refine .char ?_ ih
      rw [Bool.or_eq_true, List.contains_iff_mem] at hc ⊢
      exact hc.imp_right (hsub _)
  | pct_encoded ha hb _ ih => exact .pct_encoded ha hb ih

theorem Pchars.append {uri_relaxed : Bool} {others : List UInt8} {w v : Bytes}
    (hw : Pchars uri_relaxed others w) (hv : Pchars uri_relaxed others v) :
    Pchars uri_relaxed others (w ++ v) := by
  induction hw with
  | nil => exact hv
  | char hc _ ih => exact .char hc ih
  | pct_encoded ha hb _ ih => exact .pct_encoded ha hb ih

/-- The machine reads the segments behind the first one as one list. -/
theorem Segments.pchars {uri_relaxed : Bool} {w : Bytes} (h : Segments uri_relaxed w) :
    Pchars uri_relaxed [47] w := by
  induction h with
  | nil => exact .nil
  | cons hsegment _ ih =>
      have hslash : (pchar uri_relaxed 47 || [47].contains (47 : UInt8)) = true := by
        cases uri_relaxed <;> rfl
      exact (Pchars.char hslash (hsegment.mono fun c hc => absurd hc List.not_mem_nil)).append ih

end Grammar

open Grammar

/-! ### Lists of bytes in the table -/

/-- A property of all bytes, checked one by one. -/
theorem forall_byte {P : UInt8 → Prop} (h : ∀ n < 256, P (UInt8.ofNat n)) (c : UInt8) : P c := by
  have hc := h c.toNat c.toNat_lt
  rwa [UInt8.ofNat_toNat] at hc

/-- The state `q` reads a list of `pchar`s and `others`, the states `q₁` and `q₂` the digits of
`pct_encoded` in it. -/
structure Loops (uri_relaxed : Bool) (others : List UInt8) (q q₁ q₂ : Nat) : Prop where
  char : ∀ c, (pchar uri_relaxed c || others.contains c) = true →
    (machine uri_relaxed).next q c = some ([], q)
  percent : (machine uri_relaxed).next q 37 = some ([], q₁)
  first : ∀ c, xdigit c = true → (machine uri_relaxed).next q₁ c = some ([], q₂)
  second : ∀ c, xdigit c = true → (machine uri_relaxed).next q₂ c = some ([], q)

/-- The state `q₀` reads the first of such a list, with actions. -/
structure Enters (uri_relaxed : Bool) (others : List UInt8) (acts : List Action)
    (q₀ q q₁ : Nat) : Prop where
  char : ∀ c, (pchar uri_relaxed c || others.contains c) = true →
    (machine uri_relaxed).next q₀ c = some (acts, q)
  percent : (machine uri_relaxed).next q₀ 37 = some (acts, q₁)

section

variable {X : Type} {f : Nat → Action → X → Option X} {uri_relaxed : Bool} {others : List UInt8}
  {q₀ q q₁ q₂ p : Nat} {w : Bytes} {x x' : X}

theorem Loops.reads (h : Loops uri_relaxed others q q₁ q₂) (hw : Pchars uri_relaxed others w) :
    (machine uri_relaxed).Reads f p w q x q x := by
  induction hw generalizing p with
  | nil => exact .nil p q x
  | char hc _ ih => exact .cons (.letter (h.char _ hc) rfl rfl) ih
  | pct_encoded ha hb _ ih =>
      exact .cons (.letter h.percent rfl rfl) (.cons (.letter (h.first _ ha) rfl rfl)
        (.cons (.letter (h.second _ hb) rfl rfl) ih))

theorem Enters.reads {acts : List Action} (he : Enters uri_relaxed others acts q₀ q q₁)
    {others' : List UInt8} (h : Loops uri_relaxed others' q q₁ q₂)
    (hsub : ∀ c ∈ others, c ∈ others') (hhalt : acts.any (machine uri_relaxed).halts = false)
    (hacts : acts.foldlM (fun x b => f p b x) x = some x') (hne : w ≠ [])
    (hw : Pchars uri_relaxed others w) : (machine uri_relaxed).Reads f p w q₀ x q x' := by
  cases hw with
  | nil => exact absurd rfl hne
  | char hc hw => exact .cons (.letter (he.char _ hc) hhalt hacts) (h.reads (hw.mono hsub))
  | pct_encoded ha hb hw =>
      exact .cons (.letter he.percent hhalt hacts) (.cons (.letter (h.first _ ha) rfl rfl)
        (.cons (.letter (h.second _ hb) rfl rfl) (h.reads (hw.mono hsub))))

end

/-- The lists of a request line in the table. -/
structure Lists (uri_relaxed : Bool) : Prop where
  path_first : Enters uri_relaxed [] [] 33 26 27
  path : Loops uri_relaxed [47] 26 27 28
  query_first : Enters uri_relaxed [47, 63] [.start_query] 29 30 31
  query : Loops uri_relaxed [47, 63] 30 31 32
  fragment_first : Enters uri_relaxed [47, 63] [.mark] 20 21 22
  fragment : Loops uri_relaxed [47, 63] 21 22 23

theorem lists_read (uri_relaxed : Bool) : Lists uri_relaxed := by
  refine ⟨⟨forall_byte ?_, ?_⟩, ⟨forall_byte ?_, ?_, forall_byte ?_, forall_byte ?_⟩,
    ⟨forall_byte ?_, ?_⟩, ⟨forall_byte ?_, ?_, forall_byte ?_, forall_byte ?_⟩,
    ⟨forall_byte ?_, ?_⟩, ⟨forall_byte ?_, ?_, forall_byte ?_, forall_byte ?_⟩⟩ <;>
    revert uri_relaxed <;> decide +kernel

/-! ### Single bytes in the table -/

/-- The bytes that end a path, and the states after them. -/
def pathEnds : List (UInt8 × Nat) := [(32, 4), (63, 29), (35, 20)]

/-- What is done at the end of a path. -/
def pathEnd (c : UInt8) : List Action :=
  if c = 63 then [.request_path] else [.request_path, .request_uri]

/-- The bytes that end a query, and the states after them. -/
def queryEnds : List (UInt8 × Nat) := [(32, 4), (35, 20)]

/-- The bytes of names and values, and those between the parts of a head. -/
structure Letters (uri_relaxed : Bool) : Prop where
  slash : (machine uri_relaxed).next 3 47 = some ([.mark], 33)
  pathEnds : ∀ e ∈ pathEnds,
    (machine uri_relaxed).next 3 e.1 = some (.mark :: pathEnd e.1, e.2) ∧
      (machine uri_relaxed).next 33 e.1 = some (pathEnd e.1, e.2) ∧
      (machine uri_relaxed).next 26 e.1 = some (pathEnd e.1, e.2)
  queryEnds : ∀ e ∈ queryEnds,
    (machine uri_relaxed).next 30 e.1 = some ([.query_string, .request_uri], e.2)
  fragmentEnd : (machine uri_relaxed).next 21 32 = some ([.fragment], 4)
  versionEnd : (machine uri_relaxed).next 12 13 = some ([.http_version], 17)
  lineEnd : (machine uri_relaxed).next 17 10 = some ([], 13)
  nameFirst : ∀ c, token c = true ∧ c ≠ 10 ∧ c ≠ 13 →
    (machine uri_relaxed).next 13 c = some ([.start_field], 14)
  nameReturn : (machine uri_relaxed).next 13 13 = some ([.start_field], 18)
  nameSecond : ∀ c, token c = true ∧ c ≠ 10 → (machine uri_relaxed).next 18 c = some ([], 14)
  name : ∀ c, token c = true → (machine uri_relaxed).next 14 c = some ([], 14)
  colon : ∀ q ∈ [14, 18], (machine uri_relaxed).next q 58 = some ([.write_field], 15)
  blank : (machine uri_relaxed).next 15 32 = some ([.start_value], 15)
  valueFirst : ∀ c, 33 ≤ c ∧ c ≠ 127 →
    (machine uri_relaxed).next 15 c = some ([.start_value], 16)
  value : ∀ c, 32 ≤ c ∧ c ≠ 127 → (machine uri_relaxed).next 16 c = some ([], 16)
  noValue : (machine uri_relaxed).next 15 13 = some ([.start_value, .write_value], 17)
  valueEnd : (machine uri_relaxed).next 16 13 = some ([.write_value], 17)
  headEnd : (machine uri_relaxed).next 13 10 = some ([.start_field, .done], 348)
  headEnd' : (machine uri_relaxed).next 18 10 = some ([.done], 348)

theorem letters_read (uri_relaxed : Bool) : Letters uri_relaxed := by
  refine ⟨?_, ?_, ?_, ?_, ?_, ?_, forall_byte ?_, ?_, forall_byte ?_, forall_byte ?_, ?_, ?_,
    forall_byte ?_, forall_byte ?_, ?_, ?_, ?_, ?_⟩ <;> revert uri_relaxed <;> decide +kernel

/-! ### Texts in a head -/

/-- The text `w` is at position `p` of the head, and a buffer is long enough for it. -/
structure At (head : Bytes) (p : Nat) (w : Bytes) : Prop where
  here : w <+: head.drop p
  size : w.length ≤ HttpRequestParser.GetHttpRequestBufferSize

section

variable {head w v : Bytes} {p : Nat}

theorem At.left (h : At head p (w ++ v)) : At head p w where
  here := (List.prefix_append w v).trans h.here
  size := by
    have := h.size
    rw [List.length_append] at this
    omega

theorem At.right (h : At head p (w ++ v)) : At head (p + w.length) v where
  here := by
    obtain ⟨rest, hrest⟩ := h.here
    refine ⟨rest, ?_⟩
    rw [← List.drop_drop, ← hrest, List.append_assoc, List.drop_left]
  size := by
    have := h.size
    rw [List.length_append] at this
    omega

/-- The callback gets the text. -/
theorem At.string (h : At head p w) :
    string (head.drop (max p (whole (p + w.length))))
        (p + w.length - max p (whole (p + w.length))) = some w := by
  have hsize : w.length < 2 ^ 63 := Nat.lt_of_le_of_lt h.size (by decide)
  rw [whole_max, Nat.add_sub_cancel_left, string_some hsize, ← List.prefix_iff_eq_take.mp h.here]

end

/-- Read at position `p`, the text takes the machine from `q` to `q'`, and what it calls,
all in one read, takes the request `r` to `r'`. -/
def Parses (uri_relaxed : Bool) (head : Bytes) (p : Nat) (w : Bytes) (q : Nat) (r : HttpRequest)
    (q' : Nat) (r' : HttpRequest) : Prop :=
  ∀ k, ∃ k', (machine uri_relaxed).Reads (seeAct whole head) p w q (k, ⟨r, 0⟩) q' (k', ⟨r', 0⟩)

section

variable {uri_relaxed : Bool} {head w v : Bytes} {p q q' q'' : Nat} {r r' r'' : HttpRequest}

theorem Parses.append (hw : Parses uri_relaxed head p w q r q' r')
    (hv : Parses uri_relaxed head (p + w.length) v q' r' q'' r'') :
    Parses uri_relaxed head p (w ++ v) q r q'' r'' := by
  intro k
  obtain ⟨k', hk'⟩ := hw k
  obtain ⟨k'', hk''⟩ := hv k'
  exact ⟨k'', hk'.append hk''⟩

theorem Parses.nil (uri_relaxed : Bool) (head : Bytes) (p q : Nat) (r : HttpRequest) :
    Parses uri_relaxed head p [] q r q r := fun k => ⟨k, .nil p q _⟩

end

/-! ### The request line -/

/-- `HTTP_Version`, and what `on_request_version` makes of it. -/
def versions : List (UInt16 × String) := [(0x10, "HTTP/1.0"), (0x11, "HTTP/1.1")]

/-- A name but `M-SEARCH` takes the machine from the start to a state where a blank ends the
method, and names its method. -/
structure MethodRead (uri_relaxed : Bool) (x : HttpMethod × String) : Prop where
  first : (machine uri_relaxed).next 1 ((ascii x.2).headD 0) = some ([.mark], 2)
  rest : (((machine uri_relaxed).quiet 2 (ascii x.2).tail).bind
    fun q => (machine uri_relaxed).next q 32) = some ([.request_method], 3)
  ne_nil : ascii x.2 ≠ []
  named : CharsToHttpMethod (ascii x.2) = x.1
  valid : x.1 ≠ .INVALID_METHOD

structure VersionRead (uri_relaxed : Bool) (v : UInt16 × String) : Prop where
  first : (machine uri_relaxed).next 4 ((ascii v.2).headD 0) = some ([.mark], 5)
  rest : (machine uri_relaxed).quiet 5 (ascii v.2).tail = some 12
  ne_nil : ascii v.2 ≠ []
  named : versionOf (ascii v.2) (ascii v.2).length = some v.1

theorem words_read (uri_relaxed : Bool) :
    (∀ x ∈ HTTP_METHOD_MAP, x.1 ≠ .MSEARCH → MethodRead uri_relaxed x) ∧
      ∀ v ∈ versions, VersionRead uri_relaxed v := by
  have hmethods : ∀ x ∈ HTTP_METHOD_MAP, x.1 ≠ .MSEARCH → ∀ uri_relaxed,
      (machine uri_relaxed).next 1 ((ascii x.2).headD 0) = some ([.mark], 2) ∧
        (((machine uri_relaxed).quiet 2 (ascii x.2).tail).bind
          fun q => (machine uri_relaxed).next q 32) = some ([.request_method], 3) ∧
        ascii x.2 ≠ [] ∧ CharsToHttpMethod (ascii x.2) = x.1 ∧ x.1 ≠ .INVALID_METHOD := by
    decide +kernel
  have hversions : ∀ v ∈ versions, ∀ uri_relaxed,
      (machine uri_relaxed).next 4 ((ascii v.2).headD 0) = some ([.mark], 5) ∧
        (machine uri_relaxed).quiet 5 (ascii v.2).tail = some 12 ∧ ascii v.2 ≠ [] ∧
        versionOf (ascii v.2) (ascii v.2).length = some v.1 := by
    decide +kernel
  refine ⟨fun x hx hmsearch => ?_, fun v hv => ?_⟩
  · obtain ⟨hfirst, hrest, hne, hnamed, hvalid⟩ := hmethods x hx hmsearch uri_relaxed
    exact ⟨hfirst, hrest, hne, hnamed, hvalid⟩
  · obtain ⟨hfirst, hrest, hne, hnamed⟩ := hversions v hv uri_relaxed
    exact ⟨hfirst, hrest, hne, hnamed⟩

theorem method_parses (uri_relaxed : Bool) {head : Bytes} {p : Nat} {x : HttpMethod × String}
    (hx : x ∈ HTTP_METHOD_MAP) (hmsearch : x.1 ≠ .MSEARCH) (hat : At head p (ascii x.2 ++ [32]))
    (r : HttpRequest) :
    Parses uri_relaxed head p (ascii x.2 ++ [32]) 1 r 3 { r with m_method := x.1 } := by
  intro k
  obtain ⟨hfirst, hrest, hne, hnamed, hvalid⟩ := (words_read uri_relaxed).1 x hx hmsearch
  obtain ⟨q, hquiet, hblank⟩ := Option.bind_eq_some_iff.mp hrest
  obtain ⟨c, name, hname⟩ := List.exists_cons_of_ne_nil hne
  rw [hname] at hat hfirst hquiet hnamed ⊢
  refine ⟨{ k with mark := p }, .append (.cons (.letter hfirst rfl rfl) (.of_quiet hquiet))
    (.letter hblank rfl ?_)⟩
  -- what the callback sees: the name, and a blank behind it
  obtain ⟨rest, hhead⟩ := hat.here
  have hmethod : CharsToHttpMethod (head.drop (max p (whole (p + (c :: name).length)))) = x.1 := by
    rw [whole_max, ← hhead, List.append_assoc, List.singleton_append, CharsToHttpMethod_blank,
      hnamed]
  show (seeAct whole head _ .request_method _).bind _ = _
  simp only [seeAct, Marks.act, Call.see, on_request_method, hmethod, if_neg hvalid]
  rfl

theorem pathEnd_halts (uri_relaxed : Bool) (c : UInt8) :
    (pathEnd c).any (machine uri_relaxed).halts = false := by
  unfold pathEnd
  split_ifs <;> rfl

section

variable {uri_relaxed : Bool} {head : Bytes} {p : Nat}

theorem pathEnd_acts {path : Bytes} (hat : At head p path) {k : Marks} (hk : k.mark = p)
    (c : UInt8) (r : HttpRequest) :
    (pathEnd c).foldlM (fun y a => seeAct whole head (p + path.length) a y) (k, ⟨r, 0⟩) =
      some (k, ⟨{ r with m_path := path }, 0⟩) := by
  have hcall : seeAct whole head (p + path.length) .request_path (k, ⟨r, 0⟩) =
      some (k, ⟨{ r with m_path := path }, 0⟩) := by
    simp only [seeAct, Marks.act, Call.see, on_request_path, hk, hat.string]
    rfl
  unfold pathEnd
  split_ifs
  · rw [List.foldlM_cons, hcall]
    rfl
  · rw [List.foldlM_cons, hcall]
    rfl

theorem path_parses {path : Bytes} (hpath : Path uri_relaxed path) (hat : At head p path)
    {e : UInt8 × Nat} (he : e ∈ pathEnds) (r : HttpRequest) :
    Parses uri_relaxed head p (path ++ [e.1]) 3 r e.2 { r with m_path := path } := by
  intro k
  obtain ⟨hempty, hroot, hmore⟩ := (letters_read uri_relaxed).pathEnds e he
  have hslash := (letters_read uri_relaxed).slash
  have hend := pathEnd_halts uri_relaxed e.1
  have hacts := pathEnd_acts hat (k := { k with mark := p }) rfl e.1 r
  refine ⟨{ k with mark := p }, ?_⟩
  rcases hpath with habsolute | rfl
  · cases habsolute with
    | root =>
      exact .append (.letter hslash rfl rfl) (.letter hroot hend hacts)
    | segments hne hsegment hw =>
      have hlists := lists_read uri_relaxed
      have hfirst := hlists.path_first.reads (f := seeAct whole head) (p := p + 1)
        (x := ({ k with mark := p }, ⟨r, 0⟩)) hlists.path (fun c hc => absurd hc List.not_mem_nil)
        rfl rfl hne hsegment
      exact .append (.append (.cons (.letter hslash rfl rfl) hfirst)
        (hlists.path.reads hw.pchars)) (.letter hmore hend hacts)
  · exact .letter hempty hend hacts

theorem query_parses {query : Bytes} (hquery : Query uri_relaxed query) (hne : query ≠ [])
    (hat : At head p query) {e : UInt8 × Nat} (he : e ∈ queryEnds) (r : HttpRequest) :
    Parses uri_relaxed head p (query ++ [e.1]) 29 r e.2 { r with m_query := query } := by
  intro k
  have hcall : seeAct whole head (p + query.length) .query_string
      ({ k with query_start := p }, ⟨r, 0⟩) =
        some ({ k with query_start := p }, ⟨{ r with m_query := query }, 0⟩) := by
    have hstring := hat.string
    rw [whole_max] at hstring
    simp only [seeAct, Marks.act, Call.see, on_request_query, whole, Nat.sub_zero, Nat.zero_add,
      LEN_eq (Nat.le_add_right p _), hstring]
    rfl
  have hlist : (machine uri_relaxed).Reads (seeAct whole head) p query 29 (k, ⟨r, 0⟩) 30
      ({ k with query_start := p }, ⟨r, 0⟩) :=
    (lists_read uri_relaxed).query_first.reads (lists_read uri_relaxed).query (fun c hc => hc) rfl
      rfl hne hquery
  refine ⟨{ k with query_start := p },
    hlist.append (.letter ((letters_read uri_relaxed).queryEnds e he) rfl ?_)⟩
  rw [List.foldlM_cons, hcall]
  rfl

theorem fragment_parses {fragment : Bytes} (hfragment : Query uri_relaxed fragment)
    (hne : fragment ≠ []) (hat : At head p fragment) (r : HttpRequest) :
    Parses uri_relaxed head p (fragment ++ [32]) 20 r 4 { r with m_fragment := fragment } := by
  intro k
  have hcall : seeAct whole head (p + fragment.length) .fragment ({ k with mark := p }, ⟨r, 0⟩) =
      some ({ k with mark := p }, ⟨{ r with m_fragment := fragment }, 0⟩) := by
    simp only [seeAct, Marks.act, Call.see, on_request_fragment, hat.string]
    rfl
  have hlist : (machine uri_relaxed).Reads (seeAct whole head) p fragment 20 (k, ⟨r, 0⟩) 21
      ({ k with mark := p }, ⟨r, 0⟩) :=
    (lists_read uri_relaxed).fragment_first.reads (lists_read uri_relaxed).fragment
      (fun c hc => hc) rfl rfl hne hfragment
  refine ⟨{ k with mark := p },
    hlist.append (.letter (letters_read uri_relaxed).fragmentEnd rfl ?_)⟩
  rw [List.foldlM_cons, hcall]
  rfl

/-- Path, query and fragment as they are written behind each other. -/
def target (path query fragment : Bytes) : Bytes :=
  path ++ (if query = [] then [] else ascii "?") ++ query ++
    (if fragment = [] then [] else ascii "#") ++ fragment

theorem target_parses {path query fragment : Bytes} (hpath : Path uri_relaxed path)
    (hquery : Query uri_relaxed query) (hfragment : Query uri_relaxed fragment)
    (hat : At head p (target path query fragment ++ [32])) {r : HttpRequest}
    (hrquery : r.m_query = []) (hrfragment : r.m_fragment = []) :
    Parses uri_relaxed head p (target path query fragment ++ [32]) 3 r 4
      { r with m_path := path, m_query := query, m_fragment := fragment } := by
  unfold target at hat ⊢
  -- a part that is absent has no separator either, so each case is a text of its own
  by_cases hq : query = [] <;> by_cases hf : fragment = []
  · have htext : path ++ (if query = [] then [] else ascii "?") ++ query ++
        (if fragment = [] then [] else ascii "#") ++ fragment ++ [32] = path ++ [32] := by
      rw [if_pos hq, if_pos hf, hq, hf]
      simp
    rw [htext] at hat ⊢
    have h := path_parses hpath hat.left (e := (32, 4)) (by decide) r
    rw [hq.trans hrquery.symm, hf.trans hrfragment.symm]
    exact h
  · have htext : path ++ (if query = [] then [] else ascii "?") ++ query ++
        (if fragment = [] then [] else ascii "#") ++ fragment ++ [32] =
          path ++ [35] ++ (fragment ++ [32]) := by
      rw [if_pos hq, if_neg hf, hq, show ascii "#" = [35] by decide]
      simp
    rw [htext] at hat ⊢
    have h := (path_parses hpath hat.left.left (e := (35, 20)) (by decide) r).append
      (fragment_parses hfragment hf hat.right.left _)
    rw [hq.trans hrquery.symm]
    exact h
  · have htext : path ++ (if query = [] then [] else ascii "?") ++ query ++
        (if fragment = [] then [] else ascii "#") ++ fragment ++ [32] =
          path ++ [63] ++ (query ++ [32]) := by
      rw [if_neg hq, if_pos hf, hf, show ascii "?" = [63] by decide]
      simp
    rw [htext] at hat ⊢
    have h := (path_parses hpath hat.left.left (e := (63, 29)) (by decide) r).append
      (query_parses hquery hq hat.right.left (e := (32, 4)) (by decide) _)
    rw [hf.trans hrfragment.symm]
    exact h
  · have htext : path ++ (if query = [] then [] else ascii "?") ++ query ++
        (if fragment = [] then [] else ascii "#") ++ fragment ++ [32] =
          path ++ [63] ++ ((query ++ [35]) ++ (fragment ++ [32])) := by
      rw [if_neg hq, if_neg hf, show ascii "?" = [63] by decide, show ascii "#" = [35] by decide]
      simp
    rw [htext] at hat ⊢
    exact (path_parses hpath hat.left.left (e := (63, 29)) (by decide) r).append
      ((query_parses hquery hq hat.right.left.left (e := (35, 20)) (by decide) _).append
        (fragment_parses hfragment hf hat.right.right.left _))

theorem version_parses {v : UInt16 × String} (hv : v ∈ versions) (hat : At head p (ascii v.2))
    (r : HttpRequest) :
    Parses uri_relaxed head p (ascii v.2 ++ [13, 10]) 4 r 13 { r with m_version := v.1 } := by
  intro k
  obtain ⟨hfirst, hquiet, hne, hversion⟩ := (words_read uri_relaxed).2 v hv
  obtain ⟨c, text, htext⟩ := List.exists_cons_of_ne_nil hne
  rw [htext] at hat hfirst hquiet hversion ⊢
  have hcr := (letters_read uri_relaxed).versionEnd
  have hlf := (letters_read uri_relaxed).lineEnd
  have hseen : versionOf (head.drop (max p (whole (p + (c :: text).length))))
      (p + (c :: text).length - max p (whole (p + (c :: text).length))) = some v.1 := by
    rw [whole_max, Nat.add_sub_cancel_left, ← hversion]
    refine versionOf_congr ?_
    rw [List.take_length]
    exact (List.prefix_iff_eq_take.mp hat.here).symm
  refine ⟨{ k with mark := p }, .append (.cons (.letter hfirst rfl rfl) (.of_quiet hquiet))
    (.cons (.letter hcr rfl ?_) (.letter hlf rfl rfl))⟩
  show (seeAct whole head _ .http_version _).bind _ = _
  simp only [seeAct, Marks.act, Call.see, on_request_version, hseen]
  rfl

/-! ### Header lines -/

/-- A name that ends the head where it begins. -/
def EndsHead (name : Bytes) : Prop := [10] <+: name ∨ [13, 10] <+: name

instance (name : Bytes) : Decidable (EndsHead name) := inferInstanceAs (Decidable (_ ∨ _))

theorem name_reads {name : Bytes} (hname : FieldName name) (hends : ¬ EndsHead name) (k : Marks)
    (r : HttpRequest) :
    ∃ q, (machine uri_relaxed).next q 58 = some ([.write_field], 15) ∧
      (machine uri_relaxed).Reads (seeAct whole head) p name 13 (k, ⟨r, 0⟩) q
        ({ k with field_start := p }, ⟨r, 0⟩) := by
  have hletters := letters_read uri_relaxed
  obtain ⟨hne, htoken⟩ := hname
  have hloop : ∀ w : Bytes, (∀ c ∈ w, token c = true) → ∀ c ∈ w,
      (machine uri_relaxed).next 14 c = some ([], 14) :=
    fun w hw c hc => hletters.name c (hw c hc)
  rcases name with _ | ⟨c, name⟩
  · exact absurd rfl hne
  · have hrest : ∀ d ∈ name, token d = true := fun d hd => htoken d (List.mem_cons_of_mem _ hd)
    have hc10 : c ≠ 10 := by
      rintro rfl
      exact hends (.inl (List.prefix_append [10] name))
    by_cases hc13 : c = 13
    · -- a name may begin with a carriage return, if no line feed follows
      obtain rfl := hc13
      rcases name with _ | ⟨d, name⟩
      · exact ⟨18, hletters.colon 18 (by decide), .letter hletters.nameReturn rfl rfl⟩
      · have hd10 : d ≠ 10 := by
          rintro rfl
          exact hends (.inr (List.prefix_append [13, 10] name))
        have hd := hletters.nameSecond d ⟨hrest d (List.mem_cons_self ..), hd10⟩
        exact ⟨14, hletters.colon 14 (by decide), .cons (.letter hletters.nameReturn rfl rfl)
          (.cons (.letter hd rfl rfl)
            (.silent (hloop name fun e he => hrest e (List.mem_cons_of_mem _ he))))⟩
    · have hc := hletters.nameFirst c ⟨htoken c (List.mem_cons_self ..), hc10, hc13⟩
      exact ⟨14, hletters.colon 14 (by decide),
        .cons (.letter hc rfl rfl) (.silent (hloop name hrest))⟩

theorem write_value_called {name value : Bytes} {s m : Nat} (hne : name ≠ [])
    (hname : At head s name) (hvalue : At head m value) {k : Marks} (hs : k.field_start = s)
    (hf : k.field_end = s + name.length) (hm : k.mark = m) (r : HttpRequest) :
    seeAct whole head (m + value.length) .write_value (k, ⟨r, 0⟩) =
      some (k, ⟨r.setHeader name value, 0⟩) := by
  have hlen := List.length_pos_of_ne_nil hne
  have hkey := hname.string
  have hval := hvalue.string
  rw [whole_max] at hkey hval
  have hflen : s + name.length - s ≠ 0 := by omega
  simp only [seeAct, Marks.act, Call.see, on_request_http_field, hs, hf, hm, whole_max, hkey, hval,
    if_neg hflen]
  rfl

/-- A value between a blank and the line end; the blank may also be where it begins. -/
theorem value_reads {value : Bytes} (hvalue : FieldValue value) {k : Marks} {r r' : HttpRequest}
    (hcall : seeAct whole head (p + 1 + value.length) .write_value
      ({ k with mark := p + 1 }, ⟨r, 0⟩) = some ({ k with mark := p + 1 }, ⟨r', 0⟩)) :
    (machine uri_relaxed).Reads (seeAct whole head) p (32 :: value ++ [13]) 15 (k, ⟨r, 0⟩) 17
      ({ k with mark := p + 1 }, ⟨r', 0⟩) := by
  have hletters := letters_read uri_relaxed
  obtain ⟨hplain, hhead, -⟩ := hvalue
  have hstart : (machine uri_relaxed).Reads (seeAct whole head) p [32] 15 (k, ⟨r, 0⟩) 15
      ({ k with mark := p }, ⟨r, 0⟩) := .letter hletters.blank rfl rfl
  refine hstart.cons ?_
  rcases value with _ | ⟨c, value⟩
  · refine .letter hletters.noValue rfl ?_
    exact congrArg (·.bind some) hcall
  · have hc := hplain c (List.mem_cons_self ..)
    have hc33 : 33 ≤ c := by
      have hge := UInt8.le_iff_toNat_le.mp hc.1
      have hne : c.toNat ≠ 32 := fun h => hhead (congrArg some (UInt8.toNat_inj.mp h))
      rw [UInt8.le_iff_toNat_le]
      simp at hge ⊢
      omega
    have hfirst : (machine uri_relaxed).Reads (seeAct whole head) (p + 1) [c] 15
        ({ k with mark := p }, ⟨r, 0⟩) 16 ({ k with mark := p + 1 }, ⟨r, 0⟩) :=
      .letter (hletters.valueFirst c ⟨hc33, hc.2⟩) rfl rfl
    have hloop : ∀ d ∈ value, (machine uri_relaxed).next 16 d = some ([], 16) := fun d hd =>
      hletters.value d (hplain d (List.mem_cons_of_mem _ hd))
    refine hfirst.cons (.append (.silent hloop) (.letter hletters.valueEnd rfl ?_))
    rw [List.foldlM_cons, Nat.add_assoc (p + 1), Nat.add_comm 1, ← List.length_cons, hcall]
    rfl

theorem field_parses {name value : Bytes} (hname : FieldName name) (hends : ¬ EndsHead name)
    (hvalue : FieldValue value) (hat : At head p (name ++ [58, 32] ++ value)) (r : HttpRequest) :
    Parses uri_relaxed head p (name ++ [58, 32] ++ value ++ [13, 10]) 13 r 13
      (r.setHeader name value) := by
  intro k
  have hlf := (letters_read uri_relaxed).lineEnd
  obtain ⟨q, hcolon, hread⟩ := @name_reads uri_relaxed head p name hname hends k r
  have hright := hat.right
  rw [List.length_append, ← Nat.add_assoc] at hright
  have hcall := write_value_called hname.1 hat.left.left hright (r := r)
    (k := { k with field_start := p, field_end := p + name.length, mark := p + name.length + 2 })
    rfl rfl rfl
  have hfield : (machine uri_relaxed).Reads (seeAct whole head) (p + name.length) [58] q
      ({ k with field_start := p }, ⟨r, 0⟩) 15
      ({ k with field_start := p, field_end := p + name.length }, ⟨r, 0⟩) :=
    .letter hcolon rfl rfl
  have hline := hread.append (hfield.cons (value_reads hvalue hcall))
  have htext : name ++ [58, 32] ++ value ++ [13, 10] =
      name ++ 58 :: (32 :: value ++ [13]) ++ [10] := by simp
  rw [htext]
  exact ⟨_, hline.append (.letter hlf rfl rfl)⟩

/-! ### The end of the head -/

/-- What ends a head, and with it a line. -/
def headEnds : List Bytes := [[10], [13, 10]]

theorem head_halts {w ending : Bytes} (hending : ending ∈ headEnds)
    (hw : Parses uri_relaxed head 0 w http_parser_start .new 13 r) (rest : Bytes) :
    let walk := (machine uri_relaxed).walk http_parser_start 0 (w ++ ending ++ rest)
    walk.ended = .halted ∧ walk.pos = (w ++ ending).length ∧
      (callsFrom .init walk.events).foldlM (Call.see whole head) ⟨.new, 0⟩ = some ⟨r, 0⟩ := by
  have hletters := letters_read uri_relaxed
  obtain ⟨k, hread⟩ := hw .init
  simp only [← foldlM_seeAct]
  rcases List.mem_pair.mp hending with rfl | rfl
  · obtain ⟨hended, hpos, hacts⟩ := hread.halt hletters.headEnd rfl rfl rest
    have htext : w ++ [10] ++ rest = w ++ 10 :: rest := by simp
    rw [htext, hended, hpos, hacts, List.length_append, Nat.zero_add]
    exact ⟨rfl, rfl, rfl⟩
  · have hline : (machine uri_relaxed).Reads (seeAct whole head) (0 + w.length) [13] 13
        (k, ⟨r, 0⟩) 18 ({ k with field_start := 0 + w.length }, ⟨r, 0⟩) :=
      .letter hletters.nameReturn rfl rfl
    obtain ⟨hended, hpos, hacts⟩ := (hread.append hline).halt hletters.headEnd' rfl rfl rest
    have htext : w ++ [13, 10] ++ rest = w ++ [13] ++ 10 :: rest := by simp
    have hlength : (w ++ [13, 10]).length = 0 + (w ++ [13]).length + 1 := by simp
    rw [htext, hended, hpos, hacts, hlength]
    exact ⟨rfl, rfl, rfl⟩

/-- **The head of a message**: read up to the line end behind the header lines, in one read, it
gives the request that its parts make. -/
theorem headRequest_of_parses {storage : HttpParser} {w ending rest : Bytes}
    (hending : ending ∈ headEnds)
    (hsize : (w ++ ending).length ≤ HttpRequestParser.GetHttpRequestBufferSize)
    (hw : Parses storage.uri_relaxed (w ++ ending ++ rest) 0 w http_parser_start .new 13 r) :
    HeadFits storage (w ++ ending ++ rest) ∧
      headLength storage (w ++ ending ++ rest) = (w ++ ending).length ∧
      HeadOk whole storage (w ++ ending ++ rest) ∧
      headRequest whole storage (w ++ ending ++ rest) = r := by
  obtain ⟨hended, hpos, hcalls⟩ := head_halts hending hw rest
  have hlength : headLength storage (w ++ ending ++ rest) = (w ++ ending).length := hpos
  have hshort : ∀ p, p < headLength storage (w ++ ending ++ rest) → p - whole p < 2 ^ 63 := by
    intro p hp
    rw [hlength] at hp
    exact Nat.lt_of_le_of_lt (Nat.sub_le ..)
      (Nat.lt_trans hp (Nat.lt_of_le_of_lt hsize (by decide)))
  have hwithin := calls_within storage (w ++ ending ++ rest)
  have hok : HeadOk whole storage (w ++ ending ++ rest) := by
    by_contra hnot
    exact foldlM_see_of_not_ok hshort hwithin hnot hcalls rfl
  refine ⟨⟨hended, hlength ▸ hsize⟩, hlength, hok, ?_⟩
  have hset := foldlM_see_of_ok hshort (fun p => Nat.zero_le p) hwithin hok ⟨.new, 0⟩
  have heq := hset.symm.trans hcalls
  exact congrArg ParserData.m_data (Option.some.inj heq)

end

end Http

end Will
