/-
ZjhServer/HttpClient/RoundTrip.lean

What `HttpResponseParser` makes of the bytes of `HttpResponse::dump` (server/http/http.cc).

The text of `dump` in front of the body is a head of the grammar (`HttpResponse.head`), so the
parser takes it, whatever follows, and makes the response again, with the reason that `dump`
writes for one without and the headers that it adds (`HttpResponse.echo`).
-/
import ZjhServer.Http.RoundTrip
import ZjhServer.HttpClient.Head

namespace Will

namespace Http

/-- The reason that `dump` writes. -/
def HttpResponse.reasonText (rsp : HttpResponse) : Bytes :=
  if rsp.m_reason = [] then HttpStatusToString rsp.m_status else rsp.m_reason

/-- The response with the reason and the headers that `dump` writes for it; the parser
leaves the body to others, and the connection flag as the constructor made it. -/
def HttpResponse.echo (rsp : HttpResponse) : HttpResponse :=
  let rsp' := { rsp with m_reason := rsp.reasonText, m_body := [], m_close := true }.setHeader
    (ascii "connection") (connectionValue rsp.m_close)
  if rsp.m_body = [] then rsp'
  else rsp'.setHeader (ascii "content-length") (decimal rsp.m_body.length)

namespace Client

open Transducer

/-! ### Responses to send -/

/-- A header that is a line of the grammar: a name of tokens, and a value in one line that no blank
begins. -/
structure Sent (i : Bytes × Bytes) : Prop where
  name_ne : i.1 ≠ []
  name_token : ∀ c ∈ i.1, token c = true
  value_inLine : ∀ c ∈ i.2, inLine c = true
  value_first : ∀ c ∈ i.2.head?, isspace c = false

/-- A response of the grammar.  Its header map is sorted, as a `std::map` is, and without
the headers of `dump`. -/
structure SendableResponse (rsp : HttpResponse) : Prop where
  version : rsp.m_version = 0x10 ∨ rsp.m_version = 0x11
  reason : ∀ c ∈ rsp.m_reason, inLine c = true
  sorted : OrderedMap.Sorted lowered rsp.m_headers
  headers : ∀ i ∈ rsp.m_headers, Sent i
  foreign : ∀ i ∈ rsp.m_headers, strcasecmp i.1 (ascii "connection") ≠ 0 ∧
    strcasecmp i.1 (ascii "content-length") ≠ 0

/-- The header lines `dump` writes, in their order. -/
def sentHeaders (rsp : HttpResponse) : MapType :=
  rsp.m_headers ++ [(ascii "connection", connectionValue rsp.m_close)] ++
    if rsp.m_body = [] then [] else [(ascii "content-length", decimal rsp.m_body.length)]

theorem sent_connection (m_close : Bool) : Sent (ascii "connection", connectionValue m_close) := by
  cases m_close with
  | false => exact ⟨List.cons_ne_nil _ _, forall_ascii rfl, forall_ascii rfl, by decide +kernel⟩
  | true => exact ⟨List.cons_ne_nil _ _, forall_ascii rfl, forall_ascii rfl, by decide +kernel⟩

theorem decimal_plain {n : Nat} {c : UInt8} (hc : c ∈ decimal n) :
    digit c = true ∧ inLine c = true ∧ isspace c = false := by
  obtain ⟨hge, hle⟩ := decimal_digit hc
  have hdigit : digit c = true := (digit_iff c).mpr ⟨hge, hle⟩
  refine ⟨hdigit, ?_, (digitValue_lt (Nat.lt_trans (digitValue_digit hdigit) (by decide))
    (Nat.le_refl 36)).1⟩
  rw [inLine, Bool.and_eq_true, bne_iff_ne, bne_iff_ne]
  constructor <;>
  · rintro rfl
    revert hge hle
    decide

theorem sent_length (n : Nat) : Sent (ascii "content-length", decimal n) where
  name_ne := List.cons_ne_nil _ _
  name_token := forall_ascii rfl
  value_inLine := fun _ hc => (decimal_plain hc).2.1
  value_first := fun _ hc => (decimal_plain (List.mem_of_head? hc)).2.2

theorem SendableResponse.sent {rsp : HttpResponse} (h : SendableResponse rsp) :
    ∀ i ∈ sentHeaders rsp, Sent i := by
  intro i hi
  rcases List.mem_append.mp hi with hi | hi
  · rcases List.mem_append.mp hi with hi | hi
    · exact h.headers i hi
    · rw [List.mem_singleton.mp hi]
      exact sent_connection rsp.m_close
  · split_ifs at hi
    · exact absurd hi List.not_mem_nil
    · rw [List.mem_singleton.mp hi]
      exact sent_length rsp.m_body.length

/-! ### The text in front of the body -/

/-- The line of a header. -/
def lineOf (i : Bytes × Bytes) (h : Sent i) : HeaderLine where
  name := i.1
  blanks := [32]
  value := i.2
  ending := [13, 10]
  name_ne := h.name_ne
  name_token := h.name_token
  blanks_space := by decide +kernel
  value_inLine := h.value_inLine
  value_first := h.value_first
  ending_mem := crlf_mem

theorem lineOf_text (i : Bytes × Bytes) (h : Sent i) : (lineOf i h).text = fieldText i := by
  simp [HeaderLine.text, lineOf, fieldText]

theorem statusText_plain (s : HttpStatus) :
    HttpStatusToString s ≠ [] ∧ ∀ c ∈ HttpStatusToString s, inLine c = true := by
  have hall : ∀ x ∈ HTTP_STATUS_MAP, ascii x.2 ≠ [] ∧ (ascii x.2).all inLine = true := by
    decide +kernel
  unfold HttpStatusToString
  generalize hfind : HTTP_STATUS_MAP.find? _ = found
  cases found with
  | none => exact ⟨by decide, forall_ascii rfl⟩
  | some x =>
    obtain ⟨hne, hplain⟩ := hall x (List.mem_of_find?_eq_some hfind)
    exact ⟨hne, fun c hc => List.all_eq_true.mp hplain c hc⟩

theorem reasonText_plain {rsp : HttpResponse} (h : SendableResponse rsp) :
    rsp.reasonText ≠ [] ∧ ∀ c ∈ rsp.reasonText, inLine c = true := by
  unfold HttpResponse.reasonText
  split_ifs with hreason
  · exact statusText_plain rsp.m_status
  · exact ⟨hreason, h.reason⟩

theorem decimal_digits (n : Nat) : Digits (decimal n) :=
  ⟨decimal_ne_nil n, fun _ hc => (decimal_plain hc).1⟩

/-- The minor version, in digits. -/
def minorText (rsp : HttpResponse) : Bytes := decimal (rsp.m_version &&& 0x0F).toNat

/-- The head that `dump` writes. -/
def headOf (rsp : HttpResponse) (h : SendableResponse rsp) : Head where
  line :=
    { major := decimal (rsp.m_version >>> 4).toNat
      minor := minorText rsp
      status := decimal rsp.m_status.toNat
      reason := rsp.reasonText
      ending := [13, 10]
      major_digits := decimal_digits _
      minor_digits := decimal_digits _
      status_digits := decimal_digits _
      reason_ne := (reasonText_plain h).1
      reason_first := by
        rintro c hc rfl
        exact absurd ((reasonText_plain h).2 10 (List.mem_of_head? hc)) (by decide)
      reason_rest := fun c hc => (reasonText_plain h).2 c (List.mem_of_mem_tail hc)
      ending_mem := crlf_mem }
  fields := (sentHeaders rsp).pmap lineOf h.sent
  ending := [13, 10]
  ending_mem := crlf_mem

theorem flatMap_lineOf (l : MapType) (h : ∀ i ∈ l, Sent i) :
    (l.pmap lineOf h).flatMap HeaderLine.text = l.flatMap fieldText := by
  induction l with
  | nil => rfl
  | cons i l ih =>
      rw [List.pmap_cons, List.flatMap_cons, List.flatMap_cons, lineOf_text, ih]

/-- **The text of `dump`**: its head, and the body. -/
theorem dump_head {rsp : HttpResponse} (h : SendableResponse rsp) :
    rsp.dump = (headOf rsp h).text ++ rsp.m_body := by
  have hline : (headOf rsp h).line.text = rsp.firstLine ++ crlf := by
    simp only [StatusLine.text, StatusLine.version, headOf, minorText, HttpResponse.firstLine,
      versionText, show ascii "HTTP/" = [72, 84, 84, 80, 47] by decide,
      show ascii "." = [46] by decide, show ascii " " = [32] by decide, List.append_assoc]
    rfl
  have hfields : (headOf rsp h).fields.flatMap HeaderLine.text =
      (sentHeaders rsp).flatMap fieldText := flatMap_lineOf _ _
  rw [HttpResponse.dump, Head.text, hline, hfields, fieldsText_foreign fun i hi =>
    (h.foreign i hi).1]
  unfold sentHeaders headOf bodyText
  rw [List.flatMap_append, List.flatMap_append, List.flatMap_singleton, ← connectionLine_text]
  by_cases hbody : rsp.m_body = []
  · rw [if_neg (by simpa using hbody), if_pos hbody, hbody]
    simp [crlf]
  · rw [if_pos hbody, if_neg hbody, List.flatMap_singleton, ← lengthLine_text]
    simp [crlf]

/-! ### What the parser makes of it -/

theorem digitsValue_decimal (n : Nat) : digitsValue 10 (decimal n) = n := by
  unfold digitsValue decimal ascii
  rw [Nat.toList_repr, List.foldl_map]
  refine Eq.trans (List.foldl_ext _ _ _ fun m c hc => ?_) Nat.ofDigitChars_ten_toDigits
  have hdigit := Nat.isDigit_of_mem_toDigits (by decide) (by decide) hc
  unfold Char.isDigit at hdigit
  simp only [ge_iff_le, Bool.and_eq_true, decide_eq_true_eq] at hdigit
  have hge : 48 ≤ c.toNat := UInt32.le_iff_toNat_le.mp hdigit.1
  have hle : c.toNat ≤ 57 := UInt32.le_iff_toNat_le.mp hdigit.2
  have hbyte : (UInt8.ofNat c.toNat).toNat = c.toNat := by
    rw [UInt8.toNat_ofNat', Nat.mod_eq_of_lt (by omega)]
  have hvalue : digitValue (UInt8.ofNat c.toNat) = c.toNat - 48 := by
    unfold digitValue
    simp only [UInt8.le_iff_toNat_le, UInt8.reduceToNat, hbyte]
    rw [if_pos ⟨hge, hle⟩]
  rw [hvalue]
  rfl

/-- A status comes back, though it goes through an `int`. -/
theorem statusOf_decimal (s : HttpStatus) :
    (⟨BitVec.ofInt 32 (intOf 10 (decimal s.toNat))⟩ : HttpStatus) = s := by
  have hlt := s.toNat_lt
  rw [intOf, digitsValue_decimal, min_eq_left (by omega), longToInt, BitVec.ofInt_toInt,
    BitVec.ofInt_natCast]
  exact congrArg UInt32.ofBitVec (BitVec.eq_of_toNat_eq (Nat.mod_eq_of_lt hlt))

/-- The header names its kind. -/
theorem kindOf_eq (u : Bytes) :
    (kindOf u = .transfer_encoding ↔ u = transfer_encoding) ∧
      (kindOf u = .connection ↔ u = connection) ∧
      (kindOf u = .content_length ↔ u = content_length) := by
  unfold kindOf
  split_ifs with h₁ h₂ h₃
  · subst h₁
    decide
  · subst h₂
    decide
  · subst h₃
    decide
  · simp [h₁, h₂, h₃]

/-- The headers of the application have neither kind of the headers of `dump`. -/
theorem SendableResponse.kinds {rsp : HttpResponse} (h : SendableResponse rsp) :
    ∀ i ∈ rsp.m_headers, kindOf (i.1.map tolower) ≠ .connection ∧
      kindOf (i.1.map tolower) ≠ .content_length := by
  intro i hi
  obtain ⟨hconnection, hlength⟩ := h.foreign i hi
  have hplain : ∀ c ∈ i.1, c ≠ 0 := by
    rintro c hc rfl
    exact absurd ((h.headers i hi).name_token 0 hc) (by decide)
  obtain ⟨-, hkind, hkind'⟩ := kindOf_eq (i.1.map tolower)
  obtain ⟨hc, -, hl, -⟩ := words_ascii
  refine ⟨fun hk => hconnection ?_, fun hk => hlength ?_⟩
  · rw [strcasecmp_eq_zero hplain (forall_ascii rfl), hkind.mp hk, hc]
    decide
  · rw [strcasecmp_eq_zero hplain (forall_ascii rfl), hkind'.mp hk, hl]
    decide

/-- A header that says that the body comes in chunks. -/
def SaysChunked (i : Bytes × Bytes) : Prop :=
  i.1.map tolower = ascii "transfer-encoding" ∧ i.2.map tolower = ascii "chunked"

instance (i : Bytes × Bytes) : Decidable (SaysChunked i) := inferInstanceAs (Decidable (_ ∧ _))

/-- What the parser shows of a response. -/
def shownOf (rsp : HttpResponse) (v : View) : View where
  data := ⟨rsp.echo, v.data.m_error⟩
  content_len := if rsp.m_body = [] then v.content_len else intOf 10 (decimal rsp.m_body.length)
  status := intOf 10 (decimal rsp.m_status.toNat)
  chunked := v.chunked || rsp.m_headers.any fun i => SaysChunked i
  chunks_done := v.chunks_done
  close := v.close || rsp.m_close

/-- The header is one of a kind, with a value that the grammar knows. -/
def KnownHeader (k : Kind) (i : Bytes × Bytes) : Prop :=
  kindOf (i.1.map tolower) = k ∧ k.Known (i.2.map tolower)

instance (k : Kind) (i : Bytes × Bytes) : Decidable (KnownHeader k i) :=
  inferInstanceAs (Decidable (_ ∧ _))

def HeaderLine.header (l : HeaderLine) : Bytes × Bytes := (l.name, l.value)

theorem map_lineOf (l : MapType) (h : ∀ i ∈ l, Sent i) :
    (l.pmap lineOf h).map HeaderLine.header = l := by
  induction l with
  | nil => rfl
  | cons i l ih => rw [List.pmap_cons, List.map_cons, ih]; rfl

/-- The headers that lines set, and what they are known to say. -/
theorem foldl_headers (fields : List HeaderLine) (v : View) :
    fields.foldl View.headerLine v = { v with
      data := { v.data with m_data := { v.data.m_data with
        m_headers := (fields.map HeaderLine.header).foldl (fun m i => m.set i.1 i.2)
          v.data.m_data.m_headers } }
      content_len := (((fields.map HeaderLine.header).filter
        fun i => KnownHeader .content_length i).getLast?.map fun i => intOf 10 i.2).getD
          v.content_len
      chunked := v.chunked || (fields.map HeaderLine.header).any
        fun i => KnownHeader .transfer_encoding i
      close := v.close || (fields.map HeaderLine.header).any
        fun i => KnownHeader .connection i } := by
  rw [foldl_headerLine, List.foldl_map, List.filter_map, List.getLast?_map, Option.map_map,
    List.any_map, List.any_map]
  rfl

theorem known_chunked (i : Bytes × Bytes) :
    KnownHeader .transfer_encoding i ↔ SaysChunked i := by
  obtain ⟨-, ht, -, -, hc⟩ := words_ascii
  unfold KnownHeader SaysChunked
  rw [(kindOf_eq _).1, ← ht, ← hc]
  rfl

/-- The headers that `dump` adds. -/
theorem known_own (m_close : Bool) (n : Nat) :
    KnownHeader .transfer_encoding (ascii "connection", connectionValue m_close) = False ∧
      KnownHeader .connection (ascii "connection", connectionValue m_close) = (m_close = true) ∧
      KnownHeader .content_length (ascii "connection", connectionValue m_close) = False ∧
      KnownHeader .transfer_encoding (ascii "content-length", decimal n) = False ∧
      KnownHeader .connection (ascii "content-length", decimal n) = False ∧
      KnownHeader .content_length (ascii "content-length", decimal n) = True := by
  have hlength : kindOf ((ascii "content-length").map tolower) = .content_length := by decide
  have hdigits : (decimal n).map tolower ≠ [] ∧ ((decimal n).map tolower).all digit = true := by
    refine ⟨by simpa using decimal_ne_nil n, List.all_eq_true.mpr fun c hc => ?_⟩
    obtain ⟨d, hd, rfl⟩ := List.mem_map.mp hc
    rw [digit_tolower]
    exact (decimal_plain hd).1
  refine ⟨?_, ?_, ?_, ?_, ?_, ?_⟩
  · cases m_close <;> decide
  · cases m_close <;> decide
  · cases m_close <;> decide
  · simp [KnownHeader, hlength]
  · simp [KnownHeader, hlength]
  · simp only [KnownHeader, hlength, true_and]
    exact eq_true hdigits

/-- What the headers of `dump` are known to say. -/
theorem known_sent {rsp : HttpResponse} (h : SendableResponse rsp) :
    (sentHeaders rsp).any (fun i => KnownHeader .transfer_encoding i) =
      rsp.m_headers.any (fun i => SaysChunked i) ∧
    (sentHeaders rsp).any (fun i => KnownHeader .connection i) = rsp.m_close ∧
    ((sentHeaders rsp).filter fun i => KnownHeader .content_length i) =
      if rsp.m_body = [] then [] else [(ascii "content-length", decimal rsp.m_body.length)] := by
  obtain ⟨hc₁, hc₂, hc₃, hl₁, hl₂, hl₃⟩ := known_own rsp.m_close rsp.m_body.length
  have hclose : rsp.m_headers.any (fun i => KnownHeader .connection i) = false := by
    rw [List.any_eq_false]
    intro i hi hknown
    exact (h.kinds i hi).1 (of_decide_eq_true hknown).1
  have hlength : (rsp.m_headers.filter fun i => KnownHeader .content_length i) = [] := by
    rw [List.filter_eq_nil_iff]
    intro i hi hknown
    exact (h.kinds i hi).2 (of_decide_eq_true hknown).1
  unfold sentHeaders
  refine ⟨?_, ?_, ?_⟩
  · rw [List.any_append, List.any_append]
    simp only [known_chunked] at hc₁ hl₁ ⊢
    split_ifs <;> simp [hc₁, hl₁]
  · rw [List.any_append, List.any_append, hclose]
    split_ifs <;> simp [hc₂, hl₂]
  · rw [List.filter_append, List.filter_append, hlength]
    split_ifs <;> simp [hc₃, hl₃]

theorem headers_made {rsp : HttpResponse} (h : SendableResponse rsp) :
    (sentHeaders rsp).foldl (fun m i => MapType.set i.1 i.2 m) ([] : MapType) =
      rsp.echo.m_headers := by
  have hself := h.sorted.ofList_eq CaseInsensitiveLess_ranks
  have hown : rsp.m_headers.foldl (fun m i => MapType.set i.1 i.2 m) [] = rsp.m_headers := hself
  unfold sentHeaders HttpResponse.echo
  rw [List.foldl_append, List.foldl_append, hown]
  split_ifs <;> rfl

theorem versionOf_headOf {rsp : HttpResponse} (h : SendableResponse rsp) :
    versionOf (headOf rsp h).line.version (headOf rsp h).line.version.length =
      some rsp.m_version := by
  have hversion : (headOf rsp h).line.version = ([72, 84, 84, 80, 47] : Bytes) ++
      decimal (rsp.m_version >>> 4).toNat ++ [46] ++ decimal (rsp.m_version &&& 0x0F).toNat := rfl
  rw [hversion]
  rcases h.version with h' | h' <;> rw [h'] <;> decide

theorem view_head {rsp : HttpResponse} (h : SendableResponse rsp) (v : View)
    (hv : v.data.m_data = .new 0x11 true) : v.head (headOf rsp h) = shownOf rsp v := by
  obtain ⟨hchunked, hclose, hlength⟩ := known_sent h
  have hheaders : (headOf rsp h).fields.map HeaderLine.header = sentHeaders rsp := map_lineOf _ _
  have hstatus : (headOf rsp h).line.status = decimal rsp.m_status.toNat := rfl
  have hreason : (headOf rsp h).line.reason = rsp.reasonText := rfl
  rw [View.head, foldl_headers, hheaders, hchunked, hclose, hlength]
  unfold View.statusLine shownOf
  simp only [hv, HttpResponse.new, headers_made h, versionOf_headOf h, hstatus, hreason,
    statusOf_decimal, Option.getD_some, reduceCtorEq, if_false]
  by_cases hbody : rsp.m_body = []
  · simp only [HttpResponse.echo, hbody, if_true]
    rfl
  · simp only [HttpResponse.echo, hbody, if_false, List.getLast?_singleton, Option.map_some,
      Option.getD_some]
    rfl

theorem Sent.fieldName {i : Bytes × Bytes} (h : Sent i) : Grammar.FieldName i.1 := by
  have hall : ∀ c, token c = true → Grammar.token c = true := forall_byte (by decide +kernel)
  exact ⟨h.name_ne, fun c hc => hall c (h.name_token c hc)⟩

/-- The length that the client finds among the headers. -/
theorem find_length {rsp : HttpResponse} (h : SendableResponse rsp) :
    rsp.echo.m_headers.find (ascii "content-length") =
      if rsp.m_body = [] then none else some (decimal rsp.m_body.length) := by
  have hsorted := OrderedMap.set_sorted CaseInsensitiveLess_ranks h.sorted (ascii "connection")
    (connectionValue rsp.m_close)
  have hnone : OrderedMap.find CaseInsensitiveLess rsp.m_headers (ascii "content-length") =
      none := by
    rw [h.sorted.find_eq CaseInsensitiveLess_ranks, OrderedMap.entry_eq_none]
    · rfl
    · exact fun i hi => lowered_ne (h.headers i hi).fieldName (forall_ascii rfl) (h.foreign i hi).2
  unfold HttpResponse.echo
  by_cases hbody : rsp.m_body = []
  · simp only [hbody, if_true]
    refine (h.sorted.find_set CaseInsensitiveLess_ranks _ _ _).trans ?_
    rw [if_neg own_ranks, hnone]
  · simp only [hbody, if_false]
    refine (hsorted.find_set CaseInsensitiveLess_ranks _ _ _).trans ?_
    rw [if_pos rfl]

/-- The last header line has a value. -/
theorem final_headOf {rsp : HttpResponse} (h : SendableResponse rsp) :
    (headOf rsp h).final = httpclient_parser_first_final := by
  have hheaders : (headOf rsp h).fields.map HeaderLine.header = sentHeaders rsp := map_lineOf _ _
  have hlast : ∀ i ∈ (sentHeaders rsp).getLast?, i.2 ≠ [] := by
    unfold sentHeaders
    intro i hi
    split_ifs at hi
    · rw [List.append_nil, List.getLast?_concat] at hi
      obtain rfl := Option.some.inj hi
      cases rsp.m_close <;> decide
    · rw [List.getLast?_concat] at hi
      obtain rfl := Option.some.inj hi
      exact decimal_ne_nil _
  rw [← hheaders, List.getLast?_map] at hlast
  unfold Head.final
  split
  · rename_i l hl
    have hvalue : l.value ≠ [] := hlast l.header (by rw [hl]; rfl)
    rw [if_neg hvalue]
    rfl
  · rfl

/-- A call that reads the text of `dump` stops in front of the body. -/
theorem execute_sent {rsp : HttpResponse} (h : SendableResponse rsp) (storage : HttpClientParser)
    (rest : Bytes) (hlen : (rsp.dump ++ rest).length < 2 ^ 31) (chunck : Bool) :
    ∃ s' nread, (HttpResponseParser.new storage).execute (rsp.dump ++ rest) 0 chunck =
        .returned s' nread ∧
      (rsp.dump ++ rest).drop nread = rsp.m_body ++ rest ∧
      s'.view = shownOf rsp (HttpResponseParser.new storage).view ∧
      s'.parser.cs = httpclient_parser_first_final := by
  have htext : rsp.dump ++ rest = (headOf rsp h).text ++ (rsp.m_body ++ rest) := by
    rw [dump_head h, List.append_assoc]
  have hstarted : ((HttpResponseParser.new storage).started chunck).parser.cs =
      httpclient_parser_start := by
    cases chunck <;> rfl
  have hview : ((HttpResponseParser.new storage).started chunck).view =
      (HttpResponseParser.new storage).view := by
    cases chunck <;> rfl
  rw [htext] at hlen ⊢
  obtain ⟨s', hcall, hshown, hfinal, -⟩ :=
    parser_execute_head (headOf rsp h) (rsp.m_body ++ rest) hstarted hlen
  rw [hview, view_head h _ rfl] at hshown
  rw [final_headOf h] at hfinal
  exact ⟨s', _, hcall, List.drop_left, hshown, hfinal⟩

/-- The parser is done then, and counts the body. -/
theorem sent_done {lexical_cast : Bytes → Option UInt64}
    (hcast : ∀ n, n < 2 ^ 64 → lexical_cast (decimal n) = some (UInt64.ofNat n))
    {rsp : HttpResponse} (h : SendableResponse rsp) (hbody : rsp.m_body.length < 2 ^ 64)
    {storage : HttpClientParser} {s : HttpResponseParser}
    (hview : s.view = shownOf rsp (HttpResponseParser.new storage).view)
    (hfinal : s.parser.cs = httpclient_parser_first_final) :
    s.isFinished = 1 ∧ s.hasError = false ∧
      (s.getContentLength lexical_cast).toNat = rsp.m_body.length := by
  have hdata : s.toParserData = ⟨rsp.echo, 0⟩ := congrArg View.data hview
  refine ⟨isFinished_of_final hfinal (by decide), ?_, ?_⟩
  · rw [HttpResponseParser.hasError, hdata, httpclient_parser_has_error, hfinal]
    rfl
  · have hfind := find_length h
    unfold HttpResponseParser.getContentLength HttpResponse.getHeaderAs
    rw [hdata, hfind]
    split_ifs with hempty
    · rw [hempty]
      rfl
    · rw [Option.bind_some, hcast _ hbody, Option.getD_some, UInt64.toNat_ofNat',
        Nat.mod_eq_of_lt hbody]

theorem body_length_lt {rsp : HttpResponse} (h : SendableResponse rsp) {rest : Bytes}
    (hlen : (rsp.dump ++ rest).length < 2 ^ 31) : rsp.m_body.length < 2 ^ 64 := by
  rw [dump_head h, List.length_append, List.length_append] at hlen
  omega

/-- **What a client gets of `dump`**: whatever follows it in the buffer, a parser takes the text
in front of the body, makes the response again, and is done; the body is what
`getContentLength` counts of what is left. -/
theorem execute_dump {lexical_cast : Bytes → Option UInt64}
    (hcast : ∀ n, n < 2 ^ 64 → lexical_cast (decimal n) = some (UInt64.ofNat n))
    {rsp : HttpResponse} (h : SendableResponse rsp) (storage : HttpClientParser) (rest : Bytes)
    (hlen : (rsp.dump ++ rest).length < 2 ^ 31) (chunck : Bool) :
    ∃ s' nread, (HttpResponseParser.new storage).execute (rsp.dump ++ rest) 0 chunck =
        .returned s' nread ∧
      (rsp.dump ++ rest).drop nread = rsp.m_body ++ rest ∧
      s'.view = shownOf rsp (HttpResponseParser.new storage).view ∧
      s'.isFinished = 1 ∧ s'.hasError = false ∧
      (s'.getContentLength lexical_cast).toNat = rsp.m_body.length := by
  obtain ⟨s', nread, hcall, hdrop, hview, hfinal⟩ := execute_sent h storage rest hlen chunck
  exact ⟨s', nread, hcall, hdrop, hview, sent_done hcast h (body_length_lt h hlen) hview hfinal⟩

theorem execute_dump_ok :
    let rsp : HttpResponse :=
      { m_status := 404, m_version := 0x10, m_close := false, m_body := ascii "hello",
        m_reason := [], m_headers := [(ascii "Server", ascii "z")] }
    ∃ s' nread, (HttpResponseParser.new .zero).execute (rsp.dump ++ ascii "HTTP") 0 false =
        .returned s' nread ∧ (rsp.dump ++ ascii "HTTP").drop nread = ascii "helloHTTP" ∧
      s'.m_data.m_reason = ascii "Not Found" ∧ s'.parser.close = false ∧
      s'.parser.content_len = 5 := by
  intro rsp
  have hsend : SendableResponse rsp := {
    version := by decide
    reason := by decide +kernel
    sorted := List.pairwise_singleton _ _
    headers := by
      intro i hi
      rw [List.mem_singleton.mp hi]
      exact ⟨by decide +kernel, by decide +kernel, by decide +kernel, by decide +kernel⟩
    foreign := by decide }
  obtain ⟨s', nread, hcall, hdrop, hview, -⟩ :=
    execute_dump castDecimal_decimal hsend .zero (ascii "HTTP") (by decide) false
  refine ⟨s', nread, hcall, hdrop, ?_, ?_, ?_⟩
  · refine (congrArg (·.data.m_data.m_reason) hview).trans ?_
    decide
  · refine (congrArg View.close hview).trans ?_
    decide
  · refine (congrArg View.content_len hview).trans ?_
    decide

end Client

end Http

end Will
