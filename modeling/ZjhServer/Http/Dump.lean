/-
ZjhServer/Http/Dump.lean

`HttpRequest::dump` and `HttpResponse::dump` (server/http/http.cc), and what a peer reads
off their text: the header lines, up to the first empty one, and the `connection` and
`content-length` lines among them.

`dump` takes a `connection` header of the application out and writes its own.  It does not do
so with `content-length`, and writes one of its own only for a body that is not empty, so
the framing depends on the lines the strings of the application make (`dump_framed`).
-/
import ZjhServer.Http.Request

namespace Will

namespace Http

/-! ### The text -/

def crlf : Bytes := [13, 10]

/-- `os << n` -/
def decimal (n : Nat) : Bytes := ascii (Nat.repr n)

def HttpMethodToString (m : HttpMethod) : Bytes :=
  ascii (((HTTP_METHOD_MAP.find? fun x => x.1 = m).map Prod.snd).getD "<unknown>")

/-- The codes of `HttpStatus`; a variable of that type may hold others. -/
abbrev HttpStatus := UInt32

def HTTP_STATUS_MAP : List (HttpStatus × String) := [
  (100, "Continue"), (101, "Switching Protocols"), (102, "Processing"), (200, "OK"),
  (201, "Created"), (202, "Accepted"), (203, "Non-Authoritative Information"),
  (204, "No Content"), (205, "Reset Content"), (206, "Partial Content"), (207, "Multi-Status"),
  (208, "Already Reported"), (226, "IM Used"), (300, "Multiple Choices"),
  (301, "Moved Permanently"), (302, "Found"), (303, "See Other"), (304, "Not Modified"),
  (305, "Use Proxy"), (307, "Temporary Redirect"), (308, "Permanent Redirect"),
  (400, "Bad Request"), (401, "Unauthorized"), (402, "Payment Required"), (403, "Forbidden"),
  (404, "Not Found"), (405, "Method Not Allowed"), (406, "Not Acceptable"),
  (407, "Proxy Authentication Required"), (408, "Request Timeout"), (409, "Conflict"),
  (410, "Gone"), (411, "Length Required"), (412, "Precondition Failed"),
  (413, "Payload Too Large"), (414, "URI Too Long"), (415, "Unsupported Media Type"),
  (416, "Range Not Satisfiable"), (417, "Expectation Failed"), (421, "Misdirected Request"),
  (422, "Unprocessable Entity"), (423, "Locked"), (424, "Failed Dependency"),
  (426, "Upgrade Required"), (428, "Precondition Required"), (429, "Too Many Requests"),
  (431, "Request Header Fields Too Large"), (451, "Unavailable For Legal Reasons"),
  (500, "Internal Server Error"), (501, "Not Implemented"), (502, "Bad Gateway"),
  (503, "Service Unavailable"), (504, "Gateway Timeout"), (505, "HTTP Version Not Supported"),
  (506, "Variant Also Negotiates"), (507, "Insufficient Storage"), (508, "Loop Detected"),
  (510, "Not Extended"), (511, "Network Authentication Required")]

def HttpStatusToString (s : HttpStatus) : Bytes :=
  ascii (((HTTP_STATUS_MAP.find? fun x => x.1 = s).map Prod.snd).getD "<unknown>")

structure HttpResponse where
  m_status : HttpStatus
  m_version : UInt16
  m_close : Bool
  m_body : Bytes
  m_reason : Bytes
  m_headers : MapType
  deriving DecidableEq, Repr

/-- `HttpResponse(version, close)` -/
def HttpResponse.new (version : UInt16) (close : Bool) : HttpResponse where
  m_status := 200
  m_version := version
  m_close := close
  m_body := []
  m_reason := []
  m_headers := []

def HttpResponse.setHeader (rsp : HttpResponse) (key val : Bytes) : HttpResponse :=
  { rsp with m_headers := rsp.m_headers.set key val }

/-- `((uint32_t)(m_version >> 4)) << "." << ((uint32_t)(m_version & 0x0F))` -/
def versionText (m_version : UInt16) : Bytes :=
  decimal (m_version >>> 4).toNat ++ ascii "." ++ decimal (m_version &&& 0x0F).toNat

def connectionLine (m_close : Bool) : Bytes :=
  ascii "connection: " ++ ascii (if m_close then "close" else "keep-alive")

/-- The loop over `m_headers`, which skips a `connection` header. -/
def fieldsText : MapType → Bytes
  | [] => []
  | i :: m_headers =>
      if strcasecmp i.1 (ascii "connection") = 0 then fieldsText m_headers
      else i.1 ++ ascii ": " ++ i.2 ++ crlf ++ fieldsText m_headers

def lengthLine (m_body : Bytes) : Bytes := ascii "content-length: " ++ decimal m_body.length

/-- `if(!m_body.empty()) … else …` -/
def bodyText (m_body : Bytes) : Bytes :=
  if m_body ≠ [] then lengthLine m_body ++ crlf ++ crlf ++ m_body else crlf

/-- The request line, without its line end. -/
def HttpRequest.firstLine (req : HttpRequest) : Bytes :=
  HttpMethodToString req.m_method ++ ascii " " ++ req.m_path ++
    (if req.m_query = [] then [] else ascii "?") ++ req.m_query ++
    (if req.m_fragment = [] then [] else ascii "#") ++ req.m_fragment ++
    ascii " HTTP/" ++ versionText req.m_version

def HttpRequest.dump (req : HttpRequest) : Bytes :=
  req.firstLine ++ crlf ++ connectionLine req.m_close ++ crlf ++ fieldsText req.m_headers ++
    bodyText req.m_body

/-- The status line, without its line end. -/
def HttpResponse.firstLine (rsp : HttpResponse) : Bytes :=
  ascii "HTTP/" ++ versionText rsp.m_version ++ ascii " " ++ decimal rsp.m_status.toNat ++
    ascii " " ++ (if rsp.m_reason = [] then HttpStatusToString rsp.m_status else rsp.m_reason)

def HttpResponse.dump (rsp : HttpResponse) : Bytes :=
  rsp.firstLine ++ crlf ++ fieldsText rsp.m_headers ++ connectionLine rsp.m_close ++ crlf ++
    bodyText rsp.m_body

/-! ### What the peer reads -/

/-- The lines of a text; the last one may have no line end. -/
def lines : Bytes → List Bytes
  | [] => [[]]
  | [c] => [[c]]
  | c :: d :: rest =>
      if c = 13 ∧ d = 10 then [] :: lines rest else (lines (d :: rest)).modifyHead (c :: ·)

/-- The lines behind the first one, up to the first empty line. -/
def headerLines (text : Bytes) : List Bytes := ((lines text).takeWhile (· ≠ [])).tail

/-- What stands before the colon, in lower case. -/
def fieldName (line : Bytes) : Bytes := (line.takeWhile (· ≠ 58)).map tolower

def isBlank (c : UInt8) : Bool := c = 32 || c = 9

/-- What stands behind the colon, without blanks around it. -/
def fieldValue (line : Bytes) : Bytes :=
  ((((line.dropWhile (· ≠ 58)).drop 1).dropWhile isBlank).reverse.dropWhile isBlank).reverse

def isConnection (line : Bytes) : Bool := fieldName line = ascii "connection"

def isLength (line : Bytes) : Bool := fieldName line = ascii "content-length"

/-- The line asks to keep the connection alive. -/
def saysKeepAlive (line : Bytes) : Bool :=
  isConnection line && (fieldValue line).map tolower = ascii "keep-alive"

/-- One `connection` line, at most one `content-length` line, and that with the size of
the body. -/
structure Framed (headers : List Bytes) (body : Bytes) : Prop where
  connection : headers.countP isConnection = 1
  once : headers.countP isLength ≤ 1
  length : ∀ line ∈ headers, isLength line = true → fieldValue line = decimal body.length

/-- A connection that is kept alive has its messages delimited. -/
def Delimited (headers : List Bytes) : Prop :=
  (∃ line ∈ headers, saysKeepAlive line = true) → ∃ line ∈ headers, isLength line = true

/-! ### The lines of the application -/

/-- The lines that the header map makes: one for each header it has, or more if a name or a
value contains line ends. -/
def fieldLines : MapType → List Bytes
  | [] => []
  | i :: m_headers =>
      if strcasecmp i.1 (ascii "connection") = 0 then fieldLines m_headers
      else lines (i.1 ++ ascii ": " ++ i.2) ++ fieldLines m_headers

/-- Lines that path, query and fragment make behind the request line. -/
def HttpRequest.lead (req : HttpRequest) : List Bytes := (lines req.firstLine).tail

/-- Lines that the reason makes behind the status line, and those of the header map. -/
def HttpResponse.lead (rsp : HttpResponse) : List Bytes :=
  (lines rsp.firstLine).tail ++ fieldLines rsp.m_headers

/-- The header lines of the application: its lines up to the first empty one. -/
def shown (lead fields : List Bytes) : List Bytes := (lead ++ fields).takeWhile (· ≠ [])

/-- `dump` writes its `content-length` line, and that before an empty line. -/
def LengthShown (lead fields : List Bytes) (body : Bytes) : Prop :=
  body ≠ [] ∧ [] ∉ lead ++ fields

instance (lead fields : List Bytes) (body : Bytes) : Decidable (LengthShown lead fields body) :=
  inferInstanceAs (Decidable (_ ∧ _))

/-- The application makes no `connection` line (but the one there is, if it makes an empty
line before that of `dump`), and no `content-length` line beside that of `dump` and
none with another number than the size of the body. -/
structure Fair (lead fields : List Bytes) (body : Bytes) : Prop where
  connection : (shown lead fields).countP isConnection = if [] ∈ lead then 1 else 0
  once : (shown lead fields).countP isLength ≤ if LengthShown lead fields body then 0 else 1
  length : ∀ line ∈ shown lead fields, isLength line = true →
    fieldValue line = decimal body.length

/-- When the connection is kept alive, there is a body or the application makes a
`content-length` line itself. -/
def Sized (lead fields : List Bytes) (close : Bool) (body : Bytes) : Prop :=
  (∃ line ∈ shown lead fields, saysKeepAlive line = true) ∨ (close = false ∧ [] ∉ lead) →
    LengthShown lead fields body ∨ ∃ line ∈ shown lead fields, isLength line = true

/-! ### Lines -/

theorem lines_ne_nil (s : Bytes) : lines s ≠ [] := by
  fun_induction lines s with
  | case1 => simp
  | case2 => simp
  | case3 => simp
  | case4 c d rest _ ih =>
      obtain ⟨l, ls, h⟩ := List.exists_cons_of_ne_nil ih
      rw [h]
      simp

/-- A line end cuts. -/
theorem lines_append (a b : Bytes) : lines (a ++ (crlf ++ b)) = lines a ++ lines b := by
  fun_induction lines a with
  | case1 => simp [crlf, lines]
  | case2 c => simp [crlf, lines]
  | case3 rest c d h ih =>
      obtain ⟨rfl, rfl⟩ := h
      simp [lines, ih]
  | case4 c d rest h ih =>
      obtain ⟨l, ls, hlines⟩ := List.exists_cons_of_ne_nil (lines_ne_nil (d :: rest))
      rw [hlines, List.cons_append] at ih
      rw [List.cons_append, List.cons_append, lines, if_neg h, ih, hlines]
      rfl

/-- A text without line feeds is one line. -/
theorem lines_single {s : Bytes} (h : ∀ c ∈ s, c ≠ 10) : lines s = [s] := by
  fun_induction lines s with
  | case1 => rfl
  | case2 => rfl
  | case3 c d rest hcut => exact absurd hcut.2 (h d (by simp))
  | case4 c d rest _ ih =>
      rw [ih fun e he => h e (List.mem_cons_of_mem _ he)]
      rfl

/-- The first line begins as the text does. -/
theorem lines_cons {c : UInt8} (h : c ≠ 13) (s : Bytes) :
    ∃ l ls, lines (c :: s) = (c :: l) :: ls := by
  cases s with
  | nil => exact ⟨[], [], rfl⟩
  | cons d rest =>
      obtain ⟨l, ls, hlines⟩ := List.exists_cons_of_ne_nil (lines_ne_nil (d :: rest))
      rw [lines, if_neg fun hcut => h hcut.1, hlines]
      exact ⟨l, ls, rfl⟩

theorem lines_fieldsText (m_headers : MapType) (b : Bytes) :
    lines (fieldsText m_headers ++ b) = fieldLines m_headers ++ lines b := by
  induction m_headers with
  | nil => rfl
  | cons i m_headers ih =>
      rw [fieldsText, fieldLines]
      split_ifs
      · exact ih
      · rw [List.append_assoc _ crlf, List.append_assoc _ (crlf ++ _), List.append_assoc crlf,
          lines_append, ih]
        exact (List.append_assoc ..).symm

theorem decimal_digit {n : Nat} {c : UInt8} (h : c ∈ decimal n) : 48 ≤ c.toNat ∧ c.toNat ≤ 57 := by
  unfold decimal ascii at h
  rw [Nat.toList_repr] at h
  obtain ⟨d, hd, rfl⟩ := List.mem_map.mp h
  have hdigit := Nat.isDigit_of_mem_toDigits (by decide) (by decide) hd
  unfold Char.isDigit at hdigit
  simp only [ge_iff_le, Bool.and_eq_true, decide_eq_true_eq] at hdigit
  have hge : 48 ≤ d.toNat := UInt32.le_iff_toNat_le.mp hdigit.1
  have hle : d.toNat ≤ 57 := UInt32.le_iff_toNat_le.mp hdigit.2
  rw [UInt8.toNat_ofNat', Nat.mod_eq_of_lt (by omega)]
  exact ⟨hge, hle⟩

theorem decimal_ne_nil (n : Nat) : decimal n ≠ [] := by
  unfold decimal ascii
  rw [Nat.toList_repr]
  simp

/-! ### The lines `dump` writes itself -/

theorem lines_connectionLine (close : Bool) :
    lines (connectionLine close) = [connectionLine close] := by
  cases close <;> decide

theorem lines_lengthLine (body : Bytes) : lines (lengthLine body) = [lengthLine body] := by
  have hname : ∀ c ∈ ascii "content-length: ", c ≠ 10 := forall_ascii rfl
  refine lines_single fun c hc => ?_
  rcases List.mem_append.mp hc with hc | hc
  · exact hname c hc
  · rintro rfl
    exact absurd (decimal_digit hc).1 (by decide)

/-- The name of a line with a colon. -/
theorem fieldName_colon {name : Bytes} (h : ∀ c ∈ name, c ≠ 58) (rest : Bytes) :
    fieldName (name ++ 58 :: rest) = name.map tolower := by
  unfold fieldName
  rw [List.takeWhile_append_of_pos (by simpa using h)]
  simp

theorem dropWhile_eq_self {p : UInt8 → Bool} {s : Bytes} (h : ∀ c ∈ s, p c = false) :
    s.dropWhile p = s := by
  cases s with
  | nil => rfl
  | cons c s => rw [List.dropWhile_cons_of_neg (by rw [h c (List.mem_cons_self ..)]; decide)]

/-- The value of a line: what is behind the colon and a blank, if there is no blank in it. -/
theorem fieldValue_colon {name value : Bytes} (h : ∀ c ∈ name, c ≠ 58)
    (hvalue : ∀ c ∈ value, isBlank c = false) : fieldValue (name ++ 58 :: 32 :: value) = value := by
  unfold fieldValue
  rw [List.dropWhile_append_of_pos (by simpa using h)]
  have hblank : isBlank 32 = true := rfl
  simp only [List.dropWhile_cons_of_neg, List.drop_one, List.tail_cons, ne_eq, not_true_eq_false,
    decide_false, Bool.false_eq_true, not_false_eq_true, List.dropWhile_cons_of_pos hblank]
  rw [dropWhile_eq_self hvalue, dropWhile_eq_self (by simpa using hvalue), List.reverse_reverse]

theorem contentLength_plain : ∀ c ∈ ascii "content-length", c ≠ 58 := forall_ascii rfl

theorem lengthLine_eq (body : Bytes) :
    lengthLine body = ascii "content-length" ++ 58 :: 32 :: decimal body.length := by
  rw [lengthLine, show ascii "content-length: " = ascii "content-length" ++ [58, 32] by decide,
    List.append_assoc]
  rfl

theorem isLength_lengthLine (body : Bytes) : isLength (lengthLine body) = true := by
  unfold isLength
  rw [lengthLine_eq, fieldName_colon contentLength_plain]
  decide

theorem isConnection_lengthLine (body : Bytes) : isConnection (lengthLine body) = false := by
  unfold isConnection
  rw [lengthLine_eq, fieldName_colon contentLength_plain]
  decide

theorem fieldValue_lengthLine (body : Bytes) :
    fieldValue (lengthLine body) = decimal body.length := by
  rw [lengthLine_eq]
  refine fieldValue_colon contentLength_plain fun c hc => ?_
  have hdigit := (decimal_digit hc).1
  unfold isBlank
  rw [Bool.or_eq_false_iff, decide_eq_false_iff_not, decide_eq_false_iff_not]
  constructor <;>
  · rintro rfl
    exact absurd hdigit (by decide)

theorem connectionLine_reads (close : Bool) :
    isConnection (connectionLine close) = true ∧ isLength (connectionLine close) = false ∧
      saysKeepAlive (connectionLine close) = !close := by
  cases close <;> decide

theorem connectionLine_ne_nil (close : Bool) : connectionLine close ≠ [] := by
  cases close <;> decide

theorem lengthLine_ne_nil (body : Bytes) : lengthLine body ≠ [] := by
  rw [lengthLine_eq]
  simp

/-! ### The header lines of a message -/

/-- The lines of `dump` in the head that are not of the application. -/
def own (lead fields : List Bytes) (close : Bool) (body : Bytes) : List Bytes :=
  (if [] ∈ lead then [] else [connectionLine close]) ++
    if LengthShown lead fields body then [lengthLine body] else []

/-- The head of a message, from the lines of the application before and after the
`connection` line. -/
def head (lead fields : List Bytes) (close : Bool) (body : Bytes) : List Bytes :=
  (lead ++ connectionLine close :: (fields ++ lines (bodyText body))).takeWhile (· ≠ [])

theorem lines_bodyText (body : Bytes) :
    ∃ rest,
      lines (bodyText body) = (if body = [] then [] else [lengthLine body]) ++ [] :: rest := by
  unfold bodyText
  by_cases hbody : body = []
  · rw [if_neg (by simpa using hbody), if_pos hbody]
    exact ⟨[[]], rfl⟩
  · refine ⟨lines body, ?_⟩
    have htext : lengthLine body ++ crlf ++ crlf ++ body =
        lengthLine body ++ (crlf ++ ([] ++ (crlf ++ body))) := by simp
    rw [if_pos hbody, if_neg hbody, htext, lines_append, lines_append, lines_lengthLine]
    rfl

theorem takeWhile_append_cut {l r : List Bytes} :
    (l ++ r).takeWhile (· ≠ []) =
      if [] ∈ l then l.takeWhile (· ≠ []) else l ++ r.takeWhile (· ≠ []) := by
  induction l with
  | nil => simp
  | cons x l ih =>
      rw [List.cons_append, List.takeWhile_cons, List.takeWhile_cons, ih]
      by_cases hx : x = []
      · simp [hx]
      · by_cases hl : [] ∈ l
        · simp [hx, hl]
        · simp [hx, hl, Ne.symm hx]

/-- The lines behind the `connection` line. -/
theorem fields_takeWhile {lead : List Bytes} (hlead : [] ∉ lead) (fields : List Bytes)
    (body : Bytes) :
    (fields ++ lines (bodyText body)).takeWhile (· ≠ []) =
      fields.takeWhile (· ≠ []) ++
        if LengthShown lead fields body then [lengthLine body] else [] := by
  obtain ⟨rest, hrest⟩ := lines_bodyText body
  have hshown : LengthShown lead fields body ↔ body ≠ [] ∧ [] ∉ fields := by
    simp [LengthShown, hlead]
  rw [hrest, takeWhile_append_cut]
  by_cases hfields : [] ∈ fields
  · rw [if_pos hfields, if_neg fun h => (hshown.mp h).2 hfields, List.append_nil]
  · have hself : fields.takeWhile (· ≠ []) = fields := by
      have h := takeWhile_append_cut (l := fields) (r := [])
      rw [if_neg hfields] at h
      simpa using h
    rw [if_neg hfields, hself]
    by_cases hbody : body = []
    · rw [if_pos hbody, if_neg fun h => (hshown.mp h).1 hbody]
      simp
    · rw [if_neg hbody, if_pos (hshown.mpr ⟨hbody, hfields⟩)]
      simp [lengthLine_ne_nil]

/-- **The head** has the header lines of the application and, unless an empty line comes
first, those of `dump`. -/
theorem head_perm (lead fields : List Bytes) (close : Bool) (body : Bytes) :
    (head lead fields close body).Perm (shown lead fields ++ own lead fields close body) := by
  unfold head shown own
  rw [takeWhile_append_cut, takeWhile_append_cut]
  by_cases hlead : [] ∈ lead
  · rw [if_pos hlead, if_pos hlead, if_pos hlead,
      if_neg fun h => h.2 (List.mem_append_left _ hlead)]
    simp
  · rw [if_neg hlead, if_neg hlead, if_neg hlead,
      List.takeWhile_cons_of_pos (by simpa using connectionLine_ne_nil close),
      fields_takeWhile hlead, List.append_assoc]
    exact List.Perm.append_left _ List.perm_middle.symm

theorem mem_head {lead fields : List Bytes} {close : Bool} {body line : Bytes} :
    line ∈ head lead fields close body ↔
      line ∈ shown lead fields ∨ line ∈ own lead fields close body :=
  (head_perm lead fields close body).mem_iff.trans List.mem_append

theorem countP_head (p : Bytes → Bool) (lead fields : List Bytes) (close : Bool) (body : Bytes) :
    (head lead fields close body).countP p =
      (shown lead fields).countP p + (own lead fields close body).countP p := by
  rw [(head_perm lead fields close body).countP_eq, List.countP_append]

theorem mem_own {lead fields : List Bytes} {close : Bool} {body line : Bytes} :
    line ∈ own lead fields close body ↔
      ([] ∉ lead ∧ line = connectionLine close) ∨
        LengthShown lead fields body ∧ line = lengthLine body := by
  unfold own
  by_cases hlead : [] ∈ lead <;> by_cases hlength : LengthShown lead fields body <;>
    simp [hlead, hlength]

theorem countP_connection_own (lead fields : List Bytes) (close : Bool) (body : Bytes) :
    (own lead fields close body).countP isConnection = if [] ∈ lead then 0 else 1 := by
  have hconn := (connectionLine_reads close).1
  have hlength := isConnection_lengthLine body
  unfold own
  by_cases hlead : [] ∈ lead <;> by_cases hshown : LengthShown lead fields body <;>
    simp [hlead, hshown, hconn, hlength]

theorem countP_length_own (lead fields : List Bytes) (close : Bool) (body : Bytes) :
    (own lead fields close body).countP isLength =
      if LengthShown lead fields body then 1 else 0 := by
  have hconn := (connectionLine_reads close).2.1
  have hlength := isLength_lengthLine body
  unfold own
  by_cases hlead : [] ∈ lead <;> by_cases hshown : LengthShown lead fields body <;>
    simp [hlead, hshown, hconn, hlength]

/-- The `content-length` lines of a head. -/
theorem length_head {lead fields : List Bytes} {close : Bool} {body : Bytes} {P : Bytes → Prop} :
    (∀ line ∈ head lead fields close body, isLength line = true → P line) ↔
      (∀ line ∈ shown lead fields, isLength line = true → P line) ∧
        (LengthShown lead fields body → P (lengthLine body)) := by
  constructor
  · intro h
    refine ⟨fun line hline => h line (mem_head.mpr (Or.inl hline)), fun hshown => ?_⟩
    exact h _ (mem_head.mpr (Or.inr (mem_own.mpr (Or.inr ⟨hshown, rfl⟩))))
      (isLength_lengthLine body)
  · rintro ⟨hlines, hown⟩ line hline hlength
    rcases mem_head.mp hline with hline | hline
    · exact hlines line hline hlength
    · rcases mem_own.mp hline with ⟨-, rfl⟩ | ⟨hshown, rfl⟩
      · rw [(connectionLine_reads close).2.1] at hlength
        cases hlength
      · exact hown hshown

/-- **A head is framed** when the lines of the application are fair. -/
theorem framed_iff (lead fields : List Bytes) (close : Bool) (body : Bytes) :
    Framed (head lead fields close body) body ↔ Fair lead fields body := by
  have hconn := countP_head isConnection lead fields close body
  have honce := countP_head isLength lead fields close body
  rw [countP_connection_own] at hconn
  rw [countP_length_own] at honce
  have hconnIff : (head lead fields close body).countP isConnection = 1 ↔
      (shown lead fields).countP isConnection = if [] ∈ lead then 1 else 0 := by
    rw [hconn]
    by_cases hlead : [] ∈ lead <;> simp [hlead]
  have honceIff : (head lead fields close body).countP isLength ≤ 1 ↔
      (shown lead fields).countP isLength ≤ if LengthShown lead fields body then 0 else 1 := by
    rw [honce]
    by_cases hshown : LengthShown lead fields body <;> simp [hshown]
  constructor
  · rintro ⟨h1, h2, h3⟩
    exact ⟨hconnIff.mp h1, honceIff.mp h2, (length_head.mp h3).1⟩
  · rintro ⟨h1, h2, h3⟩
    exact ⟨hconnIff.mpr h1, honceIff.mpr h2,
      length_head.mpr ⟨h3, fun _ => fieldValue_lengthLine body⟩⟩

/-- **A head is delimited** when the application sizes what `dump` does not. -/
theorem delimited_iff (lead fields : List Bytes) (close : Bool) (body : Bytes) :
    Delimited (head lead fields close body) ↔ Sized lead fields close body := by
  obtain ⟨hconn, hconnLength, halive⟩ := connectionLine_reads close
  have hkeep : (∃ line ∈ head lead fields close body, saysKeepAlive line = true) ↔
      (∃ line ∈ shown lead fields, saysKeepAlive line = true) ∨ (close = false ∧ [] ∉ lead) := by
    have hnot : saysKeepAlive (lengthLine body) = false := by
      rw [saysKeepAlive, isConnection_lengthLine, Bool.false_and]
    simp only [mem_head, mem_own, or_and_right, exists_or, and_assoc, exists_and_left,
      exists_eq_left, halive, hnot, Bool.not_eq_true', Bool.false_eq_true, and_false, or_false,
      and_comm (a := close = false)]
  have hlength : (∃ line ∈ head lead fields close body, isLength line = true) ↔
      LengthShown lead fields body ∨ ∃ line ∈ shown lead fields, isLength line = true := by
    simp only [mem_head, mem_own, or_and_right, exists_or, and_assoc, exists_and_left,
      exists_eq_left, hconnLength, isLength_lengthLine, Bool.false_eq_true, and_false, and_true,
      false_or]
    exact or_comm
  unfold Delimited Sized
  rw [hkeep, hlength]

/-! ### The messages -/

/-- The lines behind the first one are cut off at the first empty one. -/
theorem headerLines_of_lines {text first : Bytes} {rest : List Bytes} (hfirst : first ≠ [])
    (htext : lines text = first :: rest) : headerLines text = rest.takeWhile (· ≠ []) := by
  rw [headerLines, htext, List.takeWhile_cons_of_pos (by simpa using hfirst), List.tail_cons]

theorem lines_eq_cons (c : UInt8) (hc : c ≠ 13) (s : Bytes) :
    ∃ first, first ≠ [] ∧ lines (c :: s) = first :: (lines (c :: s)).tail := by
  obtain ⟨l, ls, hlines⟩ := lines_cons hc s
  exact ⟨c :: l, List.cons_ne_nil _ _, by rw [hlines, List.tail_cons]⟩

theorem HttpMethodToString_cons (m : HttpMethod) :
    ∃ c s, HttpMethodToString m = c :: s ∧ c ≠ 13 := by
  cases m <;> exact ⟨_, _, rfl, by decide⟩

theorem HttpRequest.headerLines_dump (req : HttpRequest) :
    headerLines req.dump = head req.lead (fieldLines req.m_headers) req.m_close req.m_body := by
  obtain ⟨c, s, hmethod, hc⟩ := HttpMethodToString_cons req.m_method
  obtain ⟨first, hfirst, hlines⟩ : ∃ first, first ≠ [] ∧
      lines req.firstLine = first :: (lines req.firstLine).tail := by
    unfold HttpRequest.firstLine
    rw [hmethod]
    exact lines_eq_cons c hc _
  have hdump : req.dump = req.firstLine ++ (crlf ++ (connectionLine req.m_close ++
      (crlf ++ (fieldsText req.m_headers ++ bodyText req.m_body)))) := by
    simp [HttpRequest.dump]
  have hall : lines req.dump = first :: (req.lead ++ connectionLine req.m_close ::
      (fieldLines req.m_headers ++ lines (bodyText req.m_body))) := by
    rw [hdump, lines_append, lines_append, lines_connectionLine, lines_fieldsText, hlines]
    rfl
  exact headerLines_of_lines hfirst hall

theorem HttpResponse.headerLines_dump (rsp : HttpResponse) :
    headerLines rsp.dump = head rsp.lead [] rsp.m_close rsp.m_body := by
  obtain ⟨first, hfirst, hlines⟩ : ∃ first, first ≠ [] ∧
      lines rsp.firstLine = first :: (lines rsp.firstLine).tail := by
    have hhttp : ascii "HTTP/" = 72 :: ascii "TTP/" := by decide
    unfold HttpResponse.firstLine
    rw [hhttp]
    exact lines_eq_cons 72 (by decide) _
  have hdump : rsp.dump = rsp.firstLine ++ (crlf ++ (fieldsText rsp.m_headers ++
      (connectionLine rsp.m_close ++ (crlf ++ bodyText rsp.m_body)))) := by
    simp [HttpResponse.dump]
  have hall : lines rsp.dump = first :: (rsp.lead ++ connectionLine rsp.m_close ::
      ([] ++ lines (bodyText rsp.m_body))) := by
    rw [hdump, lines_append, lines_fieldsText, lines_append, lines_connectionLine, hlines]
    simp [HttpResponse.lead]
  exact headerLines_of_lines hfirst hall

/-! ### Plain headers -/

/-- The header map has names that stand before a colon on a line, and values that stand
on one. -/
def Plain (m_headers : MapType) : Prop :=
  ∀ i ∈ m_headers, (∀ c ∈ i.1, c ≠ 0 ∧ c ≠ 10 ∧ c ≠ 58) ∧ ∀ c ∈ i.2, c ≠ 10

/-- The line of a header. -/
def fieldLine (i : Bytes × Bytes) : Bytes := i.1 ++ ascii ": " ++ i.2

theorem tolower_ne_zero {c : UInt8} (h : c ≠ 0) : (tolower c).toNat ≠ 0 :=
  mt tolower_eq_zero.mp h

/-- Names without NUL are equal for `strcasecmp` when they are in lower case. -/
theorem strcasecmp_eq_zero {s t : Bytes} (hs : ∀ c ∈ s, c ≠ 0) (ht : ∀ c ∈ t, c ≠ 0) :
    strcasecmp s t = 0 ↔ s.map tolower = t.map tolower := by
  induction s generalizing t with
  | nil =>
      cases t with
      | nil => decide
      | cons d t =>
          have hd := tolower_ne_zero (ht d (List.mem_cons_self ..))
          simpa [strcasecmp] using hd
  | cons c s ih =>
      have hc := hs c (List.mem_cons_self ..)
      cases t with
      | nil =>
          have hlow := tolower_ne_zero hc
          have hnil : (tolower (([] : Bytes).headD 0)).toNat = 0 := by decide
          rw [strcasecmp, hnil, if_pos (Or.inl (by simpa using hlow))]
          simpa using hlow
      | cons d t =>
          have htail := ih (fun e he => hs e (List.mem_cons_of_mem _ he))
            fun e he => ht e (List.mem_cons_of_mem _ he)
          rw [strcasecmp, List.headD_cons, List.map_cons, List.map_cons, List.cons.injEq]
          by_cases heq : tolower c = tolower d
          · rw [heq, if_neg (by simp [hc]), List.tail_cons, htail]
            simp
          · have hne : ((tolower c).toNat : Int) - (tolower d).toNat ≠ 0 := by
              exact fun h => heq (UInt8.toNat_inj.mp (Int.ofNat_inj.mp (Int.sub_eq_zero.mp h)))
            rw [if_pos (Or.inl hne)]
            simp [hne, heq]

theorem fieldLine_colon (i : Bytes × Bytes) : fieldLine i = i.1 ++ 58 :: 32 :: i.2 := by
  rw [fieldLine, show ascii ": " = [58, 32] by decide, List.append_assoc]
  rfl

theorem fieldLines_plain {m_headers : MapType} (hplain : Plain m_headers) :
    fieldLines m_headers =
      (m_headers.filter (·.1.map tolower ≠ ascii "connection")).map fieldLine := by
  induction m_headers with
  | nil => rfl
  | cons i m_headers ih =>
      obtain ⟨hname, hvalue⟩ := hplain i (List.mem_cons_self ..)
      have hconn : strcasecmp i.1 (ascii "connection") = 0 ↔
          i.1.map tolower = ascii "connection" := by
        rw [strcasecmp_eq_zero (fun c hc => (hname c hc).1) (forall_ascii rfl)]
        rfl
      have hline : lines (i.1 ++ ascii ": " ++ i.2) = [fieldLine i] := by
        refine lines_single fun c hc => ?_
        have hcolon : ∀ c ∈ ascii ": ", c ≠ 10 := forall_ascii rfl
        rcases List.mem_append.mp hc with hc | hc
        · rcases List.mem_append.mp hc with hc | hc
          · exact (hname c hc).2.1
          · exact hcolon c hc
        · exact hvalue c hc
      rw [fieldLines, ih fun j hj => hplain j (List.mem_cons_of_mem _ hj), hline, List.filter_cons]
      by_cases h : i.1.map tolower = ascii "connection"
      · rw [if_pos (hconn.mpr h), if_neg (by simpa using h)]
      · rw [if_neg (mt hconn.mp h), if_pos (by simpa using h)]
        rfl

/-- **Plain headers are fair** when none but one of a message without a body is
`content-length`, and that has the size of the body. -/
theorem fair_plain {m_headers : MapType} (hplain : Plain m_headers) (body : Bytes) :
    Fair [] (fieldLines m_headers) body ↔
      m_headers.countP (·.1.map tolower = ascii "content-length") ≤
          (if body = [] then 1 else 0) ∧
        ∀ i ∈ m_headers, i.1.map tolower = ascii "content-length" →
          fieldValue (fieldLine i) = decimal body.length := by
  have hname : ∀ i ∈ m_headers, fieldName (fieldLine i) = i.1.map tolower := fun i hi => by
    rw [fieldLine_colon, fieldName_colon fun c hc => ((hplain i hi).1 c hc).2.2]
  have hnil : ([] : Bytes) ∉ fieldLines m_headers := by
    rw [fieldLines_plain hplain]
    simp [fieldLine_colon]
  -- no line is empty, so the head ends where `dump` ends it
  have hshown : shown [] (fieldLines m_headers) = fieldLines m_headers := by
    have h := takeWhile_append_cut (l := fieldLines m_headers) (r := [])
    rw [if_neg hnil] at h
    simpa [shown] using h
  have hconn : (fieldLines m_headers).countP isConnection = 0 := by
    rw [fieldLines_plain hplain, List.countP_map, List.countP_eq_zero]
    intro i hi
    obtain ⟨hi, hnot⟩ := List.mem_filter.mp hi
    show ¬ isConnection (fieldLine i) = true
    rw [isConnection, hname i hi]
    simpa using hnot
  have hlength : ∀ i ∈ m_headers, i.1.map tolower = ascii "content-length" →
      fieldLine i ∈ fieldLines m_headers := by
    intro i hi hlow
    rw [fieldLines_plain hplain]
    refine List.mem_map_of_mem (List.mem_filter.mpr ⟨hi, ?_⟩)
    rw [hlow]
    decide
  have honce : (fieldLines m_headers).countP isLength =
      m_headers.countP (·.1.map tolower = ascii "content-length") := by
    rw [fieldLines_plain hplain, List.countP_map, List.countP_filter]
    refine List.countP_congr fun i hi => ?_
    show (isLength (fieldLine i) && decide (i.1.map tolower ≠ ascii "connection")) = true ↔ _
    rw [isLength, hname i hi]
    have hne : ascii "content-length" ≠ ascii "connection" := by decide
    simp +contextual [hne]
  -- `dump` adds the length of a body itself
  have hbound : (if LengthShown [] (fieldLines m_headers) body then 0 else 1) =
      if body = [] then 1 else 0 := by
    by_cases hbody : body = [] <;> simp [LengthShown, hnil, hbody]
  constructor
  · rintro ⟨-, h2, h3⟩
    rw [hshown, honce, hbound] at h2
    rw [hshown] at h3
    refine ⟨h2, fun i hi hlow => h3 _ (hlength i hi hlow) ?_⟩
    rw [isLength, hname i hi, hlow]
    decide
  · rintro ⟨h2, h3⟩
    refine ⟨by rw [hshown, hconn]; rfl, by rw [hshown, honce, hbound]; exact h2, ?_⟩
    rw [hshown, fieldLines_plain hplain]
    intro line hline hlow
    obtain ⟨i, hi, rfl⟩ := List.mem_map.mp hline
    have hmem := (List.mem_filter.mp hi).1
    rw [isLength, hname i hmem, decide_eq_true_iff] at hlow
    exact h3 i hmem hlow

/-- **The framing of what is dumped.** -/
theorem dump_framed (req : HttpRequest) (rsp : HttpResponse) :
    (Framed (headerLines req.dump) req.m_body ↔
      Fair req.lead (fieldLines req.m_headers) req.m_body) ∧
    (Framed (headerLines rsp.dump) rsp.m_body ∧ Delimited (headerLines rsp.dump) ↔
      Fair rsp.lead [] rsp.m_body ∧ Sized rsp.lead [] rsp.m_close rsp.m_body) := by
  rw [req.headerLines_dump, rsp.headerLines_dump, framed_iff, framed_iff, delimited_iff]
  exact ⟨Iff.rfl, Iff.rfl⟩

/-- A response that keeps the connection and has no body says nothing of its length; a
`Content-Length` header of the application stands beside the one of `dump`. -/
theorem dump_unframed :
    ¬ Delimited (headerLines (HttpResponse.new 0x11 false).dump) ∧
    ¬ Framed
      (headerLines { HttpResponse.new 0x11 false with
        m_headers := [(ascii "Content-Length", ascii "7")], m_body := ascii "hello" }.dump)
      (ascii "hello") := by
  rw [HttpResponse.headerLines_dump, HttpResponse.headerLines_dump, delimited_iff, framed_iff]
  constructor
  · unfold Sized
    decide +kernel
  · intro h
    have hvalue := h.length (ascii "Content-Length: 7") (by decide +kernel) (by decide +kernel)
    exact absurd hvalue (by decide +kernel)

end Http

end Will
