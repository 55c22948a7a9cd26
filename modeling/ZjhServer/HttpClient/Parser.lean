/-
ZjhServer/HttpClient/Parser.lean

`httpclient_parser_execute` (server/http/httpclient_parser.rl) and `HttpResponseParser`
(server/http/http_parser.{h,cc}).

The registers are offsets into the buffer of the current call, which first clears `mark`,
`field_start` and `field_len`; it keeps `body_start`, and the numbers and flags read off the
text.  The buffer of a call must end on a NUL.  `init` leaves `status` as the memory
was: `storage`.
-/
import Mathlib
import ZjhServer.Http.Dump
import ZjhServer.Http.Parser
import ZjhServer.HttpClient.Table

namespace Will

namespace Http

/-! ### Numbers -/

def isspace (c : UInt8) : Bool := c = 32 || (9 ≤ c && c ≤ 13)

/-- The value of a digit, in any base up to 36; no digit has the value 36. -/
def digitValue (c : UInt8) : Nat :=
  if 48 ≤ c ∧ c ≤ 57 then c.toNat - 48
  else if 65 ≤ c ∧ c ≤ 90 then c.toNat - 55
  else if 97 ≤ c ∧ c ≤ 122 then c.toNat - 87
  else 36

/-- The number that digits make. -/
def digitsValue (base : Nat) (s : Bytes) : Nat := s.foldl (fun n c => base * n + digitValue c) 0

/-- The digits at the front of a string. -/
def digitsOf (base : Nat) (s : Bytes) : Bytes := s.takeWhile (digitValue · < base)

/-- `0x` in front of a digit -/
def dropPrefix (base : Nat) (s : Bytes) : Bytes :=
  if base = 16 ∧ s.headD 0 = 48 ∧ (s.tail.headD 0 = 120 ∨ s.tail.headD 0 = 88) ∧
      digitValue ((s.drop 2).headD 0) < 16 then s.drop 2
  else s

/-- `strtol(s, NULL, base)` -/
def strtol (s : Bytes) (base : Nat) : Int :=
  let s := s.dropWhile isspace
  let minus := s.headD 0 = 45
  let s := if s.headD 0 = 45 ∨ s.headD 0 = 43 then s.tail else s
  let n : Int := digitsValue base (digitsOf base (dropPrefix base s))
  if minus then max (-n) (-2 ^ 63) else min n (2 ^ 63 - 1)

/-- A `long`, or a `size_t`, converted to an `int`. -/
def longToInt (n : Int) : Int := (BitVec.ofInt 32 n).toInt

/-- `atoi(s)` -/
def atoi (s : Bytes) : Int := longToInt (strtol s 10)

/-! ### Responses -/

/-- `getHeaderAs<T>(key, def)`, with `boost::lexical_cast<T>` given. -/
def HttpResponse.getHeaderAs {T : Type} (lexical_cast : Bytes → Option T) (rsp : HttpResponse)
    (key : Bytes) (dflt : T) : T :=
  ((rsp.m_headers.find key).bind lexical_cast).getD dflt

namespace Client

/-- `struct httpclient_parser`, without the callbacks and what is only written. -/
structure HttpClientParser where
  cs : Nat
  body_start : Nat
  content_len : Int
  status : Int
  chunked : Bool
  chunks_done : Bool
  close : Bool
  mark : Nat
  field_start : Nat
  field_len : Nat
  deriving DecidableEq, Repr

def httpclient_parser_init (storage : HttpClientParser) : HttpClientParser :=
  { storage with
    cs := httpclient_parser_start
    body_start := 0
    content_len := -1
    chunked := false
    chunks_done := false
    mark := 0
    field_len := 0
    field_start := 0
    close := false }

/-- The members of `HttpResponseParser` that the callbacks change. -/
structure ParserData where
  m_data : HttpResponse
  m_error : Int
  deriving DecidableEq, Repr

structure HttpResponseParser extends ParserData where
  parser : HttpClientParser
  deriving DecidableEq, Repr

/-- `HttpResponseParser()` -/
def HttpResponseParser.new (storage : HttpClientParser) : HttpResponseParser :=
  ⟨⟨.new 0x11 true, 0⟩, httpclient_parser_init storage⟩

/-! ### Callbacks -/

/-- `std::string(chars, length)`, where `chars` goes to the end of the buffer and a NUL follows; no
result if it throws, or reads behind the NUL. -/
def text (chars : Bytes) (length : Nat) : Option Bytes :=
  if length ≤ chars.length + 1 then string (chars ++ [0]) length else none

def on_response_reason (d : ParserData) (chars : Bytes) (length : Nat) : Option ParserData :=
  (text chars length).map fun v => { d with m_data := { d.m_data with m_reason := v } }

def on_response_status (d : ParserData) (chars : Bytes) : Option ParserData :=
  some { d with m_data := { d.m_data with m_status := ⟨BitVec.ofInt 32 (atoi chars)⟩ } }

def on_response_version (d : ParserData) (chars : Bytes) (length : Nat) : Option ParserData :=
  match versionOf chars length with
  | some v => some { d with m_data := { d.m_data with m_version := v } }
  | none => (text chars length).map fun _ => { d with m_error := 1001 }

def on_response_http_field (d : ParserData) (field : Bytes) (flen : Nat) (value : Bytes)
    (vlen : Nat) : Option ParserData :=
  if flen = 0 then some d
  else
    (text field flen).bind fun key =>
      (text value vlen).map fun val => { d with m_data := d.m_data.setHeader key val }

/-! ### The state machine -/

/-- A register of the machine changed. -/
def HttpResponseParser.setParser (s : HttpResponseParser) (parser : HttpClientParser) :
    HttpResponseParser := { s with parser := parser }

/-- After a callback. -/
def HttpResponseParser.setData (s : HttpResponseParser) (d : ParserData) : HttpResponseParser :=
  { s with toParserData := d }

/-- An action performed on the byte at offset `fpc`; no result if it throws or reads behind the
buffer.  The callbacks of `chunk_size` and `done` do nothing. -/
def act (buffer : Bytes) (fpc : Nat) (s : HttpResponseParser) :
    Action → Option HttpResponseParser
  | .mark | .start_value => some (s.setParser { s.parser with mark := fpc })
  | .start_field => some (s.setParser { s.parser with field_start := fpc })
  | .write_field =>
      some (s.setParser { s.parser with field_len := LEN s.parser.field_start fpc })
  | .write_content_len =>
      some (s.setParser { s.parser with
        content_len := longToInt (strtol (buffer.drop s.parser.mark) 10) })
  | .write_connection_close => some (s.setParser { s.parser with close := true })
  | .write_value =>
      (on_response_http_field s.toParserData (buffer.drop s.parser.field_start)
        s.parser.field_len (buffer.drop s.parser.mark) (LEN s.parser.mark fpc)).map s.setData
  | .reason_phrase =>
      (on_response_reason s.toParserData (buffer.drop s.parser.mark)
        (LEN s.parser.mark fpc)).map s.setData
  | .status_code =>
      let s := s.setParser { s.parser with
        status := longToInt (strtol (buffer.drop s.parser.mark) 10) }
      (on_response_status s.toParserData (buffer.drop s.parser.mark)).map s.setData
  | .http_version =>
      (on_response_version s.toParserData (buffer.drop s.parser.mark)
        (LEN s.parser.mark fpc)).map s.setData
  | .chunk_size =>
      let content_len := longToInt (strtol (buffer.drop s.parser.mark) 16)
      some (s.setParser { s.parser with
        chunked := true, content_len := content_len, chunks_done := content_len ≤ 0 })
  | .trans_chunked => some (s.setParser { s.parser with chunked := true })
  | .done => some (s.setParser { s.parser with body_start := fpc + 1 })

/-- Where the machine stopped: the local `cs` and `p`. -/
structure Exec where
  parser : HttpResponseParser
  cs : Nat
  p : Nat
  deriving DecidableEq, Repr

/-- `%% write exec` from offset `p` on, where `rest` is left of the buffer; `done`
breaks out of it. -/
def exec (buffer : Bytes) : Nat → Bytes → Nat → HttpResponseParser → Option Exec
  | p, [], cs, s => some ⟨s, cs, p⟩
  | p, c :: rest, cs, s =>
      match transition cs c with
      | none => some ⟨s, httpclient_parser_error, p⟩
      | some t =>
          (t.actions.foldlM (act buffer p) s).bind fun s =>
            if t.actions.contains .done then some ⟨s, t.target, p + 1⟩
            else exec buffer (p + 1) rest t.target s

/-- What a call of `execute` does: it returns the bytes consumed, it returns -1 (and then
moves memory from in front of the buffer), throws or reads behind the buffer, or fails an
assertion. -/
inductive Executed
  | returned (parser : HttpResponseParser) (nread : Nat)
  | failed (parser : HttpResponseParser)
  | overread
  | aborted
  deriving DecidableEq, Repr

/-- The registers a call clears. -/
def HttpResponseParser.clear (s : HttpResponseParser) : HttpResponseParser :=
  s.setParser { s.parser with mark := 0, field_len := 0, field_start := 0 }

/-- `httpclient_parser_execute(parser, buffer, len, 0)`, where `terminator` is the byte
behind the buffer. -/
def httpclient_parser_execute (s : HttpResponseParser) (buffer : Bytes) (terminator : UInt8) :
    Executed :=
  if terminator ≠ 0 then .aborted
  else if (buffer.length : Int) ≠ longToInt buffer.length then .aborted
  else
    match exec buffer 0 buffer s.parser.cs s.clear with
    | none => .overread
    | some r =>
        let s := r.parser.setParser { r.parser.parser with cs := r.cs }
        if ¬(r.p ≤ buffer.length ∧ s.parser.body_start ≤ buffer.length) then .aborted
        else if ¬(s.parser.mark < buffer.length ∧ s.parser.field_len ≤ buffer.length ∧
            s.parser.field_start < buffer.length) then .failed s
        else .returned s r.p

def httpclient_parser_has_error (parser : HttpClientParser) : Bool :=
  parser.cs = httpclient_parser_error

def httpclient_parser_is_finished (parser : HttpClientParser) : Bool :=
  parser.cs = httpclient_parser_first_final

namespace HttpResponseParser

/-- `execute(data, len, chunck)`; when it returns, the `memmove` has left `data.drop nread` in
front of the buffer. -/
def execute (s : HttpResponseParser) (data : Bytes) (terminator : UInt8) (chunck : Bool) :
    Executed :=
  let s := if chunck then s.setParser (httpclient_parser_init s.parser) else s
  httpclient_parser_execute s data terminator

/-- `httpclient_parser_finish` -/
def isFinished (s : HttpResponseParser) : Int :=
  if httpclient_parser_has_error s.parser then -1
  else if httpclient_parser_is_finished s.parser then 1
  else 0

def hasError (s : HttpResponseParser) : Bool :=
  s.m_error ≠ 0 || httpclient_parser_has_error s.parser

/-- `getContentLength()`, with `boost::lexical_cast<uint64_t>` given. -/
def getContentLength (lexical_cast : Bytes → Option UInt64) (s : HttpResponseParser) : UInt64 :=
  s.m_data.getHeaderAs lexical_cast (ascii "content-length") 0

end HttpResponseParser

end Client

end Http

end Will
