/-
ZjhServer/Http/Parser.lean

`http_parser_execute` (server/http/http11_parser.rl) and `HttpRequestParser`
(server/http/http_parser.{h,cc}).

The registers of the machine are offsets into the buffer of the current call; a call
first clears `mark`, `field_start` and `field_len`.  The constructor leaves
`query_start` and `uri_relaxed` as the memory was: `storage`.

A callback that makes a string of an impossible length throws; a failed assertion
ends the process.  Neither assertion ever fails (`http_parser_execute_asserts`).
-/
import ZjhServer.Http.Table
import ZjhServer.Http.Request

namespace Will

namespace Http

/-- `struct http_parser`, without the callbacks and what is only written. -/
structure HttpParser where
  cs : Nat
  body_start : Nat
  mark : Nat
  field_start : Nat
  field_len : Nat
  query_start : Nat
  xml_sent : Bool
  json_sent : Bool
  uri_relaxed : Bool
  deriving DecidableEq, Repr

def http_parser_init (storage : HttpParser) : HttpParser :=
  { storage with
    cs := http_parser_start
    body_start := 0
    mark := 0
    field_len := 0
    field_start := 0
    xml_sent := false
    json_sent := false }

/-- The members of `HttpRequestParser` that the callbacks change. -/
structure ParserData where
  m_data : HttpRequest
  m_error : Int
  deriving DecidableEq, Repr

structure HttpRequestParser extends ParserData where
  parser : HttpParser
  deriving DecidableEq, Repr

/-- `HttpRequestParser()` -/
def HttpRequestParser.new (storage : HttpParser) : HttpRequestParser :=
  ⟨⟨.new, 0⟩, http_parser_init storage⟩

/-! ### Callbacks -/

/-- `FPC - buffer - parser->AT`, a `size_t` that wraps around -/
def LEN (start fpc : Nat) : Nat := if start ≤ fpc then fpc - start else 2 ^ 64 - (start - fpc)

/-- `std::string(chars, length)`; throws `std::length_error` beyond `max_size()`. -/
def string (chars : Bytes) (length : Nat) : Option Bytes :=
  if length < 2 ^ 63 then some (chars.take length) else none

def on_request_method (d : ParserData) (chars : Bytes) (length : Nat) : Option ParserData :=
  let m := CharsToHttpMethod chars
  if m = .INVALID_METHOD then (string chars length).map fun _ => { d with m_error := 1000 }
  else some { d with m_data := { d.m_data with m_method := m } }

def on_request_fragment (d : ParserData) (chars : Bytes) (length : Nat) : Option ParserData :=
  (string chars length).map fun v => { d with m_data := { d.m_data with m_fragment := v } }

def on_request_path (d : ParserData) (chars : Bytes) (length : Nat) : Option ParserData :=
  (string chars length).map fun v => { d with m_data := { d.m_data with m_path := v } }

def on_request_query (d : ParserData) (chars : Bytes) (length : Nat) : Option ParserData :=
  (string chars length).map fun v => { d with m_data := { d.m_data with m_query := v } }

/-- The version `on_request_version` sees. -/
def versionOf (chars : Bytes) (length : Nat) : Option UInt16 :=
  if strncmpEq chars (ascii "HTTP/1.1") length then some 0x11
  else if strncmpEq chars (ascii "HTTP/1.0") length then some 0x10
  else none

def on_request_version (d : ParserData) (chars : Bytes) (length : Nat) : Option ParserData :=
  match versionOf chars length with
  | some v => some { d with m_data := { d.m_data with m_version := v } }
  | none => (string chars length).map fun _ => { d with m_error := 1001 }

def on_request_http_field (d : ParserData) (field : Bytes) (flen : Nat) (value : Bytes)
    (vlen : Nat) : Option ParserData :=
  if flen = 0 then some d
  else
    (string field flen).bind fun key =>
      (string value vlen).map fun val => { d with m_data := d.m_data.setHeader key val }

/-! ### The state machine -/

/-- A register of the machine changed. -/
def HttpRequestParser.setParser (s : HttpRequestParser) (parser : HttpParser) :
    HttpRequestParser := { s with parser := parser }

/-- After a callback. -/
def HttpRequestParser.setData (s : HttpRequestParser) (d : ParserData) : HttpRequestParser :=
  { s with toParserData := d }

/-- An action performed on the byte at offset `fpc`; no result if it throws. -/
def act (buffer : Bytes) (fpc : Nat) (s : HttpRequestParser) : Action → Option HttpRequestParser
  | .mark | .start_value => some (s.setParser { s.parser with mark := fpc })
  | .start_field => some (s.setParser { s.parser with field_start := fpc })
  | .write_field =>
      some (s.setParser { s.parser with field_len := LEN s.parser.field_start fpc })
  | .write_value =>
      (on_request_http_field s.toParserData (buffer.drop s.parser.field_start)
        s.parser.field_len (buffer.drop s.parser.mark) (LEN s.parser.mark fpc)).map s.setData
  | .request_method =>
      (on_request_method s.toParserData (buffer.drop s.parser.mark)
        (LEN s.parser.mark fpc)).map s.setData
  | .request_uri => some s
  | .fragment =>
      (on_request_fragment s.toParserData (buffer.drop s.parser.mark)
        (LEN s.parser.mark fpc)).map s.setData
  | .start_query => some (s.setParser { s.parser with query_start := fpc })
  | .query_string =>
      (on_request_query s.toParserData (buffer.drop s.parser.query_start)
        (LEN s.parser.query_start fpc)).map s.setData
  | .http_version =>
      (on_request_version s.toParserData (buffer.drop s.parser.mark)
        (LEN s.parser.mark fpc)).map s.setData
  | .request_path =>
      (on_request_path s.toParserData (buffer.drop s.parser.mark)
        (LEN s.parser.mark fpc)).map s.setData
  | .done =>
      some (s.setParser { s.parser with
        body_start :=
          if s.parser.xml_sent || s.parser.json_sent then s.parser.mark else fpc + 1 })
  | .xml => some (s.setParser { s.parser with xml_sent := true })
  | .json => some (s.setParser { s.parser with json_sent := true })

/-- Where the machine stopped: the local `cs` and `p`. -/
structure Exec where
  parser : HttpRequestParser
  cs : Nat
  p : Nat
  deriving DecidableEq, Repr

/-- `%% write exec` from offset `p` on, where `rest` is left of the buffer; `done`
breaks out of it. -/
def exec (buffer : Bytes) : Nat → Bytes → Nat → HttpRequestParser → Option Exec
  | p, [], cs, s => some ⟨s, cs, p⟩
  | p, c :: rest, cs, s =>
      match transition s.parser.uri_relaxed cs c with
      | none => some ⟨s, http_parser_error, p⟩
      | some t =>
          (t.actions.foldlM (act buffer p) s).bind fun s =>
            if t.actions.contains .done then some ⟨s, t.target, p + 1⟩
            else exec buffer (p + 1) rest t.target s

def http_parser_has_error (parser : HttpParser) : Bool := parser.cs = http_parser_error

def http_parser_is_finished (parser : HttpParser) : Bool := http_parser_first_final ≤ parser.cs

/-- What a call of `execute` does: it returns the bytes consumed, throws, or fails an
assertion. -/
inductive Executed
  | returned (parser : HttpRequestParser) (nread : Nat)
  | length_error
  | aborted
  deriving DecidableEq, Repr

/-- The assertions behind the machine, for a buffer of `len` bytes. -/
def asserts (parser : HttpParser) (nread len : Nat) : Bool :=
  nread ≤ len && parser.body_start ≤ len && parser.mark < len && parser.field_len ≤ len &&
    parser.field_start < len

/-- The registers a call clears. -/
def HttpRequestParser.clear (s : HttpRequestParser) : HttpRequestParser :=
  s.setParser { s.parser with mark := 0, field_len := 0, field_start := 0 }

/-- `http_parser_execute(parser, buffer, len, 0)` -/
def http_parser_execute (s : HttpRequestParser) (buffer : Bytes) : Executed :=
  if buffer = [] then .returned s 0
  else
    match exec buffer 0 buffer s.parser.cs s.clear with
    | none => .length_error
    | some r =>
        let s :=
          if http_parser_has_error r.parser.parser then r.parser
          else r.parser.setParser { r.parser.parser with cs := r.cs }
        if asserts s.parser r.p buffer.length then .returned s r.p else .aborted

namespace HttpRequestParser

/-- `getContentLength()`, with `boost::lexical_cast<uint64_t>` given. -/
def getContentLength (lexical_cast : Bytes → Option UInt64) (s : HttpRequestParser) : UInt64 :=
  s.m_data.getHeaderAs lexical_cast (ascii "content-length") 0

/-- `execute`; the `memmove` leaves `data.drop nread` in front of the buffer. -/
def execute (s : HttpRequestParser) (data : Bytes) : Executed := http_parser_execute s data

def isFinished (s : HttpRequestParser) : Int :=
  if http_parser_has_error s.parser then -1
  else if http_parser_is_finished s.parser then 1
  else 0

def hasError (s : HttpRequestParser) : Bool :=
  s.m_error ≠ 0 || http_parser_has_error s.parser

/-- `GetHttpRequestBufferSize()` -/
def GetHttpRequestBufferSize : Nat := 4 * 1024

end HttpRequestParser

end Http

end Will
