/-
ZjhServer/HttpClient/Table.lean

The machine of server/http/httpclient_parser.rl, as generated in httpclient_parser.rl.cc:
for each state the bytes it accepts, the actions performed on them, and the state
after.  The first edge that accepts a byte counts.

It reads the head of a response or the header of a chunk.  Four states are final, but
`httpclient_parser_is_finished` knows the first of them only.
-/
import ZjhServer.Lib.Transducer

namespace Will

namespace Http

namespace Client

/-- The actions of the machine. -/
inductive Action
  | mark
  | start_field
  | write_field
  | start_value
  | write_content_len
  | write_connection_close
  | write_value
  | reason_phrase
  | status_code
  | http_version
  | chunk_size
  | trans_chunked
  | done
  deriving DecidableEq, Repr

structure Transition where
  /-- ranges of bytes -/
  on : List (Nat × Nat)
  actions : List Action
  target : Nat
  deriving DecidableEq, Repr

def edge (on : List (Nat × Nat)) (actions : List Action) (target : Nat) : Transition :=
  ⟨on, actions, target⟩

/-! ### Classes of bytes -/

namespace Classes

def byte (c : Nat) : List (Nat × Nat) := [(c, c)]

/-- A capital letter and its small one. -/
def letter (c : Nat) : List (Nat × Nat) := [(c, c), (c + 32, c + 32)]

def any : List (Nat × Nat) := [(0, 255)]

def space : List (Nat × Nat) := [(9, 13), (32, 32)]

def digit : List (Nat × Nat) := [(48, 57)]

def xdigit : List (Nat × Nat) := [(48, 57), (65, 70), (97, 102)]

def token : List (Nat × Nat) := [(33, 33), (35, 39), (42, 43), (45, 46), (48, 57), (65, 90),
  (94, 122), (124, 124), (126, 126)]

end Classes

/-! ### States -/

def httpclient_parser_start : Nat := 1

def httpclient_parser_first_final : Nat := 120

def httpclient_parser_error : Nat := 0

open Will.Http.Client.Classes in
/-- The transitions of each state. -/
def transitions : List (Nat × List Transition) := [
  (1, [edge (byte 72) [.mark] 8, edge xdigit [.mark] 2]),
  (2, [edge (byte 10) [.chunk_size, .done] 120, edge (byte 13) [.chunk_size] 3,
    edge (byte 59) [.chunk_size] 4, edge xdigit [] 2]),
  (3, [edge (byte 10) [.done] 120]),
  (4, [edge token [.start_field] 5]),
  (5, [edge (byte 10) [.write_field, .start_value, .write_value, .done] 120,
    edge (byte 13) [.write_field, .start_value, .write_value] 3,
    edge (byte 59) [.write_field, .start_value, .write_value] 4,
    edge (byte 61) [.write_field, .start_value] 6, edge token [] 5]),
  (6, [edge token [.start_value] 7]),
  (7, [edge (byte 10) [.write_value, .done] 120, edge (byte 13) [.write_value] 3,
    edge (byte 59) [.write_value] 4, edge token [] 7]),
  (8, [edge (byte 84) [] 9]),
  (9, [edge (byte 84) [] 10]),
  (10, [edge (byte 80) [] 11]),
  (11, [edge (byte 47) [] 12]),
  (12, [edge digit [] 13]),
  (13, [edge (byte 46) [] 14, edge digit [] 13]),
  (14, [edge digit [] 15]),
  (15, [edge (byte 32) [.http_version] 16, edge digit [] 15]),
  (16, [edge digit [.mark] 17]),
  (17, [edge (byte 32) [.status_code] 18, edge digit [] 17]),
  (18, [edge [(0, 9), (11, 255)] [.mark] 19]),
  (19, [edge (byte 10) [.reason_phrase] 20, edge (byte 13) [.reason_phrase] 24, edge any [] 19]),
  (20, [edge (byte 10) [.done] 120, edge (byte 13) [] 3, edge (letter 67) [.start_field] 25,
    edge (letter 84) [.start_field] 44, edge token [.start_field] 21]),
  (21, [edge (byte 58) [.write_field] 22, edge token [] 21]),
  (22, [edge (byte 10) [.start_value, .write_value] 20,
    edge (byte 13) [.start_value, .write_value] 24, edge space [.start_value] 22,
    edge any [.start_value] 23]),
  (23, [edge (byte 10) [.write_value] 20, edge (byte 13) [.write_value] 24, edge any [] 23]),
  (24, [edge (byte 10) [] 20]),
  (25, [edge (byte 58) [.write_field] 22, edge (letter 79) [] 26, edge token [] 21]),
  (26, [edge (byte 58) [.write_field] 22, edge (letter 78) [] 27, edge token [] 21]),
  (27, [edge (byte 58) [.write_field] 22, edge (letter 78) [] 28, edge (letter 84) [] 101,
    edge token [] 21]),
  (28, [edge (byte 58) [.write_field] 22, edge (letter 69) [] 29, edge token [] 21]),
  (29, [edge (byte 58) [.write_field] 22, edge (letter 67) [] 30, edge token [] 21]),
  (30, [edge (byte 58) [.write_field] 22, edge (letter 84) [] 31, edge token [] 21]),
  (31, [edge (byte 58) [.write_field] 22, edge (letter 73) [] 32, edge token [] 21]),
  (32, [edge (byte 58) [.write_field] 22, edge (letter 79) [] 33, edge token [] 21]),
  (33, [edge (byte 58) [.write_field] 22, edge (letter 78) [] 34, edge token [] 21]),
  (34, [edge (byte 58) [.write_field] 35, edge token [] 21]),
  (35, [edge (byte 10) [.start_value, .write_value] 36,
    edge (byte 13) [.start_value, .write_value] 95, edge (letter 67) [.start_value] 96,
    edge space [.start_value] 35, edge any [.start_value] 23]),
  (36, [edge (byte 10) [.done] 122, edge (byte 13) [] 89, edge (letter 67) [.start_field] 90,
    edge (letter 84) [.start_field] 44, edge space [] 37, edge token [.start_field] 21]),
  (37, [edge (letter 67) [] 38, edge space [] 37]),
  (38, [edge (letter 76) [] 39]),
  (39, [edge (letter 79) [] 40]),
  (40, [edge (letter 83) [] 41]),
  (41, [edge (letter 69) [] 42]),
  (42, [edge (byte 10) [] 43, edge (byte 13) [] 88]),
  (43, [edge (byte 10) [.write_connection_close, .done] 120,
    edge (byte 13) [.write_connection_close] 3,
    edge (letter 67) [.write_connection_close, .start_field] 25,
    edge (letter 84) [.write_connection_close, .start_field] 44,
    edge token [.write_connection_close, .start_field] 21]),
  (44, [edge (byte 58) [.write_field] 22, edge (letter 82) [] 45, edge token [] 21]),
  (45, [edge (byte 58) [.write_field] 22, edge (letter 65) [] 46, edge token [] 21]),
  (46, [edge (byte 58) [.write_field] 22, edge (letter 78) [] 47, edge token [] 21]),
  (47, [edge (byte 58) [.write_field] 22, edge (letter 83) [] 48, edge token [] 21]),
  (48, [edge (byte 58) [.write_field] 22, edge (letter 70) [] 49, edge token [] 21]),
  (49, [edge (byte 58) [.write_field] 22, edge (letter 69) [] 50, edge token [] 21]),
  (50, [edge (byte 58) [.write_field] 22, edge (letter 82) [] 51, edge token [] 21]),
  (51, [edge (byte 45) [] 52, edge (byte 58) [.write_field] 22, edge token [] 21]),
  (52, [edge (byte 58) [.write_field] 22, edge (letter 69) [] 53, edge token [] 21]),
  (53, [edge (byte 58) [.write_field] 22, edge (letter 78) [] 54, edge token [] 21]),
  (54, [edge (byte 58) [.write_field] 22, edge (letter 67) [] 55, edge token [] 21]),
  (55, [edge (byte 58) [.write_field] 22, edge (letter 79) [] 56, edge token [] 21]),
  (56, [edge (byte 58) [.write_field] 22, edge (letter 68) [] 57, edge token [] 21]),
  (57, [edge (byte 58) [.write_field] 22, edge (letter 73) [] 58, edge token [] 21]),
  (58, [edge (byte 58) [.write_field] 22, edge (letter 78) [] 59, edge token [] 21]),
  (59, [edge (byte 58) [.write_field] 22, edge (letter 71) [] 60, edge token [] 21]),
  (60, [edge (byte 58) [.write_field] 61, edge token [] 21]),
  (61, [edge (byte 10) [.start_value, .write_value] 62,
    edge (byte 13) [.start_value, .write_value] 80, edge (letter 67) [.start_value] 81,
    edge space [.start_value] 61, edge any [.start_value] 23]),
  (62, [edge (byte 10) [.done] 121, edge (byte 13) [] 72,
    edge (letter 67) [.start_value, .start_field] 73, edge (letter 84) [.start_field] 44,
    edge space [] 63, edge token [.start_field] 21]),
  (63, [edge (letter 67) [.start_value] 64, edge space [] 63]),
  (64, [edge (letter 72) [] 65]),
  (65, [edge (letter 85) [] 66]),
  (66, [edge (letter 78) [] 67]),
  (67, [edge (letter 75) [] 68]),
  (68, [edge (letter 69) [] 69]),
  (69, [edge (letter 68) [] 70]),
  (70, [edge (byte 10) [.write_value, .trans_chunked] 20, edge (byte 13) [.write_value] 71]),
  (71, [edge (byte 10) [.trans_chunked] 20]),
  (72, [edge (byte 10) [.done] 121, edge (letter 67) [.start_value] 64, edge space [] 63]),
  (73, [edge (byte 58) [.write_field] 22, edge (letter 72) [] 74, edge (letter 79) [] 26,
    edge token [] 21]),
  (74, [edge (byte 58) [.write_field] 22, edge (letter 85) [] 75, edge token [] 21]),
  (75, [edge (byte 58) [.write_field] 22, edge (letter 78) [] 76, edge token [] 21]),
  (76, [edge (byte 58) [.write_field] 22, edge (letter 75) [] 77, edge token [] 21]),
  (77, [edge (byte 58) [.write_field] 22, edge (letter 69) [] 78, edge token [] 21]),
  (78, [edge (byte 58) [.write_field] 22, edge (letter 68) [] 79, edge token [] 21]),
  (79, [edge (byte 10) [.write_value, .trans_chunked] 20, edge (byte 13) [.write_value] 71,
    edge (byte 58) [.write_field] 22, edge token [] 21]),
  (80, [edge (byte 10) [] 62, edge (letter 67) [.start_value] 64, edge space [] 63]),
  (81, [edge (byte 10) [.write_value] 20, edge (byte 13) [.write_value] 24, edge (letter 72) [] 82,
    edge any [] 23]),
  (82, [edge (byte 10) [.write_value] 20, edge (byte 13) [.write_value] 24, edge (letter 85) [] 83,
    edge any [] 23]),
  (83, [edge (byte 10) [.write_value] 20, edge (byte 13) [.write_value] 24, edge (letter 78) [] 84,
    edge any [] 23]),
  (84, [edge (byte 10) [.write_value] 20, edge (byte 13) [.write_value] 24, edge (letter 75) [] 85,
    edge any [] 23]),
  (85, [edge (byte 10) [.write_value] 20, edge (byte 13) [.write_value] 24, edge (letter 69) [] 86,
    edge any [] 23]),
  (86, [edge (byte 10) [.write_value] 20, edge (byte 13) [.write_value] 24, edge (letter 68) [] 87,
    edge any [] 23]),
  (87, [edge (byte 10) [.write_value, .trans_chunked] 20, edge (byte 13) [.write_value] 71,
    edge any [] 23]),
  (88, [edge (byte 10) [] 43]),
  (89, [edge (byte 10) [.done] 122, edge (letter 67) [] 38, edge space [] 37]),
  (90, [edge (byte 58) [.write_field] 22, edge (letter 76) [] 91, edge (letter 79) [] 26,
    edge token [] 21]),
  (91, [edge (byte 58) [.write_field] 22, edge (letter 79) [] 92, edge token [] 21]),
  (92, [edge (byte 58) [.write_field] 22, edge (letter 83) [] 93, edge token [] 21]),
  (93, [edge (byte 58) [.write_field] 22, edge (letter 69) [] 94, edge token [] 21]),
  (94, [edge (byte 10) [] 43, edge (byte 13) [] 88, edge (byte 58) [.write_field] 22,
    edge token [] 21]),
  (95, [edge (byte 10) [] 36, edge (letter 67) [] 38, edge space [] 37]),
  (96, [edge (byte 10) [.write_value] 20, edge (byte 13) [.write_value] 24, edge (letter 76) [] 97,
    edge any [] 23]),
  (97, [edge (byte 10) [.write_value] 20, edge (byte 13) [.write_value] 24, edge (letter 79) [] 98,
    edge any [] 23]),
  (98, [edge (byte 10) [.write_value] 20, edge (byte 13) [.write_value] 24, edge (letter 83) [] 99,
    edge any [] 23]),
  (99, [edge (byte 10) [.write_value] 20, edge (byte 13) [.write_value] 24,
    edge (letter 69) [] 100, edge any [] 23]),
  (100, [edge (byte 10) [.write_value] 43, edge (byte 13) [.write_value] 88, edge any [] 23]),
  (101, [edge (byte 58) [.write_field] 22, edge (letter 69) [] 102, edge token [] 21]),
  (102, [edge (byte 58) [.write_field] 22, edge (letter 78) [] 103, edge token [] 21]),
  (103, [edge (byte 58) [.write_field] 22, edge (letter 84) [] 104, edge token [] 21]),
  (104, [edge (byte 45) [] 105, edge (byte 58) [.write_field] 22, edge token [] 21]),
  (105, [edge (byte 58) [.write_field] 22, edge (letter 76) [] 106, edge token [] 21]),
  (106, [edge (byte 58) [.write_field] 22, edge (letter 69) [] 107, edge token [] 21]),
  (107, [edge (byte 58) [.write_field] 22, edge (letter 78) [] 108, edge token [] 21]),
  (108, [edge (byte 58) [.write_field] 22, edge (letter 71) [] 109, edge token [] 21]),
  (109, [edge (byte 58) [.write_field] 22, edge (letter 84) [] 110, edge token [] 21]),
  (110, [edge (byte 58) [.write_field] 22, edge (letter 72) [] 111, edge token [] 21]),
  (111, [edge (byte 58) [.write_field] 112, edge token [] 21]),
  (112, [edge (byte 10) [.start_value, .write_value] 113,
    edge (byte 13) [.start_value, .write_value] 118, edge space [.start_value] 112,
    edge digit [.start_value] 119, edge any [.start_value] 23]),
  (113, [edge (byte 10) [.done] 123, edge (byte 13) [] 116, edge (letter 67) [.start_field] 25,
    edge (letter 84) [.start_field] 44, edge space [] 114,
    edge digit [.start_value, .start_field] 117, edge token [.start_field] 21]),
  (114, [edge space [] 114, edge digit [.start_value] 115]),
  (115, [edge (byte 10) [.write_content_len, .write_value] 20,
    edge (byte 13) [.write_content_len, .write_value] 24, edge digit [] 115]),
  (116, [edge (byte 10) [.done] 123, edge space [] 114, edge digit [.start_value] 115]),
  (117, [edge (byte 10) [.write_content_len, .write_value] 20,
    edge (byte 13) [.write_content_len, .write_value] 24, edge (byte 58) [.write_field] 22,
    edge digit [] 117, edge token [] 21]),
  (118, [edge (byte 10) [] 113, edge space [] 114, edge digit [.start_value] 115]),
  (119, [edge (byte 10) [.write_content_len, .write_value] 20,
    edge (byte 13) [.write_content_len, .write_value] 24, edge digit [] 119, edge any [] 23]),
  (120, []),
  (121, [edge (letter 67) [.start_value] 64, edge space [] 63]),
  (122, [edge (letter 67) [] 38, edge space [] 37]),
  (123, [edge space [] 114, edge digit [.start_value] 115])]

def Transition.accepts (t : Transition) (c : UInt8) : Bool :=
  t.on.any fun r => r.1 ≤ c.toNat && c.toNat ≤ r.2

/-- The transition of state `cs` on a byte; none leads to the error state. -/
def transition (cs : Nat) (c : UInt8) : Option Transition :=
  ((transitions.lookup cs).getD []).find? (·.accepts c)

/-- The machine; `done` breaks out of it. -/
def machine : Transducer.Machine Nat UInt8 Action where
  next cs c := (transition cs c).map fun t => (t.actions, t.target)
  halts := (· == .done)

end Client

end Http

end Will
