/-
ZjhServer/Http/Table.lean

The machine of server/http/http11_parser.rl, as generated in http11_parser.rl.cc:
for each state the bytes it accepts, the actions performed on them, and the state
after.  A byte above 127 is a negative `char` there.  The transitions on `^`, `{`
and `}` in a URI are open only with `uri_relaxed`.

The generated states are not what one reads in the grammar.  In it `(0 - 31)` is the
one byte 0, so field names may contain control characters, line ends included.
-/
import ZjhServer.Lib.Transducer

namespace Will

namespace Http

/-- The actions of the machine. -/
inductive Action
  | mark
  | start_field
  | write_field
  | start_value
  | write_value
  | request_method
  | request_uri
  | fragment
  | start_query
  | query_string
  | http_version
  | request_path
  | done
  | xml
  | json
  deriving DecidableEq, Repr

structure Transition where
  /-- ranges of bytes -/
  on : List (Nat × Nat)
  uri_relaxed : Bool
  actions : List Action
  target : Nat
  deriving DecidableEq, Repr

def edge (on : List (Nat × Nat)) (actions : List Action) (target : Nat) : Transition :=
  ⟨on, false, actions, target⟩

def relaxed (on : List (Nat × Nat)) (actions : List Action) (target : Nat) : Transition :=
  ⟨on, true, actions, target⟩

/-! ### Classes of bytes -/

namespace Classes

def byte (c : Nat) : List (Nat × Nat) := [(c, c)]

def digit : List (Nat × Nat) := [(48, 57)]

def xdigit : List (Nat × Nat) := [(48, 57), (65, 70), (97, 102)]

def xalpha : List (Nat × Nat) := [(65, 70), (97, 102)]

def method : List (Nat × Nat) := [(48, 57), (65, 90)]

def name : List (Nat × Nat) := [(45, 46), (48, 57), (65, 90), (97, 122)]

def more_delims : List (Nat × Nat) := [(94, 94), (123, 123), (125, 125)]

def reg_name : List (Nat × Nat) := [(33, 33), (36, 36), (38, 46), (48, 57), (59, 59), (61, 61),
  (65, 90), (95, 95), (97, 122), (126, 126)]

def userinfo : List (Nat × Nat) := [(33, 33), (36, 36), (38, 46), (48, 59), (61, 61), (65, 90),
  (95, 95), (97, 122), (126, 126)]

def segment_nc : List (Nat × Nat) := [(33, 33), (36, 36), (38, 46), (48, 57), (59, 59), (61, 61),
  (64, 90), (95, 95), (97, 122), (126, 126)]

def pchar : List (Nat × Nat) := [(33, 33), (36, 36), (38, 46), (48, 59), (61, 61), (64, 90),
  (95, 95), (97, 122), (126, 126), (128, 255)]

def segment : List (Nat × Nat) := [(33, 33), (36, 36), (38, 59), (61, 61), (64, 90), (95, 95),
  (97, 122), (126, 126), (128, 255)]

def query : List (Nat × Nat) := [(33, 33), (36, 36), (38, 59), (61, 61), (63, 90), (95, 95),
  (97, 122), (126, 126), (128, 255)]

def token : List (Nat × Nat) := [(1, 8), (10, 31), (33, 33), (35, 39), (42, 43), (45, 46),
  (48, 57), (65, 90), (94, 122), (124, 124), (126, 126)]

end Classes

/-! ### States -/

def http_parser_start : Nat := 1

def http_parser_first_final : Nat := 348

def http_parser_error : Nat := 0

open Classes in
/-- The transitions of each state. -/
def transitions : List (Nat × List Transition) := [
  (1, [edge method [.mark] 2, edge (byte 60) [.mark] 194, edge (byte 64) [.mark] 198]),
  (2, [edge (byte 32) [.request_method] 3, edge method [] 175]),
  (3, [edge (byte 32) [.mark, .request_path, .request_uri] 4, edge [(33, 33), (36, 36), (38, 46),
    (48, 57), (59, 59), (61, 61), (64, 64), (95, 95), (126, 126)] [.mark] 19,
    edge (byte 35) [.mark, .request_path, .request_uri] 20, edge (byte 37) [.mark] 24,
    edge (byte 47) [.mark] 33, edge (byte 63) [.mark, .request_path] 29,
    edge [(65, 90), (97, 122)] [.mark] 173, relaxed more_delims [.mark] 19]),
  (4, [edge (byte 72) [.mark] 5]),
  (5, [edge (byte 84) [] 6]),
  (6, [edge (byte 84) [] 7]),
  (7, [edge (byte 80) [] 8]),
  (8, [edge (byte 47) [] 9]),
  (9, [edge (byte 49) [] 10]),
  (10, [edge (byte 46) [] 11]),
  (11, [edge [(48, 49)] [] 12]),
  (12, [edge (byte 10) [.http_version] 13, edge (byte 13) [.http_version] 17]),
  (13, [edge [(1, 8), (11, 12), (14, 31), (33, 33), (35, 39), (42, 43), (45, 46), (48, 57),
    (65, 90), (94, 122), (124, 124), (126, 126)] [.start_field] 14,
    edge (byte 10) [.start_field, .done] 348, edge (byte 13) [.start_field] 18]),
  (14, [edge token [] 14, edge (byte 58) [.write_field] 15]),
  (15, [edge [(1, 8), (11, 12), (14, 31), (33, 126), (128, 255)] [.start_value] 16,
    edge [(9, 9), (32, 32)] [.start_value] 15, edge (byte 10) [.start_value, .write_value] 13,
    edge (byte 13) [.start_value, .write_value] 17]),
  (16, [edge [(1, 9), (11, 12), (14, 126), (128, 255)] [] 16, edge (byte 10) [.write_value] 13,
    edge (byte 13) [.write_value] 17]),
  (17, [edge (byte 10) [] 13]),
  (18, [edge [(1, 8), (11, 31), (33, 33), (35, 39), (42, 43), (45, 46), (48, 57), (65, 90),
    (94, 122), (124, 124), (126, 126)] [] 14, edge (byte 10) [.done] 348,
    edge (byte 58) [.write_field] 15]),
  (19, [edge (byte 32) [.request_path, .request_uri] 4, edge segment_nc [] 19,
    edge (byte 35) [.request_path, .request_uri] 20, edge (byte 37) [] 24, edge (byte 47) [] 26,
    edge (byte 63) [.request_path] 29, relaxed more_delims [] 19]),
  (20, [edge (byte 32) [.mark, .fragment] 4, edge query [.mark] 21, edge (byte 37) [.mark] 22,
    relaxed more_delims [.mark] 21]),
  (21, [edge (byte 32) [.fragment] 4, edge query [] 21, edge (byte 37) [] 22,
    relaxed more_delims [] 21]),
  (22, [edge xdigit [] 23]),
  (23, [edge xdigit [] 21]),
  (24, [edge xdigit [] 25]),
  (25, [edge xdigit [] 19]),
  (26, [edge (byte 32) [.request_path, .request_uri] 4, edge segment [] 26,
    edge (byte 35) [.request_path, .request_uri] 20, edge (byte 37) [] 27,
    edge (byte 63) [.request_path] 29, relaxed more_delims [] 26]),
  (27, [edge xdigit [] 28]),
  (28, [edge xdigit [] 26]),
  (29, [edge (byte 32) [.start_query, .query_string, .request_uri] 4,
    edge query [.start_query] 30, edge (byte 35) [.start_query, .query_string, .request_uri] 20,
    edge (byte 37) [.start_query] 31, relaxed more_delims [.start_query] 30]),
  (30, [edge (byte 32) [.query_string, .request_uri] 4, edge query [] 30,
    edge (byte 35) [.query_string, .request_uri] 20, edge (byte 37) [] 31,
    relaxed more_delims [] 30]),
  (31, [edge xdigit [] 32]),
  (32, [edge xdigit [] 30]),
  (33, [edge (byte 32) [.request_path, .request_uri] 4, edge pchar [] 26,
    edge (byte 35) [.request_path, .request_uri] 20, edge (byte 37) [] 27, edge (byte 47) [] 34,
    edge (byte 63) [.request_path] 29, relaxed more_delims [] 26]),
  (34, [edge (byte 32) [.request_path, .request_uri] 4, edge reg_name [] 35,
    edge (byte 35) [.request_path, .request_uri] 20, edge (byte 37) [] 36, edge (byte 47) [] 26,
    edge (byte 58) [] 38, edge (byte 63) [.request_path] 29, edge (byte 64) [] 42,
    edge (byte 91) [] 47, relaxed more_delims [] 35]),
  (35, [edge (byte 32) [.request_path, .request_uri] 4, edge reg_name [] 35,
    edge (byte 35) [.request_path, .request_uri] 20, edge (byte 37) [] 36, edge (byte 47) [] 26,
    edge (byte 58) [] 38, edge (byte 63) [.request_path] 29, edge (byte 64) [] 42,
    relaxed more_delims [] 35]),
  (36, [edge xdigit [] 37]),
  (37, [edge xdigit [] 35]),
  (38, [edge (byte 32) [.request_path, .request_uri] 4, edge [(33, 33), (36, 36), (38, 46),
    (58, 59), (61, 61), (65, 90), (95, 95), (97, 122), (126, 126)] [] 39,
    edge (byte 35) [.request_path, .request_uri] 20, edge (byte 37) [] 40, edge (byte 47) [] 26,
    edge digit [] 38, edge (byte 63) [.request_path] 29, edge (byte 64) [] 42,
    relaxed more_delims [] 39]),
  (39, [edge userinfo [] 39, edge (byte 37) [] 40, edge (byte 64) [] 42,
    relaxed more_delims [] 39]),
  (40, [edge xdigit [] 41]),
  (41, [edge xdigit [] 39]),
  (42, [edge (byte 32) [.request_path, .request_uri] 4, edge reg_name [] 43,
    edge (byte 35) [.request_path, .request_uri] 20, edge (byte 37) [] 44, edge (byte 47) [] 26,
    edge (byte 58) [] 46, edge (byte 63) [.request_path] 29, edge (byte 91) [] 47,
    relaxed more_delims [] 43]),
  (43, [edge (byte 32) [.request_path, .request_uri] 4, edge reg_name [] 43,
    edge (byte 35) [.request_path, .request_uri] 20, edge (byte 37) [] 44, edge (byte 47) [] 26,
    edge (byte 58) [] 46, edge (byte 63) [.request_path] 29, relaxed more_delims [] 43]),
  (44, [edge xdigit [] 45]),
  (45, [edge xdigit [] 43]),
  (46, [edge (byte 32) [.request_path, .request_uri] 4,
    edge (byte 35) [.request_path, .request_uri] 20, edge (byte 47) [] 26, edge digit [] 46,
    edge (byte 63) [.request_path] 29]),
  (47, [edge (byte 6) [] 48, edge xdigit [] 91, edge (byte 58) [] 167, edge (byte 118) [] 169]),
  (48, [edge xdigit [] 49]),
  (49, [edge xdigit [] 50, edge (byte 58) [] 53]),
  (50, [edge xdigit [] 51, edge (byte 58) [] 53]),
  (51, [edge xdigit [] 52, edge (byte 58) [] 53]),
  (52, [edge (byte 58) [] 53]),
  (53, [edge [(48, 48), (51, 57)] [] 54, edge (byte 49) [] 84, edge (byte 50) [] 87,
    edge xalpha [] 90]),
  (54, [edge (byte 46) [] 55, edge xdigit [] 77, edge (byte 58) [] 80]),
  (55, [edge [(48, 48), (51, 57)] [] 56, edge (byte 49) [] 72, edge (byte 50) [] 74]),
  (56, [edge (byte 46) [] 57]),
  (57, [edge [(48, 48), (51, 57)] [] 58, edge (byte 49) [] 67, edge (byte 50) [] 69]),
  (58, [edge (byte 46) [] 59]),
  (59, [edge [(48, 48), (51, 57)] [] 60, edge (byte 49) [] 62, edge (byte 50) [] 64]),
  (60, [edge (byte 93) [] 61]),
  (61, [edge (byte 32) [.request_path, .request_uri] 4,
    edge (byte 35) [.request_path, .request_uri] 20, edge (byte 47) [] 26, edge (byte 58) [] 46,
    edge (byte 63) [.request_path] 29]),
  (62, [edge digit [] 63, edge (byte 93) [] 61]),
  (63, [edge digit [] 60, edge (byte 93) [] 61]),
  (64, [edge (byte 48) [] 65, edge (byte 53) [] 66, edge (byte 93) [] 61]),
  (65, [edge digit [] 60]),
  (66, [edge (byte 48) [] 60]),
  (67, [edge (byte 46) [] 59, edge digit [] 68]),
  (68, [edge (byte 46) [] 59, edge digit [] 58]),
  (69, [edge (byte 46) [] 59, edge (byte 48) [] 70, edge (byte 53) [] 71]),
  (70, [edge digit [] 58]),
  (71, [edge (byte 48) [] 58]),
  (72, [edge (byte 46) [] 57, edge digit [] 73]),
  (73, [edge (byte 46) [] 57, edge digit [] 56]),
  (74, [edge (byte 46) [] 57, edge (byte 48) [] 75, edge (byte 53) [] 76]),
  (75, [edge digit [] 56]),
  (76, [edge (byte 48) [] 56]),
  (77, [edge xdigit [] 78, edge (byte 58) [] 80]),
  (78, [edge xdigit [] 79, edge (byte 58) [] 80]),
  (79, [edge (byte 58) [] 80]),
  (80, [edge xdigit [] 81]),
  (81, [edge xdigit [] 82, edge (byte 93) [] 61]),
  (82, [edge xdigit [] 83, edge (byte 93) [] 61]),
  (83, [edge xdigit [] 60, edge (byte 93) [] 61]),
  (84, [edge (byte 46) [] 55, edge digit [] 85, edge (byte 58) [] 80, edge xalpha [] 77]),
  (85, [edge (byte 46) [] 55, edge digit [] 86, edge (byte 58) [] 80, edge xalpha [] 78]),
  (86, [edge (byte 46) [] 55, edge xdigit [] 79, edge (byte 58) [] 80]),
  (87, [edge (byte 46) [] 55, edge (byte 48) [] 88,
    edge [(49, 52), (54, 57), (65, 70), (97, 102)] [] 77, edge (byte 53) [] 89,
    edge (byte 58) [] 80]),
  (88, [edge digit [] 86, edge (byte 58) [] 80, edge xalpha [] 78]),
  (89, [edge (byte 48) [] 86, edge [(49, 57), (65, 70), (97, 102)] [] 78, edge (byte 58) [] 80]),
  (90, [edge xdigit [] 77, edge (byte 58) [] 80]),
  (91, [edge xdigit [] 92, edge (byte 58) [] 95]),
  (92, [edge xdigit [] 93, edge (byte 58) [] 95]),
  (93, [edge xdigit [] 94, edge (byte 58) [] 95]),
  (94, [edge (byte 58) [] 95]),
  (95, [edge xdigit [] 96, edge (byte 58) [] 166]),
  (96, [edge xdigit [] 97, edge (byte 58) [] 100]),
  (97, [edge xdigit [] 98, edge (byte 58) [] 100]),
  (98, [edge xdigit [] 99, edge (byte 58) [] 100]),
  (99, [edge (byte 58) [] 100]),
  (100, [edge xdigit [] 101, edge (byte 58) [] 165]),
  (101, [edge xdigit [] 102, edge (byte 58) [] 105]),
  (102, [edge xdigit [] 103, edge (byte 58) [] 105]),
  (103, [edge xdigit [] 104, edge (byte 58) [] 105]),
  (104, [edge (byte 58) [] 105]),
  (105, [edge xdigit [] 106, edge (byte 58) [] 164]),
  (106, [edge xdigit [] 107, edge (byte 58) [] 110]),
  (107, [edge xdigit [] 108, edge (byte 58) [] 110]),
  (108, [edge xdigit [] 109, edge (byte 58) [] 110]),
  (109, [edge (byte 58) [] 110]),
  (110, [edge xdigit [] 111, edge (byte 58) [] 163]),
  (111, [edge xdigit [] 112, edge (byte 58) [] 115]),
  (112, [edge xdigit [] 113, edge (byte 58) [] 115]),
  (113, [edge xdigit [] 114, edge (byte 58) [] 115]),
  (114, [edge (byte 58) [] 115]),
  (115, [edge xdigit [] 116, edge (byte 58) [] 151]),
  (116, [edge xdigit [] 117, edge (byte 58) [] 120]),
  (117, [edge xdigit [] 118, edge (byte 58) [] 120]),
  (118, [edge xdigit [] 119, edge (byte 58) [] 120]),
  (119, [edge (byte 58) [] 120]),
  (120, [edge xdigit [] 121, edge (byte 58) [] 150]),
  (121, [edge xdigit [] 122, edge (byte 58) [] 125]),
  (122, [edge xdigit [] 123, edge (byte 58) [] 125]),
  (123, [edge xdigit [] 124, edge (byte 58) [] 125]),
  (124, [edge (byte 58) [] 125]),
  (125, [edge xdigit [] 121, edge (byte 58) [] 126]),
  (126, [edge [(2, 3)] [] 48, edge [(48, 48), (51, 57)] [] 127, edge (byte 49) [] 143,
    edge (byte 50) [] 146, edge xalpha [] 149, edge (byte 93) [] 61]),
  (127, [edge (byte 46) [] 55, edge xdigit [] 128, edge (byte 58) [] 131, edge (byte 93) [] 61]),
  (128, [edge xdigit [] 129, edge (byte 58) [] 131, edge (byte 93) [] 61]),
  (129, [edge xdigit [] 130, edge (byte 58) [] 131, edge (byte 93) [] 61]),
  (130, [edge (byte 58) [] 131, edge (byte 93) [] 61]),
  (131, [edge [(48, 48), (51, 57)] [] 132, edge (byte 49) [] 136, edge (byte 50) [] 139,
    edge xalpha [] 142]),
  (132, [edge (byte 46) [] 55, edge xdigit [] 133, edge (byte 58) [] 80, edge (byte 93) [] 61]),
  (133, [edge xdigit [] 134, edge (byte 58) [] 80, edge (byte 93) [] 61]),
  (134, [edge xdigit [] 135, edge (byte 58) [] 80, edge (byte 93) [] 61]),
  (135, [edge (byte 58) [] 80, edge (byte 93) [] 61]),
  (136, [edge (byte 46) [] 55, edge digit [] 137, edge (byte 58) [] 80, edge xalpha [] 133,
    edge (byte 93) [] 61]),
  (137, [edge (byte 46) [] 55, edge digit [] 138, edge (byte 58) [] 80, edge xalpha [] 134,
    edge (byte 93) [] 61]),
  (138, [edge (byte 46) [] 55, edge xdigit [] 135, edge (byte 58) [] 80, edge (byte 93) [] 61]),
  (139, [edge (byte 46) [] 55, edge (byte 48) [] 140,
    edge [(49, 52), (54, 57), (65, 70), (97, 102)] [] 133, edge (byte 53) [] 141,
    edge (byte 58) [] 80, edge (byte 93) [] 61]),
  (140, [edge digit [] 138, edge (byte 58) [] 80, edge xalpha [] 134, edge (byte 93) [] 61]),
  (141, [edge (byte 48) [] 138, edge [(49, 57), (65, 70), (97, 102)] [] 134, edge (byte 58) [] 80,
    edge (byte 93) [] 61]),
  (142, [edge xdigit [] 133, edge (byte 58) [] 80, edge (byte 93) [] 61]),
  (143, [edge (byte 46) [] 55, edge digit [] 144, edge (byte 58) [] 131, edge xalpha [] 128,
    edge (byte 93) [] 61]),
  (144, [edge (byte 46) [] 55, edge digit [] 145, edge (byte 58) [] 131, edge xalpha [] 129,
    edge (byte 93) [] 61]),
  (145, [edge (byte 46) [] 55, edge xdigit [] 130, edge (byte 58) [] 131, edge (byte 93) [] 61]),
  (146, [edge (byte 46) [] 55, edge (byte 48) [] 147,
    edge [(49, 52), (54, 57), (65, 70), (97, 102)] [] 128, edge (byte 53) [] 148,
    edge (byte 58) [] 131, edge (byte 93) [] 61]),
  (147, [edge digit [] 145, edge (byte 58) [] 131, edge xalpha [] 129, edge (byte 93) [] 61]),
  (148, [edge (byte 48) [] 145, edge [(49, 57), (65, 70), (97, 102)] [] 129,
    edge (byte 58) [] 131, edge (byte 93) [] 61]),
  (149, [edge xdigit [] 128, edge (byte 58) [] 131, edge (byte 93) [] 61]),
  (150, [edge [(2, 3)] [] 48, edge [(48, 48), (51, 57)] [] 127, edge (byte 49) [] 143,
    edge (byte 50) [] 146, edge xalpha [] 149]),
  (151, [edge [(2, 3)] [] 48, edge [(48, 48), (51, 57)] [] 152, edge (byte 49) [] 156,
    edge (byte 50) [] 159, edge xalpha [] 162]),
  (152, [edge (byte 46) [] 55, edge xdigit [] 153, edge (byte 58) [] 131]),
  (153, [edge xdigit [] 154, edge (byte 58) [] 131]),
  (154, [edge xdigit [] 155, edge (byte 58) [] 131]),
  (155, [edge (byte 58) [] 131]),
  (156, [edge (byte 46) [] 55, edge digit [] 157, edge (byte 58) [] 131, edge xalpha [] 153]),
  (157, [edge (byte 46) [] 55, edge digit [] 158, edge (byte 58) [] 131, edge xalpha [] 154]),
  (158, [edge (byte 46) [] 55, edge xdigit [] 155, edge (byte 58) [] 131]),
  (159, [edge (byte 46) [] 55, edge (byte 48) [] 160,
    edge [(49, 52), (54, 57), (65, 70), (97, 102)] [] 153, edge (byte 53) [] 161,
    edge (byte 58) [] 131]),
  (160, [edge digit [] 158, edge (byte 58) [] 131, edge xalpha [] 154]),
  (161, [edge (byte 48) [] 158, edge [(49, 57), (65, 70), (97, 102)] [] 154,
    edge (byte 58) [] 131]),
  (162, [edge xdigit [] 153, edge (byte 58) [] 131]),
  (163, [edge [(2, 3)] [] 48, edge xdigit [] 49]),
  (164, [edge [(2, 3)] [] 48]),
  (165, [edge (byte 3) [] 48]),
  (166, [edge (byte 4) [] 48]),
  (167, [edge (byte 58) [] 168]),
  (168, [edge [(2, 5)] [] 48, edge [(48, 48), (51, 57)] [] 127, edge (byte 49) [] 143,
    edge (byte 50) [] 146, edge xalpha [] 149, edge (byte 93) [] 61]),
  (169, [edge xdigit [] 170]),
  (170, [edge (byte 46) [] 171, edge xdigit [] 170]),
  (171, [edge userinfo [] 172, relaxed more_delims [] 172]),
  (172, [edge userinfo [] 172, edge (byte 93) [] 61, relaxed more_delims [] 172]),
  (173, [edge (byte 32) [.request_path, .request_uri] 4, edge [(33, 33), (36, 36), (38, 42),
    (44, 44), (59, 59), (61, 61), (64, 64), (95, 95), (126, 126)] [] 19,
    edge (byte 35) [.request_path, .request_uri] 20, edge (byte 37) [] 24,
    edge [(43, 43), (45, 46), (48, 57), (65, 90), (97, 122)] [] 173, edge (byte 47) [] 26,
    edge (byte 58) [] 174, edge (byte 63) [.request_path] 29, relaxed more_delims [] 19]),
  (174, [edge (byte 32) [.mark, .request_path, .request_uri] 4, edge pchar [.mark] 26,
    edge (byte 35) [.mark, .request_path, .request_uri] 20, edge (byte 37) [.mark] 27,
    edge (byte 47) [.mark] 33, edge (byte 63) [.mark, .request_path] 29,
    relaxed more_delims [.mark] 26]),
  (175, [edge (byte 32) [.request_method] 3, edge method [] 176]),
  (176, [edge (byte 32) [.request_method] 3, edge method [] 177]),
  (177, [edge (byte 32) [.request_method] 3, edge method [] 178]),
  (178, [edge (byte 32) [.request_method] 3, edge method [] 179]),
  (179, [edge (byte 32) [.request_method] 3, edge method [] 180]),
  (180, [edge (byte 32) [.request_method] 3, edge method [] 181]),
  (181, [edge (byte 32) [.request_method] 3, edge method [] 182]),
  (182, [edge (byte 32) [.request_method] 3, edge method [] 183]),
  (183, [edge (byte 32) [.request_method] 3, edge method [] 184]),
  (184, [edge (byte 32) [.request_method] 3, edge method [] 185]),
  (185, [edge (byte 32) [.request_method] 3, edge method [] 186]),
  (186, [edge (byte 32) [.request_method] 3, edge method [] 187]),
  (187, [edge (byte 32) [.request_method] 3, edge method [] 188]),
  (188, [edge (byte 32) [.request_method] 3, edge method [] 189]),
  (189, [edge (byte 32) [.request_method] 3, edge method [] 190]),
  (190, [edge (byte 32) [.request_method] 3, edge method [] 191]),
  (191, [edge (byte 32) [.request_method] 3, edge method [] 192]),
  (192, [edge (byte 32) [.request_method] 3, edge method [] 193]),
  (193, [edge (byte 32) [.request_method] 3]),
  (194, [edge name [] 195]),
  (195, [edge [(9, 13), (32, 32), (47, 47), (62, 62)] [.request_path] 196, edge name [] 195]),
  (196, [edge [(0, 61), (63, 255)] [] 196, edge (byte 62) [] 197]),
  (197, [edge (byte 0) [.xml, .done] 349, edge [(1, 61), (63, 255)] [] 196,
    edge (byte 62) [] 197]),
  (198, [edge (byte 32) [.request_path] 199, edge segment_nc [] 202, edge (byte 37) [] 203,
    edge (byte 47) [] 208, relaxed more_delims [] 202]),
  (199, [edge (byte 123) [.mark] 200]),
  (200, [edge [(0, 124), (126, 255)] [] 200, edge (byte 125) [] 201]),
  (201, [edge (byte 0) [.json, .done] 349, edge [(1, 124), (126, 255)] [] 200,
    edge (byte 125) [] 201]),
  (202, [edge (byte 32) [.request_path] 199, edge segment_nc [] 202, edge (byte 37) [] 203,
    edge (byte 47) [] 205, relaxed more_delims [] 202]),
  (203, [edge xdigit [] 204]),
  (204, [edge xdigit [] 202]),
  (205, [edge (byte 32) [.request_path] 199, edge segment [] 205, edge (byte 37) [] 206,
    relaxed more_delims [] 205]),
  (206, [edge xdigit [] 207]),
  (207, [edge xdigit [] 205]),
  (208, [edge (byte 32) [.request_path] 199, edge pchar [] 205, edge (byte 37) [] 206,
    edge (byte 47) [] 209, relaxed more_delims [] 205]),
  (209, [edge (byte 32) [.request_path] 199, edge reg_name [] 210, edge (byte 37) [] 211,
    edge (byte 47) [] 205, edge (byte 58) [] 213, edge (byte 64) [] 217, edge (byte 91) [] 222,
    relaxed more_delims [] 210]),
  (210, [edge (byte 32) [.request_path] 199, edge reg_name [] 210, edge (byte 37) [] 211,
    edge (byte 47) [] 205, edge (byte 58) [] 213, edge (byte 64) [] 217,
    relaxed more_delims [] 210]),
  (211, [edge xdigit [] 212]),
  (212, [edge xdigit [] 210]),
  (213, [edge (byte 32) [.request_path] 199, edge [(33, 33), (36, 36), (38, 46), (58, 59),
    (61, 61), (65, 90), (95, 95), (97, 122), (126, 126)] [] 214, edge (byte 37) [] 215,
    edge (byte 47) [] 205, edge digit [] 213, edge (byte 64) [] 217, relaxed more_delims [] 214]),
  (214, [edge userinfo [] 214, edge (byte 37) [] 215, edge (byte 64) [] 217,
    relaxed more_delims [] 214]),
  (215, [edge xdigit [] 216]),
  (216, [edge xdigit [] 214]),
  (217, [edge (byte 32) [.request_path] 199, edge reg_name [] 218, edge (byte 37) [] 219,
    edge (byte 47) [] 205, edge (byte 58) [] 221, edge (byte 91) [] 222,
    relaxed more_delims [] 218]),
  (218, [edge (byte 32) [.request_path] 199, edge reg_name [] 218, edge (byte 37) [] 219,
    edge (byte 47) [] 205, edge (byte 58) [] 221, relaxed more_delims [] 218]),
  (219, [edge xdigit [] 220]),
  (220, [edge xdigit [] 218]),
  (221, [edge (byte 32) [.request_path] 199, edge (byte 47) [] 205, edge digit [] 221]),
  (222, [edge (byte 6) [] 223, edge xdigit [] 266, edge (byte 58) [] 342, edge (byte 118) [] 344]),
  (223, [edge xdigit [] 224]),
  (224, [edge xdigit [] 225, edge (byte 58) [] 228]),
  (225, [edge xdigit [] 226, edge (byte 58) [] 228]),
  (226, [edge xdigit [] 227, edge (byte 58) [] 228]),
  (227, [edge (byte 58) [] 228]),
  (228, [edge [(48, 48), (51, 57)] [] 229, edge (byte 49) [] 259, edge (byte 50) [] 262,
    edge xalpha [] 265]),
  (229, [edge (byte 46) [] 230, edge xdigit [] 252, edge (byte 58) [] 255]),
  (230, [edge [(48, 48), (51, 57)] [] 231, edge (byte 49) [] 247, edge (byte 50) [] 249]),
  (231, [edge (byte 46) [] 232]),
  (232, [edge [(48, 48), (51, 57)] [] 233, edge (byte 49) [] 242, edge (byte 50) [] 244]),
  (233, [edge (byte 46) [] 234]),
  (234, [edge [(48, 48), (51, 57)] [] 235, edge (byte 49) [] 237, edge (byte 50) [] 239]),
  (235, [edge (byte 93) [] 236]),
  (236, [edge (byte 32) [.request_path] 199, edge (byte 47) [] 205, edge (byte 58) [] 221]),
  (237, [edge digit [] 238, edge (byte 93) [] 236]),
  (238, [edge digit [] 235, edge (byte 93) [] 236]),
  (239, [edge (byte 48) [] 240, edge (byte 53) [] 241, edge (byte 93) [] 236]),
  (240, [edge digit [] 235]),
  (241, [edge (byte 48) [] 235]),
  (242, [edge (byte 46) [] 234, edge digit [] 243]),
  (243, [edge (byte 46) [] 234, edge digit [] 233]),
  (244, [edge (byte 46) [] 234, edge (byte 48) [] 245, edge (byte 53) [] 246]),
  (245, [edge digit [] 233]),
  (246, [edge (byte 48) [] 233]),
  (247, [edge (byte 46) [] 232, edge digit [] 248]),
  (248, [edge (byte 46) [] 232, edge digit [] 231]),
  (249, [edge (byte 46) [] 232, edge (byte 48) [] 250, edge (byte 53) [] 251]),
  (250, [edge digit [] 231]),
  (251, [edge (byte 48) [] 231]),
  (252, [edge xdigit [] 253, edge (byte 58) [] 255]),
  (253, [edge xdigit [] 254, edge (byte 58) [] 255]),
  (254, [edge (byte 58) [] 255]),
  (255, [edge xdigit [] 256]),
  (256, [edge xdigit [] 257, edge (byte 93) [] 236]),
  (257, [edge xdigit [] 258, edge (byte 93) [] 236]),
  (258, [edge xdigit [] 235, edge (byte 93) [] 236]),
  (259, [edge (byte 46) [] 230, edge digit [] 260, edge (byte 58) [] 255, edge xalpha [] 252]),
  (260, [edge (byte 46) [] 230, edge digit [] 261, edge (byte 58) [] 255, edge xalpha [] 253]),
  (261, [edge (byte 46) [] 230, edge xdigit [] 254, edge (byte 58) [] 255]),
  (262, [edge (byte 46) [] 230, edge (byte 48) [] 263,
    edge [(49, 52), (54, 57), (65, 70), (97, 102)] [] 252, edge (byte 53) [] 264,
    edge (byte 58) [] 255]),
  (263, [edge digit [] 261, edge (byte 58) [] 255, edge xalpha [] 253]),
  (264, [edge (byte 48) [] 261, edge [(49, 57), (65, 70), (97, 102)] [] 253,
    edge (byte 58) [] 255]),
  (265, [edge xdigit [] 252, edge (byte 58) [] 255]),
  (266, [edge xdigit [] 267, edge (byte 58) [] 270]),
  (267, [edge xdigit [] 268, edge (byte 58) [] 270]),
  (268, [edge xdigit [] 269, edge (byte 58) [] 270]),
  (269, [edge (byte 58) [] 270]),
  (270, [edge xdigit [] 271, edge (byte 58) [] 341]),
  (271, [edge xdigit [] 272, edge (byte 58) [] 275]),
  (272, [edge xdigit [] 273, edge (byte 58) [] 275]),
  (273, [edge xdigit [] 274, edge (byte 58) [] 275]),
  (274, [edge (byte 58) [] 275]),
  (275, [edge xdigit [] 276, edge (byte 58) [] 340]),
  (276, [edge xdigit [] 277, edge (byte 58) [] 280]),
  (277, [edge xdigit [] 278, edge (byte 58) [] 280]),
  (278, [edge xdigit [] 279, edge (byte 58) [] 280]),
  (279, [edge (byte 58) [] 280]),
  (280, [edge xdigit [] 281, edge (byte 58) [] 339]),
  (281, [edge xdigit [] 282, edge (byte 58) [] 285]),
  (282, [edge xdigit [] 283, edge (byte 58) [] 285]),
  (283, [edge xdigit [] 284, edge (byte 58) [] 285]),
  (284, [edge (byte 58) [] 285]),
  (285, [edge xdigit [] 286, edge (byte 58) [] 338]),
  (286, [edge xdigit [] 287, edge (byte 58) [] 290]),
  (287, [edge xdigit [] 288, edge (byte 58) [] 290]),
  (288, [edge xdigit [] 289, edge (byte 58) [] 290]),
  (289, [edge (byte 58) [] 290]),
  (290, [edge xdigit [] 291, edge (byte 58) [] 326]),
  (291, [edge xdigit [] 292, edge (byte 58) [] 295]),
  (292, [edge xdigit [] 293, edge (byte 58) [] 295]),
  (293, [edge xdigit [] 294, edge (byte 58) [] 295]),
  (294, [edge (byte 58) [] 295]),
  (295, [edge xdigit [] 296, edge (byte 58) [] 325]),
  (296, [edge xdigit [] 297, edge (byte 58) [] 300]),
  (297, [edge xdigit [] 298, edge (byte 58) [] 300]),
  (298, [edge xdigit [] 299, edge (byte 58) [] 300]),
  (299, [edge (byte 58) [] 300]),
  (300, [edge xdigit [] 296, edge (byte 58) [] 301]),
  (301, [edge [(2, 3)] [] 223, edge [(48, 48), (51, 57)] [] 302, edge (byte 49) [] 318,
    edge (byte 50) [] 321, edge xalpha [] 324, edge (byte 93) [] 236]),
  (302, [edge (byte 46) [] 230, edge xdigit [] 303, edge (byte 58) [] 306, edge (byte 93) [] 236]),
  (303, [edge xdigit [] 304, edge (byte 58) [] 306, edge (byte 93) [] 236]),
  (304, [edge xdigit [] 305, edge (byte 58) [] 306, edge (byte 93) [] 236]),
  (305, [edge (byte 58) [] 306, edge (byte 93) [] 236]),
  (306, [edge [(48, 48), (51, 57)] [] 307, edge (byte 49) [] 311, edge (byte 50) [] 314,
    edge xalpha [] 317]),
  (307, [edge (byte 46) [] 230, edge xdigit [] 308, edge (byte 58) [] 255, edge (byte 93) [] 236]),
  (308, [edge xdigit [] 309, edge (byte 58) [] 255, edge (byte 93) [] 236]),
  (309, [edge xdigit [] 310, edge (byte 58) [] 255, edge (byte 93) [] 236]),
  (310, [edge (byte 58) [] 255, edge (byte 93) [] 236]),
  (311, [edge (byte 46) [] 230, edge digit [] 312, edge (byte 58) [] 255, edge xalpha [] 308,
    edge (byte 93) [] 236]),
  (312, [edge (byte 46) [] 230, edge digit [] 313, edge (byte 58) [] 255, edge xalpha [] 309,
    edge (byte 93) [] 236]),
  (313, [edge (byte 46) [] 230, edge xdigit [] 310, edge (byte 58) [] 255, edge (byte 93) [] 236]),
  (314, [edge (byte 46) [] 230, edge (byte 48) [] 315,
    edge [(49, 52), (54, 57), (65, 70), (97, 102)] [] 308, edge (byte 53) [] 316,
    edge (byte 58) [] 255, edge (byte 93) [] 236]),
  (315, [edge digit [] 313, edge (byte 58) [] 255, edge xalpha [] 309, edge (byte 93) [] 236]),
  (316, [edge (byte 48) [] 313, edge [(49, 57), (65, 70), (97, 102)] [] 309,
    edge (byte 58) [] 255, edge (byte 93) [] 236]),
  (317, [edge xdigit [] 308, edge (byte 58) [] 255, edge (byte 93) [] 236]),
  (318, [edge (byte 46) [] 230, edge digit [] 319, edge (byte 58) [] 306, edge xalpha [] 303,
    edge (byte 93) [] 236]),
  (319, [edge (byte 46) [] 230, edge digit [] 320, edge (byte 58) [] 306, edge xalpha [] 304,
    edge (byte 93) [] 236]),
  (320, [edge (byte 46) [] 230, edge xdigit [] 305, edge (byte 58) [] 306, edge (byte 93) [] 236]),
  (321, [edge (byte 46) [] 230, edge (byte 48) [] 322,
    edge [(49, 52), (54, 57), (65, 70), (97, 102)] [] 303, edge (byte 53) [] 323,
    edge (byte 58) [] 306, edge (byte 93) [] 236]),
  (322, [edge digit [] 320, edge (byte 58) [] 306, edge xalpha [] 304, edge (byte 93) [] 236]),
  (323, [edge (byte 48) [] 320, edge [(49, 57), (65, 70), (97, 102)] [] 304,
    edge (byte 58) [] 306, edge (byte 93) [] 236]),
  (324, [edge xdigit [] 303, edge (byte 58) [] 306, edge (byte 93) [] 236]),
  (325, [edge [(2, 3)] [] 223, edge [(48, 48), (51, 57)] [] 302, edge (byte 49) [] 318,
    edge (byte 50) [] 321, edge xalpha [] 324]),
  (326, [edge [(2, 3)] [] 223, edge [(48, 48), (51, 57)] [] 327, edge (byte 49) [] 331,
    edge (byte 50) [] 334, edge xalpha [] 337]),
  (327, [edge (byte 46) [] 230, edge xdigit [] 328, edge (byte 58) [] 306]),
  (328, [edge xdigit [] 329, edge (byte 58) [] 306]),
  (329, [edge xdigit [] 330, edge (byte 58) [] 306]),
  (330, [edge (byte 58) [] 306]),
  (331, [edge (byte 46) [] 230, edge digit [] 332, edge (byte 58) [] 306, edge xalpha [] 328]),
  (332, [edge (byte 46) [] 230, edge digit [] 333, edge (byte 58) [] 306, edge xalpha [] 329]),
  (333, [edge (byte 46) [] 230, edge xdigit [] 330, edge (byte 58) [] 306]),
  (334, [edge (byte 46) [] 230, edge (byte 48) [] 335,
    edge [(49, 52), (54, 57), (65, 70), (97, 102)] [] 328, edge (byte 53) [] 336,
    edge (byte 58) [] 306]),
  (335, [edge digit [] 333, edge (byte 58) [] 306, edge xalpha [] 329]),
  (336, [edge (byte 48) [] 333, edge [(49, 57), (65, 70), (97, 102)] [] 329,
    edge (byte 58) [] 306]),
  (337, [edge xdigit [] 328, edge (byte 58) [] 306]),
  (338, [edge [(2, 3)] [] 223, edge xdigit [] 224]),
  (339, [edge [(2, 3)] [] 223]),
  (340, [edge (byte 3) [] 223]),
  (341, [edge (byte 4) [] 223]),
  (342, [edge (byte 58) [] 343]),
  (343, [edge [(2, 5)] [] 223, edge [(48, 48), (51, 57)] [] 302, edge (byte 49) [] 318,
    edge (byte 50) [] 321, edge xalpha [] 324, edge (byte 93) [] 236]),
  (344, [edge xdigit [] 345]),
  (345, [edge (byte 46) [] 346, edge xdigit [] 345]),
  (346, [edge userinfo [] 347, relaxed more_delims [] 347]),
  (347, [edge userinfo [] 347, edge (byte 93) [] 236, relaxed more_delims [] 347]),
  (348, [edge token [] 14, edge (byte 58) [.write_field] 15]),
  (349, [])]

def Transition.accepts (t : Transition) (uri_relaxed : Bool) (c : UInt8) : Bool :=
  (uri_relaxed || !t.uri_relaxed) && t.on.any fun r => r.1 ≤ c.toNat && c.toNat ≤ r.2

/-- The transition of state `cs` on a byte; none leads to the error state. -/
def transition (uri_relaxed : Bool) (cs : Nat) (c : UInt8) : Option Transition :=
  ((transitions.lookup cs).getD []).find? (·.accepts uri_relaxed c)

/-- The machine; `done` breaks out of it. -/
def machine (uri_relaxed : Bool) : Transducer.Machine Nat UInt8 Action where
  next cs c := (transition uri_relaxed cs c).map fun t => (t.actions, t.target)
  halts := (· == .done)

end Http

end Will
