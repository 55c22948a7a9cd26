/-
ZjhServer/Http/Request.lean

`HttpMethod` and `HttpRequest` (server/http/http.{h,cc}), with the C string functions
they use.  Strings are lists of bytes; where C reads up to a NUL, the end of a list
counts as one.

A header map is a `std::map` under `CaseInsensitiveLess`: a list sorted by it, where
assigning to a key that is there keeps the spelling of the key.
-/
import Mathlib.Algebra.Group.Nat.Defs
import Mathlib.Data.List.Lex
import Mathlib.Tactic.Common
import ZjhServer.Lib.OrderedMap

namespace Will

namespace Http

abbrev Bytes := List UInt8

/-- The bytes of a string literal. -/
def ascii (s : String) : Bytes := s.toList.map fun c => UInt8.ofNat c.toNat

/-- A property of all bytes of a literal, checked by evaluation. -/
theorem forall_ascii {P : UInt8 → Prop} [DecidablePred P] {s : String}
    (h : (ascii s).all (fun c => decide (P c)) = true) : ∀ c ∈ ascii s, P c :=
  fun c hc => of_decide_eq_true (List.all_eq_true.mp h c hc)

/-! ### C strings -/

/-- `strncmp(s, t, n) == 0` -/
def strncmpEq : Bytes → Bytes → Nat → Bool
  | _, _, 0 => true
  | s, t, n + 1 =>
      s.headD 0 == t.headD 0 && (s.headD 0 == 0 || strncmpEq s.tail t.tail n)

def tolower (c : UInt8) : UInt8 := if 65 ≤ c && c ≤ 90 then c + 32 else c

def strcasecmp : Bytes → Bytes → Int
  | [], t => -((tolower (t.headD 0)).toNat : Int)
  | c :: s, t =>
      let d : Int := (tolower c).toNat - (tolower (t.headD 0)).toNat
      if d ≠ 0 ∨ c = 0 then d else strcasecmp s t.tail

/-- What `strncmp` compares. -/
theorem strncmpEq_take {s t t' : Bytes} {n : Nat} (h : t.take n = t'.take n) :
    strncmpEq s t n = strncmpEq s t' n := by
  induction n generalizing s t t' with
  | zero => rfl
  | succ n ih =>
      have hhead : t.headD 0 = t'.headD 0 := by
        cases t <;> cases t' <;> simp_all
      have htail : t.tail.take n = t'.tail.take n := by
        cases t <;> cases t' <;> simp_all
      rw [strncmpEq, strncmpEq, hhead, ih htail]

theorem strncmpEq_comm (s t : Bytes) (n : Nat) : strncmpEq s t n = strncmpEq t s n := by
  induction n generalizing s t with
  | zero => rfl
  | succ n ih =>
      rw [strncmpEq, strncmpEq, ih]
      by_cases hhead : s.headD 0 = t.headD 0
      · rw [hhead]
      · rw [beq_false_of_ne hhead, beq_false_of_ne (Ne.symm hhead), Bool.false_and,
          Bool.false_and]

/-! ### Methods -/

inductive HttpMethod
  | DELETE
  | GET
  | HEAD
  | POST
  | PUT
  | CONNECT
  | OPTIONS
  | TRACE
  | COPY
  | LOCK
  | MKCOL
  | MOVE
  | PROPFIND
  | PROPPATCH
  | SEARCH
  | UNLOCK
  | BIND
  | REBIND
  | UNBIND
  | ACL
  | REPORT
  | MKACTIVITY
  | CHECKOUT
  | MERGE
  | MSEARCH
  | NOTIFY
  | SUBSCRIBE
  | UNSUBSCRIBE
  | PATCH
  | PURGE
  | MKCALENDAR
  | LINK
  | UNLINK
  | SOURCE
  | INVALID_METHOD
  deriving DecidableEq, Repr

/-- `HTTP_METHOD_MAP` -/
def HTTP_METHOD_MAP : List (HttpMethod × String) := [
  (.DELETE, "DELETE"), (.GET, "GET"), (.HEAD, "HEAD"), (.POST, "POST"), (.PUT, "PUT"),
  (.CONNECT, "CONNECT"), (.OPTIONS, "OPTIONS"), (.TRACE, "TRACE"), (.COPY, "COPY"),
  (.LOCK, "LOCK"), (.MKCOL, "MKCOL"), (.MOVE, "MOVE"), (.PROPFIND, "PROPFIND"),
  (.PROPPATCH, "PROPPATCH"), (.SEARCH, "SEARCH"), (.UNLOCK, "UNLOCK"), (.BIND, "BIND"),
  (.REBIND, "REBIND"), (.UNBIND, "UNBIND"), (.ACL, "ACL"), (.REPORT, "REPORT"),
  (.MKACTIVITY, "MKACTIVITY"), (.CHECKOUT, "CHECKOUT"), (.MERGE, "MERGE"),
  (.MSEARCH, "M-SEARCH"), (.NOTIFY, "NOTIFY"), (.SUBSCRIBE, "SUBSCRIBE"),
  (.UNSUBSCRIBE, "UNSUBSCRIBE"), (.PATCH, "PATCH"), (.PURGE, "PURGE"),
  (.MKCALENDAR, "MKCALENDAR"), (.LINK, "LINK"), (.UNLINK, "UNLINK"), (.SOURCE, "SOURCE")]

/-- `CharsToHttpMethod`: the first method whose name the characters begin with. -/
def CharsToHttpMethod (m : Bytes) : HttpMethod :=
  ((HTTP_METHOD_MAP.find? fun x => strncmpEq (ascii x.2) m (ascii x.2).length).map
    Prod.fst).getD .INVALID_METHOD

/-- A name without blanks is not affected by what comes from a blank on. -/
theorem strncmpEq_blank {name : Bytes} (hname : ∀ c ∈ name, c ≠ 32 ∧ c ≠ 0) (token rest : Bytes) :
    strncmpEq name (token ++ 32 :: rest) name.length = strncmpEq name token name.length := by
  induction name generalizing token with
  | nil => rfl
  | cons c name ih =>
      have hc := hname c (List.mem_cons_self ..)
      rw [List.length_cons, strncmpEq, strncmpEq]
      rcases token with _ | ⟨t, token⟩
      · simp [beq_false_of_ne hc.1, beq_false_of_ne hc.2]
      · rw [List.cons_append, List.tail_cons, List.tail_cons, List.tail_cons,
          ih fun c hc => hname c (List.mem_cons_of_mem _ hc)]
        rfl

/-- `CharsToHttpMethod` sees the token only. -/
theorem CharsToHttpMethod_blank (token rest : Bytes) :
    CharsToHttpMethod (token ++ 32 :: rest) = CharsToHttpMethod token := by
  have hnames : ∀ x ∈ HTTP_METHOD_MAP, ∀ c ∈ ascii x.2, c ≠ 32 ∧ c ≠ 0 := by decide +kernel
  have hfind : ∀ l : List (HttpMethod × String), (∀ x ∈ l, ∀ c ∈ ascii x.2, c ≠ 32 ∧ c ≠ 0) →
      l.find? (fun x => strncmpEq (ascii x.2) (token ++ 32 :: rest) (ascii x.2).length) =
        l.find? fun x => strncmpEq (ascii x.2) token (ascii x.2).length := by
    intro l hl
    induction l with
    | nil => rfl
    | cons x l ih =>
        rw [List.find?_cons, List.find?_cons,
          strncmpEq_blank (hl x (List.mem_cons_self ..)),
          ih fun y hy => hl y (List.mem_cons_of_mem _ hy)]
  unfold CharsToHttpMethod
  rw [hfind _ hnames]

/-! ### Header maps -/

def CaseInsensitiveLess (lhs rhs : Bytes) : Bool := strcasecmp lhs rhs < 0

abbrev MapType := List (Bytes × Bytes)

/-- `m.find(key)` -/
def MapType.find (m : MapType) (key : Bytes) : Option Bytes :=
  OrderedMap.find CaseInsensitiveLess m key

/-- `m[key] = val` -/
def MapType.set (key val : Bytes) (m : MapType) : MapType :=
  OrderedMap.set CaseInsensitiveLess key val m

theorem tolower_eq_zero {c : UInt8} : (tolower c).toNat = 0 ↔ c = 0 := by
  rw [← UInt8.toNat_inj, tolower]
  split_ifs with h
  · obtain ⟨hge, hle⟩ := Bool.and_eq_true _ _ ▸ h
    have hge := UInt8.le_iff_toNat_le.mp (of_decide_eq_true hge)
    have hle := UInt8.le_iff_toNat_le.mp (of_decide_eq_true hle)
    rw [UInt8.toNat_add]
    simp at hge hle ⊢
    omega
  · exact Iff.rfl

/-- What `strcasecmp` compares: up to the NUL, in lower case. -/
def lowered : Bytes → List Nat
  | [] => []
  | c :: s => if c = 0 then [] else (tolower c).toNat :: lowered s

theorem strcasecmp_neg (s t : Bytes) : strcasecmp s t < 0 ↔ lowered s < lowered t := by
  -- on the first string; its end reads as the NUL that no other byte lowers to
  induction s generalizing t with
  | nil =>
      rw [strcasecmp, lowered]
      rcases t with _ | ⟨d, t⟩
      · simp [lowered, tolower]
      · rw [List.headD_cons, lowered]
        have := tolower_eq_zero (c := d)
        split_ifs with hd
        · simp [this.mpr hd]
        · have hpos := Nat.pos_of_ne_zero (mt this.mp hd)
          simp only [List.nil_lt_cons, iff_true]
          omega
  | cons c s ih =>
      have hc := tolower_eq_zero (c := c)
      have hd := tolower_eq_zero (c := t.headD 0)
      have ht : lowered t =
          if t.headD 0 = 0 then [] else (tolower (t.headD 0)).toNat :: lowered t.tail := by
        rcases t with _ | ⟨d, t⟩ <;> rfl
      rw [strcasecmp, lowered, ht]
      generalize t.headD 0 = d at hd ⊢
      by_cases hc0 : c = 0
      · have hzero := hc.mpr hc0
        rw [if_pos (.inr hc0), if_pos hc0, hzero]
        split_ifs with hd0
        · simp [hd.mpr hd0]
        · have hpos := Nat.pos_of_ne_zero (mt hd.mp hd0)
          simp only [List.nil_lt_cons, iff_true]
          omega
      · have hpos := Nat.pos_of_ne_zero (mt hc.mp hc0)
        rw [if_neg hc0]
        by_cases hd0 : d = 0
        · rw [if_pos hd0, hd.mpr hd0, if_pos (.inl (by omega))]
          simp only [List.not_lt_nil, iff_false]
          omega
        · rw [if_neg hd0, List.cons_lt_cons_iff, ← ih]
          by_cases hne : ((tolower c).toNat : Int) - (tolower d).toNat = 0
          · rw [if_neg (by rw [not_or]; exact ⟨not_not.mpr hne, hc0⟩)]
            have heq : (tolower c).toNat = (tolower d).toNat := by omega
            rw [heq]
            simp
          · rw [if_pos (.inl hne)]
            omega

/-- Keys are ordered by what `strcasecmp` compares. -/
theorem CaseInsensitiveLess_ranks : OrderedMap.Ranks CaseInsensitiveLess lowered := fun s t => by
  rw [CaseInsensitiveLess, decide_eq_true_iff, strcasecmp_neg]

/-! ### Requests -/

structure HttpRequest where
  m_method : HttpMethod
  m_version : UInt16
  m_close : Bool
  m_path : Bytes
  m_query : Bytes
  m_fragment : Bytes
  m_body : Bytes
  m_headers : MapType
  deriving DecidableEq, Repr

namespace HttpRequest

/-- `HttpRequest()` -/
def new : HttpRequest where
  m_method := .GET
  m_version := 0x11
  m_close := true
  m_path := ascii "/"
  m_query := []
  m_fragment := []
  m_body := []
  m_headers := []

def getHeader (req : HttpRequest) (key : Bytes) : Bytes := (req.m_headers.find key).getD []

def setHeader (req : HttpRequest) (key val : Bytes) : HttpRequest :=
  { req with m_headers := req.m_headers.set key val }

/-- `getHeaderAs<T>(key, def)`, with `boost::lexical_cast<T>` given. -/
def getHeaderAs {T : Type} (lexical_cast : Bytes → Option T) (req : HttpRequest) (key : Bytes)
    (dflt : T) : T :=
  ((req.m_headers.find key).bind lexical_cast).getD dflt

end HttpRequest

end Http

end Will
