/-
ZjhServer/Address/Text.lean

The text of an address and the way back: `toString`, `Lookup` with what it makes of the answers of
`getaddrinfo`, `LookupAny`, `LookupAnyIPAddress` and `IPAddress::Create` (server/address.cc).

`getaddrinfo` is not part of the program; what is asked of it is that it reads numbers: a dotted
quad or an RFC 4291 text for the node, a decimal for the service (`Numeric`).  The text of an
address of the internet, looked up, gives this address and nothing else, so no two of them share
a text, of whatever kinds they are (`lookup_toString`).
-/
import ZjhServer.Address.Lookup
import ZjhServer.Address.Reported

namespace Will

open Wire Window Elided

/-! ### The source -/

/-- `os << v`, of a number -/
def dec (v : Nat) : List Char := Nat.toDigits 10 v

namespace IPv4Address

def insert (host : Order) (m_addr : sockaddr_in) : List Char :=
  let addr := byteswapOnLittleEndian host m_addr.sin_addr
  dec ((addr >>> 24) &&& 0xff#32).toNat ++ ['.'] ++ dec ((addr >>> 16) &&& 0xff#32).toNat ++
    ['.'] ++ dec ((addr >>> 8) &&& 0xff#32).toNat ++ ['.'] ++ dec (addr &&& 0xff#32).toNat ++
    [':'] ++ dec (IPv6Address.byteswapOnLittleEndian host m_addr.sin_port).toNat

end IPv4Address

/-- `hints` -/
structure Hints where
  ai_flags : Int
  ai_family : Int
  ai_socktype : Int
  ai_protocol : Int

/-- `getaddrinfo`: `none` is an error, and an answer is the list of the `ai_addr`. -/
abbrev Resolver := List Char → Option (List Char) → Hints → Option (List (Option (List UInt8)))

namespace Address

/-- `toString`; the bytes of a path are characters.  `none` as in `getPath`. -/
def toString (host : Order) : Address → Option (List Char)
  | .ipv4 m_addr => some (IPv4Address.insert host m_addr)
  | .ipv6 m_addr => some (IPv6Address.insert host m_addr)
  | .unix m_addr m_length =>
      (getPath (.unix m_addr m_length)).map fun path => path.map fun c => Char.ofNat c.toNat
  | .unknown m_addr =>
      some ("[UnknownAddress family=".toList ++ dec m_addr.sa_family.toNat ++ [']'])

/-- What is behind `c_str()`, for a function of C. -/
def cString (s : List Char) : List Char := s.takeWhile (· ≠ '\x00')

/-- `Lookup`, with what it leaves in `result`; `none` is a read out of bounds. -/
def Lookup (order : Order) (getaddrinfo : Resolver) (host : List Char)
    (family type protocol : Int) (result : List (Option Address)) :
    Option (Bool × List (Option Address)) := do
  let (node, service) ← lookupArgs host
  match getaddrinfo (cString node) (service.map fun p => cString (host.drop p))
      ⟨0, family, type, protocol⟩ with
  | none => some (false, result)
  | some results =>
      let made ← results.mapM (Create order)
      some (!(result ++ made).isEmpty, result ++ made)

/-- `LookupAny` -/
def LookupAny (order : Order) (getaddrinfo : Resolver) (host : List Char)
    (family type protocol : Int) : Option (Option Address) := do
  let (found, result) ← Lookup order getaddrinfo host family type protocol []
  if found then result.head? else some none

/-- `dynamic_pointer_cast<IPAddress>` -/
def asIPAddress : Option Address → Option Address
  | some (.ipv4 m_addr) => some (.ipv4 m_addr)
  | some (.ipv6 m_addr) => some (.ipv6 m_addr)
  | _ => none

/-- `LookupAnyIPAddress` -/
def LookupAnyIPAddress (order : Order) (getaddrinfo : Resolver) (host : List Char)
    (family type protocol : Int) : Option (Option Address) := do
  let (found, result) ← Lookup order getaddrinfo host family type protocol []
  if found then some (result.findSome? asIPAddress) else some none

/-- `setPort` -/
def setPort (order : Order) (v : BitVec (8 * 2)) : Address → Address
  | .ipv4 m_addr => .ipv4 { m_addr with sin_port := IPv6Address.byteswapOnLittleEndian order v }
  | .ipv6 m_addr => .ipv6 { m_addr with sin6_port := IPv6Address.byteswapOnLittleEndian order v }
  | a => a

def AF_UNSPEC : Int := 0

def AI_NUMERICHOST : Int := 4

/-- `IPAddress::Create`: the first answer, with the port. -/
def IPAddress.Create (order : Order) (getaddrinfo : Resolver) (address : List Char)
    (port : BitVec (8 * 2)) : Option (Option Address) :=
  match getaddrinfo (cString address) none ⟨AI_NUMERICHOST, AF_UNSPEC, 0, 0⟩ with
  | none => some none
  | some results => do
      let ai_addr ← results.head?
      let result ← Address.Create order ai_addr
      some ((asIPAddress result).map (setPort order port))

/-! ### What the resolver reads -/

/-- Four decimal numbers with dots between them. -/
def dotted (b : Vector UInt8 4) : List Char := join '.' (b.toList.map fun c => dec c.toNat)

/-- A decimal number for the service, or none, which is the port 0. -/
def Service (service : Option (List Char)) (port : BitVec (8 * 2)) : Prop :=
  service = some (dec port.toNat) ∨ service = none ∧ port = 0

/-- A question about numbers of one family. -/
structure Asked (family : UInt16) (hints : Hints) : Prop where
  flags : hints.ai_flags = 0 ∨ hints.ai_flags = AI_NUMERICHOST
  family : hints.ai_family = AF_UNSPEC ∨ hints.ai_family = family.toNat
  /-- any, a stream or datagrams -/
  socktype : hints.ai_socktype = 0 ∨ hints.ai_socktype = 1 ∨ hints.ai_socktype = 2
  protocol : hints.ai_protocol = 0

/-- **What is asked of `getaddrinfo`**: for a number it has one or more answers, and all are the
number in the order of the network. -/
structure Numeric (order : Order) (getaddrinfo : Resolver) : Prop where
  inet : ∀ b service port hints, Service service port → Asked AF_INET hints →
    ∃ results, getaddrinfo (dotted b) service hints = some results ∧ results ≠ [] ∧
      ∀ ai_addr ∈ results, ai_addr = some (memBytes order (n := 2) AF_INET.toBitVec ++
        (IPv6Address.groupBytes port.toNat ++ (b.toList ++ List.replicate 8 0)))
  inet6 : ∀ text bytes service port hints, IPv6Address.Rfc4291 text bytes →
    Service service port → Asked IPv6Address.AF_INET6 hints →
    ∃ results, getaddrinfo text service hints = some results ∧ results ≠ [] ∧
      ∀ ai_addr ∈ results, ai_addr =
        some (memBytes order (n := 2) IPv6Address.AF_INET6.toBitVec ++
          (IPv6Address.groupBytes port.toNat ++ (List.replicate 4 0 ++ (bytes.toList ++
            List.replicate 4 0))))

/-! ### Numbers in the order of the network -/

theorem memBytes_swapped (order : Order) (t : BitVec (8 * 2)) :
    memBytes order (IPv6Address.byteswapOnLittleEndian order t) =
      IPv6Address.groupBytes t.toNat := by
  rw [IPv6Address.groupBytes_eq]
  cases order
  · exact leBytes_byteswap t
  · rfl

/-- The four bytes of an address. -/
def octets (address : BitVec (8 * 4)) : Vector UInt8 4 :=
  #v[UInt8.ofNat (address.toNat / 256 / 256 / 256), UInt8.ofNat (address.toNat / 256 / 256),
    UInt8.ofNat (address.toNat / 256), UInt8.ofNat address.toNat]

theorem memBytes_address (order : Order) (address : BitVec (8 * 4)) :
    memBytes order (IPv4Address.byteswapOnLittleEndian order address) =
      (octets address).toList := by
  cases order
  · exact leBytes_byteswap address
  · rfl

theorem swapped_twice (order : Order) (t : BitVec (8 * 2)) :
    IPv6Address.byteswapOnLittleEndian order (IPv6Address.byteswapOnLittleEndian order t) = t := by
  cases order
  · exact byteswap_byteswap t
  · rfl

theorem address_twice (order : Order) (t : BitVec (8 * 4)) :
    IPv4Address.byteswapOnLittleEndian order (IPv4Address.byteswapOnLittleEndian order t) = t := by
  cases order
  · exact byteswap_byteswap t
  · rfl

theorem dotted_octets (address : BitVec (8 * 4)) :
    dotted (octets address) =
      dec (UInt8.ofNat (address.toNat / 256 / 256 / 256)).toNat ++ '.' ::
        (dec (UInt8.ofNat (address.toNat / 256 / 256)).toNat ++ '.' ::
          (dec (UInt8.ofNat (address.toNat / 256)).toNat ++ '.' ::
            dec (UInt8.ofNat address.toNat).toNat)) := by
  show join '.' [_, _, _, _] = _
  rw [join_cons (by simp), join_cons (by simp), join_cons (by simp), join_singleton]

/-- The text of an address of four bytes. -/
theorem insert_new (order : Order) (address : BitVec (8 * 4)) (port : BitVec (8 * 2)) :
    IPv4Address.insert order (IPv4Address.new order address port) =
      dotted (octets address) ++ ':' :: dec port.toNat := by
  have hbyte : ∀ v : BitVec 32, (v &&& 0xff#32).toNat = (UInt8.ofNat v.toNat).toNat := by
    intro v
    rw [BitVec.toNat_and]
    show _ &&& 2 ^ 8 - 1 = _
    rw [Nat.and_two_pow_sub_one_eq_mod]
    rfl
  rw [dotted_octets]
  simp only [IPv4Address.insert, IPv4Address.new, swapped_twice, address_twice, hbyte,
    BitVec.toNat_ushiftRight, Nat.shiftRight_eq_div_pow, Nat.div_div_eq_div_mul,
    List.append_assoc, List.cons_append]
  rfl

/-! ### The letters of a text -/

theorem dec_digits {v : Nat} : ∀ c ∈ dec v, c.isDigit := fun c hc =>
  Nat.isDigit_of_mem_toDigits (by decide) (by decide) hc

/-- A letter that a text of numbers does not have. -/
theorem not_mem_dec {v : Nat} {c : Char} (h : c.isDigit = false) : c ∉ dec v := by
  intro hc
  rw [dec_digits c hc] at h
  cases h

theorem not_mem_dotted {b : Vector UInt8 4} {c : Char} (h : c.isDigit = false) (hdot : c ≠ '.') :
    c ∉ dotted b := by
  intro hc
  rcases mem_join hc with rfl | ⟨w, hw, hc⟩
  · exact hdot rfl
  · obtain ⟨d, -, rfl⟩ := List.mem_map.mp hw
    exact not_mem_dec h hc

theorem not_mem_rfc4291 {text : List Char} {bytes : Vector UInt8 16} {c : Char}
    (h : IPv6Address.Rfc4291 text bytes) (hc : IPv6Address.hexValue c = none) (hcolon : c ≠ ':') :
    c ∉ text := by
  obtain ⟨groups, hgroups, -⟩ := h
  refine fun hmem => hgroups.forall_mem (P := fun x => x ≠ c) hcolon.symm ?_ c hmem rfl
  intro w v hw x hx hxc
  rw [IPv6Address.hexGroup] at hw
  split_ifs at hw
  have hsome := IPv6Address.hexDigits_all hw x hx
  rw [hxc, hc] at hsome
  cases hsome

theorem dotted_ne_nil (b : Vector UInt8 4) : dotted b ≠ [] := by
  rw [dotted]
  cases hb : b.toList with
  | nil =>
      have hlen := b.length_toList
      rw [hb] at hlen
      cases hlen
  | cons x l =>
      rw [List.map_cons]
      by_cases hl : l.map (fun c => dec c.toNat) = []
      · rw [hl, join_singleton]
        exact Nat.toDigits_ne_nil
      · rw [join_cons hl]
        exact List.append_ne_nil_of_left_ne_nil Nat.toDigits_ne_nil _

theorem cString_eq {s : List Char} (h : '\x00' ∉ s) : cString s = s := by
  rw [cString, List.takeWhile_eq_self_iff]
  exact fun c hc => decide_eq_true fun h0 => h (h0 ▸ hc)

/-! ### Questions -/

/-- The text of an address is a question for its two numbers. -/
theorem lookupArgs_dotted (b : Vector UInt8 4) (port : BitVec (8 * 2)) :
    lookupArgs (dotted b ++ ':' :: dec port.toNat) =
      some (dotted b, some ((dotted b).length + 1)) := by
  have hhead : (dotted b ++ ':' :: dec port.toNat).head? ≠ some '[' := by
    rw [List.head?_append_of_ne_nil _ (dotted_ne_nil b)]
    exact fun h => not_mem_dotted (c := '[') (by decide) (by decide) (List.mem_of_mem_head? h)
  rw [lookupArgs_skip hhead, nodeStage_one (not_mem_dotted (by decide) (by decide))
    (not_mem_dec (by decide)), Option.map_some, if_neg (dotted_ne_nil b)]

theorem lookupArgs_bracketed {node : List Char} (hne : node ≠ []) (hclose : ']' ∉ node)
    (port : BitVec (8 * 2)) :
    lookupArgs ('[' :: (node ++ ']' :: ':' :: dec port.toNat)) =
      some (node, some (node.length + 3)) := by
  rw [lookupArgs_close hne hclose]
  rfl

namespace Made

/-- The text of the address alone. -/
def node (order : Order) : Made → List Char
  | .ipv4 address _ => dotted (octets address)
  | .ipv6 address _ => IPv6Address.insertText order (IPv6Address.addrAt order address)
  | .unix _ => []

def text (order : Order) (m : Made) : List Char :=
  match m with
  | .ipv6 _ _ => '[' :: (m.node order ++ ']' :: ':' :: dec m.port.toNat)
  | m => m.node order ++ ':' :: dec m.port.toNat

variable {order : Order} {m : Made} {a : Address}

theorem toString_construct (hip : m.IP) (h : m.construct order = some a) :
    a.toString order = some (m.text order) := by
  cases m with
  | ipv4 address port =>
      cases h
      exact congrArg some (insert_new order address port)
  | ipv6 address port =>
      cases h
      refine congrArg some ?_
      show _ ++ Nat.toDigits 10 (IPv6Address.byteswapOnLittleEndian order
        (IPv6Address.byteswapOnLittleEndian order port)).toNat = _
      rw [swapped_twice, List.append_assoc, List.append_assoc]
      rfl
  | unix path => exact absurd hip id

theorem rfc4291_node (order : Order) (address : Vector UInt8 16) (port : BitVec (8 * 2)) :
    IPv6Address.Rfc4291 ((ipv6 address port).node order) address :=
  (IPv6Address.rfc4291_insertText order address address).mpr rfl

/-- No letter of an address is the end of a string. -/
theorem node_cString (m : Made) (order : Order) : cString (m.node order) = m.node order := by
  refine cString_eq ?_
  cases m with
  | ipv4 address port => exact not_mem_dotted (by decide) (by decide)
  | ipv6 address port =>
      exact not_mem_rfc4291 (rfc4291_node order address port) (by decide) (by decide)
  | unix path => exact List.not_mem_nil

/-- The question that the text of an address is. -/
theorem lookupArgs_text (hip : m.IP) (order : Order) :
    ∃ p, lookupArgs (m.text order) = some (m.node order, some p) ∧
      (m.text order).drop p = dec m.port.toNat := by
  cases m with
  | ipv4 address port =>
      refine ⟨_, lookupArgs_dotted (octets address) port, ?_⟩
      show List.drop _ (dotted (octets address) ++ ':' :: dec port.toNat) = _
      rw [← List.drop_drop, List.drop_left]
      rfl
  | ipv6 address port =>
      obtain ⟨groups, hgroups, -⟩ := rfc4291_node order address port
      have hne := hgroups.ne_nil IPv6Address.hexGroup_tokens (by decide)
      have hclose : ']' ∉ (ipv6 address port).node order :=
        not_mem_rfc4291 (rfc4291_node order address port) (by decide) (by decide)
      refine ⟨_, lookupArgs_bracketed hne hclose port, ?_⟩
      show List.drop _ ('[' :: ((ipv6 address port).node order ++ _)) = _
      rw [List.drop_succ_cons, ← List.drop_drop, List.drop_left]
      rfl
  | unix path => exact absurd hip id

end Made

/-! ### Answers -/

theorem family_load (order : Order) (f : UInt16) (r : List UInt8) :
    (sockaddr.load order (memBytes order (n := 2) f.toBitVec ++ r)).sa_family = f := by
  show UInt16.ofBitVec (ofMem order 2 (slice _ 0 2)) = f
  rw [word_stored (n := 2) (v := f.toBitVec) (List.nil_append _).symm List.length_nil]

theorem create_ipv4 {order : Order} {a : sockaddr_in} (h : a.sin_family = AF_INET) :
    Create order (some (a.mem order)) = some (some (.ipv4 a)) := by
  have hlen : (a.mem order).length = 16 := by simp [sockaddr_in.mem]
  have hfamily : (sockaddr.load order (a.mem order)).sa_family = AF_INET := by
    rw [sockaddr_in.mem, List.append_assoc, List.append_assoc, family_load, h]
  have hload := load_ipv4 order a []
  rw [List.append_nil] at hload
  rw [Create]
  simp only [hlen, hfamily, hload]
  rfl

theorem create_ipv6 {order : Order} {a : IPv6Address.sockaddr_in6}
    (h : a.sin6_family = IPv6Address.AF_INET6) :
    Create order (some (IPv6Address.mem order a)) = some (some (.ipv6 a)) := by
  have hlen : (IPv6Address.mem order a).length = 28 := by simp [IPv6Address.mem]
  have hfamily : (sockaddr.load order (IPv6Address.mem order a)).sa_family =
      IPv6Address.AF_INET6 := by
    rw [IPv6Address.mem, List.append_assoc, List.append_assoc, List.append_assoc, family_load, h]
  have hload := load_ipv6 order a []
  rw [List.append_nil] at hload
  rw [Create]
  simp only [hlen, hfamily, hload]
  rfl

/-- The resolver's answers for the text of an address are this address, with the port asked
for. -/
theorem answers {order : Order} {getaddrinfo : Resolver} (hnumeric : Numeric order getaddrinfo)
    {m : Made} (hip : m.IP) {service : Option (List Char)} {port : BitVec (8 * 2)} {hints : Hints}
    (hservice : Service service port) (hasked : Asked m.family hints) :
    ∃ results, getaddrinfo (m.node order) service hints = some results ∧ results ≠ [] ∧
      ∀ ai_addr ∈ results, Create order ai_addr = some ((m.withPort port).construct order) := by
  cases m with
  | ipv4 address old =>
      obtain ⟨results, hfound, hne, hall⟩ :=
        hnumeric.inet (octets address) service port hints hservice hasked
      refine ⟨results, hfound, hne, fun ai_addr hai => ?_⟩
      have hmem : memBytes order (n := 2) AF_INET.toBitVec ++ (IPv6Address.groupBytes port.toNat ++
          ((octets address).toList ++ List.replicate 8 0)) =
            (IPv4Address.new order address port).mem order := by
        rw [← memBytes_swapped order, ← memBytes_address order]
        simp [sockaddr_in.mem, IPv4Address.new]
      rw [hall ai_addr hai, hmem]
      exact create_ipv4 rfl
  | ipv6 address old =>
      obtain ⟨results, hfound, hne, hall⟩ := hnumeric.inet6 _ address service port hints
        (Made.rfc4291_node order address old) hservice hasked
      refine ⟨results, hfound, hne, fun ai_addr hai => ?_⟩
      have hzero : memBytes order (n := 4) (0 : UInt32).toBitVec = List.replicate 4 0 := by
        cases order <;> rfl
      have hmem : memBytes order (n := 2) IPv6Address.AF_INET6.toBitVec ++
          (IPv6Address.groupBytes port.toNat ++ (List.replicate 4 0 ++ (address.toList ++
            List.replicate 4 0))) =
            IPv6Address.mem order (IPv6Address.new order address port) := by
        rw [← memBytes_swapped order, ← hzero]
        simp [IPv6Address.mem, IPv6Address.new]
      rw [hall ai_addr hai, hmem]
      exact create_ipv6 rfl
  | unix path => exact absurd hip id

/-- What the text of an address is looked up to. -/
theorem lookup_text {order : Order} {getaddrinfo : Resolver}
    (hnumeric : Numeric order getaddrinfo) {m : Made} (hip : m.IP) {family type : Int}
    (hasked : Asked m.family ⟨0, family, type, 0⟩) :
    ∃ n, 0 < n ∧ Lookup order getaddrinfo (m.text order) family type 0 [] =
      some (true, List.replicate n (m.construct order)) := by
  obtain ⟨p, hargs, hdrop⟩ := Made.lookupArgs_text hip order
  have hservice : Service (some (dec m.port.toNat)) m.port := .inl rfl
  obtain ⟨results, hfound, hne, hall⟩ := answers hnumeric hip hservice hasked
  refine ⟨results.length, List.length_pos_iff.mpr hne, ?_⟩
  have hmade := Effect.mapM_of_some hall
  rw [m.withPort_port, List.map_const'] at hmade
  have hquestion : ((some p).map fun p => cString ((m.text order).drop p)) =
      some (dec m.port.toNat) := by
    rw [Option.map_some, hdrop, cString_eq (not_mem_dec (by decide))]
  rw [Lookup, hargs]
  show (match getaddrinfo (cString (m.node order)) ((some p).map fun p =>
    cString ((m.text order).drop p)) _ with
    | none => some (false, [])
    | some results => _) = _
  rw [m.node_cString, hquestion, hfound]
  show (results.mapM (Create order) >>= fun made => _) = _
  rw [hmade]
  show some (!(List.replicate _ _).isEmpty, List.replicate _ _) = _
  obtain ⟨k, hk⟩ := Nat.exists_eq_succ_of_ne_zero (List.length_pos_iff.mpr hne).ne'
  rw [hk, List.replicate_succ]
  rfl

theorem asIPAddress_construct {order : Order} {m : Made} (hip : m.IP) :
    asIPAddress (m.construct order) = m.construct order := by
  cases m with
  | ipv4 address port => rfl
  | ipv6 address port => rfl
  | unix path => exact absurd hip id

theorem setPort_construct {order : Order} {m : Made} (hip : m.IP) (v : BitVec (8 * 2)) :
    (m.construct order).map (setPort order v) = (m.withPort v).construct order := by
  cases m with
  | ipv4 address port => rfl
  | ipv6 address port => rfl
  | unix path => exact absurd hip id

/-- **The text of an address, looked up, is the address.**  If `getaddrinfo` reads numbers, what
`toString` writes of an IPv4 or an IPv6 address is looked up, for its family or any, to this
address only; `LookupAny` and `LookupAnyIPAddress` give it, and `IPAddress::Create` makes it from
the part without the port.  No other of these addresses has the same text. -/
theorem lookup_toString {order : Order} {getaddrinfo : Resolver}
    (hnumeric : Numeric order getaddrinfo) {m : Made} (hip : m.IP) {a : Address}
    (h : m.construct order = some a) {family type : Int}
    (hasked : Asked m.family ⟨0, family, type, 0⟩) :
    ∃ text, a.toString order = some text ∧
      (∃ n, 0 < n ∧ Lookup order getaddrinfo text family type 0 [] =
        some (true, List.replicate n (some a))) ∧
      LookupAny order getaddrinfo text family type 0 = some (some a) ∧
      LookupAnyIPAddress order getaddrinfo text family type 0 = some (some a) ∧
      IPAddress.Create order getaddrinfo (m.node order) m.port = some (some a) ∧
      ∀ (m' : Made) (b : Address), m'.IP → m'.construct order = some b →
        b.toString order = some text → b = a := by
  refine ⟨m.text order, m.toString_construct hip h, ?_⟩
  obtain ⟨n, hn, hlookup⟩ := lookup_text hnumeric hip hasked
  obtain ⟨k, rfl⟩ := Nat.exists_eq_succ_of_ne_zero hn.ne'
  rw [h] at hlookup
  refine ⟨⟨_, hn, hlookup⟩, ?_, ?_, ?_, ?_⟩
  · rw [LookupAny, hlookup]
    rfl
  · have hcast : asIPAddress (m.construct order) = m.construct order :=
      asIPAddress_construct hip
    rw [h] at hcast
    rw [LookupAnyIPAddress, hlookup]
    show some (List.findSome? asIPAddress (List.replicate (k + 1) (some a))) = _
    rw [List.replicate_succ, List.findSome?_cons, hcast]
  · have hfirst : Asked m.family ⟨AI_NUMERICHOST, AF_UNSPEC, 0, 0⟩ :=
      ⟨.inr rfl, .inl rfl, .inl rfl, rfl⟩
    obtain ⟨results, hfound, hne, hall⟩ := answers hnumeric hip (.inr ⟨rfl, rfl⟩) hfirst
    obtain ⟨ai_addr, rest, rfl⟩ := List.exists_cons_of_ne_nil hne
    have hport : ((m.withPort 0).construct order).map (setPort order m.port) = _ :=
      setPort_construct (m.withPort_IP 0 hip) m.port
    rw [m.withPort_withPort, m.withPort_port, h] at hport
    rw [IPAddress.Create, m.node_cString, hfound]
    show (Create order ai_addr >>= fun result =>
      some ((asIPAddress result).map (setPort order m.port))) = _
    rw [hall ai_addr List.mem_cons_self]
    show some ((asIPAddress _).map _) = _
    rw [asIPAddress_construct (m.withPort_IP 0 hip), hport]
  · -- two addresses of one text are what this text is looked up to
    intro m' b hip' h' htext
    have hany : ∀ m : Made, Asked m.family ⟨0, AF_UNSPEC, 0, 0⟩ := fun m =>
      ⟨.inl rfl, .inl rfl, .inl rfl, rfl⟩
    obtain ⟨k, hk, hone⟩ := lookup_text hnumeric hip (hany m)
    obtain ⟨l, -, hother⟩ := lookup_text hnumeric hip' (hany m')
    rw [m'.toString_construct hip' h', Option.some.injEq] at htext
    rw [htext, hone, h, h', Option.some.injEq, Prod.mk.injEq] at hother
    have hmem : some a ∈ List.replicate l (some b) := by
      rw [← hother.2]
      exact List.mem_replicate.mpr ⟨hk.ne', rfl⟩
    exact (Option.some.inj (List.eq_of_mem_replicate hmem)).symm

/-! ### A resolver of numbers -/

def readDotted (node : List Char) : Option (Vector UInt8 4) :=
  match (node.splitOn '.').map fun w => UInt8.ofNat (Nat.ofDigitChars 10 w 0) with
  | [a, b, c, d] => some #v[a, b, c, d]
  | _ => none

/-- A resolver that reads numbers and knows no names. -/
def numbers (order : Order) : Resolver := fun node service hints =>
  let port := Nat.ofDigitChars 10 (service.getD []) 0
  match readDotted node, IPv6Address.ptonRfc4291 node with
  | some b, _ =>
      if hints.ai_family = IPv6Address.AF_INET6.toNat then none
      else some [some (memBytes order (n := 2) AF_INET.toBitVec ++
        (IPv6Address.groupBytes port ++ (b.toList ++ List.replicate 8 0)))]
  | none, some bytes =>
      if hints.ai_family = AF_INET.toNat then none
      else some [some (memBytes order (n := 2) IPv6Address.AF_INET6.toBitVec ++
        (IPv6Address.groupBytes port ++ (List.replicate 4 0 ++ (bytes.toList ++
          List.replicate 4 0))))]
  | none, none => none

theorem readDotted_dotted (b : Vector UInt8 4) : readDotted (dotted b) = some b := by
  have hwords : ∀ w ∈ b.toList.map fun c => dec c.toNat, Word '.' w := by
    intro w hw
    obtain ⟨c, -, rfl⟩ := List.mem_map.mp hw
    exact ⟨Nat.toDigits_ne_nil, not_mem_dec (by decide)⟩
  have hne : (b.toList.map fun c => dec c.toNat) ≠ [] := by
    intro h
    have hlen := congrArg List.length h
    rw [List.length_map, b.length_toList] at hlen
    cases hlen
  have hread : ∀ c : UInt8, UInt8.ofNat (Nat.ofDigitChars 10 (dec c.toNat) 0) = c := by
    intro c
    rw [dec, Nat.ofDigitChars_ten_toDigits, UInt8.ofNat_toNat]
  have hfields : ((dotted b).splitOn '.').map
      (fun w => UInt8.ofNat (Nat.ofDigitChars 10 w 0)) = b.toList := by
    rw [dotted, splitOn_join hwords, fields, if_neg hne, List.map_map]
    exact List.map_id'' hread _
  have hfour : b.toList = [b[0], b[1], b[2], b[3]] := by
    refine List.ext_getElem b.length_toList fun i hi hi' => ?_
    rw [Vector.getElem_toList]
    have hlt : i < 4 := hi'
    rcases i with _ | _ | _ | _ | i
    · rfl
    · rfl
    · rfl
    · rfl
    · omega
  have hback : (#v[b[0], b[1], b[2], b[3]] : Vector UInt8 4) = b :=
    Vector.toList_inj.mp hfour.symm
  rw [readDotted, hfields, hfour]
  exact congrArg some hback

/-- A text without dots is no dotted quad. -/
theorem readDotted_rfc4291 {text : List Char} {bytes : Vector UInt8 16}
    (h : IPv6Address.Rfc4291 text bytes) : readDotted text = none := by
  obtain ⟨groups, hgroups, -⟩ := id h
  have hword : ∀ w ∈ [text], Word '.' w := by
    intro w hw
    rw [List.mem_singleton.mp hw]
    exact ⟨hgroups.ne_nil IPv6Address.hexGroup_tokens (by decide),
      not_mem_rfc4291 h (by decide) (by decide)⟩
  have hfields := splitOn_join hword
  rw [join_singleton, fields, if_neg (List.cons_ne_nil _ _)] at hfields
  rw [readDotted, hfields]
  rfl

theorem service_number {service : Option (List Char)} {port : BitVec (8 * 2)}
    (h : Service service port) : Nat.ofDigitChars 10 (service.getD []) 0 = port.toNat := by
  rcases h with rfl | ⟨rfl, rfl⟩
  · exact Nat.ofDigitChars_ten_toDigits
  · rfl

theorem numbers_numeric (order : Order) : Numeric order (numbers order) where
  inet b service port hints hservice hasked := by
    have hfamily : ¬hints.ai_family = IPv6Address.AF_INET6.toNat := by
      rcases hasked.family with h | h <;> rw [h] <;> decide
    refine ⟨_, ?_, List.cons_ne_nil _ _, fun ai_addr h => List.mem_singleton.mp h⟩
    simp only [numbers, readDotted_dotted, service_number hservice, if_neg hfamily]
  inet6 text bytes service port hints htext hservice hasked := by
    have hfamily : ¬hints.ai_family = AF_INET.toNat := by
      rcases hasked.family with h | h <;> rw [h] <;> decide
    refine ⟨_, ?_, List.cons_ne_nil _ _, fun ai_addr h => List.mem_singleton.mp h⟩
    simp only [numbers, readDotted_rfc4291 htext, IPv6Address.ptonRfc4291_reads text bytes htext,
      service_number hservice, if_neg hfamily]

/-- `127.0.0.1:8020`, looked up. -/
theorem lookup_toString_local :
    toString .little (.ipv4 (IPv4Address.new .little 0x7f000001 8020)) =
        some "127.0.0.1:8020".toList ∧
      LookupAnyIPAddress .little (numbers .little) "127.0.0.1:8020".toList 2 1 0 =
        some (some (.ipv4 (IPv4Address.new .little 0x7f000001 8020))) := by
  have htext : toString .little (.ipv4 (IPv4Address.new .little 0x7f000001 8020)) =
      some "127.0.0.1:8020".toList := by decide +kernel
  have hasked : Asked (Made.ipv4 0x7f000001 8020).family ⟨0, 2, 1, 0⟩ :=
    ⟨.inl rfl, .inr rfl, .inr (.inl rfl), rfl⟩
  obtain ⟨text, hsame, -, -, hfound, -, -⟩ :=
    lookup_toString (numbers_numeric .little) (m := .ipv4 0x7f000001 8020) trivial rfl hasked
  obtain rfl := Option.some.inj (hsame.symm.trans htext)
  exact ⟨htext, hfound⟩

end Address

end Will
