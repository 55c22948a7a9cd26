/-
ZjhServer/Address/Basic.lean

The class `Address` and its four kinds (server/address.cc): what they hold, how they are made,
how `Create` makes one from what the system has written, and how they are compared.

The operators compare the objects' memory, as many bytes of each as `getAddrLen` says
(`image`), whatever the kinds.  So the order is the one of a dictionary on these bytes, in which
exactly the addresses that `==` takes for equal are in no order (`compare_images`); and the
images of addresses that are made from different data differ, but for the two empty paths
(`compare_made`).
-/
import Mathlib.Data.List.Lex
import ZjhServer.Address.IPv6
import ZjhServer.Lib.Memory

namespace Will

open Wire Window Memory

/-! ### The source -/

def AF_UNIX : UInt16 := 1

def AF_INET : UInt16 := 2

/-- `sockaddr_in`, with `s_addr` as it is loaded from memory. -/
structure sockaddr_in where
  sin_family : UInt16
  sin_port : BitVec (8 * 2)
  sin_addr : BitVec (8 * 4)
  sin_zero : Vector UInt8 8
  deriving DecidableEq

structure sockaddr_un where
  sun_family : UInt16
  sun_path : Vector UInt8 108
  deriving DecidableEq

structure sockaddr where
  sa_family : UInt16
  sa_data : Vector UInt8 14
  deriving DecidableEq

/-- An object of one of the classes below `Address`. -/
inductive Address
  | ipv4 (m_addr : sockaddr_in)
  | ipv6 (m_addr : IPv6Address.sockaddr_in6)
  | unix (m_addr : sockaddr_un) (m_length : UInt32)
  | unknown (m_addr : sockaddr)
  deriving DecidableEq

/-- `n` bytes that begin with some, and are zero behind them. -/
def zeroed (n : Nat) (bs : List UInt8) : Vector UInt8 n := Vector.ofFn fun i => bs.getD i 0

/-- `n` bytes of memory from `p` on. -/
def bytesAt (mem : List UInt8) (p n : Nat) : Vector UInt8 n := zeroed n (slice mem p n)

namespace IPv4Address

def byteswapOnLittleEndian (host : Order) (t : BitVec (8 * 4)) : BitVec (8 * 4) :=
  match host with
  | .little => byteswap t
  | .big => t

/-- `IPv4Address(address, port)` -/
def new (host : Order) (address : BitVec (8 * 4)) (port : BitVec (8 * 2)) : sockaddr_in where
  sin_family := AF_INET
  sin_port := IPv6Address.byteswapOnLittleEndian host port
  sin_addr := byteswapOnLittleEndian host address
  sin_zero := zeroed 8 []

end IPv4Address

namespace UnixAddress

/-- `UnixAddress(path)`; the length is narrowed to a `socklen_t`, and `none` is the throw. -/
def new (path : List UInt8) : Option Address :=
  let m_length := UInt32.ofNat (path.length + 1)
  let m_length := if path.head? = some 0 then m_length - 1 else m_length
  if m_length > 108 then none
  else some (.unix ⟨AF_UNIX, zeroed 108 ((path ++ [0]).take m_length.toNat)⟩ (m_length + 2))

/-- `UnixAddress()` -/
def empty : Address := .unix ⟨AF_UNIX, zeroed 108 []⟩ (2 + 107)

end UnixAddress

namespace UnknownAddress

/-- `UnknownAddress(family)` -/
def new (family : UInt16) : sockaddr := ⟨family, zeroed 14 []⟩

end UnknownAddress

/-- The memory of a `sockaddr_in`. -/
def sockaddr_in.mem (host : Order) (a : sockaddr_in) : List UInt8 :=
  memBytes host (n := 2) a.sin_family.toBitVec ++ memBytes host a.sin_port ++
    memBytes host a.sin_addr ++ a.sin_zero.toList

/-- The memory of a `sockaddr_in6`. -/
def IPv6Address.mem (host : Order) (a : IPv6Address.sockaddr_in6) : List UInt8 :=
  memBytes host (n := 2) a.sin6_family.toBitVec ++ memBytes host a.sin6_port ++
    memBytes host (n := 4) a.sin6_flowinfo.toBitVec ++ a.sin6_addr.toList ++
    memBytes host (n := 4) a.sin6_scope_id.toBitVec

/-! What such an object is when these bytes lie in memory. -/

def sockaddr_in.load (host : Order) (mem : List UInt8) : sockaddr_in where
  sin_family := UInt16.ofBitVec (ofMem host 2 (slice mem 0 2))
  sin_port := ofMem host 2 (slice mem 2 2)
  sin_addr := ofMem host 4 (slice mem 4 4)
  sin_zero := bytesAt mem 8 8

def IPv6Address.load (host : Order) (mem : List UInt8) : IPv6Address.sockaddr_in6 where
  sin6_family := UInt16.ofBitVec (ofMem host 2 (slice mem 0 2))
  sin6_port := ofMem host 2 (slice mem 2 2)
  sin6_flowinfo := UInt32.ofBitVec (ofMem host 4 (slice mem 4 4))
  sin6_addr := bytesAt mem 8 16
  sin6_scope_id := UInt32.ofBitVec (ofMem host 4 (slice mem 24 4))

def sockaddr_un.load (host : Order) (mem : List UInt8) : sockaddr_un where
  sun_family := UInt16.ofBitVec (ofMem host 2 (slice mem 0 2))
  sun_path := bytesAt mem 2 108

def sockaddr.load (host : Order) (mem : List UInt8) : sockaddr where
  sa_family := UInt16.ofBitVec (ofMem host 2 (slice mem 0 2))
  sa_data := bytesAt mem 2 14

namespace Address

/-- What lies behind `getAddr()`. -/
def mem (host : Order) : Address → List UInt8
  | .ipv4 m_addr => m_addr.mem host
  | .ipv6 m_addr => IPv6Address.mem host m_addr
  | .unix m_addr _ => memBytes host (n := 2) m_addr.sun_family.toBitVec ++ m_addr.sun_path.toList
  | .unknown m_addr => memBytes host (n := 2) m_addr.sa_family.toBitVec ++ m_addr.sa_data.toList

def getAddrLen : Address → Nat
  | .ipv4 _ => 16
  | .ipv6 _ => 28
  | .unix _ m_length => m_length.toNat
  | .unknown _ => 16

/-- `UnixAddress::setAddrLen` -/
def setAddrLen (v : UInt32) : Address → Address
  | .unix m_addr _ => .unix m_addr v
  | a => a

/-- `Create`: the kind is the one that `sa_family` says. `none` is a read behind what lies there,
`some none` the null pointer. -/
def Create (host : Order) (addr : Option (List UInt8)) : Option (Option Address) :=
  match addr with
  | none => some none
  | some mem =>
      if mem.length < 2 then none
      else
        let family := (sockaddr.load host mem).sa_family
        if family = AF_INET then
          if mem.length < 16 then none else some (some (.ipv4 (sockaddr_in.load host mem)))
        else if family = IPv6Address.AF_INET6 then
          if mem.length < 28 then none else some (some (.ipv6 (IPv6Address.load host mem)))
        else if mem.length < 16 then none
        else some (some (.unknown (sockaddr.load host mem)))

/-- `operator<` -/
def less (host : Order) (a rhs : Address) : Option Bool := do
  let minlen := min a.getAddrLen rhs.getAddrLen
  let result ← memcmp (a.mem host) (rhs.mem host) minlen
  if result < 0 then some true
  else if result > 0 then some false
  else if a.getAddrLen < rhs.getAddrLen then some true
  else some false

/-- `operator==` -/
def equal (host : Order) (a rhs : Address) : Option Bool :=
  if a.getAddrLen = rhs.getAddrLen then do
    let result ← memcmp (a.mem host) (rhs.mem host) a.getAddrLen
    some (decide (result = 0))
  else some false

/-! ### Memory -/

@[simp] theorem toList_zeroed {n : Nat} {bs : List UInt8} (h : bs.length ≤ n) :
    (zeroed n bs).toList = bs ++ List.replicate (n - bs.length) 0 := by
  refine List.ext_getElem? fun i => ?_
  rw [zeroed, Vector.toList_ofFn, List.getElem?_ofFn]
  by_cases hi : i < n
  · rw [dif_pos hi]
    show some (bs.getD i 0) = _
    rw [List.getD_eq_getElem?_getD]
    by_cases hbs : i < bs.length
    · rw [List.getElem?_append_left hbs, List.getElem?_eq_getElem hbs]
      rfl
    · rw [List.getElem?_append_right (by omega), List.getElem?_eq_none (by omega),
        List.getElem?_replicate, if_pos (by omega)]
      rfl
  · rw [dif_neg hi, List.getElem?_append_right (by omega), List.getElem?_replicate,
      if_neg (by omega)]

/-- A part of an object is loaded as it has been stored. -/
theorem slice_stored {mem l m r : List UInt8} {p n : Nat} (h : mem = l ++ (m ++ r))
    (hl : l.length = p) (hm : m.length = n) : slice mem p n = m := by
  rw [h, slice, ← hl, List.drop_left, List.take_left' hm]

theorem word_stored {host : Order} {mem l r : List UInt8} {p n : Nat} {v : BitVec (8 * n)}
    (h : mem = l ++ (memBytes host v ++ r)) (hl : l.length = p) :
    ofMem host n (slice mem p n) = v := by
  rw [slice_stored h hl (length_memBytes host v), ofMem_memBytes]

theorem bytes_stored {mem l r : List UInt8} {p n : Nat} {v : Vector UInt8 n}
    (h : mem = l ++ (v.toList ++ r)) (hl : l.length = p) : bytesAt mem p n = v := by
  refine Vector.toList_inj.mp ?_
  rw [bytesAt, slice_stored h hl v.length_toList, toList_zeroed (by simp)]
  simp

/-- The next part lies behind this one. -/
theorem stored_next {mem l m r : List UInt8} (h : mem = l ++ (m ++ r)) : mem = (l ++ m) ++ r := by
  rw [h, List.append_assoc]

theorem load_ipv4 (host : Order) (a : sockaddr_in) (r : List UInt8) :
    sockaddr_in.load host (a.mem host ++ r) = a := by
  have hfamily : a.mem host ++ r = [] ++ (memBytes host (n := 2) a.sin_family.toBitVec ++
      (memBytes host a.sin_port ++ (memBytes host a.sin_addr ++ (a.sin_zero.toList ++ r)))) := by
    simp only [sockaddr_in.mem, List.append_assoc, List.nil_append]
  have hport := stored_next hfamily
  have haddr := stored_next hport
  have hzero := stored_next haddr
  show sockaddr_in.mk _ _ _ _ = a
  rw [word_stored hfamily List.length_nil, word_stored hport (by simp), word_stored haddr (by simp),
    bytes_stored hzero (by simp)]

theorem load_ipv6 (host : Order) (a : IPv6Address.sockaddr_in6) (r : List UInt8) :
    IPv6Address.load host (IPv6Address.mem host a ++ r) = a := by
  have hfamily : IPv6Address.mem host a ++ r =
      [] ++ (memBytes host (n := 2) a.sin6_family.toBitVec ++ (memBytes host a.sin6_port ++
        (memBytes host (n := 4) a.sin6_flowinfo.toBitVec ++ (a.sin6_addr.toList ++
          (memBytes host (n := 4) a.sin6_scope_id.toBitVec ++ r))))) := by
    simp only [IPv6Address.mem, List.append_assoc, List.nil_append]
  have hport := stored_next hfamily
  have hflow := stored_next hport
  have haddr := stored_next hflow
  have hscope := stored_next haddr
  show IPv6Address.sockaddr_in6.mk _ _ _ _ _ = a
  rw [word_stored hfamily List.length_nil, word_stored hport (by simp), word_stored hflow (by simp),
    bytes_stored haddr (by simp), word_stored hscope (by simp)]

theorem load_unix (host : Order) (a : sockaddr_un) (r : List UInt8) :
    sockaddr_un.load host
      (memBytes host (n := 2) a.sun_family.toBitVec ++ (a.sun_path.toList ++ r)) = a := by
  show sockaddr_un.mk _ _ = a
  rw [word_stored (n := 2) (v := a.sun_family.toBitVec) (List.nil_append _).symm List.length_nil,
    bytes_stored (v := a.sun_path) rfl (by simp)]

/-- The bytes of an object do not run out before `getAddrLen` does. -/
def Fits : Address → Prop
  | .unix _ m_length => m_length ≤ 110
  | _ => True

theorem empty_fits : UnixAddress.empty.Fits := by
  show (2 + 107 : UInt32) ≤ 110
  decide

theorem getAddrLen_le {a : Address} (h : a.Fits) (host : Order) :
    a.getAddrLen ≤ (a.mem host).length := by
  cases a with
  | ipv4 m_addr => simp [getAddrLen, mem, sockaddr_in.mem]
  | ipv6 m_addr => simp [getAddrLen, mem, IPv6Address.mem]
  | unix m_addr m_length =>
      have hle : m_length.toNat ≤ 110 := UInt32.le_iff_toNat_le.mp h
      simpa [getAddrLen, mem] using hle
  | unknown m_addr => simp [getAddrLen, mem]

/-- The bytes that the operators look at. -/
def image (host : Order) (a : Address) : List UInt8 := (a.mem host).take a.getAddrLen

theorem length_image {a : Address} (h : a.Fits) (host : Order) :
    (a.image host).length = a.getAddrLen := by
  rw [image, List.length_take, Nat.min_eq_left (getAddrLen_le h host)]

theorem mem_eq_image (host : Order) (a : Address) :
    a.mem host = a.image host ++ (a.mem host).drop a.getAddrLen :=
  (List.take_append_drop _ _).symm

theorem memcmp_images {a b : Address} (ha : a.Fits) (hb : b.Fits) (host : Order) :
    memcmp (a.mem host) (b.mem host) (min a.getAddrLen b.getAddrLen) =
      some (difference (a.image host) (b.image host)) := by
  have h := memcmp_common (s := a.image host) (t := b.image host)
    ((a.mem host).drop a.getAddrLen) ((b.mem host).drop b.getAddrLen)
  rwa [← mem_eq_image, ← mem_eq_image, length_image ha, length_image hb] at h

theorem less_images {a b : Address} (ha : a.Fits) (hb : b.Fits) (host : Order) :
    less host a b = some (decide (values (a.image host) < values (b.image host))) := by
  have hlt := lt_iff_difference (a.image host) (b.image host)
  rw [length_image ha, length_image hb] at hlt
  rw [less, memcmp_images ha hb]
  show (if _ < 0 then _ else _) = _
  simp only [hlt]
  grind

theorem equal_images {a b : Address} (ha : a.Fits) (hb : b.Fits) (host : Order) :
    equal host a b = some (decide (a.image host = b.image host)) := by
  have heq := eq_iff_difference (a.image host) (b.image host)
  rw [length_image ha, length_image hb] at heq
  rw [equal]
  by_cases hlen : a.getAddrLen = b.getAddrLen
  · have h := memcmp_images ha hb host
    rw [← hlen, Nat.min_self] at h
    rw [if_pos hlen, h]
    show some (decide _) = _
    simp only [heq, hlen, true_and]
  · rw [if_neg hlen]
    simp only [heq, hlen, false_and, decide_false]

/-! ### The order -/

/-- **The operators order addresses**: of any two exactly one is less or they are equal, whatever
their kinds, and being less passes on. -/
theorem compare_images (host : Order) {a b c : Address} (ha : a.Fits) (hb : b.Fits)
    (hc : c.Fits) :
    (∃ lt gt eq, less host a b = some lt ∧ less host b a = some gt ∧ equal host a b = some eq ∧
      (lt = true ∧ gt = false ∧ eq = false ∨ lt = false ∧ gt = true ∧ eq = false ∨
        lt = false ∧ gt = false ∧ eq = true)) ∧
    (less host a b = some true → less host b c = some true → less host a c = some true) ∧
    (equal host a b = some true → less host a c = less host b c ∧ less host c a = less host c b ∧
      equal host a c = equal host b c) := by
  rw [less_images ha hb, less_images hb ha, equal_images ha hb, less_images hb hc,
    less_images ha hc, less_images hc ha, less_images hc hb, equal_images ha hc,
    equal_images hb hc]
  refine ⟨⟨_, _, _, rfl, rfl, rfl, ?_⟩, ?_, ?_⟩
  · simp only [decide_eq_true_eq, decide_eq_false_iff_not, ← values_inj]
    rcases lt_trichotomy (values (a.image host)) (values (b.image host)) with h | h | h
    · exact .inl ⟨h, lt_asymm h, h.ne⟩
    · exact .inr (.inr ⟨h.not_lt, h.not_gt, h⟩)
    · exact .inr (.inl ⟨lt_asymm h, h, h.ne'⟩)
  · simp only [Option.some.injEq, decide_eq_true_eq]
    exact fun hab hbc => lt_trans hab hbc
  · simp only [Option.some.injEq, decide_eq_true_eq]
    intro hab
    rw [hab]
    exact ⟨rfl, rfl, rfl⟩

/-! ### What addresses are made from -/

/-- The data of a constructor. -/
inductive Made
  | ipv4 (address : BitVec (8 * 4)) (port : BitVec (8 * 2))
  | ipv6 (address : Vector UInt8 16) (port : BitVec (8 * 2))
  | unix (path : List UInt8)
  deriving DecidableEq

namespace Made

def construct (host : Order) : Made → Option Address
  | .ipv4 address port => some (.ipv4 (IPv4Address.new host address port))
  | .ipv6 address port => some (.ipv6 (IPv6Address.new host address port))
  | .unix path => UnixAddress.new path

/-- A path whose length and its terminator fit into a `socklen_t`. -/
def Narrow : Made → Prop
  | .unix path => path.length + 1 < 2 ^ 32
  | _ => True

/-- The two paths that are written as one zero. -/
def blank : List (List UInt8) := [[], [0]]

/-- The same data, or two paths of which nothing is written. -/
def Same : Made → Made → Prop
  | .unix path, .unix path' => path = path' ∨ path ∈ blank ∧ path' ∈ blank
  | m, m' => m = m'

/-- An address of the internet. -/
def IP : Made → Prop
  | .unix _ => False
  | _ => True

def port : Made → BitVec (8 * 2)
  | .ipv4 _ port => port
  | .ipv6 _ port => port
  | .unix _ => 0

def withPort (v : BitVec (8 * 2)) : Made → Made
  | .ipv4 address _ => .ipv4 address v
  | .ipv6 address _ => .ipv6 address v
  | .unix path => .unix path

theorem withPort_IP (m : Made) (v : BitVec (8 * 2)) (h : m.IP) : (m.withPort v).IP := by
  cases m with
  | unix path => exact h
  | _ => trivial

theorem withPort_withPort (m : Made) (v w : BitVec (8 * 2)) :
    (m.withPort v).withPort w = m.withPort w := by
  cases m <;> rfl

theorem withPort_port (m : Made) : m.withPort m.port = m := by
  cases m <;> rfl

end Made

/-- The bytes of a path that a `UnixAddress` keeps: an abstract one goes without terminator. -/
def pathBytes (path : List UInt8) : List UInt8 :=
  if path.head? = some 0 then path else path ++ [0]

theorem unix_new {path : List UInt8} (h : path.length + 1 < 2 ^ 32) :
    UnixAddress.new path =
      if (pathBytes path).length > 108 then none
      else some (.unix ⟨AF_UNIX, zeroed 108 (pathBytes path)⟩
        (UInt32.ofNat ((pathBytes path).length + 2))) := by
  -- the length before the check is the one of the bytes that are kept
  have hlength : (if path.head? = some 0 then UInt32.ofNat (path.length + 1) - 1
      else UInt32.ofNat (path.length + 1)) = UInt32.ofNat (pathBytes path).length := by
    rw [pathBytes]
    by_cases habstract : path.head? = some 0
    · rw [if_pos habstract, if_pos habstract, UInt32.ofNat_add]
      exact UInt32.add_sub_cancel _ _
    · rw [if_neg habstract, if_neg habstract, List.length_append, List.length_singleton]
  have hfits : (pathBytes path).length < 2 ^ 32 := by
    rw [pathBytes]
    split
    · omega
    · rw [List.length_append, List.length_singleton]
      omega
  have htoNat := UInt32.toNat_ofNat_of_lt' hfits
  have htake : (path ++ [0]).take (pathBytes path).length = pathBytes path := by
    rw [pathBytes]
    split
    · exact List.take_left
    · exact List.take_length
  have hlong : UInt32.ofNat (pathBytes path).length > 108 ↔ (pathBytes path).length > 108 := by
    show (108 : UInt32) < _ ↔ _
    rw [UInt32.lt_iff_toNat_lt, htoNat]
    rfl
  rw [UnixAddress.new, hlength]
  simp only [hlong, htoNat, htake]
  rw [UInt32.ofNat_add]
  rfl

/-- Two words in memory are the same if their bytes are. -/
theorem memBytes_inj {host : Order} {n : Nat} {v w : BitVec (8 * n)} :
    memBytes host v = memBytes host w ↔ v = w := by
  refine ⟨fun h => ?_, fun h => by rw [h]⟩
  rw [← ofMem_memBytes host v, h, ofMem_memBytes]

/-- The memory of an object begins with the family. -/
theorem family_eq {host : Order} {f g : UInt16} {l r : List UInt8}
    (h : memBytes host (n := 2) f.toBitVec ++ l = memBytes host (n := 2) g.toBitVec ++ r) :
    f = g ∧ l = r := by
  obtain ⟨hfamily, hrest⟩ := List.append_inj h (by simp)
  exact ⟨UInt16.toBitVec_inj.mp (memBytes_inj.mp hfamily), hrest⟩

theorem byteswap_inj {n : Nat} {v w : BitVec (8 * n)} (h : byteswap v = byteswap w) : v = w := by
  rw [← byteswap_byteswap v, h, byteswap_byteswap]

theorem pathBytes_inj {path path' : List UInt8} :
    pathBytes path = pathBytes path' ↔ path = path' ∨ path ∈ Made.blank ∧ path' ∈ Made.blank := by
  have hblank : ∀ {p : List UInt8}, p ∈ Made.blank → pathBytes p = [0] := by
    intro p hp
    rcases List.mem_cons.mp hp with rfl | hp
    · rfl
    · rw [List.mem_singleton.mp hp]
      rfl
  -- a path that is kept with its terminator begins with no zero, if it is not empty
  have hmixed : ∀ {p q : List UInt8}, p.head? = some 0 → ¬q.head? = some 0 → p = q ++ [0] →
      p ∈ Made.blank ∧ q ∈ Made.blank := by
    intro p q hp hq hpq
    cases q with
    | nil => exact ⟨by rw [hpq]; simp [Made.blank], by simp [Made.blank]⟩
    | cons c q =>
        rw [hpq] at hp
        exact absurd hp hq
  constructor
  · intro h
    rw [pathBytes, pathBytes] at h
    by_cases hp : path.head? = some 0
    · by_cases hq : path'.head? = some 0
      · rw [if_pos hp, if_pos hq] at h
        exact .inl h
      · rw [if_pos hp, if_neg hq] at h
        exact .inr (hmixed hp hq h)
    · by_cases hq : path'.head? = some 0
      · rw [if_neg hp, if_pos hq] at h
        exact .inr (hmixed hq hp h.symm).symm
      · rw [if_neg hp, if_neg hq] at h
        exact .inl (List.append_inj_left' h rfl)
  · rintro (rfl | ⟨hp, hq⟩)
    · rfl
    · rw [hblank hp, hblank hq]

namespace Made

/-- The bytes behind the family. -/
def rest (host : Order) : Made → List UInt8
  | .ipv4 address port =>
      memBytes host (IPv4Address.new host address port).sin_port ++
        (memBytes host (IPv4Address.new host address port).sin_addr ++ List.replicate 8 0)
  | .ipv6 address port =>
      memBytes host (IPv6Address.new host address port).sin6_port ++
        (memBytes host (n := 4) 0 ++ (address.toList ++ memBytes host (n := 4) 0))
  | .unix path => pathBytes path

def family : Made → UInt16
  | .ipv4 _ _ => AF_INET
  | .ipv6 _ _ => IPv6Address.AF_INET6
  | .unix _ => AF_UNIX

theorem rest_ipv4_inj {host : Order} {address address' : BitVec (8 * 4)}
    {port port' : BitVec (8 * 2)}
    (h : (ipv4 address port).rest host = (ipv4 address' port').rest host) :
    ipv4 address port = ipv4 address' port' := by
  obtain ⟨hport, h⟩ := List.append_inj h (by simp)
  obtain ⟨haddress, -⟩ := List.append_inj h (by simp)
  rw [memBytes_inj] at hport haddress
  cases host
  · rw [byteswap_inj haddress, byteswap_inj hport]
  · rw [show address = address' from haddress, show port = port' from hport]

theorem rest_ipv6_inj {host : Order} {address address' : Vector UInt8 16}
    {port port' : BitVec (8 * 2)}
    (h : (ipv6 address port).rest host = (ipv6 address' port').rest host) :
    ipv6 address port = ipv6 address' port' := by
  obtain ⟨hport, h⟩ := List.append_inj h (by simp)
  obtain ⟨-, h⟩ := List.append_inj h (by simp)
  obtain ⟨haddress, -⟩ := List.append_inj h (by simp)
  rw [memBytes_inj] at hport
  rw [Vector.toList_inj.mp haddress]
  cases host
  · rw [byteswap_inj hport]
  · rw [show port = port' from hport]

/-- What an address looks like that has been made. -/
theorem image_construct {host : Order} {m : Made} {a : Address} (hnarrow : m.Narrow)
    (h : m.construct host = some a) :
    a.Fits ∧ a.image host = memBytes host (n := 2) m.family.toBitVec ++ m.rest host := by
  cases m with
  | ipv4 address port =>
      cases h
      refine ⟨trivial, ?_⟩
      rw [image, List.take_of_length_le (by simp [mem, sockaddr_in.mem, getAddrLen])]
      simp [mem, sockaddr_in.mem, rest, family, IPv4Address.new]
  | ipv6 address port =>
      cases h
      refine ⟨trivial, ?_⟩
      rw [image, List.take_of_length_le (by simp [mem, IPv6Address.mem, getAddrLen])]
      simp [mem, IPv6Address.mem, rest, family, IPv6Address.new]
  | unix path =>
      rw [construct, unix_new hnarrow] at h
      split at h
      case isTrue => cases h
      case isFalse hshort =>
        obtain rfl := Option.some.inj h
        have hlen : (UInt32.ofNat ((pathBytes path).length + 2)).toNat =
            (pathBytes path).length + 2 :=
          UInt32.toNat_ofNat_of_lt' (by show _ < 2 ^ 32; omega)
        refine ⟨UInt32.le_iff_toNat_le.mpr ?_, ?_⟩
        · rw [hlen]
          show _ ≤ 110
          omega
        · rw [image]
          show List.take (UInt32.ofNat _).toNat (_ ++ _) = _
          rw [hlen, toList_zeroed (by omega), ← List.append_assoc]
          exact List.take_left' (by simp [Nat.add_comm])

end Made

/-- **Equal addresses are made from the same data**, whatever their kinds, but for two paths of
which nothing is written. -/
theorem compare_made (host : Order) {m m' : Made} {a a' : Address} (hnarrow : m.Narrow)
    (hnarrow' : m'.Narrow) (h : m.construct host = some a) (h' : m'.construct host = some a') :
    equal host a a' = some true ↔ m.Same m' := by
  obtain ⟨hfits, himage⟩ := Made.image_construct hnarrow h
  obtain ⟨hfits', himage'⟩ := Made.image_construct hnarrow' h'
  rw [equal_images hfits hfits', Option.some.injEq, decide_eq_true_eq, himage, himage']
  constructor
  · intro heq
    obtain ⟨hfamily, hrest⟩ := family_eq heq
    cases m with
    | ipv4 address port =>
        cases m' with
        | ipv4 address' port' => exact Made.rest_ipv4_inj hrest
        | ipv6 address' port' => cases hfamily
        | unix path' => cases hfamily
    | ipv6 address port =>
        cases m' with
        | ipv4 address' port' => cases hfamily
        | ipv6 address' port' => exact Made.rest_ipv6_inj hrest
        | unix path' => cases hfamily
    | unix path =>
        cases m' with
        | ipv4 address' port' => cases hfamily
        | ipv6 address' port' => cases hfamily
        | unix path' => exact pathBytes_inj.mp hrest
  · intro hsame
    cases m with
    | ipv4 address port => cases m' <;> cases hsame; rfl
    | ipv6 address port => cases m' <;> cases hsame; rfl
    | unix path =>
        cases m' with
        | ipv4 address' port' => cases hsame
        | ipv6 address' port' => cases hsame
        | unix path' =>
            show _ ++ pathBytes path = _ ++ pathBytes path'
            rw [pathBytes_inj.mpr hsame]
            rfl

/-- **The operators order addresses by what they are made from.**  Of any two addresses, of whatever
kinds, exactly one is less or they are equal; being less passes on, and equal ones compare alike.
Two that have been made are equal exactly if they were made from the same data. -/
theorem operators_order (host : Order) :
    (∀ a b c : Address, a.Fits → b.Fits → c.Fits →
      (∃ lt gt eq, less host a b = some lt ∧ less host b a = some gt ∧ equal host a b = some eq ∧
        (lt = true ∧ gt = false ∧ eq = false ∨ lt = false ∧ gt = true ∧ eq = false ∨
          lt = false ∧ gt = false ∧ eq = true)) ∧
      (less host a b = some true → less host b c = some true → less host a c = some true) ∧
      (equal host a b = some true → less host a c = less host b c ∧
        less host c a = less host c b ∧ equal host a c = equal host b c)) ∧
    ∀ (m m' : Made) (a a' : Address), m.Narrow → m'.Narrow → m.construct host = some a →
      m'.construct host = some a' → a.Fits ∧ (equal host a a' = some true ↔ m.Same m') := by
  refine ⟨fun a b c ha hb hc => compare_images host ha hb hc, ?_⟩
  intro m m' a a' hnarrow hnarrow' h h'
  exact ⟨(Made.image_construct hnarrow h).1, compare_made host hnarrow hnarrow' h h'⟩

/-- The loopback and a blank path; and the loopback with itself, and with another port. -/
theorem operators_order_kinds :
    (∃ lt gt eq,
      less .little (.ipv4 (IPv4Address.new .little 0x7f000001 80)) UnixAddress.empty = some lt ∧
      less .little UnixAddress.empty (.ipv4 (IPv4Address.new .little 0x7f000001 80)) = some gt ∧
      equal .little (.ipv4 (IPv4Address.new .little 0x7f000001 80)) UnixAddress.empty = some eq ∧
      (lt = true ∧ gt = false ∧ eq = false ∨ lt = false ∧ gt = true ∧ eq = false ∨
        lt = false ∧ gt = false ∧ eq = true)) ∧
      equal .little (.ipv4 (IPv4Address.new .little 0x7f000001 80))
        (.ipv4 (IPv4Address.new .little 0x7f000001 80)) = some true ∧
      equal .little (.ipv4 (IPv4Address.new .little 0x7f000001 80))
        (.ipv4 (IPv4Address.new .little 0x7f000001 8080)) ≠ some true := by
  obtain ⟨horder, hmade⟩ := operators_order .little
  obtain ⟨hone, -⟩ := horder (.ipv4 (IPv4Address.new .little 0x7f000001 80)) UnixAddress.empty
    UnixAddress.empty trivial empty_fits empty_fits
  have hother : ¬(Made.ipv4 0x7f000001 80).Same (.ipv4 0x7f000001 8080) := by
    intro hsame
    exact absurd (Made.ipv4.inj hsame).2 (by decide)
  exact ⟨hone,
    (hmade (.ipv4 0x7f000001 80) (.ipv4 0x7f000001 80) _ _ trivial trivial rfl rfl).2.mpr rfl,
    mt (hmade (.ipv4 0x7f000001 80) (.ipv4 0x7f000001 8080) _ _ trivial trivial rfl rfl).2.mp
      hother⟩

end Address

end Will
