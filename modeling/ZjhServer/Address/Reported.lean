/-
ZjhServer/Address/Reported.lean

What `Socket::getLocalAddress` and `Socket::getRemoteAddress` (server/socket.cc) make of the name
that the system reports: an object of the socket's family, written over, and for a path given the
length that the system says.

The name is the system's: what is asked of it is that it is the address the socket was bound to,
a path ended at its first zero, with some other port for port 0 (`Named`).  The object for a path
offers one byte less than a path may have, so a path of full length loses its last byte.  The
address that comes back is the one the socket was bound to, but for port 0, for an abstract path of
full length that does not end with a zero, and for a path that the system has cut at a zero inside
it (`reported_law`).
-/
import ZjhServer.Address.Basic

namespace Will

open Wire Window

namespace Address

/-! ### The source -/

def getFamily : Address → UInt16
  | .ipv4 m_addr => m_addr.sin_family
  | .ipv6 m_addr => m_addr.sin6_family
  | .unix m_addr _ => m_addr.sun_family
  | .unknown m_addr => m_addr.sa_family

/-- The object for a socket's family. -/
def forFamily (host : Order) (m_family : UInt16) : Address :=
  if m_family = AF_INET then .ipv4 (IPv4Address.new host 0 0)
  else if m_family = IPv6Address.AF_INET6 then .ipv6 (IPv6Address.new host (zeroed 16 []) 0)
  else if m_family = AF_UNIX then UnixAddress.empty
  else .unknown (UnknownAddress.new m_family)

/-- `getsockname` and `getpeername`: as much of the name as `addrlen` has room for. -/
def filled (host : Order) (name : List UInt8) (result : Address) : Address :=
  let mem := splice (result.mem host) 0 (name.take result.getAddrLen)
  match result with
  | .ipv4 _ => .ipv4 (sockaddr_in.load host mem)
  | .ipv6 _ => .ipv6 (IPv6Address.load host mem)
  | .unix _ m_length => .unix (sockaddr_un.load host mem) m_length
  | .unknown _ => .unknown (sockaddr.load host mem)

/-- `getLocalAddress`, `getRemoteAddress`, when nothing is kept from an earlier call; the system
has a name for the socket, or none. -/
def reported (host : Order) (m_family : UInt16) (name : Option (List UInt8)) : Address :=
  match name with
  | none => .unknown (UnknownAddress.new m_family)
  | some name =>
      let result := filled host name (forFamily host m_family)
      -- `addrlen` is now the length of the whole name
      if m_family = AF_UNIX then result.setAddrLen (UInt32.ofNat name.length) else result

/-- `getPath`, and what `insert` writes of a path; `none` is a read behind `sun_path`. -/
def getPath : Address → Option (List UInt8)
  | .unix m_addr m_length =>
      let sun_path := m_addr.sun_path.toList
      if m_length > 2 ∧ sun_path.head? = some 0 then
        let n := m_length.toNat - 2 - 1
        if 1 + n ≤ 108 then some ([92, 48] ++ slice sun_path 1 n) else none
      else if 0 ∈ sun_path then some (sun_path.takeWhile (· ≠ 0)) else none
  | _ => none

/-! ### The system -/

/-- A path as the system ends it: one that is not abstract goes to its first zero. -/
def keptPath (path : List UInt8) : List UInt8 :=
  if (pathBytes path).head? = some 0 then pathBytes path else path.takeWhile (· ≠ 0) ++ [0]

/-- The bytes of an address, with its path as the system ends it. -/
def Made.bytes (host : Order) : Made → List UInt8
  | .unix path => memBytes host (n := 2) AF_UNIX.toBitVec ++ keptPath path
  | m => memBytes host (n := 2) m.family.toBitVec ++ m.rest host

/-- What is asked of `getsockname` and `getpeername`: the name of a socket that has been bound to
an address is that address, with a port of the system's choice if the port was 0. -/
inductive Named (host : Order) (m : Made) : List UInt8 → Prop
  | kept (hport : m.IP → m.port ≠ 0) : Named host m (m.bytes host)
  | chosen {port : BitVec (8 * 2)} (hip : m.IP) (hport : m.port = 0) (hchosen : port ≠ 0) :
      Named host m ((m.withPort port).bytes host)

/-- The addresses that come back. -/
def Made.Reports : Made → Prop
  | .unix path =>
      if path.head? = some 0 then path.length ≤ 107 ∨ path.getLast? = some 0 else 0 ∉ path
  | m => m.port ≠ 0

/-! ### Paths -/

theorem takeWhile_eq_self {path : List UInt8} :
    path.takeWhile (fun c => decide (c ≠ 0)) = path ↔ 0 ∉ path := by
  rw [List.takeWhile_eq_self_iff]
  simp only [decide_eq_true_eq]
  exact ⟨fun h h0 => h 0 h0 rfl, fun h c hc h0 => h (h0 ▸ hc)⟩

/-- One byte less of room. -/
theorem room_law {k : List UInt8} (h : k.length ≤ 108) :
    (zeroed 108 (k.take 107)).toList.take k.length = k ↔ k.length ≤ 107 ∨ k.getLast? = some 0 := by
  rw [toList_zeroed (by simp)]
  by_cases hshort : k.length ≤ 107
  · rw [List.take_of_length_le hshort, List.take_left]
    exact ⟨fun _ => .inl hshort, fun _ => rfl⟩
  · -- a full path: its last byte is the one that has no room
    obtain ⟨init, last, rfl⟩ : ∃ init last, k = init ++ [last] :=
      (List.eq_nil_or_concat' k).resolve_left fun hnil => by
        rw [hnil] at hshort
        exact hshort (Nat.zero_le _)
    rw [List.length_append, List.length_singleton] at h hshort
    have hinit : init.length = 107 := by omega
    rw [List.take_left' hinit, List.length_append, List.length_singleton, hinit,
      List.getLast?_concat]
    show (init ++ [0]).take 108 = _ ↔ _
    rw [List.take_of_length_le (by rw [List.length_append, hinit]; rfl)]
    simp [eq_comm]

theorem keptPath_abstract {path : List UInt8} (h : path.head? = some 0) : keptPath path = path := by
  rw [keptPath, pathBytes, if_pos h, if_pos h]

theorem keptPath_blank : keptPath [] = [0] := rfl

theorem keptPath_named {path : List UInt8} (hne : path ≠ []) (h : ¬path.head? = some 0) :
    keptPath path = path.takeWhile (· ≠ 0) ++ [0] := by
  have hhead : (pathBytes path).head? = path.head? := by
    rw [pathBytes, if_neg h, List.head?_append_of_ne_nil _ hne]
  rw [keptPath, hhead, if_neg h]

theorem length_keptPath (path : List UInt8) : (keptPath path).length ≤ (pathBytes path).length := by
  rw [keptPath]
  split
  case isTrue => exact Nat.le_refl _
  case isFalse h =>
    have hhead : ¬path.head? = some 0 := fun hzero => h (by rw [pathBytes, if_pos hzero, hzero])
    rw [pathBytes, if_neg hhead, List.length_append, List.length_append]
    exact Nat.add_le_add_right (List.takeWhile_prefix _).length_le 1

/-- The name comes back as the path that was given. -/
theorem keptPath_law {path : List UInt8} (hshort : (pathBytes path).length ≤ 108) :
    (zeroed 108 ((keptPath path).take 107)).toList.take (keptPath path).length = pathBytes path ↔
      (Made.unix path).Reports := by
  have hroom := room_law (Nat.le_trans (length_keptPath path) hshort)
  show _ ↔ (if path.head? = some 0 then _ else _)
  by_cases habstract : path.head? = some 0
  · rw [if_pos habstract, pathBytes, if_pos habstract]
    rw [keptPath_abstract habstract] at hroom ⊢
    exact hroom
  · rw [if_neg habstract]
    -- the terminator that is cut off is a zero, and is there already
    have hback : (zeroed 108 ((keptPath path).take 107)).toList.take (keptPath path).length =
        keptPath path := by
      refine hroom.mpr (.inr ?_)
      by_cases hne : path = []
      · rw [hne]
        rfl
      · rw [keptPath_named hne habstract, List.getLast?_concat]
    rw [hback, pathBytes, if_neg habstract]
    by_cases hne : path = []
    · subst hne
      simp [keptPath_blank]
    · rw [keptPath_named hne habstract, List.append_left_inj]
      exact takeWhile_eq_self

/-! ### The object that comes back -/

theorem splice_whole {mem name : List UInt8} (h : mem.length = name.length) :
    splice mem 0 name = name := by
  rw [splice, List.take_zero, List.nil_append, Nat.sub_zero, Nat.zero_add, h, List.take_length,
    ← h, List.drop_length, List.append_nil]

/-- Behind a family that is there already, zeros are written over. -/
theorem splice_zeros {f k : List UInt8} {n m : Nat} (hmn : m ≤ n) :
    splice (f ++ List.replicate n 0) 0 ((f ++ k).take (f.length + m)) =
      f ++ (zeroed n (k.take m)).toList := by
  have hlen : (k.take m).length ≤ n := by
    rw [List.length_take]
    omega
  rw [List.take_length_add_append, toList_zeroed hlen, splice, List.take_zero, List.nil_append,
    Nat.sub_zero, Nat.zero_add, List.length_append, List.length_append, List.length_replicate,
    List.take_of_length_le (by rw [List.length_append]; omega), List.drop_length_add_append,
    List.drop_replicate, List.append_assoc]

theorem reported_unix (host : Order) (k : List UInt8) :
    reported host AF_UNIX (some (memBytes host (n := 2) AF_UNIX.toBitVec ++ k)) =
      .unix ⟨AF_UNIX, zeroed 108 (k.take 107)⟩ (UInt32.ofNat (2 + k.length)) := by
  have hfamily : (memBytes host (n := 2) AF_UNIX.toBitVec).length = 2 := length_memBytes host _
  have hempty : UnixAddress.empty.mem host =
      memBytes host (n := 2) AF_UNIX.toBitVec ++ List.replicate 108 0 := by
    show _ ++ (zeroed 108 []).toList = _
    rw [toList_zeroed (Nat.zero_le _)]
    rfl
  have hmem := splice_zeros (f := memBytes host (n := 2) AF_UNIX.toBitVec) (k := k)
    (n := 108) (m := 107) (by decide)
  rw [hfamily, ← hempty] at hmem
  show setAddrLen (UInt32.ofNat (memBytes host (n := 2) AF_UNIX.toBitVec ++ k).length)
    (.unix (sockaddr_un.load host (splice (UnixAddress.empty.mem host) 0
      ((memBytes host (n := 2) AF_UNIX.toBitVec ++ k).take (2 + 107)))) (2 + 107)) = _
  have hload := load_unix host ⟨AF_UNIX, zeroed 108 (k.take 107)⟩ []
  rw [List.append_nil] at hload
  rw [hmem, hload, List.length_append, hfamily]
  rfl

theorem reported_ipv4 (host : Order) (a : sockaddr_in) :
    reported host AF_INET (some (a.mem host)) = .ipv4 a := by
  have hlen : ∀ b : sockaddr_in, (b.mem host).length = 16 := fun b => by simp [sockaddr_in.mem]
  show Address.ipv4 (sockaddr_in.load host (splice (sockaddr_in.mem host _) 0
    ((a.mem host).take 16))) = _
  rw [List.take_of_length_le (hlen a).le, splice_whole (by rw [hlen, hlen]),
    ← List.append_nil (a.mem host), load_ipv4]

theorem reported_ipv6 (host : Order) (a : IPv6Address.sockaddr_in6) :
    reported host IPv6Address.AF_INET6 (some (IPv6Address.mem host a)) = .ipv6 a := by
  have hlen : ∀ b, (IPv6Address.mem host b).length = 28 := fun b => by simp [IPv6Address.mem]
  show Address.ipv6 (IPv6Address.load host (splice (IPv6Address.mem host _) 0
    ((IPv6Address.mem host a).take 28))) = _
  rw [List.take_of_length_le (hlen a).le, splice_whole (by rw [hlen, hlen]),
    ← List.append_nil (IPv6Address.mem host a), load_ipv6]

theorem image_unix (host : Order) (sun_path : Vector UInt8 108) {n : Nat} (h : n ≤ 108) :
    Fits (.unix ⟨AF_UNIX, sun_path⟩ (UInt32.ofNat (2 + n))) ∧
      image host (.unix ⟨AF_UNIX, sun_path⟩ (UInt32.ofNat (2 + n))) =
        memBytes host (n := 2) AF_UNIX.toBitVec ++ sun_path.toList.take n := by
  have htoNat : (UInt32.ofNat (2 + n)).toNat = 2 + n :=
    UInt32.toNat_ofNat_of_lt' (by show _ < 2 ^ 32; omega)
  have htake : ∀ f z : List UInt8, f.length = 2 → (f ++ z).take (2 + n) = f ++ z.take n := by
    intro f z hf
    rw [← hf, List.take_length_add_append]
  constructor
  · refine UInt32.le_iff_toNat_le.mpr ?_
    rw [htoNat]
    show _ ≤ 110
    omega
  · show List.take (UInt32.ofNat (2 + n)).toNat (_ ++ sun_path.toList) = _
    rw [htoNat]
    exact htake _ _ (length_memBytes host _)

/-! ### The law -/

/-- What `getPath` makes of a path: an abstract one, or none, is shown with a backslash. -/
def shownPath (path : List UInt8) : List UInt8 :=
  if path = [] ∨ path.head? = some 0 then [92, 48] ++ path.tail else path

theorem pathBytes_ne_nil (path : List UInt8) : pathBytes path ≠ [] := by
  rw [pathBytes]
  split
  case isTrue h =>
    rintro rfl
    cases h
  case isFalse => exact List.append_ne_nil_of_right_ne_nil _ (List.cons_ne_nil _ _)

theorem pathBytes_shown {path : List UInt8} (h : path = [] ∨ path.head? = some 0) :
    pathBytes path = 0 :: path.tail := by
  rcases h with rfl | h
  · rfl
  · rw [pathBytes, if_pos h]
    exact List.eq_cons_of_mem_head? h

/-- `getPath` reads the bytes of a path, with anything behind them. -/
theorem getPath_bytes {path r : List UInt8} {sun_path : Vector UInt8 108}
    (hzero : path.head? = some 0 ∨ 0 ∉ path) (hpath : sun_path.toList = pathBytes path ++ r) :
    getPath (.unix ⟨AF_UNIX, sun_path⟩ (UInt32.ofNat (2 + (pathBytes path).length))) =
      some (shownPath path) := by
  have hshort : (pathBytes path).length ≤ 108 := by
    have hlen := congrArg List.length hpath
    rw [sun_path.length_toList, List.length_append] at hlen
    omega
  have htoNat : (UInt32.ofNat (2 + (pathBytes path).length)).toNat =
      2 + (pathBytes path).length :=
    UInt32.toNat_ofNat_of_lt' (by show _ < 2 ^ 32; omega)
  have hpos := List.length_pos_iff.mpr (pathBytes_ne_nil path)
  have hlong : UInt32.ofNat (2 + (pathBytes path).length) > 2 := by
    show (2 : UInt32) < _
    rw [UInt32.lt_iff_toNat_lt, htoNat]
    show 2 < _
    omega
  simp only [getPath, hlong, true_and, htoNat, hpath, List.head?_append_of_ne_nil _
    (pathBytes_ne_nil path), Nat.add_sub_cancel_left]
  by_cases hshown : path = [] ∨ path.head? = some 0
  · -- what is shown behind the backslash are the bytes after the first zero
    have hbytes := pathBytes_shown hshown
    rw [hbytes] at hshort ⊢
    have hroom : 1 + path.tail.length ≤ 108 := by
      rw [List.length_cons] at hshort
      omega
    have hslice : slice (0 :: path.tail ++ r) 1 path.tail.length = path.tail := by
      show List.take _ (path.tail ++ r) = _
      exact List.take_left
    rw [if_pos List.head?_cons, List.length_cons, Nat.add_sub_cancel, if_pos hroom, hslice,
      shownPath, if_pos hshown]
  · have hnot : 0 ∉ path := hzero.resolve_left fun h => hshown (.inr h)
    have hhead : ¬path.head? = some 0 := fun h => hshown (.inr h)
    have hbytes : pathBytes path = path ++ [0] := by rw [pathBytes, if_neg hhead]
    have hne : path ≠ [] := fun h => hshown (.inl h)
    rw [hbytes, List.head?_append_of_ne_nil _ hne, if_neg hhead, if_pos (by simp), shownPath,
      if_neg hshown]
    have htake : ∀ c ∈ path, decide (c ≠ 0) = true := fun c hc =>
      decide_eq_true fun h0 => hnot (h0 ▸ hc)
    rw [List.append_assoc, List.takeWhile_append_of_pos htake, List.singleton_append,
      List.takeWhile_cons_of_neg (by decide), List.append_nil]

theorem construct_family {host : Order} {m : Made} {a : Address} (hnarrow : m.Narrow)
    (h : m.construct host = some a) : a.getFamily = m.family := by
  cases m with
  | ipv4 address port => cases h; rfl
  | ipv6 address port => cases h; rfl
  | unix path =>
      rw [Made.construct, unix_new hnarrow] at h
      split at h
      case isTrue => cases h
      case isFalse => exact Option.some.inj h ▸ rfl

theorem withPort_family (m : Made) (port : BitVec (8 * 2)) :
    (m.withPort port).family = m.family := by
  cases m <;> rfl

theorem narrow_of_IP {m : Made} (hip : m.IP) : m.Narrow := by
  cases m with
  | unix path => exact hip.elim
  | _ => trivial

/-- An address of the internet comes back whole. -/
theorem reported_ip (host : Order) {m : Made} (hip : m.IP) :
    some (reported host m.family (some (m.bytes host))) = m.construct host := by
  cases m with
  | ipv4 address port =>
      have hbytes : (Made.ipv4 address port).bytes host =
          (IPv4Address.new host address port).mem host := by
        show _ ++ _ = _
        simp [Made.rest, sockaddr_in.mem, Made.family, IPv4Address.new]
      rw [hbytes]
      exact congrArg some (reported_ipv4 host _)
  | ipv6 address port =>
      have hbytes : (Made.ipv6 address port).bytes host =
          IPv6Address.mem host (IPv6Address.new host address port) := by
        show _ ++ _ = _
        simp [Made.rest, IPv6Address.mem, Made.family, IPv6Address.new]
      rw [hbytes]
      exact congrArg some (reported_ipv6 host _)
  | unix path => exact hip.elim

/-- A path comes back, unless its last byte has had no room or it was cut at a zero. -/
theorem reported_path (host : Order) {path : List UInt8} {a : Address}
    (hnarrow : (Made.unix path).Narrow) (h : (Made.unix path).construct host = some a) :
    (equal host (reported host AF_UNIX (some ((Made.unix path).bytes host))) a = some true ↔
      (Made.unix path).Reports) ∧
    ((Made.unix path).Reports →
      getPath (reported host AF_UNIX (some ((Made.unix path).bytes host))) =
        some (shownPath path)) := by
  obtain ⟨hfits, himage⟩ := Made.image_construct hnarrow h
  rw [Made.construct, unix_new hnarrow] at h
  split at h
  case isTrue => cases h
  case isFalse hshort =>
    obtain rfl := Option.some.inj h
    have hpath := keptPath_law (Nat.le_of_not_lt hshort)
    have hlen := length_keptPath path
    have hshown : (keptPath path).length ≤ 108 := by omega
    show (equal host (reported host AF_UNIX (some (_ ++ keptPath path))) _ = _ ↔ _) ∧
      (_ → getPath (reported host AF_UNIX (some (_ ++ keptPath path))) = _)
    rw [reported_unix]
    obtain ⟨hback, hseen⟩ := image_unix host (zeroed 108 ((keptPath path).take 107)) hshown
    constructor
    · rw [equal_images hback hfits, himage, hseen, Option.some.injEq, decide_eq_true_eq,
        ← hpath]
      exact List.append_right_inj _
    · intro hreports
      have hbytes := hpath.mpr hreports
      -- the bytes that come back are those of the path, with zeros behind them
      have hsplit := List.take_append_drop (keptPath path).length
        (zeroed 108 ((keptPath path).take 107)).toList
      rw [hbytes] at hsplit
      have hsame : (keptPath path).length = (pathBytes path).length := by
        have hcount := congrArg List.length hbytes
        rw [List.length_take, Vector.length_toList] at hcount
        omega
      rw [hsame]
      refine getPath_bytes ?_ hsplit.symm
      by_cases habstract : path.head? = some 0
      · exact .inl habstract
      · exact .inr ((if_neg habstract).mp hreports)

/-- Two addresses that differ in nothing but the port. -/
theorem same_withPort {m : Made} (hip : m.IP) (port : BitVec (8 * 2)) :
    (m.withPort port).Same m ↔ port = m.port := by
  cases m with
  | ipv4 address port' =>
      exact ⟨fun heq => (Made.ipv4.inj heq).2, fun heq => congrArg (Made.ipv4 address) heq⟩
  | ipv6 address port' =>
      exact ⟨fun heq => (Made.ipv6.inj heq).2, fun heq => congrArg (Made.ipv6 address) heq⟩
  | unix path => exact hip.elim

/-- **The address of a socket comes back.**  A socket that is bound to an address reports an equal
one, exactly if the address does not leave the port to the system, is not an abstract path of full
length that ends with something else than a zero, nor a path with a zero inside it; then a path is
shown as it was given; and an address of the internet comes back with the port it has, or got. -/
theorem reported_law (host : Order) {m : Made} {a : Address} {name : List UInt8}
    (hnarrow : m.Narrow) (h : m.construct host = some a) (hname : Named host m name) :
    (equal host (reported host a.getFamily (some name)) a = some true ↔ m.Reports) ∧
    (∀ path, m = .unix path → m.Reports →
      getPath (reported host a.getFamily (some name)) = some (shownPath path)) ∧
    (m.IP → ∃ port, port ≠ 0 ∧ (m.port ≠ 0 → port = m.port) ∧
      some (reported host a.getFamily (some name)) = (m.withPort port).construct host) := by
  have hfamily : a.getFamily = m.family := construct_family hnarrow h
  rw [hfamily]
  by_cases hip : m.IP
  · -- the port that the name has
    obtain ⟨port, hport, hkeeps, rfl⟩ : ∃ port, port ≠ 0 ∧ (m.port ≠ 0 → port = m.port) ∧
        name = (m.withPort port).bytes host := by
      cases hname with
      | kept hport => exact ⟨m.port, hport hip, fun _ => rfl, by rw [Made.withPort_port]⟩
      | @chosen port _ hzero hchosen =>
          exact ⟨port, hchosen, fun hne => absurd hzero hne, rfl⟩
    have hback := reported_ip host (Made.withPort_IP m port hip)
    rw [withPort_family] at hback
    refine ⟨?_, ?_, fun _ => ⟨port, hport, hkeeps, hback⟩⟩
    · rw [compare_made host (narrow_of_IP (Made.withPort_IP m port hip)) hnarrow hback.symm h,
        same_withPort hip]
      have hreports : m.Reports ↔ m.port ≠ 0 := by
        cases m with
        | unix path => exact hip.elim
        | _ => rfl
      rw [hreports]
      exact ⟨fun heq => heq ▸ hport, hkeeps⟩
    · rintro path rfl
      exact hip.elim
  · cases m with
    | unix path =>
        cases hname with
        | chosen hno => exact absurd hno hip
        | kept =>
            obtain ⟨hequal, hpath⟩ := reported_path host hnarrow h
            refine ⟨hequal, ?_, fun hno => absurd hno hip⟩
            rintro p hp
            obtain rfl := Made.unix.inj hp
            exact hpath
    | _ => exact absurd trivial hip

/-- The abstract path `x`, and a port that the system chooses. -/
theorem reported_law_abstract : ∃ a b, (Made.unix [0, 120]).construct .little = some a ∧
    (Made.ipv4 0x7f000001 0).construct .little = some b ∧
    equal .little (reported .little a.getFamily (some ((Made.unix [0, 120]).bytes .little))) a =
      some true ∧
    getPath (reported .little a.getFamily (some ((Made.unix [0, 120]).bytes .little))) =
      some [92, 48, 120] ∧
    equal .little
      (reported .little b.getFamily (some ((Made.ipv4 0x7f000001 40000).bytes .little))) b ≠
        some true := by
  have hnarrow : (Made.unix [0, 120]).Narrow := by
    show [0, 120].length + 1 < 2 ^ 32
    decide
  have hreports : (Made.unix [0, 120]).Reports := .inl (by decide)
  obtain ⟨hequal, hpath, -⟩ := reported_law .little (m := .unix [0, 120]) hnarrow rfl (.kept nofun)
  have hnamed : Named .little (.ipv4 0x7f000001 0) ((Made.ipv4 0x7f000001 40000).bytes .little) :=
    .chosen trivial rfl (by decide : (40000 : BitVec (8 * 2)) ≠ 0)
  obtain ⟨hchosen, -⟩ := reported_law .little (m := .ipv4 0x7f000001 0) trivial rfl hnamed
  exact ⟨_, _, rfl, rfl, hequal.mpr hreports, hpath _ rfl hreports, fun heq => hchosen.mp heq rfl⟩

end Address

end Will
