/-
ZjhServer/Address/IPv6.lean

`IPv6Address` (server/address.cc): its constructor from 16 bytes, `Create` from a text, and
`insert`, which writes the text.

`insert` looks at each group once, with the group before it and a flag.  What it has written
after some groups is one of two shapes (`Written`): words without a zero among them, with zeros
pending, or the two sides of an elision.  At the end both are texts of the grammar, so what is
between the brackets is read back as the bytes it was written from, whatever the byte order
of the machine.
-/
import Mathlib.Data.Vector.Basic
import ZjhServer.Lib.Elided
import ZjhServer.Lib.Window
import ZjhServer.Lib.Wire

namespace Will

namespace IPv6Address

open Wire Window Elided

/-! ### The text grammar -/

def hexValue (c : Char) : Option Nat :=
  if '0' ≤ c ∧ c ≤ '9' then some (c.toNat - 48)
  else if 'a' ≤ c ∧ c ≤ 'f' then some (c.toNat - 87)
  else if 'A' ≤ c ∧ c ≤ 'F' then some (c.toNat - 55)
  else none

def hexDigits (v : Nat) (w : List Char) : Option Nat :=
  w.foldlM (fun v c => (hexValue c).map fun d => 16 * v + d) v

/-- A group: up to four hex digits. -/
def hexGroup (w : List Char) : Option Nat :=
  if w ≠ [] ∧ w.length ≤ 4 then hexDigits 0 w else none

/-- The two bytes of a group, in the order of the network. -/
def groupBytes (g : Nat) : List UInt8 := [UInt8.ofNat (g / 256), UInt8.ofNat (g % 256)]

/-- **The text representation of RFC 4291**: eight groups, or fewer and one `::`. -/
def Rfc4291 (text : List Char) (bytes : Vector UInt8 16) : Prop :=
  ∃ groups, Denotes ':' hexGroup 0 8 text groups ∧ bytes.toList = groups.flatMap groupBytes

/-! ### The source -/

structure sockaddr_in6 where
  sin6_family : UInt16
  sin6_port : BitVec (8 * 2)
  sin6_flowinfo : UInt32
  sin6_addr : Vector UInt8 16
  sin6_scope_id : UInt32
  deriving DecidableEq

def AF_INET6 : UInt16 := 10

def byteswapOnLittleEndian (host : Order) (t : BitVec (8 * 2)) : BitVec (8 * 2) :=
  match host with
  | .little => byteswap t
  | .big => t

/-- `IPv6Address(address, port)`: what is not set is zero. -/
def new (host : Order) (address : Vector UInt8 16) (port : BitVec (8 * 2)) : sockaddr_in6 where
  sin6_family := AF_INET6
  sin6_port := byteswapOnLittleEndian host port
  sin6_flowinfo := 0
  sin6_addr := address
  sin6_scope_id := 0

/-- `IPv6Address::Create`: `inet_pton` fills in the address or fails. -/
def Create (host : Order) (inet_pton : List Char → Option (Vector UInt8 16))
    (address : List Char) (port : BitVec (8 * 2)) : Option sockaddr_in6 :=
  match inet_pton address with
  | none => none
  | some sin6_addr => some {
      sin6_family := AF_INET6
      sin6_port := byteswapOnLittleEndian host port
      sin6_flowinfo := 0
      sin6_addr := sin6_addr
      sin6_scope_id := 0 }

/-- `((uint16_t *)s6_addr)[i]` -/
def addrAt (host : Order) (s6_addr : Vector UInt8 16) (i : Nat) : BitVec (8 * 2) :=
  ofMem host 2 (slice s6_addr.toList (2 * i) 2)

/-- `os << std::hex << (int)v` -/
def hex (v : Nat) : List Char := Nat.toDigits 16 v

/-- The body of the loop, over the text and `used_zeros`. -/
def insertStep (host : Order) (addr : Nat → BitVec (8 * 2)) (st : List Char × Bool) (i : Nat) :
    List Char × Bool :=
  if addr i = 0 ∧ st.2 = false then st
  else
    -- the first colon of an elision; the one before every group but the first is the second
    let st := if i ≠ 0 ∧ addr (i - 1) = 0 ∧ st.2 = false then (st.1 ++ [':'], true) else st
    let os := if i ≠ 0 then st.1 ++ [':'] else st.1
    (os ++ hex (byteswapOnLittleEndian host (addr i)).toNat, st.2)

/-- What `insert` writes between the brackets. -/
def insertText (host : Order) (addr : Nat → BitVec (8 * 2)) : List Char :=
  let st := (List.range 8).foldl (insertStep host addr) ([], false)
  if st.2 = false ∧ addr 7 = 0 then st.1 ++ [':', ':'] else st.1

def insert (host : Order) (m_addr : sockaddr_in6) : List Char :=
  ['['] ++ insertText host (addrAt host m_addr.sin6_addr) ++ [']', ':'] ++
    Nat.toDigits 10 (byteswapOnLittleEndian host m_addr.sin6_port).toNat

/-! ### Groups read back -/

theorem hexValue_digitChar : ∀ d < 16, hexValue (Nat.digitChar d) = some d := by decide

theorem hexDigits_toDigits (n : Nat) : hexDigits 0 (Nat.toDigits 16 n) = some n := by
  induction n using Nat.strong_induction_on with
  | _ n ih =>
      rw [Nat.toDigits_eq_if (by decide)]
      split_ifs with hlt
      · show (hexValue (Nat.digitChar n)).map _ >>= pure = _
        rw [hexValue_digitChar n hlt]
        simp
      · have hdigit := hexValue_digitChar (n % 16) (Nat.mod_lt n (by decide))
        rw [hexDigits, List.foldlM_append, ← hexDigits, ih (n / 16) (by omega)]
        show (hexValue (Nat.digitChar (n % 16))).map _ >>= pure = _
        rw [hdigit]
        show some (16 * (n / 16) + n % 16) = some n
        rw [Nat.div_add_mod]

/-- What is printed of a 16 bit group is a group of that value. -/
theorem hexGroup_hex {v : Nat} (hv : v < 65536) : hexGroup (hex v) = some v := by
  have hlen : (Nat.toDigits 16 v).length ≤ 4 :=
    (Nat.length_toDigits_le_iff (by decide) (by decide)).mpr hv
  rw [hexGroup, if_pos ⟨Nat.toDigits_ne_nil, hlen⟩]
  exact hexDigits_toDigits v

theorem hexDigits_all {v u : Nat} {w : List Char} (h : hexDigits v w = some u) :
    ∀ c ∈ w, (hexValue c).isSome := by
  induction w generalizing v with
  | nil => exact fun c hc => absurd hc List.not_mem_nil
  | cons c w ih =>
      have hstep : ((hexValue c).map fun d => 16 * v + d) >>= (hexDigits · w) = some u := by
        rw [hexDigits, List.foldlM_cons] at h
        exact h
      cases hc : hexValue c with
      | none =>
          rw [hc] at hstep
          cases hstep
      | some d =>
          rw [hc] at hstep
          intro b hb
          rcases List.mem_cons.mp hb with rfl | hb
          · rw [hc]
            rfl
          · exact ih hstep b hb

theorem hexGroup_tokens : Tokens ':' hexGroup := by
  intro w v h
  rw [hexGroup] at h
  split_ifs at h with hw
  · refine ⟨hw.1, fun hmem => ?_⟩
    exact absurd (hexDigits_all h ':' hmem) (by decide)

/-! ### The loop -/

section Step

variable {host : Order} {addr : Nat → BitVec (8 * 2)} {i : Nat} {os : List Char}
  {used_zeros : Bool}

/-- `continue` -/
theorem insertStep_skip (h : addr i = 0) : insertStep host addr (os, false) i = (os, false) := by
  rw [insertStep, if_pos ⟨h, rfl⟩]

theorem insertStep_first (h : addr 0 ≠ 0) :
    insertStep host addr (os, false) 0 =
      (os ++ hex (byteswapOnLittleEndian host (addr 0)).toNat, false) := by
  rw [insertStep, if_neg fun hc => h hc.1]
  simp only [ne_eq, not_true_eq_false, false_and, if_false]

theorem insertStep_next (hi : i ≠ 0) (h : addr i ≠ 0 ∨ used_zeros = true)
    (hprev : addr (i - 1) ≠ 0 ∨ used_zeros = true) :
    insertStep host addr (os, used_zeros) i =
      (os ++ ':' :: hex (byteswapOnLittleEndian host (addr i)).toNat, used_zeros) := by
  have hnot : ∀ j, addr j ≠ 0 ∨ used_zeros = true → ¬(addr j = 0 ∧ used_zeros = false) := by
    rintro j (hj | hj) ⟨h0, hused⟩
    · exact hj h0
    · exact Bool.noConfusion (hj.symm.trans hused)
  rw [insertStep, if_neg (hnot i h), if_neg fun hc => hnot (i - 1) hprev hc.2]
  simp only [if_pos hi, List.append_assoc, List.singleton_append]

theorem insertStep_elide (hi : i ≠ 0) (h : addr i ≠ 0) (hprev : addr (i - 1) = 0) :
    insertStep host addr (os, false) i =
      (os ++ ':' :: ':' :: hex (byteswapOnLittleEndian host (addr i)).toNat, true) := by
  rw [insertStep, if_neg fun hc => h hc.1, if_pos ⟨hi, hprev, rfl⟩]
  simp only [if_pos hi, List.append_assoc, List.cons_append, List.nil_append]

end Step

/-- What is written of the groups `vs`. -/
inductive Written : List Nat → List Char × Bool → Prop
  | plain {l} (k : Nat) : (∀ v ∈ l, v ≠ 0) →
      Written (l ++ List.replicate k 0) (join ':' (l.map hex), false)
  | elided {l r} (k : Nat) : r ≠ [] →
      Written (l ++ List.replicate (k + 1) 0 ++ r)
        (join ':' (l.map hex) ++ ':' :: ':' :: join ':' (r.map hex), true)

/-- Behind an elision every group is written. -/
theorem Written.next_elided {host : Order} {addr : Nat → BitVec (8 * 2)} {l r : List Nat}
    {i k : Nat} (hr : r ≠ []) (hi : i ≠ 0) :
    Written (l ++ List.replicate (k + 1) 0 ++ r ++
        [(byteswapOnLittleEndian host (addr i)).toNat])
      (insertStep host addr
        (join ':' (l.map hex) ++ ':' :: ':' :: join ':' (r.map hex), true) i) := by
  have helided := Written.elided (l := l) k
    (List.append_ne_nil_of_left_ne_nil hr [(byteswapOnLittleEndian host (addr i)).toNat])
  rw [List.map_append, List.map_singleton,
    join_concat fun h => hr (List.map_eq_nil_iff.mp h)] at helided
  rw [insertStep_next hi (.inr rfl) (.inr rfl)]
  simpa only [List.append_assoc, List.cons_append] using helided

/-- Without one, a group that is not zero is written behind the others. -/
theorem Written.next_plain {host : Order} {addr : Nat → BitVec (8 * 2)} {l : List Nat}
    (hl : ∀ v ∈ l, v ≠ 0) (h0 : addr l.length ≠ 0)
    (hg : (byteswapOnLittleEndian host (addr l.length)).toNat ≠ 0)
    (hprev : l ≠ [] → addr (l.length - 1) ≠ 0) :
    Written (l ++ [(byteswapOnLittleEndian host (addr l.length)).toNat])
      (insertStep host addr (join ':' (l.map hex), false) l.length) := by
  have hplain := Written.plain (l := l ++ [(byteswapOnLittleEndian host (addr l.length)).toNat]) 0
    (by
      intro v hv
      rcases List.mem_append.mp hv with hv | hv
      · exact hl v hv
      · rw [List.mem_singleton.mp hv]
        exact hg)
  rw [List.replicate_zero, List.append_nil, List.map_append, List.map_singleton] at hplain
  by_cases hnil : l = []
  · subst hnil
    rw [List.length_nil, insertStep_first h0]
    rw [List.map_nil, List.nil_append, List.nil_append, join_singleton] at hplain
    exact hplain
  · have hlen : l.length ≠ 0 := fun h => hnil (List.length_eq_zero_iff.mp h)
    rw [insertStep_next hlen (.inl h0) (.inl (hprev hnil)),
      ← join_concat fun h => hnil (List.map_eq_nil_iff.mp h)]
    exact hplain

/-- Zeros that are pending are left out when a group that is not zero comes. -/
theorem Written.elide {host : Order} {addr : Nat → BitVec (8 * 2)} {l : List Nat} {i k : Nat}
    (hi : i ≠ 0) (h0 : addr i ≠ 0) (hprev : addr (i - 1) = 0) :
    Written (l ++ List.replicate (k + 1) 0 ++
        [(byteswapOnLittleEndian host (addr i)).toNat])
      (insertStep host addr (join ':' (l.map hex), false) i) := by
  rw [insertStep_elide hi h0 hprev]
  have helided := Written.elided (l := l) k
    (List.cons_ne_nil (byteswapOnLittleEndian host (addr i)).toNat [])
  rwa [List.map_singleton, join_singleton] at helided

/-- One turn of the loop writes one more group. -/
theorem Written.step {host : Order} (addr : Nat → BitVec (8 * 2)) {vs : List Nat}
    {st : List Char × Bool} (h : Written vs st)
    (hzero : ∀ i, addr i = 0 ↔ (byteswapOnLittleEndian host (addr i)).toNat = 0)
    (hprev : vs ≠ [] → (addr (vs.length - 1) = 0 ↔ vs.getLast? = some 0)) :
    Written (vs ++ [(byteswapOnLittleEndian host (addr vs.length)).toNat])
      (insertStep host addr st vs.length) := by
  have hpos : vs ≠ [] → vs.length ≠ 0 := fun hne h0 => hne (List.length_eq_zero_iff.mp h0)
  by_cases h0 : addr vs.length = 0
  · cases h with
    | @plain l k hl =>
        -- one more zero is pending
        rw [insertStep_skip h0, (hzero _).mp h0, List.append_assoc,
          show List.replicate k 0 ++ [0] = List.replicate (k + 1) 0 from
            List.replicate_succ'.symm]
        exact .plain (k + 1) hl
    | @elided l r k hr => exact .next_elided hr (hpos (by simp))
  · have hne : (byteswapOnLittleEndian host (addr vs.length)).toNat ≠ 0 :=
      fun hg => h0 ((hzero _).mpr hg)
    cases h with
    | @plain l k hl =>
        cases k with
        | zero =>
            rw [List.replicate_zero, List.append_nil] at hprev h0 hne ⊢
            -- no zero is pending, so the group before is none
            refine .next_plain hl h0 hne fun hnil hlast => ?_
            exact hl 0 (List.mem_of_getLast? ((hprev hnil).mp hlast)) rfl
        | succ k =>
            have hvs : l ++ List.replicate (k + 1) 0 ≠ [] := by simp
            refine .elide (hpos hvs) h0 ((hprev hvs).mpr ?_)
            rw [List.replicate_succ', ← List.append_assoc, List.getLast?_concat]
    | @elided l r k hr => exact .next_elided hr (hpos (by simp))

/-! ### The whole text -/

theorem byteswapOnLittleEndian_eq_zero (host : Order) (t : BitVec (8 * 2)) :
    t = 0 ↔ (byteswapOnLittleEndian host t).toNat = 0 := by
  have hswap : byteswapOnLittleEndian host (byteswapOnLittleEndian host t) = t := by
    cases host
    · exact byteswap_byteswap t
    · rfl
  have hzero : byteswapOnLittleEndian host 0 = 0 := by cases host <;> decide
  constructor
  · rintro rfl
    rw [hzero]
    rfl
  · intro h
    have h0 : byteswapOnLittleEndian host t = 0 := BitVec.eq_of_toNat_eq h
    rw [← hswap, h0, hzero]

/-- The value of a group. -/
def group (host : Order) (addr : Nat → BitVec (8 * 2)) (i : Nat) : Nat :=
  (byteswapOnLittleEndian host (addr i)).toNat

theorem getLast_groups (host : Order) (addr : Nat → BitVec (8 * 2)) {n : Nat} (hn : n ≠ 0) :
    addr (n - 1) = 0 ↔ ((List.range n).map (group host addr)).getLast? = some 0 := by
  obtain ⟨m, rfl⟩ := Nat.exists_eq_succ_of_ne_zero hn
  rw [List.range_succ, List.map_append, List.map_singleton, List.getLast?_concat,
    Nat.succ_sub_one, byteswapOnLittleEndian_eq_zero host, Option.some.injEq]
  rfl

/-- What the loop has written after `n` turns. -/
theorem written_loop (host : Order) (addr : Nat → BitVec (8 * 2)) (n : Nat) :
    Written ((List.range n).map (group host addr))
      ((List.range n).foldl (insertStep host addr) ([], false)) := by
  induction n with
  | zero => exact .plain 0 fun v hv => absurd hv List.not_mem_nil
  | succ n ih =>
      have hlen : ((List.range n).map (group host addr)).length = n := by simp
      rw [List.range_succ, List.map_append, List.foldl_append]
      have hstep := ih.step addr
        (fun i => byteswapOnLittleEndian_eq_zero host (addr i)) fun hne => by
          rw [hlen]
          refine getLast_groups host addr ?_
          rintro rfl
          exact hne rfl
      rw [hlen] at hstep
      exact hstep

theorem scans_hex {l : List Nat} (h : ∀ v ∈ l, v < 65536) : Scans hexGroup (l.map hex) l := by
  rw [Scans, List.forall₂_map_left_iff, List.forall₂_same]
  exact fun v hv => hexGroup_hex (h v hv)

/-- Eight groups that are written are a text of the grammar. -/
theorem Written.denotes {addr : Nat → BitVec (8 * 2)} {vs : List Nat} {st : List Char × Bool}
    (h : Written vs st) (hlen : vs.length = 8) (hsmall : ∀ v ∈ vs, v < 65536)
    (hlast : addr 7 = 0 ↔ vs.getLast? = some 0) :
    Denotes ':' hexGroup 0 8
      (if st.2 = false ∧ addr 7 = 0 then st.1 ++ [':', ':'] else st.1) vs := by
  cases h with
  | @plain l k hl =>
      cases k with
      | zero =>
          rw [List.replicate_zero, List.append_nil] at hlen hsmall hlast ⊢
          rw [if_neg]
          · exact .full (scans_hex hsmall) hlen
          · rintro ⟨-, h0⟩
            exact hl 0 (List.mem_of_getLast? (hlast.mp h0)) rfl
      | succ k =>
          -- zeros still pending at the end are what the last `::` stands for
          have h0 : addr 7 = 0 := by
            rw [hlast, List.replicate_succ', ← List.append_assoc, List.getLast?_concat]
          have hscan : Scans hexGroup (l.map hex) l :=
            scans_hex fun v hv => hsmall v (List.mem_append_left _ hv)
          rw [List.length_append, List.length_replicate] at hlen
          have helided : Denotes ':' hexGroup 0 8 _ _ :=
            .elided hscan .nil (by rw [List.length_nil]; omega)
          rw [List.length_nil, show 8 - (l.length + 0) = k + 1 by omega,
            List.append_nil] at helided
          rw [if_pos ⟨rfl, h0⟩]
          exact helided
  | @elided l r k hr =>
      have hscanl : Scans hexGroup (l.map hex) l := scans_hex fun v hv =>
        hsmall v (List.mem_append_left _ (List.mem_append_left _ hv))
      have hscanr : Scans hexGroup (r.map hex) r :=
        scans_hex fun v hv => hsmall v (List.mem_append_right _ hv)
      rw [List.length_append, List.length_append, List.length_replicate] at hlen
      have helided : Denotes ':' hexGroup 0 8 _ _ := .elided hscanl hscanr (by omega)
      rw [show 8 - (l.length + r.length) = k + 1 by omega] at helided
      rw [if_neg fun hc => Bool.noConfusion hc.1]
      exact helided

theorem groupBytes_eq (g : Nat) : groupBytes g = (leBytes 2 g).reverse := by
  show [UInt8.ofNat (g / 256), UInt8.ofNat (g % 256)] = [UInt8.ofNat (g / 256), UInt8.ofNat g]
  rw [show UInt8.ofNat (g % 256) = UInt8.ofNat g from UInt8.toNat_inj.mp (by simp)]

/-- The bytes of a group are the two bytes it was loaded from. -/
theorem groupBytes_ofMem (host : Order) {bs : List UInt8} (h : bs.length = 2) :
    groupBytes (byteswapOnLittleEndian host (ofMem host 2 bs)).toNat = bs := by
  -- on a little-endian machine the load and the swap undo each other
  have hload : ∀ l : List UInt8, l.length = 2 →
      leBytes 2 (BitVec.ofNat (8 * 2) (ofLe l)).toNat = l := by
    intro l hl
    have hlt := ofLe_lt l
    have hback := leBytes_ofLe l
    rw [hl] at hlt hback
    rw [BitVec.toNat_ofNat, pow_bytes, Nat.mod_eq_of_lt hlt, hback]
  rw [groupBytes_eq]
  cases host
  · show (leBytes 2 (byteswap (ofMem .little 2 bs)).toNat).reverse = bs
    rw [leBytes_byteswap, List.reverse_reverse]
    exact hload bs h
  · show (leBytes 2 (ofMem .big 2 bs).toNat).reverse = bs
    rw [ofMem, hload bs.reverse (by rw [List.length_reverse, h]), List.reverse_reverse]

theorem flatMap_slices {α : Type*} (l : List α) (n : Nat) :
    (List.range n).flatMap (fun i => slice l (2 * i) 2) = slice l 0 (2 * n) := by
  induction n with
  | zero => rw [Nat.mul_zero, slice_zero]; rfl
  | succ n ih =>
      rw [List.range_succ, List.flatMap_append, ih, List.flatMap_singleton, Nat.mul_succ,
        slice_add, Nat.zero_add]

/-- The groups of an address have its bytes. -/
theorem flatMap_groups (host : Order) (address : Vector UInt8 16) :
    ((List.range 8).map (group host (addrAt host address))).flatMap groupBytes =
      address.toList := by
  have hlen : address.toList.length = 16 := address.length_toList
  rw [List.flatMap_map]
  calc (List.range 8).flatMap (fun i => groupBytes (group host (addrAt host address) i))
      = (List.range 8).flatMap fun i => slice address.toList (2 * i) 2 := by
        refine List.flatMap_congr fun i hi => ?_
        rw [List.mem_range] at hi
        refine groupBytes_ofMem host ?_
        rw [length_slice, hlen]
        omega
    _ = slice address.toList 0 (2 * 8) := flatMap_slices _ 8
    _ = address.toList := by
        rw [slice, List.drop_zero, List.take_of_length_le (by rw [hlen])]

/-- **The text between the brackets reads as the address**, and as no other one. -/
theorem rfc4291_insertText (host : Order) (address bytes : Vector UInt8 16) :
    Rfc4291 (insertText host (addrAt host address)) bytes ↔ bytes = address := by
  have hdenotes : Denotes ':' hexGroup 0 8 (insertText host (addrAt host address))
      ((List.range 8).map (group host (addrAt host address))) := by
    refine (written_loop host (addrAt host address) 8).denotes (by simp) ?_
      (getLast_groups host _ (n := 8) (by decide))
    intro v hv
    obtain ⟨i, -, rfl⟩ := List.mem_map.mp hv
    exact (byteswapOnLittleEndian host _).isLt
  constructor
  · rintro ⟨groups, hgroups, hbytes⟩
    rw [hgroups.unique hexGroup_tokens (by decide) hdenotes, flatMap_groups] at hbytes
    exact Vector.toList_inj.mp hbytes
  · rintro rfl
    exact ⟨_, hdenotes, (flatMap_groups host bytes).symm⟩

/-- **IPv6 text is faithful.**  `insert` writes, between the brackets, a text with at most one
`::`, which the grammar reads as the 16 bytes of the address and as nothing else; and from
that text and the port `Create` makes the address again. -/
theorem insert_faithful (inet_pton : List Char → Option (Vector UInt8 16))
    (hinet_pton : ∀ text bytes, Rfc4291 text bytes → inet_pton text = some bytes)
    (host : Order) (address : Vector UInt8 16) (port : BitVec (8 * 2)) :
    ∃ text, insert host (new host address port) =
        ['['] ++ text ++ [']', ':'] ++ Nat.toDigits 10 port.toNat ∧
      doubles ':' text ≤ 1 ∧
      (∀ bytes, Rfc4291 text bytes ↔ bytes = address) ∧
      Create host inet_pton text port = some (new host address port) := by
  have hread := rfc4291_insertText host address
  refine ⟨insertText host (addrAt host address), ?_, ?_, hread, ?_⟩
  · have hport : byteswapOnLittleEndian host (byteswapOnLittleEndian host port) = port := by
      cases host
      · exact byteswap_byteswap port
      · rfl
    show _ ++ Nat.toDigits 10
      (byteswapOnLittleEndian host (byteswapOnLittleEndian host port)).toNat = _
    rw [hport]
    rfl
  · obtain ⟨groups, hgroups, -⟩ := (hread address).mpr rfl
    exact hgroups.doubles_le hexGroup_tokens
  · rw [Create, hinet_pton _ _ ((hread address).mpr rfl)]
    rfl

/-- An `inet_pton` that reads the grammar and nothing else. -/
def ptonRfc4291 (text : List Char) : Option (Vector UInt8 16) :=
  (parse ':' hexGroup 0 8 text).bind fun groups =>
    if h : (groups.flatMap groupBytes).length = 16 then
      some ⟨(groups.flatMap groupBytes).toArray, h⟩
    else none

theorem ptonRfc4291_reads (text : List Char) (bytes : Vector UInt8 16)
    (h : Rfc4291 text bytes) : ptonRfc4291 text = some bytes := by
  obtain ⟨groups, hgroups, hbytes⟩ := h
  have hlen : (groups.flatMap groupBytes).length = 16 := by
    rw [← hbytes]
    exact bytes.length_toList
  rw [ptonRfc4291, parse_of_denotes hexGroup_tokens (by decide) hgroups, Option.bind_some,
    dif_pos hlen]
  congr 1
  exact Vector.toList_inj.mp hbytes.symm

/-- `2001:db8::1:0`, with two runs of zeros. -/
theorem insert_faithful_doc :
    insert .little (new .little #v[0x20, 1, 0xd, 0xb8, 0, 0, 0, 0, 0, 0, 0, 0, 0, 1, 0, 0] 80) =
        "[2001:db8::1:0]:80".toList ∧
      ∃ text, insert .little
          (new .little #v[0x20, 1, 0xd, 0xb8, 0, 0, 0, 0, 0, 0, 0, 0, 0, 1, 0, 0] 80) =
          ['['] ++ text ++ [']', ':'] ++ Nat.toDigits 10 (80 : BitVec (8 * 2)).toNat ∧
        doubles ':' text ≤ 1 ∧
        (∀ bytes, Rfc4291 text bytes ↔
          bytes = #v[0x20, 1, 0xd, 0xb8, 0, 0, 0, 0, 0, 0, 0, 0, 0, 1, 0, 0]) ∧
        Create .little ptonRfc4291 text 80 =
          some (new .little #v[0x20, 1, 0xd, 0xb8, 0, 0, 0, 0, 0, 0, 0, 0, 0, 1, 0, 0] 80) :=
  ⟨by decide, insert_faithful ptonRfc4291 ptonRfc4291_reads .little _ 80⟩

end IPv6Address

end Will
