/-
ZjhServer/Address/Lookup.lean

How `Address::Lookup` (server/address.cc) splits a host into the node and the service it
hands to `getaddrinfo`.

The string is read through pointers into `c_str()`: a read behind the terminator makes the
whole run `none`.  The service is a position in the host, and the text from there on is what
`getaddrinfo` sees.  The two stages share `node` and `service`; the second one sets `service`
before it knows whether there is one colon only, so a bare IPv6 literal is handed over with the
text from its first colon on as its service (`lookup_law`).
-/
import Mathlib.Data.List.Count
import ZjhServer.Lib.CString

namespace Will

namespace Address

open CString

/-! ### The source -/

/-- The part on `ipv6address service`: `node` and `service` behind it. -/
def ipv6Stage (host : List Char) : Option (List Char × Option Nat) :=
  if host ≠ [] ∧ host[0]? = some '[' then do
    match ← memchr host 1 ']' (host.length - 1) with
    | some endipv6 =>
        -- at the end of the host this reads the terminator
        let c ← charAt host (endipv6 + 1)
        some ((host.drop 1).take (endipv6 - 1), if c = ':' then some (endipv6 + 2) else none)
    | none => some ([], none)
  else some ([], none)

/-- The part on `node service`. -/
def nodeStage (host : List Char) (st : List Char × Option Nat) :
    Option (List Char × Option Nat) :=
  if st.1 = [] then do
    match ← memchr host 0 ':' host.length with
    | some service =>
        match ← memchr host (service + 1) ':' (host.length - service - 1) with
        | none => some (host.take service, some (service + 1))
        -- `service` is not set back
        | some _ => some ([], some service)
    | none => some ([], none)
  else some st

/-- What `Lookup` passes to `getaddrinfo`. -/
def lookupArgs (host : List Char) : Option (List Char × Option Nat) := do
  let st ← nodeStage host (← ipv6Stage host)
  some (if st.1 = [] then host else st.1, st.2)

/-! ### The stages -/

theorem ipv6Stage_skip {host : List Char} (h : host.head? ≠ some '[') :
    ipv6Stage host = some ([], none) := by
  rw [ipv6Stage, if_neg]
  rintro ⟨-, h0⟩
  rw [← List.head?_eq_getElem?] at h0
  exact h h0

theorem ipv6Stage_open {t : List Char} (h : ']' ∉ t) :
    ipv6Stage ('[' :: t) = some ([], none) := by
  rw [ipv6Stage, if_pos ⟨List.cons_ne_nil _ _, rfl⟩,
    show ('[' :: t).length - 1 = t.length from rfl,
    show memchr ('[' :: t) 1 ']' t.length = some none from memchr_none h ['[']]
  rfl

theorem ipv6Stage_close {x : List Char} (h : ']' ∉ x) (t : List Char) :
    ipv6Stage ('[' :: (x ++ ']' :: t)) =
      some (x, if t.head? = some ':' then some (x.length + 3) else none) := by
  have hfind : memchr ('[' :: (x ++ ']' :: t)) 1 ']' (x ++ ']' :: t).length =
      some (some (1 + x.length)) := memchr_some h ['['] t
  have hnext : charAt ('[' :: (x ++ ']' :: t)) (1 + x.length + 1) =
      some (t.head?.getD '\x00') := by
    have hsplit : '[' :: (x ++ ']' :: t) = ('[' :: (x ++ [']'])) ++ t := by simp
    have hlen : 1 + x.length + 1 = ('[' :: (x ++ [']'])).length := by simp; omega
    rw [hsplit, hlen]
    cases t with
    | nil => rw [List.append_nil, charAt_end]; rfl
    | cons c t => rw [charAt_append]; rfl
  rw [ipv6Stage, if_pos ⟨List.cons_ne_nil _ _, rfl⟩,
    show ('[' :: (x ++ ']' :: t)).length - 1 = (x ++ ']' :: t).length from rfl, hfind]
  show (charAt _ (1 + x.length + 1) >>= fun c => _) = _
  rw [hnext]
  have hnode : (('[' :: (x ++ ']' :: t)).drop 1).take (1 + x.length - 1) = x := by
    rw [Nat.add_sub_cancel_left, List.drop_one, List.tail_cons, List.take_left]
  have hservice : t.head?.getD '\x00' = ':' ↔ t.head? = some ':' := by
    cases t with
    | nil => decide
    | cons c t => simp
  show some (_, if t.head?.getD '\x00' = ':' then some (1 + x.length + 2) else none) = _
  rw [hnode, if_congr hservice (by rw [show 1 + x.length + 2 = x.length + 3 by omega]) rfl]

/-- A node from the first part is kept. -/
theorem nodeStage_keep {node : List Char} (h : node ≠ []) (host : List Char)
    (service : Option Nat) : nodeStage host (node, service) = some (node, service) := by
  rw [nodeStage, if_neg h]

theorem nodeStage_none {host : List Char} (h : ':' ∉ host) (service : Option Nat) :
    nodeStage host ([], service) = some ([], none) := by
  rw [nodeStage, if_pos rfl, show memchr host 0 ':' host.length = some none from memchr_none h []]
  rfl

theorem nodeStage_one {n s : List Char} (hn : ':' ∉ n) (hs : ':' ∉ s) (service : Option Nat) :
    nodeStage (n ++ ':' :: s) ([], service) = some (n, some (n.length + 1)) := by
  have hfind : memchr (n ++ ':' :: s) 0 ':' (n ++ ':' :: s).length = some (some n.length) := by
    have h := memchr_some hn [] s
    rwa [List.length_nil, Nat.zero_add] at h
  have hrest : memchr (n ++ ':' :: s) (n.length + 1) ':'
      ((n ++ ':' :: s).length - n.length - 1) = some none := by
    have h := memchr_none hs (n ++ [':'])
    rw [List.append_assoc, List.singleton_append, List.length_append] at h
    rw [List.length_append, Nat.add_sub_cancel_left]
    exact h
  rw [nodeStage, if_pos rfl, hfind]
  show (memchr _ (n.length + 1) ':' _ >>= fun r => _) = _
  rw [hrest]
  show some ((n ++ ':' :: s).take n.length, some (n.length + 1)) = _
  rw [List.take_left]

/-- The slip: with a second colon, `service` stays where the first one was found. -/
theorem nodeStage_more {n s : List Char} (hn : ':' ∉ n) (hs : ':' ∈ s) (service : Option Nat) :
    nodeStage (n ++ ':' :: s) ([], service) = some ([], some n.length) := by
  obtain ⟨m, u, rfl, hm⟩ := List.eq_append_cons_of_mem hs
  have hfind : memchr (n ++ ':' :: (m ++ ':' :: u)) 0 ':' (n ++ ':' :: (m ++ ':' :: u)).length =
      some (some n.length) := by
    have h := memchr_some hn [] (m ++ ':' :: u)
    rwa [List.length_nil, Nat.zero_add] at h
  have hrest : memchr (n ++ ':' :: (m ++ ':' :: u)) (n.length + 1) ':'
      ((n ++ ':' :: (m ++ ':' :: u)).length - n.length - 1) =
        some (some (n.length + 1 + m.length)) := by
    have h := memchr_some hm (n ++ [':']) u
    rw [show (n ++ [':']).length = n.length + 1 from List.length_append, List.append_assoc,
      List.singleton_append] at h
    rw [List.length_append, Nat.add_sub_cancel_left]
    exact h
  rw [nodeStage, if_pos rfl, hfind]
  show (memchr _ (n.length + 1) ':' _ >>= fun r => _) = _
  rw [hrest]
  rfl

/-! ### The whole split -/

/-- Without a leading bracket the second part decides. -/
theorem lookupArgs_skip {host : List Char} (h : host.head? ≠ some '[') :
    lookupArgs host =
      (nodeStage host ([], none)).map fun st => (if st.1 = [] then host else st.1, st.2) := by
  rw [lookupArgs, ipv6Stage_skip h]
  cases hst : nodeStage host ([], none) with
  | none => show nodeStage host ([], none) >>= _ = _; rw [hst]; rfl
  | some st => show nodeStage host ([], none) >>= _ = _; rw [hst]; rfl

theorem lookupArgs_close {x : List Char} (hx : x ≠ []) (h : ']' ∉ x) (t : List Char) :
    lookupArgs ('[' :: (x ++ ']' :: t)) =
      some (x, if t.head? = some ':' then some (x.length + 3) else none) := by
  rw [lookupArgs, ipv6Stage_close h]
  show nodeStage _ (x, _) >>= _ = _
  rw [nodeStage_keep hx]
  show some (if x = [] then _ else x, _) = _
  rw [if_neg hx]

/-- What the second part makes of a string. -/
theorem nodeStage_total (host : List Char) (service : Option Nat) :
    ∃ node service', nodeStage host ([], service) = some (node, service') ∧
      ∀ p ∈ service', p ≤ host.length := by
  by_cases hcolon : ':' ∈ host
  · obtain ⟨n, s, rfl, hn⟩ := List.eq_append_cons_of_mem hcolon
    by_cases hs : ':' ∈ s
    · refine ⟨[], some n.length, nodeStage_more hn hs service, ?_⟩
      rintro p ⟨⟩
      simp
    · refine ⟨n, some (n.length + 1), nodeStage_one hn hs service, ?_⟩
      rintro p ⟨⟩
      simp
  · exact ⟨[], none, nodeStage_none hcolon service, fun p hp => by cases hp⟩

/-- **No read leaves the string**, and the service that is handed over begins inside it. -/
theorem lookupArgs_total (host : List Char) :
    ∃ node service, lookupArgs host = some (node, service) ∧ ∀ p ∈ service, p ≤ host.length := by
  -- a stage that leaves no node leaves the decision to the second one
  have hpass : ∀ service, ipv6Stage host = some ([], service) →
      ∃ node service, lookupArgs host = some (node, service) ∧
        ∀ p ∈ service, p ≤ host.length := by
    intro service hstage
    obtain ⟨node, service', hnode, hle⟩ := nodeStage_total host service
    refine ⟨if node = [] then host else node, service', ?_, hle⟩
    rw [lookupArgs, hstage]
    show nodeStage host ([], service) >>= _ = _
    rw [hnode]
    rfl
  by_cases hopen : host.head? = some '['
  · obtain ⟨t, rfl⟩ : ∃ t, host = '[' :: t := by
      cases host with
      | nil => cases hopen
      | cons c t => exact ⟨t, by rw [List.head?_cons, Option.some.injEq] at hopen; rw [hopen]⟩
    by_cases hclose : ']' ∈ t
    · obtain ⟨x, u, rfl, hx⟩ := List.eq_append_cons_of_mem hclose
      by_cases hnil : x = []
      · -- `[]` leaves no node
        subst hnil
        exact hpass _ (ipv6Stage_close hx u)
      · refine ⟨x, _, lookupArgs_close hnil hx u, ?_⟩
        intro p hp
        split_ifs at hp with hu
        · obtain rfl := Option.mem_some_iff.mp hp
          cases u with
          | nil => cases hu
          | cons c u => rw [List.length_cons, List.length_append]; simp
        · cases hp
    · exact hpass _ (ipv6Stage_open hclose)
  · exact hpass _ (ipv6Stage_skip hopen)

/-- Which node and which service the forms of a host stand for. -/
structure HostLaw (host node : List Char) (service : Option (List Char)) : Prop where
  bracketed_service : ∀ x s, x ≠ [] → ']' ∉ x → host = '[' :: (x ++ ']' :: ':' :: s) →
    node = x ∧ service = some s
  bracketed : ∀ x, x ≠ [] → ']' ∉ x → host = '[' :: (x ++ [']']) → node = x ∧ service = none
  named : ∀ n s, n ≠ [] → ':' ∉ n → ':' ∉ s → host.head? ≠ some '[' → host = n ++ ':' :: s →
    node = n ∧ service = some s
  plain : '[' ∉ host → ']' ∉ host → host.count ':' = 0 → node = host ∧ service = none
  bare : '[' ∉ host → ']' ∉ host → 2 ≤ host.count ':' → node = host ∧ service = none

/-- The hosts that are taken apart wrongly: no bracket, and more colons than one. -/
def Bare (host : List Char) : Prop := '[' ∉ host ∧ ']' ∉ host ∧ 2 ≤ host.count ':'

theorem head_ne_of_not_mem {host : List Char} (h : '[' ∉ host) : host.head? ≠ some '[' :=
  fun hhead => h (List.mem_of_mem_head? (by rw [hhead]; rfl))

theorem lookupArgs_bare {host : List Char} (h : Bare host) :
    ∃ p, lookupArgs host = some (host, some p) := by
  obtain ⟨hopen, -, hcount⟩ := h
  have hcolon : ':' ∈ host := List.count_pos_iff.mp (by omega)
  obtain ⟨n, s, rfl, hn⟩ := List.eq_append_cons_of_mem hcolon
  have hs : ':' ∈ s := by
    rw [List.count_append, List.count_eq_zero_of_not_mem hn, List.count_cons_self] at hcount
    exact List.count_pos_iff.mp (by omega)
  refine ⟨n.length, ?_⟩
  rw [lookupArgs_skip (head_ne_of_not_mem hopen), nodeStage_more hn hs]
  rfl

/-- **The split of a host.**  Every host is split without a read behind its terminator, and it
is split as its form says if and only if it is not a bare literal with several colons. -/
theorem lookup_law (host : List Char) :
    ∃ node service, lookupArgs host = some (node, service) ∧
      (∀ p ∈ service, p ≤ host.length) ∧
      (HostLaw host node (service.map host.drop) ↔ ¬Bare host) := by
  obtain ⟨node, service, hargs, hle⟩ := lookupArgs_total host
  refine ⟨node, service, hargs, hle, ?_, ?_⟩
  · -- a bare literal is handed over with a service
    intro hlaw hbare
    obtain ⟨p, hp⟩ := lookupArgs_bare hbare
    obtain ⟨-, hnone⟩ := hlaw.bare hbare.1 hbare.2.1 hbare.2.2
    rw [hp] at hargs
    cases hargs
    cases hnone
  · intro hbare
    refine ⟨?_, ?_, ?_, ?_, ?_⟩
    · rintro x s hx hclose rfl
      have hsplit : '[' :: (x ++ ']' :: ':' :: s) = ('[' :: (x ++ [']', ':'])) ++ s := by simp
      have hlen : x.length + 3 = ('[' :: (x ++ [']', ':'])).length := by simp
      have hdrop : List.drop (x.length + 3) ('[' :: (x ++ ']' :: ':' :: s)) = s := by
        rw [hsplit, hlen, List.drop_left]
      rw [lookupArgs_close hx hclose] at hargs
      cases hargs
      exact ⟨rfl, congrArg some hdrop⟩
    · rintro x hx hclose rfl
      rw [lookupArgs_close hx hclose] at hargs
      cases hargs
      exact ⟨rfl, rfl⟩
    · rintro n s hn hcolon hcolons hopen rfl
      rw [lookupArgs_skip hopen, nodeStage_one hcolon hcolons, Option.map_some, if_neg hn] at hargs
      cases hargs
      refine ⟨rfl, ?_⟩
      show some (List.drop (n.length + 1) _) = some s
      rw [← List.drop_drop, List.drop_left, List.drop_one, List.tail_cons]
    · intro hopen _ hcount
      rw [lookupArgs_skip (head_ne_of_not_mem hopen),
        nodeStage_none (List.count_eq_zero.mp hcount)] at hargs
      cases hargs
      exact ⟨rfl, rfl⟩
    · intro hopen hclose hcount
      exact absurd ⟨hopen, hclose, hcount⟩ hbare

/-- The loopback address, without brackets: `::1` is handed over as a service too. -/
theorem lookup_loopback :
    ¬∃ node service, lookupArgs "::1".toList = some (node, service) ∧
      (∀ p ∈ service, p ≤ "::1".toList.length) ∧
      HostLaw "::1".toList node (service.map "::1".toList.drop) := by
  rintro ⟨node, service, hargs, -, hlaw⟩
  have hrun : lookupArgs "::1".toList = some ("::1".toList, some 0) := by decide
  rw [hrun] at hargs
  cases hargs
  obtain ⟨-, hnone⟩ := hlaw.bare (by decide) (by decide) (by decide)
  cases hnone

end Address

end Will
