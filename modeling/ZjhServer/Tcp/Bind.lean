/-
ZjhServer/Tcp/Bind.lean

`TcpServer::bind(addrs, fails)` (server/tcp_server.cc), over sequences of calls.

An address comes with what its socket answers to `bind` and `listen`.  The call should be
all or nothing (`Contract`).  It judges itself by the list of the caller, and on failure it
clears `m_socks`, not only what it has added; so a call keeps the contract exactly when
nothing is there that it could take for its own (`Clear`): no entry of the caller's list where
all goes well, no socket of an earlier call where something fails (`bind_contract_iff`).
-/
import Mathlib.Data.List.Basic
import Mathlib.Tactic.Common

namespace Will

namespace TcpServer

variable {A S : Type*}

/-! ### The source -/

/-- An address of a call, the socket `CreateTCP` makes for it, and what it answers. -/
structure Attempt (A S : Type*) where
  addr : A
  sock : S
  bind : Bool
  listen : Bool
  deriving DecidableEq, Repr

/-- What a call gets: the addresses, and the list the caller collects failures in. -/
structure Call (A S : Type*) where
  addrs : List (Attempt A S)
  fails : List A
  deriving DecidableEq, Repr

/-- What it leaves. -/
structure Done (A S : Type*) where
  result : Bool
  m_socks : List S
  fails : List A
  deriving DecidableEq, Repr

/-- The loop over the addresses. -/
def bindLoop : List (Attempt A S) → List S → List A → List S × List A
  | [], m_socks, fails => (m_socks, fails)
  | a :: addrs, m_socks, fails =>
      if !a.bind then bindLoop addrs m_socks (fails ++ [a.addr])
      else if !a.listen then bindLoop addrs m_socks (fails ++ [a.addr])
      else bindLoop addrs (m_socks ++ [a.sock]) fails

/-- `TcpServer::bind(addrs, fails)` -/
def bind (m_socks : List S) (call : Call A S) : Done A S :=
  let r := bindLoop call.addrs m_socks call.fails
  -- `m_socks.clear()`, with the sockets of earlier calls
  if r.2 ≠ [] then ⟨false, [], r.2⟩ else ⟨true, r.1, r.2⟩

/-- `TcpServer::bind(addr)` -/
def bindOne (m_socks : List S) (addr : Attempt A S) : Done A S := bind m_socks ⟨[addr], []⟩

/-! ### The contract -/

/-- The address was bound and listened on. -/
def Attempt.ok (a : Attempt A S) : Bool := a.bind && a.listen

namespace Call

def AllOk (call : Call A S) : Prop := ∀ a ∈ call.addrs, a.ok = true

instance (call : Call A S) : Decidable call.AllOk :=
  inferInstanceAs (Decidable (∀ a ∈ call.addrs, a.ok = true))

def socks (call : Call A S) : List S := (call.addrs.filter Attempt.ok).map Attempt.sock

def failed (call : Call A S) : List A := (call.addrs.filter fun a => !a.ok).map Attempt.addr

theorem failed_eq_nil {call : Call A S} : call.failed = [] ↔ call.AllOk := by
  rw [failed, List.map_eq_nil_iff, List.filter_eq_nil_iff, AllOk]
  simp

theorem socks_of_allOk {call : Call A S} (h : call.AllOk) :
    call.socks = call.addrs.map Attempt.sock := by
  rw [socks, List.filter_eq_self.mpr h]

end Call

/-- **All or nothing**: what a call should do to `m_socks` and to the list of its caller. -/
structure Contract (m_socks : List S) (call : Call A S) : Prop where
  result : (bind m_socks call).result = true ↔ call.AllOk
  bound : call.AllOk → (bind m_socks call).m_socks = m_socks ++ call.addrs.map Attempt.sock
  fails : ¬call.AllOk → (bind m_socks call).fails = call.fails ++ call.failed
  kept : ¬call.AllOk → (bind m_socks call).m_socks = m_socks

/-- A call that has nothing to mistake for its own. -/
def Clear (m_socks : List S) (call : Call A S) : Prop :=
  (call.AllOk → call.fails = []) ∧ (¬call.AllOk → m_socks = [])

theorem bindLoop_eq (addrs : List (Attempt A S)) (m_socks : List S) (fails : List A) :
    bindLoop addrs m_socks fails =
      (m_socks ++ (⟨addrs, fails⟩ : Call A S).socks,
        fails ++ (⟨addrs, fails⟩ : Call A S).failed) := by
  induction addrs generalizing m_socks fails with
  | nil => exact Prod.ext (List.append_nil _).symm (List.append_nil _).symm
  | cons a addrs ih =>
      rw [bindLoop]
      simp only [Call.socks, Call.failed] at ih ⊢
      cases hbind : a.bind with
      | false =>
          have hok : a.ok = false := by rw [Attempt.ok, hbind]; rfl
          rw [if_pos (by rfl), ih]
          simp [hok]
      | true =>
          cases hlisten : a.listen with
          | false =>
              have hok : a.ok = false := by rw [Attempt.ok, hbind, hlisten]; rfl
              rw [if_neg (by decide), if_pos (by rfl), ih]
              simp [hok]
          | true =>
              have hok : a.ok = true := by rw [Attempt.ok, hbind, hlisten]; rfl
              rw [if_neg (by decide), if_neg (by decide), ih]
              simp [hok]

/-- What a call leaves when its list of failures was empty and stays so. -/
theorem bind_of_nil {m_socks : List S} {call : Call A S} (h : call.fails ++ call.failed = []) :
    bind m_socks call = ⟨true, m_socks ++ call.socks, []⟩ := by
  have hloop := bindLoop_eq call.addrs m_socks call.fails
  rw [bind, hloop]
  show (if call.fails ++ call.failed ≠ [] then _ else _) = _
  rw [if_neg (not_not.mpr h), h]

theorem bind_of_ne {m_socks : List S} {call : Call A S} (h : call.fails ++ call.failed ≠ []) :
    bind m_socks call = ⟨false, [], call.fails ++ call.failed⟩ := by
  have hloop := bindLoop_eq call.addrs m_socks call.fails
  rw [bind, hloop]
  exact if_pos h

/-- One call. -/
theorem contract_iff (m_socks : List S) (call : Call A S) :
    Contract m_socks call ↔ Clear m_socks call := by
  by_cases hok : call.AllOk
  · have hfailed := Call.failed_eq_nil.mpr hok
    by_cases hfails : call.fails = []
    · have hbind : bind m_socks call = ⟨true, m_socks ++ call.socks, []⟩ :=
        bind_of_nil (by rw [hfails, hfailed]; rfl)
      refine iff_of_true ⟨?_, ?_, fun h => absurd hok h, fun h => absurd hok h⟩
        ⟨fun _ => hfails, fun h => absurd hok h⟩
      · rw [hbind]
        exact iff_of_true rfl hok
      · rw [hbind, Call.socks_of_allOk hok]
        exact fun _ => rfl
    · -- an entry from before the call makes it fail
      have hbind : bind m_socks call = ⟨false, [], call.fails ++ call.failed⟩ :=
        bind_of_ne (List.append_ne_nil_of_left_ne_nil hfails _)
      refine iff_of_false ?_ fun h => hfails (h.1 hok)
      intro h
      have hresult := h.result.mpr hok
      rw [hbind] at hresult
      cases hresult
  · have hne : call.fails ++ call.failed ≠ [] :=
      List.append_ne_nil_of_right_ne_nil _ fun h => hok (Call.failed_eq_nil.mp h)
    have hbind : bind m_socks call = ⟨false, [], call.fails ++ call.failed⟩ := bind_of_ne hne
    constructor
    · -- nothing is left in `m_socks`, so nothing may have been there
      intro h
      have hkept := h.kept hok
      rw [hbind] at hkept
      exact ⟨fun h => absurd h hok, fun _ => hkept.symm⟩
    · rintro ⟨-, hempty⟩
      refine ⟨?_, fun h => absurd h hok, ?_, ?_⟩
      · rw [hbind]
        exact iff_of_false Bool.false_ne_true hok
      · rw [hbind]
        exact fun _ => rfl
      · rw [hbind, hempty hok]
        exact fun _ => rfl

/-! ### Sequences of calls -/

/-- `P` holds of each call of a sequence and of the sockets there are before it. -/
def Along (P : List S → Call A S → Prop) : List S → List (Call A S) → Prop
  | _, [] => True
  | m_socks, call :: calls => P m_socks call ∧ Along P (bind m_socks call).m_socks calls

theorem Along.congr {P Q : List S → Call A S → Prop} (h : ∀ m call, P m call ↔ Q m call)
    (m_socks : List S) (calls : List (Call A S)) :
    Along P m_socks calls ↔ Along Q m_socks calls := by
  induction calls generalizing m_socks with
  | nil => exact Iff.rfl
  | cons call calls ih => exact and_congr (h m_socks call) (ih _)

/-- The sockets behind a sequence of calls. -/
def bindAll (m_socks : List S) (calls : List (Call A S)) : List S :=
  calls.foldl (fun m call => (bind m call).m_socks) m_socks

/-- Calls that keep the contract leave the sockets of those of them that succeed, in order. -/
theorem bindAll_of_contract {m_socks : List S} {calls : List (Call A S)}
    (h : Along Contract m_socks calls) :
    bindAll m_socks calls = m_socks ++
      (calls.filter fun call => decide call.AllOk).flatMap fun call =>
        call.addrs.map Attempt.sock := by
  induction calls generalizing m_socks with
  | nil => exact (List.append_nil _).symm
  | cons call calls ih =>
      obtain ⟨hcall, hcalls⟩ := h
      show bindAll (bind m_socks call).m_socks calls = _
      rw [ih hcalls]
      by_cases hok : call.AllOk
      · rw [List.filter_cons, if_pos (decide_eq_true hok), List.flatMap_cons, hcall.bound hok,
          List.append_assoc]
      · rw [List.filter_cons, if_neg (by simpa using hok), hcall.kept hok]

/-- **Bind is all or nothing** in a sequence of calls, whatever addresses they get and whatever
their sockets answer, if and only if each call finds the list of its caller empty where all its
addresses go well, and no socket of an earlier call where one fails. -/
theorem bind_contract_iff (calls : List (Call A S)) :
    Along Contract [] calls ↔ Along Clear [] calls :=
  Along.congr contract_iff [] calls

/-- The second call fails, and the socket of the first one is gone; or it is handed the list
with the failure of the first one. -/
theorem bind_drops :
    ¬Along Contract [] [⟨[⟨1, 'a', true, true⟩], []⟩, ⟨[⟨2, 'b', true, false⟩], []⟩] ∧
      ¬Along Contract [] [⟨[⟨1, 'a', false, false⟩], []⟩, ⟨[⟨2, 'b', true, true⟩], [1]⟩] := by
  constructor
  · rintro ⟨-, h, -⟩
    have hkept := h.kept fun hall => Bool.false_ne_true (hall _ List.mem_cons_self)
    have hrun : (bind ['a'] ⟨[⟨2, 'b', true, false⟩], []⟩).m_socks = [] := by decide
    exact List.cons_ne_nil _ _ (hkept.symm.trans hrun)
  · rintro ⟨-, h, -⟩
    have hresult := h.result.mpr fun a ha => by rw [List.mem_singleton.mp ha]; rfl
    exact Bool.false_ne_true hresult

end TcpServer

end Will
