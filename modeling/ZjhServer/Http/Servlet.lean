/-
ZjhServer/Http/Servlet.lean

`ServletDispatch` (server/http/servlet.{h,cc}): the servlets of the exact uris, those of the
patterns in the order in which they are tried, and the servlet of what nothing answers.

A registration gives an entry a servlet, a deletion takes it away; so the calls made are the
journal of either table, and its live entries are what the table holds.  A pattern added again
is erased where it stands and appended: `live_append` of the journal is what `addGlobServlet`
does to `m_globs`, as long as no pattern stands there twice.
-/
import ZjhServer.Http.Request
import ZjhServer.Lib.Journal

namespace Will

namespace Http

/-! ### The source -/

/-- What `c_str()` shows of a string: its bytes before the first NUL. -/
def c_str (s : Bytes) : Bytes := s.takeWhile fun c => c ≠ 0

/-- A dispatch, over the servlets `S`. -/
structure ServletDispatch (S : Type) where
  m_datas : Bytes → Option S
  m_globs : List (Bytes × S)
  m_default : S

namespace ServletDispatch

variable {S : Type}

/-- `ServletDispatch()`, with the default servlet it makes or is given. -/
def new (dflt : S) : ServletDispatch S := { m_datas := fun _ => none, m_globs := [],
                                            m_default := dflt }

/-- The loop that erases the first entry of a pattern and breaks. -/
def eraseGlob (uri : Bytes) : List (Bytes × S) → List (Bytes × S)
  | [] => []
  | it :: globs => if it.1 = uri then globs else it :: eraseGlob uri globs

variable (d : ServletDispatch S) (uri : Bytes)

def addServlet (slt : S) : ServletDispatch S :=
  { d with m_datas := Function.update d.m_datas uri (some slt) }

def addGlobServlet (slt : S) : ServletDispatch S :=
  { d with m_globs := eraseGlob uri d.m_globs ++ [(uri, slt)] }

def delServlet : ServletDispatch S :=
  { d with m_datas := Function.update d.m_datas uri none }

def delGlobServlet : ServletDispatch S := { d with m_globs := eraseGlob uri d.m_globs }

def getServlet : Option S := d.m_datas uri

def getGlobServlet : Option S := (d.m_globs.find? fun it => it.1 = uri).map Prod.snd

/-- `!fnmatch(pattern.c_str(), uri.c_str(), 0)`, where `fnmatch` says whether it matches. -/
def matched (fnmatch : Bytes → Bytes → Bool) (pattern uri : Bytes) : Bool :=
  fnmatch (c_str pattern) (c_str uri)

def getMatchedServlet (fnmatch : Bytes → Bytes → Bool) : S :=
  match d.m_datas uri with
  | some slt => slt
  | none =>
      match d.m_globs.find? fun it2 => matched fnmatch it2.1 uri with
      | some it2 => it2.2
      | none => d.m_default

end ServletDispatch

/-! ### Calls and their journals -/

/-- A call that changes a table.  The overloads that take a callback make a `FunctionServlet`
of it, which is a servlet like any other. -/
inductive DispatchCall (S : Type)
  | addServlet (uri : Bytes) (slt : S)
  | addGlobServlet (uri : Bytes) (slt : S)
  | delServlet (uri : Bytes)
  | delGlobServlet (uri : Bytes)

namespace DispatchCall

variable {S : Type}

def apply (d : ServletDispatch S) : DispatchCall S → ServletDispatch S
  | addServlet uri slt => d.addServlet uri slt
  | addGlobServlet uri slt => d.addGlobServlet uri slt
  | delServlet uri => d.delServlet uri
  | delGlobServlet uri => d.delGlobServlet uri

/-- What a call writes about the exact uris. -/
def exactEntry : DispatchCall S → Option (Bytes × Option S)
  | addServlet uri slt => some (uri, some slt)
  | delServlet uri => some (uri, none)
  | addGlobServlet _ _ | delGlobServlet _ => none

/-- What a call writes about the patterns. -/
def globEntry : DispatchCall S → Option (Bytes × Option S)
  | addGlobServlet uri slt => some (uri, some slt)
  | delGlobServlet uri => some (uri, none)
  | addServlet _ _ | delServlet _ => none

/-- The entry of a call is the uri, or is a pattern that matches it. -/
def Concerns (fnmatch : Bytes → Bytes → Bool) (uri : Bytes) (c : DispatchCall S) : Prop :=
  (∃ e, c.exactEntry = some e ∧ e.1 = uri) ∨
    ∃ e, c.globEntry = some e ∧ ServletDispatch.matched fnmatch e.1 uri = true

/-- The dispatch behind a sequence of calls. -/
def after (dflt : S) (calls : List (DispatchCall S)) : ServletDispatch S :=
  calls.foldl apply (ServletDispatch.new dflt)

theorem after_append (dflt : S) (calls : List (DispatchCall S)) (c : DispatchCall S) :
    after dflt (calls ++ [c]) = apply (after dflt calls) c := by
  rw [after, List.foldl_append]
  rfl

end DispatchCall

/-- **What a uri is answered with**: the servlet that is live for just this uri; or that of the
first live pattern that matches, in the order of their registrations; or the default. -/
def dispatched {S : Type} (fnmatch : Bytes → Bytes → Bool) (dflt : S)
    (calls : List (DispatchCall S)) (uri : Bytes) : S :=
  let glob := (Journal.live (calls.filterMap DispatchCall.globEntry)).find? fun e =>
    ServletDispatch.matched fnmatch e.1 uri
  (Journal.lookup (calls.filterMap DispatchCall.exactEntry) uri).getD
    ((glob.map Prod.snd).getD dflt)

/-! ### The tables and the journals -/

section

variable {S : Type} (dflt : S) (calls : List (DispatchCall S))

open DispatchCall ServletDispatch

/-- Where no pattern stands twice, erasing the first is erasing all. -/
theorem eraseGlob_eq_filter {globs : List (Bytes × S)} (h : (globs.map Prod.fst).Nodup)
    (uri : Bytes) : eraseGlob uri globs = globs.filter fun e => e.1 ≠ uri := by
  induction globs with
  | nil => rfl
  | cons it globs ih =>
      obtain ⟨hnew, hrest⟩ := List.nodup_cons.mp h
      rw [eraseGlob]
      split_ifs with huri
      · rw [List.filter_cons_of_neg (by simpa using huri)]
        refine (List.filter_eq_self.mpr fun e he => ?_).symm
        have hne : e.1 ≠ it.1 := by
          intro heq
          exact hnew (heq ▸ List.mem_map_of_mem he)
        simpa [huri] using hne
      · rw [List.filter_cons_of_pos (by simpa using huri), ih hrest]

theorem filterMap_snoc {α β : Type} (f : α → Option β) (l : List α) (a : α) :
    (l ++ [a]).filterMap f = l.filterMap f ++ (f a).toList := by
  rw [List.filterMap_append]
  cases h : f a <;> simp [h]

/-- **The patterns**: those that are live, in the order of their registrations. -/
theorem m_globs_after : (after dflt calls).m_globs = Journal.live (calls.filterMap globEntry) := by
  induction calls using List.reverseRecOn with
  | nil => rfl
  | append_singleton calls c ih =>
      rw [after_append, filterMap_snoc]
      -- adding a pattern again erases it too, so it is no longer where it stood
      have herase : ∀ uri, eraseGlob uri (after dflt calls).m_globs =
          (Journal.live (calls.filterMap globEntry)).filter fun e => e.1 ≠ uri := by
        intro uri
        rw [ih]
        exact eraseGlob_eq_filter (Journal.live_nodup _) uri
      cases c with
      | addServlet uri slt =>
          show (after dflt calls).m_globs = _
          rw [ih]
          exact congrArg Journal.live (List.append_nil _).symm
      | delServlet uri =>
          show (after dflt calls).m_globs = _
          rw [ih]
          exact congrArg Journal.live (List.append_nil _).symm
      | addGlobServlet uri slt =>
          show eraseGlob uri (after dflt calls).m_globs ++ [(uri, slt)] = _
          rw [herase]
          exact (Journal.live_append _ uri (some slt)).symm
      | delGlobServlet uri =>
          show eraseGlob uri (after dflt calls).m_globs = _
          rw [herase]
          exact ((Journal.live_append _ uri none).trans (List.append_nil _)).symm

/-- **The exact uris**: what the last call of each says. -/
theorem m_datas_after (uri : Bytes) :
    (after dflt calls).m_datas uri = Journal.lookup (calls.filterMap exactEntry) uri := by
  induction calls using List.reverseRecOn with
  | nil => rfl
  | append_singleton calls c ih =>
      rw [after_append, filterMap_snoc]
      cases c with
      | addServlet key slt =>
          show Function.update (after dflt calls).m_datas key (some slt) uri = _
          rw [Function.update_apply, ih]
          refine Eq.trans ?_ (Journal.lookup_append _ key (some slt) uri).symm
          exact if_congr eq_comm rfl rfl
      | delServlet key =>
          show Function.update (after dflt calls).m_datas key none uri = _
          rw [Function.update_apply, ih]
          refine Eq.trans ?_ (Journal.lookup_append _ key none uri).symm
          exact if_congr eq_comm rfl rfl
      | addGlobServlet pattern slt =>
          show (after dflt calls).m_datas uri = _
          rw [ih]
          exact congrArg (Journal.lookup · uri) (List.append_nil _).symm
      | delGlobServlet pattern =>
          show (after dflt calls).m_datas uri = _
          rw [ih]
          exact congrArg (Journal.lookup · uri) (List.append_nil _).symm

theorem m_default_after : (after dflt calls).m_default = dflt := by
  induction calls using List.reverseRecOn with
  | nil => rfl
  | append_singleton calls c ih =>
      rw [after_append]
      cases c <;> exact ih

theorem getServlet_after (uri : Bytes) :
    (after dflt calls).getServlet uri = Journal.lookup (calls.filterMap exactEntry) uri :=
  m_datas_after dflt calls uri

theorem getGlobServlet_after (uri : Bytes) :
    (after dflt calls).getGlobServlet uri = Journal.lookup (calls.filterMap globEntry) uri := by
  rw [getGlobServlet, m_globs_after]
  rfl

/-! ### The answers -/

/-- A dispatch answers as its calls say. -/
theorem getMatchedServlet_after (fnmatch : Bytes → Bytes → Bool) (uri : Bytes) :
    (after dflt calls).getMatchedServlet uri fnmatch = dispatched fnmatch dflt calls uri := by
  rw [getMatchedServlet, dispatched, m_datas_after, m_globs_after, m_default_after]
  cases Journal.lookup (calls.filterMap exactEntry) uri with
  | some slt => rfl
  | none =>
      show (match (Journal.live (calls.filterMap globEntry)).find? fun e =>
        matched fnmatch e.1 uri with | some it2 => it2.2 | none => dflt) = _
      cases (Journal.live (calls.filterMap globEntry)).find? fun e =>
        matched fnmatch e.1 uri <;> rfl

/-- A pattern that does not match is not what answers, wherever it stands or stood. -/
theorem find_unmatched {q : Bytes → Bool} {pattern : Bytes} (h : q pattern = false)
    (globs : List (Bytes × S)) (slt : Option S) :
    (globs.filter (fun e => e.1 ≠ pattern) ++ (slt.map fun s => (pattern, s)).toList).find?
      (fun e => q e.1) = globs.find? fun e => q e.1 := by
  -- neither the entry that is erased nor the one that is appended is found
  have hnew : ((slt.map fun s => (pattern, s)).toList).find? (fun e => q e.1) = none := by
    cases slt with
    | none => rfl
    | some s => simp [h]
  rw [List.find?_append, hnew, Option.or_none, List.find?_filter]
  refine congrArg (globs.find? ·) ?_
  funext e
  by_cases he : e.1 = pattern
  · rw [he, h]
    simp
  · simp [he]

/-- **Frame**: a call about another entry changes no answer. -/
theorem dispatched_frame {fnmatch : Bytes → Bytes → Bool} {uri : Bytes} {c : DispatchCall S}
    (h : ¬c.Concerns fnmatch uri) :
    dispatched fnmatch dflt (calls ++ [c]) uri = dispatched fnmatch dflt calls uri := by
  have hexact : Journal.lookup ((calls ++ [c]).filterMap exactEntry) uri =
      Journal.lookup (calls.filterMap exactEntry) uri := by
    rw [filterMap_snoc]
    cases he : c.exactEntry with
    | none => exact congrArg (Journal.lookup · uri) (List.append_nil _)
    | some e =>
        obtain ⟨key, slt⟩ := e
        refine (Journal.lookup_append _ key slt uri).trans (if_neg fun hkey => ?_)
        exact h (Or.inl ⟨_, he, hkey⟩)
  have hglob : (Journal.live ((calls ++ [c]).filterMap globEntry)).find?
        (fun e => matched fnmatch e.1 uri) =
      (Journal.live (calls.filterMap globEntry)).find? fun e => matched fnmatch e.1 uri := by
    rw [filterMap_snoc]
    cases he : c.globEntry with
    | none => exact congrArg (fun l => (Journal.live l).find? _) (List.append_nil _)
    | some e =>
        obtain ⟨pattern, slt⟩ := e
        have hno : matched fnmatch pattern uri = false :=
          Bool.eq_false_iff.mpr fun hmatch => h (Or.inr ⟨_, he, hmatch⟩)
        rw [Option.toList_some, Journal.live_append]
        exact find_unmatched (q := fun p => matched fnmatch p uri) hno _ slt
  rw [dispatched, dispatched, hexact, hglob]

end

/-- **Dispatch refines its specification**: no pattern stands twice, every uri is answered as
the calls made say, and a call about an entry that neither is the uri nor matches it leaves its
answer as it was. -/
theorem ServletDispatch.dispatch_refines {S : Type} (fnmatch : Bytes → Bytes → Bool) (dflt : S)
    (calls : List (DispatchCall S)) (uri : Bytes) :
    ((DispatchCall.after dflt calls).m_globs.map Prod.fst).Nodup ∧
      (DispatchCall.after dflt calls).getMatchedServlet uri fnmatch =
        dispatched fnmatch dflt calls uri ∧
      ∀ c : DispatchCall S, ¬c.Concerns fnmatch uri →
        (DispatchCall.after dflt (calls ++ [c])).getMatchedServlet uri fnmatch =
          (DispatchCall.after dflt calls).getMatchedServlet uri fnmatch := by
  refine ⟨?_, getMatchedServlet_after dflt calls fnmatch uri, fun c hc => ?_⟩
  · rw [m_globs_after]
    exact Journal.live_nodup _
  · rw [getMatchedServlet_after, getMatchedServlet_after]
    exact dispatched_frame dflt calls hc

/-- The servlets 1 for the pattern "/*", 2 for "/a" and 3 for "/*" again, tried in this order;
the pattern is said to match everything. -/
example :
    let calls : List (DispatchCall Nat) :=
      [.addGlobServlet [47, 42] 1, .addServlet [47, 97] 2, .addGlobServlet [47, 42] 3]
    let d := DispatchCall.after 0 calls
    d.getMatchedServlet [47, 97] (fun _ _ => true) = 2 ∧
      d.getMatchedServlet [47] (fun _ _ => true) = 3 := by decide

end Http

end Will
