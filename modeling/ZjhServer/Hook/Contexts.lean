/-
ZjhServer/Hook/Contexts.lean

The table of descriptor contexts, `FdManager` (server/fd_manager.{h,cc}), shared by any
number of threads.

`get(fd, true)` looks a descriptor up under the read lock and, if it has no context,
creates one under the write lock, without looking again.  So two threads can find the
slot empty and both create: the second context replaces the first, and the settings
made through the first are lost (`two_contexts`).  In runs where each creation still
finds its slot empty, the calls between two `del(fd)` return one context, which has
all the settings made through it (`one_context`).
-/
import ZjhServer.Hook.Nonblock

namespace Will

namespace Hook

def SO_RCVTIMEO : Int := 20

def SO_SNDTIMEO : Int := 21

namespace FdCtx

def setTimeout (ctx : FdCtx) (type : Int) (v : BitVec 64) : FdCtx :=
  if type = SO_RCVTIMEO then { ctx with m_recvTimeout := v } else { ctx with m_sendTimeout := v }

def setUserNonblock (ctx : FdCtx) (v : Bool) : FdCtx := { ctx with m_userNonblock := v }

def setSysNonblock (ctx : FdCtx) (v : Bool) : FdCtx := { ctx with m_sysNonblock := v }

end FdCtx

namespace Contexts

/-! ### The table of pointers -/

/-- `m_datas`: the contexts, by their numbers in the heap. -/
abbrev Datas := Slots Nat

namespace Datas

def start : Datas := List.replicate 64 none

/-- `m_datas[fd] = ctx`, in a table that has the slot: it is resized to `fd * 1.5`. -/
def put (m_datas : Datas) (fd ctx : Nat) : Datas := Slots.fill m_datas (fd * 3 / 2) fd ctx

/-- `del(fd)` -/
def del (m_datas : Datas) (fd : Nat) : Datas :=
  if m_datas.length ≤ fd then m_datas else m_datas.set fd none

theorem start_get (fd : Nat) : Slots.get start fd = none := Slots.get_replicate 64 fd

/-- A table of at least 64 slots grows to have the slot asked for. -/
theorem put_spec {m_datas : Datas} (h : 64 ≤ m_datas.length) (fd ctx : Nat) :
    64 ≤ (m_datas.put fd ctx).length ∧ ∀ fd', Slots.get (m_datas.put fd ctx) fd' =
      if fd' = fd then some ctx else Slots.get m_datas fd' :=
  Slots.fill_spec h (fun hfd => by omega) ctx

theorem length_del (m_datas : Datas) (fd : Nat) : (m_datas.del fd).length = m_datas.length := by
  unfold del
  split_ifs
  · rfl
  · exact List.length_set

theorem get_del (m_datas : Datas) (fd fd' : Nat) :
    Slots.get (m_datas.del fd) fd' = if fd' = fd then none else Slots.get m_datas fd' := by
  unfold del
  split_ifs with hfd hsame hsame
  · rw [hsame]
    exact Slots.get_of_le hfd
  · rfl
  · rw [Slots.get_set (by omega), if_pos hsame]
  · rw [Slots.get_set (by omega), if_neg hsame]

end Datas

/-! ### Threads in `get` -/

/-- A call of one of the setters of a context. -/
inductive Setting
  | timeout (type : Int) (v : BitVec 64)
  | userNonblock (v : Bool)
  | sysNonblock (v : Bool)
  deriving DecidableEq, Repr

def Setting.apply (ctx : FdCtx) : Setting → FdCtx
  | .timeout type v => ctx.setTimeout type v
  | .userNonblock v => ctx.setUserNonblock v
  | .sysNonblock v => ctx.setSysNonblock v

structure State where
  kernel : Kernel
  m_datas : Datas
  heap : Nat → FdCtx
  /-- The number of contexts allocated so far. -/
  allocated : Nat
  /-- The threads in `get` that have released the read lock. -/
  creating : Nat → Option Nat
  /-- What the calls of `get(fd, true)` have returned since the last `del(fd)`. -/
  returned : Nat → List Nat
  /-- The settings made through one of these. -/
  settings : Nat → List Setting

namespace State

/-- What `get(fd, false)` returns. -/
def get (s : State) (fd : Nat) : Option Nat := Slots.get s.m_datas fd

/-- `get(fd, true)` returns `ctx`. -/
def give (s : State) (fd ctx : Nat) : State :=
  { s with returned := Function.update s.returned fd (ctx :: s.returned fd) }

/-- `get(fd, true)` under the write lock. -/
def create (s : State) (thread fd : Nat) : State :=
  let ctx := s.allocated
  let r := FdCtx.init s.kernel fd
  let s := { s with
    kernel := r.1
    heap := Function.update s.heap ctx r.2
    allocated := ctx + 1
    m_datas := s.m_datas.put fd ctx
    creating := Function.update s.creating thread none }
  s.give fd ctx

def del (s : State) (fd : Nat) : State :=
  { s with
    m_datas := s.m_datas.del fd
    returned := Function.update s.returned fd []
    settings := Function.update s.settings fd [] }

/-- A setter is called on a context, whoever has it. -/
def set (s : State) (ctx : Nat) (setting : Setting) : State :=
  { s with
    heap := Function.update s.heap ctx (setting.apply (s.heap ctx))
    settings := fun fd =>
      if ctx ∈ s.returned fd then s.settings fd ++ [setting] else s.settings fd }

end State

inductive Action
  /-- A call of `get`, until the read lock is released. -/
  | lookup (thread fd : Nat) (auto_create : Bool)
  /-- The rest of a call that has found nothing. -/
  | create (thread : Nat)
  | del (thread fd : Nat)
  | set (thread ctx : Nat) (setting : Setting)
  /-- Descriptors are opened and closed. -/
  | kernel (kernel : Kernel)

def step (s : State) : Action → Option State
  | .lookup thread fd auto_create =>
      if (s.creating thread).isSome then none
      else
        match s.get fd, auto_create with
        | _, false => some s
        | some ctx, true => some (s.give fd ctx)
        | none, true => some { s with creating := Function.update s.creating thread (some fd) }
  | .create thread => (s.creating thread).map fun fd => s.create thread fd
  | .del thread fd => if (s.creating thread).isSome then none else some (s.del fd)
  | .set thread ctx setting =>
      if (s.creating thread).isSome ∨ s.allocated ≤ ctx then none else some (s.set ctx setting)
  | .kernel kernel => some { s with kernel := kernel }

def start (kernel : Kernel) : State where
  kernel := kernel
  m_datas := .start
  heap := fun _ => socketCtx false
  allocated := 0
  creating := fun _ => none
  returned := fun _ => []
  settings := fun _ => []

/-! ### What is asked of the table -/

/-- Since the last `del(fd)`, the calls of `get(fd, true)` have returned one context; a
call of `get(fd, false)` returns it too; and it shows the settings made through it. -/
structure One (s : State) (fd : Nat) : Prop where
  same : ∀ ctx ∈ s.returned fd, ∀ ctx' ∈ s.returned fd, ctx' = ctx
  found : ∀ ctx ∈ s.returned fd, s.get fd = some ctx
  kept : ∀ ctx ∈ s.returned fd, ∃ kernel,
    s.heap ctx = (s.settings fd).foldl Setting.apply (FdCtx.init kernel fd).2

def Holds (s : State) : Prop := ∀ fd, One s fd

/-- A thread that creates a context still finds the slot empty. -/
def Fine (s : State) : Action → Prop
  | .create thread => ∀ fd, s.creating thread = some fd → s.get fd = none
  | _ => True

/-! ### The invariant -/

structure Inv (s : State) : Prop where
  size : 64 ≤ s.m_datas.length
  allocated : ∀ fd ctx, s.get fd = some ctx → ctx < s.allocated
  returned : ∀ fd ctx, ctx ∈ s.returned fd ↔ s.get fd = some ctx
  kept : ∀ fd ctx, s.get fd = some ctx → ∃ kernel,
    s.heap ctx = (s.settings fd).foldl Setting.apply (FdCtx.init kernel fd).2
  unset : ∀ fd, s.get fd = none → s.settings fd = []

theorem Inv.holds {s : State} (h : Inv s) : Holds s := by
  intro fd
  refine ⟨fun ctx hctx ctx' hctx' => ?_, fun ctx hctx => (h.returned fd ctx).mp hctx,
    fun ctx hctx => h.kept fd ctx ((h.returned fd ctx).mp hctx)⟩
  have hget := (h.returned fd ctx).mp hctx
  rw [(h.returned fd ctx').mp hctx'] at hget
  exact Option.some.inj hget

theorem start_inv (kernel : Kernel) : Inv (start kernel) := by
  have hget : ∀ fd, (start kernel).get fd = none := Datas.start_get
  refine ⟨by simp [start, Datas.start], fun fd ctx h => ?_, fun fd ctx => ?_, fun fd ctx h => ?_,
    fun _ _ => rfl⟩
  · rw [hget] at h
    cases h
  · rw [hget]
    exact ⟨fun h => (List.not_mem_nil h).elim, fun h => by cases h⟩
  · rw [hget] at h
    cases h

/-- A lookup that finds the context. -/
theorem give_inv {s : State} (h : Inv s) {fd ctx : Nat} (hget : s.get fd = some ctx) :
    Inv (s.give fd ctx) where
  size := h.size
  allocated := h.allocated
  returned := by
    intro fd' ctx'
    show ctx' ∈ Function.update s.returned fd (ctx :: s.returned fd) fd' ↔ s.get fd' = some ctx'
    rcases eq_or_ne fd' fd with rfl | hne
    · rw [Function.update_self, List.mem_cons, h.returned, hget]
      exact ⟨fun hor => hor.elim (fun heq => by rw [heq]) id, fun heq => Or.inr heq⟩
    · rw [Function.update_of_ne hne]
      exact h.returned fd' ctx'
  kept := h.kept
  unset := h.unset

theorem create_get {s : State} (h : Inv s) (thread fd fd' : Nat) :
    (s.create thread fd).get fd' = if fd' = fd then some s.allocated else s.get fd' :=
  (Datas.put_spec h.size fd s.allocated).2 fd'

theorem create_returned (s : State) (thread fd : Nat) :
    (s.create thread fd).returned =
      Function.update s.returned fd (s.allocated :: s.returned fd) := rfl

/-- **A creation** in an empty slot. -/
theorem create_inv {s : State} (h : Inv s) {fd : Nat} (thread : Nat) (hget : s.get fd = none) :
    Inv (s.create thread fd) where
  size := (Datas.put_spec h.size fd s.allocated).1
  allocated := by
    intro fd' ctx' hctx'
    rw [create_get h] at hctx'
    show ctx' < s.allocated + 1
    split_ifs at hctx' with hfd
    · cases hctx'
      exact Nat.lt_succ_self _
    · exact Nat.lt_succ_of_lt (h.allocated fd' ctx' hctx')
  returned := by
    intro fd' ctx'
    rw [create_get h, create_returned]
    rcases eq_or_ne fd' fd with rfl | hne
    · rw [Function.update_self, if_pos rfl, List.mem_cons, h.returned, hget]
      exact ⟨fun hor => hor.elim (fun heq => by rw [heq]) (fun heq => by cases heq),
        fun heq => Or.inl (Option.some.inj heq).symm⟩
    · rw [Function.update_of_ne hne, if_neg hne]
      exact h.returned fd' ctx'
  kept := by
    intro fd' ctx' hctx'
    rw [create_get h] at hctx'
    show ∃ kernel, Function.update s.heap s.allocated (FdCtx.init s.kernel fd).2 ctx' =
      (s.settings fd').foldl Setting.apply (FdCtx.init kernel fd').2
    split_ifs at hctx' with hfd
    · cases hctx'
      refine ⟨s.kernel, ?_⟩
      rw [Function.update_self, hfd, h.unset fd hget]
      rfl
    · -- the old contexts have smaller numbers
      rw [Function.update_of_ne (Nat.ne_of_lt (h.allocated fd' ctx' hctx'))]
      exact h.kept fd' ctx' hctx'
  unset := by
    intro fd' hnone
    rw [create_get h] at hnone
    split_ifs at hnone
    exact h.unset fd' hnone

theorem del_get (s : State) (fd fd' : Nat) :
    (s.del fd).get fd' = if fd' = fd then none else s.get fd' := Datas.get_del s.m_datas fd fd'

theorem del_inv {s : State} (h : Inv s) (fd : Nat) : Inv (s.del fd) where
  size := by
    show 64 ≤ (s.m_datas.del fd).length
    rw [Datas.length_del]
    exact h.size
  allocated := by
    intro fd' ctx' hctx'
    rw [del_get] at hctx'
    split_ifs at hctx'
    exact h.allocated fd' ctx' hctx'
  returned := by
    -- what was returned is forgotten together with the slot
    intro fd' ctx'
    rw [del_get]
    show ctx' ∈ Function.update s.returned fd [] fd' ↔ _
    rcases eq_or_ne fd' fd with rfl | hne
    · rw [Function.update_self, if_pos rfl]
      exact ⟨fun hmem => (List.not_mem_nil hmem).elim, fun heq => by cases heq⟩
    · rw [Function.update_of_ne hne, if_neg hne]
      exact h.returned fd' ctx'
  kept := by
    intro fd' ctx' hctx'
    rw [del_get] at hctx'
    split_ifs at hctx' with hfd
    show ∃ kernel, s.heap ctx' =
      (Function.update s.settings fd [] fd').foldl Setting.apply (FdCtx.init kernel fd').2
    rw [Function.update_of_ne hfd]
    exact h.kept fd' ctx' hctx'
  unset := by
    intro fd' hnone
    rw [del_get] at hnone
    show Function.update s.settings fd [] fd' = []
    split_ifs at hnone with hfd
    · rw [hfd, Function.update_self]
    · rw [Function.update_of_ne hfd]
      exact h.unset fd' hnone

/-- **A setting** is recorded where its context is the one in the table, and changes no
other context. -/
theorem set_inv {s : State} (h : Inv s) (ctx : Nat) (setting : Setting) :
    Inv (s.set ctx setting) where
  size := h.size
  allocated := h.allocated
  returned := h.returned
  kept := by
    intro fd ctx' hctx'
    have hget : s.get fd = some ctx' := hctx'
    obtain ⟨kernel, hkept⟩ := h.kept fd ctx' hget
    refine ⟨kernel, ?_⟩
    show Function.update s.heap ctx (setting.apply (s.heap ctx)) ctx' =
      List.foldl Setting.apply (FdCtx.init kernel fd).2
        (if ctx ∈ s.returned fd then s.settings fd ++ [setting] else s.settings fd)
    -- `ctx'` is the context in the slot, `ctx` the one that is set
    rcases eq_or_ne ctx' ctx with rfl | hne
    · rw [if_pos ((h.returned fd ctx').mpr hget), Function.update_self, List.foldl_append, ← hkept]
      rfl
    · have hother : ctx ∉ s.returned fd := by
        intro hmem
        rw [(h.returned fd ctx).mp hmem] at hget
        exact hne (Option.some.inj hget).symm
      rw [if_neg hother, Function.update_of_ne hne]
      exact hkept
  unset := by
    intro fd hnone
    have hget : s.get fd = none := hnone
    show (if ctx ∈ s.returned fd then s.settings fd ++ [setting] else s.settings fd) = []
    have hother : ctx ∉ s.returned fd := by
      rw [h.returned, hget]
      exact nofun
    rw [if_neg hother]
    exact h.unset fd hget

theorem step_inv {s t : State} {a : Action} (h : Inv s) (hfine : Fine s a)
    (hs : step s a = some t) : Inv t := by
  cases a with
  | lookup thread fd auto_create =>
      simp only [step] at hs
      split_ifs at hs
      split at hs
      · cases hs
        exact h
      · cases hs
        exact give_inv h ‹_›
      · cases hs
        exact ⟨h.size, h.allocated, h.returned, h.kept, h.unset⟩
  | create thread =>
      obtain ⟨fd, hthread, rfl⟩ := Option.map_eq_some_iff.mp hs
      exact create_inv h thread (hfine fd hthread)
  | del thread fd =>
      simp only [step] at hs
      split_ifs at hs
      cases hs
      exact del_inv h fd
  | set thread ctx setting =>
      simp only [step] at hs
      split_ifs at hs
      cases hs
      exact set_inv h ctx setting
  | kernel kernel =>
      cases hs
      exact ⟨h.size, h.allocated, h.returned, h.kept, h.unset⟩

/-! ### The second context -/

/-- A creation that finds the slot taken returns another context than the calls
before it. -/
theorem create_breaks {s : State} (h : Inv s) {thread fd ctx : Nat} (hget : s.get fd = some ctx) :
    ¬ Holds (s.create thread fd) := by
  intro hholds
  have hold : ctx ∈ (s.create thread fd).returned fd := by
    rw [create_returned, Function.update_self]
    exact List.mem_cons_of_mem _ ((h.returned fd ctx).mpr hget)
  have hnew : s.allocated ∈ (s.create thread fd).returned fd := by
    rw [create_returned, Function.update_self]
    exact List.mem_cons_self
  have hsame := (hholds fd).same ctx hold s.allocated hnew
  exact absurd (h.allocated fd ctx hget) (by omega)

/-- **One step** keeps what is asked exactly when it creates no second context. -/
theorem step_holds_iff {s t : State} {a : Action} (h : Inv s) (hs : step s a = some t) :
    Holds t ↔ Fine s a := by
  refine ⟨fun hholds => ?_, fun hfine => (step_inv h hfine hs).holds⟩
  cases a with
  | create thread =>
      obtain ⟨fd, hthread, rfl⟩ := Option.map_eq_some_iff.mp hs
      intro fd' hthread'
      obtain rfl : fd = fd' := Option.some.inj (hthread.symm.trans hthread')
      rcases hget : s.get fd with _ | ctx
      · rfl
      · exact absurd hholds (create_breaks h hget)
  | lookup | del | set | kernel => trivial

/-- **One context per open descriptor**, in every state reached by creations that find
their slots empty; and the next step keeps this exactly when it is not a creation of a
second context. -/
theorem one_context {kernel : Kernel} {s : State} (h : Lts.Reach step Fine (start kernel) s) :
    Holds s ∧ ∀ a t, step s a = some t → (Holds t ↔ Fine s a) := by
  have hinv : Inv s := h.invariant (start_inv kernel) fun _ _ _ hI hfine hs => step_inv hI hfine hs
  exact ⟨hinv.holds, fun a t hs => step_holds_iff hinv hs⟩

/-- Thread 1 finds the context that thread 0 has created and set. -/
theorem one_context_found :
    ∃ s, s.returned 7 = [0, 0] ∧ s.settings 7 = [.timeout SO_RCVTIMEO 3000] ∧ Holds s := by
  have hstart : Lts.Reach step Fine (start closed) (start closed) := .init
  have hlooked := hstart.step (Action.lookup 0 7 true) trivial rfl
  have hcreated := hlooked.step (Action.create 0) (fun fd hfd => by cases hfd; rfl) rfl
  have hset := hcreated.step (Action.set 0 0 (.timeout SO_RCVTIMEO 3000)) trivial rfl
  have hfound := hset.step (Action.lookup 1 7 true) trivial rfl
  exact ⟨_, rfl, rfl, (one_context hfound).1⟩

/-- **The lost context**: two threads find the slot of descriptor 7 empty; the first
creates a context and sets a timeout, and the second creates another. -/
theorem two_contexts : ¬ ∀ s, Lts.Reach step Lts.Any (start closed) s → Holds s := by
  intro h
  have hrun : Lts.run step
      [.lookup 0 7 true, .lookup 1 7 true, .create 0, .set 0 0 (.timeout SO_RCVTIMEO 3000),
        .create 1] (start closed) = some _ := rfl
  have hreach := Lts.reach_of_run hrun
  have hsame := (h _ hreach 7).same 0 (List.mem_cons_of_mem _ List.mem_cons_self) 1
    List.mem_cons_self
  cases hsame

end Contexts

end Hook

end Will
