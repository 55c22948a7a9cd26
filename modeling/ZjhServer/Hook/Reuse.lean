/-
ZjhServer/Hook/Reuse.lean

Descriptor numbers that are used again (server/hook.cc): threads in `socket`, `accept`,
`setsockopt`, `fcntl(F_SETFL)` and `close`, each call with the hooks of its thread
enabled or disabled, and one table of contexts.

`close` deletes the context only if the hooks are enabled, and `get(fd, true)` in
`socket` and `accept` takes the context it finds.  So a descriptor closed by a thread
without hooks keeps its context, and the next socket of that number has the timeouts
of the old one (`stale_timeout`).  Where the table has no context for the number a
hook-enabled call is handed, and the number is left alone until the call returns, the
context is fresh (`fresh_contexts`).
-/
import ZjhServer.Hook.Contexts

namespace Will

namespace Hook

namespace Reuse

open Contexts (Datas)

/-! ### Threads in the hooks -/

/-- The calls that open a socket. -/
inductive Api
  | socket (type : BitVec 32)
  | accept
  deriving DecidableEq, Repr

/-- Where a thread is. -/
inductive Pc
  | idle
  /-- in `socket` or `accept`, before the lookup of `get(fd, true)` -/
  | opened (hook : Bool) (fd : Nat)
  /-- in `socket` or `accept`, before the creation of `get(fd, true)` -/
  | creating (hook : Bool) (fd : Nat)
  /-- in `setsockopt`, before `ctx->setTimeout` -/
  | timeout (ctx : Nat) (optname : Int) (v : BitVec 64)
  /-- in `fcntl`, before `ctx->setUserNonblock` -/
  | user (ctx fd : Nat) (arg : BitVec 32)
  /-- in `fcntl`, before `fcntl_f` -/
  | setfl (fd : Nat) (arg : BitVec 32)
  /-- in `close`, before `del` -/
  | deleting (fd : Nat)
  /-- in `close`, before `close_f` -/
  | closing (fd : Nat)
  deriving DecidableEq, Repr

/-- The descriptor that the thread's `socket` or `accept` has been handed. -/
def Pc.opener : Pc → Option (Bool × Nat)
  | .opened hook fd | .creating hook fd => some (hook, fd)
  | .idle | .timeout .. | .user .. | .setfl .. | .deleting _ | .closing _ => none

namespace Api

/-- The status flags of the new socket. -/
def flags : Api → BitVec 32
  | .socket type => socketFlags type
  | .accept => socketFlags 0

/-- `socket` without the hooks is over; `accept` goes on to `get(fd, true)`. -/
def next (hook : Bool) (fd : Nat) : Api → Pc
  | .socket _ => if hook then .opened hook fd else .idle
  | .accept => .opened hook fd

end Api

structure State where
  kernel : Kernel
  m_datas : Datas
  heap : Nat → FdCtx
  /-- The number of contexts allocated so far. -/
  allocated : Nat
  pc : Nat → Pc
  /-- How often each descriptor has been opened. -/
  opening : Nat → Nat
  /-- The opening of its descriptor that each context was initialised for. -/
  born : Nat → Nat

namespace State

/-- What `get(fd, false)` returns. -/
def get (s : State) (fd : Nat) : Option Nat := Slots.get s.m_datas fd

def goto (s : State) (thread : Nat) (pc : Pc) : State :=
  { s with pc := Function.update s.pc thread pc }

/-- `socket_f` or `accept_f` returns `fd`. -/
def opened (s : State) (thread : Nat) (hook : Bool) (api : Api) (fd : Nat) : State :=
  { s with
    kernel := Function.update s.kernel fd (some ⟨true, api.flags⟩)
    opening := Function.update s.opening fd (s.opening fd + 1)
    pc := Function.update s.pc thread (api.next hook fd) }

/-- `get(fd, true)` under the write lock. -/
def create (s : State) (fd : Nat) : State :=
  let ctx := s.allocated
  let r := FdCtx.init s.kernel fd
  { s with
    kernel := r.1
    heap := Function.update s.heap ctx r.2
    allocated := ctx + 1
    m_datas := s.m_datas.put fd ctx
    born := Function.update s.born ctx (s.opening fd) }

/-- A setter is called on a context. -/
def modify (s : State) (ctx : Nat) (f : FdCtx → FdCtx) : State :=
  { s with heap := Function.update s.heap ctx (f (s.heap ctx)) }

def del (s : State) (fd : Nat) : State := { s with m_datas := s.m_datas.del fd }

/-- `close_f(fd)` -/
def close_f (s : State) (fd : Nat) : State :=
  { s with kernel := Function.update s.kernel fd none }

end State

/-- The `timeval` of a timeout in milliseconds. -/
def timeout_ms (tv_sec tv_usec : BitVec 64) : BitVec 64 := tv_sec * 1000 + tv_usec.sdiv 1000

/-- The calls of the threads, up to their first access to what they share, and then
what is left of them; `hook` is the `t_hook_enable` of the thread. -/
inductive Action
  | opened (thread : Nat) (hook : Bool) (api : Api) (fd : Nat)
  | lookup (thread : Nat)
  | create (thread : Nat)
  | setsockopt (thread : Nat) (hook : Bool) (fd : Nat) (optname : Int) (tv_sec tv_usec : BitVec 64)
  | setTimeout (thread : Nat)
  | fcntl (thread fd : Nat) (arg : BitVec 32)
  | setUserNonblock (thread : Nat)
  | fcntl_f (thread : Nat) (fails : Bool)
  | close (thread : Nat) (hook : Bool) (fd : Nat)
  | del (thread : Nat)
  | close_f (thread : Nat)

/-- The kernel hands out descriptors that are not open. -/
def step (s : State) : Action → Option State
  | .opened thread hook api fd =>
      if s.pc thread = .idle ∧ (s.kernel fd).isNone then some (s.opened thread hook api fd)
      else none
  | .lookup thread =>
      match s.pc thread with
      | .opened hook fd =>
          match s.get fd with
          | some _ => some (s.goto thread .idle)
          | none => some (s.goto thread (.creating hook fd))
      | _ => none
  | .create thread =>
      match s.pc thread with
      | .creating _ fd => some ((s.create fd).goto thread .idle)
      | _ => none
  | .setsockopt thread hook fd optname tv_sec tv_usec =>
      if s.pc thread = .idle then
        if hook ∧ (optname = SO_RCVTIMEO ∨ optname = SO_SNDTIMEO) then
          match s.get fd with
          | some ctx => some (s.goto thread (.timeout ctx optname (timeout_ms tv_sec tv_usec)))
          | none => some s
        else some s
      else none
  | .setTimeout thread =>
      match s.pc thread with
      | .timeout ctx optname v =>
          some ((s.modify ctx fun c => c.setTimeout optname v).goto thread .idle)
      | _ => none
  | .fcntl thread fd arg =>
      if s.pc thread = .idle then
        match s.get fd with
        | some ctx =>
            if (s.heap ctx).m_isClosed ∨ (s.heap ctx).m_isSocket = false then
              some (s.goto thread (.setfl fd arg))
            else some (s.goto thread (.user ctx fd arg))
        | none => some (s.goto thread (.setfl fd arg))
      else none
  | .setUserNonblock thread =>
      match s.pc thread with
      | .user ctx fd arg =>
          let arg' :=
            if (s.heap ctx).m_sysNonblock then arg ||| O_NONBLOCK else arg &&& ~~~O_NONBLOCK
          some ((s.modify ctx fun c => c.setUserNonblock (nonblock arg)).goto thread
            (.setfl fd arg'))
      | _ => none
  | .fcntl_f thread fails =>
      match s.pc thread with
      | .setfl fd arg =>
          some ({ s with kernel := s.kernel.setfl fd arg fails }.goto thread .idle)
      | _ => none
  | .close thread hook fd =>
      if s.pc thread = .idle then
        match hook, s.get fd with
        | true, some _ => some (s.goto thread (.deleting fd))
        | _, _ => some (s.goto thread (.closing fd))
      else none
  | .del thread =>
      match s.pc thread with
      | .deleting fd => some ((s.del fd).goto thread (.closing fd))
      | _ => none
  | .close_f thread =>
      match s.pc thread with
      | .closing fd => some ((s.close_f fd).goto thread .idle)
      | _ => none

/-- Any descriptors open, and no contexts. -/
def start (kernel : Kernel) : State where
  kernel := kernel
  m_datas := .start
  heap := fun _ => socketCtx false
  allocated := 0
  pc := fun _ => .idle
  opening := fun _ => 0
  born := fun _ => 0

/-! ### What is asked of the table -/

/-- The descriptor that a hook-enabled `socket` or `accept` returns in this step. -/
def returns (s : State) : Action → Option Nat
  | .lookup thread =>
      match s.pc thread with
      | .opened true fd => (s.get fd).map fun _ => fd
      | _ => none
  | .create thread =>
      match s.pc thread with
      | .creating true fd => some fd
      | _ => none
  | _ => none

/-- The context of the descriptor was initialised for this opening, has no settings
yet, and the kernel does not block on the socket. -/
structure Fresh (s : State) (fd : Nat) : Prop where
  ctx : ∃ ctx, s.get fd = some ctx ∧ s.born ctx = s.opening fd ∧ s.heap ctx = socketCtx false
  kernel : ∃ flags, s.kernel fd = some ⟨true, flags⟩ ∧ nonblock flags = true

/-- What is returned next is fresh. -/
def Holds (s : State) : Prop :=
  ∀ a t fd, step s a = some t → returns s a = some fd → Fresh t fd

/-- A hook-enabled call is handed a descriptor that has no context and that no other
call has been handed and not returned; nobody closes it before the call returns. -/
def Fine (s : State) : Action → Prop
  | .opened _ true _ fd => s.get fd = none ∧ ∀ other hook, (s.pc other).opener ≠ some (hook, fd)
  | .close_f thread =>
      ∀ fd, s.pc thread = .closing fd → ∀ other, (s.pc other).opener ≠ some (true, fd)
  | _ => True

/-! ### The invariant -/

structure Inv (s : State) : Prop where
  size : 64 ≤ s.m_datas.length
  allocated : ∀ fd ctx, s.get fd = some ctx → ctx < s.allocated
  born : ∀ fd ctx, s.get fd = some ctx → s.born ctx ≤ s.opening fd
  socket : ∀ thread fd, (s.pc thread).opener = some (true, fd) →
    ∃ flags, s.kernel fd = some ⟨true, flags⟩
  empty : ∀ thread fd, (s.pc thread).opener = some (true, fd) → s.get fd = none
  alone : ∀ thread other hook fd, (s.pc thread).opener = some (true, fd) →
    (s.pc other).opener = some (hook, fd) → other = thread

theorem start_inv (kernel : Kernel) : Inv (start kernel) := by
  have hget : ∀ fd, (start kernel).get fd = none := Datas.start_get
  refine ⟨by simp [start, Datas.start], fun fd ctx h => ?_, fun fd ctx h => ?_,
    fun thread fd h => ?_, fun _ fd _ => hget fd, fun thread other hook fd h => ?_⟩
  · rw [hget] at h
    cases h
  · rw [hget] at h
    cases h
  · cases h
  · cases h

/-- **The frame of a step** that opens no descriptor and creates no context: contexts
may be set or deleted, and the sockets that calls have been handed stay open. -/
theorem Inv.frame {s t : State} (h : Inv s) (hsize : 64 ≤ t.m_datas.length)
    (hget : ∀ fd ctx, t.get fd = some ctx → s.get fd = some ctx)
    (hallocated : t.allocated = s.allocated) (hborn : t.born = s.born)
    (hopening : t.opening = s.opening)
    (hkernel : ∀ thread fd, (s.pc thread).opener = some (true, fd) →
      ∃ flags, t.kernel fd = some ⟨true, flags⟩)
    (hpc : ∀ thread o, (t.pc thread).opener = some o → (s.pc thread).opener = some o) : Inv t where
  size := hsize
  allocated := by
    intro fd ctx hctx
    rw [hallocated]
    exact h.allocated fd ctx (hget fd ctx hctx)
  born := by
    intro fd ctx hctx
    rw [hborn, hopening]
    exact h.born fd ctx (hget fd ctx hctx)
  socket := fun thread fd hthread => hkernel thread fd (hpc thread _ hthread)
  empty := by
    intro thread fd hthread
    rcases hctx : t.get fd with _ | ctx
    · rfl
    · have hnone := h.empty thread fd (hpc thread _ hthread)
      rw [hget fd ctx hctx] at hnone
      cases hnone
  alone := fun thread other hook fd hthread hother =>
    h.alone thread other hook fd (hpc thread _ hthread) (hpc other _ hother)

/-- A thread that goes where no socket is being opened, or stays in its call. -/
theorem opener_goto {s : State} {thread : Nat} {pc : Pc}
    (hpc : ∀ o, pc.opener = some o → (s.pc thread).opener = some o) (thread' : Nat) (o : Bool × Nat)
    (ho : ((s.goto thread pc).pc thread').opener = some o) : (s.pc thread').opener = some o := by
  have hupdate : (Function.update s.pc thread pc thread').opener = some o := ho
  rcases eq_or_ne thread' thread with rfl | hne
  · rw [Function.update_self] at hupdate
    exact hpc o hupdate
  · rwa [Function.update_of_ne hne] at hupdate

/-- A step within a thread. -/
theorem Inv.goto {s : State} (h : Inv s) {thread : Nat} {pc : Pc}
    (hpc : ∀ o, pc.opener = some o → (s.pc thread).opener = some o) : Inv (s.goto thread pc) :=
  h.frame h.size (fun _ _ => id) rfl rfl rfl h.socket (opener_goto hpc)

/-- A thread that has nothing to open. -/
theorem Inv.leave {s : State} (h : Inv s) (thread : Nat) {pc : Pc} (hpc : pc.opener = none) :
    Inv (s.goto thread pc) :=
  h.goto fun o ho => by rw [hpc] at ho; cases ho

theorem Inv.modify {s : State} (h : Inv s) (ctx : Nat) (f : FdCtx → FdCtx) :
    Inv (s.modify ctx f) :=
  h.frame h.size (fun _ _ => id) rfl rfl rfl h.socket (fun _ _ => id)

/-- `F_SETFL` leaves a socket a socket. -/
theorem setfl_socket {k : Kernel} {fd : Nat} {flags : BitVec 32} (hfile : k fd = some ⟨true, flags⟩)
    (fd' : Nat) (arg : BitVec 32) (fails : Bool) :
    ∃ flags', k.setfl fd' arg fails fd = some ⟨true, flags'⟩ := by
  rcases eq_or_ne fd fd' with rfl | hne
  · unfold Kernel.setfl
    rw [hfile]
    cases fails with
    | true => exact ⟨flags, hfile⟩
    | false => exact ⟨_, Function.update_self ..⟩
  · rw [setfl_other k hne]
    exact ⟨flags, hfile⟩

theorem Inv.fcntl_f {s : State} (h : Inv s) (fd : Nat) (arg : BitVec 32) (fails : Bool) :
    Inv { s with kernel := s.kernel.setfl fd arg fails } := by
  refine h.frame h.size (fun _ _ => id) rfl rfl rfl (fun thread fd' hthread => ?_) (fun _ _ => id)
  obtain ⟨flags, hfile⟩ := h.socket thread fd' hthread
  exact setfl_socket hfile fd arg fails

theorem Inv.del {s : State} (h : Inv s) (fd : Nat) : Inv (s.del fd) := by
  refine h.frame ?_ (fun fd' ctx hctx => ?_) rfl rfl rfl h.socket (fun _ _ => id)
  · show 64 ≤ (s.m_datas.del fd).length
    rw [Datas.length_del]
    exact h.size
  · have hdel : Slots.get (s.m_datas.del fd) fd' = some ctx := hctx
    rw [Datas.get_del] at hdel
    split_ifs at hdel
    exact hdel

/-- **A close** of a descriptor that no hook-enabled call is about to return. -/
theorem Inv.close_f {s : State} (h : Inv s) {fd : Nat}
    (hfine : ∀ other, (s.pc other).opener ≠ some (true, fd)) : Inv (s.close_f fd) := by
  refine h.frame h.size (fun _ _ => id) rfl rfl rfl (fun thread fd' hthread => ?_) (fun _ _ => id)
  obtain ⟨flags, hfile⟩ := h.socket thread fd' hthread
  refine ⟨flags, ?_⟩
  have hne : fd' ≠ fd := by
    rintro rfl
    exact hfine thread hthread
  exact (Function.update_of_ne hne _ _).trans hfile

theorem Api.next_opener {hook : Bool} {fd : Nat} {api : Api} {o : Bool × Nat}
    (h : (api.next hook fd).opener = some o) : o = (hook, fd) := by
  cases api with
  | socket type =>
      cases hook with
      | false => cases h
      | true => exact (Option.some.inj h).symm
  | accept => exact (Option.some.inj h).symm

/-- Who has been handed what, after one more descriptor. -/
theorem opened_opener {s : State} {thread : Nat} {hook : Bool} {api : Api} {fd : Nat}
    {thread' : Nat} {o : Bool × Nat}
    (h : ((s.opened thread hook api fd).pc thread').opener = some o) :
    (thread' = thread ∧ o = (hook, fd)) ∨ (s.pc thread').opener = some o := by
  have hupdate : (Function.update s.pc thread (api.next hook fd) thread').opener = some o := h
  rcases eq_or_ne thread' thread with rfl | hne
  · rw [Function.update_self] at hupdate
    exact Or.inl ⟨rfl, Api.next_opener hupdate⟩
  · rw [Function.update_of_ne hne] at hupdate
    exact Or.inr hupdate

/-- **An opening**, by a hook-enabled call only if there is no context and no other call
with this descriptor. -/
theorem Inv.opened {s : State} (h : Inv s) {thread : Nat} {hook : Bool} {api : Api} {fd : Nat}
    (hfree : (s.kernel fd).isNone) (hfine : Fine s (.opened thread hook api fd)) :
    Inv (s.opened thread hook api fd) := by
  -- a descriptor that a hook-enabled call has been handed is open
  have hother : ∀ thread' fd', (s.pc thread').opener = some (true, fd') → fd' ≠ fd := by
    rintro thread' fd' hthread' rfl
    obtain ⟨flags, hfile⟩ := h.socket thread' fd' hthread'
    rw [hfile] at hfree
    cases hfree
  refine ⟨h.size, h.allocated, fun fd' ctx hctx => ?_, fun thread' fd' hthread' => ?_,
    fun thread' fd' hthread' => ?_, fun thread' other hook' fd' hthread' hother' => ?_⟩
  · show s.born ctx ≤ Function.update s.opening fd (s.opening fd + 1) fd'
    have hborn := h.born fd' ctx hctx
    rcases eq_or_ne fd' fd with rfl | hne
    · rw [Function.update_self]
      exact Nat.le_succ_of_le hborn
    · rwa [Function.update_of_ne hne]
  · show ∃ flags, Function.update s.kernel fd (some ⟨true, api.flags⟩) fd' = some ⟨true, flags⟩
    rcases opened_opener hthread' with ⟨-, heq⟩ | hold
    · obtain ⟨-, rfl⟩ := Prod.mk.inj heq
      exact ⟨_, Function.update_self ..⟩
    · rw [Function.update_of_ne (hother thread' fd' hold)]
      exact h.socket thread' fd' hold
  · rcases opened_opener hthread' with ⟨-, heq⟩ | hold
    · obtain ⟨rfl, rfl⟩ := Prod.mk.inj heq
      exact hfine.1
    · exact h.empty thread' fd' hold
  · rcases opened_opener hthread' with ⟨rfl, heq⟩ | hold <;>
      rcases opened_opener hother' with ⟨rfl, heq'⟩ | hold'
    · rfl
    · obtain ⟨rfl, rfl⟩ := Prod.mk.inj heq
      exact absurd hold' (hfine.2 other hook')
    · obtain ⟨-, rfl⟩ := Prod.mk.inj heq'
      exact absurd rfl (hother thread' fd' hold)
    · exact h.alone thread' other hook' fd' hold hold'

/-- `FdCtx::init` leaves a socket a socket. -/
theorem init_keeps {k : Kernel} {fd : Nat} {flags : BitVec 32} (hfile : k fd = some ⟨true, flags⟩)
    (fd' : Nat) : ∃ flags', (FdCtx.init k fd').1 fd = some ⟨true, flags'⟩ := by
  unfold FdCtx.init
  simp only
  split_ifs
  · exact ⟨flags, hfile⟩
  · exact setfl_socket hfile fd' _ _
  · exact ⟨flags, hfile⟩

theorem create_get {s : State} (hsize : 64 ≤ s.m_datas.length) (fd fd' : Nat) :
    (s.create fd).get fd' = if fd' = fd then some s.allocated else s.get fd' :=
  (Datas.put_spec hsize fd s.allocated).2 fd'

/-- **A creation**, by a call that has been handed the descriptor, and is over with it. -/
theorem Inv.create {s : State} (h : Inv s) {thread : Nat} {hook : Bool} {fd : Nat}
    (hthread : (s.pc thread).opener = some (hook, fd)) :
    Inv ((s.create fd).goto thread .idle) := by
  have hpc : ∀ thread' o, (((s.create fd).goto thread .idle).pc thread').opener = some o →
      (s.pc thread').opener = some o := opener_goto fun o ho => by cases ho
  have hself : ((s.create fd).goto thread .idle).pc thread = .idle := Function.update_self ..
  refine ⟨(Datas.put_spec h.size fd s.allocated).1, fun fd' ctx hctx => ?_,
    fun fd' ctx hctx => ?_, fun thread' fd' hthread' => ?_, fun thread' fd' hthread' => ?_,
    fun thread' other hook' fd' hthread' hother' => ?_⟩
  · have hget : (s.create fd).get fd' = some ctx := hctx
    rw [create_get h.size] at hget
    show ctx < s.allocated + 1
    split_ifs at hget with hfd
    · cases hget
      exact Nat.lt_succ_self _
    · exact Nat.lt_succ_of_lt (h.allocated fd' ctx hget)
  · have hget : (s.create fd).get fd' = some ctx := hctx
    rw [create_get h.size] at hget
    show Function.update s.born s.allocated (s.opening fd) ctx ≤ s.opening fd'
    split_ifs at hget with hfd
    · cases hget
      exact Nat.le_of_eq (by rw [Function.update_self, hfd])
    · rw [Function.update_of_ne (Nat.ne_of_lt (h.allocated fd' ctx hget))]
      exact h.born fd' ctx hget
  · obtain ⟨flags, hfile⟩ := h.socket thread' fd' (hpc thread' _ hthread')
    exact init_keeps hfile fd
  · -- only this call has been handed the descriptor
    have hold := hpc thread' _ hthread'
    have hne : fd' ≠ fd := by
      rintro rfl
      obtain rfl := h.alone thread' thread hook fd' hold hthread
      rw [hself] at hthread'
      cases hthread'
    show (s.create fd).get fd' = none
    rw [create_get h.size, if_neg hne]
    exact h.empty thread' fd' hold
  · exact h.alone thread' other hook' fd' (hpc thread' _ hthread') (hpc other _ hother')

theorem step_inv {s t : State} {a : Action} (h : Inv s) (hfine : Fine s a)
    (hs : step s a = some t) : Inv t := by
  cases a with
  | opened thread hook api fd =>
      simp only [step] at hs
      split_ifs at hs with hfree
      cases hs
      -- admitted: the number has no context, and no other call holds it
      exact h.opened hfree.2 hfine
  | lookup thread =>
      simp only [step] at hs
      split at hs
      · rename_i hook fd hthread
        split at hs <;> cases hs
        · exact h.leave thread rfl
        · exact h.goto fun o ho => by rw [hthread]; exact ho
      · cases hs
  | create thread =>
      simp only [step] at hs
      split at hs
      · rename_i hook fd hthread
        cases hs
        exact h.create (by rw [hthread]; rfl)
      · cases hs
  | setsockopt thread hook fd optname tv_sec tv_usec =>
      simp only [step] at hs
      split_ifs at hs
      · split at hs <;> cases hs
        · exact h.leave thread rfl
        · exact h
      · cases hs
        exact h
  | setTimeout thread =>
      simp only [step] at hs
      split at hs
      · cases hs
        exact (h.modify _ _).leave thread rfl
      · cases hs
  | fcntl thread fd arg =>
      simp only [step] at hs
      split_ifs at hs
      split at hs
      · split_ifs at hs <;> cases hs
        · exact h.leave thread rfl
        · exact h.leave thread rfl
      · cases hs
        exact h.leave thread rfl
  | setUserNonblock thread =>
      simp only [step] at hs
      split at hs
      · cases hs
        exact (h.modify _ _).leave thread rfl
      · cases hs
  | fcntl_f thread fails =>
      simp only [step] at hs
      split at hs
      · cases hs
        exact (h.fcntl_f _ _ _).leave thread rfl
      · cases hs
  | close thread hook fd =>
      simp only [step] at hs
      split_ifs at hs
      split at hs <;> cases hs
      · exact h.leave thread rfl
      · exact h.leave thread rfl
  | del thread =>
      simp only [step] at hs
      split at hs
      · cases hs
        exact (h.del _).leave thread rfl
      · cases hs
  | close_f thread =>
      simp only [step] at hs
      split at hs
      · rename_i fd hthread
        cases hs
        -- admitted: no call that holds the number is still about to look it up
        exact (h.close_f (hfine fd hthread)).leave thread rfl
      · cases hs

/-! ### What is returned -/

/-- The creation of a hook-enabled call makes a fresh context. -/
theorem create_fresh {s : State} (h : Inv s) {thread fd : Nat}
    (hthread : (s.pc thread).opener = some (true, fd)) :
    Fresh ((s.create fd).goto thread .idle) fd := by
  obtain ⟨flags, hfile⟩ := h.socket thread fd hthread
  obtain ⟨flags', hflags, hinit⟩ := init_socket hfile
  refine ⟨⟨s.allocated, ?_, ?_, ?_⟩, flags', ?_, hflags⟩
  · show (s.create fd).get fd = some s.allocated
    rw [create_get h.size, if_pos rfl]
  · exact Function.update_self ..
  · show Function.update s.heap s.allocated (FdCtx.init s.kernel fd).2 s.allocated = socketCtx false
    rw [Function.update_self, hinit]
  · show (FdCtx.init s.kernel fd).1 fd = some ⟨true, flags'⟩
    rw [hinit]
    exact Function.update_self ..

/-- The threads that return a descriptor. -/
theorem returns_cases {s : State} {a : Action} {fd : Nat} (h : returns s a = some fd) :
    (∃ thread, a = .create thread ∧ s.pc thread = .creating true fd) ∨
      ∃ thread ctx, a = .lookup thread ∧ s.pc thread = .opened true fd ∧ s.get fd = some ctx := by
  cases a with
  | lookup thread =>
      simp only [returns] at h
      split at h
      · rename_i fd' hthread
        obtain ⟨ctx, hctx, rfl⟩ := Option.map_eq_some_iff.mp h
        exact Or.inr ⟨thread, ctx, rfl, hthread, hctx⟩
      · cases h
  | create thread =>
      simp only [returns] at h
      split at h
      · rename_i fd' hthread
        cases h
        exact Or.inl ⟨thread, rfl, hthread⟩
      · cases h
  | opened | setsockopt | setTimeout | fcntl | setUserNonblock | fcntl_f | close | del | close_f =>
      cases h

theorem step_create {s : State} {thread : Nat} {hook : Bool} {fd : Nat}
    (h : s.pc thread = .creating hook fd) :
    step s (.create thread) = some ((s.create fd).goto thread .idle) := by
  simp only [step, h]

theorem Inv.holds {s : State} (h : Inv s) : Holds s := by
  intro a t fd hs hreturns
  rcases returns_cases hreturns with ⟨thread, rfl, hthread⟩ | ⟨thread, ctx, rfl, hthread, hctx⟩
  · rw [step_create hthread] at hs
    cases hs
    exact create_fresh h (by rw [hthread]; rfl)
  · -- a hook-enabled call does not find a context
    rw [h.empty thread fd (by rw [hthread]; rfl)] at hctx
    cases hctx

/-! ### The steps that break it -/

theorem step_lookup {s : State} {thread : Nat} {hook : Bool} {fd : Nat}
    (h : s.pc thread = .opened hook fd) (hget : s.get fd = none) :
    step s (.lookup thread) = some (s.goto thread (.creating hook fd)) := by
  simp only [step, h, hget]

/-- A call that finds a context of an earlier opening. -/
theorem lookup_breaks {s : State} {thread fd ctx : Nat} (hthread : s.pc thread = .opened true fd)
    (hget : s.get fd = some ctx)
    (hstale : s.born ctx ≠ s.opening fd ∨ s.heap ctx ≠ socketCtx false) : ¬ Holds s := by
  intro hholds
  have hs : step s (.lookup thread) = some (s.goto thread .idle) := by
    simp only [step, hthread, hget]
  have hreturns : returns s (.lookup thread) = some fd := by
    simp only [returns, hthread, hget, Option.map_some]
  obtain ⟨ctx', hctx', hborn, hheap⟩ := (hholds _ _ _ hs hreturns).ctx
  obtain rfl : ctx = ctx' := Option.some.inj (hget.symm.trans hctx')
  rcases hstale with hne | hne
  · exact hne hborn
  · exact hne hheap

/-- A call that creates a context for a descriptor that has been closed. -/
theorem create_breaks {s : State} {thread fd : Nat} (hthread : s.pc thread = .creating true fd)
    (hclosed : s.kernel fd = none) : ¬ Holds s := by
  intro hholds
  have hreturns : returns s (.create thread) = some fd := by simp only [returns, hthread]
  obtain ⟨flags, hfile, -⟩ := (hholds _ _ _ (step_create hthread) hreturns).kernel
  have hinit : (FdCtx.init s.kernel fd).1 fd = some ⟨true, flags⟩ := hfile
  simp [FdCtx.init, hclosed] at hinit

/-- The descriptor is closed before the call that has been handed it looks for its
context. -/
theorem close_breaks {s : State} {thread fd : Nat} (hget : s.get fd = none)
    (hthread : (s.pc thread).opener = some (true, fd)) (hclosed : s.kernel fd = none) :
    ∃ u, Lts.Reach step Fine s u ∧ ¬ Holds u := by
  rcases hpc : s.pc thread with _ | ⟨hook, fd'⟩ | ⟨hook, fd'⟩ | _ | _ | _ | _ | _ <;>
    rw [hpc] at hthread <;> cases hthread
  · refine ⟨_, Lts.Reach.init.step (Action.lookup thread) trivial (step_lookup hpc hget), ?_⟩
    exact create_breaks (Function.update_self ..) hclosed
  · exact ⟨s, .init, create_breaks hpc hclosed⟩

theorem goto_other {s : State} {thread other : Nat} (hne : other ≠ thread) (pc : Pc) :
    (s.goto thread pc).pc other = s.pc other := Function.update_of_ne hne _ _

theorem step_setTimeout {s : State} {thread ctx : Nat} {optname : Int} {v : BitVec 64}
    (h : s.pc thread = .timeout ctx optname v) : step s (.setTimeout thread) =
      some ((s.modify ctx fun c => c.setTimeout optname v).goto thread .idle) := by
  simp only [step, h]

/-- Another thread sets a timeout before a call looks for the context. -/
theorem setting_breaks {s : State} {thread other fd ctx : Nat} (hne : thread ≠ other)
    (hthread : s.pc thread = .opened true fd) (hother : s.pc other = .idle)
    (hget : s.get fd = some ctx) : ∃ u, Lts.Reach step Fine s u ∧ ¬ Holds u := by
  have hs : step s (.setsockopt other true fd SO_RCVTIMEO 0 0) =
      some (s.goto other (.timeout ctx SO_RCVTIMEO 0)) := by
    simp only [step, hother, hget, true_or, and_self, if_true]
    rfl
  have hstart : Lts.Reach step Fine s s := .init
  have hgot := hstart.step (Action.setsockopt other true fd SO_RCVTIMEO 0 0) trivial hs
  have hset := hgot.step (Action.setTimeout other) trivial
    (step_setTimeout (Function.update_self ..))
  refine ⟨_, hset, lookup_breaks ((goto_other hne _).trans ((goto_other hne _).trans hthread)) hget
    (Or.inr fun heq => ?_)⟩
  have htimeout : Function.update s.heap ctx ((s.heap ctx).setTimeout SO_RCVTIMEO 0) ctx =
      socketCtx false := heq
  rw [Function.update_self] at htimeout
  have hrecv : (0 : BitVec 64) = -1 := congrArg FdCtx.m_recvTimeout htimeout
  cases hrecv

/-- Two calls have been handed the descriptor, and the other one creates a context before
the first looks for it. -/
theorem race_breaks {s : State} (hsize : 64 ≤ s.m_datas.length) {thread other fd : Nat}
    {hook : Bool} (hne : thread ≠ other) (hthread : s.pc thread = .opened true fd)
    (hother : (s.pc other).opener = some (hook, fd)) (hget : s.get fd = none) :
    ∃ u, Lts.Reach step Fine s u ∧ ¬ Holds u := by
  obtain ⟨s₁, hreach, hsize₁, hthread₁, hother₁⟩ : ∃ s₁, Lts.Reach step Fine s s₁ ∧
      64 ≤ s₁.m_datas.length ∧ s₁.pc thread = .opened true fd ∧
      s₁.pc other = .creating hook fd := by
    rcases hpc : s.pc other with _ | ⟨hook', fd'⟩ | ⟨hook', fd'⟩ | _ | _ | _ | _ | _ <;>
      rw [hpc] at hother <;> cases hother
    · exact ⟨_, Lts.Reach.init.step (Action.lookup other) trivial (step_lookup hpc hget), hsize,
        (goto_other hne _).trans hthread, Function.update_self ..⟩
    · exact ⟨s, .init, hsize, hthread, hpc⟩
  have hcreated := hreach.step (Action.create other) trivial (step_create hother₁)
  have hget₁ : (s₁.create fd).get fd = some s₁.allocated := by
    rw [create_get hsize₁, if_pos rfl]
  obtain ⟨u, hu, hnot⟩ := setting_breaks (s := (s₁.create fd).goto other .idle) hne
    ((goto_other hne _).trans hthread₁) (Function.update_self ..) hget₁
  exact ⟨u, hcreated.trans hu, hnot⟩

/-- A step that is not admitted leads, by admitted steps, to a call that returns a
descriptor whose context is not fresh. -/
theorem step_breaks {s t : State} {a : Action} (h : Inv s) (hs : step s a = some t)
    (hfine : ¬ Fine s a) : ∃ u, Lts.Reach step Fine t u ∧ ¬ Holds u := by
  cases a with
  | opened thread hook api fd =>
      cases hook with
      | false => exact absurd trivial hfine
      | true =>
          simp only [step] at hs
          split_ifs at hs with hfree
          cases hs
          have hthread : (s.opened thread true api fd).pc thread = .opened true fd := by
            refine (Function.update_self ..).trans ?_
            cases api <;> rfl
          -- not admitted: another call holds the number, or it has a context already
          rcases hget : s.get fd with _ | ctx
          · obtain ⟨other, hook', hother⟩ :
                ∃ other hook', (s.pc other).opener = some (hook', fd) := by
              by_contra hno
              push Not at hno
              exact hfine ⟨hget, hno⟩
            have hne : thread ≠ other := by
              rintro rfl
              rw [hfree.1] at hother
              cases hother
            have hother' : ((s.opened thread true api fd).pc other).opener = some (hook', fd) := by
              show (Function.update s.pc thread _ other).opener = _
              rw [Function.update_of_ne hne.symm, hother]
            exact race_breaks h.size hne hthread hother' hget
          · refine ⟨_, .init, lookup_breaks hthread hget (Or.inl ?_)⟩
            -- that context is from an earlier opening of the number
            have hborn := h.born fd ctx hget
            show s.born ctx ≠ Function.update s.opening fd (s.opening fd + 1) fd
            rw [Function.update_self]
            omega
  | close_f thread =>
      -- not admitted: a call that was handed the number has not returned yet
      obtain ⟨fd, hthread, other, hother⟩ : ∃ fd, s.pc thread = .closing fd ∧
          ∃ other, (s.pc other).opener = some (true, fd) := by
        by_contra hno
        push Not at hno
        exact hfine fun fd hthread => hno fd hthread
      have hne : other ≠ thread := by
        rintro rfl
        rw [hthread] at hother
        cases hother
      simp only [step, hthread] at hs
      cases hs
      have hother' : (((s.close_f fd).goto thread .idle).pc other).opener = some (true, fd) := by
        rw [goto_other hne]
        exact hother
      exact close_breaks (h.empty other fd hother) hother' (Function.update_self ..)
  | lookup | create | setsockopt | setTimeout | fcntl | setUserNonblock | fcntl_f | close | del =>
      exact absurd trivial hfine

/-- **No stale contexts**: in every state reached by admitted steps, a hook-enabled
`socket` or `accept` that returns now returns a descriptor with a fresh context; and
a step is admitted exactly when this stays so for as long as the steps after it are. -/
theorem fresh_contexts {kernel : Kernel} {s : State}
    (h : Lts.Reach step Fine (start kernel) s) :
    Holds s ∧ ∀ a t, step s a = some t →
      (Fine s a ↔ ∀ u, Lts.Reach step Fine t u → Holds u) := by
  have hkeep : ∀ s a t, Inv s → Fine s a → step s a = some t → Inv t := fun _ _ _ hI hfine hs =>
    step_inv hI hfine hs
  have hinv : Inv s := h.invariant (start_inv kernel) hkeep
  refine ⟨hinv.holds, fun a t hs => ⟨fun hfine u hu => ?_, fun hall => ?_⟩⟩
  · exact (hu.invariant (step_inv hinv hfine hs) hkeep).holds
  · by_contra hfine
    obtain ⟨u, hu, hnot⟩ := step_breaks hinv hs hfine
    exact hnot (hall u hu)

/-- A socket with a timeout is closed by a thread with hooks, and its number used
again. -/
theorem fresh_contexts_reused : ∃ s, s.opening 5 = 2 ∧ s.pc 0 = .creating true 5 ∧ Holds s := by
  have hstart : Lts.Reach step Fine (start closed) (start closed) := .init
  have hopened := hstart.step (Action.opened 0 true (.socket 1) 5)
    ⟨rfl, fun other hook => nofun⟩ rfl
  have hcreated := (hopened.step (Action.lookup 0) trivial rfl).step (Action.create 0) trivial rfl
  have hset := (hcreated.step (Action.setsockopt 0 true 5 SO_RCVTIMEO 5 0) trivial rfl).step
    (Action.setTimeout 0) trivial rfl
  have hdeleted := (hset.step (Action.close 1 true 5) trivial rfl).step (Action.del 1) trivial rfl
  have hclosed := hdeleted.step (Action.close_f 1) (fun _ _ other => match other with
    | 0 | 1 | _ + 2 => nofun) rfl
  have hreopened := hclosed.step (Action.opened 0 true (.socket 1) 5)
    ⟨rfl, fun other hook => match other with | 0 | 1 | _ + 2 => nofun⟩ rfl
  have hlooked := hreopened.step (Action.lookup 0) trivial rfl
  exact ⟨_, rfl, rfl, (fresh_contexts hlooked).1⟩

/-- **The stale timeout**: thread 0 opens descriptor 5 and sets a timeout of five
seconds, thread 1 closes it without hooks, and thread 0 opens it again. -/
theorem stale_timeout : ¬ ∀ s, Lts.Reach step Lts.Any (start closed) s → Holds s := by
  intro h
  have hrun : Lts.run step
      [.opened 0 true (.socket 1) 5, .lookup 0, .create 0, .setsockopt 0 true 5 SO_RCVTIMEO 5 0,
        .setTimeout 0, .close 1 false 5, .close_f 1, .opened 0 true (.socket 1) 5]
      (start closed) = some _ := rfl
  have hreach := Lts.reach_of_run hrun
  obtain ⟨ctx, hctx, hborn, -⟩ := (h _ hreach (.lookup 0) _ 5 rfl rfl).ctx
  cases hctx
  cases hborn

end Reuse

end Hook

end Will
