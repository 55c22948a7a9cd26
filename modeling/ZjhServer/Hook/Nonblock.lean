/-
ZjhServer/Hook/Nonblock.lean

The blocking mode of hooked sockets: `FdCtx` and `FdManager` (server/fd_manager.{h,cc})
and the hooks `socket`, `accept`, `fcntl` and `ioctl` (server/hook.cc), called by
threads with the hooks enabled.

The kernel's flags of a socket have `O_NONBLOCK`, whatever the application asks for;
what it asked for is `m_userNonblock`.  `ioctl(FIONBIO)` hands the value of the
application to the kernel, and a socket created with `SOCK_NONBLOCK` is remembered
as a blocking one.  Without these two the kernel's sockets never block, and
`fcntl(F_GETFL)` shows the application the mode it asked for (`never_blocks`).
-/
import ZjhServer.Lib.Lts
import ZjhServer.Lib.Slots
import Mathlib.Logic.Function.Basic

namespace Will

namespace Hook

/-! ### The kernel's side -/

def O_NONBLOCK : BitVec 32 := 0x800#32

/-- On Linux the same bit as `O_NONBLOCK`. -/
def SOCK_NONBLOCK : BitVec 32 := 0x800#32

/-- The flags `F_SETFL` can change: `O_APPEND`, `O_NONBLOCK`, `O_ASYNC`, `O_DIRECT`,
`O_NOATIME`. -/
def SETFL_MASK : BitVec 32 := 0x46C00#32

/-- An open file: whether it is a socket, and its status flags. -/
structure File where
  isSocket : Bool
  flags : BitVec 32
  deriving DecidableEq, Repr

/-- The open descriptors. -/
abbrev Kernel := Nat → Option File

/-- `flags & O_NONBLOCK` -/
def nonblock (flags : BitVec 32) : Bool := flags &&& O_NONBLOCK != 0#32

namespace Kernel

/-- `fcntl_f(fd, F_GETFL)` -/
def getfl (k : Kernel) (fd : Nat) : BitVec 32 :=
  match k fd with
  | some file => file.flags
  | none => -1

/-- `fcntl_f(fd, F_SETFL, arg)`; some flags are refused (`fails`). -/
def setfl (k : Kernel) (fd : Nat) (arg : BitVec 32) (fails : Bool) : Kernel :=
  match k fd with
  | some file =>
      if fails then k
      else Function.update k fd
        (some { file with flags := (file.flags &&& ~~~SETFL_MASK) ||| (arg &&& SETFL_MASK) })
  | none => k

/-- `ioctl_f(fd, FIONBIO, &arg)` -/
def fionbio (k : Kernel) (fd : Nat) (arg : BitVec 32) : Kernel :=
  match k fd with
  | some file =>
      Function.update k fd (some { file with
        flags := if arg ≠ 0 then file.flags ||| O_NONBLOCK else file.flags &&& ~~~O_NONBLOCK })
  | none => k

end Kernel

/-! ### Descriptor contexts -/

structure FdCtx where
  m_isInit : Bool
  m_isSocket : Bool
  m_sysNonblock : Bool
  m_userNonblock : Bool
  m_isClosed : Bool
  m_recvTimeout : BitVec 64
  m_sendTimeout : BitVec 64
  deriving DecidableEq, Repr

/-- `FdCtx::init`; the descriptor may turn out not to be open. -/
def FdCtx.init (k : Kernel) (fd : Nat) : Kernel × FdCtx :=
  let isSocket := (k fd).elim false (·.isSocket)
  let k :=
    if isSocket then
      let flags := k.getfl fd
      if nonblock flags then k else k.setfl fd (flags ||| O_NONBLOCK) false
    else k
  (k, { m_isInit := (k fd).isSome
        m_isSocket := isSocket
        m_sysNonblock := isSocket
        m_userNonblock := false
        m_isClosed := false
        m_recvTimeout := -1
        m_sendTimeout := -1 })

/-- `m_datas` of `FdManager`. -/
abbrev FdManager := Slots FdCtx

namespace FdManager

def start : FdManager := List.replicate 64 none

/-- `get(fd)` -/
def get (m_datas : FdManager) (fd : Nat) : Option FdCtx := Slots.get m_datas fd

/-- `m_datas[fd] = ctx`, in a table that has the slot: it is resized to `fd * 1.5`. -/
def put (m_datas : FdManager) (fd : Nat) (ctx : FdCtx) : FdManager :=
  Slots.fill m_datas (fd * 3 / 2) fd ctx

end FdManager

/-! ### The hooks -/

/-- The kernel, the contexts, and the mode the application last asked for, of each
socket it has created. -/
structure State where
  kernel : Kernel
  m_datas : FdManager
  requested : Nat → Option Bool

namespace State

/-- `FdMgr::GetInstance()->get(fd, true)` -/
def create (s : State) (fd : Nat) : State :=
  match s.m_datas.get fd with
  | some _ => s
  | none =>
      let r := FdCtx.init s.kernel fd
      { s with kernel := r.1, m_datas := s.m_datas.put fd r.2 }

/-- The kernel has opened a socket as `fd`. -/
def opened (s : State) (fd : Nat) (flags : BitVec 32) (mode : Bool) : State :=
  { s with
    kernel := Function.update s.kernel fd (some ⟨true, flags⟩)
    requested := Function.update s.requested fd (some mode) }

/-- The application asks for a mode of a socket it has created. -/
def request (s : State) (fd : Nat) (mode : Bool) : State :=
  { s with requested := Function.update s.requested fd ((s.requested fd).map fun _ => mode) }

/-- The context the hooks go by; without it they hand the call on. -/
def managed (s : State) (fd : Nat) : Option FdCtx :=
  (s.m_datas.get fd).filter fun ctx => !ctx.m_isClosed && ctx.m_isSocket

/-- `fcntl(fd, F_SETFL, arg)` -/
def setfl (s : State) (fd : Nat) (arg : BitVec 32) (fails : Bool) : State :=
  match s.managed fd with
  | none => { s with kernel := s.kernel.setfl fd arg fails }
  | some ctx =>
      let arg' := if ctx.m_sysNonblock then arg ||| O_NONBLOCK else arg &&& ~~~O_NONBLOCK
      { s with
        m_datas := s.m_datas.set fd (some { ctx with m_userNonblock := nonblock arg })
        kernel := s.kernel.setfl fd arg' fails }

/-- `fcntl(fd, F_GETFL)` -/
def getfl (s : State) (fd : Nat) : BitVec 32 :=
  let arg := s.kernel.getfl fd
  match s.managed fd with
  | none => arg
  | some ctx => if ctx.m_userNonblock then arg ||| O_NONBLOCK else arg &&& ~~~O_NONBLOCK

/-- `ioctl(fd, FIONBIO, &arg)` -/
def fionbio (s : State) (fd : Nat) (arg : BitVec 32) : State :=
  match s.managed fd with
  | none => { s with kernel := s.kernel.fionbio fd arg }
  | some ctx =>
      let user_nonblock : Bool := arg ≠ 0
      { s with
        m_datas := s.m_datas.set fd (some { ctx with m_userNonblock := user_nonblock })
        kernel := s.kernel.fionbio fd arg }

end State

/-- A call and the kernel's answer to it: the descriptor of the new socket, if there
is one.  The other arguments of `socket` and `accept` only the kernel reads. -/
inductive Call
  | socket (type : BitVec 32) (answer : Option Nat)
  | accept (answer : Option Nat)
  | setfl (fd : Nat) (arg : BitVec 32) (fails : Bool)
  | getfl (fd : Nat)
  | fionbio (fd : Nat) (arg : BitVec 32)
  deriving DecidableEq, Repr

/-- `O_RDWR`, and `O_NONBLOCK` if the type of the socket says so. -/
def socketFlags (type : BitVec 32) : BitVec 32 := 0x2#32 ||| (type &&& SOCK_NONBLOCK)

/-- The kernel answers with a descriptor that was not open. -/
def step (s : State) : Call → Option State
  | .socket type answer =>
      match answer with
      | none => some s
      | some fd =>
          if (s.kernel fd).isNone then
            some ((s.opened fd (socketFlags type) (nonblock type)).create fd)
          else none
  | .accept answer =>
      -- an accepted socket does not take over the mode of the listening one
      match answer with
      | none => some s
      | some fd =>
          if (s.kernel fd).isNone then some ((s.opened fd (socketFlags 0) false).create fd)
          else none
  | .setfl fd arg fails => some ((s.setfl fd arg fails).request fd (nonblock arg))
  | .getfl _ => some s
  | .fionbio fd arg => some ((s.fionbio fd arg).request fd (arg ≠ 0))

/-- Any descriptors open, none of them created through the hooks. -/
def start (kernel : Kernel) : State where
  kernel := kernel
  m_datas := .start
  requested := fun _ => none

/-! ### What is asked of the hooks -/

/-- A created socket has its context; the kernel does not block on it; and `F_GETFL`
shows the mode last requested. -/
structure Keeps (s : State) (fd : Nat) (mode : Bool) : Prop where
  ctx : ∃ ctx, s.m_datas.get fd = some ctx ∧ ctx.m_sysNonblock = true
  kernel : ∃ file, s.kernel fd = some file ∧ nonblock file.flags = true
  getfl : nonblock (s.getfl fd) = mode

def Holds (s : State) : Prop := ∀ fd mode, s.requested fd = some mode → Keeps s fd mode

/-- No socket is created with `SOCK_NONBLOCK`, and none that was created through the
hooks is set blocking by `FIONBIO`. -/
def Fine (s : State) : Call → Prop
  | .socket type (some _) => nonblock type = false
  | .fionbio fd arg => (s.requested fd).isSome → arg ≠ 0
  | _ => True

/-! ### The bit `O_NONBLOCK` -/

theorem nonblock_eq (flags : BitVec 32) : nonblock flags = flags.getLsbD 11 := by
  have hpow : O_NONBLOCK = BitVec.twoPow 32 11 := by decide
  unfold nonblock
  rw [hpow, BitVec.and_twoPow]
  cases flags.getLsbD 11 <;> decide

@[simp] theorem nonblock_set (flags : BitVec 32) : nonblock (flags ||| O_NONBLOCK) = true := by
  rw [nonblock_eq, BitVec.getLsbD_or, show O_NONBLOCK.getLsbD 11 = true by decide, Bool.or_true]

@[simp] theorem nonblock_clear (flags : BitVec 32) :
    nonblock (flags &&& ~~~O_NONBLOCK) = false := by
  rw [nonblock_eq, BitVec.getLsbD_and, show (~~~O_NONBLOCK).getLsbD 11 = false by decide,
    Bool.and_false]

/-- `F_SETFL` can change the bit. -/
@[simp] theorem nonblock_setfl (flags arg : BitVec 32) :
    nonblock ((flags &&& ~~~SETFL_MASK) ||| (arg &&& SETFL_MASK)) = nonblock arg := by
  rw [nonblock_eq, nonblock_eq, BitVec.getLsbD_or, BitVec.getLsbD_and, BitVec.getLsbD_and,
    show (~~~SETFL_MASK).getLsbD 11 = false by decide,
    show SETFL_MASK.getLsbD 11 = true by decide, Bool.and_false, Bool.false_or, Bool.and_true]

@[simp] theorem nonblock_socketFlags (type : BitVec 32) :
    nonblock (socketFlags type) = nonblock type := by
  unfold socketFlags
  rw [nonblock_eq, nonblock_eq, BitVec.getLsbD_or, BitVec.getLsbD_and,
    show (0x2#32).getLsbD 11 = false by decide, show SOCK_NONBLOCK.getLsbD 11 = true by decide,
    Bool.false_or, Bool.and_true]

/-! ### The table -/

/-- A table of at least 64 slots grows to have the slot asked for. -/
theorem FdManager.put_spec {m_datas : FdManager} (h : 64 ≤ m_datas.length) (fd : Nat)
    (ctx : FdCtx) :
    64 ≤ (m_datas.put fd ctx).length ∧
      ∀ fd', (m_datas.put fd ctx).get fd' = if fd' = fd then some ctx else m_datas.get fd' :=
  Slots.fill_spec h (fun hfd => by omega) ctx

/-! ### The invariant -/

/-- The context of a socket in this mode. -/
def socketCtx (mode : Bool) : FdCtx where
  m_isInit := true
  m_isSocket := true
  m_sysNonblock := true
  m_userNonblock := mode
  m_isClosed := false
  m_recvTimeout := -1
  m_sendTimeout := -1

/-- A socket created through the hooks, that the application has asked to be in `mode`. -/
structure Socket (s : State) (fd : Nat) (mode : Bool) : Prop where
  ctx : s.m_datas.get fd = some (socketCtx mode)
  file : ∃ flags, s.kernel fd = some ⟨true, flags⟩ ∧ nonblock flags = true

structure Inv (s : State) : Prop where
  size : 64 ≤ s.m_datas.length
  created : ∀ fd mode, s.requested fd = some mode → Socket s fd mode
  other : ∀ fd, s.requested fd = none → s.m_datas.get fd = none

theorem start_inv (kernel : Kernel) : Inv (start kernel) where
  size := by simp [start, FdManager.start]
  created := fun _ _ h => by cases h
  other := fun fd _ => Slots.get_replicate 64 fd

theorem managed_of_socket {s : State} {fd : Nat} {mode : Bool} (h : Socket s fd mode) :
    s.managed fd = some (socketCtx mode) := by
  unfold State.managed
  rw [h.ctx]
  rfl

theorem Socket.keeps {s : State} {fd : Nat} {mode : Bool} (h : Socket s fd mode) :
    Keeps s fd mode := by
  obtain ⟨flags, hfile, hflags⟩ := h.file
  refine ⟨⟨_, h.ctx, rfl⟩, ⟨_, hfile, hflags⟩, ?_⟩
  unfold State.getfl
  rw [managed_of_socket h]
  cases mode with
  | true => exact nonblock_set _
  | false => exact nonblock_clear _

theorem Inv.holds {s : State} (h : Inv s) : Holds s := fun fd mode hmode =>
  (h.created fd mode hmode).keeps

/-- One descriptor changed: it is a created socket now, or still is not one. -/
theorem Inv.update {s t : State} (h : Inv s) {fd : Nat} (hsize : 64 ≤ t.m_datas.length)
    (hrequested : ∀ fd', fd' ≠ fd → t.requested fd' = s.requested fd')
    (hget : ∀ fd', fd' ≠ fd → t.m_datas.get fd' = s.m_datas.get fd')
    (hkernel : ∀ fd', fd' ≠ fd → t.kernel fd' = s.kernel fd')
    (hcreated : ∀ mode, t.requested fd = some mode → Socket t fd mode)
    (hother : t.requested fd = none → t.m_datas.get fd = none) : Inv t where
  size := hsize
  created := by
    intro fd' mode hmode
    by_cases hfd : fd' = fd
    · rw [hfd] at hmode ⊢
      exact hcreated mode hmode
    · rw [hrequested fd' hfd] at hmode
      have hold := h.created fd' mode hmode
      refine ⟨?_, ?_⟩
      · rw [hget fd' hfd]
        exact hold.ctx
      · rw [hkernel fd' hfd]
        exact hold.file
  other := by
    intro fd' hnone
    by_cases hfd : fd' = fd
    · rw [hfd] at hnone ⊢
      exact hother hnone
    · rw [hget fd' hfd]
      exact h.other fd' (by rw [← hrequested fd' hfd, hnone])

/-! ### What each hook does -/

/-- `FdCtx::init` of an open socket. -/
theorem init_socket {k : Kernel} {fd : Nat} {flags : BitVec 32} (h : k fd = some ⟨true, flags⟩) :
    ∃ flags', nonblock flags' = true ∧
      FdCtx.init k fd = (Function.update k fd (some ⟨true, flags'⟩), socketCtx false) := by
  rcases hflags : nonblock flags with _ | _
  · refine ⟨((flags &&& ~~~SETFL_MASK) ||| ((flags ||| O_NONBLOCK) &&& SETFL_MASK)), by simp, ?_⟩
    simp [FdCtx.init, Kernel.getfl, Kernel.setfl, h, hflags, socketCtx]
  · refine ⟨flags, hflags, ?_⟩
    rw [← h, Function.update_eq_self]
    simp [FdCtx.init, Kernel.getfl, h, hflags, socketCtx]

/-- A new socket gets its context, and loses its blocking mode. -/
theorem opened_create {s : State} {fd : Nat} (h : s.m_datas.get fd = none) (flags : BitVec 32)
    (mode : Bool) :
    ∃ flags', nonblock flags' = true ∧ (s.opened fd flags mode).create fd =
      { kernel := Function.update s.kernel fd (some ⟨true, flags'⟩)
        m_datas := s.m_datas.put fd (socketCtx false)
        requested := Function.update s.requested fd (some mode) } := by
  have hget : (s.opened fd flags mode).m_datas.get fd = none := h
  have hfile : (s.opened fd flags mode).kernel fd = some ⟨true, flags⟩ := Function.update_self ..
  obtain ⟨flags', hflags, hinit⟩ := init_socket hfile
  refine ⟨flags', hflags, ?_⟩
  unfold State.create
  simp only [hget, hinit]
  simp [State.opened]

/-- The application's request is kept in the context of a socket it has created, and
the kernel's flags become `flags'`. -/
theorem Inv.setMode {s : State} (h : Inv s) {fd : Nat} {old : Bool} (hold : Socket s fd old)
    (hmode : s.requested fd = some old) (mode : Bool) (flags' : BitVec 32)
    (hflags : nonblock flags' = true) {k : Kernel}
    (hk : k = Function.update s.kernel fd (some ⟨true, flags'⟩)) :
    Inv (State.request { s with
      m_datas := s.m_datas.set fd (some (socketCtx mode)), kernel := k } fd mode) := by
  have hlt := Slots.lt_of_get hold.ctx
  have hget := Slots.get_set hlt (some (socketCtx mode))
  refine h.update ?_ (fun fd' (hne : fd' ≠ fd) => Function.update_of_ne hne _ _)
    (fun fd' hne => (hget fd').trans (if_neg hne)) (fun fd' hne => ?_) (fun mode' hmode' => ?_)
    (fun hnone => ?_)
  · show 64 ≤ (s.m_datas.set fd _).length
    rw [List.length_set]
    exact h.size
  · show k fd' = s.kernel fd'
    rw [hk, Function.update_of_ne hne]
  · have heq : some mode = some mode' := by
      rw [← hmode']
      simp [State.request, hmode]
    cases heq
    refine ⟨(hget fd).trans (if_pos rfl), flags', ?_, hflags⟩
    show k fd = _
    rw [hk, Function.update_self]
  · simp [State.request, hmode] at hnone

/-- A descriptor that no hook has created is the kernel's only. -/
theorem Inv.foreign {s : State} (h : Inv s) {fd : Nat} (hnone : s.requested fd = none)
    (mode : Bool) {k : Kernel} (hk : ∀ fd', fd' ≠ fd → k fd' = s.kernel fd') :
    Inv (State.request { s with kernel := k } fd mode) := by
  refine h.update h.size (fun fd' (hne : fd' ≠ fd) => Function.update_of_ne hne _ _)
    (fun _ _ => rfl) hk (fun mode' hmode => ?_) (fun _ => h.other fd hnone)
  simp [State.request, hnone] at hmode

theorem managed_of_foreign {s : State} (h : Inv s) {fd : Nat} (hnone : s.requested fd = none) :
    s.managed fd = none := by
  unfold State.managed
  rw [h.other fd hnone]
  rfl

theorem setfl_other (k : Kernel) {fd fd' : Nat} (hne : fd' ≠ fd) (arg : BitVec 32)
    (fails : Bool) : k.setfl fd arg fails fd' = k fd' := by
  unfold Kernel.setfl
  cases k fd with
  | none => rfl
  | some file =>
      cases fails with
      | true => rfl
      | false => exact Function.update_of_ne hne _ _

theorem fionbio_other (k : Kernel) {fd fd' : Nat} (hne : fd' ≠ fd) (arg : BitVec 32) :
    k.fionbio fd arg fd' = k fd' := by
  unfold Kernel.fionbio
  cases k fd with
  | none => rfl
  | some file => exact Function.update_of_ne hne _ _

/-- **`fcntl(F_SETFL)`**, with any flags, accepted by the kernel or not. -/
theorem setfl_inv {s : State} (h : Inv s) (fd : Nat) (arg : BitVec 32) (fails : Bool) :
    Inv ((s.setfl fd arg fails).request fd (nonblock arg)) := by
  unfold State.setfl
  rcases hmode : s.requested fd with _ | old
  · rw [managed_of_foreign h hmode]
    exact h.foreign hmode _ fun fd' hne => setfl_other s.kernel hne arg fails
  · have hold := h.created fd old hmode
    obtain ⟨flags, hfile, hflags⟩ := hold.file
    rw [managed_of_socket hold]
    cases fails with
    | true =>
        refine h.setMode hold hmode _ flags hflags ?_
        rw [← hfile, Function.update_eq_self]
        simp [Kernel.setfl, hfile]
    | false =>
        refine h.setMode hold hmode _
          ((flags &&& ~~~SETFL_MASK) ||| ((arg ||| O_NONBLOCK) &&& SETFL_MASK)) (by simp) ?_
        simp [Kernel.setfl, hfile, socketCtx]

/-- **`ioctl(FIONBIO)`** that does not ask a created socket to block. -/
theorem fionbio_inv {s : State} (h : Inv s) {fd : Nat} {arg : BitVec 32}
    (hfine : Fine s (.fionbio fd arg)) :
    Inv ((s.fionbio fd arg).request fd (arg ≠ 0)) := by
  unfold State.fionbio
  rcases hmode : s.requested fd with _ | old
  · rw [managed_of_foreign h hmode]
    exact h.foreign hmode _ fun fd' hne => fionbio_other s.kernel hne arg
  · have hold := h.created fd old hmode
    have harg : arg ≠ 0#32 := hfine (by rw [hmode]; rfl)
    obtain ⟨flags, hfile, hflags⟩ := hold.file
    rw [managed_of_socket hold]
    refine h.setMode hold hmode _ (flags ||| O_NONBLOCK) (nonblock_set flags) ?_
    simp [Kernel.fionbio, hfile, harg]

/-- A descriptor that is not open has no context. -/
theorem get_of_free {s : State} (h : Inv s) {fd : Nat} (hfree : (s.kernel fd).isNone) :
    s.m_datas.get fd = none := by
  refine h.other fd ?_
  rcases hmode : s.requested fd with _ | mode
  · rfl
  · obtain ⟨flags, hfile, -⟩ := (h.created fd mode hmode).file
    rw [hfile] at hfree
    cases hfree

/-- **`socket` and `accept`**, where the application asks for a blocking socket. -/
theorem create_inv {s : State} (h : Inv s) {fd : Nat} (hfree : (s.kernel fd).isNone)
    (flags : BitVec 32) : Inv ((s.opened fd flags false).create fd) := by
  obtain ⟨flags', hflags, heq⟩ := opened_create (get_of_free h hfree) flags false
  obtain ⟨hsize, hget⟩ := FdManager.put_spec h.size fd (socketCtx false)
  rw [heq]
  refine h.update hsize (fun fd' (hne : fd' ≠ fd) => Function.update_of_ne hne _ _)
    (fun fd' hne => (hget fd').trans (if_neg hne)) (fun fd' hne => Function.update_of_ne hne _ _)
    (fun mode hmode => ?_) (fun hnone => ?_)
  · have heq : some false = some mode := by
      rw [← hmode]
      simp
    cases heq
    exact ⟨(hget fd).trans (if_pos rfl), flags', Function.update_self _ _ _, hflags⟩
  · simp at hnone

theorem step_inv {s t : State} {c : Call} (h : Inv s) (hfine : Fine s c)
    (hs : step s c = some t) : Inv t := by
  cases c with
  | socket type answer =>
      cases answer with
      | none => cases hs; exact h
      | some fd =>
          have hblock : nonblock type = false := hfine
          simp only [step, hblock] at hs
          split_ifs at hs with hfree
          cases hs
          exact create_inv h hfree _
  | accept answer =>
      cases answer with
      | none => cases hs; exact h
      | some fd =>
          simp only [step] at hs
          split_ifs at hs with hfree
          cases hs
          exact create_inv h hfree _
  | setfl fd arg fails => cases hs; exact setfl_inv h fd arg fails
  | getfl fd => cases hs; exact h
  | fionbio fd arg => cases hs; exact fionbio_inv h hfine

/-! ### The calls that break it -/

/-- A socket created with `SOCK_NONBLOCK` is shown as a blocking one. -/
theorem socket_breaks {s : State} (h : Inv s) {fd : Nat} (hfree : (s.kernel fd).isNone)
    (flags : BitVec 32) : ¬ Holds ((s.opened fd flags true).create fd) := by
  obtain ⟨flags', -, heq⟩ := opened_create (get_of_free h hfree) flags true
  obtain ⟨-, hget⟩ := FdManager.put_spec h.size fd (socketCtx false)
  rw [heq]
  intro hholds
  have hkeeps := hholds fd true (Function.update_self _ _ _)
  have hctx := (hget fd).trans (if_pos rfl)
  have hshown := hkeeps.getfl
  unfold State.getfl State.managed at hshown
  simp only [hctx] at hshown
  exact absurd ((nonblock_clear _).symm.trans hshown) (by decide)

/-- `FIONBIO` with 0 reaches the kernel. -/
theorem fionbio_breaks {s : State} (h : Inv s) {fd : Nat}
    (hcreated : (s.requested fd).isSome) : ¬ Holds ((s.fionbio fd 0).request fd false) := by
  obtain ⟨old, hmode⟩ := Option.isSome_iff_exists.mp hcreated
  have hold := h.created fd old hmode
  obtain ⟨flags, hfile, -⟩ := hold.file
  intro hholds
  have hkeeps := hholds fd false
    (by simp [State.request, State.fionbio, managed_of_socket hold, hmode])
  obtain ⟨file, hfile', hnonblock⟩ := hkeeps.kernel
  simp [State.request, State.fionbio, managed_of_socket hold, Kernel.fionbio, hfile] at hfile'
  rw [← hfile', nonblock_clear] at hnonblock
  cases hnonblock

/-- **One call** keeps what is asked exactly when it is neither of the two. -/
theorem step_holds_iff {s t : State} {c : Call} (h : Inv s) (hs : step s c = some t) :
    Holds t ↔ Fine s c := by
  refine ⟨fun hholds => ?_, fun hfine => (step_inv h hfine hs).holds⟩
  by_contra hnot
  cases c with
  | socket type answer =>
      cases answer with
      | none => exact hnot trivial
      | some fd =>
          have hnonblock : nonblock type = true := by simpa [Fine] using hnot
          simp only [step, hnonblock] at hs
          split_ifs at hs with hfree
          cases hs
          exact socket_breaks h hfree _ hholds
  | accept answer => exact hnot trivial
  | setfl fd arg fails => exact hnot trivial
  | getfl fd => exact hnot trivial
  | fionbio fd arg =>
      obtain ⟨hcreated, harg⟩ : (s.requested fd).isSome ∧ arg = 0 := by simpa [Fine] using hnot
      subst harg
      cases hs
      exact fionbio_breaks h hcreated hholds

/-- **Hooked sockets never block the kernel's way**, and show the application the mode it
last asked for, in every state reached without the two calls; and the next call keeps
this exactly when it is neither of them. -/
theorem never_blocks {kernel : Kernel} {s : State} (h : Lts.Reach step Fine (start kernel) s) :
    Holds s ∧ ∀ c t, step s c = some t → (Holds t ↔ Fine s c) := by
  have hinv : Inv s := h.invariant (start_inv kernel) fun _ _ _ hI hfine hs => step_inv hI hfine hs
  exact ⟨hinv.holds, fun c t hs => step_holds_iff hinv hs⟩

/-- No descriptor is open. -/
def closed : Kernel := fun _ => none

theorem never_blocks_accepted :
    ∃ s, s.requested 7 = some true ∧ Holds s := by
  have hstart : Lts.Reach step Fine (start closed) (start closed) := .init
  have haccepted := hstart.step (Call.accept (some 7)) trivial rfl
  have hset := haccepted.step (Call.setfl 7 O_NONBLOCK false) trivial rfl
  exact ⟨_, rfl, (never_blocks hset).1⟩

/-- **The kernel is told to block**: `FIONBIO` with 0 on an accepted socket. -/
theorem fionbio_forwarded : ¬ ∀ s, Lts.Reach step Lts.Any (start closed) s → Holds s := by
  intro h
  have hstart : Lts.Reach step Lts.Any (start closed) (start closed) := .init
  have haccepted := hstart.step (Call.accept (some 7)) trivial rfl
  have hblocking := haccepted.step (Call.fionbio 7 0) trivial rfl
  obtain ⟨file, hfile, hnonblock⟩ := (h _ hblocking 7 false rfl).kernel
  cases hfile
  exact absurd hnonblock (by decide)

end Hook

end Will
