/-
ZjhServer/Tcp/Socket.lean

The class `Socket` (server/socket.cc): objects that hold a descriptor each, over a kernel that
gives out closed descriptors again, next to code that opens and closes descriptors of its own.

A file that the kernel has open knows who has to close it; every call that an object makes on its
`m_sock` is noted with whose file it has met.  Along every run an open file of an object is the one
that the object holds, no call meets another file, and what nobody can close any more are the
clients that an `accept` has refused (`descriptors_owned`).

The member functions run in `EStateM Unit`: what is thrown is an answer that the kernel cannot
give, or a call on an object that is gone; no step is one that throws.

A call of a member function is one step.  So the runs are those in which calls on one object do not
overlap: while one waits in the hook, whose retry goes to the descriptor it was called with, the
object is not closed and nobody else calls it; nor does anybody open a descriptor between the
`::close` of `close()` and `m_sock = -1`.  A server that closes a socket under its waiting `accept`
is not such a run.
-/
import ZjhServer.Hook.Nonblock
import ZjhServer.Lib.Effect
import ZjhServer.Lib.Lts

namespace Will

namespace Tcp

/-! ### The kernel and the objects -/

/-- Who has to close a file. -/
inductive Maker
  | object (i : Nat)
  /-- accepted, and held by no object -/
  | dropped
  | other
  deriving DecidableEq, Repr

/-- An open file: what `getpeername` and `getsockname` tell. -/
structure File (A : Type) where
  maker : Maker
  peer : Option A
  name : Option A
  deriving DecidableEq, Repr

/-- `m_sock` is `none` for -1. -/
structure Socket (A : Type) where
  m_sock : Option Nat
  m_family : Int
  m_type : Int
  m_protocol : Int
  m_isConnected : Bool
  m_localAddress : Option A
  m_remoteAddress : Option A
  deriving DecidableEq, Repr

/-- The kernel's files, the objects, how many have been made, and the calls on an `m_sock`. -/
structure State (A : Type) where
  files : Nat → Option (File A)
  objects : Nat → Option (Socket A)
  made : Nat
  calls : List (Nat × Option Maker)

variable {A : Type}

abbrev M (A : Type) := EStateM Unit (State A)

namespace State

def setFile (s : State A) (fd : Nat) (f : Option (File A)) : State A :=
  { s with files := Function.update s.files fd f }

def setObject (s : State A) (i : Nat) (o : Option (Socket A)) : State A :=
  { s with objects := Function.update s.objects i o }

end State

/-! ### The source -/

/-- `SOCK_STREAM` and `SOCK_DGRAM` -/
def TCP : Int := 1

def UDP : Int := 2

def AF_UNIX : Int := 1

namespace Socket

/-- `Socket::Socket(family, type, protocol)` -/
def new (family type protocol : Int) : Socket A where
  m_sock := none
  m_family := family
  m_type := type
  m_protocol := protocol
  m_isConnected := false
  m_localAddress := none
  m_remoteAddress := none

/-- `isValid()` -/
def isValid (o : Socket A) : Bool := o.m_sock.isSome

end Socket

/-- The members of an object. -/
def self (i : Nat) : M A (Socket A) := fun s =>
  match s.objects i with
  | some o => .ok o s
  | none => .error () s

/-- An assignment to members other than `m_sock`. -/
def assign (i : Nat) (f : Socket A → Socket A) : M A Unit := fun s =>
  .ok () (s.setObject i ((s.objects i).map fun o => { f o with m_sock := o.m_sock }))

/-- A call on `m_sock`: it meets the file that is open there. -/
def call (i : Nat) : M A Unit := fun s =>
  match (s.objects i).bind (·.m_sock) with
  | some fd => .ok () { s with calls := s.calls ++ [(i, (s.files fd).map (·.maker))] }
  | none => .ok () s

/-- What the call before did to the file. -/
def change (i : Nat) (peer name : Option A) : M A Unit := fun s =>
  match (s.objects i).bind (·.m_sock) with
  | some fd =>
      .ok () (s.setFile fd ((s.files fd).map fun f => { f with
        peer := if peer.isSome then peer else f.peer
        name := if name.isSome then name else f.name }))
  | none => .ok () s

/-- `new Socket(...)` -/
def make (o : Socket A) : M A Nat := fun s =>
  .ok s.made { s.setObject s.made (some { o with m_sock := none }) with made := s.made + 1 }

/-- `if(!isValid()) { newSock(); }`; `fd` is what `socket()` returns, `none` for -1. -/
def newSock (i : Nat) (fd : Option Nat) : M A Unit := fun s =>
  match s.objects i, fd with
  | none, _ => .error () s
  | some o, some fd =>
      if o.isValid then .ok () s
      else if (s.files fd).isSome then .error () s
      else
        .ok () ((s.setFile fd (some ⟨.object i, none, none⟩)).setObject i
          (some { o with m_sock := some fd }))
  | some _, none => .ok () s

/-- `::close(m_sock); m_sock = -1;` -/
def closeSock (i : Nat) : M A Unit := fun s =>
  match s.objects i with
  | some o =>
      match o.m_sock with
      | some fd =>
          .ok () ((s.setFile fd none).setObject i (some { o with m_sock := none }))
      | none => .ok () s
  | none => .error () s

/-- `Socket::close()` -/
def close (i : Nat) : M A Bool := do
  let o ← self i
  if !o.m_isConnected && o.m_sock = none then return true
  assign i fun o => { o with m_isConnected := false }
  call i
  closeSock i
  return false

/-- The object is gone; its destructor closes it. -/
def erase (i : Nat) : M A Unit := fun s => .ok () (s.setObject i none)

/-- `Socket::~Socket()` -/
def destroy (i : Nat) : M A Unit := do
  let _ ← close i
  erase i

/-- `getRemoteAddress()`; `none` for the unknown address. -/
def getRemoteAddress (i : Nat) : M A (Option A) := do
  let o ← self i
  if o.m_remoteAddress.isSome then return o.m_remoteAddress
  call i
  let s ← get
  match (o.m_sock.bind s.files).bind (·.peer) with
  | none => return none
  | some addr =>
      assign i fun o => { o with m_remoteAddress := some addr }
      return some addr

/-- `getLocalAddress()` -/
def getLocalAddress (i : Nat) : M A (Option A) := do
  let o ← self i
  if o.m_localAddress.isSome then return o.m_localAddress
  call i
  let s ← get
  match (o.m_sock.bind s.files).bind (·.name) with
  | none => return none
  | some addr =>
      assign i fun o => { o with m_localAddress := some addr }
      return some addr

/-- What the kernel answers to a `connect`: what `socket()` returns if it is called, whether the
connection is made, and the name that the file then has. -/
structure Connecting (A : Type) where
  fd : Option Nat
  connects : Bool
  name : Option A

/-- What it answers to a `bind`; `probe` is for the socket that looks whether somebody listens. -/
structure Binding (A : Type) where
  fd : Option Nat
  probe : Connecting A
  binds : Bool
  name : Option A

section

variable (getFamily : A → Int) (isUnix : A → Bool)

/-- `Socket::connect(addr, timeout_ms)`, by `::connect` or `::connect_with_timeout` -/
def connect (i : Nat) (addr : A) (k : Connecting A) : M A Bool := do
  assign i fun o => { o with m_remoteAddress := some addr }
  newSock i k.fd
  let o ← self i
  if !o.isValid then return false
  if getFamily addr ≠ o.m_family then return false
  call i
  if !k.connects then
    let _ ← close i
    return false
  change i (some addr) k.name
  assign i fun o => { o with m_isConnected := true }
  let _ ← getRemoteAddress i
  let _ ← getLocalAddress i
  return true

/-- `Socket::reconnect(timeout_ms)` -/
def reconnect (i : Nat) (k : Connecting A) : M A Bool := do
  let o ← self i
  match o.m_remoteAddress with
  | none => return false
  | some addr =>
      assign i fun o => { o with m_localAddress := none }
      connect getFamily i addr k

/-- Whether somebody listens at a path: a socket of its own connects there. -/
def probe (addr : A) (k : Connecting A) : M A Bool := do
  let sock ← make (.new AF_UNIX TCP 0)
  let connected ← connect getFamily sock addr k
  destroy sock
  return connected

/-- `Socket::bind(addr)`; `isUnix` tells whether `addr` is a `UnixAddress`. -/
def bind (i : Nat) (addr : A) (k : Binding A) : M A Bool := do
  assign i fun o => { o with m_localAddress := some addr }
  newSock i k.fd
  let o ← self i
  if !o.isValid then return false
  if getFamily addr ≠ o.m_family then return false
  let inUse ← (if isUnix addr then probe getFamily addr k.probe else pure false : M A Bool)
  if inUse then return false
  call i
  if !k.binds then return false
  change i none k.name
  let _ ← getLocalAddress i
  return true

end

/-- `Socket::listen(backlog)` -/
def listen (i : Nat) (listens : Bool) : M A Bool := do
  let o ← self i
  if !o.isValid then return false
  call i
  return listens

/-- A client that the kernel gives to `::accept`, and what `FdManager` has for its descriptor. -/
structure Client (A : Type) where
  fd : Nat
  peer : Option A
  name : Option A
  ctx : Option Hook.FdCtx

/-- `ctx && ctx->isSocket() && !ctx->isClose()` -/
def Client.managed (c : Client A) : Bool := c.ctx.any fun ctx => ctx.m_isSocket && !ctx.m_isClosed

/-- Only an open descriptor gets a client. -/
def listening (i : Nat) : M A Unit := fun s =>
  if ((s.objects i).bind (·.m_sock)).isSome then .ok () s else .error () s

/-- The client's file is open, and `init` takes it. -/
def adopt (i : Nat) (c : Client A) : M A Unit := fun s =>
  match s.objects i with
  | none => .error () s
  | some o =>
      if (s.files c.fd).isSome || o.isValid then .error () s
      else if c.managed then
        .ok () ((s.setFile c.fd (some ⟨.object i, c.peer, c.name⟩)).setObject i
          (some { o with m_sock := some c.fd, m_isConnected := true }))
      else .ok () (s.setFile c.fd (some ⟨.dropped, c.peer, c.name⟩))

/-- `Socket::accept()`, with `init(newsock)` -/
def accept (i : Nat) (client : Option (Client A)) : M A (Option Nat) := do
  let o ← self i
  let sock ← make (.new o.m_family o.m_type o.m_protocol)
  call i
  match client with
  | none =>
      destroy sock
      return none
  | some c =>
      listening i
      adopt sock c
      if c.managed then
        let _ ← getLocalAddress sock
        let _ ← getRemoteAddress sock
        return some sock
      destroy sock
      return none

/-- `send`, `recv` and their like: they are refused where `isConnected()` is false. -/
def transfer (i : Nat) : M A Bool := do
  let o ← self i
  if !o.m_isConnected then return false
  call i
  return true

/-- `CreateUDP` and its like: whether a descriptor has come or not, the object is connected. -/
def createUDP (family : Int) (fd : Option Nat) : M A Nat := do
  let i ← make (.new family UDP 0)
  newSock i fd
  assign i fun o => { o with m_isConnected := true }
  return i

/-- The calls of the users of the class, and what other code does. -/
inductive Op (A : Type)
  | create (family type protocol : Int)
  | createUDP (family : Int) (fd : Option Nat)
  | bind (i : Nat) (addr : A) (k : Binding A)
  | connect (i : Nat) (addr : A) (k : Connecting A)
  | reconnect (i : Nat) (k : Connecting A)
  | listen (i : Nat) (listens : Bool)
  | accept (i : Nat) (client : Option (Client A))
  | transfer (i : Nat)
  | getLocalAddress (i : Nat)
  | getRemoteAddress (i : Nat)
  | close (i : Nat)
  | destroy (i : Nat)
  | otherOpens (fd : Nat)
  | otherCloses (fd : Nat)

/-- Other code gets a descriptor. -/
def otherOpens (fd : Nat) : M A Unit := fun s =>
  if (s.files fd).isSome then .error () s else .ok () (s.setFile fd (some ⟨.other, none, none⟩))

/-- It closes one of its own. -/
def otherCloses (fd : Nat) : M A Unit := fun s =>
  if (s.files fd).map (·.maker) = some .other then .ok () (s.setFile fd none) else .error () s

def perform (getFamily : A → Int) (isUnix : A → Bool) : Op A → M A Unit
  | .create family type protocol => discard (make (.new family type protocol))
  | .createUDP family fd => discard (createUDP family fd)
  | .bind i addr k => discard (bind getFamily isUnix i addr k)
  | .connect i addr k => discard (connect getFamily i addr k)
  | .reconnect i k => discard (reconnect getFamily i k)
  | .listen i listens => discard (listen i listens)
  | .accept i client => discard (accept i client)
  | .transfer i => discard (transfer i)
  | .getLocalAddress i => discard (getLocalAddress i)
  | .getRemoteAddress i => discard (getRemoteAddress i)
  | .close i => discard (close i)
  | .destroy i => destroy i
  | .otherOpens fd => otherOpens fd
  | .otherCloses fd => otherCloses fd

def step (getFamily : A → Int) (isUnix : A → Bool) (s : State A) (op : Op A) : Option (State A) :=
  match perform getFamily isUnix op s with
  | .ok _ t => some t
  | .error _ _ => none

def start : State A := ⟨fun _ => none, fun _ => none, 0, []⟩

/-! ### Descriptors have one owner -/

open Effect

/-- The open files of the objects are those that they hold; those in `D` have been dropped. -/
structure Owned (D : Nat → Prop) (s : State A) : Prop where
  held : ∀ i o fd, s.objects i = some o → o.m_sock = some fd →
    ∃ f, s.files fd = some f ∧ f.maker = .object i
  owned : ∀ i fd f, s.files fd = some f → f.maker = .object i →
    ∃ o, s.objects i = some o ∧ o.m_sock = some fd
  fresh : ∀ i, s.made ≤ i → s.objects i = none
  own : ∀ c ∈ s.calls, c.2 = some (.object c.1)
  dropped : ∀ fd, D fd → (s.files fd).map (·.maker) = some .dropped

variable {D : Nat → Prop}

theorem Owned.ne_of_made {s : State A} (hs : Owned D s) {i j : Nat} {o : Socket A}
    (ho : s.objects i = some o) (hj : s.made ≤ j) : j ≠ i := by
  rintro rfl
  cases ho.symm.trans (hs.fresh j hj)

theorem Owned.setFile_dropped {s : State A} (hs : Owned D s) {fd : Nat} {f : Option (File A)}
    (hne : (s.files fd).map (·.maker) ≠ some .dropped) {fd' : Nat} (hfd' : D fd') :
    ((s.setFile fd f).files fd').map (·.maker) = some .dropped := by
  have hdropped := hs.dropped fd' hfd'
  have hsame : fd' ≠ fd := by
    rintro rfl
    exact hne hdropped
  simp only [State.setFile, Function.update_of_ne hsame]
  exact hdropped

/-- A program keeps what is owned; what it throws does not matter. -/
abbrev Safe {α : Type} (D : Nat → Prop) (m : M A α) : Prop := Keeps (Owned D) (fun _ => True) m

theorem self_safe (i : Nat) : Safe D (self i : M A (Socket A)) := by
  intro s hs
  unfold wp self
  cases s.objects i with
  | none => exact ⟨trivial, hs⟩
  | some o => exact hs

theorem assign_safe (i : Nat) (f : Socket A → Socket A) : Safe D (assign i f) := by
  intro s hs
  show Owned D (s.setObject i ((s.objects i).map fun o => { f o with m_sock := o.m_sock }))
  -- the descriptor of every object is what it was
  have hsock (j : Nat) : ((s.setObject i ((s.objects i).map fun o =>
      { f o with m_sock := o.m_sock })).objects j).map (·.m_sock) =
      (s.objects j).map (·.m_sock) := by
    unfold State.setObject
    by_cases hji : j = i
    · subst hji
      simp only [Function.update_self, Option.map_map]
      rfl
    · simp only [Function.update_of_ne hji]
  refine ⟨fun j o fd ho hfd => ?_, fun j fd g hg hmaker => ?_, fun j hj => ?_, hs.own,
    hs.dropped⟩
  · have h := (hsock j).symm.trans (congrArg (Option.map (·.m_sock)) ho)
    obtain ⟨o', ho', heq⟩ := Option.map_eq_some_iff.mp h
    exact hs.held j o' fd ho' (heq.trans hfd)
  · obtain ⟨o, ho, hfd⟩ := hs.owned j fd g hg hmaker
    have h := (hsock j).trans (congrArg (Option.map (·.m_sock)) ho)
    obtain ⟨o', ho', heq⟩ := Option.map_eq_some_iff.mp h
    exact ⟨o', ho', heq.trans hfd⟩
  · have h := (hsock j).trans (congrArg (Option.map (·.m_sock)) (hs.fresh j hj))
    exact Option.map_eq_none_iff.mp h

theorem call_safe (i : Nat) : Safe D (call i : M A Unit) := by
  intro s hs
  unfold wp call
  cases hfd : (s.objects i).bind (·.m_sock) with
  | none => exact hs
  | some fd =>
      obtain ⟨o, ho, hsock⟩ := Option.bind_eq_some_iff.mp hfd
      obtain ⟨f, hf, hmaker⟩ := hs.held i o fd ho hsock
      refine ⟨hs.held, hs.owned, hs.fresh, fun c hc => ?_, hs.dropped⟩
      rcases List.mem_append.mp hc with hc | hc
      · exact hs.own c hc
      · obtain rfl := List.mem_singleton.mp hc
        simp only [hf, Option.map_some, hmaker]

theorem change_safe (i : Nat) (peer name : Option A) : Safe D (change i peer name) := by
  intro s hs
  unfold wp change
  cases (s.objects i).bind (·.m_sock) with
  | none => exact hs
  | some fd =>
      refine ⟨fun j o fd' ho hfd' => ?_, fun j fd' g hg hmaker => ?_, hs.fresh, hs.own,
        fun fd' hfd' => ?_⟩
      · obtain ⟨f, hf, hmaker⟩ := hs.held j o fd' ho hfd'
        simp only [State.setFile]
        by_cases hsame : fd' = fd
        · subst hsame
          simp only [Function.update_self, hf, Option.map_some]
          exact ⟨_, rfl, hmaker⟩
        · simp only [Function.update_of_ne hsame]
          exact ⟨f, hf, hmaker⟩
      · simp only [State.setFile] at hg
        by_cases hsame : fd' = fd
        · subst hsame
          simp only [Function.update_self] at hg
          obtain ⟨f, hf, rfl⟩ := Option.map_eq_some_iff.mp hg
          exact hs.owned j fd' f hf hmaker
        · simp only [Function.update_of_ne hsame] at hg
          exact hs.owned j fd' g hg hmaker
      · have hdropped := hs.dropped fd' hfd'
        simp only [State.setFile]
        by_cases hsame : fd' = fd
        · subst hsame
          rw [Function.update_self, Option.map_map]
          exact hdropped
        · rw [Function.update_of_ne hsame]
          exact hdropped

theorem make_safe (o : Socket A) : Safe D (make o) := by
  intro s hs
  have hnone := hs.fresh s.made (Nat.le_refl _)
  refine ⟨fun j o' fd ho hfd => ?_, fun j fd g hg hmaker => ?_, fun j hj => ?_, hs.own,
    hs.dropped⟩
  · simp only [State.setObject] at ho
    by_cases hjm : j = s.made
    · subst hjm
      simp only [Function.update_self, Option.some.injEq] at ho
      subst ho
      cases hfd
    · simp only [Function.update_of_ne hjm] at ho
      exact hs.held j o' fd ho hfd
  · obtain ⟨o', ho, hfd⟩ := hs.owned j fd g hg hmaker
    have hjm : j ≠ s.made := fun hjm => by
      rw [hjm, hnone] at ho
      cases ho
    refine ⟨o', ?_, hfd⟩
    simp only [State.setObject, Function.update_of_ne hjm]
    exact ho
  · have hlt : s.made + 1 ≤ j := hj
    simp only [State.setObject]
    rw [Function.update_of_ne (by omega)]
    exact hs.fresh j (by omega)

/-- An object without a descriptor gets a file that has been opened for it. -/
theorem Owned.attach {s : State A} (hs : Owned D s) {i fd : Nat} {o o' : Socket A} {f : File A}
    (ho : s.objects i = some o) (hnone : o.m_sock = none) (hfree : s.files fd = none)
    (hmaker : f.maker = .object i) (hfd : o'.m_sock = some fd) :
    Owned D ((s.setFile fd (some f)).setObject i (some o')) := by
  refine ⟨fun j p fd' hp hfd' => ?_, fun j fd' g hg hmaker' => ?_, fun j hj => ?_, hs.own,
    fun fd' hfd' => ?_⟩
  · simp only [State.setObject, State.setFile] at hp ⊢
    by_cases hji : j = i
    · subst hji
      simp only [Function.update_self, Option.some.injEq] at hp
      subst hp
      obtain rfl := Option.some.inj (hfd.symm.trans hfd')
      exact ⟨f, Function.update_self .., hmaker⟩
    · simp only [Function.update_of_ne hji] at hp
      obtain ⟨g, hg, hgm⟩ := hs.held j p fd' hp hfd'
      have hne : fd' ≠ fd := fun hsame => by
        rw [hsame, hfree] at hg
        cases hg
      exact ⟨g, (Function.update_of_ne hne ..).trans hg, hgm⟩
  · simp only [State.setObject, State.setFile] at hg ⊢
    by_cases hsame : fd' = fd
    · subst hsame
      simp only [Function.update_self, Option.some.injEq] at hg
      subst hg
      obtain rfl := Maker.object.inj (hmaker'.symm.trans hmaker)
      exact ⟨o', Function.update_self .., hfd⟩
    · simp only [Function.update_of_ne hsame] at hg
      obtain ⟨p, hp, hfd'⟩ := hs.owned j fd' g hg hmaker'
      have hji : j ≠ i := fun hji => by
        rw [hji, ho] at hp
        rw [← Option.some.inj hp, hnone] at hfd'
        cases hfd'
      exact ⟨p, (Function.update_of_ne hji ..).trans hp, hfd'⟩
  · simp only [State.setObject]
    exact (Function.update_of_ne (hs.ne_of_made ho hj) ..).trans (hs.fresh j hj)
  · exact hs.setFile_dropped (by rw [hfree]; exact nofun) hfd'

theorem Socket.isValid_eq_false {o : Socket A} (h : ¬o.isValid = true) : o.m_sock = none :=
  Option.not_isSome_iff_eq_none.mp h

theorem newSock_safe (i : Nat) (fd : Option Nat) : Safe D (newSock i fd : M A Unit) := by
  intro s hs
  unfold wp newSock
  cases ho : s.objects i with
  | none => exact ⟨trivial, hs⟩
  | some o =>
      cases fd with
      | none => exact hs
      | some fd =>
          by_cases hvalid : o.isValid = true
          · simp only [if_pos hvalid]
            exact hs
          · simp only [if_neg hvalid]
            by_cases hopen : (s.files fd).isSome = true
            · simp only [if_pos hopen]
              exact ⟨trivial, hs⟩
            · simp only [if_neg hopen]
              exact hs.attach ho (Socket.isValid_eq_false hvalid)
                (Option.not_isSome_iff_eq_none.mp hopen) rfl rfl

/-- A file that is opened or closed and is no object's. -/
theorem Owned.elsewhere {s : State A} (hs : Owned D s) {fd : Nat} {f : Option (File A)}
    (hold : ∀ g i, s.files fd = some g → g.maker ≠ .object i)
    (hne : (s.files fd).map (·.maker) ≠ some .dropped)
    (hnew : ∀ g i, f = some g → g.maker ≠ .object i) : Owned D (s.setFile fd f) := by
  refine ⟨fun j p fd' hp hfd' => ?_, fun j fd' g hg hmaker => ?_, hs.fresh, hs.own,
    fun fd' hfd' => hs.setFile_dropped hne hfd'⟩
  · obtain ⟨g, hg, hgm⟩ := hs.held j p fd' hp hfd'
    have hne : fd' ≠ fd := fun hsame => hold g j (hsame ▸ hg) hgm
    exact ⟨g, (Function.update_of_ne hne ..).trans hg, hgm⟩
  · simp only [State.setFile] at hg
    by_cases hsame : fd' = fd
    · subst hsame
      rw [Function.update_self] at hg
      exact absurd hmaker (hnew g j hg)
    · rw [Function.update_of_ne hsame] at hg
      exact hs.owned j fd' g hg hmaker

theorem adopt_safe (i : Nat) (c : Client A) : Safe D (adopt i c) := by
  intro s hs
  unfold wp adopt
  cases ho : s.objects i with
  | none => exact ⟨trivial, hs⟩
  | some o =>
      simp only
      by_cases hbad : ((s.files c.fd).isSome || o.isValid) = true
      · simp only [if_pos hbad]
        exact ⟨trivial, hs⟩
      · simp only [if_neg hbad]
        rw [Bool.or_eq_true, not_or] at hbad
        have hfree := Option.not_isSome_iff_eq_none.mp hbad.1
        by_cases hmanaged : c.managed = true
        · simp only [if_pos hmanaged]
          exact hs.attach ho (Socket.isValid_eq_false hbad.2) hfree rfl rfl
        · simp only [if_neg hmanaged]
          refine hs.elsewhere (fun g _ hg => ?_) ?_ fun g _ hg => ?_
          · rw [hfree] at hg
            cases hg
          · rw [hfree]
            exact nofun
          · cases hg
            exact fun h => by cases h

theorem otherOpens_safe (fd : Nat) : Safe D (otherOpens fd : M A Unit) := by
  intro s hs
  unfold wp otherOpens
  by_cases hopen : (s.files fd).isSome = true
  · simp only [if_pos hopen]
    exact ⟨trivial, hs⟩
  · simp only [if_neg hopen]
    have hfree := Option.not_isSome_iff_eq_none.mp hopen
    refine hs.elsewhere (fun g _ hg => ?_) ?_ fun g _ hg => ?_
    · rw [hfree] at hg
      cases hg
    · rw [hfree]
      exact nofun
    · cases hg
      exact fun h => by cases h

theorem otherCloses_safe (fd : Nat) : Safe D (otherCloses fd : M A Unit) := by
  intro s hs
  unfold wp otherCloses
  by_cases hother : (s.files fd).map (·.maker) = some .other
  · simp only [if_pos hother]
    refine hs.elsewhere (fun g i hg hmaker => ?_) ?_ fun g _ hg => ?_
    · rw [hg, Option.map_some, hmaker] at hother
      cases hother
    · rw [hother]
      exact nofun
    · cases hg
  · simp only [if_neg hother]
    exact ⟨trivial, hs⟩

/-- `i` holds nothing. -/
def Empty (i : Nat) (s : State A) : Prop := ∀ o, s.objects i = some o → o.m_sock = none

theorem closeSock_empty (i : Nat) {s : State A} (hs : Owned D s) :
    wp (closeSock i) (fun _ t => Owned D t ∧ Empty i t) (fun _ t => True ∧ Owned D t) s := by
  unfold wp closeSock
  cases ho : s.objects i with
  | none => exact ⟨trivial, hs⟩
  | some o =>
      simp only
      cases hfd : o.m_sock with
      | none =>
          refine ⟨hs, fun o' ho' => ?_⟩
          obtain rfl := Option.some.inj (ho.symm.trans ho')
          exact hfd
      | some fd =>
          obtain ⟨f, hf, hfm⟩ := hs.held i o fd ho hfd
          have hne : (s.files fd).map (·.maker) ≠ some .dropped := by
            rw [hf, Option.map_some, hfm]
            exact nofun
          refine ⟨⟨fun j p fd' hp hfd' => ?_, fun j fd' g hg hmaker => ?_, fun j hj => ?_, hs.own,
            fun fd' hfd' => hs.setFile_dropped hne hfd'⟩, fun o' ho' => ?_⟩
          · simp only [State.setObject, State.setFile] at hp ⊢
            by_cases hji : j = i
            · subst hji
              simp only [Function.update_self, Option.some.injEq] at hp
              subst hp
              cases hfd'
            · simp only [Function.update_of_ne hji] at hp
              obtain ⟨g, hg, hgm⟩ := hs.held j p fd' hp hfd'
              -- another object's descriptor is not this one
              have hne : fd' ≠ fd := fun hsame => by
                rw [hsame, hf] at hg
                cases hg
                exact hji (Maker.object.inj (hgm.symm.trans hfm))
              exact ⟨g, (Function.update_of_ne hne ..).trans hg, hgm⟩
          · simp only [State.setObject, State.setFile] at hg ⊢
            by_cases hsame : fd' = fd
            · subst hsame
              rw [Function.update_self] at hg
              cases hg
            · rw [Function.update_of_ne hsame] at hg
              obtain ⟨p, hp, hfd'⟩ := hs.owned j fd' g hg hmaker
              have hji : j ≠ i := fun hji => by
                rw [hji, ho] at hp
                rw [← Option.some.inj hp, hfd] at hfd'
                exact hsame (Option.some.inj hfd').symm
              exact ⟨p, (Function.update_of_ne hji ..).trans hp, hfd'⟩
          · exact (Function.update_of_ne (hs.ne_of_made ho hj) ..).trans (hs.fresh j hj)
          · simp only [State.setObject, Function.update_self, Option.some.injEq] at ho'
            subst ho'
            rfl

theorem close_empty (i : Nat) {s : State A} (hs : Owned D s) :
    wp (close i) (fun _ t => Owned D t ∧ Empty i t) (fun _ t => True ∧ Owned D t) s := by
  unfold close
  refine wp_bind ?_
  unfold wp self
  cases ho : s.objects i with
  | none => exact ⟨trivial, hs⟩
  | some o =>
      simp only
      by_cases hclosed : (!o.m_isConnected && decide (o.m_sock = none)) = true
      · simp only [if_pos hclosed]
        refine ⟨hs, fun o' ho' => ?_⟩
        obtain rfl := Option.some.inj (ho.symm.trans ho')
        rw [Bool.and_eq_true, decide_eq_true_eq] at hclosed
        exact hclosed.2
      · simp only [if_neg hclosed]
        refine wp_bind (wp_mono (assign_safe i _ s hs) (fun _ t ht => ?_) fun _ _ h => h)
        refine wp_bind (wp_mono (call_safe i t ht) (fun _ t ht => ?_) fun _ _ h => h)
        exact wp_bind (wp_mono (closeSock_empty i ht) (fun _ t ht => ht) fun _ _ h => h)

theorem close_safe (i : Nat) : Safe D (close i : M A Bool) := fun _ hs =>
  wp_mono (close_empty i hs) (fun _ _ ht => ht.1) fun _ _ h => h

theorem destroy_safe (i : Nat) : Safe D (destroy i : M A Unit) := by
  intro s hs
  unfold destroy
  refine wp_bind (wp_mono (close_empty i hs) (fun _ t ht => ?_) fun _ _ h => h)
  obtain ⟨ht, hempty⟩ := ht
  refine ⟨fun j p fd hp hfd => ?_, fun j fd f hf hmaker => ?_, fun j hj => ?_, ht.own,
    ht.dropped⟩
  · simp only [State.setObject] at hp ⊢
    by_cases hji : j = i
    · subst hji
      rw [Function.update_self] at hp
      cases hp
    · rw [Function.update_of_ne hji] at hp
      exact ht.held j p fd hp hfd
  · obtain ⟨p, hp, hfd⟩ := ht.owned j fd f hf hmaker
    have hji : j ≠ i := by
      rintro rfl
      cases (hempty p hp).symm.trans hfd
    exact ⟨p, (Function.update_of_ne hji ..).trans hp, hfd⟩
  · simp only [State.setObject]
    by_cases hji : j = i
    · subst hji
      exact Function.update_self ..
    · exact (Function.update_of_ne hji ..).trans (ht.fresh j hj)

/-! ### Every call keeps it -/

theorem getRemoteAddress_safe (i : Nat) : Safe D (getRemoteAddress i : M A (Option A)) := by
  unfold getRemoteAddress
  refine .bind (self_safe i) fun o => ?_
  split_ifs
  · exact .pure _
  · refine .bind (call_safe i) fun _ => .get_bind fun s => ?_
    split
    · exact .pure _
    · exact .bind (assign_safe i _) fun _ => .pure _

theorem getLocalAddress_safe (i : Nat) : Safe D (getLocalAddress i : M A (Option A)) := by
  unfold getLocalAddress
  refine .bind (self_safe i) fun o => ?_
  split_ifs
  · exact .pure _
  · refine .bind (call_safe i) fun _ => .get_bind fun s => ?_
    split
    · exact .pure _
    · exact .bind (assign_safe i _) fun _ => .pure _

section

variable (getFamily : A → Int) (isUnix : A → Bool)

theorem connect_safe (i : Nat) (addr : A) (k : Connecting A) :
    Safe D (connect getFamily i addr k) := by
  unfold connect
  refine .bind (assign_safe i _) fun _ => .bind (newSock_safe i _) fun _ =>
    .bind (self_safe i) fun o => ?_
  split_ifs
  · exact .pure _
  · exact .pure _
  · refine .bind (call_safe i) fun _ => ?_
    exact .bind (close_safe i) fun _ => .pure _
  · refine .bind (call_safe i) fun _ => .bind (change_safe i _ _) fun _ =>
      .bind (assign_safe i _) fun _ => .bind (getRemoteAddress_safe i) fun _ => ?_
    exact .bind (getLocalAddress_safe i) fun _ => .pure _

theorem reconnect_safe (i : Nat) (k : Connecting A) : Safe D (reconnect getFamily i k) := by
  unfold reconnect
  refine .bind (self_safe i) fun o => ?_
  split
  · exact .pure _
  · exact .bind (assign_safe i _) fun _ => connect_safe getFamily i _ k

theorem probe_safe (addr : A) (k : Connecting A) : Safe D (probe getFamily addr k) := by
  unfold probe
  refine .bind (make_safe _) fun sock => .bind (connect_safe getFamily sock addr k) fun _ => ?_
  exact .bind (destroy_safe sock) fun _ => .pure _

theorem bind_safe (i : Nat) (addr : A) (k : Binding A) :
    Safe D (bind getFamily isUnix i addr k) := by
  unfold bind
  refine .bind (assign_safe i _) fun _ => .bind (newSock_safe i _) fun _ =>
    .bind (self_safe i) fun o => ?_
  by_cases hvalid : (!o.isValid) = true
  · rw [if_pos hvalid]
    exact .pure _
  rw [if_neg hvalid]
  by_cases hfamily : getFamily addr ≠ o.m_family
  · rw [if_pos hfamily]
    exact .pure _
  rw [if_neg hfamily]
  refine .bind ?_ fun inUse => ?_
  · split_ifs
    · exact probe_safe getFamily addr k.probe
    · exact .pure _
  · split_ifs
    · exact .pure _
    · exact .bind (call_safe i) fun _ => .pure _
    · exact .bind (call_safe i) fun _ => .bind (change_safe i _ _) fun _ =>
        .bind (getLocalAddress_safe i) fun _ => .pure _

end

theorem listen_safe (i : Nat) (listens : Bool) : Safe D (listen i listens : M A Bool) := by
  unfold listen
  refine .bind (self_safe i) fun o => ?_
  split_ifs
  · exact .pure _
  · exact .bind (call_safe i) fun _ => .pure _

theorem listening_safe (i : Nat) : Safe D (listening i : M A Unit) := by
  intro s hs
  unfold wp listening
  split_ifs
  · exact hs
  · exact ⟨trivial, hs⟩

theorem accept_safe (i : Nat) (client : Option (Client A)) : Safe D (accept i client) := by
  unfold accept
  refine .bind (self_safe i) fun o => .bind (make_safe _) fun sock =>
    .bind (call_safe i) fun _ => ?_
  split
  · exact .bind (destroy_safe sock) fun _ => .pure _
  · rename_i c
    refine .bind (listening_safe i) fun _ => .bind (adopt_safe sock c) fun _ => ?_
    split_ifs
    · exact .bind (getLocalAddress_safe sock) fun _ =>
        .bind (getRemoteAddress_safe sock) fun _ => .pure _
    · exact .bind (destroy_safe sock) fun _ => .pure _

theorem transfer_safe (i : Nat) : Safe D (transfer i : M A Bool) := by
  unfold transfer
  refine .bind (self_safe i) fun o => ?_
  split_ifs
  · exact .pure _
  · exact .bind (call_safe i) fun _ => .pure _

theorem createUDP_safe (family : Int) (fd : Option Nat) :
    Safe D (createUDP family fd : M A Nat) := by
  unfold createUDP
  refine .bind (make_safe _) fun i => .bind (newSock_safe i fd) fun _ => ?_
  exact .bind (assign_safe i _) fun _ => .pure _

theorem discard_safe {α : Type} {m : M A α} (hm : Safe D m) : Safe D (discard m) :=
  Keeps.bind hm fun _ => .pure ()

section

variable {getFamily : A → Int} {isUnix : A → Bool}

theorem perform_safe (op : Op A) : Safe D (perform getFamily isUnix op) := by
  cases op with
  | create family type protocol => exact discard_safe (make_safe _)
  | createUDP family fd => exact discard_safe (createUDP_safe family fd)
  | bind i addr k => exact discard_safe (bind_safe getFamily isUnix i addr k)
  | connect i addr k => exact discard_safe (connect_safe getFamily i addr k)
  | reconnect i k => exact discard_safe (reconnect_safe getFamily i k)
  | listen i listens => exact discard_safe (listen_safe i listens)
  | accept i client => exact discard_safe (accept_safe i client)
  | transfer i => exact discard_safe (transfer_safe i)
  | getLocalAddress i => exact discard_safe (getLocalAddress_safe i)
  | getRemoteAddress i => exact discard_safe (getRemoteAddress_safe i)
  | close i => exact discard_safe (close_safe i)
  | destroy i => exact destroy_safe i
  | otherOpens fd => exact otherOpens_safe fd
  | otherCloses fd => exact otherCloses_safe fd

/-- Every step keeps what is owned. -/
theorem step_owned {s t : State A} {op : Op A} (hs : Owned D s)
    (h : step getFamily isUnix s op = some t) : Owned D t := by
  unfold step at h
  cases hrun : perform getFamily isUnix op s with
  | error e t' =>
      rw [hrun] at h
      cases h
  | ok a t' =>
      rw [hrun] at h
      cases h
      exact (perform_safe op).ok hs hrun

theorem reach_owned {s t : State A} (hs : Owned D s)
    (h : Lts.Reach (step getFamily isUnix) Lts.Any s t) : Owned D t :=
  h.invariant hs fun _ _ _ hs _ hstep => step_owned hs hstep

theorem start_owned : Owned (fun _ => False) (start : State A) :=
  ⟨nofun, nofun, fun _ _ => rfl, nofun, nofun⟩

/-- **One owner for each descriptor**: in every state of every run an object that has a descriptor
has the file that was opened for it, and no two objects have the same; an open file is held by an
object, or other code has opened it, or it has been dropped, and then nobody ever closes it; and
no call of an object meets another's file. -/
theorem descriptors_owned {s : State A} (h : Lts.Reach (step getFamily isUnix) Lts.Any start s) :
    (∀ i o fd, s.objects i = some o → o.m_sock = some fd →
      ∃ f, s.files fd = some f ∧ f.maker = .object i) ∧
    (∀ i j o p fd, s.objects i = some o → o.m_sock = some fd → s.objects j = some p →
      p.m_sock = some fd → i = j) ∧
    (∀ fd f, s.files fd = some f → f.maker = .other ∨
      (f.maker = .dropped ∧ ∀ t, Lts.Reach (step getFamily isUnix) Lts.Any s t →
        ∃ g, t.files fd = some g ∧ g.maker = .dropped) ∨
      ∃ i o, s.objects i = some o ∧ o.m_sock = some fd) ∧
    (∀ c ∈ s.calls, c.2 = some (.object c.1)) := by
  have hs := reach_owned start_owned h
  refine ⟨hs.held, fun i j o p fd ho hfd hp hfd' => ?_, fun fd f hf => ?_, hs.own⟩
  · obtain ⟨f, hf, hfm⟩ := hs.held i o fd ho hfd
    obtain ⟨g, hg, hgm⟩ := hs.held j p fd hp hfd'
    obtain rfl := Option.some.inj (hf.symm.trans hg)
    exact Maker.object.inj (hfm.symm.trans hgm)
  · cases hmaker : f.maker with
    | other => exact .inl rfl
    | object i => exact .inr (.inr ⟨i, hs.owned i fd f hf hmaker⟩)
    | dropped =>
        refine .inr (.inl ⟨rfl, fun t ht => ?_⟩)
        -- what has been dropped is dropped for good
        have hs' : Owned (· = fd) s := by
          refine ⟨hs.held, hs.owned, hs.fresh, hs.own, ?_⟩
          rintro fd' rfl
          rw [hf, Option.map_some, hmaker]
        obtain ⟨g, hg, hgm⟩ := Option.map_eq_some_iff.mp ((reach_owned hs' ht).dropped fd rfl)
        exact ⟨g, hg, hgm⟩

end

/-- A context as the hooked `accept` makes it. -/
def managedCtx : Hook.FdCtx where
  m_isInit := true
  m_isSocket := true
  m_sysNonblock := true
  m_userNonblock := false
  m_isClosed := false
  m_recvTimeout := -1
  m_sendTimeout := -1

/-- A socket listens and accepts twice; the second client has no context. -/
def accepting : List (Op Int) :=
  [.create 2 TCP 0, .bind 0 2 ⟨some 3, ⟨none, false, none⟩, true, none⟩, .listen 0 true,
    .accept 0 (some ⟨4, some 2, none, some managedCtx⟩), .accept 0 (some ⟨5, some 2, none, none⟩),
    .transfer 1, .close 0]

def refusing : State Int := (Lts.run (step id fun _ => false) accepting start).getD start

theorem descriptors_owned_accepting :
    (∃ f, refusing.files 4 = some f ∧ f.maker = .object 1) ∧
    ∀ t, Lts.Reach (step id fun _ => false) Lts.Any refusing t →
      ∃ g, t.files 5 = some g ∧ g.maker = .dropped := by
  have hrun : Lts.run (step id fun _ => false) accepting start = some refusing := rfl
  have hreach : Lts.Reach (step id fun _ => false) Lts.Any start refusing :=
    Lts.reach_of_run hrun
  obtain ⟨hheld, -, hfiles, -⟩ := descriptors_owned hreach
  refine ⟨hheld 1 _ 4 rfl rfl, ?_⟩
  rcases hfiles 5 _ rfl with hother | ⟨-, hstays⟩ | ⟨i, o, ho, hfd⟩
  · cases hother
  · exact hstays
  · obtain ⟨g, hg, hmaker⟩ := hheld i o 5 ho hfd
    cases hg
    cases hmaker

end Tcp

end Will
