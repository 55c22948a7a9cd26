/-
ZjhServer/Mutex/Guards.lean

The scoped locks of server/mutex.h: `ScopedLockImpl`, `ReadScopedLockImpl` and
`WriteScopedLockImpl` over `Mutex`, `RWMutex`, `Spinlock` and `CASLock`.

Any threads make and destroy any guards on any mutexes, and lock and unlock them in between.  The
mutexes know how many have them (Lib/RwLock.lean), the guards go by `m_locked`.  That the two agree
is what makes a region under a guard one step, as other modules take it to be: no other guard is
inside unless both read, and what the mutex protects does not change but by the guard
(`regions_apart`).

`RWMutex` drops what `pthread_rwlock_wrlock` returns.  A thread that already has the lock for
writing is told so (`EDEADLK`), and its second guard takes itself to be locked; when that one is
destroyed, the lock is free and the first guard is still inside (`nested_lets_in`).
-/
import ZjhServer.Lib.Lts
import ZjhServer.Lib.RwLock

namespace Will

namespace Guards

open RwLock (Mode Lock Fits)

/-! ### The source -/

/-- The class that a guard is for. -/
inductive Kind
  | Mutex
  | RWMutex
  | Spinlock
  | CASLock
  deriving DecidableEq, Repr

/-- The member function that a guard locks with: `rdlock()`, or `wrlock()` or `lock()`. -/
def Kind.has : Kind → Mode → Bool
  | .RWMutex, _ => true
  | _, .write => true
  | _, .read => false

/-- Where a guard is. -/
inductive Pc
  /-- `m_locked` is false -/
  | out
  /-- in the call that locks; in `CASLock`, in its loop -/
  | locking
  /-- before `m_locked = true` -/
  | marking
  /-- `m_locked` is true -/
  | inside
  /-- before `m_mutex.unlock()` -/
  | unlocking
  /-- before `m_locked = false` -/
  | unmarking
  /-- destroyed -/
  | gone
  deriving DecidableEq, Repr

/-- A guard of a thread.  `holds` tells whether it has the mutex, `seen` what was protected when it
took it, or what it has written since. -/
structure Guard where
  thread : Nat
  mutex : Nat
  mode : Mode
  pc : Pc
  holds : Bool
  seen : Nat
  deriving DecidableEq, Repr

/-- The guards, the mutexes with the thread that has each for writing, and what they protect. -/
structure State where
  guards : List Guard
  locks : Nat → Lock
  owner : Nat → Option Nat
  data : Nat → Nat

namespace State

def set (s : State) (i : Nat) (g : Guard) : State := { s with guards := s.guards.set i g }

def setLock (s : State) (m : Nat) (l : Lock) (owner : Option Nat) : State :=
  { s with locks := Function.update s.locks m l, owner := Function.update s.owner m owner }

end State

inductive Action
  /-- the constructor, up to the call that locks -/
  | construct (thread mutex : Nat) (mode : Mode)
  /-- the call that locks has taken the mutex -/
  | acquire (i : Nat)
  /-- it has returned `EDEADLK` -/
  | deadlk (i : Nat)
  | mark (i : Nat)
  /-- `lock()` of the guard -/
  | lock (i : Nat)
  /-- `unlock()` of the guard, also from its destructor -/
  | unlock (i : Nat)
  /-- `m_mutex.unlock()` -/
  | release (i : Nat)
  | unmark (i : Nat)
  /-- the end of the destructor -/
  | destroy (i : Nat)
  /-- the thread stores to what is protected -/
  | store (i v : Nat)
  deriving DecidableEq, Repr

/-- A step of a guard. -/
def stepGuard (kind : Nat → Kind) (s : State) (i : Nat) (g : Guard) : Action → Option State
  | .acquire _ =>
      if g.pc = .locking ∧ (s.locks g.mutex).admits g.mode = true then
        some ((s.set i { g with pc := .marking, holds := true, seen := s.data g.mutex }).setLock
          g.mutex ((s.locks g.mutex).take g.mode)
          (if g.mode = .write then some g.thread else s.owner g.mutex))
      else none
  | .deadlk _ =>
      if g.pc = .locking ∧ kind g.mutex = .RWMutex ∧ s.owner g.mutex = some g.thread then
        some (s.set i { g with pc := .marking })
      else none
  | .mark _ => if g.pc = .marking then some (s.set i { g with pc := .inside }) else none
  | .lock _ =>
      if g.pc = .out then some (s.set i { g with pc := .locking })
      -- `if(!m_locked)`
      else if g.pc = .inside then some s
      else none
  | .unlock _ =>
      if g.pc = .inside then some (s.set i { g with pc := .unlocking })
      -- `if(m_locked)`
      else if g.pc = .out then some s
      else none
  | .release _ =>
      if g.pc = .unlocking then
        some ((s.set i { g with pc := .unmarking, holds := false }).setLock g.mutex
          (s.locks g.mutex).drop
          (if (s.locks g.mutex).writer then none else s.owner g.mutex))
      else none
  | .unmark _ => if g.pc = .unmarking then some (s.set i { g with pc := .out }) else none
  | .destroy _ => if g.pc = .out then some (s.set i { g with pc := .gone }) else none
  | .store _ v =>
      if g.pc = .inside ∧ g.mode = .write then
        some { s.set i { g with seen := v } with data := Function.update s.data g.mutex v }
      else none
  | .construct .. => none

/-- The guard that a step is of. -/
def Action.guard : Action → Option Nat
  | .construct .. => none
  | .acquire i | .deadlk i | .mark i | .lock i | .unlock i | .release i | .unmark i | .destroy i
  | .store i _ => some i

def step (kind : Nat → Kind) (s : State) (a : Action) : Option State :=
  match a, a.guard with
  | .construct thread mutex mode, _ =>
      if (kind mutex).has mode then
        some { s with guards := s.guards ++ [⟨thread, mutex, mode, .locking, false, 0⟩] }
      else none
  | a, some i => (s.guards[i]?).bind fun g => stepGuard kind s i g a
  | _, none => none

def start (data : Nat → Nat) : State := ⟨[], fun _ => .free, fun _ => none, data⟩

/-! ### Guards and mutexes agree -/

/-- The guard is on its way in, inside or on its way out. -/
def Guard.active (g : Guard) : Bool := g.pc ≠ .out ∧ g.pc ≠ .gone

/-- The thread has no other guard of the mutex under way. -/
def Alone (s : State) (thread mutex : Nat) : Prop :=
  ∀ g ∈ s.guards, g.thread = thread → g.mutex = mutex → g.active = false

/-- No thread locks a mutex that it has locked. -/
def Flat (s : State) : Action → Prop
  | .construct thread mutex _ => Alone s thread mutex
  | .lock i => ∀ g, s.guards[i]? = some g → g.pc = .out → Alone s g.thread g.mutex
  | _ => True

/-- The share of a mutex that a guard has. -/
def Guard.share (m : Nat) (g : Guard) : Option Mode :=
  if g.holds = true ∧ g.mutex = m then some g.mode else none

structure Inv (s : State) : Prop where
  fits : ∀ m, Fits (s.locks m) (s.guards.map (Guard.share m))
  owner : ∀ m t, s.owner m = some t → ∃ (i : Nat) (g : Guard), s.guards[i]? = some g ∧
    g.share m = some .write ∧ g.thread = t
  alone : ∀ (i j : Nat) (g g' : Guard), s.guards[i]? = some g → s.guards[j]? = some g' →
    g.thread = g'.thread → g.mutex = g'.mutex → g.active = true → g'.active = true → i = j
  holds : ∀ (i : Nat) (g : Guard), s.guards[i]? = some g →
    (g.holds = true ↔ g.pc = .marking ∨ g.pc = .inside ∨ g.pc = .unlocking)
  seen : ∀ (i : Nat) (g : Guard), s.guards[i]? = some g → g.holds = true → g.seen = s.data g.mutex

theorem start_inv (data : Nat → Nat) : Inv (start data) :=
  ⟨fun _ => .start, nofun, nofun, nofun, nofun⟩

variable {s : State} {i : Nat} {g : Guard}

theorem Guard.share_eq_some {m : Nat} {mode : Mode} :
    g.share m = some mode ↔ g.holds = true ∧ g.mutex = m ∧ g.mode = mode := by
  unfold share
  by_cases h : g.holds = true ∧ g.mutex = m
  · rw [if_pos h, Option.some.injEq]
    exact ⟨fun hmode => ⟨h.1, h.2, hmode⟩, fun h => h.2.2⟩
  · rw [if_neg h]
    exact ⟨nofun, fun h' => absurd ⟨h'.1, h'.2.1⟩ h⟩

theorem Guard.share_other {m : Nat} (h : g.mutex ≠ m) : g.share m = none :=
  if_neg fun h' => h h'.2

/-- Guards other than the one that moves. -/
theorem getElem?_set_cases {l : List Guard} {j : Nat} {g' x : Guard}
    (h : (l.set i g')[j]? = some x) :
    (j = i ∧ x = g') ∨ (j ≠ i ∧ l[j]? = some x) := by
  rw [List.getElem?_set] at h
  split_ifs at h with hij hlt
  · cases h
    exact .inl ⟨hij.symm, rfl⟩
  · exact .inr ⟨fun hji => hij hji.symm, h⟩

theorem set_same {α : Type} {l : List α} {x : α} (h : l[i]? = some x) : l.set i x = l := by
  obtain ⟨_, rfl⟩ := List.getElem?_eq_some_iff.mp h
  exact List.set_getElem_self _

/-- A guard under way is alone, and so is one that sets out. -/
theorem Inv.alone_set (h : Inv s) (hg : s.guards[i]? = some g) {g' : Guard}
    (hthread : g'.thread = g.thread) (hmutex : g'.mutex = g.mutex)
    (hactive : g'.active = true → g.active = true ∨ Alone s g.thread g.mutex) :
    ∀ (j k : Nat) (x y : Guard), (s.guards.set i g')[j]? = some x →
      (s.guards.set i g')[k]? = some y → x.thread = y.thread → x.mutex = y.mutex →
      x.active = true → y.active = true → j = k := by
  have hother : ∀ (j : Nat) (x : Guard), s.guards[j]? = some x → x.thread = g'.thread →
      x.mutex = g'.mutex → x.active = true → g'.active = true → j = i := by
    intro j x hx ht hm hxa hga
    rcases hactive hga with hold | halone
    · exact h.alone j i x g hx hg (ht.trans hthread) (hm.trans hmutex) hxa hold
    · cases (halone x (List.mem_of_getElem? hx) (ht.trans hthread) (hm.trans hmutex)).symm.trans hxa
  intro j k x y hx hy ht hm hxa hya
  rcases getElem?_set_cases hx with ⟨rfl, rfl⟩ | ⟨-, hxold⟩
  · rcases getElem?_set_cases hy with ⟨rfl, rfl⟩ | ⟨-, hyold⟩
    · rfl
    · exact (hother k y hyold ht.symm hm.symm hya hxa).symm
  · rcases getElem?_set_cases hy with ⟨rfl, rfl⟩ | ⟨-, hyold⟩
    · exact hother j x hxold ht hm hxa hya
    · exact h.alone j k x y hxold hyold ht hm hxa hya

/-- A guard that goes on and keeps what it has. -/
theorem Inv.move (h : Inv s) (hg : s.guards[i]? = some g) {pc : Pc}
    (hholds : g.holds = true ↔ pc = .marking ∨ pc = .inside ∨ pc = .unlocking)
    (hactive : ({ g with pc := pc } : Guard).active = true →
      g.active = true ∨ Alone s g.thread g.mutex) :
    Inv (s.set i { g with pc := pc }) where
  fits m := by
    have hshare : ({ g with pc := pc } : Guard).share m = g.share m := rfl
    have hsame : (s.guards.map (Guard.share m))[i]? = some (g.share m) := by
      rw [List.getElem?_map, hg, Option.map_some]
    show Fits (s.locks m) ((s.guards.set i { g with pc := pc }).map (Guard.share m))
    rw [List.map_set, hshare, set_same hsame]
    exact h.fits m
  owner m t ht := by
    obtain ⟨j, x, hx, hshare, hthread⟩ := h.owner m t ht
    by_cases hji : j = i
    · subst hji
      obtain rfl := Option.some.inj (hg.symm.trans hx)
      exact ⟨j, { g with pc := pc }, by
        rw [State.set, List.getElem?_set_self (List.getElem?_eq_some_iff.mp hg).1], hshare, hthread⟩
    · exact ⟨j, x, (List.getElem?_set_ne (Ne.symm hji)).trans hx, hshare, hthread⟩
  alone := h.alone_set hg rfl rfl hactive
  holds j x hx := by
    rcases getElem?_set_cases hx with ⟨-, rfl⟩ | ⟨-, hx⟩
    · exact hholds
    · exact h.holds j x hx
  seen j x hx hxh := by
    rcases getElem?_set_cases hx with ⟨-, rfl⟩ | ⟨-, hx⟩
    · exact h.seen i g hg hxh
    · exact h.seen j x hx hxh

/-- Two guards that have one mutex both read. -/
theorem Inv.both_read (h : Inv s) {j : Nat} {g' : Guard} (hg : s.guards[i]? = some g)
    (hg' : s.guards[j]? = some g') (hne : i ≠ j) (hmutex : g.mutex = g'.mutex)
    (hholds : g.holds = true) (hholds' : g'.holds = true) : g.mode = .read ∧ g'.mode = .read := by
  have hshare : (s.guards.map (Guard.share g.mutex))[i]? = some (some g.mode) := by
    rw [List.getElem?_map, hg, Option.map_some, Guard.share_eq_some.mpr ⟨hholds, rfl, rfl⟩]
  have hshare' : (s.guards.map (Guard.share g.mutex))[j]? = some (some g'.mode) := by
    rw [List.getElem?_map, hg', Option.map_some,
      Guard.share_eq_some.mpr ⟨hholds', hmutex.symm, rfl⟩]
  exact (h.fits g.mutex).both_read hshare hshare' hne

theorem Inv.acquire (h : Inv s) (hg : s.guards[i]? = some g) (hpc : g.pc = .locking)
    (hadmits : (s.locks g.mutex).admits g.mode = true) :
    Inv ((s.set i { g with pc := .marking, holds := true, seen := s.data g.mutex }).setLock g.mutex
      ((s.locks g.mutex).take g.mode)
      (if g.mode = .write then some g.thread else s.owner g.mutex)) where
  fits m := by
    have hnot : g.holds = false := by
      refine Bool.eq_false_iff.mpr fun hholds => ?_
      have hpcs := (h.holds i g hg).mp hholds
      rw [hpc] at hpcs
      rcases hpcs with hpcs | hpcs | hpcs <;> cases hpcs
    have hnone : (s.guards.map (Guard.share m))[i]? = some none := by
      rw [List.getElem?_map, hg, Option.map_some, Guard.share, if_neg]
      rintro ⟨hholds, -⟩
      cases hnot.symm.trans hholds
    simp only [State.setLock, State.set]
    rw [List.map_set]
    by_cases hm : m = g.mutex
    · subst hm
      have hshare : Guard.share g.mutex { g with
          pc := .marking, holds := true, seen := s.data g.mutex } = some g.mode :=
        Guard.share_eq_some.mpr ⟨rfl, rfl, rfl⟩
      rw [Function.update_self, hshare]
      exact (h.fits g.mutex).take hnone hadmits
    · have hshare : Guard.share m { g with
          pc := .marking, holds := true, seen := s.data g.mutex } = none :=
        Guard.share_other (Ne.symm hm)
      rw [Function.update_of_ne hm, hshare, set_same hnone]
      exact h.fits m
  owner m t ht := by
    have hlt := (List.getElem?_eq_some_iff.mp hg).1
    simp only [State.setLock, State.set] at ht ⊢
    by_cases hwrite : m = g.mutex ∧ g.mode = .write
    · obtain ⟨rfl, hmode⟩ := hwrite
      rw [Function.update_self, if_pos hmode] at ht
      exact ⟨i, _, List.getElem?_set_self hlt, Guard.share_eq_some.mpr ⟨rfl, rfl, hmode⟩,
        Option.some.inj ht⟩
    · have hold : s.owner m = some t := by
        by_cases hm : m = g.mutex
        · subst hm
          rwa [Function.update_self, if_neg fun hmode => hwrite ⟨rfl, hmode⟩] at ht
        · rwa [Function.update_of_ne hm] at ht
      obtain ⟨j, x, hx, hshare, hthread⟩ := h.owner m t hold
      have hji : j ≠ i := by
        rintro rfl
        obtain rfl := Option.some.inj (hg.symm.trans hx)
        have hpcs := (h.holds j g hg).mp (Guard.share_eq_some.mp hshare).1
        rw [hpc] at hpcs
        rcases hpcs with hpcs | hpcs | hpcs <;> cases hpcs
      exact ⟨j, x, (List.getElem?_set_ne (Ne.symm hji)).trans hx, hshare, hthread⟩
  alone := by
    refine h.alone_set hg rfl rfl fun _ => .inl ?_
    rw [Guard.active, hpc]
    rfl
  holds j x hx := by
    rcases getElem?_set_cases hx with ⟨-, rfl⟩ | ⟨-, hx⟩
    · exact ⟨fun _ => .inl rfl, fun _ => rfl⟩
    · exact h.holds j x hx
  seen j x hx hxh := by
    rcases getElem?_set_cases hx with ⟨-, rfl⟩ | ⟨-, hx⟩
    · rfl
    · exact h.seen j x hx hxh

theorem Inv.release (h : Inv s) (hg : s.guards[i]? = some g) (hpc : g.pc = .unlocking) :
    Inv ((s.set i { g with pc := .unmarking, holds := false }).setLock g.mutex
      (s.locks g.mutex).drop
      (if (s.locks g.mutex).writer then none else s.owner g.mutex)) := by
  have hholds : g.holds = true := (h.holds i g hg).mpr (.inr (.inr hpc))
  have hmine : (s.guards.map (Guard.share g.mutex))[i]? = some (some g.mode) := by
    rw [List.getElem?_map, hg, Option.map_some, Guard.share_eq_some.mpr ⟨hholds, rfl, rfl⟩]
  have hleft (m : Nat) : ({ g with pc := .unmarking, holds := false } : Guard).share m = none :=
    if_neg fun h => by cases h.1
  refine ⟨fun m => ?_, fun m t ht => ?_, h.alone_set hg rfl rfl fun _ => .inl ?_, fun j x hx => ?_,
    fun j x hx hxh => ?_⟩
  · simp only [State.setLock, State.set]
    rw [List.map_set, hleft]
    by_cases hm : m = g.mutex
    · subst hm
      rw [Function.update_self]
      exact (h.fits g.mutex).drop hmine
    · have hnone : (s.guards.map (Guard.share m))[i]? = some none := by
        rw [List.getElem?_map, hg, Option.map_some, Guard.share_other (Ne.symm hm)]
      rw [Function.update_of_ne hm, set_same hnone]
      exact h.fits m
  · simp only [State.setLock, State.set] at ht ⊢
    have hold : s.owner m = some t ∧ (m = g.mutex → (s.locks g.mutex).writer = false) := by
      by_cases hm : m = g.mutex
      · subst hm
        rw [Function.update_self] at ht
        split_ifs at ht with hwriter
        exact ⟨ht, fun _ => Bool.not_eq_true _ ▸ hwriter⟩
      · rw [Function.update_of_ne hm] at ht
        exact ⟨ht, fun hm' => absurd hm' hm⟩
    obtain ⟨j, x, hx, hshare, hthread⟩ := h.owner m t hold.1
    have hji : j ≠ i := by
      -- the one that releases would be the writer
      rintro rfl
      obtain rfl := Option.some.inj (hg.symm.trans hx)
      obtain ⟨-, hm, hmode⟩ := Guard.share_eq_some.mp hshare
      have hwriter := hold.2 hm.symm
      rcases (h.fits g.mutex).held hmine with ⟨-, hw⟩ | ⟨hread, -⟩
      · cases hwriter.symm.trans hw
      · cases hread.symm.trans hmode
    exact ⟨j, x, (List.getElem?_set_ne (Ne.symm hji)).trans hx, hshare, hthread⟩
  · rw [Guard.active, hpc]
    rfl
  · rcases getElem?_set_cases hx with ⟨-, rfl⟩ | ⟨-, hx⟩
    · refine ⟨nofun, fun hpcs => ?_⟩
      rcases hpcs with hpcs | hpcs | hpcs <;> cases hpcs
    · exact h.holds j x hx
  · rcases getElem?_set_cases hx with ⟨-, rfl⟩ | ⟨-, hx⟩
    · cases hxh
    · exact h.seen j x hx hxh

theorem Inv.store (h : Inv s) (hg : s.guards[i]? = some g) (hpc : g.pc = .inside)
    (hmode : g.mode = .write) (v : Nat) :
    Inv { s.set i { g with seen := v } with data := Function.update s.data g.mutex v } := by
  have hholds : g.holds = true := (h.holds i g hg).mpr (.inr (.inl hpc))
  have hlt := (List.getElem?_eq_some_iff.mp hg).1
  refine ⟨fun m => ?_, fun m t ht => ?_, h.alone_set hg rfl rfl .inl, fun j x hx => ?_,
    fun j x hx hxh => ?_⟩
  · have hshare : Guard.share m { g with seen := v } = g.share m := rfl
    have hsame : (s.guards.map (Guard.share m))[i]? = some (g.share m) := by
      rw [List.getElem?_map, hg, Option.map_some]
    show Fits (s.locks m) ((s.guards.set i { g with seen := v }).map (Guard.share m))
    rw [List.map_set, hshare, set_same hsame]
    exact h.fits m
  · obtain ⟨j, x, hx, hshare, hthread⟩ := h.owner m t ht
    by_cases hji : j = i
    · subst hji
      obtain rfl := Option.some.inj (hg.symm.trans hx)
      exact ⟨j, { g with seen := v }, List.getElem?_set_self hlt, hshare, hthread⟩
    · exact ⟨j, x, (List.getElem?_set_ne (Ne.symm hji)).trans hx, hshare, hthread⟩
  · rcases getElem?_set_cases hx with ⟨-, rfl⟩ | ⟨-, hx⟩
    · exact h.holds i g hg
    · exact h.holds j x hx
  · rcases getElem?_set_cases hx with ⟨-, rfl⟩ | ⟨hji, hx⟩
    · exact (Function.update_self g.mutex v s.data).symm
    · -- nobody else has the mutex
      have hother : x.mutex ≠ g.mutex := by
        intro hmutex
        have hread := (h.both_read hg hx (Ne.symm hji) hmutex.symm hholds hxh).1
        cases hread.symm.trans hmode
      show x.seen = Function.update s.data g.mutex v x.mutex
      rw [Function.update_of_ne hother]
      exact h.seen j x hx hxh

theorem Inv.construct (h : Inv s) {thread mutex : Nat} {mode : Mode}
    (halone : Alone s thread mutex) :
    Inv { s with guards := s.guards ++ [⟨thread, mutex, mode, .locking, false, 0⟩] } := by
  have hcases : ∀ (j : Nat) (x : Guard),
      (s.guards ++ [(⟨thread, mutex, mode, .locking, false, 0⟩ : Guard)])[j]? = some x →
      s.guards[j]? = some x ∨
        (j = s.guards.length ∧ x = ⟨thread, mutex, mode, .locking, false, 0⟩) := by
    intro j x hx
    rw [List.getElem?_append] at hx
    split_ifs at hx with hlt
    · exact .inl hx
    · rw [List.getElem?_singleton] at hx
      split_ifs at hx with hzero
      cases hx
      exact .inr ⟨by omega, rfl⟩
  have hold : ∀ (j : Nat) (x : Guard), s.guards[j]? = some x →
      (s.guards ++ [(⟨thread, mutex, mode, .locking, false, 0⟩ : Guard)])[j]? = some x := by
    intro j x hx
    rw [List.getElem?_append_left (List.getElem?_eq_some_iff.mp hx).1]
    exact hx
  refine ⟨fun m => ?_, fun m t ht => ?_, fun j k x y hx hy ht hm hxa hya => ?_, fun j x hx => ?_,
    fun j x hx hxh => ?_⟩
  · show Fits (s.locks m) ((s.guards ++ [_]).map (Guard.share m))
    rw [List.map_append]
    exact (h.fits m).push
  · obtain ⟨j, x, hx, hshare, hthread⟩ := h.owner m t ht
    exact ⟨j, x, hold j x hx, hshare, hthread⟩
  · rcases hcases j x hx with hxold | ⟨rfl, rfl⟩
    · rcases hcases k y hy with hyold | ⟨rfl, rfl⟩
      · exact h.alone j k x y hxold hyold ht hm hxa hya
      · cases (halone x (List.mem_of_getElem? hxold) ht hm).symm.trans hxa
    · rcases hcases k y hy with hyold | ⟨rfl, rfl⟩
      · cases (halone y (List.mem_of_getElem? hyold) ht.symm hm.symm).symm.trans hya
      · rfl
  · rcases hcases j x hx with hxold | ⟨-, rfl⟩
    · exact h.holds j x hxold
    · refine ⟨nofun, fun hpcs => ?_⟩
      rcases hpcs with hpcs | hpcs | hpcs <;> cases hpcs
  · rcases hcases j x hx with hxold | ⟨-, rfl⟩
    · exact h.seen j x hxold hxh
    · cases hxh

/-- Where no thread locks what it has locked, nobody is told `EDEADLK`. -/
theorem Inv.no_deadlk (h : Inv s) (hg : s.guards[i]? = some g) (hpc : g.pc = .locking) :
    s.owner g.mutex ≠ some g.thread := by
  intro howner
  obtain ⟨j, x, hx, hshare, hthread⟩ := h.owner g.mutex g.thread howner
  obtain ⟨hholds, hmutex, -⟩ := Guard.share_eq_some.mp hshare
  have hpcs := (h.holds j x hx).mp hholds
  have hxa : x.active = true := by
    rw [Guard.active]
    rcases hpcs with hpcs | hpcs | hpcs <;> rw [hpcs] <;> rfl
  have hga : g.active = true := by
    rw [Guard.active, hpc]
    rfl
  obtain rfl := h.alone i j g x hg hx hthread.symm hmutex.symm hga hxa
  obtain rfl := Option.some.inj (hg.symm.trans hx)
  rw [hpc] at hpcs
  rcases hpcs with hpcs | hpcs | hpcs <;> cases hpcs

/-- A guard that holds nothing and gets nothing. -/
theorem Inv.move_idle (h : Inv s) (hg : s.guards[i]? = some g) {pc : Pc}
    (hold : ¬(g.pc = .marking ∨ g.pc = .inside ∨ g.pc = .unlocking))
    (hnew : ¬(pc = .marking ∨ pc = .inside ∨ pc = .unlocking))
    (hactive : ({ g with pc := pc } : Guard).active = true →
      g.active = true ∨ Alone s g.thread g.mutex) :
    Inv (s.set i { g with pc := pc }) :=
  h.move hg (((h.holds i g hg).trans (iff_of_false hold hnew))) hactive

theorem step_inv {kind : Nat → Kind} {t : State} {a : Action} (h : Inv s) (hflat : Flat s a)
    (hs : step kind s a = some t) : Inv t := by
  cases a with
  | construct thread mutex mode =>
      simp only [step] at hs
      split_ifs at hs
      cases hs
      exact h.construct hflat
  | acquire i =>
      obtain ⟨g, hg, hguard⟩ := Option.bind_eq_some_iff.mp hs
      simp only [stepGuard] at hguard
      by_cases hpc : g.pc = .locking ∧ (s.locks g.mutex).admits g.mode = true
      · rw [if_pos hpc] at hguard
        cases hguard
        exact h.acquire hg hpc.1 hpc.2
      · rw [if_neg hpc] at hguard
        cases hguard
  | deadlk i =>
      obtain ⟨g, hg, hguard⟩ := Option.bind_eq_some_iff.mp hs
      simp only [stepGuard] at hguard
      split_ifs at hguard with hpc
      exact absurd hpc.2.2 (h.no_deadlk hg hpc.1)
  | mark i =>
      obtain ⟨g, hg, hguard⟩ := Option.bind_eq_some_iff.mp hs
      simp only [stepGuard] at hguard
      split_ifs at hguard with hpc
      cases hguard
      refine h.move hg ?_ fun _ => .inl (by rw [Guard.active, hpc]; rfl)
      exact (h.holds i g hg).trans (iff_of_true (.inl hpc) (.inr (.inl rfl)))
  | lock i =>
      obtain ⟨g, hg, hguard⟩ := Option.bind_eq_some_iff.mp hs
      simp only [stepGuard] at hguard
      split_ifs at hguard with hpc
      · cases hguard
        exact h.move_idle hg (by rw [hpc]; decide) (by decide) fun _ => .inr (hflat g hg hpc)
      · cases hguard
        exact h
  | unlock i =>
      obtain ⟨g, hg, hguard⟩ := Option.bind_eq_some_iff.mp hs
      simp only [stepGuard] at hguard
      split_ifs at hguard with hpc
      · cases hguard
        refine h.move hg ?_ fun _ => .inl (by rw [Guard.active, hpc]; rfl)
        exact (h.holds i g hg).trans (iff_of_true (.inr (.inl hpc)) (.inr (.inr rfl)))
      · cases hguard
        exact h
  | release i =>
      obtain ⟨g, hg, hguard⟩ := Option.bind_eq_some_iff.mp hs
      simp only [stepGuard] at hguard
      by_cases hpc : g.pc = .unlocking
      · rw [if_pos hpc] at hguard
        cases hguard
        exact h.release hg hpc
      · rw [if_neg hpc] at hguard
        cases hguard
  | unmark i =>
      obtain ⟨g, hg, hguard⟩ := Option.bind_eq_some_iff.mp hs
      simp only [stepGuard] at hguard
      split_ifs at hguard with hpc
      cases hguard
      exact h.move_idle hg (by rw [hpc]; decide) (by decide) fun hactive => by cases hactive
  | destroy i =>
      obtain ⟨g, hg, hguard⟩ := Option.bind_eq_some_iff.mp hs
      simp only [stepGuard] at hguard
      split_ifs at hguard with hpc
      cases hguard
      exact h.move_idle hg (by rw [hpc]; decide) (by decide) fun hactive => by cases hactive
  | store i v =>
      obtain ⟨g, hg, hguard⟩ := Option.bind_eq_some_iff.mp hs
      simp only [stepGuard] at hguard
      split_ifs at hguard with hpc
      cases hguard
      exact h.store hg hpc.1 hpc.2 v

/-! ### Runs -/

theorem reach_inv {kind : Nat → Kind} {data : Nat → Nat}
    (h : Lts.Reach (step kind) Flat (start data) s) : Inv s :=
  h.invariant (start_inv data) fun _ _ _ hs hflat hstep => step_inv hs hflat hstep

/-- **Regions under guards are apart**: along every run in which no thread locks a mutex that it has
locked, two guards of one mutex are inside only if both read; what the mutex protects is, while a
guard is inside, what it was when the guard took the mutex, or what the guard has stored; the
mutex that a guard unlocks is one that it has; and a mutex is free when no guard is under way. -/
theorem regions_apart {kind : Nat → Kind} {data : Nat → Nat}
    (h : Lts.Reach (step kind) Flat (start data) s) :
    (∀ (i j : Nat) (g g' : Guard), s.guards[i]? = some g → s.guards[j]? = some g' → i ≠ j →
      g.mutex = g'.mutex → g.pc = .inside → g'.pc = .inside → g.mode = .read ∧ g'.mode = .read) ∧
    (∀ (i : Nat) (g : Guard), s.guards[i]? = some g → g.pc = .inside →
      s.data g.mutex = g.seen) ∧
    (∀ (i : Nat) (g : Guard), s.guards[i]? = some g → g.pc = .unlocking → g.holds = true ∧
      ((g.mode = .write ∧ (s.locks g.mutex).writer = true) ∨
      (g.mode = .read ∧ (s.locks g.mutex).writer = false ∧ 0 < (s.locks g.mutex).readers))) ∧
    ∀ m, (∀ g ∈ s.guards, g.mutex = m → g.active = false) → s.locks m = .free := by
  have hinv := reach_inv h
  refine ⟨fun i j g g' hg hg' hne hmutex hpc hpc' => ?_, fun i g hg hpc => ?_,
    fun i g hg hpc => ?_, fun m hidle => ?_⟩
  · exact hinv.both_read hg hg' hne hmutex ((hinv.holds i g hg).mpr (.inr (.inl hpc)))
      ((hinv.holds j g' hg').mpr (.inr (.inl hpc')))
  · exact (hinv.seen i g hg ((hinv.holds i g hg).mpr (.inr (.inl hpc)))).symm
  · have hholds := (hinv.holds i g hg).mpr (.inr (.inr hpc))
    refine ⟨hholds, (hinv.fits g.mutex).held (i := i) ?_⟩
    rw [List.getElem?_map, hg, Option.map_some, Guard.share_eq_some.mpr ⟨hholds, rfl, rfl⟩]
  · refine (hinv.fits m).free_of_none fun x hx => ?_
    obtain ⟨g, hg, rfl⟩ := List.mem_map.mp hx
    refine if_neg fun hshare => ?_
    have hactive := hidle g hg hshare.2
    obtain ⟨i, hi⟩ := List.mem_iff_getElem?.mp hg
    rcases (hinv.holds i g hi).mp hshare.1 with hpc | hpc | hpc <;>
      · rw [Guard.active, hpc] at hactive
        cases hactive

/-- A thread has written. -/
def written : State :=
  (Lts.run (step fun _ => .RWMutex) [.construct 0 7 .write, .acquire 0, .mark 0, .store 0 5,
    .unlock 0, .release 0] (start fun _ => 0)).getD (start fun _ => 0)

/-- Another reads what it has left. -/
def reading : State :=
  (Lts.run (step fun _ => .RWMutex) [.construct 1 7 .read, .acquire 1, .mark 1] written).getD
    written

theorem regions_apart_reading : reading.data 7 = 5 ∧ (reading.locks 7).writer = false := by
  have hfirst : Lts.Reach (step fun _ => .RWMutex) Flat (start fun _ => 0) _ :=
    .step (.construct 0 7 .write) .init nofun rfl
  have hwritten : Lts.Reach (step fun _ => .RWMutex) Flat (start fun _ => 0) written :=
    hfirst.run (by simp [Flat]) (show Lts.run (step fun _ => .RWMutex)
      [.acquire 0, .mark 0, .store 0 5, .unlock 0, .release 0] _ = some written from rfl)
  have hsecond : Lts.Reach (step fun _ => .RWMutex) Flat (start fun _ => 0) _ :=
    .step (.construct 1 7 .read) hwritten (fun g hg hthread _ => by
      obtain rfl := List.mem_singleton.mp hg
      cases hthread) rfl
  have hreading : Lts.Reach (step fun _ => .RWMutex) Flat (start fun _ => 0) reading :=
    hsecond.run (by simp [Flat]) (show Lts.run (step fun _ => .RWMutex)
      [.acquire 1, .mark 1] _ = some reading from rfl)
  obtain ⟨-, hseen, -, -⟩ := regions_apart hreading
  exact ⟨hseen 1 _ rfl rfl, rfl⟩

/-- **A nested guard lets others in**: a thread takes an `RWMutex` for writing twice; when the inner
guard is gone, another thread gets in beside the outer one. -/
theorem nested_lets_in : ∃ s, Lts.run (step fun _ => .RWMutex)
    [.construct 0 7 .write, .acquire 0, .mark 0, .construct 0 7 .write, .deadlk 1, .mark 1,
      .unlock 1, .release 1, .unmark 1, .destroy 1, .construct 1 7 .write, .acquire 2, .mark 2]
    (start fun _ => 0) = some s ∧
    (s.guards.map fun g => (g.pc, g.mode)) =
      [(.inside, .write), (.gone, .write), (.inside, .write)] :=
  ⟨_, rfl, rfl⟩

end Guards

end Will
