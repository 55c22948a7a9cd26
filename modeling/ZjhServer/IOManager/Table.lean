/-
ZjhServer/IOManager/Table.lean

The table of contexts of `IOManager` (server/iomanager.{h,cc}) under concurrent
calls, with the locks of the source: one step looks into the table under the read
lock, one grows it under the write lock (`addEvent`, when it saw the table too
short), one works on the context found under the mutex of that context.

The table holds pointers.  `contextResize(fd * 1.5)` acts on a size read before, and
a table another thread has grown since then is cut again: the contexts behind
the cut are lost with their events (`table_shrinks`).  Where no resize cuts, the
table only grows, and every call finds what a successful `addEvent` has registered
(`table_grows`).
-/
import ZjhServer.IOManager.Events

namespace Will

namespace IOManager

namespace Table

/-- A call of the event interface. -/
inductive Call
  | addEvent (fd : Nat) (event : Event) (scheduler : Nat) (waiter : Waiter)
  | delEvent (fd : Nat) (event : Event)
  | cancelEvent (fd : Nat) (event : Event)
  | cancelAll (fd : Nat)
  deriving DecidableEq, Repr

def Call.fd : Call → Nat
  | .addEvent fd _ _ _ | .delEvent fd _ | .cancelEvent fd _ | .cancelAll fd => fd

/-- How a call ends: it does its work, `epoll_ctl` fails, or its event is not found. -/
inductive Outcome
  | done
  | failed
  | missing
  deriving DecidableEq, Repr

/-- Where a thread is in its call. -/
inductive Pc
  | out
  /-- in `addEvent`, which has seen the table too short -/
  | short (c : Call)
  /-- `fd_ctx` read from the table, its mutex not yet taken -/
  | located (c : Call) (fd_ctx : Nat)
  deriving DecidableEq, Repr

/-- `m_fdContexts` holds addresses; `io.m_fdContexts` is the heap, every context
allocated so far in the order of allocation.  `log` has the calls that have ended. -/
structure State where
  m_fdContexts : List Nat
  io : IOManager
  pc : Nat → Pc
  log : List (Call × Outcome)

/-- After `contextResize(32)` of the constructor. -/
def start : State where
  m_fdContexts := List.range 32
  io := init
  pc := fun _ => .out
  log := []

/-- `(int)size` -/
@[irreducible] def asInt (size : Nat) : Int := Int.bmod size 4294967296

namespace State

def goto (s : State) (w : Nat) (pc : Pc) : State := { s with pc := Function.update s.pc w pc }

/-- The call of thread `w` returns. -/
def finish (s : State) (w : Nat) (c : Call) (o : Outcome) : State :=
  { s.goto w .out with log := s.log ++ [(c, o)] }

/-- `contextResize(size)`: every slot behind the old ones gets a `new FdContext`. -/
def contextResize (s : State) (size : Nat) : State :=
  let fresh := size - s.m_fdContexts.length
  { s with
    m_fdContexts := s.m_fdContexts.take size ++ List.range' s.io.m_fdContexts.length fresh
    io := { s.io with m_fdContexts := s.io.m_fdContexts ++ List.replicate fresh .new } }

end State

/-- What a call does under the mutex of its context; no result when an assertion
fails. -/
def locked (io : IOManager) (fd_ctx : Nat) (c : Call) (fails : Bool) :
    Option (IOManager × Outcome) :=
  match io.m_fdContexts[fd_ctx]? with
  | none => none
  | some ctx =>
      match c with
      | .addEvent fd event scheduler waiter =>
          if ctx.events.has event then none
          else
            let op : CtlOp := if ctx.events = .NONE then .EPOLL_CTL_ADD else .EPOLL_CTL_MOD
            match io.epollCtl op fd (ctx.events.insert event) fails with
            | none => some (io, .failed)
            | some io =>
                if ctx.getEventContext event = .null then
                  some ({ io with
                    m_pendingEventCount := io.m_pendingEventCount + 1
                    m_fdContexts := io.m_fdContexts.set fd_ctx
                      (ctx.add event (waiter.context scheduler)) }, .done)
                else none
      | .delEvent fd event =>
          if ctx.events.has event then
            match io.leave fd (ctx.events.remove event) fails with
            | none => some (io, .failed)
            | some io =>
                some ({ io with
                  m_pendingEventCount := io.m_pendingEventCount - 1
                  m_fdContexts := io.m_fdContexts.set fd_ctx (ctx.drop event) }, .done)
          else some (io, .missing)
      | .cancelEvent fd event =>
          if ctx.events.has event then
            match io.leave fd (ctx.events.remove event) fails with
            | none => some (io, .failed)
            | some io => some (io.trigger fd_ctx event, .done)
          else some (io, .missing)
      | .cancelAll fd =>
          if ctx.events = .NONE then some (io, .missing)
          else
            match io.epollCtl .EPOLL_CTL_DEL fd .NONE fails with
            | none => some (io, .failed)
            | some io => some (io.triggerAll fd_ctx ctx.events, .done)

/-! ### Steps -/

/-- A step of thread `w`. -/
inductive Action
  /-- the region under the read lock -/
  | look (w : Nat) (c : Call)
  /-- the region under the write lock -/
  | resize (w : Nat)
  /-- the region under the mutex of the context -/
  | work (w : Nat) (fails : Bool)
  deriving DecidableEq, Repr

def step (s : State) : Action → Option State
  | .look w c =>
      if s.pc w = .out then
        if asInt s.m_fdContexts.length > c.fd then
          (s.m_fdContexts[c.fd]?).map fun fd_ctx => s.goto w (.located c fd_ctx)
        else
          match c with
          | .addEvent .. => some (s.goto w (.short c))
          | _ => some (s.finish w c .missing)
      else none
  | .resize w =>
      match s.pc w with
      | .short c =>
          let s := s.contextResize (c.fd * 3 / 2)
          (s.m_fdContexts[c.fd]?).map fun fd_ctx => s.goto w (.located c fd_ctx)
      | _ => none
  | .work w fails =>
      match s.pc w with
      | .located c fd_ctx =>
          (locked s.io fd_ctx c fails).map fun r => { s with io := r.1 }.finish w c r.2
      | _ => none

/-- A resize does not cut the table, and its size is an `int`. -/
def Roomy (s : State) : Action → Prop
  | .resize w =>
      match s.pc w with
      | .short c => s.m_fdContexts.length ≤ c.fd * 3 / 2 ∧ c.fd * 3 / 2 < 2147483648
      | _ => True
  | _ => True

/-! ### The registrations of a log -/

/-- What a successful call leaves of event `e` on `fd`, where it was `b` before. -/
def Call.after (c : Call) (fd : Nat) (e : Event) (b : Bool) : Bool :=
  match c with
  | .addEvent fd' e' _ _ => b || (fd = fd' && e = e')
  | .delEvent fd' e' | .cancelEvent fd' e' => b && !(fd = fd' && e = e')
  | .cancelAll fd' => b && !(fd = fd')

/-- Event `e` of `fd` has been registered by a successful `addEvent` and not been
removed since. -/
def registered (log : List (Call × Outcome)) (fd : Nat) (e : Event) : Bool :=
  log.foldl (fun b x => if x.2 = .done then x.1.after fd e b else b) false

/-- The call is to remove event `e` of `fd`. -/
def Call.removes (c : Call) (fd : Nat) (e : Event) : Prop :=
  c = .delEvent fd e ∨ c = .cancelEvent fd e ∨ c = .cancelAll fd

@[simp] theorem registered_append (log : List (Call × Outcome)) (c : Call) (o : Outcome) (fd : Nat)
    (e : Event) :
    registered (log ++ [(c, o)]) fd e =
      if o = .done then c.after fd e (registered log fd e) else registered log fd e := by
  unfold registered
  rw [List.foldl_append]
  rfl

theorem Call.removes_fd {c : Call} {fd : Nat} {e : Event} (h : c.removes fd e) : c.fd = fd := by
  rcases h with rfl | rfl | rfl <;> rfl

theorem Call.after_other {c : Call} {fd : Nat} (h : fd ≠ c.fd) (e : Event) (b : Bool) :
    c.after fd e b = b := by
  cases c <;> simp only [Call.fd] at h <;> simp [Call.after, h]

/-! ### What a call does under its mutex -/

/-- `epoll_ctl` changes the kernel's mask at most. -/
theorem epollCtl_some {io io' : IOManager} {op : CtlOp} {fd : Nat} {events : Events} {fails : Bool}
    (h : io.epollCtl op fd events fails = some io') : ∃ mask, io' = io.setMask fd mask := by
  unfold epollCtl at h
  split_ifs at h
  split at h
  · exact ⟨_, (Option.some.inj h).symm⟩
  · exact ⟨_, (Option.some.inj h).symm⟩
  · exact ⟨_, (Option.some.inj h).symm⟩
  · cases h

/-- The context after a call: still well formed, its events as the outcome says; and a
call that misses its event is right about it. -/
structure Worked (io io' : IOManager) (fd_ctx : Nat) (ctx : FdContext) (c : Call) (o : Outcome) :
    Prop where
  alive : io'.aborted = false
  store : ∃ ctx', io'.m_fdContexts = io.m_fdContexts.set fd_ctx ctx' ∧ ctx'.Ok ∧
    ∀ e, ctx'.events.has e =
      if o = .done then c.after c.fd e (ctx.events.has e) else ctx.events.has e
  missing : o = .missing → ∀ fd e, c.removes fd e → ctx.events.has e = false

/-- The call has changed nothing. -/
theorem Worked.nothing {io : IOManager} {fd_ctx : Nat} {ctx : FdContext}
    (halive : io.aborted = false)
    (hctx : io.m_fdContexts[fd_ctx]? = some ctx) (hok : ctx.Ok) {c : Call} {o : Outcome}
    (ho : o ≠ .done) (hmissing : o = .missing → ∀ fd e, c.removes fd e → ctx.events.has e = false) :
    Worked io io fd_ctx ctx c o := by
  refine ⟨halive, ⟨ctx, ?_, hok, fun e => by rw [if_neg ho]⟩, hmissing⟩
  obtain ⟨_, rfl⟩ := List.getElem?_eq_some_iff.mp hctx
  exact List.set_getElem_self _ |>.symm

theorem locked_worked {io io' : IOManager} {fd_ctx : Nat} {ctx : FdContext} {c : Call}
    {fails : Bool} {o : Outcome} (halive : io.aborted = false)
    (hctx : io.m_fdContexts[fd_ctx]? = some ctx) (hok : ctx.Ok)
    (h : locked io fd_ctx c fails = some (io', o)) : Worked io io' fd_ctx ctx c o := by
  have hfailed : ∀ c, Worked io io fd_ctx ctx c .failed := fun c =>
    .nothing halive hctx hok (by decide) (fun h => by cases h)
  unfold locked at h
  rw [hctx] at h
  simp only at h
  cases c with
  | addEvent fd event scheduler waiter =>
      simp only at h
      split at h
      · cases h
      · split at h
        · cases h
          exact hfailed _
        · rename_i u hu
          obtain ⟨mask, rfl⟩ := epollCtl_some hu
          split at h
          · cases h
            -- the kernel took the new mask, and the context gains the event
            refine ⟨halive, ⟨_, rfl, hok.add event (waiter.context_filled scheduler), fun e => ?_⟩,
              fun h => by cases h⟩
            rw [FdContext.add, FdContext.events_set, if_pos rfl, Events.has_insert]
            simp [Call.after, Call.fd, Bool.or_comm]
          · cases h
  | delEvent fd event =>
      simp only at h
      split_ifs at h with hev
      · split at h
        · cases h
          exact hfailed _
        · rename_i u hu
          obtain ⟨mask, rfl⟩ := epollCtl_some hu
          cases h
          refine ⟨halive, ⟨_, rfl, hok.drop event, fun e => ?_⟩, fun h => by cases h⟩
          rw [FdContext.drop_events, if_pos rfl, Events.has_remove]
          simp [Call.after, Call.fd, Bool.and_comm]
      · cases h
        -- nothing is registered for the event, so there is nothing to remove
        refine .nothing halive hctx hok (by decide) fun _ fd' e hremoves => ?_
        rcases hremoves with heq | heq | heq <;> cases heq
        exact Bool.eq_false_iff.mpr hev
  | cancelEvent fd event =>
      simp only at h
      split_ifs at h with hev
      · split at h
        · cases h
          exact hfailed _
        · rename_i u hu
          obtain ⟨mask, rfl⟩ := epollCtl_some hu
          cases h
          -- the event is registered, so its waiter is scheduled before it is dropped
          rw [trigger_of_has (s := io.setMask fd mask) halive hctx hok hev]
          refine ⟨halive, ⟨_, rfl, hok.drop event, fun e => ?_⟩, fun h => by cases h⟩
          rw [FdContext.drop_events, if_pos rfl, Events.has_remove]
          simp [Call.after, Call.fd, Bool.and_comm]
      · cases h
        refine .nothing halive hctx hok (by decide) fun _ fd' e hremoves => ?_
        rcases hremoves with heq | heq | heq <;> cases heq
        exact Bool.eq_false_iff.mpr hev
  | cancelAll fd =>
      simp only at h
      split_ifs at h with hev
      · cases h
        exact .nothing halive hctx hok (by decide) fun _ _ e _ => Events.eq_none_iff.mp hev e
      · split at h
        · cases h
          exact hfailed _
        · rename_i u hu
          obtain ⟨mask, rfl⟩ := epollCtl_some hu
          cases h
          rw [triggerAll_of_has (s := io.setMask fd mask) halive hctx hok fun _ he => he]
          refine ⟨halive, ⟨_, rfl, hok.dropAll ctx.events, fun e => ?_⟩, fun h => by cases h⟩
          rw [FdContext.dropAll_events, if_pos rfl, Events.has_diff]
          simp [Call.after, Call.fd]

/-! ### The invariant -/

namespace State

/-- The context the table has for `fd`. -/
def contextOf (s : State) (fd : Nat) : Option FdContext :=
  (s.m_fdContexts[fd]?).bind fun fd_ctx => s.io.m_fdContexts[fd_ctx]?

structure Inv (s : State) : Prop where
  int : s.m_fdContexts.length < 2147483648
  nodup : s.m_fdContexts.Nodup
  heap : ∀ a ∈ s.m_fdContexts, a < s.io.m_fdContexts.length
  ok : ∀ (a : Nat) (ctx : FdContext), s.io.m_fdContexts[a]? = some ctx → ctx.Ok
  alive : s.io.aborted = false
  located : ∀ w c fd_ctx, s.pc w = .located c fd_ctx → s.m_fdContexts[c.fd]? = some fd_ctx
  /-- what the log has registered is what the contexts in the table have -/
  registered : ∀ fd e,
    Table.registered s.log fd e = (s.contextOf fd).elim false (·.events.has e)
  missing : ∀ pre c fd e, pre ++ [(c, Outcome.missing)] <+: s.log → c.removes fd e →
    Table.registered pre fd e = false

theorem start_inv : start.Inv where
  int := by decide
  nodup := List.nodup_range
  heap := by simp [start, IOManager.init]
  ok := init_inv.ok
  alive := rfl
  located := fun _ _ _ h => by cases h
  registered := by
    intro fd e
    unfold contextOf
    rcases hfd : start.m_fdContexts[fd]? with _ | a
    · rfl
    · rw [Option.bind_some]
      rcases hctx : start.io.m_fdContexts[a]? with _ | ctx
      · rfl
      · rw [List.eq_of_mem_replicate (List.mem_of_getElem? hctx)]
        cases e <;> rfl
  missing := by
    intro pre c fd e h
    simp [start] at h

end State

theorem asInt_eq {size : Nat} (h : size < 2147483648) : asInt size = size := by
  unfold asInt
  exact Int.bmod_eq_of_le (by omega) (by omega)

/-- The calls that have ended, one more of them. -/
theorem missing_append {log : List (Call × Outcome)} {c : Call} {o : Outcome}
    (h : ∀ pre c fd e, pre ++ [(c, Outcome.missing)] <+: log → c.removes fd e →
      registered pre fd e = false)
    (hnew : o = .missing → ∀ fd e, c.removes fd e → registered log fd e = false) :
    ∀ pre c' fd e, pre ++ [(c', Outcome.missing)] <+: log ++ [(c, o)] → c'.removes fd e →
      registered pre fd e = false := by
  intro pre c' fd e hprefix hremoves
  rcases List.prefix_concat_iff.mp hprefix with hall | hold
  · obtain ⟨rfl, hlast⟩ := List.append_inj' hall rfl
    cases hlast
    exact hnew rfl fd e hremoves
  · exact h pre c' fd e hold hremoves

/-! ### Steps keep the invariant -/

namespace State

/-- A thread moves on, with the right context if it has one. -/
theorem Inv.goto {s : State} (h : s.Inv) (w : Nat) {pc : Pc}
    (hpc : ∀ c fd_ctx, pc = .located c fd_ctx → s.m_fdContexts[c.fd]? = some fd_ctx) :
    (s.goto w pc).Inv where
  int := h.int
  nodup := h.nodup
  heap := h.heap
  ok := h.ok
  alive := h.alive
  located := by
    intro w' c fd_ctx hw
    rcases eq_or_ne w' w with rfl | hne
    · exact hpc c fd_ctx (by simpa [State.goto] using hw)
    · refine h.located w' c fd_ctx ?_
      simpa [State.goto, hne] using hw
  registered := h.registered
  missing := h.missing

/-- A call that finds no event to remove. -/
theorem Inv.finish_missing {s : State} (h : s.Inv) (w : Nat) {c : Call}
    (hnone : ∀ fd e, c.removes fd e → Table.registered s.log fd e = false) :
    (s.finish w c .missing).Inv := by
  have hgoto : (s.goto w .out).Inv := h.goto w fun _ _ hpc => by cases hpc
  refine ⟨hgoto.int, hgoto.nodup, hgoto.heap, hgoto.ok, hgoto.alive, hgoto.located,
    fun fd e => ?_, missing_append h.missing fun _ => hnone⟩
  show Table.registered (s.log ++ [(c, .missing)]) fd e = _
  rw [registered_append, if_neg (by decide)]
  exact h.registered fd e

theorem contextOf_none {s : State} {fd : Nat} (h : s.m_fdContexts.length ≤ fd) :
    s.contextOf fd = none := by
  rw [contextOf, List.getElem?_eq_none h]
  rfl

theorem look_inv {s t : State} (h : s.Inv) {w : Nat} {c : Call}
    (hs : step s (.look w c) = some t) : t.Inv := by
  simp only [step] at hs
  split at hs
  · split at hs
    · obtain ⟨fd_ctx, hfd, rfl⟩ := Option.map_eq_some_iff.mp hs
      refine h.goto w fun c' a hpc => ?_
      cases hpc
      exact hfd
    · rename_i hsize
      -- no event is registered behind the end of the table
      have hnone : ∀ e, Table.registered s.log c.fd e = false := by
        intro e
        rw [asInt_eq h.int] at hsize
        rw [h.registered, contextOf_none (by omega)]
        rfl
      split at hs
      · cases hs
        exact h.goto w fun c' a hpc => by cases hpc
      · cases hs
        refine h.finish_missing w fun fd e hremoves => ?_
        rw [← Call.removes_fd hremoves]
        exact hnone e
  · cases hs

/-- A resize that does not cut puts new contexts behind the old ones. -/
theorem contextResize_eq {s : State} {size : Nat} (h : s.m_fdContexts.length ≤ size) :
    ∃ k, s.m_fdContexts.length + k = size ∧ s.contextResize size = { s with
      m_fdContexts := s.m_fdContexts ++ List.range' s.io.m_fdContexts.length k
      io := { s.io with m_fdContexts := s.io.m_fdContexts ++ List.replicate k .new } } := by
  refine ⟨size - s.m_fdContexts.length, by omega, ?_⟩
  unfold contextResize
  rw [List.take_of_length_le h]

/-- Whether event `e` of `fd` is registered in the table. -/
def has (s : State) (fd : Nat) (e : Event) : Bool := (s.contextOf fd).elim false (·.events.has e)

/-- A context behind the old ones is new, and has no event. -/
theorem contextResize_has {s : State} (h : s.Inv) {size : Nat}
    (hsize : s.m_fdContexts.length ≤ size) (fd : Nat) (e : Event) :
    (s.contextResize size).has fd e = s.has fd e := by
  obtain ⟨k, -, hk⟩ := contextResize_eq hsize
  rw [hk]
  simp only [has, contextOf]
  by_cases hlt : fd < s.m_fdContexts.length
  · have hheap := h.heap _ (List.getElem_mem hlt)
    rw [List.getElem?_append_left hlt, List.getElem?_eq_getElem hlt, Option.bind_some,
      Option.bind_some, List.getElem?_append_left hheap]
  · have hle : s.m_fdContexts.length ≤ fd := Nat.le_of_not_lt hlt
    rw [List.getElem?_append_right hle, List.getElem?_eq_none hle, Option.bind_none]
    rcases hfd : (List.range' s.io.m_fdContexts.length k)[fd - s.m_fdContexts.length]? with _ | a
    · rfl
    · -- its address is behind the old heap
      have hmem := List.mem_range'_1.mp (List.mem_of_getElem? hfd)
      rw [Option.bind_some, List.getElem?_append_right hmem.1]
      rcases hctx : (List.replicate k FdContext.new)[a - s.io.m_fdContexts.length]? with _ | ctx
      · rfl
      · rw [List.eq_of_mem_replicate (List.mem_of_getElem? hctx)]
        cases e <;> rfl

theorem contextResize_inv {s : State} (h : s.Inv) {size : Nat}
    (hsize : s.m_fdContexts.length ≤ size) (hint : size < 2147483648) :
    (s.contextResize size).Inv := by
  have hhas := contextResize_has h hsize
  obtain ⟨k, hlen, hk⟩ := contextResize_eq hsize
  have hmem : ∀ a ∈ List.range' s.io.m_fdContexts.length k, s.io.m_fdContexts.length ≤ a :=
    fun a ha => (List.mem_range'_1.mp ha).1
  rw [hk] at hhas ⊢
  refine ⟨?_, ?_, fun a ha => ?_, fun a ctx hctx => ?_, h.alive, fun w c a hw => ?_, fun fd e => ?_,
    h.missing⟩
  · simp only [List.length_append, List.length_range']
    omega
  · refine List.nodup_append.mpr ⟨h.nodup, List.nodup_range', fun a hold b hnew => ?_⟩
    have hlt := h.heap a hold
    have hle := hmem b hnew
    omega
  · simp only [List.length_append, List.length_replicate]
    rcases List.mem_append.mp ha with hold | hnew
    · exact Nat.lt_add_right k (h.heap a hold)
    · exact (List.mem_range'_1.mp hnew).2
  · rw [List.getElem?_append] at hctx
    split at hctx
    · exact h.ok a ctx hctx
    · rw [List.eq_of_mem_replicate (List.mem_of_getElem? hctx)]
      exact FdContext.new_ok
  · have hold := h.located w c a hw
    show (s.m_fdContexts ++ _)[c.fd]? = _
    rw [List.getElem?_append_left (List.getElem?_eq_some_iff.mp hold).1]
    exact hold
  · rw [h.registered fd e]
    exact (hhas fd e).symm

theorem resize_inv {s t : State} (h : s.Inv) {w : Nat} (hroomy : Roomy s (.resize w))
    (hs : step s (.resize w) = some t) : t.Inv := by
  simp only [step] at hs
  simp only [Roomy] at hroomy
  split at hs
  · rename_i c hpc
    rw [hpc] at hroomy
    obtain ⟨fd_ctx, hfd, rfl⟩ := Option.map_eq_some_iff.mp hs
    refine (contextResize_inv h hroomy.1 hroomy.2).goto w fun c' a hpc' => ?_
    cases hpc'
    exact hfd
  · cases hs

/-- Storing a context that the table has for `f`. -/
theorem has_store {s t : State} (h : s.Inv) {f fd_ctx : Nat} {ctx ctx' : FdContext}
    (hf : s.m_fdContexts[f]? = some fd_ctx) (hctx : s.io.m_fdContexts[fd_ctx]? = some ctx)
    (htable : t.m_fdContexts = s.m_fdContexts)
    (hheap : t.io.m_fdContexts = s.io.m_fdContexts.set fd_ctx ctx') (fd : Nat) (e : Event) :
    t.has fd e = if fd = f then ctx'.events.has e else s.has fd e := by
  have hlt : fd_ctx < s.io.m_fdContexts.length := (List.getElem?_eq_some_iff.mp hctx).1
  simp only [has, contextOf, htable, hheap]
  split_ifs with hfd
  · rw [hfd, hf, Option.bind_some, List.getElem?_set_self hlt]
    rfl
  · rcases ha : s.m_fdContexts[fd]? with _ | a
    · rfl
    · -- two slots of the table have different contexts
      have hne : fd_ctx ≠ a := by
        rintro rfl
        refine hfd ((List.getElem?_inj (List.getElem?_eq_some_iff.mp ha).1 h.nodup).mp ?_)
        rw [ha, hf]
      rw [Option.bind_some, Option.bind_some, List.getElem?_set_ne hne]

theorem work_inv {s t : State} (h : s.Inv) {w : Nat} {fails : Bool}
    (hs : step s (.work w fails) = some t) : t.Inv := by
  simp only [step] at hs
  split at hs
  · rename_i c fd_ctx hpc
    obtain ⟨⟨io, o⟩, hlocked, rfl⟩ := Option.map_eq_some_iff.mp hs
    have hf := h.located w c fd_ctx hpc
    obtain ⟨ctx, hctx⟩ : ∃ ctx, s.io.m_fdContexts[fd_ctx]? = some ctx :=
      ⟨_, List.getElem?_eq_getElem (h.heap fd_ctx (List.mem_of_getElem? hf))⟩
    have hok := h.ok fd_ctx ctx hctx
    have hworked := locked_worked h.alive hctx hok hlocked
    obtain ⟨ctx', hstore, hok', hevents⟩ := hworked.store
    -- the context was located before the lock, and is still the one of this descriptor
    have hat : ∀ e, Table.registered s.log c.fd e = ctx.events.has e := by
      intro e
      rw [h.registered, contextOf, hf, Option.bind_some, hctx]
      rfl
    have hgoto : (s.goto w .out).Inv := h.goto w fun _ _ hpc => by cases hpc
    refine ⟨h.int, h.nodup, fun a ha => ?_, fun a ctx'' ha => ?_, hworked.alive, hgoto.located,
      fun fd e => ?_, missing_append h.missing fun ho fd e hremoves => ?_⟩
    · show a < io.m_fdContexts.length
      rw [hstore, List.length_set]
      exact h.heap a ha
    · have ha' : io.m_fdContexts[a]? = some ctx'' := ha
      rw [hstore, List.getElem?_set] at ha'
      split_ifs at ha' with hsame
      · cases ha'
        exact hok'
      · exact h.ok a ctx'' ha'
    · have hhas := has_store h (t := ({ s with io := io } : State).finish w c o) hf hctx rfl hstore
        fd e
      rw [has] at hhas
      show Table.registered (s.log ++ [(c, o)]) fd e = _
      rw [registered_append, hhas]
      by_cases hfd : fd = c.fd
      · rw [if_pos hfd, hevents, hfd, hat]
      · rw [if_neg hfd, Call.after_other hfd, ite_self]
        exact h.registered fd e
    · rw [← Call.removes_fd hremoves, hat]
      exact hworked.missing ho fd e hremoves
  · cases hs

theorem step_inv {s t : State} {a : Action} (h : s.Inv) (hroomy : Roomy s a)
    (hs : step s a = some t) : t.Inv := by
  cases a with
  | look w c => exact look_inv h hs
  | resize w => exact resize_inv h hroomy hs
  | work w fails => exact work_inv h hs

/-- **One step** extends the table, if it does not cut it. -/
theorem step_prefix {s t : State} {a : Action} (hroomy : Roomy s a) (hs : step s a = some t) :
    s.m_fdContexts <+: t.m_fdContexts := by
  cases a with
  | look w c =>
      simp only [step] at hs
      split at hs
      · split at hs
        · obtain ⟨fd_ctx, -, rfl⟩ := Option.map_eq_some_iff.mp hs
          exact List.prefix_rfl
        · split at hs <;> cases hs <;> exact List.prefix_rfl
      · cases hs
  | resize w =>
      simp only [step] at hs
      simp only [Roomy] at hroomy
      split at hs
      · rename_i c hpc
        rw [hpc] at hroomy
        obtain ⟨fd_ctx, -, rfl⟩ := Option.map_eq_some_iff.mp hs
        obtain ⟨k, -, hk⟩ := contextResize_eq hroomy.1
        rw [hk]
        exact List.prefix_append _ _
      · cases hs
  | work w fails =>
      simp only [step] at hs
      split at hs
      · obtain ⟨r, -, rfl⟩ := Option.map_eq_some_iff.mp hs
        exact List.prefix_rfl
      · cases hs

/-- A resize below the length of the table cuts it. -/
theorem resize_cuts {s t : State} {w : Nat} {c : Call} (hpc : s.pc w = .short c)
    (hsize : c.fd * 3 / 2 < s.m_fdContexts.length) (hs : step s (.resize w) = some t) :
    t.m_fdContexts.length < s.m_fdContexts.length := by
  simp only [step, hpc] at hs
  obtain ⟨fd_ctx, -, rfl⟩ := Option.map_eq_some_iff.mp hs
  simp only [State.goto, contextResize, List.length_append, List.length_take, List.length_range']
  omega

end State

open State

/-- **Where no resize cuts**, for any number of threads and any interleaving: the table
only grows, and no slot of it ever changes; what a successful `addEvent` has registered
is in the context that the table has; and no call that removes an event registered
when it ends has failed to find it. -/
theorem table_grows {s : State} (h : Lts.Reach step Roomy start s) :
    (∀ a t, Roomy s a → step s a = some t → s.m_fdContexts <+: t.m_fdContexts) ∧
      (∀ fd e, registered s.log fd e = true → ∃ ctx, s.contextOf fd = some ctx ∧
        ctx.events.has e = true) ∧
      ∀ pre c fd e, pre ++ [(c, .missing)] <+: s.log → c.removes fd e →
        registered pre fd e = false := by
  have hinv : s.Inv := h.invariant start_inv fun _ _ _ hI hroomy hs => State.step_inv hI hroomy hs
  refine ⟨fun a t hroomy hs => step_prefix hroomy hs, fun fd e he => ?_, hinv.missing⟩
  rw [hinv.registered] at he
  rcases hctx : s.contextOf fd with _ | ctx
  · rw [hctx] at he
    cases he
  · rw [hctx] at he
    exact ⟨ctx, rfl, he⟩

/-- Growing the table for `c`. -/
theorem step_resize {s : State} {w : Nat} {c : Call} {fd_ctx : Nat} (hpc : s.pc w = .short c)
    (hslot : (s.contextResize (c.fd * 3 / 2)).m_fdContexts[c.fd]? = some fd_ctx) :
    step s (.resize w) =
      some ((s.contextResize (c.fd * 3 / 2)).goto w (.located c fd_ctx)) := by
  simp [step, hpc, hslot]

/-- A fiber waits for descriptor 100, which the first table has no slot for. -/
def wait100 : Call := .addEvent 100 .READ 0 (.fiber 1)

theorem table_grows_once :
    ∃ s : State, s.m_fdContexts.length = 150 ∧ s.log.map (·.2) = [.done, .done] ∧
      ∀ a t, Roomy s a → step s a = some t → s.m_fdContexts <+: t.m_fdContexts := by
  have hlook : step start (.look 0 wait100) = some (start.goto 0 (.short wait100)) := by
    simp [step, start, wait100, Call.fd, asInt_eq]
  have hlooked : Lts.Reach step Roomy start (start.goto 0 (.short wait100)) :=
    Lts.Reach.init.step (.look 0 wait100) trivial hlook
  have hpc : (start.goto 0 (.short wait100)).pc 0 = .short wait100 := by
    simp [State.goto]
  have hroomy : Roomy (start.goto 0 (.short wait100)) (.resize 0) := by
    simp [Roomy, State.goto, start, wait100, Call.fd]
  have hgrown := hlooked.step (.resize 0) hroomy
    (step_resize hpc (show _ = some 100 by decide +kernel))
  -- the rest of the run meets no resize
  obtain ⟨s, hs, hends⟩ := Option.map_eq_some_iff.mp (show (Lts.run step
    [.work 0 false, .look 1 (.delEvent 100 .READ), .work 1 false]
      (((start.goto 0 (.short wait100)).contextResize 150).goto 0 (.located wait100 100))).map
        (fun s => (s.m_fdContexts.length, s.log.map (·.2))) = some (150, [.done, .done]) from
    by decide +kernel)
  obtain ⟨hlen, hlog⟩ := Prod.mk.inj hends
  exact ⟨s, hlen, hlog, (table_grows (hgrown.run (by simp [Roomy]) hs)).1⟩

/-- Two threads meet descriptors 100 and 40 for the first time, and both see a table of
32 slots; the second resize cuts what the first one has added. -/
def cutting : List Action :=
  [.look 0 wait100, .look 1 (.addEvent 40 .READ 0 (.fiber 2)),
    .resize 0, .work 0 false]

/-- **The table shrinks**, and `delEvent` does not find the event of descriptor 100. -/
theorem table_shrinks :
    ¬ (∀ s, Lts.Reach step Lts.Any start s → ∀ a t, step s a = some t →
        s.m_fdContexts <+: t.m_fdContexts) ∧
      ¬ ∀ s, Lts.Reach step Lts.Any start s → ∀ pre c fd e,
        pre ++ [(c, .missing)] <+: s.log → c.removes fd e → registered pre fd e = false := by
  refine ⟨fun h => ?_, fun h => ?_⟩
  · obtain ⟨s, hs, hcut⟩ := Option.bind_eq_some_iff.mp (show (Lts.run step cutting start).bind
      (fun s => (step s (.resize 1)).map fun t => (s.m_fdContexts.length, t.m_fdContexts.length)) =
        some (150, 60) from by decide +kernel)
    obtain ⟨t, ht, hlen⟩ := Option.map_eq_some_iff.mp hcut
    obtain ⟨hold, hnew⟩ := Prod.mk.inj hlen
    have hle := (h s (Lts.reach_of_run hs) _ t ht).length_le
    omega
  · obtain ⟨s, hs, hlog⟩ := Option.map_eq_some_iff.mp (show (Lts.run step
      (cutting ++ [.resize 1, .work 1 false, .look 2 (.delEvent 100 .READ)]) start).map (·.log) =
        some ([(wait100, .done), (.addEvent 40 .READ 0 (.fiber 2), .done)] ++
          [(.delEvent 100 .READ, .missing)]) from by decide +kernel)
    have hnot := h s (Lts.reach_of_run hs) _ _ 100 .READ
      ⟨[], by rw [List.append_nil, hlog]⟩ (.inl rfl)
    exact absurd hnot (by decide)

end Table

end IOManager

end Will
