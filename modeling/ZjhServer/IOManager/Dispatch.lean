/-
ZjhServer/IOManager/Dispatch.lean

Stale readiness.  A readiness mask is taken by `epoll_wait` before the mutex of
the descriptor, so by the time a worker dispatches it the registrations may have
changed.

`idle` masks neither the reported events nor those it triggers with the events
still registered.  A turn of its loop does what it is for (`Exact`) exactly when
the mask is not half stale (`Fresh`): none of the reported events is registered
any more, or all of them are (`dispatch_exact`).  Otherwise the assertion of
`triggerEvent` ends the process (`stale_readiness_aborts`).
-/
import ZjhServer.IOManager.Events

namespace Will

namespace IOManager

/-- Whether event `e` is registered on `fd`. -/
def registered (s : IOManager) (fd : Nat) (e : Event) : Bool :=
  (s.m_fdContexts[fd]?).elim false (·.events.has e)

/-- The context registered for event `e` of `fd`. -/
def context (s : IOManager) (fd : Nat) (e : Event) : Option EventContext :=
  (s.m_fdContexts[fd]?).map (·.getEventContext e)

/-- The events registered now and reported ready. -/
def hits (ctx : FdContext) (event : Mask) : Events := ctx.events.inter (realEvents event ctx.events)

/-- What a turn on `fd`, with context `ctx` and reported mask `event`, should do:
trigger the registered and reported events, each once, and leave every other
registration as it is. -/
structure Exact (s t : IOManager) (ctx : FdContext) (fd : Nat) (event : Mask) : Prop where
  alive : t.aborted = false
  scheduled : t.scheduled = s.scheduled ++ ctx.tasks (hits ctx event)
  pending : t.m_pendingEventCount = s.m_pendingEventCount - (hits ctx event).count
  registered : ∀ fd' e,
    t.registered fd' e = (s.registered fd' e && !(decide (fd' = fd) && (hits ctx event).has e))
  kept : ∀ fd' e, t.registered fd' e = true → t.context fd' e = s.context fd' e

/-- The reported events are all registered, and `epoll_ctl` does not fail; or none
of them is. -/
def Fresh (ctx : FdContext) (event : Mask) (fails : Bool) : Prop :=
  hits ctx event = .NONE ∨ hits ctx event = realEvents event ctx.events ∧ fails = false

instance (ctx : FdContext) (event : Mask) (fails : Bool) : Decidable (Fresh ctx event fails) :=
  inferInstanceAs (Decidable (_ ∨ _ ∧ _))

/-- Storing the context without the triggered events. -/
theorem exact_of_store {s t : IOManager} {fd : Nat} {ctx : FdContext} {event : Mask}
    (hctx : s.m_fdContexts[fd]? = some ctx) (halive : t.aborted = false)
    (hstore : t.m_fdContexts = s.m_fdContexts.set fd (ctx.dropAll (hits ctx event)))
    (hscheduled : t.scheduled = s.scheduled ++ ctx.tasks (hits ctx event))
    (hpending : t.m_pendingEventCount = s.m_pendingEventCount - (hits ctx event).count) :
    Exact s t ctx fd event := by
  have hfd : fd < s.m_fdContexts.length := (List.getElem?_eq_some_iff.mp hctx).1
  have hat : t.m_fdContexts[fd]? = some (ctx.dropAll (hits ctx event)) := by
    rw [hstore, List.getElem?_set_self hfd]
  have hother : ∀ fd', fd' ≠ fd → t.m_fdContexts[fd']? = s.m_fdContexts[fd']? := by
    intro fd' hne
    rw [hstore, List.getElem?_set_ne (Ne.symm hne)]
  refine ⟨halive, hscheduled, hpending, fun fd' e => ?_, fun fd' e he => ?_⟩
  · unfold IOManager.registered
    by_cases hne : fd' = fd
    · subst hne
      simp only [hat, hctx, Option.elim_some, FdContext.dropAll_events, Events.has_diff,
        decide_true, Bool.true_and]
    · simp only [hother fd' hne, hne, decide_false, Bool.false_and, Bool.not_false, Bool.and_true]
  · unfold IOManager.registered at he
    unfold context
    by_cases hne : fd' = fd
    · subst hne
      simp only [hat, Option.elim_some, FdContext.dropAll_events, Events.has_diff,
        Bool.and_eq_true, Bool.not_eq_true'] at he
      rw [hat, hctx, Option.map_some, Option.map_some, FdContext.dropAll_context _ _ he.2]
    · rw [hother fd' hne]

theorem hits_none_eq {ctx : FdContext} {event : Mask} (h : hits ctx event = .NONE) :
    ctx.dropAll (hits ctx event) = ctx ∧ ctx.tasks (hits ctx event) = [] ∧
      (hits ctx event).count = 0 := by
  rw [h]
  exact ⟨rfl, rfl, rfl⟩

/-- A turn with nothing to trigger. -/
theorem dispatch_none {s : IOManager} {fd : Nat} {ctx : FdContext} {event : Mask} (fails : Bool)
    (halive : s.aborted = false) (hctx : s.m_fdContexts[fd]? = some ctx)
    (h : hits ctx event = .NONE) :
    s.dispatch fd event fails = some s ∧ Exact s s ctx fd event := by
  obtain ⟨hdrop, htasks, hcount⟩ := hits_none_eq h
  refine ⟨?_, exact_of_store hctx halive ?_ ?_ ?_⟩
  · unfold dispatch
    rw [hctx]
    exact if_pos h
  · obtain ⟨_, rfl⟩ := List.getElem?_eq_some_iff.mp hctx
    rw [hdrop, List.set_getElem_self]
  · rw [htasks, List.append_nil]
  · rw [hcount, Int.sub_zero]

theorem events_ne_none {ctx : FdContext} {event : Mask} (h : hits ctx event ≠ .NONE) :
    ctx.events ≠ .NONE := by
  intro hnone
  refine h (Events.eq_none_iff.mpr fun e => ?_)
  rw [hits, Events.has_inter, hnone, Events.eq_none_iff.mp rfl e, Bool.false_and]

/-- A turn that goes on to trigger. -/
theorem dispatch_some {s : IOManager} (h : s.Inv) {fd : Nat} {ctx : FdContext} {event : Mask}
    (hctx : s.m_fdContexts[fd]? = some ctx) (hsome : hits ctx event ≠ .NONE) :
    s.dispatch fd event false =
      some ((s.setMask fd (kernelMask (ctx.events.diff (realEvents event ctx.events)))).triggerAll
        fd (realEvents event ctx.events)) := by
  have hinter : ¬ ctx.events.inter (realEvents event ctx.events) = .NONE := hsome
  unfold dispatch
  rw [hctx]
  simp only
  rw [if_neg hinter, leave_eq h hctx (events_ne_none hsome)]
  rfl

/-- A turn whose reported events are all registered. -/
theorem dispatch_all {s : IOManager} (h : s.Inv) {fd : Nat} {ctx : FdContext} {event : Mask}
    (hctx : s.m_fdContexts[fd]? = some ctx) (hsome : hits ctx event ≠ .NONE)
    (hall : hits ctx event = realEvents event ctx.events) :
    ∃ t, s.dispatch fd event false = some t ∧ Exact s t ctx fd event ∧ t.Inv := by
  have hok := h.ok fd ctx hctx
  have hreg : ∀ e, (realEvents event ctx.events).has e = true → ctx.events.has e = true := by
    intro e he
    rw [← hall, hits, Events.has_inter, Bool.and_eq_true] at he
    exact he.1
  have hrun := dispatch_some h hctx hsome
  rw [triggerAll_of_has (s := s.setMask fd _) h.alive hctx hok hreg] at hrun
  refine ⟨_, hrun, exact_of_store hctx h.alive ?_ ?_ ?_, ?_⟩
  · rw [hall]; rfl
  · rw [hall]; rfl
  · rw [hall]; rfl
  · refine h.store (hok.dropAll (realEvents event ctx.events))
      (List.getElem?_eq_some_iff.mp hctx).1 rfl ?_ rfl h.alive
    rw [FdContext.dropAll_events]
    rfl

/-- The tasks of a mask that is not empty. -/
theorem tasks_ne_nil (ctx : FdContext) {mask : Events} (h : mask ≠ .NONE) :
    ctx.tasks mask ≠ [] := by
  intro hnil
  apply h
  unfold FdContext.tasks at hnil
  rw [List.append_eq_nil_iff] at hnil
  refine Events.eq_none_iff.mpr fun e => ?_
  cases e with
  | READ => simpa using hnil.1
  | WRITE => simpa using hnil.2

/-- A failing `epoll_ctl` leaves the reported events untriggered. -/
theorem dispatch_fails {s : IOManager} {fd : Nat} {ctx : FdContext} {event : Mask}
    (hctx : s.m_fdContexts[fd]? = some ctx) (hsome : hits ctx event ≠ .NONE) :
    s.dispatch fd event true = some s ∧ ¬ Exact s s ctx fd event := by
  refine ⟨?_, fun hexact => ?_⟩
  · unfold dispatch
    rw [hctx]
    exact if_neg hsome
  · have hnil := hexact.scheduled
    rw [List.self_eq_append_right] at hnil
    exact tasks_ne_nil ctx hsome hnil

/-- A half stale mask aborts the process. -/
theorem dispatch_aborts {s : IOManager} (h : s.Inv) {fd : Nat} {ctx : FdContext} {event : Mask}
    (hctx : s.m_fdContexts[fd]? = some ctx) (hsome : hits ctx event ≠ .NONE)
    (hstale : hits ctx event ≠ realEvents event ctx.events) :
    ∃ t, s.dispatch fd event false = some t ∧ t.aborted = true := by
  -- some reported event is not registered
  obtain ⟨e, he, hne⟩ : ∃ e, (realEvents event ctx.events).has e = true ∧
      ctx.events.has e = false := by
    by_contra hno
    push Not at hno
    refine hstale (Events.ext_has fun e => ?_)
    rw [hits, Events.has_inter]
    rcases hreal : (realEvents event ctx.events).has e with _ | _
    · rw [Bool.and_false]
    · rw [Bool.and_true, ← Bool.not_eq_false]
      exact hno e hreal
  exact ⟨_, dispatch_some h hctx hsome,
    triggerAll_of_not_has (s := s.setMask fd _) h.alive hctx (h.ok fd ctx hctx) he hne⟩

/-- **One turn** does what it should exactly when its mask is fresh. -/
theorem dispatch_exact_iff {s : IOManager} (h : s.Inv) {fd : Nat} {ctx : FdContext}
    (hctx : s.m_fdContexts[fd]? = some ctx) (event : Mask) (fails : Bool) :
    ∃ t, s.dispatch fd event fails = some t ∧ (Exact s t ctx fd event ↔ Fresh ctx event fails) ∧
      (Fresh ctx event fails → t.Inv) := by
  by_cases hsome : hits ctx event = .NONE
  · obtain ⟨hrun, hexact⟩ := dispatch_none fails h.alive hctx hsome
    exact ⟨s, hrun, iff_of_true hexact (.inl hsome), fun _ => h⟩
  · cases fails with
    | true =>
        obtain ⟨hrun, hnot⟩ := dispatch_fails hctx hsome
        have hstale : ¬ Fresh ctx event true := by
          rintro (hnone | ⟨-, hf⟩)
          · exact hsome hnone
          · cases hf
        exact ⟨s, hrun, iff_of_false hnot hstale, fun hf => absurd hf hstale⟩
    | false =>
        by_cases hall : hits ctx event = realEvents event ctx.events
        · obtain ⟨t, hrun, hexact, hinv⟩ := dispatch_all h hctx hsome hall
          exact ⟨t, hrun, iff_of_true hexact (.inr ⟨hall, rfl⟩), fun _ => hinv⟩
        · obtain ⟨t, hrun, habort⟩ := dispatch_aborts h hctx hsome hall
          have hstale : ¬ Fresh ctx event false := by
            rintro (hnone | ⟨hreal, -⟩)
            · exact hsome hnone
            · exact hall hreal
          refine ⟨t, hrun, iff_of_false (fun hexact => ?_) hstale, fun hf => absurd hf hstale⟩
          rw [hexact.alive] at habort
          cases habort

/-! ### Whose registrations -/

/-- `t` has no other registration than `s`. -/
def Kept (s t : IOManager) : Prop :=
  ∀ fd e c, t.context fd e = some c → c = .null ∨ s.context fd e = some c

theorem Kept.refl (s : IOManager) : Kept s s := fun _ _ _ h => .inr h

theorem Kept.trans {s t u : IOManager} (h : Kept s t) (h' : Kept t u) : Kept s u := by
  intro fd e c hc
  rcases h' fd e c hc with hnull | hc
  · exact .inl hnull
  · exact h fd e c hc

theorem kept_of_eq {s t : IOManager} (h : t.m_fdContexts = s.m_fdContexts) : Kept s t := by
  intro fd e c hc
  unfold context at hc ⊢
  rw [h] at hc
  exact .inr hc

/-- Changing the context of one descriptor. -/
theorem context_set {s t : IOManager} {fd : Nat} {ctx : FdContext}
    (hset : t.m_fdContexts = s.m_fdContexts.set fd ctx) {fd' : Nat} {e : Event} {c : EventContext}
    (hc : t.context fd' e = some c) :
    fd' = fd ∧ c = ctx.getEventContext e ∨ s.context fd' e = some c := by
  unfold context at hc ⊢
  rw [hset, List.getElem?_set] at hc
  split_ifs at hc with hfd hlt
  · exact .inl ⟨hfd.symm, (Option.some.inj hc).symm⟩
  · cases hc
  · exact .inr hc

theorem kept_drop {s t : IOManager} {fd : Nat} {ctx : FdContext}
    (hctx : s.m_fdContexts[fd]? = some ctx) {event : Event}
    (hset : t.m_fdContexts = s.m_fdContexts.set fd (ctx.drop event)) : Kept s t := by
  intro fd' e c hc
  rcases context_set hset hc with ⟨rfl, rfl⟩ | hc
  · rw [FdContext.drop, FdContext.getEventContext_set]
    split_ifs with he
    · exact .inl rfl
    · refine .inr ?_
      rw [context, hctx]
      cases e <;> rfl
  · exact .inr hc

theorem resized_kept (s : IOManager) (fd : Nat) : Kept s (s.resized fd) := by
  unfold resized
  split_ifs
  · exact .refl s
  · intro fd' e c hc
    obtain ⟨ctx, hctx, rfl⟩ := Option.map_eq_some_iff.mp hc
    simp only [contextResize, List.getElem?_append] at hctx
    split_ifs at hctx
    · rw [List.getElem?_take] at hctx
      split_ifs at hctx
      exact .inr (by rw [context, hctx]; rfl)
    · rw [List.eq_of_mem_replicate (List.mem_of_getElem? hctx)]
      exact .inl (by cases e <;> rfl)

theorem epollCtl_contexts {s t : IOManager} {op : CtlOp} {fd : Nat} {events : Events} {fails : Bool}
    (h : s.epollCtl op fd events fails = some t) : t.m_fdContexts = s.m_fdContexts := by
  unfold epollCtl at h
  split at h
  · cases h
  · split at h <;> cases h <;> rfl

theorem epollCtl_kept {s t : IOManager} {op : CtlOp} {fd : Nat} {events : Events} {fails : Bool}
    (h : s.epollCtl op fd events fails = some t) : Kept s t := by
  exact kept_of_eq (epollCtl_contexts h)

theorem trigger_kept (s : IOManager) (fd : Nat) (event : Event) : Kept s (s.trigger fd event) := by
  unfold trigger
  split_ifs
  · exact .refl s
  · rcases hctx : s.m_fdContexts[fd]? with _ | ctx
    · exact kept_of_eq rfl
    · rw [Option.bind_some]
      rcases htrigger : ctx.triggerEvent event with _ | ⟨ctx', task⟩
      · exact kept_of_eq rfl
      · have hdrop : ctx' = ctx.drop event := by
          unfold FdContext.triggerEvent at htrigger
          split at htrigger
          · obtain ⟨scheduler, -, heq⟩ := Option.map_eq_some_iff.mp htrigger
            exact (Prod.mk.inj heq).1.symm
          · cases htrigger
        subst hdrop
        exact kept_drop hctx rfl

theorem triggerAll_kept (s : IOManager) (fd : Nat) (mask : Events) :
    Kept s (s.triggerAll fd mask) := by
  unfold triggerAll
  split_ifs
  · exact (trigger_kept s fd .READ).trans (trigger_kept _ fd .WRITE)
  · exact trigger_kept s fd .READ
  · exact trigger_kept s fd .WRITE
  · exact .refl s

theorem delEvent_kept (s : IOManager) (fd : Nat) (event : Event) (fails : Bool) :
    Kept s (s.delEvent fd event fails).1 := by
  unfold delEvent
  rcases hctx : s.m_fdContexts[fd]? with _ | ctx
  · exact .refl s
  · simp only
    split_ifs
    · rcases hleave : s.leave fd (ctx.events.remove event) fails with _ | t
      · exact .refl s
      · exact (epollCtl_kept hleave).trans (kept_drop ((epollCtl_contexts hleave).symm ▸ hctx) rfl)
    · exact .refl s

theorem cancelEvent_kept (s : IOManager) (fd : Nat) (event : Event) (fails : Bool) :
    Kept s (s.cancelEvent fd event fails).1 := by
  unfold cancelEvent
  rcases hctx : s.m_fdContexts[fd]? with _ | ctx
  · exact .refl s
  · simp only
    split_ifs
    · rcases hleave : s.leave fd (ctx.events.remove event) fails with _ | t
      · exact .refl s
      · exact (epollCtl_kept hleave).trans (trigger_kept t fd event)
    · exact .refl s

theorem cancelAll_kept (s : IOManager) (fd : Nat) (fails : Bool) :
    Kept s (s.cancelAll fd fails).1 := by
  unfold cancelAll
  rcases hctx : s.m_fdContexts[fd]? with _ | ctx
  · exact .refl s
  · simp only
    split_ifs
    · exact .refl s
    · rcases hctl : s.epollCtl .EPOLL_CTL_DEL fd .NONE fails with _ | t
      · exact .refl s
      · exact (epollCtl_kept hctl).trans (triggerAll_kept t fd ctx.events)

theorem dispatch_kept {s t : IOManager} {fd : Nat} {event : Mask} {fails : Bool}
    (hs : s.dispatch fd event fails = some t) : Kept s t := by
  unfold dispatch at hs
  rcases hctx : s.m_fdContexts[fd]? with _ | ctx
  · rw [hctx] at hs
    cases hs
  · simp only [hctx] at hs
    split_ifs at hs
    · cases hs
      exact .refl s
    · rcases hleave : s.leave fd (ctx.events.diff (realEvents event ctx.events)) fails with _ | u
      · rw [hleave] at hs
        cases hs
        exact .refl s
      · rw [hleave] at hs
        cases hs
        exact (epollCtl_kept hleave).trans (triggerAll_kept u fd _)

/-- The only new registration is that of `addEvent`, for its caller. -/
theorem addEvent_context {s t : IOManager} {fd : Nat} {event : Event} {scheduler : Nat}
    {waiter : Waiter} {fails b : Bool}
    (hs : s.addEvent fd event scheduler waiter fails = some (t, b)) {fd' : Nat} {e : Event}
    {c : EventContext} (hc : t.context fd' e = some c) :
    c = .null ∨ s.context fd' e = some c ∨ c = waiter.context scheduler := by
  have hresized := resized_kept s fd
  unfold addEvent at hs
  simp only at hs
  rcases hctx : (s.resized fd).m_fdContexts[fd]? with _ | ctx
  · rw [hctx] at hs
    cases hs
  · simp only [hctx] at hs
    split at hs
    · cases hs
    · split at hs
      · cases hs
        exact (hresized fd' e c hc).imp_right .inl
      · rename_i u hctl
        have hkept := hresized.trans (epollCtl_kept hctl)
        split at hs
        · cases hs
          rcases context_set (s := u) rfl hc with ⟨rfl, rfl⟩ | hc
          · rw [FdContext.add, FdContext.getEventContext_set]
            split_ifs with he
            · exact .inr (.inr rfl)
            · refine (hkept fd' e _ ?_).imp_right .inl
              rw [context, epollCtl_contexts hctl, hctx]
              cases e <;> rfl
          · exact (hkept fd' e c hc).imp_right .inl
        · cases hs

/-! ### Runs -/

/-- The masks dispatched are fresh; every other step is admitted. -/
def Fine (s : IOManager) : Action → Prop
  | .dispatch w fails =>
      match s.ready w with
      | [] => True
      | (fd, event) :: _ =>
          match s.m_fdContexts[fd]? with
          | none => True
          | some ctx => Fresh ctx event fails
  | _ => True

/-- The next mask of an idle worker is for a descriptor of the table. -/
theorem Inv.ready_context {s : IOManager} (h : s.Inv) {w fd : Nat} {event : Mask}
    {rest : List (Nat × Mask)} (hw : s.ready w = (fd, event) :: rest) :
    ∃ ctx, s.m_fdContexts[fd]? = some ctx := by
  have hfd := h.ready w (fd, event) (by rw [hw]; exact List.mem_cons_self ..)
  exact ⟨_, List.getElem?_eq_getElem hfd⟩

/-- Taking the next mask off the list of worker `w`. -/
theorem Inv.pop {s : IOManager} (h : s.Inv) {w : Nat} {r : Nat × Mask} {rest : List (Nat × Mask)}
    (hw : s.ready w = r :: rest) : Inv { s with ready := Function.update s.ready w rest } := by
  refine ⟨h.ok, h.interest, fun w' r' hr' => ?_, h.size, h.alive⟩
  simp only at hr'
  by_cases hne : w' = w
  · subst hne
    rw [Function.update_self] at hr'
    exact h.ready w' r' (by rw [hw]; exact List.mem_cons_of_mem _ hr')
  · rw [Function.update_of_ne hne] at hr'
    exact h.ready w' r' hr'

theorem step_dispatch {s : IOManager} (h : s.Inv) {w fd : Nat} {event : Mask}
    {rest : List (Nat × Mask)} (hw : s.ready w = (fd, event) :: rest) (fails : Bool) :
    s.step (.dispatch w fails) =
      { s with ready := Function.update s.ready w rest }.dispatch fd event fails := by
  unfold step
  rw [if_neg (by rw [h.alive]; decide)]
  simp only [hw]

theorem step_inv {s t : IOManager} {a : Action} (h : s.Inv) (hfine : Fine s a)
    (hs : s.step a = some t) : t.Inv := by
  cases a with
  | dispatch w fails =>
      rcases hw : s.ready w with _ | ⟨⟨fd, event⟩, rest⟩
      · unfold step at hs
        rw [if_neg (by rw [h.alive]; decide)] at hs
        simp only [hw] at hs
        cases hs
      · -- the one step that may abort
        obtain ⟨ctx, hctx⟩ := h.ready_context hw
        have hfresh : Fresh ctx event fails := by
          unfold Fine at hfine
          simpa only [hw, hctx] using hfine
        obtain ⟨u, hu, -, hinv⟩ := dispatch_exact_iff (h.pop hw) hctx event fails
        rw [step_dispatch h hw fails, hu] at hs
        cases hs
        exact hinv hfresh
  | addEvent fd event scheduler waiter fails =>
      unfold step at hs
      rw [if_neg (by rw [h.alive]; decide)] at hs
      obtain ⟨⟨u, b⟩, hu, rfl⟩ := Option.map_eq_some_iff.mp hs
      exact addEvent_inv h hu
  | delEvent fd event fails =>
      unfold step at hs
      rw [if_neg (by rw [h.alive]; decide)] at hs
      cases hs
      exact delEvent_inv h fd event fails
  | cancelEvent fd event fails =>
      unfold step at hs
      rw [if_neg (by rw [h.alive]; decide)] at hs
      cases hs
      exact cancelEvent_inv h fd event fails
  | cancelAll fd fails =>
      unfold step at hs
      rw [if_neg (by rw [h.alive]; decide)] at hs
      cases hs
      exact cancelAll_inv h fd fails
  | epollWait w reports =>
      unfold step at hs
      rw [if_neg (by rw [h.alive]; decide)] at hs
      simp only at hs
      split_ifs at hs with hguard
      cases hs
      exact epollWait_inv h (Bool.and_eq_true_iff.mp hguard).2

/-- A step that fails no assertion keeps the invariant. -/
theorem step_alive_inv {s t : IOManager} {a : Action} (h : s.Inv) (hs : s.step a = some t)
    (halive : t.aborted = false) : t.Inv := by
  by_cases hfine : Fine s a
  · exact step_inv h hfine hs
  · cases a with
    | dispatch w fails =>
        rcases hw : s.ready w with _ | ⟨⟨fd, event⟩, rest⟩
        · exact absurd (show Fine s (.dispatch w fails) by simp only [Fine, hw]) hfine
        · obtain ⟨ctx, hctx⟩ := h.ready_context hw
          have hstale : ¬ Fresh ctx event fails := by
            simpa only [Fine, hw, hctx] using hfine
          have hsome : hits ctx event ≠ .NONE := fun hnone => hstale (.inl hnone)
          rw [step_dispatch h hw] at hs
          cases fails with
          | true =>
              have hrun := (dispatch_fails (s := { s with ready := Function.update s.ready w rest })
                hctx hsome).1
              obtain rfl := Option.some.inj (hrun.symm.trans hs)
              exact h.pop hw
          | false =>
              obtain ⟨u, hu, haborted⟩ := dispatch_aborts (h.pop hw) hctx hsome
                fun hreal => hstale (.inr ⟨hreal, rfl⟩)
              obtain rfl := Option.some.inj (hu.symm.trans hs)
              rw [halive] at haborted
              cases haborted
    | _ => exact absurd trivial hfine

/-- What a call registers an event with. -/
def Action.waiter : Action → Option Waiter
  | .addEvent _ _ _ waiter _ => some waiter
  | _ => none

/-- **No step registers anything but `addEvent`**, and that for its caller. -/
theorem step_context {s t : IOManager} {a : Action} (hs : s.step a = some t) {fd : Nat} {e : Event}
    {c : EventContext} (hc : t.context fd e = some c) :
    c = .null ∨ s.context fd e = some c ∨
      ∃ waiter scheduler, a.waiter = some waiter ∧ c = waiter.context scheduler := by
  -- every other call only takes contexts away
  have hkept : Kept s t → c = .null ∨ s.context fd e = some c ∨
      ∃ waiter scheduler, a.waiter = some waiter ∧ c = waiter.context scheduler :=
    fun h => (h fd e c hc).imp_right .inl
  unfold step at hs
  split at hs
  · cases hs
  · cases a with
    | addEvent fd event scheduler waiter fails =>
        obtain ⟨⟨u, b⟩, hadd, rfl⟩ := Option.map_eq_some_iff.mp hs
        refine (addEvent_context hadd hc).imp_right fun h => h.imp_right fun heq => ?_
        exact ⟨waiter, scheduler, rfl, heq⟩
    | delEvent fd event fails =>
        cases hs
        exact hkept (delEvent_kept s fd event fails)
    | cancelEvent fd event fails =>
        cases hs
        exact hkept (cancelEvent_kept s fd event fails)
    | cancelAll fd fails =>
        cases hs
        exact hkept (cancelAll_kept s fd fails)
    | epollWait w reports =>
        simp only at hs
        split at hs
        · cases hs
          exact hkept (kept_of_eq rfl)
        · cases hs
    | dispatch w fails =>
        rcases hw : s.ready w with _ | ⟨⟨fd', event⟩, rest⟩
        · simp only [hw] at hs
          cases hs
        · simp only [hw] at hs
          have hdispatch :=
            dispatch_kept (s := { s with ready := Function.update s.ready w rest }) hs
          exact hkept ((kept_of_eq rfl).trans hdispatch)

/-- **Runs that dispatch only fresh masks** never abort, and wherever such a run
stands, the next turn of any idle worker triggers exactly the events both
registered and reported, counts them off, and leaves the rest registered, if and
only if its mask is fresh. -/
theorem dispatch_exact {s : IOManager} (h : Lts.Reach step Fine init s) :
    s.aborted = false ∧
      ∀ w fd event rest fails, s.ready w = (fd, event) :: rest →
        ∃ ctx t, s.m_fdContexts[fd]? = some ctx ∧ s.step (.dispatch w fails) = some t ∧
          (Exact s t ctx fd event ↔ Fresh ctx event fails) := by
  have hinv : s.Inv := h.invariant init_inv fun _ _ _ hs hfine => step_inv hs hfine
  refine ⟨hinv.alive, fun w fd event rest fails hw => ?_⟩
  obtain ⟨ctx, hctx⟩ := hinv.ready_context hw
  obtain ⟨t, ht, hiff, -⟩ := dispatch_exact_iff (hinv.pop hw) hctx event fails
  refine ⟨ctx, t, hctx, by rw [step_dispatch hinv hw, ht], ?_⟩
  -- `Exact` does not look at the list of ready descriptors
  rw [← hiff]
  exact ⟨fun h => ⟨h.alive, h.scheduled, h.pending, h.registered, h.kept⟩,
    fun h => ⟨h.alive, h.scheduled, h.pending, h.registered, h.kept⟩⟩

/-- Two fibers wait on descriptor 5, and worker 0 has both events reported. -/
def bothReady : List Action :=
  [.addEvent 5 .READ 0 (.fiber 1) false, .addEvent 5 .WRITE 0 (.fiber 2) false,
    .epollWait 0 [(5, ⟨true, true, false, false⟩)]]

theorem dispatch_exact_both :
    ∃ s, Lts.run step bothReady init = some s ∧ s.aborted = false ∧
      ∀ w fd event rest fails, s.ready w = (fd, event) :: rest →
        ∃ ctx t, s.m_fdContexts[fd]? = some ctx ∧ s.step (.dispatch w fails) = some t ∧
          (Exact s t ctx fd event ↔ Fresh ctx event fails) := by
  obtain ⟨s, hs⟩ : ∃ s, Lts.run step bothReady init = some s := ⟨_, rfl⟩
  have hfine : ∀ a ∈ bothReady, ∀ s, Fine s a := by simp [bothReady, Fine]
  exact ⟨s, hs, dispatch_exact (Lts.Reach.init.run hfine hs)⟩

/-- **A stale mask aborts the process**: the write event is cancelled between
`epoll_wait` and the dispatch. -/
theorem stale_readiness_aborts :
    ¬ ∀ s, Lts.Reach step Lts.Any init s → s.aborted = false := by
  intro h
  obtain ⟨s, hs⟩ : ∃ s, Lts.run step
      (bothReady ++ [.cancelEvent 5 .WRITE false, .dispatch 0 false]) init = some s := ⟨_, rfl⟩
  have halive := h s (Lts.reach_of_run hs)
  cases hs
  exact absurd halive (by decide)

end IOManager

end Will
