/-
ZjhServer/Lib/Lts.lean

Transition systems given by a partial step function: `step s a = some t` when
action `a` can happen in `s` and leads to `t`.  An interleaving of several
parties is a list of actions, each naming its party.

`Reach step good s₀ s`: some run from `s₀` ends in `s`, and `good` held at each of
its steps.  `Any` restricts nothing.
-/
import Mathlib.Tactic.Common

namespace Lts

variable {σ α : Type} {step : σ → α → Option σ} {good : σ → α → Prop} {s₀ s t : σ}

inductive Reach (step : σ → α → Option σ) (good : σ → α → Prop) (s₀ : σ) : σ → Prop
  | init : Reach step good s₀ s₀
  | step {s t : σ} (a : α) : Reach step good s₀ s → good s a → step s a = some t →
      Reach step good s₀ t

/-- Every step is admitted. -/
def Any (_ : σ) (_ : α) : Prop := True

/-- **Invariants**: what holds at first and is kept by every admitted step holds in
every state reached. -/
theorem Reach.invariant {I : σ → Prop} (h₀ : I s₀)
    (hstep : ∀ s a t, I s → good s a → step s a = some t → I t)
    (h : Reach step good s₀ s) : I s := by
  induction h with
  | init => exact h₀
  | step a _ hgood hs ih => exact hstep _ a _ ih hgood hs

theorem Reach.trans (h : Reach step good s₀ s) (h' : Reach step good s t) :
    Reach step good s₀ t := by
  induction h' with
  | init => exact h
  | step a _ hgood hs ih => exact .step a ih hgood hs

theorem Reach.mono {good' : σ → α → Prop} (hsub : ∀ s a, good s a → good' s a)
    (h : Reach step good s₀ s) : Reach step good' s₀ s := by
  induction h with
  | init => exact .init
  | step a _ hgood hs ih => exact .step a ih (hsub _ a hgood) hs

/-- The end of a run along a list of actions. -/
def run (step : σ → α → Option σ) : List α → σ → Option σ
  | [], s => some s
  | a :: as, s => (step s a).bind (run step as)

/-- A run along actions that are admitted everywhere. -/
theorem Reach.run {as : List α} (h : Reach step good s₀ s) (hgood : ∀ a ∈ as, ∀ s, good s a)
    (hrun : Lts.run step as s = some t) : Reach step good s₀ t := by
  induction as generalizing s with
  | nil => cases hrun; exact h
  | cons a as ih =>
      obtain ⟨u, hu, hrest⟩ := Option.bind_eq_some_iff.mp hrun
      exact ih (.step a h (hgood a (List.mem_cons_self ..) s) hu)
        (fun b hb => hgood b (List.mem_cons_of_mem _ hb)) hrest

/-- What a concrete run reaches is reachable. -/
theorem reach_of_run {as : List α} (hrun : run step as s₀ = some t) : Reach step Any s₀ t :=
  Reach.init.run (fun _ _ _ => trivial) hrun

end Lts
