/-
ZjhServer/Lib/Transducer.lean

Deterministic machines that perform actions on their transitions.  A walk reads
letters until it is at their end, has no transition, or has performed an action
that ends it, and lists each action with the position of the letter it was
performed on.  A word cut in two is walked in two (`walk_append`); what a machine and
an interpreter of its actions make of a word is put together the same way
(`Reads.append`).

A discipline gives rights to the states and says which rights an action needs,
drops and gives.  If every transition obeys it (`Discipline.Obeyed`, finitely many
to check), then along every walk each action is performed with the rights it needs:
two interpreters of the actions agree on a walk if they agree on each action
performed with its rights (`Discipline.sim`), and an action that drops a right
nobody gives is performed at most once (`Discipline.count_le`).
-/
import Mathlib.Tactic.Common
import Mathlib.Data.Fintype.Basic

namespace Transducer

variable {σ α β ρ X Y : Type}

structure Machine (σ α β : Type) where
  /-- the actions performed on a letter, and the state after -/
  next : σ → α → Option (List β × σ)
  halts : β → Bool

/-- How a walk ended. -/
inductive Ended
  | ran
  | halted
  | stuck
  deriving DecidableEq, Repr

structure Walk (σ β : Type) where
  events : List (Nat × β)
  state : σ
  /-- where the first letter not read is -/
  pos : Nat
  ended : Ended

/-- The walk with the events before it. -/
def Walk.behind (r : Walk σ β) (events : List (Nat × β)) : Walk σ β :=
  { r with events := events ++ r.events }

@[simp] theorem Walk.events_behind (r : Walk σ β) (events : List (Nat × β)) :
    (r.behind events).events = events ++ r.events := rfl

@[simp] theorem Walk.state_behind (r : Walk σ β) (events : List (Nat × β)) :
    (r.behind events).state = r.state := rfl

@[simp] theorem Walk.pos_behind (r : Walk σ β) (events : List (Nat × β)) :
    (r.behind events).pos = r.pos := rfl

@[simp] theorem Walk.ended_behind (r : Walk σ β) (events : List (Nat × β)) :
    (r.behind events).ended = r.ended := rfl

theorem Walk.behind_behind (r : Walk σ β) (events earlier : List (Nat × β)) :
    (r.behind events).behind earlier = r.behind (earlier ++ events) := by
  simp only [Walk.behind, List.append_assoc]

namespace Machine

variable (M : Machine σ α β)

/-- The walk from state `q` over a word whose first letter is at position `p`. -/
def walk : σ → Nat → List α → Walk σ β
  | q, p, [] => ⟨[], q, p, .ran⟩
  | q, p, a :: w =>
      match M.next q a with
      | none => ⟨[], q, p, .stuck⟩
      | some (acts, q') =>
          if acts.any M.halts then ⟨acts.map (p, ·), q', p + 1, .halted⟩
          else (walk q' (p + 1) w).behind (acts.map (p, ·))

/-- The state after a word that is read without an action. -/
def quiet : σ → List α → Option σ
  | q, [] => some q
  | q, a :: w =>
      match M.next q a with
      | some ([], q') => quiet q' w
      | _ => none

variable {M}

/-! ### Cutting words -/

theorem walk_append {q : σ} {p : Nat} {w v : List α} (h : (M.walk q p w).ended = .ran) :
    M.walk q p (w ++ v) =
      (M.walk (M.walk q p w).state (p + w.length) v).behind (M.walk q p w).events := by
  induction w generalizing q p with
  | nil => rfl
  | cons a w ih =>
      rw [List.cons_append, walk]
      rw [walk] at h ⊢
      rcases hnext : M.next q a with _ | ⟨acts, q'⟩
      · rw [hnext] at h; cases h
      · rw [hnext] at h
        simp only at h ⊢
        split_ifs at h ⊢ with hhalt
        rw [ih h, Walk.behind_behind, List.length_cons, Nat.add_comm w.length, ← Nat.add_assoc]
        rfl

/-- A walk that ended before the cut is the same without what follows. -/
theorem walk_append_of_ended {q : σ} {p : Nat} {w v : List α}
    (h : (M.walk q p w).ended ≠ .ran) : M.walk q p (w ++ v) = M.walk q p w := by
  induction w generalizing q p with
  | nil => exact absurd rfl h
  | cons a w ih =>
      rw [List.cons_append, walk, walk]
      rw [walk] at h
      rcases hnext : M.next q a with _ | ⟨acts, q'⟩
      · rfl
      · rw [hnext] at h
        simp only at h ⊢
        split_ifs at h ⊢ with hhalt
        · rfl
        · rw [ih h]

theorem walk_pos_ran {q : σ} {p : Nat} {w : List α} (h : (M.walk q p w).ended = .ran) :
    (M.walk q p w).pos = p + w.length := by
  induction w generalizing q p with
  | nil => rfl
  | cons a w ih =>
      rw [walk] at h ⊢
      rcases hnext : M.next q a with _ | ⟨acts, q'⟩
      · rw [hnext] at h; cases h
      · rw [hnext] at h
        simp only at h ⊢
        split_ifs at h ⊢ with hhalt
        rw [Walk.pos_behind, List.length_cons, ih h]
        omega

theorem walk_pos_le (q : σ) (p : Nat) (w : List α) :
    p ≤ (M.walk q p w).pos ∧ (M.walk q p w).pos ≤ p + w.length := by
  induction w generalizing q p with
  | nil => exact ⟨Nat.le_refl _, Nat.le_refl _⟩
  | cons a w ih =>
      rw [walk, List.length_cons]
      rcases hnext : M.next q a with _ | ⟨acts, q'⟩
      · simp only
        omega
      · simp only
        split_ifs with hhalt
        · simp only
          omega
        · have := ih q' (p + 1)
          rw [Walk.pos_behind]
          omega

/-- A walk is stuck at a letter of its word. -/
theorem stuck_at {q : σ} {p : Nat} {w : List α} (h : (M.walk q p w).ended = .stuck) :
    ∃ a, w[(M.walk q p w).pos - p]? = some a ∧ M.next (M.walk q p w).state a = none := by
  induction w generalizing q p with
  | nil => cases h
  | cons a w ih =>
      rw [walk] at h ⊢
      rcases hnext : M.next q a with _ | ⟨acts, q'⟩
      · exact ⟨a, by rw [Nat.sub_self]; rfl, hnext⟩
      · rw [hnext] at h
        simp only at h ⊢
        split_ifs at h ⊢ with hhalt
        obtain ⟨b, hb, hnone⟩ := ih h
        have hle := (walk_pos_le (M := M) q' (p + 1) w).1
        refine ⟨b, ?_, hnone⟩
        rw [Walk.pos_behind, show (M.walk q' (p + 1) w).pos - p =
          (M.walk q' (p + 1) w).pos - (p + 1) + 1 by omega, List.getElem?_cons_succ]
        exact hb

theorem lt_pos_of_halted {q : σ} {p : Nat} {w : List α} (h : (M.walk q p w).ended = .halted) :
    p < (M.walk q p w).pos := by
  cases w with
  | nil => cases h
  | cons a w =>
      rw [walk] at h ⊢
      rcases hnext : M.next q a with _ | ⟨acts, q'⟩
      · rw [hnext] at h; cases h
      · simp only
        split_ifs with hhalt
        · exact Nat.lt_succ_self p
        · exact (walk_pos_le q' (p + 1) w).1

/-- The events come in order, each at a letter read. -/
theorem walk_events (q : σ) (p : Nat) (w : List α) :
    (∀ e ∈ (M.walk q p w).events, p ≤ e.1 ∧ e.1 < (M.walk q p w).pos) ∧
      (M.walk q p w).events.Pairwise fun e e' => e.1 ≤ e'.1 := by
  induction w generalizing q p with
  | nil => exact ⟨fun _ he => absurd he List.not_mem_nil, List.Pairwise.nil⟩
  | cons a w ih =>
      rw [walk]
      rcases hnext : M.next q a with _ | ⟨acts, q'⟩
      · exact ⟨fun _ he => absurd he List.not_mem_nil, List.Pairwise.nil⟩
      · -- the actions of one letter are all at its position
        have hhere : ∀ e ∈ acts.map (p, ·), e.1 = p := by
          intro e he
          obtain ⟨b, -, rfl⟩ := List.mem_map.mp he
          rfl
        have hsorted : (acts.map (p, ·)).Pairwise fun e e' : Nat × β => e.1 ≤ e'.1 :=
          List.pairwise_of_forall_mem_list fun e he e' he' => by rw [hhere e he, hhere e' he']
        simp only
        split_ifs with hhalt
        · refine ⟨fun e he => ?_, hsorted⟩
          rw [hhere e he]
          exact ⟨Nat.le_refl p, Nat.lt_succ_self p⟩
        · obtain ⟨hin, hpair⟩ := ih q' (p + 1)
          have hpos := walk_pos_le (M := M) q' (p + 1) w
          simp only [Walk.events_behind, Walk.pos_behind]
          refine ⟨fun e he => ?_, List.pairwise_append.mpr ⟨hsorted, hpair, fun e he e' he' => ?_⟩⟩
          · rcases List.mem_append.mp he with he | he
            · rw [hhere e he]
              omega
            · have := hin e he
              omega
          · have := hin e' he'
            rw [hhere e he]
            omega

/-- Every event of the walk over the front of a word comes first in the walk over the word,
and the others behind the front. -/
theorem walk_events_append (q : σ) (p : Nat) (w v : List α) :
    ∃ later, (M.walk q p (w ++ v)).events = (M.walk q p w).events ++ later ∧
      ∀ e ∈ later, p + w.length ≤ e.1 := by
  by_cases hran : (M.walk q p w).ended = .ran
  · refine ⟨(M.walk (M.walk q p w).state (p + w.length) v).events, ?_, fun e he => ?_⟩
    · rw [walk_append hran, Walk.events_behind]
    · exact ((walk_events _ _ v).1 e he).1
  · refine ⟨[], ?_, fun e he => absurd he List.not_mem_nil⟩
    rw [walk_append_of_ended hran, List.append_nil]

/-- Every event is an action of a letter, at its position. -/
theorem walk_event {q : σ} {p : Nat} {w : List α} {e : Nat × β}
    (h : e ∈ (M.walk q p w).events) :
    ∃ q' a acts q'', p ≤ e.1 ∧ w[e.1 - p]? = some a ∧ M.next q' a = some (acts, q'') ∧
      e.2 ∈ acts := by
  induction w generalizing q p with
  | nil => exact absurd h List.not_mem_nil
  | cons a w ih =>
      have hhere {acts : List β} {q' : σ} (hnext : M.next q a = some (acts, q'))
          (he : e ∈ acts.map (p, ·)) : ∃ q' b acts q'', p ≤ e.1 ∧
            (a :: w)[e.1 - p]? = some b ∧ M.next q' b = some (acts, q'') ∧ e.2 ∈ acts := by
        obtain ⟨b, hb, rfl⟩ := List.mem_map.mp he
        exact ⟨q, a, acts, q', Nat.le_refl p, by rw [Nat.sub_self]; rfl, hnext, hb⟩
      rw [walk] at h
      rcases hnext : M.next q a with _ | ⟨acts, q'⟩
      · rw [hnext] at h
        exact absurd h List.not_mem_nil
      · rw [hnext] at h
        simp only at h
        split_ifs at h with hhalt
        · exact hhere hnext h
        · rcases List.mem_append.mp h with h | h
          · exact hhere hnext h
          · obtain ⟨q₁, b, acts₁, q₂, hp, hget, hstep, hmem⟩ := ih h
            refine ⟨q₁, b, acts₁, q₂, by omega, ?_, hstep, hmem⟩
            rw [show e.1 - p = e.1 - (p + 1) + 1 by omega, List.getElem?_cons_succ]
            exact hget

/-- A walk that did not halt performed no action that halts. -/
theorem walk_not_halts {q : σ} {p : Nat} {w : List α} (h : (M.walk q p w).ended ≠ .halted) :
    ∀ e ∈ (M.walk q p w).events, M.halts e.2 = false := by
  induction w generalizing q p with
  | nil => exact fun _ he => absurd he List.not_mem_nil
  | cons a w ih =>
      rw [walk] at h ⊢
      rcases hnext : M.next q a with _ | ⟨acts, q'⟩
      · exact fun _ he => absurd he List.not_mem_nil
      · rw [hnext] at h
        simp only at h ⊢
        split_ifs at h ⊢ with hhalt
        · exact absurd rfl h
        · intro e he
          rcases List.mem_append.mp he with he | he
          · obtain ⟨b, hb, rfl⟩ := List.mem_map.mp he
            rw [Bool.eq_false_iff]
            exact fun hb' => hhalt (List.any_eq_true.mpr ⟨b, hb, hb'⟩)
          · exact ih h e he

/-! ### Machines with more transitions -/

/-- Where `M` has a transition, `N` has the same. -/
structure Extends (N M : Machine σ α β) : Prop where
  next : ∀ q a x, M.next q a = some x → N.next q a = some x
  halts : N.halts = M.halts

namespace Extends

variable {N : Machine σ α β}

/-- The walks are the same, unless one is stuck where the other is not. -/
theorem walk_eq (h : N.Extends M) {q : σ} {p : Nat} {w : List α}
    (hstuck : (M.walk q p w).ended = .stuck → ∀ a, w[(M.walk q p w).pos - p]? = some a →
      N.next (M.walk q p w).state a = none) : N.walk q p w = M.walk q p w := by
  induction w generalizing q p with
  | nil => rfl
  | cons a w ih =>
      rw [walk] at hstuck
      rw [walk, walk, h.halts]
      rcases hnext : M.next q a with _ | ⟨acts, q'⟩
      · rw [hnext] at hstuck
        have hnone : N.next q a = none :=
          hstuck rfl a (by rw [Nat.sub_self]; rfl)
        rw [hnone]
      · rw [hnext] at hstuck
        rw [h.next q a _ hnext]
        simp only at hstuck ⊢
        split_ifs at hstuck ⊢ with hhalt
        · rfl
        · refine congrArg (Walk.behind · _) (ih fun hended b hb => hstuck hended b ?_)
          have hle := (walk_pos_le (M := M) q' (p + 1) w).1
          rw [Walk.pos_behind, show (M.walk q' (p + 1) w).pos - p =
            (M.walk q' (p + 1) w).pos - (p + 1) + 1 by omega, List.getElem?_cons_succ]
          exact hb

/-- Where one is stuck and the other is not, the other walks on. -/
theorem walk_beyond (h : N.Extends M) {q : σ} {p : Nat} {w : List α} {a : α}
    (hstuck : (M.walk q p w).ended = .stuck) (ha : w[(M.walk q p w).pos - p]? = some a)
    (hnext : (N.next (M.walk q p w).state a).isSome) :
    (∃ later, (N.walk q p w).events = (M.walk q p w).events ++ later) ∧
      (M.walk q p w).pos < (N.walk q p w).pos := by
  induction w generalizing q p with
  | nil => cases hstuck
  | cons b w ih =>
      rw [walk] at hstuck ha hnext
      rw [walk, walk, h.halts]
      rcases hM : M.next q b with _ | ⟨acts, q'⟩
      · -- stuck at the first letter, which the other machine takes
        rw [hM] at ha hnext
        simp only [Nat.sub_self, List.getElem?_cons_zero, Option.some.injEq] at ha
        subst ha
        obtain ⟨⟨acts', q''⟩, hN⟩ := Option.isSome_iff_exists.mp hnext
        refine ⟨⟨_, rfl⟩, ?_⟩
        rw [hN]
        simp only
        split_ifs with hhalt
        · exact Nat.lt_succ_self p
        · exact (walk_pos_le q'' (p + 1) w).1
      · rw [hM] at hstuck ha hnext
        rw [h.next q b _ hM]
        simp only at hstuck ha hnext ⊢
        split_ifs at hstuck ha hnext ⊢ with hhalt
        rw [Walk.pos_behind] at ha
        have hle := (walk_pos_le (M := M) q' (p + 1) w).1
        rw [show (M.walk q' (p + 1) w).pos - p = (M.walk q' (p + 1) w).pos - (p + 1) + 1 by omega,
          List.getElem?_cons_succ] at ha
        obtain ⟨⟨later, hlater⟩, hpos⟩ := ih hstuck ha hnext
        refine ⟨⟨later, ?_⟩, hpos⟩
        rw [Walk.events_behind, Walk.events_behind, hlater, List.append_assoc]

end Extends

/-! ### Words read -/

/-- Over the word `w` at position `p` the machine runs from `q` to `q'`, and its actions, as
`f` has them, take `x` to `x'`. -/
structure Reads (M : Machine σ α β) (f : Nat → β → X → Option X) (p : Nat) (w : List α)
    (q : σ) (x : X) (q' : σ) (x' : X) : Prop where
  ran : (M.walk q p w).ended = .ran
  state : (M.walk q p w).state = q'
  acts : (M.walk q p w).events.foldlM (fun x e => f e.1 e.2 x) x = some x'

namespace Reads

variable {f : Nat → β → X → Option X} {p : Nat} {w v : List α} {a : α} {q q' q'' : σ}
  {x x' x'' : X} {acts : List β}

theorem nil (p : Nat) (q : σ) (x : X) : Reads M f p [] q x q x := ⟨rfl, rfl, rfl⟩

theorem letter (hnext : M.next q a = some (acts, q')) (hhalt : acts.any M.halts = false)
    (hacts : acts.foldlM (fun x b => f p b x) x = some x') : Reads M f p [a] q x q' x' := by
  have hwalk : M.walk q p [a] = ⟨acts.map (p, ·), q', p + 1, .ran⟩ := by
    rw [walk, hnext]
    simp only [hhalt, Bool.false_eq_true, if_false, walk, Walk.behind, List.append_nil]
  refine ⟨by rw [hwalk], by rw [hwalk], ?_⟩
  rw [hwalk, List.foldlM_map]
  exact hacts

theorem append (hw : Reads M f p w q x q' x') (hv : Reads M f (p + w.length) v q' x' q'' x'') :
    Reads M f p (w ++ v) q x q'' x'' := by
  have hwalk := walk_append (v := v) hw.ran
  rw [hw.state] at hwalk
  refine ⟨by rw [hwalk]; exact hv.ran, by rw [hwalk]; exact hv.state, ?_⟩
  rw [hwalk, Walk.events_behind, List.foldlM_append, hw.acts]
  exact hv.acts

theorem cons (ha : Reads M f p [a] q x q' x') (hw : Reads M f (p + 1) w q' x' q'' x'') :
    Reads M f p (a :: w) q x q'' x'' := ha.append hw

/-- A state that its letters lead back to. -/
theorem silent (h : ∀ a ∈ w, M.next q a = some ([], q)) : Reads M f p w q x q x := by
  induction w generalizing p with
  | nil => exact nil p q x
  | cons a w ih =>
      exact cons (letter (h a (List.mem_cons_self ..)) rfl rfl)
        (ih fun b hb => h b (List.mem_cons_of_mem _ hb))

theorem of_quiet (h : M.quiet q w = some q') : Reads M f p w q x q' x := by
  induction w generalizing q p with
  | nil =>
      cases h
      exact nil p _ x
  | cons a w ih =>
      rw [quiet] at h
      split at h
      · rename_i q₁ hnext
        exact cons (letter hnext rfl rfl) (ih h)
      · cases h

/-- The letter that ends a walk, whatever comes after it. -/
theorem halt (hw : Reads M f p w q x q' x') (hnext : M.next q' a = some (acts, q''))
    (hhalt : acts.any M.halts = true)
    (hacts : acts.foldlM (fun x b => f (p + w.length) b x) x' = some x'') (v : List α) :
    (M.walk q p (w ++ a :: v)).ended = .halted ∧
      (M.walk q p (w ++ a :: v)).pos = p + w.length + 1 ∧
      (M.walk q p (w ++ a :: v)).events.foldlM (fun x e => f e.1 e.2 x) x = some x'' := by
  have hlast : M.walk q' (p + w.length) (a :: v) =
      ⟨acts.map (p + w.length, ·), q'', p + w.length + 1, .halted⟩ := by
    rw [walk, hnext]
    simp only [hhalt, if_true]
  have hwalk := walk_append (v := a :: v) hw.ran
  rw [hw.state, hlast] at hwalk
  rw [hwalk]
  refine ⟨rfl, rfl, ?_⟩
  rw [Walk.events_behind, List.foldlM_append, hw.acts, ← hacts]
  exact List.foldlM_map ..

/-- The state it ends in. -/
theorem halt_state (hw : Reads M f p w q x q' x') (hnext : M.next q' a = some (acts, q''))
    (hhalt : acts.any M.halts = true) (v : List α) :
    (M.walk q p (w ++ a :: v)).state = q'' := by
  rw [walk_append hw.ran, hw.state, walk, hnext]
  simp only [hhalt, if_true, Walk.state_behind]

end Reads

end Machine

/-! ### Disciplines -/

/-- Rights of the states, and what the actions do to them. -/
structure Discipline (σ β ρ : Type) where
  needs : β → ρ → Bool
  drops : β → ρ → Bool
  gives : β → ρ → Bool
  holds : σ → ρ → Bool

namespace Discipline

variable (D : Discipline σ β ρ)

/-- The action has its rights. -/
def Allowed (b : β) (φ : ρ → Bool) : Prop := ∀ r, D.needs b r = true → φ r = true

/-- The rights after an action. -/
def after (b : β) (φ : ρ → Bool) : ρ → Bool := fun r => D.gives b r || (φ r && !D.drops b r)

/-- The actions have their rights, one after the other, and leave those of `q`. -/
def Fits (q : σ) : List β → (ρ → Bool) → Prop
  | [], φ => ∀ r, D.holds q r = true → φ r = true
  | b :: bs, φ => D.Allowed b φ ∧ Fits q bs (D.after b φ)

instance [Fintype ρ] (b : β) (φ : ρ → Bool) : Decidable (D.Allowed b φ) :=
  inferInstanceAs (Decidable (∀ _, _))

instance instDecidableFits [Fintype ρ] (q : σ) :
    (bs : List β) → (φ : ρ → Bool) → Decidable (D.Fits q bs φ)
  | [], _ => inferInstanceAs (Decidable (∀ _, _))
  | b :: bs, φ =>
      have := instDecidableFits q bs (D.after b φ)
      inferInstanceAs (Decidable (_ ∧ _))

/-- Every transition obeys the discipline. -/
def Obeyed (M : Machine σ α β) : Prop :=
  ∀ q a acts q', M.next q a = some (acts, q') → D.Fits q' acts (D.holds q)

variable {D} {M : Machine σ α β}

/-- Two interpreters of actions, over the actions of one letter. -/
theorem sim_acts {f : β → X → Option X} {g : β → Y → Option Y}
    {R : (ρ → Bool) → X → Y → Prop} {q : σ} {acts : List β}
    (hstep : ∀ φ b x y, b ∈ acts → D.Allowed b φ → R φ x y →
      Option.Rel (R (D.after b φ)) (f b x) (g b y))
    (hweaken : ∀ φ ψ x y, (∀ r, ψ r = true → φ r = true) → R φ x y → R ψ x y)
    {φ : ρ → Bool} {x : X} {y : Y} (hfits : D.Fits q acts φ) (hR : R φ x y) :
    Option.Rel (R (D.holds q)) (acts.foldlM (fun x b => f b x) x)
      (acts.foldlM (fun y b => g b y) y) := by
  induction acts generalizing φ x y with
  | nil => exact .some (hweaken _ _ _ _ hfits hR)
  | cons b bs ih =>
      obtain ⟨hallowed, hrest⟩ := hfits
      rw [List.foldlM_cons, List.foldlM_cons]
      have hb := hstep φ b x y (List.mem_cons_self ..) hallowed hR
      rcases hf : f b x with _ | x' <;> rcases hg : g b y with _ | y' <;> rw [hf, hg] at hb
      · exact .none
      · cases hb
      · cases hb
      · cases hb with
        | some hR' =>
          exact ih (fun φ c x y hc => hstep φ c x y (List.mem_cons_of_mem _ hc)) hrest hR'

/-- **Two interpreters agree on a walk** if they agree on each action performed with
its rights. -/
theorem sim (hobeyed : D.Obeyed M) {f : Nat → β → X → Option X} {g : Nat → β → Y → Option Y}
    {R : (ρ → Bool) → Nat → X → Y → Prop} {p₀ : Nat} {w₀ : List α}
    (hstep : ∀ φ p q a acts q' b x y, p₀ ≤ p → w₀[p - p₀]? = some a →
      M.next q a = some (acts, q') → b ∈ acts → D.Allowed b φ → R φ p x y →
      Option.Rel (R (D.after b φ) p) (f p b x) (g p b y))
    (hweaken : ∀ φ ψ p p' x y, (∀ r, ψ r = true → φ r = true) → p ≤ p' → R φ p x y →
      R ψ p' x y)
    {q : σ} {p : Nat} {w : List α} {x : X} {y : Y} (hp : p₀ ≤ p) (hw : w₀.drop (p - p₀) = w)
    (hR : R (D.holds q) p x y) :
    Option.Rel (R (D.holds (M.walk q p w).state) (M.walk q p w).pos)
      ((M.walk q p w).events.foldlM (fun x e => f e.1 e.2 x) x)
      ((M.walk q p w).events.foldlM (fun y e => g e.1 e.2 y) y) := by
  -- on the word that is left, which starts at position `p` of `w₀`
  induction w generalizing q p x y with
  | nil => exact .some hR
  | cons a w ih =>
      rw [Machine.walk]
      rcases hnext : M.next q a with _ | ⟨acts, q'⟩
      · exact .some hR
      · have hletter : w₀[p - p₀]? = some a := by
          rw [← List.head?_drop, hw]
          rfl
        have hacts := sim_acts (R := fun φ => R φ p) (q := q')
          (fun φ b x y hb hallowed hR =>
            hstep φ p q a acts q' b x y hp hletter hnext hb hallowed hR)
          (fun φ ψ x y hle hR => hweaken φ ψ p p x y hle (Nat.le_refl p) hR)
          (hobeyed q a acts q' hnext) hR
        simp only
        split_ifs with hhalt
        · simp only [List.foldlM_map]
          rcases hf : acts.foldlM (fun x b => f p b x) x with _ | x' <;>
            rcases hg : acts.foldlM (fun y b => g p b y) y with _ | y' <;> rw [hf, hg] at hacts
          · exact .none
          · cases hacts
          · cases hacts
          · cases hacts with
            | some hR' => exact .some (hweaken _ _ _ _ _ _ (fun _ h => h) (Nat.le_succ p) hR')
        · simp only [Walk.events_behind, Walk.state_behind, Walk.pos_behind, List.foldlM_append,
            List.foldlM_map]
          rcases hf : acts.foldlM (fun x b => f p b x) x with _ | x' <;>
            rcases hg : acts.foldlM (fun y b => g p b y) y with _ | y' <;> rw [hf, hg] at hacts
          · exact .none
          · cases hacts
          · cases hacts
          · cases hacts with
            | some hR' =>
              refine ih (Nat.le_succ_of_le hp) ?_
                (hweaken _ _ _ _ _ _ (fun _ h => h) (Nat.le_succ p) hR')
              rw [Nat.succ_sub hp, Nat.succ_eq_add_one, ← List.drop_drop, hw]
              rfl

/-- The actions of a walk that drop `r`, when none gives it: at most one. -/
theorem count_le [Fintype ρ] (hobeyed : D.Obeyed M) {r : ρ} {k : β → Bool}
    (hneeds : ∀ b, k b = true → D.needs b r = true ∧ D.drops b r = true)
    (hgives : ∀ b, D.gives b r = false) (q : σ) (p : Nat) (w : List α) :
    ((M.walk q p w).events.countP fun e => k e.2) ≤ (D.holds q r).toNat := by
  -- one letter: each action counted costs the right, which no action gives back
  have hacts : ∀ (acts : List β) (q' : σ) (φ : ρ → Bool), D.Fits q' acts φ →
      acts.countP k + (D.holds q' r).toNat ≤ (φ r).toNat := by
    intro acts
    induction acts with
    | nil =>
        intro q' φ hfits
        rcases hh : D.holds q' r with _ | _
        · exact Nat.zero_le _
        · rw [hfits r hh]
          exact Nat.le_refl _
    | cons b bs ih =>
        intro q' φ hfits
        have hrest := ih q' _ hfits.2
        have hafter : D.after b φ r = (φ r && !D.drops b r) := by
          rw [after, hgives, Bool.false_or]
        rw [hafter] at hrest
        rw [List.countP_cons]
        split_ifs with hk
        · rw [(hneeds b hk).2, Bool.not_true, Bool.and_false] at hrest
          rw [hfits.1 r (hneeds b hk).1]
          simp only [Bool.toNat_true, Bool.toNat_false] at hrest ⊢
          omega
        · have hle : (φ r && !D.drops b r).toNat ≤ (φ r).toNat := by
            rcases φ r with _ | _
            · exact Nat.le_refl _
            · exact Bool.toNat_le _
          omega
  induction w generalizing q p with
  | nil => exact Nat.zero_le _
  | cons a w ih =>
      rw [Machine.walk]
      rcases hnext : M.next q a with _ | ⟨acts, q'⟩
      · exact Nat.zero_le _
      · have hthis := hacts acts q' _ (hobeyed q a acts q' hnext)
        have hhere : (acts.map (p, ·)).countP (fun e => k e.2) = acts.countP k := by
          rw [List.countP_map]
          rfl
        simp only
        split_ifs with hhalt
        · rw [hhere]
          omega
        · have hrest := ih q' (p + 1)
          rw [Walk.events_behind, List.countP_append, hhere]
          omega

end Discipline

end Transducer
