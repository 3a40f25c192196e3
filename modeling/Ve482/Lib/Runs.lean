set_option autoImplicit false

namespace Ve482.Runs

variable {σ κ : Type}

/-- A property of every step of a sequence, in the state in which it is taken. -/
def EveryStep (next : σ → κ → σ) (property : σ → κ → Prop) : σ → List κ → Prop
  | _, [] => True
  | state, label :: labels =>
      property state label ∧ EveryStep next property (next state label) labels

instance EveryStep.decidable (next : σ → κ → σ) (property : σ → κ → Prop)
    [∀ state label, Decidable (property state label)] :
    (state : σ) → (labels : List κ) → Decidable (EveryStep next property state labels)
  | _, [] => .isTrue trivial
  | state, label :: labels =>
      have := EveryStep.decidable next property (next state label) labels
      inferInstanceAs (Decidable (property state label ∧ EveryStep next property _ labels))

def run (next : σ → κ → σ) (state : σ) (labels : List κ) : σ := labels.foldl next state

@[simp] theorem run_nil (next : σ → κ → σ) (state : σ) : run next state [] = state := rfl

@[simp] theorem run_cons (next : σ → κ → σ) (state : σ) (label : κ) (labels : List κ) :
    run next state (label :: labels) = run next (next state label) labels := rfl

theorem everyStep_append {next : σ → κ → σ} {property : σ → κ → Prop} {state : σ}
    {first second : List κ} :
    EveryStep next property state (first ++ second) ↔
      EveryStep next property state first ∧
        EveryStep next property (run next state first) second := by
  induction first generalizing state with
  | nil => exact ⟨fun rest => ⟨trivial, rest⟩, fun both => both.2⟩
  | cons label labels ih =>
      rw [List.cons_append, EveryStep, EveryStep, ih, and_assoc, run_cons]

theorem everyStep_and {next : σ → κ → σ} {left right : σ → κ → Prop} {state : σ}
    {labels : List κ} :
    EveryStep next (fun state label => left state label ∧ right state label) state labels ↔
      EveryStep next left state labels ∧ EveryStep next right state labels := by
  induction labels generalizing state with
  | nil => exact (and_iff_left trivial).symm
  | cons label labels ih => rw [EveryStep, EveryStep, EveryStep, ih, and_and_and_comm]

/-- A step lemma gives a run lemma: what every permitted step preserves, every run of
permitted steps preserves. -/
theorem run_invariant {next : σ → κ → σ} {permits : σ → κ → Prop} (invariant : σ → Prop)
    (preserved : ∀ state label, invariant state → permits state label →
      invariant (next state label))
    {state : σ} {labels : List κ} (initial : invariant state)
    (permitted : EveryStep next permits state labels) : invariant (run next state labels) := by
  induction labels generalizing state with
  | nil => exact initial
  | cons label labels ih =>
      exact ih (preserved state label initial permitted.1) permitted.2

/-- What an invariant gives of every step, a run gives of all its steps. -/
theorem everyStep_imp {next : σ → κ → σ} {permits property : σ → κ → Prop}
    (invariant : σ → Prop)
    (gives : ∀ state label, invariant state → permits state label → property state label)
    (preserved : ∀ state label, invariant state → permits state label →
      invariant (next state label))
    {state : σ} {labels : List κ} (initial : invariant state)
    (permitted : EveryStep next permits state labels) :
    EveryStep next property state labels := by
  induction labels generalizing state with
  | nil => trivial
  | cons label labels ih =>
      have now := gives state label initial permitted.1
      exact ⟨now, ih (preserved state label initial permitted.1) permitted.2⟩

/-- Two step properties that agree under an invariant agree on runs, if the first of them
keeps the invariant. -/
theorem everyStep_congr {next : σ → κ → σ} {left right : σ → κ → Prop} (invariant : σ → Prop)
    (agree : ∀ state label, invariant state → (left state label ↔ right state label))
    (preserved : ∀ state label, invariant state → left state label →
      invariant (next state label))
    {state : σ} {labels : List κ} (initial : invariant state) :
    EveryStep next left state labels ↔ EveryStep next right state labels := by
  constructor
  · apply everyStep_imp invariant _ preserved initial
    intro state label holds
    exact (agree state label holds).mp
  · apply everyStep_imp invariant _ _ initial
    · intro state label holds
      exact (agree state label holds).mpr
    · intro state label holds step
      exact preserved state label holds ((agree state label holds).mpr step)

end Ve482.Runs
