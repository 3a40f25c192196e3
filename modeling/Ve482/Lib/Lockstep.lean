set_option autoImplicit false

namespace Ve482

open EStateM (Result)

variable {ε σ τ α β γ δ : Type}

/-- Two runs that ended in the same way: both returned, as `post` has it, or both failed with
one error. -/
inductive SameEnd (post : α → β → σ → τ → Prop) : Result ε σ α → Result ε τ β → Prop where
  | returned {a : α} {b : β} {s : σ} {t : τ} (holds : post a b s t) :
      SameEnd post (.ok a s) (.ok b t)
  | failed {e : ε} {s : σ} {t : τ} : SameEnd post (.error e s) (.error e t)

/-- Two programs in lock step, from states that `pre` relates. -/
def Lockstep (pre : σ → τ → Prop) (left : EStateM ε σ α) (right : EStateM ε τ β)
    (post : α → β → σ → τ → Prop) : Prop :=
  ∀ s t, pre s t → SameEnd post (left.run s) (right.run t)

/-- One value on both sides, and a relation of the states. -/
def SameValue (related : σ → τ → Prop) (a b : α) (s : σ) (t : τ) : Prop := a = b ∧ related s t

namespace Lockstep

variable {pre mid : σ → τ → Prop} {left : EStateM ε σ α} {right : EStateM ε τ β}
  {post : α → β → σ → τ → Prop}

theorem pre_imp (step : Lockstep mid left right post) (imp : ∀ s t, pre s t → mid s t) :
    Lockstep pre left right post :=
  fun s t related => step s t (imp s t related)

theorem post_imp {weaker : α → β → σ → τ → Prop} (step : Lockstep pre left right post)
    (imp : ∀ a b s t, post a b s t → weaker a b s t) : Lockstep pre left right weaker := by
  intro s t related
  have ends := step s t related
  generalize left.run s = first, right.run t = second at ends
  cases ends with
  | returned holds => exact .returned (imp _ _ _ _ holds)
  | failed => exact .failed

theorem exists_pre {ι : Type} {family : ι → σ → τ → Prop}
    (step : ∀ i, Lockstep (family i) left right post) :
    Lockstep (fun s t => ∃ i, family i s t) left right post :=
  fun s t related => related.elim fun i holds => step i s t holds

theorem returns {a : α} {b : β} (holds : ∀ s t, pre s t → post a b s t) :
    Lockstep (ε := ε) pre (pure a) (pure b) post :=
  fun s t related => .returned (holds s t related)

theorem bind {between : α → β → σ → τ → Prop} {next : α → EStateM ε σ γ}
    {next' : β → EStateM ε τ δ} {last : γ → δ → σ → τ → Prop}
    (first : Lockstep pre left right between)
    (rest : ∀ a b, Lockstep (between a b) (next a) (next' b) last) :
    Lockstep pre (left >>= next) (right >>= next') last := by
  intro s t related
  have ends := first s t related
  rw [EStateM.run_bind, EStateM.run_bind]
  generalize left.run s = one, right.run t = other at ends
  cases ends with
  | returned holds => exact rest _ _ _ _ holds
  | failed => exact .failed

/-- The two first parts return one value. -/
theorem bind_same {same : EStateM ε τ α} {next : α → EStateM ε σ γ} {next' : α → EStateM ε τ δ}
    {last : γ → δ → σ → τ → Prop} (first : Lockstep pre left same (SameValue mid))
    (rest : ∀ a, Lockstep mid (next a) (next' a) last) :
    Lockstep pre (left >>= next) (same >>= next') last := by
  refine first.bind fun a b s t holds => ?_
  obtain ⟨rfl, related⟩ := holds
  exact rest a s t related

/-- Both read their states. -/
theorem reads {next : σ → EStateM ε σ γ} {next' : τ → EStateM ε τ δ} {last : γ → δ → σ → τ → Prop}
    (rest : ∀ s t, pre s t → Lockstep (fun s' t' => s' = s ∧ t' = t) (next s) (next' t) last) :
    Lockstep pre (get >>= next) (get >>= next') last :=
  fun s t related => rest s t related s t ⟨rfl, rfl⟩

/-- Both change their states. -/
theorem writes {f : σ → σ} {g : τ → τ} {last : PUnit → PUnit → σ → τ → Prop}
    (holds : ∀ s t, pre s t → last ⟨⟩ ⟨⟩ (f s) (g t)) :
    Lockstep (ε := ε) pre (modify f) (modify g) last :=
  fun s t related => .returned (holds s t related)

/-- The right one changes its state alone. -/
theorem writes_right (after : σ → τ → Prop) {g : τ → τ} {next : PUnit → EStateM ε τ δ}
    {last : α → δ → σ → τ → Prop} (holds : ∀ s t, pre s t → after s (g t))
    (rest : Lockstep after left (next ⟨⟩) last) : Lockstep pre left (modify g >>= next) last :=
  fun s t related => rest s (g t) (holds s t related)

end Lockstep

end Ve482
