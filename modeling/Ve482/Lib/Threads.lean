import Mathlib.Algebra.BigOperators.Fin
import Mathlib.Algebra.Order.BigOperators.Group.Finset
import Mathlib.Tactic.Ring

set_option autoImplicit false

/- Threads that take turns, each in a phase of its own. -/
namespace Ve482.Threads

open Function (update)

section Totals

variable {ι φ : Type} [Fintype ι] {weight : φ → Nat} {phases : ι → φ}

/-- What all threads together weigh. -/
def total (weight : φ → Nat) (phases : ι → φ) : Nat := ∑ id, weight (phases id)

theorem exists_of_total_pos (positive : 0 < total weight phases) :
    ∃ id, 0 < weight (phases id) := by
  obtain ⟨id, -, weighs⟩ := Finset.exists_ne_zero_of_sum_ne_zero (Nat.pos_iff_ne_zero.mp positive)
  exact ⟨id, Nat.pos_of_ne_zero weighs⟩

theorem total_of_all {each : Nat} (all : ∀ id, weight (phases id) = each) :
    total weight phases = Fintype.card ι * each := by
  unfold total
  rw [Finset.sum_congr rfl fun id _ => all id, Finset.sum_const, Finset.card_univ, smul_eq_mul]

/-- Every permit of a semaphore is free, or held by a thread that is in a phase with it. -/
def SharedOut (permits : Nat) (holds : φ → Nat) (free : Nat) (phases : ι → φ) : Prop :=
  free + total holds phases = permits

/-- Where no permit is free, some thread holds one. -/
theorem SharedOut.held {permits : Nat} {holds : φ → Nat} (shared : SharedOut permits holds 0 phases)
    (positive : 0 < permits) : ∃ id, 0 < holds (phases id) := by
  unfold SharedOut at shared
  exact exists_of_total_pos (by omega)

variable [DecidableEq ι]

/-- Where one thread goes on, the total changes by what that thread does. -/
theorem total_update (weight : φ → Nat) (phases : ι → φ) (id : ι) (phase : φ) :
    total weight (update phases id phase) + weight (phases id) =
      total weight phases + weight phase := by
  have before := Finset.add_sum_erase Finset.univ (fun other => weight (phases other))
    (Finset.mem_univ id)
  have after := Finset.add_sum_erase Finset.univ
    (fun other => weight (update phases id phase other)) (Finset.mem_univ id)
  have rest : ∑ other ∈ Finset.univ.erase id, weight (update phases id phase other) =
      ∑ other ∈ Finset.univ.erase id, weight (phases other) := by
    refine Finset.sum_congr rfl fun other member => ?_
    rw [Function.update_of_ne (Finset.ne_of_mem_erase member)]
  rw [rest, Function.update_self] at after
  unfold total
  omega

theorem add_le_total (weight : φ → Nat) {id other : ι} (apart : other ≠ id) :
    weight (phases id) + weight (phases other) ≤ total weight phases := by
  have split := Finset.add_sum_erase Finset.univ (fun id => weight (phases id))
    (Finset.mem_univ id)
  have rest : weight (phases other) ≤ ∑ other ∈ Finset.univ.erase id, weight (phases other) :=
    Finset.single_le_sum (f := fun id => weight (phases id)) (fun _ _ => Nat.zero_le _)
      (Finset.mem_erase.mpr ⟨apart, Finset.mem_univ other⟩)
  unfold total
  omega

/-- A thread takes a free permit. -/
theorem SharedOut.wait {permits free : Nat} {holds : φ → Nat}
    (shared : SharedOut permits holds (free + 1) phases) {id : ι} {phase : φ}
    (takes : holds phase = holds (phases id) + 1) :
    SharedOut permits holds free (update phases id phase) := by
  have changed := total_update holds phases id phase
  unfold SharedOut at shared ⊢
  omega

/-- A thread gives a permit back. -/
theorem SharedOut.post {permits free : Nat} {holds : φ → Nat}
    (shared : SharedOut permits holds free phases) {id : ι} {phase : φ}
    (gives : holds (phases id) = holds phase + 1) :
    SharedOut permits holds (free + 1) (update phases id phase) := by
  have changed := total_update holds phases id phase
  unfold SharedOut at shared ⊢
  omega

/-- A thread goes on with the permits that it has. -/
theorem SharedOut.keep {permits free : Nat} {holds : φ → Nat}
    (shared : SharedOut permits holds free phases) {id : ι} {phase : φ}
    (same : holds (phases id) = holds phase) :
    SharedOut permits holds free (update phases id phase) := by
  have changed := total_update holds phases id phase
  unfold SharedOut at shared ⊢
  omega

/-- A single permit is held by one thread at most. -/
theorem SharedOut.alone {free : Nat} {holds : φ → Nat} (shared : SharedOut 1 holds free phases)
    {id other : ι} (inside : 0 < holds (phases id)) (also : 0 < holds (phases other)) :
    other = id := by
  by_contra apart
  have both : _ ≤ total holds phases := add_le_total holds apart
  unfold SharedOut at shared
  omega

end Totals

section Turns

variable {σ κ : Type} {step : σ → κ → Option σ}

/-- The state after some turns, each of which must be possible. -/
def run (step : σ → κ → Option σ) (state : σ) (turns : List κ) : Option σ :=
  turns.foldlM step state

/-- What every turn keeps, every run keeps. -/
theorem run_invariant {invariant : σ → Prop}
    (kept : ∀ state turn state', invariant state → step state turn = some state' →
      invariant state') {turns : List κ} {state state' : σ} (initial : invariant state)
    (ran : run step state turns = some state') : invariant state' := by
  induction turns generalizing state with
  | nil => exact Option.some.inj ran ▸ initial
  | cons turn turns ih =>
      obtain ⟨next, taken, rest⟩ := Option.bind_eq_some_iff.mp ran
      exact ih (kept state turn next initial taken) rest

/-- Where every turn uses up a part of what is left, a run is no longer than what there was. -/
theorem run_length_le {invariant : σ → Prop} {left : σ → Nat}
    (kept : ∀ state turn state', invariant state → step state turn = some state' →
      invariant state')
    (uses : ∀ state turn state', invariant state → step state turn = some state' →
      left state' < left state) {turns : List κ} {state state' : σ} (initial : invariant state)
    (ran : run step state turns = some state') : turns.length ≤ left state := by
  induction turns generalizing state with
  | nil => exact Nat.zero_le _
  | cons turn turns ih =>
      obtain ⟨next, taken, rest⟩ := Option.bind_eq_some_iff.mp ran
      have shorter := ih (kept state turn next initial taken) rest
      have used := uses state turn next initial taken
      rw [List.length_cons]
      omega

end Turns

end Ve482.Threads
