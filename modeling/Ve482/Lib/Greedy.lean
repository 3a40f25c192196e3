import Mathlib.Data.Finset.Basic
import Mathlib.Data.List.FinRange
import Mathlib.Data.Finset.Card
import Mathlib.Data.Fintype.Card

set_option autoImplicit false

/- Tasks that become ready as other tasks finish, and stay ready. -/
namespace Ve482.Greedy

variable {ι : Type} [DecidableEq ι]

/-- Every task of the list is new and ready when its turn comes, from the set `finished` on. -/
def Runs (ready : Finset ι → ι → Prop) : Finset ι → List ι → Prop
  | _, [] => True
  | finished, i :: rest => i ∉ finished ∧ ready finished i ∧ Runs ready (insert i finished) rest

/-- What is ready stays ready when more has finished. -/
def Monotone (ready : Finset ι → ι → Prop) : Prop :=
  ∀ ⦃few many : Finset ι⦄ ⦃i : ι⦄, few ⊆ many → ready few i → ready many i

theorem runs_append {ready : Finset ι → ι → Prop} {finished : Finset ι} {first later : List ι} :
    Runs ready finished (first ++ later) ↔
      Runs ready finished first ∧ Runs ready (finished ∪ first.toFinset) later := by
  induction first generalizing finished with
  | nil => simp [Runs]
  | cons i rest ih =>
      have regroup : insert i finished ∪ rest.toFinset = finished ∪ (i :: rest).toFinset := by
        ext j
        simp only [Finset.mem_union, Finset.mem_insert, List.mem_toFinset, List.mem_cons]
        tauto
      simp only [List.cons_append, Runs, ih, regroup, and_assoc]

theorem Runs.fresh {ready : Finset ι → ι → Prop} {finished : Finset ι} {order : List ι}
    (runs : Runs ready finished order) : ∀ i ∈ order, i ∉ finished := by
  induction order generalizing finished with
  | nil => simp
  | cons i rest ih =>
      intro j member
      obtain ⟨new, _, later⟩ := runs
      cases List.mem_cons.1 member with
      | inl same => rw [same]; exact new
      | inr inside =>
          have outside := ih later j inside
          simp only [Finset.mem_insert, not_or] at outside
          exact outside.2

theorem Runs.nodup {ready : Finset ι → ι → Prop} {finished : Finset ι} {order : List ι}
    (runs : Runs ready finished order) : order.Nodup := by
  induction order generalizing finished with
  | nil => exact List.nodup_nil
  | cons i rest ih =>
      obtain ⟨_, _, later⟩ := runs
      apply List.nodup_cons.2
      refine ⟨?_, ih later⟩
      intro inside
      exact later.fresh i inside (Finset.mem_insert_self i finished)

/-- The exchange argument: whatever has been finished so far, an order that starts with less and
contains an unfinished task has an unfinished task that is ready, its first one. -/
theorem Runs.exists_ready {ready : Finset ι → ι → Prop} (monotone : Monotone ready)
    {few many : Finset ι} {order : List ι} (runs : Runs ready few order) (less : few ⊆ many)
    {i : ι} (wanted : i ∈ order) (unfinished : i ∉ many) :
    ∃ next ∈ order, next ∉ many ∧ ready many next := by
  induction order generalizing few with
  | nil => simp at wanted
  | cons first rest ih =>
      obtain ⟨_, isReady, later⟩ := runs
      by_cases finished : first ∈ many
      · have inRest : i ∈ rest := by
          cases List.mem_cons.1 wanted with
          | inl same => rw [same] at unfinished; exact absurd finished unfinished
          | inr inside => exact inside
        obtain ⟨next, member, new, nextReady⟩ :=
          ih later (Finset.insert_subset finished less) inRest
        exact ⟨next, List.mem_cons_of_mem first member, new, nextReady⟩
      · exact ⟨first, List.mem_cons_self, finished, monotone less isReady⟩

/-- A run stuck before all tasks are finished: no order finishes them all. -/
theorem stuck_of_none_ready [Fintype ι] {ready : Finset ι → ι → Prop} (monotone : Monotone ready)
    (finished : Finset ι) {i : ι} (unfinished : i ∉ finished)
    (stuck : ∀ next, next ∉ finished → ¬ ready finished next) :
    ¬ ∃ order : List ι, (∀ task, task ∈ order) ∧ Runs ready ∅ order := by
  rintro ⟨order, complete, runs⟩
  obtain ⟨next, _, new, isReady⟩ :=
    runs.exists_ready monotone (Finset.empty_subset finished) (complete i) unfinished
  exact stuck next new isReady

end Ve482.Greedy
