import Mathlib.Data.Set.Basic

set_option autoImplicit false

/- Things that are each held in one place, and go from one place to another. -/
namespace Ve482.Ownership

variable {ι κ α : Type} {everything : Set α} {holding : ι → Set α}

/-- Everything is held in exactly one place. -/
def Partition (everything : Set α) (holding : ι → Set α) : Prop :=
  ∀ thing ∈ everything, ∃ place, thing ∈ holding place ∧
    ∀ other, thing ∈ holding other → other = place

section

variable [DecidableEq ι] {source target : ι} {moved : Set α}

/-- Some things have gone from one place to another. -/
def transfer (holding : ι → Set α) (source target : ι) (moved : Set α) (place : ι) : Set α :=
  if place = source then holding source \ moved
  else if place = target then holding target ∪ moved
  else holding place

@[simp] theorem transfer_source : transfer holding source target moved source =
    holding source \ moved :=
  if_pos rfl

theorem transfer_target (different : source ≠ target) :
    transfer holding source target moved target = holding target ∪ moved := by
  rw [transfer, if_neg (Ne.symm different), if_pos rfl]

theorem transfer_other {place : ι} (notSource : place ≠ source) (notTarget : place ≠ target) :
    transfer holding source target moved place = holding place := by
  rw [transfer, if_neg notSource, if_neg notTarget]

/-- What was in its one place and goes to another one is in one place. -/
theorem Partition.transfer (partition : Partition everything holding) (source target : ι)
    (moved : Set α) (different : source ≠ target) (held : moved ⊆ holding source) :
    Partition everything (Ownership.transfer holding source target moved) := by
  intro thing member
  obtain ⟨place, there, unique⟩ := partition thing member
  by_cases goes : thing ∈ moved
  · obtain rfl : source = place := unique source (held goes)
    refine ⟨target, ?_, fun other inOther => ?_⟩
    · rw [transfer_target different]
      exact Or.inr goes
    · by_contra notTarget
      by_cases isSource : other = source
      · subst isSource
        rw [transfer_source] at inOther
        exact inOther.2 goes
      · rw [transfer_other isSource notTarget] at inOther
        exact isSource (unique other inOther)
  · have same : ∀ other, thing ∈ Ownership.transfer holding source target moved other ↔
        thing ∈ holding other := by
      intro other
      by_cases isSource : other = source
      · subst isSource
        rw [transfer_source, Set.mem_sdiff]
        exact and_iff_left goes
      · by_cases isTarget : other = target
        · subst isTarget
          rw [transfer_target different, Set.mem_union]
          exact or_iff_left goes
        · rw [transfer_other isSource isTarget]
    exact ⟨place, (same place).mpr there, fun other inOther => unique other ((same other).mp inOther)⟩

end

/-- Places that hold nothing may be left out. -/
theorem partition_iff (embed : ι → κ) (injective : Function.Injective embed) {all : κ → Set α}
    (same : ∀ place, all (embed place) = holding place)
    (empty : ∀ place, (∀ other, embed other ≠ place) → all place = ∅) :
    Partition everything all ↔ Partition everything holding := by
  refine forall_congr' fun thing => imp_congr_right fun _ => ⟨?_, ?_⟩
  · rintro ⟨place, there, unique⟩
    by_cases embedded : ∃ other, embed other = place
    · obtain ⟨other, rfl⟩ := embedded
      refine ⟨other, same other ▸ there, fun another inOther => injective (unique _ ?_)⟩
      rwa [same]
    · rw [empty place (not_exists.mp embedded)] at there
      exact there.elim
  · rintro ⟨place, there, unique⟩
    refine ⟨embed place, (same place).symm ▸ there, fun other inOther => ?_⟩
    by_cases embedded : ∃ another, embed another = other
    · obtain ⟨another, rfl⟩ := embedded
      exact congrArg embed (unique another (same another ▸ inOther))
    · rw [empty other (not_exists.mp embedded)] at inOther
      exact inOther.elim

end Ve482.Ownership
