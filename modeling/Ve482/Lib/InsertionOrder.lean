import Ve482.Lib.InsertionSort
import Mathlib.Data.List.MinMax

set_option autoImplicit false

/- When an insertion sort sorts by a comparison that need not decide an order. -/
namespace Ve482.InsertionSort

variable {α γ V : Type} [LinearOrder V] {sign : V → V → Int}

/-- Among these values `x` is put after the last that is not above it: those above move up, and
the nearest of those below stays. -/
structure FindsPlace (sign : V → V → Int) (before : List V) (x : V) : Prop where
  above : ∀ y ∈ before, x < y → 0 ≤ sign y x
  below : ∀ y ∈ before, y < x → (∀ z ∈ before, z < x → z ≤ y) → sign y x < 0

theorem FindsPlace.congr {before before' : List V} {x : V}
    (same : ∀ y, y ∈ before ↔ y ∈ before') :
    FindsPlace sign before x ↔ FindsPlace sign before' x := by
  constructor
  · rintro ⟨above, below⟩
    refine ⟨fun y member => above y ((same y).mpr member), fun y member less nearest => ?_⟩
    exact below y ((same y).mpr member) less fun z inside => nearest z ((same z).mp inside)
  · rintro ⟨above, below⟩
    refine ⟨fun y member => above y ((same y).mp member), fun y member less nearest => ?_⟩
    exact below y ((same y).mp member) less fun z inside => nearest z ((same z).mpr inside)

/-- Some value is the nearest of those below. -/
theorem exists_nearest (before : List V) {x y : V} (member : y ∈ before) (less : y < x) :
    ∃ z ∈ before, z < x ∧ y ≤ z ∧ ∀ w ∈ before, w < x → w ≤ z := by
  have below : y ∈ before.filter (· < x) := List.mem_filter.mpr ⟨member, decide_eq_true less⟩
  have filled := List.length_pos_of_mem below
  obtain ⟨inside, under⟩ := List.mem_filter.mp (List.maximum_of_length_pos_mem filled)
  refine ⟨_, inside, of_decide_eq_true under, List.le_maximum_of_length_pos_of_mem below filled,
    fun w member less => ?_⟩
  exact List.le_maximum_of_length_pos_of_mem
    (List.mem_filter.mpr ⟨member, decide_eq_true less⟩) filled

/-- The order of what is sorted already is kept, right or wrong. -/
theorem insert_sublist (cmp : Comparison α γ) (flag : α) (before : List α) (rng : γ) :
    before.Sublist (insert cmp flag before rng).1 := by
  induction before generalizing rng with
  | nil => exact List.nil_sublist _
  | cons last before ih =>
      rw [insert]
      by_cases up : 0 ≤ (cmp last flag rng).1
      · simp only [up, if_true]
        exact (ih _).cons_cons last
      · simp only [up, if_false]
        exact List.sublist_cons_self flag _

theorem insertAll_sublist (cmp : Comparison α γ) (before rest : List α) (rng : γ) :
    before.Sublist (insertAll cmp before rest rng).1 := by
  induction rest generalizing before rng with
  | nil => exact List.Sublist.refl before
  | cons flag rest ih => exact (insert_sublist cmp flag before rng).trans (ih _ _)

section

variable {cmp : Comparison V γ} (stateless : ∀ x y rng, cmp x y rng = (sign x y, rng))
  (ties : ∀ x, 0 ≤ sign x x)
include stateless ties

theorem insert_sorted_iff (flag : V) {before : List V}
    (sorted : before.Pairwise fun a b => b ≤ a) (rng : γ) :
    ((insert cmp flag before rng).1.Pairwise fun a b => b ≤ a) ↔ FindsPlace sign before flag := by
  induction before generalizing rng with
  | nil => exact iff_of_true (List.pairwise_singleton _ _) ⟨nofun, nofun⟩
  | cons last before ih =>
      obtain ⟨first, others⟩ := List.pairwise_cons.mp sorted
      have top : ∀ y ∈ last :: before, y ≤ last := fun y member =>
        (List.mem_cons.mp member).elim le_of_eq (first y)
      rw [insert, stateless]
      by_cases up : 0 ≤ sign last flag
      · simp only [up, if_true]
        rw [List.pairwise_cons, ih others rng]
        constructor
        · rintro ⟨under, finds⟩
          have order : flag ≤ last :=
            under flag ((insert_perm cmp flag before rng).mem_iff.mpr List.mem_cons_self)
          refine ⟨fun y member less => ?_, fun y member less nearest => ?_⟩
          · rcases List.mem_cons.mp member with rfl | member
            · exact up
            · exact finds.above y member less
          · rcases List.mem_cons.mp member with rfl | member
            · exact absurd less (not_lt.mpr order)
            · exact finds.below y member less fun z inside =>
                nearest z (List.mem_cons_of_mem _ inside)
        · intro finds
          -- otherwise the last value would be the nearest below, and would stay
          have order : flag ≤ last := by
            by_contra less
            have stays := finds.below last List.mem_cons_self (not_le.mp less)
              fun z inside _ => top z inside
            omega
          refine ⟨fun a member => ?_, fun y member => finds.above y (List.mem_cons_of_mem _ member),
            fun y member less nearest => ?_⟩
          · rcases List.mem_cons.mp ((insert_perm cmp flag before rng).mem_iff.mp member)
              with rfl | member
            · exact order
            · exact first a member
          · refine finds.below y (List.mem_cons_of_mem _ member) less fun z inside below => ?_
            rcases List.mem_cons.mp inside with rfl | inside
            · exact absurd below (not_lt.mpr order)
            · exact nearest z inside below
      · simp only [up, if_false]
        have different : last ≠ flag := by
          rintro rfl
          exact up (ties _)
        rw [List.pairwise_cons]
        constructor
        · rintro ⟨under, -⟩
          have less : last < flag := lt_of_le_of_ne (under last List.mem_cons_self) different
          refine ⟨fun y member greater => ?_, fun y member _ nearest => ?_⟩
          · exact absurd ((top y member).trans_lt less) (not_lt.mpr greater.le)
          · rw [le_antisymm (top y member) (nearest _ List.mem_cons_self less)]
            omega
        · intro finds
          have order : last ≤ flag := by
            by_contra greater
            exact up (finds.above last List.mem_cons_self (not_le.mp greater))
          exact ⟨fun a member => (top a member).trans order, sorted⟩

theorem insertAll_sorted_iff {before : List V} (rest : List V)
    (sorted : before.Pairwise fun a b => b ≤ a) (rng : γ) :
    ((insertAll cmp before rest rng).1.Pairwise fun a b => b ≤ a) ↔
      ∀ left flag right, rest = left ++ flag :: right → FindsPlace sign (left ++ before) flag := by
  induction rest generalizing before rng with
  | nil => exact iff_of_true sorted fun left flag right same => by simp at same
  | cons flag rest ih =>
      have placed := insert_sorted_iff stateless ties flag sorted rng
      have members (left : List V) : ∀ y,
          y ∈ left ++ (insert cmp flag before rng).1 ↔ y ∈ flag :: left ++ before := fun y =>
        (((insert_perm cmp flag before rng).append_left left).trans List.perm_middle).mem_iff
      constructor
      · intro all
        have next := List.Pairwise.sublist (insertAll_sublist cmp _ rest _) all
        intro left other right same
        cases left with
        | nil =>
            obtain ⟨rfl, rfl⟩ := List.cons.inj same
            exact placed.mp next
        | cons first left =>
            obtain ⟨rfl, rfl⟩ := List.cons.inj same
            exact (FindsPlace.congr (members left)).mp ((ih next _).mp all left other right rfl)
      · intro finds
        have next := placed.mpr (finds [] flag rest rfl)
        refine (ih next _).mpr fun left other right same => ?_
        refine (FindsPlace.congr (members left)).mpr ?_
        exact finds (flag :: left) other right (by rw [same, List.cons_append])

/-- The result is sorted exactly when each value finds its place among those before it. -/
theorem sort_sorted_iff (list : List V) (rng : γ) :
    (sort cmp list rng).1.Pairwise (· ≤ ·) ↔
      ∀ left x right, list = left ++ x :: right → FindsPlace sign left x := by
  cases list with
  | nil => exact iff_of_true .nil fun left x right same => by simp at same
  | cons first rest =>
      rw [sort_eq, List.pairwise_reverse,
        insertAll_sorted_iff stateless ties rest (List.pairwise_singleton _ first) rng]
      have members (left : List V) : ∀ y, y ∈ left ++ [first] ↔ y ∈ first :: left := fun y =>
        (List.perm_append_singleton first left).mem_iff
      constructor
      · intro finds left x right same
        cases left with
        | nil => exact ⟨nofun, nofun⟩
        | cons head left =>
            obtain ⟨rfl, rfl⟩ := List.cons.inj same
            exact (FindsPlace.congr (members left)).mp (finds left x right rfl)
      · intro finds left x right same
        refine (FindsPlace.congr (members left)).mpr ?_
        exact finds (first :: left) x right (by rw [same, List.cons_append])

end

end Ve482.InsertionSort
