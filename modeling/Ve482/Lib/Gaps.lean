import Mathlib.Order.Lattice

set_option autoImplicit false

namespace Ve482.Gaps

variable {α β : Type} [LinearOrder α]

/-- Intervals below a bound, each below the one before it. -/
def Descends : α → List (α × α) → Prop
  | _, [] => True
  | top, first :: rest => first.2 ≤ top ∧ first.1 ≤ first.2 ∧ Descends first.1 rest

/-- What lies between the intervals, from the bound down. -/
def gaps (bottom : α) : α → List (α × α) → List (α × α)
  | top, [] => [(bottom, top)]
  | top, first :: rest => (first.2, top) :: gaps bottom first.1 rest

/-- No interval meets what is from `low` to `high`. -/
def Clear (low high : α) (intervals : List (α × α)) : Prop :=
  ∀ other ∈ intervals, high ≤ other.1 ∨ other.2 ≤ low

variable {bottom top : α} {intervals : List (α × α)} {gap : α × α}

theorem Descends.ordered (descends : Descends top intervals) {other : α × α}
    (member : other ∈ intervals) : other.1 ≤ other.2 := by
  induction intervals generalizing top with
  | nil => cases member
  | cons first rest ih =>
      obtain ⟨-, ordered, later⟩ := descends
      rcases List.mem_cons.mp member with rfl | inRest
      · exact ordered
      · exact ih later inRest

theorem Descends.below (descends : Descends top intervals) {other : α × α}
    (member : other ∈ intervals) : other.2 ≤ top := by
  induction intervals generalizing top with
  | nil => cases member
  | cons first rest ih =>
      obtain ⟨high, ordered, later⟩ := descends
      rcases List.mem_cons.mp member with rfl | inRest
      · exact high
      · exact le_trans (ih later inRest) (le_trans ordered high)

omit [LinearOrder α] in
/-- A gap has its ends at intervals, at the bottom or at the bound. -/
theorem mem_gaps (member : gap ∈ gaps bottom top intervals) :
    (gap.1 = bottom ∨ ∃ other ∈ intervals, gap.1 = other.2) ∧
      (gap.2 = top ∨ ∃ other ∈ intervals, gap.2 = other.1) := by
  induction intervals generalizing top with
  | nil =>
      rw [gaps, List.mem_singleton] at member
      subst member
      exact ⟨Or.inl rfl, Or.inl rfl⟩
  | cons first rest ih =>
      rw [gaps, List.mem_cons] at member
      rcases member with rfl | later
      · exact ⟨Or.inr ⟨first, List.mem_cons_self, rfl⟩, Or.inl rfl⟩
      · obtain ⟨low, high⟩ := ih later
        refine ⟨low.imp_right fun ⟨other, inRest, same⟩ =>
          ⟨other, List.mem_cons_of_mem first inRest, same⟩, Or.inr ?_⟩
        rcases high with high | ⟨other, inRest, same⟩
        · exact ⟨first, List.mem_cons_self, high⟩
        · exact ⟨other, List.mem_cons_of_mem first inRest, same⟩

theorem gap_below (descends : Descends top intervals) (member : gap ∈ gaps bottom top intervals) :
    gap.2 ≤ top := by
  rcases (mem_gaps member).2 with same | ⟨other, inside, same⟩
  · exact same.le
  · have ordered := descends.ordered inside
    exact same.le.trans (ordered.trans (descends.below inside))

theorem gap_ordered (descends : Descends top intervals) (above : bottom ≤ top)
    (low : ∀ other ∈ intervals, bottom ≤ other.1) (member : gap ∈ gaps bottom top intervals) :
    gap.1 ≤ gap.2 := by
  induction intervals generalizing top with
  | nil =>
      rw [gaps, List.mem_singleton] at member
      subst member
      exact above
  | cons first rest ih =>
      obtain ⟨high, -, later⟩ := descends
      rw [gaps, List.mem_cons] at member
      rcases member with rfl | deeper
      · exact high
      · exact ih later (low first List.mem_cons_self)
          (fun other inRest => low other (List.mem_cons_of_mem first inRest)) deeper

/-- A gap meets no interval. -/
theorem gap_clear (descends : Descends top intervals) (member : gap ∈ gaps bottom top intervals) :
    Clear gap.1 gap.2 intervals := by
  induction intervals generalizing top with
  | nil => exact nofun
  | cons first rest ih =>
      obtain ⟨high, ordered, later⟩ := descends
      intro other inside
      rw [gaps, List.mem_cons] at member
      rcases member with rfl | deeper
      · rcases List.mem_cons.mp inside with rfl | inRest
        · exact Or.inr (le_refl _)
        · exact Or.inr (le_trans (later.below inRest) ordered)
      · rcases List.mem_cons.mp inside with rfl | inRest
        · exact Or.inl (gap_below later deeper)
        · exact ih later deeper other inRest

/-- A search of the gaps from the bound down, for a fit that takes every gap around a place that
is clear, ends at a gap that is not below that place. -/
theorem search_clear {fit : α × α → Option β} {low high : α}
    (above : bottom ≤ low) (below : high ≤ top) (clear : Clear low high intervals)
    (fits : ∀ gap : α × α, gap.1 ≤ low → high ≤ gap.2 → fit gap ≠ none) :
    ∃ gap ∈ gaps bottom top intervals, ∃ value, high ≤ gap.2 ∧ fit gap = some value ∧
      (gaps bottom top intervals).findSome? fit = some value := by
  induction intervals generalizing top with
  | nil =>
      obtain ⟨value, found⟩ := Option.ne_none_iff_exists'.mp (fits (bottom, top) above below)
      refine ⟨(bottom, top), List.mem_singleton_self _, value, below, found, ?_⟩
      rw [gaps, List.findSome?_cons, found]
  | cons first rest ih =>
      rw [gaps, List.findSome?_cons]
      cases found : fit (first.2, top) with
      | some value => exact ⟨(first.2, top), List.mem_cons_self, value, below, found, rfl⟩
      | none =>
          have under : high ≤ first.1 := by
            apply (clear first List.mem_cons_self).resolve_right
            intro past
            exact fits (first.2, top) past below found
          obtain ⟨gap, member, value, ends, fit', search⟩ :=
            ih under fun other inRest => clear other (List.mem_cons_of_mem first inRest)
          exact ⟨gap, List.mem_cons_of_mem _ member, value, ends, fit', search⟩

/-- An interval at the bottom has an empty gap under it. -/
theorem bottom_gap (descends : Descends top intervals)
    (above : ∀ other ∈ intervals, bottom ≤ other.1) {other : α × α} (member : other ∈ intervals)
    (lowest : other.1 = bottom) : (bottom, bottom) ∈ gaps bottom top intervals := by
  induction intervals generalizing top with
  | nil => cases member
  | cons first rest ih =>
      obtain ⟨-, ordered, later⟩ := descends
      rw [gaps]
      rcases List.mem_cons.mp member with rfl | inRest
      · apply List.mem_cons_of_mem
        cases rest with
        | nil =>
            rw [gaps, lowest]
            exact List.mem_singleton_self _
        | cons next rest =>
            obtain ⟨high, ordered', -⟩ := later
            have low := above next (by simp)
            have same : next.2 = bottom := le_antisymm (lowest ▸ high) (le_trans low ordered')
            rw [gaps, same, lowest]
            exact List.mem_cons_self
      · exact List.mem_cons_of_mem _ (ih later
          (fun other inside => above other (List.mem_cons_of_mem first inside)) inRest)

end Ve482.Gaps
