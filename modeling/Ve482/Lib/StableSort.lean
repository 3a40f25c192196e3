import Ve482.Lib.InsertionSort

set_option autoImplicit false

/- An insertion sort that moves its flag below its equals turns their order around. -/
namespace Ve482.InsertionSort

variable {α γ : Type} {le : α → α → Bool}

/-- Neither is below the other. -/
def tied (le : α → α → Bool) (a b : α) : Bool := le a b && le b a

/-- A sorted list is determined by the order of the elements that are tied. -/
theorem eq_of_ties (total : ∀ a b, le a b || le b a) {left right : List α}
    (sorted : left.Pairwise fun a b => le a b) (sorted' : right.Pairwise fun a b => le a b)
    (same : ∀ a, left.filter (tied le a) = right.filter (tied le a)) : left = right := by
  have self : ∀ a, tied le a a = true := fun a => by simpa [tied] using total a a
  induction left generalizing right with
  | nil =>
      cases right with
      | nil => rfl
      | cons b right =>
          have none := same b
          simp [self b] at none
  | cons a left ih =>
      obtain ⟨under, others⟩ := List.pairwise_cons.mp sorted
      have inside : a ∈ right := by
        have kept : a ∈ (a :: left).filter (tied le a) :=
          List.mem_filter.mpr ⟨List.mem_cons_self, self a⟩
        rw [same a] at kept
        exact (List.mem_filter.mp kept).1
      cases right with
      | nil => cases inside
      | cons b right =>
          obtain ⟨under', others'⟩ := List.pairwise_cons.mp sorted'
          have inside' : b ∈ a :: left := by
            have kept : b ∈ (b :: right).filter (tied le b) :=
              List.mem_filter.mpr ⟨List.mem_cons_self, self b⟩
            rw [← same b] at kept
            exact (List.mem_filter.mp kept).1
          have up : le a b = true := by
            rcases List.mem_cons.mp inside' with rfl | inside'
            · simpa [tied] using self b
            · exact under b inside'
          have down : le b a = true := by
            rcases List.mem_cons.mp inside with rfl | inside
            · simpa [tied] using self a
            · exact under' a inside
          have first : a = b := by
            have heads := same a
            have both : tied le a b = true := by simp [tied, up, down]
            rw [List.filter_cons_of_pos (self a), List.filter_cons_of_pos both] at heads
            exact (List.cons.inj heads).1
          subst first
          rw [ih others others' fun c => ?_]
          have rest := same c
          by_cases here : tied le c a = true
          · rw [List.filter_cons_of_pos here, List.filter_cons_of_pos here] at rest
            exact (List.cons.inj rest).2
          · rw [List.filter_cons_of_neg here, List.filter_cons_of_neg here] at rest
            exact rest

section

variable (trans : ∀ a b c, le a b → le b c → le a c) (total : ∀ a b, le a b || le b a)
include trans total

theorem mergeSort_ties (list : List α) (a : α) :
    (list.mergeSort le).filter (tied le a) = list.filter (tied le a) := by
  have equals : (list.filter (tied le a)).Pairwise fun b c => le b c := by
    rw [List.pairwise_filter]
    refine List.pairwise_of_forall fun b c left right => ?_
    simp only [tied, Bool.and_eq_true] at left right
    exact trans b a c left.2 right.1
  have kept := (List.sublist_mergeSort trans total equals List.filter_sublist).filter (tied le a)
  rw [List.filter_filter] at kept
  simp only [Bool.and_self] at kept
  refine (kept.eq_of_length ?_).symm
  exact (((List.mergeSort_perm list le).filter (tied le a)).length_eq).symm

variable {cmp : Comparison α γ} (decides : ∀ a b rng, 0 ≤ (cmp a b rng).1 ↔ le b a = true)
include decides

theorem orders_of_decides (elements : List α) : Orders cmp (fun a b => le a b = true) elements where
  above a _ b _ rng up := (decides a b rng).mp up
  below a _ b _ rng down := by
    have other : ¬ le b a = true := fun up => down ((decides a b rng).mpr up)
    have either := total a b
    rw [Bool.or_eq_true] at either
    exact either.resolve_right other
  trans a _ b _ c _ := trans a b c

/-- The flag comes behind those that it is tied with, as the array is read from its end. -/
theorem insert_ties (flag : α) {before : List α}
    (sorted : before.Pairwise fun a b => le b a = true) (rng : γ) (x : α) :
    (insert cmp flag before rng).1.filter (tied le x) =
      before.filter (tied le x) ++ [flag].filter (tied le x) := by
  induction before generalizing rng with
  | nil => rfl
  | cons last before ih =>
      obtain ⟨first, others⟩ := List.pairwise_cons.mp sorted
      rw [insert]
      by_cases up : 0 ≤ (cmp last flag rng).1
      · simp only [up, if_true]
        rw [List.filter_cons, List.filter_cons, ih others]
        by_cases here : tied le x last = true
        · rw [if_pos here, if_pos here, List.cons_append]
        · rw [if_neg here, if_neg here]
      · simp only [up, if_false]
        by_cases here : tied le x flag = true
        · -- what is below the last element is below the flag too
          have none : (last :: before).filter (tied le x) = [] := by
            rw [List.filter_eq_nil_iff]
            intro b member there
            simp only [tied, Bool.and_eq_true] at here there
            have under : le b last = true := by
              rcases List.mem_cons.mp member with rfl | member
              · simpa using total b b
              · exact first b member
            exact up ((decides last flag rng).mpr
              (trans flag b last (trans flag x b here.2 there.1) under))
          rw [List.filter_cons_of_pos here, none, List.nil_append, List.filter_cons_of_pos here]
          rfl
        · rw [List.filter_cons_of_neg here, List.filter_cons_of_neg here, List.filter_nil,
            List.append_nil]

theorem insertAll_ties {before : List α} (rest : List α)
    (sorted : before.Pairwise fun a b => le b a = true) (rng : γ) (x : α) :
    (insertAll cmp before rest rng).1.filter (tied le x) =
      before.filter (tied le x) ++ rest.filter (tied le x) := by
  induction rest generalizing before rng with
  | nil => exact (List.append_nil _).symm
  | cons flag rest ih =>
      have next := insert_sorted (orders_of_decides trans total decides (flag :: before))
        List.mem_cons_self (fun a member => List.mem_cons_of_mem flag member) sorted rng
      rw [insertAll]
      dsimp only
      rw [ih next, insert_ties trans total decides flag sorted rng x, List.append_assoc,
        ← List.filter_append, List.singleton_append]

theorem sort_ties (list : List α) (rng : γ) (x : α) :
    (sort cmp list rng).1.filter (tied le x) = (list.filter (tied le x)).reverse := by
  cases list with
  | nil => rfl
  | cons first rest =>
      rw [sort_eq, List.filter_reverse,
        insertAll_ties trans total decides rest (List.pairwise_singleton _ first) rng x,
        ← List.filter_append, List.singleton_append]

/-- The insertion sort is the stable sort of the list read backwards. -/
theorem sort_eq_mergeSort (list : List α) (rng : γ) :
    (sort cmp list rng).1 = list.reverse.mergeSort le := by
  apply eq_of_ties total
  · exact sort_sorted (orders_of_decides trans total decides list) rng
  · exact List.pairwise_mergeSort trans total list.reverse
  · intro x
    rw [sort_ties trans total decides, mergeSort_ties trans total, List.filter_reverse]

omit decides in
/-- It is enough that the comparison follows the order on the elements of the list. -/
theorem sort_eq_mergeSort_of_mem {list : List α}
    (decides : ∀ a ∈ list, ∀ b ∈ list, ∀ rng, 0 ≤ (cmp a b rng).1 ↔ le b a = true) (rng : γ) :
    (sort cmp list rng).1 = list.reverse.mergeSort le := by
  let elements := { a // a ∈ list }
  let below (a b : elements) : Bool := le a.val b.val
  have whole : list.attach.map Subtype.val = list := List.attach_map_subtype_val list
  have sorted : (sort (fun a b : elements => cmp a.val b.val) list.attach rng).1 =
      list.attach.reverse.mergeSort below :=
    sort_eq_mergeSort (fun a b c => trans a.val b.val c.val) (fun a b => total a.val b.val)
      (fun a b rng => decides a.val a.property b.val b.property rng) list.attach rng
  have placed : (list.attach.reverse.mergeSort below).map Subtype.val =
      (list.attach.reverse.map Subtype.val).mergeSort le :=
    List.map_mergeSort fun a _ b _ => rfl
  have mapped := (sort_map (Subtype.val : elements → α) cmp list.attach rng).1
  rw [whole, sorted, placed, List.map_reverse, whole] at mapped
  exact mapped.symm

omit decides in
/-- Sorting what is sorted again turns the order of the tied elements around. -/
theorem mergeSort_reverse_mergeSort (list : List α) :
    (list.mergeSort le).reverse.mergeSort le = list.reverse.mergeSort le := by
  apply eq_of_ties total
  · exact List.pairwise_mergeSort trans total _
  · exact List.pairwise_mergeSort trans total _
  · intro x
    rw [mergeSort_ties trans total, mergeSort_ties trans total, List.filter_reverse,
      List.filter_reverse, mergeSort_ties trans total]

end

end Ve482.InsertionSort
