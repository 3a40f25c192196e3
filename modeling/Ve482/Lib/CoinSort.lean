import Ve482.Lib.InsertionSort
import Mathlib.Data.List.Chain
import Mathlib.Data.List.Pairwise

set_option autoImplicit false

/- When an insertion sort does not look at its elements but tosses a coin for each pair. -/
namespace Ve482.InsertionSort

variable {α τ : Type} {sign : τ → Int} {flag last : α} {before rest skipped : List α}
  {coins : Nat → τ}

/-- The next of the coins answers, whatever is compared. -/
def toss (sign : τ → Int) : Comparison α (Nat → τ) := fun _ _ coins =>
  (sign (coins 0), fun i => coins (i + 1))

/-- Where the coin says that the last element is below, nothing moves. -/
theorem insert_stays (down : sign (coins 0) < 0) :
    insert (toss sign) flag (last :: before) coins =
      (flag :: last :: before, fun i => coins (i + 1)) := by
  have below : ¬ 0 ≤ sign (coins 0) := by omega
  simp only [insert, toss, below, if_false]

theorem insertAll_skips (filled : before ≠ [])
    (down : ∀ i < skipped.length, sign (coins i) < 0) :
    insertAll (toss sign) before (skipped ++ rest) coins =
      insertAll (toss sign) (skipped.reverse ++ before) rest
        (fun i => coins (i + skipped.length)) := by
  induction skipped generalizing before coins with
  | nil => rfl
  | cons flag skipped ih =>
      obtain ⟨last, front, rfl⟩ := List.exists_cons_of_ne_nil filled
      have stays : insert (toss sign) flag (last :: front) coins =
          (flag :: last :: front, fun i => coins (i + 1)) :=
        insert_stays (down 0 (Nat.succ_pos skipped.length))
      have later := @ih (flag :: last :: front) (fun i => coins (i + 1))
        (List.cons_ne_nil flag _) fun i inside => down (i + 1) (Nat.succ_lt_succ inside)
      rw [List.cons_append, insertAll, stays, List.reverse_cons, List.append_assoc]
      dsimp only
      rw [later]
      rfl

theorem insertAll_stays (filled : before ≠ []) (down : ∀ i, sign (coins i) < 0) :
    (insertAll (toss sign) before rest coins).1 = rest.reverse ++ before := by
  have skips : insertAll (toss sign) before (rest ++ []) coins =
      insertAll (toss sign) (rest.reverse ++ before) [] (fun i => coins (i + rest.length)) :=
    insertAll_skips filled fun i _ => down i
  rw [List.append_nil] at skips
  rw [skips]
  rfl

/-- One coin that says otherwise puts the element before the last one. -/
theorem insert_swaps (up : 0 ≤ sign (coins 0)) (down : ∀ i, sign (coins (i + 1)) < 0) :
    (insert (toss sign) flag (last :: before) coins).1 = last :: flag :: before ∧
      ∀ i, sign ((insert (toss sign) flag (last :: before) coins).2 i) < 0 := by
  rw [insert]
  simp only [toss, up, if_true]
  cases before with
  | nil => exact ⟨rfl, fun i => down i⟩
  | cons next before =>
      have stays : insert (toss sign) flag (next :: before) (fun i => coins (i + 1)) =
          (flag :: next :: before, fun i => coins (i + 2)) := insert_stays (down 0)
      change last :: (insert (toss sign) flag (next :: before) fun i => coins (i + 1)).1 = _ ∧ _
      rw [stays]
      exact ⟨rfl, fun i => down (i + 1)⟩

/-- The only coin to say otherwise is the `k`th. -/
def tossOnce (up down : τ) (k : Nat) : Nat → τ := fun i => if i = k then up else down

theorem sort_swaps {up down : τ} (moves : 0 ≤ sign up) (stays : sign down < 0)
    (left right : List α) (a b : α) :
    (sort (toss sign) (left ++ a :: b :: right) (tossOnce up down left.length)).1 =
      left ++ b :: a :: right := by
  -- The elements before `a` stay, then `b` moves past `a` alone, and the others stay.
  have step (front : List α) (coins : Nat → τ) (first : 0 ≤ sign (coins 0))
      (others : ∀ i, sign (coins (i + 1)) < 0) :
      (insertAll (toss sign) (a :: front) (b :: right) coins).1 =
        right.reverse ++ a :: b :: front := by
    obtain ⟨swapped, down⟩ := @insert_swaps _ _ sign b a front coins first others
    rw [insertAll]
    dsimp only
    rw [insertAll_stays (by rw [swapped]; exact List.cons_ne_nil a _) down, swapped]
  cases left with
  | nil =>
      rw [List.nil_append, sort_eq]
      dsimp only
      rw [step [] _ moves fun i => stays]
      simp
  | cons head left =>
      have skips := @insertAll_skips _ _ sign [head] (b :: right) (left ++ [a])
        (tossOnce up down (head :: left).length) (List.cons_ne_nil head []) fun i inside => by
          have early : i ≠ (head :: left).length := by
            rw [List.length_append, List.length_singleton] at inside
            rw [List.length_cons]
            omega
          rw [tossOnce, if_neg early]
          exact stays
      have swapped := step (left.reverse ++ [head])
        (fun i => tossOnce up down (head :: left).length (i + (left ++ [a]).length))
        (by simpa [tossOnce] using moves)
        (fun i => by
          have late : i + 1 + (left ++ [a]).length ≠ (head :: left).length := by
            simp only [List.length_append, List.length_cons, List.length_nil]
            omega
          rw [tossOnce, if_neg late]
          exact stays)
      rw [List.append_assoc, List.reverse_append] at skips
      rw [List.cons_append, sort_eq]
      dsimp only
      rw [show left ++ a :: b :: right = left ++ ([a] ++ b :: right) from rfl, skips]
      change (insertAll (toss sign) (a :: (left.reverse ++ [head])) (b :: right) _).1.reverse = _
      rw [swapped]
      simp

/-- There is only one order of elements that are all the same. -/
theorem eq_of_perm_of_equal {list list' : List α} (perm : list.Perm list')
    (equal : ∀ a ∈ list', ∀ b ∈ list', a = b) : list = list' := by
  have single : list'.Pairwise Eq := List.pairwise_of_forall_mem_list equal
  have single' : list.Pairwise Eq := perm.symm.pairwise single Eq.symm
  exact List.Perm.eq_of_pairwise (fun _ _ _ _ same _ => same) single' single perm

/-- Only a list of equal elements comes out as it was however the coins fall. -/
theorem sort_tossed_iff {up down : τ} (moves : 0 ≤ sign up) (stays : sign down < 0)
    (list : List α) :
    (∀ coins, (sort (toss sign) list coins).1 = list) ↔ ∀ a ∈ list, ∀ b ∈ list, a = b := by
  constructor
  · intro fixed
    have neighbours : list.IsChain Eq := by
      rw [List.isChain_iff_forall_rel_of_append_cons_cons]
      intro a b left right split
      subst split
      have swapped := sort_swaps moves stays left right a b
      rw [fixed, List.append_cancel_left_eq] at swapped
      exact (List.cons.inj swapped).1
    have pairs := List.isChain_iff_pairwise.mp neighbours
    exact fun a first b second => pairs.forall_of_forall (fun _ _ => rfl) first second
  · intro equal coins
    exact eq_of_perm_of_equal (sort_perm (toss sign) list coins) equal

end Ve482.InsertionSort
