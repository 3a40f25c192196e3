import Mathlib.Order.Lattice

set_option autoImplicit false

namespace Ve482.ShellSort

variable {β κ : Type} [LinearOrder κ] {m : Nat}

/-- The inner loop: `for (i = j - gap; i >= 0 && v[i] > v[i + gap]; i -= gap)` swap the two. -/
def sink (key : β → κ) (gap : Nat) : Nat → Nat → Vector β m → Vector β m
  | 0, _, v => v
  | fuel + 1, i, v =>
      if inside : i + gap < m then
        if key v[i + gap] < key v[i] then
          let v := v.swap i (i + gap)
          if gap ≤ i then sink key gap fuel (i - gap) v else v
        else v
      else v

/-- `for (j = gap; j < size; j++)`, with `count` values of `j` to come. -/
def passFrom (key : β → κ) (gap : Nat) : Nat → Nat → Vector β m → Vector β m
  | 0, _, v => v
  | count + 1, j, v => passFrom key gap count (j + 1) (sink key gap j (j - gap) v)

def pass (key : β → κ) (gap : Nat) (v : Vector β m) : Vector β m :=
  passFrom key gap (m - gap) gap v

/-- `while (gap != 1) { gap /= 3; ... }` -/
def passes (key : β → κ) : Nat → Nat → Vector β m → Vector β m
  | 0, _, v => v
  | fuel + 1, gap, v => if gap = 1 then v else passes key fuel (gap / 3) (pass key (gap / 3) v)

/-- `do gap = 3 * gap + 1; while (gap <= size);` -/
def firstGap (size : Nat) : Nat → Nat → Nat
  | 0, gap => gap
  | fuel + 1, gap => if 3 * gap + 1 ≤ size then firstGap size fuel (3 * gap + 1) else 3 * gap + 1

def sortVector (key : β → κ) (v : Vector β m) : Vector β m :=
  let gap := firstGap m (m + 1) 1
  passes key gap gap v

/-- Shell sort of a queue, in place. -/
def sort (key : β → κ) (queue : List β) : List β :=
  (sortVector key ⟨queue.toArray, List.size_toArray⟩ : Vector β queue.length).toList

theorem sink_perm (key : β → κ) (gap fuel i : Nat) (v : Vector β m) :
    (sink key gap fuel i v).Perm v := by
  induction fuel generalizing i v with
  | zero => exact .refl v
  | succ fuel ih =>
      rw [sink]
      by_cases inside : i + gap < m
      · rw [dif_pos inside]
        by_cases less : key v[i + gap] < key v[i]
        · rw [if_pos less]
          have swapped : (v.swap i (i + gap)).Perm v := Vector.swap_perm (by omega) inside
          by_cases more : gap ≤ i
          · simp only [more, if_true]
            exact (ih (i - gap) _).trans swapped
          · simp only [more, if_false]
            exact swapped
        · rw [if_neg less]
      · rw [dif_neg inside]

theorem passFrom_perm (key : β → κ) (gap count j : Nat) (v : Vector β m) :
    (passFrom key gap count j v).Perm v := by
  induction count generalizing j v with
  | zero => exact .refl v
  | succ count ih => exact (ih (j + 1) _).trans (sink_perm key gap j (j - gap) v)

theorem passes_perm (key : β → κ) (fuel gap : Nat) (v : Vector β m) :
    (passes key fuel gap v).Perm v := by
  induction fuel generalizing gap v with
  | zero => exact .refl v
  | succ fuel ih =>
      rw [passes]
      by_cases last : gap = 1
      · rw [if_pos last]
      · rw [if_neg last]
        exact (ih (gap / 3) _).trans (passFrom_perm key (gap / 3) _ _ v)

theorem sort_perm (key : β → κ) (queue : List β) : (sort key queue).Perm queue :=
  (passes_perm key _ _ _).toList

def SortedTo (key : β → κ) (v : Vector β m) (count : Nat) : Prop :=
  ∀ p q (_ : p < m) (_ : q < m), p < q → q < count → key v[p] ≤ key v[q]

/-- The first `count` elements are sorted, but for the one at `hole`, which is only known to
be below those after it. -/
structure SortedBut (key : β → κ) (v : Vector β m) (count hole : Nat) : Prop where
  others : ∀ p q (_ : p < m) (_ : q < m), p < q → q < count → p ≠ hole → q ≠ hole →
    key v[p] ≤ key v[q]
  above : ∀ q (_ : hole < m) (_ : q < m), hole < q → q < count → key v[hole] ≤ key v[q]

theorem SortedBut.swap {key : β → κ} {v : Vector β m} {count i : Nat} (below : i < m)
    (inside : i + 1 < m)
    (sorted : SortedBut key v count (i + 1)) (less : key v[i + 1] < key v[i]) :
    SortedBut key (v.swap i (i + 1)) count i := by
  constructor
  · intro p q insideP insideQ before upTo notP notQ
    rw [Vector.getElem_swap, Vector.getElem_swap, if_neg notP, if_neg notQ]
    by_cases atP : p = i + 1
    · have notQ' : q ≠ i + 1 := by omega
      rw [if_pos atP, if_neg notQ']
      exact sorted.others i q (by omega) insideQ (by omega) upTo (by omega) notQ'
    · by_cases atQ : q = i + 1
      · rw [if_neg atP, if_pos atQ]
        exact sorted.others p i insideP (by omega) (by omega) (by omega) atP (by omega)
      · rw [if_neg atP, if_neg atQ]
        exact sorted.others p q insideP insideQ before upTo atP atQ
  · intro q insideI insideQ after upTo
    rw [Vector.getElem_swap, Vector.getElem_swap, if_pos rfl, if_neg (by omega : q ≠ i)]
    by_cases atQ : q = i + 1
    · rw [if_pos atQ]
      exact le_of_lt less
    · rw [if_neg atQ]
      exact sorted.above q inside insideQ (by omega) upTo

theorem SortedBut.settled {key : β → κ} {v : Vector β m} {count i : Nat} (below : i < m)
    (inside : i + 1 < m)
    (sorted : SortedBut key v count (i + 1)) (settled : ¬ key v[i + 1] < key v[i]) :
    SortedTo key v count := by
  intro p q insideP insideQ before upTo
  by_cases atP : p = i + 1
  · subst atP
    exact sorted.above q insideP insideQ before upTo
  by_cases atQ : q = i + 1
  · subst atQ
    have last : key v[i] ≤ key v[i + 1] := not_lt.mp settled
    by_cases same : p = i
    · subst same
      exact last
    · exact le_trans (sorted.others p i insideP (by omega) (by omega) (by omega) atP (by omega))
        last
  · exact sorted.others p q insideP insideQ before upTo atP atQ

theorem SortedBut.front {key : β → κ} {v : Vector β m} {count : Nat}
    (sorted : SortedBut key v count 0) : SortedTo key v count := by
  intro p q insideP insideQ before upTo
  by_cases atP : p = 0
  · subst atP
    exact sorted.above q insideP insideQ before upTo
  · exact sorted.others p q insideP insideQ before upTo atP (by omega)

theorem sink_sorted {key : β → κ} {count : Nat} (fuel i : Nat) (v : Vector β m)
    (enough : i < fuel) (inside : i + 1 < m) (sorted : SortedBut key v count (i + 1)) :
    SortedTo key (sink key 1 fuel i v) count := by
  induction fuel generalizing i v with
  | zero => omega
  | succ fuel ih =>
      have below : i < m := Nat.lt_of_succ_lt inside
      rw [sink, dif_pos inside]
      by_cases less : key v[i + 1] < key v[i]
      · rw [if_pos less]
        have swapped := sorted.swap below inside less
        cases i with
        | zero => exact swapped.front
        | succ i =>
            simp only [Nat.le_add_left, if_true]
            exact ih i _ (by omega) (by omega) swapped
      · rw [if_neg less]
        exact sorted.settled below inside less

theorem passFrom_sorted {key : β → κ} (count j : Nat) (v : Vector β m) (positive : 0 < j)
    (all : j + count = m) (sorted : SortedTo key v j) :
    SortedTo key (passFrom key 1 count j v) m := by
  induction count generalizing j v with
  | zero =>
      have full : j = m := by omega
      exact full ▸ sorted
  | succ count ih =>
      refine ih (j + 1) _ (by omega) (by omega) ?_
      refine sink_sorted j (j - 1) v (by omega) (by omega) ?_
      rw [show j - 1 + 1 = j by omega]
      constructor
      · intro p q insideP insideQ before upTo _ notQ
        exact sorted p q insideP insideQ before (by omega)
      · intro q _ _ after upTo
        omega

theorem pass_one_sorted (key : β → κ) (v : Vector β m) : SortedTo key (pass key 1 v) m := by
  by_cases empty : m = 0
  · intro p q insideP
    omega
  · refine passFrom_sorted (m - 1) 1 v Nat.one_pos (by omega) ?_
    intro p q _ _ before upTo
    omega

/-- The gaps that `gap = 3 * gap + 1` makes of 1. -/
inductive Gap : Nat → Prop where
  | one : Gap 1
  | next {gap : Nat} : Gap gap → Gap (3 * gap + 1)

theorem Gap.positive {gap : Nat} (made : Gap gap) : 0 < gap := by
  cases made <;> omega

theorem firstGap_gap (size fuel : Nat) {gap : Nat} (made : Gap gap) :
    Gap (firstGap size fuel gap) := by
  induction fuel generalizing gap with
  | zero => exact made
  | succ fuel ih =>
      rw [firstGap]
      by_cases more : 3 * gap + 1 ≤ size
      · rw [if_pos more]
        exact ih made.next
      · rw [if_neg more]
        exact made.next

theorem firstGap_ge (size fuel gap : Nat) : gap ≤ firstGap size fuel gap := by
  induction fuel generalizing gap with
  | zero => exact Nat.le_refl gap
  | succ fuel ih =>
      rw [firstGap]
      by_cases more : 3 * gap + 1 ≤ size
      · rw [if_pos more]
        have grown := ih (3 * gap + 1)
        omega
      · rw [if_neg more]
        omega

theorem passes_sorted {key : β → κ} {gap : Nat} (made : Gap gap) (fuel : Nat) (v : Vector β m)
    (more : gap ≠ 1) (enough : gap ≤ fuel) : SortedTo key (passes key fuel gap v) m := by
  induction made generalizing fuel v with
  | one => exact absurd rfl more
  | @next gap made ih =>
      cases fuel with
      | zero => omega
      | succ fuel =>
          rw [passes, if_neg more, show (3 * gap + 1) / 3 = gap by omega]
          by_cases last : gap = 1
          · subst last
            have stop : passes key fuel 1 (pass key 1 v) = pass key 1 v := by
              cases fuel with
              | zero => rfl
              | succ fuel => rw [passes, if_pos rfl]
            rw [stop]
            exact pass_one_sorted key v
          · exact ih fuel _ last (by omega)

theorem sortVector_sorted (key : β → κ) (v : Vector β m) : SortedTo key (sortVector key v) m := by
  refine passes_sorted (firstGap_gap m (m + 1) .one) _ v ?_ (Nat.le_refl _)
  have grown : 4 ≤ firstGap m (m + 1) 1 := by
    rw [firstGap]
    by_cases more : 3 * 1 + 1 ≤ m
    · rw [if_pos more]
      exact firstGap_ge m m _
    · simp [more]
  omega

theorem sort_sorted (key : β → κ) (queue : List β) :
    (sort key queue).Pairwise fun left right => key left ≤ key right := by
  rw [List.pairwise_iff_getElem]
  intro p q insideP insideQ before
  have length : (sort key queue).length = queue.length := (sort_perm key queue).length_eq
  have sorted := sortVector_sorted key (⟨queue.toArray, List.size_toArray⟩ :
    Vector β queue.length)
  have found := sorted p q (by omega) (by omega) before (by omega)
  simpa only [sort, Vector.getElem_toList] using found

theorem sink_fuel (key : β → κ) {gap : Nat} (positive : 0 < gap) (extra : Nat) {fuel i : Nat}
    (v : Vector β m) (enough : i < fuel) :
    sink key gap (fuel + extra) i v = sink key gap fuel i v := by
  induction fuel generalizing i v with
  | zero => omega
  | succ fuel ih =>
      rw [Nat.succ_add_eq_add_succ, Nat.add_succ, sink, sink]
      by_cases inside : i + gap < m
      · rw [dif_pos inside, dif_pos inside]
        by_cases less : key v[i + gap] < key v[i]
        · rw [if_pos less, if_pos less]
          dsimp only
          by_cases more : gap ≤ i
          · rw [if_pos more, if_pos more]
            exact ih _ (by omega)
          · rw [if_neg more, if_neg more]
        · rw [if_neg less, if_neg less]
      · rw [dif_neg inside, dif_neg inside]

theorem firstGap_fuel (size extra : Nat) {fuel gap : Nat} (enough : size < gap + fuel) :
    firstGap size (fuel + 1 + extra) gap = firstGap size (fuel + 1) gap := by
  induction fuel generalizing gap with
  | zero =>
      rw [Nat.zero_add, Nat.add_comm, firstGap, firstGap, if_neg (by omega), if_neg (by omega)]
  | succ fuel ih =>
      rw [Nat.succ_add_eq_add_succ, Nat.add_succ, firstGap, firstGap]
      by_cases more : 3 * gap + 1 ≤ size
      · rw [if_pos more, if_pos more]
        exact ih (by omega)
      · rw [if_neg more, if_neg more]

theorem passes_fuel (key : β → κ) (extra : Nat) {gap : Nat} (made : Gap gap) {fuel : Nat}
    (v : Vector β m) (enough : gap ≤ fuel) :
    passes key (fuel + extra) gap v = passes key fuel gap v := by
  induction made generalizing fuel v with
  | one =>
      cases fuel with
      | zero => omega
      | succ fuel =>
          rw [Nat.succ_add_eq_add_succ, Nat.add_succ, passes, passes, if_pos rfl, if_pos rfl]
  | @next gap made ih =>
      have more : 3 * gap + 1 ≠ 1 := by have := made.positive; omega
      cases fuel with
      | zero => omega
      | succ fuel =>
          rw [Nat.succ_add_eq_add_succ, Nat.add_succ, passes, passes, if_neg more, if_neg more,
            show (3 * gap + 1) / 3 = gap by omega]
          exact ih _ (by omega)

/-- No loop of a sort of `m` elements is cut short. -/
structure LoopsEnd (key : β → κ) (m : Nat) : Prop where
  firstGap : ∀ extra, firstGap m (m + 1 + extra) 1 = firstGap m (m + 1) 1
  passes : ∀ extra (v : Vector β m),
    passes key (ShellSort.firstGap m (m + 1) 1 + extra) (ShellSort.firstGap m (m + 1) 1) v =
      passes key (ShellSort.firstGap m (m + 1) 1) (ShellSort.firstGap m (m + 1) 1) v
  sink : ∀ extra gap j (v : Vector β m), 0 < gap → gap ≤ j →
    sink key gap (j + extra) (j - gap) v = sink key gap j (j - gap) v

theorem loopsEnd (key : β → κ) (m : Nat) : LoopsEnd key m := by
  refine ⟨fun extra => firstGap_fuel m extra (by omega), fun extra v => ?_, ?_⟩
  · exact passes_fuel key extra (firstGap_gap m (m + 1) .one) v (Nat.le_refl _)
  · intro extra gap j v positive reached
    exact sink_fuel key positive extra v (by omega)

end Ve482.ShellSort
