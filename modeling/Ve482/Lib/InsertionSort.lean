import Mathlib.Data.List.Basic

set_option autoImplicit false

namespace Ve482.InsertionSort

variable {α γ : Type} {m : Nat}

/-- A comparison may draw on a state, as one that tosses a coin does. -/
abbrev Comparison (α γ : Type) : Type := α → α → γ → Int × γ

/-- The inner loop, where `hole` is `j + 1`: elements that do not compare below `flag` move up. -/
def shift (cmp : Comparison α γ) (flag : α) : (hole : Nat) → hole < m → Vector α m → γ →
    Vector α m × γ
  | 0, inside, src, rng => (src.set 0 flag inside, rng)
  | j + 1, inside, src, rng =>
      let (order, rng) := cmp src[j] flag rng
      if 0 ≤ order then shift cmp flag j (by omega) (src.set (j + 1) src[j] inside) rng
      else (src.set (j + 1) flag inside, rng)

/-- `for (int i = ...; i < length; i++)`, with `count` values of `i` to come. -/
def insertFrom (cmp : Comparison α γ) : (count i : Nat) → i + count = m → Vector α m → γ →
    Vector α m × γ
  | 0, _, _, src, rng => (src, rng)
  | count + 1, i, all, src, rng =>
      let (src, rng) := shift cmp src[i] i (by omega) src rng
      insertFrom cmp count (i + 1) (by omega) src rng

/-- The two loops on the array that `list` is copied to. -/
def sort (cmp : Comparison α γ) : List α → γ → List α × γ
  | [], rng => ([], rng)
  | first :: rest, rng =>
      let src : Vector α (rest.length + 1) := ⟨(first :: rest).toArray, List.size_toArray⟩
      let (src, rng) := insertFrom cmp rest.length 1 (by omega) src rng
      (src.toList, rng)

def insert (cmp : Comparison α γ) (flag : α) : List α → γ → List α × γ
  | [], rng => ([flag], rng)
  | last :: before, rng =>
      let (order, rng) := cmp last flag rng
      if 0 ≤ order then
        let (before, rng) := insert cmp flag before rng
        (last :: before, rng)
      else (flag :: last :: before, rng)

def insertAll (cmp : Comparison α γ) : (before rest : List α) → γ → List α × γ
  | before, [], rng => (before, rng)
  | before, flag :: rest, rng =>
      let (before, rng) := insert cmp flag before rng
      insertAll cmp before rest rng

theorem shift_toList (cmp : Comparison α γ) (flag : α) (hole : Nat) (inside : hole < m)
    (src : Vector α m) (rng : γ) :
    (shift cmp flag hole inside src rng).1.toList =
        (insert cmp flag (src.toList.take hole).reverse rng).1.reverse ++
          src.toList.drop (hole + 1) ∧
      (shift cmp flag hole inside src rng).2 =
        (insert cmp flag (src.toList.take hole).reverse rng).2 := by
  induction hole generalizing src rng with
  | zero =>
      refine ⟨?_, rfl⟩
      rw [shift, List.take_zero, List.reverse_nil, insert, Vector.toList_set,
        List.set_eq_take_append_cons_drop]
      simp [inside]
  | succ j ih =>
      have front : (src.toList.take (j + 1)).reverse = src[j] :: (src.toList.take j).reverse := by
        rw [List.take_add_one, List.getElem?_eq_getElem (by simpa using by omega)]
        simp
      rw [front, shift, insert]
      by_cases up : 0 ≤ (cmp src[j] flag rng).1
      · simp only [up, if_true]
        have moved := ih (by omega) (src.set (j + 1) src[j] inside) (cmp src[j] flag rng).2
        have kept : (src.set (j + 1) src[j] inside).toList.take j = src.toList.take j := by
          rw [Vector.toList_set, List.take_set_of_le (by omega)]
        have after : (src.set (j + 1) src[j] inside).toList.drop (j + 1) =
            src[j] :: src.toList.drop (j + 1 + 1) := by
          rw [Vector.toList_set, List.drop_eq_getElem_cons (by simpa using inside),
            List.drop_set_of_lt (by omega)]
          simp
        rw [kept, after] at moved
        refine ⟨?_, moved.2⟩
        rw [moved.1]
        simp
      · simp only [up, if_false]
        refine ⟨?_, trivial⟩
        have below : j + 1 < src.toList.length := by simpa using inside
        rw [Vector.toList_set, List.set_eq_take_append_cons_drop, if_pos below]
        have front := congrArg List.reverse front
        rw [List.reverse_reverse] at front
        rw [front]
        simp

theorem insertFrom_toList (cmp : Comparison α γ) (count i : Nat) (all : i + count = m)
    (src : Vector α m) (rng : γ) :
    (insertFrom cmp count i all src rng).1.toList =
        (insertAll cmp (src.toList.take i).reverse (src.toList.drop i) rng).1.reverse ∧
      (insertFrom cmp count i all src rng).2 =
        (insertAll cmp (src.toList.take i).reverse (src.toList.drop i) rng).2 := by
  induction count generalizing i src rng with
  | zero =>
      have full : src.toList.length ≤ i := by
        rw [Vector.length_toList]
        omega
      rw [List.drop_eq_nil_of_le full, List.take_of_length_le full]
      simp [insertFrom, insertAll]
  | succ count ih =>
      have next : src.toList.drop i = src[i] :: src.toList.drop (i + 1) := by
        rw [List.drop_eq_getElem_cons (by simpa using by omega)]
        simp
      obtain ⟨placed, drawn⟩ := shift_toList cmp src[i] i (by omega) src rng
      rw [next, insertFrom, insertAll]
      generalize shift cmp src[i] i _ src rng = shifted at placed drawn ⊢
      generalize insert cmp src[i] (src.toList.take i).reverse rng = inserted at placed drawn ⊢
      obtain ⟨moved, used⟩ := shifted
      obtain ⟨before, used'⟩ := inserted
      simp only at placed drawn ⊢
      have length : before.reverse.length = i + 1 := by
        have total := congrArg List.length placed
        simp only [List.length_append, List.length_drop, Vector.length_toList] at total
        omega
      have step := ih (i + 1) (by omega) moved used
      rw [placed, drawn, List.take_left' length, List.drop_left' length,
        List.reverse_reverse] at step
      rw [drawn]
      exact step

theorem sort_eq (cmp : Comparison α γ) (first : α) (rest : List α) (rng : γ) :
    sort cmp (first :: rest) rng =
      ((insertAll cmp [first] rest rng).1.reverse, (insertAll cmp [first] rest rng).2) := by
  have loops := insertFrom_toList cmp rest.length 1 (by omega)
    (⟨(first :: rest).toArray, List.size_toArray⟩ : Vector α (rest.length + 1)) rng
  exact Prod.ext loops.1 loops.2

theorem insert_perm (cmp : Comparison α γ) (flag : α) (before : List α) (rng : γ) :
    (insert cmp flag before rng).1.Perm (flag :: before) := by
  induction before generalizing rng with
  | nil => exact .refl _
  | cons last before ih =>
      rw [insert]
      by_cases up : 0 ≤ (cmp last flag rng).1
      · simp only [up, if_true]
        exact ((ih _).cons last).trans (.swap flag last before)
      · simp only [up, if_false]
        exact .refl _

theorem insertAll_perm (cmp : Comparison α γ) (before rest : List α) (rng : γ) :
    (insertAll cmp before rest rng).1.Perm (rest ++ before) := by
  induction rest generalizing before rng with
  | nil => exact .refl _
  | cons flag rest ih =>
      have placed := (insert_perm cmp flag before rng).append_left rest
      exact (ih _ _).trans (placed.trans List.perm_middle)

theorem sort_perm (cmp : Comparison α γ) (list : List α) (rng : γ) :
    (sort cmp list rng).1.Perm list := by
  cases list with
  | nil => exact .refl _
  | cons first rest =>
      rw [sort_eq]
      exact (List.reverse_perm _).trans
        ((insertAll_perm cmp [first] rest rng).trans (List.perm_append_singleton first rest))

/-- On these elements the comparison draws on nothing and its sign tells the order. -/
structure Orders (cmp : Comparison α γ) (r : α → α → Prop) (elements : List α) : Prop where
  above : ∀ a ∈ elements, ∀ b ∈ elements, ∀ rng, 0 ≤ (cmp a b rng).1 → r b a
  below : ∀ a ∈ elements, ∀ b ∈ elements, ∀ rng, ¬ 0 ≤ (cmp a b rng).1 → r a b
  trans : ∀ a ∈ elements, ∀ b ∈ elements, ∀ c ∈ elements, r a b → r b c → r a c

variable {cmp : Comparison α γ} {r : α → α → Prop} {elements : List α}

/-- The comparison with its arguments swapped sorts the other way round. -/
theorem Orders.swap (orders : Orders cmp r elements) :
    Orders (fun a b => cmp b a) (fun a b => r b a) elements := by
  refine ⟨?_, ?_, ?_⟩
  · intro a insideA b insideB rng above
    exact orders.above b insideB a insideA rng above
  · intro a insideA b insideB rng below
    exact orders.below b insideB a insideA rng below
  · intro a insideA b insideB c insideC first second
    exact orders.trans c insideC b insideB a insideA second first

theorem insert_sorted (orders : Orders cmp r elements) {flag : α} (known : flag ∈ elements)
    {before : List α} (inside : ∀ a ∈ before, a ∈ elements)
    (sorted : before.Pairwise fun a b => r b a) (rng : γ) :
    (insert cmp flag before rng).1.Pairwise fun a b => r b a := by
  induction before generalizing rng with
  | nil => exact List.pairwise_singleton _ _
  | cons last before ih =>
      obtain ⟨first, others⟩ := List.pairwise_cons.mp sorted
      have inside' : ∀ a ∈ before, a ∈ elements := fun a member =>
        inside a (List.mem_cons_of_mem _ member)
      have lastKnown := inside last List.mem_cons_self
      rw [insert]
      by_cases up : 0 ≤ (cmp last flag rng).1
      · simp only [up, if_true]
        refine List.pairwise_cons.mpr ⟨?_, ih inside' others _⟩
        intro a member
        rcases List.mem_cons.mp ((insert_perm cmp flag before _).mem_iff.mp member)
          with rfl | member
        · exact orders.above last lastKnown a known rng up
        · exact first a member
      · simp only [up, if_false]
        refine List.pairwise_cons.mpr ⟨?_, sorted⟩
        have next := orders.below last lastKnown flag known rng up
        intro a member
        rcases List.mem_cons.mp member with rfl | member
        · exact next
        · exact orders.trans a (inside' a member) last lastKnown flag known (first a member) next

theorem insertAll_sorted (orders : Orders cmp r elements) {before rest : List α}
    (restInside : ∀ a ∈ rest, a ∈ elements) (inside : ∀ a ∈ before, a ∈ elements)
    (sorted : before.Pairwise fun a b => r b a) (rng : γ) :
    (insertAll cmp before rest rng).1.Pairwise fun a b => r b a := by
  induction rest generalizing before rng with
  | nil => exact sorted
  | cons flag rest ih =>
      have known := restInside flag List.mem_cons_self
      refine ih (fun a member => restInside a (List.mem_cons_of_mem _ member)) ?_
        (insert_sorted orders known inside sorted rng) _
      intro a member
      rcases List.mem_cons.mp ((insert_perm cmp flag before rng).mem_iff.mp member)
        with rfl | member
      · exact known
      · exact inside a member

theorem sort_sorted {list : List α} (orders : Orders cmp r list) (rng : γ) :
    (sort cmp list rng).1.Pairwise r := by
  cases list with
  | nil => exact .nil
  | cons first rest =>
      rw [sort_eq, List.pairwise_reverse]
      refine insertAll_sorted orders (fun a member => List.mem_cons_of_mem _ member) ?_
        (List.pairwise_singleton _ _) rng
      intro a member
      rw [List.mem_singleton.mp member]
      exact List.mem_cons_self

theorem insert_stateless {sign : α → α → Int} (stateless : ∀ a b rng, cmp a b rng = (sign a b, rng))
    (flag : α) (before : List α) (rng other : γ) :
    (insert cmp flag before rng).1 = (insert cmp flag before other).1 := by
  induction before with
  | nil => rfl
  | cons last before ih =>
      simp only [insert, stateless]
      by_cases up : 0 ≤ sign last flag
      · simp only [up, if_true, ih]
      · simp only [up, if_false]

theorem insertAll_stateless {sign : α → α → Int}
    (stateless : ∀ a b rng, cmp a b rng = (sign a b, rng)) (before rest : List α)
    (rng other : γ) :
    (insertAll cmp before rest rng).1 = (insertAll cmp before rest other).1 := by
  induction rest generalizing before rng other with
  | nil => rfl
  | cons flag rest ih =>
      have placed := insert_stateless stateless flag before rng other
      rw [insertAll, insertAll]
      generalize insert cmp flag before rng = left at placed ⊢
      generalize insert cmp flag before other = right at placed ⊢
      obtain ⟨after, used⟩ := left
      obtain ⟨after', used'⟩ := right
      simp only at placed ⊢
      rw [placed]
      exact ih _ _ _

theorem sort_stateless {sign : α → α → Int} (stateless : ∀ a b rng, cmp a b rng = (sign a b, rng))
    (list : List α) (rng other : γ) : (sort cmp list rng).1 = (sort cmp list other).1 := by
  cases list with
  | nil => rfl
  | cons first rest =>
      rw [sort_eq, sort_eq, insertAll_stateless stateless [first] rest rng other]

variable {β : Type} (f : α → β) (cmp' : Comparison β γ)

theorem insert_map (flag : α) (before : List α) (rng : γ) :
    (insert (fun a b => cmp' (f a) (f b)) flag before rng).1.map f =
        (insert cmp' (f flag) (before.map f) rng).1 ∧
      (insert (fun a b => cmp' (f a) (f b)) flag before rng).2 =
        (insert cmp' (f flag) (before.map f) rng).2 := by
  induction before generalizing rng with
  | nil => exact ⟨rfl, rfl⟩
  | cons last before ih =>
      rw [List.map_cons, insert, insert]
      by_cases up : 0 ≤ (cmp' (f last) (f flag) rng).1
      · obtain ⟨placed, drawn⟩ := ih (cmp' (f last) (f flag) rng).2
        simp only [up, if_true, List.map_cons, placed, drawn, and_self]
      · simp only [up, if_false, List.map_cons, and_self]

theorem insertAll_map (before rest : List α) (rng : γ) :
    (insertAll (fun a b => cmp' (f a) (f b)) before rest rng).1.map f =
        (insertAll cmp' (before.map f) (rest.map f) rng).1 ∧
      (insertAll (fun a b => cmp' (f a) (f b)) before rest rng).2 =
        (insertAll cmp' (before.map f) (rest.map f) rng).2 := by
  induction rest generalizing before rng with
  | nil => exact ⟨rfl, rfl⟩
  | cons flag rest ih =>
      obtain ⟨placed, drawn⟩ := insert_map f cmp' flag before rng
      rw [List.map_cons, insertAll, insertAll]
      dsimp only
      rw [← placed, ← drawn]
      exact ih _ _

theorem sort_map (list : List α) (rng : γ) :
    (sort (fun a b => cmp' (f a) (f b)) list rng).1.map f = (sort cmp' (list.map f) rng).1 ∧
      (sort (fun a b => cmp' (f a) (f b)) list rng).2 = (sort cmp' (list.map f) rng).2 := by
  cases list with
  | nil => exact ⟨rfl, rfl⟩
  | cons first rest =>
      obtain ⟨placed, drawn⟩ := insertAll_map f cmp' [first] rest rng
      rw [List.map_cons, sort_eq, sort_eq]
      dsimp only
      rw [List.map_reverse, placed, drawn]
      exact ⟨rfl, rfl⟩

end Ve482.InsertionSort
