import Ve482.KeyValue.Pointers
import Ve482.Lib.InsertionOrder
import Ve482.Lib.StableSort
import Mathlib.Data.Rat.Floor
import Mathlib.Tactic.Linarith

set_option autoImplicit false

namespace Ve482.KeyValue.Pointers

open InsertionSort CString

variable {ν : Type} [DecidableEq ν] {L : Libc} {dataType : DataType} {sortType : SortType}
  {memory : Memory ν L dataType} {list : Header ν} {nodes : List ν} {fuel : Nat}

section

variable {K : Type}

/-- The values as they would have to ascend. -/
def directed [Neg K] : SortType → K → K
  | .dec, x => -x
  | _, x => x

def InOrder [LE K] : SortType → List K → Prop
  | .rand, _ => True
  | .inc, values => values.Pairwise (· ≤ ·)
  | .dec, values => values.Pairwise (· ≥ ·)

/-- The values that the chain holds after a sort are in the order asked for. -/
def SortsValues [LE K] (value : Node L dataType → K) (sortType : SortType) (fuel : Nat)
    (memory : Memory ν L dataType) (list : Header ν) (rng : L.Random) : Prop :=
  ∃ (after : Outcome ν L dataType L.Random) (nodes' : List ν),
    sort sortType fuel memory list rng = .ok after ∧
    Chains after.memory.next after.list nodes' ∧
    InOrder sortType (nodes'.map fun node => value (after.memory.node node))

/-- What the chain holds, in the direction of the sort. -/
def Memory.values [Neg K] (memory : Memory ν L dataType) (value : Node L dataType → K)
    (sortType : SortType) (nodes : List ν) : List K :=
  nodes.map fun node => directed sortType (value (memory.node node))

omit [DecidableEq ν] in
/-- A value and one before it are those of two nodes. -/
theorem Memory.values_before [Neg K] {value : Node L dataType → K} {left right : List K} {x y : K}
    (same : memory.values value sortType nodes = left ++ x :: right) (member : y ∈ left) :
    ∃ a b, y = directed sortType (value (memory.node a)) ∧
      x = directed sortType (value (memory.node b)) := by
  have values : ∀ z ∈ left ++ x :: right, ∃ a, z = directed sortType (value (memory.node a)) := by
    rw [← same]
    intro z inside
    obtain ⟨a, -, rfl⟩ := List.mem_map.mp inside
    exact ⟨a, rfl⟩
  obtain ⟨a, earlier⟩ := values y (List.mem_append_left _ member)
  obtain ⟨b, later⟩ := values x (List.mem_append_right _ List.mem_cons_self)
  exact ⟨a, b, earlier, later⟩

/-- A sort by a number orders the values exactly when each finds its place among those before
it. -/
theorem sortsValues_iff [LinearOrder K] [Neg K] {value : Node L dataType → K}
    (inOrder : ∀ values : List K,
      InOrder sortType values ↔ (values.map (directed sortType)).Pairwise (· ≤ ·))
    (sign : K → K → Int) (ties : ∀ x, 0 ≤ sign x x)
    (compared : ∀ (a b : Node L dataType) rng, cmp dataType sortType a b rng =
      (sign (directed sortType (value a)) (directed sortType (value b)), rng))
    (chains : Chains memory.next list nodes) (enough : nodes.length ≤ fuel) (rng : L.Random) :
    SortsValues value sortType fuel memory list rng ↔
      ∀ left x right, memory.values value sortType nodes = left ++ x :: right →
        FindsPlace sign left x := by
  obtain ⟨after, run, chains', kept, -, -⟩ := sortBy_ok (compare memory sortType) chains enough rng
  let bySign : InsertionSort.Comparison K L.Random := fun x y rng => (sign x y, rng)
  have known : compare memory sortType = fun a b =>
      bySign (directed sortType (value (memory.node a)))
        (directed sortType (value (memory.node b))) := by
    funext a b rng
    exact compared (memory.node a) (memory.node b) rng
  have placed :=
    (sort_map (fun node => directed sortType (value (memory.node node))) bySign nodes rng).1
  rw [← known] at placed
  rw [← sort_sorted_iff (fun _ _ _ => rfl) ties (memory.values value sortType nodes) rng,
    Memory.values, ← placed]
  constructor
  · rintro ⟨after', nodes', run', chains'', ordered⟩
    have same : after = after' := Except.ok.inj (run.symm.trans run')
    subst same
    rw [← chains'.path.unique chains''.path, inOrder, kept, List.map_map] at ordered
    exact ordered
  · intro ordered
    refine ⟨after, _, run, chains', (inOrder _).mpr ?_⟩
    rw [kept, List.map_map]
    exact ordered

end

theorem inOrder_iff {K : Type} [AddCommGroup K] [LinearOrder K] [IsOrderedAddMonoid K]
    (asked : sortType ≠ .rand) (values : List K) :
    InOrder sortType values ↔ (values.map (directed sortType)).Pairwise (· ≤ ·) := by
  rw [List.pairwise_map]
  cases sortType with
  | rand => exact absurd rfl asked
  | inc => exact Iff.rfl
  | dec => simp only [InOrder, directed, neg_le_neg_iff, ge_iff_le]

/-! Integers -/

/-- `a - b` of two `int`s, which wraps. -/
def wrapped (x y : Int) : Int := (x - y).bmod (2 ^ 32)

/-- No difference that decides the place of `x` wraps: not that from a value above it, nor that
from the nearest below. -/
structure InReach (before : List Int) (x : Int) : Prop where
  above : ∀ y ∈ before, x < y → y - x < 2 ^ 31
  below : ∀ y ∈ before, y < x → (∀ z ∈ before, z < x → z ≤ y) → x - y ≤ 2 ^ 31

theorem int_compared (asked : sortType ≠ .rand) (a b : Node L .int) (rng : L.Random) :
    cmp .int sortType a b rng =
      (wrapped (directed sortType a.int.toInt) (directed sortType b.int.toInt), rng) := by
  cases sortType with
  | rand => exact absurd rfl asked
  | inc => exact congrArg (·, rng) (Int32.toInt_sub a.int b.int)
  | dec =>
      refine congrArg (·, rng) ((Int32.toInt_sub b.int a.int).trans ?_)
      simp only [wrapped, directed]
      congr 1
      omega

theorem wrapped_sign {x y : Int} (near : -2 ^ 32 < y - x ∧ y - x < 2 ^ 32) :
    (x < y → (0 ≤ wrapped y x ↔ y - x < 2 ^ 31)) ∧
      (y < x → (wrapped y x < 0 ↔ x - y ≤ 2 ^ 31)) := by
  unfold wrapped
  rw [Int.bmod_def]
  omega

theorem findsPlace_wrapped {before : List Int} {x : Int}
    (near : ∀ y ∈ before, -2 ^ 32 < y - x ∧ y - x < 2 ^ 32) :
    FindsPlace wrapped before x ↔ InReach before x := by
  constructor
  · rintro ⟨above, below⟩
    refine ⟨fun y member less => ?_, fun y member less nearest => ?_⟩
    · exact ((wrapped_sign (near y member)).1 less).mp (above y member less)
    · exact ((wrapped_sign (near y member)).2 less).mp (below y member less nearest)
  · rintro ⟨above, below⟩
    refine ⟨fun y member less => ?_, fun y member less nearest => ?_⟩
    · exact ((wrapped_sign (near y member)).1 less).mpr (above y member less)
    · exact ((wrapped_sign (near y member)).2 less).mpr (below y member less nearest)

/-- Two `int`s, or their negations, are less than 2 ^ 32 apart. -/
theorem directed_near (sortType : SortType) (a b : Int32) :
    -2 ^ 32 < directed sortType a.toInt - directed sortType b.toInt ∧
      directed sortType a.toInt - directed sortType b.toInt < 2 ^ 32 := by
  have lowA := a.le_toInt
  have highA := a.toInt_lt
  have lowB := b.le_toInt
  have highB := b.toInt_lt
  cases sortType <;> simp only [directed] <;> omega

/-- Integers are sorted exactly when no difference that decides a place wraps. -/
theorem ints_sorted_iff {memory : Memory ν L .int} (asked : sortType ≠ .rand)
    (chains : Chains memory.next list nodes) (enough : nodes.length ≤ fuel) (rng : L.Random) :
    SortsValues (fun node => node.int.toInt) sortType fuel memory list rng ↔
      ∀ left x right,
        memory.values (fun node => node.int.toInt) sortType nodes = left ++ x :: right →
          InReach left x := by
  rw [sortsValues_iff (inOrder_iff asked) wrapped (fun x => by simp [wrapped])
    (int_compared asked) chains enough rng]
  refine forall₄_congr fun left x right same => findsPlace_wrapped fun y member => ?_
  obtain ⟨a, b, rfl, rfl⟩ := Memory.values_before same member
  exact directed_near sortType (memory.node a).int (memory.node b).int

/-- A chain of two nodes. -/
def pairNext (i : Nat) : Option Nat := if i = 0 then some 1 else none

def pair (first second : Data L dataType) : Memory Nat L dataType :=
  ⟨fun i => ⟨bytes "key", if i = 0 then first else second⟩, pairNext⟩

theorem pair_chains : Chains pairNext ⟨some 0, 2⟩ [0, 1] := ⟨⟨rfl, rfl, rfl⟩, rfl⟩

/-- The least and the greatest `int`. -/
def extremes : Memory Nat wholeLibc .int :=
  pair (show Int32 from -2147483648) (show Int32 from 2147483647)

theorem extremes_chains : Chains extremes.next ⟨some 0, 2⟩ [0, 1] := pair_chains

theorem ints_sorted_iff_extremes :
    SortsValues (fun node => node.int.toInt) .inc 2 extremes ⟨some 0, 2⟩ () ↔
      ∀ left x right,
        extremes.values (fun node => node.int.toInt) .inc [0, 1] = left ++ x :: right →
          InReach left x :=
  ints_sorted_iff (by decide) extremes_chains (by decide) ()

/-- The difference wraps to 1, and the greatest is put before the least. -/
theorem extremes_unsorted :
    Chains extremes.next ⟨some 0, 2⟩ [0, 1] ∧
      ¬ SortsValues (fun node => node.int.toInt) .inc 2 extremes ⟨some 0, 2⟩ () := by
  refine ⟨extremes_chains, fun sorts => ?_⟩
  have finds := (sortsValues_iff (inOrder_iff (by decide)) wrapped (fun x => by simp [wrapped])
    (int_compared (by decide)) extremes_chains (by decide) ()).mp sorts [-2147483648] 2147483647 []
    (by decide +kernel)
  have stays := finds.below (-2147483648) List.mem_cons_self (by decide)
    fun z member _ => (List.mem_singleton.mp member).le
  exact absurd stays (by decide)

/-! Doubles -/

/-- A rational, cut to an `int` towards zero. -/
def truncated (q : ℚ) : Int32 := Int32.ofInt (q.num.tdiv q.den)

/-- The doubles are exact numbers, and a comparison returns their difference cut to an `int`. -/
structure ExactDoubles (L : Libc) (value : L.Double → ℚ) : Prop where
  small : ∀ a, |value a| < 2 ^ 30
  difference : ∀ a b, L.difference a b = (truncated (value a - value b)).toInt

/-- `*(double *)node->data` -/
def Node.double (node : Node L .double) : L.Double := node.data

theorem tdiv_nonneg {num den : Int} (positive : 0 < den) (low : -2 ^ 31 * den < num)
    (high : num < 2 ^ 31 * den) :
    0 ≤ (Int32.ofInt (num.tdiv den)).toInt ↔ -den < num := by
  by_cases sign : 0 ≤ num
  · have value := Int.tdiv_eq_ediv_of_nonneg (b := den) sign
    have above := Int.ediv_nonneg sign positive.le
    have below := Int.ediv_lt_of_lt_mul positive high
    rw [value, Int32.toInt_ofInt_of_le (by omega) (by omega)]
    omega
  · have value : num.tdiv den = -(-num / den) := by
      rw [← Int.tdiv_eq_ediv_of_nonneg (show 0 ≤ -num by omega), Int.neg_tdiv, Int.neg_neg]
    have above := Int.ediv_nonneg (show 0 ≤ -num by omega) positive.le
    have below := Int.ediv_lt_of_lt_mul positive (show -num < 2 ^ 31 * den by omega)
    have zero : -num / den < 1 ↔ -num < 1 * den := Int.ediv_lt_iff_lt_mul positive
    rw [value, Int32.toInt_ofInt_of_le (by omega) (by omega)]
    omega

/-- A truncated difference of small numbers is negative only from -1 down. -/
theorem truncated_nonneg {q : ℚ} (small : |q| < 2 ^ 31) : 0 ≤ (truncated q).toInt ↔ -1 < q := by
  have positive : (0 : ℚ) < q.den := Nat.cast_pos.mpr q.pos
  have whole : q * q.den = q.num := Rat.mul_den_eq_num q
  obtain ⟨low, high⟩ := abs_lt.mp small
  have low' : -2 ^ 31 * (q.den : ℤ) < q.num := by
    have scaled := mul_lt_mul_of_pos_right low positive
    rw [whole] at scaled
    exact_mod_cast scaled
  have high' : q.num < 2 ^ 31 * (q.den : ℤ) := by
    have scaled := mul_lt_mul_of_pos_right high positive
    rw [whole] at scaled
    exact_mod_cast scaled
  have unit : -1 < q ↔ -(q.den : ℤ) < q.num := by
    rw [← mul_lt_mul_iff_of_pos_right positive, whole, neg_one_mul]
    exact_mod_cast Iff.rfl
  rw [unit, truncated]
  exact tdiv_nonneg (by exact_mod_cast q.pos) low' high'

section

variable {value : L.Double → ℚ} (exact : ExactDoubles L value)
include exact

theorem double_compared (asked : sortType ≠ .rand) (a b : Node L .double) (rng : L.Random) :
    cmp .double sortType a b rng =
      ((truncated (directed sortType (value (Node.double a)) -
        directed sortType (value (Node.double b)))).toInt, rng) := by
  cases sortType with
  | rand => exact absurd rfl asked
  | inc => exact congrArg (·, rng) (exact.difference _ _)
  | dec =>
      refine congrArg (·, rng) ((exact.difference _ _).trans ?_)
      rw [directed, directed, neg_sub_neg]
      rfl

theorem directed_small (sortType : SortType) (a b : L.Double) :
    |directed sortType (value a) - directed sortType (value b)| < 2 ^ 31 := by
  obtain ⟨lowA, highA⟩ := abs_lt.mp (exact.small a)
  obtain ⟨lowB, highB⟩ := abs_lt.mp (exact.small b)
  rw [abs_lt]
  cases sortType <;> simp only [directed] <;> constructor <;> linarith

end

theorem findsPlace_truncated {before : List ℚ} {x : ℚ}
    (near : ∀ y ∈ before, |y - x| < 2 ^ 31) :
    FindsPlace (fun x y => (truncated (x - y)).toInt) before x ↔
      ∀ y ∈ before, y < x → y + 1 ≤ x := by
  constructor
  · intro finds y member less
    obtain ⟨z, inside, below, above, nearest⟩ := exists_nearest before member less
    have stays := finds.below z inside below nearest
    have far : ¬ -1 < z - x := fun close =>
      absurd ((truncated_nonneg (near z inside)).mpr close) (by omega)
    linarith
  · intro apart
    refine ⟨fun y member greater => ?_, fun y member less _ => ?_⟩
    · exact (truncated_nonneg (near y member)).mpr (by linarith)
    · have far : ¬ -1 < y - x := by linarith [apart y member less]
      by_contra stays
      exact far ((truncated_nonneg (near y member)).mp (by omega))

/-- What holds of each value and those before it holds of each pair. -/
theorem forall_before_iff {K : Type} {r : K → K → Prop} (values : List K) :
    (∀ left x right, values = left ++ x :: right → ∀ y ∈ left, r y x) ↔ values.Pairwise r := by
  constructor
  · intro before
    induction values using List.reverseRecOn with
    | nil => exact .nil
    | append_singleton values x ih =>
        rw [List.pairwise_append]
        refine ⟨ih fun left y right same => ?_, List.pairwise_singleton r x, ?_⟩
        · exact before left y (right ++ [x]) (by rw [same]; simp)
        · intro y member z last
          rw [List.mem_singleton.mp last]
          exact before values x [] rfl y member
  · rintro pairs left x right rfl y member
    exact (List.pairwise_append.mp pairs).2.2 y member x List.mem_cons_self

/-- Doubles are sorted exactly when an earlier value that is below a later one, in the direction
of the sort, is at least one below it. -/
theorem doubles_sorted_iff {value : L.Double → ℚ} (exact : ExactDoubles L value)
    {memory : Memory ν L .double} (asked : sortType ≠ .rand)
    (chains : Chains memory.next list nodes) (enough : nodes.length ≤ fuel) (rng : L.Random) :
    SortsValues (fun node => value (Node.double node)) sortType fuel memory list rng ↔
      (memory.values (fun node => value (Node.double node)) sortType nodes).Pairwise
        fun y x => y < x → y + 1 ≤ x := by
  have zero : truncated 0 = 0 := by decide +kernel
  rw [sortsValues_iff (inOrder_iff asked) (fun x y => (truncated (x - y)).toInt)
    (fun x => by simp [zero]) (double_compared exact asked) chains enough rng, ← forall_before_iff]
  refine forall₄_congr fun left x right same => findsPlace_truncated fun y member => ?_
  obtain ⟨a, b, rfl, rfl⟩ := Memory.values_before same member
  exact directed_small exact sortType (Node.double (memory.node a)) (Node.double (memory.node b))

/-- Exact doubles; the texts hold whole numbers. -/
def exactLibc : Libc where
  Double := {q : ℚ // |q| < 2 ^ 30}
  atof text :=
    if small : |(strtol text : ℚ)| < 2 ^ 30 then ⟨strtol text, small⟩ else ⟨0, by norm_num⟩
  lf value := decimal (value.val.num.tdiv value.val.den) ++ bytes ".000000"
  difference a b := (truncated (a.val - b.val)).toInt
  Random := Unit
  rand _ := (0, ())

def exactValue (a : exactLibc.Double) : ℚ := Subtype.val (show {q : ℚ // |q| < 2 ^ 30} from a)

theorem exactLibc_exact : ExactDoubles exactLibc exactValue where
  small a := Subtype.property (show {q : ℚ // |q| < 2 ^ 30} from a)
  difference _ _ := rfl

/-- 0 and 1/2 -/
def halves : Memory Nat exactLibc .double :=
  pair (show {q : ℚ // |q| < 2 ^ 30} from ⟨0, by norm_num⟩)
    (show {q : ℚ // |q| < 2 ^ 30} from ⟨1 / 2, by norm_num [abs_lt]⟩)

theorem halves_chains : Chains halves.next ⟨some 0, 2⟩ [0, 1] := pair_chains

theorem doubles_sorted_iff_halves :
    SortsValues (fun node => exactValue (Node.double node)) .inc 2 halves ⟨some 0, 2⟩ () ↔
      (halves.values (fun node => exactValue (Node.double node)) .inc [0, 1]).Pairwise
        fun y x => y < x → y + 1 ≤ x :=
  doubles_sorted_iff exactLibc_exact (by decide) halves_chains (by decide) ()

/-- The difference is cut to 0, and the greater is put first. -/
theorem halves_unsorted :
    Chains halves.next ⟨some 0, 2⟩ [0, 1] ∧
      ¬ SortsValues (fun node => exactValue (Node.double node)) .inc 2 halves ⟨some 0, 2⟩ () := by
  have cut : (truncated (0 - 1 / 2)).toInt = 0 := by decide +kernel
  have zero : truncated 0 = 0 := by decide +kernel
  refine ⟨halves_chains, fun sorts => ?_⟩
  have finds := (sortsValues_iff (inOrder_iff (by decide))
    (fun x y => (truncated (x - y)).toInt) (fun x => by simp [zero])
    (double_compared exactLibc_exact (by decide)) halves_chains (by decide) ()).mp sorts [0] (1 / 2)
      [] rfl
  have stays := finds.below 0 List.mem_cons_self (by norm_num)
    fun z member _ => (List.mem_singleton.mp member).le
  exact absurd stays (by rw [cut]; decide)

/-! Strings -/

/-- `a` may stand before `b`. -/
def stringBefore (memory : Memory ν L .char) (sortType : SortType) (a b : ν) : Bool :=
  match sortType with
  | .dec => strcmp (memory.node b).string (memory.node a).string ≤ 0
  | _ => strcmp (memory.node a).string (memory.node b).string ≤ 0

/-- `sorted` has the nodes in the order of their strings, and those with equal strings in the
order that they have in `ties`. -/
structure OrderedAs (memory : Memory ν L .char) (sortType : SortType) (nodes ties sorted : List ν) :
    Prop where
  perm : sorted.Perm nodes
  ordered : sorted.Pairwise fun a b => stringBefore memory sortType a b
  ties : ∀ x, (sorted.filter fun node =>
      strcmp (memory.node x).string (memory.node node).string = 0) =
    ties.filter fun node => strcmp (memory.node x).string (memory.node node).string = 0

omit [DecidableEq ν] in
theorem stringBefore_trans (memory : Memory ν L .char) (sortType : SortType) (a b c : ν)
    (first : stringBefore memory sortType a b = true)
    (second : stringBefore memory sortType b c = true) :
    stringBefore memory sortType a c = true := by
  cases sortType <;> simp only [stringBefore, decide_eq_true_eq] at first second ⊢
  · exact strcmp_trans first second
  · exact strcmp_trans first second
  · exact strcmp_trans second first

omit [DecidableEq ν] in
theorem stringBefore_total (memory : Memory ν L .char) (sortType : SortType) (a b : ν) :
    (stringBefore memory sortType a b || stringBefore memory sortType b a) = true := by
  have swapped := strcmp_swap (memory.node a).string (memory.node b).string
  cases sortType <;> simp only [stringBefore, Bool.or_eq_true, decide_eq_true_eq] <;> omega

omit [DecidableEq ν] in
theorem tied_string (memory : Memory ν L .char) (sortType : SortType) (a : ν) :
    tied (stringBefore memory sortType) a = fun b =>
      decide (strcmp (memory.node a).string (memory.node b).string = 0) := by
  funext b
  have swapped := strcmp_swap (memory.node a).string (memory.node b).string
  rw [Bool.eq_iff_iff]
  cases sortType <;> simp only [tied, stringBefore, Bool.and_eq_true, decide_eq_true_eq] <;> omega

omit [DecidableEq ν] in
theorem stringBefore_congr {memory memory' : Memory ν L .char} (sortType : SortType)
    (same : memory'.node = memory.node) :
    stringBefore memory' sortType = stringBefore memory sortType := by
  funext a b
  cases sortType <;> simp only [stringBefore, same]

omit [DecidableEq ν] in
theorem compare_decides (memory : Memory ν L .char) (asked : sortType ≠ .rand) (a b : ν)
    (rng : L.Random) :
    0 ≤ (compare memory sortType a b rng).1 ↔ stringBefore memory sortType b a = true := by
  have swapped := strcmp_swap (memory.node a).string (memory.node b).string
  cases sortType with
  | rand => exact absurd rfl asked
  | inc =>
      simp only [compare, cmp, charInc, stringBefore, decide_eq_true_eq]
      omega
  | dec =>
      simp only [compare, cmp, charDec, charInc, stringBefore, decide_eq_true_eq]
      omega

omit [DecidableEq ν] in
/-- There is only one such order. -/
theorem OrderedAs.unique {memory : Memory ν L .char} {ties left right : List ν}
    (ordered : OrderedAs memory sortType nodes ties left)
    (ordered' : OrderedAs memory sortType nodes ties right) : left = right := by
  apply eq_of_ties (stringBefore_total memory sortType) ordered.ordered ordered'.ordered
  intro x
  rw [tied_string]
  exact (ordered.ties x).trans (ordered'.ties x).symm

omit [DecidableEq ν] in
/-- The stable sort of the nodes in some order. -/
theorem orderedAs_mergeSort (memory : Memory ν L .char) (sortType : SortType) {ties : List ν}
    (perm : ties.Perm nodes) :
    OrderedAs memory sortType nodes ties (ties.mergeSort (stringBefore memory sortType)) where
  perm := (List.mergeSort_perm ties _).trans perm
  ordered := List.pairwise_mergeSort (stringBefore_trans memory sortType)
    (stringBefore_total memory sortType) ties
  ties x := by
    rw [← tied_string memory sortType]
    exact mergeSort_ties (stringBefore_trans memory sortType)
      (stringBefore_total memory sortType) ties x

/-- One sort of strings. -/
theorem sort_strings {memory memory' : Memory ν L .char} (same : memory'.node = memory.node)
    (asked : sortType ≠ .rand) {list : Header ν} {nodes : List ν}
    (chains : Chains memory'.next list nodes) (enough : nodes.length ≤ fuel) (rng : L.Random) :
    ∃ after : Outcome ν L .char L.Random, sort sortType fuel memory' list rng = .ok after ∧
      Chains after.memory.next after.list
        (nodes.reverse.mergeSort (stringBefore memory sortType)) ∧
      after.memory.node = memory.node := by
  obtain ⟨after, run, chains', kept, -, -⟩ :=
    sortBy_ok (compare memory' sortType) chains enough rng
  rw [sort_eq_mergeSort (stringBefore_trans memory' sortType)
    (stringBefore_total memory' sortType) (compare_decides memory' asked),
    stringBefore_congr sortType same] at chains'
  exact ⟨after, run, chains', kept.trans same⟩

/-- A sort orders the strings and turns the order of equal ones around, so that the next sort
gives the stable one and the third the first again. -/
theorem strings_sorted (memory : Memory ν L .char) (asked : sortType ≠ .rand)
    (chains : Chains memory.next list nodes) (enough : nodes.length ≤ fuel) (rng : L.Random) :
    ∃ once twice : List ν,
      OrderedAs memory sortType nodes nodes.reverse once ∧
      (∀ other, OrderedAs memory sortType nodes nodes.reverse other → other = once) ∧
      OrderedAs memory sortType nodes nodes twice ∧
      ∃ first second third : Outcome ν L .char L.Random,
        (sort sortType fuel memory list rng = .ok first ∧
          Chains first.memory.next first.list once ∧ first.memory.node = memory.node) ∧
        (sort sortType fuel first.memory first.list first.rng = .ok second ∧
          Chains second.memory.next second.list twice ∧ second.memory.node = memory.node) ∧
        (sort sortType fuel second.memory second.list second.rng = .ok third ∧
          Chains third.memory.next third.list once ∧ third.memory.node = memory.node) := by
  have once := orderedAs_mergeSort memory sortType (List.reverse_perm nodes)
  have twice := orderedAs_mergeSort memory sortType (List.Perm.refl nodes)
  have turn := mergeSort_reverse_mergeSort (stringBefore_trans memory sortType)
    (stringBefore_total memory sortType)
  have enough' : (nodes.reverse.mergeSort (stringBefore memory sortType)).length ≤ fuel := by
    rw [once.perm.length_eq]
    exact enough
  have enough'' : (nodes.mergeSort (stringBefore memory sortType)).length ≤ fuel := by
    rw [twice.perm.length_eq]
    exact enough
  obtain ⟨first, run, chained, kept⟩ := sort_strings rfl asked chains enough rng
  obtain ⟨second, run', chained', kept'⟩ := sort_strings kept asked chained enough' first.rng
  rw [turn, List.reverse_reverse] at chained'
  obtain ⟨third, run'', chained'', kept''⟩ :=
    sort_strings kept' asked chained' enough'' second.rng
  rw [turn] at chained''
  exact ⟨_, _, once, fun other ordered => ordered.unique once, twice, first, second, third,
    ⟨run, chained, kept⟩, ⟨run', chained', kept'⟩, run'', chained'', kept''⟩

def twoStrings : Memory Nat wholeLibc .char := pair (bytes "b") (bytes "a")

theorem twoStrings_chains : Chains twoStrings.next ⟨some 0, 2⟩ [0, 1] := pair_chains

theorem strings_sorted_two :
    ∃ once twice : List Nat,
      OrderedAs twoStrings .inc [0, 1] [0, 1].reverse once ∧
      (∀ other, OrderedAs twoStrings .inc [0, 1] [0, 1].reverse other → other = once) ∧
      OrderedAs twoStrings .inc [0, 1] [0, 1] twice ∧
      ∃ first second third : Outcome Nat wholeLibc .char Unit,
        (sort .inc 2 twoStrings ⟨some 0, 2⟩ () = .ok first ∧
          Chains first.memory.next first.list once ∧ first.memory.node = twoStrings.node) ∧
        (sort .inc 2 first.memory first.list first.rng = .ok second ∧
          Chains second.memory.next second.list twice ∧ second.memory.node = twoStrings.node) ∧
        (sort .inc 2 second.memory second.list second.rng = .ok third ∧
          Chains third.memory.next third.list once ∧ third.memory.node = twoStrings.node) :=
  strings_sorted twoStrings (by decide) twoStrings_chains (by decide) ()

end Ve482.KeyValue.Pointers
