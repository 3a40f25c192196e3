import Ve482.Dadfs.Create
import Mathlib.Data.BitVec

set_option autoImplicit false

namespace Ve482.Dadfs

/-- A shift by 31 sets the sign bit, which the conversion copies to all higher bits. -/
theorem shiftMask_getLsbD (i k : Nat) (inside : k < 64) :
    (shiftMask i).getLsbD k = decide (if i % 32 = 31 then 31 ≤ k else k = i % 32) := by
  have low : i % 32 < 32 := Nat.mod_lt _ (by decide)
  have bit (j : Nat) (small : j < 32) :
      ((1#32) <<< (i % 32)).getLsbD j = decide (j = i % 32) := by
    simp only [BitVec.getLsbD_shiftLeft, small, decide_true, Bool.true_and, BitVec.getLsbD_one,
      show 0 < 32 by decide]
    by_cases below : j < i % 32
    · simp [below]
      omega
    · simp only [below, decide_false, Bool.not_false, Bool.true_and, decide_eq_decide]
      omega
  have sign : ((1#32) <<< (i % 32)).msb = decide (i % 32 = 31) := by
    rw [BitVec.msb_eq_getLsbD_last, bit 31 (by decide)]
    simp only [decide_eq_decide]
    omega
  unfold shiftMask
  rw [BitVec.getLsbD_signExtend, sign]
  by_cases small : k < 32
  · rw [if_pos small, bit k small]
    simp only [inside, decide_true, Bool.true_and, decide_eq_decide]
    split <;> omega
  · rw [if_neg small]
    simp only [inside, decide_true, Bool.true_and, decide_eq_decide]
    split <;> omega

theorem shiftMask_low (i k : Nat) (low : i < 31) (inside : k < 64) :
    (shiftMask i).getLsbD k = decide (k = i) := by
  have small : i % 32 = i := Nat.mod_eq_of_lt (by omega)
  have other : ¬ i = 31 := by omega
  simp only [shiftMask_getLsbD i k inside, small, other, ↓reduceIte]

theorem shiftMask_31 (k : Nat) (inside : k < 64) :
    (shiftMask 31).getLsbD k = decide (31 ≤ k) :=
  shiftMask_getLsbD 31 k inside

theorem masked_ne_zero_iff (freeBlocks mask : BitVec 64) :
    freeBlocks &&& mask ≠ 0 ↔
      ∃ k, k < 64 ∧ freeBlocks.getLsbD k = true ∧ mask.getLsbD k = true := by
  constructor
  · intro nonzero
    by_contra absent
    apply nonzero
    apply BitVec.eq_of_getLsbD_eq
    intro k inside
    have clear : ¬ (freeBlocks.getLsbD k && mask.getLsbD k) = true := by
      intro both
      rw [Bool.and_eq_true] at both
      exact absent ⟨k, inside, both.1, both.2⟩
    rw [BitVec.getLsbD_and, eq_false_of_ne_true clear]
    exact BitVec.getLsbD_zero.symm
  · rintro ⟨k, inside, left, right⟩ zero
    have bit := congrArg (BitVec.getLsbD · k) zero
    simp [left, right] at bit

theorem findFree_spec (freeBlocks : BitVec 64) (fuel start : Nat) :
    start ≤ findFree freeBlocks fuel start ∧
      findFree freeBlocks fuel start ≤ start + fuel ∧
      (∀ i, start ≤ i → i < findFree freeBlocks fuel start → freeBlocks &&& shiftMask i = 0) ∧
      (findFree freeBlocks fuel start < start + fuel →
        freeBlocks &&& shiftMask (findFree freeBlocks fuel start) ≠ 0) := by
  induction fuel generalizing start with
  | zero =>
      refine ⟨Nat.le_refl _, Nat.le_refl _, ?_, ?_⟩
      · intro i lower upper
        simp only [findFree] at upper
        omega
      · intro below
        simp only [findFree] at below
        omega
  | succ fuel ih =>
      unfold findFree
      split
      · rename_i free
        exact ⟨Nat.le_refl _, by omega, fun i lower upper => by omega, fun _ => free⟩
      · rename_i used
        obtain ⟨lower, upper, clear, hit⟩ := ih (start + 1)
        refine ⟨by omega, by omega, ?_, fun below => hit (by omega)⟩
        intro i from_start before
        by_cases first : i = start
        · subst first
          exact not_not.mp used
        · exact clear i (by omega) before

/-- What the loop of `dadfs_sb_get_a_freeblock` finds. -/
theorem firstFree_spec (freeBlocks : BitVec 64) (found : firstFree freeBlocks ≠ 64) :
    3 ≤ firstFree freeBlocks ∧ firstFree freeBlocks < 64 ∧
      (∀ i, 3 ≤ i → i < firstFree freeBlocks → freeBlocks &&& shiftMask i = 0) ∧
      freeBlocks &&& shiftMask (firstFree freeBlocks) ≠ 0 := by
  obtain ⟨lower, upper, clear, hit⟩ :=
    findFree_spec freeBlocks (maxFilesystemObjectsSupported - 3) 3
  change 3 ≤ firstFree freeBlocks at lower
  change firstFree freeBlocks ≤ 64 at upper
  exact ⟨lower, by omega, clear, hit (show firstFree freeBlocks < 64 by omega)⟩

theorem clear_of_masked_zero {freeBlocks : BitVec 64} {i k : Nat} (inside : k < 64)
    (zero : freeBlocks &&& shiftMask i = 0)
    (covered : if i % 32 = 31 then 31 ≤ k else k = i % 32) : freeBlocks.getLsbD k = false := by
  have bit := congrArg (BitVec.getLsbD · k) zero
  simpa [shiftMask_getLsbD i k inside, covered] using bit

theorem getLsbD_unmask (freeBlocks : BitVec 64) (i k : Nat) (inside : k < 64) :
    (freeBlocks &&& ~~~shiftMask i).getLsbD k =
      (freeBlocks.getLsbD k && !(shiftMask i).getLsbD k) := by
  simp only [BitVec.getLsbD_and, BitVec.getLsbD_not, inside, decide_true, Bool.true_and]

/-- Handing out a block always changes the map. -/
theorem unmask_ne {freeBlocks : BitVec 64} {i : Nat} (hit : freeBlocks &&& shiftMask i ≠ 0) :
    freeBlocks &&& ~~~shiftMask i ≠ freeBlocks := by
  obtain ⟨k, inside, free, covered⟩ := (masked_ne_zero_iff ..).mp hit
  intro same
  have bit := congrArg (BitVec.getLsbD · k) same
  simp [getLsbD_unmask freeBlocks i k inside, free, covered] at bit

/-- The block is in the map before, and the map loses it and no other. -/
def RemovesExactly (before after : BitVec 64) (block : Nat) : Prop :=
  before.getLsbD block = true ∧
    ∀ k, k < 64 → after.getLsbD k = (before.getLsbD k && decide (k ≠ block))

/-- A free block below 31, or block 31 with nothing free above it: the maps for which
the 32-bit shift does no harm. -/
def LowFree (freeBlocks : BitVec 64) : Prop :=
  (∃ k, 3 ≤ k ∧ k < 31 ∧ freeBlocks.getLsbD k = true) ∨
    (freeBlocks.getLsbD 31 = true ∧ ∀ k, 32 ≤ k → k < 64 → freeBlocks.getLsbD k = false)

theorem firstFree_lt_31 (freeBlocks : BitVec 64) {k : Nat} (lower : 3 ≤ k) (upper : k < 31)
    (free : freeBlocks.getLsbD k = true) : firstFree freeBlocks < 31 := by
  obtain ⟨-, bound, clear, -⟩ := findFree_spec freeBlocks (maxFilesystemObjectsSupported - 3) 3
  by_contra high
  change ¬ findFree freeBlocks (maxFilesystemObjectsSupported - 3) 3 < 31 at high
  have zero := clear k lower (by omega)
  rw [clear_of_masked_zero (i := k) (by omega) zero (by split <;> omega)] at free
  cases free

theorem removesExactly_low (freeBlocks : BitVec 64) {b : Nat} (low : b < 31)
    (hit : freeBlocks &&& shiftMask b ≠ 0) :
    RemovesExactly freeBlocks (freeBlocks &&& ~~~shiftMask b) b := by
  obtain ⟨j, inside, set, covered⟩ := (masked_ne_zero_iff ..).mp hit
  rw [shiftMask_low b j low inside, decide_eq_true_eq] at covered
  subst covered
  refine ⟨set, fun k bound => ?_⟩
  simp [getLsbD_unmask freeBlocks j k bound, shiftMask_low j k low bound]

theorem removesExactly_iff (freeBlocks : BitVec 64) (found : firstFree freeBlocks ≠ 64) :
    RemovesExactly freeBlocks (freeBlocks &&& ~~~shiftMask (firstFree freeBlocks))
      (firstFree freeBlocks) ↔ LowFree freeBlocks := by
  obtain ⟨lower, upper, clear, hit⟩ := firstFree_spec freeBlocks found
  have below := @firstFree_lt_31 freeBlocks
  generalize firstFree freeBlocks = b at lower upper clear hit below
  constructor
  · rintro ⟨free, exact⟩
    by_cases low : b < 31
    · exact Or.inl ⟨b, lower, low, free⟩
    · have same : b = 31 := by
        by_contra other
        have zero := clear 31 (by decide) (by omega)
        rw [clear_of_masked_zero upper zero (by rw [if_pos (by decide)]; omega)] at free
        cases free
      subst same
      refine Or.inr ⟨free, fun k above inside => ?_⟩
      have bit := exact k inside
      have covered : 31 ≤ k := by omega
      have other : k ≠ 31 := by omega
      rw [getLsbD_unmask freeBlocks 31 k inside, shiftMask_31 k inside] at bit
      simpa [covered, other] using bit.symm
  · intro lowFree
    by_cases low : b < 31
    · exact removesExactly_low freeBlocks low hit
    rcases lowFree with ⟨k, from_three, small, free⟩ | ⟨free, above⟩
    · exact absurd (below from_three small free) low
    have same : b = 31 := by
      by_contra other
      have zero := clear 31 (by decide) (by omega)
      rw [clear_of_masked_zero (by decide) zero (by decide)] at free
      cases free
    subst same
    refine ⟨free, fun k inside => ?_⟩
    rw [getLsbD_unmask freeBlocks 31 k inside, shiftMask_31 k inside]
    by_cases high : 32 ≤ k
    · simp [above k high inside]
    · have covered : 31 ≤ k ↔ k = 31 := by omega
      simp [covered]

/-- The shape of the map once blocks 0 to 5 are marked used: the bits the 32-bit shift
cannot tell apart, 31 to 63, are all set or all clear. -/
structure Tracked (freeBlocks : BitVec 64) : Prop where
  reserved : ∀ k, k < 6 → freeBlocks.getLsbD k = false
  uniform : ∀ k, 31 ≤ k → k < 64 → freeBlocks.getLsbD k = freeBlocks.getLsbD 31

theorem Tracked.firstFree {freeBlocks : BitVec 64} (tracked : Tracked freeBlocks)
    (found : firstFree freeBlocks ≠ 64) :
    6 ≤ firstFree freeBlocks ∧ firstFree freeBlocks < 32 ∧
      freeBlocks.getLsbD (firstFree freeBlocks) = true := by
  obtain ⟨lower, upper, clear, hit⟩ := firstFree_spec freeBlocks found
  generalize Dadfs.firstFree freeBlocks = b at lower upper clear hit
  obtain ⟨k, inside, set, covered⟩ := (masked_ne_zero_iff ..).mp hit
  rcases Nat.lt_trichotomy b 31 with low | same | high
  · rw [shiftMask_low b k low inside, decide_eq_true_eq] at covered
    subst covered
    refine ⟨?_, by omega, set⟩
    by_contra small
    rw [tracked.reserved k (by omega)] at set
    cases set
  · subst same
    rw [shiftMask_31 k inside, decide_eq_true_eq] at covered
    exact ⟨by decide, by decide, (tracked.uniform k covered inside).symm.trans set⟩
  · -- every bit from 3 on is clear, and the others are reserved
    have empty : freeBlocks.getLsbD k = false := by
      by_cases small : k < 6
      · exact tracked.reserved k small
      · by_cases low : k < 31
        · exact clear_of_masked_zero inside (clear k (by omega) (by omega)) (by split <;> omega)
        · exact clear_of_masked_zero inside (clear 31 (by decide) high)
            (by rw [if_pos (by decide)]; omega)
    rw [empty] at set
    cases set

theorem getLsbD_unmask_self (freeBlocks : BitVec 64) {i : Nat} (low : i < 32) :
    (freeBlocks &&& ~~~shiftMask i).getLsbD i = false := by
  rw [getLsbD_unmask freeBlocks i i (by omega), shiftMask_getLsbD i i (by omega)]
  have covered : if i % 32 = 31 then 31 ≤ i else i = i % 32 := by split <;> omega
  simp [covered]

theorem Tracked.unmask {freeBlocks : BitVec 64} (tracked : Tracked freeBlocks) {i : Nat}
    (low : i < 32) : Tracked (freeBlocks &&& ~~~shiftMask i) := by
  constructor
  · intro k small
    rw [getLsbD_unmask freeBlocks i k (by omega), tracked.reserved k small, Bool.false_and]
  · intro k above inside
    rw [getLsbD_unmask freeBlocks i k inside, getLsbD_unmask freeBlocks i 31 (by decide),
      tracked.uniform k above inside]
    rcases Nat.lt_or_ge i 31 with below | high
    · have other : k ≠ i := by omega
      have last : 31 ≠ i := by omega
      rw [shiftMask_low i k below inside, shiftMask_low i 31 below (by decide),
        decide_eq_false other, decide_eq_false last]
    · have same : i = 31 := by omega
      subst same
      rw [shiftMask_31 k inside, shiftMask_31 31 (by decide), decide_eq_true above,
        decide_eq_true (Nat.le_refl 31)]

end Ve482.Dadfs
