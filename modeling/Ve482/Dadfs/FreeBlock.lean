import Ve482.Dadfs.Effects

set_option autoImplicit false

namespace Ve482.Dadfs

open EStateM (Result)

/-- What `dadfs_sb_get_a_freeblock` is for: the lowest free block from 3 on leaves the map,
or there is none. -/
structure HandsOut (before : Fs) (ret : Except Int Nat) (after : Fs) : Prop where
  answers : (∃ block, ret = .ok block) ∨ ret = .error (-enospc)
  block : ∀ block, ret = .ok block →
    3 ≤ block ∧ block < 64 ∧
      (∀ k, 3 ≤ k → k < block → before.super.freeBlocks.getLsbD k = false) ∧
      RemovesExactly before.super.freeBlocks after.super.freeBlocks block
  noSpace : (ret = .error (-enospc) ∧ after = before) ↔
    ∀ k, 3 ≤ k → k < 64 → before.super.freeBlocks.getLsbD k = false

/-- The call returned, with the block it should hand out. -/
def HandsOutBlock (before : Fs) : Result Stuck Fs (Except Int Nat) → Prop
  | .ok ret after => HandsOut before ret after
  | .error _ _ => False

/-- Over the indices 3 to 63 the shift counts come back to 0, 1 and 2, so that the loop
looks at all 64 bits. -/
theorem firstFree_eq_64_iff (freeBlocks : BitVec 64) :
    firstFree freeBlocks = 64 ↔ freeBlocks = 0 := by
  obtain ⟨-, -, clear, hit⟩ := findFree_spec freeBlocks (maxFilesystemObjectsSupported - 3) 3
  constructor
  · intro full
    change findFree freeBlocks (maxFilesystemObjectsSupported - 3) 3 = 64 at full
    rw [full] at clear
    apply BitVec.eq_of_getLsbD_eq
    intro k inside
    rw [show (0 : BitVec 64).getLsbD k = false from BitVec.getLsbD_zero]
    rcases Nat.lt_or_ge k 3 with low | lower
    · exact clear_of_masked_zero inside (clear (k + 32) (by omega) (by omega))
        (by split <;> omega)
    · rcases Nat.lt_or_ge k 31 with small | high
      · exact clear_of_masked_zero inside (clear k lower inside) (by split <;> omega)
      · exact clear_of_masked_zero inside (clear 31 (by decide) (by decide))
          (by rw [if_pos (by decide)]; exact high)
  · intro empty
    subst empty
    by_contra found
    obtain ⟨-, -, -, set⟩ := firstFree_spec 0 found
    exact set BitVec.zero_and

theorem lowFree_found {freeBlocks : BitVec 64} (low : LowFree freeBlocks) :
    firstFree freeBlocks ≠ 64 := by
  intro full
  have empty := (firstFree_eq_64_iff freeBlocks).mp full
  subst empty
  rcases low with ⟨k, -, -, free⟩ | ⟨free, -⟩
  · rw [show (0 : BitVec 64).getLsbD k = false from BitVec.getLsbD_zero] at free
    cases free
  · rw [show (0 : BitVec 64).getLsbD 31 = false from BitVec.getLsbD_zero] at free
    cases free

/-- The block that is found lies below 32 when the shift did no harm, and every index before
it is a bit of its own. -/
theorem firstFree_smallest {freeBlocks : BitVec 64} (low : LowFree freeBlocks) (k : Nat)
    (lower : 3 ≤ k) (before : k < firstFree freeBlocks) : freeBlocks.getLsbD k = false := by
  obtain ⟨-, inside, clear, -⟩ := firstFree_spec freeBlocks (lowFree_found low)
  have below : firstFree freeBlocks ≤ 31 := by
    rcases low with ⟨j, from_three, small, free⟩ | ⟨free, -⟩
    · exact Nat.le_of_lt (firstFree_lt_31 freeBlocks from_three small free)
    · by_contra high
      have zero := clear 31 (by decide) (by omega)
      rw [clear_of_masked_zero (by decide) zero (by decide)] at free
      cases free
  exact clear_of_masked_zero (by omega) (clear k lower before) (by split <;> omega)

theorem LowFree.some_free {freeBlocks : BitVec 64} (low : LowFree freeBlocks) :
    ∃ k, 3 ≤ k ∧ k < 64 ∧ freeBlocks.getLsbD k = true := by
  rcases low with ⟨k, lower, small, free⟩ | ⟨free, -⟩
  · exact ⟨k, lower, by omega, free⟩
  · exact ⟨31, by decide, by decide, free⟩

theorem takeBlock_handsOut_iff (fs : Fs) (found : firstFree fs.super.freeBlocks ≠ 64) :
    HandsOut fs (.ok (firstFree fs.super.freeBlocks)) (fs.takeBlock (firstFree fs.super.freeBlocks)) ↔
      LowFree fs.super.freeBlocks := by
  have removes := removesExactly_iff fs.super.freeBlocks found
  constructor
  · intro handsOut
    exact removes.mp (handsOut.block _ rfl).2.2.2
  · intro low
    obtain ⟨lower, inside, -, -⟩ := firstFree_spec fs.super.freeBlocks found
    refine ⟨.inl ⟨_, rfl⟩, ?_, ?_⟩
    · intro block same
      cases same
      exact ⟨lower, inside, firstFree_smallest low, removes.mpr low⟩
    · refine iff_of_false (fun failed => by cases failed.1) fun clear => ?_
      obtain ⟨k, from_three, below, free⟩ := low.some_free
      rw [clear k from_three below] at free
      cases free

theorem refused_handsOut (fs : Fs) (empty : fs.super.freeBlocks = 0) :
    HandsOut fs (.error (-enospc)) fs := by
  refine ⟨.inr rfl, ?_, iff_of_true ⟨rfl, rfl⟩ fun k _ _ => ?_⟩
  · intro block same
    cases same
  · rw [empty]
    exact BitVec.getLsbD_zero

/-- For every map: the right block is handed out exactly when a block below 31 is free, or
block 31 is and no later one, or when all 64 bits are clear. -/
theorem getAFreeblock_handsOut_iff (fs : Fs) (free : fs.held .sb = false) :
    HandsOutBlock fs ((dadfsSbGetAFreeblock false).run fs) ↔
      LowFree fs.super.freeBlocks ∨ fs.super.freeBlocks = 0 := by
  rw [dadfsSbGetAFreeblock_run, if_neg Bool.false_ne_true, free, if_neg Bool.false_ne_true]
  by_cases full : firstFree fs.super.freeBlocks = maxFilesystemObjectsSupported
  · have empty := (firstFree_eq_64_iff fs.super.freeBlocks).mp full
    rw [if_pos full]
    exact iff_of_true (refused_handsOut fs empty) (.inr empty)
  · rw [if_neg full]
    refine (takeBlock_handsOut_iff fs full).trans ⟨.inl, ?_⟩
    rintro (low | empty)
    · exact low
    · exact absurd ((firstFree_eq_64_iff _).mpr empty) full

/-- A freshly made image whose free map is as given. -/
def withFreeBlocks (freeBlocks : BitVec 64) : Fs :=
  (mounted (mkfs freeBlocks zeroDevice) rootInode).fs

theorem getAFreeblock_handsOut_fresh :
    HandsOutBlock (withFreeBlocks mkfsFreeBlocks)
        ((dadfsSbGetAFreeblock false).run (withFreeBlocks mkfsFreeBlocks)) ↔
      LowFree mkfsFreeBlocks ∨ mkfsFreeBlocks = 0 :=
  getAFreeblock_handsOut_iff (withFreeBlocks mkfsFreeBlocks) rfl

/-- Only block 40 is free, and block 31 is handed out. -/
theorem block_40_missed :
    ¬ HandsOutBlock (withFreeBlocks (1#64 <<< 40))
      ((dadfsSbGetAFreeblock false).run (withFreeBlocks (1#64 <<< 40))) := by
  intro handsOut
  have block := handsOut.block 31 (by decide +kernel)
  exact absurd block.2.2.2.1 (by decide)

end Ve482.Dadfs
