import Ve482.Dadfs.Effects

set_option autoImplicit false

namespace Ve482.Dadfs

/-- The first index from `start` on that holds the number. -/
structure FirstSlot (inodes : Nat → Inode) (inodeNo start slot : Nat) : Prop where
  from_start : start ≤ slot
  hit : (inodes slot).inodeNo = inodeNo
  first : ∀ i, start ≤ i → i < slot → (inodes i).inodeNo ≠ inodeNo

theorem FirstSlot.head {inodes : Nat → Inode} {inodeNo start : Nat}
    (hit : (inodes start).inodeNo = inodeNo) : FirstSlot inodes inodeNo start start :=
  ⟨Nat.le_refl _, hit, fun i lower upper => by omega⟩

theorem FirstSlot.tail {inodes : Nat → Inode} {inodeNo start slot : Nat}
    (miss : (inodes start).inodeNo ≠ inodeNo) (found : FirstSlot inodes inodeNo (start + 1) slot) :
    FirstSlot inodes inodeNo start slot := by
  refine ⟨by have := found.from_start; omega, found.hit, fun i lower upper => ?_⟩
  by_cases same : i = start
  · exact same ▸ miss
  · exact found.first i (by omega) upper

theorem FirstSlot.unique {inodes : Nat → Inode} {inodeNo start slot other : Nat}
    (left : FirstSlot inodes inodeNo start slot) (right : FirstSlot inodes inodeNo start other) :
    slot = other := by
  rcases Nat.lt_trichotomy slot other with before | same | after
  · exact absurd left.hit (right.first slot left.from_start before)
  · exact same
  · exact absurd right.hit (left.first other right.from_start after)

theorem inodeSearch_some {inodes : Nat → Inode} {inodeNo fuel start slot : Nat}
    (found : dadfsInodeSearch inodes inodeNo fuel start = some slot) :
    slot ≤ start + fuel ∧ FirstSlot inodes inodeNo start slot := by
  induction fuel generalizing start with
  | zero =>
      unfold dadfsInodeSearch at found
      split at found
      · rename_i hit
        cases found
        exact ⟨Nat.le_refl _, .head hit⟩
      · cases found
  | succ fuel ih =>
      unfold dadfsInodeSearch at found
      split at found
      · rename_i hit
        cases found
        exact ⟨by omega, .head hit⟩
      · rename_i miss
        obtain ⟨upper, first⟩ := ih found
        exact ⟨by omega, first.tail miss⟩

theorem inodeSearch_none {inodes : Nat → Inode} {inodeNo fuel start : Nat}
    (absent : dadfsInodeSearch inodes inodeNo fuel start = none) (slot : Nat)
    (lower : start ≤ slot) (upper : slot ≤ start + fuel) : (inodes slot).inodeNo ≠ inodeNo := by
  induction fuel generalizing start with
  | zero =>
      unfold dadfsInodeSearch at absent
      split at absent
      · cases absent
      · rename_i miss
        have same : slot = start := by omega
        exact same ▸ miss
  | succ fuel ih =>
      unfold dadfsInodeSearch at absent
      split at absent
      · cases absent
      · rename_i miss
        by_cases same : slot = start
        · exact same ▸ miss
        · exact ih absent (by omega) (by omega)

theorem inodeSearch_eq {inodes : Nat → Inode} {inodeNo fuel start slot : Nat}
    (first : FirstSlot inodes inodeNo start slot) (upper : slot ≤ start + fuel) :
    dadfsInodeSearch inodes inodeNo fuel start = some slot := by
  cases result : dadfsInodeSearch inodes inodeNo fuel start with
  | none => exact absurd first.hit (inodeSearch_none result slot first.from_start upper)
  | some other => rw [(inodeSearch_some result).2.unique first]

theorem getInode_some {inodes : Nat → Inode} {inodeNo fuel start : Nat} {inode : Inode}
    (found : dadfsGetInode inodes inodeNo fuel start = some inode) :
    ∃ slot, slot < start + fuel ∧ FirstSlot inodes inodeNo start slot ∧ inodes slot = inode := by
  induction fuel generalizing start with
  | zero => cases found
  | succ fuel ih =>
      unfold dadfsGetInode at found
      split at found
      · rename_i hit
        exact ⟨start, by omega, .head hit, Option.some.inj found⟩
      · rename_i miss
        obtain ⟨slot, upper, first, same⟩ := ih found
        exact ⟨slot, by omega, first.tail miss, same⟩

theorem getInode_none {inodes : Nat → Inode} {inodeNo fuel start : Nat}
    (absent : dadfsGetInode inodes inodeNo fuel start = none) (slot : Nat)
    (lower : start ≤ slot) (upper : slot < start + fuel) : (inodes slot).inodeNo ≠ inodeNo := by
  induction fuel generalizing start with
  | zero => omega
  | succ fuel ih =>
      unfold dadfsGetInode at absent
      split at absent
      · cases absent
      · rename_i miss
        by_cases same : slot = start
        · exact same ▸ miss
        · exact ih absent (by omega) (by omega)

theorem getInode_eq {inodes : Nat → Inode} {inodeNo fuel start slot : Nat}
    (first : FirstSlot inodes inodeNo start slot) (upper : slot < start + fuel) :
    dadfsGetInode inodes inodeNo fuel start = some (inodes slot) := by
  cases result : dadfsGetInode inodes inodeNo fuel start with
  | none => exact absurd first.hit (getInode_none result slot first.from_start upper)
  | some inode =>
      obtain ⟨other, -, found, same⟩ := getInode_some result
      rw [← same, found.unique first]

theorem findRecord_some {records : Nat → DirRecord} {name : List UInt8} {fuel start : Nat}
    {record : DirRecord} (found : findRecord records name fuel start = some record) :
    ∃ i, i < start + fuel ∧ records i = record ∧ record.filename = name := by
  induction fuel generalizing start with
  | zero => cases found
  | succ fuel ih =>
      unfold findRecord at found
      by_cases hit : (records start).filename = name
      · rw [if_pos hit] at found
        cases found
        exact ⟨start, by omega, rfl, hit⟩
      · rw [if_neg hit] at found
        obtain ⟨i, below, rest⟩ := ih found
        exact ⟨i, by omega, rest⟩

theorem findRecord_none {records : Nat → DirRecord} {name : List UInt8} {fuel start : Nat}
    (absent : findRecord records name fuel start = none) (i : Nat) (lower : start ≤ i)
    (upper : i < start + fuel) : (records i).filename ≠ name := by
  induction fuel generalizing start with
  | zero => omega
  | succ fuel ih =>
      unfold findRecord at absent
      by_cases hit : (records start).filename = name
      · rw [if_pos hit] at absent
        cases absent
      · rw [if_neg hit] at absent
        by_cases first : i = start
        · exact first ▸ hit
        · exact ih absent (by omega) (by omega)

/-- A number has the same first slot after a write to a slot with that number or past it. -/
theorem FirstSlot.update {inodes : Nat → Inode} {inodeNo start slot : Nat}
    (found : FirstSlot inodes inodeNo start slot) {other : Nat} {inode : Inode}
    (after : slot ≤ other) (kept : other = slot → inode.inodeNo = inodeNo) :
    FirstSlot (Function.update inodes other inode) inodeNo start slot := by
  refine ⟨found.from_start, ?_, fun i lower upper => ?_⟩
  · by_cases same : slot = other
    · subst same
      rw [Function.update_self]
      exact kept rfl
    · rw [Function.update_of_ne same]
      exact found.hit
  · rw [Function.update_of_ne (by omega)]
    exact found.first i lower upper

/-- The inode that a mount, or a lookup, would read for a number. -/
def Fs.storedInode (fs : Fs) (inodeNo : Nat) : Option Inode :=
  dadfsGetInode fs.store inodeNo fs.super.inodesCount 0

/-- The parts of the image after the four writes, when `dadfs_inode_add` did its work. -/
theorem counted_super (fs : Fs) {env : CreateEnv} (dir : Nat) (name : List UInt8) (inode : Inode)
    (added : env.addInodesLock = false) (addedSb : env.addSbLock = false) :
    (fs.counted env dir name inode).super =
      { fs.super with inodesCount := fs.super.inodesCount + 1 } := by
  simp only [Fs.counted, Fs.linked, Fs.afterAdd, added, addedSb, Bool.false_eq_true, ↓reduceIte,
    setMem_super, appendRecord_super, appendInode_super]

theorem counted_store (fs : Fs) {env : CreateEnv} (dir : Nat) (name : List UInt8) (inode : Inode)
    (added : env.addInodesLock = false) (addedSb : env.addSbLock = false) :
    (fs.counted env dir name inode).store =
      Function.update fs.store fs.super.inodesCount inode := by
  simp only [Fs.counted, Fs.linked, Fs.afterAdd, added, addedSb, Bool.false_eq_true, ↓reduceIte,
    setMem_store, appendRecord_store, appendInode_store]

@[simp] theorem counted_mem (fs : Fs) (env : CreateEnv) (dir : Nat) (name : List UInt8)
    (inode : Inode) :
    (fs.counted env dir name inode).mem = Function.update fs.mem dir (fs.mem dir).addChild := by
  simp only [Fs.counted, Fs.linked, setMem_mem, appendRecord_mem, afterAdd_mem]

theorem counted_record (fs : Fs) (env : CreateEnv) (dir : Nat) (name : List UInt8)
    (inode : Inode) :
    (fs.counted env dir name inode).records (fs.mem dir).dataBlockNumber
      (fs.mem dir).dirChildrenCount = newRecord name inode := by
  simp only [Fs.counted, Fs.linked, setMem_records, appendRecord_records_self, Function.update_self]

/-- A parent in a counted slot is found where it is. -/
theorem parentSlot_eq {fs : Fs} {env : CreateEnv} {dir slot : Nat} (name : List UInt8)
    (inode : Inode) (added : env.addInodesLock = false) (addedSb : env.addSbLock = false)
    (first : FirstSlot fs.store (fs.mem dir).inodeNo 0 slot)
    (inside : slot < fs.super.inodesCount) :
    fs.parentSlot env dir name inode = some slot := by
  have kept : FirstSlot (Function.update fs.store fs.super.inodesCount inode)
      (fs.mem dir).inodeNo 0 slot := first.update (by omega) (fun same => by omega)
  unfold Fs.parentSlot
  rw [counted_store fs dir name inode added addedSb, counted_super fs dir name inode added addedSb,
    inodeSearch_eq kept (show slot ≤ 0 + (fs.super.inodesCount + 1) by omega)]

end Ve482.Dadfs
