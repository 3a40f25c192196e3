import Ve482.Dadfs.InodeStore

set_option autoImplicit false

namespace Ve482.Dadfs

open EStateM (Result)

/-- Going from `before` to `after`, a directory counts one record more: that of `inode`, which lies
inside the directory's block, behind the tables, and whose name fits its array. -/
structure CountsRecord (fs : Fs) (before after : Inode) (name : List UInt8) (inode : Inode) :
    Prop where
  size : after.dirChildrenCount = before.dirChildrenCount + 1
  record : fs.records after.dataBlockNumber before.dirChildrenCount = newRecord name inode
  behind : inodestoreBlockNumber < after.dataBlockNumber
  room : before.HasRoom
  short : name.length ≤ filenameMaxlen

/-- The four tables after a creation that did all of its work. -/
structure CreatedOnce (fs fs' : Fs) (dir : Nat) (name : List UInt8) (inode : Inode) : Prop where
  count : fs'.super.inodesCount = fs.super.inodesCount + 1
  appended : fs'.store fs.super.inodesCount = inode
  others : ∀ slot, slot < fs.super.inodesCount →
    (fs.store slot).inodeNo ≠ (fs.mem dir).inodeNo → fs'.store slot = fs.store slot
  block : RemovesExactly fs.super.freeBlocks fs'.super.freeBlocks inode.dataBlockNumber
  inMemory : CountsRecord fs' (fs.mem dir) (fs'.mem dir) name inode
  stored : ∃ before after, fs.storedInode (fs.mem dir).inodeNo = some before ∧
    fs'.storedInode (fs.mem dir).inodeNo = some after ∧ CountsRecord fs' before after name inode

structure Unchanged (fs fs' : Fs) (dir : Nat) : Prop where
  freeBlocks : fs'.super.freeBlocks = fs.super.freeBlocks
  count : fs'.super.inodesCount = fs.super.inodesCount
  slots : ∀ slot, slot < fs.super.inodesCount → fs'.store slot = fs.store slot
  inMemory : (fs'.mem dir).dirChildrenCount = (fs.mem dir).dirChildrenCount
  stored : fs'.storedInode (fs.mem dir).inodeNo = fs.storedInode (fs.mem dir).inodeNo

def AllOrNothing (fs : Fs) (dir : Nat) (name : List UInt8) :
    Result Stuck Fs (Int × Option Inode) → Prop
  | .ok (ret, attached) fs' =>
      (ret = 0 → ∃ inode, attached = some inode ∧ CreatedOnce fs fs' dir name inode) ∧
        (ret < 0 → Unchanged fs fs' dir)
  | .error _ _ => True

/-- The record of one more child lies in the directory's block, behind the tables, and holds its
name. -/
structure Inode.Takes (parent : Inode) (name : List UInt8) : Prop where
  behind : inodestoreBlockNumber < parent.dataBlockNumber
  room : parent.HasRoom
  short : name.length ≤ filenameMaxlen

/-- Once the block is taken: either the call waits forever for the mutex that
`dadfs_inode_add` kept, or no lock is interrupted, the map is one the 32-bit shift handles,
the parent's block takes the record, and the parent's stored inode is there with the count it
has in memory. -/
def Fs.LinksCleanly (fs : Fs) (env : CreateEnv) (dir : Nat) (name : List UInt8) : Prop :=
  env.inodesLock = false ∧ env.addInodesLock = false ∧
    (env.addSbLock = true ∨
      env.saveLock = false ∧ LowFree fs.super.freeBlocks ∧ (fs.mem dir).Takes name ∧
        ∃ stored, fs.storedInode (fs.mem dir).inodeNo = some stored ∧
          stored.dirChildrenCount = (fs.mem dir).dirChildrenCount)

theorem Refused.allOrNothing {fs : Fs} {result : Result Stuck Fs (Int × Option Inode)}
    (refused : Refused fs result) (dir : Nat) (name : List UInt8) :
    AllOrNothing fs dir name result := by
  cases refused with
  | failed negative same =>
      refine ⟨fun zero => by omega, fun _ => ?_⟩
      have super := congrArg (fun bufs => (bufs superblockBlockNumber).sb) same.bufs
      have store := congrArg (fun bufs => (bufs inodestoreBlockNumber).inodes) same.bufs
      refine ⟨congrArg SuperBlock.freeBlocks super, congrArg SuperBlock.inodesCount super,
        fun slot _ => congrFun store slot, by rw [same.mem], ?_⟩
      unfold Fs.storedInode Fs.super Fs.store
      rw [same.bufs]
  | stuck same => trivial

@[simp] theorem linked_freeBlocks (fs : Fs) (env : CreateEnv) (dir : Nat) (name : List UInt8)
    (inode : Inode) :
    (fs.linked env dir name inode).super.freeBlocks = fs.super.freeBlocks := by
  unfold Fs.linked Fs.afterAdd
  rw [appendRecord_super]
  cases env.addInodesLock <;> cases env.addSbLock <;> rfl

/-- A failure after the block was taken leaves the free map changed. -/
theorem not_allOrNothing_failed {fs fs' : Fs} (dir : Nat) (name : List UInt8) {ret : Int}
    (attached : Option Inode) (negative : ret < 0)
    (found : firstFree fs.super.freeBlocks ≠ 64)
    (taken : fs'.super.freeBlocks =
      fs.super.freeBlocks &&& ~~~shiftMask (firstFree fs.super.freeBlocks)) :
    ¬ AllOrNothing fs dir name (.ok (ret, attached) fs') := by
  intro whole
  have same := (whole.2 negative).freeBlocks
  rw [taken] at same
  exact unmask_ne (firstFree_spec _ found).2.2.2 same

/-- The parent, stored below the new slot, is still found first and takes its new count. -/
theorem saved_storedInode (fs : Fs) {env : CreateEnv} {dir : Nat} {name : List UInt8}
    {inode stored : Inode} {slot : Nat} (added : env.addInodesLock = false)
    (addedSb : env.addSbLock = false)
    (before : fs.storedInode (fs.mem dir).inodeNo = some stored)
    (found : fs.parentSlot env dir name inode = some slot) :
    slot < fs.super.inodesCount ∧ FirstSlot fs.store (fs.mem dir).inodeNo 0 slot ∧
      ((fs.counted env dir name inode).saveSlot slot (fs.mem dir).addChild).storedInode
        (fs.mem dir).inodeNo = some (fs.mem dir).addChild := by
  obtain ⟨home, inside, first, -⟩ := getInode_some before
  rw [Nat.zero_add] at inside
  rw [parentSlot_eq name inode added addedSb first inside] at found
  have same : home = slot := Option.some.inj found
  subst same
  refine ⟨inside, first, ?_⟩
  have kept : FirstSlot (Function.update fs.store fs.super.inodesCount inode)
      (fs.mem dir).inodeNo 0 home := first.update (by omega) (fun same => by omega)
  have last : FirstSlot (Function.update (Function.update fs.store fs.super.inodesCount inode) home
      (fs.mem dir).addChild) (fs.mem dir).inodeNo 0 home :=
    kept.update (Nat.le_refl _) (fun _ => rfl)
  unfold Fs.storedInode
  rw [saveSlot_store, saveSlot_super, counted_store fs dir name inode added addedSb,
    counted_super fs dir name inode added addedSb,
    getInode_eq last (show home < 0 + (fs.super.inodesCount + 1) by omega), Function.update_self]

/-- The whole of a creation that returned 0 and did append its inode. -/
theorem createdOnce_iff {fs : Fs} {env : CreateEnv} {dir : Nat} {umode : BitVec 16} {slot : Nat}
    (name : List UInt8) (found : firstFree fs.super.freeBlocks ≠ 64)
    (added : env.addInodesLock = false) (addedSb : env.addSbLock = false)
    (home : (fs.takeBlock (firstFree fs.super.freeBlocks)).parentSlot env dir name
      (fs.newInode umode) = some slot) :
    CreatedOnce fs (((fs.takeBlock (firstFree fs.super.freeBlocks)).counted env dir name
      (fs.newInode umode)).saveSlot slot (fs.mem dir).addChild) dir name (fs.newInode umode) ↔
    LowFree fs.super.freeBlocks ∧ (fs.mem dir).Takes name ∧
      ∃ stored, fs.storedInode (fs.mem dir).inodeNo = some stored ∧
        stored.dirChildrenCount = (fs.mem dir).dirChildrenCount := by
  let taken := fs.takeBlock (firstFree fs.super.freeBlocks)
  let last := (taken.counted env dir name (fs.newInode umode)).saveSlot slot (fs.mem dir).addChild
  have lastSuper : last.super.inodesCount = fs.super.inodesCount + 1 ∧ last.super.freeBlocks =
      fs.super.freeBlocks &&& ~~~shiftMask (firstFree fs.super.freeBlocks) := by
    simp only [last, saveSlot_super, counted_super taken dir name (fs.newInode umode) added addedSb]
    exact ⟨rfl, rfl⟩
  have lastStore : last.store = Function.update
      (Function.update fs.store fs.super.inodesCount (fs.newInode umode)) slot
      (fs.mem dir).addChild := by
    simp only [last, saveSlot_store, counted_store taken dir name (fs.newInode umode) added addedSb]
    rfl
  have lastMem : last.mem dir = (fs.mem dir).addChild := by
    simp only [last, saveSlot_mem, counted_mem, Function.update_self]
    rfl
  have lastRecord : last.records (fs.mem dir).dataBlockNumber (fs.mem dir).dirChildrenCount =
      newRecord name (fs.newInode umode) := by
    simp only [last, saveSlot_records]
    exact counted_record taken env dir name (fs.newInode umode)
  have lastStored (stored : Inode) (before : fs.storedInode (fs.mem dir).inodeNo = some stored) :=
    saved_storedInode taken added addedSb before home
  constructor
  · intro created
    have inMemory := created.inMemory
    rw [show _ = (fs.mem dir).addChild from lastMem] at inMemory
    refine ⟨(removesExactly_iff _ found).mp (lastSuper.2 ▸ created.block),
      ⟨inMemory.behind, inMemory.room, inMemory.short⟩, ?_⟩
    obtain ⟨before, after, storedBefore, storedAfter, counts⟩ := created.stored
    refine ⟨before, storedBefore, ?_⟩
    have same := (lastStored before storedBefore).2.2
    have grown := counts.size
    rw [show after = (fs.mem dir).addChild from Option.some.inj (storedAfter.symm.trans same)] at grown
    exact (Nat.succ.inj grown).symm
  · rintro ⟨lowFree, takes, stored, before, size⟩
    obtain ⟨inside, first, after⟩ := lastStored stored before
    have inside : slot < fs.super.inodesCount := inside
    refine ⟨lastSuper.1, ?_, ?_, ?_, ?_, stored, (fs.mem dir).addChild, before, after, ?_⟩
    · change last.store fs.super.inodesCount = _
      rw [lastStore, Function.update_of_ne (by omega), Function.update_self]
    · intro other below differs
      have apart : other ≠ slot := fun same => differs (same ▸ first.hit)
      change last.store other = _
      rw [lastStore, Function.update_of_ne apart, Function.update_of_ne (Nat.ne_of_lt below)]
    · exact lastSuper.2 ▸ (removesExactly_iff _ found).mpr lowFree
    · rw [show _ = (fs.mem dir).addChild from lastMem]
      exact ⟨rfl, lastRecord, takes.behind, takes.room, takes.short⟩
    · refine ⟨by rw [size]; rfl, by rw [size]; exact lastRecord, takes.behind, ?_, takes.short⟩
      rw [Inode.HasRoom, size]
      exact takes.room

/-- A silent `dadfs_inode_add` leaves the super block as it was. -/
theorem counted_super_silent (fs : Fs) {env : CreateEnv} (dir : Nat) (name : List UInt8)
    (inode : Inode) (silent : env.addInodesLock = true) :
    (fs.counted env dir name inode).super = fs.super := by
  simp only [Fs.counted, Fs.linked, Fs.afterAdd, silent, ↓reduceIte, setMem_super,
    appendRecord_super]

/-- For every state and every outcome of the steps inside the call: `dadfs_create_fs_object`
is all or nothing exactly when it is turned away before it takes a block, or links cleanly
after it. -/
theorem create_allOrNothing_iff (fs : Fs) (env : CreateEnv) (dir : Nat) (name : List UInt8)
    (umode : BitVec 16) :
    AllOrNothing fs dir name ((dadfsCreateFsObject env dir name umode).run fs) ↔
      (fs.Admits env umode → fs.LinksCleanly env dir name) := by
  by_cases admits : fs.Admits env umode
  swap
  · exact ⟨fun _ admitted => absurd admitted admits,
      fun _ => (create_refused dir name admits).allOrNothing dir name⟩
  rw [create_admitted dir name admits]
  let taken := fs.takeBlock (firstFree fs.super.freeBlocks)
  have failed {ret : Int} {fs' : Fs} (negative : ret < 0)
      (map : fs'.super.freeBlocks = taken.super.freeBlocks) :
      ¬ AllOrNothing fs dir name (.ok (ret, none) fs') :=
    not_allOrNothing_failed dir name none negative admits.block map
  have countedMap : (taken.counted env dir name (fs.newInode umode)).super.freeBlocks =
      taken.super.freeBlocks := linked_freeBlocks taken env dir name (fs.newInode umode)
  unfold Fs.linkResult Fs.LinksCleanly
  cases inodesLock : env.inodesLock with
  | true =>
      rw [if_pos rfl]
      exact iff_of_false (failed (by decide) countedMap) (fun clean => by cases (clean admits).1)
  | false =>
  rw [if_neg Bool.false_ne_true]
  cases leaked : !env.addInodesLock && env.addSbLock with
  | true =>
      rw [Bool.and_eq_true, Bool.not_eq_true'] at leaked
      rw [if_pos rfl]
      exact iff_of_true trivial (fun _ => ⟨rfl, leaked.1, Or.inl leaked.2⟩)
  | false =>
  rw [if_neg Bool.false_ne_true]
  have notLeaked (added : env.addInodesLock = false) : env.addSbLock = false := by
    simpa [added] using leaked
  cases save : env.saveLock with
  | true =>
      rw [if_pos rfl]
      refine iff_of_false (failed (by decide) countedMap) (fun clean => ?_)
      obtain ⟨-, added, held | saved⟩ := clean admits
      · cases (notLeaked added).symm.trans held
      · cases saved.1
  | false =>
  rw [if_neg Bool.false_ne_true]
  cases home : taken.parentSlot env dir name (fs.newInode umode) with
  | none =>
      refine iff_of_false (failed (by decide) countedMap) (fun clean => ?_)
      obtain ⟨-, added, held | ⟨-, -, -, stored, before, -⟩⟩ := clean admits
      · cases (notLeaked added).symm.trans held
      · obtain ⟨slot, inside, first, -⟩ := getInode_some before
        rw [Nat.zero_add] at inside
        have kept : taken.parentSlot env dir name (fs.newInode umode) = some slot :=
          parentSlot_eq name (fs.newInode umode) added (notLeaked added) first inside
        cases home.symm.trans kept
  | some slot =>
  cases added : env.addInodesLock with
  | true =>
      -- the call reports success, and nothing was appended
      refine iff_of_false (fun whole => ?_) (fun clean => by cases (clean admits).2.1)
      obtain ⟨inode, -, created⟩ := whole.1 rfl
      have count := created.count
      rw [saveSlot_super, counted_super_silent taken dir name (fs.newInode umode) added] at count
      exact absurd count (Nat.ne_of_lt (Nat.lt_succ_self _))
  | false =>
      have once := createdOnce_iff name admits.block added (notLeaked added) home
      constructor
      · intro whole _
        obtain ⟨inode, same, created⟩ := whole.1 rfl
        cases same
        exact ⟨rfl, rfl, Or.inr ⟨rfl, once.mp created⟩⟩
      · intro clean
        obtain ⟨-, -, held | ⟨-, rest⟩⟩ := clean admits
        · cases (notLeaked added).symm.trans held
        · exact ⟨fun _ => ⟨_, rfl, once.mpr rest⟩, fun negative => by omega⟩

/-- A file is created on a fresh image while a signal interrupts the first lock of
`dadfs_inode_add`: the call returns 0 and the store still holds three inodes. -/
theorem create_silent_success :
    ¬ AllOrNothing (mounted (mkfs mkfsFreeBlocks zeroDevice) rootInode).fs rootdirInodeNumber [97]
      ((dadfsCreateFsObject { addInodesLock := true } rootdirInodeNumber [97] 0o100644).run
        (mounted (mkfs mkfsFreeBlocks zeroDevice) rootInode).fs) := by
  intro whole
  obtain ⟨inode, -, created⟩ := whole.1 rfl
  have count := created.count
  exact absurd count (by decide)

end Ve482.Dadfs
