import Ve482.Dadfs.Locks

set_option autoImplicit false

namespace Ve482.Dadfs

open EStateM (Result)
open Runs (EveryStep run run_cons)

@[simp] theorem afterAdd_allocated (fs : Fs) (env : CreateEnv) (inode : Inode) :
    (fs.afterAdd env inode).allocated = fs.allocated := by
  unfold Fs.afterAdd
  cases env.addInodesLock <;> cases env.addSbLock <;> rfl

theorem linkResult_allocated (fs : Fs) (env : CreateEnv) (dir : Nat) (name : List UInt8)
    (inode : Inode) :
    (finalState (fs.linkResult env dir name inode)).allocated = fs.allocated := by
  have linked : (fs.linked env dir name inode).allocated = fs.allocated :=
    afterAdd_allocated fs env inode
  unfold Fs.linkResult
  by_cases inodesLock : env.inodesLock = true
  · rw [if_pos inodesLock]
    exact linked
  rw [if_neg inodesLock]
  by_cases leaked : (!env.addInodesLock && env.addSbLock) = true
  · rw [if_pos leaked]
    exact linked
  rw [if_neg leaked]
  by_cases saveLock : env.saveLock = true
  · rw [if_pos saveLock]
    exact linked
  rw [if_neg saveLock]
  cases fs.parentSlot env dir name inode with
  | none => exact linked
  | some slot => exact linked

theorem create_allocated (vfs : Vfs) (call : Call) :
    (vfs.call call).fs.allocated =
      if vfs.fs.Admits call.env call.mode then
        vfs.fs.allocated ++ [firstFree vfs.fs.super.freeBlocks]
      else vfs.fs.allocated := by
  rw [call_allocated, call.exec_eq]
  by_cases admits : vfs.fs.Admits call.env call.mode
  · rw [if_pos admits, create_admitted call.dir call.name admits, linkResult_allocated,
      takeBlock_allocated]
  · rw [if_neg admits]
    exact (create_refused call.dir call.name admits).sameFiles.allocated

/-- No lock of the creation is interrupted. -/
structure CreateEnv.Uninterrupted (env : CreateEnv) : Prop where
  childrenLock : env.childrenLock = false
  objectsCountLock : env.objectsCountLock = false
  freeblockLock : env.freeblockLock = false
  addInodesLock : env.addInodesLock = false
  addSbLock : env.addSbLock = false
  inodesLock : env.inodesLock = false
  saveLock : env.saveLock = false

/-- The creation asks for a directory or a regular file, and finds memory for it. -/
def Call.Makes (call : Call) : Prop :=
  (sIsdir (call.mode.setWidth 32) || sIsreg (call.mode.setWidth 32)) = true ∧
    call.env.newInode = true

/-- No two counted inodes share a block, and none of the blocks handed out is the super
block, the inode store, a journal block, the root directory's or the welcome file's. -/
structure Vfs.BlocksApart (vfs : Vfs) : Prop where
  distinct : ∀ i j, i < vfs.fs.super.inodesCount → j < vfs.fs.super.inodesCount → i ≠ j →
    (vfs.fs.store i).dataBlockNumber ≠ (vfs.fs.store j).dataBlockNumber
  reserved : ∀ block ∈ vfs.fs.allocated,
    block ∉ [superblockBlockNumber, inodestoreBlockNumber, journalBlockNumber,
      journalBlockNumber + journalBlocks - 1, rootdirDatablockNumber,
      welcomefileDatablockNumber]

theorem mem_allocated_call {vfs : Vfs} {block : Nat} (member : block ∈ vfs.fs.allocated)
    (call : Call) : block ∈ (vfs.call call).fs.allocated := by
  rw [create_allocated]
  split
  · exact List.mem_append_left _ member
  · exact member

/-- A block once handed out stays in the history. -/
theorem mem_allocated_run {vfs : Vfs} {block : Nat} (member : block ∈ vfs.fs.allocated)
    (calls : List Call) : block ∈ (run Vfs.call vfs calls).fs.allocated := by
  induction calls generalizing vfs with
  | nil => exact member
  | cons call calls ih => exact ih (mem_allocated_call member call)

/-- The image of mkfs, on which nothing has been created. -/
structure Vfs.Untouched (dev : Device) (vfs : Vfs) : Prop where
  bufs : vfs.fs.bufs = mkfs mkfsFreeBlocks dev
  held : ∀ mutex, vfs.fs.held mutex = false
  allocated : vfs.fs.allocated = []

theorem mkfsInodes_block (dev : Device) {slot : Nat} (inside : slot < 3) :
    (mkfsInodes dev slot).dataBlockNumber = if slot = 0 then 4 else if slot = 1 then 2 else 5 := by
  match slot, inside with
  | 0, _ => rfl
  | 1, _ => rfl
  | 2, _ => rfl

theorem Vfs.Untouched.blocksApart {dev : Device} {vfs : Vfs} (untouched : vfs.Untouched dev) :
    vfs.BlocksApart := by
  constructor
  · unfold Fs.super Fs.store
    rw [untouched.bufs]
    intro i j left right apart
    change (mkfsInodes dev i).dataBlockNumber ≠ (mkfsInodes dev j).dataBlockNumber
    have left : i < 3 := left
    have right : j < 3 := right
    rw [mkfsInodes_block dev left, mkfsInodes_block dev right]
    grind
  · rw [untouched.allocated]
    intro block member
    cases member

/-- On the image of mkfs, what decides is the mode and the memory for the inode. -/
theorem Vfs.Untouched.admits_iff {dev : Device} {vfs : Vfs} (untouched : vfs.Untouched dev)
    {call : Call} (uninterrupted : call.env.Uninterrupted) :
    vfs.fs.Admits call.env call.mode ↔ call.Makes := by
  constructor
  · intro admits
    exact ⟨admits.kind, admits.newInode⟩
  · rintro ⟨kind, newInode⟩
    have super : vfs.fs.super = (mkfs mkfsFreeBlocks dev superblockBlockNumber).sb := by
      unfold Fs.super
      rw [untouched.bufs]
    refine ⟨uninterrupted.childrenLock, untouched.held _, uninterrupted.objectsCountLock,
      untouched.held _, ?_, kind, newInode, uninterrupted.freeblockLock, untouched.held _, ?_⟩
    · rw [super]
      exact (show 3 < 64 by decide)
    · rw [super]
      exact (show firstFree mkfsFreeBlocks ≠ 64 by decide)

theorem Vfs.Untouched.call {dev : Device} {vfs : Vfs} (untouched : vfs.Untouched dev)
    {call : Call} (uninterrupted : call.env.Uninterrupted) (idle : ¬ call.Makes) :
    (vfs.call call).Untouched dev := by
  have turned : ¬ vfs.fs.Admits call.env call.mode :=
    fun admits => idle ((untouched.admits_iff uninterrupted).mp admits)
  have refused := create_refused call.dir call.name turned
  have balanced := (create_balanced_iff vfs.fs call.env call.dir call.name call.mode
    untouched.held).mpr fun _ => ⟨uninterrupted.freeblockLock, fun _ => Or.inr uninterrupted.addSbLock⟩
  have bufs := call_bufs vfs call
  have held := call_held vfs call
  rw [call.exec_eq] at bufs held
  refine ⟨?_, ?_, ?_⟩
  · rw [bufs, ← untouched.bufs]
    exact refused.sameFiles.bufs
  · intro mutex
    rw [held]
    exact balanced.final_unlocked untouched.held mutex
  · rw [create_allocated, if_neg turned, untouched.allocated]

/-- For every run of uninterrupted creations from the image of mkfs: the blocks are apart in
the state reached exactly when no creation of the run got as far as taking a block. -/
theorem run_blocksApart_iff (dev : Device) (calls : List Call)
    (uninterrupted : ∀ call ∈ calls, call.env.Uninterrupted) :
    (run Vfs.call (mounted (mkfs mkfsFreeBlocks dev) rootInode) calls).BlocksApart ↔
      ∀ call ∈ calls, ¬ call.Makes := by
  have start : (mounted (mkfs mkfsFreeBlocks dev) rootInode).Untouched dev :=
    ⟨rfl, fun _ => rfl, rfl⟩
  generalize mounted (mkfs mkfsFreeBlocks dev) rootInode = vfs at start
  induction calls generalizing vfs with
  | nil => exact iff_of_true start.blocksApart fun call member => by cases member
  | cons call calls ih =>
      have here := uninterrupted call (List.mem_cons_self ..)
      have later := fun other member => uninterrupted other (List.mem_cons_of_mem call member)
      rw [run_cons, List.forall_mem_cons]
      by_cases makes : call.Makes
      · -- the first block handed out is 3, in the journal
        refine iff_of_false (fun apart => ?_) fun idle => idle.1 makes
        have taken : 3 ∈ (vfs.call call).fs.allocated := by
          rw [create_allocated, if_pos ((start.admits_iff here).mpr makes), Fs.super, start.bufs]
          exact List.mem_append_right _ (show 3 ∈ [firstFree mkfsFreeBlocks] by decide)
        exact apart.reserved 3 (mem_allocated_run taken calls) (by decide)
      · refine (ih later (vfs.call call) (start.call here makes)).trans ?_
        exact ⟨fun rest => ⟨makes, rest⟩, fun both => both.2⟩

/-- A creation of neither a file nor a directory, which is turned away. -/
def createFifo : Call := { createFile 97 with umode := 0o010644 }

theorem run_blocksApart_turned :
    (run Vfs.call (mounted (mkfs mkfsFreeBlocks zeroDevice) rootInode) [createFifo]).BlocksApart :=
  (run_blocksApart_iff zeroDevice [createFifo] (by
    intro call member
    rw [List.mem_singleton.mp member]
    exact ⟨rfl, rfl, rfl, rfl, rfl, rfl, rfl⟩)).mpr (by
    intro call member makes
    rw [List.mem_singleton.mp member] at makes
    exact absurd makes.1 (by decide))

/-- One file on a fresh image gets block 3, in the journal. -/
theorem first_block_in_journal :
    EveryStep Vfs.call Vfs.Permits (mounted (mkfs mkfsFreeBlocks zeroDevice) rootInode)
        [createFile 97] ∧
      (∀ call ∈ [createFile 97], call.env.Uninterrupted) ∧
      ¬ (run Vfs.call (mounted (mkfs mkfsFreeBlocks zeroDevice) rootInode)
        [createFile 97]).BlocksApart := by
  refine ⟨by decide +kernel, ?_, fun apart => ?_⟩
  · intro call member
    rw [List.mem_singleton.mp member]
    exact ⟨rfl, rfl, rfl, rfl, rfl, rfl, rfl⟩
  · exact apart.reserved 3 (by decide +kernel) (by decide)

end Ve482.Dadfs
