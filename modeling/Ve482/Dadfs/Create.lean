import Ve482.Dadfs.Layout

set_option autoImplicit false

namespace Ve482.Dadfs

/-- Which `mutex_lock_interruptible` of a creation a signal interrupts, in program
order, and whether `new_inode` finds memory. -/
structure CreateEnv where
  childrenLock : Bool := false
  objectsCountLock : Bool := false
  newInode : Bool := true
  freeblockLock : Bool := false
  addInodesLock : Bool := false
  addSbLock : Bool := false
  inodesLock : Bool := false
  saveLock : Bool := false
  deriving DecidableEq, Repr

def dadfsSbSync : Kernel Unit := do
  emit (.markDirty superblockBlockNumber)
  emit (.sync superblockBlockNumber)

/-- `1 << i` in `int`, whose shift count the machine takes modulo 32, widened to the
`uint64_t` it is masked with. -/
def shiftMask (i : Nat) : BitVec 64 := ((1#32) <<< (i % 32)).signExtend 64

/-- The search loop of `dadfs_sb_get_a_freeblock`, with `fuel` rounds left. -/
def findFree (freeBlocks : BitVec 64) : Nat → Nat → Nat
  | 0, i => i
  | fuel + 1, i =>
      if freeBlocks &&& shiftMask i ≠ 0 then i else findFree freeBlocks fuel (i + 1)

/-- The index at which the loop from 3 stops. -/
def firstFree (freeBlocks : BitVec 64) : Nat :=
  findFree freeBlocks (maxFilesystemObjectsSupported - 3) 3

def dadfsSbGetAFreeblock (interrupted : Bool) : Kernel (Except Int Nat) := do
  if ← mutexLockInterruptible .sb interrupted then
    -- `goto end` releases the mutex that was not taken
    mutexUnlock .sb
    return .error (-eintr)
  let fs ← get
  let i := firstFree fs.super.freeBlocks
  if i = maxFilesystemObjectsSupported then
    mutexUnlock .sb
    return .error (-enospc)
  modify fun fs => { fs with allocated := fs.allocated ++ [i] }
  emit (writeSuper fs.bufs { fs.super with freeBlocks := fs.super.freeBlocks &&& ~~~shiftMask i })
  dadfsSbSync
  mutexUnlock .sb
  return .ok i

def dadfsSbGetObjectsCount (interrupted : Bool) : Kernel (Except Int Nat) := do
  if ← mutexLockInterruptible .inodesMgmt interrupted then
    return .error (-eintr)
  let fs ← get
  mutexUnlock .inodesMgmt
  return .ok fs.super.inodesCount

/-- Appends to the inode store. The function is `void`: an interrupted lock is silent,
and the second one returns with the first mutex held. -/
def dadfsInodeAdd (inodesInterrupted sbInterrupted : Bool) (inode : Inode) : Kernel Unit := do
  if ← mutexLockInterruptible .inodesMgmt inodesInterrupted then
    return ()
  if ← mutexLockInterruptible .sb sbInterrupted then
    return ()
  let fs ← get
  emit (writeInode fs.bufs fs.super.inodesCount inode)
  let fs ← get
  emit (writeSuper fs.bufs { fs.super with inodesCount := fs.super.inodesCount + 1 })
  emit (.markDirty inodestoreBlockNumber)
  dadfsSbSync
  mutexUnlock .sb
  mutexUnlock .inodesMgmt

/-- The search compares the slot it stops at too, so it looks at `inodes_count + 1` slots. -/
def dadfsInodeSearch (inodes : Nat → Inode) (inodeNo : Nat) : Nat → Nat → Option Nat
  | 0, start => if (inodes start).inodeNo = inodeNo then some start else none
  | fuel + 1, start =>
      if (inodes start).inodeNo = inodeNo then some start
      else dadfsInodeSearch inodes inodeNo fuel (start + 1)

def dadfsInodeSave (interrupted : Bool) (sfsInode : Inode) : Kernel Int := do
  if ← mutexLockInterruptible .sb interrupted then
    return -eintr
  let fs ← get
  match dadfsInodeSearch fs.store sfsInode.inodeNo fs.super.inodesCount 0 with
  | some slot =>
      emit (writeInode fs.bufs slot sfsInode)
      emit (.markDirty inodestoreBlockNumber)
      emit (.sync inodestoreBlockNumber)
      mutexUnlock .sb
      return 0
  | none =>
      mutexUnlock .sb
      return -eio

/-- The end of `dadfs_create_fs_object`, once the record is in the parent's block. -/
def countChild (env : CreateEnv) (dir : Nat) (sfsInode : Inode) : Kernel (Int × Option Inode) := do
  if ← mutexLockInterruptible .inodesMgmt env.inodesLock then
    mutexUnlock .directoryChildrenUpdate
    return (-eintr, none)
  let fs ← get
  let parent := (fs.mem dir).addChild
  modify (·.setMem dir parent)
  let ret ← dadfsInodeSave env.saveLock parent
  if ret ≠ 0 then
    mutexUnlock .inodesMgmt
    mutexUnlock .directoryChildrenUpdate
    return (ret, none)
  mutexUnlock .inodesMgmt
  mutexUnlock .directoryChildrenUpdate
  return (0, some sfsInode)

/-- `dadfs_create_fs_object` from `dadfs_inode_add` on. -/
def createLink (env : CreateEnv) (dir : Nat) (name : List UInt8) (sfsInode : Inode) :
    Kernel (Int × Option Inode) := do
  dadfsInodeAdd env.addInodesLock env.addSbLock sfsInode
  let fs ← get
  let parent := fs.mem dir
  emit (writeRecord fs.bufs parent.dataBlockNumber parent.dirChildrenCount
    { filename := name, inodeNo := sfsInode.inodeNo })
  emit (.markDirty parent.dataBlockNumber)
  emit (.sync parent.dataBlockNumber)
  countChild env dir sfsInode

/-- The result is the return value and, on success, the inode `d_add` attaches. -/
def dadfsCreateFsObject (env : CreateEnv) (dir : Nat) (name : List UInt8) (umode : BitVec 16) :
    Kernel (Int × Option Inode) := do
  let mode : Mode := umode.setWidth 32
  if ← mutexLockInterruptible .directoryChildrenUpdate env.childrenLock then
    return (-eintr, none)
  match ← dadfsSbGetObjectsCount env.objectsCountLock with
  | .error ret =>
      mutexUnlock .directoryChildrenUpdate
      return (ret, none)
  | .ok count =>
      if count ≥ maxFilesystemObjectsSupported then
        mutexUnlock .directoryChildrenUpdate
        return (-enospc, none)
      if !sIsdir mode && !sIsreg mode then
        mutexUnlock .directoryChildrenUpdate
        return (-einval, none)
      if !env.newInode then
        mutexUnlock .directoryChildrenUpdate
        return (-enomem, none)
      match ← dadfsSbGetAFreeblock env.freeblockLock with
      | .error ret =>
          mutexUnlock .directoryChildrenUpdate
          return (ret, none)
      | .ok block =>
          createLink env dir name
            { mode := mode, inodeNo := count + startIno - reservedInodes + 1
              dataBlockNumber := block, size := 0 }

def dadfsMkdir (env : CreateEnv) (dir : Nat) (name : List UInt8) (umode : BitVec 16) :
    Kernel (Int × Option Inode) :=
  dadfsCreateFsObject env dir name (sIfdir.setWidth 16 ||| umode)

def dadfsCreate (env : CreateEnv) (dir : Nat) (name : List UInt8) (umode : BitVec 16) :
    Kernel (Int × Option Inode) :=
  dadfsCreateFsObject env dir name umode

end Ve482.Dadfs
