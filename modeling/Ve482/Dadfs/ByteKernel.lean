import Ve482.Dadfs.Bytes
import Ve482.Dadfs.Overwrite
import Ve482.Dadfs.Read

set_option autoImplicit false

namespace Ve482.Dadfs.Raw

open ByteLayout (Buffer strcmpZero)
open Function (update)

/-- A mounted dadfs: the `b_data` of the buffers, the structures behind `i_private` by inode
number, and the mutexes. -/
structure Fs where
  bufs : Nat → Buffer
  mem : Nat → Inode
  held : Mutex → Bool

abbrev Kernel := EStateM Stuck Fs

/-- `DADFS_SB`, which points into the first buffer. -/
abbrev Fs.super (fs : Fs) : SuperBlock := superOf (fs.bufs superblockBlockNumber)

/-- `(struct dadfs_inode *)bh->b_data` of the inode store. -/
abbrev Fs.store (fs : Fs) : Nat → Inode := inodeAt (fs.bufs inodestoreBlockNumber)

def Fs.setBuf (fs : Fs) (block : Nat) (memory : Buffer) : Fs :=
  { fs with bufs := update fs.bufs block memory }

def Fs.setMem (fs : Fs) (ino : Nat) (inode : Inode) : Fs :=
  { fs with mem := update fs.mem ino inode }

def Fs.hold (fs : Fs) (mutex : Mutex) : Fs := { fs with held := update fs.held mutex true }

def Fs.unlock (fs : Fs) (mutex : Mutex) : Fs := { fs with held := update fs.held mutex false }

def Fs.setFreeBlocks (fs : Fs) (freeBlocks : BitVec 64) : Fs :=
  fs.setBuf superblockBlockNumber (storeFreeBlocks (fs.bufs superblockBlockNumber) freeBlocks)

def Fs.setInodesCount (fs : Fs) (count : Nat) : Fs :=
  fs.setBuf superblockBlockNumber (storeInodesCount (fs.bufs superblockBlockNumber) count)

def Fs.putInode (fs : Fs) (slot padding : Nat) (inode : Inode) : Fs :=
  fs.setBuf inodestoreBlockNumber (storeInode (fs.bufs inodestoreBlockNumber) slot padding inode)

def Fs.putRecord (fs : Fs) (block index : Nat) (record : DirRecord) : Fs :=
  fs.setBuf block (storeRecord (fs.bufs block) index record)

def Fs.putBytes (fs : Fs) (block offset : Nat) (data : List UInt8) : Fs :=
  fs.setBuf block (ByteLayout.store (fs.bufs block) offset data)

def mutexLockInterruptible (mutex : Mutex) (interrupted : Bool) : Kernel Bool := do
  if interrupted then
    return true
  let fs ← get
  if fs.held mutex then
    throw .hang
  set (fs.hold mutex)
  return false

def mutexUnlock (mutex : Mutex) : Kernel Unit := modify (·.unlock mutex)

def dadfsSbGetAFreeblock (interrupted : Bool) : Kernel (Except Int Nat) := do
  if ← mutexLockInterruptible .sb interrupted then
    mutexUnlock .sb
    return .error (-eintr)
  let fs ← get
  let i := firstFree fs.super.freeBlocks
  if i = maxFilesystemObjectsSupported then
    mutexUnlock .sb
    return .error (-enospc)
  modify fun fs => fs.setFreeBlocks (fs.super.freeBlocks &&& ~~~shiftMask i)
  mutexUnlock .sb
  return .ok i

def dadfsSbGetObjectsCount (interrupted : Bool) : Kernel (Except Int Nat) := do
  if ← mutexLockInterruptible .inodesMgmt interrupted then
    return .error (-eintr)
  let fs ← get
  mutexUnlock .inodesMgmt
  return .ok fs.super.inodesCount

/-- `padding` is what the four bytes behind the mode hold in the structure that is copied. -/
def dadfsInodeAdd (inodesInterrupted sbInterrupted : Bool) (padding : Nat) (inode : Inode) :
    Kernel Unit := do
  if ← mutexLockInterruptible .inodesMgmt inodesInterrupted then
    return ()
  if ← mutexLockInterruptible .sb sbInterrupted then
    return ()
  modify fun fs => fs.putInode fs.super.inodesCount padding inode
  modify fun fs => fs.setInodesCount (fs.super.inodesCount + 1)
  mutexUnlock .sb
  mutexUnlock .inodesMgmt

def dadfsInodeSave (interrupted : Bool) (padding : Nat) (sfsInode : Inode) : Kernel Int := do
  if ← mutexLockInterruptible .sb interrupted then
    return -eintr
  let fs ← get
  match dadfsInodeSearch fs.store sfsInode.inodeNo fs.super.inodesCount 0 with
  | some slot =>
      modify (·.putInode slot padding sfsInode)
      mutexUnlock .sb
      return 0
  | none =>
      mutexUnlock .sb
      return -eio

/-- The padding of the new inode and of its parent's. -/
structure CreatePadding where
  inode : Nat
  parent : Nat
  deriving DecidableEq, Repr

def countChild (env : CreateEnv) (padding : CreatePadding) (dir : Nat) (sfsInode : Inode) :
    Kernel (Int × Option Inode) := do
  if ← mutexLockInterruptible .inodesMgmt env.inodesLock then
    mutexUnlock .directoryChildrenUpdate
    return (-eintr, none)
  let fs ← get
  let parent := (fs.mem dir).addChild
  modify (·.setMem dir parent)
  let ret ← dadfsInodeSave env.saveLock padding.parent parent
  if ret ≠ 0 then
    mutexUnlock .inodesMgmt
    mutexUnlock .directoryChildrenUpdate
    return (ret, none)
  mutexUnlock .inodesMgmt
  mutexUnlock .directoryChildrenUpdate
  return (0, some sfsInode)

def createLink (env : CreateEnv) (padding : CreatePadding) (dir : Nat) (name : List UInt8)
    (sfsInode : Inode) : Kernel (Int × Option Inode) := do
  dadfsInodeAdd env.addInodesLock env.addSbLock padding.inode sfsInode
  let fs ← get
  let parent := fs.mem dir
  modify (·.putRecord parent.dataBlockNumber parent.dirChildrenCount
    { filename := name, inodeNo := sfsInode.inodeNo })
  countChild env padding dir sfsInode

def dadfsCreateFsObject (env : CreateEnv) (padding : CreatePadding) (dir : Nat)
    (name : List UInt8) (umode : BitVec 16) : Kernel (Int × Option Inode) := do
  let mode : Mode := umode.setWidth 32
  if ← mutexLockInterruptible .directoryChildrenUpdate env.childrenLock then
    return (-eintr, none)
  match ← dadfsSbGetObjectsCount env.objectsCountLock with
  | .error ret =>
      mutexUnlock .directoryChildrenUpdate
      return (ret, none)
  | .ok count =>
      if count ≥ maxFilesystemObjectsSupported then
        mutexUnlock .directoryChildrenUpdate
        return (-enospc, none)
      if !sIsdir mode && !sIsreg mode then
        mutexUnlock .directoryChildrenUpdate
        return (-einval, none)
      if !env.newInode then
        mutexUnlock .directoryChildrenUpdate
        return (-enomem, none)
      match ← dadfsSbGetAFreeblock env.freeblockLock with
      | .error ret =>
          mutexUnlock .directoryChildrenUpdate
          return (ret, none)
      | .ok block =>
          createLink env padding dir name
            { mode := mode, inodeNo := count + startIno - reservedInodes + 1
              dataBlockNumber := block, size := 0 }

/-- `dadfs_mkdir` and `dadfs_create`. -/
def exec (call : Call) (padding : CreatePadding) : Kernel (Int × Option Inode) :=
  dadfsCreateFsObject call.env padding call.dir call.name call.mode

/-- `dadfs_write` before Linux 4.0, less the journal's handle. -/
def dadfsWrite (env : WriteEnv) (padding ino : Nat) (data : List UInt8) (ppos : Nat) :
    Kernel (Int × Nat) := do
  match env.start with
  | some err => return (err, ppos)
  | none =>
      let (retval, ppos, len) := env.checks ppos data.length
      if retval ≠ 0 then
        return (retval, ppos)
      let fs ← get
      let sfsInode := fs.mem ino
      if !env.bread then
        return (0, ppos)
      if env.getWriteAccess ≠ 0 then
        return (env.getWriteAccess, ppos)
      modify (·.putBytes sfsInode.dataBlockNumber ppos (data.take (env.transfer len)))
      if env.transfer len < len then
        return (-efault, ppos)
      let ppos := ppos + len
      if env.dirtyMetadata ≠ 0 then
        return (env.dirtyMetadata, ppos)
      if env.stop ≠ 0 then
        return (env.stop, ppos)
      if ← mutexLockInterruptible .inodesMgmt env.inodesLock then
        return (-eintr, ppos)
      let sfsInode := { sfsInode with size := ppos }
      modify (·.setMem ino sfsInode)
      let retval ← dadfsInodeSave env.saveLock padding sfsInode
      mutexUnlock .inodesMgmt
      if retval ≠ 0 then
        return (retval, ppos)
      return (len, ppos)

def dadfsRead (env : ReadEnv) (fs : Fs) (ino len ppos : Nat) : ReadResult :=
  let inode := fs.mem ino
  if ppos ≥ inode.fileSize then { ret := 0, ppos := ppos, buf := [] }
  else if !env.bread then { ret := 0, ppos := ppos, buf := [] }
  else
    let buffer := fs.bufs inode.dataBlockNumber
    let nbytes := min inode.fileSize len
    let buf := (List.range (env.copied nbytes)).map buffer
    if env.copied nbytes < nbytes then { ret := -efault, ppos := ppos, buf := buf }
    else { ret := nbytes, ppos := ppos + nbytes, buf := buf }

/-- The loop of `dadfs_lookup`: the number in the first record whose name `strcmp` finds
equal. -/
def findRecord (memory : Buffer) (name : List UInt8) : Nat → Nat → Option Nat
  | 0, _ => none
  | fuel + 1, i =>
      if strcmpZero memory (i * dirRecordBytes) name then some (recordAt memory i).inodeNo
      else findRecord memory name fuel (i + 1)

def dadfsIget (fs : Fs) (ino : Nat) : Lookup :=
  match dadfsGetInode fs.store ino fs.super.inodesCount 0 with
  | some inode => .attached inode
  | none => .oops

def dadfsLookup (fs : Fs) (dir : Nat) (name : List UInt8) : Lookup :=
  let parent := fs.mem dir
  match findRecord (fs.bufs parent.dataBlockNumber) name parent.dirChildrenCount 0 with
  | some ino => dadfsIget fs ino
  | none => .notFound

/-- A mounted filesystem, with the inodes that some dentry has attached. -/
structure Vfs where
  fs : Fs
  live : Nat → Bool

def mounted (disk : Nat → Buffer) (root : Inode) : Vfs :=
  { fs :=
      { bufs := disk, mem := update (fun _ => nullInode) rootdirInodeNumber root
        held := fun _ => false }
    live := fun ino => ino == rootdirInodeNumber }

/-- `dadfs_fill_super`. `journal` is the pointer that loading the journal stores in the buffer
of the super block, over the NULL that is stored there first. -/
def dadfsFillSuper (disk : Nat → Buffer) (journal : Nat) : Option Vfs :=
  let sb := superOf (disk superblockBlockNumber)
  if sb.magic ≠ dadfsMagic then none
  else if sb.blockSize ≠ defaultBlockSize then none
  else
    let disk := update disk superblockBlockNumber
      (storeJournal (storeJournal (disk superblockBlockNumber) 0) journal)
    (dadfsGetInode (inodeAt (disk inodestoreBlockNumber)) rootdirInodeNumber sb.inodesCount 0).map
      (mounted disk)

def Vfs.attach (vfs : Vfs) (inode : Inode) : Vfs :=
  { fs := vfs.fs.setMem inode.inodeNo inode, live := update vfs.live inode.inodeNo true }

def Vfs.IsDirectory (vfs : Vfs) (dir : Nat) : Prop :=
  vfs.live dir = true ∧ sIsdir (vfs.fs.mem dir).mode = true

def Vfs.IsFile (vfs : Vfs) (ino : Nat) : Prop :=
  vfs.live ino = true ∧ sIsreg (vfs.fs.mem ino).mode = true

def finalState {α : Type} : EStateM.Result Stuck Fs α → Fs
  | .ok _ fs => fs
  | .error _ fs => fs

def Vfs.call (vfs : Vfs) (call : Call) (padding : CreatePadding) : Vfs :=
  match (exec call padding).run vfs.fs with
  | .ok (_, some inode) fs => { vfs with fs := fs }.attach inode
  | .ok (_, none) fs => { vfs with fs := fs }
  | .error _ fs => { vfs with fs := fs }

def Vfs.lookup (vfs : Vfs) (dir : Nat) (name : List UInt8) : Vfs :=
  match dadfsLookup vfs.fs dir name with
  | .attached inode => vfs.attach inode
  | .notFound => vfs
  | .oops => vfs

def Fs.write (fs : Fs) (ino padding : Nat) (write : FileWrite) : Fs :=
  finalState ((dadfsWrite write.env padding ino write.data write.pos).run fs)

end Ve482.Dadfs.Raw
