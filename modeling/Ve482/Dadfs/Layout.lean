import Ve482.Lib.WriteBack

set_option autoImplicit false

namespace Ve482.Dadfs

open WriteBack (Op)

abbrev defaultBlockSize : Nat := 4096
abbrev filenameMaxlen : Nat := 255
abbrev startIno : Nat := 10
abbrev reservedInodes : Nat := 3
abbrev dadfsMagic : Nat := 0x10032013

abbrev rootdirInodeNumber : Nat := 1
abbrev superblockBlockNumber : Nat := 0
abbrev inodestoreBlockNumber : Nat := 1
abbrev journalInodeNumber : Nat := 2
abbrev journalBlockNumber : Nat := 2
abbrev journalBlocks : Nat := 2
abbrev rootdirDatablockNumber : Nat := 4
abbrev lastReservedBlock : Nat := rootdirDatablockNumber
abbrev lastReservedInode : Nat := journalInodeNumber
abbrev maxFilesystemObjectsSupported : Nat := 64

/-- `sizeof(struct dadfs_inode)`: a padded `mode_t` and three `uint64_t`. -/
abbrev inodeBytes : Nat := 32
/-- `sizeof(struct dadfs_dir_record)`: 255 bytes of name, one of padding, the number. -/
abbrev dirRecordBytes : Nat := 264

abbrev eintr : Int := 4
abbrev eio : Int := 5
abbrev enomem : Int := 12
abbrev efault : Int := 14
abbrev einval : Int := 22
abbrev enospc : Int := 28

abbrev Mode := BitVec 32

abbrev sIfmt : Mode := 0o170000
abbrev sIfdir : Mode := 0o040000
abbrev sIfreg : Mode := 0o100000

def sIsdir (mode : Mode) : Bool := mode &&& sIfmt == sIfdir
def sIsreg (mode : Mode) : Bool := mode &&& sIfmt == sIfreg

/-- `struct dadfs_inode`; `size` is the union of `file_size` and `dir_children_count`. -/
structure Inode where
  mode : Mode
  inodeNo : Nat
  dataBlockNumber : Nat
  size : Nat
  deriving DecidableEq, Repr

abbrev Inode.fileSize (inode : Inode) : Nat := inode.size
abbrev Inode.dirChildrenCount (inode : Inode) : Nat := inode.size

/-- `dir_children_count++`. -/
def Inode.addChild (parent : Inode) : Inode :=
  { parent with size := parent.dirChildrenCount + 1 }

/-- The directory's block has room for one more record. -/
def Inode.HasRoom (parent : Inode) : Prop :=
  (parent.dirChildrenCount + 1) * dirRecordBytes ≤ defaultBlockSize

/-- `struct dadfs_dir_record`; the name is the C string that `strcpy` stores and
`strcmp` reads. -/
structure DirRecord where
  filename : List UInt8
  inodeNo : Nat
  deriving DecidableEq, Repr

structure SuperBlock where
  magic : Nat
  blockSize : Nat
  inodesCount : Nat
  freeBlocks : BitVec 64
  deriving DecidableEq, Repr

/-- A block under the types the code casts `b_data` to. Record 15 would lie past its 4096 bytes: what
is said of records asks for room in the block. -/
structure Block where
  sb : SuperBlock
  inodes : Nat → Inode
  records : Nat → DirRecord
  bytes : Nat → UInt8

abbrev Disk := Nat → Block
abbrev BufOp := Op Nat Block

inductive Mutex where
  | sb
  | inodesMgmt
  | directoryChildrenUpdate
  deriving DecidableEq, Repr

/-- The kernel's view of a mounted dadfs. `mem` is the `i_private` of the in-memory
inodes, by number. The last four fields are history that no function reads. -/
structure Fs where
  bufs : Disk
  mem : Nat → Inode
  held : Mutex → Bool
  badUnlocks : Nat
  openHandles : Nat
  allocated : List Nat
  log : List BufOp

/-- A call that never returns: it waits for a mutex that nobody will release. -/
inductive Stuck where
  | hang
  deriving DecidableEq, Repr

abbrev Kernel := EStateM Stuck Fs

abbrev Fs.super (fs : Fs) : SuperBlock := (fs.bufs superblockBlockNumber).sb
abbrev Fs.store (fs : Fs) : Nat → Inode := (fs.bufs inodestoreBlockNumber).inodes

def Fs.emit (fs : Fs) (op : BufOp) : Fs :=
  { fs with bufs := op.onBufs fs.bufs, log := fs.log ++ [op] }

def Fs.setMem (fs : Fs) (ino : Nat) (inode : Inode) : Fs :=
  { fs with mem := Function.update fs.mem ino inode }

def Fs.hold (fs : Fs) (mutex : Mutex) : Fs :=
  { fs with held := Function.update fs.held mutex true }

/-- Releasing a mutex that is not held is counted, and changes nothing. -/
def Fs.unlock (fs : Fs) (mutex : Mutex) : Fs :=
  if fs.held mutex then { fs with held := Function.update fs.held mutex false }
  else { fs with badUnlocks := fs.badUnlocks + 1 }

def emit (op : BufOp) : Kernel Unit := modify (·.emit op)

/-- `mutex_lock_interruptible`: nonzero when a signal ends the wait. -/
def mutexLockInterruptible (mutex : Mutex) (interrupted : Bool) : Kernel Bool := do
  if interrupted then
    return true
  let fs ← get
  if fs.held mutex then
    throw .hang
  set (fs.hold mutex)
  return false

def mutexUnlock (mutex : Mutex) : Kernel Unit := modify (·.unlock mutex)

def writeSuper (bufs : Disk) (sb : SuperBlock) : BufOp :=
  .write superblockBlockNumber 0 defaultBlockSize { bufs superblockBlockNumber with sb := sb }

def writeInode (bufs : Disk) (slot : Nat) (inode : Inode) : BufOp :=
  .write inodestoreBlockNumber (slot * inodeBytes) inodeBytes
    { bufs inodestoreBlockNumber with
      inodes := Function.update (bufs inodestoreBlockNumber).inodes slot inode }

def writeRecord (bufs : Disk) (block index : Nat) (record : DirRecord) : BufOp :=
  .write block (index * dirRecordBytes) dirRecordBytes
    { bufs block with records := Function.update (bufs block).records index record }

end Ve482.Dadfs
