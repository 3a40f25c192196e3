import Ve482.Dadfs.CreateRun
import Ve482.Dadfs.FreeMap

set_option autoImplicit false

namespace Ve482.Dadfs

abbrev welcomefileDatablockNumber : Nat := lastReservedBlock + 1
abbrev welcomefileInodeNumber : Nat := lastReservedInode + 1

def cString (text : String) : List UInt8 := text.toList.map fun char => UInt8.ofNat char.toNat

/-- `"Congratulations, I'm proud of you. Dad\n"` and its terminating NUL. -/
def welcomefileBody : List UInt8 :=
  cString "Congratulations, I'm proud of you. Dad\n" ++ [0]

def welcomeName : List UInt8 := cString "awordfromdad"

/-- `write_superblock`, with the `free_blocks` it is given. -/
def writeSuperblock (freeBlocks : BitVec 64) : SuperBlock :=
  { magic := dadfsMagic, blockSize := defaultBlockSize
    inodesCount := welcomefileInodeNumber, freeBlocks := freeBlocks }

/-- `(~0) & ~(1 << DADFS_LAST_RESERVED_BLOCK)`, an `int` stored into a `uint64_t`. -/
def mkfsFreeBlocks : BitVec 64 :=
  ((~~~0#32) &&& ~~~(1#32 <<< lastReservedBlock)).signExtend 64

/-- The free map that marks blocks 0 to 5 used, and no other. -/
def correctedFreeBlocks : BitVec 64 := (~~~0#64) <<< (welcomefileDatablockNumber + 1)

def rootInode : Inode :=
  { mode := sIfdir, inodeNo := rootdirInodeNumber
    dataBlockNumber := rootdirDatablockNumber, size := 1 }

/-- `write_journal_inode` leaves the mode and the size as they are on the stack. -/
def journalInode (mode : Mode) (size : Nat) : Inode :=
  { mode := mode, inodeNo := journalInodeNumber
    dataBlockNumber := journalBlockNumber, size := size }

def welcomeInode : Inode :=
  { mode := sIfreg, inodeNo := welcomefileInodeNumber
    dataBlockNumber := welcomefileDatablockNumber, size := welcomefileBody.length }

def welcomeRecord : DirRecord := { filename := welcomeName, inodeNo := welcomefileInodeNumber }

/-- What mkfs does not write keeps what the device held: the rest of the inode store and of
the root directory's block, the journal, and every later block. -/
structure Device where
  blocks : Disk
  journalMode : Mode
  journalSize : Nat

def mkfsInodes (dev : Device) : Nat → Inode
  | 0 => rootInode
  | 1 => journalInode dev.journalMode dev.journalSize
  | 2 => welcomeInode
  | slot + 3 => (dev.blocks inodestoreBlockNumber).inodes (slot + 3)

def mkfs (freeBlocks : BitVec 64) (dev : Device) : Disk
  | 0 => { dev.blocks 0 with sb := writeSuperblock freeBlocks }
  | 1 => { dev.blocks 1 with inodes := mkfsInodes dev }
  | 4 => { dev.blocks 4 with
      records := Function.update (dev.blocks 4).records 0 welcomeRecord }
  | 5 => { dev.blocks 5 with
      bytes := fun offset => welcomefileBody.getD offset ((dev.blocks 5).bytes offset) }
  | block => dev.blocks block

/-! Reading the image back: `dadfs_get_inode`, `dadfs_lookup`, `dadfs_fill_super`. -/

def dadfsGetInode (inodes : Nat → Inode) (inodeNo : Nat) : Nat → Nat → Option Inode
  | 0, _ => none
  | fuel + 1, i =>
      if (inodes i).inodeNo = inodeNo then some (inodes i)
      else dadfsGetInode inodes inodeNo fuel (i + 1)

/-- The loop of `dadfs_lookup` over the records of a directory. -/
def findRecord (records : Nat → DirRecord) (name : List UInt8) : Nat → Nat → Option DirRecord
  | 0, _ => none
  | fuel + 1, i =>
      if (records i).filename = name then some (records i)
      else findRecord records name fuel (i + 1)

inductive Lookup where
  | attached (inode : Inode)
  | notFound
  /-- `dadfs_iget` reads the mode through the null pointer `dadfs_get_inode` returned. -/
  | oops
  deriving DecidableEq, Repr

def dadfsIget (fs : Fs) (ino : Nat) : Lookup :=
  match dadfsGetInode fs.store ino fs.super.inodesCount 0 with
  | some inode => .attached inode
  | none => .oops

def dadfsLookup (fs : Fs) (dir : Nat) (name : List UInt8) : Lookup :=
  let parent := fs.mem dir
  match findRecord (fs.bufs parent.dataBlockNumber).records name parent.dirChildrenCount 0 with
  | some record => dadfsIget fs record.inodeNo
  | none => .notFound

/-- A mounted filesystem as the VFS uses it: `live` are the numbers of the inodes that some
dentry has attached. -/
structure Vfs where
  fs : Fs
  live : Nat → Bool

def nullInode : Inode := { mode := 0, inodeNo := 0, dataBlockNumber := 0, size := 0 }

/-- The buffers of a fresh mount hold the disk, no mutex is held and no inode but the
root's is in memory. -/
def mounted (disk : Disk) (root : Inode) : Vfs :=
  { fs :=
      { bufs := disk, mem := Function.update (fun _ => nullInode) rootdirInodeNumber root
        held := fun _ => false, badUnlocks := 0, openHandles := 0, allocated := [], log := [] }
    live := fun ino => ino == rootdirInodeNumber }

/-- `dadfs_fill_super`, less the journal; `none` when it refuses the disk or the root's
inode is not there. -/
def dadfsFillSuper (disk : Disk) : Option Vfs :=
  let sb := (disk superblockBlockNumber).sb
  if sb.magic ≠ dadfsMagic then none
  else if sb.blockSize ≠ defaultBlockSize then none
  else (dadfsGetInode (disk inodestoreBlockNumber).inodes rootdirInodeNumber sb.inodesCount 0).map
    (mounted disk)

/-- A zeroed device, as `dd if=/dev/zero` makes it. -/
def zeroDevice : Device :=
  { blocks := fun _ =>
      { sb := { magic := 0, blockSize := 0, inodesCount := 0, freeBlocks := 0 }
        inodes := fun _ => nullInode, records := fun _ => { filename := [], inodeNo := 0 }
        bytes := fun _ => 0 }
    journalMode := 0, journalSize := 0 }

structure Call where
  env : CreateEnv
  dir : Nat
  name : List UInt8
  umode : BitVec 16
  mkdir : Bool
  deriving DecidableEq, Repr

/-- A file with a one-letter name in the root directory. -/
def createFile (letter : UInt8) : Call :=
  { env := {}, dir := rootdirInodeNumber, name := [letter], umode := 0o100644, mkdir := false }

def Call.exec (call : Call) : Kernel (Int × Option Inode) :=
  if call.mkdir then dadfsMkdir call.env call.dir call.name call.umode
  else dadfsCreate call.env call.dir call.name call.umode

/-- The mode that reaches `dadfs_create_fs_object`. -/
def Call.mode (call : Call) : BitVec 16 :=
  if call.mkdir then sIfdir.setWidth 16 ||| call.umode else call.umode

theorem Call.exec_eq (call : Call) :
    call.exec = dadfsCreateFsObject call.env call.dir call.name call.mode := by
  unfold Call.exec Call.mode
  cases call.mkdir <;> rfl

/-- `d_add`: the dentry gets the inode. -/
def Vfs.attach (vfs : Vfs) (inode : Inode) : Vfs :=
  { fs := vfs.fs.setMem inode.inodeNo inode
    live := Function.update vfs.live inode.inodeNo true }

def finalState {α : Type} : EStateM.Result Stuck Fs α → Fs
  | .ok _ fs => fs
  | .error _ fs => fs

def Vfs.call (vfs : Vfs) (call : Call) : Vfs :=
  match call.exec.run vfs.fs with
  | .ok (_, some inode) fs => { vfs with fs := fs }.attach inode
  | .ok (_, none) fs => { vfs with fs := fs }
  | .error _ fs => { vfs with fs := fs }

/-- The directories that a lookup or a creation can be made in. -/
def Vfs.IsDirectory (vfs : Vfs) (dir : Nat) : Prop :=
  vfs.live dir = true ∧ sIsdir (vfs.fs.mem dir).mode = true

/-- What the VFS sees to before it calls the filesystem: the parent is a directory in
memory and the name is a C string of 1 to 255 bytes. -/
structure Vfs.Permits (vfs : Vfs) (call : Call) : Prop where
  live : vfs.live call.dir = true
  directory : sIsdir (vfs.fs.mem call.dir).mode = true
  nonempty : call.name ≠ []
  short : call.name.length ≤ filenameMaxlen
  terminated : 0 ∉ call.name

instance (vfs : Vfs) (call : Call) : Decidable (vfs.Permits call) :=
  decidable_of_iff
    (vfs.live call.dir = true ∧ sIsdir (vfs.fs.mem call.dir).mode = true ∧ call.name ≠ [] ∧
      call.name.length ≤ filenameMaxlen ∧ 0 ∉ call.name)
    ⟨fun ⟨live, directory, nonempty, short, terminated⟩ =>
      ⟨live, directory, nonempty, short, terminated⟩,
      fun ⟨live, directory, nonempty, short, terminated⟩ =>
        ⟨live, directory, nonempty, short, terminated⟩⟩

def Vfs.lookup (vfs : Vfs) (dir : Nat) (name : List UInt8) : Vfs :=
  match dadfsLookup vfs.fs dir name with
  | .attached inode => vfs.attach inode
  | .notFound => vfs
  | .oops => vfs

end Ve482.Dadfs
