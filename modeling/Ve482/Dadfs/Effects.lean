import Ve482.Dadfs.Mount

set_option autoImplicit false

namespace Ve482.Dadfs

open EStateM (Result)

abbrev Fs.records (fs : Fs) (block : Nat) : Nat → DirRecord := (fs.bufs block).records

/-! The parts of the image under each write: a block is read only through the view that
was written, so a write changes one part and leaves the others. -/

theorem view_update {α : Type} (view : Block → α) (bufs : Disk) (block : Nat) (content : Block)
    (other : Nat) (same : view content = view (bufs block)) :
    view (Function.update bufs block content other) = view (bufs other) := by
  by_cases hit : other = block
  · subst hit
    rw [Function.update_self, same]
  · rw [Function.update_of_ne hit]

section TakeBlock

variable (fs : Fs) (block : Nat)

theorem takeBlock_bufs :
    (fs.takeBlock block).bufs = Function.update fs.bufs superblockBlockNumber
      { fs.bufs superblockBlockNumber with
        sb := { fs.super with freeBlocks := fs.super.freeBlocks &&& ~~~shiftMask block } } := rfl

@[simp] theorem takeBlock_super :
    (fs.takeBlock block).super =
      { fs.super with freeBlocks := fs.super.freeBlocks &&& ~~~shiftMask block } := rfl

@[simp] theorem takeBlock_store : (fs.takeBlock block).store = fs.store := rfl

@[simp] theorem takeBlock_records (other : Nat) :
    (fs.takeBlock block).records other = fs.records other :=
  view_update Block.records fs.bufs superblockBlockNumber _ other (by rfl)

@[simp] theorem takeBlock_mem : (fs.takeBlock block).mem = fs.mem := rfl

@[simp] theorem takeBlock_allocated :
    (fs.takeBlock block).allocated = fs.allocated ++ [block] := rfl

end TakeBlock

section AppendInode

variable (fs : Fs) (inode : Inode)

@[simp] theorem appendInode_super :
    (fs.appendInode inode).super =
      { fs.super with inodesCount := fs.super.inodesCount + 1 } := rfl

@[simp] theorem appendInode_store :
    (fs.appendInode inode).store = Function.update fs.store fs.super.inodesCount inode := rfl

@[simp] theorem appendInode_records (other : Nat) :
    (fs.appendInode inode).records other = fs.records other :=
  (view_update Block.records _ superblockBlockNumber _ other (by rfl)).trans
    (view_update Block.records fs.bufs inodestoreBlockNumber _ other (by rfl))

@[simp] theorem appendInode_mem : (fs.appendInode inode).mem = fs.mem := rfl

@[simp] theorem appendInode_allocated : (fs.appendInode inode).allocated = fs.allocated := rfl

end AppendInode

section AppendRecord

variable (fs : Fs) (parent : Inode) (record : DirRecord)

@[simp] theorem appendRecord_super : (fs.appendRecord parent record).super = fs.super :=
  view_update Block.sb fs.bufs parent.dataBlockNumber _ superblockBlockNumber (by rfl)

@[simp] theorem appendRecord_store : (fs.appendRecord parent record).store = fs.store :=
  view_update Block.inodes fs.bufs parent.dataBlockNumber _ inodestoreBlockNumber (by rfl)

theorem appendRecord_records_self :
    (fs.appendRecord parent record).records parent.dataBlockNumber =
      Function.update (fs.records parent.dataBlockNumber) parent.dirChildrenCount record := by
  change (Function.update fs.bufs parent.dataBlockNumber _ parent.dataBlockNumber).records = _
  rw [Function.update_self]

theorem appendRecord_records_other {other : Nat} (apart : other ≠ parent.dataBlockNumber) :
    (fs.appendRecord parent record).records other = fs.records other := by
  change (Function.update fs.bufs parent.dataBlockNumber _ other).records = _
  rw [Function.update_of_ne apart]

@[simp] theorem appendRecord_mem : (fs.appendRecord parent record).mem = fs.mem := rfl

@[simp] theorem appendRecord_allocated :
    (fs.appendRecord parent record).allocated = fs.allocated := rfl

end AppendRecord

section SaveSlot

variable (fs : Fs) (slot : Nat) (inode : Inode)

@[simp] theorem saveSlot_super : (fs.saveSlot slot inode).super = fs.super := rfl

@[simp] theorem saveSlot_store :
    (fs.saveSlot slot inode).store = Function.update fs.store slot inode := rfl

@[simp] theorem saveSlot_records (other : Nat) :
    (fs.saveSlot slot inode).records other = fs.records other :=
  view_update Block.records fs.bufs inodestoreBlockNumber _ other (by rfl)

@[simp] theorem saveSlot_mem : (fs.saveSlot slot inode).mem = fs.mem := rfl

@[simp] theorem saveSlot_allocated : (fs.saveSlot slot inode).allocated = fs.allocated := rfl

end SaveSlot

@[simp] theorem setMem_super (fs : Fs) (ino : Nat) (inode : Inode) :
    (fs.setMem ino inode).super = fs.super := rfl

@[simp] theorem setMem_store (fs : Fs) (ino : Nat) (inode : Inode) :
    (fs.setMem ino inode).store = fs.store := rfl

@[simp] theorem setMem_records (fs : Fs) (ino : Nat) (inode : Inode) (block : Nat) :
    (fs.setMem ino inode).records block = fs.records block := rfl

@[simp] theorem setMem_mem (fs : Fs) (ino : Nat) (inode : Inode) :
    (fs.setMem ino inode).mem = Function.update fs.mem ino inode := rfl

@[simp] theorem setMem_allocated (fs : Fs) (ino : Nat) (inode : Inode) :
    (fs.setMem ino inode).allocated = fs.allocated := rfl

def Fs.takeOps (fs : Fs) (block : Nat) : List BufOp :=
  [writeSuper fs.bufs { fs.super with freeBlocks := fs.super.freeBlocks &&& ~~~shiftMask block },
    .markDirty superblockBlockNumber, .sync superblockBlockNumber]

def Fs.addOps (fs : Fs) (inode : Inode) : List BufOp :=
  let slotted := fs.emit (writeInode fs.bufs fs.super.inodesCount inode)
  [writeInode fs.bufs fs.super.inodesCount inode,
    writeSuper slotted.bufs { slotted.super with inodesCount := slotted.super.inodesCount + 1 },
    .markDirty inodestoreBlockNumber, .markDirty superblockBlockNumber,
    .sync superblockBlockNumber]

def Fs.recordOps (fs : Fs) (parent : Inode) (record : DirRecord) : List BufOp :=
  [writeRecord fs.bufs parent.dataBlockNumber parent.dirChildrenCount record,
    .markDirty parent.dataBlockNumber, .sync parent.dataBlockNumber]

def Fs.saveOps (fs : Fs) (slot : Nat) (inode : Inode) : List BufOp :=
  [writeInode fs.bufs slot inode, .markDirty inodestoreBlockNumber, .sync inodestoreBlockNumber]

theorem takeBlock_log (fs : Fs) (block : Nat) :
    (fs.takeBlock block).log = fs.log ++ fs.takeOps block := by
  simp only [Fs.takeBlock, Fs.sbSync, Fs.emit, Fs.takeOps, List.append_assoc, List.cons_append,
    List.nil_append]

theorem appendInode_log (fs : Fs) (inode : Inode) :
    (fs.appendInode inode).log = fs.log ++ fs.addOps inode := by
  simp only [Fs.appendInode, Fs.sbSync, Fs.emit, Fs.addOps, List.append_assoc, List.cons_append,
    List.nil_append]

theorem appendRecord_log (fs : Fs) (parent : Inode) (record : DirRecord) :
    (fs.appendRecord parent record).log = fs.log ++ fs.recordOps parent record := by
  simp only [Fs.appendRecord, Fs.emit, Fs.recordOps, List.append_assoc, List.cons_append,
    List.nil_append]

theorem saveSlot_log (fs : Fs) (slot : Nat) (inode : Inode) :
    (fs.saveSlot slot inode).log = fs.log ++ fs.saveOps slot inode := by
  simp only [Fs.saveSlot, Fs.emit, Fs.saveOps, List.append_assoc, List.cons_append,
    List.nil_append]

/-- A creation that passes every check up to and including the search for a block. -/
structure Fs.Admits (fs : Fs) (env : CreateEnv) (umode : BitVec 16) : Prop where
  childrenLock : env.childrenLock = false
  childrenFree : fs.held .directoryChildrenUpdate = false
  objectsCountLock : env.objectsCountLock = false
  inodesFree : fs.held .inodesMgmt = false
  room : fs.super.inodesCount < maxFilesystemObjectsSupported
  kind : (sIsdir (umode.setWidth 32) || sIsreg (umode.setWidth 32)) = true
  newInode : env.newInode = true
  freeblockLock : env.freeblockLock = false
  sbFree : fs.held .sb = false
  block : firstFree fs.super.freeBlocks ≠ maxFilesystemObjectsSupported

instance (fs : Fs) (env : CreateEnv) (umode : BitVec 16) : Decidable (fs.Admits env umode) :=
  decidable_of_iff
    ((env.childrenLock = false ∧ fs.held .directoryChildrenUpdate = false ∧
      env.objectsCountLock = false ∧ fs.held .inodesMgmt = false ∧
      fs.super.inodesCount < maxFilesystemObjectsSupported) ∧
      (sIsdir (umode.setWidth 32) || sIsreg (umode.setWidth 32)) = true ∧ env.newInode = true ∧
      env.freeblockLock = false ∧ fs.held .sb = false ∧
      firstFree fs.super.freeBlocks ≠ maxFilesystemObjectsSupported)
    ⟨fun ⟨⟨a, b, c, d, e⟩, f, g, h, i, j⟩ => ⟨a, b, c, d, e, f, g, h, i, j⟩,
      fun ⟨a, b, c, d, e, f, g, h, i, j⟩ => ⟨⟨a, b, c, d, e⟩, f, g, h, i, j⟩⟩

/-- The inode an admitted creation makes. -/
def Fs.newInode (fs : Fs) (umode : BitVec 16) : Inode :=
  { mode := umode.setWidth 32, inodeNo := fs.super.inodesCount + startIno - reservedInodes + 1
    dataBlockNumber := firstFree fs.super.freeBlocks, size := 0 }

/-- The image, the inodes in memory and the history are untouched. -/
structure SameFiles (fs fs' : Fs) : Prop where
  bufs : fs'.bufs = fs.bufs
  mem : fs'.mem = fs.mem
  allocated : fs'.allocated = fs.allocated
  log : fs'.log = fs.log

theorem SameFiles.refl (fs : Fs) : SameFiles fs fs := ⟨rfl, rfl, rfl, rfl⟩

theorem SameFiles.unlock (fs : Fs) (mutex : Mutex) : SameFiles fs (fs.unlock mutex) := by
  unfold Fs.unlock
  split <;> exact ⟨rfl, rfl, rfl, rfl⟩

/-- A creation that is turned away: a negative result and nothing changed, or no return. -/
inductive Refused (fs : Fs) : Result Stuck Fs (Int × Option Inode) → Prop where
  | failed {ret : Int} {fs' : Fs} (negative : ret < 0) (same : SameFiles fs fs') :
      Refused fs (.ok (ret, none) fs')
  | stuck {stuck : Stuck} {fs' : Fs} (same : SameFiles fs fs') : Refused fs (.error stuck fs')

theorem Refused.sameFiles {fs : Fs} {result : Result Stuck Fs (Int × Option Inode)}
    (refused : Refused fs result) : SameFiles fs (finalState result) := by
  cases refused with
  | failed negative same => exact same
  | stuck same => exact same

theorem create_admitted {fs : Fs} {env : CreateEnv} {umode : BitVec 16} (dir : Nat)
    (name : List UInt8) (admits : fs.Admits env umode) :
    (dadfsCreateFsObject env dir name umode).run fs =
      (fs.takeBlock (firstFree fs.super.freeBlocks)).linkResult env dir name
        (fs.newInode umode) := by
  have kind : (!sIsdir (umode.setWidth 32) && !sIsreg (umode.setWidth 32)) = false := by
    rw [← Bool.not_or, admits.kind, Bool.not_true]
  have room : ¬ fs.super.inodesCount ≥ maxFilesystemObjectsSupported := Nat.not_le.mpr admits.room
  rw [dadfsCreateFsObject_run]
  simp only [admits.childrenLock, admits.childrenFree, admits.objectsCountLock, admits.inodesFree,
    room, kind, admits.newInode, admits.freeblockLock, admits.sbFree, admits.block,
    Bool.false_eq_true, Bool.not_true, ↓reduceIte]
  rfl

theorem create_refused {fs : Fs} {env : CreateEnv} {umode : BitVec 16} (dir : Nat)
    (name : List UInt8) (refused : ¬ fs.Admits env umode) :
    Refused fs ((dadfsCreateFsObject env dir name umode).run fs) := by
  rw [dadfsCreateFsObject_run]
  dsimp only
  by_cases childrenLock : env.childrenLock = true
  · rw [if_pos childrenLock]
    exact .failed (by decide) (.refl fs)
  rw [if_neg childrenLock]
  by_cases childrenHeld : fs.held .directoryChildrenUpdate = true
  · rw [if_pos childrenHeld]
    exact .stuck (.refl fs)
  rw [if_neg childrenHeld]
  by_cases objectsCountLock : env.objectsCountLock = true
  · rw [if_pos objectsCountLock]
    exact .failed (by decide) (.refl fs)
  rw [if_neg objectsCountLock]
  by_cases inodesHeld : fs.held .inodesMgmt = true
  · rw [if_pos inodesHeld]
    exact .stuck ⟨rfl, rfl, rfl, rfl⟩
  rw [if_neg inodesHeld]
  by_cases full : fs.super.inodesCount ≥ maxFilesystemObjectsSupported
  · rw [if_pos full]
    exact .failed (by decide) (.refl fs)
  rw [if_neg full]
  by_cases kind : (!sIsdir (umode.setWidth 32) && !sIsreg (umode.setWidth 32)) = true
  · rw [if_pos kind]
    exact .failed (by decide) (.refl fs)
  rw [if_neg kind]
  by_cases newInode : (!env.newInode) = true
  · rw [if_pos newInode]
    exact .failed (by decide) (.refl fs)
  rw [if_neg newInode]
  by_cases freeblockLock : env.freeblockLock = true
  · rw [if_pos freeblockLock]
    exact .failed (by decide) (.unlock fs .sb)
  rw [if_neg freeblockLock]
  by_cases sbHeld : fs.held .sb = true
  · rw [if_pos sbHeld]
    exact .stuck ⟨rfl, rfl, rfl, rfl⟩
  rw [if_neg sbHeld]
  by_cases block : firstFree fs.super.freeBlocks = maxFilesystemObjectsSupported
  · rw [if_pos block]
    exact .failed (by decide) (.refl fs)
  rw [Bool.not_eq_true] at childrenLock childrenHeld objectsCountLock inodesHeld
  rw [Bool.not_eq_true] at freeblockLock sbHeld
  rw [← Bool.not_or, Bool.not_eq_true, Bool.not_eq_false'] at kind
  rw [Bool.not_eq_true, Bool.not_eq_false'] at newInode
  exact absurd ⟨childrenLock, childrenHeld, objectsCountLock, inodesHeld, Nat.not_le.mp full, kind,
    newInode, freeblockLock, sbHeld, block⟩ refused

section CallState

variable (vfs : Vfs) (call : Call)

theorem call_fs :
    ∃ mem, (vfs.call call).fs = { finalState (call.exec.run vfs.fs) with mem := mem } := by
  unfold Vfs.call
  cases call.exec.run vfs.fs with
  | ok value fs =>
      obtain ⟨ret, attached⟩ := value
      cases attached with
      | none => exact ⟨fs.mem, rfl⟩
      | some inode => exact ⟨Function.update fs.mem inode.inodeNo inode, rfl⟩
  | error stuck fs => exact ⟨fs.mem, rfl⟩

theorem call_bufs : (vfs.call call).fs.bufs = (finalState (call.exec.run vfs.fs)).bufs := by
  obtain ⟨mem, same⟩ := call_fs vfs call
  rw [same]

theorem call_held : (vfs.call call).fs.held = (finalState (call.exec.run vfs.fs)).held := by
  obtain ⟨mem, same⟩ := call_fs vfs call
  rw [same]

theorem call_allocated :
    (vfs.call call).fs.allocated = (finalState (call.exec.run vfs.fs)).allocated := by
  obtain ⟨mem, same⟩ := call_fs vfs call
  rw [same]

theorem call_log : (vfs.call call).fs.log = (finalState (call.exec.run vfs.fs)).log := by
  obtain ⟨mem, same⟩ := call_fs vfs call
  rw [same]

end CallState

end Ve482.Dadfs
