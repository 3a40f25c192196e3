import Ve482.Dadfs.Overwrite
import Ve482.Dadfs.Read
import Ve482.Dadfs.Tree

set_option autoImplicit false

namespace Ve482.Dadfs

open Function (update)
open Runs (EveryStep run run_invariant)

/-! The abstract side: what files are for. -/

/-- The bytes of a file's block, of which the file has the first ones. -/
structure File where
  bytes : Nat → UInt8
  size : Nat

def File.text (file : File) : List UInt8 := firstBytes file.bytes file.size

/-- A write overlays the bytes, and a file only grows. -/
def File.write (file : File) (write : FileWrite) : File :=
  { bytes := overlay file.bytes write.pos write.data, size := max file.size write.stop }

/-- A new file has no text, over what the device held in its block. -/
def File.create (dev : Device) (inode : Inode) : File :=
  { bytes := (dev.blocks inode.dataBlockNumber).bytes, size := 0 }

/-- The files of the image that mkfs writes, by number. -/
def mkfsFiles (dev : Device) : Nat → File :=
  update (fun _ => { bytes := fun _ => 0, size := 0 }) welcomefileInodeNumber
    { bytes := (mkfs correctedFreeBlocks dev welcomefileDatablockNumber).bytes
      size := welcomefileBody.length }

inductive FileEvent where
  | tree (event : Event)
  | write (ino : Nat) (write : FileWrite)

structure Filed where
  traced : Traced
  files : Nat → File

def Filed.next (dev : Device) (filed : Filed) : FileEvent → Filed
  | .tree event =>
      { traced := filed.traced.next event
        files := match event with
          | .create call =>
              match call.attached filed.traced.vfs.fs with
              | some inode => update filed.files inode.inodeNo (.create dev inode)
              | none => filed.files
          | .lookup _ _ | .remount => filed.files }
  | .write ino write =>
      { traced := { filed.traced with
          vfs := { filed.traced.vfs with fs := filed.traced.vfs.fs.write ino write } }
        files := update filed.files ino ((filed.files ino).write write) }

/-- The files that a write or a read can be made of. -/
def Vfs.IsFile (vfs : Vfs) (ino : Nat) : Prop :=
  vfs.live ino = true ∧ sIsreg (vfs.fs.mem ino).mode = true

/-- The events of the tree as before, and writes to open files that stay in the block and do not
end before the file does. -/
def Filed.Allows (filed : Filed) : FileEvent → Prop
  | .tree event => filed.traced.Allows event ∧ event.AddsInode
  | .write ino write =>
      filed.traced.vfs.IsFile ino ∧ write.Succeeds ∧ write.stop ≤ defaultBlockSize ∧
        (filed.traced.vfs.fs.mem ino).fileSize ≤ write.stop

section Bytes

variable (fs : Fs) (block : Nat)

theorem takeBlock_bytes (taken : Nat) :
    ((fs.takeBlock taken).bufs block).bytes = (fs.bufs block).bytes :=
  view_update Block.bytes fs.bufs superblockBlockNumber _ block (by rfl)

theorem appendInode_bytes (inode : Inode) :
    ((fs.appendInode inode).bufs block).bytes = (fs.bufs block).bytes :=
  (view_update Block.bytes _ superblockBlockNumber _ block (by rfl)).trans
    (view_update Block.bytes fs.bufs inodestoreBlockNumber _ block (by rfl))

theorem appendRecord_bytes (parent : Inode) (record : DirRecord) :
    ((fs.appendRecord parent record).bufs block).bytes = (fs.bufs block).bytes :=
  view_update Block.bytes fs.bufs parent.dataBlockNumber _ block (by rfl)

theorem saveSlot_bytes (slot : Nat) (inode : Inode) :
    ((fs.saveSlot slot inode).bufs block).bytes = (fs.bufs block).bytes :=
  view_update Block.bytes fs.bufs inodestoreBlockNumber _ block (by rfl)

theorem counted_bytes {env : CreateEnv} (dir : Nat) (name : List UInt8) (inode : Inode)
    (added : env.addInodesLock = false) (addedSb : env.addSbLock = false) :
    ((fs.counted env dir name inode).bufs block).bytes = (fs.bufs block).bytes := by
  have after : fs.afterAdd env inode = fs.appendInode inode := by
    simp only [Fs.afterAdd, added, addedSb, Bool.false_eq_true, ↓reduceIte]
  change ((Fs.linked fs env dir name inode).bufs block).bytes = _
  rw [Fs.linked, appendRecord_bytes, after, appendInode_bytes]

end Bytes

/-- Where a successful creation leaves the bytes of all blocks, and the mutexes. -/
theorem create_leaves {fs fs' : Fs} {call : Call} {attached : Option Inode}
    (added : call.env.addInodesLock = false)
    (result : call.exec.run fs = .ok (0, attached) fs') :
    (∀ block, (fs'.bufs block).bytes = (fs.bufs block).bytes) ∧ fs'.held = fs.held := by
  rw [call.exec_eq] at result
  obtain ⟨-, addedSb, -, slot, -, rfl⟩ := create_zero added result
  refine ⟨fun block => ?_, ?_⟩
  · rw [saveSlot_bytes, counted_bytes _ _ _ _ _ added addedSb, takeBlock_bytes]
  · change (Fs.afterAdd _ call.env (fs.newInode call.mode)).held = fs.held
    simp only [Fs.afterAdd, added, addedSb, Bool.false_eq_true, ↓reduceIte]
    rfl

section Overwritten

variable (fs : Fs) (ino slot pos : Nat) (data : List UInt8)

theorem overwritten_records (block : Nat) :
    (fs.overwritten ino slot pos data).records block = fs.records block :=
  (view_update Block.records _ inodestoreBlockNumber _ block (by rfl)).trans
    (view_update Block.records fs.bufs (fs.mem ino).dataBlockNumber _ block (by rfl))

theorem overwritten_bytes_other {block : Nat} (apart : block ≠ (fs.mem ino).dataBlockNumber) :
    ((fs.overwritten ino slot pos data).bufs block).bytes = (fs.bufs block).bytes := by
  refine (view_update Block.bytes _ inodestoreBlockNumber _ block (by rfl)).trans ?_
  change (update fs.bufs (fs.mem ino).dataBlockNumber _ block).bytes = _
  rw [Function.update_of_ne apart]

end Overwritten

theorem not_directory {mode : Mode} (regular : sIsreg mode = true) : sIsdir mode = false := by
  rw [sIsreg, beq_iff_eq] at regular
  rw [sIsdir, regular]
  decide

/-- The tables agree with the tree, the files in the store with the files, and the free blocks
still hold what the device held. -/
structure Filed.Kept (dev : Device) (filed : Filed) : Prop where
  coherent : ∃ links, Coherent filed.traced links
  sbFree : filed.traced.vfs.fs.held .sb = false
  inodesFree : filed.traced.vfs.fs.held .inodesMgmt = false
  parents : ∀ dir name inode, filed.traced.tree dir name = some inode →
    ∀ i, i < filed.traced.vfs.fs.super.inodesCount → dir = slotNumber i →
      sIsdir (filed.traced.vfs.fs.store i).mode = true
  contents : ∀ i, i < filed.traced.vfs.fs.super.inodesCount → i ≠ journalSlot →
    sIsreg (filed.traced.vfs.fs.store i).mode = true →
      (filed.traced.vfs.fs.bufs (filed.traced.vfs.fs.store i).dataBlockNumber).bytes =
          (filed.files (slotNumber i)).bytes ∧
        (filed.traced.vfs.fs.store i).fileSize = (filed.files (slotNumber i)).size
  unused : ∀ block, 6 ≤ block → block < 32 →
    filed.traced.vfs.fs.super.freeBlocks.getLsbD block = true →
      (filed.traced.vfs.fs.bufs block).bytes = (dev.blocks block).bytes

section Writing

variable {traced : Traced} {links : Links} {ino home : Nat}

/-- An open file, with its slot. -/
theorem Coherent.opened (coherent : Coherent traced links)
    (inodesFree : traced.vfs.fs.held .inodesMgmt = false) (sbFree : traced.vfs.fs.held .sb = false)
    (inside : home < traced.vfs.fs.super.inodesCount)
    (mem : traced.vfs.fs.mem ino = traced.vfs.fs.store home) :
    traced.vfs.fs.Opened ino home := by
  refine ⟨?_, inside, congrArg Inode.fileSize mem.symm, inodesFree, sbFree⟩
  rw [mem, coherent.number inside]
  exact coherent.firstSlot inside

/-- Two slots have two blocks. -/
theorem Coherent.blocksApart (coherent : Coherent traced links) {i j : Nat}
    (left : i < traced.vfs.fs.super.inodesCount) (right : j < traced.vfs.fs.super.inodesCount)
    (same : (traced.vfs.fs.store i).dataBlockNumber = (traced.vfs.fs.store j).dataBlockNumber) :
    i = j := by
  have apart := coherent.image.stores.apart traced.vfs.fs.slots traced.vfs.fs.slots rfl rfl i j
  rw [slots_inside left, slots_inside right] at apart
  exact (apart (coherent.full i left) (coherent.full j right) same).1

/-- A write to an open file keeps the tables as they are but for the size of the file. -/
theorem Coherent.overwritten (coherent : Coherent traced links)
    (inside : home < traced.vfs.fs.super.inodesCount) (notJournal : home ≠ journalSlot)
    (mem : traced.vfs.fs.mem ino = traced.vfs.fs.store home) (number : ino = slotNumber home)
    (regular : sIsreg (traced.vfs.fs.mem ino).mode = true)
    (parents : ∀ dir name inode, traced.tree dir name = some inode →
      ∀ i, i < traced.vfs.fs.super.inodesCount → dir = slotNumber i →
        sIsdir (traced.vfs.fs.store i).mode = true) (pos : Nat) (data : List UInt8) :
    Coherent { traced with
      vfs := { traced.vfs with fs := traced.vfs.fs.overwritten ino home pos data } } links := by
  let fs := traced.vfs.fs
  let inode := { fs.mem ino with size := pos + data.length }
  have plain : sIsdir inode.mode = false := not_directory regular
  have file : sIsdir (fs.store home).mode = false := mem ▸ not_directory regular
  have super : (fs.overwritten ino home pos data).super = fs.super := overwritten_super ..
  have store : (fs.overwritten ino home pos data).store = update fs.store home inode :=
    overwritten_store ..
  have records : (fs.overwritten ino home pos data).records = fs.records :=
    funext (overwritten_records fs ino home pos data)
  have memory : (fs.overwritten ino home pos data).mem = update fs.mem ino inode := rfl
  have slots : (fs.overwritten ino home pos data).slots = update fs.slots home inode := by
    funext i
    unfold Fs.slots
    rw [super, store]
    by_cases here : i = home
    · subst here
      rw [Function.update_self, Function.update_self, if_pos inside]
    · rw [Function.update_of_ne here, Function.update_of_ne here]
  have same : SameObject (fs.slots home) inode := by
    rw [slots_inside inside, ← mem]
    exact ⟨rfl, rfl, rfl⟩
  -- a directory is another slot, whose records stay
  have elsewhere {i : Nat} (directory : sIsdir (update fs.store home inode i).mode = true) :
      i ≠ home := by
    rintro rfl
    rw [Function.update_self, plain] at directory
    cases directory
  refine ⟨?_, ?_, ?_, ?_, ?_, ?_, ?_⟩
  · have used : (fs.slots home).Used := (slots_inside inside).symm ▸ coherent.full home inside
    have image := coherent.image.saveInode rfl used inside same fun directory =>
      absurd directory (plain ▸ Bool.false_ne_true)
    change Image (fs.overwritten ino home pos data).super (fs.overwritten ino home pos data).records
      links (· = (fs.overwritten ino home pos data).slots)
    rw [super, records, slots]
    exact image.sub fun other same => Or.inr same
  · intro i below
    change ((fs.overwritten ino home pos data).store i).Used
    rw [store]
    by_cases here : i = home
    · subst here
      rw [Function.update_self]
      have used := coherent.full i inside
      rw [← mem] at used
      exact used
    · rw [Function.update_of_ne here]
      exact coherent.full i (super ▸ below)
  · intro other live
    change ∃ slot, slot < (fs.overwritten ino home pos data).super.inodesCount ∧ _ ∧
      (fs.overwritten ino home pos data).mem other =
        (fs.overwritten ino home pos data).store slot ∧ _
    rw [super, store, memory]
    by_cases here : other = ino
    · subst here
      exact ⟨home, inside, notJournal, by rw [Function.update_self, Function.update_self], number⟩
    · obtain ⟨slot, below, apart, held, named⟩ := coherent.memory other live
      refine ⟨slot, below, apart, ?_, named⟩
      have away : slot ≠ home := by
        rintro rfl
        exact here (named.trans number.symm)
      rw [Function.update_of_ne here, Function.update_of_ne away]
      exact held
  · intro i below apart directory index counted
    change traced.tree (slotNumber i) ((fs.overwritten ino home pos data).records
        ((fs.overwritten ino home pos data).store i).dataBlockNumber index).filename =
      some (links ((fs.overwritten ino home pos data).store i).dataBlockNumber index)
    change sIsdir ((fs.overwritten ino home pos data).store i).mode = true at directory
    change index < ((fs.overwritten ino home pos data).store i).dirChildrenCount at counted
    rw [store] at directory counted ⊢
    have away := elsewhere directory
    rw [records]
    rw [Function.update_of_ne away] at directory counted ⊢
    exact coherent.entries i (super ▸ below) apart directory index counted
  · intro dir name entry present
    obtain ⟨i, below, same, index, counted, text⟩ := coherent.listed dir name entry present
    have directory := parents dir name entry present i below same
    have away : i ≠ home := by
      rintro rfl
      rw [file] at directory
      cases directory
    refine ⟨i, super.symm ▸ below, same, index, ?_⟩
    change index < ((fs.overwritten ino home pos data).store i).dirChildrenCount ∧
      ((fs.overwritten ino home pos data).records
        ((fs.overwritten ino home pos data).store i).dataBlockNumber index).filename = name
    rw [store, records, Function.update_of_ne away]
    exact ⟨counted, text⟩
  · exact (congrArg SuperBlock.magic super).trans coherent.magic
  · exact (congrArg SuperBlock.blockSize super).trans coherent.blockSize

end Writing

variable {dev : Device} {filed : Filed}

theorem Filed.Kept.write (kept : filed.Kept dev) {ino : Nat} {write : FileWrite}
    (file : filed.traced.vfs.IsFile ino) (succeeds : write.Succeeds)
    (past : (filed.traced.vfs.fs.mem ino).fileSize ≤ write.stop) :
    (filed.next dev (.write ino write)).Kept dev := by
  obtain ⟨links, coherent⟩ := kept.coherent
  obtain ⟨home, inside, notJournal, mem, number⟩ := coherent.memory ino file.1
  let fs := filed.traced.vfs.fs
  let inode := { fs.mem ino with size := write.stop }
  have regular : sIsreg (fs.store home).mode = true := mem ▸ file.2
  have leaves : fs.write ino write = fs.overwritten ino home write.pos write.data :=
    write_eq (coherent.opened kept.inodesFree kept.sbFree inside mem) succeeds
  have next : filed.next dev (.write ino write) =
      { traced := { filed.traced with
          vfs := { filed.traced.vfs with fs := fs.overwritten ino home write.pos write.data } }
        files := update filed.files ino ((filed.files ino).write write) } := by
    rw [Filed.next, leaves]
  rw [next]
  have super : (fs.overwritten ino home write.pos write.data).super = fs.super :=
    overwritten_super ..
  have store : (fs.overwritten ino home write.pos write.data).store = update fs.store home inode :=
    overwritten_store ..
  have block : (fs.mem ino).dataBlockNumber = (fs.store home).dataBlockNumber :=
    congrArg Inode.dataBlockNumber mem
  refine ⟨⟨links, coherent.overwritten inside notJournal mem number file.2 kept.parents _ _⟩,
    kept.sbFree, kept.inodesFree, fun dir name entry present i below same => ?_,
    fun i below apart kind => ?_, fun free above low unmarked => ?_⟩
  · change sIsdir ((fs.overwritten ino home write.pos write.data).store i).mode = true
    have directory := kept.parents dir name entry present i (super ▸ below) same
    have away : i ≠ home := by
      rintro rfl
      rw [not_directory regular] at directory
      cases directory
    rw [store, Function.update_of_ne away]
    exact directory
  · change sIsreg ((fs.overwritten ino home write.pos write.data).store i).mode = true at kind
    change ((fs.overwritten ino home write.pos write.data).bufs
        ((fs.overwritten ino home write.pos write.data).store i).dataBlockNumber).bytes =
          (update filed.files ino ((filed.files ino).write write) (slotNumber i)).bytes ∧
        ((fs.overwritten ino home write.pos write.data).store i).fileSize =
          (update filed.files ino ((filed.files ino).write write) (slotNumber i)).size
    have below : i < fs.super.inodesCount := super ▸ below
    rw [store] at kind ⊢
    by_cases here : i = home
    · subst here
      rw [Function.update_self, ← number, Function.update_self]
      obtain ⟨before, size⟩ := kept.contents i inside notJournal regular
      rw [← number] at before size
      have grows : (filed.files ino).size ≤ write.stop := by
        rw [← size, ← mem]
        exact past
      refine ⟨?_, (Nat.max_eq_right grows).symm⟩
      change (_ : Nat → UInt8) = overlay (filed.files ino).bytes write.pos write.data
      rw [← before]
      exact (overwritten_bytes fs ino i write.pos write.data).trans
        (congrArg (fun block => overlay (fs.bufs block).bytes write.pos write.data) block)
    · rw [Function.update_of_ne here] at kind ⊢
      have away : slotNumber i ≠ ino := fun same => here (slotNumber_inj (same.trans number))
      rw [Function.update_of_ne away, overwritten_bytes_other]
      · exact kept.contents i below apart kind
      · rw [block]
        exact fun same => here (coherent.blocksApart below inside same)
  · rw [super] at unmarked
    change ((fs.overwritten ino home write.pos write.data).bufs free).bytes = _
    rw [overwritten_bytes_other]
    · exact kept.unused free above low unmarked
    · intro same
      have unowned := coherent.image.stores.unowned above unmarked rfl (i := home)
      rw [slots_inside inside] at unowned
      exact unowned (coherent.full home inside) (same.trans block).symm

theorem Filed.Kept.create (kept : filed.Kept dev) {call : Call}
    (creates : filed.traced.vfs.Creates call) (adds : call.env.addInodesLock = false) :
    (filed.next dev (.tree (.create call))).Kept dev := by
  obtain ⟨links, coherent⟩ := kept.coherent
  obtain ⟨home, fs', creation, result⟩ := coherent.creation creates adds
  obtain ⟨bytes, held⟩ := create_leaves adds result
  let fs := filed.traced.vfs.fs
  let inode := fs.newInode call.mode
  have tree : filed.traced.next (.create call) =
      { vfs := { filed.traced.vfs with fs := fs' }.attach inode
        tree := filed.traced.tree.insert call.dir call.name inode } := by
    simp only [Traced.next, Vfs.call, Call.attached, result]
    rfl
  have next : filed.next dev (.tree (.create call)) =
      { traced := filed.traced.next (.create call)
        files := update filed.files inode.inodeNo (.create dev inode) } := by
    simp only [Filed.next, Call.attached, result]
    rfl
  obtain ⟨links', coherent', -⟩ := coherent.createStep creates adds
  rw [next]
  rw [tree] at coherent' ⊢
  have newNumber : inode.inodeNo = slotNumber fs.super.inodesCount :=
    (if_neg (Nat.not_lt.mpr coherent.image.lower)).symm
  have freeBlock := coherent.image.tracked.firstFree creation.admits.block
  refine ⟨⟨links', coherent'⟩, (congrFun held _).trans kept.sbFree,
    (congrFun held _).trans kept.inodesFree, fun dir name entry present i below same => ?_,
    fun i below apart kind => ?_, fun free above low unmarked => ?_⟩
  · change sIsdir (fs'.store i).mode = true
    change i < fs'.super.inodesCount at below
    rw [creation.count] at below
    by_cases parent : i = home
    · subst parent
      rw [creation.store_parent]
      exact creation.directory
    have old : filed.traced.tree dir name = some entry := by
      change filed.traced.tree.insert call.dir call.name inode dir name = some entry at present
      rwa [insert_other] at present
      rintro rfl rfl
      exact parent (slotNumber_inj (same.symm.trans creation.number))
    obtain ⟨j, inside, named, -⟩ := coherent.listed dir name entry old
    obtain rfl := slotNumber_inj (same.symm.trans named)
    rw [creation.store_other inside parent]
    exact kept.parents dir name entry old i inside same
  · change sIsreg (fs'.store i).mode = true at kind
    change (fs'.bufs (fs'.store i).dataBlockNumber).bytes =
        (update filed.files inode.inodeNo (.create dev inode) (slotNumber i)).bytes ∧
      (fs'.store i).fileSize =
        (update filed.files inode.inodeNo (.create dev inode) (slotNumber i)).size
    change i < fs'.super.inodesCount at below
    rw [creation.count] at below
    rw [bytes, newNumber]
    by_cases new : i = filed.traced.vfs.fs.super.inodesCount
    · rw [new, Function.update_self, creation.store_new]
      exact ⟨kept.unused _ freeBlock.1 freeBlock.2.1 freeBlock.2.2, rfl⟩
    by_cases parent : i = home
    · subst parent
      rw [creation.store_parent] at kind
      have regular : sIsreg (filed.traced.vfs.fs.store i).mode = true := kind
      have directory := creation.directory
      rw [not_directory regular] at directory
      cases directory
    have inside : i < filed.traced.vfs.fs.super.inodesCount := by omega
    rw [creation.store_other inside parent] at kind ⊢
    rw [Function.update_of_ne fun same => new (slotNumber_inj same)]
    exact kept.contents i inside apart kind
  · change fs'.super.freeBlocks.getLsbD free = true at unmarked
    change (fs'.bufs free).bytes = _
    rw [creation.created.super, getLsbD_unmask _ _ _ (by omega), Bool.and_eq_true] at unmarked
    rw [bytes]
    exact kept.unused free above low unmarked.1

/-- What is in memory may change as long as the buffers do not. -/
theorem Filed.Kept.reopened (kept : filed.Kept dev) {vfs : Vfs}
    (coherent : ∃ links, Coherent { filed.traced with vfs := vfs } links)
    (bufs : vfs.fs.bufs = filed.traced.vfs.fs.bufs) (sbFree : vfs.fs.held .sb = false)
    (inodesFree : vfs.fs.held .inodesMgmt = false) :
    Filed.Kept dev { filed with traced := { filed.traced with vfs := vfs } } := by
  have super : vfs.fs.super = filed.traced.vfs.fs.super :=
    congrArg (fun bufs : Disk => (bufs superblockBlockNumber).sb) bufs
  have store : vfs.fs.store = filed.traced.vfs.fs.store :=
    congrArg (fun bufs : Disk => (bufs inodestoreBlockNumber).inodes) bufs
  refine ⟨coherent, sbFree, inodesFree, ?_, ?_, ?_⟩
  · change ∀ dir name inode, filed.traced.tree dir name = some inode →
      ∀ i, i < vfs.fs.super.inodesCount → dir = slotNumber i → sIsdir (vfs.fs.store i).mode = true
    rw [super, store]
    exact kept.parents
  · change ∀ i, i < vfs.fs.super.inodesCount → i ≠ journalSlot →
      sIsreg (vfs.fs.store i).mode = true →
        (vfs.fs.bufs (vfs.fs.store i).dataBlockNumber).bytes = (filed.files (slotNumber i)).bytes ∧
          (vfs.fs.store i).fileSize = (filed.files (slotNumber i)).size
    rw [super, store, bufs]
    exact kept.contents
  · change ∀ block, 6 ≤ block → block < 32 → vfs.fs.super.freeBlocks.getLsbD block = true →
      (vfs.fs.bufs block).bytes = (dev.blocks block).bytes
    rw [super, bufs]
    exact kept.unused

theorem Filed.Kept.lookup (kept : filed.Kept dev) {dir : Nat} (name : List UInt8)
    (directory : filed.traced.vfs.IsDirectory dir) :
    (filed.next dev (.tree (.lookup dir name))).Kept dev := by
  obtain ⟨links, coherent⟩ := kept.coherent
  have same : ∃ mem, (filed.traced.vfs.lookup dir name).fs =
      { filed.traced.vfs.fs with mem := mem } := by
    unfold Vfs.lookup
    cases dadfsLookup filed.traced.vfs.fs dir name with
    | attached inode => exact ⟨_, rfl⟩
    | notFound => exact ⟨_, rfl⟩
    | oops => exact ⟨_, rfl⟩
  obtain ⟨mem, same⟩ := same
  refine kept.reopened ⟨links, coherent.lookupStep name directory⟩ ?_ ?_ ?_
  · rw [same]
  · rw [same]
    exact kept.sbFree
  · rw [same]
    exact kept.inodesFree

theorem Filed.Kept.remount (kept : filed.Kept dev) :
    (filed.next dev (.tree .remount)).Kept dev := by
  obtain ⟨links, coherent⟩ := kept.coherent
  have next : (dadfsFillSuper filed.traced.vfs.fs.bufs).getD filed.traced.vfs =
      mounted filed.traced.vfs.fs.bufs (filed.traced.vfs.fs.store 0) := by
    rw [coherent.fillSuper]
    rfl
  refine kept.reopened ⟨links, coherent.remount⟩ ?_ ?_ ?_
  all_goals rw [next]; rfl

theorem Filed.Kept.step (kept : filed.Kept dev) {event : FileEvent} (allowed : filed.Allows event) :
    (filed.next dev event).Kept dev := by
  cases event with
  | write ino write => exact kept.write allowed.1 allowed.2.1 allowed.2.2.2
  | tree event =>
      cases event with
      | create call => exact kept.create allowed.1 allowed.2
      | lookup dir name => exact kept.lookup name allowed.1
      | remount => exact kept.remount

/-- The freshly made image, mounted. -/
def filesStart (dev : Device) : Filed := { traced := treeStart dev, files := mkfsFiles dev }

theorem filesStart_kept (dev : Device) : (filesStart dev).Kept dev := by
  refine ⟨⟨_, treeStart_coherent dev⟩, rfl, rfl, fun dir name inode entry i inside same => ?_,
    fun i inside apart kind => ?_, fun block above low unmarked => ?_⟩
  · have root : dir = rootdirInodeNumber := by
      by_contra other
      change mkfsTree dir name = some inode at entry
      rw [mkfsTree, insert_other _ _ fun here => absurd here other] at entry
      cases entry
    obtain rfl : i = 0 := slotNumber_inj (same.symm.trans root)
    exact (by decide : sIsdir rootInode.mode = true)
  · have inside : i < 3 := inside
    obtain rfl | rfl | rfl : i = 0 ∨ i = 1 ∨ i = 2 := by omega
    · exact absurd kind (show ¬ sIsreg rootInode.mode = true by decide)
    · exact absurd rfl apart
    · exact ⟨rfl, rfl⟩
  · obtain ⟨later, rfl⟩ := Nat.exists_eq_add_of_le' above
    rfl

/-- What the files keep to in every state of a run. -/
structure Filed.Faithful (filed : Filed) : Prop where
  names : filed.traced.vfs.Refines filed.traced.tree
  text : ∀ ino, filed.traced.vfs.IsFile ino →
    filed.traced.vfs.fs.fileText ino = (filed.files ino).text
  stored : ∀ ino, filed.traced.vfs.IsFile ino →
    (filed.traced.vfs.fs.storedInode ino).map Inode.fileSize = some (filed.files ino).size
  reads : ∀ ino, filed.traced.vfs.IsFile ino → ∀ env : ReadEnv, env.Succeeds → ∀ len,
    (dadfsRead env filed.traced.vfs.fs ino len 0).buf = (filed.files ino).text.take len

theorem Filed.Kept.faithful (kept : filed.Kept dev) : filed.Faithful := by
  obtain ⟨links, coherent⟩ := kept.coherent
  have shown (ino : Nat) (file : filed.traced.vfs.IsFile ino) :
      (filed.traced.vfs.fs.bufs (filed.traced.vfs.fs.mem ino).dataBlockNumber).bytes =
          (filed.files ino).bytes ∧
        (filed.traced.vfs.fs.mem ino).fileSize = (filed.files ino).size ∧
        filed.traced.vfs.fs.storedInode ino = some (filed.traced.vfs.fs.mem ino) := by
    obtain ⟨home, inside, notJournal, mem, number⟩ := coherent.memory ino file.1
    have regular := file.2
    rw [mem] at regular ⊢
    have contents := kept.contents home inside notJournal regular
    rw [← number] at contents
    refine ⟨contents.1, contents.2, ?_⟩
    rw [Fs.storedInode, number, getInode_eq (coherent.firstSlot inside) (by omega)]
  refine ⟨coherent.refines, fun ino file => ?_, fun ino file => ?_, fun ino file env succeeds len => ?_⟩
  · obtain ⟨bytes, size, -⟩ := shown ino file
    rw [Fs.fileText, bytes, size]
    rfl
  · obtain ⟨-, size, stored⟩ := shown ino file
    rw [stored, Option.map_some, size]
  · obtain ⟨bytes, size, -⟩ := shown ino file
    have text : (filed.files ino).text.take len =
        firstBytes (filed.files ino).bytes (min (filed.files ino).size len) := by
      rw [File.text, firstBytes, firstBytes, ← List.map_take, List.take_range, Nat.min_comm]
    rw [text]
    rcases Nat.eq_zero_or_pos (filed.traced.vfs.fs.mem ino).fileSize with empty | some
    · rw [dadfsRead_end env _ ino len (Nat.le_of_eq empty), ← size, empty, Nat.zero_min]
      rfl
    · rw [dadfsRead_inside succeeds _ ino len some, bytes, size]

/-- What was written before and after the remount. -/
example : ((run (Filed.next zeroDevice) (filesStart zeroDevice)
    [.tree (.create (createFile 97)), .write 11 (smoothWrite 0 [72, 105]), .tree .remount,
      .tree (.lookup rootdirInodeNumber [97]), .write 11 (smoothWrite 2 [33])]).files 11).text =
    [72, 105, 33] := by
  decide +kernel

end Ve482.Dadfs
