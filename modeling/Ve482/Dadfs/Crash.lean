import Ve482.Dadfs.Image

set_option autoImplicit false

namespace Ve482.Dadfs

open EStateM (Result)
open WriteBack (Cache Exec commit cut_append)

/-! The machine: a mounted filesystem over a write-back cache, which may stop at any moment. -/

/-- A cache that holds what the disk holds. -/
def clean (disk : Disk) : Cache Nat Block :=
  { bufs := disk, dirty := fun _ => false, disk := disk }

/-- The operations of one call. -/
def Vfs.callOps (vfs : Vfs) (call : Call) : List BufOp :=
  (vfs.call call).fs.log.drop vfs.fs.log.length

/-- For each record on the disk, the inode of the creation that wrote it: a write of a
record's length is noted under its block and index. -/
def noteRecord (inode : Inode) (links : Links) : BufOp → Links
  | .write block offset length _ =>
      if length = dirRecordBytes then links.put block (offset / dirRecordBytes) inode else links
  | .markDirty _ => links
  | .sync _ => links

def noteRecords (inode : Inode) (links : Links) (ops : List BufOp) : Links :=
  ops.foldl (noteRecord inode) links

structure Machine where
  vfs : Vfs
  cache : Cache Nat Block
  links : Links

/-- A creation as the VFS makes it, in a directory that has room if it comes to that. -/
structure Vfs.Calls (vfs : Vfs) (call : Call) : Prop where
  permits : vfs.Permits call
  room : vfs.fs.Admits call.env call.mode → (vfs.fs.mem call.dir).HasRoom

section Machines

variable (allows : Vfs → Call → Prop)

/-- What a crash may leave on the disk, between two calls or between two operations of one.
`allows` says which locks of a call may be interrupted. -/
inductive Machine.Crashes (machine : Machine) : Disk → Links → Prop where
  | idle {last : Cache Nat Block} (run : Exec machine.cache [] last) :
      machine.Crashes last.disk machine.links
  | during {call : Call} (calls : machine.vfs.Calls call) (allowed : allows machine.vfs call)
      {cut : List BufOp} (before : cut <+: machine.vfs.callOps call) {last : Cache Nat Block}
      (run : Exec machine.cache cut last) :
      machine.Crashes last.disk (noteRecords (machine.vfs.fs.newInode call.mode) machine.links cut)

inductive Reached (dev : Device) : Machine → Prop where
  | mkfs : Reached dev
      { vfs := mounted (mkfs correctedFreeBlocks dev) rootInode
        cache := clean (mkfs correctedFreeBlocks dev), links := fun _ _ => welcomeInode }
  | call {machine : Machine} (reached : Reached dev machine) {call : Call}
      (calls : machine.vfs.Calls call) (allowed : allows machine.vfs call) {last : Cache Nat Block}
      (run : Exec machine.cache (machine.vfs.callOps call) last) : Reached dev
      { vfs := machine.vfs.call call, cache := last
        links := noteRecords (machine.vfs.fs.newInode call.mode) machine.links
          (machine.vfs.callOps call) }
  | lookup {machine : Machine} (reached : Reached dev machine) {dir : Nat}
      (directory : machine.vfs.IsDirectory dir) (name : List UInt8) :
      Reached dev { machine with vfs := machine.vfs.lookup dir name }
  | remount {machine : Machine} (reached : Reached dev machine) {disk : Disk} {links : Links}
      (crash : machine.Crashes allows disk links) {vfs : Vfs}
      (mounts : dadfsFillSuper disk = some vfs) :
      Reached dev { vfs := vfs, cache := clean disk, links := links }

end Machines

/-- `dadfs_inode_add` is not left out silently: if a signal interrupts its first lock, one
interrupts the lock that `dadfs_create_fs_object` takes next as well. -/
def CreateEnv.AddsOrStops (env : CreateEnv) : Prop :=
  env.addInodesLock = false ∨ env.inodesLock = true

def Vfs.AddsOrStops (vfs : Vfs) (call : Call) : Prop :=
  vfs.fs.Admits call.env call.mode → call.env.AddsOrStops

/-- The slots that a walk from the root directory comes to. -/
inductive Leads (disk : Disk) : Nat → Prop where
  | root {slot : Nat} (inside : slot < (disk superblockBlockNumber).sb.inodesCount)
      (number : ((disk inodestoreBlockNumber).inodes slot).inodeNo = rootdirInodeNumber) :
      Leads disk slot
  | child {dir slot index : Nat} (parent : Leads disk dir)
      (directory : sIsdir ((disk inodestoreBlockNumber).inodes dir).mode = true)
      (below : index < ((disk inodestoreBlockNumber).inodes dir).dirChildrenCount)
      (inside : slot < (disk superblockBlockNumber).sb.inodesCount)
      (number : ((disk inodestoreBlockNumber).inodes slot).inodeNo =
        ((disk ((disk inodestoreBlockNumber).inodes dir).dataBlockNumber).records index).inodeNo) :
      Leads disk slot

structure Consistent (disk : Disk) (links : Links) : Prop where
  named : ∀ dir, Leads disk dir → sIsdir ((disk inodestoreBlockNumber).inodes dir).mode = true →
    ∀ index, index < ((disk inodestoreBlockNumber).inodes dir).dirChildrenCount →
      ∃ slot, slot < (disk superblockBlockNumber).sb.inodesCount ∧
        ((disk ((disk inodestoreBlockNumber).inodes dir).dataBlockNumber).records index).inodeNo =
          ((disk inodestoreBlockNumber).inodes slot).inodeNo ∧
        SameObject (links ((disk inodestoreBlockNumber).inodes dir).dataBlockNumber index)
          ((disk inodestoreBlockNumber).inodes slot)
  apart : ∀ i j, Leads disk i → Leads disk j → i ≠ j →
    ((disk inodestoreBlockNumber).inodes i).inodeNo ≠
        ((disk inodestoreBlockNumber).inodes j).inodeNo ∧
      ((disk inodestoreBlockNumber).inodes i).dataBlockNumber ≠
        ((disk inodestoreBlockNumber).inodes j).dataBlockNumber
  count : (disk superblockBlockNumber).sb.inodesCount ≤ maxFilesystemObjectsSupported

/-- The invariant as it concerns the disk alone. -/
def DiskImage (disk : Disk) (links : Links) : Prop :=
  Image (disk superblockBlockNumber).sb (fun block => (disk block).records) links
    (· = (disk inodestoreBlockNumber).inodes)

section DiskImages

variable {disk : Disk} {links : Links}

theorem DiskImage.slot_of_number (image : DiskImage disk links) {slot home : Nat}
    (number : ((disk inodestoreBlockNumber).inodes slot).inodeNo = slotNumber home) :
    ((disk inodestoreBlockNumber).inodes slot).Used ∧ slot = home := by
  have used : ((disk inodestoreBlockNumber).inodes slot).Used := by
    unfold Inode.Used
    rw [number]
    exact slotNumber_ne_zero home
  exact ⟨used, slotNumber_inj ((image.stores.numbered _ rfl slot used).symm.trans number)⟩

/-- The slots that a walk comes to hold inodes, and the journal's is not among them. -/
theorem DiskImage.leads (image : DiskImage disk links) {slot : Nat} (leads : Leads disk slot) :
    ((disk inodestoreBlockNumber).inodes slot).Used ∧ slot ≠ journalSlot := by
  induction leads with
  | root inside number =>
      obtain ⟨used, rfl⟩ := image.slot_of_number (show _ = slotNumber 0 from number)
      exact ⟨used, by decide⟩
  | child parent directory below inside number ih =>
      have names := image.named _ rfl _ ih.2 ih.1 directory _ below
      obtain ⟨home, counted, notJournal, same⟩ := names.stored
      have homeUsed : ((disk inodestoreBlockNumber).inodes home).Used := by
        unfold Inode.Used
        rw [← same.inodeNo]
        exact names.used
      rw [names.number, same.inodeNo, image.stores.numbered _ rfl home homeUsed] at number
      obtain ⟨used, here⟩ := image.slot_of_number number
      exact ⟨used, here ▸ notJournal⟩

theorem DiskImage.consistent (image : DiskImage disk links) : Consistent disk links := by
  refine ⟨?_, ?_, image.upper⟩
  · intro dir leads directory index below
    obtain ⟨used, notJournal⟩ := image.leads leads
    have names := image.named _ rfl dir notJournal used directory index below
    obtain ⟨slot, inside, _, same⟩ := names.stored
    exact ⟨slot, inside, names.number.trans same.inodeNo, same⟩
  · intro i j left right different
    have usedLeft := (image.leads left).1
    have usedRight := (image.leads right).1
    constructor
    · intro same
      rw [image.stores.numbered _ rfl i usedLeft, image.stores.numbered _ rfl j usedRight] at same
      exact different (slotNumber_inj same)
    · intro same
      exact different (image.stores.apart _ _ rfl rfl i j usedLeft usedRight same).1

end DiskImages

/-! The invariant between the segments of a call. -/

/-- Every block but the inode store is on the disk; the store on the disk is a version that
its buffer has held. -/
structure Settled (fs : Fs) (cache : Cache Nat Block) (links : Links) (versions : Store → Prop) :
    Prop where
  bufs : cache.bufs = fs.bufs
  same : ∀ block, block ≠ inodestoreBlockNumber → cache.disk block = fs.bufs block
  frame : (cache.disk inodestoreBlockNumber).records = fs.records inodestoreBlockNumber
  image : Image fs.super fs.records links versions
  disk : versions (cache.disk inodestoreBlockNumber).inodes
  newest : Newest versions fs.store

/-- A block the program has not written: as it was on the disk, or as it is in its buffer. -/
def Kept (fs : Fs) (cache last : Cache Nat Block) (block : Nat) : Prop :=
  last.disk block = cache.disk block ∨ last.disk block = fs.bufs block

section Segments

variable {fs : Fs} {cache last : Cache Nat Block} {links : Links} {versions : Store → Prop}

theorem Settled.records_kept (settled : Settled fs cache links versions) {block : Nat}
    (kept : Kept fs cache last block) : (last.disk block).records = fs.records block := by
  rcases kept with old | new
  · rw [old]
    by_cases store : block = inodestoreBlockNumber
    · subst store
      exact settled.frame
    · rw [settled.same block store]
  · rw [new]

theorem Settled.super_kept (settled : Settled fs cache links versions)
    (kept : Kept fs cache last superblockBlockNumber) :
    (last.disk superblockBlockNumber).sb = fs.super := by
  rcases kept with old | new
  · rw [old, settled.same _ (by decide)]
  · rw [new]

theorem Settled.store_kept (settled : Settled fs cache links versions)
    (kept : Kept fs cache last inodestoreBlockNumber) :
    versions (last.disk inodestoreBlockNumber).inodes := by
  rcases kept with old | new
  · rw [old]
    exact settled.disk
  · rw [new]
    exact settled.newest.member

theorem Settled.kept_same (settled : Settled fs cache links versions) {block : Nat}
    (kept : Kept fs cache last block) (apart : block ≠ inodestoreBlockNumber) :
    last.disk block = fs.bufs block := by
  rcases kept with old | new
  · rw [old, settled.same block apart]
  · exact new

theorem DiskImage.of_image {disk : Disk} {sb : SuperBlock} {records : Records}
    (image : Image sb records links versions) (super : (disk superblockBlockNumber).sb = sb)
    (same : ∀ block, (disk block).records = records block)
    (store : versions (disk inodestoreBlockNumber).inodes) : DiskImage disk links := by
  have records : (fun block => (disk block).records) = records := funext same
  unfold DiskImage
  rw [super, records]
  exact image.sub fun other equal => equal ▸ store

theorem Settled.diskImage
    (settled : Settled fs cache links versions) : DiskImage cache.disk links :=
  .of_image settled.image (by rw [settled.same _ (by decide)])
    (fun _ => settled.records_kept (Or.inl rfl)) settled.disk

theorem Settled.idle (settled : Settled fs cache links versions) (run : Exec cache [] last) :
    Settled fs last links versions := by
  have kept (block : Nat) : Kept fs cache last block := by
    have result := run.disk_unwritten block rfl
    rwa [settled.bufs] at result
  exact ⟨run.bufs_eq.trans settled.bufs, fun block apart => settled.kept_same (kept block) apart,
    settled.records_kept (kept _), settled.image, settled.store_kept (kept _), settled.newest⟩

theorem Settled.cut_commit (settled : Settled fs cache links versions) {block offset length : Nat}
    {content : Block} {cut : List BufOp} (before : cut <+: commit block offset length content)
    (run : Exec cache cut last) :
    (Kept fs cache last block ∨ last.disk block = content) ∧
      ∀ other, other ≠ block → Kept fs cache last other := by
  have result (other : Nat) := run.disk_cut before other
  rw [settled.bufs] at result
  constructor
  · rcases result block with old | new | later
    · exact Or.inl (Or.inl old)
    · exact Or.inl (Or.inr new)
    · rw [WriteBack.versions_commit_self, List.mem_singleton] at later
      exact Or.inr later
  · intro other apart
    rcases result other with old | new | later
    · exact Or.inl old
    · exact Or.inr new
    · rw [WriteBack.versions_commit_other apart] at later
      cases later

theorem Settled.commit_other (settled : Settled fs cache links versions)
    {block offset length other : Nat} {content : Block} (apart : other ≠ block)
    (run : Exec cache (commit block offset length content) last) : Kept fs cache last other := by
  have result := WriteBack.commit_disk_other apart run
  rwa [settled.bufs] at result

theorem Settled.takeCut (settled : Settled fs cache links versions)
    (found : firstFree fs.super.freeBlocks ≠ maxFilesystemObjectsSupported) {cut : List BufOp}
    (before : cut <+: fs.takeOps (firstFree fs.super.freeBlocks)) (run : Exec cache cut last) :
    DiskImage last.disk links := by
  obtain ⟨super, others⟩ := settled.cut_commit before run
  have store := settled.store_kept (others inodestoreBlockNumber (by decide))
  rcases super with kept | new
  · refine .of_image settled.image (settled.super_kept kept) (fun block => ?_) store
    by_cases zero : block = superblockBlockNumber
    · subst zero
      exact settled.records_kept kept
    · exact settled.records_kept (others block zero)
  · refine .of_image (settled.image.takeBlock found) (by rw [new]) (fun block => ?_) store
    by_cases zero : block = superblockBlockNumber
    · subst zero
      rw [new]
    · exact settled.records_kept (others block zero)

theorem Settled.takeWhole (settled : Settled fs cache links versions)
    (found : firstFree fs.super.freeBlocks ≠ maxFilesystemObjectsSupported)
    (run : Exec cache (fs.takeOps (firstFree fs.super.freeBlocks)) last) :
    Settled (fs.takeBlock (firstFree fs.super.freeBlocks)) last links versions := by
  have other (block : Nat) (apart : block ≠ superblockBlockNumber) : Kept fs cache last block :=
    settled.commit_other apart run
  have records : (fs.takeBlock (firstFree fs.super.freeBlocks)).records = fs.records :=
    funext (takeBlock_records fs _)
  refine ⟨?_, ?_, ?_, ?_, settled.store_kept (other _ (by decide)), settled.newest⟩
  · rw [takeBlock_bufs, ← settled.bufs]
    exact (WriteBack.commit_bufs run).trans (by rw [settled.bufs])
  · intro block apart
    rw [takeBlock_bufs]
    by_cases zero : block = superblockBlockNumber
    · subst zero
      rw [Function.update_self]
      exact WriteBack.commit_disk_self run
    · rw [Function.update_of_ne zero]
      exact settled.kept_same (other block zero) apart
  · rw [records]
    exact settled.records_kept (other _ (by decide))
  · rw [records]
    exact settled.image.takeBlock found

/-- An inode made for the first slot that is not counted, with a block that is taken and in
no slot. -/
structure Fresh (fs : Fs) (versions : Store → Prop) (inode : Inode) : Prop where
  number : inode.inodeNo = slotNumber fs.super.inodesCount
  empty : inode.size = 0
  room : fs.super.inodesCount < maxFilesystemObjectsSupported
  taken : 6 ≤ inode.dataBlockNumber ∧ inode.dataBlockNumber < 32 ∧
    fs.super.freeBlocks.getLsbD inode.dataBlockNumber = false
  unowned : ∀ other, versions other → ∀ i, (other i).Used →
    (other i).dataBlockNumber ≠ inode.dataBlockNumber

def slotWritten (fs : Fs) (slot : Nat) (inode : Inode) : Block :=
  { fs.bufs inodestoreBlockNumber with inodes := Function.update fs.store slot inode }

def countWritten (fs : Fs) : Block :=
  { fs.bufs superblockBlockNumber with
    sb := { fs.super with inodesCount := fs.super.inodesCount + 1 } }

theorem addOps_eq (fs : Fs) (inode : Inode) :
    fs.addOps inode =
      [.write inodestoreBlockNumber (fs.super.inodesCount * inodeBytes) inodeBytes
        (slotWritten fs fs.super.inodesCount inode),
        .write superblockBlockNumber 0 defaultBlockSize (countWritten fs),
        .markDirty inodestoreBlockNumber] ++
      (.markDirty superblockBlockNumber :: [] ++ .sync superblockBlockNumber :: []) := rfl

theorem addOps_versions (fs : Fs) (inode : Inode) (block : Nat) :
    WriteBack.versions block (fs.addOps inode) =
      if block = inodestoreBlockNumber then [slotWritten fs fs.super.inodesCount inode]
      else if block = superblockBlockNumber then [countWritten fs] else [] := by
  rw [addOps_eq]
  simp only [List.cons_append, List.nil_append, WriteBack.versions, eq_comm]
  by_cases store : block = inodestoreBlockNumber
  · subst store
    rfl
  · simp only [store, ↓reduceIte]

theorem appendInode_bufs (fs : Fs) (inode : Inode) :
    (fs.appendInode inode).bufs =
      Function.update (Function.update fs.bufs inodestoreBlockNumber
        (slotWritten fs fs.super.inodesCount inode)) superblockBlockNumber (countWritten fs) := rfl

theorem Settled.add_disk (settled : Settled fs cache links versions) (inode : Inode)
    {cut : List BufOp} (before : cut <+: fs.addOps inode) (run : Exec cache cut last) :
    (Kept fs cache last inodestoreBlockNumber ∨ last.disk inodestoreBlockNumber =
        slotWritten fs fs.super.inodesCount inode) ∧
      (Kept fs cache last superblockBlockNumber ∨
        last.disk superblockBlockNumber = countWritten fs) ∧
      ∀ block, block ≠ inodestoreBlockNumber → block ≠ superblockBlockNumber →
        Kept fs cache last block := by
  have result (block : Nat) := run.disk_cut before block
  simp only [settled.bufs, addOps_versions] at result
  refine ⟨?_, ?_, ?_⟩
  · rcases result inodestoreBlockNumber with old | new | later
    · exact Or.inl (Or.inl old)
    · exact Or.inl (Or.inr new)
    · exact Or.inr (List.mem_singleton.mp later)
  · rcases result superblockBlockNumber with old | new | later
    · exact Or.inl (Or.inl old)
    · exact Or.inl (Or.inr new)
    · exact Or.inr (List.mem_singleton.mp later)
  · intro block store super
    rcases result block with old | new | later
    · exact Or.inl old
    · exact Or.inr new
    · rw [if_neg store, if_neg super] at later
      cases later

/-- No directory block is touched, on the disk either. -/
theorem Settled.add_records (settled : Settled fs cache links versions) (inode : Inode)
    {cut : List BufOp} (before : cut <+: fs.addOps inode) (run : Exec cache cut last)
    (block : Nat) : (last.disk block).records = fs.records block := by
  obtain ⟨store, super, others⟩ := settled.add_disk inode before run
  by_cases one : block = inodestoreBlockNumber
  · subst one
    rcases store with kept | new
    · exact settled.records_kept kept
    · rw [new]
      rfl
  by_cases zero : block = superblockBlockNumber
  · subst zero
    rcases super with kept | new
    · exact settled.records_kept kept
    · rw [new]
      rfl
  exact settled.records_kept (others block one zero)

theorem Settled.add_store (settled : Settled fs cache links versions) (inode : Inode)
    {cut : List BufOp} (before : cut <+: fs.addOps inode) (run : Exec cache cut last) :
    versions (last.disk inodestoreBlockNumber).inodes ∨
      (last.disk inodestoreBlockNumber).inodes =
        Function.update fs.store fs.super.inodesCount inode := by
  rcases (settled.add_disk inode before run).1 with kept | new
  · exact Or.inl (settled.store_kept kept)
  · rw [new]
    exact Or.inr rfl

theorem Settled.addCut (settled : Settled fs cache links versions) {inode : Inode}
    (fresh : Fresh fs versions inode) {cut : List BufOp} (before : cut <+: fs.addOps inode)
    (run : Exec cache cut last) : DiskImage last.disk links := by
  have records := settled.add_records inode before run
  have store := settled.add_store inode before run
  have slotted := settled.image.addInode settled.newest.member fresh.number fresh.empty fresh.taken
    fresh.unowned
  rcases (settled.add_disk inode before run).2.1 with kept | new
  · exact .of_image slotted (settled.super_kept kept) records store
  · exact .of_image (slotted.countInode fresh.room) (by rw [new]; rfl) records store

theorem Settled.addWhole (settled : Settled fs cache links versions) {inode : Inode}
    (fresh : Fresh fs versions inode) (run : Exec cache (fs.addOps inode) last) :
    Settled (fs.appendInode inode) last links fun other =>
      versions other ∨ other = Function.update fs.store fs.super.inodesCount inode := by
  have whole := List.prefix_refl (fs.addOps inode)
  have records : (fs.appendInode inode).records = fs.records := funext (appendInode_records fs inode)
  have bufs : last.bufs = (fs.appendInode inode).bufs := by
    rw [run.bufs_eq, settled.bufs]
    rfl
  have synced : last.disk superblockBlockNumber = countWritten fs := by
    rw [addOps_eq] at run
    obtain ⟨middle, first, rest⟩ := run.split
    rw [Exec.disk_synced rest rfl rfl, first.bufs_eq]
    rfl
  have slotted := settled.image.addInode settled.newest.member fresh.number fresh.empty fresh.taken
    fresh.unowned
  have blank : (fs.store fs.super.inodesCount).size ≤ inode.size := by
    rw [settled.image.blank fs.store settled.newest.member _ (Nat.le_refl _)]
    exact Nat.zero_le _
  refine ⟨bufs, ?_, ?_, ?_, settled.add_store inode whole run, settled.newest.extend blank⟩
  · intro block apart
    rw [appendInode_bufs]
    by_cases zero : block = superblockBlockNumber
    · subst zero
      rw [Function.update_self]
      exact synced
    · rw [Function.update_of_ne zero, Function.update_of_ne apart]
      exact settled.kept_same ((settled.add_disk inode whole run).2.2 block apart zero) apart
  · rw [records]
    exact settled.add_records inode whole run _
  · rw [records]
    exact slotted.countInode fresh.room

theorem Stores.block_ge {freeBlocks : BitVec 64} {versions : Store → Prop}
    (stores : Stores freeBlocks versions) {store : Store} (member : versions store) {slot : Nat}
    (used : (store slot).Used) : 2 ≤ (store slot).dataBlockNumber := by
  by_cases low : slot < reservedInodes
  · rw [(stores.reserved store member slot low).2]
    unfold reservedBlock
    split <;> decide
  · have bound := (stores.taken store member slot (Nat.not_lt.mp low) used).1
    omega

def recordWritten (fs : Fs) (parent : Inode) (record : DirRecord) : Block :=
  { fs.bufs parent.dataBlockNumber with
    records := Function.update (fs.records parent.dataBlockNumber) parent.dirChildrenCount record }

theorem appendRecord_bufs (fs : Fs) (parent : Inode) (record : DirRecord) :
    (fs.appendRecord parent record).bufs =
      Function.update fs.bufs parent.dataBlockNumber (recordWritten fs parent record) := rfl

section Record

variable {slot : Nat} {parent : Inode}

theorem Placed.block_ge (placed : Placed fs.super.inodesCount fs.records links fs.store slot parent)
    (settled : Settled fs cache links versions) : 2 ≤ parent.dataBlockNumber := by
  rw [← placed.same.block]
  exact settled.image.stores.block_ge settled.newest.member placed.used

theorem Settled.recordImage (settled : Settled fs cache links versions)
    (placed : Placed fs.super.inodesCount fs.records links fs.store slot parent)
    (record : DirRecord) (inode : Inode) :
    Image fs.super (Records.put fs.records parent.dataBlockNumber parent.dirChildrenCount record)
      (links.put parent.dataBlockNumber parent.dirChildrenCount inode) versions :=
  settled.image.appendRecord record inode
    (settled.image.uncounted settled.newest placed)

/-- Once the record is written to its buffer, the disk has the old one or the new one. -/
theorem Settled.recordCut (settled : Settled fs cache links versions)
    (placed : Placed fs.super.inodesCount fs.records links fs.store slot parent)
    (record : DirRecord) (inode : Inode) {cut : List BufOp}
    (before : cut <+: fs.recordOps parent record) (run : Exec cache cut last) :
    DiskImage last.disk (links.put parent.dataBlockNumber parent.dirChildrenCount inode) := by
  obtain ⟨block, others⟩ := settled.cut_commit before run
  have bound := placed.block_ge settled
  have store := settled.store_kept (others inodestoreBlockNumber
    (by intro same; rw [← same] at bound; exact absurd bound (by decide)))
  have super := settled.super_kept (others superblockBlockNumber
    (by intro same; rw [← same] at bound; exact absurd bound (by decide)))
  rcases block with kept | new
  · have same := settled.recordImage placed
      (fs.records parent.dataBlockNumber parent.dirChildrenCount) inode
    rw [Records.put, Function.update_eq_self, Function.update_eq_self] at same
    refine .of_image same super (fun other => ?_) store
    by_cases here : other = parent.dataBlockNumber
    · subst here
      exact settled.records_kept kept
    · exact settled.records_kept (others other here)
  · refine .of_image (settled.recordImage placed record inode) super (fun other => ?_) store
    rw [Records.put]
    by_cases here : other = parent.dataBlockNumber
    · subst here
      rw [new, Function.update_self]
    · rw [Function.update_of_ne here]
      exact settled.records_kept (others other here)

theorem Settled.recordWhole (settled : Settled fs cache links versions)
    (placed : Placed fs.super.inodesCount fs.records links fs.store slot parent)
    (record : DirRecord) (inode : Inode) (run : Exec cache (fs.recordOps parent record) last) :
    Settled (fs.appendRecord parent record) last
      (links.put parent.dataBlockNumber parent.dirChildrenCount inode) versions := by
  have bound := placed.block_ge settled
  have store : inodestoreBlockNumber ≠ parent.dataBlockNumber := by
    intro same
    rw [← same] at bound
    exact absurd bound (by decide)
  have other (block : Nat) (apart : block ≠ parent.dataBlockNumber) : Kept fs cache last block :=
    settled.commit_other apart run
  refine ⟨?_, ?_, ?_, ?_, settled.store_kept (other _ store), ?_⟩
  · rw [appendRecord_bufs, ← settled.bufs]
    exact (WriteBack.commit_bufs run).trans (by rw [settled.bufs]; rfl)
  · intro block apart
    rw [appendRecord_bufs]
    by_cases here : block = parent.dataBlockNumber
    · subst here
      rw [Function.update_self]
      exact WriteBack.commit_disk_self run
    · rw [Function.update_of_ne here]
      exact settled.kept_same (other block here) apart
  · rw [appendRecord_records_other fs parent record store]
    exact settled.records_kept (other _ store)
  · rw [appendRecord_super, appendRecord_records]
    exact settled.recordImage placed record inode
  · rw [appendRecord_store]
    exact settled.newest

end Record

section Save

variable {slot : Nat} {parent : Inode}

theorem Settled.saveImage (settled : Settled fs cache links versions)
    (placed : Placed fs.super.inodesCount fs.records links fs.store slot parent) :
    Image fs.super fs.records links fun other =>
      versions other ∨ other = Function.update fs.store slot parent :=
  settled.image.saveInode settled.newest.member placed.used placed.inside
    placed.same placed.named

theorem Settled.saveCut (settled : Settled fs cache links versions)
    (placed : Placed fs.super.inodesCount fs.records links fs.store slot parent) {cut : List BufOp}
    (before : cut <+: fs.saveOps slot parent) (run : Exec cache cut last) :
    DiskImage last.disk links := by
  obtain ⟨store, others⟩ := settled.cut_commit before run
  have super := settled.super_kept (others superblockBlockNumber (by decide))
  rcases store with kept | new
  · refine .of_image settled.image super (fun block => ?_) (settled.store_kept kept)
    by_cases one : block = inodestoreBlockNumber
    · subst one
      exact settled.records_kept kept
    · exact settled.records_kept (others block one)
  · refine .of_image (settled.saveImage placed) super (fun block => ?_) (Or.inr (by rw [new]))
    by_cases one : block = inodestoreBlockNumber
    · subst one
      rw [new]
    · exact settled.records_kept (others block one)

theorem Settled.saveWhole (settled : Settled fs cache links versions)
    (placed : Placed fs.super.inodesCount fs.records links fs.store slot parent)
    (run : Exec cache (fs.saveOps slot parent) last) :
    Settled (fs.saveSlot slot parent) last links fun other =>
      versions other ∨ other = Function.update fs.store slot parent := by
  have other (block : Nat) (apart : block ≠ inodestoreBlockNumber) : Kept fs cache last block :=
    settled.commit_other apart run
  have records : (fs.saveSlot slot parent).records = fs.records :=
    funext (saveSlot_records fs slot parent)
  have disk : last.disk inodestoreBlockNumber = slotWritten fs slot parent :=
    WriteBack.commit_disk_self run
  have bufs : (fs.saveSlot slot parent).bufs =
      Function.update fs.bufs inodestoreBlockNumber (slotWritten fs slot parent) := rfl
  refine ⟨?_, ?_, ?_, ?_, Or.inr (by rw [disk]; rfl), settled.newest.extend placed.behind⟩
  · rw [bufs, ← settled.bufs]
    exact (WriteBack.commit_bufs run).trans (by rw [settled.bufs]; rfl)
  · intro block apart
    rw [bufs, Function.update_of_ne apart]
    exact settled.kept_same (other block apart) apart
  · rw [records, disk]
    rfl
  · rw [records]
    exact settled.saveImage placed

end Save

end Segments

section Notes

variable (inode : Inode) (links : Links)

theorem noteRecords_append (first second : List BufOp) :
    noteRecords inode links (first ++ second) =
      noteRecords inode (noteRecords inode links first) second :=
  List.foldl_append

/-- Operations that write no record leave the notes as they are. -/
theorem noteRecords_of_quiet {ops cut : List BufOp} (before : cut <+: ops)
    (quiet : ∀ op ∈ ops, ∀ links, noteRecord inode links op = links) :
    noteRecords inode links cut = links := by
  have quiet : ∀ op ∈ cut, ∀ links, noteRecord inode links op = links :=
    fun op member => quiet op (before.subset member)
  unfold noteRecords
  clear before
  induction cut with
  | nil => rfl
  | cons op rest ih =>
      rw [List.foldl_cons, quiet op (List.mem_cons_self ..)]
      exact ih fun other member => quiet other (List.mem_cons_of_mem op member)

@[simp] theorem noteRecord_super (bufs : Disk) (sb : SuperBlock) :
    noteRecord inode links (writeSuper bufs sb) = links := by
  unfold noteRecord writeSuper
  exact if_neg (by decide)

@[simp] theorem noteRecord_inode (bufs : Disk) (slot : Nat) (stored : Inode) :
    noteRecord inode links (writeInode bufs slot stored) = links := by
  unfold noteRecord writeInode
  exact if_neg (by decide)

theorem noteRecord_record (bufs : Disk) (block index : Nat) (record : DirRecord) :
    noteRecord inode links (writeRecord bufs block index record) = links.put block index inode := by
  have whole : index * dirRecordBytes / dirRecordBytes = index := Nat.mul_div_cancel _ (by decide)
  unfold noteRecord writeRecord
  dsimp only
  rw [if_pos rfl, whole]

theorem takeOps_quiet (fs : Fs) (block : Nat) :
    ∀ op ∈ fs.takeOps block, ∀ links, noteRecord inode links op = links := by
  simp only [Fs.takeOps, List.forall_mem_cons]
  exact ⟨fun links => noteRecord_super inode links fs.bufs _, fun _ => rfl, fun _ => rfl, by simp⟩

theorem addOps_quiet (fs : Fs) (made : Inode) :
    ∀ op ∈ fs.addOps made, ∀ links, noteRecord inode links op = links := by
  simp only [Fs.addOps, List.forall_mem_cons]
  exact ⟨fun links => noteRecord_inode inode links fs.bufs _ made,
    fun links => noteRecord_super inode links _ _, fun _ => rfl, fun _ => rfl, fun _ => rfl,
    by simp⟩

theorem saveOps_quiet (fs : Fs) (slot : Nat) (parent : Inode) :
    ∀ op ∈ fs.saveOps slot parent, ∀ links, noteRecord inode links op = links := by
  simp only [Fs.saveOps, List.forall_mem_cons]
  exact ⟨fun links => noteRecord_inode inode links fs.bufs slot parent, fun _ => rfl, fun _ => rfl,
    by simp⟩

theorem noteRecords_recordCut (fs : Fs) (parent : Inode) (record : DirRecord) {cut : List BufOp}
    (before : cut <+: fs.recordOps parent record) :
    cut = [] ∨ noteRecords inode links cut =
      links.put parent.dataBlockNumber parent.dirChildrenCount inode := by
  cases cut with
  | nil => exact Or.inl rfl
  | cons op rest =>
      obtain ⟨rfl, tail⟩ := List.cons_prefix_cons.mp before
      refine Or.inr ?_
      change noteRecords inode (noteRecord inode links (writeRecord ..)) rest = _
      rw [noteRecord_record]
      refine noteRecords_of_quiet inode _ tail ?_
      simp [noteRecord]

theorem noteRecords_recordOps (fs : Fs) (parent : Inode) (record : DirRecord) :
    noteRecords inode links (fs.recordOps parent record) =
      links.put parent.dataBlockNumber parent.dirChildrenCount inode := by
  refine (noteRecords_recordCut inode links fs parent record (List.prefix_refl _)).resolve_left ?_
  unfold Fs.recordOps
  exact List.cons_ne_nil _ _

end Notes

/-- Every inode in memory is a copy of one in a counted slot. -/
def Memory (fs : Fs) (live : Nat → Bool) (links : Links) : Prop :=
  ∀ ino, live ino = true → ∃ slot,
    Placed fs.super.inodesCount fs.records links fs.store slot (fs.mem ino) ∧ ino = slotNumber slot

section MemorySteps

variable {fs : Fs} {live : Nat → Bool} {links : Links}

theorem Memory.congr {fs' : Fs} (memory : Memory fs live links) (bufs : fs'.bufs = fs.bufs)
    (mem : fs'.mem = fs.mem) : Memory fs' live links := by
  unfold Memory Fs.super Fs.records Fs.store
  rw [bufs, mem]
  exact memory

theorem Memory.takeBlock (memory : Memory fs live links) (block : Nat) :
    Memory (fs.takeBlock block) live links := by
  have records : (fs.takeBlock block).records = fs.records := funext (takeBlock_records fs block)
  unfold Memory
  rw [records]
  exact memory

theorem Memory.appendInode (memory : Memory fs live links) (inode : Inode) :
    Memory (fs.appendInode inode) live links := by
  have records : (fs.appendInode inode).records = fs.records := funext (appendInode_records fs inode)
  intro ino here
  obtain ⟨slot, placed, number⟩ := memory ino here
  refine ⟨slot, ?_, number⟩
  rw [records, appendInode_store]
  exact (placed.addInode inode).countInode

theorem Memory.appendRecord {cache : Cache Nat Block} {versions : Store → Prop}
    (memory : Memory fs live links) (settled : Settled fs cache links versions) {dir : Nat}
    (liveDir : live dir = true) (record : DirRecord) (inode : Inode) :
    Memory (fs.appendRecord (fs.mem dir) record) live
      (links.put (fs.mem dir).dataBlockNumber (fs.mem dir).dirChildrenCount inode) := by
  obtain ⟨home, parent, homeNumber⟩ := memory dir liveDir
  intro ino here
  obtain ⟨slot, placed, number⟩ := memory ino here
  refine ⟨slot, ?_, number⟩
  rw [appendRecord_super, appendRecord_records, appendRecord_store]
  refine placed.appendRecord record inode fun same => ?_
  -- two inodes in memory with one block are one inode
  obtain ⟨rfl, -⟩ := settled.image.stores.apart fs.store fs.store settled.newest.member
    settled.newest.member slot home placed.used parent.used
    ((placed.same.block.trans same).trans parent.same.block.symm)
  rw [number, ← homeNumber]

theorem Memory.addChild (memory : Memory fs live links) {dir : Nat}
    (next : Names fs.super.inodesCount fs.store
      (fs.records (fs.mem dir).dataBlockNumber (fs.mem dir).dirChildrenCount)
      (links (fs.mem dir).dataBlockNumber (fs.mem dir).dirChildrenCount)) :
    Memory (fs.setMem dir (fs.mem dir).addChild) live links := by
  intro ino here
  obtain ⟨slot, placed, number⟩ := memory ino here
  refine ⟨slot, ?_, number⟩
  rw [setMem_mem]
  by_cases parent : ino = dir
  · subst parent
    rw [Function.update_self]
    exact placed.addChild next
  · rw [Function.update_of_ne parent]
    exact placed

theorem Memory.saveSlot (memory : Memory fs live links) {dir home : Nat}
    (parent : Placed fs.super.inodesCount fs.records links fs.store home (fs.mem dir))
    (homeNumber : dir = slotNumber home) : Memory (fs.saveSlot home (fs.mem dir)) live links := by
  have records : (fs.saveSlot home (fs.mem dir)).records = fs.records :=
    funext (saveSlot_records fs home (fs.mem dir))
  intro ino here
  obtain ⟨slot, placed, number⟩ := memory ino here
  refine ⟨slot, ?_, number⟩
  rw [records, saveSlot_store]
  by_cases same : slot = home
  · subst same
    rw [number, ← homeNumber]
    exact parent.saveSelf
  · exact placed.saveOther same parent.same

theorem Memory.attach (memory : Memory fs live links) {slot : Nat} {inode : Inode}
    (placed : Placed fs.super.inodesCount fs.records links fs.store slot inode)
    (number : inode.inodeNo = slotNumber slot) :
    Memory (fs.setMem inode.inodeNo inode) (Function.update live inode.inodeNo true) links := by
  intro ino here
  rw [setMem_mem]
  by_cases same : ino = inode.inodeNo
  · subst same
    rw [Function.update_self]
    exact ⟨slot, placed, number⟩
  · rw [Function.update_of_ne same] at here ⊢
    exact memory ino here

end MemorySteps

/-- Wherever the operations are cut, the disk keeps the invariant. -/
def Safe (cache : Cache Nat Block) (inode : Inode) (links : Links) (ops : List BufOp) : Prop :=
  ∀ cut last, cut <+: ops → Exec cache cut last → DiskImage last.disk (noteRecords inode links cut)

theorem Safe.append {cache : Cache Nat Block} {inode : Inode} {links : Links}
    {first second : List BufOp} (left : Safe cache inode links first)
    (right : ∀ middle, Exec cache first middle →
      Safe middle inode (noteRecords inode links first) second) :
    Safe cache inode links (first ++ second) := by
  intro cut last before run
  rcases cut_append before with early | ⟨rest, rfl, later⟩
  · exact left cut last early run
  · obtain ⟨middle, whole, run⟩ := run.split
    rw [noteRecords_append]
    exact right middle whole rest last later run

theorem Settled.congr {fs fs' : Fs} {cache : Cache Nat Block} {links : Links}
    {versions : Store → Prop} (settled : Settled fs cache links versions)
    (bufs : fs'.bufs = fs.bufs) : Settled fs' cache links versions := by
  obtain ⟨cached, same, frame, image, disk, newest⟩ := settled
  unfold Fs.super Fs.records at image
  unfold Fs.records at frame
  unfold Fs.store at newest
  rw [← bufs] at cached same frame image newest
  exact ⟨cached, same, frame, image, disk, newest⟩

section Call

variable {fs : Fs} {cache : Cache Nat Block} {links : Links} {versions : Store → Prop}

theorem Settled.safe_nil (settled : Settled fs cache links versions) (inode : Inode) :
    Safe cache inode links [] := by
  intro cut last before run
  obtain rfl := List.prefix_nil.mp before
  exact (settled.idle run).diskImage

/-- The inode of an admitted creation, once its block is taken. -/
theorem Settled.fresh {env : CreateEnv} {umode : BitVec 16}
    (settled : Settled fs cache links versions) (admits : fs.Admits env umode) :
    Fresh (fs.takeBlock (firstFree fs.super.freeBlocks)) versions (fs.newInode umode) := by
  obtain ⟨above, low, free⟩ := settled.image.tracked.firstFree admits.block
  exact ⟨(if_neg (Nat.not_lt.mpr settled.image.lower)).symm, rfl, admits.room,
    ⟨above, low, getLsbD_unmask_self _ low⟩,
    fun other known i => settled.image.stores.unowned above free known⟩

def Fs.afterAddOps (fs : Fs) (env : CreateEnv) (inode : Inode) : List BufOp :=
  if env.addInodesLock then [] else if env.addSbLock then [] else fs.addOps inode

theorem afterAdd_log (fs : Fs) (env : CreateEnv) (inode : Inode) :
    (fs.afterAdd env inode).log = fs.log ++ fs.afterAddOps env inode := by
  unfold Fs.afterAdd Fs.afterAddOps
  cases env.addInodesLock with
  | true => exact (List.append_nil _).symm
  | false =>
      cases env.addSbLock with
      | true => exact (List.append_nil _).symm
      | false => exact appendInode_log fs inode

theorem afterAddOps_quiet (fs : Fs) (env : CreateEnv) (inode : Inode) :
    ∀ op ∈ fs.afterAddOps env inode, ∀ links, noteRecord inode links op = links := by
  unfold Fs.afterAddOps
  cases env.addInodesLock with
  | true => simp
  | false =>
      cases env.addSbLock with
      | true => simp
      | false => exact addOps_quiet inode fs inode

theorem Settled.afterAdd (settled : Settled fs cache links versions) (env : CreateEnv)
    {inode : Inode} (fresh : Fresh fs versions inode) :
    Safe cache inode links (fs.afterAddOps env inode) ∧
      ∀ last, Exec cache (fs.afterAddOps env inode) last →
        ∃ versions, Settled (fs.afterAdd env inode) last links versions := by
  unfold Fs.afterAdd Fs.afterAddOps
  cases env.addInodesLock with
  | true => exact ⟨settled.safe_nil inode, fun last run => ⟨versions, settled.idle run⟩⟩
  | false =>
      cases env.addSbLock with
      | true =>
          exact ⟨settled.safe_nil inode, fun last run => ⟨versions, (settled.idle run).congr rfl⟩⟩
      | false =>
          refine ⟨fun cut last before run => ?_, fun last run => ⟨_, settled.addWhole fresh run⟩⟩
          rw [noteRecords_of_quiet inode links before (addOps_quiet inode fs inode)]
          exact settled.addCut fresh before run

theorem Memory.afterAdd {live : Nat → Bool} (memory : Memory fs live links) (env : CreateEnv)
    (inode : Inode) : Memory (fs.afterAdd env inode) live links := by
  unfold Fs.afterAdd
  cases env.addInodesLock with
  | true => exact memory
  | false =>
      cases env.addSbLock with
      | true => exact memory.congr rfl rfl
      | false => exact memory.appendInode inode

theorem Settled.record (settled : Settled fs cache links versions) {slot : Nat} {parent : Inode}
    (placed : Placed fs.super.inodesCount fs.records links fs.store slot parent)
    (record : DirRecord) (inode : Inode) :
    Safe cache inode links (fs.recordOps parent record) ∧
      ∀ last, Exec cache (fs.recordOps parent record) last →
        Settled (fs.appendRecord parent record) last
          (noteRecords inode links (fs.recordOps parent record)) versions := by
  refine ⟨fun cut last before run => ?_, fun last run => ?_⟩
  · rcases noteRecords_recordCut inode links fs parent record before with rfl | noted
    · exact (settled.idle run).diskImage
    · rw [noted]
      exact settled.recordCut placed record inode before run
  · rw [noteRecords_recordOps]
    exact settled.recordWhole placed record inode run

theorem Settled.save (settled : Settled fs cache links versions) {slot : Nat} {parent : Inode}
    (placed : Placed fs.super.inodesCount fs.records links fs.store slot parent) (inode : Inode) :
    Safe cache inode links (fs.saveOps slot parent) ∧
      ∀ last, Exec cache (fs.saveOps slot parent) last →
        ∃ versions, Settled (fs.saveSlot slot parent) last
          (noteRecords inode links (fs.saveOps slot parent)) versions := by
  have quiet {cut : List BufOp} (before : cut <+: fs.saveOps slot parent) :=
    noteRecords_of_quiet inode links before (saveOps_quiet inode fs slot parent)
  refine ⟨fun cut last before run => ?_, fun last run => ?_⟩
  · rw [quiet before]
    exact settled.saveCut placed before run
  · rw [quiet (List.prefix_refl _)]
    exact ⟨_, settled.saveWhole placed run⟩

theorem Settled.take (settled : Settled fs cache links versions)
    (found : firstFree fs.super.freeBlocks ≠ maxFilesystemObjectsSupported) (inode : Inode) :
    Safe cache inode links (fs.takeOps (firstFree fs.super.freeBlocks)) ∧
      ∀ last, Exec cache (fs.takeOps (firstFree fs.super.freeBlocks)) last →
        Settled (fs.takeBlock (firstFree fs.super.freeBlocks)) last
          (noteRecords inode links (fs.takeOps (firstFree fs.super.freeBlocks))) versions := by
  have quiet {cut : List BufOp} (before : cut <+: fs.takeOps (firstFree fs.super.freeBlocks)) :=
    noteRecords_of_quiet inode links before (takeOps_quiet inode fs _)
  refine ⟨fun cut last before run => ?_, fun last run => ?_⟩
  · rw [quiet before]
    exact settled.takeCut found before run
  · rw [quiet (List.prefix_refl _)]
    exact settled.takeWhole found run

/-- Either the record is not counted; or the new inode is stored and the parent counts the
record in memory only, or in memory and in its slot. -/
inductive Outcome (fs : Fs) (env : CreateEnv) (dir : Nat) (name : List UInt8) (inode : Inode)
    (slot : Nat) : Result Stuck Fs (Int × Option Inode) → Prop where
  | uncounted {ret : Int} :
      Outcome fs env dir name inode slot (.ok (ret, none) (fs.linked env dir name inode))
  | stuck {stuck : Stuck} {fs' : Fs} (same : SameFiles (fs.linked env dir name inode) fs') :
      Outcome fs env dir name inode slot (.error stuck fs')
  | unsaved {ret : Int} (added : env.addInodesLock = false) (addedSb : env.addSbLock = false) :
      Outcome fs env dir name inode slot (.ok (ret, none) (fs.counted env dir name inode))
  | saved (added : env.addInodesLock = false) (addedSb : env.addSbLock = false) :
      Outcome fs env dir name inode slot
        (.ok (0, some inode) ((fs.counted env dir name inode).saveSlot slot (fs.mem dir).addChild))

theorem linkResult_outcome {env : CreateEnv} {dir slot : Nat} (name : List UInt8) (inode : Inode)
    (adds : env.AddsOrStops)
    (first : FirstSlot fs.store (fs.mem dir).inodeNo 0 slot)
    (inside : slot < fs.super.inodesCount) :
    Outcome fs env dir name inode slot (fs.linkResult env dir name inode) := by
  unfold Fs.linkResult
  by_cases inodesLock : env.inodesLock = true
  · rw [if_pos inodesLock]
    exact .uncounted
  rw [if_neg inodesLock]
  have added := adds.resolve_right inodesLock
  by_cases leaked : (!env.addInodesLock && env.addSbLock) = true
  · rw [if_pos leaked]
    exact .stuck ⟨rfl, rfl, rfl, rfl⟩
  rw [if_neg leaked]
  have addedSb : env.addSbLock = false := by simpa [added] using leaked
  by_cases saveLock : env.saveLock = true
  · rw [if_pos saveLock]
    exact .unsaved added addedSb
  rw [if_neg saveLock, parentSlot_eq name inode added addedSb first inside]
  exact .saved added addedSb

end Call

/-! The invariant of the machine. -/

/-- The disk, the buffers and the inodes in memory of a machine between two calls. -/
structure Sound (vfs : Vfs) (cache : Cache Nat Block) (links : Links) : Prop where
  settled : ∃ versions, Settled vfs.fs cache links versions
  memory : Memory vfs.fs vfs.live links

/-- The operations up to the record, which every admitted creation makes. -/
def Fs.linkOps (fs : Fs) (env : CreateEnv) (dir : Nat) (name : List UInt8) (inode : Inode) :
    List BufOp :=
  let taken := fs.takeBlock (firstFree fs.super.freeBlocks)
  fs.takeOps (firstFree fs.super.freeBlocks) ++ (taken.afterAddOps env inode ++
    (taken.afterAdd env inode).recordOps (fs.mem dir) (newRecord name inode))

theorem linked_log (fs : Fs) (env : CreateEnv) (dir : Nat) (name : List UInt8) (inode : Inode) :
    ((fs.takeBlock (firstFree fs.super.freeBlocks)).linked env dir name inode).log =
      fs.log ++ fs.linkOps env dir name inode := by
  unfold Fs.linked Fs.linkOps
  rw [appendRecord_log, afterAdd_log, takeBlock_log]
  simp only [List.append_assoc]
  rfl

section Linked

variable {fs : Fs} {cache : Cache Nat Block} {links : Links} {versions : Store → Prop}
  {live : Nat → Bool} {env : CreateEnv} {umode : BitVec 16} {dir : Nat}

theorem Settled.linked (settled : Settled fs cache links versions) (memory : Memory fs live links)
    (admits : fs.Admits env umode) (liveDir : live dir = true) (name : List UInt8) :
    Safe cache (fs.newInode umode) links (fs.linkOps env dir name (fs.newInode umode)) ∧
      ∀ last, Exec cache (fs.linkOps env dir name (fs.newInode umode)) last →
        ∃ links', links' = noteRecords (fs.newInode umode) links
            (fs.linkOps env dir name (fs.newInode umode)) ∧
          links' = links.put (fs.mem dir).dataBlockNumber (fs.mem dir).dirChildrenCount
            (fs.newInode umode) ∧
          (∃ versions, Settled ((fs.takeBlock (firstFree fs.super.freeBlocks)).linked env dir name
            (fs.newInode umode)) last links' versions) ∧
          Memory ((fs.takeBlock (firstFree fs.super.freeBlocks)).linked env dir name
            (fs.newInode umode)) live links' := by
  let made := fs.newInode umode
  let taken := fs.takeBlock (firstFree fs.super.freeBlocks)
  have fresh : Fresh taken versions made := settled.fresh admits
  have notedTake := noteRecords_of_quiet made links (List.prefix_refl _)
    (takeOps_quiet made fs (firstFree fs.super.freeBlocks))
  have notedAdd := noteRecords_of_quiet made links (List.prefix_refl _)
    (afterAddOps_quiet taken env made)
  obtain ⟨takeSafe, takeWhole⟩ := settled.take admits.block made
  have memoryAdded : Memory (taken.afterAdd env made) live links :=
    (memory.takeBlock _).afterAdd env made
  have mem : (taken.afterAdd env made).mem = fs.mem := afterAdd_mem taken env made
  obtain ⟨home, placed, _⟩ := memoryAdded dir liveDir
  rw [mem] at placed
  constructor
  · refine takeSafe.append fun middle run => ?_
    have settledTaken := takeWhole middle run
    rw [notedTake] at settledTaken ⊢
    obtain ⟨addSafe, addWhole⟩ := settledTaken.afterAdd env fresh
    refine addSafe.append fun later run => ?_
    obtain ⟨more, settledAdded⟩ := addWhole later run
    rw [notedAdd]
    exact (settledAdded.record placed (newRecord name made) made).1
  · intro last run
    obtain ⟨middle, first, run⟩ := Exec.split run
    obtain ⟨later, second, third⟩ := run.split
    have settledTaken := takeWhole middle first
    rw [notedTake] at settledTaken
    obtain ⟨more, settledAdded⟩ := (settledTaken.afterAdd env fresh).2 later second
    have settledLinked := (settledAdded.record placed (newRecord name made) made).2 last third
    have noted : noteRecords made links (fs.linkOps env dir name made) =
        noteRecords made links ((taken.afterAdd env made).recordOps (fs.mem dir)
          (newRecord name made)) := by
      unfold Fs.linkOps
      rw [noteRecords_append, noteRecords_append, notedTake, notedAdd]
    refine ⟨_, rfl, ?_, ⟨more, ?_⟩, ?_⟩
    · rw [noted, noteRecords_recordOps]
    · rw [noted]
      exact settledLinked
    · rw [noted, noteRecords_recordOps]
      have recorded := memoryAdded.appendRecord settledAdded liveDir (newRecord name made) made
      rw [mem] at recorded
      exact recorded

end Linked

theorem callOps_eq (vfs : Vfs) (call : Call) {ops : List BufOp}
    (log : (vfs.call call).fs.log = vfs.fs.log ++ ops) : vfs.callOps call = ops := by
  rw [Vfs.callOps, log, List.drop_left]

/-- A call that ends with no inode for the dentry leaves the VFS with the state it ended in. -/
theorem call_none (vfs : Vfs) (call : Call) (none : ∀ ret inode fs,
    call.exec.run vfs.fs ≠ .ok (ret, some inode) fs) :
    vfs.call call = { vfs with fs := finalState (call.exec.run vfs.fs) } := by
  unfold Vfs.call
  cases result : call.exec.run vfs.fs with
  | ok value fs =>
      obtain ⟨ret, attached⟩ := value
      cases attached with
      | none => rfl
      | some inode => exact absurd result (none ret inode fs)
  | error stuck fs => rfl

section CallSound

variable {vfs : Vfs} {cache : Cache Nat Block} {links : Links} {call : Call}

theorem Sound.of_same {fs : Fs} (sound : Sound vfs cache links) (bufs : fs.bufs = vfs.fs.bufs)
    (mem : fs.mem = vfs.fs.mem) : Sound { vfs with fs := fs } cache links := by
  obtain ⟨versions, settled⟩ := sound.settled
  exact ⟨⟨versions, settled.congr bufs⟩, sound.memory.congr bufs mem⟩

theorem Sound.idle {last : Cache Nat Block} (sound : Sound vfs cache links)
    (run : Exec cache [] last) : Sound vfs last links := by
  obtain ⟨versions, settled⟩ := sound.settled
  exact ⟨⟨versions, settled.idle run⟩, sound.memory⟩

theorem Sound.refused (sound : Sound vfs cache links)
    (refused : Refused vfs.fs (call.exec.run vfs.fs)) (inode : Inode) :
    Safe cache inode links (vfs.callOps call) ∧
      ∀ last, Exec cache (vfs.callOps call) last →
        Sound (vfs.call call) last (noteRecords inode links (vfs.callOps call)) := by
  have same := refused.sameFiles
  have next : vfs.call call = { vfs with fs := finalState (call.exec.run vfs.fs) } := by
    apply call_none vfs call
    intro ret made fs result
    rw [result] at refused
    cases refused
  have ops : vfs.callOps call = [] := by
    apply callOps_eq vfs call
    rw [call_log, same.log, List.append_nil]
  obtain ⟨versions, settled⟩ := sound.settled
  rw [ops, next]
  exact ⟨settled.safe_nil inode, fun last run => (sound.idle run).of_same same.bufs same.mem⟩

/-- The parent counts the record of an inode that was added. -/
theorem counted_memory (fs : Fs) {env : CreateEnv} {live : Nat → Bool} {dir : Nat}
    {name : List UInt8} {inode : Inode} (added : env.addInodesLock = false)
    (addedSb : env.addSbLock = false) (lower : reservedInodes ≤ fs.super.inodesCount)
    (used : inode.Used) (memory : Memory (fs.linked env dir name inode) live
      (links.put (fs.mem dir).dataBlockNumber (fs.mem dir).dirChildrenCount inode)) :
    Memory (fs.counted env dir name inode) live
      (links.put (fs.mem dir).dataBlockNumber (fs.mem dir).dirChildrenCount inode) := by
  have mem : (fs.linked env dir name inode).mem = fs.mem := afterAdd_mem fs env inode
  have super := counted_super fs dir name inode added addedSb
  have store := counted_store fs dir name inode added addedSb
  have next : Names (fs.linked env dir name inode).super.inodesCount
      (fs.linked env dir name inode).store
      ((fs.linked env dir name inode).records ((fs.linked env dir name inode).mem dir).dataBlockNumber
        ((fs.linked env dir name inode).mem dir).dirChildrenCount)
      (links.put (fs.mem dir).dataBlockNumber (fs.mem dir).dirChildrenCount inode
        ((fs.linked env dir name inode).mem dir).dataBlockNumber
        ((fs.linked env dir name inode).mem dir).dirChildrenCount) := by
    rw [mem, linked_records, Records.put, Links.put, put_same, put_same]
    change Names (fs.counted env dir name inode).super.inodesCount
      (fs.counted env dir name inode).store _ _
    rw [super, store]
    exact names_new lower fs.store name used
  have grown := memory.addChild next
  rw [mem] at grown
  exact grown

/-- The slot of a parent in memory, where `dadfs_inode_save` finds it. -/
theorem Settled.firstSlot {fs : Fs} {versions : Store → Prop}
    (settled : Settled fs cache links versions) {slot : Nat} {copy : Inode}
    (placed : Placed fs.super.inodesCount fs.records links fs.store slot copy) :
    FirstSlot fs.store copy.inodeNo 0 slot := by
  have numbered := settled.image.stores.numbered fs.store settled.newest.member
  refine ⟨Nat.zero_le slot, placed.same.inodeNo, ?_⟩
  intro i _ before same
  rw [← placed.same.inodeNo, numbered slot placed.used] at same
  have used : (fs.store i).Used := by
    unfold Inode.Used
    rw [same]
    exact slotNumber_ne_zero slot
  have equal := slotNumber_inj ((numbered i used).symm.trans same)
  omega

/-- The new inode in its slot, after the parent's slot was written too. -/
theorem newInode_placed (fs : Fs) {env : CreateEnv} {dir : Nat} {name : List UInt8}
    {versions : Store → Prop} {inode : Inode} (added : env.addInodesLock = false)
    (addedSb : env.addSbLock = false) (lower : reservedInodes ≤ fs.super.inodesCount) {home : Nat}
    (inside : home < fs.super.inodesCount) (fresh : Fresh fs versions inode) (parent : Inode)
    (links : Links) :
    Placed ((fs.counted env dir name inode).saveSlot home parent).super.inodesCount
      ((fs.counted env dir name inode).saveSlot home parent).records links
      ((fs.counted env dir name inode).saveSlot home parent).store fs.super.inodesCount inode := by
  have lower : 3 ≤ fs.super.inodesCount := lower
  have store : ((fs.counted env dir name inode).saveSlot home parent).store
      fs.super.inodesCount = inode := by
    rw [saveSlot_store, Function.update_of_ne (by omega),
      counted_store fs dir name inode added addedSb, Function.update_self]
  rw [saveSlot_super, counted_super fs dir name inode added addedSb]
  refine ⟨Nat.lt_succ_self _, show fs.super.inodesCount ≠ 1 by omega, ?_, ?_, ?_, ?_⟩
  · rw [store]
    unfold Inode.Used
    rw [fresh.number]
    exact slotNumber_ne_zero _
  · rw [store]
    exact .refl inode
  · rw [store]
  · intro _ index below
    rw [Inode.dirChildrenCount, fresh.empty] at below
    omega

theorem Sound.admitted (sound : Sound vfs cache links) (calls : vfs.Calls call)
    (adds : call.env.AddsOrStops) (admits : vfs.fs.Admits call.env call.mode) :
    Safe cache (vfs.fs.newInode call.mode) links (vfs.callOps call) ∧
      ∀ last, Exec cache (vfs.callOps call) last → Sound (vfs.call call) last
        (noteRecords (vfs.fs.newInode call.mode) links (vfs.callOps call)) := by
  obtain ⟨versions, settled⟩ := sound.settled
  let made := vfs.fs.newInode call.mode
  let taken := vfs.fs.takeBlock (firstFree vfs.fs.super.freeBlocks)
  have liveDir := calls.permits.live
  obtain ⟨linkSafe, linkWhole⟩ := settled.linked sound.memory admits liveDir call.name
  obtain ⟨home, placed, number⟩ := sound.memory call.dir liveDir
  have first : FirstSlot taken.store (taken.mem call.dir).inodeNo 0 home := settled.firstSlot placed
  have outcome := linkResult_outcome call.name made adds first placed.inside
  have result : call.exec.run vfs.fs = taken.linkResult call.env call.dir call.name made := by
    rw [call.exec_eq, create_admitted call.dir call.name admits]
  have log := linked_log vfs.fs call.env call.dir call.name made
  generalize taken.linkResult call.env call.dir call.name made = ended at outcome result
  cases outcome with
  | uncounted =>
      have next := call_none vfs call (by rw [result]; simp)
      have ops := callOps_eq vfs call (by rw [next, result]; exact log)
      rw [next, ops, result]
      refine ⟨linkSafe, fun last run => ?_⟩
      obtain ⟨_, rfl, _, settledLinked, memoryLinked⟩ := linkWhole last run
      exact ⟨settledLinked, memoryLinked⟩
  | stuck same =>
      have next := call_none vfs call (by rw [result]; simp)
      have ops := callOps_eq vfs call (by rw [next, result]; exact same.log.trans log)
      rw [next, ops, result]
      refine ⟨linkSafe, fun last run => ?_⟩
      obtain ⟨_, rfl, _, ⟨more, settledLinked⟩, memoryLinked⟩ := linkWhole last run
      exact ⟨⟨more, settledLinked.congr same.bufs⟩, memoryLinked.congr same.bufs same.mem⟩
  | unsaved added addedSb =>
      have next := call_none vfs call (by rw [result]; simp)
      have ops := callOps_eq vfs call (by rw [next, result]; exact log)
      rw [next, ops, result]
      refine ⟨linkSafe, fun last run => ?_⟩
      obtain ⟨_, rfl, put, ⟨more, settledLinked⟩, memoryLinked⟩ := linkWhole last run
      refine ⟨⟨more, settledLinked.congr rfl⟩, ?_⟩
      rw [put] at memoryLinked ⊢
      exact counted_memory taken added addedSb settled.image.lower
        (Nat.succ_ne_zero _) memoryLinked
  | saved added addedSb =>
      let counted := taken.counted call.env call.dir call.name made
      have next : vfs.call call =
          { vfs with fs := counted.saveSlot home (vfs.fs.mem call.dir).addChild }.attach made := by
        unfold Vfs.call
        rw [result]
        rfl
      have ops := callOps_eq vfs call (by
        rw [next]
        change (counted.saveSlot home (vfs.fs.mem call.dir).addChild).log = _
        rw [saveSlot_log, show counted.log = _ from log, List.append_assoc])
      have countedMem : counted.mem call.dir = (vfs.fs.mem call.dir).addChild := by
        rw [counted_mem, Function.update_self]
        rfl
      have parts (last : Cache Nat Block)
          (run : Exec cache (vfs.fs.linkOps call.env call.dir call.name made) last) :
          (∃ more, Settled counted last (noteRecords made links
            (vfs.fs.linkOps call.env call.dir call.name made)) more) ∧
          Memory counted vfs.live (noteRecords made links
            (vfs.fs.linkOps call.env call.dir call.name made)) := by
        obtain ⟨_, rfl, put, ⟨more, settledLinked⟩, memoryLinked⟩ := linkWhole last run
        refine ⟨⟨more, settledLinked.congr rfl⟩, ?_⟩
        rw [put] at memoryLinked ⊢
        exact counted_memory taken added addedSb settled.image.lower
          (Nat.succ_ne_zero _) memoryLinked
      have parent {noted : Links} (memory : Memory counted vfs.live noted) :
          Placed counted.super.inodesCount counted.records noted counted.store home
            (counted.mem call.dir) := by
        obtain ⟨slot, placedCounted, sameNumber⟩ := memory call.dir liveDir
        rwa [slotNumber_inj (number.symm.trans sameNumber)]
      rw [ops]
      constructor
      · refine linkSafe.append fun middle run => ?_
        obtain ⟨⟨more, settledCounted⟩, memoryCounted⟩ := parts middle run
        have saved := (settledCounted.save (parent memoryCounted) made).1
        rwa [countedMem] at saved
      · intro last run
        obtain ⟨middle, first, second⟩ := Exec.split run
        obtain ⟨⟨more, settledCounted⟩, memoryCounted⟩ := parts middle first
        rw [← countedMem] at second next ⊢
        obtain ⟨final, settledSaved⟩ :=
          (settledCounted.save (parent memoryCounted) made).2 last second
        have quiet (noted : Links) :=
          noteRecords_of_quiet made noted (List.prefix_refl _)
            (saveOps_quiet made counted home (counted.mem call.dir))
        rw [quiet] at settledSaved
        rw [next, noteRecords_append, quiet]
        refine ⟨⟨final, settledSaved.congr rfl⟩, ?_⟩
        exact (memoryCounted.saveSlot (parent memoryCounted) number).attach
          (newInode_placed taken added addedSb settled.image.lower placed.inside
            (settled.fresh admits) _ _) (settled.fresh admits).number

theorem Sound.create (sound : Sound vfs cache links) (calls : vfs.Calls call)
    (adds : vfs.AddsOrStops call) :
    Safe cache (vfs.fs.newInode call.mode) links (vfs.callOps call) ∧
      ∀ last, Exec cache (vfs.callOps call) last → Sound (vfs.call call) last
        (noteRecords (vfs.fs.newInode call.mode) links (vfs.callOps call)) := by
  by_cases admits : vfs.fs.Admits call.env call.mode
  · exact sound.admitted calls (adds admits) admits
  · have refused := create_refused call.dir call.name admits
    rw [← call.exec_eq] at refused
    exact sound.refused refused (vfs.fs.newInode call.mode)

/-- A lookup takes an inode from a counted slot into memory. -/
theorem Sound.lookup (sound : Sound vfs cache links) {dir : Nat} (directory : vfs.IsDirectory dir)
    (name : List UInt8) : Sound (vfs.lookup dir name) cache links := by
  unfold Vfs.lookup
  cases result : dadfsLookup vfs.fs dir name with
  | notFound => exact sound
  | oops => exact sound
  | attached inode =>
      obtain ⟨versions, settled⟩ := sound.settled
      obtain ⟨home, placed, _⟩ := sound.memory dir directory.1
      have numbered := settled.image.stores.numbered vfs.fs.store settled.newest.member
      unfold dadfsLookup at result
      dsimp only at result
      cases found : findRecord (vfs.fs.bufs (vfs.fs.mem dir).dataBlockNumber).records name
          (vfs.fs.mem dir).dirChildrenCount 0 with
      | none =>
          rw [found] at result
          cases result
      | some record =>
          rw [found] at result
          obtain ⟨index, below, rfl, _⟩ := findRecord_some found
          have names := placed.named directory.2 index (by omega)
          obtain ⟨target, inside, notJournal, same⟩ := names.stored
          have used : (vfs.fs.store target).Used := by
            unfold Inode.Used
            rw [← same.inodeNo]
            exact names.used
          have copy : Placed vfs.fs.super.inodesCount vfs.fs.records links vfs.fs.store target
              (vfs.fs.store target) :=
            ⟨inside, notJournal, used, .refl _, Nat.le_refl _,
              settled.image.named vfs.fs.store settled.newest.member target notJournal used⟩
          have got : dadfsIget vfs.fs (vfs.fs.records (vfs.fs.mem dir).dataBlockNumber index).inodeNo =
              .attached (vfs.fs.store target) := by
            unfold dadfsIget
            rw [names.number, same.inodeNo, getInode_eq (settled.firstSlot copy) (by omega)]
          have which : inode = vfs.fs.store target :=
            Lookup.attached.inj (result.symm.trans got)
          subst which
          exact ⟨⟨versions, settled.congr rfl⟩, sound.memory.attach copy (numbered target used)⟩

end CallSound

/-- A disk that keeps the invariant is mounted into a machine that keeps it. -/
theorem mounted_sound {disk : Disk} {links : Links} (image : DiskImage disk links) {root : Inode}
    (found : dadfsGetInode (disk inodestoreBlockNumber).inodes rootdirInodeNumber
      (disk superblockBlockNumber).sb.inodesCount 0 = some root) :
    Sound (mounted disk root) (clean disk) links := by
  refine ⟨⟨_, rfl, fun _ _ => rfl, rfl, image, rfl, rfl, fun other known i =>
    known ▸ Nat.le_refl _⟩, ?_⟩
  intro ino live
  have same : ino = rootdirInodeNumber := by simpa [mounted] using live
  subst same
  obtain ⟨slot, inside, first, rfl⟩ := getInode_some found
  obtain ⟨used, rfl⟩ := image.slot_of_number (show _ = slotNumber 0 from first.hit)
  rw [Nat.zero_add] at inside
  refine ⟨0, ⟨inside, by decide, used, ?_, ?_, ?_⟩, rfl⟩
  · exact .refl _
  · exact Nat.le_refl _
  · exact image.named _ rfl 0 (by decide) used

theorem Machine.Crashes.diskImage {machine : Machine} {disk : Disk} {links : Links}
    (crash : machine.Crashes Vfs.AddsOrStops disk links)
    (sound : Sound machine.vfs machine.cache machine.links) : DiskImage disk links := by
  cases crash with
  | idle run =>
      obtain ⟨versions, settled⟩ := sound.settled
      exact (settled.idle run).diskImage
  | during calls allowed before run => exact (sound.create calls allowed).1 _ _ before run

/-- The disk that mkfs leaves, with an inode store that is zero past its three inodes. -/
theorem mkfs_diskImage {dev : Device} (zeroed : ∀ slot, reservedInodes ≤ slot →
      (dev.blocks inodestoreBlockNumber).inodes slot = nullInode) :
    DiskImage (mkfs correctedFreeBlocks dev) fun _ _ => welcomeInode := by
  have rest (i : Nat) (high : reservedInodes ≤ i) : mkfsInodes dev i = nullInode := by
    match i, high with
    | slot + 3, _ => exact zeroed (slot + 3) (Nat.le_add_left 3 slot)
  exact mkfs_image dev (fun _ _ => rfl) rest (by rfl) rfl

theorem Reached.sound {dev : Device} (zeroed : ∀ slot, reservedInodes ≤ slot →
      (dev.blocks inodestoreBlockNumber).inodes slot = nullInode)
    {machine : Machine} (reached : Reached Vfs.AddsOrStops dev machine) :
    Sound machine.vfs machine.cache machine.links := by
  induction reached with
  | mkfs => exact mounted_sound (mkfs_diskImage zeroed) rfl
  | call reached calls allowed run ih => exact (ih.create calls allowed).2 _ run
  | lookup reached directory name ih => exact ih.lookup directory name
  | @remount machine reached disk links crash vfs mounts ih =>
      have image := crash.diskImage ih
      unfold dadfsFillSuper at mounts
      dsimp only at mounts
      by_cases magic : (disk superblockBlockNumber).sb.magic ≠ dadfsMagic
      · rw [if_pos magic] at mounts
        cases mounts
      rw [if_neg magic] at mounts
      by_cases size : (disk superblockBlockNumber).sb.blockSize ≠ defaultBlockSize
      · rw [if_pos size] at mounts
        cases mounts
      rw [if_neg size, Option.map_eq_some_iff] at mounts
      obtain ⟨root, found, rfl⟩ := mounts
      exact mounted_sound image found

/-- Crash consistency of creation: from the image of mkfs with the corrected free map and a
zeroed inode store, after any calls, lookups, crashes and remounts, whatever a crash leaves
on the disk is consistent, as long as `dadfs_inode_add` is not left out silently. -/
theorem crash_consistent (dev : Device)
    (zeroed : ∀ slot, reservedInodes ≤ slot →
      (dev.blocks inodestoreBlockNumber).inodes slot = nullInode)
    {machine : Machine} (reached : Reached Vfs.AddsOrStops dev machine) {disk : Disk}
    {links : Links} (crash : machine.Crashes Vfs.AddsOrStops disk links) :
    Consistent disk links :=
  (crash.diskImage (reached.sound zeroed)).consistent

/-- The machine after mkfs on a zeroed device. -/
def freshMachine : Machine :=
  { vfs := mounted (mkfs correctedFreeBlocks zeroDevice) rootInode
    cache := clean (mkfs correctedFreeBlocks zeroDevice), links := fun _ _ => welcomeInode }

/-- A creation that crashes between the count and the record. -/
theorem crash_consistent_cut :
    Consistent
      ((((freshMachine.vfs.callOps (createFile 97)).take 8).foldl
        (fun cache op => op.apply cache) freshMachine.cache)).disk
      (noteRecords (freshMachine.vfs.fs.newInode (createFile 97).mode) freshMachine.links
        ((freshMachine.vfs.callOps (createFile 97)).take 8)) :=
  crash_consistent zeroDevice (fun _ _ => rfl) .mkfs
    (.during ⟨by decide +kernel, fun _ => by unfold Inode.HasRoom; decide +kernel⟩
      (fun _ => Or.inl rfl) (List.take_prefix 8 _) (.straight _ _))

/-- The call that `dadfs_inode_add` leaves out silently. -/
def silentCall : Call := { createFile 97 with env := { addInodesLock := true } }

/-- A creation returns 0 and is on the disk in full: its record is counted, and no counted
slot holds the inode it names. -/
theorem silent_creation_inconsistent :
    ∃ disk links, freshMachine.Crashes (fun _ _ => True) disk links ∧ ¬ Consistent disk links := by
  have calls : freshMachine.vfs.Calls silentCall :=
    ⟨by decide +kernel, fun _ => by unfold Inode.HasRoom; decide +kernel⟩
  refine ⟨_, _, .during calls trivial (List.prefix_refl _) (.straight _ _), fun consistent => ?_⟩
  obtain ⟨slot, inside, number, same⟩ := consistent.named 0
    (.root (by decide +kernel) (by decide +kernel)) (by decide +kernel) 1 (by decide +kernel)
  clear same
  -- the record names 11, and the three slots hold 1, 2 and 3
  revert slot
  decide +kernel

end Ve482.Dadfs
