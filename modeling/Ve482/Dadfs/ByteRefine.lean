import Ve482.Dadfs.ByteKernel
import Ve482.Dadfs.Files
import Ve482.Lib.Lockstep

set_option autoImplicit false

namespace Ve482.Dadfs.Raw

open Function (update)

/-- Which data blocks are read as records and which as bytes. -/
structure View where
  records : Nat → Prop
  bytes : Nat → Prop
  data : ∀ block, records block ∨ bytes block → 2 ≤ block

/-- A block whose records are written is no longer read as bytes. -/
def View.withRecords (view : View) (written : Nat) : View where
  records := view.records
  bytes := fun block => view.bytes block ∧ block ≠ written
  data := fun block seen => view.data block (seen.imp id And.left)

def View.withBytes (view : View) (written : Nat) : View where
  records := fun block => view.records block ∧ block ≠ written
  bytes := view.bytes
  data := fun block seen => view.data block (seen.imp And.left id)

/-- The bytes, read through the view, are the blocks; the rest is the same. -/
structure Agrees (view : View) (raw : Fs) (fs : Dadfs.Fs) : Prop where
  super : raw.super = fs.super
  store : raw.store = fs.store
  records : ∀ block, view.records block → recordAt (raw.bufs block) = fs.records block
  bytes : ∀ block, view.bytes block → raw.bufs block = (fs.bufs block).bytes
  mem : raw.mem = fs.mem
  held : raw.held = fs.held

theorem below_data {block table : Nat} (data : 2 ≤ block) (low : table < 2) : table ≠ block :=
  Nat.ne_of_lt (Nat.lt_of_lt_of_le low data)

theorem setBuf_other (raw : Fs) (block : Nat) (memory : ByteLayout.Buffer) {other : Nat}
    (apart : other ≠ block) : (raw.setBuf block memory).bufs other = raw.bufs other :=
  Function.update_of_ne apart ..

theorem setBuf_self (raw : Fs) (block : Nat) (memory : ByteLayout.Buffer) :
    (raw.setBuf block memory).bufs block = memory := Function.update_self ..

/-- A store into a data block leaves the tables. -/
theorem setBuf_super (raw : Fs) {block : Nat} (data : 2 ≤ block) (memory : ByteLayout.Buffer) :
    (raw.setBuf block memory).super = raw.super :=
  congrArg superOf (setBuf_other raw block memory (below_data data (by decide)))

theorem setBuf_store (raw : Fs) {block : Nat} (data : 2 ≤ block) (memory : ByteLayout.Buffer) :
    (raw.setBuf block memory).store = raw.store :=
  congrArg inodeAt (setBuf_other raw block memory (below_data data (by decide)))

section Operations

variable {view : View} {raw : Fs} {fs : Dadfs.Fs}

theorem View.not_super (view : View) {block : Nat} (seen : view.records block ∨ view.bytes block) :
    block ≠ superblockBlockNumber :=
  (below_data (view.data block seen) (by decide)).symm

theorem View.not_store (view : View) {block : Nat} (seen : view.records block ∨ view.bytes block) :
    block ≠ inodestoreBlockNumber :=
  (below_data (view.data block seen) (by decide)).symm

/-- A change of the super block. -/
theorem Agrees.setSuper (agrees : Agrees view raw fs) {memory : ByteLayout.Buffer} {sb : SuperBlock}
    (read : superOf memory = sb) :
    Agrees view (raw.setBuf superblockBlockNumber memory) (fs.emit (writeSuper fs.bufs sb)) := by
  refine ⟨?_, agrees.store, fun block seen => ?_, fun block seen => ?_, agrees.mem, agrees.held⟩
  · exact (congrArg superOf (setBuf_self raw _ memory)).trans read
  · rw [setBuf_other raw _ _ (view.not_super (.inl seen)), agrees.records block seen]
    exact (view_update Block.records fs.bufs superblockBlockNumber _ block (by rfl)).symm
  · rw [setBuf_other raw _ _ (view.not_super (.inr seen)), agrees.bytes block seen]
    exact (view_update Block.bytes fs.bufs superblockBlockNumber _ block (by rfl)).symm

theorem Agrees.setFreeBlocks (agrees : Agrees view raw fs) (freeBlocks : BitVec 64) :
    Agrees view (raw.setFreeBlocks freeBlocks)
      (fs.emit (writeSuper fs.bufs { fs.super with freeBlocks := freeBlocks })) :=
  agrees.setSuper ((superOf_storeFreeBlocks ..).trans
    (congrArg (fun sb : SuperBlock => { sb with freeBlocks := freeBlocks }) agrees.super))

theorem Agrees.setInodesCount (agrees : Agrees view raw fs) {count : Nat}
    (fits : count < 256 ^ wordBytes) :
    Agrees view (raw.setInodesCount count)
      (fs.emit (writeSuper fs.bufs { fs.super with inodesCount := count })) :=
  agrees.setSuper ((superOf_storeInodesCount _ fits).trans
    (congrArg (fun sb : SuperBlock => { sb with inodesCount := count }) agrees.super))

theorem Agrees.putInode (agrees : Agrees view raw fs) (slot padding : Nat) {inode : Inode}
    (fits : inode.Fits) :
    Agrees view (raw.putInode slot padding inode) (fs.emit (writeInode fs.bufs slot inode)) := by
  refine ⟨agrees.super, ?_, fun block seen => ?_, fun block seen => ?_, agrees.mem, agrees.held⟩
  · have stored := inodeAt_storeInode (raw.bufs inodestoreBlockNumber) slot padding fits
    exact (congrArg inodeAt (setBuf_self raw _ _)).trans (stored.trans
      (congrArg (fun inodes : Nat → Inode => update inodes slot inode) agrees.store))
  · rw [Fs.putInode, setBuf_other raw _ _ (view.not_store (.inl seen)), agrees.records block seen]
    exact (view_update Block.records fs.bufs inodestoreBlockNumber _ block (by rfl)).symm
  · rw [Fs.putInode, setBuf_other raw _ _ (view.not_store (.inr seen)), agrees.bytes block seen]
    exact (view_update Block.bytes fs.bufs inodestoreBlockNumber _ block (by rfl)).symm

theorem Agrees.putRecord (agrees : Agrees view raw fs) {block : Nat} (data : 2 ≤ block) (index : Nat)
    {record : DirRecord} (fits : record.Fits) :
    Agrees (view.withRecords block) (raw.putRecord block index record)
      (fs.emit (writeRecord fs.bufs block index record)) := by
  refine ⟨?_, ?_, fun other seen => ?_, fun other seen => ?_, agrees.mem, agrees.held⟩
  · refine (setBuf_super raw data _).trans (agrees.super.trans ?_)
    exact (view_update Block.sb fs.bufs block _ superblockBlockNumber (by rfl)).symm
  · refine (setBuf_store raw data _).trans (agrees.store.trans ?_)
    exact (view_update Block.inodes fs.bufs block _ inodestoreBlockNumber (by rfl)).symm
  · have before := agrees.records other seen
    change _ = (update fs.bufs block _ other).records
    by_cases same : other = block
    · subst same
      rw [Fs.putRecord, setBuf_self, recordAt_storeRecord _ _ fits, before, Function.update_self]
    · rw [Fs.putRecord, setBuf_other raw _ _ same, before, Function.update_of_ne same]
  · change _ = (update fs.bufs block _ other).bytes
    rw [Fs.putRecord, setBuf_other raw _ _ seen.2, agrees.bytes other seen.1,
      Function.update_of_ne seen.2]

theorem Agrees.putBytes (agrees : Agrees view raw fs) {block : Nat} (data : 2 ≤ block)
    (offset : Nat) (bytes : List UInt8) :
    Agrees (view.withBytes block) (raw.putBytes block offset bytes)
      (fs.emit (writeBytes fs.bufs block offset bytes)) := by
  refine ⟨?_, ?_, fun other seen => ?_, fun other seen => ?_, agrees.mem, agrees.held⟩
  · refine (setBuf_super raw data _).trans (agrees.super.trans ?_)
    exact (view_update Block.sb fs.bufs block _ superblockBlockNumber (by rfl)).symm
  · refine (setBuf_store raw data _).trans (agrees.store.trans ?_)
    exact (view_update Block.inodes fs.bufs block _ inodestoreBlockNumber (by rfl)).symm
  · change _ = (update fs.bufs block _ other).records
    rw [Fs.putBytes, setBuf_other raw _ _ seen.2, agrees.records other seen.1,
      Function.update_of_ne seen.2]
  · have before := agrees.bytes other seen
    change _ = (update fs.bufs block _ other).bytes
    by_cases same : other = block
    · subst same
      rw [Fs.putBytes, setBuf_self, before, Function.update_self]
      rfl
    · rw [Fs.putBytes, setBuf_other raw _ _ same, before, Function.update_of_ne same]

theorem Agrees.setMem (agrees : Agrees view raw fs) (ino : Nat) (inode : Inode) :
    Agrees view (raw.setMem ino inode) (fs.setMem ino inode) :=
  ⟨agrees.super, agrees.store, agrees.records, agrees.bytes,
    congrArg (fun mem : Nat → Inode => update mem ino inode) agrees.mem, agrees.held⟩

theorem Agrees.hold (agrees : Agrees view raw fs) (mutex : Mutex) :
    Agrees view (raw.hold mutex) (fs.hold mutex) :=
  ⟨agrees.super, agrees.store, agrees.records, agrees.bytes, agrees.mem,
    congrArg (fun held : Mutex → Bool => update held mutex true) agrees.held⟩

theorem Agrees.unlock (agrees : Agrees view raw fs) (mutex : Mutex) :
    Agrees view (raw.unlock mutex) (fs.unlock mutex) := by
  unfold Dadfs.Fs.unlock
  split
  · exact ⟨agrees.super, agrees.store, agrees.records, agrees.bytes, agrees.mem,
      congrArg (fun held : Mutex → Bool => update held mutex false) agrees.held⟩
  · rename_i free
    refine ⟨agrees.super, agrees.store, agrees.records, agrees.bytes, agrees.mem, ?_⟩
    have released : update raw.held mutex false = raw.held := by
      rw [← Bool.eq_false_iff.mpr free, ← agrees.held, Function.update_eq_self]
    exact released.trans agrees.held

theorem Agrees.view_imp {wider : View} (agrees : Agrees wider raw fs)
    (records : ∀ block, view.records block → wider.records block)
    (bytes : ∀ block, view.bytes block → wider.bytes block) : Agrees view raw fs :=
  ⟨agrees.super, agrees.store, fun block seen => agrees.records block (records block seen),
    fun block seen => agrees.bytes block (bytes block seen), agrees.mem, agrees.held⟩

end Operations

end Ve482.Dadfs.Raw
