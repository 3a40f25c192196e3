import Ve482.Dadfs.Bytes

set_option autoImplicit false

namespace Ve482.Dadfs.Raw

open ByteLayout
open Function (update)

/-- An open device: its bytes, and the offset of the descriptor. -/
structure Descriptor where
  device : Buffer
  offset : Nat

def Descriptor.write (fd : Descriptor) (data : List UInt8) : Descriptor :=
  { device := store fd.device fd.offset data, offset := fd.offset + data.length }

/-- `lseek` from the current offset. -/
def Descriptor.lseek (fd : Descriptor) (nbytes : Nat) : Descriptor :=
  { fd with offset := fd.offset + nbytes }

/-- What the structures hold that the code does not set. -/
structure Stack where
  rootPadding : Nat
  journalPadding : Nat
  journalMode : Mode
  journalSize : BitVec 64
  welcomePadding : Nat
  recordPadding : UInt8

/-- `sizeof(struct dadfs_super_block)` bytes, with the version 1, no journal and zero padding. -/
def SuperBlock.bytes (sb : SuperBlock) : List UInt8 :=
  toBytes wordBytes 1 ++ toBytes wordBytes sb.magic ++ toBytes wordBytes sb.blockSize ++
    toBytes wordBytes sb.inodesCount ++ toBytes wordBytes sb.freeBlocks.toNat ++
    toBytes wordBytes 0 ++ List.replicate 4048 0

/-- The array of the name filled up with zeros, its padding, and the number. -/
def DirRecord.bytes (padding : UInt8) (record : DirRecord) : List UInt8 :=
  record.filename ++ List.replicate (filenameMaxlen - record.filename.length) 0 ++ [padding] ++
    toBytes wordBytes record.inodeNo

/-- `write(fd, record, sizeof(*record))` at one of the records. -/
def storeWholeRecord (memory : Buffer) (index : Nat) (padding : UInt8) (record : DirRecord) :
    Buffer :=
  store memory (index * dirRecordBytes) (DirRecord.bytes padding record)

/-- The writes and seeks of `main`, none of which falls short. -/
def mkfsMain (stack : Stack) (freeBlocks : BitVec 64) (device : Buffer) : Buffer :=
  let fd : Descriptor := { device := device, offset := 0 }
  let fd := fd.write (SuperBlock.bytes (writeSuperblock freeBlocks))
  let fd := fd.write (rootInode.bytes stack.rootPadding)
  let fd := fd.write
    ((journalInode stack.journalMode stack.journalSize.toNat).bytes stack.journalPadding)
  let fd := (fd.write (welcomeInode.bytes stack.welcomePadding)).lseek
    (defaultBlockSize - inodeBytes * 3)
  let fd := fd.lseek (defaultBlockSize * journalBlocks)
  let fd := (fd.write (DirRecord.bytes stack.recordPadding welcomeRecord)).lseek
    (defaultBlockSize - dirRecordBytes)
  (fd.write welcomefileBody).device

/-- The same as what each block then holds. -/
def mkfsBlocks (stack : Stack) (freeBlocks : BitVec 64) (disk : Nat → Buffer) : Nat → Buffer
  | 0 => store (disk 0) 0 (SuperBlock.bytes (writeSuperblock freeBlocks))
  | 1 =>
      storeInode
        (storeInode (storeInode (disk 1) 0 stack.rootPadding rootInode) 1 stack.journalPadding
          (journalInode stack.journalMode stack.journalSize.toNat))
        2 stack.welcomePadding welcomeInode
  | 4 => storeWholeRecord (disk 4) 0 stack.recordPadding welcomeRecord
  | 5 => store (disk 5) 0 welcomefileBody
  | block => disk block

/-- The blocks of a device, as `sb_bread` reads them. -/
def blocks (device : Buffer) (block : Nat) : Buffer := fun offset =>
  if offset < defaultBlockSize then device (block * defaultBlockSize + offset) else 0

/-- A store inside one block. -/
theorem blocks_store (device : Buffer) (block : Nat) {offset : Nat} {data : List UInt8}
    (within : offset + data.length ≤ defaultBlockSize) :
    blocks (store device (block * defaultBlockSize + offset) data) =
      update (blocks device) block (store (blocks device block) offset data) := by
  funext other place
  by_cases same : other = block
  · subst same
    rw [Function.update_self]
    by_cases inside : offset ≤ place ∧ place < offset + data.length
    · obtain ⟨index, rfl⟩ := Nat.exists_eq_add_of_le inside.1
      have small : index < data.length := by omega
      rw [store_inside _ small, blocks, if_pos (by omega), ← Nat.add_assoc, store_inside _ small]
    · rw [store_outside _ (show place < offset ∨ offset + data.length ≤ place by omega)]
      have apart : other * defaultBlockSize + place < other * defaultBlockSize + offset ∨
          other * defaultBlockSize + offset + data.length ≤ other * defaultBlockSize + place := by
        omega
      unfold blocks
      rw [store_outside _ apart]
  · rw [Function.update_of_ne same]
    unfold blocks
    split
    · rename_i small
      exact store_element_other device same within small
    · rfl

theorem length_superBytes (sb : SuperBlock) : (SuperBlock.bytes sb).length = defaultBlockSize := by
  simp only [SuperBlock.bytes, List.length_append, length_toBytes, List.length_replicate]
  rfl

theorem length_recordBytes (padding : UInt8) {record : DirRecord} (fits : record.Fits) :
    (DirRecord.bytes padding record).length = dirRecordBytes := by
  have short : record.filename.length ≤ 255 := fits.short
  simp only [DirRecord.bytes, List.length_append, length_toBytes, List.length_replicate,
    List.length_singleton]
  have name : record.filename.length + (255 - record.filename.length) = 255 := by omega
  change record.filename.length + (255 - record.filename.length) + 1 + 8 = 264
  rw [name]

theorem welcomeRecord_fits : welcomeRecord.Fits :=
  ⟨by decide +kernel, by decide +kernel, by decide⟩

theorem welcomeRecord_short : welcomeRecord.filename.length < filenameMaxlen := by decide +kernel

/-- Where each write goes. -/
theorem blocks_mkfsMain (stack : Stack) (freeBlocks : BitVec 64) (device : Buffer) :
    blocks (mkfsMain stack freeBlocks device) = mkfsBlocks stack freeBlocks (blocks device) := by
  have written : mkfsMain stack freeBlocks device =
      store (store (store (store (store (store device
        (0 * defaultBlockSize + 0) (SuperBlock.bytes (writeSuperblock freeBlocks)))
        (1 * defaultBlockSize + 0 * inodeBytes) (rootInode.bytes stack.rootPadding))
        (1 * defaultBlockSize + 1 * inodeBytes)
          ((journalInode stack.journalMode stack.journalSize.toNat).bytes stack.journalPadding))
        (1 * defaultBlockSize + 2 * inodeBytes) (welcomeInode.bytes stack.welcomePadding))
        (4 * defaultBlockSize + 0 * dirRecordBytes)
          (DirRecord.bytes stack.recordPadding welcomeRecord))
        (5 * defaultBlockSize + 0) welcomefileBody := by
    simp only [mkfsMain, Descriptor.write, Descriptor.lseek, length_superBytes, length_inodeBytes,
      length_recordBytes _ welcomeRecord_fits]
    rfl
  have inode (slot : Nat) (inside : slot < 3) (padding : Nat) (inode : Inode) :
      slot * inodeBytes + (inode.bytes padding).length ≤ defaultBlockSize := by
    rw [length_inodeBytes]
    change slot * 32 + 32 ≤ 4096
    omega
  rw [written, blocks_store _ 5 (by decide +kernel),
    blocks_store _ 4 (by rw [length_recordBytes _ welcomeRecord_fits]; decide),
    blocks_store _ 1 (inode 2 (by decide) _ _), blocks_store _ 1 (inode 1 (by decide) _ _),
    blocks_store _ 1 (inode 0 (by decide) _ _),
    blocks_store _ 0 (by rw [length_superBytes]; decide)]
  funext block
  match block with
  | 0 | 1 | 2 | 3 | 4 | 5 => rfl
  | later + 6 => rfl

/-! What mounting reads back. -/

section Decoding

variable (memory : Buffer)

/-- A field of a super block just stored. -/
theorem word_superBytes (sb : SuperBlock) (before after : List UInt8) (offset value : Nat)
    (split : SuperBlock.bytes sb = before ++ toBytes wordBytes value ++ after)
    (place : before.length = offset) (fits : value < 256 ^ wordBytes) :
    word (store memory 0 (SuperBlock.bytes sb)) offset wordBytes = value := by
  have field : word (store memory 0 (before ++ toBytes wordBytes value ++ after))
      (0 + before.length) wordBytes = value := word_store_field memory fits
  rwa [← split, place, Nat.zero_add] at field

theorem superOf_written (freeBlocks : BitVec 64) :
    superOf (store memory 0 (SuperBlock.bytes (writeSuperblock freeBlocks))) =
      writeSuperblock freeBlocks := by
  let sb := writeSuperblock freeBlocks
  have magic := word_superBytes memory sb (toBytes wordBytes 1)
    (toBytes wordBytes sb.blockSize ++ toBytes wordBytes sb.inodesCount ++
      toBytes wordBytes sb.freeBlocks.toNat ++ toBytes wordBytes 0 ++ List.replicate 4048 0)
    magicOffset sb.magic (by simp only [SuperBlock.bytes, List.append_assoc]) rfl
    (show dadfsMagic < 256 ^ wordBytes by decide)
  have size := word_superBytes memory sb (toBytes wordBytes 1 ++ toBytes wordBytes sb.magic)
    (toBytes wordBytes sb.inodesCount ++ toBytes wordBytes sb.freeBlocks.toNat ++
      toBytes wordBytes 0 ++ List.replicate 4048 0)
    blockSizeOffset sb.blockSize (by simp only [SuperBlock.bytes, List.append_assoc]) rfl
    (show defaultBlockSize < 256 ^ wordBytes by decide)
  have count := word_superBytes memory sb
    (toBytes wordBytes 1 ++ toBytes wordBytes sb.magic ++ toBytes wordBytes sb.blockSize)
    (toBytes wordBytes sb.freeBlocks.toNat ++ toBytes wordBytes 0 ++ List.replicate 4048 0)
    inodesCountOffset sb.inodesCount (by simp only [SuperBlock.bytes, List.append_assoc]) rfl
    (show welcomefileInodeNumber < 256 ^ wordBytes by decide)
  have free := word_superBytes memory sb
    (toBytes wordBytes 1 ++ toBytes wordBytes sb.magic ++ toBytes wordBytes sb.blockSize ++
      toBytes wordBytes sb.inodesCount)
    (toBytes wordBytes 0 ++ List.replicate 4048 0) freeBlocksOffset sb.freeBlocks.toNat
    (by simp only [SuperBlock.bytes, List.append_assoc]) rfl freeBlocks.isLt
  rw [superOf, magic, size, count, free, BitVec.ofNat_toNat, BitVec.setWidth_eq]

section Record

variable (index : Nat) (padding : UInt8) {record : DirRecord}

/-- A name shorter than its array ends there. -/
theorem recordAt_whole_self (fits : record.Fits) (short : record.filename.length < filenameMaxlen) :
    recordAt (storeWholeRecord memory index padding record) index = record := by
  obtain ⟨rest, room⟩ := Nat.exists_eq_add_of_lt short
  have zeros : filenameMaxlen - record.filename.length = rest + 1 := by omega
  have split : DirRecord.bytes padding record = record.filename ++ [0] ++
      (List.replicate rest 0 ++ [padding] ++ toBytes wordBytes record.inodeNo) := by
    simp only [DirRecord.bytes, zeros, List.replicate_succ, List.append_assoc, List.cons_append,
      List.nil_append]
  have loaded : load (storeWholeRecord memory index padding record) (index * dirRecordBytes)
      (record.filename.length + 1) = record.filename ++ [0] := by
    have within : 0 + (record.filename.length + 1) ≤ (DirRecord.bytes padding record).length := by
      rw [split]
      simp
    have piece := load_store_piece memory (index * dirRecordBytes) within
    rw [Nat.add_zero, List.drop_zero] at piece
    rw [storeWholeRecord, piece, split]
    exact List.take_left' (by simp)
  have name := (ByteLayout.cstring_eq_iff _ fits.terminated (Nat.lt_succ_of_le fits.short)).mpr
    (strcmpZero_of_load loaded)
  have number : word (storeWholeRecord memory index padding record)
      (index * dirRecordBytes + recordInodeNoOffset) wordBytes = record.inodeNo := by
    let before := record.filename ++ List.replicate (filenameMaxlen - record.filename.length) 0 ++
      [padding]
    have field : word (store memory (index * dirRecordBytes)
        (before ++ toBytes wordBytes record.inodeNo ++ [])) (index * dirRecordBytes + before.length)
        wordBytes = record.inodeNo := word_store_field memory fits.inodeNo
    rw [List.append_nil] at field
    have place : before.length = recordInodeNoOffset := by
      simp only [before, List.length_append, List.length_replicate, List.length_singleton]
      rw [Nat.add_sub_of_le fits.short]
    rw [place] at field
    exact field
  rw [recordAt, name, number]

theorem recordAt_whole_other (fits : record.Fits) {other : Nat} (apart : other ≠ index) :
    recordAt (storeWholeRecord memory index padding record) other = recordAt memory other := by
  have whole : 0 + (DirRecord.bytes padding record).length ≤ dirRecordBytes := by
    rw [length_recordBytes padding fits, Nat.zero_add]
  unfold recordAt storeWholeRecord
  rw [← Nat.add_zero (index * dirRecordBytes), cstring_element_other _ apart whole (by decide),
    word_element_other _ apart whole (by decide)]

theorem recordAt_whole (fits : record.Fits) (short : record.filename.length < filenameMaxlen) :
    recordAt (storeWholeRecord memory index padding record) =
      update (recordAt memory) index record := by
  funext other
  by_cases same : other = index
  · subst same
    rw [Function.update_self, recordAt_whole_self memory other padding fits short]
  · rw [Function.update_of_ne same, recordAt_whole_other memory index padding fits same]

end Record

end Decoding

theorem store_body (memory : Buffer) (data : List UInt8) :
    store memory 0 data = fun offset => data.getD offset (memory offset) := by
  funext offset
  by_cases inside : offset < data.length
  · have read : store memory 0 data (0 + offset) = data.getD offset 0 := store_inside memory inside
    rw [Nat.zero_add] at read
    rw [read, List.getD_eq_getElem data 0 inside, List.getD_eq_getElem data _ inside]
  · rw [store_outside memory (Or.inr (by omega)), List.getD_eq_default data _ (Nat.not_lt.mp inside)]

end Ve482.Dadfs.Raw
