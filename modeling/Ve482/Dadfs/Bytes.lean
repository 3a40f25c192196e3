import Ve482.Dadfs.Mount
import Ve482.Lib.ByteLayout

set_option autoImplicit false

namespace Ve482.Dadfs

open ByteLayout
open Function (update)

/-- `sizeof(uint64_t)`. -/
abbrev wordBytes : Nat := 8

abbrev inodeNoOffset : Nat := 8
abbrev dataBlockNumberOffset : Nat := 16
abbrev sizeOffset : Nat := 24

abbrev recordInodeNoOffset : Nat := 256

abbrev magicOffset : Nat := 8
abbrev blockSizeOffset : Nat := 16
abbrev inodesCountOffset : Nat := 24
abbrev freeBlocksOffset : Nat := 32
abbrev journalOffset : Nat := 40

/-- The values that the fields of `struct dadfs_inode` can hold. -/
structure Inode.Fits (inode : Inode) : Prop where
  inodeNo : inode.inodeNo < 256 ^ wordBytes
  dataBlockNumber : inode.dataBlockNumber < 256 ^ wordBytes
  size : inode.size < 256 ^ wordBytes

/-- The bytes of a `struct dadfs_inode`, with the four that pad the mode. -/
def Inode.bytes (padding : Nat) (inode : Inode) : List UInt8 :=
  toBytes 4 inode.mode.toNat ++ toBytes 4 padding ++ toBytes wordBytes inode.inodeNo ++
    toBytes wordBytes inode.dataBlockNumber ++ toBytes wordBytes inode.size

/-- `((struct dadfs_inode *)b_data)[slot]`. -/
def inodeAt (memory : Buffer) (slot : Nat) : Inode :=
  { mode := BitVec.ofNat 32 (word memory (slot * inodeBytes) 4)
    inodeNo := word memory (slot * inodeBytes + inodeNoOffset) wordBytes
    dataBlockNumber := word memory (slot * inodeBytes + dataBlockNumberOffset) wordBytes
    size := word memory (slot * inodeBytes + sizeOffset) wordBytes }

/-- `((struct dadfs_dir_record *)b_data)[index]`. A name of 255 bytes has its NUL in the byte
that pads the array. -/
def recordAt (memory : Buffer) (index : Nat) : DirRecord :=
  { filename := cstring memory (index * dirRecordBytes) (filenameMaxlen + 1)
    inodeNo := word memory (index * dirRecordBytes + recordInodeNoOffset) wordBytes }

/-- `*(struct dadfs_super_block *)b_data`, less the version and the journal. -/
def superOf (memory : Buffer) : SuperBlock :=
  { magic := word memory magicOffset wordBytes
    blockSize := word memory blockSizeOffset wordBytes
    inodesCount := word memory inodesCountOffset wordBytes
    freeBlocks := BitVec.ofNat 64 (word memory freeBlocksOffset wordBytes) }

/-- `memcpy(inode_iterator, inode, sizeof(struct dadfs_inode))`. -/
def storeInode (memory : Buffer) (slot padding : Nat) (inode : Inode) : Buffer :=
  store memory (slot * inodeBytes) (inode.bytes padding)

/-- The number of the new record, then its name. -/
def storeRecord (memory : Buffer) (index : Nat) (record : DirRecord) : Buffer :=
  strcpy (storeWord memory (index * dirRecordBytes + recordInodeNoOffset) wordBytes record.inodeNo)
    (index * dirRecordBytes) record.filename

def storeInodesCount (memory : Buffer) (count : Nat) : Buffer :=
  storeWord memory inodesCountOffset wordBytes count

def storeFreeBlocks (memory : Buffer) (freeBlocks : BitVec 64) : Buffer :=
  storeWord memory freeBlocksOffset wordBytes freeBlocks.toNat

def storeJournal (memory : Buffer) (journal : Nat) : Buffer :=
  storeWord memory journalOffset wordBytes journal

@[simp] theorem length_inodeBytes (padding : Nat) (inode : Inode) :
    (inode.bytes padding).length = inodeBytes := by
  simp only [Inode.bytes, List.length_append, length_toBytes]
  rfl

theorem inodeAt_fits (memory : Buffer) (slot : Nat) : (inodeAt memory slot).Fits :=
  ⟨word_lt .., word_lt .., word_lt ..⟩

section StoredInode

variable (memory : Buffer) (slot padding : Nat) {inode : Inode}

/-- A field of the structure just stored. -/
theorem word_storeInode (offset : Nat) {width value : Nat} (before after : List UInt8)
    (split : inode.bytes padding = before ++ toBytes width value ++ after)
    (place : before.length = offset) (fits : value < 256 ^ width) :
    word (storeInode memory slot padding inode) (slot * inodeBytes + offset) width = value := by
  rw [storeInode, split, ← place]
  exact word_store_field memory fits

theorem inodeAt_storeInode_self (fits : inode.Fits) :
    inodeAt (storeInode memory slot padding inode) slot = inode := by
  have mode : word (storeInode memory slot padding inode) (slot * inodeBytes + 0) 4 =
      inode.mode.toNat :=
    word_storeInode memory slot padding 0 [] _
      (by rw [Inode.bytes, List.nil_append, List.append_assoc, List.append_assoc, List.append_assoc])
      rfl inode.mode.isLt
  have inodeNo := word_storeInode memory slot padding inodeNoOffset
    (toBytes 4 inode.mode.toNat ++ toBytes 4 padding) _
    (by rw [Inode.bytes, List.append_assoc _ _ (toBytes wordBytes inode.size)])
    (by rw [List.length_append, length_toBytes, length_toBytes]) fits.inodeNo
  have block := word_storeInode memory slot padding dataBlockNumberOffset
    (toBytes 4 inode.mode.toNat ++ toBytes 4 padding ++ toBytes wordBytes inode.inodeNo) _
    rfl (by simp only [List.length_append, length_toBytes]; rfl) fits.dataBlockNumber
  have size := word_storeInode memory slot padding sizeOffset
    (toBytes 4 inode.mode.toNat ++ toBytes 4 padding ++ toBytes wordBytes inode.inodeNo ++
      toBytes wordBytes inode.dataBlockNumber) []
    (by rw [List.append_nil, Inode.bytes])
    (by simp only [List.length_append, length_toBytes]; rfl) fits.size
  rw [inodeAt, ← Nat.add_zero (slot * inodeBytes), mode, Nat.add_zero, inodeNo, block, size,
    BitVec.ofNat_toNat, BitVec.setWidth_eq]

theorem inodeAt_storeInode_other (inode : Inode) {other : Nat} (apart : other ≠ slot) :
    inodeAt (storeInode memory slot padding inode) other = inodeAt memory other := by
  have whole : 0 + (inode.bytes padding).length ≤ inodeBytes := by
    rw [length_inodeBytes, Nat.zero_add]
  have field {offset width : Nat} (inside : offset + width ≤ inodeBytes) :
      word (storeInode memory slot padding inode) (other * inodeBytes + offset) width =
        word memory (other * inodeBytes + offset) width := by
    have read := word_element_other memory apart whole inside
    rwa [Nat.add_zero] at read
  unfold inodeAt
  rw [field (by decide), field (by decide), field (by decide), ← Nat.add_zero (other * inodeBytes),
    field (by decide)]

theorem inodeAt_storeInode (fits : inode.Fits) :
    inodeAt (storeInode memory slot padding inode) = update (inodeAt memory) slot inode := by
  funext other
  by_cases same : other = slot
  · subst same
    rw [Function.update_self, inodeAt_storeInode_self memory other padding fits]
  · rw [Function.update_of_ne same, inodeAt_storeInode_other memory slot padding inode same]

end StoredInode

/-- A record as the code can store it. -/
structure DirRecord.Fits (record : DirRecord) : Prop where
  short : record.filename.length ≤ filenameMaxlen
  terminated : 0 ∉ record.filename
  inodeNo : record.inodeNo < 256 ^ wordBytes

section StoredRecord

variable (memory : Buffer) (index : Nat) {record : DirRecord}

theorem DirRecord.Fits.inside (fits : record.Fits) :
    0 + (record.filename ++ [0]).length ≤ recordInodeNoOffset := by
  rw [List.length_append, List.length_singleton, Nat.zero_add]
  exact Nat.succ_le_succ fits.short

theorem recordAt_storeRecord_self (fits : record.Fits) :
    recordAt (storeRecord memory index record) index = record := by
  have inside := fits.inside
  have number : word (storeRecord memory index record)
      (index * dirRecordBytes + recordInodeNoOffset) wordBytes = record.inodeNo := by
    rw [storeRecord, strcpy, word_store_apart _ (Or.inr (by omega)),
      word_storeWord_self _ _ fits.inodeNo]
  unfold recordAt
  rw [number, storeRecord, cstring_strcpy_self _ _ fits.terminated (Nat.lt_succ_of_le fits.short)]

theorem recordAt_storeRecord_other (fits : record.Fits) {other : Nat} (apart : other ≠ index) :
    recordAt (storeRecord memory index record) other = recordAt memory other := by
  have name : 0 + (record.filename ++ [0]).length ≤ dirRecordBytes :=
    fits.inside.trans (by decide)
  have number : recordInodeNoOffset + (toBytes wordBytes record.inodeNo).length ≤
      dirRecordBytes := by
    rw [length_toBytes]
    decide
  unfold recordAt storeRecord strcpy storeWord
  rw [← Nat.add_zero (index * dirRecordBytes), cstring_element_other _ apart name (by decide),
    word_element_other _ apart name (by decide), Nat.add_zero,
    cstring_element_other _ apart number (by decide), word_element_other _ apart number (by decide)]

theorem recordAt_storeRecord (fits : record.Fits) :
    recordAt (storeRecord memory index record) = update (recordAt memory) index record := by
  funext other
  by_cases same : other = index
  · subst same
    rw [Function.update_self, recordAt_storeRecord_self memory other fits]
  · rw [Function.update_of_ne same, recordAt_storeRecord_other memory index fits same]

end StoredRecord

section StoredSuper

variable (memory : Buffer)

theorem superOf_storeInodesCount {count : Nat} (fits : count < 256 ^ wordBytes) :
    superOf (storeInodesCount memory count) = { superOf memory with inodesCount := count } := by
  unfold superOf storeInodesCount
  rw [word_storeWord_self _ _ fits, word_storeWord_apart _ _ (by decide),
    word_storeWord_apart _ _ (by decide), word_storeWord_apart _ _ (by decide)]

theorem superOf_storeFreeBlocks (freeBlocks : BitVec 64) :
    superOf (storeFreeBlocks memory freeBlocks) =
      { superOf memory with freeBlocks := freeBlocks } := by
  have fits : freeBlocks.toNat < 256 ^ wordBytes := freeBlocks.isLt
  unfold superOf storeFreeBlocks
  rw [word_storeWord_self _ _ fits, word_storeWord_apart _ _ (by decide),
    word_storeWord_apart _ _ (by decide), word_storeWord_apart _ _ (by decide),
    BitVec.ofNat_toNat, BitVec.setWidth_eq]

/-- The journal is no part of the view. -/
theorem superOf_storeJournal (journal : Nat) :
    superOf (storeJournal memory journal) = superOf memory := by
  unfold superOf storeJournal
  rw [word_storeWord_apart _ _ (by decide), word_storeWord_apart _ _ (by decide),
    word_storeWord_apart _ _ (by decide), word_storeWord_apart _ _ (by decide)]

end StoredSuper

end Ve482.Dadfs
