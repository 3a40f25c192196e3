import Ve482.Dadfs.ByteImage
import Ve482.Dadfs.ByteRun

set_option autoImplicit false

namespace Ve482.Dadfs.Raw

open ByteLayout (Buffer)
open Runs (EveryStep run run_invariant)

/-- A device, and what the structures of mkfs hold, under the types the code casts blocks to. -/
def deviceOf (stack : Stack) (disk : Nat → Buffer) : Device :=
  { blocks := fun block =>
      { sb := superOf (disk block), inodes := inodeAt (disk block)
        records := recordAt (disk block), bytes := disk block }
    journalMode := stack.journalMode, journalSize := stack.journalSize.toNat }

/-- The tree and the files that mkfs writes, beside a file system. -/
def made (disk : Nat → Buffer) (vfs : Vfs) : Filed :=
  { vfs := vfs, tree := mkfsTree
    files := Function.update (fun _ => { bytes := fun _ => 0, size := 0 }) welcomefileInodeNumber
      { bytes := fun offset =>
          welcomefileBody.getD offset (disk welcomefileDatablockNumber offset)
        size := welcomefileBody.length } }

section Image

variable (stack : Stack) (disk : Nat → Buffer)

theorem superOf_image :
    superOf (mkfsBlocks stack correctedFreeBlocks disk superblockBlockNumber) =
      writeSuperblock correctedFreeBlocks := by
  rw [superblockBlockNumber, mkfsBlocks]
  exact superOf_written (disk 0) correctedFreeBlocks

/-- The three inodes, over what the device held. -/
theorem inodeAt_image :
    inodeAt (mkfsBlocks stack correctedFreeBlocks disk inodestoreBlockNumber) =
      mkfsInodes (deviceOf stack disk) := by
  have journal : (journalInode stack.journalMode stack.journalSize.toNat).Fits :=
    ⟨show journalInodeNumber < 256 ^ wordBytes by decide,
      show journalBlockNumber < 256 ^ wordBytes by decide, stack.journalSize.isLt⟩
  change inodeAt (storeInode (storeInode (storeInode (disk 1) 0 _ _) 1 _ _) 2 _ _) = _
  rw [inodeAt_storeInode _ 2 _ ⟨by decide, by decide, by decide⟩, inodeAt_storeInode _ 1 _ journal,
    inodeAt_storeInode _ 0 _ ⟨by decide, by decide, by decide⟩]
  funext slot
  match slot with
  | 0 | 1 | 2 => rfl
  | later + 3 => rfl

/-- The blocks of the image that are read as records or as bytes lie behind the journal. -/
theorem view_image {kind : Mode → Bool} {block : Nat}
    (seen : Free (filesStart (deviceOf stack disk)).traced.vfs.fs block ∨
      Owns (filesStart (deviceOf stack disk)).traced.vfs.fs kind block) :
    (kind sIfdir = true ∧ block = 4) ∨ (kind sIfreg = true ∧ block = 5) ∨ 6 ≤ block := by
  rcases seen with free | ⟨i, inside, apart, same, rfl⟩
  · exact .inr (.inr free.1)
  have inside : i < 3 := inside
  obtain rfl | rfl | rfl : i = 0 ∨ i = 1 ∨ i = 2 := by omega
  · exact .inl ⟨same, rfl⟩
  · exact absurd rfl apart
  · exact .inr (.inl ⟨same, rfl⟩)

theorem recordAt_image (block : Nat)
    (seen : (viewOf (filesStart (deviceOf stack disk)).traced.vfs.fs).records block) :
    recordAt (mkfsBlocks stack correctedFreeBlocks disk block) =
      (filesStart (deviceOf stack disk)).traced.vfs.fs.records block := by
  rcases view_image stack disk seen.2 with ⟨-, rfl⟩ | ⟨file, -⟩ | late
  · exact recordAt_whole (disk 4) 0 stack.recordPadding welcomeRecord_fits welcomeRecord_short
  · exact absurd file (by decide)
  · obtain ⟨later, rfl⟩ := Nat.exists_eq_add_of_le' late
    rfl

theorem bytes_image (block : Nat)
    (seen : (viewOf (filesStart (deviceOf stack disk)).traced.vfs.fs).bytes block) :
    mkfsBlocks stack correctedFreeBlocks disk block =
      ((filesStart (deviceOf stack disk)).traced.vfs.fs.bufs block).bytes := by
  rcases view_image stack disk seen.2 with ⟨directory, -⟩ | ⟨-, rfl⟩ | late
  · exact absurd directory (by decide)
  · exact store_body (disk 5) welcomefileBody
  · obtain ⟨later, rfl⟩ := Nat.exists_eq_add_of_le' late
    rfl

/-- The image stands for the one of the views. -/
theorem made_standsFor :
    (made disk (mounted (mkfsBlocks stack correctedFreeBlocks disk) rootInode)).StandsFor
      (deviceOf stack disk) (filesStart (deviceOf stack disk)) := by
  have super := superOf_image stack disk
  have store := inodeAt_image stack disk
  have records := recordAt_image stack disk
  have bytes := bytes_image stack disk
  generalize mkfsBlocks stack correctedFreeBlocks disk = image at super store records bytes ⊢
  exact ⟨filesStart_kept _, ⟨⟨super, store, records, bytes, rfl, rfl⟩, rfl⟩, rfl, rfl⟩

/-- Mounting the image succeeds. -/
theorem image_mounts (journal : Nat) :
    ∃ vfs, dadfsFillSuper (mkfsBlocks stack correctedFreeBlocks disk) journal = some vfs := by
  have stands := made_standsFor stack disk
  obtain ⟨links, coherent⟩ := stands.kept.coherent
  exact ⟨_, stands.vfs.fillSuper coherent journal⟩

/-- The mounted image stands for that of the views. -/
theorem mounted_standsFor {vfs : Vfs} {journal : Nat}
    (mounts : dadfsFillSuper (mkfsBlocks stack correctedFreeBlocks disk) journal = some vfs) :
    (made disk vfs).StandsFor (deviceOf stack disk)
      ((filesStart (deviceOf stack disk)).next (deviceOf stack disk) (.tree .remount)) := by
  have same (block : Nat) : ((deviceOf stack disk).blocks block).bytes = disk block := rfl
  have step := (made_standsFor stack disk).step same
    (show Filed.Allows _ (.remount journal) from trivial)
  generalize mkfsBlocks stack correctedFreeBlocks disk = image at mounts step
  have next : (made disk (mounted image rootInode)).next disk (.remount journal) = made disk vfs := by
    change { made disk (mounted image rootInode) with
      vfs := (dadfsFillSuper image journal).getD (mounted image rootInode) } = made disk vfs
    rw [mounts]
    rfl
  rwa [next] at step

end Image

/-- A stack of zeros. -/
def zeroStack : Stack :=
  { rootPadding := 0, journalPadding := 0, journalMode := 0, journalSize := 0, welcomePadding := 0
    recordPadding := 0 }

/-- A file is made and written, then the disk remounted and the file looked up again. -/
def smallRun : List Event :=
  [.create (createFile 97) { inode := 0, parent := 0 }, .write 11 0 (smoothWrite 0 [72, 105]),
    .remount 7, .lookup rootdirInodeNumber [97], .write 11 0 (smoothWrite 2 [33])]

end Ve482.Dadfs.Raw
