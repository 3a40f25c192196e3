import Ve482.Dadfs.InodeStore

set_option autoImplicit false

namespace Ve482.Dadfs

open EStateM (Result)

/-- The number is that of one of the first `count` slots. -/
def Listed (inodes : Nat → Inode) (inodeNo count : Nat) : Prop :=
  ∃ slot, slot < count ∧ (inodes slot).inodeNo = inodeNo

def ListedOnce (inodes : Nat → Inode) (inodeNo count : Nat) : Prop :=
  ∀ slot other, slot < count → other < count → (inodes slot).inodeNo = inodeNo →
    (inodes other).inodeNo = inodeNo → slot = other

/-- The buffers after the inode is copied over one slot of the store. -/
def Fs.replaceSlot (fs : Fs) (slot : Nat) (inode : Inode) : Disk :=
  Function.update fs.bufs inodestoreBlockNumber
    { fs.bufs inodestoreBlockNumber with inodes := Function.update fs.store slot inode }

/-- What `dadfs_inode_save` is for: the inode's slot in the table is replaced, and nothing is
when it has none. -/
structure SavesInode (before : Fs) (inode : Inode) (ret : Int) (after : Fs) : Prop where
  stored : ∀ slot, slot < before.super.inodesCount →
    (before.store slot).inodeNo = inode.inodeNo →
      ret = 0 ∧ after.bufs = before.replaceSlot slot inode
  missing : ¬ Listed before.store inode.inodeNo before.super.inodesCount →
    ret = -eio ∧ after.bufs = before.bufs

def ReturnsSaved (before : Fs) (inode : Inode) : Result Stuck Fs Int → Prop
  | .ok ret after => SavesInode before inode ret after
  | .error _ _ => False

theorem saveSlot_bufs (fs : Fs) (slot : Nat) (inode : Inode) :
    (fs.saveSlot slot inode).bufs = fs.replaceSlot slot inode := rfl

theorem ListedOnce.firstSlot {inodes : Nat → Inode} {inodeNo count slot : Nat}
    (once : ListedOnce inodes inodeNo count) (inside : slot < count)
    (hit : (inodes slot).inodeNo = inodeNo) : FirstSlot inodes inodeNo 0 slot := by
  refine ⟨Nat.zero_le _, hit, fun i _ before same => ?_⟩
  have equal := once i slot (by omega) inside same hit
  omega

/-- The slot past the table is the only other one that the search can stop at. -/
theorem inodeSearch_boundary {inodes : Nat → Inode} {inodeNo count slot : Nat}
    (found : dadfsInodeSearch inodes inodeNo count 0 = some slot) :
    Listed inodes inodeNo count ∨ slot = count ∧ (inodes count).inodeNo = inodeNo := by
  obtain ⟨upper, first⟩ := inodeSearch_some found
  rcases Nat.lt_or_ge slot count with inside | past
  · exact .inl ⟨slot, inside, first.hit⟩
  · have last : slot = count := by omega
    exact .inr ⟨last, last ▸ first.hit⟩

theorem searched_saves_iff {fs : Fs} {inode : Inode}
    (once : ListedOnce fs.store inode.inodeNo fs.super.inodesCount) :
    (match dadfsInodeSearch fs.store inode.inodeNo fs.super.inodesCount 0 with
      | some slot => SavesInode fs inode 0 (fs.saveSlot slot inode)
      | none => SavesInode fs inode (-eio) fs) ↔
      Listed fs.store inode.inodeNo fs.super.inodesCount ∨
        (fs.store fs.super.inodesCount).inodeNo ≠ inode.inodeNo := by
  cases found : dadfsInodeSearch fs.store inode.inodeNo fs.super.inodesCount 0 with
  | none =>
      have absent := inodeSearch_none found
      refine iff_of_true ⟨?_, fun _ => ⟨rfl, rfl⟩⟩ (.inr (absent _ (Nat.zero_le _) (by omega)))
      intro slot inside hit
      exact absurd hit (absent slot (Nat.zero_le _) (by omega))
  | some slot =>
      constructor
      · intro saves
        by_cases listed : Listed fs.store inode.inodeNo fs.super.inodesCount
        · exact .inl listed
        · exact absurd (saves.missing listed).1 (by decide)
      · intro condition
        have listed : Listed fs.store inode.inodeNo fs.super.inodesCount := by
          rcases inodeSearch_boundary found with listed | ⟨-, boundary⟩
          · exact listed
          · exact condition.resolve_right fun apart => apart boundary
        refine ⟨fun other inside hit => ⟨rfl, ?_⟩, fun missing => absurd listed missing⟩
        have same : other = slot :=
          (once.firstSlot inside hit).unique (inodeSearch_some found).2
        rw [same, saveSlot_bufs]

/-- For every store, count and inode that is listed at most once: saving does what it is for
exactly when it gets the mutex and the slot just past the table does not hold the number of an
inode that the table misses. -/
theorem inodeSave_saves_iff (interrupted : Bool) (inode : Inode) (fs : Fs)
    (once : ListedOnce fs.store inode.inodeNo fs.super.inodesCount) :
    ReturnsSaved fs inode ((dadfsInodeSave interrupted inode).run fs) ↔
      (interrupted = false ∧ fs.held .sb = false) ∧
        (Listed fs.store inode.inodeNo fs.super.inodesCount ∨
          (fs.store fs.super.inodesCount).inodeNo ≠ inode.inodeNo) := by
  rw [dadfsInodeSave_run]
  cases interrupted with
  | true =>
      refine iff_of_false (fun saves => ?_) fun held => by cases held.1.1
      rw [if_pos rfl] at saves
      by_cases listed : Listed fs.store inode.inodeNo fs.super.inodesCount
      · obtain ⟨slot, inside, hit⟩ := listed
        exact absurd (saves.stored slot inside hit).1 (by decide)
      · exact absurd (saves.missing listed).1 (by decide)
  | false =>
      rw [if_neg Bool.false_ne_true]
      cases locked : fs.held .sb with
      | true => exact iff_of_false (fun waits => waits) fun held => by cases held.1.2
      | false =>
          rw [if_neg Bool.false_ne_true, ← searched_saves_iff once]
          cases dadfsInodeSearch fs.store inode.inodeNo fs.super.inodesCount 0 with
          | none => exact (and_iff_right ⟨rfl, rfl⟩).symm
          | some slot => exact (and_iff_right ⟨rfl, rfl⟩).symm

/-- The fresh image on a device whose fourth inode slot holds an old inode of number 7. -/
def staleSlot : Fs :=
  (mounted
    (mkfs mkfsFreeBlocks
      { zeroDevice with
        blocks := fun block =>
          { zeroDevice.blocks block with
            inodes := Function.update (zeroDevice.blocks block).inodes 3
              { mode := sIfreg, inodeNo := 7, dataBlockNumber := 9, size := 1 } } })
    rootInode).fs

theorem inodeSave_saves_welcome :
    ReturnsSaved staleSlot welcomeInode ((dadfsInodeSave false welcomeInode).run staleSlot) ↔
      ((false = false ∧ staleSlot.held .sb = false) ∧
        (Listed staleSlot.store welcomeInode.inodeNo staleSlot.super.inodesCount ∨
          (staleSlot.store staleSlot.super.inodesCount).inodeNo ≠ welcomeInode.inodeNo)) := by
  refine inodeSave_saves_iff false welcomeInode staleSlot ?_
  have bounded : ∀ slot < 3, (staleSlot.store slot).inodeNo = 3 → slot = 2 := by decide
  intro slot other inside otherInside hit otherHit
  rw [bounded slot inside hit, bounded other otherInside otherHit]

/-- An inode of number 7 that is not in the table is written over the old one. -/
theorem stale_slot_overwritten :
    ¬ ReturnsSaved staleSlot { welcomeInode with inodeNo := 7 }
      ((dadfsInodeSave false { welcomeInode with inodeNo := 7 }).run staleSlot) := by
  intro saves
  have missing : ¬ Listed staleSlot.store 7 staleSlot.super.inodesCount := by
    have bounded : ∀ slot < 3, (staleSlot.store slot).inodeNo ≠ 7 := by decide
    rintro ⟨slot, inside, hit⟩
    exact bounded slot inside hit
  exact absurd (saves.missing missing).1 (by decide)

end Ve482.Dadfs
