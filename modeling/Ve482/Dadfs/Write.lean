import Ve482.Dadfs.InodeStore

set_option autoImplicit false

namespace Ve482.Dadfs

open EStateM (Result)

/-- The answers of the kernel to one `dadfs_write`. `checks` is `generic_write_checks`: from
the position and the length, its return value and what it makes of the two. `transfer n` is
how many of `n` bytes the copy from user space manages. -/
structure WriteEnv where
  start : Option Int
  checks : Nat → Nat → Int × Nat × Nat
  bread : Bool
  getWriteAccess : Int
  transfer : Nat → Nat
  dirtyMetadata : Int
  stop : Int
  inodesLock : Bool
  saveLock : Bool

def overlay (bytes : Nat → UInt8) (offset : Nat) (data : List UInt8) : Nat → UInt8 :=
  fun i => if offset ≤ i ∧ i < offset + data.length then data.getD (i - offset) 0 else bytes i

def writeBytes (bufs : Disk) (block offset : Nat) (data : List UInt8) : BufOp :=
  .write block offset data.length
    { bufs block with bytes := overlay (bufs block).bytes offset data }

def jbd2JournalStart : Kernel Unit :=
  modify fun fs => { fs with openHandles := fs.openHandles + 1 }

def jbd2JournalStop : Kernel Unit :=
  modify fun fs => { fs with openHandles := fs.openHandles - 1 }

/-- `dadfs_write` before Linux 4.0: the return value and `*ppos`. -/
def dadfsWrite (env : WriteEnv) (ino : Nat) (data : List UInt8) (ppos : Nat) :
    Kernel (Int × Nat) := do
  match env.start with
  | some err => return (err, ppos)
  | none =>
      jbd2JournalStart
      let (retval, ppos, len) := env.checks ppos data.length
      if retval ≠ 0 then
        return (retval, ppos)
      let fs ← get
      let sfsInode := fs.mem ino
      if !env.bread then
        return (0, ppos)
      if env.getWriteAccess ≠ 0 then
        return (env.getWriteAccess, ppos)
      emit (writeBytes fs.bufs sfsInode.dataBlockNumber ppos (data.take (env.transfer len)))
      if env.transfer len < len then
        return (-efault, ppos)
      let ppos := ppos + len
      if env.dirtyMetadata ≠ 0 then
        return (env.dirtyMetadata, ppos)
      jbd2JournalStop
      if env.stop ≠ 0 then
        return (env.stop, ppos)
      emit (.markDirty sfsInode.dataBlockNumber)
      emit (.sync sfsInode.dataBlockNumber)
      if ← mutexLockInterruptible .inodesMgmt env.inodesLock then
        return (-eintr, ppos)
      let sfsInode := { sfsInode with size := ppos }
      modify (·.setMem ino sfsInode)
      let retval ← dadfsInodeSave env.saveLock sfsInode
      mutexUnlock .inodesMgmt
      if retval ≠ 0 then
        return (retval, ppos)
      return (len, ppos)

/-- `dadfs_write` from Linux 4.0 on. `copy_from_iter` advances the iterator, so that
`iov_iter->count`, read again afterwards, is what is left of it. -/
def dadfsWriteIter (env : WriteEnv) (ino : Nat) (data : List UInt8) (kiPos : Nat) :
    Kernel (Int × Nat) := do
  match env.start with
  | some err => return (err, kiPos)
  | none =>
      jbd2JournalStart
      let (retval, kiPos, count) := env.checks kiPos data.length
      if retval ≠ 0 then
        return (retval, kiPos)
      let fs ← get
      let sfsInode := fs.mem ino
      if !env.bread then
        return (0, kiPos)
      if env.getWriteAccess ≠ 0 then
        return (env.getWriteAccess, kiPos)
      emit (writeBytes fs.bufs sfsInode.dataBlockNumber kiPos (data.take (env.transfer count)))
      if env.transfer count = 0 then
        return (-efault, kiPos)
      let count := count - env.transfer count
      let kiPos := kiPos + count
      if env.dirtyMetadata ≠ 0 then
        return (env.dirtyMetadata, kiPos)
      jbd2JournalStop
      if env.stop ≠ 0 then
        return (env.stop, kiPos)
      emit (.markDirty sfsInode.dataBlockNumber)
      emit (.sync sfsInode.dataBlockNumber)
      if ← mutexLockInterruptible .inodesMgmt env.inodesLock then
        return (-eintr, kiPos)
      let sfsInode := { sfsInode with size := kiPos }
      modify (·.setMem ino sfsInode)
      let retval ← dadfsInodeSave env.saveLock sfsInode
      if retval ≠ 0 then
        mutexUnlock .inodesMgmt
        return (retval, kiPos)
      mutexUnlock .inodesMgmt
      return (count, kiPos)

/-- What `dadfs_inode_save` returns and leaves when it can take its mutex. -/
def Fs.saved (fs : Fs) (interrupted : Bool) (inode : Inode) : Int × Fs :=
  if interrupted then (-eintr, fs)
  else match dadfsInodeSearch fs.store inode.inodeNo fs.super.inodesCount 0 with
    | some slot => (0, fs.saveSlot slot inode)
    | none => (-eio, fs)

@[simp] theorem saved_held (fs : Fs) (interrupted : Bool) (inode : Inode) :
    (fs.saved interrupted inode).2.held = fs.held := by
  unfold Fs.saved
  cases interrupted with
  | true => rfl
  | false =>
      simp only [Bool.false_eq_true, ↓reduceIte]
      cases dadfsInodeSearch fs.store inode.inodeNo fs.super.inodesCount 0 <;> rfl

/-- The end of both variants, in which the new size is stored under the mutex. -/
theorem save_under_lock (interrupted : Bool) (inode : Inode) (fs : Fs)
    (sbFree : fs.held .sb = false) :
    (dadfsInodeSave interrupted inode).run (fs.hold .inodesMgmt) =
      .ok (fs.saved interrupted inode).1 ((fs.saved interrupted inode).2.hold .inodesMgmt) := by
  rw [dadfsInodeSave_run, hold_held_other fs (show Mutex.sb ≠ .inodesMgmt by decide), sbFree]
  unfold Fs.saved
  cases interrupted with
  | true => rfl
  | false =>
      simp only [Bool.false_eq_true, ↓reduceIte, show (fs.hold .inodesMgmt).store = fs.store from rfl,
        show (fs.hold .inodesMgmt).super = fs.super from rfl]
      cases dadfsInodeSearch fs.store inode.inodeNo fs.super.inodesCount 0 <;> rfl

def Fs.startHandle (fs : Fs) : Fs := { fs with openHandles := fs.openHandles + 1 }

def Fs.stopHandle (fs : Fs) : Fs := { fs with openHandles := fs.openHandles - 1 }

theorem jbd2JournalStart_run (fs : Fs) : jbd2JournalStart.run fs = .ok () fs.startHandle := rfl

theorem jbd2JournalStop_run (fs : Fs) : jbd2JournalStop.run fs = .ok () fs.stopHandle := rfl

theorem startHandle_stopHandle (fs : Fs) (op : BufOp) :
    (fs.startHandle.emit op).stopHandle = fs.emit op := rfl

/-- The data block after a write that reached `sync_dirty_buffer`. -/
def Fs.written (fs : Fs) (block pos : Nat) (data : List UInt8) : Fs :=
  ((fs.emit (writeBytes fs.bufs block pos data)).emit (.markDirty block)).emit (.sync block)

/-- The end of both variants: the size in memory, then in the store. -/
def Fs.sized (fs : Fs) (env : WriteEnv) (ino : Nat) (inode : Inode) (done : Int) (pos : Nat) :
    Result Stuck Fs (Int × Nat) :=
  if env.inodesLock then .ok (-eintr, pos) fs
  else
    let last := (fs.setMem ino { inode with size := pos }).saved env.saveLock { inode with size := pos }
    .ok (if last.1 ≠ 0 then last.1 else done, pos) last.2

theorem sized_run (env : WriteEnv) (ino : Nat) (inode : Inode) (done : Int) (pos : Nat) (fs : Fs)
    (inodesFree : fs.held .inodesMgmt = false) (sbFree : fs.held .sb = false) :
    (do
      if ← mutexLockInterruptible .inodesMgmt env.inodesLock then
        return (-eintr, pos)
      modify (·.setMem ino { inode with size := pos })
      let retval ← dadfsInodeSave env.saveLock { inode with size := pos }
      mutexUnlock .inodesMgmt
      if retval ≠ 0 then
        return (retval, pos)
      return (done, pos) : Kernel (Int × Nat)).run fs = fs.sized env ino inode done pos := by
  let resized := fs.setMem ino { inode with size := pos }
  let last := resized.saved env.saveLock { inode with size := pos }
  have free : last.2.held .inodesMgmt = false := by
    rw [saved_held]
    exact inodesFree
  unfold Fs.sized
  rw [EStateM.run_bind, mutexLockInterruptible_run, inodesFree]
  cases env.inodesLock with
  | true => rfl
  | false =>
      simp only [Bool.false_eq_true, ↓reduceIte, EStateM.run_bind, EStateM.run_modify]
      rw [show (fs.hold .inodesMgmt).setMem ino { inode with size := pos } =
        resized.hold .inodesMgmt from rfl, save_under_lock _ _ resized sbFree]
      simp only [mutexUnlock_run]
      rw [unlock_hold _ _ free]
      by_cases failed : last.1 ≠ 0
      · rw [if_pos failed, if_pos failed]
        rfl
      · rw [if_neg failed, if_neg failed]
        rfl

theorem dadfsWrite_run (env : WriteEnv) (ino : Nat) (data : List UInt8) (ppos : Nat) (fs : Fs)
    (inodesFree : fs.held .inodesMgmt = false) (sbFree : fs.held .sb = false) :
    (dadfsWrite env ino data ppos).run fs =
      match env.start with
      | some err => .ok (err, ppos) fs
      | none =>
          let checked := env.checks ppos data.length
          let pos := checked.2.1
          let len := checked.2.2
          let block := (fs.mem ino).dataBlockNumber
          let copied := data.take (env.transfer len)
          let copy := fs.startHandle.emit (writeBytes fs.bufs block pos copied)
          if checked.1 ≠ 0 then .ok (checked.1, pos) fs.startHandle
          else if env.bread = false then .ok (0, pos) fs.startHandle
          else if env.getWriteAccess ≠ 0 then .ok (env.getWriteAccess, pos) fs.startHandle
          else if env.transfer len < len then .ok (-efault, pos) copy
          else if env.dirtyMetadata ≠ 0 then .ok (env.dirtyMetadata, pos + len) copy
          else if env.stop ≠ 0 then
            .ok (env.stop, pos + len) (fs.emit (writeBytes fs.bufs block pos copied))
          else (fs.written block pos copied).sized env ino (fs.mem ino) len (pos + len) := by
  unfold dadfsWrite
  cases env.start with
  | some err => rfl
  | none =>
  dsimp only
  simp only [EStateM.run_bind, jbd2JournalStart_run]
  by_cases checked : (env.checks ppos data.length).1 ≠ 0
  · rw [if_pos checked, if_pos checked]
    rfl
  rw [if_neg checked, if_neg checked, EStateM.run_bind, EStateM.run_get]
  dsimp only
  cases bread : env.bread with
  | false => rfl
  | true =>
  simp only [Bool.not_true, Bool.false_eq_true, Bool.true_eq_false, ↓reduceIte]
  by_cases access : env.getWriteAccess ≠ 0
  · rw [if_pos access, if_pos access]
    rfl
  rw [if_neg access, if_neg access, EStateM.run_bind, emit_run]
  dsimp only
  by_cases short : env.transfer (env.checks ppos data.length).2.2 < (env.checks ppos data.length).2.2
  · rw [if_pos short, if_pos short]
    rfl
  rw [if_neg short, if_neg short]
  by_cases dirty : env.dirtyMetadata ≠ 0
  · rw [if_pos dirty, if_pos dirty]
    rfl
  rw [if_neg dirty, if_neg dirty, EStateM.run_bind, jbd2JournalStop_run, startHandle_stopHandle]
  dsimp only
  by_cases stop : env.stop ≠ 0
  · rw [if_pos stop, if_pos stop]
    rfl
  rw [if_neg stop, if_neg stop]
  exact sized_run env ino (fs.mem ino) _ _ _ inodesFree sbFree

/-- The 4.0 variant releases the mutex in each branch. -/
theorem unlock_before_return (mutex : Mutex) (retval : Int) (failed done : Int × Nat) :
    (if retval ≠ 0 then do
        mutexUnlock mutex
        pure failed
      else do
        mutexUnlock mutex
        pure done : Kernel (Int × Nat)) =
      (mutexUnlock mutex >>= fun _ => if retval ≠ 0 then pure failed else pure done) := by
  split <;> rfl

theorem dadfsWriteIter_run (env : WriteEnv) (ino : Nat) (data : List UInt8) (kiPos : Nat) (fs : Fs)
    (inodesFree : fs.held .inodesMgmt = false) (sbFree : fs.held .sb = false) :
    (dadfsWriteIter env ino data kiPos).run fs =
      match env.start with
      | some err => .ok (err, kiPos) fs
      | none =>
          let checked := env.checks kiPos data.length
          let pos := checked.2.1
          let count := checked.2.2
          let left := count - env.transfer count
          let block := (fs.mem ino).dataBlockNumber
          let copied := data.take (env.transfer count)
          let copy := fs.startHandle.emit (writeBytes fs.bufs block pos copied)
          if checked.1 ≠ 0 then .ok (checked.1, pos) fs.startHandle
          else if env.bread = false then .ok (0, pos) fs.startHandle
          else if env.getWriteAccess ≠ 0 then .ok (env.getWriteAccess, pos) fs.startHandle
          else if env.transfer count = 0 then .ok (-efault, pos) copy
          else if env.dirtyMetadata ≠ 0 then .ok (env.dirtyMetadata, pos + left) copy
          else if env.stop ≠ 0 then
            .ok (env.stop, pos + left) (fs.emit (writeBytes fs.bufs block pos copied))
          else (fs.written block pos copied).sized env ino (fs.mem ino) left (pos + left) := by
  unfold dadfsWriteIter
  simp only [unlock_before_return]
  cases env.start with
  | some err => rfl
  | none =>
  dsimp only
  simp only [EStateM.run_bind, jbd2JournalStart_run]
  by_cases checked : (env.checks kiPos data.length).1 ≠ 0
  · rw [if_pos checked, if_pos checked]
    rfl
  rw [if_neg checked, if_neg checked, EStateM.run_bind, EStateM.run_get]
  dsimp only
  cases bread : env.bread with
  | false => rfl
  | true =>
  simp only [Bool.not_true, Bool.false_eq_true, Bool.true_eq_false, ↓reduceIte]
  by_cases access : env.getWriteAccess ≠ 0
  · rw [if_pos access, if_pos access]
    rfl
  rw [if_neg access, if_neg access, EStateM.run_bind, emit_run]
  dsimp only
  by_cases none : env.transfer (env.checks kiPos data.length).2.2 = 0
  · rw [if_pos none, if_pos none]
    rfl
  rw [if_neg none, if_neg none]
  by_cases dirty : env.dirtyMetadata ≠ 0
  · rw [if_pos dirty, if_pos dirty]
    rfl
  rw [if_neg dirty, if_neg dirty, EStateM.run_bind, jbd2JournalStop_run, startHandle_stopHandle]
  dsimp only
  by_cases stop : env.stop ≠ 0
  · rw [if_pos stop, if_pos stop]
    rfl
  rw [if_neg stop, if_neg stop]
  exact sized_run env ino (fs.mem ino) _ _ _ inodesFree sbFree

/-- The calls into the kernel succeed, and the copy is complete. -/
structure WriteEnv.Succeeds (env : WriteEnv) : Prop where
  start : env.start = none
  bread : env.bread = true
  getWriteAccess : env.getWriteAccess = 0
  transfer : ∀ n, env.transfer n = n
  dirtyMetadata : env.dirtyMetadata = 0
  stop : env.stop = 0
  inodesLock : env.inodesLock = false
  saveLock : env.saveLock = false

/-- The same content, position, size in memory and in the store, and return value. -/
def SameWrite (ino : Nat) : Result Stuck Fs (Int × Nat) → Result Stuck Fs (Int × Nat) → Prop
  | .ok (ret, pos) fs, .ok (ret', pos') fs' =>
      (fs.bufs (fs.mem ino).dataBlockNumber).bytes = (fs'.bufs (fs'.mem ino).dataBlockNumber).bytes ∧
        pos = pos' ∧ (fs.mem ino).fileSize = (fs'.mem ino).fileSize ∧
        (fs.storedInode (fs.mem ino).inodeNo).map Inode.fileSize =
          (fs'.storedInode (fs'.mem ino).inodeNo).map Inode.fileSize ∧ ret = ret'
  | _, _ => False

/-- From 4.0 on `generic_write_checks` returns the number of bytes to write, which the code
takes for an error. -/
theorem dadfsWriteIter_stops_at_checks {env : WriteEnv} (succeeds : env.Succeeds) (ino : Nat)
    {data : List UInt8} {kiPos pos count : Nat} (positive : 0 < count)
    (checks : env.checks kiPos data.length = ((count : Int), pos, count)) (fs : Fs)
    (inodesFree : fs.held .inodesMgmt = false) (sbFree : fs.held .sb = false) :
    (dadfsWriteIter env ino data kiPos).run fs = .ok (count, pos) fs.startHandle := by
  rw [dadfsWriteIter_run env ino data kiPos fs inodesFree sbFree]
  simp only [succeeds.start, checks]
  rw [if_pos (by omega)]

theorem dadfsWrite_succeeds {env : WriteEnv} (succeeds : env.Succeeds) (ino : Nat)
    {data : List UInt8} {ppos pos len : Nat} (checks : env.checks ppos data.length = (0, pos, len))
    (fs : Fs) (inodesFree : fs.held .inodesMgmt = false) (sbFree : fs.held .sb = false) :
    (dadfsWrite env ino data ppos).run fs =
      (fs.written (fs.mem ino).dataBlockNumber pos (data.take len)).sized env ino (fs.mem ino) len
        (pos + len) := by
  rw [dadfsWrite_run env ino data ppos fs inodesFree sbFree]
  simp only [succeeds.start, checks, succeeds.bread, succeeds.getWriteAccess, succeeds.transfer,
    succeeds.dirtyMetadata, succeeds.stop, ne_eq, not_true_eq_false, lt_self_iff_false,
    Bool.true_eq_false, ↓reduceIte]

/-- For every inode, content, position and buffer of at least one byte, when everything else
succeeds: the old variant writes and moves on, and the new one has returned before it read
the block. -/
theorem write_variants_differ {old new : WriteEnv} (oldSucceeds : old.Succeeds)
    (newSucceeds : new.Succeeds) (fs : Fs) (ino : Nat) (data : List UInt8) (start : Nat)
    {pos len : Nat} (positive : 0 < len)
    (oldChecks : old.checks start data.length = (0, pos, len))
    (newChecks : new.checks start data.length = ((len : Int), pos, len))
    (inodesFree : fs.held .inodesMgmt = false) (sbFree : fs.held .sb = false) :
    ¬ SameWrite ino ((dadfsWrite old ino data start).run fs)
      ((dadfsWriteIter new ino data start).run fs) := by
  rw [dadfsWrite_succeeds oldSucceeds ino oldChecks fs inodesFree sbFree,
    dadfsWriteIter_stops_at_checks newSucceeds ino positive newChecks fs inodesFree sbFree]
  unfold Fs.sized
  rw [if_neg (by rw [oldSucceeds.inodesLock]; decide)]
  intro same
  have position : pos + len = pos := same.2.1
  omega

/-- A kernel in which every call succeeds, with the return value of `generic_write_checks`
left open. -/
def WriteEnv.smooth (ret : Nat → Int) : WriteEnv :=
  { start := none, checks := fun pos len => (ret len, pos, len), bread := true
    getWriteAccess := 0, transfer := fun n => n, dirtyMetadata := 0, stop := 0
    inodesLock := false, saveLock := false }

theorem smooth_succeeds (ret : Nat → Int) : (WriteEnv.smooth ret).Succeeds :=
  ⟨rfl, rfl, rfl, fun _ => rfl, rfl, rfl, rfl, rfl⟩

/-- The fresh image with its welcome file opened. -/
def welcomeOpened : Fs :=
  (mounted (mkfs mkfsFreeBlocks zeroDevice) rootInode).fs.setMem welcomefileInodeNumber welcomeInode

theorem write_variants_differ_welcome :
    ¬ SameWrite welcomefileInodeNumber
      ((dadfsWrite (.smooth fun _ => 0) welcomefileInodeNumber [72, 105] 5).run welcomeOpened)
      ((dadfsWriteIter (.smooth fun n => n) welcomefileInodeNumber [72, 105] 5).run
        welcomeOpened) :=
  write_variants_differ (smooth_succeeds _) (smooth_succeeds _) welcomeOpened
    welcomefileInodeNumber [72, 105] 5 (show 0 < 2 by decide) rfl rfl rfl rfl

/-- One byte over the head of the welcome file. -/
theorem write_variants_position :
    ¬ SameWrite welcomefileInodeNumber
      ((dadfsWrite (.smooth fun _ => 0) welcomefileInodeNumber [104] 0).run welcomeOpened)
      ((dadfsWriteIter (.smooth fun n => n) welcomefileInodeNumber [104] 0).run
        welcomeOpened) := by
  intro same
  have position : 1 = 0 := same.2.1
  exact absurd position (by decide)

end Ve482.Dadfs
