import Ve482.Dadfs.Create

set_option autoImplicit false

namespace Ve482.Dadfs

open EStateM (Result)

def Fs.sbSync (fs : Fs) : Fs :=
  (fs.emit (.markDirty superblockBlockNumber)).emit (.sync superblockBlockNumber)

def Fs.takeBlock (fs : Fs) (block : Nat) : Fs :=
  ({ fs with allocated := fs.allocated ++ [block] }.emit
    (writeSuper fs.bufs
      { fs.super with freeBlocks := fs.super.freeBlocks &&& ~~~shiftMask block })).sbSync

def Fs.appendInode (fs : Fs) (inode : Inode) : Fs :=
  let slotted := fs.emit (writeInode fs.bufs fs.super.inodesCount inode)
  ((slotted.emit (writeSuper slotted.bufs
    { slotted.super with inodesCount := slotted.super.inodesCount + 1 })).emit
      (.markDirty inodestoreBlockNumber)).sbSync

def Fs.appendRecord (fs : Fs) (parent : Inode) (record : DirRecord) : Fs :=
  ((fs.emit (writeRecord fs.bufs parent.dataBlockNumber parent.dirChildrenCount record)).emit
    (.markDirty parent.dataBlockNumber)).emit (.sync parent.dataBlockNumber)

def Fs.saveSlot (fs : Fs) (slot : Nat) (inode : Inode) : Fs :=
  ((fs.emit (writeInode fs.bufs slot inode)).emit (.markDirty inodestoreBlockNumber)).emit
    (.sync inodestoreBlockNumber)

@[simp] theorem hold_held_self (fs : Fs) (mutex : Mutex) : (fs.hold mutex).held mutex = true :=
  Function.update_self ..

theorem hold_held_other (fs : Fs) {mutex other : Mutex} (apart : other ≠ mutex) :
    (fs.hold mutex).held other = fs.held other :=
  Function.update_of_ne apart ..

theorem unlock_hold (fs : Fs) (mutex : Mutex) (free : fs.held mutex = false) :
    (fs.hold mutex).unlock mutex = fs := by
  have same : Function.update fs.held mutex false = fs.held := by
    rw [← free, Function.update_eq_self]
  rw [Fs.unlock, if_pos (hold_held_self fs mutex)]
  simp only [Fs.hold, Function.update_idem, same]

theorem unlock_held_other (fs : Fs) {mutex other : Mutex} (apart : other ≠ mutex) :
    (fs.unlock mutex).held other = fs.held other := by
  unfold Fs.unlock
  split
  · exact Function.update_of_ne apart ..
  · rfl

theorem hold_unlock_other (fs : Fs) {mutex other : Mutex} (apart : other ≠ mutex) :
    (fs.hold mutex).unlock other = (fs.unlock other).hold mutex := by
  unfold Fs.unlock
  rw [hold_held_other fs apart]
  cases fs.held other with
  | true => simp only [Fs.hold, ↓reduceIte, Function.update_comm apart]
  | false => rfl

theorem mutexLockInterruptible_run (mutex : Mutex) (interrupted : Bool) (fs : Fs) :
    (mutexLockInterruptible mutex interrupted).run fs =
      if interrupted then .ok true fs
      else if fs.held mutex then .error .hang fs else .ok false (fs.hold mutex) := by
  unfold mutexLockInterruptible
  cases interrupted with
  | true => rfl
  | false =>
      simp only [Bool.false_eq_true, ↓reduceIte, EStateM.run_bind, EStateM.run_get]
      cases locked : fs.held mutex <;> rfl

@[simp] theorem mutexUnlock_run (mutex : Mutex) (fs : Fs) :
    (mutexUnlock mutex).run fs = .ok () (fs.unlock mutex) := rfl

@[simp] theorem emit_run (op : BufOp) (fs : Fs) : (emit op).run fs = .ok () (fs.emit op) := rfl

@[simp] theorem dadfsSbSync_run (fs : Fs) : dadfsSbSync.run fs = .ok () fs.sbSync := rfl

theorem dadfsSbGetAFreeblock_run (interrupted : Bool) (fs : Fs) :
    (dadfsSbGetAFreeblock interrupted).run fs =
      if interrupted then .ok (.error (-eintr)) (fs.unlock .sb)
      else if fs.held .sb then .error .hang fs
      else if firstFree fs.super.freeBlocks = maxFilesystemObjectsSupported then
        .ok (.error (-enospc)) fs
      else
        .ok (.ok (firstFree fs.super.freeBlocks)) (fs.takeBlock (firstFree fs.super.freeBlocks)) := by
  unfold dadfsSbGetAFreeblock
  simp only [EStateM.run_bind, mutexLockInterruptible_run]
  cases interrupted with
  | true => rfl
  | false =>
      cases locked : fs.held .sb with
      | true => rfl
      | false =>
          simp only [Bool.false_eq_true, ↓reduceIte, EStateM.run_bind, EStateM.run_get,
            show (fs.hold .sb).super = fs.super from rfl]
          by_cases full : firstFree fs.super.freeBlocks = maxFilesystemObjectsSupported
          · simp only [full, ↓reduceIte, EStateM.run_bind, mutexUnlock_run, EStateM.run_pure,
              unlock_hold fs .sb locked]
          · simp only [full, ↓reduceIte, EStateM.run_bind, EStateM.run_modify, emit_run,
              dadfsSbSync_run, mutexUnlock_run, EStateM.run_pure]
            exact congrArg (Result.ok _) (unlock_hold (fs.takeBlock _) .sb locked)

theorem dadfsSbGetObjectsCount_run (interrupted : Bool) (fs : Fs) :
    (dadfsSbGetObjectsCount interrupted).run fs =
      if interrupted then .ok (.error (-eintr)) fs
      else if fs.held .inodesMgmt then .error .hang fs
      else .ok (.ok fs.super.inodesCount) fs := by
  unfold dadfsSbGetObjectsCount
  simp only [EStateM.run_bind, mutexLockInterruptible_run]
  cases interrupted with
  | true => rfl
  | false =>
      cases locked : fs.held .inodesMgmt with
      | true => rfl
      | false =>
          simp only [Bool.false_eq_true, ↓reduceIte, EStateM.run_bind, EStateM.run_get,
            mutexUnlock_run, EStateM.run_pure, unlock_hold fs .inodesMgmt locked]
          rfl

theorem dadfsInodeAdd_run (inodesInterrupted sbInterrupted : Bool) (inode : Inode) (fs : Fs) :
    (dadfsInodeAdd inodesInterrupted sbInterrupted inode).run fs =
      if inodesInterrupted then .ok () fs
      else if fs.held .inodesMgmt then .error .hang fs
      else if sbInterrupted then .ok () (fs.hold .inodesMgmt)
      else if fs.held .sb then .error .hang (fs.hold .inodesMgmt)
      else .ok () (fs.appendInode inode) := by
  unfold dadfsInodeAdd
  simp only [EStateM.run_bind, mutexLockInterruptible_run]
  cases inodesInterrupted with
  | true => rfl
  | false =>
      cases inodesLocked : fs.held .inodesMgmt with
      | true => rfl
      | false =>
          simp only [Bool.false_eq_true, ↓reduceIte, EStateM.run_bind, mutexLockInterruptible_run,
            hold_held_other fs (show Mutex.sb ≠ .inodesMgmt by decide)]
          cases sbInterrupted with
          | true => rfl
          | false =>
              cases sbLocked : fs.held .sb with
              | true => rfl
              | false =>
                  simp only [Bool.false_eq_true, ↓reduceIte, EStateM.run_bind, EStateM.run_get,
                    emit_run, dadfsSbSync_run, mutexUnlock_run]
                  have sbFree : ((fs.appendInode inode).hold .inodesMgmt).held .sb = false :=
                    (hold_held_other _ (by decide)).trans sbLocked
                  have first := unlock_hold ((fs.appendInode inode).hold .inodesMgmt) .sb sbFree
                  have second := unlock_hold (fs.appendInode inode) .inodesMgmt inodesLocked
                  exact congrArg (Result.ok ()) ((congrArg (Fs.unlock · .inodesMgmt) first).trans second)

theorem dadfsInodeSave_run (interrupted : Bool) (inode : Inode) (fs : Fs) :
    (dadfsInodeSave interrupted inode).run fs =
      if interrupted then .ok (-eintr) fs
      else if fs.held .sb then .error .hang fs
      else match dadfsInodeSearch fs.store inode.inodeNo fs.super.inodesCount 0 with
        | some slot => .ok 0 (fs.saveSlot slot inode)
        | none => .ok (-eio) fs := by
  unfold dadfsInodeSave
  simp only [EStateM.run_bind, mutexLockInterruptible_run]
  cases interrupted with
  | true => rfl
  | false =>
      cases locked : fs.held .sb with
      | true => rfl
      | false =>
          simp only [Bool.false_eq_true, ↓reduceIte, EStateM.run_bind, EStateM.run_get,
            show (fs.hold .sb).store = fs.store from rfl,
            show (fs.hold .sb).super = fs.super from rfl]
          cases dadfsInodeSearch fs.store inode.inodeNo fs.super.inodesCount 0 with
          | none =>
              simp only [EStateM.run_bind, mutexUnlock_run, EStateM.run_pure,
                unlock_hold fs .sb locked]
          | some slot =>
              simp only [EStateM.run_bind, emit_run, mutexUnlock_run, EStateM.run_pure]
              exact congrArg (Result.ok 0) (unlock_hold (fs.saveSlot slot inode) .sb locked)

/-- The state after `dadfs_inode_add`, which may have done nothing or kept a mutex. -/
def Fs.afterAdd (fs : Fs) (env : CreateEnv) (inode : Inode) : Fs :=
  if env.addInodesLock then fs
  else if env.addSbLock then fs.hold .inodesMgmt
  else fs.appendInode inode

def newRecord (name : List UInt8) (inode : Inode) : DirRecord :=
  { filename := name, inodeNo := inode.inodeNo }

def Fs.linked (fs : Fs) (env : CreateEnv) (dir : Nat) (name : List UInt8) (inode : Inode) : Fs :=
  (fs.afterAdd env inode).appendRecord (fs.mem dir) (newRecord name inode)

def Fs.counted (fs : Fs) (env : CreateEnv) (dir : Nat) (name : List UInt8) (inode : Inode) : Fs :=
  (fs.linked env dir name inode).setMem dir (fs.mem dir).addChild

/-- The slot in which `dadfs_inode_save` finds the parent. -/
def Fs.parentSlot (fs : Fs) (env : CreateEnv) (dir : Nat) (name : List UInt8) (inode : Inode) :
    Option Nat :=
  dadfsInodeSearch (fs.counted env dir name inode).store (fs.mem dir).inodeNo
    (fs.counted env dir name inode).super.inodesCount 0

/-- What a creation that got its block comes to. -/
def Fs.linkResult (fs : Fs) (env : CreateEnv) (dir : Nat) (name : List UInt8) (inode : Inode) :
    Result Stuck Fs (Int × Option Inode) :=
  if env.inodesLock then .ok (-eintr, none) (fs.linked env dir name inode)
  else if !env.addInodesLock && env.addSbLock then
    .error .hang ((fs.linked env dir name inode).hold .directoryChildrenUpdate)
  else if env.saveLock then .ok (-eintr, none) (fs.counted env dir name inode)
  else match fs.parentSlot env dir name inode with
    | some slot =>
        .ok (0, some inode) ((fs.counted env dir name inode).saveSlot slot (fs.mem dir).addChild)
    | none => .ok (-eio, none) (fs.counted env dir name inode)

theorem afterAdd_held (fs : Fs) (env : CreateEnv) (inode : Inode) :
    (fs.afterAdd env inode).held =
      if !env.addInodesLock && env.addSbLock then (fs.hold .inodesMgmt).held else fs.held := by
  unfold Fs.afterAdd
  cases env.addInodesLock <;> cases env.addSbLock <;> rfl

@[simp] theorem afterAdd_mem (fs : Fs) (env : CreateEnv) (inode : Inode) :
    (fs.afterAdd env inode).mem = fs.mem := by
  unfold Fs.afterAdd
  cases env.addInodesLock <;> cases env.addSbLock <;> rfl

/-- Only an interrupted second lock of `dadfs_inode_add` leaves a mutex behind. -/
theorem linked_held_inodesMgmt (fs : Fs) (env : CreateEnv) (dir : Nat) (name : List UInt8)
    (inode : Inode) (free : fs.held .inodesMgmt = false) :
    (fs.linked env dir name inode).held .inodesMgmt = (!env.addInodesLock && env.addSbLock) := by
  change (fs.afterAdd env inode).held .inodesMgmt = _
  rw [afterAdd_held]
  cases !env.addInodesLock && env.addSbLock with
  | true => exact hold_held_self fs .inodesMgmt
  | false => exact free

theorem linked_held_other (fs : Fs) (env : CreateEnv) (dir : Nat) (name : List UInt8)
    (inode : Inode) {mutex : Mutex} (apart : mutex ≠ .inodesMgmt) :
    (fs.linked env dir name inode).held mutex = fs.held mutex := by
  change (fs.afterAdd env inode).held mutex = _
  rw [afterAdd_held]
  split
  · exact hold_held_other fs apart
  · rfl

theorem countChild_run (env : CreateEnv) (dir : Nat) (inode : Inode) (fs : Fs)
    (childrenFree : fs.held .directoryChildrenUpdate = false) (sbFree : fs.held .sb = false) :
    (countChild env dir inode).run (fs.hold .directoryChildrenUpdate) =
      if env.inodesLock then .ok (-eintr, none) fs
      else if fs.held .inodesMgmt then .error .hang (fs.hold .directoryChildrenUpdate)
      else
        let counted := fs.setMem dir (fs.mem dir).addChild
        if env.saveLock then .ok (-eintr, none) counted
        else match dadfsInodeSearch fs.store (fs.mem dir).inodeNo fs.super.inodesCount 0 with
          | some slot => .ok (0, some inode) (counted.saveSlot slot (fs.mem dir).addChild)
          | none => .ok (-eio, none) counted := by
  unfold countChild
  simp only [EStateM.run_bind, mutexLockInterruptible_run,
    hold_held_other fs (show Mutex.inodesMgmt ≠ .directoryChildrenUpdate by decide)]
  cases env.inodesLock with
  | true =>
      simp only [↓reduceIte, EStateM.run_bind, mutexUnlock_run, EStateM.run_pure,
        unlock_hold fs _ childrenFree]
  | false =>
      cases inodesLocked : fs.held .inodesMgmt with
      | true => rfl
      | false =>
          let counted := fs.setMem dir (fs.mem dir).addChild
          -- the state in which `dadfs_inode_save` runs, and what the two unlocks make of it
          have released (last : Fs) (childrenLast : last.held .directoryChildrenUpdate = false)
              (inodesLast : last.held .inodesMgmt = false) :
              (((last.hold .directoryChildrenUpdate).hold .inodesMgmt).unlock .inodesMgmt).unlock
                .directoryChildrenUpdate = last := by
            rw [unlock_hold (last.hold .directoryChildrenUpdate) .inodesMgmt
              ((hold_held_other last (by decide)).trans inodesLast), unlock_hold last _ childrenLast]
          have saved := dadfsInodeSave_run env.saveLock (fs.mem dir).addChild
            ((counted.hold .directoryChildrenUpdate).hold .inodesMgmt)
          rw [hold_held_other _ (show Mutex.sb ≠ .inodesMgmt by decide),
            hold_held_other _ (show Mutex.sb ≠ .directoryChildrenUpdate by decide),
            show counted.held .sb = false from sbFree] at saved
          simp only [Bool.false_eq_true, ↓reduceIte, EStateM.run_bind, EStateM.run_get,
            EStateM.run_modify]
          rw [show ((fs.hold .directoryChildrenUpdate).hold .inodesMgmt).setMem dir
              (((fs.hold .directoryChildrenUpdate).hold .inodesMgmt).mem dir).addChild =
              (counted.hold .directoryChildrenUpdate).hold .inodesMgmt from rfl,
            show ((fs.hold .directoryChildrenUpdate).hold .inodesMgmt).mem dir = fs.mem dir from rfl,
            saved]
          cases env.saveLock with
          | true =>
              simp only [↓reduceIte, EStateM.run_bind, mutexUnlock_run, EStateM.run_pure,
                released counted childrenFree inodesLocked,
                show (-eintr : Int) ≠ 0 by decide, ne_eq, not_false_eq_true]
              rfl
          | false =>
              simp only [Bool.false_eq_true, ↓reduceIte,
                show ((counted.hold .directoryChildrenUpdate).hold .inodesMgmt).store = fs.store from rfl,
                show ((counted.hold .directoryChildrenUpdate).hold .inodesMgmt).super = fs.super from rfl,
                show (fs.mem dir).addChild.inodeNo = (fs.mem dir).inodeNo from rfl]
              cases dadfsInodeSearch fs.store (fs.mem dir).inodeNo fs.super.inodesCount 0 with
              | none =>
                  simp only [↓reduceIte, EStateM.run_bind, mutexUnlock_run, EStateM.run_pure,
                    released counted childrenFree inodesLocked,
                    show (-eio : Int) ≠ 0 by decide, ne_eq, not_false_eq_true]
                  rfl
              | some slot =>
                  simp only [↓reduceIte, EStateM.run_bind, mutexUnlock_run, EStateM.run_pure, ne_eq,
                    not_true_eq_false]
                  exact congrArg (Result.ok (0, some inode))
                    (released (counted.saveSlot slot (fs.mem dir).addChild) childrenFree inodesLocked)

theorem createLink_run (env : CreateEnv) (dir : Nat) (name : List UInt8) (inode : Inode) (fs : Fs)
    (childrenFree : fs.held .directoryChildrenUpdate = false)
    (inodesFree : fs.held .inodesMgmt = false) (sbFree : fs.held .sb = false) :
    (createLink env dir name inode).run (fs.hold .directoryChildrenUpdate) =
      fs.linkResult env dir name inode := by
  have added : (dadfsInodeAdd env.addInodesLock env.addSbLock inode).run
      (fs.hold .directoryChildrenUpdate) =
      .ok () ((fs.afterAdd env inode).hold .directoryChildrenUpdate) := by
    rw [dadfsInodeAdd_run,
      hold_held_other fs (show Mutex.inodesMgmt ≠ .directoryChildrenUpdate by decide),
      hold_held_other fs (show Mutex.sb ≠ .directoryChildrenUpdate by decide), inodesFree, sbFree]
    unfold Fs.afterAdd
    cases env.addInodesLock with
    | true => rfl
    | false =>
        cases env.addSbLock with
        | true =>
            simp only [Fs.hold, Bool.false_eq_true, ↓reduceIte,
              Function.update_comm (show Mutex.inodesMgmt ≠ .directoryChildrenUpdate by decide)]
        | false => rfl
  let linked := fs.linked env dir name inode
  have linkedMem : linked.mem = fs.mem := afterAdd_mem fs env inode
  unfold createLink
  simp only [EStateM.run_bind, added, EStateM.run_get, emit_run]
  rw [show ((fs.afterAdd env inode).hold .directoryChildrenUpdate).mem = fs.mem from
    afterAdd_mem fs env inode]
  change (countChild env dir inode).run (linked.hold .directoryChildrenUpdate) = _
  rw [countChild_run env dir inode linked
    ((linked_held_other fs env dir name inode (by decide)).trans childrenFree)
    ((linked_held_other fs env dir name inode (by decide)).trans sbFree),
    linked_held_inodesMgmt fs env dir name inode inodesFree, linkedMem]
  rfl

theorem dadfsCreateFsObject_run (env : CreateEnv) (dir : Nat) (name : List UInt8)
    (umode : BitVec 16) (fs : Fs) :
    (dadfsCreateFsObject env dir name umode).run fs =
      let mode : Mode := umode.setWidth 32
      if env.childrenLock then .ok (-eintr, none) fs
      else if fs.held .directoryChildrenUpdate then .error .hang fs
      else if env.objectsCountLock then .ok (-eintr, none) fs
      else if fs.held .inodesMgmt then .error .hang (fs.hold .directoryChildrenUpdate)
      else if fs.super.inodesCount ≥ maxFilesystemObjectsSupported then .ok (-enospc, none) fs
      else if !sIsdir mode && !sIsreg mode then .ok (-einval, none) fs
      else if !env.newInode then .ok (-enomem, none) fs
      else if env.freeblockLock then .ok (-eintr, none) (fs.unlock .sb)
      else if fs.held .sb then .error .hang (fs.hold .directoryChildrenUpdate)
      else if firstFree fs.super.freeBlocks = maxFilesystemObjectsSupported then
        .ok (-enospc, none) fs
      else
        (fs.takeBlock (firstFree fs.super.freeBlocks)).linkResult env dir name
          { mode := mode, inodeNo := fs.super.inodesCount + startIno - reservedInodes + 1
            dataBlockNumber := firstFree fs.super.freeBlocks, size := 0 } := by
  unfold dadfsCreateFsObject
  simp only [EStateM.run_bind, mutexLockInterruptible_run]
  cases env.childrenLock with
  | true => rfl
  | false =>
  cases childrenFree : fs.held .directoryChildrenUpdate with
  | true => rfl
  | false =>
  simp only [Bool.false_eq_true, ↓reduceIte, EStateM.run_bind, dadfsSbGetObjectsCount_run,
    hold_held_other fs (show Mutex.inodesMgmt ≠ .directoryChildrenUpdate by decide)]
  cases env.objectsCountLock with
  | true =>
      simp only [↓reduceIte, EStateM.run_bind, mutexUnlock_run, EStateM.run_pure,
        unlock_hold fs _ childrenFree]
  | false =>
  cases inodesFree : fs.held .inodesMgmt with
  | true => rfl
  | false =>
  simp only [Bool.false_eq_true, ↓reduceIte,
    show (fs.hold .directoryChildrenUpdate).super = fs.super from rfl]
  by_cases full : fs.super.inodesCount ≥ maxFilesystemObjectsSupported
  · simp only [full, ↓reduceIte, EStateM.run_bind, mutexUnlock_run, EStateM.run_pure,
      unlock_hold fs _ childrenFree]
  simp only [full, ↓reduceIte]
  cases kind : !sIsdir (umode.setWidth 32) && !sIsreg (umode.setWidth 32) with
  | true =>
      simp only [↓reduceIte, EStateM.run_bind, mutexUnlock_run, EStateM.run_pure,
        unlock_hold fs _ childrenFree]
  | false =>
  cases env.newInode with
  | false =>
      simp only [Bool.false_eq_true, Bool.not_false, ↓reduceIte, EStateM.run_bind, mutexUnlock_run,
        EStateM.run_pure, unlock_hold fs _ childrenFree]
  | true =>
  simp only [Bool.false_eq_true, Bool.not_true, ↓reduceIte, EStateM.run_bind,
    dadfsSbGetAFreeblock_run, hold_held_other fs (show Mutex.sb ≠ .directoryChildrenUpdate by decide),
    show (fs.hold .directoryChildrenUpdate).super = fs.super from rfl]
  cases env.freeblockLock with
  | true =>
      have released : ((fs.hold .directoryChildrenUpdate).unlock .sb).unlock
          .directoryChildrenUpdate = fs.unlock .sb := by
        rw [hold_unlock_other fs (by decide), unlock_hold]
        exact (unlock_held_other fs (by decide)).trans childrenFree
      simp only [↓reduceIte, EStateM.run_bind, mutexUnlock_run, EStateM.run_pure, released]
  | false =>
  cases sbFree : fs.held .sb with
  | true => rfl
  | false =>
  simp only [Bool.false_eq_true, ↓reduceIte]
  by_cases none : firstFree fs.super.freeBlocks = maxFilesystemObjectsSupported
  · simp only [none, ↓reduceIte, EStateM.run_bind, mutexUnlock_run, EStateM.run_pure,
      unlock_hold fs _ childrenFree]
  · simp only [none, ↓reduceIte]
    exact createLink_run env dir name _ (fs.takeBlock (firstFree fs.super.freeBlocks))
      childrenFree inodesFree sbFree

end Ve482.Dadfs
