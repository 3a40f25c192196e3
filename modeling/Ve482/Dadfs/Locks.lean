import Ve482.Dadfs.Write
import Ve482.Lib.Runs

set_option autoImplicit false

namespace Ve482.Dadfs

open EStateM (Result)
open Runs (EveryStep everyStep_congr)

/-- The mutexes are as they were, none was released by a call that did not hold it, and no
journal handle is left open. -/
structure Released (fs fs' : Fs) : Prop where
  held : fs'.held = fs.held
  unlocks : fs'.badUnlocks = fs.badUnlocks
  handles : fs'.openHandles = fs.openHandles

theorem Released.refl (fs : Fs) : Released fs fs := ⟨rfl, rfl, rfl⟩

theorem Released.trans {first second third : Fs} (left : Released first second)
    (right : Released second third) : Released first third :=
  ⟨right.held.trans left.held, right.unlocks.trans left.unlocks,
    right.handles.trans left.handles⟩

/-- A call returns, and has released what it took. -/
def Balanced {α : Type} (fs : Fs) : Result Stuck Fs α → Prop
  | .ok _ fs' => Released fs fs'
  | .error _ _ => False

theorem Released.balanced_iff {α : Type} {fs fs' : Fs} (same : Released fs fs')
    (result : Result Stuck Fs α) : Balanced fs result ↔ Balanced fs' result := by
  cases result with
  | ok value last =>
      refine ⟨fun released => ?_, fun released => same.trans released⟩
      exact Released.trans ⟨same.held.symm, same.unlocks.symm, same.handles.symm⟩ released
  | error stuck last => exact Iff.rfl

def Fs.Unlocked (fs : Fs) : Prop := ∀ mutex, fs.held mutex = false

/-! Creation. -/

/-- A creation that comes to `dadfs_sb_get_a_freeblock`. -/
structure Fs.SeeksBlock (fs : Fs) (env : CreateEnv) (umode : BitVec 16) : Prop where
  childrenLock : env.childrenLock = false
  objectsCountLock : env.objectsCountLock = false
  room : fs.super.inodesCount < maxFilesystemObjectsSupported
  kind : (sIsdir (umode.setWidth 32) || sIsreg (umode.setWidth 32)) = true
  newInode : env.newInode = true

/-- The lock of `dadfs_sb_get_a_freeblock` is not interrupted and, when it finds a block, no
signal comes between the two locks of `dadfs_inode_add`. -/
def Fs.LocksThrough (fs : Fs) (env : CreateEnv) : Prop :=
  env.freeblockLock = false ∧
    (firstFree fs.super.freeBlocks ≠ maxFilesystemObjectsSupported →
      env.addInodesLock = true ∨ env.addSbLock = false)

theorem not_released_unlock {fs : Fs} {mutex : Mutex} (free : fs.held mutex = false) :
    ¬ Released fs (fs.unlock mutex) := by
  intro released
  have counted := released.unlocks
  rw [Fs.unlock, if_neg (by rw [free]; decide)] at counted
  exact absurd counted (Nat.succ_ne_self fs.badUnlocks)

theorem afterAdd_released_iff (fs : Fs) (env : CreateEnv) (inode : Inode)
    (free : fs.held .inodesMgmt = false) :
    Released fs (fs.afterAdd env inode) ↔ env.addInodesLock = true ∨ env.addSbLock = false := by
  unfold Fs.afterAdd
  cases env.addInodesLock with
  | true => exact iff_of_true (.refl fs) (Or.inl rfl)
  | false =>
      cases env.addSbLock with
      | false => exact iff_of_true ⟨rfl, rfl, rfl⟩ (Or.inr rfl)
      | true =>
          refine iff_of_false (fun released => ?_) (fun clean => by cases clean <;> contradiction)
          have kept := congrFun released.held .inodesMgmt
          rw [free] at kept
          exact absurd ((hold_held_self fs .inodesMgmt).symm.trans kept) (by decide)

theorem linkResult_balanced_iff (fs : Fs) (env : CreateEnv) (dir : Nat) (name : List UInt8)
    (inode : Inode) (free : fs.held .inodesMgmt = false) :
    Balanced fs (fs.linkResult env dir name inode) ↔
      env.addInodesLock = true ∨ env.addSbLock = false := by
  have added := afterAdd_released_iff fs env inode free
  -- the later steps write buffers and the parent's memory, and touch no lock
  have ended {fs' : Fs} (step : Released (fs.afterAdd env inode) fs') :
      Released fs fs' ↔ env.addInodesLock = true ∨ env.addSbLock = false := by
    rw [← added]
    refine ⟨fun released => ?_, fun released => released.trans step⟩
    exact released.trans ⟨step.held.symm, step.unlocks.symm, step.handles.symm⟩
  unfold Fs.linkResult
  by_cases inodesLock : env.inodesLock = true
  · rw [if_pos inodesLock]
    exact ended ⟨rfl, rfl, rfl⟩
  rw [if_neg inodesLock]
  by_cases leaked : (!env.addInodesLock && env.addSbLock) = true
  · rw [if_pos leaked]
    rw [Bool.and_eq_true, Bool.not_eq_true'] at leaked
    refine iff_of_false id (fun clean => ?_)
    rw [leaked.1, leaked.2] at clean
    cases clean <;> contradiction
  rw [if_neg leaked]
  by_cases saveLock : env.saveLock = true
  · rw [if_pos saveLock]
    exact ended ⟨rfl, rfl, rfl⟩
  rw [if_neg saveLock]
  cases fs.parentSlot env dir name inode with
  | none => exact ended ⟨rfl, rfl, rfl⟩
  | some slot => exact ended ⟨rfl, rfl, rfl⟩

theorem create_balanced_iff (fs : Fs) (env : CreateEnv) (dir : Nat) (name : List UInt8)
    (umode : BitVec 16) (unlocked : fs.Unlocked) :
    Balanced fs ((dadfsCreateFsObject env dir name umode).run fs) ↔
      (fs.SeeksBlock env umode → fs.LocksThrough env) := by
  have early (ret : Int × Option Inode) (turned : ¬ fs.SeeksBlock env umode) :
      Balanced fs (.ok ret fs) ↔ (fs.SeeksBlock env umode → fs.LocksThrough env) :=
    iff_of_true (.refl fs) (fun seeks => absurd seeks turned)
  rw [dadfsCreateFsObject_run]
  dsimp only
  by_cases childrenLock : env.childrenLock = true
  · rw [if_pos childrenLock]
    exact early _ fun seeks => by simp [seeks.childrenLock] at childrenLock
  rw [if_neg childrenLock, if_neg (by rw [unlocked]; decide)]
  by_cases objectsCountLock : env.objectsCountLock = true
  · rw [if_pos objectsCountLock]
    exact early _ fun seeks => by simp [seeks.objectsCountLock] at objectsCountLock
  rw [if_neg objectsCountLock, if_neg (by rw [unlocked]; decide)]
  by_cases full : fs.super.inodesCount ≥ maxFilesystemObjectsSupported
  · rw [if_pos full]
    exact early _ fun seeks => absurd seeks.room (Nat.not_lt.mpr full)
  rw [if_neg full]
  by_cases kind : (!sIsdir (umode.setWidth 32) && !sIsreg (umode.setWidth 32)) = true
  · rw [if_pos kind]
    rw [← Bool.not_or, Bool.not_eq_true'] at kind
    exact early _ fun seeks => absurd seeks.kind (by rw [kind]; decide)
  rw [if_neg kind]
  by_cases newInode : (!env.newInode) = true
  · rw [if_pos newInode]
    exact early _ fun seeks => by simp [seeks.newInode] at newInode
  rw [if_neg newInode]
  rw [Bool.not_eq_true] at childrenLock objectsCountLock
  rw [← Bool.not_or, Bool.not_eq_true, Bool.not_eq_false'] at kind
  rw [Bool.not_eq_true, Bool.not_eq_false'] at newInode
  have seeks : fs.SeeksBlock env umode :=
    ⟨childrenLock, objectsCountLock, Nat.not_le.mp full, kind, newInode⟩
  unfold Fs.LocksThrough
  by_cases freeblockLock : env.freeblockLock = true
  · rw [if_pos freeblockLock]
    refine iff_of_false (not_released_unlock (unlocked .sb)) (fun through => ?_)
    exact absurd (through seeks).1 (by rw [freeblockLock]; decide)
  rw [if_neg freeblockLock, if_neg (by rw [unlocked]; decide)]
  rw [Bool.not_eq_true] at freeblockLock
  by_cases none : firstFree fs.super.freeBlocks = maxFilesystemObjectsSupported
  · rw [if_pos none]
    exact iff_of_true (.refl fs) fun _ => ⟨freeblockLock, fun found => absurd none found⟩
  rw [if_neg none]
  let taken := fs.takeBlock (firstFree fs.super.freeBlocks)
  have same : Released fs taken := ⟨rfl, rfl, rfl⟩
  have linked := linkResult_balanced_iff taken env dir name (fs.newInode umode)
    (unlocked .inodesMgmt)
  refine (same.balanced_iff _).trans (linked.trans ?_)
  exact ⟨fun clean _ => ⟨freeblockLock, fun _ => clean⟩, fun through => (through seeks).2 none⟩

/-! Writing. -/

/-- The journal handle is never started, or the write comes to `jbd2_journal_stop`; `short`
is the variant's test for a failed copy. -/
def WriteEnv.StopsHandle (env : WriteEnv) (short : Nat → Prop) (pos length : Nat) : Prop :=
  env.start = none → (env.checks pos length).1 = 0 ∧ env.bread = true ∧
    env.getWriteAccess = 0 ∧ ¬ short (env.checks pos length).2.2 ∧ env.dirtyMetadata = 0

theorem sized_balanced (fs : Fs) (env : WriteEnv) (ino : Nat) (inode : Inode) (done : Int)
    (pos : Nat) : Balanced fs (fs.sized env ino inode done pos) := by
  unfold Fs.sized Fs.saved
  cases env.inodesLock with
  | true => exact .refl fs
  | false =>
      cases env.saveLock with
      | true => exact ⟨rfl, rfl, rfl⟩
      | false =>
          simp only [Bool.false_eq_true, ↓reduceIte]
          split <;> exact ⟨rfl, rfl, rfl⟩

theorem written_released (fs : Fs) (block pos : Nat) (data : List UInt8) :
    Released fs (fs.written block pos data) := ⟨rfl, rfl, rfl⟩

theorem not_released_startHandle {fs fs' : Fs} (step : Released fs.startHandle fs') :
    ¬ Released fs fs' := by
  intro released
  exact absurd (step.handles.symm.trans released.handles) (Nat.succ_ne_self fs.openHandles)

/-- Both variants after `jbd2_journal_start`, as a chain of early returns with an open
handle. -/
theorem write_balanced_iff {fs : Fs} {env : WriteEnv} (short : Nat → Prop) [DecidablePred short]
    {pos length : Nat} (started : env.start = none)
    (ret₁ ret₂ ret₃ ret₄ ret₅ : Int × Nat) {copied : Fs} {stopped : Result Stuck Fs (Int × Nat)}
    (copy : Released fs.startHandle copied) (stop : Balanced fs stopped) :
    Balanced fs
        (if (env.checks pos length).1 ≠ 0 then .ok ret₁ fs.startHandle
        else if env.bread = false then .ok ret₂ fs.startHandle
        else if env.getWriteAccess ≠ 0 then .ok ret₃ fs.startHandle
        else if short (env.checks pos length).2.2 then .ok ret₄ copied
        else if env.dirtyMetadata ≠ 0 then .ok ret₅ copied
        else stopped) ↔ env.StopsHandle short pos length := by
  have leak {ret : Int × Nat} {fs' : Fs} (step : Released fs.startHandle fs')
      (early : ¬ env.StopsHandle short pos length) :
      Balanced fs (.ok ret fs') ↔ env.StopsHandle short pos length :=
    iff_of_false (not_released_startHandle step) early
  by_cases checks : (env.checks pos length).1 ≠ 0
  · rw [if_pos checks]
    exact leak (.refl _) fun stops => checks (stops started).1
  rw [if_neg checks]
  by_cases bread : env.bread = false
  · rw [if_pos bread]
    exact leak (.refl _) fun stops => absurd ((stops started).2.1) (by rw [bread]; decide)
  rw [if_neg bread]
  by_cases access : env.getWriteAccess ≠ 0
  · rw [if_pos access]
    exact leak (.refl _) fun stops => access (stops started).2.2.1
  rw [if_neg access]
  by_cases failed : short (env.checks pos length).2.2
  · rw [if_pos failed]
    exact leak copy fun stops => (stops started).2.2.2.1 failed
  rw [if_neg failed]
  by_cases dirty : env.dirtyMetadata ≠ 0
  · rw [if_pos dirty]
    exact leak copy fun stops => dirty (stops started).2.2.2.2
  rw [if_neg dirty]
  rw [ne_eq, not_not] at checks access dirty
  rw [Bool.not_eq_false] at bread
  exact iff_of_true stop fun _ => ⟨checks, bread, access, failed, dirty⟩

theorem dadfsWrite_balanced_iff (env : WriteEnv) (ino : Nat) (data : List UInt8) (ppos : Nat)
    (fs : Fs) (unlocked : fs.Unlocked) :
    Balanced fs ((dadfsWrite env ino data ppos).run fs) ↔
      env.StopsHandle (fun len => env.transfer len < len) ppos data.length := by
  rw [dadfsWrite_run env ino data ppos fs (unlocked _) (unlocked _)]
  cases started : env.start with
  | some err => exact iff_of_true (.refl fs) fun none => by rw [started] at none; cases none
  | none =>
      refine write_balanced_iff (fun len => env.transfer len < len) started _ _ _ _ _
        ⟨rfl, rfl, rfl⟩ ?_
      by_cases stop : env.stop ≠ 0
      · rw [if_pos stop]
        exact ⟨rfl, rfl, rfl⟩
      · rw [if_neg stop]
        exact ((written_released fs _ _ _).balanced_iff _).mpr (sized_balanced _ env ino _ _ _)

theorem dadfsWriteIter_balanced_iff (env : WriteEnv) (ino : Nat) (data : List UInt8) (kiPos : Nat)
    (fs : Fs) (unlocked : fs.Unlocked) :
    Balanced fs ((dadfsWriteIter env ino data kiPos).run fs) ↔
      env.StopsHandle (fun count => env.transfer count = 0) kiPos data.length := by
  rw [dadfsWriteIter_run env ino data kiPos fs (unlocked _) (unlocked _)]
  cases started : env.start with
  | some err => exact iff_of_true (.refl fs) fun none => by rw [started] at none; cases none
  | none =>
      refine write_balanced_iff (fun count => env.transfer count = 0) started _ _ _ _ _
        ⟨rfl, rfl, rfl⟩ ?_
      by_cases stop : env.stop ≠ 0
      · rw [if_pos stop]
        exact ⟨rfl, rfl, rfl⟩
      · rw [if_neg stop]
        exact ((written_released fs _ _ _).balanced_iff _).mpr (sized_balanced _ env ino _ _ _)

inductive Request where
  | create (call : Call)
  | write (env : WriteEnv) (ino : Nat) (data : List UInt8) (ppos : Nat)
  | writeIter (env : WriteEnv) (ino : Nat) (data : List UInt8) (kiPos : Nat)

def Vfs.request (vfs : Vfs) : Request → Vfs
  | .create call => vfs.call call
  | .write env ino data ppos =>
      { vfs with fs := finalState ((dadfsWrite env ino data ppos).run vfs.fs) }
  | .writeIter env ino data kiPos =>
      { vfs with fs := finalState ((dadfsWriteIter env ino data kiPos).run vfs.fs) }

/-- The request returns with the locks and handles it was entered with. -/
def Vfs.KeepsBalance (vfs : Vfs) : Request → Prop
  | .create call => Balanced vfs.fs (call.exec.run vfs.fs)
  | .write env ino data ppos => Balanced vfs.fs ((dadfsWrite env ino data ppos).run vfs.fs)
  | .writeIter env ino data kiPos =>
      Balanced vfs.fs ((dadfsWriteIter env ino data kiPos).run vfs.fs)

/-- The failures inside the request miss the early returns that forget a mutex or the
handle. -/
def Vfs.AvoidsLeaks (vfs : Vfs) : Request → Prop
  | .create call => vfs.fs.SeeksBlock call.env call.mode → vfs.fs.LocksThrough call.env
  | .write env _ data ppos =>
      env.StopsHandle (fun len => env.transfer len < len) ppos data.length
  | .writeIter env _ data kiPos =>
      env.StopsHandle (fun count => env.transfer count = 0) kiPos data.length

theorem keepsBalance_iff (vfs : Vfs) (request : Request) (unlocked : vfs.fs.Unlocked) :
    vfs.KeepsBalance request ↔ vfs.AvoidsLeaks request := by
  cases request with
  | create call =>
      change Balanced vfs.fs (call.exec.run vfs.fs) ↔ _
      rw [call.exec_eq]
      exact create_balanced_iff vfs.fs call.env call.dir call.name call.mode unlocked
  | write env ino data ppos => exact dadfsWrite_balanced_iff env ino data ppos vfs.fs unlocked
  | writeIter env ino data kiPos =>
      exact dadfsWriteIter_balanced_iff env ino data kiPos vfs.fs unlocked

theorem Balanced.final_unlocked {α : Type} {fs : Fs} {result : Result Stuck Fs α}
    (balanced : Balanced fs result) (unlocked : fs.Unlocked) : (finalState result).Unlocked := by
  cases result with
  | ok value fs' =>
      intro mutex
      rw [show (finalState (.ok value fs')).held = fs.held from balanced.held]
      exact unlocked mutex
  | error stuck fs' => exact absurd balanced id

theorem keepsBalance_unlocked (vfs : Vfs) (request : Request) (unlocked : vfs.fs.Unlocked)
    (kept : vfs.KeepsBalance request) : (vfs.request request).fs.Unlocked := by
  cases request with
  | create call =>
      intro mutex
      change (vfs.call call).fs.held mutex = false
      rw [call_held]
      exact Balanced.final_unlocked kept unlocked mutex
  | write env ino data ppos => exact Balanced.final_unlocked kept unlocked
  | writeIter env ino data kiPos => exact Balanced.final_unlocked kept unlocked

/-- From a fresh mount, over any sequence of creations and writes: every call gives back its
mutexes and stops its handle exactly when every call avoids the leaking returns. -/
theorem requests_balanced_iff (disk : Disk) (root : Inode) (requests : List Request) :
    EveryStep Vfs.request Vfs.KeepsBalance (mounted disk root) requests ↔
      EveryStep Vfs.request Vfs.AvoidsLeaks (mounted disk root) requests :=
  everyStep_congr (fun vfs => vfs.fs.Unlocked) keepsBalance_iff keepsBalance_unlocked
    (fun _ => rfl)

/-- A signal during the wait in `dadfs_sb_get_a_freeblock`: the creation releases a mutex
that it does not hold. -/
theorem create_unlocks_unheld :
    ¬ EveryStep Vfs.request Vfs.KeepsBalance (mounted (mkfs mkfsFreeBlocks zeroDevice) rootInode)
      [.create { env := { freeblockLock := true }, dir := rootdirInodeNumber, name := [97]
                 umode := 0o100644, mkdir := false }] := by
  intro balanced
  exact absurd balanced.1.unlocks (by decide)

end Ve482.Dadfs
