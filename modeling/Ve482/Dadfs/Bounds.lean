import Ve482.Dadfs.InodeStore
import Ve482.Lib.Runs

set_option autoImplicit false

namespace Ve482.Dadfs

open EStateM (Result)
open Runs (EveryStep everyStep_append everyStep_congr)

/-- From one state to a later one, every operation appended to the log is good. -/
def Wrote (good : BufOp → Prop) (fs fs' : Fs) : Prop :=
  ∃ ops, fs'.log = fs.log ++ ops ∧ ∀ op ∈ ops, good op

theorem Wrote.of_log {good : BufOp → Prop} {fs fs' : Fs} (same : fs'.log = fs.log) :
    Wrote good fs fs' := by
  refine ⟨[], ?_, ?_⟩
  · rw [same, List.append_nil]
  · intro op member
    cases member

theorem Wrote.trans {good : BufOp → Prop} {first second third : Fs}
    (left : Wrote good first second) (right : Wrote good second third) :
    Wrote good first third := by
  obtain ⟨ops, leftLog, leftGood⟩ := left
  obtain ⟨more, rightLog, rightGood⟩ := right
  refine ⟨ops ++ more, ?_, ?_⟩
  · rw [rightLog, leftLog, List.append_assoc]
  · intro op member
    rcases List.mem_append.mp member with before | after
    · exact leftGood op before
    · exact rightGood op after

/-- A stretch in the middle of a good stretch is good. -/
theorem Wrote.middle {good : BufOp → Prop} {any any' : BufOp → Prop} {first second third last : Fs}
    {ops : List BufOp} (whole : Wrote good first last) (left : Wrote any first second)
    (log : third.log = second.log ++ ops) (right : Wrote any' third last) :
    ∀ op ∈ ops, good op := by
  obtain ⟨all, wholeLog, allGood⟩ := whole
  obtain ⟨before, leftLog, -⟩ := left
  obtain ⟨after, rightLog, -⟩ := right
  have same : all = before ++ ops ++ after := by
    refine @List.append_cancel_left _ first.log _ _ ?_
    rw [← wholeLog, rightLog, log, leftLog, List.append_assoc, List.append_assoc, List.append_assoc]
  intro op member
  apply allGood
  rw [same]
  exact List.mem_append_left _ (List.mem_append_right _ member)

/-- A write that stays inside its block. -/
def Inside : BufOp → Prop
  | .write _ offset length _ => offset + length ≤ defaultBlockSize
  | .markDirty _ => True
  | .sync _ => True

theorem takeBlock_inside (fs : Fs) (block : Nat) : Wrote Inside fs (fs.takeBlock block) := by
  refine ⟨fs.takeOps block, takeBlock_log fs block, ?_⟩
  simp only [Fs.takeOps, writeSuper, List.forall_mem_cons, Inside]
  simp

theorem writeInode_inside (bufs : Disk) {slot : Nat} (inode : Inode)
    (small : slot ≤ maxFilesystemObjectsSupported) : Inside (writeInode bufs slot inode) := by
  have bound : slot ≤ 64 := small
  change slot * 32 + 32 ≤ 4096
  omega

theorem afterAdd_inside (fs : Fs) (env : CreateEnv) (inode : Inode)
    (small : fs.super.inodesCount ≤ maxFilesystemObjectsSupported) :
    Wrote Inside fs (fs.afterAdd env inode) := by
  unfold Fs.afterAdd
  cases env.addInodesLock with
  | true => exact .of_log rfl
  | false =>
      cases env.addSbLock with
      | true => exact .of_log rfl
      | false =>
          refine ⟨fs.addOps inode, appendInode_log fs inode, ?_⟩
          simp only [Fs.addOps, List.forall_mem_cons]
          exact ⟨writeInode_inside fs.bufs inode small, Nat.le_refl _, trivial, trivial, trivial,
            by simp⟩

theorem recordOps_inside_iff (fs : Fs) (parent : Inode) (record : DirRecord) :
    (∀ op ∈ fs.recordOps parent record, Inside op) ↔ parent.HasRoom := by
  have bytes : parent.dirChildrenCount * dirRecordBytes + dirRecordBytes =
      (parent.dirChildrenCount + 1) * dirRecordBytes := (Nat.succ_mul _ _).symm
  simp only [Fs.recordOps, List.forall_mem_cons, writeRecord, Inside, Inode.HasRoom, bytes]
  simp

theorem saveSlot_inside (fs : Fs) {slot : Nat} (inode : Inode)
    (small : slot ≤ maxFilesystemObjectsSupported) : Wrote Inside fs (fs.saveSlot slot inode) := by
  refine ⟨fs.saveOps slot inode, saveSlot_log fs slot inode, ?_⟩
  simp only [Fs.saveOps, List.forall_mem_cons]
  exact ⟨writeInode_inside fs.bufs inode small, trivial, trivial, by simp⟩

theorem afterAdd_count_le (fs : Fs) (env : CreateEnv) (inode : Inode) :
    (fs.afterAdd env inode).super.inodesCount ≤ fs.super.inodesCount + 1 := by
  unfold Fs.afterAdd
  cases env.addInodesLock <;> cases env.addSbLock <;> simp [Fs.hold]

/-- `dadfs_inode_save` looks one slot past the counted ones, and no further. -/
theorem parentSlot_le {fs : Fs} {env : CreateEnv} {dir slot : Nat} {name : List UInt8}
    {inode : Inode} (home : fs.parentSlot env dir name inode = some slot) :
    slot ≤ fs.super.inodesCount + 1 := by
  have searched := (inodeSearch_some home).1
  have counted := afterAdd_count_le fs env inode
  rw [Fs.counted, setMem_super, Fs.linked, appendRecord_super] at searched
  omega

/-- After the record is in the parent's block, only the parent's slot may still be written. -/
theorem linkResult_inside (fs : Fs) (env : CreateEnv) (dir : Nat) (name : List UInt8)
    (inode : Inode) (small : fs.super.inodesCount < maxFilesystemObjectsSupported) :
    Wrote Inside (fs.linked env dir name inode)
      (finalState (fs.linkResult env dir name inode)) := by
  unfold Fs.linkResult
  by_cases inodesLock : env.inodesLock = true
  · rw [if_pos inodesLock]
    exact .of_log rfl
  rw [if_neg inodesLock]
  by_cases leaked : (!env.addInodesLock && env.addSbLock) = true
  · rw [if_pos leaked]
    exact .of_log rfl
  rw [if_neg leaked]
  by_cases saveLock : env.saveLock = true
  · rw [if_pos saveLock]
    exact .of_log rfl
  rw [if_neg saveLock]
  cases home : fs.parentSlot env dir name inode with
  | none => exact .of_log rfl
  | some slot =>
      have bound := parentSlot_le home
      have counted : Wrote Inside (fs.linked env dir name inode)
        (fs.counted env dir name inode) := .of_log rfl
      exact counted.trans (saveSlot_inside _ _ (by omega))

theorem create_inside_iff {fs : Fs} {env : CreateEnv} {umode : BitVec 16} (dir : Nat)
    (name : List UInt8) (admits : fs.Admits env umode) :
    Wrote Inside fs (finalState ((dadfsCreateFsObject env dir name umode).run fs)) ↔
      (fs.mem dir).HasRoom := by
  rw [create_admitted dir name admits]
  let taken := fs.takeBlock (firstFree fs.super.freeBlocks)
  have small : taken.super.inodesCount < maxFilesystemObjectsSupported := admits.room
  have added : Wrote Inside fs (taken.afterAdd env (fs.newInode umode)) :=
    (takeBlock_inside fs _).trans (afterAdd_inside taken env _ (Nat.le_of_lt small))
  have record := appendRecord_log (taken.afterAdd env (fs.newInode umode)) (taken.mem dir)
    (newRecord name (fs.newInode umode))
  have rest := linkResult_inside taken env dir name (fs.newInode umode) small
  constructor
  · intro whole
    exact (recordOps_inside_iff _ _ _).mp (whole.middle added record rest)
  · intro room
    have middle : Wrote Inside (taken.afterAdd env (fs.newInode umode))
        (taken.linked env dir name (fs.newInode umode)) :=
      ⟨_, record, (recordOps_inside_iff _ _ _).mpr room⟩
    exact added.trans (middle.trans rest)

/-- A negative result. A creation that never returns has not succeeded either. -/
def Fails : Result Stuck Fs (Int × Option Inode) → Prop
  | .ok (ret, _) _ => ret < 0
  | .error _ _ => True

/-- Everything the call writes lies inside its block, and without room for the record it
fails and writes nothing. -/
structure Vfs.InBounds (vfs : Vfs) (call : Call) : Prop where
  inside : Wrote Inside vfs.fs (finalState (call.exec.run vfs.fs))
  full : ¬ (vfs.fs.mem call.dir).HasRoom →
    Fails (call.exec.run vfs.fs) ∧ (finalState (call.exec.run vfs.fs)).log = vfs.fs.log

theorem Refused.inBounds {fs : Fs} {result : Result Stuck Fs (Int × Option Inode)}
    (refused : Refused fs result) :
    Wrote Inside fs (finalState result) ∧ Fails result ∧ (finalState result).log = fs.log := by
  refine ⟨.of_log refused.sameFiles.log, ?_, refused.sameFiles.log⟩
  cases refused with
  | failed negative same => exact negative
  | stuck same => trivial

theorem inBounds_iff (vfs : Vfs) (call : Call) :
    vfs.InBounds call ↔
      (vfs.fs.Admits call.env call.mode → (vfs.fs.mem call.dir).HasRoom) := by
  by_cases admits : vfs.fs.Admits call.env call.mode
  · have bounds := create_inside_iff call.dir call.name admits
    rw [← call.exec_eq] at bounds
    exact ⟨fun held _ => bounds.mp held.inside,
      fun room => ⟨bounds.mpr (room admits), fun full => absurd (room admits) full⟩⟩
  · have refused := create_refused call.dir call.name admits
    rw [← call.exec_eq] at refused
    exact iff_of_true ⟨refused.inBounds.1, fun _ => refused.inBounds.2⟩
      fun admitted => absurd admitted admits

/-- Over any run from the image of mkfs: every write lies inside its block exactly when no
creation gets past the checks in a directory whose block is full. -/
theorem runs_inBounds_iff (dev : Device) (calls : List Call) :
    EveryStep Vfs.call Vfs.InBounds (mounted (mkfs mkfsFreeBlocks dev) rootInode) calls ↔
      EveryStep Vfs.call
        (fun vfs call => vfs.fs.Admits call.env call.mode → (vfs.fs.mem call.dir).HasRoom)
        (mounted (mkfs mkfsFreeBlocks dev) rootInode) calls :=
  everyStep_congr (fun _ => True) (fun vfs call _ => inBounds_iff vfs call)
    (fun _ _ _ _ => trivial) trivial

def fourteenFiles : List Call :=
  [97, 98, 99, 100, 101, 102, 103, 104, 105, 106, 107, 108, 109, 110].map createFile

/-- With the welcome file, the fifteenth creation in the root directory is its sixteenth record. -/
theorem sixteenth_record_leaves_block :
    EveryStep Vfs.call Vfs.Permits (mounted (mkfs mkfsFreeBlocks zeroDevice) rootInode)
        (fourteenFiles ++ [createFile 111]) ∧
      ¬ EveryStep Vfs.call Vfs.InBounds (mounted (mkfs mkfsFreeBlocks zeroDevice) rootInode)
        (fourteenFiles ++ [createFile 111]) := by
  refine ⟨by decide +kernel, fun inBounds => ?_⟩
  have last := (inBounds_iff _ _).mp (everyStep_append.mp inBounds).2.1 (by decide +kernel)
  exact absurd last (by unfold Inode.HasRoom; decide +kernel)

end Ve482.Dadfs
