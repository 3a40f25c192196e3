import Ve482.Dadfs.ByteRefine

set_option autoImplicit false

namespace Ve482.Dadfs.Raw

open EStateM (Result)
open Function (update)

/-- The two sides agree, with these inodes in memory and so many in the store. -/
structure Stage (view : View) (mem : Nat → Inode) (count : Nat) (raw : Fs) (fs : Dadfs.Fs) :
    Prop where
  agrees : Agrees view raw fs
  mem : fs.mem = mem
  count : fs.super.inodesCount = count

section Stages

variable {view : View} {mem : Nat → Inode} {count : Nat} {raw : Fs} {fs : Dadfs.Fs}

theorem Stage.hold (stage : Stage view mem count raw fs) (mutex : Mutex) :
    Stage view mem count (raw.hold mutex) (fs.hold mutex) :=
  ⟨stage.agrees.hold mutex, stage.mem, stage.count⟩

theorem Stage.unlock (stage : Stage view mem count raw fs) (mutex : Mutex) :
    Stage view mem count (raw.unlock mutex) (fs.unlock mutex) := by
  refine ⟨stage.agrees.unlock mutex, ?_, ?_⟩
  all_goals unfold Dadfs.Fs.unlock; split
  exacts [stage.mem, stage.mem, stage.count, stage.count]

/-- The history of the typed side is no part of it. -/
theorem Stage.beside (stage : Stage view mem count raw fs) {other : Dadfs.Fs}
    (bufs : other.bufs = fs.bufs) (same : other.mem = fs.mem) (held : other.held = fs.held) :
    Stage view mem count raw other := by
  obtain ⟨agrees, mem, count⟩ := stage
  cases other
  subst bufs same held
  exact ⟨⟨agrees.super, agrees.store, agrees.records, agrees.bytes, agrees.mem, agrees.held⟩, mem,
    count⟩

end Stages

theorem mutexLockInterruptible_run (mutex : Mutex) (interrupted : Bool) (raw : Fs) :
    (mutexLockInterruptible mutex interrupted).run raw =
      if interrupted then .ok true raw
      else if raw.held mutex then .error .hang raw else .ok false (raw.hold mutex) := by
  unfold mutexLockInterruptible
  cases interrupted with
  | true => rfl
  | false =>
      simp only [Bool.false_eq_true, ↓reduceIte, EStateM.run_bind, EStateM.run_get]
      cases locked : raw.held mutex <;> rfl

section Locksteps

variable (view : View) (mem : Nat → Inode) (count : Nat)

theorem lock_lockstep (mutex : Mutex) (interrupted : Bool) :
    Lockstep (Stage view mem count) (mutexLockInterruptible mutex interrupted)
      (Dadfs.mutexLockInterruptible mutex interrupted) (SameValue (Stage view mem count)) := by
  intro raw fs stage
  rw [mutexLockInterruptible_run, Dadfs.mutexLockInterruptible_run, stage.agrees.held]
  cases interrupted with
  | true => exact .returned ⟨rfl, stage⟩
  | false =>
      cases fs.held mutex with
      | true => exact .failed
      | false => exact .returned ⟨rfl, stage.hold mutex⟩

theorem unlock_lockstep (mutex : Mutex) :
    Lockstep (Stage view mem count) (mutexUnlock mutex) (Dadfs.mutexUnlock mutex)
      (SameValue (Stage view mem count)) :=
  .writes fun _ _ stage => ⟨rfl, stage.unlock mutex⟩

/-- Both release a mutex and return. -/
theorem unlock_return {α : Type} (mutex : Mutex) (a : α) :
    Lockstep (Stage view mem count) (do mutexUnlock mutex; return a)
      (do Dadfs.mutexUnlock mutex; return a) (SameValue (Stage view mem count)) :=
  (unlock_lockstep view mem count mutex).bind_same fun _ => .returns fun _ _ stage => ⟨rfl, stage⟩

theorem getObjectsCount_lockstep (interrupted : Bool) :
    Lockstep (Stage view mem count) (dadfsSbGetObjectsCount interrupted)
      (Dadfs.dadfsSbGetObjectsCount interrupted)
      fun a b raw fs => SameValue (Stage view mem count) a b raw fs ∧ ∀ c, b = .ok c → c = count := by
  refine (lock_lockstep view mem count .inodesMgmt interrupted).bind_same fun failed => ?_
  cases failed with
  | true => exact .returns fun _ _ stage => ⟨⟨rfl, stage⟩, fun _ never => by cases never⟩
  | false =>
      refine .reads fun raw fs stage => ?_
      refine .bind_same (.pre_imp (unlock_lockstep view mem count .inodesMgmt) ?_) fun _ =>
        .returns fun _ _ after => ⟨⟨?_, after⟩, ?_⟩
      · rintro _ _ ⟨rfl, rfl⟩
        exact stage
      · rw [stage.agrees.super]
      · rintro _ ⟨⟩
        exact stage.count

theorem firstFree_le (freeBlocks : BitVec 64) : firstFree freeBlocks ≤ 64 := by
  by_cases full : firstFree freeBlocks = 64
  · exact Nat.le_of_eq full
  · exact Nat.le_of_lt (firstFree_spec freeBlocks full).2.1

theorem getAFreeblock_lockstep (interrupted : Bool) :
    Lockstep (Stage view mem count) (dadfsSbGetAFreeblock interrupted)
      (Dadfs.dadfsSbGetAFreeblock interrupted)
      fun a b raw fs => SameValue (Stage view mem count) a b raw fs ∧ ∀ i, b = .ok i → i ≤ 64 := by
  refine (lock_lockstep view mem count .sb interrupted).bind_same fun failed => ?_
  cases failed with
  | true =>
      exact (unlock_lockstep view mem count .sb).bind_same fun _ =>
        .returns fun _ _ stage => ⟨⟨rfl, stage⟩, fun _ never => by cases never⟩
  | false =>
      refine .reads fun raw fs stage => ?_
      rw [stage.agrees.super]
      generalize chosen : firstFree fs.super.freeBlocks = i
      have low : i ≤ 64 := chosen ▸ firstFree_le _
      dsimp only
      split
      · refine .bind_same (.pre_imp (unlock_lockstep view mem count .sb) ?_) fun _ =>
          .returns fun _ _ after => ⟨⟨rfl, after⟩, fun _ never => by cases never⟩
        rintro _ _ ⟨rfl, rfl⟩
        exact stage
      · -- the typed side also writes down the block, and syncs
        rintro raw fs ⟨rfl, rfl⟩
        let taken := fs.super.freeBlocks &&& ~~~shiftMask i
        have after : Stage view mem count (raw.setFreeBlocks taken) (fs.takeBlock i) := by
          refine ⟨?_, stage.mem, stage.count⟩
          have written := stage.agrees.setFreeBlocks taken
          exact ⟨written.super, written.store, written.records, written.bytes, written.mem,
            written.held⟩
        have read : raw.super.freeBlocks &&& ~~~shiftMask i = taken := by rw [stage.agrees.super]
        change SameEnd _ (Result.ok (Except.ok i)
            ((raw.setFreeBlocks (raw.super.freeBlocks &&& ~~~shiftMask i)).unlock .sb))
          (Result.ok (Except.ok i) ((fs.takeBlock i).unlock .sb))
        rw [read]
        refine .returned ⟨⟨rfl, after.unlock .sb⟩, ?_⟩
        rintro _ ⟨⟩
        exact low

/-- Under an inode that the code can store, the store of the super block's count cannot wrap. -/
theorem inodeAdd_lockstep (inodesInterrupted sbInterrupted : Bool) (padding : Nat) {inode : Inode}
    (fits : inode.Fits) (small : count + 1 < 256 ^ wordBytes) :
    Lockstep (Stage view mem count) (dadfsInodeAdd inodesInterrupted sbInterrupted padding inode)
      (Dadfs.dadfsInodeAdd inodesInterrupted sbInterrupted inode)
      (SameValue fun raw fs => ∃ c, Stage view mem c raw fs) := by
  refine (lock_lockstep view mem count .inodesMgmt inodesInterrupted).bind_same fun failed => ?_
  cases failed with
  | true => exact .returns fun _ _ stage => ⟨rfl, count, stage⟩
  | false =>
  refine (lock_lockstep view mem count .sb sbInterrupted).bind_same fun failed => ?_
  cases failed with
  | true => exact .returns fun _ _ stage => ⟨rfl, count, stage⟩
  | false =>
  intro raw fs stage
  let slotted := raw.putInode fs.super.inodesCount padding inode
  have same : raw.super.inodesCount = fs.super.inodesCount :=
    congrArg SuperBlock.inodesCount stage.agrees.super
  have put : Agrees view slotted (fs.emit (writeInode fs.bufs fs.super.inodesCount inode)) :=
    stage.agrees.putInode fs.super.inodesCount padding fits
  have next : slotted.super.inodesCount = fs.super.inodesCount :=
    congrArg SuperBlock.inodesCount put.super
  have within : fs.super.inodesCount + 1 < 256 ^ wordBytes := stage.count.symm ▸ small
  have written := put.setInodesCount within
  have counted : Stage view mem (count + 1) (slotted.setInodesCount (fs.super.inodesCount + 1))
      (fs.appendInode inode) :=
    ⟨⟨written.super, written.store, written.records, written.bytes, written.mem, written.held⟩,
      stage.mem, congrArg (· + 1) stage.count⟩
  have released := (counted.unlock .sb).unlock .inodesMgmt
  rw [← next] at released
  dsimp only [slotted] at released
  rw [← same] at released
  exact .returned ⟨rfl, count + 1, released⟩

theorem inodeSave_lockstep (interrupted : Bool) (padding : Nat) {inode : Inode}
    (fits : inode.Fits) :
    Lockstep (Stage view mem count) (dadfsInodeSave interrupted padding inode)
      (Dadfs.dadfsInodeSave interrupted inode) (SameValue (Stage view mem count)) := by
  refine (lock_lockstep view mem count .sb interrupted).bind_same fun failed => ?_
  cases failed with
  | true => exact .returns fun _ _ stage => ⟨rfl, stage⟩
  | false =>
      refine .reads fun raw fs stage => ?_
      rw [stage.agrees.store, stage.agrees.super]
      cases dadfsInodeSearch fs.store inode.inodeNo fs.super.inodesCount 0 with
      | none =>
          refine .pre_imp (unlock_return view mem count .sb (-eio)) ?_
          rintro _ _ ⟨rfl, rfl⟩
          exact stage
      | some slot =>
          rintro raw fs ⟨rfl, rfl⟩
          have saved := stage.agrees.putInode slot padding fits
          have after : Stage view mem count (raw.putInode slot padding inode)
              (fs.saveSlot slot inode) :=
            ⟨⟨saved.super, saved.store, saved.records, saved.bytes, saved.mem, saved.held⟩,
              stage.mem, stage.count⟩
          exact .returned ⟨rfl, after.unlock .sb⟩

/-- The last release before a return. -/
theorem unlock_done {α : Type} (mutex : Mutex) (a : α) :
    Lockstep (Stage view mem count) (do mutexUnlock mutex; return a)
      (do Dadfs.mutexUnlock mutex; return a) (SameValue (Agrees view)) :=
  (unlock_return view mem count mutex a).post_imp fun _ _ _ _ same => ⟨same.1, same.2.agrees⟩

theorem countChild_lockstep (env : CreateEnv) (padding : CreatePadding) (dir : Nat)
    (sfsInode : Inode) (fits : (mem dir).addChild.Fits) :
    Lockstep (Stage view mem count) (countChild env padding dir sfsInode)
      (Dadfs.countChild env dir sfsInode) (SameValue (Agrees view)) := by
  refine (lock_lockstep view mem count .inodesMgmt env.inodesLock).bind_same fun failed => ?_
  cases failed with
  | true => exact unlock_done view mem count .directoryChildrenUpdate (-eintr, none)
  | false =>
      refine .reads fun raw fs stage => ?_
      rw [stage.agrees.mem, stage.mem]
      let inodes := update mem dir (mem dir).addChild
      have set : Lockstep (ε := Stuck) (fun s t => s = raw ∧ t = fs)
          (modify (·.setMem dir (mem dir).addChild)) (modify (·.setMem dir (mem dir).addChild))
          (SameValue (Stage view inodes count)) := by
        refine .writes fun _ _ here => ⟨rfl, ?_⟩
        obtain ⟨rfl, rfl⟩ := here
        refine ⟨stage.agrees.setMem dir (mem dir).addChild, ?_, stage.count⟩
        exact congrArg (fun mem : Nat → Inode => update mem dir _) stage.mem
      refine set.bind_same fun _ => ?_
      refine (inodeSave_lockstep view inodes count env.saveLock padding.parent fits).bind_same
        fun ret => ?_
      by_cases failed : ret ≠ 0
      · rw [if_pos failed, if_pos failed]
        exact (unlock_lockstep view inodes count .inodesMgmt).bind_same fun _ =>
          unlock_done view inodes count .directoryChildrenUpdate (ret, none)
      · rw [if_neg failed, if_neg failed]
        exact (unlock_lockstep view inodes count .inodesMgmt).bind_same fun _ =>
          unlock_done view inodes count .directoryChildrenUpdate (0, some sfsInode)

theorem createLink_lockstep (env : CreateEnv) (padding : CreatePadding) (dir : Nat)
    {name : List UInt8} {sfsInode : Inode} (data : 2 ≤ (mem dir).dataBlockNumber)
    (small : count + 1 < 256 ^ wordBytes) (fits : sfsInode.Fits)
    (parentFits : (mem dir).addChild.Fits) (record : (newRecord name sfsInode).Fits) :
    Lockstep (Stage view mem count) (createLink env padding dir name sfsInode)
      (Dadfs.createLink env dir name sfsInode)
      (SameValue (Agrees (view.withRecords (mem dir).dataBlockNumber))) := by
  refine (inodeAdd_lockstep view mem count env.addInodesLock env.addSbLock padding.inode fits
    small).bind_same fun _ => ?_
  refine .exists_pre fun c => .reads fun raw fs stage => ?_
  rw [stage.agrees.mem, stage.mem]
  have put := stage.agrees.putRecord data (mem dir).dirChildrenCount record
  have linked : Stage (view.withRecords (mem dir).dataBlockNumber) mem c
      (raw.putRecord (mem dir).dataBlockNumber (mem dir).dirChildrenCount (newRecord name sfsInode))
      (fs.appendRecord (mem dir) (newRecord name sfsInode)) :=
    ⟨⟨put.super, put.store, put.records, put.bytes, put.mem, put.held⟩, stage.mem,
      (congrArg SuperBlock.inodesCount (appendRecord_super fs _ _)).trans stage.count⟩
  rintro raw fs ⟨rfl, rfl⟩
  exact countChild_lockstep _ mem c env padding dir sfsInode parentFits _ _ linked

end Locksteps

/-- The limits of the C types for a creation in a directory with room. -/
structure Writable (parent : Inode) (name : List UInt8) : Prop where
  data : 2 ≤ parent.dataBlockNumber
  fits : parent.addChild.Fits
  short : name.length ≤ filenameMaxlen
  terminated : 0 ∉ name

/-- A creation over the bytes keeps step with the creation over the views, however it ends. -/
theorem create_lockstep (view : View) (mem : Nat → Inode) (count : Nat) (env : CreateEnv)
    (padding : CreatePadding) (dir : Nat) (name : List UInt8) (umode : BitVec 16)
    (writable : Writable (mem dir) name) :
    Lockstep (Stage view mem count) (dadfsCreateFsObject env padding dir name umode)
      (Dadfs.dadfsCreateFsObject env dir name umode)
      (SameValue (Agrees (view.withRecords (mem dir).dataBlockNumber))) := by
  have done {α : Type} (a : α) : Lockstep (Stage view mem count)
      (do mutexUnlock .directoryChildrenUpdate; return a)
      (do Dadfs.mutexUnlock .directoryChildrenUpdate; return a)
      (SameValue (Agrees (view.withRecords (mem dir).dataBlockNumber))) :=
    (unlock_done view mem count .directoryChildrenUpdate a).post_imp fun _ _ _ _ same =>
      ⟨same.1, same.2.view_imp (fun _ => id) fun _ seen => seen.1⟩
  refine (lock_lockstep view mem count .directoryChildrenUpdate env.childrenLock).bind_same
    fun failed => ?_
  cases failed with
  | true =>
      exact .returns fun _ _ stage =>
        ⟨rfl, stage.agrees.view_imp (fun _ => id) fun _ seen => seen.1⟩
  | false =>
  refine (getObjectsCount_lockstep view mem count env.objectsCountLock).bind fun a b raw fs before => ?_
  obtain ⟨⟨rfl, stage⟩, counted⟩ := before
  cases a with
  | error ret => exact done (ret, none) raw fs stage
  | ok found =>
  obtain rfl := counted found rfl
  dsimp only
  by_cases full : found ≥ maxFilesystemObjectsSupported
  · rw [if_pos full, if_pos full]
    exact done (-enospc, none) raw fs stage
  rw [if_neg full, if_neg full]
  by_cases kind : (!sIsdir (umode.setWidth 32) && !sIsreg (umode.setWidth 32)) = true
  · rw [if_pos kind, if_pos kind]
    exact done (-einval, none) raw fs stage
  rw [if_neg kind, if_neg kind]
  by_cases memory : (!env.newInode) = true
  · rw [if_pos memory, if_pos memory]
    exact done (-enomem, none) raw fs stage
  rw [if_neg memory, if_neg memory]
  refine (getAFreeblock_lockstep view mem found env.freeblockLock).bind
    (fun a b raw fs before => ?_) raw fs stage
  obtain ⟨⟨rfl, stage⟩, low⟩ := before
  cases a with
  | error ret => exact done (ret, none) raw fs stage
  | ok block =>
  have small : found < 64 := Nat.not_le.mp full
  have number : found + 8 < 256 ^ wordBytes := Nat.lt_trans (Nat.add_lt_add_right small 8) (by decide)
  have fits : Inode.Fits { mode := umode.setWidth 32, inodeNo := found + startIno - reservedInodes + 1
                           dataBlockNumber := block, size := 0 } := by
    refine ⟨?_, Nat.lt_of_le_of_lt (low block rfl) (by decide), Nat.pow_pos (by decide)⟩
    have same : found + 10 - 3 + 1 = found + 8 := by omega
    exact same ▸ number
  exact createLink_lockstep view mem found env padding dir writable.data
    (Nat.lt_of_le_of_lt (Nat.add_le_add_left (by decide) found) number) fits writable.fits
    ⟨writable.short, writable.terminated, fits.inodeNo⟩ raw fs stage

/-- A write over the bytes keeps step with the write over the views. -/
theorem write_lockstep (view : View) (mem : Nat → Inode) (count : Nat) (env : WriteEnv)
    (padding ino : Nat) (data : List UInt8) (ppos : Nat) (block : 2 ≤ (mem ino).dataBlockNumber)
    (fits : ∀ pos len, env.checks ppos data.length = (0, pos, len) →
      Inode.Fits { mem ino with size := pos + len }) :
    Lockstep (Stage view mem count) (dadfsWrite env padding ino data ppos)
      (Dadfs.dadfsWrite env ino data ppos)
      (SameValue (Agrees (view.withBytes (mem ino).dataBlockNumber))) := by
  have done (a : Int × Nat) (raw : Fs) (fs : Dadfs.Fs) (agrees : Agrees view raw fs) :
      SameValue (Agrees (view.withBytes (mem ino).dataBlockNumber)) a a raw fs :=
    ⟨rfl, agrees.view_imp (fun _ seen => seen.1) fun _ => id⟩
  unfold dadfsWrite Dadfs.dadfsWrite
  rcases checks : env.checks ppos data.length with ⟨retval, pos, len⟩
  cases env.start with
  | some err => exact .returns fun raw fs stage => done (err, ppos) raw fs stage.agrees
  | none =>
  dsimp only
  refine .writes_right (Stage view mem count) (fun raw fs stage => stage.beside rfl rfl rfl) ?_
  by_cases checked : retval ≠ 0
  · rw [if_pos checked, if_pos checked]
    exact .returns fun raw fs stage => done (retval, pos) raw fs stage.agrees
  rw [if_neg checked, if_neg checked]
  have sized := fits pos len (by rw [checks, not_not.mp checked])
  refine .reads fun raw fs stage => ?_
  rw [stage.agrees.mem, stage.mem]
  have quit (a : Int × Nat) : Lockstep (ε := Stuck) (fun s t => s = raw ∧ t = fs) (return a) (return a)
      (SameValue (Agrees (view.withBytes (mem ino).dataBlockNumber))) :=
    .returns fun _ _ here => here.1 ▸ here.2 ▸ done a raw fs stage.agrees
  by_cases unread : (!env.bread) = true
  · rw [if_pos unread, if_pos unread]
    exact quit (0, pos)
  rw [if_neg unread, if_neg unread]
  by_cases access : env.getWriteAccess ≠ 0
  · rw [if_pos access, if_pos access]
    exact quit (env.getWriteAccess, pos)
  rw [if_neg access, if_neg access]
  let written := view.withBytes (mem ino).dataBlockNumber
  let copied := data.take (env.transfer len)
  have put : Lockstep (ε := Stuck) (fun s t => s = raw ∧ t = fs)
      (modify (·.putBytes (mem ino).dataBlockNumber pos copied))
      (emit (writeBytes fs.bufs (mem ino).dataBlockNumber pos copied))
      (SameValue (Stage written mem count)) := by
    refine .writes fun raw fs here => ⟨rfl, ?_⟩
    obtain ⟨rfl, rfl⟩ := here
    exact ⟨stage.agrees.putBytes block pos copied, stage.mem,
      (congrArg SuperBlock.inodesCount (written_super fs pos copied _)).trans stage.count⟩
  refine put.bind_same fun _ => ?_
  have stop (a : Int × Nat) : Lockstep (ε := Stuck) (Stage written mem count) (return a) (return a)
      (SameValue (Agrees written)) := .returns fun _ _ stage => ⟨rfl, stage.agrees⟩
  by_cases short : env.transfer len < len
  · rw [if_pos short, if_pos short]
    exact stop (-efault, pos)
  rw [if_neg short, if_neg short]
  by_cases dirty : env.dirtyMetadata ≠ 0
  · rw [if_pos dirty, if_pos dirty]
    exact stop (env.dirtyMetadata, pos + len)
  rw [if_neg dirty, if_neg dirty]
  refine .writes_right (Stage written mem count) (fun raw fs stage => stage.beside rfl rfl rfl) ?_
  by_cases stopped : env.stop ≠ 0
  · rw [if_pos stopped, if_pos stopped]
    exact stop (env.stop, pos + len)
  rw [if_neg stopped, if_neg stopped]
  refine .writes_right (Stage written mem count) (fun raw fs stage => stage.beside rfl rfl rfl) ?_
  refine .writes_right (Stage written mem count) (fun raw fs stage => stage.beside rfl rfl rfl) ?_
  refine (lock_lockstep written mem count .inodesMgmt env.inodesLock).bind_same fun failed => ?_
  cases failed with
  | true => exact stop (-eintr, pos + len)
  | false =>
  let inodes := update mem ino { mem ino with size := pos + len }
  have set : Lockstep (ε := Stuck) (Stage written mem count)
      (modify (·.setMem ino { mem ino with size := pos + len }))
      (modify (·.setMem ino { mem ino with size := pos + len }))
      (SameValue (Stage written inodes count)) :=
    .writes fun _ _ stage => ⟨rfl, stage.agrees.setMem ino _,
      congrArg (fun mem : Nat → Inode => update mem ino _) stage.mem, stage.count⟩
  refine set.bind_same fun _ => ?_
  refine (inodeSave_lockstep written inodes count env.saveLock padding sized).bind_same fun ret => ?_
  refine (unlock_lockstep written inodes count .inodesMgmt).bind_same fun _ => ?_
  by_cases failed : ret ≠ 0
  · rw [if_pos failed, if_pos failed]
    exact .returns fun _ _ stage => ⟨rfl, stage.agrees⟩
  · rw [if_neg failed, if_neg failed]
    exact .returns fun _ _ stage => ⟨rfl, stage.agrees⟩

end Ve482.Dadfs.Raw
