import Ve482.Dadfs.Write
import Ve482.Lib.Runs

set_option autoImplicit false

namespace Ve482.Dadfs

open EStateM (Result)
open Runs

/-- One `dadfs_write` of an open file, before Linux 4.0. -/
structure FileWrite where
  env : WriteEnv
  pos : Nat
  data : List UInt8

/-- The position after the write. -/
abbrev FileWrite.stop (write : FileWrite) : Nat := write.pos + write.data.length

/-- Every kernel call succeeds, and the checks leave position and length as they are. -/
structure FileWrite.Succeeds (write : FileWrite) : Prop where
  env : write.env.Succeeds
  checks : write.env.checks write.pos write.data.length = (0, write.pos, write.data.length)

def Fs.write (ino : Nat) (fs : Fs) (write : FileWrite) : Fs :=
  finalState ((dadfsWrite write.env ino write.data write.pos).run fs)

/-- What a sequence of writes is for: the content is overlaid in order, and both sizes are the
furthest that the file or a write reached. -/
structure ActsAsArray (before : Fs) (ino : Nat) (writes : List FileWrite) (after : Fs) : Prop where
  content : (after.bufs (before.mem ino).dataBlockNumber).bytes =
    writes.foldl (fun bytes write => overlay bytes write.pos write.data)
      (before.bufs (before.mem ino).dataBlockNumber).bytes
  inMemory : (after.mem ino).fileSize =
    writes.foldl (fun size write => max size write.stop) (before.mem ino).fileSize
  inStore : (after.storedInode (before.mem ino).inodeNo).map Inode.fileSize =
    some (writes.foldl (fun size write => max size write.stop) (before.mem ino).fileSize)

/-- An open file: its inode has a slot in the table, with the size that is in memory, and the
mutexes of a write are free. -/
structure Fs.Opened (fs : Fs) (ino slot : Nat) : Prop where
  first : FirstSlot fs.store (fs.mem ino).inodeNo 0 slot
  counted : slot < fs.super.inodesCount
  current : (fs.store slot).fileSize = (fs.mem ino).fileSize
  inodesFree : fs.held .inodesMgmt = false
  sbFree : fs.held .sb = false

/-- The state after a write that succeeded. -/
def Fs.overwritten (fs : Fs) (ino slot pos : Nat) (data : List UInt8) : Fs :=
  let inode := { fs.mem ino with size := pos + data.length }
  ((fs.written (fs.mem ino).dataBlockNumber pos data).setMem ino inode).saveSlot slot inode

section Overwritten

variable (fs : Fs) (ino slot pos : Nat) (data : List UInt8)

theorem written_store (block : Nat) : (fs.written block pos data).store = fs.store :=
  view_update Block.inodes fs.bufs block _ inodestoreBlockNumber (by rfl)

theorem written_super (block : Nat) : (fs.written block pos data).super = fs.super :=
  view_update Block.sb fs.bufs block _ superblockBlockNumber (by rfl)

theorem overwritten_mem :
    (fs.overwritten ino slot pos data).mem ino = { fs.mem ino with size := pos + data.length } :=
  Function.update_self ..

theorem overwritten_super : (fs.overwritten ino slot pos data).super = fs.super :=
  written_super fs pos data _

theorem overwritten_store :
    (fs.overwritten ino slot pos data).store =
      Function.update fs.store slot { fs.mem ino with size := pos + data.length } := by
  change Function.update (fs.written (fs.mem ino).dataBlockNumber pos data).store slot _ = _
  rw [written_store]

theorem overwritten_bytes :
    ((fs.overwritten ino slot pos data).bufs (fs.mem ino).dataBlockNumber).bytes =
      overlay (fs.bufs (fs.mem ino).dataBlockNumber).bytes pos data := by
  let block := (fs.mem ino).dataBlockNumber
  have saved : ((fs.overwritten ino slot pos data).bufs block).bytes =
      ((fs.written block pos data).bufs block).bytes :=
    view_update Block.bytes _ inodestoreBlockNumber _ block (by rfl)
  refine saved.trans ?_
  change (Function.update fs.bufs block _ block).bytes = _
  rw [Function.update_self]

end Overwritten

theorem write_eq {fs : Fs} {ino slot : Nat} (opened : fs.Opened ino slot) {write : FileWrite}
    (succeeds : write.Succeeds) :
    fs.write ino write = fs.overwritten ino slot write.pos write.data := by
  let block := (fs.mem ino).dataBlockNumber
  let inode := { fs.mem ino with size := write.pos + write.data.length }
  have search : dadfsInodeSearch (fs.written block write.pos write.data).store inode.inodeNo
      (fs.written block write.pos write.data).super.inodesCount 0 = some slot := by
    rw [written_store, written_super]
    exact inodeSearch_eq opened.first (by have := opened.counted; omega)
  have saved : ((fs.written block write.pos write.data).setMem ino inode).saved false inode =
      (0, fs.overwritten ino slot write.pos write.data) := by
    unfold Fs.saved
    rw [if_neg Bool.false_ne_true]
    have place : dadfsInodeSearch
        ((fs.written block write.pos write.data).setMem ino inode).store inode.inodeNo
        ((fs.written block write.pos write.data).setMem ino inode).super.inodesCount 0 =
          some slot := search
    simp only [place]
    rfl
  unfold Fs.write
  rw [dadfsWrite_succeeds succeeds.env ino succeeds.checks fs opened.inodesFree opened.sbFree,
    List.take_length]
  unfold Fs.sized
  rw [succeeds.env.inodesLock, if_neg Bool.false_ne_true, succeeds.env.saveLock]
  dsimp only
  rw [saved]
  rfl

theorem overwritten_opened {fs : Fs} {ino slot : Nat} (opened : fs.Opened ino slot) (pos : Nat)
    (data : List UInt8) : (fs.overwritten ino slot pos data).Opened ino slot := by
  refine ⟨?_, ?_, ?_, opened.inodesFree, opened.sbFree⟩
  · rw [overwritten_store, overwritten_mem]
    exact opened.first.update (Nat.le_refl _) fun _ => rfl
  · rw [overwritten_super]
    exact opened.counted
  · rw [overwritten_store, overwritten_mem, Function.update_self]

theorem Fs.Opened.storedInode {fs : Fs} {ino slot : Nat} (opened : fs.Opened ino slot) :
    (fs.storedInode (fs.mem ino).inodeNo).map Inode.fileSize = some (fs.mem ino).fileSize := by
  rw [Fs.storedInode, getInode_eq opened.first (by have := opened.counted; omega),
    Option.map_some, opened.current]

/-- What a run of writes leaves: the overlaid content, and the inode as it was but for the
position after the last write. -/
theorem writes_leave {ino slot : Nat} {writes : List FileWrite}
    (succeed : ∀ write ∈ writes, write.Succeeds) {fs : Fs} (opened : fs.Opened ino slot) :
    (run (Fs.write ino) fs writes).Opened ino slot ∧
      (run (Fs.write ino) fs writes).mem ino =
        { fs.mem ino with
          size := writes.foldl (fun _ write => write.stop) (fs.mem ino).fileSize } ∧
      ((run (Fs.write ino) fs writes).bufs (fs.mem ino).dataBlockNumber).bytes =
        writes.foldl (fun bytes write => overlay bytes write.pos write.data)
          (fs.bufs (fs.mem ino).dataBlockNumber).bytes := by
  induction writes generalizing fs with
  | nil => exact ⟨opened, rfl, rfl⟩
  | cons write writes ih =>
      have step := write_eq opened (succeed write List.mem_cons_self)
      obtain ⟨last, inode, bytes⟩ := ih
        (fun other member => succeed other (List.mem_cons_of_mem _ member))
        (overwritten_opened opened write.pos write.data)
      rw [overwritten_mem] at inode bytes
      rw [run_cons, step, List.foldl_cons, List.foldl_cons]
      refine ⟨last, inode, ?_⟩
      rw [bytes, overwritten_bytes]

/-- The last write, if there is one, ends no earlier than the file did and every write before
it. -/
def LastReaches (size : Nat) (writes : List FileWrite) : Prop :=
  ∀ earlier last, writes = earlier ++ [last] →
    size ≤ last.stop ∧ ∀ write ∈ earlier, write.stop ≤ last.stop

theorem foldl_max_le_iff (writes : List FileWrite) (size bound : Nat) :
    writes.foldl (fun size write => max size write.stop) size ≤ bound ↔
      size ≤ bound ∧ ∀ write ∈ writes, write.stop ≤ bound := by
  induction writes generalizing size with
  | nil => simp only [List.foldl_nil, List.not_mem_nil, false_implies, implies_true, and_true]
  | cons write writes ih =>
      rw [List.foldl_cons, ih, List.forall_mem_cons, max_le_iff, and_assoc]

theorem lastReaches_iff (size : Nat) (writes : List FileWrite) :
    LastReaches size writes ↔
      writes.foldl (fun _ write => write.stop) size =
        writes.foldl (fun size write => max size write.stop) size := by
  rcases List.eq_nil_or_concat writes with rfl | ⟨earlier, last, rfl⟩
  · refine iff_of_true (fun earlier last absurdity => ?_) rfl
    exact absurd absurdity.symm (List.concat_ne_nil last earlier)
  · rw [List.concat_eq_append, List.foldl_append, List.foldl_append, List.foldl_cons,
      List.foldl_nil, List.foldl_cons, List.foldl_nil, eq_comm, max_eq_right_iff,
      foldl_max_le_iff]
    constructor
    · intro reaches
      exact reaches earlier last rfl
    · intro bounds other final same
      obtain ⟨rfl, rfl⟩ := List.append_inj' same rfl |>.imp id List.singleton_inj.mp
      exact bounds

/-- For every sequence of writes that succeed to an open file: it acts as an array of bytes
exactly when the last of them goes as far as the file and all the others did. -/
theorem writes_act_iff {fs : Fs} {ino slot : Nat} (opened : fs.Opened ino slot)
    (writes : List FileWrite) (succeed : ∀ write ∈ writes, write.Succeeds) :
    ActsAsArray fs ino writes (run (Fs.write ino) fs writes) ↔
      LastReaches (fs.mem ino).fileSize writes := by
  obtain ⟨last, inode, bytes⟩ := writes_leave succeed opened
  have stored := last.storedInode
  rw [inode] at stored
  rw [lastReaches_iff]
  constructor
  · intro acts
    have size := acts.inMemory
    rw [inode] at size
    exact size
  · intro sizes
    refine ⟨bytes, by rw [inode]; exact sizes, ?_⟩
    rw [stored]
    exact congrArg some sizes

theorem welcomeOpened_opened : welcomeOpened.Opened welcomefileInodeNumber 2 := by
  refine ⟨⟨Nat.zero_le _, rfl, ?_⟩, by decide, rfl, rfl, rfl⟩
  have bounded : ∀ i < 2, (welcomeOpened.store i).inodeNo ≠ 3 := by decide
  exact fun i _ before => bounded i before

def smoothWrite (pos : Nat) (data : List UInt8) : FileWrite :=
  { env := .smooth fun _ => 0, pos := pos, data := data }

theorem smoothWrite_succeeds (pos : Nat) (data : List UInt8) :
    (smoothWrite pos data).Succeeds := ⟨smooth_succeeds _, rfl⟩

theorem writes_act_welcome :
    ActsAsArray welcomeOpened welcomefileInodeNumber [smoothWrite 40 [72, 105], smoothWrite 3 [104]]
        (run (Fs.write welcomefileInodeNumber) welcomeOpened
          [smoothWrite 40 [72, 105], smoothWrite 3 [104]]) ↔
      LastReaches (welcomeOpened.mem welcomefileInodeNumber).fileSize
        [smoothWrite 40 [72, 105], smoothWrite 3 [104]] := by
  refine writes_act_iff welcomeOpened_opened _ ?_
  simp only [List.forall_mem_cons, smoothWrite_succeeds, List.not_mem_nil, false_implies,
    implies_true, and_self]

/-- One byte over the head of the welcome file leaves a file of one byte. -/
theorem head_overwritten_truncates :
    ¬ ActsAsArray welcomeOpened welcomefileInodeNumber [smoothWrite 0 [104]]
      (run (Fs.write welcomefileInodeNumber) welcomeOpened [smoothWrite 0 [104]]) := by
  intro acts
  exact absurd acts.inMemory (by decide +kernel)

end Ve482.Dadfs
