import Ve482.Dadfs.ByteLockstep

set_option autoImplicit false

namespace Ve482.Dadfs.Raw

open ByteLayout (Buffer cstring cstring_eq_iff)
open EStateM (Result)
open Function (update)
open Runs (EveryStep run run_invariant)

inductive Event where
  | create (call : Call) (padding : CreatePadding)
  | lookup (dir : Nat) (name : List UInt8)
  | remount (journal : Nat)
  | write (ino padding : Nat) (write : FileWrite)

/-- The same call over the views. -/
def Event.typed : Event → FileEvent
  | .create call _ => .tree (.create call)
  | .lookup dir name => .tree (.lookup dir name)
  | .remount _ => .tree .remount
  | .write ino _ call => .write ino call

/-- The bytes, with the tree and the files that the calls were to make. -/
structure Filed where
  vfs : Vfs
  tree : Tree
  files : Nat → File

/-- The inode that a creation attaches. -/
def attached (call : Call) (padding : CreatePadding) (fs : Fs) : Option Inode :=
  match (exec call padding).run fs with
  | .ok (_, inode) _ => inode
  | .error _ _ => none

/-- A new file has no text, over what the device held in its block. -/
def newFile (device : Nat → Buffer) (inode : Inode) : File :=
  { bytes := device inode.dataBlockNumber, size := 0 }

def Filed.next (device : Nat → Buffer) (filed : Filed) : Event → Filed
  | .create call padding =>
      match attached call padding filed.vfs.fs with
      | some inode =>
          { vfs := filed.vfs.call call padding
            tree := filed.tree.insert call.dir call.name inode
            files := update filed.files inode.inodeNo (newFile device inode) }
      | none => { filed with vfs := filed.vfs.call call padding }
  | .lookup dir name => { filed with vfs := filed.vfs.lookup dir name }
  | .remount journal =>
      { filed with vfs := (dadfsFillSuper filed.vfs.fs.bufs journal).getD filed.vfs }
  | .write ino padding write =>
      { filed with
        vfs := { filed.vfs with fs := filed.vfs.fs.write ino padding write }
        files := update filed.files ino ((filed.files ino).write write) }

/-- A name as the VFS hands it over. -/
structure Name (name : List UInt8) : Prop where
  short : name.length ≤ filenameMaxlen
  terminated : 0 ∉ name

/-- A successful creation of a name that was looked up in vain, in a directory with room. -/
structure Vfs.Creates (vfs : Vfs) (call : Call) (padding : CreatePadding) : Prop where
  directory : vfs.IsDirectory call.dir
  nonempty : call.name ≠ []
  name : Name call.name
  absent : dadfsLookup vfs.fs call.dir call.name = .notFound
  room : (vfs.fs.mem call.dir).HasRoom
  adds : call.env.addInodesLock = false
  succeeds : ∃ inode fs, (exec call padding).run vfs.fs = .ok (0, inode) fs

def Filed.Allows (filed : Filed) : Event → Prop
  | .create call padding => filed.vfs.Creates call padding
  | .lookup dir name => filed.vfs.IsDirectory dir ∧ Name name
  | .remount _ => True
  | .write ino _ write =>
      filed.vfs.IsFile ino ∧ write.Succeeds ∧ write.stop ≤ defaultBlockSize ∧
        (filed.vfs.fs.mem ino).fileSize ≤ write.stop

/-- A block that the map marks free, and that the code can find. -/
def Free (fs : Dadfs.Fs) (block : Nat) : Prop :=
  6 ≤ block ∧ block < 32 ∧ fs.super.freeBlocks.getLsbD block = true

/-- A block of an inode of a kind. -/
def Owns (fs : Dadfs.Fs) (kind : Mode → Bool) (block : Nat) : Prop :=
  ∃ i, i < fs.super.inodesCount ∧ i ≠ journalSlot ∧ kind (fs.store i).mode = true ∧
    (fs.store i).dataBlockNumber = block

def viewOf (fs : Dadfs.Fs) : View where
  records := fun block => 2 ≤ block ∧ (Free fs block ∨ Owns fs sIsdir block)
  bytes := fun block => 2 ≤ block ∧ (Free fs block ∨ Owns fs sIsreg block)
  data := fun _ seen => seen.elim And.left And.left

theorem findRecord_eq (memory : Buffer) {name : List UInt8} (named : Name name) (fuel i : Nat) :
    findRecord memory name fuel i =
      (Dadfs.findRecord (recordAt memory) name fuel i).map DirRecord.inodeNo := by
  induction fuel generalizing i with
  | zero => rfl
  | succ fuel ih =>
      have compared : cstring memory (i * dirRecordBytes) (filenameMaxlen + 1) = name ↔ _ :=
        cstring_eq_iff memory named.terminated (Nat.lt_succ_of_le named.short)
      rw [findRecord, Dadfs.findRecord]
      by_cases equal : (recordAt memory i).filename = name
      · rw [if_pos (compared.mp equal), if_pos equal]
        rfl
      · rw [if_neg (fun zero => equal (compared.mpr zero)), if_neg equal, ih]

section Reading

variable {view : View} {raw : Fs} {fs : Dadfs.Fs}

theorem Agrees.iget (agrees : Agrees view raw fs) (ino : Nat) :
    dadfsIget raw ino = Dadfs.dadfsIget fs ino := by
  have found : dadfsGetInode raw.store ino raw.super.inodesCount 0 =
      dadfsGetInode fs.store ino fs.super.inodesCount 0 := by
    rw [agrees.store, agrees.super]
  unfold dadfsIget Dadfs.dadfsIget
  generalize dadfsGetInode raw.store ino raw.super.inodesCount 0 = inode at found ⊢
  subst found
  cases dadfsGetInode fs.store ino fs.super.inodesCount 0 with
  | none => rfl
  | some inode => rfl

theorem Agrees.lookup (agrees : Agrees view raw fs) {dir : Nat} {name : List UInt8}
    (seen : view.records (fs.mem dir).dataBlockNumber) (named : Name name) :
    dadfsLookup raw dir name = Dadfs.dadfsLookup fs dir name := by
  unfold dadfsLookup Dadfs.dadfsLookup
  rw [agrees.mem]
  dsimp only
  rw [findRecord_eq _ named, agrees.records _ seen]
  cases Dadfs.findRecord (fs.records (fs.mem dir).dataBlockNumber) name
      (fs.mem dir).dirChildrenCount 0 with
  | none => rfl
  | some record => exact agrees.iget record.inodeNo

theorem Agrees.read (agrees : Agrees view raw fs) {ino : Nat}
    (seen : view.bytes (fs.mem ino).dataBlockNumber) (env : ReadEnv) (len ppos : Nat) :
    dadfsRead env raw ino len ppos = Dadfs.dadfsRead env fs ino len ppos := by
  unfold dadfsRead Dadfs.dadfsRead
  rw [agrees.mem]
  dsimp only
  rw [agrees.bytes _ seen]

end Reading

structure Vfs.StandsFor (raw : Vfs) (vfs : Dadfs.Vfs) : Prop where
  agrees : Agrees (viewOf vfs.fs) raw.fs vfs.fs
  live : raw.live = vfs.live

section Standing

variable {raw : Vfs} {vfs : Dadfs.Vfs}

theorem Vfs.StandsFor.isDirectory (stands : raw.StandsFor vfs) {dir : Nat} :
    raw.IsDirectory dir ↔ vfs.IsDirectory dir := by
  unfold Vfs.IsDirectory Dadfs.Vfs.IsDirectory
  rw [stands.live, stands.agrees.mem]

theorem Vfs.StandsFor.isFile (stands : raw.StandsFor vfs) {ino : Nat} :
    raw.IsFile ino ↔ vfs.IsFile ino := by
  unfold Vfs.IsFile Dadfs.Vfs.IsFile
  rw [stands.live, stands.agrees.mem]

theorem Vfs.StandsFor.attach (stands : raw.StandsFor vfs) (inode : Inode) :
    (raw.attach inode).StandsFor (vfs.attach inode) :=
  ⟨stands.agrees.setMem inode.inodeNo inode,
    congrArg (fun live : Nat → Bool => update live inode.inodeNo true) stands.live⟩

end Standing

section Blocks

variable {traced : Traced} {links : Links}

/-- Every inode's block lies behind the tables. -/
theorem coherent_dataBlock (coherent : Coherent traced links) {i : Nat}
    (inside : i < traced.vfs.fs.super.inodesCount) :
    2 ≤ (traced.vfs.fs.store i).dataBlockNumber := by
  have used := coherent.full i inside
  by_cases low : i < reservedInodes
  · have block := (coherent.image.stores.reserved traced.vfs.fs.slots rfl i low).2
    rw [slots_inside inside] at block
    rw [block]
    unfold reservedBlock
    split <;> decide
  · have block := coherent.image.stores.taken traced.vfs.fs.slots rfl i (Nat.not_lt.mp low)
    rw [slots_inside inside] at block
    exact Nat.le_trans (by decide) (block used).1

/-- An open inode owns its block. -/
theorem coherent_owns (coherent : Coherent traced links) {kind : Mode → Bool} {ino : Nat}
    (live : traced.vfs.live ino = true) (same : kind (traced.vfs.fs.mem ino).mode = true) :
    2 ≤ (traced.vfs.fs.mem ino).dataBlockNumber ∧
      Owns traced.vfs.fs kind (traced.vfs.fs.mem ino).dataBlockNumber := by
  obtain ⟨slot, inside, apart, mem, -⟩ := coherent.memory ino live
  rw [mem] at same ⊢
  exact ⟨coherent_dataBlock coherent inside, slot, inside, apart, same, rfl⟩

/-- A free block has no owner. -/
theorem Free.unowned (coherent : Coherent traced links) {block : Nat}
    (free : Free traced.vfs.fs block) {i : Nat} (inside : i < traced.vfs.fs.super.inodesCount) :
    (traced.vfs.fs.store i).dataBlockNumber ≠ block := by
  have unowned := coherent.image.stores.unowned free.1 free.2.2 rfl (i := i)
  rw [slots_inside inside] at unowned
  exact unowned (coherent.full i inside)

end Blocks

section Steps

variable {traced : Traced} {links : Links} {raw : Vfs}

theorem Vfs.StandsFor.lookup (stands : raw.StandsFor traced.vfs) (coherent : Coherent traced links)
    {dir : Nat} {name : List UInt8} (directory : raw.IsDirectory dir) (named : Name name) :
    dadfsLookup raw.fs dir name = Dadfs.dadfsLookup traced.vfs.fs dir name := by
  have live := stands.isDirectory.mp directory
  have owned := coherent_owns coherent live.1 live.2
  exact stands.agrees.lookup ⟨owned.1, .inr owned.2⟩ named

theorem Vfs.StandsFor.lookupStep (stands : raw.StandsFor traced.vfs)
    (coherent : Coherent traced links) {dir : Nat} {name : List UInt8}
    (directory : raw.IsDirectory dir) (named : Name name) :
    (raw.lookup dir name).StandsFor (traced.vfs.lookup dir name) := by
  unfold Vfs.lookup Dadfs.Vfs.lookup
  rw [stands.lookup coherent directory named]
  cases Dadfs.dadfsLookup traced.vfs.fs dir name with
  | attached inode => exact stands.attach inode
  | notFound => exact stands
  | oops => exact stands

/-- The buffers once the super block has its journal. -/
def journaled (disk : Nat → Buffer) (journal : Nat) : Nat → Buffer :=
  update disk superblockBlockNumber
    (storeJournal (storeJournal (disk superblockBlockNumber) 0) journal)

theorem Vfs.StandsFor.fillSuper (stands : raw.StandsFor traced.vfs) (coherent : Coherent traced links)
    (journal : Nat) :
    dadfsFillSuper raw.fs.bufs journal =
      some (mounted (journaled raw.fs.bufs journal) (traced.vfs.fs.store 0)) := by
  let fs := traced.vfs.fs
  have super : superOf (raw.fs.bufs superblockBlockNumber) = fs.super := stands.agrees.super
  have store : inodeAt (journaled raw.fs.bufs journal inodestoreBlockNumber) = fs.store :=
    (congrArg inodeAt (Function.update_of_ne (by decide) ..)).trans stands.agrees.store
  have first : dadfsGetInode fs.store rootdirInodeNumber fs.super.inodesCount 0 =
      some (fs.store 0) := by
    have lower : 3 ≤ fs.super.inodesCount := coherent.image.lower
    exact getInode_eq (coherent.firstSlot (show 0 < fs.super.inodesCount by omega)) (by omega)
  unfold dadfsFillSuper
  rw [super, if_neg (not_not.mpr coherent.magic), if_neg (not_not.mpr coherent.blockSize)]
  change (dadfsGetInode (inodeAt (journaled raw.fs.bufs journal inodestoreBlockNumber))
    rootdirInodeNumber fs.super.inodesCount 0).map (mounted (journaled raw.fs.bufs journal)) = _
  rw [store, first]
  rfl

theorem Vfs.StandsFor.remount (stands : raw.StandsFor traced.vfs) (coherent : Coherent traced links)
    (journal : Nat) :
    ((dadfsFillSuper raw.fs.bufs journal).getD raw).StandsFor
      ((Dadfs.dadfsFillSuper traced.vfs.fs.bufs).getD traced.vfs) := by
  have agrees := stands.agrees
  have table : journaled raw.fs.bufs journal superblockBlockNumber =
      storeJournal (storeJournal (raw.fs.bufs superblockBlockNumber) 0) journal :=
    Function.update_self ..
  have other {block : Nat} (apart : block ≠ superblockBlockNumber) :
      journaled raw.fs.bufs journal block = raw.fs.bufs block := Function.update_of_ne apart ..
  rw [stands.fillSuper coherent journal, coherent.fillSuper]
  refine ⟨⟨?_, ?_, fun block seen => ?_, fun block seen => ?_, rfl, rfl⟩, rfl⟩
  · refine (congrArg superOf table).trans ((superOf_storeJournal _ journal).trans ?_)
    exact (superOf_storeJournal _ 0).trans agrees.super
  · exact (congrArg inodeAt (other (by decide))).trans agrees.store
  · exact (congrArg recordAt (other (View.not_super _ (.inl seen)))).trans
      (agrees.records block seen)
  · exact (other (View.not_super _ (.inr seen))).trans (agrees.bytes block seen)

section Created

variable {call : Call} {home : Nat} {fs' : Dadfs.Fs} {block : Nat}

theorem creation_free (creation : Creation traced call home fs') (free : Free fs' block) :
    Free traced.vfs.fs block := by
  obtain ⟨above, low, unmarked⟩ := free
  rw [creation.created.super, getLsbD_unmask _ _ _ (by omega), Bool.and_eq_true] at unmarked
  exact ⟨above, low, unmarked.1⟩

/-- An owner after a creation is the new inode, on a block that was free, or one from before. -/
theorem creation_owns (creation : Creation traced call home fs') (coherent : Coherent traced links)
    {kind : Mode → Bool} (owns : Owns fs' kind block) :
    Free traced.vfs.fs block ∨ ∃ i, i < traced.vfs.fs.super.inodesCount ∧ i ≠ journalSlot ∧
      kind (traced.vfs.fs.store i).mode = true ∧ (traced.vfs.fs.store i).dataBlockNumber = block := by
  obtain ⟨i, below, apart, same, rfl⟩ := owns
  rw [creation.count] at below
  by_cases new : i = traced.vfs.fs.super.inodesCount
  · rw [new, creation.store_new]
    exact .inl (coherent.image.tracked.firstFree creation.admits.block)
  by_cases parent : i = home
  · subst parent
    rw [creation.store_parent] at same ⊢
    exact .inr ⟨i, creation.inside, apart, same, rfl⟩
  · have inside : i < traced.vfs.fs.super.inodesCount := by omega
    rw [creation.store_other inside parent] at same ⊢
    exact .inr ⟨i, inside, apart, same, rfl⟩

theorem creation_records (creation : Creation traced call home fs')
    (coherent : Coherent traced links) (seen : (viewOf fs').records block) :
    (viewOf traced.vfs.fs).records block := by
  rcases seen with ⟨data, free | owns⟩
  · exact ⟨data, .inl (creation_free creation free)⟩
  · exact ⟨data, creation_owns creation coherent owns⟩

/-- The parent's block is not among those that are read as bytes. -/
theorem creation_bytes (creation : Creation traced call home fs')
    (coherent : Coherent traced links) (seen : (viewOf fs').bytes block) :
    (viewOf traced.vfs.fs).bytes block ∧
      block ≠ (traced.vfs.fs.mem call.dir).dataBlockNumber := by
  rw [creation.parent]
  have unowned (free : Free traced.vfs.fs block) :
      block ≠ (traced.vfs.fs.store home).dataBlockNumber :=
    (Free.unowned coherent free creation.inside).symm
  rcases seen with ⟨data, free | owns⟩
  · have free := creation_free creation free
    exact ⟨⟨data, .inl free⟩, unowned free⟩
  rcases creation_owns creation coherent owns with free | ⟨i, inside, apart, regular, same⟩
  · exact ⟨⟨data, .inl free⟩, unowned free⟩
  · refine ⟨⟨data, .inr ⟨i, inside, apart, regular, same⟩⟩, fun taken => ?_⟩
    obtain rfl := coherent.blocksApart inside creation.inside (same.trans taken)
    have directory := creation.directory
    rw [not_directory regular] at directory
    cases directory

end Created

/-- A write leaves what each block is read as, and no records are read from the file's block. -/
theorem overwritten_view (coherent : Coherent traced links) {ino home pos : Nat}
    {data : List UInt8} (inside : home < traced.vfs.fs.super.inodesCount)
    (mem : traced.vfs.fs.mem ino = traced.vfs.fs.store home)
    (regular : sIsreg (traced.vfs.fs.mem ino).mode = true) (block : Nat) :
    ((viewOf (traced.vfs.fs.overwritten ino home pos data)).records block →
        (viewOf traced.vfs.fs).records block ∧
          block ≠ (traced.vfs.fs.mem ino).dataBlockNumber) ∧
      ((viewOf (traced.vfs.fs.overwritten ino home pos data)).bytes block →
        (viewOf traced.vfs.fs).bytes block) := by
  let fs := traced.vfs.fs
  have super : (fs.overwritten ino home pos data).super = fs.super := overwritten_super ..
  have store : (fs.overwritten ino home pos data).store =
      update fs.store home { fs.mem ino with size := pos + data.length } := overwritten_store ..
  have free (free : Free (fs.overwritten ino home pos data) block) : Free fs block := by
    unfold Free at free ⊢
    rwa [super] at free
  have owns {kind : Mode → Bool} (owns : Owns (fs.overwritten ino home pos data) kind block) :
      Owns fs kind block := by
    obtain ⟨i, below, apart, same, owned⟩ := owns
    rw [super] at below
    rw [store] at same owned
    refine ⟨i, below, apart, ?_⟩
    by_cases here : i = home
    · subst here
      rw [Function.update_self] at same owned
      rw [← mem]
      exact ⟨same, owned⟩
    · rw [Function.update_of_ne here] at same owned
      exact ⟨same, owned⟩
  refine ⟨fun seen => ⟨⟨seen.1, seen.2.imp free owns⟩, ?_⟩, fun seen => ⟨seen.1, seen.2.imp free owns⟩⟩
  rw [mem]
  rcases seen.2 with unmarked | directory
  · exact (Free.unowned coherent (free unmarked) inside).symm
  · obtain ⟨i, below, -, same, owned⟩ := owns directory
    intro taken
    obtain rfl := coherent.blocksApart below inside (owned.trans taken)
    rw [mem] at regular
    rw [not_directory regular] at same
    cases same

/-- What fits into the fields of a structure that was read from the store. -/
theorem Agrees.fits {view : View} {fs : Fs} {typed : Dadfs.Fs} (agrees : Agrees view fs typed)
    (slot : Nat) : (typed.store slot).Fits :=
  agrees.store ▸ inodeAt_fits _ slot

/-- A creation in an open directory with room keeps step. -/
theorem Vfs.StandsFor.createEnds (stands : raw.StandsFor traced.vfs)
    (coherent : Coherent traced links) {call : Call} (padding : CreatePadding)
    (directory : traced.vfs.IsDirectory call.dir) (named : Name call.name)
    (room : (traced.vfs.fs.mem call.dir).HasRoom) :
    SameEnd (SameValue (Agrees
        ((viewOf traced.vfs.fs).withRecords (traced.vfs.fs.mem call.dir).dataBlockNumber)))
      ((exec call padding).run raw.fs) (call.exec.run traced.vfs.fs) := by
  let fs := traced.vfs.fs
  have owned := coherent_owns coherent directory.1 directory.2
  have fits : (fs.mem call.dir).addChild.Fits := by
    obtain ⟨slot, -, -, mem, -⟩ := coherent.memory call.dir directory.1
    have stored := stands.agrees.fits slot
    rw [← mem] at stored
    refine ⟨stored.inodeNo, stored.dataBlockNumber, ?_⟩
    have small : ((fs.mem call.dir).dirChildrenCount + 1) * 264 ≤ 4096 := room
    exact Nat.lt_of_le_of_lt (show (fs.mem call.dir).dirChildrenCount + 1 ≤ 4096 by omega) (by decide)
  rw [call.exec_eq]
  exact create_lockstep (viewOf fs) fs.mem fs.super.inodesCount call.env padding call.dir call.name
    call.mode ⟨owned.1, fits, named.short, named.terminated⟩ raw.fs fs ⟨stands.agrees, rfl, rfl⟩

/-- A creation over the bytes that returned 0 is one over the views. -/
theorem Vfs.StandsFor.create (stands : raw.StandsFor traced.vfs) (coherent : Coherent traced links)
    {call : Call} {padding : CreatePadding} (creates : raw.Creates call padding) :
    traced.vfs.Creates call ∧
      attached call padding raw.fs = some (traced.vfs.fs.newInode call.mode) ∧
      call.attached traced.vfs.fs = some (traced.vfs.fs.newInode call.mode) ∧
      (raw.call call padding).StandsFor (traced.vfs.call call) := by
  let fs := traced.vfs.fs
  have directory := stands.isDirectory.mp creates.directory
  have room : (fs.mem call.dir).HasRoom := stands.agrees.mem ▸ creates.room
  have ends := stands.createEnds coherent padding directory creates.name room
  obtain ⟨inode, rawFs, result⟩ := creates.succeeds
  rw [result] at ends
  generalize typed : call.exec.run fs = outcome at ends
  cases ends with
  | returned same =>
  obtain ⟨rfl, agrees⟩ := same
  rename_i after
  have typedCreates : traced.vfs.Creates call :=
    ⟨⟨directory.1, directory.2, creates.nonempty, creates.name.short, creates.name.terminated⟩,
      (stands.lookup coherent creates.directory creates.name).symm.trans creates.absent, room,
      ⟨_, _, typed⟩⟩
  obtain ⟨home, fs', creation, result'⟩ := coherent.creation typedCreates creates.adds
  obtain ⟨same, rfl⟩ : inode = some (fs.newInode call.mode) ∧ after = fs' := by
    have both := typed.symm.trans result'
    injection both with value state
    exact ⟨congrArg Prod.snd value, state⟩
  subst same
  refine ⟨typedCreates, ?_, ?_, ?_⟩
  · rw [attached, result]
  · rw [Call.attached, result']
  · have moved : Vfs.StandsFor { raw with fs := rawFs } { traced.vfs with fs := after } :=
      ⟨agrees.view_imp (fun _ => creation_records creation coherent)
        (fun _ => creation_bytes creation coherent), stands.live⟩
    rw [Vfs.call, Dadfs.Vfs.call, result, result']
    exact moved.attach _

/-- A creation over the views that returns 0 is one over the bytes. -/
theorem Vfs.StandsFor.creates (stands : raw.StandsFor traced.vfs) (coherent : Coherent traced links)
    {call : Call} (padding : CreatePadding) (creates : traced.vfs.Creates call)
    (adds : call.env.addInodesLock = false) : raw.Creates call padding := by
  have directory : traced.vfs.IsDirectory call.dir :=
    ⟨creates.permits.live, creates.permits.directory⟩
  have named : Name call.name := ⟨creates.permits.short, creates.permits.terminated⟩
  have open_dir := stands.isDirectory.mpr directory
  refine ⟨open_dir, creates.permits.nonempty, named,
    (stands.lookup coherent open_dir named).trans creates.absent,
    stands.agrees.mem.symm ▸ creates.room, adds, ?_⟩
  have ends := stands.createEnds coherent padding directory named creates.room
  obtain ⟨inode, fs', result⟩ := creates.succeeds
  rw [result] at ends
  generalize (exec call padding).run raw.fs = outcome at ends ⊢
  cases ends with
  | returned same =>
      obtain ⟨rfl, -⟩ := same
      exact ⟨_, _, rfl⟩

/-- A write over the bytes leaves what one over the views does. -/
theorem Vfs.StandsFor.write (stands : raw.StandsFor traced.vfs) (coherent : Coherent traced links)
    (inodesFree : traced.vfs.fs.held .inodesMgmt = false) (sbFree : traced.vfs.fs.held .sb = false)
    {ino : Nat} (padding : Nat) {write : FileWrite} (file : raw.IsFile ino)
    (succeeds : write.Succeeds) (within : write.stop ≤ defaultBlockSize) :
    Vfs.StandsFor { raw with fs := raw.fs.write ino padding write }
      { traced.vfs with fs := traced.vfs.fs.write ino write } := by
  let fs := traced.vfs.fs
  have live := stands.isFile.mp file
  have owned := coherent_owns coherent live.1 live.2
  obtain ⟨home, inside, -, mem, -⟩ := coherent.memory ino live.1
  have leaves : fs.write ino write = fs.overwritten ino home write.pos write.data :=
    write_eq (coherent.opened inodesFree sbFree inside mem) succeeds
  have stored := stands.agrees.fits home
  rw [← mem] at stored
  have ends := write_lockstep (viewOf fs) fs.mem fs.super.inodesCount write.env padding ino write.data
    write.pos owned.1 (fun pos len checks => ?_) raw.fs fs ⟨stands.agrees, rfl, rfl⟩
  · refine ⟨?_, stands.live⟩
    have agrees : Agrees ((viewOf fs).withBytes (fs.mem ino).dataBlockNumber)
        (raw.fs.write ino padding write) (fs.write ino write) := by
      have typed : ∃ value, (Dadfs.dadfsWrite write.env ino write.data write.pos).run fs =
          .ok value (fs.write ino write) := by
        unfold Dadfs.Fs.write
        rw [dadfsWrite_succeeds succeeds.env ino succeeds.checks fs inodesFree sbFree]
        unfold Dadfs.Fs.sized
        split <;> exact ⟨_, rfl⟩
      obtain ⟨value, typed⟩ := typed
      rw [typed] at ends
      unfold Fs.write
      generalize (dadfsWrite write.env padding ino write.data write.pos).run raw.fs = outcome at ends ⊢
      cases ends with
      | returned same => exact same.2
    change Agrees (viewOf (fs.write ino write)) _ (fs.write ino write)
    rw [leaves] at agrees ⊢
    exact agrees.view_imp (fun block => (overwritten_view coherent inside mem live.2 block).1)
      fun block => (overwritten_view coherent inside mem live.2 block).2
  · rw [succeeds.checks] at checks
    injection checks with _ place
    injection place with place length
    refine ⟨stored.inodeNo, stored.dataBlockNumber, ?_⟩
    rw [← place, ← length]
    exact Nat.lt_of_le_of_lt within (by decide)

end Steps

/-- The bytes stand for a state of the typed side that keeps all its invariants. -/
structure Filed.StandsFor (raw : Filed) (dev : Device) (filed : Dadfs.Filed) : Prop where
  kept : filed.Kept dev
  vfs : raw.vfs.StandsFor filed.traced.vfs
  tree : raw.tree = filed.traced.tree
  files : raw.files = filed.files

theorem Filed.StandsFor.step {device : Nat → Buffer} {dev : Device} {raw : Filed}
    {filed : Dadfs.Filed} (stands : raw.StandsFor dev filed)
    (same : ∀ block, (dev.blocks block).bytes = device block) {event : Event}
    (allowed : raw.Allows event) :
    (raw.next device event).StandsFor dev (filed.next dev event.typed) := by
  obtain ⟨links, coherent⟩ := stands.kept.coherent
  cases event with
  | create call padding =>
      obtain ⟨creates, made, attached, moved⟩ := stands.vfs.create coherent allowed
      refine ⟨stands.kept.create creates allowed.adds, ?_, ?_, ?_⟩
      · simp only [Filed.next, made]
        exact moved
      · simp only [Filed.next, Event.typed, Dadfs.Filed.next, Traced.next, made, attached,
          stands.tree]
      · simp only [Filed.next, Event.typed, Dadfs.Filed.next, made, attached, stands.files, newFile,
          File.create, same]
  | lookup dir name =>
      exact ⟨stands.kept.lookup name (stands.vfs.isDirectory.mp allowed.1),
        stands.vfs.lookupStep coherent allowed.1 allowed.2, stands.tree, stands.files⟩
  | remount journal =>
      refine ⟨stands.kept.remount, ?_, ?_, ?_⟩
      all_goals simp only [Filed.next, Event.typed, Dadfs.Filed.next, Traced.next]
      exacts [stands.vfs.remount coherent journal, stands.tree, stands.files]
  | write ino padding write =>
      refine ⟨stands.kept.write (stands.vfs.isFile.mp allowed.1) allowed.2.1
          (stands.vfs.agrees.mem ▸ allowed.2.2.2), stands.vfs.write coherent stands.kept.inodesFree
          stands.kept.sbFree padding allowed.1 allowed.2.1 allowed.2.2.1, stands.tree, ?_⟩
      simp only [Filed.next, Event.typed, Dadfs.Filed.next, stands.files]

/-- A name that is looked up is one that the VFS can hand over. -/
def Event.Named : Event → Prop
  | .lookup _ name => Name name
  | .create _ _ | .remount _ | .write _ _ _ => True

/-- What is allowed over the views is allowed over the bytes. -/
theorem Filed.StandsFor.allows {dev : Device} {raw : Filed} {filed : Dadfs.Filed}
    (stands : raw.StandsFor dev filed) {event : Event} (allowed : filed.Allows event.typed)
    (named : event.Named) : raw.Allows event := by
  obtain ⟨links, coherent⟩ := stands.kept.coherent
  cases event with
  | create call padding => exact stands.vfs.creates coherent padding allowed.1 allowed.2
  | lookup dir name => exact ⟨stands.vfs.isDirectory.mpr allowed.1, named⟩
  | remount journal => trivial
  | write ino padding write =>
      exact ⟨stands.vfs.isFile.mpr allowed.1, allowed.2.1, allowed.2.2.1,
        stands.vfs.agrees.mem.symm ▸ allowed.2.2.2⟩

/-- Over a run. -/
theorem Filed.StandsFor.everyStep {device : Nat → Buffer} {dev : Device}
    (same : ∀ block, (dev.blocks block).bytes = device block) {events : List Event} {raw : Filed}
    {filed : Dadfs.Filed} (stands : raw.StandsFor dev filed) (named : ∀ event ∈ events, event.Named)
    (allowed : EveryStep (Dadfs.Filed.next dev) Dadfs.Filed.Allows filed
      (events.map Event.typed)) :
    EveryStep (Filed.next device) Filed.Allows raw events := by
  induction events generalizing raw filed with
  | nil => trivial
  | cons event events ih =>
      have here := stands.allows allowed.1 (named event (List.mem_cons_self ..))
      exact ⟨here, ih (stands.step same here)
        (fun later member => named later (List.mem_cons_of_mem _ member)) allowed.2⟩

/-- What the bytes keep to in every state of a run: each name leads to its inode, and a read from
the start of a file returns what was written to it. -/
structure Filed.Faithful (filed : Filed) : Prop where
  names : ∀ dir name, filed.vfs.IsDirectory dir → Name name →
    (dadfsLookup filed.vfs.fs dir name).Gives (filed.tree dir name)
  reads : ∀ ino, filed.vfs.IsFile ino → ∀ env : ReadEnv, env.Succeeds → ∀ len,
    (dadfsRead env filed.vfs.fs ino len 0).buf = (filed.files ino).text.take len

theorem Filed.StandsFor.faithful {dev : Device} {raw : Filed} {filed : Dadfs.Filed}
    (stands : raw.StandsFor dev filed) : raw.Faithful := by
  obtain ⟨links, coherent⟩ := stands.kept.coherent
  have faithful := stands.kept.faithful
  refine ⟨fun dir name directory named => ?_, fun ino file env succeeds len => ?_⟩
  · rw [stands.vfs.lookup coherent directory named, stands.tree]
    exact faithful.names dir name (stands.vfs.isDirectory.mp directory)
  · have live := stands.vfs.isFile.mp file
    have owned := coherent_owns coherent live.1 live.2
    rw [stands.vfs.agrees.read ⟨owned.1, .inr owned.2⟩, stands.files]
    exact faithful.reads ino live env succeeds len

end Ve482.Dadfs.Raw
