import Ve482.Dadfs.Image
import Ve482.Dadfs.Locks

set_option autoImplicit false

namespace Ve482.Dadfs

open EStateM (Result)
open Runs (EveryStep run run_invariant)

/-! The abstract side: what a directory tree is for. -/

/-- For each directory, by number, the inode that the creation of a name gave it. -/
abbrev Tree := Nat → List UInt8 → Option Inode

def Tree.insert (tree : Tree) (dir : Nat) (name : List UInt8) (inode : Inode) : Tree :=
  Function.update tree dir (Function.update (tree dir) name (some inode))

theorem insert_self (tree : Tree) (dir : Nat) (name : List UInt8) (inode : Inode) :
    tree.insert dir name inode dir name = some inode := by
  rw [Tree.insert, Function.update_self, Function.update_self]

theorem insert_other (tree : Tree) {dir other : Nat} {name text : List UInt8} (inode : Inode)
    (apart : other = dir → text ≠ name) :
    tree.insert dir name inode other text = tree other text := by
  rw [Tree.insert]
  by_cases same : other = dir
  · subst same
    rw [Function.update_self, Function.update_of_ne (apart rfl)]
  · rw [Function.update_of_ne same]

/-- The tree that mkfs writes. -/
def mkfsTree : Tree :=
  Tree.insert (fun _ _ => none) rootdirInodeNumber welcomeName welcomeInode

/-- A lookup gives what the tree has: the same number, mode and data block, or nothing. -/
def Lookup.Gives : Lookup → Option Inode → Prop
  | .attached found, some inode => SameObject inode found
  | .notFound, none => True
  | _, _ => False

theorem not_gives_oops (entry : Option Inode) : ¬ Lookup.oops.Gives entry := by
  cases entry <;> exact id

def Vfs.Refines (vfs : Vfs) (tree : Tree) : Prop :=
  ∀ dir name, vfs.IsDirectory dir → (dadfsLookup vfs.fs dir name).Gives (tree dir name)

def Vfs.NumbersApart (vfs : Vfs) : Prop :=
  ∀ i j, i < vfs.fs.super.inodesCount → j < vfs.fs.super.inodesCount → i ≠ j →
    (vfs.fs.store i).inodeNo ≠ (vfs.fs.store j).inodeNo

inductive Event where
  | create (call : Call)
  | lookup (dir : Nat) (name : List UInt8)
  | remount
  deriving DecidableEq, Repr

structure Traced where
  vfs : Vfs
  tree : Tree

def Call.attached (call : Call) (fs : Fs) : Option Inode :=
  match call.exec.run fs with
  | .ok (_, attached) _ => attached
  | .error _ _ => none

def Traced.next (traced : Traced) : Event → Traced
  | .create call =>
      { vfs := traced.vfs.call call
        tree := match call.attached traced.vfs.fs with
          | some inode => traced.tree.insert call.dir call.name inode
          | none => traced.tree }
  | .lookup dir name => { traced with vfs := traced.vfs.lookup dir name }
  | .remount => { traced with vfs := (dadfsFillSuper traced.vfs.fs.bufs).getD traced.vfs }

def Call.Succeeds (call : Call) (fs : Fs) : Prop :=
  ∃ attached fs', call.exec.run fs = .ok (0, attached) fs'

/-- A successful creation of a name that the VFS has looked up in vain, in a directory with
room for it. -/
structure Vfs.Creates (vfs : Vfs) (call : Call) : Prop where
  permits : vfs.Permits call
  absent : dadfsLookup vfs.fs call.dir call.name = .notFound
  room : (vfs.fs.mem call.dir).HasRoom
  succeeds : call.Succeeds vfs.fs

def Traced.Allows (traced : Traced) : Event → Prop
  | .create call => traced.vfs.Creates call
  | .lookup dir _ => traced.vfs.IsDirectory dir
  | .remount => True

/-- No signal interrupts the first lock of `dadfs_inode_add`. -/
def Event.AddsInode : Event → Prop
  | .create call => call.env.addInodesLock = false
  | .lookup _ _ => True
  | .remount => True

/-- The effect of a creation that did all of its work, with the parent in the given slot. -/
structure Created (fs fs' : Fs) (dir : Nat) (name : List UInt8) (inode : Inode) (slot : Nat) :
    Prop where
  super : fs'.super = { fs.super with
    freeBlocks := fs.super.freeBlocks &&& ~~~shiftMask (firstFree fs.super.freeBlocks)
    inodesCount := fs.super.inodesCount + 1 }
  store : fs'.store =
    Function.update (Function.update fs.store fs.super.inodesCount inode) slot
      (fs.mem dir).addChild
  records : fs'.records = Records.put fs.records (fs.mem dir).dataBlockNumber
    (fs.mem dir).dirChildrenCount (newRecord name inode)
  mem : fs'.mem = Function.update fs.mem dir (fs.mem dir).addChild

/-- A creation that returns 0 and did not lose its inode on the way. -/
theorem create_zero {fs fs' : Fs} {env : CreateEnv} {dir : Nat} {name : List UInt8}
    {umode : BitVec 16} {attached : Option Inode} (added : env.addInodesLock = false)
    (result : (dadfsCreateFsObject env dir name umode).run fs = .ok (0, attached) fs') :
    fs.Admits env umode ∧ env.addSbLock = false ∧ attached = some (fs.newInode umode) ∧
      ∃ slot, (fs.takeBlock (firstFree fs.super.freeBlocks)).parentSlot env dir name
          (fs.newInode umode) = some slot ∧
        fs' = ((fs.takeBlock (firstFree fs.super.freeBlocks)).counted env dir name
          (fs.newInode umode)).saveSlot slot (fs.mem dir).addChild := by
  by_cases admits : fs.Admits env umode
  swap
  · have refused := create_refused dir name admits
    rw [result] at refused
    cases refused with
    | failed negative same => omega
  rw [create_admitted dir name admits, Fs.linkResult] at result
  by_cases inodesLock : env.inodesLock = true
  · rw [if_pos inodesLock] at result
    cases result
  rw [if_neg inodesLock] at result
  by_cases leaked : (!env.addInodesLock && env.addSbLock) = true
  · rw [if_pos leaked] at result
    cases result
  rw [if_neg leaked] at result
  by_cases saveLock : env.saveLock = true
  · rw [if_pos saveLock] at result
    cases result
  rw [if_neg saveLock] at result
  refine ⟨admits, by simpa [added] using leaked, ?_⟩
  cases home : (fs.takeBlock (firstFree fs.super.freeBlocks)).parentSlot env dir name
      (fs.newInode umode) with
  | none =>
      rw [home] at result
      cases result
  | some slot =>
      rw [home] at result
      cases result
      exact ⟨rfl, slot, rfl, rfl⟩

theorem created_saveSlot (fs : Fs) {env : CreateEnv} (dir : Nat) (name : List UInt8)
    (umode : BitVec 16) (added : env.addInodesLock = false) (addedSb : env.addSbLock = false)
    (slot : Nat) :
    Created fs (((fs.takeBlock (firstFree fs.super.freeBlocks)).counted env dir name
      (fs.newInode umode)).saveSlot slot (fs.mem dir).addChild) dir name (fs.newInode umode) slot := by
  refine ⟨?_, ?_, ?_, ?_⟩
  · rw [saveSlot_super, counted_super _ dir name _ added addedSb]
    rfl
  · rw [saveSlot_store, counted_store _ dir name _ added addedSb]
    rfl
  · funext block
    rw [saveSlot_records]
    change (Fs.linked _ env dir name (fs.newInode umode)).records block = _
    rw [linked_records, show (fs.takeBlock _).records = fs.records from
      funext (takeBlock_records fs _)]
    rfl
  · rw [saveSlot_mem, counted_mem]
    rfl

/-- The inode store as far as it is counted. -/
def Fs.slots (fs : Fs) : Store :=
  fun i => if i < fs.super.inodesCount then fs.store i else nullInode

theorem slots_inside {fs : Fs} {i : Nat} (inside : i < fs.super.inodesCount) :
    fs.slots i = fs.store i := if_pos inside

/-- The four tables agree with each other, with the inodes in memory and with the tree. -/
structure Coherent (traced : Traced) (links : Links) : Prop where
  image : Image traced.vfs.fs.super traced.vfs.fs.records links (· = traced.vfs.fs.slots)
  full : ∀ i, i < traced.vfs.fs.super.inodesCount → (traced.vfs.fs.store i).Used
  memory : ∀ ino, traced.vfs.live ino = true → ∃ slot, slot < traced.vfs.fs.super.inodesCount ∧
    slot ≠ journalSlot ∧ traced.vfs.fs.mem ino = traced.vfs.fs.store slot ∧ ino = slotNumber slot
  entries : ∀ i, i < traced.vfs.fs.super.inodesCount → i ≠ journalSlot →
    sIsdir (traced.vfs.fs.store i).mode = true →
    ∀ index, index < (traced.vfs.fs.store i).dirChildrenCount →
      traced.tree (slotNumber i)
          (traced.vfs.fs.records (traced.vfs.fs.store i).dataBlockNumber index).filename =
        some (links (traced.vfs.fs.store i).dataBlockNumber index)
  listed : ∀ dir name inode, traced.tree dir name = some inode →
    ∃ i, i < traced.vfs.fs.super.inodesCount ∧ dir = slotNumber i ∧
      ∃ index, index < (traced.vfs.fs.store i).dirChildrenCount ∧
        (traced.vfs.fs.records (traced.vfs.fs.store i).dataBlockNumber index).filename = name
  magic : traced.vfs.fs.super.magic = dadfsMagic
  blockSize : traced.vfs.fs.super.blockSize = defaultBlockSize

section Coherence

variable {traced : Traced} {links : Links}

theorem Coherent.number (coherent : Coherent traced links) {i : Nat}
    (inside : i < traced.vfs.fs.super.inodesCount) :
    (traced.vfs.fs.store i).inodeNo = slotNumber i := by
  have numbered := coherent.image.stores.numbered traced.vfs.fs.slots rfl i
  rw [slots_inside inside] at numbered
  exact numbered (coherent.full i inside)

theorem Coherent.firstSlot (coherent : Coherent traced links) {i : Nat}
    (inside : i < traced.vfs.fs.super.inodesCount) :
    FirstSlot traced.vfs.fs.store (slotNumber i) 0 i := by
  refine ⟨Nat.zero_le i, coherent.number inside, ?_⟩
  intro j _ before same
  rw [coherent.number (Nat.lt_trans before inside)] at same
  have equal := slotNumber_inj same
  omega

theorem Coherent.iget (coherent : Coherent traced links) {i : Nat}
    (inside : i < traced.vfs.fs.super.inodesCount) :
    dadfsIget traced.vfs.fs (slotNumber i) = .attached (traced.vfs.fs.store i) := by
  unfold dadfsIget
  rw [getInode_eq (coherent.firstSlot inside) (by omega)]

theorem Coherent.numbersApart (coherent : Coherent traced links) : traced.vfs.NumbersApart := by
  intro i j left right apart same
  rw [coherent.number left, coherent.number right] at same
  exact apart (slotNumber_inj same)

end Coherence

/-- What a lookup attaches, with the slot it is in. -/
theorem Coherent.lookup {traced : Traced} {links : Links} (coherent : Coherent traced links)
    {dir : Nat} (name : List UInt8) (directory : traced.vfs.IsDirectory dir) :
    (dadfsLookup traced.vfs.fs dir name = .notFound ∧ traced.tree dir name = none) ∨
      ∃ slot inode, slot < traced.vfs.fs.super.inodesCount ∧ slot ≠ journalSlot ∧
        dadfsLookup traced.vfs.fs dir name = .attached (traced.vfs.fs.store slot) ∧
        traced.tree dir name = some inode ∧ SameObject inode (traced.vfs.fs.store slot) := by
  obtain ⟨home, inside, notJournal, mem, number⟩ := coherent.memory dir directory.1
  have kind := directory.2
  rw [mem] at kind
  unfold dadfsLookup
  rw [mem]
  dsimp only
  cases found : findRecord (traced.vfs.fs.bufs (traced.vfs.fs.store home).dataBlockNumber).records
      name (traced.vfs.fs.store home).dirChildrenCount 0 with
  | none =>
      refine Or.inl ⟨rfl, ?_⟩
      by_contra present
      obtain ⟨inode, entry⟩ := Option.ne_none_iff_exists'.mp present
      obtain ⟨i, _, same, index, below, text⟩ := coherent.listed dir name inode entry
      obtain rfl := slotNumber_inj (number.symm.trans same)
      exact findRecord_none found index (Nat.zero_le _) (by omega) text
  | some record =>
      obtain ⟨index, below, rfl, text⟩ := findRecord_some found
      rw [Nat.zero_add] at below
      have entry := coherent.entries home inside notJournal kind index below
      have names := coherent.image.named traced.vfs.fs.slots rfl home
      rw [slots_inside inside] at names
      obtain ⟨numbered, _, slot, counted, apart, same⟩ :=
        names notJournal (coherent.full home inside) kind index below
      rw [slots_inside counted] at same
      refine Or.inr ⟨slot, _, counted, apart, ?_, ?_, same⟩
      · change dadfsIget traced.vfs.fs (traced.vfs.fs.records _ index).inodeNo = _
        rw [numbered, same.inodeNo, coherent.number counted, coherent.iget counted]
      · rw [number, ← text]
        exact entry

theorem Coherent.refines {traced : Traced} {links : Links} (coherent : Coherent traced links) :
    traced.vfs.Refines traced.tree := by
  intro dir name directory
  rcases coherent.lookup name directory with ⟨result, absent⟩ | ⟨slot, inode, _, _, result, entry, same⟩
  · rw [result, absent]
    trivial
  · rw [result, entry]
    exact same

theorem Coherent.attach {traced : Traced} {links : Links} (coherent : Coherent traced links)
    {slot : Nat} (inside : slot < traced.vfs.fs.super.inodesCount)
    (notJournal : slot ≠ journalSlot) :
    Coherent { traced with vfs := traced.vfs.attach (traced.vfs.fs.store slot) } links := by
  refine ⟨coherent.image, coherent.full, ?_, coherent.entries, coherent.listed, coherent.magic,
    coherent.blockSize⟩
  intro ino live
  have number := coherent.number inside
  by_cases here : ino = (traced.vfs.fs.store slot).inodeNo
  · refine ⟨slot, inside, notJournal, ?_, here.trans number⟩
    change Function.update _ _ _ ino = _
    rw [here, Function.update_self]
    rfl
  · have live : Function.update traced.vfs.live _ true ino = true := live
    rw [Function.update_of_ne here] at live
    obtain ⟨home, below, apart, mem, same⟩ := coherent.memory ino live
    refine ⟨home, below, apart, ?_, same⟩
    change Function.update _ _ _ ino = _
    rw [Function.update_of_ne here]
    exact mem

theorem Coherent.lookupStep {traced : Traced} {links : Links} (coherent : Coherent traced links)
    {dir : Nat} (name : List UInt8) (directory : traced.vfs.IsDirectory dir) :
    Coherent (traced.next (.lookup dir name)) links := by
  change Coherent { traced with vfs := traced.vfs.lookup dir name } links
  unfold Vfs.lookup
  rcases coherent.lookup name directory with ⟨result, -⟩ |
    ⟨slot, inode, inside, notJournal, result, -⟩
  · rw [result]
    exact coherent
  · rw [result]
    exact coherent.attach inside notJournal

theorem Coherent.fillSuper {traced : Traced} {links : Links} (coherent : Coherent traced links) :
    dadfsFillSuper traced.vfs.fs.bufs =
      some (mounted traced.vfs.fs.bufs (traced.vfs.fs.store 0)) := by
  have lower : 3 ≤ traced.vfs.fs.super.inodesCount := coherent.image.lower
  have found : dadfsGetInode traced.vfs.fs.store rootdirInodeNumber
      traced.vfs.fs.super.inodesCount 0 = some (traced.vfs.fs.store 0) :=
    getInode_eq (coherent.firstSlot (show 0 < traced.vfs.fs.super.inodesCount by omega)) (by omega)
  unfold dadfsFillSuper
  rw [if_neg (not_not.mpr coherent.magic), if_neg (not_not.mpr coherent.blockSize)]
  exact congrArg (Option.map (mounted traced.vfs.fs.bufs)) found

theorem Coherent.remount {traced : Traced} {links : Links} (coherent : Coherent traced links) :
    Coherent (traced.next .remount) links := by
  change Coherent { traced with vfs := (dadfsFillSuper traced.vfs.fs.bufs).getD traced.vfs } links
  rw [coherent.fillSuper]
  refine ⟨coherent.image, coherent.full, ?_, coherent.entries, coherent.listed, coherent.magic,
    coherent.blockSize⟩
  intro ino live
  have lower : 3 ≤ traced.vfs.fs.super.inodesCount := coherent.image.lower
  have root : ino = rootdirInodeNumber := by simpa [mounted] using live
  subst root
  refine ⟨0, ?_, by decide, ?_, rfl⟩
  · change 0 < traced.vfs.fs.super.inodesCount
    omega
  · change Function.update (fun _ => nullInode) rootdirInodeNumber (traced.vfs.fs.store 0)
      rootdirInodeNumber = traced.vfs.fs.store 0
    rw [Function.update_self]

/-- What is known when a creation has returned 0: where its parent is, and what it made. -/
structure Creation (traced : Traced) (call : Call) (home : Nat) (fs' : Fs) : Prop where
  admits : traced.vfs.fs.Admits call.env call.mode
  inside : home < traced.vfs.fs.super.inodesCount
  notJournal : home ≠ journalSlot
  parent : traced.vfs.fs.mem call.dir = traced.vfs.fs.store home
  number : call.dir = slotNumber home
  directory : sIsdir (traced.vfs.fs.store home).mode = true
  absent : traced.tree call.dir call.name = none
  created : Created traced.vfs.fs fs' call.dir call.name (traced.vfs.fs.newInode call.mode) home

section Creating

variable {traced : Traced} {links : Links} {call : Call} {home : Nat} {fs' : Fs}

theorem Creation.count (creation : Creation traced call home fs') :
    fs'.super.inodesCount = traced.vfs.fs.super.inodesCount + 1 := by
  rw [creation.created.super]

theorem Creation.store_new (creation : Creation traced call home fs') :
    fs'.store traced.vfs.fs.super.inodesCount = traced.vfs.fs.newInode call.mode := by
  have inside := creation.inside
  rw [creation.created.store, Function.update_of_ne (by omega), Function.update_self]

theorem Creation.store_parent (creation : Creation traced call home fs') :
    fs'.store home = (traced.vfs.fs.store home).addChild := by
  rw [creation.created.store, Function.update_self, creation.parent]

theorem Creation.store_other (creation : Creation traced call home fs') {i : Nat}
    (inside : i < traced.vfs.fs.super.inodesCount) (apart : i ≠ home) :
    fs'.store i = traced.vfs.fs.store i := by
  rw [creation.created.store, Function.update_of_ne apart, Function.update_of_ne (by omega)]

theorem Creation.slots (creation : Creation traced call home fs') :
    fs'.slots = Function.update (Function.update traced.vfs.fs.slots
      traced.vfs.fs.super.inodesCount (traced.vfs.fs.newInode call.mode)) home
      (traced.vfs.fs.store home).addChild := by
  have inside := creation.inside
  funext i
  by_cases parent : i = home
  · subst parent
    rw [slots_inside (by rw [creation.count]; omega), creation.store_parent, Function.update_self]
  rw [Function.update_of_ne parent]
  by_cases new : i = traced.vfs.fs.super.inodesCount
  · subst new
    rw [slots_inside (by rw [creation.count]; omega), creation.store_new, Function.update_self]
  rw [Function.update_of_ne new]
  unfold Fs.slots
  rw [creation.count]
  by_cases below : i < traced.vfs.fs.super.inodesCount
  · rw [if_pos (by omega), if_pos below, creation.store_other below parent]
  · rw [if_neg (by omega), if_neg below]

/-- The image after the four writes, from the stages of a creation. -/
theorem Creation.image (creation : Creation traced call home fs')
    (coherent : Coherent traced links) :
    Image fs'.super fs'.records
      (links.put (traced.vfs.fs.store home).dataBlockNumber
        (traced.vfs.fs.store home).dirChildrenCount (traced.vfs.fs.newInode call.mode))
      (· = fs'.slots) := by
  have found := creation.admits.block
  obtain ⟨above, low, free⟩ := coherent.image.tracked.firstFree found
  have inside := creation.inside
  have newest : Newest (· = traced.vfs.fs.slots) traced.vfs.fs.slots :=
    ⟨rfl, fun other known i => known ▸ Nat.le_refl _⟩
  have placed : Placed traced.vfs.fs.super.inodesCount traced.vfs.fs.records links
      traced.vfs.fs.slots home (traced.vfs.fs.store home) := by
    have same := slots_inside inside
    have named := coherent.image.named traced.vfs.fs.slots rfl home
    rw [same] at named
    refine ⟨inside, creation.notJournal, ?_, ?_, ?_,
      named creation.notJournal (coherent.full home inside)⟩
    · rw [same]
      exact coherent.full home inside
    · rw [same]
      exact .refl _
    · rw [same]
  have number : (traced.vfs.fs.newInode call.mode).inodeNo =
      slotNumber traced.vfs.fs.super.inodesCount :=
    (if_neg (Nat.not_lt.mpr coherent.image.lower)).symm
  have blank : (traced.vfs.fs.slots traced.vfs.fs.super.inodesCount).size = 0 := by
    rw [Fs.slots, if_neg (Nat.lt_irrefl _)]
    rfl
  have added := (coherent.image.takeBlock found).addInode rfl number rfl
    ⟨above, low, getLsbD_unmask_self _ low⟩
    (fun other known i => coherent.image.stores.unowned above free known)
  have counted := added.countInode creation.admits.room
  have newest' := newest.extend (show (traced.vfs.fs.slots traced.vfs.fs.super.inodesCount).size ≤
    (traced.vfs.fs.newInode call.mode).size from Nat.le_of_eq blank)
  have placed' := (placed.addInode (traced.vfs.fs.newInode call.mode)).countInode
  let record := newRecord call.name (traced.vfs.fs.newInode call.mode)
  have recorded := counted.appendRecord record (traced.vfs.fs.newInode call.mode)
    (counted.uncounted newest' placed')
  have placed'' := placed'.appendOwn record (traced.vfs.fs.newInode call.mode)
  have grown := placed''.addChild (by
    rw [Records.put, Links.put, put_same, put_same]
    exact names_new coherent.image.lower _ call.name (Nat.succ_ne_zero _))
  have saved := recorded.saveInode newest'.member placed''.used placed''.inside
    (placed''.same.trans (.addChild _)) grown.named
  rw [creation.created.super, creation.created.records, creation.parent]
  exact saved.sub fun store same => Or.inr (same.trans creation.slots)

theorem Creation.memory (creation : Creation traced call home fs')
    (coherent : Coherent traced links) (ino : Nat) (live : traced.vfs.live ino = true) :
    ∃ slot, slot < fs'.super.inodesCount ∧ slot ≠ journalSlot ∧ fs'.mem ino = fs'.store slot ∧
      ino = slotNumber slot := by
  rw [creation.count, creation.created.mem]
  by_cases parent : ino = call.dir
  · subst parent
    have inside := creation.inside
    refine ⟨home, by omega, creation.notJournal, ?_, creation.number⟩
    rw [Function.update_self, creation.store_parent, creation.parent]
  · obtain ⟨slot, inside, notJournal, mem, number⟩ := coherent.memory ino live
    have apart : slot ≠ home := by
      intro same
      exact parent (number.trans (same ▸ creation.number.symm))
    refine ⟨slot, by omega, notJournal, ?_, number⟩
    rw [Function.update_of_ne parent, creation.store_other inside apart, mem]

theorem Creation.full (creation : Creation traced call home fs')
    (coherent : Coherent traced links) (i : Nat) (inside : i < fs'.super.inodesCount) :
    (fs'.store i).Used := by
  rw [creation.count] at inside
  by_cases parent : i = home
  · subst parent
    rw [creation.store_parent]
    exact coherent.full i creation.inside
  by_cases new : i = traced.vfs.fs.super.inodesCount
  · subst new
    rw [creation.store_new]
    exact Nat.succ_ne_zero _
  rw [creation.store_other (by omega) parent]
  exact coherent.full i (by omega)

/-- Other slots than the parent's have other blocks, whose records stay. -/
theorem Creation.records_other (creation : Creation traced call home fs')
    (coherent : Coherent traced links) {i : Nat} (inside : i < traced.vfs.fs.super.inodesCount)
    {index : Nat} (below : i = home → index < (traced.vfs.fs.store i).dirChildrenCount) :
    fs'.records (traced.vfs.fs.store i).dataBlockNumber index =
      traced.vfs.fs.records (traced.vfs.fs.store i).dataBlockNumber index ∧
    links.put (traced.vfs.fs.store home).dataBlockNumber
        (traced.vfs.fs.store home).dirChildrenCount (traced.vfs.fs.newInode call.mode)
        (traced.vfs.fs.store i).dataBlockNumber index =
      links (traced.vfs.fs.store i).dataBlockNumber index := by
  have apart : (traced.vfs.fs.store i).dataBlockNumber =
      (traced.vfs.fs.store home).dataBlockNumber →
      index ≠ (traced.vfs.fs.store home).dirChildrenCount := by
    intro same
    have slot := coherent.image.stores.apart traced.vfs.fs.slots traced.vfs.fs.slots rfl rfl i home
    rw [slots_inside inside, slots_inside creation.inside] at slot
    obtain ⟨rfl, -⟩ := slot (coherent.full i inside) (coherent.full home creation.inside) same
    exact Nat.ne_of_lt (below rfl)
  rw [creation.created.records, creation.parent, Records.put, Links.put]
  exact ⟨put_other _ _ apart, put_other _ _ apart⟩

theorem Creation.entries (creation : Creation traced call home fs')
    (coherent : Coherent traced links) (i : Nat) (inside : i < fs'.super.inodesCount)
    (notJournal : i ≠ journalSlot) (directory : sIsdir (fs'.store i).mode = true) (index : Nat)
    (below : index < (fs'.store i).dirChildrenCount) :
    traced.tree.insert call.dir call.name (traced.vfs.fs.newInode call.mode) (slotNumber i)
        (fs'.records (fs'.store i).dataBlockNumber index).filename =
      some (links.put (traced.vfs.fs.store home).dataBlockNumber
        (traced.vfs.fs.store home).dirChildrenCount (traced.vfs.fs.newInode call.mode)
        (fs'.store i).dataBlockNumber index) := by
  rw [creation.count] at inside
  by_cases new : i = traced.vfs.fs.super.inodesCount
  · subst new
    rw [creation.store_new] at below
    exact absurd below (Nat.not_lt_zero index)
  have inside : i < traced.vfs.fs.super.inodesCount := by omega
  by_cases parent : i = home
  · subst parent
    rw [creation.store_parent] at directory below ⊢
    change index < (traced.vfs.fs.store i).dirChildrenCount + 1 at below
    change traced.tree.insert _ _ _ _ (fs'.records (traced.vfs.fs.store i).dataBlockNumber
      index).filename = some (links.put _ _ _ (traced.vfs.fs.store i).dataBlockNumber index)
    by_cases last : index = (traced.vfs.fs.store i).dirChildrenCount
    · subst last
      rw [creation.created.records, creation.parent, Records.put, Links.put, put_same, put_same,
        ← creation.number]
      exact insert_self traced.tree call.dir call.name _
    · have old : index < (traced.vfs.fs.store i).dirChildrenCount := by omega
      obtain ⟨record, link⟩ := creation.records_other coherent inside (fun _ => old)
      have entry := coherent.entries i inside notJournal directory index old
      rw [record, link, insert_other, entry]
      intro _ taken
      rw [taken, ← creation.number, creation.absent] at entry
      cases entry
  · rw [creation.store_other inside parent] at directory below ⊢
    obtain ⟨record, link⟩ := creation.records_other coherent inside (fun same => absurd same parent)
    rw [record, link, insert_other]
    · exact coherent.entries i inside notJournal directory index below
    · intro same
      rw [creation.number] at same
      exact absurd (slotNumber_inj same) parent

theorem Creation.listed (creation : Creation traced call home fs')
    (coherent : Coherent traced links) (dir : Nat) (name : List UInt8) (inode : Inode)
    (entry : traced.tree.insert call.dir call.name (traced.vfs.fs.newInode call.mode) dir name =
      some inode) :
    ∃ i, i < fs'.super.inodesCount ∧ dir = slotNumber i ∧
      ∃ index, index < (fs'.store i).dirChildrenCount ∧
        (fs'.records (fs'.store i).dataBlockNumber index).filename = name := by
  have homeInside := creation.inside
  rw [creation.count]
  by_cases here : dir = call.dir ∧ name = call.name
  · obtain ⟨rfl, rfl⟩ := here
    refine ⟨home, by omega, creation.number, (traced.vfs.fs.store home).dirChildrenCount, ?_⟩
    rw [creation.store_parent]
    refine ⟨Nat.lt_succ_self _, ?_⟩
    change (fs'.records (traced.vfs.fs.store home).dataBlockNumber _).filename = _
    rw [creation.created.records, creation.parent, Records.put, put_same]
    rfl
  · rw [insert_other _ _ fun same text => here ⟨same, text⟩] at entry
    obtain ⟨i, inside, number, index, below, text⟩ := coherent.listed dir name inode entry
    obtain ⟨record, -⟩ := creation.records_other coherent inside (fun _ => below)
    refine ⟨i, by omega, number, index, ?_⟩
    by_cases parent : i = home
    · subst parent
      rw [creation.store_parent]
      refine ⟨Nat.lt_succ_of_lt below, ?_⟩
      rw [← text, ← record]
      rfl
    · rw [creation.store_other inside parent, record]
      exact ⟨below, text⟩

/-- The invariant before the new inode is attached to its dentry. -/
theorem Creation.coherent (creation : Creation traced call home fs')
    (coherent : Coherent traced links) :
    Coherent
      { vfs := { traced.vfs with fs := fs' }
        tree := traced.tree.insert call.dir call.name (traced.vfs.fs.newInode call.mode) }
      (links.put (traced.vfs.fs.store home).dataBlockNumber
        (traced.vfs.fs.store home).dirChildrenCount (traced.vfs.fs.newInode call.mode)) := by
  refine ⟨creation.image coherent, creation.full coherent, creation.memory coherent,
    creation.entries coherent, creation.listed coherent, ?_, ?_⟩
  · change fs'.super.magic = _
    rw [creation.created.super]
    exact coherent.magic
  · change fs'.super.blockSize = _
    rw [creation.created.super]
    exact coherent.blockSize

end Creating

/-- A creation that is allowed and adds its inode. -/
theorem Coherent.creation {traced : Traced} {links : Links} (coherent : Coherent traced links)
    {call : Call} (creates : traced.vfs.Creates call)
    (adds : call.env.addInodesLock = false) :
    ∃ home fs', Creation traced call home fs' ∧
      call.exec.run traced.vfs.fs = .ok (0, some (traced.vfs.fs.newInode call.mode)) fs' := by
  obtain ⟨attached, fs', result⟩ := creates.succeeds
  obtain ⟨home, inside, notJournal, parent, number⟩ :=
    coherent.memory call.dir creates.permits.live
  have directory := creates.permits.directory
  rw [parent] at directory
  rw [call.exec_eq] at result
  obtain ⟨admits, addedSb, rfl, slot, found, rfl⟩ := create_zero adds result
  have first : FirstSlot traced.vfs.fs.store (traced.vfs.fs.mem call.dir).inodeNo 0 home := by
    rw [parent, coherent.number inside]
    exact coherent.firstSlot inside
  have same : slot = home := by
    rw [parentSlot_eq call.name (traced.vfs.fs.newInode call.mode) adds addedSb
      (show FirstSlot (traced.vfs.fs.takeBlock _).store _ 0 home from first) inside] at found
    exact (Option.some.inj found).symm
  subst same
  have absent : traced.tree call.dir call.name = none := by
    rcases coherent.lookup call.name ⟨creates.permits.live, creates.permits.directory⟩ with
      ⟨-, absent⟩ | ⟨_, _, _, _, attached, -⟩
    · exact absent
    · cases creates.absent.symm.trans attached
  refine ⟨slot, _, ⟨admits, inside, notJournal, parent, number, directory, absent,
    created_saveSlot traced.vfs.fs call.dir call.name call.mode adds addedSb slot⟩, ?_⟩
  rw [call.exec_eq, result]

theorem Coherent.createStep {traced : Traced} {links : Links} (coherent : Coherent traced links)
    {call : Call} (creates : traced.vfs.Creates call)
    (adds : call.env.addInodesLock = false) :
    ∃ links, Coherent (traced.next (.create call)) links ∧
      (traced.next (.create call)).tree =
        traced.tree.insert call.dir call.name (traced.vfs.fs.newInode call.mode) := by
  obtain ⟨home, fs', creation, result⟩ := coherent.creation creates adds
  have next : traced.next (.create call) =
      { vfs := { traced.vfs with fs := fs' }.attach
          (fs'.store traced.vfs.fs.super.inodesCount)
        tree := traced.tree.insert call.dir call.name (traced.vfs.fs.newInode call.mode) } := by
    simp only [Traced.next, Vfs.call, Call.attached, result, creation.store_new]
  rw [next]
  have lower : 3 ≤ traced.vfs.fs.super.inodesCount := coherent.image.lower
  refine ⟨_, (creation.coherent coherent).attach ?_ ?_, rfl⟩
  · change traced.vfs.fs.super.inodesCount < fs'.super.inodesCount
    rw [creation.count]
    omega
  · change traced.vfs.fs.super.inodesCount ≠ 1
    omega

/-- The freshly made image, mounted. -/
def treeStart (dev : Device) : Traced :=
  { vfs := mounted (mkfs correctedFreeBlocks dev) rootInode, tree := mkfsTree }

theorem treeStart_coherent (dev : Device) :
    Coherent (treeStart dev) fun _ _ => welcomeInode := by
  have count : (treeStart dev).vfs.fs.super.inodesCount = 3 := rfl
  have store (i : Nat) : (treeStart dev).vfs.fs.store i = mkfsInodes dev i := rfl
  refine ⟨?_, ?_, ?_, ?_, ?_, rfl, rfl⟩
  · refine mkfs_image dev ?_ ?_ (by rfl) rfl
    · intro i low
      rw [slots_inside (by rw [count]; exact low), store]
    · intro i high
      rw [Fs.slots, if_neg (by rw [count]; exact Nat.not_lt.mpr high)]
  · intro i inside
    rw [store]
    unfold Inode.Used
    rw [(mkfsInodes_place dev (show i < 3 from inside)).1]
    exact slotNumber_ne_zero i
  · intro ino live
    have root : ino = rootdirInodeNumber := by simpa [treeStart, mounted] using live
    subst root
    exact ⟨0, show 0 < 3 by decide, by decide, rfl, rfl⟩
  · intro i inside notJournal directory index below
    rw [store] at directory below ⊢
    match i, inside with
    | 0, _ =>
        have first : index = 0 := by
          have below : index < 1 := below
          omega
        subst first
        exact insert_self (fun _ _ => none) rootdirInodeNumber welcomeName welcomeInode
    | 1, _ => exact absurd rfl notJournal
    | 2, _ => exact absurd directory (show ¬ sIsdir welcomeInode.mode = true by decide)
  · intro dir name inode entry
    have entry : Tree.insert (fun _ _ => none) rootdirInodeNumber welcomeName welcomeInode dir name =
      some inode := entry
    by_cases here : dir = rootdirInodeNumber ∧ name = welcomeName
    · obtain ⟨rfl, rfl⟩ := here
      exact ⟨0, show 0 < 3 by decide, rfl, 0, show 0 < 1 by decide, rfl⟩
    · rw [insert_other _ _ fun same text => here ⟨same, text⟩] at entry
      cases entry

theorem Coherent.step {traced : Traced} (coherent : ∃ links, Coherent traced links)
    {event : Event} (allowed : traced.Allows event) (adds : event.AddsInode) :
    ∃ links, Coherent (traced.next event) links := by
  obtain ⟨links, coherent⟩ := coherent
  cases event with
  | create call =>
      obtain ⟨links, next, -⟩ := coherent.createStep allowed adds
      exact ⟨links, next⟩
  | lookup dir name => exact ⟨links, coherent.lookupStep name allowed⟩
  | remount => exact ⟨links, coherent.remount⟩

/-- Two lookups come to the same: nothing both times, or one object. -/
def Lookup.Same : Lookup → Lookup → Prop
  | .attached left, .attached right => SameObject left right
  | .notFound, .notFound => True
  | _, _ => False

theorem Lookup.Gives.same {left right : Lookup} {entry : Option Inode} (first : left.Gives entry)
    (second : right.Gives entry) : left.Same right := by
  cases entry with
  | none => cases left <;> cases right <;> trivial
  | some inode =>
      cases left with
      | attached found =>
          cases right with
          | attached other => exact SameObject.trans (SameObject.symm first) second
          | notFound => exact second.elim
          | oops => exact second.elim
      | notFound => exact first.elim
      | oops => exact first.elim

/-- The inodes in memory stay there across a creation. -/
theorem Coherent.isDirectory_create {traced : Traced} {links : Links}
    (coherent : Coherent traced links) {call : Call} (creates : traced.vfs.Creates call)
    (adds : call.env.addInodesLock = false) {dir : Nat} (directory : traced.vfs.IsDirectory dir) :
    (traced.next (.create call)).vfs.IsDirectory dir := by
  obtain ⟨home, fs', creation, result⟩ := coherent.creation creates adds
  obtain ⟨slot, inside, -, mem, number⟩ := coherent.memory dir directory.1
  have kept : dir ≠ (traced.vfs.fs.newInode call.mode).inodeNo := by
    intro same
    have lower := coherent.image.lower
    rw [show (traced.vfs.fs.newInode call.mode).inodeNo =
      slotNumber traced.vfs.fs.super.inodesCount from (if_neg (Nat.not_lt.mpr lower)).symm,
      number] at same
    have equal := slotNumber_inj same
    omega
  have vfs : (traced.next (.create call)).vfs =
      { traced.vfs with fs := fs' }.attach (traced.vfs.fs.newInode call.mode) := by
    simp only [Traced.next, Vfs.call, result]
  rw [vfs]
  constructor
  · change Function.update traced.vfs.live _ true dir = true
    rw [Function.update_of_ne kept]
    exact directory.1
  · change sIsdir (Function.update fs'.mem _ _ dir).mode = true
    rw [Function.update_of_ne kept, creation.created.mem]
    by_cases parent : dir = call.dir
    · subst parent
      rw [Function.update_self]
      exact directory.2
    · rw [Function.update_of_ne parent]
      exact directory.2

/-- What the tree keeps to in every state of a run. -/
structure Traced.Faithful (traced : Traced) : Prop where
  refines : traced.vfs.Refines traced.tree
  apart : traced.vfs.NumbersApart
  mounts : ∃ vfs, dadfsFillSuper traced.vfs.fs.bufs = some vfs
  others : ∀ call, traced.Allows (.create call) → call.env.addInodesLock = false →
    ∀ dir name, traced.vfs.IsDirectory dir → (dir = call.dir → name ≠ call.name) →
      (dadfsLookup traced.vfs.fs dir name).Same
        (dadfsLookup (traced.next (.create call)).vfs.fs dir name)

theorem Coherent.faithful {traced : Traced} {links : Links} (coherent : Coherent traced links) :
    traced.Faithful := by
  refine ⟨coherent.refines, coherent.numbersApart, ⟨_, coherent.fillSuper⟩, ?_⟩
  intro call creates adds dir name directory apart
  obtain ⟨links, next, tree⟩ := coherent.createStep creates adds
  have before := coherent.refines dir name directory
  have after := next.refines dir name (coherent.isDirectory_create creates adds directory)
  rw [tree, insert_other _ _ apart] at after
  exact before.same after

/-- From the image of mkfs with the corrected free map, over every run of successful
creations, lookups and remounts whose creations add their inode: the directories refine the
tree, the stored numbers differ, and a creation changes no other entry. -/
theorem run_faithful (dev : Device) (events : List Event)
    (allowed : EveryStep Traced.next (fun traced event => traced.Allows event ∧ event.AddsInode)
      (treeStart dev) events) :
    (run Traced.next (treeStart dev) events).Faithful := by
  obtain ⟨links, coherent⟩ := run_invariant (fun traced => ∃ links, Coherent traced links)
    (fun _ _ coherent permitted => Coherent.step coherent permitted.1 permitted.2)
    ⟨_, treeStart_coherent dev⟩ allowed
  exact coherent.faithful

/-- A directory is made, the disk remounted, and the directory looked up. -/
theorem run_faithful_remounted :
    (run Traced.next (treeStart zeroDevice)
      [.create { createFile 100 with umode := 0o755, mkdir := true }, .remount,
        .lookup rootdirInodeNumber [100]]).Faithful :=
  run_faithful zeroDevice _
    ⟨⟨⟨by decide +kernel, by decide +kernel, by unfold Inode.HasRoom; decide +kernel,
        ⟨_, _, rfl⟩⟩, rfl⟩,
      ⟨trivial, trivial⟩, ⟨⟨by decide +kernel, by decide +kernel⟩, trivial⟩, trivial⟩

/-- A creation that returns 0 although a signal interrupted `dadfs_inode_add`: the name is
there, and looking it up is an oops. -/
theorem silent_creation_oops :
    (treeStart zeroDevice).Allows
        (.create { createFile 97 with env := { addInodesLock := true } }) ∧
      ¬ (run Traced.next (treeStart zeroDevice)
        [.create { createFile 97 with env := { addInodesLock := true } }]).Faithful := by
  refine ⟨⟨by decide +kernel, by decide +kernel, by unfold Inode.HasRoom; decide +kernel,
    ⟨_, _, rfl⟩⟩, fun faithful => ?_⟩
  have gives := faithful.refines rootdirInodeNumber [97] ⟨by decide +kernel, by decide +kernel⟩
  rw [show dadfsLookup _ rootdirInodeNumber [97] = .oops by decide +kernel] at gives
  exact not_gives_oops _ gives

end Ve482.Dadfs
