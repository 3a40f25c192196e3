import Ve482.Dadfs.Iterate
import Ve482.Dadfs.Tree

set_option autoImplicit false

namespace Ve482.Dadfs

open Function (update)
open Runs (EveryStep run run_invariant)

/-! The abstract side: the names in each directory, in the order in which they were made. -/

structure Named where
  traced : Traced
  names : Nat → List (List UInt8)

def Named.next (named : Named) (event : Event) : Named where
  traced := named.traced.next event
  names := match event with
    | .create call => update named.names call.dir (named.names call.dir ++ [call.name])
    | .lookup _ _ | .remount => named.names

/-- The fresh image has the welcome file in its root. -/
def namesStart (dev : Device) : Named where
  traced := treeStart dev
  names := update (fun _ => []) rootdirInodeNumber [welcomeName]

/-- The names of the records of a directory in the store. -/
def Fs.namesAt (fs : Fs) (slot : Nat) : List (List UInt8) :=
  (List.range (fs.store slot).dirChildrenCount).map fun index =>
    (fs.records (fs.store slot).dataBlockNumber index).filename

/-- The tables agree with the tree and with the names. -/
structure Named.Kept (named : Named) : Prop where
  coherent : ∃ links, Coherent named.traced links
  recorded : ∀ slot, slot < named.traced.vfs.fs.super.inodesCount → slot ≠ journalSlot →
    sIsdir (named.traced.vfs.fs.store slot).mode = true →
    named.traced.vfs.fs.namesAt slot = named.names (slotNumber slot)
  unused : ∀ slot, named.traced.vfs.fs.super.inodesCount ≤ slot →
    named.names (slotNumber slot) = []
  distinct : ∀ dir, (named.names dir).Nodup

/-- A name that is recorded is in the tree. -/
theorem Coherent.inTree {traced : Traced} {links : Links} (coherent : Coherent traced links)
    {slot : Nat} (inside : slot < traced.vfs.fs.super.inodesCount) (notJournal : slot ≠ journalSlot)
    (directory : sIsdir (traced.vfs.fs.store slot).mode = true) {name : List UInt8}
    (recorded : name ∈ traced.vfs.fs.namesAt slot) :
    ∃ inode, traced.tree (slotNumber slot) name = some inode := by
  obtain ⟨index, within, rfl⟩ := List.mem_map.mp recorded
  exact ⟨_, coherent.entries slot inside notJournal directory index (List.mem_range.mp within)⟩

/-- A name in the tree is recorded. -/
theorem Coherent.isRecorded {traced : Traced} {links : Links} (coherent : Coherent traced links)
    {slot : Nat} {name : List UInt8} {inode : Inode}
    (entry : traced.tree (slotNumber slot) name = some inode) :
    name ∈ traced.vfs.fs.namesAt slot := by
  obtain ⟨i, -, same, index, below, text⟩ := coherent.listed _ name inode entry
  obtain rfl := slotNumber_inj same
  exact List.mem_map.mpr ⟨index, List.mem_range.mpr below, text⟩

theorem namesStart_kept (dev : Device) : (namesStart dev).Kept := by
  refine ⟨⟨_, treeStart_coherent dev⟩, fun slot inside notJournal directory => ?_,
    fun slot above => ?_, fun dir => ?_⟩
  · have small : slot < 3 := inside
    have notFile : slot ≠ 2 := by
      rintro rfl
      exact absurd directory (show ¬ sIsdir welcomeInode.mode = true by decide)
    have root : slot = 0 := by
      unfold journalSlot at notJournal
      omega
    subst root
    rfl
  · have above : 3 ≤ slot := above
    change update (fun _ => []) rootdirInodeNumber [welcomeName] (slotNumber slot) = []
    rw [Function.update_of_ne]
    intro same
    have first : slot = 0 := slotNumber_inj same
    omega
  · change (update (fun _ => []) rootdirInodeNumber [welcomeName] dir).Nodup
    by_cases root : dir = rootdirInodeNumber
    · rw [root, Function.update_self]
      exact List.nodup_singleton welcomeName
    · rw [Function.update_of_ne root]
      exact List.nodup_nil

/-- A creation appends its name to the names of its directory. -/
theorem Creation.namesAt {traced : Traced} {links : Links} {call : Call} {home : Nat} {fs' : Fs}
    (creation : Creation traced call home fs') (coherent : Coherent traced links) {slot : Nat}
    (inside : slot < traced.vfs.fs.super.inodesCount) :
    fs'.namesAt slot = traced.vfs.fs.namesAt slot ++
      if slot = home then [call.name] else [] := by
  unfold Fs.namesAt
  by_cases parent : slot = home
  · subst parent
    rw [if_pos rfl, creation.store_parent]
    change (List.range ((traced.vfs.fs.store slot).dirChildrenCount + 1)).map
      (fun index => (fs'.records (traced.vfs.fs.store slot).dataBlockNumber index).filename) = _
    rw [List.range_succ, List.map_append, List.map_singleton]
    congr 1
    · refine List.map_congr_left fun index within => ?_
      rw [(creation.records_other coherent inside fun _ => List.mem_range.mp within).1]
    · rw [creation.created.records, creation.parent, Records.put, put_same]
      rfl
  · rw [if_neg parent, List.append_nil, creation.store_other inside parent]
    refine List.map_congr_left fun index _ => ?_
    have below : slot = home → index < (traced.vfs.fs.store slot).dirChildrenCount :=
      fun same => absurd same parent
    rw [(creation.records_other coherent inside below).1]

section Steps

variable {named : Named}

theorem Named.Kept.create (kept : named.Kept) {call : Call}
    (creates : named.traced.vfs.Creates call) (adds : call.env.addInodesLock = false) :
    (named.next (.create call)).Kept := by
  obtain ⟨links, coherent⟩ := kept.coherent
  obtain ⟨home, fs', creation, result⟩ := coherent.creation creates adds
  obtain ⟨links', coherent', -⟩ := coherent.createStep creates adds
  have tables : (named.next (.create call)).traced.vfs.fs.bufs = fs'.bufs := by
    change (named.traced.vfs.call call).fs.bufs = fs'.bufs
    unfold Vfs.call
    rw [result]
    rfl
  have count : (named.next (.create call)).traced.vfs.fs.super.inodesCount =
      named.traced.vfs.fs.super.inodesCount + 1 :=
    (congrArg (fun bufs : Disk => (bufs superblockBlockNumber).sb.inodesCount) tables).trans
      creation.count
  have store : (named.next (.create call)).traced.vfs.fs.store = fs'.store :=
    congrArg (fun bufs : Disk => (bufs inodestoreBlockNumber).inodes) tables
  have namesAt (slot : Nat) :
      (named.next (.create call)).traced.vfs.fs.namesAt slot = fs'.namesAt slot := by
    unfold Fs.namesAt Fs.records
    rw [store, tables]
  have homeNames := kept.recorded home creation.inside creation.notJournal creation.directory
  have other {slot : Nat} (apart : slot ≠ home) :
      (named.next (.create call)).names (slotNumber slot) = named.names (slotNumber slot) := by
    change update named.names call.dir _ (slotNumber slot) = _
    rw [creation.number, Function.update_of_ne fun same => apart (slotNumber_inj same)]
  have below := creation.inside
  refine ⟨⟨links', coherent'⟩, fun slot inside notJournal directory => ?_, fun slot above => ?_,
    fun dir => ?_⟩
  · rw [count] at inside
    rw [store] at directory
    rw [namesAt]
    by_cases new : slot = named.traced.vfs.fs.super.inodesCount
    · subst new
      rw [other (by omega), kept.unused _ (Nat.le_refl _)]
      unfold Fs.namesAt
      rw [creation.store_new]
      rfl
    have old : slot < named.traced.vfs.fs.super.inodesCount := by omega
    rw [creation.namesAt coherent old]
    by_cases parent : slot = home
    · subst parent
      change _ = update named.names call.dir _ (slotNumber slot)
      rw [if_pos rfl, homeNames, creation.number, Function.update_self]
    · rw [creation.store_other old parent] at directory
      rw [if_neg parent, List.append_nil, other parent]
      exact kept.recorded slot old notJournal directory
  · rw [count] at above
    rw [other (by omega)]
    exact kept.unused slot (by omega)
  · change (update named.names call.dir (named.names call.dir ++ [call.name]) dir).Nodup
    by_cases parent : dir = call.dir
    · subst parent
      rw [Function.update_self]
      have absent : call.name ∉ named.names call.dir := by
        intro listed
        rw [creation.number, ← homeNames] at listed
        obtain ⟨inode, entry⟩ := coherent.inTree creation.inside creation.notJournal
          creation.directory listed
        have none := creation.absent
        rw [creation.number, entry] at none
        cases none
      exact (kept.distinct call.dir).append (List.nodup_singleton call.name)
        (List.disjoint_singleton.mpr absent)
    · rw [Function.update_of_ne parent]
      exact kept.distinct dir

/-- What is in memory may change as long as the buffers do not. -/
theorem Named.Kept.reopened (kept : named.Kept) {vfs : Vfs}
    (coherent : ∃ links, Coherent { named.traced with vfs := vfs } links)
    (bufs : vfs.fs.bufs = named.traced.vfs.fs.bufs) :
    Named.Kept { named with traced := { named.traced with vfs := vfs } } := by
  have super : vfs.fs.super = named.traced.vfs.fs.super :=
    congrArg (fun bufs : Disk => (bufs superblockBlockNumber).sb) bufs
  have store : vfs.fs.store = named.traced.vfs.fs.store :=
    congrArg (fun bufs : Disk => (bufs inodestoreBlockNumber).inodes) bufs
  have namesAt : vfs.fs.namesAt = named.traced.vfs.fs.namesAt := by
    funext slot
    unfold Fs.namesAt Fs.records
    rw [store, bufs]
  refine ⟨coherent, ?_, ?_, kept.distinct⟩
  · change ∀ slot, slot < vfs.fs.super.inodesCount → slot ≠ journalSlot →
      sIsdir (vfs.fs.store slot).mode = true →
        vfs.fs.namesAt slot = named.names (slotNumber slot)
    rw [super, store, namesAt]
    exact kept.recorded
  · change ∀ slot, vfs.fs.super.inodesCount ≤ slot → named.names (slotNumber slot) = []
    rw [super]
    exact kept.unused

theorem Named.Kept.step (kept : named.Kept) {event : Event}
    (allowed : named.traced.Allows event) (adds : event.AddsInode) :
    (named.next event).Kept := by
  cases event with
  | create call => exact kept.create allowed adds
  | lookup dir name =>
      obtain ⟨links, coherent⟩ := kept.coherent
      refine kept.reopened ⟨links, coherent.lookupStep name allowed⟩ ?_
      unfold Vfs.lookup
      cases dadfsLookup named.traced.vfs.fs dir name with
      | attached inode | notFound | oops => rfl
  | remount =>
      obtain ⟨links, coherent⟩ := kept.coherent
      refine kept.reopened ⟨links, coherent.remount⟩ ?_
      rw [coherent.fillSuper]
      rfl

end Steps

/-- What a listing shows, and what a lookup finds. -/
structure Named.Faithful (named : Named) : Prop where
  distinct : ∀ dir, (named.names dir).Nodup
  lists : ∀ dir, named.traced.vfs.IsDirectory dir → ∀ first rest,
    (listings named.traced.vfs.fs dir 0 (first :: rest)).flatten.map DirRecord.filename =
      (named.names dir).take first
  finds : ∀ dir, named.traced.vfs.IsDirectory dir → ∀ name,
    name ∈ named.names dir ↔
      ∃ inode, dadfsLookup named.traced.vfs.fs dir name = .attached inode

theorem Named.Kept.faithful {named : Named} (kept : named.Kept) : named.Faithful := by
  obtain ⟨links, coherent⟩ := kept.coherent
  have open_names {dir : Nat} (directory : named.traced.vfs.IsDirectory dir) :
      ∃ slot, slot < named.traced.vfs.fs.super.inodesCount ∧ slot ≠ journalSlot ∧
        named.traced.vfs.fs.mem dir = named.traced.vfs.fs.store slot ∧ dir = slotNumber slot ∧
        sIsdir (named.traced.vfs.fs.store slot).mode = true ∧
        named.traced.vfs.fs.namesAt slot = named.names dir := by
    obtain ⟨slot, inside, notJournal, mem, number⟩ := coherent.memory dir directory.1
    have kind := directory.2
    rw [mem] at kind
    exact ⟨slot, inside, notJournal, mem, number, kind,
      number ▸ kept.recorded slot inside notJournal kind⟩
  refine ⟨kept.distinct, fun dir directory first rest => ?_, fun dir directory name => ?_⟩
  · obtain ⟨slot, -, -, mem, -, -, names⟩ := open_names directory
    rw [listings_flatten directory.2, List.map_take, ← names]
    unfold Fs.children Fs.namesAt
    rw [mem, List.map_map]
    rfl
  · obtain ⟨slot, inside, notJournal, -, number, kind, names⟩ := open_names directory
    rw [← names]
    constructor
    · intro recorded
      obtain ⟨inode, entry⟩ := coherent.inTree inside notJournal kind recorded
      rcases coherent.lookup name directory with ⟨-, absent⟩ | ⟨home, -, -, -, found, -⟩
      · rw [number, entry] at absent
        cases absent
      · exact ⟨_, found⟩
    · rintro ⟨inode, attached⟩
      rcases coherent.lookup name directory with ⟨missing, -⟩ | ⟨home, found, -, -, -, entry, -⟩
      · rw [missing] at attached
        cases attached
      · rw [number] at entry
        exact coherent.isRecorded entry

/-- A listing shows what was created: from the image of mkfs with the corrected free map, over
every run of creations that succeed and add their inode, in directories with room, lookups and
remounts, the calls of `dadfs_iterate` on an open directory store the names that were created in
it, each once and in the order of their creation, as far as the first call has room; and those are
the names that a lookup finds. -/
theorem listings_faithful (dev : Device) (events : List Event)
    (allowed : EveryStep Named.next (fun named event => named.traced.Allows event ∧ event.AddsInode)
      (namesStart dev) events) : (run Named.next (namesStart dev) events).Faithful :=
  Named.Kept.faithful (run_invariant Named.Kept
    (fun _ _ kept permitted => kept.step permitted.1 permitted.2) (namesStart_kept dev) allowed)

/-- A directory is made, the disk remounted, the directory looked up, and a file made in it. -/
theorem listings_faithful_nested :
    (run Named.next (namesStart zeroDevice)
      [.create { createFile 100 with umode := 0o755, mkdir := true }, .remount,
        .lookup rootdirInodeNumber [100],
        .create { createFile 97 with dir := slotNumber 3 }]).Faithful :=
  listings_faithful zeroDevice _
    ⟨⟨⟨by decide +kernel, by decide +kernel, by unfold Inode.HasRoom; decide +kernel,
        ⟨_, _, rfl⟩⟩, rfl⟩,
      ⟨trivial, trivial⟩, ⟨⟨by decide +kernel, by decide +kernel⟩, trivial⟩,
      ⟨⟨by decide +kernel, by decide +kernel, by unfold Inode.HasRoom; decide +kernel,
        ⟨_, _, rfl⟩⟩, rfl⟩, trivial⟩

end Ve482.Dadfs
