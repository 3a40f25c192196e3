import Ve482.Dadfs.InodeStore

set_option autoImplicit false

namespace Ve482.Dadfs

/-- The number that mkfs or a creation gives to the inode of a slot. -/
def slotNumber (slot : Nat) : Nat :=
  if slot < reservedInodes then slot + 1 else slot + startIno - reservedInodes + 1

theorem slotNumber_inj {i j : Nat} (same : slotNumber i = slotNumber j) : i = j := by
  simp only [slotNumber, startIno, reservedInodes] at same
  split at same <;> split at same <;> omega

theorem slotNumber_ne_zero (slot : Nat) : slotNumber slot ≠ 0 := by
  unfold slotNumber
  split <;> omega

/-- The blocks of the root directory, the journal and the welcome file. -/
def reservedBlock : Nat → Nat
  | 0 => rootdirDatablockNumber
  | 1 => journalBlockNumber
  | _ => welcomefileDatablockNumber

theorem reservedBlock_lt (slot : Nat) : reservedBlock slot < 6 := by
  unfold reservedBlock
  split <;> decide

/-- A slot that holds an inode; on a zeroed device the others hold number 0. -/
def Inode.Used (inode : Inode) : Prop := inode.inodeNo ≠ 0

/-- Two copies of one inode, which may differ in the number of children they count. -/
structure SameObject (left right : Inode) : Prop where
  mode : left.mode = right.mode
  inodeNo : left.inodeNo = right.inodeNo
  block : left.dataBlockNumber = right.dataBlockNumber

theorem SameObject.refl (inode : Inode) : SameObject inode inode := ⟨rfl, rfl, rfl⟩

theorem SameObject.symm {left right : Inode} (same : SameObject left right) :
    SameObject right left := ⟨same.mode.symm, same.inodeNo.symm, same.block.symm⟩

theorem SameObject.trans {first second third : Inode} (left : SameObject first second)
    (right : SameObject second third) : SameObject first third :=
  ⟨left.mode.trans right.mode, left.inodeNo.trans right.inodeNo, left.block.trans right.block⟩

theorem SameObject.addChild (inode : Inode) : SameObject inode inode.addChild := ⟨rfl, rfl, rfl⟩

abbrev Store := Nat → Inode

/-- What the inode store may hold. The versions are those that the buffer has held and the
disk may still hold: a block once given out belongs to one slot in all of them. -/
structure Stores (freeBlocks : BitVec 64) (versions : Store → Prop) : Prop where
  numbered : ∀ store, versions store → ∀ i, (store i).Used → (store i).inodeNo = slotNumber i
  reserved : ∀ store, versions store → ∀ i, i < reservedInodes →
    (store i).Used ∧ (store i).dataBlockNumber = reservedBlock i
  taken : ∀ store, versions store → ∀ i, reservedInodes ≤ i → (store i).Used →
    6 ≤ (store i).dataBlockNumber ∧ (store i).dataBlockNumber < 32 ∧
      freeBlocks.getLsbD (store i).dataBlockNumber = false
  apart : ∀ left right, versions left → versions right → ∀ i j, (left i).Used →
    (right j).Used → (left i).dataBlockNumber = (right j).dataBlockNumber →
    i = j ∧ (left i).mode = (right j).mode

theorem Stores.sub {freeBlocks : BitVec 64} {versions fewer : Store → Prop}
    (stores : Stores freeBlocks versions) (sub : ∀ store, fewer store → versions store) :
    Stores freeBlocks fewer :=
  ⟨fun store member => stores.numbered store (sub store member),
    fun store member => stores.reserved store (sub store member),
    fun store member => stores.taken store (sub store member),
    fun left right leftMember rightMember =>
      stores.apart left right (sub left leftMember) (sub right rightMember)⟩

theorem Stores.unmask {freeBlocks : BitVec 64} {versions : Store → Prop}
    (stores : Stores freeBlocks versions) (i : Nat) :
    Stores (freeBlocks &&& ~~~shiftMask i) versions := by
  refine ⟨stores.numbered, stores.reserved, ?_, stores.apart⟩
  intro store member slot lower used
  obtain ⟨from_six, small, clear⟩ := stores.taken store member slot lower used
  refine ⟨from_six, small, ?_⟩
  rw [getLsbD_unmask freeBlocks i _ (by omega), clear, Bool.false_and]

/-- A free block is in no slot of any version. -/
theorem Stores.unowned {freeBlocks : BitVec 64} {versions : Store → Prop}
    (stores : Stores freeBlocks versions) {block : Nat} (above : 6 ≤ block)
    (free : freeBlocks.getLsbD block = true) {store : Store} (member : versions store) {i : Nat}
    (used : (store i).Used) : (store i).dataBlockNumber ≠ block := by
  intro same
  by_cases low : i < reservedInodes
  · have reserved := (stores.reserved store member i low).2
    have small := reservedBlock_lt i
    omega
  · have clear := (stores.taken store member i (by omega) used).2.2
    rw [same, free] at clear
    cases clear

/-- One more version, in which a slot holds an inode whose block no other slot has. -/
theorem Stores.extend {freeBlocks : BitVec 64} {versions : Store → Prop}
    (stores : Stores freeBlocks versions) {store : Store} (member : versions store) {slot : Nat}
    {inode : Inode} (number : inode.inodeNo = slotNumber slot)
    (reserved : slot < reservedInodes → inode.dataBlockNumber = reservedBlock slot)
    (taken : reservedInodes ≤ slot → 6 ≤ inode.dataBlockNumber ∧ inode.dataBlockNumber < 32 ∧
      freeBlocks.getLsbD inode.dataBlockNumber = false)
    (own : ∀ other, versions other → ∀ i, (other i).Used →
      (other i).dataBlockNumber = inode.dataBlockNumber → i = slot ∧ (other i).mode = inode.mode) :
    Stores freeBlocks fun other => versions other ∨ other = Function.update store slot inode := by
  have slotUsed : inode.Used := by
    unfold Inode.Used
    rw [number]
    exact slotNumber_ne_zero slot
  -- the new version against any version that is already there
  have against (other : Store) (known : versions other) (i j : Nat) (used : (other i).Used)
      (newUsed : (Function.update store slot inode j).Used)
      (block : (other i).dataBlockNumber = (Function.update store slot inode j).dataBlockNumber) :
      i = j ∧ (other i).mode = (Function.update store slot inode j).mode := by
    by_cases here : j = slot
    · subst here
      rw [Function.update_self] at block ⊢
      exact own other known i used block
    · rw [Function.update_of_ne here] at newUsed block ⊢
      exact stores.apart other store known member i j used newUsed block
  constructor
  · intro other known i used
    rcases known with known | rfl
    · exact stores.numbered other known i used
    by_cases here : i = slot
    · subst here
      rw [Function.update_self, number]
    · rw [Function.update_of_ne here] at used ⊢
      exact stores.numbered store member i used
  · intro other known i low
    rcases known with known | rfl
    · exact stores.reserved other known i low
    by_cases here : i = slot
    · subst here
      rw [Function.update_self]
      exact ⟨slotUsed, reserved low⟩
    · rw [Function.update_of_ne here]
      exact stores.reserved store member i low
  · intro other known i lower used
    rcases known with known | rfl
    · exact stores.taken other known i lower used
    by_cases here : i = slot
    · subst here
      rw [Function.update_self]
      exact taken lower
    · rw [Function.update_of_ne here] at used ⊢
      exact stores.taken store member i lower used
  · intro left right leftKnown rightKnown i j leftUsed rightUsed block
    rcases leftKnown with leftKnown | rfl
    · rcases rightKnown with rightKnown | rfl
      · exact stores.apart left right leftKnown rightKnown i j leftUsed rightUsed block
      · exact against left leftKnown i j leftUsed rightUsed block
    rcases rightKnown with rightKnown | rfl
    · obtain ⟨same, mode⟩ := against right rightKnown j i rightUsed leftUsed block.symm
      exact ⟨same.symm, mode.symm⟩
    by_cases here : i = slot
    · subst here
      by_cases there : j = i
      · subst there
        exact ⟨rfl, rfl⟩
      · rw [Function.update_self, Function.update_of_ne there] at block
        rw [Function.update_of_ne there] at rightUsed
        exact absurd (own store member j rightUsed block.symm).1 there
    · rw [Function.update_of_ne here] at leftUsed block ⊢
      exact against store member i j leftUsed rightUsed block

/-- The slot of the journal's inode. mkfs leaves its mode as it is on the stack, so it may
look like a directory, but nothing leads to it. -/
abbrev journalSlot : Nat := 1

/-- A record names the inode of a creation, which is in a counted slot as it was made. -/
structure Names (count : Nat) (store : Store) (record : DirRecord) (inode : Inode) : Prop where
  number : record.inodeNo = inode.inodeNo
  used : inode.Used
  stored : ∃ slot, slot < count ∧ slot ≠ journalSlot ∧ SameObject inode (store slot)

theorem Names.mono {count more : Nat} {store : Store} {record : DirRecord} {inode : Inode}
    (names : Names count store record inode) (grown : count ≤ more) :
    Names more store record inode := by
  obtain ⟨slot, inside, same⟩ := names.stored
  exact ⟨names.number, names.used, slot, Nat.lt_of_lt_of_le inside grown, same⟩

/-- A write to the store spares what is named if it falls outside the counted slots, or puts
a copy of the same object in the slot. -/
theorem Names.update {count : Nat} {store : Store} {record : DirRecord} {inode : Inode}
    (names : Names count store record inode) {slot : Nat} {content : Inode}
    (spared : slot < count → SameObject (store slot) content) :
    Names count (Function.update store slot content) record inode := by
  obtain ⟨home, inside, notJournal, same⟩ := names.stored
  refine ⟨names.number, names.used, home, inside, notJournal, ?_⟩
  by_cases here : home = slot
  · subst here
    rw [Function.update_self]
    exact same.trans (spared inside)
  · rw [Function.update_of_ne here]
    exact same

abbrev Records := Nat → Nat → DirRecord

/-- For each record, by block and index, the inode of the creation that wrote it. -/
abbrev Links := Nat → Nat → Inode

/-- What holds of a super block, the directory blocks and the inode store that go with
them, whichever version of the store it is. -/
structure Image (sb : SuperBlock) (records : Records) (links : Links) (versions : Store → Prop) :
    Prop where
  lower : reservedInodes ≤ sb.inodesCount
  upper : sb.inodesCount ≤ maxFilesystemObjectsSupported
  tracked : Tracked sb.freeBlocks
  stores : Stores sb.freeBlocks versions
  named : ∀ store, versions store → ∀ i, i ≠ journalSlot → (store i).Used →
    sIsdir (store i).mode = true → ∀ index, index < (store i).dirChildrenCount →
      Names sb.inodesCount store (records (store i).dataBlockNumber index)
        (links (store i).dataBlockNumber index)
  blank : ∀ store, versions store → ∀ i, sb.inodesCount ≤ i → (store i).size = 0

section ImageSteps

variable {sb : SuperBlock} {records : Records} {links : Links} {versions : Store → Prop}

theorem Image.sub (image : Image sb records links versions) {fewer : Store → Prop}
    (sub : ∀ store, fewer store → versions store) : Image sb records links fewer :=
  ⟨image.lower, image.upper, image.tracked, image.stores.sub sub,
    fun store member => image.named store (sub store member),
    fun store member => image.blank store (sub store member)⟩

theorem Image.takeBlock (image : Image sb records links versions)
    (found : firstFree sb.freeBlocks ≠ maxFilesystemObjectsSupported) :
    Image { sb with freeBlocks := sb.freeBlocks &&& ~~~shiftMask (firstFree sb.freeBlocks) }
      records links versions :=
  ⟨image.lower, image.upper, image.tracked.unmask (image.tracked.firstFree found).2.1,
    image.stores.unmask _, image.named, image.blank⟩

theorem Image.extend (image : Image sb records links versions) {store : Store}
    (member : versions store) {slot : Nat} {inode : Inode}
    (stores : Stores sb.freeBlocks
      fun other => versions other ∨ other = Function.update store slot inode)
    (spared : slot < sb.inodesCount → SameObject (store slot) inode)
    (named : sIsdir inode.mode = true → ∀ index, index < inode.dirChildrenCount →
      Names sb.inodesCount store (records inode.dataBlockNumber index)
        (links inode.dataBlockNumber index))
    (blank : sb.inodesCount ≤ slot → inode.size = 0) :
    Image sb records links fun other =>
      versions other ∨ other = Function.update store slot inode := by
  refine ⟨image.lower, image.upper, image.tracked, stores, ?_, ?_⟩
  · intro other known i notJournal used directory index below
    rcases known with known | rfl
    · exact image.named other known i notJournal used directory index below
    by_cases here : i = slot
    · subst here
      rw [Function.update_self] at directory below ⊢
      exact (named directory index below).update spared
    · rw [Function.update_of_ne here] at used directory below ⊢
      exact (image.named store member i notJournal used directory index below).update spared
  · intro other known i above
    rcases known with known | rfl
    · exact image.blank other known i above
    by_cases here : i = slot
    · subst here
      rw [Function.update_self]
      exact blank above
    · rw [Function.update_of_ne here]
      exact image.blank store member i above

/-- The new inode in the first slot past the counted ones. -/
theorem Image.addInode (image : Image sb records links versions) {store : Store}
    (member : versions store) {inode : Inode} (number : inode.inodeNo = slotNumber sb.inodesCount)
    (empty : inode.size = 0)
    (taken : 6 ≤ inode.dataBlockNumber ∧ inode.dataBlockNumber < 32 ∧
      sb.freeBlocks.getLsbD inode.dataBlockNumber = false)
    (unowned : ∀ other, versions other → ∀ i, (other i).Used →
      (other i).dataBlockNumber ≠ inode.dataBlockNumber) :
    Image sb records links fun other =>
      versions other ∨ other = Function.update store sb.inodesCount inode := by
  have lower := image.lower
  refine image.extend member ?_ (fun inside => by omega) (fun _ index below => ?_) (fun _ => empty)
  · exact image.stores.extend member number (fun low => by omega) (fun _ => taken)
      fun other known i used same => absurd same (unowned other known i used)
  · rw [Inode.dirChildrenCount, empty] at below
    omega

theorem Image.countInode (image : Image sb records links versions)
    (room : sb.inodesCount < maxFilesystemObjectsSupported) :
    Image { sb with inodesCount := sb.inodesCount + 1 } records links versions :=
  ⟨Nat.le_succ_of_le image.lower, room, image.tracked, image.stores,
    fun store member i notJournal used directory index below =>
      (image.named store member i notJournal used directory index below).mono (Nat.le_succ _),
    fun store member i above => image.blank store member i (by
      have above : sb.inodesCount + 1 ≤ i := above
      omega)⟩

def Records.put (records : Records) (block index : Nat) (record : DirRecord) : Records :=
  Function.update records block (Function.update (records block) index record)

def Links.put (links : Links) (block index : Nat) (inode : Inode) : Links :=
  Function.update links block (Function.update (links block) index inode)

theorem put_same {α : Type} (table : Nat → Nat → α) (block index : Nat) (value : α) :
    Function.update table block (Function.update (table block) index value) block index = value := by
  rw [Function.update_self, Function.update_self]

theorem put_other {α : Type} (table : Nat → Nat → α) {block index other i : Nat} (value : α)
    (apart : other = block → i ≠ index) :
    Function.update table block (Function.update (table block) index value) other i =
      table other i := by
  by_cases same : other = block
  · subst same
    rw [Function.update_self, Function.update_of_ne (apart rfl)]
  · rw [Function.update_of_ne same]

theorem afterAdd_records (fs : Fs) (env : CreateEnv) (inode : Inode) :
    (fs.afterAdd env inode).records = fs.records := by
  unfold Fs.afterAdd
  cases env.addInodesLock with
  | true => rfl
  | false =>
      cases env.addSbLock with
      | true => rfl
      | false => exact funext (appendInode_records fs inode)

theorem appendRecord_records (fs : Fs) (parent : Inode) (record : DirRecord) :
    (fs.appendRecord parent record).records =
      Records.put fs.records parent.dataBlockNumber parent.dirChildrenCount record := by
  funext block
  by_cases same : block = parent.dataBlockNumber
  · subst same
    rw [appendRecord_records_self, Records.put, Function.update_self]
  · rw [appendRecord_records_other fs parent record same, Records.put, Function.update_of_ne same]

theorem linked_records (fs : Fs) (env : CreateEnv) (dir : Nat) (name : List UInt8)
    (inode : Inode) :
    (fs.linked env dir name inode).records = Records.put fs.records (fs.mem dir).dataBlockNumber
      (fs.mem dir).dirChildrenCount (newRecord name inode) := by
  rw [Fs.linked, appendRecord_records, afterAdd_records]

/-- A record past those that any version counts. -/
theorem Image.appendRecord (image : Image sb records links versions) {block index : Nat}
    (record : DirRecord) (inode : Inode)
    (uncounted : ∀ store, versions store → ∀ i, (store i).Used →
      (store i).dataBlockNumber = block → (store i).dirChildrenCount ≤ index) :
    Image sb (records.put block index record) (links.put block index inode) versions := by
  refine ⟨image.lower, image.upper, image.tracked, image.stores, ?_, image.blank⟩
  intro store member i notJournal used directory at_index below
  have apart : (store i).dataBlockNumber = block → at_index ≠ index := by
    intro same
    have bound := uncounted store member i used same
    omega
  rw [Records.put, Links.put, put_other _ _ apart, put_other _ _ apart]
  exact image.named store member i notJournal used directory at_index below

/-- A counted slot gets a copy of its object with a count that the records bear out. -/
theorem Image.saveInode (image : Image sb records links versions) {store : Store}
    (member : versions store) {slot : Nat} {inode : Inode} (used : (store slot).Used)
    (inside : slot < sb.inodesCount) (same : SameObject (store slot) inode)
    (named : sIsdir inode.mode = true → ∀ index, index < inode.dirChildrenCount →
      Names sb.inodesCount store (records inode.dataBlockNumber index)
        (links inode.dataBlockNumber index)) :
    Image sb records links fun other =>
      versions other ∨ other = Function.update store slot inode := by
  refine image.extend member ?_ (fun _ => same) named (fun above => by omega)
  refine image.stores.extend member ?_ ?_ ?_ ?_
  · rw [← same.inodeNo]
    exact image.stores.numbered store member slot used
  · intro low
    rw [← same.block]
    exact (image.stores.reserved store member slot low).2
  · intro high
    rw [← same.block]
    exact image.stores.taken store member slot high used
  · intro other known i otherUsed block
    rw [← same.block] at block
    rw [← same.mode]
    exact image.stores.apart other store known member i slot otherUsed used block

end ImageSteps

/-- The version in the buffer, with no smaller a count than any other in any slot. -/
structure Newest (versions : Store → Prop) (store : Store) : Prop where
  member : versions store
  largest : ∀ other, versions other → ∀ i, (other i).size ≤ (store i).size

theorem Newest.extend {versions : Store → Prop} {store : Store} (newest : Newest versions store)
    {slot : Nat} {inode : Inode} (grown : (store slot).size ≤ inode.size) :
    Newest (fun other => versions other ∨ other = Function.update store slot inode)
      (Function.update store slot inode) := by
  have larger (i : Nat) : (store i).size ≤ (Function.update store slot inode i).size := by
    by_cases here : i = slot
    · subst here
      rw [Function.update_self]
      exact grown
    · rw [Function.update_of_ne here]
  refine ⟨Or.inr rfl, ?_⟩
  intro other known i
  rcases known with known | rfl
  · exact Nat.le_trans (newest.largest other known i) (larger i)
  · exact Nat.le_refl _

/-- The copy in memory of the inode in a counted slot; it may count children that the slot
does not count yet. -/
structure Placed (count : Nat) (records : Records) (links : Links) (store : Store) (slot : Nat)
    (copy : Inode) : Prop where
  inside : slot < count
  notJournal : slot ≠ journalSlot
  used : (store slot).Used
  same : SameObject (store slot) copy
  behind : (store slot).dirChildrenCount ≤ copy.dirChildrenCount
  named : sIsdir copy.mode = true → ∀ index, index < copy.dirChildrenCount →
    Names count store (records copy.dataBlockNumber index) (links copy.dataBlockNumber index)

section PlacedSteps

variable {count : Nat} {records : Records} {links : Links} {store : Store} {slot : Nat}
  {copy : Inode}

theorem Placed.countInode (placed : Placed count records links store slot copy) :
    Placed (count + 1) records links store slot copy :=
  ⟨Nat.lt_succ_of_lt placed.inside, placed.notJournal, placed.used, placed.same, placed.behind,
    fun directory index below => (placed.named directory index below).mono (Nat.le_succ _)⟩

theorem Placed.addInode (placed : Placed count records links store slot copy) (inode : Inode) :
    Placed count records links (Function.update store count inode) slot copy := by
  have apart : slot ≠ count := Nat.ne_of_lt placed.inside
  refine ⟨placed.inside, placed.notJournal, ?_, ?_, ?_, ?_⟩
  · rw [Function.update_of_ne apart]
    exact placed.used
  · rw [Function.update_of_ne apart]
    exact placed.same
  · rw [Function.update_of_ne apart]
    exact placed.behind
  · intro directory index below
    exact (placed.named directory index below).update fun inside => absurd inside (Nat.lt_irrefl _)

theorem Placed.appendRecord (placed : Placed count records links store slot copy)
    {block index : Nat} (record : DirRecord) (inode : Inode)
    (past : copy.dataBlockNumber = block → copy.dirChildrenCount ≤ index) :
    Placed count (records.put block index record) (links.put block index inode) store slot copy := by
  refine ⟨placed.inside, placed.notJournal, placed.used, placed.same, placed.behind, ?_⟩
  intro directory at_index below
  have apart : copy.dataBlockNumber = block → at_index ≠ index := by
    intro same
    have bound := past same
    omega
  rw [Records.put, Links.put, put_other _ _ apart, put_other _ _ apart]
  exact placed.named directory at_index below

/-- The record goes past those that the copy itself counts. -/
theorem Placed.appendOwn (placed : Placed count records links store slot copy)
    (record : DirRecord) (inode : Inode) :
    Placed count (records.put copy.dataBlockNumber copy.dirChildrenCount record)
      (links.put copy.dataBlockNumber copy.dirChildrenCount inode) store slot copy :=
  placed.appendRecord record inode fun _ => Nat.le_refl _

/-- A slot takes a copy of its own object: other slots' copies do not see it. -/
theorem Placed.saveOther (placed : Placed count records links store slot copy) {other : Nat}
    {inode : Inode} (apart : slot ≠ other) (same : SameObject (store other) inode) :
    Placed count records links (Function.update store other inode) slot copy := by
  refine ⟨placed.inside, placed.notJournal, ?_, ?_, ?_, ?_⟩
  · rw [Function.update_of_ne apart]
    exact placed.used
  · rw [Function.update_of_ne apart]
    exact placed.same
  · rw [Function.update_of_ne apart]
    exact placed.behind
  · intro directory index below
    exact (placed.named directory index below).update fun _ => same

theorem Placed.saveSelf (placed : Placed count records links store slot copy) :
    Placed count records links (Function.update store slot copy) slot copy := by
  refine ⟨placed.inside, placed.notJournal, ?_, ?_, ?_, ?_⟩
  · rw [Function.update_self]
    unfold Inode.Used
    rw [← placed.same.inodeNo]
    exact placed.used
  · rw [Function.update_self]
    exact .refl copy
  · rw [Function.update_self]
  · intro directory index below
    exact (placed.named directory index below).update fun _ => placed.same

/-- The copy counts one more record, which names an inode. -/
theorem Placed.addChild (placed : Placed count records links store slot copy)
    (next : Names count store (records copy.dataBlockNumber copy.dirChildrenCount)
      (links copy.dataBlockNumber copy.dirChildrenCount)) :
    Placed count records links store slot copy.addChild := by
  refine ⟨placed.inside, placed.notJournal, placed.used, placed.same.trans (.addChild copy),
    Nat.le_succ_of_le placed.behind, ?_⟩
  intro directory index below
  have below : index < copy.dirChildrenCount + 1 := below
  by_cases last : index = copy.dirChildrenCount
  · subst last
    exact next
  · exact placed.named directory index (by omega)

end PlacedSteps

/-- No version counts a record that the copy in memory does not. -/
theorem Image.uncounted {sb : SuperBlock} {records : Records} {links : Links}
    {versions : Store → Prop} (image : Image sb records links versions) {store : Store}
    (newest : Newest versions store) {slot : Nat} {copy : Inode}
    (placed : Placed sb.inodesCount records links store slot copy) (other : Store)
    (known : versions other) (i : Nat) (used : (other i).Used)
    (block : (other i).dataBlockNumber = copy.dataBlockNumber) :
    (other i).dirChildrenCount ≤ copy.dirChildrenCount := by
  obtain ⟨same, -⟩ := image.stores.apart other store known newest.member i slot used placed.used
    (block.trans placed.same.block.symm)
  subst same
  exact Nat.le_trans (newest.largest other known i) placed.behind

/-- The record of the new inode, once that is in its slot and counted. -/
theorem names_new {count : Nat} (lower : reservedInodes ≤ count) (store : Store)
    (name : List UInt8) {inode : Inode} (used : inode.Used) :
    Names (count + 1) (Function.update store count inode) (newRecord name inode) inode := by
  have lower : 3 ≤ count := lower
  refine ⟨rfl, used, count, Nat.lt_succ_self count, show count ≠ 1 by omega, ?_⟩
  rw [Function.update_self]
  exact .refl inode

theorem correctedFreeBlocks_tracked : Tracked correctedFreeBlocks := by
  have bit (k : Nat) (inside : k < 64) :
      correctedFreeBlocks.getLsbD k = decide (6 ≤ k) := by
    change ((~~~0#64) <<< 6).getLsbD k = _
    rw [BitVec.getLsbD_shiftLeft, BitVec.getLsbD_not, BitVec.getLsbD_zero]
    by_cases low : k < 6
    · simp [low]
    · simp [low, inside, show k - 6 < 64 by omega, Nat.not_lt.mp low]
  constructor
  · intro k small
    rw [bit k (by omega), decide_eq_false (by omega)]
  · intro k above inside
    rw [bit k inside, bit 31 (by decide), decide_eq_true (by omega), decide_eq_true (by decide)]

theorem mkfsInodes_place (dev : Device) {slot : Nat} (low : slot < reservedInodes) :
    (mkfsInodes dev slot).inodeNo = slotNumber slot ∧
      (mkfsInodes dev slot).dataBlockNumber = reservedBlock slot := by
  match slot, low with
  | 0, _ => exact ⟨rfl, rfl⟩
  | 1, _ => exact ⟨rfl, rfl⟩
  | 2, _ => exact ⟨rfl, rfl⟩

theorem reservedBlock_inj {i j : Nat} (left : i < reservedInodes) (right : j < reservedInodes)
    (same : reservedBlock i = reservedBlock j) : i = j := by
  have left : i < 3 := left
  have right : j < 3 := right
  match i, j, left, right with
  | 0, 0, _, _ => rfl
  | 1, 1, _, _ => rfl
  | 2, 2, _, _ => rfl
  | 0, 1, _, _ => cases same
  | 0, 2, _, _ => cases same
  | 1, 0, _, _ => cases same
  | 1, 2, _, _ => cases same
  | 2, 0, _, _ => cases same
  | 2, 1, _, _ => cases same

theorem mkfs_image (dev : Device) {store : Store}
    (low : ∀ i, i < reservedInodes → store i = mkfsInodes dev i)
    (rest : ∀ i, reservedInodes ≤ i → store i = nullInode) {records : Records} {links : Links}
    (record : records rootdirDatablockNumber 0 = welcomeRecord)
    (link : links rootdirDatablockNumber 0 = welcomeInode) :
    Image (writeSuperblock correctedFreeBlocks) records links (· = store) := by
  have reserved {i : Nat} (used : (store i).Used) : i < reservedInodes := by
    by_contra high
    rw [rest i (Nat.not_lt.mp high)] at used
    exact used rfl
  refine ⟨by decide, by decide, correctedFreeBlocks_tracked, ⟨?_, ?_, ?_, ?_⟩, ?_, ?_⟩
  · rintro other rfl i used
    rw [low i (reserved used)]
    exact (mkfsInodes_place dev (reserved used)).1
  · rintro other rfl i inside
    rw [low i inside]
    refine ⟨?_, (mkfsInodes_place dev inside).2⟩
    unfold Inode.Used
    rw [(mkfsInodes_place dev inside).1]
    exact slotNumber_ne_zero i
  · rintro other rfl i high used
    exact absurd (reserved used) (Nat.not_lt.mpr high)
  · rintro other _ rfl rfl i j left right same
    rw [low i (reserved left), low j (reserved right), (mkfsInodes_place dev (reserved left)).2,
      (mkfsInodes_place dev (reserved right)).2] at same
    obtain rfl := reservedBlock_inj (reserved left) (reserved right) same
    exact ⟨rfl, rfl⟩
  · rintro other rfl i notJournal used directory index below
    have inside : i < 3 := reserved used
    rw [low i inside] at directory below ⊢
    match i, inside with
    | 0, _ =>
        have first : index = 0 := by
          have below : index < 1 := below
          omega
        subst first
        change Names 3 other (records 4 0) (links 4 0)
        rw [record, link]
        refine ⟨rfl, Nat.succ_ne_zero 2, 2, by decide, by decide, ?_⟩
        rw [low 2 (by decide)]
        exact .refl welcomeInode
    | 1, _ => exact absurd rfl notJournal
    | 2, _ => exact absurd directory (show ¬ sIsdir welcomeInode.mode = true by decide)
  · rintro other rfl i above
    rw [rest i above]
    rfl

end Ve482.Dadfs
