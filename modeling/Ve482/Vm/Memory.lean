import Ve482.Vm.Held

set_option autoImplicit false

namespace Ve482.Vm

open Function (update)
open Fallible (Ends map_bind)

variable {np : Nat} {Page : Type} {header : Header np} {answers : Answers}

/-- The server, and what the pages of the memory hold. -/
structure Machine (np : Nat) (Page : Type) where
  vm : State np
  memory : Nat → Page

/-- What pages hold that are given out: a cleared one, and one that a memory type has found for a
new block. -/
structure Filling (Page : Type) where
  clear : Page
  paged : Ptr → Nat → Page

namespace Machine

variable {filling : Filling Page} {m m' : Machine np Page}

/-- The pages that are no longer free have been filled. -/
def given (m : Machine np Page) (vm : State np) (contents : Nat → Page) : Machine np Page where
  vm := vm
  memory page := if page ∈ m.vm.free ∧ page ∉ vm.free then contents page else m.memory page

def mapPf (header : Header np) (answers : Answers) (filling : Filling Page) (m : Machine np Page)
    (r : Ptr) (offset : Nat) : Except Stop (Bool × Machine np Page) := do
  let (ok, vm) ← Vm.mapPf header answers m.vm r offset
  return (ok, m.given vm (filling.paged m.vm.newBlock))

def copyAbs2region (answers : Answers) (m : Machine np Page) (abs : Nat) (r : Ptr) (offset : Nat) :
    Except Stop (Bool × Machine np Page) := do
  match ← Vm.copyAbs2region answers m.vm r offset with
  | (false, vm) => return (false, { m with vm })
  | (true, vm) =>
      match (vm.virRegion r).physblocks (offset / vmPageSize) with
      | none => return (true, { m with vm })
      | some ph =>
          let memory := update m.memory (abs2click (vm.physBlock ph.ph).phys)
            (m.memory (abs2click abs))
          return (true, { vm, memory })

def mapClonePhBlock (header : Header np) (answers : Answers) (filling : Filling Page)
    (m : Machine np Page) (r : Ptr) (ph : PhysRegion) :
    Except Stop (Option PhysRegion × Machine np Page) := do
  assert (1 < (m.vm.physBlock ph.ph).refcount) .mapClonePhBlock
  let offset := ph.offset
  let physaddr := (m.vm.physBlock ph.ph).phys
  let vm ← pbUnreferenced m.vm r ph
  let region := vm.virRegion r
  let allocflags := vrallocflags { region.flags with uninitialized := true }
  let regionHasSingleBlock := offset = 0 ∧ region.length = vmPageSize
  assert (regionHasSingleBlock ∨ ¬ allocflags.contig) .mapClonePhBlock
  assert (¬ allocflags.clear) .mapClonePhBlock
  match ← ({ m with vm } : Machine np Page).mapPf header answers filling r offset with
  | (false, m) => return (none, m)
  | (true, m) =>
      match ← m.copyAbs2region answers physaddr r offset with
      | (false, _) => .error (.panic .mapClonePhBlock)
      | (true, m) =>
          match ← physblockGet (m.vm.virRegion r) offset with
          | none => .error (.assertion .mapClonePhBlock)
          | some newpr =>
              assert (newpr.offset = offset) .mapClonePhBlock
              return (some newpr, m)

def getCleanPhysRegion (header : Header np) (answers : Answers) (filling : Filling Page)
    (m : Machine np Page) (p : Fin np) (vaddr : Nat) :
    Except Stop (Option (Ptr × PhysRegion) × Machine np Page) := do
  match ← mapLookup m.vm p vaddr with
  | none => return (none, m)
  | some (_, none) => return (none, m)
  | some (r, some ph) =>
      let region := m.vm.virRegion r
      assert (region.vaddr ≤ vaddr) .getCleanPhysRegion
      assert (vaddr < region.vaddr + region.length) .getCleanPhysRegion
      assert (0 < (m.vm.physBlock ph.ph).refcount) .getCleanPhysRegion
      if 1 < (m.vm.physBlock ph.ph).refcount then
        match ← m.mapClonePhBlock header answers filling r ph with
        | (none, m) => return (none, m)
        | (some ph, m) =>
            assert ((m.vm.physBlock ph.ph).refcount = 1) .getCleanPhysRegion
            return (some (r, ph), m)
      else
        assert ((m.vm.physBlock ph.ph).refcount = 1) .getCleanPhysRegion
        return (some (r, ph), m)

def getPages (header : Header np) (answers : Answers) (filling : Filling Page) (p : Fin np) :
    Nat → VirBytes → Nat → Machine np Page → Except Stop (Code × Machine np Page)
  | 0, _, _, m => .ok (.ok, m)
  | pages + 1, vaddr, phaddr, m => do
      match ← m.getCleanPhysRegion header answers filling p vaddr.toNat with
      | (none, m) => return (.einval, m)
      | (some (r, ph), m) =>
          assert ((m.vm.physBlock ph.ph).refcount = 1) .getblock
          let vm := m.vm.freeMem (abs2click (m.vm.physBlock ph.ph).phys) 1
          let vm := vm.setBlock ph.ph { vm.physBlock ph.ph with phys := phaddr }
          match ← mapPhWritept answers vm r ph with
          | (false, _) => .error (.panic .getblock)
          | (true, vm) =>
              getPages header answers filling p pages (vaddr + BitVec.ofNat 32 vmPageSize)
                (phaddr + vmPageSize) { m with vm }

def getblock (header : Header np) (answers : Answers) (filling : Filling Page)
    (m : Machine np Page) (p : Fin np) (id : BitVec 64) (vaddr : VirBytes) (pages : Nat) :
    Except Stop (Code × Machine np Page) := do
  let blockid : BlockId := { owner := (m.vm.vmproc p).vmEndpoint, id }
  match yieldedSearch m.vm (m.vm.vmYieldedBlocks (getYieldedAvl header blockid)) blockid with
  | none => return (.esrch, m)
  | some yb =>
      if (m.vm.yielded yb).pages ≠ pages then return (.efault, m)
      else
        match ← m.getPages header answers filling p pages vaddr (m.vm.yielded yb).physaddr with
        | (.ok, m) =>
            let (_, vm) ← freeyieldednode header m.vm yb false
            return (.ok, { m with vm })
        | (code, m) => return (code, m)

/-- The new pages are allocated with `PAF_CLEAR`. -/
def yieldblock (header : Header np) (answers : Answers) (filling : Filling Page)
    (m : Machine np Page) (p : Fin np) (id : BitVec 64) (vaddr : VirBytes) (pages : Nat) :
    Except Stop (Code × Machine np Page) := do
  let (code, vm) ← Vm.yieldblock header answers m.vm p id vaddr pages
  return (code, m.given vm fun _ => filling.clear)

def doYieldblockgetblock (header : Header np) (answers : Answers) (filling : Filling Page)
    (m : Machine np Page) (message : Message) : Except Stop (Code × Machine np Page) :=
  match vmIsokendpt header m.vm message.source with
  | none => .error (.panic .message)
  | some p => do
      let pages := Int.tdiv message.len.toInt vmPageSize
      if Int.tmod message.len.toInt vmPageSize ≠ 0 ∨ pages < 1 then return (.efault, m)
      else
        let m ←
          if message.yieldid ≠ header.vmBlockidNone then do
            let (_, m) ← m.yieldblock header answers filling p message.yieldid message.vaddr
              pages.toNat
            pure m
          else pure m
        if message.getid ≠ header.vmBlockidNone then
          m.getblock header answers filling p message.getid message.vaddr pages.toNat
        else return (.esrch, m)

/-! Without the contents of the pages the machine is the server. -/

/-- A result without the contents of the pages. -/
def bare {β : Type} (result : β × Machine np Page) : β × State np := (result.1, result.2.vm)

theorem mapPf_bare (header : Header np) (answers : Answers) (filling : Filling Page)
    (m : Machine np Page) (r : Ptr) (offset : Nat) :
    (m.mapPf header answers filling r offset).map bare = Vm.mapPf header answers m.vm r offset := by
  unfold mapPf
  cases Vm.mapPf header answers m.vm r offset with
  | error stop => rfl
  | ok result => rfl

theorem copyAbs2region_bare (answers : Answers) (m : Machine np Page) (abs : Nat) (r : Ptr)
    (offset : Nat) :
    (m.copyAbs2region answers abs r offset).map bare =
      Vm.copyAbs2region answers m.vm r offset := by
  unfold copyAbs2region
  cases Vm.copyAbs2region answers m.vm r offset with
  | error stop => rfl
  | ok result =>
      obtain ⟨ok, vm⟩ := result
      cases ok with
      | false => rfl
      | true =>
          rw [ok_bind]
          dsimp only
          cases (vm.virRegion r).physblocks (offset / vmPageSize) with
          | none => rfl
          | some ph => rfl

theorem mapClonePhBlock_bare (header : Header np) (answers : Answers) (filling : Filling Page)
    (m : Machine np Page) (r : Ptr) (ph : PhysRegion) :
    (m.mapClonePhBlock header answers filling r ph).map bare =
      Vm.mapClonePhBlock header answers m.vm r ph := by
  unfold mapClonePhBlock Vm.mapClonePhBlock
  refine map_bind (congrFun Except.map_id _) fun _ => map_bind (congrFun Except.map_id _) fun vm => ?_
  refine map_bind (congrFun Except.map_id _) fun _ => map_bind (congrFun Except.map_id _) fun _ => ?_
  refine map_bind (mapPf_bare header answers filling _ _ _) fun result => ?_
  obtain ⟨ok, m1⟩ := result
  cases ok with
  | false => rfl
  | true =>
      refine map_bind (copyAbs2region_bare answers _ _ _ _) fun result => ?_
      obtain ⟨ok, m2⟩ := result
      cases ok with
      | false => rfl
      | true =>
          refine map_bind (congrFun Except.map_id _) fun found => ?_
          cases found with
          | none => rfl
          | some newpr => exact map_bind (congrFun Except.map_id _) fun _ => rfl

theorem getCleanPhysRegion_bare (header : Header np) (answers : Answers) (filling : Filling Page)
    (m : Machine np Page) (p : Fin np) (vaddr : Nat) :
    (m.getCleanPhysRegion header answers filling p vaddr).map bare =
      Vm.getCleanPhysRegion header answers m.vm p vaddr := by
  unfold getCleanPhysRegion Vm.getCleanPhysRegion
  refine map_bind (congrFun Except.map_id _) fun found => ?_
  rcases found with _ | ⟨r, _ | ph⟩
  · rfl
  · rfl
  · dsimp only [id]
    refine map_bind (congrFun Except.map_id _) fun _ => map_bind (congrFun Except.map_id _) fun _ =>
      map_bind (congrFun Except.map_id _) fun _ => ?_
    split
    · refine map_bind (mapClonePhBlock_bare header answers filling _ _ _) fun result => ?_
      obtain ⟨found, m1⟩ := result
      cases found with
      | none => rfl
      | some newpr => exact map_bind (congrFun Except.map_id _) fun _ => rfl
    · exact map_bind (congrFun Except.map_id _) fun _ => rfl

theorem getPages_bare (header : Header np) (answers : Answers) (filling : Filling Page)
    (m : Machine np Page) (p : Fin np) (pages : Nat) (vaddr : VirBytes)
    (phaddr : Nat) : (m.getPages header answers filling p pages vaddr phaddr).map bare =
      Vm.getPages header answers p pages vaddr phaddr m.vm := by
  induction pages generalizing vaddr phaddr m with
  | zero => rfl
  | succ pages ih =>
      rw [getPages, Vm.getPages]
      refine map_bind (getCleanPhysRegion_bare header answers filling _ _ _) fun result => ?_
      obtain ⟨found, m1⟩ := result
      rcases found with _ | ⟨r, ph⟩
      · rfl
      · refine map_bind (congrFun Except.map_id _) fun _ => map_bind (congrFun Except.map_id _)
          fun result => ?_
        obtain ⟨ok, vm⟩ := result
        cases ok with
        | false => rfl
        | true => exact ih { m1 with vm } _ _

theorem getblock_bare (header : Header np) (answers : Answers) (filling : Filling Page)
    (m : Machine np Page) (p : Fin np) (id : BitVec 64) (vaddr : VirBytes)
    (pages : Nat) : (m.getblock header answers filling p id vaddr pages).map bare =
      Vm.getblock header answers m.vm p id vaddr pages := by
  unfold getblock Vm.getblock
  dsimp only
  cases yieldedSearch m.vm (m.vm.vmYieldedBlocks
      (getYieldedAvl header { owner := (m.vm.vmproc p).vmEndpoint, id }))
      { owner := (m.vm.vmproc p).vmEndpoint, id } with
  | none => rfl
  | some yb =>
      dsimp only
      split
      · rfl
      · refine map_bind (getPages_bare header answers filling _ _ _ _ _) fun result => ?_
        obtain ⟨code, m1⟩ := result
        cases code with
        | ok => exact map_bind (congrFun Except.map_id _) fun _ => rfl
        | esrch | efault | einval | enomem => rfl

theorem yieldblock_bare (header : Header np) (answers : Answers) (filling : Filling Page)
    (m : Machine np Page) (p : Fin np) (id : BitVec 64) (vaddr : VirBytes)
    (pages : Nat) : (m.yieldblock header answers filling p id vaddr pages).map bare =
      Vm.yieldblock header answers m.vm p id vaddr pages := by
  unfold yieldblock
  cases Vm.yieldblock header answers m.vm p id vaddr pages with
  | error stop => rfl
  | ok result => rfl

theorem doYieldblockgetblock_bare (header : Header np) (answers : Answers) (filling : Filling Page)
    (m : Machine np Page) (message : Message) :
    (m.doYieldblockgetblock header answers filling message).map bare =
      Vm.doYieldblockgetblock header answers m.vm message := by
  unfold doYieldblockgetblock Vm.doYieldblockgetblock
  cases vmIsokendpt header m.vm message.source with
  | none => rfl
  | some p =>
      dsimp only
      split
      · rfl
      · have getting (m : Machine np Page) : (if message.getid ≠ header.vmBlockidNone then
              m.getblock header answers filling p message.getid message.vaddr
                (Int.tdiv message.len.toInt vmPageSize).toNat
            else pure (Code.esrch, m)).map bare =
            if message.getid ≠ header.vmBlockidNone then
              Vm.getblock header answers m.vm p message.getid message.vaddr
                (Int.tdiv message.len.toInt vmPageSize).toNat
            else pure (Code.esrch, m.vm) := by
          split
          · exact getblock_bare header answers filling _ _ _ _ _
          · rfl
        split
        · exact map_bind (yieldblock_bare header answers filling _ _ _ _ _) fun result =>
            getting result.2
        · exact getting m

/-- Only pages that were free have been written. -/
def Spares (m m' : Machine np Page) : Prop :=
  ∀ page, page ∉ m.vm.free → m'.memory page = m.memory page

theorem given_spares (m : Machine np Page) (vm : State np) (contents : Nat → Page) :
    m.Spares (m.given vm contents) :=
  fun _ used => if_neg fun both => used both.1

theorem mapPf_spares (header : Header np) (answers : Answers) (filling : Filling Page)
    (blocks : Blocks m.vm) {r : Ptr} {i : Nat} (slot : Slot m.vm r i)
    (empty : (m.vm.virRegion r).physblocks i = none) :
    Ends (fun _ => True) (fun result => m.Spares result.2 ∧
        (result.1 = true → ∃ click ∈ m.vm.free, result.2.vm = m.vm.filled r i click))
      (m.mapPf header answers filling r (i * vmPageSize)) := by
  unfold mapPf
  refine ((mapPf_ends header answers blocks slot empty).stop fun _ _ => trivial).bind
    fun result after => ⟨given_spares _ _ _, fun ok => ?_⟩
  obtain ⟨-, ⟨-, -, click, granted, filled⟩ | ⟨failed, -⟩⟩ := after
  · exact ⟨click, answers.allocMem_free _ _ _ _ granted 0 Nat.one_pos, filled⟩
  · exact absurd (failed.symm.trans ok) Bool.false_ne_true

theorem copyAbs2region_same (answers : Answers) (vm : State np) (r : Ptr) (offset : Nat) :
    Ends (fun _ => True) (fun result => result.2.virRegion = vm.virRegion ∧
      result.2.physBlock = vm.physBlock) (Vm.copyAbs2region answers vm r offset) := by
  unfold Vm.copyAbs2region
  refine (physblockGet_ends _ _).bind fun found _ => ?_
  cases found with
  | none => exact ⟨rfl, rfl⟩
  | some ph =>
      refine assert_ends (fun _ => trivial) fun _ => ?_
      split
      · exact ⟨rfl, rfl⟩
      · split
        · exact ⟨rfl, rfl⟩
        · exact ⟨rfl, rfl⟩

/-- A copy is written to the page of the slot. -/
theorem copyAbs2region_spares (answers : Answers) (m : Machine np Page) (abs : Nat) {r : Ptr}
    {i : Nat} {pr : PhysRegion} (resident : (m.vm.virRegion r).physblocks i = some pr) :
    Ends (fun _ => True) (fun result =>
        ∀ page, page ≠ abs2click (m.vm.physBlock pr.ph).phys → result.2.memory page = m.memory page)
      (m.copyAbs2region answers abs r (i * vmPageSize)) := by
  unfold copyAbs2region
  refine (copyAbs2region_same answers m.vm r (i * vmPageSize)).bind fun result same => ?_
  obtain ⟨ok, vm⟩ := result
  cases ok with
  | false => exact fun _ _ => rfl
  | true =>
      dsimp only at same ⊢
      rw [same.1, same.2, (offset_slot i).1, resident]
      exact fun page other => Function.update_of_ne other _ _

theorem mapClonePhBlock_spares (header : Header np) (answers : Answers) (filling : Filling Page)
    (blocks : Blocks m.vm) {r : Ptr} {i : Nat} {pr : PhysRegion} (slot : Slot m.vm r i)
    (resident : (m.vm.virRegion r).physblocks i = some pr)
    (shared : 1 < (m.vm.physBlock pr.ph).refcount) :
    Ends (fun _ => True) (fun result => m.Spares result.2)
      (m.mapClonePhBlock header answers filling r pr) := by
  have sound := blocks.sound r slot.region
  have parted : pbUnreferenced m.vm r pr = .ok (m.vm.parted r i pr.ph) :=
    pbUnreferenced_shared sound slot.small resident shared
  obtain ⟨slot', empty⟩ := slot.parted pr.ph
  unfold mapClonePhBlock
  rw [assert_true _ shared, parted, ok_bind, sound.offsets i pr slot.small resident]
  refine assert_ends (fun _ => trivial) fun _ => assert_ends (fun _ => trivial) fun _ => ?_
  refine (mapPf_spares (m := ⟨m.vm.parted r i pr.ph, m.memory⟩) header answers filling
    (blocks.parted slot resident) slot' empty).bind fun result after => ?_
  obtain ⟨ok, m1⟩ := result
  obtain ⟨spares, filled⟩ := after
  cases ok with
  | false => exact spares
  | true =>
      obtain ⟨click, free, filled⟩ := filled rfl
      dsimp only at filled
      have slot1 : (m1.vm.virRegion r).physblocks i = some ⟨m.vm.newBlock, i * vmPageSize⟩ := by
        rw [filled]
        simp [State.filled, State.setSlot, State.parted, State.setBlock]
      refine (copyAbs2region_spares answers m1 (m.vm.physBlock pr.ph).phys slot1).bind
        fun result copied => ?_
      obtain ⟨ok, m2⟩ := result
      have page : (m1.vm.physBlock m.vm.newBlock).phys = click2abs click := by
        rw [filled]
        simp [State.filled, State.parted, State.setSlot, State.setBlock]
      rw [page, abs2click_click2abs] at copied
      have kept : m.Spares m2 := by
        intro page used
        refine (copied page ?_).trans (spares page used)
        rintro rfl
        exact used free
      cases ok with
      | false => trivial
      | true =>
          refine (physblockGet_ends _ _).bind fun found _ => ?_
          cases found with
          | none => trivial
          | some newpr => exact assert_ends (fun _ => trivial) fun _ => kept

theorem getCleanPhysRegion_spares (header : Header np) (answers : Answers) (filling : Filling Page)
    (blocks : Blocks m.vm) {p : Fin np} {v : Nat} {r : Ptr} {i : Nat} {pr : PhysRegion}
    (there : At m.vm p v r i pr) (shared : 1 < (m.vm.physBlock pr.ph).refcount) :
    Ends (fun _ => True) (fun result => m.Spares result.2)
      (m.getCleanPhysRegion header answers filling p v) := by
  unfold getCleanPhysRegion
  rw [there.lookup, ok_bind]
  refine assert_ends (fun _ => trivial) fun _ => assert_ends (fun _ => trivial) fun _ =>
    assert_ends (fun _ => trivial) fun _ => ?_
  rw [if_pos shared]
  refine (mapClonePhBlock_spares header answers filling blocks there.toSlot there.resident
    shared).bind fun result spares => ?_
  obtain ⟨found, m1⟩ := result
  cases found with
  | none => exact spares
  | some newpr => exact assert_ends (fun _ => trivial) fun _ => spares

/-- What becomes of a request to get a block at its next page, as `Vm.GotPage` says of the
server. -/
inductive GotPage (answers : Answers) (m : Machine np Page) (p : Fin np) (v phaddr : Nat)
    (rest : Machine np Page → Except Stop (Code × Machine np Page)) :
    Except Stop (Code × Machine np Page) → Prop where
  | stopped (stop : Stop) : GotPage answers m p v phaddr rest (.error stop)
  | absent (reason : pageAt m.vm p v = none) : GotPage answers m p v phaddr rest (.ok (.einval, m))
  | refused {r : Ptr} {i : Nat} {pr : PhysRegion} (there : At m.vm p v r i pr)
      (m1 : Machine np Page) : GotPage answers m p v phaddr rest (.ok (.einval, m1))
  | alone {r : Ptr} {i : Nat} {pr : PhysRegion} (there : At m.vm p v r i pr)
      (one : (m.vm.physBlock pr.ph).refcount = 1) :
      GotPage answers m p v phaddr rest (rest { m with vm := m.vm.swapped pr.ph phaddr })
  | cloned {r : Ptr} {i : Nat} {pr : PhysRegion} (there : At m.vm p v r i pr)
      (shared : 1 < (m.vm.physBlock pr.ph).refcount) (click : Nat)
      (granted : answers.allocMem (m.vm.calls + 2) 1 m.vm.free = some click)
      (memory : Nat → Page) (spares : m.Spares ⟨m.vm, memory⟩) :
      GotPage answers m p v phaddr rest
        (rest ⟨(m.vm.cloned r i pr.ph click).swapped m.vm.newBlock phaddr, memory⟩)

/-- The rest of a page once it is the only one of its block. -/
theorem swap_page (answers : Answers) (m1 : Machine np Page) (r : Ptr) (pr : PhysRegion)
    (phaddr : Nat) (rest : Machine np Page → Except Stop (Code × Machine np Page)) :
    let swap := do
      assert ((m1.vm.physBlock pr.ph).refcount = 1) .getblock
      let vm := m1.vm.freeMem (abs2click (m1.vm.physBlock pr.ph).phys) 1
      let vm := vm.setBlock pr.ph { vm.physBlock pr.ph with phys := phaddr }
      match ← mapPhWritept answers vm r pr with
      | (false, _) => .error (.panic .getblock)
      | (true, vm) => rest { m1 with vm }
    swap = rest { m1 with vm := m1.vm.swapped pr.ph phaddr } ∨ ∃ stop, swap = .error stop := by
  intro swap
  by_cases one : (m1.vm.physBlock pr.ph).refcount = 1
  · have swap_eq : swap = _ := assert_true _ one
    dsimp only at swap_eq
    have called := mapPhWritept_called answers ((m1.vm.freeMem (abs2click
      (m1.vm.physBlock pr.ph).phys) 1).setBlock pr.ph { (m1.vm.freeMem (abs2click
      (m1.vm.physBlock pr.ph).phys) 1).physBlock pr.ph with phys := phaddr }) r pr
    rw [swap_eq]
    revert called
    cases mapPhWritept answers _ r pr with
    | error stop => exact fun _ => Or.inr ⟨stop, rfl⟩
    | ok result =>
        obtain ⟨ok, vm⟩ := result
        intro called
        obtain rfl : vm = _ := called
        cases ok with
        | false => exact Or.inr ⟨_, rfl⟩
        | true => exact Or.inl rfl
  · exact Or.inr ⟨_, assert_stops _ one⟩

theorem getCleanPhysRegion_absent (blocks : Blocks m.vm) {p : Fin np} {v : Nat}
    (absent : pageAt m.vm p v = none) (aligned : regionAt m.vm p v ≠ none → v % vmPageSize = 0) :
    m.getCleanPhysRegion header answers filling p v = .ok (none, m) := by
  unfold getCleanPhysRegion
  cases inRegion : regionAt m.vm p v with
  | none =>
      rw [mapLookup_outside inRegion]
      rfl
  | some r =>
      have whole := aligned (by rw [inRegion]; exact Option.some_ne_none r)
      rw [mapLookup_inside blocks inRegion whole]
      unfold pageAt at absent
      rw [inRegion, Option.bind_some, Option.map_eq_none_iff] at absent
      rw [absent]
      rfl

theorem getCleanPhysRegion_alone (blocks : Blocks m.vm) {p : Fin np} {v : Nat} {r : Ptr} {i : Nat}
    {pr : PhysRegion} (there : At m.vm p v r i pr)
    (alone : ¬ 1 < (m.vm.physBlock pr.ph).refcount) :
    (m.vm.physBlock pr.ph).refcount = 1 ∧
      m.getCleanPhysRegion header answers filling p v = .ok (some (r, pr), m) := by
  have counted := blocks.referenced there.toSlot there.resident
  have one : (m.vm.physBlock pr.ph).refcount = 1 := by omega
  have below := slot_lt there.small
  have place := there.address
  refine ⟨one, ?_⟩
  unfold getCleanPhysRegion
  rw [there.lookup, ok_bind]
  dsimp only
  rw [assert_true _ (by omega), assert_true _ (by omega), assert_true _ counted, if_neg alone,
    assert_true _ one]
  rfl

theorem getPages_succ (header : Header np) (answers : Answers) (filling : Filling Page)
    (blocks : Blocks m.vm) (p : Fin np) (pages : Nat) (vaddr : VirBytes) (phaddr : Nat) :
    GotPage answers m p vaddr.toNat phaddr
      (getPages header answers filling p pages (vaddr + BitVec.ofNat 32 vmPageSize)
        (phaddr + vmPageSize))
      (m.getPages header answers filling p (pages + 1) vaddr phaddr) := by
  rw [getPages]
  by_cases whole : regionAt m.vm p vaddr.toNat ≠ none → vaddr.toNat % vmPageSize = 0
  · cases page : pageAt m.vm p vaddr.toNat with
    | none =>
        rw [getCleanPhysRegion_absent blocks page whole]
        exact .absent page
    | some found =>
        obtain ⟨r, pr⟩ := found
        have inRegion : regionAt m.vm p vaddr.toNat ≠ none := by
          intro outside
          rw [pageAt, outside] at page
          cases page
        obtain ⟨i, there⟩ := blocks.locate page (whole inRegion)
        by_cases shared : 1 < (m.vm.physBlock pr.ph).refcount
        · have clean : Ends (fun _ => True) _ (m.getCleanPhysRegion header answers filling p
              vaddr.toNat) := ((getCleanPhysRegion_bare header answers filling m p vaddr.toNat ▸
              (getCleanPhysRegion_shared header answers blocks there shared).stop
                fun _ _ => trivial).of_map.and
              (getCleanPhysRegion_spares header answers filling blocks there shared)).stop
                fun _ _ => trivial
          revert clean
          generalize m.getCleanPhysRegion header answers filling p vaddr.toNat = outcome
          intro clean
          cases outcome with
          | error stop => exact .stopped stop
          | ok result =>
              obtain ⟨found, m1⟩ := result
              obtain ⟨⟨-, ⟨-, click, granted, isCloned⟩ | ⟨isNone, -⟩⟩, spares⟩ := clean
              · obtain ⟨isFound, isState⟩ := Prod.mk.inj isCloned
                dsimp only [bare] at isFound isState
                subst isFound
                obtain ⟨vm1, memory⟩ := m1
                dsimp only at isState
                subst isState
                rcases swap_page answers ⟨m.vm.cloned r i pr.ph click, memory⟩ r
                  ⟨m.vm.newBlock, i * vmPageSize⟩ phaddr (getPages header answers filling p pages
                    (vaddr + BitVec.ofNat 32 vmPageSize) (phaddr + vmPageSize)) with swap | ⟨stop, swap⟩
                · exact swap ▸ .cloned there shared click granted memory spares
                · exact swap ▸ .stopped stop
              · obtain rfl : found = none := isNone
                exact .refused there m1
        · obtain ⟨one, clean⟩ := getCleanPhysRegion_alone blocks there shared
          rw [clean]
          rcases swap_page answers m r pr phaddr (getPages header answers filling p pages
            (vaddr + BitVec.ofNat 32 vmPageSize) (phaddr + vmPageSize)) with swap | ⟨stop, swap⟩
          · exact swap ▸ .alone there one
          · exact swap ▸ .stopped stop
  · obtain ⟨inRegion, unaligned⟩ := Classical.not_imp.mp whole
    obtain ⟨r, found⟩ := Option.ne_none_iff_exists'.mp inRegion
    unfold getCleanPhysRegion
    rw [mapLookup_unaligned blocks found unaligned]
    exact .stopped _

end Machine

end Ve482.Vm
