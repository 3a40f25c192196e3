import Ve482.Vm.Fork
import Ve482.Vm.Owner
import Ve482.Vm.Tally

set_option autoImplicit false

namespace Ve482.Vm

open Function (update)
open Fallible (Ends)

variable {np : Nat} {header : Header np} {answers : Answers} {vm vm' : State np} {order : List Ptr}
  {regions : List Ptr}

theorem Blocks.measured (blocks : Blocks vm) : Measured vm (allRegions vm) :=
  ⟨blocks.distinct, fun r member => (blocks.sound r member).aligned⟩

theorem freeyieldednode_tallied (regions : List Ptr) (books : Books header vm order) {node : Ptr}
    (member : node ∈ order) {freemem : Bool}
    (result : freeyieldednode header vm node freemem = .ok (vmPageSize, vm')) :
    Tallied regions vm vm' := by
  have freed := freeyieldednode_freed books member result
  obtain ⟨p, yielded, lruYoungest, lruOldest, result', -⟩ :=
    freeyieldednode_eq books member freemem
  obtain ⟨-, isState⟩ := Prod.mk.inj (Except.ok.inj (result.symm.trans result'))
  refine .of_same (fun q => ⟨freed.lists q, ?_⟩) freed.virRegion (by rw [isState]; rfl)
    freed.newBlock.ge fun pb => by rw [freed.physBlock]
  rw [isState]
  by_cases own : q = p
  · subst own
    simp [State.withoutNode]
  · simp [State.withoutNode, own]

/-- The rule for many nodes. -/
theorem freeing_tallied (header : Header np) (regions : List Ptr) (start vm : State np)
    (order : List Ptr) (node : Ptr)
    (books : Books header vm order) (member : node ∈ order) (kept : Tallied regions start vm)
    (vm' : State np) (result : freeyieldednode header vm node true = .ok (vmPageSize, vm')) :
    Tallied regions start vm' :=
  kept.trans (freeyieldednode_tallied regions books member result)

theorem given_newRegion (vm : State np) (prs : List PhysRegion) (newPhaddr : Nat) :
    (vm.given prs newPhaddr).newRegion = vm.newRegion := by
  induction prs generalizing vm newPhaddr with
  | nil => rfl
  | cons pr prs ih => exact ih _ _

theorem rememberNode_newRegion (header : Header np) (vm : State np) (p : Fin np) (newyb : Ptr) :
    (rememberNode header vm p newyb).newRegion = vm.newRegion := by
  unfold rememberNode
  dsimp only [State.setTree, State.setProc]
  cases vm.lruYoungest <;> rfl

theorem yieldblock_tallied (header : Header np) (answers : Answers) (regions : List Ptr)
    (wellformed : Wellformed header vm) (p : Fin np) (id : BitVec 64) (vaddr : VirBytes)
    (pages : Nat) : Tallies regions vm (yieldblock header answers vm p id vaddr pages) := by
  obtain ⟨order, books⟩ := wellformed.books
  have cases' := yieldblock_cases header answers wellformed.blocks p id vaddr pages
  revert cases'
  generalize yieldblock header answers vm p id vaddr pages = outcome
  intro cases'
  cases cases' with
  | stopped => trivial
  | failed => exact .of_same (fun _ => ⟨rfl, rfl⟩) rfl rfl (Nat.le_refl _) fun _ => rfl
  | yielded block pr prs click search isId size wanted first place found contiguous memory blocks =>
      have remembered := rememberNode_remembered header books p first (pr :: prs) click
      obtain ⟨-, -, -, -, counts⟩ := given_regions vm (pr :: prs) (click2abs click)
      refine .of_same (fun q => ⟨remembered.lists q, (remembered.processes q).2⟩)
        remembered.virRegion ?_ remembered.newBlock.ge fun pb => ?_
      · rw [rememberNode_newRegion, given_newRegion]
        rfl
      · rw [remembered.physBlock]
        exact counts pb

theorem getblock_tallied (header : Header np) (answers : Answers)
    (wellformed : Wellformed header vm) (measured : Measured vm regions)
    (members : ∀ p, ∀ r ∈ (vm.vmproc p).vmRegionsAvl, r ∈ regions) (p : Fin np) (id : BitVec 64)
    (vaddr : VirBytes) (pages : Nat) :
    Tallies regions vm (getblock header answers vm p id vaddr pages) := by
  obtain ⟨order, books⟩ := wellformed.books
  unfold getblock
  dsimp only
  cases search : yieldedSearch vm (vm.vmYieldedBlocks
      (getYieldedAvl header { owner := (vm.vmproc p).vmEndpoint, id }))
      { owner := (vm.vmproc p).vmEndpoint, id } with
  | none => exact .refl vm
  | some yb =>
      dsimp only
      split
      · exact .refl vm
      · have keeps : Keeps vm (getPages header answers p pages vaddr (vm.yielded yb).physaddr vm) :=
          getPages_keeps p pages vaddr _ vm
        refine (((getPages_tallied header answers p pages vaddr _ measured (members p)
          wellformed.blocks.fresh).and keeps).stop fun _ _ => trivial).bind fun got after => ?_
        obtain ⟨code, vm1⟩ := got
        obtain ⟨tallied, keeps⟩ := after
        have books1 := keeps.books books
        have member := (books.search_some search).1
        cases code with
        | ok =>
            obtain ⟨vm2, result, -⟩ := freeyieldednode_ok books1 member false
            dsimp only
            rw [result]
            exact tallied.trans (freeyieldednode_tallied regions books1 member result)
        | esrch | efault | einval | enomem => exact tallied

/-- A request leaves the regions where they are, and the counts right. -/
theorem request_tallied (wellformed : Wellformed header vm) (event : Event np)
    (stays : ∀ p, event ≠ .exit p) :
    Ends (fun _ => True) (Tallied (allRegions vm) vm) (step header vm event) := by
  obtain ⟨order, books⟩ := wellformed.books
  have step := freeing_tallied header (allRegions vm) vm
  cases event with
  | yieldblockGetblock answers m =>
      unfold Vm.step
      dsimp only
      cases caller : vmIsokendpt header vm m.source with
      | none =>
          have caller' : vmIsokendpt header { vm with calls := 0 } m.source = none := caller
          unfold doYieldblockgetblock
          rw [caller']
          trivial
      | some p =>
          have caller' : vmIsokendpt header { vm with calls := 0 } m.source = some p := caller
          have live := (vmIsokendpt_live caller).2
          have numbered := wellformed.numbered
          have start : Tallied (allRegions vm) vm { vm with calls := 0 } :=
            .of_same (fun _ => ⟨rfl, rfl⟩) rfl rfl (Nat.le_refl _) fun _ => rfl
          have done : Tallies (allRegions vm) vm
              (doYieldblockgetblock header answers { vm with calls := 0 } m) := by
            refine doYieldblockgetblock_ends
              (fun _ vm1 => Wellformed header vm1 ∧ Tallied (allRegions vm) vm vm1) caller'
              (fun _ => start) (fun _ _ => ⟨numbered, start⟩) (fun pages _ => ?_)
              (fun _ _ _ middle => middle.2) (fun pages vm1 _ _ middle => ?_)
            · have wellformed' := yieldblock_wellformed header answers numbered live m.yieldid
                m.vaddr pages
              have tallied := yieldblock_tallied header answers (allRegions vm) numbered p m.yieldid
                m.vaddr pages
              exact ((wellformed'.and tallied).stop fun _ _ => trivial).imp
                fun result after => ⟨after.1, start.trans after.2⟩
            · obtain ⟨wellformed', tallied⟩ := middle
              refine (getblock_tallied header answers wellformed'
                (tallied.measured wellformed.blocks.measured) (fun q r member => ?_) p m.getid m.vaddr
                pages).imp fun result later => tallied.trans later
              rw [tallied.lists] at member
              exact mem_allRegions member
          exact done.map
  | forgetblock source id =>
      unfold Vm.step doForgetblock
      dsimp only
      cases vmIsokendpt header vm source with
      | none => trivial
      | some p =>
          dsimp only
          cases search : yieldedSearch vm (vm.vmYieldedBlocks
              (getYieldedAvl header { owner := (vm.vmproc p).vmEndpoint, id }))
              { owner := (vm.vmproc p).vmEndpoint, id } with
          | none => exact .refl vm
          | some yb =>
              have kept := freeing_keeps step ⟨order, books⟩ (.refl vm) yb
              exact kept.bind fun result after => after.2
  | forgetblocks source =>
      unfold Vm.step doForgetblocks
      dsimp only
      cases vmIsokendpt header vm source with
      | none => trivial
      | some p => exact freeYieldedProcLoop_keeps step p yieldHashsize 0 ⟨order, books⟩ (.refl vm)
  | freeYielded maxBytes =>
      exact (freeYieldedLoop_keeps step maxBytes maxBytes 0 ⟨order, books⟩ (.refl vm)).map
  | exit p => exact absurd rfl (stays p)

end Ve482.Vm
