import Ve482.Vm.Books
import Ve482.Vm.Slots
import Ve482.Lib.Runs

set_option autoImplicit false

namespace Ve482.Vm

open Function (update)
open Fallible (Ends)

variable {np : Nat} {header : Header np} {answers : Answers} {vm vm' : State np} {order : List Ptr}

/-- A tree keeps its order when nodes are removed. -/
theorem Swept.tree {keep : Ptr → Bool} (books : Books header vm order)
    (swept : Swept header vm vm' (order.filter keep)) (h : Nat) :
    vm'.vmYieldedBlocks h = (vm.vmYieldedBlocks h).filter keep := by
  have sorted : ((vm.vmYieldedBlocks h).filter keep).Pairwise fun left right =>
      (vm'.yielded left).id.Less (vm'.yielded right).id := by
    apply ((books.sorted h).filter keep).imp
    intro left right less
    rw [swept.ids, swept.ids]
    exact less
  have members : (vm'.vmYieldedBlocks h).Perm ((vm.vmYieldedBlocks h).filter keep) := by
    apply (List.perm_ext_iff_of_nodup (swept.books.nodupTree h) ((books.nodupTree h).filter keep)).mpr
    intro node
    rw [swept.books.trees, swept.ids, List.mem_filter, List.mem_filter, books.trees]
    exact and_right_comm
  refine members.eq_of_pairwise ?_ (swept.books.sorted h) sorted
  intro left right _ _ less more
  exact absurd (less.trans more) (BlockId.Less.irrefl _)

/-- The books are in order, and the processes are the same ones. -/
def Booked (header : Header np) (vm vm' : State np) : Prop :=
  (∃ order, Books header vm' order) ∧ ∀ p, (vm'.vmproc p).vmEndpoint = (vm.vmproc p).vmEndpoint ∧
    (vm'.vmproc p).inUse = (vm.vmproc p).inUse

theorem Swept.booked (swept : Swept header vm vm' order) : Booked header vm vm' :=
  ⟨⟨order, swept.books⟩, swept.processes⟩

theorem KeepsBooks.booked (keeps : KeepsBooks vm vm') (books : Books header vm order) :
    Booked header vm vm' :=
  ⟨⟨order, keeps.books books⟩, fun p => ⟨(keeps.vmproc p).1, (keeps.vmproc p).2.1⟩⟩

theorem Booked.trans {first second third : State np} (left : Booked header first second)
    (right : Booked header second third) : Booked header first third :=
  ⟨right.1, fun p => ⟨(right.2 p).1.trans (left.2 p).1, (right.2 p).2.trans (left.2 p).2⟩⟩

theorem vmIsokendpt_live {endpoint : Endpoint} {p : Fin np}
    (found : vmIsokendpt header vm endpoint = some p) :
    (vm.vmproc p).vmEndpoint = endpoint ∧ (vm.vmproc p).inUse := by
  unfold vmIsokendpt at found
  dsimp only at found
  split at found
  · rename_i live
    obtain rfl := Option.some.inj found
    exact live
  · cases found

/-- The stops of a request are of no interest here. -/
abbrev Books.Kept {β : Type} (header : Header np) (vm : State np)
    (outcome : Except Stop (β × State np)) : Prop :=
  Ends (fun _ => True) (fun result => Booked header vm result.2) outcome

theorem yieldCheck_ends (vm : State np) (p : Fin np) (pages : Nat) (v : VirBytes)
    (ph firstPh : Option PhysRegion) :
    Ends (fun _ => True) (fun _ => True) (yieldCheck vm p pages v ph firstPh) := by
  cases yieldCheck vm p pages v ph firstPh <;> trivial

/-- A new node, whose pages are then given to the caller's blocks, is remembered. -/
theorem yieldPages_books (books : Books header vm order) {p : Fin np}
    (live : (vm.vmproc p).inUse) {block : Yielded} {id : BlockId}
    (search : yieldedSearch vm (vm.vmYieldedBlocks (getYieldedAvl header id)) id = none)
    (own : id.owner = (vm.vmproc p).vmEndpoint) (isId : block.id = id) (first : block.younger = none)
    (pages newPhaddr calls : Nat) (v : VirBytes) (free : Finset Nat) :
    Books.Kept header vm do
      let vm' ← yieldPages answers p pages v newPhaddr { vm with
        newYielded := vm.newYielded + 1
        calls
        free
        yielded := update vm.yielded vm.newYielded block }
      return (Code.ok, rememberNode header vm' p vm.newYielded) := by
  have unused : vm.newYielded ∉ order := fun member => Nat.lt_irrefl _ (books.fresh _ member)
  have noted : Books header { vm with
      yielded := update vm.yielded vm.newYielded block
      newYielded := vm.newYielded + 1 } order :=
    books.newNode unused (Nat.le_succ _) fun _ different => Function.update_of_ne different _ _
  refine (yieldPages_keeps p pages v newPhaddr _).bind fun vm1 keeps => ?_
  have keeps1 : KeepsBooks { vm with
      yielded := update vm.yielded vm.newYielded block
      newYielded := vm.newYielded + 1 } vm1 :=
    ⟨keeps.vmproc, keeps.yielded, keeps.newYielded, keeps.vmYieldedBlocks, keeps.lruYoungest,
      keeps.lruOldest, keeps.yields, keeps.yieldedAt, keeps.freed⟩
  have books1 := keeps1.books noted
  have node : vm1.yielded vm.newYielded = block := by
    rw [keeps1.yielded]
    exact Function.update_self _ _ _
  obtain ⟨yielded, lruOldest, result, same, linked⟩ :=
    rememberNode_eq books1 p unused (node.symm ▸ first)
  have whole : Books header (vm1.withNode header p vm.newYielded yielded lruOldest)
      (vm.newYielded :: order) := by
    refine books1.withNode unused ?_ ?_ ?_ ?_ same linked
    · rw [keeps1.newYielded]
      exact Nat.lt_succ_self _
    · rw [(keeps1.vmproc p).2.1]
      exact live
    · rw [node, isId, own, (keeps1.vmproc p).1]
    · intro other member
      have different : other ≠ vm.newYielded := by
        rintro rfl
        exact unused member
      rw [node, isId, keeps1.yielded]
      show (update vm.yielded vm.newYielded block other).id ≠ id
      rw [Function.update_of_ne different]
      exact books.search_none search other member
  show Booked header vm (rememberNode header vm1 p vm.newYielded)
  rw [result]
  refine ⟨⟨_, whole⟩, fun q => ?_⟩
  rw [← (keeps1.vmproc q).1, ← (keeps1.vmproc q).2.1]
  by_cases same : q = p
  · subst same
    simp [State.withNode]
  · simp [State.withNode, same]

theorem yieldblock_books (books : Books header vm order) {p : Fin np} (live : (vm.vmproc p).inUse)
    (id : BitVec 64) (vaddr : VirBytes) (pages : Nat) :
    Books.Kept header vm (yieldblock header answers vm p id vaddr pages) := by
  have unchanged : Booked header vm vm := (KeepsBooks.refl vm).booked books
  unfold yieldblock
  dsimp only
  cases search : yieldedSearch vm (vm.vmYieldedBlocks
      (getYieldedAvl header { owner := (vm.vmproc p).vmEndpoint, id }))
      { owner := (vm.vmproc p).vmEndpoint, id } with
  | some node => exact unchanged
  | none =>
      by_cases wrong : vaddr.toNat % vmPageSize ≠ 0 ∨ pages < 1
      · rw [if_pos wrong]
        exact unchanged
      rw [if_neg wrong]
      refine (yieldCheck_ends vm p pages vaddr none none).bind fun checked _ => ?_
      obtain ⟨code, ph, firstPh⟩ := checked
      cases code with
      | ok =>
          rcases ph with _ | ph
          · trivial
          rcases firstPh with _ | firstPh
          · trivial
          dsimp only
          by_cases memory : answers.slaballoc vm.calls
          · rw [if_neg (not_not.mpr memory)]
            refine assert_ends (fun _ => trivial) fun _ => ?_
            cases given : answers.allocMem vm.called.calls pages vm.called.free with
            | none =>
                have counted : Books header { vm with newYielded := vm.newYielded + 1 } order :=
                  books.newNode (fun member => Nat.lt_irrefl _ (books.fresh _ member))
                    (Nat.le_succ _) fun _ _ => rfl
                exact ⟨⟨order, counted.linked, counted.trees, counted.sorted, counted.times,
                  counted.past, counted.counts, counted.owners, counted.slots, counted.fresh⟩,
                  fun _ => ⟨rfl, rfl⟩⟩
            | some memClicks =>
                dsimp only
                exact yieldPages_books books live search rfl rfl rfl pages _ _ vaddr _
          · rw [if_pos memory]
            exact ⟨⟨order, (keepsBooks_called vm).books books⟩, fun _ => ⟨rfl, rfl⟩⟩
      | esrch | efault | einval | enomem => exact unchanged

theorem getblock_books (books : Books header vm order) (p : Fin np) (id : BitVec 64)
    (vaddr : VirBytes) (pages : Nat) :
    Books.Kept header vm (getblock header answers vm p id vaddr pages) := by
  have unchanged : Booked header vm vm := (KeepsBooks.refl vm).booked books
  unfold getblock
  dsimp only
  cases search : yieldedSearch vm (vm.vmYieldedBlocks
      (getYieldedAvl header { owner := (vm.vmproc p).vmEndpoint, id }))
      { owner := (vm.vmproc p).vmEndpoint, id } with
  | none => exact unchanged
  | some yb =>
      dsimp only
      by_cases wrong : (vm.yielded yb).pages ≠ pages
      · rw [if_pos wrong]
        exact unchanged
      rw [if_neg wrong]
      refine (getPages_keeps p pages vaddr _ vm).bind fun got keeps => ?_
      obtain ⟨code, vm1⟩ := got
      have before : Booked header vm vm1 := keeps.booked books
      cases code with
      | ok =>
          obtain ⟨vm2, result, swept, -⟩ :=
            freeyieldednode_ok (keeps.books books) (books.search_some search).1 false
          dsimp only
          rw [result]
          exact before.trans swept.booked
      | esrch | efault | einval | enomem => exact before

theorem doYieldblockgetblock_books (books : Books header vm order) (m : Message) :
    Books.Kept header vm (doYieldblockgetblock header answers vm m) := by
  have unchanged : Booked header vm vm := (KeepsBooks.refl vm).booked books
  unfold doYieldblockgetblock
  cases caller : vmIsokendpt header vm m.source with
  | none => trivial
  | some p =>
      have live := (vmIsokendpt_live caller).2
      dsimp only
      split
      · exact unchanged
      · have getting : ∀ vm1, Booked header vm vm1 → Books.Kept header vm
            (if m.getid ≠ header.vmBlockidNone then
              getblock header answers vm1 p m.getid m.vaddr (Int.tdiv m.len.toInt vmPageSize).toNat
            else pure (Code.esrch, vm1)) := by
          intro vm1 booked
          split
          · obtain ⟨order1, books1⟩ := booked.1
            exact (getblock_books books1 p _ _ _).imp fun _ later => booked.trans later
          · exact booked
        split
        · exact (yieldblock_books books live _ _ _).bind fun yielded booked =>
            getting yielded.2 booked
        · exact getting vm unchanged

theorem doForgetblock_books (books : Books header vm order) (source : Endpoint) (id : BitVec 64) :
    Ends (fun _ => True) (Booked header vm) (doForgetblock header vm source id) := by
  unfold doForgetblock
  cases vmIsokendpt header vm source with
  | none => trivial
  | some p =>
      dsimp only
      cases search : yieldedSearch vm (vm.vmYieldedBlocks
          (getYieldedAvl header { owner := (vm.vmproc p).vmEndpoint, id }))
          { owner := (vm.vmproc p).vmEndpoint, id } with
      | none => exact (KeepsBooks.refl vm).booked books
      | some yb =>
          obtain ⟨vm', result, swept, -⟩ :=
            freeyieldednode_ok books (books.search_some search).1 true
          dsimp only
          rw [result]
          exact swept.booked

theorem mapSubfreeLoop_keeps (r : Ptr) (start last count voffset : Nat) (vm : State np) :
    Ends (fun _ => True) (KeepsBooks vm) (mapSubfreeLoop r start last count voffset vm) := by
  induction count generalizing voffset vm with
  | zero => exact .refl vm
  | succ count ih =>
      rw [mapSubfreeLoop]
      refine (physblockGet_ends _ _).bind fun found _ => ?_
      cases found with
      | none => exact ih _ vm
      | some pr =>
          refine assert_ends (fun _ => trivial) fun _ => assert_ends (fun _ => trivial) fun _ =>
            (pbUnreferenced_keeps vm r pr).bind fun vm1 keeps => ?_
          exact (ih _ vm1).imp fun _ later => keeps.trans later

theorem mapFree_keeps (vm : State np) (r : Ptr) :
    Ends (fun _ => True) (KeepsBooks vm) (mapFree vm r) := by
  unfold mapFree
  refine (mapSubfreeLoop_keeps r _ _ _ _ vm).bind fun vm1 keeps => ?_
  exact keeps.trans ⟨fun _ => ⟨rfl, rfl, rfl⟩, rfl, rfl, rfl, rfl, rfl, rfl, rfl, rfl⟩

theorem keepsBooks_setRegions (vm : State np) (p : Fin np) (regions : List Ptr) :
    KeepsBooks vm (vm.setProc p { vm.vmproc p with vmRegionsAvl := regions }) := by
  refine ⟨fun q => ?_, rfl, rfl, rfl, rfl, rfl, rfl, rfl, rfl⟩
  by_cases same : q = p
  · subst same
    simp [State.setProc]
  · simp [State.setProc, same]

theorem mapFreeRegions_keeps (p : Fin np) (regions : List Ptr) (vm : State np) :
    Ends (fun _ => True) (KeepsBooks vm) (mapFreeRegions p regions vm) := by
  induction regions generalizing vm with
  | nil => exact .refl vm
  | cons r regions ih =>
      rw [mapFreeRegions]
      refine (mapFree_keeps _ r).bind fun vm1 keeps => (ih vm1).imp fun vm' later => ?_
      exact (keepsBooks_setRegions vm p _).trans (keeps.trans later)

/-- The nodes that are left have other owners. -/
theorem mapFreeProc_ends (books : Books header vm order) {p : Fin np}
    (live : (vm.vmproc p).inUse) :
    Ends (fun _ => True) (fun vm' => Swept header vm vm' (order.filter fun node =>
      (vm.yielded node).id.owner ≠ (vm.vmproc p).vmEndpoint)) (mapFreeProc header vm p) := by
  unfold mapFreeProc
  refine (mapFreeRegions_keeps p _ vm).bind fun vm1 keeps => ?_
  have cleared := keeps.trans (keepsBooks_setRegions vm1 p [])
  have live' : ((vm1.setProc p { vm1.vmproc p with vmRegionsAvl := [] }).vmproc p).inUse := by
    rw [(cleared.vmproc p).2.1]
    exact live
  obtain ⟨vm', result, swept⟩ := freeYieldedProc_ok live' (cleared.books books)
  rw [cleared.yielded, (cleared.vmproc p).1] at swept
  show Ends _ _ (freeYieldedProc header _ p)
  rw [result]
  refine ⟨swept.books, fun node => ?_, fun q => ?_⟩
  · rw [swept.ids, cleared.yielded]
  · rw [(swept.processes q).1, (swept.processes q).2, (cleared.vmproc q).1, (cleared.vmproc q).2.1]
    exact ⟨rfl, rfl⟩

/-- A process without nodes may go. -/
theorem Books.ended (books : Books header vm order) {p : Fin np}
    (none : ∀ node ∈ order, (vm.yielded node).id.owner ≠ (vm.vmproc p).vmEndpoint) :
    Books header (vm.setProc p { vm.vmproc p with inUse := false }) order := by
  have others : ∀ q, q ≠ p →
      (vm.setProc p { vm.vmproc p with inUse := false }).vmproc q = vm.vmproc q :=
    fun q different => Function.update_of_ne different _ _
  have alive : ∀ q, ((vm.setProc p { vm.vmproc p with inUse := false }).vmproc q).inUse → q ≠ p := by
    rintro q running rfl
    simp [State.setProc] at running
  refine
    { linked := books.linked, trees := books.trees, sorted := books.sorted, times := books.times,
      past := books.past, counts := ?_, owners := ?_, slots := ?_, fresh := books.fresh }
  · intro q running
    have different := alive q running
    rw [others q different] at running ⊢
    exact books.counts q running
  · intro node member
    have owner := books.owners node member
    show (vmIsokendpt header _ (vm.yielded node).id.owner).isSome
    obtain ⟨q, found⟩ := Option.isSome_iff_exists.mp owner
    have named := vmIsokendpt_live found
    have different : q ≠ p := by
      rintro rfl
      exact none node member named.1.symm
    have slot : header.endpointP (vm.yielded node).id.owner = q := by
      unfold vmIsokendpt at found
      dsimp only at found
      split at found
      · exact Option.some.inj found
      · cases found
    have same : vmIsokendpt header (vm.setProc p { vm.vmproc p with inUse := false })
        (vm.yielded node).id.owner = vmIsokendpt header vm (vm.yielded node).id.owner := by
      unfold vmIsokendpt
      rw [slot]
      dsimp only
      rw [others q different]
    rw [same]
    exact owner
  · intro q running
    have different := alive q running
    rw [others q different] at running ⊢
    exact books.slots q running

theorem step_books (books : Books header vm order) (event : Event np) :
    Ends (fun _ => True) (fun vm' => ∃ order, Books header vm' order) (step header vm event) := by
  cases event with
  | yieldblockGetblock answers m =>
      have numbered : KeepsBooks vm { vm with calls := 0 } :=
        ⟨fun _ => ⟨rfl, rfl, rfl⟩, rfl, rfl, rfl, rfl, rfl, rfl, rfl, rfl⟩
      have done : Books.Kept header _ (doYieldblockgetblock header answers _ m) :=
        doYieldblockgetblock_books (numbered.books books) m
      unfold step
      dsimp only
      revert done
      cases doYieldblockgetblock header answers { vm with calls := 0 } m with
      | error stop => exact fun _ => trivial
      | ok result => exact fun booked => booked.1
  | forgetblock source id =>
      exact (doForgetblock_books books source id).imp fun _ booked => booked.1
  | forgetblocks source =>
      unfold step doForgetblocks
      dsimp only
      cases caller : vmIsokendpt header vm source with
      | none => trivial
      | some p =>
          obtain ⟨vm', result, swept⟩ := freeYieldedProc_ok (vmIsokendpt_live caller).2 books
          dsimp only
          rw [result]
          exact ⟨_, swept.books⟩
  | freeYielded maxBytes =>
      obtain ⟨bytes, vm', kept, gone, result, -, swept, -⟩ := freeYielded_ok maxBytes books
      unfold step
      dsimp only
      rw [result]
      exact ⟨kept, swept.books⟩
  | exit p =>
      unfold step
      by_cases live : (vm.vmproc p).inUse
      · dsimp only
        rw [if_pos live]
        refine (mapFreeProc_ends books live).bind fun vm' swept => ?_
        refine ⟨_, swept.books.ended ?_⟩
        intro node member
        have owner := (List.mem_filter.mp member).2
        rw [swept.ids, (swept.processes p).1]
        exact of_decide_eq_true owner
      · dsimp only
        rw [if_neg live]
        exact ⟨order, books⟩

/-- A server that has just come up. -/
structure Empty (header : Header np) (vm : State np) : Prop where
  vmYieldedBlocks : ∀ h, vm.vmYieldedBlocks h = []
  lruYoungest : vm.lruYoungest = none
  lruOldest : vm.lruOldest = none
  vmYielded : ∀ p, (vm.vmproc p).inUse → (vm.vmproc p).vmYielded = 0
  slots : ∀ p, (vm.vmproc p).inUse → header.endpointP (vm.vmproc p).vmEndpoint = p

theorem Empty.books (empty : Empty header vm) : Books header vm [] where
  linked := ⟨empty.lruYoungest, empty.lruOldest⟩
  trees := by simp [empty.vmYieldedBlocks]
  sorted := by simp [empty.vmYieldedBlocks]
  times := .nil
  past := by simp
  counts := by simpa using empty.vmYielded
  owners := by simp
  slots := empty.slots
  fresh := by simp

theorem run_books (empty : Empty header vm) (events : List (Event np)) :
    Ends (fun _ => True) (fun vm' => ∃ order, Books header vm' order)
      (Runs.run (next header) (.ok vm) events) := by
  have start : Ends (fun _ : Stop => True) (fun vm' => ∃ order, Books header vm' order)
      (.ok vm) := ⟨[], empty.books⟩
  revert start
  generalize Except.ok vm = outcome
  intro start
  induction events generalizing outcome with
  | nil => exact start
  | cons event events ih =>
      rw [Runs.run_cons]
      apply ih
      refine start.bind fun vm1 booked => ?_
      obtain ⟨order, books⟩ := booked
      exact step_books books event

/-- In every state that is reached the list, the trees and the counts agree; and the end of a
process takes its blocks away, and no others. -/
theorem bookkeeping (empty : Empty header vm) (events : List (Event np))
    (reached : Runs.run (next header) (.ok vm) events = .ok vm') :
    ∃ order, Books header vm' order ∧ order.Nodup ∧
      (∀ left ∈ order, ∀ right ∈ order,
        (vm'.yielded left).id = (vm'.yielded right).id → left = right) ∧
      ∀ p, (vm'.vmproc p).inUse →
        let others : Ptr → Bool := fun node =>
          (vm'.yielded node).id.owner ≠ (vm'.vmproc p).vmEndpoint
        (∃ swept, freeYieldedProc header vm' p = .ok swept ∧
          Swept header vm' swept (order.filter others) ∧
          ∀ h, swept.vmYieldedBlocks h = (vm'.vmYieldedBlocks h).filter others) ∧
        ∀ gone, mapFreeProc header vm' p = .ok gone →
          Swept header vm' gone (order.filter others) ∧
          ∀ h, ∀ node ∈ gone.vmYieldedBlocks h,
            (gone.yielded node).id.owner ≠ (vm'.vmproc p).vmEndpoint := by
  obtain ⟨order, books⟩ := (run_books empty events).of_eq reached
  refine ⟨order, books, books.nodup, fun left inLeft right inRight => books.unique inLeft inRight,
    fun p live => ⟨?_, ?_⟩⟩
  · obtain ⟨swept, result, after⟩ := freeYieldedProc_ok live books
    exact ⟨swept, result, after, after.tree books⟩
  · intro gone result
    have after := (mapFreeProc_ends books live).of_eq result
    refine ⟨after, fun h node member => ?_⟩
    rw [after.tree books h] at member
    rw [after.ids]
    exact of_decide_eq_true (List.mem_filter.mp member).2

def firstProcess : Fin 2 := 0

def smallHeader : Header 2 where
  hash _ id := id.toNat
  endpointP endpoint := if endpoint = 1 then 0 else 1
  vmBlockidNone := BitVec.allOnes 64
  writable _ block := block.phys ≠ mapNone ∧ block.refcount = 1
  writable_none _ _ := by simp

/-- The first free pages below a bound. -/
def firstFit (bound : Nat) : Answers where
  slaballoc _ := true
  allocMem _ pages free := (List.range bound).find? fun click => ∀ i < pages, click + i ∈ free
  allocMem_free _ _ _ _ found i small := by
    have free := List.find?_some found
    simp only [decide_eq_true_eq] at free
    exact free i small
  ptWritemap _ := true
  sysAbscopy _ := true

def smallRegion : VirRegion 2 where
  vaddr := 8 * vmPageSize
  length := 4 * vmPageSize
  flags := ⟨true, true, false, false, false, false, false⟩
  memtype := 0
  parent := 0
  physblocks i := if i < 3 then some ⟨i, i * vmPageSize⟩ else none

/-- A process with one region of four pages, of which the first three are there, and a process
without regions. -/
def smallStart : State 2 where
  vmproc p := if p = 0 then ⟨1, true, [0], 0⟩ else ⟨2, true, [], 0⟩
  virRegion _ := smallRegion
  physBlock pb := if pb < 3 then ⟨(1 + pb) * vmPageSize, 1⟩ else ⟨mapNone, 0⟩
  yielded _ := ⟨⟨0, 0⟩, 0, 0, none, none⟩
  newRegion := 1
  newBlock := 3
  newYielded := 0
  vmYieldedBlocks _ := []
  lruYoungest := none
  lruOldest := none
  free := {8, 9, 10, 11, 12, 13, 14, 15}
  calls := 0
  yields := 0
  yieldedAt _ := 0
  freed := []

theorem smallRegion_sound : smallRegion.Sound := by
  refine ⟨by decide, fun i pr _ slot => ?_⟩
  by_cases there : i < 3
  · have found : smallRegion.physblocks i = some ⟨i, i * vmPageSize⟩ := if_pos there
    rw [found] at slot
    rw [← Option.some.inj slot]
  · have found : smallRegion.physblocks i = none := if_neg there
    rw [found] at slot
    cases slot

theorem smallStart_counted (pb : Ptr) :
    smallRegion.allRefs.count pb ≤ (smallStart.physBlock pb).refcount := by
  have refs : smallRegion.allRefs = [0, 1, 2] := by decide
  rw [refs]
  show _ ≤ (if pb < 3 then (⟨(1 + pb) * vmPageSize, 1⟩ : PhysBlock) else ⟨mapNone, 0⟩).refcount
  by_cases small : pb < 3
  · rw [if_pos small]
    have nodup : [0, 1, 2].Nodup := by decide
    exact List.nodup_iff_count_le_one.mp nodup pb
  · have known : ∀ other ∈ [0, 1, 2], other < 3 := by decide
    rw [if_neg small, List.count_eq_zero_of_not_mem fun member => small (known pb member)]

theorem smallStart_empty : Empty smallHeader smallStart where
  vmYieldedBlocks _ := rfl
  lruYoungest := rfl
  lruOldest := rfl
  vmYielded := by decide
  slots := by decide

/-- A request to yield the page at a slot of the region as one block and to get another one. -/
def small (yieldid getid : BitVec 64) (slot : Nat) (len : BitVec 32) : Event 2 :=
  .yieldblockGetblock (firstFit 16) ⟨1, yieldid, getid, BitVec.ofNat 32 ((8 + slot) * vmPageSize), len⟩

/-- The second block is yielded, the first one is got back, and the second one stays. -/
theorem bookkeeping_small : ∃ vm', Runs.run (next smallHeader) (.ok smallStart)
      [small 5 (BitVec.allOnes 64) 0 4096, small 6 (BitVec.allOnes 64) 1 8192,
        small (BitVec.allOnes 64) 5 2 4096] = .ok vm' ∧
    vm'.lruYoungest = some 1 ∧ ∃ order, Books smallHeader vm' order ∧ order.Nodup := by
  have young : (Runs.run (next smallHeader) (.ok smallStart)
      [small 5 (BitVec.allOnes 64) 0 4096, small 6 (BitVec.allOnes 64) 1 8192,
        small (BitVec.allOnes 64) 5 2 4096]).map State.lruYoungest = .ok (some 1) := by
    decide
  cases reached : Runs.run (next smallHeader) (.ok smallStart)
      [small 5 (BitVec.allOnes 64) 0 4096, small 6 (BitVec.allOnes 64) 1 8192,
        small (BitVec.allOnes 64) 5 2 4096] with
  | error stop =>
      rw [reached] at young
      cases young
  | ok vm' =>
      rw [reached] at young
      obtain ⟨order, books, nodup, -⟩ := bookkeeping smallStart_empty _ reached
      exact ⟨vm', rfl, Except.ok.inj young, order, books, nodup⟩

end Ve482.Vm
