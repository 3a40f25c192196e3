import Ve482.Vm.Exit

set_option autoImplicit false

namespace Ve482.Vm

open Function (update)
open Fallible (Ends)

variable {np : Nat} {header : Header np} {answers : Answers} {vm vm' : State np} {order : List Ptr}

/-- The length of a request is that of some pages. -/
def Message.Sized (m : Message) (pages : Nat) : Prop :=
  0 < pages ∧ m.len.toInt = pages * vmPageSize

theorem Message.sized {m : Message} (whole : ¬ (Int.tmod m.len.toInt vmPageSize ≠ 0 ∨
    Int.tdiv m.len.toInt vmPageSize < 1)) :
    m.Sized (Int.tdiv m.len.toInt vmPageSize).toNat := by
  have parts := Int.tmod_add_mul_tdiv m.len.toInt vmPageSize
  unfold Message.Sized vmPageSize at *
  omega

theorem Message.Sized.unique {m : Message} {pages : Nat} (sized : m.Sized pages) :
    Int.tmod m.len.toInt vmPageSize = 0 ∧ Int.tdiv m.len.toInt vmPageSize = pages := by
  obtain ⟨positive, size⟩ := sized
  rw [size]
  exact ⟨Int.mul_tmod_left _ _, Int.mul_tdiv_cancel _ (by decide)⟩

/-- The length is a C int. -/
theorem Message.Sized.short {m : Message} {pages : Nat}
    (sized : m.Sized pages) : pages < 2 ^ 20 := by
  have bound := m.len.toInt_lt
  have size := sized.2
  unfold vmPageSize at size
  omega

/-- What a request needs of its pages, if there is a block of that many pages to be got. -/
def Wanted (header : Header np) (answers : Answers) (vm : State np) (p : Fin np)
    (stopped missing : Prop) (id : BitVec 64) (vaddr : VirBytes) (pages : Nat) : Prop :=
  let blockid : BlockId := { owner := (vm.vmproc p).vmEndpoint, id }
  ∀ yb, yieldedSearch vm (vm.vmYieldedBlocks (getYieldedAvl header blockid)) blockid = some yb →
    (vm.yielded yb).pages = pages →
    Walk answers vm p stopped missing pages vaddr [] vm.calls vm.free

/-- A request for pages none of which is shared comes to its end. -/
theorem Found.walk (blocks : Blocks vm) {p : Fin np} {stopped missing : Prop} {v : VirBytes}
    {prs : List PhysRegion} (found : Found vm p v prs) (call : Nat) (free : Finset Nat) :
    Walk answers vm p stopped missing prs.length v [] call free := by
  induction prs generalizing v call free with
  | nil => trivial
  | cons pr prs ih =>
      obtain ⟨⟨r, i, there⟩, one, later⟩ := found
      rw [List.length_cons, Walk, if_neg fun both => both.2 (there.aligned blocks),
        there.found blocks]
      dsimp only
      rw [if_neg (by simp [one])]
      exact ih later _ _

/-- What a request to yield a block leaves of the state, for a request to get one. -/
theorem yieldblock_wanted (header : Header np) (answers : Answers)
    (wellformed : Wellformed header vm) {p : Fin np} (live : (vm.vmproc p).inUse)
    (yieldid id : BitVec 64) (vaddr : VirBytes) (pages : Nat) (stopped missing : Prop) :
    Ends (fun _ => ¬ Writes answers) (fun result => Wellformed header result.2 ∧
        (Wanted header answers result.2 p stopped missing id vaddr pages ↔
          Wanted header answers vm p stopped missing id vaddr pages))
      (yieldblock header answers vm p yieldid vaddr pages) := by
  have whole := yieldblock_wellformed header answers wellformed live yieldid vaddr pages
  have cases' := yieldblock_cases header answers wellformed.blocks p yieldid vaddr pages
  have blocks := wellformed.blocks
  obtain ⟨order, books⟩ := wellformed.books
  revert whole cases'
  generalize yieldblock header answers vm p yieldid vaddr pages = outcome
  intro whole cases'
  cases cases' with
  | stopped stop reason => exact reason
  | failed code bad newYielded calls later early =>
      refine ⟨whole, ?_⟩
      rcases early with rfl | ⟨prs, length, found⟩
      · refine forall_congr' fun yb => imp_congr_right fun _ => imp_congr_right fun _ => ?_
        exact walk_congr ⟨fun _ _ => rfl, fun _ _ => rfl, fun _ => ⟨rfl, rfl⟩⟩
          fun _ _ _ _ _ => ⟨rfl, rfl⟩
      · subst length
        have found' : Found { vm with newYielded, calls } p vaddr prs :=
          found.congr (fun _ => rfl) rfl fun _ => rfl
        exact iff_of_true (fun _ _ _ => found'.walk whole.blocks _ _)
          (fun _ _ _ => found.walk blocks _ _)
  | yielded block pr prs click search isId size wanted first place found contiguous memory blocks' =>
      refine ⟨whole, ?_⟩
      have remembered := rememberNode_remembered header books p first (pr :: prs) click
      have counts : ∀ pb, ((vm.given (pr :: prs) (click2abs click)).physBlock pb).refcount =
          (vm.physBlock pb).refcount := (given_regions vm _ _).2.2.2.2
      subst wanted
      have found' := found.congr remembered.lists remembered.virRegion
        (fun pb => by rw [remembered.physBlock, counts])
      exact iff_of_true (fun _ _ _ => found'.walk whole.blocks _ _)
        (fun _ _ _ => found.walk blocks _ _)

theorem getblock_wanted (header : Header np) (answers : Answers)
    (wellformed : Wellformed header vm) (p : Fin np) (id : BitVec 64) (vaddr : VirBytes)
    {pages : Nat} (short : pages < 2 ^ 20) (stopped missing : Prop) :
    Ends (fun _ => Writes answers →
        (Wanted header answers vm p stopped missing id vaddr pages ↔ stopped))
      (fun result => Wellformed header result.2 ∧
        (Wanted header answers vm p stopped missing id vaddr pages ↔
          result.1 ≠ .einval ∨ missing))
      (getblock header answers vm p id vaddr pages) := by
  obtain ⟨order, books⟩ := wellformed.books
  unfold getblock Wanted
  dsimp only
  cases search : yieldedSearch vm (vm.vmYieldedBlocks
      (getYieldedAvl header { owner := (vm.vmproc p).vmEndpoint, id }))
      { owner := (vm.vmproc p).vmEndpoint, id } with
  | none => exact ⟨wellformed, by simp⟩
  | some yb =>
      have member := (books.search_some search).1
      have paged : (vm.yielded yb).physaddr % vmPageSize = 0 :=
        wellformed.nodes _ yb ((books.trees _ yb).mpr ⟨member, rfl⟩)
      dsimp only
      by_cases size : (vm.yielded yb).pages = pages
      · rw [if_neg (not_not.mpr size)]
        have wanted : (∀ node, some yb = some node → (vm.yielded node).pages = pages →
            Walk answers vm p stopped missing pages vaddr [] vm.calls vm.free) ↔
            Walk answers vm p stopped missing pages vaddr [] vm.calls vm.free := by
          refine ⟨fun all => all yb rfl size, fun walk _ _ _ => walk⟩
        rw [wanted]
        have keeps : Keeps vm (getPages header answers p pages vaddr (vm.yielded yb).physaddr vm) :=
          getPages_keeps p pages vaddr _ vm
        have walk := getPages_walk header answers p stopped missing pages vaddr
          wellformed.blocks paged short
        refine ((walk.and keeps).stop fun _ => And.left).bind fun got after => ?_
        obtain ⟨code, vm1⟩ := got
        obtain ⟨⟨blocks1, isCode, reached⟩, keeps⟩ := after
        have books1 := keeps.books books
        have wellformed1 : Wellformed header vm1 := by
          refine ⟨⟨order, books1⟩, blocks1, fun h node inTree => ?_⟩
          rw [keeps.vmYieldedBlocks] at inTree
          rw [keeps.yielded]
          exact wellformed.nodes h node inTree
        rcases isCode with isOk | isEinval
        · obtain rfl : code = .ok := isOk
          obtain ⟨vm2, result, swept, -⟩ := freeyieldednode_ok books1 member false
          dsimp only
          rw [result]
          refine ⟨(freeyieldednode_freed books1 member result).wellformed wellformed1
            ⟨_, swept.books⟩, ?_⟩
          simpa using reached
        · obtain rfl : code = .einval := isEinval
          exact ⟨wellformed1, by simpa using reached⟩
      · rw [if_pos size]
        refine ⟨wellformed, iff_of_true (fun node same size' => ?_) (by simp)⟩
        obtain rfl := Option.some.inj same
        exact absurd size' size

/-- What the request of a message to get a block needs of its pages. -/
def Asked (header : Header np) (answers : Answers) (vm : State np) (m : Message)
    (stopped missing : Prop) : Prop :=
  m.getid ≠ header.vmBlockidNone → ∀ p, vmIsokendpt header vm m.source = some p →
    ∀ pages, m.Sized pages → Wanted header answers vm p stopped missing m.getid m.vaddr pages

theorem asked_iff {m : Message} {p : Fin np} {pages : Nat} (stopped missing : Prop)
    (caller : vmIsokendpt header vm m.source = some p) (sized : m.Sized pages)
    (getting : m.getid ≠ header.vmBlockidNone) :
    Asked header answers vm m stopped missing ↔
      Wanted header answers vm p stopped missing m.getid m.vaddr pages := by
  refine ⟨fun asked => asked getting p caller pages sized, fun wanted _ q caller' pages' sized' => ?_⟩
  obtain rfl : p = q := Option.some.inj (caller.symm.trans caller')
  have size := sized.unique.2.symm.trans sized'.unique.2
  obtain rfl : pages = pages' := by exact_mod_cast size
  exact wanted

/-- The parts of a message: what holds between them is carried from the request to yield a block to
the request to get one. -/
theorem doYieldblockgetblock_ends {stops : Stop → Prop} (between : Nat → State np → Prop)
    {post : Code × State np → Prop} {m : Message} {p : Fin np}
    (caller : vmIsokendpt header vm m.source = some p)
    (wrong : (∀ pages, ¬ m.Sized pages) → post (.efault, vm))
    (start : ∀ pages, m.Sized pages → between pages vm)
    (yielding : ∀ pages, m.Sized pages → Ends stops (fun result => between pages result.2)
      (yieldblock header answers vm p m.yieldid m.vaddr pages))
    (done : ∀ pages vm1, m.getid = header.vmBlockidNone → between pages vm1 → post (.esrch, vm1))
    (getting : ∀ pages vm1, m.Sized pages → m.getid ≠ header.vmBlockidNone → between pages vm1 →
      Ends stops post (getblock header answers vm1 p m.getid m.vaddr pages)) :
    Ends stops post (doYieldblockgetblock header answers vm m) := by
  unfold doYieldblockgetblock
  rw [caller]
  dsimp only
  by_cases bad : Int.tmod m.len.toInt vmPageSize ≠ 0 ∨ Int.tdiv m.len.toInt vmPageSize < 1
  · rw [if_pos bad]
    refine wrong fun pages sized => ?_
    have size := sized.unique
    have positive := sized.1
    omega
  · rw [if_neg bad]
    have sized := Message.sized bad
    generalize (Int.tdiv m.len.toInt vmPageSize).toNat = pages at sized
    have rest : ∀ vm1, between pages vm1 → Ends stops post
        (if m.getid ≠ header.vmBlockidNone then
          getblock header answers vm1 p m.getid m.vaddr pages
        else pure (Code.esrch, vm1)) := by
      intro vm1 middle
      by_cases none : m.getid ≠ header.vmBlockidNone
      · rw [if_pos none]
        exact getting pages vm1 sized none middle
      · rw [if_neg none]
        exact done pages vm1 (not_not.mp none) middle
    by_cases some : m.yieldid ≠ header.vmBlockidNone
    · rw [if_pos some]
      exact (yielding pages sized).bind fun yielded middle => rest yielded.2 middle
    · rw [if_neg some]
      exact rest vm (start pages sized)

/-- What becomes of a message. -/
theorem doYieldblockgetblock_asked (header : Header np) (answers : Answers)
    (wellformed : Wellformed header vm) (m : Message) (stopped missing : Prop) {p : Fin np}
    (caller : vmIsokendpt header vm m.source = some p) :
    Ends (fun _ => Writes answers → (Asked header answers vm m stopped missing ↔ stopped))
      (fun result => Wellformed header result.2 ∧
        (Asked header answers vm m stopped missing ↔ result.1 ≠ .einval ∨ missing))
      (doYieldblockgetblock header answers vm m) := by
  refine doYieldblockgetblock_ends (fun pages vm1 => Wellformed header vm1 ∧
      (Wanted header answers vm1 p stopped missing m.getid m.vaddr pages ↔
        Wanted header answers vm p stopped missing m.getid m.vaddr pages)) caller
    (fun none => ?_) (fun pages sized => ⟨wellformed, Iff.rfl⟩) (fun pages sized => ?_)
    (fun pages vm1 none middle => ?_) (fun pages vm1 sized some middle => ?_)
  · exact ⟨wellformed, iff_of_true (fun _ _ _ pages sized => absurd sized (none pages)) (by simp)⟩
  · exact (yieldblock_wanted header answers wellformed (vmIsokendpt_live caller).2 m.yieldid m.getid
      m.vaddr pages stopped missing).stop fun _ failed writes => absurd writes failed
  · exact ⟨middle.1, iff_of_true (fun some => absurd none some) (Or.inl nofun)⟩
  · rw [asked_iff stopped missing caller sized some, ← middle.2]
    exact getblock_wanted header answers middle.1 p m.getid m.vaddr sized.short stopped missing

/-- The callers of requests are live processes. -/
def Event.Called (header : Header np) (vm : State np) : Event np → Prop
  | .yieldblockGetblock _ m => (vmIsokendpt header vm m.source).isSome
  | .forgetblock source _ => (vmIsokendpt header vm source).isSome
  | .forgetblocks source => (vmIsokendpt header vm source).isSome
  | .freeYielded _ => True
  | .exit _ => True

def Event.Writes : Event np → Prop
  | .yieldblockGetblock answers _ => Vm.Writes answers
  | _ => True

/-- A request to get a block finds no page, up to the first one that is not got, that may not be
touched: its address is not one of a page, or it is shared in a region that may not be written or
is contiguous. -/
def Event.Safe (header : Header np) (vm : State np) : Event np → Prop
  | .yieldblockGetblock answers m => Asked header answers { vm with calls := 0 } m False True
  | _ => True

/-- What holds of an event in a server that has not stopped. -/
def Running (property : State np → Event np → Prop) (outcome : Except Stop (State np))
    (event : Event np) : Prop :=
  ∀ vm, outcome = .ok vm → property vm event

theorem step_safe (wellformed : Wellformed header vm) (event : Event np)
    (called : event.Called header vm) (writes : event.Writes) :
    Ends (fun _ => ¬ event.Safe header vm)
      (fun vm' => event.Safe header vm ∧ Wellformed header vm') (step header vm event) := by
  cases event with
  | yieldblockGetblock answers m =>
      obtain ⟨p, caller⟩ := Option.isSome_iff_exists.mp called
      have numbered : Wellformed header { vm with calls := 0 } := by
        obtain ⟨order, books⟩ := wellformed.books
        have keeps : KeepsBooks vm { vm with calls := 0 } :=
          ⟨fun _ => ⟨rfl, rfl, rfl⟩, rfl, rfl, rfl, rfl, rfl, rfl, rfl, rfl⟩
        exact ⟨⟨order, keeps.books books⟩, wellformed.blocks.idle _ _, wellformed.nodes⟩
      have asked := doYieldblockgetblock_asked header answers numbered m False True
        (p := p) caller
      unfold step
      dsimp only
      revert asked
      cases doYieldblockgetblock header answers { vm with calls := 0 } m with
      | error stop => exact fun asked safe => (asked writes).mp safe
      | ok result => exact fun asked => ⟨asked.2.mpr (Or.inr trivial), asked.1⟩
  | forgetblock source id =>
      obtain ⟨p, caller⟩ := Option.isSome_iff_exists.mp called
      obtain ⟨vm', result, wellformed'⟩ := doForgetblock_wellformed wellformed caller id
      unfold step
      dsimp only
      rw [result]
      exact ⟨trivial, wellformed'⟩
  | forgetblocks source =>
      obtain ⟨p, caller⟩ := Option.isSome_iff_exists.mp called
      obtain ⟨vm', result, wellformed'⟩ :=
        freeYieldedProc_wellformed wellformed (vmIsokendpt_live caller).2
      unfold step doForgetblocks
      dsimp only
      rw [caller]
      dsimp only
      rw [result]
      exact ⟨trivial, wellformed'⟩
  | freeYielded maxBytes =>
      obtain ⟨bytes, vm', result, wellformed'⟩ := freeYielded_wellformed wellformed maxBytes
      unfold step
      dsimp only
      rw [result]
      exact ⟨trivial, wellformed'⟩
  | exit p =>
      unfold step
      by_cases live : (vm.vmproc p).inUse
      · obtain ⟨vm', result, wellformed'⟩ := mapFreeProc_wellformed wellformed live
        dsimp only
        rw [if_pos live, result]
        exact ⟨trivial, wellformed'⟩
      · dsimp only
        rw [if_neg live]
        exact ⟨trivial, wellformed⟩

theorem run_stopped (header : Header np) (stop : Stop) (events : List (Event np)) :
    Runs.run (next header) (.error stop) events = .error stop := by
  induction events with
  | nil => rfl
  | cons event events ih => exact ih

theorem everyStep_running {property : State np → Event np → Prop} {event : Event np}
    {events : List (Event np)} :
    Runs.EveryStep (next header) (Running property) (.ok vm) (event :: events) ↔
      property vm event ∧
        Runs.EveryStep (next header) (Running property) (step header vm event) events := by
  refine ⟨fun both => ⟨both.1 vm rfl, both.2⟩, fun both => ⟨fun vm1 same => ?_, both.2⟩⟩
  obtain rfl := Except.ok.inj same
  exact both.1

/-- With live callers, and as long as page tables are written and pages are copied, a run stops at
the first request that is not safe, and at no other one. -/
theorem run_safe (wellformed : Wellformed header vm) (events : List (Event np))
    (writes : ∀ event ∈ events, event.Writes)
    (called : Runs.EveryStep (next header) (Running fun vm event => event.Called header vm)
      (.ok vm) events) :
    Ends (fun _ => ¬ Runs.EveryStep (next header) (Running fun vm event => event.Safe header vm)
        (.ok vm) events)
      (fun vm' => Runs.EveryStep (next header) (Running fun vm event => event.Safe header vm)
        (.ok vm) events ∧ Wellformed header vm')
      (Runs.run (next header) (.ok vm) events) := by
  induction events generalizing vm with
  | nil => exact ⟨trivial, wellformed⟩
  | cons event events ih =>
      obtain ⟨here, later⟩ := everyStep_running.mp called
      rw [List.forall_mem_cons] at writes
      have first := step_safe wellformed event here writes.1
      rw [Runs.run_cons, everyStep_running]
      show Ends _ _ (Runs.run (next header) (step header vm event) events)
      revert first later
      cases step header vm event with
      | error stop =>
          intro _ failed
          rw [run_stopped]
          exact fun safe => failed safe.1
      | ok vm1 =>
          rintro later ⟨safe, wellformed1⟩
          refine ((ih wellformed1 writes.2 later).stop fun _ failed both => failed both.2).imp
            fun vm' rest => ⟨⟨safe, rest.1⟩, rest.2⟩

/-- In every run with live callers, as long as page tables are written and pages are copied, no
assertion fails and every request is answered if and only if every request to get a block is
safe. -/
theorem answers_iff_safe (wellformed : Wellformed header vm) (events : List (Event np))
    (writes : ∀ event ∈ events, event.Writes)
    (called : Runs.EveryStep (next header) (Running fun vm event => event.Called header vm)
      (.ok vm) events) :
    (∃ vm', Runs.run (next header) (.ok vm) events = .ok vm') ↔
      Runs.EveryStep (next header) (Running fun vm event => event.Safe header vm) (.ok vm)
        events := by
  have ends := run_safe wellformed events writes called
  revert ends
  cases Runs.run (next header) (.ok vm) events with
  | error stop => exact fun failed => ⟨nofun, fun safe => absurd safe failed⟩
  | ok vm' => exact fun both => ⟨fun _ => both.1, fun _ => ⟨vm', rfl⟩⟩

theorem smallStart_wellformed : Wellformed smallHeader smallStart where
  books := ⟨[], smallStart_empty.books⟩
  blocks :=
    { distinct := by decide
      sound := fun _ _ => smallRegion_sound
      aligned := fun _ _ => Nat.mul_mod_left _ _
      counted := fun pb => by
        have refs : procRefs smallStart (allRegions smallStart) = smallRegion.allRefs := by decide
        rw [refs]
        exact smallStart_counted pb
      pages := fun pb positive => by
        change 0 < (if pb < 3 then (⟨(1 + pb) * vmPageSize, 1⟩ : PhysBlock) else
          ⟨mapNone, 0⟩).refcount at positive
        show (if pb < 3 then (⟨(1 + pb) * vmPageSize, 1⟩ : PhysBlock) else
          ⟨mapNone, 0⟩).phys % vmPageSize = 0
        by_cases small : pb < 3
        · rw [if_pos small]
          exact Nat.mul_mod_left _ _
        · rw [if_neg small] at positive
          exact absurd positive (Nat.lt_irrefl 0)
      fresh := fun pb new => by
        have large : ¬ pb < 3 := Nat.not_lt.mpr new
        show (if pb < 3 then (⟨(1 + pb) * vmPageSize, 1⟩ : PhysBlock) else ⟨mapNone, 0⟩).refcount = 0
        rw [if_neg large] }
  nodes := fun _ _ member => by cases member

/-- The second page is got back, which is safe. -/
theorem answers_iff_safe_small : Runs.EveryStep (next smallHeader)
    (Running fun vm event => event.Safe smallHeader vm) (.ok smallStart)
    [small 5 (BitVec.allOnes 64) 0 4096, small (BitVec.allOnes 64) 5 1 4096] := by
  refine (answers_iff_safe smallStart_wellformed _ ?_ ?_).mp ?_
  · intro event member
    simp only [List.mem_cons, List.not_mem_nil, or_false] at member
    rcases member with rfl | rfl <;> exact fun _ => ⟨rfl, rfl⟩
  · refine everyStep_running.mpr
      ⟨(by decide : (vmIsokendpt smallHeader smallStart 1).isSome), fun vm yielded => ?_, trivial⟩
    have caller : (step smallHeader smallStart (small 5 (BitVec.allOnes 64) 0 4096)).map
        (fun vm => (vmIsokendpt smallHeader vm 1).isSome) = .ok true := by decide
    rw [yielded] at caller
    exact Except.ok.inj caller
  · have got : (Runs.run (next smallHeader) (.ok smallStart)
        [small 5 (BitVec.allOnes 64) 0 4096, small (BitVec.allOnes 64) 5 1 4096]).map State.calls =
        .ok 1 := by decide
    revert got
    cases Runs.run (next smallHeader) (.ok smallStart)
        [small 5 (BitVec.allOnes 64) 0 4096, small (BitVec.allOnes 64) 5 1 4096] with
    | error stop => exact nofun
    | ok vm' => exact fun _ => ⟨vm', rfl⟩

/-- The block is there, but its new address is not one of a page. -/
theorem get_unaligned : Wellformed smallHeader smallStart ∧
    (step smallHeader smallStart (small 5 (BitVec.allOnes 64) 0 4096)).map
      (fun vm => (vmIsokendpt smallHeader vm 1).isSome) = .ok true ∧
    Runs.run (next smallHeader) (.ok smallStart) [small 5 (BitVec.allOnes 64) 0 4096,
      .yieldblockGetblock (firstFit 16)
        ⟨1, BitVec.allOnes 64, 5, BitVec.ofNat 32 (8 * vmPageSize + 1), 4096⟩] =
      .error (.assertion .physblockGet) := by
  refine ⟨smallStart_wellformed, by decide, ?_⟩
  have failed : (Runs.run (next smallHeader) (.ok smallStart) [small 5 (BitVec.allOnes 64) 0 4096,
      .yieldblockGetblock (firstFit 16)
        ⟨1, BitVec.allOnes 64, 5, BitVec.ofNat 32 (8 * vmPageSize + 1), 4096⟩]).map State.calls =
      .error (.assertion .physblockGet) := by decide
  revert failed
  cases Runs.run (next smallHeader) (.ok smallStart) [small 5 (BitVec.allOnes 64) 0 4096,
      .yieldblockGetblock (firstFit 16)
        ⟨1, BitVec.allOnes 64, 5, BitVec.ofNat 32 (8 * vmPageSize + 1), 4096⟩] with
  | error stop => exact fun failed => congrArg Except.error (Except.error.inj failed)
  | ok vm' => exact nofun

end Ve482.Vm
