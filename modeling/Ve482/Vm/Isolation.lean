import Ve482.Vm.Stores
import Ve482.Vm.Leaks

set_option autoImplicit false

namespace Ve482.Vm

open Function (update)
open Fallible (Ends map_bind)

variable {np : Nat} {Page : Type} {header : Header np} {answers : Answers} {vm vm' : State np}
  {memory : Set Nat}

/-- What the server is called for, and what the processes do in between: a process changes what is
on a page, after its page fault if the page table does not let it. -/
inductive Act (np : Nat) (Page : Type) where
  | call (event : Life np)
  | store (answers : Answers) (p : Fin np) (vaddr : Nat) (change : Page → Page)

def Act.Permitted (header : Header np) (vm : State np) : Act np Page → Prop
  | .call event => event.Permitted header vm
  | .store _ _ _ _ => True

def Act.Whole (header : Header np) (vm : State np) : Act np Page → Prop
  | .call event => event.Whole header vm
  | .store _ _ _ _ => True

/-- The process that an event is for. -/
def Life.actor (header : Header np) (vm : State np) : Life np → Option (Fin np)
  | .begin p _ => some p
  | .map _ p _ _ _ _ => some p
  | .fault _ p _ => some p
  | .fork _ dst _ => some dst
  | .request (.yieldblockGetblock _ message) => vmIsokendpt header vm message.source
  | .request (.exit p) => some p
  | .request _ => none

def Act.actor (header : Header np) (vm : State np) : Act np Page → Option (Fin np)
  | .call event => event.actor header vm
  | .store _ p _ _ => some p

section

variable (header : Header np) (answers : Answers) (vm : State np)

instance Wanted.decidable (p : Fin np) (stopped missing : Prop) [Decidable stopped]
    [Decidable missing] (id : BitVec 64) (vaddr : VirBytes) (pages : Nat) :
    Decidable (Wanted header answers vm p stopped missing id vaddr pages) :=
  let blockid : BlockId := { owner := (vm.vmproc p).vmEndpoint, id }
  match found : yieldedSearch vm (vm.vmYieldedBlocks (getYieldedAvl header blockid)) blockid with
  | none => .isTrue fun _ same => by rw [found] at same; cases same
  | some yb => decidable_of_iff
      ((vm.yielded yb).pages = pages →
        Walk answers vm p stopped missing pages vaddr [] vm.calls vm.free)
      ⟨fun walks _ same => by
        obtain rfl := Option.some.inj (found.symm.trans same)
        exact walks, fun all => all yb found⟩

instance Asked.decidable (m : Message) (stopped missing : Prop) [Decidable stopped]
    [Decidable missing] : Decidable (Asked header answers vm m stopped missing) :=
  match caller : vmIsokendpt header vm m.source with
  | none => .isTrue fun _ p same => by rw [caller] at same; cases same
  | some p =>
      let pages := (Int.tdiv m.len.toInt vmPageSize).toNat
      decidable_of_iff (m.getid ≠ header.vmBlockidNone →
        0 < pages ∧ m.len.toInt = pages * vmPageSize →
        Wanted header answers vm p stopped missing m.getid m.vaddr pages)
      ⟨fun walks some q caller' pages' sized => by
        obtain rfl := Option.some.inj (caller.symm.trans caller')
        have size : pages = pages' := by
          show (Int.tdiv m.len.toInt vmPageSize).toNat = pages'
          rw [sized.unique.2, Int.toNat_natCast]
        exact size ▸ walks some (size ▸ sized),
      fun all some sized => all some p caller pages sized⟩

instance Event.Whole.decidable : (event : Event np) → Decidable (event.Whole header vm)
  | .yieldblockGetblock answers m =>
      match caller : vmIsokendpt header vm m.source with
      | none => .isTrue fun p same => by rw [caller] at same; cases same
      | some p => decidable_of_iff
          (Asked header answers { vm with calls := 0 } m True (pageAt vm p m.vaddr.toNat = none))
          ⟨fun asked q caller' => by
            obtain rfl := Option.some.inj (caller.symm.trans caller')
            exact asked, fun all => all p caller⟩
  | .exit _ => .isFalse id
  | .forgetblock _ _ | .forgetblocks _ | .freeYielded _ => .isTrue trivial

instance Life.Whole.decidable : (event : Life np) → Decidable (event.Whole header vm)
  | .request (.exit _) => .isTrue trivial
  | .request (.yieldblockGetblock answers m) =>
      inferInstanceAs (Decidable ((.yieldblockGetblock answers m : Event np).Whole header vm))
  | .request (.forgetblock _ _) | .request (.forgetblocks _) | .request (.freeYielded _) =>
      .isTrue trivial
  | .begin _ _ | .map _ _ _ _ _ _ | .fault _ _ _ | .fork _ _ _ => .isTrue trivial

instance Act.Permitted.decidable : (act : Act np Page) → Decidable (act.Permitted header vm)
  | .call event => inferInstanceAs (Decidable (event.Permitted header vm))
  | .store _ _ _ _ => .isTrue trivial

instance Act.Whole.decidable : (act : Act np Page) → Decidable (act.Whole header vm)
  | .call event => inferInstanceAs (Decidable (event.Whole header vm))
  | .store _ _ _ _ => .isTrue trivial

end

/-- The regions of a process and the pages of the blocks in use are as before. -/
structure Spared (q : Fin np) (vm vm' : State np) : Prop where
  list : (vm'.vmproc q).vmRegionsAvl = (vm.vmproc q).vmRegionsAvl
  regions : ∀ r ∈ (vm.vmproc q).vmRegionsAvl, vm'.virRegion r = vm.virRegion r
  phys : ∀ pb, 0 < (vm.physBlock pb).refcount →
    (vm'.physBlock pb).phys = (vm.physBlock pb).phys

theorem Spared.refl (q : Fin np) (vm : State np) : Spared q vm vm :=
  ⟨rfl, fun _ _ => rfl, fun _ _ => rfl⟩

theorem Orderly.apart (orderly : Orderly header vm) {p q : Fin np} (different : q ≠ p) {r : Ptr}
    (own : r ∈ (vm.vmproc p).vmRegionsAvl) : r ∉ (vm.vmproc q).vmRegionsAvl := fun other =>
  different (((orderly.layout q).mapped r other).parent.symm.trans
    ((orderly.layout p).mapped r own).parent)

theorem Orderly.known (orderly : Orderly header vm) {q : Fin np} {r : Ptr}
    (own : r ∈ (vm.vmproc q).vmRegionsAvl) : r < vm.newRegion :=
  ((orderly.layout q).mapped r own).known

theorem freeing_spared (header : Header np) (start : State np) (q : Fin np) (vm : State np)
    (order : List Ptr) (node : Ptr) (books : Books header vm order) (member : node ∈ order)
    (kept : Paged vm ∧ Spared q start vm) (vm' : State np)
    (result : freeyieldednode header vm node true = .ok (vmPageSize, vm')) :
    Paged vm' ∧ Spared q start vm' := by
  have freed := freeyieldednode_freed books member result
  obtain ⟨paged, spared⟩ := kept
  refine ⟨freeing_paged header vm order node books member paged vm' result,
    (freed.lists q).trans spared.list, fun r own => ?_, fun pb counted => ?_⟩
  · rw [freed.virRegion]
    exact spared.regions r own
  · rw [freed.physBlock]
    exact spared.phys pb counted

theorem mapFreeProc_spared (orderly : Orderly header vm) {p q : Fin np} (different : q ≠ p) :
    Ends (fun _ => True) (Spared q vm) (mapFreeProc header vm p) := by
  have listed (vm1 : State np) (proc : Vmproc) (kept : Spared q vm vm1) :
      Spared q vm (vm1.setProc p proc) :=
    ⟨(congrArg _ (Function.update_of_ne different _ _)).trans kept.list, kept.regions, kept.phys⟩
  have others (vm1 : State np) (r : Ptr) (own : r ∈ (vm.vmproc p).vmRegionsAvl)
      (region : VirRegion np) (kept : Spared q vm vm1) :
      Spared q vm { vm1 with virRegion := update vm1.virRegion r region } := by
    refine ⟨kept.list, fun other member => ?_, kept.phys⟩
    have apart : other ≠ r := fun same => orderly.apart different own (same ▸ member)
    exact (Function.update_of_ne apart _ _).trans (kept.regions other member)
  refine mapFreeProc_rule orderly.wellformed ?_ listed (freeing_spared header vm q)
  refine mapFreeRegions_rule p _ (fun vm1 r own pr kept => ?_) others listed (.refl q vm)
  unfold pbUnreferenced
  refine assert_ends (fun _ => trivial) fun _ => ?_
  refine (physblockSet_slot _ r _ none).imp fun vm2 set => ?_
  subst set
  have less : Spared q vm (vm1.setBlock pr.ph { vm1.physBlock pr.ph with
      refcount := (vm1.physBlock pr.ph).refcount - 1 }) := by
    refine ⟨kept.list, kept.regions, fun pb counted => (kept.phys pb counted).symm ▸ ?_⟩
    by_cases same : pb = pr.ph
    · subst same
      simp [State.setBlock]
    · simp [State.setBlock, same]
  refine others _ r own _ ?_
  split
  · exact ⟨less.list, less.regions, less.phys⟩
  · exact less

/-- What the server is called for that gives no page to a process. -/
theorem happen_spared (orderly : Orderly header vm) {event : Life np}
    (permitted : event.Permitted header vm)
    (unfaulted : ∀ answers p vaddr, event ≠ .fault answers p vaddr)
    (unasked : ∀ answers message, event ≠ .request (.yieldblockGetblock answers message))
    {q : Fin np} (other : event.actor header vm ≠ some q) :
    Ends (fun _ => True) (Spared q vm) (happen header vm event) := by
  have started : Orderly header (Vm.restart vm) := orderly.answered 0
  cases event with
  | begin p endpoint =>
      have different : q ≠ p := fun same => other (congrArg some same.symm)
      exact ⟨congrArg _ (start_other endpoint different), fun _ _ => rfl, fun _ _ => rfl⟩
  | map answers p startv length flags memtype =>
      have different : q ≠ p := fun same => other (congrArg some same.symm)
      refine Ends.map ((mapRegion_joined answers (Vm.restart vm) p startv length flags memtype).imp
        fun result after => ?_)
      obtain ⟨-, ⟨calls, same⟩ | ⟨joined, -⟩⟩ := after
      · rw [same]
        exact ⟨rfl, fun _ _ => rfl, fun _ _ => rfl⟩
      · refine ⟨congrArg _ (joined.others q different), fun r own => joined.regions r ?_,
          fun pb _ => by rw [joined.blocks.1]; rfl⟩
        exact Nat.ne_of_lt (orderly.known own)
  | fault answers p vaddr => exact absurd rfl (unfaulted answers p vaddr)
  | fork answers dst src =>
      obtain ⟨live, clear, unyielded, nonempty⟩ := permitted
      have different : q ≠ dst := fun same => other (congrArg some same.symm)
      obtain ⟨code, vm', result, outcome⟩ :=
        mapProcCopy_ok header answers rfl (started.layout src) nonempty clear unyielded
      unfold happen
      dsimp only
      rw [result]
      rcases outcome with ⟨-, copies, copying⟩ | ⟨-, undone⟩
      · refine ⟨congrArg _ (copying.others q different), fun r own =>
          copying.regions r (orderly.known own), fun pb _ => ?_⟩
        show (vm'.physBlock pb).phys = _
        rw [copying.physBlock]
        rfl
      · refine ⟨?_, fun r own => undone.regions r (orderly.known own), fun pb _ => ?_⟩
        · show (vm'.vmproc q).vmRegionsAvl = _
          rw [undone.vmproc]
          rfl
        · show (vm'.physBlock pb).phys = _
          rw [undone.physBlock]
          rfl
  | request event =>
      refine step_rule orderly.wellformed (.refl q vm) (freeing_spared header vm q)
        (fun answers message same => unasked answers message (congrArg _ same)) fun p same => ?_
      subst same
      have different : q ≠ p := fun same => other (congrArg some same.symm)
      refine (mapFreeProc_spared orderly different).imp fun vm1 kept => ?_
      exact ⟨(congrArg _ (Function.update_of_ne different _ _)).trans kept.list, kept.regions,
        kept.phys⟩

/-- What is found last on both sides of a relation. -/
theorem forall_last {α β : Type} {related : α → β → Prop} {lefts : List α} {rights : List β}
    (all : List.Forall₂ related lefts rights) {wanted : α → Bool} {wanted' : β → Bool}
    (same : ∀ left right, related left right → wanted' right = wanted left) :
    Option.Rel related (lefts.filter wanted).getLast? (rights.filter wanted').getLast? := by
  induction all with
  | nil => exact .none
  | @cons left right lefts rights first _ ih =>
      rw [List.filter_cons, List.filter_cons, same left right first]
      split
      · rw [List.getLast?_cons, List.getLast?_cons]
        revert ih
        generalize (lefts.filter wanted).getLast? = last
        generalize (rights.filter wanted').getLast? = last'
        intro ih
        cases ih with
        | none => exact .some first
        | some later => exact .some later
      · exact ih

/-- The copy has a region where the process has one. -/
theorem Copying.regionAt {dst src : Fin np} {copies : List Ptr}
    (copying : Copying vm vm' dst (vm.vmproc src).vmRegionsAvl copies) (v : Nat) :
    Option.Rel (fun r new => vm'.virRegion new = (vm.virRegion r).copy dst)
      (Vm.regionAt vm src v) (Vm.regionAt vm' dst v) := by
  have list : (vm'.vmproc dst).vmRegionsAvl = copies := by rw [copying.own]
  have search : Option.Rel (fun r new => vm'.virRegion new = (vm.virRegion r).copy dst)
      (regionSearch vm src v) (regionSearch vm' dst v) := by
    unfold regionSearch
    rw [list]
    refine forall_last copying.copied fun r new copy => ?_
    rw [copy]
    rfl
  unfold Vm.regionAt
  revert search
  generalize regionSearch vm src v = first
  generalize regionSearch vm' dst v = second
  intro search
  cases search with
  | none => exact .none
  | @some r new copy =>
      have place : (vm'.virRegion new).vaddr + (vm'.virRegion new).length =
          (vm.virRegion r).vaddr + (vm.virRegion r).length := by
        rw [copy]
        rfl
      rw [Option.filter_some, Option.filter_some, place]
      split
      · exact .some copy
      · exact .none

namespace Machine

variable {filling : Filling Page} {m m' : Machine np Page}

def happen (header : Header np) (filling : Filling Page) (m : Machine np Page) :
    Life np → Except Stop (Machine np Page)
  | .fault answers p vaddr => m.restart.pagefault header answers filling p vaddr
  | .request (.yieldblockGetblock answers message) =>
      (m.restart.doYieldblockgetblock header answers filling message).map Prod.snd
  | event => (Vm.happen header m.vm event).map fun vm => { m with vm }

def write (header : Header np) (answers : Answers) (filling : Filling Page) (m : Machine np Page)
    (p : Fin np) (vaddr : Nat) (change : Page → Page) : Except Stop (Machine np Page) := do
  let m ←
    if mayWrite header m.vm p vaddr then pure m
    else m.happen header filling (.fault answers p vaddr)
  return if mayWrite header m.vm p vaddr then m.store p vaddr change else m

def perform (header : Header np) (filling : Filling Page) (m : Machine np Page) :
    Act np Page → Except Stop (Machine np Page)
  | .call event => m.happen header filling event
  | .store answers p vaddr change => m.write header answers filling p vaddr change

theorem perform_call (m : Machine np Page) (event : Life np) :
    m.perform header filling (.call event) = m.happen header filling event := rfl

theorem map_vm (m : Machine np Page) (outcome : Except Stop (State np)) :
    (outcome.map fun vm => { m with vm }).map Machine.vm = outcome := by
  cases outcome <;> rfl

theorem happen_bare (header : Header np) (filling : Filling Page) (m : Machine np Page)
    (event : Life np) :
    (m.happen header filling event).map Machine.vm = Vm.happen header m.vm event := by
  cases event with
  | begin | map | fork =>
      rw [happen]
      · exact map_vm m _
      all_goals exact nofun
  | fault answers p vaddr => exact pagefault_bare header answers filling m.restart p vaddr
  | request event =>
      cases event with
      | yieldblockGetblock answers message =>
          have bare := doYieldblockgetblock_bare header answers filling m.restart message
          rw [happen]
          unfold Vm.happen step
          show _ = (Vm.doYieldblockgetblock header answers m.restart.vm message).map Prod.snd
          rw [← bare]
          cases m.restart.doYieldblockgetblock header answers filling message <;> rfl
      | forgetblock | forgetblocks | freeYielded | exit =>
          rw [happen]
          · exact map_vm m _
          all_goals exact nofun

theorem happen_kept (kept : m.Kept header memory) (event : Life np)
    (permitted : event.Permitted header m.vm) (whole : event.Whole header m.vm) :
    Ends (fun _ => True) (Kept header memory) (m.happen header filling event) := by
  have below := ((happen_orderly kept.orderly event permitted).and
    (happen_housed kept.orderly kept.housed event permitted whole)).stop fun _ _ => trivial
  rw [← happen_bare header filling] at below
  exact below.of_map.imp fun m' after => ⟨after.1, after.2⟩

/-- What holds after the page fault, if the process may not write even then, and after the store. -/
theorem write_rule {post : Machine np Page → Prop} {p : Fin np} {vaddr : Nat}
    {change : Page → Page} (stored : mayWrite header m.vm p vaddr → post (m.store p vaddr change))
    (faulted : Ends (fun _ => True) (fun m1 => (¬ mayWrite header m1.vm p vaddr → post m1) ∧
        (mayWrite header m1.vm p vaddr → post (m1.store p vaddr change)))
      (m.happen header filling (.fault answers p vaddr))) :
    Ends (fun _ => True) post (m.write header answers filling p vaddr change) := by
  unfold write
  by_cases now : mayWrite header m.vm p vaddr
  · rw [if_pos now]
    show post (ite _ _ _)
    rw [if_pos now]
    exact stored now
  · rw [if_neg now]
    refine faulted.bind fun m1 after => ?_
    show post (ite _ _ _)
    split
    · rename_i later
      exact after.2 later
    · rename_i never
      exact after.1 never

theorem act_kept (kept : m.Kept header memory) (act : Act np Page)
    (permitted : act.Permitted header m.vm) (whole : act.Whole header m.vm) :
    Ends (fun _ => True) (Kept header memory) (m.perform header filling act) := by
  cases act with
  | call event => exact happen_kept kept event permitted whole
  | store answers p vaddr change =>
      refine write_rule (fun _ => store_kept kept p vaddr change) ?_
      exact (happen_kept kept (.fault answers p vaddr) trivial trivial).imp fun m1 kept1 =>
        ⟨fun _ => kept1, fun _ => store_kept kept1 p vaddr change⟩

/-! What other processes see. -/

/-- A process sees what it saw. -/
def Sees (m m' : Machine np Page) (q : Fin np) : Prop := ∀ v, m'.view q v = m.view q v

theorem sees_of {q : Fin np} (slots : ∀ v, slotOf m'.vm q v = slotOf m.vm q v)
    (contents : ∀ v r i, slotOf m.vm q v = some (r, i) → m'.contents r i = m.contents r i) :
    m.Sees m' q := by
  intro v
  unfold view
  rw [slots]
  cases found : slotOf m.vm q v with
  | none => rfl
  | some place => exact contents v place.1 place.2 found

theorem sees_spared (blocks : Blocks m.vm) {q : Fin np} (spared : Spared q m.vm m'.vm)
    (pages : ∀ pb, 0 < (m.vm.physBlock pb).refcount →
      m'.memory (abs2click (m.vm.physBlock pb).phys) =
        m.memory (abs2click (m.vm.physBlock pb).phys)) : m.Sees m' q := by
  refine sees_of (slotOf_congr spared.list fun r own => ?_) fun v r i found => ?_
  · rw [spared.regions r own]
    exact .refl _
  · obtain ⟨slot, own⟩ := blocks.slotOf found
    unfold contents
    rw [spared.regions r own]
    refine Option.map_congr fun pr resident => ?_
    have counted := blocks.referenced slot resident
    rw [spared.phys _ counted]
    exact pages _ counted

theorem Still.slotOf (still : m.Still m') (q : Fin np) (v : Nat) :
    Vm.slotOf m'.vm q v = Vm.slotOf m.vm q v := by
  refine slotOf_congr (still.lists q) (fun r _ => ?_) v
  rw [still.virRegion]
  exact .refl _

theorem Still.sees (still : m.Still m') (q : Fin np) : m.Sees m' q := by
  intro v
  unfold view contents
  rw [still.slotOf, still.virRegion, still.physBlock, still.memory]

/-- Two processes have no slot in common. -/
theorem Kept.apart (kept : m.Kept header memory) {p q : Fin np} (different : q ≠ p) {v v' : Nat}
    {place : Ptr × Nat} (found : slotOf m.vm q v = some place) : slotOf m.vm p v' ≠ some place := by
  intro found'
  have blocks := kept.orderly.wellformed.blocks
  exact kept.orderly.apart different (blocks.slotOf found').2 (blocks.slotOf found).2

/-- The state in between, and the one afterwards. -/
structure Exchanged (header : Header np) (answers : Answers) (filling : Filling Page)
    (m : Machine np Page) (p : Fin np) (message : Message) (count : Nat) (m1 m2 : Machine np Page) :
    Prop where
  yielded : message.yieldid = header.vmBlockidNone ∧ m1 = m ∨
    message.yieldid ≠ header.vmBlockidNone ∧ ∃ code, m.yieldblock header answers filling p
      message.yieldid message.vaddr count = .ok (code, m1)
  got : message.getid = header.vmBlockidNone ∧ m2 = m1 ∨
    message.getid ≠ header.vmBlockidNone ∧ ∃ code, m1.getblock header answers filling p
      message.getid message.vaddr count = .ok (code, m2)

theorem doYieldblockgetblock_parts (m : Machine np Page) {message : Message} {p : Fin np}
    (caller : vmIsokendpt header m.vm message.source = some p) :
    Ends (fun _ => True) (fun result => (∀ count, ¬ message.Sized count) ∧ result.2 = m ∨
        ∃ count m1, message.Sized count ∧
          Exchanged header answers filling m p message count m1 result.2)
      (m.doYieldblockgetblock header answers filling message) := by
  unfold doYieldblockgetblock
  rw [caller]
  dsimp only
  by_cases bad : Int.tmod message.len.toInt vmPageSize ≠ 0 ∨
      Int.tdiv message.len.toInt vmPageSize < 1
  · rw [if_pos bad]
    refine Or.inl ⟨fun pages sized => ?_, rfl⟩
    have size := sized.unique
    have positive := sized.1
    omega
  · rw [if_neg bad]
    have sized := Message.sized bad
    generalize (Int.tdiv message.len.toInt vmPageSize).toNat = count at sized
    have rest (m1 : Machine np Page) (before : message.yieldid = header.vmBlockidNone ∧ m1 = m ∨
        message.yieldid ≠ header.vmBlockidNone ∧ ∃ code, m.yieldblock header answers filling p
          message.yieldid message.vaddr count = .ok (code, m1)) :
        Ends (fun _ => True) (fun result => (∀ count, ¬ message.Sized count) ∧ result.2 = m ∨
            ∃ count m1, message.Sized count ∧
              Exchanged header answers filling m p message count m1 result.2)
          (if message.getid ≠ header.vmBlockidNone then
            m1.getblock header answers filling p message.getid message.vaddr count
          else pure (Code.esrch, m1)) := by
      by_cases none : message.getid ≠ header.vmBlockidNone
      · rw [if_pos none]
        cases result : m1.getblock header answers filling p message.getid message.vaddr count with
        | error stop => trivial
        | ok value => exact Or.inr ⟨count, m1, sized, before, Or.inr ⟨none, value.1, result⟩⟩
      · rw [if_neg none]
        exact Or.inr ⟨count, m1, sized, before, Or.inl ⟨not_not.mp none, rfl⟩⟩
    by_cases some : message.yieldid ≠ header.vmBlockidNone
    · rw [if_pos some]
      cases result : m.yieldblock header answers filling p message.yieldid message.vaddr count with
      | error stop => trivial
      | ok value => exact rest value.2 (Or.inr ⟨some, value.1, result⟩)
    · rw [if_neg some]
      exact rest m (Or.inl ⟨not_not.mp some, rfl⟩)

theorem Exchanged.middle {p : Fin np} {message : Message} {count : Nat} {m1 m2 : Machine np Page}
    (exchanged : Exchanged header answers filling m.restart p message count m1 m2)
    (kept : m.Kept header memory) (caller : vmIsokendpt header m.vm message.source = some p)
    (sized : message.Sized count)
    (whole : (.yieldblockGetblock answers message : Event np).Whole header m.vm) :
    Getting header answers memory p message count m1.vm ∧ Housed memory m1.vm := by
  have start := getting_start answers kept.orderly.wellformed kept.housed.owned caller sized whole
  have live : (m.restart.vm.vmproc p).inUse := (vmIsokendpt_live caller).2
  rcases exchanged.yielded with ⟨-, rfl⟩ | ⟨-, code, result⟩
  · exact ⟨start, start.owned, kept.housed.held⟩
  · have below := ((yieldblock_getting live sized start).and (yieldblock_held header answers
      start.wellformed (show held m.restart.vm ⊆ memory from kept.housed.held) p message.yieldid
      message.vaddr count)).stop fun _ _ => trivial
    rw [← show _ = Vm.yieldblock header answers m.restart.vm p message.yieldid message.vaddr count
      from yieldblock_bare header answers filling _ _ _ _ _] at below
    obtain ⟨getting, held⟩ := below.of_map.of_eq result
    exact ⟨getting, getting.owned, held⟩

/-- Another process sees what it saw, whatever comes of the message. -/
theorem Exchanged.sees {p : Fin np} {message : Message} {count : Nat} {m1 m2 : Machine np Page}
    (exchanged : Exchanged header answers filling m.restart p message count m1 m2)
    (kept : m.Kept header memory) (caller : vmIsokendpt header m.vm message.source = some p)
    (sized : message.Sized count)
    (whole : (.yieldblockGetblock answers message : Event np).Whole header m.vm) {q : Fin np}
    (different : q ≠ p) : m.restart.Sees m2 q := by
  obtain ⟨getting, housed⟩ := exchanged.middle kept caller sized whole
  have kept0 := kept.restart
  have first : m.restart.Sees m1 q ∧ ∀ q' v, slotOf m1.vm q' v = slotOf m.restart.vm q' v := by
    rcases exchanged.yielded with ⟨-, rfl⟩ | ⟨-, code, result⟩
    · exact ⟨fun _ => rfl, fun _ _ => rfl⟩
    · obtain ⟨failed, done⟩ := (yieldblock_put header answers filling kept0.orderly.wellformed
        kept0.housed p message.yieldid message.vaddr count sized.short.le).of_eq result
      by_cases isOk : code = .ok
      · obtain ⟨block, -, -, put⟩ := done isOk
        refine ⟨sees_of (put.slotOf q) fun v r i found => ?_, put.slotOf⟩
        exact put.others r i (kept0.orderly.wellformed.blocks.slotOf found).1
          fun k _ => kept0.apart different found
      · exact ⟨(failed isOk).sees q, (failed isOk).slotOf⟩
  obtain ⟨first, slots⟩ := first
  have second : m1.Sees m2 q := by
    rcases exchanged.got with ⟨-, rfl⟩ | ⟨some, code, result⟩
    · exact fun _ => rfl
    · obtain ⟨failed, done⟩ := (getblock_take header answers filling getting.wellformed housed p
        message.getid message.vaddr sized.1 sized.short (getting.wanted some)).of_eq result
      by_cases isOk : code = .ok
      · obtain ⟨node, -, take⟩ := done isOk
        refine sees_of (take.slotOf q) fun v r i found => ?_
        refine take.others r i (getting.wellformed.blocks.slotOf found).1 fun k _ => ?_
        rw [slots] at found ⊢
        exact kept0.apart different found
      · exact (failed isOk).sees q
  exact fun v => (second v).trans (first v)

theorem pagefault_sees (header : Header np) (answers : Answers) (filling : Filling Page)
    (kept : m.Kept header memory) {p q : Fin np} (different : q ≠ p) (vaddr : Nat) :
    Ends (fun _ => True) (fun m' => m.Sees m' q) (m.pagefault header answers filling p vaddr) := by
  have blocks := kept.orderly.wellformed.blocks
  refine (pagefault_handled header answers filling kept p vaddr).imp fun m' after => ?_
  rcases after with rfl | ⟨r, i, found, handled⟩
  · exact fun _ => rfl
  · refine sees_of (handled.slotOf q) fun v r' i' found' => ?_
    exact handled.others (kept.housed.staged blocks) (blocks.slotOf found').1
      fun same => kept.apart different found' (same ▸ found)

/-- No other process sees a page that a process may write. -/
theorem store_sees (alone : header.Alone) (kept : m.Kept header memory) {p q : Fin np}
    (different : q ≠ p) {vaddr : Nat} (writable : mayWrite header m.vm p vaddr)
    (change : Page → Page) : m.Sees (m.store p vaddr change) q := by
  obtain ⟨r, i, old, found, -, placed⟩ := store_placed alone kept writable change
  refine sees_of (fun v => by rw [store_vm]) fun v r' i' found' => ?_
  exact placed.others r' i' (kept.orderly.wellformed.blocks.slotOf found').1
    fun same => kept.apart different found' (same ▸ found)

theorem happen_sees (kept : m.Kept header memory) {event : Life np}
    (permitted : event.Permitted header m.vm) (whole : event.Whole header m.vm) {q : Fin np}
    (other : event.actor header m.vm ≠ some q) :
    Ends (fun _ => True) (fun m' => m.Sees m' q) (m.happen header filling event) := by
  have kept0 := kept.restart
  by_cases faulted : ∃ answers p vaddr, event = .fault answers p vaddr
  · obtain ⟨answers, p, vaddr, rfl⟩ := faulted
    exact pagefault_sees header answers filling kept0
      (fun same => other (congrArg some same.symm)) vaddr
  by_cases asked : ∃ answers message, event = .request (.yieldblockGetblock answers message)
  · obtain ⟨answers, message, rfl⟩ := asked
    rw [happen]
    cases caller : vmIsokendpt header m.vm message.source with
    | none =>
        have caller' : vmIsokendpt header m.restart.vm message.source = none := caller
        unfold doYieldblockgetblock
        rw [caller']
        trivial
    | some p =>
        have different : q ≠ p := fun same => other (caller.trans (congrArg some same.symm))
        refine Ends.map ((doYieldblockgetblock_parts m.restart caller).imp fun result after => ?_)
        rcases after with ⟨-, same⟩ | ⟨count, m1, sized, exchanged⟩
        · rw [same]
          exact fun _ => rfl
        · exact exchanged.sees kept caller sized whole different
  · have spared := happen_spared kept.orderly permitted
      (fun answers p vaddr same => faulted ⟨answers, p, vaddr, same⟩)
      (fun answers message same => asked ⟨answers, message, same⟩) (q := q) ?_
    · rw [happen]
      · exact Ends.map (spared.imp fun vm' kept' =>
          sees_spared kept.orderly.wellformed.blocks kept' fun _ _ => rfl)
      · exact fun answers p vaddr same => faulted ⟨answers, p, vaddr, same⟩
      · exact fun answers message same => asked ⟨answers, message, same⟩
    · exact other

theorem act_sees (alone : header.Alone) (kept : m.Kept header memory) {act : Act np Page}
    (permitted : act.Permitted header m.vm) (whole : act.Whole header m.vm) {q : Fin np}
    (other : act.actor header m.vm ≠ some q) :
    Ends (fun _ => True) (fun m' => m.Sees m' q) (m.perform header filling act) := by
  cases act with
  | call event => exact happen_sees kept permitted whole other
  | store answers p vaddr change =>
      have different : q ≠ p := fun same => other (congrArg some same.symm)
      refine write_rule (fun writable => store_sees alone kept different writable change) ?_
      refine (((happen_kept kept (.fault answers p vaddr) trivial trivial).and (@happen_sees _ _
        header _ filling m kept (.fault answers p vaddr) trivial trivial q other)).stop
          fun _ _ => trivial).imp fun m1 after => ⟨fun _ => after.2, fun writable v => ?_⟩
      exact (store_sees alone after.1 different writable change v).trans (after.2 v)

/-- A process that stores reads the page as it has changed it, also where it was shared. -/
theorem write_stored (alone : header.Alone) (kept : m.Kept header memory) (answers : Answers)
    (filling : Filling Page) (p : Fin np) (vaddr : Nat) (change : Page → Page) :
    Ends (fun _ => True) (fun m' => mayWrite header m'.vm p vaddr → m.Stored m' p vaddr change)
      (m.write header answers filling p vaddr change) := by
  have kept0 := kept.restart
  have faulted : Ends (fun _ => True) (fun m1 => mayWrite header m1.vm p vaddr →
      m.Stored m1 p vaddr id) (m.happen header filling (.fault answers p vaddr)) :=
    (pagefault_stored header answers filling kept0 p vaddr).imp fun m1 stored writable =>
      ⟨(stored writable).here, (stored writable).elsewhere⟩
  refine write_rule (fun writable _ => store_stored alone kept writable change) ?_
  refine (((happen_kept kept (.fault answers p vaddr) trivial trivial).and faulted).stop
    fun _ _ => trivial).imp fun m1 after => ⟨fun never writable => absurd writable never, ?_⟩
  exact fun writable _ => (after.2 writable).trans (store_stored alone after.1 writable change)

/-- The copy finds its pages where the process does, and they are the same ones. -/
theorem Kept.copying (kept : m.Kept header memory) {dst src : Fin np} {copies : List Ptr}
    (copying : Copying m.vm vm' dst (m.vm.vmproc src).vmRegionsAvl copies) (v : Nat) :
    (⟨vm', m.memory⟩ : Machine np Page).view dst v = m.view src v := by
  have blocks := kept.orderly.wellformed.blocks
  have found := copying.regionAt v
  have slots (r : Ptr) (i : Nat) (found : slotOf m.vm src v = some (r, i)) : Slot m.vm r i :=
    (blocks.slotOf found).1
  unfold view
  show (slotOf vm' dst v).bind _ = _
  unfold slotOf at slots ⊢
  revert found slots
  generalize regionAt m.vm src v = first
  generalize regionAt vm' dst v = second
  intro found slots
  cases found with
  | none => rfl
  | @some r new copy =>
      have small := (slots r _ rfl).small
      simp only [Option.map_some, Option.bind_some]
      unfold contents
      dsimp only
      have region : (vm'.virRegion new).vaddr = (m.vm.virRegion r).vaddr := by
        rw [copy]
        rfl
      rw [region, copy]
      have slot : ((m.vm.virRegion r).copy dst).physblocks
          ((v - (m.vm.virRegion r).vaddr) / vmPageSize) =
          (m.vm.virRegion r).physblocks ((v - (m.vm.virRegion r).vaddr) / vmPageSize) :=
        VirRegion.copied_slot _ small
      rw [slot, copying.physBlock]
      rfl

/-- A machine that has stopped does nothing more. -/
def alive (header : Header np) (filling : Filling Page) (outcome : Except Stop (Machine np Page))
    (act : Act np Page) : Except Stop (Machine np Page) :=
  outcome.bind fun m => m.perform header filling act

/-- What holds of an act in a machine that has not stopped. -/
def Alive (property : Machine np Page → Act np Page → Prop)
    (outcome : Except Stop (Machine np Page)) (act : Act np Page) : Prop :=
  ∀ m, outcome = .ok m → property m act

instance Alive.decidable (property : Machine np Page → Act np Page → Prop)
    [∀ m act, Decidable (property m act)] :
    (outcome : Except Stop (Machine np Page)) → (act : Act np Page) →
      Decidable (Alive property outcome act)
  | .error _, _ => .isTrue fun _ same => nomatch same
  | .ok m, act => decidable_of_iff (property m act)
      ⟨fun holds _ same => Except.ok.inj same ▸ holds, fun all => all m rfl⟩

theorem kept_booted (booted : Booted memory m.vm) : m.Kept header memory := by
  refine ⟨booted.orderly, booted.owned, ?_⟩
  rintro page ⟨place, there⟩
  have orderly : Orderly header m.vm := booted.orderly
  obtain rfl := orderly.unheld booted.inUse there
  exact (booted.free page).mp there

theorem run_kept (kept : m.Kept header memory) (acts : List (Act np Page))
    (sound : Runs.EveryStep (alive header filling)
      (Alive fun m act => act.Permitted header m.vm ∧ act.Whole header m.vm) (.ok m) acts) :
    Ends (fun _ => True) (Kept header memory) (Runs.run (alive header filling) (.ok m) acts) := by
  refine Runs.run_invariant (Ends (fun _ : Stop => True) (Kept header memory))
    (fun outcome act before allowed => ?_) kept sound
  cases outcome with
  | error stop => trivial
  | ok m =>
      obtain ⟨permitted, whole⟩ := allowed m rfl
      exact act_kept before act permitted whole

end Machine

def smallMachine : Machine 2 Nat := ⟨smallBoot, id⟩

def smallFilling : Filling Nat := ⟨1, fun _ _ => 0⟩

/-- A process yields a block and is copied, and then it gets its block back at a page that it shares
with the copy, which adds to what is on the other page that they share. -/
def smallActs : List (Act 2 Nat) :=
  [.call (.begin firstProcess 1),
    .call (.map (firstFit 16) firstProcess (8 * vmPageSize) (4 * vmPageSize) smallRegion.flags 0),
    .call (.fault (firstFit 16) firstProcess (8 * vmPageSize)),
    .call (.fault (firstFit 16) firstProcess (9 * vmPageSize)),
    .store (firstFit 16) firstProcess (8 * vmPageSize) fun _ => 5,
    .store (firstFit 16) firstProcess (9 * vmPageSize) fun _ => 6,
    .call (.request (small 5 (BitVec.allOnes 64) 0 4096)), .call (.begin secondProcess 2),
    .call (.fork (firstFit 16) secondProcess firstProcess),
    .call (.request (small (BitVec.allOnes 64) 5 1 4096)),
    .store (firstFit 16) secondProcess (8 * vmPageSize) (· + 7)]

theorem smallHeader_alone : smallHeader.Alone := fun _ _ writable =>
  (of_decide_eq_true writable).2

theorem smallActs_sound : Runs.EveryStep (Machine.alive smallHeader smallFilling)
    (Machine.Alive fun m act => act.Permitted smallHeader m.vm ∧ act.Whole smallHeader m.vm)
    (.ok smallMachine) smallActs := by
  decide

/-- The pages that the two shared, afterwards. -/
example : (Runs.run (Machine.alive smallHeader smallFilling) (.ok smallMachine) smallActs).map
    (fun m => [8, 9].map fun page => (m.view 0 (page * vmPageSize), m.view 1 (page * vmPageSize))) =
      .ok [(some 1, some 8), (some 5, some 6)] := by
  decide +kernel

end Ve482.Vm
