import Ve482.Vm.Region

set_option autoImplicit false

namespace Ve482.Vm

open Function (update)

variable {np : Nat} {answers : Answers} {vm vm' : State np}

/-- The pages of a region are where its slots say. -/
structure VirRegion.Sound (region : VirRegion np) : Prop where
  aligned : region.length % vmPageSize = 0
  offsets : ∀ i pr, i < region.length / vmPageSize → region.physblocks i = some pr →
    pr.offset = i * vmPageSize

/-- The blocks that `count` slots from `first` on refer to. -/
def VirRegion.refs (region : VirRegion np) (first count : Nat) : List Ptr :=
  (List.range' first count).filterMap fun i => (region.physblocks i).map PhysRegion.ph

def VirRegion.allRefs (region : VirRegion np) : List Ptr :=
  region.refs 0 (region.length / vmPageSize)

theorem VirRegion.refs_none {region : VirRegion np} {first : Nat} (count : Nat)
    (empty : region.physblocks first = none) :
    region.refs first (count + 1) = region.refs (first + 1) count := by
  rw [refs, List.range'_succ, List.filterMap_cons, empty]
  rfl

theorem VirRegion.refs_some {region : VirRegion np} {first : Nat} {pr : PhysRegion} (count : Nat)
    (resident : region.physblocks first = some pr) :
    region.refs first (count + 1) = pr.ph :: region.refs (first + 1) count := by
  rw [refs, List.range'_succ, List.filterMap_cons, resident]
  rfl

theorem VirRegion.refs_congr {region region' : VirRegion np} {first count : Nat}
    (same : ∀ i, first ≤ i → i < first + count → region'.physblocks i = region.physblocks i) :
    region'.refs first count = region.refs first count := by
  apply List.filterMap_congr
  intro i member
  rw [List.mem_range'_1] at member
  rw [same i member.1 member.2]

theorem VirRegion.mem_refs {region : VirRegion np} {first count : Nat} {pb : Ptr} :
    pb ∈ region.refs first count ↔
      ∃ i pr, first ≤ i ∧ i < first + count ∧ region.physblocks i = some pr ∧ pr.ph = pb := by
  simp only [refs, List.mem_filterMap, List.mem_range'_1, Option.map_eq_some_iff]
  constructor
  · rintro ⟨i, ⟨low, high⟩, pr, resident, same⟩
    exact ⟨i, pr, low, high, resident, same⟩
  · rintro ⟨i, pr, low, high, resident, same⟩
    exact ⟨i, ⟨low, high⟩, pr, resident, same⟩

theorem VirRegion.refs_append (region : VirRegion np) (first left right : Nat) :
    region.refs first (left + right) = region.refs first left ++ region.refs (first + left) right := by
  rw [refs, ← List.range'_append_1, List.filterMap_append]
  rfl

theorem slot_lt {i length : Nat} (small : i < length / vmPageSize) : i * vmPageSize < length := by
  unfold vmPageSize at small ⊢
  omega

theorem offset_slot (i : Nat) : i * vmPageSize / vmPageSize = i ∧ i * vmPageSize % vmPageSize = 0 :=
  ⟨Nat.mul_div_cancel i (by decide), Nat.mul_mod_left i vmPageSize⟩

theorem assert_true {condition : Prop} [Decidable condition] {routine : Routine} {β : Type}
    (rest : Unit → Except Stop β) (holds : condition) :
    (assert condition routine >>= rest) = rest () := by
  rw [assert, if_pos holds]
  rfl

theorem assert_stops {condition : Prop} [Decidable condition] {routine : Routine} {β : Type}
    (rest : Unit → Except Stop β) (fails : ¬ condition) :
    (assert condition routine >>= rest) = .error (.assertion routine) := by
  rw [assert, if_neg fails]
  rfl

theorem ok_bind {β γ : Type} (value : β) (rest : β → Except Stop γ) :
    (Except.ok value >>= rest) = rest value := rfl

theorem physblockGet_ok {region : VirRegion np} {i : Nat} (small : i < region.length / vmPageSize)
    (offset : ∀ pr, region.physblocks i = some pr → pr.offset = i * vmPageSize) :
    physblockGet region (i * vmPageSize) = .ok (region.physblocks i) := by
  unfold physblockGet
  rw [assert_true _ (offset_slot i).2, assert_true _ (slot_lt small), (offset_slot i).1]
  cases resident : region.physblocks i with
  | none => rfl
  | some pr =>
      dsimp only
      rw [assert_true _ (offset pr resident)]
      rfl

theorem VirRegion.Sound.get {region : VirRegion np} (sound : region.Sound) {i : Nat}
    (small : i < region.length / vmPageSize) :
    physblockGet region (i * vmPageSize) = .ok (region.physblocks i) :=
  physblockGet_ok small fun pr => sound.offsets i pr small

theorem physSlot_ok {len : Nat} (aligned : len % vmPageSize = 0) :
    physSlot len = .ok (len / vmPageSize) := by
  unfold physSlot
  rw [assert_true _ aligned]
  rfl

/-- `region_new` takes two allocations. -/
theorem regionNew_ok (answers : Answers) {length : Nat} (aligned : length % vmPageSize = 0)
    (vm : State np) (parent : Fin np) (startv : Nat) (flags : Flags) (memtype : Nat) :
    (answers.slaballoc vm.calls = true ∧ answers.slaballoc (vm.calls + 1) = true ∧
        regionNew answers vm parent startv length flags memtype = .ok (some vm.newRegion, { vm with
          virRegion := update vm.virRegion vm.newRegion
            ⟨startv, length, flags, memtype, parent, fun _ => none⟩
          newRegion := vm.newRegion + 1
          calls := vm.calls + 2 })) ∨
      (¬ (answers.slaballoc vm.calls = true ∧ answers.slaballoc (vm.calls + 1) = true) ∧
        ∃ calls, regionNew answers vm parent startv length flags memtype =
          .ok (none, { vm with calls })) := by
  unfold regionNew
  rw [physSlot_ok aligned, ok_bind]
  by_cases first : answers.slaballoc vm.calls = true
  · rw [if_neg (not_not.mpr first)]
    by_cases second : answers.slaballoc vm.called.calls = true
    · rw [if_neg (not_not.mpr second)]
      exact Or.inl ⟨first, second, rfl⟩
    · rw [if_pos second]
      exact Or.inr ⟨fun both => second both.2, _, rfl⟩
  · rw [if_pos first]
    exact Or.inr ⟨fun both => first both.1, _, rfl⟩

theorem physblockSet_none {r : Ptr} {i : Nat} (small : i < (vm.virRegion r).length / vmPageSize)
    (resident : (vm.virRegion r).physblocks i ≠ none) :
    physblockSet vm r (i * vmPageSize) none = .ok (vm.setSlot r i none) := by
  unfold physblockSet
  rw [assert_true _ (offset_slot i).2, assert_true _ (slot_lt small), (offset_slot i).1]
  exact assert_true _ resident

theorem physblockSet_some (vm : State np) {r : Ptr} {i : Nat} {pr : PhysRegion}
    (small : i < (vm.virRegion r).length / vmPageSize)
    (empty : (vm.virRegion r).physblocks i = none) (offset : pr.offset = i * vmPageSize) :
    physblockSet vm r (i * vmPageSize) (some pr) = .ok (vm.setSlot r i (some pr)) := by
  unfold physblockSet
  rw [assert_true _ (offset_slot i).2, assert_true _ (slot_lt small), (offset_slot i).1]
  dsimp only
  rw [assert_true _ empty]
  exact assert_true _ offset

theorem setSlot_slot (vm : State np) (r : Ptr) (i : Nat) (slot : Option PhysRegion) (r' : Ptr)
    (i' : Nat) : ((vm.setSlot r i slot).virRegion r').physblocks i' =
      if r' = r ∧ i' = i then slot else (vm.virRegion r').physblocks i' := by
  unfold State.setSlot
  by_cases same : r' = r
  · subst same
    simp [Function.update_apply]
  · simp [same]

theorem setSlot_place (vm : State np) (r : Ptr) (i : Nat) (slot : Option PhysRegion) (r' : Ptr) :
    ((vm.setSlot r i slot).virRegion r').vaddr = (vm.virRegion r').vaddr ∧
      ((vm.setSlot r i slot).virRegion r').length = (vm.virRegion r').length := by
  unfold State.setSlot
  by_cases same : r' = r
  · subst same
    simp
  · simp [same]

/-- A slot is emptied, and its block loses a reference. Only the last one frees the page. -/
theorem pbUnreferenced_slot {r : Ptr} {i : Nat} {pr : PhysRegion}
    (sound : (vm.virRegion r).Sound) (small : i < (vm.virRegion r).length / vmPageSize)
    (resident : (vm.virRegion r).physblocks i = some pr)
    (counted : 0 < (vm.physBlock pr.ph).refcount) :
    ∃ free, pbUnreferenced vm r pr = .ok (State.setSlot { vm.setBlock pr.ph { vm.physBlock pr.ph with
        refcount := (vm.physBlock pr.ph).refcount - 1 } with free } r i none) ∧
      (1 < (vm.physBlock pr.ph).refcount → free = vm.free) := by
  have filled : (vm.virRegion r).physblocks i ≠ none := by simp [resident]
  unfold pbUnreferenced
  rw [assert_true _ counted, sound.offsets i pr small resident]
  dsimp only
  split
  · refine ⟨_, physblockSet_none small filled, fun others => ?_⟩
    omega
  · exact ⟨vm.free, physblockSet_none small filled, fun _ => rfl⟩

theorem pbUnreferenced_shared {r : Ptr} {i : Nat} {pr : PhysRegion}
    (sound : (vm.virRegion r).Sound) (small : i < (vm.virRegion r).length / vmPageSize)
    (resident : (vm.virRegion r).physblocks i = some pr)
    (others : 1 < (vm.physBlock pr.ph).refcount) :
    pbUnreferenced vm r pr = .ok ((vm.setBlock pr.ph { vm.physBlock pr.ph with
      refcount := (vm.physBlock pr.ph).refcount - 1 }).setSlot r i none) := by
  obtain ⟨free, left, same⟩ := pbUnreferenced_slot sound small resident (by omega)
  rw [left, same others]
  rfl

theorem pbReference_ok {newvr : Ptr} {i : Nat} (pr : PhysRegion)
    (memory : answers.slaballoc vm.calls = true)
    (small : i < (vm.virRegion newvr).length / vmPageSize)
    (empty : (vm.virRegion newvr).physblocks i = none) (offset : pr.offset = i * vmPageSize) :
    pbReference answers vm pr.ph pr.offset newvr = .ok (some pr, (vm.called.setBlock pr.ph
      { vm.physBlock pr.ph with refcount := (vm.physBlock pr.ph).refcount + 1 }).setSlot newvr i
      (some pr)) := by
  have set := physblockSet_some (vm.called.setBlock pr.ph
    { vm.physBlock pr.ph with refcount := (vm.physBlock pr.ph).refcount + 1 }) small empty offset
  unfold pbReference
  rw [if_pos memory]
  dsimp only
  rw [← offset] at set
  rw [set]
  rfl

theorem mapPhWritept_ok (answers : Answers) (vm : State np) {r : Ptr} {pr : PhysRegion}
    (aligned : (vm.virRegion r).vaddr % vmPageSize = 0) (offset : pr.offset % vmPageSize = 0)
    (counted : 0 < (vm.physBlock pr.ph).refcount) :
    mapPhWritept answers vm r pr = .ok (answers.ptWritemap vm.calls, vm.called) := by
  unfold mapPhWritept
  rw [assert_true _ aligned, assert_true _ offset, assert_true _ counted]
  rfl

/-- All references of some regions. -/
def procRefs (vm : State np) (regions : List Ptr) : List Ptr :=
  regions.flatMap fun r => (vm.virRegion r).allRefs

theorem procRefs_congr {regions : List Ptr}
    (same : ∀ r ∈ regions, vm'.virRegion r = vm.virRegion r) :
    procRefs vm' regions = procRefs vm regions :=
  List.flatMap_congr fun r member => by rw [same r member]

/-- All references to blocks, before and after a slot is set. -/
theorem VirRegion.allRefs_slot (region : VirRegion np) {i : Nat} (slot : Option PhysRegion)
    (small : i < region.length / vmPageSize) (pb : Ptr) :
    ({ region with physblocks := update region.physblocks i slot } : VirRegion np).allRefs.count pb +
        ((region.physblocks i).map PhysRegion.ph).toList.count pb =
      region.allRefs.count pb + (slot.map PhysRegion.ph).toList.count pb := by
  obtain ⟨rest, total⟩ := Nat.exists_eq_add_of_lt small
  have split (other : VirRegion np) : (other.refs 0 (i + rest + 1)).count pb =
      (other.refs 0 i).count pb + ((other.physblocks i).map PhysRegion.ph).toList.count pb +
        (other.refs (i + 1) rest).count pb := by
    rw [Nat.add_assoc, other.refs_append, List.count_append, Nat.zero_add, Nat.add_assoc]
    congr 1
    cases there : other.physblocks i with
    | none => rw [refs_none rest there]; simp
    | some pr => rw [refs_some rest there, List.count_cons, Nat.add_comm]; simp [List.count_cons]
  have before : ({ region with physblocks := update region.physblocks i slot } : VirRegion np).refs
      0 i = region.refs 0 i :=
    refs_congr fun j _ small => Function.update_of_ne (by omega) _ _
  have after : ({ region with physblocks := update region.physblocks i slot } : VirRegion np).refs
      (i + 1) rest = region.refs (i + 1) rest :=
    refs_congr fun j low _ => Function.update_of_ne (by omega) _ _
  show (VirRegion.refs _ 0 (region.length / vmPageSize)).count pb + _ =
    (region.refs 0 (region.length / vmPageSize)).count pb + _
  rw [total, split, split, before, after]
  show _ + ((update region.physblocks i slot i).map PhysRegion.ph).toList.count pb + _ + _ = _
  rw [Function.update_self]
  omega

theorem procRefs_setSlot (vm : State np) {regions : List Ptr} {r : Ptr} {i : Nat}
    (slot : Option PhysRegion)
    (member : r ∈ regions) (nodup : regions.Nodup) (small : i < (vm.virRegion r).length / vmPageSize)
    (pb : Ptr) :
    (procRefs (vm.setSlot r i slot) regions).count pb +
        (((vm.virRegion r).physblocks i).map PhysRegion.ph).toList.count pb =
      (procRefs vm regions).count pb + (slot.map PhysRegion.ph).toList.count pb := by
  induction regions with
  | nil => cases member
  | cons first regions ih =>
      have split (vm : State np) : (procRefs vm (first :: regions)).count pb =
          (vm.virRegion first).allRefs.count pb + (procRefs vm regions).count pb := by
        rw [procRefs, List.flatMap_cons, List.count_append]
        rfl
      rw [split, split]
      have outside := (List.nodup_cons.mp nodup).1
      by_cases isFirst : r = first
      · subst isFirst
        have others : procRefs (vm.setSlot r i slot) regions = procRefs vm regions := by
          apply procRefs_congr
          intro other inside
          have different : other ≠ r := fun same => outside (same ▸ inside)
          exact Function.update_of_ne different _ _
        have here : (vm.setSlot r i slot).virRegion r = { vm.virRegion r with
            physblocks := update (vm.virRegion r).physblocks i slot } :=
          Function.update_self _ _ _
        rw [others, here]
        have changed := (vm.virRegion r).allRefs_slot slot small pb
        dsimp only at changed ⊢
        omega
      · have later : r ∈ regions := (List.mem_cons.mp member).resolve_left isFirst
        have kept : (vm.setSlot r i slot).virRegion first = vm.virRegion first :=
          Function.update_of_ne (Ne.symm isFirst) _ _
        rw [kept]
        have changed := ih later (List.nodup_cons.mp nodup).2
        omega

end Ve482.Vm
