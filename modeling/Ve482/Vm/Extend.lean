import Ve482.Vm.Regions

set_option autoImplicit false

namespace Ve482.Vm

open Function (update)

variable {np : Nat} {answers : Answers} {vm vm' : State np} {p : Fin np}

/-- `region_search(.., AVL_LESS)` -/
def regionSearchLess (vm : State np) (p : Fin np) (offset : Nat) : Option Ptr :=
  ((vm.vmproc p).vmRegionsAvl.filter fun r => (vm.virRegion r).vaddr < offset).getLast?

/-- `roundup(v, VM_PAGE_SIZE)` -/
def roundup (v : VirBytes) : Nat :=
  (v + BitVec.ofNat 32 (vmPageSize - 1)).toNat / vmPageSize * vmPageSize

def getnextvr (vm : State np) (vr : Ptr) : Except Stop (Option Ptr) := do
  let region := vm.virRegion vr
  let vIter := (vm.vmproc region.parent).vmRegionsAvl.dropWhile fun r =>
    (vm.virRegion r).vaddr ≠ region.vaddr
  assert (vIter ≠ []) .getnextvr
  assert (vIter.head? = some vr) .getnextvr
  match vIter.tail.head? with
  | none => return none
  | some nextvr =>
      let next := vm.virRegion nextvr
      assert (region.parent = next.parent) .getnextvr
      assert (region.vaddr < next.vaddr) .getnextvr
      assert (vbAdd region.vaddr region.length ≤ next.vaddr) .getnextvr
      return some nextvr

namespace State

def setLength (vm : State np) (r : Ptr) (length : Nat) : State np :=
  { vm with virRegion := update vm.virRegion r { vm.virRegion r with length } }

end State

/-- What a memory type does to give a region another length. -/
abbrev Resize (np : Nat) := State np → Ptr → Nat → Code × State np

/-- The region gets the length, or nothing changes. -/
def Resize.Exact (resize : Resize np) : Prop :=
  ∀ vm r length, resize vm r length = (.ok, vm.setLength r length) ∨
    ∃ code, code ≠ .ok ∧ resize vm r length = (code, vm)

/-- The answer to `realloc` is that to one more call of the slab allocator. -/
def mapRegionExtendUptoV (answers : Answers) (evResize : Nat → Option (Resize np))
    (vm : State np) (p : Fin np) (v : VirBytes) : Except Stop (Code × State np) := do
  let offset := roundup v
  match regionSearchLess vm p offset with
  | none => return (.enomem, vm)
  | some vr =>
      let region := vm.virRegion vr
      if v.toNat ≤ vbAdd region.vaddr region.length then return (.ok, vm)
      else
        assert (region.vaddr ≤ offset) .mapRegionExtendUptoV
        let newslots ← physSlot (vbSub offset region.vaddr)
        let prevslots ← physSlot region.length
        assert (prevslots ≤ newslots) .mapRegionExtendUptoV
        let addedslots := newslots - prevslots
        if ¬ answers.slaballoc vm.calls then return (.enomem, vm.called)
        else
          let vm := vm.called.clearSlots vr prevslots addedslots
          let nextvr ← getnextvr vm vr
          match nextvr with
          | some nextvr => assert (offset ≤ (vm.virRegion nextvr).vaddr) .mapRegionExtendUptoV
          | none => pure ()
          if nextvr.any fun nextvr => (vm.virRegion nextvr).vaddr < offset then
            return (.enomem, vm)
          else
            match evResize region.memtype with
            | none => return (.enomem, vm)
            | some evResize => return evResize vm vr (vbSub offset region.vaddr)

/-- The regions of a process are its own, apart from each other and below the end of the data. -/
structure Placed (vm : State np) (p : Fin np) (vmDatatop : Nat) : Prop where
  spread : Spread vm (vm.vmproc p).vmRegionsAvl
  below : ∀ r ∈ (vm.vmproc p).vmRegionsAvl,
    (vm.virRegion r).vaddr + (vm.virRegion r).length ≤ vmDatatop
  parents : ∀ r ∈ (vm.vmproc p).vmRegionsAvl, (vm.virRegion r).parent = p

/-- The region with the largest start below `v` rounded up covers what there is up to `v`. -/
structure Extended (vm vm' : State np) (p : Fin np) (v : VirBytes) (r : Ptr) : Prop where
  member : r ∈ (vm.vmproc p).vmRegionsAvl
  starts : (vm.virRegion r).vaddr < (v.toNat + vmPageSize - 1) / vmPageSize * vmPageSize
  largest : ∀ other ∈ (vm.vmproc p).vmRegionsAvl,
    (vm.virRegion other).vaddr < (v.toNat + vmPageSize - 1) / vmPageSize * vmPageSize →
      (vm.virRegion other).vaddr ≤ (vm.virRegion r).vaddr
  vaddr : (vm'.virRegion r).vaddr = (vm.virRegion r).vaddr
  covers : v.toNat ≤ (vm'.virRegion r).vaddr + (vm'.virRegion r).length
  oldSlots : ∀ i < (vm.virRegion r).length / vmPageSize,
    (vm'.virRegion r).physblocks i = (vm.virRegion r).physblocks i
  newSlots : ∀ i, (vm.virRegion r).length / vmPageSize ≤ i →
    i < (vm'.virRegion r).length / vmPageSize → (vm'.virRegion r).physblocks i = none
  others : ∀ other, other ≠ r → vm'.virRegion other = vm.virRegion other
  processes : vm'.vmproc = vm.vmproc
  spread : Spread vm' (vm.vmproc p).vmRegionsAvl

/-- The regions are where they were, with the pages that they had. -/
structure Unextended (vm vm' : State np) : Prop where
  processes : vm'.vmproc = vm.vmproc
  places : ∀ r, (vm'.virRegion r).vaddr = (vm.virRegion r).vaddr ∧
    (vm'.virRegion r).length = (vm.virRegion r).length
  slots : ∀ r, ∀ i < (vm.virRegion r).length / vmPageSize,
    (vm'.virRegion r).physblocks i = (vm.virRegion r).physblocks i

theorem roundup_aligned (v : VirBytes) : roundup v % vmPageSize = 0 :=
  Nat.mul_mod_left _ _

/-- In the last page of the address space the sum is 0 and more. -/
theorem roundup_cases (v : VirBytes) : roundup v = 0 ∨
    v.toNat ≤ roundup v ∧ roundup v < 2 ^ 32 ∧
      roundup v = (v.toNat + vmPageSize - 1) / vmPageSize * vmPageSize := by
  have small := v.isLt
  unfold roundup vmPageSize
  rw [BitVec.toNat_add, BitVec.toNat_ofNat]
  omega

theorem getnextvr_ok {vmDatatop : Nat} (placed : Placed vm p vmDatatop)
    (datatop : vmDatatop < 2 ^ 32) {before rest : List Ptr} {r : Ptr}
    (split : (vm.vmproc p).vmRegionsAvl = before ++ r :: rest) :
    getnextvr vm r = .ok rest.head? := by
  have member : r ∈ (vm.vmproc p).vmRegionsAvl := by simp [split]
  have end' := placed.below r member
  have spread := placed.spread
  rw [split] at spread
  obtain ⟨earlier, -, ⟨positive, -⟩, below, above⟩ := spread_split.mp spread
  have from' : (before ++ r :: rest).dropWhile (fun other =>
      (vm.virRegion other).vaddr ≠ (vm.virRegion r).vaddr) = r :: rest := by
    rw [List.dropWhile_append_of_pos, List.dropWhile_cons_of_neg]
    · simp
    · intro other inBefore
      have ends := below other inBefore
      have own := earlier.positive other inBefore
      simpa using show (vm.virRegion other).vaddr ≠ (vm.virRegion r).vaddr by omega
  unfold getnextvr
  dsimp only
  rw [placed.parents r member, split, from', assert_true _ (List.cons_ne_nil _ _),
    assert_true _ (List.head?_cons : (r :: rest).head? = some r), List.tail_cons]
  cases rest with
  | nil => rfl
  | cons next rest =>
      have later := above next List.mem_cons_self
      have parent := placed.parents next (by simp [split])
      rw [List.head?_cons]
      dsimp only
      rw [assert_true _ parent.symm, assert_true _ (by omega), vbAdd_eq (by omega),
        assert_true _ later]
      rfl

theorem Placed.clearSlots {vmDatatop : Nat} (placed : Placed vm p vmDatatop) (r : Ptr)
    (first count : Nat) : Placed (vm.clearSlots r first count) p vmDatatop := by
  have place := clearSlots_place vm r first count
  refine ⟨placed.spread.congr fun other _ => ⟨(place other).1, (place other).2.1⟩,
    fun other member => ?_, fun other member => ?_⟩
  · rw [(place other).1, (place other).2.1]
    exact placed.below other member
  · rw [(place other).2.2]
    exact placed.parents other member

/-- A region with another length, and empty slots after its own. -/
theorem grown_region (vm : State np) (r : Ptr) (first count length : Nat) :
    ((vm.clearSlots r first count).setLength r length).virRegion =
      update vm.virRegion r { vm.virRegion r with
        length
        physblocks := fun i =>
          if first ≤ i ∧ i < first + count then none else (vm.virRegion r).physblocks i } := by
  simp only [State.setLength, State.clearSlots, Function.update_self, Function.update_idem]

section

variable {vmDatatop : Nat} (placed : Placed vm p vmDatatop) {v : VirBytes} {before rest : List Ptr}
  {r : Ptr} (split : (vm.vmproc p).vmRegionsAvl = before ++ r :: rest)
  (exact' : roundup v = (v.toNat + vmPageSize - 1) / vmPageSize * vmPageSize)
  (starts : (vm.virRegion r).vaddr < roundup v)
  (next : ∀ other ∈ rest, roundup v ≤ (vm.virRegion other).vaddr)

include placed split next in
/-- The regions with a start below the address are the found one and those before it. -/
theorem largest_start {other : Ptr} (member : other ∈ (vm.vmproc p).vmRegionsAvl)
    (small : (vm.virRegion other).vaddr < roundup v) :
    (vm.virRegion other).vaddr ≤ (vm.virRegion r).vaddr := by
  have spread := placed.spread
  rw [split] at spread member
  rcases List.mem_append.mp member with inBefore | inRest
  · have below := (spread_split.mp spread).2.2.2.1 other inBefore
    omega
  · rcases List.mem_cons.mp inRest with rfl | later
    · exact Nat.le_refl _
    · exact absurd small (Nat.not_lt.mpr (next other later))

include placed split exact' starts next

/-- The region already comes up to the address. -/
theorem extended_already
    (covers : v.toNat ≤ (vm.virRegion r).vaddr + (vm.virRegion r).length) :
    Extended vm vm p v r where
  member := by simp [split]
  starts := exact' ▸ starts
  largest other member small := largest_start placed split next member (exact' ▸ small)
  vaddr := rfl
  covers := covers
  oldSlots _ _ := rfl
  newSlots _ low high := absurd high (Nat.not_lt.mpr low)
  others _ _ := rfl
  processes := rfl
  spread := placed.spread

/-- The region gets empty slots up to the address. -/
theorem extended_grown (covers : v.toNat ≤ roundup v) (added : Nat)
    (all : (roundup v - (vm.virRegion r).vaddr) / vmPageSize =
      (vm.virRegion r).length / vmPageSize + added) :
    Extended vm ((vm.called.clearSlots r ((vm.virRegion r).length / vmPageSize) added).setLength r
      (roundup v - (vm.virRegion r).vaddr)) p v r := by
  have region := grown_region vm.called r ((vm.virRegion r).length / vmPageSize) added
    (roundup v - (vm.virRegion r).vaddr)
  have processes : ((vm.called.clearSlots r ((vm.virRegion r).length / vmPageSize) added).setLength
    r (roundup v - (vm.virRegion r).vaddr)).vmproc = vm.vmproc := rfl
  generalize (vm.called.clearSlots r ((vm.virRegion r).length / vmPageSize) added).setLength r
    (roundup v - (vm.virRegion r).vaddr) = vm' at region processes ⊢
  have others : ∀ other, other ≠ r → vm'.virRegion other = vm.virRegion other := by
    intro other different
    rw [region, Function.update_of_ne different]
    rfl
  have here := congrFun region r
  rw [Function.update_self] at here
  have vaddr : (vm'.virRegion r).vaddr = (vm.virRegion r).vaddr := by rw [here]; rfl
  have length : (vm'.virRegion r).length = roundup v - (vm.virRegion r).vaddr := by rw [here]
  have member : r ∈ (vm.vmproc p).vmRegionsAvl := by simp [split]
  have own := (placed.spread.aligned r member).1
  have rounded := roundup_aligned v
  have grown : Spread vm' (vm.vmproc p).vmRegionsAvl := by
    rw [split]
    apply (split ▸ placed.spread).replace others
    · omega
    · rw [vaddr, length]
      unfold vmPageSize at own rounded ⊢
      omega
    · exact vaddr.ge
    · intro other inRest
      have above := next other inRest
      omega
  refine
    { member, starts := exact' ▸ starts, vaddr, others, processes, spread := grown
      largest := fun other inside small =>
        largest_start placed split next inside (exact' ▸ small)
      covers := ?_, oldSlots := ?_, newSlots := ?_ }
  · omega
  · intro i small
    rw [here]
    exact if_neg (by omega)
  · intro i low high
    rw [length, all] at high
    rw [here]
    exact if_pos ⟨low, high⟩

end

theorem Unextended.refl (vm : State np) : Unextended vm vm :=
  ⟨rfl, fun _ => ⟨rfl, rfl⟩, fun _ _ _ => rfl⟩

theorem unextended_cleared (vm : State np) (r : Ptr) (count : Nat) :
    Unextended vm (vm.called.clearSlots r ((vm.virRegion r).length / vmPageSize) count) := by
  refine ⟨rfl, fun other => ?_, fun other i small => ?_⟩
  · have place := clearSlots_place vm.called r ((vm.virRegion r).length / vmPageSize) count other
    exact ⟨place.1, place.2.1⟩
  · by_cases same : other = r
    · subst same
      exact clearSlots_slot vm.called other _ count other small
    · simp only [State.clearSlots, Function.update_of_ne same]
      rfl

/-- The end of the call, when there is room for the region and for its slots. -/
theorem resized_cases {evResize : Nat → Option (Resize np)}
    (resizes : ∀ memtype resize, evResize memtype = some resize → resize.Exact) {v : VirBytes}
    {r : Ptr} {length : Nat} (cleared : Unextended vm vm')
    (grown : Extended vm (vm'.setLength r length) p v r) (memtype : Nat) :
    ∃ code vm1, (match evResize memtype with
        | none => return (.enomem, vm')
        | some evResize => return evResize vm' r length : Except Stop (Code × State np)) =
          .ok (code, vm1) ∧
      (code = .ok → ∃ r, Extended vm vm1 p v r) ∧ (code ≠ .ok → Unextended vm vm1) := by
  cases resize : evResize memtype with
  | none => exact ⟨.enomem, vm', rfl, nofun, fun _ => cleared⟩
  | some resize' =>
      rcases resizes _ _ resize vm' r length with same | ⟨code, bad, same⟩
      · exact ⟨.ok, _, congrArg Except.ok same, fun _ => ⟨r, grown⟩,
          fun failed => absurd rfl failed⟩
      · exact ⟨code, vm', congrArg Except.ok same, fun good => absurd good bad, fun _ => cleared⟩

/-- No assertion fails: the region that is grown is the last one that starts below the address,
so that the next one starts at the address or above. -/
theorem extend_safe {vmDatatop : Nat} {evResize : Nat → Option (Resize np)}
    (placed : Placed vm p vmDatatop) (datatop : vmDatatop < 2 ^ 32)
    (resizes : ∀ memtype resize, evResize memtype = some resize → resize.Exact) (v : VirBytes) :
    ∃ code vm', mapRegionExtendUptoV answers evResize vm p v = .ok (code, vm') ∧
      (code = .ok → ∃ r, Extended vm vm' p v r) ∧ (code ≠ .ok → Unextended vm vm') := by
  unfold mapRegionExtendUptoV
  dsimp only
  cases found : regionSearchLess vm p (roundup v) with
  | none => exact ⟨.enomem, vm, rfl, nofun, fun _ => .refl vm⟩
  | some r =>
      obtain ⟨before, rest, split, starts, large⟩ := search_split found
      have starts : (vm.virRegion r).vaddr < roundup v := of_decide_eq_true starts
      have next : ∀ other ∈ rest, roundup v ≤ (vm.virRegion other).vaddr := by
        simpa using large
      have member : r ∈ (vm.vmproc p).vmRegionsAvl := by simp [split]
      have ends := placed.below r member
      have aligned := placed.spread.aligned r member
      have rounded := roundup_aligned v
      obtain ⟨upto, small, exact'⟩ := (roundup_cases v).resolve_left (by omega)
      dsimp only
      rw [vbAdd_eq (by omega)]
      by_cases already : v.toNat ≤ (vm.virRegion r).vaddr + (vm.virRegion r).length
      · rw [if_pos already]
        exact ⟨.ok, vm, rfl, fun _ => ⟨r, extended_already placed split exact' starts next already⟩,
          fun failed => absurd rfl failed⟩
      · have pages : (roundup v - (vm.virRegion r).vaddr) % vmPageSize = 0 := by
          unfold vmPageSize at *
          omega
        have more : (vm.virRegion r).length / vmPageSize ≤
            (roundup v - (vm.virRegion r).vaddr) / vmPageSize :=
          Nat.div_le_div_right (by omega)
        rw [if_neg already, assert_true _ (by omega), vbSub_eq (by omega) small,
          physSlot_ok pages, ok_bind, physSlot_ok aligned.2, ok_bind, assert_true _ more]
        by_cases memory : answers.slaballoc vm.calls = true
        · have called : Placed vm.called p vmDatatop :=
            ⟨placed.spread.congr fun _ _ => ⟨rfl, rfl⟩, placed.below, placed.parents⟩
          obtain ⟨added, all⟩ := Nat.exists_eq_add_of_le more
          have cleared := unextended_cleared vm r added
          have grown := extended_grown placed split exact' starts next upto added all
          have following := getnextvr_ok
            (called.clearSlots r ((vm.virRegion r).length / vmPageSize) added) datatop split
          rw [if_neg (by simpa using memory), all, Nat.add_sub_cancel_left, following, ok_bind]
          generalize vm.called.clearSlots r ((vm.virRegion r).length / vmPageSize) added = vm1
            at cleared grown ⊢
          have resized := resized_cases resizes cleared grown (vm.virRegion r).memtype
          cases rest with
          | nil => exact resized
          | cons other rest =>
              have above := next other List.mem_cons_self
              rw [← (cleared.places other).1] at above
              rw [List.head?_cons]
              dsimp only
              rw [assert_true _ above, Option.any_some, if_neg (by simpa using above)]
              exact resized
        · rw [if_pos (by simpa using memory)]
          exact ⟨.enomem, vm.called, rfl, nofun,
            fun _ => ⟨rfl, fun _ => ⟨rfl, rfl⟩, fun _ _ _ => rfl⟩⟩

/-- A memory type that always gives the length. -/
def resizing : Resize 2 := fun vm r length => (.ok, vm.setLength r length)

theorem extend_safe_small : ∃ code vm',
    mapRegionExtendUptoV (firstFit 16) (fun _ => some resizing) smallStart 0 50000 =
      .ok (code, vm') ∧
    (code = .ok → ∃ r, Extended smallStart vm' 0 50000 r) ∧
      (code ≠ .ok → Unextended smallStart vm') := by
  have placed : Placed smallStart 0 0xF0000000 :=
    ⟨smallStart_spread, by decide, by decide⟩
  refine extend_safe placed (by decide) (fun memtype resize same => ?_) 50000
  rw [← Option.some.inj same]
  exact fun vm r length => Or.inl rfl

end Ve482.Vm
