import Ve482.Vm.FindSlot

set_option autoImplicit false

namespace Ve482.Vm

variable {np : Nat} {vm : State np} {p : Fin np} {vmDatatop top minv maxv length : Nat}

/-- The search stops with no failed assertion, and finds nothing or a place that is free. -/
def SlotSafe (vm : State np) (p : Fin np) (minv maxv length : Nat)
    (outcome : Except Stop (Nat × Nat)) : Prop :=
  ∃ v top', outcome = .ok (v, top') ∧ (v = slotFail ∨
    minv ≤ v ∧ (if maxv = 0 then v = minv else v + length ≤ maxv) ∧ Away vm p length v)

/-- There is no room, but a region at address 0 and a window that is long enough. -/
def Fooled (vm : State np) (p : Fin np) (length minv maxv : Nat) : Prop :=
  (∃ r ∈ (vm.vmproc p).vmRegionsAvl, (vm.virRegion r).vaddr = 0) ∧
    ¬ Room vm p length minv maxv ∧ max vmPageSize minv + length ≤ maxv

theorem slotSafe_ok {v top' : Nat} : SlotSafe vm p minv maxv length (.ok (v, top')) ↔ v = slotFail ∨
    minv ≤ v ∧ (if maxv = 0 then v = minv else v + length ≤ maxv) ∧ Away vm p length v := by
  constructor
  · rintro ⟨v', top'', same, safe⟩
    obtain ⟨rfl, -⟩ := Prod.mk.inj (Except.ok.inj same)
    exact safe
  · exact fun safe => ⟨v, top', rfl, safe⟩

/-- Neither the window nor the part of it below the hint is such a window, and a hint at the start
of the window is at 0, where the length is not free or fits the window. -/
structure Searchable (vmDatatop : Nat) (vm : State np) (p : Fin np)
    (top minv maxv length : Nat) : Prop where
  here : maxv = 0 → ¬ ((∃ r ∈ (vm.vmproc p).vmRegionsAvl, (vm.virRegion r).vaddr = 0) ∧
    vmPageSize ≤ minv ∧ minv + length ≤ 2 ^ 32 - vmPageSize ∧ ¬ Away vm p length minv)
  window : maxv ≠ 0 → ¬ Fooled vm p length minv maxv
  hinted : minv < top → top < maxv → ¬ Fooled vm p length minv top
  atHint : maxv ≠ 0 → top = minv →
    minv = 0 ∧ ¬ (maxv < length ∧ length ≤ vmDatatop ∧ Away vm p length 0)

theorem Room.mono {low high high' : Nat} (room : Room vm p length low high)
    (larger : high ≤ high') : Room vm p length low high' := by
  obtain ⟨v, above, below, away⟩ := room
  exact ⟨v, above, Nat.le_trans below larger, away⟩

theorem regionFindSlotRange_below (positive : 0 < length) (given : maxv ≠ 0) :
    regionFindSlotRange vmDatatop vm p top minv maxv length =
      findSlotBelow vmDatatop vm p top minv maxv length := by
  unfold regionFindSlotRange
  rw [assert_true _ positive, if_neg given]

/-- A hint at the start of a window, not at 0, is an empty range. -/
theorem hint_at_start (vm : State np) (p : Fin np) (vmDatatop : Nat) (positive : 0 < length)
    (pages : length % vmPageSize = 0) (start : 0 < minv) (order : minv < maxv) :
    regionFindSlot vmDatatop vm p minv minv maxv length =
      .error (.assertion .regionFindSlotRange) := by
  unfold regionFindSlot
  dsimp only
  rw [if_pos ⟨by omega, order, Nat.le_refl minv⟩,
    regionFindSlotRange_below positive (by omega)]
  unfold findSlotBelow
  rw [assert_true _ pages, assert_stops _ (Nat.lt_irrefl minv)]
  rfl

section

variable (below : ∀ r ∈ (vm.vmproc p).vmRegionsAvl,
    (vm.virRegion r).vaddr + (vm.virRegion r).length ≤ vmDatatop)
  (spread : Spread vm (vm.vmproc p).vmRegionsAvl)
  (datatop : vmPageSize ≤ vmDatatop ∧ vmDatatop + vmPageSize < 2 ^ 32)
  (positive : 0 < length) (pages : length % vmPageSize = 0)

include below spread datatop positive pages

/-- The outcome of the search of a window: an occupied place, a free one, or none. -/
theorem window_cases (top : Nat) (order : minv < maxv) (inside : maxv ≤ vmDatatop) :
    ∃ v top', regionFindSlotRange vmDatatop vm p top minv maxv length = .ok (v, top') ∧
      (Fooled vm p length minv maxv ∧ v ≠ slotFail ∧ ¬ Away vm p length v ∨
        Room vm p length minv maxv ∧ v ≠ slotFail ∧ minv ≤ v ∧ v + length ≤ maxv ∧
          Away vm p length v ∨
        ¬ Fooled vm p length minv maxv ∧ ¬ Room vm p length minv maxv ∧ v = slotFail ∧
          top' = top) := by
  have bound : maxv < 2 ^ 32 := by omega
  have low : min maxv vmDatatop = maxv := Nat.min_eq_left inside
  have short : min (2 ^ 32 - vmPageSize) maxv = maxv := by
    unfold vmPageSize at *
    omega
  rw [regionFindSlotRange_below positive (by omega),
    findSlotBelow_eq vmDatatop vm p top positive pages order bound]
  by_cases room : Room vm p length minv maxv
  · obtain ⟨v, found, away⟩ := search_room below spread datatop positive (low.symm ▸ room)
    have range := search_range found
    rw [found]
    refine ⟨v, v + length, rfl, Or.inr (Or.inl ⟨room, ?_, range.1, range.2, away⟩)⟩
    unfold slotFail
    omega
  · rw [search_full below spread datatop positive order (low.symm ▸ room), short]
    by_cases fooled : Fooled vm p length minv maxv
    · rw [if_pos ⟨fooled.1, fooled.2.2⟩]
      have long := fooled.2.2
      refine ⟨maxv - length, maxv - length + length, rfl, Or.inl ⟨fooled, ?_, fun away => ?_⟩⟩
      · unfold slotFail
        omega
      · exact room ⟨maxv - length, by omega, by omega, away⟩
    · rw [if_neg fun both => fooled ⟨both.1, room, both.2⟩]
      exact ⟨slotFail, top, rfl, Or.inr (Or.inr ⟨fooled, room, rfl, rfl⟩)⟩

/-- A range that starts at 0 and is to hold just the length. -/
theorem here_cases (top : Nat) {minv : Nat} (short : minv + length < 2 ^ 32) :
    ∃ v top', regionFindSlotRange vmDatatop vm p top minv 0 length = .ok (v, top') ∧
      (Away vm p length minv ∧ minv + length ≤ vmDatatop ∧ v = minv ∧ v ≠ slotFail ∨
        ¬ (Away vm p length minv ∧ minv + length ≤ vmDatatop) ∧
          ((∃ r ∈ (vm.vmproc p).vmRegionsAvl, (vm.virRegion r).vaddr = 0) ∧ vmPageSize ≤ minv ∧
              minv + length ≤ 2 ^ 32 - vmPageSize ∧ v = minv ∧ v ≠ slotFail ∨
            ¬ ((∃ r ∈ (vm.vmproc p).vmRegionsAvl, (vm.virRegion r).vaddr = 0) ∧
              vmPageSize ≤ minv ∧ minv + length ≤ 2 ^ 32 - vmPageSize) ∧ v = slotFail ∧
              top' = top)) := by
  have result : regionFindSlotRange vmDatatop vm p top minv 0 length =
      findSlotBelow vmDatatop vm p top minv (minv + length) length := by
    unfold regionFindSlotRange
    rw [assert_true _ positive, if_pos rfl, vbAdd_eq short]
    dsimp only
    rw [if_neg (by omega)]
  have room : Room vm p length minv (min (minv + length) vmDatatop) ↔
      Away vm p length minv ∧ minv + length ≤ vmDatatop := by
    constructor
    · rintro ⟨v, low, high, away⟩
      obtain rfl : v = minv := by omega
      exact ⟨away, by omega⟩
    · rintro ⟨away, inside⟩
      exact ⟨minv, Nat.le_refl _, by omega, away⟩
  have ends : minv ≠ slotFail := by
    unfold slotFail
    omega
  rw [result, findSlotBelow_eq vmDatatop vm p top positive pages (by omega) short]
  by_cases free : Away vm p length minv ∧ minv + length ≤ vmDatatop
  · obtain ⟨v, found, -⟩ := search_room below spread datatop positive (room.mpr free)
    have range := search_range found
    obtain rfl : v = minv := by omega
    rw [found]
    exact ⟨v, v + length, rfl, Or.inl ⟨free.1, free.2, rfl, ends⟩⟩
  · rw [search_full below spread datatop positive (by omega) (fun some => free (room.mp some))]
    have size : vmPageSize = 4096 := rfl
    by_cases fooled : (∃ r ∈ (vm.vmproc p).vmRegionsAvl, (vm.virRegion r).vaddr = 0) ∧
        vmPageSize ≤ minv ∧ minv + length ≤ 2 ^ 32 - vmPageSize
    · have place : min (2 ^ 32 - vmPageSize) (minv + length) - length = minv := by omega
      rw [if_pos ⟨fooled.1, by omega⟩, place]
      exact ⟨minv, minv + length, rfl,
        Or.inr ⟨free, Or.inl ⟨fooled.1, fooled.2.1, fooled.2.2, rfl, ends⟩⟩⟩
    · rw [if_neg fun both => fooled ⟨both.1, by omega, by omega⟩]
      exact ⟨slotFail, top, rfl, Or.inr ⟨free, Or.inr ⟨fooled, rfl, rfl⟩⟩⟩

/-- The search of the whole window is safe unless it is fooled. -/
theorem window_safe_iff (top : Nat) (order : minv < maxv) (inside : maxv ≤ vmDatatop) :
    SlotSafe vm p minv maxv length
      (regionFindSlotRange vmDatatop vm p top minv maxv length) ↔
        ¬ Fooled vm p length minv maxv := by
  have given : maxv ≠ 0 := by omega
  obtain ⟨v, top', result, outcome⟩ :=
    window_cases below spread datatop positive pages top order inside
  rw [result, slotSafe_ok, if_neg given]
  rcases outcome with ⟨fooled, found, occupied⟩ | ⟨room, -, low, high, away⟩ | ⟨clear, -, none, -⟩
  · exact iff_of_false (fun safe => safe.elim found fun safe => occupied safe.2.2)
      fun clear => clear fooled
  · exact iff_of_true (Or.inr ⟨low, high, away⟩) fun fooled => fooled.2.1 room
  · exact iff_of_true (Or.inl none) clear

theorem here_safe_iff (top : Nat) (bounds : minv < 2 ^ 32 ∧ length < 2 ^ 32) :
    SlotSafe vm p minv 0 length (regionFindSlotRange vmDatatop vm p top minv 0 length) ↔
      ¬ ((∃ r ∈ (vm.vmproc p).vmRegionsAvl, (vm.virRegion r).vaddr = 0) ∧ vmPageSize ≤ minv ∧
        minv + length ≤ 2 ^ 32 - vmPageSize ∧ ¬ Away vm p length minv) := by
  by_cases short : minv + length < 2 ^ 32
  · obtain ⟨v, top', result, outcome⟩ := here_cases below spread datatop positive pages top short
    rw [result, slotSafe_ok, if_pos rfl]
    rcases outcome with ⟨away, -, rfl, -⟩ | ⟨-, ⟨zero, low, high, rfl, found⟩ | ⟨clear, none, -⟩⟩
    · exact iff_of_true (Or.inr ⟨Nat.le_refl _, rfl, away⟩) fun fooled => fooled.2.2.2 away
    · constructor
      · exact fun safe fooled => safe.elim found fun safe => fooled.2.2.2 safe.2.2
      · intro clear
        refine Or.inr ⟨Nat.le_refl _, rfl, ?_⟩
        by_contra occupied
        exact clear ⟨zero, low, high, occupied⟩
    · exact iff_of_true (Or.inl none) fun fooled => clear ⟨fooled.1, fooled.2.1, fooled.2.2.1⟩
  · have wrapped : vbAdd minv length ≤ minv := by
      unfold vbAdd
      omega
    have result : regionFindSlotRange vmDatatop vm p top minv 0 length = .ok (slotFail, top) := by
      unfold regionFindSlotRange
      rw [assert_true _ positive, if_pos rfl]
      dsimp only
      rw [if_pos wrapped]
      rfl
    rw [result, slotSafe_ok]
    refine iff_of_true (Or.inl rfl) fun fooled => short ?_
    have inside := fooled.2.2.1
    unfold vmPageSize at inside
    omega

/-- A search that is hinted below the window's end. -/
theorem hinted_safe_iff (order : minv < maxv) (inside : maxv ≤ vmDatatop) (low : minv < top)
    (high : top < maxv) :
    SlotSafe vm p minv maxv length (regionFindSlot vmDatatop vm p top minv maxv length) ↔
      ¬ Fooled vm p length minv maxv ∧ ¬ Fooled vm p length minv top := by
  obtain ⟨v, top', result, outcome⟩ :=
    window_cases below spread datatop positive pages top low (by omega : top ≤ vmDatatop)
  unfold regionFindSlot
  dsimp only
  rw [if_pos ⟨by omega, high, by omega⟩, result, ok_bind]
  rcases outcome with ⟨fooled, found, occupied⟩ | ⟨room, found, above, under, away⟩ |
    ⟨clear, -, rfl, rfl⟩
  · dsimp only
    rw [if_pos found]
    refine iff_of_false (fun safe => ?_) fun both => both.2 fooled
    exact (slotSafe_ok.mp safe).elim found fun safe => occupied safe.2.2
  · dsimp only
    rw [if_pos found]
    refine iff_of_true (slotSafe_ok.mpr (Or.inr ⟨above, ?_, away⟩))
      ⟨fun fooled => fooled.2.1 (room.mono (by omega)), fun fooled => fooled.2.1 room⟩
    rw [if_neg (by omega)]
    omega
  · dsimp only
    rw [if_neg (by simp), window_safe_iff below spread datatop positive pages _ order inside]
    exact ⟨fun whole => ⟨whole, clear⟩, And.left⟩

/-- A search whose hint is 0, as is the start of its window: the first range is taken to end after
the length. -/
theorem zero_safe_iff (given : 0 < maxv) (inside : maxv ≤ vmDatatop) (bound : length < 2 ^ 32) :
    SlotSafe vm p 0 maxv length (regionFindSlot vmDatatop vm p 0 0 maxv length) ↔
      ¬ Fooled vm p length 0 maxv ∧
        ¬ (maxv < length ∧ length ≤ vmDatatop ∧ Away vm p length 0) := by
  obtain ⟨v, top', result, outcome⟩ :=
    here_cases below spread datatop positive pages 0 (by omega : 0 + length < 2 ^ 32)
  unfold regionFindSlot
  dsimp only
  rw [if_pos ⟨by omega, given, Nat.le_refl 0⟩, result, ok_bind]
  rcases outcome with ⟨away, short, rfl, found⟩ | ⟨full, ⟨-, impossible, -⟩ | ⟨-, rfl, rfl⟩⟩
  · dsimp only
    rw [if_pos found]
    constructor
    · intro safe
      obtain ⟨-, fits, -⟩ := (slotSafe_ok.mp safe).resolve_left found
      rw [if_neg (by omega)] at fits
      refine ⟨fun fooled => fooled.2.1 ⟨0, Nat.le_refl _, by omega, away⟩, fun long => by omega⟩
    · rintro ⟨-, fits⟩
      refine slotSafe_ok.mpr (Or.inr ⟨Nat.le_refl _, ?_, away⟩)
      rw [if_neg (by omega)]
      by_contra long
      exact fits ⟨by omega, by omega, away⟩
  · exact absurd impossible (by decide)
  · dsimp only
    rw [if_neg (by simp), window_safe_iff below spread datatop positive pages _ given inside]
    refine ⟨fun whole => ⟨whole, fun long => full ⟨long.2.2, by omega⟩⟩, And.left⟩

/-- A search is safe just when it is one that the low ends of the ranges do not mislead. -/
theorem slot_safe_iff (window : maxv = 0 ∨ minv < maxv ∧ maxv ≤ vmDatatop)
    (bounds : minv < 2 ^ 32 ∧ length < 2 ^ 32) :
    SlotSafe vm p minv maxv length (regionFindSlot vmDatatop vm p top minv maxv length) ↔
      Searchable vmDatatop vm p top minv maxv length := by
  rcases window with rfl | ⟨order, inside⟩
  · unfold regionFindSlot
    dsimp only
    rw [if_neg (fun hint => hint.1 rfl),
      here_safe_iff below spread datatop positive pages top bounds]
    refine ⟨fun clear => ⟨fun _ => clear, ?_, ?_, ?_⟩, fun searchable => searchable.here rfl⟩
    · exact fun given => absurd rfl given
    · exact fun _ high => absurd high (Nat.not_lt_zero top)
    · exact fun given => absurd rfl given
  have given : maxv ≠ 0 := by omega
  by_cases hint : top < maxv ∧ minv ≤ top
  · rcases Nat.eq_or_lt_of_le hint.2 with same | low
    · subst same
      rcases Nat.eq_zero_or_pos minv with rfl | start
      · rw [zero_safe_iff below spread datatop positive pages order inside bounds.2]
        constructor
        · rintro ⟨clear, fits⟩
          exact ⟨fun zero => absurd zero given, fun _ => clear,
            fun low => absurd low (Nat.lt_irrefl 0), fun _ _ => ⟨rfl, fits⟩⟩
        · intro searchable
          exact ⟨searchable.window given, (searchable.atHint given rfl).2⟩
      · have stops := hint_at_start vm p vmDatatop positive pages start order
        rw [stops]
        refine iff_of_false ?_ fun searchable => ?_
        · rintro ⟨v, top', failed, -⟩
          cases failed
        · have zero := (searchable.atHint given rfl).1
          omega
    · rw [hinted_safe_iff below spread datatop positive pages order inside low hint.1]
      constructor
      · rintro ⟨clear, under⟩
        refine ⟨fun zero => absurd zero given, fun _ => clear, fun _ _ => under, fun _ same => ?_⟩
        omega
      · intro searchable
        exact ⟨searchable.window given, searchable.hinted low hint.1⟩
  · unfold regionFindSlot
    dsimp only
    rw [if_neg fun all => hint all.2,
      window_safe_iff below spread datatop positive pages top order inside]
    constructor
    · intro clear
      refine ⟨fun zero => absurd zero given, fun _ => clear, fun low high => ?_, fun _ same => ?_⟩
      · exact absurd ⟨high, by omega⟩ hint
      · exact absurd ⟨by omega, by omega⟩ hint
    · intro searchable
      exact searchable.window given

/-- If the search fails there is no room, whatever the hint. -/
theorem slot_complete (order : minv < maxv) (bound : maxv < 2 ^ 32) {top' : Nat}
    (failed : regionFindSlot vmDatatop vm p top minv maxv length = .ok (slotFail, top')) :
    ¬ Room vm p length minv (min maxv vmDatatop) := by
  have last (top : Nat) (result : regionFindSlotRange vmDatatop vm p top minv maxv length =
      .ok (slotFail, top')) : ¬ Room vm p length minv (min maxv vmDatatop) := by
    intro room
    obtain ⟨v, found, -⟩ := search_room below spread datatop positive room
    have range := search_range found
    rw [regionFindSlotRange_below positive (by omega),
      findSlotBelow_eq vmDatatop vm p top positive pages order bound, found] at result
    have same := congrArg Prod.fst (Except.ok.inj result)
    dsimp only [slotFail] at same
    omega
  unfold regionFindSlot at failed
  dsimp only at failed
  split at failed
  · cases hinted : regionFindSlotRange vmDatatop vm p top minv top length with
    | error stop =>
        rw [hinted] at failed
        cases failed
    | ok found =>
        obtain ⟨v, after⟩ := found
        rw [hinted, ok_bind] at failed
        dsimp only at failed
        split at failed
        · next good => exact absurd (congrArg Prod.fst (Except.ok.inj failed)) good
        · exact last after failed
  · exact last top failed

end

/-- The region of the small server leaves no room for eight pages in the first eleven. -/
theorem slot_complete_small :
    regionFindSlot 0xF0000000 smallStart 0 0 4096 (11 * vmPageSize) (8 * vmPageSize) =
        .ok (slotFail, 0) ∧
      ¬ Room smallStart 0 (8 * vmPageSize) 4096 (min (11 * vmPageSize) 0xF0000000) := by
  have failed : regionFindSlot 0xF0000000 smallStart 0 0 4096 (11 * vmPageSize) (8 * vmPageSize) =
      .ok (slotFail, 0) := by rfl
  exact ⟨failed, slot_complete (by decide) smallStart_spread (by decide) (by decide) (by decide)
    (by decide) (by decide) failed⟩

theorem slot_safe_iff_small :
    SlotSafe smallStart 0 4096 0xF0000000 8192
        (regionFindSlot 0xF0000000 smallStart 0 (12 * vmPageSize) 4096 0xF0000000 8192) ↔
      Searchable 0xF0000000 smallStart 0 (12 * vmPageSize) 4096 0xF0000000 8192 :=
  slot_safe_iff (by decide) smallStart_spread (by decide) (by decide) (by decide)
    (Or.inr ⟨by decide, by decide⟩) ⟨by decide, by decide⟩

/-- The first search is for the region of the small server. The second is to start at its end. -/
theorem hint_fails_assertion :
    regionFindSlot 0xF0000000 { smallStart with vmproc := fun _ => ⟨1, true, [], 0⟩ } 0 0
        (8 * vmPageSize) 0 (4 * vmPageSize) = .ok (8 * vmPageSize, 12 * vmPageSize) ∧
      regionFindSlot 0xF0000000 smallStart 0 (12 * vmPageSize) (12 * vmPageSize) 0xF0000000 4096 =
        .error (.assertion .regionFindSlotRange) ∧
      ¬ SlotSafe smallStart 0 (12 * vmPageSize) 0xF0000000 4096 (regionFindSlot 0xF0000000
        smallStart 0 (12 * vmPageSize) (12 * vmPageSize) 0xF0000000 4096) := by
  have failed : regionFindSlot 0xF0000000 smallStart 0 (12 * vmPageSize) (12 * vmPageSize)
      0xF0000000 4096 = .error (.assertion .regionFindSlotRange) :=
    hint_at_start smallStart 0 0xF0000000 (by decide) (by decide) (by decide) (by decide)
  refine ⟨by rfl, failed, ?_⟩
  rw [failed]
  rintro ⟨v, top', result, -⟩
  cases result

end Ve482.Vm
