import Ve482.Bufcache.Clients

set_option autoImplicit false

namespace Ve482.Bufcache

open Function (update)
open Runs
open TwoLevel (Coherent Step Steps)

variable {n : Nat} {α : Type} {header : Header} {env : Environment α}

/-- What VM holds is of a block of a device, which no valid buffer is named after, and is what
the device holds there. -/
structure LevelsAgree (header : Header) (cache : Cache n α) : Prop where
  stored : ∀ id contents, cache.vm id = some contents →
    ∃ dev block, id = make64 dev block ∧ dev ≠ header.noDev ∧
      (∀ bp, ¬ (cache.lmfsDev bp = dev ∧ cache.lmfsBlocknr bp = block)) ∧
      contents = cache.disk dev block.toNat

namespace Traced

/-- The clients use the cache as they should, and no get that asks VM takes a dirty buffer that
the flush of its device does not get past. -/
def Meets (header : Header) (env : Environment α) (traced : Traced n α) (event : Event n α) :
    Prop :=
  Client header traced event ∧
    match event with
    | .get dev block onlySearch => traced.cache.Spares header env dev block onlySearch
    | _ => True

instance decidableWritesPast (header : Header) (env : Environment α) (blocknr : Fin n → BlockNr)
    (victim : Fin n) : (fuel call : Nat) → (bufq : List (Fin n)) →
      Decidable (Cache.WritesPast header env blocknr victim fuel call bufq)
  | 0, _, _ => .isFalse id
  | _ + 1, _, [] => .isFalse id
  | fuel + 1, call, _ :: _ =>
      have := decidableWritesPast header env blocknr victim fuel (call + 1)
      inferInstanceAs (Decidable (_ ∈ _ ∨ _ ∧ Cache.WritesPast header env blocknr victim fuel
        (call + 1) _))

instance (cache : Cache n α) (bp : Fin n) : Decidable (cache.Cleanable header env bp) :=
  inferInstanceAs (Decidable (_ ≠ _ → _ = _ →
    Cache.WritesPast header env cache.lmfsBlocknr bp _ _ (cache.flushQueue (cache.lmfsDev bp))))

instance (cache : Cache n α) (dev : Dev) (block : BlockNr) (onlySearch : OnlySearch) :
    Decidable (cache.Spares header env dev block onlySearch) := by
  unfold Cache.Spares
  cases cache.oldest header env with
  | ok taken => exact inferInstanceAs (Decidable (_ → _ → cache.Cleanable header env taken.1))
  | error stop => exact inferInstanceAs (Decidable (_ → _ → True))

instance [DecidableEq α] (traced : Traced n α) (event : Event n α) :
    Decidable (Meets header env traced event) := by
  unfold Meets
  cases event <;> infer_instance

theorem Sound.levelsAgree {traced : Traced n α} (sound : traced.Sound header) :
    LevelsAgree header traced.cache := by
  constructor
  intro id contents stored
  obtain ⟨dev, block, same⟩ := exists_make64 id
  subst same
  obtain ⟨proper, absent, contentsSame⟩ := sound.coherent.second (dev, block) contents stored
  refine ⟨dev, block, rfl, proper, fun bp named => ?_, contentsSame⟩
  refine absent bp ?_
  change (traced.cache.slot header traced.marks.awaited bp).key = some (dev, block)
  rw [Cache.slot_of_named (named.1 ▸ proper), named.1, named.2]
  rfl

end Traced

namespace Cache

variable {marks : Marks n}

/-- A change of what is dirty, which spares the buffers of prefetches. -/
theorem Marked.redirty {cache : Cache n α} (marked : Marked header marks cache) {bp : Fin n}
    {dirt : Dirt} (spares : marks.awaited bp ≠ none → dirt = .clean) :
    Marked header marks { cache with lmfsDirt := update cache.lmfsDirt bp dirt } := by
  refine ⟨fun other waits awaited => ?_, marked.unwritten⟩
  obtain ⟨proper, unnamed, clean, settled, used⟩ := marked.awaited other waits awaited
  refine ⟨proper, unnamed, ?_, settled, used⟩
  change update cache.lmfsDirt bp dirt other = .clean
  by_cases same : other = bp
  · rw [same, Function.update_self]
    apply spares
    rw [← same, awaited]
    exact Option.some_ne_none waits
  · rw [Function.update_of_ne same]
    exact clean

theorem view_markdirty (cache : Cache n α) (marks : Marks n) (bp : Fin n) :
    (cache.lmfsMarkdirty bp).view header marks =
      { cache.view header marks with
        dirty := update (cache.view header marks).dirty bp true } := by
  unfold view
  congr 1
  funext other
  by_cases same : other = bp
  · simp [lmfsMarkdirty, same]
  · simp [lmfsMarkdirty, same]

theorem markclean_steps {cache : Cache n α} {bp : Fin n}
    (settled : cache.lmfsDirt bp = .dirty → cache.lmfsDev bp ≠ header.noDev →
      cache.data bp = some (cache.disk (cache.lmfsDev bp) (cache.lmfsBlocknr bp).toNat)) :
    Steps (Proper header) True (cache.view header marks)
      ((cache.lmfsMarkclean bp).view header marks) := by
  cases dirt : cache.lmfsDirt bp with
  | clean =>
      have same : cache.lmfsMarkclean bp = cache := by
        unfold lmfsMarkclean
        rw [← dirt, Function.update_eq_self]
      rw [same]
  | dirty =>
      by_cases named : cache.lmfsDev bp ≠ header.noDev
      · exact .single (markclean_step named (settled dirt named))
      · rw [view_markclean]
        have unnamed (key : Key) : (cache.view header marks).slot bp ≠ .named key :=
          fun same => named (slot_named.mp same).1
        have refilled : Step (Proper header) True (cache.view header marks)
            { cache.view header marks with
              data := update (cache.view header marks).data bp ((cache.view header marks).data bp)
              dirty := update (cache.view header marks).dirty bp false
              unwritten := update (cache.view header marks).unwritten bp
                ((cache.view header marks).unwritten bp) } := .refill unnamed
        simp only [Function.update_eq_self] at refilled
        exact .single refilled

theorem invalidate_steps {cache : Cache n α} (marked : Marked header marks cache) (device : Dev) :
    Steps (Proper header) True (cache.view header marks)
      ((cache.lmfsInvalidate header device).view header marks) := by
  have freed : Steps (Proper header) True (cache.view header marks)
      { cache.view header marks with
        slot := fun bp =>
          if bp ∈ (List.finRange n).filter fun bp =>
              cache.lmfsDev bp = device ∧ cache.lmfsDev bp ≠ header.noDev then .free
          else (cache.view header marks).slot bp } := .freeAll fun _ _ _ _ => Or.inr trivial
  refine freed.trans (.single ?_)
  have viewed : (cache.lmfsInvalidate header device).view header marks =
      { cache.view header marks with
        slot := fun bp =>
          if bp ∈ (List.finRange n).filter fun bp =>
              cache.lmfsDev bp = device ∧ cache.lmfsDev bp ≠ header.noDev then .free
          else (cache.view header marks).slot bp
        second := fun _ => none } := by
    unfold view
    congr 1
    funext bp
    by_cases purged : cache.lmfsDev bp = device ∧ cache.lmfsDev bp ≠ header.noDev
    · simp [lmfsInvalidate, vmForgetblocks, slot, purged, marked.idle purged.2]
    · have kept : (cache.lmfsInvalidate header device).lmfsDev bp = cache.lmfsDev bp := by
        change (if cache.lmfsDev bp = device then header.noDev else cache.lmfsDev bp) = _
        by_cases same : cache.lmfsDev bp = device
        · rw [if_pos same]
          exact (not_not.mp fun named => purged ⟨same, named⟩).symm
        · rw [if_neg same]
      have still : (cache.lmfsInvalidate header device).slot header marks.awaited bp =
          cache.slot header marks.awaited bp := by
        unfold slot
        rw [kept]
        rfl
      rw [still, if_neg]
      simpa using purged
  rw [viewed]
  exact .forget fun _ => Or.inl rfl

end Cache

namespace Traced

/-- One call: whatever the drivers answer, the levels stay coherent. -/
theorem Sound.step {traced : Traced n α} (sound : traced.Sound header) {event : Event n α}
    (meets : Meets header env traced event) :
    Outcome (Sound header) (traced.step header env event) := by
  obtain ⟨client, spares⟩ := meets
  have faulty : Cache.Short header env → True := fun _ => trivial
  have released : traced.cache.ReleasesHeld event →
      Outcome (Cache.Wellformed header) (traced.cache.step header env event) :=
    Cache.step_wellformed sound.wellformed
  cases event with
  | get dev block onlySearch =>
      rw [step_get]
      apply Outcome.map
      apply (Cache.lmfsGetBlock_got env sound.wellformed dev block onlySearch).outcome
      intro taken got
      have moves := got.moves faulty sound.wellformed sound.marked sound.coherent sound.quiet
        client spares
      exact moves.sound sound _ _
  | put bp blockType =>
      exact (Cache.put_moves sound.wellformed sound.marked client.1 client.2.1 client.2.2
        blockType : Cache.Moves header True _ _ _ _).sound sound _ _
  | edit bp contents => exact sound.edit client.2 contents
  | markdirty bp =>
      have wellformed : (traced.cache.lmfsMarkdirty bp).Wellformed header := released trivial
      refine ⟨wellformed, sound.marked.redirty fun waits => absurd client waits, ?_, sound.quiet⟩
      rw [Cache.view_markdirty]
      exact sound.coherent.soil bp
  | markclean bp =>
      have wellformed : (traced.cache.lmfsMarkclean bp).Wellformed header := released trivial
      exact ⟨wellformed, sound.marked.redirty fun _ => rfl,
        (Cache.markclean_steps client).coherent sound.coherent, sound.quiet⟩
  | invalidate device =>
      have wellformed : (traced.cache.lmfsInvalidate header device).Wellformed header :=
        released trivial
      refine ⟨wellformed, ⟨fun bp dev waits => ?_, sound.marked.unwritten⟩,
        (Cache.invalidate_steps sound.marked device).coherent sound.coherent, fun _ _ => rfl⟩
      obtain ⟨proper, unnamed, clean, settled, used⟩ := sound.marked.awaited bp dev waits
      refine ⟨proper, ?_, clean, settled, used⟩
      change (if traced.cache.lmfsDev bp = device then header.noDev
        else traced.cache.lmfsDev bp) = _
      rw [unnamed, ite_self]
  | flushall =>
      exact (Cache.lmfsFlushall_moves env faulty sound.wellformed sound.marked).sound sound _ _
  | readScattered dev bufq =>
      exact (Cache.readScattered_moves env sound.wellformed sound.marked sound.coherent client.1
        client.2 : Cache.Moves header True _ _ _ _).sound sound _ _
  | vmDrop kept =>
      let dropped : Cache n α :=
        { traced.cache with vm := fun id => if kept id then traced.cache.vm id else none }
      have wellformed : dropped.Wellformed header := released trivial
      have forgotten : Step (Cache.Proper header) True (traced.cache.view header traced.marks)
          (dropped.view header traced.marks) := by
        refine .forget fun key => ?_
        by_cases keeps : kept (make64 key.1 key.2) = true
        · exact Or.inr (if_pos keeps)
        · exact Or.inl (if_neg keeps)
      refine ⟨wellformed, ⟨sound.marked.awaited, sound.marked.unwritten⟩,
        forgotten.coherent sound.coherent, fun unused id => ?_⟩
      change (if kept id then traced.cache.vm id else none) = none
      rw [sound.quiet unused id, ite_self]

end Traced

/-- Every run of the cache operations, under any answers of allocation, drivers and VM: while
every dirty buffer that is given to VM is one that the flush gets past, the two levels agree
with each other and with the devices in every state between two operations. -/
theorem run_levelsAgree (header : Header) (env : Environment α) (n : Nat) (disk : Dev → Nat → α)
    (events : List (Event n α))
    (meets : EveryStep (Traced.next header env) (Traced.While (Traced.Meets header env))
      (.ok (Traced.start header (lmfsBufPool header n true disk))) events) :
    Outcome (fun traced => LevelsAgree header traced.cache)
      (run (Traced.next header env) (.ok (Traced.start header (lmfsBufPool header n true disk)))
        events) := by
  have sound : Outcome (Traced.Sound header) (run (Traced.next header env)
      (.ok (Traced.start header (lmfsBufPool header n true disk))) events) := by
    refine run_invariant (Outcome (Traced.Sound header)) ?_ (Traced.start_sound header n true disk)
      meets
    intro outcome event sound meets
    cases outcome with
    | error stop => exact sound
    | ok traced => exact Traced.Sound.step sound meets
  apply sound.imp
  intro traced sound
  exact sound.levelsAgree

/-- A dirty buffer is written, given to VM and got back. -/
theorem run_levelsAgree_evicted :
    Outcome (fun traced => LevelsAgree minixHeader traced.cache)
      (run (Traced.next minixHeader smooth)
        (.ok (Traced.start minixHeader (lmfsBufPool minixHeader 6 true fun _ block => block)))
        [.get 0x301 10 .normal, .edit 0 77, .put 0 0o200, .get 0x301 11 .normal,
          .get 0x301 10 .normal]) :=
  run_levelsAgree minixHeader smooth 6 (fun _ block => block) _ (by decide +kernel)

/-- A system whose second transfer fails. -/
def secondFails : Environment Nat where
  alloc _ := some 0
  bdev call bytes := { result := if call = 1 then -5 else bytes, spoilt := fun _ => none }
  vmKeeps _ _ := true

/-- A dirty buffer that cannot be written loses its name before its name is looked up to give
it to VM. -/
theorem unwritten_victim_given_away :
    EveryStep (Traced.next minixHeader secondFails) (Traced.While (Traced.Client minixHeader))
        (.ok (Traced.start minixHeader (lmfsBufPool minixHeader 6 true fun _ block => block)))
        [.get 0x301 10 .normal, .edit 0 77, .put 0 0o200, .get 0x301 11 .normal] ∧
      ¬ Outcome (fun traced => LevelsAgree minixHeader traced.cache)
        (run (Traced.next minixHeader secondFails)
          (.ok (Traced.start minixHeader (lmfsBufPool minixHeader 6 true fun _ block => block)))
          [.get 0x301 10 .normal, .edit 0 77, .put 0 0o200, .get 0x301 11 .normal]) := by
  refine ⟨by decide +kernel, fun agree => ?_⟩
  have stored : (run (Traced.next minixHeader secondFails)
      (.ok (Traced.start minixHeader (lmfsBufPool minixHeader 6 true fun _ block => block)))
      [.get 0x301 10 .normal, .edit 0 77, .put 0 0o200, .get 0x301 11 .normal]).toOption.map
        (fun traced => traced.cache.vm (make64 0 10)) = some (some 77) := by decide +kernel
  revert agree stored
  generalize run (Traced.next minixHeader secondFails) _ _ = last
  intro agree stored
  cases last with
  | error stop => cases stored
  | ok traced =>
      obtain ⟨dev, block, same, proper, -⟩ :=
        LevelsAgree.stored agree (make64 0 10) 77 (Option.some.inj stored)
      exact proper (make64_inj same).1.symm

end Ve482.Bufcache
