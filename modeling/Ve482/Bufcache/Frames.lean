import Ve482.Bufcache.Transparent

set_option autoImplicit false

namespace Ve482.Bufcache

open Function (update)
open TwoLevel (Transparent)

variable {n : Nat} {α : Type} {header : Header} {env : Environment α}

namespace Cache

/-- What no call touches: the blocks past the last block number, and the buffers without
memory, which get no contents. -/
structure Framed (cache cache' : Cache n α) : Prop where
  beyond : ∀ dev block, 2 ^ 32 ≤ block → cache'.disk dev block = cache.disk dev block
  bare : ∀ bp, cache'.lmfsBytes bp = 0 →
    cache.lmfsBytes bp = 0 ∧ (cache.data bp = none → cache'.data bp = none)

theorem Framed.of_same {cache cache' : Cache n α} (disk : cache'.disk = cache.disk)
    (bytes : cache'.lmfsBytes = cache.lmfsBytes) (data : cache'.data = cache.data) :
    Framed cache cache' := by
  refine ⟨fun _ _ _ => by rw [disk], fun bp empty => ?_⟩
  rw [bytes] at empty
  rw [data]
  exact ⟨empty, id⟩

theorem Framed.refl (cache : Cache n α) : Framed cache cache := .of_same rfl rfl rfl

theorem Framed.trans {first second third : Cache n α} (left : Framed first second)
    (right : Framed second third) : Framed first third := by
  refine ⟨fun dev block past => (right.beyond dev block past).trans (left.beyond dev block past),
    fun bp empty => ?_⟩
  obtain ⟨between, kept⟩ := right.bare bp empty
  obtain ⟨before, keptBefore⟩ := left.bare bp between
  exact ⟨before, fun nothing => kept (keptBefore nothing)⟩

theorem transferRun_framed {dev : Dev} {bp : Fin n} {bufq bufs : List (Fin n)}
    {cache : Cache n α} (sorted : cache.Sorted (bp :: bufq))
    (run : cache.nextRun header bp bufq = bp :: bufs) :
    Framed cache (transferRun header env dev .writing bp (bp :: bufs) cache).2 := by
  have scattered : Framed cache
      (cache.bdevScatter header env dev (cache.lmfsBlocknr bp).toNat (bp :: bufs)).2 := by
    refine ⟨fun other block beyond => ?_, fun bp empty => ⟨empty, id⟩⟩
    have written : (cache.bdevScatter header env dev (cache.lmfsBlocknr bp).toNat
        (bp :: bufs)).2.disk other block = cache.disk other block ∨ other = dev ∧ _ :=
      scatter_disk cache dev (cache.lmfsBlocknr bp).toNat (bp :: bufs) other block
    rcases written with same | ⟨-, i, last, at_i, rfl, -⟩
    · exact same
    · have position := nextRun_position sorted (run.symm ▸ at_i)
      have small := (cache.lmfsBlocknr last).isLt
      omega
  rw [transferRun_writing]
  by_cases none :
      ((cache.answerTo header env (bp :: bufs)).result / header.fsBlockSize).toNat = 0
  · rw [if_pos none]
    exact ⟨scattered.beyond, scattered.bare⟩
  · rw [if_neg none]
    exact ⟨scattered.beyond, scattered.bare⟩

theorem rounds_framed {dev : Dev} {rwFlag : RwFlag} {bufq : List (Fin n)}
    {before after : Cache n α} (rounds : Rounds header env dev rwFlag bufq before after)
    (writing : rwFlag = .writing) (sorted : before.Sorted bufq) : Framed before after := by
  induction rounds with
  | done => exact .refl _
  | read => cases writing
  | @stuck bp bufq cache harvested round =>
      obtain ⟨bufs, run⟩ := nextRun_ne_nil header cache bp bufq
      have kept : Framed cache
          (transferRun header env dev .writing bp (bp :: bufs) cache).2 :=
        transferRun_framed sorted run
      rw [run] at round
      rw [round] at kept
      exact kept
  | @next bp bufq cache harvested after i round moved rest ih =>
      obtain ⟨bufs, run⟩ := nextRun_ne_nil header cache bp bufq
      have kept : Framed cache
          (transferRun header env dev .writing bp (bp :: bufs) cache).2 :=
        transferRun_framed sorted run
      have lists : KeepsLists header cache
          (transferRun header env dev .writing bp (bp :: bufs) cache).2 :=
        transferRun_writing_keeps dev bp (bp :: bufs) cache
      rw [run] at round
      rw [round] at kept lists
      refine kept.trans (ih writing ?_)
      unfold Sorted
      rw [lists.lists]
      exact sorted.sublist (List.drop_sublist i _)

theorem flushall_framed (env : Environment α) (cache : Cache n α) (dev : Dev) :
    Framed cache (cache.flushall header env dev) := by
  rw [flushall_eq]
  exact rounds_framed (transfers_rounds header env dev .writing cache (Nat.le_refl _)) rfl
    (ShellSort.sort_sorted _ _)

theorem lmfsFlushall_framed (env : Environment α) (cache : Cache n α) :
    Framed cache (cache.lmfsFlushall header env) := by
  unfold lmfsFlushall
  generalize List.finRange n = bufs
  induction bufs generalizing cache with
  | nil => exact .refl cache
  | cons bp bufs ih =>
      rw [List.foldl_cons]
      by_cases dirty : cache.lmfsDev bp ≠ header.noDev ∧ cache.lmfsDirt bp = .dirty
      · rw [if_pos dirty]
        exact (flushall_framed env cache _).trans (ih _)
      · rw [if_neg dirty]
        exact ih cache

theorem evict_framed {cache evicted : Cache n α} {bp : Fin n} {yieldid : BlockId}
    (result : cache.evict header env bp = .ok (yieldid, evicted)) : Framed cache evicted := by
  unfold evict at result
  by_cases named : cache.lmfsDev bp ≠ header.noDev
  · rw [if_pos named] at result
    dsimp only at result
    have flushed : Framed cache
        (if cache.lmfsDirt bp = .dirty then cache.flushall header env (cache.lmfsDev bp)
          else cache) := by
      by_cases dirty : cache.lmfsDirt bp = .dirty
      · rw [if_pos dirty]
        exact flushall_framed env cache _
      · rw [if_neg dirty]
        exact .refl cache
    revert flushed result
    generalize (if cache.lmfsDirt bp = .dirty then cache.flushall header env (cache.lmfsDev bp)
      else cache) = cleaned
    intro result flushed
    by_cases short : cleaned.lmfsBytes bp ≠ header.fsBlockSize
    · rw [if_pos short] at result
      cases result
    · rw [if_neg short] at result
      obtain ⟨-, rfl⟩ := Prod.mk.inj (Except.ok.inj result)
      exact ⟨flushed.beyond, flushed.bare⟩
  · rw [if_neg named] at result
    obtain ⟨-, rfl⟩ := Prod.mk.inj (Except.ok.inj result)
    exact .refl cache

theorem oldest_framed {cache equipped : Cache n α} {bp : Fin n}
    (taken : cache.oldest header env = .ok (bp, equipped)) : Framed cache equipped := by
  unfold oldest at taken
  cases first : cache.front with
  | none =>
      rw [first] at taken
      cases taken
  | some other =>
      rw [first] at taken
      dsimp only at taken
      by_cases small : cache.lmfsBytes other < header.fsBlockSize
      · rw [if_pos small] at taken
        cases answer : env.alloc cache.allocCalls with
        | some contents =>
            rw [answer] at taken
            cases taken
            refine ⟨fun _ _ _ => rfl, fun buffer empty => ?_⟩
            have apart : buffer ≠ bp := by
              rintro rfl
              have size : header.fsBlockSize = 0 := (Function.update_self ..).symm.trans empty
              exact absurd size header.fsBlockSize_pos.ne'
            refine ⟨(Function.update_of_ne apart ..).symm.trans empty, fun nothing => ?_⟩
            exact (Function.update_of_ne apart ..).trans nothing
        | none =>
            rw [answer] at taken
            dsimp only at taken
            split at taken
            · cases taken
            · cases taken
            · cases taken
              refine ⟨fun _ _ _ => rfl, fun buffer empty => ⟨empty, fun nothing => ?_⟩⟩
              change update cache.data other none buffer = none
              by_cases same : buffer = other
              · rw [same, Function.update_self]
              · rw [Function.update_of_ne same]
                exact nothing
      · rw [if_neg small] at taken
        cases taken
        exact .refl cache

/-- A get writes nothing but what it flushes, and the buffer that it fills has memory. -/
theorem Got.framed {cache cache' : Cache n α} {marks : Marks n}
    (marked : Marked header marks cache)
    (quiet : cache.vmcache = false → ∀ id, cache.vm id = none) {dev : Dev} {block : BlockNr}
    {onlySearch : OnlySearch} {bp : Fin n}
    (got : Got header env cache dev block onlySearch (.ok (bp, cache'))) :
    Framed cache cache' := by
  cases got with
  | hit => exact ⟨fun _ _ _ => rfl, fun _ empty => ⟨empty, id⟩⟩
  | @miss _ equipped evicted lists yieldid device absent taken unused equips allocated unhashed
      numbers counts rehashed moved cleaned keeps =>
      have faulty : Short header env → True := fun _ => trivial
      obtain ⟨-, -, fetched⟩ := equips.refilled faulty counts marked quiet unused cleaned device
        block onlySearch
      have found := oldest_framed taken
      have started : Framed cache { equipped with toLists := lists } := ⟨found.beyond, found.bare⟩
      refine (started.trans (evict_framed cleaned)).trans ⟨fun _ _ _ => ?_, fun other empty => ?_⟩
      · rw [fetched.filled.disk]
      · have bytes : ((evicted.claim bp dev block).fetch header env onlySearch yieldid
            (make64 dev block) bp).lmfsBytes = evicted.lmfsBytes :=
          (fetch_keeps (evicted.claim bp dev block) onlySearch yieldid _ bp).bytes
        rw [bytes] at empty
        refine ⟨empty, fun nothing => ?_⟩
        have apart : other ≠ bp := by
          rintro rfl
          rw [keeps.bytes] at empty
          exact absurd (allocated.1.symm.trans empty) header.fsBlockSize_pos.ne'
        rw [fetched.filled.data other apart]
        exact nothing

end Cache

namespace Traced

/-- What was last written to each block after an event. -/
def writes (traced : Traced n α) : Event n α → Key → α
  | .edit bp contents => update traced.written (traced.asked bp) contents
  | _ => traced.written

theorem Sound.allocated {traced : Traced n α} (sound : traced.Sound header) {bp : Fin n}
    (used : 0 < traced.cache.lmfsCount bp) : traced.cache.lmfsBytes bp ≠ 0 := by
  rw [(sound.wellformed.stocked.held bp used).1]
  exact header.fsBlockSize_pos.ne'

/-- The frame of a call, where only an edit changes what was written. -/
theorem step_frame {traced traced' : Traced n α} (sound : traced.Sound header)
    {event : Event n α} (client : Client header traced event)
    (done : traced.step header env event = .ok traced') :
    traced.cache.Framed traced'.cache ∧ traced'.written = traced.writes event := by
  cases event with
  | get dev block onlySearch =>
      rw [step_get] at done
      have got := Cache.lmfsGetBlock_got env sound.wellformed dev block onlySearch
      cases taken : traced.cache.lmfsGetBlock header env dev block onlySearch with
      | error stop =>
          rw [taken] at done
          cases done
      | ok taken' =>
          rw [taken] at done got
          cases done
          exact ⟨got.framed sound.marked sound.quiet, rfl⟩
  | flushall =>
      cases done
      exact ⟨Cache.lmfsFlushall_framed env traced.cache, rfl⟩
  | readScattered dev bufq =>
      cases done
      have waiting (bp : Fin n) (member : bp ∈ bufq) :=
        sound.marked.awaited bp dev (client.2 bp member)
      have reads := Cache.readScattered_readsBlocks header env dev client.1
        fun bp member => (waiting bp member).2.1
      refine ⟨⟨fun _ _ _ => by rw [reads.disk], fun bp empty => ?_⟩, rfl⟩
      rw [reads.bytes] at empty
      have outside : bp ∉ bufq := fun member =>
        sound.allocated (waiting bp member).2.2.2.2 empty
      rw [(reads.others bp outside).1]
      exact ⟨empty, id⟩
  | edit bp contents =>
      cases done
      refine ⟨⟨fun _ _ _ => rfl, fun other empty => ⟨empty, fun nothing => ?_⟩⟩, rfl⟩
      have apart : other ≠ bp := by
        rintro rfl
        exact sound.allocated client.1 empty
      exact (Function.update_of_ne apart ..).trans nothing
  | put bp blockType | markdirty bp | markclean bp | invalidate device | vmDrop kept =>
      cases done
      exact ⟨⟨fun _ _ _ => rfl, fun _ empty => ⟨empty, id⟩⟩, rfl⟩

/-- VM may drop blocks. -/
theorem Steady.vmDrop {traced : Traced n α} (steady : traced.Steady header)
    (kept : BlockId → Bool) :
    ({ traced with cache := { traced.cache with
      vm := fun id => if kept id then traced.cache.vm id else none } } : Traced n α).Steady
      header := by
  let dropped : Cache n α :=
    { traced.cache with vm := fun id => if kept id then traced.cache.vm id else none }
  have sound := steady.sound
  have forgotten : TwoLevel.Step (Cache.Proper header) False
      (traced.cache.view header traced.marks) (dropped.view header traced.marks) := by
    refine .forget fun key => ?_
    by_cases keeps : kept (make64 key.1 key.2) = true
    · exact Or.inr (if_pos keeps)
    · exact Or.inl (if_neg keeps)
  have wellformed : Outcome (Cache.Wellformed header)
      (traced.cache.step header ⟨fun _ => none, fun _ _ => ⟨0, fun _ => none⟩, fun _ _ => true⟩
        (.vmDrop kept)) := Cache.step_wellformed sound.wellformed trivial
  have moves : Cache.Moves header False traced.marks traced.marks traced.cache dropped := by
    refine ⟨.single forgotten, wellformed, ⟨sound.marked.awaited, sound.marked.unwritten⟩,
      fun quiet unused id => ?_⟩
    change (if kept id then traced.cache.vm id else none) = none
    rw [quiet unused id, ite_self]
  exact ⟨moves.sound sound _ _, moves.steps.transparent sound.coherent steady.transparent,
    steady.named, steady.once, steady.asked⟩

end Traced

end Ve482.Bufcache
