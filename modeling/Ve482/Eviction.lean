import Ve482.Bufcache.Replacement
import Ve482.Vm.Bookkeeping

set_option autoImplicit false

/- Which blocks go first, in the cache of a file system and in that of the memory server. -/
namespace Ve482.Eviction

open Bufcache (Dev Environment OnlySearch minixHeader smooth)
open Bufcache.Timed (GetsAndPuts ReusesFirst pool reuses_least_recent)
open Vm (Books Empty State freeYielded freeYielded_ok run_books smallHeader smallStart)

variable {np : Nat}

/-- In every state that is reached, `free_yielded` takes blocks away in the order of `before` of
the times at which they were yielded, and all of them before those that it leaves. -/
def FreesFirst (before : Nat → Nat → Prop) (header : Vm.Header np) : Prop :=
  ∀ (start vm : State np) (events : List (Vm.Event np)) (maxBytes : Nat), Empty header start →
    Runs.run (Vm.next header) (.ok start) events = .ok vm →
    ∃ bytes vm' gone, freeYielded header vm maxBytes = .ok (bytes, vm') ∧
      vm'.freed = vm.freed ++ gone ∧
      (∀ h node, node ∈ vm.vmYieldedBlocks h →
        node ∈ gone ∨ ∃ h', node ∈ vm'.vmYieldedBlocks h') ∧
      (gone.Pairwise fun first second => before (vm.yieldedAt first) (vm.yieldedAt second)) ∧
      ∀ node ∈ gone, ∀ h, ∀ other ∈ vm'.vmYieldedBlocks h,
        before (vm.yieldedAt node) (vm.yieldedAt other)

theorem frees_oldest (header : Vm.Header np) : FreesFirst (· < ·) header := by
  intro start vm events maxBytes empty reached
  obtain ⟨order, books⟩ := (run_books empty events).of_eq reached
  obtain ⟨bytes, vm', kept, gone, result, split, swept, log, -, -⟩ :=
    freeYielded_ok maxBytes books
  have times := books.times
  rw [split, List.pairwise_append] at times
  refine ⟨bytes, vm', gone.reverse, result, log, ?_, ?_, ?_⟩
  · intro h node inTree
    have member := ((books.trees h node).mp inTree).1
    rw [split, List.mem_append] at member
    cases member with
    | inl left => exact Or.inr ⟨_, (swept.books.trees _ node).mpr ⟨left, rfl⟩⟩
    | inr freed => exact Or.inl (List.mem_reverse.mpr freed)
  · exact List.pairwise_reverse.mpr times.2.1
  · intro node freed h other inTree
    have left := ((swept.books.trees h other).mp inTree).1
    exact times.2.2 other left node (List.mem_reverse.mp freed)

/-- The least recently used block goes first, at both levels. -/
theorem evicts_least_recent {n : Nat} {α : Type} (header : Bufcache.Header) (env : Environment α)
    (vmcache : Bool) (disk : Dev → Nat → α) (vmHeader : Vm.Header np) :
    ReusesFirst (· < ·) header env n vmcache disk ∧ FreesFirst (· < ·) vmHeader :=
  ⟨reuses_least_recent header env n vmcache disk, frees_oldest vmHeader⟩

/-- Each buffer is used for a block and put back. -/
def fillSix : List (Bufcache.Event 6 Nat) :=
  [.get 0x301 1 .normal, .put 0 0, .get 0x301 2 .normal, .put 1 0, .get 0x301 3 .normal,
    .put 2 0, .get 0x301 4 .normal, .put 3 0, .get 0x301 5 .normal, .put 4 0,
    .get 0x301 6 .normal, .put 5 0]

instance {n : Nat} {α : Type} (header : Bufcache.Header) :
    (outcome : Except Bufcache.Stop (Bufcache.Timed n α)) → (event : Bufcache.Event n α) →
      Decidable (GetsAndPuts header outcome event)
  | .error _, _ => .isTrue trivial
  | .ok _, .get _ _ _ => .isTrue trivial
  | .ok timed, .put bp blockType =>
      inferInstanceAs (Decidable (0 < timed.cache.lmfsCount bp ∧ _ ≠ _ ∧
        blockType &&& header.oneShot = 0))
  | .ok _, .edit _ _ | .ok _, .markdirty _ | .ok _, .markclean _ | .ok _, .invalidate _
  | .ok _, .flushall | .ok _, .readScattered _ _ | .ok _, .vmDrop _ => .isFalse id

/-- The buffer whose block was put first is taken for a seventh one, and the block that was
yielded first is freed. -/
theorem not_evicts_most_recent :
    ¬ ReusesFirst (· > ·) minixHeader smooth 6 false (fun _ block => block) ∧
      ¬ FreesFirst (· > ·) smallHeader := by
  constructor
  · intro reuses
    have permitted : Runs.EveryStep (Bufcache.Timed.next minixHeader smooth)
        (GetsAndPuts minixHeader) (.ok (pool minixHeader 6 false fun _ block => block)) fillSix := by
      decide +kernel
    have facts : (Runs.run (Bufcache.Timed.next minixHeader smooth)
        (.ok (pool minixHeader 6 false fun _ block => block)) fillSix).map (fun timed =>
          ((timed.cache.lmfsGetBlock minixHeader smooth 0x301 7 .normal).map Prod.fst,
            decide (∀ other, timed.cache.lmfsDev other = 0x301 → timed.cache.lmfsBlocknr other ≠ 7),
            decide (∀ other, timed.cache.lmfsCount other = 0 →
              timed.cache.lmfsDev other ≠ minixHeader.noDev),
            timed.cache.lmfsCount 1, timed.released 0, timed.released 1)) =
        .ok (.ok 0, true, true, 0, 2, 4) := by
      decide +kernel
    cases reached : Runs.run (Bufcache.Timed.next minixHeader smooth)
        (.ok (pool minixHeader 6 false fun _ block => block)) fillSix with
    | error stop =>
        rw [reached] at facts
        cases facts
    | ok timed =>
        rw [reached] at facts
        obtain ⟨taken, facts⟩ := Prod.mk.inj (Except.ok.inj facts)
        obtain ⟨absent, facts⟩ := Prod.mk.inj facts
        obtain ⟨named, facts⟩ := Prod.mk.inj facts
        obtain ⟨unused, facts⟩ := Prod.mk.inj facts
        obtain ⟨first, second⟩ := Prod.mk.inj facts
        cases got : timed.cache.lmfsGetBlock minixHeader smooth 0x301 7 .normal with
        | error stop =>
            rw [got] at taken
            cases taken
        | ok result =>
            rw [got] at taken
            obtain ⟨bp, cache⟩ := result
            obtain rfl : bp = 0 := Except.ok.inj taken
            have later := (reuses fillSix timed 0x301 7 .normal 0 cache permitted reached got
              (of_decide_eq_true absent) (of_decide_eq_true named)).2 1 unused (by decide)
            rw [first, second] at later
            exact absurd later (by decide)
  · intro frees
    have facts : (Runs.run (Vm.next smallHeader) (.ok smallStart)
        [Vm.small 5 (BitVec.allOnes 64) 0 4096, Vm.small 6 (BitVec.allOnes 64) 1 4096]).map
          (fun vm => ((vm.yieldedAt 0, vm.yieldedAt 1), vm.freed,
            ((freeYielded smallHeader vm 4096).map fun result =>
              (result.2.freed, result.2.vmYieldedBlocks 6)).toOption)) =
        .ok ((0, 1), [], some ([0], [1])) := by
      decide +kernel
    cases reached : Runs.run (Vm.next smallHeader) (.ok smallStart)
        [Vm.small 5 (BitVec.allOnes 64) 0 4096, Vm.small 6 (BitVec.allOnes 64) 1 4096] with
    | error stop =>
        rw [reached] at facts
        cases facts
    | ok vm =>
        rw [reached] at facts
        obtain ⟨stamps, facts⟩ := Prod.mk.inj (Except.ok.inj facts)
        obtain ⟨first, second⟩ := Prod.mk.inj stamps
        obtain ⟨freed, swept⟩ := Prod.mk.inj facts
        obtain ⟨bytes, vm', gone, result, log, -, -, order⟩ :=
          frees smallStart vm _ 4096 Vm.smallStart_empty reached
        rw [result] at swept
        obtain ⟨only, left⟩ := Prod.mk.inj (Option.some.inj swept)
        have isGone : gone = [0] := by
          rw [freed, List.nil_append] at log
          exact log.symm.trans only
        have later := order 0 (by simp [isGone]) 6 1 (by
          show 1 ∈ vm'.vmYieldedBlocks 6
          exact left.symm ▸ List.mem_singleton_self 1)
        rw [first, second] at later
        exact absurd later (by decide)

end Ve482.Eviction
