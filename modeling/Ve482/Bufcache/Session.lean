import Mathlib.Algebra.GroupWithZero.Nat
import Mathlib.Logic.Equiv.Fin.Basic
import Ve482.Bufcache.Frames
import Ve482.Lib.Fallible

set_option autoImplicit false

namespace Ve482.Bufcache

open Function (update)
open Runs

variable {n : Nat} {α : Type} {header : Header} {env : Environment α}

/-- The devices, byte by byte. -/
abbrev Bytes := Dev → Nat → UInt8

/-- What a block of `size` bytes holds. -/
abbrev Contents (size : Nat) := Fin size → UInt8

/-- A device cut into blocks. -/
def cut (size : Nat) [NeZero size] : (Nat → UInt8) ≃ (Nat → Contents size) :=
  ((Nat.divModEquiv size).arrowCongr (.refl UInt8)).trans (Equiv.curry Nat (Fin size) UInt8)

def Bytes.blocks (bytes : Bytes) (size : Nat) [NeZero size] (dev : Dev) : Nat → Contents size :=
  cut size (bytes dev)

def Bytes.ofBlocks {size : Nat} [NeZero size] (blocks : Dev → Nat → Contents size) : Bytes :=
  fun dev => (cut size).symm (blocks dev)

theorem Bytes.ofBlocks_blocks (bytes : Bytes) (size : Nat) [NeZero size] :
    Bytes.ofBlocks (bytes.blocks size) = bytes :=
  funext fun _ => (cut size).symm_apply_apply _

/-- The contents of one block are replaced. -/
def Bytes.store {size : Nat} [NeZero size] (bytes : Bytes) (dev : Dev) (block : Nat)
    (contents : Contents size) : Bytes :=
  Bytes.ofBlocks (update (bytes.blocks size) dev (update (bytes.blocks size dev) block contents))

theorem Bytes.store_blocks {size : Nat} [NeZero size] (bytes : Bytes) (dev : Dev) (block : Nat)
    (contents : Contents size) :
    (bytes.store dev block contents).blocks size =
      update (bytes.blocks size) dev (update (bytes.blocks size dev) block contents) :=
  funext fun _ => (cut size).apply_symm_apply _

/-- The bytes of a block are those from its start on. -/
example (bytes : Bytes) (size : Nat) [NeZero size] (dev : Dev) (block : Nat) (i : Fin size) :
    bytes.blocks size dev block i = bytes dev (block * size + i) := rfl

/-- `bytes` is what was last written to each byte of the devices. -/
structure Ledger (n size : Nat) where
  traced : Traced n (Contents size)
  bytes : Bytes

namespace Ledger

variable {size : Nat} [NeZero size]

def start (header : Header) (vmcache : Bool) (n size : Nat) [NeZero size] (bytes : Bytes) :
    Ledger n size where
  traced := Traced.start header (lmfsBufPool header n vmcache (bytes.blocks size))
  bytes := bytes

def step (header : Header) (env : Environment (Contents size)) (ledger : Ledger n size)
    (event : Event n (Contents size)) : Except Stop (Ledger n size) :=
  (ledger.traced.step header env event).map fun traced =>
    { traced := traced
      bytes := match event with
        | .edit bp contents =>
            ledger.bytes.store (ledger.traced.asked bp).1 (ledger.traced.asked bp).2.toNat contents
        | _ => ledger.bytes }

def next (header : Header) (env : Environment (Contents size))
    (outcome : Except Stop (Ledger n size)) (event : Event n (Contents size)) :
    Except Stop (Ledger n size) :=
  outcome.bind fun ledger => ledger.step header env event

/-- What the clients ask for, and VM, which may drop blocks at any time. -/
def Asks (header : Header) (ledger : Ledger n size) (event : Event n (Contents size)) : Prop :=
  Traced.Client header ledger.traced event ∧
    match event with
    | .vmDrop _ => True
    | event => ledger.traced.Plain event

instance (ledger : Ledger n size) : (event : Event n (Contents size)) →
    Decidable (ledger.Asks header event)
  | .vmDrop _ => .isTrue ⟨trivial, trivial⟩
  | .get dev block onlySearch => inferInstanceAs (Decidable
      (Traced.Client header ledger.traced (.get dev block onlySearch) ∧
        ledger.traced.Plain (.get dev block onlySearch)))
  | .put bp blockType => inferInstanceAs (Decidable
      (Traced.Client header ledger.traced (.put bp blockType) ∧ True))
  | .edit bp contents => inferInstanceAs (Decidable
      (Traced.Client header ledger.traced (.edit bp contents) ∧ True))
  | .readScattered dev bufq => inferInstanceAs (Decidable
      (Traced.Client header ledger.traced (.readScattered dev bufq) ∧ True))
  | .flushall => .isTrue ⟨trivial, trivial⟩
  | .markdirty _ | .markclean _ | .invalidate _ => .isFalse And.right

/-- What holds of an event when it is sent, if the server still runs. -/
def While (property : Ledger n size → Event n (Contents size) → Prop) :
    Except Stop (Ledger n size) → Event n (Contents size) → Prop
  | .ok ledger, event => property ledger event
  | .error _, _ => True

instance (property : Ledger n size → Event n (Contents size) → Prop)
    [∀ ledger event, Decidable (property ledger event)] :
    (outcome : Except Stop (Ledger n size)) → (event : Event n (Contents size)) →
      Decidable (While property outcome event)
  | .ok ledger, event => inferInstanceAs (Decidable (property ledger event))
  | .error _, _ => .isTrue trivial

/-- What the cache shows of itself: a get that reads returns the last bytes written, and a flush
leaves them on the devices. -/
def Shows (header : Header) (env : Environment (Contents size)) (ledger : Ledger n size) :
    Event n (Contents size) → Prop
  | .get dev block .normal =>
      Outcome (fun taken =>
          taken.2.data taken.1 = some (ledger.bytes.blocks size dev block.toNat))
        (ledger.traced.cache.lmfsGetBlock header env dev block .normal)
  | .flushall =>
      Bytes.ofBlocks (ledger.traced.cache.lmfsFlushall header env).disk = ledger.bytes
  | _ => True

/-- The slots show what was written, which is what the bytes are, and what has contents has
memory. -/
structure Kept (header : Header) (ledger : Ledger n size) : Prop where
  steady : ledger.traced.Steady header
  written : ∀ dev (block : BlockNr),
    ledger.traced.written (dev, block) = ledger.bytes.blocks size dev block.toNat
  beyond : ∀ dev block, 2 ^ 32 ≤ block →
    ledger.traced.cache.disk dev block = ledger.bytes.blocks size dev block
  bare : ∀ bp, ledger.traced.cache.lmfsBytes bp = 0 → ledger.traced.cache.data bp = none

theorem start_kept (header : Header) (vmcache : Bool) (n size : Nat) [NeZero size] (bytes : Bytes) :
    (start header vmcache n size bytes).Kept header :=
  ⟨Traced.start_steady header n _, fun _ _ => rfl, fun _ _ _ => rfl, fun _ _ => rfl⟩

theorem Kept.step {answers : Environment (Contents size)} (succeeds : Succeeds header answers)
    {ledger ledger' : Ledger n size} (kept : ledger.Kept header)
    {event : Event n (Contents size)} (asks : ledger.Asks header event)
    (done : ledger.step header answers event = .ok ledger') : ledger'.Kept header := by
  obtain ⟨client, asks⟩ := asks
  unfold Ledger.step at done
  cases ran : ledger.traced.step header answers event with
  | error stop =>
      rw [ran] at done
      cases done
  | ok traced' =>
      rw [ran] at done
      cases done
      obtain ⟨⟨beyond, framed⟩, written⟩ := Traced.step_frame kept.steady.sound client ran
      have bare (bp : Fin n) (empty : traced'.cache.lmfsBytes bp = 0) :
          traced'.cache.data bp = none :=
        (framed bp empty).2 (kept.bare bp (framed bp empty).1)
      have next := kept.steady.step succeeds.full client
      cases event with
      | edit bp contents =>
          have steady := next asks
          rw [ran] at steady
          refine ⟨steady, fun dev block => ?_, fun dev block past => ?_, bare⟩
          · change traced'.written (dev, block) = (ledger.bytes.store _ _ contents).blocks size dev _
            rw [written, Traced.writes, Bytes.store_blocks]
            obtain ⟨dev', block'⟩ := ledger.traced.asked bp
            by_cases sameDev : dev = dev'
            · subst sameDev
              rw [Function.update_self]
              by_cases sameBlock : block = block'
              · rw [sameBlock, Function.update_self, Function.update_self]
              · rw [Function.update_of_ne fun same => sameBlock (Prod.mk.inj same).2,
                  Function.update_of_ne fun same => sameBlock (BitVec.eq_of_toNat_eq same)]
                exact kept.written dev block
            · rw [Function.update_of_ne fun same => sameDev (Prod.mk.inj same).1,
                Function.update_of_ne sameDev]
              exact kept.written dev block
          · change traced'.cache.disk dev block = (ledger.bytes.store _ _ contents).blocks size dev _
            rw [beyond dev block past, kept.beyond dev block past, Bytes.store_blocks]
            have small := (ledger.traced.asked bp).2.isLt
            by_cases sameDev : dev = (ledger.traced.asked bp).1
            · rw [← sameDev, Function.update_self, Function.update_of_ne (by omega)]
            · rw [Function.update_of_ne sameDev]
      | vmDrop drops =>
          cases ran
          exact ⟨kept.steady.vmDrop drops, kept.written, kept.beyond, kept.bare⟩
      | get dev block onlySearch | put bp blockType | flushall | readScattered dev bufq =>
          have steady := next asks
          rw [ran] at steady
          refine ⟨steady, fun other block => ?_, fun other block past => ?_, bare⟩
          · rw [written]
            exact kept.written other block
          · rw [beyond other block past]
            exact kept.beyond other block past
      | markdirty bp | markclean bp | invalidate device => exact asks.elim

theorem Kept.shows {answers : Environment (Contents size)} (succeeds : Succeeds header answers)
    {ledger : Ledger n size} (kept : ledger.Kept header) {event : Event n (Contents size)}
    (asks : ledger.Asks header event) : ledger.Shows header answers event := by
  obtain ⟨client, asks⟩ := asks
  have shows := kept.steady.shows succeeds.full client
  cases event with
  | get dev block onlySearch =>
      cases onlySearch with
      | normal =>
          have reads := shows asks
          rw [Traced.Shows, kept.written] at reads
          exact reads
      | noRead | prefetch => trivial
  | flushall =>
      have flushed := shows asks
      refine (congrArg Bytes.ofBlocks (funext fun dev => funext fun block => ?_)).trans
        (Bytes.ofBlocks_blocks ledger.bytes size)
      by_cases past : 2 ^ 32 ≤ block
      · exact ((Cache.lmfsFlushall_framed answers _).beyond dev block past).trans
          (kept.beyond dev block past)
      · have small : (BitVec.ofNat 32 block).toNat = block := by
          rw [BitVec.toNat_ofNat, Nat.mod_eq_of_lt (by omega)]
        have there := flushed dev (BitVec.ofNat 32 block)
        rw [kept.written, small] at there
        exact there
  | put bp blockType | edit bp contents | readScattered dev bufq | markdirty bp | markclean bp
  | invalidate device | vmDrop drops => trivial

end Ledger

/-- `MINBUFS` -/
def minbufs : Nat := 6

/-- What `vm_info_stats` tells. -/
structure VmStatsInfo where
  vsiFree : BitVec 32
  vsiPagesize : BitVec 32

/-- What the heuristic asks of the system, with the constant `MEMORY_MAJOR`. -/
structure System where
  memoryMajor : Dev
  vmInfoStats : Option VmStatsInfo
  sqrtApprox : BitVec 32 → BitVec 32

def mul64u (i j : BitVec 32) : BitVec 64 := i.setWidth 64 * j.setWidth 64

def div64u (i : BitVec 64) (j : BitVec 32) : BitVec 32 := (i / j.setWidth 64).setWidth 32

/-- `MIN` of two unsigned numbers. -/
def minU (i j : BitVec 32) : BitVec 32 := if i < j then i else j

def fsBufsHeuristic (system : System) (minbufs btotal bfree blocksize : BitVec 32)
    (majordev : Dev) : BitVec 32 :=
  let bused := btotal - bfree
  if majordev = system.memoryMajor then minbufs
  else
    match system.vmInfoStats with
    | none => 1024
    | some vsi =>
        let kbytesRemainMem := div64u (mul64u vsi.vsiFree vsi.vsiPagesize) 1024
        let kbytesUsedFs := div64u (mul64u bused blocksize) 1024
        let kbytesTotalFs := div64u (mul64u btotal blocksize) 1024
        let kbFsmax := system.sqrtApprox kbytesUsedFs * 40
        let kbFsmax := minU kbFsmax (kbytesTotalFs / 2)
        let kbcache := minU (kbytesRemainMem / 10) kbFsmax
        let bufs := kbcache * 1024 / blocksize
        -- both are `int` here
        if bufs.slt minbufs then minbufs else bufs

/-- Whatever the sizes are and wherever they overflow. -/
theorem fsBufsHeuristic_enough (system : System) (btotal bfree blocksize : BitVec 32)
    (majordev : Dev) : (minbufs : Int) ≤ (fsBufsHeuristic system 10 btotal bfree blocksize
      majordev).toInt := by
  unfold fsBufsHeuristic
  dsimp only
  split
  · decide
  · split
    · decide
    · split
      · decide
      · rename_i enough
        rw [BitVec.slt_iff_toInt_lt] at enough
        have ten : (10 : BitVec 32).toInt = 10 := by decide
        rw [ten] at enough
        change (6 : Int) ≤ _
        omega

/-! Pools of any number of buffers and any block size. -/

def Header.sized (header : Header) (size : Nat) [NeZero size] : Header :=
  { header with fsBlockSize := size, fsBlockSize_pos := Nat.pos_of_neZero size }

/-- The pool of a file system: `nr_bufs`, `fs_block_size`, `may_use_vmcache` and the rest. -/
structure Pool where
  nrBufs : Nat
  fsBlockSize : Nat
  [positive : NeZero fsBlockSize]
  ledger : Ledger nrBufs fsBlockSize
  mayUseVmcache : Bool

attribute [instance] Pool.positive

/-- What the cache calls when it is resized: the file system's `fs_sync`, as the events that it
sends, and `fs_blockstats`; the drivers below, `calloc`, and whether VM knows `vm_forgetblock`. -/
structure Surroundings where
  system : System
  fsSync : (pool : Pool) → List (Event pool.nrBufs (Contents pool.fsBlockSize))
  answers : (pool : Pool) → Environment (Contents pool.fsBlockSize)
  fsBlockstats : Pool → BitVec 32 × BitVec 32
  calloc : BitVec 32 → Bool
  vmForgetblockThere : Bool

/-- The assertions and the panics of a change of the block size, and a stop of `fs_sync`. -/
inductive ResizeStop where
  | noBlocksize
  | fewBufs
  | bufferInUse
  | noBytes
  | noMemory
  | stopped (stop : Stop)
deriving DecidableEq

namespace Pool

/-- The first call of `lmfs_buf_pool`. -/
def start (header : Header) (n : Nat) (bytes : Bytes) : Pool where
  nrBufs := n
  fsBlockSize := 1024
  ledger := .start (header.sized 1024) false n 1024 bytes
  mayUseVmcache := false

/-- The pool after `fs_sync`. -/
def synced (header : Header) (around : Surroundings) (pool : Pool) :
    Except Stop (Ledger pool.nrBufs pool.fsBlockSize) :=
  run (Ledger.next (header.sized pool.fsBlockSize) (around.answers pool)) (.ok pool.ledger)
    (around.fsSync pool)

/-- The pool that is set up after `fs_sync`, with the `fs_block_size` that is set then. -/
def renewed (header : Header) (pool : Pool) (synced : Ledger pool.nrBufs pool.fsBlockSize)
    (newNrBufs size : Nat) [NeZero size] : Pool where
  nrBufs := newNrBufs
  fsBlockSize := size
  ledger :=
    { traced := Traced.start (header.sized size)
        (Bufcache.lmfsBufPool (header.sized size) newNrBufs pool.ledger.traced.cache.vmcache
          ((Bytes.ofBlocks synced.traced.cache.disk).blocks size))
      bytes := synced.bytes }
  mayUseVmcache := pool.mayUseVmcache

/-- `lmfs_buf_pool` of a pool that is there. -/
def lmfsBufPool (header : Header) (around : Surroundings) (pool : Pool) (newNrBufs : BitVec 32)
    (size : Nat) [NeZero size] : Except ResizeStop Pool :=
  if newNrBufs.toInt < minbufs then .error .fewBufs
  else
    match pool.synced header around with
    | .error stop => .error (.stopped stop)
    | .ok synced =>
        if ∃ bp, (synced.traced.cache.data bp).isSome ∧ ¬ 0 < synced.traced.cache.lmfsBytes bp then
          .error .noBytes
        else if around.calloc newNrBufs then
          .ok (pool.renewed header synced newNrBufs.toNat size)
        else .error .noMemory

def cacheResize (header : Header) (around : Surroundings) (pool : Pool)
    (blocksize bufs : BitVec 32) : Except ResizeStop Pool :=
  if none : blocksize.toNat = 0 then .error .noBlocksize
  else if bufs.toNat < minbufs then .error .fewBufs
  else if ∃ bp, pool.ledger.traced.cache.lmfsCount bp ≠ 0 then .error .bufferInUse
  else
    have : NeZero blocksize.toNat := ⟨none⟩
    pool.lmfsBufPool header around bufs blocksize.toNat

def setVmcache (pool : Pool) (vmcache : Bool) : Pool :=
  { pool with
    ledger := { pool.ledger with
      traced := { pool.ledger.traced with
        cache := { pool.ledger.traced.cache with vmcache := vmcache } } } }

def lmfsSetBlocksize (header : Header) (around : Surroundings) (pool : Pool)
    (newBlockSize : BitVec 32) (major : Dev) : Except ResizeStop Pool := do
  let pool ← pool.cacheResize header around newBlockSize (BitVec.ofNat 32 minbufs)
  let (btotal, bfree) := around.fsBlockstats pool
  let bufs := fsBufsHeuristic around.system 10 btotal bfree newBlockSize major
  let pool ← pool.cacheResize header around newBlockSize bufs
  return pool.setVmcache
    (around.vmForgetblockThere && pool.mayUseVmcache && major != around.system.memoryMajor)

end Pool

/-- `fs_sync` is a client like any other, and ends with `lmfs_flushall`. -/
structure Surroundings.Syncs (header : Header) (around : Surroundings) (pool : Pool) : Prop where
  succeeds : Succeeds (header.sized pool.fsBlockSize) (around.answers pool)
  asks : EveryStep (Ledger.next (header.sized pool.fsBlockSize) (around.answers pool))
    (Ledger.While (Ledger.Asks (header.sized pool.fsBlockSize))) (.ok pool.ledger)
    (around.fsSync pool)
  flushes : ∃ before, around.fsSync pool = before ++ [.flushall]

/-- The pools that a file system comes to: it calls the cache and changes the block size. -/
inductive Session (header : Header) (bytes : Bytes) : Pool → Prop where
  | start {n : Nat} (enough : minbufs ≤ n) : Session header bytes (Pool.start header n bytes)
  | call {pool : Pool} (session : Session header bytes pool)
      {answers : Environment (Contents pool.fsBlockSize)}
      (succeeds : Succeeds (header.sized pool.fsBlockSize) answers)
      {event : Event pool.nrBufs (Contents pool.fsBlockSize)}
      (asks : pool.ledger.Asks (header.sized pool.fsBlockSize) event)
      {ledger : Ledger pool.nrBufs pool.fsBlockSize}
      (done : pool.ledger.step (header.sized pool.fsBlockSize) answers event = .ok ledger) :
      Session header bytes { pool with ledger := ledger }
  | mayUseVmcache {pool : Pool} (session : Session header bytes pool) (ok : Bool) :
      Session header bytes { pool with mayUseVmcache := ok }
  | setBlocksize {pool pool' : Pool} (session : Session header bytes pool)
      {around : Surroundings} {newBlockSize : BitVec 32} {major : Dev}
      (syncs : around.Syncs header pool)
      (syncsAgain : ∀ resized, pool.cacheResize header around newBlockSize
        (BitVec.ofNat 32 minbufs) = .ok resized → around.Syncs header resized)
      (done : pool.lmfsSetBlocksize header around newBlockSize major = .ok pool') :
      Session header bytes pool'

/-- `fs_sync` comes to its end. -/
structure Surroundings.Finishes (header : Header) (around : Surroundings) (pool : Pool) : Prop
    extends around.Syncs header pool where
  ends : ∃ synced, pool.synced header around = .ok synced

/-- The system has memory, and `fs_sync` comes to its end both times that the pool is resized. -/
structure Surroundings.Obliges (header : Header) (around : Surroundings) (pool : Pool)
    (newBlockSize : BitVec 32) : Prop where
  memory : ∀ bufs, around.calloc bufs = true
  first : around.Finishes header pool
  second : ∀ resized, pool.cacheResize header around newBlockSize (BitVec.ofNat 32 minbufs) =
    .ok resized → around.Finishes header resized

/-- A pool as `lmfs_buf_pool` leaves it. -/
def Pool.Fresh (header : Header) (pool : Pool) : Prop :=
  ∃ vmcache, pool.ledger = .start (header.sized pool.fsBlockSize) vmcache pool.nrBufs
    pool.fsBlockSize pool.ledger.bytes

theorem Pool.Fresh.kept {pool : Pool} (fresh : pool.Fresh header) :
    pool.ledger.Kept (header.sized pool.fsBlockSize) := by
  obtain ⟨vmcache, same⟩ := fresh
  rw [same]
  exact Ledger.start_kept ..

theorem Pool.Fresh.asks {pool : Pool} (fresh : pool.Fresh header) (dev : Dev) (block : BlockNr)
    (onlySearch : OnlySearch) :
    pool.ledger.Asks (header.sized pool.fsBlockSize) (.get dev block onlySearch) := by
  obtain ⟨vmcache, same⟩ := fresh
  rw [same]
  constructor
  · intro bp waits
    cases waits
  · intro _ bp pending
    cases pending

theorem Pool.Fresh.setVmcache {pool : Pool} (fresh : pool.Fresh header) (vmcache : Bool) :
    (pool.setVmcache vmcache).Fresh header := by
  obtain ⟨before, same⟩ := fresh
  refine ⟨vmcache, ?_⟩
  unfold Pool.setVmcache
  dsimp only
  rw [same]
  rfl

/-- What the clients ask for keeps the bytes. -/
theorem Ledger.run_kept {size : Nat} [NeZero size] {answers : Environment (Contents size)}
    (succeeds : Succeeds header answers) {ledger : Ledger n size} (kept : ledger.Kept header)
    {events : List (Event n (Contents size))}
    (asks : EveryStep (Ledger.next header answers) (Ledger.While (Ledger.Asks header))
      (.ok ledger) events) {ledger' : Ledger n size}
    (done : run (Ledger.next header answers) (.ok ledger) events = .ok ledger') :
    ledger'.Kept header := by
  refine run_invariant (fun outcome => ∀ ledger, outcome = .ok ledger → ledger.Kept header)
    (fun outcome event now asked ledger stepped => ?_) (fun _ same => Except.ok.inj same ▸ kept)
    asks ledger' done
  cases outcome with
  | error stop => cases stepped
  | ok before => exact (now before rfl).step succeeds asked stepped

/-- After `fs_sync` the devices hold what was written. -/
theorem Surroundings.Syncs.flushed {around : Surroundings} {pool : Pool}
    (syncs : around.Syncs header pool) (kept : pool.ledger.Kept (header.sized pool.fsBlockSize))
    {synced : Ledger pool.nrBufs pool.fsBlockSize}
    (done : pool.synced header around = .ok synced) :
    Bytes.ofBlocks synced.traced.cache.disk = synced.bytes := by
  obtain ⟨before, same⟩ := syncs.flushes
  have asks := syncs.asks
  unfold Pool.synced at done
  rw [same, everyStep_append] at asks
  rw [same, run, List.foldl_append] at done
  obtain ⟨asksBefore, asksLast, -⟩ := asks
  change Ledger.next _ _ (run _ _ before) _ = _ at done
  cases ran : run (Ledger.next (header.sized pool.fsBlockSize) (around.answers pool))
      (.ok pool.ledger) before with
  | error stop =>
      rw [ran] at done
      cases done
  | ok mid =>
      rw [ran] at asksLast done
      have now := Ledger.run_kept syncs.succeeds kept asksBefore ran
      cases done
      exact now.shows syncs.succeeds asksLast

/-- The invariant keeps the assertion on the buffers that are freed. -/
theorem Surroundings.Syncs.bare {around : Surroundings} {pool : Pool}
    (syncs : around.Syncs header pool) (kept : pool.ledger.Kept (header.sized pool.fsBlockSize))
    {synced : Ledger pool.nrBufs pool.fsBlockSize}
    (done : pool.synced header around = .ok synced) (bp : Fin pool.nrBufs)
    (full : (synced.traced.cache.data bp).isSome) : 0 < synced.traced.cache.lmfsBytes bp := by
  have now := Ledger.run_kept syncs.succeeds kept syncs.asks done
  refine Nat.pos_of_ne_zero fun empty => ?_
  rw [now.bare bp empty] at full
  cases full

/-- A resize returns when there is a size, enough buffers are asked for, none is held, `fs_sync`
comes to its end, what has contents has memory, and there is memory for the new pool. -/
theorem Pool.cacheResize_eq_ok {around : Surroundings} {pool pool' : Pool}
    {blocksize bufs : BitVec 32} :
    pool.cacheResize header around blocksize bufs = .ok pool' ↔
      ∃ (_ : NeZero blocksize.toNat) (synced : Ledger pool.nrBufs pool.fsBlockSize),
        (minbufs : Int) ≤ bufs.toInt ∧ (∀ bp, pool.ledger.traced.cache.lmfsCount bp = 0) ∧
        pool.synced header around = .ok synced ∧
        (∀ bp, (synced.traced.cache.data bp).isSome → 0 < synced.traced.cache.lmfsBytes bp) ∧
        around.calloc bufs = true ∧ pool' = pool.renewed header synced bufs.toNat blocksize.toNat := by
  unfold Pool.cacheResize
  by_cases none : blocksize.toNat = 0
  · rw [dif_pos none]
    refine iff_of_false (by simp) fun same => ?_
    obtain ⟨nonzero, -⟩ := same
    exact absurd none nonzero.out
  rw [dif_neg none]
  have wide : bufs.toNat < minbufs → bufs.toInt < minbufs := by
    intro few
    rw [BitVec.toInt_eq_toNat_of_lt (by unfold minbufs at few; omega)]
    exact Int.ofNat_lt.mpr few
  by_cases few : bufs.toNat < minbufs
  · rw [if_pos few]
    refine iff_of_false (by simp) fun same => ?_
    obtain ⟨-, -, enough, -⟩ := same
    exact absurd enough (Int.not_le.mpr (wide few))
  rw [if_neg few]
  by_cases inUse : ∃ bp, pool.ledger.traced.cache.lmfsCount bp ≠ 0
  · rw [if_pos inUse]
    refine iff_of_false (by simp) fun same => ?_
    obtain ⟨-, -, -, idle, -⟩ := same
    obtain ⟨bp, used⟩ := inUse
    exact absurd (idle bp) used
  rw [if_neg inUse]
  have idle : ∀ bp, pool.ledger.traced.cache.lmfsCount bp = 0 := by
    intro bp
    by_contra used
    exact inUse ⟨bp, used⟩
  unfold Pool.lmfsBufPool
  by_cases fewAgain : bufs.toInt < minbufs
  · rw [if_pos fewAgain]
    refine iff_of_false (by simp) fun same => ?_
    obtain ⟨-, -, enough, -⟩ := same
    exact absurd enough (Int.not_le.mpr fewAgain)
  rw [if_neg fewAgain]
  have enough := Int.not_lt.mp fewAgain
  cases ran : pool.synced header around with
  | error stop =>
      refine iff_of_false (by simp) fun same => ?_
      obtain ⟨-, _, -, -, ran', -⟩ := same
      cases ran'
  | ok synced =>
      dsimp only
      by_cases bare : ∃ bp, (synced.traced.cache.data bp).isSome ∧
          ¬ 0 < synced.traced.cache.lmfsBytes bp
      · rw [if_pos bare]
        refine iff_of_false (by simp) fun same => ?_
        obtain ⟨-, synced', -, -, ran', filled, -⟩ := same
        obtain ⟨bp, full, empty⟩ := bare
        rw [Except.ok.inj ran'] at full empty
        exact empty (filled bp full)
      rw [if_neg bare]
      have filled (bp : Fin pool.nrBufs) (full : (synced.traced.cache.data bp).isSome) :
          0 < synced.traced.cache.lmfsBytes bp := by
        by_contra empty
        exact bare ⟨bp, full, empty⟩
      by_cases there : around.calloc bufs = true
      · rw [if_pos there]
        constructor
        · intro done
          exact ⟨⟨none⟩, synced, enough, idle, rfl, filled, there, (Except.ok.inj done).symm⟩
        · intro same
          obtain ⟨-, synced', -, -, ran', -, -, rfl⟩ := same
          rw [Except.ok.inj ran']
      · rw [if_neg there]
        refine iff_of_false (by simp) fun same => ?_
        obtain ⟨-, -, -, -, -, -, memory, -⟩ := same
        exact absurd memory there

/-- A pool that is set up anew holds nothing, and its devices hold what was written. -/
theorem Pool.cacheResize_fresh {around : Surroundings} {pool pool' : Pool}
    (syncs : around.Syncs header pool) (kept : pool.ledger.Kept (header.sized pool.fsBlockSize))
    {blocksize bufs : BitVec 32}
    (done : pool.cacheResize header around blocksize bufs = .ok pool') : pool'.Fresh header := by
  obtain ⟨nonzero, synced, -, -, ran, -, -, rfl⟩ := Pool.cacheResize_eq_ok.mp done
  refine ⟨pool.ledger.traced.cache.vmcache, ?_⟩
  unfold Pool.renewed
  dsimp only
  rw [syncs.flushed kept ran]
  rfl

theorem Pool.lmfsSetBlocksize_fresh {around : Surroundings} {pool pool' : Pool}
    (syncs : around.Syncs header pool) (kept : pool.ledger.Kept (header.sized pool.fsBlockSize))
    {newBlockSize : BitVec 32} {major : Dev}
    (syncsAgain : ∀ resized, pool.cacheResize header around newBlockSize
      (BitVec.ofNat 32 minbufs) = .ok resized → around.Syncs header resized)
    (done : pool.lmfsSetBlocksize header around newBlockSize major = .ok pool') :
    pool'.Fresh header := by
  unfold Pool.lmfsSetBlocksize at done
  cases first : pool.cacheResize header around newBlockSize (BitVec.ofNat 32 minbufs) with
  | error stop =>
      rw [first] at done
      cases done
  | ok resized =>
      rw [first] at done
      have fresh := Pool.cacheResize_fresh syncs kept first
      have again := syncsAgain resized first
      change (resized.cacheResize header around newBlockSize _ >>= _) = _ at done
      cases second : resized.cacheResize header around newBlockSize
          (fsBufsHeuristic around.system 10 (around.fsBlockstats resized).1
            (around.fsBlockstats resized).2 newBlockSize major) with
      | error stop =>
          rw [second] at done
          cases done
      | ok last =>
          rw [second] at done
          cases done
          exact (Pool.cacheResize_fresh again fresh.kept second).setVmcache _

/-- An idle pool can be resized, and is idle again. -/
theorem Pool.cacheResize_idle {around : Surroundings} {pool : Pool}
    (kept : pool.ledger.Kept (header.sized pool.fsBlockSize))
    (finishes : around.Finishes header pool) (blocksize : BitVec 32)
    [nonzero : NeZero blocksize.toNat] {bufs : BitVec 32} (enough : (minbufs : Int) ≤ bufs.toInt)
    (memory : around.calloc bufs = true)
    (idle : ∀ bp, pool.ledger.traced.cache.lmfsCount bp = 0) :
    ∃ pool', pool.cacheResize header around blocksize bufs = .ok pool' ∧
      ∀ bp, pool'.ledger.traced.cache.lmfsCount bp = 0 := by
  obtain ⟨synced, ran⟩ := finishes.ends
  have filled := finishes.bare kept ran
  exact ⟨_, Pool.cacheResize_eq_ok.mpr ⟨nonzero, synced, enough, idle, ran, filled, memory, rfl⟩,
    fun _ => rfl⟩

theorem session_kept {bytes : Bytes} {pool : Pool} (session : Session header bytes pool) :
    pool.ledger.Kept (header.sized pool.fsBlockSize) := by
  induction session with
  | start enough => exact Ledger.start_kept ..
  | call session succeeds asks done ih => exact ih.step succeeds asks done
  | mayUseVmcache session ok ih => exact ih
  | setBlocksize session syncs syncsAgain done ih =>
      exact (Pool.lmfsSetBlocksize_fresh syncs ih syncsAgain done).kept

/-- A file system of 1000 blocks of 4096 bytes, 100 of them used, and 100 free pages. -/
def obliging : Surroundings where
  system := { memoryMajor := 1, vmInfoStats := some ⟨100, 4096⟩, sqrtApprox := fun _ => 20 }
  fsSync _ := [.flushall]
  answers _ :=
    { alloc := fun _ => some fun _ => 0
      bdev := fun _ bytes => { result := bytes, spoilt := fun _ => none }
      vmKeeps := fun _ _ => true }
  fsBlockstats _ := (1000, 900)
  calloc _ := true
  vmForgetblockThere := true

theorem obliging_syncs (pool : Pool) : obliging.Syncs minixHeader pool :=
  ⟨⟨fun _ => rfl, fun _ _ => rfl⟩, ⟨⟨trivial, trivial⟩, trivial⟩, [], rfl⟩

theorem obliging_obliges (pool : Pool) (newBlockSize : BitVec 32) :
    obliging.Obliges minixHeader pool newBlockSize :=
  ⟨fun _ => rfl, ⟨obliging_syncs pool, _, rfl⟩, fun resized _ => ⟨obliging_syncs resized, _, rfl⟩⟩

theorem Session.run {bytes : Bytes} {pool : Pool} (session : Session header bytes pool)
    {answers : Environment (Contents pool.fsBlockSize)}
    (succeeds : Succeeds (header.sized pool.fsBlockSize) answers)
    {events : List (Event pool.nrBufs (Contents pool.fsBlockSize))}
    (asks : EveryStep (Ledger.next (header.sized pool.fsBlockSize) answers)
      (Ledger.While (Ledger.Asks (header.sized pool.fsBlockSize))) (.ok pool.ledger) events)
    {ledger : Ledger pool.nrBufs pool.fsBlockSize}
    (done : Runs.run (Ledger.next (header.sized pool.fsBlockSize) answers) (.ok pool.ledger)
      events = .ok ledger) : Session header bytes { pool with ledger := ledger } := by
  have initial (same : Ledger pool.nrBufs pool.fsBlockSize)
      (known : (.ok pool.ledger : Except Stop _) = .ok same) :
      Session header bytes { pool with ledger := same } := Except.ok.inj known ▸ session
  refine run_invariant (fun outcome => ∀ ledger, outcome = .ok ledger →
    Session header bytes { pool with ledger := ledger })
    (fun outcome event now asked ledger stepped => ?_) initial asks ledger done
  cases outcome with
  | error stop => cases stepped
  | ok before => exact (now before rfl).call succeeds asked stepped

/-- The bytes survive a change of the block size: in every session in which the drivers do all that
they are asked for, a get that reads returns the bytes last written there, in blocks of whatever
size they were written, and a flush leaves all of them on the devices. -/
theorem session_transparent {bytes : Bytes} {pool : Pool} (session : Session header bytes pool)
    {answers : Environment (Contents pool.fsBlockSize)}
    (succeeds : Succeeds (header.sized pool.fsBlockSize) answers)
    {event : Event pool.nrBufs (Contents pool.fsBlockSize)}
    (asks : pool.ledger.Asks (header.sized pool.fsBlockSize) event) :
    pool.ledger.Shows (header.sized pool.fsBlockSize) answers event :=
  (session_kept session).shows succeeds asks

/-- A block of 1024 bytes is written, and is read in one of 4096. -/
theorem session_transparent_resized :
    ∃ pool, Session minixHeader (fun _ _ => 0) pool ∧ pool.fsBlockSize = 4096 ∧
      pool.ledger.bytes 0x301 3077 = 7 ∧ pool.ledger.Shows (minixHeader.sized pool.fsBlockSize)
        (obliging.answers pool) (.get 0x301 0 .normal) := by
  let first := Pool.start minixHeader 6 fun _ _ => 0
  let events : List (Event first.nrBufs (Contents first.fsBlockSize)) :=
    let front : Fin first.nrBufs := ⟨0, by decide⟩
    [.get 0x301 3 .noRead, .edit front fun _ => 7, .put front 0]
  let outcome := run (Ledger.next (minixHeader.sized first.fsBlockSize) (obliging.answers first))
    (.ok first.ledger) events
  have whole : ∃ pool, ((outcome.mapError .stopped).bind fun ledger =>
      Pool.lmfsSetBlocksize minixHeader obliging { first with ledger := ledger } 4096 3) = .ok pool ∧
      (pool.fsBlockSize, pool.ledger.bytes 0x301 3077) = (4096, 7) :=
    Fallible.returns_of_map (by decide +kernel)
  obtain ⟨pool, done, resized⟩ := whole
  have started : Session minixHeader (fun _ _ => 0) first := .start (by decide)
  have asks : EveryStep (Ledger.next (minixHeader.sized first.fsBlockSize)
      (obliging.answers first)) (Ledger.While (Ledger.Asks (minixHeader.sized first.fsBlockSize)))
      (.ok first.ledger) events := by decide +kernel
  cases ran : outcome with
  | error stop =>
      rw [ran] at done
      cases done
  | ok ledger =>
      rw [ran] at done
      have written := started.run (obliging_syncs first).succeeds asks ran
      have session := written.setBlocksize (obliging_syncs _) (fun resized _ => obliging_syncs resized)
        done
      have fresh := Pool.lmfsSetBlocksize_fresh (obliging_syncs _) (session_kept written)
        (fun resized _ => obliging_syncs resized) done
      exact ⟨pool, session, (Prod.mk.inj resized).1, (Prod.mk.inj resized).2,
        session_transparent session (obliging_syncs pool).succeeds (fresh.asks 0x301 0 .normal)⟩

end Ve482.Bufcache
