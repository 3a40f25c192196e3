import Ve482.Bufcache.Lists
import Ve482.Lib.ShellSort

set_option autoImplicit false

namespace Ve482.Bufcache

open Function (update)

abbrev Dev := BitVec 32

abbrev BlockId := BitVec 64

def make64 (lo hi : BitVec 32) : BlockId := hi ++ lo

/-- `BP_CLEAN` and `BP_DIRTY` -/
inductive Dirt where
  | clean
  | dirty
deriving DecidableEq

/-- The values of `only_search`. -/
inductive OnlySearch where
  | normal
  | noRead
  | prefetch
deriving DecidableEq

inductive RwFlag where
  | reading
  | writing
deriving DecidableEq

/-- The constants of the system's headers, and the block size of the file system. -/
structure Header where
  noDev : Dev
  devRam : Dev
  oneShot : BitVec 32
  partialDataBlock : BitVec 32
  nrIoreqs : Nat
  nrIoreqs_pos : 0 < nrIoreqs
  endOfFile : Int
  vmBlockidNone : BlockId
  fsBlockSize : Nat
  fsBlockSize_pos : 0 < fsBlockSize

/-- The answer of a driver: its result, and what becomes of each block that it did not
transfer in full. -/
structure Answer (α : Type) where
  result : Int
  spoilt : Nat → Option α

/-- What the rest of the system answers to each call: `alloc_contig`, the drivers (told how
many bytes were asked for), and VM, which keeps only some of its blocks. -/
structure Environment (α : Type) where
  alloc : Nat → Option α
  bdev : Nat → Nat → Answer α
  vmKeeps : Nat → BlockId → Bool

variable {n : Nat} {α : Type}

/-- A call to a driver, with the position in blocks of `fs_block_size` bytes. -/
structure Request (n : Nat) where
  rwFlag : RwFlag
  dev : Dev
  position : Nat
  bufs : List (Fin n)

/-- The static variables of the buffer cache, with one map for each field of `struct buf`,
and the devices and VM behind it. `α` is the contents of a block. -/
structure Cache (n : Nat) (α : Type) extends Lists n where
  data : Fin n → Option α
  lmfsDev : Fin n → Dev
  lmfsDirt : Fin n → Dirt
  lmfsBytes : Fin n → Nat
  vmcache : Bool
  rdwtErr : Int
  disk : Dev → Nat → α
  vm : BlockId → Option α
  allocCalls : Nat
  requests : List (Request n)
  vmCalls : Nat

/-- The ways in which `lmfs_get_block` stops the server: its two panics, its two assertions,
and what must not happen, a NULL pointer that is followed and a loop without end. -/
inductive Stop where
  | allBuffersInUse
  | noBufferAvailable
  | noDevice
  | shortBuffer
  | nullPointer
  | endless
deriving DecidableEq

/-- `lmfs_buf_pool`, called for the first time. -/
def lmfsBufPool (header : Header) (n : Nat) (vmcache : Bool) (disk : Dev → Nat → α) : Cache n α where
  toLists := Lists.pool n
  data _ := none
  lmfsDev _ := header.noDev
  lmfsDirt _ := .clean
  lmfsBytes _ := 0
  vmcache := vmcache
  rdwtErr := 0
  disk := disk
  vm _ := none
  allocCalls := 0
  requests := []
  vmCalls := 0

namespace Cache

def lmfsMarkdirty (cache : Cache n α) (bp : Fin n) : Cache n α :=
  { cache with lmfsDirt := update cache.lmfsDirt bp .dirty }

def lmfsMarkclean (cache : Cache n α) (bp : Fin n) : Cache n α :=
  { cache with lmfsDirt := update cache.lmfsDirt bp .clean }

def setDev (cache : Cache n α) (bp : Fin n) (dev : Dev) : Cache n α :=
  { cache with lmfsDev := update cache.lmfsDev bp dev }

def vmForgetblocks (cache : Cache n α) : Cache n α := { cache with vm := fun _ => none }

def vmForgetblock (cache : Cache n α) (id : BlockId) : Cache n α :=
  { cache with vm := update cache.vm id none }

/-- VM stores the buffer under `yieldid`, then looks for `getid`; either may get lost before. -/
def vmYieldBlockGetBlock (header : Header) (env : Environment α) (cache : Cache n α)
    (yieldid getid : BlockId) (bp : Fin n) : Bool × Cache n α :=
  let stored :=
    if yieldid = header.vmBlockidNone then cache.vm else update cache.vm yieldid (cache.data bp)
  let kept := fun id => if env.vmKeeps cache.vmCalls id then stored id else none
  match kept getid with
  | some contents =>
      (true, { cache with
        vm := update kept getid none
        data := update cache.data bp (some contents)
        vmCalls := cache.vmCalls + 1 })
  | none => (false, { cache with vm := kept, vmCalls := cache.vmCalls + 1 })

/-- Block `i` of a transfer lies in the part that the driver completed. -/
def Completed (header : Header) (answer : Answer α) (i : Nat) : Prop :=
  ((i + 1) * header.fsBlockSize : Nat) ≤ answer.result

instance (header : Header) (answer : Answer α) (i : Nat) :
    Decidable (Completed header answer i) :=
  inferInstanceAs (Decidable (_ ≤ _))

/-- What a device holds after block `i` of a transfer to it. -/
def writtenBlock (header : Header) (answer : Answer α) (i : Nat) (data : Option α) (old : α) : α :=
  if Completed header answer i then data.getD old else (answer.spoilt i).getD old

/-- What a buffer holds after block `i` of a transfer from a device. -/
def readBuffer (header : Header) (answer : Answer α) (i : Nat) (block : α) (old : Option α) :
    Option α :=
  if Completed header answer i then some block else (answer.spoilt i).or old

def answerTo (header : Header) (env : Environment α) (cache : Cache n α) (bufs : List (Fin n)) :
    Answer α :=
  env.bdev cache.requests.length (bufs.length * header.fsBlockSize)

/-- The buffers of a gather, which starts at block `position`, from its `i`-th on. -/
def gatherBufs (header : Header) (answer : Answer α) (dev : Dev) (position : Nat) :
    Nat → List (Fin n) → Cache n α → Cache n α
  | _, [], cache => cache
  | i, bp :: bufs, cache =>
      gatherBufs header answer dev position (i + 1) bufs { cache with
        data := update cache.data bp
          (readBuffer header answer i (cache.disk dev (position + i)) (cache.data bp)) }

def bdevGather (header : Header) (env : Environment α) (cache : Cache n α) (dev : Dev)
    (position : Nat) (bufs : List (Fin n)) : Int × Cache n α :=
  let answer := cache.answerTo header env bufs
  (answer.result, gatherBufs header answer dev position 0 bufs
    { cache with requests := cache.requests ++ [⟨.reading, dev, position, bufs⟩] })

/-- Block `position + i` receives the `i`-th buffer. -/
def bdevScatter (header : Header) (env : Environment α) (cache : Cache n α) (dev : Dev)
    (position : Nat) (bufs : List (Fin n)) : Int × Cache n α :=
  let answer := cache.answerTo header env bufs
  let blocks := fun block =>
    match if position ≤ block then bufs[block - position]? else none with
    | some bp =>
        writtenBlock header answer (block - position) (cache.data bp) (cache.disk dev block)
    | none => cache.disk dev block
  (answer.result, { cache with
    disk := update cache.disk dev blocks
    requests := cache.requests ++ [⟨.writing, dev, position, bufs⟩] })

def readBlock (header : Header) (env : Environment α) (cache : Cache n α) (bp : Fin n) :
    Cache n α :=
  let dev := cache.lmfsDev bp
  let (r, cache) := cache.bdevGather header env dev (cache.lmfsBlocknr bp).toNat [bp]
  if r < 0 then { cache.setDev bp header.noDev with rdwtErr := r }
  else if r ≠ header.fsBlockSize then
    { cache.setDev bp header.noDev with rdwtErr := header.endOfFile }
  else cache

/-- `lmfs_put_block` of a buffer that is not NULL. -/
def lmfsPutBlock (header : Header) (cache : Cache n α) (bp : Fin n) (blockType : BitVec 32) :
    Cache n α :=
  { cache with
    toLists := cache.put bp
      (cache.lmfsDev bp = header.devRam ∨ blockType &&& header.oneShot ≠ 0) }

/-- The number of leading buffers with consecutive block numbers, at most `limit`, after the
`j` that were found so far. -/
def runLength (blocknr : Fin n → BlockNr) (first : BlockNr) : Nat → Nat → List (Fin n) → Nat
  | j, _, [] => j
  | j, 0, _ => j
  | j, limit + 1, bp :: bufs =>
      if blocknr bp ≠ first + BitVec.ofNat 32 j then j
      else runLength blocknr first (j + 1) limit bufs

/-- `for (i = 0; i < j; i++)`: harvest the results of a transfer of the given buffers. -/
def harvest (header : Header) (dev : Dev) (rwFlag : RwFlag) :
    Nat → Int → List (Fin n) → Cache n α → Nat × Cache n α
  | i, _, [], cache => (i, cache)
  | i, r, bp :: bufs, cache =>
      if r < header.fsBlockSize then
        (i, if i = 0 then (cache.setDev bp header.noDev).vmForgetblocks else cache)
      else
        harvest header dev rwFlag (i + 1) (r - header.fsBlockSize) bufs
          (match rwFlag with
          | .reading => (cache.setDev bp dev).lmfsPutBlock header bp header.partialDataBlock
          | .writing => cache.lmfsMarkclean bp)

/-- The buffers of the next transfer. -/
def nextRun (header : Header) (cache : Cache n α) (bp : Fin n) (bufq : List (Fin n)) :
    List (Fin n) :=
  (bp :: bufq).take
    (runLength cache.lmfsBlocknr (cache.lmfsBlocknr bp) 0 header.nrIoreqs (bp :: bufq))

/-- One transfer, from the block of `bp` on, with its harvest. -/
def transferRun (header : Header) (env : Environment α) (dev : Dev) (rwFlag : RwFlag) (bp : Fin n)
    (bufs : List (Fin n)) (cache : Cache n α) : Nat × Cache n α :=
  let position := (cache.lmfsBlocknr bp).toNat
  let (r, cache) :=
    match rwFlag with
    | .reading => cache.bdevGather header env dev position bufs
    | .writing => cache.bdevScatter header env dev position bufs
  harvest header dev rwFlag 0 r bufs cache

def putAll (header : Header) (cache : Cache n α) (bufq : List (Fin n)) : Cache n α :=
  bufq.foldl (fun cache bp => cache.lmfsPutBlock header bp header.partialDataBlock) cache

/-- `while (bufqsize > 0)` of `lmfs_rw_scattered`. Each round that goes on takes a buffer off
the queue, so that its length is fuel enough. -/
def transfers (header : Header) (env : Environment α) (dev : Dev) (rwFlag : RwFlag) :
    Nat → List (Fin n) → Cache n α → Cache n α
  | _, [], cache => cache
  | 0, _, cache => cache
  | fuel + 1, bp :: bufq, cache =>
      let (i, cache) := transferRun header env dev rwFlag bp (cache.nextRun header bp bufq) cache
      match rwFlag with
      | .reading => cache.putAll header ((bp :: bufq).drop i)
      | .writing =>
          if i = 0 then cache else transfers header env dev rwFlag fuel ((bp :: bufq).drop i) cache

def lmfsRwScattered (header : Header) (env : Environment α) (cache : Cache n α) (dev : Dev)
    (bufq : List (Fin n)) (rwFlag : RwFlag) : Cache n α :=
  transfers header env dev rwFlag bufq.length
    (ShellSort.sort (fun bp => (cache.lmfsBlocknr bp).toNat) bufq) cache

/-- The dirty blocks of one device. -/
def dirty (cache : Cache n α) (dev : Dev) : List (Fin n) :=
  (List.finRange n).filter fun bp => cache.lmfsDirt bp = .dirty ∧ cache.lmfsDev bp = dev

def flushall (header : Header) (env : Environment α) (cache : Cache n α) (dev : Dev) : Cache n α :=
  cache.lmfsRwScattered header env dev (cache.dirty dev) .writing

def lmfsFlushall (header : Header) (env : Environment α) (cache : Cache n α) : Cache n α :=
  (List.finRange n).foldl (fun cache bp =>
    if cache.lmfsDev bp ≠ header.noDev ∧ cache.lmfsDirt bp = .dirty then
      cache.flushall header env (cache.lmfsDev bp)
    else cache) cache

def lmfsInvalidate (header : Header) (cache : Cache n α) (device : Dev) : Cache n α :=
  { cache with
    lmfsDev := fun bp => if cache.lmfsDev bp = device then header.noDev else cache.lmfsDev bp
  }.vmForgetblocks

/-- Search the hash chain for a block. The outer `none` is a chain without end. -/
def searchHash (cache : Cache n α) (dev : Dev) (block : BlockNr) : Option (Option (Fin n)) :=
  Chain.find cache.lmfsHash
    (fun bp => cache.lmfsBlocknr bp = block ∧ cache.lmfsDev bp = dev) n
    (cache.bufHash (bufhash n block))

/-- The oldest free buffer, with memory; where `alloc_contig` has none, the oldest one that
has memory already. -/
def oldest (header : Header) (env : Environment α) (cache : Cache n α) :
    Except Stop (Fin n × Cache n α) :=
  match cache.front with
  | none => .error .allBuffersInUse
  | some bp =>
      if cache.lmfsBytes bp < header.fsBlockSize then
        match env.alloc cache.allocCalls with
        | some contents =>
            .ok (bp, { cache with
              data := update cache.data bp (some contents)
              lmfsBytes := update cache.lmfsBytes bp header.fsBlockSize
              allocCalls := cache.allocCalls + 1 })
        | none =>
            match Chain.find cache.lmfsNext
              (fun bp => ¬ cache.lmfsBytes bp < header.fsBlockSize) n cache.front with
            | none => .error .endless
            | some none => .error .noBufferAvailable
            | some (some found) =>
                .ok (found, { cache with
                  data := update cache.data bp none
                  allocCalls := cache.allocCalls + 1 })
      else .ok (bp, cache)

/-- Clean the buffer that is taken, and name the block that VM is given for it. -/
def evict (header : Header) (env : Environment α) (cache : Cache n α) (bp : Fin n) :
    Except Stop (BlockId × Cache n α) :=
  if cache.lmfsDev bp ≠ header.noDev then
    let cache :=
      if cache.lmfsDirt bp = .dirty then cache.flushall header env (cache.lmfsDev bp) else cache
    let yieldid := make64 (cache.lmfsDev bp) (cache.lmfsBlocknr bp)
    if cache.lmfsBytes bp ≠ header.fsBlockSize then .error .shortBuffer
    else .ok (yieldid, cache.setDev bp header.noDev)
  else .ok (header.vmBlockidNone, cache)

/-- Fill in the block's parameters and add it to the hash chain where it goes. -/
def claim (cache : Cache n α) (bp : Fin n) (dev : Dev) (block : BlockNr) : Cache n α :=
  let cache := (cache.lmfsMarkclean bp).setDev bp dev
  { cache with toLists := cache.rehash bp block }

/-- Go get the requested block unless searching or prefetching. -/
def fetch (header : Header) (env : Environment α) (cache : Cache n α) (onlySearch : OnlySearch)
    (yieldid getid : BlockId) (bp : Fin n) : Cache n α :=
  let (served, cache) :=
    if (onlySearch = .prefetch ∨ onlySearch = .normal) ∧ cache.vmcache then
      cache.vmYieldBlockGetBlock header env yieldid getid bp
    else (false, cache)
  if served then cache
  else
    match onlySearch with
    | .prefetch => cache.setDev bp header.noDev
    | .normal => cache.readBlock header env bp
    | .noRead => if cache.vmcache then cache.vmForgetblock getid else cache

def lmfsGetBlock (header : Header) (env : Environment α) (cache : Cache n α) (dev : Dev)
    (block : BlockNr) (onlySearch : OnlySearch) : Except Stop (Fin n × Cache n α) :=
  if dev = header.noDev then .error .noDevice
  else
    match cache.searchHash dev block with
    | none => .error .endless
    | some (some bp) => .ok (bp, { cache with toLists := cache.hold bp })
    | some none => do
        let (bp, cache) ← cache.oldest header env
        match (cache.rmLru bp).unhash bp with
        | none => .error .nullPointer
        | some lists =>
            let (yieldid, cache) ← ({ cache with toLists := lists } : Cache n α).evict header env bp
            .ok (bp, (cache.claim bp dev block).fetch header env onlySearch yieldid
              (make64 dev block) bp)

end Cache

/-- What a client asks of the cache: to edit a buffer is to change its contents and to call
`lmfs_markdirty`. In between, VM may drop some of its blocks. -/
inductive Event (n : Nat) (α : Type) where
  | get (dev : Dev) (block : BlockNr) (onlySearch : OnlySearch)
  | put (bp : Fin n) (blockType : BitVec 32)
  | edit (bp : Fin n) (contents : α)
  | markdirty (bp : Fin n)
  | markclean (bp : Fin n)
  | invalidate (device : Dev)
  | flushall
  | readScattered (dev : Dev) (bufq : List (Fin n))
  | vmDrop (kept : BlockId → Bool)

namespace Cache

def step (header : Header) (env : Environment α) (cache : Cache n α) :
    Event n α → Except Stop (Cache n α)
  | .get dev block onlySearch => (cache.lmfsGetBlock header env dev block onlySearch).map Prod.snd
  | .put bp blockType => .ok (cache.lmfsPutBlock header bp blockType)
  | .edit bp contents =>
      .ok ({ cache with data := update cache.data bp (some contents) }.lmfsMarkdirty bp)
  | .markdirty bp => .ok (cache.lmfsMarkdirty bp)
  | .markclean bp => .ok (cache.lmfsMarkclean bp)
  | .invalidate device => .ok (cache.lmfsInvalidate header device)
  | .flushall => .ok (cache.lmfsFlushall header env)
  | .readScattered dev bufq => .ok (cache.lmfsRwScattered header env dev bufq .reading)
  | .vmDrop kept => .ok { cache with vm := fun id => if kept id then cache.vm id else none }

/-- A server that has stopped does nothing more. -/
def next (header : Header) (env : Environment α) (outcome : Except Stop (Cache n α))
    (event : Event n α) : Except Stop (Cache n α) :=
  outcome.bind fun cache => cache.step header env event

end Cache

end Ve482.Bufcache
