import VllmRwkv.Pool.HashMap

/-!
# The block pool

`BlockPool` of `v1/core/block_pool.py`: reference counts, the free queue, the prefix-cache index
(the hash-to-block map, the primary hash of each block and its additional hashes) and the KV
cache events. Programs run in `PoolM`, so that a call that raises keeps the state it had
reached.

The metrics collector, the LoRA, session and multi-modal fields of an event, and the
conversion of a hash for an event are left out: no other part of the pool reads them.
-/

namespace VllmRwkv

open Raise Function

variable {H : Type}

/-- The KV cache events of the pool. -/
inductive KVCacheEvent (H : Type) where
  | blockStored (blockHashes : List H) (parentBlockHash : Option H) (tokenIds : List ℕ) (blockSize groupIdx : ℕ)
  | blockRemoved (blockHashes : List H) (groupIdx : ℕ)
  | allBlocksCleared
  deriving DecidableEq, Repr

/-- The tokens and block hashes of a request, the part of a request that the pool reads. -/
structure HashedTokens (H : Type) where
  allTokenIds : List ℕ
  blockHashes : List H
  deriving Repr

/-- A caller of `unpin_blocks`: the pool only stores its callback and calls it on reuse. -/
abbrev ReuseWatcher := ℕ

structure BlockPool (H : Type) where
  numGpuBlocks : ℕ
  enableCaching : Bool
  hashBlockSize : ℕ
  refCnt : KVCacheBlock → ℤ
  blockHash : KVCacheBlock → Option (BlockHashWithGroupId H)
  blockHashNumTokens : KVCacheBlock → Option ℕ
  isNull : KVCacheBlock → Bool
  freeBlockQueue : FreeKVCacheBlockQueue
  cachedBlockHashToBlock : BlockHashToBlockMap H
  /-- The additional hashes of a block; a block that is no key of the dictionary has none. -/
  cachedBlockHashesByBlock : KVCacheBlock → List (BlockHashWithGroupId H)
  nullBlock : KVCacheBlock
  enableKvCacheEvents : Bool
  kvEventQueue : List (KVCacheEvent H)
  reuseWatchers : KVCacheBlock → Option ReuseWatcher
  /-- The callbacks fired so far, oldest first. -/
  reuseNotified : List (ReuseWatcher × KVCacheBlock)

abbrev PoolM (H : Type) := EStateM PyErr (BlockPool H)

/-- The `num_gpu_blocks` blocks of a pool. -/
def poolBlocks (numGpuBlocks : ℕ) : List KVCacheBlock := (List.range numGpuBlocks).map KVCacheBlock.block

namespace BlockPool

/-- Run a method of the free queue inside the pool. -/
def onQueue {α : Type} (m : QueueM α) : PoolM H α := fun p =>
  match m p.freeBlockQueue with
  | .ok a q => .ok a { p with freeBlockQueue := q }
  | .error e q => .error e { p with freeBlockQueue := q }

theorem wp_onQueue {α : Type} {m : QueueM α} {Q : α → BlockPool H → Prop} {R : PyErr → BlockPool H → Prop}
    {p : BlockPool H} : wp (onQueue m) Q R p ↔ wp m (fun a q => Q a { p with freeBlockQueue := q })
        (fun e q => R e { p with freeBlockQueue := q }) p.freeBlockQueue := by
  unfold wp onQueue
  cases m p.freeBlockQueue <;> exact Iff.rfl

/-- `__init__`. The first block of the queue becomes the null block. -/
def init (numGpuBlocks : ℕ) (enableCaching : Bool) (hashBlockSize : ℕ) (enableKvCacheEvents : Bool) :
    Except PyErr (BlockPool H) :=
  if numGpuBlocks > 0 then
    match FreeKVCacheBlockQueue.popleft (FreeKVCacheBlockQueue.init (poolBlocks numGpuBlocks)) with
    | .ok nullBlock queue =>
      .ok { numGpuBlocks, enableCaching, hashBlockSize, enableKvCacheEvents, nullBlock
            refCnt := fun _ => 0, blockHash := fun _ => none, blockHashNumTokens := fun _ => none
            isNull := fun b => b = nullBlock, freeBlockQueue := queue
            cachedBlockHashToBlock := .empty, cachedBlockHashesByBlock := fun _ => []
            kvEventQueue := [], reuseWatchers := fun _ => none, reuseNotified := [] }
    | .error e _ => .error e
  else .error (.assertionError "num_gpu_blocks > 0")

def getNumFreeBlocks (p : BlockPool H) : ℤ := p.freeBlockQueue.numFreeBlocks

/-- `resolve_block_hashes`: the hash view at `block_size`, whose entry `i` is the hash at the end of
block `i`. -/
def resolveBlockHashes (blockHashes : List H) (hashBlockSize blockSize : ℕ) : Except PyErr (List H) :=
  if blockSize = hashBlockSize then .ok blockHashes
  else if blockSize % hashBlockSize = 0 then
    let scaleFactor := blockSize / hashBlockSize
    .ok ((List.range (blockHashes.length / scaleFactor)).filterMap fun i => blockHashes[(i + 1) * scaleFactor - 1]?)
  else .error (.assertionError "block_size % hash_block_size == 0")

/-- `get_cached_block`: the first cached block of every group, or nothing if one group misses. -/
def getCachedBlock (p : BlockPool H) (blockHash : H) : List ℕ → Option (List KVCacheBlock)
  | [] => some []
  | groupId :: groupIds =>
    match p.cachedBlockHashToBlock.getOneBlock (makeBlockHashWithGroupId blockHash groupId) with
    | none => none
    | some block => (p.getCachedBlock blockHash groupIds).map (block :: ·)

/-! ## Hash metadata -/

/-- `KVCacheBlock.set_block_hash`. -/
def setBlockHash (block : KVCacheBlock) (key : BlockHashWithGroupId H) (numTokens : Option ℕ) : PoolM H Unit := do
  let p ← get
  check (p.blockHash block = none ∧ p.blockHashNumTokens block = none)
    (.assertionError "The block already has a hash. This should not happen.")
  modify fun p => { p with
    blockHash := update p.blockHash block (some key)
    blockHashNumTokens := update p.blockHashNumTokens block numTokens }

/-- `KVCacheBlock.reset_hash`. -/
def resetHash (block : KVCacheBlock) (p : BlockPool H) : BlockPool H :=
  { p with
    blockHash := update p.blockHash block none
    blockHashNumTokens := update p.blockHashNumTokens block none }

section Caching

variable [DecidableEq H]

/-- The loop of `_remove_cached_block_hashes`: the keys under which the block was really held. -/
def popKeys (block : KVCacheBlock) : List (BlockHashWithGroupId H) →
    BlockHashToBlockMap H → List (BlockHashWithGroupId H) × BlockHashToBlockMap H
  | [], m => ([], m)
  | key :: keys, m =>
    let popped := m.pop key block
    let rest := popKeys block keys popped.2
    (if popped.1.isSome then key :: rest.1 else rest.1, rest.2)

/-- The keys a block is recorded under: its primary hash, then its additional hashes. -/
def keysOf (p : BlockPool H) (block : KVCacheBlock) : List (BlockHashWithGroupId H) :=
  (p.blockHash block).toList ++ p.cachedBlockHashesByBlock block

/-- `_remove_cached_block_hashes`. The additional hashes are a set; here they are visited in the
order in which they were added. -/
def removeCachedBlockHashes (block : KVCacheBlock) : PoolM H (List (BlockHashWithGroupId H)) := do
  let p ← get
  let blockHashes := p.keysOf block
  modify fun p => { p with cachedBlockHashesByBlock := update p.cachedBlockHashesByBlock block [] }
  if blockHashes.length = 0 then return []
  let removed := popKeys block blockHashes p.cachedBlockHashToBlock
  modify fun p => resetHash block { p with cachedBlockHashToBlock := removed.2 }
  return removed.1

def emitBlockRemovedEvents (blockHashes : List (BlockHashWithGroupId H)) : PoolM H Unit :=
  modify fun p =>
    if p.enableKvCacheEvents then
      { p with kvEventQueue := p.kvEventQueue ++ blockHashes.map fun key => .blockRemoved [key.blockHash] key.groupId }
    else p

/-- `_insert_block_hash`. -/
def insertBlockHash (key : BlockHashWithGroupId H) (block : KVCacheBlock) (numTokens : Option ℕ) : PoolM H Unit := do
  let p ← get
  if p.blockHash block = some key then return
  if p.cachedBlockHashToBlock.contain key block then return
  runIf (p.blockHash block = none) (setBlockHash block key numTokens)
  runIf (p.blockHash block ≠ none) (modify fun p => { p with
    cachedBlockHashesByBlock := update p.cachedBlockHashesByBlock block (let keys := p.cachedBlockHashesByBlock block
       if key ∈ keys then keys else keys ++ [key]) })
  modify fun p => { p with cachedBlockHashToBlock := p.cachedBlockHashToBlock.insert key block }

/-! ## Caching -/

/-- One round of the loop of `cache_full_blocks`: a block that already has a hash may only be
promoted to a longer one. -/
def cacheFullBlock (key : BlockHashWithGroupId H) (blk : KVCacheBlock) (numHashTokens : ℕ) : PoolM H Unit := do
  let p ← get
  runIf (p.blockHash blk ≠ none) do
    check (∃ numTokens ∈ p.blockHashNumTokens blk, numTokens < numHashTokens)
      (.assertionError "blk.block_hash_num_tokens < num_hash_tokens")
    let removedHashes ← removeCachedBlockHashes blk
    emitBlockRemovedEvents removedHashes
  insertBlockHash key blk (some numHashTokens)

/-- The loop of `cache_full_blocks` over the blocks not yet cached, `i` being the position of the
first of them; it returns the hashes registered. -/
def cacheFullBlocksLoop (newBlockHashes : List H) (blockMask : Option (List Bool))
    (numCachedBlocks blockSize kvCacheGroupId : ℕ) : ℕ → List KVCacheBlock → PoolM H (List H)
  | _, [] => pure []
  | i, blk :: blks => do
    let p ← get
    if p.isNull blk ∨ (∃ mask ∈ blockMask, mask[i]? = some false) then
      cacheFullBlocksLoop newBlockHashes blockMask numCachedBlocks blockSize kvCacheGroupId (i + 1) blks
    else
      match newBlockHashes[i]? with
      | none => throw .indexError
      | some blockHash => do
        cacheFullBlock (makeBlockHashWithGroupId blockHash kvCacheGroupId) blk ((numCachedBlocks + i + 1) * blockSize)
        let newHashes ← cacheFullBlocksLoop newBlockHashes blockMask numCachedBlocks blockSize
          kvCacheGroupId (i + 1) blks
        return blockHash :: newHashes

/-- `kv_event_queue.append`. -/
def pushEvent (event : KVCacheEvent H) : PoolM H Unit :=
  modify fun p => { p with kvEventQueue := p.kvEventQueue ++ [event] }

section

variable (request : HashedTokens H)

def cacheFullBlocks (blocks : List KVCacheBlock)
    (numCachedBlocks numFullBlocks blockSize kvCacheGroupId : ℕ) (blockMask : Option (List Bool)) :
    PoolM H Unit := do
  if numCachedBlocks ≥ numFullBlocks then return
  let newFullBlocks := (blocks.drop numCachedBlocks).take (numFullBlocks - numCachedBlocks)
  check (∀ mask ∈ blockMask, mask.length = newFullBlocks.length)
    (.assertionError "len(block_mask) == len(new_full_blocks)")
  match resolveBlockHashes request.blockHashes (← get).hashBlockSize blockSize with
  | .error e => throw e
  | .ok blockHashes => do
    let newHashes ← cacheFullBlocksLoop (blockHashes.drop numCachedBlocks) blockMask
      numCachedBlocks blockSize kvCacheGroupId 0 newFullBlocks
    runIf (← get).enableKvCacheEvents do
      let tokenIds := (request.allTokenIds.drop (numCachedBlocks * blockSize)).take
        ((numFullBlocks - numCachedBlocks) * blockSize)
      let parentBlockHash := if numCachedBlocks = 0 then none else blockHashes[numCachedBlocks - 1]?
      check (numCachedBlocks = 0 ∨ parentBlockHash.isSome) .indexError
      -- the extra keys are read off `blocks[i]` for every `i` up to `num_full_blocks`
      check (numFullBlocks ≤ blocks.length) .indexError
      pushEvent (.blockStored newHashes parentBlockHash tokenIds blockSize kvCacheGroupId)

/-- `emit_cached_block_events`: events for the blocks of a prefix hit, no other state. -/
def emitCachedBlockEvents (numCachedBlocks blockSize kvCacheGroupId : ℕ) : PoolM H Unit := do
  let p ← get
  if p.enableKvCacheEvents = false ∨ numCachedBlocks = 0 then return
  match resolveBlockHashes request.blockHashes p.hashBlockSize blockSize with
  | .error e => throw e
  | .ok blockHashes => do
    check (numCachedBlocks ≤ blockHashes.length) .indexError
    pushEvent (.blockStored (blockHashes.take numCachedBlocks) none
      (request.allTokenIds.take (numCachedBlocks * blockSize)) blockSize kvCacheGroupId)

/-- `_get_partial_block_hash`. -/
def getPartialBlockHash (p : BlockPool H) (request : HashedTokens H) (numTokens : ℕ) : Except PyErr H :=
  if numTokens % p.hashBlockSize ≠ 0 then
    .error (.assertionError "num_tokens % self.hash_block_size == 0")
  else
    let numHashBlocks := numTokens / p.hashBlockSize
    match numHashBlocks with
    | 0 => .error (.assertionError "0 < num_hash_blocks")
    | n + 1 =>
      match request.blockHashes[n]? with
      | none => .error (.assertionError "num_hash_blocks <= len(request.block_hashes)")
      | some blockHash => .ok blockHash

def cachePartialBlock (block : KVCacheBlock) (numTokens kvCacheGroupId blockSize : ℕ) (replaceExistingHashes : Bool) :
    PoolM H (Option (BlockHashWithGroupId H)) := do
  let p ← get
  if p.isNull block then return none
  check (blockSize % p.hashBlockSize = 0) (.assertionError "block_size % self.hash_block_size == 0")
  match p.getPartialBlockHash request numTokens with
  | .error e => throw e
  | .ok blockHash => do
    let numHashBlocks := numTokens / p.hashBlockSize
    let key := makeBlockHashWithGroupId blockHash kvCacheGroupId
    let alreadyCached : Bool :=
      p.blockHash block = some key ∨ p.cachedBlockHashToBlock.contain key block
    runIf (replaceExistingHashes ∨ (alreadyCached = false ∧ p.blockHash block ≠ none ∧
        ∃ n ∈ p.blockHashNumTokens block, n < numHashBlocks * p.hashBlockSize)) do
      let removedHashes ← removeCachedBlockHashes block
      emitBlockRemovedEvents removedHashes
    insertBlockHash key block (some (numHashBlocks * p.hashBlockSize))
    runIf (p.enableKvCacheEvents ∧ (replaceExistingHashes ∨ alreadyCached = false)) do
      let parentHash := if numHashBlocks > 1 then request.blockHashes[numHashBlocks - 2]? else none
      let blockStart := (numHashBlocks - 1) * p.hashBlockSize
      pushEvent (.blockStored [blockHash] parentHash
        ((request.allTokenIds.drop blockStart).take (numTokens - blockStart))
        (numTokens - blockStart) kvCacheGroupId)
    return some key

end

def moveBlockHashes (srcBlock dstBlock : KVCacheBlock) : PoolM H Unit := do
  let p ← get
  check (p.blockHash dstBlock = none) (.assertionError "dst_block.block_hash is None")
  check (p.cachedBlockHashesByBlock dstBlock = [])
    (.assertionError "dst_block.block_id not in self.cached_block_hashes_by_block")
  let numTokens := p.blockHashNumTokens srcBlock
  let removed ← removeCachedBlockHashes srcBlock
  forM removed fun key => insertBlockHash key dstBlock numTokens

/-- `_maybe_evict_cached_block`. -/
def maybeEvictCachedBlock (block : KVCacheBlock) : PoolM H Bool := do
  let evictedHashes ← removeCachedBlockHashes block
  if evictedHashes.length = 0 then return false
  emitBlockRemovedEvents evictedHashes
  return true

/-! ## References and the free queue -/

/-- `block.ref_cnt += d`. -/
def addRefCnt (block : KVCacheBlock) (d : ℤ) : PoolM H Unit :=
  modify fun p => { p with refCnt := update p.refCnt block (p.refCnt block + d) }

/-- `_notify_reuse`: fire and forget the callback of every block that has one. -/
def notifyReuse (blocks : List KVCacheBlock) : PoolM H Unit :=
  forM blocks fun block => modify fun p =>
    match p.reuseWatchers block with
    | none => p
    | some watcher => { p with
        reuseWatchers := update p.reuseWatchers block none
        reuseNotified := p.reuseNotified ++ [(watcher, block)] }

/-- One round of the loop of `get_new_blocks`. -/
def takeBlock (block : KVCacheBlock) : PoolM H Unit := do
  runIf (← get).enableCaching do
    let _ ← maybeEvictCachedBlock block
  check ((← get).refCnt block = 0) (.assertionError "block.ref_cnt == 0")
  addRefCnt block 1

def getNewBlocks (numBlocks : ℕ) : PoolM H (List KVCacheBlock) := do
  check (numBlocks ≤ (← get).getNumFreeBlocks) (.valueError s!"Cannot get {numBlocks} free blocks from the pool")
  let ret ← onQueue (FreeKVCacheBlockQueue.popleftN numBlocks)
  notifyReuse ret
  forM ret takeBlock
  return ret

/-- The loop of `unpin_blocks`: the blocks whose last reference it gives up. -/
def unpinLoop (onReuse : ReuseWatcher) : List KVCacheBlock → PoolM H (List KVCacheBlock)
  | [] => pure []
  | block :: blocks => do
    let p ← get
    check (p.refCnt block > 0 ∧ p.isNull block = false) (.assertionError "block.ref_cnt > 0 and not block.is_null")
    addRefCnt block (-1)
    modify fun p => { p with reuseWatchers := update p.reuseWatchers block (some onReuse) }
    let released ← unpinLoop onReuse blocks
    return if p.refCnt block = 1 then block :: released else released

def unpinBlocks (blocks : List KVCacheBlock) (onReuse : ReuseWatcher) : PoolM H Unit := do
  let released ← unpinLoop onReuse blocks
  onQueue (FreeKVCacheBlockQueue.appendN released)

def touch (blocks : List KVCacheBlock) : PoolM H Unit :=
  forM blocks fun block => do
    let p ← get
    runIf (p.refCnt block = 0 ∧ p.isNull block = false) (onQueue (FreeKVCacheBlockQueue.remove block))
    addRefCnt block 1

def isBlockWritable (p : BlockPool H) (block : KVCacheBlock) : Bool :=
  !p.isNull block && p.refCnt block = 1 && p.blockHash block = none

/-- The loop of `free_blocks`: the blocks to reuse first and the blocks to reuse last. -/
def freeLoop : List KVCacheBlock → PoolM H (List KVCacheBlock × List KVCacheBlock)
  | [] => pure ([], [])
  | block :: blocks => do
    addRefCnt block (-1)
    let p ← get
    let (evictFirst, evictLast) ← freeLoop blocks
    return if p.refCnt block = 0 ∧ p.isNull block = false then
        if p.blockHash block = none ∨ p.enableCaching = false then (block :: evictFirst, evictLast)
        else (evictFirst, block :: evictLast)
      else (evictFirst, evictLast)

/-- `free_blocks`. A block of another pool is handed to that pool's own `free_blocks`, which is
this function run on the other pool. -/
def freeBlocks (orderedBlocks : List KVCacheBlock) : PoolM H Unit := do
  let (evictFirst, evictLast) ← freeLoop orderedBlocks
  onQueue (FreeKVCacheBlockQueue.prependN evictFirst)
  onQueue (FreeKVCacheBlockQueue.appendN evictLast)

def evictBlocks (blockIds : List ℕ) : PoolM H Unit :=
  forM blockIds fun blockId => do
    check (blockId < (← get).numGpuBlocks) (.assertionError s!"Invalid block_id {blockId}")
    let _ ← maybeEvictCachedBlock (.block blockId)

def resetPrefixCache : PoolM H Bool := do
  let p ← get
  if (p.numGpuBlocks : ℤ) - p.getNumFreeBlocks ≠ 1 then return false
  modify fun p => { p with cachedBlockHashToBlock := .empty, cachedBlockHashesByBlock := fun _ => [] }
  notifyReuse ((poolBlocks p.numGpuBlocks).filter fun b => (p.reuseWatchers b).isSome)
  modify fun p => (poolBlocks p.numGpuBlocks).foldl (fun p b => resetHash b p) p
  runIf p.enableKvCacheEvents (pushEvent .allBlocksCleared)
  return true

end Caching

def takeEvents : PoolM H (List (KVCacheEvent H)) := do
  let p ← get
  if p.enableKvCacheEvents then
    modify fun p => { p with kvEventQueue := [] }
    return p.kvEventQueue
  else return []

end BlockPool

end VllmRwkv
