import VllmRwkv.Request

/-!
# The manager of one KV cache group

`SingleTypeKVCacheManager` of `v1/core/single_type_kv_cache_manager.py` with its subclasses for
full attention, sliding windows and chunked local attention; what the align-mode Mamba subclass
overrides is in `VllmRwkv.Cache.Mamba`. A manager keeps, for every request, the row of blocks
the request holds, and takes and returns blocks through the pool that all groups share.

The tables of the source are dictionaries keyed by request id. A row that is absent and a row
that is empty behave alike, so rows are total. Context parallelism, the connector's
block-zeroing switch of external blocks and the R-SWA, circular, cross-attention, sink and
HiSparse managers are left out.
-/

namespace VllmRwkv

open Raise Function

variable {H : Type}

/-- `cdiv`: the quotient rounded up. -/
def cdiv (a b : ℕ) : ℕ := (a + b - 1) / b

theorem cdiv_le_cdiv {a b : ℕ} (c : ℕ) (h : a ≤ b) : cdiv a c ≤ cdiv b c := Nat.div_le_div_right (by omega)

/-- The attention type of a group. -/
inductive KVCacheSpec where
  | fullAttention
  | slidingWindow (slidingWindow extraRetainedTokens : ℕ)
  | chunkedLocalAttention (attentionChunkSize : ℕ)
  | mamba (numSpeculativeBlocks numPrefillCheckpointBlocks : ℕ) (prefillCheckpointAlignment : Option ℕ)
  deriving DecidableEq, Repr

/-- What a manager is built with. -/
structure GroupConfig where
  spec : KVCacheSpec
  blockSize : ℕ
  kvCacheGroupId : ℕ
  enableCaching : Bool
  maxAdmissionBlocksPerRequest : Option ℕ
  recordNewBlockIds : Bool
  cacheHitAlignmentTokens : ℕ
  useEagle : Bool
  sharedPrefixCheckpoint : Bool
  dropEagleCheckpointBlock : Bool
  blockSize_pos : 0 < blockSize
  window_pos : ∀ window extra, spec = .slidingWindow window extra → 0 < window

/-- The tables of a manager. Those after `pendingBoundaryStateOffloads` are used by align-mode
Mamba only. -/
structure ManagerState (H : Type) where
  newBlockIds : List KVCacheBlock
  reqToBlocks : RequestId → List KVCacheBlock
  numCachedBlock : RequestId → Option ℕ
  partialHitReqs : RequestId → Option (ℕ × KVCacheBlock)
  pendingCowCopies : List (KVCacheBlock × KVCacheBlock)
  pendingBoundaryStateOffloads : List (RequestId × ℕ × KVCacheBlock × ℕ)
  cachedBlocksThisStep : List (BlockHashWithGroupId H)
  lastStateBlockIdx : RequestId → Option ℕ
  numRetiredBlocks : RequestId → Option ℕ
  allocatedBlockReqs : RequestId → Bool
  checkpoints : RequestId → Option (ℕ × ℕ)
  producerPartialTailReqs : RequestId → Option (KVCacheBlock × ℕ)

/-- `__init__`. -/
def ManagerState.init : ManagerState H where
  newBlockIds := []
  reqToBlocks := fun _ => []
  numCachedBlock := fun _ => none
  partialHitReqs := fun _ => none
  pendingCowCopies := []
  pendingBoundaryStateOffloads := []
  cachedBlocksThisStep := []
  lastStateBlockIdx := fun _ => none
  numRetiredBlocks := fun _ => none
  allocatedBlockReqs := fun _ => false
  checkpoints := fun _ => none
  producerPartialTailReqs := fun _ => none

/-- A manager together with the pool. -/
structure CacheGroup (H : Type) where
  pool : BlockPool H
  mgr : ManagerState H

abbrev GroupM (H : Type) := EStateM PyErr (CacheGroup H)

namespace CacheGroup

/-- Run a method of the pool. -/
def onPool {α : Type} (m : PoolM H α) : GroupM H α :=
  zoom CacheGroup.pool (fun p g => { g with pool := p }) m

/-- Write the tables of the manager. -/
def modifyMgr (f : ManagerState H → ManagerState H) : GroupM H Unit :=
  modify fun g => { g with mgr := f g.mgr }

def setRow (r : RequestId) (row : List KVCacheBlock) : GroupM H Unit :=
  modifyMgr fun m => { m with reqToBlocks := update m.reqToBlocks r row }

/-- `_get_num_evictable_blocks`. -/
def getNumEvictableBlocks (p : BlockPool H) (blocks : List KVCacheBlock) : ℕ :=
  blocks.countP fun b => p.refCnt b = 0 ∧ p.isNull b = false

end CacheGroup

namespace GroupConfig

open CacheGroup

section

variable (cfg : GroupConfig)

/-- `_has_partial_local_hit`: the hit ends inside one of the manager's blocks. -/
def hasPartialLocalHit (newComputedBlocks : List KVCacheBlock) (numLocalComputedTokens : ℕ) : Bool :=
  newComputedBlocks.length > 0 && numLocalComputedTokens % cfg.blockSize ≠ 0

/-- `get_num_skipped_tokens`. The align-mode value is -1 before the first token, where every
reader only asks whether it is positive. -/
def getNumSkippedTokens (numComputedTokens : ℕ) : ℕ :=
  match cfg.spec with
  | .fullAttention => 0
  | .slidingWindow window extra => numComputedTokens + 1 - (window + extra)
  | .chunkedLocalAttention chunk => numComputedTokens / chunk * chunk
  | .mamba .. => numComputedTokens - 1

/-- The whole blocks at the head of a row that the window has left behind. -/
def numSkippedBlocks (numComputedTokens : ℕ) : ℕ :=
  cfg.getNumSkippedTokens numComputedTokens / cfg.blockSize

/-- The arguments of `get_num_blocks_to_allocate`. -/
structure AllocArgs where
  requestId : RequestId
  numTokens : ℕ
  newComputedBlocks : List KVCacheBlock
  totalComputedTokens : ℕ
  numLocalComputedTokens : ℕ
  numTokensMainModel : ℕ
  applyAdmissionCap : Bool
  prefillEnd : ℕ

/-- What `get_num_blocks_to_allocate` of the base class returns. -/
def baseNumBlocksToAllocate (a : AllocArgs) (g : CacheGroup H) : ℕ :=
  let numRequiredBlocks := cdiv a.numTokens cfg.blockSize
  let numRequiredBlocks :=
    match a.applyAdmissionCap, cfg.maxAdmissionBlocksPerRequest with
    | true, some cap => min numRequiredBlocks cap
    | _, _ => numRequiredBlocks
  let numReqBlocks := (g.mgr.reqToBlocks a.requestId).length
  if (g.mgr.numCachedBlock a.requestId).isSome then
    -- a running request has no new hits
    numRequiredBlocks - numReqBlocks
  else
    let numSkippedBlocks := cfg.numSkippedBlocks a.totalComputedTokens
    let numLocalComputedBlocks := a.newComputedBlocks.length + numReqBlocks
    let numNewBlocks := numRequiredBlocks - max numSkippedBlocks numLocalComputedBlocks
    let numSkippedNewComputedBlocks := numSkippedBlocks - numReqBlocks
    let numEvictableBlocks :=
      getNumEvictableBlocks g.pool (a.newComputedBlocks.drop numSkippedNewComputedBlocks)
    let cow := if cfg.hasPartialLocalHit a.newComputedBlocks a.numLocalComputedTokens then 1 else 0
    numNewBlocks + cow + numEvictableBlocks

/-- `get_num_blocks_to_allocate` of the base class. -/
def baseGetNumBlocksToAllocate (a : AllocArgs) : GroupM H ℤ := do
  let g ← get
  check ((g.mgr.numCachedBlock a.requestId).isSome → a.newComputedBlocks.length = 0)
    (.assertionError "len(new_computed_blocks) == 0")
  return cfg.baseNumBlocksToAllocate a g

section

variable (r : RequestId)

def addLocalComputedBlocks (newComputedBlocks : List KVCacheBlock)
    (numLocalComputedTokens numExternalComputedTokens : ℕ) : GroupM H Unit := do
  let g ← get
  check ((g.mgr.reqToBlocks r).length = 0) (.assertionError "len(req_blocks) == 0")
  let numTotalComputedTokens := numLocalComputedTokens + numExternalComputedTokens
  let numSkippedBlocks := cfg.numSkippedBlocks numTotalComputedTokens
  let newComputedBlocks := newComputedBlocks.drop numSkippedBlocks
  runIf cfg.enableCaching (onPool (BlockPool.touch newComputedBlocks))
  check (cfg.enableCaching ∨ newComputedBlocks = [])
    (.assertionError "Computed blocks should be empty when prefix caching is disabled")
  let reqBlocks := List.replicate numSkippedBlocks g.pool.nullBlock ++ newComputedBlocks
  modifyMgr fun m => { m with
    reqToBlocks := update m.reqToBlocks r reqBlocks
    numCachedBlock := update m.numCachedBlock r (some reqBlocks.length) }
  runIf (cfg.hasPartialLocalHit newComputedBlocks numLocalComputedTokens) do
    -- the shared tail is redirected to a private copy by `allocate_new_blocks`
    let blockIdx := numLocalComputedTokens / cfg.blockSize
    modifyMgr fun m => { m with
      partialHitReqs := update m.partialHitReqs r (newComputedBlocks.getLast?.map fun tail => (blockIdx, tail))
      numCachedBlock := update m.numCachedBlock r (some blockIdx) }

def allocateExternalComputedBlocks [DecidableEq H] (cfg : GroupConfig) (r : RequestId)
    (numLocalComputedTokens numExternalComputedTokens : ℕ) (recordForZeroing : Bool) : GroupM H Unit := do
  let numTotalComputedTokens := numLocalComputedTokens + numExternalComputedTokens
  let numSkippedTokens := cfg.getNumSkippedTokens numTotalComputedTokens
  let numExternalComputedTokens :=
    if numSkippedTokens > 0 then min (numTotalComputedTokens - numSkippedTokens) numExternalComputedTokens
    else numExternalComputedTokens
  runIf (numExternalComputedTokens > 0) do
    let reqBlocks := (← get).mgr.reqToBlocks r
    let numNewBlocks := cdiv numTotalComputedTokens cfg.blockSize - reqBlocks.length
    let allocatedBlocks ← onPool (BlockPool.getNewBlocks numNewBlocks)
    setRow r (reqBlocks ++ allocatedBlocks)
    runIf (cfg.recordNewBlockIds && recordForZeroing)
      (modifyMgr fun m => { m with newBlockIds := m.newBlockIds ++ allocatedBlocks })

/-- `_apply_cow`: the row gets the private copy, and both ends of the copy stay referenced until
it has run. -/
def applyCow (blockIdx : ℕ) (sourceBlock cowBlock : KVCacheBlock) : GroupM H Unit := do
  let g ← get
  let reqBlocks := g.mgr.reqToBlocks r
  check (blockIdx < reqBlocks.length) (.assertionError "block_idx < len(req_blocks)")
  check (reqBlocks[blockIdx]? = some sourceBlock) (.assertionError "req_blocks[block_idx] is source_block")
  check (g.pool.isNull sourceBlock = false ∧ g.pool.refCnt sourceBlock > 0)
    (.assertionError "not source_block.is_null and source_block.ref_cnt > 0")
  modifyMgr fun m => { m with
    reqToBlocks := update m.reqToBlocks r (reqBlocks.set blockIdx cowBlock)
    pendingCowCopies := m.pendingCowCopies ++ [(sourceBlock, cowBlock)] }
  onPool (BlockPool.addRefCnt cowBlock 1)

/-- The part of `allocate_new_blocks` that serves a partial hit; the blocks it adds. -/
def redirectPartialHit [DecidableEq H] (r : RequestId) : GroupM H (List KVCacheBlock) := do
  match (← get).mgr.partialHitReqs r with
  | none => return []
  | some (blockIdx, sourceBlock) => do
    modifyMgr fun m => { m with partialHitReqs := update m.partialHitReqs r none }
    match ← onPool (BlockPool.getNewBlocks 1) with
    | [] => throw .indexError
    | cowBlock :: _ => do
      applyCow r blockIdx sourceBlock cowBlock
      modifyMgr fun m => { m with newBlockIds := m.newBlockIds ++ [cowBlock] }
      return [cowBlock]

/-- `allocate_new_blocks` of the base class. -/
def baseAllocateNewBlocks [DecidableEq H] (cfg : GroupConfig) (r : RequestId) (numTokens : ℕ) :
    GroupM H (List KVCacheBlock) := do
  let cowBlocks ← redirectPartialHit r
  let reqBlocks := (← get).mgr.reqToBlocks r
  let numRequiredBlocks := cdiv numTokens cfg.blockSize
  if numRequiredBlocks ≤ reqBlocks.length then return cowBlocks
  else
    let newBlocks ← onPool (BlockPool.getNewBlocks (numRequiredBlocks - reqBlocks.length))
    setRow r (reqBlocks ++ newBlocks)
    runIf cfg.recordNewBlockIds (modifyMgr fun m => { m with newBlockIds := m.newBlockIds ++ newBlocks })
    return cowBlocks ++ newBlocks

/-! ## Giving blocks back -/

/-- `pop_blocks_for_free` of the base class. -/
def basePopBlocksForFree : GroupM H (List KVCacheBlock) := do
  let reqBlocks := (← get).mgr.reqToBlocks r
  modifyMgr fun m => { m with
    reqToBlocks := update m.reqToBlocks r []
    numCachedBlock := update m.numCachedBlock r none
    partialHitReqs := update m.partialHitReqs r none }
  return reqBlocks

/-- The backward loop of `_remove_blocks_in_range`, the given number of blocks of the range being
still to visit: the blocks to free and the new row. It stops at the first null block. -/
def nullBackward (nullBlock : KVCacheBlock) (firstBlock : ℕ) :
    ℕ → List KVCacheBlock → List KVCacheBlock × List KVCacheBlock
  | 0, row => ([], row)
  | n + 1, row =>
    match row[firstBlock + n]? with
    | none => ([], row)
    | some block =>
      if block = nullBlock then ([], row)
      else
        let (freed, row') := nullBackward nullBlock firstBlock n (row.set (firstBlock + n) nullBlock)
        (block :: freed, row')

/-- `_remove_blocks_in_range` of the base class. -/
def baseRemoveBlocksInRange (firstBlock lastBlock : ℕ) : GroupM H Unit := do
  let g ← get
  let blocks := g.mgr.reqToBlocks r
  let lastBlock := min lastBlock blocks.length
  let (freed, blocks') := nullBackward g.pool.nullBlock firstBlock (lastBlock - firstBlock) blocks
  setRow r blocks'
  runIf (freed ≠ []) (onPool (BlockPool.freeBlocks freed))

end

/-! ## Caching -/

/-- `SlidingWindowManager._contiguous_blocks_for_hit`. -/
def contiguousBlocksForHit (windowSize blockSize : ℕ) (useEagle : Bool) : ℕ :=
  cdiv (windowSize - 1) blockSize + if useEagle then 1 else 0

/-- `SlidingWindowManager.reachable_block_mask`, for calls from `cache_blocks`. -/
def slidingWindowBlockMask (window startBlock endBlock : ℕ)
    (retentionInterval : Option ℕ) (reachableBoundaries : List ℕ) : Option (List Bool) :=
  let alignmentTokens := cfg.cacheHitAlignmentTokens
  if alignmentTokens % cfg.blockSize ≠ 0 then none
  else
    let need := contiguousBlocksForHit window cfg.blockSize cfg.useEagle
    let shift := if cfg.useEagle then 1 else 0
    let segmentTokens : Option ℕ :=
      match retentionInterval with
      | none => some alignmentTokens
      | some 0 => none
      | some interval => some interval
    let perSegment := segmentTokens.map (· / cfg.blockSize)
    if ∃ n ∈ perSegment, n ≤ need then none
    else
      let segmentTail := fun i : ℕ => perSegment.any fun n => shift ≤ i && n - need ≤ (i - shift) % n
      let boundaryTail := fun i : ℕ => retentionInterval.isSome && reachableBoundaries.any fun boundary =>
        let last := boundary / alignmentTokens * alignmentTokens / cfg.blockSize + shift
        last - need ≤ i && i < last
      some ((List.range (endBlock - startBlock)).map fun i =>
        segmentTail (startBlock + i) || boundaryTail (startBlock + i))

variable (startBlock endBlock : ℕ) (retentionInterval : Option ℕ) (reachableBoundaries : List ℕ)

/-- `MambaManager.reachable_block_mask`. -/
def mambaBlockMask : Option (List Bool) :=
  match retentionInterval with
  | none => none
  | some interval =>
    let perSegment := interval / cfg.blockSize
    if interval ≠ 0 ∧ perSegment ≤ 1 then none
    else
      let segmentEnd := fun i : ℕ => interval ≠ 0 && (i + 1) % perSegment = 0
      let boundaryEnd := fun i : ℕ => reachableBoundaries.any fun boundary =>
        boundary / cfg.cacheHitAlignmentTokens * cfg.cacheHitAlignmentTokens / cfg.blockSize = i + 1
      some ((List.range (endBlock - startBlock)).map fun i =>
        segmentEnd (startBlock + i) || boundaryEnd (startBlock + i))

/-- `reachable_block_mask`: the full blocks worth caching, or nothing if all of them are. -/
def reachableBlockMask : Option (List Bool) :=
  match cfg.spec with
  | .fullAttention | .chunkedLocalAttention _ => none
  | .slidingWindow window _ =>
    cfg.slidingWindowBlockMask window startBlock endBlock retentionInterval reachableBoundaries
  | .mamba .. => cfg.mambaBlockMask startBlock endBlock retentionInterval reachableBoundaries

end

section Caching

variable [DecidableEq H] (cfg : GroupConfig) (request : Request H)
  (numTokens : ℕ) (retentionInterval : Option ℕ) (replayBoundaries : List ℕ)

/-- `cache_blocks` of the base class. -/
def baseCacheBlocks : GroupM H Unit := do
  let m := (← get).mgr
  let numCachedBlocks := (m.numCachedBlock request.requestId).getD 0
  let numFullBlocks := numTokens / cfg.blockSize
  runIf (numCachedBlocks < numFullBlocks) do
    let reachableBoundaries := replayBoundaries ++
      if request.sharedPrefixBoundary ≠ 0 then [request.sharedPrefixBoundary] else []
    let blockMask :=
      cfg.reachableBlockMask numCachedBlocks numFullBlocks retentionInterval reachableBoundaries
    onPool (BlockPool.cacheFullBlocks request.hashed (m.reqToBlocks request.requestId)
      numCachedBlocks numFullBlocks cfg.blockSize cfg.kvCacheGroupId blockMask)
    modifyMgr fun m => { m with
      numCachedBlock := update m.numCachedBlock request.requestId (some numFullBlocks) }

/-- The last hash boundary of the prompt that a resend of it can match. -/
def promptHashBoundary (hashBlockSize : ℕ) : ℕ :=
  let tokenLimit := if cfg.useEagle then request.numPromptTokens else request.numPromptTokens - 1
  tokenLimit / hashBlockSize * hashBlockSize

/-- `FullAttentionManager._cache_partial_tail_block`: the last hash boundary of the prompt, when
it falls inside a block. -/
def fullCachePartialTailBlock (numTokens : ℕ) : GroupM H Unit := do
  let g ← get
  let boundaryTokens := cfg.promptHashBoundary request g.pool.hashBlockSize
  if boundaryTokens = 0 ∨ boundaryTokens > numTokens ∨ boundaryTokens % cfg.blockSize = 0 then return
  match (g.mgr.reqToBlocks request.requestId)[boundaryTokens / cfg.blockSize]? with
  | none => return
  | some block => do
    let _ ← onPool (BlockPool.cachePartialBlock request.hashed block boundaryTokens
      cfg.kvCacheGroupId cfg.blockSize false)

/-- `FullAttentionManager.cache_blocks`. -/
def fullCacheBlocks : GroupM H Unit := do
  cfg.baseCacheBlocks request numTokens retentionInterval replayBoundaries
  runIf (cfg.blockSize ≠ (← get).pool.hashBlockSize) (cfg.fullCachePartialTailBlock request numTokens)

end Caching

end GroupConfig

end VllmRwkv
