import VllmRwkv.Cache.Manager

/-!
# Align-mode Mamba groups

What `MambaManager` overrides when `mamba_cache_mode` is `"align"`, the mode that RWKV states use.
A block holds one recurrent state. The state of the running request sits in the last column that
is not speculative scratch; earlier columns are null unless they keep a cached state.

The dispatch of every method of a manager on its attention type closes the module.
-/

namespace VllmRwkv

open Raise Function

variable {H : Type}

/-- `get_mamba_prefill_checkpoint_position`. -/
def getMambaPrefillCheckpointPosition (numTokens hashBlockSize : ℕ) (dropEagleBlock : Bool) : ℕ :=
  let proofLimit := if dropEagleBlock then numTokens else numTokens - 1
  let checkpointPosition := proofLimit / hashBlockSize * hashBlockSize
  if dropEagleBlock then checkpointPosition - hashBlockSize else checkpointPosition

/-- `is_mamba_prefill_checkpoint_valid`. -/
def isMambaPrefillCheckpointValid (queryStart queryEnd checkpointPosition hashBlockSize mambaBlockSize : ℕ)
    (checkpointAlignment : Option ℕ) : Bool :=
  match checkpointAlignment with
  | none => false
  | some alignment =>
    let initialStateCol : ℤ := ((queryStart : ℤ) - 1) / mambaBlockSize
    let checkpointCol : ℤ := (cdiv queryEnd mambaBlockSize : ℤ) - 2
    queryStart % hashBlockSize = 0 && checkpointCol > initialStateCol &&
      queryStart + hashBlockSize ≤ checkpointPosition &&
      queryStart < checkpointPosition && checkpointPosition < queryEnd &&
      (checkpointPosition - queryStart) % alignment = 0

namespace GroupConfig

open CacheGroup

/-- `isinstance(manager, MambaManager)`. -/
def isMamba (cfg : GroupConfig) : Bool :=
  match cfg.spec with
  | .mamba .. => true
  | _ => false

section

variable (cfg : GroupConfig) (numSpeculativeBlocks numPrefillCheckpointBlocks : ℕ) (prefillCheckpointAlignment : Option ℕ)
  (g : CacheGroup H)

/-- `_needs_internal_checkpoint`. -/
def needsInternalCheckpoint (r : RequestId) (queryStart queryEnd checkpointPosition prefillEnd : ℕ) : Bool :=
  let checkpointIdx := cdiv queryEnd cfg.blockSize - 2
  let blocks := g.mgr.reqToBlocks r
  numPrefillCheckpointBlocks > 0 && prefillEnd ≤ queryEnd &&
    isMambaPrefillCheckpointValid queryStart queryEnd checkpointPosition g.pool.hashBlockSize
      cfg.blockSize prefillCheckpointAlignment &&
    2 ≤ cdiv queryEnd cfg.blockSize &&
    (blocks.length ≤ checkpointIdx || blocks[checkpointIdx]?.any g.pool.isNull ||
      (g.mgr.allocatedBlockReqs r && (blocks.length : ℤ) - numSpeculativeBlocks ≤ checkpointIdx))

/-- The checkpoint an align-mode chunk exports inside itself: its token position, or 0. -/
def plannedCheckpoint (a : AllocArgs) : ℕ :=
  let checkpointPosition := getMambaPrefillCheckpointPosition a.numTokensMainModel
    cfg.cacheHitAlignmentTokens cfg.dropEagleCheckpointBlock
  if cfg.needsInternalCheckpoint numSpeculativeBlocks numPrefillCheckpointBlocks
      prefillCheckpointAlignment g a.requestId a.totalComputedTokens a.numTokensMainModel
      checkpointPosition a.prefillEnd then checkpointPosition
  else 0

end

section Allocation

variable [DecidableEq H]

/-- The hit ends in a state that another request writes in this very step. -/
def hitsThisStep (a : AllocArgs) (g : CacheGroup H) : Bool :=
  a.newComputedBlocks.getLast?.any fun tail =>
    (g.pool.blockHash tail).any fun key => key ∈ g.mgr.cachedBlocksThisStep

variable (cfg : GroupConfig)

/-- `has_partial_hit`: a hit that ends inside a block, or a tail the request registered itself. -/
def mambaHasPartialHit (a : AllocArgs) (g : CacheGroup H) : Bool :=
  cfg.hasPartialLocalHit a.newComputedBlocks a.numLocalComputedTokens || (g.mgr.partialHitReqs a.requestId).isSome

section

variable (numSpeculativeBlocks numPrefillCheckpointBlocks : ℕ) (prefillCheckpointAlignment : Option ℕ) (a : AllocArgs)

/-- What the align-mode branch of `MambaManager.get_num_blocks_to_allocate` returns. The count of
new blocks is not clamped at 0. -/
def mambaNumBlocksToAllocate (g : CacheGroup H) : ℤ :=
  -- a state of this step cannot be built upon: ask for more blocks than there are
  if hitsThisStep a g then g.pool.numGpuBlocks + 1
  else
    let numRequiredBlocks := cdiv a.numTokensMainModel cfg.blockSize + numSpeculativeBlocks
    let numNewBlocks : ℤ := (numRequiredBlocks : ℤ) - a.newComputedBlocks.length -
      (g.mgr.reqToBlocks a.requestId).length
    let hasPartialHit := cfg.mambaHasPartialHit a g
    let numNewBlocks := if hasPartialHit then max numNewBlocks 0 + 1 else numNewBlocks
    let checkpointPosition := cfg.plannedCheckpoint numSpeculativeBlocks numPrefillCheckpointBlocks
      prefillCheckpointAlignment g a
    let physicalBlockCap : ℤ := 1 + (if hasPartialHit then 1 else 0) + (if checkpointPosition > 0 then 1 else 0) +
      if g.mgr.allocatedBlockReqs a.requestId then 0 else numSpeculativeBlocks
    let numNewBlocks := if numNewBlocks > 0 then min numNewBlocks physicalBlockCap else numNewBlocks
    numNewBlocks + getNumEvictableBlocks g.pool a.newComputedBlocks

/-- The record of the checkpoint planned for a chunk: its token position and its column. -/
def checkpointRecord (g : CacheGroup H) : Option (ℕ × ℕ) :=
  let checkpointPosition := cfg.plannedCheckpoint numSpeculativeBlocks numPrefillCheckpointBlocks
    prefillCheckpointAlignment g a
  if checkpointPosition > 0 then
    some (checkpointPosition, cdiv a.numTokensMainModel cfg.blockSize - 2)
  else none

/-- The align-mode branch of `MambaManager.get_num_blocks_to_allocate`. It records the planned
checkpoint of the chunk, except for the admission gate. -/
def mambaGetNumBlocksToAllocate : GroupM H ℤ := do
  let g ← get
  runIf (hitsThisStep a g = false ∧ a.applyAdmissionCap = false) (modifyMgr fun m => { m with
    checkpoints := update m.checkpoints a.requestId (cfg.checkpointRecord
      numSpeculativeBlocks numPrefillCheckpointBlocks prefillCheckpointAlignment a g) })
  return cfg.mambaNumBlocksToAllocate numSpeculativeBlocks numPrefillCheckpointBlocks prefillCheckpointAlignment a g

end

section

variable (r : RequestId)

/-- `_relocate_speculative_block`: a scratch block of the last step moves to the end of the row. -/
def relocateSpeculativeBlock (blockIdx : ℕ) : GroupM H Unit := do
  let g ← get
  let reqBlocks := g.mgr.reqToBlocks r
  match reqBlocks[blockIdx]? with
  | none => throw .indexError
  | some block => do
    check (g.pool.isBlockWritable block) (.assertionError
        "Speculative Mamba blocks must be exclusively owned and unhashed before relocation")
    setRow r ((reqBlocks ++ [block]).set blockIdx g.pool.nullBlock)

/-- The partial hit of a running request, which registered its own tail: the row keeps the source,
since the worker's table is append-only, and the cache entry moves to the copy. -/
def moveProducerTail (blockIdx : ℕ) (sourceBlock cowBlock : KVCacheBlock) : GroupM H Unit := do
  check (((← get).mgr.reqToBlocks r)[blockIdx]? = some sourceBlock)
    (.assertionError "req_blocks[block_idx] is source_block")
  onPool (BlockPool.moveBlockHashes sourceBlock cowBlock)
  modifyMgr fun m => { m with pendingCowCopies := m.pendingCowCopies ++ [(sourceBlock, cowBlock)] }
  onPool (BlockPool.addRefCnt sourceBlock 1)
  let producerTail := (← get).mgr.producerPartialTailReqs r
  modifyMgr fun m => { m with producerPartialTailReqs := update m.producerPartialTailReqs r none }
  forM producerTail.toList fun tail => do
    check (tail.1 = sourceBlock) (.assertionError "marker_block is source_block")
    modifyMgr fun m => { m with
      pendingBoundaryStateOffloads :=
        m.pendingBoundaryStateOffloads ++ [(r, cfg.kvCacheGroupId, cowBlock, tail.2)] }
  let cowHash := (← get).pool.blockHash cowBlock
  modifyMgr fun m => { m with cachedBlocksThisStep := m.cachedBlocksThisStep ++ cowHash.toList }

/-- The copy-on-write step of `allocate_new_blocks`: the new blocks that are left for the row, and
the private copy if the row took it. -/
def mambaServePartialHit (blocksAllocated : Bool)
    (newBlocks : List KVCacheBlock) : GroupM H (List KVCacheBlock × List KVCacheBlock) := do
  match (← get).mgr.partialHitReqs r, newBlocks with
  | none, _ => return (newBlocks, [])
  | some _, [] => throw .indexError
  | some (blockIdx, sourceBlock), cowBlock :: newBlocks =>
    if blocksAllocated then
      cfg.moveProducerTail r blockIdx sourceBlock cowBlock
      return (newBlocks, [])
    else
      applyCow r blockIdx sourceBlock cowBlock
      return (newBlocks, [cowBlock])

/-- Lay out the row of an align-mode chunk before blocks are taken: skipped columns become null
and the scratch blocks of the last step move behind them. -/
def mambaLayoutRow (numSpeculativeBlocks numSkippedBlocks checkpointBlock : ℕ) : GroupM H Unit := do
  let g ← get
  let reqBlocks := g.mgr.reqToBlocks r
  let prevBlockLen := reqBlocks.length
  runIf (prevBlockLen < numSkippedBlocks) (setRow r (reqBlocks ++
    List.replicate (numSkippedBlocks - checkpointBlock - prevBlockLen) g.pool.nullBlock))
  runIf (g.mgr.allocatedBlockReqs r) (forM
    ((List.range' (prevBlockLen - numSpeculativeBlocks) numSpeculativeBlocks).takeWhile
      fun blockIdx => blockIdx < numSkippedBlocks - checkpointBlock) (relocateSpeculativeBlock r))

end

/-- `int(request_id in self._checkpoints)`: the block reserved for a planned checkpoint. -/
def checkpointBlocks (g : CacheGroup H) (r : RequestId) : ℕ := if (g.mgr.checkpoints r).isSome then 1 else 0

/-- The align-mode branch of `MambaManager.allocate_new_blocks`. -/
def mambaAllocateNewBlocks (numSpeculativeBlocks : ℕ) (r : RequestId)
    (numTokensMainModel : ℕ) : GroupM H (List KVCacheBlock) := do
  let g ← get
  let prevBlockLen := (g.mgr.reqToBlocks r).length
  let numRequiredBlocks := cdiv numTokensMainModel cfg.blockSize + numSpeculativeBlocks
  let checkpointBlock := checkpointBlocks g r
  let hasPartialHit := (g.mgr.partialHitReqs r).isSome
  let blocksAllocated := g.mgr.allocatedBlockReqs r
  let setAllocated : GroupM H Unit := modifyMgr fun m =>
    { m with allocatedBlockReqs := update m.allocatedBlockReqs r true }
  if numRequiredBlocks ≤ prevBlockLen ∧ hasPartialHit = false ∧ checkpointBlock = 0 then
    setAllocated
    return []
  else
    -- the column of the state to continue from
    runIf (blocksAllocated ∨ 0 < prevBlockLen) (modifyMgr fun m => { m with
      lastStateBlockIdx := update m.lastStateBlockIdx r (some
        (if blocksAllocated then prevBlockLen - 1 - numSpeculativeBlocks else prevBlockLen - 1)) })
    mambaLayoutRow r numSpeculativeBlocks (numRequiredBlocks - numSpeculativeBlocks - 1) checkpointBlock
    let numNewBlocks := numRequiredBlocks - ((← get).mgr.reqToBlocks r).length + if hasPartialHit then 1 else 0
    let maxNewBlocks := 1 + (if hasPartialHit then 1 else 0) + checkpointBlock +
      if blocksAllocated then 0 else numSpeculativeBlocks
    check (numNewBlocks ≤ maxNewBlocks) (.assertionError "num_new_blocks <= max_new_blocks")
    let newBlocks ← onPool (BlockPool.getNewBlocks numNewBlocks)
    let paddedBlocks := ((← get).mgr.reqToBlocks r).drop prevBlockLen
    let (newBlocks, cowBlocks) ← cfg.mambaServePartialHit r blocksAllocated newBlocks
    setRow r ((← get).mgr.reqToBlocks r ++ newBlocks)
    setAllocated
    modifyMgr fun m => { m with partialHitReqs := update m.partialHitReqs r none }
    return cowBlocks ++ paddedBlocks ++ newBlocks

end Allocation

/-! ## Giving blocks back -/

/-- The backward loop of the align-mode `_remove_blocks_in_range`, which passes over null blocks. -/
def nullBackwardAll (isNull : KVCacheBlock → Bool) (nullBlock : KVCacheBlock) (firstBlock : ℕ) :
    ℕ → List KVCacheBlock → List KVCacheBlock × List KVCacheBlock
  | 0, row => ([], row)
  | n + 1, row =>
    match row[firstBlock + n]? with
    | none => nullBackwardAll isNull nullBlock firstBlock n row
    | some block =>
      if isNull block then nullBackwardAll isNull nullBlock firstBlock n row
      else
        let (freed, row') :=
          nullBackwardAll isNull nullBlock firstBlock n (row.set (firstBlock + n) nullBlock)
        (block :: freed, row')

/-- The align-mode `_remove_blocks_in_range`. -/
def mambaRemoveBlocksInRange (r : RequestId) (firstBlock lastBlock : ℕ) : GroupM H Unit := do
  let g ← get
  let blocks := g.mgr.reqToBlocks r
  let firstBlock := max firstBlock ((g.mgr.numRetiredBlocks r).getD 0)
  let lastBlock := min lastBlock blocks.length
  runIf (firstBlock < lastBlock) do
    let (freed, blocks') := nullBackwardAll g.pool.isNull g.pool.nullBlock firstBlock (lastBlock - firstBlock) blocks
    setRow r blocks'
    runIf (freed ≠ []) (onPool (BlockPool.freeBlocks freed))
    modifyMgr fun m => { m with numRetiredBlocks := update m.numRetiredBlocks r (some lastBlock) }

/-- The part of the align-mode `remove_skipped_blocks` that frees the state of two steps ago. -/
def removeLastState (cfg : GroupConfig) (r : RequestId) (processedComputedTokens : ℕ) : GroupM H Unit := do
  let g ← get
  match g.mgr.lastStateBlockIdx r with
  | none => return
  | some idx =>
    runIf (idx + 1 < cdiv processedComputedTokens cfg.blockSize) do
      let blocks := g.mgr.reqToBlocks r
      match blocks[idx]? with
      | none => throw .indexError
      | some block =>
        runIf (block ≠ g.pool.nullBlock) do
          onPool (BlockPool.freeBlocks [block])
          setRow r (blocks.set idx g.pool.nullBlock)

/-- The align-mode part of `pop_blocks_for_free`. -/
def mambaForget (r : RequestId) : GroupM H Unit :=
  modifyMgr fun m => { m with
    allocatedBlockReqs := update m.allocatedBlockReqs r false
    lastStateBlockIdx := update m.lastStateBlockIdx r none
    numRetiredBlocks := update m.numRetiredBlocks r none
    checkpoints := update m.checkpoints r none
    producerPartialTailReqs := update m.producerPartialTailReqs r none
    pendingBoundaryStateOffloads := m.pendingBoundaryStateOffloads.filter fun e => e.1 ≠ r }

/-! ## Caching -/

section Caching

variable [DecidableEq H] (cfg : GroupConfig) (request : Request H)

/-- The part of `_cache_partial_tail_block` for a chunk that exports a checkpoint inside itself. -/
def cacheCheckpoint (retentionInterval : Option ℕ)
    (checkpointPosition checkpointIdx : ℕ) : GroupM H (Option (BlockHashWithGroupId H)) := do
  let g ← get
  match (g.mgr.reqToBlocks request.requestId)[checkpointIdx]? with
  | none => throw (.assertionError "0 <= checkpoint_idx < len(blocks)")
  | some checkpointBlock => do
    let isPromptCheckpoint : Bool := checkpointPosition =
      getMambaPrefillCheckpointPosition request.numPromptTokens cfg.cacheHitAlignmentTokens cfg.dropEagleCheckpointBlock
    let isRetainedCheckpoint : Bool := checkpointPosition % cfg.blockSize = 0 &&
      (let blockIdx := checkpointPosition / cfg.blockSize - 1
       (cfg.mambaBlockMask blockIdx (blockIdx + 1) retentionInterval []).all (·[0]? = some true))
    if isPromptCheckpoint = false ∧ isRetainedCheckpoint = false ∧
        checkpointPosition ≠ request.sharedPrefixBoundary then
      -- the transient state overwrites the block, so its hash must go
      let _ ← onPool (BlockPool.maybeEvictCachedBlock checkpointBlock)
      return none
    else if g.pool.blockHashNumTokens checkpointBlock = some checkpointPosition then return none
    else onPool (BlockPool.cachePartialBlock request.hashed checkpointBlock checkpointPosition
      cfg.kvCacheGroupId cfg.blockSize true)

/-- The rest of `_cache_partial_tail_block`: the last hash boundary of the prompt, or the shared
prefix junction, when the chunk ends there. -/
def cacheTail (numTokens : ℕ) : GroupM H (Option (BlockHashWithGroupId H)) := do
  let g ← get
  let r := request.requestId
  let hashBlockSize := g.pool.hashBlockSize
  let latestPromptHashBoundary := getMambaPrefillCheckpointPosition request.numPromptTokens
    hashBlockSize cfg.dropEagleCheckpointBlock
  let atJunction : Bool := cfg.sharedPrefixCheckpoint && numTokens = request.sharedPrefixBoundary &&
    request.numComputedTokens < numTokens && numTokens ≤ request.numPromptTokens
  if numTokens = 0 ∨ numTokens % hashBlockSize ≠ 0 ∨
      (numTokens ≠ latestPromptHashBoundary ∧ atJunction = false) then return none
  else
    let blockIdx := cdiv numTokens cfg.blockSize - 1
    match (g.mgr.reqToBlocks r)[blockIdx]? with
    | none => return none
    | some sourceBlock =>
      if g.pool.isNull sourceBlock then return none
      else
        let partialHash ← onPool (BlockPool.cachePartialBlock request.hashed sourceBlock numTokens
          cfg.kvCacheGroupId cfg.blockSize false)
        runIf (partialHash.isSome ∧ numTokens % cfg.blockSize ≠ 0) (modifyMgr fun m => { m with
          partialHitReqs := update m.partialHitReqs r (some (blockIdx, sourceBlock))
          numCachedBlock := update m.numCachedBlock r (some blockIdx)
          producerPartialTailReqs :=
            update m.producerPartialTailReqs r (some (sourceBlock, numTokens)) })
        return partialHash

variable (numTokens : ℕ) (retentionInterval : Option ℕ)

/-- `MambaManager._cache_partial_tail_block`. -/
def mambaCachePartialTailBlock : GroupM H (Option (BlockHashWithGroupId H)) := do
  match (← get).mgr.checkpoints request.requestId with
  | some (checkpointPosition, checkpointIdx) =>
    cfg.cacheCheckpoint request retentionInterval checkpointPosition checkpointIdx
  | none => cfg.cacheTail request numTokens

/-- The loop that closes `MambaManager.cache_blocks`: the columns just cached are not hit again in
this step, and are offered to a connector. -/
def noteCachedStates (cfg : GroupConfig) (r : RequestId) (states : List KVCacheBlock) : GroupM H Unit :=
  forM states fun block => do
    let p := (← get).pool
    match p.isNull block, p.blockHash block with
    | false, some key => do
      check ((p.blockHashNumTokens block).isSome) (.assertionError "block.block_hash_num_tokens is not None")
      modifyMgr fun m => { m with
        cachedBlocksThisStep := m.cachedBlocksThisStep ++ [key]
        pendingBoundaryStateOffloads := m.pendingBoundaryStateOffloads ++
          [(r, cfg.kvCacheGroupId, block, (p.blockHashNumTokens block).getD 0)] }
    | _, _ => pure ()

/-- The align-mode `MambaManager.cache_blocks`. -/
def mambaCacheBlocks (replayBoundaries : List ℕ) : GroupM H Unit := do
  let r := request.requestId
  let numCachedBlocksBefore := ((← get).mgr.numCachedBlock r).getD 0
  cfg.baseCacheBlocks request numTokens retentionInterval replayBoundaries
  let numCachedBlocksAfter := ((← get).mgr.numCachedBlock r).getD 0
  let partialHash ← cfg.mambaCachePartialTailBlock request numTokens retentionInterval
  modifyMgr fun m => { m with cachedBlocksThisStep := m.cachedBlocksThisStep ++ partialHash.toList }
  let blocks := (← get).mgr.reqToBlocks r
  cfg.noteCachedStates r ((blocks.drop numCachedBlocksBefore).take (numCachedBlocksAfter - numCachedBlocksBefore))

/-! ## The methods of a manager -/

def getNumBlocksToAllocate (cfg : GroupConfig) (a : AllocArgs) : GroupM H ℤ :=
  match cfg.spec with
  | .mamba spec ckpt align => cfg.mambaGetNumBlocksToAllocate spec ckpt align a
  | _ => cfg.baseGetNumBlocksToAllocate a

def allocateNewBlocks (cfg : GroupConfig) (r : RequestId) (numTokens numTokensMainModel : ℕ) :
    GroupM H (List KVCacheBlock) :=
  match cfg.spec with
  | .mamba spec _ _ => cfg.mambaAllocateNewBlocks spec r numTokensMainModel
  | _ => cfg.baseAllocateNewBlocks r numTokens

def cacheBlocks (replayBoundaries : List ℕ) : GroupM H Unit :=
  match cfg.spec with
  | .mamba .. => cfg.mambaCacheBlocks request numTokens retentionInterval replayBoundaries
  | .fullAttention => cfg.fullCacheBlocks request numTokens retentionInterval replayBoundaries
  | _ => cfg.baseCacheBlocks request numTokens retentionInterval replayBoundaries

end Caching

section

variable (cfg : GroupConfig) (r : RequestId)

def popBlocksForFree : GroupM H (List KVCacheBlock) :=
  match cfg.spec with
  | .mamba .. => do mambaForget r; basePopBlocksForFree r
  | _ => basePopBlocksForFree r

/-- `free`: tail blocks first. -/
def free : GroupM H Unit := do
  let blocks ← cfg.popBlocksForFree r
  onPool (BlockPool.freeBlocks blocks.reverse)

def removeBlocksInRange (firstBlock lastBlock : ℕ) : GroupM H Unit :=
  match cfg.spec with
  | .mamba .. => mambaRemoveBlocksInRange r firstBlock lastBlock
  | _ => baseRemoveBlocksInRange r firstBlock lastBlock

def removeSkippedBlocks (processedComputedTokens : ℕ) : GroupM H Unit := do
  runIf (0 < cfg.getNumSkippedTokens processedComputedTokens) do
    let blocks := (← get).mgr.reqToBlocks r
    cfg.removeBlocksInRange r 0 (min (cfg.numSkippedBlocks processedComputedTokens) blocks.length)
  match cfg.spec with
  | .mamba .. => cfg.removeLastState r processedComputedTokens
  | _ => pure ()

end

/-- `new_step_starts`. -/
def newStepStarts (cfg : GroupConfig) : GroupM H Unit :=
  match cfg.spec with
  | .mamba .. => modifyMgr fun m => { m with cachedBlocksThisStep := [] }
  | _ => pure ()

end GroupConfig

end VllmRwkv
