import VllmRwkv.Cache.KVCacheManager

/-!
# Prefix-cache hits

`find_longest_cache_hit` of the four manager classes and of the two coordinators, and
`KVCacheManager.get_computed_blocks`. A lookup serves several groups at once; its hit is kept
as one row per block position, a row holding one block for each group.

Context parallelism and the `BlockStored` events of the full report mode are left out.
-/

namespace VllmRwkv

variable {H : Type} {n : ℕ}

/-- A hit: one row per block position, and its length in tokens. -/
abbrev Hit := List (List KVCacheBlock) × ℕ

/-- The arguments of a lookup. -/
structure LookupArgs (H : Type) where
  blockHashes : List H
  maxLength : ℕ
  kvCacheGroupIds : List ℕ
  blockSize : ℕ
  dropEagleBlock : Bool
  alignmentTokens : ℕ

namespace LookupArgs

variable (a : LookupArgs H) (p : BlockPool H)

/-- Hits may end inside a block. -/
def fineGrained : Bool := a.alignmentTokens < a.blockSize && a.blockSize % a.alignmentTokens = 0

/-- `resolve_block_hashes` with the class's `supports_fine_grained_hash_lookup`. -/
def resolveBlockHashes (supportsFineGrainedHashLookup : Bool) : Except PyErr (List H) :=
  if a.blockSize ≠ p.hashBlockSize && supportsFineGrainedHashLookup && a.fineGrained then
    .ok a.blockHashes
  else BlockPool.resolveBlockHashes a.blockHashes p.hashBlockSize a.blockSize

def nullRow : List KVCacheBlock := a.kvCacheGroupIds.map fun _ => p.nullBlock

/-- The row of a hash, if every group has it cached. -/
def cachedRow (blockHash : H) : Option (List KVCacheBlock) :=
  p.getCachedBlock blockHash a.kvCacheGroupIds

/-- The longest run of cached hashes from the start. -/
def cachedRun : List H → List (List KVCacheBlock)
  | [] => []
  | h :: hs =>
    match a.cachedRow p h with
    | none => []
    | some row => row :: cachedRun hs

/-- The last index below `bound` and from `first` on whose hash is cached. -/
def lastCached (hashes : List H) (first : ℕ) : ℕ → Option (ℕ × List KVCacheBlock)
  | 0 => none
  | i + 1 =>
    if i < first then none
    else
      match (hashes[i]?).bind (a.cachedRow p) with
      | some row => some (i, row)
      | none => lastCached hashes first i

/-- Pop rows until the length is aligned. -/
def popUnaligned (rows : List (List KVCacheBlock)) : List (List KVCacheBlock) :=
  if a.blockSize = a.alignmentTokens then rows else rows.take (go rows.length)
where
  go : ℕ → ℕ
    | 0 => 0
    | k + 1 => if (k + 1) * a.blockSize % a.alignmentTokens = 0 then k + 1 else go k

/-! ## The four classes -/

/-- `FullAttentionManager.find_longest_cache_hit`: a run of full blocks, extended into the next block
when hits may end inside one. -/
def fullFindLongestCacheHit : Except PyErr Hit := do
  let blockHashes ← a.resolveBlockHashes p true
  let scaleFactor := a.blockSize / a.alignmentTokens
  let fullBlockHashes ←
    if a.fineGrained then BlockPool.resolveBlockHashes blockHashes a.alignmentTokens a.blockSize
    else .ok blockHashes
  let run := a.cachedRun p (fullBlockHashes.take (a.maxLength / a.blockSize))
  let firstPartialIdx := run.length * scaleFactor
  let maxPartialIdx :=
    min (min (firstPartialIdx + scaleFactor - 1) (a.maxLength / a.alignmentTokens)) blockHashes.length
  let (rows, hitLength) :=
    match if a.fineGrained then a.lastCached p blockHashes firstPartialIdx maxPartialIdx else none with
    | some (fineIdx, row) => (run ++ [row], (fineIdx + 1) * a.alignmentTokens)
    | none => (run, run.length * a.blockSize)
  let hitLength :=
    if a.dropEagleBlock ∧ hitLength > 0 then hitLength - min a.alignmentTokens a.blockSize
    else hitLength
  let hitLength := hitLength - hitLength % a.alignmentTokens
  return (rows.take (cdiv hitLength a.blockSize), hitLength)

/-- The scan of `SlidingWindowManager.find_longest_cache_hit` from right to left, the given number of
blocks being still to visit; `numContiguousBlocks` cached rows are at the left end of `rows`, which
starts after them. It returns the rows of the match. -/
def windowScan (hashes : List H) (needed : ℕ) :
    ℕ → List (List KVCacheBlock) → ℕ → Except PyErr (List (List KVCacheBlock))
  | 0, rows, numContiguousBlocks =>
    -- no match: the blocks contiguous with the start are a hit of their own
    .ok (a.popUnaligned (rows.take numContiguousBlocks))
  | i + 1, rows, numContiguousBlocks =>
    match hashes[i]? with
    | none => .error .indexError
    | some h =>
      match a.cachedRow p h with
      | none => windowScan hashes needed i (a.nullRow p :: rows) 0
      | some row =>
        let postPopBlocks := if a.dropEagleBlock then i else i + 1
        if numContiguousBlocks = 0 ∧ a.blockSize ≠ a.alignmentTokens ∧
            postPopBlocks * a.blockSize % a.alignmentTokens ≠ 0 then
          windowScan hashes needed i (a.nullRow p :: rows) 0
        else if needed ≤ numContiguousBlocks + 1 then
          .ok (List.replicate i (a.nullRow p) ++ (row :: rows).take (numContiguousBlocks + 1))
        else windowScan hashes needed i (row :: rows) (numContiguousBlocks + 1)

/-- `SlidingWindowManager.find_longest_cache_hit`. -/
def windowFindLongestCacheHit (slidingWindow : ℕ) : Except PyErr Hit := do
  let blockHashes ← a.resolveBlockHashes p false
  let needed := GroupConfig.contiguousBlocksForHit slidingWindow a.blockSize a.dropEagleBlock
  let rows ← a.windowScan p blockHashes needed (a.maxLength / a.blockSize) [] 0
  let rows := if a.dropEagleBlock ∧ rows ≠ [] then a.popUnaligned rows.dropLast else rows
  return (rows, rows.length * a.blockSize)

/-- `ChunkedLocalAttentionManager.find_longest_cache_hit`: blocks before the current chunk count as
computed. -/
def chunkedFindLongestCacheHit (attentionChunkSize : ℕ) : Except PyErr Hit := do
  if a.dropEagleBlock then
    throw (.assertionError "Hybrid KV cache is not supported for eagle + chunked local attention.")
  if a.blockSize ≠ a.alignmentTokens then
    throw (.assertionError ("KV cache groups with different block sizes are not compatible with " ++
      "chunked local attention now"))
  let blockHashes ← a.resolveBlockHashes p false
  let startBlockIdx := a.maxLength / attentionChunkSize * attentionChunkSize / a.blockSize
  let run ← chunkScan blockHashes (a.maxLength / a.blockSize - startBlockIdx) startBlockIdx
  let rows := List.replicate startBlockIdx (a.nullRow p) ++ run
  return (rows, rows.length * a.blockSize)
where
  /-- The run of cached blocks from block `i` on, over at most the given number of blocks. -/
  chunkScan (blockHashes : List H) : ℕ → ℕ → Except PyErr (List (List KVCacheBlock))
    | 0, _ => .ok []
    | k + 1, i =>
      match blockHashes[i]? with
      | none => .error .indexError
      | some h =>
        match a.cachedRow p h with
        | none => .ok []
        | some row => (chunkScan blockHashes k (i + 1)).map (row :: ·)

/-- `MambaManager.find_longest_cache_hit`: only the last state matters. -/
def mambaFindLongestCacheHit : Except PyErr Hit := do
  let blockHashes ← a.resolveBlockHashes p true
  if a.fineGrained then
    let scaleFactor := a.blockSize / a.alignmentTokens
    let maxNumPartialUnits := min (a.maxLength / a.alignmentTokens) blockHashes.length
    match a.lastCached p blockHashes 0 maxNumPartialUnits with
    | none => return ([], 0)
    | some (fineIdx, row) =>
      return (List.replicate (fineIdx / scaleFactor) (a.nullRow p) ++ [row], (fineIdx + 1) * a.alignmentTokens)
  else stateScan blockHashes (a.maxLength / a.blockSize)
where
  stateScan (blockHashes : List H) : ℕ → Except PyErr Hit
    | 0 => .ok ([], 0)
    | i + 1 =>
      match blockHashes[i]? with
      | none => .error .indexError
      | some h =>
        match a.cachedRow p h with
        | none => stateScan blockHashes i
        | some row =>
          if a.blockSize ≠ a.alignmentTokens ∧ (i + 1) * a.blockSize % a.alignmentTokens ≠ 0 then
            stateScan blockHashes i
          else .ok (List.replicate i (a.nullRow p) ++ [row], (i + 1) * a.blockSize)

/-- `find_longest_cache_hit` of the class that manages a spec. -/
def findLongestCacheHit (spec : KVCacheSpec) : Except PyErr Hit :=
  match spec with
  | .fullAttention => a.fullFindLongestCacheHit p
  | .slidingWindow window _ => a.windowFindLongestCacheHit p window
  | .chunkedLocalAttention chunk => a.chunkedFindLongestCacheHit p chunk
  | .mamba .. => a.mambaFindLongestCacheHit p

end LookupArgs

/-! ## The coordinators -/

namespace CacheConfig

/-- The block lists of the groups `groupIds`, from the rows of a joint hit. -/
def splitRows (rows : List (List KVCacheBlock)) (groupIds : List (Fin n)) (i : Fin n) : List KVCacheBlock :=
  rows.filterMap fun row => row[groupIds.idxOf i]?

section

variable (cfg : CacheConfig n) (p : BlockPool H) (blockHashes : List H) (maxCacheHitLength : ℕ)

/-- `UnitaryKVCacheCoordinator.find_longest_cache_hit`. -/
def unitaryFindLongestCacheHit : Except PyErr ((Fin n → List KVCacheBlock) × ℕ × ℕ) :=
  match List.finRange n with
  | [] => .ok (fun _ => [], 0, 0)
  | i :: _ => do
    let g := cfg.groups i
    let (rows, hitLength) ← LookupArgs.findLongestCacheHit
      { blockHashes, maxLength := maxCacheHitLength, kvCacheGroupIds := [g.kvCacheGroupId]
        blockSize := g.blockSize, dropEagleBlock := i ∈ cfg.eagleGroupIds
        alignmentTokens := g.blockSize } p g.spec
    return (splitRows rows [i], hitLength, 0)

/-- `eagle_proof_margin`. -/
def eagleProofMargin (blockSize hashBlockSize : ℕ) (fineGrainedLookup : Bool) : ℕ :=
  if fineGrainedLookup ∧ hashBlockSize < blockSize then hashBlockSize else blockSize

/-- `_cache_hit_alignment_tokens`. -/
def cacheHitAlignmentTokens (cfg : CacheConfig n) (p : BlockPool H) : ℕ :=
  if cfg.enablePartialHashHits then p.hashBlockSize else cfg.schedulerBlockSize

/-- The local variables of the hybrid coordinator's `find_longest_cache_hit`. -/
structure HitSearch (n : ℕ) where
  currHitLength : ℕ
  longestHitLength : ℕ
  hitBlocksByGroup : Fin n → Option (List KVCacheBlock)
  hitLengthByGroup : Fin n → ℕ
  eagleVerified : List ℕ

/-- One round of the inner loop of the hybrid coordinator: attention group `idx` accepts the current
length or reduces it. -/
def searchGroup (idx : ℕ) (group : SpecGroup n) (st : HitSearch n) : Except PyErr (HitSearch n) := do
  let g := cfg.groups group.firstGroupId
  if g.spec = .fullAttention ∧ (st.hitBlocksByGroup group.firstGroupId).isSome then
    -- full attention is downward-closed: its lookup is only trimmed
    return { st with currHitLength := min st.currHitLength (st.hitLengthByGroup group.firstGroupId) }
  let dropEagleBlock := group.useEagle && idx ∉ st.eagleVerified
  let maxLength :=
    if dropEagleBlock ∧ g.isMamba = false then
      min (st.currHitLength + eagleProofMargin g.blockSize p.hashBlockSize
          (cfg.enablePartialHashHits && g.spec = .fullAttention))
        (blockHashes.length * p.hashBlockSize)
    else st.currHitLength
  let (rows, newHitLength) ← LookupArgs.findLongestCacheHit
    { blockHashes, maxLength, dropEagleBlock, blockSize := g.blockSize
      kvCacheGroupIds := group.groupIds.map fun i => (cfg.groups i).kvCacheGroupId
      alignmentTokens := cfg.cacheHitAlignmentTokens p } p g.spec
  let member := fun i => i ∈ group.groupIds
  return {
    currHitLength := newHitLength
    longestHitLength := max st.longestHitLength newHitLength
    hitBlocksByGroup := fun i =>
      if member i then some (splitRows rows group.groupIds i) else st.hitBlocksByGroup i
    hitLengthByGroup := fun i => if member i then newHitLength else st.hitLengthByGroup i
    eagleVerified :=
      if dropEagleBlock then idx :: st.eagleVerified
      else if newHitLength < st.currHitLength then [] else st.eagleVerified }

/-- One pass of the outer loop over all attention groups. -/
def searchGroups (st : HitSearch n) : Except PyErr (HitSearch n) :=
  cfg.attentionGroups.zipIdx.foldlM (fun st g => cfg.searchGroup p blockHashes g.2 g.1 st) st

/-- One full-attention type and one other: a single pass suffices. -/
def isSimpleHybrid (cfg : CacheConfig n) : Bool :=
  match cfg.attentionGroups with
  | [g, _] => (cfg.groups g.firstGroupId).spec = .fullAttention
  | _ => false

/-- The outer loop: passes until the length is stable. Every pass but the last makes `hitLength`
smaller, so `hitLength + 1` passes are enough. -/
def searchLoop (cfg : CacheConfig n) (p : BlockPool H) (blockHashes : List H) :
    ℕ → ℕ → HitSearch n → Except PyErr (ℕ × HitSearch n)
  | 0, hitLength, st => .ok (hitLength, st)
  | fuel + 1, hitLength, st => do
    let st ← cfg.searchGroups p blockHashes { st with currHitLength := hitLength }
    if st.currHitLength ≥ hitLength then return (hitLength, st)
    else if cfg.isSimpleHybrid then return (st.currHitLength, st)
    else cfg.searchLoop p blockHashes fuel st.currHitLength st

/-- `HybridKVCacheCoordinator.find_longest_cache_hit`. -/
def hybridFindLongestCacheHit : Except PyErr ((Fin n → List KVCacheBlock) × ℕ × ℕ) := do
  let start : HitSearch n := ⟨maxCacheHitLength, 0, fun _ => none, fun _ => 0, []⟩
  let (hitLength, st) ← cfg.searchLoop p blockHashes (maxCacheHitLength + 1) maxCacheHitLength start
  let blocks := fun i =>
    let found := (st.hitBlocksByGroup i).getD []
    if (cfg.groups i).spec = .fullAttention then found.take (cdiv hitLength (cfg.groups i).blockSize)
    else found
  return (blocks, hitLength, st.longestHitLength - hitLength)

/-- `find_longest_cache_hit` of the coordinator in use. -/
def findLongestCacheHit : Except PyErr ((Fin n → List KVCacheBlock) × ℕ × ℕ) :=
  if cfg.hybrid then cfg.hybridFindLongestCacheHit p blockHashes maxCacheHitLength
  else cfg.unitaryFindLongestCacheHit p blockHashes maxCacheHitLength

/-- `get_computed_blocks`: the hit blocks of every group, the hit length and the boundary of a shared
prefix that some group has not cached yet. -/
def getComputedBlocks (cfg : CacheConfig n) (request : Request H) : KvM H n ((Fin n → List KVCacheBlock) × ℕ × ℕ) := do
  if cfg.enableCaching = false ∨ request.skipReadingPrefixCache then return (fun _ => [], 0, 0)
  match cfg.findLongestCacheHit (← get).pool request.blockHashes (request.numTokens - 1) with
  | .error e => throw e
  | .ok (blocks, numNewComputedTokens, numUncached) =>
    return (blocks, numNewComputedTokens, if numUncached ≠ 0 then numNewComputedTokens + numUncached else 0)

/-- `find_longest_cache_hit_per_group`: every attention group on its own. -/
def findLongestCacheHitPerGroup : Except PyErr ((Fin n → List KVCacheBlock) × (Fin n → ℕ)) :=
  cfg.attentionGroups.foldlM (fun found group => do
    let g := cfg.groups group.firstGroupId
    let maxLength :=
      if group.useEagle ∧ g.isMamba = false then
        min (maxCacheHitLength + eagleProofMargin g.blockSize p.hashBlockSize
            (cfg.enablePartialHashHits && g.spec = .fullAttention))
          (blockHashes.length * p.hashBlockSize)
      else maxCacheHitLength
    let (rows, groupHit) ← LookupArgs.findLongestCacheHit
      { blockHashes, maxLength, dropEagleBlock := group.useEagle, blockSize := g.blockSize
        kvCacheGroupIds := group.groupIds.map fun i => (cfg.groups i).kvCacheGroupId
        alignmentTokens := cfg.cacheHitAlignmentTokens p } p g.spec
    return (fun i => if i ∈ group.groupIds then splitRows rows group.groupIds i else found.1 i,
      fun i => if i ∈ group.groupIds then groupHit else found.2 i)) (fun _ => [], fun _ => 0)

end

variable (cfg : CacheConfig n)

/-- `full_attention_group_id`. -/
def fullAttentionGroupId : Option (Fin n) :=
  match cfg.attentionGroups with
  | [] => none
  | g :: _ =>
    if (cfg.groups g.firstGroupId).spec = .fullAttention then some g.firstGroupId else none

/-- `get_computed_blocks_for_connector`: the full-attention hit, which may run deeper than that of
another group; the last component tells when it does. -/
def getComputedBlocksForConnector (request : Request H) : KvM H n ((Fin n → List KVCacheBlock) × ℕ × ℕ × Bool) := do
  let reconciled : KvM H n ((Fin n → List KVCacheBlock) × ℕ × ℕ × Bool) := do
    let (blocks, numLocal, boundary) ← cfg.getComputedBlocks request
    return (blocks, numLocal, boundary, false)
  match cfg.fullAttentionGroupId with
  | none => reconciled
  | some fa =>
    if cfg.hybrid = false ∨ ∀ i, (cfg.groups i).isMamba = false then reconciled
    else if cfg.enableCaching = false ∨ request.skipReadingPrefixCache then
      return (fun _ => [], 0, 0, false)
    else
      match cfg.findLongestCacheHitPerGroup (← get).pool request.blockHashes (request.numTokens - 1) with
      | .error e => throw e
      | .ok (blocks, hits) =>
        -- a group deeper than full attention: the full-attention blocks were evicted
        if ∃ i, hits fa < hits i then reconciled
        else return (blocks, hits fa, 0, decide (∃ i, hits i < hits fa))

/-- `truncate_computed_blocks`: the blocks of the first `numTokens` tokens. -/
def truncateComputedBlocks (blocks : Fin n → List KVCacheBlock) (numTokens : ℕ) :
    Except PyErr (Fin n → List KVCacheBlock) :=
  let numBlocks := fun i => numTokens / (cfg.groups i).blockSize
  if ∀ i, numTokens % (cfg.groups i).blockSize = 0 then
    if ∀ i, (cfg.groups i).isMamba = false → numBlocks i ≤ (blocks i).length then
      .ok fun i => (blocks i).take (numBlocks i)
    else .error (.assertionError "num_blocks <= len(group_blocks)")
  else .error (.assertionError "num_computed_tokens % manager.block_size == 0")

end CacheConfig

end VllmRwkv
