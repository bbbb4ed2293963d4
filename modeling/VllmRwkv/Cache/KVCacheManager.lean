import VllmRwkv.Cache.Mamba

/-!
# The cache manager

`KVCacheCoordinator` of `v1/core/kv_cache_coordinator.py`, which runs every method on each group
in turn over the shared pool, and `KVCacheManager` of `v1/core/kv_cache_manager.py` on top of it.

`n` is the number of groups. `retained_hit_group_ids` is empty for the groups modelled here, and
encoder tokens are left out with cross-attention. The blocks of a hit are passed as one list per
group: `create_kv_cache_blocks` makes sure that the shared empty value is passed exactly when
all lists are empty.
-/

namespace VllmRwkv

open Raise

variable {H : Type} {n : ℕ}

/-- `SpecGroup`: groups that share one spec and are looked up together. -/
structure SpecGroup (n : ℕ) where
  firstGroupId : Fin n
  otherGroupIds : List (Fin n)
  useEagle : Bool

def SpecGroup.groupIds {n : ℕ} (g : SpecGroup n) : List (Fin n) := g.firstGroupId :: g.otherGroupIds

/-- What the coordinator and the cache manager are built with. -/
structure CacheConfig (n : ℕ) where
  groups : Fin n → GroupConfig
  maxModelLen : ℕ
  schedulerBlockSize : ℕ
  retentionInterval : Option ℕ
  numReprefillableTokens : ℕ
  eagleGroupIds : List (Fin n)
  /-- `HybridKVCacheCoordinator`; otherwise the base class's rules apply. -/
  hybrid : Bool
  enablePartialHashHits : Bool
  enableCaching : Bool
  watermarkBlocks : ℕ
  /-- The hybrid coordinator's `attention_groups`, full attention first. -/
  attentionGroups : List (SpecGroup n) := []

@[ext] structure KVCacheManager (H : Type) (n : ℕ) where
  pool : BlockPool H
  managers : Fin n → ManagerState H

abbrev KvM (H : Type) (n : ℕ) := EStateM PyErr (KVCacheManager H n)

namespace KVCacheManager

/-- A group's manager with the pool. -/
def group (s : KVCacheManager H n) (i : Fin n) : CacheGroup H := ⟨s.pool, s.managers i⟩

def putGroup (i : Fin n) (g : CacheGroup H) (s : KVCacheManager H n) : KVCacheManager H n :=
  ⟨g.pool, Function.update s.managers i g.mgr⟩

/-- Run a method of the manager of group `i`. -/
def onManager {α : Type} (i : Fin n) (m : GroupM H α) : KvM H n α :=
  zoom (fun s => s.group i) (putGroup i) m

def onPool {α : Type} (m : PoolM H α) : KvM H n α :=
  zoom pool (fun p s => { s with pool := p }) m

/-- Run a method of every manager in turn. -/
def forManagers (m : Fin n → GroupM H Unit) : KvM H n Unit :=
  forM (List.finRange n) fun i => onManager i (m i)

/-- `__init__`: a new pool and empty tables. -/
def init (numBlocks : ℕ) (enableCaching : Bool) (hashBlockSize : ℕ) (enableKvCacheEvents : Bool) :
    Except PyErr (KVCacheManager H n) :=
  (BlockPool.init numBlocks enableCaching hashBlockSize enableKvCacheEvents).map fun pool => ⟨pool, fun _ => .init⟩

/-- A new cache of one group, without events. -/
def fresh (numBlocks hashBlockSize : ℕ) : Option (KVCacheManager ℕ 1) :=
  (init numBlocks true hashBlockSize false).toOption

theorem init_ok {numBlocks hashBlockSize : ℕ} {enableCaching events : Bool} {kv : KVCacheManager H n}
    (h : init numBlocks enableCaching hashBlockSize events = .ok kv) :
    ∃ p, BlockPool.init numBlocks enableCaching hashBlockSize events = .ok p ∧ kv = ⟨p, fun _ => .init⟩ := by
  unfold init at h
  cases hpool : BlockPool.init numBlocks enableCaching hashBlockSize events with
  | error e =>
    rw [hpool] at h
    cases h
  | ok p =>
    rw [hpool] at h
    exact ⟨p, rfl, (Except.ok.inj h).symm⟩

end KVCacheManager

namespace CacheConfig

open KVCacheManager GroupConfig

/-! ## The coordinator -/

section Coordinator

variable [DecidableEq H]

/-- `KVCacheCoordinator.get_num_blocks_to_allocate`; `args i` are the arguments for group `i`. -/
def getNumBlocksToAllocate (cfg : CacheConfig n) (args : Fin n → AllocArgs) : KvM H n ℤ :=
  (List.finRange n).foldlM (fun numBlocksToAllocate i => do
    return numBlocksToAllocate + (← onManager i ((cfg.groups i).getNumBlocksToAllocate (args i)))) 0

-- by name, as for the keys of the hash map
instance : LawfulBEq (Fin n) := inferInstance

variable (cfg : CacheConfig n)

/-- `KVCacheCoordinator.allocate_new_computed_blocks`: the hits of every group are touched before
any group takes a block for external tokens. -/
def allocateNewComputedBlocks (r : RequestId) (newComputedBlocks : Fin n → List KVCacheBlock)
    (numLocalComputedTokens numExternalComputedTokens : ℕ) (skipZeroingGroupIds : List (Fin n)) : KvM H n Unit := do
  let s ← get
  if ∃ i, ((s.managers i).numCachedBlock r).isSome then
    check (∀ i, (newComputedBlocks i).length = 0)
      (.assertionError "all(len(blocks) == 0 for blocks in new_computed_blocks)")
  else do
    forManagers fun i => (cfg.groups i).addLocalComputedBlocks r (newComputedBlocks i)
      numLocalComputedTokens numExternalComputedTokens
    runIf (numExternalComputedTokens > 0) (forManagers fun i =>
      (cfg.groups i).allocateExternalComputedBlocks r numLocalComputedTokens
        numExternalComputedTokens (i ∉ skipZeroingGroupIds))

/-- `KVCacheCoordinator.allocate_new_blocks`: the new blocks of every group. -/
def allocateNewBlocks (cfg : CacheConfig n) (r : RequestId) (numTokens numTokensMainModel : ℕ) :
    KvM H n (Fin n → List KVCacheBlock) :=
  (List.finRange n).foldlM (fun newBlocks i => do
    let blocks ← onManager i ((cfg.groups i).allocateNewBlocks r numTokens numTokensMainModel)
    return Function.update newBlocks i blocks) fun _ => []

/-- `get_replay_boundaries`: where a later request that replays this prompt can resume. -/
def getReplayBoundaries (request : Request H) : List ℕ :=
  if cfg.eagleGroupIds = [] then [request.numPromptTokens - 1]
  else
    let block := cfg.schedulerBlockSize
    let resend := (request.numPromptTokens - 1) / block * block
    let extension := request.numPromptTokens / block * block
    [resend - block, extension - block].dedup

/-- `_align_cacheable`. -/
def alignCacheable (numTokens : ℕ) : ℕ :=
  if cfg.enablePartialHashHits then numTokens
  else numTokens / cfg.schedulerBlockSize * cfg.schedulerBlockSize

/-- `get_num_cacheable_tokens`, of the base class and of the hybrid coordinator. -/
def getNumCacheableTokens (numComputedTokens : ℕ) (i : Fin n) : ℕ :=
  let numFinalizedComputedTokens := numComputedTokens - cfg.numReprefillableTokens
  if cfg.hybrid then
    let cachedNumComputedTokens := cfg.alignCacheable numComputedTokens
    if (cfg.groups i).useEagle ∧ 0 < cachedNumComputedTokens then
      min numFinalizedComputedTokens (cfg.alignCacheable numFinalizedComputedTokens + (cfg.groups i).blockSize)
    else cachedNumComputedTokens
  else numFinalizedComputedTokens

/-- `KVCacheCoordinator.cache_blocks`. -/
def coordinatorCacheBlocks (request : Request H) (numComputedTokens : ℕ) : KvM H n Unit :=
  forManagers fun i => runIf (cfg.groups i).enableCaching
    ((cfg.groups i).cacheBlocks request (cfg.getNumCacheableTokens numComputedTokens i)
      cfg.retentionInterval (cfg.getReplayBoundaries request))

end Coordinator

/-! ## The cache manager -/

/-- The arguments of `allocate_slots` besides the request. -/
structure SlotArgs (n : ℕ) where
  numNewTokens : ℕ
  numNewComputedTokens : ℕ
  newComputedBlocks : Fin n → List KVCacheBlock
  numLookaheadTokens : ℕ
  numExternalComputedTokens : ℕ
  delayCacheBlocks : Bool
  fullSequenceMustFit : Bool
  reservedBlocks : ℕ
  hasScheduledReqs : Bool
  skipZeroingGroupIds : List (Fin n)

namespace SlotArgs

variable (a : SlotArgs n) (cfg : CacheConfig n) (request : Request H)

def numLocalComputedTokens : ℕ := request.numComputedTokens + a.numNewComputedTokens

/-- `total_computed_tokens`, capped at the model length. -/
def totalComputedTokens : ℕ :=
  min (a.numLocalComputedTokens request + a.numExternalComputedTokens) cfg.maxModelLen

def numTokensMainModel : ℕ := a.totalComputedTokens cfg request + a.numNewTokens

def numTokensNeedSlot : ℕ :=
  min (a.numTokensMainModel cfg request + a.numLookaheadTokens) cfg.maxModelLen

/-- Headroom is kept for waiting and preempted requests only, once another request is scheduled. -/
def watermarkBlocks : ℕ :=
  if a.hasScheduledReqs ∧ (request.status = .waiting ∨ request.status = .preempted) then
    cfg.watermarkBlocks
  else 0

/-- `prefill_end`, which the coordinator drops unless only the last boundary is retained. -/
def prefillEnd : ℕ :=
  if cfg.retentionInterval = some 0 then max request.numPromptTokens (request.numTokens - 1) else 0

/-- Every token up to which slots already processed may be given up. -/
def processedComputedTokens : ℕ :=
  ((a.totalComputedTokens cfg request : ℤ) - request.numInFlightTokens).toNat

/-- The arguments of the check that the whole sequence fits. -/
def fullSequence (i : Fin n) : AllocArgs where
  requestId := request.requestId
  numTokens := min request.numTokens cfg.maxModelLen
  newComputedBlocks := a.newComputedBlocks i
  totalComputedTokens := a.totalComputedTokens cfg request
  numLocalComputedTokens := a.numLocalComputedTokens request
  numTokensMainModel := min request.numTokens cfg.maxModelLen
  applyAdmissionCap := true
  prefillEnd := prefillEnd cfg request

/-- The arguments of the check that this step fits. -/
def thisStep (i : Fin n) : AllocArgs where
  requestId := request.requestId
  numTokens := a.numTokensNeedSlot cfg request
  newComputedBlocks := a.newComputedBlocks i
  totalComputedTokens := a.numLocalComputedTokens request + a.numExternalComputedTokens
  numLocalComputedTokens := a.numLocalComputedTokens request
  numTokensMainModel := a.numTokensMainModel cfg request
  applyAdmissionCap := false
  prefillEnd := prefillEnd cfg request

end SlotArgs

section Manager

variable [DecidableEq H]

section

variable (cfg : CacheConfig n) (request : Request H) (a : SlotArgs n)

/-- The admission gate of `allocate_slots`: whether the whole sequence fits, when the caller asks. -/
def fullSequenceFits : KvM H n Bool :=
  if a.fullSequenceMustFit then do
    let numBlocksToAllocate ← cfg.getNumBlocksToAllocate fun i => a.fullSequence cfg request i
    return numBlocksToAllocate + a.watermarkBlocks cfg request ≤ (← get).pool.getNumFreeBlocks
  else return true

/-- The first half of `allocate_slots`: out-of-window blocks are freed, and the blocks this step
needs are counted. -/
def predictSlots : KvM H n ℤ := do
  forManagers fun i =>
    (cfg.groups i).removeSkippedBlocks request.requestId (a.processedComputedTokens cfg request)
  cfg.getNumBlocksToAllocate fun i => a.thisStep cfg request i

/-- The second half of `allocate_slots`: hits are adopted and blocks are taken. -/
def takeSlots : KvM H n (Fin n → List KVCacheBlock) := do
  runIf ((∃ i, a.newComputedBlocks i ≠ []) ∨ a.numExternalComputedTokens > 0)
    (cfg.allocateNewComputedBlocks request.requestId a.newComputedBlocks
      (a.numLocalComputedTokens request) a.numExternalComputedTokens a.skipZeroingGroupIds)
  cfg.allocateNewBlocks request.requestId (a.numTokensNeedSlot cfg request) (a.numTokensMainModel cfg request)

def allocateSlots : KvM H n (Option (Fin n → List KVCacheBlock)) := do
  check (¬ (a.numNewTokens = 0 ∧ a.numExternalComputedTokens = 0 ∧ a.numNewComputedTokens = 0))
    (.valueError "num_new_tokens must be greater than 0 when there are no computed tokens to adopt")
  if ← cfg.fullSequenceFits request a then
    let numBlocksToAllocate ← cfg.predictSlots request a
    let availableBlocks := (← get).pool.getNumFreeBlocks - a.reservedBlocks
    if numBlocksToAllocate + a.watermarkBlocks cfg request > availableBlocks then return none
    else
      let newBlocks ← cfg.takeSlots request a
      runIf (a.delayCacheBlocks = false) (cfg.coordinatorCacheBlocks request
        (min (a.totalComputedTokens cfg request + a.numNewTokens) request.numTokens))
      return some newBlocks
  else return none

end

def free (cfg : CacheConfig n) (r : RequestId) : KvM H n Unit :=
  forManagers fun i => (cfg.groups i).free r

def removeSkippedBlocks (cfg : CacheConfig n) (r : RequestId) (processedComputedTokens : ℕ) : KvM H n Unit :=
  forManagers fun i => (cfg.groups i).removeSkippedBlocks r processedComputedTokens

/-- `pop_blocks_for_free`: the blocks of the request in allocation order, group after group. -/
def popBlocksForFree (cfg : CacheConfig n) (r : RequestId) : KvM H n (List KVCacheBlock) :=
  (List.finRange n).foldlM (fun blocks i => do
    return blocks ++ (← onManager i ((cfg.groups i).popBlocksForFree r))) []

/-- `cache_blocks`. -/
def cacheBlocks (cfg : CacheConfig n) (request : Request H) (numComputedTokens : ℕ) : KvM H n Unit :=
  runIf cfg.enableCaching (cfg.coordinatorCacheBlocks request numComputedTokens)

/-- `new_step_starts`. -/
def newStepStarts (cfg : CacheConfig n) : KvM H n Unit :=
  forManagers fun i => (cfg.groups i).newStepStarts

/-- `take_kv_cache_block_copies`: the copies to run, and the blocks kept alive for them. -/
def takeKvCacheBlockCopies : KvM H n (List (KVCacheBlock × KVCacheBlock) × List KVCacheBlock) := do
  let pendingCopies ← (List.finRange n).foldlM (fun pending i => do
    let copies := ((← get).managers i).pendingCowCopies
    onManager i (CacheGroup.modifyMgr fun m => { m with pendingCowCopies := [] })
    return pending ++ copies) []
  return (pendingCopies, pendingCopies.flatMap fun c => [c.1, c.2])

/-- `take_boundary_state_offloads`: the states a connector may store, drained in every step. -/
def takeBoundaryStateOffloads : KvM H n (List (RequestId × ℕ × KVCacheBlock × ℕ)) :=
  (List.finRange n).foldlM (fun offloads i => do
    let pending := ((← get).managers i).pendingBoundaryStateOffloads
    onManager i (CacheGroup.modifyMgr fun m => { m with pendingBoundaryStateOffloads := [] })
    return offloads ++ pending) []

/-- `take_new_block_ids`. -/
def takeNewBlockIds : KvM H n (List KVCacheBlock) :=
  (List.finRange n).foldlM (fun ids i => do
    let newIds := ((← get).managers i).newBlockIds
    onManager i (CacheGroup.modifyMgr fun m => { m with newBlockIds := [] })
    return ids ++ newIds) []

/-- `finalize_partial_tail_offloads`: every group forgets the tail of the request; what a connector
receives of it is left out. -/
def finalizePartialTailOffloads (r : RequestId) : KvM H n Unit :=
  forManagers fun _ => CacheGroup.modifyMgr fun m =>
    { m with producerPartialTailReqs := Function.update m.producerPartialTailReqs r none }

/-- `evict_blocks`. -/
def evictBlocks (blockIds : List ℕ) : KvM H n Unit := onPool (BlockPool.evictBlocks blockIds)

/-- `reset_prefix_cache`. -/
def resetPrefixCache : KvM H n Bool := onPool BlockPool.resetPrefixCache

end Manager

end CacheConfig

end VllmRwkv
