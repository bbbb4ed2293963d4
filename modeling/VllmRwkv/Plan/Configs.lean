import VllmRwkv.Plan.Specs

/-!
# The plan of the KV cache for all workers

`get_kv_cache_configs` of `vllm/v1/core/kv_cache_utils.py`: the groups are made for the whole
model, projected to each worker, and each worker's memory is divided into blocks. The worker with
the fewest blocks decides, and the others are planned again with the memory of that many.

The host pools of HiSparse, the replica counts and the log lines are not modelled.
-/

open Strided

namespace VllmRwkv

/-! ## Layouts -/

/-- The logical axes of a cache. -/
inductive Dim where
  | L | B | H | N | C
  deriving DecidableEq, Repr

/-- `KVCacheLayout`. -/
inductive KVCacheLayout where
  | LBHNC | LBNHC | LHBNC | BLHNC | BLNHC | BHLNC
  deriving DecidableEq, Repr

namespace KVCacheLayout

/-- `stride_order`: the axes from the outermost to the innermost. -/
def strideOrder : KVCacheLayout → List Dim
  | LBHNC => [.L, .B, .H, .N, .C]
  | LBNHC => [.L, .B, .N, .H, .C]
  | LHBNC => [.L, .H, .B, .N, .C]
  | BLHNC => [.B, .L, .H, .N, .C]
  | BLNHC => [.B, .L, .N, .H, .C]
  | BHLNC => [.B, .H, .L, .N, .C]

variable (layout : KVCacheLayout)

def isLayerCompact : Bool := layout.strideOrder.head? = some .L

def isBlockCompact : Bool :=
  layout.strideOrder.take 2 = [.L, .B] || layout.strideOrder.take 2 = [.B, .L]

def isBlockOutermost : Bool := layout.strideOrder.head? = some .B

end KVCacheLayout

/-- The methods of a spec class that the planning calls. -/
class PlanSpec (S : Type) extends LayerSpec S where
  isRegistered : S → Bool
  /-- `replace(spec, extra_retained_tokens=..)` of a sliding-window spec. -/
  withExtraRetainedTokens : S → ℕ → S
  numHeads : S → ℕ
  numStates : S → ℕ
  stateContentSizeBytes : S → ℕ
  pageSizePadded : S → Option ℕ
  /-- `get_block_stride_alignment`. -/
  blockStrideAlignment : S → ℕ
  externalBytesPerPage : S → ℕ
  externalFixedMemoryBytes : S → ℕ
  /-- `max_memory_usage_bytes` for a maximum model length. -/
  maxMemoryUsageBytes : ℕ → S → Planned ℕ

def roundUp (x y : ℕ) : ℕ := cdiv x y * y

section

variable {S : Type} [PlanSpec S] [DecidableEq S]

open LayerSpec PlanSpec

/-! ## Strides -/

section

variable (spec : S) (numBlocks numLayers : ℕ)

/-- The extent of an axis. -/
def extent : Dim → ℕ
  | .L => numLayers
  | .B => numBlocks
  | .H => numHeads spec
  | .N => numStates spec
  | .C => stateContentSizeBytes spec

/-- The loop of `compute_layout_strides`, from the innermost axis out. `grid` is the innermost of
the layer and block axes, where a padded page starts. -/
def strideLoop (shape : Dim → ℕ) (padded : Option ℕ) (grid : Dim) (blockStride : Option ℕ) :
    List Dim → ℕ → (Dim → ℕ) → Planned (Dim → ℕ)
  | [], _, strides => .ok strides
  | dim :: outer, current, strides => do
    let current ← match padded with
      | some p =>
        if dim = grid then
          if p = 0 then .error .zeroDivisionError
          else if max current p % p = 0 then .ok (max current p)
          else .error (.assertionError "current_stride % padded_page_size == 0")
        else .ok current
      | none => .ok current
    let stride := if dim = .B then blockStride.getD current else current
    strideLoop shape padded grid blockStride outer (stride * shape dim) (Function.update strides dim stride)

/-- `compute_layout_strides`, with the block stride fixed or not. -/
def computeLayoutStrides (layout : KVCacheLayout) (blockStride : Option ℕ) : Planned (Dim → ℕ) := do
  if blockStride = some 0 then throw (.assertionError "all(stride is None or stride > 0 for stride in fixed_strides)")
  let shape := extent spec numBlocks numLayers
  let order := layout.strideOrder
  let outer := order.take (max (order.idxOf .L) (order.idxOf .B) + 1)
  if (pageSizePadded spec).isSome ∧ (outer.map shape).prod ≠ numLayers * numBlocks then
    throw (.assertionError "Page padding requires dimensions outside the page tail to be L, B, or singleton")
  strideLoop shape (pageSizePadded spec) (outer.getLast?.getD .L) blockStride order.reverse 1 fun _ => 0

end

/-! ## One worker -/

/-- `KVCacheTensor`. -/
structure KVCacheTensor where
  size : ℕ
  layers : List LayerName
  layerStride : ℕ
  blockStride : ℕ
  offset : ℕ

/-- `KVCacheConfig`. -/
structure KVCacheConfig (S : Type) where
  numBlocks : ℕ
  kvCacheTensors : List KVCacheTensor
  kvCacheGroups : List (KVCacheGroupSpec S)

structure PlanConfig where
  layout : KVCacheLayout
  disableHybridKvCacheManager : Bool := false
  numGpuBlocksOverride : Option ℕ := none
  maxModelLen : ℕ
  /-- `original_max_model_len == -1`. -/
  autoFit : Bool := false
  numPrefillLookaheadTokens : ℕ := 0

/-- `_get_per_layer_spec` of all layers of a group. -/
def layerSpecs (g : KVCacheGroupSpec S) : List S :=
  match g.kvCacheSpec with
  | .one spec => g.layerNames.map fun _ => spec
  | .uniformType specs => specsFor specs g.layerNames

/-- `_get_layer_block_stride`. -/
def layerBlockStride (spec : S) : ℕ := roundUp (pageSizeBytes spec) (blockStrideAlignment spec)

section

variable (layout : KVCacheLayout) (groups : List (KVCacheGroupSpec S))

/-- `_get_kv_cache_bytes_per_block`; the largest of no groups cannot be taken. -/
def kvCacheBytesPerBlock : Planned ℕ :=
  if layout.isBlockOutermost then
    match (groups.map fun g => ((layerSpecs g).map pageSizeBytes).sum).max? with
    | none => .error (.valueError "max() iterable argument is empty")
    | some bytesPerBlock =>
      if bytesPerBlock = 0 then .error (.assertionError "bytes_per_block > 0")
      else .ok (roundUp bytesPerBlock (((groups.flatMap layerSpecs).map blockStrideAlignment).foldl Nat.lcm 1))
  else
    match (groups.map fun g => ((layerSpecs g).map layerBlockStride).sum).max? with
    | none => .error (.valueError "max() iterable argument is empty")
    | some bytesPerBlock => .ok bytesPerBlock

/-- `_get_external_kv_cache_bytes_per_block`. -/
def externalKvCacheBytesPerBlock (groups : List (KVCacheGroupSpec S)) : ℕ :=
  ((groups.flatMap layerSpecs).map externalBytesPerPage).sum

/-- `_pool_bytes_per_block`. -/
def poolBytesPerBlock : Planned ℕ := do
  return (← kvCacheBytesPerBlock layout groups) + externalKvCacheBytesPerBlock groups

/-- `_pool_fixed_memory_bytes`. -/
def poolFixedMemoryBytes (groups : List (KVCacheGroupSpec S)) : ℕ :=
  ((groups.flatMap layerSpecs).map externalFixedMemoryBytes).sum

/-- `validate_kv_cache_layout`. -/
def validateKvCacheLayout : Planned Unit :=
  if (distinct ((groups.flatMap layerSpecs).map pageSizeBytes)).length = 1 then .ok ()
  else if !layout.isBlockCompact || groups.length > 1 && layout.isLayerCompact then
    .error (.valueError "KV cache layout cannot express this model's mixed page sizes")
  else .ok ()

/-- `layers_by_spec`. -/
def layersBySpec (g : KVCacheGroupSpec S) : List (S × List LayerName) :=
  match g.kvCacheSpec with
  | .uniformType specs => sameTypeLayers specs
  | .one spec => if g.layerNames = [] then [] else [(spec, g.layerNames)]

/-- The block stride of a spec's tensor, if it is fixed: blocks hold whole groups, or the page is
padded. -/
def specBlockStride (layout : KVCacheLayout) (interleavedBlockStride : Option ℕ) (spec : S) : Planned (Option ℕ) :=
  if interleavedBlockStride = none ∧ layerBlockStride spec ≠ pageSizeBytes spec then
    if layout.isBlockCompact then .ok (some (layerBlockStride spec))
    else .error (.assertionError "layout cannot pad pages")
  else .ok interleavedBlockStride

/-- The tensors of the specs of a group, each after the ones before it. -/
def specTensors (layout : KVCacheLayout) (numBlocks size : ℕ) (interleavedBlockStride : Option ℕ) :
    List (S × List LayerName) → ℕ → Planned (List KVCacheTensor)
  | [], _ => .ok []
  | (spec, layers) :: rest, byteOffset => do
    let blockStride ← specBlockStride layout interleavedBlockStride spec
    let strides ← computeLayoutStrides spec numBlocks layers.length layout blockStride
    let width := if layout.isBlockOutermost then pageSizeBytes spec else strides .L
    let tensors ← specTensors layout numBlocks size interleavedBlockStride rest (byteOffset + layers.length * width)
    return ⟨size, layers, strides .L, strides .B, byteOffset⟩ :: tensors

/-- The blocks that a worker's memory has room for. -/
def blocksAllowed (availableMemory : ℤ) : Planned ℕ := do
  let pool ← poolBytesPerBlock layout groups
  if pool = 0 then throw .zeroDivisionError
  return (max (availableMemory - poolFixedMemoryBytes groups) 0).toNat / pool

/-- `get_kv_cache_config_from_groups`. -/
def getKvCacheConfigFromGroups (pc : PlanConfig) (groups : List (KVCacheGroupSpec S)) (availableMemory : ℤ) :
    Planned (KVCacheConfig S) := do
  -- a model without attention has no cache, but the pool needs a null block
  if groups = [] then return ⟨1, [], groups⟩
  validateKvCacheLayout pc.layout groups
  let visible ← kvCacheBytesPerBlock pc.layout groups
  let allowed ← blocksAllowed pc.layout groups availableMemory
  let numBlocks := pc.numGpuBlocksOverride.getD allowed
  let size := visible * numBlocks
  let interleavedBlockStride := if pc.layout.isBlockOutermost then some visible else none
  let tensors ← groups.mapM fun g =>
    specTensors pc.layout numBlocks size interleavedBlockStride (layersBySpec g) 0
  return ⟨numBlocks, tensors.flatten, groups⟩

/-! ## The longest request -/

/-- The blocks of a group that one request takes. -/
def maxMemoryUsagePages (maxModelLen : ℕ) (g : KVCacheGroupSpec S) : Planned ℕ := do
  let pages := fun spec : S => do
    let bytes ← maxMemoryUsageBytes maxModelLen spec
    if pageSizeBytes spec = 0 then throw .zeroDivisionError
    return cdiv bytes (pageSizeBytes spec)
  match g.kvCacheSpec with
  | .one spec => pages spec
  | .uniformType specs =>
    match (← specs.mapM fun x => pages x.2).max? with
    | none => .error (.valueError "max() iterable argument is empty")
    | some n => .ok n

/-- `_max_memory_usage_bytes_from_groups`. -/
def maxMemoryUsageBytesFromGroups (layout : KVCacheLayout) (maxModelLen : ℕ)
    (groups : List (KVCacheGroupSpec S)) : Planned ℕ := do
  if groups = [] then return 0
  let bytesPerBlock ← poolBytesPerBlock layout groups
  let totalBlocks ← groups.mapM (maxMemoryUsagePages maxModelLen)
  return poolFixedMemoryBytes groups + bytesPerBlock * totalBlocks.sum

/-- `fits`. -/
def fits (availableMemory : ℤ) (modelLen : ℕ) : Planned Bool := do
  return (← maxMemoryUsageBytesFromGroups layout modelLen groups) ≤ availableMemory

end

/-- The binary search of `_estimate_max_model_len_from_groups`; each turn halves the interval, so
`original_max + 1` turns are enough. -/
def estimateLoop (ok : ℕ → Planned Bool) : ℕ → ℕ → ℕ → ℕ → Planned ℕ
  | 0, _, _, result => .ok result
  | fuel + 1, left, right, result => do
    if left > right then return result
    let mid := (left + right) / 2
    if ← ok mid then estimateLoop ok fuel (mid + 1) right mid
    else estimateLoop ok fuel left (mid - 1) result

section

variable (layout : KVCacheLayout)

/-- `_estimate_max_model_len_from_groups`. -/
def estimateMaxModelLenFromGroups (originalMax : ℕ)
    (groups : List (KVCacheGroupSpec S)) (availableMemory : ℤ) : Planned ℕ := do
  if ← fits layout groups availableMemory 1 then
    estimateLoop (fits layout groups availableMemory) (originalMax + 1) 1 originalMax 1
  else return 0

/-- `_auto_fit_max_model_len`, over the groups and the usable memory of each worker. -/
def autoFitMaxModelLen (originalMax : ℕ) (workers : List (List (KVCacheGroupSpec S) × ℤ)) : Planned ℕ := do
  if workers.all fun w => w.1 = [] then return originalMax
  let autoFitMax ← workers.foldlM (fun (best : ℕ) w => do
    if w.1 = [] then return best
    return min best (← estimateMaxModelLenFromGroups layout originalMax w.1 w.2)) originalMax
  if autoFitMax = 0 then throw (.valueError "Cannot auto-fit max_model_len")
  return autoFitMax

/-- `_check_enough_kv_cache_memory`. -/
def checkEnoughKvCacheMemory (maxModelLen : ℕ) (w : List (KVCacheGroupSpec S) × ℤ) : Planned Unit := do
  if w.1 = [] then return ()
  if w.2 ≤ 0 then throw (.valueError "No available memory for the cache blocks.")
  let needed ← maxMemoryUsageBytesFromGroups layout maxModelLen w.1
  if w.2 < needed then
    -- the message estimates the length that would fit, which may raise itself
    let _ ← estimateMaxModelLenFromGroups layout maxModelLen w.1 w.2
    throw (.valueError "To serve at least one request with the model's max seq len, more KV cache is needed")
  return ()

end

/-! ## All workers -/

/-- The layers and the memory of a worker. -/
structure Worker (S : Type) where
  specs : SpecsOf S
  availableMemory : ℤ

/-- The specs of all workers; a layer that two workers have must have one spec. -/
def mergeSpecs (workers : List (Worker S)) : Planned (SpecsOf S) :=
  (workers.flatMap (·.specs)).foldlM (fun merged x =>
    match merged.find? fun y => y.1 = x.1 with
    | none => .ok (merged ++ [x])
    | some y => if y.2 = x.2 then .ok merged
        else .error (.assertionError "The KV cache specs for the same layer are different across workers.")) []

/-- `_project_kv_cache_groups_to_worker`, one group. -/
def projectGroup (workerSpec : SpecsOf S) (g : KVCacheGroupSpec S) : KVCacheGroupSpec S :=
  let names := g.layerNames.filter fun n => n ∈ workerSpec.map Prod.fst
  if names.length = g.layerNames.length then g
  else match g.kvCacheSpec with
    | .uniformType specs => ⟨names, .uniformType (if names = [] then specs else restrictTo specs names)⟩
    | spec => ⟨names, spec⟩

/-- A worker with its groups and the memory it is planned with. -/
structure Stage (S : Type) where
  groups : List (KVCacheGroupSpec S)
  worker : Worker S
  memory : ℤ

variable (pc : PlanConfig)

/-- With an override, a worker is planned with the memory of that many blocks. The log line that
compares the two divides by the size of a block. -/
def overrideMemory (groups : List (KVCacheGroupSpec S)) (w : Worker S) : Planned (Stage S) :=
  match pc.numGpuBlocksOverride with
  | none => .ok ⟨groups, w, w.availableMemory⟩
  | some n => do
    if groups = [] then return ⟨groups, w, w.availableMemory⟩
    let pool ← poolBytesPerBlock pc.layout groups
    if pool = 0 then throw .zeroDivisionError
    return ⟨groups, w, poolFixedMemoryBytes groups + n * pool⟩

/-- The memory without the null block. -/
def checkMemory (s : Stage S) : Planned (List (KVCacheGroupSpec S) × ℤ) := do
  if s.groups = [] then return (s.groups, s.memory)
  return (s.groups, s.memory - (← poolBytesPerBlock pc.layout s.groups))

/-- The first plan of a worker. -/
def stageConfig (s : Stage S) : Planned (KVCacheConfig S) := do
  if (s.groups.map (·.layerNames.length)).sum ≠ s.worker.specs.length then
    throw (.assertionError "Some layers are not assigned to any group.")
  getKvCacheConfigFromGroups pc s.groups s.memory

/-- The plan for as many blocks as the smallest worker has. -/
def replan (minNumBlocks : ℕ) (c : KVCacheConfig S) : Planned (KVCacheConfig S) := do
  if c.numBlocks = minNumBlocks then return c
  let pool ← poolBytesPerBlock pc.layout c.kvCacheGroups
  getKvCacheConfigFromGroups pc c.kvCacheGroups (poolFixedMemoryBytes c.kvCacheGroups + minNumBlocks * pool)

/-- The maximum model length that is planned for. -/
def plannedModelLen (usable : List (List (KVCacheGroupSpec S) × ℤ)) : Planned ℕ :=
  if pc.autoFit then autoFitMaxModelLen pc.layout pc.maxModelLen usable else .ok pc.maxModelLen

/-- The plans of all workers, from the groups of the whole model. -/
def planStages (groups : List (KVCacheGroupSpec S)) (workers : List (Worker S)) : Planned (List (KVCacheConfig S)) := do
  let stages ← workers.mapM fun w => overrideMemory pc (groups.map (projectGroup w.specs)) w
  let usable ← stages.mapM (checkMemory pc)
  let maxModelLen ← plannedModelLen pc usable
  let _ ← usable.mapM (checkEnoughKvCacheMemory pc.layout maxModelLen)
  let configs ← stages.mapM (stageConfig pc)
  match (configs.map (·.numBlocks)).min? with
  | none => throw (.valueError "min() iterable argument is empty")
  | some minNumBlocks => configs.mapM (replan pc minNumBlocks)

/-- The groups of the whole model. -/
def globalGroups (workers : List (Worker S)) : Planned (List (KVCacheGroupSpec S)) := do
  let merged ← mergeSpecs workers
  if merged.any fun x => !isRegistered x.2 then throw (.valueError "Unsupported KV cache spec type")
  let extraRetainedTokens := pc.numPrefillLookaheadTokens - 1
  let tagged := merged.map fun x =>
    (x.1, if isSlidingWindow x.2 then withExtraRetainedTokens x.2 extraRetainedTokens else x.2)
  getKvCacheGroups ⟨pc.disableHybridKvCacheManager, pc.layout.isBlockOutermost⟩ tagged

/-- `get_kv_cache_configs`. -/
def getKvCacheConfigs (workers : List (Worker S)) : Planned (List (KVCacheConfig S)) := do
  planStages pc (← globalGroups pc workers) workers

end

/-! ## The spec classes -/

namespace StandardSpec

variable (maxInFlightTokens : ℕ) (align : Bool)

/-- `max_memory_usage_bytes`, without context parallelism: `maxInFlightTokens` tokens may be
scheduled and not settled, and `align` is the Mamba cache mode. -/
def maxMemoryUsageBytes (maxModelLen : ℕ) (spec : StandardSpec) : ℕ :=
  let page := spec.pageSizePadded.getD spec.unpaddedPageSizeBytes
  match spec with
  | .fullAttention a .. => cdiv maxModelLen a.blockSize * page
  | .slidingWindow a w extra =>
    (cdiv (min (w - 1 + extra + maxInFlightTokens) maxModelLen) a.blockSize + 1) * page
  | .chunkedLocalAttention a c => cdiv (min (c + maxInFlightTokens) maxModelLen) a.blockSize * page
  | .circularBuffer _ => page
  | .mamba m => page * ((if align then 2 + m.numPrefillCheckpointBlocks else 1) + m.numSpeculativeBlocks)

/-- The specs in a configuration with that many tokens in flight. -/
@[reducible] def planSpec : PlanSpec StandardSpec where
  isRegistered _ := true
  withExtraRetainedTokens spec n := match spec with
    | .slidingWindow a w _ => .slidingWindow a w n
    | spec => spec
  numHeads spec := (spec.attention?.map (·.numKvHeads)).getD 1
  numStates spec := (spec.attention?.map (·.blockSize)).getD 1
  stateContentSizeBytes spec := match spec with
    | .mamba m => m.stateContentSizeBytes
    | spec => (spec.attention?.map fun a => (a.headSize + a.headSizeV) * a.dtypeSize).getD 0
  pageSizePadded := StandardSpec.pageSizePadded
  blockStrideAlignment _ := 1
  externalBytesPerPage _ := 0
  externalFixedMemoryBytes _ := 0
  maxMemoryUsageBytes maxModelLen spec := .ok (maxMemoryUsageBytes maxInFlightTokens align maxModelLen spec)

end StandardSpec

end VllmRwkv
