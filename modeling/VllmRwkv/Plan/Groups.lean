import VllmRwkv.Cache.Manager
import VllmRwkv.Lib.Strided

/-!
# KV cache groups

`get_kv_cache_groups` of `v1/core/kv_cache_utils.py`: the layers of a model are put into groups that
share a block table.

The classes of specs are open: a model may register its own. What the grouping reads of a spec is
`LayerSpec`, with one field for each method or class test. Names of layers are numbers. HiSparse
models, the flags of speculative groups and the log are left out.
-/

namespace VllmRwkv

open Strided

abbrev LayerName := ℕ

/-- The exceptions of the planner. -/
inductive PlanErr where
  | assertionError (msg : String)
  | valueError (msg : String)
  | notImplementedError (msg : String)
  | indexError
  | stopIteration
  | zeroDivisionError
  deriving DecidableEq, Repr

abbrev Planned := Except PlanErr

/-- The methods of a spec class that the grouping calls. A `replace` that the class refuses
raises. -/
class LayerSpec (S : Type) where
  blockSize : S → ℕ
  dcpSharded : S → Bool
  pageSizeBytes : S → ℕ
  isUniformWithCollection : S → List S → Bool
  merge : List S → Planned S
  isMamba : S → Bool
  isCircularBuffer : S → Bool
  isSlidingWindow : S → Bool
  isHiddenState : S → Bool
  isMlaAttention : S → Bool
  isAttention : S → Bool
  isFullAttention : S → Bool
  isSlidingWindowMla : S → Bool
  isChunkedLocal : S → Bool
  /-- `replace(spec, block_size=..)`. -/
  withBlockSize : S → ℕ → Planned S
  /-- `replace(spec, page_size_padded=..)`. -/
  withPageSizePadded : S → ℕ → Planned S
  /-- `replace(spec, block_size=.., page_size_padded=..)`, a padded page being scaled. -/
  scaled : S → ℕ → Planned S
  /-- The bytes of one token of a hidden state. -/
  bytesPerToken : S → ℕ
  /-- The full-attention spec with the given block size that stands for a local-attention spec. -/
  promoted : S → ℕ → Option S

variable {S : Type} [LayerSpec S] [DecidableEq S]

open LayerSpec

/-- A mapping from layer names to specs, in insertion order. -/
abbrev SpecsOf (S : Type) := List (LayerName × S)

/-- The spec of a group: one spec, or `UniformTypeKVCacheSpecs` with one for each layer. -/
inductive GroupSpec (S : Type) where
  | one (spec : S)
  | uniformType (kvCacheSpecs : SpecsOf S)

structure KVCacheGroupSpec (S : Type) where
  layerNames : List LayerName
  kvCacheSpec : GroupSpec S

section

variable (specs : SpecsOf S)

/-- `UniformTypeKVCacheSpecs.is_uniform_type`. The first of no specs cannot be taken. -/
def isUniformType : Planned Bool :=
  let values := specs.map Prod.snd
  if (distinct (values.map blockSize)).length > 1 then .ok false
  else if (distinct (values.map dcpSharded)).length > 1 then .ok false
  else match values with
    | [] => .error .stopIteration
    | first :: _ => .ok (isUniformWithCollection first values)

/-- `is_kv_cache_spec_uniform`: only a failed assertion means no. -/
def isKvCacheSpecUniform : Planned Bool :=
  if specs = [] then .ok true
  else match merge (specs.map Prod.snd) with
    | .ok _ => .ok true
    | .error (.assertionError _) => .ok false
    | .error e => .error e

/-- The specs of some layers. -/
def specsFor (names : List LayerName) : List S :=
  names.filterMap fun name => (specs.find? fun x => x.1 = name).map Prod.snd

/-- `create_kv_cache_group_specs`. -/
def createKvCacheGroupSpecs (groupedLayerNames : List (List LayerName)) : Planned (List (KVCacheGroupSpec S)) :=
  groupedLayerNames.mapM fun names => do
    return ⟨names, .one (← merge (specsFor specs names))⟩

/-! ## Pages of one size -/

/-- The layers of equal specs, in order of first appearance. -/
def sameTypeLayers : List (S × List LayerName) :=
  (distinct (specs.map Prod.snd)).map fun spec => (spec, (specs.filter fun x => x.2 = spec).map Prod.fst)

end

/-- A bucket of mergeable layers. -/
structure MergeBucket (S : Type) where
  names : List LayerName
  specs : List S

/-- Layers of specs that can be merged share a bucket. -/
def layerBuckets (layers : List (S × List LayerName)) : Planned (List (MergeBucket S)) :=
  layers.foldlM (fun buckets x =>
    placeFirst (fun b => match merge (b.specs ++ [x.1]) with
        | .ok _ => .ok true
        -- the specs are incompatible
        | .error (.assertionError _) | .error (.valueError _) => .ok false
        | .error e => .error e)
      (fun b => ⟨b.names ++ x.2, b.specs ++ [x.1]⟩) ⟨x.2, [x.1]⟩ buckets) []

/-- The number of layers of a group. -/
def groupSize (lengths : List ℕ) : ℕ :=
  let minNumLayers := lengths.min?.getD 0
  let maxNumLayers := lengths.max?.getD 0
  -- `max_num_layers < min_num_layers * 1.5`
  if 2 * maxNumLayers < 3 * minNumLayers then maxNumLayers else minNumLayers

section

variable (specs : SpecsOf S)

/-- `_get_kv_cache_groups_uniform_page_size`. -/
def getKvCacheGroupsUniformPageSize : Planned (List (KVCacheGroupSpec S)) := do
  let buckets ← layerBuckets (sameTypeLayers specs)
  let size := groupSize (buckets.map (·.names.length))
  createKvCacheGroupSpecs specs (buckets.flatMap fun b =>
    let numGroups := cdiv b.names.length size
    (List.range numGroups).map fun i => strided i numGroups b.names)

/-- One layer of `unify_kv_cache_spec_page_size`. -/
def unifyPageSize (maxPageSize : ℕ) (spec : S) : Planned S := do
  if pageSizeBytes spec = maxPageSize then return spec
  let newSpec ←
    if isMamba spec then withPageSizePadded spec maxPageSize
    else if pageSizeBytes spec = 0 then .error .zeroDivisionError
    else if maxPageSize % pageSizeBytes spec = 0 then
      withBlockSize spec (blockSize spec * (maxPageSize / pageSizeBytes spec))
    else if isAttention spec && !isMlaAttention spec then withPageSizePadded spec maxPageSize
    else .error (.notImplementedError "page size is not divisible by the maximum page size and cannot be padded")
  if pageSizeBytes newSpec = maxPageSize then return newSpec
  else .error (.assertionError "new_spec.page_size_bytes == max_page_size")

/-- `unify_kv_cache_spec_page_size`. -/
def unifyKvCacheSpecPageSize : Planned (SpecsOf S) :=
  let pageSizes := distinct (specs.map fun x => pageSizeBytes x.2)
  if pageSizes.length ≤ 1 then .ok specs
  else specs.mapM fun x => do return (x.1, ← unifyPageSize (pageSizes.max?.getD 0) x.2)

/-! ## Packed pages -/

/-- The greedy buckets of `_get_packed_kv_cache_groups`. -/
def uniformBuckets : Planned (List (SpecsOf S)) :=
  specs.foldlM (fun buckets x =>
    placeFirst (fun bucket => isUniformType (bucket ++ [x])) (fun bucket => bucket ++ [x]) [x] buckets) []

end

section

variable (bucket : SpecsOf S)

/-- `page_size_layers`: the layers of each page size. -/
def pageSizeLayers : List (ℕ × List LayerName) :=
  (distinct (bucket.map fun x => pageSizeBytes x.2)).map fun page =>
    (page, (bucket.filter fun x => pageSizeBytes x.2 = page).map Prod.fst)

/-- Every page size has equally many layers. -/
def balanced : Bool :=
  (distinct ((pageSizeLayers bucket).map fun x => x.2.length)).length = 1

/-- `get_max_layers_per_page_size`. -/
def getMaxLayersPerPageSize : ℕ :=
  ((pageSizeLayers bucket).map fun x => x.2.length).max?.getD 0

/-- `_approximate_gcd`: the chunk size with the least padding, a larger one of equals. -/
def approximateGcd (values : List ℕ) (lowerBound : ℕ) : Planned ℕ :=
  if values = [] then .error (.valueError "values must be non-empty")
  else if values.any (· = 0) then .error (.valueError "values must be positive")
  else
    let minD := max 1 lowerBound
    let maxD := values.max?.getD 0
    if minD > maxD then .ok minD
    else
      let pad := fun d => (values.map fun x => (d - x % d) % d).sum
      .ok ((List.range' minD (maxD + 1 - minD)).foldl
        (fun best d => if pad d < pad best ∨ pad d = pad best ∧ d > best then d else best) minD)

/-- The repeats of the layer pattern in a group; none if no balanced bucket mixes page sizes. -/
def repeatsPerGroup (buckets : List (SpecsOf S)) : Planned (Option ℕ) :=
  let minRepeatsPerGroup := ((buckets.filter fun b => balanced b && (pageSizeLayers b).length > 1).map
    getMaxLayersPerPageSize).max?.getD 0
  if minRepeatsPerGroup = 0 then .ok none
  else (approximateGcd ((buckets.filter fun b => balanced b).map getMaxLayersPerPageSize) minRepeatsPerGroup).map some

/-- `num_groups_for`. -/
def numGroupsFor (repeatsPerGroup : Option ℕ) (bucket : SpecsOf S) : ℕ :=
  match balanced bucket, repeatsPerGroup with
  | true, some k => cdiv (getMaxLayersPerPageSize bucket) k
  | _, _ => 1

/-- `widest_group_bytes`. -/
def widestGroupBytes (n : ℕ) : ℕ :=
  ((pageSizeLayers bucket).map fun x => cdiv x.2.length n * x.1).sum

end

section

variable (repeatsPerGroup : Option ℕ)

/-- `is_state_bucket`. -/
def isStateBucket (bucket : SpecsOf S) : Bool :=
  match bucket with
  | [] => false
  | first :: _ => isMamba first.2 || isCircularBuffer first.2 || (repeatsPerGroup = none && isSlidingWindow first.2)

/-- The bytes that a block holds however the state buckets are split. -/
def anchorBytes (buckets : List (SpecsOf S)) : ℕ :=
  (buckets.map fun b => widestGroupBytes b (if isStateBucket repeatsPerGroup b then b.length
    else numGroupsFor repeatsPerGroup b)).max?.getD 0

/-- The number of groups that a bucket is split into. -/
def numGroups (anchor : ℕ) (bucket : SpecsOf S) : Planned ℕ :=
  if anchor ≠ 0 ∧ isStateBucket repeatsPerGroup bucket then
    match bucket with
    | [] => .ok 1
    | first :: _ =>
      if pageSizeBytes first.2 = 0 then .error .zeroDivisionError
      else
        let statesPerBlock := max (anchor / pageSizeBytes first.2) 1
        .ok (max (numGroupsFor repeatsPerGroup bucket) (cdiv bucket.length statesPerBlock))
  else .ok (numGroupsFor repeatsPerGroup bucket)

end

section

variable (bucket : SpecsOf S)

/-- The specs of some layers of a bucket, by name. -/
def restrictTo (names : List LayerName) : SpecsOf S :=
  names.filterMap fun name => bucket.find? fun x => x.1 = name

/-- One group of a bucket that is split into `n`. -/
def strideGroup (patternRepeats : List (List LayerName)) (n i : ℕ) : Planned (KVCacheGroupSpec S) := do
  let names := (strided i n patternRepeats).flatten
  if ← isUniformType (restrictTo bucket names) then
    return ⟨names, .uniformType (restrictTo bucket names)⟩
  else .error (.assertionError "group_spec is not None")

/-- The groups of one bucket. -/
def bucketGroups (n : ℕ) : Planned (List (KVCacheGroupSpec S)) :=
  if n = 1 then .ok [⟨bucket.map Prod.fst, .uniformType bucket⟩]
  else (List.range n).mapM (strideGroup bucket (zipRows ((pageSizeLayers bucket).map Prod.snd)) n)

end

section

variable (isBlockOutermost : Bool) (specs : SpecsOf S)

/-- The first half of `_get_packed_kv_cache_groups`: the buckets and the number of groups each is
split into, or nothing if the pages need no packing. -/
def packedBuckets : Planned (Option (List (SpecsOf S × ℕ))) := do
  let pageSizes := distinct (specs.map fun x => pageSizeBytes x.2)
  if isBlockOutermost = false ∨ pageSizes.length ≤ 1 then return none
  let buckets ← uniformBuckets specs
  let uniform ← buckets.mapM isUniformType
  if uniform.any (!·) then throw (.assertionError "uniform_spec is not None")
  let repeats ← repeatsPerGroup buckets
  return some (← buckets.mapM fun bucket => do
    return (bucket, ← numGroups repeats (anchorBytes repeats buckets) bucket))

/-- `_get_packed_kv_cache_groups`. -/
def getPackedKvCacheGroups : Planned (Option (List (KVCacheGroupSpec S))) := do
  match ← packedBuckets isBlockOutermost specs with
  | none => return none
  | some buckets => return some (← buckets.mapM fun b => bucketGroups b.1 b.2).flatten

end

/-! ## Hidden states and local attention -/

/-- `_largest_divisor_at_most`. -/
def largestDivisorAtMost (value limit : ℕ) : ℕ :=
  ((List.range' 1 (min value limit)).filter fun d => value % d = 0).max?.getD 1

/-- `page_size_bytes` of a group's spec. -/
def GroupSpec.pageSizeBytes : GroupSpec S → ℕ
  | .one spec => LayerSpec.pageSizeBytes spec
  | .uniformType specs => (specs.map fun x => LayerSpec.pageSizeBytes x.2).sum

/-- `block_size` of a group's spec. -/
def GroupSpec.blockSize : GroupSpec S → ℕ
  | .one spec => LayerSpec.blockSize spec
  | .uniformType specs => (specs.head?.map fun x => LayerSpec.blockSize x.2).getD 0

def GroupSpec.scaled (scale : ℕ) : GroupSpec S → Planned (GroupSpec S)
  | .one spec => (LayerSpec.scaled spec scale).map .one
  | .uniformType specs => .ok (.uniformType specs)

/-- `_ensure_min_page_size`. -/
def ensureMinPageSize (groups : List (KVCacheGroupSpec S)) (commonPage : ℕ) (hidden : SpecsOf S) :
    Planned (List (KVCacheGroupSpec S) × ℕ) := do
  let maxPerToken := (hidden.map fun x => bytesPerToken x.2).max?.getD 0
  if maxPerToken ≤ commonPage then return (groups, commonPage)
  if commonPage = 0 then throw .zeroDivisionError
  let scale := cdiv maxPerToken commonPage
  let scaledGroups ← groups.mapM fun g => do return ⟨g.layerNames, ← g.kvCacheSpec.scaled scale⟩
  return (scaledGroups, commonPage * scale)

/-- The group of one hidden-state layer, with pages of the common size. -/
def hiddenGroup (commonPage groupBlockSize : ℕ) (x : LayerName × S) : Planned (KVCacheGroupSpec S) := do
  if bytesPerToken x.2 = 0 then throw .zeroDivisionError
  let maxBlockSize := max (commonPage / bytesPerToken x.2) 1
  let spec ← withBlockSize x.2 (largestDivisorAtMost groupBlockSize maxBlockSize)
  return ⟨[x.1], .one (← withPageSizePadded spec commonPage)⟩

/-- Hidden-state layers get groups of their own. -/
def addHiddenStates (groups : List (KVCacheGroupSpec S)) (hidden : SpecsOf S) :
    Planned (List (KVCacheGroupSpec S)) := do
  if hidden = [] then return groups
  let pageSizes := distinct (groups.map (·.kvCacheSpec.pageSizeBytes))
  if pageSizes.length ≠ 1 then throw (.assertionError "len(page_sizes) == 1")
  let (groups, commonPage) ← ensureMinPageSize groups (pageSizes.head?.getD 0) hidden
  let groupBlockSize := (groups.map (·.kvCacheSpec.blockSize)).foldl Nat.gcd 0
  return groups ++ (← hidden.mapM (hiddenGroup commonPage groupBlockSize))

section

variable (specs : SpecsOf S)

/-- Whether all specs are of one type, by either test. -/
def ofOneType : Planned Bool := do
  if ← isKvCacheSpecUniform specs then return true
  isUniformType specs

/-- `_promote_local_kv_cache_specs`. -/
def promoteLocalKvCacheSpecs : Planned (SpecsOf S) := do
  if ← ofOneType specs then return specs
  let values := specs.map Prod.snd
  let fullBlockSizes := distinct ((values.filter fun s => isFullAttention s).map blockSize)
  let fullAttentionBlockSize := if fullBlockSizes.length = 1 then fullBlockSizes.head? else none
  let promotedSpecs :=
    if values.any isFullAttention && values.any fun s => isSlidingWindow s || isChunkedLocal s then
      specs.map fun x => (x.1, (promoted x.2 (fullAttentionBlockSize.getD (blockSize x.2))).getD x.2)
    else specs
  if ← ofOneType promotedSpecs then return promotedSpecs
  else throw (.valueError "Failed to promote local KV cache specs to one unified type.")

/-- `unify_hybrid_kv_cache_specs`: sharded and replicated caches are promoted apart. -/
def unifyHybridKvCacheSpecs : Planned (SpecsOf S) := do
  let replicated := fun x : LayerName × S => isAttention x.2 && !dcpSharded x.2
  let promotedSpecs ← [specs.filter replicated, specs.filter fun x => !replicated x].mapM fun part =>
    if part = [] then .ok [] else promoteLocalKvCacheSpecs part
  return specs.map fun x =>
    (x.1, ((promotedSpecs.flatten.find? fun y => y.1 = x.1).map Prod.snd).getD x.2)

/-- `_try_get_full_allocation_fallback_groups`. -/
def tryGetFullAllocationFallbackGroups : Planned (Option (List (KVCacheGroupSpec S))) := do
  let values := specs.map Prod.snd
  if values.any isHiddenState then return none
  if values.any fun s => isSlidingWindowMla s || isChunkedLocal s then return none
  if !(values.any isMlaAttention && values.any isSlidingWindow) then return none
  match promoteLocalKvCacheSpecs specs with
  | .error (.valueError _) => return none
  | .error e => throw e
  | .ok promotedSpecs =>
    if ← isUniformType promotedSpecs then
      return some [⟨promotedSpecs.map Prod.fst, .uniformType promotedSpecs⟩]
    else return none

end

/-! ## The entry point -/

structure GroupingConfig where
  disableHybridKvCacheManager : Bool
  isBlockOutermost : Bool

/-- The groups of layers whose pages cannot be packed. -/
def unpackedGroups (specs hidden filtered : SpecsOf S) : Planned (List (KVCacheGroupSpec S)) :=
  match unifyKvCacheSpecPageSize filtered with
  | .error (.notImplementedError msg) => do
    match ← tryGetFullAllocationFallbackGroups specs with
    | none => throw (.notImplementedError msg)
    | some groups => return groups
  | .error e => .error e
  | .ok unified => do addHiddenStates (← getKvCacheGroupsUniformPageSize unified) hidden

variable (cfg : GroupingConfig) (specs : SpecsOf S)

/-- The groups of layers of several types. -/
def hybridGroups : Planned (List (KVCacheGroupSpec S)) := do
  let hidden := specs.filter fun x => isHiddenState x.2
  let filtered := specs.filter fun x => !isHiddenState x.2
  match ← getPackedKvCacheGroups cfg.isBlockOutermost filtered with
  | some (g :: packed) => return (g :: packed) ++ hidden.map fun x => ⟨[x.1], .one x.2⟩
  | _ => unpackedGroups specs hidden filtered

/-- The specs as the grouping sees them. -/
def effectiveSpecs : Planned (SpecsOf S) :=
  if cfg.disableHybridKvCacheManager then unifyHybridKvCacheSpecs specs else .ok specs

/-- `get_kv_cache_groups`. -/
def getKvCacheGroups : Planned (List (KVCacheGroupSpec S)) := do
  let specs ← effectiveSpecs cfg specs
  if specs = [] then return []
  if ← isKvCacheSpecUniform specs then createKvCacheGroupSpecs specs [specs.map Prod.fst]
  else if ← isUniformType specs then return [⟨specs.map Prod.fst, .uniformType specs⟩]
  else hybridGroups cfg specs

end VllmRwkv
