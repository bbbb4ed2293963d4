import VllmRwkv.Plan.Groups

/-!
# The spec classes

The attention and state specs of `vllm/v1/kv_cache_interface.py` that the grouping treats apart,
with one stored state a token.
-/

open Strided

namespace VllmRwkv

/-- `AttentionSpec`. -/
structure AttentionSpec where
  blockSize : ℕ
  dcpSharded : Bool := true
  numKvHeads : ℕ
  headSize : ℕ
  headSizeV : ℕ
  dtypeSize : ℕ
  pageSizePadded : Option ℕ := none
  deriving DecidableEq, Repr

/-- `unpadded_page_size_bytes`. -/
def AttentionSpec.unpaddedPageSizeBytes (a : AttentionSpec) : ℕ :=
  a.numKvHeads * a.blockSize * ((a.headSize + a.headSizeV) * a.dtypeSize)

/-- `MambaSpec`; the shapes and types of the states give `stateContentSizeBytes`. -/
structure MambaSpec where
  blockSize : ℕ
  stateContentSizeBytes : ℕ
  pageSizePadded : Option ℕ := none
  numSpeculativeBlocks : ℕ := 0
  numPrefillCheckpointBlocks : ℕ := 0
  prefillCheckpointAlignment : Option ℕ := none
  tpReplicated : Bool := false
  deriving DecidableEq, Repr

inductive StandardSpec where
  | fullAttention (a : AttentionSpec) (slidingWindow attentionChunkSize : Option ℕ) (nonCausal : Bool)
  | slidingWindow (a : AttentionSpec) (slidingWindow extraRetainedTokens : ℕ)
  | chunkedLocalAttention (a : AttentionSpec) (attentionChunkSize : ℕ)
  | circularBuffer (a : AttentionSpec)
  | mamba (m : MambaSpec)
  deriving DecidableEq, Repr

namespace StandardSpec

def attention? : StandardSpec → Option AttentionSpec
  | .fullAttention a .. | .slidingWindow a .. | .chunkedLocalAttention a _ | .circularBuffer a => some a
  | .mamba _ => none

/-- The same class with other attention fields, or other state fields. -/
def replace (f : AttentionSpec → AttentionSpec) (g : MambaSpec → MambaSpec) : StandardSpec → StandardSpec
  | .fullAttention a w c n => .fullAttention (f a) w c n
  | .slidingWindow a w e => .slidingWindow (f a) w e
  | .chunkedLocalAttention a c => .chunkedLocalAttention (f a) c
  | .circularBuffer a => .circularBuffer (f a)
  | .mamba m => .mamba (g m)

def unpaddedPageSizeBytes : StandardSpec → ℕ
  | .mamba m => m.stateContentSizeBytes
  | spec => (spec.attention?.map (·.unpaddedPageSizeBytes)).getD 0

def pageSizePadded : StandardSpec → Option ℕ
  | .mamba m => m.pageSizePadded
  | spec => spec.attention?.bind (·.pageSizePadded)

def isFullAttention : StandardSpec → Bool
  | .fullAttention .. => true
  | _ => false

/-- `FullAttentionSpec.merge_window_sizes`. -/
def mergeWindowSizes (windowSizes : List ℕ) : Planned (Option ℕ) :=
  match distinct windowSizes with
  | [] => .ok none
  | [w] => .ok (some w)
  | _ => .error (.valueError "All attention layers in the same KV cache group must have the same window size.")

/-- `FullAttentionSpec.merge`. -/
def mergeFullAttention (first : AttentionSpec) (specs : List StandardSpec) : Planned StandardSpec := do
  if !specs.all isFullAttention then
    throw (.assertionError "All attention layers in the same KV cache group must be FullAttentionSpec.")
  let windows := specs.filterMap fun s => match s with
    | .fullAttention _ w _ _ => w
    | _ => none
  let chunks := specs.filterMap fun s => match s with
    | .fullAttention _ _ c _ => c
    | _ => none
  let nonCausal := specs.any fun s => match s with
    | .fullAttention _ _ _ n => n
    | _ => false
  let slidingWindow ← mergeWindowSizes windows
  let attentionChunkSize ← mergeWindowSizes chunks
  if specs.any fun s => s.attention? ≠ some first then
    throw (.assertionError "All attention layers in the same KV cache group must have the same attention spec.")
  if slidingWindow.isSome && attentionChunkSize.isSome then
    throw (.assertionError "Model with both sliding window layers and chunked local attention layers is not supported.")
  return .fullAttention first slidingWindow attentionChunkSize nonCausal

/-- `specs[0].merge(specs)`; the classes other than full attention merge equal specs. -/
def merge : List StandardSpec → Planned StandardSpec
  | [] => .error .indexError
  | .fullAttention a w c n :: rest => mergeFullAttention a (.fullAttention a w c n :: rest)
  | first :: rest =>
    if rest.all (· = first) then .ok first
    else .error (.assertionError "All layers in the same KV cache group must be the same.")

/-- `is_uniform_with_collection`. -/
def isUniformWithCollection (self : StandardSpec) (specs : List StandardSpec) : Bool :=
  specs.all fun spec => match self, spec with
    | .fullAttention .., .fullAttention .. => true
    | .slidingWindow _ w _, .slidingWindow _ w' _ => w' = w
    | .chunkedLocalAttention _ c, .chunkedLocalAttention _ c' => c' = c
    | .circularBuffer _, .circularBuffer _ => true
    | .mamba m, .mamba m' =>
      m'.numSpeculativeBlocks = m.numSpeculativeBlocks &&
      m'.numPrefillCheckpointBlocks = m.numPrefillCheckpointBlocks &&
      m'.prefillCheckpointAlignment = m.prefillCheckpointAlignment &&
      m'.pageSizePadded.getD m'.stateContentSizeBytes = m.pageSizePadded.getD m.stateContentSizeBytes &&
      m'.tpReplicated = m.tpReplicated
    | _, _ => false

/-- A spec is well formed if its padding, if any, leaves room for the page: `page_size_bytes`
asserts it. -/
def checked (spec : StandardSpec) : Planned StandardSpec :=
  if spec.unpaddedPageSizeBytes ≤ spec.pageSizePadded.getD spec.unpaddedPageSizeBytes then .ok spec
  else .error (.assertionError "self.page_size_padded >= self.unpadded_page_size_bytes")

/-- The fields of a local-attention spec that is promoted. -/
def promotedFields (a : AttentionSpec) (blockSize : ℕ) : AttentionSpec :=
  { a with
    blockSize := blockSize
    pageSizePadded := a.pageSizePadded.map fun padded =>
      max padded (a.unpaddedPageSizeBytes * blockSize / a.blockSize) }

end StandardSpec

instance : LayerSpec StandardSpec where
  blockSize spec := match spec with
    | .mamba m => m.blockSize
    | spec => (spec.attention?.map (·.blockSize)).getD 0
  dcpSharded spec := (spec.attention?.map (·.dcpSharded)).getD false
  pageSizeBytes spec := spec.pageSizePadded.getD spec.unpaddedPageSizeBytes
  isUniformWithCollection := StandardSpec.isUniformWithCollection
  merge := StandardSpec.merge
  isMamba spec := match spec with
    | .mamba _ => true
    | _ => false
  isCircularBuffer spec := match spec with
    | .circularBuffer _ => true
    | _ => false
  isSlidingWindow spec := match spec with
    | .slidingWindow .. => true
    | _ => false
  isHiddenState _ := false
  isMlaAttention _ := false
  isAttention spec := spec.attention?.isSome
  isFullAttention := StandardSpec.isFullAttention
  isSlidingWindowMla _ := false
  isChunkedLocal spec := match spec with
    | .chunkedLocalAttention .. => true
    | _ => false
  withBlockSize spec b := (spec.replace ({ · with blockSize := b }) ({ · with blockSize := b })).checked
  withPageSizePadded spec p :=
    (spec.replace ({ · with pageSizePadded := some p }) ({ · with pageSizePadded := some p })).checked
  scaled spec k := (spec.replace
    (fun a => { a with blockSize := a.blockSize * k, pageSizePadded := a.pageSizePadded.map (· * k) })
    (fun m => { m with blockSize := m.blockSize * k, pageSizePadded := m.pageSizePadded.map (· * k) })).checked
  bytesPerToken _ := 0
  promoted spec b := match spec with
    | .slidingWindow a w _ => some (.fullAttention (StandardSpec.promotedFields a b) (some w) none false)
    | .chunkedLocalAttention a c => some (.fullAttention (StandardSpec.promotedFields a b) none (some c) false)
    | _ => none

end VllmRwkv
