import VllmRwkv.Pool.BlockPool
import VllmRwkv.Lib.Bisect

/-!
# Requests

`Request` of `v1/request.py`, restricted to the fields that the cache manager and the scheduler
read. Request ids are strings in the source; only their equality and their order matter.
Pooling parameters are a flag, LoRA is the adapter's id, and what `generate_block_hash_extra_keys`
draws from multi-modal features, LoRA names and the cache salt is one opaque value per block here
(`Hash.BlockHash` has the keys themselves).
Logprob, event and statistics fields are left out.
-/

namespace VllmRwkv

abbrev RequestId := ℕ

/-- `RequestStatus`, in the order of the source's enumeration. -/
inductive RequestStatus where
  | waiting
  | waitingForStructuredOutputGrammar
  | waitingForRemoteKvs
  | waitingForStreamingReq
  | running
  | preempted
  | finishedStopped
  | finishedLengthCapped
  | finishedAborted
  | finishedIgnored
  | finishedError
  | finishedRepetition
  deriving DecidableEq, Repr

/-- `RequestStatus.is_finished`: everything after `PREEMPTED`. -/
def RequestStatus.isFinished : RequestStatus → Bool
  | .waiting | .waitingForStructuredOutputGrammar | .waitingForRemoteKvs | .waitingForStreamingReq
  | .running | .preempted => false
  | _ => true

/-- `RepetitionDetectionParams`. -/
structure RepetitionDetectionParams where
  maxPatternSize : ℕ
  minPatternSize : ℕ
  minCount : ℕ
  deriving DecidableEq, Repr

/-- The sampling parameters that decide when a request stops. -/
structure SamplingParams where
  eosTokenId : Option ℕ := none
  stopTokenIds : List ℕ := []
  minTokens : ℕ := 0
  repetitionDetection : Option RepetitionDetectionParams := none
  deriving DecidableEq, Repr

/-- `PlaceholderRange`: where an item stands in the prompt, and which of its positions take an
embedding. -/
structure PlaceholderRange where
  offset : ℕ
  length : ℕ
  isEmbed : Option (List Bool) := none
  deriving DecidableEq, Repr

def PlaceholderRange.getNumEmbeds (range : PlaceholderRange) : ℕ :=
  match range.isEmbed with
  | none => range.length
  | some mask => mask.count true

/-- `get_embeds_indices_in_range`. -/
def PlaceholderRange.getEmbedsIndicesInRange (range : PlaceholderRange) (startIdx endIdx : ℕ) : ℕ × ℕ :=
  match range.isEmbed with
  | none => (startIdx, endIdx)
  | some mask => ((mask.take startIdx).count true, (mask.take endIdx).count true)

/-- `MultiModalFeatureSpec`; only the equality of identifiers matters. -/
structure MultiModalFeatureSpec where
  identifier : ℕ
  mmPosition : PlaceholderRange
  deriving DecidableEq, Repr

/-- The position after the last placeholder of an item. -/
def MultiModalFeatureSpec.stop (f : MultiModalFeatureSpec) : ℕ := f.mmPosition.offset + f.mmPosition.length

/-- The item moved behind `base` tokens. -/
def MultiModalFeatureSpec.shift (base : ℕ) (f : MultiModalFeatureSpec) : MultiModalFeatureSpec :=
  ⟨f.identifier, f.mmPosition.offset + base, f.mmPosition.length, f.mmPosition.isEmbed⟩

/-- `get_mm_features_in_window`. -/
def getMmFeaturesInWindow (mmFeatures : List MultiModalFeatureSpec) (start stop : ℕ) : ℕ × ℕ :=
  (bisectLeft MultiModalFeatureSpec.stop mmFeatures (start + 1),
    bisectLeft (fun f => f.mmPosition.offset) mmFeatures stop)

/-- `StreamingUpdate`: the next input chunk of a session. -/
structure StreamingUpdate where
  promptTokenIds : List ℕ
  maxTokens : ℕ
  arrivalTime : ℕ
  samplingParams : SamplingParams
  mmFeatures : List MultiModalFeatureSpec := []
  /-- What the items of the session add to the hashes of the blocks that end in this chunk. -/
  extraKeys : ℕ → ℕ := fun _ => 0

/-- A request; the defaults are those of `__init__`. -/
structure Request (H : Type) where
  requestId : RequestId
  status : RequestStatus
  numPromptTokens : ℕ
  allTokenIds : List ℕ
  blockHashes : List H
  numComputedTokens : ℕ
  /-- Tokens of steps whose output is not yet processed. -/
  numInFlightTokens : ℤ
  sharedPrefixBoundary : ℕ
  promptTokenIds : List ℕ := []
  outputTokenIds : List ℕ := []
  maxTokens : ℕ := 0
  samplingParams : SamplingParams := {}
  isPooling : Bool := false
  priority : ℤ := 0
  arrivalTime : ℕ := 0
  loraIntId : Option ℕ := none
  extraKeys : ℕ → ℕ := fun _ => 0
  mmFeatures : List MultiModalFeatureSpec := []
  skipReadingPrefixCache : Bool := false
  specTokenIds : List ℤ := []
  numOutputPlaceholders : ℤ := 0
  /-- Tokens of output in flight when the request was preempted. -/
  numStaleOutputTokens : ℤ := 0
  dropStaleOutput : Bool := false
  nextDecodeEligibleStep : ℕ := 0
  lastSchedSeq : ℕ := 0
  isPrefillChunk : Bool := false
  numPreemptions : ℕ := 0
  resumable : Bool := false
  /-- The input chunks still to come; an entry `none` ends the session. -/
  streamingQueue : Option (List (Option StreamingUpdate)) := none

namespace Request

variable {H : Type}

section

variable (r : Request H)

def numTokens : ℕ := r.allTokenIds.length

def numTokensWithSpec : ℕ := r.allTokenIds.length + r.specTokenIds.length

def numOutputTokens : ℕ := r.outputTokenIds.length

def isFinished (r : Request H) : Bool := r.status.isFinished

/-- What the block pool reads of a request. -/
def hashed : HashedTokens H := ⟨r.allTokenIds, r.blockHashes⟩

/-- `__lt__`, the order of a priority queue; requests in a queue have different ids. -/
def lt (r r' : Request H) : Bool :=
  if r.priority ≠ r'.priority then r.priority < r'.priority
  else if r.arrivalTime ≠ r'.arrivalTime then r.arrivalTime < r'.arrivalTime
  else r.requestId < r'.requestId

/-- `StreamingUpdate.from_request`. -/
def streamingUpdate : Option StreamingUpdate :=
  if r.resumable then
    some ⟨r.promptTokenIds, r.maxTokens, r.arrivalTime, r.samplingParams, r.mmFeatures, r.extraKeys⟩
  else none

end

/-! ## Tokens and hashes -/

/-- The loop of `request_block_hasher` over at most the given number of blocks: the hashes of the full
blocks from token `start` on. -/
def hashBlocks (hashBlockTokens : Option H → List ℕ → ℕ → H) (hashBlockSize : ℕ) (r : Request H) :
    ℕ → ℕ → Option H → List H
  | 0, _, _ => []
  | fuel + 1, start, prev =>
    if start + hashBlockSize ≤ r.numTokens then
      let blockHash := hashBlockTokens prev ((r.allTokenIds.drop start).take hashBlockSize)
        (r.extraKeys (start / hashBlockSize))
      blockHash :: r.hashBlocks hashBlockTokens hashBlockSize fuel (start + hashBlockSize) (some blockHash)
    else []

variable (hashBlockTokens : Option H → List ℕ → ℕ → H) (hashBlockSize : ℕ) (r : Request H)

/-- `update_block_hashes`. -/
def updateBlockHashes : Request H :=
  let newHashes := r.hashBlocks hashBlockTokens hashBlockSize r.numTokens
    (r.blockHashes.length * hashBlockSize) r.blockHashes.getLast?
  { r with blockHashes := r.blockHashes ++ newHashes }

/-- `append_output_token_ids`. -/
def appendOutputTokenIds (tokenId : ℕ) : Request H :=
  updateBlockHashes hashBlockTokens hashBlockSize { r with
      outputTokenIds := r.outputTokenIds ++ [tokenId]
      allTokenIds := r.allTokenIds ++ [tokenId] }

end Request

end VllmRwkv
