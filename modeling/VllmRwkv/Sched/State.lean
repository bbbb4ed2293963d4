import VllmRwkv.Cache.Hit
import VllmRwkv.Encoder.Manager
import VllmRwkv.Lib.Heap

/-!
# The scheduler's state

What `Scheduler` of `v1/core/sched/scheduler.py` is built with and what it keeps between calls, the
request queues of `v1/core/sched/request_queue.py`, and the steps that the calls are made of:
preempting, enqueueing, stopping and freeing a request.

The queues hold requests in the source and request ids here: every request in a queue is the
entry of `requests` under its id. The EC connector and the auxiliary output connector appear only
through the answers they give to the scheduler; DSV41 prefix replay, cross-attention blocks, metrics,
events for the client and the statistics of the prefix cache are left out.
-/

namespace VllmRwkv

open Raise

variable {H : Type} {n : ℕ}

/-! ## Queues -/

inductive SchedulingPolicy where
  | fcfs
  | priority
  deriving DecidableEq, Repr

namespace SchedulingPolicy

variable (policy : SchedulingPolicy) (lt : RequestId → RequestId → Bool) (q : List RequestId)

/-- `add_request`. -/
def addRequest (r : RequestId) : List RequestId :=
  match policy with
  | .fcfs => q ++ [r]
  | .priority => Heap.heappush lt q r

/-- `pop_request`; nothing for an empty queue. -/
def popRequest : Option (RequestId × List RequestId) :=
  match policy with
  | .fcfs => match q with
    | [] => none
    | r :: rest => some (r, rest)
  | .priority => Heap.heappop lt q

/-- `prepend_request`. -/
def prependRequest (r : RequestId) : List RequestId :=
  match policy with
  | .fcfs => r :: q
  | .priority => Heap.heappush lt q r

/-- `prepend_requests`: one after the other. -/
def prependRequests (rs : List RequestId) : List RequestId :=
  rs.foldl (fun q r => policy.prependRequest lt q r) q

/-- `remove_requests`. -/
def removeRequests (rs : List RequestId) : List RequestId :=
  match policy with
  | .fcfs => q.filter (· ∉ rs)
  | .priority => Heap.heapify lt (q.filter (· ∉ rs))

/-- `__iter__`: in the order of removal. -/
def iter : List RequestId :=
  match policy with
  | .fcfs => q
  | .priority => popAll q.length q
where
  popAll : ℕ → List RequestId → List RequestId
    | 0, _ => []
    | fuel + 1, q =>
      match Heap.heappop lt q with
      | none => []
      | some (r, rest) => r :: popAll fuel rest

end SchedulingPolicy

/-! ## State -/

/-- `PauseState`. -/
inductive PauseState where
  | unpaused
  | pausedNew
  | pausedAll
  deriving DecidableEq, Repr

/-- What the scheduler is built with. -/
structure SchedulerConfig (H : Type) (n : ℕ) where
  cache : CacheConfig n
  hashBlockTokens : Option H → List ℕ → ℕ → H
  hashBlockSize : ℕ
  policy : SchedulingPolicy
  /-- `AsyncScheduler` instead of `Scheduler`. -/
  asyncScheduling : Bool
  useV2ModelRunner : Bool
  decodeStagger : ℕ
  maxNumRunningReqs : ℕ
  maxNumActiveReqs : ℕ
  maxNumScheduledTokens : ℕ
  maxNumBatchedTokens : ℕ
  longPrefillTokenThreshold : ℕ
  adaptiveLongPrefillThreshold : Bool
  enableChunkedPrefill : Bool
  schedulerReserveFullIsl : Bool
  /-- 0 for pooling and diffusion models, else 1. -/
  numSampledTokensPerStep : ℕ
  numSpecTokens : ℕ
  numLookaheadTokens : ℕ
  numPrefillLookahead : ℕ
  draftSlots : ℕ
  dynamicSdLookup : Option (ℕ → ℕ)
  maxLoras : Option ℕ
  isMmEncoderOnly : Bool
  isEncoderDecoder : Bool
  maxNumEncoderInputTokens : ℕ
  disableChunkedMmInput : Bool
  /-- Whether there is a KV connector, and what is derived from its configuration. -/
  hasConnector : Bool
  supportsDivergentLocalHybridHits : Bool
  isKvProducer : Bool
  deferBlockFree : Bool
  requiresKvDelivery : Bool
  recomputeKvLoadFailures : Bool
  /-- `cache_config.block_size`, the block size of align-mode states. -/
  mambaBlockSize : ℕ
  needMambaBlockAlignedSplit : Bool
  mambaHasPrefillCheckpointBlocks : Bool
  mambaPrefillCheckpointAlignment : Option ℕ
  mambaPartialCacheHit : Bool
  mambaSharedPrefixCheckpoint : Bool
  useEagleBlockDrop : Bool

/-- A configuration without connector, drafts, LoRA and states to align, for blocks of one token. -/
def SchedulerConfig.plain (cache : CacheConfig n) (policy : SchedulingPolicy) : SchedulerConfig ℕ n where
  cache := cache
  hashBlockTokens := fun parent tokens _ => parent.getD 0 * 10 + tokens.sum
  hashBlockSize := 1
  policy := policy
  asyncScheduling := false
  useV2ModelRunner := false
  decodeStagger := 1
  maxNumRunningReqs := 8
  maxNumActiveReqs := 8
  maxNumScheduledTokens := 16
  maxNumBatchedTokens := 16
  longPrefillTokenThreshold := 0
  adaptiveLongPrefillThreshold := false
  enableChunkedPrefill := true
  schedulerReserveFullIsl := false
  numSampledTokensPerStep := 1
  numSpecTokens := 0
  numLookaheadTokens := 0
  numPrefillLookahead := 0
  draftSlots := 0
  dynamicSdLookup := none
  maxLoras := none
  isMmEncoderOnly := false
  isEncoderDecoder := false
  maxNumEncoderInputTokens := 16
  disableChunkedMmInput := false
  hasConnector := false
  supportsDivergentLocalHybridHits := false
  isKvProducer := false
  deferBlockFree := false
  requiresKvDelivery := false
  recomputeKvLoadFailures := false
  mambaBlockSize := 1
  needMambaBlockAlignedSplit := false
  mambaHasPrefillCheckpointBlocks := false
  mambaPrefillCheckpointAlignment := none
  mambaPartialCacheHit := false
  mambaSharedPrefixCheckpoint := false
  useEagleBlockDrop := false

structure Scheduler (H : Type) (n : ℕ) where
  requests : Dict RequestId (Request H)
  waiting : List RequestId
  kvHoldingWaiting : List RequestId
  deferredWaiting : List RequestId
  running : List RequestId
  finishedReqIds : List RequestId
  resetPreemptedReqIds : List RequestId
  numWaitingForStreamingInput : ℤ
  finishedRecvingKvReqIds : List RequestId
  failedRecvingKvReqIds : List RequestId
  grammarCompileErrorReqs : List RequestId
  encoderCacheMismatchReqs : List RequestId
  currentStep : ℕ
  prefillCapacityBound : Bool
  schedStepSeq : ℕ
  processedStepSeq : ℕ
  deferredFrees : List (ℕ × List KVCacheBlock)
  pauseState : PauseState
  inflightPrefills : List RequestId
  kv : KVCacheManager H n
  encoder : EncoderManager

abbrev SchedM (H : Type) (n : ℕ) := EStateM PyErr (Scheduler H n)

namespace Scheduler

/-- `__init__`. -/
def init (kv : KVCacheManager H n) (encoder : EncoderManager := .cache (.init 0)) : Scheduler H n where
  requests := .empty
  waiting := []
  kvHoldingWaiting := []
  deferredWaiting := []
  running := []
  finishedReqIds := []
  resetPreemptedReqIds := []
  numWaitingForStreamingInput := 0
  finishedRecvingKvReqIds := []
  failedRecvingKvReqIds := []
  grammarCompileErrorReqs := []
  encoderCacheMismatchReqs := []
  currentStep := 0
  prefillCapacityBound := false
  schedStepSeq := 0
  processedStepSeq := 0
  deferredFrees := []
  pauseState := .unpaused
  inflightPrefills := []
  kv := kv
  encoder := encoder

/-- Run a method of the cache manager. -/
def onKv {α : Type} (m : KvM H n α) : SchedM H n α := zoom Scheduler.kv (fun kv s => { s with kv }) m

/-- Run a method of the encoder cache manager. -/
def onEncoder {α : Type} (m : EStateM PyErr EncoderManager α) : SchedM H n α :=
  zoom Scheduler.encoder (fun encoder s => { s with encoder }) m

/-- `self.requests[request_id]`. -/
def getRequest (id : RequestId) : SchedM H n (Request H) := do
  match (← get).requests.get? id with
  | none => throw .keyError
  | some r => return r

/-- Write a request back. -/
def setRequest (id : RequestId) (r : Request H) : SchedM H n Unit :=
  modify fun s => { s with requests := s.requests.set id r }

variable (s : Scheduler H n)

/-- The order of a priority queue. -/
def requestLt (id id' : RequestId) : Bool :=
  match s.requests.get? id, s.requests.get? id' with
  | some r, some r' => r.lt r'
  | _, _ => false

/-- `get_request_counts`. -/
def getRequestCounts : ℕ × ℕ :=
  (s.running.length, s.waiting.length + s.kvHoldingWaiting.length)

def getNumUnfinishedRequests : ℤ :=
  match s.pauseState with
  | .pausedAll => 0
  | .pausedNew => s.kvHoldingWaiting.length - s.numWaitingForStreamingInput + s.running.length
  | .unpaused =>
    s.waiting.length + s.kvHoldingWaiting.length - s.numWaitingForStreamingInput + s.running.length

end Scheduler

/-- `_is_blocked_waiting_status`. -/
def RequestStatus.isBlockedWaiting : RequestStatus → Bool
  | .waitingForStructuredOutputGrammar | .waitingForRemoteKvs | .waitingForStreamingReq => true
  | _ => false

/-- `_holds_kv_blocks`. -/
def Request.holdsKvBlocks (r : Request H) : Bool :=
  0 < r.numComputedTokens || r.status = .waitingForRemoteKvs

/-- What `_preempt_request` makes of a request; all its output in flight becomes stale. -/
def Request.preempt (r : Request H) (dropStaleOutput : Bool) : Request H :=
  { r with
    status := .preempted
    numComputedTokens := 0
    specTokenIds := []
    dropStaleOutput := dropStaleOutput || (r.dropStaleOutput && 0 < r.numStaleOutputTokens)
    numStaleOutputTokens := r.numInFlightTokens
    numOutputPlaceholders := 0
    numPreemptions := r.numPreemptions + 1 }

/-- What `_handle_stopped_request` makes of a session before it looks for the next input: the tokens
that are still placeholders are not computed, and all its output in flight becomes stale. -/
def Request.endTurn (r : Request H) : Request H :=
  { r with
    numComputedTokens := ((r.numComputedTokens : ℤ) - r.numOutputPlaceholders).toNat
    specTokenIds := []
    dropStaleOutput := true
    numStaleOutputTokens := r.numInFlightTokens
    numOutputPlaceholders := 0 }

/-- What the connectors answer when a request finishes: whether its blocks are freed later. -/
abbrev DelayFree := RequestId → Bool

namespace SchedulerConfig

open Scheduler

variable (cfg : SchedulerConfig H n)

/-! ## Releasing blocks -/

/-- `_request_blocks_can_be_freed`: no unprocessed step scheduled the request. -/
def requestBlocksCanBeFreed (s : Scheduler H n) (r : Request H) : Bool :=
  cfg.deferBlockFree = false || r.lastSchedSeq ≤ s.processedStepSeq

/-- `_free_request_blocks`: now, or when the steps scheduled so far have been processed. -/
def freeRequestBlocks (r : Request H) : SchedM H n Unit := do
  if cfg.requestBlocksCanBeFreed (← get) r then onKv (cfg.cache.free r.requestId)
  else
    let blocks ← onKv (cfg.cache.popBlocksForFree r.requestId)
    runIf (blocks ≠ []) (modify fun s => { s with deferredFrees := s.deferredFrees ++ [(s.schedStepSeq, blocks)] })

/-- `_free_cow_retained_blocks`. -/
def freeCowRetainedBlocks (blocks : List KVCacheBlock) (fenceSeq : ℕ) : SchedM H n Unit := do
  if cfg.deferBlockFree = false ∨ fenceSeq ≤ (← get).processedStepSeq then
    onKv (KVCacheManager.onPool (BlockPool.freeBlocks blocks))
  else modify fun s => { s with deferredFrees := s.deferredFrees ++ [(fenceSeq, blocks.reverse)] }

/-- `_drain_deferred_frees`, over the given number of entries at most: stop at the first fence that
is not yet processed. -/
def drainDeferredFrees : ℕ → SchedM H n Unit
  | 0 => pure ()
  | fuel + 1 => do
    let s ← get
    match s.deferredFrees with
    | [] => pure ()
    | (fence, blocks) :: rest =>
      runIf (fence ≤ s.processedStepSeq) do
        modify fun s => { s with deferredFrees := rest }
        onKv (KVCacheManager.onPool (BlockPool.freeBlocks blocks.reverse))
        drainDeferredFrees fuel

/-! ## Moving requests between the queues -/

section

variable (id : RequestId)

/-- `_preempt_request`; the caller has taken the request out of `running`. -/
def preemptRequest (dropStaleOutput : Bool) : SchedM H n Unit := do
  let r ← getRequest id
  check (r.status = .running) (.assertionError "Only running requests can be preempted")
  cfg.freeRequestBlocks r
  onEncoder (EncoderManager.free r)
  setRequest id (r.preempt dropStaleOutput)
  modify fun s => { s with
    inflightPrefills := s.inflightPrefills.erase id
    waiting := cfg.policy.prependRequest s.requestLt s.waiting id
    resetPreemptedReqIds := s.resetPreemptedReqIds.insert id }

/-- `_enqueue_waiting_request`. -/
def enqueueWaitingRequest : SchedM H n Unit := do
  let r ← getRequest id
  runIf r.status.isBlockedWaiting (modify fun s => { s with deferredWaiting := s.deferredWaiting.insert id })
  if r.holdsKvBlocks then
    modify fun s => { s with kvHoldingWaiting := cfg.policy.addRequest s.requestLt s.kvHoldingWaiting id }
  else
    modify fun s => { s with waiting := cfg.policy.addRequest s.requestLt s.waiting id }

/-- The session after its next input chunk: the computed tokens become part of the prompt, and the
chunk's items are moved behind them. -/
def sessionRequest (r : Request H) (update : StreamingUpdate) : Request H :=
  let kept := r.allTokenIds.take r.numComputedTokens
  let promptTokenIds := r.promptTokenIds ++ kept.drop r.numPromptTokens ++ update.promptTokenIds
  Request.updateBlockHashes cfg.hashBlockTokens cfg.hashBlockSize { r with
    allTokenIds := kept ++ update.promptTokenIds
    blockHashes := r.blockHashes.take (r.numComputedTokens / cfg.hashBlockSize)
    extraKeys := fun i => if i < kept.length / cfg.hashBlockSize then r.extraKeys i else update.extraKeys i
    mmFeatures := r.mmFeatures ++ update.mmFeatures.map (MultiModalFeatureSpec.shift kept.length)
    outputTokenIds := []
    promptTokenIds := promptTokenIds
    numPromptTokens := promptTokenIds.length
    arrivalTime := update.arrivalTime
    samplingParams := update.samplingParams
    maxTokens := update.maxTokens
    status := .waiting }

/-- `_update_request_as_session`. -/
def updateRequestAsSession (update : StreamingUpdate) : SchedM H n Unit := do
  let r ← getRequest id
  runIf (r.status = .waitingForStreamingReq)
    (modify fun s => { s with numWaitingForStreamingInput := s.numWaitingForStreamingInput - 1 })
  setRequest id (cfg.sessionRequest r update)

/-- `_handle_stopped_request`: true if the request is finished, which a session may not be. -/
def handleStoppedRequest : SchedM H n Bool := do
  let r ← getRequest id
  if r.resumable = false then return true
  else do
    check ((r.numComputedTokens : ℤ) - r.numOutputPlaceholders ≥ 0) (.assertionError "safe_frontier >= 0")
    match r.streamingQueue with
    | some (none :: rest) =>
      setRequest id { r.endTurn with streamingQueue := some rest }
      return true
    | some (some update :: rest) =>
      setRequest id { r.endTurn with streamingQueue := some rest }
      cfg.updateRequestAsSession id update
      cfg.enqueueWaitingRequest id
      return false
    | _ =>
      setRequest id { r.endTurn with status := .waitingForStreamingReq }
      modify fun s => { s with numWaitingForStreamingInput := s.numWaitingForStreamingInput + 1 }
      cfg.enqueueWaitingRequest id
      return false

/-! ## Finishing requests -/

/-- `_free_blocks`. -/
def freeBlocks : SchedM H n Unit := do
  let r ← getRequest id
  check (r.isFinished) (.assertionError "request.is_finished()")
  cfg.freeRequestBlocks r
  modify fun s => { s with requests := s.requests.erase id }

end

variable (delayFree : DelayFree)

/-- `_connector_finished`: whether a connector keeps the blocks for now. -/
def connectorFinished (r : Request H) : SchedM H n Bool := do
  if cfg.hasConnector then
    runIf cfg.isKvProducer (onKv (CacheConfig.finalizePartialTailOffloads r.requestId))
    onKv (cfg.cache.removeSkippedBlocks r.requestId ((r.numComputedTokens : ℤ) - r.numInFlightTokens).toNat)
    return delayFree r.requestId
  else return false

/-- `_free_request`. -/
def freeRequest (id : RequestId) (delayFreeBlocks : Bool) : SchedM H n Unit := do
  let r ← getRequest id
  check (r.isFinished) (.assertionError "request.is_finished()")
  modify fun s => { s with inflightPrefills := s.inflightPrefills.erase id }
  let connectorDelay ← cfg.connectorFinished delayFree r
  onEncoder (EncoderManager.free r)
  modify fun s => { s with finishedReqIds := s.finishedReqIds.insert id }
  runIf (delayFreeBlocks = false ∧ connectorDelay = false) (cfg.freeBlocks id)

/-- The ids `finish_requests` is called with; `none` stands for all requests. -/
def requestedIds (s : Scheduler H n) : Option (List RequestId) → List RequestId
  | some ids => ids.dedup
  | none => s.requests.keys

/-- The unfinished requests among `ids`. -/
def unfinishedAmong (s : Scheduler H n) (ids : List RequestId) : List (Request H) :=
  (ids.filterMap s.requests.get?).filter (·.isFinished = false)

/-- The queues without the given requests, the first half of `finish_requests`. -/
def removeFromQueues (requests : List (Request H)) (s : Scheduler H n) : Scheduler H n :=
  let running := (requests.filter (·.status = .running)).map Request.requestId
  let waiting := (requests.filter (·.status ≠ .running)).map Request.requestId
  let streaming := requests.filter (·.status = .waitingForStreamingReq)
  { s with
    running := s.running.filter (· ∉ running)
    waiting := if waiting = [] then s.waiting else cfg.policy.removeRequests s.requestLt s.waiting waiting
    kvHoldingWaiting :=
      if waiting = [] then s.kvHoldingWaiting
      else cfg.policy.removeRequests s.requestLt s.kvHoldingWaiting waiting
    deferredWaiting := s.deferredWaiting.filter (· ∉ waiting)
    numWaitingForStreamingInput := s.numWaitingForStreamingInput - streaming.length }

/-- The second half of `finish_requests`, for one request: an unfinished remote load keeps its blocks. -/
def finishRequest (finishedStatus : RequestStatus) (id : RequestId) : SchedM H n Unit := do
  let r ← getRequest id
  let remote := r.status = .waitingForRemoteKvs
  let delayFreeBlocks := remote ∧ id ∉ (← get).finishedRecvingKvReqIds
  runIf remote (modify fun s => { s with
    finishedRecvingKvReqIds := s.finishedRecvingKvReqIds.erase id
    failedRecvingKvReqIds := s.failedRecvingKvReqIds.erase id })
  setRequest id { r with status := finishedStatus }
  cfg.freeRequest delayFree id delayFreeBlocks

/-- `finish_requests`. -/
def finishRequests (requestIds : Option (List RequestId)) (finishedStatus : RequestStatus) : SchedM H n Unit := do
  check (finishedStatus.isFinished) (.assertionError "is_finished(finished_status)")
  let s ← get
  let validRequests := unfinishedAmong s (requestedIds s requestIds)
  modify (cfg.removeFromQueues validRequests)
  forM validRequests fun r => cfg.finishRequest delayFree finishedStatus r.requestId

end SchedulerConfig

end VllmRwkv
