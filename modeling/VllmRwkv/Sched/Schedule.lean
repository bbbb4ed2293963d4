import VllmRwkv.Sched.State

/-!
# One scheduling pass

`Scheduler.schedule` of `v1/core/sched/scheduler.py` with `_update_after_schedule` of the two
scheduler classes. A pass first serves the running requests, preempting others when blocks run
out, and then admits waiting requests; its local variables are a `Pass`.

`ScheduleEnv` holds what the parts outside the model answer in one call. The loops count their
rounds down from a bound that they cannot exceed: the length of the queue they run over.
-/

namespace VllmRwkv

open Raise

variable {H : Type} {n : ℕ}

/-- What has become of the grammar of a structured-output request. -/
inductive GrammarState where
  | compiling
  | failed
  | ready
  deriving DecidableEq, Repr

/-- The answers of the connectors and the grammar compiler in one call. -/
structure ScheduleEnv (n : ℕ) where
  throttlePrefills : Bool
  /-- An encoder input of the request is still in transit. -/
  ecTransferPending : RequestId → Bool
  /-- There is an EC connector, and `has_cache_item` finds the item. -/
  ecHasCacheItem : ℕ → Bool
  grammar : RequestId → GrammarState
  /-- `has_pending_block_frees`, asked for a request after so many preemptions. -/
  hasPendingBlockFrees : RequestId → ℕ → Bool
  /-- `get_num_new_matched_tokens`, for a local hit of so many tokens. -/
  numNewMatchedTokens : RequestId → ℕ → Option ℕ × Bool
  loadedKvCacheGroupIds : RequestId → List (Fin n)

/-- The local variables of `schedule`. A dictionary of the source is a `Dict`. -/
structure Pass (n : ℕ) where
  tokenBudget : ℕ
  inputBudget : ℕ
  scheduledNewReqs : List RequestId := []
  scheduledResumedReqs : List RequestId := []
  scheduledRunningReqs : List RequestId := []
  preemptedReqs : List RequestId := []
  reqToNewBlocks : Dict RequestId (Fin n → List KVCacheBlock) := .empty
  numScheduledTokens : Dict RequestId ℕ := .empty
  scheduledEncoderInputs : Dict RequestId (List ℕ) := .empty
  encoderComputeBudget : ℤ := 0
  scheduledSpecDecodeTokens : Dict RequestId (List ℤ) := .empty
  prefillScheduled : Bool := false
  hasSyncKvLoads : Bool := false
  scheduledLoras : List ℕ := []
  stepSkippedWaiting : List RequestId := []
  stepSkippedKvHolding : List RequestId := []
  /-- The requests that were scheduled and then preempted; no code reads this. -/
  rolledBack : List RequestId := []

/-- What the worker is told about one scheduled request. -/
structure ScheduledRequest (n : ℕ) where
  reqId : RequestId
  blocks : Fin n → List KVCacheBlock
  numComputedTokens : ℕ

/-- `SchedulerOutput`. -/
structure SchedulerOutput (n : ℕ) where
  scheduledNewReqs : List (ScheduledRequest n)
  scheduledResumedReqs : List (ScheduledRequest n)
  scheduledCachedReqs : List (ScheduledRequest n)
  numScheduledTokens : Dict RequestId ℕ
  totalNumScheduledTokens : ℕ
  scheduledSpecDecodeTokens : Dict RequestId (List ℤ)
  scheduledEncoderInputs : Dict RequestId (List ℕ)
  freeEncoderMmHashes : List ℕ
  preemptedReqIds : List RequestId
  finishedReqIds : List RequestId
  kvCacheBlockCopies : List (KVCacheBlock × KVCacheBlock)
  numSpecTokensToSchedule : ℕ
  hasSyncKvLoads : Bool

namespace SchedulerConfig

open Scheduler

variable (cfg : SchedulerConfig H n)

/-! ## The size of a chunk -/

/-- The tokens one prefill chunk may have at most, whatever else is scheduled. -/
def maxPrefillTokens : ℕ :=
  if 0 < cfg.longPrefillTokenThreshold then min cfg.maxNumScheduledTokens cfg.longPrefillTokenThreshold
  else cfg.maxNumScheduledTokens

/-- `_mamba_block_aligned_split`: clip a prefill chunk so that it ends where a state must be cached. -/
def mambaBlockAlignedSplit (r : Request H) (numNewTokens numNewLocalComputedTokens numExternalComputedTokens : ℕ) : ℕ :=
  let start := r.numComputedTokens + numNewLocalComputedTokens + numExternalComputedTokens
  let prefillEnd := max r.numPromptTokens (r.numTokens - 1)
  if prefillEnd ≤ start then numNewTokens
  else
    let blockSize := cfg.mambaBlockSize
    let ckptBlockSize := if cfg.mambaPartialCacheHit then cfg.hashBlockSize else cfg.cache.schedulerBlockSize
    let chunkEnd := start + numNewTokens
    let checkpointPosition :=
      getMambaPrefillCheckpointPosition prefillEnd ckptBlockSize cfg.useEagleBlockDrop
    let useInternalCheckpoint := cfg.mambaHasPrefillCheckpointBlocks && prefillEnd ≤ chunkEnd &&
      isMambaPrefillCheckpointValid start chunkEnd checkpointPosition cfg.hashBlockSize blockSize
        cfg.mambaPrefillCheckpointAlignment
    let lastCachePosition :=
      if useInternalCheckpoint then 0
      else getMambaPrefillCheckpointPosition r.numTokens blockSize cfg.useEagleBlockDrop
    let alignedEnd := chunkEnd / blockSize * blockSize
    let chunkEnd :=
      if chunkEnd < prefillEnd ∧ (start < alignedEnd ∨ blockSize ≤ cfg.maxPrefillTokens) then alignedEnd
      else chunkEnd
    let nextBlockBoundary := (start / blockSize + 1) * blockSize
    let tailBoundary :=
      if cfg.mambaPartialCacheHit && !useInternalCheckpoint then
        getMambaPrefillCheckpointPosition r.numPromptTokens cfg.hashBlockSize cfg.useEagleBlockDrop
      else 0
    let junction := r.sharedPrefixBoundary
    let blockFloored := start + (junction - start) / blockSize * blockSize
    let junctionStop :=
      if cfg.mambaSharedPrefixCheckpoint ∧ junction ≤ r.numPromptTokens then junction else blockFloored
    let stops := [
      if start % blockSize ≠ 0 ∧ useInternalCheckpoint = false then nextBlockBoundary else 0,
      lastCachePosition,
      if lastCachePosition < tailBoundary ∧ tailBoundary < r.numPromptTokens then tailBoundary else 0,
      if start < junction ∧ junction < chunkEnd then junctionStop else 0]
    let inside := stops.filter fun stop => start < stop ∧ stop < chunkEnd
    inside.min?.getD chunkEnd - start

/-- `_reserve_prefill_lookahead`. -/
def reservePrefillLookahead (r : Request H) (numComputedTokens numNewTokens : ℕ) : ℕ :=
  let remaining : ℤ := r.numTokens - numComputedTokens - numNewTokens
  if 0 < remaining ∧ remaining < cfg.numPrefillLookahead then
    (numNewTokens - (cfg.numPrefillLookahead - remaining)).toNat
  else numNewTokens

/-- The threshold on long prefills, 0 if there is none. -/
def longPrefillThreshold (s : Scheduler H n) : ℕ :=
  let numEligibleReqs := s.getRequestCounts.1 + s.getRequestCounts.2
  let threshold := if 1 < numEligibleReqs then cfg.longPrefillTokenThreshold else 0
  if 0 < threshold ∧ cfg.adaptiveLongPrefillThreshold then
    max threshold (cfg.maxNumBatchedTokens / numEligibleReqs)
  else threshold

section

variable (env : ScheduleEnv n)

/-- Whether prefills wait for a cadence-aligned step. -/
def deferPrefills (s : Scheduler H n) : Bool :=
  env.throttlePrefills && !s.prefillCapacityBound &&
    (s.running.filterMap s.requests.get?).any fun r => !r.isPrefillChunk

/-! ## Encoder inputs -/

/-- What `_try_schedule_encoder_inputs` returns. -/
structure EncoderPlan where
  numNewTokens : ℕ
  encoderComputeBudget : ℤ
  encoderInputsToSchedule : List ℕ := []
  externalLoadEncoderInput : List ℕ := []
  duplicateEncoderInputs : List ℕ := []

/-- The plan of a request that is not scheduled for now. -/
def EncoderPlan.rejected (plan : EncoderPlan) : EncoderPlan :=
  { numNewTokens := 0, encoderComputeBudget := plan.encoderComputeBudget }

/-- What is known about an item before the encoder has to run on it. -/
inductive EncoderHit where
  /-- The item is known with another number of embeddings. -/
  | mismatch
  /-- The request has it at an earlier place of the same chunk. -/
  | duplicate
  | cached
  | miss
  deriving DecidableEq, Repr

section

variable (id : RequestId)

/-- `_reject_on_encoder_cache_embed_mismatch`: true if the two numbers of embeddings differ. -/
def rejectOnEncoderCacheEmbedMismatch (cachedNumEncoderEmbeds requestedNumEncoderEmbeds : ℕ) : SchedM H n Bool := do
  if cachedNumEncoderEmbeds = requestedNumEncoderEmbeds then return false
  else do
    modify fun s => { s with encoderCacheMismatchReqs := s.encoderCacheMismatchReqs.insert id }
    return true

/-- The first half of a round of `_try_schedule_encoder_inputs`. With an encoder and a decoder nothing
is looked up. -/
def lookupEncoderInput (r : Request H) (inputId : ℕ) (f : MultiModalFeatureSpec)
    (mmHashesToSchedule : Dict ℕ ℕ) : SchedM H n EncoderHit := do
  if cfg.isEncoderDecoder then return .miss
  else match mmHashesToSchedule.get? f.identifier with
    | some scheduled =>
      if ← rejectOnEncoderCacheEmbedMismatch r.requestId scheduled f.mmPosition.getNumEmbeds then
        return .mismatch
      else return .duplicate
    | none =>
      let known := ((← get).encoder.getCachedNumEncoderEmbeds f.identifier).getD f.mmPosition.getNumEmbeds
      if ← rejectOnEncoderCacheEmbedMismatch r.requestId known f.mmPosition.getNumEmbeds then
        return .mismatch
      else if ← onEncoder (EncoderManager.checkAndUpdateCache r inputId) then return .cached
      else return .miss

/-- Whether a chunk ends inside an item that may not be split. -/
def splitsItem (f : MultiModalFeatureSpec) (numComputedTokens numNewTokens : ℕ) : Bool :=
  cfg.disableChunkedMmInput && numComputedTokens < f.mmPosition.offset && numComputedTokens + numNewTokens < f.stop

/-- Whether the window holds none of an item's embeddings. -/
def embedsNothing (f : MultiModalFeatureSpec) (numComputedTokens encoderWindowEnd : ℕ) : Bool :=
  let range := f.mmPosition.getEmbedsIndicesInRange (numComputedTokens - f.mmPosition.offset)
    (min f.mmPosition.length (encoderWindowEnd - f.mmPosition.offset))
  range.1 = range.2

/-- The loop of `_try_schedule_encoder_inputs` over the inputs in the window, with the items planned so
far and the number of their embeddings. -/
def encoderLoop (env : ScheduleEnv n) (r : Request H) (numComputedTokens encoderWindowEnd : ℕ) :
    List ℕ → Dict ℕ ℕ → ℕ → EncoderPlan → SchedM H n EncoderPlan
  | [], _, _, plan => pure plan
  | inputId :: rest, mmHashes, numEmbeds, plan => do
    match r.mmFeatures[inputId]? with
    | none => throw .indexError
    | some f =>
      let loop := encoderLoop env r numComputedTokens encoderWindowEnd rest
      -- the decoder tokens before an item that cannot be scheduled
      let before := f.mmPosition.offset - (numComputedTokens + cfg.numPrefillLookahead)
      if cfg.isEncoderDecoder ∧ 0 < numComputedTokens then do
        check (f.mmPosition.offset = 0) (.assertionError ("Encoder input should be processed at the " ++
          "beginning of the sequence when encoder-decoder models are used."))
        loop mmHashes numEmbeds plan
      else
        match ← cfg.lookupEncoderInput r inputId f mmHashes with
        | .mismatch => return plan.rejected
        | .duplicate =>
          loop mmHashes numEmbeds { plan with duplicateEncoderInputs := plan.duplicateEncoderInputs ++ [inputId] }
        | .cached => loop mmHashes numEmbeds plan
        | .miss =>
          if cfg.splitsItem f numComputedTokens plan.numNewTokens then
            return { plan with numNewTokens := before }
          else if ← onEncoder (EncoderManager.canAllocate r inputId plan.encoderComputeBudget numEmbeds) then
            let embeds := f.mmPosition.getNumEmbeds
            if embedsNothing f numComputedTokens encoderWindowEnd then loop mmHashes numEmbeds plan
            else if env.ecHasCacheItem f.identifier then
              loop (mmHashes.set f.identifier embeds) (numEmbeds + embeds)
                { plan with externalLoadEncoderInput := plan.externalLoadEncoderInput ++ [inputId] }
            else
              loop (mmHashes.set f.identifier embeds) (numEmbeds + embeds) { plan with
                  encoderComputeBudget := plan.encoderComputeBudget - embeds
                  encoderInputsToSchedule := plan.encoderInputsToSchedule ++ [inputId] }
          else return { plan with numNewTokens := before }

/-- `_try_schedule_encoder_inputs`. -/
def tryScheduleEncoderInputs (r : Request H) (numComputedTokens numNewTokens : ℕ)
    (encoderComputeBudget : ℤ) : SchedM H n EncoderPlan :=
  let plan : EncoderPlan := ⟨numNewTokens, encoderComputeBudget, [], [], []⟩
  if numNewTokens = 0 ∨ r.mmFeatures = [] then pure plan
  else
    let encoderWindowEnd := numComputedTokens + numNewTokens + cfg.numPrefillLookahead
    let (lo, hi) := getMmFeaturesInWindow r.mmFeatures numComputedTokens encoderWindowEnd
    let lo := if cfg.isEncoderDecoder then 0 else lo
    cfg.encoderLoop env r numComputedTokens encoderWindowEnd (List.range' lo (hi - lo)) .empty 0 plan

/-- `_allocate_encoder_inputs`, if there is anything to allocate. -/
def allocateEncoderInputs (r : Request H) (plan : EncoderPlan) : SchedM H n Unit :=
  let inputIds := plan.encoderInputsToSchedule ++ plan.externalLoadEncoderInput
  runIf (inputIds ≠ []) do
    forM inputIds fun inputId => onEncoder (EncoderManager.allocate r inputId)
    forM plan.duplicateEncoderInputs fun inputId => do
      let _ ← onEncoder (EncoderManager.checkAndUpdateCache r inputId)

/-- Record the encoder inputs of a scheduled request. -/
def recordEncoder (plan : EncoderPlan) (p : Pass n) : Pass n :=
  if plan.encoderInputsToSchedule = [] then p
  else { p with
    scheduledEncoderInputs := p.scheduledEncoderInputs.set id plan.encoderInputsToSchedule
    encoderComputeBudget := plan.encoderComputeBudget }

/-! ## Running requests -/

/-- The request has nothing to do in this step. -/
def skipsRunning (deferPrefills : Bool) (s : Scheduler H n) (r : Request H) : Bool :=
  (0 < r.numOutputPlaceholders ∧
    (r.numComputedTokens : ℤ) + 2 - r.numOutputPlaceholders ≥ r.numPromptTokens + r.maxTokens) ||
  s.currentStep < r.nextDecodeEligibleStep ||
  (deferPrefills && r.isPrefillChunk) ||
  env.ecTransferPending r.requestId

/-- The tokens a running request gets in this step, before its encoder inputs are looked at. -/
def runningNumNewTokens (threshold : ℕ) (p : Pass n) (r : Request H) : ℕ :=
  let numNewTokens := ((r.numTokensWithSpec : ℤ) + r.numOutputPlaceholders - r.numComputedTokens).toNat
  let numNewTokens := if 0 < threshold ∧ threshold < numNewTokens then threshold else numNewTokens
  let numNewTokens := min numNewTokens (min p.tokenBudget (p.inputBudget - cfg.draftSlots))
  let numNewTokens :=
    min numNewTokens (cfg.cache.maxModelLen - r.numComputedTokens - cfg.numSampledTokensPerStep)
  if cfg.needMambaBlockAlignedSplit then cfg.mambaBlockAlignedSplit r numNewTokens 0 0
  else numNewTokens

/-- The arguments of `allocate_slots` for a running request. -/
def runningSlotArgs (numNewTokens : ℕ) : CacheConfig.SlotArgs n where
  numNewTokens := numNewTokens
  numNewComputedTokens := 0
  newComputedBlocks := fun _ => []
  numLookaheadTokens := cfg.numLookaheadTokens
  numExternalComputedTokens := 0
  delayCacheBlocks := false
  fullSequenceMustFit := false
  reservedBlocks := 0
  hasScheduledReqs := false
  skipZeroingGroupIds := []

/-- The request that `max` with the key `(priority, arrival_time)` picks: the first of the largest. -/
def lowestPriority : List (Request H) → Option (Request H)
  | [] => none
  | r :: rs =>
    match lowestPriority rs with
    | none => some r
    | some best =>
      if r.priority < best.priority ∨ (r.priority = best.priority ∧ r.arrivalTime < best.arrivalTime) then
        some best
      else some r

/-- The request to preempt next. -/
def victim (s : Scheduler H n) : Option RequestId :=
  match cfg.policy with
  | .fcfs => s.running.getLast?
  | .priority => (lowestPriority (s.running.filterMap s.requests.get?)).map Request.requestId

/-- The embeddings of some inputs of a request. -/
def numEncoderEmbeds (r : Request H) (inputIds : List ℕ) : ℕ :=
  ((inputIds.filterMap fun i => r.mmFeatures[i]?).map fun f => f.mmPosition.getNumEmbeds).sum

/-- Take back what the pass has recorded about a request. -/
def Pass.rollback (p : Pass n) (draftSlots : ℕ) (id : RequestId) (r : Request H) : Pass n :=
  let restored := (p.numScheduledTokens.get? id).getD 0
  { p with
    scheduledRunningReqs := p.scheduledRunningReqs.erase id
    numScheduledTokens := p.numScheduledTokens.erase id
    tokenBudget := p.tokenBudget + restored
    inputBudget := p.inputBudget + restored + draftSlots
    reqToNewBlocks := p.reqToNewBlocks.erase id
    scheduledSpecDecodeTokens := p.scheduledSpecDecodeTokens.erase id
    scheduledEncoderInputs := p.scheduledEncoderInputs.erase id
    encoderComputeBudget := p.encoderComputeBudget + numEncoderEmbeds r ((p.scheduledEncoderInputs.get? id).getD [])
    rolledBack := p.rolledBack ++ [id] }

/-- Take the victim out of `running`: the index of the current request and the pass afterwards. -/
def dropVictim (r : Request H) (reqIndex : ℕ) (p : Pass n) : SchedM H n (ℕ × Pass n) := do
  let running := (← get).running
  match cfg.policy with
  | .fcfs =>
    modify fun s => { s with running := running.dropLast }
    return (reqIndex, p)
  | .priority =>
    let victimIndex := running.idxOf id
    modify fun s => { s with running := running.eraseIdx victimIndex }
    return (if victimIndex < reqIndex then reqIndex - 1 else reqIndex,
      if id ∈ p.scheduledRunningReqs then Pass.rollback p cfg.draftSlots id r else p)

/-- The inner loop of the running requests: allocate slots, preempting until there is room. A round
takes one request out of `running`. -/
def allocateOrPreempt (env : ScheduleEnv n) [DecidableEq H] (id : RequestId) (numNewTokens : ℕ) :
    ℕ → ℕ → Pass n → SchedM H n (Option (Fin n → List KVCacheBlock) × ℕ × Pass n)
  | 0, reqIndex, p => pure (none, reqIndex, p)
  | fuel + 1, reqIndex, p => do
    let r ← getRequest id
    match ← onKv (cfg.cache.allocateSlots r (cfg.runningSlotArgs numNewTokens)) with
    | some newBlocks => return (some newBlocks, reqIndex, p)
    | none =>
      if cfg.hasConnector ∧ env.hasPendingBlockFrees id p.preemptedReqs.length then
        return (none, reqIndex, p)
      else
        match cfg.victim (← get) with
        | none => throw .indexError
        | some preempted => do
          let v ← getRequest preempted
          if cfg.requestBlocksCanBeFreed (← get) v = false then return (none, reqIndex, p)
          else do
            let (reqIndex, p) ← cfg.dropVictim preempted v reqIndex p
            cfg.preemptRequest preempted cfg.requiresKvDelivery
            let p := { p with preemptedReqs := p.preemptedReqs ++ [preempted] }
            if preempted = id then return (none, reqIndex, p)
            else allocateOrPreempt env id numNewTokens fuel reqIndex p

/-- Record a running request as scheduled. -/
def recordRunning (r : Request H) (numNewTokens : ℕ) (newBlocks : Fin n → List KVCacheBlock) (p : Pass n) : Pass n :=
  let numScheduledSpecTokens : ℤ :=
    numNewTokens + r.numComputedTokens - r.numTokens - r.numOutputPlaceholders
  { p with
    scheduledRunningReqs := p.scheduledRunningReqs ++ [id]
    prefillScheduled := p.prefillScheduled || r.isPrefillChunk
    reqToNewBlocks := p.reqToNewBlocks.set id newBlocks
    numScheduledTokens := p.numScheduledTokens.set id numNewTokens
    tokenBudget := p.tokenBudget - numNewTokens
    inputBudget := p.inputBudget - (numNewTokens + cfg.draftSlots)
    scheduledSpecDecodeTokens :=
      if r.specTokenIds ≠ [] ∧ 0 < numScheduledSpecTokens then
        p.scheduledSpecDecodeTokens.set id (r.specTokenIds.take numScheduledSpecTokens.toNat)
      else p.scheduledSpecDecodeTokens }

end

/-- The loop over the running requests. A round leaves one request fewer to visit. -/
def runningLoop (env : ScheduleEnv n) [DecidableEq H] (deferPrefills : Bool) (threshold : ℕ) :
    ℕ → ℕ → Pass n → SchedM H n (Pass n)
  | 0, _, p => pure p
  | fuel + 1, reqIndex, p => do
    let s ← get
    match s.running[reqIndex]? with
    | none => return p
    | some id => do
      if p.tokenBudget = 0 ∨ p.inputBudget ≤ cfg.draftSlots then return p
      else do
        let r ← getRequest id
        if skipsRunning env deferPrefills s r then
          runningLoop env deferPrefills threshold fuel (reqIndex + 1) p
        else do
          let plan ← cfg.tryScheduleEncoderInputs env r r.numComputedTokens
            (cfg.runningNumNewTokens threshold p r) p.encoderComputeBudget
          let numNewTokens := cfg.reservePrefillLookahead r r.numComputedTokens plan.numNewTokens
          if numNewTokens = 0 then runningLoop env deferPrefills threshold fuel (reqIndex + 1) p
          else do
            match ← cfg.allocateOrPreempt env id numNewTokens s.running.length reqIndex p with
            | (none, _, p) => return p
            | (some newBlocks, reqIndex, p) => do
              setRequest id { r with specTokenIds := [] }
              allocateEncoderInputs r plan
              runningLoop env deferPrefills threshold fuel (reqIndex + 1)
                (recordEncoder id plan (cfg.recordRunning id r numNewTokens newBlocks p))

/-! ## Waiting requests -/

/-- The running-slot count that gates admission; paused sessions keep their slot. -/
def numActive (s : Scheduler H n) : ℤ := s.running.length + s.numWaitingForStreamingInput

/-- Take the head off the queue that is served. -/
def popQueue (fromKvHolding : Bool) : SchedM H n RequestId := do
  let s ← get
  let queue := if fromKvHolding then s.kvHoldingWaiting else s.waiting
  match cfg.policy.popRequest s.requestLt queue with
  | none => throw .indexError
  | some (id, rest) =>
    if fromKvHolding then modify fun s => { s with kvHoldingWaiting := rest }
    else modify fun s => { s with waiting := rest }
    return id

/-- `skip_request`: put the head of the queue aside until the end of the pass. -/
def skipRequest (fromKvHolding : Bool) (p : Pass n) : SchedM H n (Pass n) := do
  let id ← cfg.popQueue fromKvHolding
  modify fun s => { s with deferredWaiting := s.deferredWaiting.insert id }
  let r ← getRequest id
  if r.holdsKvBlocks then return { p with stepSkippedKvHolding := id :: p.stepSkippedKvHolding }
  else return { p with stepSkippedWaiting := id :: p.stepSkippedWaiting }

/-- `_update_waiting_for_remote_kv`: the load is over; cache what has arrived. -/
def updateWaitingForRemoteKv [DecidableEq H] (id : RequestId) : SchedM H n Unit := do
  let r ← getRequest id
  let loadFailed := id ∈ (← get).failedRecvingKvReqIds
  onKv (if loadFailed ∧ r.numComputedTokens = 0 then cfg.cache.free id
    else cfg.cache.cacheBlocks r r.numComputedTokens)
  setRequest id { r with
    numComputedTokens :=
      if r.numComputedTokens = r.numTokens then r.numTokens - 1 else r.numComputedTokens }
  modify fun s => { s with
    failedRecvingKvReqIds := s.failedRecvingKvReqIds.erase id
    finishedRecvingKvReqIds := s.finishedRecvingKvReqIds.erase id }

/-- `_handle_blocked_waiting_request`: whether scheduling of the request can proceed. -/
def handleBlockedWaitingRequest [DecidableEq H] (env : ScheduleEnv n) (id : RequestId) : SchedM H n Bool := do
  let r ← getRequest id
  match r.status with
  | .waitingForRemoteKvs =>
    if id ∈ (← get).finishedRecvingKvReqIds then do
      cfg.updateWaitingForRemoteKv id
      let r ← getRequest id
      setRequest id { r with status := if r.numPreemptions ≠ 0 then .preempted else .waiting }
      return true
    else return false
  | .waitingForStructuredOutputGrammar =>
    match env.grammar id with
    | .compiling => return false
    | .failed =>
      modify fun s => { s with grammarCompileErrorReqs := s.grammarCompileErrorReqs.insert id }
      return false
    | .ready =>
      setRequest id { r with status := .waiting }
      return true
  | .waitingForStreamingReq =>
    check (r.streamingQueue.getD [] = []) (.assertionError "not request.streaming_queue")
    return false
  | _ => return true

/-- The computed tokens a waiting request starts with. -/
structure Lookup (n : ℕ) where
  newComputedBlocks : Fin n → List KVCacheBlock
  numNewLocalComputedTokens : ℕ
  numExternalComputedTokens : ℕ
  loadKvAsync : Bool
  numComputedTokens : ℕ

section

variable (r : Request H)

/-- `_get_local_prefix_cache_hit`. -/
def getLocalPrefixCacheHit : KvM H n ((Fin n → List KVCacheBlock) × ℕ × ℕ × Bool) := do
  if cfg.hasConnector ∧ cfg.supportsDivergentLocalHybridHits then
    cfg.cache.getComputedBlocksForConnector r
  else
    let (blocks, numLocal, boundary) ← cfg.cache.getComputedBlocks r
    return (blocks, numLocal, boundary, false)

variable (blocks : Fin n → List KVCacheBlock)

/-- The hit when the tail is kept. Groups that diverge need the connector: without its tokens the hit
is looked up again. -/
def settleHit (numLocal numExternal : ℕ) (hitDiverged loadKvAsync : Bool) : SchedM H n (Option (Lookup n)) := do
  if hitDiverged ∧ numExternal = 0 then do
    let (blocks, numLocal, boundary) ← onKv (cfg.cache.getComputedBlocks r)
    setRequest r.requestId { r with sharedPrefixBoundary := boundary }
    return some ⟨blocks, numLocal, 0, loadKvAsync, numLocal⟩
  else return some ⟨blocks, numLocal, numExternal, loadKvAsync, numLocal + numExternal⟩

variable (numLocal : ℕ) (hitDiverged : Bool)

/-- What the connector adds to a local hit; nothing if it cannot tell yet. -/
def connectorHit : SchedM H n (Option (Lookup n)) := do
  let partialTail := numLocal % cfg.cache.schedulerBlockSize
  let blockAlignedLocal := numLocal - partialTail
  let (extTokens, loadKvAsync) :=
    if r.skipReadingPrefixCache then (some 0, false)
    else env.numNewMatchedTokens r.requestId blockAlignedLocal
  match extTokens with
  | none => return none
  | some ext =>
    if partialTail ≠ 0 ∧ partialTail < ext then
      -- the remote hit exceeds the local one: the sub-block tail is given up
      match cfg.cache.truncateComputedBlocks blocks blockAlignedLocal with
      | .error e => throw e
      | .ok blocks =>
        return some ⟨blocks, blockAlignedLocal, ext, loadKvAsync, blockAlignedLocal + ext⟩
    else
      cfg.settleHit r blocks numLocal (if partialTail ≠ 0 then 0 else ext) hitDiverged (partialTail = 0 && loadKvAsync)

/-- The local hit with what a connector adds to it. -/
def externalHit : SchedM H n (Option (Lookup n)) :=
  if cfg.hasConnector then cfg.connectorHit env r blocks numLocal hitDiverged
  else pure (some ⟨blocks, numLocal, 0, false, numLocal⟩)

end

/-- The tokens already computed for a waiting request; nothing if it has to be skipped. -/
def lookupComputed (id : RequestId) : SchedM H n (Option (Lookup n)) := do
  let r ← getRequest id
  if r.numComputedTokens = 0 then do
    let (blocks, numLocal, boundary, hitDiverged) ← onKv (cfg.getLocalPrefixCacheHit r)
    let r := { r with sharedPrefixBoundary := boundary }
    setRequest id r
    match ← cfg.externalHit env r blocks numLocal hitDiverged with
    | none => return none
    | some look => do
      check (look.numComputedTokens ≤ r.numTokens) (.assertionError "num_computed_tokens <= request.num_tokens")
      return if env.ecTransferPending id then none else some look
  else
    -- after a remote load, or a session that resumes
    return if env.ecTransferPending id then none
      else some ⟨fun _ => [], 0, 0, false, r.numComputedTokens⟩

variable (deferPrefills : Bool) (threshold : ℕ) (p : Pass n)

/-- The size of the first chunk of a waiting request before its encoder inputs are looked at, and
whether it is padded to the uniform size of speculative decoding; nothing if admission stops here. -/
def waitingNumNewTokens (r : Request H) (look : Lookup n) : Except PyErr (Option (ℕ × Bool)) :=
  let requestTokenBudget := min p.tokenBudget (p.inputBudget - cfg.draftSlots)
  let numNewTokens := r.numTokens - look.numComputedTokens
  let paddedNumTokens := 1 + cfg.numSpecTokens
  let pad : Bool := 0 < cfg.numSpecTokens ∧ cfg.dynamicSdLookup.isNone ∧ 0 < cfg.numSampledTokensPerStep ∧
    numNewTokens = 1 ∧ p.prefillScheduled = false ∧
    (p.scheduledRunningReqs ≠ [] ∨ 0 < look.numComputedTokens) ∧
    look.numComputedTokens + paddedNumTokens + cfg.numSampledTokensPerStep ≤ cfg.cache.maxModelLen
  if deferPrefills ∧ look.numComputedTokens < r.numTokens - 1 then .ok none
  else if pad ∧ requestTokenBudget < paddedNumTokens then .ok none
  else
    let numNewTokens := if pad then paddedNumTokens else numNewTokens
    let numNewTokens := if 0 < threshold ∧ threshold < numNewTokens then threshold else numNewTokens
    if cfg.enableChunkedPrefill = false ∧ requestTokenBudget < numNewTokens ∧ cfg.isMmEncoderOnly = false then
      .ok none
    else
      let numNewTokens := min numNewTokens requestTokenBudget
      if numNewTokens = 0 then .error (.assertionError "num_new_tokens > 0")
      else
        let split :=
          if cfg.needMambaBlockAlignedSplit then
            cfg.mambaBlockAlignedSplit r numNewTokens look.numNewLocalComputedTokens look.numExternalComputedTokens
          else numNewTokens
        if split = 0 then .ok none
        else
          -- a padded request keeps all its rows or none
          let clipped : Bool := cfg.needMambaBlockAlignedSplit && pad && split ≠ paddedNumTokens
          .ok (some (if clipped then 1 else split, pad && !clipped))

/-- `_spec_decode_step_blocks`. -/
def specDecodeStepBlocks : ℕ :=
  if cfg.numSpecTokens = 0 then 0
  else cdiv (1 + cfg.numSpecTokens + cfg.numLookaheadTokens) cfg.cache.schedulerBlockSize

/-- `_request_remaining_blocks`. -/
def requestRemainingBlocks [DecidableEq H] (r : Request H) : KvM H n ℤ := do
  let fullNumTokens := min r.numTokens cfg.cache.maxModelLen
  let numBlocks ← cfg.cache.getNumBlocksToAllocate fun _ =>
    { requestId := r.requestId
      numTokens := fullNumTokens
      newComputedBlocks := []
      totalComputedTokens := r.numComputedTokens
      numLocalComputedTokens := r.numComputedTokens
      numTokensMainModel := fullNumTokens
      applyAdmissionCap := true
      prefillEnd := CacheConfig.SlotArgs.prefillEnd cfg.cache r }
  return numBlocks + cfg.specDecodeStepBlocks

/-- `_inflight_prefill_reserved_blocks`. -/
def inflightPrefillReservedBlocks [DecidableEq H] : SchedM H n ℤ := do
  let s ← get
  (s.inflightPrefills.filterMap s.requests.get?).foldlM
    (fun total r => do return total + (← onKv (cfg.requestRemainingBlocks r))) 0

/-- The blocks an asynchronous load leaves for the prefills in flight. -/
def reservedBlocks [DecidableEq H] (loadKvAsync : Bool) : SchedM H n ℕ :=
  if loadKvAsync then do
    let reserved ← cfg.inflightPrefillReservedBlocks
    return reserved.toNat + cfg.specDecodeStepBlocks
  else pure 0

/-- The arguments of `allocate_slots` for a waiting request. -/
def waitingSlotArgs (s : Scheduler H n) (id : RequestId) (look : Lookup n)
    (numNewTokens reservedBlocks : ℕ) : CacheConfig.SlotArgs n where
  numNewTokens := numNewTokens
  numNewComputedTokens := look.numNewLocalComputedTokens
  newComputedBlocks := look.newComputedBlocks
  numLookaheadTokens := if look.loadKvAsync then 0 else cfg.numLookaheadTokens
  numExternalComputedTokens := look.numExternalComputedTokens
  delayCacheBlocks := look.loadKvAsync
  fullSequenceMustFit := cfg.schedulerReserveFullIsl
  reservedBlocks := reservedBlocks
  hasScheduledReqs := s.running ≠ []
  skipZeroingGroupIds :=
    if look.loadKvAsync ∧ cfg.hasConnector then env.loadedKvCacheGroupIds id else []

/-- The tokens of a waiting request that are scheduled, with their encoder inputs. -/
structure Chunk where
  numNewTokens : ℕ
  padSpecDecode : Bool
  encoder : EncoderPlan

/-- What the pass does with the request at the head of a queue. -/
inductive Verdict (n : ℕ) where
  /-- Put it aside and go on. -/
  | skip
  /-- Admit nothing more. -/
  | stop
  | accept (look : Lookup n) (chunk : Chunk)

/-- The chunk of a waiting request; an asynchronous load has none. -/
def firstChunk (r : Request H) (look : Lookup n) : SchedM H n (Option Chunk) := do
  if look.loadKvAsync then do
    check (look.numExternalComputedTokens > 0) (.assertionError "num_external_computed_tokens > 0")
    return some ⟨0, false, ⟨0, p.encoderComputeBudget, [], [], []⟩⟩
  else
    match cfg.waitingNumNewTokens deferPrefills threshold p r look with
    | .error e => throw e
    | .ok none => return none
    | .ok (some (numNewTokens, padSpecDecode)) => do
      let plan ← cfg.tryScheduleEncoderInputs env r look.numComputedTokens numNewTokens p.encoderComputeBudget
      let numNewTokens := cfg.reservePrefillLookahead r look.numComputedTokens plan.numNewTokens
      return if numNewTokens = 0 then none else some ⟨numNewTokens, padSpecDecode, plan⟩

end

/-- Scheduling the request would exceed the number of adapters of a batch. -/
def exceedsLoras (p : Pass n) (r : Request H) : Bool :=
  match cfg.maxLoras, r.loraIntId with
  | some maxLoras, some lora => p.scheduledLoras.length = maxLoras && lora ∉ p.scheduledLoras
  | _, _ => false

section

variable [DecidableEq H] (env : ScheduleEnv n)

/-- Allocate slots for the request at the head of a queue. -/
def allocateWaiting (id : RequestId) (look : Lookup n) (chunk : Chunk) : SchedM H n (Verdict n) := do
  let reservedBlocks ← cfg.reservedBlocks look.loadKvAsync
  let r ← getRequest id
  let s ← get
  match ← onKv (cfg.cache.allocateSlots r (cfg.waitingSlotArgs env s id look chunk.numNewTokens reservedBlocks)) with
  | none => do
    runIf (r.mmFeatures ≠ []) (onEncoder (EncoderManager.free r))
    return .stop
  | some _ =>
    if look.loadKvAsync then do
      setRequest id { r with
        status := .waitingForRemoteKvs
        numComputedTokens := look.numComputedTokens }
      modify fun s => { s with inflightPrefills := s.inflightPrefills.insert id }
      return .skip
    else return .accept look chunk

/-- Decide about the request at the head of a queue. -/
def tryAdmit (deferPrefills : Bool) (threshold : ℕ) (p : Pass n) (id : RequestId) : SchedM H n (Verdict n) := do
  if ← cfg.handleBlockedWaitingRequest env id then do
    let r ← getRequest id
    if r.numStaleOutputTokens ≠ 0 ∧ r.dropStaleOutput = false then
      -- resuming now could resample a position that the late output delivers
      return .skip
    else if cfg.exceedsLoras p r then return .skip
    else
      match ← cfg.lookupComputed env id with
      | none => return .skip
      | some look => do
        match ← cfg.firstChunk env deferPrefills threshold p (← getRequest id) look with
        | none => return .stop
        | some chunk => cfg.allocateWaiting env id look chunk
  else return .skip

end

/-- The rows of a request in all groups. -/
def rowsOf (s : Scheduler H n) (id : RequestId) : Fin n → List KVCacheBlock :=
  fun i => (s.kv.managers i).reqToBlocks id

/-- Record an admitted request as scheduled. -/
def recordAdmitted (id : RequestId) (r : Request H) (look : Lookup n) (chunk : Chunk)
    (blocks : Fin n → List KVCacheBlock) (p : Pass n) : Pass n :=
  { p with
    scheduledNewReqs := if r.status = .waiting then p.scheduledNewReqs ++ [id] else p.scheduledNewReqs
    scheduledResumedReqs :=
      if r.status = .waiting then p.scheduledResumedReqs else p.scheduledResumedReqs ++ [id]
    hasSyncKvLoads := p.hasSyncKvLoads || 0 < look.numExternalComputedTokens
    scheduledLoras := match cfg.maxLoras, r.loraIntId with
      | some _, some lora => p.scheduledLoras.insert lora
      | _, _ => p.scheduledLoras
    reqToNewBlocks := p.reqToNewBlocks.set id blocks
    numScheduledTokens := p.numScheduledTokens.set id chunk.numNewTokens
    tokenBudget := p.tokenBudget - chunk.numNewTokens
    inputBudget := p.inputBudget - (chunk.numNewTokens + cfg.draftSlots)
    scheduledSpecDecodeTokens :=
      if chunk.padSpecDecode then p.scheduledSpecDecodeTokens.set id (List.replicate cfg.numSpecTokens (-1))
      else p.scheduledSpecDecodeTokens }

/-- Move the head of the queue to `running` and record it as scheduled. -/
def admitRequest (fromKvHolding : Bool) (look : Lookup n) (chunk : Chunk) (p : Pass n) : SchedM H n (Pass n) := do
  let id ← cfg.popQueue fromKvHolding
  let r ← getRequest id
  modify fun s => { s with
    deferredWaiting := s.deferredWaiting.erase id
    running := s.running ++ [id] }
  check (r.status = .waiting ∨ r.status = .preempted) (.runtimeError "Invalid request status")
  check (chunk.padSpecDecode → chunk.numNewTokens = 1 + cfg.numSpecTokens)
    (.assertionError "num_new_tokens == 1 + self.num_spec_tokens")
  setRequest id { r with status := .running, numComputedTokens := look.numComputedTokens }
  runIf (look.numComputedTokens + chunk.numNewTokens < r.numTokens)
    (modify fun s => { s with inflightPrefills := s.inflightPrefills.insert id })
  allocateEncoderInputs r chunk.encoder
  return recordEncoder id chunk.encoder (cfg.recordAdmitted id r look chunk (rowsOf (← get) id) p)

/-- The loop over the waiting requests. A round takes one request out of the queues. -/
def waitingLoop [DecidableEq H] (env : ScheduleEnv n) (deferPrefills : Bool) (threshold : ℕ) :
    ℕ → Pass n → SchedM H n (Pass n)
  | 0, p => pure p
  | fuel + 1, p => do
    let s ← get
    -- requests that hold blocks go first, and alone when only new requests are paused
    let fromKvHolding : Bool := s.kvHoldingWaiting ≠ []
    let queue :=
      if fromKvHolding then s.kvHoldingWaiting
      else if s.pauseState = .unpaused then s.waiting else []
    match queue with
    | [] => return p
    | id :: _ => do
      if p.tokenBudget = 0 ∨ p.inputBudget ≤ cfg.draftSlots ∨ numActive s ≥ cfg.maxNumActiveReqs then
        return p
      else do
        match ← cfg.tryAdmit env deferPrefills threshold p id with
        | .stop => return p
        | .skip => do
          let p ← cfg.skipRequest fromKvHolding p
          waitingLoop env deferPrefills threshold fuel p
        | .accept look chunk => do
          let p ← cfg.admitRequest fromKvHolding look chunk p
          waitingLoop env deferPrefills threshold fuel p

/-- The adapters of the running requests scheduled so far. -/
def runningLoras (s : Scheduler H n) (p : Pass n) : List ℕ :=
  if cfg.maxLoras.isSome then
    ((p.scheduledRunningReqs.filterMap s.requests.get?).filterMap fun r =>
      r.loraIntId.filter (0 < ·)).dedup
  else []

section

variable [DecidableEq H] (env : ScheduleEnv n)

/-- The second half of the pass: admit waiting requests and put those skipped back. -/
def scheduleWaiting (deferPrefills : Bool) (threshold : ℕ) (p : Pass n) : SchedM H n (Pass n) := do
  let s ← get
  let p := { p with scheduledLoras := cfg.runningLoras s p }
  check (∀ maxLoras ∈ cfg.maxLoras, p.scheduledLoras.length ≤ maxLoras)
    (.assertionError "len(scheduled_loras) <= self.lora_config.max_loras")
  if p.preemptedReqs = [] ∧ s.pauseState ≠ .pausedAll then do
    let p ← cfg.waitingLoop env deferPrefills threshold (s.waiting.length + s.kvHoldingWaiting.length) p
    modify fun s => { s with
      kvHoldingWaiting := cfg.policy.prependRequests s.requestLt s.kvHoldingWaiting p.stepSkippedKvHolding
      waiting := cfg.policy.prependRequests s.requestLt s.waiting p.stepSkippedWaiting }
    runIf (deferPrefills = false) (modify fun s => { s with
      prefillCapacityBound := s.deferredWaiting.length < s.getRequestCounts.2 })
    return p
  else return p

/-- The pass, up to the checks of its constraints. -/
def schedulePass : SchedM H n (Pass n) := do
  modify fun s => { s with currentStep := s.currentStep + 1 }
  onKv cfg.cache.newStepStarts
  let s ← get
  let deferPrefills := deferPrefills env s
  let threshold := cfg.longPrefillThreshold s
  let p ← cfg.runningLoop env deferPrefills threshold s.running.length 0
    { tokenBudget := if s.pauseState = .pausedAll then 0 else cfg.maxNumScheduledTokens
      inputBudget := cfg.maxNumBatchedTokens
      encoderComputeBudget := cfg.maxNumEncoderInputTokens }
  cfg.scheduleWaiting env deferPrefills threshold p

end

/-! ## The output of the pass -/

section

variable (s : Scheduler H n)

/-- What the worker is told about the requests `ids`. -/
def scheduledRequests (p : Pass n) (ids : List RequestId) : List (ScheduledRequest n) :=
  ids.filterMap fun id => (s.requests.get? id).map fun r =>
    ⟨id, (p.reqToNewBlocks.get? id).getD fun _ => [], r.numComputedTokens⟩

/-- Build the output; a runner of the second version gets resumed requests as new ones. -/
def makeOutput (p : Pass n) (copies : List (KVCacheBlock × KVCacheBlock))
    (freedMmHashes : List ℕ) : SchedulerOutput n :=
  let (newReqs, resumedReqs) :=
    if cfg.useV2ModelRunner then (p.scheduledNewReqs ++ p.scheduledResumedReqs, [])
    else (p.scheduledNewReqs, p.scheduledResumedReqs)
  { scheduledNewReqs := scheduledRequests s p newReqs
    scheduledResumedReqs := scheduledRequests s p resumedReqs
    scheduledCachedReqs := scheduledRequests s p p.scheduledRunningReqs
    numScheduledTokens := p.numScheduledTokens
    totalNumScheduledTokens := p.numScheduledTokens.total
    scheduledSpecDecodeTokens := p.scheduledSpecDecodeTokens
    scheduledEncoderInputs := p.scheduledEncoderInputs
    freeEncoderMmHashes := freedMmHashes
    preemptedReqIds := s.resetPreemptedReqIds
    finishedReqIds := s.finishedReqIds
    kvCacheBlockCopies := copies
    numSpecTokensToSchedule := match cfg.dynamicSdLookup with
      | some lookup => if p.numScheduledTokens.keys = [] then cfg.numSpecTokens
          else lookup p.numScheduledTokens.keys.length
      | none => cfg.numSpecTokens
    hasSyncKvLoads := p.hasSyncKvLoads }

/-- `_update_after_schedule` for one request. -/
def advance (numScheduledToken : ℕ) (r : Request H) : Request H :=
  let numComputedTokens := r.numComputedTokens + numScheduledToken
  { r with
    numComputedTokens := numComputedTokens
    numInFlightTokens := r.numInFlightTokens + numScheduledToken
    lastSchedSeq := if cfg.deferBlockFree then s.schedStepSeq else r.lastSchedSeq
    isPrefillChunk := (numComputedTokens : ℤ) < r.numTokens + r.numOutputPlaceholders }

/-- What `AsyncScheduler._update_after_schedule` adds for a request that will sample. -/
def addPlaceholders (out : SchedulerOutput n) (id : RequestId) (r : Request H) : Request H :=
  if cfg.asyncScheduling && !r.isPrefillChunk then
    { r with
      numOutputPlaceholders := r.numOutputPlaceholders + (cfg.numSampledTokensPerStep +
        ((out.scheduledSpecDecodeTokens.get? id).getD []).length : ℕ)
      specTokenIds := List.replicate out.numSpecTokensToSchedule (-1)
      nextDecodeEligibleStep :=
        if cfg.useV2ModelRunner then s.currentStep + cfg.decodeStagger else r.nextDecodeEligibleStep }
  else r

end

/-- `_update_after_schedule`. -/
def updateAfterSchedule (out : SchedulerOutput n) : SchedM H n Unit := do
  forM out.numScheduledTokens.keys fun id => do
    let r ← getRequest id
    let s ← get
    let r := cfg.advance s ((out.numScheduledTokens.get? id).getD 0) r
    setRequest id (cfg.addPlaceholders s out id r)
    runIf (r.isPrefillChunk = false) (modify fun s => { s with inflightPrefills := s.inflightPrefills.erase id })
  modify fun s => { s with finishedReqIds := [], resetPreemptedReqIds := [] }

/-- The end of `schedule`, from the checks on. -/
def finishPass (p : Pass n) : SchedM H n (SchedulerOutput n) := do
  let s ← get
  check (p.numScheduledTokens.total ≤ cfg.maxNumScheduledTokens)
    (.assertionError "total_num_scheduled_tokens <= self.max_num_scheduled_tokens")
  check (s.running.length ≤ cfg.maxNumRunningReqs) (.assertionError "len(self.running) <= self.max_num_running_reqs")
  check (p.scheduledNewReqs.length + p.scheduledResumedReqs.length + p.scheduledRunningReqs.length ≤
      s.running.length) (.assertionError "more requests scheduled than running")
  let _ ← onKv CacheConfig.takeBoundaryStateOffloads
  let (copies, retained) ← onKv CacheConfig.takeKvCacheBlockCopies
  runIf (copies ≠ []) (cfg.freeCowRetainedBlocks retained (s.schedStepSeq + 1))
  let _ ← onKv CacheConfig.takeNewBlockIds
  let out := cfg.makeOutput s p copies (← onEncoder EncoderManager.getFreedMmHashes)
  runIf (cfg.deferBlockFree ∧ 0 < out.totalNumScheduledTokens)
    (modify fun s => { s with schedStepSeq := s.schedStepSeq + 1 })
  cfg.updateAfterSchedule out
  return out

/-- `schedule`. -/
def schedule [DecidableEq H] (env : ScheduleEnv n) : SchedM H n (SchedulerOutput n) := do
  let p ← cfg.schedulePass env
  cfg.finishPass p

end SchedulerConfig

end VllmRwkv
