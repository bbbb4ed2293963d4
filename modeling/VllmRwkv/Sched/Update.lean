import VllmRwkv.Sched.Schedule

/-!
# Processing the output of a step

`update_from_output`, `add_request`, `reset_prefix_cache`, `reset_encoder_cache` and
`update_draft_token_ids` of
`v1/core/sched/scheduler.py`, `check_stop` of `v1/core/sched/utils.py`, and the override of
`_update_request_with_output` in `v1/core/sched/async_scheduler.py`.

`ModelRunnerOutput` holds what the worker returns for a step, with the verdicts of the grammar and the
connectors that the source asks for while it processes the step.
-/

namespace VllmRwkv

open Raise

variable {H : Type} {n : ℕ}

/-- `KVConnectorOutput`. -/
structure KVConnectorOutput where
  finishedRecving : List RequestId := []
  finishedSending : List RequestId := []
  failedRecving : List RequestId := []
  invalidBlockIds : List ℕ := []

structure ModelRunnerOutput where
  sampledTokenIds : RequestId → List ℕ
  /-- The request has pooler output. -/
  poolerOutput : RequestId → Bool := fun _ => false
  /-- The grammar of the request accepts its new tokens. -/
  acceptTokens : RequestId → Bool := fun _ => true
  kvConnectorOutput : Option KVConnectorOutput := none
  delayFree : DelayFree := fun _ => false
  /-- `take_unavailable_requests` of the EC connector. -/
  unavailableReqs : List RequestId := []

/-! ## When a request stops -/

/-- `_has_repeating_pattern`, on the tokens from the last to the first. -/
def hasRepeatingPattern (reversed : List ℕ) (patternLen repetitionMinCount : ℕ) : Bool :=
  (List.range patternLen).all fun i => (List.range (repetitionMinCount - 1)).all fun m =>
    reversed[patternLen * (m + 1) + i]? = reversed[i]?

/-- The loop of `check_sequence_repetition` over the given number of pattern lengths. -/
def repetitionLoop (reversed : List ℕ) (minCount : ℕ) : ℕ → ℕ → Bool
  | 0, _ => false
  | k + 1, patternLen =>
    if reversed.length < patternLen * minCount then false
    else hasRepeatingPattern reversed patternLen minCount || repetitionLoop reversed minCount k (patternLen + 1)

/-- `check_sequence_repetition`. -/
def checkSequenceRepetition (tokenIds : List ℕ) (params : RepetitionDetectionParams) : Bool :=
  let minPatternSize := max params.minPatternSize 1
  if params.maxPatternSize = 0 ∨ params.minCount < 2 ∨ params.maxPatternSize < minPatternSize then false
  else repetitionLoop tokenIds.reverse params.minCount (params.maxPatternSize + 1 - minPatternSize) minPatternSize

section Repetition

open List

/-- The last tokens are copies of one pattern. -/
def EndsWithCopies (tokenIds : List ℕ) (patternLen count : ℕ) : Prop :=
  ∃ pattern : List ℕ, pattern.length = patternLen ∧ (replicate count pattern).flatten <:+ tokenIds

theorem copies_iff (pattern : List ℕ) (count : ℕ) (tokens : List ℕ) : (replicate count pattern).flatten <+: tokens ↔
      ∀ m < count, ∀ i < pattern.length, tokens[pattern.length * m + i]? = pattern[i]? := by
  induction count generalizing tokens with
  | zero => simp
  | succ count ih =>
    rw [replicate_succ, flatten_cons]
    constructor
    · rintro ⟨rest, rfl⟩ m hm i hi
      rw [append_assoc]
      cases m with
      | zero => rw [mul_zero, zero_add, getElem?_append_left hi]
      | succ m =>
        rw [getElem?_append_right (by rw [Nat.mul_succ]; omega), Nat.mul_succ, Nat.add_right_comm, Nat.add_sub_cancel]
        exact (ih _).1 ⟨rest, rfl⟩ m (by omega) i hi
    · intro h
      have hfirst : pattern <+: tokens := prefix_iff_getElem?.2 fun i hi => by
        have hi' := h 0 (by omega) i hi
        rwa [mul_zero, zero_add, getElem?_eq_getElem hi] at hi'
      obtain ⟨rest, rfl⟩ := hfirst
      refine (prefix_append_right_inj pattern).2 ((ih rest).2 fun m hm i hi => ?_)
      have hm' := h (m + 1) (by omega) i hi
      rwa [getElem?_append_right (by rw [Nat.mul_succ]; omega), Nat.mul_succ, Nat.add_right_comm,
        Nat.add_sub_cancel] at hm'

variable {tokenIds : List ℕ}

/-- The comparison with the last pattern finds copies. -/
theorem hasRepeatingPattern_iff {patternLen count : ℕ} (hcount : 0 < count)
    (hlen : patternLen * count ≤ tokenIds.length) :
    hasRepeatingPattern tokenIds.reverse patternLen count ↔ EndsWithCopies tokenIds patternLen count := by
  have hle : patternLen ≤ tokenIds.reverse.length := by
    rw [length_reverse]
    exact (Nat.le_mul_of_pos_right _ hcount).trans hlen
  have hback : ∀ pattern : List ℕ, (replicate count pattern).flatten <:+ tokenIds ↔
      (replicate count pattern.reverse).flatten <+: tokenIds.reverse := fun pattern => by
    rw [← reverse_prefix, reverse_flatten, map_replicate, reverse_replicate]
  have hhas : hasRepeatingPattern tokenIds.reverse patternLen count ↔ ∀ m < count, ∀ i < patternLen,
      tokenIds.reverse[patternLen * m + i]? = tokenIds.reverse[i]? := by
    simp only [hasRepeatingPattern, all_eq_true, mem_range, decide_eq_true_eq]
    refine ⟨fun h m hm i hi => ?_, fun h i hi m hm => h (m + 1) (by omega) i hi⟩
    cases m with
    | zero => rw [mul_zero, zero_add]
    | succ m => exact h i hi m (by omega)
  rw [hhas]
  constructor
  · intro h
    have hpattern : (tokenIds.reverse.take patternLen).length = patternLen := length_take_of_le hle
    refine ⟨(tokenIds.reverse.take patternLen).reverse, (length_reverse ..).trans hpattern, (hback _).2 ?_⟩
    rw [reverse_reverse, copies_iff, hpattern]
    intro m hm i hi
    rw [getElem?_take_of_lt hi]
    exact h m hm i hi
  · rintro ⟨pattern, rfl, hcopies⟩ m hm i hi
    rw [← length_reverse] at hi ⊢
    have hall := (copies_iff ..).1 ((hback _).1 hcopies)
    have hlast := hall 0 hcount i hi
    rw [mul_zero, zero_add] at hlast
    rw [hlast]
    exact hall m hm i hi

/-- The loop may stop at the first length that does not fit: longer ones do not fit either. -/
theorem repetitionLoop_iff {count k patternLen : ℕ} (hcount : 0 < count) :
    repetitionLoop tokenIds.reverse count k patternLen ↔
      ∃ len, patternLen ≤ len ∧ len < patternLen + k ∧ EndsWithCopies tokenIds len count := by
  have hfits : ∀ len, EndsWithCopies tokenIds len count → len * count ≤ tokenIds.length := by
    rintro len ⟨pattern, rfl, hcopies⟩
    have hle := hcopies.length_le
    rwa [length_flatten, map_replicate, sum_replicate_nat, mul_comm] at hle
  induction k generalizing patternLen with
  | zero => exact iff_of_false nofun (fun ⟨len, h, h', _⟩ => by omega)
  | succ k ih =>
    unfold repetitionLoop
    rw [length_reverse]
    split_ifs with hshort
    · refine iff_of_false nofun (fun ⟨len, hle, _, hcopies⟩ => ?_)
      exact absurd ((Nat.mul_le_mul_right count hle).trans (hfits len hcopies)) (not_le.2 hshort)
    · rw [Bool.or_eq_true, hasRepeatingPattern_iff hcount (not_lt.1 hshort)]
      refine (or_congr_right ih).trans ?_
      constructor
      · rintro (h | ⟨len, hle, hlt, h⟩)
        · exact ⟨patternLen, le_rfl, by omega, h⟩
        · exact ⟨len, by omega, by omega, h⟩
      · rintro ⟨len, hle, hlt, h⟩
        rcases Nat.eq_or_lt_of_le hle with rfl | hgt
        · exact .inl h
        · exact .inr ⟨len, hgt, by omega, h⟩

/-- **Repetition is detected exactly**, if at least two copies are asked for. -/
theorem repetition_detected (tokenIds : List ℕ) (params : RepetitionDetectionParams) :
    checkSequenceRepetition tokenIds params ↔ 2 ≤ params.minCount ∧ ∃ len, 0 < len ∧ params.minPatternSize ≤ len ∧
      len ≤ params.maxPatternSize ∧ EndsWithCopies tokenIds len params.minCount := by
  unfold checkSequenceRepetition
  dsimp only
  split
  · exact iff_of_false nofun (fun ⟨hcount, len, hpos, hmin, hmax, _⟩ => by omega)
  · rw [repetitionLoop_iff (by omega)]
    constructor
    · exact fun ⟨len, hmin, hmax, hcopies⟩ => ⟨by omega, len, by omega, by omega, by omega, hcopies⟩
    · exact fun ⟨_, len, hpos, hmin, hmax, hcopies⟩ => ⟨len, by omega, by omega, hcopies⟩

/-- One copy is not looked for. -/
theorem single_copy_not_detected : ¬ checkSequenceRepetition [5] ⟨1, 1, 1⟩ ∧ EndsWithCopies [5] 1 1 :=
  ⟨by decide, [5], rfl, suffix_rfl⟩

end Repetition

/-- `check_stop`: the status of a request that stops. -/
def checkStop (r : Request H) (maxModelLen : ℕ) : Option RequestStatus :=
  let lastTokenId := r.outputTokenIds.getLast?
  if lastTokenId.isSome ∧ lastTokenId = r.samplingParams.eosTokenId then some .finishedStopped
  else if ∃ tokenId ∈ lastTokenId, tokenId ∈ r.samplingParams.stopTokenIds then some .finishedStopped
  else if maxModelLen ≤ r.numTokens ∨ r.maxTokens ≤ r.numOutputTokens then some .finishedLengthCapped
  else if r.numOutputTokens < r.samplingParams.minTokens then none
  else if ∃ params ∈ r.samplingParams.repetitionDetection,
      checkSequenceRepetition r.outputTokenIds params then some .finishedRepetition
  else none

/-- The output of a step with so many tokens of the request has arrived; it is stale as long as the
request has stale tokens in flight. -/
def Request.drain (r : Request H) (numTokensScheduled : ℕ) : Request H :=
  { r with
    numInFlightTokens := r.numInFlightTokens - numTokensScheduled
    numStaleOutputTokens :=
      if 0 < r.numStaleOutputTokens then r.numStaleOutputTokens - numTokensScheduled
      else r.numStaleOutputTokens }

namespace SchedulerConfig

open Scheduler

variable (cfg : SchedulerConfig H n)

/-- `Scheduler._update_request_with_output`: append tokens until one stops the request; the request,
the tokens appended and whether it stopped. -/
def appendTokens : List ℕ → Request H → Request H × List ℕ × Bool
  | [], r => (r, [], false)
  | token :: tokens, r =>
    let r := r.appendOutputTokenIds cfg.hashBlockTokens cfg.hashBlockSize token
    match checkStop r cfg.cache.maxModelLen with
    | some status => ({ r with status }, [token], true)
    | none =>
      let (r, appended, stopped) := appendTokens tokens r
      (r, token :: appended, stopped)

/-- `_update_request_with_output` of the scheduler in use. -/
def updateRequestWithOutput [DecidableEq H] (id : RequestId) (newTokenIds : List ℕ) (isStale : Bool) :
    SchedM H n (List ℕ × Bool) := do
  let r ← getRequest id
  let (r', appended, stopped) := cfg.appendTokens newTokenIds r
  if cfg.asyncScheduling then do
    let r' := if isStale then r'
      else { r' with numOutputPlaceholders := r'.numOutputPlaceholders - appended.length }
    setRequest id r'
    check (isStale = false → r'.numOutputPlaceholders ≥ 0) (.assertionError "request.num_output_placeholders >= 0")
    -- a preempted request has no blocks to cache
    runIf (r.status = .running) (onKv (cfg.cache.cacheBlocks r'
      ((r'.numComputedTokens : ℤ) - r'.numOutputPlaceholders).toNat))
    return (appended, stopped)
  else do
    setRequest id r'
    return (appended, stopped)

/-- Rejected draft tokens are not computed after all. A stale rejection predates the rollback of the
preemption. -/
def rejectDrafts (out : SchedulerOutput n) (id : RequestId) (generated : List ℕ) (isStale : Bool)
    (r : Request H) : Request H :=
  let draft := (out.scheduledSpecDecodeTokens.get? id).getD []
  if draft ≠ [] ∧ (generated ≠ [] ∨ cfg.numSampledTokensPerStep = 0) ∧ isStale = false then
    let numAccepted := generated.length - cfg.numSampledTokensPerStep
    let numRejected : ℤ := draft.length - numAccepted
    { r with
      numComputedTokens :=
        if 0 < r.numComputedTokens then ((r.numComputedTokens : ℤ) - numRejected).toNat
        else r.numComputedTokens
      numOutputPlaceholders :=
        if 0 < r.numOutputPlaceholders then r.numOutputPlaceholders - numRejected
        else r.numOutputPlaceholders }
  else r

/-- Whether an input of the request, all of whose uses lie behind it, can be given up. -/
def encoderInputDone (r : Request H) (inputId : ℕ) : Bool :=
  match r.mmFeatures[inputId]? with
  | none => false
  | some f => (cfg.isEncoderDecoder && 0 < r.numComputedTokens) ||
      ((f.stop + cfg.numPrefillLookahead : ℕ) : ℤ) ≤ r.numComputedTokens - r.numOutputPlaceholders

/-- `_free_encoder_inputs`. -/
def freeEncoderInputs (id : RequestId) : SchedM H n Unit := do
  let r ← getRequest id
  forM ((← get).encoder.getCachedInputIds r) fun inputId =>
    runIf (cfg.encoderInputDone r inputId) (onEncoder (EncoderManager.freeEncoderInput r inputId))

/-- The requests stopped so far: those that were running, and the others. -/
structure Stopped where
  running : List RequestId := []
  preempted : List RequestId := []
  /-- Those among them that go on as sessions; no code reads this. -/
  sessions : List RequestId := []

def Stopped.add (st : Stopped) (id : RequestId) (wasRunning finished : Bool) : Stopped where
  running := if wasRunning then st.running ++ [id] else st.running
  preempted := if wasRunning then st.preempted else st.preempted ++ [id]
  sessions := if finished then st.sessions else st.sessions ++ [id]

/-- A step without tokens stops pooling with its output, and an encoder instance with its prompt. -/
def stopsWithoutTokens (mro : ModelRunnerOutput) (id : RequestId) (r : Request H) : Bool :=
  (r.isPooling && mro.poolerOutput id) || (cfg.isMmEncoderOnly && r.numPromptTokens ≤ r.numComputedTokens)

/-- Append the output of a live request and see whether it stops. -/
def checkOutput [DecidableEq H] (mro : ModelRunnerOutput) (id : RequestId) (isStale : Bool) : SchedM H n Bool := do
  if mro.sampledTokenIds id ≠ [] then do
    let (newTokenIds, stopped) ← cfg.updateRequestWithOutput id (mro.sampledTokenIds id) isStale
    if newTokenIds ≠ [] ∧ mro.acceptTokens id = false then do
      let r ← getRequest id
      setRequest id { r with status := .finishedError, resumable := false }
      return true
    else return stopped
  else do
    let r ← getRequest id
    if cfg.stopsWithoutTokens mro id r then do
      setRequest id { r with status := .finishedStopped }
      return true
    else return false

/-- The round of `update_from_output` for one scheduled request. -/
def processOutput [DecidableEq H] (out : SchedulerOutput n) (mro : ModelRunnerOutput)
    (failedKvLoadReqIds : List RequestId) (st : Stopped) (id : RequestId) : SchedM H n Stopped := do
  let numTokensScheduled := (out.numScheduledTokens.get? id).getD 0
  check (numTokensScheduled > 0) (.assertionError "num_tokens_scheduled > 0")
  match (← get).requests.get? id with
  | none => return st
  | some r => do
    let isStale : Bool := 0 < r.numStaleOutputTokens
    let r := r.drain numTokensScheduled
    setRequest id r
    check (isStale → r.numStaleOutputTokens ≥ 0) (.assertionError "request.num_stale_output_tokens >= 0")
    if id ∈ failedKvLoadReqIds ∨ r.isFinished ∨ (isStale ∧ r.dropStaleOutput) then
      return st
    else do
      setRequest id (cfg.rejectDrafts out id (mro.sampledTokenIds id) isStale r)
      runIf (r.mmFeatures ≠ []) (cfg.freeEncoderInputs id)
      if ← cfg.checkOutput mro id isStale then do
        let finished ← cfg.handleStoppedRequest id
        runIf finished (cfg.freeRequest mro.delayFree id false)
        return st.add id (r.status = .running) finished
      else return st

/-! ## Failed loads -/

/-- `_handle_failed_recving`. -/
def handleFailedRecving (failedReqIds : List RequestId) : SchedM H n (List RequestId) := do
  let affected ← failedReqIds.foldlM (fun affected id => do
    match (← get).requests.get? id with
    | none => return affected
    | some r =>
      if r.status = .waitingForRemoteKvs then do
        runIf cfg.recomputeKvLoadFailures do
          setRequest id { r with numComputedTokens := 0 }
          modify fun s => { s with failedRecvingKvReqIds := s.failedRecvingKvReqIds.insert id }
        return affected ++ [id]
      else return affected) []
  return if cfg.recomputeKvLoadFailures then [] else affected

/-- The local variables of `_update_requests_with_invalid_blocks`. -/
structure InvalidScan where
  affected : List RequestId := []
  blocksToEvict : List ℕ := []
  marked : List ℕ := []

/-- The scan of one request's row: whether it holds an invalid block, the index of the first such
block that no earlier request has marked, and the marks. -/
def scanRow (invalidBlockIds : List ℕ) : ℕ → List ℕ → List ℕ → Bool × Option ℕ × List ℕ
  | _, [], marked => (false, none, marked)
  | idx, blockId :: rest, marked =>
    if blockId ∉ invalidBlockIds then scanRow invalidBlockIds (idx + 1) rest marked
    else if blockId ∈ marked then
      let (_, first, marked) := scanRow invalidBlockIds (idx + 1) rest marked
      (true, first, marked)
    else
      let (_, _, marked) := scanRow invalidBlockIds (idx + 1) rest (blockId :: marked)
      (true, some idx, marked)

/-- The block ids of a request; block-level failures are reported with one group only. -/
def blockIdsOf (s : Scheduler H n) (id : RequestId) : List ℕ :=
  ((List.finRange n).flatMap fun i => (s.kv.managers i).reqToBlocks id).filterMap fun
    | .block blockId => some blockId
    | _ => none

/-- The round of `_update_requests_with_invalid_blocks` for one request: truncate its computed tokens
at the first block that has to be recomputed. -/
def updateRequestWithInvalidBlocks (invalidBlockIds : List ℕ) (out : SchedulerOutput n) (evict : Bool)
    (scan : InvalidScan) (id : RequestId) : SchedM H n InvalidScan := do
  let r ← getRequest id
  let s ← get
  let blockSize := cfg.cache.schedulerBlockSize
  let reqNumComputedTokens : ℤ := r.numComputedTokens - ((out.numScheduledTokens.get? id).getD 0 : ℕ)
  let reqNumComputedBlocks := ((reqNumComputedTokens + blockSize - 1) / blockSize).toNat
  let row := blockIdsOf s id
  let (isAffected, first, marked) := scanRow invalidBlockIds 0 (row.take reqNumComputedBlocks) scan.marked
  if isAffected = false then return scan
  else do
    setRequest id { r with
      numComputedTokens := match first with
        | some idx => idx * blockSize
        | none => reqNumComputedTokens.toNat }
    return {
      affected := scan.affected ++ [id]
      marked := marked
      blocksToEvict := scan.blocksToEvict ++ match first with
        | some idx => if evict then row.drop idx else []
        | none => [] }

/-- `_handle_invalid_blocks`, for a nonempty list. -/
def handleInvalidBlocks [DecidableEq H] (invalidBlockIds : List ℕ) (out : SchedulerOutput n) :
    SchedM H n (List RequestId) := do
  check (n ≤ 1) (.runtimeError ("A KV connector reported block-level load failures (invalid_block_ids) " ++
    "which is not supported for models with multiple KV cache groups. Connectors must report failed " ++
    "requests via KVConnectorTransferResults.failed_recving instead."))
  let s ← get
  let asyncLoadReqs := (cfg.policy.iter s.requestLt s.kvHoldingWaiting).filter fun id =>
    (s.requests.get? id).any (·.status = .waitingForRemoteKvs)
  let asyncScan ← asyncLoadReqs.foldlM (cfg.updateRequestWithInvalidBlocks invalidBlockIds out false) {}
  let syncScan ← s.running.foldlM (cfg.updateRequestWithInvalidBlocks invalidBlockIds out true) {}
  runIf (syncScan.blocksToEvict ≠ [] ∧ cfg.recomputeKvLoadFailures = false)
    (onKv (CacheConfig.evictBlocks syncScan.blocksToEvict.dedup))
  if cfg.recomputeKvLoadFailures = false then return asyncScan.affected ++ syncScan.affected
  else do
    modify fun s => { s with
      failedRecvingKvReqIds := asyncScan.affected.foldl (fun ids id => ids.insert id) s.failedRecvingKvReqIds }
    return syncScan.affected

/-- `_update_from_kv_xfer_finished`. -/
def updateFromKvXferFinished (kvOut : KVConnectorOutput) : SchedM H n Unit := do
  forM kvOut.finishedRecving fun id => do
    let r ← getRequest id
    if r.status = .waitingForRemoteKvs then
      modify fun s => { s with finishedRecvingKvReqIds := s.finishedRecvingKvReqIds.insert id }
    else do
      check (r.isFinished) (.assertionError "RequestStatus.is_finished(req.status)")
      cfg.freeBlocks id
  forM kvOut.finishedSending cfg.freeBlocks

/-! ## The calls -/

/-- Take the stopped requests out of the queues. -/
def removeStopped (st : Stopped) (s : Scheduler H n) : Scheduler H n :=
  let s := { s with running := s.running.filter (· ∉ st.running) }
  if st.preempted = [] then s
  else { s with
    waiting := cfg.policy.removeRequests s.requestLt s.waiting st.preempted
    kvHoldingWaiting := cfg.policy.removeRequests s.requestLt s.kvHoldingWaiting st.preempted
    deferredWaiting := s.deferredWaiting.filter (· ∉ st.preempted) }

section

variable [DecidableEq H] (out : SchedulerOutput n) (mro : ModelRunnerOutput)

/-- The requests whose load has failed, which the main loop skips. -/
def failedKvLoads : SchedM H n (List RequestId) := do
  match mro.kvConnectorOutput with
  | none => return []
  | some kvOut =>
    -- without failed requests the first handler finds none
    let failed ← cfg.handleFailedRecving kvOut.failedRecving
    if kvOut.invalidBlockIds = [] then return failed
    else return failed ++ (← cfg.handleInvalidBlocks kvOut.invalidBlockIds out)

/-- The main loop of `update_from_output`, and the removal of what it has stopped. -/
def processOutputs (failedKvLoadReqIds : List RequestId) : SchedM H n Stopped := do
  let st ← out.numScheduledTokens.keys.foldlM (cfg.processOutput out mro failedKvLoadReqIds) {}
  modify (cfg.removeStopped st)
  return st

/-- `update_from_output`; of the outputs for the clients, it returns which requests have stopped. -/
def updateFromOutput : SchedM H n Stopped := do
  runIf (cfg.deferBlockFree ∧ 0 < out.totalNumScheduledTokens) do
    modify fun s => { s with processedStepSeq := s.processedStepSeq + 1 }
    drainDeferredFrees (← get).deferredFrees.length
  let failedKvLoadReqIds ← cfg.failedKvLoads out mro
  let st ← cfg.processOutputs out mro failedKvLoadReqIds
  let s ← get
  modify fun s => { s with grammarCompileErrorReqs := [], encoderCacheMismatchReqs := [] }
  let errorReqIds := s.grammarCompileErrorReqs ++ s.encoderCacheMismatchReqs ++
    (if cfg.recomputeKvLoadFailures then [] else failedKvLoadReqIds) ++ mro.unavailableReqs
  runIf (errorReqIds ≠ []) (cfg.finishRequests mro.delayFree (some errorReqIds) .finishedError)
  match mro.kvConnectorOutput with
  | none => return st
  | some kvOut => do
    cfg.updateFromKvXferFinished kvOut
    return st

end

/-- `add_request`. -/
def addRequest (delayFree : DelayFree) (request : Request H) : SchedM H n Unit := do
  let id := request.requestId
  match (← get).requests.get? id with
  | some existing =>
    let update := request.streamingUpdate
    if existing.status ≠ .waitingForStreamingReq then
      match existing.streamingQueue with
      | none => throw (.assertionError "duplicate request id")
      | some queue => setRequest id { existing with streamingQueue := some (queue ++ [update]) }
    else
      match update with
      | some update => cfg.updateRequestAsSession id update
      | none => cfg.finishRequests delayFree (some [id]) .finishedAborted
  | none =>
    setRequest id { request with streamingQueue := if request.resumable then some [] else none }
    cfg.enqueueWaitingRequest id

/-- The preemption loop of `reset_prefix_cache`: the running requests, from the last to the first. -/
def preemptAll : ℕ → SchedM H n Unit
  | 0 => pure ()
  | fuel + 1 => do
    match (← get).running.getLast? with
    | none => pure ()
    | some id => do
      modify fun s => { s with running := s.running.dropLast }
      cfg.preemptRequest id true
      preemptAll fuel

/-- `reset_prefix_cache` up to its check; this state stays when the check raises. -/
def preemptAndReset (resetRunningRequests : Bool) : SchedM H n Bool := do
  runIf resetRunningRequests do
    cfg.preemptAll (← get).running.length
  onKv CacheConfig.resetPrefixCache

/-- `reset_prefix_cache`; resetting the connector's own cache is left out. -/
def resetPrefixCache (resetRunningRequests : Bool) : SchedM H n Bool := do
  let resetSuccessful ← cfg.preemptAndReset resetRunningRequests
  check (¬ (resetRunningRequests ∧ resetSuccessful = false)) (.runtimeError
    ("Failed to reset KV cache even when all the running requests are preempted and moved to the " ++
      "waiting queue. This is likely due to the presence of running requests waiting for remote KV " ++
      "transfer, which is not supported yet."))
  return resetSuccessful

/-- `reset_encoder_cache`. -/
def resetEncoderCache : SchedM H n Unit := onEncoder EncoderManager.reset

/-- `update_draft_token_ids`; the drafts of a structured-output request arrive as its grammar leaves
them. -/
def updateDraftTokenIds (drafts : List (RequestId × List ℤ)) : SchedM H n Unit :=
  forM drafts fun (id, specTokenIds) => do
    match (← get).requests.get? id with
    | none => pure ()
    | some r =>
      runIf (r.isFinished = false)
        (setRequest id { r with specTokenIds := if r.isPrefillChunk then [] else specTokenIds })

/-- `update_draft_token_ids_in_output`: the drafts, as the grammar leaves them, in place of the
placeholders of a step, padded to their number. -/
def updateDraftTokenIdsInOutput (s : Scheduler H n) (drafts : List (RequestId × List ℤ))
    (out : SchedulerOutput n) : SchedulerOutput n :=
  drafts.foldl (fun out (id, specTokenIds) =>
    match s.requests.get? id, out.scheduledSpecDecodeTokens.get? id with
    | some r, some placeholders =>
      if r.isFinished ∨ placeholders = [] then out
      else
        let valid := specTokenIds.take placeholders.length
        let padding := List.replicate (placeholders.length - valid.length) (-1)
        { out with scheduledSpecDecodeTokens := out.scheduledSpecDecodeTokens.set id (valid ++ padding) }
    | _, _ => out) out

/-- `set_pause_state`. -/
def setPauseState (pauseState : PauseState) : SchedM H n Unit := modify fun s => { s with pauseState }

end SchedulerConfig

end VllmRwkv
