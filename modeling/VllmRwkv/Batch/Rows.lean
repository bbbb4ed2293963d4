import VllmRwkv.Lib.Dict
import VllmRwkv.Pool.FreeQueue

/-!
# The persistent batch and its row-keyed state

`InputBatch` of `gpu_input_batch.py` with the `BatchUpdateBuilder` that summarises the changes of a step, and
the holders that replay the summary: min-p, logit bias, minimum tokens and the thinking budget. A request is
its `CachedRequestState`; the list of its output tokens is shared with the holders, which read its length at
any time: a `Ref` names the list, and only its length is kept.
-/

namespace VllmRwkv.Batch

structure SamplingParams (F : Type) where
  minP : F
  logitBias : Option (List (ℕ × F)) := none
  minTokens : ℕ := 0
  allStopTokenIds : Finset ℕ := ∅
  structuredOutputs : Bool := false
  thinkingTokenBudget : Option ℤ := none

structure CachedRequestState (F Id Ref : Type) where
  reqId : Id
  samplingParams : SamplingParams F
  promptTokenIds : Option (List ℕ) := none
  outputTokenIds : Ref

inductive MoveDirectionality where
  | unidirectional
  | swap
  deriving DecidableEq, Repr

/-- From, to, and whether the two rows are exchanged. -/
structure Move where
  src : ℕ
  dst : ℕ
  direction : MoveDirectionality
  deriving DecidableEq, Repr

structure BatchUpdate (Req : Type) where
  removed : List ℕ
  added : List (ℕ × Req)
  moved : List Move

/-! ## Tables -/

section Tables

variable {Req T : Type}

/-- A move of `process_dict_updates`. -/
def moveEntry (entries : Dict ℕ T) (m : Move) : Dict ℕ T :=
  let aEntry := entries.get? m.src
  let entries := entries.erase m.src
  let bEntry := entries.get? m.dst
  let entries := entries.erase m.dst
  let entries := match aEntry with
    | some a => entries.set m.dst a
    | none => entries
  match bEntry with
  | some b => if m.direction = .swap then entries.set m.src b else entries
  | none => entries

/-- An added request of `process_dict_updates`. -/
def addEntry (newState : Req → Option T) (entries : Dict ℕ T) (a : ℕ × Req) : Dict ℕ T :=
  match newState a.2 with
  | some state => entries.set a.1 state
  | none => entries.erase a.1

def processDictUpdates (newState : Req → Option T) (update : BatchUpdate Req) (entries : Dict ℕ T) : Dict ℕ T :=
  let entries := update.added.foldl (addEntry newState) entries
  if entries.keys = [] then entries
  else update.moved.foldl moveEntry (update.removed.foldl Dict.erase entries)

end Tables

variable {F Id Ref : Type} [DecidableEq F] [Zero F] [DecidableEq Id]

/-! ## Min-p -/

/-- `MinPLogitsProcessor`: the values of the rows, and how many of them are not zero. -/
structure MinP (F : Type) where
  values : ℕ → F
  count : ℤ := 0

namespace MinP

variable (s : MinP F)

def add (a : ℕ × CachedRequestState F Id Ref) : MinP F :=
  let minP := a.2.samplingParams.minP
  let before := s.values a.1
  if before = minP then s
  else
    { values := Function.update s.values a.1 minP
      count :=
        if minP ≠ 0 ∧ before = 0 then s.count + 1
        else if minP = 0 ∧ before ≠ 0 then s.count - 1
        else s.count }

def remove (index : ℕ) : MinP F :=
  if s.values index ≠ 0 then { values := Function.update s.values index 0, count := s.count - 1 } else s

def move (m : Move) : MinP F :=
  let a := s.values m.src
  let b := s.values m.dst
  let s :=
    if a ≠ b then
      let values := Function.update s.values m.dst a
      { s with values := if m.direction = .swap then Function.update values m.src b else values }
    else s
  if m.direction = .unidirectional then
    { values := if a ≠ 0 then Function.update s.values m.src 0 else s.values
      count := if b ≠ 0 then s.count - 1 else s.count }
  else s

def updateState : Option (BatchUpdate (CachedRequestState F Id Ref)) → MinP F
  | none => s
  | some update =>
    let s := update.added.foldl add s
    if s.count ≠ 0 then update.moved.foldl move (update.removed.foldl remove s) else s

end MinP

/-! ## Logit bias and minimum tokens -/

/-- `params.logit_bias or None`. -/
def logitBias (r : CachedRequestState F Id Ref) : Option (List (ℕ × F)) :=
  match r.samplingParams.logitBias with
  | none => none
  | some [] => none
  | some bias => some bias

/-- An entry of `MinTokensLogitsProcessor`. -/
structure MinToks (Ref : Type) where
  minTokens : ℕ
  outputTokIds : Ref
  stopTokenIds : Finset ℕ
  usesStructuredOutput : Bool
  deriving DecidableEq

/-- `MinTokensLogitsProcessor.add_request`; `numOutputs` is the length of a list of output tokens. -/
def minTokens (numOutputs : Ref → ℕ) (r : CachedRequestState F Id Ref) : Option (MinToks Ref) :=
  let minTokens := r.samplingParams.minTokens
  if minTokens = 0 ∨ minTokens ≤ numOutputs r.outputTokenIds then none
  else some {
    minTokens
    outputTokIds := r.outputTokenIds
    stopTokenIds := r.samplingParams.allStopTokenIds
    usesStructuredOutput := r.samplingParams.structuredOutputs }

/-- `MinTokensLogitsProcessor.update_state`: also drops the rows that have enough tokens. -/
def updateMinToks (numOutputs : Ref → ℕ) (update : Option (BatchUpdate (CachedRequestState F Id Ref)))
    (minToks : Dict ℕ (MinToks Ref)) : Dict ℕ (MinToks Ref) :=
  let minToks := match update with
    | none => minToks
    | some update => processDictUpdates (minTokens numOutputs) update minToks
  minToks.eraseAll (minToks.keys.filter fun i =>
    (minToks.get? i).any fun entry => entry.minTokens ≤ numOutputs entry.outputTokIds)

def updateBiases (update : Option (BatchUpdate (CachedRequestState F Id Ref)))
    (biases : Dict ℕ (List (ℕ × F))) : Dict ℕ (List (ℕ × F)) :=
  match update with
  | none => biases
  | some update => processDictUpdates logitBias update biases

/-! ## The thinking budget -/

/-- An entry of `ThinkingBudgetStateHolder`, without the fields that are the same in every new entry. -/
structure ThinkState (Ref : Type) where
  inThink : Bool
  inEnd : Bool
  checkCountDown : ℤ
  thinkCount : ℤ
  promptTokIds : Option (List ℕ)
  outputTokIds : Ref
  thinkingTokenBudget : ℤ
  startThinking : ℤ
  continueThinking : Bool
  deriving DecidableEq

/-- `_find_last_sequence_index` -/
def findLastSequenceIndex (target tokenIds : List ℕ) : ℤ :=
  if tokenIds = [] then -1
  else
    match (List.range (target.length + 1 - tokenIds.length)).reverse.find?
      fun i => (target.drop i).take tokenIds.length = tokenIds with
    | some i => i
    | none => -1

/-- The delimiters of `ReasoningConfig`. -/
structure Reasoning where
  thinkStartTokenIds : List ℕ
  thinkEndTokenIds : List ℕ

/-- `_init_state_entry` -/
def initStateEntry (cfg : Reasoning) (promptTokIds : Option (List ℕ)) (outputTokIds : Ref) (budget : ℤ) :
    ThinkState Ref :=
  match promptTokIds with
  | none =>
    { inThink := false, inEnd := false, checkCountDown := budget, thinkCount := 0, promptTokIds, outputTokIds
      thinkingTokenBudget := budget, startThinking := -1, continueThinking := false }
  | some prompt =>
    let lastStart := findLastSequenceIndex prompt cfg.thinkStartTokenIds
    let lastEnd := findLastSequenceIndex prompt cfg.thinkEndTokenIds
    if lastEnd < lastStart then
      let thinkCount := prompt.length - (lastStart + cfg.thinkStartTokenIds.length)
      { inThink := true, inEnd := budget - thinkCount ≤ 0, checkCountDown := budget - thinkCount, thinkCount
        promptTokIds, outputTokIds, thinkingTokenBudget := budget
        startThinking := prompt.length - thinkCount - 1, continueThinking := true }
    else
      { inThink := false, inEnd := false, checkCountDown := budget, thinkCount := 0, promptTokIds, outputTokIds
        thinkingTokenBudget := budget, startThinking := -1, continueThinking := false }

/-- What `sync_batch` makes for an added request. -/
def thinkState (cfg : Reasoning) (r : CachedRequestState F Id Ref) : Option (ThinkState Ref) :=
  r.samplingParams.thinkingTokenBudget.map (initStateEntry cfg r.promptTokenIds r.outputTokenIds)

/-- A move of `sync_batch`. -/
def moveThink (state : Dict ℕ (ThinkState Ref)) (m : Move) : Dict ℕ (ThinkState Ref) :=
  match m.direction with
  | .swap =>
    let state1 := state.get? m.src
    let state := state.erase m.src
    let state2 := state.get? m.dst
    let state := state.erase m.dst
    let state := match state1 with
      | some s => state.set m.dst s
      | none => state
    match state2 with
    | some s => state.set m.src s
    | none => state
  | .unidirectional =>
    match state.get? m.src with
    | some s => (state.erase m.src).set m.dst s
    | none => state

def syncBatch (cfg : Reasoning) (update : BatchUpdate (CachedRequestState F Id Ref)) (state : Dict ℕ (ThinkState Ref)) :
    Dict ℕ (ThinkState Ref) :=
  let state := update.removed.foldl Dict.erase state
  let state := update.added.foldl (addEntry (thinkState cfg)) state
  update.moved.foldl moveThink state

/-! ## The batch -/

/-- `InputBatch`, the rows and the request ids as far as the holders' updates depend on them. -/
structure InputBatch (F Id Ref : Type) where
  maxNumReqs : ℕ
  reasoning : Reasoning
  /-- `_req_ids`, with the requests themselves. -/
  rows : List (Option (CachedRequestState F Id Ref)) := []
  reqIdToIndex : Dict Id ℕ := .empty
  removed : List ℕ := []
  isRemovedSorted : Bool := false
  added : List (ℕ × CachedRequestState F Id Ref) := []
  moved : List Move := []
  minP : MinP F
  biases : Dict ℕ (List (ℕ × F)) := .empty
  minToks : Dict ℕ (MinToks Ref) := .empty
  thinking : Dict ℕ (ThinkState Ref) := .empty

namespace InputBatch

section

variable (b : InputBatch F Id Ref)

def numReqs : ℕ := b.reqIdToIndex.keys.length

def ensureRemovedSorted : InputBatch F Id Ref :=
  if b.isRemovedSorted then b
  else { b with removed := b.removed.mergeSort (fun i j => j ≤ i), isRemovedSorted := true }

/-- `pop_removed`: the lowest removed row. -/
def popRemoved : Option ℕ × InputBatch F Id Ref :=
  if b.removed = [] then (none, b)
  else
    let b := b.ensureRemovedSorted
    (b.removed.getLast?, { b with removed := b.removed.dropLast })

def removeRequest (reqId : Id) : Except PyErr (InputBatch F Id Ref) :=
  match b.reqIdToIndex.get? reqId with
  | none => .ok b
  | some index =>
    if b.isRemovedSorted then
      .error (.runtimeError "Cannot register new removed request after self.removed has been read.")
    else
      .ok { b with
        reqIdToIndex := b.reqIdToIndex.erase reqId
        removed := b.removed ++ [index]
        rows := b.rows.set index none }

def addRequest (r : CachedRequestState F Id Ref) : Except PyErr (InputBatch F Id Ref) :=
  let (popped, b) := b.popRemoved
  let index := popped.getD b.numReqs
  if index < b.maxNumReqs then
    .ok { b with
      added := b.added ++ [(index, r)]
      rows := if index = b.rows.length then b.rows ++ [some r] else b.rows.set index (some r)
      reqIdToIndex := b.reqIdToIndex.set r.reqId index }
  else .error (.assertionError "")

end

/-- The largest row at or below `last` that is not removed. -/
def lastNonEmpty (removed : List ℕ) : ℕ → ℕ
  | 0 => 0
  | last + 1 => if last + 1 ∈ removed then lastNonEmpty removed last else last + 1

/-- The loop of `condense`; every iteration pops a removed row, so that their number is fuel enough. -/
def condenseLoop : ℕ → ℕ → InputBatch F Id Ref → Except PyErr (InputBatch F Id Ref)
  | 0, _, b => .ok b
  | fuel + 1, last, b =>
    match b.removed.getLast? with
    | none => .ok b
    | some empty =>
      let last := lastNonEmpty b.removed last
      if last ≤ empty then .ok b
      else match b.rows[last]? with
        | some (some r) =>
          condenseLoop fuel (last - 1) { b with
            removed := b.removed.dropLast
            rows := (b.rows.set empty (some r)).set last none
            reqIdToIndex := b.reqIdToIndex.set r.reqId empty
            moved := b.moved ++ [⟨last, empty, .unidirectional⟩] }
        | _ => .error (.assertionError "")

variable (b : InputBatch F Id Ref)

def condense : Except PyErr (InputBatch F Id Ref) :=
  let numReqs := b.numReqs
  let b := b.ensureRemovedSorted
  if b.removed = [] then .ok b
  else if numReqs = 0 then .ok { b with rows := [] }
  else do
    let b ← condenseLoop b.removed.length (numReqs + b.removed.length - 1) b
    return { b with rows := b.rows.take numReqs }

def swapStates (p : ℕ × ℕ) : Except PyErr (InputBatch F Id Ref) :=
  match b.rows[p.1]?, b.rows[p.2]? with
  | some (some r1), some (some r2) =>
    .ok { b with
      rows := (b.rows.set p.1 (some r2)).set p.2 (some r1)
      reqIdToIndex := (b.reqIdToIndex.set r1.reqId p.2).set r2.reqId p.1
      moved := b.moved ++ [⟨p.1, p.2, .swap⟩] }
  | _, _ => .error (.assertionError "")

/-- `get_and_reset`: the update, if there is one. -/
def batchUpdate : Option (BatchUpdate (CachedRequestState F Id Ref)) :=
  if b.removed = [] ∧ b.moved = [] ∧ b.added = [] then none
  else some { removed := b.removed, added := b.added, moved := b.moved }

/-- `refresh_metadata` -/
def refreshMetadata (numOutputs : Ref → ℕ) : InputBatch F Id Ref :=
  { b with
    removed := []
    isRemovedSorted := false
    added := []
    moved := []
    thinking := match b.batchUpdate with
      | none => b.thinking
      | some update => syncBatch b.reasoning update b.thinking
    minP := b.minP.updateState b.batchUpdate
    biases := updateBiases b.batchUpdate b.biases
    minToks := updateMinToks numOutputs b.batchUpdate b.minToks }

end InputBatch

/-- What a step does to the batch, and the numbers of output tokens when it refreshes the metadata. -/
structure Step (F Id Ref : Type) where
  removes : List Id
  adds : List (CachedRequestState F Id Ref)
  swaps : List (ℕ × ℕ)
  numOutputs : Ref → ℕ

variable (step : Step F Id Ref) (b : InputBatch F Id Ref)

/-- The changes of a step, in the order of `_update_states`. -/
def Step.change : Except PyErr (InputBatch F Id Ref) := do
  let b ← step.removes.foldlM InputBatch.removeRequest b
  let b ← step.adds.foldlM InputBatch.addRequest b
  let b ← b.condense
  step.swaps.foldlM InputBatch.swapStates b

def Step.run : Except PyErr (InputBatch F Id Ref) := do
  return (← step.change b).refreshMetadata step.numOutputs

end VllmRwkv.Batch
