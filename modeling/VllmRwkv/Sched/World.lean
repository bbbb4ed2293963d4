import VllmRwkv.Sched.Loops
import VllmRwkv.Sched.CallEffects

/-!
# Runs of the scheduler

The engine calls the scheduler in any order. Steps are issued before the outputs of earlier ones
have come back, and the outputs are processed in the order of issue (`step_with_batch_queue` of
`v1/engine/core.py`). A `World` is the scheduler with the steps in flight, `World.step` the effect of
one call, and `World.Runs P` relates the worlds before and after any number of calls that all meet `P`.

An assertion that fails stops the engine: such a call has no successor. The error of
`reset_prefix_cache` goes back to the client that has asked for the reset, and the engine goes on.
-/

namespace VllmRwkv

variable {H : Type} {n : ℕ}

/-- A step whose output has not been processed. -/
structure Issued (n : ℕ) where
  out : SchedulerOutput n
  /-- The number of steps issued before it. -/
  seq : ℕ
  /-- The requests for which the worker samples: their chunk ends with their last token. -/
  samples : RequestId → Bool

namespace Issued

/-- The tokens of a request in the step. -/
def tokens (i : Issued n) (id : RequestId) : ℕ := (i.out.numScheduledTokens.get? id).getD 0

/-- The draft tokens of a request in the step. -/
def drafts (i : Issued n) (id : RequestId) : ℕ := ((i.out.scheduledSpecDecodeTokens.get? id).getD []).length

end Issued

structure World (H : Type) (n : ℕ) where
  sched : Scheduler H n
  /-- The steps in flight, the oldest first. -/
  inFlight : List (Issued n) := []
  /-- The number of steps issued. -/
  issued : ℕ := 0
  /-- The number of steps issued when the request was last preempted or ended a turn. -/
  leftAt : RequestId → ℕ := fun _ => 0
  /-- The ids given to requests so far. -/
  used : List RequestId := []

/-- A call of the engine, with what the clients, the connectors and the worker contribute. -/
inductive Call (H : Type) (n : ℕ) where
  | addRequest (delayFree : DelayFree) (request : Request H)
  | schedule (env : ScheduleEnv n)
  | updateFromOutput (mro : ModelRunnerOutput)
  | finishRequests (delayFree : DelayFree) (requestIds : Option (List RequestId)) (status : RequestStatus)
  | resetPrefixCache (resetRunningRequests : Bool)
  | resetEncoderCache
  | updateDraftTokenIds (drafts : List (RequestId × List ℤ))
  /-- The drafts of the step issued last. -/
  | updateDraftTokenIdsInOutput (drafts : List (RequestId × List ℤ))
  | setPauseState (pauseState : PauseState)

namespace SchedulerConfig

variable (cfg : SchedulerConfig H n)

/-- A request as `__init__` builds it. -/
structure NewRequest (r : Request H) : Prop where
  status : r.status = .waiting ∨ r.status = .waitingForStructuredOutputGrammar
  tokens : r.numPromptTokens = r.allTokenIds.length
  /-- A session has no prompt embeddings and starts with the prompt of its first chunk. -/
  session : r.resumable → r.promptTokenIds = r.allTokenIds ∧ r.isPooling = false
  outputs : r.outputTokenIds = []
  hashes : r.blockHashes =
    (Request.updateBlockHashes cfg.hashBlockTokens cfg.hashBlockSize { r with blockHashes := [] }).blockHashes
  computed : r.numComputedTokens = 0
  inFlight : r.numInFlightTokens = 0
  placeholders : r.numOutputPlaceholders = 0
  stale : r.numStaleOutputTokens = 0
  drafts : r.specTokenIds = []
  preemptions : r.numPreemptions = 0
  lastSchedSeq : r.lastSchedSeq = 0

variable [DecidableEq H] (env : ScheduleEnv n)

/-- `schedule`, with the record of the pass. -/
def scheduleRecorded : SchedM H n (Pass n × SchedulerOutput n) := do
  let p ← cfg.schedulePass env
  let out ← cfg.finishPass p
  return (p, out)

theorem schedule_eq : cfg.schedule env = do return (← cfg.scheduleRecorded env).2 := by
  unfold schedule scheduleRecorded
  simp only [bind_assoc, pure_bind, bind_pure]

end SchedulerConfig

namespace World

open SchedulerConfig

variable (cfg : SchedulerConfig H n)

/-- The engine when it starts. -/
def init (kv : KVCacheManager H n) (encoder : EncoderManager := .cache (.init 0)) : World H n where
  sched := .init kv encoder

/-- Run a method of the scheduler. -/
def call {α : Type} (w : World H n) (m : SchedM H n α) (next : α → Scheduler H n → World H n) : Option (World H n) :=
  match m w.sched with
  | .ok a s => some (next a s)
  | .error _ _ => none

/-- Some requests leave the steps in flight behind. -/
def leave (w : World H n) (ids : List RequestId) : RequestId → ℕ := fun id =>
  if id ∈ ids then w.issued else w.leftAt id

/-- A step is issued. -/
def issue (w : World H n) (p : Pass n) (out : SchedulerOutput n) (s : Scheduler H n) : World H n :=
  { w with
    sched := s
    inFlight := w.inFlight ++ [⟨out, w.issued, fun id => decide (id ∈ out.numScheduledTokens.keys) &&
        (s.requests.get? id).any fun r => !r.isPrefillChunk⟩]
    issued := w.issued + 1
    leftAt := w.leave p.preemptedReqs }

/-- The drafts of the last step in flight. -/
def redraft (w : World H n) (drafts : List (RequestId × List ℤ)) : World H n :=
  match w.inFlight.getLast? with
  | none => w
  | some i => { w with
      inFlight := w.inFlight.dropLast ++ [{ i with out := updateDraftTokenIdsInOutput w.sched drafts i.out }] }

variable [DecidableEq H]

/-- The effect of a call; nothing if it stops the engine. -/
def step (w : World H n) : Call H n → Option (World H n)
  | .addRequest delayFree request => w.call (cfg.addRequest delayFree request) fun _ s =>
      { w with sched := s, used := w.used.insert request.requestId }
  | .schedule env => w.call (cfg.scheduleRecorded env) fun (p, out) s => w.issue p out s
  | .updateFromOutput mro =>
    match w.inFlight with
    | [] => none
    | i :: rest => w.call (cfg.updateFromOutput i.out mro) fun st s =>
        { w with sched := s, inFlight := rest, leftAt := w.leave st.sessions }
  | .finishRequests delayFree requestIds status =>
    w.call (cfg.finishRequests delayFree requestIds status) fun _ s => { w with sched := s }
  | .resetPrefixCache resetRunningRequests =>
    w.call (cfg.preemptAndReset resetRunningRequests) fun _ s =>
      { w with sched := s, leftAt := if resetRunningRequests then w.leave w.sched.running else w.leftAt }
  | .resetEncoderCache => w.call resetEncoderCache fun _ s => { w with sched := s }
  | .updateDraftTokenIds drafts => w.call (updateDraftTokenIds drafts) fun _ s => { w with sched := s }
  | .updateDraftTokenIdsInOutput drafts => some (w.redraft drafts)
  | .setPauseState pauseState => w.call (setPauseState pauseState) fun _ s => { w with sched := s }

/-- What the scheduler may rely on: a request is new, with a fresh id unless it is the next chunk of a
session, the worker samples at most the tokens that a step can give, and drafts are sent back only by
the synchronous engine. -/
def Allowed (w : World H n) : Call H n → Prop
  | .addRequest _ request => cfg.NewRequest request ∧
      (request.requestId ∈ w.used → request.requestId ∈ w.sched.requests.keys)
  | .updateFromOutput mro => ∀ i ∈ w.inFlight.head?, ∀ id, (mro.sampledTokenIds id).length ≤
      if i.samples id then cfg.numSampledTokensPerStep + i.drafts id else 0
  | .updateDraftTokenIds _ => cfg.asyncScheduling = false
  | _ => True

/-- The worlds before and after calls that all meet `P`. -/
def Runs (P : World H n → Call H n → Prop) : World H n → World H n → Prop :=
  Relation.ReflTransGen fun w w' => ∃ c, Allowed cfg w c ∧ P w c ∧ w.step cfg c = some w'

/-- What holds when the engine starts and is kept by every call that meets `P` holds in every world that
such calls lead to. -/
theorem Runs.induction {P : World H n → Call H n → Prop} {I : World H n → Prop} {w₀ w : World H n}
    (hrun : Runs cfg P w₀ w) (hinit : I w₀)
    (hstep : ∀ w c w', I w → Allowed cfg w c → P w c → w.step cfg c = some w' → I w') : I w := by
  induction hrun with
  | refl => exact hinit
  | tail _ h ih =>
    obtain ⟨c, hallowed, hP, hw'⟩ := h
    exact hstep _ c _ ih hallowed hP hw'

omit [DecidableEq H] in
theorem call_eq_some {α : Type} {w w' : World H n} {m : SchedM H n α}
    {next : α → Scheduler H n → World H n} (h : w.call m next = some w') :
    ∃ a s, m w.sched = .ok a s ∧ w' = next a s := by
  unfold call at h
  split at h
  next a s hm => exact ⟨a, s, hm, (Option.some.inj h).symm⟩
  · cases h

end World

end VllmRwkv
