import VllmRwkv.Sched.Chunks

/-!
# What the steps of the scheduler do to the requests and the queues

`Queues` is the part of the scheduler's state that says which requests there are and where they
wait. For each step of the scheduler's calls there is one lemma that gives the queues after it in
terms of the queues before it, whatever happens to the blocks; the order inside a waiting queue is
the policy's business and is left open.
-/

namespace VllmRwkv

open Raise Request Bool Dict

variable {H : Type} {n : ℕ}

/-- The requests and the queues they are in. -/
structure Queues (H : Type) where
  requests : Dict RequestId (Request H)
  running : List RequestId
  waiting : List RequestId
  kvHolding : List RequestId
  /-- The number of sessions that wait for input, as the scheduler counts them. -/
  streaming : ℤ

namespace Queues

/-- The same requests in the same queues, the waiting ones in any order. -/
structure Equiv (q q' : Queues H) : Prop where
  requests : q'.requests = q.requests
  running : q'.running = q.running
  waiting : q'.waiting.Perm q.waiting
  kvHolding : q'.kvHolding.Perm q.kvHolding
  streaming : q'.streaming = q.streaming

theorem Equiv.refl (q : Queues H) : q.Equiv q := ⟨rfl, rfl, List.Perm.refl _, List.Perm.refl _, rfl⟩

theorem Equiv.symm {q q' : Queues H} (h : q.Equiv q') : q'.Equiv q :=
  ⟨h.requests.symm, h.running.symm, h.waiting.symm, h.kvHolding.symm, h.streaming.symm⟩

end Queues

/-- The requests and queues of a scheduler. -/
def Scheduler.queues (s : Scheduler H n) : Queues H :=
  ⟨s.requests, s.running, s.waiting, s.kvHoldingWaiting, s.numWaitingForStreamingInput⟩

namespace SchedulingPolicy

variable (policy : SchedulingPolicy) (lt : RequestId → RequestId → Bool) (q : List RequestId)

theorem addRequest_perm (r : RequestId) : (policy.addRequest lt q r).Perm (r :: q) := by
  cases policy with
  | fcfs => exact List.perm_append_singleton _ _
  | priority => exact Heap.heappush_perm lt q r

theorem prependRequest_perm (r : RequestId) : (policy.prependRequest lt q r).Perm (r :: q) := by
  cases policy with
  | fcfs => exact List.Perm.refl _
  | priority => exact Heap.heappush_perm lt q r

theorem prependRequests_perm (rs : List RequestId) : (policy.prependRequests lt q rs).Perm (rs ++ q) := by
  induction rs generalizing q with
  | nil => exact List.Perm.refl _
  | cons r rs ih =>
    have hrest := (ih (policy.prependRequest lt q r)).trans ((policy.prependRequest_perm lt q r).append_left rs)
    exact hrest.trans List.perm_middle

theorem removeRequests_perm (rs : List RequestId) : (policy.removeRequests lt q rs).Perm (q.filter (· ∉ rs)) := by
  cases policy with
  | fcfs => exact List.Perm.refl _
  | priority => exact Heap.heapify_perm lt _

/-- The request that leaves a queue is the one at its front. -/
theorem popRequest_spec {r : RequestId} {rest : List RequestId}
    (h : policy.popRequest lt q = some (r, rest)) : q.head? = some r ∧ q.Perm (r :: rest) := by
  cases policy with
  | fcfs =>
    cases q with
    | nil => exact absurd h (by simp [popRequest])
    | cons x q =>
      cases h
      exact ⟨rfl, List.Perm.refl _⟩
  | priority =>
    have hperm := Heap.heappop_perm lt h
    cases q with
    | nil => exact absurd h (by simp [popRequest, Heap.heappop])
    | cons x q => exact ⟨by rw [Heap.heappop_head lt h]; rfl, hperm⟩

end SchedulingPolicy

namespace Scheduler

variable {s : Scheduler H n} {id : RequestId} {α : Type} {Q : Request H → Scheduler H n → Prop}

theorem wp_getRequest : wp (getRequest id) Q any s ↔ ∀ r, s.requests.get? id = some r → Q r s := by
  unfold getRequest
  rw [wp_get_bind]
  cases h : s.requests.get? id with
  | none => simp [any]
  | some r => simp

variable {R : PyErr → Scheduler H n → Prop}

theorem wp_getRequest_some (hr : s.requests.get? id = some r) : wp (getRequest id) Q R s ↔ Q r s := by
  unfold getRequest
  rw [wp_get_bind, hr]
  rfl

theorem wp_setRequest {r : Request H} {Q : Unit → Scheduler H n → Prop} :
    wp (setRequest id r) Q R s ↔ Q () { s with requests := s.requests.set id r } := Iff.rfl

variable {I : Scheduler H n → Prop}

theorem keeps_onKv {m : KvM H n α} (h : ∀ s kv, I s → I { s with kv := kv }) : Keeps I (onKv m) := by
  intro s hs
  rw [onKv, wp_zoom]
  exact wp_mono wp_trivial (fun _ kv _ => h s kv hs) (fun _ kv _ => h s kv hs)

theorem keeps_onEncoder {m : EStateM PyErr EncoderManager α}
    (h : ∀ s encoder, I s → I { s with encoder := encoder }) : Keeps I (onEncoder m) := by
  intro s hs
  rw [onEncoder, wp_zoom]
  exact wp_mono wp_trivial (fun _ encoder _ => h s encoder hs) (fun _ encoder _ => h s encoder hs)

/-- What a call of the cache manager gives and leaves is all that its caller sees of it. -/
theorem wp_onKv {m : KvM H n α} {Q : α → Scheduler H n → Prop}
    (h : ∀ a kv, m s.kv = .ok a kv → Q a { s with kv := kv }) : wp (onKv m) Q any s := by
  rw [onKv, wp_zoom]
  unfold wp
  split
  · exact h _ _ (by assumption)
  · trivial

end Scheduler

/-! ## Steps that leave the queues alone -/

/-- The program moves no request and changes none. -/
def Quiet {α : Type} (m : SchedM H n α) : Prop := ∀ q, Keeps (fun s => s.queues = q) m

namespace Quiet

variable {α β : Type} {m : SchedM H n α} {f : α → SchedM H n β} {s : Scheduler H n}

theorem bind (hm : Quiet m) (hf : ∀ a, Quiet (f a)) : Quiet (m >>= f) := fun q =>
  keeps_bind (hm q) fun a => hf a q

theorem pure {a : α} : Quiet (pure a : SchedM H n α) := fun _ => keeps_pure

theorem runIf {c : Prop} [Decidable c] {m : SchedM H n Unit} (hm : Quiet m) : Quiet (runIf c m) :=
  fun q => keeps_runIf fun _ => hm q

theorem get : Quiet (get : SchedM H n (Scheduler H n)) := fun _ => keeps_get

theorem modify {g : Scheduler H n → Scheduler H n} (hg : ∀ s, (g s).queues = s.queues) :
    Quiet (modify g) := fun _ => keeps_modify fun s hs => (hg s).trans hs

theorem onKv {m : KvM H n α} : Quiet (Scheduler.onKv m) := fun _ =>
  Scheduler.keeps_onKv fun _ _ hs => hs

theorem onEncoder {m : EStateM PyErr EncoderManager α} : Quiet (Scheduler.onEncoder (H := H) (n := n) m) := fun _ =>
  Scheduler.keeps_onEncoder fun _ _ hs => hs

theorem check {c : Prop} [Decidable c] {e : PyErr} : Quiet (check c e : SchedM H n Unit) := fun _ => keeps_check

theorem throw {e : PyErr} : Quiet (throw e : SchedM H n α) := fun _ => keeps_throw

theorem forM {xs : List β} {g : β → SchedM H n PUnit} (hg : ∀ x, Quiet (g x)) : Quiet (forM xs g) :=
  fun q => keeps_forM fun x _ => hg x q

theorem getRequest {id : RequestId} : Quiet (Scheduler.getRequest (H := H) (n := n) id) := by
  refine get.bind fun s => ?_
  split
  · exact throw
  · exact pure

/-- Sequencing after a program that leaves the queues alone. -/
theorem wp_bind {T : β → Scheduler H n → Prop} (hm : Quiet m)
    (hf : ∀ a s', s'.queues = s.queues → wp (f a) T any s') : wp (m >>= f) T any s := by
  rw [Raise.wp_bind]
  exact wp_any (hm s.queues s rfl) (fun a s' h => hf a s' h)

end Quiet

namespace Queues

section

variable (q : Queues H) (id : RequestId)

/-- Put a request into one of the waiting queues. -/
def enqueue (holdsKvBlocks : Bool) : Queues H :=
  if holdsKvBlocks then { q with kvHolding := id :: q.kvHolding } else { q with waiting := id :: q.waiting }

/-- Write a request back. -/
def put (r : Request H) : Queues H :=
  { q with requests := q.requests.set id r }

/-- Forget a request. -/
def drop : Queues H := { q with requests := q.requests.erase id }

theorem put_put (r r' : Request H) : (q.put id r).put id r' = q.put id r' := by
  unfold put
  rw [set_set]

end

theorem put_self {q : Queues H} {id : RequestId} {r : Request H} (h : q.requests.get? id = some r) :
    q.put id r = q := by
  unfold put
  rw [set_eq_self h]

end Queues

/-- The request has not finished and is not running. -/
def RequestStatus.isWaiting : RequestStatus → Bool
  | .waiting | .waitingForStructuredOutputGrammar | .waitingForRemoteKvs | .waitingForStreamingReq
  | .preempted => true
  | _ => false

/-- What the decision about a waiting request may change of it. -/
structure Request.Decided (r r' : Request H) : Prop where
  same : ∃ status numComputedTokens boundary, r' = { r with
    status := status, numComputedTokens := numComputedTokens, sharedPrefixBoundary := boundary }
  waiting : r.status.isWaiting → r'.status.isWaiting
  streaming : r'.status = .waitingForStreamingReq ↔ r.status = .waitingForStreamingReq
  paused : r.status = .waitingForStreamingReq → r' = r

namespace Request.Decided

variable {r r' r'' : Request H}

theorem refl (r : Request H) : r.Decided r := ⟨⟨_, _, _, rfl⟩, fun h => h, Iff.rfl, fun _ => rfl⟩

/-- A request that is not blocked stays so until it loads or runs. -/
theorem of_boundary (hstatus : r.status.isBlockedWaiting = false) (boundary : ℕ) :
    r.Decided { r with sharedPrefixBoundary := boundary } := by
  refine ⟨⟨_, _, _, rfl⟩, fun h => h, Iff.rfl, fun h => ?_⟩
  rw [h] at hstatus
  cases hstatus

theorem trans (h : r.Decided r') (h' : r'.Decided r'') : r.Decided r'' := by
  have hsame : ∃ status numComputedTokens boundary, r'' = { r with
      status := status, numComputedTokens := numComputedTokens, sharedPrefixBoundary := boundary } := by
    obtain ⟨_, _, _, rfl⟩ := h.same
    obtain ⟨_, _, _, rfl⟩ := h'.same
    exact ⟨_, _, _, rfl⟩
  refine ⟨hsame, fun hw => h'.waiting (h.waiting hw), h'.streaming.trans h.streaming, fun hs => ?_⟩
  exact (h'.paused (h.streaming.2 hs)).trans (h.paused hs)

end Request.Decided

namespace SchedulerConfig

open Scheduler

variable (cfg : SchedulerConfig H n) {s : Scheduler H n} {id : RequestId} {r : Request H}

theorem quiet_freeRequestBlocks (r : Request H) : Quiet (cfg.freeRequestBlocks r) := by
  refine Quiet.get.bind fun s => ?_
  split
  · exact Quiet.onKv
  · exact Quiet.onKv.bind fun _ => Quiet.runIf (Quiet.modify fun _ => rfl)

theorem quiet_drainDeferredFrees (fuel : ℕ) : Quiet (drainDeferredFrees (H := H) (n := n) fuel) := by
  induction fuel with
  | zero => exact Quiet.pure
  | succ fuel ih =>
    refine Quiet.get.bind fun s => ?_
    split
    · exact Quiet.pure
    · refine Quiet.runIf ?_
      exact Quiet.bind (Quiet.modify fun _ => rfl) fun _ => Quiet.onKv.bind fun _ => ih

theorem quiet_connectorFinished (delayFree : DelayFree) (r : Request H) :
    Quiet (cfg.connectorFinished delayFree r) := by
  unfold connectorFinished
  split
  · exact Quiet.onKv.runIf.bind fun _ => Quiet.onKv.bind fun _ => Quiet.pure
  · exact Quiet.pure

theorem quiet_rejectOnEncoderCacheEmbedMismatch (id : RequestId) (k k' : ℕ) :
    Quiet (rejectOnEncoderCacheEmbedMismatch (H := H) (n := n) id k k') := by
  unfold rejectOnEncoderCacheEmbedMismatch
  split
  · exact Quiet.pure
  · exact Quiet.bind (Quiet.modify fun _ => rfl) fun _ => Quiet.pure

theorem quiet_lookupEncoderInput (r : Request H) (inputId : ℕ) (f : MultiModalFeatureSpec)
    (mmHashes : Dict ℕ ℕ) : Quiet (cfg.lookupEncoderInput r inputId f mmHashes) := by
  unfold lookupEncoderInput
  split
  · exact Quiet.pure
  split
  · refine (quiet_rejectOnEncoderCacheEmbedMismatch _ _ _).bind fun rejected => ?_
    split <;> exact Quiet.pure
  refine Quiet.get.bind fun s => (quiet_rejectOnEncoderCacheEmbedMismatch _ _ _).bind fun rejected => ?_
  split
  · exact Quiet.pure
  · refine Quiet.onEncoder.bind fun hit => ?_
    split <;> exact Quiet.pure

section

variable (env : ScheduleEnv n) (r : Request H)

theorem quiet_encoderLoop (numComputedTokens encoderWindowEnd : ℕ)
    (inputIds : List ℕ) (mmHashes : Dict ℕ ℕ) (numEmbeds : ℕ) (plan : EncoderPlan) :
    Quiet (cfg.encoderLoop env r numComputedTokens encoderWindowEnd inputIds mmHashes numEmbeds plan) := by
  induction inputIds generalizing mmHashes numEmbeds plan with
  | nil => exact Quiet.pure
  | cons inputId rest ih =>
    unfold encoderLoop
    split
    · exact Quiet.throw
    split
    · exact Quiet.check.bind fun _ => ih _ _ _
    refine (cfg.quiet_lookupEncoderInput _ _ _ _).bind fun hit => ?_
    cases hit with
    | mismatch => exact Quiet.pure
    | duplicate | cached => exact ih _ _ _
    | miss =>
      dsimp only
      split
      · exact Quiet.pure
      refine Quiet.onEncoder.bind fun fits => ?_
      split
      · split
        · exact ih _ _ _
        · split <;> exact ih _ _ _
      · exact Quiet.pure

variable (numComputedTokens numNewTokens : ℕ) (encoderComputeBudget : ℤ)

theorem quiet_tryScheduleEncoderInputs :
    Quiet (cfg.tryScheduleEncoderInputs env r numComputedTokens numNewTokens encoderComputeBudget) := by
  unfold tryScheduleEncoderInputs
  split
  · exact Quiet.pure
  · exact cfg.quiet_encoderLoop _ _ _ _ _ _ _ _

theorem tryScheduleEncoderInputs_fits :
    wp (cfg.tryScheduleEncoderInputs env r numComputedTokens numNewTokens encoderComputeBudget)
      (fun plan _ => r.ItemsSorted → plan.numNewTokens ≤ numNewTokens) any s := by
  by_cases hsorted : r.ItemsSorted
  · exact wp_any (cfg.tryScheduleEncoderInputs_le env _ _ _ hsorted) (fun _ _ h _ => h)
  · exact wp_any wp_trivial (fun _ _ _ h => absurd h hsorted)

end

theorem quiet_allocateEncoderInputs (r : Request H) (plan : EncoderPlan) :
    Quiet (allocateEncoderInputs (n := n) r plan) := by
  refine Quiet.runIf ?_
  exact (Quiet.forM fun _ => Quiet.onEncoder).bind fun _ =>
    Quiet.forM fun _ => Quiet.onEncoder.bind fun _ => Quiet.pure

/-! ## Steps that move a request -/

theorem preemptRequest_effect (dropStaleOutput : Bool) :
    wp (cfg.preemptRequest id dropStaleOutput) (fun _ s' => ∃ r, s.requests.get? id = some r ∧ r.status = .running ∧
      Queues.Equiv ((s.queues.put id (r.preempt dropStaleOutput)).enqueue id false) s'.queues) any s := by
  unfold preemptRequest
  rw [wp_bind, wp_getRequest]
  intro r hr
  refine wp_check_bind fun hstatus => ?_
  refine (cfg.quiet_freeRequestBlocks r).wp_bind fun _ s0 hs0 => ?_
  refine Quiet.onEncoder.wp_bind fun _ s1 hs1 => ?_
  obtain ⟨hreq, hrun, hwait, hkv, hstr⟩ := Queues.mk.inj (hs1.trans hs0)
  refine ⟨r, hr, hstatus, ?_, hrun, ?_, ?_, hstr⟩
  · show s1.requests.set id _ = s.requests.set id _
    rw [hreq]
  · exact (cfg.policy.prependRequest_perm _ _ id).trans (List.Perm.of_eq (congrArg (id :: ·) hwait))
  · exact List.Perm.of_eq hkv

theorem enqueueWaitingRequest_effect : wp (cfg.enqueueWaitingRequest id) (fun _ s' => ∃ r, s.requests.get? id = some r ∧
      Queues.Equiv (s.queues.enqueue id r.holdsKvBlocks) s'.queues) any s := by
  unfold enqueueWaitingRequest
  rw [wp_bind, wp_getRequest]
  intro r hr
  refine Quiet.wp_bind (Quiet.runIf (Quiet.modify fun _ => rfl)) fun _ s1 hs1 => ?_
  obtain ⟨hreq, hrun, hwait, hkv, hstr⟩ := Queues.mk.inj hs1
  split_ifs with hholds
  · refine ⟨r, hr, ?_⟩
    rw [hholds]
    refine ⟨hreq, hrun, List.Perm.of_eq hwait, ?_, hstr⟩
    exact (cfg.policy.addRequest_perm _ _ id).trans (List.Perm.of_eq (congrArg (id :: ·) hkv))
  refine ⟨r, hr, ?_⟩
  rw [eq_false_iff.2 hholds]
  refine ⟨hreq, hrun, ?_, List.Perm.of_eq hkv, hstr⟩
  exact (cfg.policy.addRequest_perm _ _ id).trans (List.Perm.of_eq (congrArg (id :: ·) hwait))

theorem freeBlocks_effect : wp (cfg.freeBlocks id) (fun _ s' => ∃ r, s.requests.get? id = some r ∧ r.isFinished ∧
      s'.queues = s.queues.drop id) any s := by
  unfold freeBlocks
  rw [wp_bind, wp_getRequest]
  intro r hr
  refine wp_check_bind fun hfin => ?_
  refine (cfg.quiet_freeRequestBlocks r).wp_bind fun _ s1 hs1 => ?_
  exact ⟨r, hr, hfin, congrArg (·.drop id) hs1⟩

theorem freeRequest_effect (delayFree : DelayFree) (delayFreeBlocks : Bool) :
    wp (cfg.freeRequest delayFree id delayFreeBlocks) (fun _ s' => ∃ r, s.requests.get? id = some r ∧
      r.isFinished ∧ (s'.queues = s.queues ∨ s'.queues = s.queues.drop id)) any s := by
  unfold freeRequest
  rw [wp_bind, wp_getRequest]
  intro r hr
  refine wp_check_bind fun hfin => ?_
  refine Quiet.wp_bind (Quiet.modify fun _ => rfl) fun _ s1 hs1 => ?_
  refine (cfg.quiet_connectorFinished delayFree r).wp_bind fun _ s2 hs2 => ?_
  refine Quiet.onEncoder.wp_bind fun _ s3 hs3 => ?_
  refine Quiet.wp_bind (Quiet.modify fun _ => rfl) fun _ s4 hs4 => ?_
  have hs : s4.queues = s.queues := hs4.trans (hs3.trans (hs2.trans hs1))
  rw [wp_runIf]
  refine ⟨fun _ => ?_, fun _ => ⟨r, hr, hfin, .inl hs⟩⟩
  refine wp_any cfg.freeBlocks_effect (fun _ s' h => ?_)
  obtain ⟨_, _, _, hdrop⟩ := h
  exact ⟨r, hr, hfin, .inr (hdrop.trans (congrArg (·.drop id) hs))⟩

/-- The request of a session whose turn has ended and that goes on, and by how much the number of
sessions that wait for input grows. -/
inductive NextTurn (r : Request H) : Request H → ℤ → Prop where
  | input (update : StreamingUpdate) (rest : List (Option StreamingUpdate)) (hsession : r.resumable)
      (hfrontier : (r.numComputedTokens : ℤ) - r.numOutputPlaceholders ≥ 0) :
      NextTurn r (cfg.sessionRequest { r.endTurn with streamingQueue := some rest } update) 0
  | pause (hsession : r.resumable) (hfrontier : (r.numComputedTokens : ℤ) - r.numOutputPlaceholders ≥ 0) :
      NextTurn r { r.endTurn with status := .waitingForStreamingReq } 1

theorem NextTurn.resumable {r' : Request H} {delta : ℤ} (h : cfg.NextTurn r r' delta) : r.resumable := by
  cases h with
  | input _ _ hsession _ | pause hsession _ => exact hsession

theorem updateRequestAsSession_effect (update : StreamingUpdate) (hr : s.requests.get? id = some r) :
    wp (cfg.updateRequestAsSession id update) (fun _ s' => s'.queues =
      { s.queues.put id (cfg.sessionRequest r update) with
        streaming := s.numWaitingForStreamingInput -
          if r.status = .waitingForStreamingReq then 1 else 0 }) any s := by
  unfold updateRequestAsSession
  rw [wp_bind, wp_getRequest_some hr]
  rw [wp_bind, wp_runIf]
  constructor
  · intro hstatus
    rw [wp_modify, wp_setRequest, if_pos hstatus]
    rfl
  · intro hstatus
    rw [wp_setRequest, if_neg hstatus, Int.sub_zero]
    rfl

/-- Enqueue a request that has just been written back. -/
theorem enqueue_put_effect {q : Queues H} {c : ℤ} (hs : s.queues = { q.put id r with streaming := c }) :
    wp (cfg.enqueueWaitingRequest id) (fun _ s' =>
      Queues.Equiv (Queues.enqueue { q.put id r with streaming := c } id r.holdsKvBlocks) s'.queues) any s := by
  refine wp_any cfg.enqueueWaitingRequest_effect (fun _ s' h => ?_)
  obtain ⟨r', hr', hequiv⟩ := h
  have hreq : s.requests = q.requests.set id r := congrArg Queues.requests hs
  have hself : s.requests.get? id = some r := by rw [hreq]; exact get?_set_self
  cases hself.symm.trans hr'
  rwa [hs] at hequiv

theorem handleStoppedRequest_effect (hr : s.requests.get? id = some r) (hfin : r.isFinished) :
    wp (cfg.handleStoppedRequest id) (fun finished s' =>
      (finished ∧ r.resumable = false ∧ s'.queues = s.queues) ∨
      (finished ∧ ∃ rest, s'.queues = s.queues.put id { r.endTurn with streamingQueue := some rest }) ∨
      (finished = false ∧ ∃ r' delta, cfg.NextTurn r r' delta ∧ Queues.Equiv (Queues.enqueue { s.queues.put id r' with
          streaming := s.numWaitingForStreamingInput + delta } id r'.holdsKvBlocks) s'.queues)) any s := by
  unfold handleStoppedRequest
  rw [wp_bind, wp_getRequest_some hr]
  split_ifs with hres
  · exact .inl ⟨rfl, hres, rfl⟩
  have hsession : r.resumable := eq_true_of_not_eq_false hres
  refine wp_check_bind fun hfrontier => ?_
  split
  next rest _ => exact .inr (.inl ⟨rfl, rest, rfl⟩)
  next update rest _ =>
    -- a stopped request is not waiting for input, so the count stays
    have hstatus : r.status ≠ .waitingForStreamingReq := by
      intro h
      rw [isFinished, h] at hfin
      exact absurd hfin (by decide)
    rw [wp_bind, wp_setRequest, wp_bind]
    refine wp_any (cfg.updateRequestAsSession_effect update get?_set_self) ?_
    intro _ s1 hs1
    rw [if_neg (by exact hstatus), Int.sub_zero] at hs1
    have hs1' : s1.queues = { s.queues.put id
        (cfg.sessionRequest { r.endTurn with streamingQueue := some rest } update) with
        streaming := s.numWaitingForStreamingInput + 0 } := by
      rw [hs1, Int.add_zero]
      show Queues.mk _ _ _ _ _ = Queues.mk _ _ _ _ _
      congr 1
      exact set_set
    rw [wp_bind]
    refine wp_any (cfg.enqueue_put_effect hs1') (fun _ s' h => ?_)
    exact .inr (.inr ⟨rfl, _, _, NextTurn.input update rest hsession hfrontier, h⟩)
  · rw [wp_bind, wp_setRequest, wp_bind, wp_modify, wp_bind]
    refine wp_any (cfg.enqueue_put_effect (q := s.queues) (r := { r.endTurn with status := .waitingForStreamingReq })
      (c := s.numWaitingForStreamingInput + 1) ?_) (fun _ s' h => ?_)
    · rfl
    · exact .inr (.inr ⟨rfl, _, _, NextTurn.pause hsession hfrontier, h⟩)

/-! ## Finishing requests -/

/-- The queues without the requests `rs`, each taken out of the queues its status says. -/
def queuesWithout (q : Queues H) (rs : List (Request H)) : Queues H :=
  let waiting := (rs.filter (·.status ≠ .running)).map requestId
  { q with
    running := q.running.filter (· ∉ (rs.filter (·.status = .running)).map requestId)
    waiting := q.waiting.filter (· ∉ waiting)
    kvHolding := q.kvHolding.filter (· ∉ waiting)
    streaming := q.streaming - (rs.filter (·.status = .waitingForStreamingReq)).length }

theorem removeFromQueues_effect (rs : List (Request H)) :
    Queues.Equiv (queuesWithout s.queues rs) (cfg.removeFromQueues rs s).queues := by
  -- nothing is filtered when no request waits
  have hnil (q : List RequestId) (ids : List RequestId) (h : ids = []) : q.Perm (q.filter (· ∉ ids)) := by
    subst h; simp
  refine ⟨rfl, rfl, ?_, ?_, rfl⟩
  · show (if _ then _ else _ : List RequestId).Perm _
    split
    · exact hnil _ _ (by assumption)
    · exact cfg.policy.removeRequests_perm _ _ _
  show (if _ then _ else _ : List RequestId).Perm _
  split
  · exact hnil _ _ (by assumption)
  · exact cfg.policy.removeRequests_perm _ _ _

theorem finishRequest_effect (delayFree : DelayFree) (status : RequestStatus) :
    wp (cfg.finishRequest delayFree status id) (fun _ s' => ∃ r, s.requests.get? id = some r ∧
      (s'.queues = s.queues.put id { r with status := status } ∨
        s'.queues = (s.queues.put id { r with status := status }).drop id)) any s := by
  unfold finishRequest
  rw [wp_bind, wp_getRequest]
  intro r hr
  refine Quiet.wp_bind Quiet.get fun _ s1 hs1 => ?_
  refine Quiet.wp_bind (Quiet.runIf (Quiet.modify fun _ => rfl)) fun _ s2 hs2 => ?_
  have hs : s2.queues = s.queues := hs2.trans hs1
  refine wp_any (cfg.freeRequest_effect delayFree _) (fun _ s' h => ?_)
  obtain ⟨_, _, _, hs' | hs'⟩ := h
  · exact ⟨r, hr, .inl (by rw [← hs]; exact hs')⟩
  · exact ⟨r, hr, .inr (by rw [← hs]; exact hs')⟩

/-! ## Admission -/

section

variable (fromKvHolding : Bool)

theorem popQueue_effect : wp (cfg.popQueue fromKvHolding) (fun id s' =>
      (if fromKvHolding then s.kvHoldingWaiting else s.waiting).head? = some id ∧
      Queues.Equiv (s'.queues.enqueue id fromKvHolding) s.queues) any s := by
  unfold popQueue
  rw [wp_get_bind]
  dsimp only
  split
  · trivial
  rename_i id rest hpop
  obtain ⟨hhead, hperm⟩ := cfg.policy.popRequest_spec _ _ hpop
  cases fromKvHolding with
  | true => exact ⟨hhead, rfl, rfl, List.Perm.refl _, hperm, rfl⟩
  | false => exact ⟨hhead, rfl, rfl, hperm, List.Perm.refl _, rfl⟩

theorem skipRequest_effect (p : Pass n) : wp (cfg.skipRequest fromKvHolding p) (fun p' s' => ∃ id r,
      (if fromKvHolding then s.kvHoldingWaiting else s.waiting).head? = some id ∧
      Queues.Equiv (s'.queues.enqueue id fromKvHolding) s.queues ∧ s'.requests.get? id = some r ∧
      p' = if r.holdsKvBlocks then { p with stepSkippedKvHolding := id :: p.stepSkippedKvHolding }
        else { p with stepSkippedWaiting := id :: p.stepSkippedWaiting }) any s := by
  unfold skipRequest
  rw [wp_bind]
  refine wp_any (cfg.popQueue_effect fromKvHolding) (fun id s1 h => ?_)
  obtain ⟨hhead, hequiv⟩ := h
  refine Quiet.wp_bind (Quiet.modify fun _ => rfl) fun _ s2 hs2 => ?_
  rw [wp_bind, wp_getRequest]
  intro r hr
  rw [← hs2] at hequiv
  split
  next hholds => exact ⟨id, r, hhead, hequiv, hr, by rw [if_pos hholds]⟩
  next hholds => exact ⟨id, r, hhead, hequiv, hr, by rw [if_neg hholds]⟩

theorem admit_effect (look : Lookup n) (chunk : Chunk) (p : Pass n) :
    wp (cfg.admitRequest fromKvHolding look chunk p) (fun p' s' => ∃ id r, ∃ q : Queues H, ∃ blocks,
      (if fromKvHolding then s.kvHoldingWaiting else s.waiting).head? = some id ∧
      Queues.Equiv (q.enqueue id fromKvHolding) s.queues ∧
      q.requests.get? id = some r ∧ (r.status = .waiting ∨ r.status = .preempted) ∧
      (chunk.padSpecDecode → chunk.numNewTokens = 1 + cfg.numSpecTokens) ∧ s'.queues = { q.put id { r with
        status := .running
        numComputedTokens := look.numComputedTokens } with running := q.running ++ [id] } ∧
      p' = recordEncoder id chunk.encoder (cfg.recordAdmitted id r look chunk blocks p)) any s := by
  unfold admitRequest
  rw [wp_bind]
  refine wp_any (cfg.popQueue_effect fromKvHolding) (fun id s1 h => ?_)
  obtain ⟨hhead, hequiv⟩ := h
  rw [wp_bind, wp_getRequest]
  intro r hr
  rw [wp_bind, wp_modify]
  refine wp_check_bind fun hstatus => ?_
  refine wp_check_bind fun hpad => ?_
  rw [wp_bind, wp_setRequest]
  refine Quiet.wp_bind (Quiet.runIf (Quiet.modify fun _ => rfl)) fun _ s2 hs2 => ?_
  refine (quiet_allocateEncoderInputs r chunk.encoder).wp_bind fun _ s3 hs3 => ?_
  exact ⟨id, r, s1.queues, _, hhead, hequiv, hr, hstatus, hpad, hs3.trans hs2, rfl⟩

end

variable [DecidableEq H] {r : Request H}

theorem updateWaitingForRemoteKv_effect (hr : s.requests.get? id = some r) :
    wp (cfg.updateWaitingForRemoteKv id) (fun _ s' => ∃ numComputedTokens,
      s'.queues = s.queues.put id { r with numComputedTokens := numComputedTokens }) any s := by
  unfold updateWaitingForRemoteKv
  rw [wp_bind, wp_getRequest_some hr]
  rw [wp_get_bind]
  refine Quiet.wp_bind Quiet.onKv fun _ s1 hs1 => ?_
  exact ⟨_, by rw [← hs1]; rfl⟩

theorem handleBlockedWaitingRequest_effect (env : ScheduleEnv n) (hr : s.requests.get? id = some r) :
    wp (cfg.handleBlockedWaitingRequest env id) (fun proceed s' => ∃ r', r.Decided r' ∧
      s'.queues = s.queues.put id r' ∧ (proceed → r'.status.isBlockedWaiting = false) ∧
      (r'.holdsKvBlocks → r.holdsKvBlocks)) any s := by
  have hself : s.queues = s.queues.put id r := (Queues.put_self hr).symm
  unfold handleBlockedWaitingRequest
  rw [wp_bind, wp_getRequest_some hr]
  split
  next hstatus =>
    rw [wp_get_bind]
    split
    · rw [wp_bind]
      refine wp_any (cfg.updateWaitingForRemoteKv_effect hr) (fun _ s1 h => ?_)
      obtain ⟨numComputedTokens, hs1⟩ := h
      rw [wp_bind, wp_getRequest]
      intro r1 hr1
      have hreq : s1.requests = _ := congrArg Queues.requests hs1
      rw [hreq] at hr1
      cases get?_set_self.symm.trans hr1
      refine ⟨_, ⟨⟨_, _, _, rfl⟩, ?_, ?_, ?_⟩, (congrArg (Queues.put · id _) hs1).trans (Queues.put_put ..), ?_, ?_⟩
      · intro _; dsimp only; split <;> rfl
      · dsimp only; rw [hstatus]; split <;> simp
      · intro h; rw [hstatus] at h; cases h
      · intro _; dsimp only; split <;> rfl
      · intro _; simp [holdsKvBlocks, hstatus]
    · exact ⟨r, .refl r, hself, nofun, fun h => h⟩
  next hstatus =>
    split
    · exact ⟨r, .refl r, hself, nofun, fun h => h⟩
    · exact ⟨r, .refl r, hself, nofun, fun h => h⟩
    refine ⟨_, ⟨⟨_, _, _, rfl⟩, fun _ => rfl, by rw [hstatus]; simp, fun h => ?_⟩, rfl, fun _ => rfl, ?_⟩
    · cases hstatus.symm.trans h
    · simp [holdsKvBlocks, hstatus]
  · rw [wp_bind, wp_check]
    exact ⟨fun _ => ⟨r, .refl r, hself, nofun, fun h => h⟩, fun _ => trivial⟩
  next h1 h2 h3 =>
    refine ⟨r, .refl r, hself, fun _ => ?_, fun h => h⟩
    cases hstatus : r.status <;> first | rfl | exact absurd hstatus (by assumption)

section

omit [DecidableEq H]

theorem settleHit_effect (blocks : Fin n → List KVCacheBlock) (numLocal numExternal : ℕ)
    (hitDiverged loadKvAsync : Bool) (hr : s.requests.get? id = some r) (hid : r.requestId = id) :
    wp (cfg.settleHit r blocks numLocal numExternal hitDiverged loadKvAsync) (fun _ s' => ∃ boundary,
      s'.queues = s.queues.put id { r with sharedPrefixBoundary := boundary }) any s := by
  unfold settleHit
  split
  · refine Quiet.wp_bind Quiet.onKv fun _ s1 hs1 => ?_
    rw [wp_bind, wp_setRequest, hid]
    exact ⟨_, by rw [← hs1]; rfl⟩
  · exact ⟨_, (Queues.put_self hr).symm⟩

theorem connectorHit_effect (env : ScheduleEnv n) (blocks : Fin n → List KVCacheBlock) (numLocal : ℕ)
    (hitDiverged : Bool) (hr : s.requests.get? id = some r) (hid : r.requestId = id) :
    wp (cfg.connectorHit env r blocks numLocal hitDiverged) (fun _ s' => ∃ boundary,
      s'.queues = s.queues.put id { r with sharedPrefixBoundary := boundary }) any s := by
  have hself : s.queues = s.queues.put id r := (Queues.put_self hr).symm
  unfold connectorHit
  dsimp only
  split
  · exact ⟨_, hself⟩
  split
  · split
    · trivial
    · exact ⟨_, hself⟩
  · exact cfg.settleHit_effect _ _ _ _ _ hr hid

theorem externalHit_effect (env : ScheduleEnv n) (blocks : Fin n → List KVCacheBlock) (numLocal : ℕ)
    (hitDiverged : Bool) (hr : s.requests.get? id = some r) (hid : r.requestId = id) :
    wp (cfg.externalHit env r blocks numLocal hitDiverged) (fun _ s' => ∃ boundary,
      s'.queues = s.queues.put id { r with sharedPrefixBoundary := boundary }) any s := by
  unfold externalHit
  split
  · exact cfg.connectorHit_effect env blocks numLocal hitDiverged hr hid
  · exact ⟨_, (Queues.put_self hr).symm⟩

theorem lookupComputed_effect (env : ScheduleEnv n) (hr : s.requests.get? id = some r) (hid : r.requestId = id) :
    wp (cfg.lookupComputed env id) (fun _ s' => ∃ boundary,
      s'.queues = s.queues.put id { r with sharedPrefixBoundary := boundary }) any s := by
  unfold lookupComputed
  rw [wp_bind, wp_getRequest_some hr]
  split
  · refine Quiet.wp_bind Quiet.onKv fun hit s1 hs1 => ?_
    obtain ⟨blocks, numLocal, boundary, hitDiverged⟩ := hit
    rw [wp_bind, wp_setRequest, wp_bind]
    refine wp_any (cfg.externalHit_effect env blocks numLocal hitDiverged get?_set_self hid) ?_
    intro found s3 h
    obtain ⟨boundary', hs3⟩ := h
    have hs : s3.queues = s.queues.put id { r with sharedPrefixBoundary := boundary' } := by
      rw [hs3, ← hs1]
      exact Queues.put_put s1.queues id _ _
    split
    · exact ⟨boundary', hs⟩
    · rw [wp_bind, wp_check]
      exact ⟨fun _ => ⟨boundary', hs⟩, fun _ => trivial⟩
  · exact ⟨_, (Queues.put_self hr).symm⟩

end

theorem quiet_reservedBlocks (loadKvAsync : Bool) : Quiet (cfg.reservedBlocks (H := H) loadKvAsync) := by
  have hfold (total : ℤ) (rs : List (Request H)) : Quiet (rs.foldlM
      (fun total r => do return total + (← onKv (cfg.requestRemainingBlocks r))) total) := by
    induction rs generalizing total with
    | nil => exact Quiet.pure
    | cons r rs ih =>
      exact Quiet.bind (Quiet.onKv.bind fun _ => Quiet.pure) fun total => ih total
  unfold reservedBlocks
  split
  · exact Quiet.bind (Quiet.get.bind fun s => hfold 0 _) fun _ => Quiet.pure
  · exact Quiet.pure

theorem allocateWaiting_effect (env : ScheduleEnv n) (look : Lookup n) (chunk : Chunk)
    (hr : s.requests.get? id = some r) (hstatus : r.status.isBlockedWaiting = false) :
    wp (cfg.allocateWaiting env id look chunk) (fun verdict s' => ∃ r',
      r.Decided r' ∧ s'.queues = s.queues.put id r' ∧ (verdict = .stop → r' = r) ∧
      ∀ look' chunk', verdict = .accept look' chunk' → r' = r ∧ look' = look ∧ chunk' = chunk ∧
        look.loadKvAsync = false) any s := by
  have hself : s.queues = s.queues.put id r := (Queues.put_self hr).symm
  refine Quiet.wp_bind (cfg.quiet_reservedBlocks _) fun _ s1 hs1 => ?_
  rw [wp_bind, wp_getRequest]
  intro r' hr'
  have hreq : s1.requests = s.requests := congrArg Queues.requests hs1
  cases hr.symm.trans (hreq ▸ hr')
  rw [wp_get_bind]
  refine Quiet.wp_bind Quiet.onKv fun granted s2 hs2 => ?_
  have hs : s2.queues = s.queues := hs2.trans hs1
  split
  · refine Quiet.wp_bind (Quiet.runIf Quiet.onEncoder) fun _ s3 hs3 => ?_
    exact ⟨r, .refl r, (hs3.trans hs).trans hself, fun _ => rfl, by simp⟩
  split_ifs with hasync
  · -- a session that waits for input does not get here
    have hnot : r.status ≠ .waitingForStreamingReq := by
      intro h
      rw [h] at hstatus
      cases hstatus
    refine ⟨_, ⟨⟨_, _, _, rfl⟩, fun _ => rfl, ?_, fun h => absurd h hnot⟩, by rw [← hs]; rfl, by simp, by simp⟩
    exact iff_of_false (by simp) hnot
  · refine ⟨r, .refl r, hs.trans hself, fun _ => rfl, ?_⟩
    intro look' chunk' h
    cases h
    exact ⟨rfl, rfl, rfl, eq_false_iff.2 hasync⟩

/-- The chunk that the pass schedules for the waiting request `r`. -/
structure FirstChunk (deferPrefills : Bool) (threshold : ℕ) (p : Pass n) (r : Request H) (look : Lookup n)
    (chunk : Chunk) : Prop where
  wanted : ∃ numNewTokens, cfg.waitingNumNewTokens deferPrefills threshold p r look =
    .ok (some (numNewTokens, chunk.padSpecDecode)) ∧
    (r.ItemsSorted → chunk.encoder.numNewTokens ≤ numNewTokens)
  reserved : chunk.numNewTokens = cfg.reservePrefillLookahead r look.numComputedTokens chunk.encoder.numNewTokens
  nonzero : chunk.numNewTokens ≠ 0
  solvent : 0 ≤ p.encoderComputeBudget → 0 ≤ chunk.encoder.encoderComputeBudget

omit [DecidableEq H] in
/-- A padded request has one token left; any other chunk stays within the tokens left. -/
theorem FirstChunk.size {deferPrefills : Bool} {threshold : ℕ} {p : Pass n} {look : Lookup n} {chunk : Chunk}
    (h : cfg.FirstChunk deferPrefills threshold p r look chunk) :
    if chunk.padSpecDecode then r.numTokens - look.numComputedTokens = 1
    else r.ItemsSorted → chunk.numNewTokens ≤ r.numTokens - look.numComputedTokens := by
  obtain ⟨numNewTokens, hwanted, hfits⟩ := h.wanted
  have hle := (cfg.waitingNumNewTokens_spec hwanted).1
  cases hpad : chunk.padSpecDecode with
  | true =>
    rwa [hpad] at hle
  | false =>
    rw [hpad] at hle
    intro hsorted
    have hleft : numNewTokens ≤ r.numTokens - look.numComputedTokens := hle
    rw [h.reserved]
    exact (cfg.reservePrefillLookahead_le _ _ _).trans ((hfits hsorted).trans hleft)

omit [DecidableEq H] in
theorem firstChunk_effect (env : ScheduleEnv n) (deferPrefills : Bool) (threshold : ℕ) (p : Pass n) (look : Lookup n) :
    wp (cfg.firstChunk env deferPrefills threshold p r look) (fun found s' => s'.queues = s.queues ∧
      ∀ chunk, found = some chunk → look.loadKvAsync = false →
        cfg.FirstChunk deferPrefills threshold p r look chunk) any s := by
  unfold firstChunk
  split
  next hasync =>
    rw [wp_bind, wp_check]
    refine ⟨fun _ => ⟨rfl, fun chunk _ h => ?_⟩, fun _ => trivial⟩
    rw [hasync] at h
    exact Bool.noConfusion h
  split
  · trivial
  · exact ⟨rfl, fun _ h => (Option.some_ne_none _ h.symm).elim⟩
  rename_i numNewTokens padSpecDecode hwanted
  rw [wp_bind]
  refine wp_any (wp_and (wp_and (cfg.tryScheduleEncoderInputs_fits _ _ _ _ _)
    (cfg.tryScheduleEncoderInputs_solvent _ _ _ _ _))
    (cfg.quiet_tryScheduleEncoderInputs _ _ _ _ _ s.queues s rfl))
    (fun plan s1 h1 => ?_)
  obtain ⟨⟨hfits, hsolvent⟩, hs1⟩ := h1
  refine ⟨hs1, fun chunk h _ => ?_⟩
  split at h
  · exact absurd h (by simp)
  next hne =>
    cases h
    exact ⟨⟨numNewTokens, hwanted, hfits⟩, rfl, hne, hsolvent⟩

/-- The decision about a waiting request touches that request alone. -/
theorem tryAdmit_effect (env : ScheduleEnv n) (deferPrefills : Bool) (threshold : ℕ) (p : Pass n)
    (hr : s.requests.get? id = some r) (hid : r.requestId = id) :
    wp (cfg.tryAdmit env deferPrefills threshold p id) (fun verdict s' => ∃ r', r.Decided r' ∧
      s'.queues = s.queues.put id r' ∧ (verdict = .stop → r'.holdsKvBlocks → r.holdsKvBlocks) ∧
      ∀ look chunk, verdict = .accept look chunk → cfg.FirstChunk deferPrefills threshold p r' look chunk) any s := by
  unfold tryAdmit
  rw [wp_bind]
  refine wp_any (cfg.handleBlockedWaitingRequest_effect env hr) (fun proceed s1 h => ?_)
  obtain ⟨r1, hdec1, hs1, hproceed, hholds⟩ := h
  have hr1 : s1.requests.get? id = some r1 := by
    rw [show s1.requests = _ from congrArg Queues.requests hs1]
    exact get?_set_self
  have hid1 : r1.requestId = id := by obtain ⟨_, _, _, rfl⟩ := hdec1.same; exact hid
  split_ifs with hgo
  · rw [wp_bind, wp_getRequest_some hr1]
    split
    · exact ⟨r1, hdec1, hs1, fun _ => hholds, by simp⟩
    split
    · exact ⟨r1, hdec1, hs1, fun _ => hholds, by simp⟩
    rw [wp_bind]
    refine wp_any (cfg.lookupComputed_effect env hr1 hid1) (fun found s2 h => ?_)
    obtain ⟨boundary, hs2⟩ := h
    rw [hs1, Queues.put_put] at hs2
    have hdec2 : r.Decided { r1 with sharedPrefixBoundary := boundary } :=
      hdec1.trans (.of_boundary (hproceed hgo) boundary)
    have hr2 : s2.requests.get? id = some { r1 with sharedPrefixBoundary := boundary } := by
      rw [show s2.requests = _ from congrArg Queues.requests hs2]
      exact get?_set_self
    split
    · exact ⟨_, hdec2, hs2, fun _ => hholds, by simp⟩
    rename_i look
    rw [wp_bind, wp_getRequest_some hr2]
    rw [wp_bind]
    refine wp_any (cfg.firstChunk_effect env deferPrefills threshold p look) (fun chunk? s3 h => ?_)
    obtain ⟨hs3, hchunk⟩ := h
    have hr3 : s3.requests.get? id = some { r1 with sharedPrefixBoundary := boundary } := by
      rw [show s3.requests = s2.requests from congrArg Queues.requests hs3]
      exact hr2
    split
    · exact ⟨_, hdec2, hs3.trans hs2, fun _ => hholds, by simp⟩
    rename_i chunk
    refine wp_any (cfg.allocateWaiting_effect env look chunk hr3 (hproceed hgo)) (fun verdict s4 h => ?_)
    obtain ⟨r4, hdec4, hs4, hstop, hadmit⟩ := h
    rw [hs3, hs2, Queues.put_put] at hs4
    refine ⟨r4, hdec2.trans hdec4, hs4, fun hv => ?_, ?_⟩
    · rw [hstop hv]
      exact hholds
    intro look' chunk' hv
    obtain ⟨rfl, rfl, rfl, hasync⟩ := hadmit look' chunk' hv
    exact hchunk chunk' rfl hasync
  · exact ⟨r1, hdec1, hs1, fun _ => hholds, by simp⟩

end SchedulerConfig

end VllmRwkv
