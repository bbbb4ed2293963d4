import VllmRwkv.Sched.Effects

/-!
# What the output of a step does to the requests and the queues

`OutputStep` lists what the round of `update_from_output` for one request can do: nothing, count the
output and drop it, append to the request, finish it, or start a session's next turn;
`processOutput_step` shows that these are all.
-/

namespace VllmRwkv

open Raise Option Dict

variable {H : Type} {n : ℕ}

/-! ## Appending tokens -/

/-- The second request is the first with more tokens, and possibly stopped. -/
def Request.Extended (r r' : Request H) : Prop :=
  ∃ tokens outputs hashes status, r' = { r with
    allTokenIds := tokens, outputTokenIds := outputs, blockHashes := hashes, status := status }

theorem Request.Extended.trans {r r' r'' : Request H} (h : r.Extended r') (h' : r'.Extended r'') : r.Extended r'' := by
  obtain ⟨_, _, _, _, rfl⟩ := h
  obtain ⟨_, _, _, _, rfl⟩ := h'
  exact ⟨_, _, _, _, rfl⟩

theorem isFinished_of_checkStop {r : Request H} {maxModelLen : ℕ} {status : RequestStatus}
    (h : checkStop r maxModelLen = some status) : status.isFinished := by
  unfold checkStop at h
  dsimp only at h
  split at h
  · exact some.inj h ▸ rfl
  split at h
  · exact some.inj h ▸ rfl
  split at h
  · exact some.inj h ▸ rfl
  split at h
  · exact absurd h (by simp)
  · split at h
    · exact some.inj h ▸ rfl
    · exact absurd h (by simp)

namespace Queues

/-- Change every request. -/
def alter (q : Queues H) (f : RequestId → Request H → Request H) : Queues H :=
  { q with requests := q.requests.mapVals f }

theorem alter_eq_of {q q' : Queues H} {f : RequestId → Request H → Request H}
    (hkeys : q'.requests.keys = q.requests.keys)
    (hget : ∀ id, q'.requests.get? id = (q.requests.get? id).map (f id)) (hrun : q'.running = q.running)
    (hwait : q'.waiting = q.waiting) (hkv : q'.kvHolding = q.kvHolding)
    (hstr : q'.streaming = q.streaming) : q' = q.alter f := by
  have hreq : q'.requests = q.requests.mapVals f := eq_of hkeys (funext hget)
  cases q'
  subst hreq hrun hwait hkv hstr
  rfl

end Queues

namespace SchedulerConfig

open Scheduler

variable (cfg : SchedulerConfig H n) {s : Scheduler H n} {id : RequestId} {r : Request H}

theorem appendTokens_spec (tokens : List ℕ) (r : Request H) : r.Extended (cfg.appendTokens tokens r).1 ∧
    (cfg.appendTokens tokens r).2.1.length ≤ tokens.length ∧
    ((cfg.appendTokens tokens r).2.2 → (cfg.appendTokens tokens r).1.isFinished) ∧
    ((cfg.appendTokens tokens r).2.2 = false → (cfg.appendTokens tokens r).1.status = r.status) := by
  induction tokens generalizing r with
  | nil => exact ⟨⟨_, _, _, _, rfl⟩, le_refl _, nofun, fun _ => rfl⟩
  | cons token tokens ih =>
    unfold appendTokens
    dsimp only
    split
    next status hstop =>
      refine ⟨⟨_, _, _, _, rfl⟩, by simp, fun _ => ?_, nofun⟩
      exact isFinished_of_checkStop hstop
    obtain ⟨hext, hlen, hstopped, hgoes⟩ := ih (r.appendOutputTokenIds cfg.hashBlockTokens cfg.hashBlockSize token)
    refine ⟨Request.Extended.trans ⟨_, _, _, _, rfl⟩ hext, ?_, hstopped, hgoes⟩
    exact Nat.succ_le_succ hlen

section

variable (mro : ModelRunnerOutput) (id : RequestId) (isStale : Bool)

/-- The placeholders that the tokens of an output take: late ones find none. -/
def placeholdersTaken (r : Request H) : ℕ :=
  if cfg.asyncScheduling ∧ isStale = false then
    (cfg.appendTokens (mro.sampledTokenIds id) r).2.1.length
  else 0

/-- What a live request is after its output has been appended. -/
structure Checked (r r' : Request H) (stopped : Bool) : Prop where
  same : ∃ status resumable, r' = { (cfg.appendTokens (mro.sampledTokenIds id) r).1 with
    status := status
    resumable := resumable
    numOutputPlaceholders := r.numOutputPlaceholders - cfg.placeholdersTaken mro id isStale r }
  resumable : r'.resumable → r.resumable
  stops : stopped → r'.isFinished
  continues : stopped = false → r'.status = r.status

end

theorem Checked.extended {mro : ModelRunnerOutput} {isStale stopped : Bool} {r' : Request H}
    (h : cfg.Checked mro id isStale r r' stopped) : ∃ tokens outputs hashes status resumable, r' = { r with
      allTokenIds := tokens, outputTokenIds := outputs, blockHashes := hashes, status := status
      resumable := resumable
      numOutputPlaceholders := r.numOutputPlaceholders - cfg.placeholdersTaken mro id isStale r } := by
  obtain ⟨status, resumable, hr'⟩ := h.same
  obtain ⟨tokens, outputs, hashes, status', hext⟩ := (cfg.appendTokens_spec (mro.sampledTokenIds id) r).1
  rw [hext] at hr'
  exact ⟨tokens, outputs, hashes, status, resumable, hr'⟩

variable [DecidableEq H]

section

variable (mro : ModelRunnerOutput) (isStale : Bool) (hr : s.requests.get? id = some r)

include hr

theorem updateRequestWithOutput_effect :
    wp (cfg.updateRequestWithOutput id (mro.sampledTokenIds id) isStale) (fun result s' =>
      ∃ r', cfg.Checked mro id isStale r r' result.2 ∧ s'.queues = s.queues.put id r') any s := by
  unfold updateRequestWithOutput
  rw [wp_bind, wp_getRequest_some hr]
  obtain ⟨⟨tokens, outputs, hashes, status, hext⟩, _, hstops, hgoes⟩ :=
    cfg.appendTokens_spec (mro.sampledTokenIds id) r
  have hchecked {r1 : Request H} (hr1 : r1 = { (cfg.appendTokens (mro.sampledTokenIds id) r).1 with
      numOutputPlaceholders := r.numOutputPlaceholders - cfg.placeholdersTaken mro id isStale r }) :
      cfg.Checked mro id isStale r r1 (cfg.appendTokens (mro.sampledTokenIds id) r).2.2 := by
    subst hr1
    refine ⟨⟨_, _, rfl⟩, ?_, hstops, hgoes⟩
    intro h
    rwa [hext] at h
  dsimp only
  split
  next hasync =>
    rw [wp_bind, wp_setRequest]
    refine wp_check_bind fun _ => ?_
    refine Quiet.wp_bind (Quiet.runIf Quiet.onKv) fun _ s1 hs1 => ?_
    rw [wp_pure]
    refine ⟨_, hchecked ?_, hs1⟩
    unfold placeholdersTaken
    cases isStale with
    | true => simp [hext]
    | false => simp [hasync, hext]
  next hsync =>
    rw [wp_bind, wp_setRequest, wp_pure]
    refine ⟨_, hchecked ?_, rfl⟩
    unfold placeholdersTaken
    simp [hsync, hext]

theorem checkOutput_effect : wp (cfg.checkOutput mro id isStale) (fun stopped s' => ∃ r',
      cfg.Checked mro id isStale r r' stopped ∧ s'.queues = s.queues.put id r') any s := by
  unfold checkOutput
  split_ifs with hnone
  · rw [wp_bind]
    refine wp_any (cfg.updateRequestWithOutput_effect mro isStale hr) (fun result s1 h => ?_)
    obtain ⟨r1, hchecked, hs1⟩ := h
    obtain ⟨newTokenIds, stopped⟩ := result
    dsimp only
    split
    · rw [wp_bind, wp_getRequest]
      intro r' hr'
      rw [show s1.requests = _ from congrArg Queues.requests hs1] at hr'
      cases get?_set_self.symm.trans hr'
      rw [wp_bind, wp_setRequest, wp_pure]
      obtain ⟨status, resumable, rfl⟩ := hchecked.same
      refine ⟨_, ⟨⟨.finishedError, false, rfl⟩, nofun, fun _ => rfl, nofun⟩, ?_⟩
      exact (congrArg (Queues.put · id _) hs1).trans (Queues.put_put ..)
    · exact ⟨r1, hchecked, hs1⟩
  · have hnil : mro.sampledTokenIds id = [] := not_not.1 hnone
    have hsame (status : RequestStatus) : { r with status := status } =
        { (cfg.appendTokens (mro.sampledTokenIds id) r).1 with
          status := status
          resumable := r.resumable
          numOutputPlaceholders := r.numOutputPlaceholders - cfg.placeholdersTaken mro id isStale r } := by
      simp [placeholdersTaken, appendTokens, hnil]
    rw [wp_bind, wp_getRequest_some hr]
    split
    · rw [wp_bind, wp_setRequest, wp_pure]
      exact ⟨{ r with status := .finishedStopped }, ⟨⟨_, _, hsame _⟩, fun h => h, fun _ => rfl, nofun⟩, rfl⟩
    · exact ⟨r, ⟨⟨_, _, hsame r.status⟩, fun h => h, nofun, fun _ => rfl⟩, (Queues.put_self hr).symm⟩

end

/-! ## One round of `update_from_output` -/

omit [DecidableEq H] in
theorem quiet_freeEncoderInputs (id : RequestId) : Quiet (cfg.freeEncoderInputs id) := by
  refine Quiet.getRequest.bind fun r => Quiet.get.bind fun s => ?_
  exact Quiet.forM fun _ => Quiet.runIf Quiet.onEncoder

/-- The output for the request is counted and otherwise ignored. -/
def ignoresOutput (failedKvLoadReqIds : List RequestId) (id : RequestId) (r : Request H) : Prop :=
  id ∈ failedKvLoadReqIds ∨ r.isFinished ∨ (0 < r.numStaleOutputTokens ∧ r.dropStaleOutput)

section

variable (out : SchedulerOutput n) (mro : ModelRunnerOutput) (id : RequestId) (r : Request H)

/-- The request when its tokens are appended: the output is counted and rejected drafts are undone. -/
def received : Request H :=
  cfg.rejectDrafts out id (mro.sampledTokenIds id) (decide (0 < r.numStaleOutputTokens))
    (r.drain ((out.numScheduledTokens.get? id).getD 0))

/-- Drafts have been rejected. -/
def rejects : Prop :=
  (out.scheduledSpecDecodeTokens.get? id).getD [] ≠ [] ∧
    (mro.sampledTokenIds id ≠ [] ∨ cfg.numSampledTokensPerStep = 0) ∧ ¬ 0 < r.numStaleOutputTokens

end

instance (out : SchedulerOutput n) (mro : ModelRunnerOutput) (id : RequestId) (r : Request H) :
    Decidable (cfg.rejects out mro id r) := inferInstanceAs (Decidable (_ ∧ _ ∧ _))

/-- The number of drafts that are not among the sampled tokens. -/
def numRejected (out : SchedulerOutput n) (mro : ModelRunnerOutput) (id : RequestId) : ℤ :=
  (((out.scheduledSpecDecodeTokens.get? id).getD []).length : ℤ) -
    ((mro.sampledTokenIds id).length - cfg.numSampledTokensPerStep : ℕ)

omit [DecidableEq H] in
theorem received_eq (out : SchedulerOutput n) (mro : ModelRunnerOutput) (r : Request H) :
    cfg.received out mro id r = { r.drain ((out.numScheduledTokens.get? id).getD 0) with
      numComputedTokens := if cfg.rejects out mro id r ∧ 0 < r.numComputedTokens then
        (r.numComputedTokens - cfg.numRejected out mro id : ℤ).toNat else r.numComputedTokens
      numOutputPlaceholders := if cfg.rejects out mro id r ∧ 0 < r.numOutputPlaceholders then
        r.numOutputPlaceholders - cfg.numRejected out mro id else r.numOutputPlaceholders } := by
  by_cases h : cfg.rejects out mro id r
  · have hif : (out.scheduledSpecDecodeTokens.get? id).getD [] ≠ [] ∧
        (mro.sampledTokenIds id ≠ [] ∨ cfg.numSampledTokensPerStep = 0) ∧
          decide (0 < r.numStaleOutputTokens) = false := ⟨h.1, h.2.1, decide_eq_false h.2.2⟩
    unfold received rejectDrafts
    simp only [hif, h, if_true, true_and, ne_eq, not_false_eq_true, and_self]
    rfl
  have hif : ¬ ((out.scheduledSpecDecodeTokens.get? id).getD [] ≠ [] ∧
      (mro.sampledTokenIds id ≠ [] ∨ cfg.numSampledTokensPerStep = 0) ∧
        decide (0 < r.numStaleOutputTokens) = false) := fun hif =>
    h ⟨hif.1, hif.2.1, of_decide_eq_false hif.2.2⟩
  unfold received rejectDrafts
  rw [if_neg hif, if_neg fun hand => h hand.1, if_neg fun hand => h hand.1]
  rfl

/-- What the round of `update_from_output` for the request `id` does to the queues and to the list of
stopped requests. -/
inductive OutputStep (out : SchedulerOutput n) (mro : ModelRunnerOutput)
    (failedKvLoadReqIds : List RequestId) (id : RequestId) (q : Queues H) (st : Stopped) :
    Queues H → Stopped → Prop
  | unknown (h : q.requests.get? id = none) : OutputStep out mro failedKvLoadReqIds id q st q st
  | ignored {r : Request H} (hr : q.requests.get? id = some r)
      (hskip : ignoresOutput failedKvLoadReqIds id r) : OutputStep out mro failedKvLoadReqIds id q st
        (q.put id (r.drain ((out.numScheduledTokens.get? id).getD 0))) st
  | continued {r r' : Request H} (hr : q.requests.get? id = some r) (hlive : ¬ ignoresOutput failedKvLoadReqIds id r)
      (hchecked : cfg.Checked mro id (decide (0 < r.numStaleOutputTokens)) (cfg.received out mro id r) r' false) :
      OutputStep out mro failedKvLoadReqIds id q st (q.put id r') st
  | finished {r r' r'' : Request H} {q' : Queues H} (hr : q.requests.get? id = some r)
      (hlive : ¬ ignoresOutput failedKvLoadReqIds id r)
      (hchecked : cfg.Checked mro id (decide (0 < r.numStaleOutputTokens)) (cfg.received out mro id r) r' true)
      (hend : r'' = r' ∨ ∃ rest, r'' = { r'.endTurn with streamingQueue := some rest })
      (hq : q' = q.put id r'' ∨ q' = q.drop id) :
      OutputStep out mro failedKvLoadReqIds id q st q' (st.add id (r.status = .running) true)
  | nextTurn {r r' r'' : Request H} {delta : ℤ} {q' : Queues H} (hr : q.requests.get? id = some r)
      (hlive : ¬ ignoresOutput failedKvLoadReqIds id r)
      (hchecked : cfg.Checked mro id (decide (0 < r.numStaleOutputTokens)) (cfg.received out mro id r) r' true)
      (hnext : cfg.NextTurn r' r'' delta)
      (hq : Queues.Equiv (Queues.enqueue { q.put id r'' with streaming := q.streaming + delta } id
        r''.holdsKvBlocks) q') :
      OutputStep out mro failedKvLoadReqIds id q st q' (st.add id (r.status = .running) false)

omit [DecidableEq H] in
theorem OutputStep.others {out : SchedulerOutput n} {mro : ModelRunnerOutput} {failed : List RequestId}
    {q q' : Queues H} {st st' : Stopped} (h : cfg.OutputStep out mro failed id q st q' st') {id' : RequestId}
    (hne : id' ≠ id) : q'.requests.get? id' = q.requests.get? id' := by
  cases h with
  | unknown _ => rfl
  | ignored _ _ | continued _ _ _ => exact get?_set_of_ne hne
  | finished _ _ _ _ hq =>
    rcases hq with rfl | rfl
    · exact get?_set_of_ne hne
    · exact get?_erase_of_ne hne
  | nextTurn _ _ _ _ hq =>
    rw [hq.requests]
    unfold Queues.enqueue
    split <;> exact get?_set_of_ne hne

omit [DecidableEq H] in
theorem drop_put (q : Queues H) (id : RequestId) (r : Request H) : (q.put id r).drop id = q.drop id := by
  unfold Queues.put Queues.drop
  rw [erase_set]

theorem processOutput_step (out : SchedulerOutput n) (mro : ModelRunnerOutput)
    (failedKvLoadReqIds : List RequestId) (st : Stopped) :
    wp (cfg.processOutput out mro failedKvLoadReqIds st id) (fun st' s' =>
      0 < (out.numScheduledTokens.get? id).getD 0 ∧
      cfg.OutputStep out mro failedKvLoadReqIds id s.queues st s'.queues st') any s := by
  unfold processOutput
  refine wp_check_bind fun hpos => ?_
  rw [wp_get_bind]
  cases hr : s.requests.get? id with
  | none => exact ⟨hpos, .unknown hr⟩
  | some r =>
    rw [wp_bind, wp_setRequest]
    refine wp_check_bind fun _ => ?_
    have hignores : ignoresOutput failedKvLoadReqIds id r ↔ (id ∈ failedKvLoadReqIds ∨
        (r.drain ((out.numScheduledTokens.get? id).getD 0)).isFinished ∨
        (decide (0 < r.numStaleOutputTokens) ∧
          (r.drain ((out.numScheduledTokens.get? id).getD 0)).dropStaleOutput)) := by
      rw [decide_eq_true_eq]
      exact Iff.rfl
    split_ifs with hskip
    · exact ⟨hpos, .ignored hr (hignores.2 hskip)⟩
    have hlive := mt hignores.1 hskip
    rw [wp_bind, wp_setRequest]
    refine Quiet.wp_bind (Quiet.runIf (cfg.quiet_freeEncoderInputs id)) fun _ s1 hs1 => ?_
    have hs1' : s1.queues = s.queues.put id (cfg.received out mro id r) :=
      hs1.trans (Queues.put_put s.queues id _ _)
    have hr1 : s1.requests.get? id = some (cfg.received out mro id r) := by
      rw [show s1.requests = _ from congrArg Queues.requests hs1']
      exact get?_set_self
    rw [wp_bind]
    refine wp_any (cfg.checkOutput_effect mro _ hr1) (fun stopped s2 h => ?_)
    obtain ⟨r', hchecked, hs2⟩ := h
    rw [hs1', Queues.put_put] at hs2
    have hr2 : s2.requests.get? id = some r' := by
      rw [show s2.requests = _ from congrArg Queues.requests hs2]
      exact get?_set_self
    cases stopped with
    | false =>
      refine ⟨hpos, ?_⟩
      rw [hs2]
      exact .continued hr hlive hchecked
    | true =>
      rw [if_pos rfl, wp_bind]
      refine wp_any (cfg.handleStoppedRequest_effect hr2 (hchecked.stops rfl)) (fun finished s3 h => ?_)
      rw [hs2] at h
      -- what is freed is gone, or stays until its transfer is over
      have hfree {r'' : Request H} (hs3 : s3.queues = s.queues.put id r'') (hfin : finished)
          (hend : r'' = r' ∨ ∃ rest, r'' = { r'.endTurn with streamingQueue := some rest }) :
          wp (do runIf (finished) (cfg.freeRequest mro.delayFree id false)
                 return st.add id (r.status = .running) finished : SchedM H n Stopped) (fun st' s' =>
            0 < (out.numScheduledTokens.get? id).getD 0 ∧
            cfg.OutputStep out mro failedKvLoadReqIds id s.queues st s'.queues st') any s3 := by
        rw [wp_bind, wp_runIf]
        refine ⟨fun _ => ?_, fun h => absurd hfin h⟩
        refine wp_any (cfg.freeRequest_effect mro.delayFree false) (fun _ s4 h4 => ?_)
        obtain ⟨_, _, _, hs4⟩ := h4
        rw [hs3, drop_put] at hs4
        rw [wp_pure, hfin]
        exact ⟨hpos, .finished hr hlive hchecked hend hs4⟩
      rcases h with ⟨hfin, _, hs3⟩ | ⟨hfin, rest, hs3⟩ | ⟨hgoes, r'', delta, hnext, hequiv⟩
      · exact hfree hs3 hfin (Or.inl rfl)
      · rw [Queues.put_put] at hs3
        exact hfree hs3 hfin (Or.inr ⟨rest, rfl⟩)
      rw [wp_bind, wp_runIf]
      refine ⟨fun h => absurd (hgoes.symm.trans h) (by decide), fun _ => ?_⟩
      rw [wp_pure, hgoes]
      refine ⟨hpos, .nextTurn (r := r) hr hlive hchecked hnext ?_⟩
      have hstr : s2.numWaitingForStreamingInput = s.numWaitingForStreamingInput := congrArg Queues.streaming hs2
      rwa [hstr, Queues.put_put] at hequiv

end SchedulerConfig

end VllmRwkv
