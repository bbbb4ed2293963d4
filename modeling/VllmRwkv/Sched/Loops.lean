import VllmRwkv.Sched.Effects

/-!
# The loops of a scheduling pass

A rule for each loop of `schedule`: what the rounds keep holds when the loop ends.

* `runningLoop_rule`: the loop over the running requests. Besides the invariant of the rounds there is
  one for the middle of a round, when the encoder inputs of the current request are planned and its
  slots are still sought.
* `waitingLoop_rule`: the loop over the waiting requests.
-/

namespace VllmRwkv

open Raise Queues List Option Dict

variable {H : Type} {n : ℕ}

namespace SchedulerConfig

open Scheduler

variable (cfg : SchedulerConfig H n) {s : Scheduler H n} {p : Pass n} {id v : RequestId}
  {reqIndex : ℕ} {r : Request H}

/-! ## Dropping a victim -/

section

variable (running : List RequestId) (v : RequestId)

/-- The running requests without the victim. -/
def runningWithout : List RequestId :=
  match cfg.policy with
  | .fcfs => running.dropLast
  | .priority => running.eraseIdx (running.idxOf v)

/-- Where the current request is once the victim has gone. -/
def indexWithout (reqIndex : ℕ) : ℕ :=
  match cfg.policy with
  | .fcfs => reqIndex
  | .priority => if running.idxOf v < reqIndex then reqIndex - 1 else reqIndex

end

/-- The record of the pass without the victim. -/
def passWithout (v : RequestId) (r : Request H) (p : Pass n) : Pass n :=
  match cfg.policy with
  | .fcfs => p
  | .priority => if v ∈ p.scheduledRunningReqs then Pass.rollback p cfg.draftSlots v r else p

theorem wp_dropVictim {Q : ℕ × Pass n → Scheduler H n → Prop} {R : PyErr → Scheduler H n → Prop} :
    wp (cfg.dropVictim v r reqIndex p) Q R s ↔ Q (cfg.indexWithout s.running v reqIndex, cfg.passWithout v r p)
        { s with running := cfg.runningWithout s.running v } := by
  unfold dropVictim runningWithout indexWithout passWithout
  rw [wp_get_bind]
  cases cfg.policy with
  | fcfs | priority => exact Iff.rfl

theorem victim_fcfs (hpolicy : cfg.policy = .fcfs) : cfg.victim s = s.running.getLast? := by
  unfold victim
  rw [hpolicy]

/-- The current request stays where the loop looks for it. -/
theorem getElem?_runningWithout (hat : s.running[reqIndex]? = some id) (hv : cfg.victim s = some v) (hne : v ≠ id) :
    (cfg.runningWithout s.running v)[cfg.indexWithout s.running v reqIndex]? = some id := by
  obtain ⟨hlt, hget⟩ := List.getElem?_eq_some_iff.1 hat
  unfold runningWithout indexWithout
  cases hpolicy : cfg.policy with
  | fcfs =>
    rw [cfg.victim_fcfs hpolicy] at hv
    have hlast : reqIndex ≠ s.running.length - 1 := by
      intro heq
      rw [getLast?_eq_getElem?, ← heq, hat] at hv
      exact hne (some.inj hv).symm
    show s.running.dropLast[reqIndex]? = some id
    rw [getElem?_dropLast, if_pos (by omega)]
    exact hat
  | priority =>
    dsimp only
    -- only the current request itself stands at its index
    have hdiff : s.running.idxOf v ≠ reqIndex := by
      intro heq
      have hv' : s.running[s.running.idxOf v]? = some v := by
        have hlt' : s.running.idxOf v < s.running.length := heq ▸ hlt
        rw [getElem?_eq_getElem hlt', getElem_idxOf hlt']
      rw [heq, hat] at hv'
      exact hne (some.inj hv').symm
    split_ifs with hbefore
    · rw [getElem?_eraseIdx, if_neg (by omega), show reqIndex - 1 + 1 = reqIndex by omega]
      exact hat
    · rw [getElem?_eraseIdx, if_pos (by omega)]
      exact hat

variable [DecidableEq H] (env : ScheduleEnv n) (deferPrefills : Bool) (threshold : ℕ)

/-! ## The running requests -/

/-- A round of the loop over the running requests keeps `I`; while slots are sought for the request
`r` under `id`, with its encoder inputs planned, `J` holds. -/
structure RunningRounds (I : Scheduler H n → ℕ → Pass n → Prop)
    (J : RequestId → Request H → EncoderPlan → Scheduler H n → ℕ → Pass n → Prop) : Prop where
  skip : ∀ {s reqIndex p id}, I s reqIndex p → s.running[reqIndex]? = some id → I s (reqIndex + 1) p
  plan : ∀ {s reqIndex p id r}, I s reqIndex p → s.running[reqIndex]? = some id → s.requests.get? id = some r →
    wp (cfg.tryScheduleEncoderInputs env r r.numComputedTokens (cfg.runningNumNewTokens threshold p r)
      p.encoderComputeBudget) (fun plan s' => J id r plan s' reqIndex p) any s
  giveUp : ∀ {s reqIndex p id r plan}, J id r plan s reqIndex p → I s reqIndex p
  refuse : ∀ {s reqIndex p id r plan numNewTokens kv}, J id r plan s reqIndex p →
    cfg.cache.allocateSlots r (cfg.runningSlotArgs numNewTokens) s.kv = .ok none kv →
    J id r plan { s with kv := kv } reqIndex p
  preempt : ∀ {s reqIndex p id r plan v rv}, J id r plan s reqIndex p →
    s.running[reqIndex]? = some id → cfg.victim s = some v → s.requests.get? v = some rv →
    cfg.requestBlocksCanBeFreed s rv →
    wp (cfg.preemptRequest v cfg.requiresKvDelivery) (fun _ s' =>
      J id r plan s' (cfg.indexWithout s.running v reqIndex)
        { cfg.passWithout v rv p with preemptedReqs := (cfg.passWithout v rv p).preemptedReqs ++ [v] })
      any { s with running := cfg.runningWithout s.running v }
  grant : ∀ {s reqIndex p id r plan newBlocks kv}, J id r plan s reqIndex p →
    s.running[reqIndex]? = some id → s.requests.get? id = some r →
    cfg.reservePrefillLookahead r r.numComputedTokens plan.numNewTokens ≠ 0 →
    cfg.cache.allocateSlots r (cfg.runningSlotArgs
      (cfg.reservePrefillLookahead r r.numComputedTokens plan.numNewTokens)) s.kv = .ok (some newBlocks) kv →
    wp (allocateEncoderInputs r plan) (fun _ s' => I s' (reqIndex + 1) (recordEncoder id plan
      (cfg.recordRunning id r (cfg.reservePrefillLookahead r r.numComputedTokens plan.numNewTokens) newBlocks p))) any
      { s with kv := kv, requests := s.requests.set id { r with specTokenIds := [] } }

section Running

variable {cfg env threshold} {I : Scheduler H n → ℕ → Pass n → Prop}
  {J : RequestId → Request H → EncoderPlan → Scheduler H n → ℕ → Pass n → Prop} {plan : EncoderPlan}

/-- When the search for slots ends without them, `J` holds; with them, it held before they were given. -/
theorem RunningRounds.allocateOrPreempt (h : cfg.RunningRounds env threshold I J) (numNewTokens fuel : ℕ)
    (hJ : J id r plan s reqIndex p) (hat : s.running[reqIndex]? = some id) (hr : s.requests.get? id = some r) :
    wp (cfg.allocateOrPreempt env id numNewTokens fuel reqIndex p) (fun result s' =>
      match result.1 with
      | none => J id r plan s' result.2.1 result.2.2
      | some newBlocks => ∃ s1 kv, J id r plan s1 result.2.1 result.2.2 ∧
          s1.running[result.2.1]? = some id ∧ s1.requests.get? id = some r ∧
          cfg.cache.allocateSlots r (cfg.runningSlotArgs numNewTokens) s1.kv = .ok (some newBlocks) kv ∧
          s' = { s1 with kv := kv }) any s := by
  induction fuel generalizing s reqIndex p with
  | zero => exact hJ
  | succ fuel ih =>
    unfold allocateOrPreempt
    rw [wp_bind, wp_getRequest_some hr]
    rw [wp_bind]
    refine wp_onKv fun granted kv hslots => ?_
    cases granted with
    | some newBlocks => exact ⟨s, kv, hJ, hat, hr, hslots, rfl⟩
    | none =>
      have hJ1 := h.refuse hJ hslots
      dsimp only
      split
      · exact hJ1
      rw [wp_get_bind]
      cases hv : cfg.victim { s with kv := kv } with
      | none => trivial
      | some v =>
        rw [wp_bind, wp_getRequest]
        intro rv hrv
        rw [wp_get_bind]
        split
        · exact hJ1
        rename_i hfree
        rw [wp_bind, wp_dropVictim, wp_bind]
        have hpre := h.preempt hJ1 hat hv hrv (Bool.not_eq_false _ ▸ hfree)
        refine wp_any (wp_and hpre (cfg.preemptRequest_effect cfg.requiresKvDelivery)) (fun _ s1 h1 => ?_)
        obtain ⟨hJ2, rv', _, _, hequiv⟩ := h1
        split
        · exact hJ2
        rename_i hne
        refine ih hJ2 ?_ ?_
        · rw [show s1.running = cfg.runningWithout s.running v from hequiv.running]
          exact cfg.getElem?_runningWithout hat hv hne
        · rw [show s1.requests = s.requests.set v _ from hequiv.requests, get?_set_of_ne fun heq => hne heq.symm]
          exact hr

theorem runningLoop_rule (h : cfg.RunningRounds env threshold I J) (fuel : ℕ) (hI : I s reqIndex p) :
    wp (cfg.runningLoop env deferPrefills threshold fuel reqIndex p)
      (fun p' s' => ∃ reqIndex', I s' reqIndex' p') any s := by
  induction fuel generalizing s reqIndex p with
  | zero => exact ⟨reqIndex, hI⟩
  | succ fuel ih =>
    unfold runningLoop
    rw [wp_get_bind]
    cases hat : s.running[reqIndex]? with
    | none => exact ⟨reqIndex, hI⟩
    | some id =>
      dsimp only
      split
      · exact ⟨reqIndex, hI⟩
      rw [wp_bind, wp_getRequest]
      intro r hr
      split
      · exact ih (h.skip hI hat)
      rw [wp_bind]
      refine wp_any (wp_and (h.plan hI hat hr) (cfg.quiet_tryScheduleEncoderInputs env r
        r.numComputedTokens (cfg.runningNumNewTokens threshold p r) p.encoderComputeBudget
        s.queues s rfl)) (fun plan s1 h1 => ?_)
      obtain ⟨hJ, hs1⟩ := h1
      have hat1 : s1.running[reqIndex]? = some id := by
        rw [show s1.running = s.running from congrArg Queues.running hs1]
        exact hat
      have hr1 : s1.requests.get? id = some r := by
        rw [show s1.requests = s.requests from congrArg Queues.requests hs1]
        exact hr
      split_ifs with hne
      · exact ih (h.skip (h.giveUp hJ) hat1)
      rw [wp_bind]
      refine wp_any (h.allocateOrPreempt _ _ hJ hat1 hr1) (fun result s2 h2 => ?_)
      obtain ⟨granted, reqIndex', p'⟩ := result
      cases granted with
      | none => exact ⟨reqIndex', h.giveUp h2⟩
      | some newBlocks =>
        obtain ⟨s3, kv, hJ3, hat3, hr3, hslots, rfl⟩ := h2
        rw [wp_bind, wp_setRequest, wp_bind]
        have hgrant := h.grant hJ3 hat3 hr3 hne hslots
        exact wp_any hgrant (fun _ s4 h4 => ih h4)

end Running

/-! ## The waiting requests -/

/-- The queue that is served next. -/
def servedQueue (s : Scheduler H n) : List RequestId :=
  if s.kvHoldingWaiting ≠ [] then s.kvHoldingWaiting
  else if s.pauseState = .unpaused then s.waiting else []

/-- A round of the loop over the waiting requests keeps `W`. -/
def WaitingRounds (W : Scheduler H n → Pass n → Prop) : Prop :=
  ∀ {s : Scheduler H n} {p : Pass n} {id : RequestId}, W s p → (servedQueue s).head? = some id →
    wp (cfg.tryAdmit env deferPrefills threshold p id) (fun verdict s' =>
      match verdict with
      | .stop => W s' p
      | .skip => wp (cfg.skipRequest (s.kvHoldingWaiting ≠ []) p) (fun p' s'' => W s'' p') any s'
      | .accept look chunk =>
        wp (cfg.admitRequest (s.kvHoldingWaiting ≠ []) look chunk p) (fun p' s'' => W s'' p') any s')
      any s

theorem waitingLoop_rule {W : Scheduler H n → Pass n → Prop}
    (h : cfg.WaitingRounds env deferPrefills threshold W) (fuel : ℕ) (hW : W s p) :
    wp (cfg.waitingLoop env deferPrefills threshold fuel p) (fun p' s' => W s' p') any s := by
  induction fuel generalizing s p with
  | zero => exact hW
  | succ fuel ih =>
    unfold waitingLoop
    rw [wp_get_bind]
    dsimp only
    split
    · exact hW
    rename_i id rest hqueue
    have hhead : (servedQueue s).head? = some id := by
      have heq : servedQueue s = id :: rest := by
        rw [← hqueue]
        unfold servedQueue
        simp only [decide_eq_true_eq]
      rw [heq]
      rfl
    split
    · exact hW
    rw [wp_bind]
    refine wp_any (h hW hhead) (fun verdict s1 h1 => ?_)
    cases verdict with
    | stop => exact h1
    | skip | accept look chunk =>
      rw [wp_bind]
      exact wp_any h1 (fun p' s2 h2 => ih h2)

/-! ## A whole pass -/

/-- The request to preempt next depends on the queues only. -/
def nextVictim (q : Queues H) : Option RequestId :=
  match cfg.policy with
  | .fcfs => q.running.getLast?
  | .priority => (lowestPriority (q.running.filterMap q.requests.get?)).map Request.requestId

/-- The requests put aside are back in their queues. -/
def requeued (q : Queues H) (p : Pass n) : Queues H :=
  { q with
    waiting := p.stepSkippedWaiting ++ q.waiting
    kvHolding := p.stepSkippedKvHolding ++ q.kvHolding }

/-- The chunk of a running request, planned when the record of the pass was `p₀`, is within the budgets
that `p` has left and within the length of the model. -/
structure Affordable (p₀ p : Pass n) (r : Request H) (plan : EncoderPlan) (numNewTokens : ℕ) : Prop where
  tokens : r.ItemsSorted → numNewTokens ≤ p.tokenBudget
  input : r.ItemsSorted → numNewTokens ≤ p.inputBudget - cfg.draftSlots
  length : r.ItemsSorted → numNewTokens ≤ cfg.cache.maxModelLen - r.numComputedTokens - cfg.numSampledTokensPerStep
  encoder : 0 ≤ p₀.encoderComputeBudget → 0 ≤ plan.encoderComputeBudget

/-- What is kept by a pass, in terms of the queues and the record of the pass: `I` while the running
requests are served, at an index, and `W` while waiting requests are admitted. -/
structure PassInvariant (I : Queues H → ℕ → Pass n → Prop) (W : Queues H → Pass n → Prop) : Prop where
  skip : ∀ {q reqIndex p id}, I q reqIndex p → q.running[reqIndex]? = some id → I q (reqIndex + 1) p
  preempt : ∀ {q q' reqIndex p v rv}, I q reqIndex p → reqIndex < q.running.length →
    cfg.nextVictim q = some v → q.requests.get? v = some rv → rv.status = .running →
    Queues.Equiv (({ q with running := cfg.runningWithout q.running v }.put v
      (rv.preempt cfg.requiresKvDelivery)).enqueue v false) q' →
    I q' (cfg.indexWithout q.running v reqIndex)
      { cfg.passWithout v rv p with preemptedReqs := (cfg.passWithout v rv p).preemptedReqs ++ [v] }
  grant : ∀ {q reqIndex p id r} {numNewTokens : ℕ} (plan newBlocks), I q reqIndex p →
    q.running[reqIndex]? = some id → q.requests.get? id = some r → numNewTokens ≠ 0 →
    (r.ItemsSorted → (numNewTokens : ℤ) ≤ r.numTokensWithSpec + r.numOutputPlaceholders - r.numComputedTokens) →
    (∃ q₀ reqIndex₀ p₀, I q₀ reqIndex₀ p₀ ∧ cfg.Affordable p₀ p r plan numNewTokens) →
    I (q.put id { r with specTokenIds := [] }) (reqIndex + 1)
      (recordEncoder id plan (cfg.recordRunning id r numNewTokens newBlocks p))
  noneAside : ∀ {q reqIndex p}, I q reqIndex p → p.stepSkippedWaiting = [] ∧ p.stepSkippedKvHolding = []
  admitNow : ∀ {q reqIndex p} (loras), I q reqIndex p → W q { p with scheduledLoras := loras }
  keyed : ∀ {q p id r}, W q p → q.requests.get? id = some r → r.requestId = id
  stop : ∀ {q p id r r'}, W q p → p.preemptedReqs = [] → id ∈ q.waiting ++ q.kvHolding → q.requests.get? id = some r →
    r.Decided r' → (r'.holdsKvBlocks → r.holdsKvBlocks) → W (q.put id r') p
  aside : ∀ {q q' : Queues H} {p id r r' fromKvHolding}, W q p → p.preemptedReqs = [] →
    q.requests.get? id = some r → r.Decided r' →
    Queues.Equiv (q'.enqueue id fromKvHolding) (q.put id r') →
    W q' (if r'.holdsKvBlocks then { p with stepSkippedKvHolding := id :: p.stepSkippedKvHolding }
      else { p with stepSkippedWaiting := id :: p.stepSkippedWaiting })
  accept : ∀ {q q' : Queues H} {p id r r' fromKvHolding look chunk} (blocks), W q p → p.preemptedReqs = [] →
    q.requests.get? id = some r → r.Decided r' → Queues.Equiv (q'.enqueue id fromKvHolding) (q.put id r') →
    (r'.status = .waiting ∨ r'.status = .preempted) →
    (∃ deferPrefills threshold, cfg.FirstChunk deferPrefills threshold p r' look chunk) →
    (chunk.padSpecDecode → chunk.numNewTokens = 1 + cfg.numSpecTokens) →
    W { q'.put id { r' with status := .running, numComputedTokens := look.numComputedTokens } with
      running := q'.running ++ [id] }
      (recordEncoder id chunk.encoder (cfg.recordAdmitted id r' look chunk blocks p))

section Pass

variable {cfg} {I : Queues H → ℕ → Pass n → Prop} {W : Queues H → Pass n → Prop}

omit [DecidableEq H] in
theorem mem_of_servedQueue (h : (servedQueue s).head? = some id) : id ∈ s.queues.waiting ++ s.queues.kvHolding := by
  have hmem := mem_of_head? h
  unfold servedQueue at hmem
  split at hmem
  · exact mem_append_right _ hmem
  · split at hmem
    · exact mem_append_left _ hmem
    · exact absurd hmem not_mem_nil

omit [DecidableEq H] in
variable (cfg) in
/-- Taking a request out of the record only adds to the budgets. -/
theorem budgets_passWithout (v : RequestId) (rv : Request H) (p : Pass n) :
    p.tokenBudget ≤ (cfg.passWithout v rv p).tokenBudget ∧ p.inputBudget ≤ (cfg.passWithout v rv p).inputBudget := by
  unfold passWithout
  split
  · exact ⟨le_rfl, le_rfl⟩
  · split
    · exact ⟨Nat.le_add_right _ _, (Nat.le_add_right _ _).trans (Nat.le_add_right _ _)⟩
    · exact ⟨le_rfl, le_rfl⟩

variable (h : cfg.PassInvariant I W)

include h

theorem PassInvariant.runningRounds : cfg.RunningRounds env threshold (fun s reqIndex p => I s.queues reqIndex p)
      (fun _ r plan s reqIndex p => I s.queues reqIndex p ∧ (r.ItemsSorted → plan.numNewTokens ≤
        ((r.numTokensWithSpec : ℤ) + r.numOutputPlaceholders - r.numComputedTokens).toNat) ∧
        ∃ q₀ reqIndex₀ p₀, I q₀ reqIndex₀ p₀ ∧ cfg.Affordable p₀ p r plan plan.numNewTokens) where
  skip := h.skip
  plan := fun {s reqIndex p _ r} hI _ _ => by
    refine wp_any (wp_and (wp_and (cfg.tryScheduleEncoderInputs_fits env r _ _ _)
      (cfg.tryScheduleEncoderInputs_solvent env r _ _ _))
      (cfg.quiet_tryScheduleEncoderInputs env r _ _ _ s.queues s rfl)) (fun plan s' h' => ?_)
    obtain ⟨⟨hfits, hsolvent⟩, hs'⟩ := h'
    have hle := fun hsorted => le_min_iff.1 ((hfits hsorted).trans (cfg.runningNumNewTokens_le threshold p r))
    have hafford := fun hsorted => le_min_iff.1 (hle hsorted).1
    have hbudgets := fun hsorted => le_min_iff.1 (hafford hsorted).2
    exact ⟨by rw [hs']; exact hI, fun hsorted => (hafford hsorted).1, s.queues, reqIndex, p, hI,
      fun hsorted => (hbudgets hsorted).1, fun hsorted => (hbudgets hsorted).2, fun hsorted => (hle hsorted).2, hsolvent⟩
  giveUp := fun hJ => hJ.1
  refuse := fun hJ _ => hJ
  preempt := fun {s reqIndex p _ _ _ v rv} hJ hat hv hrv _ => by
    refine wp_any (cfg.preemptRequest_effect cfg.requiresKvDelivery) (fun _ s' h' => ?_)
    obtain ⟨rv', hrv', hstatus, hequiv⟩ := h'
    obtain rfl : rv = rv' := some.inj (hrv.symm.trans hrv')
    obtain ⟨hI, hfits, q₀, reqIndex₀, p₀, hI₀, hafford⟩ := hJ
    have hgrown := cfg.budgets_passWithout v rv p
    refine ⟨h.preempt hI (List.getElem?_eq_some_iff.1 hat).1 hv hrv hstatus hequiv, hfits, q₀, reqIndex₀, p₀,
      hI₀, fun hsorted => (hafford.tokens hsorted).trans hgrown.1, fun hsorted => ?_, hafford.length,
      hafford.encoder⟩
    exact (hafford.input hsorted).trans (Nat.sub_le_sub_right hgrown.2 _)
  grant := fun {s reqIndex p id r plan newBlocks kv} hJ hat hr hne _ => by
    refine wp_any (quiet_allocateEncoderInputs r plan _ _ rfl) (fun _ s' hs' => ?_)
    rw [hs']
    obtain ⟨hI, hfits, q₀, reqIndex₀, p₀, hI₀, hafford⟩ := hJ
    have hreserve := cfg.reservePrefillLookahead_le r r.numComputedTokens plan.numNewTokens
    refine h.grant plan newBlocks hI hat hr hne (fun hsorted => ?_) ⟨q₀, reqIndex₀, p₀, hI₀,
      fun hsorted => hreserve.trans (hafford.tokens hsorted),
      fun hsorted => hreserve.trans (hafford.input hsorted),
      fun hsorted => hreserve.trans (hafford.length hsorted), hafford.encoder⟩
    have hle := hreserve.trans (hfits hsorted)
    omega

theorem PassInvariant.waitingRounds :
    cfg.WaitingRounds env deferPrefills threshold fun s p => W s.queues p ∧ p.preemptedReqs = [] := by
  intro s p id hboth hhead
  obtain ⟨hW, hpre⟩ := hboth
  have hmem := mem_of_servedQueue hhead
  cases hr : s.requests.get? id with
  | none =>
    -- the first thing the decision does is to look the request up
    unfold tryAdmit handleBlockedWaitingRequest
    rw [wp_bind, wp_bind, wp_getRequest]
    intro r hr'
    cases hr.symm.trans hr'
  | some r =>
    refine wp_any (cfg.tryAdmit_effect env deferPrefills threshold p hr (h.keyed hW hr)) (fun verdict s1 h1 => ?_)
    obtain ⟨r', hdec, hs1, hholds, hchunk⟩ := h1
    have hr1 : s1.requests.get? id = some r' := by
      rw [show s1.requests = s.requests.set id r' from congrArg Queues.requests hs1]
      exact get?_set_self
    have hqueues : s1.kvHoldingWaiting = s.kvHoldingWaiting ∧ s1.waiting = s.waiting :=
      ⟨congrArg Queues.kvHolding hs1, congrArg Queues.waiting hs1⟩
    -- what is popped is what was decided about
    have hserved {id' : RequestId} (hpop : (if decide (s.kvHoldingWaiting ≠ []) then
        s1.kvHoldingWaiting else s1.waiting).head? = some id') : id' = id := by
      rw [hqueues.1, hqueues.2] at hpop
      unfold servedQueue at hhead
      by_cases hkv : s.kvHoldingWaiting ≠ []
      · rw [if_pos (by simpa using hkv)] at hpop
        rw [if_pos hkv] at hhead
        exact some.inj (hpop.symm.trans hhead)
      rw [if_neg (by simpa using hkv)] at hpop
      rw [if_neg hkv] at hhead
      split at hhead
      · exact some.inj (hpop.symm.trans hhead)
      · cases hhead
    cases verdict with
    | stop =>
      refine ⟨?_, hpre⟩
      rw [hs1]
      exact h.stop hW hpre hmem hr hdec (hholds rfl)
    | skip =>
      refine wp_any (cfg.skipRequest_effect _ p) (fun p' s2 h2 => ?_)
      obtain ⟨id', r2, hpop, hequiv, hr2, rfl⟩ := h2
      obtain rfl := hserved hpop
      rw [hs1] at hequiv
      have hreq : s2.requests.get? id' = some r' := by
        have : s2.queues.requests = s.requests.set id' r' := by
          have heq := hequiv.requests
          unfold enqueue at heq
          split at heq <;> exact heq.symm
        rw [show s2.requests = s.requests.set id' r' from this]
        exact get?_set_self
      cases hreq.symm.trans hr2
      refine ⟨h.aside hW hpre hr hdec hequiv, ?_⟩
      split <;> exact hpre
    | accept look chunk =>
      refine wp_any (cfg.admit_effect _ look chunk p) (fun p' s2 h2 => ?_)
      obtain ⟨id', r2, q, blocks, hpop, hequiv, hr2, hstatus, hpad, hs2, rfl⟩ := h2
      obtain rfl := hserved hpop
      rw [hs1] at hequiv
      have hreq : q.requests.get? id' = some r' := by
        have : q.requests = s.requests.set id' r' := by
          have heq := hequiv.requests
          unfold enqueue at heq
          split at heq <;> exact heq.symm
        rw [this]
        exact get?_set_self
      cases hreq.symm.trans hr2
      rw [hs2]
      refine ⟨h.accept blocks hW hpre hr hdec hequiv hstatus ⟨_, _, hchunk look chunk rfl⟩ hpad, ?_⟩
      unfold recordEncoder
      split <;> exact hpre

/-- After a pass `W` holds of the queues, apart from the requests that were put aside. -/
theorem schedulePass_rule
    (hI : I s.queues 0 { tokenBudget := if s.pauseState = .pausedAll then 0 else cfg.maxNumScheduledTokens
                         inputBudget := cfg.maxNumBatchedTokens
                         encoderComputeBudget := cfg.maxNumEncoderInputTokens }) :
    wp (cfg.schedulePass env) (fun p s' => ∃ q, W q p ∧ Queues.Equiv (requeued q p) s'.queues) any s := by
  unfold schedulePass
  rw [wp_bind, wp_modify, wp_bind]
  refine wp_onKv fun _ kv _ => ?_
  rw [wp_get_bind]
  rw [wp_bind]
  refine wp_any (runningLoop_rule _ (h.runningRounds env _) s.running.length ?_) (fun p s3 h3 => ?_)
  · exact hI
  · obtain ⟨reqIndex, hI3⟩ := h3
    obtain ⟨hnone, hnone'⟩ := h.noneAside hI3
    unfold scheduleWaiting
    rw [wp_get_bind]
    refine wp_check_bind fun _ => ?_
    have hW := h.admitNow (cfg.runningLoras s3 p) hI3
    split_ifs with hgo
    · rw [wp_bind]
      refine wp_any (cfg.waitingLoop_rule env _ _ (h.waitingRounds env _ _) _ ⟨hW, hgo.1⟩) (fun p4 s4 h4 => ?_)
      obtain ⟨h4, -⟩ := h4
      rw [wp_bind, wp_modify]
      refine Quiet.wp_bind (Quiet.runIf (Quiet.modify fun _ => rfl)) fun _ s5 hs5 => ?_
      rw [wp_pure]
      refine ⟨s4.queues, h4, ?_⟩
      rw [hs5]
      exact ⟨rfl, rfl, cfg.policy.prependRequests_perm _ _ _, cfg.policy.prependRequests_perm _ _ _, rfl⟩
    · refine ⟨s3.queues, hW, ?_⟩
      rw [show ({ p with scheduledLoras := cfg.runningLoras s3 p } : Pass n).stepSkippedWaiting = [] from hnone,
        show ({ p with scheduledLoras := cfg.runningLoras s3 p } : Pass n).stepSkippedKvHolding = [] from hnone']
      exact Queues.Equiv.refl _

end Pass

end SchedulerConfig

end VllmRwkv
