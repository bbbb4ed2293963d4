import VllmRwkv.Batch.Condense

/-!
# Row state follows the batch

After every refresh each holder has, for every row, what is derived from the request in it, the thinking
budget only if condensing moves no request without a budget into the row of one with a budget that has left.
-/

namespace VllmRwkv.Batch

open Option InputBatch List Strided

variable {F Id Ref : Type}
  {b b' : InputBatch F Id Ref} {base : ℕ → Option (CachedRequestState F Id Ref)} {numOutputs numOutputs' : Ref → ℕ}

/-- An entry that still has to wait for tokens. -/
def waiting (numOutputs : Ref → ℕ) (entry : MinToks Ref) : Bool := numOutputs entry.outputTokIds < entry.minTokens

/-- With more output tokens, the entries that still wait are those that are made now. -/
theorem filter_minTokens (hle : ∀ ref, numOutputs ref ≤ numOutputs' ref) (r : CachedRequestState F Id Ref) :
    (minTokens numOutputs r).filter (waiting numOutputs') = minTokens numOutputs' r := by
  have hr := hle r.outputTokenIds
  unfold minTokens
  by_cases hold : r.samplingParams.minTokens = 0 ∨ r.samplingParams.minTokens ≤ numOutputs r.outputTokenIds
  · rw [if_pos hold, if_pos (by omega)]
    rfl
  rw [if_neg hold]
  by_cases hnew : r.samplingParams.minTokens = 0 ∨ r.samplingParams.minTokens ≤ numOutputs' r.outputTokenIds
  · rw [if_pos hnew, filter_some, if_neg]
    simp only [waiting, decide_eq_true_eq]
    omega
  · rw [if_neg hnew, filter_some, if_pos]
    simp only [waiting, decide_eq_true_eq]
    omega

theorem Derived.dropReached {entries : Dict ℕ (MinToks Ref)} {f : ℕ → Option (CachedRequestState F Id Ref)}
    (h : Derived (Option.filter (waiting numOutputs)) (minTokens numOutputs) entries f) :
    Derived id (minTokens numOutputs) (entries.eraseAll (entries.keys.filter fun i =>
      (entries.get? i).any fun entry => entry.minTokens ≤ numOutputs entry.outputTokIds)) f := by
  intro i
  rw [← h i, Dict.get?_eraseAll]
  cases hi : entries.get? i with
  | none =>
    split <;> rfl
  | some entry =>
    have hmem := Dict.mem_keys_of_get? hi
    by_cases hwait : waiting numOutputs entry
    · rw [filter_some, if_pos hwait, if_neg]
      · rfl
      · intro hreached
        have hle := (mem_filter.1 hreached).2
        rw [hi] at hle
        simp [waiting] at hle hwait
        omega
    rw [filter_some, if_neg hwait, if_pos]
    · rfl
    · refine mem_filter.2 ⟨hmem, ?_⟩
      rw [hi]
      simp [waiting] at hwait ⊢
      omega

/-- `MinTokensLogitsProcessor.update_state` replays the update, when the outputs have only grown. -/
theorem Derived.updateMinToks {minToks : Dict ℕ (MinToks Ref)} {f f' : ℕ → Option (CachedRequestState F Id Ref)}
    (h : Derived id (minTokens numOutputs) minToks f) (hle : ∀ ref, numOutputs ref ≤ numOutputs' ref)
    (update : Option (BatchUpdate (CachedRequestState F Id Ref))) (hf' : f' = match update with
      | none => f
      | some update => replay f update.added update.removed update.moved) :
    Derived id (minTokens numOutputs') (updateMinToks numOutputs' update minToks) f' := by
  -- what still waits of the old entries is derived anew
  have hstart : Derived (Option.filter (waiting numOutputs')) (minTokens numOutputs') minToks f := by
    intro i
    rw [show minToks.get? i = derive (minTokens numOutputs) f i from h i]
    unfold derive
    cases f i with
    | none => rfl
    | some r => exact filter_minTokens hle r
  cases update with
  | none =>
    rw [hf']
    exact hstart.dropReached
  | some update =>
    rw [hf']
    have hnew (r : CachedRequestState F Id Ref) :
        (minTokens numOutputs' r).filter (waiting numOutputs') = minTokens numOutputs' r :=
      filter_minTokens (fun _ => le_refl _) r
    exact (hstart.processDictUpdates rfl hnew update).dropReached

theorem Settled.batchUpdate (h : Settled base b) : b.rowAt = match b.batchUpdate with
    | none => base | some update => replay base update.added update.removed update.moved := by
  unfold InputBatch.batchUpdate
  split
  next hnone =>
    split at hnone
    next hall =>
      obtain ⟨hremoved, hmoved, hadded⟩ := hall
      rw [h.rows, hremoved, hmoved, hadded]
      exact vacate_nil base
    · cases hnone
  next update hsome =>
    split at hsome
    · cases hsome
    · cases hsome
      exact h.rows

variable [DecidableEq F] [Zero F]

/-- After a refresh: nothing is pending, and the holders other than the thinking budget have what is derived
from the requests in their rows; the output tokens are as many as at the refresh. -/
structure Synced (b : InputBatch F Id Ref) (numOutputs : Ref → ℕ) : Prop where
  removed : b.removed = []
  added : b.added = []
  moved : b.moved = []
  unsorted : b.isRemovedSorted = false
  full : ∀ i < b.rows.length, ∃ r, b.rows[i]? = some (some r)
  size : b.rows.length = b.numReqs
  cap : b.rows.length ≤ b.maxNumReqs
  index : Indexed b
  minP : MinP.Ok b.maxNumReqs b.minP b.rowAt
  biases : Derived id logitBias b.biases b.rowAt
  minToks : Derived id (minTokens numOutputs) b.minToks b.rowAt

/-- The thinking budget has what is derived from the requests in their rows. -/
def ThinkingSynced (b : InputBatch F Id Ref) : Prop := Derived id (thinkState b.reasoning) b.thinking b.rowAt

theorem Synced.tracks (h : Synced b numOutputs) : Tracks b.rowAt b := by
  refine ⟨h.moved, ?_, fun i => ?_, ?_, ?_, ?_, ?_, h.cap, h.index, ?_⟩
  · rw [h.added, h.removed, vacate_nil]
    rfl
  · rw [h.removed]
    refine ⟨nofun, fun hi => ?_⟩
    obtain ⟨r, hr⟩ := h.full i (List.getElem?_eq_some_iff.1 hi).1
    cases hi.symm.trans hr
  · rw [h.removed]
    exact nodup_nil
  · rw [h.added]
    exact nofun
  · rw [h.added]
    exact nofun
  · rw [h.removed]
    exact h.size
  · rw [h.unsorted]
    exact nofun

theorem Synced.refresh (h : Synced b numOutputs) (hsettled : Settled b.rowAt b') (hsame : b'.holders = b.holders)
    (hle : ∀ ref, numOutputs ref ≤ numOutputs' ref) : Synced (b'.refreshMetadata numOutputs') numOutputs' := by
  have hrows := hsettled.batchUpdate
  simp only [holders, Prod.mk.injEq] at hsame
  obtain ⟨hmax, _, hminP, hbiases, hminToks, _⟩ := hsame
  refine ⟨rfl, rfl, rfl, rfl, hsettled.full, hsettled.size, hsettled.cap, hsettled.index, ?_, ?_, ?_⟩
  · show MinP.Ok b'.maxNumReqs (b'.minP.updateState b'.batchUpdate) b'.rowAt
    have hold := h.minP
    rw [← hmax, ← hminP] at hold
    cases hupdate : b'.batchUpdate with
    | none =>
      rw [hupdate] at hrows
      rw [hrows]
      exact hold
    | some update =>
      rw [hupdate] at hrows
      rw [hrows]
      unfold batchUpdate at hupdate
      split at hupdate
      · cases hupdate
      cases hupdate
      exact hold.updateState _ hsettled.bounds (fun m hm => ⟨(hsettled.moves m hm).1, (hsettled.moves m hm).2.1⟩)
        fun m hm => (hsettled.moves m hm).2.2
  · show Derived id logitBias (updateBiases b'.batchUpdate b'.biases) b'.rowAt
    have hold := h.biases
    rw [← hbiases] at hold
    rw [hrows]
    cases b'.batchUpdate with
    | none => exact hold
    | some update => exact hold.processDictUpdates rfl (fun _ => rfl) update
  · have hold := h.minToks
    rw [← hminToks] at hold
    exact hold.updateMinToks hle b'.batchUpdate hrows

theorem ThinkingSynced.refresh (h : ThinkingSynced b) (hsettled : Settled b.rowAt b') (hsame : b'.holders = b.holders)
    (hvacated : Vacated (vacate (place b.rowAt b'.added) b'.removed) b'.moved) :
    ThinkingSynced (b'.refreshMetadata numOutputs') := by
  show Derived id (thinkState b'.reasoning) (match b'.batchUpdate with
      | none => b'.thinking
      | some update => syncBatch b'.reasoning update b'.thinking) b'.rowAt
  have hrows := hsettled.batchUpdate
  simp only [holders, Prod.mk.injEq] at hsame
  obtain ⟨_, hreasoning, _, _, _, hthinking⟩ := hsame
  unfold ThinkingSynced at h
  rw [← hthinking, ← hreasoning] at h
  rw [hrows]
  cases hupdate : b'.batchUpdate with
  | none => exact h
  | some update =>
    unfold batchUpdate at hupdate
    split at hupdate
    · cases hupdate
    · cases hupdate
      exact h.syncBatch _ hsettled.fresh hvacated

/-! ## Runs -/

section

variable (maxNumReqs : ℕ) (reasoning : Reasoning)

/-- The batch before its first step. -/
def InputBatch.init : InputBatch F Id Ref :=
  { maxNumReqs, reasoning, minP := { values := fun _ => 0, count := 0 } }

theorem InputBatch.init_synced (numOutputs : Ref → ℕ) :
    Synced (init maxNumReqs reasoning : InputBatch F Id Ref) numOutputs := by
  refine ⟨rfl, rfl, rfl, rfl, fun i hi => absurd hi (Nat.not_lt_zero i), rfl, Nat.zero_le _, fun id i => ?_, ?_, ?_, ?_⟩
  · constructor
    · intro hid
      cases hid
    · rintro ⟨r, hr, _⟩
      cases hr
  · refine ⟨fun i => rfl, ?_, fun i _ => rfl⟩
    show (0 : ℤ) = nonzero maxNumReqs fun _ => (0 : F)
    unfold nonzero
    simp
  · exact fun i => rfl
  · exact fun i => rfl

end

variable [DecidableEq Id]

/-- What the model runner keeps to: it adds requests that are not in the batch, and their outputs only grow. -/
structure Conforms (b : InputBatch F Id Ref) (numOutputs : Ref → ℕ) (step : Step F Id Ref) : Prop where
  distinct : (step.adds.map (·.reqId)).Nodup
  new : ∀ r ∈ step.adds, r.reqId ∈ b.reqIdToIndex.keys → r.reqId ∈ step.removes
  grows : ∀ ref, numOutputs ref ≤ step.numOutputs ref

/-- No request without a thinking budget is condensed into the row of a request with one that leaves the batch. -/
def KeepsBudgets (b : InputBatch F Id Ref) (step : Step F Id Ref) : Prop :=
  match step.change b with
  | .ok b' => Vacated (vacate (place b.rowAt b'.added) b'.removed) b'.moved
  | .error _ => True

/-- The states after the refreshes of the steps that `P` allows. -/
def Runs (P : InputBatch F Id Ref → Step F Id Ref → Prop) :
    InputBatch F Id Ref × (Ref → ℕ) → InputBatch F Id Ref × (Ref → ℕ) → Prop :=
  Relation.ReflTransGen fun s s' => ∃ step : Step F Id Ref, Conforms s.1 s.2 step ∧ P s.1 step ∧
    step.run s.1 = .ok s'.1 ∧ s'.2 = step.numOutputs

section Runs

variable {step : Step F Id Ref}

theorem Synced.change (h : Synced b numOutputs) (hconf : Conforms b numOutputs step) (hstep : step.change b = .ok b') :
    Settled b.rowAt b' ∧ b'.holders = b.holders := by
  unfold Step.change at hstep
  obtain ⟨b₁, hremoves, hstep⟩ := bind_ok hstep
  obtain ⟨h₁, hsame₁, hkeys⟩ := h.tracks.removes step.removes h.added hremoves
  have hnew : ∀ r ∈ step.adds, r.reqId ∉ b₁.reqIdToIndex.keys := by
    intro r hr hmem
    obtain ⟨hold, hkept⟩ := (hkeys r.reqId).1 hmem
    exact hkept (hconf.new r hr hold)
  obtain ⟨b₂, hadds, hstep⟩ := bind_ok hstep
  obtain ⟨h₂, hsame₂⟩ := h₁.adds step.adds hconf.distinct hnew hadds
  obtain ⟨b₃, hcondense, hstep⟩ := bind_ok hstep
  obtain ⟨h₃, hsame₃⟩ := h₂.condense hcondense
  obtain ⟨h₄, hsame₄⟩ := h₃.swaps step.swaps hstep
  exact ⟨h₄, hsame₄.trans (hsame₃.trans (hsame₂.trans hsame₁))⟩

theorem Step.run_ok (hstep : step.run b = .ok b') :
    ∃ b₁, step.change b = .ok b₁ ∧ b' = b₁.refreshMetadata step.numOutputs := by
  unfold Step.run at hstep
  obtain ⟨b₁, hchange, hstep⟩ := bind_ok hstep
  exact ⟨b₁, hchange, (Except.ok.inj hstep).symm⟩

/-- One step keeps the holders in line with the rows. -/
theorem Synced.run (h : Synced b numOutputs) (hconf : Conforms b numOutputs step) (hstep : step.run b = .ok b') :
    Synced b' step.numOutputs ∧ b'.maxNumReqs = b.maxNumReqs ∧ b'.reasoning = b.reasoning := by
  obtain ⟨b₁, hchange, rfl⟩ := Step.run_ok hstep
  obtain ⟨hsettled, hsame⟩ := h.change hconf hchange
  refine ⟨h.refresh hsettled hsame hconf.grows, ?_⟩
  simp only [holders, Prod.mk.injEq] at hsame
  exact ⟨hsame.1, hsame.2.1⟩

/-- One step keeps the thinking budgets in line if it vacates the rows it moves requests into. -/
theorem ThinkingSynced.run (hthink : ThinkingSynced b) (h : Synced b numOutputs) (hconf : Conforms b numOutputs step)
    (hkeeps : KeepsBudgets b step) (hstep : step.run b = .ok b') : ThinkingSynced b' := by
  obtain ⟨b₁, hchange, rfl⟩ := Step.run_ok hstep
  obtain ⟨hsettled, hsame⟩ := h.change hconf hchange
  unfold KeepsBudgets at hkeeps
  rw [hchange] at hkeeps
  exact hthink.refresh hsettled hsame hkeeps

variable {P : InputBatch F Id Ref → Step F Id Ref → Prop} {maxNumReqs : ℕ} {reasoning : Reasoning}
  {s : InputBatch F Id Ref × (Ref → ℕ)}

section

variable (h : Runs P (init maxNumReqs reasoning, numOutputs) s)

include h

theorem Runs.synced : Synced s.1 s.2 ∧ s.1.maxNumReqs = maxNumReqs ∧ s.1.reasoning = reasoning := by
  induction h with
  | refl => exact ⟨init_synced maxNumReqs reasoning numOutputs, rfl, rfl⟩
  | tail _ hstep ih =>
    obtain ⟨step, hconf, _, hrun, hout⟩ := hstep
    obtain ⟨hsynced, hmax, hreasoning⟩ := ih
    obtain ⟨hnext, hmax', hreasoning'⟩ := hsynced.run hconf hrun
    rw [hout]
    exact ⟨hnext, hmax'.trans hmax, hreasoning'.trans hreasoning⟩

theorem Runs.thinkingSynced (hP : ∀ b step, P b step → KeepsBudgets b step) : ThinkingSynced s.1 := by
  induction h with
  | refl => exact fun i => rfl
  | tail hruns hstep ih =>
    obtain ⟨step, hconf, hallowed, hrun, _⟩ := hstep
    exact ih.run (Runs.synced hruns).1 hconf (hP _ _ hallowed) hrun

end

/-- After every refresh each row has the min-p value, the logit bias, the minimum of tokens and, as long as the
steps keep the budgets apart, the thinking budget of the request in it, and of no other. -/
theorem row_state_follows (h : Runs P (init maxNumReqs reasoning, numOutputs) s) :
    (∀ i, s.1.minP.values i = ((s.1.rowAt i).map (·.samplingParams.minP)).getD 0) ∧
      s.1.minP.count = ((range maxNumReqs).countP fun i =>
        ((s.1.rowAt i).map (·.samplingParams.minP)).getD 0 ≠ 0) ∧
      (∀ i, s.1.biases.get? i = (s.1.rowAt i).bind logitBias) ∧
      (∀ i, s.1.minToks.get? i = (s.1.rowAt i).bind (minTokens s.2)) ∧ ((∀ b step, P b step → KeepsBudgets b step) →
        ∀ i, s.1.thinking.get? i = (s.1.rowAt i).bind (thinkState reasoning)) := by
  obtain ⟨hsynced, hmax, hreasoning⟩ := h.synced
  have hvalues (i : ℕ) : s.1.minP.values i = ((s.1.rowAt i).map (·.samplingParams.minP)).getD 0 := by
    rw [hsynced.minP.values i]
    unfold derive
    cases s.1.rowAt i with
    | none => rfl
    | some r => exact getD_minPOf r
  refine ⟨hvalues, ?_, hsynced.biases, hsynced.minToks, fun hP i => ?_⟩
  · have hcount := hsynced.minP.count
    unfold nonzero at hcount
    simp only [hvalues, hmax] at hcount
    exact hcount
  · rw [← hreasoning]
    exact h.thinkingSynced hP i

end Runs

/-! ## Two requests -/

instance Vacated.decidable (f : ℕ → Option (CachedRequestState F Id Ref)) :
    (moved : List Move) → Decidable (Vacated f moved)
  | [] => inferInstanceAs (Decidable True)
  | m :: moved =>
    have := Vacated.decidable (moveRow f m) moved
    inferInstanceAs (Decidable (_ ∧ _))

instance (b : InputBatch F Id Ref) (step : Step F Id Ref) : Decidable (KeepsBudgets b step) := by
  unfold KeepsBudgets
  split <;> infer_instance

/-- The steps one after the other, as long as they conform and `P` allows them. -/
def runSteps [Fintype Ref] (P : InputBatch F Id Ref → Step F Id Ref → Bool) :
    List (Step F Id Ref) → InputBatch F Id Ref × (Ref → ℕ) → Option (InputBatch F Id Ref × (Ref → ℕ))
  | [], s => some s
  | step :: steps, s =>
    if (step.adds.map (·.reqId)).Nodup ∧ (∀ r ∈ step.adds, r.reqId ∈ s.1.reqIdToIndex.keys → r.reqId ∈ step.removes) ∧
        (∀ ref, s.2 ref ≤ step.numOutputs ref) ∧ P s.1 step then
      match step.run s.1 with
      | .ok b => runSteps P steps (b, step.numOutputs)
      | .error _ => none
    else none

theorem Runs.of_runSteps [Fintype Ref] {P : InputBatch F Id Ref → Step F Id Ref → Bool} (steps : List (Step F Id Ref))
    {s s' : InputBatch F Id Ref × (Ref → ℕ)} (h : runSteps P steps s = some s') :
    Runs (fun b step => P b step) s s' := by
  induction steps generalizing s with
  | nil =>
    cases h
    exact .refl
  | cons step steps ih =>
    unfold runSteps at h
    split at h
    next hcond =>
      obtain ⟨hdistinct, hnew, hgrows, hP⟩ := hcond
      split at h
      next b hrun => exact .head ⟨step, ⟨hdistinct, hnew, hgrows⟩, hP, hrun, rfl⟩ (ih h)
      · cases h
    · cases h

/-- A request that asks for nothing but, maybe, a thinking budget. -/
def budgeted (reqId : ℕ) (thinkingTokenBudget : Option ℤ) : CachedRequestState ℕ ℕ Unit :=
  { reqId, samplingParams := { minP := 0, thinkingTokenBudget }, outputTokenIds := () }

/-- Request 1 and request 2 come, request 1 leaves. -/
def leavingFirst (budget1 budget2 : Option ℤ) : List (Step ℕ ℕ Unit) :=
  [{ removes := [], adds := [budgeted 1 budget1, budgeted 2 budget2], swaps := [], numOutputs := fun _ => 0 },
    { removes := [1], adds := [], swaps := [], numOutputs := fun _ => 0 }]

/-- The request with the budget moves into the row of the one without that has left. -/
theorem row_state_follows_leavingFirst : ∃ s : InputBatch ℕ ℕ Unit × (Unit → ℕ),
    Runs KeepsBudgets (init 4 ⟨[], []⟩, fun _ => 0) s ∧
      (s.1.rowAt 0).map (·.reqId) = some 2 ∧ s.1.thinking.get? 0 = (s.1.rowAt 0).bind (thinkState ⟨[], []⟩) := by
  obtain ⟨s, hs, hrow⟩ : ∃ s, runSteps (fun b step => decide (KeepsBudgets b step)) (leavingFirst none (some 5))
      (init 4 ⟨[], []⟩, fun _ => 0) = some s ∧ (s.1.rowAt 0).map (·.reqId) = some 2 := by
    have hsome : ((runSteps (fun b step => decide (KeepsBudgets b step)) (leavingFirst none (some 5))
        (init 4 ⟨[], []⟩, fun _ => 0)).map fun s => (s.1.rowAt 0).map (·.reqId)) = some (some 2) := by
      decide +kernel
    exact map_eq_some_iff.1 hsome
  have hruns : Runs KeepsBudgets (init 4 ⟨[], []⟩, fun _ => 0) s := by
    have := Runs.of_runSteps _ hs
    simpa only [decide_eq_true_eq] using this
  exact ⟨s, hruns, hrow, (row_state_follows hruns).2.2.2.2 (fun _ _ h => h) 0⟩

/-- The request without a budget moves into the row of the one with a budget that has left, and gets it. -/
theorem stale_budget : ∃ s : InputBatch ℕ ℕ Unit × (Unit → ℕ),
    Runs (fun _ _ => True) (InputBatch.init 4 ⟨[], []⟩, fun _ => 0) s ∧
      (s.1.rowAt 0).map (fun r => (r.reqId, r.samplingParams.thinkingTokenBudget)) = some (2, none) ∧
      (s.1.thinking.get? 0).map (·.thinkingTokenBudget) = some 5 ∧
      s.1.thinking.get? 0 ≠ (s.1.rowAt 0).bind (thinkState ⟨[], []⟩) := by
  have hsome : ((runSteps (fun _ _ => true) (leavingFirst (some 5) none) (init 4 ⟨[], []⟩, fun _ => 0)).map
      fun s => ((s.1.rowAt 0).map (fun r => (r.reqId, r.samplingParams.thinkingTokenBudget)),
        (s.1.thinking.get? 0).map (·.thinkingTokenBudget),
        decide (s.1.thinking.get? 0 = (s.1.rowAt 0).bind (thinkState ⟨[], []⟩)))) =
      some (some (2, none), some 5, false) := by
    decide +kernel
  obtain ⟨s, hs, hvalues⟩ := map_eq_some_iff.1 hsome
  simp only [Prod.mk.injEq, decide_eq_false_iff_not] at hvalues
  have hruns := Runs.of_runSteps _ hs
  simp only at hruns
  exact ⟨s, hruns, hvalues⟩

end VllmRwkv.Batch
