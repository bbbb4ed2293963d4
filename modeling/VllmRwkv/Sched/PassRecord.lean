import VllmRwkv.Sched.Placement
import VllmRwkv.Sched.Loops

/-!
# What a pass leaves behind

`PassRecord c q₀ q p` relates the queues before and during a pass and the record of the pass: requests
and queues agree, a scheduled request is running and its chunk fits, a preempted one is not, and what a
pass may change of a request is named (`Served`). `schedulePass_record` shows it for every pass.
-/

namespace VllmRwkv

open List Dict Option Raise

variable {H : Type} {n : ℕ}

/-- What a pass may change of a request that it does not preempt. -/
structure Request.Kept (r₀ r : Request H) : Prop where
  same : ∃ status numComputedTokens boundary specTokenIds, r = { r₀ with
    status := status
    numComputedTokens := numComputedTokens
    sharedPrefixBoundary := boundary
    specTokenIds := specTokenIds }
  paused : r₀.status = .waitingForStreamingReq → r = r₀
  running : r₀.status = .running → r.status = .running ∧ r.numComputedTokens = r₀.numComputedTokens
  waiting : r.status.isWaiting → r₀.status.isWaiting
  streaming : r.status = .waitingForStreamingReq → r₀.status = .waitingForStreamingReq
  finished : r₀.isFinished → r.isFinished

theorem Request.Kept.refl (r : Request H) : r.Kept r :=
  ⟨⟨_, _, _, _, rfl⟩, fun _ => rfl, fun h => ⟨h, rfl⟩, fun h => h, fun h => h, fun h => h⟩

section

variable (p : Pass n) (id : RequestId)

/-- The tokens that a pass has scheduled for a request. -/
def Pass.tokens : ℕ := (p.numScheduledTokens.get? id).getD 0

/-- The number of draft tokens among them. -/
def Pass.drafts : ℕ := ((p.scheduledSpecDecodeTokens.get? id).getD []).length

/-- The chunk that a pass has scheduled for the request: it is not empty, and drafts follow the last
token of the request only. -/
structure ChunkOf (r : Request H) : Prop where
  nonempty : 0 < p.tokens id
  drafts : 0 < p.drafts id →
    (r.numTokens : ℤ) + r.numOutputPlaceholders + p.drafts id ≤ r.numComputedTokens + p.tokens id
  fits : r.ItemsSorted → (r.numComputedTokens : ℤ) + p.tokens id ≤ r.numTokens + r.numOutputPlaceholders + p.drafts id

end

theorem ChunkOf.congr {p p' : Pass n} {id : RequestId} {r : Request H} (h : ChunkOf p id r)
    (htokens : p'.tokens id = p.tokens id) (hdrafts : p'.drafts id = p.drafts id) : ChunkOf p' id r :=
  ⟨htokens ▸ h.nonempty, htokens ▸ hdrafts ▸ h.drafts, htokens ▸ hdrafts ▸ h.fits⟩

namespace SchedulerConfig

open Queues

variable (cfg : SchedulerConfig H n)

/-- The request `r` during the pass that found `r₀`. -/
def Served (p : Pass n) (id : RequestId) (r₀ r : Request H) : Prop :=
  if id ∈ p.preemptedReqs then ∃ r₁, r₀.Kept r₁ ∧ r₁.status = .running ∧ r = r₁.preempt cfg.requiresKvDelivery
  else r₀.Kept r

/-- The queues `q` and the record `p` during the pass that found the queues `q₀`. -/
structure PassRecord (c : Prop) (q₀ q : Queues H) (p : Pass n) : Prop where
  placed : Placed c (requeued q p)
  keys : q.requests.keys = q₀.requests.keys
  served : ∀ id r, q.requests.get? id = some r → ∃ r₀, q₀.requests.get? id = some r₀ ∧ cfg.Served p id r₀ r
  scheduled : ∀ id ∈ p.numScheduledTokens.keys, id ∈ q.running
  chunk : ∀ id ∈ p.numScheduledTokens.keys, ∀ r, q.requests.get? id = some r → ChunkOf p id r
  drafts : ∀ id, id ∉ p.numScheduledTokens.keys → p.scheduledSpecDecodeTokens.get? id = none
  preempted : ∀ id ∈ p.preemptedReqs, id ∉ q.running
  idle : ∀ id r, q.requests.get? id = some r → r.status.isWaiting → r.numOutputPlaceholders = 0
  admitted : ∀ id ∈ q.running, id ∈ p.numScheduledTokens.keys ∨
    ∃ r₀, q₀.requests.get? id = some r₀ ∧ r₀.status = .running
  streaming : q.streaming = q₀.streaming

/-- While the running requests are served, the scheduled ones stand before the current index. -/
structure RunningRecord (c : Prop) (q₀ q : Queues H) (reqIndex : ℕ) (p : Pass n) : Prop where
  record : cfg.PassRecord c q₀ q p
  visited : ∀ id ∈ p.numScheduledTokens.keys, id ∈ q.running.take reqIndex
  listed : ∀ id ∈ p.numScheduledTokens.keys, id ∈ p.scheduledRunningReqs
  noneAside : p.stepSkippedWaiting = [] ∧ p.stepSkippedKvHolding = []

section Lemmas

variable {cfg} {c : Prop} {q₀ q q' : Queues H} {p : Pass n} {id v : RequestId} {r r' rv : Request H} {reqIndex : ℕ}
  {fromKvHolding : Bool} {k : ℕ} {p' : Pass n}

theorem requeued_none (h : p.stepSkippedWaiting = [] ∧ p.stepSkippedKvHolding = []) : requeued q p = q := by
  unfold requeued
  rw [h.1, h.2]
  rfl

/-! ## The record of encoder inputs -/

section RecordEncoder

variable {plan : EncoderPlan}

@[simp] theorem numScheduledTokens_recordEncoder :
    (recordEncoder id plan p).numScheduledTokens = p.numScheduledTokens := by
  unfold recordEncoder
  split <;> rfl

@[simp] theorem scheduledSpecDecodeTokens_recordEncoder :
    (recordEncoder id plan p).scheduledSpecDecodeTokens = p.scheduledSpecDecodeTokens := by
  unfold recordEncoder
  split <;> rfl

@[simp] theorem preemptedReqs_recordEncoder : (recordEncoder id plan p).preemptedReqs = p.preemptedReqs := by
  unfold recordEncoder
  split <;> rfl

@[simp] theorem scheduledRunningReqs_recordEncoder :
    (recordEncoder id plan p).scheduledRunningReqs = p.scheduledRunningReqs := by
  unfold recordEncoder
  split <;> rfl

@[simp] theorem stepSkippedWaiting_recordEncoder :
    (recordEncoder id plan p).stepSkippedWaiting = p.stepSkippedWaiting := by
  unfold recordEncoder
  split <;> rfl

@[simp] theorem stepSkippedKvHolding_recordEncoder :
    (recordEncoder id plan p).stepSkippedKvHolding = p.stepSkippedKvHolding := by
  unfold recordEncoder
  split <;> rfl

end RecordEncoder

/-! ## Preempting a request -/

theorem lowestPriority_mem {rs : List (Request H)} (h : lowestPriority rs = some r) : r ∈ rs := by
  induction rs generalizing r with
  | nil => cases h
  | cons x rs ih =>
    unfold lowestPriority at h
    split at h
    · cases h
      exact mem_cons_self
    rename_i best hbest
    split at h
    · cases h
      exact mem_cons_of_mem _ (ih hbest)
    · cases h
      exact mem_cons_self

theorem nextVictim_mem (hkeyed : Keyed q) (h : cfg.nextVictim q = some v) : v ∈ q.running := by
  unfold nextVictim at h
  split at h
  · exact mem_of_getLast? h
  obtain ⟨r, hr, rfl⟩ := map_eq_some_iff.1 h
  obtain ⟨id, hid, hget⟩ := mem_filterMap.1 (lowestPriority_mem hr)
  rw [hkeyed id r hget]
  exact hid

theorem runningWithout_perm (hmem : v ∈ q.running) (h : cfg.nextVictim q = some v) :
    q.running.Perm (v :: cfg.runningWithout q.running v) := by
  unfold nextVictim at h
  unfold runningWithout
  split
  next hpolicy =>
    rw [hpolicy] at h
    have hsplit := dropLast_append_getLast? v (mem_def.2 h)
    have hperm := perm_append_singleton v q.running.dropLast
    rwa [hsplit] at hperm
  · rw [eraseIdx_idxOf_eq_erase]
    exact perm_cons_erase hmem

theorem exists_of_mem_take {l : List RequestId} (h : id ∈ l.take k) : ∃ i < k, l[i]? = some id := by
  obtain ⟨i, hi⟩ := mem_iff_getElem?.1 h
  rw [getElem?_take] at hi
  split at hi
  · exact ⟨i, by assumption, hi⟩
  · cases hi

/-- What stands before the current request stays before it. -/
theorem mem_take_runningWithout (hlt : reqIndex < q.running.length) (hne : id ≠ v) (hid : id ∈ q.running.take reqIndex) :
    id ∈ (cfg.runningWithout q.running v).take (cfg.indexWithout q.running v reqIndex) := by
  obtain ⟨i, hbefore, hi⟩ := exists_of_mem_take hid
  unfold runningWithout indexWithout
  cases cfg.policy with
  | fcfs =>
    refine mem_of_getElem? (i := i) ?_
    rw [getElem?_take_of_lt hbefore, getElem?_dropLast, if_pos (by omega)]
    exact hi
  | priority =>
    dsimp only
    -- `id` is not at the place of the victim
    have hdiff : q.running.idxOf v ≠ i := by
      intro heq
      have hat : q.running[q.running.idxOf v]? = some v := by
        have hlt' : q.running.idxOf v < q.running.length := by
          rw [heq]
          exact (List.getElem?_eq_some_iff.1 hi).1
        rw [getElem?_eq_getElem hlt', getElem_idxOf hlt']
      rw [heq, hi] at hat
      exact hne (some.inj hat)
    by_cases hvictim : q.running.idxOf v < i
    · refine mem_of_getElem? (i := i - 1) ?_
      rw [if_pos (by omega), getElem?_take_of_lt (by omega), getElem?_eraseIdx, if_neg (by omega),
        show i - 1 + 1 = i by omega]
      exact hi
    · refine mem_of_getElem? (i := i) ?_
      rw [getElem?_take_of_lt (by split <;> omega), getElem?_eraseIdx, if_pos (by omega)]
      exact hi

/-- The record `p'` has lost the request `v`, which is preempted, and nothing else. -/
structure Unscheduled (v : RequestId) (p p' : Pass n) : Prop where
  preempted : p'.preemptedReqs = p.preemptedReqs ++ [v]
  skippedWaiting : p'.stepSkippedWaiting = p.stepSkippedWaiting
  skippedKvHolding : p'.stepSkippedKvHolding = p.stepSkippedKvHolding
  tokens : ∀ id, id ≠ v → p'.numScheduledTokens.get? id = p.numScheduledTokens.get? id
  drafts : ∀ id, id ≠ v → p'.scheduledSpecDecodeTokens.get? id = p.scheduledSpecDecodeTokens.get? id
  listed : ∀ id, id ≠ v → (id ∈ p'.scheduledRunningReqs ↔ id ∈ p.scheduledRunningReqs)
  victim : p'.numScheduledTokens.get? v = none ∧ p'.scheduledSpecDecodeTokens.get? v = none

section

variable (h : cfg.RunningRecord c q₀ q reqIndex p) (hlt : reqIndex < q.running.length) (hv : cfg.nextVictim q = some v)

include h hlt hv

theorem RunningRecord.unscheduled (rv : Request H) : Unscheduled v p { cfg.passWithout v rv p with
      preemptedReqs := (cfg.passWithout v rv p).preemptedReqs ++ [v] } := by
  have hnodup : q.running.Nodup := h.record.placed.seated.nodup_running
  -- a victim that the pass has not scheduled leaves the record as it is
  have hsame (hnot : v ∉ p.numScheduledTokens.keys) :
      Unscheduled v p { p with preemptedReqs := p.preemptedReqs ++ [v] } :=
    ⟨rfl, rfl, rfl, fun _ _ => rfl, fun _ _ => rfl, fun _ _ => Iff.rfl, not_mem_keys_iff.1 hnot, h.record.drafts v hnot⟩
  unfold nextVictim at hv
  unfold passWithout
  split
  next hpolicy =>
    rw [hpolicy] at hv
    refine hsame fun hkey => ?_
    -- the last running request is not before the current one
    obtain ⟨i, hbefore, hi⟩ := exists_of_mem_take (h.visited v hkey)
    have hlast : q.running[q.running.length - 1]? = some v := by
      rw [← getLast?_eq_getElem?]
      exact hv
    have hat := (getElem?_inj (by omega) hnodup).1 (hi.trans hlast.symm)
    omega
  · split
    · exact ⟨rfl, rfl, rfl, fun _ hne => get?_erase_of_ne hne, fun _ hne => get?_erase_of_ne hne,
        fun _ hne => mem_erase_of_ne hne, get?_erase_self, get?_erase_self⟩
    next hnot => exact hsame fun hkey => hnot (h.listed v hkey)

theorem RunningRecord.preempt (hrv : q.requests.get? v = some rv) (hstatus : rv.status = .running)
    (hq : Queues.Equiv (({ q with running := cfg.runningWithout q.running v }.put v
      (rv.preempt cfg.requiresKvDelivery)).enqueue v false) q') (hp : Unscheduled v p p') :
    cfg.RunningRecord c q₀ q' (cfg.indexWithout q.running v reqIndex) p' := by
  have hrec := h.record
  have hplaced : Placed c q := by
    have hplaced := hrec.placed
    rwa [requeued_none h.noneAside] at hplaced
  have hmem := nextVictim_mem hplaced.seated.keyed hv
  have hperm := runningWithout_perm hmem hv
  have hnone : p'.stepSkippedWaiting = [] ∧ p'.stepSkippedKvHolding = [] :=
    ⟨hp.skippedWaiting.trans h.noneAside.1, hp.skippedKvHolding.trans h.noneAside.2⟩
  have hrunning : q'.running = cfg.runningWithout q.running v := hq.running
  have hnodup := nodup_cons.1 (hperm.nodup_iff.1 hplaced.seated.nodup_running)
  -- what is scheduled is another request, and was scheduled before
  have hkeys : ∀ id, id ∈ p'.numScheduledTokens.keys ↔ id ≠ v ∧ id ∈ p.numScheduledTokens.keys := by
    intro id
    by_cases hne : id = v
    · subst hne
      exact iff_of_false (not_mem_keys_iff.2 hp.victim.1) fun hin => hin.1 rfl
    · rw [Dict.mem_keys, hp.tokens id hne, ← Dict.mem_keys]
      exact (and_iff_right hne).symm
  have hrequests : ∀ id, id ≠ v → q'.requests.get? id = q.requests.get? id := by
    intro id hne
    rw [hq.requests]
    exact get?_set_of_ne hne
  have hvictim : q'.requests.get? v = some (rv.preempt cfg.requiresKvDelivery) := by
    rw [hq.requests]
    exact get?_set_self
  have hkept : ∀ id, id ≠ v → (id ∈ cfg.runningWithout q.running v ↔ id ∈ q.running) := by
    intro id hne
    rw [hperm.mem_iff, mem_cons, or_iff_right hne]
  refine ⟨⟨?_, ?_, fun id r hr => ?_, fun id hid => ?_, fun id hid r hr => ?_, fun id hid => ?_, fun id hid => ?_,
    fun id r hr hwait => ?_, fun id hid => ?_, hq.streaming.trans hrec.streaming⟩, fun id hid => ?_,
    fun id hid => ?_, hnone⟩
  · rw [requeued_none hnone]
    exact (hplaced.preempt hrv hperm).equiv hq
  · rw [hq.requests]
    exact (keys_set_of_mem (mem_keys_of_get? hrv)).trans hrec.keys
  · unfold Served
    rw [hp.preempted]
    by_cases hne : id = v
    · subst hne
      cases hvictim.symm.trans hr
      obtain ⟨r₀, hr₀, hserved⟩ := hrec.served id rv hrv
      unfold Served at hserved
      rw [if_neg fun hin => hrec.preempted id hin hmem] at hserved
      refine ⟨r₀, hr₀, ?_⟩
      rw [if_pos (mem_append_right _ (mem_singleton.2 rfl))]
      exact ⟨rv, hserved, hstatus, rfl⟩
    · rw [hrequests id hne] at hr
      obtain ⟨r₀, hr₀, hserved⟩ := hrec.served id r hr
      unfold Served at hserved
      refine ⟨r₀, hr₀, ?_⟩
      simpa [hne] using hserved
  · obtain ⟨hne, hid⟩ := (hkeys id).1 hid
    rw [hrunning, hkept id hne]
    exact hrec.scheduled id hid
  · obtain ⟨hne, hid⟩ := (hkeys id).1 hid
    rw [hrequests id hne] at hr
    have htokens : p'.tokens id = p.tokens id := congrArg (Option.getD · 0) (hp.tokens id hne)
    have hlen : p'.drafts id = p.drafts id := congrArg (fun o => (getD o []).length) (hp.drafts id hne)
    exact (hrec.chunk id hid r hr).congr htokens hlen
  · by_cases hne : id = v
    · subst hne
      exact hp.victim.2
    · rw [hp.drafts id hne]
      exact hrec.drafts id fun hkey => hid ((hkeys id).2 ⟨hne, hkey⟩)
  · rw [hrunning]
    rw [hp.preempted] at hid
    rcases mem_append.1 hid with hid | hid
    · intro hin
      have hne : id ≠ v := fun heq => hnodup.1 (heq ▸ hin)
      exact hrec.preempted id hid ((hkept id hne).1 hin)
    · rw [mem_singleton.1 hid]
      exact hnodup.1
  · by_cases hne : id = v
    · subst hne
      cases hvictim.symm.trans hr
      rfl
    · rw [hrequests id hne] at hr
      exact hrec.idle id r hr hwait
  · rw [hrunning] at hid
    have hne : id ≠ v := fun heq => hnodup.1 (heq ▸ hid)
    exact (hrec.admitted id ((hkept id hne).1 hid)).imp_left fun hkey => (hkeys id).2 ⟨hne, hkey⟩
  · obtain ⟨hne, hid⟩ := (hkeys id).1 hid
    rw [hrunning]
    exact mem_take_runningWithout hlt hne (h.visited id hid)
  · obtain ⟨hne, hid⟩ := (hkeys id).1 hid
    exact (hp.listed id hne).2 (h.listed id hid)

end

/-! ## Scheduling a request -/

/-- The record `p'` has gained a chunk of the request `id`. -/
structure Gained (id : RequestId) (numNewTokens : ℕ) (p p' : Pass n) : Prop where
  preempted : p'.preemptedReqs = p.preemptedReqs
  skippedWaiting : p'.stepSkippedWaiting = p.stepSkippedWaiting
  skippedKvHolding : p'.stepSkippedKvHolding = p.stepSkippedKvHolding
  tokens : p'.numScheduledTokens = p.numScheduledTokens.set id numNewTokens
  drafts : ∀ id', id' ≠ id → p'.scheduledSpecDecodeTokens.get? id' = p.scheduledSpecDecodeTokens.get? id'

theorem PassRecord.gain (h : cfg.PassRecord c q₀ q p) (hp : Gained id k p p')
    (hplaced : Placed c (requeued q' p')) (hkeys : q'.requests.keys = q.requests.keys)
    (hothers : ∀ id', id' ≠ id → q'.requests.get? id' = q.requests.get? id')
    (hr : q.requests.get? id = some r) (hr' : q'.requests.get? id = some r')
    (hkept : ∀ r₀ : Request H, r₀.Kept r → r₀.Kept r') (hpre : id ∉ p.preemptedReqs)
    (hrunning : ∀ id', id' ∈ q'.running ↔ id' = id ∨ id' ∈ q.running) (hstatus : r'.status = .running)
    (hchunk : ChunkOf p' id r') (hstr : q'.streaming = q.streaming) : cfg.PassRecord c q₀ q' p' := by
  have hnew : ∀ id', id' ∈ p'.numScheduledTokens.keys ↔ id' = id ∨ id' ∈ p.numScheduledTokens.keys := by
    intro id'
    rw [hp.tokens, mem_keys_set]
  refine ⟨hplaced, hkeys.trans h.keys, fun id' r₁ hr₁ => ?_, fun id' hid' => ?_, fun id' hid' r₁ hr₁ => ?_,
    fun id' hid' => ?_, fun id' hid' => ?_, fun id' r₁ hr₁ hwait => ?_, fun id' hid' => ?_,
    hstr.trans h.streaming⟩
  · unfold Served
    rw [hp.preempted]
    by_cases hne : id' = id
    · subst hne
      cases hr'.symm.trans hr₁
      obtain ⟨r₀, hr₀, hserved⟩ := h.served id' r hr
      unfold Served at hserved
      rw [if_neg hpre] at hserved
      refine ⟨r₀, hr₀, ?_⟩
      rw [if_neg hpre]
      exact hkept r₀ hserved
    · rw [hothers id' hne] at hr₁
      exact h.served id' r₁ hr₁
  · rw [hrunning]
    exact ((hnew id').1 hid').imp_right (h.scheduled id')
  · by_cases hne : id' = id
    · subst hne
      cases hr'.symm.trans hr₁
      exact hchunk
    · rw [hothers id' hne] at hr₁
      have htokens : p'.tokens id' = p.tokens id' := by
        unfold Pass.tokens
        rw [hp.tokens, get?_set_of_ne hne]
      have hlen : p'.drafts id' = p.drafts id' := congrArg (fun o => (getD o []).length) (hp.drafts id' hne)
      exact (h.chunk id' (((hnew id').1 hid').resolve_left hne) r₁ hr₁).congr htokens hlen
  · have hne : id' ≠ id := fun heq => hid' ((hnew id').2 (.inl heq))
    rw [hp.drafts id' hne]
    exact h.drafts id' fun hkey => hid' ((hnew id').2 (.inr hkey))
  · rw [hp.preempted] at hid'
    rw [hrunning, not_or]
    exact ⟨fun heq => hpre (heq ▸ hid'), h.preempted id' hid'⟩
  · by_cases hne : id' = id
    · subst hne
      cases hr'.symm.trans hr₁
      rw [hstatus] at hwait
      cases hwait
    · rw [hothers id' hne] at hr₁
      exact h.idle id' r₁ hr₁ hwait
  · rcases (hrunning id').1 hid' with heq | hin
    · exact .inl ((hnew id').2 (.inl heq))
    · exact (h.admitted id' hin).imp_left fun hkey => (hnew id').2 (.inr hkey)

theorem chunkOf_recordRunning (plan : EncoderPlan) (newBlocks : Fin n → List KVCacheBlock) (hk : k ≠ 0)
    (hfits : r.ItemsSorted → (k : ℤ) ≤ r.numTokensWithSpec + r.numOutputPlaceholders - r.numComputedTokens)
    (hnone : p.scheduledSpecDecodeTokens.get? id = none) :
    ChunkOf (recordEncoder id plan (cfg.recordRunning id r k newBlocks p)) id { r with specTokenIds := [] } := by
  have htokens : (recordEncoder id plan (cfg.recordRunning id r k newBlocks p)).tokens id = k := by
    unfold Pass.tokens
    rw [numScheduledTokens_recordEncoder]
    exact congrArg (Option.getD · 0) get?_set_self
  have hspec : r.numTokensWithSpec = r.numTokens + r.specTokenIds.length := rfl
  let extra : ℤ := k + r.numComputedTokens - r.numTokens - r.numOutputPlaceholders
  have hdrafts : (recordEncoder id plan (cfg.recordRunning id r k newBlocks p)).drafts id =
      if r.specTokenIds ≠ [] ∧ 0 < extra then min extra.toNat r.specTokenIds.length else 0 := by
    unfold Pass.drafts
    rw [scheduledSpecDecodeTokens_recordEncoder]
    show ((get? (if r.specTokenIds ≠ [] ∧ 0 < extra then
      p.scheduledSpecDecodeTokens.set id (r.specTokenIds.take extra.toNat) else p.scheduledSpecDecodeTokens)
        id).getD []).length = _
    split
    · rw [get?_set_self, getD_some, length_take]
    · rw [hnone]
      rfl
  have hempty : r.specTokenIds = [] → r.specTokenIds.length = 0 := fun h => by rw [h]; rfl
  refine ⟨by rw [htokens]; omega, ?_, ?_⟩
  · rw [htokens, hdrafts]
    show _ → (r.numTokens : ℤ) + r.numOutputPlaceholders + _ ≤ r.numComputedTokens + _
    split
    · omega
    · omega
  intro hsorted
  have hle := hfits hsorted
  rw [htokens, hdrafts]
  show (r.numComputedTokens : ℤ) + _ ≤ r.numTokens + r.numOutputPlaceholders + _
  split_ifs with hnot
  · omega
  rw [not_and_or, not_not] at hnot
  rcases hnot with hnil | hneg
  · have := hempty hnil
    omega
  · omega

theorem RunningRecord.grant (h : cfg.RunningRecord c q₀ q reqIndex p) (plan : EncoderPlan)
    (newBlocks : Fin n → List KVCacheBlock) (hat : q.running[reqIndex]? = some id)
    (hr : q.requests.get? id = some r) (hk : k ≠ 0)
    (hfits : r.ItemsSorted → (k : ℤ) ≤ r.numTokensWithSpec + r.numOutputPlaceholders - r.numComputedTokens) :
    cfg.RunningRecord c q₀ (q.put id { r with specTokenIds := [] }) (reqIndex + 1)
      (recordEncoder id plan (cfg.recordRunning id r k newBlocks p)) := by
  have hrec := h.record
  have hmem : id ∈ q.running := mem_of_getElem? hat
  have hnodup : q.running.Nodup := hrec.placed.seated.nodup_running
  have hstatus : r.status = .running := by
    exact hrec.placed.seated.status_of_running hr hmem
  -- nothing before the current request is the current request
  have hnot : id ∉ p.numScheduledTokens.keys := by
    intro hkey
    obtain ⟨i, hbefore, hi⟩ := exists_of_mem_take (h.visited id hkey)
    have hlt := (List.getElem?_eq_some_iff.1 hi).1
    have hsame := (getElem?_inj hlt hnodup).1 (hi.trans hat.symm)
    omega
  have hgained : Gained id k p (recordEncoder id plan (cfg.recordRunning id r k newBlocks p)) := by
    refine ⟨by simp [recordRunning], by simp [recordRunning], by simp [recordRunning],
      by simp [recordRunning], fun id' hne => ?_⟩
    rw [scheduledSpecDecodeTokens_recordEncoder]
    show get? (if _ then _ else _) id' = _
    split
    · exact get?_set_of_ne hne
    · rfl
  have hnone : (recordEncoder id plan (cfg.recordRunning id r k newBlocks p)).stepSkippedWaiting = [] ∧
      (recordEncoder id plan (cfg.recordRunning id r k newBlocks p)).stepSkippedKvHolding = [] :=
    ⟨hgained.skippedWaiting.trans h.noneAside.1, hgained.skippedKvHolding.trans h.noneAside.2⟩
  refine ⟨?_, fun id' hid' => ?_, fun id' hid' => ?_, hnone⟩
  · refine hrec.gain hgained ?_ (keys_set_of_mem (mem_keys_of_get? hr))
      (fun id' hne => get?_set_of_ne hne) hr get?_set_self (fun r₀ hkept => ?_)
      (fun hin => hrec.preempted id hin hmem) (fun id' => ?_) hstatus
      (chunkOf_recordRunning plan newBlocks hk hfits (hrec.drafts id hnot)) rfl
    · have hplaced := hrec.placed
      rw [requeued_none h.noneAside] at hplaced
      rw [requeued_none hnone]
      exact hplaced.retable (Retabled.of_put hr (.of_status rfl rfl) fun _ hh => .inl hh)
    · obtain ⟨_, _, _, _, heq⟩ := hkept.same
      refine ⟨⟨_, _, _, _, by rw [heq]⟩, fun hpaused => ?_, fun hrun => hkept.running hrun,
        fun hwait => hkept.waiting hwait, fun hs => hkept.streaming hs, fun hfin => hkept.finished hfin⟩
      rw [hkept.paused hpaused, hpaused] at hstatus
      cases hstatus
    · exact (or_iff_right_of_imp fun heq => heq ▸ hmem).symm
  · rw [hgained.tokens, mem_keys_set] at hid'
    rcases hid' with rfl | hid'
    · refine mem_of_getElem? (i := reqIndex) ?_
      rw [getElem?_take_of_lt (Nat.lt_succ_self _)]
      exact hat
    · exact (take_sublist_take_left (Nat.le_succ _)).subset (h.visited id' hid')
  · rw [hgained.tokens, mem_keys_set] at hid'
    rw [scheduledRunningReqs_recordEncoder]
    rcases hid' with rfl | hid'
    · exact mem_append_right _ (mem_singleton.2 rfl)
    · exact mem_append_left _ (h.listed id' hid')

/-! ## Deciding about a waiting request -/

theorem Request.Decided.kept {r₀ : Request H} (hdec : r.Decided r') (hwait : r.status.isWaiting)
    (hkept : r₀.Kept r) : r₀.Kept r' := by
  refine ⟨?_, fun hpaused => ?_, fun hrun => ?_, fun _ => hkept.waiting hwait,
    fun hs => hkept.streaming (hdec.streaming.1 hs), fun hfin => ?_⟩
  · obtain ⟨_, _, _, heq'⟩ := hdec.same
    obtain ⟨_, _, _, _, heq⟩ := hkept.same
    exact ⟨_, _, _, _, by rw [heq', heq]⟩
  · have heq := hkept.paused hpaused
    rw [hdec.paused (heq ▸ hpaused), heq]
  · rw [(hkept.running hrun).1] at hwait
    cases hwait
  · have hnot := hkept.finished hfin
    rw [isFinished_of_waiting hwait] at hnot
    cases hnot

section

variable (h : cfg.PassRecord c q₀ q p)

include h

/-- A waiting request has been decided about and still waits. -/
theorem PassRecord.decide (hpre : p.preemptedReqs = [])
    (hplaced : Placed c (requeued q' p')) (hreq : q'.requests = q.requests.set id r')
    (hrun : q'.running = q.running) (hr : q.requests.get? id = some r) (hwait : r.status.isWaiting)
    (hdec : r.Decided r') (htokens : p'.numScheduledTokens = p.numScheduledTokens)
    (hdrafts : p'.scheduledSpecDecodeTokens = p.scheduledSpecDecodeTokens)
    (hpre' : p'.preemptedReqs = p.preemptedReqs) (hstr : q'.streaming = q.streaming) :
    cfg.PassRecord c q₀ q' p' := by
  have hself : q'.requests.get? id = some r' := by
    rw [hreq]
    exact get?_set_self
  have hothers : ∀ id', id' ≠ id → q'.requests.get? id' = q.requests.get? id' := by
    intro id' hne
    rw [hreq]
    exact get?_set_of_ne hne
  have hstatus' := hdec.waiting hwait
  refine ⟨hplaced, ?_, fun id' r₁ hr₁ => ?_, fun id' hid' => ?_, fun id' hid' r₁ hr₁ => ?_, fun id' hid' => ?_,
    fun id' hid' => ?_, fun id' r₁ hr₁ hw => ?_, fun id' hid' => ?_, hstr.trans h.streaming⟩
  · rw [hreq]
    exact (keys_set_of_mem (mem_keys_of_get? hr)).trans h.keys
  · unfold Served
    rw [hpre', hpre]
    by_cases hne : id' = id
    · subst hne
      cases hself.symm.trans hr₁
      obtain ⟨r₀, hr₀, hserved⟩ := h.served id' r hr
      unfold Served at hserved
      rw [hpre, if_neg not_mem_nil] at hserved
      refine ⟨r₀, hr₀, ?_⟩
      exact Request.Decided.kept hdec hwait hserved
    · rw [hothers id' hne] at hr₁
      obtain ⟨r₀, hr₀, hserved⟩ := h.served id' r₁ hr₁
      unfold Served at hserved
      rw [hpre] at hserved
      exact ⟨r₀, hr₀, hserved⟩
  · rw [hrun]
    rw [htokens] at hid'
    exact h.scheduled id' hid'
  · rw [htokens] at hid'
    have hne : id' ≠ id := by
      rintro rfl
      have hrunning := h.placed.seated.status_of_running hr (h.scheduled id' hid')
      rw [hrunning] at hwait
      cases hwait
    rw [hothers id' hne] at hr₁
    exact (h.chunk id' hid' r₁ hr₁).congr (congrArg (fun d : Dict _ _ => (d.get? id').getD 0) htokens)
      (congrArg (fun d : Dict _ _ => ((d.get? id').getD []).length) hdrafts)
  · rw [htokens] at hid'
    rw [hdrafts]
    exact h.drafts id' hid'
  · rw [hpre', hpre] at hid'
    cases hid'
  · by_cases hne : id' = id
    · subst hne
      cases hself.symm.trans hr₁
      obtain ⟨_, _, _, rfl⟩ := hdec.same
      exact h.idle id' r hr hwait
    · rw [hothers id' hne] at hr₁
      exact h.idle id' r₁ hr₁ hw
  · rw [hrun] at hid'
    rw [htokens]
    exact h.admitted id' hid'

theorem PassRecord.waiting_of_mem (hid : id ∈ q.waiting ++ q.kvHolding)
    (hr : q.requests.get? id = some r) : r.status.isWaiting := by
  have hmem : id ∈ (requeued q p).waiting ++ (requeued q p).kvHolding := by
    rcases mem_append.1 hid with hid | hid
    · exact mem_append_left _ (mem_append_right _ hid)
    · exact mem_append_right _ (mem_append_right _ hid)
  exact h.placed.seated.status_of_waiting hr hmem

theorem PassRecord.keyed (hr : q.requests.get? id = some r) (hdec : r.Decided r') : r'.requestId = id := by
  obtain ⟨_, _, _, rfl⟩ := hdec.same
  exact h.placed.seated.keyed id r hr

theorem PassRecord.stop (hpre : p.preemptedReqs = [])
    (hid : id ∈ q.waiting ++ q.kvHolding) (hr : q.requests.get? id = some r) (hdec : r.Decided r')
    (hholds : r'.holdsKvBlocks → r.holdsKvBlocks) : cfg.PassRecord c q₀ (q.put id r') p := by
  have hwait := h.waiting_of_mem hid hr
  refine h.decide hpre ?_ rfl rfl hr hwait hdec rfl rfl rfl rfl
  exact h.placed.put_waiting hr (h.keyed hr hdec) hwait (hdec.waiting hwait) hholds

end

section Taken

/-! A request taken out of its queue: the queues with it, and without it. -/

variable (hq : Queues.Equiv (q'.enqueue id fromKvHolding) (q.put id r'))
include hq

theorem requeued_enqueue :
    Queues.Equiv ((requeued { q' with requests := q.requests } p).enqueue id fromKvHolding) (requeued q p) := by
  cases fromKvHolding
  · exact ⟨rfl, hq.running, (hq.waiting.append_left _).trans perm_middle, hq.kvHolding.append_left _, hq.streaming⟩
  · exact ⟨rfl, hq.running, hq.waiting.append_left _, (hq.kvHolding.append_left _).trans perm_middle, hq.streaming⟩

theorem mem_of_enqueue : id ∈ q.waiting ++ q.kvHolding :=
  (hq.waiting.append hq.kvHolding).mem_iff.2 mem_enqueue_self

theorem streaming_of_enqueue : q'.streaming = q.streaming := by
  have heq := hq.streaming
  rw [streaming_enqueue] at heq
  exact heq.symm

theorem requests_of_enqueue : q'.requests = q.requests.set id r' := by
  have heq := hq.requests
  rw [requests_enqueue] at heq
  exact heq.symm

theorem running_of_enqueue : q'.running = q.running := by
  have heq := hq.running
  rw [running_enqueue] at heq
  exact heq.symm

end Taken

theorem PassRecord.aside (h : cfg.PassRecord c q₀ q p) (hpre : p.preemptedReqs = [])
    (hr : q.requests.get? id = some r) (hdec : r.Decided r')
    (hq : Queues.Equiv (q'.enqueue id fromKvHolding) (q.put id r')) :
    cfg.PassRecord c q₀ q' (if r'.holdsKvBlocks then
      { p with stepSkippedKvHolding := id :: p.stepSkippedKvHolding }
      else { p with stepSkippedWaiting := id :: p.stepSkippedWaiting }) := by
  have hwait := h.waiting_of_mem (mem_of_enqueue hq) hr
  have hreq := requests_of_enqueue hq
  have hrun := running_of_enqueue hq
  -- put aside, the request is in the virtual queue that it now belongs to
  have haside : requeued q' (if r'.holdsKvBlocks then
      { p with stepSkippedKvHolding := id :: p.stepSkippedKvHolding }
      else { p with stepSkippedWaiting := id :: p.stepSkippedWaiting }) =
      ((requeued { q' with requests := q.requests } p).put id r').enqueue id r'.holdsKvBlocks := by
    unfold requeued put
    rw [← hreq]
    cases r'.holdsKvBlocks <;> rfl
  refine h.decide hpre ?_ hreq hrun hr hwait hdec ?_ ?_ ?_ (streaming_of_enqueue hq)
  · rw [haside]
    exact (h.placed.equiv (requeued_enqueue hq).symm).reenter (h.keyed hr hdec) (hdec.waiting hwait) fun hh => hh
  · split <;> rfl
  · split <;> rfl
  · split <;> rfl

section

variable {deferPrefills : Bool} {threshold : ℕ} {look : Lookup n} {chunk : Chunk}

theorem chunkOf_recordAdmitted (blocks : Fin n → List KVCacheBlock) (hidle : r'.numOutputPlaceholders = 0)
    (hfirst : cfg.FirstChunk deferPrefills threshold p r' look chunk)
    (hpad : chunk.padSpecDecode → chunk.numNewTokens = 1 + cfg.numSpecTokens)
    (hnone : p.scheduledSpecDecodeTokens.get? id = none) :
    ChunkOf (recordEncoder id chunk.encoder (cfg.recordAdmitted id r' look chunk blocks p)) id
      { r' with status := .running, numComputedTokens := look.numComputedTokens } := by
  have htokens : (recordEncoder id chunk.encoder (cfg.recordAdmitted id r' look chunk blocks p)).tokens id =
      chunk.numNewTokens := by
    unfold Pass.tokens
    rw [numScheduledTokens_recordEncoder]
    exact congrArg (Option.getD · 0) get?_set_self
  have hdrafts : (recordEncoder id chunk.encoder (cfg.recordAdmitted id r' look chunk blocks p)).drafts id =
      if chunk.padSpecDecode then cfg.numSpecTokens else 0 := by
    unfold Pass.drafts
    rw [scheduledSpecDecodeTokens_recordEncoder]
    show ((get? (if chunk.padSpecDecode then
      p.scheduledSpecDecodeTokens.set id (replicate cfg.numSpecTokens (-1)) else
        p.scheduledSpecDecodeTokens) id).getD []).length = _
    split
    · rw [get?_set_self, getD_some, length_replicate]
    · rw [hnone]
      rfl
  have hpos := hfirst.nonzero
  have hsize := hfirst.size
  refine ⟨by rw [htokens]; omega, ?_, fun hsorted => ?_⟩
  · rw [htokens, hdrafts]
    show _ → (r'.numTokens : ℤ) + r'.numOutputPlaceholders + _ ≤ look.numComputedTokens + _
    split_ifs with hp
    · rw [if_pos hp] at hsize
      have := hpad hp
      omega
    · omega
  · rw [htokens, hdrafts]
    show (look.numComputedTokens : ℤ) + _ ≤ r'.numTokens + r'.numOutputPlaceholders + _
    split_ifs with hp
    · rw [if_pos hp] at hsize
      have := hpad hp
      omega
    rw [if_neg hp] at hsize
    have := hsize hsorted
    omega

theorem PassRecord.accept
    (h : cfg.PassRecord c q₀ q p) (blocks : Fin n → List KVCacheBlock) (hpre : p.preemptedReqs = [])
    (hr : q.requests.get? id = some r) (hdec : r.Decided r')
    (hq : Queues.Equiv (q'.enqueue id fromKvHolding) (q.put id r'))
    (hstatus : r'.status = .waiting ∨ r'.status = .preempted)
    (hfirst : cfg.FirstChunk deferPrefills threshold p r' look chunk)
    (hpad : chunk.padSpecDecode → chunk.numNewTokens = 1 + cfg.numSpecTokens) :
    cfg.PassRecord c q₀ { q'.put id { r' with
      status := .running, numComputedTokens := look.numComputedTokens } with running := q'.running ++ [id] }
      (recordEncoder id chunk.encoder (cfg.recordAdmitted id r' look chunk blocks p)) := by
  have hwait := h.waiting_of_mem (mem_of_enqueue hq) hr
  have hreq := requests_of_enqueue hq
  have hrun := running_of_enqueue hq
  have hid' := h.keyed hr hdec
  have hidle : r'.numOutputPlaceholders = 0 := by
    obtain ⟨_, _, _, rfl⟩ := hdec.same
    exact h.idle id r hr hwait
  have hnot : id ∉ p.numScheduledTokens.keys := by
    intro hkey
    have hrunning := h.placed.seated.status_of_running hr (h.scheduled id hkey)
    rw [hrunning] at hwait
    cases hwait
  have hgained : Gained id chunk.numNewTokens p
      (recordEncoder id chunk.encoder (cfg.recordAdmitted id r' look chunk blocks p)) := by
    refine ⟨by simp [recordAdmitted], by simp [recordAdmitted], by simp [recordAdmitted],
      by simp [recordAdmitted], fun id' hne => ?_⟩
    rw [scheduledSpecDecodeTokens_recordEncoder]
    show get? (if _ then _ else _) id' = _
    split
    · exact get?_set_of_ne hne
    · rfl
  refine h.gain hgained ?_ ?_ (fun id' hne => ?_) hr get?_set_self (fun r₀ hkept => ?_)
    (by rw [hpre]; exact not_mem_nil) (fun id' => ?_) rfl
    (chunkOf_recordAdmitted blocks hidle hfirst hpad (h.drafts id hnot))
    (show q'.streaming = q.streaming from streaming_of_enqueue hq)
  · have hstart := (h.placed.equiv (requeued_enqueue hq).symm).start (r := { r' with
      status := .running, numComputedTokens := look.numComputedTokens }) hid' rfl
    have heq : requeued { q'.put id { r' with
        status := .running, numComputedTokens := look.numComputedTokens } with running := q'.running ++ [id] }
        (recordEncoder id chunk.encoder (cfg.recordAdmitted id r' look chunk blocks p)) =
        { (requeued { q' with requests := q.requests } p).put id { r' with
            status := .running, numComputedTokens := look.numComputedTokens } with
          running := (requeued { q' with requests := q.requests } p).running ++ [id] } := by
      unfold requeued put
      rw [hgained.skippedWaiting, hgained.skippedKvHolding, hreq, Dict.set_set]
    rw [heq]
    exact hstart
  · show (q'.requests.set id _).keys = _
    rw [hreq, Dict.set_set]
    exact keys_set_of_mem (mem_keys_of_get? hr)
  · show (q'.requests.set id _).get? id' = _
    rw [hreq, Dict.set_set]
    exact get?_set_of_ne hne
  · have hkept' := Request.Decided.kept hdec hwait hkept
    refine ⟨?_, fun hpaused => ?_, fun hrunning => ?_, nofun, nofun, fun hfin => ?_⟩
    · obtain ⟨_, _, _, _, heq⟩ := hkept'.same
      exact ⟨_, _, _, _, by rw [heq]⟩
    · -- a session that waits for input is not admitted
      rw [hkept'.paused hpaused, hpaused] at hstatus
      rcases hstatus with hs | hs <;> cases hs
    · rw [(hkept'.running hrunning).1] at hstatus
      rcases hstatus with hs | hs <;> cases hs
    · have hnot := hkept'.finished hfin
      rw [isFinished_of_waiting (hdec.waiting hwait)] at hnot
      cases hnot
  · rw [hrun, mem_append, mem_singleton]
    exact or_comm

end

/-! ## A whole pass -/

variable (cfg) in
theorem passRecord_invariant (c : Prop) (q₀ : Queues H) :
    cfg.PassInvariant (cfg.RunningRecord c q₀) (cfg.PassRecord c q₀) where
  skip := fun h _ => ⟨h.record, fun id hid =>
    (take_sublist_take_left (Nat.le_succ _)).subset (h.visited id hid), h.listed, h.noneAside⟩
  preempt := fun h hlt hv hrv hstatus hq => h.preempt hlt hv hrv hstatus hq (h.unscheduled hlt hv _)
  grant := fun plan newBlocks h hat hr hk hfits _ => h.grant plan newBlocks hat hr hk hfits
  noneAside := fun h => h.noneAside
  admitNow := fun _ h => ⟨h.record.placed, h.record.keys, h.record.served, h.record.scheduled,
    fun id hid r hr => by
      obtain ⟨hpos, hdrafts, hfits⟩ := h.record.chunk id hid r hr
      exact ⟨hpos, hdrafts, hfits⟩, h.record.drafts, h.record.preempted, h.record.idle, h.record.admitted, h.record.streaming⟩
  keyed := fun {_ _ id r} h hr => h.placed.seated.keyed id r hr
  stop := fun h hpre hid hr hdec hholds => h.stop hpre hid hr hdec hholds
  aside := fun h hpre hr hdec hq => h.aside hpre hr hdec hq
  accept := fun blocks h hpre hr hdec hq hstatus hfirst hpad => by
    obtain ⟨_, _, hfirst⟩ := hfirst
    exact h.accept blocks hpre hr hdec hq hstatus hfirst hpad

theorem passRecord_start (hplaced : Placed c q₀)
    (hidle : ∀ id r, q₀.requests.get? id = some r → r.status.isWaiting → r.numOutputPlaceholders = 0)
    (tokenBudget inputBudget : ℕ) (encoderComputeBudget : ℤ) :
    cfg.RunningRecord c q₀ q₀ 0 ({ tokenBudget := tokenBudget
                                   inputBudget := inputBudget
                                   encoderComputeBudget := encoderComputeBudget } : Pass n) := by
  refine ⟨⟨?_, rfl, fun id r hr => ⟨r, hr, ?_⟩, nofun, nofun, fun _ _ => rfl, nofun, hidle, fun id hid => ?_, rfl⟩,
    nofun, nofun, rfl, rfl⟩
  · exact hplaced
  · exact Request.Kept.refl r
  · exact .inr (hplaced.seated.running id hid)

variable [DecidableEq H]

variable (cfg) in
/-- Every pass leaves such a record and such queues. -/
theorem schedulePass_record (env : ScheduleEnv n) {s : Scheduler H n} (hplaced : Placed c s.queues)
    (hidle : ∀ id r, s.requests.get? id = some r → r.status.isWaiting → r.numOutputPlaceholders = 0) :
    wp (cfg.schedulePass env) (fun p s' => ∃ q, cfg.PassRecord c s.queues q p ∧
      Queues.Equiv (requeued q p) s'.queues) any s :=
  schedulePass_rule env (cfg.passRecord_invariant c s.queues) (passRecord_start hplaced hidle _ _ _)

end Lemmas

end SchedulerConfig

end VllmRwkv
