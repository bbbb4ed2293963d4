import VllmRwkv.Sched.OutputEffects

/-!
# What the calls of the scheduler do to the requests and the queues

One lemma for each call, put together from those about its steps.
-/

namespace VllmRwkv

open List Dict Request Raise

variable {H : Type} {n : ℕ}

namespace Queues

variable {q q' q'' : Queues H} {id : RequestId} {r : Request H}

/-- Only computed tokens have been taken back, from running requests and from requests that load. -/
structure Recomputed (q q' : Queues H) : Prop where
  keys : q'.requests.keys = q.requests.keys
  request : ∀ id r, q.requests.get? id = some r → ∃ numComputedTokens,
    q'.requests.get? id = some { r with numComputedTokens := numComputedTokens } ∧
    (numComputedTokens = r.numComputedTokens ∨ id ∈ q.running ∨ r.status = .waitingForRemoteKvs)
  running : q'.running = q.running
  waiting : q'.waiting = q.waiting
  kvHolding : q'.kvHolding = q.kvHolding
  streaming : q'.streaming = q.streaming

theorem Recomputed.refl (q : Queues H) : q.Recomputed q where
  keys := rfl
  request := fun _ r hr => ⟨r.numComputedTokens, hr, Or.inl rfl⟩
  running := rfl
  waiting := rfl
  kvHolding := rfl
  streaming := rfl

theorem Recomputed.trans (h : q.Recomputed q') (h' : q'.Recomputed q'') : q.Recomputed q'' where
  keys := h'.keys.trans h.keys
  request := fun id r hr => by
    obtain ⟨k, hk, hwhy⟩ := h.request id r hr
    obtain ⟨k', hk', hwhy'⟩ := h'.request id _ hk
    refine ⟨k', hk', ?_⟩
    rcases hwhy' with rfl | hrun | hload
    · exact hwhy
    · exact Or.inr (Or.inl (h.running ▸ hrun))
    · exact Or.inr (Or.inr hload)
  running := h'.running.trans h.running
  waiting := h'.waiting.trans h.waiting
  kvHolding := h'.kvHolding.trans h.kvHolding
  streaming := h'.streaming.trans h.streaming

theorem Recomputed.put (hr : q.requests.get? id = some r) (k : ℕ)
    (hwhy : id ∈ q.running ∨ r.status = .waitingForRemoteKvs) :
    q.Recomputed (q.put id { r with numComputedTokens := k }) where
  keys := keys_set_of_mem (mem_keys_of_get? hr)
  request := fun id' r' hr' => by
    by_cases hid : id' = id
    · subst hid
      obtain rfl : r = r' := Option.some.inj (hr.symm.trans hr')
      exact ⟨k, get?_set_self, Or.inr hwhy⟩
    · exact ⟨r'.numComputedTokens, (get?_set_of_ne hid).trans hr', Or.inl rfl⟩
  running := rfl
  waiting := rfl
  kvHolding := rfl
  streaming := rfl

/-- The requests `rs` have finished: they have left the queues, and perhaps the table. -/
structure Finished (q : Queues H) (rs : List (Request H)) (status : RequestStatus) (q' : Queues H) : Prop where
  others : ∀ id, id ∉ rs.map Request.requestId → q'.requests.get? id = q.requests.get? id
  these : ∀ r ∈ rs, q'.requests.get? r.requestId = none ∨
    q'.requests.get? r.requestId = some { r with status := status }
  running : q'.running = (SchedulerConfig.queuesWithout q rs).running
  waiting : q'.waiting.Perm (SchedulerConfig.queuesWithout q rs).waiting
  kvHolding : q'.kvHolding.Perm (SchedulerConfig.queuesWithout q rs).kvHolding
  streaming : q'.streaming = (SchedulerConfig.queuesWithout q rs).streaming

/-- Some finished requests have left the table. -/
structure Forgotten (q q' : Queues H) : Prop where
  request : ∀ id, q'.requests.get? id = q.requests.get? id ∨
    (q'.requests.get? id = none ∧ ∃ r, q.requests.get? id = some r ∧ r.isFinished)
  running : q'.running = q.running
  waiting : q'.waiting = q.waiting
  kvHolding : q'.kvHolding = q.kvHolding
  streaming : q'.streaming = q.streaming

theorem Forgotten.refl (q : Queues H) : q.Forgotten q := ⟨fun _ => .inl rfl, rfl, rfl, rfl, rfl⟩

theorem Forgotten.trans (h : q.Forgotten q') (h' : q'.Forgotten q'') : q.Forgotten q'' where
  request := fun id => by
    rcases h'.request id with heq | ⟨hnone, r, hr, hfin⟩
    · rw [heq]
      exact h.request id
    right
    rcases h.request id with heq | ⟨hnone', _⟩
    · exact ⟨hnone, r, heq ▸ hr, hfin⟩
    · cases hnone'.symm.trans hr
  running := h'.running.trans h.running
  waiting := h'.waiting.trans h.waiting
  kvHolding := h'.kvHolding.trans h.kvHolding
  streaming := h'.streaming.trans h.streaming

theorem Forgotten.drop (hr : q.requests.get? id = some r) (hfin : r.isFinished) : q.Forgotten (q.drop id) where
  request := fun id' => by
    by_cases hid : id' = id
    · subst hid
      exact Or.inr ⟨get?_erase_self, r, hr, hfin⟩
    · exact Or.inl (get?_erase_of_ne hid)
  running := rfl
  waiting := rfl
  kvHolding := rfl
  streaming := rfl

theorem put_alter {f g : RequestId → Request H → Request H} {r' : Request H}
    (hr : q.requests.get? id = some r) (hid : g id r = r') (hothers : ∀ id' ≠ id, g id' = f id') :
    (q.alter f).put id r' = q.alter g := by
  have hmem : id ∈ (q.requests.mapVals f).keys := mem_keys_of_get? (d := q.requests) hr
  refine alter_eq_of (keys_set_of_mem hmem) (fun id' => ?_) rfl rfl rfl rfl
  show ((q.requests.mapVals f).set id r').get? id' = _
  rw [get?_set]
  split_ifs with heq
  · rw [heq, hr, Option.map_some, hid]
  · rw [get?_mapVals, hothers id' heq]

end Queues

namespace SchedulerConfig

open Scheduler

variable (cfg : SchedulerConfig H n) {s : Scheduler H n} {id : RequestId} {r : Request H}

/-! ## Issuing a step -/

/-- A scheduled request after the step has been issued. -/
def issuedRequest (s : Scheduler H n) (out : SchedulerOutput n) (id : RequestId) (r : Request H) : Request H :=
  cfg.addPlaceholders s out id (cfg.advance s ((out.numScheduledTokens.get? id).getD 0) r)

theorem updateAfterSchedule_effect (out : SchedulerOutput n) : wp (cfg.updateAfterSchedule out) (fun _ s' =>
      (∀ id ∈ out.numScheduledTokens.keys, ∃ r, s.requests.get? id = some r) ∧
      s'.queues = s.queues.alter fun id r =>
        if id ∈ out.numScheduledTokens.keys then cfg.issuedRequest s out id r else r) any s := by
  unfold updateAfterSchedule
  rw [wp_bind]
  -- the requests visited so far have advanced
  refine wp_mono (R := any) (wp_forM (fun rest t => ∃ done, out.numScheduledTokens.keys = done ++ rest ∧
    t.schedStepSeq = s.schedStepSeq ∧ t.currentStep = s.currentStep ∧
    (∀ id ∈ done, ∃ r, s.requests.get? id = some r) ∧
    t.queues = s.queues.alter fun id r => if id ∈ done then cfg.issuedRequest s out id r else r) ?_ ?_)
    (fun _ t h => ?_) fun _ _ _ => trivial
  · intro id rest t h
    obtain ⟨done, hkeys, hseq, hstep, hfound, ht⟩ := h
    have hnew : id ∉ done := by
      have hnodup := out.numScheduledTokens.nodup
      rw [hkeys, nodup_append] at hnodup
      intro hmem
      exact hnodup.2.2 id hmem id mem_cons_self rfl
    rw [wp_bind, wp_getRequest]
    intro r' hr'
    have hreq : t.requests.get? id = (s.requests.get? id).map fun r =>
        if id ∈ done then cfg.issuedRequest s out id r else r := by
      rw [show t.requests = _ from congrArg Queues.requests ht]
      rfl
    rw [hreq] at hr'
    obtain ⟨r, hr, hr''⟩ := Option.map_eq_some_iff.1 hr'
    rw [if_neg hnew] at hr''
    subst hr''
    rw [wp_get_bind]
    rw [wp_bind, wp_setRequest]
    have hput : (s.queues.alter fun id r => if id ∈ done then cfg.issuedRequest s out id r else r).put id
        (cfg.issuedRequest s out id r) =
        s.queues.alter fun id' r => if id' ∈ done ++ [id] then cfg.issuedRequest s out id' r else r := by
      refine Queues.put_alter hr (if_pos (by simp)) fun id' hne => ?_
      funext r'
      simp [hne]
    have hset : t.queues.put id (cfg.issuedRequest t out id r) =
        s.queues.alter fun id' r => if id' ∈ done ++ [id] then cfg.issuedRequest s out id' r else r := by
      -- issuing a step reads two counters of the scheduler
      have hsame : cfg.issuedRequest t out id r = cfg.issuedRequest s out id r := by
        unfold issuedRequest addPlaceholders advance
        rw [hseq, hstep]
      rw [ht, hsame]
      exact hput
    have hdone : ∀ id' ∈ done ++ [id], ∃ r, s.requests.get? id' = some r := by
      intro id' hid'
      rcases mem_append.1 hid' with hid' | hid'
      · exact hfound id' hid'
      · exact ⟨r, mem_singleton.1 hid' ▸ hr⟩
    have hrest : out.numScheduledTokens.keys = (done ++ [id]) ++ rest := by
      rw [hkeys, append_assoc]
      rfl
    rw [wp_runIf]
    exact ⟨fun _ => ⟨done ++ [id], hrest, hseq, hstep, hdone, hset⟩,
      fun _ => ⟨done ++ [id], hrest, hseq, hstep, hdone, hset⟩⟩
  · refine ⟨[], rfl, rfl, rfl, fun id hid => absurd hid not_mem_nil, ?_⟩
    refine Queues.alter_eq_of rfl (fun id => ?_) rfl rfl rfl rfl
    simp
  · obtain ⟨done, hkeys, _, _, hfound, ht⟩ := h
    rw [append_nil] at hkeys
    rw [wp_modify, hkeys]
    exact ⟨hfound, ht⟩

theorem keeps_freeCowRetainedBlocks {I : Scheduler H n → Prop} (blocks : List KVCacheBlock) (fenceSeq : ℕ)
    (hkv : ∀ s kv, I s → I { s with kv := kv })
    (hfrees : ∀ s frees, I s → I { s with deferredFrees := frees }) :
    Keeps I (cfg.freeCowRetainedBlocks blocks fenceSeq) := by
  refine keeps_bind keeps_get fun s => ?_
  split
  · exact keeps_onKv hkv
  · exact keeps_modify fun s hs => hfrees s _ hs

/-- The end of a pass: the scheduled requests advance. -/
theorem finishPass_effect (p : Pass n) :
    wp (cfg.finishPass p) (fun out s' => ∃ t copies freed, out = cfg.makeOutput s p copies freed ∧
      t.currentStep = s.currentStep ∧ (∀ id ∈ p.numScheduledTokens.keys, ∃ r, s.requests.get? id = some r) ∧
      s'.queues = s.queues.alter fun id r =>
        if id ∈ p.numScheduledTokens.keys then cfg.issuedRequest t out id r else r) any s := by
  let same : Scheduler H n → Prop := fun t => t.queues = s.queues ∧ t.currentStep = s.currentStep
  have hkv {α : Type} (m : KvM H n α) : Keeps same (onKv m) := keeps_onKv fun _ _ h => h
  have next {α β : Type} {m : SchedM H n α} {f : α → SchedM H n β} {Q : β → Scheduler H n → Prop}
      {t : Scheduler H n} (hm : Keeps same m) (ht : same t) (hf : ∀ a t', same t' → wp (f a) Q any t') :
      wp (m >>= f) Q any t := by
    rw [wp_bind]
    exact wp_any (hm t ht) (fun a t' h => hf a t' h)
  unfold finishPass
  rw [wp_get_bind]
  refine wp_check_bind fun _ => ?_
  refine wp_check_bind fun _ => ?_
  refine wp_check_bind fun _ => ?_
  refine next (hkv _) ⟨rfl, rfl⟩ fun _ t1 h1 => next (hkv _) h1 fun result t2 h2 => ?_
  obtain ⟨copies, retained⟩ := result
  refine next (keeps_runIf fun _ => cfg.keeps_freeCowRetainedBlocks _ _ (fun _ _ h => h) fun _ _ h => h) h2
    fun _ t3 h3 => next (hkv _) h3 fun _ t4 h4 => ?_
  refine next (keeps_onEncoder fun _ _ h => h) h4 fun freed t5 h5 => ?_
  refine next (keeps_runIf fun _ => keeps_modify fun _ h => h) h5 fun _ t h => ?_
  rw [wp_bind]
  refine wp_any (cfg.updateAfterSchedule_effect _) (fun _ s' h' => ?_)
  obtain ⟨hqueues, hstep⟩ := h
  obtain ⟨hfound, hs'⟩ := h'
  have hreq : t.requests = s.requests := congrArg Queues.requests hqueues
  rw [wp_pure]
  refine ⟨t, copies, freed, rfl, hstep, ?_, ?_⟩
  · rw [← hreq]
    exact hfound
  · rw [← hqueues]
    exact hs'

/-! ## Failed loads -/

theorem handleFailedRecving_effect (failedReqIds : List RequestId) :
    wp (cfg.handleFailedRecving failedReqIds) (fun _ s' => s.queues.Recomputed s'.queues) any s := by
  unfold handleFailedRecving
  rw [wp_bind]
  refine wp_mono (R := any) (wp_foldlM (fun _ _ (t : Scheduler H n) => s.queues.Recomputed t.queues) ?_
    (Queues.Recomputed.refl _)) (fun _ _ h => h) fun _ _ _ => trivial
  intro id rest affected t h
  rw [wp_get_bind]
  cases hr : t.requests.get? id with
  | none => exact h
  | some r =>
    dsimp only
    split_ifs with hload
    · rw [wp_bind, wp_runIf]
      refine ⟨fun _ => ?_, fun _ => h⟩
      rw [wp_bind, wp_setRequest, wp_modify]
      exact h.trans (Queues.Recomputed.put (q := t.queues) hr 0 (.inr hload))
    · exact h

section

variable (invalidBlockIds : List ℕ) (out : SchedulerOutput n) (evict : Bool)

theorem updateRequestWithInvalidBlocks_effect (scan : InvalidScan) (hid : id ∈ s.running ∨ ∀ r, s.requests.get? id = some r →
      r.status = .waitingForRemoteKvs) : wp (cfg.updateRequestWithInvalidBlocks invalidBlockIds out evict scan id)
      (fun _ s' => s.queues.Recomputed s'.queues) any s := by
  unfold updateRequestWithInvalidBlocks
  rw [wp_bind, wp_getRequest]
  intro r hr
  rw [wp_get_bind]
  dsimp only
  split
  · exact Queues.Recomputed.refl _
  rw [wp_bind, wp_setRequest]
  refine Queues.Recomputed.put hr _ ?_
  rcases hid with hrun | hload
  · exact .inl hrun
  · exact .inr (hload r hr)

theorem sweep_effect (ids : List RequestId) (scan : InvalidScan) (hids : ∀ id ∈ ids, id ∈ s.running ∨
      ∀ r, s.requests.get? id = some r → r.status = .waitingForRemoteKvs) :
    wp (ids.foldlM (cfg.updateRequestWithInvalidBlocks invalidBlockIds out evict) scan)
      (fun _ s' => s.queues.Recomputed s'.queues) any s := by
  refine wp_mono (R := any) (wp_foldlM (fun rest _ t => (∀ id ∈ rest, id ∈ ids) ∧
    s.queues.Recomputed t.queues) ?_ ⟨fun _ h => h, Queues.Recomputed.refl _⟩) (fun _ _ h => h.2)
    fun _ _ _ => trivial
  rintro id rest scan t ⟨hmem, h⟩
  have hin := hids id (hmem id mem_cons_self)
  refine wp_any (cfg.updateRequestWithInvalidBlocks_effect invalidBlockIds out evict scan ?_)
    (fun _ t' h' => ⟨fun id' hid' => hmem id' (mem_cons_of_mem _ hid'), h.trans h'⟩)
  rcases hin with hrun | hload
  · left
    rw [show t.running = s.running from h.running]
    exact hrun
  right
  intro r' hr'
  have hkey : id ∈ s.requests.keys := by
    rw [← show t.requests.keys = s.requests.keys from h.keys]
    exact mem_keys_of_get? hr'
  obtain ⟨r, hr⟩ := exists_of_mem_keys hkey
  obtain ⟨k, hk, _⟩ := h.request id r hr
  cases hk.symm.trans hr'
  exact hload r hr

end

/-! ## Finishing requests -/

/-- Every request is in the table under its id. -/
def Keyed (q : Queues H) : Prop := ∀ id r, q.requests.get? id = some r → r.requestId = id

theorem unfinishedAmong_spec {ids : List RequestId} (hkeyed : Keyed s.queues) (hnodup : ids.Nodup) :
    ((unfinishedAmong s ids).map requestId).Nodup ∧
    ∀ r, r ∈ unfinishedAmong s ids ↔ r.requestId ∈ ids ∧ s.requests.get? r.requestId = some r ∧
      r.isFinished = false := by
  have hmem : ∀ r, r ∈ ids.filterMap s.requests.get? ↔ r.requestId ∈ ids ∧ s.requests.get? r.requestId = some r := by
    intro r
    rw [mem_filterMap]
    constructor
    · rintro ⟨id, hid, hr⟩
      obtain rfl := hkeyed id r hr
      exact ⟨hid, hr⟩
    · rintro ⟨hid, hr⟩
      exact ⟨r.requestId, hid, hr⟩
  have hids : ((ids.filterMap s.requests.get?).map requestId).Nodup := by
    have hsub : ((ids.filterMap s.requests.get?).map requestId).Sublist ids := by
      clear hnodup hmem
      induction ids with
      | nil => exact Sublist.refl _
      | cons id ids ih =>
        cases hr : s.requests.get? id with
        | none =>
          rw [filterMap_cons_none hr]
          exact ih.cons id
        | some r =>
          rw [filterMap_cons_some hr, map_cons, hkeyed id r hr]
          exact ih.cons_cons id
    exact hsub.nodup hnodup
  unfold unfinishedAmong
  refine ⟨(filter_sublist.map _).nodup hids, fun r => ?_⟩
  rw [mem_filter, hmem r, decide_eq_true_eq, and_assoc]

theorem finishRequests_effect (delayFree : DelayFree) (requestIds : Option (List RequestId))
    (finishedStatus : RequestStatus) (hkeyed : Keyed s.queues) :
    wp (cfg.finishRequests delayFree requestIds finishedStatus) (fun _ s' =>
      finishedStatus.isFinished ∧
      s.queues.Finished (unfinishedAmong s (requestedIds s requestIds)) finishedStatus s'.queues) any s := by
  refine wp_check_bind fun hstatus => ?_
  rw [wp_get_bind]
  have hnodup : (requestedIds s requestIds).Nodup := by
    cases requestIds with
    | none => exact s.requests.nodup
    | some ids => exact nodup_dedup ids
  obtain ⟨hdistinct, hmem⟩ := unfinishedAmong_spec hkeyed hnodup
  generalize unfinishedAmong s (requestedIds s requestIds) = rs at hdistinct hmem ⊢
  rw [wp_bind, wp_modify]
  have hout := cfg.removeFromQueues_effect (s := s) rs
  -- the requests visited so far have finished, and only the table changes
  refine wp_mono (R := any) (wp_forM (fun rest t => ∃ done, rs = done ++ rest ∧
    (∀ id, id ∉ done.map requestId → t.requests.get? id = s.requests.get? id) ∧
    (∀ r ∈ done, t.requests.get? r.requestId = none ∨
      t.requests.get? r.requestId = some { r with status := finishedStatus }) ∧
    Queues.Equiv { queuesWithout s.queues rs with requests := t.requests } t.queues) ?_ ?_)
    (fun _ t h => ?_) fun _ _ _ => trivial
  · intro r rest t h
    obtain ⟨done, hrs, hothers, hthese, hequiv⟩ := h
    have hnew : r.requestId ∉ done.map requestId := by
      rw [hrs, map_append, nodup_append] at hdistinct
      intro hin
      exact hdistinct.2.2 _ hin _ mem_cons_self rfl
    have hr : s.requests.get? r.requestId = some r := ((hmem r).1 (hrs ▸ by simp)).2.1
    refine wp_any (cfg.finishRequest_effect delayFree finishedStatus) (fun _ t' h' => ?_)
    obtain ⟨r', hr', ht'⟩ := h'
    rw [hothers _ hnew, hr] at hr'
    cases hr'
    have hget : (∀ id, id ≠ r.requestId → t'.requests.get? id = t.requests.get? id) ∧
        (t'.requests.get? r.requestId = none ∨
          t'.requests.get? r.requestId = some { r with status := finishedStatus }) ∧
        Queues.Equiv { t.queues with requests := t'.requests } t'.queues := by
      rcases ht' with ht' | ht'
      · have hreq : t'.requests = t.requests.set r.requestId _ := congrArg Queues.requests ht'
        rw [ht']
        refine ⟨fun id hne => ?_, .inr ?_, ?_⟩
        · rw [hreq, get?_set_of_ne hne]
        · rw [hreq, get?_set_self]
        · rw [hreq]
          exact Queues.Equiv.refl _
      have hreq : t'.requests = (t.requests.set r.requestId _).erase r.requestId := congrArg Queues.requests ht'
      rw [ht']
      refine ⟨fun id hne => ?_, .inl ?_, ?_⟩
      · rw [hreq, get?_erase_of_ne hne, get?_set_of_ne hne]
      · rw [hreq, get?_erase_self]
      · rw [hreq]
        exact Queues.Equiv.refl _
    obtain ⟨hkeep, hgone, hlists⟩ := hget
    refine ⟨done ++ [r], by rw [hrs, append_assoc]; rfl, fun id hid => ?_, fun r' hr' => ?_, ?_⟩
    · rw [map_append, mem_append, not_or] at hid
      have hne : id ≠ r.requestId := fun heq => hid.2 (heq ▸ by simp)
      rw [hkeep id hne, hothers id hid.1]
    · rcases mem_append.1 hr' with hr' | hr'
      · have hne : r'.requestId ≠ r.requestId := fun heq =>
          hnew (heq ▸ mem_map_of_mem hr')
        rw [hkeep _ hne]
        exact hthese r' hr'
      · obtain rfl := mem_singleton.1 hr'
        exact hgone
    · exact ⟨rfl, hlists.running.trans hequiv.running, hlists.waiting.trans hequiv.waiting,
        hlists.kvHolding.trans hequiv.kvHolding, hlists.streaming.trans hequiv.streaming⟩
  · refine ⟨[], rfl, fun id _ => congrArg (get? · id) hout.requests, fun r hr => absurd hr not_mem_nil,
      rfl, hout.running, hout.waiting, hout.kvHolding, hout.streaming⟩
  · obtain ⟨done, hrs, hothers, hthese, hequiv⟩ := h
    rw [append_nil] at hrs
    subst hrs
    exact ⟨hstatus, hothers, hthese, hequiv.running, hequiv.waiting, hequiv.kvHolding, hequiv.streaming⟩

theorem freeBlocks_forgets : wp (cfg.freeBlocks id) (fun _ s' => s.queues.Forgotten s'.queues) any s := by
  refine wp_any cfg.freeBlocks_effect (fun _ s' h => ?_)
  obtain ⟨r, hr, hfin, hs'⟩ := h
  rw [hs']
  exact Queues.Forgotten.drop hr hfin

theorem updateFromKvXferFinished_effect (kvOut : KVConnectorOutput) :
    wp (cfg.updateFromKvXferFinished kvOut) (fun _ s' => s.queues.Forgotten s'.queues) any s := by
  unfold updateFromKvXferFinished
  rw [wp_bind]
  refine wp_mono (R := any) (wp_forM (fun _ (t : Scheduler H n) => s.queues.Forgotten t.queues) ?_
    (Queues.Forgotten.refl _)) (fun _ s1 h1 => ?_) fun _ _ _ => trivial
  · intro id rest t ht
    rw [wp_bind, wp_getRequest]
    intro r hr
    split
    · rw [wp_modify]
      exact ht
    · refine wp_check_bind fun _ => ?_
      exact wp_any cfg.freeBlocks_forgets (fun _ t' ht' => ht.trans ht')
  · refine wp_forM (fun _ (t : Scheduler H n) => s.queues.Forgotten t.queues) ?_ h1
    intro id rest t ht
    exact wp_any cfg.freeBlocks_forgets (fun _ t' ht' => ht.trans ht')

/-! ## Adding requests and chunks -/

/-- What `add_request` does: put a new request into a queue, keep a chunk for later, or give it to a
session that waits for it; the end of such a session finishes it. -/
inductive Added (s : Scheduler H n) (request : Request H) (q' : Queues H) : Prop
  | new (hnone : s.requests.get? request.requestId = none)
      (hq : Queues.Equiv ((s.queues.put request.requestId { request with
        streamingQueue := if request.resumable then some [] else none }).enqueue request.requestId
          request.holdsKvBlocks) q')
  | queued {existing : Request H} {queue : List (Option StreamingUpdate)}
      (hsome : s.requests.get? request.requestId = some existing)
      (hstatus : existing.status ≠ .waitingForStreamingReq) (hqueue : existing.streamingQueue = some queue)
      (hq : q' = s.queues.put request.requestId { existing with
        streamingQueue := some (queue ++ [request.streamingUpdate]) })
  | merged {existing : Request H} {update : StreamingUpdate} (hsome : s.requests.get? request.requestId = some existing)
      (hstatus : existing.status = .waitingForStreamingReq) (hupdate : request.streamingUpdate = some update)
      (hq : q' = { s.queues.put request.requestId (cfg.sessionRequest existing update) with
        streaming := s.numWaitingForStreamingInput - 1 })
  | ended {existing : Request H} (hsome : s.requests.get? request.requestId = some existing)
      (hstatus : existing.status = .waitingForStreamingReq)
      (hq : s.queues.Finished [existing] .finishedAborted q')

theorem addRequest_effect (delayFree : DelayFree) (request : Request H) (hkeyed : Keyed s.queues) :
    wp (cfg.addRequest delayFree request) (fun _ s' => cfg.Added s request s'.queues) any s := by
  unfold addRequest
  rw [wp_get_bind]
  cases hsome : s.requests.get? request.requestId with
  | none =>
    rw [wp_bind, wp_setRequest]
    refine wp_any cfg.enqueueWaitingRequest_effect (fun _ s' h => ?_)
    obtain ⟨r, hr, hequiv⟩ := h
    cases get?_set_self.symm.trans hr
    exact .new hsome hequiv
  | some existing =>
    dsimp only
    split_ifs with hstatus
    · split
      · trivial
      next queue hqueue =>
        rw [wp_setRequest]
        exact .queued hsome hstatus hqueue rfl
    have hstatus := not_not.1 hstatus
    split
    next update hupdate =>
      refine wp_any (cfg.updateRequestAsSession_effect update hsome) (fun _ s' h => ?_)
      rw [if_pos hstatus] at h
      exact .merged hsome hstatus hupdate h
    refine wp_any (cfg.finishRequests_effect delayFree (some [request.requestId]) .finishedAborted
      hkeyed) (fun _ s' h => ?_)
    have hrs : unfinishedAmong s ([request.requestId].dedup) = [existing] := by
      rw [dedup_eq_self.2 (nodup_singleton _)]
      unfold unfinishedAmong
      rw [filterMap_cons_some hsome, filterMap_nil]
      simp [isFinished, hstatus, RequestStatus.isFinished]
    refine .ended hsome hstatus ?_
    rw [← hrs]
    exact h.2

/-! ## Resetting the cache, and drafts -/

/-- The last running request is preempted, its output in flight dropped. -/
inductive PreemptedLast (q : Queues H) : Queues H → Prop
  | step {id : RequestId} {r : Request H} {q' : Queues H} (hlast : q.running.getLast? = some id)
      (hr : q.requests.get? id = some r) (hstatus : r.status = .running)
      (hq : Queues.Equiv (({ q with running := q.running.dropLast }.put id (r.preempt true)).enqueue id
        false) q') : PreemptedLast q q'

theorem preemptAll_effect (fuel : ℕ) :
    wp (cfg.preemptAll fuel) (fun _ s' => Relation.ReflTransGen PreemptedLast s.queues s'.queues) any s := by
  induction fuel generalizing s with
  | zero => exact .refl
  | succ fuel ih =>
    unfold preemptAll
    rw [wp_get_bind]
    cases hlast : s.running.getLast? with
    | none => exact .refl
    | some id =>
      rw [wp_bind, wp_modify, wp_bind]
      refine wp_any (cfg.preemptRequest_effect true) (fun _ s1 h1 => ?_)
      obtain ⟨r, hr, hstatus, hequiv⟩ := h1
      refine wp_any ih (fun _ s2 h2 => ?_)
      exact Relation.ReflTransGen.head (.step hlast hr hstatus hequiv) h2

theorem updateDraftTokenIds_effect (drafts : List (RequestId × List ℤ)) :
    wp (updateDraftTokenIds drafts) (fun _ s' => ∃ specTokenIds : RequestId → Request H → List ℤ,
      s'.queues = s.queues.alter fun id r => { r with specTokenIds := specTokenIds id r }) any s := by
  refine wp_forM (fun _ (t : Scheduler H n) => ∃ specTokenIds : RequestId → Request H → List ℤ,
    t.queues = s.queues.alter fun id r => { r with specTokenIds := specTokenIds id r }) ?_ ?_
  · rintro ⟨id, draft⟩ rest t ⟨spec, ht⟩
    rw [wp_get_bind]
    cases hr : t.requests.get? id with
    | none => exact ⟨spec, ht⟩
    | some r =>
      rw [wp_runIf]
      refine ⟨fun _ => ?_, fun _ => ⟨spec, ht⟩⟩
      rw [wp_setRequest]
      have hreq : t.requests.get? id = (s.requests.get? id).map fun r => { r with specTokenIds := spec id r } := by
        rw [show t.requests = _ from congrArg Queues.requests ht]
        rfl
      rw [hreq] at hr
      obtain ⟨r0, hr0, rfl⟩ := Option.map_eq_some_iff.1 hr
      refine ⟨fun id' r' => if id' = id then (if r0.isPrefillChunk then [] else draft) else spec id' r', ?_⟩
      show t.queues.put id _ = _
      rw [ht]
      refine Queues.put_alter hr0 ?_ fun id' hne => ?_
      · simp
      · funext r'
        simp [hne]
  · refine ⟨fun _ r => r.specTokenIds, Queues.alter_eq_of rfl (fun id => ?_) rfl rfl rfl rfl⟩
    simp

variable [DecidableEq H]

theorem handleInvalidBlocks_effect (invalidBlockIds : List ℕ) (out : SchedulerOutput n) :
    wp (cfg.handleInvalidBlocks invalidBlockIds out) (fun _ s' => s.queues.Recomputed s'.queues) any s := by
  refine wp_check_bind fun _ => ?_
  rw [wp_get_bind]
  rw [wp_bind]
  refine wp_any (cfg.sweep_effect invalidBlockIds out false _ _ fun id hid => ?_) (fun asyncScan s1 h1 => ?_)
  · right
    intro r hr
    have hload := (mem_filter.1 hid).2
    rw [hr] at hload
    simpa using hload
  · rw [wp_bind]
    refine wp_any (cfg.sweep_effect invalidBlockIds out true s.running _ fun id hid => ?_) (fun syncScan s2 h2 => ?_)
    · left
      rw [show s1.running = s.running from h1.running]
      exact hid
    · refine Quiet.wp_bind (Quiet.runIf Quiet.onKv) fun _ s3 hs3 => ?_
      have h3 : s.queues.Recomputed s3.queues := by
        rw [hs3]
        exact h1.trans h2
      split
      · exact h3
      · rw [wp_bind, wp_modify, wp_pure]
        exact h3

theorem failedKvLoads_effect (out : SchedulerOutput n) (mro : ModelRunnerOutput) :
    wp (cfg.failedKvLoads out mro) (fun _ s' => s.queues.Recomputed s'.queues) any s := by
  unfold failedKvLoads
  split
  · exact Queues.Recomputed.refl _
  rw [wp_bind]
  refine wp_any (cfg.handleFailedRecving_effect _) (fun failed s1 h1 => ?_)
  split
  · exact h1
  · rw [wp_bind]
    exact wp_any (cfg.handleInvalidBlocks_effect _ out) (fun _ s2 h2 => h1.trans h2)

/-! ## Processing an output -/

/-- The queues without the requests that an output has stopped. -/
def settle (st : Stopped) (q : Queues H) : Queues H :=
  { q with
    running := q.running.filter (· ∉ st.running)
    waiting := q.waiting.filter (· ∉ st.preempted)
    kvHolding := q.kvHolding.filter (· ∉ st.preempted) }

omit [DecidableEq H] in
theorem removeStopped_effect (st : Stopped) : (settle st s.queues).Equiv (cfg.removeStopped st s).queues := by
  unfold removeStopped
  split_ifs with hnone
  · refine ⟨rfl, rfl, ?_, ?_, rfl⟩
    · show s.waiting.Perm (s.waiting.filter (· ∉ st.preempted))
      rw [hnone]
      simp
    · show s.kvHoldingWaiting.Perm (s.kvHoldingWaiting.filter (· ∉ st.preempted))
      rw [hnone]
      simp
  · exact ⟨rfl, rfl, cfg.policy.removeRequests_perm _ _ _, cfg.policy.removeRequests_perm _ _ _, rfl⟩

/-- What `update_from_output` keeps, in terms of the queues: `J rest` holds between the rounds of its main
loop, when the requests `rest` are still to be visited, and `F` after the loop. -/
structure UpdateInvariant (out : SchedulerOutput n) (mro : ModelRunnerOutput) (s : Scheduler H n)
    (J : List RequestId → Queues H → Stopped → Prop) (F : Queues H → Stopped → Prop) : Prop where
  start : ∀ {q}, s.queues.Recomputed q → J out.numScheduledTokens.keys q {}
  round : ∀ {failed id rest q st q' st'}, J (id :: rest) q st → 0 < (out.numScheduledTokens.get? id).getD 0 →
    cfg.OutputStep out mro failed id q st q' st' → J rest q' st'
  remove : ∀ {q q' st}, J [] q st → (settle st q).Equiv q' → F q' st
  keyed : ∀ {q st}, F q st → Keyed q
  finish : ∀ {q q' st rs}, F q st → (∀ r ∈ rs, q.requests.get? r.requestId = some r ∧ r.isFinished = false) →
    (rs.map Request.requestId).Nodup → q.Finished rs .finishedError q' → F q' st
  forget : ∀ {q q' st}, F q st → q.Forgotten q' → F q' st

theorem updateFromOutput_rule {out : SchedulerOutput n} {mro : ModelRunnerOutput}
    {J : List RequestId → Queues H → Stopped → Prop} {F : Queues H → Stopped → Prop}
    (h : cfg.UpdateInvariant out mro s J F) :
    wp (cfg.updateFromOutput out mro) (fun st s' => F s'.queues st) any s := by
  refine Quiet.wp_bind (Quiet.runIf (Quiet.bind (Quiet.modify fun _ => rfl) fun _ =>
    Quiet.get.bind fun _ => quiet_drainDeferredFrees _)) fun _ s0 hs0 => ?_
  rw [wp_bind]
  refine wp_any (cfg.failedKvLoads_effect out mro) (fun failed s1 h1 => ?_)
  rw [hs0] at h1
  unfold processOutputs
  rw [wp_bind, wp_bind]
  refine wp_mono (R := any) (wp_foldlM (fun rest st (t : Scheduler H n) => J rest t.queues st) ?_
    (h.start h1)) (fun st s2 h2 => ?_) fun _ _ _ => trivial
  · intro id rest st t ht
    exact wp_any (cfg.processOutput_step out mro failed st) (fun st' t' h' => h.round ht h'.1 h'.2)
  · rw [wp_bind, wp_modify, wp_pure, wp_get_bind, wp_bind, wp_modify]
    have hF := h.remove h2 (cfg.removeStopped_effect st)
    generalize cfg.removeStopped st s2 = s3 at hF
    -- the requests that have failed for other reasons
    rw [wp_bind]
    refine wp_mono (Q := fun _ (t : Scheduler H n) => F t.queues st) (R := any) ?_ (fun _ s4 h4 => ?_)
      fun _ _ _ => trivial
    · rw [wp_runIf]
      refine ⟨fun _ => ?_, fun _ => hF⟩
      have hkeyed := h.keyed hF
      refine wp_any (cfg.finishRequests_effect mro.delayFree (some _) .finishedError hkeyed) (fun _ t ht => ?_)
      obtain ⟨hnodup, hmem⟩ := unfinishedAmong_spec hkeyed (nodup_dedup _)
      exact h.finish hF (fun r hr => ((hmem r).1 hr).2) hnodup ht.2
    · split
      · exact h4
      · rw [wp_bind]
        exact wp_any (cfg.updateFromKvXferFinished_effect _) (fun _ t ht => h.forget h4 ht)

end SchedulerConfig

end VllmRwkv
