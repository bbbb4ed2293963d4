import VllmRwkv.Cache.Sufficiency
import VllmRwkv.Cache.Release

/-!
# The first half of `allocate_slots`

What happens before it is known whether the step fits: out-of-window blocks of the request are
given up, and every group counts what it needs.
-/

namespace VllmRwkv

open List Raise BlockPool GroupConfig

variable {H : Type} {n : ℕ}

namespace KVCacheManager

variable {s s' s'' : KVCacheManager H n} {held : KVCacheBlock → ℕ} {r : RequestId} {limit : Fin n → ℕ}

section

variable (limit : Fin n → ℕ) (r : RequestId)

/-- In every group, entries of the row of `r` before `limit` have been given up; nothing else has
changed, besides the count of retired columns. -/
structure Nulled (s s' : KVCacheManager H n) : Prop where
  same : SamePool s.pool s'.pool
  index : SameIndex s.pool s'.pool
  tables : ∀ i, s'.managers i = { s.managers i with
    reqToBlocks := (s'.managers i).reqToBlocks, numRetiredBlocks := (s'.managers i).numRetiredBlocks }
  others : ∀ i, ∀ r' ≠ r, (s'.managers i).reqToBlocks r' = (s.managers i).reqToBlocks r'
  length : ∀ i, ((s'.managers i).reqToBlocks r).length = ((s.managers i).reqToBlocks r).length
  entries : ∀ i, ∀ c : ℕ, ((s'.managers i).reqToBlocks r)[c]? = ((s.managers i).reqToBlocks r)[c]? ∨
    c < limit i ∧ ((s'.managers i).reqToBlocks r)[c]? = some s.pool.nullBlock
  refs : ∀ b, b ≠ s.pool.nullBlock → s'.pool.refCnt b + (∑ i, ((s.managers i).reqToBlocks r).count b : ℕ) =
      s.pool.refCnt b + (∑ i, ((s'.managers i).reqToBlocks r).count b : ℕ)
  nullRef : s'.pool.refCnt s.pool.nullBlock = s.pool.refCnt s.pool.nullBlock

theorem Nulled.refl (s : KVCacheManager H n) : s.Nulled limit r s :=
  ⟨SamePool.refl _, SameIndex.refl _, fun _ => rfl, fun _ _ _ => rfl, fun _ => rfl,
    fun _ _ => .inl rfl, fun _ _ => rfl, rfl⟩

end

theorem Nulled.step {i : Fin n} {g : CacheGroup H} (h : s.Nulled limit r s')
    (hg : GroupConfig.Nulled (limit i) r (s'.group i) g) : s.Nulled limit r (putGroup i g s') := by
  have hnull := h.same.nullBlock
  refine ⟨h.same.trans hg.same, h.index.trans hg.index, fun j => ?_, fun j r' hr' => ?_, fun j => ?_,
    fun j c => ?_, fun b hb => ?_, ?_⟩
  · by_cases hj : j = i
    · subst hj
      rw [putGroup_managers_self, hg.tables, group_mgr, h.tables j]
    · rw [putGroup_managers_ne hj]; exact h.tables j
  · by_cases hj : j = i
    · subst hj
      rw [putGroup_managers_self, hg.others r' hr']; exact h.others j r' hr'
    · rw [putGroup_managers_ne hj]; exact h.others j r' hr'
  · by_cases hj : j = i
    · subst hj
      rw [putGroup_managers_self, hg.length]; exact h.length j
    · rw [putGroup_managers_ne hj]; exact h.length j
  · by_cases hj : j = i
    · subst hj
      rw [putGroup_managers_self]
      rcases hg.entries c with hc | ⟨hc, hnone⟩
      · rw [hc]; exact h.entries j c
      · right
        rw [hnone, group_pool, hnull]
        exact ⟨hc, rfl⟩
    · rw [putGroup_managers_ne hj]; exact h.entries j c
  · have h1 := h.refs b hb
    have h2 := hg.refs b (by rw [group_pool, hnull]; exact hb)
    have hsum : ∀ t : KVCacheManager H n, ∑ j, ((t.managers j).reqToBlocks r).count b =
        ((t.managers i).reqToBlocks r).count b +
          ∑ j ∈ Finset.univ.erase i, ((t.managers j).reqToBlocks r).count b := fun t =>
      (Finset.add_sum_erase Finset.univ _ (Finset.mem_univ i)).symm
    have hrest : ∑ j ∈ Finset.univ.erase i, (((putGroup i g s').managers j).reqToBlocks r).count b =
        ∑ j ∈ Finset.univ.erase i, ((s'.managers j).reqToBlocks r).count b :=
      Finset.sum_congr rfl fun j hj => by rw [putGroup_managers_ne (Finset.ne_of_mem_erase hj)]
    rw [hsum s'] at h1
    rw [hsum (putGroup i g s'), hrest, putGroup_managers_self, putGroup_pool]
    simp only [group_pool, group_mgr] at h2
    omega
  · have h2 := hg.nullRef
    simp only [group_pool, hnull] at h2
    rw [putGroup_pool, h2, h.nullRef]

/-- **Giving up what lies below the window**, in every group. -/
theorem removeSkippedBlocks_nulls {cfg : CacheConfig n} {processed : ℕ} (hs : s.Owned held) :
    wp (cfg.removeSkippedBlocks r processed)
      (fun _ s' => s'.Owned held ∧ s.Nulled (fun i => (cfg.groups i).numSkippedBlocks processed) r s')
      any s := by
  refine wp_forM (fun _ s' => s'.Owned held ∧
    s.Nulled (fun i => (cfg.groups i).numSkippedBlocks processed) r s') ?_ ⟨hs, Nulled.refl _ r s⟩
  intro i rest s1 ⟨hown, hnull⟩
  have hgroup : ∀ o, (s1.group i).Owned o → wp ((cfg.groups i).removeSkippedBlocks r processed)
      (fun _ g' => g'.Owned (fun b => o b + 0) ∧ SamePool s1.pool g'.pool ∧
        GroupConfig.Nulled ((cfg.groups i).numSkippedBlocks processed) r (s1.group i) g')
      any (s1.group i) := by
    intro o ho
    refine wp_imp (GroupConfig.removeSkippedBlocks_nulls ho) ?_
    intro _ g' ⟨hown', hnull'⟩
    exact ⟨hown', hnull'.same, hnull'⟩
  refine wp_imp (wp_onManager hown hgroup) ?_
  intro _ s2 ⟨hown2, _, hput, hnull2⟩
  refine ⟨hown2, ?_⟩
  rw [hput]
  exact hnull.step hnull2

/-! ## Counting -/

section Counting

variable [DecidableEq H] {cfg : CacheConfig n} {args : Fin n → AllocArgs}

/-- All that counting changes: the checkpoints planned for the request. -/
structure OnlyPlanned (cfg : CacheConfig n) (args : Fin n → AllocArgs) (s s' : KVCacheManager H n) : Prop where
  pool : s'.pool = s.pool
  groups : ∀ i, GroupConfig.OnlyPlanned (cfg.groups i) (args i) (s.group i) (s'.group i)

omit [DecidableEq H] in
theorem OnlyPlanned.gate (h : OnlyPlanned cfg args s s') (hcap : ∀ i, (args i).applyAdmissionCap) : s' = s := by
  refine KVCacheManager.ext h.pool (funext fun i => ?_)
  exact congrArg CacheGroup.mgr ((h.groups i).gate (hcap i))

section

variable (cfg : CacheConfig n) (args : Fin n → AllocArgs) (s : KVCacheManager H n)

/-- What the groups count, added up. -/
def sumPredicted : ℤ :=
  ((List.finRange n).map fun i => (cfg.groups i).predicted (args i) (s.group i)).sum

/-- The loop that counts, with the groups of `rest` still to visit. -/
structure Counting (rest : List (Fin n)) (count : ℤ) (s' : KVCacheManager H n) : Prop where
  planned : OnlyPlanned cfg args s s'
  todo : ∀ i ∈ rest, s'.managers i = s.managers i
  count : count + (rest.map fun i => (cfg.groups i).predicted (args i) (s.group i)).sum = sumPredicted cfg args s
  recorded : ∀ i ∉ rest, (cfg.groups i).isMamba → (args i).applyAdmissionCap = false →
    hitsThisStep (args i) (s.group i) = false →
    checkpointBlocks (s'.group i) (args i).requestId = (cfg.groups i).planned (args i) (s.group i)
  nodup : rest.Nodup

end

/-- **One group counts.** -/
theorem Counting.step {i : Fin n} {rest : List (Fin n)} {count : ℤ} (h : Counting cfg args s (i :: rest) count s') :
    wp (onManager i ((cfg.groups i).getNumBlocksToAllocate (args i)))
      (fun k s'' => Counting cfg args s rest (count + k) s'') any s' := by
  have hnd := nodup_cons.1 h.nodup
  have hgroup : s'.group i = s.group i := by
    unfold group
    rw [h.planned.pool, h.todo i mem_cons_self]
  have hcount := h.count
  rw [map_cons, sum_cons] at hcount
  unfold onManager
  rw [wp_zoom, hgroup]
  refine wp_any GroupConfig.getNumBlocksToAllocate_predicts ?_
  intro k g' ⟨hk, hplan, hrec⟩
  have hpool : g'.pool = s.pool := hplan.pool
  have hself : (putGroup i g' s').group i = g' := putGroup_group
  have hother : ∀ j ≠ i, (putGroup i g' s').group j = s'.group j := by
    intro j hj
    unfold group
    rw [putGroup_managers_ne hj, putGroup_pool, hpool, h.planned.pool]
  refine ⟨⟨hpool, fun j => ?_⟩, fun j hj => ?_, by rw [hk]; omega, fun j hj => ?_, hnd.2⟩
  · by_cases hji : j = i
    · subst hji; rw [hself]; exact hplan
    · rw [hother j hji]; exact h.planned.groups j
  · have hji : j ≠ i := fun heq => hnd.1 (heq ▸ hj)
    rw [putGroup_managers_ne hji]
    exact h.todo j (mem_cons_of_mem _ hj)
  by_cases hji : j = i
  · subst hji; rw [hself]; exact hrec
  · rw [hother j hji]
    exact h.recorded j fun hmem => (mem_cons.1 hmem).elim hji hj

/-- **All groups count.** -/
theorem getNumBlocksToAllocate_counts :
    wp (cfg.getNumBlocksToAllocate args) (fun k s' => Counting cfg args s [] k s') any s := by
  refine wp_foldlM (fun rest k s' => Counting cfg args s rest k s') ?_ ?_
  · intro i rest k s1 h
    rw [wp_bind]
    exact h.step
  · refine ⟨⟨rfl, fun i => OnlyPlanned.refl _ _ _⟩, fun _ _ => rfl, Int.zero_add _,
      fun i hi => absurd (mem_finRange i) hi, nodup_finRange n⟩

end Counting

end KVCacheManager

namespace CacheConfig

open KVCacheManager

variable {cfg : CacheConfig n} {request : Request H} {a : SlotArgs n} {s s' : KVCacheManager H n}
  {held : KVCacheBlock → ℕ}

section

variable (cfg request a)

/-- What an `allocate_slots` call may have changed when it is found not to fit: blocks of the
request wholly below the window of its processed tokens have been given up, and align-mode groups
may have recorded the checkpoint planned for the chunk. -/
structure Estimated (s s' : KVCacheManager H n) : Prop where
  same : SamePool s.pool s'.pool
  index : SameIndex s.pool s'.pool
  tables : ∀ i, s'.managers i = { s.managers i with
    reqToBlocks := (s'.managers i).reqToBlocks, numRetiredBlocks := (s'.managers i).numRetiredBlocks,
    checkpoints := (s'.managers i).checkpoints }
  others : ∀ i, ∀ r ≠ request.requestId, (s'.managers i).reqToBlocks r = (s.managers i).reqToBlocks r ∧
    (s'.managers i).checkpoints r = (s.managers i).checkpoints r
  length : ∀ i, ((s'.managers i).reqToBlocks request.requestId).length =
    ((s.managers i).reqToBlocks request.requestId).length
  entries : ∀ i, ∀ c : ℕ, ((s'.managers i).reqToBlocks request.requestId)[c]? =
      ((s.managers i).reqToBlocks request.requestId)[c]? ∨
    c < (cfg.groups i).numSkippedBlocks (a.processedComputedTokens cfg request) ∧
      ((s'.managers i).reqToBlocks request.requestId)[c]? = some s.pool.nullBlock
  refs : ∀ b, b ≠ s.pool.nullBlock →
    s'.pool.refCnt b + (∑ i, ((s.managers i).reqToBlocks request.requestId).count b : ℕ) =
      s.pool.refCnt b + (∑ i, ((s'.managers i).reqToBlocks request.requestId).count b : ℕ)
  nullRef : s'.pool.refCnt s.pool.nullBlock = s.pool.refCnt s.pool.nullBlock
  base : ∀ i, (cfg.groups i).isMamba = false → (s'.managers i).checkpoints = (s.managers i).checkpoints
  record : ∀ i spec numCkpt align, (cfg.groups i).spec = .mamba spec numCkpt align →
    (s'.managers i).checkpoints request.requestId = (s.managers i).checkpoints request.requestId ∨
    (s'.managers i).checkpoints request.requestId =
      (cfg.groups i).checkpointRecord spec numCkpt align (a.thisStep cfg request i) (s'.group i)

theorem Estimated.refl (s : KVCacheManager H n) : cfg.Estimated request a s s :=
  ⟨SamePool.refl _, SameIndex.refl _, fun _ => rfl, fun _ _ _ => ⟨rfl, rfl⟩, fun _ => rfl,
    fun _ _ => .inl rfl, fun _ _ => rfl, rfl, fun _ _ => rfl, fun _ _ _ _ _ => .inl rfl⟩

end

variable [DecidableEq H]

omit [DecidableEq H] in
theorem estimated_of_planned {mid : KVCacheManager H n}
    (h : s.Nulled (fun i => (cfg.groups i).numSkippedBlocks (a.processedComputedTokens cfg request))
      request.requestId mid)
    (h' : OnlyPlanned cfg (fun i => a.thisStep cfg request i) mid s') : cfg.Estimated request a s s' := by
  have htab : ∀ i, s'.managers i = { mid.managers i with checkpoints := (s'.managers i).checkpoints } :=
    fun i => (h'.groups i).tables
  have hrows : ∀ i, (s'.managers i).reqToBlocks = (mid.managers i).reqToBlocks := fun i => by rw [htab i]
  have hckpt : ∀ i, (mid.managers i).checkpoints = (s.managers i).checkpoints := fun i => by rw [h.tables i]
  refine ⟨?_, ?_, fun i => ?_, fun i r hr => ⟨?_, ?_⟩, fun i => ?_, fun i c => ?_, fun b hb => ?_, ?_,
    fun i hbase => ?_, fun i spec numCkpt align hspec => ?_⟩
  · rw [h'.pool]; exact h.same
  · rw [h'.pool]; exact h.index
  · rw [htab i, h.tables i]
  · rw [hrows i]; exact h.others i r hr
  · rw [← hckpt i]; exact (h'.groups i).others r hr
  · rw [hrows i]; exact h.length i
  · rw [hrows i]; exact h.entries i c
  · simp only [hrows, h'.pool]
    exact h.refs b hb
  · rw [h'.pool]; exact h.nullRef
  · have := congrArg CacheGroup.mgr ((h'.groups i).base hbase)
    simp only [group_mgr] at this
    rw [this, hckpt i]
  · rw [(h'.groups i).checkpointRecord, ← hckpt i]
    exact (h'.groups i).record spec numCkpt align hspec

/-- **The first half of `allocate_slots`.** -/
theorem predictSlots_estimates (hs : s.Owned held) : wp (cfg.predictSlots request a)
      (fun k s' => s'.Owned held ∧ cfg.Estimated request a s s' ∧ k = cfg.predictedBlocks request a s' ∧
        cfg.Recorded request a s') any s := by
  unfold predictSlots
  rw [wp_bind]
  have hremove : wp (cfg.removeSkippedBlocks request.requestId (a.processedComputedTokens cfg request))
      _ _ s := removeSkippedBlocks_nulls hs
  refine wp_imp hremove ?_
  intro _ mid ⟨hown, hnull⟩
  refine wp_imp getNumBlocksToAllocate_counts ?_
  intro k s1 h
  have hcount := h.count
  rw [map_nil, sum_nil, Int.add_zero] at hcount
  refine ⟨?_, estimated_of_planned hnull h.planned, ?_, fun i hmamba hstep => ?_⟩
  · exact hown.of_tables h.planned.pool (fun i => congrArg (·.reqToBlocks) (h.planned.groups i).tables)
      fun i => congrArg (·.pendingCowCopies) (h.planned.groups i).tables
  · rw [hcount]
    unfold sumPredicted predictedBlocks
    congr 1
    exact map_congr_left fun i _ => ((h.planned.groups i).predicted _).symm
  · rw [(h.planned.groups i).hitsThisStep] at hstep
    rw [(h.planned.groups i).planned]
    exact h.recorded i not_mem_nil hmamba rfl hstep

/-- **The admission gate** changes nothing. -/
theorem fullSequenceFits_same : wp (cfg.fullSequenceFits request a) (fun _ s' => s' = s) any s := by
  unfold fullSequenceFits
  split
  · rw [wp_bind]
    refine wp_imp getNumBlocksToAllocate_counts ?_
    intro k s1 h
    exact h.planned.gate fun _ => rfl
  · exact rfl

variable {Q : Option (Fin n → List KVCacheBlock) → KVCacheManager H n → Prop}

/-- **The rule for `allocate_slots`**, with `E` a description of the state in which the blocks of the
step have been counted. -/
theorem wp_allocateSlots_of {E : KVCacheManager H n → Prop} (hgate : Q none s)
    (hpredict : wp (cfg.predictSlots request a) (fun _ s1 => E s1) any s)
    (hrefused : ∀ s1, E s1 → Q none s1) (htaken : ∀ s1, E s1 → wp (cfg.takeSlots request a) (fun newBlocks => wp
        (runIf (a.delayCacheBlocks = false) (cfg.coordinatorCacheBlocks request
          (min (a.totalComputedTokens cfg request + a.numNewTokens) request.numTokens)))
        (fun _ => Q (some newBlocks)) any) any s1) :
    wp (cfg.allocateSlots request a) Q any s := by
  unfold allocateSlots
  refine wp_check_bind fun _ => ?_
  rw [wp_bind]
  refine wp_imp fullSequenceFits_same ?_
  intro fits s0 hsame
  subst hsame
  cases fits with
  | false => exact hgate
  | true =>
    simp only [if_true]
    rw [wp_bind]
    refine wp_imp hpredict ?_
    intro k s1 hE
    rw [wp_get_bind]
    split
    · exact hrefused s1 hE
    rw [wp_bind]
    refine wp_imp (htaken s1 hE) ?_
    intro newBlocks s2 h
    rw [wp_bind]
    exact h

/-- It is refused in a state that was only estimated, or goes on to take blocks from such a state. -/
theorem wp_allocateSlots (hs : s.Owned held) (hrefused : ∀ s1, s1.Owned held → cfg.Estimated request a s s1 → Q none s1)
    (htaken : ∀ s1, s1.Owned held → cfg.Estimated request a s s1 → wp (cfg.takeSlots request a) (fun newBlocks => wp
        (runIf (a.delayCacheBlocks = false) (cfg.coordinatorCacheBlocks request
          (min (a.totalComputedTokens cfg request + a.numNewTokens) request.numTokens)))
        (fun _ => Q (some newBlocks)) any) any s1) :
    wp (cfg.allocateSlots request a) Q any s := by
  refine wp_allocateSlots_of (E := fun s1 => s1.Owned held ∧ cfg.Estimated request a s s1)
    (hrefused s hs (Estimated.refl cfg request a s)) ?_ (fun s1 h => hrefused s1 h.1 h.2)
    (fun s1 h => htaken s1 h.1 h.2)
  refine wp_imp (predictSlots_estimates hs) ?_
  intro k s1 ⟨hown, hest, _, _⟩
  exact ⟨hown, hest⟩

end CacheConfig

end VllmRwkv
