import VllmRwkv.Cache.Run

/-!
# How many blocks a windowed request holds

A group with a sliding window or with local chunks gives up the blocks that the window has left
behind, so the blocks of a request that are not null stay below a bound, which the spec reports as
`max_admission_blocks_per_request`.

* `Resident`: a row that reaches at most `maxInFlightTokens` past some processed position, and is
  null below the window of that position. Every call keeps it.
* `Resident.held_le_cap`: what such a row holds.
-/

namespace VllmRwkv

open List Function Nat Raise BlockPool CacheGroup GroupConfig KVCacheManager

variable {H : Type} {n : ℕ}

/-- `max_admission_blocks_per_request` of the specs that have one. -/
def KVCacheSpec.maxAdmissionBlocksPerRequest (spec : KVCacheSpec) (blockSize maxInFlightTokens maxModelLen : ℕ) :
    Option ℕ :=
  match spec with
  | .slidingWindow window extra =>
    let numTokens := min (window - 1 + extra + maxInFlightTokens) maxModelLen
    -- the window may start inside a block
    some (cdiv numTokens blockSize + 1)
  | .chunkedLocalAttention chunk =>
    let numTokens := min (chunk + maxInFlightTokens) maxModelLen
    some (cdiv numTokens blockSize)
  | .fullAttention | .mamba .. => none

section

variable (null : KVCacheBlock) (row : List KVCacheBlock)

/-- The blocks of a row that are not null. -/
def numHeld : ℕ := row.countP (· ≠ null)

/-! ## Rows with null blocks in front -/

/-- Null blocks, and then others. -/
def NullsFirst : Prop :=
  ∃ (z : ℕ) (rest : List KVCacheBlock), row = replicate z null ++ rest ∧ null ∉ rest

end

/-- At least `lo` null blocks in front, and at most `hi` entries. -/
structure Windowed (null : KVCacheBlock) (lo hi : ℕ) (row : List KVCacheBlock) : Prop where
  split : ∃ (z : ℕ) (rest : List KVCacheBlock), row = replicate z null ++ rest ∧ null ∉ rest ∧ lo ≤ z
  length : row.length ≤ hi

namespace Windowed

variable {null b : KVCacheBlock} {lo hi lo' hi' : ℕ} {row new : List KVCacheBlock}

theorem nil (null : KVCacheBlock) (hi : ℕ) : Windowed null 0 hi [] :=
  ⟨⟨0, [], rfl, not_mem_nil, le_refl 0⟩, zero_le hi⟩

variable (h : Windowed null lo hi row)

include h

theorem mono (hlo : lo' ≤ lo) (hhi : hi ≤ hi') : Windowed null lo' hi' row := by
  obtain ⟨z, rest, hrow, hrest, hz⟩ := h.split
  exact ⟨⟨z, rest, hrow, hrest, by omega⟩, h.length.trans hhi⟩

theorem numHeld_le : numHeld null row ≤ hi - lo := by
  obtain ⟨z, rest, rfl, hrest, hz⟩ := h.split
  have hlen := h.length
  have hnulls : (replicate z null).countP (· ≠ null) = 0 := by
    rw [countP_eq_zero]
    intro b hb
    rw [eq_of_mem_replicate hb]
    simp
  have hrest' : rest.countP (· ≠ null) ≤ rest.length := countP_le_length
  rw [length_append, length_replicate] at hlen
  unfold numHeld
  rw [countP_append, hnulls]
  omega

theorem append (hnew : null ∉ new) (hlen : row.length + new.length ≤ hi') : Windowed null lo hi' (row ++ new) := by
  obtain ⟨z, rest, rfl, hrest, hz⟩ := h.split
  refine ⟨⟨z, rest ++ new, by rw [append_assoc], ?_, hz⟩, by rwa [length_append]⟩
  rw [mem_append, not_or]
  exact ⟨hrest, hnew⟩

/-- A private copy in place of a block that is not null. -/
theorem set {idx : ℕ} {source : KVCacheBlock} (hidx : row[idx]? = some source)
    (hsource : source ≠ null) (hb : b ≠ null) : Windowed null lo hi (row.set idx b) := by
  obtain ⟨z, rest, rfl, hrest, hz⟩ := h.split
  have hlen := h.length
  have hz' : z ≤ idx := by
    by_contra hlt
    rw [getElem?_append_left (by rw [length_replicate]; omega), getElem?_replicate_of_lt (by omega)] at hidx
    exact hsource (Option.some.inj hidx).symm
  refine ⟨⟨z, rest.set (idx - z) b, ?_, ?_, hz⟩, by rwa [length_set]⟩
  · rw [set_append_right _ _ (by rw [length_replicate]; exact hz'), length_replicate]
  intro hmem
  rcases mem_or_eq_of_mem_set hmem with hmem | heq
  · exact hrest hmem
  · exact hb heq.symm

end Windowed

namespace GroupConfig

/-- The backward loop over a row whose null blocks are in front reaches all of the range. -/
theorem nullBackward_front {null : KVCacheBlock} (z k : ℕ) (rest : List KVCacheBlock)
    (hlen : k ≤ z + rest.length) (hne : ∀ i : ℕ, i < k - z → rest[i]? ≠ some null) :
    (nullBackward null 0 k (replicate z null ++ rest)).2 = replicate (max z k) null ++ rest.drop (k - z) := by
  induction k generalizing rest with
  | zero => simp [nullBackward]
  | succ k ih =>
    unfold nullBackward
    rw [zero_add]
    by_cases hk : k < z
    · have hget : (replicate z null ++ rest)[k]? = some null := by
        rw [getElem?_append_left (by rw [length_replicate]; exact hk), getElem?_replicate_of_lt hk]
      rw [hget, show max z (k + 1) = z by omega, show k + 1 - z = 0 by omega]
      simp
    have hlt : k - z < rest.length := by omega
    have hget : (replicate z null ++ rest)[k]? = some rest[k - z] := by
      rw [getElem?_append_right (by rw [length_replicate]; omega), length_replicate, getElem?_eq_getElem hlt]
    have hblock : rest[k - z] ≠ null := by
      intro heq
      refine hne (k - z) (by omega) ?_
      rw [getElem?_eq_getElem hlt, heq]
    have hset : (replicate z null ++ rest).set k null = replicate z null ++ rest.set (k - z) null := by
      rw [set_append_right _ _ (by rw [length_replicate]; omega), length_replicate]
    have hih := ih (rest.set (k - z) null) (by rw [length_set]; omega) (fun i hi => by
      rw [getElem?_set_ne (by omega)]
      exact hne i (by omega))
    rw [hget]
    simp only [if_neg hblock, hset, hih]
    have hdrop : (rest.set (k - z) null).drop (k - z) = null :: rest.drop (k - z + 1) := by
      rw [drop_eq_getElem_cons (by rw [length_set]; exact hlt), getElem_set_self, drop_set_of_lt (by omega)]
    rw [hdrop, show max z k = k by omega, show max z (k + 1) = k + 1 by omega,
      show k + 1 - z = k - z + 1 by omega, replicate_succ']
    simp

theorem nullBackward_windowed {null : KVCacheBlock} {lo hi k : ℕ} {row : List KVCacheBlock}
    (h : Windowed null lo hi row) (hk : k ≤ row.length) :
    Windowed null (max lo k) hi (nullBackward null 0 k row).2 := by
  have hlen : (nullBackward null 0 k row).2.length = row.length :=
    (nullBackward_takenOut k k row (by omega)).length
  refine ⟨?_, hlen ▸ h.length⟩
  obtain ⟨z, rest, rfl, hrest, hz⟩ := h.split
  rw [length_append, length_replicate] at hk
  refine ⟨max z k, rest.drop (k - z), nullBackward_front z k rest hk fun i _ hi => ?_, fun hmem => ?_, by omega⟩
  · exact hrest (mem_of_getElem? hi)
  · exact hrest (mem_of_mem_drop hmem)

variable {cfg : GroupConfig} {g : CacheGroup H} {r : RequestId} {o : KVCacheBlock → ℕ}
  {lo hi : ℕ}

/-- The row after `remove_skipped_blocks`, outside align mode. -/
theorem removeSkippedBlocks_windowed {processed : ℕ} (hg : Owned o g) (hbase : cfg.isMamba = false)
    (h : Windowed g.pool.nullBlock lo hi (g.mgr.reqToBlocks r)) :
    wp (cfg.removeSkippedBlocks r processed) (fun _ g' => Windowed g.pool.nullBlock
        (max lo (min (cfg.numSkippedBlocks processed) (g.mgr.reqToBlocks r).length)) hi (g'.mgr.reqToBlocks r))
      any g := by
  set skipped := cfg.numSkippedBlocks processed
  have hrange : wp (runIf (0 < cfg.getNumSkippedTokens processed) do
        let blocks := (← get).mgr.reqToBlocks r
        cfg.removeBlocksInRange r 0 (min skipped blocks.length))
      (fun _ g' => Windowed g.pool.nullBlock (max lo (min skipped
        (g.mgr.reqToBlocks r).length)) hi (g'.mgr.reqToBlocks r)) any g := by
    rw [wp_runIf]
    refine ⟨fun _ => ?_, fun hnone => ?_⟩
    · have hrange : ∀ k, cfg.removeBlocksInRange (H := H) r 0 k = baseRemoveBlocksInRange r 0 k := by
        intro k
        unfold removeBlocksInRange
        unfold isMamba at hbase
        split at hbase <;> simp_all
      simp only [wp_bind, wp_get, hrange]
      unfold baseRemoveBlocksInRange
      simp only [wp_bind, wp_get]
      rw [wp_setRow]
      refine wp_mono (freeBlocks_nulled (nullBackward_takenOut skipped _ _ ?_)
        rfl rfl hg) ?_ (fun _ _ h => h.elim)
      · omega
      · intro _ g' hg'
        rw [hg'.2.2]
        dsimp only
        rw [update_self, Nat.sub_zero]
        have hw := nullBackward_windowed h (min_le_right (min skipped
          (g.mgr.reqToBlocks r).length) (g.mgr.reqToBlocks r).length)
        exact hw.mono (by omega) le_rfl
    · have hzero : cfg.numSkippedBlocks processed = 0 := by
        unfold numSkippedBlocks
        rw [Nat.eq_zero_of_not_pos hnone, Nat.zero_div]
      exact h.mono (by omega) le_rfl
  unfold removeSkippedBlocks
  rw [wp_bind]
  refine wp_imp hrange ?_
  intro _ g1 h1
  unfold isMamba at hbase
  split <;> simp_all

theorem addLocalComputedBlocks_windowed {nc : List KVCacheBlock} {loc ext : ℕ} (hnc : NullsFirst g.pool.nullBlock nc) :
    wp (cfg.addLocalComputedBlocks r nc loc ext) (fun _ g' => Windowed g.pool.nullBlock
        (cfg.numSkippedBlocks (loc + ext)) (max (cfg.numSkippedBlocks (loc + ext)) nc.length) (g'.mgr.reqToBlocks r))
      any g := by
  set skipped := cfg.numSkippedBlocks (loc + ext)
  have hrow : Windowed g.pool.nullBlock skipped (max skipped nc.length)
      (replicate skipped g.pool.nullBlock ++ nc.drop skipped) := by
    obtain ⟨z, rest, rfl, hrest⟩ := hnc
    refine ⟨⟨skipped + (z - skipped), rest.drop (skipped - z), ?_, ?_, by omega⟩, ?_⟩
    · rw [drop_append, drop_replicate, length_replicate, replicate_add, append_assoc]
    · exact fun hmem => hrest (mem_of_mem_drop hmem)
    · rw [length_append, length_replicate, length_drop]
      omega
  unfold addLocalComputedBlocks
  simp only [wp_bind, wp_get]
  rw [wp_check]
  refine ⟨fun _ => ?_, fun _ => trivial⟩
  rw [wp_bind]
  refine wp_imp wp_trivial ?_
  intro _ g1 _
  refine wp_check_bind fun _ => ?_
  rw [wp_bind, wp_modifyMgr, wp_runIf]
  refine ⟨fun _ => ?_, fun _ => ?_⟩
  · rw [wp_modifyMgr]
    simpa only [update_self] using hrow
  · simpa only [update_self] using hrow

section Allocation

variable [DecidableEq H]

theorem getNewBlocks_notNull (hg : Owned o g) (k : ℕ) :
    wp (CacheGroup.onPool (getNewBlocks k)) (fun ret g' => g'.mgr = g.mgr ∧ ret.length = k ∧ g.pool.nullBlock ∉ ret)
      any g := by
  refine wp_any (getNewBlocks_owned hg k) ?_
  rintro ret g1 ⟨-, hfresh⟩
  refine ⟨hfresh.mgr, hfresh.length, fun hmem => ?_⟩
  have hnull := (hfresh.mem _ hmem).1
  exact hg.ne_nullBlock hnull rfl

/-- The row after `allocate_external_computed_blocks`. -/
theorem allocateExternalComputedBlocks_windowed {loc ext : ℕ} {record : Bool} (hg : Owned o g)
    (h : Windowed g.pool.nullBlock lo hi (g.mgr.reqToBlocks r)) (hhi : cdiv (loc + ext) cfg.blockSize ≤ hi) :
    wp (cfg.allocateExternalComputedBlocks r loc ext record)
      (fun _ g' => Windowed g.pool.nullBlock lo hi (g'.mgr.reqToBlocks r)) any g := by
  unfold allocateExternalComputedBlocks
  rw [wp_runIf]
  refine ⟨fun _ => ?_, fun _ => h⟩
  simp only [wp_bind, wp_get]
  refine wp_imp (getNewBlocks_notNull hg _) ?_
  rintro ret g1 ⟨-, hlen, hnull⟩
  have hlength := h.length
  have hrow : Windowed g.pool.nullBlock lo hi (g.mgr.reqToBlocks r ++ ret) := h.append hnull (by omega)
  rw [wp_bind, wp_setRow, wp_runIf]
  refine ⟨fun _ => ?_, fun _ => ?_⟩
  · rw [wp_modifyMgr]
    simpa only [update_self] using hrow
  · simpa only [update_self] using hrow

/-- The row after a partial hit has been redirected to a private copy. -/
theorem redirectPartialHit_windowed (hg : Owned o g) (h : Windowed g.pool.nullBlock lo hi (g.mgr.reqToBlocks r)) :
    wp (redirectPartialHit r) (fun _ g' => Windowed g.pool.nullBlock lo hi (g'.mgr.reqToBlocks r)) any g := by
  unfold redirectPartialHit
  simp only [wp_bind, wp_get]
  split
  · exact h
  rename_i idx source hsome
  rw [wp_bind, wp_modifyMgr, wp_bind]
  set g1 : CacheGroup H := { g with mgr := { g.mgr with
    partialHitReqs := update g.mgr.partialHitReqs r none } }
  have hown1 : Owned o g1 := hg.setTables rfl rfl
  refine wp_any (getNewBlocks_owned hown1 1) ?_
  rintro ret g2 ⟨hown2, hfresh⟩
  obtain ⟨cow, rfl⟩ := length_eq_one_iff.1 hfresh.length
  have hcow : cow ≠ g.pool.nullBlock := Ne.symm (hg.ne_nullBlock (hfresh.mem cow mem_cons_self).1)
  have hnull2 := hfresh.same.nullBlock
  have hrow2 : g2.mgr.reqToBlocks = g.mgr.reqToBlocks := by rw [hfresh.mgr]
  unfold applyCow
  simp only [wp_bind, wp_get]
  rw [wp_check]
  refine ⟨fun _ => ?_, fun _ => trivial⟩
  refine wp_check_bind fun hsrc => ?_
  refine wp_check_bind fun hlive => ?_
  have hsource : source ≠ g.pool.nullBlock := by
    rw [← hnull2]
    exact Ne.symm (hown2.ne_nullBlock hlive.1)
  rw [hrow2] at hsrc
  rw [wp_bind, wp_modifyMgr, wp_addRefCnt, wp_bind, wp_modifyMgr, wp_pure]
  simp only [update_self, hrow2]
  exact h.set hsrc hsource hcow

/-- The row after `allocate_new_blocks` of the base class. -/
theorem baseAllocateNewBlocks_windowed {numTokens : ℕ} (hg : Owned o g)
    (h : Windowed g.pool.nullBlock lo hi (g.mgr.reqToBlocks r)) (hhi : cdiv numTokens cfg.blockSize ≤ hi) :
    wp (cfg.baseAllocateNewBlocks r numTokens)
      (fun _ g' => Windowed g.pool.nullBlock lo hi (g'.mgr.reqToBlocks r)) any g := by
  unfold baseAllocateNewBlocks
  rw [wp_bind]
  refine wp_any (wp_and (redirectPartialHit_takes hg) (redirectPartialHit_windowed hg h)) ?_
  rintro cows g1 ⟨⟨⟨hown1, hsame1, -⟩, -⟩, h1⟩
  have hnull1 := hsame1.nullBlock
  rw [← hnull1] at h1 ⊢
  simp only [wp_bind, wp_get]
  split
  · exact h1
  rw [wp_bind]
  refine wp_imp (getNewBlocks_notNull hown1 _) ?_
  rintro ret g2 ⟨-, hlen, hnull⟩
  have hlength := h1.length
  have hrow : Windowed g1.pool.nullBlock lo hi (g1.mgr.reqToBlocks r ++ ret) := h1.append hnull (by omega)
  rw [wp_bind, wp_setRow, wp_bind, wp_runIf]
  refine ⟨fun _ => ?_, fun _ => ?_⟩
  · rw [wp_modifyMgr, wp_pure]
    simpa only [update_self] using hrow
  · rw [wp_pure]
    simpa only [update_self] using hrow

end Allocation

end GroupConfig

/-! ## Rows of one group, through the calls on all groups -/

namespace CacheConfig

variable [DecidableEq H] {cfg : CacheConfig n} {s : KVCacheManager H n} {held : KVCacheBlock → ℕ}
  {request : Request H} {a : SlotArgs n} {i : Fin n} {lo hi : ℕ} {r : RequestId}

omit [DecidableEq H] in
theorem removeSkippedBlocks_windowed {processed : ℕ} (hs : s.Owned held) (hbase : (cfg.groups i).isMamba = false)
    (h : Windowed s.pool.nullBlock lo hi ((s.managers i).reqToBlocks r)) :
    wp (cfg.removeSkippedBlocks r processed) (fun _ s' => Windowed s.pool.nullBlock
        (max lo (min ((cfg.groups i).numSkippedBlocks processed) ((s.managers i).reqToBlocks r).length)) hi
        ((s'.managers i).reqToBlocks r)) any s := by
  set row := (s.managers i).reqToBlocks r with hrow
  refine wp_imp (forManagers_turns (P := fun j m => j = i → m.reqToBlocks r = row)
    (Q := fun j m => j = i → Windowed s.pool.nullBlock
      (max lo (min ((cfg.groups i).numSkippedBlocks processed) row.length)) hi (m.reqToBlocks r))
    hs ?_ ?_) ?_
  · rintro j rfl
    rfl
  · intro j o g hsame hP hg
    by_cases hj : j = i
    · subst hj
      have hrow' := hP rfl
      have hnull := hsame.nullBlock
      rw [← hnull] at h ⊢
      rw [← hrow'] at h ⊢
      refine wp_any (wp_and (removeSkippedBlocks_nulls hg) (GroupConfig.removeSkippedBlocks_windowed hg hbase h)) ?_
      intro _ g' ⟨⟨hown, hnulled⟩, hw⟩
      exact ⟨hown, hnulled.same, fun _ => hw⟩
    · refine wp_any (GroupConfig.removeSkippedBlocks_nulls hg) ?_
      intro _ g' ⟨hown, hnulled⟩
      exact ⟨hown, hnulled.same, fun heq => absurd heq hj⟩
  · intro _ s' h'
    exact h'.done i not_mem_nil rfl

theorem predictSlots_windowed (hs : s.Owned held) (hbase : (cfg.groups i).isMamba = false)
    (h : Windowed s.pool.nullBlock lo hi ((s.managers i).reqToBlocks request.requestId)) :
    wp (cfg.predictSlots request a) (fun _ s' => Windowed s.pool.nullBlock
        (max lo (min ((cfg.groups i).numSkippedBlocks (a.processedComputedTokens cfg request))
          ((s.managers i).reqToBlocks request.requestId).length)) hi
        ((s'.managers i).reqToBlocks request.requestId)) any s := by
  unfold predictSlots
  rw [wp_bind]
  have hremove : wp (cfg.removeSkippedBlocks request.requestId (a.processedComputedTokens cfg request))
      _ _ s := removeSkippedBlocks_windowed hs hbase h
  refine wp_imp hremove ?_
  intro _ mid hmid
  refine wp_imp getNumBlocksToAllocate_counts ?_
  intro k s1 h1
  have hrows : (s1.managers i).reqToBlocks = (mid.managers i).reqToBlocks :=
    congrArg (·.reqToBlocks) (h1.planned.groups i).tables
  rw [hrows]
  exact hmid

theorem allocateNewBlocks_windowed {numTokens mainTokens : ℕ} (hs : s.Owned held)
    (hbase : (cfg.groups i).isMamba = false) (hhi : cdiv numTokens (cfg.groups i).blockSize ≤ hi)
    (h : Windowed s.pool.nullBlock lo hi ((s.managers i).reqToBlocks r)) :
    wp (cfg.allocateNewBlocks r numTokens mainTokens)
      (fun _ s' => Windowed s.pool.nullBlock lo hi ((s'.managers i).reqToBlocks r)) any s := by
  let W : Fin n → ManagerState H → Prop := fun j m =>
    j = i → Windowed s.pool.nullBlock lo hi (m.reqToBlocks r)
  refine wp_imp (wp_foldlM (fun rest _ s' => Turning held s W W rest s') ?_
    (Turning.start hs fun j hj => by subst hj; exact h)) ?_
  · intro j rest _ s1 h1
    rw [wp_bind]
    refine wp_imp (turns_step ?_ h1) (fun _ _ h => h)
    intro o g hsame hP hg
    by_cases hj : j = i
    · subst hj
      have hw := hP rfl
      have hbaseAlloc : wp ((cfg.groups j).allocateNewBlocks r numTokens mainTokens)
          (fun _ g' => Windowed g.pool.nullBlock lo hi (g'.mgr.reqToBlocks r)) any g := by
        rw [allocateNewBlocks_base hbase]
        exact baseAllocateNewBlocks_windowed hg (by rw [hsame.nullBlock]; exact hw) hhi
      refine wp_any (wp_and (allocateNewBlocks_takes hg (zero_le _) (zero_le _)) hbaseAlloc) ?_
      intro _ g' ⟨⟨htook, _⟩, hw'⟩
      rw [hsame.nullBlock] at hw'
      exact ⟨htook.owned, htook.same, fun _ => hw'⟩
    · refine wp_any (allocateNewBlocks_takes hg (zero_le _) (zero_le _)) ?_
      intro _ g' ⟨htook, _⟩
      exact ⟨htook.owned, htook.same, fun heq => absurd heq hj⟩
  · intro _ s' h'
    exact h'.done i not_mem_nil rfl

/-- What a row adopts at the start of its request. -/
structure AdoptsWithin (cfg : CacheConfig n) (request : Request H) (a : SlotArgs n) (i : Fin n)
    (s : KVCacheManager H n) (lo hi : ℕ) : Prop where
  untouched : ∀ j, Untouched (cfg.groups j) (s.managers j) request.requestId
  hits : ∀ j, ∀ b ∈ a.newComputedBlocks j, b ∈ poolBlocks s.pool.numGpuBlocks
  nullsFirst : NullsFirst s.pool.nullBlock (a.newComputedBlocks i)
  skipped : lo ≤ (cfg.groups i).numSkippedBlocks (a.numLocalComputedTokens request + a.numExternalComputedTokens)
  reach : cdiv (a.numLocalComputedTokens request + a.numExternalComputedTokens) (cfg.groups i).blockSize ≤ hi
  length : (a.newComputedBlocks i).length ≤ hi

theorem allocateNewComputedBlocks_windowed (hs : s.Owned held) (h : cfg.AdoptsWithin request a i s lo hi) :
    wp (cfg.allocateNewComputedBlocks request.requestId a.newComputedBlocks
        (a.numLocalComputedTokens request) a.numExternalComputedTokens a.skipZeroingGroupIds)
      (fun _ s' => s'.Owned held ∧ SamePool s.pool s'.pool ∧
        Windowed s.pool.nullBlock lo hi ((s'.managers i).reqToBlocks request.requestId)) any s := by
  let W : Fin n → ManagerState H → Prop := fun j m =>
    j = i → Windowed s.pool.nullBlock lo hi (m.reqToBlocks request.requestId)
  unfold allocateNewComputedBlocks
  rw [wp_get_bind, if_neg]
  · rw [wp_bind]
    refine wp_imp (forManagers_turns (P := fun j m => m.reqToBlocks request.requestId = []) (Q := W) hs
      (fun j => (h.untouched j).row) ?_) ?_
    · intro j o g hsame hrow hg
      have hin : ∀ b ∈ a.newComputedBlocks j, b ∈ poolBlocks g.pool.numGpuBlocks := by
        rw [hsame.numGpuBlocks]; exact h.hits j
      by_cases hj : j = i
      · subst hj
        have hnulls : NullsFirst g.pool.nullBlock (a.newComputedBlocks j) := by
          rw [hsame.nullBlock]; exact h.nullsFirst
        refine wp_any (wp_and (addLocalComputedBlocks_takes hg hin hrow) (addLocalComputedBlocks_windowed hnulls)) ?_
        intro _ g' ⟨⟨htook, _⟩, hw⟩
        refine ⟨htook.owned, htook.same, fun _ => ?_⟩
        rw [hsame.nullBlock] at hw
        have hskip := numSkippedBlocks_le_cdiv (cfg.groups j)
          (a.numLocalComputedTokens request + a.numExternalComputedTokens)
        have hhi := h.reach
        have hlength := h.length
        exact hw.mono h.skipped (by omega)
      · refine wp_any (addLocalComputedBlocks_takes hg hin hrow) ?_
        intro _ g' ⟨htook, _⟩
        exact ⟨htook.owned, htook.same, fun heq => absurd heq hj⟩
    · intro _ s1 h1
      have hdone := fun j => h1.done j not_mem_nil
      rw [wp_runIf]
      refine ⟨fun hext => ?_, fun _ => ⟨h1.owned, h1.same, hdone i rfl⟩⟩
      refine wp_imp (forManagers_turns (P := W) (Q := W) h1.owned hdone ?_) ?_
      · intro j o g hsame hP hg
        have hnull := (h1.same.trans hsame).nullBlock
        by_cases hj : j = i
        · subst hj
          have hw := hP rfl
          rw [← hnull] at hw
          refine wp_any (wp_and (allocateExternalComputedBlocks_takes hg hext)
            (allocateExternalComputedBlocks_windowed hg hw h.reach)) ?_
          intro _ g' ⟨⟨htook, _⟩, hw'⟩
          rw [hnull] at hw'
          exact ⟨htook.owned, htook.same, fun _ => hw'⟩
        · refine wp_any (allocateExternalComputedBlocks_takes hg hext) ?_
          intro _ g' ⟨htook, _⟩
          exact ⟨htook.owned, htook.same, fun heq => absurd heq hj⟩
      · intro _ s2 h2
        exact ⟨h2.owned, h1.same.trans h2.same, h2.done i not_mem_nil rfl⟩
  · rintro ⟨j, hj⟩
    rw [(h.untouched j).numCachedBlock] at hj
    exact absurd hj (by simp)

theorem takeSlots_windowed (hs : s.Owned held) (hbase : (cfg.groups i).isMamba = false)
    (hneed : cdiv (a.numTokensNeedSlot cfg request) (cfg.groups i).blockSize ≤ hi)
    (hadopts : a.Adopts → cfg.AdoptsWithin request a i s lo hi)
    (hrow : ¬ a.Adopts → Windowed s.pool.nullBlock lo hi ((s.managers i).reqToBlocks request.requestId)) :
    wp (cfg.takeSlots request a)
      (fun _ s' => Windowed s.pool.nullBlock lo hi ((s'.managers i).reqToBlocks request.requestId))
      any s := by
  unfold takeSlots
  rw [wp_bind, wp_runIf]
  refine ⟨fun hadopt => ?_, fun hadopt => allocateNewBlocks_windowed hs hbase hneed (hrow hadopt)⟩
  refine wp_imp (allocateNewComputedBlocks_windowed hs (hadopts hadopt)) ?_
  intro _ s1 ⟨hown, hsame, hw⟩
  rw [← hsame.nullBlock] at hw ⊢
  exact allocateNewBlocks_windowed hown hbase hneed hw

end CacheConfig

end VllmRwkv
