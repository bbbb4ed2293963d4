import VllmRwkv.Cache.Ownership

/-!
# How many blocks the allocators take

One lemma per allocating method of a manager: it keeps references and counts in balance, takes at
most the stated number of blocks out of the free queue, and raises for lack of blocks only if
fewer were free.
-/

namespace VllmRwkv

open List Function Raise BlockPool CacheGroup

variable {H : Type}

/-- A `ValueError`; below `allocate_slots`, the pool's complaint that blocks are lacking. -/
def PyErr.isValueError : PyErr → Bool
  | .valueError _ => true
  | _ => false

namespace GroupConfig

/-- A raise that is not for lack of blocks when `k` of them were free. -/
def Raised (g : CacheGroup H) (k : ℕ) (e : PyErr) (g' : CacheGroup H) : Prop :=
  (k : ℤ) ≤ g.numFree → e.isValueError = false ∧ g.numFree ≤ g'.numFree + k

/-- What an allocating method does: references stay counted, at most `k` blocks leave the free queue. -/
structure Took (o : KVCacheBlock → ℕ) (k : ℕ) (g g' : CacheGroup H) : Prop where
  owned : Owned o g'
  same : SamePool g.pool g'.pool
  free : g.numFree ≤ g'.numFree + k

variable {o : KVCacheBlock → ℕ} {g g' : CacheGroup H} {r : RequestId} {cfg : GroupConfig}

theorem addLocalComputedBlocks_takes {nc : List KVCacheBlock} {loc ext : ℕ} (hg : Owned o g)
    (hnc : ∀ b ∈ nc, b ∈ poolBlocks g.pool.numGpuBlocks) (hrow : g.mgr.reqToBlocks r = []) :
    wp (cfg.addLocalComputedBlocks r nc loc ext)
      (fun _ g' => Took o (getNumEvictableBlocks g.pool (nc.drop (cfg.numSkippedBlocks (loc + ext)))) g g' ∧
        (g'.mgr.reqToBlocks r).length = max (cfg.numSkippedBlocks (loc + ext)) nc.length ∧
        (g'.mgr.partialHitReqs r).isSome = ((g.mgr.partialHitReqs r).isSome ||
          cfg.hasPartialLocalHit (nc.drop (cfg.numSkippedBlocks (loc + ext))) loc) ∧
        g'.mgr.allocatedBlockReqs = g.mgr.allocatedBlockReqs ∧
        g'.mgr.checkpoints = g.mgr.checkpoints ∧ ∀ b, g.pool.refCnt b ≤ g'.pool.refCnt b)
      (Raised g (getNumEvictableBlocks g.pool (nc.drop (cfg.numSkippedBlocks (loc + ext))))) g := by
  unfold addLocalComputedBlocks
  simp only [wp_bind, wp_get]
  rw [wp_check]
  refine ⟨fun _ => ?_, fun h => absurd (by rw [hrow]; rfl) h⟩
  set sk := cfg.numSkippedBlocks (loc + ext)
  set nc' := nc.drop sk with hnc'
  have hin : ∀ b ∈ nc', b ∈ poolBlocks g.pool.numGpuBlocks := fun b hb => hnc b (mem_of_mem_drop hb)
  -- the hits are in hand once they are touched; with caching disabled there are none
  have htouch : wp (runIf cfg.enableCaching (onPool (touch nc'))) (fun _ g1 => (cfg.enableCaching ∨ nc' = [] →
        Owned (fun b => o b + nc'.count b) g1) ∧ g1.mgr = g.mgr ∧
        SamePool g.pool g1.pool ∧ (∀ b, g.pool.refCnt b ≤ g1.pool.refCnt b) ∧
        g.numFree ≤ g1.numFree + getNumEvictableBlocks g.pool nc') never g := by
    rw [wp_runIf]
    refine ⟨fun _ => ?_, fun hc => ⟨fun h => ?_, rfl, SamePool.refl _, fun _ => Int.le_refl _, ?_⟩⟩
    · refine wp_imp (touch_owned hg hin) ?_
      rintro _ g1 ⟨h1, h2, h3, h4, h5⟩
      exact ⟨fun _ => h1, h2, h3, h4, h5⟩
    · rcases h with h | h
      · exact absurd h hc
      · rw [h]; simpa using hg
    · omega
  rw [wp_bind]
  refine wp_mono htouch ?_ (fun _ _ h => h.elim)
  rintro _ g1 ⟨hown, hmgr, hsame, hmono, hfree⟩
  rw [wp_bind, wp_check]
  refine ⟨fun hc => ?_, fun _ _ => ⟨rfl, hfree⟩⟩
  have hown1 := hown hc
  -- then they move into the row
  rw [wp_bind, wp_modifyMgr]
  have hown2 : ∀ m' : ManagerState H,
      m'.reqToBlocks = update g1.mgr.reqToBlocks r (replicate sk g.pool.nullBlock ++ nc') →
      m'.pendingCowCopies = g1.mgr.pendingCowCopies → Owned o { g1 with mgr := m' } := by
    intro m' hm hcop
    refine hown1.setMgr r (fun r' hr' => by rw [hm]; simp [hr']) (fun b hb => ?_) ?_ ?_
    · have hne : g.pool.nullBlock ≠ b := hg.ne_nullBlock (hsame.isNull ▸ hb)
      rw [hm, hcop]
      simp [count_append, count_replicate, hne]
      omega
    · rw [hm, hsame.numGpuBlocks]
      simp only [update_self, mem_append]
      rintro b (hb | hb)
      · rw [eq_of_mem_replicate hb]; exact hg.null
      · exact hin b hb
    · rw [hcop]; exact hown1.copies
  have hlen : (replicate sk g.pool.nullBlock ++ nc').length = max sk nc.length := by
    simp [hnc']; omega
  rw [wp_runIf]
  refine ⟨fun hp => ?_, fun hp => ?_⟩
  · rw [wp_modifyMgr]
    refine ⟨⟨hown2 _ rfl rfl, hsame, hfree⟩, ?_, ?_, by rw [← hmgr], by rw [← hmgr], hmono⟩
    · simpa using hlen
    have hne : nc' ≠ [] := by
      intro h
      rw [h] at hp
      simp [hasPartialLocalHit] at hp
    obtain ⟨tail, htail⟩ : ∃ tail, nc'.getLast? = some tail := ⟨_, getLast?_eq_some_getLast hne⟩
    simp [htail, hp]
  · refine ⟨⟨hown2 _ rfl rfl, hsame, hfree⟩, ?_, ?_, by rw [← hmgr], by rw [← hmgr], hmono⟩
    · simpa using hlen
    · simp [hp, hmgr]

section Allocation

variable [DecidableEq H]

/-- The blocks taken for external tokens, given the length of the row. -/
def externalBlocks (cfg : GroupConfig) (loc ext len : ℕ) : ℕ :=
  if cfg.getNumSkippedTokens (loc + ext) < loc + ext then cdiv (loc + ext) cfg.blockSize - len else 0

theorem allocateExternalComputedBlocks_takes {loc ext : ℕ} {record : Bool} (hg : Owned o g) (hext : 0 < ext) :
    wp (cfg.allocateExternalComputedBlocks r loc ext record)
      (fun _ g' => Took o (cfg.externalBlocks loc ext (g.mgr.reqToBlocks r).length) g g' ∧
        (g'.mgr.reqToBlocks r).length =
          (g.mgr.reqToBlocks r).length + cfg.externalBlocks loc ext (g.mgr.reqToBlocks r).length ∧
        g'.mgr.partialHitReqs = g.mgr.partialHitReqs ∧ g'.mgr.allocatedBlockReqs = g.mgr.allocatedBlockReqs ∧
        g'.mgr.checkpoints = g.mgr.checkpoints)
      (Raised g (cfg.externalBlocks loc ext (g.mgr.reqToBlocks r).length)) g := by
  unfold allocateExternalComputedBlocks
  rw [wp_runIf]
  refine ⟨fun hpos => ?_, fun hpos => ?_⟩
  · have hk : cfg.externalBlocks loc ext (g.mgr.reqToBlocks r).length =
        cdiv (loc + ext) cfg.blockSize - (g.mgr.reqToBlocks r).length := by
      unfold externalBlocks
      rw [if_pos]
      split at hpos <;> omega
    rw [hk]
    simp only [wp_bind, wp_get]
    refine wp_mono (getNewBlocks_owned hg _) ?_ ?_
    · rintro ret g1 ⟨hown, hfresh⟩
      rw [wp_bind, wp_setRow]
      have hret : ∀ b ∈ ret, b ∈ poolBlocks g1.pool.numGpuBlocks := fun b hb => by
        rw [hfresh.same.numGpuBlocks]; exact (hfresh.mem b hb).2
      have hrow : g1.mgr.reqToBlocks = g.mgr.reqToBlocks := by rw [hfresh.mgr]
      have hfree := hfresh.numFree
      rw [wp_runIf]
      refine ⟨fun _ => ?_, fun _ => ?_⟩
      · rw [wp_modifyMgr]
        refine ⟨⟨hown.appendRow hret (by rw [← hrow]) rfl, hfresh.same, ?_⟩, ?_, by simp [hfresh.mgr],
          by simp [hfresh.mgr], by simp [hfresh.mgr]⟩
        · show g.numFree ≤ g1.numFree + _
          omega
        · simp [hfresh.length]
      · refine ⟨⟨hown.appendRow hret (by rw [← hrow]) rfl, hfresh.same, ?_⟩, ?_, by simp [hfresh.mgr],
          by simp [hfresh.mgr], by simp [hfresh.mgr]⟩
        · show g.numFree ≤ g1.numFree + _
          omega
        · simp [hfresh.length]
    · rintro e g1 ⟨rfl, hlack⟩ henough
      omega
  · have hk : cfg.externalBlocks loc ext (g.mgr.reqToBlocks r).length = 0 := by
      unfold externalBlocks
      rw [if_neg]
      split at hpos <;> omega
    rw [hk]
    exact ⟨⟨hg, SamePool.refl _, by omega⟩, rfl, rfl, rfl, rfl⟩

variable {idx : ℕ}

omit [DecidableEq H] in
/-- The redirection of a row entry to a private copy: both ends of the copy are kept alive by the
pending list. -/
theorem applyCow_owned {source cow : KVCacheBlock}
    (hg : Owned (fun b => o b + [cow].count b) g) (hcow : g.pool.isNull cow = false)
    (hpool : cow ∈ poolBlocks g.pool.numGpuBlocks) :
    wp (applyCow r idx source cow) (fun _ g' => Owned o g' ∧ SamePool g.pool g'.pool ∧ g'.numFree = g.numFree ∧
        (g'.mgr.reqToBlocks r).length = (g.mgr.reqToBlocks r).length ∧
        g'.mgr = { g.mgr with reqToBlocks := g'.mgr.reqToBlocks
                              pendingCowCopies := g'.mgr.pendingCowCopies })
      (fun e g' => e.isValueError = false ∧ g' = g) g := by
  unfold applyCow
  simp only [wp_bind, wp_get]
  rw [wp_check]
  refine ⟨fun hlt => ?_, fun _ => ⟨rfl, rfl⟩⟩
  rw [wp_bind, wp_check]
  refine ⟨fun hsrc => ?_, fun _ => ⟨rfl, rfl⟩⟩
  rw [wp_bind, wp_check]
  refine ⟨fun _ => ?_, fun _ => ⟨rfl, rfl⟩⟩
  rw [wp_bind, wp_modifyMgr, wp_addRefCnt]
  have hpos : g.pool.isNull cow = false → 0 < g.pool.refCnt cow := fun h => by
    have := hg.refs [] nodup_nil cow h
    simp at this
    omega
  have hmem : source ∈ g.mgr.reqToBlocks r := mem_of_getElem? hsrc
  refine ⟨(hg.withRef hpos).setMgr r (fun r' hr' => by simp [hr']) (fun b _ => ?_) ?_ ?_,
    ⟨rfl, rfl, rfl, rfl⟩, rfl, by simp, rfl⟩
  · have hsrc' : (g.mgr.reqToBlocks r)[idx] = source := by
      rw [getElem?_eq_getElem hlt] at hsrc; exact Option.some.inj hsrc
    have hle : (if source = b then 1 else 0) ≤ (g.mgr.reqToBlocks r).count b := by
      split
      next h => exact h ▸ count_pos_iff.2 hmem
      · omega
    simp only [update_self, copyEnds, flatMap_append, flatMap_cons,
      flatMap_nil, append_nil, count_append, count_cons, count_nil,
      count_set hlt, hsrc', beq_iff_eq]
    omega
  · intro b hb
    simp only [update_self] at hb
    rcases mem_or_eq_of_mem_set hb with hb | rfl
    · exact hg.rows r b hb
    · exact hpool
  · intro b hb
    simp only [copyEnds, flatMap_append, flatMap_cons, flatMap_nil, append_nil,
      mem_append, mem_cons, not_mem_nil, or_false] at hb
    rcases hb with hb | rfl | rfl
    · exact hg.copies b hb
    · exact hg.rows r b hmem
    · exact hpool

/-- The block taken for a partial hit. -/
def cowBlocks (g : CacheGroup H) (r : RequestId) : ℕ := if (g.mgr.partialHitReqs r).isSome then 1 else 0

theorem redirectPartialHit_takes (hg : Owned o g) : wp (redirectPartialHit r) (fun _ g' => Took o (cowBlocks g r) g g' ∧
        (g'.mgr.reqToBlocks r).length = (g.mgr.reqToBlocks r).length ∧
        g'.mgr.partialHitReqs r = none ∧ g'.mgr.allocatedBlockReqs = g.mgr.allocatedBlockReqs)
      (Raised g (cowBlocks g r)) g := by
  unfold redirectPartialHit
  simp only [wp_bind, wp_get]
  split
  next hnone => refine ⟨⟨hg, SamePool.refl _, by omega⟩, rfl, hnone, rfl⟩
  rename_i idx source hsome
  have hk : cowBlocks g r = 1 := by unfold cowBlocks; rw [hsome]; rfl
  rw [hk, wp_bind, wp_modifyMgr, wp_bind]
  set g1 : CacheGroup H := { g with mgr := { g.mgr with
    partialHitReqs := update g.mgr.partialHitReqs r none } } with hg1
  have hown1 : Owned o g1 := hg.setTables rfl rfl
  refine wp_mono (getNewBlocks_owned hown1 1) ?_ ?_
  · rintro ret g2 ⟨hown2, hfresh⟩
    have hfree2 : g2.numFree = g.numFree - 1 := hfresh.numFree
    obtain ⟨cow, rfl⟩ := length_eq_one_iff.1 hfresh.length
    obtain ⟨hnull, hin⟩ := hfresh.mem cow mem_cons_self
    rw [wp_bind]
    refine wp_mono (applyCow_owned hown2 (hfresh.same.isNull ▸ hnull) (hfresh.same.numGpuBlocks ▸ hin)) ?_ ?_
    · rintro _ g3 ⟨hown3, hsame3, hfree3, hlen3, hmgr3⟩
      rw [wp_bind, wp_modifyMgr]
      refine ⟨⟨hown3.setTables rfl rfl, hfresh.same.trans hsame3, ?_⟩, ?_, ?_, ?_⟩
      · show g.numFree ≤ g3.numFree + _
        omega
      · rw [hlen3, hfresh.mgr]
      · rw [hmgr3, hfresh.mgr]; simp [hg1]
      · rw [hmgr3, hfresh.mgr]
    · rintro e g3 ⟨he, rfl⟩ _
      exact ⟨he, by omega⟩
  · rintro e g2 ⟨-, hlack⟩ henough
    have : g1.numFree = g.numFree := rfl
    omega

/-- **The base allocator** takes a block for a partial hit and fills the row up. -/
theorem baseAllocateNewBlocks_takes {numTokens : ℕ} (hg : Owned o g) : wp (cfg.baseAllocateNewBlocks r numTokens)
      (fun _ g' =>
        Took o (cowBlocks g r + (cdiv numTokens cfg.blockSize - (g.mgr.reqToBlocks r).length)) g g' ∧
        (g'.mgr.reqToBlocks r).length = max (g.mgr.reqToBlocks r).length (cdiv numTokens cfg.blockSize) ∧
        g'.mgr.partialHitReqs r = none ∧ g'.mgr.allocatedBlockReqs = g.mgr.allocatedBlockReqs)
      (Raised g (cowBlocks g r + (cdiv numTokens cfg.blockSize - (g.mgr.reqToBlocks r).length))) g := by
  unfold baseAllocateNewBlocks
  rw [wp_bind]
  refine wp_mono (redirectPartialHit_takes hg) ?_ ?_
  · rintro cows g1 ⟨⟨hown1, hsame1, hfree1⟩, hlen1, hpart1, halloc1⟩
    simp only [wp_bind, wp_get]
    split_ifs with hle
    · refine ⟨⟨hown1, hsame1, by omega⟩, by omega, hpart1, halloc1⟩
    rw [wp_bind]
    refine wp_mono (getNewBlocks_owned hown1 _) ?_ ?_
    · rintro ret g2 ⟨hown2, hfresh⟩
      have hfree2 := hfresh.numFree
      have hret : ∀ b ∈ ret, b ∈ poolBlocks g2.pool.numGpuBlocks := fun b hb => by
        rw [hfresh.same.numGpuBlocks]; exact (hfresh.mem b hb).2
      have hrow : g2.mgr.reqToBlocks = g1.mgr.reqToBlocks := by rw [hfresh.mgr]
      have hown3 : ∀ m' : ManagerState H, m'.reqToBlocks = update g2.mgr.reqToBlocks r (g1.mgr.reqToBlocks r ++ ret) →
          m'.pendingCowCopies = g2.mgr.pendingCowCopies → Owned o { g2 with mgr := m' } :=
        fun m' h1 h2 => hown2.appendRow hret (by rw [h1, ← hrow]) h2
      have hlen3 : (g1.mgr.reqToBlocks r ++ ret).length =
          max (g.mgr.reqToBlocks r).length (cdiv numTokens cfg.blockSize) := by
        rw [length_append, hfresh.length]; omega
      have hfree3 : g.numFree ≤ g2.numFree +
          (cowBlocks g r + (cdiv numTokens cfg.blockSize - (g.mgr.reqToBlocks r).length) : ℕ) := by
        omega
      rw [wp_bind, wp_setRow, wp_bind, wp_runIf]
      refine ⟨fun _ => ?_, fun _ => ?_⟩
      · rw [wp_modifyMgr]
        exact ⟨⟨hown3 _ rfl rfl, hsame1.trans hfresh.same, hfree3⟩, by simpa using hlen3,
          by simpa [hfresh.mgr] using hpart1, by simpa [hfresh.mgr] using halloc1⟩
      · exact ⟨⟨hown3 _ rfl rfl, hsame1.trans hfresh.same, hfree3⟩, by simpa using hlen3,
          by simpa [hfresh.mgr] using hpart1, by simpa [hfresh.mgr] using halloc1⟩
    · rintro e g2 ⟨-, hlack⟩ henough
      omega
  · intro e g1 hraise henough
    obtain ⟨h1, h2⟩ := hraise (by omega)
    exact ⟨h1, by omega⟩

/-! ## Align-mode allocation -/

/-- The tables other than rows and last states are the same. -/
structure SameTables (m m' : ManagerState H) : Prop where
  partialHitReqs : m'.partialHitReqs = m.partialHitReqs
  allocatedBlockReqs : m'.allocatedBlockReqs = m.allocatedBlockReqs
  checkpoints : m'.checkpoints = m.checkpoints
  pendingCowCopies : m'.pendingCowCopies = m.pendingCowCopies

omit [DecidableEq H] in
theorem relocateSpeculativeBlock_owned (hg : Owned o g) : wp (relocateSpeculativeBlock r idx)
      (fun _ g' => Owned o g' ∧ g'.pool = g.pool ∧
        (g'.mgr.reqToBlocks r).length = (g.mgr.reqToBlocks r).length + 1 ∧ SameTables g.mgr g'.mgr)
      (fun e g' => e.isValueError = false ∧ g' = g) g := by
  unfold relocateSpeculativeBlock
  simp only [wp_bind, wp_get]
  split
  · exact ⟨rfl, rfl⟩
  rename_i block hblock
  rw [wp_bind, wp_check]
  refine ⟨fun _ => ?_, fun _ => ⟨rfl, rfl⟩⟩
  rw [wp_setRow]
  obtain ⟨hlt, hget⟩ := List.getElem?_eq_some_iff.1 hblock
  have hlt' : idx < (g.mgr.reqToBlocks r ++ [block]).length := by simp; omega
  have hget' : (g.mgr.reqToBlocks r ++ [block])[idx] = block := by
    rw [getElem_append_left hlt, hget]
  refine ⟨hg.setRow (fun b hb => ?_) (fun b hb => ?_), rfl, by simp, ⟨rfl, rfl, rfl, rfl⟩⟩
  · have hne : g.pool.nullBlock ≠ b := hg.ne_nullBlock hb
    rw [count_set hlt', hget', count_append, count_singleton]
    simp only [beq_iff_eq, hne, if_false]
    omega
  rcases mem_or_eq_of_mem_set hb with hb | rfl
  · rcases mem_append.1 hb with hb | hb
    · exact hg.rows r b hb
    · rw [mem_singleton.1 hb]; exact hg.rows r block (mem_of_getElem? hblock)
  · exact hg.null

theorem takeWhile_range'_length (a n m : ℕ) : ((range' a n).takeWhile (· < m)).length = min n (m - a) := by
  induction n generalizing a with
  | zero => simp
  | succ n ih =>
    rw [range'_succ, takeWhile_cons]
    by_cases h : a < m
    · simp [h, ih]; omega
    · simp [h]; omega

/-- The length of the row after `mambaLayoutRow`. -/
def layoutLength (len numSpeculativeBlocks numSkippedBlocks checkpointBlock : ℕ) (allocated : Bool) : ℕ :=
  (if len < numSkippedBlocks then max len (numSkippedBlocks - checkpointBlock) else len) +
    if allocated then
      min numSpeculativeBlocks (numSkippedBlocks - checkpointBlock - (len - numSpeculativeBlocks))
    else 0

omit [DecidableEq H] in
theorem mambaLayoutRow_owned {spec skipped ckpt : ℕ} (hg : Owned o g) : wp (mambaLayoutRow r spec skipped ckpt)
      (fun _ g' => Owned o g' ∧ g'.pool = g.pool ∧ SameTables g.mgr g'.mgr ∧
        (g'.mgr.reqToBlocks r).length = layoutLength (g.mgr.reqToBlocks r).length spec skipped ckpt
          (g.mgr.allocatedBlockReqs r)) (fun e g' => e.isValueError = false ∧ g'.pool = g.pool) g := by
  unfold mambaLayoutRow
  simp only [wp_bind, wp_get]
  set len := (g.mgr.reqToBlocks r).length
  -- null padding
  have hpad : wp (runIf (len < skipped) (setRow r (g.mgr.reqToBlocks r ++
        replicate (skipped - ckpt - len) g.pool.nullBlock)))
      (fun _ g1 => Owned o g1 ∧ g1.pool = g.pool ∧ SameTables g.mgr g1.mgr ∧ (g1.mgr.reqToBlocks r).length =
          if len < skipped then max len (skipped - ckpt) else len) never g := by
    rw [wp_runIf]
    refine ⟨fun hlt => ?_, fun hlt => ⟨hg, rfl, ⟨rfl, rfl, rfl, rfl⟩, by rw [if_neg hlt]⟩⟩
    rw [wp_setRow]
    refine ⟨hg.setRow (fun b hb => ?_) (fun b hb => ?_), rfl, ⟨rfl, rfl, rfl, rfl⟩, ?_⟩
    · have hne : g.pool.nullBlock ≠ b := hg.ne_nullBlock hb
      simp [count_append, count_replicate, hne]
    · rcases mem_append.1 hb with hb | hb
      · exact hg.rows r b hb
      · rw [eq_of_mem_replicate hb]; exact hg.null
    · rw [if_pos hlt]
      simp only [update_self, length_append, length_replicate]
      omega
  refine wp_mono hpad ?_ (fun _ _ h => h.elim)
  rintro _ g1 ⟨hown1, hpool1, htab1, hlen1⟩
  rw [wp_runIf]
  refine ⟨fun halloc => ?_, fun halloc => ⟨hown1, hpool1, htab1, ?_⟩⟩
  · -- every round of the loop makes the row one longer
    set l := (range' (len - spec) spec).takeWhile fun i => i < skipped - ckpt
    refine wp_mono (wp_forM (fun rest g' => Owned o g' ∧ g'.pool = g.pool ∧ SameTables g.mgr g'.mgr ∧
        (g'.mgr.reqToBlocks r).length + rest.length = (g1.mgr.reqToBlocks r).length + l.length)
      ?_ ⟨hown1, hpool1, htab1, rfl⟩) ?_ (fun _ _ h => h)
    · rintro idx rest g2 ⟨hown2, hpool2, htab2, hlen2⟩
      refine wp_mono (relocateSpeculativeBlock_owned hown2) ?_ ?_
      · rintro _ g3 ⟨hown3, hpool3, hlen3, htab3⟩
        refine ⟨hown3, hpool3.trans hpool2, ⟨htab3.1.trans htab2.1, htab3.2.trans htab2.2,
          htab3.3.trans htab2.3, htab3.4.trans htab2.4⟩, ?_⟩
        rw [length_cons] at hlen2
        omega
      · rintro e g3 ⟨he, rfl⟩; exact ⟨he, hpool2⟩
    · rintro _ g2 ⟨hown2, hpool2, htab2, hlen2⟩
      refine ⟨hown2, hpool2, htab2, ?_⟩
      have hll : l.length = min spec (skipped - ckpt - (len - spec)) := takeWhile_range'_length _ _ _
      unfold layoutLength
      rw [if_pos halloc, ← hlen1, ← hll]
      simpa using hlen2
  · unfold layoutLength
    rw [if_neg halloc, hlen1]
    rfl

/-- `move_block_hashes` may fail an assertion, never ask for a block. -/
theorem moveBlockHashes_raises {source cow : KVCacheBlock} :
    Raises (fun e => e.isValueError = false) (moveBlockHashes (H := H) source cow) := by
  have hremove : Raises (fun e => e.isValueError = false) (removeCachedBlockHashes (H := H) source) :=
    fun p => wp_mono removeCachedBlockHashes_spec (fun _ _ _ => trivial) (fun _ _ h => h.elim)
  have hinsert : ∀ key n, Raises (fun e => e.isValueError = false) (insertBlockHash (H := H) key cow n) := by
    intro key n
    refine raises_bind raises_get fun p => ?_
    split
    · exact raises_pure
    split
    · exact raises_pure
    refine raises_bind (raises_runIf ?_) fun _ => ?_
    · exact raises_bind raises_get fun _ => raises_bind (raises_check rfl) fun _ => raises_modify
    · exact raises_bind (raises_runIf raises_modify) fun _ => raises_modify
  refine raises_bind raises_get fun p => raises_bind (raises_check rfl) fun _ => ?_
  refine raises_bind (raises_check rfl) fun _ => raises_bind hremove fun _ => ?_
  exact raises_forM fun key _ => hinsert key _

/-- The tail of a running request: its cache entry moves to the copy, and both ends of the copy
are kept alive by the pending list. -/
theorem moveProducerTail_owned {source cow : KVCacheBlock}
    (hg : Owned (fun b => o b + [cow].count b) g) (hpool : cow ∈ poolBlocks g.pool.numGpuBlocks) :
    wp (cfg.moveProducerTail r idx source cow)
      (fun _ g' => Owned o g' ∧ SamePool g.pool g'.pool ∧ g'.numFree = g.numFree ∧
        g'.mgr.reqToBlocks = g.mgr.reqToBlocks) (fun e g' => e.isValueError = false ∧ g'.numFree = g.numFree) g := by
  unfold moveProducerTail
  simp only [wp_bind, wp_get]
  rw [wp_check]
  refine ⟨fun hsrc => ?_, fun _ => ⟨rfl, rfl⟩⟩
  have hmem : source ∈ g.mgr.reqToBlocks r := mem_of_getElem? hsrc
  simp only [wp_bind, wp_onPool]
  have hkeeps : Keeps (SameRefs g.pool) (moveBlockHashes source cow) := sameRefs_hashOps.moveBlockHashes trivial
  refine wp_mono (wp_and (hkeeps g.pool (SameRefs.refl _)) (moveBlockHashes_raises g.pool)) ?_ ?_
  · rintro _ p1 ⟨hrefs, -⟩
    have hown1 := hg.of_sameRefs hrefs
    rw [wp_modifyMgr, wp_bind, wp_addRefCnt, wp_get_bind, wp_bind, wp_modifyMgr, wp_bind]
    set g2 : CacheGroup H := { pool := withRef p1 source, mgr := { g.mgr with
      pendingCowCopies := g.mgr.pendingCowCopies ++ [(source, cow)] } } with hg2
    have hown2 : Owned o g2 := by
      have hpos := fun h => hown1.refCnt_pos hmem h
      refine (hown1.withRef hpos).setMgr r (fun _ _ => rfl) (fun b _ => ?_) (hown1.rows r) ?_
      · simp only [copyEnds, flatMap_append, flatMap_cons, flatMap_nil, append_nil, count_append, count_cons, count_nil]
        omega
      intro b hb
      simp only [copyEnds, flatMap_append, flatMap_cons, flatMap_nil,
        append_nil, mem_append, mem_cons, not_mem_nil, or_false] at hb
      rcases hb with hb | rfl | rfl
      · exact hown1.copies b hb
      · exact hown1.rows r b hmem
      · show b ∈ poolBlocks p1.numGpuBlocks
        rw [hrefs.numGpuBlocks]; exact hpool
    have hsame2 : SamePool g.pool g2.pool := hrefs.samePool.trans ⟨rfl, rfl, rfl, rfl⟩
    have hfree2 : g2.numFree = g.numFree := by
      show p1.getNumFreeBlocks = g.pool.getNumFreeBlocks
      unfold getNumFreeBlocks; rw [hrefs.freeBlockQueue]
    -- the rest only writes tables about connectors and this step's hits
    refine wp_mono (wp_forM (fun _ g' => g'.pool = g2.pool ∧ g'.mgr.reqToBlocks = g.mgr.reqToBlocks ∧
        g'.mgr.pendingCowCopies = g2.mgr.pendingCowCopies) ?_ ⟨rfl, rfl, rfl⟩) ?_ (fun _ _ h => h)
    · rintro tail rest g3 ⟨hp3, hrow3, hcop3⟩
      rw [wp_bind, wp_check]
      refine ⟨fun _ => ?_, fun _ => ⟨rfl, ?_⟩⟩
      · rw [wp_modifyMgr]; exact ⟨hp3, hrow3, hcop3⟩
      · unfold numFree at hfree2 ⊢; rw [hp3]; exact hfree2
    · rintro _ g3 ⟨hp3, hrow3, hcop3⟩
      rw [wp_get_bind, wp_modifyMgr]
      refine ⟨?_, hp3 ▸ hsame2, ?_, hrow3⟩
      · have hown3 : Owned o g3 := by
          have h := hown2.setTables hrow3 hcop3
          rwa [← hp3] at h
        exact hown3.setTables rfl rfl
      · unfold numFree at hfree2 ⊢; rw [hp3]; exact hfree2
  · rintro e p1 ⟨hrefs, he⟩
    refine ⟨he, ?_⟩
    show p1.getNumFreeBlocks = g.pool.getNumFreeBlocks
    unfold getNumFreeBlocks; rw [hrefs.freeBlockQueue]

/-- The copy-on-write step uses up the first of the new blocks. -/
theorem mambaServePartialHit_owned {allocated : Bool} {newBlocks : List KVCacheBlock}
    (hg : Owned (fun b => o b + newBlocks.count b) g)
    (hnew : ∀ b ∈ newBlocks, g.pool.isNull b = false ∧ b ∈ poolBlocks g.pool.numGpuBlocks) :
    wp (cfg.mambaServePartialHit r allocated newBlocks)
      (fun ret g' => Owned (fun b => o b + ret.1.count b) g' ∧ SamePool g.pool g'.pool ∧
        g'.numFree = g.numFree ∧ (g'.mgr.reqToBlocks r).length = (g.mgr.reqToBlocks r).length ∧
        ret.1.length = newBlocks.length - cowBlocks g r ∧ ∀ b ∈ ret.1, b ∈ newBlocks)
      (fun e g' => e.isValueError = false ∧ g'.numFree = g.numFree) g := by
  unfold mambaServePartialHit
  simp only [wp_bind, wp_get]
  split
  next hnone =>
    refine ⟨hg, SamePool.refl _, rfl, rfl, ?_, fun _ h => h⟩
    unfold cowBlocks; rw [hnone]; rfl
  · exact ⟨rfl, rfl⟩
  rename_i idx source cow rest hsome
  have hk : cowBlocks g r = 1 := by unfold cowBlocks; rw [hsome]; rfl
  obtain ⟨hnull, hin⟩ := hnew cow mem_cons_self
  -- the copy is in hand besides the blocks that are left
  have hg' : Owned (fun b => o b + rest.count b + [cow].count b) g := by
    refine hg.mono fun b => ?_
    rw [count_cons (l := rest), count_singleton]
    omega
  rw [hk]
  split
  · rw [wp_bind]
    refine wp_imp (moveProducerTail_owned hg' hin) ?_
    rintro _ g1 ⟨h1, h2, h3, h4⟩
    exact ⟨h1, h2, h3, by rw [h4], by simp, fun b hb => mem_cons_of_mem _ hb⟩
  rw [wp_bind]
  refine wp_mono (applyCow_owned hg' hnull hin) ?_ ?_
  · rintro _ g1 ⟨h1, h2, h3, h4, -⟩
    exact ⟨h1, h2, h3, h4, by simp, fun b hb => mem_cons_of_mem _ hb⟩
  · rintro e g1 ⟨he, rfl⟩; exact ⟨he, rfl⟩

/-- The blocks the align-mode allocator takes, given the length of the row. -/
def mambaNewBlocks (len numSpeculativeBlocks numRequiredBlocks checkpointBlock cow : ℕ) (allocated : Bool) : ℕ :=
  if numRequiredBlocks ≤ len ∧ cow = 0 ∧ checkpointBlock = 0 then 0
  else numRequiredBlocks - layoutLength len numSpeculativeBlocks
    (numRequiredBlocks - numSpeculativeBlocks - 1) checkpointBlock allocated + cow

/-- **The align-mode allocator** lays out the row and takes what is missing. -/
theorem mambaAllocateNewBlocks_takes {spec numTokens : ℕ} (hg : Owned o g) :
    wp (cfg.mambaAllocateNewBlocks spec r numTokens)
      (fun _ g' => Took o (mambaNewBlocks (g.mgr.reqToBlocks r).length spec
          (cdiv numTokens cfg.blockSize + spec) (checkpointBlocks g r) (cowBlocks g r)
          (g.mgr.allocatedBlockReqs r)) g g' ∧ cdiv numTokens cfg.blockSize + spec ≤ (g'.mgr.reqToBlocks r).length ∧
        g'.mgr.allocatedBlockReqs r) (Raised g (mambaNewBlocks (g.mgr.reqToBlocks r).length spec
          (cdiv numTokens cfg.blockSize + spec) (checkpointBlocks g r) (cowBlocks g r)
          (g.mgr.allocatedBlockReqs r))) g := by
  unfold mambaAllocateNewBlocks
  simp only [wp_bind, wp_get]
  set len := (g.mgr.reqToBlocks r).length with hlen
  set req := cdiv numTokens cfg.blockSize + spec
  set k := mambaNewBlocks len spec req (checkpointBlocks g r) (cowBlocks g r) (g.mgr.allocatedBlockReqs r) with hk
  have hcow : (g.mgr.partialHitReqs r).isSome = false ↔ cowBlocks g r = 0 := by
    unfold cowBlocks; cases (g.mgr.partialHitReqs r).isSome <;> simp
  split
  next hearly =>
    have hk0 : k = 0 := by
      rw [hk]; unfold mambaNewBlocks
      rw [if_pos ⟨hearly.1, hcow.1 hearly.2.1, hearly.2.2⟩]
    rw [hk0, wp_bind, wp_modifyMgr]
    exact ⟨⟨hg.setTables rfl rfl, ⟨rfl, rfl, rfl, rfl⟩, by show g.numFree ≤ g.numFree + _; omega⟩, hearly.1, by simp⟩
  rename_i hlate
  obtain ⟨laid, hlaid⟩ : ∃ laid, laid = layoutLength len spec (req - spec - 1) (checkpointBlocks g r)
      (g.mgr.allocatedBlockReqs r) := ⟨_, rfl⟩
  have hk1 : k = req - laid + cowBlocks g r := by
    rw [hk, hlaid]; unfold mambaNewBlocks
    rw [if_neg]
    rintro ⟨h1, h2, h3⟩
    exact hlate ⟨h1, hcow.2 h2, h3⟩
  -- recording the last state writes one table
  rw [wp_bind]
  refine wp_mono (Q := fun _ g1 => Owned o g1 ∧ g1.pool = g.pool ∧ SameTables g.mgr g1.mgr ∧
    g1.mgr.reqToBlocks = g.mgr.reqToBlocks) (R := fun _ _ => False) ?_ ?_ (fun _ _ h => h.elim)
  · rw [wp_runIf]
    refine ⟨fun _ => ?_, fun _ => ⟨hg, rfl, ⟨rfl, rfl, rfl, rfl⟩, rfl⟩⟩
    rw [wp_modifyMgr]
    exact ⟨hg.setTables rfl rfl, rfl, ⟨rfl, rfl, rfl, rfl⟩, rfl⟩
  rintro _ g1 ⟨hown1, hpool1, htab1, hrow1⟩
  have hfree1 : g1.numFree = g.numFree := by unfold numFree; rw [hpool1]
  rw [wp_bind]
  refine wp_mono (mambaLayoutRow_owned hown1) ?_ ?_
  · rintro _ g2 ⟨hown2, hpool2, htab2, hlen2⟩
    have hfree2 : g2.numFree = g.numFree := by
      unfold numFree at hfree1 ⊢; rw [hpool2]; exact hfree1
    rw [hrow1, htab1.allocatedBlockReqs, ← hlen, ← hlaid] at hlen2
    simp only [wp_bind, wp_get]
    have hnum : req - (g2.mgr.reqToBlocks r).length + (if (g.mgr.partialHitReqs r).isSome then 1 else 0) = k := by
      rw [hk1, hlen2]; rfl
    rw [hnum, wp_check]
    refine ⟨fun _ => ?_, fun _ _ => ⟨rfl, by omega⟩⟩
    rw [wp_bind]
    refine wp_mono (getNewBlocks_owned hown2 k) ?_ ?_
    · rintro ret g3 ⟨hown3, hfresh⟩
      have hfree3 := hfresh.numFree
      simp only [wp_bind, wp_get]
      have hnew : ∀ b ∈ ret, g3.pool.isNull b = false ∧ b ∈ poolBlocks g3.pool.numGpuBlocks := by
        intro b hb
        rw [hfresh.same.isNull, hfresh.same.numGpuBlocks]
        exact hfresh.mem b hb
      refine wp_mono (mambaServePartialHit_owned hown3 hnew) ?_ ?_
      · rintro ⟨rest, cows⟩ g4 ⟨hown4, hsame4, hfree4, hlen4, hrest, hsub⟩
        have hcow3 : cowBlocks g3 r = cowBlocks g r := by
          unfold cowBlocks
          rw [hfresh.mgr, htab2.partialHitReqs, htab1.partialHitReqs]
        have hsame : SamePool g.pool g4.pool := by
          have h1 : SamePool g.pool g2.pool := by
            rw [hpool2, hpool1]; exact SamePool.refl _
          exact (h1.trans hfresh.same).trans hsame4
        have hin : ∀ b ∈ rest, b ∈ poolBlocks g4.pool.numGpuBlocks := by
          intro b hb
          rw [hsame4.numGpuBlocks]
          exact (hnew b (hsub b hb)).2
        have hlen3 : g3.mgr.reqToBlocks = g2.mgr.reqToBlocks := by rw [hfresh.mgr]
        rw [wp_get_bind, wp_bind, wp_setRow, wp_bind, wp_modifyMgr, wp_bind, wp_modifyMgr, wp_pure]
        refine ⟨⟨hown4.appendRow hin rfl rfl, hsame, ?_⟩, ?_, by simp⟩
        · show g.numFree ≤ g4.numFree + k
          omega
        · simp only [update_self, length_append]
          rw [hlen4, hlen3, hrest, hcow3, hfresh.length, hlen2]
          omega
      · rintro e g4 ⟨he, hfree4⟩ _
        exact ⟨he, by omega⟩
    · rintro e g3 ⟨-, hlack⟩ henough
      omega
  · rintro e g2 ⟨he, hpool2⟩ _
    have hfree2 : g2.numFree = g.numFree := by
      unfold numFree at hfree1 ⊢; rw [hpool2]; exact hfree1
    exact ⟨he, by omega⟩

end Allocation

end GroupConfig

end VllmRwkv
