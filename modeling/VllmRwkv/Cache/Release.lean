import VllmRwkv.Cache.Ownership
import VllmRwkv.Cache.Frames

/-!
# Giving blocks back

A request gives back its whole row when it ends, and before that what its attention has left behind.
-/

namespace VllmRwkv

open List Raise BlockPool CacheGroup

variable {H : Type}

namespace GroupConfig

/-- Entries of the row of `r` before `limit` have been given up; nothing else has changed, besides
the count of retired columns. -/
structure Nulled (limit : ℕ) (r : RequestId) (g g' : CacheGroup H) : Prop where
  same : SamePool g.pool g'.pool
  index : SameIndex g.pool g'.pool
  tables : g'.mgr = { g.mgr with
    reqToBlocks := g'.mgr.reqToBlocks, numRetiredBlocks := g'.mgr.numRetiredBlocks }
  others : ∀ r' ≠ r, g'.mgr.reqToBlocks r' = g.mgr.reqToBlocks r'
  length : (g'.mgr.reqToBlocks r).length = (g.mgr.reqToBlocks r).length
  entries : ∀ i : ℕ, (g'.mgr.reqToBlocks r)[i]? = (g.mgr.reqToBlocks r)[i]? ∨
    i < limit ∧ (g'.mgr.reqToBlocks r)[i]? = some g.pool.nullBlock
  refs : ∀ b, b ≠ g.pool.nullBlock →
    g'.pool.refCnt b + (g.mgr.reqToBlocks r).count b = g.pool.refCnt b + (g'.mgr.reqToBlocks r).count b
  nullRef : g'.pool.refCnt g.pool.nullBlock = g.pool.refCnt g.pool.nullBlock

variable {o : KVCacheBlock → ℕ} {g g' g'' : CacheGroup H} {r : RequestId} {cfg : GroupConfig} {limit : ℕ}

theorem Nulled.refl (limit : ℕ) (r : RequestId) (g : CacheGroup H) : Nulled limit r g g :=
  ⟨SamePool.refl _, SameIndex.refl _, rfl, fun _ _ => rfl, rfl, fun _ => .inl rfl, fun _ _ => rfl, rfl⟩

theorem Nulled.trans (h : Nulled limit r g g') (h' : Nulled limit r g' g'') : Nulled limit r g g'' := by
  have hnull := h.same.nullBlock
  refine ⟨h.same.trans h'.same, h.index.trans h'.index, ?_, fun r' hr' => ?_, h'.length.trans h.length,
    fun i => ?_, fun b hb => ?_, ?_⟩
  · rw [h'.tables, h.tables]
  · rw [h'.others r' hr', h.others r' hr']
  · rcases h'.entries i with h2 | ⟨h2, h3⟩
    · rcases h.entries i with h1 | ⟨h1, h4⟩
      · exact .inl (h2.trans h1)
      · exact .inr ⟨h1, h2.trans h4⟩
    · exact .inr ⟨h2, h3.trans (by rw [hnull])⟩
  · have h1 := h.refs b hb
    have h2 := h'.refs b (hnull ▸ hb)
    omega
  · have h2 := h'.nullRef
    rw [hnull] at h2
    rw [h2, h.nullRef]

/-- A list of blocks taken out of a row: `row'` has the null block in their place. -/
structure TakenOut (null : KVCacheBlock) (limit : ℕ) (row freed row' : List KVCacheBlock) : Prop where
  length : row'.length = row.length
  count : ∀ b, b ≠ null → freed.count b + row'.count b = row.count b
  notMem : null ∉ freed
  sub : ∀ b ∈ freed, b ∈ row
  mem : ∀ b ∈ row', b ∈ row ∨ b = null
  entries : ∀ i : ℕ, row'[i]? = row[i]? ∨ i < limit ∧ row'[i]? = some null

theorem TakenOut.refl (null : KVCacheBlock) (limit : ℕ) (row : List KVCacheBlock) : TakenOut null limit row [] row :=
  ⟨rfl, fun _ _ => by simp, by simp, by simp, fun _ h => .inl h, fun _ => .inl rfl⟩

variable {null : KVCacheBlock}

theorem TakenOut.cons {block : KVCacheBlock} {i : ℕ} {row freed row' : List KVCacheBlock}
    (hi : row[i]? = some block) (hnull : block ≠ null) (hlimit : i < limit)
    (h : TakenOut null limit (row.set i null) freed row') : TakenOut null limit row (block :: freed) row' := by
  obtain ⟨hlt, hget⟩ := List.getElem?_eq_some_iff.1 hi
  have hmem : block ∈ row := mem_of_getElem? hi
  have hset : ∀ b ∈ row.set i null, b ∈ row ∨ b = null := fun b hb => mem_or_eq_of_mem_set hb
  refine ⟨by rw [h.length, length_set], fun b hb => ?_, ?_, ?_, ?_, fun j => ?_⟩
  · have h1 := h.count b hb
    have hne : ¬ null = b := fun heq => hb heq.symm
    have hpos : (if block = b then 1 else 0) ≤ row.count b := by
      split
      next heq => exact heq ▸ count_pos_iff.2 hmem
      · omega
    rw [count_set hlt, hget] at h1
    simp only [beq_iff_eq, hne, if_false] at h1
    rw [count_cons]
    simp only [beq_iff_eq]
    omega
  · simp only [mem_cons, not_or]
    exact ⟨fun heq => hnull heq.symm, h.notMem⟩
  · intro b hb
    rcases mem_cons.1 hb with rfl | hb
    · exact hmem
    · rcases hset b (h.sub b hb) with hb' | rfl
      · exact hb'
      · exact absurd hb h.notMem
  · intro b hb
    rcases h.mem b hb with hb' | hb'
    · exact hset b hb'
    · exact .inr hb'
  · rcases h.entries j with hj | hj
    · by_cases hji : j = i
      · subst hji
        right
        rw [getElem?_set_self hlt] at hj
        exact ⟨hlimit, hj⟩
      · rw [getElem?_set_ne (Ne.symm hji)] at hj
        exact .inl hj
    · exact .inr hj

theorem nullBackward_takenOut {first : ℕ} (limit n : ℕ) (row : List KVCacheBlock) (hlimit : first + n ≤ limit) :
    TakenOut null limit row (nullBackward null first n row).1 (nullBackward null first n row).2 := by
  induction n generalizing row with
  | zero => exact TakenOut.refl null limit row
  | succ n ih =>
    unfold nullBackward
    split
    · exact TakenOut.refl null limit row
    rename_i block hblock
    split_ifs with hne
    · exact TakenOut.refl null limit row
    · exact TakenOut.cons hblock hne (by omega) (ih _ (by omega))

theorem nullBackwardAll_takenOut {isNull : KVCacheBlock → Bool} {first : ℕ}
    (hnull : isNull null) (limit n : ℕ) (row : List KVCacheBlock) (hlimit : first + n ≤ limit) :
    TakenOut null limit row (nullBackwardAll isNull null first n row).1
      (nullBackwardAll isNull null first n row).2 := by
  induction n generalizing row with
  | zero => exact TakenOut.refl null limit row
  | succ n ih =>
    unfold nullBackwardAll
    split
    · exact ih row (by omega)
    rename_i block hblock
    split_ifs with hne
    · exact ih row (by omega)
    · exact TakenOut.cons hblock (fun h => hne (h ▸ hnull)) (by omega) (ih _ (by omega))

section TakeOut

variable {row' freed : List KVCacheBlock} {m' : ManagerState H}
  (h : TakenOut g.pool.nullBlock limit (g.mgr.reqToBlocks r) freed row')
  (hrows : m'.reqToBlocks = Function.update g.mgr.reqToBlocks r row')
  (htab : m' = { g.mgr with reqToBlocks := m'.reqToBlocks, numRetiredBlocks := m'.numRetiredBlocks })
include h hrows htab

theorem TakenOut.owned (hg : Owned o g) : Owned (fun b => o b + freed.count b) { g with mgr := m' } := by
  have hrow' : m'.reqToBlocks r = row' := by rw [hrows]; simp
  refine hg.setMgr r (fun r' hr' => by rw [hrows]; simp [hr']) (fun b hb => ?_) (fun b hb => ?_) ?_
  · have := h.count b (Ne.symm (hg.ne_nullBlock hb))
    rw [hrow', htab]
    show _ + (copyEnds g.mgr.pendingCowCopies).count b + _ ≤ _
    omega
  · rw [hrow'] at hb
    rcases h.mem b hb with hb | rfl
    · exact hg.rows r b hb
    · exact hg.null
  · rw [htab]; exact hg.copies

/-- Once their references are given up, the row has been nulled. -/
theorem TakenOut.nulled {p' : BlockPool H} (hsame : SamePool g.pool p') (hidx : SameIndex g.pool p')
    (hrefs : ∀ b, p'.refCnt b = g.pool.refCnt b - freed.count b) : Nulled limit r g { pool := p', mgr := m' } := by
  have hrow' : m'.reqToBlocks r = row' := by rw [hrows]; simp
  refine ⟨hsame, hidx, htab, fun r' hr' => ?_, ?_, fun i => ?_, fun b hb => ?_, ?_⟩
  · rw [hrows]; simp [hr']
  · rw [hrow']; exact h.length
  · rw [hrow']; exact h.entries i
  · rw [hrow', hrefs, ← h.count b hb]
    omega
  · rw [hrefs, count_eq_zero.2 h.notMem]; simp

/-- **Blocks taken out of a row are given back.** -/
theorem freeBlocks_nulled (hg : Owned o g) : wp (runIf (freed ≠ []) (onPool (freeBlocks freed)))
      (fun _ g' => Owned o g' ∧ Nulled limit r g g' ∧ g'.mgr = m') never { g with mgr := m' } := by
  have hown := h.owned hrows htab hg
  rw [wp_runIf]
  refine ⟨fun _ => ?_, fun hnil => ⟨?_, h.nulled hrows htab (SamePool.refl _) (SameIndex.refl _) ?_, rfl⟩⟩
  · obtain ⟨xs, hxs⟩ := hg.conserved
    have hin : ∀ b ∈ freed, b ∈ poolBlocks g.pool.numGpuBlocks := fun b hb => hg.rows r b (h.sub b hb)
    have hcnt : g.pool.Payable freed := by
      intro b _ hb
      have := hown.refs [] nodup_nil b hb
      simp only at this
      omega
    have hkeep : Keeps (SameIndex g.pool) (freeBlocks freed) :=
      RefOps.freeBlocks ⟨fun _ _ _ _ _ h => ⟨h.1, h.2, h.3, h.4, h.5⟩⟩
    have howns := freeBlocks_owned hown hin
    rw [wp_onPool] at howns ⊢
    refine wp_mono (wp_and howns (wp_and (freeBlocks_spec hxs hin hcnt)
      (hkeep g.pool (SameIndex.refl _)))) ?_ (fun _ _ h => h.1)
    rintro _ p' ⟨⟨h1, -, h3⟩, ⟨ys, -, hrefs, -⟩, hidx⟩
    exact ⟨h1, h.nulled hrows htab h3 hidx hrefs, rfl⟩
  · exact hown.mono fun b => by omega
  · intro b
    rw [not_not.1 hnil]; simp

end TakeOut

theorem baseRemoveBlocksInRange_nulls {last : ℕ} (hg : Owned o g) (hlast : last ≤ limit) :
    wp (baseRemoveBlocksInRange r 0 last) (fun _ g' => Owned o g' ∧ Nulled limit r g g') never g := by
  unfold baseRemoveBlocksInRange
  simp only [wp_bind, wp_get]
  rw [wp_setRow]
  refine wp_imp (freeBlocks_nulled (nullBackward_takenOut limit _ _ ?_) rfl rfl hg) ?_
  · omega
  · exact fun _ _ h => ⟨h.1, h.2.1⟩

theorem mambaRemoveBlocksInRange_nulls {last : ℕ} (hg : Owned o g) (hlast : last ≤ limit) :
    wp (mambaRemoveBlocksInRange r 0 last) (fun _ g' => Owned o g' ∧ Nulled limit r g g') never g := by
  unfold mambaRemoveBlocksInRange
  simp only [wp_bind, wp_get]
  rw [wp_runIf]
  refine ⟨fun hlt => ?_, fun _ => ⟨hg, Nulled.refl limit r g⟩⟩
  rw [wp_bind, wp_setRow, wp_bind]
  refine wp_imp (freeBlocks_nulled (nullBackwardAll_takenOut (hg.isNull_iff.2 rfl) limit _ _ ?_) rfl rfl hg) ?_
  · omega
  · rintro _ g1 ⟨hown, hnull, hmgr⟩
    rw [wp_modifyMgr]
    refine ⟨hown.setTables rfl rfl, ⟨hnull.same, hnull.index, ?_, hnull.others, hnull.length,
      hnull.entries, hnull.refs, hnull.nullRef⟩⟩
    rw [hnull.tables]

/-- A column two steps back lies wholly below the last computed token. -/
theorem lastState_skipped {b p idx : ℕ} (hb : 0 < b) (h : idx + 1 < cdiv p b) : idx < (p - 1) / b := by
  have h1 : (idx + 2) * b ≤ p + b - 1 := (Nat.le_div_iff_mul_le hb).1 h
  refine (Nat.le_div_iff_mul_le hb).2 ?_
  have h2 : (idx + 2) * b = (idx + 1) * b + b := by ring
  rw [Nat.succ_eq_add_one]
  omega

theorem removeLastState_nulls {processed : ℕ} (hg : Owned o g) (hlimit : (processed - 1) / cfg.blockSize ≤ limit) :
    wp (cfg.removeLastState r processed) (fun _ g' => Owned o g' ∧ Nulled limit r g g') any g := by
  unfold removeLastState
  simp only [wp_bind, wp_get]
  split
  · exact ⟨hg, Nulled.refl limit r g⟩
  rename_i idx _
  rw [wp_runIf]
  refine ⟨fun hlt => ?_, fun _ => ⟨hg, Nulled.refl limit r g⟩⟩
  have hidx := lastState_skipped cfg.blockSize_pos hlt
  split
  · trivial
  rename_i block hblock
  rw [wp_runIf]
  refine ⟨fun hne => ?_, fun _ => ⟨hg, Nulled.refl limit r g⟩⟩
  -- freeing before nulling the entry ends in the same state as nulling it first
  have htaken : TakenOut g.pool.nullBlock limit (g.mgr.reqToBlocks r) [block]
      ((g.mgr.reqToBlocks r).set idx g.pool.nullBlock) :=
    TakenOut.cons hblock hne (by omega) (TakenOut.refl _ _ _)
  set row' := (g.mgr.reqToBlocks r).set idx g.pool.nullBlock
  set m' : ManagerState H := { g.mgr with reqToBlocks := Function.update g.mgr.reqToBlocks r row' }
  have hfree := freeBlocks_nulled htaken (show m'.reqToBlocks = _ from rfl) rfl hg
  rw [wp_runIf] at hfree
  have hfree' := hfree.1 (by simp)
  rw [wp_bind]
  rw [wp_onPool] at hfree' ⊢
  refine wp_mono hfree' ?_ (fun _ _ h => h.elim)
  rintro _ p' ⟨h1, h2, -⟩
  exact ⟨h1, h2⟩

/-- **`remove_skipped_blocks`** gives up blocks of one row that lie wholly below the window. -/
theorem removeSkippedBlocks_nulls {processed : ℕ} (hg : Owned o g) : wp (cfg.removeSkippedBlocks r processed)
      (fun _ g' => Owned o g' ∧ Nulled (cfg.numSkippedBlocks processed) r g g') any g := by
  unfold removeSkippedBlocks
  rw [wp_bind]
  -- the range below the window
  refine wp_mono (Q := fun _ g' => Owned o g' ∧ Nulled (cfg.numSkippedBlocks processed) r g g')
    (R := fun _ _ => False) ?_ ?_ (fun _ _ h => h.elim)
  · rw [wp_runIf]
    refine ⟨fun _ => ?_, fun _ => ⟨hg, Nulled.refl _ r g⟩⟩
    unfold removeBlocksInRange
    split
    · exact mambaRemoveBlocksInRange_nulls hg (min_le_left _ _)
    · exact baseRemoveBlocksInRange_nulls hg (min_le_left _ _)
  -- the state of two steps ago
  rintro _ g1 ⟨hown1, hnull1⟩
  split
  next hspec =>
    have hlimit : (processed - 1) / cfg.blockSize ≤ cfg.numSkippedBlocks processed := by
      simp [numSkippedBlocks, getNumSkippedTokens, hspec]
    refine wp_imp (removeLastState_nulls hown1 hlimit) ?_
    · rintro _ g2 ⟨hown2, hnull2⟩
      exact ⟨hown2, hnull1.trans hnull2⟩
  · exact ⟨hown1, hnull1⟩

/-! ## Whole rows -/

/-- **A popped row is in hand.** -/
theorem popBlocksForFree_owned (hg : Owned o g) : wp (cfg.popBlocksForFree r)
      (fun ret g' => Owned (fun b => o b + ret.count b) g' ∧ g'.pool = g.pool ∧
        ret = g.mgr.reqToBlocks r ∧ Untouched cfg g'.mgr r) never g := by
  -- whatever other tables are cleared on the way
  have hpop : ∀ m' : ManagerState H, m'.reqToBlocks = g.mgr.reqToBlocks → m'.pendingCowCopies = g.mgr.pendingCowCopies →
      (cfg.isMamba → m'.allocatedBlockReqs r = false) →
      wp (basePopBlocksForFree r) (fun ret g' => Owned (fun b => o b + ret.count b) g' ∧
        g'.pool = g.pool ∧ ret = g.mgr.reqToBlocks r ∧ Untouched cfg g'.mgr r)
        never { g with mgr := m' } := by
    intro m' hrows hcop halloc
    unfold basePopBlocksForFree
    simp only [wp_bind, wp_get]
    rw [wp_modifyMgr, wp_pure]
    refine ⟨hg.setMgr r (fun r' hr' => by simp [hr', hrows]) (fun b _ => ?_) (by simp) ?_, rfl,
      by rw [hrows], ⟨by simp, by simp, by simp, halloc⟩⟩
    · simp only [Function.update_self, hrows, hcop, count_nil]
      omega
    · simp only [hcop]; exact hg.copies
  unfold popBlocksForFree
  split
  next hspec =>
    rw [wp_bind, mambaForget, wp_modifyMgr]
    exact hpop _ rfl rfl fun _ => by simp
  rename_i hspec
  refine hpop g.mgr rfl rfl fun h => ?_
  unfold isMamba at h
  split at h
  next hs => exact absurd hs (hspec _ _ _)
  · exact absurd h (by simp)

theorem free_owned (hg : Owned o g) :
    wp (cfg.free r) (fun _ g' => Owned o g' ∧ SamePool g.pool g'.pool ∧ Untouched cfg g'.mgr r) never g := by
  unfold free
  rw [wp_bind]
  refine wp_imp (popBlocksForFree_owned hg) ?_
  rintro ret g1 ⟨hown1, hpool1, hret, huntouched⟩
  have hin : ∀ b ∈ ret.reverse, b ∈ poolBlocks g1.pool.numGpuBlocks := by
    intro b hb
    rw [hpool1]
    exact hg.rows r b (hret ▸ mem_reverse.1 hb)
  have hown1' : Owned (fun b => o b + ret.reverse.count b) g1 := by simpa using hown1
  refine wp_imp (freeBlocks_owned hown1' hin) ?_
  rintro _ g2 ⟨h1, h2, h3⟩
  exact ⟨h1, hpool1 ▸ h3, h2 ▸ huntouched⟩

end GroupConfig

end VllmRwkv
