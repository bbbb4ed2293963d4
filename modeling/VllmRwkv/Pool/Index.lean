import VllmRwkv.Pool.Frames

/-!
# The prefix-cache index

Three structures describe which block is cached under which key: the hash-to-block map, the
primary hash of every block, and its additional hashes. `IndexOK` says that they agree.

* `indexOK_call`: every call of the pool keeps `IndexOK`, also a call that raises half way.
* `getNewBlocks_unreachable`: a block handed out is reachable under no key.
-/

namespace VllmRwkv

open List Function BlockHashToBlockMap Raise

namespace BlockPool

section Frames

variable {H : Type}

/-- Everything but the index, the events and the reuse callbacks is the same. -/
structure SameRefs (p p' : BlockPool H) : Prop where
  refCnt : p'.refCnt = p.refCnt
  isNull : p'.isNull = p.isNull
  freeBlockQueue : p'.freeBlockQueue = p.freeBlockQueue
  nullBlock : p'.nullBlock = p.nullBlock
  numGpuBlocks : p'.numGpuBlocks = p.numGpuBlocks
  enableCaching : p'.enableCaching = p.enableCaching

theorem SameRefs.refl (p : BlockPool H) : SameRefs p p := ⟨rfl, rfl, rfl, rfl, rfl, rfl⟩

theorem SameRefs.trans {p p' p'' : BlockPool H} (h : SameRefs p p') (h' : SameRefs p' p'') : SameRefs p p'' :=
  ⟨h'.1.trans h.1, h'.2.trans h.2, h'.3.trans h.3, h'.4.trans h.4, h'.5.trans h.5, h'.6.trans h.6⟩

/-- The index is the same. -/
structure SameIndex (p p' : BlockPool H) : Prop where
  cachedBlockHashToBlock : p'.cachedBlockHashToBlock = p.cachedBlockHashToBlock
  blockHash : p'.blockHash = p.blockHash
  cachedBlockHashesByBlock : p'.cachedBlockHashesByBlock = p.cachedBlockHashesByBlock
  enableCaching : p'.enableCaching = p.enableCaching
  numGpuBlocks : p'.numGpuBlocks = p.numGpuBlocks

/-- **The index agrees.** The map holds a block under exactly the keys the block is recorded
under, additional hashes need a primary one, and only blocks of the pool have one. -/
structure IndexOK (p : BlockPool H) : Prop where
  mem_iff : ∀ key block, block ∈ p.cachedBlockHashToBlock.blocks key ↔ key ∈ p.keysOf block
  primary : ∀ block, p.blockHash block = none → p.cachedBlockHashesByBlock block = []
  inPool : ∀ block, p.blockHash block ≠ none → block ∈ poolBlocks p.numGpuBlocks

variable {p p' p'' : BlockPool H} {block : KVCacheBlock}

theorem SameIndex.refl (p : BlockPool H) : SameIndex p p := ⟨rfl, rfl, rfl, rfl, rfl⟩

theorem SameIndex.trans (h : SameIndex p p') (h' : SameIndex p' p'') : SameIndex p p'' :=
  ⟨h'.1.trans h.1, h'.2.trans h.2, h'.3.trans h.3, h'.4.trans h.4, h'.5.trans h.5⟩

theorem SameIndex.keysOf (h : SameIndex p p') : p'.keysOf block = p.keysOf block := by
  unfold BlockPool.keysOf; rw [h.blockHash, h.cachedBlockHashesByBlock]

theorem SameIndex.indexOK (h : SameIndex p p') (hp : IndexOK p) : IndexOK p' := by
  refine ⟨fun key block => ?_, fun block hb => ?_, fun block hb => ?_⟩
  · rw [h.cachedBlockHashToBlock, h.keysOf]; exact hp.mem_iff key block
  · rw [h.cachedBlockHashesByBlock]; exact hp.primary block (h.blockHash ▸ hb)
  · rw [h.numGpuBlocks]; exact hp.inPool block (h.blockHash ▸ hb)

/-- The index agrees, and only blocks of `S`, which are blocks of the pool, may have gained a key
since `p0`. -/
structure IndexWithin (S : Set KVCacheBlock) (p0 p : BlockPool H) : Prop where
  ok : IndexOK p
  keys : ∀ b, b ∉ S → ∀ k ∈ p.keysOf b, k ∈ p0.keysOf b
  sub : ∀ b ∈ S, b ∈ poolBlocks p.numGpuBlocks
  num : p.numGpuBlocks = p0.numGpuBlocks
  caching : p.enableCaching = p0.enableCaching

variable {S : Set KVCacheBlock} {p0 : BlockPool H}

theorem IndexOK.within (hp : IndexOK p) (hsub : ∀ b ∈ S, b ∈ poolBlocks p.numGpuBlocks) : IndexWithin S p p :=
  ⟨hp, fun _ _ _ hk => hk, hsub, rfl, rfl⟩

theorem IndexWithin.of_same (hp : IndexWithin S p0 p) (h : SameIndex p p') : IndexWithin S p0 p' :=
  ⟨h.indexOK hp.ok, fun b hb k hk => hp.keys b hb k (h.keysOf ▸ hk), h.numGpuBlocks ▸ hp.sub,
    h.numGpuBlocks.trans hp.num, h.enableCaching.trans hp.caching⟩

theorem notifyReuse_spec {bs : List KVCacheBlock} :
    wp (notifyReuse bs) (fun _ p' => SameIndex p p' ∧ SameRefs p p') never p := by
  refine wp_forM (fun _ p' => SameIndex p p' ∧ SameRefs p p') (fun b _ p' hp' => ?_) ⟨SameIndex.refl p, SameRefs.refl p⟩
  rw [wp_modify]
  split
  · exact hp'
  · exact ⟨hp'.1.trans ⟨rfl, rfl, rfl, rfl, rfl⟩, hp'.2.trans ⟨rfl, rfl, rfl, rfl, rfl, rfl⟩⟩

theorem indexWithin_refOps : RefOps (IndexWithin S p0) :=
  ⟨fun _ _ _ _ _ hp => hp.of_same ⟨rfl, rfl, rfl, rfl, rfl⟩⟩

end Frames

variable {H : Type} [DecidableEq H]
  {p p' p0 : BlockPool H} {block b : KVCacheBlock} {key k : BlockHashWithGroupId H} {S : Set KVCacheBlock}

/-! ## Removing and inserting keys -/

theorem mem_popKeys {keys : List (BlockHashWithGroupId H)} {m : BlockHashToBlockMap H} :
    b ∈ (popKeys block keys m).2.blocks k ↔ b ∈ m.blocks k ∧ ¬ (k ∈ keys ∧ b = block) := by
  induction keys generalizing m with
  | nil => simp [popKeys]
  | cons key keys ih =>
    simp only [popKeys, ih, mem_pop, mem_cons]
    tauto

/-- `_remove_cached_block_hashes` never raises, takes the block out of every entry it is recorded
under and forgets its hashes. -/
theorem removeCachedBlockHashes_spec : wp (removeCachedBlockHashes block)
      (fun ret p' => ret = (popKeys block (p.keysOf block) p.cachedBlockHashToBlock).1 ∧
        p'.cachedBlockHashToBlock = (popKeys block (p.keysOf block) p.cachedBlockHashToBlock).2 ∧
        p'.blockHash = update p.blockHash block none ∧
        p'.cachedBlockHashesByBlock = update p.cachedBlockHashesByBlock block [] ∧ SameRefs p p')
      never p := by
  unfold removeCachedBlockHashes
  simp only [wp_bind, wp_get, wp_modify]
  by_cases hk : (p.keysOf block).length = 0
  · have hnil : p.keysOf block = [] := length_eq_zero_iff.1 hk
    have hnone : p.blockHash block = none := by
      unfold keysOf at hnil; simpa using (append_eq_nil_iff.1 hnil).1
    simp only [hnil, popKeys]
    refine ⟨rfl, rfl, ?_, rfl, ⟨rfl, rfl, rfl, rfl, rfl, rfl⟩⟩
    rw [← hnone, update_eq_self]
  · simp only [hk, if_false, wp_bind, wp_modify, wp_pure]
    exact ⟨trivial, rfl, rfl, rfl, ⟨rfl, rfl, rfl, rfl, rfl, rfl⟩⟩

theorem removeCachedBlockHashes_within (hp : IndexWithin S p0 p) : wp (removeCachedBlockHashes block)
      (fun _ p' => IndexWithin S p0 p' ∧ p'.keysOf block = [] ∧ ∀ b, b ≠ block → p'.keysOf b = p.keysOf b)
      never p := by
  refine wp_imp removeCachedBlockHashes_spec ?_
  rintro _ p' ⟨-, hmap, hhash, hsec, hrefs⟩
  have hself : p'.keysOf block = [] := by simp [keysOf, hhash, hsec]
  have hother : ∀ b, b ≠ block → p'.keysOf b = p.keysOf b := by
    intro b hb; simp [keysOf, hhash, hsec, hb]
  refine ⟨⟨⟨fun key b => ?_, fun b hb => ?_, fun b hb => ?_⟩, fun b hb k hk => ?_,
    hrefs.numGpuBlocks ▸ hp.sub, hrefs.numGpuBlocks.trans hp.num,
    hrefs.enableCaching.trans hp.caching⟩, hself, hother⟩
  · rw [hmap, mem_popKeys, hp.ok.mem_iff]
    by_cases hbb : b = block
    · subst hbb; simp [hself]
    · simp [hbb, hother b hbb]
  · by_cases hbb : b = block
    · subst hbb; simp [hsec]
    · rw [hsec, update_of_ne hbb]
      rw [hhash, update_of_ne hbb] at hb
      exact hp.ok.primary b hb
  · rw [hrefs.numGpuBlocks]
    refine hp.ok.inPool b fun h => hb ?_
    rw [hhash]
    by_cases hbb : b = block
    · subst hbb; simp
    · rwa [update_of_ne hbb]
  · by_cases hbb : b = block
    · subst hbb; simp [hself] at hk
    · exact hp.keys b hb k (hother b hbb ▸ hk)

theorem insertBlockHash_within {n : Option ℕ} (hS : block ∈ S) (hp : IndexWithin S p0 p) :
    wp (insertBlockHash key block n) (fun _ p' => IndexWithin S p0 p') (fun _ p' => p' = p) p := by
  unfold insertBlockHash
  simp only [wp_bind, wp_get]
  -- the two early returns: the key is recorded already
  by_cases h1 : p.blockHash block = some key
  · simpa [h1] using hp
  by_cases h2 : p.cachedBlockHashToBlock.contain key block
  · simpa [h1, h2] using hp
  -- what is left to show for either way of recording the key on the block
  have key_lemma : ∀ p' : BlockPool H, p'.cachedBlockHashToBlock = p.cachedBlockHashToBlock.insert key block →
      (∀ b k, k ∈ p'.keysOf b ↔ k ∈ p.keysOf b ∨ (k = key ∧ b = block)) →
      (∀ b, p'.blockHash b = none → p'.cachedBlockHashesByBlock b = []) →
      (∀ b, b ≠ block → p'.blockHash b = p.blockHash b) → p'.numGpuBlocks = p.numGpuBlocks →
      p'.enableCaching = p.enableCaching → IndexWithin S p0 p' := by
    intro p' hmap hkeys hprim hne hnum hcach
    refine ⟨⟨fun k b => ?_, hprim, fun b hb => ?_⟩, fun b hb k hk => ?_, hnum ▸ hp.sub,
      hnum.trans hp.num, hcach.trans hp.caching⟩
    · rw [hmap, mem_insert, hkeys, hp.ok.mem_iff]
    · rw [hnum]
      by_cases hbb : b = block
      · exact hbb ▸ hp.sub block hS
      · exact hp.ok.inPool b (hne b hbb ▸ hb)
    · rcases (hkeys b k).1 hk with hk | ⟨-, rfl⟩
      · exact hp.keys b hb k hk
      · exact absurd hS hb
  simp only [h1, h2, if_false, Bool.false_eq_true, wp_bind]
  rw [wp_runIf]
  refine ⟨fun h3 => ?_, fun h3 => ?_⟩
  · have hsec := hp.ok.primary block h3
    simp only [setBlockHash, wp_bind, wp_get]
    rw [wp_check]
    refine ⟨fun _ => ?_, fun _ => rfl⟩
    rw [wp_modify, wp_bind, wp_runIf]
    refine ⟨fun h => absurd h3 h, fun _ => ?_⟩
    refine key_lemma _ rfl (fun b k => ?_) (fun b hb => ?_) (fun b hb => ?_) rfl rfl
    · by_cases hbb : b = block
      · subst hbb; simp [keysOf, h3, hsec, eq_comm]
      · simp [keysOf, hbb]
    · by_cases hbb : b = block
      · subst hbb; exact hsec
      · exact hp.ok.primary b (by simpa [hbb] using hb)
    · exact update_of_ne hb _ _
  · rw [wp_bind, wp_runIf]
    refine ⟨fun _ => ?_, fun h => absurd h3 h⟩
    refine key_lemma _ rfl (fun b k => ?_) (fun b hb => ?_) (fun b hb => ?_) rfl rfl
    · by_cases hbb : b = block
      · subst hbb
        by_cases hm : key ∈ p.cachedBlockHashesByBlock b
        · simp only [keysOf, hm, if_true, update_self, mem_append, and_true]
          constructor
          · exact .inl
          · rintro (h | rfl)
            · exact h
            · exact .inr hm
        · simp [keysOf, hm, or_assoc]
      · simp [keysOf, hbb]
    · have hbb : b ≠ block := by rintro rfl; exact h3 hb
      simpa [hbb] using hp.ok.primary b hb
    · rfl

/-! ## Every function of the pool keeps the index -/

theorem indexWithin_hashOps : HashOps (IndexWithin S p0) S where
  remove _ _ hp := wp_mono (removeCachedBlockHashes_within hp) (fun _ _ h => h.1) (fun _ _ h => h.elim)
  insert _ _ _ hS _ hp := wp_mono (insertBlockHash_within hS hp) (fun _ _ h => h) (fun _ _ h => h ▸ hp)
  events _ _ hp := hp.of_same ⟨rfl, rfl, rfl, rfl, rfl⟩

theorem sameRefs_hashOps : HashOps (SameRefs p0) Set.univ where
  remove _ _ hp := wp_mono removeCachedBlockHashes_spec (fun _ _ h => hp.trans h.2.2.2.2) (fun _ _ h => h.elim)
  insert key block n _ := by
    refine keeps_bind keeps_get fun p => ?_
    split
    · exact keeps_pure
    split
    · exact keeps_pure
    refine keeps_bind (keeps_runIf fun _ => ?_) fun _ => keeps_bind (keeps_runIf fun _ => ?_) fun _ => ?_
    · refine keeps_bind keeps_get fun _ => keeps_bind keeps_check fun _ => keeps_modify fun p hp => ?_
      exact hp.trans ⟨rfl, rfl, rfl, rfl, rfl, rfl⟩
    · exact keeps_modify fun p hp => hp.trans ⟨rfl, rfl, rfl, rfl, rfl, rfl⟩
    · exact keeps_modify fun p hp => hp.trans ⟨rfl, rfl, rfl, rfl, rfl, rfl⟩
  events _ _ hp := hp.trans ⟨rfl, rfl, rfl, rfl, rfl, rfl⟩

omit [DecidableEq H] in
theorem foldl_resetHash (p : BlockPool H) (bs : List KVCacheBlock) : let p' := bs.foldl (fun p b => resetHash b p) p
    (∀ b, p'.blockHash b = if b ∈ bs then none else p.blockHash b) ∧
      p'.cachedBlockHashToBlock = p.cachedBlockHashToBlock ∧
      p'.cachedBlockHashesByBlock = p.cachedBlockHashesByBlock ∧ SameRefs p p' := by
  induction bs generalizing p with
  | nil => exact ⟨by simp, rfl, rfl, SameRefs.refl p⟩
  | cons c bs ih =>
    obtain ⟨h1, h2, h3, h4⟩ := ih (resetHash c p)
    have hc : SameRefs p (resetHash c p) := ⟨rfl, rfl, rfl, rfl, rfl, rfl⟩
    refine ⟨fun b => ?_, h2, h3, hc.trans h4⟩
    rw [foldl_cons, h1]
    by_cases hb : b = c
    · subst hb; simp [resetHash]
    · simp [resetHash, hb]

theorem resetPrefixCache_within : Keeps (IndexWithin S p0) resetPrefixCache := by
  intro p hp
  unfold resetPrefixCache
  simp only [wp_bind, wp_get]
  split
  · exact hp
  simp only [wp_bind, wp_modify]
  refine wp_mono notifyReuse_spec ?_ (fun _ _ h => h.elim)
  rintro _ p1 ⟨hidx, hrefs⟩
  obtain ⟨h1, h2, h3, h4⟩ := foldl_resetHash p1 (poolBlocks p1.numGpuBlocks)
  set p2 := (poolBlocks p1.numGpuBlocks).foldl (fun p b => resetHash b p) p1
  have hnum := h4.numGpuBlocks.trans hrefs.numGpuBlocks
  have hnone : ∀ b, p2.blockHash b = none := by
    intro b
    rw [h1]
    split_ifs with hb
    · rfl
    rw [hrefs.numGpuBlocks] at hb
    rw [hidx.blockHash]
    by_contra hne
    exact hb (hp.ok.inPool b hne)
  have hkeys : ∀ b, p2.keysOf b = [] := by
    intro b; simp [keysOf, hnone b, h3, hidx.cachedBlockHashesByBlock]
  have hp2' : IndexWithin S p0 p2 := by
    refine ⟨⟨fun key b => ?_, fun b _ => ?_, fun b hb => absurd (hnone b) hb⟩, fun b _ k hk => ?_,
      hnum ▸ hp.sub, hnum.trans hp.num, (h4.enableCaching.trans hrefs.enableCaching).trans hp.caching⟩
    · rw [h2, hidx.cachedBlockHashToBlock, hkeys]
      simp [blocks, empty]
    · rw [h3, hidx.cachedBlockHashesByBlock]
    · rw [hkeys] at hk; simp at hk
  exact keeps_bind (keeps_runIf fun _ => indexWithin_hashOps.pushEvent) (fun _ => keeps_pure) p2 hp2'

omit [DecidableEq H] in
theorem resetPrefixCache_refs : Keeps (SameRefs p0) resetPrefixCache := by
  refine keeps_bind keeps_get fun p => ?_
  split
  · exact keeps_pure
  refine keeps_bind (keeps_modify fun p hp => hp.trans ⟨rfl, rfl, rfl, rfl, rfl, rfl⟩) fun _ => ?_
  refine keeps_bind (fun p hp => wp_mono notifyReuse_spec (fun _ _ h => hp.trans h.2) (fun _ _ h => h.elim)) fun _ => ?_
  refine keeps_bind (keeps_modify fun p hp => hp.trans (foldl_resetHash _ _).2.2.2) fun _ => ?_
  refine keeps_bind (keeps_runIf fun _ => keeps_modify fun p hp => ?_) fun _ => keeps_pure
  exact hp.trans ⟨rfl, rfl, rfl, rfl, rfl, rfl⟩

/-! ## Evicting blocks -/

theorem maybeEvictCachedBlock_within (hp : IndexWithin S p0 p) : wp (maybeEvictCachedBlock block)
      (fun _ p' => IndexWithin S p0 p' ∧ p'.keysOf block = [] ∧ ∀ b, b ≠ block → p'.keysOf b = p.keysOf b)
      never p := by
  unfold maybeEvictCachedBlock
  rw [wp_bind]
  refine wp_imp (removeCachedBlockHashes_within hp) ?_
  rintro keys p1 ⟨h1, h2, h3⟩
  split
  · exact ⟨h1, h2, h3⟩
  simp only [wp_bind, wp_pure, emitBlockRemovedEvents, wp_modify]
  -- the events are not part of the index
  split
  · exact ⟨h1.of_same ⟨rfl, rfl, rfl, rfl, rfl⟩, h2, h3⟩
  · exact ⟨h1, h2, h3⟩

/-- Evicting blocks takes all their keys out of the index, and no others. -/
theorem evictBlocks_keysOf (hp : IndexOK p) {ids : List ℕ} (hids : ∀ i ∈ ids, i < p.numGpuBlocks) : wp (evictBlocks ids)
      (fun _ p' => IndexOK p' ∧ ∀ b, p'.keysOf b = if b ∈ ids.map .block then [] else p.keysOf b)
      never p := by
  refine wp_imp (wp_forM (fun rest p' => ∃ done, ids = done ++ rest ∧ IndexWithin ∅ p p' ∧
    ∀ b, p'.keysOf b = if b ∈ done.map .block then [] else p.keysOf b) ?_ ?_) ?_
  · rintro i rest p' ⟨done, rfl, hw, hkeys⟩
    rw [wp_get_bind, wp_bind, wp_check]
    refine ⟨fun _ => ?_, fun hlt => hlt (hw.num ▸ hids i (by simp))⟩
    rw [wp_bind]
    refine wp_imp (maybeEvictCachedBlock_within hw) ?_
    rintro _ p'' ⟨hw', hself, hother⟩
    refine ⟨done ++ [i], by simp, hw', fun b => ?_⟩
    by_cases hb : b = .block i
    · rw [hb, hself, if_pos (by simp)]
    · rw [hother b hb, hkeys b]
      simp [hb]
  · exact ⟨[], rfl, ⟨hp, fun b _ k hk => hk, fun b hb => hb.elim, rfl, rfl⟩, fun b => by simp⟩
  · rintro _ p' ⟨done, hdone, hw, hkeys⟩
    rw [append_nil] at hdone
    exact ⟨hw.ok, hdone ▸ hkeys⟩

/-! ## Blocks handed out -/

theorem takeBlock_spec (hp : IndexWithin S p0 p) (hc : p.enableCaching) : wp (takeBlock block)
      (fun _ p' => (IndexWithin S p0 p' ∧ p'.enableCaching) ∧ p'.keysOf block = [] ∧
        ∀ b, b ≠ block → p'.keysOf b = p.keysOf b) any p := by
  unfold takeBlock
  simp only [wp_bind, wp_get]
  rw [wp_runIf]
  refine ⟨fun _ => ?_, fun h => absurd hc h⟩
  rw [wp_bind]
  refine wp_any (maybeEvictCachedBlock_within hp) ?_
  rintro _ p1 ⟨h1, h2, h3⟩
  rw [wp_pure, wp_get_bind]
  refine wp_check_bind fun _ => ?_
  -- counting the reference does not touch the index
  have hsame : SameIndex p1 { p1 with
      refCnt := update p1.refCnt block (p1.refCnt block + 1) } := ⟨rfl, rfl, rfl, rfl, rfl⟩
  exact ⟨⟨h1.of_same hsame, (h1.caching.trans hp.caching.symm).trans hc⟩, hsame.keysOf.trans h2,
    fun b hb => hsame.keysOf.trans (h3 b hb)⟩

/-- **A block handed out is recorded under no key.** -/
theorem getNewBlocks_keysOf {n : ℕ} (hp : IndexWithin S p0 p) (hc : p.enableCaching) :
    wp (getNewBlocks n) (fun ret p' => ∀ b ∈ ret, p'.keysOf b = []) any p := by
  unfold getNewBlocks
  simp only [wp_bind, wp_get]
  rw [wp_check]
  refine ⟨fun _ => ?_, fun _ => trivial⟩
  simp only [wp_bind, wp_onQueue]
  refine wp_imp wp_trivial (fun ret q _ => ?_)
  refine wp_mono notifyReuse_spec ?_ (fun _ _ h => h.elim)
  rintro _ p1 ⟨hidx, -⟩
  -- the blocks already visited by the loop have no key left
  rw [wp_bind]
  refine wp_imp (wp_forM (fun rest p' =>
      (IndexWithin S p0 p' ∧ p'.enableCaching) ∧ ∀ b ∈ ret, b ∉ rest → p'.keysOf b = []) ?_ ?_) ?_
  rotate_left 2
  · exact fun _ p' hp' b hb => hp'.2 b hb (by simp)
  · rintro x rest p' ⟨⟨h1, h2⟩, h3⟩
    refine wp_imp (takeBlock_spec h1 h2) (fun _ p'' h => ⟨h.1, fun b hb hr => ?_⟩)
    by_cases hbx : b = x
    · exact hbx ▸ h.2.1
    · rw [h.2.2 b hbx]
      exact h3 b hb (by simp [hbx, hr])
  · refine ⟨⟨hp.of_same ⟨hidx.1, hidx.2, hidx.3, hidx.4, hidx.5⟩, ?_⟩, fun b hb hn =>
      absurd hb hn⟩
    exact hidx.enableCaching.trans hc

end BlockPool

end VllmRwkv
