import VllmRwkv.Pool.Run
import VllmRwkv.Lib.Dict

/-!
# Replaying the KV cache events

A consumer keeps one counter per group and hash: a `BlockStored` event raises the counters of its
hashes, a `BlockRemoved` event lowers them, and `AllBlocksCleared` sets all of them to zero.

`Tracked D taken off p`: the counters, after the events delivered and those still in the queue, are
`off` short of the number of blocks registered under each key, and if `D` they were never negative.
Inside a call `off` is what has been registered and not yet announced; between calls it is zero.
-/

namespace VllmRwkv

open List BlockHashToBlockMap Raise Relation BlockPool

variable {H : Type} [DecidableEq H]

/-! ## The consumer -/

/-- One event, applied to the counters. -/
def KVCacheEvent.apply (counter : BlockHashWithGroupId H → ℤ) (event : KVCacheEvent H)
    (key : BlockHashWithGroupId H) : ℤ :=
  match event with
  | .blockStored hashes _ _ _ g => counter key + (hashes.map (makeBlockHashWithGroupId · g)).count key
  | .blockRemoved hashes g => counter key - (hashes.map (makeBlockHashWithGroupId · g)).count key
  | .allBlocksCleared => 0

section

variable (events : List (KVCacheEvent H))

/-- The counters after a sequence of events. -/
def replay : BlockHashWithGroupId H → ℤ :=
  events.foldl KVCacheEvent.apply fun _ => 0

/-- No counter is ever negative. -/
def NeverNegative : Prop :=
  ∀ n key, 0 ≤ replay (events.take n) key

theorem replay_concat (event : KVCacheEvent H) : replay (events ++ [event]) = event.apply (replay events) := by
  unfold replay
  rw [foldl_append]
  rfl

end

theorem NeverNegative.concat {events : List (KVCacheEvent H)} {event : KVCacheEvent H}
    (h : NeverNegative events) (hlast : ∀ key, 0 ≤ replay (events ++ [event]) key) :
    NeverNegative (events ++ [event]) := by
  intro n key
  rcases lt_or_ge events.length n with hlt | hge
  · rw [take_of_length_le (by rw [length_append, length_singleton]; omega)]
    exact hlast key
  · rw [take_append_of_le_length hge]
    exact h n key

/-- A run of `BlockRemoved` events, one for each key. -/
def removals (keys : List (BlockHashWithGroupId H)) : List (KVCacheEvent H) :=
  keys.map fun key => .blockRemoved [key.blockHash] key.groupId

theorem replay_removals (events : List (KVCacheEvent H)) (keys : List (BlockHashWithGroupId H))
    (k : BlockHashWithGroupId H) : replay (events ++ removals keys) k = replay events k - keys.count k := by
  induction keys generalizing events with
  | nil => simp [removals]
  | cons key keys ih =>
    have hsplit : events ++ removals (key :: keys) =
        events ++ [.blockRemoved [key.blockHash] key.groupId] ++ removals keys := by
      rw [append_assoc]
      rfl
    rw [hsplit, ih, replay_concat, count_cons]
    show replay events k - ([key].count k : ℕ) - (keys.count k : ℕ) = _
    rw [count_singleton]
    omega

/-- The counters only fall along such a run, so it is enough to look at its end. -/
theorem NeverNegative.removals {events : List (KVCacheEvent H)} {keys : List (BlockHashWithGroupId H)}
    (h : NeverNegative events) (hend : ∀ k, 0 ≤ replay events k - keys.count k) :
    NeverNegative (events ++ removals keys) := by
  induction keys generalizing events with
  | nil =>
    show NeverNegative (events ++ [])
    rw [append_nil]
    exact h
  | cons key keys ih =>
    have hstep (k : BlockHashWithGroupId H) :
        replay (events ++ VllmRwkv.removals [key]) k = replay events k - [key].count k :=
      replay_removals events [key] k
    have hsplit : events ++ VllmRwkv.removals (key :: keys) =
        events ++ VllmRwkv.removals [key] ++ VllmRwkv.removals keys := by
      rw [append_assoc]
      rfl
    rw [hsplit]
    refine ih (h.concat fun k => ?_) fun k => ?_
    · have hk := hend k
      rw [count_cons] at hk
      show 0 ≤ replay (events ++ VllmRwkv.removals [key]) k
      rw [hstep, count_singleton]
      omega
    · have hk := hend k
      rw [count_cons] at hk
      rw [hstep, count_singleton]
      omega

/-! ## The pool keeps the counters right -/

namespace BlockPool

/-- The number of blocks of the pool that are registered under a key. -/
def registered (p : BlockPool H) (key : BlockHashWithGroupId H) : ℕ :=
  (poolBlocks p.numGpuBlocks).countP fun b => key ∈ p.keysOf b

structure Tracked (D : Prop) (taken : List (KVCacheEvent H)) (off : BlockHashWithGroupId H → ℤ)
    (p : BlockPool H) : Prop where
  index : IndexOK p
  enabled : p.enableKvCacheEvents
  nonneg : D → NeverNegative (taken ++ p.kvEventQueue)
  counter : ∀ key, replay (taken ++ p.kvEventQueue) key + off key = p.registered key

variable {D : Prop} {taken : List (KVCacheEvent H)} {off : BlockHashWithGroupId H → ℤ} {p p' : BlockPool H}
  {block : KVCacheBlock} {key : BlockHashWithGroupId H}
  {keys : List (BlockHashWithGroupId H)} {n : ℕ} {mask : Option (List Bool)}
  {request : HashedTokens H}

theorem Tracked.within (hp : Tracked D taken off p) : IndexWithin { b | b ∈ poolBlocks p.numGpuBlocks } p p :=
  hp.index.within fun _ hb => hb

theorem tracked_refOps : RefOps (Tracked D taken off) where
  refs := fun _ _ _ _ _ h =>
    ⟨⟨h.index.mem_iff, h.index.primary, h.index.inPool⟩, h.enabled, h.nonneg, h.counter⟩

omit [DecidableEq H] in
theorem mem_poolBlocks_of_keysOf (hp : IndexOK p) (hk : key ∈ p.keysOf block) : block ∈ poolBlocks p.numGpuBlocks := by
  refine hp.inPool block fun hnone => ?_
  unfold keysOf at hk
  rw [hnone, hp.primary block hnone] at hk
  exact not_mem_nil hk

/-- What removing the keys of one block does to the numbers of blocks registered. -/
theorem registered_remove (hp : IndexOK p) (hnum : p'.numGpuBlocks = p.numGpuBlocks)
    (hself : p'.keysOf block = []) (hother : ∀ b, b ≠ block → p'.keysOf b = p.keysOf b)
    (k : BlockHashWithGroupId H) : p'.registered k + (if k ∈ p.keysOf block then 1 else 0) = p.registered k := by
  unfold registered
  rw [hnum]
  by_cases hk : k ∈ p.keysOf block
  · have hcount := (poolBlocks_nodup p.numGpuBlocks).countP_agree_off (mem_poolBlocks_of_keysOf hp hk)
      (fun b => decide (k ∈ p.keysOf b)) (fun b => decide (k ∈ p'.keysOf b))
      fun b hb => by rw [hother b hb]
    simpa [hself, hk] using hcount
  rw [if_neg hk, add_zero]
  refine countP_congr fun b _ => ?_
  by_cases hb : b = block
  · subst hb
    simp [hself, hk]
  · rw [hother b hb]

theorem registered_insert (hnum : p'.numGpuBlocks = p.numGpuBlocks) (hin : block ∈ poolBlocks p.numGpuBlocks)
    (hkeys : ∀ b k, k ∈ p'.keysOf b ↔ k ∈ p.keysOf b ∨ (k = key ∧ b = block)) (k : BlockHashWithGroupId H) :
    p'.registered k = p.registered k + if k = key ∧ key ∉ p.keysOf block then 1 else 0 := by
  have hcount := (poolBlocks_nodup p.numGpuBlocks).countP_agree_off hin
    (fun b => decide (k ∈ p.keysOf b)) (fun b => decide (k ∈ p'.keysOf b))
    fun b hb => by simp [hkeys, hb]
  unfold registered
  rw [hnum]
  by_cases hk : k = key
  · subst hk
    by_cases hold : k ∈ p.keysOf block <;> simpa [hkeys, hold] using hcount
  · simp [hkeys, hk]

/-! ### The two primitive writes -/

/-- The events are as they were. -/
def SameEvents (p p' : BlockPool H) : Prop :=
  p'.kvEventQueue = p.kvEventQueue ∧ p'.enableKvCacheEvents = p.enableKvCacheEvents ∧ p'.isNull = p.isNull

omit [DecidableEq H] in
theorem sameEvents_refl (p : BlockPool H) : SameEvents p p := ⟨rfl, rfl, rfl⟩

theorem count_popKeys {m : BlockHashToBlockMap H} (k : BlockHashWithGroupId H) :
    (popKeys block keys m).1.count k = if k ∈ keys ∧ block ∈ m.blocks k then 1 else 0 := by
  induction keys generalizing m with
  | nil => simp [popKeys]
  | cons key keys ih =>
    have hpop : block ∈ (m.pop key block).2.blocks k ↔ block ∈ m.blocks k ∧ k ≠ key := by
      rw [mem_pop]
      simp
    unfold popKeys
    dsimp only
    by_cases hsome : (m.pop key block).1.isSome
    · have hin := pop_isSome.1 hsome
      rw [if_pos hsome, count_cons, ih]
      simp only [hpop, mem_cons]
      by_cases hk : k = key
      · subst hk
        simp [hin]
      · have hne : ¬ key = k := fun h => hk h.symm
        simp [hk, hne]
    have hout : block ∉ m.blocks key := fun h => hsome (pop_isSome.2 h)
    rw [if_neg hsome, ih]
    simp only [hpop, mem_cons]
    by_cases hk : k = key
    · subst hk
      simp [hout]
    · simp [hk]

theorem removeCachedBlockHashes_events : wp (removeCachedBlockHashes block) (fun _ p' => SameEvents p p') never p := by
  unfold removeCachedBlockHashes
  simp only [wp_bind, wp_get, wp_modify]
  split <;> exact ⟨rfl, rfl, rfl⟩

/-- The keys a removal returns are those of the block, each once, and they are no longer counted. -/
theorem removeCachedBlockHashes_tracked (hp : Tracked D taken off p) : wp (removeCachedBlockHashes block) (fun ret p' =>
      Tracked D taken (fun k => off k - ret.count k) p' ∧ p'.keysOf block = [] ∧
      (∀ b, b ≠ block → p'.keysOf b = p.keysOf b) ∧ (∀ k, ret.count k = if k ∈ p.keysOf block then 1 else 0) ∧
      p'.numGpuBlocks = p.numGpuBlocks ∧ SameEvents p p') never p := by
  refine wp_mono (wp_and (wp_and removeCachedBlockHashes_spec (removeCachedBlockHashes_within hp.within))
    removeCachedBlockHashes_events) (fun ret p' h => ?_) (fun _ _ h => h.2)
  obtain ⟨⟨⟨hret, -, -, -, hrefs⟩, hindex, hself, hother⟩, hevents⟩ := h
  have hcount (k : BlockHashWithGroupId H) : ret.count k = if k ∈ p.keysOf block then 1 else 0 := by
    rw [hret, count_popKeys]
    simp only [hp.index.mem_iff, and_self]
  refine ⟨⟨hindex.ok, hevents.2.1.trans hp.enabled, hevents.1.symm ▸ hp.nonneg, fun k => ?_⟩, hself,
    hother, hcount, hrefs.numGpuBlocks, hevents⟩
  have hold := hp.counter k
  have hreg := registered_remove hp.index hrefs.numGpuBlocks hself hother k
  rw [hevents.1, hcount k]
  split at hreg <;> rename_i hk <;> simp only [hk, if_true, if_false] <;> omega

/-- An insertion adds the key to the block, unless it raises. -/
theorem insertBlockHash_keysOf {n : Option ℕ} (hp : IndexOK p) : wp (insertBlockHash key block n) (fun _ p' =>
      (∀ b k, k ∈ p'.keysOf b ↔ k ∈ p.keysOf b ∨ (k = key ∧ b = block)) ∧
      p'.numGpuBlocks = p.numGpuBlocks ∧ SameEvents p p') any p := by
  unfold insertBlockHash
  rw [wp_get_bind]
  have hdone (hin : key ∈ p.keysOf block) (b : KVCacheBlock) (k : BlockHashWithGroupId H) :
      k ∈ p.keysOf b ↔ k ∈ p.keysOf b ∨ (k = key ∧ b = block) := by
    constructor
    · exact .inl
    · rintro (h | ⟨rfl, rfl⟩)
      · exact h
      · exact hin
  split
  next hprimary => exact ⟨hdone (by simp [keysOf, hprimary]), rfl, sameEvents_refl p⟩
  split
  next hcontain =>
    rw [contain_iff, hp.mem_iff] at hcontain
    exact ⟨hdone hcontain, rfl, sameEvents_refl p⟩
  rw [wp_bind, wp_runIf]
  constructor
  · intro hnone
    unfold setBlockHash
    rw [wp_get_bind]
    refine wp_check_bind fun _ => ?_
    rw [wp_modify, wp_bind, wp_runIf]
    refine ⟨fun h => absurd hnone h, fun _ => ?_⟩
    refine ⟨fun b k => ?_, rfl, rfl, rfl, rfl⟩
    have hsec := hp.primary block hnone
    by_cases hb : b = block
    · subst hb
      simp [keysOf, hnone, hsec, eq_comm]
    · simp [keysOf, hb]
  · intro hsome
    rw [wp_bind, wp_runIf]
    refine ⟨fun _ => ?_, fun h => absurd hsome h⟩
    refine ⟨fun b k => ?_, rfl, rfl, rfl, rfl⟩
    by_cases hb : b = block
    · subst hb
      by_cases hm : key ∈ p.cachedBlockHashesByBlock b
      · simp only [keysOf, hm, if_true, Function.update_self, mem_append, and_true]
        constructor
        · exact .inl
        · rintro (h | rfl)
          · exact h
          · exact .inr hm
      · simp [keysOf, hm, or_assoc]
    · simp [keysOf, hb]

section

variable (hp : Tracked D taken off p)

include hp

/-- A key that is new to its block is counted once more. -/
theorem insertBlockHash_tracked {n : Option ℕ} (hin : block ∈ poolBlocks p.numGpuBlocks) :
    wp (insertBlockHash key block n) (fun _ p' =>
      Tracked D taken (fun k => off k + if k = key ∧ key ∉ p.keysOf block then 1 else 0) p' ∧
      (∀ b k, k ∈ p'.keysOf b ↔ k ∈ p.keysOf b ∨ (k = key ∧ b = block)) ∧
      p'.numGpuBlocks = p.numGpuBlocks ∧ SameEvents p p') any p := by
  refine wp_any (wp_and (insertBlockHash_keysOf hp.index) (insertBlockHash_within hin hp.within)) (fun _ p' h => ?_)
  obtain ⟨⟨hkeys, hnum, hevents⟩, hindex⟩ := h
  refine ⟨⟨hindex.ok, hevents.2.1.trans hp.enabled, hevents.1.symm ▸ hp.nonneg, fun k => ?_⟩, hkeys, hnum, hevents⟩
  have hold := hp.counter k
  rw [hevents.1, registered_insert hnum hin hkeys k]
  split <;> push_cast <;> omega

theorem emitBlockRemovedEvents_tracked (hend : D → ∀ k, off k + keys.count k ≤ p.registered k) :
    wp (emitBlockRemovedEvents keys) (fun _ p' =>
      Tracked D taken (fun k => off k + keys.count k) p' ∧ (∀ b, p'.keysOf b = p.keysOf b) ∧
      p'.numGpuBlocks = p.numGpuBlocks ∧ p'.isNull = p.isNull) never p := by
  unfold emitBlockRemovedEvents
  rw [wp_modify, if_pos hp.enabled]
  refine ⟨⟨⟨hp.index.mem_iff, hp.index.primary, hp.index.inPool⟩, hp.enabled, ?_, fun k => ?_⟩, fun _ => rfl, rfl, rfl⟩
  · intro hd
    rw [← append_assoc]
    refine (hp.nonneg hd).removals fun k => ?_
    have hk := hp.counter k
    have hle := hend hd k
    omega
  · show replay (taken ++ (p.kvEventQueue ++ removals keys)) k + _ = _
    rw [← append_assoc, replay_removals]
    have hk := hp.counter k
    show _ = (p.registered k : ℤ)
    omega

theorem pushStored_tracked {hashes : List H} {parent : Option H} {tokens : List ℕ} {size g : ℕ} :
    wp (pushEvent (.blockStored hashes parent tokens size g)) (fun _ p' =>
      Tracked D taken (fun k => off k - (hashes.map (makeBlockHashWithGroupId · g)).count k) p') any p := by
  have hreplay (k : BlockHashWithGroupId H) :
      replay (taken ++ (p.kvEventQueue ++ [.blockStored hashes parent tokens size g])) k =
        replay (taken ++ p.kvEventQueue) k + (hashes.map (makeBlockHashWithGroupId · g)).count k := by
    rw [← append_assoc, replay_concat]
    rfl
  refine ⟨⟨hp.index.mem_iff, hp.index.primary, hp.index.inPool⟩, hp.enabled, ?_, fun k => ?_⟩
  · intro hd
    rw [← append_assoc]
    refine (hp.nonneg hd).concat fun k => ?_
    rw [append_assoc, hreplay]
    have hk := hp.nonneg hd (taken ++ p.kvEventQueue).length k
    rw [take_length] at hk
    omega
  · show replay (taken ++ (p.kvEventQueue ++ [_])) k + _ = (p.registered k : ℤ)
    rw [hreplay]
    have hk := hp.counter k
    omega

theorem Tracked.congr {off' : BlockHashWithGroupId H → ℤ} (h : ∀ k, off k = off' k) : Tracked D taken off' p:= by
  rw [show off' = off from funext fun k => (h k).symm]
  exact hp

/-! ### Eviction -/

theorem removeAndEmit_tracked
    (hroom : D → ∀ p1 : BlockPool H, (∀ b, b ≠ block → p1.keysOf b = p.keysOf b) → IndexOK p1 →
      p1.numGpuBlocks = p.numGpuBlocks → ∀ k, off k ≤ p1.registered k) :
    wp (do let removed ← removeCachedBlockHashes block; emitBlockRemovedEvents removed)
      (fun _ p' => Tracked D taken off p' ∧ p'.keysOf block = [] ∧
        (∀ b, b ≠ block → p'.keysOf b = p.keysOf b) ∧ p'.numGpuBlocks = p.numGpuBlocks ∧
        p'.isNull = p.isNull) never p := by
  rw [wp_bind]
  refine wp_imp (removeCachedBlockHashes_tracked hp) (fun ret p1 h => ?_)
  obtain ⟨h1, hself, hother, -, hnum, hevents⟩ := h
  refine wp_imp (emitBlockRemovedEvents_tracked h1 fun hd k => ?_) (fun _ p2 h => ?_)
  · have hk := hroom hd p1 hother h1.index hnum k
    omega
  · obtain ⟨h2, hkeys, hnum2, hnull⟩ := h
    refine ⟨h2.congr fun k => by omega, (hkeys block).trans hself,
      fun b hb => (hkeys b).trans (hother b hb), hnum2.trans hnum, hnull.trans hevents.2.2⟩

end

theorem maybeEvictCachedBlock_keeps : Keeps (Tracked D taken fun _ => 0) (maybeEvictCachedBlock block) := by
  intro p hp
  unfold maybeEvictCachedBlock
  rw [wp_bind]
  refine wp_mono (removeCachedBlockHashes_tracked hp) (fun ret p1 h => ?_) (fun _ _ h => h.elim)
  obtain ⟨h1, -⟩ := h
  split_ifs with hnone
  · refine h1.congr fun k => ?_
    rw [length_eq_zero_iff.1 hnone]
    rfl
  rw [wp_bind]
  refine wp_mono (emitBlockRemovedEvents_tracked h1 fun _ k => ?_) (fun _ p2 h => ?_) (fun _ _ h => h.elim)
  · omega
  · exact h.1.congr fun k => by omega

theorem evictBlocks_keeps {ids : List ℕ} : Keeps (Tracked D taken fun _ => 0) (evictBlocks (H := H) ids) := by
  refine keeps_forM fun _ _ => keeps_bind keeps_get fun _ => keeps_bind keeps_check fun _ => ?_
  exact keeps_bind maybeEvictCachedBlock_keeps fun _ => keeps_pure

theorem getNewBlocks_keeps : Keeps (Tracked D taken fun _ => 0) (getNewBlocks (H := H) n) := by
  have hrefs : RefOps (Tracked D taken fun _ => 0) := tracked_refOps
  refine keeps_bind keeps_get fun _ => keeps_bind keeps_check fun _ => ?_
  refine keeps_bind hrefs.onQueue fun _ => keeps_bind hrefs.notifyReuse fun _ => ?_
  refine keeps_bind (keeps_forM fun b _ => ?_) fun _ => keeps_pure
  refine keeps_bind keeps_get fun _ => keeps_bind (keeps_runIf fun _ => ?_) fun _ => ?_
  · exact keeps_bind maybeEvictCachedBlock_keeps fun _ => keeps_pure
  · exact keeps_bind keeps_get fun _ => keeps_bind keeps_check fun _ => hrefs.addRefCnt

/-! ### Caching -/

section

variable (pending : List (KVCacheBlock × BlockHashWithGroupId H))

/-- Registrations that are not yet announced: keys of different blocks, still held by them. -/
structure Pending (p : BlockPool H) : Prop where
  nodup : (pending.map (·.1)).Nodup
  held : ∀ x ∈ pending, x.2 ∈ p.keysOf x.1

/-- The number of unannounced registrations under a key. -/
def unannounced (k : BlockHashWithGroupId H) : ℤ :=
  ((pending.map (·.2)).count k : ℕ)

end

variable {pending : List (KVCacheBlock × BlockHashWithGroupId H)}

theorem Pending.unannounced_le (h : Pending pending p) (hp : IndexOK p) (k : BlockHashWithGroupId H) :
    unannounced pending k ≤ p.registered k := by
  have hcount : (pending.map (·.2)).count k = ((pending.filter fun x => x.2 = k).map (·.1)).length := by
    rw [length_map, count, countP_map, countP_eq_length_filter]
    congr 1
  have hnodup : ((pending.filter fun x => x.2 = k).map (·.1)).Nodup :=
    h.nodup.sublist ((filter_sublist (l := pending)).map (·.1))
  have hsub : ((pending.filter fun x => x.2 = k).map (·.1)) ⊆
      (poolBlocks p.numGpuBlocks).filter fun b => k ∈ p.keysOf b := by
    intro b hb
    obtain ⟨x, hx, rfl⟩ := mem_map.1 hb
    rw [mem_filter, decide_eq_true_eq] at hx
    obtain ⟨hx, rfl⟩ := hx
    rw [mem_filter, decide_eq_true_eq]
    exact ⟨mem_poolBlocks_of_keysOf hp (h.held x hx), h.held x hx⟩
  have hle := (subperm_of_subset hnodup hsub).length_le
  unfold unannounced registered
  rw [hcount, countP_eq_length_filter]
  exact_mod_cast hle

omit [DecidableEq H] in
theorem Pending.of_keysOf (h : Pending pending p) (hout : block ∉ pending.map (·.1))
    (hother : ∀ b, b ≠ block → p'.keysOf b = p.keysOf b) : Pending pending p' where
  nodup := h.nodup
  held := fun x hx => by
    rw [hother x.1 fun heq => hout (heq ▸ mem_map_of_mem hx)]
    exact h.held x hx

/-- One round of `cache_full_blocks` on a block that it has not registered before. -/
theorem cacheFullBlock_tracked (hp : Tracked D taken (unannounced pending) p)
    (hpend : D → Pending pending p) (hin : block ∈ poolBlocks p.numGpuBlocks) (hout : D → block ∉ pending.map (·.1)) :
    wp (cacheFullBlock key block n) (fun _ p' =>
      Tracked D taken (unannounced ((block, key) :: pending)) p' ∧
      (D → Pending ((block, key) :: pending) p') ∧ p'.numGpuBlocks = p.numGpuBlocks ∧ p'.isNull = p.isNull) any p := by
  -- the insertion, into a block without keys
  have hinsert (p1 : BlockPool H) (h1 : Tracked D taken (unannounced pending) p1)
      (hpend1 : D → Pending pending p1) (hself : p1.keysOf block = [])
      (hnum : p1.numGpuBlocks = p.numGpuBlocks) (hnull : p1.isNull = p.isNull) :
      wp (insertBlockHash key block (some n)) (fun _ p' =>
        Tracked D taken (unannounced ((block, key) :: pending)) p' ∧
        (D → Pending ((block, key) :: pending) p') ∧ p'.numGpuBlocks = p.numGpuBlocks ∧ p'.isNull = p.isNull) any p1 := by
    refine wp_imp (insertBlockHash_tracked h1 (hnum ▸ hin)) (fun _ p' h => ?_)
    obtain ⟨h', hkeys, hnum', hevents⟩ := h
    refine ⟨h'.congr fun k => ?_, fun hd => ⟨?_, fun x hx => ?_⟩, hnum'.trans hnum, hevents.2.2.trans hnull⟩
    · unfold unannounced
      rw [hself, map_cons, count_cons]
      by_cases hk : k = key
      · subst hk
        simp
      · have hne : ¬ key = k := fun h => hk h.symm
        simp [hk, hne]
    · rw [map_cons, nodup_cons]
      exact ⟨hout hd, (hpend1 hd).nodup⟩
    · rw [hkeys]
      rcases mem_cons.1 hx with rfl | hx
      · exact .inr ⟨rfl, rfl⟩
      · exact .inl ((hpend1 hd).held x hx)
  unfold cacheFullBlock
  rw [wp_get_bind, wp_bind, wp_runIf]
  constructor
  · intro _
    refine wp_check_bind fun _ => ?_
    refine wp_mono (removeAndEmit_tracked hp fun hd p1 hother hok _ k => ?_) (fun _ p1 h => ?_) (fun _ _ h => h.elim)
    · exact ((hpend hd).of_keysOf (hout hd) hother).unannounced_le hok k
    · obtain ⟨h1, hself, hother, hnum, hnull⟩ := h
      exact hinsert p1 h1 (fun hd => (hpend hd).of_keysOf (hout hd) hother) hself hnum hnull
  intro hnone
  have hnone' : p.blockHash block = none := not_not.1 hnone
  refine hinsert p hp hpend ?_ rfl rfl
  unfold keysOf
  rw [hnone', hp.index.primary block hnone']
  rfl

/-- The blocks that `cache_full_blocks` registers, from position `i` on. -/
def registers (isNull : KVCacheBlock → Bool) (blockMask : Option (List Bool)) :
    ℕ → List KVCacheBlock → List KVCacheBlock
  | _, [] => []
  | i, blk :: blks =>
    if isNull blk ∨ (∃ mask ∈ blockMask, mask[i]? = some false) then registers isNull blockMask (i + 1) blks
    else blk :: registers isNull blockMask (i + 1) blks

theorem cacheFullBlocksLoop_tracked {hashes : List H} {c g i : ℕ}
    {blks : List KVCacheBlock} (hp : Tracked D taken (unannounced pending) p)
    (hpend : D → Pending pending p) (hin : ∀ b ∈ blks, b ∈ poolBlocks p.numGpuBlocks)
    (hnodup : D → (registers p.isNull mask i blks).Nodup)
    (hout : D → ∀ b ∈ registers p.isNull mask i blks, b ∉ pending.map (·.1)) :
    wp (cacheFullBlocksLoop hashes mask c n g i blks) (fun newHashes p' =>
      Tracked D taken (fun k => unannounced pending k +
        (newHashes.map (makeBlockHashWithGroupId · g)).count k) p') any p := by
  induction blks generalizing i pending p with
  | nil => exact hp.congr fun k => by simp
  | cons blk blks ih =>
    have hrest : ∀ b ∈ blks, b ∈ poolBlocks p.numGpuBlocks := fun b hb => hin b (mem_cons_of_mem _ hb)
    unfold cacheFullBlocksLoop
    rw [wp_get_bind]
    unfold registers at hnodup hout
    split_ifs with hskip
    · rw [if_pos hskip] at hnodup hout
      exact ih hp hpend hrest hnodup hout
    rw [if_neg hskip] at hnodup hout
    split
    · trivial
    rename_i hash _
    rw [wp_bind]
    refine wp_imp (cacheFullBlock_tracked hp hpend (hin blk mem_cons_self)
      fun hd => hout hd blk mem_cons_self) (fun _ p1 h => ?_)
    obtain ⟨h1, hpend1, hnum, hnull⟩ := h
    rw [wp_bind]
    refine wp_imp (ih h1 hpend1 (hnum ▸ hrest) (hnull.symm ▸ fun hd => (nodup_cons.1 (hnodup hd)).2) ?_)
      (fun newHashes p2 h2 => ?_)
    · intro hd b hb
      rw [hnull] at hb
      rw [map_cons, mem_cons, not_or]
      refine ⟨fun heq => (nodup_cons.1 (hnodup hd)).1 ?_, hout hd b (mem_cons_of_mem _ hb)⟩
      rwa [show b = blk from heq] at hb
    · refine Tracked.congr h2 fun k => ?_
      unfold unannounced
      rw [map_cons, map_cons, count_cons, count_cons]
      push_cast
      omega

theorem cacheFullBlocks_tracked {blocks : List KVCacheBlock} {c f g : ℕ} (hp : Tracked D taken (fun _ => 0) p)
    (hin : ∀ b ∈ blocks, b ∈ poolBlocks p.numGpuBlocks)
    (hnodup : D → (registers p.isNull mask 0 ((blocks.drop c).take (f - c))).Nodup) :
    wp (cacheFullBlocks request blocks c f n g mask) (fun _ p' => Tracked D taken (fun _ => 0) p') any p := by
  unfold cacheFullBlocks
  split
  · exact hp
  refine wp_check_bind fun _ => ?_
  rw [wp_get_bind]
  split
  · trivial
  rw [wp_bind]
  have hstart : Tracked D taken (unannounced []) p := hp.congr fun k => rfl
  refine wp_imp (cacheFullBlocksLoop_tracked hstart (fun _ => ⟨nodup_nil, forall_mem_nil _⟩)
    (fun b hb => hin b (mem_of_mem_drop (mem_of_mem_take hb))) hnodup
    (fun _ _ _ h => not_mem_nil h)) (fun newHashes p1 h1 => ?_)
  rw [wp_get_bind, wp_runIf]
  refine ⟨fun _ => ?_, fun h => absurd h1.enabled h⟩
  refine wp_check_bind fun _ => ?_
  refine wp_check_bind fun _ => ?_
  refine wp_imp (pushStored_tracked h1) (fun _ p2 h2 => ?_)
  refine Tracked.congr h2 fun k => ?_
  show (0 : ℤ) + _ - _ = 0
  omega

theorem cachePartialBlock_tracked {g size : ℕ} {replace : Bool}
    (hp : Tracked D taken (fun _ => 0) p) (hin : block ∈ poolBlocks p.numGpuBlocks) :
    wp (cachePartialBlock request block n g size replace) (fun _ p' => Tracked D taken (fun _ => 0) p') any p := by
  unfold cachePartialBlock
  rw [wp_get_bind]
  split
  · exact hp
  refine wp_check_bind fun _ => ?_
  split
  · trivial
  rename_i hash hhash
  -- inserting the key, and announcing it if it was not there
  have hend (p1 : BlockPool H) (h1 : Tracked D taken (fun _ => 0) p1)
      (hnum : p1.numGpuBlocks = p.numGpuBlocks) (announce : Prop) [Decidable announce]
      (hiff : announce ↔ makeBlockHashWithGroupId hash g ∉ p1.keysOf block) {parent : Option H}
      {tokens : List ℕ} {m m' : ℕ} :
      wp (do
          insertBlockHash (makeBlockHashWithGroupId hash g) block (some m)
          runIf announce (pushEvent (.blockStored [hash] parent tokens m' g))
          return some (makeBlockHashWithGroupId hash g))
        (fun _ p' => Tracked D taken (fun _ => 0) p') any p1 := by
    rw [wp_bind]
    refine wp_imp (insertBlockHash_tracked h1 (hnum ▸ hin)) (fun _ p2 h => ?_)
    obtain ⟨h2, -⟩ := h
    rw [wp_bind, wp_runIf]
    constructor
    · intro hyes
      refine wp_imp (pushStored_tracked h2) (fun _ p3 h3 => Tracked.congr h3 fun k => ?_)
      have hnew := hiff.1 hyes
      by_cases hk : k = makeBlockHashWithGroupId hash g
      · simp [hk, hnew]
      · have hne : ¬ makeBlockHashWithGroupId hash g = k := fun h => hk h.symm
        simp [hk, hne]
    · intro hno
      refine Tracked.congr h2 fun k => ?_
      have hold : makeBlockHashWithGroupId hash g ∈ p1.keysOf block := not_not.1 fun h => hno (hiff.2 h)
      simp [hold]
  -- whether the key was there before
  have hcached : (p.blockHash block = some (makeBlockHashWithGroupId hash g) ∨
      p.cachedBlockHashToBlock.contain (makeBlockHashWithGroupId hash g) block) ↔
      makeBlockHashWithGroupId hash g ∈ p.keysOf block := by
    rw [contain_iff, hp.index.mem_iff]
    constructor
    · rintro (h | h)
      · simp [keysOf, h]
      · exact h
    · exact .inr
  rw [wp_bind, wp_runIf]
  constructor
  · intro hremove
    refine wp_mono (removeAndEmit_tracked hp fun _ p1 _ _ _ k => by omega) (fun _ p1 h => ?_) (fun _ _ h => h.elim)
    obtain ⟨h1, hself, -, hnum, -⟩ := h
    refine hend p1 h1 hnum _ ?_
    rw [hself]
    refine ⟨fun _ => not_mem_nil, fun _ => ⟨hp.enabled, ?_⟩⟩
    rcases hremove with h | h
    · exact .inl h
    · exact .inr h.1
  · intro hkeep
    rw [not_or] at hkeep
    refine hend p hp rfl _ ?_
    rw [decide_eq_false_iff_not, hcached]
    exact ⟨fun h => h.2.resolve_left hkeep.1, fun h => ⟨hp.enabled, .inr h⟩⟩

/-! ### Moving hashes, resetting and taking events -/

theorem moveBlockHashes_tracked {src dst : KVCacheBlock} (hp : Tracked D taken (fun _ => 0) p)
    (hin : dst ∈ poolBlocks p.numGpuBlocks) :
    wp (moveBlockHashes src dst) (fun _ p' => Tracked D taken (fun _ => 0) p') any p := by
  unfold moveBlockHashes
  rw [wp_get_bind]
  refine wp_check_bind fun hprimary => ?_
  refine wp_check_bind fun hsec => ?_
  have hdst : p.keysOf dst = [] := by
    unfold keysOf
    rw [hprimary, hsec]
    rfl
  rw [wp_bind]
  refine wp_mono (removeCachedBlockHashes_tracked hp) (fun removed p1 h => ?_) (fun _ _ h => h.elim)
  obtain ⟨h1, hself, hother, hcount, hnum, -⟩ := h
  have hnodup : removed.Nodup := by
    rw [nodup_iff_count_le_one]
    intro k
    rw [hcount]
    split <;> omega
  have hdst1 : p1.keysOf dst = [] := by
    by_cases hb : dst = src
    · rw [hb]
      exact hself
    · rw [hother dst hb, hdst]
  -- the keys still to be moved are missing, and none of them is on the destination
  refine wp_imp (wp_forM (fun rest p' => Tracked D taken (fun k => - (rest.count k : ℕ)) p' ∧
    rest.Nodup ∧ (∀ k ∈ rest, k ∉ p'.keysOf dst) ∧ p'.numGpuBlocks = p.numGpuBlocks) ?_ ?_)
    (fun _ p' h => ?_)
  · intro k rest p2 h
    obtain ⟨h2, hnd, habsent, hnum2⟩ := h
    rw [nodup_cons] at hnd
    refine wp_imp (insertBlockHash_tracked h2 (hnum2.symm ▸ hin)) (fun _ p3 h => ?_)
    obtain ⟨h3, hkeys, hnum3, -⟩ := h
    refine ⟨Tracked.congr h3 fun k' => ?_, hnd.2, fun k' hk' hmem => ?_, hnum3.trans hnum2⟩
    · have hk := habsent k mem_cons_self
      by_cases hkk : k' = k
      · subst hkk
        simp [hk]
      · have hne : ¬ k = k' := fun h => hkk h.symm
        simp [hkk, hne]
    · rcases (hkeys dst k').1 hmem with hmem | ⟨rfl, -⟩
      · exact habsent k' (mem_cons_of_mem _ hk') hmem
      · exact hnd.1 hk'
  · refine ⟨h1.congr fun k => by omega, hnodup, fun k _ hk => ?_, hnum⟩
    rw [hdst1] at hk
    exact not_mem_nil hk
  · exact Tracked.congr h.1 fun k => by simp

omit [DecidableEq H] in
theorem foldl_resetHash_events (bs : List KVCacheBlock) (p : BlockPool H) :
    (bs.foldl (fun p b => resetHash b p) p).kvEventQueue = p.kvEventQueue ∧
      (bs.foldl (fun p b => resetHash b p) p).enableKvCacheEvents = p.enableKvCacheEvents := by
  induction bs generalizing p with
  | nil => exact ⟨rfl, rfl⟩
  | cons b bs ih => exact ih (resetHash b p)

theorem resetPrefixCache_tracked (hp : Tracked D taken (fun _ => 0) p) :
    wp resetPrefixCache (fun _ p' => Tracked D taken (fun _ => 0) p') any p := by
  -- what the reset does when it is carried out
  have hspec : wp resetPrefixCache (fun done p' => (done = false → p' = p) ∧ (done →
      (∀ b, p'.keysOf b = []) ∧ p'.kvEventQueue = p.kvEventQueue ++ [.allBlocksCleared] ∧
        p'.enableKvCacheEvents)) any p := by
    unfold resetPrefixCache
    rw [wp_get_bind]
    split
    · exact ⟨fun _ => rfl, Bool.noConfusion⟩
    rw [wp_bind, wp_modify, wp_bind]
    have hevents : RefOps fun p' : BlockPool H =>
        p'.kvEventQueue = p.kvEventQueue ∧ p'.enableKvCacheEvents := ⟨fun _ _ _ _ _ h => h⟩
    refine wp_mono (wp_and notifyReuse_spec (hevents.notifyReuse _ ⟨rfl, hp.enabled⟩)) (fun _ p1 h => ?_)
      (fun _ _ h => h.1.elim)
    obtain ⟨⟨hidx, hrefs⟩, hqueue, henabled⟩ := h
    obtain ⟨hhash, -, hsec, -⟩ := foldl_resetHash p1 (poolBlocks p1.numGpuBlocks)
    obtain ⟨hq2, he2⟩ := foldl_resetHash_events (poolBlocks p1.numGpuBlocks) p1
    rw [wp_bind, wp_modify, wp_bind, wp_runIf]
    set p2 := (poolBlocks p1.numGpuBlocks).foldl (fun p b => resetHash b p) p1
    refine ⟨fun _ => ?_, fun h => absurd hp.enabled h⟩
    unfold pushEvent
    rw [wp_modify]
    refine ⟨Bool.noConfusion, fun _ => ⟨fun b => ?_, ?_, he2.trans henabled⟩⟩
    · have hnone : p2.blockHash b = none := by
        rw [hhash]
        split_ifs with hb
        · rfl
        rw [hrefs.numGpuBlocks] at hb
        rw [hidx.blockHash]
        by_contra hne
        exact hb (hp.index.inPool b hne)
      have hnil : p2.cachedBlockHashesByBlock b = [] := by rw [hsec, hidx.cachedBlockHashesByBlock]
      show (p2.blockHash b).toList ++ p2.cachedBlockHashesByBlock b = []
      rw [hnone, hnil]
      rfl
    · rw [hq2, hqueue]
  refine wp_any (wp_and hspec (resetPrefixCache_within p hp.within)) (fun done p' h => ?_)
  obtain ⟨⟨hno, hyes⟩, hindex⟩ := h
  cases done with
  | false =>
    rw [hno rfl]
    exact hp
  | true =>
    obtain ⟨hkeys, hqueue, henabled⟩ := hyes rfl
    have hreplay (k : BlockHashWithGroupId H) : replay (taken ++ p'.kvEventQueue) k = 0 := by
      rw [hqueue, ← append_assoc, replay_concat]
      rfl
    refine ⟨hindex.ok, henabled, ?_, fun k => ?_⟩
    · intro hd
      rw [hqueue, ← append_assoc]
      refine (hp.nonneg hd).concat fun k => ?_
      rw [append_assoc, ← hqueue, hreplay]
    · rw [hreplay]
      unfold registered
      simp [hkeys]

end BlockPool

/-! ## Runs -/

/-- The events that a call hands to the consumer. -/
def PoolCall.delivers (p : BlockPool H) : PoolCall H → List (KVCacheEvent H)
  | .takeEvents => p.kvEventQueue
  | _ => []

/-- The call announces blocks that are cached already. -/
def PoolCall.reannounces : PoolCall H → Bool
  | .emitCachedBlockEvents _ _ _ _ => true
  | _ => false

/-- The blocks that a call registers together. -/
def PoolCall.registers (isNull : KVCacheBlock → Bool) : PoolCall H → List KVCacheBlock
  | .cacheFullBlocks _ bs c f _ _ mask => BlockPool.registers isNull mask 0 ((bs.drop c).take (f - c))
  | _ => []

/-- A pool, the events that the consumer has got, and whether some call registered a block twice. -/
structure EventWorld (H : Type) where
  pool : BlockPool H
  taken : List (KVCacheEvent H)
  repeated : Bool

/-- A call that returns and announces nothing again. -/
inductive EventWorld.Step (w : EventWorld H) : EventWorld H → Prop
  | call (c : PoolCall H) (ret : List KVCacheBlock) (p' : BlockPool H)
      (hon : c.OnPool w.pool.numGpuBlocks) (hnew : c.reannounces = false)
      (hrun : c.run w.pool = .ok ret p') :
      Step w ⟨p', w.taken ++ c.delivers w.pool, w.repeated || !decide (c.registers w.pool.isNull).Nodup⟩

theorem tracked_call {D : Prop} {taken : List (KVCacheEvent H)} {p p' : BlockPool H} {c : PoolCall H}
    {ret : List KVCacheBlock} (hp : Tracked D taken (fun _ => 0) p) (hon : c.OnPool p.numGpuBlocks)
    (hnew : c.reannounces = false) (hdistinct : D → (c.registers p.isNull).Nodup)
    (hrun : c.run p = .ok ret p') : Tracked D (taken ++ c.delivers p) (fun _ => 0) p' := by
  -- the calls that hand nothing to the consumer
  suffices h : c ≠ .takeEvents → Tracked D taken (fun _ => 0) p' by
    by_cases hc : c = .takeEvents
    · subst hc
      have hspec : wp (PoolCall.takeEvents (H := H)).run (fun _ p' =>
          Tracked D (taken ++ p.kvEventQueue) (fun _ => 0) p') any p := by
        show wp (do let _ ← takeEvents; return []) _ _ p
        unfold takeEvents
        rw [wp_bind, wp_get_bind, if_pos hp.enabled, wp_bind, wp_modify]
        refine ⟨⟨hp.index.mem_iff, hp.index.primary, hp.index.inPool⟩, hp.enabled, ?_, fun k => ?_⟩
        · intro hd
          rw [append_nil]
          exact hp.nonneg hd
        · rw [append_nil]
          exact hp.counter k
      exact wp_ok (Q := fun _ => Tracked D (taken ++ p.kvEventQueue) fun _ => 0) hspec hrun
    · have hnone : c.delivers p = [] := by
        cases c with
        | takeEvents => exact absurd rfl hc
        | _ => rfl
      rw [hnone, append_nil]
      exact h hc
  intro hne
  have hrefs : RefOps (Tracked (H := H) D taken fun _ => 0) := tracked_refOps
  have hkeep (h : Keeps (Tracked D taken fun _ => 0) c.run) : Tracked D taken (fun _ => 0) p' :=
    wp_ok (Q := fun _ => Tracked D taken fun _ => 0) (h p hp) hrun
  have hunit {α : Type} {m : PoolM H α} (heq : c.run = do let _ ← m; return [])
      (h : wp m (fun _ p' => Tracked D taken (fun _ => 0) p') any p) : Tracked D taken (fun _ => 0) p' := by
    refine wp_ok (Q := fun _ p' => Tracked D taken (fun _ => 0) p') (R := any) ?_ hrun
    rw [heq, wp_bind]
    exact wp_imp h (fun _ _ h => h)
  cases c with
  | getNewBlocks n => exact hkeep getNewBlocks_keeps
  | touch bs => exact hkeep (keeps_bind hrefs.touch fun _ => keeps_pure)
  | freeBlocks bs => exact hkeep (keeps_bind hrefs.freeBlocks fun _ => keeps_pure)
  | unpinBlocks bs w => exact hkeep (keeps_bind hrefs.unpinBlocks fun _ => keeps_pure)
  | cacheFullBlocks request bs c f n g mask => exact hunit rfl (cacheFullBlocks_tracked hp hon hdistinct)
  | cachePartialBlock request b n g s replace => exact hunit rfl (cachePartialBlock_tracked hp hon)
  | moveBlockHashes src dst => exact hunit rfl (moveBlockHashes_tracked hp hon.2)
  | evictBlocks ids => exact hkeep (keeps_bind evictBlocks_keeps fun _ => keeps_pure)
  | resetPrefixCache => exact hunit rfl (resetPrefixCache_tracked hp)
  | emitCachedBlockEvents request c n g => exact Bool.noConfusion hnew
  | takeEvents => exact absurd rfl hne

theorem tracked_run {w w' : EventWorld H} (hw : Tracked (w.repeated = false) w.taken (fun _ => 0) w.pool)
    (hrun : ReflTransGen EventWorld.Step w w') : Tracked (w'.repeated = false) w'.taken (fun _ => 0) w'.pool := by
  induction hrun with
  | refl => exact hw
  | @tail w1 w2 _ hstep ih =>
    cases hstep with
    | call c ret p' hon hnew hrun =>
      rw [Bool.or_eq_false_iff, Bool.not_eq_false', decide_eq_true_eq]
      exact tracked_call ⟨ih.index, ih.enabled, fun hd => ih.nonneg hd.1, ih.counter⟩ hon hnew (fun hd => hd.2) hrun

theorem tracked_init {hbs : ℕ} {caching : Bool} {p : BlockPool H}
    (hinit : init n caching hbs true = .ok p) (D : Prop) : Tracked D [] (fun _ => 0) p := by
  have hn : 0 < n := by
    by_contra hn
    simp [init, hn] at hinit
  obtain ⟨p', hp', -, -, -, -, -, hindex⟩ := init_ok n hbs caching true hn
  obtain rfl : p' = p := Except.ok.inj (hp'.symm.trans hinit)
  unfold init at hinit
  rw [if_pos hn] at hinit
  split at hinit
  · cases hinit
    exact ⟨hindex, rfl, fun _ n key => by simp [replay], fun key => by simp [replay, registered, keysOf]⟩
  · cases hinit

/-- With events enabled, after every sequence of calls that return and announce nothing again, a
consumer of the events has for each key the number of blocks that the index holds under it; and no
counter was ever negative on the way if no `cache_full_blocks` registered a block twice. -/
theorem kv_event_replay {n hbs : ℕ} {caching : Bool} {p : BlockPool H} {w : EventWorld H}
    (hinit : init n caching hbs true = .ok p) (hrun : ReflTransGen EventWorld.Step ⟨p, [], false⟩ w) :
    (∀ key, replay (w.taken ++ w.pool.kvEventQueue) key = ((poolBlocks w.pool.numGpuBlocks).countP fun b =>
        b ∈ w.pool.cachedBlockHashToBlock.blocks key : ℕ)) ∧
    (w.repeated = false → NeverNegative (w.taken ++ w.pool.kvEventQueue)) := by
  have hw := tracked_run (tracked_init hinit (false = false)) hrun
  refine ⟨fun key => ?_, hw.nonneg⟩
  have hkey := hw.counter key
  rw [Int.add_zero] at hkey
  rw [hkey]
  unfold registered
  simp only [hw.index.mem_iff]

/-- A block is cached under hash 7. -/
theorem kv_event_replay_one_block : ∃ (p : BlockPool ℕ) (w : EventWorld ℕ),
    BlockPool.init 2 true 1 true = .ok p ∧ ReflTransGen EventWorld.Step ⟨p, [], false⟩ w ∧ w.repeated = false ∧
      .block 1 ∈ w.pool.cachedBlockHashToBlock.blocks ⟨7, 0⟩ ∧
      replay (w.taken ++ w.pool.kvEventQueue) ⟨7, 0⟩ = ((poolBlocks w.pool.numGpuBlocks).countP fun b =>
          b ∈ w.pool.cachedBlockHashToBlock.blocks ⟨7, 0⟩ : ℕ) := by
  obtain ⟨p, ret, p1, ret2, p2, hp, hget, hnum, hnull, hcache, hin⟩ : ∃ p ret p1 ret2 p2,
      BlockPool.init (H := ℕ) 2 true 1 true = .ok p ∧ (PoolCall.getNewBlocks 1).run p = .ok ret p1 ∧
      p1.numGpuBlocks = 2 ∧ p1.isNull (.block 1) = false ∧
      (PoolCall.cacheFullBlocks ⟨[5], [7]⟩ [.block 1] 0 1 1 0 none).run p1 = .ok ret2 p2 ∧
      .block 1 ∈ p2.cachedBlockHashToBlock.blocks ⟨7, 0⟩ := ⟨_, _, _, _, _, rfl, rfl, rfl, rfl, rfl, mem_cons_self⟩
  have hmem : ∀ b ∈ [KVCacheBlock.block 1], b ∈ poolBlocks p1.numGpuBlocks := by
    rw [hnum]
    decide
  have hfirst : EventWorld.Step ⟨p, [], false⟩ ⟨p1, [], false⟩ :=
    .call (.getNewBlocks 1) ret p1 trivial rfl hget
  have hsecond := EventWorld.Step.call (w := ⟨p1, [], false⟩)
    (.cacheFullBlocks ⟨[5], [7]⟩ [.block 1] 0 1 1 0 none) ret2 p2 hmem rfl hcache
  have hrun := (ReflTransGen.single hfirst).tail hsecond
  refine ⟨p, _, hp, hrun, ?_, hin, (kv_event_replay hp hrun).1 ⟨7, 0⟩⟩
  simp [PoolCall.registers, BlockPool.registers, hnull]

/-- Two ways in which the counters go wrong. A block that one `cache_full_blocks` is passed twice is
promoted from its first hash to its second, and the removal of the first is announced before the
storing of both: the counter of the first is negative in between. And a `cache_full_blocks` that
raises half way, for want of a hash, leaves a block registered that was never announced. -/
theorem kv_event_replay_fails : (∃ (p p1 p2 : BlockPool ℕ) (ret : List KVCacheBlock), init 2 true 1 true = .ok p ∧
      (PoolCall.getNewBlocks 1).run p = .ok [.block 1] p1 ∧
      (PoolCall.cacheFullBlocks ⟨[5, 6], [7, 8]⟩ [.block 1, .block 1] 0 2 1 0 none).run p1 = .ok ret p2 ∧
      replay (p2.kvEventQueue.take 1) ⟨7, 0⟩ = -1) ∧ ∃ (p p1 p2 : BlockPool ℕ), init 3 true 1 true = .ok p ∧
      (PoolCall.getNewBlocks 2).run p = .ok [.block 1, .block 2] p1 ∧
      (PoolCall.cacheFullBlocks ⟨[5, 6], [7]⟩ [.block 1, .block 2] 0 2 1 0 none).run p1 = .error .indexError p2 ∧
      .block 1 ∈ p2.cachedBlockHashToBlock.blocks ⟨7, 0⟩ ∧ replay p2.kvEventQueue ⟨7, 0⟩ = 0 :=
  ⟨⟨_, _, _, _, rfl, rfl, rfl, rfl⟩, ⟨_, _, _, rfl, rfl, rfl, mem_cons_self, rfl⟩⟩

end VllmRwkv
