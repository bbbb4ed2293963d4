import VllmRwkv.Cache.HitSound

/-!
# Announcing a hit again

`emit_cached_block_events` of the coordinator: for a request in the full report mode, the blocks of a
prefix hit are announced once more as stored. What is announced is computed from the number of blocks
of the hit and the block size of the spec, not from the blocks; `announcedKeys` is what that amounts
to, and `emitCachedBlockEvents_sound_iff` says when all of it is in the index.
-/

namespace VllmRwkv

open List Nat Raise

variable {H : Type} {n : ℕ}

/-- The keys an event announces as stored. -/
def KVCacheEvent.storedKeys (event : KVCacheEvent H) : List (BlockHashWithGroupId H) :=
  match event with
  | .blockStored hashes _ _ _ g => hashes.map (makeBlockHashWithGroupId · g)
  | _ => []

namespace BlockPool

variable (p : BlockPool H)

/-- The key is in the prefix index. -/
def Registered (key : BlockHashWithGroupId H) : Prop :=
  p.cachedBlockHashToBlock.blocks key ≠ []

/-- The request's hash at the end of block `k`, for blocks of the given size. -/
def hashEnding (request : HashedTokens H) (blockSize k : ℕ) : Option H :=
  request.blockHashes[(k + 1) * (blockSize / p.hashBlockSize) - 1]?

/-- The request is hashed over `num` blocks of the given size. -/
def HashedOver (request : HashedTokens H) (blockSize num : ℕ) : Prop :=
  p.hashBlockSize ∣ blockSize ∧ ∀ k < num, ∃ hash, p.hashEnding request blockSize k = some hash

theorem emitCachedBlockEvents_spec {p : BlockPool H} {request : HashedTokens H} {num blockSize g : ℕ}
    (hhash : 0 < p.hashBlockSize) (hsize : 0 < blockSize) (hon : p.enableKvCacheEvents) (hnum : num ≠ 0) :
    wp (emitCachedBlockEvents request num blockSize g) (fun _ p' => p.HashedOver request blockSize num ∧ ∃ event,
        p' = { p with kvEventQueue := p.kvEventQueue ++ [event] } ∧
        ∀ key, key ∈ event.storedKeys ↔ ∃ k < num, ∃ hash, p.hashEnding request blockSize k = some hash ∧
          key = makeBlockHashWithGroupId hash g) (fun _ _ => ¬ p.HashedOver request blockSize num) p := by
  unfold emitCachedBlockEvents
  rw [wp_get_bind]
  rw [if_neg (by simp [hon, hnum])]
  by_cases hdvd : p.hashBlockSize ∣ blockSize
  · obtain ⟨view, hview, hget⟩ := LookupArgs.resolveBlockHashes_getElem? request.blockHashes hhash hsize hdvd
    rw [hview]
    rw [wp_bind, wp_check]
    constructor
    · intro hle
      have hsome : ∀ k < num, view[k]? = p.hashEnding request blockSize k ∧
          ∃ hash, p.hashEnding request blockSize k = some hash := by
        intro k hk
        exact ⟨hget k, _, (hget k).symm.trans (getElem?_eq_getElem (lt_of_lt_of_le hk hle))⟩
      unfold pushEvent
      rw [wp_modify]
      refine ⟨⟨hdvd, fun k hk => (hsome k hk).2⟩, _, rfl, fun key => ?_⟩
      unfold KVCacheEvent.storedKeys
      rw [mem_map]
      constructor
      · rintro ⟨hash, hmem, rfl⟩
        obtain ⟨k, hk⟩ := getElem?_of_mem hmem
        rw [getElem?_take] at hk
        split at hk
        next hlt => exact ⟨k, hlt, hash, (hsome k hlt).1 ▸ hk, rfl⟩
        · cases hk
      · rintro ⟨k, hk, hash, hh, rfl⟩
        refine ⟨hash, mem_of_getElem? (i := k) ?_, rfl⟩
        rw [getElem?_take_of_lt hk, (hsome k hk).1]
        exact hh
    · intro hlt hover
      obtain ⟨hash, hh⟩ := hover.2 (num - 1) (by omega)
      have := (List.getElem?_eq_some_iff.1 ((hget (num - 1)).trans hh)).1
      omega
  · have hne : blockSize ≠ p.hashBlockSize := by
      rintro rfl
      exact hdvd dvd_rfl
    have herr : resolveBlockHashes request.blockHashes p.hashBlockSize blockSize =
        .error (.assertionError "block_size % hash_block_size == 0") := by
      unfold resolveBlockHashes
      rw [if_neg hne, if_neg fun hmod => hdvd (dvd_of_mod_eq_zero hmod)]
    rw [herr]
    exact fun hover => hdvd hover.1

/-- The program returns, and all it announces as stored is in the index. -/
def AnnouncesSoundly (m : PoolM H Unit) : Prop :=
  ∃ p' events, m p = .ok () p' ∧ p'.kvEventQueue = p.kvEventQueue ++ events ∧
    ∀ event ∈ events, ∀ key ∈ event.storedKeys, p'.Registered key

end BlockPool

namespace CacheConfig

/-- `KVCacheCoordinator.emit_cached_block_events`. `specBlockSize` is the block size of a group's spec,
which context parallelism multiplies to the block size of its manager. -/
def emitCachedBlockEvents (specBlockSize : Fin n → ℕ) (request : HashedTokens H)
    (computedBlocks : Fin n → List KVCacheBlock) : PoolM H Unit :=
  forM (finRange n) fun groupIdx => runIf (computedBlocks groupIdx ≠ [])
    (BlockPool.emitCachedBlockEvents request (computedBlocks groupIdx).length (specBlockSize groupIdx) groupIdx)

variable {p : BlockPool H} {request : HashedTokens H} {blocks : Fin n → List KVCacheBlock}
  {b : KVCacheBlock} {i : Fin n} {specBlockSize : Fin n → ℕ}

variable (p request blocks specBlockSize) in
/-- Group `i` asks for a hash of the request that is not there. -/
def Misses (i : Fin n) : Prop :=
  blocks i ≠ [] ∧ ¬ p.HashedOver request (specBlockSize i) (blocks i).length

variable (p request blocks specBlockSize) in
/-- The groups that are not in `rest` have announced the hash of every position of their rows. -/
structure Announced (rest : List (Fin n)) (p' : BlockPool H) : Prop where
  nodup : rest.Nodup
  hashed : ∀ i ∉ rest, ¬ Misses p request blocks specBlockSize i
  events : ∃ events, p' = { p with kvEventQueue := p.kvEventQueue ++ events } ∧
    ∀ key, (∃ event ∈ events, key ∈ event.storedKeys) ↔ ∃ i ∉ rest, ∃ k < (blocks i).length, ∃ hash,
      p.hashEnding request (specBlockSize i) k = some hash ∧ key = makeBlockHashWithGroupId hash i

section

variable (hhash : 0 < p.hashBlockSize) (hsize : ∀ i, 0 < specBlockSize i) (hon : p.enableKvCacheEvents)

include hhash hsize hon

theorem Announced.step {p' : BlockPool H} {rest : List (Fin n)}
    (h : Announced p request blocks specBlockSize (i :: rest) p') :
    wp (runIf (blocks i ≠ []) (BlockPool.emitCachedBlockEvents request (blocks i).length (specBlockSize i) i))
      (fun _ => Announced p request blocks specBlockSize rest)
      (fun _ _ => ∃ i, Misses p request blocks specBlockSize i) p' := by
  obtain ⟨hnodup, hhashed, events, rfl, hkeys⟩ := h
  have hi : i ∉ rest := (nodup_cons.1 hnodup).1
  have hcases : ∀ j, j ∉ rest → j = i ∨ j ∉ i :: rest := by
    intro j hj
    by_cases heq : j = i
    · exact .inl heq
    · exact .inr fun hm => (mem_cons.1 hm).elim heq hj
  rw [wp_runIf]
  constructor
  · intro hne
    refine wp_mono (BlockPool.emitCachedBlockEvents_spec hhash (hsize i) hon (by simp [hne])) ?_ ?_
    · rintro _ p'' ⟨hover, event, rfl, hevent⟩
      refine ⟨(nodup_cons.1 hnodup).2, fun j hj => ?_, events ++ [event], ?_, fun key => ?_⟩
      · rcases hcases j hj with rfl | hj
        · exact fun hmiss => hmiss.2 hover
        · exact hhashed j hj
      · rw [append_assoc]
      constructor
      · rintro ⟨e, he, hk⟩
        rcases mem_append.1 he with he | he
        · obtain ⟨j, hj, hrest⟩ := (hkeys key).1 ⟨e, he, hk⟩
          exact ⟨j, fun hm => hj (mem_cons_of_mem _ hm), hrest⟩
        · obtain rfl := mem_singleton.1 he
          exact ⟨i, hi, (hevent key).1 hk⟩
      · rintro ⟨j, hj, hrest⟩
        rcases hcases j hj with rfl | hj
        · exact ⟨event, by simp, (hevent key).2 hrest⟩
        · obtain ⟨e, he, hk⟩ := (hkeys key).2 ⟨j, hj, hrest⟩
          exact ⟨e, mem_append_left _ he, hk⟩
    · intro _ _ hmiss
      exact ⟨i, hne, hmiss⟩
  · intro hempty
    have hnil : blocks i = [] := not_not.1 hempty
    refine ⟨(nodup_cons.1 hnodup).2, fun j hj => ?_, events, rfl, fun key => ?_⟩
    · rcases hcases j hj with rfl | hj
      · exact fun hmiss => hmiss.1 hnil
      · exact hhashed j hj
    rw [hkeys key]
    constructor
    · rintro ⟨j, hj, hrest⟩
      exact ⟨j, fun hm => hj (mem_cons_of_mem _ hm), hrest⟩
    rintro ⟨j, hj, k, hk, hrest⟩
    rcases hcases j hj with rfl | hj
    · rw [hnil] at hk
      cases hk
    · exact ⟨j, hj, k, hk, hrest⟩

/-- With events on, the coordinator returns unless a group asks for a hash that is not there, and
announces the hash of every position of every row. -/
theorem emitCachedBlockEvents_announced :
    wp (emitCachedBlockEvents specBlockSize request blocks) (fun _ => Announced p request blocks specBlockSize [])
      (fun _ _ => ∃ i, Misses p request blocks specBlockSize i) p := by
  refine wp_forM (Announced p request blocks specBlockSize) (fun i rest p' h => h.step hhash hsize hon) ?_
  refine ⟨nodup_finRange n, fun i hi => absurd (mem_finRange i) hi, [], ?_, fun key => ?_⟩
  · rw [append_nil]
  constructor
  · rintro ⟨e, he, _⟩
    cases he
  · rintro ⟨i, hi, _⟩
    exact absurd (mem_finRange i) hi

/-- **When an announcement is sound**: the hash at every position of every row is there and registered. -/
theorem emitCachedBlockEvents_sound_iff : p.AnnouncesSoundly (emitCachedBlockEvents specBlockSize request blocks) ↔
      ∀ i, blocks i ≠ [] → p.hashBlockSize ∣ specBlockSize i ∧ ∀ k < (blocks i).length,
        ∃ hash, p.hashEnding request (specBlockSize i) k = some hash ∧
          p.Registered (makeBlockHashWithGroupId hash i) := by
  have hspec : wp (emitCachedBlockEvents specBlockSize request blocks)
      (fun _ => Announced p request blocks specBlockSize [])
      (fun _ _ => ∃ i, Misses p request blocks specBlockSize i) p :=
    emitCachedBlockEvents_announced hhash hsize hon
  unfold BlockPool.AnnouncesSoundly
  constructor
  · rintro ⟨p', events, hrun, hqueue, hsound⟩ i hne
    obtain ⟨-, hhashed, events', rfl, hkeys⟩ := wp_ok hspec hrun
    obtain rfl : events' = events := append_cancel_left hqueue
    have hover : p.HashedOver request (specBlockSize i) (blocks i).length :=
      not_not.1 fun hn => hhashed i not_mem_nil ⟨hne, hn⟩
    refine ⟨hover.1, fun k hk => ?_⟩
    obtain ⟨hash, hh⟩ := hover.2 k hk
    obtain ⟨event, he, hkey⟩ := (hkeys _).2 ⟨i, not_mem_nil, k, hk, hash, hh, rfl⟩
    exact ⟨hash, hh, hsound event he _ hkey⟩
  · intro hall
    cases hrun : emitCachedBlockEvents specBlockSize request blocks p with
    | error e p' =>
      obtain ⟨i, hne, hmiss⟩ := wp_error hspec hrun
      obtain ⟨hdvd, hk⟩ := hall i hne
      exact absurd ⟨hdvd, fun k hlt => (hk k hlt).imp fun _ h => h.1⟩ hmiss
    | ok _ p' =>
      obtain ⟨-, -, events, rfl, hkeys⟩ := wp_ok hspec hrun
      refine ⟨_, events, rfl, rfl, fun event he key hkey => ?_⟩
      obtain ⟨i, -, k, hk, hash, hh, rfl⟩ := (hkeys key).1 ⟨event, he, hkey⟩
      have hne : blocks i ≠ [] := by
        intro hnil
        rw [hnil] at hk
        cases hk
      obtain ⟨hash', hh', hreg⟩ := (hall i hne).2 k hk
      cases hh.symm.trans hh'
      exact hreg

end

theorem emitCachedBlockEvents_off (hoff : p.enableKvCacheEvents = false) :
    p.AnnouncesSoundly (emitCachedBlockEvents specBlockSize request blocks) := by
  have hspec : wp (emitCachedBlockEvents specBlockSize request blocks) (fun _ p' => p' = p) never p := by
    refine wp_forM (fun _ p' => p' = p) (fun i rest p' hp' => ?_) rfl
    subst hp'
    rw [wp_runIf]
    refine ⟨fun _ => ?_, fun _ => rfl⟩
    unfold BlockPool.emitCachedBlockEvents
    rw [wp_get_bind, if_pos (.inl hoff)]
    rfl
  cases hrun : emitCachedBlockEvents specBlockSize request blocks p with
  | error e p' => exact (wp_error hspec hrun).elim
  | ok _ p' =>
    obtain rfl := wp_ok hspec hrun
    exact ⟨p', [], hrun, (append_nil _).symm, nofun⟩

/-! ## Hits -/

/-- What the constructors of the two coordinators assert. -/
structure Looks (cfg : CacheConfig n) (p : BlockPool H) : Prop where
  hashBlockSize_pos : 0 < p.hashBlockSize
  kvCacheGroupId : ∀ i, (cfg.groups i).kvCacheGroupId = i
  hybrid : cfg.hybrid → cfg.Splits p
  unitary : cfg.hybrid = false → n = 1 ∧ ∀ i, (cfg.groups i).blockSize = p.hashBlockSize ∧
    ∀ chunk, (cfg.groups i).spec = .chunkedLocalAttention chunk → i ∉ cfg.eagleGroupIds

variable {cfg : CacheConfig n} {maxLength length uncached : ℕ}

/-- The lookup of the unitary coordinator. -/
def unitaryArgs (cfg : CacheConfig n) (request : HashedTokens H) (maxLength : ℕ) (i : Fin n) : LookupArgs H where
  blockHashes := request.blockHashes
  maxLength := maxLength
  kvCacheGroupIds := [(cfg.groups i).kvCacheGroupId]
  blockSize := (cfg.groups i).blockSize
  dropEagleBlock := i ∈ cfg.eagleGroupIds
  alignmentTokens := (cfg.groups i).blockSize

variable {k : ℕ}

theorem unitaryFindLongestCacheHit_block (hpos : 0 < p.hashBlockSize)
    (hone : n = 1) (hgroups : ∀ i, (cfg.groups i).blockSize = p.hashBlockSize ∧
      ∀ chunk, (cfg.groups i).spec = .chunkedLocalAttention chunk → i ∉ cfg.eagleGroupIds)
    (hmax : maxLength / p.hashBlockSize ≤ request.blockHashes.length)
    (hhit : cfg.unitaryFindLongestCacheHit p request.blockHashes maxLength = .ok (blocks, length, uncached))
    (hb : (blocks i)[k]? = some b) : cfg.OwnBlock p request.blockHashes i length k b ∨ b = p.nullBlock := by
  subst hone
  obtain rfl : i = 0 := Subsingleton.elim _ _
  obtain ⟨hsize, hchunk⟩ := hgroups 0
  have hw : (cfg.unitaryArgs request maxLength 0).WellFormed p :=
    ⟨hpos, (cfg.groups 0).blockSize_pos, dvd_of_eq hsize.symm, (cfg.groups 0).blockSize_pos, .inl dvd_rfl, hmax⟩
  have hsupports : (cfg.unitaryArgs request maxLength 0).Supports (cfg.groups 0).spec := by
    unfold LookupArgs.Supports
    split
    next chunk hspec => exact ⟨decide_eq_false (hchunk chunk hspec), rfl⟩
    · trivial
  obtain ⟨⟨rows, found⟩, hfind, hit⟩ := LookupArgs.findLongestCacheHit_finds hw hsupports
  have hrun : cfg.unitaryFindLongestCacheHit p request.blockHashes maxLength = .ok (splitRows rows [0], found, 0) := by
    show ((cfg.unitaryArgs request maxLength 0).findLongestCacheHit p (cfg.groups 0).spec).bind _ = _
    rw [hfind]
    rfl
  cases hrun.symm.trans hhit
  have hcov : cfg.Covers p request.blockHashes ⟨0, [], false⟩ rows length := ⟨hit.covers.length_eq, hit.covers.row⟩
  exact (hcov.block ⟨rfl, rfl⟩ mem_cons_self hb).imp_right And.left

/-- Every block of a hit is cached under the request's own hash, or null. -/
theorem findLongestCacheHit_block (h : cfg.Looks p) (hmax : maxLength / p.hashBlockSize ≤ request.blockHashes.length)
    (hhit : cfg.findLongestCacheHit p request.blockHashes maxLength = .ok (blocks, length, uncached))
    (hb : (blocks i)[k]? = some b) : cfg.OwnBlock p request.blockHashes i length k b ∨ b = p.nullBlock := by
  unfold findLongestCacheHit at hhit
  cases hh : cfg.hybrid with
  | true =>
    rw [if_pos hh] at hhit
    obtain ⟨blocks', length', uncached', hrun, hit⟩ := hybridFindLongestCacheHit_sound (h.hybrid hh) hmax
    cases hrun.symm.trans hhit
    exact (hit.block i k b hb).imp_right And.left
  | false =>
    rw [if_neg (by rw [hh]; exact Bool.false_ne_true)] at hhit
    obtain ⟨hone, hgroups⟩ := h.unitary hh
    exact unitaryFindLongestCacheHit_block h.hashBlockSize_pos hone hgroups hmax hhit hb

theorem OwnBlock.registered (h : cfg.Looks p) (hown : cfg.OwnBlock p request.blockHashes i length k b)
    (hdvd : p.hashBlockSize ∣ (cfg.groups i).blockSize) (hfull : (k + 1) * (cfg.groups i).blockSize ≤ length) :
    ∃ hash, p.hashEnding request (cfg.groups i).blockSize k = some hash ∧
      p.Registered (makeBlockHashWithGroupId hash i) := by
  obtain ⟨j, hash, -, hup, hlo, hget, hmem⟩ := hown
  rw [min_eq_right hfull] at hlo
  obtain rfl : j = (k + 1) * ((cfg.groups i).blockSize / p.hashBlockSize) := by
    apply eq_of_mul_eq_mul_right h.hashBlockSize_pos
    rw [mul_assoc, Nat.div_mul_cancel hdvd]
    exact le_antisymm hup hlo
  refine ⟨hash, hget, ?_⟩
  rw [h.kvCacheGroupId] at hmem
  exact ne_nil_of_mem hmem

theorem hashEnding_eq {request : HashedTokens H} {size size' k k' : ℕ} (hpos : 0 < p.hashBlockSize)
    (hdvd : p.hashBlockSize ∣ size) (hdvd' : p.hashBlockSize ∣ size') (h : (k + 1) * size = (k' + 1) * size') :
    p.hashEnding request size k = p.hashEnding request size' k' := by
  have heq : (k + 1) * (size / p.hashBlockSize) = (k' + 1) * (size' / p.hashBlockSize) := by
    apply eq_of_mul_eq_mul_right hpos
    rw [mul_assoc, mul_assoc, Nat.div_mul_cancel hdvd, Nat.div_mul_cancel hdvd', h]
  unfold BlockPool.hashEnding
  rw [heq]

/-- **Announcing a hit again is sound exactly** when, with events on, every group with a hit meets this: the
blocks of its spec are made of whole hashed blocks, and each of them that is announced ends with a
non-null block that the hit covers, or its hash is there and registered. -/
theorem announcement_sound_iff {H : Type} {n : ℕ} (cfg : CacheConfig n) (p : BlockPool H) (h : cfg.Looks p)
    (specBlockSize : Fin n → ℕ) (hsize : ∀ i, 0 < specBlockSize i) (request : HashedTokens H) (maxLength : ℕ)
    (hmax : maxLength / p.hashBlockSize ≤ request.blockHashes.length)
    (blocks : Fin n → List KVCacheBlock) (length uncached : ℕ)
    (hhit : cfg.findLongestCacheHit p request.blockHashes maxLength = .ok (blocks, length, uncached)) :
    p.AnnouncesSoundly (emitCachedBlockEvents specBlockSize request blocks) ↔
      (p.enableKvCacheEvents → ∀ i, blocks i ≠ [] → p.hashBlockSize ∣ specBlockSize i ∧ ∀ k < (blocks i).length,
        (∃ j b, (blocks i)[j]? = some b ∧ b ≠ p.nullBlock ∧ (j + 1) * (cfg.groups i).blockSize ≤ length ∧
          (k + 1) * specBlockSize i = (j + 1) * (cfg.groups i).blockSize) ∨
        ∃ hash, p.hashEnding request (specBlockSize i) k = some hash ∧
          p.Registered (makeBlockHashWithGroupId hash i)) := by
  cases hon : p.enableKvCacheEvents with
  | false => exact iff_of_true (emitCachedBlockEvents_off hon) nofun
  | true =>
    rw [emitCachedBlockEvents_sound_iff h.hashBlockSize_pos hsize hon]
    have hdvd : ∀ i, p.hashBlockSize ∣ (cfg.groups i).blockSize := by
      intro i
      cases hh : cfg.hybrid with
      | true => exact (h.hybrid hh).dvd i
      | false => exact dvd_of_eq ((h.unitary hh).2 i).1.symm
    constructor
    · intro hall _ i hne
      exact ⟨(hall i hne).1, fun k hk => .inr ((hall i hne).2 k hk)⟩
    intro hall i hne
    obtain ⟨hspec, hi⟩ := hall rfl i hne
    refine ⟨hspec, fun k hk => ?_⟩
    rcases hi k hk with ⟨j, b, hb, hnull, hcovered, hend⟩ | hreg
    · rw [hashEnding_eq h.hashBlockSize_pos hspec (hdvd i) hend]
      exact ((findLongestCacheHit_block h hmax hhit hb).resolve_right hnull).registered h (hdvd i) hcovered
    · exact hreg

/-- A hit of one whole block in each of two groups is announced. -/
theorem announcement_sound_one_block : ∃ p blocks rest, poolCaching 1 [⟨7, 0⟩, ⟨8, 0⟩, ⟨7, 1⟩, ⟨8, 1⟩] = some p ∧
      fullAndEagleWindow.findLongestCacheHit { p with enableKvCacheEvents := true } [7, 8] 2 =
        .ok (blocks, 1, rest) ∧ blocks 0 ≠ [] ∧ BlockPool.AnnouncesSoundly { p with enableKvCacheEvents := true }
        (emitCachedBlockEvents (fun _ => 1) ⟨[4, 5, 6], [7, 8]⟩ blocks) := by
  obtain ⟨p, blocks, rest, hp, hhit, h0, h1, hsize, hnull⟩ : ∃ p blocks rest,
      poolCaching 1 [⟨7, 0⟩, ⟨8, 0⟩, ⟨7, 1⟩, ⟨8, 1⟩] = some p ∧
      fullAndEagleWindow.findLongestCacheHit { p with enableKvCacheEvents := true } [7, 8] 2 =
        .ok (blocks, 1, rest) ∧ blocks 0 = [.block 1] ∧ blocks 1 = [.block 3] ∧ p.hashBlockSize = 1 ∧
      p.nullBlock = .block 0 :=
    ⟨_, _, _, rfl, rfl, rfl, rfl, rfl, rfl⟩
  have hlooks : fullAndEagleWindow.Looks { p with enableKvCacheEvents := true } := by
    refine ⟨?_, by decide, fun _ => fullAndEagleWindow_splits hsize, nofun⟩
    show 0 < p.hashBlockSize
    omega
  refine ⟨p, blocks, rest, hp, hhit, by rw [h0]; decide, ?_⟩
  apply (announcement_sound_iff fullAndEagleWindow _ hlooks (fun _ => 1) (fun _ => one_pos)
    ⟨[4, 5, 6], [7, 8]⟩ 2 (by show 2 / p.hashBlockSize ≤ 2; rw [hsize]) blocks 1 rest hhit).2
  intro _ i _
  have hone : ∀ i, (fullAndEagleWindow.groups i).blockSize = 1 := by decide
  have hrow : blocks i = [.block 1] ∨ blocks i = [.block 3] := by
    rcases Fin.exists_fin_two.1 ⟨i, rfl⟩ with rfl | rfl
    · exact .inl h0
    · exact .inr h1
  refine ⟨by show p.hashBlockSize ∣ 1; rw [hsize], fun k hk => .inl ?_⟩
  rw [hone i]
  show ∃ j b, (blocks i)[j]? = some b ∧ b ≠ p.nullBlock ∧ _
  rcases hrow with hrow | hrow <;> rw [hrow] at hk ⊢ <;> obtain rfl : k = 0 := Nat.lt_one_iff.1 hk <;>
    exact ⟨0, _, rfl, by rw [hnull]; decide, le_rfl, rfl⟩

/-- Announcements that are not sound. A sliding window has a null block where nothing is cached for it;
a hit that ends inside a block asks for the hash of the whole block; and with context parallelism the
spec has smaller blocks than the hashes. -/
theorem announcement_not_sound :
    (∃ p blocks, (poolCaching 1 [⟨7, 0⟩, ⟨8, 0⟩, ⟨8, 1⟩]).map (fun p => { p with enableKvCacheEvents := true }) =
        some p ∧ (fullAnd (.slidingWindow 2 0) 1 false false (by decide)
        (by rintro w e h; cases h; decide)).findLongestCacheHit p [7, 8] 2 = .ok (blocks, 2, 0) ∧
      blocks 1 = [p.nullBlock, .block 3] ∧
      ¬ p.AnnouncesSoundly (emitCachedBlockEvents (fun _ => 1) ⟨[4, 5, 6], [7, 8]⟩ blocks)) ∧
    (∃ p blocks p', (poolCaching 1 [⟨8, 0⟩, ⟨8, 1⟩]).map (fun p => { p with enableKvCacheEvents := true }) = some p ∧
      { fullAnd (.mamba 0 0 none) 4 false false (by decide) nofun with
        enablePartialHashHits := true }.findLongestCacheHit p [7, 8, 9] 2 = .ok (blocks, 2, 0) ∧
      emitCachedBlockEvents (fun _ => 4) ⟨[4, 5, 6], [7, 8, 9]⟩ blocks p = .error .indexError p') ∧
    (∃ p blocks text p', (poolCaching 2 [⟨7, 0⟩]).map (fun p => { p with enableKvCacheEvents := true }) = some p ∧
      (unitaryOf .fullAttention 2 (by decide) nofun).findLongestCacheHit p [7] 2 = .ok (blocks, 2, 0) ∧
      emitCachedBlockEvents (fun _ => 1) ⟨[4, 5, 6], [7]⟩ blocks p = .error (.assertionError text) p') := by
  refine ⟨⟨_, _, rfl, rfl, rfl, fun hsound => ?_⟩, ⟨_, _, _, rfl, rfl, rfl⟩, ⟨_, _, _, _, rfl, rfl, rfl⟩⟩
  obtain ⟨_, hreg⟩ := (emitCachedBlockEvents_sound_iff (by decide) (fun _ => one_pos) rfl).1 hsound 1 (by decide)
  obtain ⟨hash, hh, hkey⟩ := hreg 0 (by decide)
  cases hh
  exact hkey rfl

end CacheConfig

end VllmRwkv
