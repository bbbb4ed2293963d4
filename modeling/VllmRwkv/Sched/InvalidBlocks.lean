import VllmRwkv.Sched.Effects

/-!
# Blocks that failed to load

`_update_requests_with_invalid_blocks` goes over requests that may share blocks. The first request
with an invalid block takes it on: its computed tokens are cut before the block, and later requests
pass over it.
-/

namespace VllmRwkv

open List Dict CacheConfig Raise Scheduler

variable {H : Type} {n : ℕ}

namespace SchedulerConfig

/-! ## One row -/

/-- The scan finds the first invalid block that is not marked yet, and marks every invalid block. -/
theorem scanRow_eq (invalid : List ℕ) (idx : ℕ) (row marked : List ℕ) :
    (scanRow invalid idx row marked).1 = decide (∃ b ∈ row, b ∈ invalid) ∧
    (scanRow invalid idx row marked).2.1 = (row.findIdx? fun b => b ∈ invalid && b ∉ marked).map (idx + ·) ∧
    ∀ b, b ∈ (scanRow invalid idx row marked).2.2 ↔ b ∈ marked ∨ b ∈ row ∧ b ∈ invalid := by
  induction row generalizing idx marked with
  | nil => exact ⟨rfl, rfl, fun b => by simp [scanRow]⟩
  | cons blockId rest ih =>
    unfold scanRow
    rw [findIdx?_cons]
    by_cases hinv : blockId ∈ invalid
    · rw [if_neg (not_not.2 hinv)]
      by_cases hmark : blockId ∈ marked
      · obtain ⟨-, h2, h3⟩ := ih (idx + 1) marked
        rw [if_pos hmark]
        refine ⟨by simp [hinv], ?_, fun b => ?_⟩
        · rw [h2, if_neg (by simp [hmark]), Option.map_map]
          congr 1
          funext k
          exact add_right_comm idx 1 k
        rw [h3 b, mem_cons]
        constructor
        · rintro (h | h)
          · exact .inl h
          · exact .inr ⟨.inr h.1, h.2⟩
        rintro (h | ⟨rfl | h, h'⟩)
        · exact .inl h
        · exact .inl hmark
        · exact .inr ⟨h, h'⟩
      · obtain ⟨-, -, h3⟩ := ih (idx + 1) (blockId :: marked)
        rw [if_neg hmark]
        refine ⟨by simp [hinv], by simp [hinv, hmark], fun b => ?_⟩
        rw [h3 b, mem_cons, mem_cons]
        constructor
        · rintro ((rfl | h) | h)
          · exact .inr ⟨.inl rfl, hinv⟩
          · exact .inl h
          · exact .inr ⟨.inr h.1, h.2⟩
        rintro (h | ⟨rfl | h, h'⟩)
        · exact .inl (.inr h)
        · exact .inl (.inl rfl)
        · exact .inr ⟨h, h'⟩
    · obtain ⟨h1, h2, h3⟩ := ih (idx + 1) marked
      rw [if_pos hinv]
      refine ⟨?_, ?_, fun b => ?_⟩
      · rw [h1]
        simp [hinv]
      · rw [h2, if_neg (by simp [hinv]), Option.map_map]
        congr 1
        funext k
        exact add_right_comm idx 1 k
      rw [h3 b, mem_cons]
      constructor
      · rintro (h | h)
        · exact .inl h
        · exact .inr ⟨.inr h.1, h.2⟩
      rintro (h | ⟨rfl | h, h'⟩)
      · exact .inl h
      · exact absurd h' hinv
      · exact .inr ⟨h, h'⟩

/-! ## The loop over the requests -/

variable (cfg : SchedulerConfig H n) (s : Scheduler H n) (out : SchedulerOutput n) (invalid : List ℕ)

/-- The computed tokens of a request before the step. -/
def computedBefore (id : RequestId) : ℤ :=
  match s.requests.get? id with
  | none => 0
  | some r => r.numComputedTokens - ((out.numScheduledTokens.get? id).getD 0 : ℕ)

/-- The blocks of the computed tokens of a request before the step. -/
def computedRow (id : RequestId) : List ℕ :=
  (blockIdsOf s id).take ((computedBefore s out id + cfg.cache.schedulerBlockSize - 1) /
    cfg.cache.schedulerBlockSize).toNat

/-- The position of a request's first invalid block. -/
def firstInvalid (id : RequestId) : Option ℕ := (cfg.computedRow s out id).findIdx? (· ∈ invalid)

/-- The position of a request's first invalid block that is not in the computed range of the requests
visited before. -/
def firstOwnInvalid (visited : List RequestId) (id : RequestId) : Option ℕ :=
  (cfg.computedRow s out id).findIdx? fun b => b ∈ invalid && ∀ id' ∈ visited, b ∉ cfg.computedRow s out id'

/-- In `s'`, the request holds the block at a position that is not computed any more. -/
def Recomputes (s' : Scheduler H n) (id : RequestId) (b : ℕ) : Prop :=
  ∃ (j : ℕ) (r : Request H), (blockIdsOf s id)[j]? = some b ∧ s'.requests.get? id = some r ∧
    r.numComputedTokens ≤ j * cfg.cache.schedulerBlockSize

/-- **The invariant of the loop**, from `s`, after the requests `visited`. -/
structure Swept (evict : Bool) (visited : List RequestId) (scan : InvalidScan) (s' : Scheduler H n) : Prop where
  rest : s' = { s with requests := s'.requests }
  untouched : ∀ id ∉ visited, s'.requests.get? id = s.requests.get? id
  decreased : ∀ id r, s.requests.get? id = some r →
    ∃ r', s'.requests.get? id = some r' ∧ r'.numComputedTokens ≤ r.numComputedTokens
  marked : ∀ b, b ∈ scan.marked ↔ b ∈ invalid ∧ ∃ id ∈ visited, b ∈ cfg.computedRow s out id
  taken : ∀ (k : ℕ) id, visited[k]? = some id → ∀ b ∈ cfg.computedRow s out id, b ∈ invalid →
    ∃ k' ≤ k, ∃ id', visited[k']? = some id' ∧ cfg.Recomputes s s' id' b
  affected : ∀ id, id ∈ scan.affected ↔ id ∈ visited ∧ (cfg.firstInvalid s out invalid id).isSome
  evicted : ∀ b, b ∈ scan.blocksToEvict ↔ evict ∧ ∃ (k : ℕ) (id : RequestId) (idx : ℕ),
    visited[k]? = some id ∧ cfg.firstOwnInvalid s out invalid (visited.take k) id = some idx ∧
    b ∈ (blockIdsOf s id).drop idx

variable {cfg s out invalid}
  {s' : Scheduler H n} {id : RequestId} {visited : List RequestId} {r : Request H} {scan : InvalidScan}
  {evict : Bool}

theorem swept_start (evict : Bool) : cfg.Swept s out invalid evict [] {} s where
  rest := rfl
  untouched := fun _ _ => rfl
  decreased := fun _ r hr => ⟨r, hr, le_rfl⟩
  marked := fun b => by simp
  taken := nofun
  affected := fun id => by simp
  evicted := fun b => by simp

theorem blockIdsOf_eq (h : s' = { s with requests := s'.requests }) (id : RequestId) :
    blockIdsOf s' id = blockIdsOf s id := by
  rw [h]
  rfl

/-- The tokens left to a request that is affected. -/
def tokensLeft (cfg : SchedulerConfig H n) (before : ℤ) (first : Option ℕ) : ℕ :=
  match first with
  | some idx => idx * cfg.cache.schedulerBlockSize
  | none => before.toNat

theorem updateRequestWithInvalidBlocks_round (h : cfg.Swept s out invalid evict visited scan s')
    (hid : id ∉ visited) (hr : s.requests.get? id = some r) :
    wp (cfg.updateRequestWithInvalidBlocks invalid out evict scan id)
      (fun scan' s'' => if cfg.firstInvalid s out invalid id = none then scan' = scan ∧ s'' = s' else
        scan'.affected = scan.affected ++ [id] ∧
        scan'.blocksToEvict = scan.blocksToEvict ++ (match cfg.firstOwnInvalid s out invalid visited id with
            | some idx => if evict then (blockIdsOf s id).drop idx else []
            | none => []) ∧ (∀ b, b ∈ scan'.marked ↔ b ∈ scan.marked ∨ b ∈ cfg.computedRow s out id ∧ b ∈ invalid) ∧
        ∃ r', r'.numComputedTokens = cfg.tokensLeft (computedBefore s out id)
            (cfg.firstOwnInvalid s out invalid visited id) ∧ s'' = { s' with requests := s'.requests.set id r' })
      never s' := by
  have hbefore : computedBefore s out id = r.numComputedTokens - ((out.numScheduledTokens.get? id).getD 0 : ℕ) := by
    unfold computedBefore
    rw [hr]
  have hget := (h.untouched id hid).trans hr
  obtain ⟨h1, h2, h3⟩ := scanRow_eq invalid 0 (cfg.computedRow s out id) scan.marked
  -- the marks are the invalid blocks of the requests visited before
  have hown : (scanRow invalid 0 (cfg.computedRow s out id) scan.marked).2.1 =
      cfg.firstOwnInvalid s out invalid visited id := by
    have hpred : (fun b => decide (b ∈ invalid) && decide (b ∉ scan.marked)) =
        fun b => decide (b ∈ invalid) && decide (∀ id' ∈ visited, b ∉ cfg.computedRow s out id') := by
      funext b
      by_cases hinv : b ∈ invalid
      · have hiff : b ∉ scan.marked ↔ ∀ id' ∈ visited, b ∉ cfg.computedRow s out id' := by
          rw [h.marked b]
          simp [hinv]
        simp only [hiff]
      · simp [hinv]
    unfold firstOwnInvalid
    rw [h2, hpred]
    simp
  have hnone : cfg.firstInvalid s out invalid id = none ↔ ¬ ∃ b ∈ cfg.computedRow s out id, b ∈ invalid := by
    unfold firstInvalid
    simp
  unfold updateRequestWithInvalidBlocks
  rw [wp_bind, wp_getRequest_some hget, wp_get_bind]
  have hrow : (blockIdsOf s id).take ((computedBefore s out id + cfg.cache.schedulerBlockSize - 1) /
      cfg.cache.schedulerBlockSize).toNat = cfg.computedRow s out id := rfl
  rw [← hbefore, blockIdsOf_eq h.rest]
  dsimp only
  rw [hrow, h1, hown]
  by_cases hex : ∃ b ∈ cfg.computedRow s out id, b ∈ invalid
  · rw [if_neg (by simp [hex]), wp_bind, wp_setRequest, wp_pure, if_neg fun hn => hnone.1 hn hex]
    exact ⟨rfl, rfl, h3, _, rfl, rfl⟩
  · rw [if_pos (decide_eq_false hex), wp_pure, if_pos (hnone.2 hex)]
    exact ⟨rfl, rfl⟩

theorem firstOwnInvalid_spec {idx : ℕ} (h : cfg.firstOwnInvalid s out invalid visited id = some idx) :
    idx < (cfg.computedRow s out id).length ∧ ∀ (i b : ℕ), (cfg.computedRow s out id)[i]? = some b →
      b ∈ invalid → (∀ id' ∈ visited, b ∉ cfg.computedRow s out id') → idx ≤ i := by
  obtain ⟨hlt, -, hbefore⟩ := findIdx?_eq_some_iff_getElem.1 h
  refine ⟨hlt, fun i b hb hinv hnew => ?_⟩
  by_contra hlt'
  obtain ⟨hi, rfl⟩ := List.getElem?_eq_some_iff.1 hb
  have := hbefore i (not_le.1 hlt')
  simp only [Bool.and_eq_true, decide_eq_true_eq, not_and] at this
  exact this hinv hnew

theorem tokensLeft_le (hbs : 0 < cfg.cache.schedulerBlockSize) (hr : s.requests.get? id = some r) :
    cfg.tokensLeft (computedBefore s out id) (cfg.firstOwnInvalid s out invalid visited id) ≤ r.numComputedTokens := by
  have hbefore : computedBefore s out id ≤ r.numComputedTokens := by
    unfold computedBefore
    rw [hr]
    dsimp only
    omega
  unfold tokensLeft
  split
  next idx hidx =>
    have hlt := (firstOwnInvalid_spec hidx).1
    have hlen : (cfg.computedRow s out id).length ≤ ((computedBefore s out id +
        cfg.cache.schedulerBlockSize - 1) / cfg.cache.schedulerBlockSize).toNat := length_take_le _ _
    have hbs' : (0 : ℤ) < cfg.cache.schedulerBlockSize := by exact_mod_cast hbs
    have hle : ((idx : ℤ) + 1) ≤ (computedBefore s out id + cfg.cache.schedulerBlockSize - 1) /
        cfg.cache.schedulerBlockSize := by omega
    have hmul := (Int.le_ediv_iff_mul_le hbs').1 hle
    rw [Int.add_mul, Int.one_mul] at hmul
    have : ((idx * cfg.cache.schedulerBlockSize : ℕ) : ℤ) ≤ r.numComputedTokens := by
      omega
    exact_mod_cast this
  · omega

theorem getElem?_concat_iff {α : Type} {l : List α} {a x : α} {k : ℕ} :
    (l ++ [a])[k]? = some x ↔ l[k]? = some x ∨ k = l.length ∧ x = a := by
  rcases Nat.lt_trichotomy k l.length with hlt | rfl | hgt
  · rw [getElem?_append_left hlt]
    constructor
    · exact .inl
    · rintro (h | ⟨h, -⟩)
      · exact h
      · omega
  · simp [eq_comm]
  rw [getElem?_eq_none (by rw [length_append, length_singleton]; omega), getElem?_eq_none hgt.le]
  constructor
  · intro h
    cases h
  · rintro (h | ⟨h, -⟩)
    · cases h
    · omega

/-- The blocks that one more request brings up for eviction. -/
theorem exists_own_concat {b : ℕ} : (∃ (k : ℕ) (id' : RequestId) (idx : ℕ), (visited ++ [id])[k]? = some id' ∧
        cfg.firstOwnInvalid s out invalid ((visited ++ [id]).take k) id' = some idx ∧ b ∈ (blockIdsOf s id').drop idx) ↔
      (∃ (k : ℕ) (id' : RequestId) (idx : ℕ), visited[k]? = some id' ∧
        cfg.firstOwnInvalid s out invalid (visited.take k) id' = some idx ∧ b ∈ (blockIdsOf s id').drop idx) ∨
      ∃ idx, cfg.firstOwnInvalid s out invalid visited id = some idx ∧ b ∈ (blockIdsOf s id).drop idx := by
  constructor
  · rintro ⟨k, id', idx, hk, hown, hb⟩
    rcases getElem?_concat_iff.1 hk with hk | ⟨rfl, rfl⟩
    · rw [List.take_append_of_le_length (List.getElem?_eq_some_iff.1 hk).1.le] at hown
      exact .inl ⟨k, id', idx, hk, hown, hb⟩
    · rw [take_left] at hown
      exact .inr ⟨idx, hown, hb⟩
  rintro (⟨k, id', idx, hk, hown, hb⟩ | ⟨idx, hown, hb⟩)
  · refine ⟨k, id', idx, getElem?_concat_iff.2 (.inl hk), ?_, hb⟩
    rw [List.take_append_of_le_length (List.getElem?_eq_some_iff.1 hk).1.le]
    exact hown
  · refine ⟨visited.length, id, idx, getElem?_concat_iff.2 (.inr ⟨rfl, rfl⟩), ?_, hb⟩
    rw [take_left]
    exact hown

/-- A request without invalid blocks is passed over. -/
theorem Swept.skip (h : cfg.Swept s out invalid evict visited scan s')
    (hnone : cfg.firstInvalid s out invalid id = none) : cfg.Swept s out invalid evict (visited ++ [id]) scan s' := by
  have hclean : ∀ b ∈ cfg.computedRow s out id, b ∉ invalid := by simpa [firstInvalid] using hnone
  refine ⟨h.rest, fun id' hid' => h.untouched id' fun hm => hid' (mem_append_left _ hm), h.decreased,
    fun b => ?_, fun k id' hk b hb hinv => ?_, fun id' => ?_, fun b => ?_⟩
  · rw [h.marked b]
    constructor
    · rintro ⟨hinv, id', hid', hb⟩
      exact ⟨hinv, id', mem_append_left _ hid', hb⟩
    rintro ⟨hinv, id', hid', hb⟩
    rcases mem_append.1 hid' with hid' | hid'
    · exact ⟨hinv, id', hid', hb⟩
    · obtain rfl := mem_singleton.1 hid'
      exact absurd hinv (hclean b hb)
  · rcases getElem?_concat_iff.1 hk with hk | ⟨rfl, rfl⟩
    · obtain ⟨k', hle, id'', hk', hrec⟩ := h.taken k id' hk b hb hinv
      exact ⟨k', hle, id'', getElem?_concat_iff.2 (.inl hk'), hrec⟩
    · exact absurd hinv (hclean b hb)
  · rw [h.affected id', mem_append, mem_singleton]
    constructor
    · rintro ⟨hm, hsome⟩
      exact ⟨.inl hm, hsome⟩
    rintro ⟨hm | rfl, hsome⟩
    · exact ⟨hm, hsome⟩
    · rw [hnone] at hsome
      cases hsome
  · rw [h.evicted b, exists_own_concat]
    constructor
    · rintro ⟨he, hex⟩
      exact ⟨he, .inl hex⟩
    rintro ⟨he, hex | ⟨idx, hown, -⟩⟩
    · exact ⟨he, hex⟩
    · obtain ⟨hlt, hp, -⟩ := findIdx?_eq_some_iff_getElem.1 hown
      simp only [Bool.and_eq_true, decide_eq_true_eq] at hp
      exact absurd hp.1 (hclean _ (getElem_mem hlt))

/-- **One request** keeps the invariant. -/
theorem Swept.step (hbs : 0 < cfg.cache.schedulerBlockSize) (h : cfg.Swept s out invalid evict visited scan s')
    (hid : id ∉ visited) (hr : s.requests.get? id = some r) :
    wp (cfg.updateRequestWithInvalidBlocks invalid out evict scan id)
      (fun scan' s'' => cfg.Swept s out invalid evict (visited ++ [id]) scan' s'') never s' := by
  refine wp_imp (updateRequestWithInvalidBlocks_round h hid hr) (fun scan' s'' hround => ?_)
  split at hround
  next hnone =>
    obtain ⟨rfl, rfl⟩ := hround
    exact h.skip hnone
  rename_i hsome
  obtain ⟨haff, hevict, hmarked, r1, hleft, rfl⟩ := hround
  -- what an earlier request takes on, it keeps
  have hkept : ∀ id' ∈ visited, ∀ b, cfg.Recomputes s s' id' b →
      cfg.Recomputes s { s' with requests := s'.requests.set id r1 } id' b := by
    rintro id' hid' b ⟨j, r', hj, hr', hle⟩
    refine ⟨j, r', hj, ?_, hle⟩
    rw [← hr']
    exact get?_set_of_ne fun heq => hid (heq ▸ hid')
  refine ⟨?_, fun id' hid' => ?_, fun id' r' hr' => ?_, fun b => ?_, fun k id' hk b hb hinv => ?_, fun id' => ?_,
    fun b => ?_⟩
  · conv_lhs => rw [h.rest]
  · have hne : id' ≠ id := fun heq => hid' (by simp [heq])
    exact (get?_set_of_ne hne).trans (h.untouched id' fun hm => hid' (mem_append_left _ hm))
  · by_cases heq : id' = id
    · subst heq
      cases hr.symm.trans hr'
      exact ⟨r1, get?_set_self, hleft ▸ tokensLeft_le hbs hr⟩
    · obtain ⟨r2, hr2, hle⟩ := h.decreased id' r' hr'
      exact ⟨r2, (get?_set_of_ne heq).trans hr2, hle⟩
  · rw [hmarked b, h.marked b]
    constructor
    · rintro (⟨hinv, id', hid', hb⟩ | ⟨hb, hinv⟩)
      · exact ⟨hinv, id', mem_append_left _ hid', hb⟩
      · exact ⟨hinv, id, by simp, hb⟩
    rintro ⟨hinv, id', hid', hb⟩
    rcases mem_append.1 hid' with hid' | hid'
    · exact .inl ⟨hinv, id', hid', hb⟩
    · obtain rfl := mem_singleton.1 hid'
      exact .inr ⟨hb, hinv⟩
  · rcases getElem?_concat_iff.1 hk with hk | ⟨rfl, rfl⟩
    · obtain ⟨k', hle, id'', hk', hrec⟩ := h.taken k id' hk b hb hinv
      exact ⟨k', hle, id'', getElem?_concat_iff.2 (.inl hk'), hkept id'' (mem_of_getElem? hk') b hrec⟩
    · by_cases hold : ∃ id'' ∈ visited, b ∈ cfg.computedRow s out id''
      · -- an earlier request has taken the block on
        obtain ⟨id'', hid'', hb''⟩ := hold
        obtain ⟨k', hk'⟩ := getElem?_of_mem hid''
        obtain ⟨k2, hle, id2, hk2, hrec⟩ := h.taken k' id'' hk' b hb'' hinv
        have hlt := (List.getElem?_eq_some_iff.1 hk').1
        exact ⟨k2, by omega, id2, getElem?_concat_iff.2 (.inl hk2), hkept id2 (mem_of_getElem? hk2) b hrec⟩
      · obtain ⟨i, hi⟩ := getElem?_of_mem hb
        have hnew : ∀ id'' ∈ visited, b ∉ cfg.computedRow s out id'' := fun id'' hm hb'' => hold ⟨id'', hm, hb''⟩
        have hblock : (blockIdsOf s id')[i]? = some b := by
          unfold computedRow at hi
          rw [getElem?_take] at hi
          split at hi
          · exact hi
          · cases hi
        refine ⟨visited.length, le_rfl, id', getElem?_concat_iff.2 (.inr ⟨rfl, rfl⟩), i, r1, hblock, get?_set_self, ?_⟩
        rw [hleft]
        cases hown : cfg.firstOwnInvalid s out invalid visited id' with
        | none =>
          have := findIdx?_eq_none_iff.1 hown b hb
          simp only [Bool.and_eq_false_iff, decide_eq_false_iff_not] at this
          exact absurd hinv (this.resolve_right fun hn => hn hnew)
        | some idx => exact Nat.mul_le_mul_right _ ((firstOwnInvalid_spec hown).2 i b hi hinv hnew)
  · rw [haff, mem_append, h.affected id', mem_append, mem_singleton]
    constructor
    · rintro (⟨hm, hs⟩ | rfl)
      · exact ⟨.inl hm, hs⟩
      · exact ⟨.inr rfl, Option.isSome_iff_ne_none.2 hsome⟩
    · rintro ⟨hm | rfl, hs⟩
      · exact .inl ⟨hm, hs⟩
      · exact .inr rfl
  · rw [hevict, mem_append, h.evicted b, exists_own_concat]
    constructor
    · rintro (⟨he, hex⟩ | hb)
      · exact ⟨he, .inl hex⟩
      · cases hown : cfg.firstOwnInvalid s out invalid visited id with
        | none =>
          rw [hown] at hb
          cases hb
        | some idx =>
          rw [hown] at hb
          cases evict with
          | true => exact ⟨rfl, .inr ⟨idx, rfl, hb⟩⟩
          | false => cases hb
    · rintro ⟨he, hex | ⟨idx, hown, hb⟩⟩
      · exact .inl ⟨he, hex⟩
      · rw [hown, he]
        exact .inr hb

/-- **The whole loop** returns and has visited every request. -/
theorem sweep (hbs : 0 < cfg.cache.schedulerBlockSize) (evict : Bool) {ids : List RequestId} (hnodup : ids.Nodup)
    (hids : ∀ id ∈ ids, ∃ r, s.requests.get? id = some r) :
    wp (ids.foldlM (cfg.updateRequestWithInvalidBlocks invalid out evict) {})
      (fun scan s' => cfg.Swept s out invalid evict ids scan s') never s := by
  refine wp_imp (wp_foldlM (fun rest scan s' => ∃ visited, ids = visited ++ rest ∧
    cfg.Swept s out invalid evict visited scan s') (fun id rest scan s' hI => ?_)
    ⟨[], rfl, swept_start evict⟩) (fun scan s' hI => ?_)
  · obtain ⟨visited, rfl, h⟩ := hI
    have hid : id ∉ visited := by
      intro hm
      exact (nodup_append.1 hnodup).2.2 id hm id mem_cons_self rfl
    obtain ⟨r, hr⟩ := hids id (by simp)
    refine wp_imp (h.step hbs hid hr) (fun scan' s'' h' => ?_)
    exact ⟨visited ++ [id], by simp, h'⟩
  · obtain ⟨visited, rfl, h⟩ := hI
    rw [append_nil]
    exact h

/-! ## Both loops, and the eviction -/

variable (cfg s out invalid) in
/-- The requests whose load is under way. -/
def loadingRequests : List RequestId :=
  (cfg.policy.iter s.requestLt s.kvHoldingWaiting).filter fun id =>
    (s.requests.get? id).any (·.status = .waitingForRemoteKvs)

variable (cfg s) in
/-- A request is in one queue at most, its blocks are of the pool, and the index of the pool agrees. -/
structure Recoverable : Prop where
  index : s.kv.pool.IndexOK
  inPool : ∀ id, ∀ b ∈ blockIdsOf s id, b < s.kv.pool.numGpuBlocks
  running : s.running.Nodup
  loading : (cfg.loadingRequests s).Nodup
  disjoint : ∀ id ∈ s.running, id ∉ cfg.loadingRequests s
  known : ∀ id, id ∈ s.running ∨ id ∈ cfg.loadingRequests s → ∃ r, s.requests.get? id = some r

variable (cfg s out invalid) in
/-- The block is in the row of a running request, from the first invalid block on that no running
request before it has in its computed range. -/
def UpForEviction (b : ℕ) : Prop :=
  ∃ (k : ℕ) (id : RequestId) (idx : ℕ), s.running[k]? = some id ∧
    cfg.firstOwnInvalid s out invalid (s.running.take k) id = some idx ∧ b ∈ (blockIdsOf s id).drop idx

theorem firstOwnInvalid_congr (hid : cfg.computedRow s' out id = cfg.computedRow s out id)
    (hvisited : ∀ id' ∈ visited, cfg.computedRow s' out id' = cfg.computedRow s out id') :
    cfg.firstOwnInvalid s' out invalid visited id = cfg.firstOwnInvalid s out invalid visited id := by
  have hiff : ∀ b, (∀ id' ∈ visited, b ∉ cfg.computedRow s' out id') ↔ ∀ id' ∈ visited, b ∉ cfg.computedRow s out id' :=
    fun b => forall₂_congr fun id' hid' => by rw [hvisited id' hid']
  unfold firstOwnInvalid
  rw [hid]
  simp only [hiff]

variable [DecidableEq H]

/-- `_handle_invalid_blocks` under the fail policy: the failed requests are those with an invalid block
in their computed range, and the blocks up for eviction lose their keys. -/
theorem handleInvalidBlocks_fail (hbs : 0 < cfg.cache.schedulerBlockSize) (h : cfg.Recoverable s) (hn : n ≤ 1)
    (hfail : cfg.recomputeKvLoadFailures = false) :
    wp (cfg.handleInvalidBlocks invalid out) (fun failed s' => (∀ id, id ∈ failed ↔
          (id ∈ s.running ∨ id ∈ cfg.loadingRequests s) ∧ (cfg.firstInvalid s out invalid id).isSome) ∧
        s'.kv.pool.IndexOK ∧ ∀ b, (cfg.UpForEviction s out invalid b → s'.kv.pool.keysOf (.block b) = []) ∧
          (¬ cfg.UpForEviction s out invalid b → s'.kv.pool.keysOf (.block b) = s.kv.pool.keysOf (.block b)))
      never s := by
  unfold handleInvalidBlocks
  rw [wp_bind, wp_check]
  refine ⟨fun _ => ?_, fun hlt => hlt hn⟩
  rw [wp_get_bind, wp_bind]
  refine wp_imp (sweep hbs false h.loading fun id hid => h.known id (.inr hid)) ?_
  intro scan s1 h1
  -- the first loop does not touch what the second one reads
  have hrow : ∀ id ∈ s.running, cfg.computedRow s1 out id = cfg.computedRow s out id := by
    intro id hid
    unfold computedRow computedBefore
    rw [blockIdsOf_eq h1.rest, h1.untouched id (h.disjoint id hid)]
  rw [wp_bind]
  refine wp_imp (sweep hbs true h.running fun id hid => ?_) ?_
  · obtain ⟨r, hr⟩ := h.known id (.inl hid)
    exact ⟨r, (h1.untouched id (h.disjoint id hid)).trans hr⟩
  intro scan2 s2 h2
  have hkv : s2.kv = s.kv := by
    rw [h2.rest, h1.rest]
  have hfirst : ∀ id ∈ s.running, cfg.firstInvalid s1 out invalid id = cfg.firstInvalid s out invalid id := by
    intro id hid
    unfold firstInvalid
    rw [hrow id hid]
  have hown : ∀ (k : ℕ) id, s.running[k]? = some id → cfg.firstOwnInvalid s1 out invalid (s.running.take k) id =
        cfg.firstOwnInvalid s out invalid (s.running.take k) id := fun k id hk =>
    firstOwnInvalid_congr (hrow id (mem_of_getElem? hk)) fun id' hid' => hrow id' (mem_of_mem_take hid')
  have hevict : ∀ b, b ∈ scan2.blocksToEvict ↔ cfg.UpForEviction s out invalid b := by
    intro b
    rw [h2.evicted b]
    constructor
    · rintro ⟨-, k, id, idx, hk, hidx, hb⟩
      exact ⟨k, id, idx, hk, hown k id hk ▸ hidx, blockIdsOf_eq h1.rest id ▸ hb⟩
    · rintro ⟨k, id, idx, hk, hidx, hb⟩
      exact ⟨rfl, k, id, idx, hk, (hown k id hk).trans hidx, (blockIdsOf_eq h1.rest id).symm ▸ hb⟩
  have hfailed : ∀ id, id ∈ scan.affected ++ scan2.affected ↔
      (id ∈ s.running ∨ id ∈ cfg.loadingRequests s) ∧ (cfg.firstInvalid s out invalid id).isSome := by
    intro id
    rw [mem_append, h1.affected id, h2.affected id]
    constructor
    · rintro (⟨hm, hsome⟩ | ⟨hm, hsome⟩)
      · exact ⟨.inr hm, hsome⟩
      · exact ⟨.inl hm, hfirst id hm ▸ hsome⟩
    · rintro ⟨hm | hm, hsome⟩
      · exact .inr ⟨hm, (hfirst id hm).symm ▸ hsome⟩
      · exact .inl ⟨hm, hsome⟩
  rw [wp_bind, wp_runIf]
  constructor
  · intro _
    unfold onKv evictBlocks KVCacheManager.onPool
    rw [wp_zoom, wp_zoom, hkv]
    have hin : ∀ b ∈ scan2.blocksToEvict.dedup, b < s.kv.pool.numGpuBlocks := by
      intro b hb
      obtain ⟨_, id, _, _, _, hm⟩ := (hevict b).1 (mem_dedup.1 hb)
      exact h.inPool id b (mem_of_mem_drop hm)
    refine wp_imp (BlockPool.evictBlocks_keysOf h.index hin) ?_
    rintro _ p' ⟨hindex, hkeys⟩
    rw [if_pos hfail, wp_pure]
    refine ⟨hfailed, hindex, fun b => ?_⟩
    have hmem : KVCacheBlock.block b ∈ scan2.blocksToEvict.dedup.map .block ↔ cfg.UpForEviction s out invalid b := by
      rw [← hevict b]
      simp
    exact ⟨fun hup => (hkeys _).trans (if_pos (hmem.2 hup)), fun hup => (hkeys _).trans (if_neg (hup ∘ hmem.1))⟩
  · intro hnot
    have hnil : scan2.blocksToEvict = [] := by
      by_contra hne
      exact hnot ⟨hne, hfail⟩
    rw [if_pos hfail, wp_pure, hkv]
    refine ⟨hfailed, h.index, fun b => ⟨fun hup => ?_, fun _ => rfl⟩⟩
    rw [← hevict b, hnil] at hup
    cases hup

/-- **Recovery from failed loads.** Going over any requests, computed tokens only decrease, and every
invalid block in the computed range of a request is recomputed by that request or one before it. Under
the fail policy, nothing from a failed request's first invalid position on can be hit any more exactly
if each such block is in the row of a running request from the first invalid block on that no running
request before it has computed, or was not in the index. -/
theorem invalid_blocks_recovery {H : Type} {n : ℕ} [DecidableEq H] (cfg : SchedulerConfig H n)
    (s : Scheduler H n) (out : SchedulerOutput n) (invalid : List ℕ) (hbs : 0 < cfg.cache.schedulerBlockSize) :
    (∀ (evict : Bool) (ids : List RequestId), ids.Nodup → (∀ id ∈ ids, ∃ r, s.requests.get? id = some r) →
      ∃ scan s', ids.foldlM (cfg.updateRequestWithInvalidBlocks invalid out evict) {} s = .ok scan s' ∧
        (∀ id r, s.requests.get? id = some r →
          ∃ r', s'.requests.get? id = some r' ∧ r'.numComputedTokens ≤ r.numComputedTokens) ∧
        ∀ (k : ℕ) id, ids[k]? = some id → ∀ b ∈ cfg.computedRow s out id, b ∈ invalid →
          ∃ k' ≤ k, ∃ id', ids[k']? = some id' ∧ cfg.Recomputes s s' id' b) ∧
    (cfg.Recoverable s → n ≤ 1 → cfg.recomputeKvLoadFailures = false →
      ∃ failed s', cfg.handleInvalidBlocks invalid out s = .ok failed s' ∧
        ((∀ id ∈ failed, ∀ first, cfg.firstInvalid s out invalid id = some first →
            ∀ b ∈ (blockIdsOf s id).drop first, ∀ key, .block b ∉ s'.kv.pool.cachedBlockHashToBlock.blocks key) ↔
          ∀ id, id ∈ s.running ∨ id ∈ cfg.loadingRequests s →
            ∀ first, cfg.firstInvalid s out invalid id = some first → ∀ b ∈ (blockIdsOf s id).drop first,
              cfg.UpForEviction s out invalid b ∨ ∀ key, .block b ∉ s.kv.pool.cachedBlockHashToBlock.blocks key)) := by
  constructor
  · intro evict ids hnodup hids
    have hsweep : wp (ids.foldlM (cfg.updateRequestWithInvalidBlocks invalid out evict) {})
        (fun scan s' => cfg.Swept s out invalid evict ids scan s') (fun _ _ => False) s :=
      sweep hbs evict hnodup hids
    cases hrun : ids.foldlM (cfg.updateRequestWithInvalidBlocks invalid out evict) {} s with
    | error e s' => exact (wp_error hsweep hrun).elim
    | ok scan s' =>
      have h := wp_ok hsweep hrun
      exact ⟨scan, s', rfl, h.decreased, h.taken⟩
  · intro h hn hfail
    have hhandle : wp (cfg.handleInvalidBlocks invalid out) _ _ s := handleInvalidBlocks_fail hbs h hn hfail
    cases hrun : cfg.handleInvalidBlocks invalid out s with
    | error e s' => exact (wp_error hhandle hrun).elim
    | ok failed s' =>
      obtain ⟨hfailed, hindex, hkeys⟩ := wp_ok hhandle hrun
      -- a block is out of the index afterwards if it was evicted, or was not in it
      have hgone : ∀ b, (∀ key, .block b ∉ s'.kv.pool.cachedBlockHashToBlock.blocks key) ↔
          cfg.UpForEviction s out invalid b ∨ ∀ key, .block b ∉ s.kv.pool.cachedBlockHashToBlock.blocks key := by
        intro b
        have hout : ∀ {p : BlockPool H}, p.IndexOK →
            ((∀ key, .block b ∉ p.cachedBlockHashToBlock.blocks key) ↔ p.keysOf (.block b) = []) := by
          intro p hp
          rw [eq_nil_iff_forall_not_mem]
          exact forall_congr' fun key => not_congr (hp.mem_iff key _)
        rw [hout hindex, hout h.index]
        by_cases hup : cfg.UpForEviction s out invalid b
        · exact iff_of_true ((hkeys b).1 hup) (.inl hup)
        · rw [(hkeys b).2 hup]
          exact ⟨.inr, fun hor => hor.resolve_left hup⟩
      refine ⟨failed, s', rfl, fun hall id hid first hf b hb => ?_, fun hall id hid first hf b hb => ?_⟩
      · exact (hgone b).1 (hall id ((hfailed id).2 ⟨hid, by rw [hf]; rfl⟩) first hf b hb)
      · exact (hgone b).2 (hall id ((hfailed id).1 hid).1 first hf b hb)

/-! ## Two running requests -/

/-- A request that has computed two of its tokens before the step, which schedules the third. -/
def twoComputed (id : RequestId) (blockHashes : List ℕ) : Request ℕ where
  requestId := id
  status := .running
  numPromptTokens := 3
  allTokenIds := [4, 5, 6]
  blockHashes := blockHashes
  numComputedTokens := 3
  numInFlightTokens := 1
  sharedPrefixBoundary := 0

/-- Requests 1 and 2 are running with the given rows. -/
def twoRunning (p : BlockPool ℕ) (row row' : List KVCacheBlock) : Scheduler ℕ 1 :=
  { init ⟨p, fun _ => { ManagerState.init with
      reqToBlocks := fun id => if id = 1 then row else if id = 2 then row' else [] }⟩ with
    requests := (empty.set 1 (twoComputed 1 [7, 8])).set 2 (twoComputed 2 [7, 9])
    running := [1, 2] }

def twoScheduled : SchedulerOutput 1 where
  scheduledNewReqs := []
  scheduledResumedReqs := []
  scheduledCachedReqs := []
  numScheduledTokens := (empty.set 1 1).set 2 1
  totalNumScheduledTokens := 2
  scheduledSpecDecodeTokens := .empty
  scheduledEncoderInputs := .empty
  freeEncoderMmHashes := []
  preemptedReqIds := []
  finishedReqIds := []
  kvCacheBlockCopies := []
  numSpecTokensToSchedule := 0
  hasSyncKvLoads := true

/-- A sliding window of two tokens in blocks of one, and the fail policy. -/
def failWindow : SchedulerConfig ℕ 1 :=
  .plain (.unitaryOf (.slidingWindow 2 0) 1 Nat.one_pos window_two_pos) .fcfs

/-- Block 1 of the first request fails to load: the block computed after it cannot be hit any more. -/
theorem invalid_blocks_recovery_unshared : ∃ p failed s', poolCaching 1 [⟨7, 0⟩, ⟨8, 0⟩, ⟨9, 0⟩] = some p ∧
      failWindow.handleInvalidBlocks [1] twoScheduled
        (twoRunning p [.block 1, .block 2, .block 4] [.block 3, .block 5, .block 6]) = .ok failed s' ∧
      1 ∈ failed ∧ ∀ key, .block 2 ∉ s'.kv.pool.cachedBlockHashToBlock.blocks key := by
  obtain ⟨p, failed, s', hp, hrun, hmem⟩ : ∃ p failed s', poolCaching 1 [⟨7, 0⟩, ⟨8, 0⟩, ⟨9, 0⟩] = some p ∧
      failWindow.handleInvalidBlocks [1] twoScheduled
        (twoRunning p [.block 1, .block 2, .block 4] [.block 3, .block 5, .block 6]) = .ok failed s' ∧
      1 ∈ failed := ⟨_, _, _, rfl, rfl, by decide⟩
  set s := twoRunning p [.block 1, .block 2, .block 4] [.block 3, .block 5, .block 6]
  obtain ⟨hindex, hnum⟩ := poolCaching_indexOK (by decide) hp
  have hrow : ∀ id, blockIdsOf s id = if id = 1 then [1, 2, 4] else if id = 2 then [3, 5, 6] else [] := by
    intro id
    show filterMap _ (flatMap _ [0]) = _
    by_cases h1 : id = 1
    · subst h1
      rfl
    by_cases h2 : id = 2
    · subst h2
      rfl
    · simp [s, twoRunning, init, h1, h2]
  have hok : failWindow.Recoverable s := by
    refine ⟨hindex, fun id b hb => ?_, show [1, 2].Nodup by decide, nodup_nil,
      fun id _ => not_mem_nil, fun id hid => ?_⟩
    · show b < p.numGpuBlocks
      rw [hrow id] at hb
      rw [hnum]
      split at hb
      · revert b
        decide
      split at hb
      · revert b
        decide
      · cases hb
    · rcases hid with hid | hid
      · rcases mem_cons.1 hid with rfl | hid
        · exact ⟨_, rfl⟩
        · obtain rfl := mem_singleton.1 hid
          exact ⟨_, rfl⟩
      · cases hid
  obtain ⟨_, _, hrun', hiff⟩ := (invalid_blocks_recovery failWindow s twoScheduled [1] (by decide)).2 hok le_rfl rfl
  cases hrun.symm.trans hrun'
  refine ⟨p, failed, s', hp, hrun, hmem,
    hiff.2 (fun id hid first hfirst b hb => ?_) 1 hmem 0 rfl 2 (by rw [hrow]; decide)⟩
  rcases hid with hid | hid
  · rcases mem_cons.1 hid with rfl | hid
    · cases hfirst
      exact .inl ⟨0, 1, 0, rfl, rfl, hb⟩
    · obtain rfl := mem_singleton.1 hid
      cases hfirst
  · cases hid

/-- Two requests share block 1, which fails to load. The first one's blocks are evicted; block 3 of
the second one is computed after block 1 as well, stays in the index, and the next request hits it. -/
theorem shared_block_not_evicted : ∃ p failed s' blocks, poolCaching 1 [⟨7, 0⟩, ⟨8, 0⟩, ⟨9, 0⟩] = some p ∧
      failWindow.handleInvalidBlocks [1] twoScheduled
        (twoRunning p [.block 1, .block 2, .block 4] [.block 1, .block 3, .block 5]) = .ok failed s' ∧ 2 ∈ failed ∧
      failWindow.firstInvalid (twoRunning p [.block 1, .block 2, .block 4] [.block 1, .block 3, .block 5])
        twoScheduled [1] 2 = some 0 ∧ .block 3 ∈ s'.kv.pool.cachedBlockHashToBlock.blocks ⟨9, 0⟩ ∧
      failWindow.cache.findLongestCacheHit s'.kv.pool [7, 9] 2 = .ok (blocks, 2, 0) ∧
      blocks 0 = [s'.kv.pool.nullBlock, .block 3] := by
  refine ⟨_, _, _, _, rfl, rfl, by decide, rfl, ?_, rfl, rfl⟩
  exact mem_singleton.2 rfl

end SchedulerConfig

end VllmRwkv
