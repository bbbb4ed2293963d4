import VllmRwkv.Cache.HitSound
import VllmRwkv.Cache.Residence

/-!
# The admission cap

A request admitted to a group with a sliding window or local chunks is counted with at most
`max_admission_blocks_per_request` blocks. `held_le_cap`: in a run whose calls stay within the
tokens in flight, lookahead included, no request ever holds more. The cap leaves out the slots of
lookahead tokens, and it takes chunks to start at the start of a block: `held_exceeds_cap`.
-/

namespace VllmRwkv

open List Function Option Raise Relation BlockPool CacheGroup GroupConfig KVCacheManager

variable {H : Type} {n : ℕ}

/-! ## Positions and blocks -/

theorem GroupConfig.numSkippedBlocks_mono (cfg : GroupConfig) {p q : ℕ} (h : p ≤ q) :
    cfg.numSkippedBlocks p ≤ cfg.numSkippedBlocks q := by
  refine Nat.div_le_div_right ?_
  unfold getNumSkippedTokens
  split
  · exact le_refl 0
  · omega
  · exact Nat.mul_le_mul_right _ (Nat.div_le_div_right h)
  · omega

theorem GroupConfig.numSkippedBlocks_zero (cfg : GroupConfig) : cfg.numSkippedBlocks 0 = 0 := by
  unfold numSkippedBlocks getNumSkippedTokens
  split
  · exact Nat.zero_div _
  next window extra hspec =>
    have hpos := cfg.window_pos window extra hspec
    rw [show 0 + 1 - (window + extra) = 0 by omega, Nat.zero_div]
  · rw [Nat.zero_div, zero_mul, Nat.zero_div]
  · rw [Nat.zero_sub, Nat.zero_div]

/-- Tokens `x` to `x + c` lie in one block more than `c` tokens from the start of a block. -/
theorem cdiv_add_le {x c b : ℕ} (hb : 0 < b) : cdiv (x + c) b ≤ x / b + cdiv c b + 1 := by
  have hx := Nat.div_add_mod x b
  have hlt := Nat.mod_lt x hb
  have hc : c ≤ cdiv c b * b := by
    have h1 := Nat.div_add_mod (c + b - 1) b
    have h2 := Nat.mod_lt (c + b - 1) hb
    unfold cdiv
    rw [mul_comm]
    omega
  refine Nat.le_of_lt_succ ((Nat.div_lt_iff_lt_mul hb).2 ?_)
  have hmul : (x / b + cdiv c b + 2) * b = b * (x / b) + cdiv c b * b + 2 * b := by ring
  show x + c + b - 1 < (x / b + cdiv c b + 1 + 1) * b
  rw [show x / b + cdiv c b + 1 + 1 = x / b + cdiv c b + 2 by omega, hmul]
  omega

/-- From the start of a block on there is no block more. -/
theorem cdiv_add_of_dvd {x c b : ℕ} (hb : 0 < b) (h : b ∣ x) : cdiv (x + c) b = x / b + cdiv c b := by
  obtain ⟨k, rfl⟩ := h
  unfold cdiv
  rw [Nat.mul_div_cancel_left k hb]
  by_cases hc : 0 < c + b
  · rw [show b * k + c + b - 1 = b * k + (c + b - 1) by omega, Nat.mul_add_div hb]
  · omega

/-! ## Resident rows -/

section

variable (cfg : CacheConfig n) (maxInFlight bound : ℕ)

/-- The blocks up to `maxInFlight` tokens past a processed position, and within the first `bound`
tokens. -/
def CacheConfig.reach (i : Fin n) (p : ℕ) : ℕ :=
  cdiv (min (p + maxInFlight) bound) (cfg.groups i).blockSize

/-- A row that reaches at most `maxInFlight` tokens past a processed position, and is null below the
window of that position. -/
def CacheConfig.Resident (null : KVCacheBlock) (i : Fin n) (row : List KVCacheBlock) : Prop :=
  ∃ p, Windowed null ((cfg.groups i).numSkippedBlocks p) (cfg.reach maxInFlight bound i p) row

end

/-- The cap of a group covers its resident rows: a chunk is made of whole blocks. -/
def GroupConfig.Aligned (cfg : GroupConfig) : Prop :=
  match cfg.spec with
  | .chunkedLocalAttention chunk => 0 < chunk ∧ cfg.blockSize ∣ chunk
  | _ => True

namespace CacheConfig

variable {cfg : CacheConfig n} {maxInFlight bound : ℕ} {bounds : RequestId → ℕ} {null : KVCacheBlock}
  {i : Fin n} {row : List KVCacheBlock}

theorem reach_mono {p q : ℕ} (h : p ≤ q) : cfg.reach maxInFlight bound i p ≤ cfg.reach maxInFlight bound i q :=
  cdiv_le_cdiv _ (by omega)

theorem Resident.nil (cfg : CacheConfig n) (maxInFlight bound : ℕ) (null : KVCacheBlock) (i : Fin n) :
    cfg.Resident maxInFlight bound null i [] := by
  refine ⟨0, ?_⟩
  rw [numSkippedBlocks_zero]
  exact Windowed.nil null _

/-- **What a resident row holds.** -/
theorem Resident.numHeld_le_cap (h : cfg.Resident maxInFlight bound null i row)
    (hbound : bound ≤ cfg.maxModelLen) (halign : (cfg.groups i).Aligned)
    {cap : ℕ} (hcap : (cfg.groups i).spec.maxAdmissionBlocksPerRequest (cfg.groups i).blockSize maxInFlight
      cfg.maxModelLen = some cap) : numHeld null row ≤ cap := by
  obtain ⟨p, hp⟩ := h
  refine hp.numHeld_le.trans ?_
  unfold reach
  have hb := (cfg.groups i).blockSize_pos
  unfold KVCacheSpec.maxAdmissionBlocksPerRequest at hcap
  unfold GroupConfig.Aligned at halign
  unfold numSkippedBlocks getNumSkippedTokens
  cases hspec : (cfg.groups i).spec with
  | fullAttention | mamba => rw [hspec] at hcap; exact absurd hcap (by simp)
  | slidingWindow window extra =>
    rw [hspec] at hcap
    cases hcap
    have hpos := (cfg.groups i).window_pos window extra hspec
    dsimp only
    set skipped := p + 1 - (window + extra)
    set c := min (window - 1 + extra + maxInFlight) cfg.maxModelLen
    have hreach : min (p + maxInFlight) bound ≤ skipped + c := by omega
    have h1 := cdiv_le_cdiv (cfg.groups i).blockSize hreach
    have h2 := cdiv_add_le (x := skipped) (c := c) hb
    omega
  | chunkedLocalAttention chunk =>
    rw [hspec] at hcap halign
    cases hcap
    obtain ⟨hchunk, hdvd⟩ := halign
    have hmod := Nat.div_add_mod p chunk
    have hlt := Nat.mod_lt p hchunk
    have hmul : chunk * (p / chunk) = p / chunk * chunk := mul_comm _ _
    dsimp only
    set skipped := p / chunk * chunk
    set c := min (chunk + maxInFlight) cfg.maxModelLen
    have hreach : min (p + maxInFlight) bound ≤ skipped + c := by omega
    have h1 := cdiv_le_cdiv (cfg.groups i).blockSize hreach
    have h2 := cdiv_add_of_dvd (x := skipped) (c := c) hb (Dvd.dvd.mul_left hdvd _)
    omega

theorem Resident.numHeld_le_bound (h : cfg.Resident maxInFlight bound null i row) :
    numHeld null row ≤ cdiv bound (cfg.groups i).blockSize := by
  obtain ⟨p, hp⟩ := h
  have hreach : cfg.reach maxInFlight bound i p ≤ cdiv bound (cfg.groups i).blockSize :=
    cdiv_le_cdiv _ (min_le_right _ _)
  have hheld := hp.numHeld_le
  omega

/-! ## Steps -/

/-- Every row of a group outside align mode is resident, with a bound for each request. -/
structure Residents (cfg : CacheConfig n) (maxInFlight : ℕ) (bounds : RequestId → ℕ) (null : KVCacheBlock)
    (s : KVCacheManager H n) : Prop where
  nullBlock : s.pool.nullBlock = null
  rows : ∀ i, (cfg.groups i).isMamba = false → ∀ r,
    cfg.Resident maxInFlight (bounds r) null i ((s.managers i).reqToBlocks r)

/-- Every window of the first row is a window of the second, unless the second is empty. -/
def RowShrinks (null : KVCacheBlock) (row row' : List KVCacheBlock) : Prop :=
  row' = [] ∨ ∀ lo hi, Windowed null lo hi row → Windowed null lo hi row'

theorem RowShrinks.refl (null : KVCacheBlock) (row : List KVCacheBlock) : RowShrinks null row row :=
  .inr fun _ _ h => h

theorem RowShrinks.resident {row' : List KVCacheBlock} (h : RowShrinks null row row')
    (hrow : cfg.Resident maxInFlight bound null i row) : cfg.Resident maxInFlight bound null i row' := by
  rcases h with rfl | h
  · exact Resident.nil cfg maxInFlight bound null i
  · obtain ⟨p, hp⟩ := hrow
    exact ⟨p, h _ _ hp⟩

variable {s s' : KVCacheManager H n} {held : KVCacheBlock → ℕ} {r : RequestId}

theorem Residents.congr (h : cfg.Residents maxInFlight bounds null s) (hnull : s'.pool.nullBlock = s.pool.nullBlock)
    (hrows : ∀ i r, (s'.managers i).reqToBlocks r = (s.managers i).reqToBlocks r) :
    cfg.Residents maxInFlight bounds null s' := by
  refine ⟨hnull.trans h.nullBlock, fun i hbase r => ?_⟩
  rw [hrows i r]
  exact h.rows i hbase r

/-- What one turn of a loop over the groups does to the rows of its group. -/
def Shrinks (cfg : CacheConfig n) (i : Fin n) {α : Type} (prog : GroupM H α) : Prop :=
  ∀ (o : KVCacheBlock → ℕ) (g : CacheGroup H), g.Owned o →
    wp prog (fun _ g' => g'.Owned o ∧ SamePool g.pool g'.pool ∧ ((cfg.groups i).isMamba = false →
      ∀ r, RowShrinks g.pool.nullBlock (g.mgr.reqToBlocks r) (g'.mgr.reqToBlocks r))) (fun _ _ => True) g

/-- The group of the loop is resident. -/
def ResidentAt (cfg : CacheConfig n) (maxInFlight : ℕ) (bounds : RequestId → ℕ) (null : KVCacheBlock) (i : Fin n)
    (m : ManagerState H) : Prop :=
  (cfg.groups i).isMamba = false → ∀ r, cfg.Resident maxInFlight (bounds r) null i (m.reqToBlocks r)

theorem Shrinks.turn {α : Type} {prog : GroupM H α} (h : cfg.Shrinks i prog) (o : KVCacheBlock → ℕ)
    (g : CacheGroup H) (hnull : g.pool.nullBlock = null)
    (hres : cfg.ResidentAt maxInFlight bounds null i g.mgr) (hg : g.Owned o) :
    wp prog (fun _ g' => g'.Owned o ∧ SamePool g.pool g'.pool ∧
      cfg.ResidentAt maxInFlight bounds null i g'.mgr) any g := by
  refine wp_imp (h o g hg) ?_
  intro _ g' ⟨hown, hsame', hrows⟩
  refine ⟨hown, hsame', fun hbase r => ?_⟩
  have hshrink := hrows hbase r
  rw [hnull] at hshrink
  exact hshrink.resident (hres hbase r)

theorem Turning.residents (h : Turning held s (cfg.ResidentAt maxInFlight bounds null)
    (cfg.ResidentAt maxInFlight bounds null) [] s') (hnull : s.pool.nullBlock = null) :
    cfg.Residents maxInFlight bounds null s' :=
  ⟨h.same.nullBlock.trans hnull, fun i hbase r => h.done i not_mem_nil hbase r⟩

theorem Residents.forManagers {prog : Fin n → GroupM H Unit} (h : cfg.Residents maxInFlight bounds null s)
    (hs : s.Owned held) (hprog : ∀ i, cfg.Shrinks i (prog i)) :
    wp (forManagers prog) (fun _ s' => cfg.Residents maxInFlight bounds null s') any s := by
  refine wp_imp (forManagers_turns hs h.rows fun i o g hsame hP hg =>
      (hprog i).turn o g (hsame.nullBlock.trans h.nullBlock) hP hg) ?_
  exact fun _ _ h' => Turning.residents h' h.nullBlock

theorem Residents.foldlM {α β : Type} {prog : Fin n → GroupM H α} {f : β → α → β} {b : β}
    (h : cfg.Residents maxInFlight bounds null s) (hs : s.Owned held) (hprog : ∀ i, cfg.Shrinks i (prog i)) :
    wp ((finRange n).foldlM (fun acc i => do
        return f acc (← onManager i (prog i))) b)
      (fun _ s' => cfg.Residents maxInFlight bounds null s') any s := by
  refine wp_imp (wp_foldlM (fun rest _ s' => Turning held s (cfg.ResidentAt maxInFlight bounds null)
    (cfg.ResidentAt maxInFlight bounds null) rest s') ?_ (Turning.start hs h.rows)) ?_
  · intro i rest _ s1 h1
    rw [wp_bind]
    refine wp_imp (turns_step (fun o g hsame hP hg =>
      (hprog i).turn o g (hsame.nullBlock.trans h.nullBlock) hP hg) h1) ?_
    exact fun _ _ h => h
  · exact fun _ _ h' => Turning.residents h' h.nullBlock

theorem free_shrinks : cfg.Shrinks i ((cfg.groups i).free (H := H) r) := by
  intro o g hg
  refine wp_any (wp_and (free_owned hg) (keeps_at free_writesAt g)) ?_
  intro _ g' ⟨⟨hown, hsame, hgone⟩, hbut⟩
  refine ⟨hown, hsame, fun _ r' => ?_⟩
  by_cases hr : r' = r
  · subst hr; exact .inl hgone.row
  · rw [hbut.reqToBlocks r' hr]; exact RowShrinks.refl _ _

theorem popBlocksForFree_shrinks : cfg.Shrinks i ((cfg.groups i).popBlocksForFree (H := H) r) := by
  intro o g hg
  refine wp_any (wp_and (popBlocksForFree_owned hg) (keeps_at popBlocksForFree_writesAt g)) ?_
  intro ret g' ⟨⟨hown, hpool, _, hgone⟩, hbut⟩
  refine ⟨hown.mono fun b => Nat.le_add_right _ _, hpool ▸ SamePool.refl _, fun _ r' => ?_⟩
  by_cases hr : r' = r
  · subst hr; exact .inl hgone.row
  · rw [hbut.reqToBlocks r' hr]; exact RowShrinks.refl _ _

theorem removeSkippedBlocks_shrinks {processed : ℕ} :
    cfg.Shrinks i ((cfg.groups i).removeSkippedBlocks (H := H) r processed) := by
  intro o g hg
  have hwin := wp_forall (m := (cfg.groups i).removeSkippedBlocks (H := H) r processed) (s := g)
    (ι := { x : ℕ × ℕ // (cfg.groups i).isMamba = false ∧ Windowed g.pool.nullBlock x.1 x.2 (g.mgr.reqToBlocks r) })
    fun x => GroupConfig.removeSkippedBlocks_windowed hg x.2.1 x.2.2
  refine wp_any (wp_and (GroupConfig.removeSkippedBlocks_nulls hg) hwin) ?_
  intro _ g' ⟨⟨hown, hnulled⟩, hwin'⟩
  refine ⟨hown, hnulled.same, fun hbase r' => ?_⟩
  by_cases hr : r' = r
  · subst hr
    refine .inr fun lo hi h => ?_
    exact (hwin' ⟨(lo, hi), hbase, h⟩).mono (le_max_left _ _) le_rfl
  · rw [hnulled.others r' hr]; exact RowShrinks.refl _ _

theorem newStepStarts_shrinks : cfg.Shrinks i ((cfg.groups i).newStepStarts (H := H)) := by
  intro o g hg
  unfold GroupConfig.newStepStarts
  split
  · exact ⟨hg.setTables rfl rfl, SamePool.refl _, fun _ _ => RowShrinks.refl _ _⟩
  · exact ⟨hg, SamePool.refl _, fun _ _ => RowShrinks.refl _ _⟩

section Caching

variable [DecidableEq H]

section

variable {request : Request H} {numTokens : ℕ}

theorem cacheBlocks_shrinks {interval : Option ℕ} {boundaries : List ℕ} (c : Prop) [Decidable c] :
    cfg.Shrinks i (runIf c ((cfg.groups i).cacheBlocks request numTokens interval boundaries)) := by
  intro o g hg
  rw [wp_runIf]
  refine ⟨fun _ => ?_, fun _ => ⟨hg, SamePool.refl _, fun _ _ => RowShrinks.refl _ _⟩⟩
  refine wp_any (cacheBlocks_onlyCached g (OnlyCached.refl _ _ _)) ?_
  intro _ g' hc
  refine ⟨hc.owned hg, hc.refs.samePool, fun _ r => ?_⟩
  rw [hc.rows]; exact RowShrinks.refl _ _

theorem Residents.coordinatorCacheBlocks (h : cfg.Residents maxInFlight bounds null s) (hs : s.Owned held) :
    wp (cfg.coordinatorCacheBlocks request numTokens) (fun _ s' => cfg.Residents maxInFlight bounds null s') any s :=
  h.forManagers hs fun _ => cacheBlocks_shrinks _

end

theorem Residents.poolCall {slots : RequestId → Option ℕ} {c : PoolCall H} (h : cfg.Residents maxInFlight bounds null s)
    (hs : cfg.Invariant held slots s) (hc : PoolWorld.Admits ⟨s.pool, held⟩ c) :
    wp (KVCacheManager.onPool c.run) (fun _ s' => cfg.Residents maxInFlight bounds null s') any s := by
  obtain ⟨xs, hxs⟩ := hs.owned.conserved
  unfold KVCacheManager.onPool
  rw [wp_zoom]
  refine wp_any (PoolCall.moves hxs hc.onPool (hs.payable hc) hc.unpin) ?_
  intro ret p' ⟨_, hsame, _⟩
  exact h.congr hsame.nullBlock fun _ _ => rfl

omit [DecidableEq H] in
theorem Residents.takeKvCacheBlockCopies (h : cfg.Residents maxInFlight bounds null s) (hs : s.Owned held) :
    wp CacheConfig.takeKvCacheBlockCopies (fun _ s' => cfg.Residents maxInFlight bounds null s') any s := by
  unfold CacheConfig.takeKvCacheBlockCopies
  rw [wp_bind]
  refine wp_imp (wp_foldlM (fun rest _ s' => Turning held s (cfg.ResidentAt maxInFlight bounds null)
    (cfg.ResidentAt maxInFlight bounds null) rest s') ?_ (Turning.start hs h.rows)) ?_
  · intro i rest pending s1 h1
    rw [wp_get_bind, wp_bind]
    refine wp_imp (turns_step ?_ h1) (fun _ _ h => h)
    intro o g _ hP hg
    refine ⟨hg.setMgr 0 (fun _ _ => rfl) (fun b _ => ?_) (hg.rows 0) ?_, SamePool.refl _, hP⟩
    · simp only [copyEnds, flatMap_nil, count_nil]
      omega
    · simp [copyEnds]
  · intro pending s1 h1
    exact Turning.residents h1 h.nullBlock

end Caching

/-! ## Allocation -/

/-- A call within the tokens in flight: what is scheduled and not yet processed, the new tokens and
the lookahead slots. The hits come from a lookup: null blocks first, and no block beyond the hit. -/
structure WithinFlight (cfg : CacheConfig n) (maxInFlight : ℕ) (request : Request H) (a : SlotArgs n)
    (s : KVCacheManager H n) : Prop where
  inFlight : 0 ≤ request.numInFlightTokens
  budget : request.numInFlightTokens + a.numNewTokens + a.numLookaheadTokens ≤ maxInFlight
  nullsFirst : ∀ i, (cfg.groups i).isMamba = false → NullsFirst s.pool.nullBlock (a.newComputedBlocks i)
  hitLength : ∀ i, (cfg.groups i).isMamba = false →
    (a.newComputedBlocks i).length ≤ cdiv (a.numLocalComputedTokens request) (cfg.groups i).blockSize

section Allocation

variable {request : Request H} {a : SlotArgs n} {slots : RequestId → Option ℕ}

theorem WithinFlight.need_le (h : cfg.WithinFlight maxInFlight request a s)
    (hbound : a.numTokensNeedSlot cfg request ≤ bound) :
    cdiv (a.numTokensNeedSlot cfg request) (cfg.groups i).blockSize ≤
      cfg.reach maxInFlight bound i (a.processedComputedTokens cfg request) := by
  have hbudget := h.budget
  refine cdiv_le_cdiv _ (Nat.le_min.2 ⟨?_, hbound⟩)
  unfold SlotArgs.numTokensNeedSlot SlotArgs.numTokensMainModel SlotArgs.processedComputedTokens
  omega

theorem WithinFlight.processed_le (h : cfg.WithinFlight maxInFlight request a s) :
    a.processedComputedTokens cfg request ≤ a.totalComputedTokens cfg request := by
  have hflight := h.inFlight
  unfold SlotArgs.processedComputedTokens
  omega

/-- A request that starts without adopting anything has computed nothing. -/
theorem Starts.totalComputedTokens_eq (h : cfg.Starts request a s) (hadopt : ¬ a.Adopts) :
    a.totalComputedTokens cfg request = 0 := by
  have hhits : ∀ i, a.newComputedBlocks i = [] := by
    intro i
    by_contra hne
    exact hadopt (.inl ⟨i, hne⟩)
  have hnew := h.hitTokens hhits
  have hcomputed := h.computed
  have hext : a.numExternalComputedTokens = 0 := by
    by_contra hne
    exact hadopt (.inr (by omega))
  unfold SlotArgs.totalComputedTokens SlotArgs.numLocalComputedTokens
  rw [hcomputed, hnew, hext]
  exact Nat.zero_min _

theorem AdoptsWithin.of_starts (h : cfg.WithinFlight maxInFlight request a s) (hstart : cfg.Starts request a s)
    (hbound : a.numTokensNeedSlot cfg request ≤ bound) (hbase : (cfg.groups i).isMamba = false)
    (hnew : ∀ j, Untouched (cfg.groups j) (s.managers j) request.requestId) :
    cfg.AdoptsWithin request a i s ((cfg.groups i).numSkippedBlocks (a.processedComputedTokens cfg request))
      (cfg.reach maxInFlight bound i (a.processedComputedTokens cfg request)) := by
  have hlength := hstart.length
  have hprocessed := h.processed_le
  have htotal : a.totalComputedTokens cfg request = a.numLocalComputedTokens request + a.numExternalComputedTokens := by
    unfold SlotArgs.totalComputedTokens
    omega
  have hneed : a.totalComputedTokens cfg request ≤ a.numTokensNeedSlot cfg request := by
    unfold SlotArgs.numTokensNeedSlot SlotArgs.numTokensMainModel
    omega
  have hreach : cdiv (a.numLocalComputedTokens request + a.numExternalComputedTokens)
      (cfg.groups i).blockSize ≤ cfg.reach maxInFlight bound i (a.processedComputedTokens cfg request) := by
    rw [← htotal]
    exact (cdiv_le_cdiv _ hneed).trans (h.need_le hbound)
  refine ⟨hnew, hstart.hits, h.nullsFirst i hbase, ?_, hreach, ?_⟩
  · rw [← htotal]
    exact numSkippedBlocks_mono _ hprocessed
  have hhits := h.hitLength i hbase
  have hlocal := cdiv_le_cdiv (cfg.groups i).blockSize
    (Nat.le_add_right (a.numLocalComputedTokens request) a.numExternalComputedTokens)
  omega

/-- What the first half of `allocate_slots` leaves for the second. -/
structure Removed (cfg : CacheConfig n) (held : KVCacheBlock → ℕ) (request : Request H) (a : SlotArgs n)
    (s s1 : KVCacheManager H n) : Prop where
  owned : s1.Owned held
  estimated : cfg.Estimated request a s s1
  windowed : ∀ i, (cfg.groups i).isMamba = false → ∀ lo hi,
    Windowed s.pool.nullBlock lo hi ((s.managers i).reqToBlocks request.requestId) →
    Windowed s.pool.nullBlock (max lo (min ((cfg.groups i).numSkippedBlocks
        (a.processedComputedTokens cfg request)) ((s.managers i).reqToBlocks request.requestId).length)) hi
      ((s1.managers i).reqToBlocks request.requestId)

theorem Removed.residents (h : cfg.Removed held request a s s') (hres : cfg.Residents maxInFlight bounds null s) :
    cfg.Residents maxInFlight bounds null s' := by
  refine ⟨h.estimated.same.nullBlock.trans hres.nullBlock, fun i hbase r => ?_⟩
  by_cases hr : r = request.requestId
  · subst hr
    obtain ⟨p, hp⟩ := hres.rows i hbase request.requestId
    rw [← hres.nullBlock] at hp ⊢
    exact ⟨p, (h.windowed i hbase _ _ hp).mono (le_max_left _ _) le_rfl⟩
  · rw [(h.estimated.others i r hr).1]
    exact hres.rows i hbase r

/-- A request with slots goes on: the row left by the first half is null below the window of the
processed tokens, as far as it was before. -/
theorem Removed.continued (h : cfg.Removed held request a s s') (hflight : cfg.WithinFlight maxInFlight request a s)
    {t : ℕ} (hcont : Continues request a t) (hbase : (cfg.groups i).isMamba = false)
    (hslots : Slotted (cfg.groups i) (s.managers i) request.requestId t)
    (hres : cfg.Resident maxInFlight bound s.pool.nullBlock i ((s.managers i).reqToBlocks request.requestId)) :
    ∃ p, a.processedComputedTokens cfg request ≤ p ∧ Windowed s.pool.nullBlock
      ((cfg.groups i).numSkippedBlocks p) (cfg.reach maxInFlight bound i p)
      ((s'.managers i).reqToBlocks request.requestId) := by
  obtain ⟨p, hp⟩ := hres
  set processed := a.processedComputedTokens cfg request with hprocessed
  have hle : processed ≤ t := by
    have h1 := hflight.processed_le
    have h2 := hcont.computed
    have h3 := hcont.hitTokens
    have h4 := hcont.external
    unfold SlotArgs.totalComputedTokens SlotArgs.numLocalComputedTokens at h1
    omega
  have hrow : (cfg.groups i).numSkippedBlocks processed ≤ ((s.managers i).reqToBlocks request.requestId).length :=
    calc (cfg.groups i).numSkippedBlocks processed
        ≤ cdiv processed (cfg.groups i).blockSize := numSkippedBlocks_le_cdiv _ _
      _ ≤ cdiv t (cfg.groups i).blockSize := cdiv_le_cdiv _ hle
      _ ≤ _ := hslots.row
  have hwin := h.windowed i hbase _ _ hp
  rw [← hprocessed] at hwin
  refine ⟨max p processed, le_max_right _ _, hwin.mono ?_ (reach_mono (le_max_left _ _))⟩
  rcases le_total p processed with hpq | hpq
  · rw [Nat.max_eq_right hpq]
    omega
  · rw [Nat.max_eq_left hpq]
    exact le_max_left _ _

variable [DecidableEq H]

theorem predictSlots_removed (hs : s.Owned held) :
    wp (cfg.predictSlots request a) (fun _ s1 => cfg.Removed held request a s s1) any s := by
  have hwin := wp_forall (m := cfg.predictSlots request a) (s := s)
    (ι := { x : Fin n × ℕ × ℕ // (cfg.groups x.1).isMamba = false ∧
      Windowed s.pool.nullBlock x.2.1 x.2.2 ((s.managers x.1).reqToBlocks request.requestId) })
    fun x => predictSlots_windowed hs x.2.1 x.2.2
  refine wp_any (wp_and (predictSlots_estimates hs) hwin) ?_
  intro k s1 ⟨⟨hown, hest, _, _⟩, hwin'⟩
  exact ⟨hown, hest, fun i hbase lo hi h => hwin' ⟨(i, lo, hi), hbase, h⟩⟩

theorem Removed.takeSlots {s1 : KVCacheManager H n} (h : cfg.Removed held request a s s1)
    (hres : cfg.Residents maxInFlight bounds null s) (hs : cfg.Invariant held slots s)
    (hcall : cfg.CallOK slots request a s) (hflight : cfg.WithinFlight maxInFlight request a s)
    (hbound : a.numTokensNeedSlot cfg request ≤ bounds request.requestId) :
    wp (cfg.takeSlots request a) (fun _ s2 => s2.Owned held ∧ cfg.Residents maxInFlight bounds null s2) any s1 := by
  have hshaped := hs.shaped.estimated h.estimated
  have hcall1 := hcall.estimated h.estimated
  have hadopts := hcall1.adopts hshaped
  have hnull := h.estimated.same.nullBlock
  -- the position from which the row of each group is resident afterwards
  have hrow : ∀ i, (cfg.groups i).isMamba = false → ∃ p, wp (cfg.takeSlots request a)
      (fun _ s2 => Windowed s1.pool.nullBlock ((cfg.groups i).numSkippedBlocks p)
        (cfg.reach maxInFlight (bounds request.requestId) i p) ((s2.managers i).reqToBlocks request.requestId))
      any s1 := by
    intro i hbase
    have hstands := hs.shaped i request.requestId
    unfold CallOK at hcall hcall1
    cases hslots : slots request.requestId with
    | none =>
      simp only [hslots] at hcall hcall1
      have hflight1 : cfg.WithinFlight maxInFlight request a s1 :=
        ⟨hflight.inFlight, hflight.budget, by rw [hnull]; exact hflight.nullsFirst, hflight.hitLength⟩
      refine ⟨a.processedComputedTokens cfg request, takeSlots_windowed h.owned hbase
        (hflight.need_le hbound) (fun hadopt => ?_) (fun hadopt => ?_)⟩
      · exact AdoptsWithin.of_starts hflight1 hcall1 hbound hbase (hadopts hadopt).1
      · have hzero : a.processedComputedTokens cfg request = 0 := by
          have h1 := hflight.processed_le
          have h2 := hcall.totalComputedTokens_eq hadopt
          omega
        have hempty : (s1.managers i).reqToBlocks request.requestId = [] := by
          have hst := hshaped i request.requestId
          rw [hslots] at hst
          exact hst.row
        rw [hempty, hzero, numSkippedBlocks_zero]
        exact Windowed.nil _ _
    | some t =>
      rw [hslots] at hstands
      simp only [hslots] at hcall hcall1
      have hrow0 := hres.rows i hbase request.requestId
      rw [← hres.nullBlock] at hrow0
      obtain ⟨p, hp, hwin⟩ := h.continued hflight hcall hbase hstands hrow0
      have hneed := (hflight.need_le (i := i) hbound).trans (reach_mono hp)
      refine ⟨p, takeSlots_windowed h.owned hbase hneed (fun hadopt => absurd hadopt hcall.not_adopts) (fun _ => ?_)⟩
      rw [hnull]
      exact hwin
  choose p hp using hrow
  have hwin := wp_forall (m := cfg.takeSlots request a) (s := s1)
    (ι := { i : Fin n // (cfg.groups i).isMamba = false }) fun i => hp i.1 i.2
  refine wp_any (wp_and (takeSlots_takes h.owned hadopts) hwin) ?_
  intro newBlocks s2 ⟨hslot, hwin'⟩
  have hres1 := h.residents hres
  refine ⟨hslot.owned, hslot.same.nullBlock.trans hres1.nullBlock, fun i hbase r => ?_⟩
  by_cases hr : r = request.requestId
  · subst hr
    rw [← hres1.nullBlock]
    exact ⟨p i hbase, hwin' ⟨i, hbase⟩⟩
  · rw [(hslot.others i).reqToBlocks r hr]
    exact hres1.rows i hbase r

/-- **A step's allocation** keeps rows resident. -/
theorem Residents.allocateSlots (hres : cfg.Residents maxInFlight bounds null s) (hs : cfg.Invariant held slots s)
    (hcall : cfg.CallOK slots request a s) (hflight : cfg.WithinFlight maxInFlight request a s)
    (hbound : a.numTokensNeedSlot cfg request ≤ bounds request.requestId) :
    wp (cfg.allocateSlots request a) (fun _ s' => cfg.Residents maxInFlight bounds null s') any s := by
  refine wp_allocateSlots_of hres (predictSlots_removed hs.owned) (fun s1 h => h.residents hres) ?_
  intro s1 h
  refine wp_imp (h.takeSlots hres hs hcall hflight hbound) ?_
  intro newBlocks s2 ⟨hown2, hres2⟩
  rw [wp_runIf]
  exact ⟨fun _ => hres2.coordinatorCacheBlocks hown2, fun _ => hres2⟩

end Allocation

end CacheConfig

/-! ## Runs -/

namespace KvWorld

variable [DecidableEq H]

/-- The calls of a run in which every allocation meets a condition on the state before it. -/
inductive StepWith (cfg : CacheConfig n)
    (ok : Request H → CacheConfig.SlotArgs n → KVCacheManager H n → Prop) : KvWorld H n → KvWorld H n → Prop
  | allocateSlots {w : KvWorld H n} {request a ret kv'} (hcall : cfg.CallOK w.slots request a w.kv)
      (hok : ok request a w.kv) (hrun : cfg.allocateSlots request a w.kv = .ok ret kv') :
      StepWith cfg ok w ⟨kv', w.held, if ret.isSome then
        update w.slots request.requestId (some (cfg.slotTokens request a)) else w.slots⟩
  | free {w : KvWorld H n} {r kv'} (hrun : cfg.free r w.kv = .ok () kv') :
      StepWith cfg ok w ⟨kv', w.held, update w.slots r none⟩
  | popBlocksForFree {w : KvWorld H n} {r blocks kv'} (hrun : cfg.popBlocksForFree r w.kv = .ok blocks kv') :
      StepWith cfg ok w ⟨kv', fun b => w.held b + blocks.count b, update w.slots r none⟩
  | removeSkippedBlocks {w : KvWorld H n} {r processed kv'}
      (hrun : cfg.removeSkippedBlocks r processed w.kv = .ok () kv') : StepWith cfg ok w ⟨kv', w.held, w.slots⟩
  | cacheBlocks {w : KvWorld H n} {request numTokens kv'} (hslots : (w.slots request.requestId).isSome)
      (hrun : cfg.cacheBlocks request numTokens w.kv = .ok () kv') : StepWith cfg ok w ⟨kv', w.held, w.slots⟩
  | newStepStarts {w : KvWorld H n} {kv'} (hrun : cfg.newStepStarts w.kv = .ok () kv') :
      StepWith cfg ok w ⟨kv', w.held, w.slots⟩
  | takeKvCacheBlockCopies {w : KvWorld H n} {copies blocks kv'}
      (hrun : CacheConfig.takeKvCacheBlockCopies w.kv = .ok (copies, blocks) kv') :
      StepWith cfg ok w ⟨kv', fun b => w.held b + blocks.count b, w.slots⟩
  | pool {w : KvWorld H n} {c ret kv'} (hc : PoolWorld.Admits ⟨w.kv.pool, w.held⟩ c)
      (hrun : KVCacheManager.onPool c.run w.kv = .ok ret kv') :
      StepWith cfg ok w ⟨kv', fun b => w.held b + (c.taken ret).count b - c.given.count b, w.slots⟩

variable {cfg : CacheConfig n} {ok : Request H → CacheConfig.SlotArgs n → KVCacheManager H n → Prop}
  {w w' : KvWorld H n} {maxInFlight : ℕ} {bounds : RequestId → ℕ} {null : KVCacheBlock}

theorem StepWith.step (h : StepWith cfg ok w w') : Step cfg w w' := by
  cases h with
  | allocateSlots hcall _ hrun => exact .allocateSlots hcall hrun
  | free hrun => exact .free hrun
  | popBlocksForFree hrun => exact .popBlocksForFree hrun
  | removeSkippedBlocks hrun => exact .removeSkippedBlocks hrun
  | cacheBlocks hslots hrun => exact .cacheBlocks hslots hrun
  | newStepStarts hrun => exact .newStepStarts hrun
  | takeKvCacheBlockCopies hrun => exact .takeKvCacheBlockCopies hrun
  | pool hc hrun => exact .pool hc hrun

/-- A call within the tokens in flight, for a request that stays within its bound. -/
def Bounded (cfg : CacheConfig n) (maxInFlight : ℕ) (bounds : RequestId → ℕ) (request : Request H)
    (a : CacheConfig.SlotArgs n) (s : KVCacheManager H n) : Prop :=
  cfg.WithinFlight maxInFlight request a s ∧ a.numTokensNeedSlot cfg request ≤ bounds request.requestId

/-- **One call** within the tokens in flight keeps rows resident. -/
theorem residents_step (hbound : ∀ request a s, ok request a s → Bounded cfg maxInFlight bounds request a s)
    (hw : w.OK cfg) (hres : cfg.Residents maxInFlight bounds null w.kv) (hstep : StepWith cfg ok w w') :
    cfg.Residents maxInFlight bounds null w'.kv := by
  have hafter {α : Type} {m : KvM H n α} {ret : α} {kv'} (hrun : m w.kv = .ok ret kv')
      (hwp : wp m (fun _ s' => cfg.Residents maxInFlight bounds null s') any w.kv) :
      cfg.Residents maxInFlight bounds null kv' := (wp_ok hwp hrun :)
  cases hstep with
  | allocateSlots hcall hok hrun =>
    obtain ⟨hflight, hneed⟩ := hbound _ _ _ hok
    exact hafter hrun (hres.allocateSlots hw hcall hflight hneed)
  | free hrun => exact hafter hrun (hres.forManagers hw.owned fun _ => CacheConfig.free_shrinks)
  | popBlocksForFree hrun => exact hafter hrun (hres.foldlM hw.owned fun _ => CacheConfig.popBlocksForFree_shrinks)
  | removeSkippedBlocks hrun =>
    exact hafter hrun (hres.forManagers hw.owned fun _ => CacheConfig.removeSkippedBlocks_shrinks)
  | cacheBlocks _ hrun =>
    exact hafter hrun (wp_runIf.2 ⟨fun _ => hres.coordinatorCacheBlocks hw.owned, fun _ => hres⟩)
  | newStepStarts hrun => exact hafter hrun (hres.forManagers hw.owned fun _ => CacheConfig.newStepStarts_shrinks)
  | takeKvCacheBlockCopies hrun => exact hafter hrun (hres.takeKvCacheBlockCopies hw.owned)
  | pool hc hrun => exact hafter hrun (hres.poolCall hw hc)

omit [DecidableEq H] in
theorem Initial.rows (hw : w.Initial) (i : Fin n) (r : RequestId) : (w.kv.managers i).reqToBlocks r = [] := by
  obtain ⟨⟨_, _, _, _, hinit⟩, _, _⟩ := hw
  obtain ⟨p, _, hkv⟩ := init_ok hinit
  rw [hkv]
  rfl

theorem residents_run (hbound : ∀ request a s, ok request a s → Bounded cfg maxInFlight bounds request a s)
    (hw : w.OK cfg) (hres : cfg.Residents maxInFlight bounds null w.kv) (hrun : ReflTransGen (StepWith cfg ok) w w') :
    w'.OK cfg ∧ cfg.Residents maxInFlight bounds null w'.kv := by
  induction hrun with
  | refl => exact ⟨hw, hres⟩
  | tail _ hstep ih => exact ⟨ih.1.step hstep.step, residents_step hbound ih.1 ih.2 hstep⟩

/-- In every run within the tokens in flight, rows are resident in the model's length. -/
theorem residents_of_run {w0 : KvWorld H n} (hinit : w0.Initial)
    (hrun : ReflTransGen (StepWith cfg (cfg.WithinFlight maxInFlight)) w0 w) :
    w.OK cfg ∧ cfg.Residents maxInFlight (fun _ => cfg.maxModelLen) w0.kv.pool.nullBlock w.kv := by
  have hstart : cfg.Residents maxInFlight (fun _ => cfg.maxModelLen) w0.kv.pool.nullBlock w0.kv := by
    refine ⟨rfl, fun i _ r => ?_⟩
    rw [hinit.rows]
    exact CacheConfig.Resident.nil _ _ _ _ _
  exact residents_run (fun _ _ _ h => ⟨h, min_le_right _ _⟩) (OK.init hinit) hstart hrun

/-- **The admission cap bounds what a request holds.** In every run whose allocations stay within the
tokens in flight, lookahead included, a request holds at most the cap in a group whose chunks, if it
has any, are made of whole blocks. -/
theorem held_le_cap {w0 : KvWorld H n} (hinit : w0.Initial)
    (hrun : ReflTransGen (StepWith cfg (cfg.WithinFlight maxInFlight)) w0 w) (i : Fin n)
    (halign : (cfg.groups i).Aligned) (cap : ℕ)
    (hcap : (cfg.groups i).spec.maxAdmissionBlocksPerRequest (cfg.groups i).blockSize maxInFlight
      cfg.maxModelLen = some cap) (r : RequestId) :
    numHeld w.kv.pool.nullBlock ((w.kv.managers i).reqToBlocks r) ≤ cap := by
  have hres := (residents_of_run hinit hrun).2
  have hbase : (cfg.groups i).isMamba = false := by
    unfold KVCacheSpec.maxAdmissionBlocksPerRequest at hcap
    unfold isMamba
    split at hcap <;> simp_all
  rw [hres.nullBlock]
  exact (hres.rows i hbase r).numHeld_le_cap le_rfl halign hcap

/-! ## Two runs in which a request holds more -/

/-- One group of the given spec in a model of length 32. -/
def oneGroup (spec : KVCacheSpec) (blockSize : ℕ) (hb : 0 < blockSize)
    (hw : ∀ window extra, spec = .slidingWindow window extra → 0 < window) : CacheConfig 1 :=
  { CacheConfig.unitaryOf spec blockSize hb hw with maxModelLen := 32 }

/-- A window of three tokens over blocks of two. -/
def threeTokenWindow : CacheConfig 1 :=
  oneGroup (.slidingWindow 3 0) 2 Nat.two_pos (by rintro w e h; cases h; decide)

/-- Chunks of three tokens over blocks of four. -/
def threeTokenChunks : CacheConfig 1 := oneGroup (.chunkedLocalAttention 3) 4 (by decide) nofun

/-- A request with sixteen prompt tokens. -/
def sixteenTokens (numComputedTokens : ℕ) : Request ℕ where
  requestId := 1
  status := .running
  numPromptTokens := 16
  allTokenIds := range 16
  blockHashes := []
  numComputedTokens := numComputedTokens
  numInFlightTokens := 0
  sharedPrefixBoundary := 0

/-- A chunk with slots for lookahead tokens. -/
def chunkArgs (numNewTokens numLookaheadTokens : ℕ) : CacheConfig.SlotArgs 1 :=
  { slotArgs numNewTokens 0 with numLookaheadTokens := numLookaheadTokens, delayCacheBlocks := true }

/-- The budget of the scheduler, which leaves lookahead out. -/
def Scheduled (maxInFlight : ℕ) (request : Request ℕ) (a : CacheConfig.SlotArgs 1) (_ : KVCacheManager ℕ 1) : Prop :=
  0 ≤ request.numInFlightTokens ∧ request.numInFlightTokens + a.numNewTokens ≤ maxInFlight

/-- The state after an allocation that succeeds. -/
def allocated (cfg : CacheConfig 1) (request : Request ℕ) (a : CacheConfig.SlotArgs 1)
    (kv : KVCacheManager ℕ 1) : Option (KVCacheManager ℕ 1) :=
  match cfg.allocateSlots request a kv with
  | .ok (some _) kv' => some kv'
  | _ => none

section

variable {cfg : CacheConfig 1} {request : Request ℕ} {a : CacheConfig.SlotArgs 1}

theorem allocated_eq {kv kv' : KVCacheManager ℕ 1} (h : allocated cfg request a kv = some kv') :
    ∃ blocks, cfg.allocateSlots request a kv = .ok (some blocks) kv' := by
  unfold allocated at h
  split at h
  next blocks kv1 hrun =>
    cases h
    exact ⟨blocks, hrun⟩
  · cases h

theorem allocated_step (cfg : CacheConfig 1)
    (ok : Request ℕ → CacheConfig.SlotArgs 1 → KVCacheManager ℕ 1 → Prop) (slots : RequestId → Option ℕ)
    (request : Request ℕ) (a : CacheConfig.SlotArgs 1) {kv kv' : KVCacheManager ℕ 1}
    (hcall : cfg.CallOK slots request a kv) (hok : ok request a kv) (h : allocated cfg request a kv = some kv') :
    StepWith cfg ok ⟨kv, fun _ => 0, slots⟩
      ⟨kv', fun _ => 0, update slots request.requestId (some (cfg.slotTokens request a))⟩ := by
  obtain ⟨blocks, hrun⟩ := allocated_eq h
  exact StepWith.allocateSlots (w := ⟨kv, fun _ => 0, slots⟩) hcall hok hrun

/-- What request 1 holds. -/
def heldByOne (kv : KVCacheManager ℕ 1) : ℕ := numHeld kv.pool.nullBlock ((kv.managers 0).reqToBlocks 1)

theorem callOK_start
    {kv : KVCacheManager ℕ 1} (hcomputed : request.numComputedTokens = 0) (hhits : a.newComputedBlocks = fun _ => [])
    (hnew : a.numNewComputedTokens = 0) (hext : a.numExternalComputedTokens = 0) :
    cfg.CallOK (fun _ => none) request a kv := by
  refine ⟨hcomputed, fun i b hb => ?_, fun _ => hnew, ?_⟩
  · rw [hhits] at hb
    exact absurd hb not_mem_nil
  · rw [CacheConfig.SlotArgs.numLocalComputedTokens, hcomputed, hnew, hext]
    exact Nat.zero_le _

end

/-- Five lookahead slots take a window over its cap; chunks that start inside a block take a second
chunk over it. -/
theorem held_exceeds_cap :
    (∃ w0 w : KvWorld ℕ 1, w0.Initial ∧ ReflTransGen (StepWith threeTokenWindow (Scheduled 8)) w0 w ∧
      (threeTokenWindow.groups 0).spec.maxAdmissionBlocksPerRequest 2 8 32 = some 6 ∧ heldByOne w.kv = 7) ∧
    (∃ w0 w : KvWorld ℕ 1, w0.Initial ∧ ReflTransGen (StepWith threeTokenChunks (Scheduled 5)) w0 w ∧
      (threeTokenChunks.groups 0).spec.maxAdmissionBlocksPerRequest 4 5 32 = some 2 ∧ heldByOne w.kv = 3) := by
  constructor
  · have hcall : ((KVCacheManager.fresh 16 2).bind
        fun kv => (allocated threeTokenWindow (sixteenTokens 0) (chunkArgs 8 5) kv).map heldByOne) = some 7 := by
      decide +kernel
    obtain ⟨kv, hkv, h⟩ := bind_eq_some_iff.1 hcall
    obtain ⟨kv1, h1, hheld⟩ := map_eq_some_iff.1 h
    have hstep := allocated_step _ (Scheduled 8) (fun _ => none) _ _ (callOK_start rfl rfl rfl rfl)
      ⟨by decide, by decide⟩ h1
    exact ⟨_, _, initial_of_fresh hkv, .single hstep, rfl, hheld⟩
  have hcall : ((KVCacheManager.fresh 16 4).bind
      fun kv => (allocated threeTokenChunks (sixteenTokens 0) (chunkArgs 5 0) kv).bind fun kv =>
        (allocated threeTokenChunks (sixteenTokens 5) (chunkArgs 5 0) kv).map heldByOne) = some 3 := by
    decide +kernel
  obtain ⟨kv, hkv, h⟩ := bind_eq_some_iff.1 hcall
  obtain ⟨kv1, h1, h⟩ := bind_eq_some_iff.1 h
  obtain ⟨kv2, h2, hheld⟩ := map_eq_some_iff.1 h
  have hstep := allocated_step _ (Scheduled 5) (fun _ => none) _ _ (callOK_start rfl rfl rfl rfl)
    ⟨by decide, by decide⟩ h1
  have hcall2 : threeTokenChunks.CallOK (update (fun _ => none) 1 (some 5)) (sixteenTokens 5)
      (chunkArgs 5 0) kv1 := ⟨by decide, fun _ => rfl, rfl, rfl⟩
  have hstep2 := allocated_step _ (Scheduled 5) _ _ _ hcall2 ⟨by decide, by decide⟩ h2
  exact ⟨_, _, initial_of_fresh hkv, (ReflTransGen.single hstep).tail hstep2, rfl, hheld⟩

/-- Eight tokens without lookahead stay below the cap. -/
theorem held_le_cap_without_lookahead : ∃ w0 w : KvWorld ℕ 1, w0.Initial ∧
      ReflTransGen (StepWith threeTokenWindow (threeTokenWindow.WithinFlight 8)) w0 w ∧ heldByOne w.kv = 4 ∧
      heldByOne w.kv ≤ 6 := by
  have hcall : ((KVCacheManager.fresh 16 2).bind
      fun kv => (allocated threeTokenWindow (sixteenTokens 0) (chunkArgs 8 0) kv).map heldByOne) = some 4 := by
    decide +kernel
  obtain ⟨kv, hkv, h⟩ := bind_eq_some_iff.1 hcall
  obtain ⟨kv1, h1, hheld⟩ := map_eq_some_iff.1 h
  have hstep := allocated_step _ (threeTokenWindow.WithinFlight 8) (fun _ => none) _ _ (callOK_start rfl rfl rfl rfl)
    ⟨by decide, by decide, fun _ _ => ⟨0, [], rfl, not_mem_nil⟩, fun _ _ => Nat.zero_le _⟩ h1
  have hinit := initial_of_fresh hkv
  exact ⟨_, _, hinit, .single hstep, hheld, held_le_cap hinit (.single hstep) 0 trivial 6 rfl 1⟩

/-! ## The reserve of an admitted request -/

/-- The blocks of a row that were free in the given pool. -/
def takenSince (p : BlockPool H) (row : List KVCacheBlock) : ℕ :=
  row.countP fun b => p.refCnt b = 0 ∧ b ≠ p.nullBlock

omit [DecidableEq H] in
theorem takenSince_le_numHeld (p : BlockPool H) (row : List KVCacheBlock) :
    takenSince p row ≤ numHeld p.nullBlock row := by
  refine countP_mono_left fun b _ h => ?_
  simp only [decide_eq_true_eq] at h ⊢
  exact h.2

/-- The bound of a request that is prefilled: its own length, for others that of the model. -/
def prefillBounds (cfg : CacheConfig n) (request : Request H) : RequestId → ℕ :=
  update (fun _ => cfg.maxModelLen) request.requestId (min request.numTokens cfg.maxModelLen)

/-- What is counted for a whole sequence without a hit. -/
theorem fullSequence_count {request : Request H} {a : CacheConfig.SlotArgs n} {i : Fin n} {cap : ℕ}
    {g : CacheGroup H} (hbase : (cfg.groups i).isMamba = false)
    (hnew : Untouched (cfg.groups i) g.mgr request.requestId)
    (hgate : (cfg.groups i).maxAdmissionBlocksPerRequest = some cap)
    (hhits : a.newComputedBlocks i = []) (htotal : a.totalComputedTokens cfg request = 0) :
    (cfg.groups i).predicted (a.fullSequence cfg request i) g =
      (min (cdiv (min request.numTokens cfg.maxModelLen) (cfg.groups i).blockSize) cap : ℕ) := by
  rw [predicted_base hbase]
  unfold baseNumBlocksToAllocate
  have hrow : g.mgr.reqToBlocks (a.fullSequence cfg request i).requestId = [] := hnew.row
  have hcached : g.mgr.numCachedBlock (a.fullSequence cfg request i).requestId = none := hnew.numCachedBlock
  have hnc : (a.fullSequence cfg request i).newComputedBlocks = [] := hhits
  have htot : (a.fullSequence cfg request i).totalComputedTokens = 0 := htotal
  rw [hrow, hcached, hnc, htot, numSkippedBlocks_zero, hgate]
  simp [CacheConfig.SlotArgs.fullSequence, hasPartialLocalHit, getNumEvictableBlocks]

/-- **The reserve covers the prefill.** Let the whole sequence of a request be counted before it has
slots, without a hit. In every later run within the tokens in flight, as long as the request gets
no slots beyond its own length, it holds at most that many blocks that were free when it was counted. -/
theorem reserve_covers_prefill {w0 : KvWorld H n} (hinit : w0.Initial)
    (hbefore : ReflTransGen (StepWith cfg (cfg.WithinFlight maxInFlight)) w0 w) (i : Fin n)
    (halign : (cfg.groups i).Aligned) (cap : ℕ)
    (hcap : (cfg.groups i).spec.maxAdmissionBlocksPerRequest (cfg.groups i).blockSize maxInFlight
      cfg.maxModelLen = some cap) (hgate : (cfg.groups i).maxAdmissionBlocksPerRequest = some cap) (request : Request H)
    (a : CacheConfig.SlotArgs n) (hslots : w.slots request.requestId = none)
    (hhits : a.newComputedBlocks i = []) (htotal : a.totalComputedTokens cfg request = 0) (k : ℤ) (g : CacheGroup H)
    (hcount : (cfg.groups i).getNumBlocksToAllocate (a.fullSequence cfg request i) (w.kv.group i) = .ok k g)
    (hprefill : ReflTransGen (StepWith cfg (Bounded cfg maxInFlight (prefillBounds cfg request))) w w') :
    takenSince w.kv.pool ((w'.kv.managers i).reqToBlocks request.requestId) ≤ k := by
  obtain ⟨hok, hres⟩ := residents_of_run hinit hbefore
  have hbase : (cfg.groups i).isMamba = false := by
    unfold KVCacheSpec.maxAdmissionBlocksPerRequest at hcap
    unfold isMamba
    split at hcap <;> simp_all
  have hnew : Untouched (cfg.groups i) (w.kv.managers i) request.requestId := by
    have hstands := hok.shaped i request.requestId
    rwa [hslots] at hstands
  have hk := (wp_ok getNumBlocksToAllocate_predicts hcount).1
  -- an empty row is within any bound
  have hres' : cfg.Residents maxInFlight (prefillBounds cfg request) w.kv.pool.nullBlock w.kv := by
    refine ⟨rfl, fun j hj r => ?_⟩
    unfold prefillBounds
    by_cases hr : r = request.requestId
    · subst hr
      have hstands := hok.shaped j request.requestId
      rw [hslots] at hstands
      have hrow := hstands.row
      rw [hrow]
      exact CacheConfig.Resident.nil _ _ _ _ _
    · rw [update_of_ne hr, hres.nullBlock]
      exact hres.rows j hj r
  have hlater := (residents_run (fun _ _ _ h => h) hok hres' hprefill).2.rows i hbase request.requestId
  unfold prefillBounds at hlater
  rw [update_self] at hlater
  have hheld := hlater.numHeld_le_cap (min_le_right _ _) halign hcap
  have hlength := hlater.numHeld_le_bound
  have htaken := takenSince_le_numHeld w.kv.pool ((w'.kv.managers i).reqToBlocks request.requestId)
  rw [hk, fullSequence_count hbase hnew hgate hhits htotal]
  exact Int.ofNat_le.2 (Nat.le_min.2 ⟨htaken.trans hlength, htaken.trans hheld⟩)

/-- A window of two tokens over blocks of one, with the cap for two tokens in flight. -/
def cappedWindow : CacheConfig 1 :=
  { oneGroup (.slidingWindow 2 0) 1 Nat.one_pos CacheConfig.window_two_pos with
    groups := fun _ => { CacheConfig.groupOf (.slidingWindow 2 0) 1 0 Nat.one_pos CacheConfig.window_two_pos with
      maxAdmissionBlocksPerRequest := some 4 } }

/-- A request with the first `numTokens` tokens of one text. -/
def textOf (r : RequestId) (numTokens numComputedTokens : ℕ) : Request ℕ where
  requestId := r
  status := .running
  numPromptTokens := numTokens
  allTokenIds := range numTokens
  blockHashes := range numTokens
  numComputedTokens := numComputedTokens
  numInFlightTokens := 0
  sharedPrefixBoundary := 0

/-- A chunk of two tokens after the given hit. -/
def afterHit (numNewComputedTokens : ℕ) (blocks : Fin 1 → List KVCacheBlock) : CacheConfig.SlotArgs 1 :=
  { slotArgs 2 0 with numNewComputedTokens := numNewComputedTokens, newComputedBlocks := blocks }

/-- What the lookup finds for request 2. -/
def hitOfTwo (kv : KVCacheManager ℕ 1) : Option (Fin 1 → List KVCacheBlock) :=
  match cappedWindow.getComputedBlocks (textOf 2 8 0) kv with
  | .ok (blocks, 4, _) _ => some blocks
  | _ => none

/-- What is counted for the whole sequence of request 2. -/
def countOfTwo (numNewComputedTokens : ℕ) (blocks : Fin 1 → List KVCacheBlock) (kv : KVCacheManager ℕ 1) : Option ℤ :=
  match (cappedWindow.groups 0).getNumBlocksToAllocate
      ((afterHit numNewComputedTokens blocks).fullSequence cappedWindow (textOf 2 8 0) 0) (kv.group 0) with
  | .ok k _ => some k
  | _ => none

/-- Request 1 computes four tokens in two chunks and is freed. -/
def leftCached (kv : KVCacheManager ℕ 1) : Option (KVCacheManager ℕ 1) := do
  let kv ← allocated cappedWindow (textOf 1 4 0) (slotArgs 2 0) kv
  let kv ← allocated cappedWindow (textOf 1 4 2) (slotArgs 2 0) kv
  match cappedWindow.free 1 kv with
  | .ok _ kv => some kv
  | _ => none

theorem leftCached_run {kv kv' : KVCacheManager ℕ 1} (h : leftCached kv = some kv') :
    ∃ slots : RequestId → Option ℕ, slots 2 = none ∧
      ReflTransGen (StepWith cappedWindow (cappedWindow.WithinFlight 2)) ⟨kv, fun _ => 0, fun _ => none⟩
        ⟨kv', fun _ => 0, slots⟩ := by
  obtain ⟨kv1, h1, h⟩ := bind_eq_some_iff.1 h
  obtain ⟨kv2, h2, h⟩ := bind_eq_some_iff.1 h
  have hflight : ∀ (s : KVCacheManager ℕ 1) (k : ℕ),
      cappedWindow.WithinFlight 2 (textOf 1 4 k) (slotArgs 2 0) s := fun s k =>
    ⟨show (0 : ℤ) ≤ 0 by decide, show (0 : ℤ) + 2 + 0 ≤ 2 by decide,
      fun _ _ => ⟨0, [], rfl, not_mem_nil⟩, fun _ _ => Nat.zero_le _⟩
  have hstep1 := allocated_step _ _ (fun _ => none) _ _ (callOK_start rfl rfl rfl rfl) (hflight kv 0) h1
  have hcall2 : cappedWindow.CallOK (update (fun _ => none) 1 (some 2)) (textOf 1 4 2) (slotArgs 2 0)
      kv1 := ⟨by decide, fun _ => rfl, rfl, rfl⟩
  have hstep2 := allocated_step _ _ _ _ _ hcall2 (hflight kv1 2) h2
  split at h
  next _ kv3 hfree =>
    cases h
    exact ⟨_, rfl, ((ReflTransGen.single hstep1).tail hstep2).tail (.free hfree)⟩
  · cases h

/-- A hit of four tokens, three of them null: one block is counted for the eight tokens of request 2,
and the first chunk of two takes three. -/
theorem reserve_falls_short :
    ∃ (w0 w w' : KvWorld ℕ 1) (blocks : Fin 1 → List KVCacheBlock) (m : ℕ) (s : KVCacheManager ℕ 1)
      (g : CacheGroup ℕ), w0.Initial ∧
      ReflTransGen (StepWith cappedWindow (cappedWindow.WithinFlight 2)) w0 w ∧ w.slots 2 = none ∧
      (cappedWindow.groups 0).spec.maxAdmissionBlocksPerRequest 1 2 32 = some 4 ∧
      cappedWindow.getComputedBlocks (textOf 2 8 0) w.kv = .ok (blocks, 4, m) s ∧
      (cappedWindow.groups 0).getNumBlocksToAllocate ((afterHit 4 blocks).fullSequence cappedWindow
        (textOf 2 8 0) 0) (w.kv.group 0) = .ok 1 g ∧
      StepWith cappedWindow (Bounded cappedWindow 2 (prefillBounds cappedWindow (textOf 2 8 0))) w w' ∧
      takenSince w.kv.pool ((w'.kv.managers 0).reqToBlocks 2) = 3 := by
  have hcall : ((KVCacheManager.fresh 16 1).bind fun kv =>
      (leftCached kv).bind fun kv => (hitOfTwo kv).bind fun blocks => (countOfTwo 4 blocks kv).bind fun k =>
        (allocated cappedWindow (textOf 2 8 0) (afterHit 4 blocks) kv).map fun kv' =>
          (blocks 0 = replicate 3 kv.pool.nullBlock ++ (blocks 0).drop 3 ∧ kv.pool.nullBlock ∉ (blocks 0).drop 3 ∧
            (blocks 0).length = 4 ∧ (∀ b ∈ blocks 0, b ∈ poolBlocks kv.pool.numGpuBlocks) ∧ k = 1 ∧
            takenSince kv.pool ((kv'.managers 0).reqToBlocks 2) = 3 : Bool)) = some true := by decide +kernel
  simp only [bind_eq_some_iff, map_eq_some_iff] at hcall
  obtain ⟨kv, hkv, kv1, h1, blocks, hblocks, k, hk, kv2, h2, h⟩ := hcall
  obtain ⟨hsplit, hrest, hlen, hpool, rfl, htaken⟩ := of_decide_eq_true h
  obtain ⟨slots, hslots, hrun⟩ := leftCached_run h1
  have hone : ∀ i : Fin 1, i = 0 := fun i => Subsingleton.elim i 0
  have hcallOK : cappedWindow.CallOK slots (textOf 2 8 0) (afterHit 4 blocks) kv1 := by
    unfold CacheConfig.CallOK
    rw [show slots (textOf 2 8 0).requestId = none from hslots]
    refine ⟨rfl, fun i => by rw [hone i]; exact hpool, fun hnone => ?_, show 4 ≤ 32 by decide⟩
    have hnil := hnone 0
    rw [show (afterHit 4 blocks).newComputedBlocks 0 = blocks 0 from rfl] at hnil
    rw [hnil] at hlen
    exact absurd hlen (by decide)
  have hflight : Bounded cappedWindow 2 (prefillBounds cappedWindow (textOf 2 8 0)) (textOf 2 8 0)
      (afterHit 4 blocks) kv1 := by
    refine ⟨⟨show (0 : ℤ) ≤ 0 by decide, show (0 : ℤ) + 2 + 0 ≤ 2 by decide, fun i _ => ?_, fun i _ => ?_⟩, ?_⟩
    · rw [hone i]; exact ⟨3, _, hsplit, hrest⟩
    · rw [hone i]
      have hcdiv : cdiv ((afterHit 4 blocks).numLocalComputedTokens (textOf 2 8 0))
          (cappedWindow.groups 0).blockSize = 4 := Nat.div_one 4
      rw [hcdiv]
      exact le_of_eq hlen
    · show 6 ≤ 8
      decide
  have hstep := allocated_step _ _ _ _ _ hcallOK hflight h2
  unfold hitOfTwo at hblocks
  split at hblocks
  next blocks' m s hget =>
    cases hblocks
    unfold countOfTwo at hk
    split at hk
    next k' g hcount =>
      cases hk
      exact ⟨_, _, _, _, m, s, g, initial_of_fresh hkv, hrun, hslots, rfl, hget, hcount, hstep, htaken⟩
    · cases hk
  · cases hblocks

/-- Eight tokens without a hit: four blocks are counted, and the first chunk of two takes two. -/
theorem reserve_covers_without_hit : ∃ (w w' : KvWorld ℕ 1) (k : ℤ), w.Initial ∧
      ReflTransGen (StepWith cappedWindow (Bounded cappedWindow 2 (prefillBounds cappedWindow (textOf 2 8 0)))) w w' ∧
      takenSince w.kv.pool ((w'.kv.managers 0).reqToBlocks 2) = 2 ∧ k = 4 ∧
      takenSince w.kv.pool ((w'.kv.managers 0).reqToBlocks 2) ≤ k := by
  have hcall : ((KVCacheManager.fresh 16 1).bind fun kv =>
      (countOfTwo 0 (fun _ => []) kv).bind fun k =>
        (allocated cappedWindow (textOf 2 8 0) (afterHit 0 fun _ => []) kv).map fun kv' =>
          (k = 4 ∧ takenSince kv.pool ((kv'.managers 0).reqToBlocks 2) = 2 : Bool)) = some true := by
    decide +kernel
  obtain ⟨kv, hkv, h⟩ := bind_eq_some_iff.1 hcall
  obtain ⟨k, hk, h⟩ := bind_eq_some_iff.1 h
  obtain ⟨kv1, h1, h⟩ := map_eq_some_iff.1 h
  obtain ⟨rfl, htaken⟩ := of_decide_eq_true h
  have hinit := initial_of_fresh hkv
  have hflight : Bounded cappedWindow 2 (prefillBounds cappedWindow (textOf 2 8 0)) (textOf 2 8 0)
      (afterHit 0 fun _ => []) kv := by
    refine ⟨⟨by decide, by decide, fun _ _ => ⟨0, [], rfl, not_mem_nil⟩, fun _ _ => Nat.zero_le _⟩, ?_⟩
    decide
  have hstep := allocated_step _ _ (fun _ => none) _ _ (callOK_start rfl rfl rfl rfl) hflight h1
  have halign : (cappedWindow.groups 0).Aligned := trivial
  unfold countOfTwo at hk
  split at hk
  next k' g hcount =>
    cases hk
    exact ⟨_, _, 4, hinit, .single hstep, htaken, rfl, reserve_covers_prefill hinit .refl 0
      halign 4 rfl rfl (textOf 2 8 0) (afterHit 0 fun _ => []) rfl rfl rfl 4 g hcount (.single hstep)⟩
  · cases hk

end KvWorld

end VllmRwkv
