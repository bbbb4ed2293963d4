import VllmRwkv.Cache.Take
import VllmRwkv.Cache.Frames

/-!
# Prediction against allocation

Per attention type: what `get_num_blocks_to_allocate` predicts is at least what the allocating
methods take, for a request that adopts its first blocks and for one that continues its row.

The align-mode predictor falls short in two situations, which `AlignFits` excludes:
* external tokens are adopted that the hit does not cover, and the new tokens reach a further
  column: the block of the external state is not counted under the cap;
* the row is longer than the chunk needs: the count is negative.
-/

namespace VllmRwkv

open List Raise CacheGroup

variable {H : Type}

theorem cdiv_pred {a b : ℕ} (hb : 0 < b) (ha : 0 < a) : cdiv a b = (a - 1) / b + 1 := by
  unfold cdiv
  rw [show a + b - 1 = a - 1 + b by omega, Nat.add_div_right _ hb]

namespace GroupConfig

variable {cfg : GroupConfig} {a : AllocArgs} {g : CacheGroup H} {ext : ℕ}

/-- The cap on a private copy is at least what the trimmed hit needs. -/
theorem hasPartialLocalHit_drop (bs : List KVCacheBlock) (loc k : ℕ)
    (h : cfg.hasPartialLocalHit (bs.drop k) loc) : cfg.hasPartialLocalHit bs loc := by
  unfold hasPartialLocalHit at h ⊢
  simp only [length_drop, gt_iff_lt, Bool.and_eq_true, decide_eq_true_eq] at h ⊢
  exact ⟨by omega, h.2⟩

section

variable (cfg)

/-- The window never leaves a block behind that is not full. -/
theorem numSkippedBlocks_le_cdiv (k : ℕ) : cfg.numSkippedBlocks k ≤ cdiv k cfg.blockSize := by
  have hle : cfg.getNumSkippedTokens k ≤ k := by
    unfold getNumSkippedTokens
    split
    · omega
    next window extra hspec =>
      have := cfg.window_pos window extra hspec
      omega
    · exact Nat.div_mul_le_self _ _
    · omega
  have hpos := cfg.blockSize_pos
  exact Nat.div_le_div_right (by omega)

variable (a)

/-- The length of a new row once the hits are adopted. -/
def lenLocal : ℕ :=
  max (cfg.numSkippedBlocks a.totalComputedTokens) a.newComputedBlocks.length

/-- What the external tokens take. -/
def takenExternal (ext : ℕ) : ℕ :=
  if ext = 0 then 0 else cfg.externalBlocks a.numLocalComputedTokens ext (cfg.lenLocal a)

/-- The evictable blocks among the adopted hits. -/
def takenHits (p : BlockPool H) : ℕ :=
  getNumEvictableBlocks p (a.newComputedBlocks.drop (cfg.numSkippedBlocks a.totalComputedTokens))

/-- Whether an adopted hit needs a private copy. -/
def adoptedCow : ℕ :=
  if cfg.hasPartialLocalHit (a.newComputedBlocks.drop (cfg.numSkippedBlocks a.totalComputedTokens))
    a.numLocalComputedTokens then 1 else 0

/-- What `allocate_new_blocks` takes for a row of the given length. -/
def takenNew (numTokens mainTokens len cow ckpt : ℕ) (allocated : Bool) : ℕ :=
  match cfg.spec with
  | .mamba spec _ _ => mambaNewBlocks len spec (cdiv mainTokens cfg.blockSize + spec) ckpt cow allocated
  | _ => cow + (cdiv numTokens cfg.blockSize - len)

/-- The two situations in which the align-mode predictor falls short do not occur. -/
structure AlignFits (spec numCkpt : ℕ) (align : Option ℕ) (a : AllocArgs) (ext : ℕ) (g : CacheGroup H) : Prop where
  row : (g.mgr.reqToBlocks a.requestId).length + a.newComputedBlocks.length ≤
    cdiv a.numTokensMainModel cfg.blockSize + spec ∨ cfg.mambaHasPartialHit a g
  external : ext = 0 ∨ cdiv a.totalComputedTokens cfg.blockSize ≤ a.newComputedBlocks.length ∨
    cdiv a.numTokensMainModel cfg.blockSize ≤ cdiv a.totalComputedTokens cfg.blockSize +
      if cfg.plannedCheckpoint spec numCkpt align g a > 0 then 1 else 0

/-- `AlignFits` for align-mode groups, nothing for the others. -/
def Fits (ext : ℕ) (g : CacheGroup H) : Prop :=
  match cfg.spec with
  | .mamba spec numCkpt align => AlignFits cfg spec numCkpt align a ext g
  | _ => True

theorem cowBlocks_le_one (g : CacheGroup H) (r : RequestId) : cowBlocks g r ≤ 1 := by
  unfold cowBlocks; split <;> omega

theorem adoptedCow_le : cfg.adoptedCow a ≤
      if cfg.hasPartialLocalHit a.newComputedBlocks a.numLocalComputedTokens then 1 else 0 := by
  unfold adoptedCow
  split
  next h => rw [if_pos (hasPartialLocalHit_drop _ _ _ h)]
  · omega

end

/-! ## The base class -/

theorem baseNumBlocksToAllocate_adopts (hext : a.totalComputedTokens = a.numLocalComputedTokens + ext)
    (hcap : a.applyAdmissionCap = false) (hnew : Untouched cfg g.mgr a.requestId)
    (htotal : a.totalComputedTokens ≤ a.numTokens) :
    cfg.takenHits a g.pool + cfg.takenExternal a ext + (cfg.adoptedCow a +
      (cdiv a.numTokens cfg.blockSize - (cfg.lenLocal a + cfg.takenExternal a ext))) ≤
        cfg.baseNumBlocksToAllocate a g := by
  have hcow := cfg.adoptedCow_le a
  have hle := cdiv_le_cdiv cfg.blockSize htotal
  unfold baseNumBlocksToAllocate
  simp only [hcap, hnew.row, hnew.numCachedBlock, length_nil, Nat.sub_zero, add_zero,
    Option.isSome_none, Bool.false_eq_true, if_false]
  have hhits : cfg.takenHits a g.pool = getNumEvictableBlocks g.pool
      (a.newComputedBlocks.drop (cfg.numSkippedBlocks a.totalComputedTokens)) := rfl
  have hlen : cfg.lenLocal a = max (cfg.numSkippedBlocks a.totalComputedTokens) a.newComputedBlocks.length := rfl
  -- the row never outgrows what the step needs through external tokens
  have hbound : cfg.takenExternal a ext = 0 ∨
      cfg.lenLocal a + cfg.takenExternal a ext ≤ cdiv a.numTokens cfg.blockSize := by
    unfold takenExternal externalBlocks
    rw [← hext]
    split
    · exact .inl rfl
    · split
      · omega
      · exact .inl rfl
  rw [← hhits, ← hlen]
  omega

/-- A request that continues its row, or starts one without hits. -/
theorem baseNumBlocksToAllocate_continues (hnc : a.newComputedBlocks = []) (hcap : a.applyAdmissionCap = false)
    (hrow : cfg.numSkippedBlocks a.totalComputedTokens ≤ (g.mgr.reqToBlocks a.requestId).length) :
    cdiv a.numTokens cfg.blockSize - (g.mgr.reqToBlocks a.requestId).length ≤ cfg.baseNumBlocksToAllocate a g := by
  unfold baseNumBlocksToAllocate
  simp only [hcap, hnc, length_nil, zero_add]
  split <;> omega

/-! ## Align mode -/

section Align

variable {spec numCkpt : ℕ} {align : Option ℕ}

/-- The block that the planned checkpoint takes. -/
def plannedBlock (cfg : GroupConfig) (spec numCkpt : ℕ) (align : Option ℕ) (a : AllocArgs)
    (g : CacheGroup H) : ℕ := if cfg.plannedCheckpoint spec numCkpt align g a > 0 then 1 else 0

theorem plannedBlock_le_one : cfg.plannedBlock spec numCkpt align a g ≤ 1 := by
  unfold plannedBlock; split <;> omega

/-- The capped count of the align-mode predictor, as arithmetic. -/
def cappedCount (raw : ℤ) (cow ckpt scratch : ℕ) : ℤ :=
  let need := if cow = 0 then raw else max raw 0 + 1
  if need > 0 then min need (1 + cow + ckpt + scratch) else need

/-- What is within the uncapped count and within the cap is within the capped count. -/
theorem le_cappedCount (raw : ℤ) {n cow ckpt : ℕ} (scratch : ℕ) (hcow : cow ≤ 1)
    (hraw : 0 ≤ raw ∨ cow = 1) (hn : (n : ℤ) ≤ max raw 0 + cow) (hcap : n ≤ 1 + cow + ckpt + scratch) :
    (n : ℤ) ≤ cappedCount raw cow ckpt scratch := by
  unfold cappedCount
  dsimp only
  split <;> split <;> omega

/-- What a request with hits takes: `skipped` columns are null, `hits` come from the cache, `x` are
taken for external tokens that end in column `total`. -/
theorem adoptedCount_le {required total hits skipped ckpt cow cow' x : ℕ} (spec : ℕ) (hcow : cow' ≤ cow)
    (hx : x = 0 ∨ x = total - max skipped hits ∧ total = skipped + 1 ∧ total ≤ required ∧
      (total ≤ hits ∨ required ≤ total + ckpt)) :
    x + mambaNewBlocks (max skipped hits + x) spec (required + spec) ckpt cow' false ≤ required + spec - hits + cow ∧
      x + mambaNewBlocks (max skipped hits + x) spec (required + spec) ckpt cow' false ≤ 1 + cow + ckpt + spec := by
  unfold mambaNewBlocks layoutLength
  rcases hx with rfl | ⟨hx, htotal, hreq, hfits⟩
  · split
    · omega
    · split <;> omega
  split
  · omega
  · split <;> omega

/-- What a request takes that continues its row: the scratch blocks of the last step are moved. -/
theorem continuedCount_le {len spec ckpt : ℕ} (required cow : ℕ) {allocated : Bool} (hckpt : ckpt ≤ 1)
    (hlen : allocated → spec ≤ len) :
    mambaNewBlocks len spec (required + spec) ckpt cow allocated ≤ required + spec - len + cow ∧
      mambaNewBlocks len spec (required + spec) ckpt cow allocated ≤
        1 + cow + ckpt + if allocated then 0 else spec := by
  unfold mambaNewBlocks layoutLength
  split
  · omega
  cases allocated
  · simp only [Bool.false_eq_true, if_false]
    split <;> omega
  · have := hlen rfl
    simp only [if_true]
    split <;> omega

variable [DecidableEq H]

theorem mambaNumBlocksToAllocate_eq (hstep : hitsThisStep a g = false) :
    cfg.mambaNumBlocksToAllocate spec numCkpt align a g =
      cappedCount ((cdiv a.numTokensMainModel cfg.blockSize + spec : ℕ) -
          (a.newComputedBlocks.length : ℤ) - (g.mgr.reqToBlocks a.requestId).length)
        (if cfg.mambaHasPartialHit a g then 1 else 0) (cfg.plannedBlock spec numCkpt align a g)
        (if g.mgr.allocatedBlockReqs a.requestId then 0 else spec) +
      getNumEvictableBlocks g.pool a.newComputedBlocks := by
  unfold mambaNumBlocksToAllocate plannedBlock cappedCount
  rw [hstep]
  cases cfg.mambaHasPartialHit a g <;> cases g.mgr.allocatedBlockReqs a.requestId <;>
    by_cases h : cfg.plannedCheckpoint spec numCkpt align g a > 0 <;> simp [h]

theorem mambaNumBlocksToAllocate_nonneg (hfits : AlignFits cfg spec numCkpt align a ext g) :
    0 ≤ cfg.mambaNumBlocksToAllocate spec numCkpt align a g := by
  cases hstep : hitsThisStep a g with
  | true =>
    unfold mambaNumBlocksToAllocate
    rw [hstep, if_pos rfl]
    omega
  | false =>
    rw [mambaNumBlocksToAllocate_eq hstep]
    have hrow := hfits.row
    have h : (0 : ℕ) ≤ cappedCount ((cdiv a.numTokensMainModel cfg.blockSize + spec : ℕ) -
          (a.newComputedBlocks.length : ℤ) - (g.mgr.reqToBlocks a.requestId).length)
        (if cfg.mambaHasPartialHit a g then 1 else 0) (cfg.plannedBlock spec numCkpt align a g)
        (if g.mgr.allocatedBlockReqs a.requestId then 0 else spec) := by
      refine le_cappedCount _ _ (by split <;> omega) ?_ (by omega) (Nat.zero_le _)
      rcases hrow with h | h
      · left; omega
      · right; rw [if_pos h]
    omega

theorem mambaNumBlocksToAllocate_adopts (hspec : cfg.spec = .mamba spec numCkpt align)
    (hext : a.totalComputedTokens = a.numLocalComputedTokens + ext)
    (hnew : Untouched cfg g.mgr a.requestId) (htotal : a.totalComputedTokens ≤ a.numTokensMainModel)
    (hfits : AlignFits cfg spec numCkpt align a ext g) (hstep : hitsThisStep a g = false) :
    ((cfg.takenHits a g.pool + cfg.takenExternal a ext + mambaNewBlocks (cfg.lenLocal a + cfg.takenExternal a ext) spec
        (cdiv a.numTokensMainModel cfg.blockSize + spec) (cfg.plannedBlock spec numCkpt align a g)
        (cfg.adoptedCow a) false : ℕ) : ℤ) ≤ cfg.mambaNumBlocksToAllocate spec numCkpt align a g := by
  have hle := cdiv_le_cdiv cfg.blockSize htotal
  have hhits : cfg.takenHits a g.pool ≤ getNumEvictableBlocks g.pool a.newComputedBlocks :=
    (drop_sublist _ _).countP_le
  have htail : cfg.mambaHasPartialHit a g = cfg.hasPartialLocalHit a.newComputedBlocks a.numLocalComputedTokens := by
    simp [mambaHasPartialHit, hnew.partialHitReqs]
  have halloc : g.mgr.allocatedBlockReqs a.requestId = false :=
    hnew.allocatedBlockReqs (by unfold isMamba; rw [hspec])
  have hcow : cfg.adoptedCow a ≤ if cfg.mambaHasPartialHit a g then 1 else 0 := by
    rw [htail]; exact cfg.adoptedCow_le a
  -- the external state sits in the column after the skipped ones
  have hx : cfg.takenExternal a ext = 0 ∨ cfg.takenExternal a ext = cdiv a.totalComputedTokens cfg.blockSize -
        max (cfg.numSkippedBlocks a.totalComputedTokens) a.newComputedBlocks.length ∧
      cdiv a.totalComputedTokens cfg.blockSize = cfg.numSkippedBlocks a.totalComputedTokens + 1 ∧
      cdiv a.totalComputedTokens cfg.blockSize ≤ cdiv a.numTokensMainModel cfg.blockSize ∧
      (cdiv a.totalComputedTokens cfg.blockSize ≤ a.newComputedBlocks.length ∨ cdiv a.numTokensMainModel cfg.blockSize ≤
          cdiv a.totalComputedTokens cfg.blockSize + cfg.plannedBlock spec numCkpt align a g) := by
    by_cases h0 : ext = 0
    · left; unfold takenExternal; rw [if_pos h0]
    right
    have hskip : cfg.getNumSkippedTokens a.totalComputedTokens < a.totalComputedTokens := by
      unfold getNumSkippedTokens; rw [hspec]; dsimp only; omega
    refine ⟨?_, ?_, hle, hfits.external.resolve_left h0⟩
    · unfold takenExternal externalBlocks lenLocal
      rw [if_neg h0, ← hext, if_pos hskip]
    · unfold numSkippedBlocks getNumSkippedTokens
      rw [hspec]
      exact cdiv_pred cfg.blockSize_pos (by omega)
  obtain ⟨hraw, hcap⟩ := adoptedCount_le spec hcow hx
  rw [mambaNumBlocksToAllocate_eq hstep, hnew.row, halloc]
  have hrow := hfits.row
  rw [hnew.row] at hrow
  have hcount := le_cappedCount ((cdiv a.numTokensMainModel cfg.blockSize + spec : ℕ) -
      (a.newComputedBlocks.length : ℤ) - (0 : ℕ)) spec (by split <;> omega)
    (by
      rcases hrow with h | h
      · left; simp only [length_nil] at h; omega
      · right; rw [if_pos h]) (by omega) hcap
  unfold lenLocal
  simp only [length_nil, Bool.false_eq_true, if_false]
  omega

/-- A request that continues its row, or starts one without hits. -/
theorem mambaNumBlocksToAllocate_continues (hnc : a.newComputedBlocks = [])
    (hlen : g.mgr.allocatedBlockReqs a.requestId →
      spec ≤ (g.mgr.reqToBlocks a.requestId).length) (hfits : AlignFits cfg spec numCkpt align a ext g) :
    (mambaNewBlocks (g.mgr.reqToBlocks a.requestId).length spec
      (cdiv a.numTokensMainModel cfg.blockSize + spec) (cfg.plannedBlock spec numCkpt align a g)
      (cowBlocks g a.requestId) (g.mgr.allocatedBlockReqs a.requestId) : ℤ) ≤
        cfg.mambaNumBlocksToAllocate spec numCkpt align a g := by
  have hstep : hitsThisStep a g = false := by simp [hitsThisStep, hnc]
  have htail : cowBlocks g a.requestId = if cfg.mambaHasPartialHit a g then 1 else 0 := by
    simp [mambaHasPartialHit, hasPartialLocalHit, hnc, cowBlocks]
  have hplan : cfg.plannedBlock spec numCkpt align a g ≤ 1 := plannedBlock_le_one
  obtain ⟨hraw, hcap⟩ := continuedCount_le (cdiv a.numTokensMainModel cfg.blockSize)
    (cowBlocks g a.requestId) hplan hlen
  have hrow := hfits.row
  rw [mambaNumBlocksToAllocate_eq hstep, ← htail, hnc]
  rw [hnc] at hrow
  have hcount := le_cappedCount ((cdiv a.numTokensMainModel cfg.blockSize + spec : ℕ) -
      (([] : List KVCacheBlock).length : ℤ) - (g.mgr.reqToBlocks a.requestId).length) _
    (cowBlocks_le_one g a.requestId)
    (by
      rcases hrow with h | h
      · left; simp only [length_nil] at h ⊢; omega
      · right; rw [htail, if_pos h]) (by simp only [length_nil]; omega) hcap
  omega

end Align

/-! ## The methods -/

section Methods

variable [DecidableEq H]

/-- What `get_num_blocks_to_allocate` returns. -/
def predicted (cfg : GroupConfig) (a : AllocArgs) (g : CacheGroup H) : ℤ :=
  match cfg.spec with
  | .mamba spec numCkpt align => cfg.mambaNumBlocksToAllocate spec numCkpt align a g
  | _ => cfg.baseNumBlocksToAllocate a g

/-- All that a prediction changes: an align-mode group may record the checkpoint it plans. -/
structure OnlyPlanned (cfg : GroupConfig) (a : AllocArgs) (g g' : CacheGroup H) : Prop where
  pool : g'.pool = g.pool
  tables : g'.mgr = { g.mgr with checkpoints := g'.mgr.checkpoints }
  others : ∀ r' ≠ a.requestId, g'.mgr.checkpoints r' = g.mgr.checkpoints r'
  base : cfg.isMamba = false → g' = g
  gate : a.applyAdmissionCap → g' = g
  record : ∀ spec numCkpt align, cfg.spec = .mamba spec numCkpt align →
    g'.mgr.checkpoints a.requestId = g.mgr.checkpoints a.requestId ∨
    g'.mgr.checkpoints a.requestId = cfg.checkpointRecord spec numCkpt align a g

omit [DecidableEq H] in
theorem OnlyPlanned.refl (cfg : GroupConfig) (a : AllocArgs) (g : CacheGroup H) : OnlyPlanned cfg a g g :=
  ⟨rfl, rfl, fun _ _ => rfl, fun _ => rfl, fun _ => rfl, fun _ _ _ _ => .inl rfl⟩

section Unread

variable {g' : CacheGroup H} (h : OnlyPlanned cfg a g g')
include h

omit [DecidableEq H] in
theorem OnlyPlanned.unread : ∃ c, g' = { g with mgr := { g.mgr with checkpoints := c } } := by
  refine ⟨g'.mgr.checkpoints, ?_⟩
  rw [← h.tables, ← h.pool]

theorem OnlyPlanned.predicted (b : AllocArgs) : cfg.predicted b g' = cfg.predicted b g := by
  obtain ⟨c, rfl⟩ := h.unread
  rfl

theorem OnlyPlanned.hitsThisStep (b : AllocArgs) : hitsThisStep b g' = hitsThisStep b g := by
  obtain ⟨c, rfl⟩ := h.unread
  rfl

omit [DecidableEq H] in
theorem OnlyPlanned.checkpointRecord (spec numCkpt : ℕ) (align : Option ℕ) (b : AllocArgs) :
    cfg.checkpointRecord spec numCkpt align b g' = cfg.checkpointRecord spec numCkpt align b g := by
  obtain ⟨c, rfl⟩ := h.unread
  rfl

end Unread

/-- The number of blocks the next `allocate_new_blocks` sets aside for the checkpoint it finds. -/
def planned (cfg : GroupConfig) (a : AllocArgs) (g : CacheGroup H) : ℕ :=
  match cfg.spec with
  | .mamba spec numCkpt align => cfg.plannedBlock spec numCkpt align a g
  | _ => 0

omit [DecidableEq H] in
theorem OnlyPlanned.planned {g' : CacheGroup H} (h : OnlyPlanned cfg a g g') (b : AllocArgs) :
    cfg.planned b g' = cfg.planned b g := by
  obtain ⟨c, rfl⟩ := h.unread
  rfl

section Base

variable (hbase : cfg.isMamba = false)
include hbase

theorem getNumBlocksToAllocate_base : cfg.getNumBlocksToAllocate (H := H) a = cfg.baseGetNumBlocksToAllocate a := by
  unfold getNumBlocksToAllocate
  split
  next hspec => simp [isMamba, hspec] at hbase
  · rfl

theorem allocateNewBlocks_base {r : RequestId} {numTokens mainTokens : ℕ} :
    cfg.allocateNewBlocks (H := H) r numTokens mainTokens = cfg.baseAllocateNewBlocks r numTokens := by
  unfold allocateNewBlocks
  split
  next hspec => simp [isMamba, hspec] at hbase
  · rfl

theorem predicted_base : cfg.predicted a g = cfg.baseNumBlocksToAllocate a g := by
  unfold predicted
  split
  next hspec => simp [isMamba, hspec] at hbase
  · rfl

omit [DecidableEq H] in
theorem takenNew_base {numTokens mainTokens len cow ckpt : ℕ} {allocated : Bool} :
    cfg.takenNew numTokens mainTokens len cow ckpt allocated = cow + (cdiv numTokens cfg.blockSize - len) := by
  unfold takenNew
  split
  next hspec => simp [isMamba, hspec] at hbase
  · rfl

end Base

omit [DecidableEq H] in
theorem isMamba_cases (cfg : GroupConfig) :
    (∃ spec numCkpt align, cfg.spec = .mamba spec numCkpt align) ∨ cfg.isMamba = false := by
  unfold isMamba
  split
  next spec numCkpt align hspec => exact .inl ⟨spec, numCkpt, align, hspec⟩
  · exact .inr rfl

omit [DecidableEq H] in
theorem isMamba_of_spec {spec numCkpt : ℕ} {align : Option ℕ} (hspec : cfg.spec = .mamba spec numCkpt align) :
    cfg.isMamba := by
  unfold isMamba; rw [hspec]

/-- **A prediction** writes the checkpoint of an align-mode chunk and nothing else. -/
theorem getNumBlocksToAllocate_predicts : wp (cfg.getNumBlocksToAllocate a)
      (fun k g' => k = cfg.predicted a g ∧ OnlyPlanned cfg a g g' ∧
        (cfg.isMamba → a.applyAdmissionCap = false → hitsThisStep a g = false →
          checkpointBlocks g' a.requestId = cfg.planned a g)) (fun _ g' => g' = g) g := by
  rcases cfg.isMamba_cases with ⟨spec, numCkpt, align, hspec⟩ | hbase
  · unfold getNumBlocksToAllocate predicted planned
    simp only [hspec, isMamba_of_spec hspec]
    unfold mambaGetNumBlocksToAllocate
    simp only [wp_bind, wp_get]
    rw [wp_runIf]
    constructor
    · intro h
      rw [wp_modifyMgr, wp_pure]
      refine ⟨rfl, ⟨rfl, rfl, fun r' hr' => by simp [hr'], fun hbase => ?_, fun hcap => ?_, ?_⟩, fun _ _ _ => ?_⟩
      · rw [isMamba_of_spec hspec] at hbase
        exact absurd hbase (by simp)
      · rw [h.2] at hcap
        exact absurd hcap (by simp)
      · intro spec' numCkpt' align' hspec'
        rw [hspec] at hspec'
        injection hspec' with h1 h2 h3
        subst h1 h2 h3
        exact .inr (by simp)
      · unfold checkpointBlocks plannedBlock GroupConfig.checkpointRecord
        simp only [Function.update_self]
        split <;> simp
    · intro h
      rw [wp_pure]
      exact ⟨rfl, OnlyPlanned.refl cfg a g, fun _ h1 h2 => absurd ⟨h2, h1⟩ h⟩
  · rw [getNumBlocksToAllocate_base hbase, predicted_base hbase]
    unfold baseGetNumBlocksToAllocate
    simp only [wp_bind, wp_get]
    rw [wp_check]
    constructor
    · intro _
      rw [wp_pure]
      exact ⟨rfl, OnlyPlanned.refl cfg a g, fun h => absurd h (by simp [hbase])⟩
    · intro _
      rfl

section

variable (cfg : GroupConfig) (m : ManagerState H) (r : RequestId)

/-- The row of a request has a slot for each of its first `t` tokens. -/
structure Slotted (t : ℕ) : Prop where
  row : cdiv t cfg.blockSize ≤ (m.reqToBlocks r).length
  scratch : ∀ spec numCkpt align, cfg.spec = .mamba spec numCkpt align →
    cdiv t cfg.blockSize + spec ≤ (m.reqToBlocks r).length ∧ m.allocatedBlockReqs r
  hits : cfg.isMamba = false → m.partialHitReqs r = none

/-- Where a request stands in a group: without slots it is unknown to the manager. -/
def Stands : Option ℕ → Prop
  | none => Untouched cfg m r
  | some t => Slotted cfg m r t

end

/-- **`allocate_new_blocks`** gives the request its slots. -/
theorem allocateNewBlocks_takes {o : KVCacheBlock → ℕ} {r : RequestId} {numTokens mainTokens t : ℕ}
    (hg : Owned o g) (ht : t ≤ numTokens) (htm : t ≤ mainTokens) : wp (cfg.allocateNewBlocks r numTokens mainTokens)
      (fun _ g' => Took o (cfg.takenNew numTokens mainTokens (g.mgr.reqToBlocks r).length
          (cowBlocks g r) (checkpointBlocks g r) (g.mgr.allocatedBlockReqs r)) g g' ∧ Slotted cfg g'.mgr r t)
      (Raised g (cfg.takenNew numTokens mainTokens (g.mgr.reqToBlocks r).length
          (cowBlocks g r) (checkpointBlocks g r) (g.mgr.allocatedBlockReqs r))) g := by
  have hcdiv := cdiv_le_cdiv cfg.blockSize ht
  have hcdivm := cdiv_le_cdiv cfg.blockSize htm
  rcases cfg.isMamba_cases with ⟨spec, numCkpt, align, hspec⟩ | hbase
  · unfold allocateNewBlocks takenNew
    simp only [hspec]
    refine wp_imp (mambaAllocateNewBlocks_takes hg) ?_
    intro _ g' ⟨htook, hlen, halloc⟩
    refine ⟨htook, by omega, fun spec' _ _ hspec' => ?_, fun h => ?_⟩
    · rw [hspec] at hspec'
      injection hspec' with h1
      exact ⟨by omega, halloc⟩
    · rw [isMamba_of_spec hspec] at h
      exact absurd h (by simp)
  · rw [allocateNewBlocks_base hbase, takenNew_base hbase]
    refine wp_imp (baseAllocateNewBlocks_takes hg) ?_
    intro _ g' ⟨htook, hlen, htail, _⟩
    refine ⟨htook, by omega, fun _ _ _ h => ?_, fun _ => htail⟩
    rw [isMamba_of_spec h] at hbase
    exact absurd hbase (by simp)

/-- A state of this step that was hit asks for more blocks than there are. -/
theorem predicted_hitsThisStep (hmamba : cfg.isMamba) (hstep : hitsThisStep a g) :
    cfg.predicted a g = g.pool.numGpuBlocks + 1 := by
  rcases cfg.isMamba_cases with ⟨spec, numCkpt, align, hspec⟩ | hbase
  · unfold predicted mambaNumBlocksToAllocate
    simp only [hspec]
    rw [hstep, if_pos rfl]
  · rw [hmamba] at hbase
    exact absurd hbase (by simp)

theorem predicted_nonneg (hfits : cfg.Fits a ext g) : 0 ≤ cfg.predicted a g := by
  rcases cfg.isMamba_cases with ⟨spec, numCkpt, align, hspec⟩ | hbase
  · unfold predicted
    unfold Fits at hfits
    simp only [hspec] at hfits ⊢
    exact mambaNumBlocksToAllocate_nonneg hfits
  · rw [predicted_base hbase]
    omega

/-- **Enough for a request that adopts its first blocks.** -/
theorem predicted_adopts (hext : a.totalComputedTokens = a.numLocalComputedTokens + ext)
    (hcap : a.applyAdmissionCap = false) (hnew : Untouched cfg g.mgr a.requestId)
    (htotal : a.totalComputedTokens ≤ a.numTokens) (htotalm : a.totalComputedTokens ≤ a.numTokensMainModel)
    (hfits : cfg.Fits a ext g) (hstep : cfg.isMamba → hitsThisStep a g = false) :
    ((cfg.takenHits a g.pool + cfg.takenExternal a ext +
      cfg.takenNew a.numTokens a.numTokensMainModel (cfg.lenLocal a + cfg.takenExternal a ext)
        (cfg.adoptedCow a) (cfg.planned a g) (g.mgr.allocatedBlockReqs a.requestId) : ℕ) : ℤ) ≤ cfg.predicted a g := by
  rcases cfg.isMamba_cases with ⟨spec, numCkpt, align, hspec⟩ | hbase
  · have hmamba := isMamba_of_spec hspec
    unfold predicted takenNew planned
    unfold Fits at hfits
    simp only [hspec] at hfits ⊢
    rw [hnew.allocatedBlockReqs hmamba]
    exact mambaNumBlocksToAllocate_adopts hspec hext hnew htotalm hfits (hstep hmamba)
  · rw [predicted_base hbase, takenNew_base hbase]
    exact_mod_cast baseNumBlocksToAllocate_adopts hext hcap hnew htotal

/-- **Enough for a request that continues its row**, or starts one without hits. -/
theorem predicted_continues (hcap : a.applyAdmissionCap = false) (hnc : a.newComputedBlocks = [])
    (hrow : cfg.numSkippedBlocks a.totalComputedTokens ≤ (g.mgr.reqToBlocks a.requestId).length)
    (hscratch : ∀ spec numCkpt align, cfg.spec = .mamba spec numCkpt align →
      g.mgr.allocatedBlockReqs a.requestId → spec ≤ (g.mgr.reqToBlocks a.requestId).length)
    (hhits : cfg.isMamba = false → g.mgr.partialHitReqs a.requestId = none) (hfits : cfg.Fits a ext g) :
    ((cfg.takenNew a.numTokens a.numTokensMainModel (g.mgr.reqToBlocks a.requestId).length
      (cowBlocks g a.requestId) (cfg.planned a g) (g.mgr.allocatedBlockReqs a.requestId) : ℕ) : ℤ) ≤
      cfg.predicted a g := by
  rcases cfg.isMamba_cases with ⟨spec, numCkpt, align, hspec⟩ | hbase
  · unfold predicted takenNew planned
    unfold Fits at hfits
    simp only [hspec] at hfits ⊢
    exact mambaNumBlocksToAllocate_continues hnc (hscratch spec numCkpt align hspec) hfits
  rw [predicted_base hbase, takenNew_base hbase]
  have hcow : cowBlocks g a.requestId = 0 := by unfold cowBlocks; rw [hhits hbase]; simp
  have h := baseNumBlocksToAllocate_continues hnc hcap hrow
  omega

end Methods

end GroupConfig

end VllmRwkv
