import VllmRwkv.Cache.Mamba
import VllmRwkv.Pool.Index

/-!
# What the methods of a manager leave alone

A method called for a request writes no table at another request. `SameBut r m m'` says so, and
every method that allocates, caches or gives back keeps it.

`Untouched cfg m r`: the manager knows nothing of `r`.
-/

namespace VllmRwkv

open Raise CacheGroup BlockPool

variable {H : Type}

namespace GroupConfig

/-- A manager knows nothing of `r`. Only align-mode groups mark requests as allocated. -/
structure Untouched (cfg : GroupConfig) (m : ManagerState H) (r : RequestId) : Prop where
  row : m.reqToBlocks r = []
  numCachedBlock : m.numCachedBlock r = none
  partialHitReqs : m.partialHitReqs r = none
  allocatedBlockReqs : cfg.isMamba → m.allocatedBlockReqs r = false

/-- The tables agree on every request but `r`. -/
structure SameBut (r : RequestId) (m m' : ManagerState H) : Prop where
  reqToBlocks : ∀ r' ≠ r, m'.reqToBlocks r' = m.reqToBlocks r'
  numCachedBlock : ∀ r' ≠ r, m'.numCachedBlock r' = m.numCachedBlock r'
  partialHitReqs : ∀ r' ≠ r, m'.partialHitReqs r' = m.partialHitReqs r'
  allocatedBlockReqs : ∀ r' ≠ r, m'.allocatedBlockReqs r' = m.allocatedBlockReqs r'

variable {r : RequestId} {m m' m0 : ManagerState H} {cfg : GroupConfig} {f : ManagerState H → ManagerState H}

theorem SameBut.refl (r : RequestId) (m : ManagerState H) : SameBut r m m :=
  ⟨fun _ _ => rfl, fun _ _ => rfl, fun _ _ => rfl, fun _ _ => rfl⟩

theorem SameBut.trans (h : SameBut r m0 m) (h' : SameBut r m m') : SameBut r m0 m' :=
  ⟨fun r' hr => (h'.1 r' hr).trans (h.1 r' hr), fun r' hr => (h'.2 r' hr).trans (h.2 r' hr),
    fun r' hr => (h'.3 r' hr).trans (h.3 r' hr), fun r' hr => (h'.4 r' hr).trans (h.4 r' hr)⟩

/-- A program that writes the tables at `r` only. -/
abbrev WritesAt {α : Type} (r : RequestId) (prog : GroupM H α) : Prop :=
  ∀ m0, Keeps (fun g => SameBut r m0 g.mgr) prog

variable {α : Type} {prog : PoolM H α}

theorem writesAt_onPool : WritesAt r (onPool prog) := fun _ g hg => by
  unfold onPool
  rw [wp_zoom]
  exact wp_mono wp_trivial (fun _ _ _ => hg) (fun _ _ _ => hg)

theorem writesAt_modifyMgr (hf : ∀ m, SameBut r m (f m)) :
    WritesAt r (modifyMgr f) := fun _ => keeps_modify fun g hg => hg.trans (hf g.mgr)

theorem writesAt_setRow {row : List KVCacheBlock} : WritesAt r (setRow (H := H) r row) :=
  writesAt_modifyMgr fun m => ⟨fun r' hr => by simp [hr], fun _ _ => rfl, fun _ _ => rfl, fun _ _ => rfl⟩

/-- Writing tables other than the four that `SameBut` is about. -/
theorem keeps_otherTables (h : ∀ m, (f m).reqToBlocks = m.reqToBlocks ∧ (f m).numCachedBlock = m.numCachedBlock ∧
      (f m).partialHitReqs = m.partialHitReqs ∧ (f m).allocatedBlockReqs = m.allocatedBlockReqs) :
    Keeps (fun g => SameBut r m0 g.mgr) (modifyMgr f) := by
  refine writesAt_modifyMgr (fun m => ?_) m0
  obtain ⟨h1, h2, h3, h4⟩ := h m
  exact ⟨fun _ _ => by rw [h1], fun _ _ => by rw [h2], fun _ _ => by rw [h3], fun _ _ => by rw [h4]⟩

theorem keeps_at {prog : GroupM H α} (h : WritesAt r prog) (g : CacheGroup H) :
    wp prog (fun _ g' => SameBut r g.mgr g'.mgr) (fun _ g' => SameBut r g.mgr g'.mgr) g :=
  h g.mgr g (SameBut.refl r g.mgr)

/-! ## Allocation -/

theorem addLocalComputedBlocks_writesAt {nc : List KVCacheBlock} {loc ext : ℕ} :
    WritesAt r (cfg.addLocalComputedBlocks (H := H) r nc loc ext) := by
  intro m0
  refine keeps_bind keeps_get fun g => keeps_bind keeps_check fun _ => ?_
  refine keeps_bind (keeps_runIf fun _ => writesAt_onPool m0) fun _ => keeps_bind keeps_check fun _ => ?_
  refine keeps_bind (writesAt_modifyMgr (fun m => ?_) m0) fun _ => ?_
  · constructor <;> intro r' hr <;> simp [hr]
  · refine keeps_runIf fun _ => writesAt_modifyMgr (fun m => ?_) m0
    constructor <;> intro r' hr <;> simp [hr]

section Allocation

variable [DecidableEq H]

theorem allocateExternalComputedBlocks_writesAt {loc ext : ℕ} {record : Bool} :
    WritesAt r (cfg.allocateExternalComputedBlocks (H := H) r loc ext record) := by
  intro m0
  refine keeps_runIf fun _ => keeps_bind keeps_get fun g => keeps_bind (writesAt_onPool m0) fun _ => ?_
  refine keeps_bind (writesAt_setRow m0) fun _ => keeps_runIf fun _ => ?_
  exact keeps_otherTables fun _ => ⟨rfl, rfl, rfl, rfl⟩

omit [DecidableEq H] in
theorem applyCow_writesAt {idx : ℕ} {source cow : KVCacheBlock} : WritesAt r (applyCow (H := H) r idx source cow) := by
  intro m0
  refine keeps_bind keeps_get fun g => keeps_bind keeps_check fun _ => keeps_bind keeps_check fun _ => ?_
  refine keeps_bind keeps_check fun _ => ?_
  refine keeps_bind (writesAt_modifyMgr (fun m => ?_) m0) fun _ => writesAt_onPool m0
  constructor <;> intro r' hr <;> simp [hr]

theorem baseAllocateNewBlocks_writesAt {numTokens : ℕ} :
    WritesAt r (cfg.baseAllocateNewBlocks (H := H) r numTokens) := by
  intro m0
  have hredirect : Keeps (fun g => SameBut r m0 g.mgr) (redirectPartialHit r) := by
    refine keeps_bind keeps_get fun g => ?_
    split
    · exact keeps_pure
    refine keeps_bind (writesAt_modifyMgr (fun m => ?_) m0) fun _ => keeps_bind (writesAt_onPool m0) ?_
    · constructor <;> intro r' hr <;> simp [hr]
    intro ret
    cases ret with
    | nil => exact keeps_throw
    | cons cow _ =>
      refine keeps_bind (applyCow_writesAt m0) fun _ => ?_
      exact keeps_bind (keeps_otherTables fun _ => ⟨rfl, rfl, rfl, rfl⟩) fun _ => keeps_pure
  refine keeps_bind hredirect fun _ => keeps_bind keeps_get fun g => ?_
  dsimp only
  split
  · exact keeps_pure
  · refine keeps_bind (writesAt_onPool m0) fun _ => keeps_bind (writesAt_setRow m0) fun _ => ?_
    refine keeps_bind (keeps_runIf fun _ => ?_) fun _ => keeps_pure
    exact keeps_otherTables fun _ => ⟨rfl, rfl, rfl, rfl⟩

omit [DecidableEq H] in
theorem mambaLayoutRow_writesAt {spec skipped ckpt : ℕ} : WritesAt r (mambaLayoutRow (H := H) r spec skipped ckpt) := by
  intro m0
  refine keeps_bind keeps_get fun g => keeps_bind (keeps_runIf fun _ => writesAt_setRow m0) fun _ => ?_
  refine keeps_runIf fun _ => keeps_forM fun idx _ => keeps_bind keeps_get fun g => ?_
  dsimp only
  split
  · exact keeps_throw
  · exact keeps_bind keeps_check fun _ => writesAt_setRow m0

theorem mambaServePartialHit_writesAt {allocated : Bool} {newBlocks : List KVCacheBlock} :
    WritesAt r (cfg.mambaServePartialHit (H := H) r allocated newBlocks) := by
  intro m0
  refine keeps_bind keeps_get fun g => ?_
  split
  · exact keeps_pure
  · exact keeps_throw
  split
  · refine keeps_bind (keeps_bind keeps_get fun g => keeps_bind keeps_check fun _ => ?_) fun _ => keeps_pure
    refine keeps_bind (writesAt_onPool m0) fun _ => ?_
    refine keeps_bind (keeps_otherTables fun _ => ⟨rfl, rfl, rfl, rfl⟩) fun _ => ?_
    refine keeps_bind (writesAt_onPool m0) fun _ => keeps_bind keeps_get fun g => ?_
    refine keeps_bind (keeps_otherTables fun _ => ⟨rfl, rfl, rfl, rfl⟩) fun _ => ?_
    refine keeps_bind (keeps_forM fun _ _ => keeps_bind keeps_check fun _ => ?_) fun _ => ?_
    · exact keeps_otherTables fun _ => ⟨rfl, rfl, rfl, rfl⟩
    · exact keeps_bind keeps_get fun _ =>
      keeps_otherTables fun _ => ⟨rfl, rfl, rfl, rfl⟩
  · exact keeps_bind (applyCow_writesAt m0) fun _ => keeps_pure

theorem mambaAllocateNewBlocks_writesAt {spec numTokens : ℕ} :
    WritesAt r (cfg.mambaAllocateNewBlocks (H := H) spec r numTokens) := by
  intro m0
  have halloc : Keeps (fun g => SameBut r m0 g.mgr) (modifyMgr fun m =>
      { m with allocatedBlockReqs := Function.update m.allocatedBlockReqs r true }) := by
    refine writesAt_modifyMgr (fun m => ?_) m0
    constructor <;> intro r' hr <;> simp [hr]
  refine keeps_bind keeps_get fun g => ?_
  dsimp only
  split
  · exact keeps_bind halloc fun _ => keeps_pure
  refine keeps_bind (keeps_runIf fun _ =>
      keeps_otherTables fun _ => ⟨rfl, rfl, rfl, rfl⟩) fun _ => ?_
  refine keeps_bind (mambaLayoutRow_writesAt m0) fun _ => keeps_bind keeps_get fun _ => ?_
  refine keeps_bind keeps_check fun _ => keeps_bind (writesAt_onPool m0) fun _ => ?_
  refine keeps_bind keeps_get fun _ => keeps_bind (mambaServePartialHit_writesAt m0) fun _ => ?_
  refine keeps_bind keeps_get fun _ => keeps_bind (writesAt_setRow m0) fun _ => ?_
  refine keeps_bind halloc fun _ => keeps_bind (writesAt_modifyMgr (fun m => ?_) m0) fun _ => keeps_pure
  constructor <;> intro r' hr <;> simp [hr]

theorem allocateNewBlocks_writesAt {numTokens mainTokens : ℕ} :
    WritesAt r (cfg.allocateNewBlocks (H := H) r numTokens mainTokens) := by
  unfold allocateNewBlocks
  split
  · exact mambaAllocateNewBlocks_writesAt
  · exact baseAllocateNewBlocks_writesAt

end Allocation

/-! ## Giving back -/

theorem popBlocksForFree_writesAt : WritesAt r (cfg.popBlocksForFree (H := H) r) := by
  intro m0
  have hbase : Keeps (fun g => SameBut r m0 g.mgr) (basePopBlocksForFree r) := by
    refine keeps_bind keeps_get fun g => keeps_bind (writesAt_modifyMgr (fun m => ?_) m0) fun _ => keeps_pure
    constructor <;> intro r' hr <;> simp [hr]
  unfold popBlocksForFree
  split
  · refine keeps_bind (writesAt_modifyMgr (fun m => ?_) m0) fun _ => hbase
    constructor <;> intro r' hr <;> simp [hr]
  · exact hbase

theorem free_writesAt : WritesAt r (cfg.free (H := H) r) := fun m0 =>
  keeps_bind (popBlocksForFree_writesAt m0) fun _ => writesAt_onPool m0

/-! ## Caching -/

/-- What registering hashes for `r` leaves alone: counts and free queue, rows, pending copies and
the tables of other requests. Only align-mode groups turn a registered tail into a partial hit. -/
structure OnlyCached (cfg : GroupConfig) (r : RequestId) (g0 g : CacheGroup H) : Prop where
  refs : SameRefs g0.pool g.pool
  rows : g.mgr.reqToBlocks = g0.mgr.reqToBlocks
  copies : g.mgr.pendingCowCopies = g0.mgr.pendingCowCopies
  allocated : g.mgr.allocatedBlockReqs = g0.mgr.allocatedBlockReqs
  others : SameBut r g0.mgr g.mgr
  hits : cfg.isMamba = false → g.mgr.partialHitReqs = g0.mgr.partialHitReqs

section Caching

variable {g0 : CacheGroup H}

theorem OnlyCached.refl (cfg : GroupConfig) (r : RequestId) (g : CacheGroup H) : OnlyCached cfg r g g :=
  ⟨SameRefs.refl _, rfl, rfl, rfl, SameBut.refl r _, fun _ => rfl⟩

theorem onlyCached_onPool (h : Keeps (SameRefs g0.pool) prog) : Keeps (OnlyCached cfg r g0) (onPool prog) := by
  intro g hg
  unfold onPool
  rw [wp_zoom]
  refine wp_mono (h g.pool hg.refs) ?_ ?_ <;> exact fun _ p hp => ⟨hp, hg.rows, hg.copies, hg.allocated, hg.others, hg.hits⟩

theorem onlyCached_modifyMgr (hrows : ∀ m, (f m).reqToBlocks = m.reqToBlocks)
    (hcopies : ∀ m, (f m).pendingCowCopies = m.pendingCowCopies)
    (halloc : ∀ m, (f m).allocatedBlockReqs = m.allocatedBlockReqs) (hbut : ∀ m, SameBut r m (f m))
    (hhits : cfg.isMamba = false → ∀ m, (f m).partialHitReqs = m.partialHitReqs) :
    Keeps (OnlyCached cfg r g0) (modifyMgr f) :=
  keeps_modify fun _ hg => ⟨hg.refs, (hrows _).trans hg.rows, (hcopies _).trans hg.copies,
    (halloc _).trans hg.allocated, hg.others.trans (hbut _), fun h => (hhits h _).trans (hg.hits h)⟩

/-- Writing tables that `OnlyCached` does not mention. -/
theorem onlyCached_otherTables
    (h1 : ∀ m, (f m).reqToBlocks = m.reqToBlocks) (h2 : ∀ m, (f m).pendingCowCopies = m.pendingCowCopies)
    (h3 : ∀ m, (f m).allocatedBlockReqs = m.allocatedBlockReqs) (h4 : ∀ m, (f m).numCachedBlock = m.numCachedBlock)
    (h5 : ∀ m, (f m).partialHitReqs = m.partialHitReqs) : Keeps (OnlyCached cfg r g0) (modifyMgr f) := by
  refine onlyCached_modifyMgr h1 h2 h3 (fun m => ⟨?_, ?_, ?_, ?_⟩) fun _ => h5
  · exact fun _ _ => by rw [h1]
  · exact fun _ _ => by rw [h4]
  · exact fun _ _ => by rw [h5]
  · exact fun _ _ => by rw [h3]

variable [DecidableEq H] {request : Request H} {numTokens : ℕ} {retention : Option ℕ} {boundaries : List ℕ}

theorem baseCacheBlocks_onlyCached : Keeps (OnlyCached cfg request.requestId g0)
      (cfg.baseCacheBlocks request numTokens retention boundaries) := by
  refine keeps_bind keeps_get fun g => keeps_runIf fun _ => ?_
  refine keeps_bind (onlyCached_onPool (sameRefs_hashOps.cacheFullBlocks fun _ _ => trivial)) fun _ => ?_
  refine onlyCached_modifyMgr (fun _ => rfl) (fun _ => rfl) (fun _ => rfl) (fun m => ?_) fun _ _ => rfl
  constructor <;> intro r' hr <;> simp [hr]

theorem fullCacheBlocks_onlyCached : Keeps (OnlyCached cfg request.requestId g0)
      (cfg.fullCacheBlocks request numTokens retention boundaries) := by
  refine keeps_bind baseCacheBlocks_onlyCached fun _ => keeps_bind keeps_get fun g => ?_
  refine keeps_runIf fun _ => keeps_bind keeps_get fun g => ?_
  dsimp only
  split
  · exact keeps_pure
  · split
    · exact keeps_pure
    · exact keeps_bind (onlyCached_onPool (sameRefs_hashOps.cachePartialBlock trivial)) fun _ => keeps_pure

theorem mambaCacheBlocks_onlyCached (hmamba : cfg.isMamba) : Keeps (OnlyCached cfg request.requestId g0)
      (cfg.mambaCacheBlocks request numTokens retention boundaries) := by
  have hcheckpoint : ∀ pos idx, Keeps (OnlyCached cfg request.requestId g0)
      (cfg.cacheCheckpoint request retention pos idx) := by
    intro pos idx
    refine keeps_bind keeps_get fun g => ?_
    split
    · exact keeps_throw
    dsimp only
    split
    · exact keeps_bind (onlyCached_onPool sameRefs_hashOps.maybeEvictCachedBlock) fun _ => keeps_pure
    · split
      · exact keeps_pure
      · exact onlyCached_onPool (sameRefs_hashOps.cachePartialBlock trivial)
  have htail : Keeps (OnlyCached cfg request.requestId g0) (cfg.cacheTail request numTokens) := by
    refine keeps_bind keeps_get fun g => ?_
    dsimp only
    split
    · exact keeps_pure
    split
    · exact keeps_pure
    split
    · exact keeps_pure
    refine keeps_bind (onlyCached_onPool (sameRefs_hashOps.cachePartialBlock trivial)) fun _ => ?_
    refine keeps_bind (keeps_runIf fun _ => ?_) fun _ => keeps_pure
    refine onlyCached_modifyMgr (fun _ => rfl) (fun _ => rfl) (fun _ => rfl) (fun m => ?_) ?_
    · constructor <;> intro r' hr <;> simp [hr]
    · intro h; rw [hmamba] at h; exact absurd h (by simp)
  refine keeps_bind keeps_get fun g => keeps_bind baseCacheBlocks_onlyCached fun _ => ?_
  refine keeps_bind keeps_get fun g => keeps_bind (keeps_bind keeps_get fun g => ?_) fun _ => ?_
  · split
    · exact hcheckpoint _ _
    · exact htail
  refine keeps_bind ?_ fun _ => keeps_bind keeps_get fun g => keeps_forM fun b _ => ?_
  · exact onlyCached_otherTables (fun _ => rfl) (fun _ => rfl) (fun _ => rfl) (fun _ => rfl) fun _ => rfl
  refine keeps_bind keeps_get fun g => ?_
  dsimp only
  split
  · refine keeps_bind keeps_check fun _ => ?_
    exact onlyCached_otherTables (fun _ => rfl) (fun _ => rfl) (fun _ => rfl) (fun _ => rfl) fun _ => rfl
  · exact keeps_pure

/-- **Registering hashes** changes no reference and no row. -/
theorem cacheBlocks_onlyCached : Keeps (OnlyCached cfg request.requestId g0)
      (cfg.cacheBlocks request numTokens retention boundaries) := by
  unfold cacheBlocks
  split
  next hspec => exact mambaCacheBlocks_onlyCached (by unfold isMamba; rw [hspec])
  · exact fullCacheBlocks_onlyCached
  · exact baseCacheBlocks_onlyCached

end Caching

end GroupConfig

end VllmRwkv
