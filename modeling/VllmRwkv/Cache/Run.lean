import VllmRwkv.Cache.Estimate
import VllmRwkv.Pool.Run

/-!
# Runs of the cache manager

Any sequence of calls on one cache manager, made by a caller that keeps the protocol of the
scheduler: a request without slots has computed nothing, and one with slots brings no new hits.
A call that raises ends the engine, so a run consists of calls that return.
-/

namespace VllmRwkv

open List Function Raise Relation BlockPool CacheGroup GroupConfig KVCacheManager

variable {H : Type} {n : ℕ}

/-! ## Where requests stand -/

namespace GroupConfig

variable {cfg : GroupConfig} {m m' : ManagerState H} {r : RequestId} {slots : RequestId → Option ℕ} {t : Option ℕ}

/-- Where a request stands depends on four tables at that request. -/
theorem Stands.congr (h : Stands cfg m r t) (hrow : (m'.reqToBlocks r).length = (m.reqToBlocks r).length)
    (hcached : t = none → m'.numCachedBlock r = m.numCachedBlock r)
    (hhits : t = none ∨ cfg.isMamba = false → m'.partialHitReqs r = m.partialHitReqs r)
    (halloc : m'.allocatedBlockReqs r = m.allocatedBlockReqs r) : Stands cfg m' r t := by
  cases t with
  | none =>
    refine ⟨?_, ?_, ?_, fun hmamba => ?_⟩
    · rw [h.row] at hrow
      exact eq_nil_of_length_eq_zero hrow
    · rw [hcached rfl]; exact h.numCachedBlock
    · rw [hhits (.inl rfl)]; exact h.partialHitReqs
    · rw [halloc]; exact h.allocatedBlockReqs hmamba
  | some t =>
    refine ⟨?_, fun spec numCkpt align hspec => ?_, fun hbase => ?_⟩
    · rw [hrow]; exact h.row
    · rw [hrow, halloc]; exact h.scratch spec numCkpt align hspec
    · rw [hhits (.inr hbase)]; exact h.hits hbase

theorem Stands.of_sameBut {r' : RequestId} (h : Stands cfg m r' t) (hbut : SameBut r m m')
    (hr : r' ≠ r) : Stands cfg m' r' t :=
  h.congr (by rw [hbut.reqToBlocks r' hr]) (fun _ => hbut.numCachedBlock r' hr)
    (fun _ => hbut.partialHitReqs r' hr) (hbut.allocatedBlockReqs r' hr)

theorem Stands.of_onlyCached {g g' : CacheGroup H} {r' : RequestId}
    (h : Stands cfg g.mgr r' t) (hc : OnlyCached cfg r g g') (hr : r' = r → t.isSome) : Stands cfg g'.mgr r' t := by
  by_cases heq : r' = r
  · subst heq
    have hsome := hr rfl
    refine h.congr (by rw [hc.rows]) (fun hnone => ?_) (fun hor => ?_) (by rw [hc.allocated])
    · rw [hnone] at hsome; exact absurd hsome (by simp)
    · rcases hor with hnone | hbase
      · rw [hnone] at hsome; exact absurd hsome (by simp)
      · rw [hc.hits hbase]
  · exact h.of_sameBut hc.others heq

theorem OnlyCached.owned {o : KVCacheBlock → ℕ} {g g' : CacheGroup H} (hg : g.Owned o)
    (h : OnlyCached cfg r g g') : g'.Owned o := by
  have h1 := hg.of_sameRefs h.refs
  exact h1.setTables h.rows h.copies

end GroupConfig

namespace CacheConfig

variable {cfg : CacheConfig n} {s s' : KVCacheManager H n} {held : KVCacheBlock → ℕ}
  {slots : RequestId → Option ℕ} {request : Request H} {a : SlotArgs n} {r : RequestId}

theorem Shaped.estimated (h : cfg.Shaped slots s) (he : cfg.Estimated request a s s') : cfg.Shaped slots s' := by
  refine fun i r => (h i r).congr ?_ ?_ ?_ ?_
  · by_cases hr : r = request.requestId
    · subst hr; exact he.length i
    · rw [(he.others i r hr).1]
  · intro _; rw [he.tables i]
  · intro _; rw [he.tables i]
  · rw [he.tables i]

theorem CallOK.estimated (h : cfg.CallOK slots request a s) (he : cfg.Estimated request a s s') :
    cfg.CallOK slots request a s' := by
  unfold CallOK at h ⊢
  split at h
  · exact ⟨h.computed, by rw [he.same.numGpuBlocks]; exact h.hits, h.hitTokens, h.length⟩
  · exact h

theorem CallOK.adopts (h : cfg.CallOK slots request a s) (hs : cfg.Shaped slots s) (hadopt : a.Adopts) :
    (∀ i, Untouched (cfg.groups i) (s.managers i) request.requestId) ∧
      ∀ i, ∀ b ∈ a.newComputedBlocks i, b ∈ poolBlocks s.pool.numGpuBlocks := by
  have hstands := fun i => hs i request.requestId
  unfold CallOK at h
  cases hr : slots request.requestId with
  | none =>
    simp only [hr, Stands] at h hstands
    exact ⟨hstands, h.hits⟩
  | some t =>
    simp only [hr] at h
    exact absurd hadopt h.not_adopts

/-- The balance of references, and where requests stand. -/
structure Invariant (cfg : CacheConfig n) (held : KVCacheBlock → ℕ) (slots : RequestId → Option ℕ)
    (s : KVCacheManager H n) : Prop where
  owned : s.Owned held
  shaped : cfg.Shaped slots s

/-- A method of one group that keeps every request where it stands. -/
theorem Invariant.onManager {i : Fin n} {α : Type} {prog : GroupM H α} (hs : cfg.Invariant held slots s)
    (h : ∀ o, (s.group i).Owned o → wp prog (fun _ g' => g'.Owned o ∧ SamePool s.pool g'.pool ∧
      ∀ r, Stands (cfg.groups i) g'.mgr r (slots r)) any (s.group i)) :
    wp (onManager i prog) (fun _ s' => cfg.Invariant held slots s') any s := by
  refine wp_imp (wp_onManager (f := fun _ _ => 0) hs.owned h) ?_
  intro _ s' ⟨hown, _, hput, hstands⟩
  refine ⟨hown, fun j r => ?_⟩
  by_cases hj : j = i
  · subst hj; exact hstands r
  · rw [hput, putGroup_managers_ne hj]; exact hs.shaped j r

theorem Invariant.forManagers {prog : Fin n → GroupM H Unit} (hs : cfg.Invariant held slots s)
    (h : ∀ i s, cfg.Invariant held slots s → ∀ o, (s.group i).Owned o →
      wp (prog i) (fun _ g' => g'.Owned o ∧ SamePool s.pool g'.pool ∧
        ∀ r, Stands (cfg.groups i) g'.mgr r (slots r)) any (s.group i)) :
    wp (forManagers prog) (fun _ s' => cfg.Invariant held slots s') any s :=
  wp_forM (fun _ => cfg.Invariant held slots) (fun i _ s hs => hs.onManager (h i s hs)) hs

section Calls

variable [DecidableEq H]

theorem Invariant.coordinatorCacheBlocks {numTokens : ℕ} (hs : cfg.Invariant held slots s)
    (hr : (slots request.requestId).isSome) :
    wp (cfg.coordinatorCacheBlocks request numTokens) (fun _ s' => cfg.Invariant held slots s') any s := by
  refine hs.forManagers fun i s hs o ho => ?_
  rw [wp_runIf]
  constructor
  · intro _
    refine wp_any (cacheBlocks_onlyCached (s.group i) (OnlyCached.refl _ _ _)) ?_
    intro _ g' hc
    refine ⟨hc.owned ho, hc.refs.samePool, fun r => (hs.shaped i r).of_onlyCached hc fun heq => ?_⟩
    rw [heq]; exact hr
  · intro _
    exact ⟨ho, SamePool.refl _, hs.shaped i⟩

/-- **A step's allocation.** -/
theorem Invariant.allocateSlots (hs : cfg.Invariant held slots s) (hcall : cfg.CallOK slots request a s) :
    wp (cfg.allocateSlots request a) (fun ret s' => cfg.Invariant held (if ret.isSome then
        update slots request.requestId (some (cfg.slotTokens request a)) else slots) s') any s := by
  refine wp_allocateSlots hs.owned ?_ ?_
  · intro s1 hown hest
    exact ⟨hown, hs.shaped.estimated hest⟩
  intro s1 hown hest
  have hshaped := hs.shaped.estimated hest
  have hadopts := (hcall.estimated hest).adopts hshaped
  refine wp_any (takeSlots_takes hown hadopts) ?_
  intro newBlocks s2 hslot
  have hinv : cfg.Invariant held (update slots request.requestId (some (cfg.slotTokens request a))) s2 := by
    refine ⟨hslot.owned, fun i => (forall_update_iff _ _).2 ⟨hslot.slotted i, fun r hr => ?_⟩⟩
    exact (hshaped i r).of_sameBut (hslot.others i) hr
  rw [wp_runIf]
  refine ⟨fun _ => hinv.coordinatorCacheBlocks (by simp), fun _ => hinv⟩

end Calls

/-- A loop over the groups that makes them forget a request, those of `rest` being still to visit. -/
structure Leaving (cfg : CacheConfig n) (slots : RequestId → Option ℕ) (r : RequestId)
    (held : KVCacheBlock → ℕ) (rest : List (Fin n)) (s : KVCacheManager H n) : Prop where
  owned : s.Owned held
  others : ∀ i, ∀ r' ≠ r, Stands (cfg.groups i) (s.managers i) r' (slots r')
  gone : ∀ i ∉ rest, Untouched (cfg.groups i) (s.managers i) r

theorem Leaving.start (hs : cfg.Invariant held slots s) : cfg.Leaving slots r held (finRange n) s :=
  ⟨hs.owned, fun i r' _ => hs.shaped i r', fun i hi => absurd (mem_finRange i) hi⟩

theorem Leaving.done (h : cfg.Leaving slots r held [] s) : cfg.Invariant held (update slots r none) s := by
  exact ⟨h.owned, fun i => (forall_update_iff _ _).2 ⟨h.gone i not_mem_nil, h.others i⟩⟩

theorem Leaving.step {i : Fin n} {rest : List (Fin n)} {α : Type} {prog : GroupM H α}
    {f : α → KVCacheBlock → ℕ} (h : cfg.Leaving slots r held (i :: rest) s)
    (hprog : ∀ o, (s.group i).Owned o → wp prog (fun x g' => g'.Owned (fun b => o b + f x b) ∧
      SamePool s.pool g'.pool ∧ Untouched (cfg.groups i) g'.mgr r) never (s.group i))
    (hwrites : WritesAt r prog) : wp (onManager i prog)
      (fun x s' => cfg.Leaving slots r (fun b => held b + f x b) rest s') any s := by
  have hturn : ∀ o, (s.group i).Owned o → wp prog (fun x g' => g'.Owned (fun b => o b + f x b) ∧
      SamePool s.pool g'.pool ∧ Untouched (cfg.groups i) g'.mgr r ∧ SameBut r (s.managers i) g'.mgr)
      any (s.group i) := by
    intro o ho
    refine wp_any (wp_and (hprog o ho) (keeps_at hwrites (s.group i))) ?_
    intro x g' ⟨⟨hown, hsame, hgone⟩, hbut⟩
    exact ⟨hown, hsame, hgone, hbut⟩
  refine wp_imp (wp_onManager h.owned hturn) ?_
  intro x s' ⟨hown, _, hput, hgone, hbut⟩
  refine ⟨hown, fun j r' hr' => ?_, fun j hj => ?_⟩
  · by_cases hji : j = i
    · subst hji; exact (h.others j r' hr').of_sameBut hbut hr'
    · rw [hput, putGroup_managers_ne hji]; exact h.others j r' hr'
  by_cases hji : j = i
  · subst hji; exact hgone
  · rw [hput, putGroup_managers_ne hji]
    exact h.gone j fun hmem => (mem_cons.1 hmem).elim hji hj

variable (hs : cfg.Invariant held slots s)

include hs

theorem Invariant.free : wp (cfg.free r) (fun _ s' => cfg.Invariant held (update slots r none) s') any s := by
  have hloop : wp (cfg.free r) (fun _ s' => cfg.Leaving slots r held [] s') any s := by
    refine wp_forM (cfg.Leaving slots r held) ?_ (Leaving.start hs)
    intro i rest s1 h
    exact h.step (f := fun _ _ => 0) (fun o ho => free_owned ho) free_writesAt
  exact wp_imp hloop (fun _ _ h => h.done)

/-- Taking the blocks of a request out of the managers, to release them later. -/
theorem Invariant.popBlocksForFree :
    wp (cfg.popBlocksForFree r) (fun blocks s' => cfg.Invariant (fun b => held b + blocks.count b)
      (update slots r none) s') any s := by
  have hloop : wp (cfg.popBlocksForFree r) (fun blocks s' =>
      cfg.Leaving slots r (fun b => held b + blocks.count b) [] s') any s := by
    refine wp_foldlM (fun rest (blocks : List KVCacheBlock) s' =>
      cfg.Leaving slots r (fun b => held b + blocks.count b) rest s') ?_ ?_
    · intro i rest blocks s1 h
      rw [wp_bind]
      have hpop : ∀ o, (s1.group i).Owned o → wp ((cfg.groups i).popBlocksForFree r)
          (fun row g' => g'.Owned (fun b => o b + row.count b) ∧ SamePool s1.pool g'.pool ∧
            Untouched (cfg.groups i) g'.mgr r) never (s1.group i) := by
        intro o ho
        refine wp_imp (popBlocksForFree_owned ho) ?_
        intro row g' ⟨hown, hpool, _, hgone⟩
        exact ⟨hown, hpool ▸ SamePool.refl _, hgone⟩
      refine wp_imp (h.step hpop popBlocksForFree_writesAt) ?_
      intro row s2 h2
      rw [wp_pure]
      simpa only [count_append, add_assoc] using h2
    · simpa using Leaving.start hs
  exact wp_imp hloop (fun _ _ h => h.done)

theorem Invariant.removeSkippedBlocks {processed : ℕ} :
    wp (cfg.removeSkippedBlocks r processed) (fun _ s' => cfg.Invariant held slots s') any s := by
  refine wp_imp (removeSkippedBlocks_nulls hs.owned) ?_
  intro _ s' ⟨hown, hnull⟩
  refine ⟨hown, fun i r' => (hs.shaped i r').congr ?_ ?_ ?_ ?_⟩
  · by_cases hr : r' = r
    · subst hr; exact hnull.length i
    · rw [hnull.others i r' hr]
  · intro _; rw [hnull.tables i]
  · intro _; rw [hnull.tables i]
  · rw [hnull.tables i]

theorem Invariant.newStepStarts : wp cfg.newStepStarts (fun _ s' => cfg.Invariant held slots s') any s := by
  refine hs.forManagers fun i s hs o ho => ?_
  unfold GroupConfig.newStepStarts
  split
  · rw [wp_modifyMgr]
    exact ⟨ho.setTables rfl rfl, SamePool.refl _, fun r => (hs.shaped i r).congr rfl (fun _ => rfl) (fun _ => rfl) rfl⟩
  · exact ⟨ho, SamePool.refl _, hs.shaped i⟩

/-- Handing out the pending copies: their ends are held by the step that runs them. -/
theorem Invariant.takeKvCacheBlockCopies : wp takeKvCacheBlockCopies (fun ret s' =>
      cfg.Invariant (fun b => held b + ret.2.count b) slots s') any s := by
  unfold CacheConfig.takeKvCacheBlockCopies
  rw [wp_bind]
  refine wp_imp (wp_foldlM (fun _ pending s' =>
    cfg.Invariant (fun b => held b + (copyEnds pending).count b) slots s') ?_ ?_) fun _ _ h => h
  · intro i rest pending s1 h1
    rw [wp_get_bind, wp_bind]
    set copies := (s1.managers i).pendingCowCopies with hcopies
    have hclear : ∀ o, (s1.group i).Owned o → wp (modifyMgr fun m => { m with pendingCowCopies := [] })
          (fun _ g' => g'.Owned (fun b => o b + (copyEnds copies).count b) ∧ SamePool s1.pool g'.pool ∧
            ∀ r, Stands (cfg.groups i) g'.mgr r (slots r)) any (s1.group i) := by
      intro o ho
      rw [wp_modifyMgr]
      refine ⟨ho.setMgr 0 (fun _ _ => rfl) (fun b _ => ?_) (ho.rows 0) ?_, SamePool.refl _,
        fun r => (h1.shaped i r).congr rfl (fun _ => rfl) (fun _ => rfl) rfl⟩
      · simp only [group_mgr, ← hcopies]
        simp [copyEnds]
        omega
      · simp [copyEnds]
    refine wp_imp (wp_onManager h1.owned hclear) ?_
    rintro _ s2 ⟨hown, _, hput, hstands⟩
    rw [wp_pure]
    refine ⟨?_, fun j r => ?_⟩
    · simpa [copyEnds, add_assoc] using hown
    · by_cases hj : j = i
      · subst hj; exact hstands r
      · rw [hput, putGroup_managers_ne hj]; exact h1.shaped j r
  · simpa [copyEnds] using hs

/-- Any call on the pool by a caller that gives up only references held outside the managers. -/
theorem Invariant.payable {c : PoolCall H} (hc : PoolWorld.Admits ⟨s.pool, held⟩ c) : s.pool.Payable c.given:= by
  intro b _ hnull
  have h1 := hc.held b hnull
  have h2 := hs.owned.held_le hnull
  dsimp only at h1
  omega

theorem Invariant.poolCall [DecidableEq H] {c : PoolCall H} (hc : PoolWorld.Admits ⟨s.pool, held⟩ c) :
    wp (KVCacheManager.onPool c.run) (fun ret s' =>
      cfg.Invariant (fun b => held b + (c.taken ret).count b - c.given.count b) slots s') any s := by
  obtain ⟨xs, hxs⟩ := hs.owned.conserved
  unfold KVCacheManager.onPool
  rw [wp_zoom]
  refine wp_any (PoolCall.moves hxs hc.onPool (hs.payable hc) hc.unpin) ?_
  intro ret p' ⟨hcons, hsame, hrefs⟩
  refine ⟨hs.owned.setPool hcons hsame fun b hb => ?_, hs.shaped⟩
  have h1 := hc.held b hb
  have h2 := hrefs b
  dsimp only at h1 ⊢
  omega

end CacheConfig

/-! ## Runs -/

/-- A cache manager, the references held outside it, and the number of tokens each request has
slots for. -/
structure KvWorld (H : Type) (n : ℕ) where
  kv : KVCacheManager H n
  held : KVCacheBlock → ℕ
  slots : RequestId → Option ℕ

namespace KvWorld

variable [DecidableEq H]

/-- One call that returns. -/
inductive Step (cfg : CacheConfig n) : KvWorld H n → KvWorld H n → Prop
  | allocateSlots {w : KvWorld H n} {request a ret kv'} (hcall : cfg.CallOK w.slots request a w.kv)
      (hrun : cfg.allocateSlots request a w.kv = .ok ret kv') :
      Step cfg w ⟨kv', w.held, if ret.isSome then
        update w.slots request.requestId (some (cfg.slotTokens request a)) else w.slots⟩
  | free {w : KvWorld H n} {r kv'} (hrun : cfg.free r w.kv = .ok () kv') :
      Step cfg w ⟨kv', w.held, update w.slots r none⟩
  | popBlocksForFree {w : KvWorld H n} {r blocks kv'} (hrun : cfg.popBlocksForFree r w.kv = .ok blocks kv') :
      Step cfg w ⟨kv', fun b => w.held b + blocks.count b, update w.slots r none⟩
  | removeSkippedBlocks {w : KvWorld H n} {r processed kv'}
      (hrun : cfg.removeSkippedBlocks r processed w.kv = .ok () kv') : Step cfg w ⟨kv', w.held, w.slots⟩
  | cacheBlocks {w : KvWorld H n} {request numTokens kv'} (hslots : (w.slots request.requestId).isSome)
      (hrun : cfg.cacheBlocks request numTokens w.kv = .ok () kv') : Step cfg w ⟨kv', w.held, w.slots⟩
  | newStepStarts {w : KvWorld H n} {kv'} (hrun : cfg.newStepStarts w.kv = .ok () kv') :
      Step cfg w ⟨kv', w.held, w.slots⟩
  | takeKvCacheBlockCopies {w : KvWorld H n} {copies blocks kv'}
      (hrun : CacheConfig.takeKvCacheBlockCopies w.kv = .ok (copies, blocks) kv') :
      Step cfg w ⟨kv', fun b => w.held b + blocks.count b, w.slots⟩
  | pool {w : KvWorld H n} {c ret kv'} (hc : PoolWorld.Admits ⟨w.kv.pool, w.held⟩ c)
      (hrun : KVCacheManager.onPool c.run w.kv = .ok ret kv') :
      Step cfg w ⟨kv', fun b => w.held b + (c.taken ret).count b - c.given.count b, w.slots⟩

/-- A new cache manager. -/
def Initial (w : KvWorld H n) : Prop :=
  (∃ numBlocks caching hashBlockSize events, KVCacheManager.init numBlocks caching hashBlockSize events = .ok w.kv) ∧
  w.held = (fun _ => 0) ∧ w.slots = fun _ => none

def OK (cfg : CacheConfig n) (w : KvWorld H n) : Prop := cfg.Invariant w.held w.slots w.kv

variable {cfg : CacheConfig n} {w w' : KvWorld H n}

theorem OK.step (hw : w.OK cfg) (hstep : Step cfg w w') : w'.OK cfg := by
  cases hstep with
  | allocateSlots hcall hrun => exact (wp_ok (CacheConfig.Invariant.allocateSlots hw hcall) hrun :)
  | free hrun => exact (wp_ok (CacheConfig.Invariant.free hw) hrun :)
  | popBlocksForFree hrun => exact (wp_ok (CacheConfig.Invariant.popBlocksForFree hw) hrun :)
  | removeSkippedBlocks hrun => exact (wp_ok (CacheConfig.Invariant.removeSkippedBlocks hw) hrun :)
  | @cacheBlocks request numTokens _ hslots hrun =>
    have hwp : wp (cfg.cacheBlocks request numTokens) (fun _ s' => cfg.Invariant w.held w.slots s') any w.kv :=
      wp_runIf.2 ⟨fun _ => CacheConfig.Invariant.coordinatorCacheBlocks hw hslots, fun _ => hw⟩
    exact (wp_ok hwp hrun :)
  | newStepStarts hrun => exact (wp_ok (CacheConfig.Invariant.newStepStarts hw) hrun :)
  | takeKvCacheBlockCopies hrun => exact (wp_ok (CacheConfig.Invariant.takeKvCacheBlockCopies hw) hrun :)
  | pool hc hrun => exact (wp_ok (CacheConfig.Invariant.poolCall hw hc) hrun :)

omit [DecidableEq H] in
theorem OK.init (hw : w.Initial) : w.OK cfg := by
  obtain ⟨⟨numBlocks, caching, hashBlockSize, events, hinit⟩, hheld, hslots⟩ := hw
  obtain ⟨p, hp, hkv⟩ := init_ok hinit
  have hpos : 0 < numBlocks := by
    by_contra h
    simp [BlockPool.init, h] at hp
  obtain ⟨p', hp', hcons, hnum, _, hnull, href, _⟩ :=
    init_ok numBlocks hashBlockSize caching events hpos
  obtain rfl := Except.ok.inj (hp.symm.trans hp')
  refine ⟨?_, fun i r => ?_⟩
  · rw [hkv, hheld]
    refine ⟨⟨_, hcons⟩, fun rs _ b _ => ?_, fun i r b hb => ?_, fun i b hb => ?_, ?_⟩
    · rw [href b]
      simp [ManagerState.refsOf, ManagerState.init, copyEnds]
    · exact absurd hb not_mem_nil
    · exact absurd hb not_mem_nil
    · rw [hnull, hnum]
      exact mem_map.2 ⟨0, mem_range.2 hpos, rfl⟩
  · rw [hkv, hslots]
    exact ⟨rfl, rfl, rfl, fun _ => rfl⟩

theorem OK.run (hw : w.OK cfg) (hrun : ReflTransGen (Step cfg) w w') : w'.OK cfg := by
  induction hrun with
  | refl => exact hw
  | tail _ hstep ih => exact ih.step hstep

end KvWorld

/-! ## A small configuration -/

/-- One align-mode group of blocks of two tokens. -/
def stateCacheConfig (numPrefillCheckpointBlocks : ℕ) (alignment : Option ℕ) : CacheConfig 1 where
  groups := fun _ =>
    { spec := .mamba 0 numPrefillCheckpointBlocks alignment
      blockSize := 2
      kvCacheGroupId := 0
      enableCaching := true
      maxAdmissionBlocksPerRequest := none
      recordNewBlockIds := false
      cacheHitAlignmentTokens := 2
      useEagle := false
      sharedPrefixCheckpoint := false
      dropEagleCheckpointBlock := false
      blockSize_pos := Nat.two_pos
      window_pos := by simp }
  maxModelLen := 100
  schedulerBlockSize := 2
  retentionInterval := none
  numReprefillableTokens := 0
  eagleGroupIds := []
  hybrid := false
  enablePartialHashHits := false
  enableCaching := true
  watermarkBlocks := 0

/-- The group without checkpoint blocks. -/
abbrev plainState : CacheConfig 1 := stateCacheConfig 0 none

/-- A waiting request with four prompt tokens. -/
def fourTokens : Request ℕ where
  requestId := 1
  status := .waiting
  numPromptTokens := 4
  allTokenIds := [1, 2, 3, 4]
  blockHashes := [10, 11]
  numComputedTokens := 0
  numInFlightTokens := 0
  sharedPrefixBoundary := 0

/-- A call without hits. -/
def slotArgs (numNewTokens numExternalComputedTokens : ℕ) : CacheConfig.SlotArgs 1 where
  numNewTokens := numNewTokens
  numNewComputedTokens := 0
  newComputedBlocks := fun _ => []
  numLookaheadTokens := 0
  numExternalComputedTokens := numExternalComputedTokens
  delayCacheBlocks := false
  fullSequenceMustFit := false
  reservedBlocks := 0
  hasScheduledReqs := false
  skipZeroingGroupIds := []

theorem slotArgs_starts {s : KVCacheManager ℕ 1} {r new ext ckpt : ℕ} {align : Option ℕ} (h : ext ≤ 100) :
    (stateCacheConfig ckpt align).Starts { fourTokens with requestId := r } (slotArgs new ext) s :=
  ⟨rfl, nofun, fun _ => rfl, by
    simp only [CacheConfig.SlotArgs.numLocalComputedTokens, fourTokens, slotArgs, stateCacheConfig]; omega⟩

/-! ## Allocation is sufficient -/

section Sufficient

variable [DecidableEq H]

/-- **Allocation sufficiency.** In every run and for every call whose align-mode groups meet `Fits`:
when the count of the first half of `allocate_slots` passes the check, the second half does not
raise for lack of blocks, and takes at most the count out of the free queue. -/
theorem allocation_sufficient {cfg : CacheConfig n} {w0 w : KvWorld H n} (hinit : w0.Initial)
    (hrun : ReflTransGen (KvWorld.Step cfg) w0 w) {request : Request H} {a : CacheConfig.SlotArgs n}
    (hcall : cfg.CallOK w.slots request a w.kv) {k : ℤ} {s1 : KVCacheManager H n}
    (hcount : cfg.predictSlots request a w.kv = .ok k s1)
    (hcheck : k + a.watermarkBlocks cfg request ≤ s1.pool.getNumFreeBlocks - a.reservedBlocks)
    (hfits : cfg.Fits request a s1) : wp (cfg.takeSlots request a) (fun _ s2 => s1.numFree - s2.numFree ≤ k)
      (fun e s2 => e.isValueError = false ∧ s1.numFree - s2.numFree ≤ k) s1 := by
  have hw : w.OK cfg := (KvWorld.OK.init hinit).run hrun
  obtain ⟨hown, hest, hk, hrec⟩ := wp_ok (CacheConfig.predictSlots_estimates hw.owned) hcount
  have hshaped := hw.shaped.estimated hest
  have hcall1 := hcall.estimated hest
  have hfree : cfg.predictedBlocks request a s1 ≤ s1.numFree := by
    unfold KVCacheManager.numFree
    omega
  have hstep := CacheConfig.hitsThisStep_of_predictedBlocks_le hown hfits hfree
  have htaken := CacheConfig.takenBlocks_le_predictedBlocks hfits hrec hstep hshaped hcall1
  refine wp_mono (CacheConfig.takeSlots_takes hown (hcall1.adopts hshaped)) ?_ ?_
  · intro _ s2 hslot
    have := hslot.free
    omega
  · intro e s2 hraise
    obtain ⟨he, hs2⟩ := hraise (by omega)
    exact ⟨he, by omega⟩

theorem initial_of_fresh {numBlocks hashBlockSize : ℕ} {kv : KVCacheManager ℕ 1}
    (h : fresh numBlocks hashBlockSize = some kv) : KvWorld.Initial (H := ℕ) (n := 1) ⟨kv, fun _ => 0, fun _ => none⟩ :=
  ⟨⟨numBlocks, true, hashBlockSize, false, ok_of_toOption h⟩, rfl, rfl⟩

/-- Another request took a block. A first chunk of two tokens takes the one block it counts. -/
theorem allocation_sufficient_first_chunk : ∃ (w0 w : KvWorld ℕ 1) (k : ℤ) (s1 : KVCacheManager ℕ 1), w0.Initial ∧
      KvWorld.Step plainState w0 w ∧ plainState.predictSlots fourTokens (slotArgs 2 0) w.kv = .ok k s1 ∧ k = 1 ∧ s1.numFree = 1 ∧
      wp (plainState.takeSlots fourTokens (slotArgs 2 0)) (fun _ s2 => s1.numFree - s2.numFree ≤ k)
        (fun e s2 => e.isValueError = false ∧ s1.numFree - s2.numFree ≤ k) s1 := by
  obtain ⟨kv, ret, kv', k, s1, hkv, htake, hcount, hk, hfree, hcheck, hrow⟩ : ∃ kv ret kv' k s1,
      fresh 3 2 = some kv ∧ plainState.allocateSlots { fourTokens with requestId := 2 } (slotArgs 2 0) kv = .ok ret kv' ∧
      plainState.predictSlots fourTokens (slotArgs 2 0) kv' = .ok k s1 ∧ k = 1 ∧ s1.numFree = 1 ∧
      k + (slotArgs 2 0).watermarkBlocks plainState fourTokens ≤
        s1.pool.getNumFreeBlocks - (slotArgs 2 0).reservedBlocks ∧
      (s1.managers 0).reqToBlocks 1 = [] := ⟨_, _, _, _, _, rfl, rfl, rfl, rfl, rfl, by decide, rfl⟩
  have hinit := initial_of_fresh hkv
  have hstep := KvWorld.Step.allocateSlots (w := ⟨kv, fun _ => 0, fun _ => none⟩) (slotArgs_starts (by decide)) htake
  refine ⟨_, _, k, s1, hinit, hstep, hcount, hk, hfree, allocation_sufficient hinit (.single hstep)
    (by cases ret <;> exact slotArgs_starts (by decide)) hcount hcheck fun i => ⟨.inl ?_, .inl rfl⟩⟩
  obtain rfl : i = 0 := Subsingleton.elim _ _
  show ((s1.managers 0).reqToBlocks 1).length + 0 ≤ _
  rw [hrow]
  exact Nat.zero_le _

/-- Two computed tokens of a connector and two new ones: the block of the external state and that of
the new one are both needed, one is counted, and one is free. -/
theorem allocation_insufficient : ∃ (w : KvWorld ℕ 1) (k : ℤ) (s1 s2 : KVCacheManager ℕ 1) (msg : String), w.Initial ∧
      plainState.CallOK w.slots fourTokens (slotArgs 2 2) w.kv ∧
      plainState.predictSlots fourTokens (slotArgs 2 2) w.kv = .ok k s1 ∧
      k + (slotArgs 2 2).watermarkBlocks plainState fourTokens ≤
        s1.pool.getNumFreeBlocks - (slotArgs 2 2).reservedBlocks ∧
      plainState.takeSlots fourTokens (slotArgs 2 2) s1 = .error (.valueError msg) s2 := by
  obtain ⟨kv, k, s1, msg, s2, hkv, hpredict, hcheck, hraise⟩ : ∃ kv k s1 msg s2, fresh 2 2 = some kv ∧
      plainState.predictSlots fourTokens (slotArgs 2 2) kv = .ok k s1 ∧
      k + (slotArgs 2 2).watermarkBlocks plainState fourTokens ≤
        s1.pool.getNumFreeBlocks - (slotArgs 2 2).reservedBlocks ∧
      plainState.takeSlots fourTokens (slotArgs 2 2) s1 = .error (.valueError msg) s2 :=
    ⟨_, _, _, _, _, rfl, rfl, by decide, rfl⟩
  exact ⟨_, k, s1, s2, msg, initial_of_fresh hkv, slotArgs_starts (by decide), hpredict, hcheck, hraise⟩

/-- **No block in use is free**: in every run the free queue has no block of a request's row or of a pending
copy, and none that a caller holds. -/
theorem used_not_free {cfg : CacheConfig n} {w0 w : KvWorld H n} (hinit : w0.Initial)
    (hrun : ReflTransGen (KvWorld.Step cfg) w0 w) : ∃ xs, w.kv.pool.freeBlockQueue.Lists xs ∧ ∀ b ∈ xs,
      w.held b = 0 ∧ ∀ i r, b ∉ (w.kv.managers i).reqToBlocks r ++ copyEnds (w.kv.managers i).pendingCowCopies := by
  have hown := ((KvWorld.OK.init hinit).run hrun).owned
  obtain ⟨xs, hxs⟩ := hown.conserved
  refine ⟨xs, hxs.queue, fun b hb => ?_⟩
  obtain ⟨-, hnull, hzero⟩ := (hxs.free b).1 hb
  refine ⟨?_, fun i r hmem => ?_⟩
  · have hheld := hown.held_le hnull
    omega
  -- a place in the row or in a copy is one of the references counted
  have hrefs := hown.refs (fun _ => [r]) (fun _ => nodup_singleton r) b hnull
  rw [← count_pos_iff, count_append] at hmem
  have hpos : 0 < (w.kv.managers i).refsOf [r] b := hmem
  rw [sum_refsOf i] at hrefs
  omega

/-- A first chunk takes block 1. -/
theorem used_not_free_first_chunk : ∃ (w : KvWorld ℕ 1) (xs : List KVCacheBlock),
    (w.kv.managers 0).reqToBlocks 1 = [.block 1] ∧ w.kv.pool.freeBlockQueue.Lists xs ∧ .block 1 ∉ xs := by
  obtain ⟨kv, ret, kv', hkv, hrun, hrow⟩ : ∃ kv ret kv', fresh 3 2 = some kv ∧
      plainState.allocateSlots fourTokens (slotArgs 2 0) kv = .ok ret kv' ∧
      (kv'.managers 0).reqToBlocks 1 = [.block 1] := ⟨_, _, _, rfl, rfl, rfl⟩
  obtain ⟨xs, hxs, hfree⟩ := used_not_free (initial_of_fresh hkv)
    (.single (.allocateSlots (slotArgs_starts (by decide)) hrun))
  exact ⟨_, xs, hrow, hxs, fun hmem => (hfree _ hmem).2 0 1 (hrow ▸ mem_cons_self)⟩

end Sufficient

/-! ## Refused calls -/

section Refused

/-- **A refused call changes almost nothing.** When `allocate_slots` returns `None`, the index, the
pending copies and every other table are as before; the row of the request differs in null blocks
wholly below the window of its processed tokens, the counts by exactly the references given up so,
and an align-mode group may have recorded the checkpoint planned for the refused chunk. -/
theorem refused_allocation [DecidableEq H] {cfg : CacheConfig n} {w0 w : KvWorld H n}
    (hinit : w0.Initial) (hrun : ReflTransGen (KvWorld.Step cfg) w0 w) {request : Request H}
    {a : CacheConfig.SlotArgs n} {s' : KVCacheManager H n}
    (hrefused : cfg.allocateSlots request a w.kv = .ok none s') : cfg.Estimated request a w.kv s' := by
  have hw : w.OK cfg := (KvWorld.OK.init hinit).run hrun
  have hwp : wp (cfg.allocateSlots request a)
      (fun ret s1 => ret = none → cfg.Estimated request a w.kv s1) (fun _ _ => True) w.kv := by
    refine CacheConfig.wp_allocateSlots hw.owned (fun s1 _ hest _ => hest) fun s1 _ _ => ?_
    refine wp_imp wp_trivial (fun newBlocks s2 _ => ?_)
    exact wp_imp wp_trivial (nofun)
  exact wp_ok hwp hrefused rfl

/-- A chunk of four tokens plans a checkpoint inside itself and needs two blocks. One is free, so it
is refused, and the planned checkpoint stays recorded. -/
theorem refused_allocation_records : ∃ (w : KvWorld ℕ 1) (s' : KVCacheManager ℕ 1), w.Initial ∧
      (stateCacheConfig 1 (some 1)).CallOK w.slots fourTokens (slotArgs 4 0) w.kv ∧
      (stateCacheConfig 1 (some 1)).allocateSlots fourTokens (slotArgs 4 0) w.kv = .ok none s' ∧
      (w.kv.managers 0).checkpoints 1 = none ∧ (s'.managers 0).checkpoints 1 = some (2, 0) := by
  obtain ⟨kv, s', hkv, hrest⟩ : ∃ kv s', fresh 2 2 = some kv ∧
      (stateCacheConfig 1 (some 1)).allocateSlots fourTokens (slotArgs 4 0) kv = .ok none s' ∧
      (kv.managers 0).checkpoints 1 = none ∧ (s'.managers 0).checkpoints 1 = some (2, 0) := ⟨_, _, rfl, rfl, rfl, rfl⟩
  exact ⟨_, s', initial_of_fresh hkv, slotArgs_starts (by decide), hrest⟩

/-- The first chunk takes the only block, and a second one is refused. -/
theorem refused_allocation_no_blocks : ∃ (w0 w : KvWorld ℕ 1) (s' : KVCacheManager ℕ 1), w0.Initial ∧
      ReflTransGen (KvWorld.Step plainState) w0 w ∧ (w.kv.managers 0).reqToBlocks 1 = [.block 1] ∧
      plainState.allocateSlots fourTokens (slotArgs 4 0) w.kv = .ok none s' ∧
      plainState.Estimated fourTokens (slotArgs 4 0) w.kv s' := by
  obtain ⟨kv, ret, s, s', hkv, htake, hrow, hrefused⟩ : ∃ kv ret s s', fresh 2 2 = some kv ∧
      plainState.allocateSlots fourTokens (slotArgs 2 0) kv = .ok ret s ∧
      (s.managers 0).reqToBlocks 1 = [.block 1] ∧
      plainState.allocateSlots fourTokens (slotArgs 4 0) s = .ok none s' :=
    ⟨_, _, _, _, rfl, rfl, rfl, rfl⟩
  have hinit := initial_of_fresh hkv
  have hrun := ReflTransGen.single (KvWorld.Step.allocateSlots (w := ⟨kv, fun _ => 0, fun _ => none⟩)
    (slotArgs_starts (by decide)) htake)
  exact ⟨_, _, s', hinit, hrun, hrow, hrefused, refused_allocation hinit hrun hrefused⟩

end Refused

end VllmRwkv
