import VllmRwkv.Cache.Holdings
import VllmRwkv.Cache.Predict

/-!
# What `allocate_slots` counts is enough

`takeSlots_takes`: from the state in which the blocks of a step have been counted, adopting the
hits and taking the new blocks stays within the count, over all groups together. Touching the
hits of one group can only shrink what is evictable for the next, so the counts of the groups,
which are made before anything is taken, add up.
-/

namespace VllmRwkv

open List Raise BlockPool CacheGroup GroupConfig KVCacheManager

variable {H : Type} {n : ℕ}

namespace GroupConfig

variable {o : KVCacheBlock → ℕ} {g g' : CacheGroup H} {k k' : ℕ}

theorem Took.mono (h : Took o k g g') (hk : k ≤ k') : Took o k' g g' := ⟨h.owned, h.same, by have := h.free; omega⟩

theorem Raised.mono {e : PyErr} (h : Raised g k e g') (hk : k ≤ k') : Raised g k' e g' := by
  intro hfree
  obtain ⟨he, hg⟩ := h (by omega)
  exact ⟨he, by omega⟩

/-- A block that becomes referenced is no longer evictable. -/
theorem getNumEvictableBlocks_anti {p p' : BlockPool H} {bs : List KVCacheBlock}
    (hcnt : ∀ b, p.refCnt b ≤ p'.refCnt b) (hnull : p'.isNull = p.isNull)
    (hpos : ∀ b ∈ bs, p.isNull b = false → 0 ≤ p.refCnt b) :
    getNumEvictableBlocks p' bs ≤ getNumEvictableBlocks p bs := by
  refine countP_mono_left fun b hb h => ?_
  simp only [decide_eq_true_eq, hnull] at h ⊢
  have h1 := hcnt b
  have h2 := hpos b hb h.2
  exact ⟨by omega, h.2⟩

/-- Where a request stands in a group between the phases of an allocation. -/
structure RowIs (m0 : ManagerState H) (r : RequestId) (len : ℕ) (cow : Bool) (m : ManagerState H) : Prop where
  length : (m.reqToBlocks r).length = len
  hit : (m.partialHitReqs r).isSome = cow
  allocated : m.allocatedBlockReqs r = m0.allocatedBlockReqs r
  checkpoints : m.checkpoints r = m0.checkpoints r
  others : SameBut r m0 m

theorem RowIs.refl (m : ManagerState H) (r : RequestId) :
    RowIs m r (m.reqToBlocks r).length (m.partialHitReqs r).isSome m :=
  ⟨rfl, rfl, rfl, rfl, SameBut.refl r m⟩

end GroupConfig

namespace KVCacheManager

theorem total_add (k k' : Fin n → ℕ) : total (fun i => k i + k' i) = total k + total k' := by
  exact sum_map_add

theorem total_le_sum {k : Fin n → ℕ} {z : Fin n → ℤ} (h : ∀ i, (k i : ℤ) ≤ z i) :
    (total k : ℤ) ≤ ((finRange n).map z).sum := by
  unfold total
  induction finRange n with
  | nil => simp
  | cons i is ih =>
    simp only [map_cons, sum_cons]
    have := h i
    omega

end KVCacheManager

namespace CacheConfig

variable {cfg : CacheConfig n} {s : KVCacheManager H n} {held : KVCacheBlock → ℕ}
  {request : Request H} {a : SlotArgs n}

section

variable (cfg request a)

/-- Whether the hit that group `i` adopts ends inside a block. -/
def adoptsPartially (i : Fin n) : Bool :=
  (cfg.groups i).hasPartialLocalHit ((a.newComputedBlocks i).drop ((cfg.groups i).numSkippedBlocks
    (a.numLocalComputedTokens request + a.numExternalComputedTokens))) (a.numLocalComputedTokens request)

/-- The evictable blocks among the hits of group `i`. -/
def hitBlocks (s : KVCacheManager H n) (i : Fin n) : ℕ := (cfg.groups i).takenHits (a.thisStep cfg request i) s.pool

/-- The blocks that group `i` takes for external tokens. -/
def externalBlocks (i : Fin n) : ℕ :=
  (cfg.groups i).takenExternal (a.thisStep cfg request i) a.numExternalComputedTokens

end

/-- **Touching the hits of every group.** -/
theorem addLocalComputedBlocks_phase (hs : s.Owned held)
    (hhits : ∀ i, ∀ b ∈ a.newComputedBlocks i, b ∈ poolBlocks s.pool.numGpuBlocks)
    (hnew : ∀ i, Untouched (cfg.groups i) (s.managers i) request.requestId) :
    wp (forManagers fun i => (cfg.groups i).addLocalComputedBlocks request.requestId
        (a.newComputedBlocks i) (a.numLocalComputedTokens request) a.numExternalComputedTokens)
      (fun _ s' => Taking held s (cfg.hitBlocks request a s)
        (fun p => ∀ b, s.pool.refCnt b ≤ p.refCnt b) (fun i => RowIs (s.managers i) request.requestId
          ((cfg.groups i).lenLocal (a.thisStep cfg request i)) (cfg.adoptsPartially request a i)) [] s')
      (RaisedTaking s (total (cfg.hitBlocks request a s))) s := by
  obtain ⟨xs, hxs⟩ := hs.conserved
  refine forManagers_takes hs (fun b => Int.le_refl _) ?_
  intro i o g hmgr hsame hcnt hg
  have hrow : g.mgr.reqToBlocks request.requestId = [] := by rw [hmgr]; exact (hnew i).row
  have hin : ∀ b ∈ a.newComputedBlocks i, b ∈ poolBlocks g.pool.numGpuBlocks := by
    rw [hsame.numGpuBlocks]; exact hhits i
  -- what is evictable now was evictable when it was counted
  have hev : getNumEvictableBlocks g.pool ((a.newComputedBlocks i).drop ((cfg.groups i).numSkippedBlocks
      (a.numLocalComputedTokens request + a.numExternalComputedTokens))) ≤ cfg.hitBlocks request a s i := by
    refine getNumEvictableBlocks_anti hcnt hsame.isNull fun b hb hnull => ?_
    exact hxs.nonneg b (hhits i b (mem_of_mem_drop hb)) hnull
  refine wp_mono (wp_and (addLocalComputedBlocks_takes hg hin hrow) (keeps_at addLocalComputedBlocks_writesAt g)) ?_ ?_
  · intro _ g' ⟨⟨htook, hlen, hhit, halloc, hckpt, hmono⟩, hbut⟩
    rw [hmgr] at hhit halloc hckpt hbut
    refine ⟨htook.mono hev, fun b => Int.le_trans (hcnt b) (hmono b), hlen, ?_, ?_, ?_, hbut⟩
    · rw [hhit, (hnew i).partialHitReqs]; rfl
    · rw [halloc]
    · rw [hckpt]
  · intro e g' h
    exact h.1.mono hev

variable [DecidableEq H] {s0 : KVCacheManager H n}

/-- **Taking the blocks of external tokens.** -/
theorem allocateExternalComputedBlocks_phase (hs : s.Owned held)
    (hext : 0 < a.numExternalComputedTokens) (hrow : ∀ i, RowIs (s0.managers i) request.requestId
      ((cfg.groups i).lenLocal (a.thisStep cfg request i)) (cfg.adoptsPartially request a i) (s.managers i)) :
    wp (forManagers fun i => (cfg.groups i).allocateExternalComputedBlocks request.requestId
        (a.numLocalComputedTokens request) a.numExternalComputedTokens (i ∉ a.skipZeroingGroupIds))
      (fun _ s' => Taking held s (cfg.externalBlocks request a) (fun _ => True)
        (fun i => RowIs (s0.managers i) request.requestId
          ((cfg.groups i).lenLocal (a.thisStep cfg request i) + cfg.externalBlocks request a i)
          (cfg.adoptsPartially request a i)) [] s') (RaisedTaking s (total (cfg.externalBlocks request a))) s := by
  refine forManagers_takes hs trivial ?_
  intro i o g hmgr _ _ hg
  have hk : cfg.externalBlocks request a i = (cfg.groups i).externalBlocks
      (a.numLocalComputedTokens request) a.numExternalComputedTokens
      (g.mgr.reqToBlocks request.requestId).length := by
    rw [hmgr, (hrow i).length]
    unfold externalBlocks takenExternal
    rw [if_neg (by omega)]
    rfl
  rw [hk]
  refine wp_mono (wp_and (allocateExternalComputedBlocks_takes hg hext)
    (keeps_at allocateExternalComputedBlocks_writesAt g)) ?_ (fun _ _ h => h.1)
  intro _ g' ⟨⟨htook, hlen, hhit, halloc, hckpt⟩, hbut⟩
  refine ⟨htook, trivial, ?_, ?_, ?_, ?_, ?_⟩
  · rw [hlen, ← hk, hmgr, (hrow i).length]
  · rw [hhit, hmgr, (hrow i).hit]
  · rw [halloc, hmgr, (hrow i).allocated]
  · rw [hckpt, hmgr, (hrow i).checkpoints]
  · rw [hmgr] at hbut
    exact (hrow i).others.trans hbut

section

variable (cfg request a)

/-- What `allocate_new_blocks` takes in group `i` for a row that stands so. -/
def newBlocks (s : KVCacheManager H n) (len : Fin n → ℕ) (cow : Fin n → Bool) (i : Fin n) : ℕ :=
  (cfg.groups i).takenNew (a.numTokensNeedSlot cfg request) (a.numTokensMainModel cfg request) (len i)
    (if cow i then 1 else 0) (checkpointBlocks (s.group i) request.requestId)
    ((s.managers i).allocatedBlockReqs request.requestId)

/-- The tokens a request has slots for after a successful `allocate_slots`. -/
def slotTokens : ℕ :=
  min (a.numTokensMainModel cfg request) cfg.maxModelLen

end

variable {cow : Fin n → Bool} {len : Fin n → ℕ}

/-- **Taking the new blocks of every group.** -/
theorem allocateNewBlocks_phase (hs : s.Owned held)
    (hrow : ∀ i, RowIs (s0.managers i) request.requestId (len i) (cow i) (s.managers i)) :
    wp (cfg.allocateNewBlocks request.requestId (a.numTokensNeedSlot cfg request) (a.numTokensMainModel cfg request))
      (fun _ s' => Taking held s (cfg.newBlocks request a s0 len cow) (fun _ => True)
        (fun i m => Slotted (cfg.groups i) m request.requestId (cfg.slotTokens request a) ∧
          SameBut request.requestId (s0.managers i) m) [] s')
      (RaisedTaking s (total (cfg.newBlocks request a s0 len cow))) s := by
  refine wp_foldlM (fun rest _ s' => Taking held s (cfg.newBlocks request a s0 len cow) (fun _ => True)
    (fun i m => Slotted (cfg.groups i) m request.requestId (cfg.slotTokens request a) ∧
      SameBut request.requestId (s0.managers i) m) rest s') ?_ (Taking.start hs trivial)
  intro i rest _ s1 h
  rw [wp_bind]
  refine wp_imp (takes_step ?_ h) (fun _ _ h => h)
  intro o g hmgr _ _ hg
  have hk : cfg.newBlocks request a s0 len cow i = (cfg.groups i).takenNew
      (a.numTokensNeedSlot cfg request) (a.numTokensMainModel cfg request)
      (g.mgr.reqToBlocks request.requestId).length (cowBlocks g request.requestId)
      (checkpointBlocks g request.requestId) (g.mgr.allocatedBlockReqs request.requestId) := by
    unfold newBlocks cowBlocks checkpointBlocks
    rw [hmgr, (hrow i).length, (hrow i).hit, (hrow i).checkpoints, (hrow i).allocated]
    rfl
  have hslot : cfg.slotTokens request a ≤ a.numTokensNeedSlot cfg request := by
    unfold slotTokens SlotArgs.numTokensNeedSlot; omega
  have hmain : cfg.slotTokens request a ≤ a.numTokensMainModel cfg request := min_le_left _ _
  rw [hk]
  refine wp_mono (wp_and (allocateNewBlocks_takes hg hslot hmain)
    (keeps_at allocateNewBlocks_writesAt g)) ?_ (fun _ _ h => h.1)
  intro _ g' ⟨⟨htook, hslotted⟩, hbut⟩
  rw [hmgr] at hbut
  exact ⟨htook, trivial, hslotted, (hrow i).others.trans hbut⟩

/-! ## The second half of `allocate_slots` -/

/-- What `allocate_slots` leaves behind when it takes at most `k` blocks. -/
structure Slotting (cfg : CacheConfig n) (held : KVCacheBlock → ℕ) (request : Request H) (a : SlotArgs n)
    (k : ℕ) (s s' : KVCacheManager H n) : Prop where
  owned : s'.Owned held
  same : SamePool s.pool s'.pool
  free : s.numFree ≤ s'.numFree + k
  slotted : ∀ i, Slotted (cfg.groups i) (s'.managers i) request.requestId (cfg.slotTokens request a)
  others : ∀ i, SameBut request.requestId (s.managers i) (s'.managers i)

theorem allocateNewBlocks_slots {s1 : KVCacheManager H n}
    {adopted : ℕ} (hs1 : s1.Owned held) (hsame : SamePool s.pool s1.pool)
    (hrow : ∀ i, RowIs (s.managers i) request.requestId (len i) (cow i) (s1.managers i))
    (hadopted : s.numFree ≤ s1.numFree + adopted) :
    wp (cfg.allocateNewBlocks request.requestId (a.numTokensNeedSlot cfg request) (a.numTokensMainModel cfg request))
      (fun _ s' => cfg.Slotting held request a (adopted + total (cfg.newBlocks request a s len cow)) s s')
      (RaisedTaking s (adopted + total (cfg.newBlocks request a s len cow))) s1 := by
  refine wp_mono (allocateNewBlocks_phase hs1 hrow) ?_ ?_
  · intro _ s' h
    have hfree := h.free
    rw [map_nil, sum_nil] at hfree
    refine ⟨h.owned, hsame.trans h.same, by omega, fun i => ?_, fun i => ?_⟩
    · exact (h.done i not_mem_nil).1
    · exact (h.done i not_mem_nil).2
  · intro e s' h hk
    obtain ⟨he, hfree⟩ := h (by omega)
    exact ⟨he, by omega⟩

/-- Whether the call adopts hits or external tokens. -/
def SlotArgs.Adopts (a : SlotArgs n) : Prop :=
  (∃ i, a.newComputedBlocks i ≠ []) ∨ a.numExternalComputedTokens > 0

instance (a : SlotArgs n) : Decidable a.Adopts := by unfold SlotArgs.Adopts; infer_instance

section

variable (cfg : CacheConfig n) (request : Request H) (a : SlotArgs n) (s : KVCacheManager H n)

/-- What adopting takes over all groups. -/
def adoptedBlocks : ℕ :=
  if a.Adopts then total (cfg.hitBlocks request a s) + total (cfg.externalBlocks request a) else 0

/-- The length of the row of group `i` before new blocks are taken. -/
def adoptedLength (i : Fin n) : ℕ :=
  if a.Adopts then (cfg.groups i).lenLocal (a.thisStep cfg request i) + cfg.externalBlocks request a i
  else ((s.managers i).reqToBlocks request.requestId).length

/-- Whether the row of group `i` ends in a block to be copied before new blocks are taken. -/
def adoptedHit (i : Fin n) : Bool :=
  if a.Adopts then cfg.adoptsPartially request a i
  else ((s.managers i).partialHitReqs request.requestId).isSome

/-- What the call takes in all. -/
def takenBlocks : ℕ :=
  cfg.adoptedBlocks request a s +
    total (cfg.newBlocks request a s (cfg.adoptedLength request a s) (cfg.adoptedHit request a s))

/-- A request that has no slots yet. -/
structure Starts : Prop where
  computed : request.numComputedTokens = 0
  hits : ∀ i, ∀ b ∈ a.newComputedBlocks i, b ∈ poolBlocks s.pool.numGpuBlocks
  hitTokens : (∀ i, a.newComputedBlocks i = []) → a.numNewComputedTokens = 0
  length : a.numLocalComputedTokens request + a.numExternalComputedTokens ≤ cfg.maxModelLen

end

/-- A request that has slots for `t` tokens. -/
structure Continues (request : Request H) (a : SlotArgs n) (t : ℕ) : Prop where
  computed : request.numComputedTokens ≤ t
  hits : ∀ i, a.newComputedBlocks i = []
  hitTokens : a.numNewComputedTokens = 0
  external : a.numExternalComputedTokens = 0

omit [DecidableEq H] in
theorem Continues.not_adopts {t : ℕ} (h : Continues request a t) : ¬ a.Adopts := by
  rintro (⟨i, hi⟩ | hext)
  · exact hi (h.hits i)
  · have := h.external
    omega

/-- **What the second half takes.** -/
theorem takeSlots_takes (hs : s.Owned held)
    (hadopts : a.Adopts → (∀ i, Untouched (cfg.groups i) (s.managers i) request.requestId) ∧
      ∀ i, ∀ b ∈ a.newComputedBlocks i, b ∈ poolBlocks s.pool.numGpuBlocks) :
    wp (cfg.takeSlots request a) (fun _ s' => cfg.Slotting held request a (cfg.takenBlocks request a s) s s')
      (RaisedTaking s (cfg.takenBlocks request a s)) s := by
  unfold takeSlots
  rw [wp_bind, wp_runIf]
  by_cases hadopt : a.Adopts
  · obtain ⟨hnew, hhits⟩ := hadopts hadopt
    have htaken : cfg.adoptedBlocks request a s =
        total (cfg.hitBlocks request a s) + total (cfg.externalBlocks request a) := if_pos hadopt
    have hlen : ∀ i, cfg.adoptedLength request a s i = (cfg.groups i).lenLocal (a.thisStep cfg request i) +
        cfg.externalBlocks request a i := fun i => if_pos hadopt
    have hhit : ∀ i, cfg.adoptedHit request a s i = cfg.adoptsPartially request a i := fun i => if_pos hadopt
    unfold takenBlocks
    refine ⟨fun _ => ?_, fun h => absurd hadopt h⟩
    unfold allocateNewComputedBlocks
    rw [wp_get_bind, if_neg]
    · rw [wp_bind]
      refine wp_mono (addLocalComputedBlocks_phase hs hhits hnew) ?_ ?_
      · intro _ s1 h1
        have hfree1 := h1.free
        rw [map_nil, sum_nil] at hfree1
        have hrow1 := fun i => h1.done i not_mem_nil
        rw [wp_runIf]
        constructor
        · intro hext
          refine wp_mono (allocateExternalComputedBlocks_phase h1.owned hext hrow1) ?_ ?_
          · intro _ s2 h2
            have hfree2 := h2.free
            rw [map_nil, sum_nil] at hfree2
            refine allocateNewBlocks_slots h2.owned (h1.same.trans h2.same) (fun i => ?_) (by omega)
            rw [hlen i, hhit i]
            exact h2.done i not_mem_nil
          · intro e s2 h hk
            obtain ⟨he, hfree2⟩ := h (by omega)
            exact ⟨he, by omega⟩
        · intro hext
          refine allocateNewBlocks_slots h1.owned h1.same (fun i => ?_) (by omega)
          have hzero : cfg.externalBlocks request a i = 0 := by
            unfold externalBlocks takenExternal
            rw [if_pos (by omega)]
          rw [hlen i, hhit i, hzero]
          exact hrow1 i
      · intro e s1 h hk
        obtain ⟨he, hfree1⟩ := h (by omega)
        exact ⟨he, by omega⟩
    · rintro ⟨i, hi⟩
      rw [(hnew i).numCachedBlock] at hi
      exact absurd hi (by simp)
  · refine ⟨fun h => absurd h hadopt, fun _ => ?_⟩
    refine allocateNewBlocks_slots hs (SamePool.refl _) (fun i => ?_) (by omega)
    have hlen : cfg.adoptedLength request a s i = ((s.managers i).reqToBlocks request.requestId).length :=
      if_neg hadopt
    have hhit : cfg.adoptedHit request a s i = ((s.managers i).partialHitReqs request.requestId).isSome :=
      if_neg hadopt
    rw [hlen, hhit]
    exact RowIs.refl (s.managers i) request.requestId

/-! ## Against the count -/

section

variable (cfg : CacheConfig n) (request : Request H) (a : SlotArgs n) (s : KVCacheManager H n)

/-- The sum of what the groups count for this step. -/
def predictedBlocks : ℤ :=
  ((finRange n).map fun i => (cfg.groups i).predicted (a.thisStep cfg request i) (s.group i)).sum

/-- `GroupConfig.Fits` for every group of the call. -/
def Fits (cfg : CacheConfig n) (request : Request H) (a : SlotArgs n) (s : KVCacheManager H n) : Prop :=
  ∀ i, (cfg.groups i).Fits (a.thisStep cfg request i) a.numExternalComputedTokens (s.group i)

/-- The state in which the blocks of the step have been counted: the checkpoints it sets blocks
aside for are recorded. -/
def Recorded : Prop :=
  ∀ i, (cfg.groups i).isMamba → hitsThisStep (a.thisStep cfg request i) (s.group i) = false →
    checkpointBlocks (s.group i) request.requestId = (cfg.groups i).planned (a.thisStep cfg request i) (s.group i)

end

section

variable (cfg : CacheConfig n) (slots : RequestId → Option ℕ)

/-- Where every request stands in every group. -/
def Shaped (s : KVCacheManager H n) : Prop :=
  ∀ i r, Stands (cfg.groups i) (s.managers i) r (slots r)

/-- What the caller of `allocate_slots` promises. -/
def CallOK (request : Request H) (a : SlotArgs n) (s : KVCacheManager H n) : Prop :=
  match slots request.requestId with
  | none => cfg.Starts request a s
  | some t => Continues request a t

end

theorem takenNew_recorded (hrec : cfg.Recorded request a s) {i : Fin n} (numTokens mainTokens len cow : ℕ)
    (allocated : Bool) (hstep : (cfg.groups i).isMamba → hitsThisStep (a.thisStep cfg request i) (s.group i) = false) :
    (cfg.groups i).takenNew numTokens mainTokens len cow (checkpointBlocks (s.group i) request.requestId) allocated =
      (cfg.groups i).takenNew numTokens mainTokens len cow
        ((cfg.groups i).planned (a.thisStep cfg request i) (s.group i)) allocated := by
  rcases (cfg.groups i).isMamba_cases with ⟨spec, numCkpt, align, hspec⟩ | hbase
  · have hmamba := isMamba_of_spec hspec
    rw [hrec i hmamba (hstep hmamba)]
  · rw [takenNew_base hbase, takenNew_base hbase]

/-- A count that can be met has met no state of this very step. -/
theorem hitsThisStep_of_predictedBlocks_le (hs : s.Owned held) (hfits : cfg.Fits request a s)
    (hfree : cfg.predictedBlocks request a s ≤ s.numFree) (i : Fin n) (hmamba : (cfg.groups i).isMamba) :
    hitsThisStep (a.thisStep cfg request i) (s.group i) = false := by
  obtain ⟨xs, hxs⟩ := hs.conserved
  have hle : s.numFree ≤ s.pool.numGpuBlocks := hxs.numFree_le
  by_contra hstep
  have hi := predicted_hitsThisStep hmamba (Bool.eq_true_of_not_eq_false hstep)
  have hsum : (cfg.groups i).predicted (a.thisStep cfg request i) (s.group i) ≤ cfg.predictedBlocks request a s := by
    refine single_le_sum (fun z hz => ?_) _ (mem_map.2 ⟨i, mem_finRange i, rfl⟩)
    obtain ⟨j, _, rfl⟩ := mem_map.1 hz
    exact predicted_nonneg (hfits j)
  rw [hi, group_pool] at hsum
  omega

section Within

variable (hfits : cfg.Fits request a s) (hrec : cfg.Recorded request a s)
  (hstep : ∀ i, (cfg.groups i).isMamba → hitsThisStep (a.thisStep cfg request i) (s.group i) = false)
include hfits hrec hstep

/-- **A step that adopts hits or external tokens** stays within the count. -/
theorem takenBlocks_adopts (hadopt : a.Adopts) (hstart : cfg.Starts request a s)
    (hnew : ∀ i, Untouched (cfg.groups i) (s.managers i) request.requestId) :
    (cfg.takenBlocks request a s : ℤ) ≤ cfg.predictedBlocks request a s := by
  have hgroup : ∀ i, ((cfg.hitBlocks request a s i + cfg.externalBlocks request a i +
      cfg.newBlocks request a s (cfg.adoptedLength request a s) (cfg.adoptedHit request a s) i : ℕ) : ℤ) ≤
      (cfg.groups i).predicted (a.thisStep cfg request i) (s.group i) := by
    intro i
    have hlen := hstart.length
    have htotal : (a.thisStep cfg request i).totalComputedTokens ≤ (a.thisStep cfg request i).numTokensMainModel := by
      simp only [SlotArgs.thisStep, SlotArgs.numTokensMainModel, SlotArgs.totalComputedTokens]
      omega
    have htotal' : (a.thisStep cfg request i).totalComputedTokens ≤ (a.thisStep cfg request i).numTokens := by
      simp only [SlotArgs.thisStep, SlotArgs.numTokensNeedSlot, SlotArgs.numTokensMainModel,
        SlotArgs.totalComputedTokens]
      omega
    have h := predicted_adopts rfl rfl (hnew i) htotal' htotal (hfits i) (hstep i)
    rw [← takenNew_recorded hrec _ _ _ _ _ (hstep i)] at h
    unfold newBlocks adoptedLength adoptedHit
    rw [if_pos hadopt, if_pos hadopt]
    exact h
  have hsum := total_le_sum hgroup
  rw [total_add, total_add] at hsum
  unfold takenBlocks adoptedBlocks
  rw [if_pos hadopt]
  exact hsum

/-- **A step that adopts nothing** stays within the count. -/
theorem takenBlocks_row (hadopt : ¬ a.Adopts)
    (hrow : ∀ i, (cfg.groups i).numSkippedBlocks (a.thisStep cfg request i).totalComputedTokens ≤
      ((s.managers i).reqToBlocks request.requestId).length)
    (hscratch : ∀ i spec numCkpt align, (cfg.groups i).spec = .mamba spec numCkpt align →
      (s.managers i).allocatedBlockReqs request.requestId →
        spec ≤ ((s.managers i).reqToBlocks request.requestId).length) (hhits : ∀ i, (cfg.groups i).isMamba = false →
      (s.managers i).partialHitReqs request.requestId = none) :
    (cfg.takenBlocks request a s : ℤ) ≤ cfg.predictedBlocks request a s := by
  have hnc : ∀ i, a.newComputedBlocks i = [] := by
    intro i
    by_contra h
    exact hadopt (.inl ⟨i, h⟩)
  have hgroup : ∀ i, (cfg.newBlocks request a s (cfg.adoptedLength request a s) (cfg.adoptedHit request a s) i : ℤ) ≤
      (cfg.groups i).predicted (a.thisStep cfg request i) (s.group i) := by
    intro i
    have h := predicted_continues rfl (hnc i) (hrow i) (hscratch i) (hhits i) (hfits i)
    rw [← takenNew_recorded hrec _ _ _ _ _ (hstep i)] at h
    unfold newBlocks adoptedLength adoptedHit
    rw [if_neg hadopt, if_neg hadopt]
    exact h
  have hsum := total_le_sum hgroup
  unfold takenBlocks adoptedBlocks
  rw [if_neg hadopt, zero_add]
  exact hsum

/-- **The count is enough** for a request that starts and for one that continues. -/
theorem takenBlocks_le_predictedBlocks {slots : RequestId → Option ℕ} (hshape : cfg.Shaped slots s)
    (hcall : cfg.CallOK slots request a s) : (cfg.takenBlocks request a s : ℤ) ≤ cfg.predictedBlocks request a s := by
  have hshape' := fun i => hshape i request.requestId
  unfold CallOK at hcall
  cases hr : slots request.requestId with
  | none =>
    simp only [hr, Stands] at hshape' hcall
    by_cases hadopt : a.Adopts
    · exact takenBlocks_adopts hfits hrec hstep hadopt hcall hshape'
    -- nothing is computed yet, so nothing is skipped
    have hext : a.numExternalComputedTokens = 0 := by
      by_contra h
      exact hadopt (.inr (by omega))
    have hnc : ∀ i, a.newComputedBlocks i = [] := by
      intro i
      by_contra h
      exact hadopt (.inl ⟨i, h⟩)
    have hzero : ∀ i, (a.thisStep cfg request i).totalComputedTokens = 0 := by
      intro i
      simp only [SlotArgs.thisStep, SlotArgs.numLocalComputedTokens]
      have := hcall.computed
      have := hcall.hitTokens hnc
      omega
    refine takenBlocks_row hfits hrec hstep hadopt (fun i => ?_) (fun i _ _ _ hspec halloc => ?_)
      fun i _ => (hshape' i).partialHitReqs
    · have h := (cfg.groups i).numSkippedBlocks_le_cdiv 0
      have hpos := (cfg.groups i).blockSize_pos
      have hc : cdiv 0 (cfg.groups i).blockSize = 0 := by
        unfold cdiv; exact Nat.div_eq_of_lt (by omega)
      rw [hzero i]
      omega
    · rw [(hshape' i).allocatedBlockReqs (isMamba_of_spec hspec)] at halloc
      exact absurd halloc (by simp)
  | some t =>
    simp only [hr, Stands] at hshape' hcall
    refine takenBlocks_row hfits hrec hstep hcall.not_adopts (fun i => ?_) (fun i _ _ _ hspec _ => ?_)
      fun i h => (hshape' i).hits h
    · have h := (cfg.groups i).numSkippedBlocks_le_cdiv (a.thisStep cfg request i).totalComputedTokens
      have htotal : (a.thisStep cfg request i).totalComputedTokens ≤ t := by
        simp only [SlotArgs.thisStep, SlotArgs.numLocalComputedTokens]
        have := hcall.computed
        have := hcall.hitTokens
        have := hcall.external
        omega
      have h2 := cdiv_le_cdiv (cfg.groups i).blockSize htotal
      have h3 := (hshape' i).row
      omega
    · have := ((hshape' i).scratch _ _ _ hspec).1
      omega

end Within

end CacheConfig

end VllmRwkv
