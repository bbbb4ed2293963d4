import VllmRwkv.Pool.Conservation

/-!
# Runs of the block pool

Any sequence of calls on one pool, calls that raise included.
-/

namespace VllmRwkv

open List Raise Relation BlockPool

variable {H : Type}

/-- The calls on a pool. -/
inductive PoolCall (H : Type) where
  | getNewBlocks (numBlocks : ℕ)
  | touch (blocks : List KVCacheBlock)
  | freeBlocks (orderedBlocks : List KVCacheBlock)
  | unpinBlocks (blocks : List KVCacheBlock) (onReuse : ReuseWatcher)
  | cacheFullBlocks (request : HashedTokens H) (blocks : List KVCacheBlock)
      (numCachedBlocks numFullBlocks blockSize kvCacheGroupId : ℕ) (blockMask : Option (List Bool))
  | cachePartialBlock (request : HashedTokens H) (block : KVCacheBlock)
      (numTokens kvCacheGroupId blockSize : ℕ) (replaceExistingHashes : Bool)
  | moveBlockHashes (srcBlock dstBlock : KVCacheBlock)
  | evictBlocks (blockIds : List ℕ)
  | resetPrefixCache
  | emitCachedBlockEvents (request : HashedTokens H) (numCachedBlocks blockSize kvCacheGroupId : ℕ)
  | takeEvents

namespace PoolCall

/-- Run a call; the value is the list of blocks it hands out. -/
def run [DecidableEq H] : PoolCall H → PoolM H (List KVCacheBlock)
  | .getNewBlocks n => BlockPool.getNewBlocks n
  | .touch bs => do BlockPool.touch bs; return []
  | .freeBlocks bs => do BlockPool.freeBlocks bs; return []
  | .unpinBlocks bs w => do BlockPool.unpinBlocks bs w; return []
  | .cacheFullBlocks request bs c f n g mask => do
    BlockPool.cacheFullBlocks request bs c f n g mask; return []
  | .cachePartialBlock request b n g s replace => do
    let _ ← BlockPool.cachePartialBlock request b n g s replace; return []
  | .moveBlockHashes src dst => do BlockPool.moveBlockHashes src dst; return []
  | .evictBlocks ids => do BlockPool.evictBlocks ids; return []
  | .resetPrefixCache => do let _ ← BlockPool.resetPrefixCache; return []
  | .emitCachedBlockEvents request c n g => do
    BlockPool.emitCachedBlockEvents request c n g; return []
  | .takeEvents => do let _ ← BlockPool.takeEvents; return []

/-- The blocks a call is passed are blocks of the pool. -/
def OnPool (n : ℕ) : PoolCall H → Prop
  | .touch bs | .freeBlocks bs | .unpinBlocks bs _ | .cacheFullBlocks _ bs _ _ _ _ _ =>
    ∀ b ∈ bs, b ∈ poolBlocks n
  | .cachePartialBlock _ b _ _ _ _ => b ∈ poolBlocks n
  | .moveBlockHashes src dst => src ∈ poolBlocks n ∧ dst ∈ poolBlocks n
  | _ => True

/-- The references a call takes when it returns `ret`. -/
def taken (ret : List KVCacheBlock) : PoolCall H → List KVCacheBlock
  | .getNewBlocks _ => ret
  | .touch bs => bs
  | _ => []

/-- The references a call gives up. -/
def given : PoolCall H → List KVCacheBlock
  | .freeBlocks bs | .unpinBlocks bs _ => bs
  | _ => []

/-- The blocks a call may register a hash for. -/
def caches : PoolCall H → List KVCacheBlock
  | .cacheFullBlocks _ bs c f _ _ _ => (bs.drop c).take (f - c)
  | .cachePartialBlock _ b _ _ _ _ => [b]
  | .moveBlockHashes _ dst => [dst]
  | _ => []

end PoolCall

/-- The state of the pool after a call, returned from or raised. -/
def BlockPool.after [DecidableEq H] (p : BlockPool H) (c : PoolCall H) : BlockPool H :=
  match c.run p with
  | .ok _ p' => p'
  | .error _ p' => p'

/-- A pool together with the references its callers hold. -/
structure PoolWorld (H : Type) where
  pool : BlockPool H
  held : KVCacheBlock → ℕ

namespace PoolWorld

variable [DecidableEq H]

def call (w : PoolWorld H) (c : PoolCall H) : PoolWorld H :=
  match c.run w.pool with
  | .ok ret p => ⟨p, fun b => w.held b + (c.taken ret).count b - c.given.count b⟩
  | .error _ p => ⟨p, w.held⟩

/-- Callers give up only references they hold. Nobody holds the null block: its references are
not counted, rows of null blocks may be freed, and it may not be unpinned. -/
structure Admits (w : PoolWorld H) (c : PoolCall H) : Prop where
  onPool : c.OnPool w.pool.numGpuBlocks
  held : ∀ b, w.pool.isNull b = false → c.given.count b ≤ w.held b
  unpin : ∀ bs onReuse, c = .unpinBlocks bs onReuse → ∀ b ∈ bs, w.pool.isNull b = false

def Step (w w' : PoolWorld H) : Prop := ∃ c, w.Admits c ∧ w' = w.call c

end PoolWorld

/-! ## Conservation -/

section Conservation

variable [DecidableEq H]

/-- The invariant of a world: conserved, and every counted reference is held by a caller. -/
structure PoolWorld.OK (w : PoolWorld H) : Prop where
  conserved : ∃ xs, Conserved w.pool xs
  held : ∀ b ∈ poolBlocks w.pool.numGpuBlocks, w.pool.isNull b = false → w.pool.refCnt b = w.held b

variable {w w' : PoolWorld H} {c : PoolCall H}

/-- What a call does to the counts: it moves references as its lists of references taken and given
up say, or it raises and moves none. -/
def PoolCall.Moves (c : PoolCall H) (p : BlockPool H) : Prop :=
  wp c.run (fun ret p' => (∃ ys, Conserved p' ys) ∧ SamePool p p' ∧
      ∀ b, p'.refCnt b = p.refCnt b + (c.taken ret).count b - c.given.count b)
    (fun _ p' => (∃ ys, Conserved p' ys) ∧ SamePool p p' ∧ p'.refCnt = p.refCnt) p

section

variable {p : BlockPool H} {xs : List KVCacheBlock} (hxs : Conserved p xs)

include hxs

theorem PoolCall.moves_of_sameRefs
    (hgiven : c.given = []) (htaken : ∀ ret, c.taken ret = []) (hkeep : Keeps (SameRefs p) c.run) : c.Moves p := by
  refine wp_mono (hkeep p (SameRefs.refl _)) ?_ ?_
  · intro ret p' h
    refine ⟨⟨xs, hxs.of_sameRefs h⟩, h.samePool, fun b => ?_⟩
    rw [h.refCnt, hgiven, htaken]
    simp
  · intro _ p' h
    exact ⟨⟨xs, hxs.of_sameRefs h⟩, h.samePool, h.refCnt⟩

/-- **Every call moves the references it says**, if it gives up only counted ones. -/
theorem PoolCall.moves (hon : c.OnPool p.numGpuBlocks) (hcnt : p.Payable c.given)
    (hunpin : ∀ bs onReuse, c = .unpinBlocks bs onReuse → ∀ b ∈ bs, p.isNull b = false) : c.Moves p := by
  have hops : HashOps (SameRefs p) Set.univ := sameRefs_hashOps
  cases c with
  | getNewBlocks n =>
    by_cases hn : n ≤ xs.length
    · refine wp_mono (getNewBlocks_spec hxs hn) ?_ (fun _ _ h => h.elim)
      rintro ret p' ⟨hret, hcons, href, hsame⟩
      refine ⟨⟨_, hcons⟩, hsame, fun b => ?_⟩
      have hnd : ret.Nodup := hret ▸ hxs.queue.nodup.sublist (take_sublist n xs)
      simp only [PoolCall.taken, PoolCall.given, count_nil, hnd.count, href]
      split_ifs with hb
      · have := ((hxs.free b).1 (mem_of_mem_take (hret ▸ hb))).2.2
        simp [this]
      · simp
    · have hraise : (PoolCall.getNewBlocks n).run p = _ := getNewBlocks_raises hxs (Nat.lt_of_not_le hn)
      unfold PoolCall.Moves wp
      rw [hraise]
      exact ⟨⟨xs, hxs⟩, SamePool.refl _, rfl⟩
  | touch bs =>
    show wp (do BlockPool.touch bs; return []) _ _ p
    rw [wp_bind]
    refine wp_mono (touch_spec hxs hon) ?_ (fun _ _ h => h.elim)
    rintro _ p' ⟨hcons, href, hsame⟩
    exact ⟨⟨_, hcons⟩, hsame, fun b => by simp [PoolCall.taken, PoolCall.given, href]⟩
  | freeBlocks bs =>
    show wp (do BlockPool.freeBlocks bs; return []) _ _ p
    rw [wp_bind]
    refine wp_mono (freeBlocks_spec hxs hon hcnt) ?_ (fun _ _ h => h.elim)
    rintro _ p' ⟨ys, hcons, href, hsame⟩
    exact ⟨⟨_, hcons⟩, hsame, fun b => by simp [PoolCall.taken, PoolCall.given, href]⟩
  | unpinBlocks bs onReuse =>
    show wp (do BlockPool.unpinBlocks bs onReuse; return []) _ _ p
    rw [wp_bind]
    refine wp_mono (unpinBlocks_spec hxs hon (hunpin bs onReuse rfl) hcnt) ?_ (fun _ _ h => h.elim)
    rintro _ p' ⟨ys, hcons, href, hsame⟩
    exact ⟨⟨_, hcons⟩, hsame, fun b => by simp [PoolCall.taken, PoolCall.given, href]⟩
  | cacheFullBlocks request bs c f n g mask =>
    exact PoolCall.moves_of_sameRefs hxs rfl (fun _ => rfl)
      (keeps_bind (hops.cacheFullBlocks fun _ _ => trivial) fun _ => keeps_pure)
  | cachePartialBlock request b n g s replace =>
    exact PoolCall.moves_of_sameRefs hxs rfl (fun _ => rfl)
      (keeps_bind (hops.cachePartialBlock trivial) fun _ => keeps_pure)
  | moveBlockHashes src dst =>
    exact PoolCall.moves_of_sameRefs hxs rfl (fun _ => rfl)
      (keeps_bind (hops.moveBlockHashes trivial) fun _ => keeps_pure)
  | evictBlocks ids =>
    exact PoolCall.moves_of_sameRefs hxs rfl (fun _ => rfl) (keeps_bind hops.evictBlocks fun _ => keeps_pure)
  | resetPrefixCache =>
    exact PoolCall.moves_of_sameRefs hxs rfl (fun _ => rfl) (keeps_bind resetPrefixCache_refs fun _ => keeps_pure)
  | emitCachedBlockEvents request c n g =>
    exact PoolCall.moves_of_sameRefs hxs rfl (fun _ => rfl) (keeps_bind hops.emitCachedBlockEvents fun _ => keeps_pure)
  | takeEvents =>
    exact PoolCall.moves_of_sameRefs hxs rfl (fun _ => rfl) (keeps_bind hops.takeEvents fun _ => keeps_pure)

end

omit [DecidableEq H] in
theorem PoolCall.given_onPool {n : ℕ} (hon : c.OnPool n) : ∀ b ∈ c.given, b ∈ poolBlocks n := by
  cases c with
  | freeBlocks bs | unpinBlocks bs onReuse => exact hon
  | _ => exact nofun

theorem PoolWorld.OK.call (hw : w.OK) (hc : w.Admits c) : (w.call c).OK := by
  obtain ⟨xs, hxs⟩ := hw.conserved
  have hcnt : w.pool.Payable c.given := by
    intro b hb hnull
    rw [hw.held b (PoolCall.given_onPool hc.onPool b hb) hnull]
    exact_mod_cast hc.held b hnull
  have h := PoolCall.moves hxs hc.onPool hcnt hc.unpin
  unfold PoolCall.Moves wp at h
  unfold PoolWorld.call
  split at h
  next ret p hrun =>
    obtain ⟨hcons, hsame, hrefs⟩ := h
    rw [hrun]
    refine ⟨hcons, fun b hb hnull => ?_⟩
    dsimp only at hb hnull ⊢
    rw [hsame.numGpuBlocks] at hb
    rw [hsame.isNull] at hnull
    have h1 := hc.held b hnull
    rw [hrefs b, hw.held b hb hnull]
    omega
  next e p hrun =>
    obtain ⟨hcons, hsame, hrefs⟩ := h
    rw [hrun]
    refine ⟨hcons, fun b hb hnull => ?_⟩
    rw [hsame.numGpuBlocks] at hb
    rw [hsame.isNull] at hnull
    rw [hrefs, hw.held b hb hnull]

theorem PoolWorld.OK.run (hw : w.OK) (hrun : ReflTransGen PoolWorld.Step w w') : w'.OK := by
  induction hrun with
  | refl => exact hw
  | tail _ hstep ih =>
    obtain ⟨c, hc, rfl⟩ := hstep
    exact ih.call hc

omit [DecidableEq H] in
theorem PoolWorld.OK.init {n hbs : ℕ} {caching events : Bool} {p : BlockPool H}
    (hinit : init n caching hbs events = .ok p) : PoolWorld.OK ⟨p, fun _ => 0⟩ := by
  have hn : 0 < n := by
    by_contra hn
    simp [BlockPool.init, hn] at hinit
  obtain ⟨p', hp', hcons, -, -, -, href, -⟩ := init_ok n hbs caching events hn
  obtain rfl : p' = p := Except.ok.inj (hp'.symm.trans hinit)
  exact ⟨⟨_, hcons⟩, fun b _ _ => by simpa using href b⟩

/-- **Conservation of blocks.** After any sequence of calls in which callers give up only
references they hold, the free queue lists exactly the non-null blocks without a reference, each
once, and its counter is its length; the next `get_new_blocks` returns that many distinct blocks
of it, none of them null, each with one reference, or raises without any effect. -/
theorem pool_conservation {n hbs : ℕ} {caching events : Bool} {p : BlockPool H}
    (hinit : init n caching hbs events = .ok p) (hrun : ReflTransGen PoolWorld.Step ⟨p, fun _ => 0⟩ w) :
    ∃ xs, w.pool.freeBlockQueue.Lists xs ∧ xs.Nodup ∧
      (∀ b, b ∈ xs ↔ b ∈ poolBlocks w.pool.numGpuBlocks ∧ w.pool.isNull b = false ∧ w.pool.refCnt b = 0) ∧
      w.pool.freeBlockQueue.numFreeBlocks = xs.length ∧ w.pool.nullBlock ∉ xs ∧
      (∀ k ≤ xs.length, ∃ ret p', getNewBlocks k w.pool = .ok ret p' ∧ ret.length = k ∧ ret.Nodup ∧
        ∀ b ∈ ret, b ∈ xs ∧ b ≠ w.pool.nullBlock ∧ p'.refCnt b = 1) ∧
      ∀ k > xs.length, ∃ msg, getNewBlocks k w.pool = .error (.valueError msg) w.pool := by
  obtain ⟨xs, hxs⟩ := ((PoolWorld.OK.init hinit).run hrun).conserved
  have hnull : w.pool.nullBlock ∉ xs := fun hm => by
    have h1 := ((hxs.free _).1 hm).2.1
    rw [(hxs.null _).2 rfl] at h1
    exact Bool.noConfusion h1
  refine ⟨xs, hxs.queue, hxs.queue.nodup, hxs.free, hxs.queue.count, hnull, fun k hk => ?_,
    fun k hk => ⟨_, getNewBlocks_raises hxs hk⟩⟩
  have hspec := getNewBlocks_spec hxs hk
  unfold wp at hspec
  split at hspec
  next ret p' hok =>
    obtain ⟨rfl, -, href, -⟩ := hspec
    refine ⟨_, p', hok, length_take_of_le hk, hxs.queue.nodup.sublist (take_sublist k xs), fun b hb => ?_⟩
    have hbx : b ∈ xs := mem_of_mem_take hb
    refine ⟨hbx, fun h => hnull (h ▸ hbx), ?_⟩
    rw [href, if_pos hb]
  · exact hspec.elim

/-- Two of three blocks are taken and one of them is given back. -/
theorem pool_conservation_two_taken : ∃ (p : BlockPool ℕ) (w : PoolWorld ℕ), BlockPool.init 4 true 1 false = .ok p ∧
      ReflTransGen PoolWorld.Step ⟨p, fun _ => 0⟩ w ∧ w.pool.refCnt (.block 1) = 0 ∧
      w.pool.refCnt (.block 2) = 1 ∧ ∃ xs, w.pool.freeBlockQueue.Lists xs ∧ w.pool.nullBlock ∉ xs := by
  obtain ⟨p, hp, hheld, h1, h2, hnum⟩ : ∃ p, BlockPool.init (H := ℕ) 4 true 1 false = .ok p ∧
      let w := PoolWorld.call ⟨p, fun _ => 0⟩ (.getNewBlocks 2)
      w.held (.block 1) = 1 ∧ (w.call (.freeBlocks [.block 1])).pool.refCnt (.block 1) = 0 ∧
        (w.call (.freeBlocks [.block 1])).pool.refCnt (.block 2) = 1 ∧ w.pool.numGpuBlocks = 4 :=
    ⟨_, rfl, rfl, rfl, rfl, rfl⟩
  have hget : PoolWorld.Step (H := ℕ) ⟨p, fun _ => 0⟩ _ :=
    ⟨.getNewBlocks 2, ⟨trivial, fun b _ => by simp [PoolCall.given], nofun⟩, rfl⟩
  have hfree : PoolWorld.Step (PoolWorld.call ⟨p, fun _ => 0⟩ (.getNewBlocks 2)) _ :=
    ⟨.freeBlocks [.block 1], ⟨fun b hb => ?_, fun b _ => ?_, nofun⟩, rfl⟩
  · have hrun := (ReflTransGen.single hget).tail hfree
    obtain ⟨xs, h3, -, -, -, h4, -⟩ := pool_conservation hp hrun
    exact ⟨p, _, hp, hrun, h1, h2, xs, h3, h4⟩
  · rw [hnum, mem_singleton.1 hb]; decide
  · by_cases hb : b = .block 1
    · subst hb; rw [hheld]; decide
    · simp [PoolCall.given, Ne.symm hb]

end Conservation

/-! ## The index -/

section Index

variable [DecidableEq H] {p p' p0 : BlockPool H} {c : PoolCall H}

/-- Any call on blocks of the pool, returned from or raised. -/
def BlockPool.Call (p p' : BlockPool H) : Prop := ∃ c, c.OnPool p.numGpuBlocks ∧ p' = p.after c

/-- Any such call that does not register a hash for the block. -/
def BlockPool.CallNotCaching (block : KVCacheBlock) (p p' : BlockPool H) : Prop :=
  ∃ c, c.OnPool p.numGpuBlocks ∧ block ∉ c.caches ∧ p' = p.after c

/-- **What one call does to the index.** It keeps the index consistent and adds keys to the
blocks it caches only. -/
theorem indexWithin_run (hc : c.OnPool p.numGpuBlocks) :
    Keeps (IndexWithin { b | b ∈ c.caches ∧ b ∈ poolBlocks p.numGpuBlocks } p) c.run := by
  set S : Set KVCacheBlock := { b | b ∈ c.caches ∧ b ∈ poolBlocks p.numGpuBlocks } with hS
  have hops : HashOps (IndexWithin S p) S := indexWithin_hashOps
  have hrefs : RefOps (IndexWithin S p) := indexWithin_refOps
  cases c with
  | getNewBlocks n => exact hops.getNewBlocks hrefs
  | touch bs => exact keeps_bind hrefs.touch fun _ => keeps_pure
  | freeBlocks bs => exact keeps_bind hrefs.freeBlocks fun _ => keeps_pure
  | unpinBlocks bs w => exact keeps_bind hrefs.unpinBlocks fun _ => keeps_pure
  | cacheFullBlocks request bs c f n g mask =>
    refine keeps_bind (hops.cacheFullBlocks fun blk hb => ⟨hb, ?_⟩) fun _ => keeps_pure
    exact hc blk (mem_of_mem_drop (mem_of_mem_take hb))
  | cachePartialBlock request b n g s replace =>
    exact keeps_bind (hops.cachePartialBlock ⟨mem_singleton_self b, hc⟩) fun _ => keeps_pure
  | moveBlockHashes src dst =>
    exact keeps_bind (hops.moveBlockHashes ⟨mem_singleton_self dst, hc.2⟩) fun _ => keeps_pure
  | evictBlocks ids => exact keeps_bind hops.evictBlocks fun _ => keeps_pure
  | resetPrefixCache => exact keeps_bind resetPrefixCache_within fun _ => keeps_pure
  | emitCachedBlockEvents request c n g =>
    exact keeps_bind hops.emitCachedBlockEvents fun _ => keeps_pure
  | takeEvents => exact keeps_bind hops.takeEvents fun _ => keeps_pure

theorem indexOK_after (hp : IndexOK p) (hc : c.OnPool p.numGpuBlocks) :
    IndexOK (p.after c) ∧ (p.after c).enableCaching = p.enableCaching ∧
      ∀ b ∉ c.caches, ∀ k ∈ (p.after c).keysOf b, k ∈ p.keysOf b := by
  have h := indexWithin_run hc p (hp.within fun _ hb => hb.2)
  unfold wp at h
  unfold BlockPool.after
  generalize c.run p = r at h ⊢
  cases r <;> exact ⟨h.ok, h.caching, fun b hb => h.keys b fun hm => hb hm.1⟩

theorem indexOK_run (hp : IndexOK p) (hrun : ReflTransGen BlockPool.Call p p') :
    IndexOK p' ∧ p'.enableCaching = p.enableCaching := by
  induction hrun with
  | refl => exact ⟨hp, rfl⟩
  | tail _ hstep ih =>
    obtain ⟨c, hc, rfl⟩ := hstep
    obtain ⟨h1, h2, -⟩ := indexOK_after ih.1 hc
    exact ⟨h1, h2.trans ih.2⟩

theorem keysOf_run {block : KVCacheBlock} (hp : IndexOK p)
    (hrun : ReflTransGen (BlockPool.CallNotCaching block) p p') (hnone : p.keysOf block = []) :
    IndexOK p' ∧ p'.keysOf block = [] := by
  induction hrun with
  | refl => exact ⟨hp, hnone⟩
  | tail _ hstep ih =>
    obtain ⟨c, hc, hnot, rfl⟩ := hstep
    obtain ⟨h1, -, h3⟩ := indexOK_after ih.1 hc
    refine ⟨h1, eq_nil_iff_forall_not_mem.2 fun k hk => ?_⟩
    have := h3 block hnot k hk
    rw [ih.2] at this
    exact not_mem_nil this

omit [DecidableEq H] in
theorem mem_getCachedBlock {hash : H} {groupIds : List ℕ} {bs : List KVCacheBlock}
    (h : p.getCachedBlock hash groupIds = some bs) :
    ∀ b ∈ bs, ∃ g ∈ groupIds, b ∈ p.cachedBlockHashToBlock.blocks (makeBlockHashWithGroupId hash g) := by
  induction groupIds generalizing bs with
  | nil =>
    cases h
    simp
  | cons g gs ih =>
    unfold getCachedBlock at h
    split at h
    · cases h
    rename_i c hc
    obtain ⟨cs, hcs, rfl⟩ := Option.map_eq_some_iff.1 h
    intro b hb
    rcases mem_cons.1 hb with rfl | hb
    · exact ⟨g, mem_cons_self, BlockHashToBlockMap.mem_of_getOneBlock hc⟩
    · obtain ⟨g', hg', hm⟩ := ih hcs b hb
      exact ⟨g', mem_cons_of_mem _ hg', hm⟩

/-- **Consistency of the prefix-cache index.** After any sequence of calls, raising ones included,
the map holds a block under a key exactly when the key is the block's primary hash or one of its
additional hashes, and a block without a primary hash has no additional one; a block returned by
`get_new_blocks` is reachable under no key, and returned by no lookup, until it is cached again. -/
theorem index_consistent {n hbs : ℕ} {events : Bool}
    (hinit : init n true hbs events = .ok p0) (hrun : ReflTransGen BlockPool.Call p0 p) :
    (∀ key block, block ∈ p.cachedBlockHashToBlock.blocks key ↔
      p.blockHash block = some key ∨ key ∈ p.cachedBlockHashesByBlock block) ∧
    (∀ block, p.blockHash block = none → p.cachedBlockHashesByBlock block = []) ∧
    ∀ k ret p1, getNewBlocks k p = .ok ret p1 → ∀ block ∈ ret, ∀ p2,
      ReflTransGen (BlockPool.CallNotCaching block) p1 p2 → (∀ key, block ∉ p2.cachedBlockHashToBlock.blocks key) ∧
        ∀ hash groupIds bs, p2.getCachedBlock hash groupIds = some bs → block ∉ bs := by
  have hn : 0 < n := by
    by_contra hn
    simp [init, hn] at hinit
  obtain ⟨p', hp', -, -, hcach, -, -, hidx⟩ := init_ok n hbs true events hn
  obtain rfl : p' = p0 := Except.ok.inj (hp'.symm.trans hinit)
  obtain ⟨hp, hpc⟩ := indexOK_run hidx hrun
  refine ⟨fun key block => ?_, hp.primary, fun k ret p1 hget block hb p2 hrun2 => ?_⟩
  · rw [hp.mem_iff, keysOf, mem_append, Option.mem_toList]
  have hwithin : IndexWithin ∅ p p := hp.within fun _ hb => hb.elim
  have hnone := wp_ok (getNewBlocks_keysOf hwithin (hpc.trans hcach)) hget block hb
  have hp1 : IndexOK p1 := (wp_ok (indexWithin_hashOps.getNewBlocks indexWithin_refOps p hwithin) hget).ok
  obtain ⟨hp2, hkeys⟩ := keysOf_run hp1 hrun2 hnone
  have hunreach : ∀ key, block ∉ p2.cachedBlockHashToBlock.blocks key := by
    intro key hm
    rw [hp2.mem_iff, hkeys] at hm
    exact not_mem_nil hm
  refine ⟨hunreach, fun hash groupIds bs hbs hm => ?_⟩
  obtain ⟨g, -, hg⟩ := mem_getCachedBlock hbs block hm
  exact hunreach _ hg

/-- A block is cached under hash 7, evicted by handing it out again, and found no more. -/
theorem index_consistent_handed_out_again : ∃ p0 p1 p2 p3 p4 : BlockPool ℕ, BlockPool.init 2 true 1 false = .ok p0 ∧
      p1 = p0.after (.getNewBlocks 1) ∧ p2 = p1.after (.cacheFullBlocks ⟨[5], [7]⟩ [.block 1] 0 1 1 0 none) ∧
      p3 = p2.after (.freeBlocks [.block 1]) ∧ p3.blockHash (.block 1) = some ⟨7, 0⟩ ∧
      getNewBlocks 1 p3 = .ok [.block 1] p4 ∧ ∀ key, .block 1 ∉ p4.cachedBlockHashToBlock.blocks key := by
  obtain ⟨p0, p1, p2, p3, p4, hp0, rfl, rfl, rfl, h1, h2, hhash, h4⟩ : ∃ p0 p1 p2 p3 p4 : BlockPool ℕ,
      BlockPool.init 2 true 1 false = .ok p0 ∧ p1 = p0.after (.getNewBlocks 1) ∧
      p2 = p1.after (.cacheFullBlocks ⟨[5], [7]⟩ [.block 1] 0 1 1 0 none) ∧ p3 = p2.after (.freeBlocks [.block 1]) ∧
      p1.numGpuBlocks = 2 ∧ p2.numGpuBlocks = 2 ∧ p3.blockHash (.block 1) = some ⟨7, 0⟩ ∧
      getNewBlocks 1 p3 = .ok [.block 1] p4 := ⟨_, _, _, _, _, rfl, rfl, rfl, rfl, rfl, rfl, rfl, rfl⟩
  have hmem : ∀ b ∈ [KVCacheBlock.block 1], b ∈ poolBlocks 2 := by decide
  have hrun : ReflTransGen BlockPool.Call p0 _ := ((ReflTransGen.single ⟨.getNewBlocks 1, trivial, rfl⟩).tail
      ⟨.cacheFullBlocks ⟨[5], [7]⟩ [.block 1] 0 1 1 0 none, h1 ▸ hmem, rfl⟩).tail
      ⟨.freeBlocks [.block 1], h2 ▸ hmem, rfl⟩
  refine ⟨p0, _, _, _, p4, hp0, rfl, rfl, rfl, hhash, h4, ?_⟩
  exact ((index_consistent hp0 hrun).2.2 1 _ p4 h4 _ mem_cons_self p4 ReflTransGen.refl).1

end Index

end VllmRwkv
