import VllmRwkv.Pool.BlockPool

/-!
# What the functions of the pool can change

The functions of the pool fall into two families: those that cache and evict, which only write
the index and the events, and those that count references, which only write the counts, the free
queue and the reuse callbacks.
-/

namespace VllmRwkv.BlockPool

open Raise

variable {block : KVCacheBlock}

section Refs

variable {H : Type}

/-- A property that does not look at counts, free queue or callbacks. -/
structure RefOps (I : BlockPool H → Prop) : Prop where
  refs : ∀ p q r w l, I p → I { p with freeBlockQueue := q, refCnt := r, reuseWatchers := w, reuseNotified := l }

namespace RefOps

variable {I : BlockPool H → Prop} (hI : RefOps I) {bs : List KVCacheBlock}
include hI

theorem addRefCnt {d : ℤ} : Keeps I (addRefCnt block d) :=
  keeps_modify fun p hp => hI.refs p p.freeBlockQueue _ p.reuseWatchers p.reuseNotified hp

theorem onQueue {α : Type} {m : QueueM α} : Keeps I (onQueue m) := fun p hp =>
  wp_onQueue.2 (wp_mono wp_trivial (fun _ q _ => hI.refs p q p.refCnt p.reuseWatchers p.reuseNotified hp)
    (fun _ q _ => hI.refs p q p.refCnt p.reuseWatchers p.reuseNotified hp))

theorem notifyReuse : Keeps I (notifyReuse bs) := by
  refine keeps_forM fun b _ => keeps_modify fun p hp => ?_
  split
  · exact hp
  · exact hI.refs p p.freeBlockQueue p.refCnt _ _ hp

theorem touch : Keeps I (touch bs) := by
  refine keeps_forM fun b _ => keeps_bind keeps_get fun _ => ?_
  exact keeps_bind (keeps_runIf fun _ => hI.onQueue) fun _ => hI.addRefCnt

variable {w : ReuseWatcher}

theorem unpinLoop : Keeps I (unpinLoop w bs) := by
  induction bs with
  | nil => exact keeps_pure
  | cons b bs ih =>
    refine keeps_bind keeps_get fun _ => keeps_bind keeps_check fun _ => ?_
    refine keeps_bind hI.addRefCnt fun _ => keeps_bind (keeps_modify fun p hp => ?_) fun _ => ?_
    · exact hI.refs p p.freeBlockQueue p.refCnt _ p.reuseNotified hp
    · exact keeps_bind ih fun _ => keeps_pure

theorem unpinBlocks : Keeps I (unpinBlocks bs w) := keeps_bind hI.unpinLoop fun _ => hI.onQueue

theorem freeLoop : Keeps I (freeLoop bs) := by
  induction bs with
  | nil => exact keeps_pure
  | cons b bs ih =>
    refine keeps_bind hI.addRefCnt fun _ => keeps_bind keeps_get fun _ => ?_
    exact keeps_bind ih fun _ => keeps_pure

theorem freeBlocks : Keeps I (freeBlocks bs) :=
  keeps_bind hI.freeLoop fun _ => keeps_bind hI.onQueue fun _ => hI.onQueue

end RefOps

end Refs

section Hashes

variable {H : Type} [DecidableEq H]

/-- A property that survives removing the keys of a block, adding a key to a block of `S`, and
any change of the event queue. -/
structure HashOps (I : BlockPool H → Prop) (S : Set KVCacheBlock) : Prop where
  remove : ∀ block, Keeps I (removeCachedBlockHashes block)
  insert : ∀ key block numTokens, block ∈ S → Keeps I (insertBlockHash key block numTokens)
  events : ∀ p evs, I p → I { p with kvEventQueue := evs }

namespace HashOps

variable {I : BlockPool H → Prop} {S : Set KVCacheBlock} (hI : HashOps I S)
  {request : HashedTokens H} {n : ℕ} {mask : Option (List Bool)}
include hI

theorem emitBlockRemovedEvents {keys : List (BlockHashWithGroupId H)} : Keeps I (emitBlockRemovedEvents keys) := by
  refine keeps_modify fun p hp => ?_
  split
  · exact hI.events p _ hp
  · exact hp

theorem pushEvent {event : KVCacheEvent H} : Keeps I (pushEvent event) := keeps_modify fun p hp => hI.events p _ hp

theorem takeEvents : Keeps I takeEvents := by
  refine keeps_bind keeps_get fun p => ?_
  split
  · exact keeps_bind (keeps_modify fun p hp => hI.events p _ hp) fun _ => keeps_pure
  · exact keeps_pure

theorem emitCachedBlockEvents {c g : ℕ} : Keeps I (emitCachedBlockEvents request c n g) := by
  refine keeps_bind keeps_get fun p => ?_
  split
  · exact keeps_pure
  split
  · exact keeps_throw
  · exact keeps_bind keeps_check fun _ => hI.pushEvent

theorem cacheFullBlock {key : BlockHashWithGroupId H} {blk : KVCacheBlock} (hS : blk ∈ S) :
    Keeps I (cacheFullBlock key blk n) := by
  refine keeps_bind keeps_get fun p => keeps_bind (keeps_runIf fun _ => ?_) fun _ =>
    hI.insert _ _ _ hS
  refine keeps_bind keeps_check fun _ => keeps_bind (hI.remove blk) fun _ => ?_
  exact hI.emitBlockRemovedEvents

theorem cacheFullBlocksLoop {hashes : List H} {c g i : ℕ} {blks : List KVCacheBlock} (hS : ∀ blk ∈ blks, blk ∈ S) :
    Keeps I (cacheFullBlocksLoop hashes mask c n g i blks) := by
  induction blks generalizing i with
  | nil => exact keeps_pure
  | cons blk blks ih =>
    have hrest := fun i => ih (i := i) fun b hb => hS b (List.mem_cons_of_mem _ hb)
    refine keeps_bind keeps_get fun p => ?_
    split
    · exact hrest _
    split
    · exact keeps_throw
    · refine keeps_bind (hI.cacheFullBlock (hS blk List.mem_cons_self)) fun _ => ?_
      exact keeps_bind (hrest _) fun _ => keeps_pure

theorem cacheFullBlocks {blocks : List KVCacheBlock} {c f g : ℕ} (hS : ∀ blk ∈ (blocks.drop c).take (f - c), blk ∈ S) :
    Keeps I (cacheFullBlocks request blocks c f n g mask) := by
  unfold BlockPool.cacheFullBlocks
  split
  · exact keeps_pure
  refine keeps_bind keeps_check fun _ => keeps_bind keeps_get fun p => ?_
  split
  · exact keeps_throw
  · refine keeps_bind (hI.cacheFullBlocksLoop hS) fun _ => keeps_bind keeps_get fun _ => ?_
    refine keeps_runIf fun _ => ?_
    exact keeps_bind keeps_check fun _ => keeps_bind keeps_check fun _ => hI.pushEvent

theorem cachePartialBlock {g bs : ℕ} {rep : Bool}
    (hS : block ∈ S) : Keeps I (cachePartialBlock request block n g bs rep) := by
  refine keeps_bind keeps_get fun p => ?_
  split
  · exact keeps_pure
  refine keeps_bind keeps_check fun _ => ?_
  split
  · exact keeps_throw
  refine keeps_bind (keeps_runIf fun _ => ?_) fun _ => ?_
  · exact keeps_bind (hI.remove block) fun _ => hI.emitBlockRemovedEvents
  · refine keeps_bind (hI.insert _ _ _ hS) fun _ => ?_
    exact keeps_bind (keeps_runIf fun _ => hI.pushEvent) fun _ => keeps_pure

theorem moveBlockHashes {src dst : KVCacheBlock} (hS : dst ∈ S) : Keeps I (moveBlockHashes src dst) := by
  refine keeps_bind keeps_get fun p => keeps_bind keeps_check fun _ => keeps_bind keeps_check fun _ => ?_
  refine keeps_bind (hI.remove src) fun _ => ?_
  exact keeps_forM fun _ _ => hI.insert _ _ _ hS

theorem maybeEvictCachedBlock : Keeps I (maybeEvictCachedBlock block) := by
  refine keeps_bind (hI.remove block) fun _ => ?_
  split
  · exact keeps_pure
  · exact keeps_bind hI.emitBlockRemovedEvents fun _ => keeps_pure

theorem evictBlocks {ids : List ℕ} : Keeps I (evictBlocks ids) := by
  refine keeps_forM fun _ _ => keeps_bind keeps_get fun _ => keeps_bind keeps_check fun _ => ?_
  exact keeps_bind hI.maybeEvictCachedBlock fun _ => keeps_pure

theorem takeBlock (hR : RefOps I) : Keeps I (takeBlock block) := by
  refine keeps_bind keeps_get fun _ => keeps_bind (keeps_runIf fun _ => ?_) fun _ => ?_
  · exact keeps_bind hI.maybeEvictCachedBlock fun _ => keeps_pure
  · exact keeps_bind keeps_get fun _ => keeps_bind keeps_check fun _ => hR.addRefCnt

theorem getNewBlocks (hR : RefOps I) : Keeps I (getNewBlocks n) := by
  refine keeps_bind keeps_get fun _ => keeps_bind keeps_check fun _ => ?_
  refine keeps_bind hR.onQueue fun _ => keeps_bind hR.notifyReuse fun _ => ?_
  exact keeps_bind (keeps_forM fun _ _ => hI.takeBlock hR) fun _ => keeps_pure

end HashOps

end Hashes

end VllmRwkv.BlockPool
