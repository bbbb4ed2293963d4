import VllmRwkv.Pool.FreeQueue

/-!
# The hash-to-block map

`BlockHashToBlockMap` of `v1/core/block_pool.py`: a key maps to a single block, or to a
dictionary of blocks once a second block is cached under the same key.

`BlockHashToBlockMap.blocks m key` is the list of blocks held under a key; `mem_insert` and
`mem_pop` say how the two mutators change it.
-/

namespace VllmRwkv

open Function

variable {H : Type}

/-- A block hash packed with a KV cache group id. -/
structure BlockHashWithGroupId (H : Type) where
  blockHash : H
  groupId : ℕ
  deriving DecidableEq, Repr

-- by name, so that the definitions that look for a key refer to one proof
instance [DecidableEq H] : LawfulBEq (BlockHashWithGroupId H) := inferInstance

def makeBlockHashWithGroupId (blockHash : H) (groupId : ℕ) : BlockHashWithGroupId H :=
  ⟨blockHash, groupId⟩

/-- The union type of the map's values. A dictionary `{block_id: block}` is the list of its
blocks in insertion order: the id of a block is a function of the block. -/
inductive CachedBlocks where
  | single (block : KVCacheBlock)
  | dict (blocks : List KVCacheBlock)
  deriving DecidableEq, Repr

def CachedBlocks.toList : CachedBlocks → List KVCacheBlock
  | .single block => [block]
  | .dict blocks => blocks

structure BlockHashToBlockMap (H : Type) where
  cache : BlockHashWithGroupId H → Option CachedBlocks

namespace BlockHashToBlockMap

def empty : BlockHashToBlockMap H := ⟨fun _ => none⟩

section

variable (m : BlockHashToBlockMap H) (key : BlockHashWithGroupId H)

def getOneBlock : Option KVCacheBlock :=
  match m.cache key with
  | none => none
  | some (.single block) => some block
  | some (.dict blocks) => blocks.head?

def contain (block : KVCacheBlock) : Bool :=
  match m.cache key with
  | none => false
  | some (.single b) => b == block
  | some (.dict blocks) => blocks.contains block

end

section Mutators

variable [DecidableEq H] (m : BlockHashToBlockMap H) (key : BlockHashWithGroupId H) (block : KVCacheBlock)

def insert : BlockHashToBlockMap H :=
  match m.cache key with
  | none => ⟨update m.cache key (some (.single block))⟩
  | some (.single b) =>
    ⟨update m.cache key (some (.dict (if b = block then [block] else [b, block])))⟩
  | some (.dict blocks) =>
    -- assigning to a present key of a dictionary keeps its position
    ⟨update m.cache key (some (.dict (if block ∈ blocks then blocks else blocks ++ [block])))⟩

/-- `pop`: the block taken out, if it was held under the key, and the map afterwards. -/
def pop : Option KVCacheBlock × BlockHashToBlockMap H :=
  match m.cache key with
  | none => (none, m)
  | some (.single b) =>
    if b = block then (some b, ⟨update m.cache key none⟩) else (none, m)
  | some (.dict blocks) =>
    let rest := blocks.filter (· ≠ block)
    (if block ∈ blocks then some block else none,
      ⟨update m.cache key (if rest.length > 0 then some (.dict rest) else none)⟩)

end Mutators

/-- The blocks held under a key. -/
def blocks (m : BlockHashToBlockMap H) (key : BlockHashWithGroupId H) : List KVCacheBlock :=
  match m.cache key with
  | none => []
  | some entry => entry.toList

variable {m : BlockHashToBlockMap H} {key k : BlockHashWithGroupId H} {block b : KVCacheBlock}

theorem contain_iff : m.contain key block ↔ block ∈ m.blocks key := by
  rcases hc : m.cache key with _ | c | bs
  · simp [contain, blocks, hc]
  · simp only [contain, blocks, hc, CachedBlocks.toList, beq_iff_eq, List.mem_singleton]
    exact eq_comm
  · simp [contain, blocks, hc, CachedBlocks.toList]

theorem mem_of_getOneBlock (h : m.getOneBlock key = some block) : block ∈ m.blocks key := by
  rcases hc : m.cache key with _ | c | bs
  · simp [getOneBlock, hc] at h
  · simp only [getOneBlock, hc, Option.some.injEq] at h
    simp [blocks, hc, CachedBlocks.toList, h]
  · simp only [getOneBlock, hc] at h
    simpa [blocks, hc, CachedBlocks.toList] using List.mem_of_mem_head? h

section Mutators

variable [DecidableEq H]

theorem insert_cache_ne (hk : k ≠ key) : (m.insert key block).cache k = m.cache k := by
  unfold insert
  split <;> simp [hk]

theorem pop_cache_ne (hk : k ≠ key) : (m.pop key block).2.cache k = m.cache k := by
  unfold pop
  split
  · rfl
  · split <;> simp [hk]
  · simp [hk]

theorem mem_insert : b ∈ (m.insert key block).blocks k ↔ b ∈ m.blocks k ∨ (k = key ∧ b = block) := by
  by_cases hk : k = key
  · subst hk
    rcases hc : m.cache k with _ | c | bs
    · simp [insert, blocks, hc, CachedBlocks.toList]
    · by_cases hcb : c = block <;> simp [insert, blocks, hc, hcb, CachedBlocks.toList]
    by_cases hm : block ∈ bs
    · simp only [insert, blocks, hc, hm, CachedBlocks.toList, if_true, update_self, true_and]
      exact ⟨.inl, fun h => h.elim id (fun h => h ▸ hm)⟩
    · simp [insert, blocks, hc, hm, CachedBlocks.toList]
  · simp [blocks, insert_cache_ne hk, hk]

theorem mem_pop : b ∈ (m.pop key block).2.blocks k ↔ b ∈ m.blocks k ∧ ¬ (k = key ∧ b = block) := by
  by_cases hk : k = key
  · subst hk
    rcases hc : m.cache k with _ | c | bs
    · simp [pop, blocks, hc]
    · by_cases hcb : c = block
      · simp [pop, blocks, hc, hcb, CachedBlocks.toList]
      · simp only [pop, blocks, hc, hcb, if_false, CachedBlocks.toList, List.mem_singleton, true_and]
        exact ⟨fun h => ⟨h, h ▸ hcb⟩, fun h => h.1⟩
    -- the dictionary is dropped when nothing is left in it
    by_cases hlen : (bs.filter (· ≠ block)).length > 0
    · simp only [pop, blocks, hc, hlen, if_true, update_self, CachedBlocks.toList, true_and]
      simp
    have hall : ∀ x ∈ bs, x = block := by simpa using hlen
    simp only [pop, blocks, hc, hlen, if_false, update_self, CachedBlocks.toList,
      List.not_mem_nil, true_and, false_iff, not_and, not_not]
    exact hall b
  · simp [blocks, pop_cache_ne hk, hk]

theorem pop_isSome : (m.pop key block).1.isSome ↔ block ∈ m.blocks key := by
  rcases hc : m.cache key with _ | c | bs
  · simp [pop, blocks, hc]
  · by_cases hcb : c = block
    · simp [pop, blocks, hc, hcb, CachedBlocks.toList]
    · simp [pop, blocks, hc, hcb, CachedBlocks.toList, Ne.symm hcb]
  · by_cases hm : block ∈ bs <;> simp [pop, blocks, hc, hm, CachedBlocks.toList]

end Mutators

end BlockHashToBlockMap

end VllmRwkv
