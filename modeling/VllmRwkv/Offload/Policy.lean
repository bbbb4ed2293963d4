import VllmRwkv.Lib.Dict
import VllmRwkv.Pool.FreeQueue

/-!
# Cache policies of the CPU offload

The interface `CachePolicy` of `kv_offload/cpu/policies/base.py`, and what a policy has to keep for the
manager's accounts (`LawfulCachePolicy`): the resident chunks are a table, from which every operation takes
and into which it puts exactly what it says, and eviction takes idle, unprotected chunks only.

A `ChunkStatus` is shared: the manager changes the `ref_cnt` of an object that the policy's tables hold.
`setRefCnt` is such a change.
-/

namespace VllmRwkv.Offload

/-- The number of transfers that read a chunk, -1 while it is being written, and its place. The number is a
`c_int32`: see `Pool.pin`. -/
structure ChunkStatus where
  refCnt : ℤ := -1
  chunkId : ℕ
  deriving DecidableEq, Repr

def ChunkStatus.isReady (chunk : ChunkStatus) : Bool := 0 ≤ chunk.refCnt

/-- No transfer uses the chunk. -/
def ChunkStatus.idle (chunk : ChunkStatus) : Bool := chunk.refCnt = 0

/-- `order_request_keys`: one order over all groups, by position if all keys have one. -/
def orderRequestKeys {Key : Type} [DecidableEq Key] (keyGroups : List (List Key)) (position : Key → Option ℕ) :
    List Key :=
  let keys := keyGroups.flatten
  let positions := (keys.filter fun k => (position k).isSome).dedup
  if positions.length = keys.length then
    keys.mergeSort fun a b => (position a).getD 0 ≤ (position b).getD 0
  else keys

/-- What the manager calls. -/
class CachePolicy (P : Type) (Key : outParam Type) where
  get : P → Key → Option ChunkStatus
  setRefCnt : P → Key → ℤ → P
  insert : P → Key → ChunkStatus → Except PyErr P
  remove : P → Key → Except PyErr P
  touch : P → List Key → Except PyErr P
  onStoreMiss : P → List Key → Except PyErr P
  onRequestFinished : P → List (List Key) → Finset Key → Finset Key → (Key → Option ℕ) → Except PyErr P
  evict : P → ℕ → List Key → Except PyErr (P × Option (List (Key × ChunkStatus)))
  clear : P → P
  markEvictable : P → Key → Except PyErr P
  markNonEvictable : P → Key → Except PyErr P

/-- What the policy does to the table of the resident chunks. -/
class LawfulCachePolicy (P : Type) (Key : outParam Type) [DecidableEq Key] [CachePolicy P Key] where
  table : P → Dict Key ChunkStatus
  /-- The policy's own tables agree. -/
  Ok : P → Prop
  get_eq : ∀ p k, CachePolicy.get p k = (table p).get? k
  insert_spec : ∀ {p k c}, Ok p → (table p).get? k = none → c.refCnt ≠ 0 →
    ∃ p', CachePolicy.insert p k c = .ok p' ∧ Ok p' ∧ (table p').get? = ((table p).set k c).get?
  remove_spec : ∀ {p k c}, Ok p → (table p).get? k = some c →
    ∃ p', CachePolicy.remove p k = .ok p' ∧ Ok p' ∧ (table p').get? = ((table p).erase k).get?
  touch_spec : ∀ {p} keys, Ok p → ∃ p', CachePolicy.touch p keys = .ok p' ∧ Ok p' ∧ (table p').get? = (table p).get?
  onStoreMiss_spec : ∀ {p} keys, Ok p →
    ∃ p', CachePolicy.onStoreMiss p keys = .ok p' ∧ Ok p' ∧ (table p').get? = (table p).get?
  onRequestFinished_spec : ∀ {p} groups inserted reused position, Ok p →
    ∃ p', CachePolicy.onRequestFinished p groups inserted reused position = .ok p' ∧ Ok p' ∧
      (table p').get? = (table p).get?
  evict_spec : ∀ {p} n (protect : List Key), Ok p → ∃ p' out, CachePolicy.evict p n protect = .ok (p', out) ∧ Ok p' ∧
      (out = none → (table p').get? = (table p).get?) ∧
      ∀ evicted, out = some evicted → evicted.length = n ∧ (evicted.map Prod.fst).Nodup ∧
        (∀ e ∈ evicted, (table p).get? e.1 = some e.2 ∧ e.2.refCnt = 0 ∧ e.1 ∉ protect) ∧
        (table p').get? = ((table p).eraseAll (evicted.map Prod.fst)).get?
  clear_spec : ∀ p, Ok (CachePolicy.clear p) ∧ (table (CachePolicy.clear p)).get? = fun _ => none
  /-- A chunk in use stays in use. -/
  setRefCnt_spec : ∀ {p k c n}, Ok p → (table p).get? k = some c → c.refCnt ≠ 0 → n ≠ 0 →
    Ok (CachePolicy.setRefCnt p k n) ∧
      (table (CachePolicy.setRefCnt p k n)).get? = ((table p).set k { c with refCnt := n }).get?
  /-- An idle chunk is taken into use. -/
  markNonEvictable_spec : ∀ {p k c n}, Ok p → (table p).get? k = some c → c.refCnt = 0 → n ≠ 0 →
    ∃ p', CachePolicy.markNonEvictable p k = .ok p' ∧ Ok (CachePolicy.setRefCnt p' k n) ∧
      (table (CachePolicy.setRefCnt p' k n)).get? = ((table p).set k { c with refCnt := n }).get?
  /-- A chunk is given back. -/
  markEvictable_spec : ∀ {p k c}, Ok p → (table p).get? k = some c → c.refCnt ≠ 0 →
    ∃ p', CachePolicy.markEvictable (CachePolicy.setRefCnt p k 0) k = .ok p' ∧ Ok p' ∧
      (table p').get? = ((table p).set k { c with refCnt := 0 }).get?

end VllmRwkv.Offload
