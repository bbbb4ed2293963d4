import VllmRwkv.Offload.Arc
import VllmRwkv.Offload.Lru

/-!
# The CPU offloading manager

`CPUOffloadingManager` of `kv_offload/cpu/manager.py`. `Pool` is the part that the chunk accounts are about;
the rest of the manager is the tracker of offers and what each request has touched, which is kept with the
request. Events and metrics are left out.
-/

namespace VllmRwkv.Offload

/-- The built-in policies that `CachePolicyFactory` knows by name. -/
inductive PolicyName where
  | lru
  | arc
  deriving DecidableEq, Repr

inductive LookupResult where
  | miss
  | hit
  | hitPending
  deriving DecidableEq, Repr

/-- The chunk pool of the manager, with its policy. -/
structure Pool (P : Type) where
  numChunks : ℕ
  policy : P
  numAllocatedChunks : ℕ := 0
  freeList : List ℕ := []
  numEvictableCacheChunks : ℤ := 0
  numWritePendingChunks : ℤ := 0

/-- `_RequestCacheAccess`; the sets are without order. -/
structure RequestCacheAccess (Key : Type) where
  cacheGeneration : ℕ
  keyGroups : Dict ℕ (List Key) := .empty
  seenKeys : Finset Key := ∅
  insertedKeys : Finset Key := ∅
  reusedKeys : Finset Key := ∅
  storeMissKeys : Finset Key := ∅
  finished : Bool := false

/-- `CPUOffloadingManager`, with the states that it keeps in the contexts of the requests. -/
structure Manager (P Key Req : Type) where
  pool : Pool P
  storeThreshold : ℕ
  maxTrackerSize : ℕ
  counts : Option (Dict Key ℕ)
  cacheGeneration : ℕ := 0
  requests : Req → Option (RequestCacheAccess Key) := fun _ => none

structure PrepareStoreOutput (Key : Type) where
  keysToStore : List Key
  storeSpec : List ℕ
  evictedKeys : List Key

variable {P Key Req : Type} [DecidableEq Key] [DecidableEq Req] [CachePolicy P Key]

/-! ## The pool -/

namespace Pool

variable (p : Pool P)

def getNumFreeChunks : ℤ := p.freeList.length + p.numChunks - p.numAllocatedChunks

/-- Fresh chunks first, then chunks popped from the end of the free list. -/
def allocateChunks (n : ℕ) : Except PyErr (Pool P × List ChunkStatus) :=
  let numFresh := min n (p.numChunks - p.numAllocatedChunks)
  let numReused := n - numFresh
  if numReused ≤ p.freeList.length then
    let kept := p.freeList.length - numReused
    .ok ({ p with numAllocatedChunks := p.numAllocatedChunks + numFresh, freeList := p.freeList.take kept },
      (List.range' p.numAllocatedChunks numFresh ++ (p.freeList.drop kept).reverse).map fun i => { chunkId := i })
  else .error (.assertionError "")

def freeChunk (chunk : ChunkStatus) : Pool P := { p with freeList := p.freeList ++ [chunk.chunkId] }

def lookup (key : Key) : LookupResult :=
  match CachePolicy.get p.policy key with
  | none => .miss
  | some chunk => if chunk.isReady then .hit else .hitPending

/-- The next `ref_cnt`, in a `c_int32`. -/
def nextRefCnt (refCnt : ℤ) : ℤ := (refCnt + 1).bmod (2 ^ 32)

/-- `_prepare_load` for one key. -/
def pin (key : Key) : Except PyErr (Pool P × ℕ) :=
  match CachePolicy.get p.policy key with
  | none => .error (.assertionError "Chunk not found in cache")
  | some chunk =>
    if chunk.isReady = false then .error (.assertionError "Chunk is not ready for reading")
    else if chunk.refCnt = 0 then do
      let policy ← CachePolicy.markNonEvictable p.policy key
      if p.numEvictableCacheChunks - 1 < 0 then .error (.assertionError "")
      else
        .ok ({ p with
          policy := CachePolicy.setRefCnt policy key (nextRefCnt chunk.refCnt)
          numEvictableCacheChunks := p.numEvictableCacheChunks - 1 }, chunk.chunkId)
    else .ok ({ p with policy := CachePolicy.setRefCnt p.policy key (nextRefCnt chunk.refCnt) }, chunk.chunkId)

def pinAll (p : Pool P) : List Key → Except PyErr (Pool P × List ℕ)
  | [] => .ok (p, [])
  | key :: keys => do
    let (p, i) ← p.pin key
    let (p, ids) ← pinAll p keys
    return (p, i :: ids)

/-- `complete_load` for one key. -/
def unpin (key : Key) : Except PyErr (Pool P) :=
  match CachePolicy.get p.policy key with
  | none => .error (.assertionError "Chunk not found")
  | some chunk =>
    if 0 < chunk.refCnt then
      let policy := CachePolicy.setRefCnt p.policy key (chunk.refCnt - 1)
      if chunk.refCnt - 1 = 0 then do
        return { p with
          numEvictableCacheChunks := p.numEvictableCacheChunks + 1
          policy := ← CachePolicy.markEvictable policy key }
      else .ok { p with policy := policy }
    else .error (.assertionError "Chunk ref_cnt is already 0")

/-- `complete_store` for one key: stored, or given up. -/
def settle (success : Bool) (p : Pool P) (key : Key) : Except PyErr (Pool P) :=
  match CachePolicy.get p.policy key with
  | none => .ok p
  | some chunk =>
    if chunk.isReady then .ok p
    else if success then do
      return { p with
        numWritePendingChunks := p.numWritePendingChunks - 1
        numEvictableCacheChunks := p.numEvictableCacheChunks + 1
        policy := ← CachePolicy.markEvictable (CachePolicy.setRefCnt p.policy key 0) key }
    else do
      return freeChunk { p with
        numWritePendingChunks := p.numWritePendingChunks - 1
        policy := ← CachePolicy.remove p.policy key } chunk

/-- The eviction of `prepare_store`: the evicted keys, or `none` if there is no room to be made. -/
def makeRoom (keys : List Key) (needed : ℕ) : Except PyErr (Pool P × Option (List Key)) :=
  let numChunksToEvict := needed - p.getNumFreeChunks
  if 0 < numChunksToEvict then
    if p.numEvictableCacheChunks < numChunksToEvict then .ok (p, none)
    else do
      match ← CachePolicy.evict p.policy numChunksToEvict.toNat keys with
      | (policy, none) => .ok ({ p with policy := policy }, none)
      | (policy, some evicted) =>
        if p.numEvictableCacheChunks - evicted.length < 0 then .error (.assertionError "")
        else
          let p := { p with
            policy := policy
            numEvictableCacheChunks := p.numEvictableCacheChunks - evicted.length }
          .ok (evicted.foldl (fun p e => p.freeChunk e.2) p, some (evicted.map Prod.fst))
  else .ok (p, some [])

def insertAll (p : Pool P) : List (Key × ChunkStatus) → Except PyErr (Pool P)
  | [] => .ok p
  | (key, chunk) :: rest => do
    let policy ← CachePolicy.insert p.policy key chunk
    insertAll { p with policy := policy } rest

/-- The allocation of `prepare_store`. -/
def allocateAndInsert (keys : List Key) : Except PyErr (Pool P × List ℕ) := do
  let (p, chunks) ← p.allocateChunks keys.length
  if chunks.length = keys.length then
    let p ← p.insertAll (keys.zip chunks)
    return ({ p with numWritePendingChunks := p.numWritePendingChunks + keys.length }, chunks.map ChunkStatus.chunkId)
  else .error (.assertionError "Chunk pool did not allocate the expected number of chunks")

/-- `reset_cache` -/
def reset : Pool P :=
  { numChunks := p.numChunks, policy := CachePolicy.clear p.policy }

end Pool

/-! ## The manager -/

/-- `_record_accesses`, its first loop: known keys are counted and become the latest. -/
def countKnown (keys : List Key) (counts : Dict Key ℕ) : Dict Key ℕ × Finset Key :=
  keys.foldl (fun (counts, protect) key =>
    match counts.get? key with
    | none => (counts, protect)
    | some n => ((counts.moveToEnd key).set key (n + 1), insert key protect)) (counts, ∅)

/-- `_record_accesses`, its second loop: new keys take the places of the oldest ones. -/
def countNew (maxTrackerSize : ℕ) : List Key → ℤ → Dict Key ℕ → Except PyErr (Dict Key ℕ)
  | [], _, counts => .ok counts
  | key :: keys, numUnprotected, counts =>
    if key ∈ counts.keys then countNew maxTrackerSize keys numUnprotected counts
    else if maxTrackerSize ≤ counts.keys.length then
      if numUnprotected = 0 then countNew maxTrackerSize keys numUnprotected counts
      else match counts.keys with
        | [] => .error .keyError
        | oldest :: _ => countNew maxTrackerSize keys (numUnprotected - 1) ((counts.erase oldest).set key 1)
    else countNew maxTrackerSize keys numUnprotected (counts.set key 1)

def recordAccesses (maxTrackerSize : ℕ) (keys : List Key) (counts : Dict Key ℕ) : Except PyErr (Dict Key ℕ) :=
  let (counts, protect) := countKnown keys counts
  countNew maxTrackerSize keys (counts.keys.length - protect.card) counts

namespace Manager

/-- `__init__` -/
def init (numChunks : ℕ) (policy : P) (storeThreshold maxTrackerSize : ℕ) : Manager P Key Req where
  pool := { numChunks, policy }
  storeThreshold
  maxTrackerSize
  counts := if 2 ≤ storeThreshold then some .empty else none

variable (m : Manager P Key Req)

/-- `_get_request_cache_access`: the state of the request, a new one if it has none of this generation. -/
def getRequestCacheAccess (r : Req) : RequestCacheAccess Key :=
  match m.requests r with
  | none => { cacheGeneration := m.cacheGeneration }
  | some state =>
    if state.cacheGeneration = m.cacheGeneration then state else { cacheGeneration := m.cacheGeneration }

def setRequestCacheAccess (r : Req) (state : RequestCacheAccess Key) : Manager P Key Req :=
  { m with requests := Function.update m.requests r (some state) }

/-- The loop of `_record_request_cache_access`; `groupIdx` is `get_offload_group_idx`. -/
def seeKeys (groupIdx : Key → ℕ) : List Key → RequestCacheAccess Key → Except PyErr (RequestCacheAccess Key)
  | [], state => .ok state
  | key :: keys, state =>
    if key ∈ state.seenKeys then seeKeys groupIdx keys state
    else if state.finished then
      .error (.assertionError "New cache keys observed after request finalization")
    else
      let i := groupIdx key
      seeKeys groupIdx keys { state with
        keyGroups := state.keyGroups.set i ((state.keyGroups.get? i).getD [] ++ [key])
        seenKeys := insert key state.seenKeys }

section

variable (groupIdx : Key → ℕ)

def recordRequestCacheAccess (m : Manager P Key Req) (keys : List Key) (r : Req)
    (insertedKeys reusedKeys : List Key) : Except PyErr (Manager P Key Req) := do
  let state ← seeKeys groupIdx keys (m.getRequestCacheAccess r)
  let insertedKeys := state.insertedKeys ∪ insertedKeys.toFinset
  return m.setRequestCacheAccess r { state with
    insertedKeys := insertedKeys
    reusedKeys := state.reusedKeys ∪ (reusedKeys.filter (· ∉ insertedKeys)).toFinset }

def onNewRequest (r : Req) : Manager P Key Req :=
  m.setRequestCacheAccess r (m.getRequestCacheAccess r)

def prepareLoad (m : Manager P Key Req) (keys : List Key) (r : Req) : Except PyErr (Manager P Key Req × List ℕ) := do
  let (pool, ids) ← m.pool.pinAll keys
  let m ← recordRequestCacheAccess groupIdx { m with pool := pool } keys r [] keys
  return (m, ids)

def touch (m : Manager P Key Req) (keys : List Key) : Except PyErr (Manager P Key Req) := do
  return { m with pool := { m.pool with policy := ← CachePolicy.touch m.pool.policy keys } }

section

variable (keys : List Key)

def completeLoad : Except PyErr (Manager P Key Req) := do
  return { m with pool := ← keys.foldlM Pool.unpin m.pool }

def completeStore (success : Bool) : Except PyErr (Manager P Key Req) := do
  return { m with pool := ← keys.foldlM (Pool.settle success) m.pool }

/-- `prepare_store`: the offer is counted. -/
def countOffer : Except PyErr (Manager P Key Req) :=
  match m.counts with
  | none => .ok m
  | some counts => do return { m with counts := some (← recordAccesses m.maxTrackerSize keys counts) }

/-- `prepare_store`: the keys that are not resident and have been offered often enough. -/
def keysToStore (m : Manager P Key Req) (keys : List Key) : List Key :=
  let keysToStore := keys.filter fun key => (CachePolicy.get m.pool.policy key).isNone
  match m.counts with
  | none => keysToStore
  | some counts => keysToStore.filter fun key => m.storeThreshold ≤ (counts.get? key).getD 0

/-- `prepare_store`: the keys of ready chunks. -/
def readyExistingKeys : List Key :=
  keys.filter fun key => (CachePolicy.get m.pool.policy key).any ChunkStatus.isReady

end

/-- `prepare_store`: the policy learns of the misses, once per request. -/
def observeMisses (r : Req) (keysToStore : List Key) : Except PyErr (Manager P Key Req) := do
  let state := m.getRequestCacheAccess r
  let newStoreMisses := keysToStore.filter (· ∉ state.storeMissKeys)
  if newStoreMisses = [] then .ok (m.setRequestCacheAccess r state)
  else
    let policy ← CachePolicy.onStoreMiss m.pool.policy newStoreMisses
    return { m with pool := { m.pool with policy := policy } }.setRequestCacheAccess r
      { state with storeMissKeys := state.storeMissKeys ∪ newStoreMisses.toFinset }

def prepareStore (m : Manager P Key Req) (keys : List Key) (r : Req) :
    Except PyErr (Manager P Key Req × Option (PrepareStoreOutput Key)) := do
  let m ← m.countOffer keys
  let keysToStore := m.keysToStore keys
  let readyExistingKeys := m.readyExistingKeys keys
  let m ← m.observeMisses r keysToStore
  let recordedKeys := keys.filter fun key => key ∈ keysToStore ∨ key ∈ readyExistingKeys
  let m ← m.recordRequestCacheAccess groupIdx recordedKeys r [] readyExistingKeys
  if keysToStore = [] then .ok (m, some ⟨[], [], []⟩)
  else
    match ← m.pool.makeRoom keys keysToStore.length with
    | (pool, none) => .ok ({ m with pool := pool }, none)
    | (pool, some toEvict) =>
      let (pool, storeSpec) ← pool.allocateAndInsert keysToStore
      let state := m.getRequestCacheAccess r
      return ({ m with pool := pool }.setRequestCacheAccess r
          { state with insertedKeys := state.insertedKeys ∪ keysToStore.toFinset },
        some ⟨keysToStore, storeSpec, toEvict⟩)

end

/-- The keys of a group, by position if all have one. -/
def orderGroup (position : Key → Option ℕ) (keys : List Key) : List Key :=
  let positions := (keys.filter fun k => (position k).isSome).dedup
  if positions.length = keys.length then
    keys.mergeSort fun a b => (position a).getD 0 ≤ (position b).getD 0
  else keys

def onRequestFinished (m : Manager P Key Req) (r : Req) (position : Key → Option ℕ) :
    Except PyErr (Manager P Key Req) :=
  match m.requests r with
  | none => .ok m
  | some state =>
    if state.cacheGeneration ≠ m.cacheGeneration ∨ state.finished then .ok m
    else do
      let groups := (state.keyGroups.keys.mergeSort (· ≤ ·)).map fun i =>
        orderGroup position ((state.keyGroups.get? i).getD [])
      let policy ← CachePolicy.onRequestFinished m.pool.policy groups (state.insertedKeys \ state.reusedKeys)
        state.reusedKeys position
      return { m with pool := { m.pool with policy := policy } }.setRequestCacheAccess r { state with finished := true }

def resetCache : Manager P Key Req :=
  { m with pool := m.pool.reset, cacheGeneration := m.cacheGeneration + 1 }

end Manager

end VllmRwkv.Offload
