import VllmRwkv.Lib.Heap
import VllmRwkv.Offload.Policy

/-!
# The LRU policy

`LRUCachePolicy`: a table of chunks, their ranks, the set of evictable keys, and a heap of `(rank, key)`
entries, in which entries of earlier ranks and of pinned or deleted keys stay until they are popped.
-/

namespace VllmRwkv.Offload

open List

open Dict hiding keys

/-- `LRUCachePolicy`. -/
structure Lru (Key : Type) where
  chunks : Dict Key ChunkStatus := .empty
  ranks : Dict Key ℕ := .empty
  evictable : Dict Key Unit := .empty
  heap : List (ℕ × Key) := []
  nextRank : ℕ := 0

namespace Lru

variable {Key : Type}

section Model

variable [DecidableEq Key] [LT Key] [DecidableLT Key]

/-- The order of pairs. -/
def entryLt (a b : ℕ × Key) : Bool := a.1 < b.1 ∨ a.1 = b.1 ∧ a.2 < b.2

section

variable (p : Lru Key)

def assignNewRank (key : Key) : Lru Key × Bool :=
  if key ∈ p.chunks.keys then
    ({ p with nextRank := p.nextRank + 1, ranks := p.ranks.set key (p.nextRank + 1) }, key ∈ p.evictable.keys)
  else (p, false)

/-- `self._ranks[key]`. -/
def rank (key : Key) : Except PyErr ℕ :=
  match p.ranks.get? key with
  | none => .error .keyError
  | some r => .ok r

def pushEvictable (key : Key) : Except PyErr (Lru Key) := do
  return { p with heap := Heap.heappush entryLt p.heap (← p.rank key, key) }

def isCurrent (entry : ℕ × Key) : Bool :=
  entry.2 ∈ p.evictable.keys ∧ p.ranks.get? entry.2 = some entry.1

/-- The heap anew, from the evictable keys. -/
def rebuildHeap : Except PyErr (Lru Key) := do
  let entries ← p.evictable.keys.mapM fun key => do return (← p.rank key, key)
  return { p with heap := Heap.heapify entryLt entries }

def maybeCompactHeap : Except PyErr (Lru Key) :=
  if p.heap.length < max 64 (2 * p.evictable.keys.length) then .ok p else p.rebuildHeap

end

/-- New ranks for the keys, with the evictable ones among them. -/
def assignNewRanks (p : Lru Key) : List Key → Lru Key × List Key
  | [] => (p, [])
  | key :: keys =>
    let (p, isEvictable) := p.assignNewRank key
    let (p, updated) := assignNewRanks p keys
    (p, if isEvictable then key :: updated else updated)

section

variable (p : Lru Key)

def updateRecency (keys : List Key) : Except PyErr (Lru Key) :=
  let (p, updated) := p.assignNewRanks keys
  if max 64 (p.evictable.keys.length / 4) ≤ updated.length then p.rebuildHeap
  else do
    let p ← updated.foldlM pushEvictable p
    p.maybeCompactHeap

def insert (key : Key) (chunk : ChunkStatus) : Except PyErr (Lru Key) :=
  let p := { p with
    chunks := p.chunks.set key chunk
    nextRank := p.nextRank + 1
    ranks := p.ranks.set key (p.nextRank + 1) }
  if chunk.refCnt = 0 then pushEvictable { p with evictable := p.evictable.set key () } key
  else .ok p

def remove (key : Key) : Except PyErr (Lru Key) :=
  if key ∈ p.chunks.keys then
    .ok { p with
      chunks := p.chunks.erase key
      ranks := p.ranks.erase key
      evictable := p.evictable.erase key }
  else .error .keyError

/-- What `evict` has popped. -/
structure Popped (Key : Type) where
  heap : List (ℕ × Key)
  selected : List ((ℕ × Key) × ChunkStatus) := []
  deferred : List (ℕ × Key) := []

/-- The loop of `evict`; an entry is popped in each iteration, so that the length of the heap is fuel enough. -/
def select (p : Lru Key) (n : ℕ) (protect : List Key) : ℕ → Popped Key → Except PyErr (Popped Key)
  | 0, st => .ok st
  | fuel + 1, st =>
    if n ≤ st.selected.length then .ok st
    else match Heap.heappop entryLt st.heap with
      | none => .ok st
      | some (entry, heap) =>
        let st := { st with heap := heap }
        if p.isCurrent entry = false then select p n protect fuel st
        else if entry.2 ∈ st.selected.map fun e => e.1.2 then select p n protect fuel st
        else if entry.2 ∈ protect then
          select p n protect fuel { st with deferred := st.deferred ++ [entry] }
        else match p.chunks.get? entry.2 with
          | none => .error .keyError
          | some chunk =>
            if chunk.refCnt = 0 then
              select p n protect fuel { st with selected := st.selected ++ [(entry, chunk)] }
            else .error (.assertionError "")

def pushAll (heap entries : List (ℕ × Key)) : List (ℕ × Key) := entries.foldl (Heap.heappush entryLt) heap

/-- The selected chunks leave the tables. -/
def discard (p : Lru Key) : List ((ℕ × Key) × ChunkStatus) → Except PyErr (Lru Key)
  | [] => .ok p
  | (entry, _) :: selected =>
    if entry.2 ∈ p.evictable.keys ∧ entry.2 ∈ p.chunks.keys ∧ entry.2 ∈ p.ranks.keys then
      discard { p with
        evictable := p.evictable.erase entry.2
        chunks := p.chunks.erase entry.2
        ranks := p.ranks.erase entry.2 } selected
    else .error .keyError

def evict (n : ℕ) (protect : List Key) : Except PyErr (Lru Key × Option (List (Key × ChunkStatus))) :=
  if n = 0 then .ok (p, some [])
  else do
    let st ← p.select n protect p.heap.length { heap := p.heap }
    if st.selected.length < n then
      return ({ p with heap := pushAll (pushAll st.heap (st.selected.map Prod.fst)) st.deferred }, none)
    else
      let p ← discard { p with heap := pushAll st.heap st.deferred } st.selected
      let p ← p.maybeCompactHeap
      return (p, some (st.selected.map fun e => (e.1.2, e.2)))

end

section

variable (p : Lru Key) (key : Key)

def markEvictable : Except PyErr (Lru Key) := do
  let p ← pushEvictable { p with evictable := p.evictable.set key () } key
  p.maybeCompactHeap

def markNonEvictable : Except PyErr (Lru Key) :=
  if key ∈ p.evictable.keys then .ok { p with evictable := p.evictable.erase key } else .error .keyError

/-- The `ref_cnt` of the object in the table changes. -/
def setRefCnt (n : ℤ) : Lru Key :=
  match p.chunks.get? key with
  | none => p
  | some chunk => { p with chunks := p.chunks.set key { chunk with refCnt := n } }

end

instance : CachePolicy (Lru Key) Key where
  get p key := p.chunks.get? key
  setRefCnt := setRefCnt
  insert := insert
  remove := remove
  touch p keys := p.updateRecency keys.reverse
  -- the default of the base class
  onStoreMiss p keys := p.updateRecency keys.reverse
  onRequestFinished p groups _ _ position := p.updateRecency (orderRequestKeys groups position).reverse
  evict := evict
  clear _ := {}
  markEvictable := markEvictable
  markNonEvictable := markNonEvictable

end Model

/-- The tables agree: the evictable keys are those of the idle chunks, and every resident chunk has a rank. -/
structure Ok (p : Lru Key) : Prop where
  ranks : ∀ k, k ∈ p.ranks.keys ↔ k ∈ p.chunks.keys
  evictable : ∀ k, k ∈ p.evictable.keys ↔ ∃ c, p.chunks.get? k = some c ∧ c.refCnt = 0

/-- The heap apart, and the ranks' values apart, nothing has changed. -/
structure SameChunks (p p' : Lru Key) : Prop where
  chunks : p'.chunks = p.chunks
  evictable : p'.evictable = p.evictable
  ranks : ∀ k, k ∈ p'.ranks.keys ↔ k ∈ p.ranks.keys

/-- Every evictable key has a rank. -/
def Ranked (p : Lru Key) : Prop := ∀ k ∈ p.evictable.keys, k ∈ p.ranks.keys

section Lemmas

variable {p p' p'' : Lru Key} {k : Key} {c : ChunkStatus}

theorem SameChunks.refl (p : Lru Key) : SameChunks p p := ⟨rfl, rfl, fun _ => Iff.rfl⟩

theorem SameChunks.trans (h : SameChunks p p') (h' : SameChunks p' p'') : SameChunks p p'' :=
  ⟨h'.chunks.trans h.chunks, h'.evictable.trans h.evictable, fun k => (h'.ranks k).trans (h.ranks k)⟩

theorem SameChunks.ranked (h : SameChunks p p') (hp : Ranked p) : Ranked p' := by
  intro k hk
  rw [h.evictable] at hk
  exact (h.ranks k).2 (hp k hk)

theorem SameChunks.ok (h : SameChunks p p') (hp : Ok p) : Ok p' := by
  refine ⟨fun k => ?_, fun k => ?_⟩
  · rw [h.ranks, h.chunks]
    exact hp.ranks k
  · rw [h.evictable, h.chunks]
    exact hp.evictable k

theorem Ok.ranked (h : Ok p) : Ranked p := by
  intro k hk
  obtain ⟨c, hc, _⟩ := (h.evictable k).1 hk
  exact (h.ranks k).2 (mem_keys_of_get? hc)

theorem rank_of_mem (h : k ∈ p.ranks.keys) : ∃ r, p.rank k = .ok r := by
  obtain ⟨r, hr⟩ := exists_of_mem_keys h
  exact ⟨r, by unfold rank; rw [hr]⟩

section

variable [DecidableEq Key]

theorem assignNewRanks_spec (keys : List Key) (p : Lru Key) (h : ∀ k, k ∈ p.ranks.keys ↔ k ∈ p.chunks.keys) :
    SameChunks p (p.assignNewRanks keys).1 ∧ ∀ k ∈ (p.assignNewRanks keys).2, k ∈ p.chunks.keys := by
  induction keys generalizing p with
  | nil => exact ⟨SameChunks.refl p, nofun⟩
  | cons key keys ih =>
    have hstep : SameChunks p (p.assignNewRank key).1 ∧ ((p.assignNewRank key).2 → key ∈ p.chunks.keys) := by
      unfold assignNewRank
      split
      next hkey =>
        refine ⟨⟨rfl, rfl, fun k => ?_⟩, fun _ => hkey⟩
        rw [mem_keys_set]
        exact ⟨fun hk => hk.elim (fun heq => heq ▸ (h key).2 hkey) id, .inr⟩
      · exact ⟨SameChunks.refl p, fun hf => absurd hf Bool.false_ne_true⟩
    obtain ⟨hsame, hkey⟩ := hstep
    obtain ⟨hsame', hmem⟩ := ih (p.assignNewRank key).1 fun k => by
      rw [hsame.ranks, hsame.chunks]
      exact h k
    rw [hsame.chunks] at hmem
    refine ⟨hsame.trans hsame', fun k hk => ?_⟩
    change k ∈ (if (p.assignNewRank key).2 then key :: _ else _) at hk
    split_ifs at hk with hevictable
    · rcases mem_cons.1 hk with rfl | hk
      · exact hkey hevictable
      · exact hmem k hk
    · exact hmem k hk

theorem discard_spec (selected : List ((ℕ × Key) × ChunkStatus)) (p : Lru Key) (h : Ok p)
    (hnodup : (selected.map fun e => e.1.2).Nodup)
    (hidle : ∀ e ∈ selected, p.chunks.get? e.1.2 = some e.2 ∧ e.2.refCnt = 0) :
    ∃ p', p.discard selected = .ok p' ∧ Ok p' ∧ p'.chunks = p.chunks.eraseAll (selected.map fun e => e.1.2) := by
  induction selected generalizing p with
  | nil => exact ⟨p, rfl, h, rfl⟩
  | cons e selected ih =>
    obtain ⟨entry, chunk⟩ := e
    obtain ⟨hget, hzero⟩ := hidle _ mem_cons_self
    obtain ⟨hnot, hnodup⟩ := nodup_cons.1 hnodup
    have hmem := mem_keys_of_get? hget
    have hpresent : entry.2 ∈ p.evictable.keys ∧ entry.2 ∈ p.chunks.keys ∧ entry.2 ∈ p.ranks.keys :=
      ⟨(h.evictable _).2 ⟨chunk, hget, hzero⟩, hmem, (h.ranks _).2 hmem⟩
    unfold discard
    rw [if_pos hpresent]
    refine ih _ ⟨fun k => ?_, fun k => ?_⟩ hnodup fun e he => ?_
    · rw [mem_keys_erase, mem_keys_erase, h.ranks]
    · simp only [mem_keys_erase, h.evictable, get?_erase_eq_some, and_assoc, exists_and_left]
    have hne : e.1.2 ≠ entry.2 := fun heq => hnot (mem_map.2 ⟨e, he, heq⟩)
    rw [get?_erase_of_ne hne]
    exact hidle e (mem_cons_of_mem _ he)

/-- A chunk's count changes, and its key is evictable from then on exactly if the count is 0. -/
theorem Ok.recount {p : Lru Key} {k : Key} {c : ChunkStatus} (h : Ok p) (hget : p.chunks.get? k = some c) {n : ℤ}
    {evictable : Dict Key Unit} (hself : k ∈ evictable.keys ↔ n = 0)
    (hother : ∀ k', k' ≠ k → (k' ∈ evictable.keys ↔ k' ∈ p.evictable.keys)) :
    Ok { p with chunks := p.chunks.set k { c with refCnt := n }, evictable := evictable } := by
  refine ⟨fun k' => ?_, fun k' => ?_⟩
  · rw [keys_set_of_mem (mem_keys_of_get? hget)]
    exact h.ranks k'
  rw [get?_set]
  split_ifs with hk
  · simp [hk, hself]
  · rw [hother k' hk, h.evictable]

end

variable [LT Key] [DecidableLT Key]

theorem pushEvictable_spec (h : k ∈ p.ranks.keys) : ∃ p', p.pushEvictable k = .ok p' ∧ SameChunks p p' := by
  obtain ⟨r, hr⟩ := rank_of_mem h
  refine ⟨{ p with heap := Heap.heappush entryLt p.heap (r, k) }, ?_, ⟨rfl, rfl, fun _ => Iff.rfl⟩⟩
  unfold pushEvictable
  rw [hr]
  rfl

theorem rebuildHeap_spec (h : Ranked p) : ∃ p', p.rebuildHeap = .ok p' ∧ SameChunks p p' := by
  have hall : ∀ keys : List Key, (∀ k ∈ keys, k ∈ p.ranks.keys) →
      ∃ entries, keys.mapM (fun key => do return (← p.rank key, key)) = (Except.ok entries : Except PyErr _) := by
    intro keys
    induction keys with
    | nil => exact fun _ => ⟨[], rfl⟩
    | cons k keys ih =>
      intro hkeys
      obtain ⟨r, hr⟩ := rank_of_mem (hkeys k mem_cons_self)
      obtain ⟨entries, hentries⟩ := ih fun k' hk' => hkeys k' (mem_cons_of_mem _ hk')
      refine ⟨(r, k) :: entries, ?_⟩
      rw [mapM_cons, hentries, hr]
      rfl
  obtain ⟨entries, hentries⟩ := hall p.evictable.keys h
  refine ⟨{ p with heap := Heap.heapify entryLt entries }, ?_, ⟨rfl, rfl, fun _ => Iff.rfl⟩⟩
  unfold rebuildHeap
  rw [hentries]
  rfl

theorem maybeCompactHeap_spec (h : Ranked p) : ∃ p', p.maybeCompactHeap = .ok p' ∧ SameChunks p p' := by
  unfold maybeCompactHeap
  split
  · exact ⟨p, rfl, SameChunks.refl p⟩
  · exact rebuildHeap_spec h

theorem foldlM_pushEvictable_spec (keys : List Key) (p : Lru Key) (h : ∀ k ∈ keys, k ∈ p.ranks.keys) :
    ∃ p', keys.foldlM pushEvictable p = .ok p' ∧ SameChunks p p' := by
  induction keys generalizing p with
  | nil => exact ⟨p, rfl, SameChunks.refl p⟩
  | cons k keys ih =>
    obtain ⟨p₁, hpush, hsame⟩ := pushEvictable_spec (h k mem_cons_self)
    obtain ⟨p₂, hrest, hsame'⟩ := ih p₁ fun k' hk' => (hsame.ranks k').2 (h k' (mem_cons_of_mem _ hk'))
    refine ⟨p₂, ?_, hsame.trans hsame'⟩
    rw [foldlM_cons, hpush]
    exact hrest

variable [DecidableEq Key]

theorem updateRecency_spec (keys : List Key) (h : Ok p) :
    ∃ p', p.updateRecency keys = .ok p' ∧ Ok p' ∧ p'.chunks.get? = p.chunks.get? := by
  obtain ⟨hsame, hmem⟩ := assignNewRanks_spec keys p h.ranks
  have hkept {p' : Lru Key} (hsame' : SameChunks p p') : Ok p' ∧ p'.chunks.get? = p.chunks.get? :=
    ⟨hsame'.ok h, congrArg Dict.get? hsame'.chunks⟩
  unfold updateRecency
  dsimp only
  split
  · obtain ⟨p', hp', hsame'⟩ := rebuildHeap_spec (hsame.ranked h.ranked)
    exact ⟨p', hp', hkept (hsame.trans hsame')⟩
  obtain ⟨p₁, hfold, hsame₁⟩ := foldlM_pushEvictable_spec _ (p.assignNewRanks keys).1 fun k hk =>
    (hsame.ranks k).2 ((h.ranks k).2 (hmem k hk))
  obtain ⟨p₂, hcompact, hsame₂⟩ := maybeCompactHeap_spec ((hsame.trans hsame₁).ranked h.ranked)
  refine ⟨p₂, ?_, hkept ((hsame.trans hsame₁).trans hsame₂)⟩
  rw [hfold]
  exact hcompact

/-! ## Eviction -/

/-- What is selected: idle, unprotected chunks, each once. -/
structure Selected (p : Lru Key) (protect : List Key) (selected : List ((ℕ × Key) × ChunkStatus)) : Prop where
  nodup : (selected.map fun e => e.1.2).Nodup
  idle : ∀ e ∈ selected, p.chunks.get? e.1.2 = some e.2 ∧ e.2.refCnt = 0 ∧ e.1.2 ∉ protect

theorem select_spec (h : Ok p) (n : ℕ) (protect : List Key) (fuel : ℕ) (st : Popped Key)
    (hst : Selected p protect st.selected) (hle : st.selected.length ≤ n) :
    ∃ st', p.select n protect fuel st = .ok st' ∧ Selected p protect st'.selected ∧ st'.selected.length ≤ n := by
  induction fuel generalizing st with
  | zero => exact ⟨st, rfl, hst, hle⟩
  | succ fuel ih =>
    unfold select
    split_ifs with hmore
    · exact ⟨st, rfl, hst, hle⟩
    split
    · exact ⟨st, rfl, hst, hle⟩
    rename_i entry heap _
    dsimp only
    split
    · exact ih _ hst hle
    rename_i hcurrent
    split
    · exact ih _ hst hle
    rename_i hnew
    split_ifs with hprotect
    · exact ih _ hst hle
    -- a current entry is of an idle chunk
    have hevictable : entry.2 ∈ p.evictable.keys := by
      have hc := Bool.eq_true_of_not_eq_false hcurrent
      exact (of_decide_eq_true hc).1
    obtain ⟨c, hc, hidle⟩ := (h.evictable entry.2).1 hevictable
    rw [hc]
    dsimp only
    rw [if_pos hidle]
    refine ih _ ⟨?_, fun e he => ?_⟩ ?_
    · rw [map_append]
      refine nodup_append.2 ⟨hst.nodup, nodup_singleton _, ?_⟩
      rintro a ha b hb rfl
      rw [map_singleton, mem_singleton] at hb
      exact hnew (hb ▸ ha)
    · rcases mem_append.1 he with he | he
      · exact hst.idle e he
      · rw [mem_singleton] at he
        subst he
        exact ⟨hc, hidle, hprotect⟩
    · rw [length_append, length_singleton]
      omega

theorem evict_spec (n : ℕ) (protect : List Key) (h : Ok p) :
    ∃ p' out, p.evict n protect = .ok (p', out) ∧ Ok p' ∧ (out = none → p'.chunks.get? = p.chunks.get?) ∧
      ∀ evicted, out = some evicted → evicted.length = n ∧ (evicted.map Prod.fst).Nodup ∧
        (∀ e ∈ evicted, p.chunks.get? e.1 = some e.2 ∧ e.2.refCnt = 0 ∧ e.1 ∉ protect) ∧
        p'.chunks.get? = (p.chunks.eraseAll (evicted.map Prod.fst)).get? := by
  unfold evict
  split_ifs with hn
  · refine ⟨p, some [], rfl, h, nofun, ?_⟩
    rintro evicted heq
    cases heq
    exact ⟨hn.symm, nodup_nil, nofun, rfl⟩
  obtain ⟨st, hselect, hsel, hle⟩ := select_spec h n protect p.heap.length { heap := p.heap }
    ⟨nodup_nil, nofun⟩ (Nat.zero_le n)
  rw [hselect]
  by_cases hfew : st.selected.length < n
  · refine ⟨{ p with heap := pushAll (pushAll st.heap (st.selected.map Prod.fst)) st.deferred }, none, ?_,
      ⟨h.ranks, h.evictable⟩, fun _ => rfl, nofun⟩
    show (if st.selected.length < n then _ else _) = _
    rw [if_pos hfew]
    rfl
  have hlen : st.selected.length = n := by omega
  obtain ⟨p₁, hdiscard, hok₁, hchunks⟩ := discard_spec st.selected
    { p with heap := pushAll st.heap st.deferred } ⟨h.ranks, h.evictable⟩ hsel.nodup
    fun e he => ⟨(hsel.idle e he).1, (hsel.idle e he).2.1⟩
  obtain ⟨p₂, hcompact, hsame⟩ := maybeCompactHeap_spec hok₁.ranked
  have hkeys : (st.selected.map fun e => (e.1.2, e.2)).map Prod.fst = st.selected.map fun e => e.1.2 := map_map
  refine ⟨p₂, some (st.selected.map fun e => (e.1.2, e.2)), ?_, hsame.ok hok₁, nofun, ?_⟩
  · show (if st.selected.length < n then _ else _) = _
    rw [if_neg hfew, hdiscard]
    show (p₁.maybeCompactHeap >>= _) = _
    rw [hcompact]
    rfl
  intro evicted heq
  cases heq
  refine ⟨by rw [length_map, hlen], by rw [hkeys]; exact hsel.nodup, fun e he => ?_, ?_⟩
  · obtain ⟨e', he', rfl⟩ := mem_map.1 he
    exact hsel.idle e' he'
  · rw [hkeys, hsame.chunks, hchunks]

/-! ## The laws -/

theorem setRefCnt_of_get? {p : Lru Key} {k : Key} {c : ChunkStatus} (hget : p.chunks.get? k = some c) (n : ℤ) :
    CachePolicy.setRefCnt p k n = { p with chunks := p.chunks.set k { c with refCnt := n } } := by
  show setRefCnt p k n = _
  unfold setRefCnt
  rw [hget]

instance : LawfulCachePolicy (Lru Key) Key where
  table := chunks
  Ok := Ok
  get_eq _ _ := rfl
  insert_spec := by
    intro p k c h hnone hc
    refine ⟨_, if_neg hc, ⟨fun k' => ?_, fun k' => ?_⟩, rfl⟩
    · show k' ∈ (p.ranks.set k _).keys ↔ k' ∈ (p.chunks.set k c).keys
      rw [Dict.mem_keys_set, Dict.mem_keys_set, h.ranks]
    show k' ∈ p.evictable.keys ↔ ∃ c', (p.chunks.set k c).get? k' = some c' ∧ c'.refCnt = 0
    rw [h.evictable, Dict.get?_set]
    split_ifs with hk
    · simp [hk, hnone, hc]
    · rfl
  remove_spec := by
    intro p k c h hget
    refine ⟨_, if_pos (Dict.mem_keys_of_get? hget), ⟨fun k' => ?_, fun k' => ?_⟩, rfl⟩
    · show k' ∈ (p.ranks.erase k).keys ↔ k' ∈ (p.chunks.erase k).keys
      rw [Dict.mem_keys_erase, Dict.mem_keys_erase, h.ranks]
    show k' ∈ (p.evictable.erase k).keys ↔ ∃ c', (p.chunks.erase k).get? k' = some c' ∧ c'.refCnt = 0
    simp only [Dict.mem_keys_erase, h.evictable, Dict.get?_erase_eq_some, and_assoc, exists_and_left]
  touch_spec := fun keys h => updateRecency_spec keys.reverse h
  onStoreMiss_spec := fun keys h => updateRecency_spec keys.reverse h
  onRequestFinished_spec := fun groups _ _ position h => updateRecency_spec (orderRequestKeys groups position).reverse h
  evict_spec := fun n protect h => evict_spec n protect h
  clear_spec _ := ⟨⟨fun _ => Iff.rfl, fun _ => by
    show _ ∈ [] ↔ ∃ c, none = some c ∧ _
    simp⟩, rfl⟩
  setRefCnt_spec := by
    intro p k c n h hget hc hn
    rw [setRefCnt_of_get? hget]
    have hself : k ∉ p.evictable.keys := by
      rw [h.evictable, hget]
      rintro ⟨c', hc', hzero⟩
      cases hc'
      exact hc hzero
    exact ⟨h.recount hget (iff_of_false hself hn) fun _ _ => Iff.rfl, rfl⟩
  markNonEvictable_spec := by
    intro p k c n h hget hc hn
    refine ⟨_, if_pos ((h.evictable k).2 ⟨c, hget, hc⟩), ?_⟩
    rw [setRefCnt_of_get? (p := { p with evictable := p.evictable.erase k }) hget]
    refine ⟨h.recount hget (iff_of_false (fun hk => (Dict.mem_keys_erase.1 hk).1 rfl) hn) fun k' hk => ?_, rfl⟩
    rw [Dict.mem_keys_erase]
    exact and_iff_right hk
  markEvictable_spec := by
    intro p k c h hget hc
    have hmem : k ∈ p.ranks.keys := (h.ranks k).2 (Dict.mem_keys_of_get? hget)
    have hok : Ok { p with
        chunks := p.chunks.set k { c with refCnt := 0 }, evictable := p.evictable.set k () } :=
      h.recount hget (iff_of_true (Dict.mem_keys_set.2 (.inl rfl)) rfl) fun k' hk => by
        rw [Dict.mem_keys_set]
        exact or_iff_right hk
    obtain ⟨p₁, hpush, hsame⟩ := pushEvictable_spec (p := { p with
        chunks := p.chunks.set k { c with refCnt := 0 }, evictable := p.evictable.set k () }) (k := k) hmem
    obtain ⟨p₂, hcompact, hsame'⟩ := maybeCompactHeap_spec (hsame.ok hok).ranked
    refine ⟨p₂, ?_, hsame'.ok (hsame.ok hok), by rw [hsame'.chunks, hsame.chunks]⟩
    rw [setRefCnt_of_get? hget]
    show (pushEvictable _ k >>= _) = _
    rw [hpush]
    exact hcompact

end Lemmas

end Lru

end VllmRwkv.Offload
