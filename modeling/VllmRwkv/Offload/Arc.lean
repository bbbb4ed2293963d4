import VllmRwkv.Offload.Policy

/-!
# The ARC policy

`ARCCachePolicy`: chunks used once in `t1`, chunks used again in `t2`, the keys lately evicted from them in
the ghost lists `b1` and `b2`, and a target size for `t1` that follows the hits in the ghost lists. The
target is a float with its arithmetic left open (`FloatOps`), exact where the runs of the policy are bounded.
-/

namespace VllmRwkv.Offload

open List Dict

/-- The arithmetic of Python's floats, as far as the target size needs it. -/
class FloatOps (F : Type) where
  ofNat : ℕ → F
  add : F → F → F
  sub : F → F → F
  /-- Quotient of two integers. -/
  div : ℕ → ℕ → F
  max : F → F → F
  min : F → F → F
  /-- `int` -/
  toInt : F → ℤ

/-- `ARCCachePolicy`. -/
structure Arc (F Key : Type) where
  cacheCapacity : ℕ
  targetT1Size : F
  t1 : Dict Key ChunkStatus := .empty
  t2 : Dict Key ChunkStatus := .empty
  b1 : Dict Key Unit := .empty
  b2 : Dict Key Unit := .empty

/-- Exact arithmetic. -/
instance : FloatOps Rat where
  ofNat n := n
  add a b := a + b
  sub a b := a - b
  div a b := a / b
  max a b := if a < b then b else a
  min a b := if b < a then b else a
  toInt q := q.num.tdiv q.den

theorem floatMax (a b : ℚ) : FloatOps.max a b = max a b := (max_def_lt a b).symm

theorem floatMin (a b : ℚ) : FloatOps.min a b = min a b := (min_def_lt b a).symm.trans (min_comm b a)

namespace Arc

variable {F Key : Type} [DecidableEq Key]

section Model

variable [FloatOps F]

section

variable (p : Arc F Key)

def insert (key : Key) (chunk : ChunkStatus) : Arc F Key :=
  { p with t1 := p.t1.set key chunk, b1 := p.b1.erase key, b2 := p.b2.erase key }

def remove (key : Key) : Arc F Key :=
  match p.t1.get? key with
  | some _ => { p with t1 := p.t1.erase key }
  | none => { p with t2 := p.t2.erase key }

def adaptToGhostHit (key : Key) : Arc F Key :=
  if key ∈ p.b1.keys then
    let delta := FloatOps.max (FloatOps.ofNat 1) (FloatOps.div p.b2.keys.length p.b1.keys.length)
    { p with
      targetT1Size := FloatOps.min (FloatOps.add p.targetT1Size delta) (FloatOps.ofNat p.cacheCapacity)
      b1 := p.b1.moveToEnd key }
  else if key ∈ p.b2.keys then
    let delta := FloatOps.max (FloatOps.ofNat 1) (FloatOps.div p.b1.keys.length p.b2.keys.length)
    { p with
      targetT1Size := FloatOps.max (FloatOps.sub p.targetT1Size delta) (FloatOps.ofNat 0)
      b2 := p.b2.moveToEnd key }
  else p

def onStoreMiss (keys : List Key) : Arc F Key := keys.reverse.foldl adaptToGhostHit p

def touchKey (key : Key) : Arc F Key :=
  match p.t1.get? key with
  | some chunk =>
    if chunk.isReady = false then { p with t1 := (p.t1.erase key).set key chunk }
    else { p with t1 := p.t1.erase key, t2 := p.t2.set key chunk }
  | none => if key ∈ p.t2.keys then { p with t2 := p.t2.moveToEnd key } else p.adaptToGhostHit key

def touch (keys : List Key) : Arc F Key := keys.reverse.foldl touchKey p

end

def finishKey (inserted reused : Finset Key) (p : Arc F Key) (key : Key) : Arc F Key :=
  if key ∈ inserted then
    if key ∈ p.t1.keys then { p with t1 := p.t1.moveToEnd key }
    else if key ∈ p.t2.keys then { p with t2 := p.t2.moveToEnd key }
    else p
  else
    match p.t1.get? key with
    | some chunk => if key ∈ reused then { p with t1 := p.t1.erase key, t2 := p.t2.set key chunk } else p
    | none => if key ∈ reused ∧ key ∈ p.t2.keys then { p with t2 := p.t2.moveToEnd key } else p

def onRequestFinished (p : Arc F Key) (groups : List (List Key)) (inserted reused : Finset Key)
    (position : Key → Option ℕ) : Arc F Key :=
  (orderRequestKeys groups position).reverse.foldl (finishKey inserted reused) p

/-- `next_candidate`: the next idle, unprotected entry, and where the iterator is then. -/
def nextCandidate (protect : List Key) :
    List (Key × ChunkStatus) → Option (Key × ChunkStatus) × List (Key × ChunkStatus)
  | [] => (none, [])
  | entry :: entries =>
    if entry.2.refCnt = 0 ∧ entry.1 ∉ protect then (some entry, entries) else nextCandidate protect entries

/-- The loop of `evict`: candidates, each with whether it is from `t1`, from the iterators over `t1` and `t2`. -/
def candidates (target : ℤ) (protect : List Key) :
    ℕ → ℤ → List (Key × ChunkStatus) → List (Key × ChunkStatus) → Option (List ((Key × ChunkStatus) × Bool))
  | 0, _, _, _ => some []
  | n + 1, virtualT1Size, t1, t2 =>
    let first := if target ≤ virtualT1Size then nextCandidate protect t1 else (none, t1)
    match first with
    | (some entry, t1) => (candidates target protect n (virtualT1Size - 1) t1 t2).map ((entry, true) :: ·)
    | (none, t1) =>
      match nextCandidate protect t2 with
      | (some entry, t2) => (candidates target protect n virtualT1Size t1 t2).map ((entry, false) :: ·)
      | (none, t2) =>
        match nextCandidate protect t1 with
        | (some entry, t1) => (candidates target protect n (virtualT1Size - 1) t1 t2).map ((entry, true) :: ·)
        | (none, _) => none

/-- A candidate leaves for its ghost list. -/
def apply (p : Arc F Key) : List ((Key × ChunkStatus) × Bool) → Except PyErr (Arc F Key)
  | [] => .ok p
  | ((key, _), fromT1) :: rest =>
    if fromT1 then
      if key ∈ p.t1.keys then apply { p with t1 := p.t1.erase key, b1 := p.b1.set key () } rest
      else .error .keyError
    else
      if key ∈ p.t2.keys then apply { p with t2 := p.t2.erase key, b2 := p.b2.set key () } rest
      else .error .keyError

/-- A ghost list keeps the last `capacity` keys. -/
def trim (ghost : Dict Key Unit) (capacity : ℕ) : Dict Key Unit :=
  ghost.eraseAll (ghost.keys.take (ghost.keys.length - capacity))

def evict (p : Arc F Key) (n : ℕ) (protect : List Key) : Except PyErr (Arc F Key × Option (List (Key × ChunkStatus))) :=
  if n = 0 then .ok (p, some [])
  else
    match candidates (FloatOps.toInt p.targetT1Size) protect n p.t1.keys.length p.t1.items p.t2.items with
    | none => .ok (p, none)
    | some found => do
      let p ← p.apply found
      return ({ p with b1 := trim p.b1 p.cacheCapacity, b2 := trim p.b2 p.cacheCapacity }, some (found.map Prod.fst))

/-- The `ref_cnt` of the object in `t1` or `t2` changes. -/
def setRefCnt (p : Arc F Key) (key : Key) (n : ℤ) : Arc F Key :=
  match p.t1.get? key with
  | some chunk => { p with t1 := p.t1.set key { chunk with refCnt := n } }
  | none =>
    match p.t2.get? key with
    | some chunk => { p with t2 := p.t2.set key { chunk with refCnt := n } }
    | none => p

instance : CachePolicy (Arc F Key) Key where
  get p key := (p.t1.get? key).or (p.t2.get? key)
  setRefCnt := setRefCnt
  insert p key chunk := .ok (p.insert key chunk)
  remove p key := .ok (p.remove key)
  touch p keys := .ok (p.touch keys)
  onStoreMiss p keys := .ok (p.onStoreMiss keys)
  onRequestFinished p groups inserted reused position := .ok (p.onRequestFinished groups inserted reused position)
  evict := evict
  clear p := { cacheCapacity := p.cacheCapacity, targetT1Size := FloatOps.ofNat 0 }
  -- the defaults of the base class
  markEvictable p _ := .ok p
  markNonEvictable p _ := .ok p

end Model

/-- No chunk is in both tables. -/
def Ok (p : Arc F Key) : Prop := ∀ k, k ∈ p.t1.keys → p.t2.get? k = none

def table (p : Arc F Key) : Dict Key ChunkStatus := p.t1.orElse p.t2

/-- Entries, each with whether it is from `t1`. -/
abbrev Found (Key : Type) := List ((Key × ChunkStatus) × Bool)

/-- What an access does: a key moves to the end of its list, or from `t1` to `t2`. -/
inductive Accessed [FloatOps F] (p : Arc F Key) : Arc F Key → Prop
  | none : Accessed p p
  | t1 (k) : Accessed p { p with t1 := p.t1.moveToEnd k }
  | t2 (k) : Accessed p { p with t2 := p.t2.moveToEnd k }
  | promote {k c} (h : p.t1.get? k = some c) : Accessed p { p with t1 := p.t1.erase k, t2 := p.t2.set k c }
  | ghost (k) : Accessed p (p.adaptToGhostHit k)

section Lemmas

variable {p : Arc F Key} {k : Key} {c : ChunkStatus}
  {found : Found Key} {protect : List Key} {entry : Key × ChunkStatus}

theorem get?_table (p : Arc F Key) (k : Key) : p.table.get? k = (p.t1.get? k).or (p.t2.get? k) := rfl

omit [DecidableEq Key] in
theorem Ok.get?_t1 (h : Ok p) (hget : p.t2.get? k = some c) : p.t1.get? k = none := by
  refine not_mem_keys_iff.1 fun hk => ?_
  rw [h k hk] at hget
  cases hget

theorem Ok.congr {p' : Arc F Key} (h : Ok p) (h₁ : p'.t1.get? = p.t1.get?) (h₂ : p'.t2.get? = p.t2.get?) :
    Ok p' ∧ p'.table.get? = p.table.get? := by
  constructor
  · intro k hk
    rw [h₂]
    refine h k ?_
    rw [Dict.mem_keys] at hk ⊢
    rw [← h₁]
    exact hk
  · funext k
    rw [get?_table, get?_table, h₁, h₂]

theorem Ok.promote (h : Ok p) (hget : p.t1.get? k = some c) : Ok { p with t1 := p.t1.erase k, t2 := p.t2.set k c } ∧
      ({ p with t1 := p.t1.erase k, t2 := p.t2.set k c } : Arc F Key).table.get? = p.table.get? := by
  constructor
  · intro k' hk'
    obtain ⟨hne, hmem⟩ := mem_keys_erase.1 hk'
    rw [get?_set_of_ne hne]
    exact h k' hmem
  funext k'
  show ((p.t1.erase k).get? k').or ((p.t2.set k c).get? k') = (p.t1.get? k').or (p.t2.get? k')
  rw [get?_erase, get?_set]
  split_ifs with hk
  · rw [hk, hget]
    rfl
  · rfl

/-! ## Eviction -/

section

variable (protect : List Key) (entries : List (Key × ChunkStatus))

/-- The idle, unprotected entries. -/
def evictable : List (Key × ChunkStatus) :=
  entries.filter fun e => e.2.refCnt = 0 ∧ e.1 ∉ protect

/-- The candidate is the next one of the iterator, which goes on after it. -/
theorem nextCandidate_spec : evictable protect entries =
        (nextCandidate protect entries).1.toList ++ evictable protect (nextCandidate protect entries).2 ∧
      ((nextCandidate protect entries).1 = none → (nextCandidate protect entries).2 = []) := by
  induction entries with
  | nil => exact ⟨rfl, fun _ => rfl⟩
  | cons e entries ih =>
    unfold nextCandidate
    split_ifs with he
    · exact ⟨filter_cons_of_pos (by simpa using he), nofun⟩
    · have hskip : evictable protect (e :: entries) = evictable protect entries :=
        filter_cons_of_neg (by simpa using he)
      rw [hskip]
      exact ih

end

section

variable (n : ℕ) (t1 t2 : List (Key × ChunkStatus))

/-- The candidates: `n` entries, each from one of the two lists. -/
structure Candidates (found : Found Key) : Prop where
  length : found.length = n
  subperm : (found.map Prod.fst).Subperm (t1 ++ t2)
  origin : ∀ e ∈ found, if e.2 then e.1 ∈ t1 else e.1 ∈ t2

/-- What the search answers: candidates if and only if enough entries may be evicted. -/
def Finds (answer : Option (Found Key)) : Prop :=
  (∀ found, answer = some found → Candidates n t1 t2 found) ∧ (answer.isSome ↔ n ≤ t1.length + t2.length)

end

section Finds

omit [DecidableEq Key]

variable {n : ℕ} {t1 t2 : List (Key × ChunkStatus)} {answer : Option (Found Key)}

theorem Finds.consT1 (h : Finds n t1 t2 answer) : Finds (n + 1) (entry :: t1) t2 (answer.map ((entry, true) :: ·)) := by
  refine ⟨fun found hfound => ?_, by rw [Option.isSome_map, h.2, length_cons]; omega⟩
  obtain ⟨rest, hrest, rfl⟩ := Option.map_eq_some_iff.1 hfound
  obtain ⟨hlength, hsub, horigin⟩ := h.1 rest hrest
  refine ⟨congrArg (· + 1) hlength, (subperm_cons entry).2 hsub, forall_mem_cons.2 ⟨mem_cons_self, fun e he => ?_⟩⟩
  have hold := horigin e he
  split_ifs at hold ⊢
  · exact mem_cons_of_mem _ hold
  · exact hold

theorem Finds.consT2 (h : Finds n t1 t2 answer) : Finds (n + 1) t1 (entry :: t2) (answer.map ((entry, false) :: ·)) := by
  refine ⟨fun found hfound => ?_, by rw [Option.isSome_map, h.2, length_cons]; omega⟩
  obtain ⟨rest, hrest, rfl⟩ := Option.map_eq_some_iff.1 hfound
  obtain ⟨hlength, hsub, horigin⟩ := h.1 rest hrest
  refine ⟨congrArg (· + 1) hlength, ((subperm_cons entry).2 hsub).trans perm_middle.symm.subperm,
    forall_mem_cons.2 ⟨mem_cons_self, fun e he => ?_⟩⟩
  have hold := horigin e he
  split_ifs at hold ⊢
  · exact hold
  · exact mem_cons_of_mem _ hold

end Finds

theorem candidates_spec (target : ℤ) (protect : List Key) (n : ℕ) (v : ℤ) (t1 t2 : List (Key × ChunkStatus)) :
    Finds n (evictable protect t1) (evictable protect t2) (candidates target protect n v t1 t2) := by
  induction n generalizing v t1 t2 with
  | zero =>
    refine ⟨fun found h => ?_, iff_of_true rfl (Nat.zero_le _)⟩
    cases h
    exact ⟨rfl, nil_subperm, nofun⟩
  | succ n ih =>
    unfold candidates
    dsimp only
    -- the iterator over `t1`, whether or not it is asked first
    have hfirst : ∀ (entry : Option (Key × ChunkStatus)) t1',
        (if target ≤ v then nextCandidate protect t1 else (none, t1)) = (entry, t1') →
          evictable protect t1 = entry.toList ++ evictable protect t1' := by
      intro entry t1' heq
      split at heq
      · obtain ⟨rfl, rfl⟩ := Prod.mk.inj heq
        exact (nextCandidate_spec protect t1).1
      · cases heq
        rfl
    obtain ⟨h₂, h₂nil⟩ := nextCandidate_spec protect t2
    split
    next entry t1' heq =>
      rw [hfirst _ _ heq]
      exact (ih (v - 1) t1' t2).consT1
    rename_i t1' heq
    rw [hfirst _ _ heq]
    split
    next entry t2' heq₂ =>
      rw [heq₂] at h₂
      rw [h₂]
      exact (ih v t1' t2').consT2
    rename_i t2' heq₂
    rw [heq₂] at h₂ h₂nil
    rw [h₂]
    obtain ⟨h₁, h₁nil⟩ := nextCandidate_spec protect t1'
    split
    next entry t1'' heq₁ =>
      rw [heq₁] at h₁
      rw [h₁]
      exact (ih (v - 1) t1'' t2').consT1
    next t1'' heq₁ =>
      rw [heq₁] at h₁ h₁nil
      rw [h₁, h₁nil rfl, h₂nil rfl]
      exact ⟨nofun, iff_of_false nofun (Nat.not_succ_le_zero n)⟩

/-- Where a candidate is. -/
def Present (p : Arc F Key) (e : (Key × ChunkStatus) × Bool) : Prop :=
  if e.2 then p.t1.get? e.1.1 = some e.1.2 else p.t2.get? e.1.1 = some e.1.2

/-- The keys of the candidates from one of the tables. -/
def leaving (fromT1 : Bool) (found : Found Key) : List Key :=
  (found.filter (·.2 = fromT1)).map (·.1.1)

def addAll (ghost : Dict Key Unit) (keys : List Key) : Dict Key Unit := keys.foldl (fun d k => d.set k ()) ghost

omit [DecidableEq Key] in
theorem mem_leaving {fromT1 : Bool} : k ∈ leaving fromT1 found ↔ ∃ c, ((k, c), fromT1) ∈ found := by
  simp [leaving]

/-- The policy without some entries, the ghost lists not yet trimmed. -/
def withoutEntries (p : Arc F Key) (found : Found Key) : Arc F Key :=
  { p with
    t1 := p.t1.eraseAll (leaving true found), t2 := p.t2.eraseAll (leaving false found)
    b1 := addAll p.b1 (leaving true found), b2 := addAll p.b2 (leaving false found) }

theorem apply_eq (found : Found Key) (p : Arc F Key)
    (hnodup : (found.map fun e => e.1.1).Nodup) (hpresent : ∀ e ∈ found, Present p e) :
    p.apply found = .ok (p.withoutEntries found) := by
  induction found generalizing p with
  | nil => rfl
  | cons e found ih =>
    obtain ⟨⟨key, chunk⟩, fromT1⟩ := e
    obtain ⟨hnot, hrestNodup⟩ := nodup_cons.1 hnodup
    have hne (e : (Key × ChunkStatus) × Bool) (he : e ∈ found) : e.1.1 ≠ key :=
      fun heq => hnot (mem_map.2 ⟨e, he, heq⟩)
    have hhere := hpresent _ mem_cons_self
    have hrest := fun e he => hpresent e (mem_cons_of_mem _ he)
    unfold apply
    cases fromT1 with
    | true =>
      rw [if_pos rfl, if_pos (mem_keys_of_get? hhere)]
      refine ih _ hrestNodup fun e he => ?_
      unfold Present
      rw [get?_erase_of_ne (hne e he)]
      exact hrest e he
    | false =>
      rw [if_neg (by decide), if_pos (mem_keys_of_get? hhere)]
      refine ih _ hrestNodup fun e he => ?_
      unfold Present
      rw [get?_erase_of_ne (hne e he)]
      exact hrest e he

/-- The table without the candidates. -/
theorem table_leaving (h : Ok p) (hpresent : ∀ e ∈ found, Present p e) :
    (p.withoutEntries found).table.get? = (p.table.eraseAll (found.map fun e => e.1.1)).get? := by
  funext k
  show ((p.t1.eraseAll _).get? k).or ((p.t2.eraseAll _).get? k) = _
  rw [get?_eraseAll, get?_eraseAll, get?_eraseAll, get?_table]
  by_cases hk : k ∈ found.map fun e => e.1.1
  · rw [if_pos hk]
    obtain ⟨⟨⟨_, c⟩, fromT1⟩, he, rfl⟩ := mem_map.1 hk
    have hhere := hpresent _ he
    cases fromT1 with
    | true =>
      rw [if_pos (mem_leaving.2 ⟨c, he⟩), h _ (mem_keys_of_get? hhere), ite_self]
      rfl
    | false =>
      rw [h.get?_t1 hhere, ite_self, if_pos (mem_leaving.2 ⟨c, he⟩)]
      rfl
  · have hout (fromT1 : Bool) : k ∉ leaving fromT1 found := by
      intro hin
      obtain ⟨c, he⟩ := mem_leaving.1 hin
      exact hk (mem_map.2 ⟨_, he, rfl⟩)
    rw [if_neg (hout _), if_neg (hout _), if_neg hk]

/-- What is evicted: `n` idle, unprotected entries of the tables, each once. -/
structure Chosen (p : Arc F Key) (n : ℕ) (protect : List Key) (found : Found Key) : Prop where
  length : found.length = n
  nodup : (found.map fun e => e.1.1).Nodup
  present : ∀ e ∈ found, Present p e
  idle : ∀ e ∈ found, e.1.2.refCnt = 0 ∧ e.1.1 ∉ protect

theorem Candidates.chosen {n : ℕ} (h : Candidates n (evictable protect p.t1.items) (evictable protect p.t2.items) found)
    (hp : Ok p) : Chosen p n protect found := by
  have hall (e : (Key × ChunkStatus) × Bool) (he : e ∈ found) : Present p e ∧ e.1.2.refCnt = 0 ∧ e.1.1 ∉ protect := by
    have horigin := h.origin e he
    unfold Present
    split_ifs at horigin ⊢ <;> obtain ⟨hin, hidle⟩ := mem_filter.1 horigin <;>
      exact ⟨mem_items.1 hin, of_decide_eq_true hidle⟩
  refine ⟨h.length, ?_, fun e he => (hall e he).1, fun e he => (hall e he).2⟩
  obtain ⟨entries, hperm, hsub⟩ := h.subperm
  have hkeys := (hsub.trans (filter_sublist.append filter_sublist)).map Prod.fst
  rw [map_append, map_fst_items, map_fst_items] at hkeys
  have hnodup : (p.t1.keys ++ p.t2.keys).Nodup := by
    refine nodup_append.2 ⟨p.t1.nodup, p.t2.nodup, ?_⟩
    rintro k h₁ _ h₂ rfl
    exact not_mem_keys_iff.2 (hp k h₁) h₂
  have hperm' := hperm.map Prod.fst
  rw [map_map] at hperm'
  exact hperm'.nodup_iff.1 (hnodup.sublist hkeys)

omit [DecidableEq Key] in
theorem Chosen.mem_t1 {n : ℕ} (h : Chosen p n protect found) (hk : k ∈ leaving true found) : k ∈ p.t1.keys := by
  obtain ⟨_, he⟩ := mem_leaving.1 hk
  exact mem_keys_of_get? (h.present _ he)

omit [DecidableEq Key] in
theorem Chosen.mem_t2 {n : ℕ} (h : Chosen p n protect found) (hk : k ∈ leaving false found) : k ∈ p.t2.keys := by
  obtain ⟨_, he⟩ := mem_leaving.1 hk
  exact mem_keys_of_get? (h.present _ he)

theorem Present.get?_table {e : (Key × ChunkStatus) × Bool} (h : Present p e) (hp : Ok p) :
    p.table.get? e.1.1 = some e.1.2 := by
  rw [Arc.get?_table]
  unfold Present at h
  split at h
  · rw [h]
    rfl
  · rw [hp.get?_t1 h]
    exact h

theorem setRefCnt_spec {n : ℤ} (h : Ok p) (hget : p.table.get? k = some c) :
    Ok (p.setRefCnt k n) ∧ (p.setRefCnt k n).table.get? = (p.table.set k { c with refCnt := n }).get? := by
  rw [get?_table] at hget
  unfold setRefCnt
  split
  next chunk h₁ =>
    rw [h₁] at hget
    obtain rfl := Option.some.inj hget
    constructor
    · intro k' hk'
      refine h k' ?_
      have hkeys := keys_set_of_mem (v := { chunk with refCnt := n }) (mem_keys_of_get? h₁)
      rwa [hkeys] at hk'
    funext k'
    show ((p.t1.set k _).get? k').or (p.t2.get? k') = _
    rw [get?_set, get?_set]
    split_ifs <;> rfl
  next h₁ =>
    rw [h₁] at hget
    change p.t2.get? k = some c at hget
    rw [hget]
    constructor
    · intro k' hk'
      have hne : k' ≠ k := by
        rintro rfl
        exact not_mem_keys_iff.2 h₁ hk'
      rw [get?_set_of_ne hne]
      exact h k' hk'
    funext k'
    show (p.t1.get? k').or ((p.t2.set k _).get? k') = _
    rw [get?_set, get?_set]
    split_ifs with hk
    · rw [hk, h₁]
      rfl
    · rfl

/-- A key is in at most one of the tables. -/
theorem Ok.remove_eq (h : Ok p) (k : Key) : p.remove k = { p with t1 := p.t1.erase k, t2 := p.t2.erase k } := by
  unfold remove
  split
  next hget => rw [erase_of_get?_eq_none (h k (mem_keys_of_get? hget))]
  next hnone => rw [erase_of_get?_eq_none hnone]

variable [FloatOps F]

theorem finishKey_accessed (inserted reused : Finset Key) (p : Arc F Key) (key : Key) :
    Accessed p (p.finishKey inserted reused key) := by
  unfold finishKey
  split
  · split
    · exact .t1 key
    · split
      · exact .t2 key
      · exact .none
  split
  next chunk hget =>
    split
    · exact .promote hget
    · exact .none
  · split
    · exact .t2 key
    · exact .none

theorem touchKey_accessed (p : Arc F Key) (key : Key) : Accessed p (p.touchKey key) := by
  unfold touchKey
  split
  next chunk hget =>
    split
    · have hmove : p.t1.moveToEnd key = (p.t1.erase key).set key chunk := by
        unfold moveToEnd
        rw [hget]
      rw [← hmove]
      exact .t1 key
    · exact .promote hget
  · split
    · exact .t2 key
    · exact .ghost key

theorem Ok.accessed {p' : Arc F Key} (h : Ok p) (ha : Accessed p p') : Ok p' ∧ p'.table.get? = p.table.get? := by
  cases ha with
  | none => exact ⟨h, rfl⟩
  | t1 k => exact h.congr get?_moveToEnd rfl
  | t2 k => exact h.congr rfl get?_moveToEnd
  | promote hget => exact h.promote hget
  | ghost k =>
    unfold adaptToGhostHit
    split
    · exact ⟨h, rfl⟩
    · split <;> exact ⟨h, rfl⟩

theorem Ok.foldl {f : Arc F Key → Key → Arc F Key} (h : Ok p) (hf : ∀ p k, Accessed p (f p k)) (keys : List Key) :
    Ok (keys.foldl f p) ∧ (keys.foldl f p).table.get? = p.table.get? := by
  refine foldlRecOn (motive := fun q => Ok q ∧ q.table.get? = p.table.get?) keys f ⟨h, rfl⟩ fun q hq k _ => ?_
  obtain ⟨hok, htable⟩ := hq.1.accessed (hf q k)
  exact ⟨hok, htable.trans hq.2⟩

def numEvictable (p : Arc F Key) (protect : List Key) : ℕ :=
  (evictable protect p.t1.items).length + (evictable protect p.t2.items).length

/-- The policy after an eviction. -/
def evicted (p : Arc F Key) (found : Found Key) : Arc F Key :=
  { p.withoutEntries found with
    b1 := trim (p.withoutEntries found).b1 p.cacheCapacity, b2 := trim (p.withoutEntries found).b2 p.cacheCapacity }

/-- Entries are evicted, or there are too few. -/
def EvictsOrRefuses (p : Arc F Key) (n : ℕ) (protect : List Key) : Prop :=
  (p.numEvictable protect < n ∧ p.evict n protect = .ok (p, none)) ∨
  (n ≤ p.numEvictable protect ∧ ∃ found, Chosen p n protect found ∧
    p.evict n protect = .ok (p.evicted found, some (found.map Prod.fst)))

theorem Ok.evict {n : ℕ} (h : Ok p) (protect : List Key) (hn : n = 0 → p.evicted [] = p) :
    p.EvictsOrRefuses n protect := by
  by_cases h0 : n = 0
  · refine .inr ⟨h0 ▸ Nat.zero_le _, [], ⟨h0.symm, nodup_nil, nofun, nofun⟩, ?_⟩
    rw [hn h0]
    exact if_pos h0
  unfold EvictsOrRefuses Arc.evict
  obtain ⟨hfound, hsome⟩ :=
    candidates_spec (FloatOps.toInt p.targetT1Size) protect n p.t1.keys.length p.t1.items p.t2.items
  rw [if_neg h0]
  split
  next hnone =>
    rw [hnone] at hsome
    exact .inl ⟨not_le.1 (nomatch hsome.2 ·), rfl⟩
  next found heq =>
    have hchosen := (hfound found heq).chosen h
    rw [heq] at hsome
    rw [apply_eq found p hchosen.nodup hchosen.present]
    exact .inr ⟨hsome.1 rfl, found, hchosen, rfl⟩

theorem evict_spec (n : ℕ) (protect : List Key) (h : Ok p) :
    ∃ p' out, p.evict n protect = .ok (p', out) ∧ Ok p' ∧ (out = none → p'.table.get? = p.table.get?) ∧
      ∀ evicted, out = some evicted → evicted.length = n ∧ (evicted.map Prod.fst).Nodup ∧
        (∀ e ∈ evicted, p.table.get? e.1 = some e.2 ∧ e.2.refCnt = 0 ∧ e.1 ∉ protect) ∧
        p'.table.get? = (p.table.eraseAll (evicted.map Prod.fst)).get? := by
  by_cases hn : n = 0
  · refine ⟨p, some [], if_pos hn, h, nofun, ?_⟩
    rintro evicted heq
    cases heq
    exact ⟨hn.symm, nodup_nil, nofun, rfl⟩
  rcases h.evict protect fun h0 => absurd h0 hn with ⟨-, hrun⟩ | ⟨-, found, hc, hrun⟩
  · exact ⟨p, none, hrun, h, fun _ => rfl, nofun⟩
  refine ⟨_, _, hrun, fun k hk => ?_, nofun, fun evicted heq => ?_⟩
  · refine (get?_eraseAll ..).trans ?_
    rw [h k (mem_keys_eraseAll.1 hk).2, ite_self]
  · cases heq
    have hkeys : (found.map Prod.fst).map Prod.fst = found.map fun e => e.1.1 := map_map
    rw [hkeys, length_map]
    refine ⟨hc.length, hc.nodup, fun e he => ?_, table_leaving h hc.present⟩
    obtain ⟨e', he', rfl⟩ := mem_map.1 he
    exact ⟨(hc.present e' he').get?_table h, hc.idle e' he'⟩

/-! ## The laws -/

instance : LawfulCachePolicy (Arc F Key) Key where
  table := table
  Ok := Ok
  get_eq _ _ := rfl
  insert_spec := by
    intro p k c h hnone _
    rw [get?_table] at hnone
    obtain ⟨h₁, h₂⟩ := Option.or_eq_none_iff.1 hnone
    refine ⟨_, rfl, fun k' hk' => ?_, ?_⟩
    · rcases Dict.mem_keys_set.1 hk' with rfl | hk'
      · exact h₂
      · exact h k' hk'
    funext k'
    show ((p.t1.set k c).get? k').or (p.t2.get? k') = _
    rw [get?_set, get?_set]
    split_ifs <;> rfl
  remove_spec := by
    intro p k c h _
    refine ⟨_, rfl, ?_⟩
    rw [h.remove_eq]
    refine ⟨fun k' hk' => ?_, ?_⟩
    · obtain ⟨hne, hk'⟩ := Dict.mem_keys_erase.1 hk'
      exact (Dict.get?_erase_of_ne hne).trans (h k' hk')
    funext k'
    show ((p.t1.erase k).get? k').or ((p.t2.erase k).get? k') = _
    rw [get?_erase, get?_erase, get?_erase]
    split_ifs <;> rfl
  touch_spec := fun keys h => ⟨_, rfl, h.foldl touchKey_accessed keys.reverse⟩
  onStoreMiss_spec := fun keys h => ⟨_, rfl, h.foldl (fun _ => .ghost) keys.reverse⟩
  onRequestFinished_spec := fun _ inserted reused _ h => ⟨_, rfl, h.foldl (finishKey_accessed inserted reused) _⟩
  evict_spec := fun n protect h => evict_spec n protect h
  clear_spec _ := ⟨nofun, rfl⟩
  setRefCnt_spec := fun h hget _ _ => setRefCnt_spec h hget
  markNonEvictable_spec := fun h hget _ _ => ⟨_, rfl, setRefCnt_spec h hget⟩
  markEvictable_spec := fun h hget _ => ⟨_, rfl, setRefCnt_spec h hget⟩

end Lemmas

/-! ## The four lists over whole runs -/

section Run

/-- The policies that operations lead to, with the keys inserted and neither removed nor evicted. Only absent keys are
inserted. -/
inductive Reach (c : ℕ) : Arc ℚ Key → Finset Key → Prop
  | start : Reach c { cacheCapacity := c, targetT1Size := FloatOps.ofNat 0 } ∅
  | insert {p live key} (chunk) (h : Reach c p live) (hnew : key ∉ live) : Reach c (p.insert key chunk) (live ∪ {key})
  | remove {p live} (key) (h : Reach c p live) : Reach c (p.remove key) (live.erase key)
  | touch {p live} (keys) (h : Reach c p live) : Reach c (p.touch keys) live
  | onStoreMiss {p live} (keys) (h : Reach c p live) : Reach c (p.onStoreMiss keys) live
  | onRequestFinished {p live} (groups inserted reused position) (h : Reach c p live) :
    Reach c (p.onRequestFinished groups inserted reused position) live
  | setRefCnt {p live} (key n) (h : Reach c p live) : Reach c (p.setRefCnt key n) live
  | clear {p live} (h : Reach c p live) : Reach c (CachePolicy.clear p) ∅
  | evict {p p' live n protect evicted} (h : Reach c p live) (hrun : p.evict n protect = .ok (p', some evicted)) :
    Reach c p' (live \ (evicted.map Prod.fst).toFinset)
  | refuse {p p' live n protect} (h : Reach c p live) (hrun : p.evict n protect = .ok (p', none)) : Reach c p' live

/-- Each key is in one list, and the lists and the target are within their bounds. -/
structure Inv (c : ℕ) (p : Arc ℚ Key) (live : Finset Key) : Prop where
  capacity : p.cacheCapacity = c
  apart : ∀ k, (k ∈ p.t1.keys → k ∉ p.t2.keys ∧ k ∉ p.b1.keys ∧ k ∉ p.b2.keys) ∧
    (k ∈ p.t2.keys → k ∉ p.b1.keys ∧ k ∉ p.b2.keys) ∧ (k ∈ p.b1.keys → k ∉ p.b2.keys)
  live : ∀ k, k ∈ live ↔ k ∈ p.t1.keys ∨ k ∈ p.t2.keys
  ghosts : p.b1.keys.length ≤ c ∧ p.b2.keys.length ≤ c
  target : 0 ≤ p.targetT1Size ∧ p.targetT1Size ≤ c

namespace Inv

variable {c : ℕ} {p p' : Arc ℚ Key} {live : Finset Key} {n : ℕ} {protect : List Key} {found : Found Key}

omit [DecidableEq Key] in
theorem ok (h : Inv c p live) : Ok p := fun k hk => not_mem_keys_iff.1 ((h.apart k).1 hk).1

omit [DecidableEq Key] in
/-- The lists keep their keys. -/
theorem congr (h : Inv c p live) (hcap : p'.cacheCapacity = p.cacheCapacity) (h₁ : p'.t1.keys.Perm p.t1.keys)
    (h₂ : p'.t2.keys.Perm p.t2.keys) (hb₁ : p'.b1.keys.Perm p.b1.keys) (hb₂ : p'.b2.keys.Perm p.b2.keys)
    (htarget : 0 ≤ p'.targetT1Size ∧ p'.targetT1Size ≤ c) : Inv c p' live := by
  refine ⟨hcap.trans h.capacity, fun k => ?_, fun k => ?_, ?_, htarget⟩
  · rw [h₁.mem_iff, h₂.mem_iff, hb₁.mem_iff, hb₂.mem_iff]
    exact h.apart k
  · rw [h₁.mem_iff, h₂.mem_iff]
    exact h.live k
  · rw [hb₁.length_eq, hb₂.length_eq]
    exact h.ghosts

theorem adaptToGhostHit (h : Inv c p live) (key : Key) : Inv c (p.adaptToGhostHit key) live := by
  obtain ⟨h0, hc⟩ := h.target
  have hdelta (x : ℚ) : 0 ≤ max 1 x := zero_le_one.trans (le_max_left ..)
  unfold Arc.adaptToGhostHit
  split
  · refine h.congr rfl .rfl .rfl keys_moveToEnd .rfl ?_
    dsimp only
    rw [floatMin, floatMax, h.capacity]
    exact ⟨le_min (add_nonneg h0 (hdelta _)) c.cast_nonneg, min_le_right ..⟩
  split
  · refine h.congr rfl .rfl .rfl .rfl keys_moveToEnd ?_
    dsimp only
    rw [floatMax, floatMax]
    exact ⟨le_max_right .., max_le ((sub_le_self _ (hdelta _)).trans hc) c.cast_nonneg⟩
  · exact h

theorem promote {key : Key} {chunk : ChunkStatus} (h : Inv c p live) (hget : p.t1.get? key = some chunk) :
    Inv c { p with t1 := p.t1.erase key, t2 := p.t2.set key chunk } live := by
  have hmem := mem_keys_of_get? hget
  refine { h with apart := fun k => ?_, live := fun k => ?_ }
  · have := h.apart k
    simp only [mem_keys_erase, mem_keys_set]
    grind
  · rw [h.live]
    simp only [mem_keys_erase, mem_keys_set]
    grind

theorem accessed (h : Inv c p live) (ha : Accessed p p') : Inv c p' live := by
  cases ha with
  | none => exact h
  | t1 k => exact h.congr rfl keys_moveToEnd .rfl .rfl .rfl h.target
  | t2 k => exact h.congr rfl .rfl keys_moveToEnd .rfl .rfl h.target
  | promote hget => exact h.promote hget
  | ghost k => exact h.adaptToGhostHit k

theorem foldl {f : Arc ℚ Key → Key → Arc ℚ Key} (h : Inv c p live) (hf : ∀ p k, Accessed p (f p k)) (keys : List Key) :
    Inv c (keys.foldl f p) live :=
  foldlRecOn (motive := (Inv c · live)) keys f h fun q hq k _ => hq.accessed (hf q k)

theorem keys_addAll {ghost : Dict Key Unit} {keys : List Key} (hnodup : keys.Nodup) (hnew : ∀ k ∈ keys, k ∉ ghost.keys) :
    (addAll ghost keys).keys = ghost.keys ++ keys := by
  induction keys generalizing ghost with
  | nil => exact (append_nil _).symm
  | cons k keys ih =>
    obtain ⟨hk, hnodup⟩ := nodup_cons.1 hnodup
    have hset := keys_set_of_not_mem (v := ()) (hnew k mem_cons_self)
    refine (ih hnodup fun k' hk' hin => ?_).trans ?_
    · rw [hset, mem_append, mem_singleton] at hin
      exact hin.elim (hnew k' (mem_cons_of_mem _ hk')) fun heq => hk (heq ▸ hk')
    · rw [hset, append_assoc]
      rfl

theorem keys_trim (ghost : Dict Key Unit) (capacity : ℕ) : (trim ghost capacity).keys = ghost.keys.rtake capacity := by
  have htake : ∀ (m : ℕ) (keys : List Key), (keys.take m).foldl List.erase keys = keys.drop m := by
    intro m
    induction m with
    | zero => exact fun _ => rfl
    | succ m ih =>
      intro keys
      cases keys with
      | nil => rfl
      | cons k keys =>
        rw [take_succ_cons, foldl_cons, erase_cons_head, ih]
        rfl
  exact (foldl_hom Dict.keys fun _ _ => rfl).symm.trans (htake _ _)

theorem evict (h : Inv c p live) (n : ℕ) (protect : List Key) : p.EvictsOrRefuses n protect := by
  refine h.ok.evict protect fun _ => ?_
  have htrim (ghost : Dict Key Unit) (hle : ghost.keys.length ≤ c) : trim ghost p.cacheCapacity = ghost := by
    unfold trim
    rw [h.capacity, Nat.sub_eq_zero_of_le hle, take_zero]
    rfl
  show { p with b1 := trim p.b1 p.cacheCapacity, b2 := trim p.b2 p.cacheCapacity } = p
  rw [htrim _ h.ghosts.1, htrim _ h.ghosts.2]

/-- The keys that leave a table are the last ones of its ghost list. -/
theorem keys_evicted (h : Inv c p live) (hc : Chosen p n protect found) :
    (p.evicted found).b1.keys = (p.b1.keys ++ leaving true found).rtake c ∧
      (p.evicted found).b2.keys = (p.b2.keys ++ leaving false found).rtake c := by
  have hnodup (fromT1 : Bool) : (leaving fromT1 found).Nodup := hc.nodup.sublist (filter_sublist.map _)
  rw [← h.capacity, ← keys_addAll (hnodup true) fun k hk => ((h.apart k).1 (hc.mem_t1 hk)).2.1,
    ← keys_addAll (hnodup false) fun k hk => ((h.apart k).2.1 (hc.mem_t2 hk)).2]
  exact ⟨keys_trim .., keys_trim ..⟩

theorem evicted (h : Inv c p live) (hc : Chosen p n protect found) :
    Inv c (p.evicted found) (live \ ((found.map Prod.fst).map Prod.fst).toFinset) := by
  have hkeys (k : Key) : k ∈ (found.map Prod.fst).map Prod.fst ↔ k ∈ leaving true found ∨ k ∈ leaving false found := by
    simp [mem_leaving, or_comm, exists_or]
  obtain ⟨hb₁, hb₂⟩ := h.keys_evicted hc
  refine ⟨h.capacity, fun k => ?_, fun k => ?_, ?_, h.target⟩
  · have hk := h.apart k
    have h₁ : k ∈ (p.b1.keys ++ leaving true found).rtake c → _ := (drop_subset ..) (a := k)
    have h₂ : k ∈ (p.b2.keys ++ leaving false found).rtake c → _ := (drop_subset ..) (a := k)
    have ht₁ := hc.mem_t1 (k := k)
    have ht₂ := hc.mem_t2 (k := k)
    show (k ∈ (p.t1.eraseAll _).keys → k ∉ (p.t2.eraseAll _).keys ∧ _) ∧ (k ∈ (p.t2.eraseAll _).keys → _) ∧ _
    rw [mem_keys_eraseAll, mem_keys_eraseAll]
    grind
  · have hk := h.apart k
    have ht₁ := hc.mem_t1 (k := k)
    have ht₂ := hc.mem_t2 (k := k)
    show _ ↔ k ∈ (p.t1.eraseAll _).keys ∨ k ∈ (p.t2.eraseAll _).keys
    rw [Finset.mem_sdiff, mem_toFinset, hkeys, h.live, mem_keys_eraseAll, mem_keys_eraseAll]
    grind
  · rw [hb₁, hb₂, rtake, rtake, length_drop, length_drop]
    omega

end Inv

/-- After any operations each key is in at most one of the four lists, the resident keys are those inserted and neither
removed nor evicted, and the ghost lists and the target are within the capacity. An eviction then takes as many entries
as it is asked for, or changes nothing, which it does if and only if there are fewer. -/
theorem arc_invariants (c : ℕ) (p : Arc ℚ Key) (live : Finset Key) (hreach : Reach c p live) :
    Inv c p live ∧ ∀ n protect, p.EvictsOrRefuses n protect ∧ ∀ found, Chosen p n protect found →
      (p.evicted found).b1.keys = (p.b1.keys ++ leaving true found).rtake c ∧
        (p.evicted found).b2.keys = (p.b2.keys ++ leaving false found).rtake c := by
  have hstart : Inv c ({ cacheCapacity := c, targetT1Size := FloatOps.ofNat 0 } : Arc ℚ Key) ∅ :=
    ⟨rfl, fun _ => ⟨nofun, nofun, nofun⟩, fun _ => by simp, ⟨Nat.zero_le _, Nat.zero_le _⟩, le_rfl, c.cast_nonneg⟩
  have hinv : Inv c p live := by
    induction hreach with
    | start => exact hstart
    | @insert p live key chunk _ hnew h =>
      refine { h with apart := fun k => ?_, live := fun k => ?_, ghosts := ?_ }
      · have hk := h.apart k
        have hlive := h.live k
        simp only [Arc.insert, mem_keys_set, mem_keys_erase]
        grind
      · rw [Finset.mem_union, Finset.mem_singleton, h.live, Arc.insert, mem_keys_set]
        tauto
      · obtain ⟨h₁, h₂⟩ := h.ghosts
        exact ⟨(erase_sublist ..).length_le.trans h₁, (erase_sublist ..).length_le.trans h₂⟩
    | @remove p live key _ h =>
      rw [h.ok.remove_eq]
      refine { h with apart := fun k => ?_, live := fun k => ?_ }
      · have hk := h.apart k
        simp only [mem_keys_erase]
        tauto
      · rw [Finset.mem_erase, h.live, mem_keys_erase, mem_keys_erase]
        tauto
    | touch keys _ h => exact h.foldl touchKey_accessed keys.reverse
    | onStoreMiss keys _ h => exact h.foldl (fun _ => .ghost) keys.reverse
    | onRequestFinished groups inserted reused position _ h => exact h.foldl (finishKey_accessed inserted reused) _
    | setRefCnt key n _ h =>
      unfold Arc.setRefCnt
      split
      next hget => exact h.congr rfl (keys_set_of_mem (mem_keys_of_get? hget) ▸ .rfl) .rfl .rfl .rfl h.target
      · split
        next hget => exact h.congr rfl .rfl (keys_set_of_mem (mem_keys_of_get? hget) ▸ .rfl) .rfl .rfl h.target
        · exact h
    | clear _ h => exact h.capacity ▸ hstart
    | @evict p p' live n protect evicted _ hrun h =>
      rcases h.evict n protect with ⟨-, hnone⟩ | ⟨-, found, hc, hsome⟩
      · cases hnone.symm.trans hrun
      · cases hsome.symm.trans hrun
        exact h.evicted hc
    | @refuse p p' live n protect _ hrun h =>
      rcases h.evict n protect with ⟨-, hnone⟩ | ⟨-, found, -, hsome⟩
      · cases hnone.symm.trans hrun
        exact h
      · cases hsome.symm.trans hrun
  exact ⟨hinv, fun n protect => ⟨hinv.evict n protect, fun _ => hinv.keys_evicted⟩⟩

theorem arc_invariants_inserted :
    let p := (({ cacheCapacity := 2, targetT1Size := FloatOps.ofNat 0 } : Arc ℚ ℕ).insert 7 ⟨0, 0⟩).insert 8 ⟨1, 0⟩
    p.t1.keys = [7, 8] ∧ Inv 2 p (∅ ∪ {7} ∪ {8}) ∧ p.EvictsOrRefuses 1 [7] := by
  have hnew : 8 ∉ (∅ ∪ {7} : Finset ℕ) := by decide
  obtain ⟨hinv, h⟩ := arc_invariants 2 _ _ (.insert ⟨1, 0⟩ (.insert ⟨0, 0⟩ .start (Finset.notMem_empty 7)) hnew)
  exact ⟨rfl, hinv, (h 1 [7]).1⟩

end Run

end Arc

end VllmRwkv.Offload
