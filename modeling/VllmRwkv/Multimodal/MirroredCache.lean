import Mathlib

/-!
# The mirrored multimodal caches

The sender's cache (`LruKeyReplicatedSenderCache`) keeps the sizes and the prompt updates of the items whose data the
receiver's cache (`LruKeyReplicatedReceiverCache`) keeps, and sends no data for an item that it knows. The sender goes
over the items of a request modality by modality, the receiver by their positions in the prompt. The caches agree as
long as the two orders are the same and no request has an item that the sender knows behind one that it does not know.

Both caches rest on the package `cachetools`, which is a parameter here: the results hold whatever is evicted.
-/

namespace VllmRwkv.Multimodal

open List Prod Function

/-- `cachetools.LRUCache`; `C` is what it keeps of its entries, the keys in their order with the sizes of the values. -/
structure Cachetools (K C : Type) where
  contains : C → K → Bool
  moveToEnd : C → K → C
  delItem : C → K → C
  /-- `none`: the value is too large for the cache, which stays as it is. -/
  setItem : C → K → ℕ → Option C
  contains_moveToEnd : ∀ c key k, contains c key → contains (moveToEnd c key) k = contains c k
  /-- Storing a value brings in no other key. -/
  contains_setItem : ∀ c key size c' k, setItem c key size = some c' → contains c' k → k = key ∨ contains c k

namespace Cachetools

variable {K C : Type} (lib : Cachetools K C) (c : C) (key : K)

/-- `LRUCache.touch`, and what `LRUCache.get` does to the order of the keys. -/
def touch : C := if lib.contains c key then lib.moveToEnd c key else c

/-- `LRUCache.pop`. -/
def pop : C := if lib.contains c key then lib.delItem c key else c

/-- `LRUCache.put_if_fits`. -/
def putIfFits (size : ℕ) : C := (lib.setItem c key size).getD c

variable {lib c key}

theorem contains_touch {k : K} : lib.contains (lib.touch c key) k = lib.contains c k := by
  unfold touch
  split
  next hin => exact lib.contains_moveToEnd c key k hin
  · rfl

theorem contains_foldl_touch {k : K} (keys : List K) :
    lib.contains (keys.foldl lib.touch c) k = lib.contains c k := by
  induction keys generalizing c with
  | nil => rfl
  | cons key keys ih => exact ih.trans contains_touch

end Cachetools

/-- An item of a request: its hash, its data if the caller gave them, and its place in the prompt. -/
structure Item (K D : Type) where
  mmHash : K
  data : Option D
  offset : ℕ

/-- An item on its way to the receiver, with its processed data if they are sent. -/
structure Feature (K P : Type) where
  mmHash : K
  data : Option P
  offset : ℕ

/-- The items of each modality, in the order of `mm_hashes`. -/
abbrev Request (K D : Type) := List (List (Item K D))

/-- The features of some items, with the data that the sender returns for these. -/
def featuresOf {K D P : Type} (items : List (Item K D)) (kwargs : List (Option P)) : List (Feature K P) :=
  zipWith (fun item data => ⟨item.mmHash, data, item.offset⟩) items kwargs

/-- `argsort_mm_positions` -/
def sortFeatures {K P : Type} (features : List (Feature K P)) : List (Feature K P) :=
  features.insertionSort (·.offset ≤ ·.offset)

/-- What the multimodal processor is made of: raw data in `D`, processed data in `P`, prompt updates in `R`. -/
structure Processor (K C D P R : Type) where
  lib : Cachetools K C
  /-- `MultiModalCache.get_item_size`: both sides measure an item alike. -/
  itemSize : P → ℕ
  /-- The processed data and the prompt updates of one item. -/
  process : D → P × List R
  /-- `_recompute_cached_prompt_update`. -/
  recompute : R → ℕ → R

/-- The sender's cache. The prompt updates of keys that were evicted are never read. -/
structure SenderCache (K C R : Type) where
  cache : C
  promptUpdates : K → List R

variable {K C D P R : Type} [DecidableEq K]

namespace Processor

variable (m : Processor K C D P R)

/-! ## The sender -/

def cacheIfFits (s : SenderCache K C R) (mmHash : K) (item : P × List R) : SenderCache K C R :=
  match m.lib.setItem s.cache mmHash (m.itemSize item.1) with
  | none => s
  | some cache => ⟨cache, update s.promptUpdates mmHash item.2⟩

/-- `LruKeyReplicatedSenderCache.get_and_update_item`; `none`: the assertion fails that an item which was not processed is
in the cache. -/
def getAndUpdateItem (s : SenderCache K C R) (mmItem : Option (P × List R)) (mmHash : K) :
    Option ((Option P × List R) × SenderCache K C R) :=
  if m.lib.contains s.cache mmHash then
    some ((none, s.promptUpdates mmHash), { s with cache := m.lib.touch s.cache mmHash })
  else mmItem.map fun item => ((some item.1, item.2), m.cacheIfFits s mmHash item)

/-- `_get_cache_missing_items`: for each modality the hashes, whether they are cached, and the data of the items that are
not; `none`: such data are not provided. -/
def getCacheMissingItems (c : C) (request : Request K D) : Option (List (List (K × Bool) × List D)) :=
  let missing (item : Item K D) : Bool := !m.lib.contains c item.mmHash
  if request.flatten.any fun item => missing item && item.data.isNone then none
  else some (request.map fun items =>
    (items.map fun item => (item.mmHash, m.lib.contains c item.mmHash), (items.filter missing).filterMap (·.data)))

/-- The loop of `_merge_mm_kwargs` over the items of a modality; `missing` are the processed items, of which
`mm_missing_next_idx` counts those that were taken. A failed request leaves the cache as it was when it failed. -/
def mergeItems (missing : List (P × List R)) (s : SenderCache K C R) (missingNextIdx itemIdx : ℕ) :
    List (K × Bool) → SenderCache K C R × Option (List (Option P × List R))
  | [] => (s, some [])
  | (itemHash, isCached) :: hashes =>
    let item? := if isCached then some none else missing[missingNextIdx]?.map some
    match item?.bind fun item => m.getAndUpdateItem s item itemHash with
    | none => (s, none)
    | some ((kwargs, updates), s) =>
      let nextIdx := if isCached then missingNextIdx else missingNextIdx + 1
      let (s, rows) := mergeItems missing s nextIdx (itemIdx + 1) hashes
      (s, rows.map ((kwargs, updates.map (m.recompute · itemIdx)) :: ·))

/-- The loop of `_merge_mm_kwargs` over the modalities. -/
def mergeModalities (s : SenderCache K C R) : List (List (K × Bool) × List (P × List R)) →
    SenderCache K C R × Option (List (List (Option P × List R)))
  | [] => (s, some [])
  | (hashes, missing) :: modalities =>
    match m.mergeItems missing s 0 0 hashes with
    | (s, none) => (s, none)
    | (s, some rows) =>
      let (s, all) := mergeModalities s modalities
      (s, all.map (rows :: ·))

def mergeMmKwargs (s : SenderCache K C R) (modalities : List (List (K × Bool) × List (P × List R))) :
    SenderCache K C R × Option (List (List (Option P × List R))) :=
  let hashes := modalities.flatMap fun modality => modality.1.map fst
  m.mergeModalities { s with cache := hashes.foldl m.lib.touch s.cache } modalities

/-- What the sender does with a request: find the items that are not cached, process them and merge. -/
def apply (s : SenderCache K C R) (request : Request K D) :
    SenderCache K C R × Option (List (List (Option P × List R))) :=
  match m.getCacheMissingItems s.cache request with
  | none => (s, none)
  | some modalities => m.mergeMmKwargs s (modalities.map fun modality => (modality.1, modality.2.map m.process))

/-! ## The receiver -/

/-- `LruKeyReplicatedReceiverCache.get_and_update_item`; `none`: `MultiModalCacheMissError`. -/
def receiveItem (c : C) (mmItem : Option P) (mmHash : K) : Option C :=
  match mmItem with
  | some item => some (m.lib.putIfFits (m.lib.pop c mmHash) mmHash (m.itemSize item))
  | none => if m.lib.contains c mmHash then some (m.lib.touch c mmHash) else none

/-- The second loop of `get_and_update_features`, with the hashes that are missing. -/
def receiveItems (c : C) : List (Feature K P) → C × List K
  | [] => (c, [])
  | feature :: features =>
    match m.receiveItem c feature.data feature.mmHash with
    | some c => receiveItems c features
    | none =>
      let (c, missing) := receiveItems c features
      (c, feature.mmHash :: missing)

def getAndUpdateFeatures (c : C) (features : List (Feature K P)) : C × List K :=
  m.receiveItems ((features.map (·.mmHash)).foldl m.lib.touch c) features

end Processor

/-- The two caches, and what became of each request: rejected by the sender, or the hashes that the receiver missed. -/
structure Caches (K C R : Type) where
  sender : SenderCache K C R
  receiver : C
  log : List (Option (List K)) := []

def Caches.request (m : Processor K C D P R) (w : Caches K C R) (request : Request K D) : Caches K C R :=
  match m.apply w.sender request with
  | (sender, none) => { w with sender := sender, log := w.log ++ [none] }
  | (sender, some rows) =>
    let (receiver, missing) :=
      m.getAndUpdateFeatures w.receiver (sortFeatures (featuresOf request.flatten (rows.flatten.map fst)))
    ⟨sender, receiver, w.log ++ [some missing]⟩

/-- The requests, from two caches in the same state. -/
def Caches.run (m : Processor K C D P R) (c : C) (requests : List (Request K D)) : Caches K C R :=
  requests.foldl (Caches.request m) ⟨⟨c, fun _ => []⟩, c, []⟩

/-! ## What is merged -/

namespace Processor

/-- What the sender is to do with the items one after the other: an item that is in the cache when it is looked up goes
without its data and with the prompt updates stored there, any other one with what was processed of its own data. -/
inductive Merges (m : Processor K C D P R) :
    SenderCache K C R → List (Item K D) → List (Option P × List R) → SenderCache K C R → Prop
  | nil (s : SenderCache K C R) : Merges m s [] [] s
  | known {s s' : SenderCache K C R} {item : Item K D} {items : List (Item K D)} {rows : List (Option P × List R)}
      (hin : m.lib.contains s.cache item.mmHash)
      (h : Merges m { s with cache := m.lib.touch s.cache item.mmHash } items rows s') :
      Merges m s (item :: items) ((none, s.promptUpdates item.mmHash) :: rows) s'
  | new {s s' : SenderCache K C R} {item : Item K D} {items : List (Item K D)} {rows : List (Option P × List R)} {d : D}
      (hnot : m.lib.contains s.cache item.mmHash = false) (hdata : item.data = some d)
      (h : Merges m (m.cacheIfFits s item.mmHash (m.process d)) items rows s') :
      Merges m s (item :: items) ((some (m.process d).1, (m.process d).2) :: rows) s'

/-- In the order of `mm_hashes` no item that is in the cache comes after one that is not, and these have data. -/
structure KnownFirst (m : Processor K C D P R) (c : C) (request : Request K D) : Prop where
  order : request.flatten.Pairwise fun a b => m.lib.contains c b.mmHash → m.lib.contains c a.mmHash
  data : ∀ item ∈ request.flatten, m.lib.contains c item.mmHash = false → item.data.isSome

/-- The prompt updates of a modality as they are returned, with the indices of the items from `itemIdx` on. -/
def recomputed (m : Processor K C D P R) (itemIdx : ℕ) (rows : List (Option P × List R)) :
    List (Option P × List R) :=
  (rows.zipIdx itemIdx).map fun row => (row.1.1, row.1.2.map (m.recompute · row.2))

variable {m : Processor K C D P R} {s s' s₁ : SenderCache K C R} {items items' : List (Item K D)}
  {rows rows' : List (Option P × List R)} {isCached : K → Bool} {request : Request K D}

theorem Merges.append (h : m.Merges s items rows s₁) (h' : m.Merges s₁ items' rows' s') :
    m.Merges s (items ++ items') (rows ++ rows') s' := by
  induction h with
  | nil => exact h'
  | known hin _ ih => exact .known hin (ih h')
  | new hnot hdata _ ih => exact .new hnot hdata (ih h')

theorem Merges.length_eq (h : m.Merges s items rows s') : rows.length = items.length := by
  induction h with
  | nil => rfl
  | known _ _ ih => exact congrArg (· + 1) ih
  | new _ _ _ ih => exact congrArg (· + 1) ih

/-- The items of one modality. Once an item is new, so are all later ones, and these bring their data whatever is evicted
for them; the counter stands at the processed data of the next new item. -/
theorem mergeItems_merges {missing : List D} {later : List (Item K D)} (missingNextIdx itemIdx : ℕ)
    (horder : (items ++ later).Pairwise fun a b => isCached b.mmHash → isCached a.mmHash)
    (hcached : ∀ item ∈ items ++ later, isCached item.mmHash → m.lib.contains s.cache item.mmHash)
    (hmissing : (items.filter fun item => !isCached item.mmHash).map (·.data) = (missing.drop missingNextIdx).map some) :
    ∃ rows s', m.mergeItems (missing.map m.process) s missingNextIdx itemIdx
        (items.map fun item => (item.mmHash, isCached item.mmHash)) = (s', some (m.recomputed itemIdx rows)) ∧
      m.Merges s items rows s' ∧ ∀ item ∈ later, isCached item.mmHash → m.lib.contains s'.cache item.mmHash := by
  induction items generalizing s missingNextIdx itemIdx with
  | nil => exact ⟨[], s, rfl, .nil s, hcached⟩
  | cons item items ih =>
    rw [cons_append] at horder hcached
    obtain ⟨hfirst, horder⟩ := pairwise_cons.1 horder
    obtain ⟨hin, hcached⟩ := forall_mem_cons.1 hcached
    rw [map_cons]
    unfold mergeItems
    cases hc : isCached item.mmHash with
    | true =>
      rw [filter_cons_of_neg (by rw [hc]; exact Bool.noConfusion)] at hmissing
      have hlookup : m.getAndUpdateItem s none item.mmHash = some ((none, s.promptUpdates item.mmHash),
          { s with cache := m.lib.touch s.cache item.mmHash }) := if_pos (hin hc)
      obtain ⟨rows, s', hmerge, hrows, hlater⟩ := ih (s := { s with cache := m.lib.touch s.cache item.mmHash })
        missingNextIdx (itemIdx + 1) horder
        (fun i hi h => Cachetools.contains_touch.trans (hcached i hi h)) hmissing
      refine ⟨(none, s.promptUpdates item.mmHash) :: rows, s', ?_, .known (hin hc) hrows, hlater⟩
      simp only [if_true, Option.bind_some, hlookup, hmerge]
      rfl
    | false =>
      rw [filter_cons_of_pos (by rw [hc]; rfl), map_cons] at hmissing
      obtain ⟨d, rest, hdrop⟩ : ∃ d rest, missing.drop missingNextIdx = d :: rest :=
        exists_cons_of_ne_nil fun hnil => by
          rw [hnil] at hmissing
          cases hmissing
      rw [hdrop, map_cons, cons.injEq] at hmissing
      obtain ⟨hdata, hmissing⟩ := hmissing
      have hat : (missing.map m.process)[missingNextIdx]? = some (m.process d) := by
        have hhead := congrArg (·[0]?) hdrop
        rw [getElem?_drop, Nat.add_zero] at hhead
        rw [getElem?_map, hhead]
        rfl
      have hnext : missing.drop (missingNextIdx + 1) = rest := by
        rw [← drop_drop, hdrop]
        rfl
      have hgone {c : C} : ∀ i ∈ items ++ later, isCached i.mmHash → m.lib.contains c i.mmHash := fun i hi h => by
        rw [hfirst i hi h] at hc
        cases hc
      cases hin : m.lib.contains s.cache item.mmHash with
      | true =>
        -- the item has come before in this request
        have hlookup : m.getAndUpdateItem s (some (m.process d)) item.mmHash = some ((none, s.promptUpdates item.mmHash),
            { s with cache := m.lib.touch s.cache item.mmHash }) := if_pos hin
        obtain ⟨rows, s', hmerge, hrows, hlater⟩ := ih (s := { s with cache := m.lib.touch s.cache item.mmHash })
          (missingNextIdx + 1) (itemIdx + 1) horder hgone (hnext ▸ hmissing)
        refine ⟨(none, s.promptUpdates item.mmHash) :: rows, s', ?_, .known hin hrows, hlater⟩
        simp only [Bool.false_eq_true, if_false, hat, Option.map_some, Option.bind_some, hlookup, hmerge]
        rfl
      | false =>
        have hlookup : m.getAndUpdateItem s (some (m.process d)) item.mmHash =
            some ((some (m.process d).1, (m.process d).2), m.cacheIfFits s item.mmHash (m.process d)) :=
          if_neg (by rw [hin]; exact Bool.noConfusion)
        obtain ⟨rows, s', hmerge, hrows, hlater⟩ := ih (s := m.cacheIfFits s item.mmHash (m.process d))
          (missingNextIdx + 1) (itemIdx + 1) horder hgone (hnext ▸ hmissing)
        refine ⟨(some (m.process d).1, (m.process d).2) :: rows, s', ?_, .new hin hdata hrows, hlater⟩
        simp only [Bool.false_eq_true, if_false, hat, Option.map_some, Option.bind_some, hlookup, hmerge]
        rfl

omit [DecidableEq K] in
theorem map_data (h : ∀ item ∈ items, item.data.isSome) : items.map (·.data) = (items.filterMap (·.data)).map some := by
  induction items with
  | nil => rfl
  | cons item items ih =>
    obtain ⟨hitem, hitems⟩ := forall_mem_cons.1 h
    obtain ⟨d, hd⟩ := Option.isSome_iff_exists.1 hitem
    rw [map_cons, filterMap_cons_some hd, map_cons, hd, ih hitems]

theorem mergeModalities_merges
    (horder : request.flatten.Pairwise fun a b => isCached b.mmHash → isCached a.mmHash)
    (hcached : ∀ item ∈ request.flatten, isCached item.mmHash → m.lib.contains s.cache item.mmHash)
    (hdata : ∀ item ∈ request.flatten, isCached item.mmHash = false → item.data.isSome) :
    ∃ (rows : List (List (Option P × List R))) (s' : SenderCache K C R),
      m.mergeModalities s (request.map fun items => (items.map fun item => (item.mmHash, isCached item.mmHash),
        ((items.filter fun item => !isCached item.mmHash).filterMap (·.data)).map m.process)) =
          (s', some (rows.map (m.recomputed 0))) ∧
      m.Merges s request.flatten rows.flatten s' ∧ rows.map length = request.map length := by
  induction request generalizing s with
  | nil => exact ⟨[], s, rfl, .nil s, rfl⟩
  | cons items request ih =>
    rw [flatten_cons] at horder hcached hdata
    have hmissing : ∀ item ∈ items.filter fun item => !isCached item.mmHash, item.data.isSome := fun item hitem => by
      obtain ⟨hmem, hnot⟩ := mem_filter.1 hitem
      exact hdata item (mem_append_left _ hmem) (by simpa using hnot)
    obtain ⟨rows, s₁, hmerge, hrows, hlater⟩ := mergeItems_merges 0 0 horder hcached (map_data hmissing)
    obtain ⟨all, s', hall, hrest, hlength⟩ := ih (s := s₁) (pairwise_append.1 horder).2.1 hlater
      fun item hitem => hdata item (mem_append_right _ hitem)
    refine ⟨rows :: all, s', ?_, hrows.append hrest, congrArg₂ cons hrows.length_eq hlength⟩
    rw [map_cons]
    unfold mergeModalities
    rw [hmerge]
    dsimp only
    rw [hall]
    rfl

/-- The cache when the items of the request are looked up: all of them have been touched. -/
def touched (m : Processor K C D P R) (s : SenderCache K C R) (request : Request K D) : SenderCache K C R :=
  { s with cache := (request.flatten.map (·.mmHash)).foldl m.lib.touch s.cache }

/-- A request with its known items first is merged. -/
theorem apply_merges (h : m.KnownFirst s.cache request) :
    ∃ (rows : List (List (Option P × List R))) (s' : SenderCache K C R),
      m.apply s request = (s', some (rows.map (m.recomputed 0))) ∧
      m.Merges (m.touched s request) request.flatten rows.flatten s' ∧ rows.map length = request.map length := by
  have hgiven : ¬ request.flatten.any fun item => !m.lib.contains s.cache item.mmHash && item.data.isNone := by
    intro hnone
    obtain ⟨item, hitem, hnot⟩ := any_eq_true.1 hnone
    have hsome := h.data item hitem
    cases hdata : item.data <;> simp_all
  obtain ⟨rows, s', hmerge, hrest⟩ := mergeModalities_merges (m := m) (s := m.touched s request) h.order
    (fun item _ hin => (Cachetools.contains_foldl_touch _).trans hin) h.data
  refine ⟨rows, s', ?_, hrest⟩
  unfold apply getCacheMissingItems
  dsimp only
  rw [if_neg hgiven]
  dsimp only
  unfold mergeMmKwargs
  dsimp only
  rw [List.map_map, flatMap_map]
  have hhashes : (request.flatMap fun items =>
      (items.map fun item => (item.mmHash, m.lib.contains s.cache item.mmHash)).map fst) =
      request.flatten.map (·.mmHash) := by
    simp [flatMap_def, map_flatten, Function.comp_def]
  exact (congrArg (fun hashes => m.mergeModalities { s with cache := hashes.foldl m.lib.touch s.cache } _) hhashes).trans
    hmerge

section Updates

variable {updates : K → List R}

theorem stored_cacheIfFits {key : K} {item : P × List R}
    (hstored : ∀ hash, m.lib.contains s.cache hash → s.promptUpdates hash = updates hash) (hitem : item.2 = updates key)
    {hash : K} (hin : m.lib.contains (m.cacheIfFits s key item).cache hash) :
    (m.cacheIfFits s key item).promptUpdates hash = updates hash := by
  unfold cacheIfFits at hin ⊢
  split
  next hlarge =>
    rw [hlarge] at hin
    exact hstored hash hin
  next c hset =>
    rw [hset] at hin
    rcases eq_or_ne hash key with rfl | hne
    · exact (update_self ..).trans hitem
    · have hbefore := (m.lib.contains_setItem _ _ _ _ _ hset hin).resolve_left hne
      exact (update_of_ne hne ..).trans (hstored hash hbefore)

/-- If the cache has for each hash its prompt updates, and what is processed are the updates of the item's hash, every
item gets the updates of its hash. -/
theorem Merges.map_snd (h : m.Merges s items rows s')
    (hstored : ∀ hash, m.lib.contains s.cache hash → s.promptUpdates hash = updates hash)
    (hitems : ∀ item ∈ items, ∀ d ∈ item.data, (m.process d).2 = updates item.mmHash) :
    rows.map snd = items.map (updates ·.mmHash) := by
  induction h with
  | nil => rfl
  | known hin _ ih =>
    have hrest := ih (fun hash h => hstored hash (Cachetools.contains_touch.symm.trans h))
      fun i hi => hitems i (mem_cons_of_mem _ hi)
    rw [map_cons, map_cons, hstored _ hin, hrest]
  | new hnot hdata _ ih =>
    have hown := hitems _ mem_cons_self _ hdata
    have hrest := ih (fun hash h => stored_cacheIfFits hstored hown h) fun i hi => hitems i (mem_cons_of_mem _ hi)
    rw [map_cons, map_cons, hown, hrest]

end Updates

/-! ## The two caches -/

omit [DecidableEq K] in
theorem map_mmHash_featuresOf {kwargs : List (Option P)} (h : kwargs.length = items.length) :
    (featuresOf items kwargs).map (·.mmHash) = items.map (·.mmHash) := by
  unfold featuresOf
  induction items generalizing kwargs with
  | nil => rfl
  | cons item items ih =>
    cases kwargs with
    | nil => cases h
    | cons data kwargs => exact congrArg (item.mmHash :: ·) (ih (Nat.succ.inj h))

omit [DecidableEq K] in
theorem map_fst_recomputed (itemIdx : ℕ) : (m.recomputed itemIdx rows).map fst = rows.map fst := by
  unfold recomputed
  rw [List.map_map]
  show (rows.zipIdx itemIdx).map (fst ∘ fst) = _
  rw [← List.map_map, zipIdx_map_fst]

/-- The receiver does with the features what the sender did with the items. -/
theorem Merges.mirrors (h : m.Merges s items rows s') :
    m.receiveItems s.cache (featuresOf items (rows.map fst)) = (s'.cache, []) := by
  induction h with
  | nil => rfl
  | @known s s' item items rows hin _ ih =>
    show m.receiveItems s.cache (⟨item.mmHash, none, item.offset⟩ :: featuresOf items (rows.map fst)) = _
    unfold receiveItems receiveItem
    dsimp only
    rw [if_pos hin]
    exact ih
  | @new s s' item items rows d hnot _ _ ih =>
    have hpop : m.lib.pop s.cache item.mmHash = s.cache := if_neg (by rw [hnot]; exact Bool.noConfusion)
    have hput : m.lib.putIfFits s.cache item.mmHash (m.itemSize (m.process d).1) =
        (m.cacheIfFits s item.mmHash (m.process d)).cache := by
      unfold Cachetools.putIfFits cacheIfFits
      cases m.lib.setItem s.cache item.mmHash (m.itemSize (m.process d).1) <;> rfl
    show m.receiveItems s.cache
      (⟨item.mmHash, some (m.process d).1, item.offset⟩ :: featuresOf items (rows.map fst)) = _
    unfold receiveItems receiveItem
    dsimp only
    rw [hpop, hput]
    exact ih

end Processor

/-- The prompt has the items in the order of `mm_hashes`: modality after modality. -/
def InOrder (request : Request K D) : Prop := request.flatten.Pairwise (·.offset ≤ ·.offset)

variable {m : Processor K C D P R} {w : Caches K C R} {request : Request K D}

omit [DecidableEq K] in
theorem sortFeatures_featuresOf {items : List (Item K D)} {kwargs : List (Option P)}
    (h : items.Pairwise (·.offset ≤ ·.offset)) : sortFeatures (featuresOf items kwargs) = featuresOf items kwargs := by
  refine Pairwise.insertionSort_eq ?_
  have hsub : ((featuresOf items kwargs).map (·.offset)).Sublist (items.map (·.offset)) := by
    unfold featuresOf
    clear h
    induction items generalizing kwargs with
    | nil => exact .slnil
    | cons item items ih =>
      cases kwargs with
      | nil => exact nil_sublist _
      | cons data kwargs => exact ih.cons_cons _
  exact pairwise_map.1 ((pairwise_map.2 h).sublist hsub)

/-- A request in order, with its known items first, leaves the caches equal, and the receiver misses nothing. -/
theorem request_mirrors (hcaches : w.sender.cache = w.receiver) (horder : InOrder request)
    (hfirst : m.KnownFirst w.sender.cache request) :
    (w.request m request).sender.cache = (w.request m request).receiver ∧
      (w.request m request).log = w.log ++ [some []] := by
  obtain ⟨rows, s', hmerge, hrows, -⟩ := Processor.apply_merges hfirst
  have hkwargs : (rows.map (m.recomputed 0)).flatten.map fst = rows.flatten.map fst := by
    rw [map_flatten, map_flatten, List.map_map]
    exact congrArg flatten (map_congr_left fun row _ => Processor.map_fst_recomputed 0)
  have hlength : (rows.flatten.map fst).length = request.flatten.length := by rw [length_map, hrows.length_eq]
  -- both sides touch the same hashes first
  have hreceive : m.getAndUpdateFeatures w.receiver (featuresOf request.flatten (rows.flatten.map fst)) =
      (s'.cache, []) := by
    unfold Processor.getAndUpdateFeatures
    rw [Processor.map_mmHash_featuresOf hlength, ← hcaches]
    exact hrows.mirrors
  unfold Caches.request
  rw [hmerge]
  dsimp only
  rw [hkwargs, sortFeatures_featuresOf horder, hreceive]
  exact ⟨rfl, rfl⟩

section Lru

def makeRoom (capacity size : ℕ) : List (K × ℕ) → List (K × ℕ)
  | [] => []
  | oldest :: rest =>
    if (oldest.2 + (rest.map (·.2)).sum) + size > capacity then makeRoom capacity size rest else oldest :: rest

omit [DecidableEq K] in
theorem makeRoom_subset (capacity size : ℕ) (order : List (K × ℕ)) : makeRoom capacity size order ⊆ order := by
  fun_induction makeRoom with
  | case1 => exact Subset.refl _
  | case2 oldest rest _ ih => exact subset_cons_of_subset _ ih
  | case3 => exact Subset.refl _

/-- The keys with their sizes, the least recently used first. -/
def lru (K : Type) [DecidableEq K] (capacity : ℕ) : Cachetools K (List (K × ℕ)) where
  contains order key := order.any (·.1 = key)
  moveToEnd order key := order.filter (·.1 ≠ key) ++ order.filter (·.1 = key)
  delItem order key := order.filter (·.1 ≠ key)
  setItem order key size :=
    if size > capacity then none
    else
      let kept := if (order.find? (·.1 = key)).all (·.2 < size) then makeRoom capacity size order else order
      some (kept.filter (·.1 ≠ key) ++ [(key, size)])
  contains_moveToEnd order key k _ := by
    have hperm := filter_append_perm (fun entry : K × ℕ => decide (entry.1 ≠ key)) order
    simp only [ne_eq, decide_not, Bool.not_not] at hperm ⊢
    exact hperm.any_eq
  contains_setItem order key size order' k hset hin := by
    split at hset
    · cases hset
    obtain rfl := Option.some.inj hset
    obtain ⟨entry, hentry, hk⟩ := any_eq_true.1 hin
    rcases mem_append.1 hentry with hentry | hentry
    · refine .inr (any_eq_true.2 ⟨entry, ?_, hk⟩)
      have hkept := (mem_filter.1 hentry).1
      split at hkept
      · exact makeRoom_subset _ _ _ hkept
      · exact hkept
    · rw [mem_singleton.1 hentry] at hk
      exact .inl (of_decide_eq_true hk).symm

/-- Items are given by the sizes of their data, and have no prompt updates but their size. -/
def sized (capacity : ℕ) : Processor ℕ (List (ℕ × ℕ)) ℕ ℕ ℕ where
  lib := lru ℕ capacity
  itemSize := id
  process size := (size, [size])
  recompute update _ := update

/-- Two requests that are in order, the second with an item that the first has brought. -/
def repeated : List (Request ℕ ℕ) :=
  [[[⟨1, some 1, 0⟩, ⟨2, some 1, 5⟩], [⟨3, some 1, 9⟩]], [[⟨2, none, 0⟩], [⟨4, some 2, 3⟩]]]

end Lru

end VllmRwkv.Multimodal
