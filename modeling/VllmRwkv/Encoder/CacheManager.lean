import VllmRwkv.Request
import VllmRwkv.Lib.Dict

/-!
# The encoder cache

`EncoderCacheManager` of `v1/core/encoder_cache_manager.py`: which encoder outputs are resident,
which requests refer to them, and how many embeddings fit beside them. An output that nobody
refers to stays resident until its room is needed.
-/

namespace VllmRwkv

open List Dict Option Raise Relation

variable {H : Type} {f : MultiModalFeatureSpec} {refs : List RequestId}

structure EncoderCacheManager where
  cacheSize : ℕ
  numFreeSlots : ℤ
  numFreeableSlots : ℤ
  /-- The requests that refer to a resident output. -/
  cached : Dict ℕ (List RequestId)
  numEmbedsByHash : Dict ℕ ℕ
  requestCachedIds : Dict RequestId (List ℕ)
  /-- The resident outputs that no request refers to, oldest first. -/
  freeable : Dict ℕ ℕ
  freed : List ℕ

abbrev EncoderM := EStateM PyErr EncoderCacheManager

namespace EncoderCacheManager

/-- `__init__`. -/
def init (cacheSize : ℕ) : EncoderCacheManager where
  cacheSize := cacheSize
  numFreeSlots := cacheSize
  numFreeableSlots := cacheSize
  cached := .empty
  numEmbedsByHash := .empty
  requestCachedIds := .empty
  freeable := .empty
  freed := []

def reset : EncoderM Unit := modify fun m => init m.cacheSize

section

variable (r : Request H) (inputId : ℕ)

/-- `request.mm_features[input_id]`. -/
def feature : EncoderM MultiModalFeatureSpec :=
  match r.mmFeatures[inputId]? with
  | none => throw .indexError
  | some f => pure f

/-- `request.get_num_encoder_embeds(input_id)`. -/
def getNumEncoderEmbeds : EncoderM ℕ :=
  match r.mmFeatures[inputId]? with
  | none => throw (.assertionError "input_id < len(self.mm_features)")
  | some f => pure f.mmPosition.getNumEmbeds

/-- `self.freeable.pop(mm_hash)` with the count it takes back. -/
def popFreeable (mmHash : ℕ) : EncoderM Unit := do
  match (← get).freeable.get? mmHash with
  | none => throw .keyError
  | some numEncoderEmbeds =>
    modify fun m => { m with
      freeable := m.freeable.erase mmHash
      numFreeableSlots := m.numFreeableSlots - numEncoderEmbeds }

section

variable (requestId : RequestId)

/-- Record that the request refers to an output. -/
def addReference (inputId mmHash : ℕ) (refs : List RequestId) : EncoderM Unit :=
  modify fun m => { m with
    cached := m.cached.set mmHash (refs.insert requestId)
    requestCachedIds := m.requestCachedIds.set requestId
      (((m.requestCachedIds.get? requestId).getD []).insert inputId) }

def checkAndUpdateCache : EncoderM Bool := do
  let mmHash := (← feature r inputId).identifier
  match (← get).cached.get? mmHash with
  | none => return false
  | some refs =>
    runIf (refs = []) (popFreeable mmHash)
    addReference r.requestId inputId mmHash refs
    return true

/-- The eviction loop of `can_allocate`, over the reclaimable outputs from the oldest on. -/
def evict (numEmbeds : ℤ) : List ℕ → EncoderM Unit
  | [] => do check (numEmbeds ≤ (← get).numFreeSlots) .keyError
  | mmHash :: rest => do
    let m ← get
    runIf (m.numFreeSlots < numEmbeds) do
      check (mmHash ∈ m.cached.keys ∧ mmHash ∈ m.numEmbedsByHash.keys) .keyError
      modify fun m => { m with
        freeable := m.freeable.erase mmHash
        cached := m.cached.erase mmHash
        numEmbedsByHash := m.numEmbedsByHash.erase mmHash
        freed := m.freed ++ [mmHash]
        numFreeSlots := m.numFreeSlots + ((m.freeable.get? mmHash).getD 0 : ℕ) }
      evict numEmbeds rest

def canAllocate (encoderComputeBudget : ℤ) (numEmbedsToSchedule : ℕ) : EncoderM Bool := do
  let numEmbeds ← getNumEncoderEmbeds r inputId
  if encoderComputeBudget < numEmbeds then return false
  else do
    let m ← get
    let numEmbeds : ℤ := numEmbeds + numEmbedsToSchedule
    if numEmbeds ≤ m.numFreeSlots then return true
    else if m.numFreeableSlots < numEmbeds then return false
    else do
      evict numEmbeds m.freeable.keys
      return true

def allocate : EncoderM Unit := do
  let f ← feature r inputId
  let m ← get
  let mmHash := f.identifier
  let numEncoderEmbeds := f.mmPosition.getNumEmbeds
  let cachedNumEncoderEmbeds := (m.numEmbedsByHash.get? mmHash).getD numEncoderEmbeds
  modify fun m => { m with
    cached := m.cached.set mmHash ((m.cached.get? mmHash).getD [])
    numEmbedsByHash := m.numEmbedsByHash.set mmHash cachedNumEncoderEmbeds }
  check (cachedNumEncoderEmbeds = numEncoderEmbeds) (.assertionError "cached_num_encoder_embeds == num_encoder_embeds")
  check (m.numFreeSlots ≥ numEncoderEmbeds) (.assertionError "self.num_free_slots >= num_encoder_embeds")
  check (m.numFreeableSlots ≥ numEncoderEmbeds) (.assertionError "self.num_freeable_slots >= num_encoder_embeds")
  addReference r.requestId inputId mmHash ((m.cached.get? mmHash).getD [])
  modify fun m => { m with
    numFreeSlots := m.numFreeSlots - numEncoderEmbeds
    numFreeableSlots := m.numFreeableSlots - numEncoderEmbeds }

/-- `get_cached_input_ids`. -/
def getCachedInputIds (m : EncoderCacheManager) (r : Request H) : List ℕ :=
  (m.requestCachedIds.get? r.requestId).getD []

/-- The first half of `free_encoder_input`: the request no longer has the input. -/
def discardInput (inputId : ℕ) (m : EncoderCacheManager) : EncoderCacheManager :=
  match m.requestCachedIds.get? requestId with
  | none => m
  | some ids =>
    if ids.erase inputId = [] then { m with requestCachedIds := m.requestCachedIds.erase requestId }
    else { m with requestCachedIds := m.requestCachedIds.set requestId (ids.erase inputId) }

/-- Whether one of the inputs `ids` of the request is the item. -/
def holdsItem (r : Request H) (mmHash : ℕ) : List ℕ → EncoderM Bool
  | [] => pure false
  | id :: ids => do
    let f ← feature r id
    if f.identifier = mmHash then return true else holdsItem r mmHash ids

/-- The request gives up its reference to an output that the requests `refs` refer to. -/
def discardReference (mmHash : ℕ) (refs : List RequestId) : EncoderM Unit :=
  if refs.erase requestId = [] then do
    match (← get).numEmbedsByHash.get? mmHash with
    | none => throw .keyError
    | some numEncoderEmbeds =>
      modify fun m => { m with
        cached := m.cached.set mmHash []
        freeable := m.freeable.set mmHash numEncoderEmbeds
        numFreeableSlots := m.numFreeableSlots + numEncoderEmbeds }
  else modify fun m => { m with cached := m.cached.set mmHash (refs.erase requestId) }

end

/-- `free_encoder_input`; a request that has the same item at another place keeps its reference. -/
def freeEncoderInput : EncoderM Unit := do
  let mmHash := (← feature r inputId).identifier
  modify (discardInput r.requestId inputId)
  match (← get).cached.get? mmHash with
  | none | some [] => return ()
  | some refs => do
    if ← holdsItem r mmHash ((← get).getCachedInputIds r) then return ()
    else discardReference r.requestId mmHash refs

end

def free (r : Request H) : EncoderM Unit := do
  forM ((← get).getCachedInputIds r) (freeEncoderInput r)

/-- `get_freed_mm_hashes`: an output that was evicted and allocated again is not freed. -/
def getFreedMmHashes : EncoderM (List ℕ) := do
  let m ← get
  modify fun m => { m with freed := [] }
  return m.freed.filter (· ∉ m.cached.keys)

/-! ## The accounts -/

/-- The two counters, and the table of reclaimable outputs, agree with what is resident. -/
structure Accounted (m : EncoderCacheManager) : Prop where
  resident : ∀ h, h ∈ m.cached.keys ↔ h ∈ m.numEmbedsByHash.keys
  freeable : ∀ h k, m.freeable.get? h = some k ↔ m.cached.get? h = some [] ∧ m.numEmbedsByHash.get? h = some k
  free : m.numFreeSlots = m.cacheSize - m.numEmbedsByHash.total
  freeableSlots : m.numFreeableSlots = m.numFreeSlots + m.freeable.total
  nonneg : 0 ≤ m.numFreeSlots

/-- What the calls other than `allocate` do to the room: the accounts stay right, no room is lost and
no output becomes resident. -/
structure Keeping (m m' : EncoderCacheManager) : Prop where
  accounted : Accounted m'
  cacheSize : m'.cacheSize = m.cacheSize
  room : m.numFreeSlots ≤ m'.numFreeSlots
  absent : ∀ h, m.cached.get? h = none → m'.cached.get? h = none

theorem Accounted.init (cacheSize : ℕ) : Accounted (init cacheSize) where
  resident := fun _ => Iff.rfl
  freeable := fun h k => by simp [EncoderCacheManager.init]
  free := by simp [EncoderCacheManager.init, Dict.total]
  freeableSlots := by simp [EncoderCacheManager.init, Dict.total]
  nonneg := Int.natCast_nonneg _

theorem Keeping.refl {m : EncoderCacheManager} (h : Accounted m) : Keeping m m := ⟨h, rfl, le_refl _, fun _ h => h⟩

theorem Keeping.trans {m m' m'' : EncoderCacheManager} (h : Keeping m m') (h' : Keeping m' m'') : Keeping m m'' :=
  ⟨h'.accounted, h'.cacheSize.trans h.cacheSize, h.room.trans h'.room, fun k hk => h'.absent k (h.absent k hk)⟩

section Calls

variable {m : EncoderCacheManager} {r : Request H} {inputId mmHash : ℕ}

section

variable (hm : Accounted m)

include hm

theorem Accounted.freeable_none {mmHash : ℕ} (h : m.cached.get? mmHash ≠ some []) : m.freeable.get? mmHash = none := by
  cases hf : m.freeable.get? mmHash with
  | none => rfl
  | some k => exact absurd ((hm.freeable mmHash k).1 hf).1 h

/-- Changing who refers to a referenced output changes no account. -/
theorem Accounted.set_cached (hin : mmHash ∈ m.cached.keys)
    (hfree : m.freeable.get? mmHash = none) (hrefs : refs ≠ []) :
    Accounted { m with cached := m.cached.set mmHash refs } where
  resident := fun h => by
    rw [← hm.resident h, keys_set_of_mem hin]
  freeable := fun h k => by
    rcases eq_or_ne h mmHash with rfl | hne
    · show m.freeable.get? h = some k ↔ _
      rw [hfree, get?_set_self]
      simp [hrefs]
    · show m.freeable.get? h = some k ↔ (m.cached.set mmHash refs).get? h = some [] ∧ _
      rw [get?_set_of_ne hne]
      exact hm.freeable h k
  free := hm.free
  freeableSlots := hm.freeableSlots
  nonneg := hm.nonneg

variable {k : ℕ}

/-- An output that somebody refers to again is no longer reclaimable. -/
theorem Accounted.revive (hk : m.freeable.get? mmHash = some k) (hrefs : refs ≠ []) : Accounted { m with
      freeable := m.freeable.erase mmHash
      numFreeableSlots := m.numFreeableSlots - k
      cached := m.cached.set mmHash refs } where
  resident := fun h => by
    have hin : mmHash ∈ m.cached.keys := mem_keys_of_get? ((hm.freeable mmHash k).1 hk).1
    rw [← hm.resident h, keys_set_of_mem hin]
  freeable := fun h j => by
    rcases eq_or_ne h mmHash with rfl | hne
    · show (m.freeable.erase h).get? h = some j ↔ _
      rw [get?_erase_self, get?_set_self]
      simp [hrefs]
    · show (m.freeable.erase mmHash).get? h = some j ↔ (m.cached.set mmHash refs).get? h = some [] ∧ _
      rw [get?_set_of_ne hne, get?_erase_of_ne hne]
      exact hm.freeable h j
  free := hm.free
  freeableSlots := by
    have htotal := total_erase hk
    have hslots := hm.freeableSlots
    show m.numFreeableSlots - k = m.numFreeSlots + ((m.freeable.erase mmHash).total : ℕ)
    omega
  nonneg := hm.nonneg

theorem checkAndUpdateCache_spec : wp (checkAndUpdateCache r inputId) (fun _ m' => Keeping m m') any m := by
  unfold checkAndUpdateCache feature
  rw [wp_bind]
  cases r.mmFeatures[inputId]? with
  | none => trivial
  | some f =>
    rw [wp_pure, wp_get_bind]
    cases hrefs : m.cached.get? f.identifier with
    | none => exact Keeping.refl hm
    | some refs =>
      have hin := mem_keys_of_get? hrefs
      have hne : refs.insert r.requestId ≠ [] := ne_nil_of_mem mem_insert_self
      have habsent (h : ℕ) (hnone : m.cached.get? h = none) :
          (m.cached.set f.identifier (refs.insert r.requestId)).get? h = none := by
        have hdiff : h ≠ f.identifier := fun heq => by rw [heq, hrefs] at hnone; cases hnone
        rw [get?_set_of_ne hdiff, hnone]
      rw [wp_bind, wp_runIf]
      constructor
      · intro hnil
        unfold popFreeable
        rw [wp_get_bind]
        cases hk : m.freeable.get? f.identifier with
        | none => trivial
        | some k =>
          exact ⟨⟨(hm.revive hk hne).resident, (hm.revive hk hne).freeable, hm.free,
            (hm.revive hk hne).freeableSlots, hm.nonneg⟩, rfl, le_refl _, habsent⟩
      · intro hsome
        have hnone : m.freeable.get? f.identifier = none := hm.freeable_none (by rw [hrefs]; simpa using hsome)
        have h := hm.set_cached hin hnone hne
        exact ⟨⟨h.resident, h.freeable, h.free, h.freeableSlots, h.nonneg⟩, rfl, le_refl _, habsent⟩

/-- Evicting a reclaimable output gives its room back. -/
theorem Accounted.evict (hk : m.freeable.get? mmHash = some k) : Accounted { m with
      freeable := m.freeable.erase mmHash
      cached := m.cached.erase mmHash
      numEmbedsByHash := m.numEmbedsByHash.erase mmHash
      numFreeSlots := m.numFreeSlots + k } where
  resident := fun h => by
    rw [mem_keys_erase, mem_keys_erase, hm.resident h]
  freeable := fun h j => by
    rcases eq_or_ne h mmHash with rfl | hne
    · simp
    show (m.freeable.erase mmHash).get? h = some j ↔
      (m.cached.erase mmHash).get? h = some [] ∧ (m.numEmbedsByHash.erase mmHash).get? h = some j
    rw [get?_erase_of_ne hne, get?_erase_of_ne hne, get?_erase_of_ne hne]
    exact hm.freeable h j
  free := by
    have htotal := total_erase ((hm.freeable mmHash k).1 hk).2
    have hfree := hm.free
    show m.numFreeSlots + k = m.cacheSize - ((m.numEmbedsByHash.erase mmHash).total : ℕ)
    omega
  freeableSlots := by
    have htotal := total_erase hk
    have hslots := hm.freeableSlots
    show m.numFreeableSlots = m.numFreeSlots + k + ((m.freeable.erase mmHash).total : ℕ)
    omega
  nonneg := by
    have hfree := hm.nonneg
    show 0 ≤ m.numFreeSlots + k
    omega

/-- The eviction loop ends with the room it was asked for, and never runs out of outputs. -/
theorem evict_spec {need : ℤ} {keys : List ℕ} (hkeys : m.freeable.keys = keys) (hneed : need ≤ m.numFreeableSlots) :
    wp (evict need keys) (fun _ m' => Keeping m m' ∧ need ≤ m'.numFreeSlots) never m := by
  induction keys generalizing m with
  | nil =>
    have hslots := hm.freeableSlots
    have hzero : m.freeable.total = 0 := by rw [total, hkeys]; rfl
    have henough : need ≤ m.numFreeSlots := by omega
    rw [evict, wp_get_bind, wp_check]
    exact ⟨fun _ => ⟨Keeping.refl hm, henough⟩, fun h => h henough⟩
  | cons h rest ih =>
    have hin : h ∈ m.freeable.keys := hkeys ▸ mem_cons_self
    obtain ⟨k, hk⟩ := exists_of_mem_keys hin
    obtain ⟨hcached, hembeds⟩ := (hm.freeable h k).1 hk
    rw [evict, wp_get_bind, wp_runIf]
    constructor
    · intro _
      rw [wp_bind, wp_check]
      constructor
      · intro _
        rw [wp_bind, wp_modify, hk, getD_some]
        have hm' := hm.evict hk
        have hrest : (m.freeable.erase h).keys = rest := by
          show m.freeable.keys.erase h = rest
          rw [hkeys, erase_cons_head]
        refine wp_imp (ih ⟨hm'.resident, hm'.freeable, hm'.free, hm'.freeableSlots, hm'.nonneg⟩
          hrest hneed) (fun _ m' hend => ?_)
        obtain ⟨hkeep, henough⟩ := hend
        refine ⟨⟨hkeep.accounted, hkeep.cacheSize, by omega, fun h' hnone => hkeep.absent h' ?_⟩, henough⟩
        rcases eq_or_ne h' h with rfl | hne
        · exact get?_erase_self
        · rw [get?_erase_of_ne hne, hnone]
      · intro hmissing
        exact hmissing ⟨mem_keys_of_get? hcached, mem_keys_of_get? hembeds⟩
    · intro henough
      exact ⟨Keeping.refl hm, not_lt.1 henough⟩

/-- `can_allocate` says yes only when the item, and what was promised before it, fits. -/
theorem canAllocate_spec {budget : ℤ} {numEmbedsToSchedule : ℕ} :
    wp (canAllocate r inputId budget numEmbedsToSchedule) (fun b m' => Keeping m m' ∧
      (b → ∀ f, r.mmFeatures[inputId]? = some f →
        f.mmPosition.getNumEmbeds + numEmbedsToSchedule ≤ m'.numFreeSlots)) any m := by
  unfold canAllocate getNumEncoderEmbeds
  rw [wp_bind]
  cases r.mmFeatures[inputId]? with
  | none => trivial
  | some f =>
    rw [wp_pure]
    split
    · exact ⟨Keeping.refl hm, nofun⟩
    rw [wp_get_bind]
    dsimp only
    split
    next hfits =>
      refine ⟨Keeping.refl hm, fun _ f' hf' => ?_⟩
      cases hf'
      exact hfits
    split
    · exact ⟨Keeping.refl hm, nofun⟩
    rename_i hreclaim
    rw [wp_bind]
    refine wp_mono (evict_spec hm rfl (not_lt.1 hreclaim)) (fun _ m' h => ?_) (fun _ _ h => h.elim)
    refine ⟨h.1, fun _ f' hf' => ?_⟩
    cases hf'
    exact h.2

/-- An item that is not resident, and for which there is room, is allocated. -/
theorem allocate_spec (hf : r.mmFeatures[inputId]? = some f) (habsent : m.cached.get? f.identifier = none)
    (hroom : f.mmPosition.getNumEmbeds ≤ m.numFreeSlots) :
    wp (allocate r inputId) (fun _ m' => Accounted m' ∧ m'.cacheSize = m.cacheSize ∧
      m'.numFreeSlots = m.numFreeSlots - f.mmPosition.getNumEmbeds ∧
      ∀ h, h ≠ f.identifier → m'.cached.get? h = m.cached.get? h) never m := by
  have hnew : m.numEmbedsByHash.get? f.identifier = none := by
    rw [← not_mem_keys_iff, ← hm.resident, not_mem_keys_iff, habsent]
  have hnone : m.freeable.get? f.identifier = none := hm.freeable_none (by rw [habsent]; simp)
  have hslots := hm.freeableSlots
  have hfree := hm.free
  have htotal := total_set_new (v := f.mmPosition.getNumEmbeds) hnew
  unfold allocate feature
  rw [hf, wp_bind, wp_pure, wp_get_bind]
  dsimp only
  rw [hnew, habsent, getD_none, getD_none, wp_bind, wp_modify, wp_bind, wp_check]
  refine ⟨fun _ => ?_, fun h => h rfl⟩
  rw [wp_bind, wp_check]
  refine ⟨fun _ => ?_, fun h => h hroom⟩
  rw [wp_bind, wp_check]
  refine ⟨fun _ => ?_, fun h => h (by omega)⟩
  rw [addReference, wp_bind, wp_modify, wp_modify, habsent, getD_none, Dict.set_set]
  refine ⟨⟨fun h => ?_, fun h k => ?_, ?_, ?_, ?_⟩, rfl, rfl, fun h hne => ?_⟩
  · rw [mem_keys_set, mem_keys_set, hm.resident h]
  · rcases eq_or_ne h f.identifier with rfl | hne
    · rw [hnone, get?_set_self]
      simp
    · rw [get?_set_of_ne hne, get?_set_of_ne hne]
      exact hm.freeable h k
  · show m.numFreeSlots - f.mmPosition.getNumEmbeds =
      m.cacheSize - ((m.numEmbedsByHash.set f.identifier f.mmPosition.getNumEmbeds).total : ℕ)
    omega
  · show m.numFreeableSlots - f.mmPosition.getNumEmbeds =
      m.numFreeSlots - f.mmPosition.getNumEmbeds + (m.freeable.total : ℕ)
    omega
  · show 0 ≤ m.numFreeSlots - f.mmPosition.getNumEmbeds
    omega
  · rw [get?_set_of_ne hne]

/-- An output whose last reference goes becomes reclaimable. -/
theorem Accounted.release (hrefs : m.cached.get? mmHash = some refs) (hne : refs ≠ [])
    (hk : m.numEmbedsByHash.get? mmHash = some k) : Accounted { m with
      cached := m.cached.set mmHash []
      freeable := m.freeable.set mmHash k
      numFreeableSlots := m.numFreeableSlots + k } where
  resident := fun h => by
    rw [← hm.resident h, keys_set_of_mem (mem_keys_of_get? hrefs)]
  freeable := fun h j => by
    show (m.freeable.set mmHash k).get? h = some j ↔ (m.cached.set mmHash []).get? h = some [] ∧ _
    rcases eq_or_ne h mmHash with rfl | hdiff
    · rw [get?_set_self, get?_set_self, hk]
      simp
    · rw [get?_set_of_ne hdiff, get?_set_of_ne hdiff]
      exact hm.freeable h j
  free := hm.free
  freeableSlots := by
    have hnone : m.freeable.get? mmHash = none := hm.freeable_none (by rw [hrefs]; simpa using hne)
    have htotal := total_set_new (v := k) hnone
    have hslots := hm.freeableSlots
    show m.numFreeableSlots + k = m.numFreeSlots + ((m.freeable.set mmHash k).total : ℕ)
    omega
  nonneg := hm.nonneg

theorem discardReference_spec {requestId : RequestId} (hrefs : m.cached.get? mmHash = some refs) (hne : refs ≠ []) :
    wp (discardReference requestId mmHash refs) (fun _ m' => Keeping m m') any m := by
  have hin := mem_keys_of_get? hrefs
  have habsent (refs' : List RequestId) (h : ℕ) (hnone : m.cached.get? h = none) :
      (m.cached.set mmHash refs').get? h = none := by
    have hdiff : h ≠ mmHash := fun heq => by rw [heq, hrefs] at hnone; cases hnone
    rw [get?_set_of_ne hdiff, hnone]
  unfold discardReference
  split_ifs with hothers
  · rw [wp_get_bind]
    cases hk : m.numEmbedsByHash.get? mmHash with
    | none => trivial
    | some k => exact ⟨hm.release hrefs hne hk, rfl, le_refl _, habsent []⟩
  · have hnone : m.freeable.get? mmHash = none := hm.freeable_none (by rw [hrefs]; simpa using hne)
    exact ⟨hm.set_cached hin hnone hothers, rfl, le_refl _, habsent _⟩

end

/-- Looking through a request's inputs changes nothing. -/
theorem holdsItem_spec {ids : List ℕ} {Q : Bool → EncoderCacheManager → Prop} (hQ : ∀ b, Q b m) :
    wp (holdsItem r mmHash ids) Q any m := by
  induction ids with
  | nil => exact hQ false
  | cons id ids ih =>
    unfold holdsItem feature
    rw [wp_bind]
    cases r.mmFeatures[id]? with
    | none => trivial
    | some f =>
      rw [wp_pure]
      split
      · exact hQ true
      · exact ih

theorem discardInput_keeping (hm : Accounted m) (requestId : RequestId) (inputId : ℕ) :
    Keeping m (discardInput requestId inputId m) ∧ (discardInput requestId inputId m).cached = m.cached := by
  unfold discardInput
  split
  · exact ⟨Keeping.refl hm, rfl⟩
  split <;> exact ⟨⟨⟨hm.resident, hm.freeable, hm.free, hm.freeableSlots, hm.nonneg⟩, rfl, le_refl _, fun _ h => h⟩, rfl⟩

theorem freeEncoderInput_spec (hm : Accounted m) :
    wp (freeEncoderInput r inputId) (fun _ m' => Keeping m m') any m := by
  unfold freeEncoderInput feature
  rw [wp_bind]
  cases r.mmFeatures[inputId]? with
  | none => trivial
  | some f =>
    rw [wp_pure, wp_bind, wp_modify, wp_get_bind]
    obtain ⟨hkeep, hcached⟩ := discardInput_keeping hm r.requestId inputId
    rw [hcached]
    split
    · exact hkeep
    · exact hkeep
    rename_i refs hne hrefs
    rw [wp_get_bind, wp_bind]
    refine holdsItem_spec fun b => ?_
    split
    · exact hkeep
    · rw [← hcached] at hrefs
      exact wp_imp (discardReference_spec hkeep.accounted hrefs hne) (fun _ _ h => hkeep.trans h)

theorem free_spec (hm : Accounted m) : wp (free r) (fun _ m' => Keeping m m') any m := by
  refine wp_forM (fun _ m' => Keeping m m') (fun inputId _ m' h => ?_) (Keeping.refl hm)
  exact wp_imp (freeEncoderInput_spec h.accounted) (fun _ _ h' => h.trans h')

end Calls

end EncoderCacheManager

/-! ## Runs of the scheduler's protocol -/

/-- The encoder cache, and the items that `can_allocate` has promised room for and that are still to
be allocated. -/
structure EncoderWorld where
  m : EncoderCacheManager
  granted : List MultiModalFeatureSpec

namespace EncoderWorld

open EncoderCacheManager

/-- The embeddings of the promised items. -/
def promised (w : EncoderWorld) : ℕ := (w.granted.map fun f => f.mmPosition.getNumEmbeds).sum

/-- A returning call of the scheduler. An item is promised room after `check_and_update_cache` has
missed it and `can_allocate`, told of what is promised already, has accepted it; the scheduler does
not ask for one item twice in a step. Only a promised item is allocated, and other calls may come in
between: the request's blocks are allocated first, and another request may be preempted for them. -/
inductive Step (H : Type) (w : EncoderWorld) : EncoderWorld → Prop
  | checked (r : Request H) (inputId : ℕ) (hit : Bool) (m' : EncoderCacheManager)
      (hrun : checkAndUpdateCache r inputId w.m = .ok hit m') : Step H w ⟨m', w.granted⟩
  | asked (r : Request H) (inputId : ℕ) (budget : ℤ) (numEmbedsToSchedule : ℕ) (answer : Bool)
      (m' : EncoderCacheManager)
      (hrun : canAllocate r inputId budget numEmbedsToSchedule w.m = .ok answer m') :
      Step H w ⟨m', w.granted⟩
  | granted (r : Request H) (inputId : ℕ) (f : MultiModalFeatureSpec) (budget : ℤ)
      (numEmbedsToSchedule : ℕ) (m1 m' : EncoderCacheManager)
      (hf : r.mmFeatures[inputId]? = some f)
      (hnew : f.identifier ∉ w.granted.map (·.identifier))
      (hmiss : checkAndUpdateCache r inputId w.m = .ok false m1)
      (htold : w.promised ≤ numEmbedsToSchedule)
      (hrun : canAllocate r inputId budget numEmbedsToSchedule m1 = .ok true m') :
      Step H w ⟨m', f :: w.granted⟩
  | abandoned : Step H w ⟨w.m, []⟩
  | allocated (r : Request H) (inputId : ℕ) (f : MultiModalFeatureSpec) (m' : EncoderCacheManager)
      (hf : r.mmFeatures[inputId]? = some f) (hmem : f ∈ w.granted)
      (hrun : allocate r inputId w.m = .ok () m') : Step H w ⟨m', w.granted.erase f⟩
  | inputFreed (r : Request H) (inputId : ℕ) (m' : EncoderCacheManager)
      (hrun : freeEncoderInput r inputId w.m = .ok () m') : Step H w ⟨m', w.granted⟩
  | freed (r : Request H) (m' : EncoderCacheManager) (hrun : free r w.m = .ok () m') : Step H w ⟨m', w.granted⟩
  | takenFreed (hashes : List ℕ) (m' : EncoderCacheManager)
      (hrun : getFreedMmHashes w.m = .ok hashes m') : Step H w ⟨m', w.granted⟩
  | wasReset (m' : EncoderCacheManager) (hrun : reset w.m = .ok () m') : Step H w ⟨m', []⟩

/-- The accounts are right, the promises fit in the free room, and no promised item is resident. -/
structure Sound (size : ℕ) (w : EncoderWorld) : Prop where
  accounted : Accounted w.m
  cacheSize : w.m.cacheSize = size
  room : w.promised ≤ w.m.numFreeSlots
  distinct : (w.granted.map (·.identifier)).Nodup
  absent : ∀ f ∈ w.granted, w.m.cached.get? f.identifier = none

variable {size : ℕ} {w w' : EncoderWorld}

section

variable {m' : EncoderCacheManager}

theorem Sound.keeping (h : Sound size w) (hkeep : Keeping w.m m') : Sound size ⟨m', w.granted⟩ where
  accounted := hkeep.accounted
  cacheSize := hkeep.cacheSize.trans h.cacheSize
  room := h.room.trans hkeep.room
  distinct := h.distinct
  absent := fun f hf => hkeep.absent _ (h.absent f hf)

theorem Sound.of_accounted {m : EncoderCacheManager} (h : Accounted m) (hsize : m.cacheSize = size) :
    Sound size ⟨m, []⟩ where
  accounted := h
  cacheSize := hsize
  room := h.nonneg
  distinct := nodup_nil
  absent := nofun

/-- A miss leaves the cache as it is, and says that the item is not resident. -/
theorem checkAndUpdateCache_miss {m m' : EncoderCacheManager} {r : Request H} {inputId : ℕ}
    (hf : r.mmFeatures[inputId]? = some f) (hrun : checkAndUpdateCache r inputId m = .ok false m') :
    m' = m ∧ m.cached.get? f.identifier = none := by
  have hspec : wp (checkAndUpdateCache r inputId)
      (fun hit m' => hit = false → m' = m ∧ m.cached.get? f.identifier = none) any m := by
    unfold checkAndUpdateCache feature
    rw [hf, wp_bind, wp_pure, wp_get_bind]
    split
    next hnone => exact fun _ => ⟨rfl, hnone⟩
    rw [wp_bind]
    refine wp_imp wp_trivial (fun _ _ _ => ?_)
    rw [wp_bind]
    exact wp_imp wp_trivial (fun _ _ _ h => Bool.noConfusion h)
  exact wp_ok hspec hrun rfl

theorem Sound.grant {r : Request H} {inputId numEmbedsToSchedule : ℕ} {budget : ℤ} (h : Sound size w)
    (hf : r.mmFeatures[inputId]? = some f) (hnew : f.identifier ∉ w.granted.map (·.identifier))
    (hnone : w.m.cached.get? f.identifier = none) (htold : w.promised ≤ numEmbedsToSchedule)
    (hrun : canAllocate r inputId budget numEmbedsToSchedule w.m = .ok true m') : Sound size ⟨m', f :: w.granted⟩ := by
  obtain ⟨hkeep, hfits⟩ := wp_ok (canAllocate_spec h.accounted) hrun
  have hroom := hfits rfl f hf
  have hkept := h.keeping hkeep
  refine ⟨hkept.accounted, hkept.cacheSize, ?_, nodup_cons.2 ⟨hnew, h.distinct⟩, ?_⟩
  · show (((f :: w.granted).map fun f => f.mmPosition.getNumEmbeds).sum : ℕ) ≤ m'.numFreeSlots
    unfold promised at htold
    rw [map_cons, sum_cons]
    omega
  intro g hg
  rcases mem_cons.1 hg with rfl | hg
  · exact hkeep.absent _ hnone
  · exact hkept.absent g hg

theorem promised_erase (hmem : f ∈ w.granted) :
    ((w.granted.erase f).map fun f => f.mmPosition.getNumEmbeds).sum + f.mmPosition.getNumEmbeds = w.promised := by
  have hperm := ((perm_cons_erase hmem).map fun f => f.mmPosition.getNumEmbeds).sum_nat
  rw [map_cons, sum_cons] at hperm
  unfold promised
  omega

theorem Sound.room_of_mem (h : Sound size w) (hmem : f ∈ w.granted) : f.mmPosition.getNumEmbeds ≤ w.m.numFreeSlots := by
  have hroom := h.room
  have hsum := promised_erase hmem
  omega

theorem Sound.allocate {r : Request H} {inputId : ℕ} (h : Sound size w) (hf : r.mmFeatures[inputId]? = some f)
    (hmem : f ∈ w.granted) (hrun : allocate r inputId w.m = .ok () m') : Sound size ⟨m', w.granted.erase f⟩ := by
  obtain ⟨hacc, hsize, hfree, hothers⟩ :=
    wp_ok (allocate_spec h.accounted hf (h.absent f hmem) (h.room_of_mem hmem)) hrun
  have hperm := (perm_cons_erase hmem).map (·.identifier)
  have hnodup := hperm.nodup_iff.1 h.distinct
  rw [map_cons, nodup_cons] at hnodup
  refine ⟨hacc, hsize.trans h.cacheSize, ?_, hnodup.2, fun g hg => ?_⟩
  · have hroom := h.room
    have hsum := promised_erase hmem
    show (((w.granted.erase f).map fun f => f.mmPosition.getNumEmbeds).sum : ℕ) ≤ m'.numFreeSlots
    omega
  have hne : g.identifier ≠ f.identifier := fun heq =>
    hnodup.1 (heq ▸ mem_map_of_mem hg)
  rw [hothers _ hne]
  exact h.absent g (mem_of_mem_erase hg)

end

theorem Sound.step (h : Sound size w) (hstep : Step H w w') : Sound size w' := by
  cases hstep with
  | checked r inputId hit m' hrun =>
    exact h.keeping (wp_ok (Q := fun _ => Keeping w.m) (checkAndUpdateCache_spec h.accounted) hrun)
  | asked r inputId budget n answer m' hrun =>
    exact h.keeping (wp_ok (canAllocate_spec h.accounted) hrun).1
  | granted r inputId f budget n m1 m' hf hnew hmiss htold hrun =>
    obtain ⟨hsame, hnone⟩ := checkAndUpdateCache_miss hf hmiss
    exact h.grant hf hnew hnone htold (hsame ▸ hrun)
  | abandoned => exact Sound.of_accounted h.accounted h.cacheSize
  | allocated r inputId f m' hf hmem hrun => exact h.allocate hf hmem hrun
  | inputFreed r inputId m' hrun =>
    exact h.keeping (wp_ok (Q := fun _ => Keeping w.m) (freeEncoderInput_spec h.accounted) hrun)
  | freed r m' hrun =>
    exact h.keeping (wp_ok (Q := fun _ => Keeping w.m) (free_spec h.accounted) hrun)
  | takenFreed hashes m' hrun =>
    cases hrun
    have hm := h.accounted
    exact ⟨⟨hm.resident, hm.freeable, hm.free, hm.freeableSlots, hm.nonneg⟩, h.cacheSize, h.room, h.distinct, h.absent⟩
  | wasReset m' hrun =>
    cases hrun
    exact Sound.of_accounted (Accounted.init _) h.cacheSize

theorem sound_run (hrun : ReflTransGen (Step H) ⟨init size, []⟩ w) : Sound size w := by
  induction hrun with
  | refl => exact Sound.of_accounted (Accounted.init size) rfl
  | tail _ hstep ih => exact ih.step hstep

end EncoderWorld

namespace EncoderCacheManager

/-- The embeddings of a resident output. -/
def embeds (m : EncoderCacheManager) (mmHash : ℕ) : ℕ := (m.numEmbedsByHash.get? mmHash).getD 0

/-- The resident outputs that no request refers to. -/
def unreferenced (m : EncoderCacheManager) : List ℕ :=
  m.cached.keys.filter fun h => m.cached.get? h = some []

variable {m : EncoderCacheManager} (hm : Accounted m)

include hm

theorem Accounted.mem_freeable {h : ℕ} : h ∈ m.freeable.keys ↔ h ∈ m.unreferenced := by
  unfold unreferenced
  rw [mem_filter, decide_eq_true_eq]
  constructor
  · intro hin
    obtain ⟨k, hk⟩ := exists_of_mem_keys hin
    have hcached := ((hm.freeable h k).1 hk).1
    exact ⟨mem_keys_of_get? hcached, hcached⟩
  · rintro ⟨hin, hcached⟩
    obtain ⟨k, hk⟩ := exists_of_mem_keys ((hm.resident h).1 hin)
    exact mem_keys_of_get? ((hm.freeable h k).2 ⟨hcached, hk⟩)

theorem Accounted.total_resident : m.numEmbedsByHash.total = (m.cached.keys.map m.embeds).sum :=
  total_eq_of_perm ((perm_ext_iff_of_nodup m.numEmbedsByHash.nodup m.cached.nodup).2 fun h => (hm.resident h).symm)

theorem Accounted.total_freeable : m.freeable.total = (m.unreferenced.map m.embeds).sum := by
  have hperm : m.freeable.keys.Perm m.unreferenced :=
    (perm_ext_iff_of_nodup m.freeable.nodup (m.cached.nodup.filter _)).2 fun _ => hm.mem_freeable
  have hval : m.unreferenced.map (fun h => (m.freeable.get? h).getD 0) = m.unreferenced.map m.embeds := by
    refine map_congr_left fun h hin => ?_
    obtain ⟨k, hk⟩ := exists_of_mem_keys (hm.mem_freeable.2 hin)
    unfold embeds
    rw [hk, ((hm.freeable h k).1 hk).2]
  rw [total_eq_of_perm hperm, hval]

theorem Accounted.bounds :
    0 ≤ m.numFreeSlots ∧ m.numFreeSlots ≤ m.numFreeableSlots ∧ m.numFreeableSlots ≤ m.cacheSize := by
  have hle : m.freeable.total ≤ m.numEmbedsByHash.total := total_le_of_sub fun h k hk => ((hm.freeable h k).1 hk).2
  have hfree := hm.free
  have hslots := hm.freeableSlots
  have hnonneg := hm.nonneg
  omega

end EncoderCacheManager

open EncoderCacheManager in
/-- In every run of the scheduler's protocol the counters say how much room is free and how much is
reclaimable, the table of reclaimable outputs holds those that nobody refers to, both counters stay
between zero and the size of the cache, and the allocation of a promised item does not raise. -/
theorem encoder_cache_accounting {size : ℕ} {w : EncoderWorld}
    (hrun : ReflTransGen (EncoderWorld.Step H) ⟨init size, []⟩ w) :
    (∀ h, h ∈ w.m.cached.keys ↔ h ∈ w.m.numEmbedsByHash.keys) ∧
    w.m.numFreeSlots = size - (w.m.cached.keys.map w.m.embeds).sum ∧
    w.m.numFreeableSlots = w.m.numFreeSlots + (w.m.unreferenced.map w.m.embeds).sum ∧
    (∀ h, h ∈ w.m.freeable.keys ↔ h ∈ w.m.unreferenced) ∧ (∀ h k, w.m.freeable.get? h = some k → k = w.m.embeds h) ∧
    (0 ≤ w.m.numFreeSlots ∧ w.m.numFreeSlots ≤ size) ∧ (0 ≤ w.m.numFreeableSlots ∧ w.m.numFreeableSlots ≤ size) ∧
    ∀ (r : Request H) (inputId : ℕ) (f : MultiModalFeatureSpec), r.mmFeatures[inputId]? = some f →
      f ∈ w.granted → ∃ m', allocate r inputId w.m = .ok () m' := by
  have h := EncoderWorld.sound_run hrun
  have hm := h.accounted
  obtain ⟨hnonneg, hle, hsize⟩ := hm.bounds
  rw [h.cacheSize] at hsize
  refine ⟨hm.resident, ?_, ?_, fun _ => hm.mem_freeable, fun k v hv => ?_, ⟨hnonneg, hle.trans hsize⟩,
    ⟨hnonneg.trans hle, hsize⟩, fun r inputId f hf hmem => ?_⟩
  · rw [← hm.total_resident, ← h.cacheSize]
    exact hm.free
  · rw [← hm.total_freeable]
    exact hm.freeableSlots
  · unfold embeds
    rw [((hm.freeable k v).1 hv).2]
    rfl
  · have hspec := allocate_spec hm hf (h.absent f hmem) (h.room_of_mem hmem)
    unfold wp at hspec
    split at hspec
    next m' hok => exact ⟨m', hok⟩
    · exact hspec.elim

/-- A request with one picture of three embeddings. -/
def pictureRequest : Request ℕ where
  requestId := 0
  status := .waiting
  numPromptTokens := 3
  allTokenIds := [9, 9, 9]
  blockHashes := []
  numComputedTokens := 0
  numInFlightTokens := 0
  sharedPrefixBoundary := 0
  mmFeatures := [⟨7, ⟨0, 3, none⟩⟩]

open EncoderCacheManager in
theorem encoder_cache_accounting_picture : ∃ w : EncoderWorld,
    ReflTransGen (EncoderWorld.Step ℕ) ⟨init 4, []⟩ w ∧ w.m.cached.get? 7 = some [0] ∧
      w.m.numFreeSlots = 4 - (w.m.cached.keys.map w.m.embeds).sum ∧
      w.m.numFreeableSlots = w.m.numFreeSlots + (w.m.unreferenced.map w.m.embeds).sum := by
  have hgrant : EncoderWorld.Step ℕ ⟨init 4, []⟩ ⟨init 4, [⟨7, ⟨0, 3, none⟩⟩]⟩ :=
    .granted pictureRequest 0 _ 8 0 _ _ rfl (by decide) rfl (by decide) rfl
  have hrun := (ReflTransGen.single hgrant).tail (.allocated pictureRequest 0 _ _ rfl (by decide) rfl)
  obtain ⟨-, hfree, hfreeable, -⟩ := encoder_cache_accounting hrun
  exact ⟨_, hrun, rfl, hfree, hfreeable⟩

end VllmRwkv
