import VllmRwkv.Encoder.CacheManager

/-!
# The encoder cache manager of a scheduler

`EncoderDecoderCacheManager` of `v1/core/encoder_cache_manager.py`, which only counts slots and
remembers for one step what to free, and `EncoderManager`: the manager in use, one of the two
classes.
-/

namespace VllmRwkv

open Raise

variable {H : Type}

structure EncoderDecoderCacheManager where
  cacheSize : ℕ
  numFreeSlots : ℤ
  allocated : List ℕ
  toFree : List ℕ

abbrev EncoderDecoderM := EStateM PyErr EncoderDecoderCacheManager

namespace EncoderDecoderCacheManager

/-- `__init__`. -/
def init (cacheSize : ℕ) : EncoderDecoderCacheManager where
  cacheSize := cacheSize
  numFreeSlots := cacheSize
  allocated := []
  toFree := []

def reset : EncoderDecoderM Unit := modify fun m => init m.cacheSize

/-- `request.get_num_encoder_embeds(input_id)`. -/
def getNumEncoderEmbeds (r : Request H) (inputId : ℕ) : EncoderDecoderM ℕ :=
  match r.mmFeatures[inputId]? with
  | none => throw (.assertionError "input_id < len(self.mm_features)")
  | some f => pure f.mmPosition.getNumEmbeds

def checkAndUpdateCache : EncoderDecoderM Bool := return false

section

variable (r : Request H)

def canAllocate (inputId : ℕ) (encoderComputeBudget : ℤ) (numEmbedsToSchedule : ℕ) : EncoderDecoderM Bool := do
  let numEncoderEmbeds ← getNumEncoderEmbeds r inputId
  if encoderComputeBudget < numEncoderEmbeds then return false
  else return (numEncoderEmbeds + numEmbedsToSchedule : ℕ) ≤ (← get).numFreeSlots

def allocate (inputId : ℕ) : EncoderDecoderM Unit := do
  let numEncoderEmbeds ← getNumEncoderEmbeds r inputId
  modify fun m => { m with numFreeSlots := m.numFreeSlots - numEncoderEmbeds }
  match r.mmFeatures[inputId]? with
  | none => throw .indexError
  | some f => modify fun m => { m with allocated := m.allocated ++ [f.identifier] }

/-- `get_cached_input_ids`. -/
def getCachedInputIds : List ℕ := List.range r.mmFeatures.length

/-- `free_encoder_input`: the slots are returned, whether or not they were taken. -/
def freeEncoderInput (inputId : ℕ) : EncoderDecoderM Unit := do
  let numEncoderEmbeds ← getNumEncoderEmbeds r inputId
  modify fun m => { m with numFreeSlots := m.numFreeSlots + numEncoderEmbeds }

def free : EncoderDecoderM Unit :=
  forM (List.range r.mmFeatures.length) (freeEncoderInput r)

end

/-- `get_freed_mm_hashes`: what was allocated in a step is freed in the step after it. -/
def getFreedMmHashes : EncoderDecoderM (List ℕ) := do
  let m ← get
  set { m with toFree := m.allocated, allocated := [] }
  return m.toFree

end EncoderDecoderCacheManager

/-- `encoder_cache_manager` of a scheduler. -/
inductive EncoderManager where
  | cache (m : EncoderCacheManager)
  | encoderDecoder (m : EncoderDecoderCacheManager)

namespace EncoderManager

/-- Run the method of the class in use. -/
def dispatch {α : Type} (onCache : EncoderM α) (onEncoderDecoder : EncoderDecoderM α) : EStateM PyErr EncoderManager α
  | .cache m =>
    match onCache m with
    | .ok a m => .ok a (.cache m)
    | .error e m => .error e (.cache m)
  | .encoderDecoder m =>
    match onEncoderDecoder m with
    | .ok a m => .ok a (.encoderDecoder m)
    | .error e m => .error e (.encoderDecoder m)

section

variable {α : Type} {onCache : EncoderM α} {onEncoderDecoder : EncoderDecoderM α}
  {Q : α → EncoderManager → Prop} {R : PyErr → EncoderManager → Prop}

theorem wp_dispatch_cache {m : EncoderCacheManager} : wp (dispatch onCache onEncoderDecoder) Q R (.cache m) ↔
      wp onCache (fun a m => Q a (.cache m)) (fun e m => R e (.cache m)) m := by
  unfold wp dispatch
  dsimp only
  cases onCache m <;> exact Iff.rfl

theorem wp_dispatch_encoderDecoder {m : EncoderDecoderCacheManager} :
    wp (dispatch onCache onEncoderDecoder) Q R (.encoderDecoder m) ↔
      wp onEncoderDecoder (fun a m => Q a (.encoderDecoder m)) (fun e m => R e (.encoderDecoder m)) m := by
  unfold wp dispatch
  dsimp only
  cases onEncoderDecoder m <;> exact Iff.rfl

end

def reset : EStateM PyErr EncoderManager Unit :=
  dispatch EncoderCacheManager.reset EncoderDecoderCacheManager.reset

def checkAndUpdateCache (r : Request H) (inputId : ℕ) : EStateM PyErr EncoderManager Bool :=
  dispatch (EncoderCacheManager.checkAndUpdateCache r inputId) EncoderDecoderCacheManager.checkAndUpdateCache

/-- `get_cached_num_encoder_embeds`, for the item of an input; the second class has no such table. -/
def getCachedNumEncoderEmbeds (mmHash : ℕ) : EncoderManager → Option ℕ
  | .cache m => m.numEmbedsByHash.get? mmHash
  | .encoderDecoder _ => none

def canAllocate (r : Request H) (inputId : ℕ) (encoderComputeBudget : ℤ) (numEmbedsToSchedule : ℕ) :
    EStateM PyErr EncoderManager Bool :=
  dispatch (EncoderCacheManager.canAllocate r inputId encoderComputeBudget numEmbedsToSchedule)
    (EncoderDecoderCacheManager.canAllocate r inputId encoderComputeBudget numEmbedsToSchedule)

def allocate (r : Request H) (inputId : ℕ) : EStateM PyErr EncoderManager Unit :=
  dispatch (EncoderCacheManager.allocate r inputId) (EncoderDecoderCacheManager.allocate r inputId)

def getCachedInputIds (r : Request H) : EncoderManager → List ℕ
  | .cache m => m.getCachedInputIds r
  | .encoderDecoder _ => EncoderDecoderCacheManager.getCachedInputIds r

def freeEncoderInput (r : Request H) (inputId : ℕ) : EStateM PyErr EncoderManager Unit :=
  dispatch (EncoderCacheManager.freeEncoderInput r inputId) (EncoderDecoderCacheManager.freeEncoderInput r inputId)

def free (r : Request H) : EStateM PyErr EncoderManager Unit :=
  dispatch (EncoderCacheManager.free r) (EncoderDecoderCacheManager.free r)

def getFreedMmHashes : EStateM PyErr EncoderManager (List ℕ) :=
  dispatch EncoderCacheManager.getFreedMmHashes EncoderDecoderCacheManager.getFreedMmHashes

end EncoderManager

end VllmRwkv
