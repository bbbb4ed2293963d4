import VllmRwkv.Lib.Dict
import VllmRwkv.Lib.Strided
import VllmRwkv.Pool.FreeQueue

/-!
# The sampler state of the RWKV worker

The worker keeps the random state, the penalty row and the decay of a request in rows of device
tensors, indexed by the slot of the request. A preempted request gives its slot back; what it had is
kept under its id until it is added again.
-/

namespace VllmRwkv

open List Function Dict Strided

variable {Id Rng Pen Dec Opt Seed Inp : Type}

/-! ## The tables -/

/-- `RequestState`, the part that gives slots to requests. `freeIndices` is a stack: its head is the
end of the source's list. -/
structure RequestState (Id : Type) [DecidableEq Id] where
  reqIdToIndex : Dict Id ℕ
  freeIndices : List ℕ
  nodup : freeIndices.Nodup
  inUse : ∀ id slot, reqIdToIndex.get? id = some slot → slot ∉ freeIndices
  exclusive : ∀ id id' slot, reqIdToIndex.get? id = some slot → reqIdToIndex.get? id' = some slot → id = id'

/-- The sampling parameters of a request. `options` are those the kernels only read: presence and
frequency penalty, temperature, top-k and top-p. -/
structure RwkvSamplingParams (Dec Opt Seed : Type) where
  penaltyDecay : Dec
  options : Opt
  seed : Option Seed

/-- An entry of `scheduled_new_reqs`. `drawn` is the seed that `np.random.randint` gives to a request
without one. -/
structure NewRequestData (Id Dec Opt Seed : Type) where
  reqId : Id
  samplingParams : RwkvSamplingParams Dec Opt Seed
  drawn : Seed

/-- The Rapid-Sampling kernels. -/
structure RapidKernels (Rng Pen Dec Opt Seed Inp : Type) where
  setupSamplingStates : Seed → Rng
  zeroPenalties : Pen
  /-- One active row: what the kernel leaves in its random state and its penalties. -/
  sample : Inp → Opt → Dec → Rng → Pen → Rng × Pen

/-- `RwkvSampler`: tensors are functions of the slot. -/
structure RwkvSampler (Id Rng Pen Dec Opt Seed : Type) [DecidableEq Id] where
  rapidSamplingStates : ℕ → Rng
  rapidPenalties : ℕ → Pen
  penaltyDecay : ℕ → Dec
  options : ℕ → Opt
  seeds : ℕ → Seed
  /-- Slots given out since the staged writes were last applied, with what to restore there. -/
  newRequests : List (ℕ × Option (Rng × Pen))
  preservedRequests : Dict Id (Rng × Pen)

/-- The part of the model runner that the sampler state depends on. -/
structure GPUModelRunner (Id Rng Pen Dec Opt Seed : Type) [DecidableEq Id] where
  reqStates : RequestState Id
  sampler : RwkvSampler Id Rng Pen Dec Opt Seed

/-- What the worker reads of a `SchedulerOutput`. `active` are the rows of the batch whose prefill
this step finishes, with what the kernel is given for them. -/
structure WorkerInput (Id Dec Opt Seed Inp : Type) where
  finishedReqIds : List Id
  preemptedReqIds : List Id
  scheduledNewReqs : List (NewRequestData Id Dec Opt Seed)
  active : List (Id × Inp)
  finished_nodup : finishedReqIds.Nodup
  preempted_nodup : preemptedReqIds.Nodup

/-! ## The methods -/

namespace RequestState

variable [DecidableEq Id]

/-- No request, every slot free. -/
def init (maxNumReqs : ℕ) : RequestState Id where
  reqIdToIndex := .empty
  freeIndices := (range maxNumReqs).reverse
  nodup := nodup_reverse.2 nodup_range
  inUse _ _ h := by cases h
  exclusive _ _ _ h := by cases h

variable (s : RequestState Id) (reqId : Id)

def addRequest : Except PyErr (ℕ × RequestState Id) :=
  match hfree : s.freeIndices with
  | [] => .error (.assertionError "No free indices")
  | slot :: rest => .ok (slot, {
      reqIdToIndex := s.reqIdToIndex.set reqId slot
      freeIndices := rest
      nodup := (nodup_cons.1 (hfree ▸ s.nodup)).2
      inUse := by
        intro id slot' hid hmem
        rcases get?_set_eq_some.1 hid with ⟨-, rfl⟩ | ⟨-, hid⟩
        · exact (nodup_cons.1 (hfree ▸ s.nodup)).1 hmem
        · exact s.inUse id slot' hid (hfree ▸ mem_cons_of_mem _ hmem)
      exclusive := by
        have hslot : ∀ id, s.reqIdToIndex.get? id ≠ some slot := fun id hid =>
          s.inUse id slot hid (hfree ▸ mem_cons_self)
        intro id id' slot' hid hid'
        by_cases h : id = reqId <;> by_cases h' : id' = reqId
        · rw [h, h']
        · subst h
          rw [get?_set_self] at hid
          rw [get?_set_of_ne h'] at hid'
          cases hid
          exact absurd hid' (hslot id')
        · subst h'
          rw [get?_set_self] at hid'
          rw [get?_set_of_ne h] at hid
          cases hid'
          exact absurd hid (hslot id)
        · rw [get?_set_of_ne h] at hid
          rw [get?_set_of_ne h'] at hid'
          exact s.exclusive id id' slot' hid hid' })

def removeRequest : RequestState Id :=
  match hslot : s.reqIdToIndex.get? reqId with
  | none => s
  | some slot => {
      reqIdToIndex := s.reqIdToIndex.erase reqId
      freeIndices := slot :: s.freeIndices
      nodup := nodup_cons.2 ⟨s.inUse reqId slot hslot, s.nodup⟩
      inUse := by
        intro id slot' hid hmem
        by_cases h : id = reqId
        · subst h
          rw [get?_erase_self] at hid
          cases hid
        rw [get?_erase_of_ne h] at hid
        rcases mem_cons.1 hmem with rfl | hmem
        · exact h (s.exclusive id reqId slot' hid hslot)
        · exact s.inUse id slot' hid hmem
      exclusive := by
        intro id id' slot' hid hid'
        exact s.exclusive id id' slot' (get?_erase_eq_some.1 hid).2 (get?_erase_eq_some.1 hid').2 }

/-- A request that is added gets a slot no other request has. -/
theorem addRequest_ok {s s' : RequestState Id} {reqId : Id} {slot : ℕ} (h : s.addRequest reqId = .ok (slot, s')) :
    s'.reqIdToIndex = s.reqIdToIndex.set reqId slot ∧ ∀ id, s.reqIdToIndex.get? id ≠ some slot := by
  unfold addRequest at h
  split at h
  · cases h
  next slot' rest hfree =>
    cases h
    exact ⟨rfl, fun id hid => s.inUse id slot hid (hfree ▸ mem_cons_self)⟩

theorem removeRequest_index : (s.removeRequest reqId).reqIdToIndex.get? reqId = none := by
  unfold removeRequest
  split
  · assumption
  · exact get?_erase_self

end RequestState

namespace RwkvSampler

variable [DecidableEq Id] (k : RapidKernels Rng Pen Dec Opt Seed Inp) (s : RwkvSampler Id Rng Pen Dec Opt Seed)

def stageRequest (slot : ℕ) (reqId : Id) : RwkvSampler Id Rng Pen Dec Opt Seed :=
  { s with
    newRequests := s.newRequests ++ [(slot, s.preservedRequests.get? reqId)]
    preservedRequests := s.preservedRequests.erase reqId }

section

variable (reqStates : RequestState Id) (reqId : Id)

def preemptRequest : Except PyErr (RwkvSampler Id Rng Pen Dec Opt Seed) :=
  match reqStates.reqIdToIndex.get? reqId with
  | none => .error .keyError
  | some slot => .ok { s with
      preservedRequests :=
        s.preservedRequests.set reqId (s.rapidSamplingStates slot, s.rapidPenalties slot) }

def removeRequest : RwkvSampler Id Rng Pen Dec Opt Seed :=
  match reqStates.reqIdToIndex.get? reqId with
  | none => { s with preservedRequests := s.preservedRequests.erase reqId }
  | some _ => s

end

def addRequest (slot : ℕ) (params : RwkvSamplingParams Dec Opt Seed) (drawn : Seed) :
    RwkvSampler Id Rng Pen Dec Opt Seed :=
  { s with
    penaltyDecay := update s.penaltyDecay slot params.penaltyDecay
    options := update s.options slot params.options
    seeds := update s.seeds slot (params.seed.getD drawn) }

/-- One round of `apply_staged_writes`: a request with nothing preserved starts from its seed. -/
def writeStaged (x : ℕ × Option (Rng × Pen)) : RwkvSampler Id Rng Pen Dec Opt Seed :=
  match x.2 with
  | none => { s with
      rapidSamplingStates :=
        update s.rapidSamplingStates x.1 (k.setupSamplingStates (s.seeds x.1))
      rapidPenalties := update s.rapidPenalties x.1 k.zeroPenalties }
  | some (state, penalties) => { s with
      rapidSamplingStates := update s.rapidSamplingStates x.1 state
      rapidPenalties := update s.rapidPenalties x.1 penalties }

def applyStagedWrites : RwkvSampler Id Rng Pen Dec Opt Seed :=
  { s.newRequests.foldl (writeStaged k) s with newRequests := [] }

/-- The kernel on one active row. -/
def sampleSlot (slot : ℕ) (inp : Inp) : RwkvSampler Id Rng Pen Dec Opt Seed :=
  let out := k.sample inp (s.options slot) (s.penaltyDecay slot) (s.rapidSamplingStates slot) (s.rapidPenalties slot)
  { s with
    rapidSamplingStates := update s.rapidSamplingStates slot out.1
    rapidPenalties := update s.rapidPenalties slot out.2 }

end RwkvSampler

namespace GPUModelRunner

variable [DecidableEq Id] (k : RapidKernels Rng Pen Dec Opt Seed Inp) (w : GPUModelRunner Id Rng Pen Dec Opt Seed)

def preemptRequest (reqId : Id) : Except PyErr (GPUModelRunner Id Rng Pen Dec Opt Seed) := do
  return { w with sampler := ← w.sampler.preemptRequest w.reqStates reqId }

/-- `_remove_request`: the sampler is told first, while the id is still indexed. -/
def removeRequest (reqId : Id) : GPUModelRunner Id Rng Pen Dec Opt Seed where
  sampler := w.sampler.removeRequest w.reqStates reqId
  reqStates := w.reqStates.removeRequest reqId

/-- One round of `add_requests`. -/
def addRequest (q : NewRequestData Id Dec Opt Seed) : Except PyErr (GPUModelRunner Id Rng Pen Dec Opt Seed) := do
  -- streaming input updates replace an existing request slot
  let w := match w.reqStates.reqIdToIndex.get? q.reqId with
    | none => w
    | some _ => w.removeRequest q.reqId
  let (slot, reqStates) ← w.reqStates.addRequest q.reqId
  return {
    reqStates
    sampler := (w.sampler.stageRequest slot q.reqId).addRequest slot q.samplingParams q.drawn }

/-- One active row of the batch: its slot is looked up by its id. -/
def sampleRequest (x : Id × Inp) : Except PyErr (GPUModelRunner Id Rng Pen Dec Opt Seed) :=
  match w.reqStates.reqIdToIndex.get? x.1 with
  | none => .error .keyError
  | some slot => .ok { w with sampler := w.sampler.sampleSlot k slot x.2 }

end GPUModelRunner

namespace GPUModelRunner

/-- `sorted`, of the distinct ids of a set. -/
def sortedIds [LinearOrder Id] (ids : List Id) : List Id := ids.insertionSort (· ≤ ·)

variable [LinearOrder Id] (k : RapidKernels Rng Pen Dec Opt Seed Inp) (w : GPUModelRunner Id Rng Pen Dec Opt Seed)

section

variable (out : WorkerInput Id Dec Opt Seed Inp)

def finishRequests : Except PyErr (GPUModelRunner Id Rng Pen Dec Opt Seed) := do
  let w ← (sortedIds out.preemptedReqIds).foldlM preemptRequest w
  return (sortedIds (out.finishedReqIds ∪ out.preemptedReqIds)).foldl removeRequest w

def addRequests : Except PyErr (GPUModelRunner Id Rng Pen Dec Opt Seed) := do
  let w ← out.scheduledNewReqs.foldlM addRequest w
  return { w with sampler := w.sampler.applyStagedWrites k }

/-- One step of the worker. -/
def executeStep : Except PyErr (GPUModelRunner Id Rng Pen Dec Opt Seed) := do
  let w ← w.finishRequests out
  let w ← w.addRequests k out
  out.active.foldlM (sampleRequest k) w

end

/-- The worker as it starts, whatever its tensors hold. -/
def init (maxNumReqs : ℕ) (states : ℕ → Rng) (penalties : ℕ → Pen) (decay : ℕ → Dec)
    (options : ℕ → Opt) (seeds : ℕ → Seed) : GPUModelRunner Id Rng Pen Dec Opt Seed where
  reqStates := .init maxNumReqs
  sampler := ⟨states, penalties, decay, options, seeds, [], .empty⟩

end GPUModelRunner

/-! ## One request by itself -/

/-- What the sampler knows of a request. -/
structure SamplerRow (Rng Pen Dec Opt : Type) where
  state : Rng
  penalties : Pen
  decay : Dec
  options : Opt

/-- The life of a request on the worker. A request is `leaving` between the moment its row is saved
and the moment its slot is given back. -/
inductive Life (Row : Type) where
  | absent
  | live (row : Row)
  | leaving (row : Row)
  | preempted (row : Row)

namespace NewRequestData

/-- A fresh row for a new request. -/
def fresh (k : RapidKernels Rng Pen Dec Opt Seed Inp) (q : NewRequestData Id Dec Opt Seed) :
    SamplerRow Rng Pen Dec Opt where
  state := k.setupSamplingStates (q.samplingParams.seed.getD q.drawn)
  penalties := k.zeroPenalties
  decay := q.samplingParams.penaltyDecay
  options := q.samplingParams.options

end NewRequestData

namespace Life

variable (k : RapidKernels Rng Pen Dec Opt Seed Inp)

/-- The row is saved. -/
def save : Life (SamplerRow Rng Pen Dec Opt) → Life (SamplerRow Rng Pen Dec Opt)
  | live r => leaving r
  | l => l

/-- The id is removed: what was saved in this step is kept, what was saved before is dropped. -/
def remove : Life (SamplerRow Rng Pen Dec Opt) → Life (SamplerRow Rng Pen Dec Opt)
  | leaving r => preempted r
  | _ => absent

/-- The id is given a slot. -/
def place (q : NewRequestData Id Dec Opt Seed) : Life (SamplerRow Rng Pen Dec Opt) → Life (SamplerRow Rng Pen Dec Opt)
  | leaving r | preempted r => live { r with
      decay := q.samplingParams.penaltyDecay, options := q.samplingParams.options }
  | _ => live (q.fresh k)

/-- The kernel runs on the row. -/
def sample (inp : Inp) : Life (SamplerRow Rng Pen Dec Opt) → Life (SamplerRow Rng Pen Dec Opt)
  | live r =>
    let out := k.sample inp r.options r.decay r.state r.penalties
    live { r with state := out.1, penalties := out.2 }
  | l => l

/-- The entries of a list that are about `id`, in order. -/
def each [DecidableEq Id] {X : Type} (key : X → Id) (f : X → Life (SamplerRow Rng Pen Dec Opt) →
    Life (SamplerRow Rng Pen Dec Opt)) (xs : List X) (id : Id)
    (l : Life (SamplerRow Rng Pen Dec Opt)) : Life (SamplerRow Rng Pen Dec Opt) :=
  xs.foldl (fun l x => if key x = id then f x l else l) l

/-- What a step of the worker does to the life of `id`. -/
def worker [LinearOrder Id] (out : WorkerInput Id Dec Opt Seed Inp) (id : Id)
    (l : Life (SamplerRow Rng Pen Dec Opt)) : Life (SamplerRow Rng Pen Dec Opt) :=
  each Prod.fst (fun x => sample k x.2) out.active id <|
  each NewRequestData.reqId (place k) out.scheduledNewReqs id <|
  each (fun i => i) (fun _ => remove) (GPUModelRunner.sortedIds (out.finishedReqIds ∪ out.preemptedReqIds)) id <|
  each (fun i => i) (fun _ => save) (GPUModelRunner.sortedIds out.preemptedReqIds) id l

end Life

/-! ## The tables hold the lives -/

section Tracks

variable [DecidableEq Id] (k : RapidKernels Rng Pen Dec Opt Seed Inp)

namespace RwkvSampler

variable (s : RwkvSampler Id Rng Pen Dec Opt Seed)

/-- The random state and penalties of a slot once the staged writes are applied: the last write to the
slot decides. -/
def settled (slot : ℕ) : Rng × Pen :=
  s.newRequests.foldl
    (fun v x => if x.1 = slot then x.2.getD (k.setupSamplingStates (s.seeds slot), k.zeroPenalties) else v)
    (s.rapidSamplingStates slot, s.rapidPenalties slot)

/-- The row of a slot, with the staged writes. -/
def row (slot : ℕ) : SamplerRow Rng Pen Dec Opt where
  state := (s.settled k slot).1
  penalties := (s.settled k slot).2
  decay := s.penaltyDecay slot
  options := s.options slot

end RwkvSampler

section

variable (w : GPUModelRunner Id Rng Pen Dec Opt Seed)

/-- The tables hold what the life of `id` says. -/
def GPUModelRunner.Holds (id : Id) : Life (SamplerRow Rng Pen Dec Opt) → Prop
  | .absent => w.reqStates.reqIdToIndex.get? id = none ∧ w.sampler.preservedRequests.get? id = none
  | .live r => (∃ slot, w.reqStates.reqIdToIndex.get? id = some slot ∧ w.sampler.row k slot = r) ∧
      w.sampler.preservedRequests.get? id = none
  | .leaving r => (∃ slot, w.reqStates.reqIdToIndex.get? id = some slot ∧ w.sampler.row k slot = r) ∧
      w.sampler.preservedRequests.get? id = some (r.state, r.penalties)
  | .preempted r => w.reqStates.reqIdToIndex.get? id = none ∧
      w.sampler.preservedRequests.get? id = some (r.state, r.penalties)

/-- The tables hold the lives of all ids. -/
def GPUModelRunner.Tracks (life : Id → Life (SamplerRow Rng Pen Dec Opt)) : Prop :=
  ∀ id, w.Holds k id (life id)

end

namespace RwkvSampler

variable {k} {s : RwkvSampler Id Rng Pen Dec Opt Seed}

theorem row_of_settled (h : s.newRequests = []) (slot : ℕ) :
    s.row k slot = ⟨s.rapidSamplingStates slot, s.rapidPenalties slot, s.penaltyDecay slot, s.options slot⟩ := by
  unfold row settled
  rw [h]
  rfl

/-- A slot that is staged for a request gets what was preserved for it, or a fresh row. -/
theorem row_staged (slot : ℕ) (q : NewRequestData Id Dec Opt Seed) :
    ((s.stageRequest slot q.reqId).addRequest slot q.samplingParams q.drawn).row k slot =
      match s.preservedRequests.get? q.reqId with
      | none => q.fresh k
      | some (state, penalties) =>
          ⟨state, penalties, q.samplingParams.penaltyDecay, q.samplingParams.options⟩ := by
  unfold row settled stageRequest addRequest
  simp only [foldl_append, foldl_cons, foldl_nil, update_self, if_true]
  cases s.preservedRequests.get? q.reqId <;> rfl

theorem row_staged_other {slot slot' : ℕ} (h : slot' ≠ slot) (q : NewRequestData Id Dec Opt Seed) :
    ((s.stageRequest slot q.reqId).addRequest slot q.samplingParams q.drawn).row k slot' = s.row k slot' := by
  unfold row settled stageRequest addRequest
  simp only [foldl_append, foldl_cons, foldl_nil, update_of_ne h, if_neg h.symm]

/-- Staged writes, applied one by one, leave the settled row in every slot. -/
theorem foldl_writeStaged (xs : List (ℕ × Option (Rng × Pen))) (slot : ℕ) :
    ((xs.foldl (writeStaged k) s).rapidSamplingStates slot, (xs.foldl (writeStaged k) s).rapidPenalties slot) =
      xs.foldl (fun v x => if x.1 = slot then x.2.getD (k.setupSamplingStates (s.seeds slot), k.zeroPenalties)
        else v) (s.rapidSamplingStates slot, s.rapidPenalties slot) ∧
    (xs.foldl (writeStaged k) s).penaltyDecay = s.penaltyDecay ∧ (xs.foldl (writeStaged k) s).options = s.options ∧
    (xs.foldl (writeStaged k) s).preservedRequests = s.preservedRequests := by
  induction xs generalizing s with
  | nil => exact ⟨rfl, rfl, rfl, rfl⟩
  | cons x xs ih =>
    obtain ⟨slot', kept⟩ := x
    have hstep : (writeStaged k s (slot', kept)).seeds = s.seeds ∧
        (writeStaged k s (slot', kept)).penaltyDecay = s.penaltyDecay ∧
        (writeStaged k s (slot', kept)).options = s.options ∧
        (writeStaged k s (slot', kept)).preservedRequests = s.preservedRequests ∧
        ((writeStaged k s (slot', kept)).rapidSamplingStates slot,
          (writeStaged k s (slot', kept)).rapidPenalties slot) =
          if slot' = slot then kept.getD (k.setupSamplingStates (s.seeds slot), k.zeroPenalties)
          else (s.rapidSamplingStates slot, s.rapidPenalties slot) := by
      by_cases h : slot' = slot
      · subst h
        cases kept <;> simp [writeStaged]
      · have h' : slot ≠ slot' := fun he => h he.symm
        cases kept <;> simp [writeStaged, update_of_ne h', h]
    obtain ⟨hseeds, hdecay, hoptions, hpreserved, hrow⟩ := hstep
    obtain ⟨ihrow, ihdecay, ihoptions, ihpreserved⟩ := ih
    simp only [foldl_cons]
    refine ⟨?_, ihdecay.trans hdecay, ihoptions.trans hoptions, ihpreserved.trans hpreserved⟩
    rw [ihrow, hseeds, hrow]

theorem row_applyStagedWrites (slot : ℕ) : (s.applyStagedWrites k).row k slot = s.row k slot := by
  obtain ⟨hrow, hdecay, hoptions, -⟩ := foldl_writeStaged (k := k) (s := s) s.newRequests slot
  rw [row_of_settled rfl]
  unfold row settled
  rw [← hrow]
  unfold applyStagedWrites
  simp only [hdecay, hoptions]

theorem row_sampleSlot (h : s.newRequests = []) (slot : ℕ) (inp : Inp) :
    Life.live ((s.sampleSlot k slot inp).row k slot) = Life.sample k inp (.live (s.row k slot)) := by
  have h' : (s.sampleSlot k slot inp).newRequests = [] := h
  rw [row_of_settled h', row_of_settled h]
  simp [sampleSlot, Life.sample]

theorem row_sampleSlot_other (h : s.newRequests = []) {slot slot' : ℕ} (hne : slot' ≠ slot) (inp : Inp) :
    (s.sampleSlot k slot inp).row k slot' = s.row k slot' := by
  have h' : (s.sampleSlot k slot inp).newRequests = [] := h
  rw [row_of_settled h', row_of_settled h]
  simp [sampleSlot, update_of_ne hne]

end RwkvSampler

namespace GPUModelRunner

variable {k} {w w' : GPUModelRunner Id Rng Pen Dec Opt Seed} {life : Id → Life (SamplerRow Rng Pen Dec Opt)}
  {l : Life (SamplerRow Rng Pen Dec Opt)} {id : Id}

/-- A step that leaves alone the entries of `id` and the row of its slot. -/
theorem Holds.frame (h : w.Holds k id l) (hindex : w'.reqStates.reqIdToIndex.get? id = w.reqStates.reqIdToIndex.get? id)
    (hpreserved : w'.sampler.preservedRequests.get? id = w.sampler.preservedRequests.get? id)
    (hrow : ∀ slot, w.reqStates.reqIdToIndex.get? id = some slot →
      w'.sampler.row k slot = w.sampler.row k slot) : w'.Holds k id l := by
  cases l with
  | absent | preempted r => exact ⟨hindex.trans h.1, hpreserved.trans h.2⟩
  | live r | leaving r =>
    obtain ⟨⟨slot, hslot, rfl⟩, hp⟩ := h
    exact ⟨⟨slot, hindex.trans hslot, hrow slot hslot⟩, hpreserved.trans hp⟩

/-- The life of an indexed id, whose row is that of its slot. -/
theorem Holds.indexed {slot : ℕ} (h : w.Holds k id l) (hslot : w.reqStates.reqIdToIndex.get? id = some slot) :
    l = .live (w.sampler.row k slot) ∨ l = .leaving (w.sampler.row k slot) := by
  cases l with
  | absent | preempted r => cases hslot.symm.trans h.1
  | live r =>
    obtain ⟨⟨slot', hslot', rfl⟩, -⟩ := h
    cases hslot.symm.trans hslot'
    exact .inl rfl
  | leaving r =>
    obtain ⟨⟨slot', hslot', rfl⟩, -⟩ := h
    cases hslot.symm.trans hslot'
    exact .inr rfl

section

variable (h : w.Tracks k life)

include h

/-- One id changes its life, the others keep theirs. -/
theorem Tracks.update (hid : w'.Holds k id l) (hother : ∀ i, i ≠ id → w.Holds k i (life i) → w'.Holds k i (life i)) :
    w'.Tracks k (update life id l) := by
  exact (forall_update_iff life fun i => w'.Holds k i).2 ⟨hid, fun i hi => hother i hi (h i)⟩

theorem preemptRequest_tracks (hnew : w.sampler.newRequests = []) (hok : w.preemptRequest id = .ok w') :
    w'.sampler.newRequests = [] ∧ w'.Tracks k (Function.update life id (life id).save) := by
  unfold preemptRequest RwkvSampler.preemptRequest at hok
  cases hslot : w.reqStates.reqIdToIndex.get? id with
  | none => rw [hslot] at hok; cases hok
  | some slot =>
    rw [hslot] at hok
    cases hok
    refine ⟨hnew, h.update ?_ fun i hi hh => hh.frame rfl (get?_set_of_ne hi) fun _ _ => rfl⟩
    have hrow := RwkvSampler.row_of_settled (k := k) hnew slot
    have hsave : (life id).save = .leaving (w.sampler.row k slot) := by
      rcases (h id).indexed hslot with hl | hl <;> rw [hl] <;> rfl
    rw [hsave]
    refine ⟨⟨slot, hslot, rfl⟩, ?_⟩
    rw [hrow]
    exact get?_set_self

/-- The id is gone from the index; the preserved entry stays only if it was still indexed. -/
theorem removeRequest_tracks (id : Id) : (w.removeRequest id).Tracks k (update life id (life id).remove) := by
  have hindex := w.reqStates.removeRequest_index id
  have hrow : ∀ slot, (w.removeRequest id).sampler.row k slot = w.sampler.row k slot := by
    intro slot
    unfold removeRequest RwkvSampler.removeRequest
    cases w.reqStates.reqIdToIndex.get? id <;> rfl
  refine h.update ?_ fun i hi hh => hh.frame ?_ ?_ fun slot _ => hrow slot
  · have hgone : w.reqStates.reqIdToIndex.get? id = none →
        (w.removeRequest id).sampler.preservedRequests.get? id = none := by
      intro hnone
      unfold removeRequest RwkvSampler.removeRequest
      rw [hnone]
      exact get?_erase_self
    have hkept : ∀ slot, w.reqStates.reqIdToIndex.get? id = some slot →
        (w.removeRequest id).sampler.preservedRequests = w.sampler.preservedRequests := by
      intro slot hslot
      unfold removeRequest RwkvSampler.removeRequest
      rw [hslot]
    have hid := h id
    cases hl : life id with
    | absent | preempted r => rw [hl] at hid; exact ⟨hindex, hgone hid.1⟩
    | live r | leaving r =>
      rw [hl] at hid
      obtain ⟨⟨slot, hslot, -⟩, hp⟩ := hid
      exact ⟨hindex, by rw [hkept slot hslot]; exact hp⟩
  · show (w.reqStates.removeRequest id).reqIdToIndex.get? i = _
    unfold RequestState.removeRequest
    split
    · rfl
    · exact get?_erase_of_ne hi
  · unfold removeRequest RwkvSampler.removeRequest
    cases w.reqStates.reqIdToIndex.get? id with
    | none => exact get?_erase_of_ne hi
    | some slot => rfl

theorem vacated_tracks (q : NewRequestData Id Dec Opt Seed) : ∃ w₁ l, (match w.reqStates.reqIdToIndex.get? q.reqId with
        | none => w
        | some _ => w.removeRequest q.reqId) = w₁ ∧ w₁.Tracks k (update life q.reqId l) ∧
      w₁.reqStates.reqIdToIndex.get? q.reqId = none ∧ l.place k q = (life q.reqId).place k q := by
  cases hslot : w.reqStates.reqIdToIndex.get? q.reqId with
  | none =>
    refine ⟨w, life q.reqId, rfl, ?_, hslot, rfl⟩
    rwa [update_eq_self]
  | some slot =>
    refine ⟨_, _, rfl, removeRequest_tracks h q.reqId, w.reqStates.removeRequest_index q.reqId, ?_⟩
    rcases (h q.reqId).indexed hslot with hl | hl <;> rw [hl] <;> rfl

theorem addRequest_tracks {q : NewRequestData Id Dec Opt Seed}
    (hok : w.addRequest q = .ok w') : w'.Tracks k (Function.update life q.reqId ((life q.reqId).place k q)) := by
  obtain ⟨w₁, l, hw₁, h₁, hnone, hplace⟩ := vacated_tracks h q
  unfold addRequest at hok
  rw [hw₁] at hok
  cases hadd : w₁.reqStates.addRequest q.reqId with
  | error e => simp only [hadd] at hok; cases hok
  | ok a =>
    obtain ⟨slot, reqStates⟩ := a
    simp only [hadd] at hok
    cases hok
    obtain ⟨hindex, hunused⟩ := RequestState.addRequest_ok hadd
    have hl : w₁.Holds k q.reqId l := by simpa using h₁ q.reqId
    rw [← hplace, ← update_idem (a := q.reqId) l]
    refine h₁.update ?_ fun i hi hh => hh.frame ?_ ?_ ?_
    · have hrow := RwkvSampler.row_staged (k := k) (s := w₁.sampler) slot q
      have hslot : reqStates.reqIdToIndex.get? q.reqId = some slot := by
        rw [hindex]
        exact get?_set_self
      have hgone : (w₁.sampler.preservedRequests.erase q.reqId).get? q.reqId = none := get?_erase_self
      cases l with
      | absent | preempted r => exact ⟨⟨slot, hslot, by rw [hrow, hl.2]⟩, hgone⟩
      | live r | leaving r =>
        obtain ⟨⟨slot', hslot', -⟩, -⟩ := hl
        exact absurd hslot' (by rw [hnone]; simp)
    · rw [hindex]
      exact get?_set_of_ne hi
    · exact get?_erase_of_ne hi
    · intro slot' hslot'
      apply RwkvSampler.row_staged_other
      rintro rfl
      exact hunused i hslot'

theorem applyStagedWrites_tracks :
    ({ w with sampler := w.sampler.applyStagedWrites k } : GPUModelRunner Id Rng Pen Dec Opt Seed).Tracks k
      life := by
  intro i
  refine (h i).frame rfl ?_ fun slot _ => RwkvSampler.row_applyStagedWrites slot
  have hpreserved := (RwkvSampler.foldl_writeStaged (k := k) (s := w.sampler) w.sampler.newRequests 0).2.2.2
  exact congrArg (fun d => d.get? i) hpreserved

end

/-- No request is half way out. -/
def Whole (life : Id → Life (SamplerRow Rng Pen Dec Opt)) : Prop := ∀ id r, life id ≠ .leaving r

/-- Between the phases of a step the tables hold the lives and nothing is staged. -/
structure Settled (k : RapidKernels Rng Pen Dec Opt Seed Inp) (w : GPUModelRunner Id Rng Pen Dec Opt Seed)
    (life : Id → Life (SamplerRow Rng Pen Dec Opt)) : Prop where
  tracks : w.Tracks k life
  whole : Whole life
  staged : w.sampler.newRequests = []

theorem sampleRequest_settled {x : Id × Inp} (h : Settled k w life) (hok : w.sampleRequest k x = .ok w') :
    Settled k w' (update life x.1 ((life x.1).sample k x.2)) := by
  unfold sampleRequest at hok
  cases hslot : w.reqStates.reqIdToIndex.get? x.1 with
  | none => rw [hslot] at hok; cases hok
  | some slot =>
    rw [hslot] at hok
    cases hok
    have hother : ∀ i, i ≠ x.1 → ∀ slot', w.reqStates.reqIdToIndex.get? i = some slot' → slot' ≠ slot := by
      rintro i hi slot' hslot' rfl
      exact hi (w.reqStates.exclusive i x.1 slot' hslot' hslot)
    have hid := h.tracks x.1
    have hl := (hid.indexed hslot).resolve_right (h.whole x.1 _)
    rw [hl] at hid ⊢
    rw [← RwkvSampler.row_sampleSlot h.staged slot x.2]
    refine ⟨h.tracks.update ⟨⟨slot, hslot, rfl⟩, hid.2⟩ fun i hi hh => hh.frame rfl rfl fun slot' hs =>
      RwkvSampler.row_sampleSlot_other h.staged (hother i hi slot' hs) x.2, ?_, h.staged⟩
    exact (forall_update_iff life fun _ l => ∀ r, l ≠ .leaving r).2 ⟨nofun, fun i _ => h.whole i⟩

/-! ### The loops -/

/-- A loop that changes the life of one id after the other. -/
theorem foldlM_lives {X : Type} {key : X → Id}
    {f : X → Life (SamplerRow Rng Pen Dec Opt) → Life (SamplerRow Rng Pen Dec Opt)}
    {g : GPUModelRunner Id Rng Pen Dec Opt Seed → X → Except PyErr (GPUModelRunner Id Rng Pen Dec Opt Seed)}
    (J : GPUModelRunner Id Rng Pen Dec Opt Seed → (Id → Life (SamplerRow Rng Pen Dec Opt)) → Prop)
    (hstep : ∀ w life x w', J w life → g w x = .ok w' → J w' (Function.update life (key x) (f x (life (key x)))))
    (xs : List X) (h : J w life) (hok : xs.foldlM g w = .ok w') : J w' (fun id => Life.each key f xs id (life id)) := by
  induction xs generalizing w life with
  | nil =>
    cases hok
    exact h
  | cons x xs ih =>
    rw [foldlM_cons] at hok
    obtain ⟨w₁, hx, hok⟩ := bind_ok hok
    have hrest := ih (hstep w life x w₁ h hx) hok
    have hlives : (fun id => Life.each key f (x :: xs) id (life id)) =
        fun id => Life.each key f xs id (update life (key x) (f x (life (key x))) id) := by
      funext id
      unfold Life.each
      rw [foldl_cons]
      by_cases hid : key x = id
      · subst hid
        rw [if_pos rfl, update_self]
      · rw [if_neg hid, update_of_ne (Ne.symm hid)]
    rw [hlives]
    exact hrest

end GPUModelRunner

namespace Life

variable {l : Life (SamplerRow Rng Pen Dec Opt)} {id : Id}

/-- Over distinct ids a change happens once or not at all. -/
theorem each_ids {f : Life (SamplerRow Rng Pen Dec Opt) → Life (SamplerRow Rng Pen Dec Opt)} {ids : List Id}
    (hnodup : ids.Nodup) : each (fun i => i) (fun _ => f) ids id l = if id ∈ ids then f l else l := by
  induction ids generalizing l with
  | nil => rfl
  | cons i ids ih =>
    obtain ⟨hi, hids⟩ := nodup_cons.1 hnodup
    have hstep : each (fun i => i) (fun _ => f) (i :: ids) id l =
        each (fun i => i) (fun _ => f) ids id (if i = id then f l else l) := rfl
    rw [hstep, ih hids]
    by_cases h : i = id
    · subst h
      rw [if_neg hi, if_pos rfl, if_pos mem_cons_self]
    · rw [if_neg h]
      simp [Ne.symm h]

end Life

end Tracks

/-! ## A step and a run -/

section Steps

variable [LinearOrder Id] {k : RapidKernels Rng Pen Dec Opt Seed Inp}
  {w w' : GPUModelRunner Id Rng Pen Dec Opt Seed} {life : Id → Life (SamplerRow Rng Pen Dec Opt)}
  {out : WorkerInput Id Dec Opt Seed Inp}

namespace GPUModelRunner

theorem mem_sortedIds {ids : List Id} {id : Id} : id ∈ sortedIds ids ↔ id ∈ ids := mem_insertionSort _

theorem nodup_sortedIds {ids : List Id} (h : ids.Nodup) : (sortedIds ids).Nodup :=
  (perm_insertionSort (· ≤ ·) ids).nodup_iff.2 h

end GPUModelRunner

namespace Life

/-- What `finish_requests` does to the life of `id`. -/
theorem leave_eq (id : Id) (l : Life (SamplerRow Rng Pen Dec Opt)) : each (fun i => i) (fun _ => remove)
        (GPUModelRunner.sortedIds (out.finishedReqIds ∪ out.preemptedReqIds)) id
      (each (fun i => i) (fun _ => save) (GPUModelRunner.sortedIds out.preemptedReqIds) id l) =
    if id ∈ out.preemptedReqIds then l.save.remove else if id ∈ out.finishedReqIds then l.remove else l := by
  have hunion : (out.finishedReqIds ∪ out.preemptedReqIds).Nodup := out.preempted_nodup.union _
  rw [each_ids (GPUModelRunner.nodup_sortedIds hunion), each_ids (GPUModelRunner.nodup_sortedIds out.preempted_nodup)]
  simp only [GPUModelRunner.mem_sortedIds, mem_union_iff]
  by_cases hp : id ∈ out.preemptedReqIds
  · simp [hp]
  · simp [hp]

end Life

namespace GPUModelRunner

theorem finishRequests_settled (h : Settled k w life) (hok : w.finishRequests out = .ok w') :
    Settled k w' (fun id => if id ∈ out.preemptedReqIds then (life id).save.remove
      else if id ∈ out.finishedReqIds then (life id).remove else life id) := by
  obtain ⟨w₁, hsave, hok⟩ := bind_ok hok
  have hsaved := foldlM_lives (fun w life => w.sampler.newRequests = [] ∧ w.Tracks k life)
    (fun w life i w' hJ hi => preemptRequest_tracks hJ.2 hJ.1 hi) _ ⟨h.staged, h.tracks⟩ hsave
  have hremove : (sortedIds (out.finishedReqIds ∪ out.preemptedReqIds)).foldlM
      (fun w i => (pure (removeRequest w i) : Except PyErr _)) w₁ = .ok w' := by
    rw [foldlM_pure]
    exact hok
  have hremoved := foldlM_lives (fun w life => w.sampler.newRequests = [] ∧ w.Tracks k life)
    (fun w life i w' hJ hi => by
      cases hi
      refine ⟨?_, removeRequest_tracks hJ.2 i⟩
      unfold removeRequest RwkvSampler.removeRequest
      cases w.reqStates.reqIdToIndex.get? i <;> exact hJ.1) _ hsaved hremove
  simp only [Life.leave_eq] at hremoved
  refine ⟨hremoved.2, ?_, hremoved.1⟩
  intro id r
  have hid := h.whole id
  dsimp only
  split_ifs
  · cases hl : life id <;> simp [Life.save, Life.remove]
  · cases hl : life id with
    | leaving r' => exact absurd hl (hid r')
    | _ => simp [Life.remove]
  · exact hid r

theorem addRequests_settled (h : Settled k w life) (hok : w.addRequests k out = .ok w') :
    Settled k w' (fun id => Life.each NewRequestData.reqId (Life.place k) out.scheduledNewReqs id (life id)) := by
  obtain ⟨w₁, hadd, hok⟩ := bind_ok hok
  cases hok
  have hadded := foldlM_lives (fun w life => Whole life ∧ w.Tracks k life) (fun w life q w' hJ hq => by
      refine ⟨(forall_update_iff life fun _ l => ∀ r, l ≠ .leaving r).2 ⟨?_, fun i _ => hJ.1 i⟩,
        addRequest_tracks hJ.2 hq⟩
      cases life q.reqId <;> exact nofun) _ ⟨h.whole, h.tracks⟩ hadd
  exact ⟨applyStagedWrites_tracks hadded.2, hadded.1, rfl⟩

theorem executeStep_settled (h : Settled k w life) (hok : w.executeStep k out = .ok w') :
    Settled k w' (fun id => Life.worker k out id (life id)) := by
  obtain ⟨w₁, hfinish, hok⟩ := bind_ok hok
  obtain ⟨w₂, hadd, hok⟩ := bind_ok hok
  have hadded := addRequests_settled (finishRequests_settled h hfinish) hadd
  have hsampled := foldlM_lives (Settled k) (fun w life x w' hJ hx => sampleRequest_settled hJ hx) _ hadded hok
  unfold Life.worker
  simp only [Life.leave_eq]
  exact hsampled

end GPUModelRunner

/-! ## What the life of a request should be -/

namespace Life

/-- A finished request is gone, a preempted one keeps its row. (Only a live request is preempted: for
another id the step fails.) -/
def leave (out : WorkerInput Id Dec Opt Seed Inp) (id : Id) (l : Life (SamplerRow Rng Pen Dec Opt)) :
    Life (SamplerRow Rng Pen Dec Opt) :=
  if id ∈ out.finishedReqIds then absent
  else if id ∈ out.preemptedReqIds then
    match l with
    | live r => preempted r
    | _ => absent
  else l

section

variable (k)

/-- A preempted request that is added again has the random state, the penalties and the decay it was
preempted with; any other request that is added starts fresh. -/
def resume (q : NewRequestData Id Dec Opt Seed) : Life (SamplerRow Rng Pen Dec Opt) → Life (SamplerRow Rng Pen Dec Opt)
  | preempted r => live { r with options := q.samplingParams.options }
  | _ => live (q.fresh k)

/-- One step in the life of `id`. It reads nothing but the entries of `id`. -/
def step (out : WorkerInput Id Dec Opt Seed Inp) (id : Id)
    (l : Life (SamplerRow Rng Pen Dec Opt)) : Life (SamplerRow Rng Pen Dec Opt) :=
  each Prod.fst (fun x => sample k x.2) out.active id <|
  each NewRequestData.reqId (resume k) out.scheduledNewReqs id (l.leave out id)

end

/-- No request of the output is both preempted and finished, and a preempted request that is added again
brings the decay it had. -/
structure Orderly (out : WorkerInput Id Dec Opt Seed Inp) (life : Id → Life (SamplerRow Rng Pen Dec Opt)) : Prop where
  disjoint : ∀ id ∈ out.preemptedReqIds, id ∉ out.finishedReqIds
  decay : ∀ q ∈ out.scheduledNewReqs, ∀ r,
    (life q.reqId).leave out q.reqId = .preempted r → q.samplingParams.penaltyDecay = r.decay

theorem remove_eq_leave {id : Id} {l : Life (SamplerRow Rng Pen Dec Opt)}
    (hdisjoint : id ∈ out.preemptedReqIds → id ∉ out.finishedReqIds) (hl : ∀ r, l ≠ .leaving r) :
    (if id ∈ out.preemptedReqIds then l.save.remove
      else if id ∈ out.finishedReqIds then l.remove else l) = l.leave out id := by
  unfold leave
  by_cases hp : id ∈ out.preemptedReqIds
  · cases l with
    | leaving r => exact absurd rfl (hl r)
    | _ => simp [hp, hdisjoint hp, save, remove]
  by_cases hf : id ∈ out.finishedReqIds
  · cases l with
    | leaving r => exact absurd rfl (hl r)
    | _ => simp [hp, hf, remove]
  · simp [hp, hf]

/-- Once an id has a slot, adding it again starts it fresh: only the first entry can restore. -/
theorem each_place_eq {id : Id} (xs : List (NewRequestData Id Dec Opt Seed))
    {l : Life (SamplerRow Rng Pen Dec Opt)} (hl : ∀ r, l ≠ .leaving r)
    (hdecay : ∀ q ∈ xs, q.reqId = id → ∀ r, l = .preempted r → q.samplingParams.penaltyDecay = r.decay) :
    each NewRequestData.reqId (place k) xs id l = each NewRequestData.reqId (resume k) xs id l := by
  induction xs generalizing l with
  | nil => rfl
  | cons q xs ih =>
    have hcons : ∀ f : NewRequestData Id Dec Opt Seed → Life (SamplerRow Rng Pen Dec Opt) →
        Life (SamplerRow Rng Pen Dec Opt), each NewRequestData.reqId f (q :: xs) id l =
        each NewRequestData.reqId f xs id (if q.reqId = id then f q l else l) := fun _ => rfl
    rw [hcons, hcons]
    by_cases hq : q.reqId = id
    · rw [if_pos hq, if_pos hq]
      have hsame : l.place k q = l.resume k q := by
        cases l with
        | leaving r => exact absurd rfl (hl r)
        | absent | live r => rfl
        | preempted r =>
          have := hdecay q mem_cons_self hq r rfl
          simp only [place, resume, this]
      obtain ⟨r, hr⟩ : ∃ r, l.resume k q = .live r := by
        cases l <;> exact ⟨_, rfl⟩
      rw [hsame, hr]
      exact ih nofun (nofun)
    · rw [if_neg hq, if_neg hq]
      exact ih hl fun q' hq' => hdecay q' (mem_cons_of_mem _ hq')

/-- In an orderly step the life of every id is what it should be. -/
theorem worker_eq_step (hwhole : GPUModelRunner.Whole life) (horderly : Orderly out life) (id : Id) :
    worker k out id (life id) = step k out id (life id) := by
  have hleave := remove_eq_leave (horderly.disjoint id) (hwhole id)
  have hnot : ∀ r, (life id).leave out id ≠ .leaving r := by
    intro r
    unfold leave
    split_ifs
    · exact nofun
    · cases life id <;> exact nofun
    · exact hwhole id r
  unfold worker step
  rw [leave_eq, hleave, each_place_eq out.scheduledNewReqs hnot]
  rintro q hq rfl r hr
  exact horderly.decay q hq r hr

/-- The lives of all ids after some steps. -/
def run (k : RapidKernels Rng Pen Dec Opt Seed Inp) (life : Id → Life (SamplerRow Rng Pen Dec Opt))
    (outs : List (WorkerInput Id Dec Opt Seed Inp)) : Id → Life (SamplerRow Rng Pen Dec Opt) :=
  outs.foldl (fun life out id => (life id).step k out id) life

/-- Every step is orderly, given the lives before it. -/
def OrderlyRun (k : RapidKernels Rng Pen Dec Opt Seed Inp) :
    (Id → Life (SamplerRow Rng Pen Dec Opt)) → List (WorkerInput Id Dec Opt Seed Inp) → Prop
  | _, [] => True
  | life, out :: outs => Orderly out life ∧ OrderlyRun k (fun id => (life id).step k out id) outs

end Life

namespace GPUModelRunner

/-- The tables, read as they are, against the lives: the row of an indexed id is its own row, and what
is preserved is the row of a request that is preempted and not finished. -/
structure Isolated (w : GPUModelRunner Id Rng Pen Dec Opt Seed)
    (life : Id → Life (SamplerRow Rng Pen Dec Opt)) : Prop where
  indexed : ∀ id slot, w.reqStates.reqIdToIndex.get? id = some slot →
    life id = .live ⟨w.sampler.rapidSamplingStates slot, w.sampler.rapidPenalties slot,
      w.sampler.penaltyDecay slot, w.sampler.options slot⟩
  live : ∀ id r, life id = .live r → ∃ slot, w.reqStates.reqIdToIndex.get? id = some slot
  preserved : ∀ id v, w.sampler.preservedRequests.get? id = some v ↔
    ∃ r, life id = .preempted r ∧ v = (r.state, r.penalties)

theorem Settled.isolated (h : Settled k w life) : Isolated w life := by
  constructor
  · intro id slot hslot
    rw [((h.tracks id).indexed hslot).resolve_right (h.whole id _), RwkvSampler.row_of_settled h.staged slot]
  · intro id r hl
    have hid := h.tracks id
    rw [hl] at hid
    obtain ⟨⟨slot, hslot, -⟩, -⟩ := hid
    exact ⟨slot, hslot⟩
  · intro id v
    have hid := h.tracks id
    cases hl : life id with
    | absent | live r => rw [hl] at hid; simp [hid.2]
    | leaving r => exact absurd hl (h.whole id r)
    | preempted r => rw [hl] at hid; simp [hid.2, eq_comm]

theorem run_settled (outs : List (WorkerInput Id Dec Opt Seed Inp)) (h : Settled k w life)
    (horderly : Life.OrderlyRun k life outs) (hok : outs.foldlM (executeStep k) w = .ok w') :
    Settled k w' (Life.run k life outs) := by
  induction outs generalizing w life with
  | nil =>
    cases hok
    exact h
  | cons out outs ih =>
    rw [foldlM_cons] at hok
    obtain ⟨w₁, hstep, hok⟩ := bind_ok hok
    have h₁ := executeStep_settled h hstep
    simp only [Life.worker_eq_step h.whole horderly.1] at h₁
    exact ih h₁ horderly.2 hok

/-- In every orderly run each live request has its own sampler state and nothing else is preserved than
the state of requests that are preempted and not finished. -/
theorem run_isolated (maxNumReqs : ℕ) (states : ℕ → Rng) (penalties : ℕ → Pen) (decay : ℕ → Dec)
    (options : ℕ → Opt) (seeds : ℕ → Seed) (outs : List (WorkerInput Id Dec Opt Seed Inp))
    (horderly : Life.OrderlyRun k (fun _ => .absent) outs)
    (hok : outs.foldlM (executeStep k) (init maxNumReqs states penalties decay options seeds) = .ok w) :
    Isolated w (Life.run k (fun _ => .absent) outs) := by
  refine (run_settled outs ?_ horderly hok).isolated
  exact ⟨fun _ => ⟨rfl, rfl⟩, fun _ _ => nofun, rfl⟩

end GPUModelRunner

end Steps

/-! ## Two runs -/

namespace SamplerRun

/-- A kernel that counts. -/
def kernels : RapidKernels ℕ ℕ ℕ ℕ ℕ Unit where
  setupSamplingStates seed := 100 * seed
  zeroPenalties := 0
  sample _ _ _ state penalties := (state + 1, penalties + 1)

def add (seed : ℕ) : WorkerInput ℕ ℕ ℕ ℕ Unit where
  finishedReqIds := []
  preemptedReqIds := []
  scheduledNewReqs := [⟨0, ⟨9, 0, some seed⟩, 0⟩]
  active := [(0, ())]
  finished_nodup := by decide
  preempted_nodup := by decide

def preempt (finished : Bool) : WorkerInput ℕ ℕ ℕ ℕ Unit where
  finishedReqIds := if finished then [0] else []
  preemptedReqIds := [0]
  scheduledNewReqs := []
  active := []
  finished_nodup := by cases finished <;> decide
  preempted_nodup := by decide

def start : GPUModelRunner ℕ ℕ ℕ ℕ ℕ ℕ :=
  .init 2 (fun _ => 0) (fun _ => 0) (fun _ => 0) (fun _ => 0) (fun _ => 0)

open GPUModelRunner

/-- Preempted and finished in one step, then the id is used again: the new request, of seed 5, goes on
from the state that the finished one, of seed 3, had. -/
theorem finished_while_preempted : (∃ w, [add 3, preempt true].foldlM (executeStep kernels) start = .ok w ∧
      w.sampler.preservedRequests.get? 0 = some (301, 1) ∧
      ¬ Isolated w (Life.run kernels (fun _ => .absent) [add 3, preempt true])) ∧
    ∃ w, [add 3, preempt true, add 5].foldlM (executeStep kernels) start = .ok w ∧
      w.reqStates.reqIdToIndex.get? 0 = some 1 ∧ w.sampler.rapidSamplingStates 1 = 302 ∧
      ¬ Isolated w (Life.run kernels (fun _ => .absent) [add 3, preempt true, add 5]) := by
  have hkept : ∃ w, [add 3, preempt true].foldlM (executeStep kernels) start = .ok w ∧
      w.sampler.preservedRequests.get? 0 = some (301, 1) := ⟨_, rfl, rfl⟩
  have hreused : ∃ w, [add 3, preempt true, add 5].foldlM (executeStep kernels) start = .ok w ∧
      w.reqStates.reqIdToIndex.get? 0 = some 1 ∧ w.sampler.rapidSamplingStates 1 = 302 :=
    ⟨_, rfl, rfl, rfl⟩
  obtain ⟨w₁, hrun₁, hkept⟩ := hkept
  obtain ⟨w₂, hrun₂, hslot, hstate⟩ := hreused
  refine ⟨⟨w₁, hrun₁, hkept, ?_⟩, w₂, hrun₂, hslot, hstate, ?_⟩
  · intro h
    obtain ⟨r, hr, -⟩ := (h.preserved 0 _).1 hkept
    exact absurd hr (by rintro ⟨⟩)
  intro h
  have hrow := h.indexed 0 1 hslot
  rw [hstate] at hrow
  have hfresh : Life.run kernels (fun _ => .absent) [add 3, preempt true, add 5] 0 = .live ⟨501, 1, 9, 0⟩ := rfl
  rw [hfresh] at hrow
  simp only [Life.live.injEq, SamplerRow.mk.injEq] at hrow
  exact absurd hrow.1 (by decide)

/-- Preempted, then added again with the same decay: the run is orderly. -/
theorem preempted_and_resumed : ∃ w, [add 3, preempt false, add 3].foldlM (executeStep kernels) start = .ok w ∧
      w.sampler.rapidSamplingStates 1 = 302 ∧
      Isolated w (Life.run kernels (fun _ => .absent) [add 3, preempt false, add 3]) := by
  obtain ⟨w, hrun, hstate⟩ : ∃ w, [add 3, preempt false, add 3].foldlM (executeStep kernels) start = .ok w ∧
      w.sampler.rapidSamplingStates 1 = 302 := ⟨_, rfl, rfl⟩
  refine ⟨w, hrun, hstate, run_isolated 2 _ _ _ _ _ _ ?_ hrun⟩
  refine ⟨⟨by decide, ?_⟩, ⟨by decide, nofun⟩, ⟨by decide, ?_⟩, trivial⟩
  · intro q hq r hr
    cases mem_singleton.1 hq
    cases hr
  intro q hq r hr
  cases mem_singleton.1 hq
  have : r.decay = 9 := by cases hr; rfl
  rw [this]

end SamplerRun

end VllmRwkv
