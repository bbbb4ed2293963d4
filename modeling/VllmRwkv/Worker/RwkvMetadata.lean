import Mathlib

/-!
# Live metadata of the RWKV attention backend

A full CUDA graph reads its metadata at fixed addresses, so `_build_live` keeps buffers for every batch shape and
writes a query layout to them only if it differs from the one it wrote last. Captures write to the same buffers.

* `Fresh`: a cached layout is the one that its buffers hold.
* `Fresh.writeLayout`: a build leaves the numbers of its own batch in the buffers.
-/

namespace VllmRwkv

open List Function

/-- What the builder reads of a batch. A backend with a recurrent state opts out of a device layout that differs from
the one on the host, and `query_lens.max()` needs a sequence. -/
structure CommonAttentionMetadata where
  queryStartLoc : List ℤ
  queryStartLocCpu : List ℤ
  seqLens : List ℕ
  blockTableTensor : List (List ℕ)
  numReqs : ℕ
  numActualTokens : ℕ
  maxQueryLen : ℤ
  cpu_eq : queryStartLocCpu = queryStartLoc
  starts : queryStartLoc.length = numReqs + 1
  lens : seqLens.length = numReqs
  rows : blockTableTensor.length = numReqs
  pos : 0 < numReqs

abbrev LiveDescriptor := ℕ × ℕ × ℤ

/-- The tensors of the metadata; there are active counts for a live batch only. -/
structure LiveBuffers where
  cuSeqlens : List ℤ
  stateIndices : List ℕ
  numActiveTokens : Option ℤ := none
  numActiveSequences : Option ℕ := none

structure RwkvAttentionMetadata extends LiveBuffers where
  batchSize : ℕ
  maxSeqlen : ℤ
  tokenCapacity : ℤ
  sequenceCapacity : ℕ
  maxSeqlenCapacity : ℤ
  /-- `prepare_metadata_ticket` was called -/
  validated : Bool
  retainTicket : Bool := false

structure RwkvBuilderConfig where
  /-- `mamba_cache_mode` is not "none" -/
  align : Bool
  blockSize : ℕ
  useLiveMetadata : Bool
  /-- what `torch.empty` happens to hold -/
  empty : LiveDescriptor → LiveBuffers

structure RwkvBuilder where
  liveBuffers : LiveDescriptor → Option LiveBuffers := fun _ => none
  liveQueryLayouts : LiveDescriptor → Option (List ℤ × ℕ) := fun _ => none
  captured : LiveDescriptor → Bool := fun _ => false

namespace CommonAttentionMetadata

variable (m : CommonAttentionMetadata) (cfg : RwkvBuilderConfig)

def descriptor : LiveDescriptor := (m.numReqs, m.numActualTokens, m.maxQueryLen)

/-- `torch.diff` -/
def queryLens : List ℤ := m.queryStartLocCpu.zipWith (fun a b => b - a) m.queryStartLocCpu.tail

def activeShape : ℤ × ℕ × ℤ :=
  (m.queryStartLocCpu.getLastD 0, m.queryLens.countP (· ≠ 0), m.queryLens.foldr max 1)

/-- The first column of `mamba_get_block_table_tensor`. -/
def stateIndices : List ℕ :=
  m.blockTableTensor.zipWith (fun row len => row.getD (if cfg.align then (len - 1) / cfg.blockSize else 0) 0) m.seqLens

/-- The numbers of the batch, as the buffers should hold them. -/
def buffers : LiveBuffers := ⟨m.queryStartLoc, m.stateIndices cfg, m.activeShape.1, m.activeShape.2.1⟩

end CommonAttentionMetadata

namespace RwkvBuilder

variable (cfg : RwkvBuilderConfig) (b : RwkvBuilder) (m : CommonAttentionMetadata) (forCapture : Bool)

/-- The buffers, the batch size and the cached layout that `_build_live` ends with. -/
def writeLayout : LiveBuffers × ℕ × Option (List ℤ × ℕ) :=
  let d := m.descriptor
  let kept := { (b.liveBuffers d).getD (cfg.empty d) with stateIndices := (m.stateIndices cfg).take m.numReqs }
  let cuSeqlens := m.queryStartLoc.take (m.numReqs + 1)
  if forCapture then ({ kept with cuSeqlens, numActiveTokens := some 0, numActiveSequences := some 0 }, m.numReqs, none)
  else
    let queryLayout := m.queryStartLocCpu.take (m.numReqs + 1)
    match (b.liveQueryLayouts d).filter (·.1 = queryLayout) with
    | some cached => (kept, cached.2, some cached)
    | none =>
      let (numTokens, batchSize, _) := m.activeShape
      ({ kept with cuSeqlens, numActiveTokens := numTokens, numActiveSequences := batchSize }, batchSize,
        some (queryLayout, batchSize))

def buildLive : RwkvAttentionMetadata × RwkvBuilder :=
  let d := m.descriptor
  let (buffers, batchSize, layout) := b.writeLayout cfg m forCapture
  ({ buffers with
      batchSize
      maxSeqlen := m.maxQueryLen
      tokenCapacity := m.numActualTokens
      sequenceCapacity := m.numReqs
      maxSeqlenCapacity := m.maxQueryLen
      validated := !forCapture && !b.captured d
      retainTicket := forCapture },
    { liveBuffers := update b.liveBuffers d (some buffers)
      liveQueryLayouts := update b.liveQueryLayouts d layout
      captured := update b.captured d (forCapture || b.captured d) })

def build : RwkvAttentionMetadata × RwkvBuilder :=
  if cfg.useLiveMetadata then b.buildLive cfg m false
  else
    let (numTokens, batchSize, maxSeqlen) := m.activeShape
    ({  cuSeqlens := m.queryStartLoc
        stateIndices := m.stateIndices cfg
        batchSize
        maxSeqlen
        tokenCapacity := numTokens
        sequenceCapacity := batchSize
        maxSeqlenCapacity := maxSeqlen
        validated := true }, b)

/-- A batch, and whether it is there for a capture. -/
def call (c : CommonAttentionMetadata × Bool) : RwkvBuilder :=
  if c.2 then (b.buildLive cfg c.1 true).2 else (b.build cfg c.1).2

def run (calls : List (CommonAttentionMetadata × Bool)) : RwkvBuilder := calls.foldl (call cfg) {}

/-- A cached layout is the one that the buffers of its descriptor hold. -/
def Fresh : Prop :=
  ∀ m : CommonAttentionMetadata, ∀ n, b.liveQueryLayouts m.descriptor = some (m.queryStartLoc, n) →
    n = m.activeShape.2.1 ∧ ∃ s, b.liveBuffers m.descriptor = some { m.buffers cfg with stateIndices := s }

variable {cfg b m}

theorem Fresh.writeLayout (h : b.Fresh cfg) :
    b.writeLayout cfg m false = (m.buffers cfg, m.activeShape.2.1, some (m.queryStartLoc, m.activeShape.2.1)) := by
  have hstates : (m.stateIndices cfg).take m.numReqs = m.stateIndices cfg := by
    refine take_of_length_le ?_
    rw [CommonAttentionMetadata.stateIndices, length_zipWith, m.rows]
    exact min_le_left _ _
  unfold RwkvBuilder.writeLayout
  rw [if_neg Bool.false_ne_true, hstates, m.cpu_eq, take_of_length_le m.starts.le]
  dsimp only
  split
  next cached hcached =>
    obtain ⟨q, n⟩ := cached
    obtain ⟨hc, heq⟩ := Option.filter_eq_some_iff.1 hcached
    obtain rfl : q = m.queryStartLoc := of_decide_eq_true heq
    obtain ⟨rfl, s, hs⟩ := h m n hc
    rw [hs]
    rfl
  · rfl

theorem Fresh.buildLive (h : b.Fresh cfg) : (b.buildLive cfg m forCapture).2.Fresh cfg := by
  intro m' n hn
  unfold RwkvBuilder.buildLive at hn ⊢
  dsimp only at hn ⊢
  by_cases hd : m'.descriptor = m.descriptor
  · rw [hd, update_self] at hn ⊢
    cases forCapture with
    | true => cases hn
    | false =>
      rw [h.writeLayout] at hn ⊢
      obtain ⟨hq, rfl⟩ := Prod.mk.inj (Option.some.inj hn)
      -- the numbers of a batch are read from its layout
      have hshape : m'.activeShape = m.activeShape := by
        unfold CommonAttentionMetadata.activeShape CommonAttentionMetadata.queryLens
        rw [m.cpu_eq, m'.cpu_eq, hq]
      unfold CommonAttentionMetadata.buffers
      rw [hshape, hq]
      exact ⟨rfl, m.stateIndices cfg, rfl⟩
  · rw [update_of_ne hd] at hn ⊢
    exact h m' n hn

theorem Fresh.call (h : b.Fresh cfg) (c : CommonAttentionMetadata × Bool) : (b.call cfg c).Fresh cfg := by
  unfold RwkvBuilder.call build
  split_ifs
  · exact h.buildLive true
  · exact h.buildLive false
  · exact h

variable (calls : List (CommonAttentionMetadata × Bool))

theorem Fresh.run : (run cfg calls).Fresh cfg := by
  induction calls using reverseRecOn with
  | nil => exact nofun
  | append_singleton calls c ih =>
    unfold RwkvBuilder.run at ih ⊢
    rw [foldl_concat]
    exact ih.call c

/-- The start of a sequence in the batch. -/
def start (m : CommonAttentionMetadata) (i : ℕ) : ℤ := m.queryStartLoc.getD i 0

theorem queryLens_eq (m : CommonAttentionMetadata) :
    m.queryLens = (range m.numReqs).map fun i => start m (i + 1) - start m i := by
  unfold CommonAttentionMetadata.queryLens start
  rw [m.cpu_eq]
  refine ext_getElem ?_ fun i h h' => ?_
  · rw [length_zipWith, length_tail, length_map, length_range, m.starts]
    omega
  · rw [length_map, length_range] at h'
    have hstarts := m.starts
    rw [getElem_zipWith, getElem_tail, getElem_map, getElem_range, getD_eq_getElem, getD_eq_getElem]

theorem batchSize_eq (m : CommonAttentionMetadata) :
    m.activeShape.2.1 = (range m.numReqs).countP fun i => start m i ≠ start m (i + 1) := by
  unfold CommonAttentionMetadata.activeShape
  dsimp only
  rw [queryLens_eq, countP_map]
  refine countP_congr fun i _ => ?_
  simp only [comp_apply, decide_eq_true_eq]
  exact not_congr (sub_eq_zero.trans eq_comm)

theorem activeTokens_eq (m : CommonAttentionMetadata) : m.activeShape.1 = start m m.numReqs := by
  unfold CommonAttentionMetadata.activeShape start
  rw [m.cpu_eq, getLastD_eq_getLast?, getLast?_eq_getElem?, m.starts, Nat.add_sub_cancel, getD_eq_getElem?_getD]

/-- The block of the state of a sequence: the one that holds its last token, or the only one. -/
theorem stateIndices_eq (m : CommonAttentionMetadata) : m.stateIndices cfg = (range m.numReqs).map fun i =>
    (m.blockTableTensor.getD i []).getD
      (if cfg.align then (max ((m.seqLens.getD i 0 - 1 : ℤ) / cfg.blockSize) 0).toNat else 0) 0 := by
  unfold CommonAttentionMetadata.stateIndices
  refine ext_getElem ?_ fun i h h' => ?_
  · rw [length_zipWith, length_map, length_range, m.rows, m.lens]
    exact min_self _
  · rw [length_map, length_range] at h'
    have hrow : i < m.blockTableTensor.length := m.rows ▸ h'
    have hlen : i < m.seqLens.length := m.lens ▸ h'
    rw [getElem_zipWith, getElem_map, getElem_range, getD_eq_getElem _ _ hrow, getD_eq_getElem _ _ hlen]
    congr 2
    -- a sequence without tokens has its state in the first block
    rcases Nat.eq_zero_or_pos m.seqLens[i] with hzero | hpos
    · rw [hzero]
      have hneg : ((0 : ℕ) - 1 : ℤ) / cfg.blockSize ≤ 0 := by
        rcases Nat.eq_zero_or_pos cfg.blockSize with hsize | hsize
        · rw [hsize]
          decide
        · exact (Int.ediv_neg_of_neg_of_pos (by decide) (by exact_mod_cast hsize)).le
      rw [max_eq_right hneg]
      exact Nat.zero_div _
    · rw [← Nat.cast_pred hpos, ← Int.natCast_ediv, max_eq_left (Int.natCast_nonneg _)]
      rfl

/-- If what is counted comes first, the first ones are counted. -/
theorem iff_lt_countP {p : ℕ → Bool} {n : ℕ} (h : ∀ i j, i < j → j < n → p j → p i) {i : ℕ} (hi : i < n) :
    p i ↔ i < (range n).countP p := by
  induction n with
  | zero => exact absurd hi (Nat.not_lt_zero i)
  | succ n ih =>
    rw [range_succ, countP_append, countP_singleton]
    have hle : (range n).countP p ≤ n := countP_le_length.trans length_range.le
    split
    next hn =>
      have hall : (range n).countP p = n := by
        rw [countP_eq_length.2 fun j hj => h j n (mem_range.1 hj) (Nat.lt_succ_self n) hn, length_range]
      refine iff_of_true ?_ (by rw [hall]; exact hi)
      rcases Nat.lt_succ_iff_lt_or_eq.1 hi with hlt | rfl
      · exact h i n hlt (Nat.lt_succ_self n) hn
      · exact hn
    next hn =>
      rw [Nat.add_zero]
      rcases Nat.lt_succ_iff_lt_or_eq.1 hi with hlt | rfl
      · exact ih (fun i j hij hj => h i j hij (Nat.lt_succ_of_lt hj)) hlt
      · exact iff_of_false hn (not_lt.2 hle)

/-- **A build hands out the numbers of its own batch**, whatever batches and captures came before: the cumulative query
lengths, for each sequence its state block, and the number of sequences with tokens. For a graph they are in the
buffers of its descriptor, with the number of tokens. -/
theorem build_is_current (m : CommonAttentionMetadata) : let r := (run cfg calls).build cfg m
    r.1.cuSeqlens = m.queryStartLoc ∧
      r.1.stateIndices = (range m.numReqs).map (fun i => (m.blockTableTensor.getD i []).getD
        (if cfg.align then (max ((m.seqLens.getD i 0 - 1 : ℤ) / cfg.blockSize) 0).toNat else 0) 0) ∧
      r.1.batchSize = (range m.numReqs).countP (fun i => start m i ≠ start m (i + 1)) ∧
      (cfg.useLiveMetadata → r.1.numActiveTokens = some (start m m.numReqs) ∧
        r.1.numActiveSequences = some r.1.batchSize ∧ r.2.liveBuffers m.descriptor = some r.1.toLiveBuffers) ∧
      ((∀ i j, i < j → j < m.numReqs → start m i = start m (i + 1) → start m j = start m (j + 1)) →
        ∀ i < m.numReqs, start m i ≠ start m (i + 1) ↔ i < r.1.batchSize) := by
  have hfirst (h : ∀ i j, i < j → j < m.numReqs → start m i = start m (i + 1) → start m j = start m (j + 1)) (i : ℕ)
      (hi : i < m.numReqs) : start m i ≠ start m (i + 1) ↔ i < m.activeShape.2.1 := by
    rw [batchSize_eq, ← iff_lt_countP (fun i j hij hj hp => ?_) hi, decide_eq_true_eq]
    rw [decide_eq_true_eq] at hp ⊢
    exact fun heq => hp (h i j hij hj heq)
  rw [← batchSize_eq, ← stateIndices_eq, ← activeTokens_eq]
  unfold build
  split_ifs with hlive
  · unfold RwkvBuilder.buildLive
    rw [(Fresh.run calls).writeLayout]
    exact ⟨rfl, rfl, rfl, fun _ => ⟨rfl, rfl, update_self ..⟩, hfirst⟩
  · exact ⟨rfl, rfl, rfl, fun h => absurd h hlive, hfirst⟩

end RwkvBuilder

end VllmRwkv
