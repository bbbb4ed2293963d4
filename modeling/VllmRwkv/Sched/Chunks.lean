import VllmRwkv.Sched.Update
import VllmRwkv.Cache.HitSound

/-!
# The size of a chunk

No rule about chunks gives a request more tokens than it has left: clipping a chunk for states, for
draft models or for encoder inputs only shortens it, if the items of the request stand in the order of
their positions. `_mamba_block_aligned_split` clips the budgeted end to a block boundary, and the chunk then
stops at the first mandatory position inside it.
-/

namespace VllmRwkv

open Raise

variable {H : Type} {n : ℕ}

/-- The items of a request stand in the order of their positions. -/
def Request.ItemsSorted (r : Request H) : Prop :=
  r.mmFeatures.Pairwise fun f f' => f.mmPosition.offset ≤ f'.mmPosition.offset

namespace SchedulerConfig

variable (cfg : SchedulerConfig H n)

/-! ## Where an aligned prefill chunk ends -/

section

variable (r : Request H) (start numNewTokens : ℕ)

/-- `prefill_end`. -/
def prefillEnd : ℕ := max r.numPromptTokens (r.numTokens - 1)

/-- `use_internal_checkpoint` of a chunk. -/
def useInternalCheckpoint : Bool :=
  cfg.mambaHasPrefillCheckpointBlocks && prefillEnd r ≤ start + numNewTokens &&
    isMambaPrefillCheckpointValid start (start + numNewTokens) (getMambaPrefillCheckpointPosition (prefillEnd r)
        (if cfg.mambaPartialCacheHit then cfg.hashBlockSize else cfg.cache.schedulerBlockSize) cfg.useEagleBlockDrop)
      cfg.hashBlockSize cfg.mambaBlockSize cfg.mambaPrefillCheckpointAlignment

def nextBlockBoundary : ℕ := (start / cfg.mambaBlockSize + 1) * cfg.mambaBlockSize

/-- The budgeted end of a chunk, clipped to a block boundary. -/
def clippedEnd : ℕ :=
  let alignedEnd := (start + numNewTokens) / cfg.mambaBlockSize * cfg.mambaBlockSize
  if start + numNewTokens < prefillEnd r ∧ (start < alignedEnd ∨ cfg.mambaBlockSize ≤ cfg.maxPrefillTokens) then
    alignedEnd
  else start + numNewTokens

/-- `stops`: the boundary after an unaligned start, the last cacheable boundary, the boundary of the prompt's
partial tail, and the junction with a shared prefix. -/
def mandatoryStops : List ℕ :=
  let internal := cfg.useInternalCheckpoint r start numNewTokens
  let lastCachePosition :=
    if internal then 0 else getMambaPrefillCheckpointPosition r.numTokens cfg.mambaBlockSize cfg.useEagleBlockDrop
  let tailBoundary :=
    if cfg.mambaPartialCacheHit && !internal then
      getMambaPrefillCheckpointPosition r.numPromptTokens cfg.hashBlockSize cfg.useEagleBlockDrop
    else 0
  let junction := r.sharedPrefixBoundary
  let junctionStop :=
    if cfg.mambaSharedPrefixCheckpoint ∧ junction ≤ r.numPromptTokens then junction
    else start + (junction - start) / cfg.mambaBlockSize * cfg.mambaBlockSize
  [if start % cfg.mambaBlockSize ≠ 0 ∧ internal = false then cfg.nextBlockBoundary start else 0, lastCachePosition,
    if lastCachePosition < tailBoundary ∧ tailBoundary < r.numPromptTokens then tailBoundary else 0,
    if start < junction ∧ junction < cfg.clippedEnd r start numNewTokens then junctionStop else 0]

/-- The chunk stops at its clipped end, or at the first mandatory stop inside it. -/
theorem mambaBlockAlignedSplit_spec {numLocal numExternal : ℕ}
    (hstart : r.numComputedTokens + numLocal + numExternal = start) (h : start < prefillEnd r) :
    ∃ chunkEnd, cfg.mambaBlockAlignedSplit r numNewTokens numLocal numExternal = chunkEnd - start ∧
      chunkEnd ≤ cfg.clippedEnd r start numNewTokens ∧
      (∀ stop ∈ cfg.mandatoryStops r start numNewTokens, start < stop → chunkEnd ≤ stop) ∧
      (chunkEnd = cfg.clippedEnd r start numNewTokens ∨
        chunkEnd ∈ cfg.mandatoryStops r start numNewTokens ∧ start < chunkEnd) := by
  subst hstart
  generalize hs : r.numComputedTokens + numLocal + numExternal = start at h
  generalize hstops : cfg.mandatoryStops r start numNewTokens = stops
  generalize hend : cfg.clippedEnd r start numNewTokens = clipped
  refine ⟨(stops.filter fun stop => start < stop ∧ stop < clipped).min?.getD clipped, ?_, ?_⟩
  · rw [← hstops, ← hend, ← hs]
    exact if_neg (not_le.2 (hs ▸ h))
  cases hmin : (stops.filter fun stop => start < stop ∧ stop < clipped).min? with
  | none =>
    refine ⟨le_rfl, fun stop hstop hlt => not_lt.1 fun hin => ?_, .inl rfl⟩
    exact List.filter_eq_nil_iff.1 (List.min?_eq_none_iff.1 hmin) stop hstop (decide_eq_true ⟨hlt, hin⟩)
  | some first =>
    obtain ⟨hfirst, hle⟩ := List.min?_eq_some_iff.1 hmin
    obtain ⟨hmem, hin⟩ := List.mem_filter.1 hfirst
    rw [decide_eq_true_eq] at hin
    refine ⟨hin.2.le, fun stop hstop hlt => ?_, .inr ⟨hmem, hin.1⟩⟩
    rcases lt_or_ge stop clipped with hlow | hhigh
    · exact hle _ (List.mem_filter.2 ⟨hstop, decide_eq_true ⟨hlt, hlow⟩⟩)
    · exact hin.2.le.trans hhigh

/-- The clipped end is a block boundary, unless the budget reaches the end of the prefill or the block is
wider than a chunk. -/
theorem clippedEnd_spec : cfg.clippedEnd r start numNewTokens ≤ start + numNewTokens ∧
      (cfg.mambaBlockSize ∣ cfg.clippedEnd r start numNewTokens ∧ (start < cfg.clippedEnd r start numNewTokens ∨
            start + numNewTokens < prefillEnd r ∧ cfg.mambaBlockSize ≤ cfg.maxPrefillTokens ∧
              (0 < cfg.mambaBlockSize → start + numNewTokens < cfg.nextBlockBoundary start)) ∨
        cfg.clippedEnd r start numNewTokens = start + numNewTokens ∧
          (prefillEnd r ≤ start + numNewTokens ∨ cfg.maxPrefillTokens < cfg.mambaBlockSize)) := by
  unfold clippedEnd
  dsimp only
  split_ifs with hclip
  · refine ⟨Nat.div_mul_le_self _ _, .inl ⟨Nat.dvd_mul_left _ _, ?_⟩⟩
    rcases lt_or_ge start ((start + numNewTokens) / cfg.mambaBlockSize * cfg.mambaBlockSize) with hlt | hge
    · exact .inl hlt
    · refine .inr ⟨hclip.1, hclip.2.resolve_left (not_lt.2 hge), fun hpos => ?_⟩
      rw [nextBlockBoundary, ← Nat.div_lt_iff_lt_mul hpos, Nat.lt_succ_iff, Nat.le_div_iff_mul_le hpos]
      exact hge
  · exact ⟨le_rfl, .inr ⟨rfl, by omega⟩⟩

theorem mambaBlockAlignedSplit_le (numLocal numExternal : ℕ) :
    cfg.mambaBlockAlignedSplit r numNewTokens numLocal numExternal ≤ numNewTokens := by
  rcases lt_or_ge (r.numComputedTokens + numLocal + numExternal) (prefillEnd r) with h | h
  · obtain ⟨chunkEnd, heq, hle, -⟩ := cfg.mambaBlockAlignedSplit_spec r _ numNewTokens rfl h
    have := (cfg.clippedEnd_spec r (r.numComputedTokens + numLocal + numExternal) numNewTokens).1
    omega
  · exact (if_pos h : cfg.mambaBlockAlignedSplit r numNewTokens numLocal numExternal = numNewTokens).le

/-- **Where the chunk ends.** It runs past no mandatory stop. It ends at one, at a block boundary or with
the budget, which then reaches the end of the prefill or is spent inside a block wider than a chunk. It is
empty only if a budget that does not reach the end of the prefill does not reach the next block boundary. -/
theorem mamba_split_law (hblock : 0 < cfg.mambaBlockSize) {numLocal numExternal : ℕ}
    (hstart : r.numComputedTokens + numLocal + numExternal = start) (h : start < prefillEnd r) :
    let count := cfg.mambaBlockAlignedSplit r numNewTokens numLocal numExternal
    count ≤ numNewTokens ∧
    (∀ stop ∈ cfg.mandatoryStops r start numNewTokens, start < stop → start + count ≤ stop) ∧
    (0 < count → start + count ∈ cfg.mandatoryStops r start numNewTokens ∨ cfg.mambaBlockSize ∣ start + count ∨
      count = numNewTokens ∧ (prefillEnd r ≤ start + numNewTokens ∨ cfg.maxPrefillTokens < cfg.mambaBlockSize)) ∧
    (count = 0 → numNewTokens = 0 ∨ start + numNewTokens < prefillEnd r ∧
      start + numNewTokens < cfg.nextBlockBoundary start ∧ cfg.mambaBlockSize ≤ cfg.maxPrefillTokens) := by
  intro count
  have hcount : count ≤ numNewTokens := cfg.mambaBlockAlignedSplit_le r numNewTokens numLocal numExternal
  obtain ⟨chunkEnd, heq, hle, hstops, hend⟩ := cfg.mambaBlockAlignedSplit_spec r start numNewTokens hstart h
  obtain ⟨hbudget, hclip⟩ := cfg.clippedEnd_spec r start numNewTokens
  refine ⟨hcount, fun stop hmem hlt => ?_, fun hpos => ?_, fun hzero => ?_⟩
  · have := hstops stop hmem hlt
    omega
  · rw [show start + count = chunkEnd by omega]
    rcases hend with rfl | ⟨hmem, -⟩
    · rcases hclip with ⟨hdvd, -⟩ | ⟨hall, hwhy⟩
      · exact .inr (.inl hdvd)
      · exact .inr (.inr ⟨by omega, hwhy⟩)
    · exact .inl hmem
  · rcases hend with rfl | ⟨-, hlt⟩
    · rcases hclip with ⟨-, hlt | ⟨hprefill, hwide, hnext⟩⟩ | ⟨hall, -⟩
      · omega
      · exact .inr ⟨hprefill, hnext hblock, hwide⟩
      · exact .inl (by omega)
    · omega

/-- Blocks of eight tokens with partial hits at every second one. -/
def wideBlocks (maxNumScheduledTokens : ℕ) : SchedulerConfig ℕ 1 :=
  { SchedulerConfig.plain (.unitaryOf .fullAttention 1 Nat.one_pos CacheConfig.fullAttention_window) .fcfs with
    mambaBlockSize := 8
    hashBlockSize := 2
    mambaPartialCacheHit := true
    maxNumScheduledTokens }

/-- A new prompt of seven tokens. -/
def sevenTokens : Request ℕ where
  requestId := 1
  status := .waiting
  numPromptTokens := 7
  allTokenIds := [1, 2, 3, 4, 5, 6, 7]
  blockHashes := []
  numComputedTokens := 0
  numInFlightTokens := 0
  sharedPrefixBoundary := 0

theorem mamba_split_law_seven : (wideBlocks 16).mambaBlockAlignedSplit sevenTokens 7 0 0 = 6 ∧
    6 ∈ (wideBlocks 16).mandatoryStops sevenTokens 0 7 := by
  have hsix : (wideBlocks 16).mambaBlockAlignedSplit sevenTokens 7 0 0 = 6 := by decide
  have hlaw := (mamba_split_law (wideBlocks 16) sevenTokens 0 7 (by decide)
    (show sevenTokens.numComputedTokens + 0 + 0 = 0 from rfl) (by decide)).2.2.1
  rw [hsix] at hlaw
  refine ⟨hsix, (hlaw (by decide)).resolve_right ?_⟩
  decide

/-- A budget of six tokens reaches the boundary of the prompt's tail and no block boundary: nothing is
scheduled. Chunks of four tokens in a block of eight: one ends at the fourth. -/
theorem mamba_split_other_ends : (wideBlocks 16).mambaBlockAlignedSplit sevenTokens 6 0 0 = 0 ∧
      6 ∈ (wideBlocks 16).mandatoryStops sevenTokens 0 6 ∧
    (wideBlocks 4).mambaBlockAlignedSplit sevenTokens 4 0 0 = 4 ∧ ¬ 8 ∣ 4 ∧
      4 ∉ (wideBlocks 4).mandatoryStops sevenTokens 0 4 ∧ 4 < prefillEnd sevenTokens := by
  decide

end

/-! ## No more tokens than are left -/

theorem reservePrefillLookahead_le (r : Request H) (numComputedTokens numNewTokens : ℕ) :
    cfg.reservePrefillLookahead r numComputedTokens numNewTokens ≤ numNewTokens := by
  unfold reservePrefillLookahead
  dsimp only
  split <;> omega

/-- A chunk of a running request stays within the tokens left, the budgets and the model's length. -/
theorem runningNumNewTokens_le (threshold : ℕ) (p : Pass n) (r : Request H) : cfg.runningNumNewTokens threshold p r ≤
      min (min ((r.numTokensWithSpec : ℤ) + r.numOutputPlaceholders - r.numComputedTokens).toNat
          (min p.tokenBudget (p.inputBudget - cfg.draftSlots)))
        (cfg.cache.maxModelLen - r.numComputedTokens - cfg.numSampledTokensPerStep) := by
  unfold runningNumNewTokens
  generalize ((r.numTokensWithSpec : ℤ) + r.numOutputPlaceholders - r.numComputedTokens).toNat = left
  have hthreshold : (if 0 < threshold ∧ threshold < left then threshold else left) ≤ left := by
    split <;> omega
  have hle := min_le_min_right (cfg.cache.maxModelLen - r.numComputedTokens - cfg.numSampledTokensPerStep)
    (min_le_min_right (min p.tokenBudget (p.inputBudget - cfg.draftSlots)) hthreshold)
  split
  · exact (cfg.mambaBlockAlignedSplit_le _ _ _ _).trans hle
  · exact hle

/-- A padded request has one token left and room for its drafts, and any other chunk stays within the tokens left; all
stay within what is left of the budgets. -/
theorem waitingNumNewTokens_spec {deferPrefills : Bool} {threshold : ℕ} {p : Pass n} {r : Request H}
    {look : Lookup n} {numNewTokens : ℕ} {pad : Bool}
    (h : cfg.waitingNumNewTokens deferPrefills threshold p r look = .ok (some (numNewTokens, pad))) :
    (if pad then r.numTokens - look.numComputedTokens = 1 else numNewTokens ≤ r.numTokens - look.numComputedTokens) ∧
      numNewTokens ≤ p.tokenBudget ∧ numNewTokens ≤ p.inputBudget - cfg.draftSlots ∧
      (pad → look.numComputedTokens + (1 + cfg.numSpecTokens) + cfg.numSampledTokensPerStep ≤
        cfg.cache.maxModelLen) := by
  unfold waitingNumNewTokens at h
  dsimp only at h
  generalize r.numTokens - look.numComputedTokens = left at h ⊢
  generalize hpad : decide (0 < cfg.numSpecTokens ∧ cfg.dynamicSdLookup.isNone ∧
    0 < cfg.numSampledTokensPerStep ∧ left = 1 ∧ p.prefillScheduled = false ∧
    (p.scheduledRunningReqs ≠ [] ∨ 0 < look.numComputedTokens) ∧
    look.numComputedTokens + (1 + cfg.numSpecTokens) + cfg.numSampledTokensPerStep ≤ cfg.cache.maxModelLen) =
    wantsPad at h
  split at h
  · cases h
  split at h
  · cases h
  generalize hm : (if 0 < threshold ∧ threshold < (if wantsPad then 1 + cfg.numSpecTokens else left)
    then threshold else if wantsPad then 1 + cfg.numSpecTokens else left) = m at h
  generalize hk : min m (min p.tokenBudget (p.inputBudget - cfg.draftSlots)) = k at h
  split at h
  · cases h
  split at h
  · cases h
  rename_i hpos
  generalize hsplit : (if cfg.needMambaBlockAlignedSplit then
    cfg.mambaBlockAlignedSplit r k look.numNewLocalComputedTokens look.numExternalComputedTokens else k) = split at h
  have hsplitle : split ≤ k := by
    rw [← hsplit]
    split
    · exact cfg.mambaBlockAlignedSplit_le _ _ _ _
    · exact le_rfl
  split at h
  · cases h
  obtain ⟨hnew, hpad'⟩ := Prod.mk.inj (Option.some.inj (Except.ok.inj h))
  have hle : numNewTokens ≤ k := by
    rw [← hnew]
    split <;> omega
  refine ⟨?_, by omega, by omega, fun htrue => ?_⟩
  · cases wantsPad with
    | false =>
      simp only [Bool.false_and, Bool.and_false] at hpad'
      rw [← hpad', if_neg Bool.false_ne_true]
      rw [if_neg Bool.false_ne_true] at hm
      have : m ≤ left := by
        rw [← hm]
        split <;> omega
      omega
    | true =>
      rw [(of_decide_eq_true hpad).2.2.2.1]
      subst hnew hpad'
      generalize (cfg.needMambaBlockAlignedSplit && true && _ : Bool) = clipped
      cases clipped with
      | false => rfl
      | true => exact le_rfl
  · rw [htrue] at hpad'
    rw [(Bool.and_eq_true_iff.1 hpad').1] at hpad
    exact (of_decide_eq_true hpad).2.2.2.2.2.2

section Encoder

variable {s : Scheduler H n} {r : Request H}

/-- An item that can be allocated is within the compute budget. -/
theorem canAllocate_affordable (inputId : ℕ) (encoderComputeBudget : ℤ) (numEmbeds : ℕ) :
    wp (Scheduler.onEncoder (EncoderManager.canAllocate r inputId encoderComputeBudget numEmbeds) : SchedM H n Bool)
      (fun fits _ => fits → ∀ f, r.mmFeatures[inputId]? = some f →
        (f.mmPosition.getNumEmbeds : ℤ) ≤ encoderComputeBudget) any s := by
  unfold Scheduler.onEncoder
  rw [wp_zoom]
  unfold EncoderManager.canAllocate
  cases s.encoder
  on_goal 1 =>
    rw [EncoderManager.wp_dispatch_cache]
    unfold EncoderCacheManager.canAllocate EncoderCacheManager.getNumEncoderEmbeds
  on_goal 2 =>
    rw [EncoderManager.wp_dispatch_encoderDecoder]
    unfold EncoderDecoderCacheManager.canAllocate EncoderDecoderCacheManager.getNumEncoderEmbeds
  all_goals
    rw [wp_bind]
    cases r.mmFeatures[inputId]? with
    | none => trivial
    | some f =>
      rw [wp_pure]
      split_ifs with hle
      · exact fun h => Bool.noConfusion h
      refine wp_any wp_trivial (fun _ _ _ _ f' hf' => ?_)
      cases hf'
      exact not_lt.1 hle

variable (env : ScheduleEnv n)

/-- What the loop over the encoder inputs keeps of the length of the chunk and the compute budget. -/
theorem encoderLoop_keeps (numComputedTokens encoderWindowEnd : ℕ) {P : ℕ → ℤ → Prop}
    (hreject : ∀ {k b}, P k b → P 0 b) (inputIds : List ℕ)
    (hcut : ∀ i ∈ inputIds, ∀ f, r.mmFeatures[i]? = some f → ∀ {k : ℕ} {b : ℤ}, P k b →
      P (f.mmPosition.offset - (numComputedTokens + cfg.numPrefillLookahead)) b)
    (hspend : ∀ {k : ℕ} {b : ℤ} {f : MultiModalFeatureSpec}, f.mmPosition.getNumEmbeds ≤ b → P k b →
      P k (b - f.mmPosition.getNumEmbeds)) (mmHashes : Dict ℕ ℕ) (numEmbeds : ℕ) (plan : EncoderPlan)
    (hplan : P plan.numNewTokens plan.encoderComputeBudget) :
    wp (cfg.encoderLoop env r numComputedTokens encoderWindowEnd inputIds mmHashes numEmbeds plan)
      (fun plan' _ => P plan'.numNewTokens plan'.encoderComputeBudget) any s := by
  induction inputIds generalizing mmHashes numEmbeds plan s with
  | nil => exact hplan
  | cons inputId rest ih =>
    have ih := fun {s} => ih (s := s) fun i hi => hcut i (List.mem_cons_of_mem _ hi)
    unfold encoderLoop
    cases hf : r.mmFeatures[inputId]? with
    | none => trivial
    | some f =>
      have hbefore := hcut inputId List.mem_cons_self f hf hplan
      dsimp only
      split
      · rw [wp_bind, wp_check]
        exact ⟨fun _ => ih _ _ _ hplan, fun _ => trivial⟩
      rw [wp_bind]
      refine wp_any wp_trivial (fun hit s1 _ => ?_)
      cases hit with
      | mismatch => exact hreject hplan
      | duplicate | cached => exact ih _ _ _ hplan
      | miss =>
        dsimp only
        split
        · exact hbefore
        rw [wp_bind]
        refine wp_any (canAllocate_affordable inputId _ _) (fun fits s2 hfits => ?_)
        split
        next hyes =>
          split
          · exact ih _ _ _ hplan
          · split
            · exact ih _ _ _ hplan
            · exact ih _ _ _ (hspend (hfits hyes f hf) hplan)
        · exact hbefore

/-- The plan for the encoder does not overdraw the compute budget. -/
theorem tryScheduleEncoderInputs_solvent (r : Request H)
    (numComputedTokens numNewTokens : ℕ) (encoderComputeBudget : ℤ) :
    wp (cfg.tryScheduleEncoderInputs env r numComputedTokens numNewTokens encoderComputeBudget)
      (fun plan _ => 0 ≤ encoderComputeBudget → 0 ≤ plan.encoderComputeBudget) any s := by
  by_cases hsolvent : 0 ≤ encoderComputeBudget
  · unfold tryScheduleEncoderInputs
    split
    · exact fun h => h
    · exact wp_any (cfg.encoderLoop_keeps env _ _ id _ (fun _ _ _ _ => id)
        (fun hle _ => sub_nonneg.2 hle) _ _ _ hsolvent)
        (fun _ _ h _ => h)
  · exact wp_any wp_trivial (fun _ _ _ h => absurd h hsolvent)

theorem tryScheduleEncoderInputs_le (numComputedTokens numNewTokens : ℕ)
    (encoderComputeBudget : ℤ) (hsorted : r.ItemsSorted) :
    wp (cfg.tryScheduleEncoderInputs env r numComputedTokens numNewTokens encoderComputeBudget)
      (fun plan _ => plan.numNewTokens ≤ numNewTokens) any s := by
  unfold tryScheduleEncoderInputs
  dsimp only
  split
  · exact le_rfl
  refine cfg.encoderLoop_keeps (P := fun k _ => k ≤ numNewTokens) env _ _ (fun _ => Nat.zero_le _) _
    (fun i hi f hf _ _ _ => ?_) (fun _ => id) _ _ _ le_rfl
  obtain ⟨hlo, hhi⟩ := List.mem_range'_1.1 hi
  have : f.mmPosition.offset < numComputedTokens + numNewTokens + cfg.numPrefillLookahead :=
    key_lt_of_lt_bisectLeft (hsorted.imp fun hle => hle.trans_lt) hf (show i < (getMmFeaturesInWindow _ numComputedTokens _).2 by omega)
  omega

end Encoder

end SchedulerConfig

end VllmRwkv
