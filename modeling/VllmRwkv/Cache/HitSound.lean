import VllmRwkv.Cache.Lookup
import VllmRwkv.Pool.Run

/-!
# Hits of several groups

`HybridKVCacheCoordinator.find_longest_cache_hit` passes over the attention groups until all agree
on one length. `Searching` is the invariant of a pass: what every group that was looked up holds,
and which EAGLE groups have seen the block after the current length.
-/

namespace VllmRwkv.CacheConfig

open List Option Nat BlockPool BlockHashToBlockMap

variable {H : Type} {n : ℕ} (cfg : CacheConfig n) (p : BlockPool H) (blockHashes : List H)

def specOf (group : SpecGroup n) : KVCacheSpec := (cfg.groups group.firstGroupId).spec

def blockSizeOf (group : SpecGroup n) : ℕ := (cfg.groups group.firstGroupId).blockSize

/-- What the constructor of the hybrid coordinator and `verify_and_split_kv_cache_groups` make of a
configuration, and what `ChunkedLocalAttentionManager` asserts. -/
structure Splits : Prop where
  hashBlockSize_pos : 0 < p.hashBlockSize
  dvd : ∀ i, p.hashBlockSize ∣ (cfg.groups i).blockSize
  schedulerBlockSize_pos : 0 < cfg.schedulerBlockSize
  aligned : cfg.enablePartialHashHits = false → ∀ i, (cfg.groups i).blockSize ∣ cfg.schedulerBlockSize
  partialHits : cfg.enablePartialHashHits → ∀ i, (cfg.groups i).spec = .fullAttention ∨
    (cfg.groups i).isMamba ∨ (cfg.groups i).blockSize = p.hashBlockSize
  nonempty : cfg.attentionGroups ≠ []
  covers : ∀ i, ∃ group ∈ cfg.attentionGroups, i ∈ group.groupIds
  same : ∀ group ∈ cfg.attentionGroups, ∀ i ∈ group.groupIds,
    (cfg.groups i).spec = cfg.specOf group ∧ (cfg.groups i).blockSize = cfg.blockSizeOf group
  disjoint : cfg.attentionGroups.Pairwise fun g g' => g.groupIds.Disjoint g'.groupIds
  fullFirst : cfg.attentionGroups.Pairwise fun g g' =>
    cfg.specOf g' = .fullAttention → cfg.specOf g = .fullAttention
  chunked : ∀ group ∈ cfg.attentionGroups, ∀ chunk, cfg.specOf group = .chunkedLocalAttention chunk →
    group.useEagle = false ∧ cfg.blockSizeOf group = cfg.cacheHitAlignmentTokens p

/-- The lookup of an attention group. -/
def lookupArgs (group : SpecGroup n) (maxLength : ℕ) (dropEagleBlock : Bool) : LookupArgs H where
  blockHashes := blockHashes
  maxLength := maxLength
  kvCacheGroupIds := group.groupIds.map fun i => (cfg.groups i).kvCacheGroupId
  blockSize := cfg.blockSizeOf group
  dropEagleBlock := dropEagleBlock
  alignmentTokens := cfg.cacheHitAlignmentTokens p

def Covers (group : SpecGroup n) (rows : List (List KVCacheBlock)) (length : ℕ) : Prop :=
  (cfg.lookupArgs p blockHashes group 0 false).Covers p ((cfg.specOf group).nullsBefore (cfg.blockSizeOf group) length)
    rows length

/-- The block after a hit is cached for the group. -/
def Follows (group : SpecGroup n) (length : ℕ) : Prop :=
  0 < length → (cfg.lookupArgs p blockHashes group 0 false).Follows p length

/-- What the last lookup of a group found. -/
structure Held (st : HitSearch n) (group : SpecGroup n) (rows : List (List KVCacheBlock)) (length : ℕ) : Prop where
  blocks : ∀ i ∈ group.groupIds, st.hitBlocksByGroup i = some (splitRows rows group.groupIds i)
  lengths : ∀ i ∈ group.groupIds, st.hitLengthByGroup i = length
  aligned : cfg.cacheHitAlignmentTokens p ∣ length
  covers : cfg.Covers p blockHashes group rows length

/-- A sliding-window EAGLE group, the only EAGLE group besides those of full attention. -/
structure Lone (k : ℕ) (group : SpecGroup n) : Prop where
  get : cfg.attentionGroups[k]? = some group
  useEagle : group.useEagle
  notFull : cfg.specOf group ≠ .fullAttention
  drops : (cfg.specOf group).dropsEagleBlock
  only : ∀ (k' : ℕ) group', cfg.attentionGroups[k']? = some group' → group'.useEagle →
    cfg.specOf group' ≠ .fullAttention → k' = k

/-- **The invariant of a pass** that began with length `start`, before attention group `idx`. -/
structure Searching (first : Bool) (start idx : ℕ) (st : HitSearch n) : Prop where
  le : st.currHitLength ≤ start
  aligned : first = false ∨ 0 < idx → cfg.cacheHitAlignmentTokens p ∣ st.currHitLength
  held : ∀ (k : ℕ) group, cfg.attentionGroups[k]? = some group → first = false ∨ k < idx →
    ∃ rows length, cfg.Held p blockHashes st group rows length ∧ st.currHitLength ≤ length ∧
      (cfg.specOf group ≠ .fullAttention → (k < idx → length ≤ start) ∧ (k + 1 = idx → length = st.currHitLength)) ∧
      (cfg.specOf group = .fullAttention → group.useEagle → cfg.Follows p blockHashes group length)
  fresh : first → (∀ (k : ℕ) group, cfg.attentionGroups[k]? = some group → idx ≤ k →
    st.hitBlocksByGroup group.firstGroupId = none) ∧ ∀ k ∈ st.eagleVerified, k < idx
  eagle : ∀ k group, cfg.Lone k group → (k ∈ st.eagleVerified → cfg.Follows p blockHashes group st.currHitLength) ∧
    (k < idx → k ∈ st.eagleVerified ∨ st.currHitLength < start) ∧
    (first → k + 1 = idx → k ∈ st.eagleVerified)

variable {cfg p blockHashes} {row : List KVCacheBlock} {rows : List (List KVCacheBlock)} {maxLength : ℕ}

section

variable (h : cfg.Splits p)

include h

theorem Splits.alignment_pos : 0 < cfg.cacheHitAlignmentTokens p := by
  unfold cacheHitAlignmentTokens
  split
  · exact h.hashBlockSize_pos
  · exact h.schedulerBlockSize_pos

theorem Splits.wellFormed (group : SpecGroup n) (drop : Bool)
    (hhash : maxLength / p.hashBlockSize ≤ blockHashes.length) :
    (cfg.lookupArgs p blockHashes group maxLength drop).WellFormed p where
  hashBlockSize_pos := h.hashBlockSize_pos
  blockSize_pos := (cfg.groups group.firstGroupId).blockSize_pos
  dvd := h.dvd _
  alignment_pos := h.alignment_pos
  aligned := by
    show cfg.blockSizeOf group ∣ cfg.cacheHitAlignmentTokens p ∨ cfg.cacheHitAlignmentTokens p = _
    unfold cacheHitAlignmentTokens
    cases hp : cfg.enablePartialHashHits with
    | true => exact .inr rfl
    | false => exact .inl (h.aligned hp _)
  hashed := hhash

section

variable {k k' : ℕ} {g g' : SpecGroup n} (hk : cfg.attentionGroups[k]? = some g) (hk' : cfg.attentionGroups[k']? = some g')

include hk hk'

theorem Splits.not_mem (hne : k ≠ k') {i : Fin n} (hi : i ∈ g.groupIds) : i ∉ g'.groupIds := by
  obtain ⟨hlt, rfl⟩ := List.getElem?_eq_some_iff.1 hk
  obtain ⟨hlt', rfl⟩ := List.getElem?_eq_some_iff.1 hk'
  have hpair := pairwise_iff_getElem.1 h.disjoint
  rcases lt_or_gt_of_ne hne with hlt2 | hlt2
  · exact hpair k k' hlt hlt' hlt2 hi
  · exact fun hi' => hpair k' k hlt' hlt hlt2 hi' hi

theorem Splits.full_of_lt (hlt : k < k') (hfull : cfg.specOf g' = .fullAttention) : cfg.specOf g = .fullAttention := by
  obtain ⟨h1, rfl⟩ := List.getElem?_eq_some_iff.1 hk
  obtain ⟨h2, rfl⟩ := List.getElem?_eq_some_iff.1 hk'
  exact pairwise_iff_getElem.1 h.fullFirst k k' h1 h2 hlt hfull

end

/-- The margin a group looks past the current length is dropped again. -/
theorem Splits.margin_le (group : SpecGroup n) (hmamba : (cfg.groups group.firstGroupId).isMamba = false) :
    eagleProofMargin (cfg.blockSizeOf group) p.hashBlockSize
        (cfg.enablePartialHashHits && cfg.specOf group = .fullAttention) ≤
      min (cfg.cacheHitAlignmentTokens p) (cfg.blockSizeOf group) := by
  have hle : p.hashBlockSize ≤ cfg.blockSizeOf group :=
    le_of_dvd (cfg.groups group.firstGroupId).blockSize_pos (h.dvd _)
  unfold eagleProofMargin cacheHitAlignmentTokens
  cases hp : cfg.enablePartialHashHits with
  | false =>
    have := le_of_dvd h.schedulerBlockSize_pos (h.aligned hp group.firstGroupId)
    exact le_min this le_rfl
  | true =>
    rcases h.partialHits hp group.firstGroupId with hfull | hm | heq
    · have hspec : cfg.specOf group = .fullAttention := hfull
      simp only [hspec, decide_true, Bool.and_true, true_and, if_true]
      split <;> omega
    · cases hmamba.symm.trans hm
    · have heq' : cfg.blockSizeOf group = p.hashBlockSize := heq
      rw [heq', if_neg (by omega), if_pos rfl, min_self]

end

/-! ## One group -/

variable (cfg p blockHashes) in
/-- A lookup of attention group `idx` with `rows` as its result. -/
structure LookedUp (idx : ℕ) (group : SpecGroup n) (rows : List (List KVCacheBlock)) (st st' : HitSearch n) : Prop where
  le : st'.currHitLength ≤ st.currHitLength
  aligned : cfg.cacheHitAlignmentTokens p ∣ st'.currHitLength
  covers : cfg.Covers p blockHashes group rows st'.currHitLength
  follows : group.useEagle → idx ∉ st.eagleVerified → (cfg.specOf group).dropsEagleBlock →
    cfg.Follows p blockHashes group st'.currHitLength
  blocks : ∀ i, st'.hitBlocksByGroup i =
    if i ∈ group.groupIds then some (splitRows rows group.groupIds i) else st.hitBlocksByGroup i
  lengths : ∀ i, st'.hitLengthByGroup i = if i ∈ group.groupIds then st'.currHitLength else st.hitLengthByGroup i
  verified : st'.eagleVerified = if group.useEagle ∧ idx ∉ st.eagleVerified then idx :: st.eagleVerified
    else if st'.currHitLength < st.currHitLength then [] else st.eagleVerified

theorem dropsEagleBlock_of_isMamba {group : SpecGroup n}
    (h : (cfg.groups group.firstGroupId).isMamba = false) : (cfg.specOf group).dropsEagleBlock := by
  unfold GroupConfig.isMamba at h
  unfold specOf
  cases hs : (cfg.groups group.firstGroupId).spec with
  | mamba =>
    rw [hs] at h
    cases h
  | _ => rfl

theorem searchGroup_lookedUp (h : cfg.Splits p) (idx : ℕ) {group : SpecGroup n} {st : HitSearch n}
    (hgroup : group ∈ cfg.attentionGroups) (hcurr : st.currHitLength / p.hashBlockSize ≤ blockHashes.length)
    (hnew : ¬ (cfg.specOf group = .fullAttention ∧ (st.hitBlocksByGroup group.firstGroupId).isSome)) :
    ∃ rows st', cfg.searchGroup p blockHashes idx group st = .ok st' ∧
      cfg.LookedUp p blockHashes idx group rows st st' := by
  -- the length the lookup is given
  generalize hdrop : (group.useEagle && idx ∉ st.eagleVerified : Bool) = drop
  generalize hmax : (if drop ∧ (cfg.groups group.firstGroupId).isMamba = false then
      min (st.currHitLength + eagleProofMargin (cfg.blockSizeOf group) p.hashBlockSize
          (cfg.enablePartialHashHits && cfg.specOf group = .fullAttention))
        (blockHashes.length * p.hashBlockSize)
    else st.currHitLength) = maxLength
  have hhash : maxLength / p.hashBlockSize ≤ blockHashes.length := by
    rw [← hmax]
    split
    · exact Nat.div_le_of_le_mul (Nat.mul_comm _ _ ▸ min_le_right _ _)
    · exact hcurr
  have hsupports : (cfg.lookupArgs p blockHashes group maxLength drop).Supports (cfg.specOf group) := by
    unfold LookupArgs.Supports
    split
    next chunk hspec =>
      obtain ⟨heagle, hal⟩ := h.chunked group hgroup chunk hspec
      refine ⟨?_, hal⟩
      show drop = false
      rw [← hdrop, heagle, Bool.false_and]
    · trivial
  obtain ⟨⟨rows, length⟩, hfind, hit⟩ :=
    LookupArgs.findLongestCacheHit_finds (h.wellFormed group drop hhash) hsupports
  have hle : length ≤ st.currHitLength := by
    have hle := hit.le_max
    by_cases hcase : drop ∧ (cfg.groups group.firstGroupId).isMamba = false
    · rw [if_pos hcase] at hmax
      rcases Nat.eq_zero_or_pos length with rfl | hpos
      · exact zero_le _
      have hmargin := h.margin_le group hcase.2
      have := (hit.follows hcase.1 (dropsEagleBlock_of_isMamba hcase.2) hpos).1
      change length + min (cfg.cacheHitAlignmentTokens p) (cfg.blockSizeOf group) ≤ maxLength at this
      omega
    · rw [if_neg hcase] at hmax
      rw [hmax]
      exact hle
  refine ⟨rows, ⟨length, max st.longestHitLength length,
    fun i => if i ∈ group.groupIds then some (splitRows rows group.groupIds i) else st.hitBlocksByGroup i,
    fun i => if i ∈ group.groupIds then length else st.hitLengthByGroup i,
    if drop then idx :: st.eagleVerified else if length < st.currHitLength then [] else st.eagleVerified⟩,
    ?_, hle, hit.aligned, ⟨hit.covers.length_eq, hit.covers.row⟩, fun he hv hd hpos => ?_, fun _ => rfl,
    fun _ => rfl, ?_⟩
  · unfold specOf at hnew hfind hmax
    unfold searchGroup
    dsimp only
    rw [if_neg hnew, hdrop]
    unfold blockSizeOf at hmax
    rw [hmax]
    unfold lookupArgs blockSizeOf at hfind
    rw [hfind]
    rfl
  · have hdrop' : drop := by
      rw [← hdrop, he, decide_eq_true hv]
      rfl
    exact (hit.follows hdrop' hd hpos).2
  · have hiff : drop ↔ group.useEagle ∧ idx ∉ st.eagleVerified := by
      rw [← hdrop, Bool.and_eq_true, decide_eq_true_iff]
    simp only [hiff]

section Step

variable {first : Bool} {start idx : ℕ} {group : SpecGroup n} {st st' : HitSearch n} {rows : List (List KVCacheBlock)}

/-- Full attention that was looked up before accepts the current length. -/
theorem Searching.trim (hs : cfg.Searching p blockHashes first start idx st)
    (hget : cfg.attentionGroups[idx]? = some group) (hfull : cfg.specOf group = .fullAttention)
    (hsome : (st.hitBlocksByGroup group.firstGroupId).isSome) :
    min st.currHitLength (st.hitLengthByGroup group.firstGroupId) = st.currHitLength ∧
      cfg.Searching p blockHashes first start (idx + 1) st := by
  have hlater : first = false := by
    cases first with
    | false => rfl
    | true =>
      rw [(hs.fresh rfl).1 idx group hget le_rfl] at hsome
      cases hsome
  obtain ⟨rows, length, hheld, hle, -, -⟩ := hs.held idx group hget (.inl hlater)
  refine ⟨?_, hs.le, fun _ => hs.aligned (.inl hlater), fun k g hk _ => ?_, fun hf => ?_, fun k g hlone => ?_⟩
  · rw [hheld.lengths _ mem_cons_self]
    exact min_eq_left hle
  · obtain ⟨rows, length, h1, h2, h3, h4⟩ := hs.held k g hk (.inl hlater)
    refine ⟨rows, length, h1, h2, fun hne => ?_, h4⟩
    have hkne : k ≠ idx := by
      rintro rfl
      cases hget.symm.trans hk
      exact hne hfull
    exact ⟨fun hlt => (h3 hne).1 (by omega), fun heq => absurd (by omega) hkne⟩
  · cases hlater.symm.trans hf
  obtain ⟨h1, h2, -⟩ := hs.eagle k g hlone
  have hkne : k ≠ idx := by
    rintro rfl
    have := hlone.get
    cases hget.symm.trans this
    exact hlone.notFull hfull
  exact ⟨h1, fun hlt => h2 (by omega), fun _ heq => absurd (by omega) hkne⟩

/-- A lookup keeps the invariant: the length shrinks to what the group found. -/
theorem Searching.lookup (h : cfg.Splits p) (hs : cfg.Searching p blockHashes first start idx st)
    (hget : cfg.attentionGroups[idx]? = some group)
    (hnew : ¬ (cfg.specOf group = .fullAttention ∧ (st.hitBlocksByGroup group.firstGroupId).isSome))
    (hl : cfg.LookedUp p blockHashes idx group rows st st') :
    cfg.Searching p blockHashes first start (idx + 1) st' := by
  -- full attention is looked up in the first pass only
  have hfirst : cfg.specOf group = .fullAttention → first := by
    intro hfull
    cases first with
    | true => rfl
    | false =>
      obtain ⟨_, _, hheld, -⟩ := hs.held idx group hget (.inl rfl)
      exact absurd ⟨hfull, by rw [hheld.blocks _ mem_cons_self]; rfl⟩ hnew
  have hunverified : first → idx ∉ st.eagleVerified :=
    fun hf hm => absurd ((hs.fresh hf).2 idx hm) (lt_irrefl _)
  have hother : ∀ (k : ℕ) g, cfg.attentionGroups[k]? = some g → k ≠ idx → ∀ i ∈ g.groupIds,
      st'.hitBlocksByGroup i = st.hitBlocksByGroup i ∧ st'.hitLengthByGroup i = st.hitLengthByGroup i := by
    intro k g hk hne i hi
    have hout := h.not_mem hk hget hne hi
    rw [hl.blocks, hl.lengths, if_neg hout, if_neg hout]
    exact ⟨rfl, rfl⟩
  refine ⟨le_trans hl.le hs.le, fun _ => hl.aligned, fun k g hk hproc => ?_, fun hf => ⟨?_, ?_⟩, fun k g hlone => ?_⟩
  · by_cases hkeq : k = idx
    · subst hkeq
      cases hget.symm.trans hk
      refine ⟨rows, _, ⟨fun i hi => ?_, fun i hi => ?_, hl.aligned, hl.covers⟩, le_rfl,
        fun _ => ⟨fun _ => le_trans hl.le hs.le, fun _ => rfl⟩, fun hfull he => ?_⟩
      · rw [hl.blocks, if_pos hi]
      · rw [hl.lengths, if_pos hi]
      · exact hl.follows he (hunverified (hfirst hfull)) (by rw [hfull]; rfl)
    · obtain ⟨rows', length, h1, h2, h3, h4⟩ := hs.held k g hk (hproc.imp_right fun hlt => by omega)
      refine ⟨rows', length, ⟨fun i hi => ?_, fun i hi => ?_, h1.aligned, h1.covers⟩, le_trans hl.le h2, fun hne => ?_, h4⟩
      · rw [(hother k g hk hkeq i hi).1]
        exact h1.blocks i hi
      · rw [(hother k g hk hkeq i hi).2]
        exact h1.lengths i hi
      · exact ⟨fun hlt => (h3 hne).1 (by omega), fun heq => absurd (by omega) hkeq⟩
  · intro k g hk hle
    rw [(hother k g hk (by omega) _ mem_cons_self).1]
    exact (hs.fresh hf).1 k g hk (by omega)
  · intro k hk
    rw [hl.verified] at hk
    split at hk
    · rcases mem_cons.1 hk with rfl | hk
      · exact lt_succ_self _
      · exact lt_succ_of_lt ((hs.fresh hf).2 k hk)
    · split at hk
      · cases hk
      · exact lt_succ_of_lt ((hs.fresh hf).2 k hk)
  · obtain ⟨h1, h2, -⟩ := hs.eagle k g hlone
    have hself : k = idx → g = group := by
      rintro rfl
      exact some.inj (hlone.get.symm.trans hget)
    rw [hl.verified]
    have hcurr := hl.le
    have hstart := hs.le
    by_cases hdrop : group.useEagle ∧ idx ∉ st.eagleVerified
    · rw [if_pos hdrop]
      refine ⟨fun hm => ?_, fun hlt => ?_, fun _ heq => ?_⟩
      · rcases mem_cons.1 hm with hkeq | hm
        · obtain rfl := hself hkeq
          exact hl.follows hdrop.1 hdrop.2 hlone.drops
        · -- another EAGLE group is of full attention, and is looked up before this one
          by_cases hfull : cfg.specOf group = .fullAttention
          · have hlt := (hs.fresh (hfirst hfull)).2 k hm
            exact absurd (h.full_of_lt hlone.get hget hlt hfull) hlone.notFull
          · obtain rfl := hlone.only idx group hget hdrop.1 hfull
            exact absurd hm hdrop.2
      · rcases Nat.lt_succ_iff_lt_or_eq.1 hlt with hlt | rfl
        · rcases h2 hlt with hm | hm
          · exact .inl (mem_cons_of_mem _ hm)
          · exact .inr (lt_of_le_of_lt hcurr hm)
        · exact .inl mem_cons_self
      · obtain rfl : k = idx := by omega
        exact mem_cons_self
    · rw [if_neg hdrop]
      have hkept : k < idx + 1 → k ∈ st.eagleVerified ∨ st.currHitLength < start := by
        intro hlt
        rcases Nat.lt_succ_iff_lt_or_eq.1 hlt with hlt | hkeq
        · exact h2 hlt
        · obtain rfl := hself hkeq
          exact .inl (hkeq ▸ not_not.1 fun hm => hdrop ⟨hlone.useEagle, hm⟩)
      have hlast : first → k + 1 = idx + 1 → False := by
        intro hf heq
        obtain rfl := hself (by omega)
        exact hdrop ⟨hlone.useEagle, hunverified hf⟩
      by_cases hshrink : st'.currHitLength < st.currHitLength
      · rw [if_pos hshrink]
        exact ⟨fun hm => (not_mem_nil hm).elim, fun _ => .inr (by omega), fun hf heq => (hlast hf heq).elim⟩
      · rw [if_neg hshrink, show st'.currHitLength = st.currHitLength by omega]
        exact ⟨h1, hkept, fun hf heq => (hlast hf heq).elim⟩

section

variable (h : cfg.Splits p) (hstart : start / p.hashBlockSize ≤ blockHashes.length)

include h hstart

theorem searchGroup_searching
    (hs : cfg.Searching p blockHashes first start idx st) (hget : cfg.attentionGroups[idx]? = some group) :
    ∃ st', cfg.searchGroup p blockHashes idx group st = .ok st' ∧
      cfg.Searching p blockHashes first start (idx + 1) st' := by
  by_cases hold : cfg.specOf group = .fullAttention ∧ (st.hitBlocksByGroup group.firstGroupId).isSome
  · obtain ⟨hmin, hs'⟩ := hs.trim hget hold.1 hold.2
    refine ⟨st, ?_, hs'⟩
    unfold searchGroup
    unfold specOf at hold
    rw [if_pos hold, hmin]
    rfl
  · obtain ⟨rows, st', hrun, hl⟩ := searchGroup_lookedUp h idx (mem_of_getElem? hget)
      (le_trans (Nat.div_le_div_right hs.le) hstart) hold
    exact ⟨st', hrun, hs.lookup h hget hold hl⟩

/-! ## Passes -/

/-- **A pass** keeps the invariant over all groups. -/
theorem searchGroups_searching
    (hs : cfg.Searching p blockHashes first start 0 st) : ∃ st', cfg.searchGroups p blockHashes st = .ok st' ∧
      cfg.Searching p blockHashes first start cfg.attentionGroups.length st' := by
  have hpass : ∀ (rest : List (SpecGroup n)) (idx : ℕ) (st : HitSearch n),
      cfg.attentionGroups.drop idx = rest → cfg.Searching p blockHashes first start idx st →
      ∃ st', (rest.zipIdx idx).foldlM (fun st g => cfg.searchGroup p blockHashes g.2 g.1 st) st = .ok st' ∧
        cfg.Searching p blockHashes first start (idx + rest.length) st' := by
    intro rest
    induction rest with
    | nil => exact fun idx st _ hs => ⟨st, rfl, hs⟩
    | cons group rest ih =>
      intro idx st hdrop hs
      have hget : cfg.attentionGroups[idx]? = some group := by
        rw [← head?_drop, hdrop]
        rfl
      have hrest : cfg.attentionGroups.drop (idx + 1) = rest := by
        rw [← tail_drop, hdrop]
        rfl
      obtain ⟨st1, hrun, hs1⟩ := searchGroup_searching h hstart hs hget
      obtain ⟨st', hrun', hs'⟩ := ih (idx + 1) st1 hrest hs1
      refine ⟨st', ?_, ?_⟩
      · rw [zipIdx_cons, foldlM_cons]
        simp only [hrun]
        exact hrun'
      · rw [length_cons, show idx + (rest.length + 1) = idx + 1 + rest.length by omega]
        exact hs'
  obtain ⟨st', hrun, hs'⟩ := hpass cfg.attentionGroups 0 st rfl hs
  rw [zero_add] at hs'
  exact ⟨st', hrun, hs'⟩

end

variable (cfg p blockHashes) in
/-- All groups agree on `length`: full attention may hold more, the others hold exactly that. -/
structure Agreed (st : HitSearch n) (length : ℕ) : Prop where
  aligned : cfg.cacheHitAlignmentTokens p ∣ length
  held : ∀ group ∈ cfg.attentionGroups, ∃ rows found, cfg.Held p blockHashes st group rows found ∧
    length ≤ found ∧ (cfg.specOf group ≠ .fullAttention → found = length) ∧
    (cfg.specOf group = .fullAttention → group.useEagle → cfg.Follows p blockHashes group found)
  eagle : ∀ k group, cfg.Lone k group → cfg.Follows p blockHashes group length

theorem last_of_isSimpleHybrid (hsimple : cfg.isSimpleHybrid) {k : ℕ}
    (hget : cfg.attentionGroups[k]? = some group) (hne : cfg.specOf group ≠ .fullAttention) :
    k + 1 = cfg.attentionGroups.length := by
  unfold isSimpleHybrid at hsimple
  split at hsimple
  next g g' heq =>
    rw [heq] at hget ⊢
    match k with
    | 0 =>
      cases hget
      exact absurd (of_decide_eq_true hsimple) hne
    | 1 => rfl
    | k + 2 => cases hget
  · cases hsimple

/-- After a pass that leaves the length as it was, or the only pass there is, all groups agree. -/
theorem Searching.agreed (hs : cfg.Searching p blockHashes first start cfg.attentionGroups.length st)
    (hne : cfg.attentionGroups ≠ []) (hdone : start ≤ st.currHitLength ∨ first ∧ cfg.isSimpleHybrid) :
    cfg.Agreed p blockHashes st st.currHitLength := by
  refine ⟨hs.aligned (.inr (length_pos_iff.2 hne)), fun group hg => ?_, fun k group hlone => ?_⟩
  · obtain ⟨k, hlt, rfl⟩ := mem_iff_getElem.1 hg
    have hget := getElem?_eq_getElem hlt
    obtain ⟨rows, found, h1, h2, h3, h4⟩ := hs.held k _ hget (.inr hlt)
    refine ⟨rows, found, h1, h2, fun hnf => ?_, h4⟩
    rcases hdone with hle | ⟨-, hsimple⟩
    · have := (h3 hnf).1 hlt
      omega
    · exact (h3 hnf).2 (last_of_isSimpleHybrid hsimple hget hnf)
  obtain ⟨h1, h2, h3⟩ := hs.eagle k group hlone
  apply h1
  rcases hdone with hle | ⟨hfirst, hsimple⟩
  · rcases h2 (List.getElem?_eq_some_iff.1 hlone.get).1 with hm | hlt
    · exact hm
    · omega
  · exact h3 hfirst (last_of_isSimpleHybrid hsimple hlone.get hlone.notFull)

/-- **The loop ends**, and all groups agree then. -/
theorem searchLoop_agreed (h : cfg.Splits p) {fuel : ℕ} (hfuel : start < fuel)
    (hstart : start / p.hashBlockSize ≤ blockHashes.length)
    (hs : cfg.Searching p blockHashes first start 0 { st with currHitLength := start })
    (hfirst : first = false → cfg.isSimpleHybrid = false) :
    ∃ length st', cfg.searchLoop p blockHashes fuel start st = .ok (length, st') ∧ length ≤ start ∧
      cfg.Agreed p blockHashes st' length := by
  induction fuel generalizing start st first with
  | zero => omega
  | succ fuel ih =>
    obtain ⟨st', hrun, hs'⟩ := searchGroups_searching h hstart hs
    unfold searchLoop
    rw [hrun]
    simp only [bind, Except.bind]
    split
    next hge =>
      have heq : st'.currHitLength = start := le_antisymm hs'.le hge
      exact ⟨start, st', rfl, le_rfl, heq ▸ hs'.agreed h.nonempty (.inl hge)⟩
    split
    next hsimple =>
      have hf : first := by
        cases first with
        | true => rfl
        | false =>
          rw [hfirst rfl] at hsimple
          cases hsimple
      exact ⟨_, st', rfl, hs'.le, hs'.agreed h.nonempty (.inr ⟨hf, hsimple⟩)⟩
    rename_i hlt hnot
    have hnext : cfg.Searching p blockHashes false st'.currHitLength 0
        { st' with currHitLength := st'.currHitLength } := by
      refine ⟨le_rfl, fun _ => hs'.aligned (.inr (length_pos_iff.2 h.nonempty)), fun k g hk _ => ?_, nofun,
        fun k g hlone => ⟨(hs'.eagle k g hlone).1, fun hk => ?_, nofun⟩⟩
      · obtain ⟨rows, found, h1, h2, -, h4⟩ := hs'.held k g hk (.inr (List.getElem?_eq_some_iff.1 hk).1)
        exact ⟨rows, found, h1, h2, fun _ => ⟨fun hk => absurd hk (not_lt_zero k), fun hk => by omega⟩, h4⟩
      · exact absurd hk (not_lt_zero k)
    obtain ⟨length, st2, hrun2, hle2, hagreed⟩ := ih (by omega)
      (le_trans (Nat.div_le_div_right hs'.le) hstart) hnext fun _ => Bool.eq_false_iff.2 hnot
    exact ⟨length, st2, hrun2, le_trans hle2 hs'.le, hagreed⟩

end Step

/-! ## The hit -/

theorem getCachedBlock_getElem? {hash : H} {groupIds : List ℕ} (h : p.getCachedBlock hash groupIds = some row) :
    row.length = groupIds.length ∧ ∀ (k : ℕ) g, groupIds[k]? = some g →
      ∃ b ∈ p.cachedBlockHashToBlock.blocks (makeBlockHashWithGroupId hash g), row[k]? = some b := by
  induction groupIds generalizing row with
  | nil =>
    cases h
    exact ⟨rfl, nofun⟩
  | cons g gs ih =>
    unfold getCachedBlock at h
    split at h
    · cases h
    rename_i b hb
    obtain ⟨bs, hbs, rfl⟩ := map_eq_some_iff.1 h
    obtain ⟨hlen, hget⟩ := ih hbs
    refine ⟨by rw [length_cons, length_cons, hlen], fun k g' hk => ?_⟩
    cases k with
    | zero =>
      cases hk
      exact ⟨b, mem_of_getOneBlock hb, rfl⟩
    | succ k => exact hget k g' hk

theorem boundaryRow_length {a : LookupArgs H} {j : ℕ}
    (h : a.boundaryRow p j = some row) : row.length = a.kvCacheGroupIds.length := by
  obtain ⟨hash, -, hrow⟩ := bind_eq_some_iff.1 h
  exact (getCachedBlock_getElem? hrow).1

section

variable {ids : List (Fin n)} {i : Fin n} (hrows : ∀ row ∈ rows, row.length = ids.length) (hi : i ∈ ids)

include hrows hi

theorem splitRows_spec : (splitRows rows ids i).length = rows.length ∧
      ∀ k : ℕ, (splitRows rows ids i)[k]? = (rows[k]?).bind fun row => row[ids.idxOf i]? := by
  unfold splitRows
  induction rows with
  | nil => exact ⟨rfl, fun _ => rfl⟩
  | cons row rows ih =>
    obtain ⟨hlen, hget⟩ := ih fun row hr => hrows row (mem_cons_of_mem _ hr)
    have hlt : ids.idxOf i < row.length := by
      rw [hrows row mem_cons_self]
      exact idxOf_lt_length_of_mem hi
    rw [filterMap_cons, getElem?_eq_getElem hlt]
    refine ⟨by rw [length_cons, length_cons, hlen], fun k => ?_⟩
    cases k with
    | zero => exact (getElem?_eq_getElem hlt).symm
    | succ k => exact hget k

theorem splitRows_take (m : ℕ) : (splitRows rows ids i).take m = splitRows (rows.take m) ids i := by
  apply ext_getElem?
  intro k
  rw [getElem?_take, (splitRows_spec (fun row hr => hrows row (mem_of_mem_take hr)) hi).2,
    (splitRows_spec hrows hi).2, getElem?_take]
  split <;> rfl

end

variable (cfg p blockHashes) in
/-- Block `b` is cached for group `i` under the request's own hash of position `k`: the hash that ends
the block, or for a block that the first `length` tokens cover in part, one that ends in it after them. -/
def OwnBlock (i : Fin n) (length k : ℕ) (b : KVCacheBlock) : Prop :=
  ∃ j hash, k * (cfg.groups i).blockSize < j * p.hashBlockSize ∧
    j * p.hashBlockSize ≤ (k + 1) * (cfg.groups i).blockSize ∧
    min length ((k + 1) * (cfg.groups i).blockSize) ≤ j * p.hashBlockSize ∧
    blockHashes[j - 1]? = some hash ∧
    b ∈ p.cachedBlockHashToBlock.blocks (makeBlockHashWithGroupId hash (cfg.groups i).kvCacheGroupId)

variable (cfg p blockHashes) in
/-- The block after the first `length` tokens is cached for group `i`, or its next unit of hashing when
hits may end inside a block. -/
def NextBlock (i : Fin n) (length : ℕ) : Prop :=
  ∃ j hash b, min (length + min (cfg.cacheHitAlignmentTokens p) (cfg.groups i).blockSize)
      ((length / (cfg.groups i).blockSize + 1) * (cfg.groups i).blockSize) ≤ j * p.hashBlockSize ∧
    j * p.hashBlockSize ≤ (length / (cfg.groups i).blockSize + 1) * (cfg.groups i).blockSize ∧
    blockHashes[j - 1]? = some hash ∧
    b ∈ p.cachedBlockHashToBlock.blocks (makeBlockHashWithGroupId hash (cfg.groups i).kvCacheGroupId)

section Hit

variable {group : SpecGroup n} {rows : List (List KVCacheBlock)} {length : ℕ} {i : Fin n}

theorem boundaryRow_block {j : ℕ} {drop : Bool} (hi : i ∈ group.groupIds)
    (h : (cfg.lookupArgs p blockHashes group maxLength drop).boundaryRow p j = some row) :
    ∃ hash b, blockHashes[j - 1]? = some hash ∧ row[group.groupIds.idxOf i]? = some b ∧
      b ∈ p.cachedBlockHashToBlock.blocks (makeBlockHashWithGroupId hash (cfg.groups i).kvCacheGroupId) := by
  obtain ⟨hash, hhash, hrow⟩ := bind_eq_some_iff.1 h
  obtain ⟨b, hb, hget⟩ := (getCachedBlock_getElem? hrow).2 (group.groupIds.idxOf i) (cfg.groups i).kvCacheGroupId (by
    show (map _ _)[_]? = _
    rw [getElem?_map, getElem?_idxOf hi]
    rfl)
  exact ⟨hash, b, hhash, hget, hb⟩

theorem Covers.row_length (hcov : cfg.Covers p blockHashes group rows length) :
    ∀ row ∈ rows, row.length = group.groupIds.length := by
  intro row hr
  obtain ⟨k, hk⟩ := getElem?_of_mem hr
  have hids : (group.groupIds.map fun i => (cfg.groups i).kvCacheGroupId).length = group.groupIds.length :=
    length_map _
  rcases hcov.row k row hk with ⟨j, -, -, -, hj⟩ | ⟨rfl, -⟩
  · exact (boundaryRow_length hj).trans hids
  · exact (length_map _).trans hids

/-- Every block of a group is the request's own, or null and not needed. -/
theorem Covers.block (hsame : (cfg.groups i).spec = cfg.specOf group ∧ (cfg.groups i).blockSize = cfg.blockSizeOf group)
    (hcov : cfg.Covers p blockHashes group rows length) (hi : i ∈ group.groupIds) {k : ℕ} {b : KVCacheBlock}
    (hb : (splitRows rows group.groupIds i)[k]? = some b) :
    cfg.OwnBlock p blockHashes i length k b ∨ b = p.nullBlock ∧ (k + 1) * (cfg.groups i).blockSize ≤
        (cfg.groups i).spec.nullsBefore (cfg.groups i).blockSize length := by
  obtain ⟨hspec, hsize⟩ := hsame
  rw [(splitRows_spec hcov.row_length hi).2] at hb
  obtain ⟨row, hrow, hget⟩ := bind_eq_some_iff.1 hb
  rw [hspec, hsize]
  unfold OwnBlock
  rw [hsize]
  rcases hcov.row k row hrow with ⟨j, h1, h2, h3, h4⟩ | ⟨rfl, hneeded⟩
  · obtain ⟨hash, b', hhash, hget', hmem⟩ := boundaryRow_block hi h4
    cases hget.symm.trans hget'
    exact .inl ⟨j, hash, h1, h2, h3, hhash, hmem⟩
  · refine .inr ⟨?_, hneeded⟩
    obtain ⟨_, -, rfl⟩ := mem_map.1 (mem_of_getElem? hget)
    rfl

theorem Follows.nextBlock (h : cfg.Splits p) (hg : group ∈ cfg.attentionGroups)
    (hf : cfg.Follows p blockHashes group length) (hpos : 0 < length) (hi : i ∈ group.groupIds) :
    cfg.NextBlock p blockHashes i length := by
  obtain ⟨j, h1, h2, h3⟩ := hf hpos
  obtain ⟨row, hrow⟩ := isSome_iff_exists.1 h3
  obtain ⟨hash, b, hhash, -, hmem⟩ := boundaryRow_block hi hrow
  unfold NextBlock
  rw [(h.same group hg i hi).2]
  exact ⟨j, hash, b, h1, h2, hhash, hmem⟩

/-- Full attention that found more than the hit is trimmed to it. -/
theorem Covers.trim (hfull : cfg.specOf group = .fullAttention) {found : ℕ}
    (hcov : cfg.Covers p blockHashes group rows found) (hle : length ≤ found) :
    cfg.Covers p blockHashes group (rows.take (cdiv length (cfg.blockSizeOf group))) length := by
  unfold Covers at hcov ⊢
  rw [hfull] at hcov ⊢
  exact LookupArgs.Covers.take hcov (cfg.groups group.firstGroupId).blockSize_pos hle

theorem Held.follows {st : HitSearch n} {found : ℕ}
    (hheld : cfg.Held p blockHashes st group rows found) (hfull : cfg.specOf group = .fullAttention)
    (hal : cfg.cacheHitAlignmentTokens p ∣ length) (hle : length ≤ found)
    (hf : cfg.Follows p blockHashes group found) : cfg.Follows p blockHashes group length := by
  rcases eq_or_lt_of_le hle with rfl | hlt
  · exact hf
  intro _
  have hcov : (cfg.lookupArgs p blockHashes group 0 false).Covers p 0 rows found := by
    have := hheld.covers
    unfold Covers at this
    rwa [hfull] at this
  have hstep : length + cfg.cacheHitAlignmentTokens p ≤ found := by
    obtain ⟨x, rfl⟩ := hal
    obtain ⟨y, rfl⟩ := hheld.aligned
    have hxy : x + 1 ≤ y := Nat.lt_of_mul_lt_mul_left hlt
    exact mul_le_mul_left _ hxy
  exact hcov.follows (cfg.groups group.firstGroupId).blockSize_pos hlt
    (le_trans (Nat.add_le_add_left (min_le_left _ _) _) hstep)

end Hit

variable (cfg p blockHashes) in
/-- The hit of all groups together. -/
structure SoundHit (maxLength : ℕ) (blocks : Fin n → List KVCacheBlock) (length : ℕ) : Prop where
  le_max : length ≤ maxLength
  aligned : cfg.cacheHitAlignmentTokens p ∣ length
  length_eq : ∀ i, (blocks i).length = cdiv length (cfg.groups i).blockSize
  block : ∀ i (k : ℕ) b, (blocks i)[k]? = some b → cfg.OwnBlock p blockHashes i length k b ∨
    b = p.nullBlock ∧ (k + 1) * (cfg.groups i).blockSize ≤
      (cfg.groups i).spec.nullsBefore (cfg.groups i).blockSize length
  next : ∀ (k : ℕ) group, cfg.attentionGroups[k]? = some group → group.useEagle → 0 < length →
    cfg.specOf group = .fullAttention ∨ cfg.Lone k group →
    ∀ i ∈ group.groupIds, cfg.NextBlock p blockHashes i length

theorem searching_start (maxLength : ℕ) : cfg.Searching p blockHashes true maxLength 0
    ⟨maxLength, 0, fun _ => none, fun _ => 0, []⟩ := by
  refine ⟨le_rfl, fun hor => ?_, fun k g _ hor => ?_, fun _ => ⟨fun _ _ _ _ => rfl, fun k hk => ?_⟩,
    fun k g _ => ⟨fun hk => ?_, fun hk => absurd hk (not_lt_zero k), fun _ hk => by omega⟩⟩
  · rcases hor with hf | hf
    · cases hf
    · omega
  · rcases hor with hf | hf
    · cases hf
    · omega
  · cases hk
  · cases hk

theorem hybridFindLongestCacheHit_sound (h : cfg.Splits p) (hhash : maxLength / p.hashBlockSize ≤ blockHashes.length) :
    ∃ blocks length uncached, cfg.hybridFindLongestCacheHit p blockHashes maxLength = .ok (blocks, length, uncached) ∧
      cfg.SoundHit p blockHashes maxLength blocks length := by
  obtain ⟨length, st, hrun, hle, hagreed⟩ : ∃ length st', cfg.searchLoop p blockHashes (maxLength + 1) maxLength
      ⟨maxLength, 0, fun _ => none, fun _ => 0, []⟩ = .ok (length, st') ∧
      length ≤ maxLength ∧ cfg.Agreed p blockHashes st' length :=
    searchLoop_agreed h (lt_succ_self _) hhash (searching_start maxLength) nofun
  -- what each group returns
  have hgroup : ∀ i, ∃ group rows, group ∈ cfg.attentionGroups ∧ i ∈ group.groupIds ∧
      cfg.Covers p blockHashes group rows length ∧
      (if (cfg.groups i).spec = .fullAttention then
          ((st.hitBlocksByGroup i).getD []).take (cdiv length (cfg.groups i).blockSize)
        else (st.hitBlocksByGroup i).getD []) = splitRows rows group.groupIds i := by
    intro i
    obtain ⟨group, hg, hi⟩ := h.covers i
    obtain ⟨hspec, hsize⟩ := h.same group hg i hi
    obtain ⟨rows, found, hheld, hlef, heq, -⟩ := hagreed.held group hg
    rw [hspec, hsize, hheld.blocks i hi, getD_some]
    by_cases hfull : cfg.specOf group = .fullAttention
    · refine ⟨group, _, hg, hi, hheld.covers.trim hfull hlef, ?_⟩
      rw [if_pos hfull, splitRows_take hheld.covers.row_length hi]
    · refine ⟨group, rows, hg, hi, heq hfull ▸ hheld.covers, ?_⟩
      rw [if_neg hfull]
  unfold hybridFindLongestCacheHit
  dsimp only
  rw [hrun]
  refine ⟨_, length, _, rfl, hle, hagreed.aligned, fun i => ?_, fun i k b hb => ?_, ?_⟩
  · obtain ⟨group, rows, hg, hi, hcov, heq⟩ := hgroup i
    rw [heq, (splitRows_spec hcov.row_length hi).1, hcov.length_eq, (h.same group hg i hi).2]
    rfl
  · obtain ⟨group, rows, hg, hi, hcov, heq⟩ := hgroup i
    rw [heq] at hb
    exact hcov.block (h.same group hg i hi) hi hb
  intro k group hget heagle hpos hor i hi
  have hg := mem_of_getElem? hget
  apply Follows.nextBlock h hg _ hpos hi
  rcases hor with hfull | hlone
  · obtain ⟨rows, found, hheld, hlef, -, hfol⟩ := hagreed.held group hg
    exact hheld.follows hfull hagreed.aligned hlef (hfol hfull heagle)
  · exact hagreed.eagle k group hlone

/-- **A hybrid hit is sound.** The search ends at an aligned length within the maximum. Every group
returns the blocks of that many tokens: each is cached for the group under the request's own hash, or
null at a position the next token does not attend to, if chunks are of whole blocks. The block after
the hit is cached for the full-attention EAGLE groups, and for a sliding-window EAGLE group that is the
only other one. -/
theorem hybrid_hit_sound {H : Type} {n : ℕ} (cfg : CacheConfig n) (p : BlockPool H) (h : cfg.Splits p)
    (hnull : ∀ key, p.nullBlock ∉ p.cachedBlockHashToBlock.blocks key) (blockHashes : List H)
    (maxCacheHitLength : ℕ) (hhash : maxCacheHitLength / p.hashBlockSize ≤ blockHashes.length) :
    ∃ blocks length uncached,
      cfg.hybridFindLongestCacheHit p blockHashes maxCacheHitLength = .ok (blocks, length, uncached) ∧
      length ≤ maxCacheHitLength ∧ cfg.cacheHitAlignmentTokens p ∣ length ∧
      (∀ i, (blocks i).length = cdiv length (cfg.groups i).blockSize) ∧ (∀ i (k : ℕ) b, (blocks i)[k]? = some b →
        (b ≠ p.nullBlock → cfg.OwnBlock p blockHashes i length k b) ∧
        ((∀ chunk, (cfg.groups i).spec = .chunkedLocalAttention chunk → (cfg.groups i).blockSize ∣ chunk) →
          (cfg.groups i).spec.neededFrom length < (k + 1) * (cfg.groups i).blockSize → b ≠ p.nullBlock)) ∧
      ∀ (k : ℕ) group, cfg.attentionGroups[k]? = some group → group.useEagle → 0 < length →
        cfg.specOf group = .fullAttention ∨ cfg.Lone k group →
        ∀ i ∈ group.groupIds, cfg.NextBlock p blockHashes i length := by
  obtain ⟨blocks, length, uncached, hrun, hit⟩ := hybridFindLongestCacheHit_sound h hhash
  refine ⟨blocks, length, uncached, hrun, hit.le_max, hit.aligned, hit.length_eq, fun i k b hb => ?_, hit.next⟩
  rcases hit.block i k b hb with hown | ⟨heq, hneeded⟩
  · refine ⟨fun _ => hown, fun _ _ heq => ?_⟩
    obtain ⟨_, _, -, -, -, -, hmem⟩ := hown
    exact hnull _ (heq ▸ hmem)
  · refine ⟨fun hne => absurd heq hne, fun hchunk hlt => ?_⟩
    rw [KVCacheSpec.nullsBefore_eq length hchunk] at hneeded
    exact absurd hneeded (not_le.2 hlt)

/-! ## Runs on fixed configurations -/

section

variable (spec : KVCacheSpec)

/-- A group with the given spec, block size and id. -/
def groupOf (blockSize kvCacheGroupId : ℕ) (hb : 0 < blockSize)
    (hw : ∀ window extra, spec = .slidingWindow window extra → 0 < window) : GroupConfig where
  spec := spec
  blockSize := blockSize
  kvCacheGroupId := kvCacheGroupId
  enableCaching := true
  maxAdmissionBlocksPerRequest := none
  recordNewBlockIds := false
  cacheHitAlignmentTokens := blockSize
  useEagle := false
  sharedPrefixCheckpoint := false
  dropEagleCheckpointBlock := false
  blockSize_pos := hb
  window_pos := hw

theorem window_two_pos : ∀ w e, KVCacheSpec.slidingWindow 2 0 = .slidingWindow w e → 0 < w := by
  rintro w e h; cases h; decide

theorem fullAttention_window : ∀ w e, KVCacheSpec.fullAttention = .slidingWindow w e → 0 < w := nofun

/-- One group of the given spec. -/
def unitaryOf (blockSize : ℕ) (hb : 0 < blockSize)
    (hw : ∀ window extra, spec = .slidingWindow window extra → 0 < window) : CacheConfig 1 where
  groups := fun _ => groupOf spec blockSize 0 hb hw
  maxModelLen := 8
  schedulerBlockSize := blockSize
  retentionInterval := none
  numReprefillableTokens := 0
  eagleGroupIds := []
  hybrid := false
  enablePartialHashHits := false
  enableCaching := true
  watermarkBlocks := 0

/-- Two groups of the given specs, looked up in turn. -/
def pairOf (spec spec' : KVCacheSpec) (blockSize blockSize' : ℕ) (eagle eagle' : Bool)
    (hb : 0 < blockSize ∧ 0 < blockSize')
    (hw : ∀ window extra, spec = .slidingWindow window extra ∨ spec' = .slidingWindow window extra →
      0 < window) : CacheConfig 2 where
  groups := fun i =>
    if i = 0 then groupOf spec blockSize 0 hb.1 fun w e h => hw w e (.inl h)
    else groupOf spec' blockSize' 1 hb.2 fun w e h => hw w e (.inr h)
  maxModelLen := 8
  schedulerBlockSize := max blockSize blockSize'
  retentionInterval := none
  numReprefillableTokens := 0
  eagleGroupIds := (if eagle then [0] else []) ++ if eagle' then [1] else []
  hybrid := true
  enablePartialHashHits := false
  enableCaching := true
  watermarkBlocks := 0
  attentionGroups := [⟨0, [], eagle⟩, ⟨1, [], eagle'⟩]

/-- A pool of ten blocks with one block cached under each key. -/
def poolCaching (hashBlockSize : ℕ) (keys : List (BlockHashWithGroupId ℕ)) : Option (BlockPool ℕ) :=
  match init 10 true hashBlockSize false with
  | .error _ => none
  | .ok p =>
    match (forM keys.zipIdx fun k => insertBlockHash k.1 (.block (k.2 + 1)) none) p with
    | .error _ _ => none
    | .ok _ p => some p

theorem poolCaching_indexOK {hashBlockSize : ℕ} {keys : List (BlockHashWithGroupId ℕ)} {p : BlockPool ℕ}
    (hlen : keys.length < 10) (h : poolCaching hashBlockSize keys = some p) : p.IndexOK ∧ p.numGpuBlocks = 10 := by
  obtain ⟨p0, hinit, -, hnum, -, -, -, hindex⟩ := init_ok 10 hashBlockSize true false (by decide)
  -- every key is put on one of the ten blocks
  have hkeep : Raise.Keeps (BlockPool.IndexWithin {b | b ∈ poolBlocks 10} p0)
      (forM keys.zipIdx fun k => insertBlockHash k.1 (.block (k.2 + 1)) none) := by
    refine Raise.keeps_forM fun k hk => indexWithin_hashOps.insert _ _ _ ?_
    have hlt := (mem_zipIdx hk).2.1
    exact mem_map_of_mem (mem_range.2 (by omega))
  unfold poolCaching at h
  rw [hinit] at h
  dsimp only at h
  split at h
  · cases h
  rename_i hrun
  cases h
  have hw := Raise.wp_ok (hkeep p0 (hindex.within fun _ hb => hnum ▸ hb)) hrun
  exact ⟨hw.ok, hw.num.trans hnum⟩

/-- One full-attention group and one group of another class, all blocks of one size. -/
def fullAnd (blockSize : ℕ) (eagle eagle' : Bool) (hb : 0 < blockSize)
    (hw : ∀ window extra, spec = .slidingWindow window extra → 0 < window) : CacheConfig 2 :=
  pairOf .fullAttention spec blockSize blockSize eagle eagle' ⟨hb, hb⟩ fun w e h => by
    rcases h with h | h
    · cases h
    · exact hw w e h

end

/-- Two sliding-window EAGLE groups. -/
def twoWindows : CacheConfig 2 :=
  pairOf (.slidingWindow 2 0) (.slidingWindow 3 0) 1 1 true true (by decide) fun w e h => by
    rcases h with h | h <;> cases h <;> decide

/-- One full-attention group and one sliding-window EAGLE group. -/
def fullAndEagleWindow : CacheConfig 2 := fullAnd (.slidingWindow 2 0) 1 false true Nat.one_pos window_two_pos

theorem fullAndEagleWindow_splits {p : BlockPool ℕ} (hp : p.hashBlockSize = 1) : fullAndEagleWindow.Splits p where
  hashBlockSize_pos := by omega
  dvd := fun i => by rw [hp]; exact one_dvd _
  schedulerBlockSize_pos := by decide
  aligned := fun _ => by decide
  partialHits := nofun
  nonempty := by decide
  covers := by decide
  same := by decide
  disjoint := by
    show Pairwise _ [_, _]
    simp [SpecGroup.groupIds]
  fullFirst := by decide
  chunked := by
    intro group hg chunk hc
    rcases mem_cons.1 hg with rfl | hg
    · cases hc
    · rcases mem_cons.1 hg with rfl | hg
      · cases hc
      · cases hg

/-- Two blocks are cached for both groups: the window keeps the first and has seen the second. -/
theorem hybrid_hit_sound_window : ∃ p blocks rest, poolCaching 1 [⟨7, 0⟩, ⟨8, 0⟩, ⟨7, 1⟩, ⟨8, 1⟩] = some p ∧
      fullAndEagleWindow.hybridFindLongestCacheHit p [7, 8] 2 = .ok (blocks, 1, rest) ∧
      blocks 1 = [.block 3] ∧ fullAndEagleWindow.NextBlock p [7, 8] 1 1 := by
  obtain ⟨p, blocks, rest, hp, hrun, hblocks, hsize, hnull⟩ : ∃ p blocks rest,
      poolCaching 1 [⟨7, 0⟩, ⟨8, 0⟩, ⟨7, 1⟩, ⟨8, 1⟩] = some p ∧
      fullAndEagleWindow.hybridFindLongestCacheHit p [7, 8] 2 = .ok (blocks, 1, rest) ∧
      blocks 1 = [.block 3] ∧ p.hashBlockSize = 1 ∧
      ∀ key, p.nullBlock ∉ p.cachedBlockHashToBlock.blocks key := by
    refine ⟨_, _, _, rfl, rfl, rfl, rfl, fun key => ?_⟩
    have hempty : (empty : BlockHashToBlockMap ℕ).blocks key = [] := rfl
    simp [mem_insert, hempty]
  obtain ⟨_, _, _, hrun', -, -, -, -, heagle⟩ := hybrid_hit_sound fullAndEagleWindow p
    (fullAndEagleWindow_splits hsize) hnull [7, 8] 2 (by rw [hsize]; decide)
  cases hrun.symm.trans hrun'
  refine ⟨p, blocks, rest, hp, hrun, hblocks, heagle 1 _ rfl rfl (by decide) (.inr ?_) 1 (by decide)⟩
  refine ⟨rfl, rfl, by decide, rfl, fun k' group' hget heagle' hne => ?_⟩
  match k' with
  | 0 =>
    cases hget
    exact absurd rfl hne
  | 1 => rfl
  | k' + 2 => cases hget

/-- Parts of a hit that are not sound. A hit of length zero is no EAGLE hit; Mamba does not look at
the block after it; chunked local attention raises for EAGLE and for blocks that are not of the size of
the alignment, and counts a block as computed that reaches into the chunk; and a second EAGLE group
that shrinks the length leaves the first one without the block after it. -/
theorem hybrid_hit_not_sound : -- nothing is cached: no block follows the empty hit of the EAGLE group
    (∃ p blocks rest, poolCaching 1 [] = some p ∧
      (fullAnd (.mamba 0 0 none) 1 true false (by decide) nofun).hybridFindLongestCacheHit p [7] 1 =
        .ok (blocks, 0, rest) ∧ p.getCachedBlock 7 [0] = none) ∧
    -- the Mamba EAGLE group has the state of the hit, and not the block after it
    (∃ p blocks rest, poolCaching 1 [⟨7, 0⟩, ⟨7, 1⟩] = some p ∧
      (fullAnd (.mamba 0 0 none) 1 false true (by decide) nofun).hybridFindLongestCacheHit p [7, 8] 2 =
        .ok (blocks, 1, rest) ∧ p.getCachedBlock 8 [1] = none) ∧ -- chunked local attention as an EAGLE group
    (∃ p text, poolCaching 1 [] = some p ∧
      (fullAnd (.chunkedLocalAttention 2) 1 false true (by decide) nofun).hybridFindLongestCacheHit p [7] 1 =
        .error (.assertionError text)) ∧ -- chunked local attention in smaller blocks than full attention
    (∃ p text, poolCaching 1 [] = some p ∧ (pairOf .fullAttention (.chunkedLocalAttention 2) 2 1 false false (by decide)
        (by rintro w e (h | h) <;> cases h)).hybridFindLongestCacheHit p [7] 1 = .error (.assertionError text)) ∧
    -- chunks of three tokens in blocks of two: after two tokens the first token is still needed
    (∃ p blocks rest, poolCaching 2 [⟨7, 0⟩, ⟨8, 0⟩] = some p ∧
      (fullAnd (.chunkedLocalAttention 3) 2 false false (by decide) nofun).hybridFindLongestCacheHit p [7, 8] 4 =
        .ok (blocks, 2, rest) ∧ blocks 1 = [p.nullBlock] ∧ (KVCacheSpec.chunkedLocalAttention 3).neededFrom 2 = 0) ∧
    -- the second window shrinks the hit to two tokens, and the third block is not cached for the first
    (∃ p blocks rest, poolCaching 1 [⟨2, 0⟩, ⟨4, 0⟩, ⟨5, 0⟩, ⟨1, 1⟩, ⟨2, 1⟩, ⟨3, 1⟩] = some p ∧
      twoWindows.hybridFindLongestCacheHit p [1, 2, 3, 4, 5, 6] 5 = .ok (blocks, 2, rest) ∧
        p.getCachedBlock 3 [0] = none) := by
  refine ⟨⟨_, _, _, rfl, rfl, rfl⟩, ⟨_, _, _, rfl, rfl, rfl⟩, ⟨_, _, rfl, rfl⟩, ⟨_, _, rfl, rfl⟩,
    ⟨_, _, _, rfl, rfl, rfl, rfl⟩, ⟨_, _, _, rfl, rfl, rfl⟩⟩

end VllmRwkv.CacheConfig
