import VllmRwkv.Plan.Configs
import VllmRwkv.Plan.Partition

/-!
# The workers agree on the plan

* `getKvCacheConfigFromGroups_spec`: what one worker is planned.
* `replan_spec`: a second plan has exactly the blocks it was asked for.
* `getKvCacheConfigs_returned`: all workers that are planned have the same number of blocks and the same
  groups; the number is what the smallest memory allows, unless it is overridden or there is no cache.
-/

open Strided Except

namespace VllmRwkv

open List

section

variable {S : Type} [PlanSpec S] [DecidableEq S]
  {groups : List (KVCacheGroupSpec S)} {workers : List (Worker S)} {pc : PlanConfig} {layout : KVCacheLayout}
  {w : Worker S} {memory : ℤ} {c : KVCacheConfig S} {s : Stage S}

open LayerSpec

/-! ## One worker -/

omit [DecidableEq S] in
theorem specTensors_size {numBlocks size : ℕ} {stride : Option ℕ}
    {layers : List (S × List LayerName)} {offset : ℕ} {tensors : List KVCacheTensor}
    (h : specTensors layout numBlocks size stride layers offset = .ok tensors) : ∀ t ∈ tensors, t.size = size := by
  induction layers generalizing offset tensors with
  | nil =>
    cases h
    exact nofun
  | cons x rest ih =>
    obtain ⟨spec, names⟩ := x
    obtain ⟨blockStride, _, h⟩ := bind_ok h
    obtain ⟨strides, _, h⟩ := bind_ok h
    obtain ⟨more, hmore, h⟩ := bind_ok h
    cases h
    intro t ht
    rcases mem_cons.1 ht with rfl | ht
    · rfl
    · exact ih hmore t ht

/-- What a worker with groups is planned: `visible` bytes of a block are its own, `pool` with what
others keep for it. -/
structure PlannedWith (pc : PlanConfig) (memory : ℤ) (c : KVCacheConfig S) (visible pool allowed : ℕ) : Prop where
  poolBytes : poolBytesPerBlock pc.layout c.kvCacheGroups = .ok pool
  pos : 0 < pool
  visible_le : visible ≤ pool
  allows : blocksAllowed pc.layout c.kvCacheGroups memory = .ok allowed
  blocks : c.numBlocks = pc.numGpuBlocksOverride.getD allowed
  sizes : ∀ t ∈ c.kvCacheTensors, t.size = visible * c.numBlocks

omit [DecidableEq S] in
theorem blocksAllowed_ok {n : ℕ} (h : blocksAllowed layout groups memory = .ok n) :
    ∃ pool, poolBytesPerBlock layout groups = .ok pool ∧ 0 < pool ∧
      n = (max (memory - poolFixedMemoryBytes groups) 0).toNat / pool := by
  obtain ⟨pool, hpool, h⟩ := bind_ok h
  split_ifs at h with hne
  · cases h
  · exact ⟨pool, hpool, pos_of_ne_zero hne, (ok.inj h).symm⟩

/-- **One worker's plan.** -/
theorem getKvCacheConfigFromGroups_spec (h : getKvCacheConfigFromGroups pc groups memory = .ok c) :
    c.kvCacheGroups = groups ∧ (groups = [] → c.numBlocks = 1 ∧ c.kvCacheTensors = []) ∧
      (groups ≠ [] → ∃ visible pool allowed, PlannedWith pc memory c visible pool allowed) := by
  unfold getKvCacheConfigFromGroups at h
  split at h
  case isTrue hnil =>
    cases h
    exact ⟨rfl, fun _ => ⟨rfl, rfl⟩, fun hne => absurd hnil hne⟩
  case isFalse hne =>
    obtain ⟨_, _, h⟩ := bind_ok h
    obtain ⟨visible, hvisible, h⟩ := bind_ok h
    obtain ⟨allowed, hallowed, h⟩ := bind_ok h
    obtain ⟨tensors, htensors, h⟩ := bind_ok h
    cases h
    refine ⟨rfl, fun hnil => absurd hnil hne, fun _ => ?_⟩
    obtain ⟨pool, hpool, hpos, _⟩ := blocksAllowed_ok hallowed
    refine ⟨visible, pool, allowed, hpool, hpos, ?_, hallowed, rfl, ?_⟩
    · obtain ⟨visible', hvisible', heq⟩ := bind_ok hpool
      obtain rfl := ok.inj (hvisible.symm.trans hvisible')
      cases heq
      exact Nat.le_add_right _ _
    intro t ht
    obtain ⟨ts, hts, ht⟩ := mem_flatten.1 ht
    obtain ⟨g, _, hg⟩ := exists_of_mem_right (mapM_ok htensors) hts
    exact specTensors_size hg t ht

omit [DecidableEq S] in
theorem mul_blocksAllowed_le
    {n pool : ℕ} (h : blocksAllowed layout groups memory = .ok n) (hpool : poolBytesPerBlock layout groups = .ok pool)
    (hmem : 0 ≤ memory) : ((pool * n : ℕ) : ℤ) ≤ memory := by
  obtain ⟨pool', hpool', hpos, rfl⟩ := blocksAllowed_ok h
  obtain rfl := ok.inj (hpool.symm.trans hpool')
  have hle := Nat.mul_div_le (max (memory - poolFixedMemoryBytes groups) 0).toNat pool
  have hmax : (((max (memory - poolFixedMemoryBytes groups) 0).toNat : ℕ) : ℤ) ≤ memory := by
    rw [Int.toNat_of_nonneg (le_max_right _ _)]
    omega
  omega

omit [DecidableEq S] in
/-- The memory of `n` blocks allows exactly `n` blocks. -/
theorem blocksAllowed_exact {n m pool : ℕ} (hpool : poolBytesPerBlock layout groups = .ok pool)
    (h : blocksAllowed layout groups (poolFixedMemoryBytes groups + n * pool) = .ok m) : m = n := by
  obtain ⟨pool', hpool', hpos, rfl⟩ := blocksAllowed_ok h
  obtain rfl := ok.inj (hpool.symm.trans hpool')
  have hmem : (max ((poolFixedMemoryBytes groups : ℤ) + n * pool - poolFixedMemoryBytes groups) 0).toNat = n * pool := by
    rw [add_sub_cancel_left, max_eq_left (by positivity)]
    exact_mod_cast Int.toNat_natCast (n * pool)
  rw [hmem]
  exact Nat.mul_div_cancel n hpos

variable {c' : KVCacheConfig S}

/-- **A second plan** has the groups of the first, and the blocks it was asked for. -/
theorem replan_spec {n visible pool allowed : ℕ}
    (h : replan pc n c = .ok c') (hp : PlannedWith pc memory c visible pool allowed)
    (hn : n = pc.numGpuBlocksOverride.getD n) :
    c'.kvCacheGroups = c.kvCacheGroups ∧ c'.numBlocks = n ∧ ∀ t ∈ c'.kvCacheTensors, ∃ v ≤ pool, t.size = v * n := by
  unfold replan at h
  split at h
  case isTrue heq =>
    cases h
    exact ⟨rfl, heq, fun t ht => ⟨visible, hp.visible_le, heq ▸ hp.sizes t ht⟩⟩
  case isFalse hne =>
    obtain ⟨pool', hpool', h⟩ := bind_ok h
    obtain rfl := ok.inj (hp.poolBytes.symm.trans hpool')
    obtain ⟨hgroups, -, hplan⟩ := getKvCacheConfigFromGroups_spec h
    have hgne : c.kvCacheGroups ≠ [] := by
      intro hnil
      have hpool := hp.poolBytes
      rw [hnil] at hpool
      unfold poolBytesPerBlock kvCacheBytesPerBlock at hpool
      cases hio : pc.layout.isBlockOutermost <;> rw [hio] at hpool <;> cases hpool
    obtain ⟨v, p, m, hp'⟩ := hplan hgne
    have hexact : m = n := blocksAllowed_exact hp.poolBytes (hgroups ▸ hp'.allows)
    have hblocks : c'.numBlocks = n := by
      rw [hp'.blocks, hexact]
      exact hn.symm
    refine ⟨hgroups, hblocks, ?_⟩
    intro t ht
    have hvisible := hp'.visible_le
    obtain rfl := ok.inj (hp.poolBytes.symm.trans (hgroups ▸ hp'.poolBytes))
    exact ⟨v, hvisible, hblocks ▸ hp'.sizes t ht⟩

/-! ## The groups of all workers -/

omit [DecidableEq S] in
theorem blockSize_eq_of_uniform {specs : SpecsOf S} (h : isUniformType specs = .ok true) {x y : LayerName × S}
    (hx : x ∈ specs) (hy : y ∈ specs) : blockSize x.2 = blockSize y.2 := by
  unfold isUniformType at h
  dsimp only at h
  split at h
  · cases h
  rename_i hone
  rw [not_lt, map_map] at hone
  exact eq_of_length_distinct_le_one hone (mem_map_of_mem hx) (mem_map_of_mem hy)

variable {planned : SpecsOf S}

omit [DecidableEq S] in
/-- A projected group has the block size of the whole. -/
theorem projectGroup_blockSize {g : KVCacheGroupSpec S} (hone : g.OneType planned)
    (ws : SpecsOf S) : (projectGroup ws g).kvCacheSpec.blockSize = g.kvCacheSpec.blockSize := by
  unfold projectGroup
  dsimp only
  split
  · rfl
  unfold KVCacheGroupSpec.OneType at hone
  cases hspec : g.kvCacheSpec with
  | one spec => rfl
  | uniformType specs =>
    rw [hspec] at hone
    obtain ⟨hnames, -, huniform⟩ := hone
    dsimp only
    split_ifs with hne
    · rfl
    -- the first layer that is left has the block size of the first layer
    have hsub : ∀ n ∈ g.layerNames.filter fun n => n ∈ ws.map Prod.fst, n ∈ specs.map Prod.fst := by
      intro n hn
      rw [hnames]
      exact (mem_filter.1 hn).1
    obtain ⟨hfst, hin⟩ := restrictTo_spec hsub
    cases hrest : restrictTo specs (g.layerNames.filter fun n => n ∈ ws.map Prod.fst) with
    | nil =>
      rw [hrest] at hfst
      exact absurd hfst.symm hne
    | cons x rest =>
      have hx : x ∈ specs := hin x (hrest ▸ mem_cons_self)
      cases specs with
      | nil => exact absurd hx not_mem_nil
      | cons y specs => exact blockSize_eq_of_uniform huniform hx mem_cons_self

theorem globalGroups_oneType
    (h : globalGroups pc workers = .ok groups) : ∃ planned, ∀ g ∈ groups, g.OneType planned := by
  obtain ⟨merged, _, h⟩ := bind_ok h
  split at h
  · cases h
  obtain ⟨eff, _, planned, _, htyped, _⟩ := getKvCacheGroups_grouped h
  exact ⟨planned, fun g hg => (htyped g hg).2⟩

/-! ## The plan of all workers -/

omit [DecidableEq S] in
theorem overrideMemory_spec (h : overrideMemory pc groups w = .ok s) :
    s.groups = groups ∧ (pc.numGpuBlocksOverride = none → s.memory = w.availableMemory) := by
  unfold overrideMemory at h
  split at h
  · cases h
    exact ⟨rfl, fun _ => rfl⟩
  rename_i n hn
  split at h
  · cases h
    exact ⟨rfl, fun _ => rfl⟩
  obtain ⟨pool, _, h⟩ := bind_ok h
  split at h
  · cases h
  cases h
  refine ⟨rfl, fun hnone => ?_⟩
  cases hn.symm.trans hnone

omit [DecidableEq S] in
theorem memory_pos {len : ℕ} {u : List (KVCacheGroupSpec S) × ℤ} {r : Unit}
    (hu : checkMemory pc s = .ok u) (hr : checkEnoughKvCacheMemory pc.layout len u = .ok r) (hne : s.groups ≠ []) :
    0 < s.memory := by
  unfold checkMemory at hu
  rw [if_neg hne] at hu
  obtain ⟨pool, _, hu⟩ := bind_ok hu
  cases hu
  unfold checkEnoughKvCacheMemory at hr
  rw [if_neg hne] at hr
  split at hr
  · cases hr
  · omega

section

variable (pc : PlanConfig) (groups : List (KVCacheGroupSpec S))

/-- What the plan of one worker has in common with the others', and with its memory. -/
structure Agrees (n : ℕ) (w : Worker S) (c : KVCacheConfig S) : Prop where
  numBlocks : c.numBlocks = n
  projected : c.kvCacheGroups = groups.map (projectGroup w.specs)
  blockSizes : c.kvCacheGroups.map (·.kvCacheSpec.blockSize) = groups.map (·.kvCacheSpec.blockSize)
  noCache : groups = [] → c.kvCacheTensors = []
  fits : groups ≠ [] → pc.numGpuBlocksOverride = none →
    (∃ allowed, blocksAllowed pc.layout c.kvCacheGroups w.availableMemory = .ok allowed ∧ n ≤ allowed) ∧
      ∀ t ∈ c.kvCacheTensors, (t.size : ℤ) ≤ w.availableMemory

/-- The number of blocks of all workers: 1 without a cache, the override if there is one, and else
what the memory of some worker allows. -/
def Decides (workers : List (Worker S)) (n : ℕ) : Prop :=
  (groups = [] → n = 1) ∧ (groups ≠ [] → match pc.numGpuBlocksOverride with
    | some override => n = override
    | none => ∃ w ∈ workers, blocksAllowed pc.layout (groups.map (projectGroup w.specs)) w.availableMemory = .ok n)

/-- The first plan of a worker, with the memory it has. -/
structure FirstPlan (w : Worker S) (c : KVCacheConfig S) : Prop where
  projected : c.kvCacheGroups = groups.map (projectGroup w.specs)
  noCache : groups = [] → c.numBlocks = 1 ∧ c.kvCacheTensors = []
  planned : groups ≠ [] → ∃ memory visible pool allowed, PlannedWith pc memory c visible pool allowed ∧
    0 < memory ∧ (pc.numGpuBlocksOverride = none → memory = w.availableMemory)

end

theorem firstPlan (hs : overrideMemory pc (groups.map (projectGroup w.specs)) w = .ok s)
    (hpos : s.groups ≠ [] → 0 < s.memory) (hc : stageConfig pc s = .ok c) : FirstPlan pc groups w c := by
  obtain ⟨hgroups, hmem⟩ := overrideMemory_spec hs
  unfold stageConfig at hc
  split at hc
  · cases hc
  obtain ⟨hcg, hnil, hplan⟩ := getKvCacheConfigFromGroups_spec hc
  refine ⟨hcg.trans hgroups, fun h => hnil ?_, fun h => ?_⟩
  · rw [hgroups, h]
    rfl
  have hne : s.groups ≠ [] := by
    rw [hgroups]
    exact fun hmap => h (map_eq_nil_iff.1 hmap)
  obtain ⟨visible, pool, allowed, hp⟩ := hplan hne
  exact ⟨s.memory, visible, pool, allowed, hp, hpos hne, hmem⟩

omit [DecidableEq S] in
/-- The number of blocks that all first plans are brought to. -/
theorem FirstPlan.decides
     (hf : FirstPlan pc groups w c) (hw : w ∈ workers) : Decides pc groups workers c.numBlocks := by
  refine ⟨fun hnil => (hf.noCache hnil).1, fun hne => ?_⟩
  obtain ⟨memory, visible, pool, allowed, hp, -, hmem⟩ := hf.planned hne
  have hblocks := hp.blocks
  split
  next override hover =>
    rw [hblocks, hover]
    rfl
  rename_i hnone
  rw [hnone] at hblocks
  refine ⟨w, hw, ?_⟩
  rw [← hf.projected, ← hmem hnone, hblocks]
  exact hp.allows

theorem FirstPlan.agrees {n : ℕ} (hf : FirstPlan pc groups w c)
    (htype : ∀ g ∈ groups, g.OneType planned) (hn : Decides pc groups workers n) (hle : n ≤ c.numBlocks)
    (hc' : replan pc n c = .ok c') : Agrees pc groups n w c' := by
  have hsizes : (groups.map (projectGroup w.specs)).map (·.kvCacheSpec.blockSize) =
      groups.map (·.kvCacheSpec.blockSize) := by
    rw [map_map]
    exact map_congr_left fun g hg => projectGroup_blockSize (htype g hg) w.specs
  rcases eq_or_ne groups [] with hnil | hne
  · -- without a cache the first plan stands
    obtain ⟨hone, htensors⟩ := hf.noCache hnil
    unfold replan at hc'
    rw [if_pos (hone.trans (hn.1 hnil).symm)] at hc'
    cases hc'
    refine ⟨hone.trans (hn.1 hnil).symm, hf.projected, hf.projected ▸ hsizes, fun _ => htensors, fun h => absurd hnil h⟩
  obtain ⟨memory, visible, pool, allowed, hp, hpos, hmem⟩ := hf.planned hne
  have hover : n = pc.numGpuBlocksOverride.getD n := by
    have h := hn.2 hne
    cases ho : pc.numGpuBlocksOverride with
    | none => rfl
    | some o =>
      rwa [ho] at h
  obtain ⟨hgroups, hblocks, htensors⟩ := replan_spec hc' hp hover
  refine ⟨hblocks, hgroups.trans hf.projected, (hgroups.trans hf.projected) ▸ hsizes, fun h => absurd h hne, ?_⟩
  intro _ hnone
  have hcount := hp.blocks
  rw [hnone] at hcount
  have hnle : n ≤ allowed := hle.trans hcount.le
  rw [← hmem hnone]
  refine ⟨⟨allowed, hgroups ▸ hp.allows, hnle⟩, ?_⟩
  intro t ht
  obtain ⟨v, hv, hsize⟩ := htensors t ht
  have hfit := mul_blocksAllowed_le hp.allows hp.poolBytes hpos.le
  have hmul : t.size ≤ pool * allowed := hsize ▸ Nat.mul_le_mul hv hnle
  calc (t.size : ℤ) ≤ ((pool * allowed : ℕ) : ℤ) := by exact_mod_cast hmul
    _ ≤ memory := hfit

/-- **Planned workers agree**: they have the same number of blocks and the same groups with the same
block sizes. The number is what the smallest memory allows, and the tensors keep within each
memory, unless the number is overridden; without groups it is 1. -/
theorem getKvCacheConfigs_returned {pc : PlanConfig} {workers : List (Worker S)} {configs : List (KVCacheConfig S)}
    (h : getKvCacheConfigs pc workers = .ok configs) :
    ∃ groups n, globalGroups pc workers = .ok groups ∧ Forall₂ (Agrees pc groups n) workers configs ∧
      Decides pc groups workers n := by
  obtain ⟨groups, hgroups, h⟩ := bind_ok h
  obtain ⟨planned, htype⟩ := globalGroups_oneType hgroups
  obtain ⟨stages, hstages, h⟩ := bind_ok h
  obtain ⟨usable, husable, h⟩ := bind_ok h
  obtain ⟨len, _, h⟩ := bind_ok h
  obtain ⟨checks, hchecks, h⟩ := bind_ok h
  obtain ⟨first, hfirst, h⟩ := bind_ok h
  have hpos : ∀ s ∈ stages, s.groups ≠ [] → 0 < s.memory := by
    intro s hs hne
    obtain ⟨u, hu, hsu⟩ := exists_of_mem_left (mapM_ok husable) hs
    obtain ⟨r, _, hur⟩ := exists_of_mem_left (mapM_ok hchecks) hu
    exact memory_pos hsu hur hne
  have hplans : Forall₂ (FirstPlan pc groups) workers first := by
    refine (forall₂_comp (mapM_ok hstages) (mapM_ok hfirst)).imp ?_
    rintro w c ⟨s, hs, hws, hsc⟩
    exact firstPlan hws (hpos s hs) hsc
  cases hmin : (first.map (·.numBlocks)).min? with
  | none =>
    rw [hmin] at h
    cases h
  | some n =>
    rw [hmin] at h
    obtain ⟨hmem, hle⟩ := min?_eq_some_iff.1 hmin
    obtain ⟨c, hc, rfl⟩ := mem_map.1 hmem
    obtain ⟨w, hw, hwc⟩ := exists_of_mem_right hplans hc
    have hdecides := hwc.decides hw
    refine ⟨groups, c.numBlocks, hgroups, ?_, hdecides⟩
    refine (forall₂_comp hplans (mapM_ok h)).imp ?_
    rintro w' c' ⟨c₁, hc₁, hf, hreplan⟩
    exact hf.agrees htype hdecides (hle _ (mem_map_of_mem hc₁)) hreplan

end

end VllmRwkv
