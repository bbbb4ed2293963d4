import VllmRwkv.Plan.Agreement

/-!
# When a plan divides by zero

The plan of a worker divides its memory by the bytes that a block takes on it, and those are none if the
worker has no layer of the model.

* `planStages_divisionFree`: with a layer on every worker and pages of some size, nothing divides by zero.
* `getKvCacheConfigs_agree`: then all workers that are planned agree, and no other worker is planned.
-/

open Strided Except

namespace VllmRwkv

open List

/-- No division by zero is raised. -/
def Planned.DivisionFree {α : Type} (x : Planned α) : Prop := x ≠ .error .zeroDivisionError

namespace Planned.DivisionFree

variable {α β : Type} {f : α → Planned β} {l : List α}

theorem bind {x : Planned α} (hx : x.DivisionFree) (hf : ∀ a, x = .ok a → (f a).DivisionFree) :
    Planned.DivisionFree (x >>= f) := by
  cases x with
  | error e => exact fun h => hx (congrArg _ (Except.error.inj h))
  | ok a => exact hf a rfl

theorem mapM (hf : ∀ a ∈ l, (f a).DivisionFree) : Planned.DivisionFree (l.mapM f) := by
  induction l with
  | nil => exact nofun
  | cons a l ih =>
    rw [mapM_cons]
    refine bind (hf a mem_cons_self) fun _ _ => ?_
    exact bind (ih fun b hb => hf b (mem_cons_of_mem a hb)) fun _ _ => nofun

theorem foldlM {g : β → α → Planned β} (hg : ∀ b, ∀ a ∈ l, (g b a).DivisionFree) (b : β) :
    Planned.DivisionFree (l.foldlM g b) := by
  induction l generalizing b with
  | nil => exact nofun
  | cons a l ih =>
    rw [foldlM_cons]
    exact bind (hg b a mem_cons_self) fun _ _ => ih (fun b c hc => hg b c (mem_cons_of_mem a hc)) _

end Planned.DivisionFree

section

variable {S : Type} [PlanSpec S] [DecidableEq S]
  {groups : List (KVCacheGroupSpec S)} {workers : List (Worker S)} {pc : PlanConfig} {layout : KVCacheLayout}
  {w : Worker S} {memory : ℤ} {g : KVCacheGroupSpec S} {len : ℕ}

open LayerSpec PlanSpec Planned

/-- A spec whose pages have a size. -/
structure Sized (spec : S) : Prop where
  page : 0 < pageSizeBytes spec
  alignment : 0 < blockStrideAlignment spec
  padded : pageSizePadded spec ≠ some 0
  usage : ∀ maxModelLen, (maxMemoryUsageBytes maxModelLen spec).DivisionFree

/-- The specs of a group's layers. -/
def GroupSpec.specs : GroupSpec S → List S
  | .one spec => [spec]
  | .uniformType kvCacheSpecs => kvCacheSpecs.map Prod.snd

def AllSized (groups : List (KVCacheGroupSpec S)) : Prop := ∀ g ∈ groups, ∀ spec ∈ g.kvCacheSpec.specs, Sized spec

section

omit [DecidableEq S]

theorem kvCacheBytes_divisionFree : (kvCacheBytesPerBlock layout groups).DivisionFree := by
  unfold kvCacheBytesPerBlock
  split
  · split
    · exact nofun
    · split <;> exact nofun
  · split <;> exact nofun

theorem poolBytesPerBlock_divisionFree : (poolBytesPerBlock layout groups).DivisionFree :=
  .bind kvCacheBytes_divisionFree fun _ _ => nofun

theorem maxMemoryUsagePages_divisionFree (h : ∀ spec ∈ g.kvCacheSpec.specs, Sized spec) :
    (maxMemoryUsagePages len g).DivisionFree := by
  have hpages : ∀ spec : S, Sized spec → Planned.DivisionFree (do
      let bytes ← maxMemoryUsageBytes len spec
      if pageSizeBytes spec = 0 then throw .zeroDivisionError
      return cdiv bytes (pageSizeBytes spec)) := by
    intro spec hspec
    refine .bind (hspec.usage len) fun bytes _ => ?_
    rw [if_neg hspec.page.ne']
    exact nofun
  unfold maxMemoryUsagePages
  cases hspec : g.kvCacheSpec with
  | one spec =>
    rw [hspec] at h
    exact hpages spec (h spec (mem_singleton_self spec))
  | uniformType specs =>
    rw [hspec] at h
    refine .bind (.mapM fun x hx => hpages x.2 (h x.2 (mem_map_of_mem hx))) fun _ _ => ?_
    split <;> exact nofun

theorem maxMemoryUsageBytes_divisionFree (h : AllSized groups) :
    (maxMemoryUsageBytesFromGroups layout len groups).DivisionFree := by
  unfold maxMemoryUsageBytesFromGroups
  split
  · exact nofun
  · refine .bind poolBytesPerBlock_divisionFree fun _ _ => ?_
    exact .bind (.mapM fun g hg => maxMemoryUsagePages_divisionFree (h g hg)) fun _ _ => nofun

theorem estimateLoop_divisionFree {ok : ℕ → Planned Bool} (h : ∀ n, (ok n).DivisionFree) (fuel left right result : ℕ) :
    (estimateLoop ok fuel left right result).DivisionFree := by
  induction fuel generalizing left right result with
  | zero => exact nofun
  | succ fuel ih =>
    unfold estimateLoop
    split
    · exact nofun
    refine .bind (h _) fun b _ => ?_
    split
    · exact ih _ _ _
    · exact ih _ _ _

theorem estimateMaxModelLen_divisionFree (h : AllSized groups) :
    (estimateMaxModelLenFromGroups layout len groups memory).DivisionFree := by
  have hfits : ∀ n, (fits layout groups memory n).DivisionFree := fun n =>
    .bind (maxMemoryUsageBytes_divisionFree h) fun _ _ => nofun
  refine .bind (hfits 1) fun b _ => ?_
  split
  · exact estimateLoop_divisionFree hfits _ _ _ _
  · exact nofun

theorem plannedModelLen_divisionFree {usable : List (List (KVCacheGroupSpec S) × ℤ)}
    (h : ∀ u ∈ usable, AllSized u.1) : (plannedModelLen pc usable).DivisionFree := by
  unfold plannedModelLen
  split
  case isFalse => exact nofun
  unfold autoFitMaxModelLen
  split
  · exact nofun
  refine .bind (.foldlM (fun best u hu => ?_) _) fun best _ => ?_
  · split
    · exact nofun
    · exact .bind (estimateMaxModelLen_divisionFree (h u hu)) fun _ _ => nofun
  · split <;> exact nofun

theorem checkEnough_divisionFree {u : List (KVCacheGroupSpec S) × ℤ} (h : AllSized u.1) :
    (checkEnoughKvCacheMemory layout len u).DivisionFree := by
  unfold checkEnoughKvCacheMemory
  split
  · exact nofun
  split
  · exact nofun
  refine .bind (maxMemoryUsageBytes_divisionFree h) fun needed _ => ?_
  split
  · exact .bind (estimateMaxModelLen_divisionFree h) fun _ _ => nofun
  · exact nofun

end

/-! ## Tensors -/

theorem strideLoop_divisionFree {shape : Dim → ℕ} {padded : Option ℕ} {grid : Dim} {stride : Option ℕ}
    (h : padded ≠ some 0) (order : List Dim) (current : ℕ) (strides : Dim → ℕ) :
    (strideLoop shape padded grid stride order current strides).DivisionFree := by
  induction order generalizing current strides with
  | nil => exact nofun
  | cons dim outer ih =>
    unfold strideLoop
    dsimp only
    split
    · split
      · rw [if_neg (by rintro rfl; exact h rfl)]
        split
        · exact ih _ _
        · exact nofun
      · exact ih _ _
    · exact ih _ _

omit [DecidableEq S] in
theorem specTensors_divisionFree {numBlocks size : ℕ} {stride : Option ℕ} {layers : List (S × List LayerName)}
    (h : ∀ x ∈ layers, Sized x.1) (offset : ℕ) :
    (specTensors layout numBlocks size stride layers offset).DivisionFree := by
  induction layers generalizing offset with
  | nil => exact nofun
  | cons x rest ih =>
    refine .bind ?_ fun _ _ => .bind ?_ fun _ _ => .bind (ih (fun y hy => h y (mem_cons_of_mem x hy)) _) fun _ _ => nofun
    · unfold specBlockStride
      split
      · split <;> exact nofun
      · exact nofun
    · unfold computeLayoutStrides
      dsimp only
      split
      · exact nofun
      split
      · exact nofun
      exact strideLoop_divisionFree (h x mem_cons_self).padded _ _ _

theorem sized_of_layersBySpec (h : ∀ spec ∈ g.kvCacheSpec.specs, Sized spec) : ∀ x ∈ layersBySpec g, Sized x.1 := by
  intro x hx
  unfold layersBySpec at hx
  cases hspec : g.kvCacheSpec with
  | one spec =>
    rw [hspec] at h hx
    dsimp only at hx
    split at hx
    · cases hx
    · rw [mem_singleton.1 hx]
      exact h spec (mem_singleton_self spec)
  | uniformType specs =>
    rw [hspec] at h hx
    obtain ⟨spec, hmem, rfl⟩ := mem_map.1 hx
    exact h spec (mem_distinct.1 hmem)

theorem getKvCacheConfigFromGroups_divisionFree (h : AllSized groups)
    (hpool : groups ≠ [] → ∀ pool, poolBytesPerBlock pc.layout groups = .ok pool → pool ≠ 0) :
    (getKvCacheConfigFromGroups pc groups memory).DivisionFree := by
  unfold getKvCacheConfigFromGroups
  split
  case isTrue => exact nofun
  case isFalse hne =>
    refine .bind ?_ fun _ _ => .bind kvCacheBytes_divisionFree fun _ _ => .bind ?_ fun _ _ =>
      .bind (.mapM fun g hg => ?_) fun _ _ => nofun
    · unfold validateKvCacheLayout
      split
      · exact nofun
      · split <;> exact nofun
    · refine .bind poolBytesPerBlock_divisionFree fun pool hp => ?_
      rw [if_neg (hpool hne pool hp)]
      exact nofun
    · exact specTensors_divisionFree (sized_of_layersBySpec (h g hg)) _

/-! ## The bytes of a block -/

theorem roundUp_pos {x y : ℕ} (hx : 0 < x) (hy : 0 < y) : 0 < roundUp x y :=
  Nat.mul_pos (Nat.div_pos (by omega) hy) hy

theorem foldl_lcm_pos {l : List ℕ} (h : ∀ a ∈ l, 0 < a) {b : ℕ} (hb : 0 < b) : 0 < l.foldl Nat.lcm b := by
  induction l generalizing b with
  | nil => exact hb
  | cons a l ih => exact ih (fun c hc => h c (mem_cons_of_mem a hc)) (Nat.lcm_pos hb (h a mem_cons_self))

section

omit [DecidableEq S]

theorem sized_of_layerSpecs (h : ∀ spec ∈ g.kvCacheSpec.specs, Sized spec) : ∀ spec ∈ layerSpecs g, Sized spec := by
  intro spec hspec
  unfold layerSpecs at hspec
  cases hs : g.kvCacheSpec with
  | one one =>
    rw [hs] at h hspec
    obtain ⟨_, _, rfl⟩ := mem_map.1 hspec
    exact h _ (mem_singleton_self _)
  | uniformType specs =>
    rw [hs] at h hspec
    obtain ⟨_, _, hfind⟩ := mem_filterMap.1 hspec
    obtain ⟨x, hx, rfl⟩ := Option.map_eq_some_iff.1 hfind
    exact h _ (mem_map_of_mem (mem_of_find?_eq_some hx))

omit [PlanSpec S] in
theorem projectGroup_specs (ws : SpecsOf S) :
    ∀ spec ∈ (projectGroup ws g).kvCacheSpec.specs, spec ∈ g.kvCacheSpec.specs := by
  unfold projectGroup
  dsimp only
  split
  · exact fun _ h => h
  cases hs : g.kvCacheSpec with
  | one one => exact fun _ h => h
  | uniformType specs =>
    dsimp only
    split_ifs
    · exact fun _ h => h
    · intro spec hspec
      obtain ⟨x, hx, rfl⟩ := mem_map.1 hspec
      obtain ⟨_, _, hfind⟩ := mem_filterMap.1 hx
      exact mem_map_of_mem (mem_of_find?_eq_some hfind)

theorem AllSized.project (h : AllSized groups) (ws : SpecsOf S) : AllSized (groups.map (projectGroup ws)) := by
  intro g hg spec hspec
  obtain ⟨g, hmem, rfl⟩ := mem_map.1 hg
  exact h g hmem spec (projectGroup_specs ws spec hspec)

omit [PlanSpec S] in
theorem specsFor_ne_nil {specs : SpecsOf S} {names : List LayerName} (hfst : specs.map Prod.fst = names)
    (hne : names ≠ []) : specsFor specs names ≠ [] := by
  obtain ⟨name, hname⟩ := exists_mem_of_ne_nil _ hne
  obtain ⟨x, hx, rfl⟩ := mem_map.1 (hfst ▸ hname)
  obtain ⟨y, hy⟩ := Option.isSome_iff_exists.1 (find?_isSome.2 ⟨x, hx, decide_eq_true rfl⟩ :
    (specs.find? fun y => y.1 = x.1).isSome)
  refine ne_nil_of_mem (a := y.2) (mem_filterMap.2 ⟨x.1, hname, ?_⟩)
  rw [hy]
  rfl

variable {planned : SpecsOf S}

/-- A worker has a spec for every layer it has of a group. -/
theorem layerSpecs_ne_nil (hone : g.OneType planned) (ws : SpecsOf S) (hne : (projectGroup ws g).layerNames ≠ []) :
    layerSpecs (projectGroup ws g) ≠ [] := by
  obtain ⟨layerNames, spec | specs⟩ := g
  · have hspec : (projectGroup ws ⟨layerNames, .one spec⟩).kvCacheSpec = .one spec := by
      unfold projectGroup
      dsimp only
      split <;> rfl
    unfold layerSpecs
    rw [hspec]
    exact fun h => hne (map_eq_nil_iff.1 h)
  · obtain ⟨hfst, -, -⟩ := hone
    unfold projectGroup at hne ⊢
    dsimp only at hne ⊢
    split_ifs at hne ⊢ with hall hnil
    · exact specsFor_ne_nil hfst hne
    · exact absurd hnil hne
    · refine specsFor_ne_nil (restrictTo_spec fun n hn => ?_).1 hne
      rw [hfst]
      exact (mem_filter.1 hn).1

theorem poolBytesPerBlock_pos {pool : ℕ} (hsized : AllSized groups) (hg : g ∈ groups) (hne : layerSpecs g ≠ [])
    (h : poolBytesPerBlock layout groups = .ok pool) : 0 < pool := by
  obtain ⟨visible, hvisible, h⟩ := bind_ok h
  cases h
  refine Nat.add_pos_left ?_ _
  obtain ⟨spec, hspec⟩ := exists_mem_of_ne_nil _ hne
  have hsize := fun g hg => sized_of_layerSpecs (hsized g hg)
  unfold kvCacheBytesPerBlock at hvisible
  split at hvisible <;> split at hvisible
  · cases hvisible
  · split at hvisible
    · cases hvisible
    cases hvisible
    refine roundUp_pos (by omega) (foldl_lcm_pos ?_ Nat.one_pos)
    intro a ha
    obtain ⟨spec, hspec, rfl⟩ := mem_map.1 ha
    obtain ⟨g, hg, hspec⟩ := mem_flatMap.1 hspec
    exact (hsize g hg spec hspec).alignment
  · cases hvisible
  · rename_i hmax
    cases hvisible
    have hle := (max?_eq_some_iff.1 hmax).2 _ (mem_map_of_mem hg)
    have hlayer := List.single_le_sum (fun _ _ => Nat.zero_le _) _ (mem_map_of_mem (f := layerBlockStride) hspec)
    have hpos := roundUp_pos (hsize g hg spec hspec).page (hsize g hg spec hspec).alignment
    exact hpos.trans_le (hlayer.trans hle)

/-- A worker without layers has no bytes in a block. -/
theorem poolBytesPerBlock_zero {pool : ℕ} (hnone : ∀ g ∈ groups, layerSpecs g = [])
    (h : poolBytesPerBlock layout groups = .ok pool) : pool = 0 := by
  obtain ⟨visible, hvisible, h⟩ := bind_ok h
  cases h
  have hall : groups.flatMap layerSpecs = [] := flatMap_eq_nil_iff.2 hnone
  have hzero : visible = 0 := by
    unfold kvCacheBytesPerBlock at hvisible
    split at hvisible <;> split at hvisible
    · cases hvisible
    · rename_i hmax
      obtain ⟨g, hg, hsum⟩ := mem_map.1 (max?_eq_some_iff.1 hmax).1
      rw [hnone g hg] at hsum
      cases hsum
      cases hvisible
    · cases hvisible
    · rename_i hmax
      obtain ⟨g, hg, hsum⟩ := mem_map.1 (max?_eq_some_iff.1 hmax).1
      rw [hnone g hg] at hsum
      cases hvisible
      exact hsum.symm
  rw [hzero, externalKvCacheBytesPerBlock, hall]
  rfl

omit [PlanSpec S] in
theorem layerSpecs_project_nil : layerSpecs (projectGroup [] g) = [] := by
  have hnames : (projectGroup [] g).layerNames = [] := by
    unfold projectGroup
    have hnil : (g.layerNames.filter fun n => n ∈ ([] : SpecsOf S).map Prod.fst) = [] := by simp
    rw [hnil]
    dsimp only
    split
    · rename_i hlen
      exact length_eq_zero_iff.1 hlen.symm
    · split <;> rfl
  unfold layerSpecs
  rw [hnames]
  split <;> rfl

end

/-- Without an override, no plan of workers that each have a layer divides by zero. -/
theorem planStages_divisionFree {planned : SpecsOf S} (htype : ∀ g ∈ groups, g.OneType planned)
    (hsized : AllSized groups) (hnone : pc.numGpuBlocksOverride = none) (hown : ∀ w ∈ workers, w.specs ≠ []) :
    (planStages pc groups workers).DivisionFree := by
  have hstage : ∀ w, overrideMemory pc (groups.map (projectGroup w.specs)) w =
      .ok ⟨groups.map (projectGroup w.specs), w, w.availableMemory⟩ := by
    intro w
    unfold overrideMemory
    rw [hnone]
  refine .bind (.mapM fun w _ => by rw [hstage]; exact nofun) fun stages hstages => ?_
  have hstages : ∀ s ∈ stages, s.worker ∈ workers ∧ s.groups = groups.map (projectGroup s.worker.specs) := by
    intro s hs
    obtain ⟨w, hw, hws⟩ := exists_of_mem_right (mapM_ok hstages) hs
    cases (hstage w).symm.trans hws
    exact ⟨hw, rfl⟩
  have hsizes : ∀ s ∈ stages, AllSized s.groups := fun s hs => (hstages s hs).2 ▸ hsized.project _
  refine .bind (.mapM fun s _ => ?_) fun usable husable => ?_
  · unfold checkMemory
    split
    · exact nofun
    · exact .bind poolBytesPerBlock_divisionFree fun _ _ => nofun
  have husable : ∀ u ∈ usable, AllSized u.1 := by
    intro u hu
    obtain ⟨s, hs, hsu⟩ := exists_of_mem_right (mapM_ok husable) hu
    have hgroups : u.1 = s.groups := by
      unfold checkMemory at hsu
      split at hsu
      · cases hsu
        rfl
      · obtain ⟨_, _, hsu⟩ := bind_ok hsu
        cases hsu
        rfl
    exact hgroups ▸ hsizes s hs
  refine .bind (plannedModelLen_divisionFree husable) fun _ _ => ?_
  refine .bind (.mapM fun u hu => checkEnough_divisionFree (husable u hu)) fun _ _ => ?_
  refine .bind (.mapM fun s hs => ?_) fun configs hconfigs => ?_
  · unfold stageConfig
    split
    · exact nofun
    rename_i hcount
    rw [not_not] at hcount
    obtain ⟨hw, hgroups⟩ := hstages s hs
    refine getKvCacheConfigFromGroups_divisionFree (hsizes s hs) fun _ pool hpool => ?_
    -- the worker's layers are in its groups, so one of them has a page in a block
    obtain ⟨g, hg, hnames⟩ : ∃ g ∈ s.groups, g.layerNames ≠ [] := by
      by_contra hall
      push Not at hall
      refine hown s.worker hw (length_eq_zero_iff.1 (hcount.symm.trans (sum_eq_zero ?_)))
      intro k hk
      obtain ⟨g, hg, rfl⟩ := mem_map.1 hk
      rw [hall g hg]
      rfl
    have hlayers : layerSpecs g ≠ [] := by
      rw [hgroups] at hg
      obtain ⟨g, hmem, rfl⟩ := mem_map.1 hg
      exact layerSpecs_ne_nil (htype g hmem) _ hnames
    exact (poolBytesPerBlock_pos (hsizes s hs) hg hlayers hpool).ne'
  split
  · exact nofun
  refine .mapM fun c hc => ?_
  obtain ⟨s, hs, hsc⟩ := exists_of_mem_right (mapM_ok hconfigs) hc
  unfold stageConfig at hsc
  split at hsc
  · cases hsc
  obtain ⟨hgroups, -, hplan⟩ := getKvCacheConfigFromGroups_spec hsc
  unfold replan
  split
  · exact nofun
  refine .bind poolBytesPerBlock_divisionFree fun _ _ => ?_
  rw [hgroups]
  refine getKvCacheConfigFromGroups_divisionFree (hsizes s hs) fun hne pool hpool => ?_
  obtain ⟨_, _, _, hp⟩ := hplan hne
  cases hpool.symm.trans (hgroups ▸ hp.poolBytes)
  exact hp.pos.ne'

/-- **The workers agree**, if there is a cache and its number of blocks is not overridden. No plan of workers
that each have a layer divides by zero, and workers that are planned each have one. Then they have the same
number of blocks, what the memory of one of them allows and no other's exceeds, and the same groups with
the same block sizes, and the tensors keep within each memory. -/
theorem getKvCacheConfigs_agree (hgroups : globalGroups pc workers = .ok groups) (hne : groups ≠ [])
    (hsized : AllSized groups) (hnone : pc.numGpuBlocksOverride = none) :
    ((∀ w ∈ workers, w.specs ≠ []) → (getKvCacheConfigs pc workers).DivisionFree) ∧
    ∀ configs, getKvCacheConfigs pc workers = .ok configs → (∀ w ∈ workers, w.specs ≠ []) ∧
      ∃ n, Forall₂ (Agrees pc groups n) workers configs ∧ ∃ w ∈ workers,
        blocksAllowed pc.layout (groups.map (projectGroup w.specs)) w.availableMemory = .ok n := by
  refine ⟨fun hown => ?_, fun configs h => ?_⟩
  · obtain ⟨planned, htype⟩ := globalGroups_oneType hgroups
    refine .bind (by rw [hgroups]; exact nofun) fun groups' h' => ?_
    cases hgroups.symm.trans h'
    exact planStages_divisionFree htype hsized hnone hown
  obtain ⟨groups', n, hgroups', hagree, -, hdecides⟩ := getKvCacheConfigs_returned h
  cases hgroups.symm.trans hgroups'
  have hdecides := hdecides hne
  rw [hnone] at hdecides
  refine ⟨fun w hw hnil => ?_, n, hagree, hdecides⟩
  obtain ⟨c, -, hc⟩ := exists_of_mem_left hagree hw
  obtain ⟨⟨allowed, hallowed, -⟩, -⟩ := hc.fits hne hnone
  obtain ⟨pool, hpool, hpos, -⟩ := blocksAllowed_ok hallowed
  refine hpos.ne' (poolBytesPerBlock_zero (fun g hg => ?_) hpool)
  rw [hc.projected, hnil] at hg
  obtain ⟨g, -, rfl⟩ := mem_map.1 hg
  exact layerSpecs_project_nil

end

/-! ### Two pipeline stages -/

/-- A stage with one layer of full attention, 16384 bytes a block. -/
def fullLayer (name : LayerName) (availableMemory : ℤ) : Worker StandardSpec :=
  ⟨[(name, .fullAttention (attentionOf 4) none none false)], availableMemory⟩

/-- The planning of requests of up to 64 tokens. -/
def shortRequests : PlanConfig := { layout := .LBNHC, maxModelLen := 64 }

/-- Of two stages, with the memory of 6 and of 12 blocks, both are planned with 6. -/
theorem getKvCacheConfigs_stages :
    ∃ configs groups, @getKvCacheConfigs _ (StandardSpec.planSpec 64 true) _ shortRequests
        [fullLayer 0 100000, fullLayer 1 200000] = .ok configs ∧ configs.map (·.numBlocks) = [6, 6] ∧
      Forall₂ (@Agrees _ (StandardSpec.planSpec 64 true) shortRequests groups 6)
        [fullLayer 0 100000, fullLayer 1 200000] configs := by
  let _ := StandardSpec.planSpec 64 true
  have hrun : (getKvCacheConfigs shortRequests [fullLayer 0 100000, fullLayer 1 200000]).toOption.map
      (fun configs => configs.map (·.numBlocks)) = some [6, 6] := by decide +kernel
  obtain ⟨configs, hconfigs, hblocks⟩ := Option.map_eq_some_iff.1 hrun
  have hconfigs := Raise.ok_of_toOption hconfigs
  obtain ⟨groups, hgroups, heq⟩ : ∃ groups, globalGroups shortRequests [fullLayer 0 100000, fullLayer 1 200000] =
      .ok groups ∧ groups = [⟨[0, 1], .one (.fullAttention (attentionOf 4) none none false)⟩] := ⟨_, rfl, rfl⟩
  have hsized : AllSized groups := by
    subst heq
    intro g hg spec hspec
    cases mem_singleton.1 hg
    cases mem_singleton.1 hspec
    exact ⟨by decide, by decide, nofun, fun _ => nofun⟩
  have hagree := getKvCacheConfigs_agree hgroups (by rw [heq]; exact cons_ne_nil _ _) hsized rfl
  obtain ⟨-, n, hall, -⟩ := hagree.2 configs hconfigs
  have hn : n = 6 := by
    cases hall with
    | cons hfirst hrest =>
      rw [map_cons] at hblocks
      exact hfirst.numBlocks.symm.trans (cons.inj hblocks).1
  exact ⟨configs, groups, hconfigs, hblocks, hn ▸ hall⟩

/-- The second stage has no layer: its memory is divided by the 0 bytes that a block takes there. -/
theorem getKvCacheConfigs_empty_stage : @getKvCacheConfigs _ (StandardSpec.planSpec 64 true) _ shortRequests
    [fullLayer 0 100000, ⟨[], 200000⟩] = .error .zeroDivisionError := rfl

end VllmRwkv
