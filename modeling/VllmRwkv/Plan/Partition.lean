import VllmRwkv.Plan.Specs

/-!
# The groups partition the layers

Every path of `get_kv_cache_groups` but one keeps each layer in exactly one group. The exception
is the split of a bucket whose page sizes have unequally many layers: the rows of
`zip(*page_size_layers)` end with the shortest list, and the layers beyond it are in no group.
`getKvCacheGroups_partition` says that this is the only way to lose a layer.
-/

open Strided Except

namespace VllmRwkv

open List
open Prod (fst snd)

section

variable {S : Type} [LayerSpec S]
  {specs planned bucket : SpecsOf S} {groups : List (KVCacheGroupSpec S)} {buckets : List (SpecsOf S)}
  {split : List (SpecsOf S × ℕ)} {names : List LayerName} {r : Option ℕ} {cfg : GroupingConfig} {io : Bool}

open LayerSpec

section

variable (planned)

/-- The layers of a group have one type: they are uniform, or their specs merge. -/
def KVCacheGroupSpec.OneType (g : KVCacheGroupSpec S) : Prop :=
  match g.kvCacheSpec with
  | .uniformType specs => specs.map fst = g.layerNames ∧ (∀ x ∈ specs, x ∈ planned) ∧ isUniformType specs = .ok true
  | .one _ => g.layerNames.length = 1 ∨ ∃ merged, merge (specsFor planned g.layerNames) = .ok merged

/-- The layers that the groups hold. -/
def layersOf (groups : List (KVCacheGroupSpec S)) : List LayerName := groups.flatMap (·.layerNames)

/-- The groups are not empty, and each has one type. -/
def WellTyped (groups : List (KVCacheGroupSpec S)) : Prop :=
  ∀ g ∈ groups, g.layerNames ≠ [] ∧ g.OneType planned

/-- The layers are divided among the groups. -/
def Divides (names : List LayerName) (groups : List (KVCacheGroupSpec S)) : Prop :=
  (layersOf groups).Perm names ∧ WellTyped planned groups

end

omit [LayerSpec S] in
theorem layersOf_append (gs hs : List (KVCacheGroupSpec S)) : layersOf (gs ++ hs) = layersOf gs ++ layersOf hs :=
  flatMap_append

theorem wellTyped_append {gs hs : List (KVCacheGroupSpec S)} (hgs : WellTyped planned gs)
    (hhs : WellTyped planned hs) : WellTyped planned (gs ++ hs) := by
  intro g hg
  rcases mem_append.1 hg with h | h
  · exact hgs g h
  · exact hhs g h

/-! ## Groups by merging -/

theorem createKvCacheGroupSpecs_spec {named : List (List LayerName)}
    (h : createKvCacheGroupSpecs specs named = .ok groups) (hne : ∀ names ∈ named, names ≠ []) :
    layersOf groups = named.flatten ∧ WellTyped specs groups := by
  have hall := mapM_ok h
  clear h
  induction hall with
  | nil => exact ⟨rfl, nofun⟩
  | @cons names g named groups hg _ ih =>
    obtain ⟨merged, hmerge, heq⟩ := bind_ok hg
    cases heq
    obtain ⟨hlayers, htyped⟩ := ih fun n hn => hne n (mem_cons_of_mem _ hn)
    refine ⟨?_, ?_⟩
    · rw [flatten_cons, ← hlayers]
      rfl
    intro g' hg'
    rcases mem_cons.1 hg' with rfl | hg'
    · exact ⟨hne names mem_cons_self, .inr ⟨merged, hmerge⟩⟩
    · exact htyped g' hg'

omit [LayerSpec S] in
theorem sameTypeLayers_perm [DecidableEq S] (specs : SpecsOf S) :
    ((sameTypeLayers specs).flatMap snd).Perm (specs.map fst) := by
  have hperm := (flatMap_distinct_perm (snd : LayerName × S → S) specs).map fst
  rw [map_flatMap] at hperm
  unfold sameTypeLayers
  rw [flatMap_map]
  exact hperm

omit [LayerSpec S] in
theorem sameTypeLayers_ne_nil [DecidableEq S] (specs : SpecsOf S) : ∀ x ∈ sameTypeLayers specs, x.2 ≠ [] := by
  intro x hx
  obtain ⟨spec, hspec, rfl⟩ := mem_map.1 hx
  obtain ⟨y, hy, rfl⟩ := mem_map.1 (mem_distinct.1 hspec)
  have hmem : y ∈ specs.filter fun z => z.2 = y.2 := mem_filter.2 ⟨hy, by simp⟩
  intro hnil
  rw [map_eq_nil_iff] at hnil
  rw [hnil] at hmem
  exact not_mem_nil hmem

theorem layerBuckets_spec {layers : List (S × List LayerName)} {buckets : List (MergeBucket S)}
    (h : layerBuckets layers = .ok buckets) (hne : ∀ x ∈ layers, x.2 ≠ []) :
    (buckets.flatMap (·.names)).Perm (layers.flatMap snd) ∧ ∀ b ∈ buckets, b.names ≠ [] := by
  -- what the buckets hold and what is still to come make up the layers
  have hinv := foldlM_ok (fun rest (bs : List (MergeBucket S)) =>
      (bs.flatMap (·.names) ++ rest.flatMap snd).Perm (layers.flatMap snd) ∧
      (∀ b ∈ bs, b.names ≠ []) ∧ ∀ x ∈ rest, x.2 ≠ []) h ?_ ?_
  · obtain ⟨hperm, hnames, -⟩ := hinv
    rw [flatMap_nil, append_nil] at hperm
    exact ⟨hperm, hnames⟩
  · intro x rest bs bs' hI hstep
    obtain ⟨hperm, hnames, hrest⟩ := hI
    have hplaced := placeFirst_perm (fun b : MergeBucket S => b.names) x.2 hstep (fun b => rfl) rfl
    refine ⟨?_, ?_, fun y hy => hrest y (mem_cons_of_mem _ hy)⟩
    · refine (hplaced.append_right _).trans ?_
      rw [append_assoc]
      exact hperm
    · refine placeFirst_forall hstep hnames ?_ (hrest x mem_cons_self)
      intro b hb _ hnil
      exact hb (append_eq_nil_iff.1 hnil).1
  · exact ⟨.refl _, nofun, hne⟩

theorem groupSize_pos {lengths : List ℕ} (hne : lengths ≠ []) (hpos : ∀ n ∈ lengths, 0 < n) :
    0 < groupSize lengths := by
  have hmin : 0 < lengths.min?.getD 0 := by
    rcases hm : lengths.min? with _ | m
    · exact absurd (min?_eq_none_iff.1 hm) hne
    · exact hpos m (min?_mem hm)
  have hmax : 0 < lengths.max?.getD 0 := by
    rcases hm : lengths.max? with _ | m
    · exact absurd (max?_eq_none_iff.1 hm) hne
    · exact hpos m (max?_mem hm)
  unfold groupSize
  dsimp only
  split <;> assumption

/-- The strides of a bucket's layers are not empty, for a group size above 0. -/
theorem strided_names_ne_nil {size : ℕ} {l : List LayerName} (hsize : 0 < size)
    (hl : l ∈ (range (cdiv names.length size)).map fun i => strided i (cdiv names.length size) names) : l ≠ [] := by
  obtain ⟨i, hi, rfl⟩ := mem_map.1 hl
  have hlt := mem_range.1 hi
  refine strided_ne_nil hlt (lt_of_lt_of_le hlt ?_)
  unfold cdiv
  rw [Nat.div_le_iff_le_mul_add_pred hsize]
  have hmul : names.length ≤ size * names.length := Nat.le_mul_of_pos_left _ hsize
  omega

theorem cdiv_pos {n size : ℕ} (hn : 0 < n) (hsize : 0 < size) : 0 < cdiv n size := by
  exact Nat.div_pos (by omega) hsize

theorem getKvCacheGroupsUniformPageSize_divides [DecidableEq S]
    (h : getKvCacheGroupsUniformPageSize specs = .ok groups) : Divides specs (specs.map fst) groups := by
  obtain ⟨buckets, hbuckets, h⟩ := bind_ok h
  obtain ⟨hperm, hnames⟩ := layerBuckets_spec hbuckets (sameTypeLayers_ne_nil specs)
  have hlen : ∀ b ∈ buckets, 0 < b.names.length := fun b hb => length_pos_iff.2 (hnames b hb)
  have hsize : ∀ b ∈ buckets, 0 < groupSize (buckets.map (·.names.length)) := by
    intro b hb
    refine groupSize_pos ?_ ?_
    · intro hnil
      rw [map_eq_nil_iff] at hnil
      rw [hnil] at hb
      exact not_mem_nil hb
    · intro n hn
      obtain ⟨b', hb', rfl⟩ := mem_map.1 hn
      exact hlen b' hb'
  obtain ⟨hlayers, htyped⟩ := createKvCacheGroupSpecs_spec h (by
    intro names hmem
    obtain ⟨b, hb, hl⟩ := mem_flatMap.1 hmem
    exact strided_names_ne_nil (hsize b hb) hl)
  refine ⟨?_, htyped⟩
  rw [hlayers, flatten_eq_flatMap, flatMap_assoc]
  refine (Perm.flatMap_left _ fun b hb => ?_).trans (hperm.trans (sameTypeLayers_perm specs))
  rw [← flatten_eq_flatMap, ← flatMap_def]
  exact flatMap_strided_perm (cdiv_pos (hlen b hb) (hsize b hb)) b.names

/-! ## Packed groups -/

/-- The buckets make up the layers, and none is empty. -/
theorem uniformBuckets_spec
    (h : uniformBuckets specs = .ok buckets) : buckets.flatten.Perm specs ∧ ∀ b ∈ buckets, b ≠ [] := by
  have hinv := foldlM_ok (fun rest (bs : List (SpecsOf S)) =>
      (bs.flatMap id ++ rest).Perm specs ∧ ∀ b ∈ bs, b ≠ []) h ?_ ?_
  · obtain ⟨hperm, hne⟩ := hinv
    rw [append_nil, flatMap_id] at hperm
    exact ⟨hperm, hne⟩
  · intro x rest bs bs' hI hstep
    obtain ⟨hperm, hne⟩ := hI
    have hplaced := placeFirst_perm id [x] hstep (fun b => rfl) rfl
    refine ⟨?_, ?_⟩
    · refine (hplaced.append_right _).trans ?_
      rw [append_assoc]
      exact hperm
    · refine placeFirst_forall hstep hne ?_ (cons_ne_nil x [])
      intro b _ _ hnil
      exact cons_ne_nil x [] (append_eq_nil_iff.1 hnil).2
  · exact ⟨.refl _, nofun⟩

theorem pageSizeLayers_perm (bucket : SpecsOf S) : ((pageSizeLayers bucket).map snd).flatten.Perm (bucket.map fst) := by
  have hperm := (flatMap_distinct_perm (fun x : LayerName × S => pageSizeBytes x.2) bucket).map fst
  rw [map_flatMap] at hperm
  unfold pageSizeLayers
  rw [map_map, ← flatMap_def]
  exact hperm

/-- In a balanced bucket all page sizes have as many layers as the one with the fewest. -/
theorem balanced_iff (hne : bucket ≠ []) : balanced bucket ↔
      ∀ l ∈ (pageSizeLayers bucket).map snd, l.length = minLength ((pageSizeLayers bucket).map snd) := by
  set lists := (pageSizeLayers bucket).map snd with hlists
  have hlengths : ((pageSizeLayers bucket).map fun x => x.2.length) = lists.map length := by
    rw [hlists, map_map]
    rfl
  have hlistsne : lists ≠ [] := by
    intro hnil
    have hperm := (pageSizeLayers_perm bucket).length_eq
    rw [← hlists, hnil, length_map] at hperm
    exact hne (length_eq_zero_iff.1 hperm.symm)
  unfold balanced
  rw [hlengths, decide_eq_true_eq]
  constructor
  · intro hone l hl
    obtain ⟨n, hn⟩ := length_eq_one_iff.1 hone
    have hsame : ∀ k ∈ lists, k.length = n := by
      intro k hk
      have hmem := mem_distinct.2 (mem_map_of_mem (f := length) hk)
      rw [hn] at hmem
      exact mem_singleton.1 hmem
    obtain ⟨k, hk, hmin⟩ := exists_minLength hlistsne
    rw [hsame l hl, ← hmin, hsame k hk]
  · intro hsame
    have hsub : distinct (lists.map length) ⊆ [minLength lists] := by
      intro n hn
      obtain ⟨l, hl, rfl⟩ := mem_map.1 (mem_distinct.1 hn)
      exact mem_singleton.2 (hsame l hl)
    have hle := ((nodup_distinct (lists.map length)).subperm hsub).length_le
    obtain ⟨l, hl⟩ := exists_mem_of_ne_nil _ hlistsne
    have hpos : 0 < (distinct (lists.map length)).length := length_pos_of_mem (mem_distinct.2 (mem_map_of_mem hl))
    rw [length_singleton] at hle
    omega

/-- The rows of a bucket that is not balanced lack some of its layers. -/
theorem rows_length_lt (hne : bucket ≠ []) (hbal : balanced bucket = false) :
    (zipRows ((pageSizeLayers bucket).map snd)).flatten.length < bucket.length := by
  have hnot : ¬ ∀ l ∈ (pageSizeLayers bucket).map snd, l.length = minLength ((pageSizeLayers bucket).map snd) := by
    intro hall
    rw [← balanced_iff hne, hbal] at hall
    exact Bool.false_ne_true hall
  push Not at hnot
  obtain ⟨l, hl, hlen⟩ := hnot
  have hlt := minLength_mul_lt hl (lt_of_le_of_ne (minLength_le hl) hlen.symm)
  have htotal := (pageSizeLayers_perm bucket).length_eq
  rw [length_map] at htotal
  rw [length_flatten_zipRows]
  omega

omit [LayerSpec S] in
theorem restrictTo_spec (h : ∀ n ∈ names, n ∈ bucket.map fst) :
    (restrictTo bucket names).map fst = names ∧ ∀ x ∈ restrictTo bucket names, x ∈ bucket := by
  refine ⟨?_, ?_⟩
  · unfold restrictTo
    induction names with
    | nil => rfl
    | cons n names ih =>
      obtain ⟨x, hx, hxn⟩ := mem_map.1 (h n mem_cons_self)
      rcases hfind : bucket.find? (fun y => y.1 = n) with _ | y
      · exact absurd hxn (by simpa using find?_eq_none.1 hfind x hx)
      have hyn : y.1 = n := by simpa using find?_some hfind
      rw [filterMap_cons, hfind]
      rw [map_cons, hyn, ih fun m hm => h m (mem_cons_of_mem _ hm)]
  · intro x hx
    obtain ⟨n, _, hfind⟩ := mem_filterMap.1 hx
    exact mem_of_find?_eq_some hfind

theorem mem_rows {n : LayerName}
    (h : n ∈ (zipRows ((pageSizeLayers bucket).map snd)).flatten) : n ∈ bucket.map fst := by
  obtain ⟨row, hrow, hn⟩ := mem_flatten.1 h
  obtain ⟨k, _, rfl⟩ := mem_map.1 hrow
  obtain ⟨l, hl, hget⟩ := mem_filterMap.1 hn
  exact (pageSizeLayers_perm bucket).subset (mem_flatten.2 ⟨l, hl, mem_of_getElem? hget⟩)

variable {g : KVCacheGroupSpec S}

theorem strideGroup_spec {n i : ℕ}
    (h : strideGroup bucket (zipRows ((pageSizeLayers bucket).map snd)) n i = .ok g) (hi : i < n)
    (hsub : bucket ⊆ planned) : g.layerNames = (strided i n (zipRows ((pageSizeLayers bucket).map snd))).flatten ∧
      g.layerNames ≠ [] ∧ g.OneType planned := by
  obtain ⟨uniform, hu, h⟩ := bind_ok h
  cases uniform with
  | false => cases h
  | true =>
    cases h
    set rows := zipRows ((pageSizeLayers bucket).map snd)
    have hmem : ∀ m ∈ (strided i n rows).flatten, m ∈ bucket.map fst := by
      intro m hm
      obtain ⟨row, hrow, hm⟩ := mem_flatten.1 hm
      have hperm := flatMap_strided_perm (by omega : 0 < n) rows
      have hrow' := hperm.subset (mem_flatMap.2 ⟨i, mem_range.2 hi, hrow⟩)
      exact mem_rows (mem_flatten.2 ⟨row, hrow', hm⟩)
    obtain ⟨hfst, hin⟩ := restrictTo_spec hmem
    refine ⟨rfl, ?_, hfst, fun x hx => hsub (hin x hx), hu⟩
    intro hnil
    -- no uniform type is made of no layers
    rw [show (strided i n rows).flatten = [] from hnil] at hu
    cases hu

theorem strideGroups_spec {n : ℕ} {is : List ℕ} {gs : List (KVCacheGroupSpec S)} (h : Forall₂ (fun i g =>
      strideGroup bucket (zipRows ((pageSizeLayers bucket).map snd)) n i = .ok g) is gs)
    (hlt : ∀ i ∈ is, i < n) (hsub : bucket ⊆ planned) : WellTyped planned gs ∧
      layersOf gs = (is.flatMap fun i => strided i n (zipRows ((pageSizeLayers bucket).map snd))).flatten := by
  induction h with
  | nil => exact ⟨nofun, rfl⟩
  | @cons i g is gs hg _ ih =>
    obtain ⟨hnames, hgne, hone⟩ := strideGroup_spec hg (hlt i mem_cons_self) hsub
    obtain ⟨htyped, hlayers⟩ := ih fun j hj => hlt j (mem_cons_of_mem _ hj)
    refine ⟨?_, ?_⟩
    · intro g' hg'
      rcases mem_cons.1 hg' with rfl | hg'
      · exact ⟨hgne, hone⟩
      · exact htyped g' hg'
    · rw [flatMap_cons, flatten_append, ← hlayers, ← hnames]
      rfl

/-- A bucket keeps all of its layers: it is not split, or its page sizes have equally many. -/
def Kept (x : SpecsOf S × ℕ) : Prop := x.2 = 1 ∨ balanced x.1

/-- **The groups of a bucket** hold its layers, unless it is split and not balanced. -/
theorem bucketGroups_spec {n : ℕ}
    (h : bucketGroups bucket n = .ok groups) (hne : bucket ≠ []) (hn : 0 < n) (hsub : bucket ⊆ planned)
    (huniform : isUniformType bucket = .ok true) : WellTyped planned groups ∧ groups ≠ [] ∧
      (Kept (bucket, n) → (layersOf groups).Perm (bucket.map fst)) ∧
      (¬ Kept (bucket, n) → (layersOf groups).length < bucket.length) := by
  unfold bucketGroups at h
  split at h
  case isTrue hone =>
    cases h
    refine ⟨?_, cons_ne_nil _ _, fun _ => ?_, fun hkept => absurd (.inl hone) hkept⟩
    · intro g hg
      obtain rfl := mem_singleton.1 hg
      exact ⟨fun hnil => hne (map_eq_nil_iff.1 hnil), rfl, hsub, huniform⟩
    · simp [layersOf]
  case isFalse hmany =>
    have hall := mapM_ok h
    obtain ⟨htyped, hlayers⟩ := strideGroups_spec hall (fun i hi => mem_range.1 hi) hsub
    have hperm := (flatMap_strided_perm hn (zipRows ((pageSizeLayers bucket).map snd))).flatten
    rw [← hlayers] at hperm
    refine ⟨htyped, ?_, ?_, ?_⟩
    · intro hnil
      have hlen := hall.length_eq
      rw [hnil, length_range, length_nil] at hlen
      omega
    · intro hkept
      -- the rows of a balanced bucket make up its layers
      exact (hperm.trans (flatten_zipRows_perm ((balanced_iff hne).1 (hkept.resolve_left hmany)))).trans
        (pageSizeLayers_perm bucket)
    intro hkept
    have hbal : balanced bucket = false := Bool.eq_false_iff.2 fun hb => hkept (.inr hb)
    rw [hperm.length_eq]
    exact rows_length_lt hne hbal

/-! ### The number of groups -/

theorem approximateGcd_pos {values : List ℕ} {bound k : ℕ} (h : approximateGcd values bound = .ok k) : 0 < k := by
  unfold approximateGcd at h
  split at h
  · cases h
  split at h
  · cases h
  dsimp only at h
  split at h
  · cases h
    omega
  -- the best chunk size so far is the first, or one that was tried
  cases h
  set ds := range' (max 1 bound) (values.max?.getD 0 + 1 - max 1 bound) with hds
  have hpos : ∀ d ∈ ds, 0 < d := by
    intro d hd
    rw [hds, mem_range'_1] at hd
    omega
  have hfold : ∀ (l : List ℕ) (better : ℕ → ℕ → Prop) [∀ a b, Decidable (better a b)] (best : ℕ), 0 < best →
      (∀ d ∈ l, 0 < d) → 0 < l.foldl (fun best d => if better best d then d else best) best := by
    intro l better _
    induction l with
    | nil => exact fun best hbest _ => hbest
    | cons d l ih =>
      intro best hbest hl
      rw [foldl_cons]
      refine ih _ ?_ fun e he => hl e (mem_cons_of_mem _ he)
      split
      · exact hl d mem_cons_self
      · exact hbest
  exact hfold ds _ (max 1 bound) (by omega) hpos

theorem repeatsPerGroup_pos {k : ℕ} (h : repeatsPerGroup buckets = .ok (some k)) : 0 < k := by
  unfold repeatsPerGroup at h
  dsimp only at h
  split at h
  · cases h
  obtain ⟨d, hgcd, h⟩ := bind_ok h
  cases h
  exact approximateGcd_pos hgcd

theorem getMaxLayersPerPageSize_pos (hne : bucket ≠ []) : 0 < getMaxLayersPerPageSize bucket := by
  obtain ⟨x, hx⟩ := exists_mem_of_ne_nil _ hne
  have hmem := (pageSizeLayers_perm bucket).symm.subset (mem_map_of_mem hx)
  obtain ⟨l, hl, hxl⟩ := mem_flatten.1 hmem
  obtain ⟨y, hy, rfl⟩ := mem_map.1 hl
  unfold getMaxLayersPerPageSize
  have hlen : y.2.length ∈ (pageSizeLayers bucket).map fun z => z.2.length := mem_map_of_mem hy
  rcases hmax : ((pageSizeLayers bucket).map fun z => z.2.length).max? with _ | m
  · rw [max?_eq_none_iff] at hmax
    rw [hmax] at hlen
    exact absurd hlen not_mem_nil
  have hle := (max?_eq_some_iff.1 hmax).2 _ hlen
  have hpos := length_pos_of_mem hxl
  rw [hmax, Option.getD_some]
  omega

theorem numGroupsFor_pos (hr : repeatsPerGroup buckets = .ok r) (hne : bucket ≠ []) : 0 < numGroupsFor r bucket := by
  unfold numGroupsFor
  split
  case h_1 k _ => exact cdiv_pos (getMaxLayersPerPageSize_pos hne) (repeatsPerGroup_pos hr)
  case h_2 => exact one_pos

/-- A state bucket with more layers than a block has room for. -/
def Crowded (repeats : Option ℕ) (anchor : ℕ) (bucket : SpecsOf S) : Prop :=
  anchor ≠ 0 ∧ isStateBucket repeats bucket ∧
    ∃ first, bucket.head? = some first ∧ max (anchor / pageSizeBytes first.2) 1 < bucket.length

theorem one_lt_cdiv {n k : ℕ} (hk : 0 < k) : 1 < cdiv n k ↔ k < n := by
  unfold cdiv
  rw [← Nat.succ_le_iff, Nat.le_div_iff_mul_le hk]
  omega

theorem numGroups_spec {anchor n : ℕ}
    (h : numGroups r anchor bucket = .ok n) (hr : repeatsPerGroup buckets = .ok r) (hne : bucket ≠ []) :
    0 < n ∧ (Kept (bucket, n) ↔ ¬ (balanced bucket = false ∧ Crowded r anchor bucket)) := by
  have hpos := numGroupsFor_pos hr hne
  -- a bucket that is not balanced is split only for its states
  have hone : balanced bucket = false → numGroupsFor r bucket = 1 := by
    intro hbal
    unfold numGroupsFor
    rw [hbal]
  unfold numGroups at h
  unfold Kept Crowded
  split at h
  case isTrue hstate =>
    cases bucket with
    | nil => exact absurd rfl hne
    | cons first rest =>
      dsimp only at h
      split at h
      · cases h
      cases h
      refine ⟨by omega, ?_⟩
      rcases Bool.eq_false_or_eq_true (balanced (first :: rest)) with hbal | hbal
      · simp [hbal]
      have hlt := one_lt_cdiv (n := (first :: rest).length) (k := max (anchor / pageSizeBytes first.2) 1) (by omega)
      rw [hone hbal]
      simp only [hbal, true_and, Bool.false_eq_true, or_false, head?_cons, Option.some.injEq,
        exists_eq_left', hstate, ne_eq, not_false_eq_true]
      omega
  case isFalse hstate =>
    cases h
    refine ⟨hpos, ?_⟩
    rcases Bool.eq_false_or_eq_true (balanced bucket) with hbal | hbal
    · simp [hbal]
    · refine iff_of_true (.inl (hone hbal)) ?_
      rintro ⟨-, hanchor, hs, -⟩
      exact hstate ⟨hanchor, hs⟩

/-! ### All buckets -/

/-- What the first half of the packing computes. -/
structure Packs (specs : SpecsOf S) (buckets : List (SpecsOf S)) (repeats : Option ℕ)
    (split : List (SpecsOf S × ℕ)) : Prop where
  bucketed : uniformBuckets specs = .ok buckets
  uniform : ∀ b ∈ buckets, isUniformType b = .ok true
  repeated : repeatsPerGroup buckets = .ok repeats
  divided : Forall₂ (fun b x => x.1 = b ∧ numGroups repeats (anchorBytes repeats buckets) b = .ok x.2) buckets split

theorem packedBuckets_some (h : packedBuckets io specs = .ok (some split)) :
    (io ∧ 1 < (distinct (specs.map fun x => pageSizeBytes x.2)).length) ∧
      ∃ buckets repeats, Packs specs buckets repeats split := by
  unfold packedBuckets at h
  dsimp only at h
  split_ifs at h with hpack
  · cases h
  push Not at hpack
  obtain ⟨buckets, hbuckets, h⟩ := bind_ok h
  obtain ⟨uniform, huniform, h⟩ := bind_ok h
  split_ifs at h with hnone
  · cases h
  obtain ⟨repeats, hrepeats, h⟩ := bind_ok h
  obtain ⟨split', hsplit, h⟩ := bind_ok h
  cases h
  refine ⟨⟨by simpa using hpack.1, hpack.2⟩, buckets, repeats, hbuckets, ?_, hrepeats, ?_⟩
  · -- no test of a bucket answered no
    have hall := mapM_ok huniform
    have htrue : ∀ u ∈ uniform, u := by
      intro u hu
      by_contra hfalse
      exact hnone (any_eq_true.2 ⟨u, hu, by simpa using hfalse⟩)
    intro b hb
    obtain ⟨u, hu, hbu⟩ := exists_of_mem_left hall hb
    rw [hbu, htrue u hu]
  · refine (mapM_ok hsplit).imp ?_
    intro b x hx
    obtain ⟨n, hn, hx⟩ := bind_ok hx
    cases hx
    exact ⟨rfl, hn⟩

/-- The facts about a bucket that the split uses. -/
structure Ready (planned : SpecsOf S) (x : SpecsOf S × ℕ) : Prop where
  ne_nil : x.1 ≠ []
  pos : 0 < x.2
  sub : x.1 ⊆ planned
  uniform : isUniformType x.1 = .ok true

theorem splitGroups_spec {gss : List (List (KVCacheGroupSpec S))}
    (h : Forall₂ (fun x gs => bucketGroups x.1 x.2 = .ok gs) split gss) (hready : ∀ x ∈ split, Ready planned x) :
    WellTyped planned gss.flatten ∧ (split ≠ [] → gss.flatten ≠ []) ∧
      (layersOf gss.flatten).length ≤ (split.flatMap fst).length ∧
      ((∀ x ∈ split, Kept x) → (layersOf gss.flatten).Perm ((split.flatMap fst).map fst)) ∧
      ((∃ x ∈ split, ¬ Kept x) → (layersOf gss.flatten).length < (split.flatMap fst).length) := by
  induction h with
  | nil =>
    refine ⟨nofun, fun hne => absurd rfl hne, le_refl _, fun _ => .refl _, ?_⟩
    rintro ⟨x, hx, -⟩
    exact absurd hx not_mem_nil
  | @cons x gs split gss hx _ ih =>
    have hr := hready x mem_cons_self
    obtain ⟨htyped, hne, hkept, hlost⟩ := bucketGroups_spec hx hr.ne_nil hr.pos hr.sub hr.uniform
    obtain ⟨htyped', -, hle', hkept', hlost'⟩ := ih fun y hy => hready y (mem_cons_of_mem _ hy)
    have hle : (layersOf gs).length ≤ x.1.length := by
      rcases Classical.em (Kept x) with hk | hk
      · rw [(hkept hk).length_eq, length_map]
      · exact (hlost hk).le
    rw [flatten_cons, flatMap_cons, layersOf_append, length_append, length_append, map_append]
    refine ⟨wellTyped_append htyped htyped', ?_, by omega, ?_, ?_⟩
    · intro _ hnil
      exact hne (append_eq_nil_iff.1 hnil).1
    · intro hall
      exact (hkept (hall x mem_cons_self)).append (hkept' fun y hy => hall y (mem_cons_of_mem _ hy))
    rintro ⟨y, hy, hnot⟩
    rcases mem_cons.1 hy with rfl | hy
    · have := hlost hnot
      omega
    · have := hlost' ⟨y, hy, hnot⟩
      omega

section

variable (hp : Packs specs buckets r split)

include hp

theorem Packs.flatMap_fst : split.flatMap fst = buckets.flatten := by
  have hsplit := hp.divided
  generalize anchorBytes r buckets = anchor at hsplit
  clear hp
  induction hsplit with
  | nil => rfl
  | @cons b x _ _ hx _ ih => rw [flatMap_cons, flatten_cons, hx.1, ih]

theorem Packs.ready (hsub : specs ⊆ planned) : ∀ x ∈ split, Ready planned x := by
  intro x hx
  obtain ⟨b, hb, rfl, hn⟩ := exists_of_mem_right hp.divided hx
  obtain ⟨hperm, hne⟩ := uniformBuckets_spec hp.bucketed
  have hpos := (numGroups_spec hn hp.repeated (hne _ hb)).1
  refine ⟨hne _ hb, hpos, ?_, hp.uniform _ hb⟩
  intro y hy
  exact hsub (hperm.subset (mem_flatten.2 ⟨_, hb, hy⟩))

/-- A bucket that loses layers is crowded and not balanced. -/
theorem Packs.kept_iff : (∃ x ∈ split, ¬ Kept x) ↔
      ∃ b ∈ buckets, balanced b = false ∧ Crowded r (anchorBytes r buckets) b := by
  obtain ⟨-, hne⟩ := uniformBuckets_spec hp.bucketed
  constructor
  · rintro ⟨x, hx, hnot⟩
    obtain ⟨b, hb, rfl, hn⟩ := exists_of_mem_right hp.divided hx
    have hiff := (numGroups_spec hn hp.repeated (hne _ hb)).2
    exact ⟨x.1, hb, not_not.1 fun h => hnot (hiff.2 h)⟩
  rintro ⟨b, hb, hbad⟩
  obtain ⟨x, hx, rfl, hn⟩ := exists_of_mem_left hp.divided hb
  have hiff := (numGroups_spec hn hp.repeated (hne _ hb)).2
  exact ⟨x, hx, fun hk => hiff.1 hk hbad⟩

end

/-! ## Specs that are changed keep their layers -/

theorem promoteLocalKvCacheSpecs_names {promotedSpecs : SpecsOf S}
    (h : promoteLocalKvCacheSpecs specs = .ok promotedSpecs) : promotedSpecs.map fst = specs.map fst := by
  obtain ⟨uniform, _, h⟩ := bind_ok h
  split at h
  · cases h
    rfl
  obtain ⟨uniform', _, h⟩ := bind_ok h
  split at h
  · cases h
    split
    · rw [map_map]
      rfl
    · rfl
  · cases h

variable {eff : SpecsOf S}

theorem effectiveSpecs_names (h : effectiveSpecs cfg specs = .ok eff) : eff.map fst = specs.map fst := by
  unfold effectiveSpecs at h
  split at h
  · obtain ⟨parts, _, h⟩ := bind_ok h
    cases h
    rw [map_map]
    rfl
  · cases h
    rfl

theorem unifyKvCacheSpecPageSize_names {unified : SpecsOf S}
    (h : unifyKvCacheSpecPageSize specs = .ok unified) : unified.map fst = specs.map fst := by
  unfold unifyKvCacheSpecPageSize at h
  dsimp only at h
  split at h
  · cases h
    rfl
  refine map_eq_map_of_forall₂ (mapM_ok h) ?_
  intro x y hxy
  obtain ⟨spec, _, hxy⟩ := bind_ok hxy
  cases hxy
  rfl

/-! ## Hidden states -/

/-- Scaling the pages of a group changes neither its layers nor that they have one type. -/
theorem scaledGroups_spec {scale : ℕ} {scaledGroups : List (KVCacheGroupSpec S)}
    (h : Forall₂ (fun (g g' : KVCacheGroupSpec S) => (do
      return ⟨g.layerNames, ← g.kvCacheSpec.scaled scale⟩ : Planned (KVCacheGroupSpec S)) = .ok g')
      groups scaledGroups) (htyped : WellTyped planned groups) :
    layersOf scaledGroups = layersOf groups ∧ WellTyped planned scaledGroups := by
  induction h with
  | nil => exact ⟨rfl, htyped⟩
  | @cons g g' groups _ hg _ ih =>
    obtain ⟨hlayers, htyped'⟩ := ih fun k hk => htyped k (mem_cons_of_mem _ hk)
    obtain ⟨hne, hone⟩ := htyped g mem_cons_self
    obtain ⟨spec, hspec, hg⟩ := bind_ok hg
    cases hg
    refine ⟨?_, ?_⟩
    · show g.layerNames ++ layersOf _ = g.layerNames ++ layersOf groups
      rw [hlayers]
    intro k hk
    rcases mem_cons.1 hk with rfl | hk
    · refine ⟨hne, ?_⟩
      unfold KVCacheGroupSpec.OneType at hone ⊢
      cases hkind : g.kvCacheSpec with
      | one s =>
        rw [hkind] at hspec hone
        obtain ⟨s', hs, hspec⟩ := bind_ok hspec
        cases hspec
        exact hone
      | uniformType specs =>
        rw [hkind] at hspec hone
        cases hspec
        exact hone
    · exact htyped' k hk

variable {hidden : SpecsOf S}

theorem ensureMinPageSize_spec {page : ℕ}
    {r : List (KVCacheGroupSpec S) × ℕ} (h : ensureMinPageSize groups page hidden = .ok r)
    (htyped : WellTyped planned groups) : layersOf r.1 = layersOf groups ∧ WellTyped planned r.1 := by
  unfold ensureMinPageSize at h
  dsimp only at h
  split at h
  · cases h
    exact ⟨rfl, htyped⟩
  split at h
  · cases h
  obtain ⟨scaledGroups, hscaled, h⟩ := bind_ok h
  cases h
  exact scaledGroups_spec (mapM_ok hscaled) htyped

theorem hiddenGroup_spec {commonPage groupBlockSize : ℕ} {x : LayerName × S}
    (h : hiddenGroup commonPage groupBlockSize x = .ok g) : ∃ spec, g = ⟨[x.1], .one spec⟩ := by
  unfold hiddenGroup at h
  split at h
  · cases h
  obtain ⟨spec, _, h⟩ := bind_ok h
  obtain ⟨spec', _, h⟩ := bind_ok h
  exact ⟨spec', (ok.inj h).symm⟩

theorem hiddenGroups_spec (planned : SpecsOf S)
    (h : Forall₂ (fun x g => ∃ spec, g = ⟨[x.1], GroupSpec.one spec⟩) hidden groups) :
    layersOf groups = hidden.map fst ∧ WellTyped planned groups := by
  induction h with
  | nil => exact ⟨rfl, nofun⟩
  | @cons x g _ groups hg _ ih =>
    obtain ⟨spec, rfl⟩ := hg
    refine ⟨?_, ?_⟩
    · rw [map_cons, ← ih.1]
      rfl
    intro g' hg'
    rcases mem_cons.1 hg' with rfl | hg'
    · exact ⟨cons_ne_nil _ _, .inl rfl⟩
    · exact ih.2 g' hg'

theorem addHiddenStates_divides {groups' : List (KVCacheGroupSpec S)} (h : addHiddenStates groups hidden = .ok groups')
    (hd : Divides planned names groups) : Divides planned (names ++ hidden.map fst) groups' := by
  unfold addHiddenStates at h
  split at h
  case isTrue hnil =>
    cases h
    rwa [hnil, map_nil, append_nil]
  dsimp only at h
  split at h
  · cases h
  obtain ⟨scaledGroups, hscaled, h⟩ := bind_ok h
  obtain ⟨hlayers, htyped⟩ := ensureMinPageSize_spec hscaled hd.2
  obtain ⟨aligned, haligned, h⟩ := bind_ok h
  cases h
  have hsingle := hiddenGroups_spec planned ((mapM_ok haligned).imp fun _ _ hg => hiddenGroup_spec hg)
  refine ⟨?_, wellTyped_append htyped hsingle.2⟩
  rw [layersOf_append, hsingle.1, hlayers]
  exact hd.1.append_right _

/-! ## The partition -/

/-- The mappings whose specs decide the types of the groups: the specs as the grouping sees them,
with pages of one size, or promoted. -/
def PlannedFrom (eff planned : SpecsOf S) : Prop :=
  planned = eff ∨ unifyKvCacheSpecPageSize (eff.filter fun x => !isHiddenState x.2) = .ok planned ∨
    promoteLocalKvCacheSpecs eff = .ok planned

section

variable (cfg)

section

variable (specs : SpecsOf S)

/-- Every layer is in exactly one group, no group is empty, and each group has one type. -/
structure Partitions (groups : List (KVCacheGroupSpec S)) : Prop where
  layers : (layersOf groups).Perm (specs.map fst)
  nonempty : ∀ g ∈ groups, g.layerNames ≠ []
  oneType : ∃ eff planned, effectiveSpecs cfg specs = .ok eff ∧ PlannedFrom eff planned ∧
    ∀ g ∈ groups, g.OneType planned

/-- Pages of several sizes are packed, and some bucket of state layers is too large for a block and
has unequally many layers of its page sizes. -/
structure LosesLayers : Prop where
  blockOutermost : cfg.isBlockOutermost
  crowded : ∃ eff buckets repeats, effectiveSpecs cfg specs = .ok eff ∧
    isKvCacheSpecUniform eff = .ok false ∧ isUniformType eff = .ok false ∧
    1 < (distinct ((eff.filter fun x => !isHiddenState x.2).map fun x => pageSizeBytes x.2)).length ∧
    uniformBuckets (eff.filter fun x => !isHiddenState x.2) = .ok buckets ∧
    repeatsPerGroup buckets = .ok repeats ∧
    ∃ b ∈ buckets, balanced b = false ∧ Crowded repeats (anchorBytes repeats buckets) b

theorem filter_hidden_perm : ((specs.filter fun x => !isHiddenState x.2).map fst ++
      (specs.filter fun x => isHiddenState x.2).map fst).Perm (specs.map fst) := by
  rw [← map_append]
  refine Perm.map _ (perm_append_comm.trans ?_)
  exact filter_append_perm (fun x : LayerName × S => isHiddenState x.2) specs

end

theorem uniform_divides (h : isUniformType planned = .ok true) :
    Divides planned (planned.map fst) [⟨planned.map fst, .uniformType planned⟩] := by
  refine ⟨by simp [layersOf], ?_⟩
  intro g hg
  obtain rfl := mem_singleton.1 hg
  refine ⟨?_, rfl, fun x hx => hx, h⟩
  intro hnil
  rw [map_eq_nil_iff.1 hnil] at h
  cases h

theorem unpackedGroups_divides [DecidableEq S]
    (h : unpackedGroups eff (eff.filter fun x => isHiddenState x.2) (eff.filter fun x => !isHiddenState x.2) =
      .ok groups) :
    ∃ planned names, PlannedFrom eff planned ∧ names.Perm (eff.map fst) ∧ Divides planned names groups := by
  unfold unpackedGroups at h
  split at h
  case h_1 msg _ =>
    obtain ⟨fallback, hfallback, h⟩ := bind_ok h
    cases fallback with
    | none => cases h
    | some fallback =>
      cases h
      unfold tryGetFullAllocationFallbackGroups at hfallback
      dsimp only at hfallback
      split at hfallback
      · cases hfallback
      split at hfallback
      · cases hfallback
      split at hfallback
      · cases hfallback
      split at hfallback
      · cases hfallback
      · cases hfallback
      rename_i promotedSpecs hpromoted
      obtain ⟨uniform, huniform, hfallback⟩ := bind_ok hfallback
      cases uniform with
      | false => cases hfallback
      | true =>
        cases hfallback
        exact ⟨promotedSpecs, _, .inr (.inr hpromoted),
          promoteLocalKvCacheSpecs_names hpromoted ▸ .refl _, uniform_divides huniform⟩
  case h_2 => cases h
  case h_3 unified hunified =>
    obtain ⟨grouped, hgrouped, h⟩ := bind_ok h
    have hd := addHiddenStates_divides h (getKvCacheGroupsUniformPageSize_divides hgrouped)
    rw [unifyKvCacheSpecPageSize_names hunified] at hd
    exact ⟨unified, _, .inr (.inl hunified), filter_hidden_perm eff, hd⟩

theorem getPackedKvCacheGroups_some (h : getPackedKvCacheGroups io specs = .ok (some groups)) :
    ∃ split gss, packedBuckets io specs = .ok (some split) ∧ groups = gss.flatten ∧
      Forall₂ (fun x gs => bucketGroups x.1 x.2 = .ok gs) split gss := by
  obtain ⟨packed, hpacked, h⟩ := bind_ok h
  cases packed with
  | none => cases h
  | some split =>
    obtain ⟨gss, hgss, h⟩ := bind_ok h
    cases h
    exact ⟨split, gss, hpacked, rfl, mapM_ok hgss⟩

theorem getPackedKvCacheGroups_none (h : getPackedKvCacheGroups io specs = .ok none) :
    io = false ∨ (distinct (specs.map fun x => pageSizeBytes x.2)).length ≤ 1 := by
  obtain ⟨packed, hpacked, h⟩ := bind_ok h
  cases packed with
  | some split =>
    obtain ⟨gss, _, h⟩ := bind_ok h
    cases h
  | none =>
    unfold packedBuckets at hpacked
    dsimp only at hpacked
    split at hpacked
    · assumption
    obtain ⟨buckets, _, hpacked⟩ := bind_ok hpacked
    obtain ⟨uniform, _, hpacked⟩ := bind_ok hpacked
    split at hpacked
    · cases hpacked
    obtain ⟨repeats, _, hpacked⟩ := bind_ok hpacked
    obtain ⟨split, _, hpacked⟩ := bind_ok hpacked
    cases hpacked

/-- What `get_kv_cache_groups` makes of the specs: groups of one type each, which hold all layers
exactly if no crowded bucket is unbalanced. -/
def Grouped (specs eff : SpecsOf S) (groups : List (KVCacheGroupSpec S)) : Prop :=
  ∃ planned, PlannedFrom eff planned ∧ WellTyped planned groups ∧
    ((layersOf groups).Perm (specs.map fst) ↔ ¬ LosesLayers cfg specs)

end

/-- A path that divides the layers and that no lost layer can come from. -/
theorem Divides.grouped (hd : Divides planned names groups)
    (heff : effectiveSpecs cfg specs = .ok eff) (hnames : names.Perm (eff.map fst))
    (hfrom : PlannedFrom eff planned) (hgood : ¬ LosesLayers cfg specs) : Grouped cfg specs eff groups :=
  ⟨planned, hfrom, hd.2, iff_of_true (effectiveSpecs_names heff ▸ hd.1.trans hnames) hgood⟩

/-- Packed groups, with the hidden states after them. -/
theorem packed_grouped {packed : List (KVCacheGroupSpec S)}
    (heff : effectiveSpecs cfg specs = .ok eff) (hmerge : isKvCacheSpecUniform eff = .ok false)
    (huniform : isUniformType eff = .ok false)
    (h : getPackedKvCacheGroups cfg.isBlockOutermost (eff.filter fun x => !isHiddenState x.2) = .ok (some packed)) :
    packed ≠ [] ∧ Grouped cfg specs eff (packed ++ (eff.filter fun x => isHiddenState x.2).map fun x =>
      ⟨[x.1], .one x.2⟩) := by
  obtain ⟨split, gss, hsplit, rfl, hgss⟩ := getPackedKvCacheGroups_some h
  obtain ⟨⟨hio, hpages⟩, buckets, repeats, hp⟩ := packedBuckets_some hsplit
  set filtered := eff.filter fun x => !isHiddenState x.2 with hfiltered
  set hidden := eff.filter fun x => isHiddenState x.2 with hhidden
  obtain ⟨htyped, hne, -, hkept, hlost⟩ := splitGroups_spec hgss (hp.ready (filter_subset_self eff))
  have hflat : (split.flatMap fst).Perm filtered := hp.flatMap_fst ▸ (uniformBuckets_spec hp.bucketed).1
  have hones : Forall₂ (fun (x : LayerName × S) (g : KVCacheGroupSpec S) => ∃ spec, g = ⟨[x.1], .one spec⟩)
      hidden (hidden.map fun x => ⟨[x.1], .one x.2⟩) :=
    forall₂_map_right_iff.2 (forall₂_same.2 fun x _ => ⟨x.2, rfl⟩)
  have hsingle := hiddenGroups_spec eff hones
  have hall := effectiveSpecs_names heff ▸ filter_hidden_perm eff
  -- the buckets that the split goes by are those the condition speaks of
  have hloses : LosesLayers cfg specs ↔ ∃ x ∈ split, ¬ Kept x := by
    rw [hp.kept_iff]
    constructor
    · rintro ⟨-, eff', buckets', repeats', heff', -, -, -, hb', hr', hbad⟩
      obtain rfl := ok.inj (heff.symm.trans heff')
      obtain rfl := ok.inj (hp.bucketed.symm.trans hb')
      obtain rfl := ok.inj (hp.repeated.symm.trans hr')
      exact hbad
    · intro hbad
      exact ⟨hio, eff, buckets, repeats, heff, hmerge, huniform, hpages, hp.bucketed, hp.repeated, hbad⟩
  refine ⟨hne ?_, eff, .inl rfl, wellTyped_append htyped hsingle.2, ?_, ?_⟩
  · intro hnil
    rw [hnil, flatMap_nil] at hflat
    rw [← hflat.nil_eq] at hpages
    exact absurd hpages (by simp [distinct])
  · intro hperm hbad
    have hlt := hlost (hloses.1 hbad)
    have hlen := (hperm.trans hall.symm).length_eq
    have hmapped : (filtered.map fst).length = (split.flatMap fst).length := by
      rw [length_map, hflat.length_eq]
    rw [layersOf_append, hsingle.1, length_append, length_append, ← hfiltered, ← hhidden, hmapped] at hlen
    omega
  intro hgood
  have hkeep : ∀ x ∈ split, Kept x := by
    intro x hx
    by_contra hnot
    exact hgood (hloses.2 ⟨x, hx, hnot⟩)
  rw [layersOf_append, hsingle.1]
  exact (((hkept hkeep).trans (hflat.map _)).append_right _).trans hall

/-- **What the grouping returns**, path by path. -/
theorem getKvCacheGroups_grouped [DecidableEq S] (h : getKvCacheGroups cfg specs = .ok groups) :
    ∃ eff, effectiveSpecs cfg specs = .ok eff ∧ Grouped cfg specs eff groups := by
  obtain ⟨eff, heff, h⟩ := bind_ok h
  refine ⟨eff, heff, ?_⟩
  have hreached : LosesLayers cfg specs → isKvCacheSpecUniform eff = .ok false ∧ isUniformType eff = .ok false := by
    rintro ⟨-, eff', _, _, heff', hm, hu, -⟩
    obtain rfl := ok.inj (heff.symm.trans heff')
    exact ⟨hm, hu⟩
  split at h
  case isTrue hnil =>
    cases h
    have hd : Divides eff [] ([] : List (KVCacheGroupSpec S)) := ⟨.refl _, nofun⟩
    refine hd.grouped heff ?_ (.inl rfl) ?_
    · rw [hnil]
      exact .refl _
    intro hbad
    have hm := (hreached hbad).1
    rw [hnil] at hm
    cases hm
  rename_i hne
  obtain ⟨merges, hmerge, h⟩ := bind_ok h
  cases merges with
  | true =>
    obtain ⟨hlayers, htyped⟩ := createKvCacheGroupSpecs_spec h (by
      intro names hn
      obtain rfl := mem_singleton.1 hn
      exact fun hnil => hne (map_eq_nil_iff.1 hnil))
    have hd : Divides eff (eff.map fst) groups := by
      refine ⟨?_, htyped⟩
      rw [hlayers, flatten_singleton]
    refine hd.grouped heff (.refl _) (.inl rfl) ?_
    intro hbad
    rw [(hreached hbad).1] at hmerge
    cases hmerge
  | false =>
    obtain ⟨uniform, huniform, h⟩ := bind_ok h
    cases uniform with
    | true =>
      cases h
      refine (uniform_divides huniform).grouped heff (.refl _) (.inl rfl) ?_
      intro hbad
      rw [(hreached hbad).2] at huniform
      cases huniform
    | false =>
      obtain ⟨packed, hpacked, h⟩ := bind_ok h
      cases packed with
      | some packed =>
        obtain ⟨hne, hgrouped⟩ := packed_grouped heff hmerge huniform hpacked
        cases packed with
        | nil => exact absurd rfl hne
        | cons g packed =>
          cases h
          exact hgrouped
      | none =>
        obtain ⟨planned, names, hfrom, hnames, hd⟩ := unpackedGroups_divides h
        refine hd.grouped heff hnames hfrom ?_
        rintro ⟨hio, eff', _, _, heff', -, -, hpages, -⟩
        obtain rfl := ok.inj (heff.symm.trans heff')
        rcases getPackedKvCacheGroups_none hpacked with hf | hle
        · cases hio.symm.trans hf
        · omega

/-- **The groups partition the layers** exactly if the packing meets no crowded bucket with
unequally many layers of its page sizes. -/
theorem getKvCacheGroups_partition [DecidableEq S] {cfg : GroupingConfig} {specs : SpecsOf S}
    {groups : List (KVCacheGroupSpec S)}
    (h : getKvCacheGroups cfg specs = .ok groups) : Partitions cfg specs groups ↔ ¬ LosesLayers cfg specs := by
  obtain ⟨eff, heff, planned, hfrom, htyped, hiff⟩ := getKvCacheGroups_grouped h
  constructor
  · intro hpart
    exact hiff.1 hpart.layers
  · intro hgood
    exact ⟨hiff.2 hgood, fun g hg => (htyped g hg).1, eff, planned, heff, hfrom, fun g hg => (htyped g hg).2⟩

end

/-! ### A full-attention layer and sliding-window layers of two page sizes -/

/-- Attention with 16 tokens a block and heads of 64 elements of 2 bytes: 4096 bytes a head and
block. -/
def attentionOf (numKvHeads : ℕ) : AttentionSpec :=
  { blockSize := 16, numKvHeads, headSize := 64, headSizeV := 64, dtypeSize := 2 }

/-- One layer of full attention with 4 heads, `m` and `n` sliding-window layers with 1 and 2. -/
def mixedWindows (m n : ℕ) : SpecsOf StandardSpec :=
  (0, .fullAttention (attentionOf 4) none none false) ::
    (range (m + n)).map fun i => (i + 1, .slidingWindow (attentionOf (if i < m then 1 else 2)) 1024 0)

def blockOutermost : GroupingConfig := ⟨false, true⟩

/-- **The last of three layers is in no group**: two groups are made of the layers with 1 head
and two of those with 2. -/
theorem getKvCacheGroups_loses : ∃ groups, getKvCacheGroups blockOutermost (mixedWindows 2 3) = .ok groups ∧
      (∀ g ∈ groups, 5 ∉ g.layerNames) ∧ 5 ∈ (mixedWindows 2 3).map fst ∧
      ¬ Partitions blockOutermost (mixedWindows 2 3) groups := by
  have hrun : ((getKvCacheGroups blockOutermost (mixedWindows 2 3)).toOption.map fun groups =>
      groups.map (·.layerNames)) = some [[0], [1, 3], [2, 4]] := by decide +kernel
  obtain ⟨groups, hgroups, hnames⟩ := Option.map_eq_some_iff.1 hrun
  have hlayers : layersOf groups = [0, 1, 3, 2, 4] := by
    unfold layersOf
    rw [flatMap_def, hnames]
    rfl
  have hmem : 5 ∈ (mixedWindows 2 3).map fst := by decide
  have hlost : ∀ g ∈ groups, 5 ∉ g.layerNames := by
    intro g hg h5
    have hin : 5 ∈ layersOf groups := mem_flatMap.2 ⟨g, hg, h5⟩
    rw [hlayers] at hin
    exact absurd hin (by decide)
  refine ⟨groups, Raise.ok_of_toOption hgroups, hlost, hmem, ?_⟩
  intro hpart
  obtain ⟨g, hg, h5⟩ := mem_flatMap.1 (hpart.layers.symm.subset hmem)
  exact hlost g hg h5

/-- With equally many layers of both sizes every layer has its group. -/
theorem getKvCacheGroups_balanced : ∃ groups, getKvCacheGroups blockOutermost (mixedWindows 3 3) = .ok groups ∧
      Partitions blockOutermost (mixedWindows 3 3) groups := by
  have hrun : ((getKvCacheGroups blockOutermost (mixedWindows 3 3)).toOption.map fun groups =>
      groups.map (·.layerNames)) = some [[0], [1, 2, 3, 4, 5, 6]] := by decide +kernel
  obtain ⟨groups, hgroups, -⟩ := Option.map_eq_some_iff.1 hrun
  have hok := Raise.ok_of_toOption hgroups
  refine ⟨groups, hok, (getKvCacheGroups_partition hok).2 ?_⟩
  rintro ⟨-, eff, buckets, repeats, heff, -, -, -, hbuckets, -, b, hb, hbal, -⟩
  cases heff
  have hall : ((uniformBuckets ((mixedWindows 3 3).filter fun x => !LayerSpec.isHiddenState x.2)).toOption.map
      fun bs => bs.all fun b => balanced b) = some true := by decide +kernel
  rw [hbuckets] at hall
  have hbalanced := all_eq_true.1 (Option.some.inj hall) b hb
  cases hbal.symm.trans hbalanced

end VllmRwkv
