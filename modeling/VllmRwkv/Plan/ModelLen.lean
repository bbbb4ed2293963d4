import VllmRwkv.Plan.Configs

/-!
# The longest model that fits

`_estimate_max_model_len_from_groups` tries lengths by writing them where the specs read them.
`estimateInPlace` is that program, with `max_model_len` for its state: it computes
`estimateMaxModelLenFromGroups` and puts the length back. The search is right because no spec takes less
memory in a longer model.
-/

namespace VllmRwkv

open List Raise LayerSpec PlanSpec

variable {α β : Type}

/-- Both raise the same error, or their results are related. -/
def Planned.Both (r : α → α → Prop) : Planned α → Planned α → Prop
  | .ok a, .ok b => r a b
  | .error e, .error e' => e = e'
  | _, _ => False

namespace Planned.Both

variable {r : α → α → Prop} {r' : β → β → Prop} {x y : Planned α}

theorem bind {k k' : α → Planned β} (h : Both r x y) (hk : ∀ a b, r a b → Both r' (k a) (k' b)) :
    Both r' (x >>= k) (y >>= k') :=
  match x, y, h with
  | .ok a, .ok b, h => hk a b h
  | .error _, .error _, h => h

theorem mapM {f g : β → Planned α} (h : ∀ b, Both r (f b) (g b)) (bs : List β) :
    Both (Forall₂ r) (bs.mapM f) (bs.mapM g) := by
  induction bs with
  | nil => exact .nil
  | cons b bs ih =>
    rw [mapM_cons, mapM_cons]
    exact (h b).bind fun _ _ ha => ih.bind fun _ _ hs => .cons ha hs

end Planned.Both

open Planned

theorem foldl_max_le {xs ys : List ℕ} (h : Forall₂ (· ≤ ·) xs ys) {a b : ℕ} (hab : a ≤ b) :
    xs.foldl max a ≤ ys.foldl max b := by
  induction h generalizing a b with
  | nil => exact hab
  | cons hxy _ ih => exact ih (max_le_max hab hxy)

section

variable {S : Type} [PlanSpec S] {layout : KVCacheLayout} {groups : List (KVCacheGroupSpec S)} {availableMemory : ℤ}

section

variable {m n : ℕ} (h : ∀ spec : S, Both (· ≤ ·) (maxMemoryUsageBytes m spec) (maxMemoryUsageBytes n spec))
include h

theorem maxMemoryUsagePages_both (g : KVCacheGroupSpec S) :
    Both (· ≤ ·) (maxMemoryUsagePages m g) (maxMemoryUsagePages n g) := by
  let pages : ℕ → S → Planned ℕ := fun len spec => do
    let bytes ← maxMemoryUsageBytes len spec
    if pageSizeBytes spec = 0 then throw .zeroDivisionError
    return cdiv bytes (pageSizeBytes spec)
  have hpages : ∀ spec, Both (· ≤ ·) (pages m spec) (pages n spec) := fun spec => (h spec).bind fun _ _ hle => by
    split
    · rfl
    · exact cdiv_le_cdiv _ hle
  unfold maxMemoryUsagePages
  split
  · exact hpages _
  · refine (Both.mapM (fun x : LayerName × S => hpages x.2) _).bind fun xs ys hle => ?_
    cases hle with
    | nil => rfl
    | cons hxy hrest =>
      rw [max?_cons', max?_cons']
      exact foldl_max_le hrest hxy

theorem maxMemoryUsageBytesFromGroups_both :
    Both (· ≤ ·) (maxMemoryUsageBytesFromGroups layout m groups) (maxMemoryUsageBytesFromGroups layout n groups) := by
  unfold maxMemoryUsageBytesFromGroups
  split
  · exact le_rfl
  refine Both.bind (r := Eq) ?_ fun pool _ hpool => (Both.mapM (maxMemoryUsagePages_both h) groups).bind
    fun _ _ hblocks => ?_
  · cases poolBytesPerBlock layout groups <;> rfl
  · subst hpool
    exact Nat.add_le_add_left (Nat.mul_le_mul_left _ hblocks.sum_le_sum) _

end

/-- What is true of a length is true of the shorter ones; an error is the error of all. -/
def Shrinks (ok : ℕ → Planned Bool) : Prop := ∀ m n, m ≤ n → Both (fun b b' : Bool => b' → b) (ok m) (ok n)

theorem fits_shrinks
    (h : ∀ m n, m ≤ n → ∀ spec : S, Both (· ≤ ·) (maxMemoryUsageBytes m spec) (maxMemoryUsageBytes n spec)) :
    Shrinks (fits layout groups availableMemory) := by
  refine fun m n hmn => (maxMemoryUsageBytesFromGroups_both (h m n hmn)).bind fun a b hab => ?_
  intro hb
  rw [decide_eq_true_eq] at hb ⊢
  omega

/-! ## The search -/

section

variable {ok : ℕ → Planned Bool} (hok : Shrinks ok)
include hok

theorem ok_of_le {m n : ℕ} (h : m ≤ n) (hn : ok n = .ok true) : ok m = .ok true := by
  have hrel := hok m n h
  cases hm : ok m <;> simp_all [Both]

theorem eq_error {m : ℕ} {e : PlanErr} (hm : ok m = .error e) (n : ℕ) : ok n = .error e := by
  rcases le_total m n with h | h
  · have hrel := hok m n h
    cases hn : ok n <;> simp_all [Both]
  · have hrel := hok n m h
    cases hn : ok n <;> simp_all [Both]

/-- The result fits, and nothing does above the interval that is left. -/
theorem estimateLoop_spec {bound fuel left right result : ℕ} (hfuel : right < left + fuel)
    (hleft : left ≤ result + 1) (hbound : right ≤ bound) (hresult : result ≤ bound) (hfits : ok result = .ok true)
    (hright : ∀ len ≤ bound, ok len = .ok true → len ≤ right) :
    ∃ n ≤ bound, estimateLoop ok fuel left right result = .ok n ∧ ∀ len ≤ bound, ok len = .ok true ↔ len ≤ n := by
  induction fuel generalizing left right result with
  | zero =>
    exact ⟨result, hresult, rfl, fun len hlen =>
      ⟨fun h => by have := hright len hlen h; omega, fun h => ok_of_le hok h hfits⟩⟩
  | succ fuel ih =>
    unfold estimateLoop
    split
    · exact ⟨result, hresult, rfl, fun len hlen =>
        ⟨fun h => by have := hright len hlen h; omega, fun h => ok_of_le hok h hfits⟩⟩
    have hless : ∀ len, ok ((left + right) / 2) ≠ .ok true → ok len = .ok true → len < (left + right) / 2 :=
      fun len hmid h => not_le.1 fun hle => hmid (ok_of_le hok hle h)
    dsimp only
    cases hmid : ok ((left + right) / 2) with
    | error e =>
      rw [eq_error hok hmid result] at hfits
      cases hfits
    | ok b => cases b with
      | true => exact ih (by omega) le_rfl hbound (by omega) hmid hright
      | false =>
        have hlt := fun len => hless len (by rw [hmid]; nofun)
        have hres := hlt result hfits
        exact ih (by omega) hleft (by omega) hresult hfits fun len _ h => Nat.le_sub_one_of_lt (hlt len h)

end

/-- The estimate is the greatest length that fits, or the error that every length raises. -/
theorem estimateMaxModelLenFromGroups_spec {originalMax : ℕ} (hmax : 0 < originalMax)
    (hok : Shrinks (fits layout groups availableMemory)) :
    match estimateMaxModelLenFromGroups layout originalMax groups availableMemory with
    | .ok n => n ≤ originalMax ∧
        ∀ len, 1 ≤ len → len ≤ originalMax → (fits layout groups availableMemory len = .ok true ↔ len ≤ n)
    | .error e => ∀ len, fits layout groups availableMemory len = .error e := by
  unfold estimateMaxModelLenFromGroups
  cases hone : fits layout groups availableMemory 1 with
  | error e => exact eq_error hok hone
  | ok b => cases b with
    | true =>
      obtain ⟨n, hn, hloop, hiff⟩ := estimateLoop_spec hok (show originalMax < 1 + (originalMax + 1) by omega) (by omega)
        le_rfl hmax hone fun len hlen _ => hlen
      simp only [bind, Except.bind, if_true, hloop]
      exact ⟨hn, fun len _ hlen => hiff len hlen⟩
    | false =>
      exact ⟨Nat.zero_le _, fun len hpos _ => iff_of_false (fun h => by
        have := ok_of_le hok hpos h
        rw [hone] at this
        cases this) (by omega)⟩

/-! ## The configuration is put back -/

section

variable (layout groups availableMemory)

/-- `fits`, which reads the length where it has written it. -/
def fitsInPlace (modelLen : ℕ) : EStateM PlanErr ℕ Bool := do
  set modelLen
  let maxModelLen ← get
  return (← MonadExcept.ofExcept (maxMemoryUsageBytesFromGroups layout maxModelLen groups)) ≤ availableMemory

def estimateLoopInPlace (ok : ℕ → EStateM PlanErr ℕ Bool) : ℕ → ℕ → ℕ → ℕ → EStateM PlanErr ℕ ℕ
  | 0, _, _, result => return result
  | fuel + 1, left, right, result => do
    if left > right then return result
    let mid := (left + right) / 2
    if ← ok mid then estimateLoopInPlace ok fuel (mid + 1) right mid
    else estimateLoopInPlace ok fuel left (mid - 1) result

/-- `_estimate_max_model_len_from_groups` on `vllm_config.model_config.max_model_len`. -/
def estimateInPlace : EStateM PlanErr ℕ ℕ := do
  let originalMax ← get
  try
    if ← fitsInPlace layout groups availableMemory 1 then
      estimateLoopInPlace (fitsInPlace layout groups availableMemory) (originalMax + 1) 1 originalMax 1
    else pure 0
  finally set originalMax

end

/-- Whatever length is configured, the program returns or raises what is planned. -/
def Computes (m : EStateM PlanErr ℕ α) (x : Planned α) : Prop :=
  ∀ s, wp m (fun a _ => x = .ok a) (fun e _ => x = .error e) s

theorem Computes.bind {m : EStateM PlanErr ℕ α} {x : Planned α} {f : α → EStateM PlanErr ℕ β} {k : α → Planned β}
    (h : Computes m x) (hf : ∀ a, Computes (f a) (k a)) : Computes (m >>= f) (x >>= k) := by
  intro s
  rw [wp_bind]
  refine wp_mono (h s) (fun a s' hx => ?_) fun e _ hx => ?_
  · rw [hx]
    exact hf a s'
  · rw [hx]
    rfl

theorem fitsInPlace_computes (len : ℕ) :
    Computes (fitsInPlace layout groups availableMemory len) (fits layout groups availableMemory len) := by
  intro s
  unfold fitsInPlace fits
  rw [wp_bind, wp_set, wp_get_bind]
  cases maxMemoryUsageBytesFromGroups layout len groups <;> rfl

theorem estimateLoopInPlace_computes {ok : ℕ → EStateM PlanErr ℕ Bool} {ok' : ℕ → Planned Bool}
    (h : ∀ len, Computes (ok len) (ok' len)) (fuel left right result : ℕ) :
    Computes (estimateLoopInPlace ok fuel left right result) (estimateLoop ok' fuel left right result) := by
  induction fuel generalizing left right result with
  | zero => exact fun _ => rfl
  | succ fuel ih =>
    unfold estimateLoopInPlace estimateLoop
    split
    · exact fun _ => rfl
    · refine (h _).bind fun b => ?_
      cases b
      · exact ih _ _ _
      · exact ih _ _ _

/-- The length that was configured is configured again, whatever happened. -/
theorem estimateInPlace_restores (originalMax : ℕ) : wp (estimateInPlace layout groups availableMemory)
      (fun n s => s = originalMax ∧ estimateMaxModelLenFromGroups layout originalMax groups availableMemory = .ok n)
      (fun e s => s = originalMax ∧ estimateMaxModelLenFromGroups layout originalMax groups availableMemory = .error e)
      originalMax := by
  have hfinally : ∀ {Q R} (m : EStateM PlanErr ℕ ℕ), wp m (fun a _ => Q a originalMax) (fun e _ => R e originalMax)
      originalMax → wp (tryFinally m (set originalMax)) Q R originalMax := by
    intro Q R m h
    unfold wp at h ⊢
    simp only [tryFinally, tryFinally', Functor.map, EStateM.map]
    cases hm : m originalMax <;> rw [hm] at h <;> exact h
  unfold estimateInPlace
  rw [wp_get_bind]
  refine hfinally _ (wp_mono (Computes.bind (fitsInPlace_computes 1) (fun b => ?_) originalMax)
    (fun _ _ h => ⟨rfl, h⟩) fun _ _ h => ⟨rfl, h⟩)
  cases b
  · exact fun _ => rfl
  · exact estimateLoopInPlace_computes fitsInPlace_computes _ _ _ _

end

/-! ## The spec classes -/

namespace StandardSpec

section

variable (maxInFlightTokens : ℕ) (align : Bool)

theorem maxMemoryUsageBytes_mono (spec : StandardSpec) {m n : ℕ} (h : m ≤ n) :
    maxMemoryUsageBytes maxInFlightTokens align m spec ≤ maxMemoryUsageBytes maxInFlightTokens align n spec := by
  cases spec with
  | fullAttention => exact Nat.mul_le_mul_right _ (cdiv_le_cdiv _ h)
  | slidingWindow => exact Nat.mul_le_mul_right _ (Nat.succ_le_succ (cdiv_le_cdiv _ (min_le_min_left _ h)))
  | chunkedLocalAttention => exact Nat.mul_le_mul_right _ (cdiv_le_cdiv _ (min_le_min_left _ h))
  | circularBuffer | mamba => exact le_rfl

/-- **The estimate is the greatest length that fits**, and zero if none does; the configured length is put
back. It raises only what it raises for every length. -/
theorem estimate_optimal (layout : KVCacheLayout)
    (groups : List (KVCacheGroupSpec StandardSpec)) (availableMemory : ℤ) {originalMax : ℕ} (hmax : 0 < originalMax) :
    let _ := planSpec maxInFlightTokens align
    wp (estimateInPlace layout groups availableMemory)
      (fun n maxModelLen => maxModelLen = originalMax ∧ n ≤ originalMax ∧
        ∀ len, 1 ≤ len → len ≤ originalMax → (fits layout groups availableMemory len = .ok true ↔ len ≤ n))
      (fun e maxModelLen => maxModelLen = originalMax ∧ ∀ len, fits layout groups availableMemory len = .error e)
      originalMax := by
  intro _
  have hok : Shrinks (fits layout groups availableMemory) :=
    fits_shrinks fun m n h spec => maxMemoryUsageBytes_mono maxInFlightTokens align spec h
  have hspec := estimateMaxModelLenFromGroups_spec hmax hok
  refine wp_mono (estimateInPlace_restores originalMax) ?_ ?_
  · rintro n _ ⟨hs, heq⟩
    rw [heq] at hspec
    exact ⟨hs, hspec⟩
  · rintro e _ ⟨hs, heq⟩
    rw [heq] at hspec
    exact ⟨hs, hspec⟩

end

/-- Blocks of four tokens, eight bytes each. -/
def smallGroup : KVCacheGroupSpec StandardSpec :=
  ⟨[0], .one (.fullAttention { blockSize := 4, numKvHeads := 1, headSize := 1, headSizeV := 1, dtypeSize := 1 } none none
    false)⟩

theorem estimate_optimal_eight :
    let _ := planSpec 16 true
    wp (estimateInPlace .LBNHC [smallGroup] 20) (fun n maxModelLen => maxModelLen = 64 ∧
      ∀ len, 1 ≤ len → len ≤ 64 → (fits .LBNHC [smallGroup] 20 len = .ok true ↔ len ≤ n)) any 64 :=
  wp_mono (estimate_optimal 16 true .LBNHC [smallGroup] 20 (by decide)) (fun _ _ h => ⟨h.1, h.2.2⟩) fun _ _ _ => trivial

end StandardSpec

end VllmRwkv
