import VllmRwkv.Cache.Hit
import VllmRwkv.Cache.Predict

/-!
# What a lookup returns

One spec for the four classes: a lookup returns, within the length it was given and at an aligned
length, rows that cover the tokens of the hit. A row is either the row of one of the request's own
hashes, or null at a position the attention of the class does not reach from the end of the hit.
(Chunked local attention in blocks that do not fit its chunks is the exception, see `nullsBefore`.)
A lookup that drops a block for EAGLE has seen the block after its hit.
-/

namespace VllmRwkv

open List

variable {H : Type}

theorem lt_cdiv_iff {i length b : ℕ} (hb : 0 < b) : i < cdiv length b ↔ i * b < length := by
  unfold cdiv
  rw [Nat.lt_iff_add_one_le, Nat.le_div_iff_mul_le hb, Nat.add_mul]
  omega

theorem cdiv_mul_self {b : ℕ} (hb : 0 < b) (k : ℕ) : cdiv (k * b) b = k := by
  apply le_antisymm
  · by_contra hlt
    have := (lt_cdiv_iff hb).1 (not_le.1 hlt)
    omega
  · cases k with
    | zero => exact Nat.zero_le _
    | succ k => exact (lt_cdiv_iff hb).2 (Nat.mul_lt_mul_of_pos_right (Nat.lt_succ_self k) hb)

section

variable (spec : KVCacheSpec)

/-- The first token that the next token of a request with `length` computed tokens attends to. -/
def KVCacheSpec.neededFrom (length : ℕ) : ℕ :=
  match spec with
  | .fullAttention => 0
  | .slidingWindow window _ => length + 1 - window
  | .chunkedLocalAttention chunk => length / chunk * chunk
  | .mamba .. => length - 1

/-- The token before which a lookup in blocks of the given size may return null blocks. A chunk that
begins inside a block takes the whole block with it. -/
def KVCacheSpec.nullsBefore (blockSize length : ℕ) : ℕ :=
  match spec with
  | .chunkedLocalAttention chunk => if blockSize ∣ chunk then length / chunk * chunk else length
  | _ => spec.neededFrom length

theorem KVCacheSpec.nullsBefore_eq {spec : KVCacheSpec} {blockSize : ℕ} (length : ℕ)
    (h : ∀ chunk, spec = .chunkedLocalAttention chunk → blockSize ∣ chunk) :
    spec.nullsBefore blockSize length = spec.neededFrom length := by
  cases spec with
  | chunkedLocalAttention chunk => exact if_pos (h chunk rfl)
  | _ => rfl

/-- The class drops a block of its hit for EAGLE: `MambaManager` ignores the flag. -/
def KVCacheSpec.dropsEagleBlock : Bool :=
  match spec with
  | .mamba .. => false
  | _ => true

end

namespace LookupArgs

variable (a : LookupArgs H) (p : BlockPool H)

/-- The arguments the coordinators pass. -/
structure WellFormed : Prop where
  hashBlockSize_pos : 0 < p.hashBlockSize
  blockSize_pos : 0 < a.blockSize
  dvd : p.hashBlockSize ∣ a.blockSize
  alignment_pos : 0 < a.alignmentTokens
  aligned : a.blockSize ∣ a.alignmentTokens ∨ a.alignmentTokens = p.hashBlockSize
  hashed : a.maxLength / p.hashBlockSize ≤ a.blockHashes.length

/-- The row of the hash that ends at token `j * hash_block_size`. -/
def boundaryRow (j : ℕ) : Option (List KVCacheBlock) := (a.blockHashes[j - 1]?).bind (a.cachedRow p)

/-- `row` is cached under a hash of the request that ends in block `i`, not before the first `length`
tokens do. -/
def Backs (length i : ℕ) (row : List KVCacheBlock) : Prop :=
  ∃ j, i * a.blockSize < j * p.hashBlockSize ∧ j * p.hashBlockSize ≤ (i + 1) * a.blockSize ∧
    min length ((i + 1) * a.blockSize) ≤ j * p.hashBlockSize ∧ a.boundaryRow p j = some row

/-- The block that follows the first `length` tokens is cached, or its next unit when hits may end
inside a block. -/
def Follows (length : ℕ) : Prop :=
  ∃ j, min (length + min a.alignmentTokens a.blockSize) ((length / a.blockSize + 1) * a.blockSize) ≤
      j * p.hashBlockSize ∧
    j * p.hashBlockSize ≤ (length / a.blockSize + 1) * a.blockSize ∧ (a.boundaryRow p j).isSome

/-- `rows` are the rows of the first `length` tokens, those before token `neededFrom` perhaps null. -/
structure Covers (neededFrom : ℕ) (rows : List (List KVCacheBlock)) (length : ℕ) : Prop where
  length_eq : rows.length = cdiv length a.blockSize
  row : ∀ i row, rows[i]? = some row → a.Backs p length i row ∨ row = a.nullRow p ∧ (i + 1) * a.blockSize ≤ neededFrom

/-- What every lookup returns. -/
structure Finds (spec : KVCacheSpec) (hit : Hit) : Prop where
  le_max : hit.2 ≤ a.maxLength
  aligned : a.alignmentTokens ∣ hit.2
  covers : a.Covers p (spec.nullsBefore a.blockSize hit.2) hit.1 hit.2
  follows : a.dropEagleBlock → spec.dropsEagleBlock → 0 < hit.2 →
    hit.2 + min a.alignmentTokens a.blockSize ≤ a.maxLength ∧ a.Follows p hit.2

variable {a p} {rows : List (List KVCacheBlock)} {row : List KVCacheBlock} {view : List H} {i neededFrom length : ℕ}

theorem Backs.mono {length' : ℕ} (h : a.Backs p length i row) (hle : length' ≤ length) : a.Backs p length' i row := by
  obtain ⟨j, h1, h2, h3, h4⟩ := h
  exact ⟨j, h1, h2, by omega, h4⟩

section

variable {length' : ℕ} (h : a.Covers p 0 rows length) (hpos : 0 < a.blockSize)

include h hpos

/-- Rows without nulls also cover every shorter length. -/
theorem Covers.take (hle : length' ≤ length) : a.Covers p 0 (rows.take (cdiv length' a.blockSize)) length' := by
  constructor
  · rw [length_take, h.length_eq]
    exact min_eq_left (cdiv_le_cdiv _ hle)
  intro i row hi
  have hrow : rows[i]? = some row := by
    rw [getElem?_take] at hi
    split at hi
    · exact hi
    · cases hi
  rcases h.row i row hrow with hb | hn
  · exact .inl (hb.mono hle)
  · have : 0 < (i + 1) * a.blockSize := Nat.mul_pos (Nat.succ_pos i) hpos
    omega

/-- Rows without nulls follow every length that is shorter by a block or unit. -/
theorem Covers.follows (hlt : length' < length)
    (hle : length' + min a.alignmentTokens a.blockSize ≤ length) : a.Follows p length' := by
  have hi : length' / a.blockSize < rows.length := by
    rw [h.length_eq, lt_cdiv_iff hpos]
    exact lt_of_le_of_lt (Nat.div_mul_le_self _ _) hlt
  rcases h.row _ _ (getElem?_eq_getElem hi) with ⟨j, h1, h2, h3, h4⟩ | hn
  · exact ⟨j, le_trans (min_le_min_right _ hle) h3, h2, by rw [h4]; rfl⟩
  · have : 0 < (length' / a.blockSize + 1) * a.blockSize := Nat.mul_pos (Nat.succ_pos _) hpos
    omega

end

/-! ## The hash view at block size -/

variable (a p) in
/-- `view` lists, for every full block of the given length, the hash that ends the block. -/
def Views (view : List H) : Prop :=
  ∀ i < a.maxLength / a.blockSize, ∃ h, view[i]? = some h ∧
    a.boundaryRow p ((i + 1) * (a.blockSize / p.hashBlockSize)) = a.cachedRow p h

variable {k : ℕ}

theorem getElem?_filterMap_range {α : Type} {f : ℕ → Option α}
    (hf : ∀ i < k, (f i).isSome) (i : ℕ) (hi : i < k) : ((range k).filterMap f)[i]? = f i := by
  have hlen : ∀ m ≤ k, ((range m).filterMap f).length = m := by
    intro m hm
    induction m with
    | zero => rfl
    | succ m ih =>
      obtain ⟨x, hx⟩ := Option.isSome_iff_exists.1 (hf m (by omega))
      rw [range_succ, filterMap_append, length_append, ih (by omega)]
      simp [hx]
  induction k with
  | zero => omega
  | succ k ih =>
    obtain ⟨x, hx⟩ := Option.isSome_iff_exists.1 (hf k (by omega))
    rw [range_succ, filterMap_append]
    by_cases hik : i < k
    · rw [getElem?_append_left (by rw [hlen k (by omega)]; exact hik)]
      exact ih (fun i hi => hf i (by omega)) hik fun m hm => hlen m (by omega)
    · obtain rfl : i = k := by omega
      rw [getElem?_append_right (by rw [hlen i (by omega)]), hlen i (by omega)]
      simp [hx]

/-- The hash view at `block_size` lists the hashes that end its blocks. -/
theorem resolveBlockHashes_getElem? (blockHashes : List H) {hashBlockSize blockSize : ℕ}
    (hpos : 0 < hashBlockSize) (hsize : 0 < blockSize) (hdvd : hashBlockSize ∣ blockSize) :
    ∃ view, BlockPool.resolveBlockHashes blockHashes hashBlockSize blockSize = .ok view ∧
      ∀ i : ℕ, view[i]? = blockHashes[(i + 1) * (blockSize / hashBlockSize) - 1]? := by
  unfold BlockPool.resolveBlockHashes
  by_cases heq : blockSize = hashBlockSize
  · refine ⟨_, if_pos heq, fun i => ?_⟩
    rw [heq, Nat.div_self hpos, mul_one, Nat.add_sub_cancel]
  rw [if_neg heq, if_pos (Nat.mod_eq_zero_of_dvd hdvd)]
  refine ⟨_, rfl, fun i => ?_⟩
  have hscale : 0 < blockSize / hashBlockSize := Nat.div_pos (Nat.le_of_dvd hsize hdvd) hpos
  have hmul : 0 < (i + 1) * (blockSize / hashBlockSize) := Nat.mul_pos (Nat.succ_pos i) hscale
  have hsome : ∀ i < blockHashes.length / (blockSize / hashBlockSize),
      (i + 1) * (blockSize / hashBlockSize) - 1 < blockHashes.length := by
    intro i hi
    have hle : (i + 1) * (blockSize / hashBlockSize) ≤ blockHashes.length := (Nat.le_div_iff_mul_le hscale).1 hi
    have hpos : 0 < (i + 1) * (blockSize / hashBlockSize) := Nat.mul_pos (Nat.succ_pos i) hscale
    omega
  by_cases hi : i < blockHashes.length / (blockSize / hashBlockSize)
  · exact getElem?_filterMap_range (fun k hk => by rw [getElem?_eq_getElem (hsome k hk)]; rfl) i hi
  have hout : blockHashes.length ≤ (i + 1) * (blockSize / hashBlockSize) - 1 := by
    have := (Nat.div_lt_iff_lt_mul hscale).1 (Nat.lt_succ_of_le (not_lt.1 hi))
    change blockHashes.length < (i + 1) * (blockSize / hashBlockSize) at this
    omega
  rw [getElem?_eq_none hout, getElem?_eq_none]
  refine le_trans (length_filterMap_le _ _) ?_
  rw [length_range]
  exact not_lt.1 hi

theorem resolveBlockHashes_views (h : a.WellFormed p) :
    ∃ view, BlockPool.resolveBlockHashes a.blockHashes p.hashBlockSize a.blockSize = .ok view ∧ a.Views p view := by
  set scale := a.blockSize / p.hashBlockSize
  obtain ⟨view, hview, hget⟩ := resolveBlockHashes_getElem? a.blockHashes h.hashBlockSize_pos h.blockSize_pos h.dvd
  refine ⟨view, hview, fun i hi => ?_⟩
  have hscale : 0 < a.blockSize / p.hashBlockSize :=
    Nat.div_pos (Nat.le_of_dvd h.blockSize_pos h.dvd) h.hashBlockSize_pos
  have hmul : p.hashBlockSize * scale = a.blockSize := Nat.mul_div_cancel' h.dvd
  have hfull : a.maxLength / a.blockSize ≤ a.blockHashes.length / scale :=
    calc a.maxLength / a.blockSize = a.maxLength / p.hashBlockSize / scale := by
          rw [Nat.div_div_eq_div_mul, hmul]
      _ ≤ _ := Nat.div_le_div_right h.hashed
  have hle : (i + 1) * scale ≤ a.blockHashes.length :=
    (Nat.le_div_iff_mul_le hscale).1 (lt_of_lt_of_le hi hfull)
  have hpos : 0 < (i + 1) * scale := Nat.mul_pos (Nat.succ_pos i) hscale
  have hlt : (i + 1) * scale - 1 < a.blockHashes.length := by omega
  refine ⟨_, (hget i).trans (getElem?_eq_getElem hlt), ?_⟩
  unfold boundaryRow
  rw [getElem?_eq_getElem hlt, Option.bind_some]

/-! ## Rows of full blocks -/

variable (a p) in
/-- Rows of full blocks: null before block `first`, and from there on cached under the hash at the end
of their block. -/
structure Scanned (first : ℕ) (rows : List (List KVCacheBlock)) : Prop where
  length_le : rows.length ≤ a.maxLength / a.blockSize
  null : ∀ i row, rows[i]? = some row → i < first → row = a.nullRow p
  cached : ∀ i row, rows[i]? = some row → first ≤ i →
    a.boundaryRow p ((i + 1) * (a.blockSize / p.hashBlockSize)) = some row

namespace Scanned

variable {first : ℕ} {rows : List (List KVCacheBlock)}

theorem take (h : a.Scanned p first rows) (k : ℕ) : a.Scanned p first (rows.take k) := by
  have hsub : ∀ (i : ℕ) row, (rows.take k)[i]? = some row → rows[i]? = some row := by
    intro i row hi
    rw [getElem?_take] at hi
    split at hi
    · exact hi
    · cases hi
  refine ⟨?_, fun i row hi => h.null i row (hsub i row hi), fun i row hi => h.cached i row (hsub i row hi)⟩
  rw [length_take]
  exact le_trans (min_le_right _ _) h.length_le

theorem replicate_append (hlen : i + rows.length ≤ a.maxLength / a.blockSize) (hrows : ∀ k row, rows[k]? = some row →
      a.boundaryRow p ((i + k + 1) * (a.blockSize / p.hashBlockSize)) = some row) :
    a.Scanned p i (replicate i (a.nullRow p) ++ rows) := by
  refine ⟨?_, fun k row hk hki => ?_, fun k row hk hki => ?_⟩
  · rw [length_append, length_replicate]
    exact hlen
  · rw [getElem?_append_left (by rw [length_replicate]; exact hki), getElem?_replicate_of_lt hki] at hk
    exact (Option.some.inj hk).symm
  rw [getElem?_append_right (by rw [length_replicate]; exact hki), length_replicate] at hk
  have hrow := hrows _ row hk
  rwa [Nat.add_sub_cancel' hki] at hrow

variable (h : a.Scanned p first rows)

include h

theorem mul_le : rows.length * a.blockSize ≤ a.maxLength :=
  le_trans (Nat.mul_le_mul_right _ h.length_le) (Nat.div_mul_le_self _ _)

variable (hw : a.WellFormed p)

include hw

theorem backs (hi : rows[i]? = some row) (hfirst : first ≤ i) (length : ℕ) : a.Backs p length i row := by
  have hend : (i + 1) * (a.blockSize / p.hashBlockSize) * p.hashBlockSize = (i + 1) * a.blockSize := by
    rw [mul_assoc, Nat.div_mul_cancel hw.dvd]
  refine ⟨_, ?_, le_of_eq hend, ?_, h.cached i row hi hfirst⟩
  · rw [hend]
    exact Nat.mul_lt_mul_of_pos_right (Nat.lt_succ_self i) hw.blockSize_pos
  · rw [hend]
    exact min_le_right _ _

section

variable (hfirst : first * a.blockSize ≤ neededFrom)

include hfirst

theorem backs_or_null (hi : rows[i]? = some row) (length : ℕ) :
    a.Backs p length i row ∨ row = a.nullRow p ∧ (i + 1) * a.blockSize ≤ neededFrom := by
  by_cases hlt : i < first
  · exact .inr ⟨h.null i row hi hlt, le_trans (Nat.mul_le_mul_right _ hlt) hfirst⟩
  · exact .inl (h.backs hw hi (not_lt.1 hlt) length)

theorem covers : a.Covers p neededFrom rows (rows.length * a.blockSize) :=
  ⟨(cdiv_mul_self hw.blockSize_pos _).symm, fun _ _ hi => h.backs_or_null hw hfirst hi _⟩

/-- Rows of full blocks, and the row of a hash that ends inside the block after them. -/
theorem covers_append {j : ℕ} (hlo : rows.length * a.blockSize < j * p.hashBlockSize)
    (hhi : j * p.hashBlockSize ≤ (rows.length + 1) * a.blockSize) (hrow : a.boundaryRow p j = some row) :
    a.Covers p neededFrom (rows ++ [row]) (j * p.hashBlockSize) := by
  constructor
  · rw [length_append, length_singleton]
    apply le_antisymm
    · exact (lt_cdiv_iff hw.blockSize_pos).2 hlo
    · by_contra hlt
      have := (lt_cdiv_iff hw.blockSize_pos).1 (not_le.1 hlt)
      omega
  intro i row' hi
  by_cases hlt : i < rows.length
  · rw [getElem?_append_left hlt] at hi
    exact h.backs_or_null hw hfirst hi _
  have hlast := (List.getElem?_eq_some_iff.1 hi).1
  rw [length_append, length_singleton] at hlast
  obtain rfl : i = rows.length := by omega
  rw [getElem?_append_right le_rfl, Nat.sub_self] at hi
  obtain rfl : row = row' := Option.some.inj hi
  exact .inl ⟨j, hlo, hhi, min_le_left _ _, hrow⟩

end

theorem follows (hk : k < rows.length) (hfirst : first ≤ k) : a.Follows p (k * a.blockSize) := by
  have hrow := h.cached k _ (getElem?_eq_getElem hk) hfirst
  have hend : (k + 1) * (a.blockSize / p.hashBlockSize) * p.hashBlockSize =
      (k * a.blockSize / a.blockSize + 1) * a.blockSize := by
    rw [mul_assoc, Nat.div_mul_cancel hw.dvd, Nat.mul_div_cancel _ hw.blockSize_pos]
  exact ⟨_, hend ▸ min_le_right _ _, hend.le, by rw [hrow]; rfl⟩

end Scanned

theorem popUnaligned_spec (rows : List (List KVCacheBlock)) :
    ∃ k ≤ rows.length, a.popUnaligned rows = rows.take k ∧ a.alignmentTokens ∣ k * a.blockSize := by
  have hgo : ∀ k, popUnaligned.go a k ≤ k ∧ a.alignmentTokens ∣ popUnaligned.go a k * a.blockSize := by
    intro k
    induction k with
    | zero => exact ⟨le_rfl, by simp [popUnaligned.go]⟩
    | succ k ih =>
      unfold popUnaligned.go
      split_ifs with hmod
      · exact ⟨le_rfl, Nat.dvd_of_mod_eq_zero hmod⟩
      · exact ⟨Nat.le_succ_of_le ih.1, ih.2⟩
  unfold popUnaligned
  split_ifs with heq
  · exact ⟨rows.length, le_rfl, (take_length).symm, heq ▸ dvd_mul_left _ _⟩
  · exact ⟨_, (hgo _).1, rfl, (hgo _).2⟩

theorem popUnaligned_eq_self (h : a.alignmentTokens ∣ rows.length * a.blockSize) : a.popUnaligned rows = rows := by
  unfold popUnaligned
  split
  · rfl
  have hgo : popUnaligned.go a rows.length = rows.length := by
    cases hlen : rows.length with
    | zero => rfl
    | succ k =>
      rw [hlen] at h
      exact if_pos (Nat.mod_eq_zero_of_dvd h)
  rw [hgo, take_length]

/-! ## Full attention -/

theorem cachedRun_scanned (hv : a.Views p view) :
    a.Scanned p 0 (a.cachedRun p (view.take (a.maxLength / a.blockSize))) := by
  have hrun : ∀ hs : List H, (a.cachedRun p hs).length ≤ hs.length ∧
      ∀ (i : ℕ) row, (a.cachedRun p hs)[i]? = some row → (hs[i]?).bind (a.cachedRow p) = some row := by
    intro hs
    induction hs with
    | nil => exact ⟨le_rfl, nofun⟩
    | cons h hs ih =>
      unfold cachedRun
      cases hc : a.cachedRow p h with
      | none => exact ⟨Nat.zero_le _, nofun⟩
      | some row =>
        refine ⟨Nat.succ_le_succ ih.1, fun i row' hi => ?_⟩
        cases i with
        | zero =>
          rw [← hi]
          exact hc
        | succ i => exact ih.2 i row' hi
  obtain ⟨hlen, hrow⟩ := hrun (view.take (a.maxLength / a.blockSize))
  have hle := le_trans hlen (length_take_le _ _)
  refine ⟨hle, fun i _ _ hi => absurd hi (Nat.not_lt_zero i), fun i row hi _ => ?_⟩
  have hlt : i < a.maxLength / a.blockSize := lt_of_lt_of_le (List.getElem?_eq_some_iff.1 hi).1 hle
  obtain ⟨h, hh, hb⟩ := hv i hlt
  have hbind := hrow i row hi
  rw [getElem?_take_of_lt hlt, hh, Option.bind_some] at hbind
  rw [hb, hbind]

theorem lastCached_spec {hashes : List H} {first bound : ℕ} (h : a.lastCached p hashes first bound = some (i, row)) :
    first ≤ i ∧ i < bound ∧ (hashes[i]?).bind (a.cachedRow p) = some row := by
  induction bound with
  | zero => cases h
  | succ k ih =>
    unfold lastCached at h
    split at h
    · cases h
    split at h
    next hk _ hrow =>
      cases h
      exact ⟨by omega, Nat.lt_succ_self _, hrow⟩
    · obtain ⟨h1, h2, h3⟩ := ih h
      exact ⟨h1, by omega, h3⟩

/-- Dropping a block for EAGLE and rounding down keeps rows without nulls a hit. -/
theorem Covers.finds (h : a.Covers p 0 rows length) (hw : a.WellFormed p) (hmax : length ≤ a.maxLength)
    (hmin : 0 < length → min a.alignmentTokens a.blockSize ≤ length) :
    let dropped := if a.dropEagleBlock ∧ length > 0 then length - min a.alignmentTokens a.blockSize
      else length
    let hitLength := dropped - dropped % a.alignmentTokens
    a.Finds p .fullAttention (rows.take (cdiv hitLength a.blockSize), hitLength) := by
  intro dropped hitLength
  have hle : hitLength ≤ dropped := Nat.sub_le _ _
  have hdrop : dropped ≤ length := by
    show (if _ then _ else _) ≤ _
    split
    · exact Nat.sub_le _ _
    · exact le_rfl
  refine ⟨by omega, ?_, h.take hw.blockSize_pos (by omega), fun he _ hpos => ?_⟩
  · exact Nat.dvd_sub_mod _
  have hlt : dropped + min a.alignmentTokens a.blockSize = length := by
    show (if _ then _ else _) + _ = _
    rw [if_pos ⟨he, by omega⟩]
    have := hmin (by omega)
    omega
  have hmargin : 0 < min a.alignmentTokens a.blockSize := lt_min hw.alignment_pos hw.blockSize_pos
  have hle' : hitLength + min a.alignmentTokens a.blockSize ≤ length := by omega
  exact ⟨le_trans hle' hmax, h.follows hw.blockSize_pos (lt_of_lt_of_le (by omega) hle') hle'⟩

theorem WellFormed.of_fineGrained (hw : a.WellFormed p) (hf : a.fineGrained) :
    a.alignmentTokens = p.hashBlockSize ∧ p.hashBlockSize < a.blockSize := by
  unfold fineGrained at hf
  rw [Bool.and_eq_true, decide_eq_true_eq, decide_eq_true_eq] at hf
  rcases hw.aligned with hdvd | heq
  · have := Nat.le_of_dvd hw.alignment_pos hdvd
    omega
  · exact ⟨heq, heq ▸ hf.1⟩

theorem resolveBlockHashes_fineGrained (hw : a.WellFormed p) (hf : a.fineGrained) :
    a.resolveBlockHashes p true = .ok a.blockHashes := by
  have hne : a.blockSize ≠ p.hashBlockSize := by
    have := (hw.of_fineGrained hf).2
    omega
  unfold resolveBlockHashes
  rw [if_pos (by simp [hne, hf])]

theorem resolveBlockHashes_full {supports : Bool} (hf : supports = false ∨ a.fineGrained = false) :
    a.resolveBlockHashes p supports = BlockPool.resolveBlockHashes a.blockHashes p.hashBlockSize a.blockSize := by
  unfold resolveBlockHashes
  rw [if_neg (by rcases hf with hf | hf <;> simp [hf])]

/-- Units of hash blocks and blocks: `i` is one of the units of block `k`. -/
theorem WellFormed.unit_in_block (hw : a.WellFormed p)
    (hlo : k * (a.blockSize / p.hashBlockSize) ≤ i) (hhi : i < (k + 1) * (a.blockSize / p.hashBlockSize)) :
    k * a.blockSize < (i + 1) * p.hashBlockSize ∧ (i + 1) * p.hashBlockSize ≤ (k + 1) * a.blockSize := by
  have hblock : ∀ m, m * a.blockSize = m * (a.blockSize / p.hashBlockSize) * p.hashBlockSize :=
    fun m => by rw [Nat.mul_assoc, Nat.div_mul_cancel hw.dvd]
  rw [hblock, hblock]
  exact ⟨Nat.mul_lt_mul_of_pos_right (by omega) hw.hashBlockSize_pos, Nat.mul_le_mul_right _ hhi⟩

theorem fullFindLongestCacheHit_finds (hw : a.WellFormed p) :
    ∃ hit, a.fullFindLongestCacheHit p = .ok hit ∧ a.Finds p .fullAttention hit := by
  obtain ⟨view, hview, hv⟩ := resolveBlockHashes_views hw
  have hrun := cachedRun_scanned hv
  unfold fullFindLongestCacheHit
  generalize hr : a.cachedRun p (view.take (a.maxLength / a.blockSize)) = run at hrun
  have hfull : 0 < run.length * a.blockSize → min a.alignmentTokens a.blockSize ≤ run.length * a.blockSize := by
    intro hpos
    exact le_trans (min_le_right _ _) (Nat.le_mul_of_pos_left _ (Nat.pos_of_mul_pos_right hpos))
  cases hf : a.fineGrained with
  | false =>
    rw [resolveBlockHashes_full (.inr hf), hview]
    simp only [bind, Except.bind, Bool.false_eq_true, if_false, hr]
    exact ⟨_, rfl, (hrun.covers hw (by omega)).finds hw hrun.mul_le hfull⟩
  | true =>
    obtain ⟨hal, hlt⟩ := hw.of_fineGrained hf
    have hview' : BlockPool.resolveBlockHashes a.blockHashes a.alignmentTokens a.blockSize = .ok view := by
      rw [hal, hview]
    rw [resolveBlockHashes_fineGrained hw hf]
    simp only [bind, Except.bind, if_true, hview', hr]
    split
    next i row hlast =>
      obtain ⟨hlo, hhi, hrow⟩ := lastCached_spec hlast
      have hmax : (i + 1) * a.alignmentTokens ≤ a.maxLength :=
        (Nat.le_div_iff_mul_le hw.alignment_pos).1 (by omega)
      have hcov : a.Covers p 0 (run ++ [row]) ((i + 1) * a.alignmentTokens) := by
        rw [hal] at hlo hhi ⊢
        obtain ⟨h1, h2⟩ := hw.unit_in_block hlo (by rw [Nat.add_mul, Nat.one_mul]; omega)
        exact hrun.covers_append hw (by omega) h1 h2 hrow
      refine ⟨_, rfl, hcov.finds hw hmax fun _ => le_trans (min_le_left _ _) ?_⟩
      exact Nat.le_mul_of_pos_left _ (Nat.succ_pos i)
    · exact ⟨_, rfl, (hrun.covers hw (by omega)).finds hw hrun.mul_le hfull⟩

/-! ## Sliding windows -/

variable (a) in
/-- The number of blocks dropped for EAGLE. -/
def eagleBlocks : ℕ := if a.dropEagleBlock then 1 else 0

theorem postPopBlocks_eq (i : ℕ) : (if a.dropEagleBlock then i else i + 1) = i + 1 - a.eagleBlocks := by
  unfold eagleBlocks
  split <;> rfl

/-- The scan ends with the rows of a whole run, or with those of the run of `c` blocks that reaches the start,
popped to an aligned length. -/
theorem windowScan_scanned (hv : a.Views p view) (needed i : ℕ) (rows : List (List KVCacheBlock)) (contiguous : ℕ)
    (hle : i + contiguous ≤ a.maxLength / a.blockSize) (hrows : ∀ k < contiguous, ∃ row, rows[k]? = some row ∧
      a.boundaryRow p ((i + k + 1) * (a.blockSize / p.hashBlockSize)) = some row) (hend : 0 < contiguous →
      a.alignmentTokens ∣ (i + contiguous - a.eagleBlocks) * a.blockSize) :
    ∃ res first, a.windowScan p view needed i rows contiguous = .ok res ∧ a.Scanned p first res ∧
      (first = 0 ∧ a.alignmentTokens ∣ res.length * a.blockSize ∧ (∃ c, res.length ≤ c ∧
          c ≤ a.maxLength / a.blockSize ∧ (0 < c → a.alignmentTokens ∣ (c - a.eagleBlocks) * a.blockSize) ∧
          ∀ k < c, (a.boundaryRow p ((k + 1) * (a.blockSize / p.hashBlockSize))).isSome) ∨
        first + max 1 needed ≤ res.length ∧
          a.alignmentTokens ∣ (res.length - a.eagleBlocks) * a.blockSize) := by
  induction i generalizing rows contiguous with
  | zero =>
    obtain ⟨k, hk, hpop, hdvd⟩ := popUnaligned_spec (rows.take contiguous)
    have hscan : a.Scanned p 0 (rows.take contiguous) := by
      refine ⟨?_, fun i _ _ hi => absurd hi (Nat.not_lt_zero i), fun i row hi _ => ?_⟩
      · have := length_take_le contiguous rows
        omega
      rw [getElem?_take] at hi
      split at hi
      next hlt =>
        obtain ⟨row', hrow', hb⟩ := hrows i hlt
        cases hi.symm.trans hrow'
        rwa [zero_add] at hb
      · cases hi
    refine ⟨_, 0, rfl, ?_, .inl ⟨rfl, ?_, contiguous, ?_, by omega, fun hpos => ?_, fun i hi => ?_⟩⟩
    · rw [hpop]
      exact hscan.take k
    · rw [hpop, length_take, min_eq_left hk]
      exact hdvd
    · rw [hpop]
      exact (length_take_le' _ _).trans (length_take_le _ _)
    · rw [zero_add] at hend
      exact hend hpos
    · obtain ⟨row, -, hrow⟩ := hrows i hi
      rw [zero_add] at hrow
      rw [hrow]
      rfl
  | succ i ih =>
    obtain ⟨h, hh, hb⟩ := hv i (by omega)
    -- a position that does not extend the run starts over
    have hskip := ih (a.nullRow p :: rows) 0 (by omega) (fun k hk => absurd hk (Nat.not_lt_zero k))
      fun hk => absurd hk (lt_irrefl 0)
    unfold windowScan
    simp only [hh, postPopBlocks_eq]
    split
    · exact hskip
    rename_i row hrow
    rw [hrow] at hb
    split
    · exact hskip
    rename_i hal
    have hext : ∀ k < contiguous + 1, ∃ row', (row :: rows)[k]? = some row' ∧
        a.boundaryRow p ((i + k + 1) * (a.blockSize / p.hashBlockSize)) = some row' := by
      intro k hk
      cases k with
      | zero => exact ⟨row, rfl, hb⟩
      | succ k =>
        obtain ⟨row', h1, h2⟩ := hrows k (by omega)
        refine ⟨row', h1, ?_⟩
        rw [← h2]
        congr 2
        omega
    have hend' : a.alignmentTokens ∣ (i + (contiguous + 1) - a.eagleBlocks) * a.blockSize := by
      rcases Nat.eq_zero_or_pos contiguous with rfl | hpos
      · by_cases heq : a.blockSize = a.alignmentTokens
        · exact heq ▸ Nat.dvd_mul_left _ _
        · exact Nat.dvd_of_mod_eq_zero (not_not.1 fun hne => hal ⟨rfl, heq, hne⟩)
      · rw [show i + (contiguous + 1) = i + 1 + contiguous by omega]
        exact hend hpos
    split
    next hneed =>
      have hlen : ((row :: rows).take (contiguous + 1)).length = contiguous + 1 := by
        obtain ⟨_, hk, _⟩ := hext contiguous (Nat.lt_succ_self _)
        have := (List.getElem?_eq_some_iff.1 hk).1
        rw [length_take, min_eq_left (by omega)]
      refine ⟨_, i, rfl, .replicate_append ?_ ?_, .inr ⟨?_, ?_⟩⟩
      · omega
      · intro k row' hk
        rw [getElem?_take] at hk
        split at hk
        next hlt =>
          obtain ⟨row'', h1, h2⟩ := hext _ hlt
          cases hk.symm.trans h1
          exact h2
        · cases hk
      · rw [length_append, length_replicate, hlen]
        omega
      · rw [length_append, length_replicate, hlen]
        exact hend'
    · exact ih _ _ (by omega) hext fun _ => hend'

/-- The first rows of a scan that hold a whole window, and one block more for EAGLE. -/
theorem Scanned.finds_window {first window extra : ℕ} {res : List (List KVCacheBlock)}
    (h : a.Scanned p first res) (hw : a.WellFormed p) (hk : k + a.eagleBlocks ≤ res.length ∨ k = 0)
    (hal : a.alignmentTokens ∣ k * a.blockSize) (hfirst : first = 0 ∨ first + cdiv (window - 1) a.blockSize ≤ k) :
    a.Finds p (.slidingWindow window extra) (res.take k, k * a.blockSize) := by
  have hlen : (res.take k).length = k := by
    rw [length_take]
    omega
  have htake := h.take k
  have hneed : first * a.blockSize ≤ k * a.blockSize + 1 - window := by
    rcases hfirst with rfl | hle
    · omega
    have hwin : window - 1 ≤ cdiv (window - 1) a.blockSize * a.blockSize := by
      by_contra hlt
      exact lt_irrefl _ ((lt_cdiv_iff hw.blockSize_pos).2 (not_le.1 hlt))
    have := Nat.mul_le_mul_right a.blockSize hle
    rw [Nat.add_mul] at this
    omega
  have hcov := htake.covers hw hneed
  have hmax := htake.mul_le
  rw [hlen] at hcov hmax
  refine ⟨hmax, hal, hcov, fun hdrop _ hpos => ?_⟩
  have hpos' : 0 < k := Nat.pos_of_mul_pos_right hpos
  have hlt : k < res.length := by
    have : a.eagleBlocks = 1 := if_pos hdrop
    omega
  refine ⟨?_, h.follows hw hlt (by omega)⟩
  calc k * a.blockSize + min a.alignmentTokens a.blockSize
      ≤ k * a.blockSize + a.blockSize := Nat.add_le_add_left (min_le_right _ _) _
    _ = (k + 1) * a.blockSize := by rw [Nat.add_mul, Nat.one_mul]
    _ ≤ res.length * a.blockSize := Nat.mul_le_mul_right _ hlt
    _ ≤ a.maxLength := h.mul_le

theorem windowFindLongestCacheHit_finds (hw : a.WellFormed p) (window extra : ℕ) :
    ∃ hit, a.windowFindLongestCacheHit p window = .ok hit ∧ a.Finds p (.slidingWindow window extra) hit := by
  obtain ⟨view, hview, hv⟩ := resolveBlockHashes_views hw
  obtain ⟨res, first, hres, hscan, hcases⟩ := windowScan_scanned hv
    (GroupConfig.contiguousBlocksForHit window a.blockSize a.dropEagleBlock) (a.maxLength / a.blockSize) [] 0
    le_rfl (fun k hk => absurd hk (Nat.not_lt_zero k)) fun hk => absurd hk (lt_irrefl 0)
  have hneeded : GroupConfig.contiguousBlocksForHit window a.blockSize a.dropEagleBlock =
      cdiv (window - 1) a.blockSize + a.eagleBlocks := rfl
  rw [hneeded] at hcases
  unfold windowFindLongestCacheHit
  rw [resolveBlockHashes_full (.inl rfl), hview]
  simp only [bind, Except.bind, hres]
  -- in each case the rows are the first `k` of the scan
  suffices hk : ∃ k, (if a.dropEagleBlock ∧ res ≠ [] then a.popUnaligned res.dropLast else res) = res.take k ∧
      (k + a.eagleBlocks ≤ res.length ∨ k = 0) ∧ a.alignmentTokens ∣ k * a.blockSize ∧
      (first = 0 ∨ first + cdiv (window - 1) a.blockSize ≤ k) by
    obtain ⟨k, hrows, hle, hal, hfirst⟩ := hk
    have hlen : (res.take k).length = k := by
      rw [length_take]
      omega
    rw [hrows, hlen]
    exact ⟨_, rfl, hscan.finds_window hw hle hal hfirst⟩
  by_cases hdrop : a.dropEagleBlock ∧ res ≠ []
  · have hone : a.eagleBlocks = 1 := if_pos hdrop.1
    have hpos : 0 < res.length := length_pos_iff.2 hdrop.2
    rw [if_pos hdrop]
    rcases hcases with ⟨hzero, -, -⟩ | ⟨hfirst, hal⟩
    · obtain ⟨k, hk, hpop, hal⟩ := popUnaligned_spec res.dropLast
      rw [length_dropLast] at hk
      refine ⟨k, ?_, by omega, hal, .inl hzero⟩
      rw [hpop, dropLast_eq_take, take_take, min_eq_left hk]
    · rw [hone] at hal hfirst
      refine ⟨res.length - 1, ?_, by omega, hal, .inr (by omega)⟩
      rw [popUnaligned_eq_self (by rw [length_dropLast]; exact hal), dropLast_eq_take]
  · rw [if_neg hdrop]
    by_cases hnil : res = []
    · subst hnil
      refine ⟨0, rfl, .inr rfl, by simp, ?_⟩
      rcases hcases with ⟨hzero, -⟩ | ⟨hfirst, -⟩
      · exact .inl hzero
      · rw [length_nil] at hfirst
        omega
    have hzero : a.eagleBlocks = 0 := if_neg fun he => hdrop ⟨he, hnil⟩
    rw [hzero] at hcases
    refine ⟨res.length, (take_length).symm, by omega, ?_, ?_⟩
    · rcases hcases with ⟨-, hal, -⟩ | ⟨-, hal⟩ <;> exact hal
    · rcases hcases with ⟨hfirst, -⟩ | ⟨hfirst, -⟩
      · exact .inl hfirst
      · exact .inr (by omega)

/-! ## Chunked local attention -/

theorem chunkScan_rows (hv : a.Views p view) (k i : ℕ) (hle : i + k ≤ a.maxLength / a.blockSize) :
    ∃ run, chunkedFindLongestCacheHit.chunkScan a p view k i = .ok run ∧ run.length ≤ k ∧ (∀ m row, run[m]? = some row →
        a.boundaryRow p ((i + m + 1) * (a.blockSize / p.hashBlockSize)) = some row) ∧ (run.length < k →
        a.boundaryRow p ((i + run.length + 1) * (a.blockSize / p.hashBlockSize)) = none) := by
  induction k generalizing i with
  | zero => exact ⟨[], rfl, le_rfl, nofun, nofun⟩
  | succ k ih =>
    obtain ⟨h, hh, hb⟩ := hv i (by omega)
    unfold chunkedFindLongestCacheHit.chunkScan
    simp only [hh]
    cases hrow : a.cachedRow p h with
    | none => exact ⟨[], rfl, Nat.zero_le _, nofun, fun _ => hb.trans hrow⟩
    | some row =>
      obtain ⟨run, hrun, hlen, hrows, hstop⟩ := ih (i + 1) (by omega)
      refine ⟨row :: run, by simp only [hrun, Except.map], Nat.succ_le_succ hlen, fun m row' hm => ?_, fun hlt => ?_⟩
      rotate_left
      · rw [← hstop (Nat.lt_of_succ_lt_succ hlt), length_cons]
        congr 2
        omega
      cases m with
      | zero =>
        cases hm
        rw [hb, hrow]
      | succ m =>
        rw [← hrows m row' hm]
        congr 2
        omega

/-- Blocks of the size of the alignment, and no EAGLE: null rows before the chunk of the given length, and
the run of cached blocks from there. -/
theorem chunkedFindLongestCacheHit_scanned (hw : a.WellFormed p) (chunk : ℕ)
    (hdrop : a.dropEagleBlock = false) (hal : a.blockSize = a.alignmentTokens) :
    ∃ rows, a.chunkedFindLongestCacheHit p chunk = .ok (rows, rows.length * a.blockSize) ∧
      a.Scanned p (a.maxLength / chunk * chunk / a.blockSize) rows ∧
      a.maxLength / chunk * chunk / a.blockSize ≤ rows.length ∧ (rows.length < a.maxLength / a.blockSize →
        a.boundaryRow p ((rows.length + 1) * (a.blockSize / p.hashBlockSize)) = none) := by
  obtain ⟨view, hview, hv⟩ := resolveBlockHashes_views hw
  have hstart : a.maxLength / chunk * chunk / a.blockSize ≤ a.maxLength / a.blockSize :=
    Nat.div_le_div_right (Nat.div_mul_le_self _ _)
  obtain ⟨run, hrun, hlen, hrows, hstop⟩ := chunkScan_rows hv
    (a.maxLength / a.blockSize - a.maxLength / chunk * chunk / a.blockSize)
    (a.maxLength / chunk * chunk / a.blockSize) (by omega)
  unfold chunkedFindLongestCacheHit
  rw [resolveBlockHashes_full (.inl rfl), hview]
  simp only [hdrop, Bool.false_eq_true, if_false, if_neg (not_not.2 hal), hrun, bind, Except.bind]
  refine ⟨_, rfl, .replicate_append (by omega) hrows, ?_, ?_⟩ <;> rw [length_append, length_replicate]
  · exact Nat.le_add_right _ _
  · exact fun hlt => hstop (by omega)

theorem chunkedFindLongestCacheHit_finds (hw : a.WellFormed p) {chunk : ℕ}
    (hdrop : a.dropEagleBlock = false) (hal : a.blockSize = a.alignmentTokens) :
    ∃ hit, a.chunkedFindLongestCacheHit p chunk = .ok hit ∧ a.Finds p (.chunkedLocalAttention chunk) hit := by
  obtain ⟨rows, heq, hscan, hle, -⟩ := chunkedFindLongestCacheHit_scanned hw chunk hdrop hal
  have hle := Nat.mul_le_mul_right a.blockSize hle
  have hneeded : a.maxLength / chunk * chunk / a.blockSize * a.blockSize ≤
      KVCacheSpec.nullsBefore (.chunkedLocalAttention chunk) a.blockSize (rows.length * a.blockSize) := by
    unfold KVCacheSpec.nullsBefore
    dsimp only
    split_ifs with hchunk
    · rw [Nat.div_mul_cancel (Dvd.dvd.mul_left hchunk _)] at hle ⊢
      rcases Nat.eq_zero_or_pos chunk with rfl | hpos
      · exact le_rfl
      · exact Nat.mul_le_mul_right _ ((Nat.le_div_iff_mul_le hpos).2 hle)
    · exact hle
  refine ⟨_, heq, hscan.mul_le, hal ▸ Nat.dvd_mul_left _ _, hscan.covers hw hneeded, fun h => ?_⟩
  cases hdrop.symm.trans h

/-! ## Mamba -/

section Mamba

variable {spec : KVCacheSpec} (hneeds : ∀ blockSize length, spec.nullsBefore blockSize length = length - 1)
  (hdrops : spec.dropsEagleBlock = false)
include hneeds hdrops

theorem finds_state (hmax : length ≤ a.maxLength) (hal : a.alignmentTokens ∣ length)
    (hlt : i * a.blockSize < length) (hcov : ∀ neededFrom, i * a.blockSize ≤ neededFrom →
      a.Covers p neededFrom rows length) : a.Finds p spec (rows, length) := by
  refine ⟨hmax, hal, hcov _ ?_, fun _ h => ?_⟩
  · rw [hneeds]
    omega
  · cases hdrops.symm.trans h

omit hneeds in
theorem finds_nothing (hw : a.WellFormed p) : a.Finds p spec ([], 0) := by
  refine ⟨Nat.zero_le _, Nat.dvd_zero _, ⟨?_, nofun⟩, fun _ h => ?_⟩
  · exact (Nat.zero_mul a.blockSize ▸ cdiv_mul_self hw.blockSize_pos 0).symm
  · cases hdrops.symm.trans h

theorem stateScan_finds (hw : a.WellFormed p) (hv : a.Views p view) (i : ℕ) (hle : i ≤ a.maxLength / a.blockSize) :
    ∃ hit, mambaFindLongestCacheHit.stateScan a p view i = .ok hit ∧ a.Finds p spec hit := by
  induction i with
  | zero => exact ⟨([], 0), rfl, finds_nothing hdrops hw⟩
  | succ i ih =>
    obtain ⟨h, hh, hb⟩ := hv i (by omega)
    unfold mambaFindLongestCacheHit.stateScan
    simp only [hh]
    split
    · exact ih (by omega)
    rename_i row hrow
    rw [hrow] at hb
    split_ifs with hal
    · exact ih (by omega)
    have hscan : a.Scanned p i (replicate i (a.nullRow p) ++ [row]) := by
      refine .replicate_append hle fun k row' hk => ?_
      cases k with
      | zero =>
        cases hk
        exact hb
      | succ k => cases hk
    have hlen : (replicate i (a.nullRow p) ++ [row]).length = i + 1 := by simp
    have hdvd : a.alignmentTokens ∣ (i + 1) * a.blockSize := by
      by_cases heq : a.blockSize = a.alignmentTokens
      · exact heq ▸ dvd_mul_left _ _
      · exact Nat.dvd_of_mod_eq_zero (not_not.1 fun hne => hal ⟨heq, hne⟩)
    refine ⟨_, rfl, finds_state hneeds hdrops (hlen ▸ hscan.mul_le) hdvd
      (Nat.mul_lt_mul_of_pos_right (Nat.lt_succ_self i) hw.blockSize_pos) fun _ hn => ?_⟩
    have hcov := hscan.covers hw hn
    rwa [hlen] at hcov

theorem mambaFindLongestCacheHit_finds (hw : a.WellFormed p) :
    ∃ hit, a.mambaFindLongestCacheHit p = .ok hit ∧ a.Finds p spec hit := by
  unfold mambaFindLongestCacheHit
  cases hf : a.fineGrained with
  | false =>
    obtain ⟨view, hview, hv⟩ := resolveBlockHashes_views hw
    rw [resolveBlockHashes_full (.inr hf), hview]
    exact stateScan_finds hneeds hdrops hw hv _ le_rfl
  | true =>
    obtain ⟨hal, -⟩ := hw.of_fineGrained hf
    rw [resolveBlockHashes_fineGrained hw hf]
    simp only [bind, Except.bind, if_true]
    split
    · exact ⟨_, rfl, finds_nothing hdrops hw⟩
    rename_i i row hlast
    obtain ⟨-, hhi, hrow⟩ := lastCached_spec hlast
    have hscale : 0 < a.blockSize / p.hashBlockSize :=
      Nat.div_pos (Nat.le_of_dvd hw.blockSize_pos hw.dvd) hw.hashBlockSize_pos
    have hmax : (i + 1) * p.hashBlockSize ≤ a.maxLength :=
      (Nat.le_div_iff_mul_le hw.hashBlockSize_pos).1 (by rw [← hal]; omega)
    obtain ⟨hlo, hup⟩ := hw.unit_in_block (Nat.div_mul_le_self i _) (Nat.mul_comm _ _ ▸ Nat.lt_mul_div_succ i hscale)
    have hscan : a.Scanned p (i / (a.blockSize / p.hashBlockSize))
        (replicate (i / (a.blockSize / p.hashBlockSize)) (a.nullRow p) ++ []) := by
      refine .replicate_append ?_ nofun
      exact (Nat.le_div_iff_mul_le hw.blockSize_pos).2 (le_trans hlo.le hmax)
    rw [append_nil] at hscan
    rw [hal]
    refine ⟨_, rfl, finds_state hneeds hdrops hmax (hal ▸ dvd_mul_left _ _) hlo fun _ hn => ?_⟩
    apply hscan.covers_append hw hn
    · rw [length_replicate]
      exact hlo
    · rw [length_replicate]
      exact hup
    · exact hrow

end Mamba

/-- What `ChunkedLocalAttentionManager` asserts. -/
def Supports (a : LookupArgs H) (spec : KVCacheSpec) : Prop :=
  match spec with
  | .chunkedLocalAttention _ => a.dropEagleBlock = false ∧ a.blockSize = a.alignmentTokens
  | _ => True

/-- **Every lookup** returns a hit of its class. -/
theorem findLongestCacheHit_finds (hw : a.WellFormed p) {spec : KVCacheSpec} (hs : a.Supports spec) :
    ∃ hit, a.findLongestCacheHit p spec = .ok hit ∧ a.Finds p spec hit := by
  cases spec with
  | fullAttention => exact fullFindLongestCacheHit_finds hw
  | slidingWindow window extra => exact windowFindLongestCacheHit_finds hw window extra
  | chunkedLocalAttention chunk => exact chunkedFindLongestCacheHit_finds hw hs.1 hs.2
  | mamba => exact mambaFindLongestCacheHit_finds (fun _ _ => rfl) rfl hw

end LookupArgs

end VllmRwkv
