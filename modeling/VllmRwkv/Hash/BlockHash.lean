import VllmRwkv.Request

/-!
# Block hashes and what enters them

The hasher of `v1/core/kv_cache_utils.py`: every full block of a request is hashed together with the
hash of the block before it and with the block's extra keys (LoRA adapter, multi-modal items, cache
salt, prompt embeddings). The hashes are made as tokens arrive, so the scan over the multi-modal
items is taken up again in the middle of the list.

The hash function, the digest of embedding rows and the seed are parameters. The table that keeps
the digests of a request's blocks is left out: a block's rows do not change.
-/

namespace VllmRwkv

open List Nat MultiModalFeatureSpec

/-- One entry of a block's extra keys; in the source each is a tuple that starts with its kind. -/
inductive ExtraKey (D : Type) where
  | lora (loraName loraPath : String)
  | mm (identifier : ℕ) (offset : ℤ)
  | cacheSalt (salt : String)
  | promptEmbeds (embedsHash : D)
  deriving DecidableEq, Repr

structure LoRARequest where
  loraName : String
  loraPath : String
  deriving DecidableEq, Repr

/-- What the hasher reads of a request, with embedding rows in `E` and hashes in `B`. -/
structure HashInput (E B : Type) where
  allTokenIds : List ℕ
  mmFeatures : List MultiModalFeatureSpec := []
  loraRequest : Option LoRARequest := none
  cacheSalt : Option String := none
  promptEmbeds : Option (List E) := none
  blockHashes : List B := []

/-- The parameters of `get_request_block_hasher`, with digests of embedding rows in `D`. -/
structure BlockHasher (E D B : Type) where
  hashBlockSize : ℕ
  hashBlockSize_pos : 0 < hashBlockSize
  hashFunction : B × List ℕ × Option (List (ExtraKey D)) → B
  /-- `NONE_HASH`, the parent of a first block. -/
  noneHash : B
  /-- The hash has no bytes, and is false in the source; there is one such hash. -/
  isEmpty : B → Bool
  isEmpty_unique : ∀ h h', isEmpty h → isEmpty h' → h = h'
  /-- SHA-256 of the rows' bytes. -/
  embedsDigest : List E → D

variable {E D B : Type} {n b : ℕ}

/-! ## Extra keys -/

/-- The loop of `_gen_mm_extra_hash_keys` from the item `currMmIdx` on. -/
def mmKeysFrom (startTokenIdx endTokenIdx : ℕ) : List MultiModalFeatureSpec → ℕ → List (ExtraKey D) × ℕ
  | [], currMmIdx => ([], currMmIdx)
  | f :: rest, currMmIdx =>
    if f.mmPosition.offset < endTokenIdx then
      if f.stop ≤ startTokenIdx then mmKeysFrom startTokenIdx endTokenIdx rest (currMmIdx + 1)
      else if f.stop ≤ endTokenIdx then
        let result := mmKeysFrom startTokenIdx endTokenIdx rest (currMmIdx + 1)
        (.mm f.identifier (f.mmPosition.offset - startTokenIdx) :: result.1, result.2)
      -- the item goes on after the block, and no later item is looked at
      else ([.mm f.identifier (f.mmPosition.offset - startTokenIdx)], currMmIdx)
    else ([], currMmIdx)

/-- `_gen_mm_extra_hash_keys`; the hasher never passes a negative index. -/
def genMmExtraHashKeys (mmFeatures : List MultiModalFeatureSpec) (startTokenIdx endTokenIdx startMmIdx : ℕ) :
    List (ExtraKey D) × ℕ :=
  match mmFeatures.getLast? with
  | none => ([], startMmIdx)
  | some last =>
    if last.stop ≤ startTokenIdx then ([], startMmIdx)
    else mmKeysFrom startTokenIdx endTokenIdx (mmFeatures.drop startMmIdx) startMmIdx

namespace HashInput

variable (r : HashInput E B)

/-- `_gen_lora_extra_hash_keys`. -/
def genLoraExtraHashKeys : List (ExtraKey D) :=
  match r.loraRequest with
  | none => []
  | some lora => [.lora lora.loraName lora.loraPath]

/-- The salt of a request; an empty one is none. -/
def salt : Option String := r.cacheSalt.filter fun s => s ≠ ""

def numTokens : ℕ := r.allTokenIds.length

end HashInput

namespace BlockHasher

variable (hs : BlockHasher E D B) (r : HashInput E B)

/-- `_gen_prompt_embeds_extra_hash_keys`. -/
def genPromptEmbedsExtraHashKeys (startTokenIdx endTokenIdx : ℕ) : List (ExtraKey D) :=
  match r.promptEmbeds with
  | none => []
  | some rows =>
    [.promptEmbeds (hs.embedsDigest ((rows.drop startTokenIdx).take (endTokenIdx - startTokenIdx)))]

/-- `generate_block_hash_extra_keys`. -/
def generateBlockHashExtraKeys (startTokenIdx endTokenIdx startMmIdx : ℕ) : Option (List (ExtraKey D)) × ℕ :=
  let mm := genMmExtraHashKeys r.mmFeatures startTokenIdx endTokenIdx startMmIdx
  let cacheSaltKeys := if startTokenIdx = 0 then (r.salt.map ExtraKey.cacheSalt).toList else []
  let extraKeys := r.genLoraExtraHashKeys ++ mm.1 ++ cacheSaltKeys ++
    hs.genPromptEmbedsExtraHashKeys r startTokenIdx endTokenIdx
  (if extraKeys = [] then none else some extraKeys, mm.2)

/-! ## Hashes -/

/-- The parent that enters a block's hash. -/
def parentHash : Option B → B
  | none => hs.noneHash
  | some h => if hs.isEmpty h then hs.noneHash else h

def hashBlockTokens (parentBlockHash : Option B) (currBlockTokenIds : List ℕ)
    (extraKeys : Option (List (ExtraKey D))) : B :=
  hs.hashFunction (hs.parentHash parentBlockHash, currBlockTokenIds, extraKeys)

/-- The loop of `request_block_hasher`, over at most the given number of blocks. -/
def hashFrom (r : HashInput E B) : ℕ → ℕ → ℕ → Option B → List B
  | 0, _, _, _ => []
  | fuel + 1, startTokenIdx, currMmIdx, prevBlockHash =>
    let endTokenIdx := startTokenIdx + hs.hashBlockSize
    if r.numTokens < endTokenIdx then []
    else
      let keys := hs.generateBlockHashExtraKeys r startTokenIdx endTokenIdx currMmIdx
      let blockTokens := (r.allTokenIds.drop startTokenIdx).take hs.hashBlockSize
      let blockHash := hs.hashBlockTokens prevBlockHash blockTokens keys.1
      blockHash :: hashFrom r fuel endTokenIdx keys.2 (some blockHash)

/-- The item at which `request_block_hasher` takes up its scan. -/
def firstMmIdx (startTokenIdx : ℕ) : ℕ :=
  match r.mmFeatures.getLast? with
  | none => 0
  | some last =>
    if 0 < startTokenIdx ∧ startTokenIdx < last.stop then
      (getMmFeaturesInWindow r.mmFeatures startTokenIdx (startTokenIdx + hs.hashBlockSize)).1
    else 0

def requestBlockHasher : List B :=
  let startTokenIdx := r.blockHashes.length * hs.hashBlockSize
  if r.numTokens < startTokenIdx + hs.hashBlockSize then []
  else hs.hashFrom r r.numTokens startTokenIdx (hs.firstMmIdx r startTokenIdx) r.blockHashes.getLast?

/-- `Request.update_block_hashes`. -/
def updateBlockHashes : HashInput E B :=
  { r with blockHashes := r.blockHashes ++ hs.requestBlockHasher r }

end BlockHasher

/-! ## What a block's hash says

The purpose of the hasher, in its own terms: the items, the salt and the digest that belong to a
block, and the chain of hashes made from them. -/

/-- The item has a placeholder in the block. -/
def MultiModalFeatureSpec.overlaps (start stop : ℕ) (f : MultiModalFeatureSpec) : Bool :=
  f.mmPosition.offset < stop ∧ start < f.stop

/-- Items in the order of their places, none reaching into the next: what the source assumes. -/
def Separate (mmFeatures : List MultiModalFeatureSpec) : Prop :=
  mmFeatures.Pairwise fun f g => f.stop ≤ g.mmPosition.offset

/-- The item `g` starts and ends in no earlier block than `f`, and `f` does not go on after the block in
which `g` starts. Inside a block the two may overlap. -/
structure Follows (size : ℕ) (f g : MultiModalFeatureSpec) : Prop where
  starts : f.mmPosition.offset / size ≤ g.mmPosition.offset / size
  meets : f.stop ≤ (g.mmPosition.offset / size + 1) * size
  ends : ∀ b, g.stop ≤ b * size → f.stop ≤ b * size

/-- What the scan needs: that an item which goes on after a block is the last one of the block. -/
def InTurn (size : ℕ) (mmFeatures : List MultiModalFeatureSpec) : Prop := mmFeatures.Pairwise (Follows size)

/-- The items of a block, each with its offset from the start of the block. -/
def HashInput.items (r : HashInput E B) (start stop : ℕ) : List (ℕ × ℤ) :=
  (r.mmFeatures.filter (MultiModalFeatureSpec.overlaps start stop)).map fun f =>
    (f.identifier, f.mmPosition.offset - start)

namespace BlockHasher

variable (hs : BlockHasher E D B)

/-- The first token of a block. -/
def start (b : ℕ) : ℕ := b * hs.hashBlockSize

section

variable (r : HashInput E B) (b : ℕ)

def blockTokens : List ℕ :=
  (r.allTokenIds.drop (hs.start b)).take hs.hashBlockSize

/-- The digest of a block's embedding rows. -/
def digest : Option D :=
  r.promptEmbeds.map fun rows => hs.embedsDigest ((rows.drop (hs.start b)).take hs.hashBlockSize)

/-- What is hashed with a block's tokens. -/
def blockKeys : List (ExtraKey D) :=
  (r.loraRequest.map fun lora => ExtraKey.lora lora.loraName lora.loraPath).toList ++
    ((r.items (hs.start b) (hs.start (b + 1))).map fun item => ExtraKey.mm item.1 item.2) ++
    (if b = 0 then (r.salt.map ExtraKey.cacheSalt).toList else []) ++
    ((hs.digest r b).map ExtraKey.promptEmbeds).toList

end

/-- `None` for a block without extra keys. -/
def optKeys (keys : List (ExtraKey D)) : Option (List (ExtraKey D)) :=
  if keys = [] then none else some keys

/-- The hash of the first blocks. -/
def chain (r : HashInput E B) : ℕ → Option B
  | 0 => none
  | b + 1 => some (hs.hashBlockTokens (chain r b) (hs.blockTokens r b) (optKeys (hs.blockKeys r b)))

/-- The hash of a block, after the blocks before it. -/
def hashAt (r : HashInput E B) (b : ℕ) : B :=
  hs.hashBlockTokens (hs.chain r b) (hs.blockTokens r b) (optKeys (hs.blockKeys r b))

theorem chain_succ {r : HashInput E B} : hs.chain r (b + 1) = some (hs.hashAt r b) := rfl

theorem start_succ (b : ℕ) : hs.start (b + 1) = hs.start b + hs.hashBlockSize := Nat.succ_mul ..

theorem start_eq_zero_iff : hs.start b = 0 ↔ b = 0 := by
  have hpos := hs.hashBlockSize_pos
  unfold start
  rw [mul_eq_zero]
  omega

theorem start_le_iff {r : HashInput E B} : hs.start b ≤ r.numTokens ↔ b ≤ r.numTokens / hs.hashBlockSize :=
  (le_div_iff_mul_le hs.hashBlockSize_pos).symm

end BlockHasher

/-! ### The scan over the items -/

section Scan

variable {fs : List MultiModalFeatureSpec} {start stop idx size : ℕ}

/-- The items before the index end before the position. -/
def Passed (fs : List MultiModalFeatureSpec) (pos idx : ℕ) : Prop := ∀ f ∈ fs.take idx, f.stop ≤ pos

theorem filter_overlaps_eq_nil (h : ∀ f ∈ fs, stop ≤ f.mmPosition.offset ∨ f.stop ≤ start) :
    fs.filter (MultiModalFeatureSpec.overlaps start stop) = [] := by
  rw [filter_eq_nil_iff]
  intro f hf hover
  unfold overlaps at hover
  rw [decide_eq_true_eq] at hover
  rcases h f hf with h | h <;> omega

theorem offset_le_stop (f : MultiModalFeatureSpec) : f.mmPosition.offset ≤ f.stop := Nat.le_add_right _ _

theorem Separate.inTurn (h : Separate fs) (hsize : 0 < size) : InTurn size fs := by
  refine h.imp fun {f g} hfg => ⟨Nat.div_le_div_right ((offset_le_stop f).trans hfg), hfg.trans ?_, fun b hb => ?_⟩
  · rw [mul_comm]
    exact (lt_mul_div_succ _ hsize).le
  · exact (hfg.trans (offset_le_stop g)).trans hb

/-- Over items in turn the loop emits every item of the block. -/
theorem mmKeysFrom_fst (hsize : 0 < size) (h : InTurn size fs) :
    (mmKeysFrom (b * size) ((b + 1) * size) fs idx).1 =
      (fs.filter (MultiModalFeatureSpec.overlaps (b * size) ((b + 1) * size))).map fun f =>
        (ExtraKey.mm f.identifier (f.mmPosition.offset - (b * size : ℕ)) : ExtraKey D) := by
  induction fs generalizing idx with
  | nil => rfl
  | cons f fs ih =>
    obtain ⟨hf, hfs⟩ := pairwise_cons.1 h
    have hle := offset_le_stop f
    unfold mmKeysFrom
    split
    next hreached =>
      split
      next hpassed =>
        rw [ih hfs, filter_cons_of_neg (by
          unfold overlaps
          rw [decide_eq_true_eq]
          omega)]
      rename_i hnot
      have hover : f.overlaps (b * size) ((b + 1) * size) := decide_eq_true ⟨hreached, by omega⟩
      split
      · rw [filter_cons_of_pos hover, map_cons, ← ih hfs]
      rename_i hlong
      -- this item goes on after the block, so that the rest starts after the block
      rw [filter_cons_of_pos hover, filter_overlaps_eq_nil fun g hg => .inl ?_]
      · rfl
      · have hlt := lt_of_mul_lt_mul_right ((not_le.1 hlong).trans_le (hf g hg).meets) (Nat.zero_le size)
        exact (le_div_iff_mul_le hsize).1 (by omega)
    next hlater =>
      rw [not_lt, ← le_div_iff_mul_le hsize] at hlater
      rw [filter_overlaps_eq_nil]
      · rfl
      · intro g hg
        rcases mem_cons.1 hg with rfl | hg
        · exact .inl ((le_div_iff_mul_le hsize).1 hlater)
        · exact .inl ((le_div_iff_mul_le hsize).1 (hlater.trans (hf g hg).starts))

/-- The loop passes only items that end in the block. -/
theorem mmKeysFrom_snd (hle : start ≤ stop) (fs : List MultiModalFeatureSpec) (idx : ℕ) :
    ∃ passed rest, fs = passed ++ rest ∧
      (mmKeysFrom (D := D) start stop fs idx).2 = idx + passed.length ∧ ∀ f ∈ passed, f.stop ≤ stop := by
  induction fs generalizing idx with
  | nil => exact ⟨[], [], rfl, rfl, nofun⟩
  | cons f fs ih =>
    have hnone : ∃ passed rest, f :: fs = passed ++ rest ∧ idx = idx + passed.length ∧
        ∀ f ∈ passed, f.stop ≤ stop := ⟨[], f :: fs, rfl, rfl, nofun⟩
    obtain ⟨passed, rest, heq, hidx, hstop⟩ := ih (idx + 1)
    have hone (hf : f.stop ≤ stop) : ∃ passed rest, f :: fs = passed ++ rest ∧
        (mmKeysFrom (D := D) start stop fs (idx + 1)).2 = idx + passed.length ∧
        ∀ f ∈ passed, f.stop ≤ stop := by
      refine ⟨f :: passed, rest, by rw [heq, cons_append], ?_, fun g hg => ?_⟩
      · rw [hidx, length_cons]
        omega
      · rcases mem_cons.1 hg with rfl | hg
        · exact hf
        · exact hstop g hg
    unfold mmKeysFrom
    split
    · split
      next hpassed => exact hone (hpassed.trans hle)
      · split
        next hends => exact hone hends
        · exact hnone
    · exact hnone

theorem Passed.mono {pos pos' : ℕ} (h : Passed fs pos idx) (hle : pos ≤ pos') : Passed fs pos' idx :=
  fun f hf => (h f hf).trans hle

theorem InTurn.stop_le {f last : MultiModalFeatureSpec} (h : InTurn size fs) (hlast : fs.getLast? = some last)
    (hover : last.stop ≤ b * size) (hf : f ∈ fs) : f.stop ≤ b * size := by
  obtain ⟨init, rfl⟩ := getLast?_eq_some_iff.1 hlast
  rcases mem_append.1 hf with hf | hf
  · exact ((pairwise_append.1 h).2.2 f hf last mem_cons_self).ends b hover
  · rwa [mem_singleton.1 hf]

/-- Taking up the scan after items that are over gives the items of the block, and leaves the scan
after items that are over. -/
theorem genMmExtraHashKeys_spec (hsize : 0 < size) (h : InTurn size fs) (hpassed : Passed fs (b * size) idx) :
    (genMmExtraHashKeys fs (b * size) ((b + 1) * size) idx).1 =
      (fs.filter (MultiModalFeatureSpec.overlaps (b * size) ((b + 1) * size))).map (fun f =>
        (ExtraKey.mm f.identifier (f.mmPosition.offset - (b * size : ℕ)) : ExtraKey D)) ∧
    Passed fs ((b + 1) * size) (genMmExtraHashKeys (D := D) fs (b * size) ((b + 1) * size) idx).2 := by
  have hle : b * size ≤ (b + 1) * size := mul_le_mul_right size (Nat.le_succ b)
  unfold genMmExtraHashKeys
  split
  next hnil =>
    rw [getLast?_eq_none_iff] at hnil
    subst hnil
    exact ⟨rfl, fun f hf => by simp at hf⟩
  rename_i last hlast
  split_ifs with hover
  · rw [filter_overlaps_eq_nil fun f hf => .inr (h.stop_le hlast hover hf)]
    exact ⟨rfl, hpassed.mono hle⟩
  constructor
  · have hdrop : InTurn size (fs.drop idx) := h.sublist (drop_sublist idx fs)
    have htake : (fs.take idx).filter (overlaps (b * size) ((b + 1) * size)) = [] :=
      filter_overlaps_eq_nil fun f hf => .inr (hpassed f hf)
    conv_rhs => rw [← take_append_drop idx fs, filter_append, htake, nil_append]
    exact mmKeysFrom_fst hsize hdrop
  obtain ⟨passed, rest, heq, hidx, hstop⟩ := mmKeysFrom_snd hle (fs.drop idx) idx
  rw [hidx]
  intro f hf
  rw [take_add, heq, take_left] at hf
  rcases mem_append.1 hf with hf | hf
  · exact (hpassed f hf).trans hle
  · exact hstop f hf

/-- Bisection finds an item before which all are over. -/
theorem passed_bisect (h : InTurn size fs) : Passed fs (b * size) (getMmFeaturesInWindow fs (b * size) stop).1 := by
  have hparted : fs.Pairwise fun f g => g.stop < b * size + 1 → f.stop < b * size + 1 :=
    h.imp fun {f g} hfg hg => Nat.lt_succ_iff.2 (hfg.ends b (Nat.lt_succ_iff.1 hg))
  intro f hf
  obtain ⟨i, hi, hget⟩ := mem_take_iff_getElem.1 hf
  have hlt : i < (getMmFeaturesInWindow fs (b * size) stop).1 := by omega
  have hat : fs[i]? = some f := by rw [getElem?_eq_some_iff]; exact ⟨by omega, hget⟩
  exact Nat.lt_succ_iff.1 (key_lt_of_lt_bisectLeft hparted hat hlt)

end Scan

/-! ### The hashes are the chain -/

namespace BlockHasher

variable {hs : BlockHasher E D B} {r r' : HashInput E B}

/-- The extra keys of a block, wherever the scan was taken up. -/
theorem generateBlockHashExtraKeys_spec {idx : ℕ} (h : InTurn hs.hashBlockSize r.mmFeatures)
    (hpassed : Passed r.mmFeatures (hs.start b) idx) :
    (hs.generateBlockHashExtraKeys r (hs.start b) (hs.start (b + 1)) idx).1 = optKeys (hs.blockKeys r b) ∧
    Passed r.mmFeatures (hs.start (b + 1)) (hs.generateBlockHashExtraKeys r (hs.start b) (hs.start (b + 1)) idx).2 := by
  obtain ⟨hkeys, hnext⟩ : (genMmExtraHashKeys r.mmFeatures (hs.start b) (hs.start (b + 1)) idx).1 = _ ∧ _ :=
    genMmExtraHashKeys_spec hs.hashBlockSize_pos h hpassed
  refine ⟨?_, hnext⟩
  have hlora : r.genLoraExtraHashKeys =
      (r.loraRequest.map fun lora => (ExtraKey.lora lora.loraName lora.loraPath : ExtraKey D)).toList := by
    unfold HashInput.genLoraExtraHashKeys
    cases r.loraRequest <;> rfl
  have hembeds : hs.genPromptEmbedsExtraHashKeys r (hs.start b) (hs.start (b + 1)) =
      ((hs.digest r b).map ExtraKey.promptEmbeds).toList := by
    unfold genPromptEmbedsExtraHashKeys digest
    rw [start_succ, Nat.add_sub_cancel_left]
    cases r.promptEmbeds <;> rfl
  unfold generateBlockHashExtraKeys optKeys
  dsimp only
  rw [hkeys, hlora, hembeds]
  unfold blockKeys HashInput.items
  simp only [start_eq_zero_iff, map_map]
  rfl

theorem hashFrom_spec (h : InTurn hs.hashBlockSize r.mmFeatures) {fuel idx : ℕ}
    (hpassed : Passed r.mmFeatures (hs.start b) idx) (hfuel : r.numTokens / hs.hashBlockSize ≤ b + fuel) :
    hs.hashFrom r fuel (hs.start b) idx (hs.chain r b) =
      (List.range' b (r.numTokens / hs.hashBlockSize - b)).map (hs.hashAt r) := by
  induction fuel generalizing b idx with
  | zero => rw [Nat.sub_eq_zero_of_le (by omega)]; rfl
  | succ fuel ih =>
    unfold hashFrom
    dsimp only
    rw [← start_succ]
    split_ifs with hshort
    · have hnone : r.numTokens / hs.hashBlockSize ≤ b := by
        rw [← not_le, start_le_iff] at hshort
        omega
      rw [Nat.sub_eq_zero_of_le hnone]
      rfl
    rw [not_lt, start_le_iff] at hshort
    obtain ⟨hkeys, hnext⟩ := generateBlockHashExtraKeys_spec h hpassed
    have hone : r.numTokens / hs.hashBlockSize - b = r.numTokens / hs.hashBlockSize - (b + 1) + 1 := by
      omega
    rw [hkeys, hone, range'_succ, map_cons, ← ih hnext (by omega)]
    rfl

/-- The requests agree in what enters the hashes of the first blocks. -/
structure Agree (hs : BlockHasher E D B) (r r' : HashInput E B) (n : ℕ) : Prop where
  tokens : r.allTokenIds.take (hs.start n) = r'.allTokenIds.take (hs.start n)
  lora : r.loraRequest = r'.loraRequest
  items : ∀ b < n, r.items (hs.start b) (hs.start (b + 1)) = r'.items (hs.start b) (hs.start (b + 1))
  salt : r.salt = r'.salt
  digests : ∀ b < n, hs.digest r b = hs.digest r' b

theorem blockTokens_eq_drop (hb : b < n) :
    hs.blockTokens r b = ((r.allTokenIds.take (hs.start n)).drop (hs.start b)).take hs.hashBlockSize := by
  have hle : hs.start (b + 1) ≤ hs.start n := mul_le_mul_right _ hb
  rw [start_succ] at hle
  rw [List.drop_take, List.take_take, min_eq_left (by omega)]
  rfl

section

variable (h : Agree hs r r' n)

include h

theorem Agree.blockTokens (hb : b < n) : hs.blockTokens r b = hs.blockTokens r' b := by
  rw [blockTokens_eq_drop hb, h.tokens, ← blockTokens_eq_drop hb]

theorem Agree.blockKeys (hb : b < n) : hs.blockKeys r b = hs.blockKeys r' b := by
  unfold BlockHasher.blockKeys
  rw [h.lora, h.items b hb, h.salt, h.digests b hb]

theorem Agree.chain (hb : b ≤ n) : hs.chain r b = hs.chain r' b := by
  induction b with
  | zero => rfl
  | succ b ih =>
    unfold BlockHasher.chain
    rw [ih (le_of_succ_le hb), h.blockTokens hb, h.blockKeys hb]

theorem Agree.hashAt (hb : b < n) : hs.hashAt r b = hs.hashAt r' b := by
  unfold BlockHasher.hashAt
  rw [h.chain hb.le, h.blockTokens hb, h.blockKeys hb]

end

/-- A request's hashes are those of its full blocks. -/
def Hashed (hs : BlockHasher E D B) (r : HashInput E B) : Prop :=
  r.blockHashes = (List.range (r.numTokens / hs.hashBlockSize)).map (hs.hashAt r)

/-- Hashing on, from the hashes of the first blocks. -/
theorem requestBlockHasher_spec (h : InTurn hs.hashBlockSize r.mmFeatures)
    (hn : n ≤ r.numTokens / hs.hashBlockSize) (hhashes : r.blockHashes = (List.range n).map (hs.hashAt r)) :
    Hashed hs (hs.updateBlockHashes r) := by
  have hlen : r.blockHashes.length = n := by rw [hhashes, length_map, length_range]
  have hlast : r.blockHashes.getLast? = hs.chain r n := by
    rw [hhashes]
    cases n with
    | zero => rfl
    | succ n => rw [range_succ, map_append, map_singleton, getLast?_concat, chain_succ]
  have hpassed : Passed r.mmFeatures (hs.start n) (hs.firstMmIdx r (hs.start n)) := by
    have hzero : Passed r.mmFeatures (hs.start n) 0 := fun f hf => by simp at hf
    unfold firstMmIdx
    split
    · exact hzero
    · split
      · exact passed_bisect h
      · exact hzero
  have hnew : hs.requestBlockHasher r = (range' n (r.numTokens / hs.hashBlockSize - n)).map (hs.hashAt r) := by
    unfold requestBlockHasher
    dsimp only
    rw [hlen, hlast, show n * hs.hashBlockSize = hs.start n from rfl, ← start_succ]
    split_ifs with hshort
    · rw [← not_le, start_le_iff] at hshort
      rw [Nat.sub_eq_zero_of_le (by omega)]
      rfl
    · exact hashFrom_spec h hpassed ((div_le_self _ _).trans (le_add_left _ _))
  have hsame (b : ℕ) : hs.hashAt (hs.updateBlockHashes r) b = hs.hashAt r b :=
    Agree.hashAt (n := b + 1) ⟨rfl, rfl, fun _ _ => rfl, rfl, fun _ _ => rfl⟩ (lt_succ_self b)
  unfold Hashed
  rw [show hs.hashAt (hs.updateBlockHashes r) = hs.hashAt r from funext hsame]
  show r.blockHashes ++ hs.requestBlockHasher r = (range (r.numTokens / hs.hashBlockSize)).map (hs.hashAt r)
  rw [hhashes, hnew, ← map_append, range_eq_range', range_eq_range']
  have happend := range'_append_1 (s := 0) (m := n) (n := r.numTokens / hs.hashBlockSize - n)
  rw [Nat.zero_add, Nat.add_sub_cancel' hn] at happend
  rw [happend]

/-- The scheduler's requests carry one number per block for its extra keys. Whatever code is used for
the keys, their hasher is this one, because a block's keys do not depend on where the scan was taken
up. -/
theorem hashBlocks_eq_hashFrom {R : Request B} {code : Option (List (ExtraKey D)) → ℕ}
    {decode : ℕ → Option (List (ExtraKey D))} (hcode : ∀ keys, decode (code keys) = keys)
    (htokens : R.allTokenIds = r.allTokenIds)
    (hkeys : ∀ b, R.extraKeys b = code (optKeys (hs.blockKeys r b))) (h : InTurn hs.hashBlockSize r.mmFeatures)
    {fuel idx : ℕ} {prev : Option B} (hpassed : Passed r.mmFeatures (hs.start b) idx) :
    R.hashBlocks (fun parent tokens keys => hs.hashBlockTokens parent tokens (decode keys))
      hs.hashBlockSize fuel (hs.start b) prev = hs.hashFrom r fuel (hs.start b) idx prev := by
  induction fuel generalizing b idx prev with
  | zero => rfl
  | succ fuel ih =>
    obtain ⟨hgen, hnext⟩ := generateBlockHashExtraKeys_spec h hpassed
    have hblock : hs.start b / hs.hashBlockSize = b := Nat.mul_div_cancel b hs.hashBlockSize_pos
    unfold Request.hashBlocks hashFrom
    dsimp only
    rw [← start_succ, hgen, hblock, hkeys, hcode, htokens]
    have hnum : R.numTokens = r.numTokens := congrArg length htokens
    rw [hnum]
    split
    next hfull => rw [if_neg (not_lt.2 hfull), ih hnext]
    next hshort => rw [if_pos (not_le.1 hshort)]

/-! ### Histories of a request -/

/-- What `_update_request_as_session` does to the hashed fields: the tokens that were not computed and
their hashes go, and the next chunk's items are moved behind the tokens that stay. -/
def mergeChunk (hs : BlockHasher E D B) (r : HashInput E B) (numComputedTokens : ℕ) (tokens : List ℕ)
    (features : List MultiModalFeatureSpec) : HashInput E B :=
  let kept := r.allTokenIds.take numComputedTokens
  { r with
    allTokenIds := kept ++ tokens
    blockHashes := r.blockHashes.take (numComputedTokens / hs.hashBlockSize)
    mmFeatures := r.mmFeatures ++ features.map (MultiModalFeatureSpec.shift kept.length) }

/-- A request is created, gets output tokens and, in a session, further chunks; its hashes are brought
up to date each time. -/
inductive History (hs : BlockHasher E D B) : HashInput E B → Prop
  | create (r : HashInput E B) (hnew : r.blockHashes = []) : History hs (hs.updateBlockHashes r)
  | append {r : HashInput E B} (h : History hs r) (tokens : List ℕ) :
      History hs (hs.updateBlockHashes { r with allTokenIds := r.allTokenIds ++ tokens })
  | merge {r : HashInput E B} (h : History hs r) (numComputedTokens : ℕ) (tokens : List ℕ)
      (features : List MultiModalFeatureSpec) :
      History hs (hs.updateBlockHashes (hs.mergeChunk r numComputedTokens tokens features))

/-- What a request keeps of its hashes still belongs to what it keeps of its tokens. -/
theorem Hashed.update (h : Hashed hs r) (hturn : InTurn hs.hashBlockSize r'.mmFeatures)
    (hn : n ≤ r.numTokens / hs.hashBlockSize) (hagree : Agree hs r r' n)
    (hkept : r'.blockHashes = r.blockHashes.take n) (hn' : n ≤ r'.numTokens / hs.hashBlockSize) :
    Hashed hs (hs.updateBlockHashes r') := by
  refine requestBlockHasher_spec hturn hn' ?_
  rw [hkept, h, ← map_take, take_range, min_eq_left hn]
  exact map_congr_left fun b hb => hagree.hashAt (mem_range.1 hb)

variable {tokens : List ℕ}

theorem agree_append :
    Agree hs r { r with allTokenIds := r.allTokenIds ++ tokens } (r.numTokens / hs.hashBlockSize) where
  tokens := by
    have hle : hs.start (r.numTokens / hs.hashBlockSize) ≤ r.allTokenIds.length := div_mul_le_self ..
    rw [take_append_of_le_length hle]
  lora := rfl
  items := fun _ _ => rfl
  salt := rfl
  digests := fun _ _ => rfl

theorem agree_mergeChunk {k : ℕ} {features : List MultiModalFeatureSpec}
    (hk : hs.start n ≤ k) (hn : hs.start n ≤ r.numTokens) : Agree hs r (hs.mergeChunk r k tokens features) n where
  tokens := by
    have hle : hs.start n ≤ (r.allTokenIds.take k).length := by
      rw [length_take]
      exact le_min hk hn
    show _ = (r.allTokenIds.take k ++ tokens).take (hs.start n)
    rw [take_append_of_le_length hle, take_take, min_eq_left hk]
  lora := rfl
  items := fun b hb => by
    have hle : hs.start (b + 1) ≤ hs.start n := mul_le_mul_right _ hb
    -- the new items start behind the kept tokens, and the block lies within them
    have hnone : (features.map (shift (r.allTokenIds.take k).length)).filter
        (overlaps (hs.start b) (hs.start (b + 1))) = [] := by
      refine filter_overlaps_eq_nil fun f hf => .inl ?_
      obtain ⟨g, -, rfl⟩ := mem_map.1 hf
      rw [length_take]
      exact (hle.trans (le_min hk hn)).trans (le_add_left _ _)
    unfold HashInput.items mergeChunk
    rw [filter_append, hnone, append_nil]
  salt := rfl
  digests := fun _ _ => rfl

/-- At any time a request's hashes are those of its full blocks, as if made at once. -/
theorem hashed_of_history (h : History hs r) (hturn : InTurn hs.hashBlockSize r.mmFeatures) : Hashed hs r := by
  induction h with
  | create r hnew => exact requestBlockHasher_spec hturn (zero_le _) hnew
  | @append r h tokens ih =>
    have hr : Hashed hs r := ih hturn
    refine hr.update hturn le_rfl agree_append ?_ ?_
    · rw [take_of_length_le]
      rw [hr, length_map, length_range]
    refine Nat.div_le_div_right ?_
    show r.allTokenIds.length ≤ (r.allTokenIds ++ tokens).length
    rw [length_append]
    exact le_add_right _ _
  | @merge r h k tokens features ih =>
    have hr : Hashed hs r := ih (hturn.sublist (sublist_append_left _ _))
    have hmin := min_le_left (k / hs.hashBlockSize) (r.numTokens / hs.hashBlockSize)
    have hmin' := min_le_right (k / hs.hashBlockSize) (r.numTokens / hs.hashBlockSize)
    have hk : hs.start (min (k / hs.hashBlockSize) (r.numTokens / hs.hashBlockSize)) ≤ k :=
      (le_div_iff_mul_le hs.hashBlockSize_pos).1 hmin
    refine hr.update hturn hmin' (agree_mergeChunk hk (hs.start_le_iff.2 hmin')) ?_ ?_
    · show r.blockHashes.take _ = _
      rw [hr, ← map_take, ← map_take, take_range, take_range]
      congr 2
      omega
    rw [← start_le_iff]
    show _ ≤ (r.allTokenIds.take k ++ tokens).length
    rw [length_append, length_take]
    exact (le_min hk (hs.start_le_iff.2 hmin')).trans (le_add_right _ _)

/-! ### Isolation -/

/-- The hash function has no collisions, and never gives the seed. -/
structure Ideal (hs : BlockHasher E D B) : Prop where
  injective : Function.Injective hs.hashFunction
  ne_noneHash : ∀ x, hs.hashFunction x ≠ hs.noneHash

theorem Ideal.parentHash_inj (hideal : Ideal hs) {p p' : Option B} {t t' : List ℕ} {k k' : Option (List (ExtraKey D))}
    (h : hs.parentHash (some (hs.hashBlockTokens p t k)) = hs.parentHash (some (hs.hashBlockTokens p' t' k'))) :
    hs.hashBlockTokens p t k = hs.hashBlockTokens p' t' k' := by
  unfold parentHash at h
  dsimp only at h
  split at h
  next hempty =>
    split at h
    next hempty' => exact hs.isEmpty_unique _ _ hempty hempty'
    · exact absurd h.symm (hideal.ne_noneHash _)
  · split at h
    · exact absurd h (hideal.ne_noneHash _)
    · exact h

theorem optKeys_inj {keys keys' : List (ExtraKey D)} (h : optKeys keys = optKeys keys') : keys = keys' := by
  unfold optKeys at h
  split at h
  next hnil =>
    split at h
    next hnil' => rw [hnil, hnil']
    · cases h
  · split at h
    · cases h
    · exact Option.some.inj h

/-- Two chains meet only if they are made of the same blocks. -/
theorem Ideal.chain_inj (hideal : Ideal hs) (h : hs.chain r n = hs.chain r' n) :
    ∀ b < n, hs.blockTokens r b = hs.blockTokens r' b ∧ hs.blockKeys r b = hs.blockKeys r' b := by
  induction n with
  | zero => exact fun b hb => absurd hb (not_lt_zero b)
  | succ n ih =>
    have heq := hideal.injective (Option.some.inj h)
    rw [Prod.mk.injEq, Prod.mk.injEq] at heq
    obtain ⟨hparent, htokens, hkeys⟩ := heq
    have hprev : hs.chain r n = hs.chain r' n := by
      cases n with
      | zero => rfl
      | succ n => exact congrArg some (hideal.parentHash_inj hparent)
    intro b hb
    rcases Nat.lt_succ_iff_lt_or_eq.1 hb with hb | rfl
    · exact ih hprev b hb
    · exact ⟨htokens, optKeys_inj hkeys⟩

end BlockHasher

/-! The kinds of keys can be told apart. -/

namespace ExtraKey

def asLora : ExtraKey D → Option LoRARequest
  | .lora loraName loraPath => some ⟨loraName, loraPath⟩
  | _ => none

def asMm : ExtraKey D → Option (ℕ × ℤ)
  | .mm identifier offset => some (identifier, offset)
  | _ => none

def asCacheSalt : ExtraKey D → Option String
  | .cacheSalt salt => some salt
  | _ => none

def asPromptEmbeds : ExtraKey D → Option D
  | .promptEmbeds embedsHash => some embedsHash
  | _ => none

end ExtraKey

namespace BlockHasher

variable {hs : BlockHasher E D B} {r r' : HashInput E B}

theorem eq_of_toList_eq {α : Type} {o o' : Option α} (h : o.toList = o'.toList) : o = o' := by
  cases o <;> cases o' <;> simp_all

theorem filterMap_toList_map {α β γ : Type} (o : Option α) (g : α → β) (f : β → Option γ) :
    (o.map g).toList.filterMap f = (o.bind fun a => f (g a)).toList := by
  cases o with
  | none => rfl
  | some a => cases h : f (g a) <;> simp [h]

theorem filterMap_blockKeys {γ : Type} (kind : ExtraKey D → Option γ) (b : ℕ) : (hs.blockKeys r b).filterMap kind =
      (r.loraRequest.bind fun lora => kind (.lora lora.loraName lora.loraPath)).toList ++
        (r.items (hs.start b) (hs.start (b + 1))).filterMap (fun item => kind (.mm item.1 item.2)) ++
        (if b = 0 then (r.salt.bind fun s => kind (.cacheSalt s)).toList else []) ++
        ((hs.digest r b).bind fun d => kind (.promptEmbeds d)).toList := by
  unfold blockKeys
  rw [filterMap_append, filterMap_append, filterMap_append, filterMap_toList_map, filterMap_map, filterMap_toList_map]
  split
  · rw [filterMap_toList_map]; rfl
  · rfl

theorem blockKeys_asLora (hs : BlockHasher E D B) (r : HashInput E B) (b : ℕ) :
    (hs.blockKeys r b).filterMap ExtraKey.asLora = r.loraRequest.toList := by
  rw [filterMap_blockKeys]
  cases r.loraRequest <;> simp [ExtraKey.asLora]

theorem blockKeys_asMm (hs : BlockHasher E D B) (r : HashInput E B) (b : ℕ) :
    (hs.blockKeys r b).filterMap ExtraKey.asMm = r.items (hs.start b) (hs.start (b + 1)) := by
  simp [filterMap_blockKeys, ExtraKey.asMm]

theorem blockKeys_asCacheSalt (hs : BlockHasher E D B) (r : HashInput E B) (b : ℕ) :
    (hs.blockKeys r b).filterMap ExtraKey.asCacheSalt = if b = 0 then r.salt.toList else [] := by
  simp [filterMap_blockKeys, ExtraKey.asCacheSalt]

theorem blockKeys_asPromptEmbeds (hs : BlockHasher E D B) (r : HashInput E B) (b : ℕ) :
    (hs.blockKeys r b).filterMap ExtraKey.asPromptEmbeds = (hs.digest r b).toList := by
  simp [filterMap_blockKeys, ExtraKey.asPromptEmbeds]

theorem take_eq_of_blockTokens (h : ∀ b < n, hs.blockTokens r b = hs.blockTokens r' b) :
    r.allTokenIds.take (hs.start n) = r'.allTokenIds.take (hs.start n) := by
  induction n with
  | zero => simp [start]
  | succ n ih =>
    rw [start_succ, List.take_add, List.take_add, ih fun b hb => h b (hb.trans (lt_succ_self n))]
    exact congrArg _ (h n (lt_succ_self n))

theorem Ideal.agree_of_chain (hideal : Ideal hs) (hn : 0 < n) (h : hs.chain r n = hs.chain r' n) : Agree hs r r' n := by
  have hblocks := hideal.chain_inj h
  have hkeys (b : ℕ) (hb : b < n) : hs.blockKeys r b = hs.blockKeys r' b := (hblocks b hb).2
  refine ⟨take_eq_of_blockTokens fun b hb => (hblocks b hb).1, ?_, fun b hb => ?_, ?_, fun b hb => ?_⟩
  · refine eq_of_toList_eq ?_
    rw [← blockKeys_asLora hs r 0, hkeys 0 hn, blockKeys_asLora]
  · rw [← blockKeys_asMm, hkeys b hb, blockKeys_asMm]
  · have hsalt := blockKeys_asCacheSalt hs r 0
    rw [hkeys 0 hn, blockKeys_asCacheSalt, if_pos rfl, if_pos rfl] at hsalt
    exact eq_of_toList_eq hsalt.symm
  · refine eq_of_toList_eq ?_
    rw [← blockKeys_asPromptEmbeds, hkeys b hb, blockKeys_asPromptEmbeds]

/-! ### Salts

That the salt keeps requests apart needs nothing of the multi-modal items: it is in the keys of the
first block, and in those of no other. -/

/-- A list of hashes, each made from the one before it, with the salt in the keys of the first. -/
inductive Links (hs : BlockHasher E D B) (salt : Option String) : List B → Prop
  | nil : Links hs salt []
  | snoc {l : List B} (h : Links hs salt l) (tokens : List ℕ) (keys : Option (List (ExtraKey D)))
      (hsalt : (keys.getD []).filterMap ExtraKey.asCacheSalt = if l = [] then salt.toList else []) :
      Links hs salt (l ++ [hs.hashBlockTokens l.getLast? tokens keys])

variable {salt : Option String} {l l' : List B}

theorem Links.take (h : Links hs salt l) (n : ℕ) : Links hs salt (l.take n) := by
  induction h with
  | nil => rw [take_nil]; exact .nil
  | @snoc l h tokens keys hsalt ih =>
    rcases lt_or_ge l.length n with hlt | hge
    · rw [take_of_length_le (by rw [length_append, length_singleton]; omega)]
      exact .snoc h tokens keys hsalt
    · rw [take_append_of_le_length hge]
      exact ih

theorem asCacheSalt_mmKeysFrom {start stop idx : ℕ} {fs : List MultiModalFeatureSpec} :
    (mmKeysFrom (D := D) start stop fs idx).1.filterMap ExtraKey.asCacheSalt = [] := by
  induction fs generalizing idx with
  | nil => rfl
  | cons f fs ih =>
    unfold mmKeysFrom
    split
    · split
      · exact ih
      · split
        · exact ih
        · rfl
    · rfl

theorem asCacheSalt_generate {start stop idx : ℕ} :
    ((hs.generateBlockHashExtraKeys r start stop idx).1.getD []).filterMap ExtraKey.asCacheSalt =
      if start = 0 then r.salt.toList else [] := by
  have hlora : (r.genLoraExtraHashKeys (D := D)).filterMap ExtraKey.asCacheSalt = [] := by
    unfold HashInput.genLoraExtraHashKeys
    cases r.loraRequest <;> rfl
  have hmm : (genMmExtraHashKeys (D := D) r.mmFeatures start stop idx).1.filterMap ExtraKey.asCacheSalt = [] := by
    unfold genMmExtraHashKeys
    split
    · rfl
    · split
      · rfl
      · exact asCacheSalt_mmKeysFrom
  have hembeds : (hs.genPromptEmbedsExtraHashKeys r start stop).filterMap ExtraKey.asCacheSalt = [] := by
    unfold genPromptEmbedsExtraHashKeys
    cases r.promptEmbeds <;> rfl
  have hsalt : (if start = 0 then (r.salt.map (ExtraKey.cacheSalt (D := D))).toList else []).filterMap
      ExtraKey.asCacheSalt = if start = 0 then r.salt.toList else [] := by
    split
    · cases r.salt <;> rfl
    · rfl
  unfold generateBlockHashExtraKeys
  dsimp only
  generalize hkeys : r.genLoraExtraHashKeys ++ (genMmExtraHashKeys r.mmFeatures start stop idx).1 ++
    (if start = 0 then (r.salt.map ExtraKey.cacheSalt).toList else []) ++
    hs.genPromptEmbedsExtraHashKeys r start stop = keys
  have hall : keys.filterMap ExtraKey.asCacheSalt = if start = 0 then r.salt.toList else [] := by
    rw [← hkeys, filterMap_append, filterMap_append, filterMap_append, hlora, hmm, hsalt,
      hembeds, append_nil, nil_append, nil_append]
  split
  next hnil =>
    rw [← hall, hnil]
    rfl
  · exact hall

theorem Links.hashFrom {fuel : ℕ} (h : Links hs r.salt l) (idx : ℕ) :
    Links hs r.salt (l ++ hs.hashFrom r fuel (hs.start l.length) idx l.getLast?) := by
  induction fuel generalizing l idx with
  | zero =>
    show Links hs r.salt (l ++ [])
    rw [append_nil]
    exact h
  | succ fuel ih =>
    unfold BlockHasher.hashFrom
    dsimp only
    split
    · rw [append_nil]
      exact h
    have hnext := Links.snoc h ((r.allTokenIds.drop (hs.start l.length)).take hs.hashBlockSize)
      (hs.generateBlockHashExtraKeys r (hs.start l.length) (hs.start l.length + hs.hashBlockSize) idx).1
      (by simp only [asCacheSalt_generate, hs.start_eq_zero_iff, length_eq_zero_iff])
    have hrest := ih hnext
      (hs.generateBlockHashExtraKeys r (hs.start l.length) (hs.start l.length + hs.hashBlockSize) idx).2
    rwa [length_append, length_singleton, start_succ, getLast?_concat, append_assoc] at hrest

theorem links_updateBlockHashes (r : HashInput E B) (h : Links hs r.salt r.blockHashes) :
    Links hs (hs.updateBlockHashes r).salt (hs.updateBlockHashes r).blockHashes := by
  show Links hs r.salt (r.blockHashes ++ hs.requestBlockHasher r)
  unfold requestBlockHasher
  dsimp only
  split
  · rw [append_nil]
    exact h
  · exact h.hashFrom _

theorem links_of_history (h : History hs r) : Links hs r.salt r.blockHashes := by
  induction h with
  | create r hnew =>
    refine links_updateBlockHashes r ?_
    rw [hnew]
    exact .nil
  | @append r h tokens ih => exact links_updateBlockHashes { r with allTokenIds := r.allTokenIds ++ tokens } ih
  | @merge r h k tokens features ih =>
    exact links_updateBlockHashes (hs.mergeChunk r k tokens features) (Links.take ih _)

section

variable {s s' : String} (hideal : Ideal hs) (hne : s ≠ s') (h : Links hs (some s) l) (h' : Links hs (some s') l') {x : B}

include hideal hne h h'

/-- Chains that start from different salts never meet. -/
theorem Links.ne_of_salt (hx : l.getLast? = some x) : l'.getLast? ≠ some x := by
  induction h generalizing l' x with
  | nil => cases hx
  | @snoc l h tokens keys hsalt ih =>
    cases h' with
    | nil => exact nofun
    | @snoc l' h' tokens' keys' hsalt' =>
      intro hx'
      rw [getLast?_concat] at hx hx'
      have heq := hideal.injective ((Option.some.inj hx).trans (Option.some.inj hx').symm)
      rw [Prod.mk.injEq, Prod.mk.injEq] at heq
      obtain ⟨hparent, -, hkeys⟩ := heq
      rw [hkeys, hsalt'] at hsalt
      rcases h with _ | ⟨h, t, k, hs1⟩
      · rcases h' with _ | ⟨h', t', k', hs2⟩
        · simp at hsalt
          exact hne hsalt.symm
        · simp at hsalt
      rcases h' with _ | ⟨h', t', k', hs2⟩
      · simp at hsalt
      · rw [getLast?_concat, getLast?_concat] at hparent
        refine ih (.snoc h' t' k' hs2) (getLast?_concat) ?_
        rw [getLast?_concat, hideal.parentHash_inj hparent]

theorem Links.disjoint_of_salt (hx : x ∈ l) : x ∉ l' := by
  intro hx'
  obtain ⟨i, hi⟩ := mem_iff_getElem?.1 hx
  obtain ⟨j, hj⟩ := mem_iff_getElem?.1 hx'
  -- the prefixes that end with the common hash
  refine Links.ne_of_salt hideal hne (h.take (i + 1)) (h'.take (j + 1)) (x := x) ?_ ?_
  · rw [getLast?_take, if_neg (Nat.succ_ne_zero i), Nat.add_sub_cancel, hi]
    rfl
  · rw [getLast?_take, if_neg (Nat.succ_ne_zero j), Nat.add_sub_cancel, hj]
    rfl

end

/-- The hashes of a request whose items are in turn. -/
theorem getElem?_blockHashes (h : History hs r) (hturn : InTurn hs.hashBlockSize r.mmFeatures)
    (hn : hs.start (n + 1) ≤ r.numTokens) : r.blockHashes[n]? = hs.chain r (n + 1) := by
  have hlt := hs.start_le_iff.1 hn
  rw [hashed_of_history h hturn, getElem?_map, getElem?_range hlt, chain_succ]
  rfl

variable (hs) in
/-- `append_output_token_ids`, call after call. -/
def appendOutputTokenIds (r : HashInput E B) (calls : List (List ℕ)) : HashInput E B :=
  calls.foldl (fun r tokenIds => hs.updateBlockHashes { r with allTokenIds := r.allTokenIds ++ tokenIds }) r

theorem History.appendOutputTokenIds (h : History hs r) (calls : List (List ℕ)) :
    History hs (hs.appendOutputTokenIds r calls) := by
  induction calls generalizing r with
  | nil => exact h
  | cons tokenIds calls ih => exact ih (h.append tokenIds)

theorem appendOutputTokenIds_eq (r : HashInput E B) (calls : List (List ℕ)) :
    ∃ hashes, hs.appendOutputTokenIds r calls =
      { r with allTokenIds := r.allTokenIds ++ calls.flatten, blockHashes := hashes } := by
  induction calls generalizing r with
  | nil => exact ⟨r.blockHashes, by simp [BlockHasher.appendOutputTokenIds]⟩
  | cons tokenIds calls ih =>
    obtain ⟨hashes, heq⟩ := ih (hs.updateBlockHashes { r with allTokenIds := r.allTokenIds ++ tokenIds })
    refine ⟨hashes, heq.trans ?_⟩
    simp [updateBlockHashes]

/-- **Hashing on after every call gives the hashes of one call on all tokens**, and every block is hashed
with the keys of the items that overlap it, wherever the scan over the items is taken up. -/
theorem incremental_eq_once (hnew : r.blockHashes = []) (hsep : Separate r.mmFeatures) (calls : List (List ℕ)) :
    let r' := hs.appendOutputTokenIds (hs.updateBlockHashes r) calls
    r'.blockHashes = hs.requestBlockHasher { r with allTokenIds := r.allTokenIds ++ calls.flatten } ∧
    ∀ b, hs.start (b + 1) ≤ r'.numTokens → ∀ idx, Passed r.mmFeatures (hs.start b) idx →
      let keys := (hs.generateBlockHashExtraKeys r' (hs.start b) (hs.start (b + 1)) idx).1
      r'.blockHashes[b]? = some (hs.hashBlockTokens (hs.chain r' b) (hs.blockTokens r' b) keys) ∧
        (keys.getD []).filterMap ExtraKey.asMm = r.items (hs.start b) (hs.start (b + 1)) := by
  intro r'
  have hhist : History hs r' := (History.create r hnew).appendOutputTokenIds calls
  obtain ⟨hashes, heq⟩ : ∃ hashes, r' = _ := appendOutputTokenIds_eq (hs.updateBlockHashes r) calls
  have hmm := congrArg HashInput.mmFeatures heq
  change r'.mmFeatures = r.mmFeatures at hmm
  have hturn : InTurn hs.hashBlockSize r.mmFeatures := hsep.inTurn hs.hashBlockSize_pos
  have hturn' : InTurn hs.hashBlockSize r'.mmFeatures := hmm ▸ hturn
  constructor
  · have honce : Hashed hs _ := hashed_of_history
      (.create { r with allTokenIds := r.allTokenIds ++ calls.flatten } hnew) hturn
    have happ : hs.requestBlockHasher { r with allTokenIds := r.allTokenIds ++ calls.flatten } =
        (hs.updateBlockHashes { r with allTokenIds := r.allTokenIds ++ calls.flatten }).blockHashes := by
      unfold updateBlockHashes
      rw [hnew, nil_append]
    rw [happ, hashed_of_history hhist hturn', honce]
    -- the two requests differ in nothing that is hashed
    have hnum := congrArg HashInput.numTokens heq
    rw [hnum]
    refine map_congr_left fun b _ => Agree.hashAt ?_ (lt_succ_self b)
    rw [heq]
    exact ⟨rfl, rfl, fun _ _ => rfl, rfl, fun _ _ => rfl⟩
  · intro b hb idx hpassed keys
    have hkeys : keys = optKeys (hs.blockKeys r' b) :=
      (generateBlockHashExtraKeys_spec hturn' (hmm ▸ hpassed)).1
    rw [hkeys]
    refine ⟨getElem?_blockHashes hhist hturn' hb, ?_⟩
    have hall : (optKeys (hs.blockKeys r' b)).getD [] = hs.blockKeys r' b := by
      unfold optKeys
      split_ifs with hnil
      · rw [hnil, Option.getD_none]
      · rfl
    rw [hall, blockKeys_asMm]
    unfold HashInput.items
    rw [hmm]

end BlockHasher

/-- Hashes that record what they were made of. -/
inductive HashTree where
  | seed
  | node (parent : HashTree) (tokens : List ℕ) (keys : Option (List (ExtraKey (List ℕ))))

def treeHasher : BlockHasher ℕ (List ℕ) HashTree where
  hashBlockSize := 4
  hashBlockSize_pos := Nat.succ_pos 3
  hashFunction := fun x => .node x.1 x.2.1 x.2.2
  noneHash := .seed
  isEmpty := fun _ => false
  isEmpty_unique := fun _ _ h => Bool.noConfusion h
  embedsDigest := id

theorem treeHasher_ideal : treeHasher.Ideal where
  injective := by
    rintro ⟨p, t, k⟩ ⟨p', t', k'⟩ h
    injection h with hp ht hk
    exact Prod.ext hp (Prod.ext ht hk)
  ne_noneHash := fun _ h => HashTree.noConfusion h

/-- Six tokens with one picture over the first three. -/
def picturePrompt (last : ℕ) : HashInput ℕ HashTree where
  allTokenIds := [9, 9, 9, 1, 2, last]
  mmFeatures := [⟨7, ⟨0, 3, none⟩⟩]

/-- Six tokens, the first four of them the placeholders of a clip and of its sound track. -/
def clipPrompt (last : ℕ) : HashInput ℕ HashTree where
  allTokenIds := [9, 9, 9, 8, 2, last]
  mmFeatures := [⟨1, ⟨0, 4, none⟩⟩, ⟨2, ⟨0, 4, none⟩⟩]

theorem incremental_eq_once_picture :
    (treeHasher.appendOutputTokenIds (treeHasher.updateBlockHashes (picturePrompt 5)) [[3], [4, 6]]).blockHashes =
      treeHasher.requestBlockHasher { picturePrompt 5 with allTokenIds := [9, 9, 9, 1, 2, 5, 3, 4, 6] } :=
  (BlockHasher.incremental_eq_once (r := picturePrompt 5) rfl (pairwise_singleton _ _) [[3], [4, 6]]).1

/-- A video with its sound track: two items over the same eight placeholders, six for the frames and
two for the sound. -/
def videoPrompt (track : ℕ) : HashInput ℕ HashTree where
  allTokenIds := [9, 9, 9, 8, 9, 9, 9, 8]
  mmFeatures :=
    [⟨1, ⟨0, 8, some [true, true, true, false, true, true, true, false]⟩⟩,
      ⟨track, ⟨0, 8, some [false, false, false, true, false, false, false, true]⟩⟩]

end VllmRwkv
