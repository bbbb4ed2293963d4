import VllmRwkv.Cache.HitSound

/-!
# Lookups return the longest hit

`Finds` says that a lookup returns a hit; here, that there is no longer one. What a hit of a given length
needs is said on the content of the cache, for each class in its own terms.

* Sliding windows: the scan skips a length only when a block of its window is missing. `Reached` says which
  hits it comes upon. It misses one whose block for EAGLE lies past the given length, and cuts one short: a
  run that reaches the start, looked up for EAGLE in blocks smaller than the alignment, is aligned before its
  last block is dropped, and once more after.
* Chunked local attention: the greatest length, but where a chunk starts inside a block that is not cached, a
  hit may count a block as computed that its next token attends to.
-/

namespace VllmRwkv

open List Nat CacheConfig BlockHashToBlockMap

namespace LookupArgs

variable {H : Type} {a : LookupArgs H} {p : BlockPool H}
  {rows : List (List KVCacheBlock)} {row : List KVCacheBlock} {i k length window chunk : ℕ}

variable (a p) in
/-- The row of block `i`, under the hash that ends it. -/
def blockRow (i : ℕ) : Option (List KVCacheBlock) :=
  a.boundaryRow p ((i + 1) * (a.blockSize / p.hashBlockSize))

theorem boundaryRow_eq_blockRow (hw : a.WellFormed p) {j : ℕ} (h : j * p.hashBlockSize = (i + 1) * a.blockSize) :
    a.boundaryRow p j = a.blockRow p i := by
  unfold blockRow
  rw [eq_of_mul_eq_mul_right hw.hashBlockSize_pos (h.trans _)]
  rw [Nat.mul_assoc, Nat.div_mul_cancel hw.dvd]

theorem Backs.blockRow_eq (h : a.Backs p length i row) (hw : a.WellFormed p) (hle : (i + 1) * a.blockSize ≤ length) :
    a.blockRow p i = some row := by
  obtain ⟨j, -, h2, h3, hrow⟩ := h
  rw [← boundaryRow_eq_blockRow hw (j := j) (by omega), hrow]

theorem Follows.blockRow_isSome (h : a.Follows p length) (hw : a.WellFormed p) (hal : a.blockSize ∣ a.alignmentTokens)
    (hdvd : a.blockSize ∣ length) : (a.blockRow p (length / a.blockSize)).isSome := by
  obtain ⟨j, h1, h2, hrow⟩ := h
  rw [← boundaryRow_eq_blockRow hw (le_antisymm h2 (le_trans (le_min ?_ le_rfl) h1))]
  · exact hrow
  · rw [min_eq_right (Nat.le_of_dvd hw.alignment_pos hal), Nat.add_mul, Nat.one_mul, Nat.div_mul_cancel hdvd]

theorem nullBlock_notMem_row (hnull : ∀ key, p.nullBlock ∉ p.cachedBlockHashToBlock.blocks key) {j : ℕ}
    (h : a.boundaryRow p j = some row) : p.nullBlock ∉ row := by
  obtain ⟨hash, -, hrow⟩ := Option.bind_eq_some_iff.1 h
  obtain ⟨hlen, hget⟩ := getCachedBlock_getElem? hrow
  intro hmem
  obtain ⟨k, hk, heq⟩ := getElem_of_mem hmem
  obtain ⟨b, hb, hkb⟩ := hget k _ (getElem?_eq_getElem (hlen ▸ hk))
  rw [getElem?_eq_getElem hk, heq] at hkb
  cases hkb
  exact hnull _ hb

/-! ## Sliding windows -/

section Window

variable (a p) (window length : ℕ)

/-- A hit of a sliding window: the blocks of the last `window - 1` tokens are cached, and for EAGLE the
block that follows. -/
structure WindowHit : Prop where
  le_max : length ≤ a.maxLength
  aligned : a.alignmentTokens ∣ length
  cached : ∀ i, i * a.blockSize < length → length < (i + 1) * a.blockSize + (window - 1) → (a.blockRow p i).isSome
  follows : a.dropEagleBlock → (a.blockRow p (length / a.blockSize)).isSome

/-- The lookup comes upon a hit of this length. For EAGLE the block that follows lies within the tokens looked
up, and the hit is as long as the window unless blocks are of the size of the alignment. A window of one
token, which needs no block, still asks for one. -/
structure Reached : Prop where
  eagle : a.dropEagleBlock →
    length + a.blockSize ≤ a.maxLength ∧ (a.blockSize = a.alignmentTokens ∨ window - 1 ≤ length)
  last : a.dropEagleBlock = false → window ≤ 1 → (a.blockRow p (length / a.blockSize - 1)).isSome

end Window

theorem cdiv_window_pos (hpos : 0 < a.blockSize) (hwindow : 1 < window) : 0 < cdiv (window - 1) a.blockSize :=
  (lt_cdiv_iff hpos).2 (by omega)

/-- In blocks: a hit needs the blocks of its window and the one for EAGLE. -/
theorem WindowHit.isSome (h : a.WindowHit p window (k * a.blockSize)) (hr : a.Reached p window (k * a.blockSize))
    (hpos : 0 < a.blockSize) (hlo : k + a.eagleBlocks ≤ i + max 1 (cdiv (window - 1) a.blockSize + a.eagleBlocks))
    (hhi : i < k + a.eagleBlocks) : (a.blockRow p i).isSome := by
  by_cases hdrop : a.dropEagleBlock
  · have hone : a.eagleBlocks = 1 := if_pos hdrop
    by_cases hik : i < k
    · refine h.cached i (Nat.mul_lt_mul_of_pos_right hik hpos) ?_
      have hlt := (lt_cdiv_iff hpos).1 (show k - (i + 1) < cdiv (window - 1) a.blockSize by omega)
      rw [Nat.sub_mul] at hlt
      omega
    · have hrow := h.follows hdrop
      rw [Nat.mul_div_cancel _ hpos] at hrow
      obtain rfl : i = k := by omega
      exact hrow
  · have hzero : a.eagleBlocks = 0 := if_neg hdrop
    by_cases hwindow : 1 < window
    · have := cdiv_window_pos hpos hwindow
      refine h.cached i (Nat.mul_lt_mul_of_pos_right (by omega) hpos) ?_
      have hlt := (lt_cdiv_iff hpos).1 (show k - (i + 1) < cdiv (window - 1) a.blockSize by omega)
      rw [Nat.sub_mul] at hlt
      omega
    · have hrow := hr.last (by simpa using hdrop) (by omega)
      rw [Nat.mul_div_cancel _ hpos] at hrow
      have : cdiv (window - 1) a.blockSize = 0 := by
        rw [show window - 1 = 0 by omega]
        exact Nat.eq_zero_of_not_pos fun hlt => absurd ((lt_cdiv_iff hpos).1 hlt) (by omega)
      obtain rfl : i = k - 1 := by omega
      exact hrow

/-- Only rows past the last aligned length are popped. -/
theorem le_popUnaligned (hal : a.alignmentTokens ∣ k * a.blockSize) (hk : k ≤ rows.length) :
    k ≤ (a.popUnaligned rows).length := by
  have hgo : ∀ m, k ≤ m → k ≤ popUnaligned.go a m := by
    intro m hm
    induction m with
    | zero => exact hm
    | succ m ih =>
      unfold popUnaligned.go
      split_ifs with hmod
      · exact hm
      refine ih (Nat.lt_succ_iff.1 (lt_of_le_of_ne hm ?_))
      rintro rfl
      exact hmod (mod_eq_zero_of_dvd hal)
  unfold popUnaligned
  split
  · exact hk
  · rw [length_take]
    exact le_min (hgo _ hk) hk

/-- The scan passes no hit that it comes upon: every one ends, with the block for EAGLE, at or before the run
in progress. -/
theorem windowScan_longest {view : List H} (hw : a.WellFormed p) (hv : a.Views p view) {needed : ℕ}
    (hneeded : needed = cdiv (window - 1) a.blockSize + a.eagleBlocks) (hk : a.WindowHit p window (k * a.blockSize))
    (hr : a.Reached p window (k * a.blockSize)) (i : ℕ) (rows : List (List KVCacheBlock)) (contiguous : ℕ)
    (hlt : contiguous < max 1 needed) (hrows : contiguous ≤ rows.length) (hi : i ≤ a.maxLength / a.blockSize)
    (hle : k + a.eagleBlocks ≤ i + contiguous) {res : List (List KVCacheBlock)}
    (hres : a.windowScan p view needed i rows contiguous = .ok res) : k + a.eagleBlocks ≤ res.length := by
  induction i generalizing rows contiguous with
  | zero =>
    cases hres
    -- the run that reaches the start: nothing is popped before the drop for EAGLE
    refine le_popUnaligned ?_ (by rw [length_take]; omega)
    by_cases hdrop : a.dropEagleBlock
    · have hone : a.eagleBlocks = 1 := if_pos hdrop
      rcases (hr.eagle hdrop).2 with heq | hlong
      · exact heq ▸ dvd_mul_left _ _
      · have hwhole : cdiv (window - 1) a.blockSize ≤ k := by
          by_contra hnot
          exact absurd ((lt_cdiv_iff hw.blockSize_pos).1 (not_le.1 hnot)) (not_lt.2 hlong)
        omega
    · rw [show a.eagleBlocks = 0 from if_neg hdrop]
      exact hk.aligned
  | succ i ih =>
    obtain ⟨h, hh, hb⟩ := hv i hi
    unfold windowScan at hres
    simp only [hh, postPopBlocks_eq] at hres
    split at hres
    next hnone => -- block `i` is missing, so no hit reaches over it
      refine ih _ 0 (by omega) (zero_le _) (by omega) ?_ hres
      by_contra hover
      have hsome := hk.isSome hr hw.blockSize_pos (i := i) (by omega) (by omega)
      rw [blockRow, hb, hnone] at hsome
      cases hsome
    split at hres
    next hskip => -- a hit that ends after block `i` would not be aligned
      refine ih _ 0 (by omega) (zero_le _) (by omega) ?_ hres
      by_contra hover
      refine hskip.2.2 (mod_eq_zero_of_dvd ?_)
      rw [show i + 1 - a.eagleBlocks = k by omega]
      exact hk.aligned
    split at hres
    · cases hres
      rw [length_append, length_replicate, length_take, length_cons]
      omega
    · exact ih _ _ (by omega) (succ_le_succ hrows) (by omega) (by omega) hres

section Window

variable {hit : Hit} (hw : a.WellFormed p) (hal : a.blockSize ∣ a.alignmentTokens)
  (hrun : a.windowFindLongestCacheHit p window = .ok hit)
include hw hal hrun

/-- What a lookup returns is a hit. -/
theorem windowHit_of_run (hlen : 0 < hit.2) : a.WindowHit p window hit.2 := by
  have hpos := hw.blockSize_pos
  obtain ⟨hit', heq, hfinds⟩ := windowFindLongestCacheHit_finds hw window 0
  cases hrun.symm.trans heq
  have hdvd := dvd_trans hal hfinds.aligned
  refine ⟨hfinds.le_max, hfinds.aligned, fun i hi hin => ?_, fun hdrop => ?_⟩
  · have hle : (i + 1) * a.blockSize ≤ hit.2 := by
      obtain ⟨k, hk⟩ := exists_eq_mul_left_of_dvd hdvd
      rw [hk] at hi ⊢
      exact Nat.mul_le_mul_right _ (Nat.lt_of_mul_lt_mul_right hi)
    have hlt : i < hit.1.length := hfinds.covers.length_eq ▸ (lt_cdiv_iff hpos).2 hi
    rcases hfinds.covers.row i _ (getElem?_eq_getElem hlt) with hb | ⟨-, hnull⟩
    · rw [hb.blockRow_eq hw hle]
      rfl
    · change _ ≤ hit.2 + 1 - window at hnull
      have : 0 < (i + 1) * a.blockSize := Nat.mul_pos (Nat.succ_pos i) hpos
      omega
  · exact (hfinds.follows hdrop rfl hlen).2.blockRow_isSome hw hal hdvd

/-- No hit that the lookup comes upon is longer. -/
theorem le_of_reached (h : a.WindowHit p window length) (hr : a.Reached p window length) : length ≤ hit.2 := by
  have hpos := hw.blockSize_pos
  obtain ⟨k, rfl⟩ := exists_eq_mul_left_of_dvd (dvd_trans hal h.aligned)
  obtain ⟨view, hview, hv⟩ := resolveBlockHashes_views hw
  have hmax : k + a.eagleBlocks ≤ a.maxLength / a.blockSize := by
    rw [Nat.le_div_iff_mul_le hpos, Nat.add_mul]
    unfold eagleBlocks
    split_ifs with hdrop
    · rw [Nat.one_mul]
      exact (hr.eagle hdrop).1
    · rw [Nat.zero_mul]
      exact h.le_max
  unfold windowFindLongestCacheHit at hrun
  rw [resolveBlockHashes_full (.inl rfl), hview] at hrun
  simp only [bind, Except.bind] at hrun
  split at hrun
  · cases hrun
  rename_i res hres
  cases hrun
  have hle := windowScan_longest hw hv rfl h hr _ [] 0 (by omega) le_rfl le_rfl hmax hres
  refine mul_le_mul_right _ ?_
  split_ifs with hdrop
  · have : a.eagleBlocks = 1 := if_pos hdrop.1
    exact le_popUnaligned h.aligned (by rw [length_dropLast]; omega)
  · omega

/-- A lookup that returns the longest hit has come upon it: a run that reaches the start and is popped for
EAGLE in blocks smaller than the alignment passes over a longer hit. -/
theorem reached_of_longest (hlen : 0 < hit.2) (hlongest : ∀ length, a.WindowHit p window length → length ≤ hit.2) :
    a.Reached p window hit.2 := by
  have hpos := hw.blockSize_pos
  obtain ⟨hit', heq, hfinds⟩ := windowFindLongestCacheHit_finds hw window 0
  cases hrun.symm.trans heq
  obtain ⟨view, hview, hv⟩ := resolveBlockHashes_views hw
  obtain ⟨res, first, hres, hscan, hcases⟩ := windowScan_scanned hv
    (GroupConfig.contiguousBlocksForHit window a.blockSize a.dropEagleBlock) (a.maxLength / a.blockSize) [] 0
    le_rfl (fun k hk => absurd hk (Nat.not_lt_zero k)) fun hk => absurd hk (lt_irrefl 0)
  unfold windowFindLongestCacheHit at hrun
  rw [resolveBlockHashes_full (.inl rfl), hview] at hrun
  simp only [bind, Except.bind, hres] at hrun
  refine ⟨fun hdrop => ⟨?_, ?_⟩, fun hdrop hwindow => ?_⟩
  · exact min_eq_right (le_of_dvd hw.alignment_pos hal) ▸ (hfinds.follows hdrop rfl hlen).1
  · by_contra hnot
    obtain ⟨hsmall, hshort⟩ := not_or.1 hnot
    have hone : a.eagleBlocks = 1 := if_pos hdrop
    have hres_ne : res ≠ [] := by
      rintro rfl
      cases hrun
      simp at hlen
    rw [if_pos ⟨hdrop, hres_ne⟩] at hrun
    have hres_pos := length_pos_iff.2 hres_ne
    rcases hcases with ⟨-, haligned, c, hle, hc, hend, hcached⟩ | ⟨hfirst, hend⟩
    · -- the run of `c` blocks is a hit of `c - 1`, with one for EAGLE
      have hend := hend (by omega)
      rw [hone] at hend
      have hne : res.length ≠ c := by
        rintro rfl
        refine hsmall (Nat.dvd_antisymm hal ?_)
        have hdvd := (Nat.dvd_sub haligned hend)
        rwa [← Nat.sub_mul, Nat.sub_sub_self hres_pos, Nat.one_mul] at hdvd
      have hhit : a.WindowHit p window ((c - 1) * a.blockSize) := by
        refine ⟨?_, hend, fun i hi _ => hcached i ?_, fun _ => ?_⟩
        · exact (Nat.mul_le_mul_right _ (by omega)).trans ((Nat.le_div_iff_mul_le hpos).1 hc)
        · have := Nat.lt_of_mul_lt_mul_right hi
          omega
        · rw [Nat.mul_div_cancel _ hpos]
          exact hcached _ (by omega)
      cases hrun
      have hlt := Nat.le_of_mul_le_mul_right (hlongest _ hhit) hpos
      obtain ⟨k, hk, hpop, -⟩ := popUnaligned_spec res.dropLast
      rw [hpop, length_take, min_eq_left hk] at hlt
      rw [length_dropLast] at hk
      omega
    · have hneeded : GroupConfig.contiguousBlocksForHit window a.blockSize a.dropEagleBlock =
          cdiv (window - 1) a.blockSize + a.eagleBlocks := rfl
      rw [hneeded, hone] at hfirst
      rw [hone] at hend
      rw [popUnaligned_eq_self (by rw [length_dropLast]; exact hend)] at hrun
      cases hrun
      refine hshort (not_lt.1 fun hlt => ?_)
      have := (lt_cdiv_iff hpos).2 hlt
      rw [length_dropLast] at this
      omega
  · have hzero : ¬ (a.dropEagleBlock ∧ res ≠ []) := fun h => by rw [hdrop] at h; cases h.1
    rw [if_neg hzero] at hrun
    cases hrun
    have hres_pos : 0 < res.length := Nat.pos_of_mul_pos_right hlen
    rw [Nat.mul_div_cancel _ hpos]
    rw [blockRow, hscan.cached (res.length - 1) _ (getElem?_eq_getElem (by omega)) (by omega)]
    rfl

end Window

/-- **Sliding windows find the longest hit, exactly if the lookup comes upon it.** -/
theorem window_hit_longest (hw : a.WellFormed p) (hal : a.blockSize ∣ a.alignmentTokens) (window : ℕ) :
    ∃ hit, a.windowFindLongestCacheHit p window = .ok hit ∧ (hit.2 = 0 ∨ a.WindowHit p window hit.2) ∧
      ((∀ length, a.WindowHit p window length → length ≤ hit.2) ↔
        ∀ length, 0 < length → IsGreatest {l | a.WindowHit p window l} length → a.Reached p window length) := by
  obtain ⟨hit, hrun, -⟩ := windowFindLongestCacheHit_finds hw window 0
  have hsound := windowHit_of_run hw hal hrun
  refine ⟨hit, hrun, (Nat.eq_zero_or_pos _).imp_right hsound, fun hlongest length hpos hgreatest => ?_,
    fun hreached length hlen => ?_⟩
  · have hle := hlongest length hgreatest.1
    have hhit := hsound (hpos.trans_le hle)
    rw [le_antisymm hle (hgreatest.2 hhit)]
    exact reached_of_longest hw hal hrun (hpos.trans_le hle) hlongest
  · rcases Nat.eq_zero_or_pos length with rfl | hpos
    · exact Nat.zero_le _
    have hbdd : BddAbove {l | a.WindowHit p window l} := ⟨a.maxLength, fun l hl => hl.le_max⟩
    have hmem := Nat.sSup_mem ⟨length, hlen⟩ hbdd
    have hle := le_csSup hbdd hlen
    exact hle.trans (le_of_reached hw hal hrun hmem
      (hreached _ (hpos.trans_le hle) ⟨hmem, fun _ => le_csSup hbdd⟩))

theorem wellFormed_of_one (hsize : p.hashBlockSize = 1) (hb : 0 < a.blockSize) (ha : 0 < a.alignmentTokens)
    (hal : a.blockSize ∣ a.alignmentTokens ∨ a.alignmentTokens = 1) (hlen : a.maxLength ≤ a.blockHashes.length) :
    a.WellFormed p :=
  ⟨by omega, hb, hsize ▸ one_dvd _, ha, hsize.symm ▸ hal, by rw [hsize, Nat.div_one]; exact hlen⟩

/-- Three blocks of one token, all cached, looked up for EAGLE at even lengths. -/
def evenLookup (dropEagleBlock : Bool) : LookupArgs ℕ := ⟨[7, 8, 9], 3, [0], 1, dropEagleBlock, 2⟩

theorem window_hit_longest_even : ∃ p, poolCaching 1 [⟨7, 0⟩, ⟨8, 0⟩, ⟨9, 0⟩] = some p ∧
    ∃ hit, (evenLookup false).windowFindLongestCacheHit p 4 = .ok hit ∧ hit.2 = 2 ∧
      ∀ length, (evenLookup false).WindowHit p 4 length → length ≤ hit.2 := by
  obtain ⟨p, hp, hsize, rows, hrun⟩ : ∃ p, poolCaching 1 [⟨7, 0⟩, ⟨8, 0⟩, ⟨9, 0⟩] = some p ∧ p.hashBlockSize = 1 ∧
      ∃ rows, (evenLookup false).windowFindLongestCacheHit p 4 = .ok (rows, 2) := ⟨_, rfl, rfl, _, rfl⟩
  obtain ⟨hit, heq, -, hlongest⟩ := window_hit_longest (a := evenLookup false)
    (wellFormed_of_one hsize (by decide) (by decide) (.inl (by decide)) (by decide)) (by decide) 4
  cases hrun.symm.trans heq
  exact ⟨p, hp, _, hrun, rfl, hlongest.2 fun length _ _ => ⟨nofun, nofun⟩⟩

/-- The three blocks are contiguous with the start, and the third is the one for EAGLE: two tokens are a
hit. They are popped to two blocks, then to one for EAGLE, then to none. -/
theorem eagle_hit_popped_twice : ∃ p, poolCaching 1 [⟨7, 0⟩, ⟨8, 0⟩, ⟨9, 0⟩] = some p ∧
    (evenLookup true).windowFindLongestCacheHit p 4 = .ok ([], 0) ∧ (evenLookup true).WindowHit p 4 2 := by
  refine ⟨_, rfl, rfl, by decide, by decide, fun i hi _ => ?_, fun _ => rfl⟩
  match i, hi with
  | 0, _ => rfl
  | 1, _ => rfl

/-! ## Chunked local attention -/

variable (a p) in
/-- A hit of chunked local attention: the blocks with tokens of the chunk of the next token are cached. -/
structure ChunkHit (chunk length : ℕ) : Prop where
  le_max : length ≤ a.maxLength
  aligned : a.blockSize ∣ length
  cached : ∀ i, i * a.blockSize < length → length / chunk * chunk < (i + 1) * a.blockSize → (a.blockRow p i).isSome

variable (a p) in
/-- The lookup sees every block its hit needs: the chunk of the given length starts with a block, or the block
that it starts in is looked up and found, or the hit before that block ends a chunk. -/
def ChunkSeen (chunk : ℕ) : Prop :=
  a.blockSize ∣ a.maxLength / chunk * chunk ∨
  (a.maxLength / chunk * chunk / a.blockSize < a.maxLength / a.blockSize ∧
    (a.blockRow p (a.maxLength / chunk * chunk / a.blockSize)).isSome) ∨
  chunk ∣ a.maxLength / chunk * chunk / a.blockSize * a.blockSize

/-- **Chunked local attention finds no hit too short.** It returns the cached blocks in the places its next
token attends to exactly if it has seen them all. -/
theorem chunk_hit_longest (hw : a.WellFormed p) (hnull : ∀ key, p.nullBlock ∉ p.cachedBlockHashToBlock.blocks key)
    (hgroups : a.kvCacheGroupIds ≠ []) (hdrop : a.dropEagleBlock = false) (hal : a.blockSize = a.alignmentTokens)
    {chunk : ℕ} (hchunk : 0 < chunk) :
    ∃ hit, a.chunkedFindLongestCacheHit p chunk = .ok hit ∧ hit.2 = hit.1.length * a.blockSize ∧
      (∀ length, a.ChunkHit p chunk length → length ≤ hit.2) ∧ ((a.ChunkHit p chunk hit.2 ∧
        ∀ i row, hit.1[i]? = some row → hit.2 / chunk * chunk < (i + 1) * a.blockSize →
          a.blockRow p i = some row ∧ p.nullBlock ∉ row) ↔ a.ChunkSeen p chunk) := by
  have hpos := hw.blockSize_pos
  obtain ⟨rows, heq, hscan, hstart, hstop⟩ := chunkedFindLongestCacheHit_scanned hw chunk hdrop hal
  have hchunks : ∀ length ≤ a.maxLength, length / chunk * chunk ≤ a.maxLength / chunk * chunk :=
    fun length hle => Nat.mul_le_mul_right _ (Nat.div_le_div_right hle)
  refine ⟨_, heq, rfl, fun length hlen => ?_, fun ⟨_, hrows⟩ => ?_, fun hseen => ?_⟩
  · by_contra hlong
    have hlt : rows.length * a.blockSize < length := not_le.1 hlong
    have hmax : rows.length < a.maxLength / a.blockSize := by
      obtain ⟨k, rfl⟩ := exists_eq_mul_left_of_dvd hlen.aligned
      exact lt_of_lt_of_le (Nat.lt_of_mul_lt_mul_right hlt) ((Nat.le_div_iff_mul_le hpos).2 hlen.le_max)
    -- the block where the run stopped is in the chunk of every longer hit
    have hin : length / chunk * chunk < (rows.length + 1) * a.blockSize :=
      lt_of_le_of_lt (hchunks length hlen.le_max) ((div_lt_iff_lt_mul hpos).1 (lt_succ_of_le hstart))
    have hsome := hlen.cached _ hlt hin
    rw [blockRow, hstop hmax] at hsome
    cases hsome
  · -- with the block where the chunk starts missing, the last row is null and in the chunk of the hit
    unfold ChunkSeen
    by_contra hnot
    obtain ⟨-, hrest⟩ := not_or.1 hnot
    obtain ⟨hmissing, hends⟩ := not_or.1 hrest
    have hlen : rows.length = a.maxLength / chunk * chunk / a.blockSize := by
      refine le_antisymm (not_lt.1 fun hlt => hmissing ⟨hlt.trans_le hscan.length_le, ?_⟩) hstart
      rw [blockRow, hscan.cached _ _ (getElem?_eq_getElem hlt) le_rfl]
      rfl
    rw [← hlen] at hends
    have hin : rows.length * a.blockSize / chunk * chunk < rows.length * a.blockSize :=
      lt_of_le_of_ne (Nat.div_mul_le_self _ _) fun h => hends (Dvd.intro_left _ h)
    have hrows_pos : 0 < rows.length := Nat.pos_of_mul_pos_right ((Nat.zero_le _).trans_lt hin)
    have hlast : rows[rows.length - 1]? = some rows[rows.length - 1] := getElem?_eq_getElem _
    have hmem := (hrows _ _ hlast (by rw [Nat.sub_add_cancel hrows_pos]; exact hin)).2
    rw [hscan.null _ _ hlast (by omega)] at hmem
    obtain ⟨g, hg⟩ := exists_mem_of_ne_nil _ hgroups
    exact hmem (mem_map.2 ⟨g, hg, rfl⟩)
  · have hrow : ∀ i row, rows[i]? = some row → rows.length * a.blockSize / chunk * chunk < (i + 1) * a.blockSize →
        a.blockRow p i = some row := by
      intro i row hi hin
      have hlt : i < rows.length := (List.getElem?_eq_some_iff.1 hi).1
      refine hscan.cached i row hi ?_
      rw [← Nat.lt_succ_iff, Nat.div_lt_iff_lt_mul hpos]
      -- a hit that reaches the start of the chunk of the given length ends in that chunk
      have hreach : a.maxLength / chunk * chunk ≤ rows.length * a.blockSize →
          a.maxLength / chunk * chunk < (i + 1) * a.blockSize := fun hle =>
        lt_of_le_of_lt (mul_le_mul_right _ ((Nat.le_div_iff_mul_le hchunk).2 hle)) hin
      have hpast : a.maxLength / chunk * chunk / a.blockSize < rows.length →
          a.maxLength / chunk * chunk < (i + 1) * a.blockSize := fun h =>
        hreach ((Nat.div_lt_iff_lt_mul hpos).1 h).le
      rcases hseen with hdvd | ⟨hlooked, hsome⟩ | hends
      · refine hreach ?_
        rw [← Nat.div_mul_cancel hdvd]
        exact mul_le_mul_right _ hstart
      · refine hpast (lt_of_le_of_ne hstart fun hlen => ?_)
        rw [hlen] at hlooked hsome
        rw [blockRow, hstop hlooked] at hsome
        cases hsome
      · rcases hstart.lt_or_eq with hlt' | hlen
        · exact hpast hlt'
        · rw [hlen] at hends
          rw [Nat.div_mul_cancel hends] at hin
          exact absurd (Nat.lt_of_mul_lt_mul_right hin) (by omega)
    refine ⟨⟨hscan.mul_le, dvd_mul_left _ _, fun i hi hin => ?_⟩, fun i row hi hin =>
      ⟨hrow i row hi hin, nullBlock_notMem_row hnull (hrow i row hi hin)⟩⟩
    rw [hrow i _ (getElem?_eq_getElem (Nat.lt_of_mul_lt_mul_right hi)) hin]
    rfl

/-- Blocks of the given size, with a hash each, and nothing else to look up. -/
def chunkLookup (blockSize maxLength : ℕ) : LookupArgs ℕ := ⟨[7, 8, 9], maxLength, [0], blockSize, false, blockSize⟩

theorem chunk_hit_longest_pair : ∃ p, poolCaching 1 [⟨9, 0⟩] = some p ∧
    ∃ hit, (chunkLookup 1 3).chunkedFindLongestCacheHit p 2 = .ok hit ∧ hit.2 = 3 ∧
      (chunkLookup 1 3).ChunkHit p 2 hit.2 := by
  obtain ⟨p, hp, hsize, ⟨rows, hrun⟩, hnull⟩ : ∃ p, poolCaching 1 [⟨9, 0⟩] = some p ∧ p.hashBlockSize = 1 ∧
      (∃ rows, (chunkLookup 1 3).chunkedFindLongestCacheHit p 2 = .ok (rows, 3)) ∧
      ∀ key, p.nullBlock ∉ p.cachedBlockHashToBlock.blocks key := by
    refine ⟨_, rfl, rfl, ⟨_, rfl⟩, fun key => ?_⟩
    have hempty : (empty : BlockHashToBlockMap ℕ).blocks key = [] := rfl
    simp [mem_insert, hempty]
  obtain ⟨hit, heq, -, -, hhit⟩ := chunk_hit_longest (a := chunkLookup 1 3)
    (wellFormed_of_one hsize (by decide) (by decide) (.inl dvd_rfl) (by decide)) hnull (by decide) rfl rfl
    (show 0 < 2 by decide)
  cases hrun.symm.trans heq
  exact ⟨p, hp, _, hrun, rfl, (hhit.2 (.inl (one_dvd _))).1⟩

/-- Chunks of six tokens in blocks of four, seven tokens to look up: the null block counts for tokens 0 to
3, and token 4 attends to them. -/
theorem chunk_hit_null : ∃ p, poolCaching 4 [] = some p ∧
    (chunkLookup 4 7).chunkedFindLongestCacheHit p 6 = .ok ([[p.nullBlock]], 4) ∧ ¬ (chunkLookup 4 7).ChunkHit p 6 4 :=
  ⟨_, rfl, rfl, fun h => Bool.false_ne_true (h.cached 0 (by decide) (by decide))⟩

end LookupArgs

end VllmRwkv
