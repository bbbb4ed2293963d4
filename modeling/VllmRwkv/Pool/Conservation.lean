import VllmRwkv.Pool.Index

/-!
# Conservation of blocks

`Conserved p xs`: the free queue lists `xs`, and `xs` are exactly the non-null blocks without a
reference. One lemma per function says how it moves references and what happens to the free list.
-/

namespace VllmRwkv.BlockPool

open List Function Raise FreeKVCacheBlockQueue

variable {H : Type}

/-- The free queue lists `xs`, which are exactly the non-null blocks of the pool that nobody
references. -/
structure Conserved (p : BlockPool H) (xs : List KVCacheBlock) : Prop where
  queue : p.freeBlockQueue.Lists xs
  free : ∀ b, b ∈ xs ↔ b ∈ poolBlocks p.numGpuBlocks ∧ p.isNull b = false ∧ p.refCnt b = 0
  nonneg : ∀ b ∈ poolBlocks p.numGpuBlocks, p.isNull b = false → 0 ≤ p.refCnt b
  null : ∀ b, p.isNull b ↔ b = p.nullBlock

/-- What no function of the pool ever changes. -/
structure SamePool (p p' : BlockPool H) : Prop where
  numGpuBlocks : p'.numGpuBlocks = p.numGpuBlocks
  isNull : p'.isNull = p.isNull
  nullBlock : p'.nullBlock = p.nullBlock
  enableCaching : p'.enableCaching = p.enableCaching

variable {p p' p'' : BlockPool H} {xs bs l : List KVCacheBlock}

theorem SamePool.refl (p : BlockPool H) : SamePool p p := ⟨rfl, rfl, rfl, rfl⟩

theorem SamePool.trans (h : SamePool p p') (h' : SamePool p' p'') : SamePool p p'' :=
  ⟨h'.1.trans h.1, h'.2.trans h.2, h'.3.trans h.3, h'.4.trans h.4⟩

theorem SameRefs.samePool (h : SameRefs p p') : SamePool p p' :=
  ⟨h.numGpuBlocks, h.isNull, h.nullBlock, h.enableCaching⟩

theorem Conserved.of_sameRefs (hp : Conserved p xs) (h : SameRefs p p') : Conserved p' xs := by
  refine ⟨h.freeBlockQueue ▸ hp.queue, fun b => ?_, ?_, fun b => ?_⟩
  · rw [h.numGpuBlocks, h.isNull, h.refCnt]; exact hp.free b
  · rw [h.numGpuBlocks, h.isNull, h.refCnt]; exact hp.nonneg
  · rw [h.isNull, h.nullBlock]; exact hp.null b

theorem Conserved.numFree (hp : Conserved p xs) : p.getNumFreeBlocks = xs.length := hp.queue.count

theorem Conserved.numFree_le (hp : Conserved p xs) : p.getNumFreeBlocks ≤ p.numGpuBlocks := by
  have hsub : xs ⊆ poolBlocks p.numGpuBlocks := fun b hb => ((hp.free b).1 hb).1
  have hle := hp.queue.nodup.length_le_of_subset hsub
  unfold poolBlocks at hle
  rw [length_map, length_range] at hle
  rw [hp.numFree]
  exact_mod_cast hle

variable {n : ℕ} {b : KVCacheBlock}

theorem mem_poolBlocks_ne (h : b ∈ poolBlocks n) : b ≠ .fakeHead ∧ b ≠ .fakeTail := by
  obtain ⟨i, -, rfl⟩ := mem_map.1 h
  exact ⟨by simp, by simp⟩

theorem poolBlocks_nodup (n : ℕ) : (poolBlocks n).Nodup := nodup_range.map fun _ _ h => KVCacheBlock.block.inj h

/-! ## The constructor -/

theorem init_ok (n hbs : ℕ) (caching events : Bool) (hn : 0 < n) :
    ∃ p : BlockPool H, init n caching hbs events = .ok p ∧
      Conserved p ((range (n - 1)).map fun i => .block (i + 1)) ∧ p.numGpuBlocks = n ∧
      p.enableCaching = caching ∧ p.nullBlock = .block 0 ∧ (∀ b, p.refCnt b = 0) ∧ IndexOK p := by
  obtain ⟨k, rfl⟩ : ∃ k, n = k + 1 := ⟨n - 1, by omega⟩
  set ys := (range k).map fun i => KVCacheBlock.block (i + 1)
  have hblocks : poolBlocks (k + 1) = .block 0 :: ys := by
    unfold poolBlocks
    rw [range_succ_eq_map, map_cons, map_map]; rfl
  have hsent := fun b (hb : b ∈ poolBlocks (k + 1)) => mem_poolBlocks_ne hb
  have hq := init_lists (poolBlocks_nodup (k + 1)) (fun h => (hsent _ h).1 rfl) (fun h => (hsent _ h).2 rfl)
  rw [hblocks] at hq
  have hpop := popleft_spec hq
  unfold wp at hpop
  unfold init
  rw [if_pos hn, hblocks]
  split at hpop
  next ret q hrun =>
    obtain ⟨rfl, hlist⟩ := hpop
    rw [hrun]
    refine ⟨_, rfl, ⟨hlist, fun b => ?_, fun _ _ _ => Int.le_refl 0, fun b => by simp⟩, rfl, rfl, rfl,
      fun _ => rfl, ⟨fun key b => ?_, fun _ _ => rfl, fun _ h => absurd rfl h⟩⟩
    · have hnd := (nodup_cons.1 (hblocks ▸ poolBlocks_nodup (k + 1))).1
      simp only [hblocks, mem_cons, decide_eq_false_iff_not, and_true]
      constructor
      · intro hb; exact ⟨.inr hb, by rintro rfl; exact hnd hb⟩
      · rintro ⟨h | h, hne⟩
        · exact absurd h hne
        · exact h
    · simp [BlockHashToBlockMap.blocks, BlockHashToBlockMap.empty, keysOf]
  · exact hpop.elim

/-! ## Taking references -/

section Take

variable [DecidableEq H]

/-- One round of the loop of `get_new_blocks`, on a block without a reference. -/
theorem takeBlock_refs (hb : p.refCnt b = 0) : wp (takeBlock b)
      (fun _ p' => p'.refCnt = update p.refCnt b 1 ∧ p'.freeBlockQueue = p.freeBlockQueue ∧ SamePool p p')
      never p := by
  unfold takeBlock
  simp only [wp_bind, wp_get]
  -- the eviction leaves the references alone
  have hev : wp (runIf (p.enableCaching) do let _ ← maybeEvictCachedBlock b) (fun _ p' => SameRefs p p') never p := by
    rw [wp_runIf]
    refine ⟨fun _ => ?_, fun _ => SameRefs.refl p⟩
    unfold maybeEvictCachedBlock
    simp only [wp_bind]
    refine wp_imp removeCachedBlockHashes_spec ?_
    rintro _ p1 ⟨-, -, -, -, hrefs⟩
    split
    · exact hrefs
    simp only [wp_bind, wp_pure, emitBlockRemovedEvents, wp_modify]
    split
    · exact hrefs.trans ⟨rfl, rfl, rfl, rfl, rfl, rfl⟩
    · exact hrefs
  refine wp_imp hev (fun _ p1 h1 => ?_)
  simp only [wp_bind, wp_get]
  rw [wp_check]
  have hb1 : p1.refCnt b = 0 := by rw [h1.refCnt]; exact hb
  refine ⟨fun _ => ⟨?_, h1.freeBlockQueue, h1.samePool.trans ⟨rfl, rfl, rfl, rfl⟩⟩, fun h => absurd hb1 h⟩
  show update p1.refCnt b (p1.refCnt b + 1) = _
  rw [hb1, h1.refCnt]; rfl

/-- **`get_new_blocks` hands out the front of the free list.** -/
theorem getNewBlocks_spec (hp : Conserved p xs) (hn : n ≤ xs.length) : wp (getNewBlocks n)
      (fun ret p' => ret = xs.take n ∧ Conserved p' (xs.drop n) ∧
        (∀ b, p'.refCnt b = if b ∈ ret then 1 else p.refCnt b) ∧ SamePool p p') never p := by
  unfold getNewBlocks
  simp only [wp_bind, wp_get]
  rw [wp_check]
  have hfree := hp.numFree
  refine ⟨fun _ => ?_, fun h => absurd hn (by omega)⟩
  simp only [wp_bind, wp_onQueue]
  refine wp_imp (popleftN_spec hp.queue hn) ?_
  rintro _ q ⟨rfl, hq⟩
  refine wp_imp notifyReuse_spec ?_
  rintro _ p1 ⟨-, hrefs⟩
  rw [wp_bind]
  set ret := xs.take n with hret
  have hnd : xs.Nodup := hp.queue.nodup
  have hretx : ∀ b ∈ ret, b ∈ xs := fun b hb => mem_of_mem_take hb
  -- the counts of the blocks not yet visited are still those before the call
  refine wp_imp (wp_forM (fun rest p' => rest.Sublist ret ∧
      (∀ b, p'.refCnt b = if b ∈ ret ∧ b ∉ rest then 1 else p.refCnt b) ∧
      p'.freeBlockQueue = q ∧ SamePool p p') ?_ ?_) ?_
  rotate_left 2
  · rintro _ p' ⟨-, hcnt, hqueue, hsame⟩
    have hcnt' : ∀ b, p'.refCnt b = if b ∈ ret then 1 else p.refCnt b := by simpa using hcnt
    refine ⟨rfl, ⟨hqueue ▸ hq, fun b => ?_, fun b hb hnull => ?_, fun b => ?_⟩, hcnt', hsame⟩
    · have hsplit : b ∈ xs ↔ b ∈ ret ∨ b ∈ xs.drop n := by
        rw [hret, ← mem_append, take_append_drop]
      have hdis : b ∈ ret → b ∉ xs.drop n := fun h1 h2 =>
        disjoint_take_drop hnd le_rfl h1 h2
      rw [hsame.numGpuBlocks, hsame.isNull, hcnt']
      by_cases hb : b ∈ ret
      · simp [hb, hdis hb]
      · simp only [hb, if_false]
        rw [← hp.free b, hsplit]; simp [hb]
    · rw [hcnt']
      split
      · omega
      · exact hp.nonneg b (hsame.numGpuBlocks ▸ hb) (hsame.isNull ▸ hnull)
    · rw [hsame.isNull, hsame.nullBlock]; exact hp.null b
  · rintro x rest p' ⟨hsub, hcnt, hqueue, hsame⟩
    have hx : x ∈ ret := hsub.subset mem_cons_self
    have hxr : x ∉ rest := (nodup_cons.1 ((hnd.sublist (take_sublist n xs)).sublist hsub)).1
    have hzero : p'.refCnt x = 0 := by
      rw [hcnt]; simp only [mem_cons_self, not_true_eq_false, and_false, if_false]
      exact ((hp.free x).1 (hretx x hx)).2.2
    refine wp_imp (takeBlock_refs hzero) ?_
    rintro _ p2 ⟨h1, h2, h3⟩
    refine ⟨sublist_of_cons_sublist hsub, fun b => ?_, h2.trans hqueue, hsame.trans h3⟩
    rw [h1]
    by_cases hbx : b = x
    · subst hbx; simp [hx, hxr]
    · rw [update_of_ne hbx, hcnt]; simp [hbx]
  · refine ⟨Sublist.refl _, fun b => ?_, hrefs.freeBlockQueue, ?_⟩
    · rw [hrefs.refCnt]; simp
    · exact ⟨hrefs.numGpuBlocks, hrefs.isNull, hrefs.nullBlock, hrefs.enableCaching⟩

/-- **Too many blocks asked for: the pool raises and is unchanged.** -/
theorem getNewBlocks_raises (hp : Conserved p xs) (hn : xs.length < n) : getNewBlocks n p =
      .error (.valueError s!"Cannot get {n} free blocks from the pool") p := by
  have hfree := hp.numFree
  have hnot : ¬ (n : ℤ) ≤ p.getNumFreeBlocks := by omega
  unfold getNewBlocks
  rw [bind_apply]
  show (check ((n : ℤ) ≤ p.getNumFreeBlocks) _ >>= _) p = _
  rw [bind_apply, check, if_neg hnot]
  rfl

end Take

/-- `touch` counts every block once per occurrence and takes the blocks without a reference out of
the free list. -/
theorem touch_spec (hp : Conserved p xs) (hbs : ∀ b ∈ bs, b ∈ poolBlocks p.numGpuBlocks) : wp (touch bs)
      (fun _ p' => Conserved p' (xs.filter (· ∉ bs)) ∧ (∀ b, p'.refCnt b = p.refCnt b + bs.count b) ∧ SamePool p p')
      never p := by
  -- induction on the blocks still to touch
  induction bs generalizing p xs with
  | nil =>
    refine ⟨?_, fun b => by simp, SamePool.refl p⟩
    simpa using hp
  | cons c bs ih =>
    unfold touch
    rw [forM_cons]
    simp only [wp_bind, wp_get]
    -- the first block leaves the free list if it was in it
    have hfirst : wp (runIf (p.refCnt c = 0 ∧ p.isNull c = false) (onQueue (remove c)))
        (fun _ p1 => p1.freeBlockQueue.Lists (xs.filter (· ≠ c)) ∧ p1.refCnt = p.refCnt ∧ SamePool p p1)
        never p := by
      rw [wp_runIf]
      have hmem : c ∈ xs ↔ p.refCnt c = 0 ∧ p.isNull c = false := by
        rw [hp.free]; have := hbs c mem_cons_self; tauto
      refine ⟨fun hc => wp_onQueue.2 ?_, fun hc => ⟨?_, rfl, SamePool.refl p⟩⟩
      · refine wp_imp (remove_spec hp.queue (hmem.2 hc)) (fun _ q hq => ?_)
        refine ⟨?_, rfl, ⟨rfl, rfl, rfl, rfl⟩⟩
        have hbne : xs.filter (· != c) = xs.filter (· ≠ c) :=
          filter_congr fun b _ => by by_cases hbc : b = c <;> simp [hbc]
        rwa [hp.queue.nodup.erase_eq_filter, hbne] at hq
      · rw [filter_eq_self.2]
        · exact hp.queue
        · intro b hb; simp only [decide_eq_true_eq]; rintro rfl; exact hc (hmem.1 hb)
    refine wp_imp hfirst ?_
    rintro _ p1 ⟨hq1, href1, hsame1⟩
    show wp (touch bs) _ _ { p1 with refCnt := update p1.refCnt c (p1.refCnt c + 1) }
    set p2 : BlockPool H := { p1 with refCnt := update p1.refCnt c (p1.refCnt c + 1) } with hp2
    have hsame2 : SamePool p p2 := hsame1.trans ⟨rfl, rfl, rfl, rfl⟩
    have hcnt2 : ∀ b, p2.refCnt b = p.refCnt b + if b = c then 1 else 0 := by
      intro b
      by_cases hbc : b = c
      · subst hbc; simp [hp2, href1]
      · simp [hp2, href1, hbc]
    have hcons : Conserved p2 (xs.filter (· ≠ c)) := by
      refine ⟨hq1, fun b => ?_, fun b hb hnull => ?_, fun b => ?_⟩
      · rw [hsame2.numGpuBlocks, hsame2.isNull, hcnt2]
        simp only [mem_filter, decide_eq_true_eq]
        rw [hp.free b]
        by_cases hbc : b = c
        · subst hbc
          have hc : b ∈ poolBlocks p.numGpuBlocks := hbs b mem_cons_self
          simp only [ne_eq, not_true_eq_false, and_false, if_true, false_iff, not_and]
          intro _ hnull
          have := hp.nonneg b hc hnull
          omega
        · simp [hbc]
      · rw [hcnt2]
        have := hp.nonneg b (hsame2.numGpuBlocks ▸ hb) (hsame2.isNull ▸ hnull)
        split <;> omega
      · rw [hsame2.isNull, hsame2.nullBlock]; exact hp.null b
    refine wp_imp (ih hcons (fun b hb => ?_)) ?_
    · rw [hsame2.numGpuBlocks]; exact hbs b (mem_cons_of_mem _ hb)
    rintro _ p3 ⟨h1, h2, h3⟩
    refine ⟨?_, fun b => ?_, hsame2.trans h3⟩
    · have : (xs.filter (· ≠ c)).filter (· ∉ bs) = xs.filter (· ∉ c :: bs) := by
        rw [filter_filter]
        refine filter_congr fun b _ => ?_
        by_cases hbc : b = c <;> simp [hbc]
      exact this ▸ h1
    rw [h2, hcnt2, count_cons]
    by_cases hbc : b = c
    · subst hbc; simp; omega
    · have : ¬ c = b := fun h => hbc h.symm
      simp [hbc, this]

/-! ## Giving up references -/

/-- The outcome of a loop that gives up one reference per occurrence in `bs`: `l` are the blocks
that lost their last one. -/
structure Released (p p' : BlockPool H) (bs l : List KVCacheBlock) : Prop where
  refCnt : ∀ b, p'.refCnt b = p.refCnt b - bs.count b
  nodup : l.Nodup
  mem : ∀ b, b ∈ l ↔ b ∈ bs ∧ p.isNull b = false ∧ p'.refCnt b = 0
  queue : p'.freeBlockQueue = p.freeBlockQueue
  same : SamePool p p'

/-- The references that are to be given up are there. -/
def Payable (p : BlockPool H) (bs : List KVCacheBlock) : Prop :=
  ∀ b ∈ bs, p.isNull b = false → (bs.count b : ℤ) ≤ p.refCnt b

variable {p1 : BlockPool H} {c : KVCacheBlock}

theorem Payable.tail (h : Payable p (c :: bs))
    (h1 : p1.refCnt = update p.refCnt c (p.refCnt c - 1)) (hnull : p1.isNull = p.isNull) : Payable p1 bs := by
  intro b hmem hb
  have hle := h b (mem_cons_of_mem _ hmem) (hnull ▸ hb)
  rw [h1]
  by_cases hbc : b = c
  · subst hbc
    rw [count_cons_self] at hle
    rw [update_self]
    omega
  · rwa [update_of_ne hbc, ← count_cons_of_ne (Ne.symm hbc)]

/-- Giving up one reference to `c` and then those of `bs`. -/
theorem Released.cons (hcnt : (p.isNull c = false → ((c :: bs).count c : ℤ) ≤ p.refCnt c))
    (h1 : p1.refCnt = update p.refCnt c (p.refCnt c - 1))
    (hq1 : p1.freeBlockQueue = p.freeBlockQueue) (hs1 : SamePool p p1) (h : Released p1 p' bs l) :
    (p1.refCnt c = 0 ∧ p1.isNull c = false → ∀ l', l'.Perm (c :: l) → Released p p' (c :: bs) l') ∧
      (¬ (p1.refCnt c = 0 ∧ p1.isNull c = false) → Released p p' (c :: bs) l) := by
  have hnull : p1.isNull = p.isNull := hs1.isNull
  have hcnt1 : ∀ b, p'.refCnt b = p.refCnt b - (c :: bs).count b := by
    intro b
    rw [h.refCnt, h1, count_cons]
    by_cases hbc : b = c
    · subst hbc; simp; omega
    · have : ¬ c = b := fun h => hbc h.symm
      simp [hbc, this]
  have hc1 : p1.refCnt c = p.refCnt c - 1 := by rw [h1]; simp
  have hcc := hcnt1 c
  rw [count_cons_self] at hcc hcnt
  have hcmem : c ∈ bs ↔ 0 < bs.count c := count_pos_iff.symm
  refine ⟨fun hz l' hl' => ?_, fun hz => ?_⟩
  · have hcbs : c ∉ bs := by
      rw [hcmem]; have := hcnt (hnull ▸ hz.2); omega
    refine ⟨hcnt1, hl'.nodup_iff.2 (nodup_cons.2 ⟨fun hm => hcbs ((h.mem c).1 hm).1, h.nodup⟩),
      fun b => ?_, h.queue.trans hq1, hs1.trans h.same⟩
    rw [hl'.mem_iff, mem_cons, mem_cons, h.mem b, hnull]
    by_cases hbc : b = c
    · subst hbc
      have : bs.count b = 0 := count_eq_zero.2 hcbs
      have hnb : p.isNull b = false := hnull ▸ hz.2
      simp only [true_or, true_and, true_iff]
      exact ⟨hnb, by omega⟩
    · simp [hbc]
  · refine ⟨hcnt1, h.nodup, fun b => ?_, h.queue.trans hq1, hs1.trans h.same⟩
    rw [h.mem b, mem_cons, hnull]
    by_cases hbc : b = c
    · subst hbc
      simp only [true_or, true_and]
      constructor
      · exact fun h => h.2
      rintro ⟨hnb, hzero⟩
      refine ⟨?_, hnb, hzero⟩
      rw [hcmem]
      by_contra hcount
      exact hz ⟨by omega, hnull ▸ hnb⟩
    · simp [hbc]

theorem freeLoop_spec (hcnt : Payable p bs) : wp (freeLoop bs) (fun r p' => Released p p' bs (r.1 ++ r.2)) never p := by
  induction bs generalizing p with
  | nil => exact ⟨fun b => by simp, nodup_nil, fun b => by simp, rfl, SamePool.refl p⟩
  | cons c bs ih =>
    unfold freeLoop
    simp only [wp_bind, addRefCnt, wp_modify, wp_get]
    set p1 : BlockPool H := { p with refCnt := update p.refCnt c (p.refCnt c + -1) }
    refine wp_imp (ih (hcnt.tail rfl rfl)) ?_
    rintro ⟨evictFirst, evictLast⟩ p' hrel
    obtain ⟨hz, hnz⟩ := Released.cons (hcnt c mem_cons_self) (show p1.refCnt = _ from rfl) rfl ⟨rfl, rfl, rfl, rfl⟩ hrel
    split
    next hzero =>
      split
      · exact hz hzero _ (Perm.refl _)
      · exact hz hzero _ perm_middle
    next hzero => exact hnz hzero

variable {w : ReuseWatcher}

theorem unpinLoop_spec (hnull : ∀ b ∈ bs, p.isNull b = false) (hcnt : Payable p bs) :
    wp (unpinLoop w bs) (fun l p' => Released p p' bs l) never p := by
  induction bs generalizing p with
  | nil => exact ⟨fun b => by simp, nodup_nil, fun b => by simp, rfl, SamePool.refl p⟩
  | cons c bs ih =>
    have hn := hnull c mem_cons_self
    have hc := hcnt c mem_cons_self hn
    rw [count_cons_self] at hc
    unfold unpinLoop
    simp only [wp_bind, wp_get]
    rw [wp_check]
    refine ⟨fun _ => ?_, fun h => absurd ⟨by omega, hn⟩ h⟩
    simp only [wp_bind, addRefCnt, wp_modify]
    set p1 : BlockPool H := { p with
      refCnt := update p.refCnt c (p.refCnt c + -1)
      reuseWatchers := update p.reuseWatchers c (some w) } with hp1
    refine wp_imp (ih (fun b hb => hnull b (mem_cons_of_mem _ hb)) (hcnt.tail rfl rfl)) ?_
    intro l p' hrel
    obtain ⟨hz, hnz⟩ := Released.cons (hcnt c mem_cons_self) (show p1.refCnt = _ from rfl) rfl ⟨rfl, rfl, rfl, rfl⟩ hrel
    have hiff : p1.refCnt c = 0 ∧ p1.isNull c = false ↔ p.refCnt c = 1 := by
      have : p1.refCnt c = p.refCnt c - 1 := by simp [hp1, Int.sub_eq_add_neg]
      have hn' : p1.isNull c = false := hn
      simp only [this, hn', and_true]
      omega
    split_ifs with hone
    · exact hz (hiff.2 hone) _ (Perm.refl _)
    · exact hnz fun h => hone (hiff.1 h)

variable (hp : Conserved p xs) (hbs : ∀ b ∈ bs, b ∈ poolBlocks p.numGpuBlocks)

include hp hbs

/-- Hanging the released blocks into the free list restores the balance. -/
theorem Conserved.release {ys : List KVCacheBlock} {q : FreeKVCacheBlockQueue}
    (hcnt : Payable p bs) (h : Released p p' bs l)
    (hys : ys.Perm (l ++ xs)) (hq : q.Lists ys) : Conserved { p' with freeBlockQueue := q } ys := by
  refine ⟨hq, fun b => ?_, fun b hb hnull => ?_, fun b => ?_⟩
  · rw [hys.mem_iff, mem_append, h.mem, hp.free, h.same.numGpuBlocks, h.same.isNull]
    by_cases hb : b ∈ bs
    · have hpos : 0 < bs.count b := count_pos_iff.2 hb
      constructor
      · rintro (⟨-, h1, h2⟩ | ⟨-, h1, h2⟩)
        · exact ⟨hbs b hb, h1, h2⟩
        · have := hcnt b hb h1; omega
      · rintro ⟨-, h1, h2⟩; exact .inl ⟨hb, h1, h2⟩
    have hzero : bs.count b = 0 := count_eq_zero.2 hb
    have := h.refCnt b
    simp only [hb, false_and, false_or]
    constructor <;> rintro ⟨h0, h1, h2⟩ <;> exact ⟨h0, h1, by omega⟩
  · have h1 : p.isNull b = false := by rw [← h.same.isNull]; exact hnull
    have h2 := hp.nonneg b (h.same.numGpuBlocks ▸ hb) h1
    have h3 := h.refCnt b
    show 0 ≤ p'.refCnt b
    by_cases hmem : b ∈ bs
    · have := hcnt b hmem h1; omega
    · have : bs.count b = 0 := count_eq_zero.2 hmem
      omega
  · rw [h.same.isNull, h.same.nullBlock]; exact hp.null b

/-- Blocks that lose their last reference were not in the free list. -/
theorem Released.fresh (hcnt : Payable p bs) (h : Released p p' bs l) :
    ∀ b ∈ l, b ∉ xs ∧ b ≠ .fakeHead ∧ b ≠ .fakeTail := by
  intro b hb
  obtain ⟨hmem, hnull, -⟩ := (h.mem b).1 hb
  refine ⟨fun hx => ?_, mem_poolBlocks_ne (hbs b hmem)⟩
  have h1 := ((hp.free b).1 hx).2.2
  have h2 := hcnt b hmem hnull
  have h3 : 0 < bs.count b := count_pos_iff.2 hmem
  omega

/-- **`free_blocks` gives up one reference per occurrence.** -/
theorem freeBlocks_spec (hcnt : Payable p bs) : wp (freeBlocks bs)
      (fun _ p' => ∃ ys, Conserved p' ys ∧ (∀ b, p'.refCnt b = p.refCnt b - bs.count b) ∧ SamePool p p')
      never p := by
  unfold freeBlocks
  rw [wp_bind]
  refine wp_imp (freeLoop_spec hcnt) ?_
  rintro ⟨evictFirst, evictLast⟩ p1 hrel
  have hfresh := hrel.fresh hp hbs hcnt
  obtain ⟨hnd1, hnd2, hdis⟩ := nodup_append.1 hrel.nodup
  simp only [wp_bind, wp_onQueue]
  refine wp_imp (prependN_spec (hrel.queue ▸ hp.queue) hnd1 fun b hb =>
    hfresh b (mem_append_left _ hb)) (fun _ q hq => ?_)
  refine wp_imp (appendN_spec hq hnd2 fun b hb => ?_) (fun _ q' hq' => ?_)
  · obtain ⟨h1, h2⟩ := hfresh b (mem_append_right _ hb)
    refine ⟨fun hm => ?_, h2⟩
    rcases mem_append.1 hm with hm | hm
    · exact hdis b hm b hb rfl
    · exact h1 hm
  · refine ⟨_, hp.release hbs hcnt hrel ?_ hq', hrel.refCnt, hrel.same.trans ⟨rfl, rfl, rfl, rfl⟩⟩
    rw [append_assoc, append_assoc]
    exact Perm.append_left _ perm_append_comm

theorem unpinBlocks_spec (hnull : ∀ b ∈ bs, p.isNull b = false) (hcnt : Payable p bs) : wp (unpinBlocks bs w)
      (fun _ p' => ∃ ys, Conserved p' ys ∧ (∀ b, p'.refCnt b = p.refCnt b - bs.count b) ∧ SamePool p p')
      never p := by
  unfold unpinBlocks
  rw [wp_bind]
  refine wp_imp (unpinLoop_spec hnull hcnt) ?_
  intro l p1 hrel
  rw [wp_onQueue]
  refine wp_imp (appendN_spec (hrel.queue ▸ hp.queue) hrel.nodup (hrel.fresh hp hbs hcnt)) (fun _ q hq => ?_)
  exact ⟨_, hp.release hbs hcnt hrel perm_append_comm hq, hrel.refCnt, hrel.same.trans ⟨rfl, rfl, rfl, rfl⟩⟩

end VllmRwkv.BlockPool
