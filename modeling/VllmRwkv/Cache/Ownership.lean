import VllmRwkv.Cache.Mamba
import VllmRwkv.Pool.Conservation

/-!
# Who references a block

A group references a block once per occurrence in a row and once per end of a pending copy.
`CacheGroup.Owned o g`: these references, together with `o b` references held by somebody else, are all
counted in the reference count of `b`.

`o` is what makes the statement compositional. References a program has in hand, between taking
blocks and putting them into a row, are part of `o`; so are those of the other groups, which a
program of this group leaves alone whatever they are.
-/

namespace VllmRwkv

open List Raise BlockPool Function

variable {H : Type}

/-- The blocks a list of pending copies keeps alive. -/
def copyEnds (copies : List (KVCacheBlock × KVCacheBlock)) : List KVCacheBlock :=
  copies.flatMap fun c => [c.1, c.2]

/-- The references a manager holds to a block for the requests `rs`. -/
def ManagerState.refsOf (m : ManagerState H) (rs : List RequestId) (b : KVCacheBlock) : ℕ :=
  (rs.map fun r => (m.reqToBlocks r).count b).sum + (copyEnds m.pendingCowCopies).count b

namespace CacheGroup

/-- The references of the group and the `o` references of others are counted, and every block
mentioned is a block of the pool. -/
structure Owned (o : KVCacheBlock → ℕ) (g : CacheGroup H) : Prop where
  conserved : ∃ xs, Conserved g.pool xs
  refs : ∀ rs : List RequestId, rs.Nodup → ∀ b, g.pool.isNull b = false →
    ((g.mgr.refsOf rs b + o b : ℕ) : ℤ) ≤ g.pool.refCnt b
  rows : ∀ r, ∀ b ∈ g.mgr.reqToBlocks r, b ∈ poolBlocks g.pool.numGpuBlocks
  copies : ∀ b ∈ copyEnds g.mgr.pendingCowCopies, b ∈ poolBlocks g.pool.numGpuBlocks
  null : g.pool.nullBlock ∈ poolBlocks g.pool.numGpuBlocks

def numFree (g : CacheGroup H) : ℤ := g.pool.getNumFreeBlocks

variable {o o' : KVCacheBlock → ℕ} {g g' : CacheGroup H} {m' : ManagerState H} {r : RequestId}
  {Q : Unit → CacheGroup H → Prop} {R : PyErr → CacheGroup H → Prop}
  {row bs : List KVCacheBlock} {b : KVCacheBlock}

theorem Owned.mono (hg : Owned o' g) (h : ∀ b, o b ≤ o' b) : Owned o g :=
  ⟨hg.conserved, fun rs hrs b hb => by have := hg.refs rs hrs b hb; have := h b; omega, hg.rows, hg.copies, hg.null⟩

section

variable (hg : Owned o g)

include hg

theorem Owned.isNull_iff : g.pool.isNull b ↔ b = g.pool.nullBlock := by
  obtain ⟨xs, hxs⟩ := hg.conserved
  exact hxs.null b

theorem Owned.ne_nullBlock (hb : g.pool.isNull b = false) : g.pool.nullBlock ≠ b := by
  intro h
  rw [hg.isNull_iff.2 h.symm] at hb
  exact absurd hb (by simp)

theorem Owned.refCnt_pos (hb : b ∈ g.mgr.reqToBlocks r) (hnull : g.pool.isNull b = false) : 0 < g.pool.refCnt b:= by
  have h := hg.refs [r] (nodup_singleton r) b hnull
  have hpos : 0 < (g.mgr.reqToBlocks r).count b := count_pos_iff.2 hb
  simp only [ManagerState.refsOf, map_cons, map_nil, sum_cons, sum_nil] at h
  omega

/-! ## Changing the tables -/

/-- **Moving references around.** Writing one row and the pending copies keeps the balance if the
references the group gains are taken out of `o`. -/
theorem Owned.setMgr (r : RequestId) (hrows : ∀ r' ≠ r, m'.reqToBlocks r' = g.mgr.reqToBlocks r')
    (hcount : ∀ b, g.pool.isNull b = false →
      (m'.reqToBlocks r).count b + (copyEnds m'.pendingCowCopies).count b + o' b ≤
        (g.mgr.reqToBlocks r).count b + (copyEnds g.mgr.pendingCowCopies).count b + o b)
    (hrow : ∀ b ∈ m'.reqToBlocks r, b ∈ poolBlocks g.pool.numGpuBlocks)
    (hcopies : ∀ b ∈ copyEnds m'.pendingCowCopies, b ∈ poolBlocks g.pool.numGpuBlocks) :
    Owned o' { g with mgr := m' } := by
  refine ⟨hg.conserved, fun rs hrs b hb => ?_, fun r' b hb => ?_, hcopies, hg.null⟩
  · have hsame : ∀ r' ≠ r, (m'.reqToBlocks r').count b = (g.mgr.reqToBlocks r').count b :=
      fun r' hr' => by rw [hrows r' hr']
    have hc := hcount b hb
    -- the requests other than `r`, to which `r` can be added
    have hothers : ∀ rs' : List RequestId, rs'.Nodup → r ∉ rs' →
        (m'.refsOf (r :: rs') b + o' b : ℤ) ≤ g.pool.refCnt b := by
      intro rs' hrs' hr'
      have h := hg.refs (r :: rs') (nodup_cons.2 ⟨hr', hrs'⟩) b hb
      have hsum := congrArg sum (map_congr_left fun r' hmem => hsame r' fun heq => hr' (heq ▸ hmem))
      simp only [ManagerState.refsOf, map_cons, sum_cons] at h ⊢
      omega
    show ((m'.refsOf rs b + o' b : ℕ) : ℤ) ≤ g.pool.refCnt b
    by_cases hr : r ∈ rs
    · have hperm := perm_cons_erase hr
      have h := hothers (rs.erase r) (hrs.erase r) (hrs.not_mem_erase)
      have hsum : m'.refsOf rs b = m'.refsOf (r :: rs.erase r) b := by
        unfold ManagerState.refsOf
        rw [(hperm.map fun r => (m'.reqToBlocks r).count b).sum_eq]
      omega
    · have h := hothers rs hrs hr
      simp only [ManagerState.refsOf, map_cons, sum_cons] at h ⊢
      omega
  · by_cases hr : r' = r
    · subst hr; exact hrow b hb
    · rw [show ({ g with mgr := m' } : CacheGroup H).mgr.reqToBlocks r' = _ from hrows r' hr] at hb
      exact hg.rows r' b hb

/-- Writing other tables than rows and pending copies. -/
theorem Owned.setTables (hrows : m'.reqToBlocks = g.mgr.reqToBlocks)
    (hcopies : m'.pendingCowCopies = g.mgr.pendingCowCopies) : Owned o { g with mgr := m' } := by
  refine hg.setMgr 0 (fun _ _ => by rw [hrows]) (fun _ _ => by rw [hrows, hcopies]) ?_ ?_
  · rw [hrows]; exact hg.rows 0
  · rw [hcopies]; exact hg.copies

theorem Owned.setRow (hcount : ∀ b, g.pool.isNull b = false → row.count b + o' b ≤ (g.mgr.reqToBlocks r).count b + o b)
    (hrow : ∀ b ∈ row, b ∈ poolBlocks g.pool.numGpuBlocks) :
    Owned o' { g with mgr := { g.mgr with reqToBlocks := update g.mgr.reqToBlocks r row } } := by
  refine hg.setMgr r (fun r' hr' => by simp [hr']) (fun b hb => ?_) ?_ hg.copies
  · have := hcount b hb
    simp only [update_self]
    omega
  · simpa using hrow

end

theorem Owned.appendRow (hg : Owned (fun b => o b + bs.count b) g) (hbs : ∀ b ∈ bs, b ∈ poolBlocks g.pool.numGpuBlocks)
    (hrows : m'.reqToBlocks = update g.mgr.reqToBlocks r (g.mgr.reqToBlocks r ++ bs))
    (hcopies : m'.pendingCowCopies = g.mgr.pendingCowCopies) : Owned o { g with mgr := m' } := by
  refine hg.setMgr r (fun r' hr' => by rw [hrows]; simp [hr']) (fun b _ => ?_) ?_ ?_
  · rw [hrows, hcopies]; simp [count_append]; omega
  · rw [hrows]
    simp only [update_self, mem_append]
    rintro b (hb | hb)
    · exact hg.rows r b hb
    · exact hbs b hb
  · rw [hcopies]; exact hg.copies

/-! ## Calls on the pool -/

theorem wp_onPool {α : Type} {m : PoolM H α} {Q : α → CacheGroup H → Prop} : wp (onPool m) Q R g ↔
      wp m (fun a p => Q a { g with pool := p }) (fun e p => R e { g with pool := p }) g.pool :=
  wp_zoom

theorem wp_modifyMgr {f : ManagerState H → ManagerState H}
    : wp (modifyMgr f) Q R g ↔ Q () { g with mgr := f g.mgr } := Iff.rfl

theorem wp_setRow : wp (setRow r row) Q R g ↔ Q () { g with mgr := { g.mgr with
        reqToBlocks := update g.mgr.reqToBlocks r row } } := Iff.rfl

variable {p' : BlockPool H}

/-- A call on the pool moves references between the counts and `o`. -/
theorem Owned.setPool (hg : Owned o g) (hcons : ∃ ys, Conserved p' ys) (hsame : SamePool g.pool p')
    (hcnt : ∀ b, g.pool.isNull b = false → g.pool.refCnt b + o' b ≤ p'.refCnt b + o b) :
    Owned o' { g with pool := p' } := by
  refine ⟨hcons, fun rs hrs b hb => ?_, ?_, ?_, ?_⟩
  · have hb' : g.pool.isNull b = false := by rw [← hsame.isNull]; exact hb
    have h1 := hg.refs rs hrs b hb'
    have h2 := hcnt b hb'
    show ((g.mgr.refsOf rs b + o' b : ℕ) : ℤ) ≤ p'.refCnt b
    omega
  · rw [hsame.numGpuBlocks]; exact hg.rows
  · rw [hsame.numGpuBlocks]; exact hg.copies
  · rw [hsame.numGpuBlocks, hsame.nullBlock]; exact hg.null

theorem Owned.of_sameRefs (hg : Owned o g) (h : SameRefs g.pool p') : Owned o { g with pool := p' } := by
  obtain ⟨xs, hxs⟩ := hg.conserved
  exact hg.setPool ⟨xs, hxs.of_sameRefs h⟩ h.samePool fun b _ =>
    Int.le_of_eq (by rw [h.refCnt])

/-- What the caller of `get_new_blocks` knows of the blocks it gets. -/
structure Fresh (g g' : CacheGroup H) (ret : List KVCacheBlock) (k : ℕ) : Prop where
  mgr : g'.mgr = g.mgr
  same : SamePool g.pool g'.pool
  length : ret.length = k
  mem : ∀ b ∈ ret, g.pool.isNull b = false ∧ b ∈ poolBlocks g.pool.numGpuBlocks
  numFree : g'.numFree = g.numFree - k

/-- **Taking blocks.** They are in hand afterwards; the call raises only for lack of blocks. -/
theorem getNewBlocks_owned [DecidableEq H] (hg : Owned o g) (k : ℕ) : wp (onPool (getNewBlocks k))
      (fun ret g' => Owned (fun b => o b + ret.count b) g' ∧ Fresh g g' ret k)
      (fun _ g' => g' = g ∧ g.numFree < k) g := by
  obtain ⟨xs, hxs⟩ := hg.conserved
  have hfree : g.numFree = xs.length := hxs.numFree
  rw [wp_onPool]
  by_cases hk : k ≤ xs.length
  · refine wp_mono (getNewBlocks_spec hxs hk) ?_ (fun _ _ h => h.elim)
    rintro ret p' ⟨rfl, hcons, hcnt, hsame⟩
    have hnd : (xs.take k).Nodup := hxs.queue.nodup.sublist (take_sublist k xs)
    refine ⟨hg.setPool ⟨_, hcons⟩ hsame fun b _ => ?_, ⟨rfl, hsame, by simp [hk], ?_, ?_⟩⟩
    · rw [hcnt, hnd.count]
      by_cases hb : b ∈ xs.take k
      · have := ((hxs.free b).1 (mem_of_mem_take hb)).2.2
        simp only [hb, if_true]; omega
      · simp only [hb, if_false]; omega
    · intro b hb
      have h := (hxs.free b).1 (mem_of_mem_take hb)
      exact ⟨h.2.1, h.1⟩
    · show p'.getNumFreeBlocks = _
      rw [hcons.numFree, hfree, length_drop]; omega
  · have hraise := getNewBlocks_raises (n := k) hxs (by omega)
    unfold wp
    rw [hraise]
    exact ⟨rfl, by omega⟩

theorem filter_notMem_length {xs : List KVCacheBlock} (bs : List KVCacheBlock) (hxs : xs.Nodup) :
    xs.length ≤ (xs.filter (· ∉ bs)).length + bs.countP (· ∈ xs) := by
  have h1 : xs.length = (xs.filter (· ∉ bs)).length + (xs.filter (· ∈ bs)).length := by
    have := length_eq_length_filter_add (l := xs) (fun b => decide (b ∈ bs))
    simp only [decide_not] at this ⊢
    omega
  have h2 : (xs.filter (· ∈ bs)).length ≤ (bs.filter (· ∈ xs)).length := by
    refine (subperm_of_subset (hxs.filter _) fun b hb => ?_).length_le
    simp only [mem_filter, decide_eq_true_eq] at hb ⊢
    exact ⟨hb.2, hb.1⟩
  rw [countP_eq_length_filter]
  omega

/-- **Adopting the blocks of a hit.** They are in hand afterwards, and those that nobody
referenced leave the free queue. -/
theorem touch_owned (hg : Owned o g) (hbs : ∀ b ∈ bs, b ∈ poolBlocks g.pool.numGpuBlocks) : wp (onPool (touch bs))
      (fun _ g' => Owned (fun b => o b + bs.count b) g' ∧ g'.mgr = g.mgr ∧ SamePool g.pool g'.pool ∧
        (∀ b, g.pool.refCnt b ≤ g'.pool.refCnt b) ∧ g.numFree ≤ g'.numFree + getNumEvictableBlocks g.pool bs)
      never g := by
  obtain ⟨xs, hxs⟩ := hg.conserved
  rw [wp_onPool]
  refine wp_imp (touch_spec hxs hbs) ?_
  rintro _ p' ⟨hcons, hcnt, hsame⟩
  refine ⟨hg.setPool ⟨_, hcons⟩ hsame fun b _ => ?_, rfl, hsame, fun b => ?_, ?_⟩
  · rw [hcnt]; omega
  · rw [hcnt]; omega
  have hlen := filter_notMem_length bs hxs.queue.nodup
  have heq : bs.countP (· ∈ xs) = getNumEvictableBlocks g.pool bs := by
    refine countP_congr fun b hb => ?_
    simp only [decide_eq_true_eq]
    rw [hxs.free b]
    have := hbs b hb
    tauto
  show g.pool.getNumFreeBlocks ≤ p'.getNumFreeBlocks + _
  rw [hxs.numFree, hcons.numFree, ← heq]
  exact_mod_cast hlen

/-- **Giving up references in hand.** -/
theorem freeBlocks_owned (hg : Owned (fun b => o b + bs.count b) g)
    (hbs : ∀ b ∈ bs, b ∈ poolBlocks g.pool.numGpuBlocks) :
    wp (onPool (freeBlocks bs)) (fun _ g' => Owned o g' ∧ g'.mgr = g.mgr ∧ SamePool g.pool g'.pool) never g := by
  obtain ⟨xs, hxs⟩ := hg.conserved
  rw [wp_onPool]
  have hcnt : g.pool.Payable bs := by
    intro b _ hb
    have := hg.refs [] nodup_nil b hb
    omega
  refine wp_imp (freeBlocks_spec hxs hbs hcnt) ?_
  rintro _ p' ⟨ys, hys, hrefs, hsame⟩
  refine ⟨hg.setPool ⟨ys, hys⟩ hsame fun b _ => ?_, rfl, hsame⟩
  rw [hrefs]; omega

/-- The pool with one more reference to `b`. -/
def withRef (p : BlockPool H) (b : KVCacheBlock) : BlockPool H :=
  { p with refCnt := update p.refCnt b (p.refCnt b + 1) }

theorem wp_addRefCnt : wp (onPool (addRefCnt b 1)) Q R g ↔ Q () { g with pool := withRef g.pool b } := Iff.rfl

/-- **One more reference to a block that has one.** -/
theorem Owned.withRef (hg : Owned o g) (hb : g.pool.isNull b = false → 0 < g.pool.refCnt b) :
    Owned (fun b' => o b' + [b].count b') { g with pool := withRef g.pool b } := by
  obtain ⟨xs, hxs⟩ := hg.conserved
  have hcnt : ∀ b', (CacheGroup.withRef g.pool b).refCnt b' = g.pool.refCnt b' + [b].count b' := by
    intro b'
    by_cases h : b' = b
    · subst h; simp [CacheGroup.withRef]
    · have h' : ¬ b = b' := fun h' => h h'.symm
      simp [CacheGroup.withRef, h, h']
  have hcons : Conserved (CacheGroup.withRef g.pool b) xs := by
    refine ⟨hxs.queue, fun b' => ?_, fun b' hb' hnull => ?_, hxs.null⟩
    · rw [hxs.free b', hcnt]
      show _ ↔ b' ∈ poolBlocks g.pool.numGpuBlocks ∧ g.pool.isNull b' = false ∧ _
      by_cases h : b' = b
      · subst h
        constructor <;> rintro ⟨_, h1, h2⟩ <;> have := hb h1 <;> omega
      · have h' : ¬ b = b' := fun h' => h h'.symm
        simp [h']
    · rw [hcnt]
      have := hxs.nonneg b' hb' hnull
      omega
  refine hg.setPool ⟨xs, hcons⟩ ⟨rfl, rfl, rfl, rfl⟩ fun b' _ => ?_
  rw [hcnt]
  omega

end CacheGroup

end VllmRwkv
