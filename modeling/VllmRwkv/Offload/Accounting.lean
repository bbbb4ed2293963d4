import VllmRwkv.Offload.Manager

/-!
# The accounts of the offload pool

`Accounts` says that the places below the allocation mark are divided between the free list and the resident
chunks, and that the two counters count. `Loads` compares the reference counts with the loads that are under
way. Every operation of the pool keeps both and raises nothing when it is called as the protocol demands; the
policies enter through `LawfulCachePolicy` only.
-/

namespace VllmRwkv.Offload

open List Dict Prod CachePolicy ChunkStatus LawfulCachePolicy

variable {P Key : Type} [DecidableEq Key] [CachePolicy P Key] [LawfulCachePolicy P Key]

open LawfulCachePolicy (table Ok)

/-! ## Places -/

/-- The places below `n` are divided between the free list and the chunks of a table. -/
structure Places (chunks : Key → Option ChunkStatus) (free : List ℕ) (n : ℕ) : Prop where
  nodup : free.Nodup
  free_lt : ∀ i ∈ free, i < n
  lt : ∀ k c, chunks k = some c → c.chunkId < n
  inj : ∀ k k' c c', chunks k = some c → chunks k' = some c' → c.chunkId = c'.chunkId → k = k'
  disjoint : ∀ k c, chunks k = some c → c.chunkId ∉ free
  cover : ∀ i < n, i ∈ free ∨ ∃ k c, chunks k = some c ∧ c.chunkId = i

section Places

variable {d : Dict Key ChunkStatus} {free free' : List ℕ} {n : ℕ} {k : Key} {c : ChunkStatus}
  {f : Key → Option ChunkStatus}

omit [DecidableEq Key] in
theorem Places.perm (h : Places f free n) (hperm : free.Perm free') : Places f free' n where
  nodup := hperm.nodup_iff.1 h.nodup
  free_lt i hi := h.free_lt i (hperm.mem_iff.2 hi)
  lt := h.lt
  inj := h.inj
  disjoint k c hk hmem := h.disjoint k c hk (hperm.mem_iff.2 hmem)
  cover i hi := (h.cover i hi).imp_left hperm.mem_iff.1

theorem Places.change (h : Places d.get? free n) (hk : d.get? k = some c) {c' : ChunkStatus}
    (hid : c'.chunkId = c.chunkId) : Places (d.set k c').get? free n := by
  -- a chunk of the new table has the place of the old chunk under its key
  have hold : ∀ a x, (d.set k c').get? a = some x → ∃ y, d.get? a = some y ∧ y.chunkId = x.chunkId := by
    intro a x hx
    rcases get?_set_eq_some.1 hx with ⟨rfl, rfl⟩ | ⟨-, hx⟩
    · exact ⟨c, hk, hid.symm⟩
    · exact ⟨x, hx, rfl⟩
  refine ⟨h.nodup, h.free_lt, fun a x hx => ?_, fun a b x y hx hy hxy => ?_, fun a x hx => ?_, fun i hi => ?_⟩
  · obtain ⟨y, hy, heq⟩ := hold a x hx
    rw [← heq]
    exact h.lt a y hy
  · obtain ⟨x', hx', hxeq⟩ := hold a x hx
    obtain ⟨y', hy', hyeq⟩ := hold b y hy
    exact h.inj a b x' y' hx' hy' (hxeq.trans (hxy.trans hyeq.symm))
  · obtain ⟨y, hy, heq⟩ := hold a x hx
    rw [← heq]
    exact h.disjoint a y hy
  rcases h.cover i hi with hfree | ⟨a, x, hx, rfl⟩
  · exact .inl hfree
  right
  by_cases ha : a = k
  · subst ha
    cases hx.symm.trans hk
    exact ⟨a, c', get?_set_self, hid⟩
  · exact ⟨a, x, by rw [get?_set_of_ne ha]; exact hx, rfl⟩

theorem Places.release (h : Places d.get? free n) (hk : d.get? k = some c) :
    Places (d.erase k).get? (free ++ [c.chunkId]) n := by
  refine ⟨?_, fun i hi => ?_, fun a x hx => h.lt a x (get?_erase_eq_some.1 hx).2, fun a b x y hx hy =>
    h.inj a b x y (get?_erase_eq_some.1 hx).2 (get?_erase_eq_some.1 hy).2, fun a x hx hmem => ?_, fun i hi => ?_⟩
  · refine nodup_append.2 ⟨h.nodup, nodup_singleton _, ?_⟩
    rintro i hi j hj rfl
    rw [mem_singleton] at hj
    exact h.disjoint k c hk (hj ▸ hi)
  · rcases mem_append.1 hi with hi | hi
    · exact h.free_lt i hi
    · rw [mem_singleton.1 hi]
      exact h.lt k c hk
  · obtain ⟨hne, hx⟩ := get?_erase_eq_some.1 hx
    rcases mem_append.1 hmem with hmem | hmem
    · exact h.disjoint a x hx hmem
    · exact hne (h.inj a k x c hx hk (mem_singleton.1 hmem))
  · rcases h.cover i hi with hfree | ⟨a, x, hx, rfl⟩
    · exact .inl (mem_append_left _ hfree)
    · by_cases ha : a = k
      · subst ha
        cases hx.symm.trans hk
        exact .inl (mem_append_right _ (mem_singleton.2 rfl))
      · exact .inr ⟨a, x, get?_erase_eq_some.2 ⟨ha, hx⟩, rfl⟩

omit [DecidableEq Key] in
theorem Places.grow (h : Places f free n) (j : ℕ) : Places f (free ++ range' n j) (n + j) := by
  refine ⟨?_, fun i hi => ?_, fun a x hx => (h.lt a x hx).trans_le (Nat.le_add_right n j), h.inj, fun a x hx hmem => ?_,
    fun i hi => ?_⟩
  · refine nodup_append.2 ⟨h.nodup, nodup_range', ?_⟩
    rintro i hi i' hi' rfl
    have := h.free_lt i hi
    have := (mem_range'_1.1 hi').1
    omega
  · rcases mem_append.1 hi with hi | hi
    · have := h.free_lt i hi
      omega
    · exact (mem_range'_1.1 hi).2
  · rcases mem_append.1 hmem with hmem | hmem
    · exact h.disjoint a x hx hmem
    · have := h.lt a x hx
      have := (mem_range'_1.1 hmem).1
      omega
  · by_cases hin : i < n
    · exact (h.cover i hin).imp_left (mem_append_left _)
    · exact .inl (mem_append_right _ (mem_range'_1.2 ⟨by omega, hi⟩))

theorem Places.take (h : Places d.get? (c.chunkId :: free) n) (hk : d.get? k = none) :
    Places (d.set k c).get? free n := by
  obtain ⟨hnot, hnodup⟩ := nodup_cons.1 h.nodup
  have hnew : ∀ a x, (d.set k c).get? a = some x → (a = k ∧ x = c) ∨ d.get? a = some x ∧ x.chunkId ≠ c.chunkId := by
    intro a x hx
    exact (get?_set_eq_some.1 hx).imp_right fun ⟨_, hx⟩ =>
      ⟨hx, fun heq => h.disjoint a x hx (heq ▸ mem_cons_self ..)⟩
  refine ⟨hnodup, fun i hi => h.free_lt i (mem_cons_of_mem _ hi), fun a x hx => ?_, fun a b x y hx hy hxy => ?_,
    fun a x hx hmem => ?_, fun i hi => ?_⟩
  · rcases hnew a x hx with ⟨_, rfl⟩ | ⟨hx, _⟩
    · exact h.free_lt _ mem_cons_self
    · exact h.lt a x hx
  · rcases hnew a x hx with ⟨rfl, rfl⟩ | ⟨hx, hxne⟩
    · rcases hnew b y hy with ⟨rfl, _⟩ | ⟨_, hyne⟩
      · rfl
      · exact absurd hxy.symm hyne
    · rcases hnew b y hy with ⟨_, rfl⟩ | ⟨hy, _⟩
      · exact absurd hxy hxne
      · exact h.inj a b x y hx hy hxy
  · rcases hnew a x hx with ⟨_, rfl⟩ | ⟨hx, _⟩
    · exact hnot hmem
    · exact h.disjoint a x hx (mem_cons_of_mem _ hmem)
  · rcases h.cover i hi with hfree | ⟨a, x, hx, hid⟩
    · rcases mem_cons.1 hfree with rfl | hfree
      · exact .inr ⟨k, c, get?_set_self, rfl⟩
      · exact .inl hfree
    · have hne : a ≠ k := by
        rintro rfl
        cases hk.symm.trans hx
      exact .inr ⟨a, x, by rw [get?_set_of_ne hne]; exact hx, hid⟩

end Places

/-! ## The accounts of the pool -/

/-- A chunk that is being written. -/
def ChunkStatus.writePending (chunk : ChunkStatus) : Bool := !chunk.isReady

/-- The accounts of a pool of `cap` chunks. -/
structure Accounts (cap : ℕ) (p : Pool P) : Prop where
  policy : Ok p.policy
  numChunks : p.numChunks = cap
  allocated : p.numAllocatedChunks ≤ p.numChunks
  places : Places (table p.policy).get? p.freeList p.numAllocatedChunks
  evictable : p.numEvictableCacheChunks = (table p.policy).countVals idle
  pending : p.numWritePendingChunks = (table p.policy).countVals writePending

/-- The number of loads that the reference count of a key stands for. -/
def refs : Option ChunkStatus → ℤ
  | none => 0
  | some chunk => max chunk.refCnt 0

/-- The reference counts are those of the loads under way. -/
def Loads (p : Pool P) (loads : Multiset Key) : Prop :=
  ∀ k, (loads.count k : ℤ) = refs ((table p.policy).get? k)

variable {cap : ℕ} {p : Pool P} {loads : Multiset Key} {k : Key} {c : ChunkStatus} {policy : P}

/-- A counter follows the chunks that it counts. -/
theorem follows {m m' : ℕ} {a a' : ℤ} {b b' : Bool}
    (h : m' + (if b' then 1 else 0) = m + if b then 1 else 0) (ha : a = m)
    (ha' : a' + (if b' then 1 else 0) = a + if b then 1 else 0) : a' = m' := by
  split_ifs at h ha' <;> omega

/-- One chunk changes its reference count, and the counters follow. -/
theorem Accounts.setRefCnt (h : Accounts cap p) (hk : (table p.policy).get? k = some c) {n e w : ℤ} (hok : Ok policy)
    (htable : (table policy).get? = ((table p.policy).set k { c with refCnt := n }).get?)
    (he : e + (if c.idle then 1 else 0) =
      p.numEvictableCacheChunks + if ({ c with refCnt := n } : ChunkStatus).idle then 1 else 0)
    (hw : w + (if c.writePending then 1 else 0) =
      p.numWritePendingChunks + if ({ c with refCnt := n } : ChunkStatus).writePending then 1 else 0) :
    Accounts cap { p with policy := policy, numEvictableCacheChunks := e, numWritePendingChunks := w } := by
  have hcount (q : ChunkStatus → Bool) : (table policy).countVals q + (if q c then 1 else 0) =
        (table p.policy).countVals q + if q { c with refCnt := n } then 1 else 0 := by
    rw [countVals_congr (d := (table p.policy).set k { c with refCnt := n }) fun a => by rw [htable]]
    exact countVals_set hk
  refine ⟨hok, h.numChunks, h.allocated, ?_, follows (hcount _) h.evictable he, follows (hcount _) h.pending hw⟩
  rw [htable]
  exact h.places.change hk rfl

variable {p' : Pool P}

/-- How the loads change with the reference count of one key. -/
theorem Loads.set (h : Loads p loads) {c' : ChunkStatus} {loads' : Multiset Key}
    (htable : (table p'.policy).get? = ((table p.policy).set k c').get?)
    (hself : (loads'.count k : ℤ) = refs (some c')) (hothers : ∀ a, a ≠ k → loads'.count a = loads.count a) :
    Loads p' loads' := by
  intro a
  rw [htable, get?_set]
  split_ifs with ha
  · rw [ha, hself]
  · rw [hothers a ha, h a]

/-! ## Loads -/

theorem pin_spec (h : Accounts cap p) (hl : Loads p loads) (hk : (table p.policy).get? k = some c)
    (hready : c.isReady) (hfew : loads.count k + 1 < 2 ^ 31) : ∃ p', p.pin k = .ok (p', c.chunkId) ∧ Accounts cap p' ∧ Loads p' (k ::ₘ loads) ∧
      (table p'.policy).get? = ((table p.policy).set k { c with refCnt := c.refCnt + 1 }).get? := by
  have hnonneg : 0 ≤ c.refCnt := of_decide_eq_true hready
  have hcount := hl k
  rw [hk] at hcount
  have hloads {p' : Pool P}
      (htable : (table p'.policy).get? = ((table p.policy).set k { c with refCnt := c.refCnt + 1 }).get?) :
      Loads p' (k ::ₘ loads) := by
    refine hl.set htable ?_ fun a ha => Multiset.count_cons_of_ne ha loads
    rw [Multiset.count_cons_self]
    simp only [refs] at hcount ⊢
    omega
  have hnew : ({ c with refCnt := c.refCnt + 1 } : ChunkStatus).idle = false ∧
      ({ c with refCnt := c.refCnt + 1 } : ChunkStatus).writePending = false ∧ c.writePending = false := by
    simp only [idle, writePending, isReady, decide_eq_false_iff_not, Bool.not_eq_false', decide_eq_true_iff]
    omega
  have hnext : Pool.nextRefCnt c.refCnt = c.refCnt + 1 := by
    simp only [refs] at hcount
    exact Int.bmod_eq_of_le (by omega) (by omega)
  unfold Pool.pin
  rw [get_eq, hk]
  dsimp only
  rw [if_neg (by rw [hready]; decide), hnext]
  by_cases hzero : c.refCnt = 0
  · -- the chunk was idle, so the counter counts it
    obtain ⟨policy, hmark, hok, htable⟩ := markNonEvictable_spec h.policy hk hzero (n := c.refCnt + 1) (by omega)
    have hidle : c.idle := decide_eq_true hzero
    have hpos : 0 < p.numEvictableCacheChunks := by
      rw [h.evictable]
      have := countVals_erase (p := idle) hk
      rw [if_pos hidle] at this
      omega
    refine ⟨{ p with
      policy := setRefCnt policy k (c.refCnt + 1)
      numEvictableCacheChunks := p.numEvictableCacheChunks - 1 }, ?_, ?_, hloads htable, htable⟩
    · rw [if_pos hzero, hmark]
      exact if_neg (by omega)
    · refine h.setRefCnt hk hok htable ?_ ?_
      · rw [hnew.1, hidle]
        simp
      · rw [hnew.2.1, hnew.2.2]
  · obtain ⟨hok, htable⟩ := setRefCnt_spec h.policy hk hzero (n := c.refCnt + 1) (by omega)
    refine ⟨{ p with policy := setRefCnt p.policy k (c.refCnt + 1) }, ?_, ?_, hloads htable, htable⟩
    · rw [if_neg hzero]
    · refine h.setRefCnt hk hok htable ?_ ?_
      · rw [hnew.1, show c.idle = false from decide_eq_false hzero]
      · rw [hnew.2.1, hnew.2.2]

/-- The key is resident and ready. -/
def Ready (p : Pool P) (k : Key) : Prop := ∃ c, (table p.policy).get? k = some c ∧ c.isReady

theorem pinAll_spec (keys : List Key) (p : Pool P) (loads : Multiset Key) (h : Accounts cap p) (hl : Loads p loads)
    (hfew : ∀ k ∈ keys, (loads + (keys : Multiset Key)).count k < 2 ^ 31) (hready : ∀ k ∈ keys, Ready p k) :
    ∃ p' ids, p.pinAll keys = .ok (p', ids) ∧ Accounts cap p' ∧ Loads p' (loads + (keys : Multiset Key)) := by
  induction keys generalizing p loads with
  | nil => exact ⟨p, [], rfl, h, by simpa using hl⟩
  | cons k keys ih =>
    obtain ⟨c, hk, hc⟩ := hready k mem_cons_self
    rw [← Multiset.cons_coe, Multiset.add_cons, ← Multiset.cons_add] at hfew
    have hfirst := hfew k mem_cons_self
    rw [Multiset.cons_add, Multiset.count_cons_self, Multiset.count_add] at hfirst
    obtain ⟨p₁, hpin, h₁, hl₁, htable⟩ := pin_spec h hl hk hc (by omega)
    obtain ⟨p₂, ids, hrest, h₂, hl₂⟩ := ih p₁ (k ::ₘ loads) h₁ hl₁ (fun a ha => hfew a (mem_cons_of_mem _ ha)) fun a ha => by
      -- what was ready is ready
      obtain ⟨c', ha', hc'⟩ := hready a (mem_cons_of_mem _ ha)
      unfold Ready
      rw [htable]
      by_cases hak : a = k
      · subst hak
        cases hk.symm.trans ha'
        refine ⟨_, get?_set_self, ?_⟩
        have : 0 ≤ c.refCnt := of_decide_eq_true hc
        exact decide_eq_true (by show 0 ≤ c.refCnt + 1; omega)
      · exact ⟨c', by rw [get?_set_of_ne hak]; exact ha', hc'⟩
    refine ⟨p₂, c.chunkId :: ids, ?_, h₂, ?_⟩
    · unfold Pool.pinAll
      rw [hpin]
      show (p₁.pinAll keys >>= _) = _
      rw [hrest]
      rfl
    · rw [← Multiset.cons_coe, Multiset.add_cons, ← Multiset.cons_add]
      exact hl₂

theorem unpin_spec (h : Accounts cap p) (hl : Loads p loads) (hmem : k ∈ loads) :
    ∃ p', p.unpin k = .ok p' ∧ Accounts cap p' ∧ Loads p' (loads.erase k) := by
  have hpos := Multiset.count_pos.2 hmem
  have hcount := hl k
  cases hk : (table p.policy).get? k with
  | none =>
    rw [hk] at hcount
    simp only [refs] at hcount
    omega
  | some c =>
    rw [hk] at hcount
    have hc : 0 < c.refCnt := by
      simp only [refs] at hcount
      omega
    have hloads {p' : Pool P}
        (htable : (table p'.policy).get? = ((table p.policy).set k { c with refCnt := c.refCnt - 1 }).get?) :
        Loads p' (loads.erase k) := by
      refine hl.set htable ?_ fun a ha => Multiset.count_erase_of_ne ha loads
      rw [Multiset.count_erase_self]
      simp only [refs] at hcount ⊢
      omega
    have hold : c.idle = false ∧ c.writePending = false ∧
        ({ c with refCnt := c.refCnt - 1 } : ChunkStatus).writePending = false := by
      simp only [idle, writePending, isReady, decide_eq_false_iff_not, Bool.not_eq_false', decide_eq_true_iff]
      omega
    unfold Pool.unpin
    rw [get_eq, hk]
    dsimp only
    rw [if_pos hc]
    by_cases hlast : c.refCnt - 1 = 0
    · obtain ⟨policy, hmark, hok, htable⟩ := markEvictable_spec h.policy hk hc.ne'
      rw [← hlast] at htable
      refine ⟨{ p with policy := policy, numEvictableCacheChunks := p.numEvictableCacheChunks + 1 }, ?_, ?_,
        hloads htable⟩
      · rw [if_pos hlast, hlast, hmark]
        rfl
      · refine h.setRefCnt hk hok htable ?_ ?_
        · rw [hold.1, show ({ c with refCnt := c.refCnt - 1 } : ChunkStatus).idle from decide_eq_true hlast]
          simp
        · rw [hold.2.1, hold.2.2]
    · obtain ⟨hok, htable⟩ := setRefCnt_spec h.policy hk hc.ne' hlast
      refine ⟨{ p with policy := setRefCnt p.policy k (c.refCnt - 1) }, ?_, ?_, hloads htable⟩
      · rw [if_neg hlast]
      · refine h.setRefCnt hk hok htable ?_ ?_
        · rw [hold.1, show ({ c with refCnt := c.refCnt - 1 } : ChunkStatus).idle = false from decide_eq_false hlast]
        · rw [hold.2.1, hold.2.2]

theorem foldlM_unpin_spec (keys : List Key) (p : Pool P) (loads : Multiset Key) (h : Accounts cap p) (hl : Loads p loads)
    (hkeys : (keys : Multiset Key) ≤ loads) :
    ∃ p', keys.foldlM Pool.unpin p = .ok p' ∧ Accounts cap p' ∧ Loads p' (loads - (keys : Multiset Key)) := by
  induction keys generalizing p loads with
  | nil => exact ⟨p, rfl, h, by simpa using hl⟩
  | cons k keys ih =>
    rw [← Multiset.cons_coe] at hkeys
    have hmem : k ∈ loads := Multiset.mem_of_le hkeys (Multiset.mem_cons_self k _)
    obtain ⟨p₁, hunpin, h₁, hl₁⟩ := unpin_spec h hl hmem
    obtain ⟨p₂, hrest, h₂, hl₂⟩ := ih p₁ (loads.erase k) h₁ hl₁ (by
      rw [← Multiset.erase_cons_head k (keys : Multiset Key)]
      exact Multiset.erase_le_erase k hkeys)
    refine ⟨p₂, ?_, h₂, ?_⟩
    · rw [foldlM_cons, hunpin]
      exact hrest
    · rw [← Multiset.cons_coe, Multiset.sub_cons]
      exact hl₂

/-! ## Stores -/

theorem Accounts.erase (h : Accounts cap p) (hk : (table p.policy).get? k = some c) (hok : Ok policy)
    (htable : (table policy).get? = ((table p.policy).erase k).get?) {e w : ℤ}
    (he : e + (if c.idle then 1 else 0) = p.numEvictableCacheChunks)
    (hw : w + (if c.writePending then 1 else 0) = p.numWritePendingChunks) : Accounts cap (Pool.freeChunk { p with
      policy := policy, numEvictableCacheChunks := e, numWritePendingChunks := w } c) := by
  have hcount (q : ChunkStatus → Bool) :
      (table policy).countVals q + (if q c then 1 else 0) = (table p.policy).countVals q := by
    rw [countVals_congr (d := (table p.policy).erase k) fun a => by rw [htable]]
    exact countVals_erase hk
  refine ⟨hok, h.numChunks, h.allocated, ?_, follows (b := false) (hcount idle) h.evictable (he.trans (add_zero _).symm),
    follows (b := false) (hcount writePending) h.pending (hw.trans (add_zero _).symm)⟩
  show Places (table policy).get? (p.freeList ++ [c.chunkId]) _
  rw [htable]
  exact h.places.release hk

theorem Loads.erase (h : Loads p loads) (hk : (table p.policy).get? k = some c) (hc : c.refCnt ≤ 0)
    (htable : (table p'.policy).get? = ((table p.policy).erase k).get?) : Loads p' loads := by
  intro a
  have hcount := h a
  rw [htable, get?_erase]
  split_ifs with ha
  · rw [ha, hk] at hcount
    rw [ha]
    simp only [refs] at hcount ⊢
    omega
  · exact hcount

theorem settle_spec (success : Bool) (h : Accounts cap p) (hl : Loads p loads) (k : Key) :
    ∃ p', p.settle success k = .ok p' ∧ Accounts cap p' ∧ Loads p' loads := by
  unfold Pool.settle
  rw [get_eq]
  cases hk : (table p.policy).get? k with
  | none => exact ⟨p, rfl, h, hl⟩
  | some c =>
    dsimp only
    by_cases hready : c.isReady
    · rw [if_pos hready]
      exact ⟨p, rfl, h, hl⟩
    rw [if_neg hready]
    have hneg : c.refCnt < 0 := not_le.1 fun hle => hready (decide_eq_true hle)
    have hold : c.idle = false ∧ c.writePending := by
      simp only [idle, writePending, isReady, decide_eq_false_iff_not, Bool.not_eq_true', decide_eq_false_iff_not]
      omega
    cases success with
    | true =>
      obtain ⟨policy, hmark, hok, htable⟩ := markEvictable_spec h.policy hk hneg.ne
      refine ⟨{ p with
        numWritePendingChunks := p.numWritePendingChunks - 1
        numEvictableCacheChunks := p.numEvictableCacheChunks + 1
        policy := policy }, ?_, ?_, ?_⟩
      · rw [if_pos rfl, hmark]
        rfl
      · refine h.setRefCnt hk hok htable ?_ ?_
        · rw [hold.1]
          simp [idle]
        · rw [hold.2]
          simp [writePending, isReady]
      · refine hl.set htable ?_ fun _ _ => rfl
        have := hl k
        rw [hk] at this
        simp only [refs] at this ⊢
        omega
    | false =>
      obtain ⟨policy, hremove, hok, htable⟩ := remove_spec h.policy hk
      refine ⟨Pool.freeChunk { p with
        numWritePendingChunks := p.numWritePendingChunks - 1
        policy := policy } c, ?_, ?_, hl.erase hk hneg.le htable⟩
      · rw [if_neg Bool.false_ne_true, hremove]
        rfl
      · refine h.erase hk hok htable ?_ ?_
        · rw [hold.1]
          simp
        · rw [hold.2]
          simp

theorem foldlM_settle_spec (success : Bool) (keys : List Key) (p : Pool P) (h : Accounts cap p) (hl : Loads p loads) :
    ∃ p', keys.foldlM (Pool.settle success) p = .ok p' ∧ Accounts cap p' ∧ Loads p' loads := by
  induction keys generalizing p with
  | nil => exact ⟨p, rfl, h, hl⟩
  | cons k keys ih =>
    obtain ⟨p₁, hsettle, h₁, hl₁⟩ := settle_spec success h hl k
    obtain ⟨p₂, hrest, h₂, hl₂⟩ := ih p₁ h₁ hl₁
    refine ⟨p₂, ?_, h₂, hl₂⟩
    rw [foldlM_cons, hsettle]
    exact hrest

theorem Accounts.samePolicy (h : Accounts cap p) (hok : Ok policy) (htable : (table policy).get? = (table p.policy).get?) :
    Accounts cap { p with policy := policy } := by
  refine ⟨hok, h.numChunks, h.allocated, ?_, ?_, ?_⟩
  · rw [htable]
    exact h.places
  · rw [countVals_congr (d := table p.policy) fun a => by rw [htable]]
    exact h.evictable
  · rw [countVals_congr (d := table p.policy) fun a => by rw [htable]]
    exact h.pending

theorem Loads.samePolicy (h : Loads p loads)
    (htable : (table p'.policy).get? = (table p.policy).get?) : Loads p' loads := by
  intro k
  rw [htable]
  exact h k

theorem Places.releaseAll {n : ℕ} (evicted : List (Key × ChunkStatus)) (d : Dict Key ChunkStatus) (free : List ℕ)
    (h : Places d.get? free n) (hnodup : (evicted.map fst).Nodup) (hmem : ∀ e ∈ evicted, d.get? e.1 = some e.2) :
    Places (d.eraseAll (evicted.map fst)).get? (free ++ evicted.map fun e => e.2.chunkId) n := by
  induction evicted generalizing d free with
  | nil => simpa [eraseAll] using h
  | cons e evicted ih =>
    obtain ⟨hnot, hnodup⟩ := nodup_cons.1 hnodup
    have hrest := ih (d.erase e.1) (free ++ [e.2.chunkId]) (h.release (hmem e mem_cons_self)) hnodup
      fun e' he' => by
        have hne : e'.1 ≠ e.1 := fun heq => hnot (heq ▸ mem_map_of_mem he')
        rw [get?_erase_of_ne hne]
        exact hmem e' (mem_cons_of_mem _ he')
    rwa [append_assoc] at hrest

omit [DecidableEq Key] [CachePolicy P Key] [LawfulCachePolicy P Key] in
theorem foldl_freeChunk (evicted : List (Key × ChunkStatus)) (p : Pool P) :
    evicted.foldl (fun p e => p.freeChunk e.2) p =
      { p with freeList := p.freeList ++ evicted.map fun e => e.2.chunkId } := by
  induction evicted generalizing p with
  | nil => simp
  | cons e evicted ih =>
    rw [foldl_cons, ih, Pool.freeChunk]
    simp

/-- What `makeRoom` does: it evicts idle chunks that are not offered, as many as are missing, or nothing. -/
structure RoomMade (cap : ℕ) (p p' : Pool P) (keys : List Key) (needed : ℕ) (out : Option (List Key)) : Prop where
  accounts : Accounts cap p'
  refused : out = none → (table p'.policy).get? = (table p.policy).get?
  evicted : ∀ evicted, out = some evicted → (needed : ℤ) ≤ p'.getNumFreeChunks ∧
    (table p'.policy).get? = ((table p.policy).eraseAll evicted).get? ∧
    ∀ k ∈ evicted, k ∉ keys ∧ ∃ c, (table p.policy).get? k = some c ∧ c.refCnt = 0

theorem makeRoom_spec (h : Accounts cap p) (keys : List Key) (needed : ℕ) :
    ∃ p' out, p.makeRoom keys needed = .ok (p', out) ∧ RoomMade cap p p' keys needed out := by
  unfold Pool.makeRoom
  dsimp only
  split
  next hneed =>
    split
    · exact ⟨p, none, rfl, h, fun _ => rfl, nofun⟩
    rename_i henough
    obtain ⟨policy, out, hevict, hok, hnone, hsome⟩ := evict_spec (needed - p.getNumFreeChunks).toNat keys h.policy
    rw [hevict]
    cases out with
    | none => exact ⟨{ p with policy := policy }, none, rfl, h.samePolicy hok (hnone rfl), fun _ => hnone rfl, nofun⟩
    | some evicted =>
      obtain ⟨hlen, hnodup, hidle, htable⟩ := hsome evicted rfl
      have hlen' : (evicted.length : ℤ) = needed - p.getNumFreeChunks := by
        rw [hlen]
        exact Int.toNat_of_nonneg hneed.le
      have hkeys : ∀ k ∈ evicted.map fst, ∃ c, (table p.policy).get? k = some c ∧ c.refCnt = 0 ∧ k ∉ keys := by
        intro k hk
        obtain ⟨e, he, rfl⟩ := mem_map.1 hk
        exact ⟨e.2, hidle e he⟩
      refine ⟨{ p with
          policy := policy
          numEvictableCacheChunks := p.numEvictableCacheChunks - evicted.length
          freeList := p.freeList ++ evicted.map fun e => e.2.chunkId }, some (evicted.map fst), ?_,
        ⟨?_, nofun, ?_⟩⟩
      · show (if p.numEvictableCacheChunks - evicted.length < 0 then _ else _) = _
        rw [if_neg (by omega), foldl_freeChunk]
      · have hcount := countVals_eraseAll (p := idle) hnodup fun k hk => by
          obtain ⟨c, hc, hzero, _⟩ := hkeys k hk
          exact ⟨c, hc, decide_eq_true hzero⟩
        have hpending : ((table p.policy).eraseAll (evicted.map fst)).countVals writePending =
            (table p.policy).countVals writePending := by
          refine countVals_eraseAll_of_not fun k hk => ?_
          obtain ⟨c, hc, hzero, _⟩ := hkeys k hk
          refine ⟨c, hc, ?_⟩
          simp [writePending, isReady, hzero]
        rw [length_map] at hcount
        refine ⟨hok, h.numChunks, h.allocated, ?_, ?_, ?_⟩
        · rw [htable]
          exact h.places.releaseAll evicted (table p.policy) p.freeList hnodup fun e he => (hidle e he).1
        · show p.numEvictableCacheChunks - evicted.length = ((table policy).countVals idle : ℤ)
          rw [countVals_congr (d := (table p.policy).eraseAll (evicted.map fst)) fun a => by rw [htable], h.evictable]
          omega
        · rw [countVals_congr (d := (table p.policy).eraseAll (evicted.map fst)) fun a => by rw [htable],
            h.pending, hpending]
      · intro ev heq
        cases heq
        refine ⟨?_, htable, fun k hk => ?_⟩
        · unfold Pool.getNumFreeChunks at hlen' ⊢
          rw [length_append, length_map]
          push_cast
          omega
        · obtain ⟨c, hc, hzero, hnot⟩ := hkeys k hk
          exact ⟨hnot, c, hc, hzero⟩
  next hroom =>
    refine ⟨p, some [], rfl, h, nofun, ?_⟩
    intro ev heq
    cases heq
    exact ⟨by omega, rfl, nofun⟩

/-- The accounts while places are allocated to chunks that are not yet in the table; `w` chunks in the table
are being written. -/
structure Holding (cap : ℕ) (p : Pool P) (held : List ℕ) (w : ℤ) : Prop where
  policy : Ok p.policy
  numChunks : p.numChunks = cap
  allocated : p.numAllocatedChunks ≤ p.numChunks
  places : Places (table p.policy).get? (held ++ p.freeList) p.numAllocatedChunks
  evictable : p.numEvictableCacheChunks = (table p.policy).countVals idle
  pending : w = (table p.policy).countVals writePending

theorem allocateChunks_spec (h : Accounts cap p) {n : ℕ} (hroom : (n : ℤ) ≤ p.getNumFreeChunks) :
    ∃ p' ids, p.allocateChunks n = .ok (p', ids.map fun i => { chunkId := i }) ∧ ids.length = n ∧
      p'.policy = p.policy ∧ Holding cap p' ids p'.numWritePendingChunks := by
  have hallocated := h.allocated
  unfold Pool.getNumFreeChunks at hroom
  unfold Pool.allocateChunks
  set numFresh := min n (p.numChunks - p.numAllocatedChunks)
  have hle : n - numFresh ≤ p.freeList.length := by omega
  rw [if_pos hle]
  refine ⟨_, _, rfl, ?_, rfl, h.policy, h.numChunks, ?_, ?_, h.evictable, h.pending⟩
  · rw [length_append, length_range', length_reverse, length_drop]
    omega
  · show p.numAllocatedChunks + numFresh ≤ p.numChunks
    omega
  refine (h.places.grow numFresh).perm ?_
  have hsplit := take_append_drop (p.freeList.length - (n - numFresh)) p.freeList
  conv_lhs => rw [← hsplit]
  rw [append_assoc]
  refine perm_append_comm.trans (Perm.append_right _ ?_)
  exact perm_append_comm.trans (Perm.append_left _ (reverse_perm _).symm)

theorem insertAll_spec (rest : List (Key × ℕ)) (p : Pool P) {w : ℤ}
    (h : Holding cap p (rest.map snd) w) (hl : Loads p loads) (hnodup : (rest.map fst).Nodup)
    (hnew : ∀ e ∈ rest, (table p.policy).get? e.1 = none) :
    ∃ policy, p.insertAll (rest.map fun e => (e.1, { chunkId := e.2 })) = .ok { p with policy := policy } ∧
      Holding cap { p with policy := policy } [] (w + rest.length) ∧ Loads { p with policy := policy } loads := by
  induction rest generalizing p w with
  | nil => exact ⟨p.policy, rfl, by simpa using h, hl⟩
  | cons e rest ih =>
    obtain ⟨k, i⟩ := e
    obtain ⟨hnot, hnodup⟩ := nodup_cons.1 hnodup
    have hk : (table p.policy).get? k = none := hnew _ mem_cons_self
    obtain ⟨policy, hinsert, hok, htable⟩ := insert_spec h.policy hk
      (c := { chunkId := i }) (show (-1 : ℤ) ≠ 0 by decide)
    have hcount (q : ChunkStatus → Bool) : (table policy).countVals q =
        (table p.policy).countVals q + if q { chunkId := i } then 1 else 0 := by
      rw [countVals_congr (d := (table p.policy).set k { chunkId := i }) fun a => by rw [htable]]
      exact countVals_set_new hk
    have hidle := hcount idle
    have hpending := hcount writePending
    have hholding : Holding cap { p with policy := policy } (rest.map snd) (w + 1) := by
      refine ⟨hok, h.numChunks, h.allocated, ?_, ?_, ?_⟩
      · rw [htable]
        exact h.places.take (c := { chunkId := i }) hk
      · rw [hidle, h.evictable]
        rfl
      · rw [hpending, h.pending]
        rfl
    have hloads : Loads { p with policy := policy } loads := by
      refine hl.set htable ?_ fun _ _ => rfl
      have := hl k
      rwa [hk] at this
    obtain ⟨policy', hrest, hholding', hloads'⟩ := ih { p with policy := policy } hholding hloads hnodup fun e he => by
      have hne : e.1 ≠ k := by
        rintro rfl
        exact hnot (show e.1 ∈ rest.map fst from mem_map_of_mem he)
      rw [htable, get?_set_of_ne hne]
      exact hnew e (mem_cons_of_mem _ he)
    refine ⟨policy', ?_, ?_, hloads'⟩
    · rw [map_cons]
      unfold Pool.insertAll
      rw [hinsert]
      exact hrest
    rw [length_cons]
    have hsum : w + ((rest.length + 1 : ℕ) : ℤ) = w + 1 + rest.length := by
      omega
    rw [hsum]
    exact hholding'

theorem allocateAndInsert_spec (h : Accounts cap p) (hl : Loads p loads) {keys : List Key} (hnodup : keys.Nodup)
    (hnew : ∀ k ∈ keys, (table p.policy).get? k = none) (hroom : (keys.length : ℤ) ≤ p.getNumFreeChunks) :
    ∃ p' ids, p.allocateAndInsert keys = .ok (p', ids) ∧ Accounts cap p' ∧ Loads p' loads := by
  obtain ⟨p₁, ids, halloc, hlen, hpolicy, hholding⟩ := allocateChunks_spec h hroom
  have hkeys : (keys.zip ids).map fst = keys := map_fst_zip (by omega)
  have hids : (keys.zip ids).map snd = ids := map_snd_zip (by omega)
  have hl₁ : Loads p₁ loads := hl.samePolicy (by rw [hpolicy])
  obtain ⟨policy, hinsert, hheld, hloads⟩ := insertAll_spec (keys.zip ids) p₁ (by rw [hids]; exact hholding)
    hl₁ (by rw [hkeys]; exact hnodup) fun e he => by
      rw [hpolicy]
      exact hnew e.1 (of_mem_zip he).1
  have hzip : keys.zip (ids.map fun i => ({ chunkId := i } : ChunkStatus)) =
      (keys.zip ids).map fun e => (e.1, { chunkId := e.2 }) := by
    rw [zip_map_right]
    rfl
  refine ⟨{ p₁ with policy := policy, numWritePendingChunks := p₁.numWritePendingChunks + keys.length },
    (ids.map fun i => ({ chunkId := i } : ChunkStatus)).map chunkId, ?_, ?_, hloads⟩
  · unfold Pool.allocateAndInsert
    rw [halloc]
    show (if _ = keys.length then _ else _) = _
    rw [if_pos (by rw [length_map, hlen]), hzip, hinsert]
    rfl
  · refine ⟨hheld.policy, hheld.numChunks, hheld.allocated, hheld.places, hheld.evictable, ?_⟩
    have hpending := hheld.pending
    rwa [length_zip, hlen, Nat.min_self] at hpending

theorem reset_spec (hp : p.numChunks = cap) : Accounts cap p.reset ∧ Loads p.reset (0 : Multiset Key) := by
  obtain ⟨hok, htable⟩ := clear_spec p.policy
  have hcount (q : ChunkStatus → Bool) : (0 : ℤ) = (table (clear p.policy)).countVals q := by
    rw [countVals_congr (d := (empty : Dict Key ChunkStatus)) fun a => by rw [htable]; rfl]
    rfl
  refine ⟨⟨hok, hp, Nat.zero_le _, ?_, ?_, ?_⟩, fun k => ?_⟩
  · show Places (table (clear p.policy)).get? [] 0
    rw [htable]
    exact ⟨nodup_nil, nofun, nofun, nofun, nofun, fun i hi => absurd hi (Nat.not_lt_zero i)⟩
  · exact hcount _
  · exact hcount _
  · show _ = refs ((table (clear p.policy)).get? k)
    rw [htable]
    rfl

end VllmRwkv.Offload
