import VllmRwkv.Cache.KVCacheManager
import VllmRwkv.Cache.Take
import VllmRwkv.Cache.Frames

/-!
# Who references a block, over all groups

`KVCacheManager.Owned held s`: the references of all groups, together with those `held` outside
the managers (blocks whose release is deferred, ends of copies that run), are all counted.

`wp_onManager`: a method of one group that keeps `CacheGroup.Owned o` for every `o` keeps this
balance. `takes_step` is one turn of a loop that visits the groups one after another and takes
at most `k i` blocks for group `i`.
-/

namespace Raise

variable {ε σ α ι : Type} {m : EStateM ε σ α} {s : σ}

/-- A program has one outcome, so it meets a family of postconditions at once. -/
theorem wp_forall {Q : ι → α → σ → Prop} {R : ι → ε → σ → Prop} (h : ∀ x, wp m (Q x) (R x) s) :
    wp m (fun a s' => ∀ x, Q x a s') (fun e s' => ∀ x, R x e s') s := by
  unfold wp at h ⊢
  generalize m s = r at h ⊢
  cases r <;> exact h

end Raise

namespace VllmRwkv

open Raise BlockPool Function

variable {H : Type} {n : ℕ}

namespace KVCacheManager

/-- All references are counted, and every block mentioned is a block of the pool. -/
structure Owned (held : KVCacheBlock → ℕ) (s : KVCacheManager H n) : Prop where
  conserved : ∃ xs, Conserved s.pool xs
  refs : ∀ rs : Fin n → List RequestId, (∀ i, (rs i).Nodup) → ∀ b, s.pool.isNull b = false →
    ((∑ i, (s.managers i).refsOf (rs i) b + held b : ℕ) : ℤ) ≤ s.pool.refCnt b
  rows : ∀ i r, ∀ b ∈ (s.managers i).reqToBlocks r, b ∈ poolBlocks s.pool.numGpuBlocks
  copies : ∀ i, ∀ b ∈ copyEnds (s.managers i).pendingCowCopies, b ∈ poolBlocks s.pool.numGpuBlocks
  null : s.pool.nullBlock ∈ poolBlocks s.pool.numGpuBlocks

def numFree (s : KVCacheManager H n) : ℤ := s.pool.getNumFreeBlocks

variable {held held' : KVCacheBlock → ℕ} {s s' : KVCacheManager H n} {i : Fin n} {α : Type} {g : CacheGroup H}

@[simp] theorem group_pool : (s.group i).pool = s.pool := rfl

@[simp] theorem group_mgr : (s.group i).mgr = s.managers i := rfl

@[simp] theorem putGroup_pool : (putGroup i g s).pool = g.pool := rfl

@[simp] theorem putGroup_group : (putGroup i g s).group i = g := by
  simp [putGroup, group]

@[simp] theorem putGroup_managers_self : (putGroup i g s).managers i = g.mgr := by
  simp [putGroup]

theorem putGroup_managers_ne {j : Fin n} (h : j ≠ i) : (putGroup i g s).managers j = s.managers j := by
  simp [putGroup, h]

/-- The references of the other groups, as group `i` sees them. -/
def otherRefs (s : KVCacheManager H n) (i : Fin n) (rs : Fin n → List RequestId) (b : KVCacheBlock) : ℕ :=
  ∑ j ∈ Finset.univ.erase i, (s.managers j).refsOf (rs j) b

theorem sum_refsOf (i : Fin n) (rs : Fin n → List RequestId) (b : KVCacheBlock) :
    ∑ j, (s.managers j).refsOf (rs j) b = (s.managers i).refsOf (rs i) b + s.otherRefs i rs b :=
  (Finset.add_sum_erase Finset.univ _ (Finset.mem_univ i)).symm

theorem otherRefs_putGroup (rs : Fin n → List RequestId) (b : KVCacheBlock) :
    (putGroup i g s).otherRefs i rs b = s.otherRefs i rs b := by
  refine Finset.sum_congr rfl fun j hj => ?_
  rw [putGroup_managers_ne (Finset.ne_of_mem_erase hj)]

section

variable (hs : s.Owned held)

include hs

/-- Writing other tables than rows and pending copies. -/
theorem Owned.of_tables (hpool : s'.pool = s.pool)
    (hrows : ∀ i, (s'.managers i).reqToBlocks = (s.managers i).reqToBlocks)
    (hcopies : ∀ i, (s'.managers i).pendingCowCopies = (s.managers i).pendingCowCopies) : s'.Owned held := by
  refine ⟨?_, fun rs hrs b hb => ?_, fun i r b hb => ?_, fun i b hb => ?_, ?_⟩
  · rw [hpool]; exact hs.conserved
  · have h := hs.refs rs hrs b (hpool ▸ hb)
    have hrefs : ∀ i, (s'.managers i).refsOf (rs i) b = (s.managers i).refsOf (rs i) b := fun i => by
      unfold ManagerState.refsOf; rw [hrows i, hcopies i]
    simp only [hrefs, hpool]
    exact h
  · rw [hpool]; rw [hrows i] at hb; exact hs.rows i r b hb
  · rw [hpool]; rw [hcopies i] at hb; exact hs.copies i b hb
  · rw [hpool]; exact hs.null

/-- A call on the pool moves references between the counts and those held outside. -/
theorem Owned.setPool {p' : BlockPool H} (hcons : ∃ ys, Conserved p' ys) (hsame : SamePool s.pool p')
    (hcnt : ∀ b, s.pool.isNull b = false → s.pool.refCnt b + held' b ≤ p'.refCnt b + held b) :
    Owned held' { s with pool := p' } := by
  refine ⟨hcons, fun rs hrs b hb => ?_, fun i r b hb => ?_, fun i b hb => ?_, ?_⟩
  · have hb' : s.pool.isNull b = false := by rw [← hsame.isNull]; exact hb
    have h1 := hs.refs rs hrs b hb'
    have h2 := hcnt b hb'
    show ((∑ i, (s.managers i).refsOf (rs i) b + held' b : ℕ) : ℤ) ≤ p'.refCnt b
    omega
  · rw [hsame.numGpuBlocks]; exact hs.rows i r b hb
  · rw [hsame.numGpuBlocks]; exact hs.copies i b hb
  · rw [hsame.numGpuBlocks, hsame.nullBlock]; exact hs.null

theorem Owned.held_le {b : KVCacheBlock} (hb : s.pool.isNull b = false) : (held b : ℤ) ≤ s.pool.refCnt b := by
  have h := hs.refs (fun _ => []) (fun _ => List.nodup_nil) b hb
  omega

/-- What a group can count on, whichever requests of the other groups are looked at. -/
theorem Owned.group (i : Fin n) (rs : Fin n → List RequestId)
    (hrs : ∀ j, (rs j).Nodup) : (s.group i).Owned fun b => s.otherRefs i rs b + held b := by
  refine ⟨hs.conserved, fun rs' hrs' b hb => ?_, hs.rows i, hs.copies i, hs.null⟩
  have hnd : ∀ j, (update rs i rs' j).Nodup := by
    intro j
    by_cases hj : j = i
    · subst hj; simpa using hrs'
    · simpa [hj] using hrs j
  have h := hs.refs _ hnd b hb
  have hother : s.otherRefs i (update rs i rs') b = s.otherRefs i rs b := by
    refine Finset.sum_congr rfl fun j hj => ?_
    rw [update_of_ne (Finset.ne_of_mem_erase hj)]
  rw [sum_refsOf i, hother, update_self] at h
  simp only [group_mgr, group_pool]
  omega

/-- A group's side of the balance is the whole balance. -/
theorem Owned.of_group (hsame : SamePool s.pool g.pool) (hg : ∀ rs : Fin n → List RequestId, (∀ j, (rs j).Nodup) →
      g.Owned fun b => s.otherRefs i rs b + held' b) : (putGroup i g s).Owned held' := by
  have hg0 := hg (fun _ => []) fun _ => List.nodup_nil
  refine ⟨hg0.conserved, fun rs hrs b hb => ?_, fun j r b hb => ?_, fun j b hb => ?_, hg0.null⟩
  · have h := (hg rs hrs).refs (rs i) (hrs i) b hb
    rw [sum_refsOf i, otherRefs_putGroup, putGroup_managers_self]
    simp only [putGroup_pool]
    omega
  · by_cases hj : j = i
    · subst hj
      rw [putGroup_managers_self] at hb
      exact hg0.rows r b hb
    · rw [putGroup_managers_ne hj] at hb
      rw [putGroup_pool, hsame.numGpuBlocks]
      exact hs.rows j r b hb
  by_cases hj : j = i
  · subst hj
    rw [putGroup_managers_self] at hb
    exact hg0.copies b hb
  · rw [putGroup_managers_ne hj] at hb
    rw [putGroup_pool, hsame.numGpuBlocks]
    exact hs.copies j b hb

/-- **A method of one group**, specified for every `o`, keeps the balance of all. -/
theorem wp_onManager {m : GroupM H α} {f : α → KVCacheBlock → ℕ} {P : α → CacheGroup H → Prop}
    {R : PyErr → CacheGroup H → Prop}
    (h : ∀ o, (s.group i).Owned o → wp m (fun a g' => g'.Owned (fun b => o b + f a b) ∧
      SamePool s.pool g'.pool ∧ P a g') R (s.group i)) :
    wp (onManager i m) (fun a s' => s'.Owned (fun b => held b + f a b) ∧ SamePool s.pool s'.pool ∧
        s' = putGroup i (s'.group i) s ∧ P a (s'.group i)) (fun e s' => R e (s'.group i)) s := by
  unfold onManager
  rw [wp_zoom]
  have hall := wp_forall fun rs : { rs : Fin n → List RequestId // ∀ j, (rs j).Nodup } =>
    h _ (hs.group i rs.1 rs.2)
  refine wp_mono hall ?_ ?_
  · intro a g' hg'
    have h0 := hg' ⟨fun _ => [], fun _ => List.nodup_nil⟩
    refine ⟨hs.of_group h0.2.1 fun rs hrs => ?_, h0.2.1, by rw [putGroup_group], ?_⟩
    · exact (hg' ⟨rs, hrs⟩).1.mono fun b => Nat.le_of_eq (add_assoc _ _ _).symm
    · rw [putGroup_group]; exact h0.2.2
  · intro e g' hg'
    rw [putGroup_group]
    exact hg' ⟨fun _ => [], fun _ => List.nodup_nil⟩

end

/-! ## Loops over the groups -/

/-- The sum of a number per group. -/
def total (k : Fin n → ℕ) : ℕ := ((List.finRange n).map k).sum

theorem visited {P Q : Fin n → ManagerState H → Prop} {rest : List (Fin n)} (hput : s' = putGroup i (s'.group i) s)
    (hnodup : (i :: rest).Nodup) (htodo : ∀ j ∈ i :: rest, P j (s.managers j))
    (hdone : ∀ j ∉ i :: rest, Q j (s.managers j)) (hQ : Q i (s'.managers i)) :
    (∀ j ∈ rest, P j (s'.managers j)) ∧ (∀ j ∉ rest, Q j (s'.managers j)) ∧ rest.Nodup := by
  have hnd := List.nodup_cons.1 hnodup
  have hothers : ∀ j ≠ i, s'.managers j = s.managers j := by
    intro j hj
    rw [hput, putGroup_managers_ne hj]
  refine ⟨fun j hj => ?_, fun j hj => ?_, hnd.2⟩
  · rw [hothers j fun heq => hnd.1 (heq ▸ hj)]
    exact htodo j (List.mem_cons_of_mem _ hj)
  by_cases hji : j = i
  · exact hji ▸ hQ
  · rw [hothers j hji]
    exact hdone j fun hmem => (List.mem_cons.1 hmem).elim hji hj

section Taking

variable {s0 : KVCacheManager H n} {k : Fin n → ℕ} {J : BlockPool H → Prop}
  {P : Fin n → ManagerState H → Prop} {rest : List (Fin n)}

/-- A loop over the groups that takes blocks, with the groups of `rest` still to visit: they have
not been written, the others meet `P`, and each visited group took at most its share `k`. -/
structure Taking (held : KVCacheBlock → ℕ) (s0 : KVCacheManager H n) (k : Fin n → ℕ)
    (J : BlockPool H → Prop) (P : Fin n → ManagerState H → Prop) (rest : List (Fin n))
    (s : KVCacheManager H n) : Prop where
  owned : s.Owned held
  same : SamePool s0.pool s.pool
  pool : J s.pool
  free : s0.numFree + (rest.map k).sum ≤ s.numFree + total k
  todo : ∀ i ∈ rest, s.managers i = s0.managers i
  done : ∀ i ∉ rest, P i (s.managers i)
  nodup : rest.Nodup

theorem Taking.start (hs : s.Owned held) (hJ : J s.pool) : Taking held s k J P (List.finRange n) s := by
  refine ⟨hs, SamePool.refl _, hJ, ?_, fun _ _ => rfl, fun i hi => ?_, List.nodup_finRange n⟩
  · unfold total; omega
  · exact absurd (List.mem_finRange i) hi

/-- How such a loop may raise when `k` blocks are free: not for lack of blocks, and with no more
than `k` of them gone. -/
def RaisedTaking (s0 : KVCacheManager H n) (k : ℕ) (e : PyErr) (s' : KVCacheManager H n) : Prop :=
  (k : ℤ) ≤ s0.numFree → e.isValueError = false ∧ s0.numFree ≤ s'.numFree + k

/-- **One turn.** -/
theorem takes_step {m : GroupM H α}
    (hm : ∀ o g, g.mgr = s0.managers i → SamePool s0.pool g.pool → J g.pool → g.Owned o →
      wp m (fun _ g' => GroupConfig.Took o (k i) g g' ∧ J g'.pool ∧ P i g'.mgr)
        (GroupConfig.Raised g (k i)) g) (h : Taking held s0 k J P (i :: rest) s) :
    wp (onManager i m) (fun _ s' => Taking held s0 k J P rest s') (RaisedTaking s0 (total k)) s := by
  have hsum := h.free
  rw [List.map_cons, List.sum_cons] at hsum
  have hturn : ∀ o, (s.group i).Owned o → wp m (fun _ g' => g'.Owned (fun b => o b + 0) ∧
      SamePool s.pool g'.pool ∧ s.numFree ≤ g'.numFree + k i ∧ J g'.pool ∧ P i g'.mgr)
      (GroupConfig.Raised (s.group i) (k i)) (s.group i) := by
    intro o ho
    have hspec := hm o (s.group i) (h.todo i List.mem_cons_self) h.same h.pool ho
    refine wp_imp hspec ?_
    intro _ g' hg'
    exact ⟨hg'.1.owned, hg'.1.same, hg'.1.free, hg'.2.1, hg'.2.2⟩
  refine wp_mono (wp_onManager (f := fun _ _ => 0) h.owned hturn) ?_ ?_
  · intro _ s' ⟨hown, hsame, hput, hfree', hJ, hP⟩
    have hfree'' : s.numFree ≤ s'.numFree + k i := hfree'
    obtain ⟨htodo, hdone, hnodup⟩ := visited (P := fun j m => m = s0.managers j) hput h.nodup h.todo h.done hP
    exact ⟨hown, h.same.trans hsame, hJ, by omega, htodo, hdone, hnodup⟩
  · intro e s' hraise hfree
    have hk : (k i : ℤ) ≤ (s.group i).numFree := by
      show (k i : ℤ) ≤ s.numFree
      omega
    obtain ⟨he, hg⟩ := hraise hk
    have hg' : s.numFree ≤ s'.numFree + k i := hg
    exact ⟨he, by omega⟩

/-- **A whole loop.** -/
theorem forManagers_takes {m : Fin n → GroupM H Unit} (hs : s.Owned held) (hJ : J s.pool)
    (hm : ∀ i o g, g.mgr = s.managers i → SamePool s.pool g.pool → J g.pool → g.Owned o →
      wp (m i) (fun _ g' => GroupConfig.Took o (k i) g g' ∧ J g'.pool ∧ P i g'.mgr) (GroupConfig.Raised g (k i)) g) :
    wp (forManagers m) (fun _ s' => Taking held s k J P [] s') (RaisedTaking s (total k)) s :=
  wp_forM (Taking held s k J P) (fun i _ _ h => takes_step (hm i) h) (Taking.start hs hJ)

end Taking

section Turns

variable {P Q : Fin n → ManagerState H → Prop} {rest : List (Fin n)} {s0 : KVCacheManager H n}

/-- A loop over the groups that takes each of them from `P` to `Q`, with the groups of `rest` still
to visit. -/
structure Turning (held : KVCacheBlock → ℕ) (s0 : KVCacheManager H n) (P Q : Fin n → ManagerState H → Prop)
    (rest : List (Fin n)) (s : KVCacheManager H n) : Prop where
  owned : s.Owned held
  same : SamePool s0.pool s.pool
  todo : ∀ i ∈ rest, P i (s.managers i)
  done : ∀ i ∉ rest, Q i (s.managers i)
  nodup : rest.Nodup

theorem Turning.start (hs : s.Owned held) (hP : ∀ i, P i (s.managers i)) : Turning held s P Q (List.finRange n) s :=
  ⟨hs, SamePool.refl _, fun i _ => hP i, fun i hi => absurd (List.mem_finRange i) hi, List.nodup_finRange n⟩

/-- **One turn.** -/
theorem turns_step {m : GroupM H α} (hm : ∀ o g, SamePool s0.pool g.pool → P i g.mgr → g.Owned o →
      wp m (fun _ g' => g'.Owned o ∧ SamePool g.pool g'.pool ∧ Q i g'.mgr) any g)
    (h : Turning held s0 P Q (i :: rest) s) :
    wp (onManager i m) (fun _ s' => Turning held s0 P Q rest s') any s := by
  have hturn := fun o ho => hm o (s.group i) h.same (h.todo i List.mem_cons_self) ho
  refine wp_imp (wp_onManager (f := fun _ _ => 0) h.owned hturn) ?_
  intro _ s' ⟨hown, hsame, hput, hQ⟩
  obtain ⟨htodo, hdone, hnodup⟩ := visited hput h.nodup h.todo h.done hQ
  exact ⟨hown, h.same.trans hsame, htodo, hdone, hnodup⟩

/-- **A whole loop.** -/
theorem forManagers_turns {m : Fin n → GroupM H Unit} (hs : s.Owned held) (hP : ∀ i, P i (s.managers i))
    (hm : ∀ i o g, SamePool s.pool g.pool → P i g.mgr → g.Owned o →
      wp (m i) (fun _ g' => g'.Owned o ∧ SamePool g.pool g'.pool ∧ Q i g'.mgr) any g) :
    wp (forManagers m) (fun _ s' => Turning held s P Q [] s') any s :=
  wp_forM (Turning held s P Q) (fun i _ _ h => turns_step (hm i) h) (Turning.start hs hP)

end Turns

end KVCacheManager

end VllmRwkv
