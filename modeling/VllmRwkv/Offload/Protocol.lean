import VllmRwkv.Offload.Accounting

/-!
# The offloading manager under its protocol

The calls of the connector, with what the connector has to know to make them: which loads are under way, and
which requests have been finished. From a new manager with either of the built-in policies, every call that
keeps to the protocol returns, and the accounts are right after it.
-/

namespace VllmRwkv.Offload

open List LawfulCachePolicy Function Finset

open Dict hiding keys

/-! ## The built-in policies -/

namespace PolicyName

variable (F Key : Type) [FloatOps F] [DecidableEq Key] [LT Key] [DecidableLT Key]

/-- The class that `CachePolicyFactory` has under a name. -/
def State : PolicyName → Type
  | .lru => Lru Key
  | .arc => Arc F Key

/-- Its `__init__`. -/
def new (capacity : ℕ) : (name : PolicyName) → name.State F Key
  | .lru => ({} : Lru Key)
  | .arc => ({ cacheCapacity := capacity, targetT1Size := FloatOps.ofNat 0 } : Arc F Key)

instance (name : PolicyName) : CachePolicy (name.State F Key) Key :=
  match name with
  | .lru => inferInstanceAs (CachePolicy (Lru Key) Key)
  | .arc => inferInstanceAs (CachePolicy (Arc F Key) Key)

instance (name : PolicyName) : LawfulCachePolicy (name.State F Key) Key :=
  match name with
  | .lru => inferInstanceAs (LawfulCachePolicy (Lru Key) Key)
  | .arc => inferInstanceAs (LawfulCachePolicy (Arc F Key) Key)

end PolicyName

variable {P Key Req : Type}

/-! ## The tracker of offers never runs dry -/

section

variable [DecidableEq Key]

section

variable (maxTrackerSize : ℕ) (keys : List Key)

theorem countNew_spec (u : ℤ) (counts : Dict Key ℕ) (hu : 0 ≤ u)
    (hle : u ≤ counts.keys.length) : ∃ counts', countNew maxTrackerSize keys u counts = .ok counts' := by
  induction keys generalizing u counts with
  | nil => exact ⟨counts, rfl⟩
  | cons key keys ih =>
    unfold countNew
    have hgrow (d : Dict Key ℕ) (hkey : key ∉ d.keys) : (d.set key 1).keys.length = d.keys.length + 1 := by
      rw [keys_set_of_not_mem hkey, length_append, length_singleton]
    split
    · exact ih u counts hu hle
    rename_i hkey
    split
    · split_ifs with hne
      · exact ih u counts hu hle
      · split
        next hnil =>
          rw [hnil] at hle
          exact absurd (le_antisymm hle hu) hne
        rename_i oldest rest heq
        refine ih _ _ (by omega) ?_
        have herase : (counts.erase oldest).keys.length = rest.length := by
          show (counts.keys.erase oldest).length = _
          rw [heq, erase_cons_head]
        rw [hgrow _ fun hmem => hkey (mem_keys_erase.1 hmem).2, herase]
        rw [heq, length_cons] at hle
        omega
    · refine ih u _ hu ?_
      rw [hgrow _ hkey]
      omega

theorem countKnown_protect (keys : List Key) (counts : Dict Key ℕ) :
    ∀ k ∈ (countKnown keys counts).2, k ∈ (countKnown keys counts).1.keys := by
  refine foldlRecOn (motive := fun s : Dict Key ℕ × Finset Key => ∀ k ∈ s.2, k ∈ s.1.keys) keys _
    (fun k hk => absurd hk (notMem_empty k)) ?_
  rintro ⟨counts, protect⟩ h key -
  cases hkey : counts.get? key with
  | none =>
    simp only [hkey]
    exact h
  | some n =>
    simp only [hkey]
    intro k hk
    rw [mem_keys_set]
    rcases mem_insert.1 hk with rfl | hk
    · exact .inl rfl
    · right
      rw [Dict.mem_keys, get?_moveToEnd, ← Dict.mem_keys]
      exact h k hk

theorem recordAccesses_spec (counts : Dict Key ℕ) :
    ∃ counts', recordAccesses maxTrackerSize keys counts = .ok counts' := by
  set known := countKnown keys counts
  have hcard : known.2.card ≤ known.1.keys.length := by
    rw [← toFinset_card_of_nodup known.1.nodup]
    refine card_le_card fun k hk => ?_
    rw [mem_toFinset]
    exact countKnown_protect keys counts k hk
  show ∃ counts', countNew maxTrackerSize keys
    ((known.1.keys.length : ℤ) - known.2.card) known.1 =
      .ok counts'
  exact countNew_spec maxTrackerSize keys _ _ (by omega) (by omega)

end

theorem seeKeys_spec (groupIdx : Key → ℕ) (keys : List Key) (state : RequestCacheAccess Key)
    (h : state.finished = false) : ∃ state', Manager.seeKeys groupIdx keys state = .ok state' ∧
      state'.cacheGeneration = state.cacheGeneration ∧ state'.finished = false := by
  induction keys generalizing state with
  | nil => exact ⟨state, rfl, rfl, h⟩
  | cons key keys ih =>
    unfold Manager.seeKeys
    split
    · exact ih state h
    · rw [if_neg (by rw [h]; decide)]
      exact ih _ h

end

/-! ## What the requests have touched -/

/-- A state of this generation that is finished belongs to a finished request. -/
structure Requests (m : Manager P Key Req) (finished : Finset Req) : Prop where
  generation : ∀ r state, m.requests r = some state → state.cacheGeneration ≤ m.cacheGeneration
  finished : ∀ r state, m.requests r = some state → state.cacheGeneration = m.cacheGeneration →
    state.finished → r ∈ finished

section Requests

variable {m : Manager P Key Req} {finished : Finset Req} {r : Req}

theorem getRequestCacheAccess_spec (h : Requests m finished) (r : Req) :
    (m.getRequestCacheAccess r).cacheGeneration = m.cacheGeneration ∧
      ((m.getRequestCacheAccess r).finished → r ∈ finished) := by
  unfold Manager.getRequestCacheAccess
  split
  · exact ⟨rfl, nofun⟩
  rename_i state hstate
  split_ifs with hgen
  · exact ⟨hgen, h.finished r state hstate hgen⟩
  · exact ⟨rfl, nofun⟩

variable [DecidableEq Req]

theorem Requests.set (h : Requests m finished) (pool : Pool P) {state : RequestCacheAccess Key}
    {finished' : Finset Req} (hgen : state.cacheGeneration = m.cacheGeneration) (hsub : finished ⊆ finished')
    (hfin : state.finished → r ∈ finished') :
    Requests (({ m with pool := pool } : Manager P Key Req).setRequestCacheAccess r state) finished' := by
  have hcases : ∀ r' state', update m.requests r (some state) r' = some state' →
      (r' = r ∧ state' = state) ∨ m.requests r' = some state' := by
    intro r' state' hstate'
    rw [update_apply] at hstate'
    split_ifs at hstate' with hr
    · exact .inl ⟨hr, (Option.some.inj hstate').symm⟩
    · exact .inr hstate'
  refine ⟨fun r' state' hstate' => ?_, fun r' state' hstate' hgen' hfin' => ?_⟩
  · rcases hcases r' state' hstate' with ⟨_, rfl⟩ | hold
    · exact hgen.le
    · exact h.generation r' state' hold
  · rcases hcases r' state' hstate' with ⟨rfl, rfl⟩ | hold
    · exact hfin hfin'
    · exact hsub (h.finished r' state' hold hgen' hfin')

variable [DecidableEq Key]

theorem recordRequestCacheAccess_spec (groupIdx : Key → ℕ) (h : Requests m finished) (hr : r ∉ finished)
    (keys inserted reused : List Key) : ∃ m', m.recordRequestCacheAccess groupIdx keys r inserted reused = .ok m' ∧
      m'.pool = m.pool ∧ Requests m' finished := by
  obtain ⟨hgen, hfin⟩ := getRequestCacheAccess_spec h r
  obtain ⟨state, hsee, hgen', hfin'⟩ := seeKeys_spec groupIdx keys (m.getRequestCacheAccess r)
    (Bool.eq_false_iff.2 fun hf => hr (hfin hf))
  refine ⟨m.setRequestCacheAccess r { state with
    insertedKeys := state.insertedKeys ∪ inserted.toFinset
    reusedKeys := state.reusedKeys ∪ (reused.filter (· ∉ state.insertedKeys ∪ inserted.toFinset)).toFinset }, ?_,
    rfl, ?_⟩
  · unfold Manager.recordRequestCacheAccess
    rw [hsee]
    rfl
  · refine h.set m.pool (hgen'.trans hgen) (Finset.Subset.refl _) fun hf => ?_
    cases hfin'.symm.trans hf

end Requests

/-! ## Calls -/

variable [DecidableEq Key] [DecidableEq Req] [CachePolicy P Key]

/-- The manager, the loads under way, and the requests that have been finished. -/
structure World (P Key Req : Type) where
  manager : Manager P Key Req
  loads : Multiset Key := 0
  finished : Finset Req := ∅

inductive Call (Key Req : Type) where
  | newRequest (r : Req)
  | lookup (key : Key)
  | touch (keys : List Key)
  | prepareStore (keys : List Key) (r : Req)
  | completeStore (keys : List Key) (success : Bool)
  | prepareLoad (keys : List Key) (r : Req)
  | completeLoad (keys : List Key)
  | requestFinished (r : Req) (position : Key → Option ℕ)
  | reset

/-- The protocol: an offer has no key twice; what is loaded was found, and each load is completed once; a
finished request neither stores nor loads. -/
def World.Conforms (w : World P Key Req) : Call Key Req → Prop
  | .prepareStore keys r => keys.Nodup ∧ r ∉ w.finished
  | .prepareLoad keys r => (∀ key ∈ keys, w.manager.pool.lookup key = .hit) ∧ r ∉ w.finished
  | .completeLoad keys => (keys : Multiset Key) ≤ w.loads
  | _ => True

/-- After the call no chunk has `2 ^ 31` loads under way, so that its `ref_cnt` does not wrap around. -/
def World.Counted (w : World P Key Req) : Call Key Req → Prop
  | .prepareLoad keys _ => ∀ key ∈ keys, (w.loads + (keys : Multiset Key)).count key < 2 ^ 31
  | _ => True

/-- What a call does; `reset` makes the loads under way stale. -/
def World.step (groupIdx : Key → ℕ) (w : World P Key Req) : Call Key Req → Except PyErr (World P Key Req)
  | .newRequest r => .ok { w with manager := w.manager.onNewRequest r }
  | .lookup _ => .ok w
  | .touch keys => do return { w with manager := ← w.manager.touch keys }
  | .prepareStore keys r => do return { w with manager := (← w.manager.prepareStore groupIdx keys r).1 }
  | .completeStore keys success => do return { w with manager := ← w.manager.completeStore keys success }
  | .prepareLoad keys r => do
    return { w with manager := (← w.manager.prepareLoad groupIdx keys r).1, loads := w.loads + (keys : Multiset Key) }
  | .completeLoad keys => do
    return { w with manager := ← w.manager.completeLoad keys, loads := w.loads - (keys : Multiset Key) }
  | .requestFinished r position => do
    return { w with manager := ← w.manager.onRequestFinished r position, finished := insert r w.finished }
  | .reset => .ok { w with manager := w.manager.resetCache, loads := 0 }

/-- The worlds before and after calls that keep to the protocol and do not load one chunk too often. -/
def World.Runs (groupIdx : Key → ℕ) : World P Key Req → World P Key Req → Prop :=
  Relation.ReflTransGen fun w w' => ∃ call, w.Conforms call ∧ w.Counted call ∧ w.step groupIdx call = .ok w'

variable [LawfulCachePolicy P Key]

structure World.Inv (cap : ℕ) (w : World P Key Req) : Prop where
  accounts : Accounts cap w.manager.pool
  loads : Loads w.manager.pool w.loads
  requests : Requests w.manager w.finished

/-- What a store does to the chunks that are there. -/
structure Stored (m : Manager P Key Req) (keys : List Key) (m' : Manager P Key Req)
    (out : Option (PrepareStoreOutput Key)) : Prop where
  /-- A refused store leaves the chunks as they were. -/
  refused : out = none → (table m'.pool.policy).get? = (table m.pool.policy).get?
  /-- Only idle chunks that are not offered are evicted. -/
  evicted : ∀ o, out = some o → ∀ k ∈ o.evictedKeys, k ∉ keys ∧
    ∃ c, (table m.pool.policy).get? k = some c ∧ c.refCnt = 0

section Store

variable {cap : ℕ} {m : Manager P Key Req} {finished : Finset Req} {r : Req} {loads : Multiset Key}

omit [DecidableEq Req] [CachePolicy P Key] [LawfulCachePolicy P Key] in
theorem countOffer_spec (h : Requests m finished) (keys : List Key) :
    ∃ m', m.countOffer keys = .ok m' ∧ m'.pool = m.pool ∧ Requests m' finished := by
  unfold Manager.countOffer
  split
  · exact ⟨m, rfl, rfl, h⟩
  rename_i counts _
  obtain ⟨counts', hcounts⟩ := recordAccesses_spec m.maxTrackerSize keys counts
  refine ⟨{ m with counts := some counts' }, ?_, rfl, ⟨h.generation, h.finished⟩⟩
  rw [hcounts]
  rfl

theorem observeMisses_spec (ha : Accounts cap m.pool) (hl : Loads m.pool loads) (h : Requests m finished)
    (keysToStore : List Key) : ∃ m', m.observeMisses r keysToStore = .ok m' ∧ Accounts cap m'.pool ∧
      Loads m'.pool loads ∧ Requests m' finished ∧ (table m'.pool.policy).get? = (table m.pool.policy).get? := by
  obtain ⟨hgen, hfin⟩ := getRequestCacheAccess_spec h r
  unfold Manager.observeMisses
  dsimp only
  split
  · exact ⟨_, rfl, ha, hl, h.set m.pool hgen (Finset.Subset.refl _) hfin, rfl⟩
  obtain ⟨policy, hmiss, hok, htable⟩ := onStoreMiss_spec
    (keysToStore.filter (· ∉ (m.getRequestCacheAccess r).storeMissKeys)) ha.policy
  rw [hmiss]
  exact ⟨_, rfl, ha.samePolicy hok htable, hl.samePolicy htable, h.set _ hgen (Finset.Subset.refl _) hfin, htable⟩

omit [DecidableEq Req] in
theorem keysToStore_spec (m : Manager P Key Req) {keys : List Key} (hnodup : keys.Nodup) :
    (m.keysToStore keys).Nodup ∧ ∀ k ∈ m.keysToStore keys, (table m.pool.policy).get? k = none := by
  have hnew : ∀ k ∈ keys.filter (fun key => (CachePolicy.get m.pool.policy key).isNone),
      (table m.pool.policy).get? k = none := by
    intro k hk
    rw [← get_eq]
    exact Option.isNone_iff_eq_none.1 (mem_filter.1 hk).2
  unfold Manager.keysToStore
  split
  · exact ⟨hnodup.filter _, hnew⟩
  · exact ⟨(hnodup.filter _).filter _, fun k hk => hnew k (mem_filter.1 hk).1⟩

theorem prepareStore_spec (groupIdx : Key → ℕ) (ha : Accounts cap m.pool) (hl : Loads m.pool loads)
    (h : Requests m finished) {keys : List Key} (hnodup : keys.Nodup) (hr : r ∉ finished) :
    ∃ m' out, m.prepareStore groupIdx keys r = .ok (m', out) ∧ Accounts cap m'.pool ∧ Loads m'.pool loads ∧
      Requests m' finished ∧ Stored m keys m' out := by
  obtain ⟨m₁, hcount, hpool₁, h₁⟩ := countOffer_spec h keys
  obtain ⟨hstore, hnew⟩ := keysToStore_spec m₁ hnodup
  obtain ⟨m₂, hmiss, ha₂, hl₂, h₂, htable₂⟩ := observeMisses_spec (hpool₁ ▸ ha) (hpool₁ ▸ hl) h₁ (m₁.keysToStore keys)
  obtain ⟨m₃, hrecord, hpool₃, h₃⟩ := recordRequestCacheAccess_spec groupIdx h₂ hr
    (keys.filter fun key => key ∈ m₁.keysToStore keys ∨ key ∈ m₁.readyExistingKeys keys) []
    (m₁.readyExistingKeys keys)
  -- up to here the chunks are as they were
  have htable : (table m₃.pool.policy).get? = (table m.pool.policy).get? := by rw [hpool₃, htable₂, hpool₁]
  rw [← hpool₃] at ha₂ hl₂
  unfold Manager.prepareStore
  rw [hcount]
  show ∃ m' out, (m₁.observeMisses r (m₁.keysToStore keys) >>= _) = _ ∧ _
  rw [hmiss]
  show ∃ m' out, (m₂.recordRequestCacheAccess groupIdx _ r [] _ >>= _) = _ ∧ _
  rw [hrecord]
  show ∃ m' out, (if m₁.keysToStore keys = [] then _ else _) = _ ∧ _
  split
  · exact ⟨m₃, _, rfl, ha₂, hl₂, h₃, nofun, fun o ho k hk => by
      cases ho
      exact absurd hk not_mem_nil⟩
  obtain ⟨pool, out, hroom, hmade⟩ := makeRoom_spec ha₂ keys (m₁.keysToStore keys).length
  rw [hroom]
  cases out with
  | none =>
    refine ⟨{ m₃ with pool := pool }, none, rfl, hmade.accounts, hl₂.samePolicy (hmade.refused rfl),
      ⟨h₃.generation, h₃.finished⟩, fun _ => (hmade.refused rfl).trans htable, nofun⟩
  | some evicted =>
    obtain ⟨hfree, hevict, hidle⟩ := hmade.evicted evicted rfl
    have hl₄ : Loads pool loads := by
      intro k
      rw [hevict, get?_eraseAll]
      split_ifs with hk
      · obtain ⟨_, c, hc, hzero⟩ := hidle k hk
        have := hl₂ k
        rw [hc] at this
        simp only [refs, hzero] at this ⊢
        omega
      · exact hl₂ k
    have hnew' : ∀ k ∈ m₁.keysToStore keys, (table pool.policy).get? k = none := by
      intro k hk
      rw [hevict, get?_eraseAll]
      split
      · rfl
      · rw [htable, ← hpool₁]
        exact hnew k hk
    obtain ⟨pool', ids, hallocate, ha₅, hl₅⟩ := allocateAndInsert_spec hmade.accounts hl₄ hstore hnew' hfree
    obtain ⟨hgen, hfin⟩ := getRequestCacheAccess_spec h₃ r
    refine ⟨({ m₃ with pool := pool' } : Manager P Key Req).setRequestCacheAccess r { m₃.getRequestCacheAccess r with
          insertedKeys := (m₃.getRequestCacheAccess r).insertedKeys ∪ (m₁.keysToStore keys).toFinset },
      some ⟨m₁.keysToStore keys, ids, evicted⟩, ?_, ha₅, hl₅, h₃.set pool' hgen (Finset.Subset.refl _) hfin,
      fun h => (Option.some_ne_none _ h).elim, fun o ho k hk => ?_⟩
    · show (pool.allocateAndInsert (m₁.keysToStore keys) >>= _) = _
      rw [hallocate]
      rfl
    · cases ho
      obtain ⟨hnot, c, hc, hzero⟩ := hidle k hk
      rw [htable] at hc
      exact ⟨hnot, c, hc, hzero⟩

end Store

/-- Every call that keeps to the protocol returns, and keeps the invariant. -/
theorem World.Inv.step {cap : ℕ} {w : World P Key Req} (groupIdx : Key → ℕ) (h : World.Inv cap w) {call : Call Key Req}
    (hcall : w.Conforms call) (hfew : w.Counted call) :
    ∃ w', w.step groupIdx call = .ok w' ∧ World.Inv cap w' := by
  obtain ⟨ha, hl, hreq⟩ := h
  cases call with
  | newRequest r =>
    obtain ⟨hgen, hfin⟩ := getRequestCacheAccess_spec hreq r
    exact ⟨_, rfl, ha, hl, hreq.set w.manager.pool hgen (Finset.Subset.refl _) hfin⟩
  | lookup key => exact ⟨w, rfl, ha, hl, hreq⟩
  | touch keys =>
    obtain ⟨policy, htouch, hok, htable⟩ := touch_spec keys ha.policy
    refine ⟨{ w with manager := { w.manager with pool := { w.manager.pool with policy := policy } } }, ?_,
      ha.samePolicy hok htable, hl.samePolicy htable, ⟨hreq.generation, hreq.finished⟩⟩
    simp only [World.step, Manager.touch, htouch]
    rfl
  | prepareStore keys r =>
    obtain ⟨m', out, hstore, ha', hl', hreq', _⟩ := prepareStore_spec groupIdx ha hl hreq hcall.1 hcall.2
    refine ⟨{ w with manager := m' }, ?_, ha', hl', hreq'⟩
    simp only [World.step, hstore]
    rfl
  | completeStore keys success =>
    obtain ⟨pool, hsettle, ha', hl'⟩ := foldlM_settle_spec success keys w.manager.pool ha hl
    refine ⟨{ w with manager := { w.manager with pool := pool } }, ?_, ha', hl', ⟨hreq.generation, hreq.finished⟩⟩
    simp only [World.step, Manager.completeStore, hsettle]
    rfl
  | prepareLoad keys r =>
    obtain ⟨hhit, hr⟩ := hcall
    obtain ⟨pool, ids, hpin, ha', hl'⟩ := pinAll_spec keys w.manager.pool w.loads ha hl hfew fun k hk => by
      have hk := hhit k hk
      unfold Pool.lookup at hk
      rw [get_eq] at hk
      split at hk
      · cases hk
      rename_i c hc
      refine ⟨c, hc, ?_⟩
      by_contra hnot
      rw [if_neg hnot] at hk
      cases hk
    have hreq₁ : Requests ({ w.manager with pool := pool } : Manager P Key Req) w.finished :=
      ⟨hreq.generation, hreq.finished⟩
    obtain ⟨m', hrecord, hpool, hreq'⟩ := recordRequestCacheAccess_spec groupIdx hreq₁ hr keys [] keys
    refine ⟨{ w with manager := m', loads := w.loads + (keys : Multiset Key) }, ?_, ?_, ?_, hreq'⟩
    · have hload : w.manager.prepareLoad groupIdx keys r = .ok (m', ids) := by
        unfold Manager.prepareLoad
        rw [hpin]
        show (({ w.manager with pool := pool } : Manager P Key Req).recordRequestCacheAccess groupIdx keys r [] keys
          >>= _) = _
        rw [hrecord]
        rfl
      simp only [World.step, hload]
      rfl
    · rw [hpool]
      exact ha'
    · rw [hpool]
      exact hl'
  | completeLoad keys =>
    obtain ⟨pool, hunpin, ha', hl'⟩ := foldlM_unpin_spec keys w.manager.pool w.loads ha hl hcall
    refine ⟨{ w with manager := { w.manager with pool := pool }, loads := w.loads - (keys : Multiset Key) }, ?_, ha',
      hl', ⟨hreq.generation, hreq.finished⟩⟩
    simp only [World.step, Manager.completeLoad, hunpin]
    rfl
  | requestFinished r position =>
    have hsub : w.finished ⊆ insert r w.finished := subset_insert r w.finished
    have hkeep : Requests w.manager (insert r w.finished) :=
      ⟨hreq.generation, fun r' state hstate hgen hfin => hsub (hreq.finished r' state hstate hgen hfin)⟩
    unfold World.step Manager.onRequestFinished
    dsimp only
    split
    · exact ⟨_, rfl, ha, hl, hkeep⟩
    rename_i state hstate
    split_ifs with hcurrent
    · exact ⟨_, rfl, ha, hl, hkeep⟩
    obtain ⟨policy, hfinish, hok, htable⟩ := onRequestFinished_spec
      ((state.keyGroups.keys.mergeSort (· ≤ ·)).map fun i =>
        Manager.orderGroup position ((state.keyGroups.get? i).getD []))
      (state.insertedKeys \ state.reusedKeys) state.reusedKeys position ha.policy
    rw [hfinish]
    refine ⟨_, rfl, ha.samePolicy hok htable, hl.samePolicy htable, ?_⟩
    exact hreq.set _ (not_not.1 fun hgen => hcurrent (.inl hgen)) hsub fun _ => mem_insert_self r _
  | reset =>
    obtain ⟨ha', hl'⟩ := reset_spec ha.numChunks
    refine ⟨_, rfl, ha', hl', fun r state hstate => ?_, fun r state hstate hgen => ?_⟩
    · exact (hreq.generation r state hstate).trans (Nat.le_succ _)
    · have := hreq.generation r state hstate
      change state.cacheGeneration = w.manager.cacheGeneration + 1 at hgen
      omega

theorem World.Inv.run {cap : ℕ} {w w' : World P Key Req} (groupIdx : Key → ℕ) (h : World.Inv cap w)
    (hrun : World.Runs groupIdx w w') : World.Inv cap w' := by
  induction hrun with
  | refl => exact h
  | tail _ hstep ih =>
    obtain ⟨call, hcall, hfew, hstep⟩ := hstep
    obtain ⟨w₁, hstep', hinv⟩ := ih.step groupIdx hcall hfew
    cases hstep'.symm.trans hstep
    exact hinv

/-! ## Runs from a new manager -/

/-- One of three, and no two. -/
def ExactlyOne (a b c : Prop) : Prop := (a ∧ ¬b ∧ ¬c) ∨ (¬a ∧ b ∧ ¬c) ∨ (¬a ∧ ¬b ∧ c)

/-- Some resident chunk has the place. -/
def Resident (p : Pool P) (i : ℕ) : Prop := ∃ key c, CachePolicy.get p.policy key = some c ∧ c.chunkId = i

theorem Accounts.exactlyOne {cap : ℕ} {p : Pool P} (h : Accounts cap p) (i : ℕ) :
    ExactlyOne (p.numAllocatedChunks ≤ i) (i ∈ p.freeList) (Resident p i) := by
  have hres : Resident p i ↔ ∃ key c, (table p.policy).get? key = some c ∧ c.chunkId = i := by
    unfold Resident
    simp only [get_eq]
  rw [hres]
  by_cases hi : p.numAllocatedChunks ≤ i
  · refine .inl ⟨hi, fun hfree => ?_, ?_⟩
    · have := h.places.free_lt i hfree
      omega
    · rintro ⟨key, c, hc, rfl⟩
      have := h.places.lt key c hc
      omega
  right
  rcases h.places.cover i (not_le.1 hi) with hfree | ⟨key, c, hc, rfl⟩
  · refine .inl ⟨hi, hfree, ?_⟩
    rintro ⟨key, c, hc, rfl⟩
    exact h.places.disjoint key c hc hfree
  · exact .inr ⟨hi, h.places.disjoint key c hc, key, c, hc, rfl⟩

theorem countVals_eq_card (p : P) (q : ChunkStatus → Bool) :
    (table p).countVals q = ((table p).keys.toFinset.filter fun k => (CachePolicy.get p k).any q).card := by
  unfold countVals
  rw [countP_eq_length_filter, ← toFinset_card_of_nodup ((table p).nodup.filter _), toFinset_filter]
  simp only [get_eq]

section Built

variable {F : Type} [FloatOps F] [LT Key] [DecidableLT Key]

omit [DecidableEq Req] in
theorem inv_init (name : PolicyName) (capacity storeThreshold maxTrackerSize : ℕ) :
    World.Inv capacity ({ manager := Manager.init capacity (name.new F Key capacity) storeThreshold maxTrackerSize } :
      World (name.State F Key) Key Req) := by
  -- a new policy is as after `clear`
  have hclear : CachePolicy.clear (name.new F Key capacity) = name.new F Key capacity := by cases name <;> rfl
  obtain ⟨ha, hl⟩ := reset_spec (p := ({ numChunks := capacity, policy := name.new F Key capacity } :
    Pool (name.State F Key))) rfl
  unfold Pool.reset at ha hl
  rw [hclear] at ha hl
  exact ⟨ha, hl, nofun, nofun⟩

/-- After any calls that keep to the protocol, on a new manager with either policy: every place below the
capacity is either unallocated, or in the free list, or that of a resident chunk, and of one only; the counters
count the idle chunks and those being written; the next store, if it keeps to the protocol, evicts only idle
chunks that it does not name, and changes no chunk if it is refused; and the next call, whatever it is, raises
nothing. -/
theorem pool_accounts (name : PolicyName) (groupIdx : Key → ℕ) (capacity storeThreshold maxTrackerSize : ℕ)
    {w : World (name.State F Key) Key Req} (h : World.Runs groupIdx
      { manager := Manager.init capacity (name.new F Key capacity) storeThreshold maxTrackerSize } w) :
    (∀ i < capacity, ExactlyOne (w.manager.pool.numAllocatedChunks ≤ i) (i ∈ w.manager.pool.freeList)
      (Resident w.manager.pool i)) ∧ w.manager.pool.freeList.Nodup ∧
    (∀ key key' c c', CachePolicy.get w.manager.pool.policy key = some c →
      CachePolicy.get w.manager.pool.policy key' = some c' → c.chunkId = c'.chunkId → key = key') ∧
    (∃ resident : Finset Key, (∀ key, key ∈ resident ↔ (CachePolicy.get w.manager.pool.policy key).isSome) ∧
      w.manager.pool.numEvictableCacheChunks =
        (resident.filter fun key => (CachePolicy.get w.manager.pool.policy key).any ChunkStatus.idle).card ∧
      w.manager.pool.numWritePendingChunks = (resident.filter fun key =>
          (CachePolicy.get w.manager.pool.policy key).any ChunkStatus.writePending).card) ∧
    (∀ keys r, w.Conforms (.prepareStore keys r) → ∃ m' out, w.manager.prepareStore groupIdx keys r = .ok (m', out) ∧
        (out = none → ∀ key, CachePolicy.get m'.pool.policy key = CachePolicy.get w.manager.pool.policy key) ∧
        ∀ o, out = some o → ∀ key ∈ o.evictedKeys, key ∉ keys ∧ key ∉ w.loads ∧
          ∃ c, CachePolicy.get w.manager.pool.policy key = some c ∧ c.refCnt = 0) ∧
    ∀ call, w.Conforms call → w.Counted call → ∃ w', w.step groupIdx call = .ok w' := by
  have hinv := (inv_init name capacity storeThreshold maxTrackerSize).run groupIdx h
  obtain ⟨ha, hl, hreq⟩ := hinv
  refine ⟨fun i _ => ha.exactlyOne i, ha.places.nodup, fun key key' c c' hc hc' => ?_, ?_, fun keys r hcall => ?_,
    fun call hcall hfew => ?_⟩
  · rw [get_eq] at hc hc'
    exact ha.places.inj key key' c c' hc hc'
  · refine ⟨(table w.manager.pool.policy).keys.toFinset, fun key => ?_, ?_, ?_⟩
    · rw [mem_toFinset, Dict.mem_keys, get_eq]
    · rw [ha.evictable, countVals_eq_card]
    · rw [ha.pending, countVals_eq_card]
  · obtain ⟨m', out, hstore, _, _, _, hstored⟩ := prepareStore_spec groupIdx ha hl hreq hcall.1 hcall.2
    refine ⟨m', out, hstore, fun hnone key => ?_, fun o ho key hkey => ?_⟩
    · rw [get_eq, get_eq, hstored.refused hnone]
    obtain ⟨hnot, c, hc, hzero⟩ := hstored.evicted o ho key hkey
    refine ⟨hnot, ?_, c, by rw [get_eq]; exact hc, hzero⟩
    have hcount := hl key
    rw [hc] at hcount
    rw [← Multiset.count_eq_zero]
    simp only [refs, hzero] at hcount
    omega
  · obtain ⟨w', hstep, _⟩ := World.Inv.step groupIdx ⟨ha, hl, hreq⟩ hcall hfew
    exact ⟨w', hstep⟩

end Built

/-! ## A reference count that wraps around -/

/-- With `2 ^ 31 - 1` loads of a chunk under way, one more makes its `ref_cnt` negative, and the completion of a load
fails. -/
theorem World.Inv.wraps {cap : ℕ} {w : World P Key Req} (groupIdx : Key → ℕ) (h : World.Inv cap w) {k : Key}
    (hcount : w.loads.count k = 2 ^ 31 - 1) {r : Req} (hr : r ∉ w.finished) :
    w.Conforms (.prepareLoad [k] r) ∧ ∃ w', w.step groupIdx (.prepareLoad [k] r) = .ok w' ∧
      w'.Conforms (.completeLoad [k]) ∧
      w'.step groupIdx (.completeLoad [k]) = .error (.assertionError "Chunk ref_cnt is already 0") := by
  obtain ⟨ha, hl, hreq⟩ := h
  have hrefs := hl k
  rw [hcount] at hrefs
  obtain ⟨c, hc, hcnt⟩ : ∃ c, (table w.manager.pool.policy).get? k = some c ∧ c.refCnt = 2 ^ 31 - 1 := by
    cases hk : (table w.manager.pool.policy).get? k with
    | none =>
      rw [hk] at hrefs
      exact absurd hrefs (by decide)
    | some c =>
      rw [hk] at hrefs
      simp only [refs] at hrefs
      exact ⟨c, rfl, by omega⟩
  have hready : c.isReady := decide_eq_true (by omega)
  have hnext : Pool.nextRefCnt c.refCnt = -2 ^ 31 := by
    rw [hcnt]
    decide
  obtain ⟨-, htable⟩ := setRefCnt_spec ha.policy hc (by omega) (show (-2 ^ 31 : ℤ) ≠ 0 by decide)
  set pool : Pool P := { w.manager.pool with policy := CachePolicy.setRefCnt w.manager.pool.policy k (-2 ^ 31) }
    with hpool
  have hpin : w.manager.pool.pinAll [k] = .ok (pool, [c.chunkId]) := by
    unfold Pool.pinAll Pool.pin
    rw [get_eq, hc]
    dsimp only
    rw [if_neg (by rw [hready]; decide), if_neg (by omega), hnext]
    rfl
  have hreq₁ : Requests ({ w.manager with pool := pool } : Manager P Key Req) w.finished :=
    ⟨hreq.generation, hreq.finished⟩
  obtain ⟨m, hrecord, hsame, -⟩ := recordRequestCacheAccess_spec groupIdx hreq₁ hr [k] [] [k]
  have hload : w.manager.prepareLoad groupIdx [k] r = .ok (m, [c.chunkId]) := by
    unfold Manager.prepareLoad
    rw [hpin]
    show (({ w.manager with pool := pool } : Manager P Key Req).recordRequestCacheAccess groupIdx [k] r [] [k]
      >>= _) = _
    rw [hrecord]
    rfl
  have hunpin : pool.unpin k = .error (.assertionError "Chunk ref_cnt is already 0") := by
    unfold Pool.unpin
    rw [get_eq, htable, get?_set_self]
    exact if_neg (show ¬(0 : ℤ) < -2 ^ 31 by decide)
  refine ⟨⟨fun key hkey => ?_, hr⟩, { w with manager := m, loads := w.loads + ([k] : List Key) }, ?_, ?_, ?_⟩
  · rw [List.mem_singleton.1 hkey]
    unfold Pool.lookup
    rw [get_eq, hc]
    exact if_pos hready
  · simp only [World.step, hload]
    rfl
  · exact Multiset.le_add_left _ _
  · simp only [World.step, Manager.completeLoad, List.foldlM_cons, hsame, hunpin]
    rfl

/-! ## A run -/

section Exec

omit [LawfulCachePolicy P Key]

instance (w : World P Key Req) (call : Call Key Req) : Decidable (w.Conforms call) :=
  match call with
  | .prepareStore keys r => inferInstanceAs (Decidable (keys.Nodup ∧ r ∉ w.finished))
  | .prepareLoad keys r =>
    inferInstanceAs (Decidable ((∀ key ∈ keys, w.manager.pool.lookup key = .hit) ∧ r ∉ w.finished))
  | .completeLoad keys => inferInstanceAs (Decidable ((keys : Multiset Key) ≤ w.loads))
  | .newRequest _ => isTrue trivial
  | .lookup _ => isTrue trivial
  | .touch _ => isTrue trivial
  | .completeStore _ _ => isTrue trivial
  | .requestFinished _ _ => isTrue trivial
  | .reset => isTrue trivial

instance (w : World P Key Req) (call : Call Key Req) : Decidable (w.Counted call) :=
  match call with
  | .prepareLoad keys _ =>
    inferInstanceAs (Decidable (∀ key ∈ keys, (w.loads + (keys : Multiset Key)).count key < 2 ^ 31))
  | .prepareStore _ _ | .completeLoad _ | .newRequest _ | .lookup _ | .touch _ | .completeStore _ _ |
    .requestFinished _ _ | .reset => isTrue trivial

/-- The world after some calls; `none` if a call does not keep to the protocol, or raises. -/
def World.exec (groupIdx : Key → ℕ) (w : World P Key Req) : List (Call Key Req) → Option (World P Key Req)
  | [] => some w
  | call :: calls =>
    if w.Conforms call ∧ w.Counted call then
      match w.step groupIdx call with
      | .ok w' => World.exec groupIdx w' calls
      | .error _ => none
    else none

theorem World.runs_of_exec {groupIdx : Key → ℕ} {w w' : World P Key Req} {calls : List (Call Key Req)}
    (h : w.exec groupIdx calls = some w') : World.Runs groupIdx w w' := by
  induction calls generalizing w with
  | nil =>
    cases h
    exact Relation.ReflTransGen.refl
  | cons call calls ih =>
    unfold World.exec at h
    split at h
    next hcall =>
      split at h
      next w₁ hstep => exact Relation.ReflTransGen.head ⟨call, hcall.1, hcall.2, hstep⟩ (ih h)
      · cases h
    · cases h

end Exec

/-- Two chunks, three stores: the third evicts the idle chunk, not the one that is being loaded. -/
theorem pool_accounts_twoChunks : ∃ w : World (PolicyName.arc.State Rat ℕ) ℕ ℕ,
    World.Runs (fun _ => 0) { manager := Manager.init 2 (PolicyName.arc.new Rat ℕ 2) 1 64 } w ∧
    w.loads = {10} ∧ w.manager.pool.lookup 10 = .hit ∧ w.manager.pool.lookup 11 = .miss ∧
    w.manager.pool.lookup 12 = .hitPending ∧
    ∀ i < 2, ExactlyOne (w.manager.pool.numAllocatedChunks ≤ i) (i ∈ w.manager.pool.freeList)
      (Resident w.manager.pool i) := by
  have hrun : (World.exec (fun _ => 0) ({ manager := Manager.init 2 (PolicyName.arc.new Rat ℕ 2) 1 64 } :
      World (PolicyName.arc.State Rat ℕ) ℕ ℕ)
      [.prepareStore [10, 11] 0, .completeStore [10, 11] true, .prepareLoad [10] 1, .prepareStore [12] 2]).map
      (fun w => (decide (w.loads = {10}), w.manager.pool.lookup 10, w.manager.pool.lookup 11,
        w.manager.pool.lookup 12)) = some (true, .hit, .miss, .hitPending) := by decide +kernel
  obtain ⟨w, hexec, hw⟩ := Option.map_eq_some_iff.1 hrun
  obtain ⟨hloads, hhit, hmiss, hpending⟩ : decide (w.loads = {10}) ∧ w.manager.pool.lookup 10 = .hit ∧
      w.manager.pool.lookup 11 = .miss ∧ w.manager.pool.lookup 12 = .hitPending := by
    simpa only [Prod.mk.injEq] using hw
  have hruns := World.runs_of_exec hexec
  exact ⟨w, hruns, of_decide_eq_true hloads, hhit, hmiss, hpending, (pool_accounts _ _ 2 1 64 hruns).1⟩

/-- **The reference count wraps around**: a chunk is loaded `2 ^ 31` times before any of the loads is completed. -/
theorem pool_accounts_wraps : ∃ w w' : World (PolicyName.lru.State Rat ℕ) ℕ ℕ,
    World.Runs (fun _ => 0) { manager := Manager.init 2 (PolicyName.lru.new Rat ℕ 2) 1 64 } w ∧
    w.Conforms (.prepareLoad [10] 1) ∧ w.step (fun _ => 0) (.prepareLoad [10] 1) = .ok w' ∧
    w'.Conforms (.completeLoad [10]) ∧
    w'.step (fun _ => 0) (.completeLoad [10]) = .error (.assertionError "Chunk ref_cnt is already 0") := by
  have hrun : (World.exec (fun _ => 0) ({ manager := Manager.init 2 (PolicyName.lru.new Rat ℕ 2) 1 64 } :
      World (PolicyName.lru.State Rat ℕ) ℕ ℕ) [.prepareStore [10] 0, .completeStore [10] true]).map
      (fun w => (decide (w.loads = 0 ∧ 1 ∉ w.finished), w.manager.pool.lookup 10)) = some (true, .hit) := by
    decide +kernel
  obtain ⟨w, hexec, hw⟩ := Option.map_eq_some_iff.1 hrun
  obtain ⟨hstate, hhit⟩ : decide (w.loads = 0 ∧ 1 ∉ w.finished) ∧ w.manager.pool.lookup 10 = .hit := by
    simpa only [Prod.mk.injEq] using hw
  obtain ⟨hloads, hfin⟩ := of_decide_eq_true hstate
  have hruns := World.runs_of_exec hexec
  have hinv := (inv_init (F := Rat) .lru 2 1 64).run (fun _ => 0) hruns
  -- all loads but one, in one call
  set many := List.replicate (2 ^ 31 - 1) 10 with hmany
  have hcall : w.Conforms (.prepareLoad many 1) :=
    ⟨fun key hkey => by rw [List.eq_of_mem_replicate hkey]; exact hhit, hfin⟩
  have hcount : (w.loads + (many : Multiset ℕ)).count 10 = 2 ^ 31 - 1 := by
    rw [hloads, zero_add, Multiset.coe_count, hmany, List.count_replicate_self]
  have hfew : w.Counted (.prepareLoad many 1) := fun key hkey => by
    rw [List.eq_of_mem_replicate hkey, hcount]
    decide
  obtain ⟨w₁, hstep, hinv₁⟩ := hinv.step (fun _ => 0) hcall hfew
  have hafter : w₁.loads = w.loads + (many : Multiset ℕ) ∧ w₁.finished = w.finished := by
    simp only [World.step] at hstep
    cases hm : w.manager.prepareLoad (fun _ => 0) many 1 with
    | error e =>
      rw [hm] at hstep
      cases hstep
    | ok x =>
      rw [hm] at hstep
      cases hstep
      exact ⟨rfl, rfl⟩
  obtain ⟨hconf, w', hload, hconf', hfail⟩ := hinv₁.wraps (fun _ => 0) (hafter.1 ▸ hcount) (hafter.2 ▸ hfin)
  exact ⟨w₁, w', hruns.tail ⟨_, hcall, hfew, hstep⟩, hconf, hload, hconf', hfail⟩

end VllmRwkv.Offload
