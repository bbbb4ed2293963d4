import VllmRwkv.Batch.Rows

/-!
# Replaying a batch update

What a `BatchUpdate` says about the rows, as an operation on any assignment of values to rows: `replay`. The
holders of tables and of min-p replay the same on what they derive from the requests. The thinking budget
does so only if no request without a budget is moved into the row of one with a budget (`Vacated`).
-/

namespace VllmRwkv.Batch

open List Function Dict

section Replay

variable {α β : Type}

section

variable (f : ℕ → Option α)

/-- The added requests take their rows. -/
def place (added : List (ℕ × α)) : ℕ → Option α :=
  added.foldl (fun f a => update f a.1 (some a.2)) f

/-- The removed rows are empty. -/
def vacate (removed : List ℕ) : ℕ → Option α := fun i => if i ∈ removed then none else f i

/-- The row `dst` gets what the row `src` has, and the other way round in a swap. -/
def moveRow (m : Move) : ℕ → Option α := fun i =>
  if i = m.dst then f m.src
  else if i = m.src then (if m.direction = .swap then f m.dst else none)
  else f i

def replay (added : List (ℕ × α)) (removed : List ℕ) (moved : List Move) : ℕ → Option α :=
  moved.foldl moveRow (vacate (place f added) removed)

end

/-- What is derived from the values of the rows. -/
def derive (h : α → Option β) (f : ℕ → Option α) : ℕ → Option β := fun i => (f i).bind h

section

variable (f : ℕ → Option α)

theorem vacate_nil : vacate f [] = f := by
  funext i
  unfold vacate
  rw [if_neg not_mem_nil]

theorem vacate_cons (i : ℕ) (removed : List ℕ) : vacate f (i :: removed) = vacate (vacate f [i]) removed := by
  funext j
  unfold vacate
  by_cases hj : j = i
  · subst hj
    simp
  · simp [hj]

theorem moveRow_self {m : Move} (hself : m.src = m.dst) : moveRow f m = f := by
  funext i
  unfold moveRow
  by_cases hi : i = m.dst
  · rw [if_pos hi, hself, hi]
  · rw [if_neg hi, if_neg (by rw [hself]; exact hi)]

theorem place_append (added : List (ℕ × α)) (a : ℕ × α) :
    place f (added ++ [a]) = update (place f added) a.1 (some a.2) := by
  unfold place
  rw [foldl_append]
  rfl

end

variable {added : List (ℕ × α)}

theorem vacate_place {f : ℕ → Option α} {removed : List ℕ} (h : ∀ a ∈ added, a.1 ∉ removed) :
    place (vacate f removed) added = vacate (place f added) removed := by
  induction added generalizing f with
  | nil => rfl
  | cons a added ih =>
    have hupdate : update (vacate f removed) a.1 (some a.2) = vacate (update f a.1 (some a.2)) removed := by
      funext i
      unfold vacate
      rw [update_apply, update_apply]
      split_ifs with hi hin
      · exact absurd (hi ▸ hin) (h a mem_cons_self)
      all_goals rfl
    show place (update (vacate f removed) a.1 (some a.2)) added = vacate (place (update f a.1 (some a.2)) added) removed
    rw [hupdate]
    exact ih fun a' ha' => h a' (mem_cons_of_mem _ ha')

section

variable (h : α → Option β) (f : ℕ → Option α)

include h

theorem derive_vacate (removed : List ℕ) : derive h (vacate f removed) = vacate (derive h f) removed := by
  funext i
  unfold derive vacate
  split <;> rfl

theorem derive_moveRow (m : Move) : derive h (moveRow f m) = moveRow (derive h f) m := by
  funext i
  unfold derive moveRow
  split
  · rfl
  · split
    · split <;> rfl
    · rfl

theorem derive_moves (moved : List Move) : derive h (moved.foldl moveRow f) = moved.foldl moveRow (derive h f) := by
  induction moved generalizing f with
  | nil => rfl
  | cons m moved ih =>
    rw [foldl_cons, ih, derive_moveRow, foldl_cons]

end

/-- Where nothing is derived from the requests, nothing is derived after the moves. -/
theorem derive_replay_eq_none {h : α → Option β} {f : ℕ → Option α}
    (hzero : derive h (place f added) = fun _ => none) (removed : List ℕ) (moved : List Move) :
    derive h (replay f added removed moved) = fun _ => none := by
  have hmoves : moved.foldl moveRow (fun _ => (none : Option β)) = fun _ => none := by
    induction moved with
    | nil => rfl
    | cons m moved ih =>
      rw [foldl_cons]
      have hone : moveRow (fun _ => (none : Option β)) m = fun _ => none := by
        funext i
        unfold moveRow
        split
        · rfl
        · split
          · split <;> rfl
          · rfl
      rw [hone, ih]
  have hvacate : vacate (fun _ => (none : Option β)) removed = fun _ => none := by
    funext i
    unfold vacate
    split <;> rfl
  unfold replay
  rw [derive_moves, derive_vacate, hzero, hvacate, hmoves]

theorem moves_update (f : ℕ → Option α) (moved : List Move) {e : ℕ} (v : Option α)
    (h : ∀ m ∈ moved, m.src ≠ e ∧ m.dst ≠ e) :
    moved.foldl moveRow (update f e v) = update (moved.foldl moveRow f) e v := by
  induction moved generalizing f with
  | nil => rfl
  | cons m moved ih =>
    obtain ⟨hsrc, hdst⟩ := h m mem_cons_self
    have hmove : moveRow (update f e v) m = update (moveRow f m) e v := by
      funext i
      unfold moveRow
      rw [update_of_ne hsrc, update_of_ne hdst]
      by_cases hi : i = e
      · subst hi
        rw [update_self, if_neg hdst.symm, if_neg hsrc.symm, update_self]
      · rw [update_of_ne hi, update_of_ne hi]
    rw [foldl_cons, hmove, foldl_cons]
    exact ih _ fun m' hm' => h m' (mem_cons_of_mem _ hm')

end Replay

/-! ## Tables -/

section Tables

variable {Req T U : Type}

theorem get?_moveEntry (entries : Dict ℕ T) (m : Move) : (moveEntry entries m).get? = moveRow entries.get? m := by
  funext i
  unfold moveEntry moveRow
  obtain ⟨a, b, direction⟩ := m
  dsimp only
  rw [get?_erase]
  -- a row that is moved to itself keeps its entry
  split_ifs with hab hi
  · subst hab
    cases hb : entries.get? b <;> simp [get?_set, get?_erase] <;> grind
  all_goals cases ha : entries.get? a <;> cases hb : entries.get? b <;> cases direction <;> simp [get?_set, get?_erase] <;> grind

/-- The entries seen through `φ` are derived from the rows by `h`. -/
def Derived (φ : Option T → Option U) (h : Req → Option U) (entries : Dict ℕ T) (f : ℕ → Option Req) : Prop :=
  ∀ i, φ (entries.get? i) = derive h f i

variable {φ : Option T → Option U} {h : Req → Option U} {newState : Req → Option T} {entries : Dict ℕ T}
  {f : ℕ → Option Req} (hentries : Derived φ h entries f)

include hentries

theorem Derived.add (hnew : ∀ r, φ (newState r) = h r)
    (added : List (ℕ × Req)) : Derived φ h (added.foldl (addEntry newState) entries) (place f added) := by
  induction added generalizing entries f with
  | nil => exact hentries
  | cons a added ih =>
    have hone : Derived φ h (addEntry newState entries a) (update f a.1 (some a.2)) := ?_
    · exact ih hone
    intro i
    have hget : (addEntry newState entries a).get? i = if i = a.1 then newState a.2 else entries.get? i := by
      unfold addEntry
      cases newState a.2
      · exact get?_erase
      · exact get?_set
    rw [hget]
    unfold derive
    rw [update_apply]
    split_ifs
    · exact hnew a.2
    · exact hentries i

variable (hnone : φ none = none)

include hnone

theorem Derived.remove (removed : List ℕ) : Derived φ h (removed.foldl Dict.erase entries) (vacate f removed) := by
  intro i
  rw [derive_vacate]
  show φ ((entries.eraseAll removed).get? i) = _
  rw [get?_eraseAll]
  unfold vacate
  split
  · exact hnone
  · exact hentries i

theorem Derived.move (m : Move) {entries' : Dict ℕ T}
    (hget : entries'.get? = moveRow entries.get? m) : Derived φ h entries' (moveRow f m) := by
  intro i
  rw [derive_moveRow, hget]
  unfold moveRow
  split
  · exact hentries _
  split
  · split
    · exact hentries _
    · exact hnone
  · exact hentries _

theorem Derived.moves (moved : List Move) : Derived φ h (moved.foldl moveEntry entries) (moved.foldl moveRow f) := by
  induction moved generalizing entries f with
  | nil => exact hentries
  | cons m moved ih => exact ih (hentries.move hnone m (get?_moveEntry entries m))

/-- `process_dict_updates` replays the update on what is derived from the rows. -/
theorem Derived.processDictUpdates (hnew : ∀ r, φ (newState r) = h r) (update : BatchUpdate Req) :
    Derived φ h (processDictUpdates newState update entries) (replay f update.added update.removed update.moved) := by
  have hadded := hentries.add hnew update.added
  unfold Batch.processDictUpdates
  dsimp only
  split
  next hempty => -- without entries there is nothing to remove or to move
    have hall (i : ℕ) : derive h (place f update.added) i = none := by
      rw [← hadded i, not_mem_keys_iff.1 (by rw [hempty]; exact not_mem_nil), hnone]
    intro i
    rw [hadded i, hall i, derive_replay_eq_none (funext hall)]
  · exact (hadded.remove hnone update.removed).moves hnone update.moved

end Tables

/-! ## The thinking budget -/

section Thinking

variable {F Id Ref : Type} {cfg : Reasoning} {state : Dict ℕ (ThinkState Ref)}
  {f : ℕ → Option (CachedRequestState F Id Ref)}

/-- A request without a thinking budget moves down only into a row whose last request had none. -/
def Vacated (f : ℕ → Option (CachedRequestState F Id Ref)) : List Move → Prop
  | [] => True
  | m :: moved =>
    (m.direction = .unidirectional → (f m.src).bind (·.samplingParams.thinkingTokenBudget) = none →
      (f m.dst).bind (·.samplingParams.thinkingTokenBudget) = none) ∧ Vacated (moveRow f m) moved

theorem derive_thinkState_eq_none (i : ℕ) :
    derive (thinkState cfg) f i = none ↔ (f i).bind (·.samplingParams.thinkingTokenBudget) = none := by
  unfold derive
  cases f i with
  | none => simp
  | some r => exact Option.map_eq_none_iff

theorem get?_moveThink (state : Dict ℕ (ThinkState Ref)) (m : Move)
    (h : m.direction = .unidirectional → state.get? m.src = none → state.get? m.dst = none) :
    (moveThink state m).get? = moveRow state.get? m := by
  rw [← get?_moveEntry]
  unfold moveThink
  obtain ⟨a, b, direction⟩ := m
  cases direction with
  | swap =>
    unfold moveEntry
    dsimp only
    cases state.get? a <;> cases (state.erase a).get? b <;> simp
  | unidirectional =>
    rw [get?_moveEntry]
    funext i
    unfold moveRow
    cases ha : state.get? a with
    | none =>
      split_ifs with hi hi' hdir
      · rw [hi, h rfl ha]
      · cases hdir
      · rw [hi', ha]
      · rfl
    | some s =>
      rw [get?_set, get?_erase]
      rfl

theorem Derived.moveThinks (hstate : Derived id (thinkState cfg) state f) (moved : List Move)
    (h : Vacated f moved) : Derived id (thinkState cfg) (moved.foldl moveThink state) (moved.foldl moveRow f) := by
  induction moved generalizing state f with
  | nil => exact hstate
  | cons m moved ih =>
    obtain ⟨hm, hrest⟩ := h
    refine ih (hstate.move rfl m (get?_moveThink state m fun hdir hsrc => ?_)) hrest
    have hsrc' : derive (thinkState cfg) f m.src = none := (hstate m.src).symm.trans hsrc
    exact (hstate m.dst).trans (derive_thinkState_eq_none m.dst |>.2
      (hm hdir (derive_thinkState_eq_none m.src |>.1 hsrc')))

/-- `sync_batch` replays the update if the rows it moves requests into are vacated. -/
theorem Derived.syncBatch (hstate : Derived id (thinkState cfg) state f)
    (update : BatchUpdate (CachedRequestState F Id Ref)) (hfresh : ∀ a ∈ update.added, a.1 ∉ update.removed)
    (h : Vacated (vacate (place f update.added) update.removed) update.moved) :
    Derived id (thinkState cfg) (syncBatch cfg update state) (replay f update.added update.removed update.moved) := by
  refine Derived.moveThinks ?_ update.moved h
  rw [← vacate_place hfresh]
  exact (hstate.remove rfl update.removed).add (fun _ => rfl) update.added

end Thinking

/-! ## Min-p -/

section MinP

variable {F Id Ref : Type} [DecidableEq F] [Zero F]

/-- What a request asks for: nothing if its min-p is zero. -/
def minPOf (r : CachedRequestState F Id Ref) : Option F :=
  if r.samplingParams.minP = 0 then none else some r.samplingParams.minP

/-- How many of the first `n` values are not zero. -/
def nonzero (n : ℕ) (values : ℕ → F) : ℕ := (range n).countP fun i => values i ≠ 0

/-- The values are those of the rows below `n`, and they are counted. -/
structure MinP.Ok (n : ℕ) (s : MinP F) (f : ℕ → Option (CachedRequestState F Id Ref)) : Prop where
  values : ∀ i, s.values i = (derive minPOf f i).getD 0
  count : s.count = nonzero n s.values
  zero : ∀ i, n ≤ i → s.values i = 0

variable {n : ℕ} {s : MinP F} {f : ℕ → Option (CachedRequestState F Id Ref)}

theorem nonzero_update (values : ℕ → F) {i : ℕ} (hi : i < n) (x : F) :
    nonzero n (update values i x) + (if values i ≠ 0 then 1 else 0) = nonzero n values + if x ≠ 0 then 1 else 0 := by
  have h := nodup_range.countP_agree_off (mem_range.2 hi) (fun j => decide (values j ≠ 0))
    (fun j => decide (update values i x j ≠ 0)) fun j hj => by rw [update_of_ne hj]
  simp only [update_self, decide_eq_true_eq] at h
  exact h

omit [DecidableEq F] in
theorem zero_update {values : ℕ → F} (h : ∀ i, n ≤ i → values i = 0) {i : ℕ} (hi : i < n) (x : F) (j : ℕ)
    (hj : n ≤ j) : update values i x j = 0 := by
  rw [update_of_ne (by omega)]
  exact h j hj

theorem getD_minPOf (r : CachedRequestState F Id Ref) : (minPOf r).getD 0 = r.samplingParams.minP := by
  unfold minPOf
  split_ifs with h
  · exact h.symm
  · rfl

theorem MinP.Ok.add (h : MinP.Ok n s f) {a : ℕ × CachedRequestState F Id Ref} (ha : a.1 < n) :
    MinP.Ok n (s.add a) (update f a.1 (some a.2)) := by
  have hvalues : (s.add a).values = update s.values a.1 a.2.samplingParams.minP := by
    unfold MinP.add
    dsimp only
    split
    next heq => rw [← heq, update_eq_self]
    · rfl
  have hcount := nonzero_update s.values ha a.2.samplingParams.minP
  refine ⟨fun i => ?_, ?_, fun j hj => ?_⟩
  · rw [hvalues]
    unfold derive
    rw [update_apply, update_apply]
    split_ifs
    · exact (getD_minPOf a.2).symm
    · exact h.values i
  · rw [hvalues]
    have hold := h.count
    unfold MinP.add
    dsimp only
    split
    next heq =>
      rw [← heq] at hcount ⊢
      rw [update_eq_self]
      exact hold
    · split_ifs at hcount ⊢ <;> simp_all
      omega
  · rw [hvalues]
    exact zero_update h.zero ha _ j hj

theorem MinP.Ok.remove (h : MinP.Ok n s f) (index : ℕ) : MinP.Ok n (s.remove index) (vacate f [index]) := by
  have hvalues : (s.remove index).values = update s.values index 0 := by
    unfold MinP.remove
    split_ifs with hzero
    · rfl
    · rw [← not_not.1 hzero, update_eq_self]
  refine ⟨fun i => ?_, ?_, fun j hj => ?_⟩
  · rw [hvalues, derive_vacate]
    unfold vacate
    simp only [update_apply, mem_singleton]
    split_ifs
    · rfl
    · exact h.values i
  · rw [hvalues]
    unfold MinP.remove
    split_ifs with hne
    · have hlt : index < n := by
        by_contra hge
        exact hne (h.zero index (not_lt.1 hge))
      have hcount := nonzero_update s.values hlt 0
      have hold := h.count
      rw [if_pos hne, if_neg (not_not.2 rfl)] at hcount
      show s.count - 1 = _
      omega
    · rw [← not_not.1 hne, update_eq_self]
      exact h.count
  · rw [hvalues, update_apply, h.zero j hj, ite_self]

/-- What a move does to the values. -/
def moveValues (values : ℕ → F) (m : Move) : ℕ → F :=
  update (update values m.dst (values m.src)) m.src (if m.direction = .swap then values m.dst else 0)

variable {m : Move}

theorem MinP.values_move (s : MinP F) (hne : m.src ≠ m.dst) : (s.move m).values = moveValues s.values m := by
  obtain ⟨a, b, direction⟩ := m
  unfold MinP.move moveValues
  cases direction with
  | swap =>
    by_cases hab : s.values a = s.values b
    · simp only [hab, ne_eq, not_true_eq_false, if_false, reduceCtorEq, if_true]
      rw [update_eq_self, ← hab, update_eq_self]
    · simp [hab]
  | unidirectional =>
    by_cases hab : s.values a = s.values b
    · by_cases ha : s.values a = 0
      · rw [hab] at ha
        simp only [hab, ha, ne_eq, not_true_eq_false, if_false, if_true, reduceCtorEq]
        rw [← ha, update_eq_self, ← hab.trans rfl]
        rw [update_eq_self]
      · simp only [hab, ne_eq, not_true_eq_false, if_false, if_true, reduceCtorEq]
        rw [hab] at ha
        simp only [ha, not_false_eq_true, if_true]
        rw [update_eq_self]
    · by_cases ha : s.values a = 0
      · have hb : ¬ (0 : F) = s.values b := by
          rw [← ha]
          exact hab
        simp only [hb, ne_eq, not_false_eq_true, if_true, ha, not_true_eq_false, if_false, reduceCtorEq]
        exact (update_eq_self_iff.2 (by rw [update_of_ne hne, ha])).symm
      · simp [hab, ha]

theorem MinP.Ok.move (h : MinP.Ok n s f) (hne : m.src ≠ m.dst) (hsrc : m.src < n) (hdst : m.dst < n) :
    MinP.Ok n (s.move m) (moveRow f m) := by
  have hvalues := s.values_move hne
  refine ⟨fun i => ?_, ?_, fun j hj => ?_⟩
  · rw [hvalues, derive_moveRow]
    unfold moveValues moveRow
    rw [update_apply, update_apply]
    split_ifs with hsrc' _ hdst' hdst'
    · exact absurd (hsrc'.symm.trans hdst') hne
    · exact h.values m.dst
    · exact absurd (hsrc'.symm.trans hdst') hne
    · rfl
    · exact h.values m.src
    · exact h.values i
  · -- the two rows that change, one after the other
    have hfirst := nonzero_update s.values hdst (s.values m.src)
    have hsecond := nonzero_update (update s.values m.dst (s.values m.src)) hsrc
      (if m.direction = .swap then s.values m.dst else 0)
    rw [update_of_ne hne] at hsecond
    have hold := h.count
    rw [hvalues]
    unfold moveValues
    have hcount : (s.move m).count =
        if m.direction = .unidirectional ∧ s.values m.dst ≠ 0 then s.count - 1 else s.count := by
      unfold MinP.move
      cases m.direction with
      | swap =>
        simp only [reduceCtorEq, if_false, false_and]
        split <;> rfl
      | unidirectional =>
        simp only [if_true, true_and]
        split_ifs <;> rfl
    rw [hcount]
    cases hdir : m.direction with
    | swap =>
      simp only [hdir, if_true, reduceCtorEq, false_and, if_false] at hsecond ⊢
      omega
    | unidirectional =>
      simp only [hdir, reduceCtorEq, if_false, true_and, ne_eq, not_true_eq_false] at hfirst hsecond ⊢
      split_ifs at hfirst hsecond ⊢ <;> omega
  · rw [hvalues]
    exact zero_update (fun i hi => zero_update h.zero hdst _ i hi) hsrc _ j hj

theorem MinP.move_self (s : MinP F) (hself : m.src = m.dst) (hswap : m.direction = .swap) : s.move m = s := by
  unfold MinP.move
  simp only [hself, hswap, ne_eq, not_true_eq_false, if_false, reduceCtorEq]

variable (h : MinP.Ok n s f)

include h

theorem MinP.Ok.adds {added : List (ℕ × CachedRequestState F Id Ref)}
    (hlt : ∀ a ∈ added, a.1 < n) : MinP.Ok n (added.foldl MinP.add s) (place f added) := by
  induction added generalizing s f with
  | nil => exact h
  | cons a added ih =>
    exact ih (h.add (hlt a mem_cons_self)) fun a' ha' => hlt a' (mem_cons_of_mem _ ha')

theorem MinP.Ok.removes (removed : List ℕ) : MinP.Ok n (removed.foldl MinP.remove s) (vacate f removed) := by
  induction removed generalizing s f with
  | nil =>
    have hnil : vacate f [] = f := by
      funext i
      unfold vacate
      rw [if_neg not_mem_nil]
    rw [hnil]
    exact h
  | cons i removed ih =>
    rw [vacate_cons]
    exact ih (h.remove i)

theorem MinP.Ok.moves {moved : List Move} (hbounds : ∀ m ∈ moved, m.src < n ∧ m.dst < n)
    (hdown : ∀ m ∈ moved, m.direction = .unidirectional → m.src ≠ m.dst) :
    MinP.Ok n (moved.foldl MinP.move s) (moved.foldl moveRow f) := by
  induction moved generalizing s f with
  | nil => exact h
  | cons m moved ih =>
    refine ih ?_ (fun m' hm' => hbounds m' (mem_cons_of_mem _ hm')) fun m' hm' => hdown m' (mem_cons_of_mem _ hm')
    obtain ⟨hsrc, hdst⟩ := hbounds m mem_cons_self
    by_cases hself : m.src = m.dst
    · -- only a swap may name one row twice, and it changes nothing
      have hswap : m.direction = .swap := by
        cases hdir : m.direction with
        | swap => rfl
        | unidirectional => exact absurd hself (hdown m mem_cons_self hdir)
      rw [MinP.move_self s hself hswap, moveRow_self f hself]
      exact h
    · exact h.move hself hsrc hdst

/-- `MinPLogitsProcessor.update_state` replays the update. -/
theorem MinP.Ok.updateState (update : BatchUpdate (CachedRequestState F Id Ref))
    (hadded : ∀ a ∈ update.added, a.1 < n) (hbounds : ∀ m ∈ update.moved, m.src < n ∧ m.dst < n)
    (hdown : ∀ m ∈ update.moved, m.direction = .unidirectional → m.src ≠ m.dst) :
    MinP.Ok n (s.updateState (some update)) (replay f update.added update.removed update.moved) := by
  have hadd := h.adds hadded
  unfold MinP.updateState
  dsimp only
  split
  · exact (hadd.removes update.removed).moves hbounds hdown
  -- no row has a value
  rename_i hcount
  have hzero : ∀ i, (update.added.foldl MinP.add s).values i = 0 := by
    intro i
    by_cases hi : i < n
    · have hnone := hadd.count
      rw [not_not.1 hcount] at hnone
      have hcountP : (range n).countP (fun i => decide ((update.added.foldl MinP.add s).values i ≠ 0)) = 0 := by
        unfold nonzero at hnone
        omega
      have := (countP_eq_zero.1 hcountP) i (mem_range.2 hi)
      simpa using this
    · exact hadd.zero i (not_lt.1 hi)
  have hnone : derive minPOf (place f update.added) = fun _ => none := by
    funext i
    have hi := hadd.values i
    rw [hzero i] at hi
    unfold derive at hi ⊢
    cases hr : place f update.added i with
    | none => rfl
    | some r =>
      rw [hr] at hi
      change 0 = (minPOf r).getD 0 at hi
      rw [getD_minPOf] at hi
      exact if_pos hi.symm
  refine ⟨fun i => ?_, hadd.count, hadd.zero⟩
  rw [derive_replay_eq_none hnone, hzero i]
  rfl

end MinP

end VllmRwkv.Batch
