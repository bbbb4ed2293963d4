import VllmRwkv.Batch.Follow

/-!
# Condensing and swapping

While `condense` moves the last requests into the holes that are left, the rows stay those of the replayed
changes (`Condensing`); at its end the requests are in the first rows, and swapping rows keeps them there
(`Settled`).
-/

namespace VllmRwkv.Batch

open List Function Dict InputBatch Option Strided

variable {F Id Ref : Type}

section Rows

variable {b b' : InputBatch F Id Ref} {base : ℕ → Option (CachedRequestState F Id Ref)} {r : CachedRequestState F Id Ref}
  {i : ℕ}

theorem getElem?_set_set {α : Type} {l : List α} {i j : ℕ} (hi : i < l.length) (hj : j < l.length) (x y : α) (k : ℕ) :
    ((l.set i x).set j y)[k]? = if k = j then some y else if k = i then some x else l[k]? := by
  by_cases hk : k = j
  · rw [if_pos hk, hk, getElem?_set_self (by rw [length_set]; exact hj)]
  rw [if_neg hk, getElem?_set_ne (Ne.symm hk)]
  by_cases hk' : k = i
  · rw [if_pos hk', hk', getElem?_set_self hi]
  · rw [if_neg hk', getElem?_set_ne (Ne.symm hk')]

/-- A row with a request of another id does not make an id known. -/
theorem not_in_row {id : Id} {x : Option (Option (CachedRequestState F Id Ref))} (hx : x = some (some r))
    (hne : id ≠ r.reqId) : ¬ ∃ r', x = some (some r') ∧ r'.reqId = id := by
  rintro ⟨r', hr', heq⟩
  rw [hx] at hr'
  cases some.inj hr'
  exact hne heq.symm

/-- While `condense` runs: the rows above `last` are empty, and below it the holes are the removed rows. -/
structure Condensing (base : ℕ → Option (CachedRequestState F Id Ref)) (b : InputBatch F Id Ref) (last : ℕ) : Prop where
  rows : b.rowAt = replay base b.added b.removed b.moved
  live : ∀ i ≤ last, i ∈ b.removed ↔ b.rows[i]? = some none
  beyond : ∀ i, last < i → b.rowAt i = none
  lastLt : last < b.rows.length
  nodup : b.removed.Nodup
  sorted : b.removed.Pairwise (· ≥ ·)
  untouched : ∀ m ∈ b.moved, m.src ∉ b.removed ∧ m.dst ∉ b.removed
  moves : ∀ m ∈ b.moved, m.src < b.maxNumReqs ∧ m.dst < b.maxNumReqs ∧ (m.direction = .unidirectional → m.src ≠ m.dst)
  fresh : ∀ a ∈ b.added, a.1 ∉ b.removed
  bounds : ∀ a ∈ b.added, a.1 < b.maxNumReqs
  count : last + 1 = b.numReqs + b.removed.countP (· ≤ last)
  cap : b.rows.length ≤ b.maxNumReqs
  index : Indexed b

theorem countP_le_succ (l : List ℕ) (n : ℕ) : l.countP (· ≤ n + 1) = l.countP (· ≤ n) + l.count (n + 1) := by
  induction l with
  | nil => rfl
  | cons a l ih =>
    rw [countP_cons, countP_cons, count_cons, ih]
    by_cases ha : a = n + 1
    · subst ha
      simp
      omega
    · have hiff : a ≤ n + 1 ↔ a ≤ n := by omega
      simp [hiff, ha]
      omega

variable {last : ℕ}

/-- The search for the largest row that is not empty. -/
theorem Condensing.search (h : Condensing base b last) (hpos : 0 < b.numReqs) :
    Condensing base b (lastNonEmpty b.removed last) ∧ lastNonEmpty b.removed last ∉ b.removed := by
  induction last with
  | zero =>
    refine ⟨h, fun hmem => ?_⟩
    have hcount := h.count
    have hone : 0 < b.removed.countP (· ≤ 0) := countP_pos_iff.2 ⟨0, hmem, rfl⟩
    omega
  | succ last ih =>
    unfold lastNonEmpty
    split_ifs with hmem
    · have hrow : b.rows[last + 1]? = some none := (h.live (last + 1) le_rfl).1 hmem
      refine ih { h with
        live := fun i hi => h.live i (by omega)
        beyond := fun i hi => ?_
        lastLt := (lt_add_one last).trans h.lastLt
        count := ?_ }
      · by_cases heq : i = last + 1
        · unfold rowAt
          rw [heq, hrow]
          rfl
        · exact h.beyond i (by omega)
      · have hcount := h.count
        rw [countP_le_succ, count_eq_one_of_mem h.nodup hmem] at hcount
        omega
    · exact ⟨h, hmem⟩

theorem Condensing.noHoles (h : Condensing base b last) (hnil : b.removed = []) :
    last + 1 = b.numReqs ∧ ∀ i ∈ b.removed, last < i := by
  have hcount := h.count
  rw [hnil] at hcount ⊢
  exact ⟨hcount, nofun⟩

/-- After `condense`, and while rows are swapped: the requests are in the first rows. -/
structure Settled (base : ℕ → Option (CachedRequestState F Id Ref)) (b : InputBatch F Id Ref) : Prop where
  rows : b.rowAt = replay base b.added b.removed b.moved
  full : ∀ i < b.rows.length, ∃ r, b.rows[i]? = some (some r)
  size : b.rows.length = b.numReqs
  moves : ∀ m ∈ b.moved, m.src < b.maxNumReqs ∧ m.dst < b.maxNumReqs ∧ (m.direction = .unidirectional → m.src ≠ m.dst)
  fresh : ∀ a ∈ b.added, a.1 ∉ b.removed
  bounds : ∀ a ∈ b.added, a.1 < b.maxNumReqs
  cap : b.rows.length ≤ b.maxNumReqs
  index : Indexed b

/-- Before the first round the removed rows, largest first, are all the holes. -/
theorem Tracks.condensing (h : Tracks base b) {removed : List ℕ} (hperm : b.removed.Perm removed)
    (hpair : removed.Pairwise (· ≥ ·)) (hne : removed ≠ []) (hrows : b.rowAt = replay base b.added removed b.moved) :
    Condensing base { b with removed := removed, isRemovedSorted := true } (b.numReqs + removed.length - 1) := by
  have hmem (i : ℕ) : i ∈ removed ↔ i ∈ b.removed := hperm.mem_iff.symm
  have hlen := hperm.length_eq
  have hsize := h.size
  have hpos : 0 < removed.length := length_pos_of_ne_nil hne
  refine ⟨hrows, fun i _ => (hmem i).trans (h.holes i), fun i hi => ?_, ?_, hperm.nodup_iff.1 h.nodup, hpair,
    ?_, ?_, fun a ha hcon => h.fresh a ha ((hmem a.1).1 hcon), h.bounds, ?_, h.cap, h.index⟩
  · show (b.rows[i]?).join = none
    rw [getElem?_eq_none (by omega)]
    rfl
  · show b.numReqs + removed.length - 1 < b.rows.length
    omega
  · rw [h.moved]
    exact nofun
  · rw [h.moved]
    exact nofun
  · have hall : removed.countP (· ≤ b.numReqs + removed.length - 1) = removed.length := by
      refine countP_eq_length.2 fun i hi => ?_
      obtain ⟨hi', _⟩ := List.getElem?_eq_some_iff.1 ((h.holes i).1 ((hmem i).1 hi))
      simp
      omega
    show b.numReqs + removed.length - 1 + 1 = b.numReqs + removed.countP _
    rw [hall]
    omega

/-- After the last round no hole is left among the first rows, one for each request, and the table is cut there. -/
theorem Condensing.settled (h : Condensing base b last) (hlast : last + 1 = b.numReqs)
    (hbehind : ∀ i ∈ b.removed, last < i) : Settled base { b with rows := b.rows.take b.numReqs } := by
  have hlastLt := h.lastLt
  have hlive (i : ℕ) (hi : i < b.numReqs) : ∃ r, b.rows[i]? = some (some r) := by
    obtain ⟨x, hx⟩ : ∃ x, b.rows[i]? = some x := ⟨_, getElem?_eq_getElem (by omega)⟩
    cases x with
    | none =>
      have := hbehind i ((h.live i (by omega)).2 hx)
      omega
    | some r => exact ⟨r, hx⟩
  have hget (i : ℕ) : (b.rows.take b.numReqs)[i]? = if i < b.numReqs then b.rows[i]? else none := by
    rw [getElem?_take]
  refine ⟨?_, fun i hi => ?_, ?_, h.moves, h.fresh, h.bounds, ?_, fun id i => ?_⟩
  · show (fun i => ((b.rows.take b.numReqs)[i]?).join) = replay base b.added b.removed b.moved
    rw [← h.rows]
    funext i
    rw [hget]
    split
    · rfl
    · exact (h.beyond i (by omega)).symm
  · rw [length_take] at hi
    obtain ⟨r, hr⟩ := hlive i (by omega)
    exact ⟨r, by rw [hget, if_pos (by omega)]; exact hr⟩
  · show (b.rows.take b.numReqs).length = b.numReqs
    rw [length_take]
    omega
  · show (b.rows.take b.numReqs).length ≤ b.maxNumReqs
    have hcap := h.cap
    rw [length_take]
    omega
  rw [h.index id i, hget]
  by_cases hi : i < b.numReqs
  · rw [if_pos hi]
  rw [if_neg hi]
  refine iff_of_false ?_ nofun
  rintro ⟨r, hr, _⟩
  have hnone := h.beyond i (by omega)
  rw [rowAt_eq_some.2 hr] at hnone
  cases hnone

variable [DecidableEq Id]

/-- The request of row `last` goes into the hole `empty`. -/
theorem Indexed.moveDown (h : Indexed b) {empty : ℕ} (hrow : b.rows[last]? = some (some r))
    (hhole : b.rows[empty]? = some none) (id : Id) (i : ℕ) : (b.reqIdToIndex.set r.reqId empty).get? id = some i ↔
      ∃ r', ((b.rows.set empty (some r)).set last none)[i]? = some (some r') ∧ r'.reqId = id := by
  have hne : empty ≠ last := by
    rintro rfl
    cases hrow.symm.trans hhole
  rw [getElem?_set_set (List.getElem?_eq_some_iff.1 hhole).1 (lt_of_rows hrow)]
  by_cases hid' : id = r.reqId
  · subst hid'
    rw [get?_set_self]
    constructor
    · intro hi
      cases hi
      exact ⟨r, by rw [if_neg hne, if_pos rfl], rfl⟩
    rintro ⟨r', hr', heq⟩
    split at hr'
    · cases hr'
    rename_i hi
    split at hr'
    next hi' => rw [hi']
    · exact absurd (h.inj hr' hrow heq) hi
  · rw [get?_set_of_ne hid', h id i]
    split
    next hi =>
      rw [hi]
      exact iff_of_false (not_in_row hrow hid') nofun
    split
    next hi =>
      rw [hi, hhole]
      exact iff_of_false nofun (not_in_row rfl hid')
    · rfl

theorem Indexed.swap (h : Indexed b) {i₁ i₂ : ℕ} {r₁ r₂ : CachedRequestState F Id Ref}
    (hrow₁ : b.rows[i₁]? = some (some r₁)) (hrow₂ : b.rows[i₂]? = some (some r₂)) (id : Id) (i : ℕ) :
    ((b.reqIdToIndex.set r₁.reqId i₂).set r₂.reqId i₁).get? id = some i ↔
      ∃ r, ((b.rows.set i₁ (some r₂)).set i₂ (some r₁))[i]? = some (some r) ∧ r.reqId = id := by
  rw [getElem?_set_set (lt_of_rows hrow₁) (lt_of_rows hrow₂)]
  by_cases hid : id = r₂.reqId
  · subst hid
    rw [get?_set_self]
    constructor
    · intro hi
      cases hi
      split
      next heq =>
        have h₁₂ : r₁ = r₂ := some.inj (some.inj (hrow₁.symm.trans (heq ▸ hrow₂)))
        exact ⟨r₁, rfl, by rw [h₁₂]⟩
      · exact ⟨r₂, if_pos rfl, rfl⟩
    rintro ⟨r, hr, heq⟩
    split at hr
    next hi =>
      cases some.inj hr
      rw [hi, h.inj hrow₁ hrow₂ heq]
    split at hr
    next hi => rw [hi]
    next hne _ => exact absurd (h.inj hr hrow₂ heq) hne
  · rw [get?_set_of_ne hid]
    by_cases hid' : id = r₁.reqId
    · subst hid'
      rw [get?_set_self]
      constructor
      · intro hi
        cases hi
        exact ⟨r₁, if_pos rfl, rfl⟩
      rintro ⟨r, hr, heq⟩
      split at hr
      next hi => rw [hi]
      split at hr
      · exact absurd ⟨r, hr, heq⟩ (not_in_row rfl hid)
      next hne => exact absurd (h.inj hr hrow₁ heq) hne
    · rw [get?_set_of_ne hid', h id i]
      split
      next hi =>
        rw [hi]
        exact iff_of_false (not_in_row hrow₂ hid) (not_in_row rfl hid')
      split
      next hi =>
        rw [hi]
        exact iff_of_false (not_in_row hrow₁ hid') (not_in_row rfl hid)
      · rfl

theorem Condensing.moveDown {empty : ℕ} {rest : List ℕ} (h : Condensing base b last)
    (hremoved : b.removed = rest ++ [empty]) (hlast : last ∉ b.removed) (hlt : empty < last)
    (hrow : b.rows[last]? = some (some r)) : Condensing base { b with
      removed := rest
      rows := (b.rows.set empty (some r)).set last none
      reqIdToIndex := b.reqIdToIndex.set r.reqId empty
      moved := b.moved ++ [⟨last, empty, .unidirectional⟩] } (last - 1) := by
  have hnodup := h.nodup
  rw [hremoved] at hnodup
  obtain ⟨hrest, _, hdisj⟩ := nodup_append.1 hnodup
  have hempty : empty ∉ rest := fun hmem => hdisj empty hmem empty (mem_singleton.2 rfl) rfl
  have hmem (i : ℕ) : i ∈ b.removed ↔ i = empty ∨ i ∈ rest := by
    rw [hremoved, mem_append, mem_singleton]
    exact or_comm
  have hlastRest : last ∉ rest := fun hcon => hlast ((hmem last).2 (.inr hcon))
  have hlastLt := h.lastLt
  have hemptyLt : empty < b.rows.length := by omega
  have hid : b.reqIdToIndex.get? r.reqId = some last := (h.index r.reqId last).2 ⟨r, hrow, rfl⟩
  have hget := getElem?_set_set hemptyLt hlastLt (some r) none
  have hrowAt : (fun i => (((b.rows.set empty (some r)).set last none)[i]?).join) =
      fun i => if i = last then none else if i = empty then some r else b.rowAt i := by
    funext i
    rw [hget]
    split
    · rfl
    · split <;> rfl
  refine ⟨?_, fun i hi => ?_, fun i hi => ?_, ?_, hrest, ?_, fun m hm => ?_, fun m hm => ?_,
    fun a ha hcon => h.fresh a ha ((hmem a.1).2 (.inr hcon)), h.bounds, ?_, ?_, fun id i => ?_⟩
  · -- the hole still has its last request in the replay, until this move overwrites it
    show (fun i => (((b.rows.set empty (some r)).set last none)[i]?).join) = replay base b.added rest _
    have hstale : vacate (place base b.added) rest =
        update (vacate (place base b.added) b.removed) empty (place base b.added empty) := by
      funext i
      unfold vacate
      rw [update_apply]
      split_ifs <;> simp_all
    have hbefore : b.moved.foldl moveRow (vacate (place base b.added) b.removed) = b.rowAt := h.rows.symm
    unfold replay
    rw [foldl_append, hstale, moves_update _ _ _ fun m hm => ?_, hbefore, hrowAt]
    · funext i
      show _ = moveRow (update b.rowAt empty _) ⟨last, empty, .unidirectional⟩ i
      unfold moveRow
      have hlastRow : b.rowAt last = some r := rowAt_eq_some.2 hrow
      by_cases hi : i = empty
      · rw [if_neg (by omega), if_pos hi]
        show some r = if i = empty then update b.rowAt empty _ last else _
        rw [if_pos hi, update_of_ne (by omega), hlastRow]
      rw [if_neg hi, if_neg hi, update_of_ne hi]
      by_cases hi' : i = last
      · rw [if_pos hi', if_pos hi']
        rfl
      · rw [if_neg hi', if_neg hi']
    · obtain ⟨hsrc, hdst⟩ := h.untouched m hm
      have hin : empty ∈ b.removed := (hmem empty).2 (.inl rfl)
      exact ⟨fun heq => hsrc (heq ▸ hin), fun heq => hdst (heq ▸ hin)⟩
  · rw [hget, if_neg (by omega)]
    by_cases hi' : i = empty
    · rw [if_pos hi', hi']
      simp [hempty]
    · rw [if_neg hi', ← h.live i (by omega), hmem]
      simp [hi']
  · show (fun i => (((b.rows.set empty (some r)).set last none)[i]?).join) i = none
    rw [hrowAt]
    dsimp only
    by_cases hi' : i = last
    · rw [if_pos hi']
    · rw [if_neg hi', if_neg (by omega)]
      exact h.beyond i (by omega)
  · rw [length_set, length_set]
    omega
  · have hsorted := h.sorted
    rw [hremoved] at hsorted
    exact (pairwise_append.1 hsorted).1
  · rcases mem_append.1 hm with hm | hm
    · obtain ⟨hsrc, hdst⟩ := h.untouched m hm
      exact ⟨fun hcon => hsrc ((hmem m.src).2 (.inr hcon)), fun hcon => hdst ((hmem m.dst).2 (.inr hcon))⟩
    · rw [mem_singleton.1 hm]
      exact ⟨hlastRest, hempty⟩
  · rcases mem_append.1 hm with hm | hm
    · exact h.moves m hm
    · have hcap := h.cap
      rw [mem_singleton.1 hm]
      show last < b.maxNumReqs ∧ empty < b.maxNumReqs ∧ (_ → last ≠ empty)
      exact ⟨by omega, by omega, fun _ => by omega⟩
  · have hcount := h.count
    rw [hremoved, countP_append] at hcount
    have hone : [empty].countP (· ≤ last) = 1 := by
      simp [hlt.le]
    have hsame : rest.countP (· ≤ last) = rest.countP (· ≤ last - 1) := by
      have hsucc := countP_le_succ rest (last - 1)
      rwa [Nat.sub_add_cancel (by omega), count_eq_zero.2 hlastRest] at hsucc
    show last - 1 + 1 = (b.reqIdToIndex.set r.reqId empty).keys.length + rest.countP (· ≤ last - 1)
    rw [keys_set_of_mem (mem_keys_of_get? hid)]
    unfold numReqs at hcount
    omega
  · rw [length_set, length_set]
    exact h.cap
  · exact h.index.moveDown hrow ((h.live empty (by omega)).1 ((hmem empty).2 (.inl rfl))) id i

/-- The loop ends with the requests in the first rows. -/
theorem Condensing.loop {fuel : ℕ} (h : Condensing base b last) (hpos : 0 < b.numReqs)
    (hfuel : b.removed.length ≤ fuel) (hstep : condenseLoop fuel last b = .ok b') :
    ∃ last', Condensing base b' last' ∧ last' + 1 = b'.numReqs ∧ (∀ i ∈ b'.removed, last' < i) ∧
      b'.numReqs = b.numReqs ∧ b'.holders = b.holders := by
  induction fuel generalizing b last with
  | zero =>
    cases hstep
    obtain ⟨hcount, hbehind⟩ := h.noHoles (length_eq_zero_iff.1 (by omega))
    exact ⟨last, h, hcount, hbehind, rfl, rfl⟩
  | succ fuel ih =>
    unfold condenseLoop at hstep
    split at hstep
    · rename_i hlast?
      cases hstep
      obtain ⟨hcount, hbehind⟩ := h.noHoles (getLast?_eq_none_iff.1 hlast?)
      exact ⟨last, h, hcount, hbehind, rfl, rfl⟩
    rename_i empty hempty
    obtain ⟨rest, hremoved⟩ : ∃ rest, b.removed = rest ++ [empty] := by
      obtain ⟨rest, hrest⟩ := getLast?_eq_some_iff.1 hempty
      exact ⟨rest, hrest⟩
    obtain ⟨hsearch, hnot⟩ := h.search hpos
    dsimp only at hstep
    split_ifs at hstep with hlt
    next hle => -- all holes are behind the last request
      obtain rfl := Except.ok.inj hstep
      have hbehind : ∀ i ∈ b.removed, lastNonEmpty b.removed last < i := by
        intro i hi
        have hge : empty ≤ i := by
          have hsorted := h.sorted
          rw [hremoved] at hsorted hi
          rcases mem_append.1 hi with hi | hi
          · exact (pairwise_append.1 hsorted).2.2 i hi empty (mem_singleton.2 rfl)
          · exact (mem_singleton.1 hi).ge
        have hne : i ≠ lastNonEmpty b.removed last := fun heq => hnot (heq ▸ hi)
        omega
      have hcount := hsearch.count
      have hzero : b.removed.countP (· ≤ lastNonEmpty b.removed last) = 0 := by
        refine countP_eq_zero.2 fun i hi => ?_
        have := hbehind i hi
        simp
        omega
      exact ⟨_, hsearch, by omega, hbehind, rfl, rfl⟩
    · split at hstep
      next r hrow =>
        have hdown := hsearch.moveDown hremoved hnot (not_le.1 hlt) hrow
        rw [hremoved, dropLast_concat] at hstep
        rw [hremoved] at hdown
        have hid : b.reqIdToIndex.get? r.reqId = some (lastNonEmpty b.removed last) :=
          (h.index r.reqId _).2 ⟨r, hrow, rfl⟩
        have hkeys : (b.reqIdToIndex.set r.reqId empty).keys = b.reqIdToIndex.keys :=
          keys_set_of_mem (mem_keys_of_get? hid)
        have hnum₁ : (b.reqIdToIndex.set r.reqId empty).keys.length = b.numReqs := by
          rw [hkeys]
          rfl
        obtain ⟨last', hcond, hlast', hbehind, hnum, hsame⟩ := ih hdown (by
          show 0 < (b.reqIdToIndex.set r.reqId empty).keys.length
          rw [hnum₁]
          exact hpos) (by
          show rest.length ≤ fuel
          rw [hremoved, length_append, length_singleton] at hfuel
          omega) hstep
        exact ⟨last', hcond, hlast', hbehind, hnum.trans hnum₁, hsame⟩
      · cases hstep

theorem Tracks.condense (h : Tracks base b) (hstep : b.condense = .ok b') :
    Settled base b' ∧ b'.holders = b.holders := by
  obtain ⟨removed, heq, hperm, hpair⟩ := ensureRemovedSorted_spec h
  have hmem (i : ℕ) : i ∈ removed ↔ i ∈ b.removed := hperm.mem_iff.symm
  have hvacate (f : ℕ → Option (CachedRequestState F Id Ref)) : vacate f removed = vacate f b.removed := by
    funext i
    unfold vacate
    simp only [hmem]
  have hrows : b.rowAt = replay base b.added removed b.moved := by
    unfold replay
    rw [h.moved, hvacate]
    exact h.rows
  have hmoves : ∀ m ∈ b.moved, m.src < b.maxNumReqs ∧ m.dst < b.maxNumReqs ∧
      (m.direction = .unidirectional → m.src ≠ m.dst) := by
    rw [h.moved]
    exact nofun
  have hfresh : ∀ a ∈ b.added, a.1 ∉ removed := fun a ha hcon => h.fresh a ha ((hmem a.1).1 hcon)
  have hlen := hperm.length_eq
  have hsize := h.size
  unfold InputBatch.condense at hstep
  rw [heq] at hstep
  dsimp only at hstep
  split at hstep
  next hnil => -- no holes
    cases hstep
    refine ⟨⟨hrows, fun i hi => ?_, ?_, hmoves, hfresh, h.bounds, h.cap, h.index⟩, rfl⟩
    · obtain ⟨x, hx⟩ : ∃ x, b.rows[i]? = some x := ⟨_, getElem?_eq_getElem hi⟩
      cases x with
      | none =>
        have := (hmem i).2 ((h.holes i).2 hx)
        rw [hnil] at this
        cases this
      | some r => exact ⟨r, hx⟩
    · rw [hnil] at hlen
      rw [hsize, hlen]
      rfl
  next hne =>
    split at hstep
    next hzero => -- no requests
      cases hstep
      have hnone : b.rowAt = fun _ => none := by
        funext i
        cases hrow : b.rowAt i with
        | none => rfl
        | some r =>
          have hmem' := mem_keys_of_get? ((h.index r.reqId i).2 ⟨r, rowAt_eq_some.1 hrow, rfl⟩)
          have hpos := length_pos_of_mem hmem'
          unfold numReqs at hzero
          omega
      refine ⟨⟨?_, fun i hi => absurd hi (Nat.not_lt_zero i), hzero.symm, hmoves, hfresh, h.bounds, Nat.zero_le _,
        fun id i => ?_⟩, rfl⟩
      · rw [← hrows, hnone]
        rfl
      · have hempty : b.reqIdToIndex.get? id = none := by
          refine not_mem_keys_iff.1 fun hcon => ?_
          have hpos := length_pos_of_mem hcon
          unfold numReqs at hzero
          omega
        rw [hempty]
        simp
    next hpos =>
      have hstart := h.condensing hperm hpair hne hrows
      obtain ⟨b₁, hloop, hstep⟩ := bind_ok hstep
      cases hstep
      obtain ⟨last, hcond, hlast, hbehind, hnum, hsame⟩ := hstart.loop (pos_of_ne_zero hpos) (le_refl _) hloop
      have hnum' : b₁.numReqs = b.numReqs := hnum
      exact ⟨hnum' ▸ hcond.settled hlast hbehind, hsame⟩

/-! ## Swapping -/

theorem Settled.swapStates (h : Settled base b) (p : ℕ × ℕ) (hstep : b.swapStates p = .ok b') :
    Settled base b' ∧ b'.holders = b.holders := by
  unfold InputBatch.swapStates at hstep
  split at hstep
  next r1 r2 hrow1 hrow2 =>
    cases hstep
    have hlt1 := lt_of_rows hrow1
    have hlt2 := lt_of_rows hrow2
    have hcap := h.cap
    have hget := getElem?_set_set hlt1 hlt2 (some r2) (some r1)
    have hid1 : b.reqIdToIndex.get? r1.reqId = some p.1 := (h.index r1.reqId p.1).2 ⟨r1, hrow1, rfl⟩
    have hid2 : b.reqIdToIndex.get? r2.reqId = some p.2 := (h.index r2.reqId p.2).2 ⟨r2, hrow2, rfl⟩
    have hkeys : ((b.reqIdToIndex.set r1.reqId p.2).set r2.reqId p.1).keys = b.reqIdToIndex.keys := by
      rw [keys_set_of_mem (mem_keys_set.2 (.inr (mem_keys_of_get? hid2))), keys_set_of_mem (mem_keys_of_get? hid1)]
    refine ⟨⟨?_, fun i hi => ?_, ?_, fun m hm => ?_, h.fresh, h.bounds, ?_, fun id i => ?_⟩, rfl⟩
    · show (fun i => (((b.rows.set p.1 (some r2)).set p.2 (some r1))[i]?).join) = replay base b.added b.removed _
      unfold replay
      rw [foldl_append]
      have hbefore : b.moved.foldl moveRow (vacate (place base b.added) b.removed) = b.rowAt := h.rows.symm
      rw [hbefore]
      funext i
      show _ = moveRow b.rowAt ⟨p.1, p.2, .swap⟩ i
      rw [hget]
      unfold moveRow
      rw [rowAt_eq_some.2 hrow1, rowAt_eq_some.2 hrow2]
      split
      · rfl
      · split <;> rfl
    · rw [length_set, length_set] at hi
      obtain ⟨r, hr⟩ := h.full i hi
      rw [hget]
      split
      · exact ⟨r1, rfl⟩
      · split
        · exact ⟨r2, rfl⟩
        · exact ⟨r, hr⟩
    · show ((b.rows.set p.1 (some r2)).set p.2 (some r1)).length =
        ((b.reqIdToIndex.set r1.reqId p.2).set r2.reqId p.1).keys.length
      rw [length_set, length_set, hkeys]
      exact h.size
    · rcases mem_append.1 hm with hm | hm
      · exact h.moves m hm
      · rw [mem_singleton.1 hm]
        exact ⟨hlt1.trans_le hcap, hlt2.trans_le hcap, nofun⟩
    · rw [length_set, length_set]
      exact h.cap
    · exact h.index.swap hrow1 hrow2 id i
  · cases hstep

theorem Settled.swaps (pairs : List (ℕ × ℕ)) (h : Settled base b)
    (hstep : pairs.foldlM InputBatch.swapStates b = .ok b') : Settled base b' ∧ b'.holders = b.holders := by
  induction pairs generalizing b with
  | nil =>
    cases hstep
    exact ⟨h, rfl⟩
  | cons p pairs ih =>
    rw [foldlM_cons] at hstep
    obtain ⟨b₁, hone, hstep⟩ := bind_ok hstep
    obtain ⟨h₁, hsame⟩ := h.swapStates p hone
    obtain ⟨h₂, hsame₂⟩ := ih h₁ hstep
    exact ⟨h₂, hsame₂.trans hsame⟩

end Rows

end VllmRwkv.Batch
