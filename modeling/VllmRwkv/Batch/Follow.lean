import VllmRwkv.Batch.Replay
import VllmRwkv.Lib.Strided

/-!
# Removing and adding requests

Through a step the rows of the batch are those of the last refresh with the changes of the builder replayed.
While requests are removed and added, the removed rows are the holes (`Tracks`), and the holders do not change.
-/

namespace VllmRwkv.Batch

open List Function Dict Option InputBatch Strided

variable {F Id Ref : Type}

section

variable (b : InputBatch F Id Ref)

/-- The request in a row. -/
def InputBatch.rowAt (i : ℕ) : Option (CachedRequestState F Id Ref) := (b.rows[i]?).join

/-- The request ids lead to their rows. -/
def Indexed : Prop :=
  ∀ id i, b.reqIdToIndex.get? id = some i ↔ ∃ r, b.rows[i]? = some (some r) ∧ r.reqId = id

/-- What only a refresh changes. -/
def InputBatch.holders :
    ℕ × Reasoning × MinP F × Dict ℕ (List (ℕ × F)) × Dict ℕ (MinToks Ref) × Dict ℕ (ThinkState Ref) :=
  (b.maxNumReqs, b.reasoning, b.minP, b.biases, b.minToks, b.thinking)

end

/-- While requests are removed and added; `base` are the rows at the last refresh. -/
structure Tracks (base : ℕ → Option (CachedRequestState F Id Ref)) (b : InputBatch F Id Ref) : Prop where
  moved : b.moved = []
  rows : b.rowAt = vacate (place base b.added) b.removed
  holes : ∀ i, i ∈ b.removed ↔ b.rows[i]? = some none
  nodup : b.removed.Nodup
  fresh : ∀ a ∈ b.added, a.1 ∉ b.removed
  bounds : ∀ a ∈ b.added, a.1 < b.maxNumReqs
  size : b.rows.length = b.numReqs + b.removed.length
  cap : b.rows.length ≤ b.maxNumReqs
  index : Indexed b
  sorted : b.isRemovedSorted → b.removed.Pairwise (· ≥ ·)

section Rows

variable {b b' : InputBatch F Id Ref} {base : ℕ → Option (CachedRequestState F Id Ref)} {r : CachedRequestState F Id Ref}
  {i : ℕ} {rows : List (Option (CachedRequestState F Id Ref))}

theorem rowAt_eq_some : b.rowAt i = some r ↔ b.rows[i]? = some (some r) := by
  unfold rowAt
  cases b.rows[i]? with
  | none | some x => simp

theorem rowAt_set (hi : i < rows.length) (x : Option (CachedRequestState F Id Ref)) :
    (fun j => ((rows.set i x)[j]?).join) = update (fun j => (rows[j]?).join) i x := by
  funext j
  by_cases hj : j = i
  · subst hj
    rw [getElem?_set_self hi, update_self]
    rfl
  · rw [getElem?_set_ne (Ne.symm hj), update_of_ne hj]

theorem lt_of_rows (h : b.rows[i]? = some (some r)) : i < b.rows.length := (List.getElem?_eq_some_iff.1 h).1

theorem Indexed.inj (h : Indexed b) {j : ℕ} {r' : CachedRequestState F Id Ref} (hi : b.rows[i]? = some (some r))
    (hj : b.rows[j]? = some (some r')) (hid : r.reqId = r'.reqId) : i = j := by
  have hgi := (h r.reqId i).2 ⟨r, hi, rfl⟩
  have hgj := (h r.reqId j).2 ⟨r', hj, hid.symm⟩
  exact some.inj (hgi.symm.trans hgj)

theorem ensureRemovedSorted_spec (h : Tracks base b) :
    ∃ removed, b.ensureRemovedSorted = { b with removed := removed, isRemovedSorted := true } ∧
      b.removed.Perm removed ∧ removed.Pairwise (· ≥ ·) := by
  unfold ensureRemovedSorted
  split_ifs with hsorted
  · refine ⟨b.removed, ?_, Perm.refl _, h.sorted hsorted⟩
    rw [← hsorted]
  refine ⟨b.removed.mergeSort (fun i j => j ≤ i), rfl, (mergeSort_perm _ _).symm, ?_⟩
  have hpair : (b.removed.mergeSort (fun i j => decide (j ≤ i))).Pairwise fun i j => decide (j ≤ i) := by
    refine pairwise_mergeSort (fun a c d hac hcd => ?_) (fun a c => ?_) b.removed
    · exact decide_eq_true ((of_decide_eq_true hcd).trans (of_decide_eq_true hac))
    · rcases le_total a c with hac | hca
      · simp [hac]
      · simp [hca]
  exact hpair.imp fun hac => of_decide_eq_true hac

variable [DecidableEq Id]

/-! ## Removing -/

theorem Tracks.removeRequest (h : Tracks base b) (hadded : b.added = []) (id : Id)
    (hstep : b.removeRequest id = .ok b') : Tracks base b' ∧ b'.added = [] ∧ b'.holders = b.holders ∧
      ∀ id', id' ∈ b'.reqIdToIndex.keys ↔ id' ∈ b.reqIdToIndex.keys ∧ id' ≠ id := by
  unfold InputBatch.removeRequest at hstep
  split at hstep
  next hnone =>
    cases hstep
    refine ⟨h, hadded, rfl, fun id' => ⟨fun hid' => ⟨hid', ?_⟩, fun hid' => hid'.1⟩⟩
    rintro rfl
    exact not_mem_keys_iff.2 hnone hid'
  rename_i index hindex
  split at hstep
  · cases hstep
  rename_i hsorted
  cases hstep
  obtain ⟨r, hrow, hid⟩ := (h.index id index).1 hindex
  have hlt := lt_of_rows hrow
  have hnot : index ∉ b.removed := by
    intro hmem
    rw [(h.holes index).1 hmem] at hrow
    cases hrow
  refine ⟨⟨h.moved, ?_, fun j => ?_, ?_, ?_, ?_, ?_, ?_, fun id' j => ?_, fun hs => absurd hs hsorted⟩, hadded, rfl,
    fun id' => ?_⟩
  · show (fun j => ((b.rows.set index none)[j]?).join) = _
    have hrows : (fun j => (b.rows[j]?).join) = vacate (place base b.added) b.removed := h.rows
    rw [rowAt_set hlt, hrows]
    funext j
    unfold vacate
    by_cases hj : j = index
    · subst hj
      simp
    · rw [update_of_ne hj]
      simp [hj]
  · by_cases hj : j = index
    · subst hj
      rw [getElem?_set_self hlt]
      simp
    · rw [getElem?_set_ne (Ne.symm hj), ← h.holes j]
      simp [hj]
  · refine nodup_append.2 ⟨h.nodup, nodup_singleton _, ?_⟩
    rintro a ha c hc rfl
    exact hnot (mem_singleton.1 hc ▸ ha)
  · intro a ha
    rw [hadded] at ha
    cases ha
  · exact h.bounds
  · show (b.rows.set index none).length = (b.reqIdToIndex.erase id).keys.length + (b.removed ++ [index]).length
    have hsize := h.size
    unfold numReqs at hsize
    have hmem := mem_keys_of_get? hindex
    have herase : (b.reqIdToIndex.erase id).keys.length = b.reqIdToIndex.keys.length - 1 :=
      length_erase_of_mem hmem
    have hpos := length_pos_of_mem hmem
    rw [length_set, herase, length_append, length_singleton]
    omega
  · rw [length_set]
    exact h.cap
  · by_cases hid' : id' = id
    · subst hid'
      rw [get?_erase_self]
      refine ⟨nofun, ?_⟩
      rintro ⟨r', hr', heq⟩
      by_cases hj : j = index
      · subst hj
        rw [getElem?_set_self hlt] at hr'
        cases hr'
      · rw [getElem?_set_ne (Ne.symm hj)] at hr'
        exact absurd (h.index.inj hr' hrow (heq.trans hid.symm)) hj
    · rw [get?_erase_of_ne hid', h.index id' j]
      by_cases hj : j = index
      · subst hj
        rw [getElem?_set_self hlt, hrow]
        constructor
        · rintro ⟨r', hr', heq⟩
          cases some.inj hr'
          exact absurd (heq.symm.trans hid) hid'
        · rintro ⟨r', hr', _⟩
          cases hr'
      · rw [getElem?_set_ne (Ne.symm hj)]
  · rw [mem_keys_erase]
    exact and_comm

theorem Tracks.removes (ids : List Id) (h : Tracks base b) (hadded : b.added = [])
    (hstep : ids.foldlM InputBatch.removeRequest b = .ok b') : Tracks base b' ∧ b'.holders = b.holders ∧
      ∀ id, id ∈ b'.reqIdToIndex.keys ↔ id ∈ b.reqIdToIndex.keys ∧ id ∉ ids := by
  induction ids generalizing b with
  | nil =>
    cases hstep
    exact ⟨h, rfl, fun id => by simp⟩
  | cons id ids ih =>
    rw [foldlM_cons] at hstep
    obtain ⟨b₁, hone, hstep⟩ := bind_ok hstep
    obtain ⟨h₁, hadded₁, hsame, hkeys⟩ := h.removeRequest hadded id hone
    obtain ⟨h₂, hsame₂, hkeys₂⟩ := ih h₁ hadded₁ hstep
    refine ⟨h₂, hsame₂.trans hsame, fun id' => ?_⟩
    rw [hkeys₂, hkeys, mem_cons, not_or, and_assoc]

/-! ## Adding -/

section

variable (h : Tracks base b) (hid : r.reqId ∉ b.reqIdToIndex.keys)

include h hid

/-- A request with a new id is written into a row that nobody holds; `rest` are the rows that stay removed. -/
theorem Tracks.put {index : ℕ} {rest : List ℕ} {sorted : Bool}
    (hget : ∀ j, rows[j]? = if j = index then some (some r) else b.rows[j]?)
    (hfree : ∀ r', b.rows[index]? ≠ some (some r')) (hnot : index ∉ rest)
    (hrest : ∀ j, j ≠ index → (j ∈ rest ↔ j ∈ b.removed)) (hnodup : rest.Nodup) (hlt : index < b.maxNumReqs)
    (hsize : rows.length = b.numReqs + 1 + rest.length) (hcap : rows.length ≤ b.maxNumReqs)
    (hsorted : sorted → rest.Pairwise (· ≥ ·)) : Tracks base { b with
      added := b.added ++ [(index, r)], removed := rest, isRemovedSorted := sorted, rows := rows
      reqIdToIndex := b.reqIdToIndex.set r.reqId index } := by
  refine ⟨h.moved, ?_, fun j => ?_, hnodup, fun a ha => ?_, fun a ha => ?_, ?_, hcap, fun id j => ?_, hsorted⟩
  · show (fun j => (rows[j]?).join) = vacate (place base (b.added ++ [(index, r)])) rest
    rw [place_append]
    funext j
    have hj' : (b.rows[j]?).join = vacate (place base b.added) b.removed j := congrFun h.rows j
    unfold vacate at hj' ⊢
    by_cases hj : j = index
    · rw [hget, if_pos hj, hj, if_neg hnot, update_self]
      rfl
    · rw [hget, if_neg hj, update_of_ne hj, hj']
      simp only [hrest j hj]
  · by_cases hj : j = index
    · rw [hget, if_pos hj, hj]
      simp [hnot]
    · rw [hget, if_neg hj, hrest j hj, h.holes j]
  · by_cases hi : a.1 = index
    · exact hi ▸ hnot
    · rcases mem_append.1 ha with ha | ha
      · exact fun hcon => h.fresh a ha ((hrest a.1 hi).1 hcon)
      · exact absurd (congrArg Prod.fst (mem_singleton.1 ha)) hi
  · rcases mem_append.1 ha with ha | ha
    · exact h.bounds a ha
    · rw [mem_singleton.1 ha]
      exact hlt
  · show rows.length = (b.reqIdToIndex.set r.reqId index).keys.length + rest.length
    rw [keys_set_of_not_mem hid, length_append, length_singleton]
    exact hsize
  · rw [hget]
    by_cases hj : j = index
    · -- the row written holds the new id and no other
      subst hj
      rw [if_pos rfl]
      by_cases hid' : id = r.reqId
      · subst hid'
        rw [get?_set_self]
        exact ⟨fun _ => ⟨r, rfl, rfl⟩, fun _ => rfl⟩
      rw [get?_set_of_ne hid', h.index id j]
      constructor
      · rintro ⟨r', hr', _⟩
        exact absurd hr' (hfree r')
      · rintro ⟨r', hr', heq⟩
        cases some.inj hr'
        exact absurd heq.symm hid'
    · rw [if_neg hj]
      by_cases hid' : id = r.reqId
      · subst hid'
        rw [get?_set_self]
        constructor
        · intro hj'
          exact absurd (some.inj hj').symm hj
        · rintro ⟨r', hr', heq⟩
          exact absurd (mem_keys_of_get? ((h.index r.reqId j).2 ⟨r', hr', heq⟩)) hid
      · rw [get?_set_of_ne hid', h.index id j]

theorem Tracks.addRequest (hstep : b.addRequest r = .ok b') : Tracks base b' ∧ b'.holders = b.holders ∧
      ∀ id, id ∈ b'.reqIdToIndex.keys ↔ id = r.reqId ∨ id ∈ b.reqIdToIndex.keys := by
  have hsize := h.size
  unfold InputBatch.addRequest InputBatch.popRemoved at hstep
  by_cases hnil : b.removed = []
  · -- the request goes behind the last row
    rw [if_pos hnil] at hstep
    dsimp only [getD_none] at hstep
    split at hstep
    next hlt =>
      have hlen : b.numReqs = b.rows.length := by
        rw [hnil] at hsize
        exact hsize.symm
      rw [if_pos hlen] at hstep
      cases hstep
      have hnone : b.rows[b.numReqs]? = none := getElem?_eq_none (le_of_eq hlen.symm)
      refine ⟨h.put hid (fun j => ?_) (fun r' hr' => ?_) (by rw [hnil]; exact not_mem_nil) (fun j _ => Iff.rfl)
        h.nodup hlt ?_ ?_ h.sorted, rfl, fun id => mem_keys_set⟩
      · by_cases hj : j = b.numReqs
        · rw [if_pos hj, hj, hlen, getElem?_concat_length]
        · rw [if_neg hj]
          rcases lt_or_ge j b.rows.length with hlt' | hge
          · exact getElem?_append_left hlt'
          · rw [getElem?_eq_none (by rw [length_append, length_singleton]; omega), getElem?_eq_none (by omega)]
      · cases hnone.symm.trans hr'
      · rw [length_append, length_singleton]
        omega
      · rw [length_append, length_singleton]
        omega
    · cases hstep
  · -- the request goes into the lowest hole
    rw [if_neg hnil] at hstep
    obtain ⟨removed, heq, hperm, hpair⟩ := ensureRemovedSorted_spec h
    rw [heq] at hstep
    have hne : removed ≠ [] := fun hcon => hnil (Perm.eq_nil (hcon ▸ hperm))
    obtain ⟨rest, index, rfl⟩ : ∃ rest index, removed = rest ++ [index] :=
      ⟨removed.dropLast, removed.getLast hne, (dropLast_append_getLast hne).symm⟩
    dsimp only at hstep
    rw [getLast?_concat, dropLast_concat] at hstep
    dsimp only [getD_some] at hstep
    split at hstep
    next hlt =>
      have hmem (j : ℕ) : j ∈ b.removed ↔ j = index ∨ j ∈ rest := by
        rw [hperm.mem_iff, mem_append, mem_singleton]
        exact or_comm
      have hhole : b.rows[index]? = some none := (h.holes index).1 ((hmem index).2 (.inl rfl))
      obtain ⟨hbound, _⟩ := List.getElem?_eq_some_iff.1 hhole
      obtain ⟨hnodup, _, hdisj⟩ := nodup_append.1 (hperm.nodup_iff.1 h.nodup)
      have hlen := hperm.length_eq
      rw [length_append, length_singleton] at hlen
      rw [if_neg (by omega)] at hstep
      cases hstep
      refine ⟨h.put hid (fun j => ?_) (fun r' hr' => ?_) ?_ (fun j hj => ?_) hnodup hlt ?_ ?_
        fun _ => (pairwise_append.1 hpair).1, rfl, fun id => mem_keys_set⟩
      · by_cases hj : j = index
        · rw [if_pos hj, hj, getElem?_set_self hbound]
        · rw [if_neg hj, getElem?_set_ne (Ne.symm hj)]
      · cases hhole.symm.trans hr'
      · exact fun hmem' => hdisj index hmem' index (mem_singleton.2 rfl) rfl
      · rw [hmem, or_iff_right hj]
      · rw [length_set]
        omega
      · rw [length_set]
        exact h.cap
    · cases hstep

end

theorem Tracks.adds (rs : List (CachedRequestState F Id Ref)) (h : Tracks base b)
    (hnodup : (rs.map (·.reqId)).Nodup) (hnew : ∀ r ∈ rs, r.reqId ∉ b.reqIdToIndex.keys)
    (hstep : rs.foldlM InputBatch.addRequest b = .ok b') : Tracks base b' ∧ b'.holders = b.holders := by
  induction rs generalizing b with
  | nil =>
    cases hstep
    exact ⟨h, rfl⟩
  | cons r rs ih =>
    obtain ⟨hnot, hnodup⟩ := nodup_cons.1 hnodup
    rw [foldlM_cons] at hstep
    obtain ⟨b₁, hone, hstep⟩ := bind_ok hstep
    obtain ⟨h₁, hsame, hkeys⟩ := h.addRequest (hnew r mem_cons_self) hone
    obtain ⟨h₂, hsame₂⟩ := ih h₁ hnodup (fun r' hr' hmem => by
      rcases (hkeys r'.reqId).1 hmem with heq | hold
      · exact hnot (mem_map.2 ⟨r', hr', heq⟩)
      · exact hnew r' (mem_cons_of_mem _ hr') hold) hstep
    exact ⟨h₂, hsame₂.trans hsame⟩

end Rows

end VllmRwkv.Batch
