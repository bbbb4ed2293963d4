import Mathlib

/-!
# Dictionaries that remember their order

`Dict K V` is a finite map with its keys in the order of insertion. Writing to a key that is
present keeps its place, as in the languages that iterate over a map in insertion order.
-/

/-- Two tests that agree on all elements but one count alike, that element apart. -/
theorem List.Nodup.countP_agree_off {α : Type} [DecidableEq α] {l : List α} {k : α} (hnodup : l.Nodup)
    (hk : k ∈ l) (f g : α → Bool) (h : ∀ a, a ≠ k → f a = g a) :
    l.countP g + (if f k then 1 else 0) = l.countP f + if g k then 1 else 0 := by
  have hothers : (l.erase k).countP g = (l.erase k).countP f := by
    refine countP_congr fun a ha => ?_
    rw [h a (hnodup.mem_erase_iff.1 ha).1]
  rw [(perm_cons_erase hk).countP_eq, (perm_cons_erase hk).countP_eq, countP_cons, countP_cons, hothers]
  omega

/-- A finite map, its keys in the order of insertion. -/
structure Dict (K V : Type) where
  keys : List K
  get? : K → Option V
  nodup : keys.Nodup
  mem_keys : ∀ k, k ∈ keys ↔ (get? k).isSome

namespace Dict

open List Function Option

variable {K V : Type} {d : Dict K V}

def empty : Dict K V := ⟨[], fun _ => none, nodup_nil, by simp⟩

@[simp] theorem get?_empty (k : K) : (empty : Dict K V).get? k = none := rfl

@[simp] theorem keys_empty : (empty : Dict K V).keys = [] := rfl

theorem mem_keys_of_get? {k : K} {v : V} (h : d.get? k = some v) : k ∈ d.keys := by
  rw [d.mem_keys, h]; rfl

theorem exists_of_mem_keys {k : K} (h : k ∈ d.keys) : ∃ v, d.get? k = some v :=
  isSome_iff_exists.1 ((d.mem_keys k).1 h)

theorem not_mem_keys_iff {k : K} : k ∉ d.keys ↔ d.get? k = none := by
  rw [d.mem_keys, Bool.not_eq_true, isSome_eq_false_iff, isNone_iff_eq_none]

theorem eq_of {d' : Dict K V} (hkeys : d.keys = d'.keys) (hget : d.get? = d'.get?) : d = d' := by
  cases d
  cases d'
  cases hkeys
  cases hget
  rfl

/-- Change every value. -/
def mapVals (d : Dict K V) (f : K → V → V) : Dict K V where
  keys := d.keys
  get? := fun k => (d.get? k).map (f k)
  nodup := d.nodup
  mem_keys := fun k => by rw [Option.isSome_map, d.mem_keys]

@[simp] theorem get?_mapVals {f : K → V → V} {k : K} : (d.mapVals f).get? k = (d.get? k).map (f k) := rfl

/-- The values of a dictionary of counts, added up. -/
def total (d : Dict K ℕ) : ℕ := (d.keys.map fun k => (d.get? k).getD 0).sum

/-- The number of keys whose value satisfies `p`. -/
def countVals (d : Dict K V) (p : V → Bool) : ℕ := d.keys.countP fun k => (d.get? k).any p

variable [DecidableEq K]

/-- Write to a key. -/
def set (d : Dict K V) (k : K) (v : V) : Dict K V where
  keys := if k ∈ d.keys then d.keys else d.keys ++ [k]
  get? := update d.get? k (some v)
  nodup := by
    split_ifs with hk
    · exact d.nodup
    exact nodup_append.2 ⟨d.nodup, nodup_singleton k, by
      intro a ha b hb hab
      rw [mem_singleton] at hb
      exact hk (hb ▸ hab ▸ ha)⟩
  mem_keys := by
    intro a
    by_cases ha : a = k
    · subst ha
      rw [update_self]
      split <;> simp [*]
    · rw [update_of_ne ha, ← d.mem_keys]
      split <;> simp [ha]

/-- Delete a key. -/
def erase (d : Dict K V) (k : K) : Dict K V where
  keys := d.keys.erase k
  get? := update d.get? k none
  nodup := d.nodup.erase k
  mem_keys := by
    intro a
    rw [d.nodup.mem_erase_iff]
    by_cases ha : a = k
    · subst ha; simp
    · rw [update_of_ne ha, d.mem_keys]; simp [ha]

section Lookup

variable {d : Dict K V} {k k' : K} {v : V}

@[simp] theorem get?_set_self : (d.set k v).get? k = some v := update_self ..

theorem get?_set_of_ne (h : k' ≠ k) : (d.set k v).get? k' = d.get? k' := update_of_ne h ..

@[simp] theorem get?_erase_self : (d.erase k).get? k = none := update_self ..

theorem get?_erase_of_ne (h : k' ≠ k) : (d.erase k).get? k' = d.get? k' := update_of_ne h ..

theorem get?_set : (d.set k v).get? k' = if k' = k then some v else d.get? k' := update_apply ..

theorem get?_erase : (d.erase k).get? k' = if k' = k then none else d.get? k' := update_apply ..

theorem get?_set_eq_some {w : V} : (d.set k v).get? k' = some w ↔ k' = k ∧ w = v ∨ k' ≠ k ∧ d.get? k' = some w := by
  rw [get?_set]
  split_ifs with h <;> simp [h, eq_comm]

theorem get?_erase_eq_some : (d.erase k).get? k' = some v ↔ k' ≠ k ∧ d.get? k' = some v := by
  rw [get?_erase]
  split_ifs with h <;> simp [h]

theorem erase_of_get?_eq_none (h : d.get? k = none) : d.erase k = d :=
  eq_of (erase_of_not_mem (not_mem_keys_iff.2 h)) (update_eq_self_iff.2 h.symm)

theorem keys_set_of_mem (h : k ∈ d.keys) : (d.set k v).keys = d.keys := if_pos h

theorem keys_set_of_not_mem (h : k ∉ d.keys) : (d.set k v).keys = d.keys ++ [k] := if_neg h

theorem set_eq_self (h : d.get? k = some v) : d.set k v = d := eq_of (keys_set_of_mem (mem_keys_of_get? h)) (by
    show update d.get? k (some v) = d.get?
    rw [← h, update_eq_self])

theorem set_set {w : V} : (d.set k v).set k w = d.set k w := by
  have hkeys : ((d.set k v).set k w).keys = (d.set k w).keys := keys_set_of_mem (mem_keys_of_get? get?_set_self)
  have hget : ((d.set k v).set k w).get? = (d.set k w).get? := update_idem ..
  exact eq_of hkeys hget

theorem erase_set : (d.set k v).erase k = d.erase k := by
  refine eq_of ?_ (update_idem ..)
  show (if k ∈ d.keys then d.keys else d.keys ++ [k]).erase k = d.keys.erase k
  split_ifs with hk
  · rfl
  · rw [erase_append_right _ hk, erase_of_not_mem hk]
    simp

theorem mem_keys_set : k' ∈ (d.set k v).keys ↔ k' = k ∨ k' ∈ d.keys := by
  rw [mem_keys, get?_set, mem_keys]
  split_ifs with h <;> simp [h]

theorem mem_keys_erase : k' ∈ (d.erase k).keys ↔ k' ≠ k ∧ k' ∈ d.keys := d.nodup.mem_erase_iff

end Lookup

/-! ## Moving, deleting and joining -/

/-- The key becomes the last one. -/
def moveToEnd (d : Dict K V) (k : K) : Dict K V :=
  match d.get? k with
  | none => d
  | some v => (d.erase k).set k v

/-- The entries in their order. -/
def items (d : Dict K V) : List (K × V) := d.keys.filterMap fun k => (d.get? k).map fun v => (k, v)

/-- Delete several keys. -/
def eraseAll (d : Dict K V) (ks : List K) : Dict K V := ks.foldl erase d

/-- The entries of the first dictionary, and those of the second under other keys. -/
def orElse (d d' : Dict K V) : Dict K V where
  keys := d.keys ++ d'.keys.filter (· ∉ d.keys)
  get? k := (d.get? k).or (d'.get? k)
  nodup := by
    refine nodup_append.2 ⟨d.nodup, d'.nodup.filter _, ?_⟩
    rintro a ha _ hb rfl
    exact absurd ha (of_decide_eq_true (mem_filter.1 hb).2)
  mem_keys := by
    intro k
    rw [mem_append, mem_filter, decide_eq_true_iff, d.mem_keys, d'.mem_keys]
    cases d.get? k with
    | none => simp
    | some v => simp

section Moving

variable {d d' : Dict K V} {k k' : K} {v : V}

@[simp] theorem get?_moveToEnd : (d.moveToEnd k).get? = d.get? := by
  funext a
  unfold moveToEnd
  split
  · rfl
  rename_i v hv
  rw [get?_set, get?_erase]
  split_ifs with ha
  · rw [ha, hv]
  · rfl

theorem keys_moveToEnd : (d.moveToEnd k).keys.Perm d.keys :=
  (perm_ext_iff_of_nodup (d.moveToEnd k).nodup d.nodup).2 fun a => by rw [mem_keys, mem_keys, get?_moveToEnd]

omit [DecidableEq K] in
theorem mem_items : (k, v) ∈ d.items ↔ d.get? k = some v := by
  unfold items
  rw [mem_filterMap]
  constructor
  · rintro ⟨a, _, ha⟩
    obtain ⟨w, hw, heq⟩ := map_eq_some_iff.1 ha
    cases heq
    exact hw
  · intro hv
    exact ⟨k, mem_keys_of_get? hv, by rw [hv]; rfl⟩

omit [DecidableEq K] in
theorem map_fst_items (d : Dict K V) : d.items.map Prod.fst = d.keys := by
  have hall : ∀ ks : List K, (∀ k ∈ ks, k ∈ d.keys) →
      (ks.filterMap fun k => (d.get? k).map fun v => (k, v)).map Prod.fst = ks := by
    intro ks
    induction ks with
    | nil => exact fun _ => rfl
    | cons k ks ih =>
      intro hks
      obtain ⟨v, hv⟩ := exists_of_mem_keys (hks k mem_cons_self)
      rw [filterMap_cons_some (by rw [hv]; rfl), map_cons, ih fun k' hk' => hks k' (mem_cons_of_mem _ hk')]
  exact hall d.keys fun _ hk => hk

theorem get?_eraseAll (d : Dict K V) (ks : List K) (k : K) :
    (d.eraseAll ks).get? k = if k ∈ ks then none else d.get? k := by
  induction ks generalizing d with
  | nil => simp [eraseAll]
  | cons a ks ih =>
    show ((d.erase a).eraseAll ks).get? k = _
    rw [ih, get?_erase]
    by_cases hk : k = a <;> simp [hk]

theorem mem_keys_eraseAll {ks : List K} : k ∈ (d.eraseAll ks).keys ↔ k ∉ ks ∧ k ∈ d.keys := by
  rw [mem_keys, get?_eraseAll, mem_keys]
  split_ifs with h <;> simp [h]

end Moving

/-! ## Counting values -/

section Count

variable {d : Dict K V} {k : K} {v w : V} {p : V → Bool}

omit [DecidableEq K] in
theorem mem_filter_any : k ∈ d.keys.filter (fun k => (d.get? k).any p) ↔ (d.get? k).any p := by
  rw [mem_filter]
  refine ⟨fun hk => hk.2, fun hk => ⟨?_, hk⟩⟩
  rw [d.mem_keys]
  cases hv : d.get? k with
  | none => rw [hv] at hk; cases hk
  | some v => rfl

omit [DecidableEq K] in
/-- Any list of the keys whose value satisfies `p`, without repetition, has the right length. -/
theorem countVals_eq_length {l : List K} (hl : l.Nodup) (h : ∀ k, k ∈ l ↔ (d.get? k).any p) :
    d.countVals p = l.length := by
  unfold countVals
  rw [countP_eq_length_filter]
  refine ((perm_ext_iff_of_nodup (d.nodup.filter _) hl).2 fun k => ?_).length_eq
  rw [mem_filter_any, h k]

omit [DecidableEq K] in
theorem countVals_congr {d' : Dict K V} (h : ∀ k, (d'.get? k).any p = (d.get? k).any p) :
    d'.countVals p = d.countVals p := by
  rw [countVals_eq_length (d.nodup.filter _) fun k => by rw [h k]; exact mem_filter_any,
    countVals_eq_length (d.nodup.filter _) fun k => mem_filter_any]

theorem countVals_set (h : d.get? k = some v) :
    (d.set k w).countVals p + (if p v then 1 else 0) = d.countVals p + if p w then 1 else 0 := by
  have hk : k ∈ d.keys := mem_keys_of_get? h
  have hcount := d.nodup.countP_agree_off hk (fun a => (d.get? a).any p)
    (fun a => ((d.set k w).get? a).any p) fun a ha => by rw [get?_set_of_ne ha]
  rw [get?_set_self, h] at hcount
  unfold countVals
  rw [keys_set_of_mem hk]
  exact hcount

theorem countVals_set_new (h : d.get? k = none) : (d.set k v).countVals p = d.countVals p + if p v then 1 else 0 := by
  have hk : k ∉ d.keys := not_mem_keys_iff.2 h
  unfold countVals
  rw [keys_set_of_not_mem hk, countP_append, countP_singleton, get?_set_self]
  congr 1
  refine countP_congr fun a ha => ?_
  have hne : a ≠ k := fun heq => hk (heq ▸ ha)
  rw [get?_set_of_ne hne]

theorem countVals_erase (h : d.get? k = some v) : (d.erase k).countVals p + (if p v then 1 else 0) = d.countVals p := by
  have hk : k ∈ d.keys := mem_keys_of_get? h
  have hothers : (d.keys.erase k).countP (fun a => ((d.erase k).get? a).any p) =
      (d.keys.erase k).countP fun a => (d.get? a).any p := by
    refine countP_congr fun a ha => ?_
    rw [get?_erase_of_ne (d.nodup.mem_erase_iff.1 ha).1]
  unfold countVals
  rw [(perm_cons_erase hk).countP_eq, countP_cons, h]
  show (d.keys.erase k).countP _ + _ = _
  rw [hothers]
  rfl

/-- Deleting keys whose values all satisfy `p`. -/
theorem countVals_eraseAll {ks : List K} (hnodup : ks.Nodup) (h : ∀ k ∈ ks, ∃ v, d.get? k = some v ∧ p v) :
    (d.eraseAll ks).countVals p + ks.length = d.countVals p := by
  induction ks generalizing d with
  | nil => rfl
  | cons a ks ih =>
    obtain ⟨hnot, hnodup⟩ := nodup_cons.1 hnodup
    obtain ⟨v, hv, hp⟩ := h a mem_cons_self
    have hrest := ih (d := d.erase a) hnodup fun k hk => by
      have hne : k ≠ a := fun heq => hnot (heq ▸ hk)
      rw [get?_erase_of_ne hne]
      exact h k (mem_cons_of_mem _ hk)
    have herase := countVals_erase (p := p) hv
    rw [if_pos hp] at herase
    show ((d.erase a).eraseAll ks).countVals p + (ks.length + 1) = _
    omega

/-- Deleting keys whose values all fail `p`. -/
theorem countVals_eraseAll_of_not {ks : List K} (h : ∀ k ∈ ks, ∃ v, d.get? k = some v ∧ p v = false) :
    (d.eraseAll ks).countVals p = d.countVals p := by
  refine countVals_congr fun k => ?_
  rw [get?_eraseAll]
  split_ifs with hk
  · obtain ⟨v, hv, hp⟩ := h k hk
    rw [hv]
    exact hp.symm
  · rfl

end Count

section Total

variable {d d' : Dict K ℕ} {k : K} {v : ℕ}

theorem total_set_new (h : d.get? k = none) : (d.set k v).total = d.total + v := by
  have hk : k ∉ d.keys := not_mem_keys_iff.2 h
  have hothers : d.keys.map (fun a => ((d.set k v).get? a).getD 0) = d.keys.map fun a => (d.get? a).getD 0 := by
    refine map_congr_left fun a ha => ?_
    have hne : a ≠ k := fun heq => hk (heq ▸ ha)
    rw [get?_set_of_ne hne]
  unfold total
  rw [keys_set_of_not_mem hk, map_append, sum_append, hothers]
  simp

theorem total_erase (h : d.get? k = some v) : (d.erase k).total + v = d.total := by
  have hk : k ∈ d.keys := mem_keys_of_get? h
  have hothers : (d.keys.erase k).map (fun a => ((d.erase k).get? a).getD 0) =
      (d.keys.erase k).map fun a => (d.get? a).getD 0 := by
    refine map_congr_left fun a ha => ?_
    rw [get?_erase_of_ne (d.nodup.mem_erase_iff.1 ha).1]
  have hperm := ((perm_cons_erase hk).map fun a => (d.get? a).getD 0).sum_nat
  rw [map_cons, sum_cons, h, getD_some] at hperm
  unfold total
  show ((d.keys.erase k).map _).sum + v = _
  rw [hothers, hperm, add_comm]

omit [DecidableEq K] in
/-- A table adds up over any list of its keys. -/
theorem total_eq_of_perm {l : List K} (h : d.keys.Perm l) :
    d.total = (l.map fun k => (d.get? k).getD 0).sum := (h.map _).sum_nat

omit [DecidableEq K] in
/-- A part of a table adds up to less. -/
theorem total_le_of_sub (h : ∀ k v, d.get? k = some v → d'.get? k = some v) : d.total ≤ d'.total := by
  have hval : d.keys.map (fun k => (d.get? k).getD 0) = d.keys.map fun k => (d'.get? k).getD 0 := by
    refine map_congr_left fun k hk => ?_
    obtain ⟨v, hv⟩ := exists_of_mem_keys hk
    rw [hv, h k v hv]
  have hsub : Subperm d.keys d'.keys := subperm_of_subset d.nodup fun k hk => by
    obtain ⟨v, hv⟩ := exists_of_mem_keys hk
    exact mem_keys_of_get? (h k v hv)
  obtain ⟨l, hperm, hsublist⟩ := hsub
  unfold total
  rw [hval, ← (hperm.map _).sum_nat]
  exact (hsublist.map _).sum_le_sum fun _ _ => Nat.zero_le _

end Total

end Dict
