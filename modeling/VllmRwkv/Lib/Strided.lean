import Mathlib

/-!
# Splitting lists

* `strided i n l`: every `n`-th element from position `i` on. The `n` strided lists make up `l`.
* `zipRows lists`: the rows that several lists form side by side, as far as the shortest reaches.
  They make up the lists exactly when these are equally long.
* `placeFirst`: put something into the first container it fits, or into a new one.
-/

namespace Strided

open List Bool Except

variable {α β ε : Type} {l xs : List α} {ys : List β} {lists : List (List α)} {R : α → β → Prop}

/-! ## Strides -/

/-- `l[i::n]`, for `i < n`. -/
def strided (i n : ℕ) (l : List α) : List α := (l.zipIdx.filter fun x => x.2 % n = i).map Prod.fst

/-- Sorting a list by a number below `n` loses nothing. -/
theorem flatMap_filter_perm {f : β → ℕ} (n : ℕ) (l : List β) :
    ((range n).flatMap fun i => l.filter fun x => f x = i).Perm (l.filter fun x => f x < n) := by
  induction n with
  | zero => simp
  | succ n ih =>
    rw [range_succ, flatMap_append, flatMap_cons, flatMap_nil, append_nil]
    refine (ih.append_right _).trans ?_
    have hsplit := filter_append_perm (fun x => decide (f x < n)) (l.filter fun x => f x < n + 1)
    rw [filter_filter, filter_filter] at hsplit
    have hlow : (fun x => decide (f x < n) && decide (f x < n + 1)) = fun x => decide (f x < n) := by
      funext x
      rw [← decide_and]
      exact decide_eq_decide.2 ⟨fun h => h.1, fun h => ⟨h, by omega⟩⟩
    have hlast : (fun x => (!decide (f x < n)) && decide (f x < n + 1)) = fun x => decide (f x = n) := by
      funext x
      rw [← decide_not, ← decide_and]
      exact decide_eq_decide.2 ⟨fun h => by omega, fun h => by omega⟩
    rwa [hlow, hlast] at hsplit

/-- **The strides of a list make it up.** -/
theorem flatMap_strided_perm {n : ℕ} (hn : 0 < n) (l : List α) : ((range n).flatMap fun i => strided i n l).Perm l := by
  have hperm := (flatMap_filter_perm (f := fun x : α × ℕ => x.2 % n) n l.zipIdx).map Prod.fst
  have hall : l.zipIdx.filter (fun x => decide (x.2 % n < n)) = l.zipIdx := by
    rw [filter_eq_self]
    intro x _
    simpa using Nat.mod_lt x.2 hn
  rwa [hall, zipIdx_map_fst, map_flatMap] at hperm

theorem strided_ne_nil {i n : ℕ} (hi : i < n) (hlen : i < l.length) : strided i n l ≠ [] := by
  have hmem : (l[i], i) ∈ l.zipIdx := by
    rw [mem_zipIdx_iff_getElem?]
    simp [getElem?_eq_getElem hlen]
  intro hnil
  have hin : l[i] ∈ strided i n l :=
    mem_map.2 ⟨(l[i], i), mem_filter.2 ⟨hmem, by simpa using Nat.mod_eq_of_lt hi⟩, rfl⟩
  rw [hnil] at hin
  exact absurd hin not_mem_nil

/-! ## Classes -/

section

variable [DecidableEq α]

/-- The distinct elements, in order of first appearance. -/
def distinct (l : List α) : List α := l.reverse.dedup.reverse

theorem nodup_distinct (l : List α) : (distinct l).Nodup := nodup_reverse.2 (nodup_dedup _)

theorem mem_distinct {x : α} : x ∈ distinct l ↔ x ∈ l := by
  unfold distinct
  rw [mem_reverse, mem_dedup, mem_reverse]

theorem eq_of_length_distinct_le_one {x y : α} (h : (distinct l).length ≤ 1) (hx : x ∈ l) (hy : y ∈ l) : x = y := by
  have hx' := mem_distinct.2 hx
  have hy' := mem_distinct.2 hy
  obtain ⟨z, hz⟩ := length_eq_one_iff.1 (le_antisymm h (length_pos_of_mem hx'))
  rw [hz, mem_singleton] at hx' hy'
  rw [hx', hy']

theorem flatMap_class_perm {f : β → α} {ks : List α} (hks : ks.Nodup) (l : List β) :
    (ks.flatMap fun k => l.filter fun x => f x = k).Perm (l.filter fun x => f x ∈ ks) := by
  induction ks with
  | nil => simp
  | cons k ks ih =>
    obtain ⟨hk, hnd⟩ := nodup_cons.1 hks
    rw [flatMap_cons]
    refine ((ih hnd).append_left _).trans ?_
    have hsplit := filter_append_perm (fun x => decide (f x = k)) (l.filter fun x => f x ∈ k :: ks)
    rw [filter_filter, filter_filter] at hsplit
    have hone : (fun x => decide (f x = k) && decide (f x ∈ k :: ks)) = fun x => decide (f x = k) := by
      funext x
      rw [← decide_and]
      exact decide_eq_decide.2 ⟨fun h => h.1, fun h => ⟨h, h ▸ mem_cons_self⟩⟩
    have hrest : (fun x => (!decide (f x = k)) && decide (f x ∈ k :: ks)) = fun x => decide (f x ∈ ks) := by
      funext x
      rw [← decide_not, ← decide_and]
      refine decide_eq_decide.2 ⟨fun h => ?_, fun h => ⟨fun heq => hk (heq ▸ h), mem_cons_of_mem _ h⟩⟩
      exact (mem_cons.1 h.2).resolve_left h.1
    rwa [hone, hrest] at hsplit

/-- **The classes of a list make it up.** -/
theorem flatMap_distinct_perm (f : β → α) (l : List β) :
    ((distinct (l.map f)).flatMap fun k => l.filter fun x => f x = k).Perm l := by
  have hperm := flatMap_class_perm (f := f) (nodup_distinct (l.map f)) l
  have hall : l.filter (fun x => decide (f x ∈ distinct (l.map f))) = l := by
    rw [filter_eq_self]
    intro x hx
    rw [decide_eq_true_eq, mem_distinct]
    exact mem_map_of_mem hx
  rwa [hall] at hperm

end

/-! ## Loops that may raise -/

variable {f : α → Except ε β}

theorem bind_ok {x : Except ε α} {b : β} (h : x >>= f = .ok b) : ∃ a, x = .ok a ∧ f a = .ok b := by
  cases x with
  | error e => cases h
  | ok a => exact ⟨a, rfl, h⟩

theorem mapM_ok (h : xs.mapM f = .ok ys) : Forall₂ (fun x y => f x = .ok y) xs ys := by
  induction xs generalizing ys with
  | nil =>
    cases h
    exact .nil
  | cons x xs ih =>
    rw [mapM_cons] at h
    cases hx : f x with
    | error e => rw [hx] at h; cases h
    | ok y =>
      rw [hx] at h
      cases hrest : xs.mapM f with
      | error e => simp [hrest, bind, Except.bind] at h
      | ok rest =>
        simp only [hrest, bind, bind, pure, pure] at h
        cases h
        exact .cons hx (ih hrest)

theorem exists_of_mem_left {x : α} (h : Forall₂ R xs ys) (hx : x ∈ xs) : ∃ y ∈ ys, R x y := by
  induction h with
  | nil => exact absurd hx not_mem_nil
  | @cons a b _ _ hab _ ih =>
    rcases mem_cons.1 hx with rfl | hx
    · exact ⟨b, mem_cons_self, hab⟩
    · obtain ⟨y, hy, hxy⟩ := ih hx
      exact ⟨y, mem_cons_of_mem _ hy, hxy⟩

theorem exists_of_mem_right {y : β} (h : Forall₂ R xs ys) (hy : y ∈ ys) : ∃ x ∈ xs, R x y :=
  exists_of_mem_left h.flip hy

theorem map_eq_map_of_forall₂ {γ : Type} {f : α → γ} {g : β → γ}
    (h : Forall₂ R xs ys) (hR : ∀ x y, R x y → g y = f x) : ys.map g = xs.map f := by
  induction h with
  | nil => rfl
  | cons hxy _ ih => rw [map_cons, map_cons, hR _ _ hxy, ih]

theorem forall₂_comp {γ : Type} {Q : β → γ → Prop} {zs : List γ} (h : Forall₂ R xs ys) (h' : Forall₂ Q ys zs) :
    Forall₂ (fun x z => ∃ y ∈ ys, R x y ∧ Q y z) xs zs := by
  induction h generalizing zs with
  | nil =>
    cases h'
    exact .nil
  | @cons x y xs ys hxy _ ih =>
    cases h' with
    | cons hyz h' =>
      refine .cons ⟨y, mem_cons_self, hxy, hyz⟩ ((ih h').imp ?_)
      rintro a c ⟨b, hb, hab, hbc⟩
      exact ⟨b, mem_cons_of_mem _ hb, hab, hbc⟩

/-- What every turn of a loop keeps. -/
theorem foldlM_ok {f : β → α → Except ε β} {b b' : β} (I : List α → β → Prop)
    (h : xs.foldlM f b = .ok b') (hstep : ∀ x rest b b', I (x :: rest) b → f b x = .ok b' → I rest b')
    (hb : I xs b) : I [] b' := by
  induction xs generalizing b with
  | nil =>
    cases h
    exact hb
  | cons x xs ih =>
    rw [foldlM_cons] at h
    cases hx : f b x with
    | error e => rw [hx] at h; cases h
    | ok b1 =>
      rw [hx] at h
      exact ih h (hstep x xs b b1 hb hx)

/-! ## Rows -/

/-- The length of the shortest list. -/
def minLength (lists : List (List α)) : ℕ := (lists.map length).min?.getD 0

/-- `zip(*lists)`. -/
def zipRows (lists : List (List α)) : List (List α) :=
  (range (minLength lists)).map fun k => lists.filterMap fun l => l[k]?

theorem minLength_le (h : l ∈ lists) : minLength lists ≤ l.length := by
  unfold minLength
  cases hmin : (lists.map length).min? with
  | none => exact Nat.zero_le _
  | some m => exact (min?_eq_some_iff.1 hmin).2 _ (mem_map_of_mem h)

theorem exists_minLength (h : lists ≠ []) : ∃ l ∈ lists, l.length = minLength lists := by
  unfold minLength
  cases hmin : (lists.map length).min? with
  | none =>
    rw [min?_eq_none_iff, map_eq_nil_iff] at hmin
    exact absurd hmin h
  | some m =>
    obtain ⟨l, hl, hlen⟩ := mem_map.1 (min?_eq_some_iff.1 hmin).1
    exact ⟨l, hl, hlen⟩

theorem filterMap_range_getElem? (l : List α) (m : ℕ) : ((range m).flatMap fun k => (l[k]?).toList) = l.take m := by
  induction m with
  | zero => simp
  | succ m ih =>
    rw [range_succ, flatMap_append, ih, flatMap_cons, flatMap_nil, append_nil, take_add_one]

theorem flatMap_rows_perm (m : ℕ) (lists : List (List α)) (h : ∀ l ∈ lists, l.length = m) :
    ((range m).flatMap fun k => lists.filterMap fun l => l[k]?).Perm lists.flatten := by
  induction lists with
  | nil => simp
  | cons l ls ih =>
    have hl : l.length = m := h l mem_cons_self
    have hcons : (fun k : ℕ => (l :: ls).filterMap fun l => l[k]?) =
        fun k => (l[k]?).toList ++ ls.filterMap fun l => l[k]? := by
      funext k
      rw [filterMap_cons]
      cases l[k]? <;> rfl
    rw [hcons, flatten_cons]
    refine (flatMap_append_perm _ _ _).symm.trans ?_
    rw [filterMap_range_getElem?, take_of_length_le (le_of_eq hl)]
    exact (ih fun l' hl' => h l' (mem_cons_of_mem _ hl')).append_left l

/-- **The rows of equally long lists make them up.** -/
theorem flatten_zipRows_perm (h : ∀ l ∈ lists, l.length = minLength lists) :
    (zipRows lists).flatten.Perm lists.flatten := by
  unfold zipRows
  rw [← flatMap_def]
  exact flatMap_rows_perm _ _ h

theorem length_flatten_zipRows (lists : List (List α)) :
    (zipRows lists).flatten.length = minLength lists * lists.length := by
  have hrow : ∀ k < minLength lists, (lists.filterMap fun l => l[k]?).length = lists.length := by
    intro k hk
    rw [length_filterMap_eq_countP, countP_eq_length]
    intro l hl
    have hlt : k < l.length := hk.trans_le (minLength_le hl)
    simp [getElem?_eq_getElem hlt]
  unfold zipRows
  rw [length_flatten, map_map]
  have hmap : (range (minLength lists)).map (length ∘ fun k => lists.filterMap fun l => l[k]?) =
      (range (minLength lists)).map fun _ => lists.length :=
    map_congr_left fun k hk => hrow k (mem_range.1 hk)
  rw [hmap, map_const', sum_replicate, length_range, smul_eq_mul]

/-- The rows of lists of different lengths lose something. -/
theorem minLength_mul_lt (hl : l ∈ lists) (hlt : minLength lists < l.length) :
    minLength lists * lists.length < lists.flatten.length := by
  have hconst : minLength lists * lists.length = (lists.map fun _ => minLength lists).sum := by
    rw [map_const', sum_replicate, smul_eq_mul, mul_comm]
  rw [hconst, length_flatten]
  exact sum_lt_sum _ _ (fun x hx => minLength_le hx) ⟨l, hl, hlt⟩

/-! ## Containers -/

/-- Put something into the first container that it fits, or into a new one. -/
def placeFirst {ε : Type} (fits : β → Except ε Bool) (add : β → β) (fresh : β) : List β → Except ε (List β)
  | [] => .ok [fresh]
  | b :: bs => do
    if ← fits b then return add b :: bs
    else return b :: (← placeFirst fits add fresh bs)

variable {fits : β → Except ε Bool} {add : β → β} {fresh : β} {bs bs' : List β}

theorem placeFirst_ok (h : placeFirst fits add fresh bs = .ok bs') :
    bs' = bs ++ [fresh] ∨ ∃ l b r, bs = l ++ b :: r ∧ fits b = .ok true ∧ bs' = l ++ add b :: r := by
  induction bs generalizing bs' with
  | nil => exact .inl (ok.inj h).symm
  | cons b bs ih =>
    unfold placeFirst at h
    cases hfit : fits b with
    | error e => rw [hfit] at h; cases h
    | ok fit =>
      rw [hfit] at h
      cases fit with
      | true => exact .inr ⟨[], b, bs, rfl, hfit, (ok.inj h).symm⟩
      | false =>
        cases hrest : placeFirst fits add fresh bs with
        | error e => simp [hrest, bind, Except.bind] at h
        | ok rest =>
          simp only [hrest, bind, bind, pure, pure] at h
          cases h
          rcases ih hrest with rfl | ⟨l, b', r, rfl, hfits, rfl⟩
          · exact .inl rfl
          · exact .inr ⟨b :: l, b', r, rfl, hfits, rfl⟩

/-- Whatever is read off the containers, one more item is added to it. -/
theorem placeFirst_perm (items : β → List α) (new : List α) (h : placeFirst fits add fresh bs = .ok bs')
    (hadd : ∀ b, items (add b) = items b ++ new) (hfresh : items fresh = new) :
    (bs'.flatMap items).Perm (bs.flatMap items ++ new) := by
  rcases placeFirst_ok h with rfl | ⟨l, b, r, rfl, -, rfl⟩
  · simp [hfresh]
  · simp only [flatMap_append, flatMap_cons, hadd, append_assoc]
    exact (perm_append_comm.append_left _).append_left _

/-- A property that new and extended containers have. -/
theorem placeFirst_forall {P : β → Prop} (h : placeFirst fits add fresh bs = .ok bs') (hbs : ∀ b ∈ bs, P b)
    (hadd : ∀ b, P b → fits b = .ok true → P (add b)) (hfresh : P fresh) : ∀ b ∈ bs', P b := by
  intro b' hb'
  rcases placeFirst_ok h with rfl | ⟨l, b, r, rfl, hfit, rfl⟩
  · rcases mem_append.1 hb' with hb' | hb'
    · exact hbs b' hb'
    · exact mem_singleton.1 hb' ▸ hfresh
  · rw [mem_append, mem_cons] at hb'
    rcases hb' with hb' | rfl | hb'
    · exact hbs b' (mem_append_left _ hb')
    · exact hadd b (hbs b (mem_append_right _ mem_cons_self)) hfit
    · exact hbs b' (mem_append_right _ (mem_cons_of_mem _ hb'))

end Strided
