import Mathlib

/-!
# Weights of numbered entries on both sides of a fence

Entries are numbered in the order in which they are queued and leave in that order. `below seq w b l` adds
up the weights of the entries numbered below the fence `b`, and `above` those of the others.
-/

namespace Fence

open List

variable {α : Type}

section

variable (seq w : α → ℕ) (b : ℕ) (l : List α)

/-- The weight of the entries numbered below `b`. -/
def below : ℕ := ((l.filter (seq · < b)).map w).sum

/-- The weight of the entries numbered from `b` on. -/
def above : ℕ := ((l.filter (b ≤ seq ·)).map w).sum

end

/-- The numbers grow along the queue. -/
def Ordered (seq : α → ℕ) (l : List α) : Prop := l.Pairwise fun x y => seq x < seq y

variable {seq w : α → ℕ} {b : ℕ} {l : List α} {x : α}

section

variable (seq w : α → ℕ) (b : ℕ) (x : α) (l : List α)

theorem below_cons : below seq w b (x :: l) = (if seq x < b then w x else 0) + below seq w b l := by
  unfold below
  by_cases h : seq x < b
  · rw [filter_cons_of_pos (by simpa using h), if_pos h, map_cons, sum_cons]
  · rw [filter_cons_of_neg (by simpa using h), if_neg h, zero_add]

theorem above_cons : above seq w b (x :: l) = (if b ≤ seq x then w x else 0) + above seq w b l := by
  unfold above
  by_cases h : b ≤ seq x
  · rw [filter_cons_of_pos (by simpa using h), if_pos h, map_cons, sum_cons]
  · rw [filter_cons_of_neg (by simpa using h), if_neg h, zero_add]

end

theorem below_append {l' : List α} : below seq w b (l ++ l') = below seq w b l + below seq w b l' := by
  unfold below
  rw [filter_append, map_append, sum_append]

theorem above_append {l' : List α} : above seq w b (l ++ l') = above seq w b l + above seq w b l' := by
  unfold above
  rw [filter_append, map_append, sum_append]

theorem below_eq_zero (h : ∀ x ∈ l, b ≤ seq x) : below seq w b l = 0 := by
  unfold below
  rw [filter_eq_nil_iff.2 fun x hx => by simpa using h x hx]
  rfl

theorem above_eq_zero (h : ∀ x ∈ l, seq x < b) : above seq w b l = 0 := by
  unfold above
  rw [filter_eq_nil_iff.2 fun x hx => by simpa using h x hx]
  rfl

theorem below_of_weightless (h : ∀ x ∈ l, w x = 0) : below seq w b l = 0 := by
  refine sum_eq_zero fun k hk => ?_
  obtain ⟨x, hx, rfl⟩ := mem_map.1 hk
  exact h x (mem_filter.1 hx).1

theorem above_of_weightless (h : ∀ x ∈ l, w x = 0) : above seq w b l = 0 := by
  refine sum_eq_zero fun k hk => ?_
  obtain ⟨x, hx, rfl⟩ := mem_map.1 hk
  exact h x (mem_filter.1 hx).1

/-- All entries lie below a fence that is above all numbers. -/
theorem below_eq_total (h : ∀ x ∈ l, seq x < b) : below seq w b l = (l.map w).sum := by
  unfold below
  rw [filter_eq_self.2 fun x hx => decide_eq_true (h x hx)]

theorem below_le_total : below seq w b l ≤ (l.map w).sum :=
  (filter_sublist.map w).sum_le_sum fun _ _ => Nat.zero_le _

section

variable (h : Ordered seq (x :: l))

include h

/-- Behind an entry above the fence there is nothing below it. -/
theorem Ordered.below_eq_zero (hx : b ≤ seq x) : below seq w b (x :: l) = 0 := by
  refine Fence.below_eq_zero fun y hy => ?_
  rcases mem_cons.1 hy with rfl | hy
  · exact hx
  · exact hx.trans (rel_of_pairwise_cons h hy).le

/-- The oldest entry, which has some weight, lies below the fence exactly if anything does. -/
theorem Ordered.below_pos_iff (hw : 0 < w x) : 0 < below seq w b (x :: l) ↔ seq x < b := by
  constructor
  · intro hpos
    by_contra hge
    rw [h.below_eq_zero (not_lt.1 hge)] at hpos
    exact absurd hpos (lt_irrefl 0)
  · intro hlt
    rw [below_cons, if_pos hlt]
    omega

theorem Ordered.tail : Ordered seq l := h.of_cons

end

/-- A new entry with the next number. -/
theorem Ordered.concat (h : Ordered seq l) (hbound : ∀ y ∈ l, seq y < seq x) : Ordered seq (l ++ [x]) :=
  pairwise_append.2 ⟨h, pairwise_singleton _ _, fun y hy z hz => by
    rw [mem_singleton.1 hz]
    exact hbound y hy⟩

end Fence
