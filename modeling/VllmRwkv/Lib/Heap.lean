import Mathlib

/-!
# Binary heaps in a list

The `heapq` functions of Python's standard library, over any comparison `lt`. An element moves by
exchanges with its parent or its smaller child, which leaves the list that the library's moving
hole leaves.

* `heappush_perm`, `heappop_perm`, `heapify_perm`: what the functions do to the elements, whatever
  `lt` is; `heappop_head`: the element at the front is the one that leaves.
-/

namespace Heap

open List Prod Option

variable {α : Type} (lt : α → α → Bool)

/-- Exchange two positions. -/
def swap (l : List α) (i j : ℕ) : List α :=
  match l[i]?, l[j]? with
  | some a, some b => (l.set i b).set j a
  | _, _ => l

/-- `_siftdown`: move the element at `pos` towards `startpos` as long as it is smaller than its
parent. It moves at most `pos` times. -/
def siftdown (startpos : ℕ) : ℕ → ℕ → List α → List α
  | 0, _, l => l
  | fuel + 1, pos, l =>
    if pos ≤ startpos then l
    else
      let parentpos := (pos - 1) / 2
      match l[pos]?, l[parentpos]? with
      | some newitem, some parent =>
        if lt newitem parent then siftdown startpos fuel parentpos (swap l pos parentpos) else l
      | _, _ => l

/-- The loop of `_siftup`: move the element at `pos` down along smaller children to a leaf; the
position it ends at, with the list. -/
def sinkToLeaf : ℕ → ℕ → List α → ℕ × List α
  | 0, pos, l => (pos, l)
  | fuel + 1, pos, l =>
    let childpos := 2 * pos + 1
    match l[childpos]?, l[childpos + 1]? with
    | none, _ => (pos, l)
    | some _, none => sinkToLeaf fuel childpos (swap l pos childpos)
    | some left, some right =>
      let childpos := if lt left right then childpos else childpos + 1
      sinkToLeaf fuel childpos (swap l pos childpos)

/-- `_siftup`. -/
def siftup (pos : ℕ) (l : List α) : List α :=
  let (leaf, l') := sinkToLeaf lt l.length pos l
  siftdown lt pos leaf leaf l'

def heappush (l : List α) (x : α) : List α := siftdown lt 0 l.length l.length (l ++ [x])

def heappop (l : List α) : Option (α × List α) :=
  match l with
  | [] => none
  | [x] => some (x, [])
  | x :: y :: rest =>
    some (x, siftup lt 0 ((y :: rest).getLast (by simp) :: (y :: rest).dropLast))

def heapify (l : List α) : List α :=
  (range (l.length / 2)).foldr (fun i l => siftup lt i l) l

section Perm

theorem swap_perm (l : List α) (i j : ℕ) : (swap l i j).Perm l := by
  unfold swap
  split
  next a b ha hb =>
    obtain ⟨hi, hai⟩ := List.getElem?_eq_some_iff.1 ha
    obtain ⟨hj, hbj⟩ := List.getElem?_eq_some_iff.1 hb
    rw [← hai, ← hbj]
    exact set_set_perm hi hj
  · exact Perm.refl l

theorem siftdown_perm (startpos fuel pos : ℕ) (l : List α) : (siftdown lt startpos fuel pos l).Perm l := by
  induction fuel generalizing pos l with
  | zero => exact Perm.refl l
  | succ fuel ih =>
    unfold siftdown
    dsimp only
    split
    · exact Perm.refl l
    split
    · split
      · exact (ih _ _).trans (swap_perm _ _ _)
      · exact Perm.refl l
    · exact Perm.refl l

theorem sinkToLeaf_perm (fuel pos : ℕ) (l : List α) : (sinkToLeaf lt fuel pos l).2.Perm l := by
  induction fuel generalizing pos l with
  | zero => exact Perm.refl l
  | succ fuel ih =>
    unfold sinkToLeaf
    dsimp only
    split
    · exact Perm.refl l
    · exact (ih _ _).trans (swap_perm _ _ _)
    · exact (ih _ _).trans (swap_perm _ _ _)

theorem siftup_perm (pos : ℕ) (l : List α) : (siftup lt pos l).Perm l :=
  (siftdown_perm lt pos _ _ _).trans (sinkToLeaf_perm lt _ _ _)

theorem heappush_perm (l : List α) (x : α) : (heappush lt l x).Perm (x :: l) :=
  (siftdown_perm lt 0 _ _ _).trans (perm_append_singleton _ _)

theorem heappop_perm {l : List α} {x : α} {rest : List α} (h : heappop lt l = some (x, rest)) : l.Perm (x :: rest) := by
  unfold heappop at h
  split at h
  · exact absurd h (by simp)
  · cases h
    exact Perm.refl _
  rename_i x y ys
  cases h
  refine Perm.cons x ?_
  have hlast : ((y :: ys).dropLast ++ [(y :: ys).getLast (by simp)]).Perm
      ((y :: ys).getLast (by simp) :: (y :: ys).dropLast) :=
    perm_append_singleton _ _
  rw [dropLast_append_getLast] at hlast
  exact hlast.trans (siftup_perm lt _ _).symm

theorem heappop_head {x y : α} {l rest : List α} (h : heappop lt (x :: l) = some (y, rest)) : y = x := by
  cases l with
  | nil | cons z zs => exact (mk.inj (some.inj h)).1.symm

theorem heapify_perm (l : List α) : (heapify lt l).Perm l := by
  unfold heapify
  generalize l.length / 2 = n
  induction range n with
  | nil => exact Perm.refl l
  | cons i is ih => exact (siftup_perm lt i _).trans ih

end Perm

end Heap
