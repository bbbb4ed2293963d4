import Mathlib

/-!
# Searching for a tag in a text that grows

`find` is the first place of a tag, `overlap` the longest piece of the tag at the end of the text. The text before
`settled` is the part that no tag can reach any more, however the text goes on: it only grows with the text.
-/

namespace Search

open List Nat

variable {α : Type} [DecidableEq α]

/-- The tag stands at a position. -/
def At (tag text : List α) (i : ℕ) : Prop := tag <+: text.drop i

instance (tag text : List α) (i : ℕ) : Decidable (At tag text i) := inferInstanceAs (Decidable (_ <+: _))

/-- The first position of the tag at or after `start`. -/
def find (tag text : List α) (start : ℕ) : Option ℕ :=
  (range' start (text.length + 1 - start)).find? fun i => decide (At tag text i)

section

variable (tag text : List α)

/-- The length of the longest proper prefix of the tag that the text ends with. -/
def overlap : ℕ :=
  ((range' 1 (min (tag.length - 1) text.length)).reverse.find? fun k => decide (tag.take k <:+ text)).getD 0

/-- What stands before this position stays before every place of the tag. -/
def settled : ℕ :=
  match find tag text 0 with
  | some i => i
  | none => text.length - overlap tag text

/-- The tag stands at the position, or may do so when the text goes on. -/
def MayStart (i : ℕ) : Prop := text.drop i <+: tag ∨ At tag text i

end

variable {tag text text' : List α} {i k s : ℕ}

omit [DecidableEq α] in
theorem At.bound (h : At tag text i) (hne : tag ≠ []) : i + tag.length ≤ text.length := by
  have hlen := h.length_le
  have hpos := length_pos_of_ne_nil hne
  rw [length_drop] at hlen
  omega

omit [DecidableEq α] in
theorem At.restrict (h : At tag text' i) (hp : text <+: text') (hi : i + tag.length ≤ text.length) : At tag text i := by
  refine prefix_of_prefix_length_le h (hp.drop i) ?_
  rw [length_drop]
  omega

theorem find_eq_some (hne : tag ≠ []) :
    find tag text s = some i ↔ s ≤ i ∧ At tag text i ∧ ∀ j, s ≤ j → j < i → ¬ At tag text j := by
  unfold find
  rw [find?_range'_eq_some]
  simp only [decide_eq_true_eq, mem_range'_1, Bool.not_eq_true', decide_eq_false_iff_not]
  constructor
  · rintro ⟨hat, ⟨hs, -⟩, hmin⟩
    exact ⟨hs, hat, hmin⟩
  · rintro ⟨hs, hat, hmin⟩
    have := hat.bound hne
    exact ⟨hat, ⟨hs, by omega⟩, hmin⟩

theorem find_eq_none (hne : tag ≠ []) : find tag text s = none ↔ ∀ j, s ≤ j → ¬ At tag text j := by
  constructor
  · intro h j hs hat
    have := hat.bound hne
    unfold find at h
    rw [find?_eq_none] at h
    exact h j (mem_range'_1.2 ⟨hs, by omega⟩) (decide_eq_true hat)
  intro h
  cases hf : find tag text s with
  | none => rfl
  | some i =>
    obtain ⟨hs, hat, -⟩ := (find_eq_some hne).1 hf
    exact absurd hat (h i hs)

/-- Where a tag is found, it is still found when the text goes on. -/
theorem find_mono (hne : tag ≠ []) (hp : text <+: text') (h : find tag text s = some i) :
    find tag text' s = some i := by
  obtain ⟨hs, hat, hmin⟩ := (find_eq_some hne).1 h
  refine (find_eq_some hne).2 ⟨hs, hat.trans (hp.drop i), fun j hj hlt hat' => ?_⟩
  have := hat.bound hne
  exact hmin j hj hlt (hat'.restrict hp (by omega))

theorem overlap_suffix (h : overlap tag text = k) (hk : 0 < k) : k < tag.length ∧ k ≤ text.length ∧ tag.take k <:+ text := by
  unfold overlap at h
  cases hf : (range' 1 (min (tag.length - 1) text.length)).reverse.find? fun k => decide (tag.take k <:+ text) with
  | none =>
    rw [hf] at h
    exact absurd h hk.ne
  | some k' =>
    rw [hf] at h
    obtain rfl : k' = k := h
    have hmem := mem_of_find?_eq_some hf
    rw [mem_reverse, mem_range'_1] at hmem
    exact ⟨by omega, by omega, by simpa using find?_some hf⟩

theorem overlap_le : overlap tag text ≤ text.length := by
  rcases Nat.eq_zero_or_pos (overlap tag text) with hzero | hpos
  · omega
  · exact (overlap_suffix rfl hpos).2.1

theorem le_overlap (hk : k < tag.length) (hs : tag.take k <:+ text) : k ≤ overlap tag text := by
  have hlen := hs.length_le
  rw [length_take] at hlen
  by_contra hlt
  have hmem : k ∈ range' 1 (min (tag.length - 1) text.length) := mem_range'_1.2 (by omega)
  unfold overlap at hlt
  cases hf : (range' 1 (min (tag.length - 1) text.length)).reverse.find? fun k => decide (tag.take k <:+ text) with
  | none =>
    rw [find?_eq_none] at hf
    exact hf k (mem_reverse.2 hmem) (decide_eq_true hs)
  | some k' =>
    -- the search goes down, so that `k'` is the longest
    rw [hf] at hlt
    have hlt' : k' < k := not_le.1 hlt
    obtain ⟨-, before, after, hsplit, hnot⟩ := find?_eq_some_iff_append.1 hf
    have hsorted : (before ++ k' :: after).Pairwise (· > ·) := by
      rw [← hsplit, pairwise_reverse]
      exact pairwise_lt_range'
    have hk' : k ∈ before ++ k' :: after := hsplit ▸ mem_reverse.2 hmem
    rcases mem_append.1 hk' with hin | hin
    · have := hnot k hin
      rw [decide_eq_true hs] at this
      cases this
    rcases mem_cons.1 hin with rfl | hin
    · omega
    · have := (pairwise_cons.1 (pairwise_append.1 hsorted).2.1).1 k hin
      omega

theorem settled_le : settled tag text ≤ text.length := by
  unfold settled
  split
  next i hf =>
    have hmem := mem_of_find?_eq_some hf
    rw [mem_range'_1] at hmem
    omega
  · omega

variable (hne : tag ≠ [])

include hne

theorem mayStart_settled : MayStart tag text (settled tag text) := by
  unfold settled
  split
  next i hf => exact .inr ((find_eq_some hne).1 hf).2.1
  rcases Nat.eq_zero_or_pos (overlap tag text) with hzero | hpos
  · rw [hzero]
    exact .inl (by simp)
  obtain ⟨hlt, -, hsuffix⟩ := overlap_suffix rfl hpos
  left
  have hdrop := suffix_iff_eq_drop.1 hsuffix
  rw [length_take, min_eq_left hlt.le] at hdrop
  rw [← hdrop]
  exact take_prefix _ _

theorem settled_le_of_mayStart (h : MayStart tag text i) : settled tag text ≤ i := by
  unfold settled
  split
  next m hf =>
    obtain ⟨-, hat, hmin⟩ := (find_eq_some hne).1 hf
    rcases h with hpart | hat'
    · -- a tag that is cut off by the end of the text starts behind a whole one
      have hm := hat.bound hne
      have hlen := hpart.length_le
      rw [length_drop] at hlen
      omega
    · by_contra hlt
      exact hmin i (zero_le i) (not_le.1 hlt) hat'
  next hf =>
    have hnone := (find_eq_none hne).1 hf
    rcases h with hpart | hat
    · by_contra hlt
      have hlen := hpart.length_le
      have htake := prefix_iff_eq_take.1 hpart
      rw [length_drop] at hlen htake
      rcases lt_or_ge (text.length - i) tag.length with hshort | hlong
      · have := le_overlap hshort (htake ▸ drop_suffix i text)
        omega
      · rw [take_of_length_le hlong] at htake
        exact hnone i (zero_le i) (htake ▸ prefix_refl tag)
    · exact absurd hat (hnone i (zero_le i))

theorem settled_mono (hp : text <+: text') : settled tag text ≤ settled tag text' := by
  have hstart : MayStart tag text' (settled tag text') := mayStart_settled hne
  refine settled_le_of_mayStart hne ?_
  rcases hstart with hpart | hat
  · exact .inl ((hp.drop _).trans hpart)
  · exact prefix_or_prefix_of_prefix (hp.drop _) hat

/-- All of the text is settled exactly if it has no tag and does not end with a piece of one. -/
theorem settled_eq_length : settled tag text = text.length ↔ find tag text 0 = none ∧ overlap tag text = 0 := by
  unfold settled
  cases hf : find tag text 0 with
  | some i =>
    have := ((find_eq_some hne).1 hf).2.1.bound hne
    have := length_pos_of_ne_nil hne
    exact iff_of_false (by dsimp only; omega) (by simp)
  | none =>
    have hle : overlap tag text ≤ text.length := overlap_le
    simp only [true_and]
    omega

end Search
