import Mathlib

/-!
# Bisection

`bisectLeft key xs x` halves the interval of indices until it is empty, and returns its lower end.

* `key_lt_of_lt_bisectLeft`: in a list that has the keys below `x` first, everything before the returned
  index has such a key.
-/

variable {α : Type}

/-- Every round leaves less than the interval of the round before, so `hi - lo` rounds are enough. -/
def bisectLoop (key : α → ℕ) (xs : List α) (x : ℕ) : ℕ → ℕ → ℕ → ℕ
  | 0, lo, _ => lo
  | fuel + 1, lo, hi =>
    if lo < hi then
      match xs[(lo + hi) / 2]? with
      | none => lo
      | some a =>
        if key a < x then bisectLoop key xs x fuel ((lo + hi) / 2 + 1) hi
        else bisectLoop key xs x fuel lo ((lo + hi) / 2)
    else lo

def bisectLeft (key : α → ℕ) (xs : List α) (x : ℕ) : ℕ := bisectLoop key xs x xs.length 0 xs.length

variable {key : α → ℕ}

theorem key_lt_of_lt_bisectLeft {xs : List α} {x : ℕ}
    (hparted : xs.Pairwise fun a b => key b < x → key a < x) {i : ℕ} {a : α} (ha : xs[i]? = some a)
    (hi : i < bisectLeft key xs x) : key a < x := by
  suffices h : ∀ fuel lo hi', (∀ j < lo, ∀ b, xs[j]? = some b → key b < x) →
      ∀ j < bisectLoop key xs x fuel lo hi', ∀ b, xs[j]? = some b → key b < x from
    h xs.length 0 xs.length (fun j hj => absurd hj (Nat.not_lt_zero j)) i hi a ha
  intro fuel
  induction fuel with
  | zero => exact fun _ _ hlow => hlow
  | succ fuel ih =>
    intro lo hi' hlow
    unfold bisectLoop
    split
    · split
      · exact hlow
      next m hm =>
        split
        next hlt =>
          refine ih _ _ fun j hj b hb => ?_
          rcases Nat.eq_or_lt_of_le (Nat.lt_succ_iff.1 hj) with rfl | hj
          · exact Option.some.inj (hb.symm.trans hm) ▸ hlt
          · obtain ⟨hj', rfl⟩ := List.getElem?_eq_some_iff.1 hb
            obtain ⟨hm', rfl⟩ := List.getElem?_eq_some_iff.1 hm
            exact List.pairwise_iff_getElem.1 hparted j _ hj' hm' hj hlt
        · exact ih _ _ hlow
    · exact hlow
