import Mathlib

/-!
# Stateful programs that may raise

`EStateM ε σ` runs a program over a state and keeps the state when the program raises, as an
exception in an imperative language does. `wp m Q R s` is the weakest precondition: from `s`,
`m` returns into `Q` or raises into `R`.
-/

namespace Raise

open List

variable {ε σ α β : Type} {c : Prop} {e : ε} {xs : List α} {a : α} {g : α → EStateM ε σ PUnit}

/-- From `s`, the program returns into `Q` or raises into `R`. -/
def wp (m : EStateM ε σ α) (Q : α → σ → Prop) (R : ε → σ → Prop) (s : σ) : Prop :=
  match m s with
  | .ok a s' => Q a s'
  | .error e s' => R e s'

/-- No condition on a program that raises. -/
def any : ε → σ → Prop := fun _ _ => True

/-- The program raises nothing. -/
def never : ε → σ → Prop := fun _ _ => False

/-- Raise `e` unless `c` holds. -/
def check (c : Prop) [Decidable c] (e : ε) : EStateM ε σ Unit := if c then pure () else throw e

/-- Run the program only if `c` holds. -/
def runIf (c : Prop) [Decidable c] (m : EStateM ε σ Unit) : EStateM ε σ Unit :=
  if c then m else pure ()

/-- Run a program on the part of the state that `view` reads and `put` writes back. -/
def zoom {τ : Type} (view : σ → τ) (put : τ → σ → σ) (m : EStateM ε τ α) : EStateM ε σ α := fun s =>
  match m (view s) with
  | .ok a t => .ok a (put t s)
  | .error e t => .error e (put t s)

section Rules

variable {m : EStateM ε σ α} {f : α → EStateM ε σ β} {Q Q' : α → σ → Prop} {T : β → σ → Prop}
  {R R' : ε → σ → Prop} {s s' : σ}

section

variable (h : wp m Q R s) (hQ : ∀ a s', Q a s' → Q' a s')

include h hQ

theorem wp_mono (hR : ∀ e s', R e s' → R' e s') : wp m Q' R' s := by
  unfold wp at h ⊢
  generalize m s = r at h ⊢
  cases r with
  | ok a s' => exact hQ a s' h
  | error e s' => exact hR e s' h

/-- What is said about errors stays. -/
theorem wp_imp : wp m Q' R s := wp_mono h hQ fun _ _ h => h

/-- Nothing is said about errors. -/
theorem wp_any : wp m Q' any s :=
  wp_mono h hQ fun _ _ _ => trivial

end

theorem wp_trivial : wp m (fun _ _ => True) (fun _ _ => True) s := by
  unfold wp; split <;> trivial

theorem wp_and (h : wp m Q R s) (h' : wp m Q' R' s) :
    wp m (fun a s' => Q a s' ∧ Q' a s') (fun e s' => R e s' ∧ R' e s') s := by
  unfold wp at h h' ⊢
  generalize m s = r at h h' ⊢
  cases r <;> exact ⟨h, h'⟩

theorem wp_ok (h : wp m Q R s) (hm : m s = .ok a s') : Q a s' := by
  unfold wp at h; rw [hm] at h; exact h

theorem wp_error (h : wp m Q R s) (hm : m s = .error e s') : R e s' := by
  unfold wp at h; rw [hm] at h; exact h

@[simp] theorem wp_pure : wp (pure a : EStateM ε σ α) Q R s ↔ Q a s := Iff.rfl

@[simp] theorem wp_throw : wp (throw e : EStateM ε σ α) Q R s ↔ R e s := Iff.rfl

@[simp] theorem wp_get {Q : σ → σ → Prop} : wp (get : EStateM ε σ σ) Q R s ↔ Q s s := Iff.rfl

@[simp] theorem wp_set {Q : PUnit → σ → Prop} : wp (set s' : EStateM ε σ PUnit) Q R s ↔ Q ⟨⟩ s' := Iff.rfl

@[simp] theorem wp_modify {g : σ → σ} {Q : PUnit → σ → Prop} :
    wp (modify g : EStateM ε σ PUnit) Q R s ↔ Q ⟨⟩ (g s) := Iff.rfl

theorem wp_check [Decidable c] {Q : Unit → σ → Prop} : wp (check c e) Q R s ↔ (c → Q () s) ∧ (¬ c → R e s) := by
  unfold check
  split <;> simp [*]

theorem wp_runIf [Decidable c] {m : EStateM ε σ Unit} {Q : Unit → σ → Prop} :
    wp (runIf c m) Q R s ↔ (c → wp m Q R s) ∧ (¬ c → Q () s) := by
  unfold runIf
  split <;> simp [*]

theorem wp_zoom {τ : Type} {view : σ → τ} {put : τ → σ → σ} {m : EStateM ε τ α} : wp (zoom view put m) Q R s ↔
      wp m (fun a t => Q a (put t s)) (fun e t => R e (put t s)) (view s) := by
  unfold wp zoom
  cases m (view s) <;> exact Iff.rfl

theorem bind_apply : (m >>= f) s = match m s with
    | .ok a s' => f a s' | .error e s' => .error e s' := by
  show EStateM.bind m f s = _
  unfold EStateM.bind
  cases m s <;> rfl

theorem wp_bind : wp (m >>= f) T R s ↔ wp m (fun a => wp (f a) T R) R s := by
  unfold wp
  rw [bind_apply]
  cases m s <;> exact Iff.rfl

theorem wp_get_bind {f : σ → EStateM ε σ β} : wp (get >>= f) T R s ↔ wp (f s) T R s := wp_bind

/-- Where nothing is said about errors, what follows a check may rely on it. -/
theorem wp_check_bind [Decidable c] {k : Unit → EStateM ε σ β} (h : c → wp (k ()) T any s) :
    wp (check c e >>= k) T any s := wp_bind.2 (wp_check.2 ⟨h, fun _ => trivial⟩)

/-- The loop rule: `I rest` holds whenever `rest` is what the loop has still to visit. -/
theorem wp_forM (I : List α → σ → Prop)
    (hstep : ∀ x rest s, I (x :: rest) s → wp (g x) (fun _ => I rest) R s) (h : I xs s) :
    wp (forM xs g) (fun _ => I []) R s := by
  induction xs generalizing s with
  | nil => exact h
  | cons x xs ih =>
    rw [forM_cons, wp_bind]
    exact wp_mono (hstep x xs s h) (fun _ _ h' => ih h') (fun _ _ h' => h')

/-- The loop rule with an accumulator. -/
theorem wp_foldlM {g : β → α → EStateM ε σ β} {b : β} (I : List α → β → σ → Prop)
    (hstep : ∀ x rest b s, I (x :: rest) b s → wp (g b x) (fun b' => I rest b') R s)
    (h : I xs b s) : wp (xs.foldlM g b) (fun b' => I [] b') R s := by
  induction xs generalizing s b with
  | nil => exact h
  | cons x xs ih =>
    rw [foldlM_cons, wp_bind]
    exact wp_mono (hstep x xs b s h) (fun _ _ h' => ih h') (fun _ _ h' => h')

end Rules

/-! ## Invariants -/

/-- The program leaves `I` true, whether it returns or raises. -/
def Keeps (I : σ → Prop) (m : EStateM ε σ α) : Prop := ∀ s, I s → wp m (fun _ => I) (fun _ => I) s

section Keeps

variable {I : σ → Prop} {m : EStateM ε σ α} {f : α → EStateM ε σ β}

theorem keeps_pure : Keeps I (pure a : EStateM ε σ α) := fun _ h => h

theorem keeps_throw : Keeps I (throw e : EStateM ε σ α) := fun _ h => h

theorem keeps_modify {g : σ → σ} (h : ∀ s, I s → I (g s)) : Keeps I (modify g : EStateM ε σ PUnit) := h

theorem keeps_check [Decidable c] : Keeps I (check c e : EStateM ε σ Unit) :=
  fun _ h => wp_check.2 ⟨fun _ => h, fun _ => h⟩

theorem keeps_runIf [Decidable c] {m : EStateM ε σ Unit} (hm : c → Keeps I m) :
    Keeps I (runIf c m) := fun _ h => wp_runIf.2 ⟨fun hc => hm hc _ h, fun _ => h⟩

theorem keeps_bind (hm : Keeps I m) (hf : ∀ a, Keeps I (f a)) : Keeps I (m >>= f) := by
  intro s hs
  rw [wp_bind]
  exact wp_mono (hm s hs) (fun a s' h => hf a s' h) (fun _ _ h => h)

theorem keeps_get : Keeps I (get : EStateM ε σ σ) := fun _ h => h

theorem keeps_forM (h : ∀ x ∈ xs, Keeps I (g x)) : Keeps I (forM xs g) := by
  intro s hs
  induction xs generalizing s with
  | nil => exact hs
  | cons x xs ih =>
    rw [forM_cons, wp_bind]
    refine wp_mono (h x mem_cons_self s hs) (fun _ s' h' => ?_) (fun _ _ h' => h')
    exact ih (fun y hy => h y (mem_cons_of_mem _ hy)) s' h'

end Keeps

/-! ## What a program may raise -/

/-- Whatever the program raises satisfies `E`. -/
def Raises (E : ε → Prop) (m : EStateM ε σ α) : Prop :=
  ∀ s, wp m (fun _ _ => True) (fun e _ => E e) s

section Raises

variable {E : ε → Prop} {m : EStateM ε σ α} {f : α → EStateM ε σ β}

theorem raises_pure : Raises E (pure a : EStateM ε σ α) := fun _ => trivial

theorem raises_get : Raises E (get : EStateM ε σ σ) := fun _ => trivial

theorem raises_modify {g : σ → σ} : Raises E (modify g : EStateM ε σ PUnit) := fun _ => trivial

theorem raises_check [Decidable c] (he : E e) : Raises E (check c e : EStateM ε σ Unit) := fun _ =>
  wp_check.2 ⟨fun _ => trivial, fun _ => he⟩

theorem raises_runIf [Decidable c] {m : EStateM ε σ Unit} (hm : Raises E m) :
    Raises E (runIf c m) := fun s => wp_runIf.2 ⟨fun _ => hm s, fun _ => trivial⟩

theorem raises_bind (hm : Raises E m) (hf : ∀ a, Raises E (f a)) : Raises E (m >>= f) := by
  intro s
  rw [wp_bind]
  exact wp_mono (hm s) (fun a s' _ => hf a s') (fun _ _ h => h)

theorem raises_forM (h : ∀ x ∈ xs, Raises E (g x)) : Raises E (forM xs g) := by
  induction xs with
  | nil => exact raises_pure
  | cons x xs ih =>
    rw [forM_cons]
    exact raises_bind (h x mem_cons_self) fun _ => ih fun y hy => h y (mem_cons_of_mem _ hy)

end Raises

/-- A result that is there. -/
theorem ok_of_toOption {x : Except ε α} (h : x.toOption = some a) : x = .ok a := by
  cases x with
  | error e => exact absurd h (by simp [Except.toOption])
  | ok b => exact congrArg Except.ok (Option.some.inj h)

end Raise
