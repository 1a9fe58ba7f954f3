import Mathlib.Data.List.Forall2

/-!
# Sequences of checks

A computation that may fail is a value of `Except ε`; one that runs a list of checks before it
returns succeeds exactly when every check passes. The lemmas below turn such a computation into
the conjunction of its checks, and are the only facts about `Except` the rest needs.
-/

namespace Checks

variable {ε α β : Type}

/-- A sequence succeeds when its first part does and the rest does on its result. -/
theorem bind_eq_ok {x : Except ε α} {f : α → Except ε β} {b : β} :
    (x >>= f) = .ok b ↔ ∃ a, x = .ok a ∧ f a = .ok b := by
  cases x <;> simp [bind, Except.bind]

/-- A function applied to a result. -/
theorem map_eq_ok {x : Except ε α} {f : α → β} {b : β} :
    x.map f = .ok b ↔ ∃ a, x = .ok a ∧ f a = b := by
  cases x <;> simp [Except.map]

/-- A sequence fails in its first step or in the rest. -/
theorem bind_eq_error {x : Except ε α} {f : α → Except ε β} {e : ε} :
    x >>= f = .error e ↔ x = .error e ∨ ∃ a, x = .ok a ∧ f a = .error e := by
  cases x <;> simp [Bind.bind, Except.bind]

/-- A function applied to a result does not fail. -/
theorem map_eq_error {x : Except ε α} {f : α → β} {e : ε} :
    x.map f = .error e ↔ x = .error e := by
  cases x <;> simp [Except.map]

/-- What comes after a step need only agree on what the step can return. -/
theorem bind_congr_ok {x : Except ε α} {f g : α → Except ε β} (h : ∀ a, x = .ok a → f a = g a) :
    (x >>= f) = x >>= g := by
  cases x with
  | error e => rfl
  | ok a => exact h a rfl

@[simp] theorem ok_bind (a : α) (f : α → Except ε β) : (Except.ok a >>= f) = f a := rfl

@[simp] theorem error_bind (e : ε) (f : α → Except ε β) :
    (Except.error e >>= f) = .error e := rfl

@[simp] theorem map_ok (f : α → β) (a : α) : (Except.ok a : Except ε α).map f = .ok (f a) := rfl

/-- `pure` returns its argument. -/
@[simp] theorem pure_eq_ok {a b : α} : (pure a : Except ε α) = .ok b ↔ a = b := by
  simp [pure, Except.pure]

/-- Fail with `e` when `p` holds. -/
def failIf (p : Prop) [Decidable p] (e : ε) : Except ε Unit :=
  if p then .error e else .ok ()

/-- A check passes when what it looks for is not there. -/
@[simp] theorem failIf_eq_ok {p : Prop} [Decidable p] {e : ε} {u : Unit} :
    failIf p e = .ok u ↔ ¬ p := by
  by_cases h : p <;> simp [failIf, h]

/-- And fails with its error when it is. -/
theorem failIf_eq_error {p : Prop} [Decidable p] {e e' : ε} :
    failIf p e = .error e' ↔ p ∧ e = e' := by
  unfold failIf
  split <;> simp_all

/-- Run the check `x` when `p` holds. -/
def checkWhen (p : Prop) [Decidable p] (x : Except ε Unit) : Except ε Unit :=
  if p then x else .ok ()

/-- A conditional check passes when it is not made or passes. -/
@[simp] theorem checkWhen_eq_ok {p : Prop} [Decidable p] {x : Except ε Unit} {u : Unit} :
    checkWhen p x = .ok u ↔ (p → x = .ok ()) := by
  by_cases h : p <;> simp [checkWhen, h]

/-- What a check returns carries nothing. -/
@[simp] theorem exists_unit {p : Unit → Prop} : (∃ u, p u) ↔ p () :=
  ⟨fun ⟨(), h⟩ => h, fun h => ⟨(), h⟩⟩

/-- A check of every element of a list passes when each does. -/
theorem forM_eq_ok {f : α → Except ε Unit} {xs : List α} {u : Unit} :
    xs.forM f = .ok u ↔ ∀ x ∈ xs, f x = .ok () := by
  induction xs with
  | nil => simp
  | cons x xs ih =>
    change (f x >>= fun _ => xs.forM f) = .ok u ↔ _
    rw [bind_eq_ok, List.forall_mem_cons, ih]
    exact ⟨fun ⟨(), h, h'⟩ => ⟨h, h'⟩, fun ⟨h, h'⟩ => ⟨(), h, h'⟩⟩

/-- A list is computed element by element. -/
theorem mapM_eq_ok {f : α → Except ε β} : ∀ {xs : List α} {ys : List β},
    xs.mapM f = .ok ys ↔ List.Forall₂ (fun x y => f x = .ok y) xs ys
  | [], ys => by rw [List.mapM_nil, pure_eq_ok, List.forall₂_nil_left_iff, eq_comm]
  | x :: xs, ys => by
    rw [List.mapM_cons, bind_eq_ok, List.forall₂_cons_left_iff]
    simp only [bind_eq_ok, pure_eq_ok, mapM_eq_ok]
    refine ⟨?_, ?_⟩
    · intro h
      obtain ⟨y, hy, ys, hys, rfl⟩ := h
      exact ⟨y, ys, hy, hys, rfl⟩
    · intro h
      obtain ⟨y, ys, hy, hys, rfl⟩ := h
      exact ⟨y, hy, ys, hys, rfl⟩

/-! ## Classes of errors -/

/-- The computation fails with an error of the class `P`. -/
def FailsWith (P : ε → Prop) (x : Except ε α) : Prop := ∃ e, x = .error e ∧ P e

variable {P : ε → Prop}

@[simp] theorem failsWith_ok {a : α} : ¬ FailsWith P (Except.ok a) := by
  intro h
  obtain ⟨e, h, -⟩ := h
  cases h

@[simp] theorem failsWith_error {e : ε} : FailsWith P (Except.error e : Except ε α) ↔ P e := by
  refine ⟨?_, ?_⟩
  · intro h
    obtain ⟨e', he, hP⟩ := h
    exact Except.error.inj he ▸ hP
  · intro h
    exact ⟨e, rfl, h⟩

/-- A sequence fails in its first part, or in the rest on what the first part returned. -/
theorem failsWith_bind {x : Except ε α} {f : α → Except ε β} :
    FailsWith P (x >>= f) ↔ FailsWith P x ∨ ∃ a, x = .ok a ∧ FailsWith P (f a) := by
  cases x with
  | error e => simp
  | ok a => simp

/-- Applying a function does not change how a computation fails. -/
theorem failsWith_map {x : Except ε α} {f : α → β} :
    FailsWith P (x.map f) ↔ FailsWith P x := by
  cases x with
  | error e => simp [Except.map]
  | ok a => simp

/-- How a check fails. -/
theorem failsWith_failIf {p : Prop} [Decidable p] {e : ε} :
    FailsWith P (failIf p e) ↔ p ∧ P e := by
  unfold failIf
  split <;> simp_all

/-- How a conditional check fails. -/
theorem failsWith_checkWhen {p : Prop} [Decidable p] {x : Except ε Unit} :
    FailsWith P (checkWhen p x) ↔ p ∧ FailsWith P x := by
  unfold checkWhen
  split <;> simp_all

end Checks
