import Mathlib.Data.List.Forall2

/-!
# Lists related item by item

`List.Forall₂` under the operations of a table that is read at an index, overwritten at an index,
and grows at its end.
-/

namespace Pointwise

section
variable {α β : Type _} {r : α → β → Prop} {xs : List α} {ys : List β} {x : α} {y : β} {i : Nat}

/-- An item on the left is related to the item at its place on the right. -/
theorem exists_getElem? (h : List.Forall₂ r xs ys) (hi : xs[i]? = some x) :
    ∃ y, ys[i]? = some y ∧ r x y := by
  induction h generalizing i with
  | nil => cases hi
  | @cons x' y' _ _ hxy _ ih =>
    cases i with
    | zero =>
      obtain rfl : x' = x := Option.some.inj hi
      exact ⟨y', rfl, hxy⟩
    | succ i => exact ih hi

/-- Related items are written to one place of both. -/
theorem set (h : List.Forall₂ r xs ys) (hxy : r x y) (i : Nat) :
    List.Forall₂ r (xs.set i x) (ys.set i y) := by
  induction h generalizing i with
  | nil => exact .nil
  | cons hxy' hrest ih =>
    cases i with
    | zero => exact .cons hxy hrest
    | succ i => exact .cons hxy' (ih i)

/-- An item is written on the left that is related to the one on the right. -/
theorem set_left (h : List.Forall₂ r xs ys) (hi : ys[i]? = some y) (hxy : r x y) :
    List.Forall₂ r (xs.set i x) ys := by
  induction h generalizing i with
  | nil => exact .nil
  | @cons _ y' _ _ hxy' hrest ih =>
    cases i with
    | zero =>
      obtain rfl : y' = y := Option.some.inj hi
      exact .cons hxy hrest
    | succ i => exact .cons hxy' (ih hi)

/-- Related items at the end of both. -/
theorem concat (h : List.Forall₂ r xs ys) (hxy : r x y) :
    List.Forall₂ r (xs ++ [x]) (ys ++ [y]) :=
  List.rel_append h (.cons hxy .nil)

/-- A property of the items on the right is asked for along with the relation. -/
theorem and_right {p : β → Prop} : ∀ {xs : List α} {ys : List β},
    List.Forall₂ (fun x y => r x y ∧ p y) xs ys ↔ List.Forall₂ r xs ys ∧ ∀ y ∈ ys, p y
  | [], ys => by
    rw [List.forall₂_nil_left_iff, List.forall₂_nil_left_iff]
    refine ⟨?_, ?_⟩
    · rintro rfl
      simp
    · exact And.left
  | _ :: _, [] => by simp
  | x :: xs, y :: ys => by
    rw [List.forall₂_cons, List.forall₂_cons, and_right, List.forall_mem_cons]
    tauto

end

end Pointwise
