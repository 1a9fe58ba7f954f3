import Mathlib.Data.Rat.Defs
import Finality.Lib.Checks
import Finality.Python.Value

/-!
# Membership in a frozenset

`value in allowed` first takes the hash of the value, which lists and dictionaries do not have, and
then looks for a member that equals it. Equality of numbers does not look at their types:
`True == 1 == 1.0`. How an instance of a class of its own is hashed and compared is up to the class
and a parameter here (`PyClasses`).
-/

namespace Finality

open Checks

/-- What Python asks the class of an object: whether `hash` raises, and whether two objects are
equal. -/
structure PyClasses where
  hash : PyVal → Except PyErr Unit
  eq : PyVal → PyVal → Bool

/-- The `TypeError` of `hash` for a type without one. -/
def unhashable (typeName : String) : PyErr :=
  .typeError (py ("unhashable type: '" ++ typeName ++ "'"))

/-- The number in a boolean, an integer or a finite float. -/
def asNumber : PyVal → Option Rat
  | .bool b => some (if b then 1 else 0)
  | .int i => some i
  | .float value => value
  | _ => none

/-- An object that is compared as its class says, or a float that is not finite. -/
def isObject : PyVal → Bool
  | .dataclass _ | .other _ | .float none => true
  | _ => false

section
variable (C : PyClasses)

mutual

/-- `hash(value)`, as far as whether it raises. -/
def hashValue : PyVal → Except PyErr Unit
  | .list _ => .error (unhashable "list")
  | .dict _ => .error (unhashable "dict")
  | .tuple items => hashItems items
  | .dataclass fields => C.hash (.dataclass fields)
  | .other o => C.hash (.other o)
  | .none | .bool _ | .int _ | .float _ | .str _ | .bytes _ => .ok ()

/-- `hash` over the items of a tuple. -/
def hashItems : List PyVal → Except PyErr Unit
  | [] => .ok ()
  | v :: vs => do
      hashValue v
      hashItems vs

end

mutual

/-- `v == w`, for values with a hash. -/
def pyEq : PyVal → PyVal → Bool
  | .tuple vs, .tuple ws => pyEqItems vs ws
  | .none, .none => true
  | .str s, .str t => s = t
  | .bytes a, .bytes b => a = b
  | v, w =>
      if isObject v || isObject w then C.eq v w
      else match asNumber v, asNumber w with
        | some x, some y => x = y
        | _, _ => false

/-- `==` item by item. -/
def pyEqItems : List PyVal → List PyVal → Bool
  | [], [] => true
  | v :: vs, w :: ws => pyEq v w && pyEqItems vs ws
  | _, _ => false

end

/-- The value has a hash. -/
def Hashable (v : PyVal) : Prop := hashValue C v = .ok ()

end

/-- A `frozenset`: members that have a hash. -/
structure PyFrozenSet (C : PyClasses) where
  members : List PyVal
  hashable : ∀ m ∈ members, Hashable C m

/-- `value in s` -/
def PyFrozenSet.contains {C : PyClasses} (s : PyFrozenSet C) (value : PyVal) : Except PyErr Bool :=
  (hashValue C value).map fun _ => s.members.any fun m => pyEq C m value

variable {C : PyClasses} {s : PyFrozenSet C} {v : PyVal}

/-- Membership raises where the value has no hash. -/
theorem PyFrozenSet.exists_contains : (∃ b, s.contains v = .ok b) ↔ Hashable C v := by
  simp only [contains, map_eq_ok, Hashable]
  refine ⟨?_, ?_⟩
  · intro h
    obtain ⟨b, u, hu, -⟩ := h
    exact hu
  · intro h
    exact ⟨_, (), h, rfl⟩

/-- A value is in the set when it has a hash and a member equals it. -/
theorem PyFrozenSet.contains_iff :
    s.contains v = .ok true ↔ Hashable C v ∧ ∃ m ∈ s.members, pyEq C m v = true := by
  simp only [contains, map_eq_ok, Hashable, List.any_eq_true]
  refine ⟨?_, ?_⟩
  · intro h
    obtain ⟨u, hu, hany⟩ := h
    exact ⟨hu, hany⟩
  · intro h
    exact ⟨(), h.1, h.2⟩

theorem hashItems_ok {vs : List PyVal} : hashItems C vs = .ok () ↔ ∀ v ∈ vs, Hashable C v := by
  induction vs with
  | nil => simp [hashItems]
  | cons v vs ih =>
    rw [hashItems, bind_eq_ok, exists_unit, ih, List.forall_mem_cons, Hashable]

/-- A list has no hash. -/
theorem not_hashable_list {vs : List PyVal} : ¬ Hashable C (.list vs) := by
  intro h
  rw [Hashable, hashValue] at h
  cases h

/-- A dictionary has no hash. -/
theorem not_hashable_dict {es : List (PyKey × PyVal)} : ¬ Hashable C (.dict es) := by
  intro h
  rw [Hashable, hashValue] at h
  cases h

/-- A tuple has a hash when its items have. -/
theorem hashable_tuple {vs : List PyVal} : Hashable C (.tuple vs) ↔ ∀ v ∈ vs, Hashable C v := by
  rw [Hashable, hashValue, hashItems_ok]

end Finality
