import Finality.Interop.GoCanonical
import Finality.Interop.NodeCanonical
import Finality.Core.Sample

/-!
# The three implementations agree

Python, Node and Go compute the same profile, and the profile of a value does not depend on the
order its objects list their members in. So on one value, with the members in whatever order each
language meets them, the three return the same bytes or all refuse it.
-/

namespace Finality

open JsonText Checks

variable {R : Runtime}

/-- The three outcomes for one value: the same bytes, or a refusal in each language. -/
def Agree {ε ε' ε'' : Type} (python : Except ε (List UInt8)) (node : Except ε' (List UInt8))
    (go : Except ε'' (List UInt8)) : Prop :=
  (∃ b, python = .ok b ∧ node = .ok b ∧ go = .ok b) ∨
    (∃ e, python = .error e) ∧ (∃ e, node = .error e) ∧ ∃ e, go = .error e

/-- A computation that returns what a specification says, and fails where it says nothing. -/
theorem error_of_spec_none {ε : Type} {x : Except ε (List UInt8)} {spec : Option (List UInt8)}
    (h : ∀ b, x = .ok b ↔ spec = some b) (hnone : spec = none) : ∃ e, x = .error e := by
  cases x with
  | error e => exact ⟨e, rfl⟩
  | ok b =>
    have hsome := (h b).1 rfl
    rw [hnone] at hsome
    cases hsome

/-- **Cross-language agreement**, for every value and every order of the members of each of its
objects in each of the languages. -/
theorem three_language_agreement {t python node go : Json} (hpython : Rearranged t python)
    (hnode : Rearranged t node) (hgo : Rearranged t go) :
    Agree (portableCanonicalBytes R (pyValue python))
      ((Node.canonical R (Node.jsValue node)).map Node.bufferFrom)
      (Go.canonical R (Go.goValue go)) := by
  have hspec : ∀ {w : Json}, Rearranged t w → profileBytes R w = profileBytes R t := fun h => by
    rw [profileBytes, profileBytes, portableForm_rearranged t h]
  have hp := fun b => @portableCanonicalBytes_pyValue R python b
  have hn := fun b => @Node.canonical_jsValue R node b
  have hg := fun b => @Go.canonical_goValue R go b
  rw [hspec hpython] at hp
  rw [hspec hnode] at hn
  rw [hspec hgo] at hg
  cases h : profileBytes R t with
  | some b => exact .inl ⟨b, (hp b).2 h, (hn b).2 h, (hg b).2 h⟩
  | none =>
    exact .inr ⟨error_of_spec_none hp h, error_of_spec_none hn h, error_of_spec_none hg h⟩

/-- A small value, with a key to normalise and its members in two orders. -/
def sampleTree (swapped : Bool) : Json :=
  let name := (['e', Char.ofNat 0x301], Json.arr [.int (-7), .null])
  let id := (['1'], Json.str ['"'])
  .obj (if swapped then [id, name] else [name, id])

/-- The sample tree with its members in the other order. -/
theorem sampleTree_rearranged (swapped : Bool) :
    Rearranged (sampleTree false) (sampleTree swapped) := by
  have hsame : RearrangedMembers
      [(['e', Char.ofNat 0x301], Json.arr [.int (-7), .null]), (['1'], Json.str ['"'])]
      [(['e', Char.ofNat 0x301], Json.arr [.int (-7), .null]), (['1'], Json.str ['"'])] := by
    simp [RearrangedMembers, Rearranged, RearrangedItems]
  cases swapped with
  | false => exact ⟨_, _, rfl, hsame, .refl _⟩
  | true => exact ⟨_, _, rfl, hsame, .swap _ _ _⟩

/-- The sample tree in Python, and in the other order in Node and Go. -/
theorem three_language_agreement_sample : ∃ b,
    portableCanonicalBytes sampleRuntime (pyValue (sampleTree false)) = .ok b ∧
    (Node.canonical sampleRuntime (Node.jsValue (sampleTree true))).map Node.bufferFrom = .ok b ∧
    Go.canonical sampleRuntime (Go.goValue (sampleTree true)) = .ok b := by
  have hagree := @three_language_agreement sampleRuntime _ _ _ _ (sampleTree_rearranged false)
    (sampleTree_rearranged true) (sampleTree_rearranged true)
  refine hagree.resolve_right fun ⟨⟨e, he⟩, _⟩ => ?_
  have hok := (@portableCanonicalBytes_pyValue sampleRuntime (sampleTree false) _).2 rfl
  rw [hok] at he
  cases he

end Finality
