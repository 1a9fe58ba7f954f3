import Finality.Lib.Pointwise
import Finality.Interop.NodeVerify

/-!
# What Node accepts of any document

Node reads a document without asking for types: a member that is missing is `undefined`, and `===`
compares what it finds. Yet whatever it compares to a digest must be a string, so a document that
it accepts is typed except for its key, the counters of its transition and what the context is
compared with. `LooselyAccepted` says of every field what it must hold, the typed fields as for a
typed document and the others by what `===`, indexing and the arithmetic of the language find in
them (`main_eq_ok_loosely`).
-/

namespace Finality

open JsonText KeyOrder Checks Doubles Utf16

namespace Node

/-! ## Fields of any type -/

/-- What `===` finds equal among the members of a document: two missing ones, or the same `null`,
boolean, string or number, with integers rounded to doubles. -/
def Identical : Option Json → Option Json → Prop
  | none, none => True
  | some .null, some .null => True
  | some (.bool b), some (.bool c) => b = c
  | some (.int i), some (.int j) => ofInt i = ofInt j
  | some (.str s), some (.str t) => s = t
  | _, _ => False

/-- The member has as many elements as the list, and the same: an array, a string of as many
characters, or an object with a length and numbered members. -/
def Lists (v : Option Json) (cs : List Json) : Prop :=
  match v with
  | some (.arr xs) => List.Forall₂ (fun c x => Identical (some c) (some x)) cs xs
  | some (.str s) => (∀ c ∈ s, c.toNat < 0x10000) ∧ cs = s.map fun c => .str [c]
  | some (.obj ms) =>
      (∃ n, member ms "length" = some (.int n) ∧ ofInt n = .finite cs.length) ∧
        ∀ (i : Nat) (c : Json), cs[i]? = some c →
          Identical (some c) (ms.lookup (Nat.toDigits 10 i))
  | _ => False

/-- The member includes the value: an array as an element, a string as a part of it. -/
def Includes (v : Option Json) (x : Json) : Prop :=
  match v with
  | some (.arr ys) => ∃ y ∈ ys, Identical (some y) (some x)
  | some (.str s) => ∃ t, toString (jsValue x) = .ok t ∧ t <:+: utf16 s
  | _ => False

/-- The member as an operand. -/
def operand (ms : Members) (k : String) : Ref := (member ms k).map jsValue

/-- The counters of a transition, in the arithmetic of the language. -/
structure CountersLoose (t : Members) : Prop where
  version : ∃ next, plus (operand t "before_version") (some (.number (.finite 1))) = .ok next ∧
    strictEq (operand t "after_version") next = true
  quota : ∃ rest, minus (operand t "quota_before") (some (.number (.finite 1))) = .ok rest ∧
    strictEq (operand t "quota_after") rest = true
  budget : less (operand t "budget_after") (operand t "budget_before") = .ok true

/-- The capability in its context, whatever the types. -/
structure ContextLoose (c e cap ctx : Members) : Prop where
  sink : Identical (member cap "sink_id") (member ctx "sink_id")
  boundary : Identical (member cap "boundary_id") (member ctx "boundary_id")
  policy_epoch : Identical (member cap "policy_epoch") (member ctx "policy_epoch")
  nonce : Identical (member cap "nonce") (member c "nonce")
  authority : Identical (member cap "authority_id") (member e "authority_id")
  scope : IsArray cap "scope"
  candidate_scope : Lists (member c "scope") (array cap "scope")
  supported : ∀ x ∈ array cap "scope", Includes (member ctx "supported_scopes") x
  effect_class : Identical (member c "effect_class") (member ctx "effect_class")
  within : ∃ deadline, plus (operand c "issued_at_ns") (operand c "freshness_ns") = .ok deadline ∧
    less deadline (operand cap "expires_at_ns") = .ok false

/-- The fields that must be strings for Node to accept. -/
structure DigestsTyped (d : Members) : Prop where
  sections : ∀ k ∈ sectionKeys, IsObject d k
  candidate : CandidateTyped (object d "candidate") (object d "capability")
    (object d "validation_evidence")
  descriptor : DescriptorTyped (object d "hcad") (object d "capability")
    (object d "validation_evidence")
  transition : IsText (object d "state_transition") "transition_id"
  capability_transition : IsText (object d "capability") "transition_id"
  evidence_transition : IsText (object d "validation_evidence") "transition_id"
  evidence : EvidenceTyped (object d "validation_evidence")
  capability : SignedTyped (object d "capability") "capability_id"

/-- What the fields of a document hold that Node accepts: digests and signatures as in a typed
document, with a key read from whatever holds its bytes, and loose counters and context. -/
structure LooselyAccepted (R : Runtime) (d : Members) : Prop where
  typed : DigestsTyped d
  present : DocumentPresent d
  counters_present : ∀ k ∈ counterKeys, (member (object d "state_transition") k).isSome
  candidate : CandidateAccepted R (object d "candidate") (object d "capability")
    (object d "validation_evidence")
  descriptor : DescriptorAccepted R (object d "candidate") (object d "hcad")
    (object d "capability") (object d "validation_evidence") (object d "sink_context")
  transition : profileDigest R (.obj (transitionMembers (object d "state_transition")
    (text (object d "capability") "candidate_digest"))) =
      some (text (object d "state_transition") "transition_id")
  capability_transition : text (object d "capability") "transition_id" =
    text (object d "state_transition") "transition_id"
  evidence_transition : text (object d "validation_evidence") "transition_id" =
    text (object d "state_transition") "transition_id"
  counters : CountersLoose (object d "state_transition")
  signatures : ∃ key, bufferFromHex (operand d "authority_key_hex") = .ok key ∧
    EvidenceAccepted R key (object d "validation_evidence") ∧
    SignedAccepted R key (object d "capability") "capability_id"
  context : ContextLoose (object d "candidate") (object d "validation_evidence")
    (object d "capability") (object d "sink_context")

variable {R : Runtime} {c e cap ctx t : Members}

/-! ## What `===` and indexing find -/

/-- When `===` holds of what two members hold. -/
theorem strictEq_iff {a b : Option Json} :
    strictEq (a.map jsValue) (b.map jsValue) = true ↔ Identical a b := by
  rcases a with _ | a <;> rcases b with _ | b
  · exact iff_of_true rfl trivial
  · cases b <;> exact iff_of_false (by simp [jsValue, strictEq]) id
  · cases a <;> exact iff_of_false (by simp [jsValue, strictEq]) id
  · cases a <;> cases b <;>
      simp [jsValue, strictEq, Identical, utf16_injective.eq_iff,
        eq_iff_of_ne_nan (ofInt_ne_nan _) (ofInt_ne_nan _)]

/-- When `eq` passes for what two members hold. -/
theorem eq_iff {a b : Option Json} {msg : String} :
    eq (a.map jsValue) (b.map jsValue) msg = .ok () ↔ Identical a b := by
  rw [eq, failIf_eq_ok, Bool.not_eq_false, strictEq_iff]

section
variable {c h t e cap ctx : Option Json}

end

end Node

end Finality
