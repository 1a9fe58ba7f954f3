import Mathlib.Data.List.Dedup
import Finality.Core.Models

/-!
# The core policy (`policy.py`)

`validate` collects a reason for every check that fails and allows the candidate when there is
none. Frozen sets are lists here: only membership is read.
-/

namespace Finality

/-- `Policy` -/
structure Policy where
  policy_epoch : Int
  allowed_purposes : List PyStr
  allowed_jurisdictions : List PyStr
  allowed_sinks : List PyStr
  allowed_boundaries : List PyStr
  allowed_effect_classes : List PyStr
  allowed_scopes : List PyStr
  revoked_sources : List PyStr
  required_runtime_evidence_digest : Option PyStr
  max_future_skew_ns : Int

/-- `if p: reasons.append(reason)` -/
def reasonIf (p : Prop) [Decidable p] (reason : String) : List PyStr :=
  if p then [py reason] else []

/-- No reason is given when the condition does not hold. -/
@[simp] theorem reasonIf_eq_nil {p : Prop} [Decidable p] {reason : String} :
    reasonIf p reason = [] ↔ ¬ p := by
  by_cases h : p <;> simp [reasonIf, h]

/-- `",".join(reasons)` -/
def joinReasons (reasons : List PyStr) : PyStr :=
  List.intercalate (py ",") reasons

/-- The reasons `Policy.validate` collects. -/
def Policy.reasons (p : Policy) (candidate : CandidateAct) (now_ns : Int) : List PyStr :=
  reasonIf (candidate.status ≠ .nonEffective) "candidate_not_non_effective"
  ++ reasonIf (candidate.policy_epoch ≠ p.policy_epoch) "policy_epoch_mismatch"
  ++ reasonIf (candidate.purpose ∉ p.allowed_purposes) "purpose_not_allowed"
  ++ reasonIf (candidate.jurisdiction ∉ p.allowed_jurisdictions) "jurisdiction_not_allowed"
  ++ reasonIf (candidate.sink_id ∉ p.allowed_sinks) "sink_not_allowed"
  ++ reasonIf (candidate.boundary_id ∉ p.allowed_boundaries) "boundary_not_allowed"
  ++ reasonIf (candidate.effect_class ∉ p.allowed_effect_classes) "effect_class_not_allowed"
  ++ reasonIf (candidate.scope = []) "empty_scope"
  ++ reasonIf (¬ ∀ s ∈ candidate.scope, s ∈ p.allowed_scopes) "scope_not_allowed"
  ++ reasonIf (candidate.scope.dedup.length ≠ candidate.scope.length) "duplicate_scope"
  ++ reasonIf (candidate.source ∈ p.revoked_sources) "source_revoked"
  ++ reasonIf (candidate.freshness_ns ≤ 0) "invalid_freshness"
  ++ reasonIf (now_ns < candidate.issued_at_ns - p.max_future_skew_ns) "candidate_from_future"
  ++ reasonIf (now_ns > candidate.issued_at_ns + candidate.freshness_ns) "candidate_stale"
  ++ (match p.required_runtime_evidence_digest with
      | none => []
      | some digest =>
          reasonIf (candidate.runtime_evidence_digest ≠ digest) "runtime_evidence_mismatch")

/-- `Policy.validate` -/
def Policy.validate (p : Policy) (candidate : CandidateAct) (now_ns : Int) : Bool × List PyStr :=
  ((p.reasons candidate now_ns).isEmpty, p.reasons candidate now_ns)

/-- The policy allows the candidate at the time. -/
def Policy.Allows (p : Policy) (c : CandidateAct) (now : Int) : Prop :=
  (p.validate c now).1 = true

/-- The policy allows when it gives no reason. -/
theorem Policy.allows_iff {p : Policy} {c : CandidateAct} {now : Int} :
    p.Allows c now ↔ p.reasons c now = [] := by
  simp [Policy.Allows, Policy.validate]

/-- What `validate` returns for a candidate it allows. -/
theorem Policy.Allows.validate {p : Policy} {c : CandidateAct} {now : Int} (h : p.Allows c now) :
    ∃ reasons, p.validate c now = (true, reasons) :=
  ⟨(p.validate c now).2, Prod.ext h rfl⟩

/-- **What the policy allows**: the conditions under which no reason is collected. -/
structure Policy.Admits (p : Policy) (c : CandidateAct) (now : Int) : Prop where
  status : c.status = .nonEffective
  policy_epoch : c.policy_epoch = p.policy_epoch
  purpose : c.purpose ∈ p.allowed_purposes
  jurisdiction : c.jurisdiction ∈ p.allowed_jurisdictions
  sink : c.sink_id ∈ p.allowed_sinks
  boundary : c.boundary_id ∈ p.allowed_boundaries
  effect_class : c.effect_class ∈ p.allowed_effect_classes
  scope_ne_nil : c.scope ≠ []
  scope : ∀ s ∈ c.scope, s ∈ p.allowed_scopes
  scope_nodup : c.scope.Nodup
  source : c.source ∉ p.revoked_sources
  freshness : 0 < c.freshness_ns
  not_early : c.issued_at_ns - p.max_future_skew_ns ≤ now
  not_late : now ≤ c.issued_at_ns + c.freshness_ns
  runtime_evidence : ∀ d ∈ p.required_runtime_evidence_digest, c.runtime_evidence_digest = d

/-- A list is as long as the set of its items when no item occurs twice. -/
theorem length_dedup_eq_iff {ss : List PyStr} : ss.dedup.length = ss.length ↔ ss.Nodup := by
  refine ⟨?_, ?_⟩
  · intro h
    rw [← (List.dedup_sublist ss).eq_of_length h]
    exact ss.nodup_dedup
  · intro h
    rw [h.dedup]

/-- **The policy allows what it admits.** -/
theorem Policy.allows_iff_admits {p : Policy} {c : CandidateAct} {now : Int} :
    p.Allows c now ↔ p.Admits c now := by
  have hruntime : (match p.required_runtime_evidence_digest with
      | none => []
      | some digest =>
          reasonIf (c.runtime_evidence_digest ≠ digest) "runtime_evidence_mismatch") = [] ↔
        ∀ d ∈ p.required_runtime_evidence_digest, c.runtime_evidence_digest = d := by
    cases p.required_runtime_evidence_digest <;> simp
  rw [Policy.allows_iff, Policy.reasons]
  simp only [List.append_eq_nil_iff, reasonIf_eq_nil, not_not, length_dedup_eq_iff, hruntime]
  refine ⟨?_, ?_⟩
  · intro h
    obtain ⟨⟨⟨⟨⟨⟨⟨⟨⟨⟨⟨⟨⟨⟨hstatus, hepoch⟩, hpurpose⟩, hjur⟩, hsink⟩, hboundary⟩, heffect⟩, hne⟩,
      hscope⟩, hnodup⟩, hsource⟩, hfresh⟩, hearly⟩, hlate⟩, hrt⟩ := h
    exact ⟨hstatus, hepoch, hpurpose, hjur, hsink, hboundary, heffect, hne, hscope, hnodup, hsource,
      by omega, by omega, by omega, hrt⟩
  · intro h
    obtain ⟨hstatus, hepoch, hpurpose, hjur, hsink, hboundary, heffect, hne, hscope, hnodup,
      hsource, hfresh, hearly, hlate, hrt⟩ := h
    exact ⟨⟨⟨⟨⟨⟨⟨⟨⟨⟨⟨⟨⟨⟨hstatus, hepoch⟩, hpurpose⟩, hjur⟩, hsink⟩, hboundary⟩, heffect⟩, hne⟩,
      hscope⟩, hnodup⟩, hsource⟩, by omega⟩, by omega⟩, by omega⟩, hrt⟩

/-- What the policy guarantees about a candidate it allows, as far as the sink relies on it. -/
theorem Policy.Allows.nonEffective {p : Policy} {c : CandidateAct} {now : Int}
    (h : p.Allows c now) : c.status = .nonEffective ∧ now ≤ c.issued_at_ns + c.freshness_ns := by
  have hadmits := Policy.allows_iff_admits.1 h
  exact ⟨hadmits.status, hadmits.not_late⟩

end Finality
