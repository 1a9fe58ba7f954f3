import Finality.Canonical.Nfc
import Finality.Core.Sample

/-!
# The core policy and the NFC form of a candidate

No digest tells a candidate from its NFC form (`eqv_candidate_nf`). A policy in NFC does not tell
them apart either where it looks a string up in an allow list: what it finds there is in NFC. The
list of revoked sources is a deny list, and there a source in another spelling passes
(`policy_allows_nf_iff`).
-/

namespace Finality

variable {R : Runtime}

/-- The candidate with every string in it replaced by its NFC form. -/
def CandidateAct.nf (R : Runtime) (c : CandidateAct) : CandidateAct where
  act_id := nfStr R c.act_id
  act_class := nfStr R c.act_class
  effect_class := nfStr R c.effect_class
  source := nfStr R c.source
  destination := nfStr R c.destination
  purpose := nfStr R c.purpose
  jurisdiction := nfStr R c.jurisdiction
  policy_epoch := c.policy_epoch
  nonce := nfStr R c.nonce
  issued_at_ns := c.issued_at_ns
  freshness_ns := c.freshness_ns
  sink_id := nfStr R c.sink_id
  boundary_id := nfStr R c.boundary_id
  scope := c.scope.map (nfStr R)
  payload := nfVal R c.payload
  runtime_evidence_digest := nfStr R c.runtime_evidence_digest
  authority_context := c.authority_context.nf R
  status := c.status

/-! ## Digests -/

/-- A list of strings and the list of their NFC forms. -/
theorem forall₂_nfStr {ss : List PyStr} (h : ∀ s ∈ ss, hasSurrogate s = false) :
    List.Forall₂ (NfcEq R) ss (ss.map (nfStr R)) := by
  rw [List.forall₂_map_right_iff, List.forall₂_same]
  intro s hs
  exact nfcEq_nfStr (h s hs)

/-- **No digest tells a candidate from its NFC form.** -/
theorem eqv_candidate_nf {c : CandidateAct} (hc : Canon R c.asdict) :
    Eqv R c.asdict (c.nf R).asdict := by
  have hcc := candidateCanon_iff.1 hc
  refine eqv_of_candidateEqv hc ?_
  exact
    { act_id := nfcEq_nfStr hcc.act_id
      act_class := nfcEq_nfStr hcc.act_class
      effect_class := nfcEq_nfStr hcc.effect_class
      source := nfcEq_nfStr hcc.source
      destination := nfcEq_nfStr hcc.destination
      purpose := nfcEq_nfStr hcc.purpose
      jurisdiction := nfcEq_nfStr hcc.jurisdiction
      policy_epoch := rfl
      nonce := nfcEq_nfStr hcc.nonce
      issued_at_ns := rfl
      freshness_ns := rfl
      sink_id := nfcEq_nfStr hcc.sink_id
      boundary_id := nfcEq_nfStr hcc.boundary_id
      scope := forall₂_nfStr hcc.scope
      payload := eqv_nfVal hcc.payload
      runtime_evidence_digest := nfcEq_nfStr hcc.runtime_evidence_digest
      authority_context := eqv_nf hcc.authority_context
      status := rfl }

/-! ## The policy -/

/-- The strings of the policy's configuration. -/
def Policy.strings (p : Policy) : List PyStr :=
  p.allowed_purposes ++ p.allowed_jurisdictions ++ p.allowed_sinks ++ p.allowed_boundaries
  ++ p.allowed_effect_classes ++ p.allowed_scopes ++ p.revoked_sources
  ++ p.required_runtime_evidence_digest.toList

/-- The policy is configured in NFC. -/
def Policy.Nfc (R : Runtime) (p : Policy) : Prop := ∀ s ∈ p.strings, IsNfc R s

/-- **A policy in NFC** allows the NFC form of a candidate it allows, unless that form is the one
its source is revoked in. -/
theorem policy_allows_nf_iff {p : Policy} (hp : p.Nfc R) {c : CandidateAct} {now : Int}
    (h : p.Allows c now) :
    p.Allows (c.nf R) now ↔ nfStr R c.source ∉ p.revoked_sources := by
  rw [Policy.allows_iff_admits] at h ⊢
  -- what an allow list contains is in NFC
  have hlisted : ∀ s ∈ p.strings, nfStr R s = s := hp
  simp only [Policy.strings, List.mem_append, Option.mem_toList] at hlisted
  have hscope : c.scope.map (nfStr R) = c.scope := by
    refine (List.map_congr_left fun s hs => ?_).trans (List.map_id _)
    have hmem := h.scope s hs
    exact hlisted s (by tauto)
  refine ⟨?_, ?_⟩
  · intro hnf
    exact hnf.source
  · intro hsource
    exact
      { h with
        purpose := nfStr_mem (fun s hs => hlisted s (by tauto)) h.purpose
        jurisdiction := nfStr_mem (fun s hs => hlisted s (by tauto)) h.jurisdiction
        sink := nfStr_mem (fun s hs => hlisted s (by tauto)) h.sink
        boundary := nfStr_mem (fun s hs => hlisted s (by tauto)) h.boundary
        effect_class := nfStr_mem (fun s hs => hlisted s (by tauto)) h.effect_class
        scope_ne_nil := by
          rw [CandidateAct.nf, hscope]
          exact h.scope_ne_nil
        scope := by
          rw [CandidateAct.nf, hscope]
          exact h.scope
        scope_nodup := by
          rw [CandidateAct.nf, hscope]
          exact h.scope_nodup
        source := hsource
        runtime_evidence := by
          intro d hd
          have heq := h.runtime_evidence d hd
          rw [CandidateAct.nf, heq]
          exact hlisted d (.inr hd) }

end Finality
