import Finality.Sovereignty.Declared

/-!
# Tighter configurations

One configuration tightens another when each of its fields asks for at least as much: shorter
lists, higher minima, narrower limits, more revoked sources, more signatures. What it allows the
other allows, with the same decision (`SovereigntyPolicy.Tightens.validate`). An empty set of
trusted issuers or of evidence types stands for no restriction and is the loosest of all.
-/

namespace Finality

open Checks

/-- The policy `p` asks for at least what `q` asks for. -/
structure Policy.Tightens (p q : Policy) : Prop where
  policy_epoch : p.policy_epoch = q.policy_epoch
  allowed_purposes : p.allowed_purposes ⊆ q.allowed_purposes
  allowed_jurisdictions : p.allowed_jurisdictions ⊆ q.allowed_jurisdictions
  allowed_sinks : p.allowed_sinks ⊆ q.allowed_sinks
  allowed_boundaries : p.allowed_boundaries ⊆ q.allowed_boundaries
  allowed_effect_classes : p.allowed_effect_classes ⊆ q.allowed_effect_classes
  allowed_scopes : p.allowed_scopes ⊆ q.allowed_scopes
  revoked_sources : q.revoked_sources ⊆ p.revoked_sources
  required_runtime_evidence_digest : ∀ d ∈ q.required_runtime_evidence_digest,
    d ∈ p.required_runtime_evidence_digest
  max_future_skew_ns : p.max_future_skew_ns ≤ q.max_future_skew_ns

/-- What a tighter policy allows is allowed. -/
theorem Policy.Tightens.allows {p q : Policy} (h : p.Tightens q) {c : CandidateAct} {now : Int}
    (hallows : p.Allows c now) : q.Allows c now := by
  have hadmits := Policy.allows_iff_admits.1 hallows
  refine Policy.allows_iff_admits.2
    { hadmits with
      policy_epoch := hadmits.policy_epoch.trans h.policy_epoch
      purpose := h.allowed_purposes hadmits.purpose
      jurisdiction := h.allowed_jurisdictions hadmits.jurisdiction
      sink := h.allowed_sinks hadmits.sink
      boundary := h.allowed_boundaries hadmits.boundary
      effect_class := h.allowed_effect_classes hadmits.effect_class
      scope := fun s hs => h.allowed_scopes (hadmits.scope s hs)
      source := fun hs => hadmits.source (h.revoked_sources hs)
      not_early := ?_
      runtime_evidence := fun d hd =>
        hadmits.runtime_evidence d (h.required_runtime_evidence_digest d hd) }
  have hskew := h.max_future_skew_ns
  have hearly := hadmits.not_early
  omega

/-- The authority `a` is the authority `b` under a tighter policy. -/
structure ProtectedAuthority.Tightens {R : Runtime} (a b : ProtectedAuthority R) : Prop where
  authority_id : a.authority_id = b.authority_id
  policy : a.policy.Tightens b.policy
  authenticator : a.authenticator = b.authenticator
  capability_ttl_ns : a.capability_ttl_ns = b.capability_ttl_ns

namespace SovereigntyPolicy

/-- A list that restricts, unless it is empty, restricts at least as much as another. -/
def Restricts (xs ys : List PyStr) : Prop := ys ≠ [] → xs ≠ [] ∧ xs ⊆ ys

/-- A list of choices, when there is one, is within another. -/
def Within (xs ys : Option (List PyStr)) : Prop := ∀ l' ∈ ys, ∃ l ∈ xs, l ⊆ l'

/-- The policy `p` asks for at least what `q` asks for. -/
structure Tightens (p q : SovereigntyPolicy) : Prop where
  authority_jurisdiction : p.authority_jurisdiction = q.authority_jurisdiction
  policy_epoch : p.policy_epoch = q.policy_epoch
  allowed_compute_jurisdictions : Within p.allowed_compute_jurisdictions
    q.allowed_compute_jurisdictions
  allowed_compute_providers : Within p.allowed_compute_providers q.allowed_compute_providers
  required_runtime_evidence_digest : ∀ d ∈ q.required_runtime_evidence_digest,
    d ∈ p.required_runtime_evidence_digest
  trusted_evidence_issuers : Restricts p.trusted_evidence_issuers q.trusted_evidence_issuers
  allowed_evidence_types : Restricts p.allowed_evidence_types q.allowed_evidence_types
  min_evidence_items : q.min_evidence_items ≤ p.min_evidence_items
  min_independent_evidence_issuers :
    q.min_independent_evidence_issuers ≤ p.min_independent_evidence_issuers
  require_authority_jurisdiction_assertion : q.require_authority_jurisdiction_assertion = true →
    p.require_authority_jurisdiction_assertion = true
  allowed_trust_classes : p.allowed_trust_classes ⊆ q.allowed_trust_classes
  required_approval_roles : q.required_approval_roles ⊆ p.required_approval_roles
  approval_threshold : q.approval_threshold ≤ p.approval_threshold
  max_future_skew_ns : p.max_future_skew_ns ≤ q.max_future_skew_ns
  payload_required_fields : q.payload_required_fields ⊆ p.payload_required_fields
  payload_numeric_limits : ∀ name minimum maximum, (name, minimum, maximum) ∈
    q.payload_numeric_limits → ∃ minimum' maximum', (name, minimum', maximum') ∈
      p.payload_numeric_limits ∧ minimum ≤ minimum' ∧ maximum' ≤ maximum
  payload_allowed_values : ∀ name contains, (name, contains) ∈ q.payload_allowed_values →
    ∃ contains', (name, contains') ∈ p.payload_allowed_values ∧
      ∀ value, contains' value = .ok true → contains value = .ok true

variable {R : Runtime} {p q : SovereigntyPolicy}

/-- What a tighter list lets through the other one lets through, too. An empty list does not
restrict. -/
theorem Restricts.mem {xs ys : List PyStr} (h : Restricts xs ys) {x : PyStr}
    (hx : xs ≠ [] → x ∈ xs) (hys : ys ≠ []) : x ∈ ys :=
  (h hys).2 (hx (h hys).1)

/-- So it is for a list that may be absent. -/
theorem Within.mem {xs ys : Option (List PyStr)} (h : Within xs ys) {x : PyStr}
    (hx : ∀ l ∈ xs, x ∈ l) : ∀ l ∈ ys, x ∈ l := by
  intro l' hl'
  obtain ⟨l, hl, hsub⟩ := h l' hl'
  exact hsub (hx l hl)

/-- The context that passes the tighter policy passes the other one. -/
theorem Tightens.context (h : Tightens p q) {c : CandidateAct} {k : ComputeContext}
    (hp : ContextOk p c k) : ContextOk q c k where
  jurisdiction := hp.jurisdiction.trans h.authority_jurisdiction
  policy_epoch := hp.policy_epoch.trans h.policy_epoch
  compute_jurisdiction := h.allowed_compute_jurisdictions.mem hp.compute_jurisdiction
  compute_provider := h.allowed_compute_providers.mem hp.compute_provider
  runtime_evidence := fun d hd =>
    hp.runtime_evidence d (h.required_runtime_evidence_digest d hd)
  runtime_binding := hp.runtime_binding

/-- So does each item of evidence. -/
theorem Tightens.evidenceOk (h : Tightens p q) {now : Int} {item : JurisdictionEvidence}
    (hp : EvidenceOk p now item) : EvidenceOk q now item where
  issuer := h.trusted_evidence_issuers.mem hp.issuer
  evidence_type := h.allowed_evidence_types.mem hp.evidence_type
  trust_class := h.allowed_trust_classes hp.trust_class
  not_early := by
    have hskew := h.max_future_skew_ns
    have hearly := hp.not_early
    omega
  not_late := hp.not_late

/-- And the evidence as a whole. -/
theorem Tightens.bundle (h : Tightens p q) {es : List JurisdictionEvidence} {now : Int}
    (hp : BundleOk p es now) : BundleOk q es now where
  ids := hp.ids
  count := h.min_evidence_items.trans hp.count
  issuers := h.min_independent_evidence_issuers.trans hp.issuers
  items := fun i hi => h.evidenceOk (hp.items i hi)
  assertion := by
    intro hreq
    obtain ⟨i, hi, hjur⟩ := hp.assertion (h.require_authority_jurisdiction_assertion hreq)
    exact ⟨i, hi, hjur.trans h.authority_jurisdiction⟩

/-- And the approvals. -/
theorem Tightens.quorum (h : Tightens p q) {c : CandidateAct} {as : List Approval} {now : Int}
    (hp : QuorumOk R p c as now) : QuorumOk R q c as now where
  approvers := hp.approvers
  items := by
    intro a ha
    obtain ⟨hsubject, hepoch, hearly, hlate⟩ := hp.items a ha
    have hskew := h.max_future_skew_ns
    exact ⟨hsubject, hepoch.trans h.policy_epoch, by omega, hlate⟩
  threshold := h.approval_threshold.trans hp.threshold
  roles := fun r hr => hp.roles r (h.required_approval_roles hr)

/-- And the payload. -/
theorem Tightens.payload (h : Tightens p q) {payload : PyVal} (hp : PayloadOk p payload) :
    PayloadOk q payload where
  object := by
    -- a field that is configured in the one is configured in the other
    rintro (hreq | hnum | hval)
    · obtain ⟨name, hname⟩ := List.exists_mem_of_ne_nil _ hreq
      exact hp.object (.inl (List.ne_nil_of_mem (h.payload_required_fields hname)))
    · obtain ⟨⟨name, minimum, maximum⟩, hmem⟩ := List.exists_mem_of_ne_nil _ hnum
      obtain ⟨_, _, hmem', -⟩ := h.payload_numeric_limits name minimum maximum hmem
      exact hp.object (.inr (.inl (List.ne_nil_of_mem hmem')))
    · obtain ⟨⟨name, contains⟩, hmem⟩ := List.exists_mem_of_ne_nil _ hval
      obtain ⟨_, hmem', -⟩ := h.payload_allowed_values name contains hmem
      exact hp.object (.inr (.inr (List.ne_nil_of_mem hmem')))
  required := fun entries he name hname =>
    hp.required entries he name (h.payload_required_fields hname)
  numeric := by
    intro entries he name minimum maximum hmem
    obtain ⟨minimum', maximum', hmem', hmin, hmax⟩ :=
      h.payload_numeric_limits name minimum maximum hmem
    obtain ⟨value, hget, hlow, hhigh⟩ := hp.numeric entries he name minimum' maximum' hmem'
    exact ⟨value, hget, hmin.trans hlow, hhigh.trans hmax⟩
  allowed := by
    intro entries he name contains hmem
    obtain ⟨contains', hmem', hsub⟩ := h.payload_allowed_values name contains hmem
    exact hsub _ (hp.allowed entries he name contains' hmem')

/-- What a tighter policy declares is declared. -/
theorem Tightens.declared (h : Tightens p q) {c : CandidateAct} {k : ComputeContext}
    {es : List JurisdictionEvidence} {as : List Approval} {now : Int}
    (hp : Declared R p c k es as now) : Declared R q c k es as now :=
  ⟨h.context hp.context, h.bundle hp.evidence, h.quorum hp.approvals, h.payload hp.payload⟩

/-- **What a tighter policy allows is allowed**, with the same decision. -/
theorem Tightens.validate (h : Tightens p q) {c : CandidateAct} {k : ComputeContext}
    {es : List JurisdictionEvidence} {as : List Approval} {now : Int} {d : GovernanceDecision}
    (hval : p.validate R c k es as now = .ok d) (hallow : d.allowed = true) :
    q.validate R c k es as now = .ok d := by
  obtain ⟨hgoverns, hdigests⟩ := validate_allowed_iff.1 ⟨hval, hallow⟩
  have hdeclared := h.declared (declared_iff_governs.2 hgoverns)
  exact (validate_allowed_iff.2 ⟨declared_iff_governs.1 hdeclared, hdigests⟩).1

end SovereigntyPolicy

namespace AuthorityPlane

variable {R : Runtime}

/-- The plane `p` asks for at least what `q` asks for, of the same principals. -/
structure Tightens (p q : AuthorityPlane R) : Prop where
  policy : p.policy.Tightens q.policy
  jurisdiction_evidence_verifiers :
    p.jurisdiction_evidence_verifiers = q.jurisdiction_evidence_verifiers
  approval_verifiers : p.approval_verifiers = q.approval_verifiers
  require_authenticated_evidence : q.require_authenticated_evidence = true →
    p.require_authenticated_evidence = true
  require_authenticated_approvals : q.require_authenticated_approvals = true →
    p.require_authenticated_approvals = true

variable {p q : AuthorityPlane R}

/-- What a tighter plane's loop over the evidence lets through is let through. -/
theorem Tightens.authenticateEvidence (h : Tightens p q) {es : List JurisdictionEvidence}
    (hp : p.authenticateEvidence es = .ok ()) : q.authenticateEvidence es = .ok () := by
  rw [AuthorityPlane.authenticateEvidence, checkWhen_eq_ok] at hp ⊢
  intro hreq
  exact h.jurisdiction_evidence_verifiers ▸ hp (h.require_authenticated_evidence hreq)

/-- What a tighter plane's loop over the approvals lets through is let through. -/
theorem Tightens.authenticateApprovals (h : Tightens p q) {as : List Approval}
    (hp : p.authenticateApprovals as = .ok ()) : q.authenticateApprovals as = .ok () := by
  rw [AuthorityPlane.authenticateApprovals, checkWhen_eq_ok] at hp ⊢
  intro hreq
  exact h.approval_verifiers ▸ hp (h.require_authenticated_approvals hreq)

end AuthorityPlane

end Finality
