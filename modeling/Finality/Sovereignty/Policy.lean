import Mathlib.Data.Finset.Card
import Mathlib.Data.Finset.Insert
import Finality.Core.Policy
import Finality.Sovereignty.Models

/-!
# The sovereignty policy (`sovereignty_ref/policy.py`)

`validate` collects reasons in two loops and around them. Each loop is a fold over a record of its
local variables, and the record after a fold that collected no reason is determined by the items
(`foldl_evidenceStep`, `foldlM_approvalStep`). `validate_allowed_iff` puts the pieces together: the
policy allows exactly what `Governs` describes.
-/

namespace Finality

open Checks

/-- `SovereigntyPolicy`. Sets of which only membership is read are lists; of a set of objects the
policy reads only whether it contains a value, which the objects decide and may refuse to. -/
structure SovereigntyPolicy where
  authority_jurisdiction : PyStr
  policy_epoch : Int
  allowed_compute_jurisdictions : Option (List PyStr) := none
  allowed_compute_providers : Option (List PyStr) := none
  required_runtime_evidence_digest : Option PyStr := none
  trusted_evidence_issuers : List PyStr := []
  allowed_evidence_types : List PyStr := []
  min_evidence_items : Int := 0
  min_independent_evidence_issuers : Int := 0
  require_authority_jurisdiction_assertion : Bool := false
  allowed_trust_classes : List PyStr :=
    [py "declared", py "network-derived", py "protected", py "independently-verifiable"]
  required_approval_roles : List PyStr := []
  approval_threshold : Int := 0
  max_future_skew_ns : Int := 1000000000
  payload_required_fields : List PyStr := []
  payload_numeric_limits : List (PyStr × Int × Int) := []
  payload_allowed_values : List (PyStr × (PyVal → Except PyErr Bool)) := []

/-- The variables of the loop over the evidence. -/
structure EvidenceScan where
  reasons : List PyStr
  valid_issuers : Finset PyStr
  has_authority_jurisdiction : Bool
  seen_ids : List PyStr

/-- The variables of the loop over the approvals. -/
structure ApprovalScan where
  reasons : List PyStr
  seen_approvers : List PyStr
  valid_approvals : List Approval

/-- `payload.get(name)` -/
def dictGet (entries : List (PyKey × PyVal)) (name : PyStr) : PyVal :=
  (entries.lookup (.str name)).getD .none

/-- `isinstance(value, int) and not isinstance(value, bool)`, and the bounds. -/
def numericReasons (name : PyStr) (minimum maximum : Int) : PyVal → List PyStr
  | .int value =>
      if value < minimum ∨ value > maximum then [py "payload_numeric_out_of_range:" ++ name] else []
  | _ => [py "payload_numeric_invalid:" ++ name]

namespace SovereigntyPolicy

variable (R : Runtime) (p : SovereigntyPolicy)

/-- The checks in front of the loops. -/
def contextReasons (candidate : CandidateAct) (compute : ComputeContext)
    (evidence : List JurisdictionEvidence) : List PyStr :=
  reasonIf (candidate.jurisdiction ≠ p.authority_jurisdiction) "authority_jurisdiction_mismatch"
  ++ reasonIf (candidate.policy_epoch ≠ p.policy_epoch) "sovereignty_policy_epoch_mismatch"
  ++ reasonIf (∃ js ∈ p.allowed_compute_jurisdictions, compute.compute_jurisdiction ∉ js)
      "compute_jurisdiction_not_allowed"
  ++ reasonIf (∃ ps ∈ p.allowed_compute_providers, compute.provider_id ∉ ps)
      "compute_provider_not_allowed"
  ++ reasonIf (∃ d ∈ p.required_runtime_evidence_digest, compute.runtime_evidence_digest ≠ d)
      "compute_runtime_evidence_mismatch"
  ++ reasonIf (candidate.runtime_evidence_digest ≠ compute.runtime_evidence_digest)
      "candidate_compute_runtime_binding_mismatch"
  ++ reasonIf (evidence.length < p.min_evidence_items) "insufficient_jurisdiction_evidence"

/-- `self.trusted_evidence_issuers and issuer not in self.trusted_evidence_issuers` -/
def untrusted (issuer : PyStr) : Bool :=
  p.trusted_evidence_issuers ≠ [] ∧ issuer ∉ p.trusted_evidence_issuers

/-- One turn of the loop over the evidence. -/
def evidenceStep (now_ns : Int) (s : EvidenceScan) (item : JurisdictionEvidence) :
    EvidenceScan where
  reasons := s.reasons
    ++ reasonIf (item.evidence_id ∈ s.seen_ids) "duplicate_jurisdiction_evidence"
    ++ reasonIf (p.untrusted item.issuer) "untrusted_jurisdiction_evidence_issuer"
    ++ reasonIf (p.allowed_evidence_types ≠ [] ∧ item.evidence_type ∉ p.allowed_evidence_types)
        "jurisdiction_evidence_type_not_allowed"
    ++ reasonIf (item.trust_class ∉ p.allowed_trust_classes)
        "jurisdiction_evidence_trust_class_not_allowed"
    ++ reasonIf (now_ns < item.observed_at_ns - p.max_future_skew_ns)
        "jurisdiction_evidence_from_future"
    ++ reasonIf (now_ns > item.expires_at_ns) "jurisdiction_evidence_expired"
  valid_issuers :=
    if p.untrusted item.issuer then s.valid_issuers else insert item.issuer s.valid_issuers
  has_authority_jurisdiction := s.has_authority_jurisdiction ||
    item.asserted_jurisdiction = p.authority_jurisdiction
  seen_ids := item.evidence_id :: s.seen_ids

/-- The approval names the subject, is of this epoch, and is given for this time. -/
def approvalValid (subject : PyStr) (now_ns : Int) (approval : Approval) : Bool :=
  approval.candidate_digest = subject ∧ approval.policy_epoch = p.policy_epoch ∧
    approval.approved_at_ns - p.max_future_skew_ns ≤ now_ns ∧ now_ns ≤ approval.expires_at_ns

/-- One turn of the loop over the approvals. -/
def approvalStep (candidate : CandidateAct) (now_ns : Int) (s : ApprovalScan)
    (approval : Approval) : Except PyErr ApprovalScan :=
  if approval.approver_id ∈ s.seen_approvers then
    .ok { s with reasons := s.reasons ++ [py "duplicate_approver"] }
  else do
    let subject ← governanceSubjectDigest R candidate
    .ok
      { reasons := s.reasons
          ++ reasonIf (approval.candidate_digest ≠ subject) "approval_candidate_mismatch"
          ++ reasonIf (approval.policy_epoch ≠ p.policy_epoch) "approval_policy_epoch_mismatch"
          ++ reasonIf (now_ns < approval.approved_at_ns - p.max_future_skew_ns)
              "approval_from_future"
          ++ reasonIf (now_ns > approval.expires_at_ns) "approval_expired"
        seen_approvers := approval.approver_id :: s.seen_approvers
        valid_approvals :=
          if p.approvalValid subject now_ns approval then s.valid_approvals ++ [approval]
          else s.valid_approvals }

/-- The checks of the payload. -/
def payloadReasons : PyVal → Except PyErr (List PyStr)
  | .dict entries => do
      let allowed ← p.payload_allowed_values.mapM fun (name, contains) =>
        (contains (dictGet entries name)).map fun b =>
          if b then [] else [py "payload_value_not_allowed:" ++ name]
      .ok ((p.payload_required_fields.flatMap fun name =>
          if (entries.lookup (.str name)).isNone then [py "payload_field_missing:" ++ name] else [])
        ++ (p.payload_numeric_limits.flatMap fun (name, minimum, maximum) =>
          numericReasons name minimum maximum (dictGet entries name))
        ++ allowed.flatten)
  | _ => .ok (reasonIf (p.payload_required_fields ≠ [] ∨ p.payload_numeric_limits.isEmpty = false ∨
      p.payload_allowed_values.isEmpty = false) "payload_not_object")

/-- The reasons in the order they are collected. -/
def collected (candidate : CandidateAct) (compute : ComputeContext)
    (evidence : List JurisdictionEvidence) (scan : EvidenceScan) (given : ApprovalScan)
    (payload : List PyStr) : List PyStr :=
  p.contextReasons candidate compute evidence
  ++ scan.reasons
  ++ reasonIf (scan.valid_issuers.card < p.min_independent_evidence_issuers)
      "insufficient_independent_evidence_issuers"
  ++ reasonIf (p.require_authority_jurisdiction_assertion ∧
      scan.has_authority_jurisdiction = false) "authority_jurisdiction_evidence_missing"
  ++ given.reasons
  ++ reasonIf (p.approval_threshold ≠ 0 ∧ given.valid_approvals.length < p.approval_threshold)
      "approval_threshold_not_met"
  ++ reasonIf (¬ ∀ r ∈ p.required_approval_roles, ∃ a ∈ given.valid_approvals, a.role = r)
      "required_approval_role_missing"
  ++ payload

/-- `SovereigntyPolicy.validate` -/
def validate (candidate : CandidateAct) (compute : ComputeContext)
    (evidence : List JurisdictionEvidence) (approvals : List Approval) (now_ns : Int) :
    Except PyErr GovernanceDecision := do
  let scan := evidence.foldl (p.evidenceStep now_ns) ⟨[], ∅, false, []⟩
  let given ← approvals.foldlM (p.approvalStep R candidate now_ns) ⟨[], [], []⟩
  let payload ← p.payloadReasons candidate.payload
  let reasons := p.collected candidate compute evidence scan given payload
  let compute_context_digest ← compute.digest R
  let jurisdiction_evidence_digest ← evidenceBundleDigest R evidence
  let approvals_digest ← approvalsDigest R approvals
  .ok { allowed := reasons.isEmpty
        reasons := reasons
        compute_context_digest := compute_context_digest
        jurisdiction_evidence_digest := jurisdiction_evidence_digest
        approvals_digest := approvals_digest }

variable {R p}

/-! ## The loop over the evidence -/

/-- The policy has nothing against the item. -/
structure EvidenceOk (p : SovereigntyPolicy) (now : Int) (item : JurisdictionEvidence) : Prop where
  issuer : p.trusted_evidence_issuers ≠ [] → item.issuer ∈ p.trusted_evidence_issuers
  evidence_type : p.allowed_evidence_types ≠ [] → item.evidence_type ∈ p.allowed_evidence_types
  trust_class : item.trust_class ∈ p.allowed_trust_classes
  not_early : item.observed_at_ns - p.max_future_skew_ns ≤ now
  not_late : now ≤ item.expires_at_ns

/-- A turn collects no reason when none was collected before and the item is new and in order. -/
theorem evidenceStep_reasons {now : Int} {s : EvidenceScan} {item : JurisdictionEvidence} :
    (p.evidenceStep now s item).reasons = [] ↔
      s.reasons = [] ∧ item.evidence_id ∉ s.seen_ids ∧ EvidenceOk p now item := by
  simp only [evidenceStep, untrusted, List.append_eq_nil_iff, reasonIf_eq_nil, decide_eq_true_eq]
  refine ⟨?_, ?_⟩
  · intro h
    obtain ⟨⟨⟨⟨⟨⟨hs, hid⟩, hissuer⟩, htype⟩, hclass⟩, hearly⟩, hlate⟩ := h
    exact ⟨hs, hid, by tauto, by tauto, by tauto, by omega, by omega⟩
  · intro h
    obtain ⟨hs, hid, ⟨hissuer, htype, hclass, hearly, hlate⟩⟩ := h
    exact ⟨⟨⟨⟨⟨⟨hs, hid⟩, by tauto⟩, by tauto⟩, by tauto⟩, by omega⟩, by omega⟩

/-- **The loop over the evidence** collects no reason exactly when every item is in order and no
id occurs twice; it has then seen every issuer and every asserted jurisdiction. -/
theorem foldl_evidenceStep {now : Int} : ∀ {items : List JurisdictionEvidence} {s : EvidenceScan},
    (items.foldl (p.evidenceStep now) s).reasons = [] ↔
      s.reasons = [] ∧ (∀ i ∈ items, EvidenceOk p now i) ∧
        (items.map JurisdictionEvidence.evidence_id).Nodup ∧
        ∀ i ∈ items, i.evidence_id ∉ s.seen_ids
  | [], s => by simp
  | item :: items, s => by
    rw [List.foldl_cons, foldl_evidenceStep, evidenceStep_reasons]
    simp only [evidenceStep, List.forall_mem_cons, List.map_cons, List.nodup_cons, List.mem_map,
      not_exists, not_and]
    refine ⟨?_, ?_⟩
    · rintro ⟨⟨hs, hid, hok⟩, hall, hnd, hfresh⟩
      simp only [List.mem_cons, not_or] at hfresh
      exact ⟨hs, ⟨hok, hall⟩, ⟨fun i hi h => (hfresh i hi).1 h, hnd⟩, hid,
        fun i hi => (hfresh i hi).2⟩
    · rintro ⟨hs, ⟨hok, hall⟩, ⟨hne, hnd⟩, hid, hfresh⟩
      refine ⟨⟨hs, hid, hok⟩, hall, hnd, fun i hi => ?_⟩
      rw [List.mem_cons, not_or]
      exact ⟨hne i hi, hfresh i hi⟩

/-- The issuers the loop has seen, when it accepted every item. -/
theorem foldl_valid_issuers {now : Int} : ∀ {items : List JurisdictionEvidence} {s : EvidenceScan},
    (∀ i ∈ items, EvidenceOk p now i) →
    (items.foldl (p.evidenceStep now) s).valid_issuers =
      s.valid_issuers ∪ (items.map JurisdictionEvidence.issuer).toFinset
  | [], s, _ => by simp
  | item :: items, s, h => by
    rw [List.forall_mem_cons] at h
    have htrusted : p.untrusted item.issuer = false := by
      simpa [untrusted] using h.1.issuer
    rw [List.foldl_cons, foldl_valid_issuers h.2, List.map_cons, List.toFinset_cons, evidenceStep,
      htrusted]
    simp [Finset.insert_union]

/-- Whether the loop has seen the authority's jurisdiction asserted. -/
theorem foldl_has_authority_jurisdiction {now : Int} :
    ∀ {items : List JurisdictionEvidence} {s : EvidenceScan},
      (items.foldl (p.evidenceStep now) s).has_authority_jurisdiction = true ↔
        s.has_authority_jurisdiction = true ∨
          ∃ i ∈ items, i.asserted_jurisdiction = p.authority_jurisdiction
  | [], s => by simp
  | item :: items, s => by
    rw [List.foldl_cons, foldl_has_authority_jurisdiction]
    simp [evidenceStep, or_assoc]

/-! ## The loop over the approvals -/

/-- The policy has nothing against the approval. -/
structure ApprovalOk (R : Runtime) (p : SovereigntyPolicy) (candidate : CandidateAct) (now : Int)
    (approval : Approval) : Prop where
  subject : governanceSubjectDigest R candidate = .ok approval.candidate_digest
  policy_epoch : approval.policy_epoch = p.policy_epoch
  not_early : approval.approved_at_ns - p.max_future_skew_ns ≤ now
  not_late : now ≤ approval.expires_at_ns

/-- A turn that collects no reason keeps its approval. -/
theorem approvalStep_ok {c : CandidateAct} {now : Int} {s t : ApprovalScan} {a : Approval} :
    p.approvalStep R c now s a = .ok t ∧ t.reasons = [] ↔
      s.reasons = [] ∧ a.approver_id ∉ s.seen_approvers ∧ ApprovalOk R p c now a ∧
        t = ⟨[], a.approver_id :: s.seen_approvers, s.valid_approvals ++ [a]⟩ := by
  unfold approvalStep
  split
  case isTrue hseen =>
    refine ⟨?_, ?_⟩
    · rintro ⟨h, ht⟩
      rw [← Except.ok.inj h] at ht
      simp at ht
    · exact fun h => absurd hseen h.2.1
  case isFalse hseen =>
    rw [bind_eq_ok]
    refine ⟨?_, ?_⟩
    · rintro ⟨⟨subject, hsub, h⟩, ht⟩
      obtain rfl := Except.ok.inj h
      simp only [List.append_eq_nil_iff, reasonIf_eq_nil, not_not] at ht
      obtain ⟨⟨⟨⟨hs, hcand⟩, hepoch⟩, hearly⟩, hlate⟩ := ht
      have hvalid : p.approvalValid subject now a = true := by
        simp only [approvalValid, decide_eq_true_eq]
        exact ⟨hcand, hepoch, by omega, by omega⟩
      refine ⟨hs, hseen, ⟨by rw [hcand]; exact hsub, hepoch, by omega, by omega⟩, ?_⟩
      simp [hs, hcand, hepoch, hvalid, hearly, hlate, reasonIf]
    · rintro ⟨hs, -, ⟨hsub, hepoch, hearly, hlate⟩, rfl⟩
      have hvalid : p.approvalValid a.candidate_digest now a = true := by
        simp [approvalValid, hepoch, hearly, hlate]
      refine ⟨⟨_, hsub, ?_⟩, rfl⟩
      simp [hs, hepoch, hvalid, reasonIf, Int.not_lt.2 hearly, Int.not_lt.2 hlate]

/-- **The loop over the approvals** collects no reason exactly when every approval is in order and
no approver occurs twice; it has then kept every approval. -/
theorem foldlM_approvalStep {c : CandidateAct} {now : Int} :
    ∀ {as : List Approval} {s t : ApprovalScan},
      as.foldlM (p.approvalStep R c now) s = .ok t ∧ t.reasons = [] ↔
        s.reasons = [] ∧ (∀ a ∈ as, ApprovalOk R p c now a) ∧
          (as.map Approval.approver_id).Nodup ∧ (∀ a ∈ as, a.approver_id ∉ s.seen_approvers) ∧
          t = ⟨[], (as.map Approval.approver_id).reverse ++ s.seen_approvers,
            s.valid_approvals ++ as⟩
  | [], s, t => by
    obtain ⟨reasons, seen, valid⟩ := s
    rw [List.foldlM_nil, pure_eq_ok]
    refine ⟨?_, ?_⟩
    · rintro ⟨rfl, rfl⟩
      simp
    · rintro ⟨rfl, -, -, -, rfl⟩
      simp
  | a :: as, s, t => by
    rw [List.foldlM_cons, bind_eq_ok]
    simp only [List.forall_mem_cons, List.map_cons, List.nodup_cons, List.mem_map, not_exists,
      not_and, List.reverse_cons, List.append_assoc, List.singleton_append]
    refine ⟨?_, ?_⟩
    · rintro ⟨⟨u, hu, ht⟩, hreasons⟩
      obtain ⟨hnil, hall, hnd, hfresh, rfl⟩ := foldlM_approvalStep.1 ⟨ht, hreasons⟩
      obtain ⟨hs, hseen, hok, rfl⟩ := approvalStep_ok.1 ⟨hu, hnil⟩
      simp only [List.mem_cons, not_or] at hfresh
      exact ⟨hs, ⟨hok, hall⟩, ⟨fun b hb h => (hfresh b hb).1 h, hnd⟩,
        ⟨hseen, fun b hb => (hfresh b hb).2⟩, by simp⟩
    · rintro ⟨hs, ⟨hok, hall⟩, ⟨hne, hnd⟩, ⟨hseen, hfresh⟩, rfl⟩
      obtain ⟨hu, hnil⟩ := approvalStep_ok.2 ⟨hs, hseen, hok, rfl⟩
      have hrest := foldlM_approvalStep.2 ⟨hnil, hall, hnd, fun b hb => by
        rw [List.mem_cons, not_or]
        exact ⟨hne b hb, hfresh b hb⟩, rfl⟩
      exact ⟨⟨_, hu, by rw [hrest.1]; simp⟩, rfl⟩

/-! ## What the policy allows -/

/-- **What the policy allows**: the conditions on a candidate, its compute context, its evidence
and its approvals under which no reason is collected. -/
structure Governs (R : Runtime) (p : SovereigntyPolicy) (candidate : CandidateAct)
    (compute : ComputeContext) (evidence : List JurisdictionEvidence) (approvals : List Approval)
    (now : Int) : Prop where
  jurisdiction : candidate.jurisdiction = p.authority_jurisdiction
  policy_epoch : candidate.policy_epoch = p.policy_epoch
  compute_jurisdiction : ∀ js ∈ p.allowed_compute_jurisdictions, compute.compute_jurisdiction ∈ js
  compute_provider : ∀ ps ∈ p.allowed_compute_providers, compute.provider_id ∈ ps
  runtime_evidence : ∀ d ∈ p.required_runtime_evidence_digest, compute.runtime_evidence_digest = d
  runtime_binding : candidate.runtime_evidence_digest = compute.runtime_evidence_digest
  evidence_count : p.min_evidence_items ≤ evidence.length
  evidence_ids : (evidence.map JurisdictionEvidence.evidence_id).Nodup
  evidence_ok : ∀ i ∈ evidence, EvidenceOk p now i
  issuers : p.min_independent_evidence_issuers ≤
    (evidence.map JurisdictionEvidence.issuer).toFinset.card
  assertion : p.require_authority_jurisdiction_assertion = true →
    ∃ i ∈ evidence, i.asserted_jurisdiction = p.authority_jurisdiction
  approver_ids : (approvals.map Approval.approver_id).Nodup
  approvals_ok : ∀ a ∈ approvals, ApprovalOk R p candidate now a
  threshold : p.approval_threshold ≤ approvals.length
  roles : ∀ r ∈ p.required_approval_roles, ∃ a ∈ approvals, a.role = r
  payload : p.payloadReasons candidate.payload = .ok []

theorem contextReasons_eq_nil {c : CandidateAct} {k : ComputeContext}
    {es : List JurisdictionEvidence} : p.contextReasons c k es = [] ↔
      c.jurisdiction = p.authority_jurisdiction ∧ c.policy_epoch = p.policy_epoch ∧
      (∀ js ∈ p.allowed_compute_jurisdictions, k.compute_jurisdiction ∈ js) ∧
      (∀ ps ∈ p.allowed_compute_providers, k.provider_id ∈ ps) ∧
      (∀ d ∈ p.required_runtime_evidence_digest, k.runtime_evidence_digest = d) ∧
      c.runtime_evidence_digest = k.runtime_evidence_digest ∧
      p.min_evidence_items ≤ es.length := by
  simp only [contextReasons, List.append_eq_nil_iff, reasonIf_eq_nil, not_not, not_exists, not_and,
    and_assoc, Int.not_lt]

/-- No reason is collected when no part collects one. -/
theorem collected_eq_nil {c : CandidateAct} {k : ComputeContext} {es : List JurisdictionEvidence}
    {scan : EvidenceScan} {given : ApprovalScan} {payload : List PyStr} :
    p.collected c k es scan given payload = [] ↔
      p.contextReasons c k es = [] ∧ scan.reasons = [] ∧
      p.min_independent_evidence_issuers ≤ scan.valid_issuers.card ∧
      (p.require_authority_jurisdiction_assertion = true →
        scan.has_authority_jurisdiction = true) ∧
      given.reasons = [] ∧ p.approval_threshold ≤ given.valid_approvals.length ∧
      (∀ r ∈ p.required_approval_roles, ∃ a ∈ given.valid_approvals, a.role = r) ∧
      payload = [] := by
  have hthreshold : ¬ (p.approval_threshold ≠ 0 ∧
      given.valid_approvals.length < p.approval_threshold) ↔
        p.approval_threshold ≤ given.valid_approvals.length := by omega
  simp only [collected, List.append_eq_nil_iff, reasonIf_eq_nil, hthreshold, not_not, not_and,
    Bool.not_eq_false, Int.not_lt, and_assoc]

/-- **What the policy allows.** The decision carries the digests of what was decided on. -/
theorem validate_allowed_iff {c : CandidateAct} {k : ComputeContext}
    {es : List JurisdictionEvidence} {as : List Approval} {now : Int} {d : GovernanceDecision} :
    p.validate R c k es as now = .ok d ∧ d.allowed = true ↔
      Governs R p c k es as now ∧ k.digest R = .ok d.compute_context_digest ∧
        evidenceBundleDigest R es = .ok d.jurisdiction_evidence_digest ∧
        approvalsDigest R as = .ok d.approvals_digest ∧ d.allowed = true ∧ d.reasons = [] := by
  simp only [validate, bind_eq_ok]
  refine ⟨?_, ?_⟩
  · rintro ⟨⟨given, hgiven, payload, hpayload, kd, hkd, ed, hed, ad, had, h⟩, hallow⟩
    obtain rfl := Except.ok.inj h
    have hnil := hallow
    dsimp only at hnil
    rw [List.isEmpty_iff] at hnil
    obtain ⟨hctx, hscan, hissuers, hassert, hreasons, hthreshold, hroles, rfl⟩ :=
      collected_eq_nil.1 hnil
    obtain ⟨-, hitems, hids, -⟩ := foldl_evidenceStep.1 hscan
    obtain ⟨-, happr, happrovers, -, rfl⟩ := foldlM_approvalStep.1 ⟨hgiven, hreasons⟩
    rw [foldl_valid_issuers hitems, Finset.empty_union] at hissuers
    obtain ⟨h1, h2, h3, h4, h5, h6, h7⟩ := contextReasons_eq_nil.1 hctx
    refine ⟨⟨h1, h2, h3, h4, h5, h6, h7, hids, hitems, hissuers, fun hreq => ?_, happrovers, happr,
      hthreshold, hroles, hpayload⟩, hkd, hed, had, hallow, hnil⟩
    simpa using foldl_has_authority_jurisdiction.1 (hassert hreq)
  · obtain ⟨allowed, reasons, kd, ed, ad⟩ := d
    rintro ⟨hg, hkd, hed, had, rfl, rfl⟩
    obtain ⟨hgiven, -⟩ := (foldlM_approvalStep (s := ⟨[], [], []⟩)).2
      ⟨rfl, hg.approvals_ok, hg.approver_ids, by simp, rfl⟩
    have hscan := (foldl_evidenceStep (s := ⟨[], ∅, false, []⟩)).2
      ⟨rfl, hg.evidence_ok, hg.evidence_ids, by simp⟩
    have hctx : p.contextReasons c k es = [] := contextReasons_eq_nil.2
      ⟨hg.jurisdiction, hg.policy_epoch, hg.compute_jurisdiction, hg.compute_provider,
        hg.runtime_evidence, hg.runtime_binding, hg.evidence_count⟩
    have hissuers : p.min_independent_evidence_issuers ≤
        (es.foldl (p.evidenceStep now) ⟨[], ∅, false, []⟩).valid_issuers.card := by
      rw [foldl_valid_issuers hg.evidence_ok, Finset.empty_union]
      exact hg.issuers
    have hnil : p.collected c k es (es.foldl (p.evidenceStep now) ⟨[], ∅, false, []⟩)
        ⟨[], (as.map Approval.approver_id).reverse ++ [], [] ++ as⟩ [] = [] :=
      collected_eq_nil.2 ⟨hctx, hscan, hissuers, fun hreq =>
        foldl_has_authority_jurisdiction.2 (.inr (hg.assertion hreq)), rfl, hg.threshold, hg.roles,
        rfl⟩
    refine ⟨⟨_, hgiven, _, hg.payload, _, hkd, _, hed, _, had, ?_⟩, rfl⟩
    rw [hnil]
    rfl

end SovereigntyPolicy

end Finality
