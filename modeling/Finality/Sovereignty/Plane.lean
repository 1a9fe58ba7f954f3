import Finality.Lib.Updates
import Finality.Core.Authority
import Finality.Sovereignty.Policy

/-!
# The authority plane (`authority_plane.py`, `verification.py`)

The plane stands in front of a protected authority. A submission is checked for signatures, decided
on by the sovereignty policy, and checked against the context it claims to be bound to (`admits`);
only then is it handed on (`authorize_of_admits`), and otherwise the authority's stores are left
alone (`authorize_of_not_admits`).
-/

namespace Finality

open Checks

/-- `PrincipalVerifierRegistry` -/
structure PrincipalVerifierRegistry (R : Runtime) where
  verifiers : PyDict (Authenticator R) := ∅

namespace PrincipalVerifierRegistry

variable {R : Runtime}

/-- `PrincipalVerifierRegistry.add` -/
def add (reg : PrincipalVerifierRegistry R) (principal_id : PyStr) (verifier : Authenticator R) :
    PrincipalVerifierRegistry R :=
  ⟨reg.verifiers.insert principal_id verifier⟩

/-- `PrincipalVerifierRegistry.verify` -/
def verify (reg : PrincipalVerifierRegistry R) (principal_id : PyStr) (value : PyVal)
    (signature key_id : PyStr) : Except PyErr Bool :=
  match reg.verifiers.lookup principal_id with
  | none => .ok false
  | some verifier => verifier.verify value signature key_id

/-- A registry accepts with the verifier registered for the principal. -/
theorem verify_ok_true {reg : PrincipalVerifierRegistry R} {i : PyStr} {v : PyVal} {s k : PyStr} :
    reg.verify i v s k = .ok true ↔
      ∃ verifier, reg.verifiers.lookup i = some verifier ∧ verifier.verify v s k = .ok true := by
  unfold verify
  split <;> simp_all

end PrincipalVerifierRegistry

/-- `AuthorityPlane`. The clock is only read for a call without a time, so times are arguments. -/
structure AuthorityPlane (R : Runtime) where
  policy : SovereigntyPolicy
  protected_authority : ProtectedAuthority R
  jurisdiction_evidence_verifiers : Option (PrincipalVerifierRegistry R) := none
  approval_verifiers : Option (PrincipalVerifierRegistry R) := none
  require_authenticated_evidence : Bool := false
  require_authenticated_approvals : Bool := false
  last_decision : Option GovernanceDecision := none

/-- The context entries the plane asks for, in order. -/
def requiredEntries (kd ed ad : PyStr) (compute : ComputeContext) : List (PyStr × PyStr) :=
  [(py "compute_context_digest", kd), (py "jurisdiction_evidence_digest", ed),
   (py "approvals_digest", ad), (py "compute_provider_id", compute.provider_id),
   (py "compute_jurisdiction", compute.compute_jurisdiction)]

/-- `bind_governance_context` -/
def bindGovernanceContext (R : Runtime) (candidate : CandidateAct) (compute : ComputeContext)
    (evidence : List JurisdictionEvidence) (approvals : List Approval) :
    Except PyErr CandidateAct := do
  let kd ← compute.digest R
  let ed ← evidenceBundleDigest R evidence
  let ad ← approvalsDigest R approvals
  .ok { candidate with
    authority_context := (requiredEntries kd ed ad compute).foldl
      (fun ctx e => ctx.insert e.1 (.str e.2)) candidate.authority_context }

/-! ## Binding a context -/

/-- Entries that are filtered out may as well not be inserted. -/
theorem filterKeys_foldl_insert {p : PyStr → Bool} {es : List (PyStr × PyStr)}
    (hp : ∀ e ∈ es, p e.1 = false) (d : PyDict PyVal) :
    PyDict.filterKeys p (es.foldl (fun ctx e => ctx.insert e.1 (.str e.2)) d) = d.filterKeys p :=
  AList.ext (Updates.filter_foldl_insert hp d)

/-- The plane requires one entry under each governance key. -/
theorem keys_requiredEntries (kd ed ad : PyStr) (compute : ComputeContext) :
    (requiredEntries kd ed ad compute).map Prod.fst = governanceKeys := rfl

/-- **Binding** puts the required entries into the context and leaves the subject as it was, so
approvals given before an act is bound still name it after. -/
theorem bindGovernanceContext_ok {R : Runtime} {c c' : CandidateAct} {compute : ComputeContext}
    {evidence : List JurisdictionEvidence} {approvals : List Approval}
    (h : bindGovernanceContext R c compute evidence approvals = .ok c') :
    ∃ kd ed ad, compute.digest R = .ok kd ∧ evidenceBundleDigest R evidence = .ok ed ∧
      approvalsDigest R approvals = .ok ad ∧ (∃ ctx, c' = { c with authority_context := ctx }) ∧
      (∀ e ∈ requiredEntries kd ed ad compute,
        c'.authority_context.lookup e.1 = some (.str e.2)) ∧
      governanceSubject c' = governanceSubject c := by
  obtain ⟨kd, hkd, h⟩ := bind_eq_ok.1 h
  obtain ⟨ed, hed, h⟩ := bind_eq_ok.1 h
  obtain ⟨ad, had, h⟩ := bind_eq_ok.1 h
  obtain rfl := Except.ok.inj h
  refine ⟨kd, ed, ad, hkd, hed, had, ⟨_, rfl⟩, ?_, ?_⟩
  · exact (Updates.lookup_foldl_insert (by rw [keys_requiredEntries]; decide)).1
  · have hkeys : ∀ e ∈ requiredEntries kd ed ad compute, decide (e.1 ∉ governanceKeys) = false := by
      intro e he
      have hmem : e.1 ∈ governanceKeys :=
        keys_requiredEntries kd ed ad compute ▸ List.mem_map_of_mem he
      simpa using hmem
    simp only [governanceSubject]
    rw [filterKeys_foldl_insert hkeys]

/-- `ctx.get(key) == expected` -/
def contextHas (ctx : PyDict PyVal) (key expected : PyStr) : Bool :=
  match ctx.lookup key with
  | some (.str s) => s = expected
  | _ => false

/-- An entry is there when it holds the expected string. -/
theorem contextHas_iff {ctx : PyDict PyVal} {key expected : PyStr} :
    contextHas ctx key expected = true ↔ ctx.lookup key = some (.str expected) := by
  unfold contextHas
  split <;> simp_all

namespace AuthorityPlane

variable {R : Runtime} (plane : AuthorityPlane R)

/-- One of the two signature loops: every item must verify under its principal. -/
def authenticate {α : Type} (verifiers : Option (PrincipalVerifierRegistry R))
    (missing invalid : String) (principal : α → PyStr) (unsigned : α → PyVal)
    (signature key_id : α → PyStr) (items : List α) : Except PyErr Unit :=
  match verifiers with
  | none => .error (.validationDenied (py missing))
  | some reg => items.forM fun item => do
      let verified ← reg.verify (principal item) (unsigned item) (signature item) (key_id item)
      failIf (verified = false) (.validationDenied (py invalid))

/-- The loop over the evidence. -/
def authenticateEvidence (evidence : List JurisdictionEvidence) : Except PyErr Unit :=
  checkWhen (plane.require_authenticated_evidence = true)
    (authenticate plane.jurisdiction_evidence_verifiers "jurisdiction_evidence_verifier_required"
      "jurisdiction_evidence_signature_invalid" JurisdictionEvidence.issuer
      JurisdictionEvidence.unsigned JurisdictionEvidence.signature JurisdictionEvidence.key_id
      evidence)

/-- The loop over the approvals. -/
def authenticateApprovals (approvals : List Approval) : Except PyErr Unit :=
  checkWhen (plane.require_authenticated_approvals = true)
    (authenticate plane.approval_verifiers "approval_verifier_required"
      "approval_signature_invalid" Approval.approver_id Approval.unsigned Approval.signature
      Approval.key_id approvals)

/-- Signatures, then the policy's decision. -/
def decide (candidate : CandidateAct) (compute : ComputeContext)
    (evidence : List JurisdictionEvidence) (approvals : List Approval) (now_ns : Int) :
    Except PyErr GovernanceDecision := do
  plane.authenticateEvidence evidence
  plane.authenticateApprovals approvals
  plane.policy.validate R candidate compute evidence approvals now_ns

/-- The checks made once there is a decision. -/
def checkDecision (candidate : CandidateAct) (compute : ComputeContext)
    (decision : GovernanceDecision) : Except PyErr Unit := do
  failIf (decision.allowed = false) (.validationDenied (joinReasons decision.reasons))
  (requiredEntries decision.compute_context_digest decision.jurisdiction_evidence_digest
    decision.approvals_digest compute).forM fun (key, expected) =>
      failIf (contextHas candidate.authority_context key expected = false)
        (.validationDenied (py "governance_context_binding_mismatch:" ++ key))

/-- `AuthorityPlane.authorize` -/
def authorize (s : AuthorityStores R) (candidate : CandidateAct) (compute : ComputeContext)
    (evidence : List JurisdictionEvidence) (approvals : List Approval) (cost now_ns : Int) :
    Except PyErr Capability × AuthorityPlane R × AuthorityStores R :=
  match plane.decide candidate compute evidence approvals now_ns with
  | .error e => (.error e, plane, s)
  | .ok decision =>
      let plane := { plane with last_decision := some decision }
      match checkDecision candidate compute decision with
      | .error e => (.error e, plane, s)
      | .ok () =>
          let (result, stores) := plane.protected_authority.authorize s candidate cost now_ns
          (result, plane, stores)

/-- Everything the plane checks before it hands a submission on. -/
def admits (candidate : CandidateAct) (compute : ComputeContext)
    (evidence : List JurisdictionEvidence) (approvals : List Approval) (now_ns : Int) :
    Except PyErr Unit := do
  let decision ← plane.decide candidate compute evidence approvals now_ns
  checkDecision candidate compute decision

variable {plane}

/-- A submission that is admitted is handed to the protected authority. -/
theorem authorize_of_admits {s : AuthorityStores R} {c : CandidateAct} {k : ComputeContext}
    {es : List JurisdictionEvidence} {as : List Approval} {cost now : Int}
    (h : plane.admits c k es as now = .ok ()) :
    ∃ plane', plane.authorize s c k es as cost now =
      ((plane.protected_authority.authorize s c cost now).1, plane',
        (plane.protected_authority.authorize s c cost now).2) := by
  obtain ⟨d, hd, hcheck⟩ := bind_eq_ok.1 h
  exact ⟨{ plane with last_decision := some d }, by rw [authorize, hd]; simp only [hcheck]⟩

/-- A submission that is not admitted leaves the authority's stores alone. -/
theorem authorize_of_not_admits {s : AuthorityStores R} {c : CandidateAct} {k : ComputeContext}
    {es : List JurisdictionEvidence} {as : List Approval} {cost now : Int} {e : PyErr}
    (h : plane.admits c k es as now = .error e) :
    ∃ plane', plane.authorize s c k es as cost now = (.error e, plane', s) := by
  unfold admits at h
  unfold authorize
  cases hd : plane.decide c k es as now with
  | error e' =>
    rw [hd] at h
    obtain rfl := Except.error.inj h
    exact ⟨plane, rfl⟩
  | ok d =>
    rw [hd, ok_bind] at h
    exact ⟨{ plane with last_decision := some d }, by simp only [h]⟩

/-- The policy allows what is admitted. -/
theorem validate_of_admits {c : CandidateAct} {k : ComputeContext} {es : List JurisdictionEvidence}
    {as : List Approval} {now : Int} (h : plane.admits c k es as now = .ok ()) :
    ∃ d, plane.policy.validate R c k es as now = .ok d ∧ d.allowed = true := by
  obtain ⟨d, hd, hcheck⟩ := bind_eq_ok.1 h
  obtain ⟨_, -, hd⟩ := bind_eq_ok.1 hd
  obtain ⟨_, -, hd⟩ := bind_eq_ok.1 hd
  obtain ⟨_, hallowed, -⟩ := bind_eq_ok.1 hcheck
  exact ⟨d, hd, by simpa using failIf_eq_ok.1 hallowed⟩

/-- Every item carries a signature by the verifier registered for its principal. -/
def Signed {α : Type} (verifiers : Option (PrincipalVerifierRegistry R)) (principal : α → PyStr)
    (unsigned : α → PyVal) (signature key_id : α → PyStr) (items : List α) : Prop :=
  ∃ reg, verifiers = some reg ∧ ∀ i ∈ items, ∃ verifier,
    reg.verifiers.lookup (principal i) = some verifier ∧
      verifier.verify (unsigned i) (signature i) (key_id i) = .ok true

/-- Authentication passes for signed items. -/
theorem authenticate_ok {α : Type} {verifiers : Option (PrincipalVerifierRegistry R)}
    {missing invalid : String} {principal : α → PyStr} {unsigned : α → PyVal}
    {signature key_id : α → PyStr} {items : List α} :
    authenticate verifiers missing invalid principal unsigned signature key_id items = .ok () ↔
      Signed verifiers principal unsigned signature key_id items := by
  cases verifiers with
  | none => simp [authenticate, Signed]
  | some reg =>
    simp only [authenticate, Signed, forM_eq_ok, bind_eq_ok, failIf_eq_ok, Bool.not_eq_false,
      Option.some.injEq, exists_eq_left', ← PrincipalVerifierRegistry.verify_ok_true,
      exists_eq_right]

/-- What an admitted submission has been checked for. -/
structure Admitted (plane : AuthorityPlane R) (c : CandidateAct) (k : ComputeContext)
    (es : List JurisdictionEvidence) (as : List Approval) (now : Int) : Prop where
  evidence_signed : plane.require_authenticated_evidence = true →
    Signed plane.jurisdiction_evidence_verifiers JurisdictionEvidence.issuer
      JurisdictionEvidence.unsigned JurisdictionEvidence.signature JurisdictionEvidence.key_id es
  approvals_signed : plane.require_authenticated_approvals = true →
    Signed plane.approval_verifiers Approval.approver_id Approval.unsigned Approval.signature
      Approval.key_id as
  governs : plane.policy.Governs R c k es as now
  bound : ∃ kd ed ad, k.digest R = .ok kd ∧ evidenceBundleDigest R es = .ok ed ∧
    approvalsDigest R as = .ok ad ∧
    ∀ e ∈ requiredEntries kd ed ad k, c.authority_context.lookup e.1 = some (.str e.2)

/-- The decision's checks. -/
theorem checkDecision_ok {c : CandidateAct} {k : ComputeContext} {d : GovernanceDecision} :
    checkDecision c k d = .ok () ↔ d.allowed = true ∧
      ∀ e ∈ requiredEntries d.compute_context_digest d.jurisdiction_evidence_digest
        d.approvals_digest k, c.authority_context.lookup e.1 = some (.str e.2) := by
  simp only [checkDecision, bind_eq_ok, failIf_eq_ok, exists_unit, forM_eq_ok, Bool.not_eq_false,
    contextHas_iff]

/-- **What the plane admits.** -/
theorem admits_ok {c : CandidateAct} {k : ComputeContext} {es : List JurisdictionEvidence}
    {as : List Approval} {now : Int} :
    plane.admits c k es as now = .ok () ↔ Admitted plane c k es as now := by
  simp only [admits, decide, bind_eq_ok, exists_unit, authenticateEvidence, authenticateApprovals,
    checkWhen_eq_ok, authenticate_ok, checkDecision_ok]
  refine ⟨?_, ?_⟩
  · intro h
    obtain ⟨d, ⟨hes, has, hval⟩, hallow, hbound⟩ := h
    obtain ⟨hg, hkd, hed, had, -⟩ := SovereigntyPolicy.validate_allowed_iff.1 ⟨hval, hallow⟩
    exact ⟨hes, has, hg, _, _, _, hkd, hed, had, hbound⟩
  · intro h
    obtain ⟨hes, has, hg, kd, ed, ad, hkd, hed, had, hbound⟩ := h
    obtain ⟨hval, hallow⟩ := (SovereigntyPolicy.validate_allowed_iff
      (d := ⟨true, [], kd, ed, ad⟩)).2 ⟨hg, hkd, hed, had, rfl, rfl⟩
    exact ⟨_, ⟨hes, has, hval⟩, hallow, hbound⟩

/-- **A bound submission is admitted** when it is signed and the policy allows it. -/
theorem admitted_of_bind {c c' : CandidateAct} {k : ComputeContext}
    {es : List JurisdictionEvidence} {as : List Approval} {now : Int}
    (h : bindGovernanceContext R c k es as = .ok c')
    (hes : plane.require_authenticated_evidence = true →
      Signed plane.jurisdiction_evidence_verifiers JurisdictionEvidence.issuer
        JurisdictionEvidence.unsigned JurisdictionEvidence.signature JurisdictionEvidence.key_id es)
    (has : plane.require_authenticated_approvals = true →
      Signed plane.approval_verifiers Approval.approver_id Approval.unsigned Approval.signature
        Approval.key_id as)
    (hg : plane.policy.Governs R c k es as now) : plane.Admitted c' k es as now := by
  obtain ⟨kd, ed, ad, hkd, hed, had, ⟨ctx, rfl⟩, hbound, hsubject⟩ := bindGovernanceContext_ok h
  refine ⟨hes, has, { hg with approvals_ok := fun a ha => ?_ }, kd, ed, ad, hkd, hed, had, hbound⟩
  have hok := hg.approvals_ok a ha
  have hsub : governanceSubjectDigest R { c with authority_context := ctx } =
      .ok a.candidate_digest := by
    rw [governanceSubjectDigest, hsubject]
    exact hok.subject
  exact ⟨hsub, hok.policy_epoch, hok.not_early, hok.not_late⟩

end AuthorityPlane

end Finality
