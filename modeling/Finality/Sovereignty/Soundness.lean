import Finality.Core.Provenance
import Finality.Sovereignty.Sample

/-!
# Every effect was governed

Behind planes that ask for signatures, every effect goes back to a submission that a plane
admitted: its context is bound to the compute context, the evidence and the approvals of that
submission, and to no others (`exact_of_digests`), and those were signed and allowed
(`governance_soundness`).
-/

namespace Finality

open Checks ProtectedState ProtectedAuthority FinalitySink Runs AuthorityPlane SovereigntyPolicy

variable {R : Runtime}

/-- A string is canonically equal to strings only. -/
theorem str_of_eqv_str {s : PyStr} {v : PyVal} (h : Eqv R (.str s) v) :
    ∃ t, v = .str t ∧ NfcEq R s t := by
  obtain ⟨n, hn, hv⟩ := id h
  obtain ⟨-, rfl⟩ := normal_str.1 hn
  cases v with
  | str t => exact ⟨t, rfl, eqv_str.1 h⟩
  | list vs => simp [normal_list] at hv
  | tuple vs => simp [normal_tuple, normal_list] at hv
  | dict es => simp [normal_dict] at hv
  | dataclass fs => simp [normal_dataclass, normal_dict] at hv
  | other o =>
    have hv := hv.1
    rw [normalize] at hv
    split at hv <;> cases hv
  | _ => simp [Normal, normalize] at hv

/-- A governance entry of a context is in every canonically equal context, up to NFC. -/
theorem entry_of_eqv_context {d d' : PyDict PyVal} (h : Eqv R d.toVal d'.toVal) {k s : PyStr}
    (hk : k ∈ governanceKeys) (hl : d.lookup k = some (.str s)) :
    ∃ t, d'.lookup k = some (.str t) ∧ NfcEq R t s := by
  obtain ⟨v, hv, heqv⟩ := lookup_of_eqv h (inert_governanceKeys hk) hl
  obtain ⟨t, rfl, ht⟩ := str_of_eqv_str heqv
  exact ⟨t, hv, ht.symm⟩

/-- The entries that the plane requires are governance entries. -/
theorem mem_governanceKeys_of_required {kd ed ad : PyStr} {k : ComputeContext} {e : PyStr × PyStr}
    (he : e ∈ requiredEntries kd ed ad k) : e.1 ∈ governanceKeys := by
  simp only [requiredEntries, List.mem_cons, List.not_mem_nil, or_false] at he
  rcases he with rfl | rfl | rfl | rfl | rfl <;> simp [governanceKeys]

/-- **The digests name one submission**, up to canonical equality and the order of the items. -/
theorem exact_of_digests (hsha : ShaInjective R) {k k' : ComputeContext}
    {es es' : List JurisdictionEvidence} {as as' : List Approval} {kd ed ad : PyStr}
    (hk : k.digest R = .ok kd) (he : evidenceBundleDigest R es = .ok ed)
    (ha : approvalsDigest R as = .ok ad) (hk' : k'.digest R = .ok kd)
    (he' : evidenceBundleDigest R es' = .ok ed) (ha' : approvalsDigest R as' = .ok ad) :
    Eqv R (.ofFields k.fields) (.ofFields k'.fields) ∧
      (∃ arranged, es'.Perm arranged ∧
        List.Forall₂ (fun i j => Eqv R i.asdict j.asdict) es arranged) ∧
      ∃ arranged, as'.Perm arranged ∧
        List.Forall₂ (fun i j => Eqv R i.asdict j.asdict) as arranged :=
  ⟨eqv_of_sha256Hex hsha hk hk', items_of_bundle hsha he he', items_of_bundle hsha ha ha'⟩

/-- Where a governed effect came from: the submission to a plane, and the effect. -/
structure Submission (R : Runtime) where
  /-- the submission that was admitted at `t₀`, in the state `w₁` -/
  plane : AuthorityPlane R
  c₀ : CandidateAct
  compute : ComputeContext
  evidence : List JurisdictionEvidence
  approvals : List Approval
  cost : Int
  t₀ : Int
  cap₀ : Capability
  w₁ : World R
  /-- the digests its context is bound to -/
  compute_context_digest : PyStr
  jurisdiction_evidence_digest : PyStr
  approvals_digest : PyStr
  subject_digest : PyStr
  /-- the effect `effectuate(c, cap)` at `t`, in the state `w₂` -/
  sink : FinalitySink R
  c : CandidateAct
  cap : Capability
  t : Int
  proof : Option PresentationProof
  w₂ : World R
  /-- the calls before, between and after the two -/
  before : List (PlaneOp R)
  between : List (PlaneOp R)
  after : List (PlaneOp R)

/-- The record `r`, made by the calls `ops` from `w₀`, came from the submission `g`. -/
structure Submission.Sound (g : Submission R) (a : ProtectedAuthority R) (w₀ : World R)
    (ops : List (PlaneOp R)) (r : EffectRecord) : Prop where
  calls : ops = (g.before ++
      .authorize g.plane g.c₀ g.compute g.evidence g.approvals g.cost g.t₀ :: g.between) ++
    .core (.effectuate g.sink g.c g.cap g.t g.proof) :: g.after
  authorized_in : Run (PlaneStep a) w₀ g.before g.w₁
  authorized : g.plane.protected_authority = a ∧ (g.plane.authorize g.w₁.authority g.c₀ g.compute
    g.evidence g.approvals g.cost g.t₀).1 = .ok g.cap₀
  effected_in : Run (PlaneStep a) w₀ (g.before ++
    .authorize g.plane g.c₀ g.compute g.evidence g.approvals g.cost g.t₀ :: g.between) g.w₂
  effected : (exec a g.w₂ (.effectuate g.sink g.c g.cap g.t g.proof)).effects.effector.records =
    g.w₂.effects.effector.records ++ [r]
  digest : g.c.digest R = .ok r.candidate_digest
  candidate : CandidateEqv R g.c g.c₀
  digests : g.compute.digest R = .ok g.compute_context_digest ∧
    evidenceBundleDigest R g.evidence = .ok g.jurisdiction_evidence_digest ∧
    approvalsDigest R g.approvals = .ok g.approvals_digest
  bound : ∀ e ∈ requiredEntries g.compute_context_digest g.jurisdiction_evidence_digest
      g.approvals_digest g.compute,
    ∃ s, g.c.authority_context.lookup e.1 = some (.str s) ∧ NfcEq R s e.2
  exact : ∀ (k : ComputeContext) (es : List JurisdictionEvidence) (as : List Approval),
    k.digest R = .ok g.compute_context_digest →
    evidenceBundleDigest R es = .ok g.jurisdiction_evidence_digest →
    approvalsDigest R as = .ok g.approvals_digest →
    Eqv R (.ofFields g.compute.fields) (.ofFields k.fields) ∧
      (∃ arranged, es.Perm arranged ∧
        List.Forall₂ (fun i j => Eqv R i.asdict j.asdict) g.evidence arranged) ∧
      ∃ arranged, as.Perm arranged ∧
        List.Forall₂ (fun i j => Eqv R i.asdict j.asdict) g.approvals arranged
  allowed : ∃ d, g.plane.policy.validate R g.c₀ g.compute g.evidence g.approvals g.t₀ = .ok d ∧
    d.allowed = true
  evidence_signed : Signed g.plane.jurisdiction_evidence_verifiers JurisdictionEvidence.issuer
    JurisdictionEvidence.unsigned JurisdictionEvidence.signature JurisdictionEvidence.key_id
    g.evidence
  approvals_signed : Signed g.plane.approval_verifiers Approval.approver_id Approval.unsigned
    Approval.signature Approval.key_id g.approvals
  subject : governanceSubjectDigest R g.c = .ok g.subject_digest ∧
    governanceSubjectDigest R g.c₀ = .ok g.subject_digest
  threshold : g.plane.policy.approval_threshold ≤ g.approvals.length
  approver_ids : (g.approvals.map Approval.approver_id).Nodup
  approvals : ∀ p ∈ g.approvals, p.candidate_digest = g.subject_digest ∧
    p.policy_epoch = g.plane.policy.policy_epoch ∧
    p.approved_at_ns - g.plane.policy.max_future_skew_ns ≤ g.t₀ ∧ g.t₀ ≤ p.expires_at_ns
  roles : ∀ role ∈ g.plane.policy.required_approval_roles, ∃ p ∈ g.approvals, p.role = role

/-- **Governance soundness.** In every run from empty stores in which the authority is reached
only through planes that require signatures, every effect record goes back to an earlier
submission: the context of the effected candidate is bound to exactly its compute context, evidence
and approvals, the policy allowed them, every item carries a signature by the verifier registered
for its principal, and enough distinct approvers with the required roles named the act. -/
theorem governance_soundness (hsha : ShaInjective R) {a : ProtectedAuthority R}
    {w₀ w : World R} {ops : List (PlaneOp R)} (h0 : w₀.Empty) (hrun : Run (PlaneStep a) w₀ ops w)
    (hflags : ∀ op ∈ ops, op.Authenticated) :
    ∀ r ∈ w.effects.effector.records, ∃ g : Submission R, g.Sound a w₀ ops r := by
  intro r hr
  obtain ⟨o, ho⟩ := exists_sound hsha h0 (core_run hrun) hr
  -- the calls to planes behind the effect and the authorisation it came from
  obtain ⟨ops₁, op, after, rfl, hops₁, hop⟩ := exists_of_filterMap_eq ho.calls
  obtain rfl := eq_core_of_coreCall hop
  obtain ⟨before, op, between, rfl, hbefore, hop⟩ := exists_of_filterMap_eq hops₁
  obtain ⟨plane, k, es, as, rfl, hplane, hadm⟩ :=
    admitted_of_coreCall (behind_of_run hrun op (by simp)) hop
  obtain ⟨hes, has⟩ := hflags (.authorize plane o.c₀ k es as o.cost o.t₀) (by simp)
  obtain ⟨w₂, hrun₂, -⟩ := hrun.split
  obtain ⟨w₁, hrun₁, -⟩ := hrun₂.split
  obtain rfl : w₁ = o.w₁ := run_functional (core_run hrun₁) (hbefore ▸ ho.authorized_in)
  obtain rfl : w₂ = o.w₂ := run_functional (core_run hrun₂) (hops₁ ▸ ho.effected_in)
  obtain ⟨kd, ed, ad, hkd, hed, had, hbound⟩ := hadm.bound
  have heqv := eqv_of_sha256Hex hsha ho.effected_digest ho.digest
  have hsubject := eqv_governanceSubject heqv
  obtain ⟨subject, hsub⟩ := hsubject.canon.sha256Hex
  have hsub₀ : governanceSubjectDigest R o.c₀ = .ok subject :=
    hsubject.sha256Hex_eq.symm.trans hsub
  refine ⟨⟨plane, o.c₀, k, es, as, o.cost, o.t₀, o.cap₀, o.w₁, kd, ed, ad, subject, o.sink, o.c,
    o.cap, o.t, o.proof, o.w₂, before, between, after⟩, ?_⟩
  exact
    { calls := rfl
      authorized_in := hrun₁
      authorized := ⟨hplane, by
        obtain ⟨plane', h⟩ : ∃ plane', plane.authorize o.w₁.authority o.c₀ k es as o.cost o.t₀ =
          ((plane.protected_authority.authorize o.w₁.authority o.c₀ o.cost o.t₀).1, plane', _) :=
            authorize_of_admits (admits_ok.2 hadm)
        rw [h, hplane, ho.authorized]⟩
      effected_in := hrun₂
      effected := ho.effected
      digest := ho.effected_digest
      candidate := ho.candidate
      digests := ⟨hkd, hed, had⟩
      bound := fun e he => entry_of_eqv_context ho.candidate.authority_context.symm
        (mem_governanceKeys_of_required he) (hbound e he)
      exact := fun k' es' as' => exact_of_digests hsha hkd hed had
      allowed := ⟨⟨true, [], kd, ed, ad⟩, validate_allowed_iff.2
        ⟨hadm.governs, hkd, hed, had, rfl, rfl⟩⟩
      evidence_signed := hadm.evidence_signed hes
      approvals_signed := hadm.approvals_signed has
      subject := ⟨hsub, hsub₀⟩
      threshold := hadm.governs.threshold
      approver_ids := hadm.governs.approver_ids
      approvals := fun p hp =>
        have hok := hadm.governs.approvals_ok p hp
        ⟨Except.ok.inj (hok.subject.symm.trans hsub₀), hok.policy_epoch, hok.not_early,
          hok.not_late⟩
      roles := hadm.governs.roles }

/-- The record of the sample act, traced to its submission. -/
theorem governance_soundness_sample : ∃ es as ctx cap w record,
    Run (PlaneStep sampleAuthority) sampleWorld
      [.authorize samplePlane (sampleCandidate.withContext ctx) sampleCompute es as 1 200,
        .core (.effectuate sampleSink (sampleCandidate.withContext ctx) cap 200 none)] w ∧
    record ∈ w.effects.effector.records ∧
    ∃ g : Submission sampleRuntime, g.Sound sampleAuthority sampleWorld
      [.authorize samplePlane (sampleCandidate.withContext ctx) sampleCompute es as 1 200,
        .core (.effectuate sampleSink (sampleCandidate.withContext ctx) cap 200 none)] record := by
  obtain ⟨es, as, ctx, -, hctx, hadmits, -⟩ := sample_submission
  obtain ⟨cap, -, w, -, record, -, hrun, hrec, -⟩ := respelled_runs hctx
  have hrun := plane_run rfl hadmits hrun
  have hmem : record ∈ w.effects.effector.records := by simp [hrec]
  have hflags : ∀ op ∈ [PlaneOp.authorize samplePlane (sampleCandidate.withContext ctx)
      sampleCompute es as 1 200,
      .core (.effectuate sampleSink (sampleCandidate.withContext ctx) cap 200 none)],
      op.Authenticated := by
    simp [PlaneOp.Authenticated, samplePlane]
  exact ⟨es, as, ctx, cap, w, record, hrun, hmem,
    governance_soundness sample_injective sampleWorld_empty hrun hflags record hmem⟩

end Finality
