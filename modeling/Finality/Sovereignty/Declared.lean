import Finality.Sovereignty.Sample

/-!
# The declared policy

What a configuration of `SovereigntyPolicy` asks for, read off its fields with no loop and no
reason (`Declared`): where the act is decided and where it was computed, what the evidence
establishes, who approved, and what the payload holds. The loops of `validate` count items as they
go and skip some; the verdict they come to is the declared one, and so it does not depend on the
order of the items (`validate_perm`).
-/

namespace Finality

open Checks

namespace SovereigntyPolicy

/-- Where the act is decided and where it was computed. -/
structure ContextOk (p : SovereigntyPolicy) (candidate : CandidateAct) (compute : ComputeContext) :
    Prop where
  jurisdiction : candidate.jurisdiction = p.authority_jurisdiction
  policy_epoch : candidate.policy_epoch = p.policy_epoch
  compute_jurisdiction : ∀ js ∈ p.allowed_compute_jurisdictions, compute.compute_jurisdiction ∈ js
  compute_provider : ∀ ps ∈ p.allowed_compute_providers, compute.provider_id ∈ ps
  runtime_evidence : ∀ d ∈ p.required_runtime_evidence_digest, compute.runtime_evidence_digest = d
  runtime_binding : candidate.runtime_evidence_digest = compute.runtime_evidence_digest

/-- What the evidence establishes. -/
@[mk_iff]
structure BundleOk (p : SovereigntyPolicy) (evidence : List JurisdictionEvidence) (now : Int) :
    Prop where
  ids : (evidence.map JurisdictionEvidence.evidence_id).Nodup
  count : p.min_evidence_items ≤ evidence.length
  issuers : p.min_independent_evidence_issuers ≤
    (evidence.map JurisdictionEvidence.issuer).toFinset.card
  items : ∀ i ∈ evidence, EvidenceOk p now i
  assertion : p.require_authority_jurisdiction_assertion = true →
    ∃ i ∈ evidence, i.asserted_jurisdiction = p.authority_jurisdiction

/-- Who approved. -/
@[mk_iff]
structure QuorumOk (R : Runtime) (p : SovereigntyPolicy) (candidate : CandidateAct)
    (approvals : List Approval) (now : Int) : Prop where
  approvers : (approvals.map Approval.approver_id).Nodup
  items : ∀ a ∈ approvals, ApprovalOk R p candidate now a
  threshold : p.approval_threshold ≤ approvals.length
  roles : ∀ r ∈ p.required_approval_roles, ∃ a ∈ approvals, a.role = r

/-- What the payload holds: the fields that must be there, the integers that have limits, and the
values that are listed. -/
structure PayloadOk (p : SovereigntyPolicy) (payload : PyVal) : Prop where
  object : p.payload_required_fields ≠ [] ∨ p.payload_numeric_limits ≠ [] ∨
    p.payload_allowed_values ≠ [] → ∃ entries, payload = .dict entries
  required : ∀ entries, payload = .dict entries → ∀ name ∈ p.payload_required_fields,
    ∃ value, entries.lookup (.str name) = some value
  numeric : ∀ entries, payload = .dict entries →
    ∀ name minimum maximum, (name, minimum, maximum) ∈ p.payload_numeric_limits →
      ∃ value, entries.lookup (.str name) = some (.int value) ∧ minimum ≤ value ∧ value ≤ maximum
  allowed : ∀ entries, payload = .dict entries →
    ∀ name contains, (name, contains) ∈ p.payload_allowed_values →
      contains (dictGet entries name) = .ok true

/-- **The declared policy.** -/
structure Declared (R : Runtime) (p : SovereigntyPolicy) (candidate : CandidateAct)
    (compute : ComputeContext) (evidence : List JurisdictionEvidence) (approvals : List Approval)
    (now : Int) : Prop where
  context : ContextOk p candidate compute
  evidence : BundleOk p evidence now
  approvals : QuorumOk R p candidate approvals now
  payload : PayloadOk p candidate.payload

variable {R : Runtime} {p : SovereigntyPolicy}

/-! ## The checks of the payload -/

/-- The check of one integer. -/
theorem numericReasons_eq_nil {name : PyStr} {minimum maximum : Int}
    {entries : List (PyKey × PyVal)} :
    numericReasons name minimum maximum (dictGet entries name) = [] ↔
      ∃ value, entries.lookup (.str name) = some (.int value) ∧ minimum ≤ value ∧
        value ≤ maximum := by
  rw [dictGet]
  cases hget : entries.lookup (.str name) with
  | none => simp [numericReasons]
  | some v =>
    cases v with
    | int value =>
      simp only [Option.getD_some, numericReasons, Option.some.injEq, PyVal.int.injEq,
        exists_eq_left']
      split
      case isTrue hout =>
        simp only [List.cons_ne_nil, false_iff]
        omega
      case isFalse hin =>
        simp only [true_iff]
        omega
    | _ => simp [numericReasons]

/-- The check of one listed value collects no reason when the value is listed. -/
theorem allowedReason_eq_nil {r : Except PyErr Bool} {name : PyStr} :
    (r.map fun b : Bool => if b then [] else [py "payload_value_not_allowed:" ++ name]) = .ok [] ↔
      r = .ok true := by
  rw [map_eq_ok]
  refine ⟨?_, ?_⟩
  · rintro ⟨b, hb, hnil⟩
    cases b with
    | true => exact hb
    | false => simp at hnil
  · intro h
    exact ⟨true, h, rfl⟩

/-- The checks of the listed values collect no reason when every value is listed. -/
theorem mapM_allowed {entries : List (PyKey × PyVal)} :
    ∀ {values : List (PyStr × (PyVal → Except PyErr Bool))},
      (∃ rs, values.mapM (fun (name, contains) => (contains (dictGet entries name)).map
          fun b : Bool => if b then [] else [py "payload_value_not_allowed:" ++ name]) = .ok rs ∧
        rs.flatten = []) ↔
      ∀ name contains, (name, contains) ∈ values → contains (dictGet entries name) = .ok true
  | [] => by simp [pure_eq_ok]
  | (name, contains) :: values => by
    simp only [List.mapM_cons, bind_eq_ok, pure_eq_ok]
    refine ⟨?_, ?_⟩
    · rintro ⟨_, ⟨r, hr, rs, hrs, rfl⟩, hnil⟩
      rw [List.flatten_cons, List.append_eq_nil_iff] at hnil
      obtain ⟨rfl, hnil⟩ := hnil
      intro name' contains' hmem
      rcases List.mem_cons.1 hmem with heq | hmem
      · cases heq
        exact allowedReason_eq_nil.1 hr
      · exact mapM_allowed.1 ⟨rs, hrs, hnil⟩ name' contains' hmem
    · intro h
      obtain ⟨rs, hrs, hnil⟩ := mapM_allowed.2 fun n c hmem => h n c (List.mem_cons_of_mem _ hmem)
      exact ⟨_, ⟨[], allowedReason_eq_nil.2 (h name contains List.mem_cons_self), rs, hrs, rfl⟩,
        by rwa [List.flatten_cons, List.nil_append]⟩

/-- **The checks of the payload** collect no reason exactly when it holds what it should. -/
theorem payloadReasons_eq_nil {payload : PyVal} :
    p.payloadReasons payload = .ok [] ↔ PayloadOk p payload := by
  cases payload with
  | dict entries =>
    rw [payloadReasons]
    simp only [bind_eq_ok, Except.ok.injEq, List.append_eq_nil_iff, List.flatMap_eq_nil_iff]
    refine ⟨?_, ?_⟩
    · rintro ⟨rs, hrs, ⟨hreq, hnum⟩, hnil⟩
      constructor
      case object =>
        intro _
        exact ⟨entries, rfl⟩
      case required =>
        rintro _ ⟨⟩ name hname
        have h := hreq name hname
        cases hget : entries.lookup (.str name) with
        | none => simp [hget] at h
        | some v => exact ⟨v, rfl⟩
      case numeric =>
        rintro _ ⟨⟩ name minimum maximum hmem
        exact numericReasons_eq_nil.1 (hnum _ hmem)
      case allowed =>
        rintro _ ⟨⟩
        exact mapM_allowed.1 ⟨rs, hrs, hnil⟩
    · rintro ⟨-, hreq, hnum, hallowed⟩
      obtain ⟨rs, hrs, hnil⟩ := mapM_allowed.2 (hallowed entries rfl)
      refine ⟨rs, hrs, ⟨?_, ?_⟩, hnil⟩
      · intro name hname
        obtain ⟨v, hv⟩ := hreq entries rfl name hname
        simp [hv]
      · rintro ⟨name, minimum, maximum⟩ hmem
        exact numericReasons_eq_nil.2 (hnum entries rfl name minimum maximum hmem)
  | _ =>
    simp only [payloadReasons, Except.ok.injEq, reasonIf_eq_nil]
    refine ⟨?_, ?_⟩
    · intro h
      constructor
      case object =>
        intro hconf
        simp only [List.isEmpty_eq_false_iff] at h
        exact absurd hconf h
      all_goals
        rintro _ ⟨⟩
    · rintro ⟨hobject, -, -, -⟩ hconf
      simp only [List.isEmpty_eq_false_iff] at hconf
      obtain ⟨_, ⟨⟩⟩ := hobject hconf

/-! ## The verdict -/

/-- What the policy allows is what it declares. -/
theorem declared_iff_governs {c : CandidateAct} {k : ComputeContext}
    {es : List JurisdictionEvidence} {as : List Approval} {now : Int} :
    Declared R p c k es as now ↔ Governs R p c k es as now := by
  refine ⟨?_, ?_⟩
  · intro h
    obtain ⟨⟨hjur, hepoch, hkj, hkp, hrt, hbind⟩, ⟨hids, hcount, hissuers, hitems, hassert⟩,
      ⟨hwho, happr, hthreshold, hroles⟩, hpayload⟩ := h
    exact ⟨hjur, hepoch, hkj, hkp, hrt, hbind, hcount, hids, hitems, hissuers, hassert, hwho, happr,
      hthreshold, hroles, payloadReasons_eq_nil.2 hpayload⟩
  · intro h
    exact
      { context := ⟨h.jurisdiction, h.policy_epoch, h.compute_jurisdiction, h.compute_provider,
          h.runtime_evidence, h.runtime_binding⟩
        evidence := ⟨h.evidence_ids, h.evidence_count, h.issuers, h.evidence_ok, h.assertion⟩
        approvals := ⟨h.approver_ids, h.approvals_ok, h.threshold, h.roles⟩
        payload := payloadReasons_eq_nil.1 h.payload }

/-- The digests of a decision are those of what was decided on. -/
theorem validate_digests {c : CandidateAct} {k : ComputeContext} {es : List JurisdictionEvidence}
    {as : List Approval} {now : Int} {d : GovernanceDecision}
    (h : p.validate R c k es as now = .ok d) :
    k.digest R = .ok d.compute_context_digest ∧
      evidenceBundleDigest R es = .ok d.jurisdiction_evidence_digest ∧
      approvalsDigest R as = .ok d.approvals_digest := by
  simp only [validate, bind_eq_ok] at h
  obtain ⟨given, -, payload, -, kd, hkd, ed, hed, ad, had, h⟩ := h
  obtain rfl := Except.ok.inj h
  exact ⟨hkd, hed, had⟩

/-- The verdict `validate` returns, in the conditions under which no reason is collected. -/
theorem allowed_iff_governs {c : CandidateAct} {k : ComputeContext}
    {es : List JurisdictionEvidence} {as : List Approval} {now : Int} {d : GovernanceDecision}
    (h : p.validate R c k es as now = .ok d) :
    d.allowed = true ↔ Governs R p c k es as now := by
  refine ⟨?_, ?_⟩
  · intro hallow
    exact (validate_allowed_iff.1 ⟨h, hallow⟩).1
  · intro hg
    obtain ⟨hkd, hed, had⟩ := validate_digests h
    obtain ⟨h', -⟩ := (validate_allowed_iff (d := ⟨true, [], d.compute_context_digest,
      d.jurisdiction_evidence_digest, d.approvals_digest⟩)).2 ⟨hg, hkd, hed, had, rfl, rfl⟩
    rw [h] at h'
    rw [Except.ok.inj h']

/-- **`validate` decides the declared policy.** -/
theorem validate_decides {c : CandidateAct} {k : ComputeContext} {es : List JurisdictionEvidence}
    {as : List Approval} {now : Int} {d : GovernanceDecision}
    (h : p.validate R c k es as now = .ok d) :
    d.allowed = true ↔ Declared R p c k es as now :=
  (allowed_iff_governs h).trans declared_iff_governs.symm

/-- The sample input meets what the sample policy declares. -/
theorem sample_declared : ∃ d, Inert d ∧
    governanceSubjectDigest sampleRuntime sampleCandidate = .ok d ∧ Declared sampleRuntime
      sampleSovereigntyPolicy sampleCandidate sampleCompute [sampleEvidence []]
      [sampleApproval d []] 200 := by
  obtain ⟨d, hd⟩ := (eqv_governanceSubject sample_eqv).canon.sha256Hex
  exact ⟨d, inert_of_sha256Hex hd, hd,
    declared_iff_governs.2 (sample_governs (sample_fits hd).1 (fitEvidence_singleton []) (by decide)
      (by decide))⟩

/-- The compute context and the evidence of the sample input have digests. -/
theorem sample_digests : (∃ d, sampleCompute.digest sampleRuntime = .ok d) ∧
    ∃ d, evidenceBundleDigest sampleRuntime [sampleEvidence []] = .ok d :=
  ⟨⟨_, rfl⟩, exists_bundleDigest JurisdictionEvidence.asdict
    (List.forall_mem_singleton.2 (canon_sampleEvidence rfl))⟩

/-- So has the bundle of its approval. -/
theorem sample_approvalsDigest {d : PyStr} (hd : Inert d) :
    ∃ ad, approvalsDigest sampleRuntime [sampleApproval d []] = .ok ad :=
  exists_bundleDigest Approval.asdict
    (List.forall_mem_singleton.2 (canon_sampleApproval hd rfl).2)

/-- **The sample decision**: with its evidence and an approval of the act the sample policy
allows the act, and so the act meets what the policy declares. -/
theorem validate_decides_sample : ∃ es as d,
    sampleSovereigntyPolicy.validate sampleRuntime sampleCandidate sampleCompute es as 200 = .ok d ∧
      d.allowed = true ∧
      Declared sampleRuntime sampleSovereigntyPolicy sampleCandidate sampleCompute es as 200 := by
  obtain ⟨d, hdi, -, hdecl⟩ := sample_declared
  obtain ⟨⟨kd, hkd⟩, ed, hed⟩ := sample_digests
  obtain ⟨ad, had⟩ := sample_approvalsDigest hdi
  obtain ⟨h, hallow⟩ := (validate_allowed_iff (d := ⟨true, [], kd, ed, ad⟩)).2
    ⟨declared_iff_governs.1 hdecl, hkd, hed, had, rfl, rfl⟩
  exact ⟨_, _, _, h, hallow, (validate_decides h).1 hallow⟩

/-- **The order of the items is not read**: for evidence and approvals in another order the verdict
is the same. -/
theorem validate_perm {c : CandidateAct} {k : ComputeContext} {es es' : List JurisdictionEvidence}
    {as as' : List Approval} {now : Int} {d d' : GovernanceDecision} (hes : es.Perm es')
    (has : as.Perm as') (h : p.validate R c k es as now = .ok d)
    (h' : p.validate R c k es' as' now = .ok d') : d.allowed = d'.allowed := by
  rw [Bool.eq_iff_iff, allowed_iff_governs h, allowed_iff_governs h', ← declared_iff_governs,
    ← declared_iff_governs]
  have hbundle : BundleOk p es now ↔ BundleOk p es' now := by
    simp only [bundleOk_iff, (hes.map _).nodup_iff, hes.length_eq, hes.mem_iff,
      List.toFinset_eq_of_perm _ _ (hes.map _)]
  have hquorum : QuorumOk R p c as now ↔ QuorumOk R p c as' now := by
    simp only [quorumOk_iff, (has.map _).nodup_iff, has.length_eq, has.mem_iff]
  refine ⟨?_, ?_⟩
  · rintro ⟨hctx, hes, has, hpayload⟩
    exact ⟨hctx, hbundle.1 hes, hquorum.1 has, hpayload⟩
  · rintro ⟨hctx, hes, has, hpayload⟩
    exact ⟨hctx, hbundle.2 hes, hquorum.2 has, hpayload⟩

end SovereigntyPolicy

end Finality
