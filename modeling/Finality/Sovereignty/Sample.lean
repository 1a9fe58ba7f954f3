import Finality.Sovereignty.System

/-!
# A concrete plane

A plane in front of the sample authority that asks for signed evidence from one issuer and a signed
approval from one approver, and the sample act, in both spellings of its nonce, bound to one
evidence bundle and one approval.
-/

namespace Finality

open Checks ProtectedAuthority FinalitySink Runs AuthorityPlane SovereigntyPolicy

/-- The issuer's key. -/
def issuerKey : HMACAuthenticator := ⟨Utf8.utf8 "evidence-secret-0".toList, py "evidence-key-0"⟩

/-- The approver's key. -/
def approverKey : HMACAuthenticator := ⟨Utf8.utf8 "approval-secret-0".toList, py "approval-key-0"⟩

/-- The policy of the plane. -/
def sampleSovereigntyPolicy : SovereigntyPolicy where
  authority_jurisdiction := py "EU"
  policy_epoch := 7
  allowed_compute_jurisdictions := some [py "FOREIGN", py "EU"]
  allowed_compute_providers := some [py "global-ai-provider"]
  required_runtime_evidence_digest := some (py "runtime-ok")
  trusted_evidence_issuers := [py "national-trust-service"]
  allowed_evidence_types := [py "gateway-attestation"]
  min_evidence_items := 1
  min_independent_evidence_issuers := 1
  require_authority_jurisdiction_assertion := true
  required_approval_roles := [py "policy-owner"]
  approval_threshold := 1

/-- The plane. -/
def samplePlane : AuthorityPlane sampleRuntime where
  policy := sampleSovereigntyPolicy
  protected_authority := sampleAuthority
  jurisdiction_evidence_verifiers := some (PrincipalVerifierRegistry.add {}
    (py "national-trust-service") (issuerKey.toAuthenticator sampleRuntime))
  approval_verifiers := some (PrincipalVerifierRegistry.add {} (py "approver-1")
    (approverKey.toAuthenticator sampleRuntime))
  require_authenticated_evidence := true
  require_authenticated_approvals := true

/-- The computation behind the act. -/
def sampleCompute : ComputeContext where
  provider_id := py "global-ai-provider"
  compute_jurisdiction := py "FOREIGN"
  workload_id := py "workload-1"
  model_id := py "model-1"
  runtime_evidence_digest := py "runtime-ok"
  session_id := py "session-1"

/-- An item of evidence, under a signature. -/
def sampleEvidence (signature : PyStr) : JurisdictionEvidence where
  evidence_id := py "je-gateway"
  evidence_type := py "gateway-attestation"
  asserted_jurisdiction := py "EU"
  issuer := py "national-trust-service"
  subject := py "finality-sink"
  observed_at_ns := 100
  expires_at_ns := 60000
  trust_class := py "protected"
  value_digest := py "gateway-ok"
  key_id := issuerKey.key_id
  signature := signature

/-- An approval of the act with the given subject digest, under a signature. -/
def sampleApproval (subject signature : PyStr) : Approval where
  approver_id := py "approver-1"
  role := py "policy-owner"
  candidate_digest := subject
  policy_epoch := 7
  approved_at_ns := 100
  expires_at_ns := 60000
  key_id := approverKey.key_id
  signature := signature

/-- The governance entries of a context that was empty before. -/
def boundContext (kd ed ad : PyStr) : PyDict PyVal :=
  (requiredEntries kd ed ad sampleCompute).foldl (fun ctx e => ctx.insert e.1 (.str e.2)) ∅

/-- The bound context can be hashed. -/
theorem canon_boundContext {kd ed ad : PyStr} (hk : Inert kd) (he : Inert ed) (ha : Inert ad) :
    Canon sampleRuntime (boundContext kd ed ad).toVal := by
  have hentries : (boundContext kd ed ad).toVal = .ofEntries
      [("compute_jurisdiction", .str (py "FOREIGN")),
       ("compute_provider_id", .str (py "global-ai-provider")), ("approvals_digest", .str ad),
       ("jurisdiction_evidence_digest", .str ed), ("compute_context_digest", .str kd)] := rfl
  have hkeys : GoodKeys ["compute_jurisdiction", "compute_provider_id", "approvals_digest",
    "jurisdiction_evidence_digest", "compute_context_digest"] := by decide
  rw [hentries, canon_ofEntries_iff (by simpa using hkeys)]
  simp [hk.hasSurrogate, he.hasSurrogate, ha.hasSurrogate, py]

/-- An item of evidence can be hashed, under any id. -/
theorem canon_evidenceNamed {i signature : PyStr} (hi : hasSurrogate i = false)
    (hs : hasSurrogate signature = false) :
    Canon sampleRuntime { sampleEvidence signature with evidence_id := i }.unsigned ∧
      Canon sampleRuntime { sampleEvidence signature with evidence_id := i }.asdict := by
  have hkeys : GoodKeys ["evidence_id", "evidence_type", "asserted_jurisdiction", "issuer",
    "subject", "observed_at_ns", "expires_at_ns", "trust_class", "value_digest", "key_id",
    "signature"] := by decide
  have hunsigned : GoodKeys ["evidence_id", "evidence_type", "asserted_jurisdiction", "issuer",
    "subject", "observed_at_ns", "expires_at_ns", "trust_class", "value_digest", "key_id"] := by
    decide
  refine ⟨?_, ?_⟩
  · rw [JurisdictionEvidence.unsigned,
      canon_ofEntries_iff (by simpa [JurisdictionEvidence.entries] using hunsigned)]
    simp [JurisdictionEvidence.entries, sampleEvidence, issuerKey, py, hi]
    decide
  · rw [JurisdictionEvidence.asdict, canon_ofFields,
      canon_ofEntries_iff (by simpa [JurisdictionEvidence.entries] using hkeys)]
    simp [JurisdictionEvidence.entries, sampleEvidence, issuerKey, py, hi, hs]
    decide

/-- Under its own one, too. -/
theorem canon_sampleEvidence {signature : PyStr} (hs : hasSurrogate signature = false) :
    Canon sampleRuntime (sampleEvidence signature).asdict :=
  (canon_evidenceNamed (i := py "je-gateway") (hasSurrogate_ofText _) hs).2

/-- So can an approval. -/
theorem canon_sampleApproval {subject signature : PyStr} (hd : Inert subject)
    (hs : hasSurrogate signature = false) :
    Canon sampleRuntime (sampleApproval subject signature).unsigned ∧
      Canon sampleRuntime (sampleApproval subject signature).asdict := by
  have hkeys : GoodKeys ["approver_id", "role", "candidate_digest", "policy_epoch",
    "approved_at_ns", "expires_at_ns", "key_id", "signature"] := by decide
  have hunsigned : GoodKeys ["approver_id", "role", "candidate_digest", "policy_epoch",
    "approved_at_ns", "expires_at_ns", "key_id"] := by decide
  refine ⟨?_, ?_⟩
  · rw [Approval.unsigned, canon_ofEntries_iff (by simpa [Approval.entries] using hunsigned)]
    simp [Approval.entries, sampleApproval, hd.hasSurrogate, approverKey, py]
    decide
  · rw [Approval.asdict, canon_ofFields,
      canon_ofEntries_iff (by simpa [Approval.entries] using hkeys)]
    simp [Approval.entries, sampleApproval, hd.hasSurrogate, approverKey, py, hs]
    decide

/-- A candidate with the subject digest `d` that the sample policy governs once it is bound. -/
structure Fits (d : PyStr) (c : CandidateAct) : Prop where
  subject : governanceSubjectDigest sampleRuntime c = .ok d
  jurisdiction : c.jurisdiction = py "EU"
  policy_epoch : c.policy_epoch = 7
  runtime_evidence_digest : c.runtime_evidence_digest = py "runtime-ok"
  payload : sampleSovereigntyPolicy.payloadReasons c.payload = .ok []
  authority_context : c.authority_context = ∅

/-- The sample act fits, in both spellings, under one subject digest. -/
theorem sample_fits {d : PyStr}
    (hd : governanceSubjectDigest sampleRuntime sampleCandidate = .ok d) :
    Fits d sampleCandidate ∧ Fits d respelledCandidate :=
  ⟨⟨hd, rfl, rfl, rfl, rfl, rfl⟩,
    ⟨(eqv_governanceSubject sample_eqv).sha256Hex_eq.symm.trans hd, rfl, rfl, rfl, rfl, rfl⟩⟩

/-- Items of evidence that differ in their ids and signatures only. -/
structure FitEvidence (es : List JurisdictionEvidence) : Prop where
  items : ∀ e ∈ es, e = { sampleEvidence e.signature with evidence_id := e.evidence_id }
  ids : (es.map JurisdictionEvidence.evidence_id).Nodup
  nonempty : es ≠ []

/-- One item of evidence is enough. -/
theorem fitEvidence_singleton (s : PyStr) : FitEvidence [sampleEvidence s] :=
  ⟨by simp [sampleEvidence], List.nodup_singleton _, List.cons_ne_nil _ _⟩

/-- The sample policy governs a candidate that fits, with such evidence and an approval that names
its subject. -/
theorem sample_governs {d t : PyStr} {c : CandidateAct} (hc : Fits d c)
    {es : List JurisdictionEvidence} (hes : FitEvidence es) {now : Int} (hnow : 200 ≤ now)
    (hlate : now ≤ 201) :
    sampleSovereigntyPolicy.Governs sampleRuntime c sampleCompute es [sampleApproval d t] now := by
  obtain ⟨e, rest, rfl⟩ := List.exists_cons_of_ne_nil hes.nonempty
  have he := hes.items e List.mem_cons_self
  exact
    { jurisdiction := hc.jurisdiction
      policy_epoch := hc.policy_epoch
      compute_jurisdiction := by simp [sampleSovereigntyPolicy, sampleCompute]
      compute_provider := by simp [sampleSovereigntyPolicy, sampleCompute]
      runtime_evidence := by simp [sampleSovereigntyPolicy, sampleCompute]
      runtime_binding := hc.runtime_evidence_digest
      evidence_count := by
        simp only [sampleSovereigntyPolicy, List.length_cons]
        omega
      evidence_ids := hes.ids
      evidence_ok := by
        intro i hi
        rw [hes.items i hi]
        exact ⟨by simp [sampleSovereigntyPolicy, sampleEvidence],
          by simp [sampleSovereigntyPolicy, sampleEvidence],
          by simp [sampleSovereigntyPolicy, sampleEvidence],
          by simp only [sampleSovereigntyPolicy, sampleEvidence]; omega,
          by simp only [sampleEvidence]; omega⟩
      issuers := by
        have hcard : 0 < ((e :: rest).map JurisdictionEvidence.issuer).toFinset.card :=
          Finset.card_pos.2 ⟨e.issuer, by simp⟩
        simp only [sampleSovereigntyPolicy]
        omega
      assertion := fun _ => ⟨e, List.mem_cons_self, by rw [he]; rfl⟩
      approver_ids := by simp
      approvals_ok := by
        rw [List.forall_mem_singleton]
        exact ⟨hc.subject, rfl, by simp only [sampleSovereigntyPolicy, sampleApproval]; omega,
          by simp only [sampleApproval]; omega⟩
      threshold := by simp [sampleSovereigntyPolicy]
      roles := by
        simp only [sampleSovereigntyPolicy, List.forall_mem_singleton]
        exact ⟨_, List.mem_singleton.2 rfl, rfl⟩
      payload := hc.payload }

/-- **Signed evidence** under given ids. -/
theorem exists_signedEvidence {ids : List PyStr} (hnodup : ids.Nodup) (hne : ids ≠ [])
    (hids : ∀ i ∈ ids, hasSurrogate i = false) :
    ∃ es, es.map JurisdictionEvidence.evidence_id = ids ∧ FitEvidence es ∧
      Signed samplePlane.jurisdiction_evidence_verifiers JurisdictionEvidence.issuer
        JurisdictionEvidence.unsigned JurisdictionEvidence.signature JurisdictionEvidence.key_id
        es ∧ ∀ e ∈ es, Canon sampleRuntime e.asdict := by
  have hnil : hasSurrogate [] = false := rfl
  have hsign : ∀ i, ∃ s, hasSurrogate i = false → issuerKey.sign sampleRuntime
      { sampleEvidence [] with evidence_id := i }.unsigned = .ok s := by
    intro i
    by_cases hi : hasSurrogate i = false
    · obtain ⟨s, hs⟩ := issuerKey.sign_of_canon (canon_evidenceNamed hi hnil).1
      exact ⟨s, fun _ => hs⟩
    · exact ⟨[], fun h => absurd h hi⟩
  choose s hs using hsign
  have hid : (ids.map fun i => { sampleEvidence (s i) with evidence_id := i }).map
      JurisdictionEvidence.evidence_id = ids := by
    rw [List.map_map]
    exact List.map_id ids
  refine ⟨ids.map fun i => { sampleEvidence (s i) with evidence_id := i }, hid,
    ⟨?_, hid.symm ▸ hnodup, by simpa using hne⟩, ⟨_, rfl, ?_⟩, ?_⟩
  · rw [List.forall_mem_map]
    exact fun i _ => rfl
  · rw [List.forall_mem_map]
    intro i hi
    exact ⟨_, AList.lookup_insert _, HMACAuthenticator.verify_sign (hs i (hids i hi))⟩
  · rw [List.forall_mem_map]
    intro i hi
    exact (canon_evidenceNamed (hids i hi)
      (HMACAuthenticator.hasSurrogate_of_sign (hs i (hids i hi)))).2

/-- **A bundle for a subject**: signed evidence under given ids and a signed approval of the subject
digest `d`, and the context to which they bind every candidate that fits, so that the plane admits
it. -/
theorem sample_bundle {d : PyStr} (hdi : Inert d) {ids : List PyStr} (hnodup : ids.Nodup)
    (hne : ids ≠ []) (hids : ∀ i ∈ ids, hasSurrogate i = false) : ∃ es as ctx,
    es.map JurisdictionEvidence.evidence_id = ids ∧ Canon sampleRuntime (PyDict.toVal ctx) ∧
    ∀ {c : CandidateAct} {now : Int}, Fits d c → 200 ≤ now → now ≤ 201 →
      samplePlane.admits (c.withContext ctx) sampleCompute es as now = .ok () ∧
      governanceSubjectDigest sampleRuntime (c.withContext ctx) = .ok d := by
  -- the evidence and the approval, signed
  obtain ⟨es, hmap, hfit, hes, hce⟩ := exists_signedEvidence hnodup hne hids
  obtain ⟨t, ht⟩ : ∃ t, approverKey.sign sampleRuntime (sampleApproval d []).unsigned = .ok t :=
    HMACAuthenticator.sign_of_canon (canon_sampleApproval hdi rfl).1
  have has : Signed samplePlane.approval_verifiers Approval.approver_id Approval.unsigned
      Approval.signature Approval.key_id [sampleApproval d t] :=
    ⟨_, rfl, by
      rw [List.forall_mem_singleton]
      exact ⟨_, AList.lookup_insert _, HMACAuthenticator.verify_sign ht⟩⟩
  -- the digests the context is bound to
  have hca := (canon_sampleApproval hdi (HMACAuthenticator.hasSurrogate_of_sign ht)).2
  obtain ⟨kd, hkd⟩ : ∃ kd, sampleCompute.digest sampleRuntime = .ok kd := ⟨_, rfl⟩
  obtain ⟨ed, hed⟩ : ∃ ed, evidenceBundleDigest sampleRuntime es = .ok ed :=
    exists_bundleDigest JurisdictionEvidence.asdict hce
  obtain ⟨ad, had⟩ : ∃ ad, approvalsDigest sampleRuntime [sampleApproval d t] = .ok ad :=
    exists_bundleDigest Approval.asdict (List.forall_mem_singleton.2 hca)
  refine ⟨es, [sampleApproval d t], boundContext kd ed ad, hmap, ?_, ?_⟩
  · exact canon_boundContext (inert_of_digest hkd)
      (inert_of_bundleDigest hed) (inert_of_bundleDigest had)
  · intro c now hc hnow hlate
    have hbind : bindGovernanceContext sampleRuntime c sampleCompute es [sampleApproval d t] =
        .ok (c.withContext (boundContext kd ed ad)) := by
      refine bind_eq_ok.2 ⟨kd, hkd, bind_eq_ok.2 ⟨ed, hed, bind_eq_ok.2 ⟨ad, had, ?_⟩⟩⟩
      rw [hc.authority_context]
      rfl
    obtain ⟨-, -, -, -, -, -, -, -, hsub⟩ := bindGovernanceContext_ok hbind
    refine ⟨admits_ok.2 (admitted_of_bind hbind (fun _ => hes) (fun _ => has)
      (sample_governs hc hfit hnow hlate)), ?_⟩
    rw [governanceSubjectDigest, hsub]
    exact hc.subject

/-- And with one item of evidence. -/
theorem sample_bundle_one {d : PyStr} (hdi : Inert d) : ∃ es as ctx,
    Canon sampleRuntime (PyDict.toVal ctx) ∧ ∀ {c : CandidateAct} {now : Int}, Fits d c →
      200 ≤ now → now ≤ 201 →
        samplePlane.admits (c.withContext ctx) sampleCompute es as now = .ok () ∧
        governanceSubjectDigest sampleRuntime (c.withContext ctx) = .ok d := by
  obtain ⟨es, as, ctx, -, hbundle⟩ := sample_bundle hdi (List.nodup_singleton (py "je-gateway"))
    (List.cons_ne_nil _ _) (List.forall_mem_singleton.2 (hasSurrogate_ofText _))
  exact ⟨es, as, ctx, hbundle⟩

/-- **The sample submission**: one evidence bundle and one approval, with which the plane admits
the act in both spellings of its nonce. -/
theorem sample_submission : ∃ es as ctx d, Canon sampleRuntime (PyDict.toVal ctx) ∧
    samplePlane.admits (sampleCandidate.withContext ctx) sampleCompute es as 200 = .ok () ∧
    samplePlane.admits (respelledCandidate.withContext ctx) sampleCompute es as 201 = .ok () ∧
    governanceSubjectDigest sampleRuntime (sampleCandidate.withContext ctx) = .ok d ∧
    governanceSubjectDigest sampleRuntime (respelledCandidate.withContext ctx) = .ok d := by
  obtain ⟨d, hd⟩ := (eqv_governanceSubject sample_eqv).canon.sha256Hex
  obtain ⟨hfits, hfits'⟩ := sample_fits hd
  obtain ⟨es, as, ctx, hctx, hbundle⟩ := sample_bundle_one (inert_of_sha256Hex hd)
  exact ⟨es, as, ctx, d, hctx, (hbundle hfits (by decide) (by decide)).1,
    (hbundle hfits' (by decide) (by decide)).1, (hbundle hfits (le_refl 200) (by decide)).2,
    (hbundle hfits' (le_refl 200) (by decide)).2⟩

/-- And the submission of another act, with evidence and an approval of its own. -/
theorem next_submission : ∃ es as ctx, Canon sampleRuntime (PyDict.toVal ctx) ∧
    samplePlane.admits (nextCandidate.withContext ctx) sampleCompute es as 201 = .ok () := by
  obtain ⟨d, hd⟩ : ∃ d, sha256Hex sampleRuntime (governanceSubject nextCandidate).asdict = .ok d :=
    ⟨_, rfl⟩
  obtain ⟨es, as, ctx, hctx, hbundle⟩ := sample_bundle_one (inert_of_sha256Hex hd)
  have hfits : Fits d nextCandidate := ⟨hd, rfl, rfl, rfl, rfl, rfl⟩
  exact ⟨es, as, ctx, hctx, (hbundle hfits (by decide) (by decide)).1⟩

end Finality
