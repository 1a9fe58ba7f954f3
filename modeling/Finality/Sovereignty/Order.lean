import Finality.Sovereignty.Declared

/-!
# The order of the governance inputs

`validate` reads the evidence and the approvals in the order they come in: the first of two items
with one id counts and the second is a duplicate, reasons are collected in that order, and each
signature loop stops at its first failure. What a caller can act on does not depend on the order
(`order_irrelevant`): bundle digests are taken over sorted digests (`bundleDigest_perm`), whether
the loops raise is settled by the items alone (`exists_validate`), and the verdict is the declared
one (`validate_perm`).
-/

namespace Finality

open Checks

/-! ## Bundles in another order -/

/-- Sorting forgets the order. -/
theorem sortedStrs_perm {ds ds' : List PyStr} (h : ds.Perm ds') : sortedStrs ds = sortedStrs ds' :=
  List.Perm.eq_of_sortedLE List.sortedLE_insertionSort List.sortedLE_insertionSort
    ((List.perm_insertionSort _ ds).trans (h.trans (List.perm_insertionSort _ ds').symm))

/-- The digest of a bundle does not depend on the order of its items. -/
theorem bundleDigest_perm {R : Runtime} {α : Type} {digest : α → Except PyErr PyStr}
    {items items' : List α} (hperm : items.Perm items') {d : PyStr}
    (h : bundleDigest R digest items = .ok d) : bundleDigest R digest items' = .ok d := by
  obtain ⟨ds, hds, hd⟩ := bind_eq_ok.1 h
  obtain ⟨ds', hds', hp⟩ := List.perm_comp_forall₂ hperm.symm (mapM_eq_ok.1 hds)
  rw [sortedStrs_perm hp.symm] at hd
  exact bind_eq_ok.2 ⟨ds', mapM_eq_ok.2 hds', hd⟩

namespace SovereigntyPolicy

variable {R : Runtime} {p : SovereigntyPolicy}

/-! ## When the policy returns a decision -/

/-- A turn of the loop over the approvals raises when the approver is new and the candidate has no
subject digest. -/
theorem exists_approvalStep {c : CandidateAct} {now : Int} {s : ApprovalScan} {a : Approval} :
    (∃ t, p.approvalStep R c now s a = .ok t) ↔
      a.approver_id ∈ s.seen_approvers ∨ ∃ d, governanceSubjectDigest R c = .ok d := by
  rw [approvalStep]
  split
  case isTrue hseen => exact ⟨fun _ => .inl hseen, fun _ => ⟨_, rfl⟩⟩
  case isFalse hseen =>
    refine ⟨?_, ?_⟩
    · intro h
      obtain ⟨t, h⟩ := h
      obtain ⟨d, hd, -⟩ := bind_eq_ok.1 h
      exact .inr ⟨d, hd⟩
    · intro h
      obtain ⟨d, hd⟩ := h.resolve_left hseen
      exact ⟨_, bind_eq_ok.2 ⟨d, hd, rfl⟩⟩

/-- The loop over the approvals does not raise when the candidate has a subject digest. -/
theorem foldlM_approvalStep_ok {c : CandidateAct} {now : Int} {d : PyStr}
    (hd : governanceSubjectDigest R c = .ok d) : ∀ (as : List Approval) (s : ApprovalScan),
    ∃ t, as.foldlM (p.approvalStep R c now) s = .ok t
  | [], s => ⟨s, rfl⟩
  | a :: as, s => by
    obtain ⟨u, hu⟩ : ∃ u, p.approvalStep R c now s a = .ok u :=
      exists_approvalStep.2 (.inr ⟨d, hd⟩)
    obtain ⟨t, ht⟩ := foldlM_approvalStep_ok hd as u
    exact ⟨t, bind_eq_ok.2 ⟨u, hu, ht⟩⟩

/-- **The loop over the approvals** raises when there is an approval and the candidate has no
subject digest. -/
theorem exists_foldlM_approvalStep {c : CandidateAct} {now : Int} {as : List Approval} :
    (∃ t, as.foldlM (p.approvalStep R c now) ⟨[], [], []⟩ = .ok t) ↔
      (as ≠ [] → ∃ d, governanceSubjectDigest R c = .ok d) := by
  cases as with
  | nil => simp
  | cons a as =>
    refine ⟨?_, ?_⟩
    · intro h _
      obtain ⟨t, h⟩ := h
      obtain ⟨u, hu, -⟩ := bind_eq_ok.1 h
      exact (exists_approvalStep.1 ⟨u, hu⟩).resolve_left List.not_mem_nil
    · intro h
      obtain ⟨d, hd⟩ := h (List.cons_ne_nil _ _)
      exact foldlM_approvalStep_ok hd _ _

/-- **When the policy returns a decision**, allowed or not: everything it takes a digest of has
one, and the payload's values can be looked up in what is listed. -/
theorem exists_validate {c : CandidateAct} {k : ComputeContext} {es : List JurisdictionEvidence}
    {as : List Approval} {now : Int} : (∃ d, p.validate R c k es as now = .ok d) ↔
      (as ≠ [] → ∃ d, governanceSubjectDigest R c = .ok d) ∧
      (∃ rs, p.payloadReasons c.payload = .ok rs) ∧ (∃ kd, k.digest R = .ok kd) ∧
      (∃ ed, evidenceBundleDigest R es = .ok ed) ∧ ∃ ad, approvalsDigest R as = .ok ad := by
  have hloop : (∃ t, as.foldlM (p.approvalStep R c now) ⟨[], [], []⟩ = .ok t) ↔
      (as ≠ [] → ∃ d, governanceSubjectDigest R c = .ok d) := exists_foldlM_approvalStep
  rw [← hloop]
  simp only [validate, bind_eq_ok]
  refine ⟨?_, ?_⟩
  · intro h
    obtain ⟨d, given, hgiven, rs, hrs, kd, hkd, ed, hed, ad, had, -⟩ := h
    exact ⟨⟨given, hgiven⟩, ⟨rs, hrs⟩, ⟨kd, hkd⟩, ⟨ed, hed⟩, ad, had⟩
  · intro h
    obtain ⟨⟨given, hgiven⟩, ⟨rs, hrs⟩, ⟨kd, hkd⟩, ⟨ed, hed⟩, ad, had⟩ := h
    exact ⟨_, given, hgiven, rs, hrs, kd, hkd, ed, hed, ad, had, rfl⟩

/-- With the items in another order there is a decision when there was one, with the same verdict
and the same digests. -/
theorem validate_of_perm {c : CandidateAct} {k : ComputeContext}
    {es es' : List JurisdictionEvidence} {as as' : List Approval} {now : Int}
    {d : GovernanceDecision} (hes : es.Perm es') (has : as.Perm as')
    (h : p.validate R c k es as now = .ok d) :
    ∃ d', p.validate R c k es' as' now = .ok d' ∧ d'.allowed = d.allowed ∧
      d'.compute_context_digest = d.compute_context_digest ∧
      d'.jurisdiction_evidence_digest = d.jurisdiction_evidence_digest ∧
      d'.approvals_digest = d.approvals_digest := by
  obtain ⟨hsubject, hpayload, -⟩ := exists_validate.1 ⟨d, h⟩
  obtain ⟨hkd, hed, had⟩ := validate_digests h
  have hed' : evidenceBundleDigest R es' = .ok d.jurisdiction_evidence_digest :=
    bundleDigest_perm hes hed
  have had' : approvalsDigest R as' = .ok d.approvals_digest := bundleDigest_perm has had
  have hsubject' : as' ≠ [] → ∃ d, governanceSubjectDigest R c = .ok d := fun hne =>
    hsubject fun hnil => hne (hnil ▸ has).nil_eq.symm
  obtain ⟨d', h'⟩ := exists_validate.2 ⟨hsubject', hpayload, ⟨_, hkd⟩, ⟨_, hed'⟩, _, had'⟩
  obtain ⟨hkd'', hed'', had''⟩ := validate_digests h'
  exact ⟨d', h', (validate_perm hes has h h').symm, Except.ok.inj (hkd''.symm.trans hkd),
    Except.ok.inj (hed''.symm.trans hed'), Except.ok.inj (had''.symm.trans had')⟩

end SovereigntyPolicy

namespace AuthorityPlane

variable {R : Runtime} {plane : AuthorityPlane R}

/-- What is signed stays signed in another order. -/
theorem Signed.perm {α : Type} {verifiers : Option (PrincipalVerifierRegistry R)}
    {principal : α → PyStr} {unsigned : α → PyVal} {signature key_id : α → PyStr}
    {items items' : List α} (hperm : items.Perm items')
    (h : Signed verifiers principal unsigned signature key_id items) :
    Signed verifiers principal unsigned signature key_id items' := by
  obtain ⟨reg, hreg, hall⟩ := h
  exact ⟨reg, hreg, fun i hi => hall i (hperm.mem_iff.2 hi)⟩

/-- What the plane admits it admits in another order. -/
theorem Admitted.perm {c : CandidateAct} {k : ComputeContext} {es es' : List JurisdictionEvidence}
    {as as' : List Approval} {now : Int} (hes : es.Perm es') (has : as.Perm as')
    (h : plane.Admitted c k es as now) : plane.Admitted c k es' as' now := by
  obtain ⟨d, hd, hcheck⟩ := bind_eq_ok.1 (admits_ok.2 h)
  rw [decide, bind_eq_ok] at hd
  obtain ⟨⟨⟩, -, hd⟩ := hd
  obtain ⟨⟨⟩, -, hval⟩ := bind_eq_ok.1 hd
  obtain ⟨hallow, -⟩ := checkDecision_ok.1 hcheck
  obtain ⟨d', hval', hallow', -⟩ := SovereigntyPolicy.validate_of_perm hes has hval
  obtain ⟨kd, ed, ad, hkd, hed, had, hbound⟩ := h.bound
  exact
    { evidence_signed := fun hreq => (h.evidence_signed hreq).perm hes
      approvals_signed := fun hreq => (h.approvals_signed hreq).perm has
      governs := (SovereigntyPolicy.allowed_iff_governs hval').1 (hallow'.trans hallow)
      bound := ⟨kd, ed, ad, hkd, bundleDigest_perm hes hed, bundleDigest_perm has had, hbound⟩ }

/-- A submission is admitted in one order when it is in the other. -/
theorem admits_perm {c : CandidateAct} {k : ComputeContext} {es es' : List JurisdictionEvidence}
    {as as' : List Approval} {now : Int} (hes : es.Perm es') (has : as.Perm as') :
    plane.admits c k es as now = .ok () ↔ plane.admits c k es' as' now = .ok () := by
  rw [admits_ok, admits_ok]
  exact ⟨.perm hes has, .perm hes.symm has.symm⟩

end AuthorityPlane

/-- **The order of the governance inputs is irrelevant.** For evidence and approvals in another
order the policy returns the same verdict and the same digests or raises as well, and the plane
issues the same capability or fails as well, and leaves the same stores behind. -/
theorem order_irrelevant {R : Runtime} (p : SovereigntyPolicy) (plane : AuthorityPlane R)
    (s : AuthorityStores R) (c : CandidateAct) (k : ComputeContext) (cost now : Int)
    {es es' : List JurisdictionEvidence} {as as' : List Approval} (hes : es.Perm es')
    (has : as.Perm as') :
    (∀ d, p.validate R c k es as now = .ok d →
      ∃ d', p.validate R c k es' as' now = .ok d' ∧ d'.allowed = d.allowed ∧
        d'.compute_context_digest = d.compute_context_digest ∧
        d'.jurisdiction_evidence_digest = d.jurisdiction_evidence_digest ∧
        d'.approvals_digest = d.approvals_digest) ∧
    ((∃ e, p.validate R c k es as now = .error e) ↔
      ∃ e, p.validate R c k es' as' now = .error e) ∧
    (∀ cap, (plane.authorize s c k es as cost now).1 = .ok cap ↔
      (plane.authorize s c k es' as' cost now).1 = .ok cap) ∧
    (plane.authorize s c k es as cost now).2.2 = (plane.authorize s c k es' as' cost now).2.2 := by
  have herror : ∀ {es es' : List JurisdictionEvidence} {as as' : List Approval}, es.Perm es' →
      as.Perm as' → (∃ e, p.validate R c k es as now = .error e) →
      ∃ e, p.validate R c k es' as' now = .error e := by
    intro es es' as as' hes has h
    obtain ⟨e, h⟩ := h
    cases h' : p.validate R c k es' as' now with
    | error e' => exact ⟨e', rfl⟩
    | ok d' =>
      obtain ⟨d, hd, -⟩ := SovereigntyPolicy.validate_of_perm hes.symm has.symm h'
      cases h.symm.trans hd
  refine ⟨fun d => SovereigntyPolicy.validate_of_perm hes has,
    ⟨herror hes has, herror hes.symm has.symm⟩, ?_⟩
  cases hadmits : plane.admits c k es as now with
  | ok u =>
    obtain ⟨p₁, h₁⟩ : ∃ p₁, plane.authorize s c k es as cost now =
        ((plane.protected_authority.authorize s c cost now).1, p₁, _) :=
      AuthorityPlane.authorize_of_admits hadmits
    obtain ⟨p₂, h₂⟩ : ∃ p₂, plane.authorize s c k es' as' cost now =
        ((plane.protected_authority.authorize s c cost now).1, p₂, _) :=
      AuthorityPlane.authorize_of_admits ((AuthorityPlane.admits_perm hes has).1 hadmits)
    rw [h₁, h₂]
    exact ⟨fun cap => .rfl, rfl⟩
  | error e =>
    cases hadmits' : plane.admits c k es' as' now with
    | ok u => cases hadmits.symm.trans ((AuthorityPlane.admits_perm hes has).2 hadmits')
    | error e' =>
      obtain ⟨p₁, h₁⟩ : ∃ p₁, plane.authorize s c k es as cost now = (.error e, p₁, s) :=
        AuthorityPlane.authorize_of_not_admits hadmits
      obtain ⟨p₂, h₂⟩ : ∃ p₂, plane.authorize s c k es' as' cost now = (.error e', p₂, s) :=
        AuthorityPlane.authorize_of_not_admits hadmits'
      rw [h₁, h₂]
      exact ⟨fun cap => ⟨fun h => (by cases h), fun h => (by cases h)⟩, rfl⟩

/-- Two items of evidence in both orders: the policy allows the act and the plane issues the
capability in either. -/
theorem order_irrelevant_sample : ∃ e e' as ctx d d' cap, e ≠ e' ∧
    sampleSovereigntyPolicy.validate sampleRuntime (sampleCandidate.withContext ctx) sampleCompute
      [e, e'] as 200 = .ok d ∧ d.allowed = true ∧
    sampleSovereigntyPolicy.validate sampleRuntime (sampleCandidate.withContext ctx) sampleCompute
      [e', e] as 200 = .ok d' ∧ d'.allowed = true ∧
    (samplePlane.authorize sampleWorld.authority (sampleCandidate.withContext ctx) sampleCompute
      [e, e'] as 1 200).1 = .ok cap ∧
    (samplePlane.authorize sampleWorld.authority (sampleCandidate.withContext ctx) sampleCompute
      [e', e] as 1 200).1 = .ok cap := by
  obtain ⟨d, hd⟩ := (eqv_governanceSubject sample_eqv).canon.sha256Hex
  obtain ⟨es, as, ctx, hids, hctx, hbundle⟩ := sample_bundle (inert_of_sha256Hex hd)
    (by decide : [py "je-gateway", py "je-registry"].Nodup) (List.cons_ne_nil _ _) (by decide)
  obtain ⟨e, e', rfl⟩ : ∃ e e', es = [e, e'] := by
    have hlength := congrArg List.length hids
    rw [List.length_map] at hlength
    exact List.length_eq_two.1 hlength
  obtain ⟨hid, hids⟩ := List.cons.inj hids
  have hne : e ≠ e' := by
    rintro rfl
    exact absurd (hid.symm.trans (List.cons.inj hids).1) (by decide)
  have hadmits := (hbundle (sample_fits hd).1 (le_refl 200) (by decide)).1
  obtain ⟨g, hg, hallowed⟩ := AuthorityPlane.validate_of_admits hadmits
  rw [show samplePlane.policy = sampleSovereigntyPolicy from rfl] at hg
  obtain ⟨cap, s', h⟩ := sample_authorize_context hctx
  have hcap : (samplePlane.authorize sampleWorld.authority (sampleCandidate.withContext ctx)
      sampleCompute [e, e'] as 1 200).1 = .ok cap := by
    obtain ⟨p₁, h₁⟩ : ∃ p₁, samplePlane.authorize sampleWorld.authority
        (sampleCandidate.withContext ctx) sampleCompute [e, e'] as 1 200 =
        ((samplePlane.protected_authority.authorize sampleWorld.authority
          (sampleCandidate.withContext ctx) 1 200).1, p₁, _) :=
      AuthorityPlane.authorize_of_admits hadmits
    rw [h₁, show samplePlane.protected_authority = sampleAuthority from rfl, h]
  have hother := order_irrelevant sampleSovereigntyPolicy samplePlane sampleWorld.authority
    (sampleCandidate.withContext ctx) sampleCompute 1 200 (.swap e' e []) (.refl as)
  obtain ⟨g', hg', hsame, -⟩ := hother.1 g hg
  exact ⟨e, e', as, ctx, g, g', cap, hne, hg, hallowed, hg', hsame.trans hallowed, hcap,
    (hother.2.2.1 cap).1 hcap⟩

end Finality
