import Finality.Sovereignty.Order
import Finality.Sovereignty.Separation
import Finality.Sovereignty.Soundness

/-!
# Bundle digests identify multisets

A bundle digest is a hash over the sorted hashes of its items. Sorting loses the order of the items
and nothing else: two bundles have one digest exactly when one is a rearrangement of the other, item
by item up to the NFC form of the strings, signatures and key ids included, and every item can be
hashed: no string with a lone surrogate, no integer that does not print (`bundleDigest_eq_iff`,
`bundles_identify`). The digests are bound into the context of an act, so two authorisations of acts
with one digest were decided on the same items.
-/

namespace Finality

open Checks AuthorityPlane

/-- The same items with the same multiplicities, up to `r`, in any order. -/
def SameBundle {α : Type} (r : α → α → Prop) (items items' : List α) : Prop :=
  ∃ arranged, items'.Perm arranged ∧ List.Forall₂ r items arranged

theorem SameBundle.imp {α : Type} {r r' : α → α → Prop} (himp : ∀ i j, r i j → r' i j)
    {items items' : List α} (h : SameBundle r items items') : SameBundle r' items items' := by
  obtain ⟨arranged, hperm, hall⟩ := h
  exact ⟨arranged, hperm, hall.imp himp⟩

variable {R : Runtime}

/-! ## The fields of an item -/

/-- Two items of evidence agree in every field, the signature included, and their integers
print. -/
structure SameEvidence (R : Runtime) (j j' : JurisdictionEvidence) : Prop
    extends JurisdictionEqv R j j' where
  signature : NfcEq R j.signature j'.signature
  prints : printsInt j.observed_at_ns = true ∧ printsInt j.expires_at_ns = true

/-- Two approvals agree in every field, the signature included, and their integers print. -/
structure SameApproval (R : Runtime) (a a' : Approval) : Prop extends ApprovalEqv R a a' where
  signature : NfcEq R a.signature a'.signature
  prints : printsInt a.policy_epoch = true ∧ printsInt a.approved_at_ns = true ∧
    printsInt a.expires_at_ns = true

/-- Artefacts with the same good keys are canonically equal when their values are. -/
theorem eqv_ofEntries_of_values {es es' : List (String × PyVal)}
    (hkeys : GoodKeys (es.map Prod.fst)) (hk : es.map Prod.fst = es'.map Prod.fst)
    (hv : List.Forall₂ (Eqv R) (es.map Prod.snd) (es'.map Prod.snd)) :
    Eqv R (.ofEntries es) (.ofEntries es') := by
  refine (eqv_ofEntries_iff hk).2 ⟨(canon_ofEntries_iff hkeys).2 fun v hmem => ?_, hv⟩
  obtain ⟨v', -, heqv⟩ := exists_mem_of_forall₂ hv hmem
  exact heqv.canon

/-- Items of evidence are canonically equal when they agree in every field. -/
theorem eqv_evidence_iff {j j' : JurisdictionEvidence} :
    Eqv R j.asdict j'.asdict ↔ SameEvidence R j j' := by
  rw [JurisdictionEvidence.asdict, JurisdictionEvidence.asdict, eqv_ofFields_left,
    eqv_ofFields_right]
  have hkeys : GoodKeys ["evidence_id", "evidence_type", "asserted_jurisdiction", "issuer",
    "subject", "observed_at_ns", "expires_at_ns", "trust_class", "value_digest", "key_id",
    "signature"] := by decide
  refine ⟨?_, ?_⟩
  · intro h
    have hv := h.values rfl
    simp only [JurisdictionEvidence.entries, List.cons_append, List.nil_append, List.map_cons,
      List.map_nil, List.forall₂_cons, List.forall₂_nil_right_iff, eqv_str, eqv_int] at hv
    obtain ⟨h1, h2, h3, h4, h5, h6, h7, h8, h9, h10, h11, -⟩ := hv
    exact ⟨⟨h1, h2, h3, h4, h5, h6.1, h7.1, h8, h9, h10⟩, h11, h6.2, h7.2⟩
  · intro h
    obtain ⟨⟨h1, h2, h3, h4, h5, h6, h7, h8, h9, h10⟩, h11, hp6, hp7⟩ := h
    refine eqv_ofEntries_of_values hkeys rfl ?_
    simp only [JurisdictionEvidence.entries, List.cons_append, List.nil_append, List.map_cons,
      List.map_nil, List.forall₂_cons, eqv_str, eqv_int]
    exact ⟨h1, h2, h3, h4, h5, ⟨h6, hp6⟩, ⟨h7, hp7⟩, h8, h9, h10, h11, .nil⟩

/-- Approvals are canonically equal when they agree in every field. -/
theorem eqv_approval_iff {a a' : Approval} :
    Eqv R a.asdict a'.asdict ↔ SameApproval R a a' := by
  rw [Approval.asdict, Approval.asdict, eqv_ofFields_left, eqv_ofFields_right]
  have hkeys : GoodKeys ["approver_id", "role", "candidate_digest", "policy_epoch",
    "approved_at_ns", "expires_at_ns", "key_id", "signature"] := by decide
  refine ⟨?_, ?_⟩
  · intro h
    have hv := h.values rfl
    simp only [Approval.entries, List.cons_append, List.nil_append, List.map_cons, List.map_nil,
      List.forall₂_cons, List.forall₂_nil_right_iff, eqv_str, eqv_int] at hv
    obtain ⟨h1, h2, h3, h4, h5, h6, h7, h8, -⟩ := hv
    exact ⟨⟨h1, h2, h3, h4.1, h5.1, h6.1, h7⟩, h8, h4.2, h5.2, h6.2⟩
  · intro h
    obtain ⟨⟨h1, h2, h3, h4, h5, h6, h7⟩, h8, hp4, hp5, hp6⟩ := h
    refine eqv_ofEntries_of_values hkeys rfl ?_
    simp only [Approval.entries, List.cons_append, List.nil_append, List.map_cons, List.map_nil,
      List.forall₂_cons, eqv_str, eqv_int]
    exact ⟨h1, h2, h3, ⟨h4, hp4⟩, ⟨h5, hp5⟩, ⟨h6, hp6⟩, h7, h8, .nil⟩

/-! ## The digest of a bundle -/

/-- Canonically equal items have one bundle digest. -/
theorem bundleDigest_eqv {α : Type} {value : α → PyVal} {items items' : List α}
    (h : List.Forall₂ (fun i j => Eqv R (value i) (value j)) items items') :
    bundleDigest R (fun i => sha256Hex R (value i)) items =
      bundleDigest R (fun i => sha256Hex R (value i)) items' := by
  have hdigests : items.mapM (fun i => sha256Hex R (value i)) =
      items'.mapM fun i => sha256Hex R (value i) := by
    induction h with
    | nil => rfl
    | cons heqv _ ih => rw [List.mapM_cons, List.mapM_cons, heqv.sha256Hex_eq, ih]
  rw [bundleDigest, bundleDigest, hdigests]

/-- **Two bundles have one digest** exactly when they hold the same items. -/
theorem bundleDigest_eq_iff (hsha : ShaInjective R) {α : Type} {value : α → PyVal}
    {items items' : List α} :
    (∃ d, bundleDigest R (fun i => sha256Hex R (value i)) items = .ok d ∧
      bundleDigest R (fun i => sha256Hex R (value i)) items' = .ok d) ↔
    SameBundle (fun i j => Eqv R (value i) (value j)) items items' := by
  refine ⟨?_, ?_⟩
  · intro h
    obtain ⟨d, hd, hd'⟩ := h
    exact items_of_bundle hsha hd hd'
  · intro h
    obtain ⟨arranged, hperm, hall⟩ := h
    have hcanon : ∀ i ∈ items, Canon R (value i) := by
      intro i hi
      obtain ⟨j, -, heqv⟩ := exists_mem_of_forall₂ hall hi
      exact heqv.canon
    obtain ⟨d, hd⟩ := exists_bundleDigest value hcanon
    exact ⟨d, hd, bundleDigest_perm hperm.symm ((bundleDigest_eqv hall).symm.trans hd)⟩

/-- Evidence bundles have one digest exactly when they hold the same evidence. -/
theorem evidenceBundleDigest_eq_iff (hsha : ShaInjective R) {xs ys : List JurisdictionEvidence} :
    (∃ d, evidenceBundleDigest R xs = .ok d ∧ evidenceBundleDigest R ys = .ok d) ↔
      SameBundle (SameEvidence R) xs ys := by
  have hiff : (∃ d, evidenceBundleDigest R xs = .ok d ∧ evidenceBundleDigest R ys = .ok d) ↔
      SameBundle (fun i j => Eqv R i.asdict j.asdict) xs ys := bundleDigest_eq_iff hsha
  exact hiff.trans ⟨.imp fun i j => eqv_evidence_iff.1, .imp fun i j => eqv_evidence_iff.2⟩

/-- Approval bundles have one digest exactly when they hold the same approvals. -/
theorem approvalsDigest_eq_iff (hsha : ShaInjective R) {xs ys : List Approval} :
    (∃ d, approvalsDigest R xs = .ok d ∧ approvalsDigest R ys = .ok d) ↔
      SameBundle (SameApproval R) xs ys := by
  have hiff : (∃ d, approvalsDigest R xs = .ok d ∧ approvalsDigest R ys = .ok d) ↔
      SameBundle (fun i j => Eqv R i.asdict j.asdict) xs ys := bundleDigest_eq_iff hsha
  exact hiff.trans ⟨.imp fun i j => eqv_approval_iff.1, .imp fun i j => eqv_approval_iff.2⟩

/-! ## What an authorisation was decided on -/

/-- A submission for which a plane issues a capability was admitted. -/
theorem admitted_of_authorize {plane : AuthorityPlane R} {s : AuthorityStores R} {c : CandidateAct}
    {k : ComputeContext} {es : List JurisdictionEvidence} {as : List Approval} {cost now : Int}
    {cap : Capability} (h : (plane.authorize s c k es as cost now).1 = .ok cap) :
    plane.Admitted c k es as now := by
  cases hadmits : plane.admits c k es as now with
  | ok u => exact admits_ok.1 hadmits
  | error e =>
    obtain ⟨plane', hauth⟩ : ∃ plane', plane.authorize s c k es as cost now =
      (.error e, plane', s) := authorize_of_not_admits hadmits
    rw [hauth] at h
    cases h

/-- The governance entries of canonically equal contexts, where both are digests. -/
theorem entry_eq_of_eqv_context {d d' : PyDict PyVal} (h : Eqv R d.toVal d'.toVal) {k s t : PyStr}
    (hk : k ∈ governanceKeys) (ht : Inert t) (hs : d.lookup k = some (.str s))
    (hs' : d'.lookup k = some (.str t)) : s = t := by
  obtain ⟨t', hs'', heq⟩ := entry_of_eqv_context h hk hs
  obtain rfl : t' = t := PyVal.str.inj (Option.some.inj (hs''.symm.trans hs'))
  exact heq.symm.eq_of_inert ht

/-- Submissions that are admitted for one act were decided on the same items. -/
theorem sameBundle_of_admitted (hsha : ShaInjective R) {plane plane' : AuthorityPlane R}
    {c c' : CandidateAct} {k k' : ComputeContext} {es es' : List JurisdictionEvidence}
    {as as' : List Approval} {now now' : Int} {d : PyStr} (h : plane.Admitted c k es as now)
    (h' : plane'.Admitted c' k' es' as' now') (hd : c.digest R = .ok d)
    (hd' : c'.digest R = .ok d) :
    SameBundle (SameEvidence R) es es' ∧ SameBundle (SameApproval R) as as' := by
  have hctx := (candidateEqv_of_digest hsha hd hd').authority_context
  obtain ⟨kd, ed, ad, -, hed, had, hbound⟩ := h.bound
  obtain ⟨kd', ed', ad', -, hed', had', hbound'⟩ := h'.bound
  obtain rfl : ed = ed' := entry_eq_of_eqv_context hctx (by simp [governanceKeys])
    (inert_of_bundleDigest hed') (hbound (py "jurisdiction_evidence_digest", ed) (by
      simp [requiredEntries])) (hbound' (_, ed') (by simp [requiredEntries]))
  obtain rfl : ad = ad' := entry_eq_of_eqv_context hctx (by simp [governanceKeys])
    (inert_of_bundleDigest had') (hbound (py "approvals_digest", ad) (by
      simp [requiredEntries])) (hbound' (_, ad') (by simp [requiredEntries]))
  exact ⟨(evidenceBundleDigest_eq_iff hsha).1 ⟨ed, hed, hed'⟩,
    (approvalsDigest_eq_iff hsha).1 ⟨ad, had, had'⟩⟩

/-- **Bundle digests identify multisets.** Two bundles of evidence, or of approvals, have one
digest exactly when they hold the same items with the same multiplicities, up to the NFC form of
their strings, all of which can be hashed; and capabilities that planes issued for candidates with
one digest were issued on the same evidence and the same approvals. -/
theorem bundles_identify (hsha : ShaInjective R) :
    (∀ xs ys, (∃ d, evidenceBundleDigest R xs = .ok d ∧ evidenceBundleDigest R ys = .ok d) ↔
      SameBundle (SameEvidence R) xs ys) ∧
    (∀ xs ys, (∃ d, approvalsDigest R xs = .ok d ∧ approvalsDigest R ys = .ok d) ↔
      SameBundle (SameApproval R) xs ys) ∧
    ∀ (plane plane' : AuthorityPlane R) s s' c c' k k' es es' as as' cost cost' now now' cap cap' d,
      (plane.authorize s c k es as cost now).1 = .ok cap →
      (plane'.authorize s' c' k' es' as' cost' now').1 = .ok cap' →
      c.digest R = .ok d → c'.digest R = .ok d →
      SameBundle (SameEvidence R) es es' ∧ SameBundle (SameApproval R) as as' :=
  ⟨fun _ _ => evidenceBundleDigest_eq_iff hsha, fun _ _ => approvalsDigest_eq_iff hsha,
    fun _ _ _ _ _ _ _ _ _ _ _ _ _ _ _ _ _ _ _ h h' => sameBundle_of_admitted hsha
      (admitted_of_authorize h) (admitted_of_authorize h')⟩

/-- A bundle with one item twice has another digest than the bundle that holds it once, and the
same digest in any order. -/
theorem bundles_identify_sample :
    (¬ ∃ d, evidenceBundleDigest sampleRuntime [sampleEvidence []] = .ok d ∧
      evidenceBundleDigest sampleRuntime [sampleEvidence [], sampleEvidence []] = .ok d) ∧
    ∃ d, evidenceBundleDigest sampleRuntime [sampleEvidence [], sampleEvidence (py "00")] = .ok d ∧
      evidenceBundleDigest sampleRuntime [sampleEvidence (py "00"), sampleEvidence []] = .ok d := by
  obtain ⟨hevidence, -⟩ := bundles_identify sample_injective
  refine ⟨?_, ?_⟩
  · intro h
    obtain ⟨arranged, hperm, hall⟩ := (hevidence _ _).1 h
    have hlength := hall.length_eq.trans hperm.length_eq.symm
    simp at hlength
  · refine (hevidence _ _).2 ⟨_, .swap _ _ [], .cons ?_ (.cons ?_ .nil)⟩
    · exact eqv_evidence_iff.1 (canon_sampleEvidence rfl).eqv
    · exact eqv_evidence_iff.1 (canon_sampleEvidence (hasSurrogate_ofText _)).eqv

end Finality
