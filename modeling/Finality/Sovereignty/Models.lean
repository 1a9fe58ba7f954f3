import Mathlib.Data.List.Perm.Basic
import Mathlib.Data.List.Sort
import Finality.Core.Models

/-!
# The artefacts of the authority plane (`sovereignty_ref/models.py`)

Compute contexts, jurisdiction evidence and approvals, and the digests they are bound by. A bundle
digest is taken over the sorted digests of its items, so it determines the items up to canonical
equality and order (`items_of_bundle`). The subject digest of a candidate is its digest without the
five governance entries of its context: it is what an approval names, and canonically equal
candidates have the same one (`eqv_governanceSubject`).
-/

namespace Finality

open Checks

/-- `ComputeContext` -/
structure ComputeContext where
  provider_id : PyStr
  compute_jurisdiction : PyStr
  workload_id : PyStr
  model_id : PyStr
  runtime_evidence_digest : PyStr
  session_id : PyStr
  deriving DecidableEq

/-- The fields of a compute context. -/
def ComputeContext.fields (c : ComputeContext) : List (String × PyVal) :=
  [("provider_id", .str c.provider_id), ("compute_jurisdiction", .str c.compute_jurisdiction),
   ("workload_id", .str c.workload_id), ("model_id", .str c.model_id),
   ("runtime_evidence_digest", .str c.runtime_evidence_digest), ("session_id", .str c.session_id)]

/-- `JurisdictionEvidence` -/
structure JurisdictionEvidence where
  evidence_id : PyStr
  evidence_type : PyStr
  asserted_jurisdiction : PyStr
  issuer : PyStr
  subject : PyStr
  observed_at_ns : Int
  expires_at_ns : Int
  trust_class : PyStr
  value_digest : PyStr
  key_id : PyStr
  signature : PyStr
  deriving DecidableEq

/-- The entries of `JurisdictionEvidence.unsigned`. -/
def JurisdictionEvidence.entries (e : JurisdictionEvidence) : List (String × PyVal) :=
  [("evidence_id", .str e.evidence_id), ("evidence_type", .str e.evidence_type),
   ("asserted_jurisdiction", .str e.asserted_jurisdiction), ("issuer", .str e.issuer),
   ("subject", .str e.subject), ("observed_at_ns", .int e.observed_at_ns),
   ("expires_at_ns", .int e.expires_at_ns), ("trust_class", .str e.trust_class),
   ("value_digest", .str e.value_digest), ("key_id", .str e.key_id)]

/-- `JurisdictionEvidence.unsigned` -/
def JurisdictionEvidence.unsigned (e : JurisdictionEvidence) : PyVal := .ofEntries e.entries

/-- An item of evidence as a value: the signed fields and the signature. -/
def JurisdictionEvidence.asdict (e : JurisdictionEvidence) : PyVal :=
  .ofFields (e.entries ++ [("signature", .str e.signature)])

/-- `Approval` -/
structure Approval where
  approver_id : PyStr
  role : PyStr
  candidate_digest : PyStr
  policy_epoch : Int
  approved_at_ns : Int
  expires_at_ns : Int
  key_id : PyStr
  signature : PyStr
  deriving DecidableEq

/-- The entries of `Approval.unsigned`. -/
def Approval.entries (a : Approval) : List (String × PyVal) :=
  [("approver_id", .str a.approver_id), ("role", .str a.role),
   ("candidate_digest", .str a.candidate_digest), ("policy_epoch", .int a.policy_epoch),
   ("approved_at_ns", .int a.approved_at_ns), ("expires_at_ns", .int a.expires_at_ns),
   ("key_id", .str a.key_id)]

/-- `Approval.unsigned` -/
def Approval.unsigned (a : Approval) : PyVal := .ofEntries a.entries

/-- An approval as a value: the signed fields and the signature. -/
def Approval.asdict (a : Approval) : PyVal :=
  .ofFields (a.entries ++ [("signature", .str a.signature)])

/-- `GovernanceDecision` -/
structure GovernanceDecision where
  allowed : Bool
  reasons : List PyStr
  compute_context_digest : PyStr
  jurisdiction_evidence_digest : PyStr
  approvals_digest : PyStr
  deriving DecidableEq

/-- `_GOVERNANCE_KEYS` -/
def governanceKeys : List PyStr :=
  [py "compute_context_digest", py "jurisdiction_evidence_digest", py "approvals_digest",
   py "compute_provider_id", py "compute_jurisdiction"]

/-- `sorted(digests)` -/
def sortedStrs (digests : List PyStr) : List PyStr := digests.insertionSort (· ≤ ·)

section
variable (R : Runtime)

/-- `ComputeContext.digest` -/
def ComputeContext.digest (c : ComputeContext) : Except PyErr PyStr :=
  sha256Hex R (.ofFields c.fields)

/-- `JurisdictionEvidence.digest` -/
def JurisdictionEvidence.digest (e : JurisdictionEvidence) : Except PyErr PyStr :=
  sha256Hex R e.asdict

/-- `Approval.digest` -/
def Approval.digest (a : Approval) : Except PyErr PyStr := sha256Hex R a.asdict

/-- `sha256_hex(tuple(sorted(i.digest() for i in items)))` -/
def bundleDigest {α : Type} (digest : α → Except PyErr PyStr) (items : List α) :
    Except PyErr PyStr := do
  let digests ← items.mapM digest
  sha256Hex R (.tuple (strs (sortedStrs digests)))

/-- `evidence_bundle_digest` -/
def evidenceBundleDigest (items : List JurisdictionEvidence) : Except PyErr PyStr :=
  bundleDigest R (JurisdictionEvidence.digest R) items

/-- `approvals_digest` -/
def approvalsDigest (items : List Approval) : Except PyErr PyStr :=
  bundleDigest R (Approval.digest R) items

/-- The candidate without the governance entries of its context. -/
def governanceSubject (candidate : CandidateAct) : CandidateAct :=
  { candidate with
    authority_context := candidate.authority_context.filterKeys fun k => k ∉ governanceKeys }

/-- `governance_subject_digest` -/
def governanceSubjectDigest (candidate : CandidateAct) : Except PyErr PyStr :=
  (governanceSubject candidate).digest R

end

/-! ## What a bundle digest binds -/

variable {R : Runtime}

theorem inert_of_mem_digests {α : Type} {value : α → PyVal} {items : List α} {ds : List PyStr}
    (h : List.Forall₂ (fun i d => sha256Hex R (value i) = .ok d) items ds) : ∀ d ∈ ds, Inert d := by
  intro d hd
  obtain ⟨i, -, hi⟩ := exists_mem_of_forall₂ h.flip hd
  exact inert_of_sha256Hex hi

/-- Lists of digests with the same NFC forms are the same. -/
theorem eq_of_forall₂_nfcEq {ds es : List PyStr} (h : List.Forall₂ (NfcEq R) ds es)
    (hes : ∀ e ∈ es, Inert e) : ds = es := by
  induction h with
  | nil => rfl
  | cons hde _ ih =>
    rw [List.forall_mem_cons] at hes
    rw [hde.eq_of_inert hes.1, ih hes.2]

/-- Items with one list of digests are canonically equal one by one. -/
theorem forall₂_eqv_of_digests (hsha : ShaInjective R) {α : Type} {value : α → PyVal} :
    ∀ {items items' : List α} {ds : List PyStr},
      List.Forall₂ (fun i d => sha256Hex R (value i) = .ok d) items ds →
      List.Forall₂ (fun i d => sha256Hex R (value i) = .ok d) items' ds →
      List.Forall₂ (fun i j => Eqv R (value i) (value j)) items items'
  | _, _, _, .nil, .nil => .nil
  | _, _, _, .cons hi his, .cons hj hjs =>
    .cons (eqv_of_sha256Hex hsha hi hj) (forall₂_eqv_of_digests hsha his hjs)

/-- **A bundle digest binds its items**, up to canonical equality and order. -/
theorem items_of_bundle (hsha : ShaInjective R) {α : Type} {value : α → PyVal}
    {items items' : List α} {d : PyStr}
    (h : bundleDigest R (fun i => sha256Hex R (value i)) items = .ok d)
    (h' : bundleDigest R (fun i => sha256Hex R (value i)) items' = .ok d) :
    ∃ arranged, items'.Perm arranged ∧
      List.Forall₂ (fun i j => Eqv R (value i) (value j)) items arranged := by
  obtain ⟨ds, hds, hd⟩ := bind_eq_ok.1 h
  obtain ⟨es, hes, he⟩ := bind_eq_ok.1 h'
  rw [mapM_eq_ok] at hds hes
  have heqv := eqv_of_sha256Hex hsha hd he
  rw [eqv_tuple_left, eqv_tuple_right, eqv_list, forall₂_eqv_strs] at heqv
  have hsorted := eq_of_forall₂_nfcEq heqv fun e hmem =>
    inert_of_mem_digests hes e ((List.mem_insertionSort _).1 hmem)
  have hperm : ds.Perm es := (List.perm_insertionSort _ ds).symm.trans
    (by rw [← sortedStrs, hsorted]; exact List.perm_insertionSort _ es)
  -- rearrange the second list of items as its digests are rearranged
  obtain ⟨arranged, harr, hp⟩ := List.perm_comp_forall₂ hperm hes.flip
  exact ⟨arranged, hp.symm, forall₂_eqv_of_digests hsha hds harr.flip⟩

/-- The digest of a compute context is inert. -/
theorem inert_of_digest {c : ComputeContext} {d : PyStr} (h : c.digest R = .ok d) : Inert d := by
  rw [ComputeContext.digest] at h
  exact inert_of_sha256Hex h

/-- A bundle digest is inert. -/
theorem inert_of_bundleDigest {α : Type} {digest : α → Except PyErr PyStr} {items : List α}
    {d : PyStr} (h : bundleDigest R digest items = .ok d) : Inert d := by
  obtain ⟨ds, -, hd⟩ := bind_eq_ok.1 h
  exact inert_of_sha256Hex hd

/-- Items with canonical bytes have a bundle digest. -/
theorem exists_bundleDigest {α : Type} (value : α → PyVal) {items : List α}
    (h : ∀ i ∈ items, Canon R (value i)) :
    ∃ d, bundleDigest R (fun i => sha256Hex R (value i)) items = .ok d := by
  obtain ⟨ds, hds⟩ := (exists_forall₂ (r := fun i d => sha256Hex R (value i) = .ok d)).1
    fun i hi => (h i hi).sha256Hex
  have hcanon : Canon R (.tuple (strs (sortedStrs ds))) := by
    rw [canon_tuple, strs, List.forall_mem_map]
    intro d hd
    exact canon_str.2 (inert_of_mem_digests hds d ((List.mem_insertionSort _).1 hd)).hasSurrogate
  obtain ⟨d, hd⟩ := hcanon.sha256Hex
  exact ⟨d, bind_eq_ok.2 ⟨ds, mapM_eq_ok.2 hds, hd⟩⟩

/-- Items with a bundle digest have canonical bytes. -/
theorem canon_of_bundleDigest {α : Type} {value : α → PyVal} {items : List α} {d : PyStr}
    (h : bundleDigest R (fun i => sha256Hex R (value i)) items = .ok d) :
    ∀ i ∈ items, Canon R (value i) := by
  intro i hi
  obtain ⟨ds, hds, -⟩ := bind_eq_ok.1 h
  rw [mapM_eq_ok] at hds
  obtain ⟨d', -, hd'⟩ := exists_mem_of_forall₂ hds hi
  exact canon_of_sha256Hex hd'

/-- Items have a bundle digest when each has canonical bytes. -/
theorem exists_bundleDigest_iff {α : Type} {value : α → PyVal} {items : List α} :
    (∃ d, bundleDigest R (fun i => sha256Hex R (value i)) items = .ok d) ↔
      ∀ i ∈ items, Canon R (value i) :=
  ⟨fun ⟨_, h⟩ => canon_of_bundleDigest h, exists_bundleDigest value⟩

/-! ## What the subject digest binds -/

/-- The governance keys are spelled with inert characters. -/
theorem inert_governanceKeys {k : PyStr} (h : k ∈ governanceKeys) : Inert k := by
  simp only [governanceKeys, List.mem_cons, List.not_mem_nil, or_false] at h
  rcases h with rfl | rfl | rfl | rfl | rfl <;>
    exact ⟨_, rfl, List.all_eq_true.1 (by decide)⟩

/-- Whether a key is a governance key depends on its NFC form only. -/
theorem mem_governanceKeys_iff {k : PyStr} {t : List Char} (h : normalizeKey R (.str k) = .ok t) :
    k ∈ governanceKeys ↔ ofText t ∈ governanceKeys := by
  rw [normalizeKey, nfcText_eq_ok] at h
  obtain ⟨hs, rfl⟩ := h
  have heq : NfcEq R k (ofText (R.nfc (toText k))) :=
    ⟨hs, hasSurrogate_ofText _, by rw [toText_ofText, R.nfc_idem]⟩
  refine ⟨?_, ?_⟩
  · intro hk
    rwa [heq.symm.eq_of_inert (inert_governanceKeys hk)]
  · intro hk
    rwa [heq.eq_of_inert (inert_governanceKeys hk)]

/-- Related lists stay related when both are filtered by tests that agree on related elements. -/
theorem forall₂_filter {α β : Type} {r : α → β → Prop} {p : α → Bool} {q : β → Bool}
    (hpq : ∀ a b, r a b → p a = q b) {as : List α} {bs : List β} (h : List.Forall₂ r as bs) :
    List.Forall₂ r (as.filter p) (bs.filter q) := by
  induction h with
  | nil => exact .nil
  | @cons a b _ _ hab _ ih =>
    rw [List.filter_cons, List.filter_cons, hpq a b hab]
    split
    · exact .cons hab ih
    · exact ih

/-- Canonically equal contexts stay so without their governance entries. -/
theorem eqv_filterKeys {d d' : PyDict PyVal} (h : Eqv R d.toVal d'.toVal) :
    Eqv R (d.filterKeys fun k => k ∉ governanceKeys).toVal
      (d'.filterKeys fun k => k ∉ governanceKeys).toVal := by
  obtain ⟨n, hn, hn'⟩ := h
  obtain ⟨ms, hms, hnd, rfl⟩ := normal_dict.1 hn
  obtain ⟨ms', hms', hnd', hobj⟩ := normal_dict.1 hn'
  have hperm : ms.Perm ms' := KeyOrder.perm_of_sortByKey_eq (JsonText.Json.obj.inj hobj)
  -- filtering the entries is filtering their normal forms
  have hfilter : ∀ {d : PyDict PyVal} {ms : List (List Char × JsonText.Json)},
      List.Forall₂ (WrittenEntry R) (d.entries.map fun e => (.str e.1, e.2)) ms →
      List.Forall₂ (WrittenEntry R)
        ((d.filterKeys fun k => k ∉ governanceKeys).entries.map fun e => (.str e.1, e.2))
        (ms.filter fun m => ofText m.1 ∉ governanceKeys) := by
    intro d ms h
    rw [List.forall₂_map_left_iff] at h ⊢
    refine forall₂_filter (fun e m hem => ?_) h
    rw [decide_eq_decide, mem_governanceKeys_iff hem.1]
  have hnodup : ∀ {ms : List (List Char × JsonText.Json)}, (ms.map Prod.fst).Nodup →
      ((ms.filter fun m => ofText m.1 ∉ governanceKeys).map Prod.fst).Nodup :=
    fun h => h.sublist (List.filter_sublist.map _)
  refine ⟨_, normal_dict.2 ⟨_, hfilter hms, hnodup hnd, rfl⟩,
    normal_dict.2 ⟨_, hfilter hms', hnodup hnd', ?_⟩⟩
  rw [KeyOrder.sortByKey_eq_of_perm (hperm.filter _) (hnodup hnd)]

/-- **Canonically equal candidates have one subject.** -/
theorem eqv_governanceSubject {c c' : CandidateAct} (h : Eqv R c.asdict c'.asdict) :
    Eqv R (governanceSubject c).asdict (governanceSubject c').asdict := by
  have he := candidateEqv_of_eqv h
  have hctx := eqv_filterKeys he.authority_context
  refine eqv_of_candidateEqv ?_ { he with authority_context := hctx }
  exact candidateCanon_iff.2
    { candidateCanon_iff.1 h.canon with authority_context := hctx.canon }

/-- Candidates with one subject digest have nonces with one NFC form. -/
theorem nonce_of_governanceSubjectDigest (hsha : ShaInjective R) {c c' : CandidateAct}
    {d : PyStr} (h : governanceSubjectDigest R c = .ok d)
    (h' : governanceSubjectDigest R c' = .ok d) : NfcEq R c.nonce c'.nonce :=
  (candidateEqv_of_digest hsha h h').nonce

end Finality
