import Finality.Core.Sample
import Finality.Sovereignty.Models

/-!
# Signature domain separation

Six kinds of artefact are signed, each as the canonical bytes of the dictionary its `unsigned()`
builds, and nothing in the dictionary names the kind. What tells them apart is that no kind's keys
are among another's (`eq_of_keys_subset`). So bytes are signed for one kind only, and determine the
fields up to NFC (`separated`).
-/

namespace Finality

open Checks

/-- The kinds of signed artefacts. -/
inductive Kind where
  | capability
  | validationEvidence
  | sinkReceipt
  | presentationProof
  | jurisdictionEvidence
  | approval
  deriving DecidableEq

/-- The keys of each kind's `unsigned()`. -/
def Kind.keys : Kind → List String
  | .capability => capabilityKeys
  | .validationEvidence => evidenceKeys
  | .sinkReceipt => receiptKeys
  | .presentationProof => presentationKeys
  | .jurisdictionEvidence =>
      ["evidence_id", "evidence_type", "asserted_jurisdiction", "issuer", "subject",
       "observed_at_ns", "expires_at_ns", "trust_class", "value_digest", "key_id"]
  | .approval =>
      ["approver_id", "role", "candidate_digest", "policy_epoch", "approved_at_ns",
       "expires_at_ns", "key_id"]

/-- A key that only the kind has. -/
def Kind.ownKey : Kind → String
  | .capability => "issued_at_ns"
  | .validationEvidence => "decision"
  | .sinkReceipt => "receipt_id"
  | .presentationProof => "presenter_key_id"
  | .jurisdictionEvidence => "asserted_jurisdiction"
  | .approval => "approver_id"

/-- Every kind has its own key. -/
theorem Kind.ownKey_mem_keys (k : Kind) : k.ownKey ∈ k.keys := by
  cases k <;> decide

/-- The keys of a kind are ASCII, and distinct. -/
theorem Kind.goodKeys (k : Kind) : GoodKeys k.keys := by
  cases k <;> decide

/-- No other kind has it. -/
theorem Kind.eq_of_ownKey_mem {k k' : Kind} (h : k.ownKey ∈ k'.keys) : k = k' := by
  cases k <;> cases k' <;> first | rfl | exact absurd h (by decide)

/-- **The keys of one kind are not among another's.** -/
theorem Kind.eq_of_keys_subset {k k' : Kind} (h : k.keys ⊆ k'.keys) : k = k' :=
  eq_of_ownKey_mem (h k.ownKey_mem_keys)

/-- A signed artefact. -/
inductive Artefact where
  | capability (cap : Capability)
  | validationEvidence (e : ValidationEvidence)
  | sinkReceipt (r : SinkReceipt)
  | presentationProof (p : PresentationProof)
  | jurisdictionEvidence (j : JurisdictionEvidence)
  | approval (a : Approval)

namespace Artefact

/-- Its kind. -/
def kind : Artefact → Kind
  | .capability _ => .capability
  | .validationEvidence _ => .validationEvidence
  | .sinkReceipt _ => .sinkReceipt
  | .presentationProof _ => .presentationProof
  | .jurisdictionEvidence _ => .jurisdictionEvidence
  | .approval _ => .approval

/-- The entries of its `unsigned()`. -/
def entries : Artefact → List (String × PyVal)
  | .capability cap => cap.entries
  | .validationEvidence e => e.entries
  | .sinkReceipt r => r.entries
  | .presentationProof p => p.entries
  | .jurisdictionEvidence j => j.entries
  | .approval a => a.entries

/-- Its `unsigned()`. -/
def unsigned : Artefact → PyVal
  | .capability cap => cap.unsigned
  | .validationEvidence e => e.unsigned
  | .sinkReceipt r => r.unsigned
  | .presentationProof p => p.unsigned
  | .jurisdictionEvidence j => j.unsigned
  | .approval a => a.unsigned

/-- What is signed are the entries without the signature. -/
theorem unsigned_eq (x : Artefact) : x.unsigned = .ofEntries x.entries := by
  cases x <;> rfl

/-- Their keys are those of the kind. -/
theorem keys_eq (x : Artefact) : x.entries.map Prod.fst = x.kind.keys := by
  cases x <;> rfl

end Artefact

/-! ## The fields, kind by kind -/

section
variable (R : Runtime)

/-- The fields of two items of evidence agree up to canonical equality. -/
structure EvidenceEqv (e e' : ValidationEvidence) : Prop where
  evidence_id : NfcEq R e.evidence_id e'.evidence_id
  authority_id : NfcEq R e.authority_id e'.authority_id
  descriptor_digest : NfcEq R e.descriptor_digest e'.descriptor_digest
  candidate_digest : NfcEq R e.candidate_digest e'.candidate_digest
  transition_id : NfcEq R e.transition_id e'.transition_id
  policy_epoch : e.policy_epoch = e'.policy_epoch
  decision : e.decision = e'.decision
  reasons : List.Forall₂ (NfcEq R) e.reasons e'.reasons
  committed_at_ns : e.committed_at_ns = e'.committed_at_ns
  key_id : NfcEq R e.key_id e'.key_id

/-- The fields of two receipts agree up to canonical equality. -/
structure ReceiptEqv (r r' : SinkReceipt) : Prop where
  receipt_id : NfcEq R r.receipt_id r'.receipt_id
  capability_id : NfcEq R r.capability_id r'.capability_id
  candidate_digest : NfcEq R r.candidate_digest r'.candidate_digest
  descriptor_digest : NfcEq R r.descriptor_digest r'.descriptor_digest
  sink_id : NfcEq R r.sink_id r'.sink_id
  boundary_id : NfcEq R r.boundary_id r'.boundary_id
  transition_id : NfcEq R r.transition_id r'.transition_id
  scope : List.Forall₂ (NfcEq R) r.scope r'.scope
  effect_status : NfcEq R r.effect_status r'.effect_status
  committed_at_ns : r.committed_at_ns = r'.committed_at_ns
  effect_reference : Option.Rel (NfcEq R) r.effect_reference r'.effect_reference
  key_id : NfcEq R r.key_id r'.key_id

/-- The fields of two items of jurisdiction evidence agree up to canonical equality. -/
structure JurisdictionEqv (j j' : JurisdictionEvidence) : Prop where
  evidence_id : NfcEq R j.evidence_id j'.evidence_id
  evidence_type : NfcEq R j.evidence_type j'.evidence_type
  asserted_jurisdiction : NfcEq R j.asserted_jurisdiction j'.asserted_jurisdiction
  issuer : NfcEq R j.issuer j'.issuer
  subject : NfcEq R j.subject j'.subject
  observed_at_ns : j.observed_at_ns = j'.observed_at_ns
  expires_at_ns : j.expires_at_ns = j'.expires_at_ns
  trust_class : NfcEq R j.trust_class j'.trust_class
  value_digest : NfcEq R j.value_digest j'.value_digest
  key_id : NfcEq R j.key_id j'.key_id

/-- The fields of two approvals agree up to canonical equality. -/
structure ApprovalEqv (a a' : Approval) : Prop where
  approver_id : NfcEq R a.approver_id a'.approver_id
  role : NfcEq R a.role a'.role
  candidate_digest : NfcEq R a.candidate_digest a'.candidate_digest
  policy_epoch : a.policy_epoch = a'.policy_epoch
  approved_at_ns : a.approved_at_ns = a'.approved_at_ns
  expires_at_ns : a.expires_at_ns = a'.expires_at_ns
  key_id : NfcEq R a.key_id a'.key_id

/-- Two artefacts of one kind whose signed fields agree up to NFC. -/
def Artefact.Agree : Artefact → Artefact → Prop
  | .capability cap, .capability cap' => CapabilityEqv R cap cap'
  | .validationEvidence e, .validationEvidence e' => EvidenceEqv R e e'
  | .sinkReceipt r, .sinkReceipt r' => ReceiptEqv R r r'
  | .presentationProof p, .presentationProof p' => PresentationEqv R p p'
  | .jurisdictionEvidence j, .jurisdictionEvidence j' => JurisdictionEqv R j j'
  | .approval a, .approval a' => ApprovalEqv R a a'
  | _, _ => False

end

variable {R : Runtime}

/-- The decisions are different strings in NFC. -/
theorem nfcEq_decision {d d' : Decision} (h : NfcEq R d.value d'.value) : d = d' := by
  have hv : ∀ d : Decision, R.nfc (toText d.value) = toText d.value := by
    intro d
    cases d <;> exact R.nfc_ascii _ (ascii_of_all (by decide))
  have heq := h.2.2
  rw [hv, hv] at heq
  cases d <;> cases d' <;> first | rfl | exact absurd heq (by decide)

/-- An optional string is `None` in both or one string in NFC. -/
theorem rel_of_eqv_optStr : ∀ {s t : Option PyStr}, Eqv R (optStr s) (optStr t) →
    Option.Rel (NfcEq R) s t
  | none, none, _ => .none
  | some _, some _, h => .some (eqv_str.1 h)
  | none, some t, ⟨n, hn, hn'⟩ => by
    obtain rfl := normal_none.1 hn
    cases (normal_str.1 hn').2
  | some s, none, ⟨n, hn, hn'⟩ => by
    obtain rfl := normal_none.1 hn'
    cases (normal_str.1 hn).2

/-- Evidence with one signed text agrees field by field. -/
theorem evidenceEqv_of_eqv {e e' : ValidationEvidence} (h : Eqv R e.unsigned e'.unsigned) :
    EvidenceEqv R e e' := by
  have hv := h.values rfl
  simp only [ValidationEvidence.entries, List.map_cons, List.map_nil, List.forall₂_cons,
    List.forall₂_nil_right_iff, eqv_str, eqv_int, eqv_list, forall₂_eqv_strs] at hv
  obtain ⟨h1, h2, h3, h4, h5, h6, h7, h8, h9, h10, -⟩ := hv
  exact ⟨h1, h2, h3, h4, h5, h6.1, nfcEq_decision h7, h8, h9.1, h10⟩

/-- So do receipts. -/
theorem receiptEqv_of_eqv {r r' : SinkReceipt} (h : Eqv R r.unsigned r'.unsigned) :
    ReceiptEqv R r r' := by
  have hv := h.values rfl
  simp only [SinkReceipt.entries, List.map_cons, List.map_nil, List.forall₂_cons,
    List.forall₂_nil_right_iff, eqv_str, eqv_int, eqv_list, forall₂_eqv_strs] at hv
  obtain ⟨h1, h2, h3, h4, h5, h6, h7, h8, h9, h10, h11, h12, -⟩ := hv
  exact ⟨h1, h2, h3, h4, h5, h6, h7, h8, h9, h10.1, rel_of_eqv_optStr h11, h12⟩

/-- So do items of jurisdiction evidence. -/
theorem jurisdictionEqv_of_eqv {j j' : JurisdictionEvidence} (h : Eqv R j.unsigned j'.unsigned) :
    JurisdictionEqv R j j' := by
  have hv := h.values rfl
  simp only [JurisdictionEvidence.entries, List.map_cons, List.map_nil, List.forall₂_cons,
    List.forall₂_nil_right_iff, eqv_str, eqv_int] at hv
  obtain ⟨h1, h2, h3, h4, h5, h6, h7, h8, h9, h10, -⟩ := hv
  exact ⟨h1, h2, h3, h4, h5, h6.1, h7.1, h8, h9, h10⟩

/-- So do approvals. -/
theorem approvalEqv_of_eqv {a a' : Approval} (h : Eqv R a.unsigned a'.unsigned) :
    ApprovalEqv R a a' := by
  have hv := h.values rfl
  simp only [Approval.entries, List.map_cons, List.map_nil, List.forall₂_cons,
    List.forall₂_nil_right_iff, eqv_str, eqv_int] at hv
  obtain ⟨h1, h2, h3, h4, h5, h6, h7, -⟩ := hv
  exact ⟨h1, h2, h3, h4.1, h5.1, h6.1, h7⟩

/-! ## Separation -/

/-- Canonically equal artefacts are of one kind. -/
theorem Artefact.kind_eq {x y : Artefact} (h : Eqv R x.unsigned y.unsigned) : x.kind = y.kind := by
  rw [unsigned_eq, unsigned_eq] at h
  have hsub := keys_subset_of_eqv h (by rw [keys_eq]; exact x.kind.goodKeys.2)
    (by rw [keys_eq]; exact y.kind.goodKeys.2)
  rw [keys_eq, keys_eq] at hsub
  exact Kind.eq_of_keys_subset hsub

/-- **And agree in every signed field.** -/
theorem Artefact.agree_of_eqv {x y : Artefact} (h : Eqv R x.unsigned y.unsigned) :
    x.Agree R y := by
  have hkind := kind_eq h
  cases x <;> cases y <;> cases hkind
  · exact capabilityEqv_of_eqv h
  · exact evidenceEqv_of_eqv h
  · exact receiptEqv_of_eqv h
  · exact presentationEqv_of_eqv h
  · exact jurisdictionEqv_of_eqv h
  · exact approvalEqv_of_eqv h

/-- The authentication code tells canonical byte strings apart. -/
def HmacInjective (R : Runtime) (key : List UInt8) : Prop :=
  Set.InjOn (R.hmac_sha256 key) {b | ∃ v, canonicalBytes R v = .ok b}

/-- A signature of one value that verifies on another. -/
theorem eqv_of_verify {auth : HMACAuthenticator} (hmac : HmacInjective R auth.key) {v w : PyVal}
    {s k : PyStr} (hs : auth.sign R v = .ok s) (hv : auth.verify R w s k = .ok true) :
    Eqv R v w := by
  rw [HMACAuthenticator.sign, map_eq_ok] at hs
  obtain ⟨b, hb, rfl⟩ := hs
  unfold HMACAuthenticator.verify at hv
  split at hv
  · cases hv
  obtain ⟨e, he, hcompare⟩ := bind_eq_ok.1 hv
  rw [HMACAuthenticator.sign, map_eq_ok] at he
  obtain ⟨b', hb', rfl⟩ := he
  rw [compareDigest] at hcompare
  split at hcompare
  · have heq := of_decide_eq_true (Except.ok.inj hcompare)
    obtain rfl : b' = b := hmac ⟨w, hb'⟩ ⟨v, hb⟩ (ofText_injective heq)
    exact eqv_of_canonicalBytes hb hb'
  · cases hcompare

/-- **Signature domain separation.** The bytes that are signed belong to artefacts of one kind
whose fields agree up to NFC, and so does a signature: it verifies on no other artefact. -/
theorem signature_separation {x y : Artefact} :
    (∀ b, canonicalBytes R x.unsigned = .ok b → canonicalBytes R y.unsigned = .ok b →
      x.kind = y.kind ∧ x.Agree R y) ∧
    ∀ auth : HMACAuthenticator, HmacInjective R auth.key → ∀ s k,
      auth.sign R x.unsigned = .ok s → auth.verify R y.unsigned s k = .ok true →
        x.kind = y.kind ∧ x.Agree R y := by
  refine ⟨?_, ?_⟩
  · intro b hx hy
    have heqv := eqv_of_canonicalBytes hx hy
    exact ⟨Artefact.kind_eq heqv, Artefact.agree_of_eqv heqv⟩
  · intro auth hmac s k hs hv
    have heqv := eqv_of_verify hmac hs hv
    exact ⟨Artefact.kind_eq heqv, Artefact.agree_of_eqv heqv⟩

/-- A presentation of a capability with the given nonce. -/
def samplePresentation (nonce : List Char) : Artefact :=
  .presentationProof ⟨py "capability-0", py "digest-0", py "sink-A", py "boundary-A", ofText nonce,
    150, py "presenter-A", []⟩

/-- The sample runtime tells messages apart. -/
theorem sample_hmacInjective : HmacInjective sampleRuntime sampleKey.key :=
  fun _ _ _ _ h => List.append_cancel_left (Hex.encode_injective h)

/-- The two spellings of a nonce are signed as one. -/
theorem signature_separation_sample :
    (∃ b, canonicalBytes sampleRuntime (samplePresentation [Char.ofNat 0xE9]).unsigned = .ok b ∧
      canonicalBytes sampleRuntime (samplePresentation ['e', Char.ofNat 0x301]).unsigned = .ok b) ∧
    (∃ s, sampleKey.sign sampleRuntime (samplePresentation [Char.ofNat 0xE9]).unsigned = .ok s ∧
      sampleKey.verify sampleRuntime (samplePresentation ['e', Char.ofNat 0x301]).unsigned s
        sampleKey.key_id = .ok true) ∧
    (samplePresentation [Char.ofNat 0xE9]).Agree sampleRuntime
      (samplePresentation ['e', Char.ofNat 0x301]) := by
  have heqv : Eqv sampleRuntime (samplePresentation [Char.ofNat 0xE9]).unsigned
      (samplePresentation ['e', Char.ofNat 0x301]).unsigned := ⟨_, ⟨rfl, rfl⟩, rfl, rfl⟩
  obtain ⟨b, hb⟩ := canon_iff_canonicalBytes.1 heqv.canon
  have hb' := heqv.canonicalBytes_eq.symm.trans hb
  obtain ⟨s, hs⟩ : ∃ s,
      sampleKey.sign sampleRuntime (samplePresentation [Char.ofNat 0xE9]).unsigned =
      .ok s := HMACAuthenticator.sign_of_canon heqv.canon
  have hs' : sampleKey.sign sampleRuntime (samplePresentation ['e', Char.ofNat 0x301]).unsigned =
      .ok s := by
    rw [HMACAuthenticator.sign, hb']
    rw [HMACAuthenticator.sign, hb] at hs
    exact hs
  have hv := HMACAuthenticator.verify_sign hs'
  exact ⟨⟨b, hb, hb'⟩, ⟨s, hs, hv⟩,
    (signature_separation.2 sampleKey sample_hmacInjective s _ hs hv).2⟩

end Finality
