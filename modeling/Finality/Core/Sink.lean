import Finality.Core.State
import Finality.Core.Evidence
import Finality.Core.Effectors

/-!
# The Finality Sink (`sink.py`)

`verify` is the chain of checks between a candidate, its capability and the sink's own stores, and
`effectuate` is verify, claim, commit and receipt in that order. `Verified` is the conjunction of
everything `verify` has checked when it returns: the later modules read it and never the chain.

A caller passes `now_ns` or the sink reads its clock; the time is an argument here.
-/

namespace Finality

open Checks

/-- `FinalitySink`, without the stores it shares with others. -/
structure FinalitySink (R : Runtime) where
  context : SinkContext
  authenticator : Authenticator R
  effect_handle : Nat
  max_clock_skew_ns : Int
  receipt_authenticator : Option (Authenticator R)
  presenter_verifier : Option (PresenterVerifierRegistry R)
  require_presentation_proof : Bool
  presentation_freshness_ns : Int

/-- A `VerificationFailed`. -/
def verificationErr (message : String) : PyErr := .verificationFailed (py message)

namespace FinalitySink

section
variable {R : Runtime} (sink : FinalitySink R)

/-- The presented key is the string the candidate's authority context names. -/
def presenterBound (candidate : CandidateAct) (proof : PresentationProof) : Bool :=
  match candidate.authority_context.lookup (py "presenter_key_id") with
  | some (.str expected_key) => proof.presenter_key_id = expected_key
  | _ => false

/-- The block of `verify` under `require_presentation_proof`. -/
def checkPresentation (candidate : CandidateAct) (cap : Capability) (now : Int)
    (presentation_proof : Option PresentationProof) : Except PyErr Unit :=
  match presentation_proof, sink.presenter_verifier with
  | some proof, some verifier => do
    failIf (presenterBound candidate proof = false) (verificationErr "presenter_binding_mismatch")
    failIf (proof.capability_id ≠ cap.capability_id)
      (verificationErr "presentation_capability_mismatch")
    let candidate_digest ← candidate.digest R
    failIf (proof.candidate_digest ≠ candidate_digest)
      (verificationErr "presentation_candidate_mismatch")
    failIf (proof.sink_id ≠ sink.context.sink_id ∨ proof.boundary_id ≠ sink.context.boundary_id)
      (verificationErr "presentation_sink_boundary_mismatch")
    failIf (proof.nonce ≠ candidate.nonce) (verificationErr "presentation_nonce_mismatch")
    failIf ((now - proof.presented_at_ns).natAbs > sink.presentation_freshness_ns)
      (verificationErr "presentation_stale")
    let signed ← verifier.verify proof
    failIf (signed = false) (verificationErr "presentation_signature_invalid")
  | _, _ => .error (verificationErr "presentation_proof_required")

/-- The checks of `verify` that read the candidate and the capability only. -/
def checkBindings (candidate : CandidateAct) (cap : Capability) (now : Int) :
    Except PyErr Unit := do
  failIf (candidate.status ≠ .nonEffective) (verificationErr "candidate_not_non_effective")
  failIf (candidate.effect_class ≠ sink.context.effect_class)
    (verificationErr "effect_class_mismatch")
  failIf (candidate.sink_id ≠ sink.context.sink_id ∨ cap.sink_id ≠ sink.context.sink_id)
    (verificationErr "sink_binding_mismatch")
  failIf (candidate.boundary_id ≠ sink.context.boundary_id ∨
      cap.boundary_id ≠ sink.context.boundary_id)
    (verificationErr "boundary_binding_mismatch")
  failIf (candidate.policy_epoch ≠ sink.context.policy_epoch ∨
      cap.policy_epoch ≠ sink.context.policy_epoch)
    (verificationErr "policy_epoch_mismatch")
  failIf (candidate.scope ≠ cap.scope) (verificationErr "scope_binding_mismatch")
  failIf (¬ ∀ s ∈ cap.scope, s ∈ sink.context.supported_scopes)
    (verificationErr "scope_not_supported_by_sink")
  failIf (cap.nonce ≠ candidate.nonce) (verificationErr "nonce_binding_mismatch")
  failIf (now < cap.issued_at_ns - sink.max_clock_skew_ns)
    (verificationErr "capability_from_future")
  failIf (now > cap.expires_at_ns) (verificationErr "capability_expired")
  failIf (cap.expires_at_ns > candidate.issued_at_ns + candidate.freshness_ns)
    (verificationErr "capability_outlives_candidate")

/-- The checks of `verify` on the evidence it found. -/
def checkEvidence (cap : Capability) (evidence : ValidationEvidence) : Except PyErr Unit := do
  let signed ← sink.authenticator.verify evidence.unsigned evidence.signature evidence.key_id
  failIf (signed = false) (verificationErr "validation_evidence_signature_invalid")
  failIf (evidence.decision ≠ .allow) (verificationErr "validation_evidence_not_allow")
  failIf (evidence.authority_id ≠ cap.authority_id) (verificationErr "authority_binding_mismatch")
  failIf (evidence.candidate_digest ≠ cap.candidate_digest)
    (verificationErr "evidence_candidate_mismatch")
  failIf (evidence.descriptor_digest ≠ cap.descriptor_digest)
    (verificationErr "evidence_descriptor_mismatch")
  failIf (evidence.transition_id ≠ cap.transition_id)
    (verificationErr "evidence_transition_mismatch")
  failIf (evidence.policy_epoch ≠ cap.policy_epoch) (verificationErr "evidence_epoch_mismatch")

/-- `FinalitySink.verify` -/
def verify (evidence_store : EvidenceStore R) (protected_state : ProtectedState)
    (candidate : CandidateAct) (cap : Capability) (now : Int)
    (presentation_proof : Option PresentationProof) : Except PyErr PyStr := do
  sink.checkBindings candidate cap now
  let signed ← sink.authenticator.verify cap.unsigned cap.signature cap.key_id
  failIf (signed = false) (verificationErr "capability_signature_invalid")
  checkWhen (sink.require_presentation_proof = true)
    (sink.checkPresentation candidate cap now presentation_proof)
  let candidate_digest ← candidate.digest R
  failIf (cap.candidate_digest ≠ candidate_digest) (verificationErr "candidate_digest_mismatch")
  -- the descriptor is rebuilt under the sink's own sink and boundary identity
  let local_descriptor ←
    buildHcad R candidate (some sink.context.sink_id) (some sink.context.boundary_id)
  let descriptor_digest ← local_descriptor.digest R
  failIf (cap.descriptor_digest ≠ descriptor_digest)
    (verificationErr "descriptor_digest_mismatch")
  match evidence_store.get cap.evidence_id with
  | none => .error (verificationErr "validation_evidence_missing")
  | some evidence => do
    sink.checkEvidence cap evidence
    failIf (protected_state.verifyTransition cap.transition_id candidate = false)
      (verificationErr "protected_state_transition_invalid")
    .ok descriptor_digest

/-- `receipt_authenticator or authenticator` -/
def receiptAuthenticator : Authenticator R :=
  sink.receipt_authenticator.getD sink.authenticator

/-- `receipt_core` -/
def receiptCore (candidate_digest : PyStr) (cap : Capability) (descriptor_digest : PyStr)
    (now : Int) (effect_reference : Option PyStr) : List (String × PyVal) :=
  [("capability_id", .str cap.capability_id), ("candidate_digest", .str candidate_digest),
   ("descriptor_digest", .str descriptor_digest), ("sink_id", .str sink.context.sink_id),
   ("boundary_id", .str sink.context.boundary_id), ("transition_id", .str cap.transition_id),
   ("scope", .list (strs cap.scope)), ("effect_status", .str (py "EFFECTIVE")),
   ("committed_at_ns", .int now), ("effect_reference", optStr effect_reference),
   ("key_id", .str sink.receiptAuthenticator.key_id)]

/-- The receipt that `effectuate` builds after a commit. -/
def issueReceipt (candidate : CandidateAct) (cap : Capability) (descriptor_digest : PyStr)
    (now : Int) (effect_reference : Option PyStr) : Except PyErr SinkReceipt := do
  let candidate_digest ← candidate.digest R
  let receipt_core := sink.receiptCore candidate_digest cap descriptor_digest now effect_reference
  let receipt_id ← sha256Hex R (.ofEntries receipt_core)
  let signature ← sink.receiptAuthenticator.sign
    (.ofEntries (("receipt_id", .str receipt_id) :: receipt_core))
  .ok { receipt_id := receipt_id
        capability_id := cap.capability_id
        candidate_digest := candidate_digest
        descriptor_digest := descriptor_digest
        sink_id := sink.context.sink_id
        boundary_id := sink.context.boundary_id
        transition_id := cap.transition_id
        scope := cap.scope
        effect_status := py "EFFECTIVE"
        committed_at_ns := now
        effect_reference := effect_reference
        key_id := sink.receiptAuthenticator.key_id
        signature := signature }

end

end FinalitySink

/-- What `effectuate` writes to. -/
structure EffectStores where
  consumption_store : InMemoryConsumptionStore
  effector : GuardedEffector

namespace FinalitySink

section
variable {R : Runtime} (sink : FinalitySink R)

/-- `FinalitySink.effectuate` -/
def effectuate (evidence_store : EvidenceStore R) (protected_state : ProtectedState)
    (stores : EffectStores) (candidate : CandidateAct) (cap : Capability) (now : Int)
    (presentation_proof : Option PresentationProof) : Except PyErr SinkReceipt × EffectStores :=
  match sink.verify evidence_store protected_state candidate cap now presentation_proof with
  | .error e => (.error e, stores)
  | .ok descriptor_digest =>
    -- the claim comes before the effect, so a failed effect leaves the capability consumed
    match stores.consumption_store.claim cap.capability_id sink.context.sink_id
        sink.context.boundary_id cap.nonce now with
    | .error e => (.error e, stores)
    | .ok consumption_store =>
      match stores.effector.commit R candidate sink.effect_handle with
      | (.error exc, effector) =>
          (.error (.effectDenied exc.message), ⟨consumption_store, effector⟩)
      | (.ok record, effector) =>
          (sink.issueReceipt candidate cap descriptor_digest now (some record.effect_reference),
            ⟨consumption_store, effector⟩)

end

/-! ## What `verify` has checked -/

variable {R : Runtime}

/-- What the evidence under a capability's evidence id says. -/
structure EvidenceMatches (sink : FinalitySink R) (cap : Capability) (e : ValidationEvidence) :
    Prop where
  signed : sink.authenticator.verify e.unsigned e.signature e.key_id = .ok true
  decision : e.decision = .allow
  authority_id : e.authority_id = cap.authority_id
  candidate_digest : e.candidate_digest = cap.candidate_digest
  descriptor_digest : e.descriptor_digest = cap.descriptor_digest
  transition_id : e.transition_id = cap.transition_id
  policy_epoch : e.policy_epoch = cap.policy_epoch

/-- Everything that holds when `verify` returns the descriptor digest `d`. -/
structure Verified (sink : FinalitySink R) (ev : EvidenceStore R) (st : ProtectedState)
    (c : CandidateAct) (cap : Capability) (now : Int) (proof : Option PresentationProof)
    (d : PyStr) : Prop where
  status : c.status = .nonEffective
  effect_class : c.effect_class = sink.context.effect_class
  sink_id : c.sink_id = sink.context.sink_id ∧ cap.sink_id = sink.context.sink_id
  boundary_id : c.boundary_id = sink.context.boundary_id ∧
    cap.boundary_id = sink.context.boundary_id
  policy_epoch : c.policy_epoch = sink.context.policy_epoch ∧
    cap.policy_epoch = sink.context.policy_epoch
  scope : c.scope = cap.scope
  supported : ∀ s ∈ cap.scope, s ∈ sink.context.supported_scopes
  nonce : cap.nonce = c.nonce
  not_early : cap.issued_at_ns - sink.max_clock_skew_ns ≤ now
  not_late : now ≤ cap.expires_at_ns
  within : cap.expires_at_ns ≤ c.issued_at_ns + c.freshness_ns
  signed : sink.authenticator.verify cap.unsigned cap.signature cap.key_id = .ok true
  presentation : sink.require_presentation_proof = true →
    sink.checkPresentation c cap now proof = .ok ()
  candidate_digest : c.digest R = .ok cap.candidate_digest
  descriptor : ∃ h, buildHcad R c (some sink.context.sink_id) (some sink.context.boundary_id) =
    .ok h ∧ h.digest R = .ok cap.descriptor_digest
  result : d = cap.descriptor_digest
  evidence : ∃ e, ev.get cap.evidence_id = some e ∧ EvidenceMatches sink cap e
  transition : st.verifyTransition cap.transition_id c = true

/-- What the sink compares before it looks at any evidence. -/
theorem checkBindings_ok {sink : FinalitySink R} {c : CandidateAct} {cap : Capability} {now : Int} :
    sink.checkBindings c cap now = .ok () ↔
      c.status = .nonEffective ∧ c.effect_class = sink.context.effect_class ∧
      (c.sink_id = sink.context.sink_id ∧ cap.sink_id = sink.context.sink_id) ∧
      (c.boundary_id = sink.context.boundary_id ∧ cap.boundary_id = sink.context.boundary_id) ∧
      (c.policy_epoch = sink.context.policy_epoch ∧
        cap.policy_epoch = sink.context.policy_epoch) ∧
      c.scope = cap.scope ∧ (∀ s ∈ cap.scope, s ∈ sink.context.supported_scopes) ∧
      cap.nonce = c.nonce ∧ cap.issued_at_ns - sink.max_clock_skew_ns ≤ now ∧
      now ≤ cap.expires_at_ns ∧ cap.expires_at_ns ≤ c.issued_at_ns + c.freshness_ns := by
  simp only [checkBindings, bind_eq_ok, failIf_eq_ok, exists_unit, ne_eq, not_or,
    Decidable.not_not, Int.not_lt, gt_iff_lt]

/-- The evidence's checks. -/
theorem checkEvidence_ok {sink : FinalitySink R} {cap : Capability} {e : ValidationEvidence} :
    sink.checkEvidence cap e = .ok () ↔ EvidenceMatches sink cap e := by
  simp only [checkEvidence, bind_eq_ok, failIf_eq_ok, exists_unit, ne_eq, Decidable.not_not,
    Bool.not_eq_false]
  refine ⟨?_, ?_⟩
  · intro h
    obtain ⟨s, hs, rfl, h1, h2, h3, h4, h5, h6⟩ := h
    exact ⟨hs, h1, h2, h3, h4, h5, h6⟩
  · intro h
    obtain ⟨hs, h1, h2, h3, h4, h5, h6⟩ := h
    exact ⟨true, hs, rfl, h1, h2, h3, h4, h5, h6⟩

/-- **What the chain of checks amounts to.** -/
theorem verify_ok {sink : FinalitySink R} {ev : EvidenceStore R} {st : ProtectedState}
    {c : CandidateAct} {cap : Capability} {now : Int} {proof : Option PresentationProof}
    {d : PyStr} :
    sink.verify ev st c cap now proof = .ok d ↔ Verified sink ev st c cap now proof d := by
  simp only [verify, bind_eq_ok, failIf_eq_ok, exists_unit, checkBindings_ok, checkWhen_eq_ok,
    ne_eq, Decidable.not_not, Bool.not_eq_false]
  refine ⟨?_, ?_⟩
  · rintro ⟨⟨h1, h2, h3, h4, h5, h6, h7, h8, h9, h10, h11⟩, s, hs, rfl, hp, cd, hcd, rfl, h, hh,
      dd, hdd, rfl, hrest⟩
    split at hrest
    · simp at hrest
    · rename_i e he
      simp only [bind_eq_ok, exists_unit, checkEvidence_ok, failIf_eq_ok, Bool.not_eq_false,
        Except.ok.injEq] at hrest
      obtain ⟨hm, ht, rfl⟩ := hrest
      exact ⟨h1, h2, h3, h4, h5, h6, h7, h8, h9, h10, h11, hs, hp, hcd, ⟨h, hh, hdd⟩, rfl,
        ⟨e, he, hm⟩, ht⟩
  · rintro ⟨h1, h2, h3, h4, h5, h6, h7, h8, h9, h10, h11, hs, hp, hcd, ⟨h, hh, hdd⟩, rfl,
      ⟨e, he, hm⟩, ht⟩
    refine ⟨⟨h1, h2, h3, h4, h5, h6, h7, h8, h9, h10, h11⟩, true, hs, rfl, hp, _, hcd, rfl, h, hh,
      _, hdd, rfl, ?_⟩
    simp only [he, bind_eq_ok, exists_unit, checkEvidence_ok, failIf_eq_ok, Bool.not_eq_false]
    exact ⟨hm, ht, trivial⟩

/-- **A replay changes nothing**: a capability that was claimed before makes no effect. -/
theorem effectuate_claimed {sink : FinalitySink R} {ev : EvidenceStore R} {st : ProtectedState}
    {stores : EffectStores} {c : CandidateAct} {cap : Capability} {now : Int}
    {proof : Option PresentationProof}
    (h : cap.capability_id ∈ stores.consumption_store.claims) :
    (sink.effectuate ev st stores c cap now proof).2 = stores := by
  unfold effectuate
  split
  · rfl
  · split
    · rfl
    · rename_i hclaim
      exact absurd h (InMemoryConsumptionStore.claim_ok.1 hclaim).1

/-! ## Receipts -/

/-- What a receipt says. -/
structure ReceiptIssued (sink : FinalitySink R) (c : CandidateAct) (cap : Capability) (d : PyStr)
    (now : Int) (ref : Option PyStr) (receipt : SinkReceipt) : Prop where
  candidate_digest : c.digest R = .ok receipt.candidate_digest
  capability_id : receipt.capability_id = cap.capability_id
  descriptor_digest : receipt.descriptor_digest = d
  effect_reference : receipt.effect_reference = ref
  committed_at_ns : receipt.committed_at_ns = now
  receipt_id : sha256Hex R (.ofEntries (sink.receiptCore receipt.candidate_digest cap d now ref)) =
    .ok receipt.receipt_id
  signature : sink.receiptAuthenticator.sign receipt.unsigned = .ok receipt.signature

/-- What a receipt says. -/
theorem issueReceipt_ok {sink : FinalitySink R} {c : CandidateAct} {cap : Capability} {d : PyStr}
    {now : Int} {ref : Option PyStr} {receipt : SinkReceipt}
    (h : sink.issueReceipt c cap d now ref = .ok receipt) :
    ReceiptIssued sink c cap d now ref receipt := by
  simp only [issueReceipt, bind_eq_ok, Except.ok.injEq] at h
  obtain ⟨cd, hcd, i, hi, s, hs, rfl⟩ := h
  exact ⟨hcd, rfl, rfl, rfl, rfl, hi, hs⟩

/-- After a verified call at a time that can be written, a signer that signs everything canonical
signs the receipt. -/
theorem exists_receipt {sink : FinalitySink R} {ev : EvidenceStore R} {st : ProtectedState}
    {c : CandidateAct} {cap : Capability} {now : Int} {proof : Option PresentationProof}
    {d : PyStr} (hv : Verified sink ev st c cap now proof d)
    (hsign : sink.receiptAuthenticator.SignsCanon)
    (hkey : hasSurrogate sink.receiptAuthenticator.key_id = false) (hnow : printsInt now = true)
    {ref : Option PyStr} (href : Canon R (optStr ref)) :
    ∃ receipt, sink.issueReceipt c cap d now ref = .ok receipt := by
  have hcap := sink.authenticator.canon_of_verify hv.signed
  rw [Capability.unsigned, canon_ofEntries_iff (by simpa using goodKeys_capabilityKeys)] at hcap
  simp only [Capability.entries, List.map_cons, List.map_nil, List.forall_mem_cons, canon_str,
    canon_list] at hcap
  have hcd := (inert_of_sha256Hex hv.candidate_digest).hasSurrogate
  have hsid : hasSurrogate sink.context.sink_id = false := hv.sink_id.2 ▸ by tauto
  have hbid : hasSurrogate sink.context.boundary_id = false := hv.boundary_id.2 ▸ by tauto
  have hcore : ∀ v ∈ (sink.receiptCore cap.candidate_digest cap d now ref).map Prod.snd,
      Canon R v := by
    simp only [receiptCore, List.map_cons, List.map_nil, List.forall_mem_cons, canon_str,
      canon_int, canon_list, List.not_mem_nil, false_implies, implies_true, and_true, hv.result]
    exact ⟨by tauto, by tauto, by tauto, hsid, hbid, by tauto, by tauto, by simp [py], hnow, href,
      hkey⟩
  have hkeys : GoodKeys ("receipt_id" ::
      (sink.receiptCore cap.candidate_digest cap d now ref).map Prod.fst) := goodKeys_receiptKeys
  obtain ⟨i, hi⟩ := ((canon_ofEntries_iff hkeys.tail).2 hcore).sha256Hex
  obtain ⟨s, hs⟩ := hsign _
    (canon_ofEntries_cons hkeys (canon_str.2 (inert_of_sha256Hex hi).hasSurrogate) hcore)
  exact ⟨_, bind_eq_ok.2 ⟨_, hv.candidate_digest, bind_eq_ok.2 ⟨i, hi, bind_eq_ok.2 ⟨s, hs, rfl⟩⟩⟩⟩

end FinalitySink

end Finality
