import Finality.Canonical.Domain
import Finality.Core.Completeness

/-!
# What the sink raises

`verify` is written to raise `VerificationFailed` and nothing else, and callers tell outcomes apart
by the type of the exception. Its own checks keep to that, the stores it reads cannot make it raise,
but two helpers can: canonicalisation refuses a value it has no bytes for, a string with a lone
surrogate or an integer of more digits than Python prints, and the comparison of codes refuses a
signature that is not ASCII. `Escapes` says for which inputs one of these is reached
(`refusals_iff`); the state of the stores does not matter, because what is in the evidence store has
been verified before (`Vetted`).
-/

namespace Finality

open Checks ProtectedState ProtectedAuthority FinalitySink Runs

variable {R : Runtime}

/-- An exception other than `VerificationFailed`. -/
def Stray : PyErr → Prop
  | .verificationFailed _ => False
  | _ => True

/-- A `VerificationError` is an answer. -/
@[simp] theorem not_stray_verificationErr {m : String} : ¬ Stray (verificationErr m) := id

/-- The call returned, or it raised `VerificationFailed`. -/
def Answers {α : Type} (r : Except PyErr α) : Prop :=
  (∃ d, r = .ok d) ∨ ∃ message, r = .error (.verificationFailed message)

/-- A call answers when it raises nothing else. -/
theorem answers_iff {α : Type} {r : Except PyErr α} : Answers r ↔ ¬ FailsWith Stray r := by
  cases r with
  | ok d => simp [Answers]
  | error e => cases e <;> simp [Answers, Stray]

/-! ## Helpers that raise -/

/-- Canonicalisation raises where there are no canonical bytes, and never `VerificationFailed`. -/
theorem stray_canonicalBytes {v : PyVal} :
    FailsWith Stray (canonicalBytes R v) ↔ ¬ Canon R v := by
  rw [canonicalBytes, failsWith_bind]
  cases h : normalize R false v with
  | ok n =>
    -- the normal form is written, unless an integer in it has too many digits
    have hdump : FailsWith Stray (dump n) ↔ ¬ prints n = true := by
      unfold dump
      split <;> simp_all [digitsErr, Stray]
    simp [Canon, Normal, h, hdump]
  | error e =>
    have hrefusal := (refusal h).1
    have hstray : Stray e := by
      cases e with
      | verificationFailed m => exact hrefusal.elim
      | _ => trivial
    simp [Canon, Normal, h, hstray]

/-- So it is for a digest. -/
theorem stray_sha256Hex {v : PyVal} : FailsWith Stray (sha256Hex R v) ↔ ¬ Canon R v := by
  rw [sha256Hex, failsWith_map, stray_canonicalBytes]

namespace Authenticator

/-- The authenticator compares codes with `hmac.compare_digest`. -/
def IsHmac (a : Authenticator R) : Prop := ∃ h : HMACAuthenticator, a = h.toAuthenticator R

/-- One of the two reference authenticators: the signatures they accept are written in ASCII, and
`verify` is that of `HMACAuthenticator`, or returns on every input, as that of
`Ed25519Authenticator` does, which answers `False` to every exception. -/
structure Reference (a : Authenticator R) : Prop where
  ascii_of_verify : ∀ {v s k}, a.verify v s k = .ok true → isAsciiStr s = true
  hmac_or_total : a.IsHmac ∨ ∀ v s k, ∃ b, a.verify v s k = .ok b

/-- **When `verify` raises**: for its own key id, where the value has no canonical bytes or the
signature is not ASCII. -/
structure Raises (a : Authenticator R) (value : PyVal) (signature key_id : PyStr) : Prop where
  hmac : a.IsHmac
  key_id : key_id = a.key_id
  malformed : ¬ Canon R value ∨ isAsciiStr signature = false

end Authenticator

/-- Comparing with a string that is not ASCII raises a `TypeError`. -/
theorem stray_compareDigest {s t : PyStr} (hs : isAsciiStr s = true) :
    FailsWith Stray (compareDigest s t) ↔ isAsciiStr t = false := by
  cases ht : isAsciiStr t <;> simp [compareDigest, hs, ht, Stray]

/-- When verifying with an HMAC key raises. -/
theorem HMACAuthenticator.stray_verify {h : HMACAuthenticator} {v : PyVal} {s k : PyStr} :
    FailsWith Stray (h.verify R v s k) ↔
      k = h.key_id ∧ (¬ Canon R v ∨ isAsciiStr s = false) := by
  rw [verify]
  split
  case isTrue hk => simp [hk]
  case isFalse hk =>
    rw [failsWith_bind, sign, failsWith_map, stray_canonicalBytes]
    simp only [not_not.1 hk, true_and]
    refine ⟨?_, ?_⟩
    · intro hraise
      rcases hraise with hcanon | ⟨expected, hsign, hraise⟩
      · exact .inl hcanon
      · exact .inr ((stray_compareDigest (isAsciiStr_of_sign hsign)).1 hraise)
    · intro hmalformed
      by_cases hcanon : Canon R v
      · obtain ⟨expected, hsign⟩ := h.sign_of_canon hcanon
        exact .inr ⟨expected, hsign, (stray_compareDigest (isAsciiStr_of_sign hsign)).2
          (hmalformed.resolve_left (not_not.2 hcanon))⟩
      · exact .inl hcanon

/-- Under its own key id `verify` is the comparison with the code of the value. -/
theorem HMACAuthenticator.verify_eq {h : HMACAuthenticator} {v : PyVal} {s expected : PyStr}
    (hsign : h.sign R v = .ok expected) :
    h.verify R v s h.key_id = compareDigest expected s := by
  rw [HMACAuthenticator.verify, if_neg (not_not.2 rfl), hsign, ok_bind]

/-- The reference HMAC authenticator is a reference authenticator. -/
theorem HMACAuthenticator.reference (h : HMACAuthenticator) : (h.toAuthenticator R).Reference where
  ascii_of_verify := by
    intro v s k (hverify : h.verify R v s k = .ok true)
    by_contra hascii
    have hraises : FailsWith Stray (h.verify R v s k) := by
      refine HMACAuthenticator.stray_verify.2 ⟨?_, .inr (by simpa using hascii)⟩
      by_contra hk
      rw [HMACAuthenticator.verify, if_pos hk] at hverify
      cases hverify
    obtain ⟨e, he, -⟩ := hraises
    cases he.symm.trans hverify
  hmac_or_total := .inl ⟨h, rfl⟩

/-- When verifying with a reference authenticator raises. -/
theorem Authenticator.Reference.stray_verify {a : Authenticator R} (ha : a.Reference) {v : PyVal}
    {s k : PyStr} : FailsWith Stray (a.verify v s k) ↔ a.Raises v s k := by
  refine ⟨?_, ?_⟩
  · intro hraise
    rcases ha.hmac_or_total with ⟨h, rfl⟩ | htotal
    · obtain ⟨hk, hmalformed⟩ := HMACAuthenticator.stray_verify.1 hraise
      exact ⟨⟨h, rfl⟩, hk, hmalformed⟩
    · obtain ⟨e, he, -⟩ := hraise
      obtain ⟨b, hb⟩ := htotal v s k
      cases he.symm.trans hb
  · intro hraises
    obtain ⟨⟨h, rfl⟩, hk, hmalformed⟩ := hraises
    exact HMACAuthenticator.stray_verify.2 ⟨hk, hmalformed⟩

/-- A reference authenticator does not raise on what another one accepted. -/
theorem Authenticator.Reference.not_raises {a b : Authenticator R} (hb : b.Reference) {v : PyVal}
    {s k : PyStr} (h : b.verify v s k = .ok true) (k' : PyStr) : ¬ a.Raises v s k' := by
  intro hraises
  rcases hraises.malformed with hcanon | hascii
  · exact hcanon (b.canon_of_verify h)
  · cases (hb.ascii_of_verify h).symm.trans hascii

/-! ## The stores -/

/-- Everything in the evidence store was accepted by its authenticator when it was committed. -/
structure Vetted (b : Authenticator R) (store : EvidenceStore R) : Prop where
  authenticator : store.authenticator = b
  verified : ∀ i e, store.get i = some e → b.verify e.unsigned e.signature e.key_id = .ok true

/-- Only verified evidence is committed. -/
theorem Vetted.commit {b : Authenticator R} {store store' : EvidenceStore R}
    {e : ValidationEvidence} (hvetted : Vetted b store) (h : store.commit e = .ok store') :
    Vetted b store' := by
  obtain ⟨hb, hverified⟩ := hvetted
  obtain ⟨-, hsigned, -, rfl⟩ := EvidenceStore.commit_ok.1 h
  refine ⟨hb, fun i e' he' => ?_⟩
  by_cases hi : i = e.evidence_id
  · subst hi
    obtain rfl := Option.some.inj ((AList.lookup_insert _).symm.trans he')
    exact hb ▸ hsigned
  · exact hverified i e' ((AList.lookup_insert_ne hi).symm.trans he')

/-- Any call, and nothing is assumed of it. -/
def Invoked (a : ProtectedAuthority R) (w : World R) (op : Op R) (w' : World R) : Prop :=
  w' = exec a w op

/-- A call keeps the evidence store vetted. -/
theorem Vetted.exec {a : ProtectedAuthority R} {b : Authenticator R} {w : World R} (op : Op R)
    (h : Vetted b w.authority.evidence_store) :
    Vetted b (exec a w op).authority.evidence_store := by
  cases op with
  | authorize c cost now =>
    obtain ⟨r, s', hauth⟩ : ∃ r s', a.authorize w.authority c cost now = (r, s') := ⟨_, _, rfl⟩
    simp only [Finality.exec, hauth]
    rcases authorize_cases hauth with ⟨e, st, -, rfl, -⟩ | ⟨t, st, -, -, hadv⟩
    · exact h
    · cases hadv with
      | evidenceRefused => exact h
      | commitRefused => exact h
      | capabilityRefused _ hc => exact h.commit hc
      | issued _ hc => exact h.commit hc
  | failCommits b' => exact ⟨h.authenticator, h.verified⟩
  | _ => exact h

/-- **The evidence in the store has been verified**, in every run. -/
theorem vetted_of_run {a : ProtectedAuthority R} {w₀ w : World R} {ops : List (Op R)}
    (h0 : w₀.Empty) (hrun : Run (Invoked a) w₀ ops w) :
    Vetted w₀.authority.evidence_store.authenticator w.authority.evidence_store := by
  have hempty : Vetted w₀.authority.evidence_store.authenticator w₀.authority.evidence_store := by
    refine ⟨rfl, fun i e he => ?_⟩
    rw [EvidenceStore.get, h0.evidence] at he
    cases he
  exact hrun.invariant (fun w => Vetted w₀.authority.evidence_store.authenticator
    w.authority.evidence_store) hempty fun w op w' hw (hstep : w' = Finality.exec a w op) =>
      hstep ▸ hw.exec op

/-! ## Which inputs raise -/

/-- A capability has canonical bytes when no string has a lone surrogate and its epoch and times can
be written. -/
theorem canon_capability_iff {cap : Capability} : Canon R cap.unsigned ↔
    (∀ s ∈ [cap.capability_id, cap.authority_id, cap.candidate_digest, cap.descriptor_digest,
      cap.sink_id, cap.boundary_id, cap.nonce, cap.evidence_id, cap.transition_id, cap.key_id] ++
        cap.scope, hasSurrogate s = false) ∧
    ∀ i ∈ [cap.policy_epoch, cap.issued_at_ns, cap.expires_at_ns], printsInt i = true := by
  rw [Capability.unsigned, canon_ofEntries_iff (by simpa using goodKeys_capabilityKeys)]
  simp only [Capability.entries, List.map_cons, List.map_nil, List.forall_mem_cons, canon_str,
    canon_int, canon_list, strs, List.forall_mem_map, List.forall_mem_append, List.not_mem_nil,
    false_implies, implies_true, and_true]
  tauto

/-- A presentation proof has canonical bytes when no string has a lone surrogate and its time can be
written. -/
theorem canon_presentation_iff {p : PresentationProof} : Canon R p.unsigned ↔
    (∀ s ∈ [p.capability_id, p.candidate_digest, p.sink_id, p.boundary_id, p.nonce,
      p.presenter_key_id], hasSurrogate s = false) ∧ printsInt p.presented_at_ns = true := by
  rw [PresentationProof.unsigned,
    canon_ofEntries_iff (by rw [keys_presentation]; exact goodKeys_presentationKeys)]
  simp only [PresentationProof.entries, List.map_cons, List.map_nil, List.forall_mem_cons,
    canon_str, canon_int, List.not_mem_nil, false_implies, implies_true, and_true]
  tauto

/-- The act and the capability agree with each other, with the sink and with the time. -/
structure Addressed (sink : FinalitySink R) (c : CandidateAct) (cap : Capability) (now : Int) :
    Prop where
  status : c.status = .nonEffective
  effect_class : c.effect_class = sink.context.effect_class
  sink_id : c.sink_id = sink.context.sink_id ∧ cap.sink_id = sink.context.sink_id
  boundary_id : c.boundary_id = sink.context.boundary_id ∧
    cap.boundary_id = sink.context.boundary_id
  policy_epoch : c.policy_epoch = sink.context.policy_epoch ∧
    cap.policy_epoch = sink.context.policy_epoch
  scope : c.scope = cap.scope
  supported : ∀ s ∈ cap.scope, s ∈ sink.context.supported_scopes
  nonce : cap.nonce = c.nonce
  not_early : cap.issued_at_ns - sink.max_clock_skew_ns ≤ now
  not_late : now ≤ cap.expires_at_ns
  within : cap.expires_at_ns ≤ c.issued_at_ns + c.freshness_ns

/-- The checks on a presentation proof that come before the candidate's digest. -/
structure Presented (sink : FinalitySink R) (c : CandidateAct) (cap : Capability)
    (proof : Option PresentationProof) (p : PresentationProof)
    (reg : PresenterVerifierRegistry R) : Prop where
  proof : proof = some p
  presenter_verifier : sink.presenter_verifier = some reg
  bound : presenterBound c p = true
  capability_id : p.capability_id = cap.capability_id

/-- **The inputs on which another exception escapes**, as far as the checks before it pass: a
capability under the sink's key id that has no canonical bytes or whose signature is not ASCII; a
candidate without canonical bytes under a signed capability; a presentation proof for the candidate
under a registered key id that has no canonical bytes or whose signature is not ASCII. What keeps a
capability or a proof from having canonical bytes is a lone surrogate in a string or an integer that
does not print (`canon_capability_iff`, `canon_presentation_iff`). -/
inductive Escapes (sink : FinalitySink R) (c : CandidateAct) (cap : Capability) (now : Int)
    (proof : Option PresentationProof) : Prop where
  | capability (haddressed : Addressed sink c cap now)
      (hraises : sink.authenticator.Raises cap.unsigned cap.signature cap.key_id)
  | candidate (haddressed : Addressed sink c cap now)
      (hsigned : sink.authenticator.verify cap.unsigned cap.signature cap.key_id = .ok true)
      (hpresented : sink.require_presentation_proof = true →
        ∃ p reg, Presented sink c cap proof p reg)
      (hcanon : ¬ Canon R c.asdict)
  | presentation (haddressed : Addressed sink c cap now)
      (hsigned : sink.authenticator.verify cap.unsigned cap.signature cap.key_id = .ok true)
      (hrequired : sink.require_presentation_proof = true)
      {p : PresentationProof} {reg : PresenterVerifierRegistry R}
      (hpresented : Presented sink c cap proof p reg)
      (hdigest : c.digest R = .ok p.candidate_digest)
      (hsink : p.sink_id = sink.context.sink_id ∧ p.boundary_id = sink.context.boundary_id)
      (hnonce : p.nonce = c.nonce)
      (hfresh : (now - p.presented_at_ns).natAbs ≤ sink.presentation_freshness_ns)
      {verifier : Authenticator R}
      (hregistered : reg.verifiers.lookup p.presenter_key_id = some verifier)
      (hraises : verifier.Raises p.unsigned p.signature p.presenter_key_id)

section
variable {sink : FinalitySink R} {c : CandidateAct} {cap : Capability} {now : Int}
  {proof : Option PresentationProof}

/-- The checks of the bindings pass exactly for what is addressed to the sink. -/
theorem addressed_iff : sink.checkBindings c cap now = .ok () ↔ Addressed sink c cap now := by
  rw [checkBindings_ok]
  refine ⟨?_, ?_⟩
  · intro h
    obtain ⟨h1, h2, h3, h4, h5, h6, h7, h8, h9, h10, h11⟩ := h
    exact ⟨h1, h2, h3, h4, h5, h6, h7, h8, h9, h10, h11⟩
  · intro h
    exact ⟨h.status, h.effect_class, h.sink_id, h.boundary_id, h.policy_epoch, h.scope,
      h.supported, h.nonce, h.not_early, h.not_late, h.within⟩

/-- The checks of the bindings raise nothing else. -/
theorem not_stray_checkBindings : ¬ FailsWith Stray (sink.checkBindings c cap now) := by
  simp [checkBindings, failsWith_bind, failsWith_failIf]

/-- The block under `require_presentation_proof` raises something else where the digest of the
candidate or the signature of the proof makes it. -/
theorem stray_checkPresentation
    (hpresenters : ∀ reg, sink.presenter_verifier = some reg →
      ∀ k v, reg.verifiers.lookup k = some v → v.Reference) :
    FailsWith Stray (sink.checkPresentation c cap now proof) ↔
      ∃ p reg, Presented sink c cap proof p reg ∧ (¬ Canon R c.asdict ∨
        c.digest R = .ok p.candidate_digest ∧
        (p.sink_id = sink.context.sink_id ∧ p.boundary_id = sink.context.boundary_id) ∧
        p.nonce = c.nonce ∧ (now - p.presented_at_ns).natAbs ≤ sink.presentation_freshness_ns ∧
        ∃ verifier, reg.verifiers.lookup p.presenter_key_id = some verifier ∧
          verifier.Raises p.unsigned p.signature p.presenter_key_id) := by
  by_cases hgiven : ∃ p reg, proof = some p ∧ sink.presenter_verifier = some reg
  · obtain ⟨p, reg, rfl, hreg⟩ := hgiven
    have hverify : FailsWith Stray (reg.verify p) ↔
        ∃ verifier, reg.verifiers.lookup p.presenter_key_id = some verifier ∧
          verifier.Raises p.unsigned p.signature p.presenter_key_id := by
      rw [PresenterVerifierRegistry.verify]
      cases hlookup : reg.verifiers.lookup p.presenter_key_id with
      | none => simp
      | some v => simp [(hpresenters reg hreg _ v hlookup).stray_verify]
    unfold checkPresentation
    simp only [hreg, failsWith_bind, failsWith_failIf, not_stray_verificationErr, and_false,
      false_or, failIf_eq_ok, Bool.not_eq_false, ne_eq, Decidable.not_not, not_or, Int.not_lt,
      gt_iff_lt, exists_const, or_false, hverify, CandidateAct.digest, stray_sha256Hex]
    refine ⟨?_, ?_⟩
    · intro h
      obtain ⟨hbound, hid, h⟩ := h
      refine ⟨p, reg, ⟨rfl, hreg, hbound, hid⟩, ?_⟩
      rcases h with hcanon | ⟨d, hd, rfl, hsink, hnonce, hfresh, hraises⟩
      · exact .inl hcanon
      · exact .inr ⟨hd, hsink, hnonce, hfresh, hraises⟩
    · intro h
      obtain ⟨p', reg', ⟨hproof', hreg', hbound, hid⟩, h⟩ := h
      obtain rfl := Option.some.inj hproof'
      obtain rfl := Option.some.inj (hreg.symm.trans hreg')
      refine ⟨hbound, hid, ?_⟩
      rcases h with hcanon | ⟨hd, hsink, hnonce, hfresh, hraises⟩
      · exact .inl hcanon
      · exact .inr ⟨_, hd, rfl, hsink, hnonce, hfresh, hraises⟩
  · refine ⟨?_, ?_⟩
    · intro h
      unfold checkPresentation at h
      split at h
      · exact absurd ⟨_, _, rfl, by assumption⟩ hgiven
      · simp at h
    · intro h
      obtain ⟨p, reg, ⟨hproof, hreg, -⟩, -⟩ := h
      exact absurd ⟨p, reg, hproof, hreg⟩ hgiven

/-- The descriptor of a candidate with canonical bytes can be built and hashed. -/
theorem not_stray_descriptor (hc : Canon R c.asdict) (haddressed : Addressed sink c cap now) :
    ¬ FailsWith Stray
        (buildHcad R c (some sink.context.sink_id) (some sink.context.boundary_id)) ∧
      ∀ h, buildHcad R c (some sink.context.sink_id) (some sink.context.boundary_id) = .ok h →
        ¬ FailsWith Stray (h.digest R) := by
  have hcc := candidateCanon_iff.1 hc
  obtain ⟨h', hbuild, hcanon⟩ : ∃ h, buildHcad R c (some sink.context.sink_id)
      (some sink.context.boundary_id) = .ok h ∧ Canon R h.asdict :=
    canon_hcad hc (haddressed.sink_id.1 ▸ hcc.sink_id) (haddressed.boundary_id.1 ▸ hcc.boundary_id)
  rw [hbuild]
  refine ⟨failsWith_ok, fun h heq => ?_⟩
  obtain rfl := Except.ok.inj heq
  rw [HCAD.digest, stray_sha256Hex]
  exact not_not.2 hcanon

/-- The checks on evidence that was vetted raise nothing else. -/
theorem not_stray_checkEvidence (hsink : sink.authenticator.Reference) {b : Authenticator R}
    (hb : b.Reference) {e : ValidationEvidence}
    (he : b.verify e.unsigned e.signature e.key_id = .ok true) :
    ¬ FailsWith Stray (sink.checkEvidence cap e) := by
  have hraises := hb.not_raises (a := sink.authenticator) he e.key_id
  simp [checkEvidence, failsWith_bind, failsWith_failIf, hsink.stray_verify, hraises]

/-- A proof that passes the block was presented for the capability under the key the candidate
names. -/
theorem presented_of_checkPresentation (h : sink.checkPresentation c cap now proof = .ok ()) :
    ∃ p reg, Presented sink c cap proof p reg := by
  unfold checkPresentation at h
  split at h
  case h_1 p reg hreg =>
    simp only [bind_eq_ok, failIf_eq_ok, exists_unit, ne_eq, Decidable.not_not,
      Bool.not_eq_false] at h
    obtain ⟨hbound, hid, -⟩ := h
    exact ⟨p, reg, rfl, hreg, hbound, hid⟩
  case h_2 => cases h

/-- Behind an accepted signature `verify` raises what the block raises, or the candidate's
digest. -/
theorem stray_of_signed {store : EvidenceStore R} {st : ProtectedState}
    (haddressed : Addressed sink c cap now)
    (hsigned : sink.authenticator.verify cap.unsigned cap.signature cap.key_id = .ok true)
    (h : FailsWith Stray (checkWhen (sink.require_presentation_proof = true)
        (sink.checkPresentation c cap now proof)) ∨
      checkWhen (sink.require_presentation_proof = true)
        (sink.checkPresentation c cap now proof) = .ok () ∧ ¬ Canon R c.asdict) :
    FailsWith Stray (sink.verify store st c cap now proof) := by
  refine failsWith_bind.2 (.inr ⟨(), addressed_iff.2 haddressed, ?_⟩)
  refine failsWith_bind.2 (.inr ⟨true, hsigned, ?_⟩)
  refine failsWith_bind.2 (.inr ⟨(), failIf_eq_ok.2 (by simp), ?_⟩)
  rcases h with hblock | ⟨hblock, hcanon⟩
  · exact failsWith_bind.2 (.inl hblock)
  · exact failsWith_bind.2 (.inr ⟨(), hblock, failsWith_bind.2 (.inl (stray_sha256Hex.2 hcanon))⟩)

section
variable (hsink : sink.authenticator.Reference)
  (hpresenters : ∀ reg, sink.presenter_verifier = some reg →
    ∀ k v, reg.verifiers.lookup k = some v → v.Reference)
include hsink hpresenters

/-- Another exception is one of those that `Escapes` lists: once the candidate has a digest, what is
left raises nothing else. -/
theorem escapes_of_stray {b : Authenticator R} (hb : b.Reference) {store : EvidenceStore R}
    (hvetted : Vetted b store) {st : ProtectedState}
    (h : FailsWith Stray (sink.verify store st c cap now proof)) :
    Escapes sink c cap now proof := by
  rcases failsWith_bind.1 h with hfirst | ⟨⟨⟩, hbindings, h₁⟩
  · exact absurd hfirst not_stray_checkBindings
  have haddressed := addressed_iff.1 hbindings
  rcases failsWith_bind.1 h₁ with hverify | ⟨signed, hsigned, h₂⟩
  · exact .capability haddressed (hsink.stray_verify.1 hverify)
  rcases failsWith_bind.1 h₂ with hfail | ⟨⟨⟩, hfail, h₃⟩
  · exact absurd (failsWith_failIf.1 hfail).2 not_stray_verificationErr
  obtain rfl : signed = true := by simpa using failIf_eq_ok.1 hfail
  rcases failsWith_bind.1 h₃ with hblock | ⟨⟨⟩, hblock, h₄⟩
  · obtain ⟨hrequired, hblock⟩ := failsWith_checkWhen.1 hblock
    obtain ⟨p, reg, hpresented, hraise⟩ := (stray_checkPresentation hpresenters).1 hblock
    rcases hraise with hcanon | ⟨hdigest, hplace, hnonce, hfresh, verifier, hreg, hraises⟩
    · exact .candidate haddressed hsigned (fun _ => ⟨p, reg, hpresented⟩) hcanon
    · exact .presentation haddressed hsigned hrequired hpresented hdigest hplace hnonce hfresh hreg
        hraises
  rcases failsWith_bind.1 h₄ with hdigest | ⟨d, hdigest, h₅⟩
  · refine .candidate haddressed hsigned (fun hrequired => ?_) (stray_sha256Hex.1 hdigest)
    exact presented_of_checkPresentation (checkWhen_eq_ok.1 hblock hrequired)
  -- from here on the candidate has canonical bytes
  obtain ⟨hbuild', hdigest'⟩ := not_stray_descriptor (canon_of_sha256Hex hdigest) haddressed
  rcases failsWith_bind.1 h₅ with hfail | ⟨⟨⟩, -, h₆⟩
  · exact absurd (failsWith_failIf.1 hfail).2 not_stray_verificationErr
  rcases failsWith_bind.1 h₆ with hbuild | ⟨descriptor, hbuild, h₇⟩
  · exact absurd hbuild hbuild'
  rcases failsWith_bind.1 h₇ with hdd | ⟨dd, -, h₈⟩
  · exact absurd hdd (hdigest' descriptor hbuild)
  rcases failsWith_bind.1 h₈ with hfail | ⟨⟨⟩, -, h₉⟩
  · exact absurd (failsWith_failIf.1 hfail).2 not_stray_verificationErr
  cases hget : store.get cap.evidence_id with
  | none => simp [hget] at h₉
  | some e =>
    have hevidence : ¬ FailsWith Stray (sink.checkEvidence cap e) :=
      not_stray_checkEvidence hsink hb (hvetted.verified _ e hget)
    simp [hget, failsWith_bind, failsWith_failIf, hevidence] at h₉

/-- On the inputs that `Escapes` lists another exception is raised. -/
theorem stray_of_escapes {store : EvidenceStore R} {st : ProtectedState}
    (h : Escapes sink c cap now proof) :
    FailsWith Stray (sink.verify store st c cap now proof) := by
  cases h with
  | capability haddressed hraises =>
    exact failsWith_bind.2 (.inr ⟨(), addressed_iff.2 haddressed,
      failsWith_bind.2 (.inl (hsink.stray_verify.2 hraises))⟩)
  | candidate haddressed hsigned hpresented hcanon =>
    refine stray_of_signed haddressed hsigned ?_
    by_cases hrequired : sink.require_presentation_proof = true
    · obtain ⟨p, reg, hpresented⟩ := hpresented hrequired
      exact .inl (failsWith_checkWhen.2 ⟨hrequired,
        (stray_checkPresentation hpresenters).2 ⟨p, reg, hpresented, .inl hcanon⟩⟩)
    · exact .inr ⟨checkWhen_eq_ok.2 fun h => absurd h hrequired, hcanon⟩
  | presentation haddressed hsigned hrequired hpresented hdigest hplace hnonce hfresh hreg hr =>
    refine stray_of_signed haddressed hsigned (.inl (failsWith_checkWhen.2 ⟨hrequired, ?_⟩))
    exact (stray_checkPresentation hpresenters).2
      ⟨_, _, hpresented, .inr ⟨hdigest, hplace, hnonce, hfresh, _, hreg, hr⟩⟩

end

end

/-- **When the sink refuses only with `VerificationFailed`.** In every state that calls reach from
empty stores, and for every input, `verify` returns or raises `VerificationFailed` exactly when the
input is none of those that `Escapes` lists. -/
theorem refusals_iff {a : ProtectedAuthority R} {w₀ w : World R} {ops : List (Op R)}
    (h0 : w₀.Empty) (hrun : Run (Invoked a) w₀ ops w) {sink : FinalitySink R}
    (hstore : w₀.authority.evidence_store.authenticator.Reference)
    (hsink : sink.authenticator.Reference)
    (hpresenters : ∀ reg, sink.presenter_verifier = some reg →
      ∀ k v, reg.verifiers.lookup k = some v → v.Reference)
    (c : CandidateAct) (cap : Capability) (now : Int) (proof : Option PresentationProof) :
    Answers (sink.verify w.authority.evidence_store w.authority.state c cap now proof) ↔
      ¬ Escapes sink c cap now proof := by
  rw [answers_iff]
  have hvetted := vetted_of_run h0 hrun
  refine ⟨?_, ?_⟩
  · intro hanswers hescapes
    exact hanswers (stray_of_escapes hsink hpresenters hescapes)
  · intro hescapes hstray
    exact hescapes (escapes_of_stray hsink hpresenters hstore hvetted hstray)

/-! ## Malformed signatures -/

/-- A capability nobody issued, for the sample act, under the given signature. -/
def forgedCapability (signature : PyStr) : Capability where
  capability_id := py "forged"
  authority_id := py "authority-A"
  candidate_digest := py "00"
  descriptor_digest := py "00"
  sink_id := py "sink-A"
  boundary_id := py "boundary-A"
  nonce := sampleCandidate.nonce
  scope := sampleCandidate.scope
  policy_epoch := 7
  evidence_id := py "none"
  transition_id := py "none"
  issued_at_ns := 100
  expires_at_ns := 300
  key_id := sampleKey.key_id
  signature := signature

/-- The forged capability can be hashed. -/
theorem canon_forgedCapability (signature : PyStr) :
    Canon sampleRuntime (forgedCapability signature).unsigned := by
  rw [canon_capability_iff]
  refine ⟨?_, (by decide : ∀ i ∈ [7, 100, 300], printsInt i = true)⟩
  simp [forgedCapability, sampleCandidate, sampleKey, py]

/-- It passes every check before its signature. -/
theorem forgedCapability_bindings (signature : PyStr) :
    sampleSink.checkBindings sampleCandidate (forgedCapability signature) 200 = .ok () := by
  rw [checkBindings_ok]
  simp [forgedCapability, sampleCandidate, sampleSink]

/-- After an act was authorised and effected, a wrong signature in ASCII is refused with
`VerificationFailed`. -/
theorem refusals_iff_sample : ∃ cap w, Run (Invoked sampleAuthority) sampleWorld
    [.authorize sampleCandidate 1 200, .effectuate sampleSink sampleCandidate cap 200 none] w ∧
    w.effects.effector.records.length = 1 ∧
    Answers (sampleSink.verify w.authority.evidence_store w.authority.state sampleCandidate
      (forgedCapability (py "00")) 200 none) := by
  obtain ⟨cap, w, record, hrun, hrecords⟩ := sample_run
  have hinvoked : Run (Invoked sampleAuthority) sampleWorld _ w := hrun.mono fun _ _ _ h => h.2
  refine ⟨cap, w, hinvoked, by rw [hrecords]; rfl, ?_⟩
  refine (refusals_iff sampleWorld_empty hinvoked sampleKey.reference sampleKey.reference
    (fun reg h => by cases h) _ _ _ _).2 fun hescapes => ?_
  cases hescapes with
  | capability _ hraises =>
    rcases hraises.malformed with hcanon | hascii
    · exact hcanon (canon_forgedCapability _)
    · revert hascii
      decide
  | candidate _ _ _ hcanon => exact hcanon sample_canon.1
  | presentation _ _ hrequired => cases hrequired

/-- **The signature `é`** makes the sink raise a `TypeError`. -/
theorem stray_signature : ∃ message, sampleSink.verify sampleWorld.authority.evidence_store
      sampleWorld.authority.state sampleCandidate (forgedCapability (ofText [Char.ofNat 0xE9])) 200
      none = .error (.typeError message) ∧
    ¬ Answers (sampleSink.verify sampleWorld.authority.evidence_store sampleWorld.authority.state
      sampleCandidate (forgedCapability (ofText [Char.ofNat 0xE9])) 200 none) := by
  obtain ⟨expected, hsign⟩ := sampleKey.sign_of_canon
    (canon_forgedCapability (ofText [Char.ofNat 0xE9]))
  have hcompare : ∃ message, compareDigest expected (ofText [Char.ofNat 0xE9]) =
      .error (.typeError message) := by
    have hascii : isAsciiStr (ofText [Char.ofNat 0xE9]) = false := by decide
    rw [compareDigest, hascii, Bool.and_false]
    exact ⟨_, rfl⟩
  obtain ⟨message, hcompare⟩ := hcompare
  have hverify : sampleSink.authenticator.verify
      (forgedCapability (ofText [Char.ofNat 0xE9])).unsigned (ofText [Char.ofNat 0xE9])
      sampleKey.key_id = .error (.typeError message) :=
    (HMACAuthenticator.verify_eq hsign).trans hcompare
  have hresult : sampleSink.verify sampleWorld.authority.evidence_store
      sampleWorld.authority.state sampleCandidate (forgedCapability (ofText [Char.ofNat 0xE9])) 200
      none = .error (.typeError message) := by
    rw [FinalitySink.verify, forgedCapability_bindings, ok_bind]
    exact bind_eq_error.2 (.inl hverify)
  refine ⟨message, hresult, ?_⟩
  rw [answers_iff, hresult, failsWith_error]
  exact not_not.2 trivial

end Finality
