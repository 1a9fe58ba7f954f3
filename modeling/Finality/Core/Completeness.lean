import Finality.Core.Sample

/-!
# What the authority issues, the sink accepts

The authority builds what it hashes and signs from dictionaries of its own, and the sink rebuilds
the same material from the records it is shown. `verify_iff_of_authorize` says that the two agree:
in the state an authorisation leaves, its capability verifies at exactly the times of its window.

The other direction is liveness: a call whose checks are met succeeds. `authorize_succeeds` and
`effectuate_succeeds` say so for the two calls, with the canonical bytes of everything hashed
along the way accounted for.
-/

namespace Finality

open Checks ProtectedState ProtectedAuthority FinalitySink Runs

variable {R : Runtime}

/-- The sink shares the authority's key, asks for no presentation proof, and serves what the
candidate names. -/
structure Serves (sink : FinalitySink R) (a : ProtectedAuthority R) (c : CandidateAct) : Prop where
  authenticator : sink.authenticator = a.authenticator
  no_proof : sink.require_presentation_proof = false
  sink_id : sink.context.sink_id = c.sink_id
  boundary_id : sink.context.boundary_id = c.boundary_id
  policy_epoch : sink.context.policy_epoch = c.policy_epoch
  effect_class : sink.context.effect_class = c.effect_class
  supported : ∀ s ∈ c.scope, s ∈ sink.context.supported_scopes

/-- The evidence an authorisation committed matches its capability. -/
theorem evidenceMatches_of_authorized {a : ProtectedAuthority R} (hown : a.authenticator.AcceptsOwn)
    {s s' : AuthorityStores R} {c : CandidateAct} {cost t₀ : Int} {t : StateTransition}
    {ev : ValidationEvidence} {cap : Capability} (h : Authorized a s c cost t₀ t ev cap s')
    {sink : FinalitySink R} (hs : Serves sink a c) : EvidenceMatches sink cap ev := by
  obtain ⟨hd, hh, hdd⟩ := h.evidence.descriptor
  obtain ⟨hd', hh', hdd'⟩ := h.capability.descriptor
  obtain rfl : hd = hd' := Except.ok.inj (hh.symm.trans hh')
  exact
    { signed := by
        rw [hs.authenticator, h.evidence.key_id]
        exact hown _ _ h.evidence.signature
      decision := h.evidence.decision
      authority_id := h.evidence.authority_id.trans h.capability.authority_id.symm
      candidate_digest := Except.ok.inj
        (h.evidence.candidate_digest.symm.trans h.capability.candidate_digest)
      descriptor_digest := Except.ok.inj (hdd.symm.trans hdd')
      transition_id := h.evidence.transition_id.trans h.capability.transition_id.symm
      policy_epoch := h.evidence.policy_epoch.trans h.capability.policy_epoch.symm }

/-- Under the candidate's own sink and boundary the sink rebuilds the authority's descriptor. -/
theorem buildHcad_serves {sink : FinalitySink R} {a : ProtectedAuthority R} {c : CandidateAct}
    (hs : Serves sink a c) :
    buildHcad R c (some sink.context.sink_id) (some sink.context.boundary_id) =
      buildHcad R c none none := by
  rw [hs.sink_id, hs.boundary_id]
  rfl

/-- A capability verifies at the times of its window. -/
theorem verified_of_authorized {a : ProtectedAuthority R} (hown : a.authenticator.AcceptsOwn)
    {s s' : AuthorityStores R} {c : CandidateAct} {cost t₀ : Int} {t : StateTransition}
    {ev : ValidationEvidence} {cap : Capability} (h : Authorized a s c cost t₀ t ev cap s')
    {sink : FinalitySink R} (hs : Serves sink a c) {now : Int}
    (hearly : cap.issued_at_ns - sink.max_clock_skew_ns ≤ now) (hlate : now ≤ cap.expires_at_ns)
    (proof : Option PresentationProof) :
    Verified sink s'.evidence_store s'.state c cap now proof cap.descriptor_digest := by
  have hpolicy := h.allowed.nonEffective
  have hstored : s'.evidence_store.get cap.evidence_id = some ev := by
    rw [h.capability.evidence_id]
    exact EvidenceStore.get_self_of_commit h.committed
  exact
    { status := hpolicy.1
      effect_class := hs.effect_class.symm
      sink_id := ⟨hs.sink_id.symm, h.capability.sink_id.trans hs.sink_id.symm⟩
      boundary_id := ⟨hs.boundary_id.symm, h.capability.boundary_id.trans hs.boundary_id.symm⟩
      policy_epoch := ⟨hs.policy_epoch.symm, h.capability.policy_epoch.trans hs.policy_epoch.symm⟩
      scope := h.capability.scope.symm
      supported := fun s hmem => hs.supported s (h.capability.scope ▸ hmem)
      nonce := h.capability.nonce
      not_early := hearly
      not_late := hlate
      within := by rw [h.capability.expires_at_ns]; exact min_le_left _ _
      signed := by
        rw [hs.authenticator, h.capability.key_id]
        exact hown _ _ h.capability.signature
      presentation := fun hp => absurd hp (by simp [hs.no_proof])
      candidate_digest := h.capability.candidate_digest
      descriptor := by rw [buildHcad_serves hs]; exact h.capability.descriptor
      result := rfl
      evidence := ⟨ev, hstored, evidenceMatches_of_authorized hown h hs⟩
      transition := by rw [h.capability.transition_id]; exact h.granted.verifyTransition }

/-- The window of a capability contains the time it was issued at. -/
theorem in_window {a : ProtectedAuthority R} {s s' : AuthorityStores R} {c : CandidateAct}
    {cost t₀ : Int} {t : StateTransition} {ev : ValidationEvidence} {cap : Capability}
    (h : Authorized a s c cost t₀ t ev cap s') (httl : 0 ≤ a.capability_ttl_ns) {skew : Int}
    (hskew : 0 ≤ skew) : cap.issued_at_ns - skew ≤ t₀ ∧ t₀ ≤ cap.expires_at_ns := by
  have hstale := h.allowed.nonEffective.2
  rw [h.capability.issued_at_ns, h.capability.expires_at_ns, expires]
  omega

/-- **Issuance completeness.** In the state an authorisation leaves, a sink that serves the
candidate accepts its capability at exactly the times of the capability's window, and returns the
descriptor digest the capability carries. The window contains the time of the authorisation. -/
theorem verify_iff_of_authorize {a : ProtectedAuthority R} (hown : a.authenticator.AcceptsOwn)
    {s s' : AuthorityStores R} {c : CandidateAct} {cost t₀ : Int} {cap : Capability}
    (h : a.authorize s c cost t₀ = (.ok cap, s')) {sink : FinalitySink R} (hs : Serves sink a c) :
    (∀ now proof d, sink.verify s'.evidence_store s'.state c cap now proof = .ok d ↔
      (cap.issued_at_ns - sink.max_clock_skew_ns ≤ now ∧ now ≤ cap.expires_at_ns) ∧
        d = cap.descriptor_digest) ∧
    (0 ≤ a.capability_ttl_ns → 0 ≤ sink.max_clock_skew_ns →
      cap.issued_at_ns - sink.max_clock_skew_ns ≤ t₀ ∧ t₀ ≤ cap.expires_at_ns) := by
  obtain ⟨t, ev, hauth⟩ := authorize_ok h
  refine ⟨fun now proof d => ?_, fun httl hskew => ?_⟩
  · rw [verify_ok]
    refine ⟨?_, ?_⟩
    · exact fun hv => ⟨⟨hv.not_early, hv.not_late⟩, hv.result⟩
    · rintro ⟨⟨hearly, hlate⟩, rfl⟩
      exact verified_of_authorized hown hauth hs hearly hlate proof
  · have hstale := hauth.allowed.nonEffective.2
    rw [hauth.capability.issued_at_ns, hauth.capability.expires_at_ns, expires]
    omega

/-- The sample sink serves the sample act. -/
theorem sampleSink_serves : Serves sampleSink sampleAuthority sampleCandidate :=
  ⟨rfl, rfl, rfl, rfl, rfl, rfl, by simp [sampleCandidate, sampleSink]⟩

/-- The capability for the sample act and the interval in which the sample sink verifies it. -/
theorem verify_iff_of_authorize_sample : ∃ cap s',
    sampleAuthority.authorize sampleWorld.authority sampleCandidate 1 200 = (.ok cap, s') ∧
    (∀ now proof d, sampleSink.verify s'.evidence_store s'.state sampleCandidate cap now proof =
        .ok d ↔ (cap.issued_at_ns - 1000 ≤ now ∧ now ≤ cap.expires_at_ns) ∧
          d = cap.descriptor_digest) ∧
    cap.issued_at_ns - 1000 ≤ 200 ∧ 200 ≤ cap.expires_at_ns := by
  obtain ⟨cap, s', h⟩ := sample_authorize
  have hw := verify_iff_of_authorize sample_acceptsOwn h sampleSink_serves
  exact ⟨cap, s', h, hw.1, hw.2 (by decide) (by decide)⟩

/-- The sample act is authorised, and its capability verifies at the time it was issued at. -/
theorem sample_verified : ∃ cap s' t ev,
    sampleAuthority.authorize sampleWorld.authority sampleCandidate 1 200 = (.ok cap, s') ∧
    Authorized sampleAuthority sampleWorld.authority sampleCandidate 1 200 t ev cap s' ∧
    Verified sampleSink s'.evidence_store s'.state sampleCandidate cap 200 none
      cap.descriptor_digest := by
  obtain ⟨cap, s', h⟩ := sample_authorize
  obtain ⟨t, ev, hauth⟩ := authorize_ok h
  have hskew : 0 ≤ sampleSink.max_clock_skew_ns := by decide
  obtain ⟨hearly, hlate⟩ := in_window hauth (by decide) hskew
  exact ⟨cap, s', t, ev, h, hauth,
    verified_of_authorized sample_acceptsOwn hauth sampleSink_serves hearly hlate none⟩

/-- **When an effect is made**: a verified capability that was not consumed, a sink that holds the
effector's handle, no injected failure, and a time and an ordinal that can be written. -/
theorem effectuate_succeeds {sink : FinalitySink R} {s : AuthorityStores R} {stores : EffectStores}
    {c : CandidateAct} {cap : Capability} {now : Int} {proof : Option PresentationProof}
    {d : PyStr} (hv : Verified sink s.evidence_store s.state c cap now proof d)
    (hfresh : cap.capability_id ∉ stores.consumption_store.claims)
    (hhandle : sink.effect_handle = stores.effector.marker)
    (hfail : stores.effector.fail_next = false)
    (hchannel : hasSurrogate stores.effector.channel = false)
    (hordinal : printsInt stores.effector.records.length = true)
    (hsign : sink.receiptAuthenticator.SignsCanon)
    (hkey : hasSurrogate sink.receiptAuthenticator.key_id = false) (hnow : printsInt now = true) :
    ∃ receipt record, sink.effectuate s.evidence_store s.state stores c cap now proof =
        (.ok receipt, ⟨⟨stores.consumption_store.claims.insert cap.capability_id
          (sink.context.sink_id, sink.context.boundary_id, cap.nonce, now)⟩,
          { stores.effector with records := stores.effector.records ++ [record] }⟩) ∧
      stores.effector.nextRecord R c = .ok record := by
  have hc := canon_of_sha256Hex hv.candidate_digest
  obtain ⟨record, hrec⟩ := GuardedEffector.exists_nextRecord hc hchannel hordinal
  have href := (inert_of_sha256Hex (GuardedEffector.nextRecord_ok hrec).2.2).hasSurrogate
  obtain ⟨receipt, hreceipt⟩ := exists_receipt hv hsign hkey hnow
    (show Canon R (optStr (some record.effect_reference)) from canon_str.2 href)
  refine ⟨receipt, record, ?_, hrec⟩
  have hclaim : stores.consumption_store.claim cap.capability_id sink.context.sink_id
      sink.context.boundary_id cap.nonce now = .ok _ :=
    InMemoryConsumptionStore.claim_ok.2 ⟨hfresh, rfl⟩
  have hcommit := GuardedEffector.commit_ok.2 ⟨hhandle, hfail, hrec, rfl⟩
  unfold effectuate
  rw [verify_ok.2 hv]
  simp only [hclaim, hcommit, hreceipt]

/-- **An act carried through**: an authorisation followed by the effect of its capability is a run
that appends one record of the candidate. -/
theorem run_authorize_effectuate {a : ProtectedAuthority R} (hown : a.authenticator.AcceptsOwn)
    {w : World R} {c : CandidateAct} {cost t₀ : Int} {cap : Capability} {s' : AuthorityStores R}
    (h : a.authorize w.authority c cost t₀ = (.ok cap, s')) {sink : FinalitySink R}
    (hs : Serves sink a c) (httl : 0 ≤ a.capability_ttl_ns) (hskew : 0 ≤ sink.max_clock_skew_ns)
    (hfresh : cap.capability_id ∉ w.effects.consumption_store.claims)
    (hhandle : sink.effect_handle = w.effects.effector.marker)
    (hfail : w.effects.effector.fail_next = false)
    (hchannel : hasSurrogate w.effects.effector.channel = false)
    (hordinal : printsInt w.effects.effector.records.length = true)
    (hsign : sink.receiptAuthenticator.SignsCanon)
    (hkey : hasSurrogate sink.receiptAuthenticator.key_id = false) :
    ∃ w' record, Run (Step a) w [.authorize c cost t₀, .effectuate sink c cap t₀ none] w' ∧
      w'.authority.state = s'.state ∧ w'.authority.evidence_store = s'.evidence_store ∧
      w'.effects = ⟨⟨w.effects.consumption_store.claims.insert cap.capability_id
          (sink.context.sink_id, sink.context.boundary_id, cap.nonce, t₀)⟩,
        { w.effects.effector with records := w.effects.effector.records ++ [record] }⟩ ∧
      c.digest R = .ok record.candidate_digest := by
  obtain ⟨t, ev, hauth⟩ := authorize_ok h
  obtain ⟨hearly, hlate⟩ := in_window hauth httl hskew
  have hv := verified_of_authorized hown hauth hs hearly hlate none
  obtain ⟨receipt, record, heff, hrec⟩ :=
    effectuate_succeeds hv hfresh hhandle hfail hchannel hordinal hsign hkey
      hauth.capability.printsInt_times.1
  have hexec : exec a w (.authorize c cost t₀) = ⟨s', w.effects⟩ := by simp only [exec, h]
  have hsigned : SignedBefore s' cap.unsigned := hauth.signedBefore hv.signed
  refine ⟨_, record, .cons ⟨trivial, hexec.symm⟩ (.single ⟨fun _ => hsigned, rfl⟩), ?_⟩
  simp only [exec, heff, true_and]
  exact (GuardedEffector.nextRecord_ok hrec).1

/-- It serves the sample acts in any context. -/
theorem sampleSink_serves_context (ctx : PyDict PyVal) :
    Serves sampleSink sampleAuthority (sampleCandidate.withContext ctx) ∧
    Serves sampleSink sampleAuthority (respelledCandidate.withContext ctx) ∧
    Serves sampleSink sampleAuthority (nextCandidate.withContext ctx) := by
  have hscope : ∀ s ∈ sampleCandidate.scope, s ∈ sampleSink.context.supported_scopes := by
    simp [sampleCandidate, sampleSink]
  exact ⟨⟨rfl, rfl, rfl, rfl, rfl, rfl, hscope⟩, ⟨rfl, rfl, rfl, rfl, rfl, rfl, hscope⟩,
    ⟨rfl, rfl, rfl, rfl, rfl, rfl, hscope⟩⟩

/-- **Two acts carried through**: the sample act in any context, and then another. -/
theorem sample_runs {ctx : PyDict PyVal} (hctx : Canon sampleRuntime ctx.toVal) {c : CandidateAct}
    (hc : GrantedNext c) (hserves' : Serves sampleSink sampleAuthority c) :
    ∃ cap cap' w₁ w₂ record record',
      Run (Step sampleAuthority) sampleWorld
        [.authorize (sampleCandidate.withContext ctx) 1 200,
          .effectuate sampleSink (sampleCandidate.withContext ctx) cap 200 none] w₁ ∧
      w₁.effects.effector.records = [record] ∧
      Run (Step sampleAuthority) w₁
        [.authorize c 1 201, .effectuate sampleSink c cap' 201 none] w₂ ∧
      w₂.effects.effector.records = [record, record'] ∧
      cap.capability_id ∈ w₂.effects.consumption_store.claims ∧
      (sampleCandidate.withContext ctx).digest sampleRuntime = .ok record.candidate_digest ∧
      c.digest sampleRuntime = .ok record'.candidate_digest := by
  obtain ⟨cap, s, h⟩ := sample_authorize_context hctx
  have hserves := (sampleSink_serves_context ctx).1
  obtain ⟨w₁, record, hrun, hstate, hev, heff, hd⟩ := run_authorize_effectuate sample_acceptsOwn h
    hserves (by decide) (by decide) (AList.notMem_empty _) rfl rfl rfl (by decide)
    HMACAuthenticator.signsCanon rfl
  obtain ⟨cap', s', h', hne⟩ := hc.authorize h hstate hev
  have hclaims : cap'.capability_id ∉ w₁.effects.consumption_store.claims := by
    rw [heff, AList.mem_insert]
    exact not_or.2 ⟨hne, AList.notMem_empty _⟩
  obtain ⟨w₂, record', hrun', -, -, heff', hd'⟩ := run_authorize_effectuate sample_acceptsOwn h'
    hserves' (by decide) (by decide) hclaims (by rw [heff]; rfl) (by rw [heff]; rfl)
    (by rw [heff]; rfl) (by rw [heff]; exact (by decide : printsInt (1 : Nat) = true))
    HMACAuthenticator.signsCanon rfl
  have hclaimed : cap.capability_id ∈ w₂.effects.consumption_store.claims := by
    rw [heff', heff, AList.mem_insert, AList.mem_insert]
    exact .inr (.inl rfl)
  exact ⟨cap, cap', w₁, w₂, record, record', hrun, by rw [heff]; rfl, hrun',
    by rw [heff', heff]; rfl, hclaimed, hd, hd'⟩

/-- **The sample act carried through twice**, in any context: once under each spelling of its
nonce. -/
theorem respelled_runs {ctx : PyDict PyVal} (hctx : Canon sampleRuntime ctx.toVal) :
    ∃ cap cap' w₁ w₂ record record',
      Run (Step sampleAuthority) sampleWorld
        [.authorize (sampleCandidate.withContext ctx) 1 200,
          .effectuate sampleSink (sampleCandidate.withContext ctx) cap 200 none] w₁ ∧
      w₁.effects.effector.records = [record] ∧
      Run (Step sampleAuthority) w₁
        [.authorize (respelledCandidate.withContext ctx) 1 201,
          .effectuate sampleSink (respelledCandidate.withContext ctx) cap' 201 none] w₂ ∧
      w₂.effects.effector.records = [record, record'] ∧
      (sampleCandidate.withContext ctx).digest sampleRuntime = .ok record.candidate_digest ∧
      (respelledCandidate.withContext ctx).digest sampleRuntime = .ok record'.candidate_digest := by
  obtain ⟨cap, cap', w₁, w₂, record, record', hrun, hrec, hrun', hrecs, -, hd, hd'⟩ :=
    sample_runs hctx (respelled_grantedNext hctx) (sampleSink_serves_context ctx).2.1
  exact ⟨cap, cap', w₁, w₂, record, record', hrun, hrec, hrun', hrecs, hd, hd'⟩

/-- **Two acts, and the first once more**: the sample act in any context and another act are
carried through, and then the first is submitted and its capability presented again; neither call
has an effect. -/
theorem replayed_runs {ctx : PyDict PyVal} (hctx : Canon sampleRuntime ctx.toVal)
    {c : CandidateAct} (hc : GrantedNext c) (hserves : Serves sampleSink sampleAuthority c) :
    ∃ cap cap' w₁ w₂ w₃ record record',
      Run (Step sampleAuthority) sampleWorld
        [.authorize (sampleCandidate.withContext ctx) 1 200,
          .effectuate sampleSink (sampleCandidate.withContext ctx) cap 200 none] w₁ ∧
      Run (Step sampleAuthority) w₁
        [.authorize c 1 201, .effectuate sampleSink c cap' 201 none] w₂ ∧
      Run (Step sampleAuthority) w₂
        [.authorize (sampleCandidate.withContext ctx) 1 201,
          .effectuate sampleSink (sampleCandidate.withContext ctx) cap 201 none] w₃ ∧
      w₃.effects.effector.records = [record, record'] := by
  obtain ⟨cap, cap', w₁, w₂, record, record', hrun, -, hrun', hrecs, hclaimed, -, -⟩ :=
    sample_runs hctx hc hserves
  obtain ⟨w, hs, hrest⟩ := hrun.cons_inv
  obtain ⟨w', hs', hnil⟩ := hrest.cons_inv
  -- what could be presented at the first effectuation may be presented again
  obtain ⟨w₃, hw₃⟩ : ∃ w₃, w₃ = exec sampleAuthority w₂
    (.authorize (sampleCandidate.withContext ctx) 1 201) := ⟨_, rfl⟩
  have heffects : w₃.effects = w₂.effects := hw₃ ▸ effects_authorize ..
  have hagain : Step sampleAuthority w₂ (.authorize (sampleCandidate.withContext ctx) 1 201) w₃ :=
    ⟨trivial, hw₃⟩
  have hunforged : Unforged w₃
      (.effectuate sampleSink (sampleCandidate.withContext ctx) cap 201 none) :=
    hs'.1.of_run (hrest.append (hrun'.append (.single hagain)))
  refine ⟨cap, cap', w₁, w₂, _, record, record', hrun, hrun',
    .cons hagain (.single ⟨hunforged, rfl⟩), ?_⟩
  rw [effects_replay (heffects ▸ hclaimed), heffects]
  exact hrecs

/-- The sample act carried through. -/
theorem sample_run : ∃ cap w' record, Run (Step sampleAuthority) sampleWorld
    [.authorize sampleCandidate 1 200, .effectuate sampleSink sampleCandidate cap 200 none] w' ∧
    w'.effects.effector.records = [record] := by
  obtain ⟨cap, -, w', -, record, -, hrun, hrec, -⟩ := respelled_runs sample_context
  exact ⟨cap, w', record, hrun, hrec⟩

end Finality
