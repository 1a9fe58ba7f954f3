import Finality.Core.Completeness

/-!
# Every effect was authorised

The signing history holds evidence, receipts and the capabilities that `authorize` returned, and
nothing else (`signed_of_run`). Signed capabilities are told apart from the other two by their
keys, so a capability a sink accepts agrees in every field with one that was issued earlier
(`issued_of_verified`), and through the digests it carries the effect agrees with the candidate
that was authorised (`effect_soundness`).
-/

namespace Finality

open Checks ProtectedState ProtectedAuthority FinalitySink Runs

variable {R : Runtime}

/-- In the run `ops` from `w₀`, the call `authorize(c)` at time `now` returned `cap`. -/
def Issued (a : ProtectedAuthority R) (w₀ : World R) (ops : List (Op R)) (c : CandidateAct)
    (cost now : Int) (cap : Capability) : Prop :=
  ∃ ops₁ ops₂ w s, ops = ops₁ ++ .authorize c cost now :: ops₂ ∧ Run (Step a) w₀ ops₁ w ∧
    a.authorize w.authority c cost now = (.ok cap, s)

/-- What was issued stays issued. -/
theorem Issued.snoc {a : ProtectedAuthority R} {w₀ : World R} {ops : List (Op R)} {c : CandidateAct}
    {cost now : Int} {cap : Capability} (h : Issued a w₀ ops c cost now cap) (op : Op R) :
    Issued a w₀ (ops ++ [op]) c cost now cap := by
  obtain ⟨ops₁, ops₂, w, s, rfl, hrun, hr⟩ := h
  exact ⟨ops₁, ops₂ ++ [op], w, s, by simp, hrun, hr⟩

/-- The last call of a run issued what it returned. -/
theorem issued_last {a : ProtectedAuthority R} {w₀ w : World R} {ops : List (Op R)}
    {c : CandidateAct} {cost now : Int} {cap : Capability} {s : AuthorityStores R}
    (hrun : Run (Step a) w₀ ops w) (h : a.authorize w.authority c cost now = (.ok cap, s)) :
    Issued a w₀ (ops ++ [.authorize c cost now]) c cost now cap :=
  ⟨ops, [], w, s, rfl, hrun, h⟩

/-- An issued capability was issued by the last call or before it. -/
theorem issued_snoc_cases {a : ProtectedAuthority R} {w₀ w : World R} {ops : List (Op R)}
    {op : Op R}
    {c : CandidateAct} {cost now : Int} {cap : Capability} (hrun : Run (Step a) w₀ ops w)
    (h : Issued a w₀ (ops ++ [op]) c cost now cap) : Issued a w₀ ops c cost now cap ∨
      ∃ w' s, op = .authorize c cost now ∧ Run (Step a) w₀ ops w' ∧
        a.authorize w'.authority c cost now = (.ok cap, s) := by
  obtain ⟨ops₁, ops₂, w', s, hsplit, hrun', hr⟩ := h
  rcases List.eq_nil_or_concat ops₂ with rfl | ⟨ops₂, op', rfl⟩
  · obtain ⟨rfl, hop⟩ := List.append_inj' hsplit rfl
    exact .inr ⟨w', s, List.singleton_inj.1 hop, hrun', hr⟩
  · rw [List.concat_eq_append, ← List.cons_append, ← List.append_assoc] at hsplit
    obtain ⟨rfl, -⟩ := List.append_inj' hsplit rfl
    exact .inl ⟨ops₁, ops₂, w', s, rfl, hrun', hr⟩

/-- What the key has signed: evidence, receipts, and capabilities that were issued. -/
def SignedFor (a : ProtectedAuthority R) (w₀ : World R) (ops : List (Op R)) (u : PyVal) : Prop :=
  (∃ e : ValidationEvidence, u = e.unsigned) ∨ (∃ r : SinkReceipt, u = r.unsigned) ∨
    ∃ c cost now cap, Issued a w₀ ops c cost now cap ∧ u = cap.unsigned

/-- What was signed stays signed. -/
theorem SignedFor.snoc {a : ProtectedAuthority R} {w₀ : World R} {ops : List (Op R)} {u : PyVal}
    (h : SignedFor a w₀ ops u) (op : Op R) : SignedFor a w₀ (ops ++ [op]) u := by
  rcases h with h | h | ⟨c, cost, now, cap, hi, rfl⟩
  · exact .inl h
  · exact .inr (.inl h)
  · exact .inr (.inr ⟨c, cost, now, cap, hi.snoc op, rfl⟩)

/-- **The signing history of a run.** -/
theorem signed_of_run {a : ProtectedAuthority R} {w₀ w : World R} {ops : List (Op R)}
    (h0 : w₀.Empty) (hrun : Run (Step a) w₀ ops w) :
    ∀ u ∈ w.authority.signed, SignedFor a w₀ ops u := by
  refine hrun.invariantTrace (fun ops w => ∀ u ∈ w.authority.signed, SignedFor a w₀ ops u) ?_ ?_
  · simp [h0.signed]
  rintro ops w op w' hrun ih ⟨-, rfl⟩ u hu
  rcases exec_authority a w op with hq | ⟨c, cost, now, t, st, r, rfl, h⟩
  · obtain ⟨rs, hrs⟩ := hq.signed
    rw [hrs] at hu
    rcases List.mem_append.1 hu with hu | hu
    · exact (ih u hu).snoc op
    · obtain ⟨receipt, -, rfl⟩ := List.mem_map.1 hu
      exact .inr (.inl ⟨receipt, rfl⟩)
  · rcases h.advanced.mem_signed hu with hu | he | ⟨cap, rfl, rfl⟩
    · exact (ih u hu).snoc _
    · exact .inl he
    · exact .inr (.inr ⟨c, cost, now, cap, issued_last hrun h.returned, rfl⟩)

/-- **A capability that was not forged agrees with one that was issued.** -/
theorem issued_of_signedBefore {a : ProtectedAuthority R} {w₀ w : World R} {ops : List (Op R)}
    (h0 : w₀.Empty) (hrun : Run (Step a) w₀ ops w) {cap : Capability}
    (hs : SignedBefore w.authority cap.unsigned) :
    ∃ c₀ cost t₀ cap₀, Issued a w₀ ops c₀ cost t₀ cap₀ ∧ CapabilityEqv R cap cap₀ := by
  obtain ⟨u, hu, b, hub, hcb⟩ := hs
  have heqv : Eqv R cap.unsigned u := eqv_of_canonicalBytes hcb hub
  rcases signed_of_run h0 hrun u hu with ⟨e, rfl⟩ | ⟨r, rfl⟩ | ⟨c, cost, now, cap₀, hi, rfl⟩
  · exact absurd heqv.symm (not_eqv_evidence_capability e cap)
  · exact absurd heqv.symm (not_eqv_receipt_capability r cap)
  · exact ⟨c, cost, now, cap₀, hi, capabilityEqv_of_eqv heqv⟩

/-- An issued capability carries the digest of its candidate, which is a hexadecimal string. -/
theorem Issued.candidate_digest {a : ProtectedAuthority R} {w₀ : World R} {ops : List (Op R)}
    {c : CandidateAct} {cost now : Int} {cap : Capability} (h : Issued a w₀ ops c cost now cap) :
    c.digest R = .ok cap.candidate_digest := by
  obtain ⟨_, _, _, _, _, _, hr⟩ := h
  obtain ⟨t, ev, hauth⟩ := authorize_ok hr
  exact hauth.capability.candidate_digest

/-- A capability that agrees with an issued one carries the digest of the candidate that was
authorised. -/
theorem digest_of_capabilityEqv {a : ProtectedAuthority R} {w₀ : World R} {ops : List (Op R)}
    {c₀ : CandidateAct} {cost t₀ : Int} {cap cap₀ : Capability}
    (hi : Issued a w₀ ops c₀ cost t₀ cap₀) (he : CapabilityEqv R cap cap₀) :
    c₀.digest R = .ok cap.candidate_digest := by
  rw [he.candidate_digest.eq_of_inert (inert_of_sha256Hex hi.candidate_digest)]
  exact hi.candidate_digest

/-- A capability that agrees with an issued one has its id. -/
theorem capability_id_of_capabilityEqv {a : ProtectedAuthority R} {w₀ : World R}
    {ops : List (Op R)} {c₀ : CandidateAct} {cost t₀ : Int} {cap cap₀ : Capability}
    (hi : Issued a w₀ ops c₀ cost t₀ cap₀) (he : CapabilityEqv R cap cap₀) :
    cap.capability_id = cap₀.capability_id := by
  obtain ⟨_, _, _, _, _, _, hret⟩ := hi
  obtain ⟨t, ev, hauth⟩ := authorize_ok hret
  exact he.capability_id.eq_of_inert (inert_of_sha256Hex hauth.capability.capability_id)

/-- Where an effect came from: the calls of the run that authorised and effected it, and what
held at each. -/
structure Origin (R : Runtime) where
  /-- the authorisation `authorize(c₀)` at `t₀`, in the state `w₁` -/
  c₀ : CandidateAct
  cost : Int
  t₀ : Int
  cap₀ : Capability
  transition : StateTransition
  w₁ : World R
  s₁ : AuthorityStores R
  /-- the effect `effectuate(c, cap)` at `t`, in the state `w₂` -/
  sink : FinalitySink R
  c : CandidateAct
  cap : Capability
  t : Int
  proof : Option PresentationProof
  w₂ : World R
  /-- the calls before, between and after the two -/
  before : List (Op R)
  between : List (Op R)
  after : List (Op R)

/-- The record `r` in the state `w`, reached by the calls `ops` from `w₀`, came from `o`. -/
structure Origin.Sound (o : Origin R) (a : ProtectedAuthority R) (w₀ : World R) (ops : List (Op R))
    (w : World R) (r : EffectRecord) : Prop where
  calls : ops = (o.before ++ .authorize o.c₀ o.cost o.t₀ :: o.between) ++
    .effectuate o.sink o.c o.cap o.t o.proof :: o.after
  authorized_in : Run (Step a) w₀ o.before o.w₁
  effected_in : Run (Step a) w₀ (o.before ++ .authorize o.c₀ o.cost o.t₀ :: o.between) o.w₂
  authorized : a.authorize o.w₁.authority o.c₀ o.cost o.t₀ = (.ok o.cap₀, o.s₁)
  effected : (exec a o.w₂ (.effectuate o.sink o.c o.cap o.t o.proof)).effects.effector.records =
    o.w₂.effects.effector.records ++ [r]
  digest : o.c₀.digest R = .ok r.candidate_digest
  effected_digest : o.c.digest R = .ok r.candidate_digest
  allowed : (a.policy.validate o.c₀ o.t₀).1 = true
  granted : o.w₁.authority.state.transitionForAuthorization R o.c₀ o.cost =
    (.ok o.transition, o.s₁.state)
  reserved : o.w₁.authority.state.nonces.lookup o.c₀.nonce = none ∧
    o.s₁.state.nonces.lookup o.c₀.nonce = some o.transition.transition_id
  charged : ∃ s, (o.w₁.authority.state.snapshot o.c₀.source).1 = s ∧ 1 ≤ s.quota ∧
    0 < o.cost ∧ o.cost ≤ s.budget ∧
    (o.s₁.state.snapshot o.c₀.source).1 = ⟨s.version + 1, s.quota - 1, s.budget - o.cost⟩
  evidence : ∃ e, w.authority.evidence_store.get o.cap.evidence_id = some e ∧
    e.decision = .allow ∧ e.candidate_digest = r.candidate_digest
  not_early : o.t₀ - o.sink.max_clock_skew_ns ≤ o.t
  not_late : o.t ≤ min (o.c₀.issued_at_ns + o.c₀.freshness_ns) (o.t₀ + a.capability_ttl_ns)
  payload : Eqv R r.payload o.c₀.payload
  candidate : CandidateEqv R o.c o.c₀
  capability : CapabilityEqv R o.cap o.cap₀
  sink_bound : o.c.sink_id = o.sink.context.sink_id ∧
    o.c.boundary_id = o.sink.context.boundary_id ∧
    o.c.effect_class = o.sink.context.effect_class ∧
    o.c.policy_epoch = o.sink.context.policy_epoch ∧
    ∀ s ∈ o.c.scope, s ∈ o.sink.context.supported_scopes

/-- An effect record goes back to the effectuation that appended it, and from there to the
authorisation that signed its capability. -/
theorem exists_sound (hsha : ShaInjective R) {a : ProtectedAuthority R} {w₀ w : World R}
    {ops : List (Op R)} (h0 : w₀.Empty) (hrun : Run (Step a) w₀ ops w) {r : EffectRecord}
    (hr : r ∈ w.effects.effector.records) : ∃ o : Origin R, o.Sound a w₀ ops w r := by
  -- the call that appended the record
  obtain ⟨ops₁, op, after, w₂, w₃, rfl, hrun₁, ⟨hunf, rfl⟩, hnot, hin, hrest⟩ :=
    hrun.turnsOn (fun w => r ∈ w.effects.effector.records) (by simp [h0.records]) hr
  obtain ⟨sink, c, cap, t, proof, d, claims, effector, rfl, hv, hclaim, hcommit⟩ :=
    record_of_exec hnot hin
  -- the authorisation its capability came from
  obtain ⟨c₀, cost, t₀, cap₀, hi, hcap⟩ := issued_of_signedBefore h0 hrun₁ (hunf hv.signed)
  have hdig := digest_of_capabilityEqv hi hcap
  obtain ⟨before, between, w₁, s₁, rfl, hrunb, hret⟩ := hi
  obtain ⟨tr, ev, hauth⟩ := authorize_ok hret
  have hrec := GuardedEffector.nextRecord_ok (GuardedEffector.commit_ok.1 hcommit).2.2.1
  have hcd : r.candidate_digest = cap.candidate_digest :=
    Except.ok.inj (hrec.1.symm.trans hv.candidate_digest)
  have hcand := candidateEqv_of_digest hsha hv.candidate_digest hdig
  have hwindow := hcap.expires_at_ns.trans hauth.capability.expires_at_ns
  have hissued := hcap.issued_at_ns.trans hauth.capability.issued_at_ns
  obtain ⟨e, he, hm⟩ := hv.evidence
  have hexec : (exec a w₂ (.effectuate sink c cap t proof)).effects.effector.records =
      w₂.effects.effector.records ++ [r] := by
    have heff := (GuardedEffector.commit_ok.1 hcommit).2.2.2
    simp only [exec, effectuate, verify_ok.2 hv, hclaim, hcommit, heff]
  refine ⟨⟨c₀, cost, t₀, cap₀, tr, w₁, s₁, sink, c, cap, t, proof, w₂, before, between, after⟩, ?_⟩
  exact
    { calls := rfl
      authorized_in := hrunb
      effected_in := hrun₁
      authorized := hret
      effected := hexec
      digest := by rw [hcd]; exact hdig
      effected_digest := hrec.1
      allowed := hauth.allowed
      granted := transitionForAuthorization_ok.2 hauth.granted
      reserved := ⟨hauth.granted.fresh, by rw [hauth.granted.nonces_eq, AList.lookup_insert]⟩
      charged := ⟨_, rfl, hauth.granted.quota, hauth.granted.cost_pos, hauth.granted.budget,
        hauth.granted.charged⟩
      evidence := ⟨e, get_evidence_run hrest (get_evidence_exec he), hm.decision,
        hm.candidate_digest.trans hcd.symm⟩
      not_early := by have := hv.not_early; rw [hissued] at this; exact this
      not_late := by have := hv.not_late; rw [hwindow] at this; exact this
      payload := by rw [hrec.2.1]; exact hcand.payload
      candidate := hcand
      capability := hcap
      sink_bound := ⟨hv.sink_id.1, hv.boundary_id.1, hv.effect_class, hv.policy_epoch.1,
        fun s hs => hv.supported s (hv.scope ▸ hs)⟩ }

/-- **Effect soundness.** In every run from empty stores, every effect record goes back to an
earlier successful authorisation of the same digest, which the policy allowed and the protected
state granted, whose evidence is in the store, and in whose time window the effect lies. -/
theorem effect_soundness (hsha : ShaInjective R) {a : ProtectedAuthority R}
    {w₀ w : World R} {ops : List (Op R)} (h0 : w₀.Empty) (hrun : Run (Step a) w₀ ops w) :
    ∀ r ∈ w.effects.effector.records, ∃ o : Origin R, o.Sound a w₀ ops w r := by
  intro r hr
  exact exists_sound hsha h0 hrun hr

/-- The record of the sample act, traced to its authorisation. -/
theorem effect_soundness_sample : ∃ cap w' record, Run (Step sampleAuthority) sampleWorld
    [.authorize sampleCandidate 1 200, .effectuate sampleSink sampleCandidate cap 200 none] w' ∧
    record ∈ w'.effects.effector.records ∧
    ∃ o : Origin sampleRuntime, o.Sound sampleAuthority sampleWorld
      [.authorize sampleCandidate 1 200, .effectuate sampleSink sampleCandidate cap 200 none] w'
      record := by
  obtain ⟨cap, w', record, hrun, hrec⟩ := sample_run
  have hmem : record ∈ w'.effects.effector.records := by simp [hrec]
  exact ⟨cap, w', record, hrun, hmem,
    effect_soundness sample_injective sampleWorld_empty hrun record hmem⟩

end Finality
