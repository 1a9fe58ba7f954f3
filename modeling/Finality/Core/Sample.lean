import Finality.Canonical.Sample
import Finality.Core.System

/-!
# A concrete deployment

An authority, a sink and a candidate to run the model on, over the sample runtime: the values of
the repository's own tests.
-/

namespace Finality

open Checks ProtectedState ProtectedAuthority FinalitySink

/-- The reference key. -/
def sampleKey : HMACAuthenticator := ⟨Utf8.utf8 "finality-reference-test-key".toList,
  py "reference-hmac-sha256-v1"⟩

/-- The reference key as an authenticator. -/
def sampleAuthenticator : Authenticator sampleRuntime := sampleKey.toAuthenticator sampleRuntime

/-- The policy of the tests. -/
def samplePolicy : Policy where
  policy_epoch := 7
  allowed_purposes := [py "approved-purpose"]
  allowed_jurisdictions := [py "EU"]
  allowed_sinks := [py "sink-A"]
  allowed_boundaries := [py "boundary-A"]
  allowed_effect_classes := [py "network-egress"]
  allowed_scopes := [py "POST:/payments"]
  revoked_sources := []
  required_runtime_evidence_digest := some (py "runtime-ok")
  max_future_skew_ns := 1000

/-- The authority. -/
def sampleAuthority : ProtectedAuthority sampleRuntime :=
  ⟨py "authority-A", samplePolicy, sampleAuthenticator, 5000⟩

/-- A sink that serves it. -/
def sampleSink : FinalitySink sampleRuntime where
  context := ⟨py "sink-A", py "boundary-A", 7, [py "POST:/payments"], py "network-egress"⟩
  authenticator := sampleAuthenticator
  effect_handle := 0
  max_clock_skew_ns := 1000
  receipt_authenticator := none
  presenter_verifier := none
  require_presentation_proof := false
  presentation_freshness_ns := 2000

/-- A candidate with the nonce `é`, one code point. -/
def sampleCandidate : CandidateAct where
  act_id := py "act-0"
  act_class := py "api-call"
  effect_class := py "network-egress"
  source := py "agent-A"
  destination := py "https://example.invalid/payments"
  purpose := py "approved-purpose"
  jurisdiction := py "EU"
  policy_epoch := 7
  nonce := ofText [Char.ofNat 0xE9]
  issued_at_ns := 100
  freshness_ns := 10000
  sink_id := py "sink-A"
  boundary_id := py "boundary-A"
  scope := [py "POST:/payments"]
  payload := .dict [(.str (py "amount_minor"), .int 1000), (.str (py "currency"), .str (py "EUR"))]
  runtime_evidence_digest := py "runtime-ok"
  authority_context := ∅
  status := .nonEffective

/-- The same act with the nonce spelled as `e` and a combining accent. -/
def respelledCandidate : CandidateAct :=
  { sampleCandidate with nonce := ofText ['e', Char.ofNat 0x301] }

/-- Another act of the same source. -/
def nextCandidate : CandidateAct :=
  { sampleCandidate with act_id := py "act-1", nonce := py "nonce-1" }

/-- Empty stores. -/
def sampleWorld : World sampleRuntime where
  authority := ⟨.init 1000 1000, .init sampleAuthenticator, []⟩
  effects := ⟨⟨∅⟩, ⟨py "network-egress", 0, [], false⟩⟩

/-- Nothing has happened in it. -/
theorem sampleWorld_empty : sampleWorld.Empty := ⟨rfl, rfl, rfl, rfl, rfl, rfl⟩

/-- The sample authority signs what has canonical bytes, under names that have them. -/
theorem sample_operational : Operational sampleAuthority :=
  ⟨HMACAuthenticator.signsCanon, by decide, by decide⟩

/-- Its authenticator accepts its own signatures. -/
theorem sample_acceptsOwn : sampleAuthority.authenticator.AcceptsOwn := HMACAuthenticator.acceptsOwn

/-- The two spellings are one act. -/
theorem sample_eqv : Eqv sampleRuntime sampleCandidate.asdict respelledCandidate.asdict :=
  ⟨_, ⟨rfl, rfl⟩, rfl, rfl⟩

/-- Both can be hashed. -/
theorem sample_canon : Canon sampleRuntime sampleCandidate.asdict ∧
    Canon sampleRuntime respelledCandidate.asdict :=
  ⟨sample_eqv.canon, sample_eqv.symm.canon⟩

/-- Its nonce is another one, however it is spelled. -/
theorem next_nonce : ¬ NfcEq sampleRuntime sampleCandidate.nonce nextCandidate.nonce :=
  fun h => absurd h.2.2 (by decide)

/-- So can the other act. -/
theorem next_canon : Canon sampleRuntime nextCandidate.asdict := ⟨_, rfl, rfl⟩

/-- The candidate with another payload and another context. -/
def CandidateAct.withContent (c : CandidateAct) (payload : PyVal) (ctx : PyDict PyVal) :
    CandidateAct :=
  { c with payload := payload, authority_context := ctx }

/-- The candidate with another context. -/
def CandidateAct.withContext (c : CandidateAct) (ctx : PyDict PyVal) : CandidateAct :=
  c.withContent c.payload ctx

/-- A candidate can be hashed with another context that can be. -/
theorem canon_withContext {R : Runtime} {c : CandidateAct} {ctx : PyDict PyVal}
    (hc : Canon R c.asdict) (hctx : Canon R ctx.toVal) : Canon R (c.withContext ctx).asdict := by
  rw [candidateCanon_iff] at hc ⊢
  exact { hc with authority_context := hctx }

/-- The policy allows the sample act, whatever it carries. -/
theorem sample_allows (payload : PyVal) (ctx : PyDict PyVal) :
    sampleAuthority.policy.Allows (sampleCandidate.withContent payload ctx) 200 := by
  rw [Policy.allows_iff]
  exact (by decide : sampleAuthority.policy.reasons sampleCandidate 200 = [])

/-- A moment later it allows the other spelling. -/
theorem respelled_allows (ctx : PyDict PyVal) :
    sampleAuthority.policy.Allows (respelledCandidate.withContext ctx) 201 := by
  rw [Policy.allows_iff]
  exact (by decide : sampleAuthority.policy.reasons respelledCandidate 201 = [])

/-- The empty context has canonical bytes. -/
theorem sample_context : Canon sampleRuntime (PyDict.toVal ∅) := ⟨_, rfl, rfl⟩

/-- The sample authority commits evidence that is not in the store yet. -/
theorem sample_commit {s : AuthorityStores sampleRuntime} {c : CandidateAct} {t : StateTransition}
    {now : Int} {ev : ValidationEvidence} (he : EvidenceIssued sampleAuthority c t now ev)
    (hauth : s.evidence_store.authenticator = sampleAuthenticator)
    (hfail : s.evidence_store.fail_commits = false)
    (hfresh : s.evidence_store.get ev.evidence_id = none) :
    ∃ store, s.evidence_store.commit ev = .ok store :=
  EvidenceStore.commit_succeeds hfail
    (by rw [hauth, he.key_id]; exact sample_acceptsOwn _ _ he.signature) hfresh

/-- In empty stores the sample act can be charged, with any payload and context. -/
theorem sample_due {payload : PyVal} {ctx : PyDict PyVal}
    (hc : Canon sampleRuntime (sampleCandidate.withContent payload ctx).asdict) :
    Due sampleAuthority sampleWorld.authority.state (sampleCandidate.withContent payload ctx) 1
      200 where
  canon := hc
  allowed := sample_allows payload ctx
  cost_pos := by decide
  unreserved := AList.notMem_empty _
  quota := (by decide : 1 ≤ (sampleWorld.authority.state.snapshot sampleCandidate.source).1.quota)
  budget := (by decide : 1 ≤ (sampleWorld.authority.state.snapshot sampleCandidate.source).1.budget)
  counters_print := (by decide : ∀ i ∈ counters (nextTransition
    (sampleWorld.authority.state.snapshot sampleCandidate.source).1 sampleCandidate 1),
    printsInt i = true)

/-- In empty stores the sample act is authorised, with any payload and context. -/
theorem sample_authorize_content {payload : PyVal} {ctx : PyDict PyVal}
    (hc : Canon sampleRuntime (sampleCandidate.withContent payload ctx).asdict) :
    ∃ cap s', sampleAuthority.authorize sampleWorld.authority
      (sampleCandidate.withContent payload ctx) 1 200 = (.ok cap, s') := by
  obtain ⟨t, st, hg⟩ := (sample_due hc).exists_granted
  obtain ⟨cap, s', h, -⟩ := authorize_succeeds sample_operational hc (sample_allows payload ctx) hg
    (by decide) (by decide : printsInt (sampleAuthority.expires sampleCandidate 200) = true)
    fun ev he => sample_commit he rfl rfl rfl
  exact ⟨cap, s', h⟩

/-- In empty stores the sample act is authorised, in any context that can be hashed. -/
theorem sample_authorize_context {ctx : PyDict PyVal} (hctx : Canon sampleRuntime ctx.toVal) :
    ∃ cap s', sampleAuthority.authorize sampleWorld.authority (sampleCandidate.withContext ctx) 1
      200 = (.ok cap, s') :=
  sample_authorize_content (canon_withContext sample_canon.1 hctx)

/-- What it takes of an act to be granted at 201, after the sample act was granted at 200. -/
structure GrantedNext (c : CandidateAct) : Prop where
  canon : Canon sampleRuntime c.asdict
  allowed : sampleAuthority.policy.Allows c 201
  source : c.source = sampleCandidate.source
  nonce : c.nonce ≠ sampleCandidate.nonce
  expires : printsInt (sampleAuthority.expires c 201) = true

/-- The other spelling of the act is granted after it. -/
theorem respelled_grantedNext {ctx : PyDict PyVal} (hctx : Canon sampleRuntime ctx.toVal) :
    GrantedNext (respelledCandidate.withContext ctx) where
  canon := canon_withContext sample_canon.2 hctx
  allowed := respelled_allows ctx
  source := rfl
  nonce := (by decide : respelledCandidate.nonce ≠ sampleCandidate.nonce)
  expires := (by decide : printsInt (sampleAuthority.expires respelledCandidate 201) = true)

/-- So is the other act. -/
theorem next_grantedNext {ctx : PyDict PyVal} (hctx : Canon sampleRuntime ctx.toVal) :
    GrantedNext (nextCandidate.withContext ctx) where
  canon := canon_withContext next_canon hctx
  allowed := by
    rw [Policy.allows_iff]
    exact (by decide : sampleAuthority.policy.reasons nextCandidate 201 = [])
  source := rfl
  nonce := (by decide : nextCandidate.nonce ≠ sampleCandidate.nonce)
  expires := (by decide : printsInt (sampleAuthority.expires nextCandidate 201) = true)

/-- After the sample act was authorised at 200, such an act is authorised at 201. -/
theorem GrantedNext.authorize {ctx : PyDict PyVal} {c : CandidateAct} (hc : GrantedNext c)
    {s s' : AuthorityStores sampleRuntime} {cap : Capability}
    (h : sampleAuthority.authorize sampleWorld.authority (sampleCandidate.withContext ctx) 1 200 =
      (.ok cap, s))
    (hstate : s'.state = s.state) (hev : s'.evidence_store = s.evidence_store) :
    ∃ cap' s'', sampleAuthority.authorize s' c 1 201 = (.ok cap', s'') ∧
      cap'.capability_id ≠ cap.capability_id := by
  obtain ⟨t, ev, hauth⟩ := authorize_ok h
  have hcharged : (s'.state.snapshot c.source).1 = ⟨1, 999, 999⟩ := by
    rw [hstate, hc.source]
    exact hauth.granted.charged
  have hfresh : s'.state.nonces.lookup c.nonce = none := by
    have hne : c.nonce ≠ (sampleCandidate.withContext ctx).nonce := hc.nonce
    rw [hstate, hauth.granted.nonces_eq, AList.lookup_insert_ne hne]
    rfl
  obtain ⟨t', st, hg⟩ : ∃ t st', Granted sampleRuntime s'.state c 1 t st' :=
    exists_granted (by decide) hfresh (by rw [hcharged]; decide) (by rw [hcharged]; decide) hc.canon
      (by
        rw [hcharged]
        exact (by decide : ∀ i ∈ counters (nextTransition ⟨1, 999, 999⟩ sampleCandidate 1),
          printsInt i = true))
  obtain ⟨-, -, -, hstore⟩ := EvidenceStore.commit_ok.1 hauth.committed
  obtain ⟨cap', s'', h', -⟩ := authorize_succeeds sample_operational hc.canon hc.allowed hg
    (by decide) hc.expires
    fun ev' he' => sample_commit he' (by rw [hev, hstore]; rfl) (by rw [hev, hstore]; rfl) (by
      rw [hev, hstore, EvidenceStore.get, AList.lookup_insert_ne
        (evidence_id_ne sample_injective he' hauth.evidence (by decide))]
      rfl)
  obtain ⟨t'', ev'', hauth'⟩ := authorize_ok h'
  exact ⟨cap', s'', h',
    capability_id_ne sample_injective hauth'.capability hauth.capability (by decide)⟩

/-- The first authorisation in empty stores succeeds. -/
theorem sample_authorize : ∃ cap s',
    sampleAuthority.authorize sampleWorld.authority sampleCandidate 1 200 = (.ok cap, s') :=
  sample_authorize_context sample_context

end Finality
