import Finality.Canonical.Same
import Finality.Core.Completeness

/-!
# The act that was authorised

A sink accepts a capability with the candidate it was issued for, and with every candidate of the
same digest. While the authorised candidate contains neither byte strings nor the dictionaries they
are written as (`CandidateAct.Untagged`), those are the same act up to NFC and tuples for lists,
and only then (`exact_act_binding`).
-/

namespace Finality

open Checks ProtectedAuthority FinalitySink Runs

variable {R : Runtime}

/-- The payload and the context are plain values. -/
def CandidateAct.Plain (c : CandidateAct) : Prop :=
  Finality.Plain c.payload ∧ Finality.Plain c.authority_context.toVal

/-- Neither the payload nor a value of the context contains a byte string or a dictionary that one
is written as. -/
def CandidateAct.Untagged (c : CandidateAct) : Prop :=
  Finality.Untagged c.payload ∧
    UntaggedEntries (c.authority_context.entries.map fun e => (.str e.1, e.2))

/-- The candidates are the same in every field, with strings compared up to NFC and tuples taken
for lists. -/
structure SameAct (R : Runtime) (c c' : CandidateAct) : Prop extends CandidateEqv R c c' where
  same_payload : Same R c.payload c'.payload
  same_context : Same R c.authority_context.toVal c'.authority_context.toVal

/-- Contexts whose values are untagged are the same when they are canonically equal. -/
theorem same_context_of_eqv {d d' : PyDict PyVal} (hd : Plain d.toVal)
    (hu : UntaggedEntries (d.entries.map fun e => (.str e.1, e.2))) (hd' : Plain d'.toVal)
    (h : Eqv R d.toVal d'.toVal) : Same R d.toVal d'.toVal := by
  obtain ⟨n, hn, hn'⟩ := h
  obtain ⟨ms, hms, -, rfl⟩ := normal_dict.1 hn
  obtain ⟨ms', hms', -, hobj⟩ := normal_dict.1 hn'
  refine same_dict hms' (JsonText.Json.obj.inj hobj) fun gs hgs hgm => ?_
  refine sameEntries_of_eqv hd hu ?_ hms hgm
  exact plainEntries_iff.2 fun g hg => plainEntries_iff.1 hd' g (hgs g hg)

/-- An untagged act is the same as every act it is canonically equal to. -/
theorem sameAct_of_candidateEqv {c c' : CandidateAct} (hc : c.Plain) (hu : c.Untagged)
    (hc' : c'.Plain) (h : CandidateEqv R c c') : SameAct R c c' :=
  { h with
    same_payload := same_of_eqv hc.1 hu.1 hc'.1 h.payload
    same_context := same_context_of_eqv hc.2 hu.2 hc'.2 h.authority_context }

/-- Other values under the keys of a dictionary make a dictionary. -/
theorem exists_dict_of_keys {d : PyDict PyVal} {fs : List (PyKey × PyVal)}
    (h : (d.entries.map fun e => ((.str e.1, e.2) : PyKey × PyVal)).map Prod.fst =
      fs.map Prod.fst) :
    ∃ d' : PyDict PyVal, d'.entries.map (fun e => ((.str e.1, e.2) : PyKey × PyVal)) = fs := by
  have hlist : ∀ (es : List (Sigma fun _ : PyStr => PyVal)) (fs : List (PyKey × PyVal)),
      (es.map fun e => ((.str e.1, e.2) : PyKey × PyVal)).map Prod.fst = fs.map Prod.fst →
      ∃ es' : List (Sigma fun _ : PyStr => PyVal), es'.keys = es.keys ∧
        es'.map (fun e => ((.str e.1, e.2) : PyKey × PyVal)) = fs := by
    intro es
    induction es with
    | nil =>
      intro fs h
      obtain rfl : fs = [] := List.map_eq_nil_iff.1 h.symm
      exact ⟨[], rfl, rfl⟩
    | cons e es ih =>
      intro fs h
      cases fs with
      | nil => cases h
      | cons f fs =>
        obtain ⟨k, w⟩ := f
        simp only [List.map_cons, List.cons.injEq] at h
        obtain ⟨hk, hrest⟩ := h
        obtain ⟨es', hkeys, rfl⟩ := ih fs hrest
        exact ⟨⟨e.1, w⟩ :: es', by rw [List.keys_cons, List.keys_cons, hkeys], by
          rw [List.map_cons, ← hk]⟩
  obtain ⟨es', hkeys, hes'⟩ := hlist d.entries fs h
  exact ⟨⟨es', by rw [List.NodupKeys, hkeys]; exact d.nodupKeys⟩, hes'⟩

/-- **A tagged act is canonically equal to another one.** -/
theorem exists_not_sameAct {c : CandidateAct} (hplain : c.Plain) (hc : Canon R c.asdict)
    (hu : ¬ c.Untagged) : ∃ payload ctx, (c.withContent payload ctx).Plain ∧
      CandidateEqv R c (c.withContent payload ctx) ∧ ¬ SameAct R c (c.withContent payload ctx) := by
  have hself := candidateEqv_of_eqv hc.eqv
  by_cases hpayload : Untagged c.payload
  · have hctx : ¬ UntaggedEntries (c.authority_context.entries.map fun e => (.str e.1, e.2)) :=
      fun h => hu ⟨hpayload, h⟩
    have hdict : Canon R c.authority_context.toVal := hself.authority_context.canon
    have hvalues : ∀ e ∈ c.authority_context.entries.map fun e => ((.str e.1, e.2) : PyKey × PyVal),
        Canon R e.2 := by
      intro e he
      obtain ⟨e', -, -, heqv⟩ := entry_of_eqv hself.authority_context he
      exact heqv.canon
    obtain ⟨fs, hfs, hdiff⟩ := exists_differ hplain.2 hvalues hctx
    obtain ⟨ctx, rfl⟩ := exists_dict_of_keys hdiff.keys
    obtain ⟨heqv, hne⟩ := not_same_of_differ hdict hdiff
    exact ⟨c.payload, ctx, ⟨hplain.1, hfs⟩, { hself with authority_context := heqv },
      fun h => hne h.same_context⟩
  · obtain ⟨w, hw, heqv, hne⟩ := exists_not_same hplain.1 hself.payload.canon hpayload
    exact ⟨w, c.authority_context, ⟨hw, hplain.2⟩, { hself with payload := heqv },
      fun h => hne h.same_payload⟩

/-- A capability verifies with another content of the same digests. -/
theorem verified_withContent {sink : FinalitySink R} {ev : EvidenceStore R} {st : ProtectedState}
    {c : CandidateAct} {cap : Capability} {now : Int} {proof : Option PresentationProof} {d : PyStr}
    (hproof : sink.require_presentation_proof = false) {payload : PyVal} {ctx : PyDict PyVal}
    (h : CandidateEqv R c (c.withContent payload ctx))
    (hv : Verified sink ev st c cap now proof d) :
    Verified sink ev st (c.withContent payload ctx) cap now proof d := by
  have heqv := eqv_of_candidateEqv (canon_of_sha256Hex hv.candidate_digest) h
  have hhcad : ∀ sid bid,
      buildHcad R (c.withContent payload ctx) sid bid = buildHcad R c sid bid := by
    intro sid bid
    unfold buildHcad CandidateAct.payloadDigest
    rw [h.payload.sha256Hex_eq]
    rfl
  exact { hv with
    presentation := fun hp => absurd hp (by simp [hproof])
    candidate_digest := heqv.sha256Hex_eq.symm.trans hv.candidate_digest
    descriptor := by rw [hhcad]; exact hv.descriptor
    transition := hv.transition }

/-- A sink that serves the candidate and whose window ends with the capability's. -/
def servingSink (a : ProtectedAuthority R) (c : CandidateAct) (cap : Capability) :
    FinalitySink R where
  context := ⟨c.sink_id, c.boundary_id, c.policy_epoch, c.scope, c.effect_class⟩
  authenticator := a.authenticator
  effect_handle := 0
  max_clock_skew_ns := cap.issued_at_ns - cap.expires_at_ns
  receipt_authenticator := some (HMACAuthenticator.toAuthenticator R ⟨[], py "receipt-key"⟩)
  presenter_verifier := none
  require_presentation_proof := false
  presentation_freshness_ns := 0

/-- Fresh effect stores. -/
def freshStores : EffectStores := ⟨⟨∅⟩, ⟨py "network-egress", 0, [], false⟩⟩

/-- A capability is accepted with every other content of the same digests. -/
theorem effectuate_withContent {a : ProtectedAuthority R} (hown : a.authenticator.AcceptsOwn)
    {s s' : AuthorityStores R} {c : CandidateAct} {cost t₀ : Int} {cap : Capability}
    (h : a.authorize s c cost t₀ = (.ok cap, s')) {payload : PyVal} {ctx : PyDict PyVal}
    (he : CandidateEqv R c (c.withContent payload ctx)) :
    ∃ receipt stores', (servingSink a c cap).effectuate s'.evidence_store s'.state freshStores
      (c.withContent payload ctx) cap cap.expires_at_ns none = (.ok receipt, stores') := by
  obtain ⟨t, ev, hauth⟩ := authorize_ok h
  have hserves : Serves (servingSink a c cap) a c := ⟨rfl, rfl, rfl, rfl, rfl, rfl, fun _ h => h⟩
  have hearly : cap.issued_at_ns - (servingSink a c cap).max_clock_skew_ns ≤ cap.expires_at_ns := by
    simp only [servingSink]
    omega
  have hv := verified_of_authorized hown hauth hserves hearly (le_refl _) none
  have hfresh : cap.capability_id ∉ freshStores.consumption_store.claims := AList.notMem_empty _
  have hlate : printsInt cap.expires_at_ns = true := by
    rw [hauth.capability.expires_at_ns]
    exact hauth.capability.printsInt_times.2
  obtain ⟨receipt, record, heff, -⟩ := effectuate_succeeds (verified_withContent rfl he hv) hfresh
    rfl rfl rfl (by decide) HMACAuthenticator.signsCanon rfl hlate
  exact ⟨receipt, _, heff⟩

/-- What a successful `effectuate` commits. -/
theorem effectuate_ok {sink : FinalitySink R} {ev : EvidenceStore R} {st : ProtectedState}
    {stores stores' : EffectStores} {c : CandidateAct} {cap : Capability} {now : Int}
    {proof : Option PresentationProof} {receipt : SinkReceipt}
    (h : sink.effectuate ev st stores c cap now proof = (.ok receipt, stores')) :
    (∃ d, Verified sink ev st c cap now proof d) ∧ ∃ record,
      stores'.effector.records = stores.effector.records ++ [record] ∧
        record.payload = c.payload := by
  have hcases := effectuated (s := ⟨st, ev, []⟩) h
  generalize hr : (Except.ok receipt : Except PyErr SinkReceipt) = r at hcases
  cases hcases with
  | unverified => cases hr
  | replayed => cases hr
  | failed => cases hr
  | @committed d claims effector record hv hc he =>
    obtain ⟨-, -, hrec, rfl⟩ := GuardedEffector.commit_ok.1 he
    exact ⟨⟨d, hv⟩, record, rfl, (GuardedEffector.nextRecord_ok hrec).2.1⟩

/-- **Exact-act binding.** In every state reached after `authorize(c₀)` returned `cap`, a sink that
effects `cap` with a plain candidate effects the same act and commits the same payload, exactly when
`c₀` contains neither a byte string nor a dictionary that one is written as. -/
theorem exact_act_binding (hsha : ShaInjective R) {a : ProtectedAuthority R}
    (hown : a.authenticator.AcceptsOwn) {w₀ : World R} {c₀ : CandidateAct} {cost t₀ : Int}
    {cap : Capability} {s' : AuthorityStores R}
    (h : a.authorize w₀.authority c₀ cost t₀ = (.ok cap, s')) (hplain : c₀.Plain) :
    (∀ ops w, Run (Step a) ⟨s', w₀.effects⟩ ops w →
      ∀ (sink : FinalitySink R) stores c now proof receipt stores', c.Plain →
        sink.effectuate w.authority.evidence_store w.authority.state stores c cap now proof =
          (.ok receipt, stores') →
        SameAct R c₀ c ∧ ∃ record,
          stores'.effector.records = stores.effector.records ++ [record] ∧
            Same R c₀.payload record.payload) ↔ c₀.Untagged := by
  obtain ⟨t, ev, hauth⟩ := authorize_ok h
  have hdigest := hauth.capability.candidate_digest
  refine ⟨fun hall => ?_, fun hu ops w _ sink stores c now proof receipt stores' hc heff => ?_⟩
  · by_contra hu
    obtain ⟨payload, ctx, hc, heqv, hne⟩ :=
      exists_not_sameAct hplain (canon_of_sha256Hex hdigest) hu
    obtain ⟨receipt, stores', heff⟩ := effectuate_withContent hown h heqv
    exact hne (hall [] _ .nil _ _ _ _ _ _ _ hc heff).1
  · obtain ⟨⟨d, hv⟩, record, hrecords, hrecord⟩ := effectuate_ok heff
    have hsame := sameAct_of_candidateEqv hplain hu hc
      (candidateEqv_of_digest hsha hdigest hv.candidate_digest)
    exact ⟨hsame, record, hrecords, hrecord ▸ hsame.same_payload⟩

theorem exact_act_binding_sample : ∃ cap s',
    sampleAuthority.authorize sampleWorld.authority sampleCandidate 1 200 = (.ok cap, s') ∧
    ∀ (sink : FinalitySink sampleRuntime) stores c now proof receipt stores', c.Plain →
      sink.effectuate s'.evidence_store s'.state stores c cap now proof = (.ok receipt, stores') →
      SameAct sampleRuntime sampleCandidate c := by
  obtain ⟨cap, s', h⟩ := sample_authorize
  have hplain : sampleCandidate.Plain := ⟨⟨trivial, trivial, trivial⟩, trivial⟩
  have huntagged : sampleCandidate.Untagged := ⟨⟨rfl, trivial, trivial, trivial⟩, trivial⟩
  have hall := (exact_act_binding sample_injective sample_acceptsOwn h hplain).2 huntagged
  exact ⟨cap, s', h, fun sink stores c now proof receipt stores' hc heff =>
    (hall [] _ .nil sink stores c now proof receipt stores' hc heff).1⟩

/-- The payload `{"blob": value}`. -/
def blobPayload (value : PyVal) : PyVal := .dict [(.str (py "blob"), value)]

/-- **The act that was authorised is not the act that is effected**: a byte string in the payload
is exchanged for the dictionary it is written as. -/
theorem exchanged_bytes : ∃ cap s' receipt stores' record,
    sampleAuthority.authorize sampleWorld.authority
      (sampleCandidate.withContent (blobPayload (.bytes [1])) ∅) 1 200 = (.ok cap, s') ∧
    (sampleCandidate.withContent (blobPayload (.bytes [1])) ∅).Plain ∧
    (sampleCandidate.withContent (blobPayload (.dict (taggedEntries [1]))) ∅).Plain ∧
    sampleSink.effectuate s'.evidence_store s'.state sampleWorld.effects
      (sampleCandidate.withContent (blobPayload (.dict (taggedEntries [1]))) ∅) cap 200 none =
        (.ok receipt, stores') ∧
    stores'.effector.records = [record] ∧
    record.payload = blobPayload (.dict (taggedEntries [1])) ∧
    ¬ Same sampleRuntime (blobPayload (.bytes [1])) record.payload := by
  have hblob : Eqv sampleRuntime (blobPayload (.bytes [1]))
      (blobPayload (.dict (taggedEntries [1]))) := ⟨_, ⟨rfl, rfl⟩, rfl, rfl⟩
  have hempty : Eqv sampleRuntime (.dict []) (.dict []) := ⟨_, ⟨rfl, rfl⟩, rfl, rfl⟩
  have hcanon : Canon sampleRuntime
      (sampleCandidate.withContent (blobPayload (.bytes [1])) ∅).asdict :=
    candidateCanon_iff.2 { candidateCanon_iff.1 sample_canon.1 with
      payload := hblob.canon
      authority_context := hempty.canon }
  have hsample := candidateEqv_of_eqv sample_canon.1.eqv
  have heqv : Eqv sampleRuntime (sampleCandidate.withContent (blobPayload (.bytes [1])) ∅).asdict
      (sampleCandidate.withContent (blobPayload (.dict (taggedEntries [1]))) ∅).asdict :=
    eqv_of_candidateEqv hcanon { hsample with payload := hblob, authority_context := hempty }
  obtain ⟨cap, s', h⟩ := sample_authorize_content hcanon
  obtain ⟨t, ev, hauth⟩ := authorize_ok h
  have hserves : Serves sampleSink sampleAuthority
      (sampleCandidate.withContent (blobPayload (.bytes [1])) ∅) :=
    ⟨rfl, rfl, rfl, rfl, rfl, rfl, sampleSink_serves.supported⟩
  have hskew : 0 ≤ sampleSink.max_clock_skew_ns := by decide
  obtain ⟨hearly, hlate⟩ := in_window hauth (by decide) hskew
  have hv := verified_withContent rfl (candidateEqv_of_eqv heqv)
    (verified_of_authorized sample_acceptsOwn hauth hserves hearly hlate none)
  have hfresh : cap.capability_id ∉ sampleWorld.effects.consumption_store.claims :=
    AList.notMem_empty _
  obtain ⟨receipt, record, heff, hrec⟩ := effectuate_succeeds hv hfresh rfl rfl rfl
    (by decide) HMACAuthenticator.signsCanon rfl (by decide)
  have hpayload : record.payload = blobPayload (.dict (taggedEntries [1])) :=
    (GuardedEffector.nextRecord_ok hrec).2.1
  refine ⟨cap, s', receipt, _, record, h, ⟨⟨trivial, trivial⟩, trivial⟩,
    ⟨⟨⟨trivial, trivial⟩, trivial⟩, trivial⟩, heff, rfl, hpayload, ?_⟩
  rw [hpayload]
  rintro ⟨fs, arranged, hfs, hperm, hsame⟩
  obtain rfl := PyVal.dict.inj hfs
  obtain rfl := List.singleton_perm.1 hperm
  obtain ⟨k, w, rest, heq, -, hw, -⟩ := hsame
  obtain ⟨-, rfl⟩ := Prod.mk.inj (List.cons.inj heq).1
  cases hw

end Finality
