import Finality.Core.State
import Finality.Core.Evidence
import Finality.Core.Policy

/-!
# The protected authority (`authority.py`)

`authorize` validates the candidate, advances the protected state, commits evidence and issues the
capability. The stores it leaves are returned with its result, also when it raises: a transition
that was granted before a failure stays.

`signed` is a history variable. It lists every value the authenticator's key has signed, in order;
no function of the program reads it, and unforgeability is stated over it.
-/

namespace Finality

open Checks ProtectedState

/-- `ProtectedAuthority`, without the stores it shares with the sinks. -/
structure ProtectedAuthority (R : Runtime) where
  authority_id : PyStr
  policy : Policy
  authenticator : Authenticator R
  capability_ttl_ns : Int

/-- What `authorize` writes to. -/
structure AuthorityStores (R : Runtime) where
  state : ProtectedState
  evidence_store : EvidenceStore R
  signed : List PyVal

namespace ProtectedAuthority

section
variable {R : Runtime} (a : ProtectedAuthority R)

/-- `evidence_core` -/
def evidenceCore (descriptor_digest candidate_digest : PyStr) (transition : StateTransition)
    (candidate : CandidateAct) (now : Int) : List (String × PyVal) :=
  [("authority_id", .str a.authority_id), ("descriptor_digest", .str descriptor_digest),
   ("candidate_digest", .str candidate_digest), ("transition_id", .str transition.transition_id),
   ("policy_epoch", .int candidate.policy_epoch), ("decision", .str Decision.allow.value),
   ("reasons", .list []), ("committed_at_ns", .int now), ("key_id", .str a.authenticator.key_id)]

/-- The evidence `authorize` signs. -/
def issueEvidence (descriptor : HCAD) (candidate : CandidateAct) (transition : StateTransition)
    (now : Int) : Except PyErr ValidationEvidence := do
  let descriptor_digest ← descriptor.digest R
  let candidate_digest ← candidate.digest R
  let evidence_core := a.evidenceCore descriptor_digest candidate_digest transition candidate now
  let evidence_id ← sha256Hex R (.ofEntries evidence_core)
  let signature ← a.authenticator.sign
    (.ofEntries (("evidence_id", .str evidence_id) :: evidence_core))
  .ok { evidence_id := evidence_id
        authority_id := a.authority_id
        descriptor_digest := descriptor_digest
        candidate_digest := candidate_digest
        transition_id := transition.transition_id
        policy_epoch := candidate.policy_epoch
        decision := .allow
        reasons := []
        committed_at_ns := now
        signature := signature
        key_id := a.authenticator.key_id }

/-- `min(candidate.issued_at_ns + candidate.freshness_ns, now + self.capability_ttl_ns)` -/
def expires (candidate : CandidateAct) (now : Int) : Int :=
  min (candidate.issued_at_ns + candidate.freshness_ns) (now + a.capability_ttl_ns)

/-- `cap_core` -/
def capCore (descriptor_digest candidate_digest : PyStr) (evidence : ValidationEvidence)
    (transition : StateTransition) (candidate : CandidateAct) (now : Int) :
    List (String × PyVal) :=
  [("authority_id", .str a.authority_id), ("candidate_digest", .str candidate_digest),
   ("descriptor_digest", .str descriptor_digest), ("sink_id", .str candidate.sink_id),
   ("boundary_id", .str candidate.boundary_id), ("nonce", .str candidate.nonce),
   ("scope", .list (strs candidate.scope)), ("policy_epoch", .int candidate.policy_epoch),
   ("evidence_id", .str evidence.evidence_id), ("transition_id", .str transition.transition_id),
   ("issued_at_ns", .int now), ("expires_at_ns", .int (a.expires candidate now)),
   ("key_id", .str a.authenticator.key_id)]

/-- The capability `authorize` returns. -/
def issueCapability (descriptor : HCAD) (candidate : CandidateAct) (transition : StateTransition)
    (evidence : ValidationEvidence) (now : Int) : Except PyErr Capability := do
  let candidate_digest ← candidate.digest R
  let descriptor_digest ← descriptor.digest R
  let cap_core := a.capCore descriptor_digest candidate_digest evidence transition candidate now
  let capability_id ← sha256Hex R (.ofEntries cap_core)
  let signature ← a.authenticator.sign
    (.ofEntries (("capability_id", .str capability_id) :: cap_core))
  .ok { capability_id := capability_id
        authority_id := a.authority_id
        candidate_digest := candidate_digest
        descriptor_digest := descriptor_digest
        sink_id := candidate.sink_id
        boundary_id := candidate.boundary_id
        nonce := candidate.nonce
        scope := candidate.scope
        policy_epoch := candidate.policy_epoch
        evidence_id := evidence.evidence_id
        transition_id := transition.transition_id
        issued_at_ns := now
        expires_at_ns := a.expires candidate now
        key_id := a.authenticator.key_id
        signature := signature }

/-- `ProtectedAuthority.authorize` -/
def authorize (s : AuthorityStores R) (candidate : CandidateAct) (cost now : Int) :
    Except PyErr Capability × AuthorityStores R :=
  match buildHcad R candidate none none with
  | .error e => (.error e, s)
  | .ok descriptor =>
    match a.policy.validate candidate now with
    | (false, reasons) => (.error (.validationDenied (joinReasons reasons)), s)
    | (true, _) =>
      -- from here on the protected state has moved, whatever happens next
      match s.state.transitionForAuthorization R candidate cost with
      | (.error e, state) => (.error e, { s with state := state })
      | (.ok transition, state) =>
        match a.issueEvidence descriptor candidate transition now with
        | .error e => (.error e, { s with state := state })
        | .ok evidence =>
          match s.evidence_store.commit evidence with
          | .error e =>
              (.error e, { s with state := state, signed := s.signed ++ [evidence.unsigned] })
          | .ok evidence_store =>
            match a.issueCapability descriptor candidate transition evidence now with
            | .error e => (.error e, ⟨state, evidence_store, s.signed ++ [evidence.unsigned]⟩)
            | .ok cap =>
                (.ok cap, ⟨state, evidence_store,
                  s.signed ++ [evidence.unsigned] ++ [cap.unsigned]⟩)

end

/-! ## What an authorisation does -/

variable {R : Runtime}

/-- The evidence `authorize` signs, field by field. -/
structure EvidenceIssued (a : ProtectedAuthority R) (c : CandidateAct) (t : StateTransition)
    (now : Int) (e : ValidationEvidence) : Prop where
  descriptor : ∃ h, buildHcad R c none none = .ok h ∧ h.digest R = .ok e.descriptor_digest
  candidate_digest : c.digest R = .ok e.candidate_digest
  authority_id : e.authority_id = a.authority_id
  transition_id : e.transition_id = t.transition_id
  policy_epoch : e.policy_epoch = c.policy_epoch
  decision : e.decision = .allow
  reasons : e.reasons = []
  committed_at_ns : e.committed_at_ns = now
  key_id : e.key_id = a.authenticator.key_id
  evidence_id : sha256Hex R (.ofEntries
    (a.evidenceCore e.descriptor_digest e.candidate_digest t c now)) = .ok e.evidence_id
  signature : a.authenticator.sign e.unsigned = .ok e.signature

/-- The capability `authorize` returns, field by field. -/
structure CapabilityIssued (a : ProtectedAuthority R) (c : CandidateAct) (t : StateTransition)
    (e : ValidationEvidence) (now : Int) (cap : Capability) : Prop where
  descriptor : ∃ h, buildHcad R c none none = .ok h ∧ h.digest R = .ok cap.descriptor_digest
  candidate_digest : c.digest R = .ok cap.candidate_digest
  authority_id : cap.authority_id = a.authority_id
  sink_id : cap.sink_id = c.sink_id
  boundary_id : cap.boundary_id = c.boundary_id
  nonce : cap.nonce = c.nonce
  scope : cap.scope = c.scope
  policy_epoch : cap.policy_epoch = c.policy_epoch
  evidence_id : cap.evidence_id = e.evidence_id
  transition_id : cap.transition_id = t.transition_id
  issued_at_ns : cap.issued_at_ns = now
  expires_at_ns : cap.expires_at_ns = a.expires c now
  key_id : cap.key_id = a.authenticator.key_id
  capability_id : sha256Hex R (.ofEntries
    (a.capCore cap.descriptor_digest cap.candidate_digest e t c now)) = .ok cap.capability_id
  signature : a.authenticator.sign cap.unsigned = .ok cap.signature

/-- The stores an authorisation leaves once its transition was granted: the evidence and the
capability it got to sign are in the signing history, and the evidence is committed when the
store took it. -/
inductive Advanced (a : ProtectedAuthority R) (s : AuthorityStores R) (c : CandidateAct)
    (now : Int) (t : StateTransition) (state : ProtectedState) :
    Except PyErr Capability → AuthorityStores R → Prop where
  | evidenceRefused {e} : Advanced a s c now t state (.error e) { s with state := state }
  | commitRefused {e ev} (he : EvidenceIssued a c t now ev) :
      Advanced a s c now t state (.error e)
        { s with state := state, signed := s.signed ++ [ev.unsigned] }
  | capabilityRefused {e ev store} (he : EvidenceIssued a c t now ev)
      (hc : s.evidence_store.commit ev = .ok store) :
      Advanced a s c now t state (.error e) ⟨state, store, s.signed ++ [ev.unsigned]⟩
  | issued {ev store cap} (he : EvidenceIssued a c t now ev)
      (hc : s.evidence_store.commit ev = .ok store) (hcap : CapabilityIssued a c t ev now cap) :
      Advanced a s c now t state (.ok cap)
        ⟨state, store, s.signed ++ [ev.unsigned] ++ [cap.unsigned]⟩

/-- What issued evidence says. -/
theorem issueEvidence_ok {a : ProtectedAuthority R} {c : CandidateAct} {t : StateTransition}
    {now : Int} {h : HCAD} {e : ValidationEvidence} (hh : buildHcad R c none none = .ok h)
    (he : a.issueEvidence h c t now = .ok e) : EvidenceIssued a c t now e := by
  simp only [issueEvidence, bind_eq_ok, Except.ok.injEq] at he
  obtain ⟨dd, hdd, cd, hcd, i, hi, s, hs, rfl⟩ := he
  exact ⟨⟨h, hh, hdd⟩, hcd, rfl, rfl, rfl, rfl, rfl, rfl, rfl, hi, hs⟩

/-- What an issued capability says. -/
theorem issueCapability_ok {a : ProtectedAuthority R} {c : CandidateAct} {t : StateTransition}
    {now : Int} {h : HCAD} {e : ValidationEvidence} {cap : Capability}
    (hh : buildHcad R c none none = .ok h) (hcap : a.issueCapability h c t e now = .ok cap) :
    CapabilityIssued a c t e now cap := by
  simp only [issueCapability, bind_eq_ok, Except.ok.injEq] at hcap
  obtain ⟨cd, hcd, dd, hdd, i, hi, s, hs, rfl⟩ := hcap
  exact ⟨⟨h, hh, hdd⟩, hcd, rfl, rfl, rfl, rfl, rfl, rfl, rfl, rfl, rfl, rfl, rfl, hi, hs⟩

/-- **Everything an authorisation can do.** It is refused before the transition and leaves the
nonces, the transitions, the evidence and the history alone, or the transition was granted, under
a policy that allowed the candidate. -/
theorem authorize_cases {a : ProtectedAuthority R} {s s' : AuthorityStores R} {c : CandidateAct}
    {cost now : Int} {r : Except PyErr Capability} (h : a.authorize s c cost now = (r, s')) :
    (∃ e st, r = .error e ∧ s' = { s with state := st } ∧
        (st = s.state ∨ st = (s.state.getSource c.source).2)) ∨
    ∃ t st, a.policy.Allows c now ∧ Granted R s.state c cost t st ∧
      Advanced a s c now t st r s' := by
  unfold authorize at h
  split at h
  · obtain ⟨rfl, rfl⟩ := Prod.mk.inj h
    exact .inl ⟨_, _, rfl, rfl, .inl rfl⟩
  rename_i d hd
  split at h
  · obtain ⟨rfl, rfl⟩ := Prod.mk.inj h
    exact .inl ⟨_, _, rfl, rfl, .inl rfl⟩
  rename_i hpolicy
  have hallow : a.policy.Allows c now := by rw [Policy.Allows, hpolicy]
  split at h
  · rename_i st ht
    obtain ⟨rfl, rfl⟩ := Prod.mk.inj h
    exact .inl ⟨_, _, rfl, rfl, transitionForAuthorization_error ht⟩
  rename_i t st ht
  refine .inr ⟨t, st, hallow, transitionForAuthorization_ok.1 ht, ?_⟩
  split at h
  · obtain ⟨rfl, rfl⟩ := Prod.mk.inj h
    exact .evidenceRefused
  rename_i ev hev
  have he := issueEvidence_ok hd hev
  split at h
  · obtain ⟨rfl, rfl⟩ := Prod.mk.inj h
    exact .commitRefused he
  rename_i store hstore
  split at h
  · obtain ⟨rfl, rfl⟩ := Prod.mk.inj h
    exact .capabilityRefused he hstore
  · rename_i cap hcap
    obtain ⟨rfl, rfl⟩ := Prod.mk.inj h
    exact .issued he hstore (issueCapability_ok hd hcap)

/-- What a successful authorisation did. -/
structure Authorized (a : ProtectedAuthority R) (s : AuthorityStores R) (c : CandidateAct)
    (cost now : Int) (t : StateTransition) (ev : ValidationEvidence) (cap : Capability)
    (s' : AuthorityStores R) : Prop where
  allowed : a.policy.Allows c now
  granted : Granted R s.state c cost t s'.state
  evidence : EvidenceIssued a c t now ev
  committed : s.evidence_store.commit ev = .ok s'.evidence_store
  capability : CapabilityIssued a c t ev now cap
  signed : s'.signed = s.signed ++ [ev.unsigned] ++ [cap.unsigned]

/-- **What an authorisation that returns a capability has done.** -/
theorem authorize_ok {a : ProtectedAuthority R} {s s' : AuthorityStores R} {c : CandidateAct}
    {cost now : Int} {cap : Capability} (h : a.authorize s c cost now = (.ok cap, s')) :
    ∃ t ev, Authorized a s c cost now t ev cap s' := by
  rcases authorize_cases h with ⟨e, st, he, -⟩ | ⟨t, st, hallow, hg, hadv⟩
  · simp at he
  · cases hadv with
    | issued he hc hcap => exact ⟨t, _, hallow, hg, he, hc, hcap, rfl⟩

/-! ## When an authorisation succeeds -/

/-- The authority can sign and the names it signs under have canonical bytes. -/
structure Operational (a : ProtectedAuthority R) : Prop where
  signs : a.authenticator.SignsCanon
  authority_id : hasSurrogate a.authority_id = false
  key_id : hasSurrogate a.authenticator.key_id = false

/-- Evidence is issued for a transition that was granted, if the time prints. -/
theorem exists_evidence {a : ProtectedAuthority R} (ha : Operational a) {st st' : ProtectedState}
    {c : CandidateAct} {cost now : Int} {t : StateTransition} {h : HCAD}
    (hc : Canon R c.asdict) (hg : Granted R st c cost t st') (hh : Canon R h.asdict)
    (hnow : printsInt now = true) : ∃ ev, a.issueEvidence h c t now = .ok ev := by
  obtain ⟨dd, hdd⟩ := hh.sha256Hex
  obtain ⟨cd, hcd, -, htid⟩ := identify_ok hg.identified
  have hkeys : GoodKeys ("evidence_id" :: (a.evidenceCore dd cd t c now).map Prod.fst) :=
    goodKeys_evidenceKeys
  have hcore : ∀ v ∈ (a.evidenceCore dd cd t c now).map Prod.snd, Canon R v := by
    simp only [evidenceCore, List.map_cons, List.map_nil, List.forall_mem_cons, canon_str,
      canon_int, canon_list, List.not_mem_nil, false_implies, implies_true, and_true, true_and]
    exact ⟨ha.authority_id, (inert_of_sha256Hex hdd).hasSurrogate,
      (inert_of_sha256Hex hcd).hasSurrogate, (inert_of_sha256Hex htid).hasSurrogate,
      (candidateCanon_iff.1 hc).policy_epoch, by simp [Decision.value, py], hnow, ha.key_id⟩
  obtain ⟨i, hi⟩ := ((canon_ofEntries_iff hkeys.tail).2 hcore).sha256Hex
  obtain ⟨s, hs⟩ := ha.signs _
    (canon_ofEntries_cons hkeys (canon_str.2 (inert_of_sha256Hex hi).hasSurrogate) hcore)
  exact ⟨_, bind_eq_ok.2 ⟨dd, hdd, bind_eq_ok.2 ⟨cd, hcd, bind_eq_ok.2 ⟨i, hi,
    bind_eq_ok.2 ⟨s, hs, rfl⟩⟩⟩⟩⟩

/-- So is a capability, if its times print. -/
theorem exists_capability {a : ProtectedAuthority R} (ha : Operational a) {st st' : ProtectedState}
    {c : CandidateAct} {cost now now' : Int} {t : StateTransition} {h : HCAD}
    {ev : ValidationEvidence} (hc : Canon R c.asdict) (hg : Granted R st c cost t st')
    (hh : Canon R h.asdict) (he : EvidenceIssued a c t now' ev) (hnow : printsInt now = true)
    (hexpires : printsInt (a.expires c now) = true) :
    ∃ cap, a.issueCapability h c t ev now = .ok cap := by
  obtain ⟨dd, hdd⟩ := hh.sha256Hex
  obtain ⟨cd, hcd, -, htid⟩ := identify_ok hg.identified
  have hcc := candidateCanon_iff.1 hc
  have hkeys : GoodKeys ("capability_id" :: (a.capCore dd cd ev t c now).map Prod.fst) :=
    goodKeys_capabilityKeys
  have hcore : ∀ v ∈ (a.capCore dd cd ev t c now).map Prod.snd, Canon R v := by
    simp only [capCore, List.map_cons, List.map_nil, List.forall_mem_cons, canon_str,
      canon_int, canon_list, strs, List.forall_mem_map, List.not_mem_nil, false_implies,
      implies_true, and_true]
    exact ⟨ha.authority_id, (inert_of_sha256Hex hcd).hasSurrogate,
      (inert_of_sha256Hex hdd).hasSurrogate, hcc.sink_id, hcc.boundary_id, hcc.nonce, hcc.scope,
      hcc.policy_epoch, (inert_of_sha256Hex he.evidence_id).hasSurrogate,
      (inert_of_sha256Hex htid).hasSurrogate, hnow, hexpires, ha.key_id⟩
  obtain ⟨i, hi⟩ := ((canon_ofEntries_iff hkeys.tail).2 hcore).sha256Hex
  obtain ⟨s, hs⟩ := ha.signs _
    (canon_ofEntries_cons hkeys (canon_str.2 (inert_of_sha256Hex hi).hasSurrogate) hcore)
  exact ⟨_, bind_eq_ok.2 ⟨cd, hcd, bind_eq_ok.2 ⟨dd, hdd, bind_eq_ok.2 ⟨i, hi,
    bind_eq_ok.2 ⟨s, hs, rfl⟩⟩⟩⟩⟩

/-- The time of evidence that was issued can be written. -/
theorem EvidenceIssued.printsInt_committed_at_ns {a : ProtectedAuthority R} {c : CandidateAct}
    {t : StateTransition} {now : Int} {ev : ValidationEvidence} (h : EvidenceIssued a c t now ev) :
    printsInt now = true := by
  obtain ⟨d, -, hdd⟩ := h.descriptor
  have hkeys : GoodKeys ((a.evidenceCore ev.descriptor_digest ev.candidate_digest t c now).map
      Prod.fst) := goodKeys_evidenceKeys.tail
  have hcore := (canon_ofEntries_iff hkeys).1 (canon_of_sha256Hex h.evidence_id)
  simp only [evidenceCore, List.map_cons, List.map_nil, List.forall_mem_cons, canon_int] at hcore
  tauto

/-- The times of a call whose capability was issued can be written. -/
theorem CapabilityIssued.printsInt_times {a : ProtectedAuthority R} {c : CandidateAct}
    {t : StateTransition} {e : ValidationEvidence} {now : Int} {cap : Capability}
    (h : CapabilityIssued a c t e now cap) :
    printsInt now = true ∧ printsInt (a.expires c now) = true := by
  have hkeys : GoodKeys ((a.capCore cap.descriptor_digest cap.candidate_digest e t c now).map
      Prod.fst) := goodKeys_capabilityKeys.tail
  have hcore := (canon_ofEntries_iff hkeys).1 (canon_of_sha256Hex h.capability_id)
  simp only [capCore, List.map_cons, List.map_nil, List.forall_mem_cons, canon_int] at hcore
  exact ⟨by tauto, by tauto⟩

/-- **When an authorisation succeeds**: the policy allows, the transition can be granted, the times
of the call can be written, and the evidence store takes the evidence. -/
theorem authorize_succeeds {a : ProtectedAuthority R} (ha : Operational a) {s : AuthorityStores R}
    {c : CandidateAct} {cost now : Int} (hc : Canon R c.asdict) (hallow : a.policy.Allows c now)
    {t : StateTransition} {st : ProtectedState} (hg : Granted R s.state c cost t st)
    (hnow : printsInt now = true) (hexpires : printsInt (a.expires c now) = true)
    (hstore : ∀ ev, EvidenceIssued a c t now ev → ∃ store, s.evidence_store.commit ev = .ok store) :
    ∃ cap s', a.authorize s c cost now = (.ok cap, s') ∧ s'.state = st ∧
      ∃ ev, EvidenceIssued a c t now ev ∧ s.evidence_store.commit ev = .ok s'.evidence_store := by
  have hcc := candidateCanon_iff.1 hc
  obtain ⟨h, hh, hhc⟩ : ∃ h, buildHcad R c none none = .ok h ∧ Canon R h.asdict :=
    canon_hcad hc hcc.sink_id hcc.boundary_id
  obtain ⟨ev, hev⟩ : ∃ ev, a.issueEvidence h c t now = .ok ev :=
    exists_evidence ha hc hg hhc hnow
  have he := issueEvidence_ok hh hev
  obtain ⟨store, hst⟩ := hstore ev he
  obtain ⟨cap, hcap⟩ : ∃ cap, a.issueCapability h c t ev now = .ok cap :=
    exists_capability ha hc hg hhc he hnow hexpires
  have hval : a.policy.validate c now = (true, (a.policy.validate c now).2) :=
    Prod.ext hallow rfl
  refine ⟨cap, ⟨st, store, s.signed ++ [ev.unsigned] ++ [cap.unsigned]⟩, ?_, rfl, ev, he, hst⟩
  unfold authorize
  rw [hh, hval]
  simp only [transitionForAuthorization_ok.2 hg, hev, hst, hcap]

/-- **Which authorisations are charged**: those of an act that the policy allows and that has
canonical bytes, with a nonce that is not reserved, from a source that can pay, with counters that
can be written. -/
structure Due (a : ProtectedAuthority R) (st : ProtectedState) (c : CandidateAct) (cost now : Int) :
    Prop where
  canon : Canon R c.asdict
  allowed : a.policy.Allows c now
  cost_pos : 0 < cost
  unreserved : c.nonce ∉ st.nonces
  quota : 1 ≤ (st.snapshot c.source).1.quota
  budget : cost ≤ (st.snapshot c.source).1.budget
  counters_print : ∀ i ∈ counters (nextTransition (st.snapshot c.source).1 c cost),
    printsInt i = true

/-- What is due is granted its transition. -/
theorem Due.exists_granted {a : ProtectedAuthority R} {st : ProtectedState} {c : CandidateAct}
    {cost now : Int} (h : Due a st c cost now) : ∃ t st', Granted R st c cost t st' :=
  ProtectedState.exists_granted h.cost_pos (AList.lookup_eq_none.2 h.unreserved) h.quota h.budget
    h.canon h.counters_print

/-- What the policy allows and is granted its transition was due. -/
theorem due_of_granted {a : ProtectedAuthority R} {st st' : ProtectedState} {c : CandidateAct}
    {cost now : Int} {t : StateTransition} (hallow : a.policy.Allows c now)
    (hg : Granted R st c cost t st') : Due a st c cost now where
  canon := by
    obtain ⟨d, hd, -⟩ := identify_ok hg.identified
    exact canon_of_sha256Hex hd
  allowed := hallow
  cost_pos := hg.cost_pos
  unreserved := AList.lookup_eq_none.1 hg.fresh
  quota := hg.quota
  budget := hg.budget
  counters_print := printsInt_counters hg.identified

/-- Evidence of two times has two ids. -/
theorem evidence_id_ne (hsha : ShaInjective R) {a : ProtectedAuthority R}
    {c c' : CandidateAct} {t t' : StateTransition} {now now' : Int} {e e' : ValidationEvidence}
    (he : EvidenceIssued a c t now e) (he' : EvidenceIssued a c' t' now' e') (hne : now ≠ now') :
    e.evidence_id ≠ e'.evidence_id := by
  intro h
  have hid := he'.evidence_id
  rw [← h] at hid
  have hv := (eqv_of_sha256Hex hsha he.evidence_id hid).values rfl
  simp only [evidenceCore, List.map_cons, List.forall₂_cons, eqv_int] at hv
  exact hne (by tauto)

/-- Capabilities of two times have two ids. -/
theorem capability_id_ne (hsha : ShaInjective R) {a : ProtectedAuthority R}
    {c c' : CandidateAct} {t t' : StateTransition} {now now' : Int} {e e' : ValidationEvidence}
    {cap cap' : Capability} (hcap : CapabilityIssued a c t e now cap)
    (hcap' : CapabilityIssued a c' t' e' now' cap') (hne : now ≠ now') :
    cap.capability_id ≠ cap'.capability_id := by
  intro h
  have hid := hcap'.capability_id
  rw [← h] at hid
  have hv := (eqv_of_sha256Hex hsha hcap.capability_id hid).values rfl
  simp only [capCore, List.map_cons, List.forall₂_cons, eqv_int] at hv
  exact hne (by tauto)

/-- Once a transition can be granted the protected state moves, whether the authorisation succeeds
or not. -/
theorem authorize_state {a : ProtectedAuthority R} {s : AuthorityStores R} {c : CandidateAct}
    {cost now : Int} (hc : Canon R c.asdict) (hallow : a.policy.Allows c now)
    {t : StateTransition} {st : ProtectedState} (hg : Granted R s.state c cost t st) :
    (a.authorize s c cost now).2.state = st := by
  obtain ⟨pd, hpd⟩ := (candidateCanon_iff.1 hc).payload.sha256Hex
  have hh : buildHcad R c none none = .ok _ := bind_eq_ok.2 ⟨pd, hpd, rfl⟩
  have hval : a.policy.validate c now = (true, (a.policy.validate c now).2) :=
    Prod.ext hallow rfl
  unfold authorize
  rw [hh, hval]
  simp only [transitionForAuthorization_ok.2 hg]
  split
  · rfl
  split
  · rfl
  split <;> rfl

end ProtectedAuthority

end Finality
