import Finality.Interop.Bundle
import Finality.Interop.GoVerify
import Finality.Interop.NodeVerify

/-!
# What an accepted bundle says

`Checked` is the list of checks that the portable verifiers make, of the Python objects that a
bundle spells. Either verifier accepts the bundle exactly when they hold (`goMain_iff`,
`nodeMain_iff`).
-/

namespace Finality

open JsonText Checks

section
variable (R : Runtime)

/-- The digest of a value under the portable profile. It exists only for what all three languages
encode. -/
def portableSha256Hex (v : PyVal) : Except PyErr PyStr :=
  (portableCanonicalBytes R v).map fun data => ofText (R.sha256 data)

/-- The authentication code of a value under the portable profile, with the authority's key. -/
def portableHmacHex (key : List UInt8) (v : PyVal) : Except PyErr PyStr :=
  (portableCanonicalBytes R v).map fun data => ofText (R.hmac_sha256 key data)

end

variable {R : Runtime}

/-- A digest under the portable profile is the digest under the local one: the profiles agree where
the portable one accepts. -/
theorem sha256Hex_of_portable {v : PyVal} {d : PyStr} (h : portableSha256Hex R v = .ok d) :
    sha256Hex R v = .ok d := by
  rw [portableSha256Hex, map_eq_ok] at h
  obtain ⟨b, hb, rfl⟩ := h
  exact map_eq_ok.2 ⟨b, canonicalBytes_of_portable hb, rfl⟩

/-- An instance of a dataclass is hashed as the dictionary of its fields. -/
theorem sha256Hex_ofFields {es : List (String × PyVal)} {d : PyStr} :
    sha256Hex R (.ofFields es) = .ok d ↔ sha256Hex R (.ofEntries es) = .ok d := by
  simp only [sha256Hex, map_eq_ok, canonicalBytes_eq_ok, PyVal.ofFields, PyVal.ofEntries,
    normalize_dataclass]

/-- A string without surrogates is equal to a text when it spells it. -/
theorem ofText_eq_iff {t : List Char} {d : PyStr} (hd : hasSurrogate d = false) :
    ofText t = d ↔ t = toText d := by
  refine ⟨?_, ?_⟩
  · rintro rfl
    rw [toText_ofText]
  · rintro rfl
    exact ofText_toText hd

/-- Strings without surrogates are equal when their texts are. -/
theorem toText_inj {s s' : PyStr} (hs : hasSurrogate s = false) (hs' : hasSurrogate s' = false) :
    toText s = toText s' ↔ s = s' := by
  rw [← ofText_eq_iff hs', ofText_toText hs]

namespace Record

variable {es es' : List (String × PyVal)} {k k' : String}

/-- The digest of a record, in either language: what the verifiers compute of the members is what
Python computes of the fields. -/
theorem digest_eq (r : Record es) {d : PyStr} (hd : hasSurrogate d = false) :
    profileDigest R (.obj r.members) = some (toText d) ↔
      portableSha256Hex R (.ofEntries es) = .ok d := by
  simp only [profileDigest, portableSha256Hex, Option.map_eq_some_iff, map_eq_ok,
    r.profileBytes_eq, ofText_eq_iff hd]

/-- The authentication code of a record, in either language: what the verifiers compute of the
members is what Python computes of the fields. -/
theorem mac_eq (r : Record es) (key : List UInt8) {d : PyStr} (hd : hasSurrogate d = false) :
    profileMac R key (.obj r.members) = some (toText d) ↔
      portableHmacHex R key (.ofEntries es) = .ok d := by
  simp only [profileMac, portableHmacHex, Option.map_eq_some_iff, map_eq_ok, r.profileBytes_eq,
    ofText_eq_iff hd]

/-- Equal texts are equal strings, since neither field holds a surrogate. -/
theorem text_eq_text (r : Record es) (r' : Record es') {j : String} {s s' : PyStr}
    (hk : es.lookup k = some (.str s)) (hk' : es'.lookup j = some (.str s')) :
    text r.members k = text r'.members j ↔ s = s' := by
  rw [r.text_eq hk, r'.text_eq hk', toText_inj (r.hasSurrogate_eq hk) (r'.hasSurrogate_eq hk')]

/-- The value of a field is in the portable data domain. -/
theorem isJson_field (r : Record es) {v : PyVal} (hk : es.lookup k = some v) : isJson v = true :=
  r.json v (List.mem_map_of_mem (f := Prod.snd) (mem_of_lookup hk))

end Record

namespace CaseBundle

/-- The descriptor under the sink's own identity: `buildHcad` with the payload digest taken from the
document, which the verifiers compare on its own. -/
def localDescriptor (B : CaseBundle) : HCAD where
  schema := py "finality-hcad/v1"
  act_id := B.candidate.act_id
  act_class := B.candidate.act_class
  effect_class := B.candidate.effect_class
  source := B.candidate.source
  destination := B.candidate.destination
  purpose := B.candidate.purpose
  jurisdiction := B.candidate.jurisdiction
  policy_epoch := B.candidate.policy_epoch
  nonce := B.candidate.nonce
  issued_at_ns := B.candidate.issued_at_ns
  freshness_ns := B.candidate.freshness_ns
  sink_id := B.sink_context.sink_id
  boundary_id := B.sink_context.boundary_id
  scope := B.candidate.scope
  payload_digest := B.hcad.payload_digest
  runtime_evidence_digest := B.candidate.runtime_evidence_digest

/-- A record with its id and its signature: the signature covers all but itself, the id all but
itself and the signature. -/
structure Sealed (R : Runtime) (key : List UInt8) (unsigned : List (String × PyVal)) (id : String)
    (id_value signature : PyStr) : Prop where
  signature : portableHmacHex R key (.ofEntries unsigned) = .ok signature
  id : portableSha256Hex R (.ofEntries (withoutField id unsigned)) = .ok id_value

/-- The checks of the portable verifiers, in the order `main` makes them. The evidence's id in the
capability is not among them. -/
structure Checked (R : Runtime) (B : CaseBundle) : Prop where
  status : B.candidate.status = .nonEffective
  candidate_digest : portableSha256Hex R (.ofEntries B.candidate.fields) =
    .ok B.capability.candidate_digest
  evidence_candidate : B.validation_evidence.candidate_digest = B.capability.candidate_digest
  payload_digest : portableSha256Hex R B.candidate.payload = .ok B.hcad.payload_digest
  descriptor_digest : portableSha256Hex R (.ofEntries B.localDescriptor.fields) =
    .ok B.capability.descriptor_digest
  evidence_descriptor : B.validation_evidence.descriptor_digest = B.capability.descriptor_digest
  hcad : portableSha256Hex R (.ofEntries B.hcad.fields) = .ok B.capability.descriptor_digest
  transition_id : portableSha256Hex R (.ofEntries
    (transitionCore B.state_transition B.capability.candidate_digest)) =
      .ok B.state_transition.transition_id
  version : B.state_transition.after_version = B.state_transition.before_version + 1
  quota : B.state_transition.quota_after = B.state_transition.quota_before - 1
  budget : B.state_transition.budget_after < B.state_transition.budget_before
  capability_transition : B.capability.transition_id = B.state_transition.transition_id
  evidence_transition : B.validation_evidence.transition_id = B.state_transition.transition_id
  evidence : Sealed R B.key B.validation_evidence.entries "evidence_id"
    B.validation_evidence.evidence_id B.validation_evidence.signature
  decision : B.validation_evidence.decision = .allow
  capability : Sealed R B.key B.capability.entries "capability_id" B.capability.capability_id
    B.capability.signature
  sink_id : B.capability.sink_id = B.sink_context.sink_id
  boundary_id : B.capability.boundary_id = B.sink_context.boundary_id
  policy_epoch : B.capability.policy_epoch = B.sink_context.policy_epoch
  nonce : B.capability.nonce = B.candidate.nonce
  authority_id : B.capability.authority_id = B.validation_evidence.authority_id
  scope : B.candidate.scope = B.capability.scope
  supported : ∀ s ∈ B.capability.scope, s ∈ B.sink_context.supported_scopes
  effect_class : B.candidate.effect_class = B.sink_context.effect_class
  within : B.capability.expires_at_ns ≤ B.candidate.issued_at_ns + B.candidate.freshness_ns

/-- The rebuilt descriptor as a record: its fields are fields of the candidate, of the descriptor
and of the context. -/
def descriptorRecord (B : CaseBundle) : Record B.localDescriptor.fields where
  members := fieldMembers B.localDescriptor.fields
  perm := .refl _
  keys := goodKeys_hcadKeys.1
  json := by
    have hschema : isJson (.str (py "finality-hcad/v1")) = true := by simp [isJson, py]
    have hc := B.c.json
    have hh := B.h.json
    have hctx := B.ctx.json
    simp only [CandidateAct.fields, HCAD.fields, SinkContext.fields, List.map_cons, List.map_nil,
      List.forall_mem_cons] at hc hh hctx
    simp only [HCAD.fields, localDescriptor, List.map_cons, List.map_nil, List.forall_mem_cons,
      List.not_mem_nil, false_implies, implies_true, and_true, hschema, hc, hh, hctx]

/-- What the verifiers rebuild from candidate and context is the record of the descriptor under the
sink's own identity. -/
theorem rebuilt_eq (B : CaseBundle) :
    rebuilt B.c.members B.ctx.members (text B.h.members "payload_digest") =
      B.descriptorRecord.members := by
  rw [B.h.text_eq rfl]
  simp only [rebuilt, B.c.field_eq (k := "act_id") rfl, B.c.field_eq (k := "act_class") rfl,
    B.c.field_eq (k := "effect_class") rfl, B.c.field_eq (k := "source") rfl,
    B.c.field_eq (k := "destination") rfl, B.c.field_eq (k := "purpose") rfl,
    B.c.field_eq (k := "jurisdiction") rfl, B.c.field_eq (k := "policy_epoch") rfl,
    B.c.field_eq (k := "nonce") rfl, B.c.field_eq (k := "issued_at_ns") rfl,
    B.c.field_eq (k := "freshness_ns") rfl, B.ctx.field_eq (k := "sink_id") rfl,
    B.ctx.field_eq (k := "boundary_id") rfl, B.c.field_eq (k := "scope") rfl,
    B.c.field_eq (k := "runtime_evidence_digest") rfl, descriptorRecord, fieldMembers, HCAD.fields,
    localDescriptor, List.map_cons, List.map_nil, jsonOf, py, toText_ofText]

/-- The material of the transition id as a record, with the candidate's digest as the capability has
it. -/
def transitionRecord (B : CaseBundle) :
    Record (transitionCore B.state_transition B.capability.candidate_digest) where
  members := fieldMembers (transitionCore B.state_transition B.capability.candidate_digest)
  perm := .refl _
  keys := goodKeys_transitionKeys.1
  json := by
    have ht := B.t.json
    have hcap := B.cap.isJson_field (k := "candidate_digest") rfl
    simp only [StateTransition.fields, List.map_cons, List.map_nil, List.forall_mem_cons] at ht
    simp only [transitionCore, List.map_cons, List.map_nil, List.forall_mem_cons, List.not_mem_nil,
      false_implies, implies_true, and_true, ht, hcap]

/-- What they hash for the transition is the record of the material of its id. -/
theorem transitionMembers_eq (B : CaseBundle) :
    transitionMembers B.t.members (text B.cap.members "candidate_digest") =
      B.transitionRecord.members := by
  rw [B.cap.text_eq rfl]
  simp only [transitionMembers, B.t.field_eq (k := "nonce") rfl, B.t.field_eq (k := "source") rfl,
    B.t.field_eq (k := "before_version") rfl, B.t.field_eq (k := "after_version") rfl,
    B.t.field_eq (k := "quota_before") rfl, B.t.field_eq (k := "quota_after") rfl,
    B.t.field_eq (k := "budget_before") rfl, B.t.field_eq (k := "budget_after") rfl,
    B.t.field_eq (k := "policy_epoch") rfl, transitionRecord, fieldMembers, transitionCore,
    List.map_cons, List.map_nil, jsonOf]

/-- The statuses have different texts. -/
theorem value_inj_status {s s' : ActStatus} : toText s.value = toText s'.value ↔ s = s' := by
  cases s <;> cases s' <;> simp [ActStatus.value, py]

/-- The decisions have different texts. -/
theorem value_inj_decision {d d' : Decision} : toText d.value = toText d'.value ↔ d = d' := by
  cases d <;> cases d' <;> simp [Decision.value, py]

/-- A signed record, in either language, is a sealed one: the verifiers take signature and id out of
the members as Python leaves them out of the fields. -/
theorem signedAccepted_iff {es : List (String × PyVal)} (r : Record es) (key : List UInt8)
    (id : String) {id_value signature : PyStr} (hs : es.lookup "signature" = some (.str signature))
    (hid : es.lookup id = some (.str id_value)) :
    SignedAccepted R key r.members id ↔
      Sealed R key (withoutField "signature" es) id id_value signature := by
  have hmac := (r.without "signature").mac_eq (R := R) key (r.hasSurrogate_eq hs)
  have hdigest := ((r.without "signature").without id).digest_eq (R := R) (r.hasSurrogate_eq hid)
  refine ⟨?_, ?_⟩
  · rintro ⟨h, h'⟩
    rw [r.text_eq hs] at h
    rw [r.text_eq hid] at h'
    exact ⟨hmac.1 h, hdigest.1 h'⟩
  · rintro ⟨h, h'⟩
    refine ⟨?_, ?_⟩
    · rw [r.text_eq hs]
      exact hmac.2 h
    · rw [r.text_eq hid]
      exact hdigest.2 h'

/-- Scopes are equal when the arrays of their texts are. -/
theorem map_str_inj {ss ss' : List PyStr} (hs : ∀ s ∈ ss, hasSurrogate s = false)
    (hs' : ∀ s ∈ ss', hasSurrogate s = false) :
    (ss.map fun s => Json.str (toText s)) = (ss'.map fun s => Json.str (toText s)) ↔ ss = ss' := by
  refine ⟨?_, ?_⟩
  · intro h
    have hmap : ∀ us : List PyStr, (us.map fun s => Json.str (toText s)) =
        (us.map toText).map Json.str := fun us => by rw [List.map_map]; rfl
    have htexts : ss.map toText = ss'.map toText := by
      rw [hmap, hmap] at h
      exact List.map_injective_iff.2 (fun _ _ => Json.str.inj) h
    have hback : ∀ {us : List PyStr}, (∀ s ∈ us, hasSurrogate s = false) →
        (us.map toText).map ofText = us := by
      intro us hus
      rw [List.map_map]
      exact (List.map_congr_left fun s hs => ofText_toText (hus s hs)).trans (List.map_id us)
    rw [← hback hs, ← hback hs', htexts]
  · rintro rfl
    rfl

/-- The strings of a list in the portable data domain hold no surrogates. -/
theorem isJsonItems_strs : ∀ {ss : List PyStr}, isJsonItems (strs ss) = true →
    ∀ s ∈ ss, hasSurrogate s = false
  | [], _, s, hs => absurd hs List.not_mem_nil
  | s :: ss, h, s', hs' => by
    rw [strs, List.map_cons, isJsonItems, ← strs, Bool.and_eq_true, isJson, Bool.not_eq_true'] at h
    rcases List.mem_cons.1 hs' with rfl | hs'
    · exact h.1
    · exact isJsonItems_strs h.2 s' hs'

section
variable (B : CaseBundle)

/-- The candidate passes when it is not effective yet and its digest is the one that capability and
evidence name. -/
theorem candidateAccepted_iff : CandidateAccepted R B.c.members B.cap.members B.e.members ↔
    B.candidate.status = .nonEffective ∧
      portableSha256Hex R (.ofEntries B.candidate.fields) = .ok B.capability.candidate_digest ∧
      B.validation_evidence.candidate_digest = B.capability.candidate_digest := by
  have hdigest := B.c.digest_eq (R := R) (B.cap.hasSurrogate_eq (k := "candidate_digest") rfl)
  have hevidence := B.e.text_eq_text B.cap (k := "candidate_digest") (j := "candidate_digest")
    rfl rfl
  have hstatus : text B.c.members "status" = "NON_EFFECTIVE".toList ↔
      B.candidate.status = .nonEffective := by
    rw [B.c.text_eq rfl, ← value_inj_status]
    simp [ActStatus.value, py]
  refine ⟨?_, ?_⟩
  · intro h
    obtain ⟨hs, hd, he⟩ := h
    rw [B.cap.text_eq rfl] at hd
    exact ⟨hstatus.1 hs, hdigest.1 hd, hevidence.1 he⟩
  · intro h
    obtain ⟨hs, hd, he⟩ := h
    refine ⟨hstatus.2 hs, ?_, hevidence.2 he⟩
    rw [B.cap.text_eq rfl]
    exact hdigest.2 hd

/-- The payload's digest, compared as texts, is compared as digests of the Python value. -/
theorem payload_eq : profileDigest R (field B.c.members "payload") =
    some (text B.h.members "payload_digest") ↔
      portableSha256Hex R B.candidate.payload = .ok B.hcad.payload_digest := by
  have hpayload : isJson B.candidate.payload = true := B.c.isJson_field (k := "payload") rfl
  rw [B.c.field_eq (k := "payload") rfl, B.h.text_eq rfl]
  simp only [profileDigest, portableSha256Hex, Option.map_eq_some_iff, map_eq_ok,
    profileBytes_jsonOf hpayload, ofText_eq_iff (B.h.hasSurrogate_eq (k := "payload_digest") rfl)]

/-- The descriptor passes when it covers the payload and both it and the one rebuilt for this sink
have the digest that capability and evidence name. -/
theorem descriptorAccepted_iff :
    DescriptorAccepted R B.c.members B.h.members B.cap.members B.e.members B.ctx.members ↔
      portableSha256Hex R B.candidate.payload = .ok B.hcad.payload_digest ∧
      portableSha256Hex R (.ofEntries B.localDescriptor.fields) =
        .ok B.capability.descriptor_digest ∧
      B.validation_evidence.descriptor_digest = B.capability.descriptor_digest ∧
      portableSha256Hex R (.ofEntries B.hcad.fields) = .ok B.capability.descriptor_digest := by
  have hd := B.cap.hasSurrogate_eq (k := "descriptor_digest") rfl
  have hrebuilt := B.descriptorRecord.digest_eq (R := R) hd
  have hhcad := B.h.digest_eq (R := R) hd
  have hevidence := B.e.text_eq_text B.cap (k := "descriptor_digest") (j := "descriptor_digest")
    rfl rfl
  refine ⟨?_, ?_⟩
  · rintro ⟨h1, h2, h3, h4⟩
    rw [rebuilt_eq, B.cap.text_eq rfl] at h2
    rw [B.cap.text_eq rfl] at h4
    exact ⟨B.payload_eq.1 h1, hrebuilt.1 h2, hevidence.1 h3, hhcad.1 h4⟩
  · rintro ⟨h1, h2, h3, h4⟩
    refine ⟨B.payload_eq.2 h1, ?_, hevidence.2 h3, ?_⟩
    · rw [rebuilt_eq, B.cap.text_eq rfl]
      exact hrebuilt.2 h2
    · rw [B.cap.text_eq rfl]
      exact hhcad.2 h4

/-- The counters pass when the version goes up by one, the quota down by one, and the budget
down. -/
theorem countersAccepted_iff : CountersAccepted B.t.members ↔
    B.state_transition.after_version = B.state_transition.before_version + 1 ∧
      B.state_transition.quota_after = B.state_transition.quota_before - 1 ∧
      B.state_transition.budget_after < B.state_transition.budget_before := by
  rw [← B.t.int_eq (k := "after_version") rfl, ← B.t.int_eq (k := "before_version") rfl,
    ← B.t.int_eq (k := "quota_after") rfl, ← B.t.int_eq (k := "quota_before") rfl,
    ← B.t.int_eq (k := "budget_after") rfl, ← B.t.int_eq (k := "budget_before") rfl]
  exact ⟨fun ⟨h, h', h''⟩ => ⟨h, h', h''⟩, fun ⟨h, h', h''⟩ => ⟨h, h', h''⟩⟩

/-- The transition passes when its id covers its fields and the candidate, its counters move the
right way, and capability and evidence name it. -/
theorem transitionAccepted_iff : TransitionAccepted R B.t.members B.cap.members B.e.members
    (text B.cap.members "candidate_digest") ↔
      portableSha256Hex R (.ofEntries
        (transitionCore B.state_transition B.capability.candidate_digest)) =
          .ok B.state_transition.transition_id ∧
      (B.state_transition.after_version = B.state_transition.before_version + 1 ∧
        B.state_transition.quota_after = B.state_transition.quota_before - 1 ∧
        B.state_transition.budget_after < B.state_transition.budget_before) ∧
      B.capability.transition_id = B.state_transition.transition_id ∧
      B.validation_evidence.transition_id = B.state_transition.transition_id := by
  have hdigest := B.transitionRecord.digest_eq (R := R)
    (B.t.hasSurrogate_eq (k := "transition_id") rfl)
  have hcap := B.cap.text_eq_text B.t (k := "transition_id") (j := "transition_id") rfl rfl
  have he := B.e.text_eq_text B.t (k := "transition_id") (j := "transition_id") rfl rfl
  rw [← B.countersAccepted_iff, ← hcap, ← he, ← hdigest, ← B.t.text_eq (k := "transition_id") rfl,
    ← transitionMembers_eq]
  exact ⟨fun ⟨h1, h2, h3, h4⟩ => ⟨h1, h2, h3, h4⟩, fun ⟨h1, h2, h3, h4⟩ => ⟨h1, h2, h3, h4⟩⟩

/-- The evidence passes when the authority signed it, its id covers it and it says `ALLOW`. -/
theorem evidenceAccepted_iff : EvidenceAccepted R B.key B.e.members ↔
    Sealed R B.key B.validation_evidence.entries "evidence_id" B.validation_evidence.evidence_id
      B.validation_evidence.signature ∧ B.validation_evidence.decision = .allow := by
  have hunsigned : withoutField "signature" B.validation_evidence.fields =
      B.validation_evidence.entries := rfl
  have hdecision : text B.e.members "decision" = "ALLOW".toList ↔
      B.validation_evidence.decision = .allow := by
    rw [B.e.text_eq rfl, ← value_inj_decision]
    simp [Decision.value, py]
  have hsigned := signedAccepted_iff (R := R) B.e B.key "evidence_id" rfl rfl
  rw [hunsigned] at hsigned
  rw [← hdecision, ← hsigned]
  exact ⟨fun ⟨h, h'⟩ => ⟨h, h'⟩, fun ⟨h, h'⟩ => ⟨h, h'⟩⟩

/-- The capability passes when the authority signed it and its id covers it. -/
theorem capabilityAccepted_iff : SignedAccepted R B.key B.cap.members "capability_id" ↔
    Sealed R B.key B.capability.entries "capability_id" B.capability.capability_id
      B.capability.signature :=
  signedAccepted_iff B.cap _ _ rfl rfl

/-- The scope passes when candidate and capability name the same one, in the same order, and the
sink supports all of it. -/
theorem scopeAccepted_iff : ScopeAccepted B.c.members B.cap.members B.ctx.members ↔
    B.candidate.scope = B.capability.scope ∧
      ∀ s ∈ B.capability.scope, s ∈ B.sink_context.supported_scopes := by
  have hcap := isJsonItems_strs (B.cap.isJson_field (k := "scope") rfl)
  have hc := isJsonItems_strs (B.c.isJson_field (k := "scope") rfl)
  have hctx := isJsonItems_strs (B.ctx.isJson_field (k := "supported_scopes") rfl)
  have hmem : (∀ v ∈ array B.cap.members "scope", v ∈ array B.ctx.members "supported_scopes") ↔
      ∀ s ∈ B.capability.scope, s ∈ B.sink_context.supported_scopes := by
    rw [array_eq B.capability_scope, array_eq B.context_scopes, List.forall_mem_map]
    refine forall₂_congr fun s hs => ?_
    simp only [List.mem_map, Json.str.injEq]
    refine ⟨?_, ?_⟩
    · rintro ⟨s', hs', heq⟩
      rwa [← (toText_inj (hctx s' hs') (hcap s hs)).1 heq]
    · intro hmem
      exact ⟨s, hmem, rfl⟩
  have heq : array B.c.members "scope" = array B.cap.members "scope" ↔
      B.candidate.scope = B.capability.scope := by
    rw [array_eq B.candidate_scope, array_eq B.capability_scope, map_str_inj hc hcap]
  rw [← hmem, ← heq]
  exact ⟨fun ⟨h, h'⟩ => ⟨h, h'⟩, fun ⟨h, h'⟩ => ⟨h, h'⟩⟩

/-- The context passes when the capability names this sink, its boundary and its epoch, the
candidate's nonce and the evidence's authority, and does not outlive the candidate. -/
theorem contextAccepted_iff :
    ContextAccepted B.c.members B.e.members B.cap.members B.ctx.members ↔
      B.capability.sink_id = B.sink_context.sink_id ∧
      B.capability.boundary_id = B.sink_context.boundary_id ∧
      B.capability.policy_epoch = B.sink_context.policy_epoch ∧
      B.capability.nonce = B.candidate.nonce ∧
      B.capability.authority_id = B.validation_evidence.authority_id ∧
      (B.candidate.scope = B.capability.scope ∧
        ∀ s ∈ B.capability.scope, s ∈ B.sink_context.supported_scopes) ∧
      B.candidate.effect_class = B.sink_context.effect_class ∧
      B.capability.expires_at_ns ≤ B.candidate.issued_at_ns + B.candidate.freshness_ns := by
  rw [← B.cap.text_eq_text B.ctx (k := "sink_id") (j := "sink_id") rfl rfl,
    ← B.cap.text_eq_text B.ctx (k := "boundary_id") (j := "boundary_id") rfl rfl,
    ← B.cap.text_eq_text B.c (k := "nonce") (j := "nonce") rfl rfl,
    ← B.cap.text_eq_text B.e (k := "authority_id") (j := "authority_id") rfl rfl,
    ← B.c.text_eq_text B.ctx (k := "effect_class") (j := "effect_class") rfl rfl,
    ← B.scopeAccepted_iff, ← B.cap.int_eq (k := "policy_epoch") rfl,
    ← B.ctx.int_eq (k := "policy_epoch") rfl, ← B.cap.int_eq (k := "expires_at_ns") rfl,
    ← B.c.int_eq (k := "issued_at_ns") rfl, ← B.c.int_eq (k := "freshness_ns") rfl]
  refine ⟨?_, ?_⟩
  · intro h
    obtain ⟨h1, h2, h3, h4, h5, h6, h7, h8⟩ := h
    exact ⟨h1, h2, h3, h4, h5, h6, h7, h8⟩
  · intro h
    obtain ⟨h1, h2, h3, h4, h5, h6, h7, h8⟩ := h
    exact ⟨h1, h2, h3, h4, h5, h6, h7, h8⟩

/-- **What an accepted bundle says** of the objects it spells: the checks, section by section. -/
theorem accepted_iff : DocumentAccepted R B.document ↔ B.Checked R := by
  refine ⟨?_, ?_⟩
  · intro h
    obtain ⟨hc, hd, ht, he, hcap, hx⟩ := h
    simp only [object_candidate, object_hcad, object_transition, object_evidence,
      object_capability, object_context, authorityKey_eq] at hc hd ht he hcap hx
    obtain ⟨h1, h2, h3⟩ := B.candidateAccepted_iff.1 hc
    obtain ⟨h4, h5, h6, h7⟩ := B.descriptorAccepted_iff.1 hd
    obtain ⟨h8, ⟨h9, h10, h11⟩, h12, h13⟩ := B.transitionAccepted_iff.1 ht
    obtain ⟨h14, h15⟩ := B.evidenceAccepted_iff.1 he
    have h16 := B.capabilityAccepted_iff.1 hcap
    obtain ⟨h17, h18, h19, h20, h21, ⟨h22, h23⟩, h24, h25⟩ := B.contextAccepted_iff.1 hx
    exact ⟨h1, h2, h3, h4, h5, h6, h7, h8, h9, h10, h11, h12, h13, h14, h15, h16, h17, h18, h19,
      h20, h21, h22, h23, h24, h25⟩
  · intro h
    obtain ⟨h1, h2, h3, h4, h5, h6, h7, h8, h9, h10, h11, h12, h13, h14, h15, h16, h17, h18, h19,
      h20, h21, h22, h23, h24, h25⟩ := h
    have hc := B.candidateAccepted_iff.2 ⟨h1, h2, h3⟩
    have hd := B.descriptorAccepted_iff.2 ⟨h4, h5, h6, h7⟩
    have ht := B.transitionAccepted_iff.2 ⟨h8, ⟨h9, h10, h11⟩, h12, h13⟩
    have he := B.evidenceAccepted_iff.2 ⟨h14, h15⟩
    have hcap := B.capabilityAccepted_iff.2 h16
    have hx := B.contextAccepted_iff.2 ⟨h17, h18, h19, h20, h21, ⟨h22, h23⟩, h24, h25⟩
    refine ⟨?_, ?_, ?_, ?_, ?_, ?_⟩ <;> simp only [object_candidate, object_hcad,
      object_transition, object_evidence, object_capability, object_context, authorityKey_eq] <;>
      assumption

/-- Go accepts a bundle when it passes the checks: every bundle is typed. -/
theorem goMain_iff : Go.main R (Go.goEntries B.document) = .ok () ↔ B.Checked R := by
  rw [Go.main_eq_ok, accepted_iff]
  exact and_iff_right B.typed

/-- So does Node: no bundle lacks a member. -/
theorem nodeMain_iff :
    Node.main R (Node.jsProperties B.document) = .ok () ↔ B.Checked R := by
  rw [Node.main_eq_ok B.typed, accepted_iff]
  exact and_iff_right B.present

end

end CaseBundle

end Finality
