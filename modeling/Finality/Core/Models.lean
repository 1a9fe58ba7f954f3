import Finality.Canonical.Equivalence

/-!
# The artefacts of the core protocol (`models.py`)

The records that the authority and the sink exchange, each with the dictionary its `unsigned()`
builds, and the descriptor `build_hcad`. A record's `asdict` is the dataclass instance that
`_normalize` sees.
-/

namespace Finality

/-- `ActStatus` -/
inductive ActStatus where
  | nonEffective
  | effective
  deriving DecidableEq

/-- The string an `ActStatus` is. -/
def ActStatus.value : ActStatus → PyStr
  | .nonEffective => py "NON_EFFECTIVE"
  | .effective => py "EFFECTIVE"

/-- `Decision` -/
inductive Decision where
  | allow
  | deny
  deriving DecidableEq

/-- The string a `Decision` is. -/
def Decision.value : Decision → PyStr
  | .allow => py "ALLOW"
  | .deny => py "DENY"

/-- `CandidateAct` -/
structure CandidateAct where
  act_id : PyStr
  act_class : PyStr
  effect_class : PyStr
  source : PyStr
  destination : PyStr
  purpose : PyStr
  jurisdiction : PyStr
  policy_epoch : Int
  nonce : PyStr
  issued_at_ns : Int
  freshness_ns : Int
  sink_id : PyStr
  boundary_id : PyStr
  scope : List PyStr
  payload : PyVal
  runtime_evidence_digest : PyStr
  authority_context : PyDict PyVal
  status : ActStatus

/-- The fields of a candidate. -/
def CandidateAct.fields (c : CandidateAct) : List (String × PyVal) :=
  [("act_id", .str c.act_id), ("act_class", .str c.act_class),
   ("effect_class", .str c.effect_class), ("source", .str c.source),
   ("destination", .str c.destination), ("purpose", .str c.purpose),
   ("jurisdiction", .str c.jurisdiction), ("policy_epoch", .int c.policy_epoch),
   ("nonce", .str c.nonce), ("issued_at_ns", .int c.issued_at_ns),
   ("freshness_ns", .int c.freshness_ns), ("sink_id", .str c.sink_id),
   ("boundary_id", .str c.boundary_id), ("scope", .tuple (strs c.scope)),
   ("payload", c.payload), ("runtime_evidence_digest", .str c.runtime_evidence_digest),
   ("authority_context", c.authority_context.toVal), ("status", .str c.status.value)]

/-- A candidate as a value. -/
def CandidateAct.asdict (c : CandidateAct) : PyVal := .ofFields c.fields

/-- `HCAD` -/
structure HCAD where
  schema : PyStr
  act_id : PyStr
  act_class : PyStr
  effect_class : PyStr
  source : PyStr
  destination : PyStr
  purpose : PyStr
  jurisdiction : PyStr
  policy_epoch : Int
  nonce : PyStr
  issued_at_ns : Int
  freshness_ns : Int
  sink_id : PyStr
  boundary_id : PyStr
  scope : List PyStr
  payload_digest : PyStr
  runtime_evidence_digest : PyStr

/-- The fields of a descriptor. -/
def HCAD.fields (h : HCAD) : List (String × PyVal) :=
  [("schema", .str h.schema), ("act_id", .str h.act_id), ("act_class", .str h.act_class),
   ("effect_class", .str h.effect_class), ("source", .str h.source),
   ("destination", .str h.destination), ("purpose", .str h.purpose),
   ("jurisdiction", .str h.jurisdiction), ("policy_epoch", .int h.policy_epoch),
   ("nonce", .str h.nonce), ("issued_at_ns", .int h.issued_at_ns),
   ("freshness_ns", .int h.freshness_ns), ("sink_id", .str h.sink_id),
   ("boundary_id", .str h.boundary_id), ("scope", .tuple (strs h.scope)),
   ("payload_digest", .str h.payload_digest),
   ("runtime_evidence_digest", .str h.runtime_evidence_digest)]

/-- A descriptor as a value. -/
def HCAD.asdict (h : HCAD) : PyVal := .ofFields h.fields

/-- `StateTransition` -/
structure StateTransition where
  transition_id : PyStr
  nonce : PyStr
  source : PyStr
  before_version : Int
  after_version : Int
  quota_before : Int
  quota_after : Int
  budget_before : Int
  budget_after : Int
  policy_epoch : Int
  deriving DecidableEq

/-- `ValidationEvidence` -/
structure ValidationEvidence where
  evidence_id : PyStr
  authority_id : PyStr
  descriptor_digest : PyStr
  candidate_digest : PyStr
  transition_id : PyStr
  policy_epoch : Int
  decision : Decision
  reasons : List PyStr
  committed_at_ns : Int
  signature : PyStr
  key_id : PyStr
  deriving DecidableEq

/-- The entries of `ValidationEvidence.unsigned`. -/
def ValidationEvidence.entries (e : ValidationEvidence) : List (String × PyVal) :=
  [("evidence_id", .str e.evidence_id),
   ("authority_id", .str e.authority_id), ("descriptor_digest", .str e.descriptor_digest),
   ("candidate_digest", .str e.candidate_digest), ("transition_id", .str e.transition_id),
   ("policy_epoch", .int e.policy_epoch), ("decision", .str e.decision.value),
   ("reasons", .list (strs e.reasons)), ("committed_at_ns", .int e.committed_at_ns),
   ("key_id", .str e.key_id)]

/-- `ValidationEvidence.unsigned` -/
def ValidationEvidence.unsigned (e : ValidationEvidence) : PyVal :=
  .ofEntries e.entries

/-- `Capability` -/
structure Capability where
  capability_id : PyStr
  authority_id : PyStr
  candidate_digest : PyStr
  descriptor_digest : PyStr
  sink_id : PyStr
  boundary_id : PyStr
  nonce : PyStr
  scope : List PyStr
  policy_epoch : Int
  evidence_id : PyStr
  transition_id : PyStr
  issued_at_ns : Int
  expires_at_ns : Int
  key_id : PyStr
  signature : PyStr
  deriving DecidableEq

/-- The entries of `Capability.unsigned`. -/
def Capability.entries (cap : Capability) : List (String × PyVal) :=
  [("capability_id", .str cap.capability_id),
   ("authority_id", .str cap.authority_id), ("candidate_digest", .str cap.candidate_digest),
   ("descriptor_digest", .str cap.descriptor_digest), ("sink_id", .str cap.sink_id),
   ("boundary_id", .str cap.boundary_id), ("nonce", .str cap.nonce),
   ("scope", .list (strs cap.scope)), ("policy_epoch", .int cap.policy_epoch),
   ("evidence_id", .str cap.evidence_id), ("transition_id", .str cap.transition_id),
   ("issued_at_ns", .int cap.issued_at_ns), ("expires_at_ns", .int cap.expires_at_ns),
   ("key_id", .str cap.key_id)]

/-- `Capability.unsigned` -/
def Capability.unsigned (cap : Capability) : PyVal :=
  .ofEntries cap.entries

/-- `SinkContext` -/
structure SinkContext where
  sink_id : PyStr
  boundary_id : PyStr
  policy_epoch : Int
  supported_scopes : List PyStr
  effect_class : PyStr

/-- `SinkReceipt` -/
structure SinkReceipt where
  receipt_id : PyStr
  capability_id : PyStr
  candidate_digest : PyStr
  descriptor_digest : PyStr
  sink_id : PyStr
  boundary_id : PyStr
  transition_id : PyStr
  scope : List PyStr
  effect_status : PyStr
  committed_at_ns : Int
  effect_reference : Option PyStr
  signature : PyStr
  key_id : PyStr
  deriving DecidableEq

/-- `str | None` as a value. -/
def optStr : Option PyStr → PyVal
  | none => .none
  | some s => .str s

/-- The entries of `SinkReceipt.unsigned`. -/
def SinkReceipt.entries (r : SinkReceipt) : List (String × PyVal) :=
  [("receipt_id", .str r.receipt_id),
   ("capability_id", .str r.capability_id), ("candidate_digest", .str r.candidate_digest),
   ("descriptor_digest", .str r.descriptor_digest), ("sink_id", .str r.sink_id),
   ("boundary_id", .str r.boundary_id), ("transition_id", .str r.transition_id),
   ("scope", .list (strs r.scope)), ("effect_status", .str r.effect_status),
   ("committed_at_ns", .int r.committed_at_ns), ("effect_reference", optStr r.effect_reference),
   ("key_id", .str r.key_id)]

/-- `SinkReceipt.unsigned` -/
def SinkReceipt.unsigned (r : SinkReceipt) : PyVal :=
  .ofEntries r.entries

section
variable (R : Runtime)

/-- `CandidateAct.payload_digest` -/
def CandidateAct.payloadDigest (c : CandidateAct) : Except PyErr PyStr := sha256Hex R c.payload

/-- `CandidateAct.digest` -/
def CandidateAct.digest (c : CandidateAct) : Except PyErr PyStr := sha256Hex R c.asdict

/-- `HCAD.digest` -/
def HCAD.digest (h : HCAD) : Except PyErr PyStr := sha256Hex R h.asdict

/-- `build_hcad(candidate, sink_id=..., boundary_id=...)`; the authority passes neither. -/
def buildHcad (candidate : CandidateAct) (sink_id boundary_id : Option PyStr) :
    Except PyErr HCAD := do
  let payload_digest ← candidate.payloadDigest R
  .ok { schema := py "finality-hcad/v1"
        act_id := candidate.act_id
        act_class := candidate.act_class
        effect_class := candidate.effect_class
        source := candidate.source
        destination := candidate.destination
        purpose := candidate.purpose
        jurisdiction := candidate.jurisdiction
        policy_epoch := candidate.policy_epoch
        nonce := candidate.nonce
        issued_at_ns := candidate.issued_at_ns
        freshness_ns := candidate.freshness_ns
        sink_id := sink_id.getD candidate.sink_id
        boundary_id := boundary_id.getD candidate.boundary_id
        scope := candidate.scope
        payload_digest := payload_digest
        runtime_evidence_digest := candidate.runtime_evidence_digest }

end

/-! ## The keys of the artefacts -/

/-- The field names of `CandidateAct`. -/
def candidateKeys : List String :=
  ["act_id", "act_class", "effect_class", "source", "destination", "purpose", "jurisdiction",
   "policy_epoch", "nonce", "issued_at_ns", "freshness_ns", "sink_id", "boundary_id", "scope",
   "payload", "runtime_evidence_digest", "authority_context", "status"]

/-- The field names of `HCAD`. -/
def hcadKeys : List String :=
  ["schema", "act_id", "act_class", "effect_class", "source", "destination", "purpose",
   "jurisdiction", "policy_epoch", "nonce", "issued_at_ns", "freshness_ns", "sink_id",
   "boundary_id", "scope", "payload_digest", "runtime_evidence_digest"]

/-- The keys of signed evidence. -/
def evidenceKeys : List String :=
  ["evidence_id", "authority_id", "descriptor_digest", "candidate_digest", "transition_id",
   "policy_epoch", "decision", "reasons", "committed_at_ns", "key_id"]

/-- The keys of a signed capability. -/
def capabilityKeys : List String :=
  ["capability_id", "authority_id", "candidate_digest", "descriptor_digest", "sink_id",
   "boundary_id", "nonce", "scope", "policy_epoch", "evidence_id", "transition_id",
   "issued_at_ns", "expires_at_ns", "key_id"]

/-- The keys of a signed receipt. -/
def receiptKeys : List String :=
  ["receipt_id", "capability_id", "candidate_digest", "descriptor_digest", "sink_id",
   "boundary_id", "transition_id", "scope", "effect_status", "committed_at_ns",
   "effect_reference", "key_id"]

@[simp] theorem keys_candidate (c : CandidateAct) : c.fields.map Prod.fst = candidateKeys := rfl

@[simp] theorem keys_hcad (h : HCAD) : h.fields.map Prod.fst = hcadKeys := rfl

@[simp] theorem keys_evidence (e : ValidationEvidence) :
    e.entries.map Prod.fst = evidenceKeys := rfl

@[simp] theorem keys_capability (cap : Capability) :
    cap.entries.map Prod.fst = capabilityKeys := rfl

@[simp] theorem keys_receipt (r : SinkReceipt) : r.entries.map Prod.fst = receiptKeys := rfl

theorem goodKeys_candidateKeys : GoodKeys candidateKeys := by decide

theorem goodKeys_hcadKeys : GoodKeys hcadKeys := by decide

theorem goodKeys_evidenceKeys : GoodKeys evidenceKeys := by decide

theorem goodKeys_capabilityKeys : GoodKeys capabilityKeys := by decide

theorem goodKeys_receiptKeys : GoodKeys receiptKeys := by decide

/-! ## What a digest or a signature binds -/

variable {R : Runtime}

/-- Fewer names are as good. -/
theorem GoodKeys.tail {k : String} {ks : List String} (h : GoodKeys (k :: ks)) : GoodKeys ks :=
  ⟨(List.nodup_cons.1 h.1).2, fun k' hk => h.2 k' (List.mem_cons_of_mem k hk)⟩

/-- Every field of a candidate with canonical bytes has canonical bytes. -/
theorem canon_candidate {c : CandidateAct} :
    Canon R c.asdict ↔ ∀ v ∈ c.fields.map Prod.snd, Canon R v := by
  rw [CandidateAct.asdict, canon_ofFields,
    canon_ofEntries_iff (by simpa using goodKeys_candidateKeys)]

/-- None of the candidate's strings has a surrogate, its integers can be written, and its payload
and context have canonical bytes. -/
structure CandidateCanon (R : Runtime) (c : CandidateAct) : Prop where
  act_id : hasSurrogate c.act_id = false
  act_class : hasSurrogate c.act_class = false
  effect_class : hasSurrogate c.effect_class = false
  source : hasSurrogate c.source = false
  destination : hasSurrogate c.destination = false
  purpose : hasSurrogate c.purpose = false
  jurisdiction : hasSurrogate c.jurisdiction = false
  policy_epoch : printsInt c.policy_epoch = true
  nonce : hasSurrogate c.nonce = false
  issued_at_ns : printsInt c.issued_at_ns = true
  freshness_ns : printsInt c.freshness_ns = true
  sink_id : hasSurrogate c.sink_id = false
  boundary_id : hasSurrogate c.boundary_id = false
  scope : ∀ s ∈ c.scope, hasSurrogate s = false
  payload : Canon R c.payload
  runtime_evidence_digest : hasSurrogate c.runtime_evidence_digest = false
  authority_context : Canon R c.authority_context.toVal

/-- Which candidates have canonical bytes. -/
theorem candidateCanon_iff {c : CandidateAct} : Canon R c.asdict ↔ CandidateCanon R c := by
  rw [canon_candidate]
  simp only [CandidateAct.fields, List.map_cons, List.map_nil, List.forall_mem_cons, canon_str,
    canon_int, canon_tuple, strs, List.forall_mem_map, List.not_mem_nil, false_implies,
    implies_true, and_true]
  refine ⟨?_, ?_⟩
  · intro h
    obtain ⟨h1, h2, h3, h4, h5, h6, h7, h8, h9, h10, h11, h12, h13, h14, h15, h16, h17, -⟩ := h
    exact ⟨h1, h2, h3, h4, h5, h6, h7, h8, h9, h10, h11, h12, h13, h14, h15, h16, h17⟩
  · intro h
    obtain ⟨h1, h2, h3, h4, h5, h6, h7, h8, h9, h10, h11, h12, h13, h14, h15, h16, h17⟩ := h
    have hstatus : hasSurrogate c.status.value = false := by
      cases c.status <;> simp [ActStatus.value, py]
    exact ⟨h1, h2, h3, h4, h5, h6, h7, h8, h9, h10, h11, h12, h13, h14, h15, h16, h17, hstatus⟩

/-- A descriptor built from a candidate with canonical bytes has canonical bytes. -/
theorem canon_hcad {c : CandidateAct} (hc : Canon R c.asdict) {sid bid : Option PyStr}
    (hs : hasSurrogate (sid.getD c.sink_id) = false)
    (hb : hasSurrogate (bid.getD c.boundary_id) = false) :
    ∃ h, buildHcad R c sid bid = .ok h ∧ Canon R h.asdict := by
  have hcc := candidateCanon_iff.1 hc
  obtain ⟨pd, hpd⟩ := hcc.payload.sha256Hex
  have hpds := (inert_of_sha256Hex hpd).hasSurrogate
  refine ⟨_, Checks.bind_eq_ok.2 ⟨pd, hpd, rfl⟩, ?_⟩
  rw [HCAD.asdict, canon_ofFields, canon_ofEntries_iff (by simpa using goodKeys_hcadKeys)]
  simp only [HCAD.fields, List.map_cons, List.map_nil, List.forall_mem_cons, canon_str, canon_int,
    canon_tuple, strs, List.forall_mem_map, List.not_mem_nil, false_implies, implies_true,
    and_true]
  exact ⟨by simp [py], hcc.act_id, hcc.act_class, hcc.effect_class, hcc.source, hcc.destination,
    hcc.purpose, hcc.jurisdiction, hcc.policy_epoch, hcc.nonce, hcc.issued_at_ns, hcc.freshness_ns,
    hs, hb, hcc.scope, hpds, hcc.runtime_evidence_digest⟩

/-- Evidence is never canonically equal to a capability. -/
theorem not_eqv_evidence_capability (e : ValidationEvidence) (cap : Capability) :
    ¬ Eqv R e.unsigned cap.unsigned := by
  intro h
  have hsub := keys_subset_of_eqv h (by simpa using goodKeys_evidenceKeys.2)
    (by simpa using goodKeys_capabilityKeys.2)
  rw [keys_evidence, keys_capability] at hsub
  exact absurd (hsub (show "decision" ∈ evidenceKeys by decide)) (by decide)

/-- A receipt is never canonically equal to a capability. -/
theorem not_eqv_receipt_capability (r : SinkReceipt) (cap : Capability) :
    ¬ Eqv R r.unsigned cap.unsigned := by
  intro h
  have hsub := keys_subset_of_eqv h (by simpa using goodKeys_receiptKeys.2)
    (by simpa using goodKeys_capabilityKeys.2)
  rw [keys_receipt, keys_capability] at hsub
  exact absurd (hsub (show "receipt_id" ∈ receiptKeys by decide)) (by decide)

/-- The fields of two candidates agree up to canonical equality. -/
structure CandidateEqv (R : Runtime) (c c' : CandidateAct) : Prop where
  act_id : NfcEq R c.act_id c'.act_id
  act_class : NfcEq R c.act_class c'.act_class
  effect_class : NfcEq R c.effect_class c'.effect_class
  source : NfcEq R c.source c'.source
  destination : NfcEq R c.destination c'.destination
  purpose : NfcEq R c.purpose c'.purpose
  jurisdiction : NfcEq R c.jurisdiction c'.jurisdiction
  policy_epoch : c.policy_epoch = c'.policy_epoch
  nonce : NfcEq R c.nonce c'.nonce
  issued_at_ns : c.issued_at_ns = c'.issued_at_ns
  freshness_ns : c.freshness_ns = c'.freshness_ns
  sink_id : NfcEq R c.sink_id c'.sink_id
  boundary_id : NfcEq R c.boundary_id c'.boundary_id
  scope : List.Forall₂ (NfcEq R) c.scope c'.scope
  payload : Eqv R c.payload c'.payload
  runtime_evidence_digest : NfcEq R c.runtime_evidence_digest c'.runtime_evidence_digest
  authority_context : Eqv R c.authority_context.toVal c'.authority_context.toVal
  status : c.status = c'.status

/-- The fields of two capabilities agree up to canonical equality. -/
structure CapabilityEqv (R : Runtime) (cap cap' : Capability) : Prop where
  capability_id : NfcEq R cap.capability_id cap'.capability_id
  authority_id : NfcEq R cap.authority_id cap'.authority_id
  candidate_digest : NfcEq R cap.candidate_digest cap'.candidate_digest
  descriptor_digest : NfcEq R cap.descriptor_digest cap'.descriptor_digest
  sink_id : NfcEq R cap.sink_id cap'.sink_id
  boundary_id : NfcEq R cap.boundary_id cap'.boundary_id
  nonce : NfcEq R cap.nonce cap'.nonce
  scope : List.Forall₂ (NfcEq R) cap.scope cap'.scope
  policy_epoch : cap.policy_epoch = cap'.policy_epoch
  evidence_id : NfcEq R cap.evidence_id cap'.evidence_id
  transition_id : NfcEq R cap.transition_id cap'.transition_id
  issued_at_ns : cap.issued_at_ns = cap'.issued_at_ns
  expires_at_ns : cap.expires_at_ns = cap'.expires_at_ns
  key_id : NfcEq R cap.key_id cap'.key_id

/-- The statuses are different strings in NFC. -/
theorem nfcEq_status {s t : ActStatus} (h : NfcEq R s.value t.value) : s = t := by
  have hv : ∀ s : ActStatus, R.nfc (toText s.value) = toText s.value := by
    intro s
    cases s <;> exact R.nfc_ascii _ (ascii_of_all (by decide))
  have heq := h.2.2
  rw [hv, hv] at heq
  cases s <;> cases t <;> first | rfl | exact absurd heq (by decide)

/-- Canonically equal candidates agree in every field. -/
theorem candidateEqv_of_eqv {c c' : CandidateAct} (h : Eqv R c.asdict c'.asdict) :
    CandidateEqv R c c' := by
  simp only [CandidateAct.asdict, eqv_ofFields_left, eqv_ofFields_right] at h
  have hv := h.values rfl
  simp only [CandidateAct.fields, List.map_cons, List.map_nil, List.forall₂_cons,
    List.forall₂_nil_right_iff, eqv_str, eqv_int, eqv_tuple_left, eqv_tuple_right, eqv_list,
    forall₂_eqv_strs] at hv
  obtain ⟨h1, h2, h3, h4, h5, h6, h7, h8, h9, h10, h11, h12, h13, h14, h15, h16, h17, h18, -⟩ := hv
  exact ⟨h1, h2, h3, h4, h5, h6, h7, h8.1, h9, h10.1, h11.1, h12, h13, h14, h15, h16, h17,
    nfcEq_status h18⟩

/-- Candidates that agree in every field are canonically equal. -/
theorem eqv_of_candidateEqv {c c' : CandidateAct} (hc : Canon R c.asdict)
    (h : CandidateEqv R c c') :
    Eqv R c.asdict c'.asdict := by
  have hkeys : c.fields.map Prod.fst = c'.fields.map Prod.fst := rfl
  have hstatus : NfcEq R c.status.value c'.status.value :=
    h.status ▸ .rfl (by cases c.status <;> simp [ActStatus.value, py])
  have hcc := candidateCanon_iff.1 hc
  simp only [CandidateAct.asdict, canon_ofFields, eqv_ofFields_left, eqv_ofFields_right] at hc ⊢
  refine (eqv_ofEntries_iff hkeys).2 ⟨hc, ?_⟩
  obtain ⟨h1, h2, h3, h4, h5, h6, h7, h8, h9, h10, h11, h12, h13, h14, h15, h16, h17, -⟩ := h
  simp only [CandidateAct.fields, List.map_cons, List.map_nil, List.forall₂_cons, eqv_str, eqv_int,
    eqv_tuple_left, eqv_tuple_right, eqv_list, forall₂_eqv_strs]
  exact ⟨h1, h2, h3, h4, h5, h6, h7, ⟨h8, hcc.policy_epoch⟩, h9, ⟨h10, hcc.issued_at_ns⟩,
    ⟨h11, hcc.freshness_ns⟩, h12, h13, h14, h15, h16, h17, hstatus, .nil⟩

/-- **The candidate digest binds every field.** -/
theorem candidateEqv_of_digest (hsha : ShaInjective R) {c c' : CandidateAct} {d : PyStr}
    (h : c.digest R = .ok d) (h' : c'.digest R = .ok d) : CandidateEqv R c c' :=
  candidateEqv_of_eqv (eqv_of_sha256Hex hsha h h')

/-- **The signature of a capability binds every field.** -/
theorem capabilityEqv_of_eqv {cap cap' : Capability} (h : Eqv R cap.unsigned cap'.unsigned) :
    CapabilityEqv R cap cap' := by
  have hv := h.values rfl
  simp only [Capability.entries, List.map_cons, List.map_nil, List.forall₂_cons,
    List.forall₂_nil_right_iff, eqv_str, eqv_int, eqv_list, forall₂_eqv_strs] at hv
  obtain ⟨h1, h2, h3, h4, h5, h6, h7, h8, h9, h10, h11, h12, h13, h14, -⟩ := hv
  exact ⟨h1, h2, h3, h4, h5, h6, h7, h8, h9.1, h10, h11, h12.1, h13.1, h14⟩

end Finality
