import Finality.Interop.Checked
import Finality.Core.Completeness

/-!
# What the authority issues, the portable verifiers accept

`exportDocument` is the bundle that `build_case` writes after an authorisation. The authority
signed under the local profile, over dictionaries of its own; the verifiers hash the members of the
document under the portable one. On portable values the two profiles agree
(`canonicalBytes_of_isPortable`), and every digest of the authority is one of the document.
-/

namespace Finality

open JsonText Checks ProtectedState ProtectedAuthority CaseBundle

/-! ## Portable values -/

mutual

/-- The value is in the portable data domain. -/
def isPortable : PyVal → Bool
  | .none | .bool _ => true
  | .int i => -maxSafeInteger ≤ i && i ≤ maxSafeInteger
  | .str s => !hasSurrogate s
  | .list items | .tuple items => isPortableItems items
  | .dict entries | .dataclass entries => isPortableEntries entries
  | .float _ | .bytes _ | .other _ => false

/-- So are the items of a list. -/
def isPortableItems : List PyVal → Bool
  | [] => true
  | v :: vs => isPortable v && isPortableItems vs

/-- So are the entries of a dictionary, whose keys are strings. -/
def isPortableEntries : List (PyKey × PyVal) → Bool
  | [] => true
  | (.str k, v) :: es => !hasSurrogate k && isPortable v && isPortableEntries es
  | (.other _, _) :: _ => false

end

mutual

/-- A portable value is in the portable data domain. -/
theorem isJson_of_isPortable : ∀ {v : PyVal}, isPortable v = true → isJson v = true
  | .none, _ => rfl
  | .bool _, _ => rfl
  | .int _, _ => rfl
  | .float _, h => h
  | .str _, h => h
  | .bytes _, h => h
  | .list items, h => @isJsonItems_of_isPortable items h
  | .tuple items, h => @isJsonItems_of_isPortable items h
  | .dict entries, h => @isJsonEntries_of_isPortable entries h
  | .dataclass entries, h => @isJsonEntries_of_isPortable entries h
  | .other _, h => h

/-- So are portable items. -/
theorem isJsonItems_of_isPortable : ∀ {vs : List PyVal}, isPortableItems vs = true →
    isJsonItems vs = true
  | [], _ => rfl
  | v :: vs, h => by
    rw [isPortableItems, Bool.and_eq_true] at h
    rw [isJsonItems, isJson_of_isPortable h.1, isJsonItems_of_isPortable h.2]
    rfl

/-- And portable entries. -/
theorem isJsonEntries_of_isPortable : ∀ {es : List (PyKey × PyVal)},
    isPortableEntries es = true → isJsonEntries es = true
  | [], _ => rfl
  | (.str k, v) :: es, h => by
    rw [isPortableEntries, Bool.and_eq_true, Bool.and_eq_true] at h
    rw [isJsonEntries, h.1.1, isJson_of_isPortable h.1.2, isJsonEntries_of_isPortable h.2]
    rfl
  | (.other _, _) :: _, h => h

end

section
variable {R : Runtime}

mutual

/-- On a portable value the two profiles agree. -/
theorem normalize_of_isPortable : ∀ {v : PyVal}, isPortable v = true →
    normalize R true v = normalize R false v
  | .none, _ => rfl
  | .bool _, _ => rfl
  | .int i, h => by
    rw [isPortable, Bool.and_eq_true, decide_eq_true_eq, decide_eq_true_eq] at h
    simp [normalize, h]
  | .float _, _ => rfl
  | .str _, _ => rfl
  | .bytes _, h => by cases h
  | .list items, h => by rw [normalize, normalize, normalizeItems_of_isPortable h]
  | .tuple items, h => by rw [normalize, normalize, normalizeItems_of_isPortable h]
  | .dict entries, h => by rw [normalize, normalize, normalizeEntries_of_isPortable h]
  | .dataclass entries, h => by rw [normalize, normalize, normalizeEntries_of_isPortable h]
  | .other _, _ => rfl

/-- Portable items are normalised alike by both profiles. -/
theorem normalizeItems_of_isPortable : ∀ {vs : List PyVal}, isPortableItems vs = true →
    normalizeItems R true vs = normalizeItems R false vs
  | [], _ => rfl
  | v :: vs, h => by
    rw [isPortableItems, Bool.and_eq_true] at h
    rw [normalizeItems, normalizeItems, normalize_of_isPortable h.1,
      normalizeItems_of_isPortable h.2]

/-- And so are portable entries. -/
theorem normalizeEntries_of_isPortable : ∀ {es : List (PyKey × PyVal)} {out},
    isPortableEntries es = true → normalizeEntries R true es out = normalizeEntries R false es out
  | [], _, _ => rfl
  | (.str k, v) :: es, out, h => by
    rw [isPortableEntries, Bool.and_eq_true, Bool.and_eq_true] at h
    rw [normalizeEntries, normalizeEntries, normalize_of_isPortable h.1.2]
    simp only [normalizeEntries_of_isPortable h.2]
  | (.other _, _) :: _, _, h => by cases h

end

/-- A portable value has the same bytes under both profiles. -/
theorem portableCanonicalBytes_of_isPortable {v : PyVal} (h : isPortable v = true) :
    portableCanonicalBytes R v = canonicalBytes R v := by
  rw [portableCanonicalBytes, canonicalBytes, normalize_of_isPortable h]

/-- It has the same digest under both. -/
theorem portableSha256Hex_of_isPortable {v : PyVal} (h : isPortable v = true) :
    portableSha256Hex R v = sha256Hex R v := by
  rw [portableSha256Hex, sha256Hex, portableCanonicalBytes_of_isPortable h]

/-- It has the same authentication code under both. -/
theorem portableHmacHex_of_isPortable {a : HMACAuthenticator} {v : PyVal}
    (h : isPortable v = true) : portableHmacHex R a.key v = a.sign R v := by
  rw [portableHmacHex, HMACAuthenticator.sign, portableCanonicalBytes_of_isPortable h]

/-- Of strings the profiles accept the same. -/
theorem isPortable_str {s : PyStr} : isPortable (.str s) = true ↔ Canon R (.str s) := by
  rw [isPortable, Bool.not_eq_true', canon_str]

/-- An integer is portable when a double holds it exactly. -/
theorem isPortable_int {i : Int} : isPortable (.int i) = true ↔ Safe i := by
  rw [isPortable, Bool.and_eq_true, decide_eq_true_eq, decide_eq_true_eq, Safe]

/-- Strings are portable when none of them holds a surrogate. -/
theorem isPortableItems_strs : ∀ {ss : List PyStr},
    isPortableItems (strs ss) = true ↔ ∀ s ∈ ss, hasSurrogate s = false
  | [] => by simp [strs, isPortableItems]
  | s :: ss => by
    rw [strs, List.map_cons, isPortableItems, ← strs, Bool.and_eq_true, List.forall_mem_cons,
      isPortable, Bool.not_eq_true', isPortableItems_strs]

/-- And they have canonical bytes then. -/
theorem canon_strs {ss : List PyStr} :
    (∀ v ∈ strs ss, Canon R v) ↔ ∀ s ∈ ss, hasSurrogate s = false := by
  simp only [strs, List.forall_mem_map, canon_str]

/-- A list of strings is portable when it has canonical bytes. -/
theorem isPortable_list {ss : List PyStr} :
    isPortable (.list (strs ss)) = true ↔ Canon R (.list (strs ss)) := by
  rw [isPortable, canon_list, canon_strs, isPortableItems_strs]

/-- So is a tuple. -/
theorem isPortable_tuple {ss : List PyStr} :
    isPortable (.tuple (strs ss)) = true ↔ Canon R (.tuple (strs ss)) := by
  rw [isPortable, canon_tuple, canon_strs, isPortableItems_strs]

end

/-- Named fields are portable when their values are. -/
theorem isPortable_ofEntries (es : List (String × PyVal)) :
    isPortable (.ofEntries es) = true ↔ ∀ v ∈ es.map Prod.snd, isPortable v = true := by
  induction es with
  | nil => simp [PyVal.ofEntries, isPortable, isPortableEntries]
  | cons e es ih =>
    rw [PyVal.ofEntries, isPortable] at ih
    rw [PyVal.ofEntries, isPortable, List.map_cons, isPortableEntries, List.map_cons,
      List.forall_mem_cons, ← ih]
    simp [py]

/-! ## The exported bundle -/

/-- The document `build_case` writes. -/
def exportDocument (key : List UInt8) (c : CandidateAct) (h : HCAD) (t : StateTransition)
    (e : ValidationEvidence) (cap : Capability) (ctx : SinkContext) : Members :=
  [("schema".toList, .str "portable-execution-finality-case/v1".toList),
   ("authority_key_hex".toList, .str (Hex.encode key)),
   ("sink_context".toList, .obj (fieldMembers ctx.fields)),
   ("candidate".toList, .obj (fieldMembers c.fields)),
   ("hcad".toList, .obj (fieldMembers h.fields)),
   ("state_transition".toList, .obj (fieldMembers t.fields)),
   ("validation_evidence".toList, .obj (fieldMembers e.fields)),
   ("capability".toList, .obj (fieldMembers cap.fields))]

/-- Fields listed in their own order are a record. -/
def Record.ofFields {es : List (String × PyVal)} (keys : (es.map Prod.fst).Nodup)
    (portable : ∀ v ∈ es.map Prod.snd, isPortable v = true) : Record es where
  members := fieldMembers es
  perm := .refl _
  keys := keys
  json := fun v hv => isJson_of_isPortable (portable v hv)

/-- The fields of a descriptor have names of their own. -/
theorem nodup_hcadFields {h : HCAD} : (h.fields.map Prod.fst).Nodup :=
  goodKeys_hcadKeys.1

/-- The fields of a transition have names of their own. -/
theorem nodup_transitionFields {t : StateTransition} : (t.fields.map Prod.fst).Nodup := by
  simp [StateTransition.fields]

theorem nodup_evidenceFields {e : ValidationEvidence} : (e.fields.map Prod.fst).Nodup := by
  simp [ValidationEvidence.fields]

theorem nodup_capabilityFields {cap : Capability} : (cap.fields.map Prod.fst).Nodup := by
  simp [Capability.fields, Capability.entries]

theorem nodup_contextFields {ctx : SinkContext} : (ctx.fields.map Prod.fst).Nodup := by
  simp [SinkContext.fields]

/-- The exported document as a bundle. -/
def CaseBundle.ofObjects (key : List UInt8) (c : CandidateAct) (h : HCAD) (t : StateTransition)
    (e : ValidationEvidence) (cap : Capability) (ctx : SinkContext)
    (hc : ∀ v ∈ c.fields.map Prod.snd, isPortable v = true)
    (hh : ∀ v ∈ h.fields.map Prod.snd, isPortable v = true)
    (ht : ∀ v ∈ t.fields.map Prod.snd, isPortable v = true)
    (he : ∀ v ∈ e.fields.map Prod.snd, isPortable v = true)
    (hcap : ∀ v ∈ cap.fields.map Prod.snd, isPortable v = true)
    (hctx : ∀ v ∈ ctx.fields.map Prod.snd, isPortable v = true) : CaseBundle where
  key := key
  candidate := c
  hcad := h
  state_transition := t
  validation_evidence := e
  capability := cap
  sink_context := ctx
  document := exportDocument key c h t e cap ctx
  authority_key_hex := ⟨_, rfl, Hex.read?_encode key⟩
  c := .ofFields goodKeys_candidateKeys.1 hc
  h := .ofFields nodup_hcadFields hh
  t := .ofFields nodup_transitionFields ht
  e := .ofFields nodup_evidenceFields he
  cap := .ofFields nodup_capabilityFields hcap
  ctx := .ofFields nodup_contextFields hctx
  document_candidate := rfl
  document_hcad := rfl
  document_transition := rfl
  document_evidence := rfl
  document_capability := rfl
  document_context := rfl

/-! ## What the authority issues is portable -/

/-- The integers among the fields of a record are safe. -/
def SafeFields (es : List (String × PyVal)) : Prop := ∀ i, .int i ∈ es.map Prod.snd → Safe i

section
variable {R : Runtime}

/-- A candidate that can be hashed is portable when its integers are safe and its payload and
context are portable. -/
theorem isPortable_candidate {c : CandidateAct} (hc : Canon R c.asdict)
    (hsafe : SafeFields c.fields) (hpayload : isPortable c.payload = true)
    (hcontext : isPortable c.authority_context.toVal = true) :
    ∀ v ∈ c.fields.map Prod.snd, isPortable v = true := by
  rw [canon_candidate] at hc
  have hepoch : Safe c.policy_epoch := hsafe _ (by simp [CandidateAct.fields])
  have hissued : Safe c.issued_at_ns := hsafe _ (by simp [CandidateAct.fields])
  have hfresh : Safe c.freshness_ns := hsafe _ (by simp [CandidateAct.fields])
  simp only [CandidateAct.fields, List.map_cons, List.map_nil, List.forall_mem_cons] at hc ⊢
  simp only [isPortable_str (R := R), isPortable_int, isPortable_tuple (R := R), hpayload, hcontext,
    hepoch, hissued, hfresh, hc, List.not_mem_nil, false_implies, implies_true, and_true]

/-- A descriptor that can be hashed is portable when its integers are safe. -/
theorem isPortable_hcad {h : HCAD} (hh : Canon R h.asdict) (hsafe : SafeFields h.fields) :
    ∀ v ∈ h.fields.map Prod.snd, isPortable v = true := by
  rw [HCAD.asdict, canon_ofFields, canon_ofEntries_iff (by simpa using goodKeys_hcadKeys)] at hh
  have hepoch : Safe h.policy_epoch := hsafe _ (by simp [HCAD.fields])
  have hissued : Safe h.issued_at_ns := hsafe _ (by simp [HCAD.fields])
  have hfresh : Safe h.freshness_ns := hsafe _ (by simp [HCAD.fields])
  simp only [HCAD.fields, List.map_cons, List.map_nil, List.forall_mem_cons] at hh ⊢
  simp only [isPortable_str (R := R), isPortable_int, isPortable_tuple (R := R), hepoch, hissued,
    hfresh, hh, List.not_mem_nil, false_implies, implies_true, and_true]

/-- A transition is portable when its strings hold no surrogates and its integers are safe. -/
theorem isPortable_transition {t : StateTransition} (hid : hasSurrogate t.transition_id = false)
    (hnonce : hasSurrogate t.nonce = false) (hsource : hasSurrogate t.source = false)
    (hsafe : SafeFields t.fields) : ∀ v ∈ t.fields.map Prod.snd, isPortable v = true := by
  intro v hv
  have hflat : (∃ s, v = .str s ∧ hasSurrogate s = false) ∨ ∃ i, v = .int i := by
    simp only [StateTransition.fields, List.map_cons, List.map_nil, List.mem_cons,
      List.not_mem_nil, or_false] at hv
    rcases hv with rfl | rfl | rfl | rfl | rfl | rfl | rfl | rfl | rfl | rfl
    · exact .inl ⟨_, rfl, hid⟩
    · exact .inl ⟨_, rfl, hnonce⟩
    · exact .inl ⟨_, rfl, hsource⟩
    all_goals exact .inr ⟨_, rfl⟩
  rcases hflat with ⟨s, rfl, hs⟩ | ⟨i, rfl⟩
  · rw [isPortable, hs]
    rfl
  · exact isPortable_int.2 (hsafe i hv)

/-- Signed evidence is portable when its integers are safe. -/
theorem isPortable_evidence {e : ValidationEvidence} (he : Canon R e.unsigned)
    (hsignature : hasSurrogate e.signature = false) (hsafe : SafeFields e.fields) :
    ∀ v ∈ e.fields.map Prod.snd, isPortable v = true := by
  rw [ValidationEvidence.unsigned,
    canon_ofEntries_iff (by simpa using goodKeys_evidenceKeys)] at he
  have hepoch : Safe e.policy_epoch := hsafe _ (by simp [ValidationEvidence.fields])
  have hcommitted : Safe e.committed_at_ns := hsafe _ (by simp [ValidationEvidence.fields])
  have hsig : Canon R (.str e.signature) := canon_str.2 hsignature
  simp only [ValidationEvidence.entries, List.map_cons, List.map_nil, List.forall_mem_cons] at he
  simp only [ValidationEvidence.fields, List.map_cons, List.map_nil, List.forall_mem_cons]
  simp only [isPortable_str (R := R), isPortable_int, isPortable_list (R := R), hepoch, hcommitted,
    hsig, he, List.not_mem_nil, false_implies, implies_true, and_true]

/-- So is a signed capability. -/
theorem isPortable_capability {cap : Capability} (hcap : Canon R cap.unsigned)
    (hsignature : hasSurrogate cap.signature = false) (hsafe : SafeFields cap.fields) :
    ∀ v ∈ cap.fields.map Prod.snd, isPortable v = true := by
  rw [Capability.unsigned, canon_ofEntries_iff (by simpa using goodKeys_capabilityKeys)] at hcap
  have hepoch : Safe cap.policy_epoch := hsafe _ (by simp [Capability.fields, Capability.entries])
  have hissued : Safe cap.issued_at_ns := hsafe _ (by simp [Capability.fields, Capability.entries])
  have hexpires : Safe cap.expires_at_ns :=
    hsafe _ (by simp [Capability.fields, Capability.entries])
  have hsig : Canon R (.str cap.signature) := canon_str.2 hsignature
  simp only [Capability.entries, List.map_cons, List.map_nil, List.forall_mem_cons] at hcap
  simp only [Capability.fields, Capability.entries, List.cons_append, List.nil_append,
    List.map_cons, List.map_nil, List.forall_mem_cons]
  simp only [isPortable_str (R := R), isPortable_int, isPortable_list (R := R), hepoch, hissued,
    hexpires, hsig, hcap, List.not_mem_nil, false_implies, implies_true, and_true]

end

/-- A sink's context that serves a candidate, and whose scopes are text. -/
structure SinkContext.Serves (ctx : SinkContext) (c : CandidateAct) : Prop where
  sink_id : ctx.sink_id = c.sink_id
  boundary_id : ctx.boundary_id = c.boundary_id
  policy_epoch : ctx.policy_epoch = c.policy_epoch
  effect_class : ctx.effect_class = c.effect_class
  supported : ∀ s ∈ c.scope, s ∈ ctx.supported_scopes
  text : ∀ s ∈ ctx.supported_scopes, hasSurrogate s = false

section
variable {R : Runtime}

/-- The context of a sink that serves a portable candidate is portable: it repeats fields of the
candidate. -/
theorem isPortable_context {ctx : SinkContext} {c : CandidateAct} (h : ctx.Serves c)
    (hc : ∀ v ∈ c.fields.map Prod.snd, isPortable v = true) :
    ∀ v ∈ ctx.fields.map Prod.snd, isPortable v = true := by
  have hscopes : isPortable (.list (strs ctx.supported_scopes)) = true :=
    isPortableItems_strs.2 h.text
  simp only [CandidateAct.fields, List.map_cons, List.map_nil, List.forall_mem_cons] at hc
  simp only [SinkContext.fields, List.map_cons, List.map_nil, List.forall_mem_cons, h.sink_id,
    h.boundary_id, h.policy_epoch, h.effect_class, hscopes, hc, List.not_mem_nil, false_implies,
    implies_true, and_true]

/-! ## The exported bundle is accepted -/

/-- The evidence without its id is what the id was computed from. -/
theorem withoutField_evidence {a : ProtectedAuthority R} {c : CandidateAct} {t : StateTransition}
    {now : Int} {e : ValidationEvidence} (he : EvidenceIssued a c t now e) :
    withoutField "evidence_id" e.entries =
      a.evidenceCore e.descriptor_digest e.candidate_digest t c now := by
  rw [evidenceCore, ← he.authority_id, ← he.transition_id, ← he.policy_epoch, ← he.decision,
    ← he.committed_at_ns, ← he.key_id]
  have hreasons : e.reasons = [] := he.reasons
  simp [withoutField, ValidationEvidence.entries, hreasons, strs]

/-- So is the capability without its id. -/
theorem withoutField_capability {a : ProtectedAuthority R} {c : CandidateAct} {t : StateTransition}
    {e : ValidationEvidence} {now : Int} {cap : Capability}
    (hcap : CapabilityIssued a c t e now cap) :
    withoutField "capability_id" cap.entries =
      a.capCore cap.descriptor_digest cap.candidate_digest e t c now := by
  rw [capCore, ← hcap.authority_id, ← hcap.sink_id, ← hcap.boundary_id, ← hcap.nonce, ← hcap.scope,
    ← hcap.policy_epoch, ← hcap.evidence_id, ← hcap.transition_id, ← hcap.expires_at_ns,
    ← hcap.issued_at_ns, ← hcap.key_id]
  simp [withoutField, Capability.entries]

/-- What a sink that serves the candidate rebuilds is the authority's descriptor. -/
theorem SinkContext.Serves.buildHcad_eq {ctx : SinkContext} {c : CandidateAct} (h : ctx.Serves c) :
    buildHcad R c (some ctx.sink_id) (some ctx.boundary_id) = buildHcad R c none none := by
  rw [h.sink_id, h.boundary_id]
  rfl

/-- On portable fields the digest of the authority is the portable one. -/
theorem portableSha256Hex_ofEntries {es : List (String × PyVal)}
    (hes : ∀ v ∈ es.map Prod.snd, isPortable v = true) :
    portableSha256Hex R (.ofEntries es) = sha256Hex R (.ofEntries es) :=
  portableSha256Hex_of_isPortable ((isPortable_ofEntries es).2 hes)

/-- So a record the authority signed is sealed for the portable verifiers. -/
theorem sealed_of_portable {auth : HMACAuthenticator} {es : List (String × PyVal)}
    (hes : ∀ v ∈ es.map Prod.snd, isPortable v = true) {id : String} {id_value signature : PyStr}
    (hsign : auth.sign R (.ofEntries es) = .ok signature)
    (hid : sha256Hex R (.ofEntries (withoutField id es)) = .ok id_value) :
    Sealed R auth.key es id id_value signature where
  signature := by
    rw [portableHmacHex_of_isPortable ((isPortable_ofEntries es).2 hes)]
    exact hsign
  id := by
    have hrest : ∀ v ∈ (withoutField id es).map Prod.snd, isPortable v = true :=
      fun v hv => hes v ((List.filter_sublist.map _).subset hv)
    rw [portableSha256Hex_ofEntries hrest]
    exact hid

/-- The transition core of a portable transition is portable. -/
theorem isPortable_transitionCore {t : StateTransition} {cap : Capability}
    (ht : ∀ v ∈ t.fields.map Prod.snd, isPortable v = true)
    (hcap : ∀ v ∈ cap.fields.map Prod.snd, isPortable v = true) :
    ∀ v ∈ (transitionCore t cap.candidate_digest).map Prod.snd, isPortable v = true := by
  simp only [StateTransition.fields, Capability.fields, Capability.entries, List.cons_append,
    List.nil_append, List.map_cons, List.map_nil, List.forall_mem_cons] at ht hcap
  simp only [transitionCore, List.map_cons, List.map_nil, List.forall_mem_cons, ht, hcap,
    List.not_mem_nil, false_implies, implies_true, and_true]

/-- What evidence is signed over is portable when the evidence is. -/
theorem isPortable_evidenceEntries {ev : ValidationEvidence}
    (he : ∀ v ∈ ev.fields.map Prod.snd, isPortable v = true) :
    ∀ v ∈ ev.entries.map Prod.snd, isPortable v = true := by
  simp only [ValidationEvidence.fields, List.map_cons, List.map_nil, List.forall_mem_cons] at he
  simp only [ValidationEvidence.entries, List.map_cons, List.map_nil, List.forall_mem_cons, he,
    List.not_mem_nil, false_implies, implies_true, and_true]

/-- What a capability is signed over is portable when the capability is. -/
theorem isPortable_capabilityEntries {cap : Capability}
    (hcap : ∀ v ∈ cap.fields.map Prod.snd, isPortable v = true) :
    ∀ v ∈ cap.entries.map Prod.snd, isPortable v = true := by
  intro v hv
  refine hcap v ?_
  rw [Capability.fields, List.map_append]
  exact List.mem_append_left _ hv

section
variable {auth : HMACAuthenticator} {a : ProtectedAuthority R} {c : CandidateAct}

/-- Evidence that the authority issued is sealed. -/
theorem sealed_evidence (hauth : a.authenticator = auth.toAuthenticator R) {t : StateTransition}
    {now : Int} {ev : ValidationEvidence} (hev : EvidenceIssued a c t now ev)
    (he : ∀ v ∈ ev.fields.map Prod.snd, isPortable v = true) :
    Sealed R auth.key ev.entries "evidence_id" ev.evidence_id ev.signature := by
  have hsign := hev.signature
  rw [hauth] at hsign
  refine sealed_of_portable (isPortable_evidenceEntries he) hsign ?_
  rw [withoutField_evidence hev]
  exact hev.evidence_id

/-- A capability that the authority issued is sealed. -/
theorem sealed_capability (hauth : a.authenticator = auth.toAuthenticator R) {t : StateTransition}
    {ev : ValidationEvidence} {now : Int} {cap : Capability}
    (hic : CapabilityIssued a c t ev now cap)
    (hcap : ∀ v ∈ cap.fields.map Prod.snd, isPortable v = true) :
    Sealed R auth.key cap.entries "capability_id" cap.capability_id cap.signature := by
  have hsign := hic.signature
  rw [hauth] at hsign
  refine sealed_of_portable (isPortable_capabilityEntries hcap) hsign ?_
  rw [withoutField_capability hic]
  exact hic.capability_id

/-- The descriptor a verifier rebuilds is the one the authority built. -/
theorem localDescriptor_ofObjects {key : List UInt8} {t : StateTransition}
    {ev : ValidationEvidence} {cap : Capability} {ctx : SinkContext} (hserves : ctx.Serves c)
    {d : HCAD} (hd : buildHcad R c none none = .ok d) {hc hh ht he hcap hctx} :
    (CaseBundle.ofObjects key c d t ev cap ctx hc hh ht he hcap hctx).localDescriptor = d ∧
      sha256Hex R c.payload = .ok d.payload_digest := by
  obtain ⟨pd, hpd, hd'⟩ := bind_eq_ok.1 hd
  have hpayload_digest : d.payload_digest = pd := by rw [← Except.ok.inj hd']
  rw [CaseBundle.localDescriptor, hpayload_digest]
  simp only [CaseBundle.ofObjects, hserves.sink_id, hserves.boundary_id, hpayload_digest]
  exact ⟨Except.ok.inj hd', hpd⟩

/-- **What the authority issued passes the portable checks**: a granted transition, evidence for it
and a capability, whatever evidence the capability cites. -/
theorem checked_of_issued (hauth : a.authenticator = auth.toAuthenticator R)
    (hstatus : c.status = .nonEffective) {st st' : ProtectedState} {cost now now' : Int}
    {t : StateTransition} (hg : Granted R st c cost t st') {ev ev' : ValidationEvidence}
    (hev : EvidenceIssued a c t now ev) {cap : Capability}
    (hic : CapabilityIssued a c t ev' now' cap) {ctx : SinkContext} (hserves : ctx.Serves c)
    {d : HCAD} (hd : buildHcad R c none none = .ok d) {hc hh ht he hcap hctx} :
    (CaseBundle.ofObjects auth.key c d t ev cap ctx hc hh ht he hcap hctx).Checked R := by
  obtain ⟨d₁, hd₁, hdd₁⟩ := hev.descriptor
  obtain rfl : d = d₁ := Except.ok.inj (hd.symm.trans hd₁)
  obtain ⟨d₂, hd₂, hdd₂⟩ := hic.descriptor
  obtain rfl : d = d₂ := Except.ok.inj (hd.symm.trans hd₂)
  obtain ⟨cd, hcd, -, htid⟩ := identify_ok hg.identified
  obtain rfl : cd = cap.candidate_digest :=
    Except.ok.inj (hcd.symm.trans hic.candidate_digest)
  obtain ⟨hlocal, hpayload⟩ :
      (CaseBundle.ofObjects auth.key c d t ev cap ctx hc hh ht he hcap hctx).localDescriptor = d ∧
        sha256Hex R c.payload = .ok d.payload_digest := localDescriptor_ofObjects hserves hd
  have hdescriptor : portableSha256Hex R (.ofEntries d.fields) = .ok cap.descriptor_digest := by
    rw [portableSha256Hex_ofEntries hh, ← sha256Hex_ofFields]
    exact hdd₂
  have htransition := hg.transition
  exact
    { status := hstatus
      candidate_digest := by
        show portableSha256Hex R (.ofEntries c.fields) = _
        rw [portableSha256Hex_ofEntries hc, ← sha256Hex_ofFields]
        exact hcd
      evidence_candidate := Except.ok.inj (hev.candidate_digest.symm.trans hcd)
      payload_digest := by
        have hportable : isPortable c.payload = true := hc _ (by simp [CandidateAct.fields])
        show portableSha256Hex R c.payload = .ok d.payload_digest
        rw [portableSha256Hex_of_isPortable hportable]
        exact hpayload
      descriptor_digest := by
        rw [hlocal]
        exact hdescriptor
      evidence_descriptor := Except.ok.inj (hdd₁.symm.trans hdd₂)
      hcad := hdescriptor
      transition_id := by
        show portableSha256Hex R (.ofEntries (transitionCore t cap.candidate_digest)) = _
        rw [portableSha256Hex_ofEntries (isPortable_transitionCore ht hcap)]
        exact htid
      version := by
        show t.after_version = t.before_version + 1
        rw [htransition]
        rfl
      quota := by
        show t.quota_after = t.quota_before - 1
        rw [htransition]
        rfl
      budget := by
        have hcost := hg.cost_pos
        have hcharge : t.budget_after = t.budget_before - cost := by
          rw [htransition]
          rfl
        show t.budget_after < t.budget_before
        omega
      capability_transition := hic.transition_id
      evidence_transition := hev.transition_id
      evidence := sealed_evidence hauth hev he
      decision := hev.decision
      capability := sealed_capability hauth hic hcap
      sink_id := hic.sink_id.trans hserves.sink_id.symm
      boundary_id := hic.boundary_id.trans hserves.boundary_id.symm
      policy_epoch := hic.policy_epoch.trans hserves.policy_epoch.symm
      nonce := hic.nonce
      authority_id := hic.authority_id.trans hev.authority_id.symm
      scope := hic.scope.symm
      supported := fun s hs => hserves.supported s (hic.scope ▸ hs)
      effect_class := hserves.effect_class.symm
      within := by
        show cap.expires_at_ns ≤ c.issued_at_ns + c.freshness_ns
        rw [hic.expires_at_ns]
        exact min_le_left _ _ }

end

/-- The bundle of what the authority issued. -/
theorem exists_bundle_of_issued {auth : HMACAuthenticator} {a : ProtectedAuthority R}
    (hauth : a.authenticator = auth.toAuthenticator R) {c : CandidateAct}
    (hstatus : c.status = .nonEffective) {st st' : ProtectedState} {cost now now' : Int}
    {t : StateTransition} (hg : Granted R st c cost t st') {ev ev' : ValidationEvidence}
    (hev : EvidenceIssued a c t now ev) {cap : Capability}
    (hic : CapabilityIssued a c t ev' now' cap) {ctx : SinkContext} (hserves : ctx.Serves c)
    {d : HCAD} (hd : buildHcad R c none none = .ok d) (hpayload : isPortable c.payload = true)
    (hcontext : isPortable c.authority_context.toVal = true)
    (hsafe : ∀ es ∈ [c.fields, d.fields, t.fields, ev.fields, cap.fields], SafeFields es) :
    ∃ B : CaseBundle, B.Checked R ∧ B.document = exportDocument auth.key c d t ev cap ctx ∧
      B.key = auth.key ∧ B.candidate = c ∧ B.state_transition = t ∧ B.validation_evidence = ev ∧
      B.capability = cap ∧ B.sink_context = ctx := by
  simp only [List.forall_mem_cons] at hsafe
  obtain ⟨hsc, hsd, hst, hse, hscap, -⟩ := hsafe
  have hcanon := canon_of_sha256Hex hic.candidate_digest
  have hc := isPortable_candidate hcanon hsc hpayload hcontext
  obtain ⟨d', hd', hdd⟩ := hic.descriptor
  obtain rfl : d = d' := Except.ok.inj (hd.symm.trans hd')
  have hh := isPortable_hcad (canon_of_sha256Hex hdd) hsd
  obtain ⟨cd, -, -, htid⟩ := identify_ok hg.identified
  have hcc := candidateCanon_iff.1 hcanon
  have ht := isPortable_transition (inert_of_sha256Hex htid).hasSurrogate
    (by rw [hg.nonce]; exact hcc.nonce) (by rw [hg.source]; exact hcc.source) hst
  have hesign := hev.signature
  have hcsign := hic.signature
  rw [hauth] at hesign hcsign
  have he := isPortable_evidence (HMACAuthenticator.canon_of_sign hesign)
    (HMACAuthenticator.hasSurrogate_of_sign hesign) hse
  have hcap := isPortable_capability (HMACAuthenticator.canon_of_sign hcsign)
    (HMACAuthenticator.hasSurrogate_of_sign hcsign) hscap
  have hctx := isPortable_context hserves hc
  exact ⟨.ofObjects auth.key c d t ev cap ctx hc hh ht he hcap hctx,
    checked_of_issued hauth hstatus hg hev hic hserves hd, rfl, rfl, rfl, rfl, rfl, rfl, rfl⟩

/-- **Everything the authority issues, both portable verifiers accept.** After an authorisation
the stores hold the transition and the evidence that the export needs, and its document is accepted
in either language when its integers are safe. No string need be normalised. -/
theorem export_accepted {auth : HMACAuthenticator} {a : ProtectedAuthority R}
    (hauth : a.authenticator = auth.toAuthenticator R) {s s' : AuthorityStores R} {c : CandidateAct}
    {cost now : Int} {cap : Capability} (h : a.authorize s c cost now = (.ok cap, s'))
    (hpayload : isPortable c.payload = true)
    (hcontext : isPortable c.authority_context.toVal = true) {ctx : SinkContext}
    (hserves : ctx.Serves c) :
    ∃ d t ev, buildHcad R c (some ctx.sink_id) (some ctx.boundary_id) = .ok d ∧
      s'.state.getTransition cap.transition_id = some t ∧
      s'.evidence_store.get cap.evidence_id = some ev ∧
      ((∀ es ∈ [c.fields, d.fields, t.fields, ev.fields, cap.fields], SafeFields es) →
        Go.main R (Go.goEntries (exportDocument auth.key c d t ev cap ctx)) = .ok () ∧
        Node.main R (Node.jsProperties (exportDocument auth.key c d t ev cap ctx)) = .ok ()) := by
  obtain ⟨t, ev, hauthorized⟩ := authorize_ok h
  obtain ⟨d, hd, -⟩ := hauthorized.capability.descriptor
  refine ⟨d, t, ev, hserves.buildHcad_eq.trans hd, ?_, ?_, fun hsafe => ?_⟩
  · rw [getTransition, hauthorized.capability.transition_id, hauthorized.granted.transitions_eq]
    exact AList.lookup_insert _
  · rw [hauthorized.capability.evidence_id]
    exact EvidenceStore.get_self_of_commit hauthorized.committed
  · obtain ⟨B, hB, hdoc, -⟩ := exists_bundle_of_issued hauth hauthorized.allowed.nonEffective.1
      hauthorized.granted hauthorized.evidence hauthorized.capability hserves hd hpayload hcontext
      hsafe
    rw [← hdoc]
    exact ⟨B.goMain_iff.2 hB, B.nodeMain_iff.2 hB⟩

end

/-! ## The sample bundle -/

/-- The sample sink serves the sample act. -/
theorem sampleContext_serves : sampleSink.context.Serves sampleCandidate :=
  ⟨rfl, rfl, rfl, rfl, by simp [sampleCandidate, sampleSink], by decide⟩

/-- The integers of what the sample authority issues from empty stores are safe. -/
theorem sample_safeFields {st : ProtectedState} {t : StateTransition} {d : HCAD}
    {ev ev' : ValidationEvidence} {cap : Capability} {now now' : Int}
    (hg : Granted sampleRuntime sampleWorld.authority.state sampleCandidate 1 t st)
    (hd : buildHcad sampleRuntime sampleCandidate none none = .ok d)
    (hev : EvidenceIssued sampleAuthority sampleCandidate t now ev)
    (hic : CapabilityIssued sampleAuthority sampleCandidate t ev' now' cap)
    (hnow : now = 200) (hnow' : now' = 200) :
    ∀ es ∈ [sampleCandidate.fields, d.fields, t.fields, ev.fields, cap.fields], SafeFields es := by
  have hepoch : Safe 7 := by simp [Safe, maxSafeInteger]
  have hissued : Safe 100 := by simp [Safe, maxSafeInteger]
  have hfresh : Safe 10000 := by simp [Safe, maxSafeInteger]
  have hcommitted : Safe 200 := by simp [Safe, maxSafeInteger]
  have hexpires : Safe 5200 := by simp [Safe, maxSafeInteger]
  simp only [List.forall_mem_cons]
  refine ⟨?_, ?_, ?_, ?_, ?_, nofun⟩
  · simp [CandidateAct.fields, sampleCandidate, hepoch, hissued, hfresh, PyDict.toVal,
      SafeFields]
  · obtain ⟨pd, -, hd⟩ := bind_eq_ok.1 hd
    rw [← Except.ok.inj hd]
    simp [HCAD.fields, sampleCandidate, hepoch, hissued, hfresh, SafeFields]
  · have hsnapshot : (sampleWorld.authority.state.snapshot sampleCandidate.source).1 =
        ⟨0, 1000, 1000⟩ := rfl
    rw [hg.transition, hsnapshot]
    simp [StateTransition.fields, nextTransition, sampleCandidate, SafeFields, Safe,
      maxSafeInteger]
  · have hp : ev.policy_epoch = 7 := hev.policy_epoch
    simp [ValidationEvidence.fields, hp, hev.committed_at_ns, hnow, hepoch, hcommitted,
      SafeFields]
  · have hp : cap.policy_epoch = 7 := hic.policy_epoch
    have hx : cap.expires_at_ns = 5200 := by
      rw [hic.expires_at_ns, hnow']
      rfl
    simp [Capability.fields, Capability.entries, hp, hx, hic.issued_at_ns, hnow', hepoch,
      hcommitted,
      hexpires, SafeFields]

/-- The sample act, exported. -/
theorem export_accepted_sample : ∃ cap s' d t ev,
    sampleAuthority.authorize sampleWorld.authority sampleCandidate 1 200 = (.ok cap, s') ∧
    s'.state.getTransition cap.transition_id = some t ∧
    s'.evidence_store.get cap.evidence_id = some ev ∧
    Go.main sampleRuntime (Go.goEntries
      (exportDocument sampleKey.key sampleCandidate d t ev cap sampleSink.context)) = .ok () ∧
    Node.main sampleRuntime (Node.jsProperties
      (exportDocument sampleKey.key sampleCandidate d t ev cap sampleSink.context)) = .ok () := by
  obtain ⟨cap, s', h⟩ := sample_authorize
  obtain ⟨d, t, ev, hd, ht, hev, hacc⟩ := export_accepted
    (show sampleAuthority.authenticator = sampleKey.toAuthenticator sampleRuntime from rfl) h rfl
    rfl
    sampleContext_serves
  obtain ⟨t', ev', hauthorized⟩ := authorize_ok h
  obtain rfl : t = t' := by
    rw [getTransition, hauthorized.capability.transition_id,
      hauthorized.granted.transitions_eq, AList.lookup_insert] at ht
    exact (Option.some.inj ht).symm
  obtain rfl : ev = ev' := by
    rw [hauthorized.capability.evidence_id,
      EvidenceStore.get_self_of_commit hauthorized.committed] at hev
    exact (Option.some.inj hev).symm
  rw [sampleContext_serves.buildHcad_eq] at hd
  obtain ⟨hgo, hnode⟩ := hacc (sample_safeFields hauthorized.granted hd hauthorized.evidence
    hauthorized.capability rfl rfl)
  exact ⟨cap, s', d, t, ev, h, ht, hev, hgo, hnode⟩

end Finality
