import Finality.Core.Sink
import Finality.Interop.Document

/-!
# Case bundles (`vectors/generate_finality_case.py`)

A bundle is a JSON document that carries a candidate, its descriptor, the state transition, the
evidence and the capability, the context of a sink and the authority's key, for a verifier in any
language. `jsonOf` is the tree of a Python value, `Record` a JSON object with the fields of a
dataclass in some order, and `CaseBundle` a document together with the Python objects it spells;
what a member of the document is then follows from the field it stands for.

A digest of the document under the portable profile is a digest of the Python object
(`profileBytes_record`, `canonicalBytes_of_portable`).
-/

namespace Finality

open JsonText KeyOrder Checks

/-! ## Python values as JSON -/

mutual

/-- The value is one of the portable data domain, up to the range of its integers: no float, no
bytes, no surrogate and no object, at any depth. -/
def isJson : PyVal → Bool
  | .none | .bool _ | .int _ => true
  | .str s => !hasSurrogate s
  | .list items | .tuple items => isJsonItems items
  | .dict entries | .dataclass entries => isJsonEntries entries
  | .float _ | .bytes _ | .other _ => false

/-- So are the items of a list. -/
def isJsonItems : List PyVal → Bool
  | [] => true
  | v :: vs => isJson v && isJsonItems vs

/-- So are the entries of a dictionary, whose keys are strings. -/
def isJsonEntries : List (PyKey × PyVal) → Bool
  | [] => true
  | (.str k, v) :: es => !hasSurrogate k && isJson v && isJsonEntries es
  | (.other _, _) :: _ => false

end

mutual

/-- The tree of such a value, as `json.dumps(asdict(value))` writes it: lists and tuples become
arrays, dictionaries and instances of dataclasses objects. -/
def jsonOf : PyVal → Json
  | .bool b => .bool b
  | .int i => .int i
  | .str s => .str (toText s)
  | .list items | .tuple items => .arr (jsonItems items)
  | .dict entries | .dataclass entries => .obj (jsonEntries entries)
  | .none | .float _ | .bytes _ | .other _ => .null

/-- The trees of the items of a list. -/
def jsonItems : List PyVal → List Json
  | [] => []
  | v :: vs => jsonOf v :: jsonItems vs

/-- The trees of the entries of a dictionary. -/
def jsonEntries : List (PyKey × PyVal) → List (List Char × Json)
  | [] => []
  | (.str k, v) :: es => (toText k, jsonOf v) :: jsonEntries es
  | (.other _, _) :: es => jsonEntries es

end

section
variable {R : Runtime} {portable : Bool}

mutual

/-- Such a value can be copied. -/
theorem copyValue_of_isJson : ∀ {v : PyVal}, isJson v = true → copyValue v = .ok ()
  | .none, _ | .bool _, _ | .int _, _ | .str _, _ | .float _, _ | .bytes _, _ => rfl
  | .list items, h => copyItems_of_isJson h
  | .tuple items, h => copyItems_of_isJson h
  | .dict entries, h => copyEntries_of_isJson h
  | .dataclass entries, h => copyEntries_of_isJson h
  | .other _, h => by cases h

/-- So can the items of a list: none of them is an object that `asdict` cannot copy. -/
theorem copyItems_of_isJson : ∀ {vs : List PyVal}, isJsonItems vs = true → copyItems vs = .ok ()
  | [], _ => rfl
  | v :: vs, h => by
    rw [isJsonItems, Bool.and_eq_true] at h
    rw [copyItems, copyValue_of_isJson h.1, ok_bind, copyItems_of_isJson h.2]

/-- So can the entries of a dictionary, whose keys are strings. -/
theorem copyEntries_of_isJson : ∀ {es : List (PyKey × PyVal)}, isJsonEntries es = true →
    copyEntries es = .ok ()
  | [], _ => rfl
  | (.str k, v) :: es, h => by
    rw [isJsonEntries, Bool.and_eq_true, Bool.and_eq_true] at h
    rw [copyEntries, copyKey, ok_bind, copyValue_of_isJson h.1.2, ok_bind,
      copyEntries_of_isJson h.2]
  | (.other _, _) :: _, h => by cases h

end

mutual

/-- A value and its tree have the same normal form: what the exporter writes and reads back is
normalised like the object it was written from. -/
theorem normalize_jsonOf : ∀ {v : PyVal}, isJson v = true →
    normalize R portable (pyValue (jsonOf v)) = normalize R portable v
  | .none, _ => rfl
  | .bool _, _ => rfl
  | .int _, _ => rfl
  | .str s, h => by
    rw [isJson, Bool.not_eq_true'] at h
    rw [jsonOf, pyValue, ofText_toText h]
  | .list items, h => by
    rw [jsonOf, pyValue, normalize, normalize, normalizeItems_jsonItems h]
  | .tuple items, h => by
    rw [jsonOf, pyValue, normalize, normalize, normalizeItems_jsonItems h]
  | .dict entries, h => by
    rw [jsonOf, pyValue, normalize, normalize, normalizeEntries_jsonEntries h]
  | .dataclass entries, h => by
    rw [jsonOf, pyValue, normalize, normalize, normalizeEntries_jsonEntries h,
      copyEntries_of_isJson h, ok_bind]
  | .float _, h => by simp [isJson] at h
  | .bytes _, h => by simp [isJson] at h
  | .other _, h => by simp [isJson] at h

/-- The items of a list and their trees have the same normal forms. -/
theorem normalizeItems_jsonItems : ∀ {vs : List PyVal}, isJsonItems vs = true →
    normalizeItems R portable (pyItems (jsonItems vs)) = normalizeItems R portable vs
  | [], _ => rfl
  | v :: vs, h => by
    rw [isJsonItems, Bool.and_eq_true] at h
    rw [jsonItems, pyItems, normalizeItems, normalizeItems, normalize_jsonOf h.1,
      normalizeItems_jsonItems h.2]

/-- The entries of a dictionary and their trees, too, whatever the walk has collected before them:
the keys are texts already, so the same keys collide. -/
theorem normalizeEntries_jsonEntries : ∀ {es : List (PyKey × PyVal)} {out},
    isJsonEntries es = true →
    normalizeEntries R portable (pyEntries (jsonEntries es)) out =
      normalizeEntries R portable es out
  | [], _, _ => rfl
  | (.str k, v) :: es, out, h => by
    rw [isJsonEntries, Bool.and_eq_true, Bool.and_eq_true, Bool.not_eq_true'] at h
    rw [jsonEntries, pyEntries, normalizeEntries, normalizeEntries, ofText_toText h.1.1,
      normalize_jsonOf h.1.2]
    simp only [normalizeEntries_jsonEntries h.2]
  | (.other _, _) :: _, _, h => by simp [isJsonEntries] at h

end

/-- The profile of a value's tree is the value's own: the bytes a verifier hashes are the ones
Python hashes for the object. -/
theorem profileBytes_jsonOf {v : PyVal} (hv : isJson v = true) {b : List UInt8} :
    profileBytes R (jsonOf v) = some b ↔ portableCanonicalBytes R v = .ok b := by
  rw [← portableCanonicalBytes_pyValue, portableCanonicalBytes, normalize_jsonOf hv,
    portableCanonicalBytes]

end

/-! ## Records -/

/-- The fields but one. -/
def withoutField (k : String) (es : List (String × PyVal)) : List (String × PyVal) :=
  es.filter fun e => e.1 ≠ k

/-- The trees of fields. -/
def fieldMembers (es : List (String × PyVal)) : Members :=
  es.map fun e => (e.1.toList, jsonOf e.2)

/-- A JSON object with the given fields, in some order. The names are distinct and the values in the
portable data domain. -/
structure Record (es : List (String × PyVal)) where
  members : Members
  perm : (fieldMembers es).Perm members
  keys : (es.map Prod.fst).Nodup
  json : ∀ v ∈ es.map Prod.snd, isJson v = true

/-- The trees of the entries made from named fields are the members with these names. -/
theorem jsonEntries_ofEntries (es : List (String × PyVal)) :
    jsonEntries (es.map fun e => (.str (py e.1), e.2)) = fieldMembers es := by
  induction es with
  | nil => rfl
  | cons e es ih =>
    rw [List.map_cons, jsonEntries, ih]
    simp [fieldMembers, py]

/-- Named fields are in the domain when their values are: their names are. -/
theorem isJson_ofEntries (es : List (String × PyVal)) :
    isJson (.ofEntries es) = true ↔ ∀ v ∈ es.map Prod.snd, isJson v = true := by
  induction es with
  | nil => simp [PyVal.ofEntries, isJson, isJsonEntries]
  | cons e es ih =>
    rw [PyVal.ofEntries, isJson] at ih
    rw [PyVal.ofEntries, isJson, List.map_cons, isJsonEntries, List.map_cons, List.forall_mem_cons,
      ← ih]
    simp [py]

namespace Record

variable {R : Runtime} {es : List (String × PyVal)} {k : String} {v : PyVal}

/-- No member name occurs twice, since no field name does. -/
theorem nodup (r : Record es) : (r.members.map Prod.fst).Nodup := by
  have hnd := r.keys.map fun a b : String => String.toList_inj.1
  rw [← (r.perm.map Prod.fst).nodup_iff, fieldMembers, List.map_map]
  rwa [List.map_map] at hnd

/-- The dictionary of the fields is in the portable data domain. -/
theorem isJson_entries (r : Record es) : isJson (.ofEntries es) = true :=
  (isJson_ofEntries es).2 r.json

/-- A field that is found by its name is one of the fields. -/
theorem mem_of_lookup (hk : es.lookup k = some v) : (k, v) ∈ es := by
  obtain ⟨es₁, es₂, rfl, -⟩ := List.lookup_eq_some_iff.1 hk
  exact List.mem_append_right _ List.mem_cons_self

/-- **The member that a field stands for**: whatever the order of the members, the one under the
field's name holds the tree of its value. -/
theorem member_eq (r : Record es) (hk : es.lookup k = some v) :
    member r.members k = some (jsonOf v) := by
  have hmem : (k.toList, jsonOf v) ∈ fieldMembers es :=
    List.mem_map_of_mem (f := fun e => (e.1.toList, jsonOf e.2)) (mem_of_lookup hk)
  exact lookup_of_mem r.nodup (r.perm.mem_iff.1 hmem)

/-- A string field makes a member that holds a text. -/
theorem isText (r : Record es) {s : PyStr} (hk : es.lookup k = some (.str s)) :
    IsText r.members k :=
  ⟨_, (r.member_eq hk).trans (by rw [jsonOf])⟩

/-- Its text is the field's: the field holds no surrogate. -/
theorem text_eq (r : Record es) {s : PyStr} (hk : es.lookup k = some (.str s)) :
    text r.members k = toText s :=
  Finality.text_eq ((r.member_eq hk).trans (by rw [jsonOf]))

/-- An integer field makes a member that holds an integer. -/
theorem isInt (r : Record es) {i : Int} (hk : es.lookup k = some (.int i)) :
    IsInt r.members k :=
  ⟨_, (r.member_eq hk).trans (by rw [jsonOf])⟩

/-- The integer is the field's. -/
theorem int_eq (r : Record es) {i : Int} (hk : es.lookup k = some (.int i)) :
    int r.members k = i :=
  Finality.int_eq ((r.member_eq hk).trans (by rw [jsonOf]))

/-- What the verifiers hash for a field is the tree of its value. -/
theorem field_eq (r : Record es) (hk : es.lookup k = some v) : field r.members k = jsonOf v := by
  rw [field, r.member_eq hk, Option.getD_some]

/-- A list or tuple of strings as JSON. -/
theorem jsonItems_strs (ss : List PyStr) :
    jsonItems (strs ss) = ss.map fun s => .str (toText s) := by
  induction ss with
  | nil => rfl
  | cons s ss ih => rw [strs, List.map_cons, jsonItems, ← strs, ih, jsonOf, List.map_cons]

/-- A list or tuple of strings makes an array of texts: JSON has one kind of sequence. -/
theorem member_strs (r : Record es) {ss : List PyStr}
    (hk : es.lookup k = some (.tuple (strs ss)) ∨ es.lookup k = some (.list (strs ss))) :
    member r.members k = some (.arr (ss.map fun s => .str (toText s))) := by
  rcases hk with hk | hk
  · rw [r.member_eq hk, jsonOf, jsonItems_strs]
  · rw [r.member_eq hk, jsonOf, jsonItems_strs]

/-- A string field has no surrogates, since its value is in the portable data domain. -/
theorem hasSurrogate_eq (r : Record es) {s : PyStr} (hk : es.lookup k = some (.str s)) :
    hasSurrogate s = false := by
  have h := r.json _ (List.mem_map_of_mem (mem_of_lookup hk))
  rwa [isJson, Bool.not_eq_true'] at h

/-- The record without one of its fields: what is left when the signature or the id is taken out
before hashing. -/
def without (r : Record es) (k : String) : Record (withoutField k es) where
  members := withoutMember k r.members
  perm := by
    have h := r.perm.filter fun m => m.1 ≠ k.toList
    have hkeys : ((fun m : List Char × Json => decide (m.1 ≠ k.toList)) ∘
        fun e : String × PyVal => (e.1.toList, jsonOf e.2)) = fun e => decide (e.1 ≠ k) := by
      funext e
      simp [String.toList_inj]
    rwa [fieldMembers, List.filter_map, hkeys] at h
  keys := r.keys.sublist (List.filter_sublist.map Prod.fst)
  json := fun v hv => r.json v ((List.filter_sublist.map Prod.snd).subset hv)

/-- The profile of a record is that of the dictionary with its fields. -/
theorem profileBytes_eq (r : Record es) {b : List UInt8} :
    profileBytes R (.obj r.members) = some b ↔
      portableCanonicalBytes R (.ofEntries es) = .ok b := by
  rw [profileBytes, ← portableForm_obj_perm r.perm, ← profileBytes, ← jsonEntries_ofEntries,
    ← profileBytes_jsonOf r.isJson_entries, PyVal.ofEntries, jsonOf]

end Record

/-! ## The bundle -/

/-- The fields of a transition. -/
def StateTransition.fields (t : StateTransition) : List (String × PyVal) :=
  [("transition_id", .str t.transition_id), ("nonce", .str t.nonce), ("source", .str t.source),
   ("before_version", .int t.before_version), ("after_version", .int t.after_version),
   ("quota_before", .int t.quota_before), ("quota_after", .int t.quota_after),
   ("budget_before", .int t.budget_before), ("budget_after", .int t.budget_after),
   ("policy_epoch", .int t.policy_epoch)]

/-- The fields of evidence. -/
def ValidationEvidence.fields (e : ValidationEvidence) : List (String × PyVal) :=
  [("evidence_id", .str e.evidence_id),
   ("authority_id", .str e.authority_id), ("descriptor_digest", .str e.descriptor_digest),
   ("candidate_digest", .str e.candidate_digest), ("transition_id", .str e.transition_id),
   ("policy_epoch", .int e.policy_epoch), ("decision", .str e.decision.value),
   ("reasons", .list (strs e.reasons)), ("committed_at_ns", .int e.committed_at_ns),
   ("signature", .str e.signature), ("key_id", .str e.key_id)]

/-- The fields of a capability. -/
def Capability.fields (cap : Capability) : List (String × PyVal) :=
  cap.entries ++ [("signature", .str cap.signature)]

/-- The fields of a sink's context, with the supported scopes as a list. -/
def SinkContext.fields (ctx : SinkContext) : List (String × PyVal) :=
  [("sink_id", .str ctx.sink_id), ("boundary_id", .str ctx.boundary_id),
   ("policy_epoch", .int ctx.policy_epoch), ("supported_scopes", .list (strs ctx.supported_scopes)),
   ("effect_class", .str ctx.effect_class)]

/-- A document whose sections are records of the right types, with the objects they spell. Its other
members are free. -/
structure CaseBundle where
  key : List UInt8
  candidate : CandidateAct
  hcad : HCAD
  state_transition : StateTransition
  validation_evidence : ValidationEvidence
  capability : Capability
  sink_context : SinkContext
  document : Members
  /-- `bytes.fromhex(authority_key_hex)` is the key. -/
  authority_key_hex : ∃ s, member document "authority_key_hex" = some (.str s) ∧
    Hex.read? (Hex.codes s) = some key
  c : Record candidate.fields
  h : Record hcad.fields
  t : Record state_transition.fields
  e : Record validation_evidence.fields
  cap : Record capability.fields
  ctx : Record sink_context.fields
  document_candidate : member document "candidate" = some (.obj c.members)
  document_hcad : member document "hcad" = some (.obj h.members)
  document_transition : member document "state_transition" = some (.obj t.members)
  document_evidence : member document "validation_evidence" = some (.obj e.members)
  document_capability : member document "capability" = some (.obj cap.members)
  document_context : member document "sink_context" = some (.obj ctx.members)

namespace CaseBundle

variable (B : CaseBundle)

/-- What the verifiers read as the candidate. -/
theorem object_candidate : object B.document "candidate" = B.c.members :=
  object_eq B.document_candidate

/-- What they read as the descriptor. -/
theorem object_hcad : object B.document "hcad" = B.h.members := object_eq B.document_hcad

/-- What they read as the state transition. -/
theorem object_transition : object B.document "state_transition" = B.t.members :=
  object_eq B.document_transition

/-- What they read as the evidence. -/
theorem object_evidence : object B.document "validation_evidence" = B.e.members :=
  object_eq B.document_evidence

/-- What they read as the capability. -/
theorem object_capability : object B.document "capability" = B.cap.members :=
  object_eq B.document_capability

/-- What they read as the sink's context. -/
theorem object_context : object B.document "sink_context" = B.ctx.members :=
  object_eq B.document_context

/-- The key that the verifiers decode from its digits. -/
theorem authorityKey_eq : authorityKey B.document = B.key := by
  obtain ⟨s, hs, hkey⟩ := B.authority_key_hex
  rw [authorityKey, text_eq hs, hkey, Option.getD_some]

/-- An array made from strings holds texts only. -/
theorem texts_strs (ss : List PyStr) : Texts (ss.map fun s => Json.str (toText s)) := by
  intro v hv
  obtain ⟨s, -, rfl⟩ := List.mem_map.1 hv
  exact ⟨_, rfl⟩

/-- The scope of the capability as the document holds it. -/
theorem capability_scope : member B.cap.members "scope" =
    some (.arr (B.capability.scope.map fun s => .str (toText s))) :=
  B.cap.member_strs (.inr rfl)

/-- The scope of the candidate, a tuple in Python and an array in the document. -/
theorem candidate_scope : member B.c.members "scope" =
    some (.arr (B.candidate.scope.map fun s => .str (toText s))) :=
  B.c.member_strs (.inl rfl)

/-- The scopes that the sink supports, in the order the document lists them. -/
theorem context_scopes : member B.ctx.members "supported_scopes" =
    some (.arr (B.sink_context.supported_scopes.map fun s => .str (toText s))) :=
  B.ctx.member_strs (.inr rfl)

/-- **A bundle is a typed document**: every field that a verifier reads holds a value of the type it
is read as. -/
theorem typed : DocumentTyped B.document where
  key := B.authority_key_hex.imp fun _ h => h.1
  hex := by
    obtain ⟨s, hs, hkey⟩ := B.authority_key_hex
    rw [text_eq hs, hkey]
    rfl
  sections := by
    simp only [sectionKeys, List.forall_mem_cons, List.not_mem_nil, false_implies, implies_true,
      and_true]
    exact ⟨⟨_, B.document_candidate⟩, ⟨_, B.document_hcad⟩, ⟨_, B.document_transition⟩,
      ⟨_, B.document_evidence⟩, ⟨_, B.document_capability⟩, ⟨_, B.document_context⟩⟩
  candidate := by
    rw [object_candidate, object_capability, object_evidence]
    exact ⟨B.c.isText rfl, B.cap.isText rfl, B.e.isText rfl⟩
  descriptor := by
    rw [object_hcad, object_capability, object_evidence]
    exact ⟨B.h.isText rfl, B.cap.isText rfl, B.e.isText rfl⟩
  transition := by
    rw [object_transition, object_capability, object_evidence]
    refine ⟨B.t.isText rfl, ?_, B.cap.isText rfl, B.e.isText rfl⟩
    simp only [CountersTyped, counterKeys, List.forall_mem_cons, List.not_mem_nil, false_implies,
      implies_true, and_true]
    exact ⟨B.t.isInt rfl, B.t.isInt rfl, B.t.isInt rfl, B.t.isInt rfl, B.t.isInt rfl,
      B.t.isInt rfl⟩
  evidence := by
    rw [object_evidence]
    exact ⟨⟨B.e.isText rfl, B.e.isText rfl⟩, B.e.isText rfl⟩
  capability := by
    rw [object_capability]
    exact ⟨B.cap.isText rfl, B.cap.isText rfl⟩
  context := by
    rw [object_candidate, object_evidence, object_capability, object_context]
    refine ⟨?_, ?_, ?_, B.e.isText rfl, B.cap.isInt rfl, B.ctx.isInt rfl, B.cap.isInt rfl,
      B.c.isInt rfl, B.c.isInt rfl, ⟨_, B.capability_scope⟩, ⟨_, B.candidate_scope⟩,
      ⟨_, B.context_scopes⟩, ?_, fun _ => ?_⟩
    · simp only [List.forall_mem_cons, List.not_mem_nil, false_implies, implies_true, and_true]
      exact ⟨B.cap.isText rfl, B.cap.isText rfl, B.cap.isText rfl, B.cap.isText rfl⟩
    · simp only [List.forall_mem_cons, List.not_mem_nil, false_implies, implies_true, and_true]
      exact ⟨B.ctx.isText rfl, B.ctx.isText rfl, B.ctx.isText rfl⟩
    · simp only [List.forall_mem_cons, List.not_mem_nil, false_implies, implies_true, and_true]
      exact ⟨B.c.isText rfl, B.c.isText rfl⟩
    · rw [array_eq B.capability_scope]
      exact texts_strs _
    · rw [array_eq B.context_scopes]
      exact texts_strs _

/-- A record has a member for each of its fields. -/
theorem isSome_member {es : List (String × PyVal)} (r : Record es) {k : String} {v : PyVal}
    (hk : es.lookup k = some v) : (member r.members k).isSome := by
  rw [r.member_eq hk]
  rfl

/-- Nothing a verifier rebuilds a record from is missing, so that Go and Node hash the same
members. -/
theorem present : DocumentPresent B.document where
  descriptor := by
    rw [object_candidate, object_context]
    refine ⟨isSome_member B.c rfl, ?_, isSome_member B.ctx rfl, isSome_member B.ctx rfl⟩
    have hkeys : ∀ k ∈ descriptorKeys, (B.candidate.fields.lookup k).isSome := by
      simp [descriptorKeys, CandidateAct.fields, List.lookup_cons]
    intro k hk
    obtain ⟨v, hv⟩ := Option.isSome_iff_exists.1 (hkeys k hk)
    exact isSome_member B.c hv
  transition := by
    rw [object_transition]
    exact ⟨isSome_member B.t rfl, isSome_member B.t rfl, isSome_member B.t rfl⟩

end CaseBundle

end Finality
