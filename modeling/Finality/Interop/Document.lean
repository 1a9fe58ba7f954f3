import Finality.Interop.Profile

/-!
# What a portable verifier checks

The two portable verifiers read a decoded JSON document field by field. Here are the reads, and
what the checks of each step amount to, said once of the document: `…Typed` lists the fields a step
needs with their types, and `…Accepted` the equations it checks between them. A read returns
something arbitrary where the field is missing or of another type, so an `…Accepted` says what is
meant only next to its `…Typed`.
-/

namespace Finality

open JsonText

/-- The members of a JSON object. -/
abbrev Members := List (List Char × Json)

/-- The member under a key. -/
def member (ms : Members) (k : String) : Option Json := ms.lookup k.toList

/-- The members but one. -/
def withoutMember (k : String) (ms : Members) : Members := ms.filter fun m => m.1 ≠ k.toList

/-- The member under a key, or `null`. -/
def field (ms : Members) (k : String) : Json := (member ms k).getD .null

/-! ## Typed reads -/

/-- The member is a string. -/
def IsText (ms : Members) (k : String) : Prop := ∃ t, member ms k = some (.str t)

/-- The member is an integer. -/
def IsInt (ms : Members) (k : String) : Prop := ∃ i, member ms k = some (.int i)

/-- The member is an array. -/
def IsArray (ms : Members) (k : String) : Prop := ∃ xs, member ms k = some (.arr xs)

/-- The member is an object. -/
def IsObject (ms : Members) (k : String) : Prop := ∃ ns, member ms k = some (.obj ns)

/-- The member that is a string. -/
def text (ms : Members) (k : String) : List Char :=
  match member ms k with
  | some (.str t) => t
  | _ => []

/-- The member that is an integer. -/
def int (ms : Members) (k : String) : Int :=
  match member ms k with
  | some (.int i) => i
  | _ => 0

/-- The member that is an array. -/
def array (ms : Members) (k : String) : List Json :=
  match member ms k with
  | some (.arr xs) => xs
  | _ => []

/-- The member that is an object. -/
def object (ms : Members) (k : String) : Members :=
  match member ms k with
  | some (.obj ns) => ns
  | _ => []

section
variable {ms : Members} {k : String}

theorem member_text (h : IsText ms k) : member ms k = some (.str (text ms k)) := by
  obtain ⟨t, ht⟩ := h
  rw [text, ht]

theorem member_int (h : IsInt ms k) : member ms k = some (.int (int ms k)) := by
  obtain ⟨i, hi⟩ := h
  rw [int, hi]

theorem member_array (h : IsArray ms k) : member ms k = some (.arr (array ms k)) := by
  obtain ⟨xs, hxs⟩ := h
  rw [array, hxs]

theorem member_object (h : IsObject ms k) : member ms k = some (.obj (object ms k)) := by
  obtain ⟨ns, hns⟩ := h
  rw [object, hns]

theorem text_eq {t : List Char} (h : member ms k = some (.str t)) : text ms k = t := by
  rw [text, h]

theorem int_eq {i : Int} (h : member ms k = some (.int i)) : int ms k = i := by
  rw [int, h]

theorem array_eq {xs : List Json} (h : member ms k = some (.arr xs)) : array ms k = xs := by
  rw [array, h]

theorem object_eq {ns : Members} (h : member ms k = some (.obj ns)) : object ms k = ns := by
  rw [object, h]

end

/-! ## Digests -/

section
variable (R : Runtime)

/-- The digest of a document. -/
def profileDigest (t : Json) : Option (List Char) := (profileBytes R t).map R.sha256

/-- The authentication code of a document. -/
def profileMac (key : List UInt8) (t : Json) : Option (List Char) :=
  (profileBytes R t).map (R.hmac_sha256 key)

end

variable {R : Runtime}

/-- What has a digest has a normal form. -/
theorem form_of_digest {t : Json} {d : List Char} (h : profileDigest R t = some d) :
    ∃ n, Form R t n := by
  rw [profileDigest, Option.map_eq_some_iff] at h
  obtain ⟨b, hb, -⟩ := h
  rw [profileBytes, Option.map_eq_some_iff] at hb
  obtain ⟨n, hn, -⟩ := hb
  exact ⟨n, hn⟩

/-- So has what is authenticated. -/
theorem form_of_mac {key : List UInt8} {t : Json} {d : List Char}
    (h : profileMac R key t = some d) : ∃ n, Form R t n := by
  rw [profileMac, Option.map_eq_some_iff] at h
  obtain ⟨b, hb, -⟩ := h
  rw [profileBytes, Option.map_eq_some_iff] at hb
  obtain ⟨n, hn, -⟩ := hb
  exact ⟨n, hn⟩

/-- Every member of an object that has a form has one. -/
theorem form_of_mem : ∀ {ms ns : Members}, portableMembers R ms = some ns →
    ∀ m ∈ ms, ∃ n, Form R m.2 n
  | [], _, _, m, hm => absurd hm List.not_mem_nil
  | (k, v) :: ms, ns, h, m, hm => by
    rw [portableMembers, Option.bind_eq_some_iff] at h
    obtain ⟨n, hn, h⟩ := h
    obtain ⟨ns, hns, rfl⟩ := Option.map_eq_some_iff.1 h
    rcases List.mem_cons.1 hm with rfl | hm
    · exact ⟨n, hn⟩
    · exact form_of_mem hns m hm

/-- An integer that every language represents exactly. -/
def Safe (i : Int) : Prop := -maxSafeInteger ≤ i ∧ i ≤ maxSafeInteger

/-- An integer that has a normal form is safe. -/
theorem safe_of_form {i : Int} (h : ∃ n, Form R (.int i) n) : Safe i := by
  obtain ⟨n, hn⟩ := h
  rw [Form, portableForm] at hn
  split at hn
  · assumption
  · cases hn

/-- The integers of an object are safe. -/
def SafeInts (ms : Members) : Prop := ∀ k, IsInt ms k → Safe (int ms k)

/-- A member that is found is one of the members. -/
theorem mem_of_member {ms : Members} {k : String} {v : Json} (h : member ms k = some v) :
    (k.toList, v) ∈ ms := by
  obtain ⟨ms₁, ms₂, rfl, -⟩ := List.lookup_eq_some_iff.1 h
  exact List.mem_append_right _ List.mem_cons_self

/-- The integers of an object that has a normal form are safe. -/
theorem safeInts_of_form {ms : Members} (h : ∃ n, Form R (.obj ms) n) : SafeInts ms := by
  obtain ⟨n, hn⟩ := h
  obtain ⟨ns, hns, -, -⟩ := portableForm_obj_eq_some.1 hn
  intro k hk
  exact safe_of_form (form_of_mem hns _ (mem_of_member (member_int hk)))

/-- Reading a member that was not removed. -/
theorem member_withoutMember (ms : Members) {k k' : String} (h : k ≠ k') :
    member (withoutMember k' ms) k = member ms k := by
  have hne : k.toList ≠ k'.toList := fun heq => h (String.toList_inj.1 heq)
  induction ms with
  | nil => rfl
  | cons m ms ih =>
    rw [member, member, withoutMember] at ih
    rw [member, member, withoutMember]
    by_cases hm : m.1 = k'.toList
    · have hbeq : (k.toList == m.1) = false := beq_eq_false_iff_ne.2 (hm ▸ hne)
      rw [List.filter_cons_of_neg (by simp [hm]), ih, List.lookup_cons, hbeq]
    · rw [List.filter_cons_of_pos (by simp [hm]), List.lookup_cons, List.lookup_cons, ih]

/-- So the integers of an object are in the safe range when it has a form without its signature. -/
theorem safeInts_of_unsigned {ms : Members} {k' : String} (h : SafeInts (withoutMember k' ms))
    {k : String} (hk : k ≠ k') (hi : IsInt ms k) : Safe (int ms k) := by
  have hm := member_withoutMember ms hk
  have hint : int (withoutMember k' ms) k = int ms k := by rw [int, hm, int]
  rw [← hint]
  exact h k (by rwa [IsInt, hm])

/-! ## The steps of a verifier -/

/-- The candidate's status and digest: the fields. -/
structure CandidateTyped (c cap e : Members) : Prop where
  status : IsText c "status"
  capability : IsText cap "candidate_digest"
  evidence : IsText e "candidate_digest"

/-- The candidate's status and digest: the checks. -/
structure CandidateAccepted (R : Runtime) (c cap e : Members) : Prop where
  status : text c "status" = "NON_EFFECTIVE".toList
  digest : profileDigest R (.obj c) = some (text cap "candidate_digest")
  evidence : text e "candidate_digest" = text cap "candidate_digest"

/-- The members of the candidate that the descriptor repeats. -/
def descriptorKeys : List String :=
  ["act_id", "act_class", "effect_class", "source", "destination", "purpose", "jurisdiction",
   "policy_epoch", "nonce", "issued_at_ns", "freshness_ns", "scope", "runtime_evidence_digest"]

/-- The descriptor that a verifier rebuilds from the candidate and its own context. -/
def rebuilt (c ctx : Members) (payload_digest : List Char) : Members :=
  [("schema".toList, .str "finality-hcad/v1".toList), ("act_id".toList, field c "act_id"),
   ("act_class".toList, field c "act_class"), ("effect_class".toList, field c "effect_class"),
   ("source".toList, field c "source"), ("destination".toList, field c "destination"),
   ("purpose".toList, field c "purpose"), ("jurisdiction".toList, field c "jurisdiction"),
   ("policy_epoch".toList, field c "policy_epoch"), ("nonce".toList, field c "nonce"),
   ("issued_at_ns".toList, field c "issued_at_ns"),
   ("freshness_ns".toList, field c "freshness_ns"), ("sink_id".toList, field ctx "sink_id"),
   ("boundary_id".toList, field ctx "boundary_id"), ("scope".toList, field c "scope"),
   ("payload_digest".toList, .str payload_digest),
   ("runtime_evidence_digest".toList, field c "runtime_evidence_digest")]

/-- The payload and the descriptor: the fields. -/
structure DescriptorTyped (h cap e : Members) : Prop where
  payload : IsText h "payload_digest"
  capability : IsText cap "descriptor_digest"
  evidence : IsText e "descriptor_digest"

/-- The members a descriptor is rebuilt from are there, of whatever type. -/
structure DescriptorPresent (c ctx : Members) : Prop where
  payload : (member c "payload").isSome
  candidate : ∀ k ∈ descriptorKeys, (member c k).isSome
  sink : (member ctx "sink_id").isSome
  boundary : (member ctx "boundary_id").isSome

/-- The payload and the descriptor: the checks. -/
structure DescriptorAccepted (R : Runtime) (c h cap e ctx : Members) : Prop where
  payload : profileDigest R (field c "payload") = some (text h "payload_digest")
  rebuilt : profileDigest R (.obj (rebuilt c ctx (text h "payload_digest"))) =
    some (text cap "descriptor_digest")
  evidence : text e "descriptor_digest" = text cap "descriptor_digest"
  hcad : profileDigest R (.obj h) = some (text cap "descriptor_digest")

/-- The material of a transition id, rebuilt. -/
def transitionMembers (t : Members) (candidate_digest : List Char) : Members :=
  [("nonce".toList, field t "nonce"), ("source".toList, field t "source"),
   ("before_version".toList, field t "before_version"),
   ("after_version".toList, field t "after_version"),
   ("quota_before".toList, field t "quota_before"), ("quota_after".toList, field t "quota_after"),
   ("budget_before".toList, field t "budget_before"),
   ("budget_after".toList, field t "budget_after"),
   ("policy_epoch".toList, field t "policy_epoch"),
   ("candidate_digest".toList, .str candidate_digest)]

/-- The counters of a transition. -/
def counterKeys : List String :=
  ["before_version", "after_version", "quota_before", "quota_after", "budget_before",
   "budget_after"]

/-- The counters: the fields. -/
def CountersTyped (t : Members) : Prop := ∀ k ∈ counterKeys, IsInt t k

/-- The counters: the checks. -/
structure CountersAccepted (t : Members) : Prop where
  version : int t "after_version" = int t "before_version" + 1
  quota : int t "quota_after" = int t "quota_before" - 1
  budget : int t "budget_after" < int t "budget_before"

/-- The counters that go into a transition id are safe. -/
theorem safe_of_transition {t : Members} {cd d : List Char}
    (h : profileDigest R (.obj (transitionMembers t cd)) = some d) {k : String}
    (hk : k ∈ counterKeys) (hi : IsInt t k) : Safe (int t k) := by
  obtain ⟨n, hn⟩ := form_of_digest h
  obtain ⟨ns, hns, -, -⟩ := portableForm_obj_eq_some.1 hn
  have hmem : ∀ k ∈ counterKeys, (k.toList, field t k) ∈ transitionMembers t cd := by
    simp [counterKeys, transitionMembers]
  have hform := form_of_mem hns _ (hmem k hk)
  rw [field, member_int hi] at hform
  exact safe_of_form hform

/-- The state transition: the fields. -/
structure TransitionTyped (t cap e : Members) : Prop where
  transition : IsText t "transition_id"
  counters : CountersTyped t
  capability : IsText cap "transition_id"
  evidence : IsText e "transition_id"

/-- The members a transition id is recomputed from are there, of whatever type. -/
structure TransitionPresent (t : Members) : Prop where
  nonce : (member t "nonce").isSome
  source : (member t "source").isSome
  policy_epoch : (member t "policy_epoch").isSome

/-- The state transition: the checks. -/
structure TransitionAccepted (R : Runtime) (t cap e : Members) (candidate_digest : List Char) :
    Prop where
  transition : profileDigest R (.obj (transitionMembers t candidate_digest)) =
    some (text t "transition_id")
  counters : CountersAccepted t
  capability : text cap "transition_id" = text t "transition_id"
  evidence : text e "transition_id" = text t "transition_id"

/-- A signed record with its id: the fields. -/
structure SignedTyped (ms : Members) (id : String) : Prop where
  signature : IsText ms "signature"
  id : IsText ms id

/-- A signed record with its id: the checks. -/
structure SignedAccepted (R : Runtime) (key : List UInt8) (ms : Members) (id : String) : Prop where
  signature : profileMac R key (.obj (withoutMember "signature" ms)) = some (text ms "signature")
  id : profileDigest R (.obj (withoutMember id (withoutMember "signature" ms))) =
    some (text ms id)

/-- The evidence: the fields. -/
structure EvidenceTyped (e : Members) : Prop where
  signed : SignedTyped e "evidence_id"
  decision : IsText e "decision"

/-- The evidence: the checks. -/
structure EvidenceAccepted (R : Runtime) (key : List UInt8) (e : Members) : Prop where
  signed : SignedAccepted R key e "evidence_id"
  decision : text e "decision" = "ALLOW".toList

/-- The items of an array are strings. -/
def Texts (xs : List Json) : Prop := ∀ v ∈ xs, ∃ t, v = .str t

/-- The scopes: the fields. -/
structure ScopeTyped (c cap ctx : Members) : Prop where
  capability : IsArray cap "scope"
  candidate : IsArray c "scope"
  sink : IsArray ctx "supported_scopes"
  capability_items : Texts (array cap "scope")
  sink_items : array cap "scope" ≠ [] → Texts (array ctx "supported_scopes")

/-- The scopes: the checks. -/
structure ScopeAccepted (c cap ctx : Members) : Prop where
  candidate : array c "scope" = array cap "scope"
  sink : ∀ v ∈ array cap "scope", v ∈ array ctx "supported_scopes"

/-- The capability in its context: the fields. -/
structure ContextTyped (c e cap ctx : Members) : Prop where
  capability : ∀ k ∈ ["sink_id", "boundary_id", "nonce", "authority_id"], IsText cap k
  sink : ∀ k ∈ ["sink_id", "boundary_id", "effect_class"], IsText ctx k
  candidate : ∀ k ∈ ["nonce", "effect_class"], IsText c k
  authority : IsText e "authority_id"
  capability_epoch : IsInt cap "policy_epoch"
  sink_epoch : IsInt ctx "policy_epoch"
  expires : IsInt cap "expires_at_ns"
  issued : IsInt c "issued_at_ns"
  freshness : IsInt c "freshness_ns"
  scope : ScopeTyped c cap ctx

/-- The capability in its context: the checks. -/
structure ContextAccepted (c e cap ctx : Members) : Prop where
  sink : text cap "sink_id" = text ctx "sink_id"
  boundary : text cap "boundary_id" = text ctx "boundary_id"
  policy_epoch : int cap "policy_epoch" = int ctx "policy_epoch"
  nonce : text cap "nonce" = text c "nonce"
  authority : text cap "authority_id" = text e "authority_id"
  scope : ScopeAccepted c cap ctx
  effect_class : text c "effect_class" = text ctx "effect_class"
  within : int cap "expires_at_ns" ≤ int c "issued_at_ns" + int c "freshness_ns"

/-! ## The document -/

/-- The sections of a document. -/
def sectionKeys : List String :=
  ["candidate", "hcad", "state_transition", "validation_evidence", "capability", "sink_context"]

/-- The key of a document, where its text is hexadecimal. -/
def authorityKey (d : Members) : List UInt8 :=
  (Hex.read? (Hex.codes (text d "authority_key_hex"))).getD []

/-- A document with every field that a verifier needs in its type. -/
structure DocumentTyped (d : Members) : Prop where
  key : IsText d "authority_key_hex"
  hex : (Hex.read? (Hex.codes (text d "authority_key_hex"))).isSome
  sections : ∀ k ∈ sectionKeys, IsObject d k
  candidate : CandidateTyped (object d "candidate") (object d "capability")
    (object d "validation_evidence")
  descriptor : DescriptorTyped (object d "hcad") (object d "capability")
    (object d "validation_evidence")
  transition : TransitionTyped (object d "state_transition") (object d "capability")
    (object d "validation_evidence")
  evidence : EvidenceTyped (object d "validation_evidence")
  capability : SignedTyped (object d "capability") "capability_id"
  context : ContextTyped (object d "candidate") (object d "validation_evidence")
    (object d "capability") (object d "sink_context")

/-- The members that a verifier rebuilds a record from are there. -/
structure DocumentPresent (d : Members) : Prop where
  descriptor : DescriptorPresent (object d "candidate") (object d "sink_context")
  transition : TransitionPresent (object d "state_transition")

/-- A document that passes every check. -/
structure DocumentAccepted (R : Runtime) (d : Members) : Prop where
  candidate : CandidateAccepted R (object d "candidate") (object d "capability")
    (object d "validation_evidence")
  descriptor : DescriptorAccepted R (object d "candidate") (object d "hcad")
    (object d "capability") (object d "validation_evidence") (object d "sink_context")
  transition : TransitionAccepted R (object d "state_transition") (object d "capability")
    (object d "validation_evidence") (text (object d "capability") "candidate_digest")
  evidence : EvidenceAccepted R (authorityKey d) (object d "validation_evidence")
  capability : SignedAccepted R (authorityKey d) (object d "capability") "capability_id"
  context : ContextAccepted (object d "candidate") (object d "validation_evidence")
    (object d "capability") (object d "sink_context")

/-- The integers of an accepted candidate are safe. -/
theorem CandidateAccepted.safeInts {c cap e : Members} (h : CandidateAccepted R c cap e) :
    SafeInts c :=
  safeInts_of_form (form_of_digest h.digest)

/-- So are those of a signed record with an accepted signature. -/
theorem SignedAccepted.safeInts {key : List UInt8} {ms : Members} {id : String}
    (h : SignedAccepted R key ms id) : ∀ k, k ≠ "signature" → IsInt ms k → Safe (int ms k) :=
  fun _ => safeInts_of_unsigned (safeInts_of_form (form_of_mac h.signature))

end Finality
