import Finality.Interop.Document
import Finality.Interop.NodeCoercions

/-!
# The Node sink verifier (`node/finality_verify.mjs`)

The script, from the parsed document on: it ends, or throws at the first property of `undefined`,
the first value that cannot be hashed or the first check that fails. Nothing in it asks for the
type of a field: a missing property is `undefined`, two missing ones are equal, and an operator
coerces its operands.

On a typed document each step passes exactly when the members it rebuilds a record from are there
and its checks are accepted.
-/

namespace Finality

open JsonText KeyOrder Checks Utf16 Doubles

namespace Node

/-- `v.name`, for the names the script reads: none of them is inherited. -/
def get (v : Ref) (name : String) : Except Throw Ref :=
  match v with
  | none | some .null => .error .typeError
  | some (.object ps) => .ok (ps.lookup (js name))
  | some (.array xs) => .ok (if name = "length" then some (.number (.finite xs.length)) else none)
  | some (.string s) => .ok (if name = "length" then some (.number (.finite s.length)) else none)
  | some (.bool _) | some (.number _) => .ok none

/-- `v[i]` -/
def item (v : Ref) (i : Nat) : Except Throw Ref :=
  match v with
  | none | some .null => .error .typeError
  | some (.object ps) => .ok (ps.lookup (utf16 (Nat.toDigits 10 i)))
  | some (.array xs) => .ok xs[i]?
  | some (.string s) => .ok (s[i]?.map fun u => .string [u])
  | some (.bool _) | some (.number _) => .ok none

/-- `eq` -/
def eq (a b : Ref) (msg : String) : Except Throw Unit :=
  failIf (strictEq a b = false) (.mismatch msg)

/-- The properties that `{...v}` copies. -/
def spread : Ref → List (JsStr × Val)
  | some (.object ps) => ownOrder ps
  | some (.array xs) => xs.zipIdx.map fun x => (utf16 (Nat.toDigits 10 x.2), x.1)
  | some (.string s) => s.zipIdx.map fun x => (utf16 (Nat.toDigits 10 x.2), .string [x.1])
  | none | some .null | some (.bool _) | some (.number _) => []

/-- `delete x[name]` -/
def delete (ps : List (JsStr × Val)) (name : String) : List (JsStr × Val) :=
  ps.filter fun p => p.1 ≠ js name

/-- `unsigned` -/
def unsigned (v : Ref) : List (JsStr × Val) := delete (spread v) "signature"

/-- The object of an object literal. An `undefined` property is refused when it is hashed. -/
def objectOf : List (String × Ref) → Except Throw (List (JsStr × Val))
  | [] => .ok []
  | (_, none) :: _ => .error .unsupportedType
  | (k, some v) :: ps => do
      let rest ← objectOf ps
      .ok ((js k, v) :: rest)

section
variable (R : Runtime)

/-- `sha` -/
def sha : Ref → Except Throw JsStr
  | none => .error .unsupportedType
  | some v => (sha256 R v).mapError .canonical

/-- `mac` -/
def mac (v : Val) (key : List UInt8) : Except Throw JsStr :=
  (hmacSha256 R v key).mapError .canonical

end

/-- `(v,i)=>v===c.scope[i]` for every scope of the capability -/
def everyMatches (c : Ref) : List Val → Nat → Except Throw Bool
  | [], _ => .ok true
  | v :: vs, i => do
      let scope ← get c "scope"
      let w ← item scope i
      if strictEq (some v) w then everyMatches c vs (i + 1) else .ok false

/-- `s=>ctx.supported_scopes.includes(s)` for every scope of the capability -/
def everySupported (ctx : Ref) : List Val → Except Throw Bool
  | [] => .ok true
  | v :: vs => do
      let scopes ← get ctx "supported_scopes"
      let found ← includes scopes v
      if found then everySupported ctx vs else .ok false

/-- The elements that `v.every` calls back with. -/
def elements : Ref → Except Throw (List Val)
  | some (.array xs) => .ok xs
  | _ => .error .typeError

section
variable (R : Runtime)

/-- The candidate's status and digest, which is returned. -/
def checkCandidate (c cap e : Ref) : Except Throw Ref := do
  let status ← get c "status"
  failIf (strictEq status (some (.string (js "NON_EFFECTIVE"))) = false)
    (.message "candidate is not non-effective")
  let candidateDigest ← sha R c
  let cap_digest ← get cap "candidate_digest"
  eq (some (.string candidateDigest)) cap_digest "candidate digest/capability"
  let e_digest ← get e "candidate_digest"
  eq (some (.string candidateDigest)) e_digest "candidate digest/evidence"
  .ok (some (.string candidateDigest))

/-- `rebuilt` -/
def rebuilt (c ctx : Ref) (payloadDigest : Ref) : Except Throw (List (JsStr × Val)) := do
  let act_id ← get c "act_id"
  let act_class ← get c "act_class"
  let effect_class ← get c "effect_class"
  let source ← get c "source"
  let destination ← get c "destination"
  let purpose ← get c "purpose"
  let jurisdiction ← get c "jurisdiction"
  let policy_epoch ← get c "policy_epoch"
  let nonce ← get c "nonce"
  let issued_at_ns ← get c "issued_at_ns"
  let freshness_ns ← get c "freshness_ns"
  let sink_id ← get ctx "sink_id"
  let boundary_id ← get ctx "boundary_id"
  let scope ← get c "scope"
  let runtime_evidence_digest ← get c "runtime_evidence_digest"
  objectOf [("schema", some (.string (js "finality-hcad/v1"))), ("act_id", act_id),
    ("act_class", act_class), ("effect_class", effect_class), ("source", source),
    ("destination", destination), ("purpose", purpose), ("jurisdiction", jurisdiction),
    ("policy_epoch", policy_epoch), ("nonce", nonce), ("issued_at_ns", issued_at_ns),
    ("freshness_ns", freshness_ns), ("sink_id", sink_id), ("boundary_id", boundary_id),
    ("scope", scope), ("payload_digest", payloadDigest),
    ("runtime_evidence_digest", runtime_evidence_digest)]

/-- The payload and the descriptor. -/
def checkDescriptor (c h cap e ctx : Ref) : Except Throw Unit := do
  let payload ← get c "payload"
  let payloadDigest ← sha R payload
  let payload_digest ← get h "payload_digest"
  eq (some (.string payloadDigest)) payload_digest "payload digest"
  let descriptor ← rebuilt c ctx (some (.string payloadDigest))
  let descriptorDigest ← sha R (some (.object descriptor))
  let cap_digest ← get cap "descriptor_digest"
  eq (some (.string descriptorDigest)) cap_digest "descriptor digest/capability"
  let e_digest ← get e "descriptor_digest"
  eq (some (.string descriptorDigest)) e_digest "descriptor digest/evidence"
  let provided ← sha R h
  eq (some (.string provided)) (some (.string descriptorDigest)) "provided HCAD"

/-- `transitionCore` -/
def transitionCore (t candidateDigest : Ref) : Except Throw (List (JsStr × Val)) := do
  let nonce ← get t "nonce"
  let source ← get t "source"
  let before_version ← get t "before_version"
  let after_version ← get t "after_version"
  let quota_before ← get t "quota_before"
  let quota_after ← get t "quota_after"
  let budget_before ← get t "budget_before"
  let budget_after ← get t "budget_after"
  let policy_epoch ← get t "policy_epoch"
  objectOf [("nonce", nonce), ("source", source), ("before_version", before_version),
    ("after_version", after_version), ("quota_before", quota_before), ("quota_after", quota_after),
    ("budget_before", budget_before), ("budget_after", budget_after),
    ("policy_epoch", policy_epoch), ("candidate_digest", candidateDigest)]

/-- The counters of the transition. -/
def checkCounters (t : Ref) : Except Throw Unit := do
  let after_version ← get t "after_version"
  let before_version ← get t "before_version"
  let next ← plus before_version (some (.number (.finite 1)))
  failIf (strictEq after_version next = false) (.message "invalid protected state transition")
  let quota_after ← get t "quota_after"
  let quota_before ← get t "quota_before"
  let rest ← minus quota_before (some (.number (.finite 1)))
  failIf (strictEq quota_after rest = false) (.message "invalid protected state transition")
  let budget_after ← get t "budget_after"
  let budget_before ← get t "budget_before"
  let spent ← less budget_after budget_before
  failIf (spent = false) (.message "invalid protected state transition")

/-- The state transition. -/
def checkTransition (t cap e candidateDigest : Ref) : Except Throw Unit := do
  let core ← transitionCore t candidateDigest
  let id ← sha R (some (.object core))
  let transition_id ← get t "transition_id"
  eq (some (.string id)) transition_id "transition id"
  checkCounters t
  let cap_id ← get cap "transition_id"
  eq transition_id cap_id "transition cap"
  let e_id ← get e "transition_id"
  eq transition_id e_id "transition evidence"

/-- The signature of a record and its id. -/
def checkSigned (v : Ref) (key : List UInt8) (id macMsg idMsg : String) : Except Throw Unit := do
  let u := unsigned v
  let code ← mac R (.object u) key
  let signature ← get v "signature"
  eq (some (.string code)) signature macMsg
  let core := delete (spread (some (.object u))) id
  let digest ← sha R (some (.object core))
  let expected ← get v id
  eq (some (.string digest)) expected idMsg

/-- The evidence. -/
def checkEvidence (e : Ref) (key : List UInt8) : Except Throw Unit := do
  checkSigned R e key "evidence_id" "evidence HMAC" "evidence id"
  let decision ← get e "decision"
  failIf (strictEq decision (some (.string (js "ALLOW"))) = false)
    (.message "evidence is not ALLOW")

/-- The scopes. -/
def checkScope (c cap ctx : Ref) : Except Throw Unit := do
  let cap_scope ← get cap "scope"
  let cap_length ← get cap_scope "length"
  let c_scope ← get c "scope"
  let c_length ← get c_scope "length"
  failIf (strictEq cap_length c_length = false) (.message "scope mismatch")
  let cs ← elements cap_scope
  let same ← everyMatches c cs 0
  failIf (same = false) (.message "scope mismatch")
  let supported ← everySupported ctx cs
  failIf (supported = false) (.message "sink unsupported scope")

/-- The capability in the sink's context. -/
def checkContext (c e cap ctx : Ref) : Except Throw Unit := do
  let cap_sink ← get cap "sink_id"
  let ctx_sink ← get ctx "sink_id"
  eq cap_sink ctx_sink "sink binding"
  let cap_boundary ← get cap "boundary_id"
  let ctx_boundary ← get ctx "boundary_id"
  eq cap_boundary ctx_boundary "boundary binding"
  let cap_epoch ← get cap "policy_epoch"
  let ctx_epoch ← get ctx "policy_epoch"
  eq cap_epoch ctx_epoch "policy epoch"
  let cap_nonce ← get cap "nonce"
  let c_nonce ← get c "nonce"
  eq cap_nonce c_nonce "nonce"
  let cap_authority ← get cap "authority_id"
  let e_authority ← get e "authority_id"
  eq cap_authority e_authority "authority"
  checkScope c cap ctx
  let c_class ← get c "effect_class"
  let ctx_class ← get ctx "effect_class"
  failIf (strictEq c_class ctx_class = false) (.message "effect class mismatch")
  let expires ← get cap "expires_at_ns"
  let issued ← get c "issued_at_ns"
  let freshness ← get c "freshness_ns"
  let deadline ← plus issued freshness
  let outlives ← less deadline expires
  failIf (outlives = true) (.message "capability outlives candidate")

/-- The script, on the parsed document. -/
def main (d : List (JsStr × Val)) : Except Throw Unit := do
  let key_hex ← get (some (.object d)) "authority_key_hex"
  let key ← bufferFromHex key_hex
  let c ← get (some (.object d)) "candidate"
  let h ← get (some (.object d)) "hcad"
  let t ← get (some (.object d)) "state_transition"
  let e ← get (some (.object d)) "validation_evidence"
  let cap ← get (some (.object d)) "capability"
  let ctx ← get (some (.object d)) "sink_context"
  let candidateDigest ← checkCandidate R c cap e
  checkDescriptor R c h cap e ctx
  checkTransition R t cap e candidateDigest
  checkEvidence R e key
  checkSigned R cap key "capability_id" "capability HMAC" "capability id"
  checkContext c e cap ctx

end

/-! ## Reads of a document -/

variable {R : Runtime} {ms : Members} {k : String}

/-- An object of the document. -/
abbrev objectRef (ms : Members) : Ref := some (.object (jsProperties ms))

/-- What a read of a document finds. -/
@[simp] theorem get_objectRef : get (objectRef ms) k = .ok ((member ms k).map jsValue) := by
  rw [get, jsProperties_eq, js, lookup_map_entries utf16_injective, member]

/-- The string there. -/
abbrev textRef (t : List Char) : Ref := some (.string (utf16 t))

theorem get_text (h : IsText ms k) : get (objectRef ms) k = .ok (textRef (text ms k)) := by
  rw [get_objectRef, member_text h, Option.map_some, jsValue]

theorem get_int (h : IsInt ms k) :
    get (objectRef ms) k = .ok (some (.number (ofInt (int ms k)))) := by
  rw [get_objectRef, member_int h, Option.map_some, jsValue]

theorem get_array (h : IsArray ms k) :
    get (objectRef ms) k = .ok (some (.array (jsItems (array ms k)))) := by
  rw [get_objectRef, member_array h, Option.map_some, jsValue]

theorem get_object (h : IsObject ms k) : get (objectRef ms) k = .ok (objectRef (object ms k)) := by
  rw [get_objectRef, member_object h, Option.map_some, jsValue]

/-- Texts are `===` when they are equal. -/
@[simp] theorem strictEq_text {a b : List Char} :
    strictEq (textRef a) (textRef b) = true ↔ a = b := by
  simp [strictEq, utf16_injective.eq_iff]

/-- A text is `===` to a literal when it is the literal. -/
theorem strictEq_js {a : List Char} {b : String} :
    strictEq (textRef a) (some (.string (js b))) = true ↔ a = b.toList :=
  strictEq_text

/-- `eq` passes for equal texts. -/
theorem eq_text {a b : List Char} {msg : String} {u : Unit} :
    eq (textRef a) (textRef b) msg = .ok u ↔ a = b := by
  rw [eq, failIf_eq_ok, Bool.not_eq_false, strictEq_text]

/-- Another error does not change when a computation returns. -/
theorem mapError_eq_ok {ε ε' α : Type} {f : ε → ε'} {x : Except ε α} {a : α} :
    x.mapError f = .ok a ↔ x = .ok a := by
  cases x <;> simp [Except.mapError]

/-- The digest of a document is its profile's. -/
theorem sha_jsValue {v : Json} {x : JsStr} :
    sha R (some (jsValue v)) = .ok x ↔ ∃ d, profileDigest R v = some d ∧ x = utf16 d := by
  have hb := fun b => @canonical_jsValue R v b
  simp only [map_eq_ok] at hb
  rw [sha, mapError_eq_ok, sha256, map_eq_ok]
  simp only [profileDigest, Option.map_eq_some_iff, ← hb]
  refine ⟨?_, ?_⟩
  · intro h
    obtain ⟨s, hs, rfl⟩ := h
    exact ⟨_, ⟨_, ⟨s, hs, rfl⟩, rfl⟩, rfl⟩
  · intro h
    obtain ⟨_, ⟨_, ⟨s, hs, rfl⟩, rfl⟩, rfl⟩ := h
    exact ⟨s, hs, rfl⟩

/-- The digest of an object is the profile's digest of its tree. -/
theorem sha_objectRef {x : JsStr} : sha R (objectRef ms) = .ok x ↔
    ∃ d, profileDigest R (.obj ms) = some d ∧ x = utf16 d :=
  sha_jsValue (v := .obj ms)

/-- The authentication code of an object is the profile's of its tree. -/
theorem mac_object {key : List UInt8} {x : JsStr} :
    mac R (.object (jsProperties ms)) key = .ok x ↔
      ∃ d, profileMac R key (.obj ms) = some d ∧ x = utf16 d := by
  have hb := fun b => @canonical_jsValue R (.obj ms) b
  simp only [map_eq_ok, jsValue] at hb
  rw [mac, mapError_eq_ok, hmacSha256, map_eq_ok]
  simp only [profileMac, Option.map_eq_some_iff, ← hb]
  refine ⟨?_, ?_⟩
  · intro h
    obtain ⟨s, hs, rfl⟩ := h
    exact ⟨_, ⟨_, ⟨s, hs, rfl⟩, rfl⟩, rfl⟩
  · intro h
    obtain ⟨_, ⟨_, ⟨s, hs, rfl⟩, rfl⟩, rfl⟩ := h
    exact ⟨s, hs, rfl⟩

/-- A copy lists the members in some order. -/
theorem exists_spread (ms : Members) :
    ∃ ms' : Members, ms'.Perm ms ∧ spread (objectRef ms) = jsProperties ms' := by
  obtain ⟨ms', hp, horder⟩ := exists_ownOrder (fun m => (utf16 m.1, jsValue m.2)) ms
  refine ⟨ms', hp, ?_⟩
  rw [spread, jsProperties_eq, horder, jsProperties_eq]

/-- `delete` takes the member out. -/
theorem delete_jsProperties : delete (jsProperties ms) k = jsProperties (withoutMember k ms) := by
  rw [delete, jsProperties_eq, js, filter_map_entries utf16_injective, ← jsProperties_eq]
  rfl

/-- A copy with a property deleted is hashed as the document without the member. -/
theorem exists_delete_spread (k : String) (ms : Members) : ∃ ms' : Members,
    ms'.Perm (withoutMember k ms) ∧ delete (spread (objectRef ms)) k = jsProperties ms' := by
  obtain ⟨ms', hp, hspread⟩ := exists_spread ms
  exact ⟨withoutMember k ms', hp.filter _, by rw [hspread, delete_jsProperties]⟩

/-- The profile does not read the order of the members. -/
theorem profileBytes_perm {ms ms' : Members} (h : ms.Perm ms') :
    profileBytes R (.obj ms) = profileBytes R (.obj ms') := by
  rw [profileBytes, profileBytes, portableForm_obj_perm h]

/-- An object literal is built when none of its properties is `undefined`. -/
theorem objectOf_eq_ok : ∀ {ps : List (String × Ref)} {x : List (JsStr × Val)},
    objectOf ps = .ok x ↔ (∀ p ∈ ps, p.2.isSome) ∧ x = ps.map fun p => (js p.1, p.2.getD .null)
  | [], x => by
    rw [objectOf, Except.ok.injEq, eq_comm]
    simp
  | (k, none) :: ps, x => by simp [objectOf]
  | (k, some v) :: ps, x => by
    simp only [objectOf, bind_eq_ok, objectOf_eq_ok, List.forall_mem_cons, Option.isSome_some,
      true_and, List.map_cons, Option.getD_some]
    refine ⟨?_, ?_⟩
    · rintro ⟨_, ⟨h, rfl⟩, hx⟩
      exact ⟨h, (Except.ok.inj hx).symm⟩
    · rintro ⟨h, rfl⟩
      exact ⟨_, ⟨h, rfl⟩, rfl⟩

/-- What stands for a missing member is never looked at. -/
theorem getD_member (h : (member ms k).isSome) :
    ((member ms k).map jsValue).getD .null = jsValue (field ms k) := by
  obtain ⟨v, hv⟩ := Option.isSome_iff_exists.1 h
  rw [field, hv]
  rfl

/-- An integer member is there. -/
theorem isSome_of_isInt (h : IsInt ms k) : (member ms k).isSome := by
  rw [member_int h]
  rfl

/-! ## The steps -/

section
variable {c h t e cap ctx : Members}

/-- The candidate's checks, where its fields are texts. -/
theorem checkCandidate_eq_ok (ht : CandidateTyped c cap e) {cd : Ref} :
    checkCandidate R (objectRef c) (objectRef cap) (objectRef e) = .ok cd ↔
      CandidateAccepted R c cap e ∧ cd = textRef (text cap "candidate_digest") := by
  simp only [checkCandidate, get_text ht.status, get_text ht.capability, get_text ht.evidence,
    ok_bind, bind_eq_ok, exists_unit, failIf_eq_ok, sha_objectRef, Bool.not_eq_false,
    strictEq_js]
  refine ⟨?_, ?_⟩
  · intro h
    obtain ⟨hstatus, _, ⟨d, hd, rfl⟩, hcap, he, hcd⟩ := h
    rw [eq_text] at hcap he
    subst hcap
    exact ⟨⟨hstatus, hd, he.symm⟩, (Except.ok.inj hcd).symm⟩
  · intro h
    obtain ⟨⟨hstatus, hd, he⟩, rfl⟩ := h
    exact ⟨hstatus, _, ⟨_, hd, rfl⟩, eq_text.2 rfl, eq_text.2 he.symm, rfl⟩

/-- The descriptor is rebuilt when no member that it is rebuilt from is missing: Node cannot hash
`undefined`. -/
theorem rebuilt_eq_ok {pd : List Char} {x : List (JsStr × Val)} :
    rebuilt (objectRef c) (objectRef ctx) (textRef pd) = .ok x ↔
      ((∀ k ∈ descriptorKeys, (member c k).isSome) ∧ (member ctx "sink_id").isSome ∧
        (member ctx "boundary_id").isSome) ∧ x = jsProperties (Finality.rebuilt c ctx pd) := by
  simp only [rebuilt, get_objectRef, ok_bind, objectOf_eq_ok, descriptorKeys, List.forall_mem_cons,
    List.not_mem_nil, false_implies, implies_true, and_true, Option.isSome_map, Option.isSome_some,
    true_and, List.map_cons, List.map_nil, Option.getD_some]
  refine ⟨?_, ?_⟩
  · intro h
    obtain ⟨⟨h1, h2, h3, h4, h5, h6, h7, h8, h9, h10, h11, hs, hb, h12, h13⟩, rfl⟩ := h
    refine ⟨⟨⟨h1, h2, h3, h4, h5, h6, h7, h8, h9, h10, h11, h12, h13⟩, hs, hb⟩, ?_⟩
    simp only [getD_member, Finality.rebuilt, jsProperties, jsValue, js, *]
  · intro h
    obtain ⟨⟨⟨h1, h2, h3, h4, h5, h6, h7, h8, h9, h10, h11, h12, h13⟩, hs, hb⟩, rfl⟩ := h
    refine ⟨⟨h1, h2, h3, h4, h5, h6, h7, h8, h9, h10, h11, hs, hb, h12, h13⟩, ?_⟩
    simp only [getD_member, Finality.rebuilt, jsProperties, jsValue, js, *]

/-- The descriptor's checks, where its fields are texts. -/
theorem checkDescriptor_eq_ok (ht : DescriptorTyped h cap e) :
    checkDescriptor R (objectRef c) (objectRef h) (objectRef cap) (objectRef e) (objectRef ctx) =
        .ok () ↔
      DescriptorPresent c ctx ∧ DescriptorAccepted R c h cap e ctx := by
  simp only [checkDescriptor, get_text ht.payload, get_text ht.capability, get_text ht.evidence,
    ok_bind, bind_eq_ok, exists_unit, sha_objectRef, get_objectRef]
  refine ⟨?_, ?_⟩
  · rintro ⟨_, hpd, hpdh, _, hrebuilt, _, hdd, hddcap, hdde, _, ⟨p, hp, rfl⟩, hpdd⟩
    cases hpayload : member c "payload" with
    | none =>
      rw [hpayload] at hpd
      cases hpd
    | some v =>
      rw [hpayload, Option.map_some, sha_jsValue] at hpd
      obtain ⟨pd, hpd, rfl⟩ := hpd
      obtain ⟨⟨hc, hsink, hboundary⟩, rfl⟩ := rebuilt_eq_ok.1 hrebuilt
      obtain ⟨dd, hform, rfl⟩ := sha_objectRef.1 hdd
      rw [eq_text] at hpdh hddcap hdde hpdd
      subst hpdh hddcap hpdd
      refine ⟨⟨by rw [hpayload]; rfl, hc, hsink, hboundary⟩, ?_, hform, hdde.symm, hp⟩
      rw [field, hpayload]
      exact hpd
  · rintro ⟨⟨hpayload, hc, hsink, hboundary⟩, hpd, hdd, hdde, hp⟩
    obtain ⟨v, hv⟩ := Option.isSome_iff_exists.1 hpayload
    rw [field, hv] at hpd
    rw [hv, Option.map_some]
    exact ⟨_, sha_jsValue.2 ⟨_, hpd, rfl⟩, eq_text.2 rfl, _,
      rebuilt_eq_ok.2 ⟨⟨hc, hsink, hboundary⟩, rfl⟩, _, sha_objectRef.2 ⟨_, hdd, rfl⟩,
      eq_text.2 rfl, eq_text.2 hdde.symm, _, ⟨_, hp, rfl⟩, eq_text.2 rfl⟩

/-- The material of the transition id is there when no member of it is missing. -/
theorem transitionCore_eq_ok {cd : List Char} {x : List (JsStr × Val)} :
    transitionCore (objectRef t) (textRef cd) = .ok x ↔
      ((∀ k ∈ counterKeys, (member t k).isSome) ∧ TransitionPresent t) ∧
        x = jsProperties (transitionMembers t cd) := by
  simp only [transitionCore, get_objectRef, ok_bind, objectOf_eq_ok, counterKeys,
    List.forall_mem_cons, List.not_mem_nil, false_implies, implies_true, and_true,
    Option.isSome_map, Option.isSome_some, List.map_cons, List.map_nil, Option.getD_some]
  refine ⟨?_, ?_⟩
  · intro h
    obtain ⟨⟨hn, hs, hbv, hav, hqb, hqa, hbb, hba, hp⟩, rfl⟩ := h
    refine ⟨⟨⟨hbv, hav, hqb, hqa, hbb, hba⟩, hn, hs, hp⟩, ?_⟩
    simp only [getD_member, transitionMembers, jsProperties, jsValue, js, *]
  · intro h
    obtain ⟨⟨⟨hbv, hav, hqb, hqa, hbb, hba⟩, hn, hs, hp⟩, rfl⟩ := h
    refine ⟨⟨hn, hs, hbv, hav, hqb, hqa, hbb, hba, hp⟩, ?_⟩
    simp only [getD_member, transitionMembers, jsProperties, jsValue, js, *]

/-- A safe integer is below the first that a double skips. -/
theorem natAbs_lt_of_safe {i : Int} (h : Safe i) : i.natAbs < 2 ^ 53 := by
  rw [Safe, Finality.maxSafeInteger] at h
  omega

/-- A safe integer is read exactly. -/
theorem ofInt_of_safe {i : Int} (h : Safe i) : ofInt i = .finite i :=
  ofInt_of_lt (natAbs_lt_of_safe h)

/-- Equality with a rounded integer is equality. -/
theorem strictEq_ofInt {i j : Int} (hj : Safe j) :
    strictEq (some (.number (.finite j))) (some (.number (ofInt i))) = true ↔ j = i := by
  have hsymm : (Double.finite j).eq (ofInt i) = (ofInt i).eq (.finite j) := by
    cases ofInt i <;> simp [Double.eq, eq_comm]
  rw [strictEq, hsymm, eq_ofInt_iff (natAbs_lt_of_safe hj), eq_comm]

/-- Numbers are added as numbers. -/
theorem plus_number (x y : Double) :
    plus (some (.number x)) (some (.number y)) = .ok (some (.number (x.add y))) := rfl

theorem minus_number (x y : Double) :
    minus (some (.number x)) (some (.number y)) = .ok (some (.number (x.sub y))) := rfl

theorem less_number (x y : Double) :
    less (some (.number x)) (some (.number y)) = .ok (x.lt y) := rfl

/-- The counters, given that they are safe integers. -/
theorem checkCounters_eq_ok (ht : CountersTyped t) (hsafe : ∀ k ∈ counterKeys, Safe (int t k)) :
    checkCounters (objectRef t) = .ok () ↔ CountersAccepted t := by
  simp only [CountersTyped, counterKeys, List.forall_mem_cons, List.not_mem_nil, false_implies,
    implies_true, and_true] at ht hsafe
  obtain ⟨hbv, hav, hqb, hqa, hbb, hba⟩ := ht
  obtain ⟨sbv, sav, sqb, sqa, sbb, sba⟩ := hsafe
  simp only [checkCounters, get_int hbv, get_int hav, get_int hqb, get_int hqa, get_int hbb,
    get_int hba, ok_bind, ofInt_of_safe sbv, ofInt_of_safe sav, ofInt_of_safe sqb,
    ofInt_of_safe sqa, ofInt_of_safe sbb, ofInt_of_safe sba, plus_number, minus_number, less_number,
    add_one, sub_one, lt_intCast, bind_eq_ok, exists_unit, failIf_eq_ok, Bool.not_eq_false,
    strictEq_ofInt sav, strictEq_ofInt sqa]
  refine ⟨?_, ?_⟩
  · intro h
    obtain ⟨hv, hq, hb⟩ := h
    exact ⟨hv, by omega, hb⟩
  · intro h
    obtain ⟨hv, hq, hb⟩ := h
    exact ⟨hv, by omega, hb⟩

/-- The state transition, whatever its counters are. -/
theorem checkTransition_eq_ok_of_texts (ht : IsText t "transition_id")
    (hcap : IsText cap "transition_id") (he : IsText e "transition_id") {cd : List Char} :
    checkTransition R (objectRef t) (objectRef cap) (objectRef e) (textRef cd) = .ok () ↔
      ((∀ k ∈ counterKeys, (member t k).isSome) ∧ TransitionPresent t) ∧
      profileDigest R (.obj (transitionMembers t cd)) = some (text t "transition_id") ∧
      checkCounters (objectRef t) = .ok () ∧
      text cap "transition_id" = text t "transition_id" ∧
      text e "transition_id" = text t "transition_id" := by
  simp only [checkTransition, get_text ht, get_text hcap, get_text he, ok_bind, bind_eq_ok,
    exists_unit, transitionCore_eq_ok, eq_text]
  refine ⟨?_, ?_⟩
  · intro h
    obtain ⟨_, ⟨hp, rfl⟩, _, hid, hidt, hcounters, htcap, hte⟩ := h
    obtain ⟨d, hd, rfl⟩ := sha_objectRef.1 hid
    rw [eq_text] at hidt
    subst hidt
    exact ⟨hp, hd, hcounters, htcap.symm, hte.symm⟩
  · intro h
    obtain ⟨hp, hd, hcounters, htcap, hte⟩ := h
    exact ⟨_, ⟨hp, rfl⟩, _, sha_objectRef.2 ⟨_, hd, rfl⟩, eq_text.2 rfl, hcounters, htcap.symm,
      hte.symm⟩

/-- The transition's checks, where its fields are of their types. -/
theorem checkTransition_eq_ok (ht : TransitionTyped t cap e) {cd : List Char} :
    checkTransition R (objectRef t) (objectRef cap) (objectRef e) (textRef cd) = .ok () ↔
      TransitionPresent t ∧ TransitionAccepted R t cap e cd := by
  have hpresent : ∀ k ∈ counterKeys, (member t k).isSome := fun k hk =>
    isSome_of_isInt (ht.counters k hk)
  rw [checkTransition_eq_ok_of_texts ht.transition ht.capability ht.evidence]
  refine ⟨?_, ?_⟩
  · intro h
    obtain ⟨⟨-, hp⟩, hd, hcounters, htcap, hte⟩ := h
    have hsafe := fun k hk => safe_of_transition hd hk (ht.counters k hk)
    exact ⟨hp, hd, (checkCounters_eq_ok ht.counters hsafe).1 hcounters, htcap, hte⟩
  · intro h
    obtain ⟨hp, hd, hcounters, htcap, hte⟩ := h
    have hsafe := fun k hk => safe_of_transition hd hk (ht.counters k hk)
    exact ⟨⟨hpresent, hp⟩, hd, (checkCounters_eq_ok ht.counters hsafe).2 hcounters, htcap, hte⟩

/-- The checks of a signed record, where signature and id are texts. -/
theorem checkSigned_eq_ok {m : Members} {key : List UInt8} {id macMsg idMsg : String}
    (ht : SignedTyped m id) :
    checkSigned R (objectRef m) key id macMsg idMsg = .ok () ↔ SignedAccepted R key m id := by
  obtain ⟨u, hu, hunsigned⟩ := exists_delete_spread "signature" m
  obtain ⟨core, hcore, hdelete⟩ := exists_delete_spread id u
  have hmac : profileMac R key (.obj u) =
      profileMac R key (.obj (withoutMember "signature" m)) := by
    rw [profileMac, profileBytes_perm hu, profileMac]
  have hcore := hcore.trans (hu.filter _)
  have hdigest : profileDigest R (.obj core) =
      profileDigest R (.obj (withoutMember id (withoutMember "signature" m))) := by
    rw [profileDigest, profileBytes_perm hcore, profileDigest]
    rfl
  simp only [checkSigned, unsigned, hunsigned, hdelete, get_text ht.signature, get_text ht.id,
    ok_bind, bind_eq_ok, exists_unit, mac_object, sha_objectRef, hmac, hdigest]
  refine ⟨?_, ?_⟩
  · intro h
    obtain ⟨_, ⟨s, hs, rfl⟩, hsig, _, ⟨d, hd, rfl⟩, hid⟩ := h
    rw [eq_text] at hsig hid
    subst hsig hid
    exact ⟨hs, hd⟩
  · intro h
    obtain ⟨hs, hd⟩ := h
    exact ⟨_, ⟨_, hs, rfl⟩, eq_text.2 rfl, _, ⟨_, hd, rfl⟩, eq_text.2 rfl⟩

/-- The evidence's checks, where its fields are texts. -/
theorem checkEvidence_eq_ok (ht : EvidenceTyped e) {key : List UInt8} :
    checkEvidence R (objectRef e) key = .ok () ↔ EvidenceAccepted R key e := by
  simp only [checkEvidence, bind_eq_ok, exists_unit, checkSigned_eq_ok ht.signed,
    get_text ht.decision, ok_bind, failIf_eq_ok, Bool.not_eq_false, strictEq_js]
  refine ⟨?_, ?_⟩
  · intro h
    exact ⟨h.1, h.2⟩
  · intro h
    exact ⟨h.signed, h.decision⟩

/-! ## The scopes -/

/-- The items of an array are read one by one. -/
theorem jsItems_eq : ∀ xs : List Json, jsItems xs = xs.map jsValue
  | [] => rfl
  | x :: xs => by
    rw [jsItems, jsItems_eq xs, List.map_cons]

/-- The length of an array. -/
theorem get_length (xs : List Json) :
    get (some (.array (jsItems xs))) "length" = .ok (some (.number (.finite xs.length))) := by
  rw [get, if_pos rfl, jsItems_eq, List.length_map]

/-- Only the string itself is equal to a string. -/
theorem strictEq_str {a : List Char} {v : Json} :
    strictEq (some (jsValue v)) (some (jsValue (.str a))) = true ↔ v = .str a := by
  cases v <;> simp [jsValue, strictEq, utf16_injective.eq_iff]

/-- `===` is symmetric. -/
theorem strictEq_comm : ∀ x y : Ref, strictEq x y = strictEq y x
  | none, y => by rcases y with _ | y <;> [rfl; cases y <;> rfl]
  | some x, none => by cases x <;> rfl
  | some x, some y => by
    cases x <;> cases y <;> simp only [strictEq, eq_comm]
    rename_i x y
    cases x <;> cases y <;> simp [Double.eq, eq_comm]

/-- The loop over the scope passes when the capability's scope begins the candidate's from there
on. -/
theorem everyMatches_eq_ok (hc : IsArray c "scope") : ∀ {cs : List Json} {i : Nat}, Texts cs →
    (everyMatches (objectRef c) (jsItems cs) i = .ok true ↔ cs <+: (array c "scope").drop i)
  | [], i, _ => by simp [jsItems, everyMatches]
  | v :: cs, i, htexts => by
    rw [Texts, List.forall_mem_cons] at htexts
    obtain ⟨⟨a, rfl⟩, htexts⟩ := htexts
    have ih := @everyMatches_eq_ok hc cs (i + 1) htexts
    rw [jsItems, everyMatches, get_array hc, ok_bind, item, ok_bind, jsItems_eq (array c "scope"),
      List.getElem?_map, strictEq_comm]
    rcases Nat.lt_or_ge i (array c "scope").length with hi | hi
    · rw [List.getElem?_eq_getElem hi, Option.map_some, List.drop_eq_getElem_cons hi,
        List.cons_prefix_cons]
      by_cases heq : (array c "scope")[i] = .str a
      · rw [if_pos (strictEq_str.2 heq), ih]
        simp [heq]
      · rw [if_neg (mt strictEq_str.1 heq)]
        simp [Ne.symm heq]
    · rw [List.getElem?_eq_none hi, List.drop_eq_nil_of_le hi]
      simp [jsValue, strictEq]

/-- The loop over the supported scopes passes when each one is among them. -/
theorem everySupported_eq_ok (hctx : IsArray ctx "supported_scopes") : ∀ {cs : List Json},
    Texts cs → (everySupported (objectRef ctx) (jsItems cs) = .ok true ↔
      ∀ v ∈ cs, v ∈ array ctx "supported_scopes")
  | [], _ => by simp [jsItems, everySupported]
  | v :: cs, htexts => by
    rw [Texts, List.forall_mem_cons] at htexts
    obtain ⟨⟨a, rfl⟩, htexts⟩ := htexts
    have ih := @everySupported_eq_ok hctx cs htexts
    have hfound : ((jsItems (array ctx "supported_scopes")).any fun y =>
        strictEq (some y) (some (jsValue (.str a)))) = true ↔
          .str a ∈ array ctx "supported_scopes" := by
      rw [jsItems_eq, List.any_map, List.any_eq_true]
      refine ⟨?_, ?_⟩
      · intro h
        obtain ⟨y, hy, heq⟩ := h
        exact strictEq_str.1 heq ▸ hy
      · intro hmem
        exact ⟨_, hmem, strictEq_str.2 rfl⟩
    rw [jsItems, everySupported, get_array hctx, ok_bind, includes, ok_bind, List.forall_mem_cons]
    by_cases hmem : Json.str a ∈ array ctx "supported_scopes"
    · rw [if_pos (hfound.2 hmem), ih]
      simp [hmem]
    · rw [if_neg (mt hfound.1 hmem)]
      simp [hmem]

/-- The scope's checks, where the three are arrays of texts. -/
theorem checkScope_eq_ok (ht : ScopeTyped c cap ctx) :
    checkScope (objectRef c) (objectRef cap) (objectRef ctx) = .ok () ↔
      ScopeAccepted c cap ctx := by
  have hlen : strictEq (some (.number (.finite (array cap "scope").length)))
      (some (.number (.finite (array c "scope").length))) = true ↔
        (array cap "scope").length = (array c "scope").length := by
    simp [strictEq, Double.eq]
  simp only [checkScope, get_array ht.capability, get_array ht.candidate, ok_bind, get_length,
    elements, bind_eq_ok, exists_unit, failIf_eq_ok, Bool.not_eq_false, hlen]
  refine ⟨?_, ?_⟩
  · intro h
    obtain ⟨hl, _, hsame, rfl, _, hsupported, rfl⟩ := h
    rw [everyMatches_eq_ok ht.candidate ht.capability_items, List.drop_zero] at hsame
    rw [everySupported_eq_ok ht.sink ht.capability_items] at hsupported
    exact ⟨(hsame.eq_of_length hl).symm, hsupported⟩
  · intro h
    obtain ⟨heq, hsupported⟩ := h
    refine ⟨by rw [heq], true, ?_, rfl, true, ?_, rfl⟩
    · rw [everyMatches_eq_ok ht.candidate ht.capability_items, List.drop_zero]
      exact heq ▸ List.prefix_refl _
    · exact (everySupported_eq_ok ht.sink ht.capability_items).2 hsupported

/-! ## The whole -/

/-- The capability in its context, given that the integers it shares with signed records are
safe. -/
theorem checkContext_eq_ok (ht : ContextTyped c e cap ctx) (hc : SafeInts c)
    (hcap : ∀ k, k ≠ "signature" → IsInt cap k → Safe (int cap k)) :
    checkContext (objectRef c) (objectRef e) (objectRef cap) (objectRef ctx) = .ok () ↔
      ContextAccepted c e cap ctx := by
  have hepoch := hcap "policy_epoch" (by decide) ht.capability_epoch
  have hexpires := hcap "expires_at_ns" (by decide) ht.expires
  have hissued := hc _ ht.issued
  have hfreshness := hc _ ht.freshness
  obtain ⟨htcap, htctx, htc, ha', hp, hp', hx, hi, hr, hscope⟩ := ht
  simp only [List.forall_mem_cons, List.not_mem_nil, false_implies, implies_true, and_true]
    at htcap htctx htc
  obtain ⟨hs, hb, hn, ha⟩ := htcap
  obtain ⟨hs', hb', hf'⟩ := htctx
  obtain ⟨hn', hf⟩ := htc
  have hpolicy : eq (some (.number (ofInt (int cap "policy_epoch"))))
      (some (.number (ofInt (int ctx "policy_epoch")))) "policy epoch" = .ok () ↔
        int cap "policy_epoch" = int ctx "policy_epoch" := by
    rw [eq, failIf_eq_ok, Bool.not_eq_false, ofInt_of_safe hepoch, strictEq_ofInt hepoch]
  simp only [checkContext, get_text hs, get_text hs', get_text hb, get_text hb', get_int hp,
    get_int hp', get_text hn, get_text hn', get_text ha, get_text ha', get_text hf, get_text hf',
    get_int hx, get_int hi, get_int hr, ok_bind, bind_eq_ok, exists_unit, failIf_eq_ok,
    Bool.not_eq_false, eq_text, strictEq_text, hpolicy, checkScope_eq_ok hscope,
    ofInt_of_safe hexpires, ofInt_of_safe hissued, ofInt_of_safe hfreshness, plus_number,
    less_number, add_intCast, lt_ofInt_iff (natAbs_lt_of_safe hexpires), Int.not_lt]
  refine ⟨?_, ?_⟩
  · intro h
    obtain ⟨h1, h2, h3, h4, h5, h6, h7, h8⟩ := h
    exact ⟨h1, h2, h3, h4, h5, h6, h7, h8⟩
  · intro h
    obtain ⟨h1, h2, h3, h4, h5, h6, h7, h8⟩ := h
    exact ⟨h1, h2, h3, h4, h5, h6, h7, h8⟩

/-- The low bytes of the code units of ASCII text are its codes. -/
theorem map_low_utf16 : ∀ {s : List Char}, (∀ n ∈ Hex.codes s, n < 128) →
    (utf16 s).map (fun u => u.val % 256) = Hex.codes s
  | [], _ => rfl
  | c :: s, h => by
    rw [Hex.codes, List.map_cons, List.forall_mem_cons] at h
    have ih := map_low_utf16 h.2
    have hlow : c.toNat % 256 = c.toNat := Nat.mod_eq_of_lt (Nat.lt_trans h.1 (by decide))
    rw [utf16_cons, encodeChar, dif_pos (Nat.lt_trans h.1 (by decide)), List.singleton_append,
      List.map_cons, ih, hlow]
    rfl

/-- Pairs of hexadecimal digits are decoded to their bytes. -/
theorem bufferFromHex_text {s : List Char} {key : List UInt8}
    (h : Hex.read? (Hex.codes s) = some key) : bufferFromHex (textRef s) = .ok key := by
  rw [bufferFromHex, map_low_utf16 (Hex.lt_of_read? h), Hex.readPrefix_of_read? h]

/-- **Node accepts a typed document** exactly when the members it rebuilds records from are there
and it passes every check. -/
theorem main_eq_ok {d : Members} (ht : DocumentTyped d) :
    main R (jsProperties d) = .ok () ↔ DocumentPresent d ∧ DocumentAccepted R d := by
  obtain ⟨hk, hhex, hsections, hct, hdt, htt, het, hst, hxt⟩ := ht
  simp only [sectionKeys, List.forall_mem_cons, List.not_mem_nil, false_implies, implies_true,
    and_true] at hsections
  obtain ⟨hc, hh, ht, he, hcap, hctx⟩ := hsections
  obtain ⟨key, hkey⟩ := Option.isSome_iff_exists.1 hhex
  have hkey' : authorityKey d = key := by rw [authorityKey, hkey, Option.getD_some]
  simp only [main, get_text hk, get_object hc, get_object hh, get_object ht, get_object he,
    get_object hcap, get_object hctx, ok_bind, bufferFromHex_text hkey, bind_eq_ok, exists_unit,
    checkCandidate_eq_ok hct, checkDescriptor_eq_ok hdt, checkEvidence_eq_ok het,
    checkSigned_eq_ok hst]
  refine ⟨?_, ?_⟩
  · intro h
    obtain ⟨_, ⟨hca, rfl⟩, ⟨hdp, hda⟩, htransition, hea, hsa, hcontext⟩ := h
    obtain ⟨htp, hta⟩ := (checkTransition_eq_ok htt).1 htransition
    have hxa := (checkContext_eq_ok hxt hca.safeInts hsa.safeInts).1 hcontext
    subst hkey'
    exact ⟨⟨hdp, htp⟩, hca, hda, hta, hea, hsa, hxa⟩
  · intro h
    obtain ⟨⟨hdp, htp⟩, hca, hda, hta, hea, hsa, hxa⟩ := h
    rw [hkey'] at hea hsa
    exact ⟨_, ⟨hca, rfl⟩, ⟨hdp, hda⟩, (checkTransition_eq_ok htt).2 ⟨htp, hta⟩, hea, hsa,
      (checkContext_eq_ok hxt hca.safeInts hsa.safeInts).2 hxa⟩

end

end Node

end Finality
