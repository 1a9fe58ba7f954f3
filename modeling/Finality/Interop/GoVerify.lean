import Mathlib.Algebra.Group.Nat.Defs
import Finality.Interop.Document
import Finality.Interop.GoCanonical

/-!
# The Go sink verifier (`go/cmd/finalityverify/main.go`)

`main`, from the decoded document on: it returns, or panics at the first read of another type or
the first check that fails. The statements of `main` are grouped into steps, and each step's spec
lemma says that it passes exactly when its fields are typed and its checks accepted.
-/

namespace Finality

open JsonText KeyOrder Checks

namespace Go

/-- A decoded object. -/
abbrev Obj := List (GoStr × Val)

/-- What `main` panics with. -/
inductive Panic where
  | canonical (err : Err)
  | decodeString (s : GoStr)
  | typeAssertion
  | parseInt (n : List Char)
  | indexOutOfRange
  | mismatch (a b : GoStr) (msg : String)
  | message (msg : String)

/-- `m[k]`, which is `nil` for a missing key. -/
def index (m : Obj) (k : String) : Val := (m.lookup (lit k)).getD .nil

/-- `hex.DecodeString(s)` -/
def decodeString (s : GoStr) : Except Panic (List UInt8) :=
  match Hex.read? (Utf8.octets s) with
  | none => .error (.decodeString s)
  | some b => .ok b

section
variable (R : Runtime)

/-- `sha` -/
def sha (v : Val) : Except Panic GoStr := (sha256 R v).mapError .canonical

/-- `mac` -/
def mac (v : Val) (key : List UInt8) : Except Panic GoStr :=
  (hmacSha256 R v key).mapError .canonical

end

/-- `obj` -/
def obj : Val → Except Panic Obj
  | .map m => .ok m
  | _ => .error .typeAssertion

/-- `arr` -/
def arr : Val → Except Panic (List Val)
  | .slice x => .ok x
  | _ => .error .typeAssertion

/-- `s` -/
def s : Val → Except Panic GoStr
  | .string x => .ok x
  | _ => .error .typeAssertion

/-- The range of an `int64`. -/
def InInt64 (i : Int) : Prop := -2 ^ 63 ≤ i ∧ i < 2 ^ 63

instance (i : Int) : Decidable (InInt64 i) := inferInstanceAs (Decidable (_ ∧ _))

/-- The result of `int64` arithmetic, which wraps around. -/
def wrap (i : Int) : Int := i.bmod (2 ^ 64)

/-- `num` -/
def num : Val → Except Panic Int
  | .number n =>
      match readInt n with
      | none => .error (.parseInt n)
      | some i => if InInt64 i then .ok i else .error (.parseInt n)
  | _ => .error .typeAssertion

/-- `eq` -/
def eq (a b : GoStr) (msg : String) : Except Panic Unit := failIf (a ≠ b) (.mismatch a b msg)

/-- `without` -/
def without (m : Obj) (key : String) : Obj := m.filter fun e => e.1 ≠ lit key

/-- `unsigned` -/
def unsigned (m : Obj) : Obj := without m "signature"

/-- `rebuilt` -/
def rebuilt (c ctx : Obj) (pd : GoStr) : Obj :=
  [(lit "schema", .string (lit "finality-hcad/v1")), (lit "act_id", index c "act_id"),
   (lit "act_class", index c "act_class"), (lit "effect_class", index c "effect_class"),
   (lit "source", index c "source"), (lit "destination", index c "destination"),
   (lit "purpose", index c "purpose"), (lit "jurisdiction", index c "jurisdiction"),
   (lit "policy_epoch", index c "policy_epoch"), (lit "nonce", index c "nonce"),
   (lit "issued_at_ns", index c "issued_at_ns"), (lit "freshness_ns", index c "freshness_ns"),
   (lit "sink_id", index ctx "sink_id"), (lit "boundary_id", index ctx "boundary_id"),
   (lit "scope", index c "scope"), (lit "payload_digest", .string pd),
   (lit "runtime_evidence_digest", index c "runtime_evidence_digest")]

/-- `tc` -/
def transitionCore (t : Obj) (cd : GoStr) : Obj :=
  [(lit "nonce", index t "nonce"), (lit "source", index t "source"),
   (lit "before_version", index t "before_version"), (lit "after_version", index t "after_version"),
   (lit "quota_before", index t "quota_before"), (lit "quota_after", index t "quota_after"),
   (lit "budget_before", index t "budget_before"), (lit "budget_after", index t "budget_after"),
   (lit "policy_epoch", index t "policy_epoch"), (lit "candidate_digest", .string cd)]

section
variable (R : Runtime)

/-- The candidate's status and digest, which is returned. -/
def checkCandidate (c cap e : Obj) : Except Panic GoStr := do
  let status ← s (index c "status")
  failIf (status ≠ lit "NON_EFFECTIVE") (.message "candidate not non-effective")
  let cd ← sha R (.map c)
  let cap_digest ← s (index cap "candidate_digest")
  eq cd cap_digest "candidate/cap"
  let e_digest ← s (index e "candidate_digest")
  eq cd e_digest "candidate/evidence"
  .ok cd

/-- The payload and the descriptor. -/
def checkDescriptor (c h cap e ctx : Obj) : Except Panic Unit := do
  let pd ← sha R (index c "payload")
  let payload_digest ← s (index h "payload_digest")
  eq pd payload_digest "payload digest"
  let dd ← sha R (.map (rebuilt c ctx pd))
  let cap_digest ← s (index cap "descriptor_digest")
  eq dd cap_digest "descriptor/cap"
  let e_digest ← s (index e "descriptor_digest")
  eq dd e_digest "descriptor/evidence"
  let provided ← sha R (.map h)
  eq provided dd "provided HCAD"

/-- The counters of the transition. -/
def checkCounters (t : Obj) : Except Panic Unit := do
  let after_version ← num (index t "after_version")
  let before_version ← num (index t "before_version")
  failIf (after_version ≠ wrap (before_version + 1)) (.message "invalid transition")
  let quota_after ← num (index t "quota_after")
  let quota_before ← num (index t "quota_before")
  failIf (quota_after ≠ wrap (quota_before - 1)) (.message "invalid transition")
  let budget_after ← num (index t "budget_after")
  let budget_before ← num (index t "budget_before")
  failIf (budget_after ≥ budget_before) (.message "invalid transition")

/-- The state transition. -/
def checkTransition (t cap e : Obj) (cd : GoStr) : Except Panic Unit := do
  let id ← sha R (.map (transitionCore t cd))
  let transition_id ← s (index t "transition_id")
  eq id transition_id "transition id"
  checkCounters t
  let cap_id ← s (index cap "transition_id")
  eq transition_id cap_id "transition cap"
  let e_id ← s (index e "transition_id")
  eq transition_id e_id "transition evidence"

/-- The signature of a record and its id. -/
def checkSigned (m : Obj) (key : List UInt8) (id macMsg idMsg : String) : Except Panic Unit := do
  let u := unsigned m
  let code ← mac R (.map u) key
  let signature ← s (index m "signature")
  eq code signature macMsg
  let digest ← sha R (.map (without u id))
  let expected ← s (index m id)
  eq digest expected idMsg

/-- The evidence. -/
def checkEvidence (e : Obj) (key : List UInt8) : Except Panic Unit := do
  checkSigned R e key "evidence_id" "evidence HMAC" "evidence id"
  let decision ← s (index e "decision")
  failIf (decision ≠ lit "ALLOW") (.message "evidence not ALLOW")

end

/-- The loop over the supported scopes. -/
def supports (v : Val) : List Val → Bool → Except Panic Bool
  | [], ok => .ok ok
  | x :: xs, ok => do
      let a ← s v
      let b ← s x
      supports v xs (if a = b then true else ok)

/-- The loop over the scopes of the capability, with the candidate's beside them. -/
def checkScopes (xs : List Val) : List Val → List Val → Except Panic Unit
  | [], _ => .ok ()
  | v :: cs, ws => do
      let a ← s v
      match ws with
      | [] => .error .indexOutOfRange
      | w :: ws => do
        let b ← s w
        failIf (a ≠ b) (.message "scope mismatch")
        let ok ← supports v xs false
        failIf (ok = false) (.message "unsupported scope")
        checkScopes xs cs ws

/-- The scopes. -/
def checkScope (c cap ctx : Obj) : Except Panic Unit := do
  let cs ← arr (index cap "scope")
  let xs ← arr (index ctx "supported_scopes")
  let ws ← arr (index c "scope")
  failIf (cs.length ≠ ws.length) (.message "scope length")
  checkScopes xs cs ws

/-- The capability in the sink's context. -/
def checkContext (c e cap ctx : Obj) : Except Panic Unit := do
  let cap_sink ← s (index cap "sink_id")
  let ctx_sink ← s (index ctx "sink_id")
  eq cap_sink ctx_sink "sink"
  let cap_boundary ← s (index cap "boundary_id")
  let ctx_boundary ← s (index ctx "boundary_id")
  eq cap_boundary ctx_boundary "boundary"
  let cap_epoch ← num (index cap "policy_epoch")
  let ctx_epoch ← num (index ctx "policy_epoch")
  failIf (cap_epoch ≠ ctx_epoch) (.message "epoch mismatch")
  let cap_nonce ← s (index cap "nonce")
  let c_nonce ← s (index c "nonce")
  eq cap_nonce c_nonce "nonce"
  let cap_authority ← s (index cap "authority_id")
  let e_authority ← s (index e "authority_id")
  eq cap_authority e_authority "authority"
  checkScope c cap ctx
  let c_class ← s (index c "effect_class")
  let ctx_class ← s (index ctx "effect_class")
  eq c_class ctx_class "effect class"
  let expires ← num (index cap "expires_at_ns")
  let issued ← num (index c "issued_at_ns")
  let freshness ← num (index c "freshness_ns")
  failIf (expires > wrap (issued + freshness)) (.message "cap outlives candidate")

/-- `main`, on the decoded document. -/
def main (R : Runtime) (d : Obj) : Except Panic Unit := do
  let key_hex ← s (index d "authority_key_hex")
  let key ← decodeString key_hex
  let c ← obj (index d "candidate")
  let h ← obj (index d "hcad")
  let t ← obj (index d "state_transition")
  let e ← obj (index d "validation_evidence")
  let cap ← obj (index d "capability")
  let ctx ← obj (index d "sink_context")
  let cd ← checkCandidate R c cap e
  checkDescriptor R c h cap e ctx
  checkTransition R t cap e cd
  checkEvidence R e key
  checkSigned R cap key "capability_id" "cap HMAC" "cap id"
  checkContext c e cap ctx

/-! ## Reads of a document -/

variable {R : Runtime} {ms : Members} {k : String}

/-- The members of an object are read one by one. -/
theorem goEntries_eq : ∀ ms : Members, goEntries ms = ms.map fun m => (Utf8.utf8 m.1, goValue m.2)
  | [] => rfl
  | (k, v) :: ms => by
    rw [goEntries, goEntries_eq ms, List.map_cons]

/-- What a read of a document finds. -/
@[simp] theorem index_goEntries : index (goEntries ms) k = goValue (field ms k) := by
  rw [index, goEntries_eq, lit, lookup_map_entries Utf8.utf8_injective, field, member]
  cases ms.lookup k.toList <;> rfl

/-- `without` takes the member out. -/
@[simp] theorem without_goEntries :
    without (goEntries ms) k = goEntries (withoutMember k ms) := by
  rw [without, goEntries_eq, lit, filter_map_entries Utf8.utf8_injective, ← goEntries_eq]
  rfl

/-- A string is read where there is one. -/
theorem s_field {x : GoStr} :
    s (goValue (field ms k)) = .ok x ↔ IsText ms k ∧ x = Utf8.utf8 (text ms k) := by
  rw [field, IsText, text]
  cases member ms k with
  | none => simp [goValue, s]
  | some v => cases v <;> simp [goValue, s, eq_comm]

/-- A number is read where there is one that fits. -/
theorem num_field {i : Int} :
    num (goValue (field ms k)) = .ok i ↔ IsInt ms k ∧ InInt64 (int ms k) ∧ i = int ms k := by
  rw [field, IsInt, int]
  cases member ms k with
  | none => simp [goValue, num]
  | some v =>
    cases v with
    | int j =>
      by_cases hj : InInt64 j
      · simp [goValue, num, hj, eq_comm]
      · simp [goValue, num, hj]
    | null | bool | str | arr | obj => simp [goValue, num]

/-- A member is read as a slice when it is an array. -/
theorem arr_field {x : List Val} :
    arr (goValue (field ms k)) = .ok x ↔ IsArray ms k ∧ x = goItems (array ms k) := by
  rw [field, IsArray, array]
  cases member ms k with
  | none => simp [goValue, arr]
  | some v => cases v <;> simp [goValue, arr, eq_comm]

/-- And as an object when it is one. -/
theorem obj_field {x : Obj} :
    obj (goValue (field ms k)) = .ok x ↔ IsObject ms k ∧ x = goEntries (object ms k) := by
  rw [field, IsObject, object]
  cases member ms k with
  | none => simp [goValue, obj]
  | some v => cases v <;> simp [goValue, obj, eq_comm]

/-- Another error does not change when a computation returns. -/
theorem mapError_eq_ok {ε ε' α : Type} {f : ε → ε'} {x : Except ε α} {a : α} :
    x.mapError f = .ok a ↔ x = .ok a := by
  cases x <;> simp [Except.mapError]

/-- The digest of a document is its profile's. -/
theorem sha_goValue {v : Json} {x : GoStr} :
    sha R (goValue v) = .ok x ↔ ∃ d, profileDigest R v = some d ∧ x = Utf8.utf8 d := by
  rw [sha, mapError_eq_ok, sha256, map_eq_ok]
  simp only [canonical_goValue, profileDigest, Option.map_eq_some_iff]
  refine ⟨?_, ?_⟩
  · intro h
    obtain ⟨b, hb, rfl⟩ := h
    exact ⟨_, ⟨b, hb, rfl⟩, rfl⟩
  · intro h
    obtain ⟨_, ⟨b, hb, rfl⟩, rfl⟩ := h
    exact ⟨b, hb, rfl⟩

/-- The digest of a map is the profile's digest of its tree. -/
theorem sha_map {x : GoStr} :
    sha R (.map (goEntries ms)) = .ok x ↔
      ∃ d, profileDigest R (.obj ms) = some d ∧ x = Utf8.utf8 d :=
  sha_goValue (v := .obj ms)

/-- The authentication code of a map is the profile's of its tree. -/
theorem mac_map {key : List UInt8} {x : GoStr} : mac R (.map (goEntries ms)) key = .ok x ↔
    ∃ d, profileMac R key (.obj ms) = some d ∧ x = Utf8.utf8 d := by
  rw [mac, mapError_eq_ok, hmacSha256, map_eq_ok]
  have hb := fun b => @canonical_goValue R (.obj ms) b
  simp only [goValue] at hb
  simp only [hb, profileMac, Option.map_eq_some_iff]
  refine ⟨?_, ?_⟩
  · intro h
    obtain ⟨b, hb, rfl⟩ := h
    exact ⟨_, ⟨b, hb, rfl⟩, rfl⟩
  · intro h
    obtain ⟨_, ⟨b, hb, rfl⟩, rfl⟩ := h
    exact ⟨b, hb, rfl⟩

/-- Texts are equal when their UTF-8 encodings are. -/
theorem eq_utf8 {a b : List Char} {msg : String} {u : Unit} :
    eq (Utf8.utf8 a) (Utf8.utf8 b) msg = .ok u ↔ a = b := by
  rw [eq, failIf_eq_ok, not_not, Utf8.utf8_injective.eq_iff]

/-- A text is a literal when its encoding is the literal's. -/
theorem utf8_ne_lit {a : List Char} {b : String} : ¬ Utf8.utf8 a ≠ lit b ↔ a = b.toList := by
  rw [not_not, lit, Utf8.utf8_injective.eq_iff]

/-- What Go rebuilds as the descriptor, with `null` for a missing member. -/
theorem rebuilt_goEntries {c ctx : Members} {pd : List Char} :
    rebuilt (goEntries c) (goEntries ctx) (Utf8.utf8 pd) =
      goEntries (Finality.rebuilt c ctx pd) := by
  simp only [rebuilt, index_goEntries, Finality.rebuilt, goEntries, goValue, lit]

/-- What it hashes for the transition. -/
theorem transitionCore_goEntries {t : Members} {cd : List Char} :
    transitionCore (goEntries t) (Utf8.utf8 cd) = goEntries (transitionMembers t cd) := by
  simp only [transitionCore, index_goEntries, transitionMembers, goEntries, goValue, lit]

/-! ## The steps -/

section
variable {c h t e cap ctx : Members}

/-- The candidate's checks, with the types they ask for. -/
theorem checkCandidate_eq_ok {cd : GoStr} :
    checkCandidate R (goEntries c) (goEntries cap) (goEntries e) = .ok cd ↔
      CandidateTyped c cap e ∧ CandidateAccepted R c cap e ∧
        cd = Utf8.utf8 (text cap "candidate_digest") := by
  simp only [checkCandidate, bind_eq_ok, exists_unit, index_goEntries, s_field, failIf_eq_ok,
    sha_map]
  refine ⟨?_, ?_⟩
  · intro h
    obtain ⟨_, ⟨hs, rfl⟩, hstatus, _, ⟨d, hd, rfl⟩, _, ⟨hcap, rfl⟩, hdcap, _, ⟨he, rfl⟩, hde,
      hcd⟩ := h
    rw [eq_utf8] at hdcap hde
    subst hdcap
    exact ⟨⟨hs, hcap, he⟩, ⟨utf8_ne_lit.1 hstatus, hd, hde.symm⟩, (Except.ok.inj hcd).symm⟩
  · intro h
    obtain ⟨⟨hs, hcap, he⟩, ⟨hstatus, hd, hde⟩, rfl⟩ := h
    exact ⟨_, ⟨hs, rfl⟩, utf8_ne_lit.2 hstatus, _, ⟨_, hd, rfl⟩, _, ⟨hcap, rfl⟩, eq_utf8.2 rfl, _,
      ⟨he, rfl⟩, eq_utf8.2 hde.symm, rfl⟩

/-- The descriptor's checks, with the types they ask for. -/
theorem checkDescriptor_eq_ok :
    checkDescriptor R (goEntries c) (goEntries h) (goEntries cap) (goEntries e) (goEntries ctx) =
        .ok () ↔
      DescriptorTyped h cap e ∧ DescriptorAccepted R c h cap e ctx := by
  simp only [checkDescriptor, bind_eq_ok, exists_unit, index_goEntries, s_field, sha_map,
    sha_goValue]
  refine ⟨?_, ?_⟩
  · rintro ⟨_, ⟨pd, hpd, rfl⟩, _, ⟨hh, rfl⟩, hpdh, _, hdd, _, ⟨hcap, rfl⟩, hddcap, _, ⟨he, rfl⟩,
      hdde, _, ⟨p, hp, rfl⟩, hpdd⟩
    rw [rebuilt_goEntries, sha_map] at hdd
    obtain ⟨d, hd, rfl⟩ := hdd
    rw [eq_utf8] at hpdh hddcap hdde hpdd
    subst hpdh hddcap hpdd
    exact ⟨⟨hh, hcap, he⟩, hpd, hd, hdde.symm, hp⟩
  · rintro ⟨⟨hh, hcap, he⟩, hpd, hd, hdde, hp⟩
    refine ⟨_, ⟨_, hpd, rfl⟩, _, ⟨hh, rfl⟩, eq_utf8.2 rfl, _, ?_, _, ⟨hcap, rfl⟩, eq_utf8.2 rfl, _,
      ⟨he, rfl⟩, eq_utf8.2 hdde.symm, _, ⟨_, hp, rfl⟩, eq_utf8.2 rfl⟩
    rw [rebuilt_goEntries, sha_map]
    exact ⟨_, hd, rfl⟩

/-- A safe integer fits. -/
theorem inInt64_of_safe {i : Int} (h : Safe i) : InInt64 i := by
  rw [Safe, Finality.maxSafeInteger] at h
  rw [InInt64]
  omega

/-- Nothing wraps around near the safe integers. -/
theorem wrap_eq_self {i : Int} (h : -2 ^ 62 ≤ i ∧ i ≤ 2 ^ 62) : wrap i = i := by
  rw [wrap]
  exact Int.bmod_eq_of_le_mul_two (by omega) (by omega)

/-- The sum of two safe integers does not wrap around. -/
theorem wrap_add {i j : Int} (hi : Safe i) (hj : Safe j) : wrap (i + j) = i + j := by
  rw [Safe, Finality.maxSafeInteger] at hi hj
  exact wrap_eq_self (by omega)

/-- The counters, given that they are safe integers. -/
theorem checkCounters_eq_ok (hsafe : ∀ k ∈ counterKeys, IsInt t k → Safe (int t k)) :
    checkCounters (goEntries t) = .ok () ↔ CountersTyped t ∧ CountersAccepted t := by
  simp only [counterKeys, List.forall_mem_cons, List.not_mem_nil, false_implies, implies_true,
    and_true] at hsafe
  obtain ⟨hbv, hav, hqb, hqa, hbb, hba⟩ := hsafe
  have hone : Safe 1 := by rw [Safe, Finality.maxSafeInteger]; omega
  have hneg : Safe (-1) := by rw [Safe, Finality.maxSafeInteger]; omega
  simp only [checkCounters, bind_eq_ok, exists_unit, index_goEntries, num_field, failIf_eq_ok,
    CountersTyped, counterKeys, List.forall_mem_cons, List.not_mem_nil, false_implies, implies_true,
    and_true]
  refine ⟨?_, ?_⟩
  · intro h
    obtain ⟨_, ⟨hav', -, rfl⟩, _, ⟨hbv', -, rfl⟩, hv, _, ⟨hqa', -, rfl⟩, _, ⟨hqb', -, rfl⟩, hq,
      _, ⟨hba', -, rfl⟩, _, ⟨hbb', -, rfl⟩, hb⟩ := h
    rw [wrap_add (hbv hbv') hone] at hv
    rw [Int.sub_eq_add_neg, wrap_add (hqb hqb') hneg] at hq
    exact ⟨⟨hbv', hav', hqb', hqa', hbb', hba'⟩, by omega, by omega, by omega⟩
  · intro h
    obtain ⟨⟨hbv', hav', hqb', hqa', hbb', hba'⟩, hv, hq, hb⟩ := h
    refine ⟨_, ⟨hav', inInt64_of_safe (hav hav'), rfl⟩, _,
      ⟨hbv', inInt64_of_safe (hbv hbv'), rfl⟩, ?_, _, ⟨hqa', inInt64_of_safe (hqa hqa'), rfl⟩, _,
      ⟨hqb', inInt64_of_safe (hqb hqb'), rfl⟩, ?_, _, ⟨hba', inInt64_of_safe (hba hba'), rfl⟩, _,
      ⟨hbb', inInt64_of_safe (hbb hbb'), rfl⟩, by omega⟩
    · rw [wrap_add (hbv hbv') hone]
      omega
    · rw [Int.sub_eq_add_neg, wrap_add (hqb hqb') hneg]
      omega

/-- The transition's checks, with the types they ask for. -/
theorem checkTransition_eq_ok {cd : List Char} :
    checkTransition R (goEntries t) (goEntries cap) (goEntries e) (Utf8.utf8 cd) = .ok () ↔
      TransitionTyped t cap e ∧ TransitionAccepted R t cap e cd := by
  simp only [checkTransition, bind_eq_ok, exists_unit, index_goEntries, s_field,
    transitionCore_goEntries, sha_map]
  refine ⟨?_, ?_⟩
  · intro h
    obtain ⟨_, ⟨d, hd, rfl⟩, _, ⟨ht, rfl⟩, hdt, hcounters, _, ⟨hcap, rfl⟩, htcap, _, ⟨he, rfl⟩,
      hte⟩ := h
    rw [eq_utf8] at hdt htcap hte
    subst hdt
    rw [checkCounters_eq_ok fun k => safe_of_transition hd] at hcounters
    exact ⟨⟨ht, hcounters.1, hcap, he⟩, hd, hcounters.2, htcap.symm, hte.symm⟩
  · intro h
    obtain ⟨⟨ht, hcounters, hcap, he⟩, hd, hcounters', htcap, hte⟩ := h
    exact ⟨_, ⟨_, hd, rfl⟩, _, ⟨ht, rfl⟩, eq_utf8.2 rfl,
      (checkCounters_eq_ok fun k => safe_of_transition hd).2 ⟨hcounters, hcounters'⟩, _,
      ⟨hcap, rfl⟩, eq_utf8.2 htcap.symm, _, ⟨he, rfl⟩, eq_utf8.2 hte.symm⟩

/-- The checks of a signed record, with the types they ask for. -/
theorem checkSigned_eq_ok {m : Members} {key : List UInt8} {id macMsg idMsg : String} :
    checkSigned R (goEntries m) key id macMsg idMsg = .ok () ↔
      SignedTyped m id ∧ SignedAccepted R key m id := by
  simp only [checkSigned, unsigned, without_goEntries, bind_eq_ok, exists_unit, index_goEntries,
    s_field, sha_map, mac_map]
  refine ⟨?_, ?_⟩
  · intro h
    obtain ⟨_, ⟨s, hs, rfl⟩, _, ⟨hsig, rfl⟩, heq, _, ⟨d, hd, rfl⟩, _, ⟨hid, rfl⟩, heq'⟩ := h
    rw [eq_utf8] at heq heq'
    subst heq heq'
    exact ⟨⟨hsig, hid⟩, hs, hd⟩
  · intro h
    obtain ⟨⟨hsig, hid⟩, hs, hd⟩ := h
    exact ⟨_, ⟨_, hs, rfl⟩, _, ⟨hsig, rfl⟩, eq_utf8.2 rfl, _, ⟨_, hd, rfl⟩, _, ⟨hid, rfl⟩,
      eq_utf8.2 rfl⟩

/-- The evidence's checks, with the types they ask for. -/
theorem checkEvidence_eq_ok {key : List UInt8} :
    checkEvidence R (goEntries e) key = .ok () ↔
      EvidenceTyped e ∧ EvidenceAccepted R key e := by
  simp only [checkEvidence, bind_eq_ok, exists_unit, checkSigned_eq_ok, index_goEntries, s_field,
    failIf_eq_ok]
  refine ⟨?_, ?_⟩
  · intro h
    obtain ⟨⟨ht, ha⟩, _, ⟨hd, rfl⟩, hallow⟩ := h
    exact ⟨⟨ht, hd⟩, ha, utf8_ne_lit.1 hallow⟩
  · intro h
    obtain ⟨⟨ht, hd⟩, ha, hallow⟩ := h
    exact ⟨⟨ht, ha⟩, _, ⟨hd, rfl⟩, utf8_ne_lit.2 hallow⟩

/-! ## The scopes -/

/-- The items of an array are read one by one. -/
theorem goItems_eq : ∀ xs : List Json, goItems xs = xs.map goValue
  | [] => rfl
  | x :: xs => by
    rw [goItems, goItems_eq xs, List.map_cons]

/-- A value is read as a string when it is a text. -/
theorem s_goValue {v : Json} {x : GoStr} :
    s (goValue v) = .ok x ↔ ∃ a, v = .str a ∧ x = Utf8.utf8 a := by
  cases v <;> simp [goValue, s, eq_comm]

/-- The inner loop looks for a scope among strings. -/
theorem supports_eq_ok {a : List Char} : ∀ {xs : List Json} {ok ok' : Bool},
    supports (goValue (.str a)) (goItems xs) ok = .ok ok' ↔
      Texts xs ∧ (ok' = true ↔ ok = true ∨ .str a ∈ xs)
  | [], ok, ok' => by
    cases ok <;> cases ok' <;> simp [goItems, supports, Texts]
  | x :: xs, ok, ok' => by
    simp only [goItems, supports, bind_eq_ok, s_goValue, supports_eq_ok, Texts,
      List.forall_mem_cons, Json.str.injEq]
    refine ⟨?_, ?_⟩
    · intro h
      obtain ⟨_, ⟨_, rfl, rfl⟩, _, ⟨b, rfl, rfl⟩, hxs, hok⟩ := h
      refine ⟨⟨⟨b, rfl⟩, hxs⟩, hok.trans ?_⟩
      by_cases hab : a = b
      · simp [hab]
      · simp [Utf8.utf8_injective.eq_iff, hab]
    · intro h
      obtain ⟨⟨⟨b, rfl⟩, hxs⟩, hok⟩ := h
      refine ⟨_, ⟨a, rfl, rfl⟩, _, ⟨b, rfl, rfl⟩, hxs, hok.trans ?_⟩
      by_cases hab : a = b
      · simp [hab]
      · simp [Utf8.utf8_injective.eq_iff, hab]

/-- The outer loop compares the scopes one by one. -/
theorem checkScopes_eq_ok {xs : List Json} : ∀ {cs ws : List Json}, cs.length = ws.length →
    (checkScopes (goItems xs) (goItems cs) (goItems ws) = .ok () ↔
      (Texts cs ∧ (cs ≠ [] → Texts xs)) ∧ ws = cs ∧ ∀ v ∈ cs, v ∈ xs)
  | [], [], _ => by simp [goItems, checkScopes, Texts]
  | v :: cs, w :: ws, hlen => by
    have ih := @checkScopes_eq_ok xs cs ws (Nat.succ.inj hlen)
    simp only [goItems, checkScopes, bind_eq_ok, exists_unit, s_goValue, failIf_eq_ok, ih]
    refine ⟨?_, ?_⟩
    · intro h
      obtain ⟨_, ⟨a, rfl, rfl⟩, _, ⟨b, rfl, rfl⟩, hab, ok, hok, htrue, ⟨hcs, -⟩, rfl, hmem⟩ := h
      obtain ⟨hxs, hok⟩ := supports_eq_ok.1 hok
      rw [not_not, Utf8.utf8_injective.eq_iff] at hab
      subst hab
      have hv : Json.str a ∈ xs := by simpa [Bool.not_eq_false] using hok.1 (by simpa using htrue)
      exact ⟨⟨List.forall_mem_cons.2 ⟨⟨a, rfl⟩, hcs⟩, fun _ => hxs⟩, rfl,
        List.forall_mem_cons.2 ⟨hv, hmem⟩⟩
    · intro h
      obtain ⟨⟨hcs, hxs⟩, heq, hmem⟩ := h
      obtain ⟨rfl, rfl⟩ := List.cons.inj heq
      have htexts := hxs (List.cons_ne_nil _ _)
      rw [Texts, List.forall_mem_cons] at hcs
      rw [List.forall_mem_cons] at hmem
      obtain ⟨⟨a, rfl⟩, hcs⟩ := hcs
      exact ⟨_, ⟨a, rfl, rfl⟩, _, ⟨a, rfl, rfl⟩, by simp, true,
        supports_eq_ok.2 ⟨htexts, by simp [hmem.1]⟩, by simp, ⟨hcs, fun _ => htexts⟩, rfl, hmem.2⟩

/-- The scope's checks, with the types they ask for. -/
theorem checkScope_eq_ok :
    checkScope (goEntries c) (goEntries cap) (goEntries ctx) = .ok () ↔
      ScopeTyped c cap ctx ∧ ScopeAccepted c cap ctx := by
  have hlen : ∀ xs : List Json, (goItems xs).length = xs.length := fun xs => by
    rw [goItems_eq, List.length_map]
  simp only [checkScope, bind_eq_ok, exists_unit, index_goEntries, arr_field, failIf_eq_ok]
  refine ⟨?_, ?_⟩
  · intro h
    obtain ⟨_, ⟨hcap, rfl⟩, _, ⟨hctx, rfl⟩, _, ⟨hc, rfl⟩, hl, hloop⟩ := h
    rw [not_not, hlen, hlen] at hl
    obtain ⟨⟨hcs, hxs⟩, heq, hmem⟩ := (checkScopes_eq_ok hl).1 hloop
    exact ⟨⟨hcap, hc, hctx, hcs, hxs⟩, heq, hmem⟩
  · intro h
    obtain ⟨⟨hcap, hc, hctx, hcs, hxs⟩, heq, hmem⟩ := h
    have hl : (array cap "scope").length = (array c "scope").length := by rw [heq]
    refine ⟨_, ⟨hcap, rfl⟩, _, ⟨hctx, rfl⟩, _, ⟨hc, rfl⟩, ?_,
      (checkScopes_eq_ok hl).2 ⟨⟨hcs, hxs⟩, heq, hmem⟩⟩
    rw [not_not, hlen, hlen, hl]

/-! ## The whole -/

/-- The capability in its context, given that the integers it shares with signed records are
safe. -/
theorem checkContext_eq_ok (hc : SafeInts c) (hcap : ∀ k, k ≠ "signature" → IsInt cap k →
    Safe (int cap k)) :
    checkContext (goEntries c) (goEntries e) (goEntries cap) (goEntries ctx) = .ok () ↔
      ContextTyped c e cap ctx ∧ ContextAccepted c e cap ctx := by
  have hepoch := hcap "policy_epoch" (by decide)
  have hexpires := hcap "expires_at_ns" (by decide)
  simp only [checkContext, bind_eq_ok, exists_unit, index_goEntries, s_field, num_field,
    failIf_eq_ok, checkScope_eq_ok, and_assoc, exists_and_left, exists_eq_left, eq_utf8, not_not]
  refine ⟨?_, ?_⟩
  · intro h
    obtain ⟨hs, hs', hsink, hb, hb', hboundary, hp, -, hp', -, hpolicy, hn, hn', hnonce, ha, ha',
      hauthority, hscope, hscope', hf, hf', hclass, hx, -, hi, -, hr, -, hw⟩ := h
    rw [wrap_add (hc _ hi) (hc _ hr)] at hw
    refine ⟨⟨?_, ?_, ?_, ha', hp, hp', hx, hi, hr, hscope⟩, hsink, hboundary, hpolicy, hnonce,
      hauthority, hscope', hclass, by omega⟩
    · simp [hs, hb, hn, ha]
    · simp [hs', hb', hf']
    · simp [hn', hf]
  · intro h
    obtain ⟨⟨htcap, htctx, htc, ha', hp, hp', hx, hi, hr, hscope⟩, hsink, hboundary, hpolicy,
      hnonce, hauthority, hscope', hclass, hw⟩ := h
    simp only [List.forall_mem_cons, List.not_mem_nil, false_implies, implies_true, and_true]
      at htcap htctx htc
    obtain ⟨hs, hb, hn, ha⟩ := htcap
    obtain ⟨hs', hb', hf'⟩ := htctx
    obtain ⟨hn', hf⟩ := htc
    refine ⟨hs, hs', hsink, hb, hb', hboundary, hp, inInt64_of_safe (hepoch hp), hp',
      inInt64_of_safe (hpolicy ▸ hepoch hp), hpolicy, hn, hn', hnonce, ha, ha', hauthority, hscope,
      hscope', hf, hf', hclass, hx, inInt64_of_safe (hexpires hx), hi, inInt64_of_safe (hc _ hi),
      hr, inInt64_of_safe (hc _ hr), ?_⟩
    rw [wrap_add (hc _ hi) (hc _ hr)]
    omega

/-- A byte above ASCII is no hexadecimal digit. -/
theorem read?_of_le {n : Nat} (h : 128 ≤ n) (l : List Nat) : Hex.read? (n :: l) = none := by
  have hn : Hex.digit? n = none := by
    cases hd : Hex.digit? n with
    | none => rfl
    | some d => exact absurd (Hex.lt_of_digit? hd) (by omega)
  cases l <;> simp [Hex.read?, hn]

/-- Nor is it the second one of a pair. -/
theorem read?_cons_of_le {m n : Nat} (h : 128 ≤ n) (l : List Nat) :
    Hex.read? (m :: n :: l) = none := by
  have hn : Hex.digit? n = none := by
    cases hd : Hex.digit? n with
    | none => rfl
    | some d => exact absurd (Hex.lt_of_digit? hd) (by omega)
  simp [Hex.read?, hn]

/-- A character is one octet, its code, or starts with an octet beyond ASCII. -/
theorem octets_char (c : Char) : c.toNat < 128 ∧ Utf8.octets (String.utf8EncodeChar c) = [c.toNat] ∨
    128 ≤ c.toNat ∧ ∃ n l, Utf8.octets (String.utf8EncodeChar c) = n :: l ∧ 128 ≤ n := by
  rw [Utf8.octets_utf8EncodeChar]
  by_cases h : c.toNat ≤ 0x7f
  · exact .inl ⟨by omega, if_pos h⟩
  · refine .inr ⟨by omega, ?_⟩
    rw [if_neg h]
    split_ifs
    · exact ⟨_, _, rfl, by omega⟩
    · exact ⟨_, _, rfl, by omega⟩
    · exact ⟨_, _, rfl, by omega⟩

/-- Only ASCII digits are hexadecimal, so the bytes of a text read as its characters do. -/
theorem read?_octets : ∀ s : List Char,
    Hex.read? (Utf8.octets (Utf8.utf8 s)) = Hex.read? (Hex.codes s)
  | [] => rfl
  | [a] => by
    rcases octets_char a with ⟨ha, heq⟩ | ⟨ha, n, l, heq, hn⟩
    · rw [Utf8.utf8_cons, Utf8.octets_append, heq]
      rfl
    · rw [Utf8.utf8_cons, Utf8.octets_append, heq, List.cons_append, read?_of_le hn]
      rfl
  | a :: b :: r => by
    rw [Utf8.utf8_cons, Utf8.octets_append, Utf8.utf8_cons, Utf8.octets_append, Hex.codes,
      List.map_cons, List.map_cons]
    rcases octets_char a with ⟨ha, heq⟩ | ⟨ha, n, l, heq, hn⟩
    · rcases octets_char b with ⟨hb, heq'⟩ | ⟨hb, n, l, heq', hn⟩
      · have ih := read?_octets r
        rw [Hex.codes] at ih
        rw [heq, heq', List.singleton_append, List.singleton_append, Hex.read?, Hex.read?, ih]
      · rw [heq, heq', List.singleton_append, List.cons_append, read?_cons_of_le hn,
          read?_cons_of_le hb]
    · rw [heq, List.cons_append, read?_of_le hn, read?_of_le ha]

/-- `hex.DecodeString` returns when the text is pairs of digits. -/
theorem decodeString_eq_ok {s : List Char} {b : List UInt8} :
    decodeString (Utf8.utf8 s) = .ok b ↔ Hex.read? (Hex.codes s) = some b := by
  rw [decodeString, read?_octets]
  cases Hex.read? (Hex.codes s) <;> simp

/-- **Go accepts a document** exactly when it is typed and passes every check. -/
theorem main_eq_ok {d : Members} :
    main R (goEntries d) = .ok () ↔ DocumentTyped d ∧ DocumentAccepted R d := by
  simp only [main, bind_eq_ok, exists_unit, index_goEntries, s_field, obj_field]
  refine ⟨?_, ?_⟩
  · intro h
    obtain ⟨_, ⟨hk, rfl⟩, key, hkey, _, ⟨hc, rfl⟩, _, ⟨hh, rfl⟩, _, ⟨ht, rfl⟩, _, ⟨he, rfl⟩,
      _, ⟨hcap, rfl⟩, _, ⟨hctx, rfl⟩, _, hcandidate, hdescriptor, htransition, hevidence,
      hcapability, hcontext⟩ := h
    rw [decodeString_eq_ok] at hkey
    have hkey' : authorityKey d = key := by rw [authorityKey, hkey, Option.getD_some]
    obtain ⟨hct, hca, rfl⟩ := checkCandidate_eq_ok.1 hcandidate
    obtain ⟨hdt, hda⟩ := checkDescriptor_eq_ok.1 hdescriptor
    obtain ⟨htt, hta⟩ := checkTransition_eq_ok.1 htransition
    obtain ⟨het, hea⟩ := checkEvidence_eq_ok.1 hevidence
    obtain ⟨hst, hsa⟩ := checkSigned_eq_ok.1 hcapability
    obtain ⟨hxt, hxa⟩ := (checkContext_eq_ok hca.safeInts hsa.safeInts).1 hcontext
    subst hkey'
    refine ⟨⟨hk, by rw [hkey]; rfl, ?_, hct, hdt, htt, het, hst, hxt⟩, hca, hda, hta, hea, hsa, hxa⟩
    simp [sectionKeys, hc, hh, ht, he, hcap, hctx]
  · intro h
    obtain ⟨⟨hk, hhex, hsections, hct, hdt, htt, het, hst, hxt⟩, hca, hda, hta, hea, hsa, hxa⟩ := h
    simp only [sectionKeys, List.forall_mem_cons, List.not_mem_nil, false_implies, implies_true,
      and_true] at hsections
    obtain ⟨hc, hh, ht, he, hcap, hctx⟩ := hsections
    obtain ⟨key, hkey⟩ := Option.isSome_iff_exists.1 hhex
    have hkey' : authorityKey d = key := by rw [authorityKey, hkey, Option.getD_some]
    rw [hkey'] at hea hsa
    exact ⟨_, ⟨hk, rfl⟩, key, decodeString_eq_ok.2 hkey, _, ⟨hc, rfl⟩, _, ⟨hh, rfl⟩, _, ⟨ht, rfl⟩,
      _, ⟨he, rfl⟩, _, ⟨hcap, rfl⟩, _, ⟨hctx, rfl⟩, _, checkCandidate_eq_ok.2 ⟨hct, hca, rfl⟩,
      checkDescriptor_eq_ok.2 ⟨hdt, hda⟩, checkTransition_eq_ok.2 ⟨htt, hta⟩,
      checkEvidence_eq_ok.2 ⟨het, hea⟩, checkSigned_eq_ok.2 ⟨hst, hsa⟩,
      (checkContext_eq_ok hca.safeInts hsa.safeInts).2 ⟨hxt, hxa⟩⟩

end

end Go

end Finality
