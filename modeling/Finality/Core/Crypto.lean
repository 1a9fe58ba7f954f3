import Finality.Core.Models

/-!
# Authenticators (`crypto.py`) and presentation proofs (`pop.py`)

`Authenticator` is the protocol of `crypto.py`: a key id, a signer that may refuse and a verifier
that may raise. The reference implementation is `HMACAuthenticator`.
-/

namespace Finality

open Checks

/-- `Authenticator` -/
structure Authenticator (R : Runtime) where
  key_id : PyStr
  sign : PyVal → Except PyErr PyStr
  verify : PyVal → PyStr → PyStr → Except PyErr Bool
  /-- Only a value that has canonical bytes is ever accepted. -/
  canon_of_verify : ∀ {v s k}, verify v s k = .ok true → Canon R v

/-- The verifier accepts what the signer produced. -/
def Authenticator.AcceptsOwn {R : Runtime} (a : Authenticator R) : Prop :=
  ∀ v s, a.sign v = .ok s → a.verify v s a.key_id = .ok true

/-- The verifier checks the signatures of the signer's key: it is the signer's own authenticator, or
a copy of it that holds the public key alone. -/
structure Authenticator.VerifierOf {R : Runtime} (verifier signer : Authenticator R) : Prop where
  key_id : verifier.key_id = signer.key_id
  verify : verifier.verify = signer.verify

/-- The signer signs every value that has canonical bytes. -/
def Authenticator.SignsCanon {R : Runtime} (a : Authenticator R) : Prop :=
  ∀ v, Canon R v → ∃ s, a.sign v = .ok s

/-- Every character of the string is ASCII. -/
def isAsciiStr (s : PyStr) : Bool :=
  s.all fun c => c.val < 128

/-- `hmac.compare_digest(a, b)` on strings -/
def compareDigest (a b : PyStr) : Except PyErr Bool :=
  if isAsciiStr a && isAsciiStr b then .ok (a = b)
  else .error (.typeError (py "comparing strings with non-ASCII characters is not supported"))

/-- `HMACAuthenticator` -/
structure HMACAuthenticator where
  key : List UInt8
  key_id : PyStr

namespace HMACAuthenticator

variable (R : Runtime) (a : HMACAuthenticator)

/-- `HMACAuthenticator.sign` -/
def sign (value : PyVal) : Except PyErr PyStr :=
  (canonicalBytes R value).map fun data => ofText (R.hmac_sha256 a.key data)

/-- `HMACAuthenticator.verify` -/
def verify (value : PyVal) (signature key_id : PyStr) : Except PyErr Bool :=
  if key_id ≠ a.key_id then .ok false
  else do
    let expected ← a.sign R value
    compareDigest expected signature

variable {R a}

/-- Only what has canonical bytes is signed. -/
theorem canon_of_sign {v : PyVal} {s : PyStr} (h : a.sign R v = .ok s) : Canon R v := by
  rw [sign, map_eq_ok] at h
  obtain ⟨b, hb, -⟩ := h
  exact canon_iff_canonicalBytes.2 ⟨b, hb⟩

/-- All of it is. -/
theorem sign_of_canon {v : PyVal} (h : Canon R v) : ∃ s, a.sign R v = .ok s := by
  obtain ⟨b, hb⟩ := canon_iff_canonicalBytes.1 h
  exact ⟨_, map_eq_ok.2 ⟨b, hb, rfl⟩⟩

/-- Only what has canonical bytes is verified. -/
theorem canon_of_verify {v : PyVal} {s k : PyStr} (h : a.verify R v s k = .ok true) :
    Canon R v := by
  unfold verify at h
  split at h
  · simp at h
  · obtain ⟨e, he, -⟩ := bind_eq_ok.1 h
    exact canon_of_sign he

/-- A signature is ASCII. -/
theorem isAsciiStr_of_sign {v : PyVal} {s : PyStr} (h : a.sign R v = .ok s) :
    isAsciiStr s = true := by
  rw [sign, map_eq_ok] at h
  obtain ⟨b, -, rfl⟩ := h
  simp only [isAsciiStr, ofText, List.all_map, List.all_eq_true, Function.comp_apply,
    toNat_ofChar]
  exact fun c hc => decide_eq_true (isInert.ascii (isInert_of_isHexDigit (R.hmac_isHex _ _ c hc)))

/-- It holds no surrogate. -/
theorem hasSurrogate_of_sign {v : PyVal} {s : PyStr} (h : a.sign R v = .ok s) :
    hasSurrogate s = false := by
  rw [sign, map_eq_ok] at h
  obtain ⟨b, -, rfl⟩ := h
  exact hasSurrogate_ofText _

/-- The verifier accepts what the signer produced. -/
theorem verify_sign {v : PyVal} {s : PyStr} (h : a.sign R v = .ok s) :
    a.verify R v s a.key_id = .ok true := by
  have hs := isAsciiStr_of_sign h
  simp [verify, h, compareDigest, hs]

variable (R a) in
/-- The reference authenticator as an authenticator. -/
def toAuthenticator : Authenticator R where
  key_id := a.key_id
  sign := a.sign R
  verify := a.verify R
  canon_of_verify := canon_of_verify

/-- A key accepts its own signatures. -/
theorem acceptsOwn : (a.toAuthenticator R).AcceptsOwn := fun _ _ h => verify_sign h

/-- It signs whatever has canonical bytes. -/
theorem signsCanon : (a.toAuthenticator R).SignsCanon := fun _ h => sign_of_canon h

end HMACAuthenticator

/-- `PresentationProof` -/
structure PresentationProof where
  capability_id : PyStr
  candidate_digest : PyStr
  sink_id : PyStr
  boundary_id : PyStr
  nonce : PyStr
  presented_at_ns : Int
  presenter_key_id : PyStr
  signature : PyStr
  deriving DecidableEq

/-- The entries of `PresentationProof.unsigned`. -/
def PresentationProof.entries (p : PresentationProof) : List (String × PyVal) :=
  [("capability_id", .str p.capability_id), ("candidate_digest", .str p.candidate_digest),
   ("sink_id", .str p.sink_id), ("boundary_id", .str p.boundary_id), ("nonce", .str p.nonce),
   ("presented_at_ns", .int p.presented_at_ns), ("presenter_key_id", .str p.presenter_key_id)]

/-- `PresentationProof.unsigned` -/
def PresentationProof.unsigned (p : PresentationProof) : PyVal := .ofEntries p.entries

/-- The keys of a signed presentation. -/
def presentationKeys : List String :=
  ["capability_id", "candidate_digest", "sink_id", "boundary_id", "nonce", "presented_at_ns",
   "presenter_key_id"]

@[simp] theorem keys_presentation (p : PresentationProof) :
    p.entries.map Prod.fst = presentationKeys := rfl

theorem goodKeys_presentationKeys : GoodKeys presentationKeys := by decide

/-- The fields of two presentations agree up to canonical equality. -/
structure PresentationEqv (R : Runtime) (p q : PresentationProof) : Prop where
  capability_id : NfcEq R p.capability_id q.capability_id
  candidate_digest : NfcEq R p.candidate_digest q.candidate_digest
  sink_id : NfcEq R p.sink_id q.sink_id
  boundary_id : NfcEq R p.boundary_id q.boundary_id
  nonce : NfcEq R p.nonce q.nonce
  presented_at_ns : p.presented_at_ns = q.presented_at_ns
  presenter_key_id : NfcEq R p.presenter_key_id q.presenter_key_id

/-- **The signature of a presentation binds every field.** -/
theorem presentationEqv_of_eqv {R : Runtime} {p q : PresentationProof}
    (h : Eqv R p.unsigned q.unsigned) : PresentationEqv R p q := by
  have hv := h.values rfl
  simp only [PresentationProof.entries, List.map_cons, List.map_nil, List.forall₂_cons,
    List.forall₂_nil_right_iff, eqv_str, eqv_int] at hv
  obtain ⟨h1, h2, h3, h4, h5, ⟨h6, -⟩, h7, -⟩ := hv
  exact ⟨h1, h2, h3, h4, h5, h6, h7⟩

/-- `Presenter` -/
structure Presenter (R : Runtime) where
  authenticator : Authenticator R

/-- `Presenter.prove` -/
def Presenter.prove {R : Runtime} (p : Presenter R) (capability_id candidate_digest sink_id
    boundary_id nonce : PyStr) (presented_at_ns : Int) : Except PyErr PresentationProof := do
  let presenter_key_id := p.authenticator.key_id
  let signature ← p.authenticator.sign (.ofEntries
    [("capability_id", .str capability_id), ("candidate_digest", .str candidate_digest),
     ("sink_id", .str sink_id), ("boundary_id", .str boundary_id), ("nonce", .str nonce),
     ("presented_at_ns", .int presented_at_ns), ("presenter_key_id", .str presenter_key_id)])
  .ok ⟨capability_id, candidate_digest, sink_id, boundary_id, nonce, presented_at_ns,
    presenter_key_id, signature⟩

/-- `PresenterVerifierRegistry` -/
structure PresenterVerifierRegistry (R : Runtime) where
  verifiers : PyDict (Authenticator R)

/-- `PresenterVerifierRegistry.verify` -/
def PresenterVerifierRegistry.verify {R : Runtime} (reg : PresenterVerifierRegistry R)
    (proof : PresentationProof) : Except PyErr Bool :=
  match reg.verifiers.lookup proof.presenter_key_id with
  | none => .ok false
  | some verifier => verifier.verify proof.unsigned proof.signature proof.presenter_key_id

end Finality
