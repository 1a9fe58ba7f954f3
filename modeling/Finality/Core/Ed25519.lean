import Finality.Lib.Hex
import Finality.Core.Crypto

/-!
# Public-key authenticators (`Ed25519Authenticator` of `crypto.py`)

The signature scheme is a parameter: what signing and verifying bytes compute is the library's. A
copy made by `verifier()` holds the public key only; it takes what the original takes and refuses to
sign, so it is a verifier of the original's signatures (`verifierOf_verifier`).
-/

namespace Finality

open Checks

/-- What the `cryptography` package provides: the public key of a private key, signing, and
verifying, `true` where `verify` returns and `false` where it raises. -/
structure Ed25519Scheme where
  PrivateKey : Type
  PublicKey : Type
  public_key : PrivateKey → PublicKey
  sign : PrivateKey → List UInt8 → List UInt8
  verify : PublicKey → List UInt8 → List UInt8 → Bool

/-- A signature is accepted under the public key of the key that made it. -/
def Ed25519Scheme.AcceptsOwn (S : Ed25519Scheme) : Prop :=
  ∀ sk data, S.verify (S.public_key sk) (S.sign sk data) data = true

/-- `Ed25519Authenticator` -/
structure Ed25519Authenticator (S : Ed25519Scheme) where
  key_id : PyStr
  private_key : Option S.PrivateKey
  public_key : S.PublicKey

namespace Ed25519Authenticator

/-- `bytes.fromhex(signature)` -/
def fromHex (signature : PyStr) : Option (List UInt8) :=
  Hex.readSpaced? (signature.map Fin.val)

/-- What a copy without the private key raises when it is to sign. -/
def verifierOnly : PyErr :=
  .runtimeError (py "verifier-only Ed25519Authenticator cannot sign")

section
variable {S : Ed25519Scheme} (R : Runtime) (e : Ed25519Authenticator S)

/-- `Ed25519Authenticator(key_id=..., private_key=..., public_key=...)`; `generated` is the key that
`Ed25519PrivateKey.generate()` would return. -/
def init (generated : S.PrivateKey) (key_id : PyStr) :
    Option S.PrivateKey → Option S.PublicKey → Ed25519Authenticator S
  | private_key, some public_key => ⟨key_id, private_key, public_key⟩
  | some private_key, none => ⟨key_id, some private_key, S.public_key private_key⟩
  | none, none => ⟨key_id, some generated, S.public_key generated⟩

/-- `Ed25519Authenticator.generate` -/
def generate (generated : S.PrivateKey) (key_id : PyStr) : Ed25519Authenticator S :=
  init generated key_id none none

/-- `Ed25519Authenticator.verifier` -/
def verifier : Ed25519Authenticator S :=
  ⟨e.key_id, none, e.public_key⟩

/-- `Ed25519Authenticator.sign` -/
def sign (value : PyVal) : Except PyErr PyStr :=
  match e.private_key with
  | none => .error verifierOnly
  | some private_key =>
    (canonicalBytes R value).map fun data => ofText (Hex.encode (S.sign private_key data))

/-- `Ed25519Authenticator.verify`, where every exception is an answer. -/
def verify (value : PyVal) (signature key_id : PyStr) : Except PyErr Bool :=
  if key_id ≠ e.key_id then .ok false
  else
    match fromHex signature, canonicalBytes R value with
    | some raw, .ok data => .ok (S.verify e.public_key raw data)
    | _, _ => .ok false

end

variable {S : Ed25519Scheme} {R : Runtime} {e : Ed25519Authenticator S}

/-- **What is accepted**: under the authenticator's key id, hexadecimal text of bytes that the
scheme accepts for the canonical bytes of the value. -/
theorem verify_eq_true {v : PyVal} {s k : PyStr} :
    e.verify R v s k = .ok true ↔ k = e.key_id ∧ ∃ raw data, fromHex s = some raw ∧
      canonicalBytes R v = .ok data ∧ S.verify e.public_key raw data = true := by
  unfold verify
  by_cases hk : k = e.key_id
  · rw [if_neg (not_not.2 hk)]
    cases fromHex s <;> cases canonicalBytes R v <;> simp [hk]
  · simp [hk]

/-- `verify` raises nothing. -/
theorem exists_verify (v : PyVal) (s k : PyStr) : ∃ b, e.verify R v s k = .ok b := by
  unfold verify
  split
  · exact ⟨_, rfl⟩
  · split
    · exact ⟨_, rfl⟩
    · exact ⟨_, rfl⟩

/-- The text of a signature is read back. -/
theorem fromHex_encode (raw : List UInt8) : fromHex (ofText (Hex.encode raw)) = some raw := by
  have hcodes : (ofText (Hex.encode raw)).map Fin.val = Hex.codes (Hex.encode raw) := by
    simp [ofText, Hex.codes, Function.comp_def]
  rw [fromHex, hcodes]
  exact Hex.readSpaced?_of_read? (Hex.read?_encode raw)

variable (R e) in
/-- The public-key authenticator as an authenticator. -/
def toAuthenticator : Authenticator R where
  key_id := e.key_id
  sign := e.sign R
  verify := e.verify R
  canon_of_verify := by
    intro v s k h
    obtain ⟨-, -, data, -, hdata, -⟩ := verify_eq_true.1 h
    exact canon_iff_canonicalBytes.2 ⟨data, hdata⟩

/-- With a private key every value with canonical bytes is signed. -/
theorem signsCanon (h : e.private_key.isSome = true) : (e.toAuthenticator R).SignsCanon := by
  intro v hv
  obtain ⟨sk, hsk⟩ := Option.isSome_iff_exists.1 h
  obtain ⟨data, hdata⟩ := canon_iff_canonicalBytes.1 hv
  refine ⟨ofText (Hex.encode (S.sign sk data)), ?_⟩
  change e.sign R v = _
  rw [sign, hsk]
  exact map_eq_ok.2 ⟨data, hdata, rfl⟩

/-- A generated authenticator accepts what it signs. -/
theorem acceptsOwn (hS : S.AcceptsOwn) (generated : S.PrivateKey) (key_id : PyStr) :
    ((generate generated key_id).toAuthenticator R).AcceptsOwn := by
  intro v s h
  obtain ⟨data, hdata, rfl⟩ := map_eq_ok.1 h
  exact verify_eq_true.2 ⟨rfl, _, data, fromHex_encode _, hdata, hS generated data⟩

/-- A copy accepts exactly what the original accepts. -/
theorem verify_verifier : e.verifier.verify R = e.verify R := rfl

/-- A copy verifies the signatures of the original. -/
theorem verifierOf_verifier :
    (e.verifier.toAuthenticator R).VerifierOf (e.toAuthenticator R) := ⟨rfl, rfl⟩

/-- A copy signs nothing. -/
theorem sign_verifier (v : PyVal) : e.verifier.sign R v = .error verifierOnly := rfl

end Ed25519Authenticator

end Finality
