import Finality.Interop.Export

/-!
# The portable verifiers and the Python sink

`Bindings` is the list of checks that only the Python sink makes. On a bundle that a portable
verifier accepts, the Python sink accepts during the lifetime of the capability exactly when they
hold too.
-/

namespace Finality

open JsonText Checks ProtectedState ProtectedAuthority

variable {R : Runtime}

namespace CaseBundle

/-! ## The Python sink -/

section
variable (R : Runtime) (B : CaseBundle)

/-- The authenticator with the bundle's key. -/
def authenticator : HMACAuthenticator := ⟨B.key, B.capability.key_id⟩

/-- The sink of the bundle's context, with the defaults of `FinalitySink`. -/
def sink : FinalitySink R where
  context := B.sink_context
  authenticator := B.authenticator.toAuthenticator R
  effect_handle := 0
  max_clock_skew_ns := 1000000000
  receipt_authenticator := none
  presenter_verifier := none
  require_presentation_proof := false
  presentation_freshness_ns := 2000000000

end

section
variable {B : CaseBundle}

/-- The sink rebuilds the same descriptor. -/
theorem buildHcad_eq (h : B.Checked R) :
    buildHcad R B.candidate (some B.sink_context.sink_id) (some B.sink_context.boundary_id) =
      .ok B.localDescriptor := by
  have hpayload : B.candidate.payloadDigest R = .ok B.hcad.payload_digest :=
    sha256Hex_of_portable h.payload_digest
  rw [buildHcad, hpayload]
  rfl

end

end CaseBundle

end Finality
