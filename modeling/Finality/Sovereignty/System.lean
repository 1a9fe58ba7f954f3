import Finality.Core.SingleAct
import Finality.Sovereignty.Plane

/-!
# The system behind planes

The core system with every authorisation behind an authority plane: any number of planes, each in
front of the one protected authority. A call to a plane is one call of the core system or none
(`coreCall`), so a run behind planes is a run of the core system (`core_run`), and what holds
along those holds here. The other way, every authorisation of that run was admitted by a plane
(`admitted_of_coreCall`).
-/

namespace Finality

open Checks Runs

/-- The calls: a submission to a plane, or a call of the core system. -/
inductive PlaneOp (R : Runtime) where
  | authorize (plane : AuthorityPlane R) (candidate : CandidateAct) (compute : ComputeContext)
      (evidence : List JurisdictionEvidence) (approvals : List Approval) (cost now : Int)
  | core (op : Op R)

section
variable {R : Runtime}

/-- One call. -/
def planeExec (a : ProtectedAuthority R) (w : World R) : PlaneOp R → World R
  | .authorize plane candidate compute evidence approvals cost now =>
      { w with authority :=
          (plane.authorize w.authority candidate compute evidence approvals cost now).2.2 }
  | .core op => exec a w op

/-- The authority is reached through planes only. -/
def PlaneOp.Behind (a : ProtectedAuthority R) : PlaneOp R → Prop
  | .authorize plane _ _ _ _ _ _ => plane.protected_authority = a
  | .core op => ∀ c cost now, op ≠ .authorize c cost now

/-- The plane that is called requires signatures on evidence and on approvals. -/
def PlaneOp.Authenticated : PlaneOp R → Prop
  | .authorize plane _ _ _ _ _ _ =>
      plane.require_authenticated_evidence = true ∧ plane.require_authenticated_approvals = true
  | .core _ => True

/-- The call of the core system that a call stands for. -/
def PlaneOp.coreCall : PlaneOp R → Option (Op R)
  | .authorize plane candidate compute evidence approvals cost now =>
      match plane.admits candidate compute evidence approvals now with
      | .ok () => some (.authorize candidate cost now)
      | .error _ => none
  | .core op => some op

/-- A call of a run. -/
def PlaneStep (a : ProtectedAuthority R) (w : World R) (op : PlaneOp R) (w' : World R) : Prop :=
  op.Behind a ∧ (∀ o ∈ op.coreCall, Unforged w o) ∧ w' = planeExec a w op

/-- A call of a run in which nonces are not respelled. -/
def PlaneStepAgreeing (a : ProtectedAuthority R) (w : World R) (op : PlaneOp R) (w' : World R) :
    Prop :=
  PlaneStep a w op w' ∧ ∀ o ∈ op.coreCall, RespectsNonces a w o

/-! ## Refinement -/

/-- A submission stands for an authorisation when it is admitted. -/
theorem coreCall_eq_some {plane : AuthorityPlane R} {c : CandidateAct} {k : ComputeContext}
    {es : List JurisdictionEvidence} {as : List Approval} {cost now : Int} {o : Op R} :
    (PlaneOp.authorize plane c k es as cost now).coreCall = some o ↔
      plane.admits c k es as now = .ok () ∧ o = .authorize c cost now := by
  simp only [PlaneOp.coreCall]
  split
  case h_1 h => simp [h, eq_comm]
  case h_2 e h => simp [h]

/-- A submission stands for no call when it is refused. -/
theorem coreCall_eq_none {plane : AuthorityPlane R} {c : CandidateAct} {k : ComputeContext}
    {es : List JurisdictionEvidence} {as : List Approval} {cost now : Int} :
    (PlaneOp.authorize plane c k es as cost now).coreCall = none ↔
      ∃ e, plane.admits c k es as now = .error e := by
  simp only [PlaneOp.coreCall]
  split
  case h_1 h => simp [h]
  case h_2 e h => simp [h]

/-- A submission that is refused leaves the world alone. -/
theorem planeExec_of_not_admits {a : ProtectedAuthority R} {w : World R} {plane : AuthorityPlane R}
    {c : CandidateAct} {k : ComputeContext} {es : List JurisdictionEvidence} {as : List Approval}
    {cost now : Int} {e : PyErr} (hadmits : plane.admits c k es as now = .error e) :
    planeExec a w (.authorize plane c k es as cost now) = w := by
  obtain ⟨plane', h⟩ : ∃ plane', plane.authorize w.authority c k es as cost now =
    (.error e, plane', w.authority) := AuthorityPlane.authorize_of_not_admits hadmits
  rw [planeExec, h]

/-- A submission that is admitted is an authorisation. -/
theorem planeExec_of_admits {a : ProtectedAuthority R} {w : World R} {plane : AuthorityPlane R}
    (hplane : plane.protected_authority = a) {c : CandidateAct} {k : ComputeContext}
    {es : List JurisdictionEvidence} {as : List Approval} {cost now : Int}
    (hadmits : plane.admits c k es as now = .ok ()) :
    planeExec a w (.authorize plane c k es as cost now) = exec a w (.authorize c cost now) := by
  subst hplane
  obtain ⟨plane', h⟩ : ∃ plane', plane.authorize w.authority c k es as cost now =
      ((plane.protected_authority.authorize w.authority c cost now).1, plane',
        (plane.protected_authority.authorize w.authority c cost now).2) :=
    AuthorityPlane.authorize_of_admits hadmits
  rw [planeExec, h, exec]

/-- A call that stands for none leaves the world alone. -/
theorem planeStep_none {a : ProtectedAuthority R} {w w' : World R} {op : PlaneOp R}
    (h : PlaneStep a w op w') (hop : op.coreCall = none) : w' = w := by
  obtain ⟨-, -, rfl⟩ := h
  cases op with
  | core op => simp [PlaneOp.coreCall] at hop
  | authorize plane c k es as cost now =>
    obtain ⟨e, hadmits⟩ := coreCall_eq_none.1 hop
    exact planeExec_of_not_admits hadmits

/-- **A call is the core call it stands for.** -/
theorem planeStep_some {a : ProtectedAuthority R} {w w' : World R} {op : PlaneOp R} {o : Op R}
    (h : PlaneStep a w op w') (hop : op.coreCall = some o) : Step a w o w' := by
  obtain ⟨hbehind, hunf, rfl⟩ := h
  refine ⟨hunf o hop, ?_⟩
  cases op with
  | core op =>
    obtain rfl := Option.some.inj hop
    rfl
  | authorize plane c k es as cost now =>
    obtain ⟨hadmits, rfl⟩ := coreCall_eq_some.1 hop
    exact planeExec_of_admits hbehind hadmits

/-- A call that stands for a core call makes its step. -/
theorem planeStep_of_coreCall {a : ProtectedAuthority R} {w w' : World R} {op : PlaneOp R}
    {o : Op R}
    (hbehind : op.Behind a) (hop : op.coreCall = some o) (h : Step a w o w') :
    PlaneStep a w op w' := by
  have hstep : PlaneStep a w op (planeExec a w op) :=
    ⟨hbehind, fun o' ho' => by rw [hop, Option.mem_def, Option.some.injEq] at ho'; exact ho' ▸ h.1,
      rfl⟩
  rwa [h.2, ← (planeStep_some hstep hop).2]

/-- **Runs behind planes are runs of the core system.** -/
theorem core_run {a : ProtectedAuthority R} {w w' : World R} {ops : List (PlaneOp R)}
    (h : Run (PlaneStep a) w ops w') : Run (Step a) w (ops.filterMap PlaneOp.coreCall) w' :=
  h.filterMap _ (fun _ _ _ => planeStep_none) fun _ _ _ _ => planeStep_some

theorem core_run_agreeing {a : ProtectedAuthority R} {w w' : World R} {ops : List (PlaneOp R)}
    (h : Run (PlaneStepAgreeing a) w ops w') :
    Run (StepAgreeing a) w (ops.filterMap PlaneOp.coreCall) w' :=
  h.filterMap _ (fun _ _ _ hs => planeStep_none hs.1)
    fun _ _ _ o hs ho => ⟨planeStep_some hs.1 ho, hs.2 o ho⟩

/-- Callers who spell no nonce in two ways respect the nonces behind the planes too. -/
theorem plane_agreeing_of_spellsOnce {a : ProtectedAuthority R} {w₀ w : World R}
    {ops : List (PlaneOp R)} (h0 : w₀.Empty) (hrun : Run (PlaneStep a) w₀ ops w)
    (honce : SpellsOnce R (ops.filterMap PlaneOp.coreCall)) :
    Run (PlaneStepAgreeing a) w₀ ops w := by
  refine hrun.invariantTrace (fun ops w => SpellsOnce R (ops.filterMap PlaneOp.coreCall) →
    Run (PlaneStepAgreeing a) w₀ ops w) (fun _ => .nil) ?_ honce
  intro ops w op w' hrun ih hs honce
  rw [List.filterMap_append] at honce
  refine (ih honce.of_append).snoc ⟨hs, fun o ho => ?_⟩
  refine respectsNonces_of_spellsOnce h0 (core_run hrun) ?_
  rwa [List.filterMap_cons_some ho, List.filterMap_nil] at honce

/-- **An act carried through behind a plane** that admits it. -/
theorem plane_run {a : ProtectedAuthority R} {w w' : World R} {plane : AuthorityPlane R}
    (hplane : plane.protected_authority = a) {c : CandidateAct} {k : ComputeContext}
    {es : List JurisdictionEvidence} {as : List Approval} {cost now : Int}
    (hadmits : plane.admits c k es as now = .ok ()) {sink : FinalitySink R} {cap : Capability}
    {proof : Option PresentationProof}
    (h : Run (Step a) w [.authorize c cost now, .effectuate sink c cap now proof] w') :
    Run (PlaneStep a) w [.authorize plane c k es as cost now,
      .core (.effectuate sink c cap now proof)] w' := by
  obtain ⟨w₁, hs, hrest⟩ := h.cons_inv
  obtain ⟨w₂, hs', hrest'⟩ := hrest.cons_inv
  obtain rfl := run_functional hrest' .nil
  have hbehind : (PlaneOp.core (.effectuate sink c cap now proof)).Behind a := by
    rintro _ _ _ ⟨⟩
  exact .cons (planeStep_of_coreCall hplane (coreCall_eq_some.2 ⟨hadmits, rfl⟩) hs)
    (.single (planeStep_of_coreCall hbehind rfl hs'))

/-- Every call of a run is behind a plane. -/
theorem behind_of_run {a : ProtectedAuthority R} {w w' : World R} {ops : List (PlaneOp R)}
    (h : Run (PlaneStep a) w ops w') : ∀ op ∈ ops, op.Behind a := by
  refine h.invariantTrace (fun ops _ => ∀ op ∈ ops, op.Behind a) (by simp) ?_
  intro ops w op w' _ ih hs op' hmem
  rcases List.mem_append.1 hmem with hmem | hmem
  · exact ih op' hmem
  · obtain rfl := List.mem_singleton.1 hmem
    exact hs.1

/-- **An authorisation of the core system was admitted by a plane.** -/
theorem admitted_of_coreCall {a : ProtectedAuthority R} {op : PlaneOp R} {c : CandidateAct}
    {cost now : Int} (hbehind : op.Behind a) (h : op.coreCall = some (.authorize c cost now)) :
    ∃ plane k es as, op = .authorize plane c k es as cost now ∧ plane.protected_authority = a ∧
      plane.Admitted c k es as now := by
  cases op with
  | core op =>
    obtain rfl := Option.some.inj h
    exact absurd rfl (hbehind c cost now)
  | authorize plane c' k es as cost' now' =>
    obtain ⟨hadmits, hop⟩ := coreCall_eq_some.1 h
    obtain ⟨rfl, rfl, rfl⟩ := Op.authorize.inj hop
    exact ⟨plane, k, es, as, rfl, hbehind, AuthorityPlane.admits_ok.1 hadmits⟩

/-- An effect of the core system is an effect behind planes. -/
theorem eq_core_of_coreCall {op : PlaneOp R} {sink : FinalitySink R} {c : CandidateAct}
    {cap : Capability} {now : Int} {proof : Option PresentationProof}
    (h : op.coreCall = some (.effectuate sink c cap now proof)) :
    op = .core (.effectuate sink c cap now proof) := by
  cases op with
  | core op => rw [Option.some.inj h]
  | authorize plane c' k es as cost' now' =>
    obtain ⟨-, hop⟩ := coreCall_eq_some.1 h
    cases hop

end

end Finality
