import Finality.Sovereignty.Plane
import Finality.Threads.Soundness

/-!
# Submissions to planes, step by step

A call of `AuthorityPlane.authorize` checks the signatures one by one, lets the policy decide,
records the decision in `last_decision`, and hands the candidate on. Other submissions to the same
plane, additions to its registries and everything the threads behind it do may come between any two
of these steps: in particular `last_decision` may by then be the decision on another submission.
The decision a call acts on is its own.

Taken in a row the steps of a submission and of the authorisation behind it are
`AuthorityPlane.authorize` (`run_authorize`).
-/

namespace Finality

open Checks ProtectedState ProtectedAuthority FinalitySink Runs

/-- The registries of a plane. -/
inductive Registry
  | jurisdiction_evidence
  | approval
  deriving DecidableEq

namespace AuthorityPlane

variable {R : Runtime} (plane : AuthorityPlane R)

/-- The verifiers in a registry of the plane. -/
def registry : Registry → Option (PrincipalVerifierRegistry R)
  | .jurisdiction_evidence => plane.jurisdiction_evidence_verifiers
  | .approval => plane.approval_verifiers

/-- `PrincipalVerifierRegistry.add`, on a registry that the plane has. -/
def addVerifier (registry : Registry) (principal_id : PyStr) (verifier : Authenticator R) :
    AuthorityPlane R :=
  match registry with
  | .jurisdiction_evidence =>
      { plane with jurisdiction_evidence_verifiers :=
          plane.jurisdiction_evidence_verifiers.map (·.add principal_id verifier) }
  | .approval =>
      { plane with
        approval_verifiers := plane.approval_verifiers.map (·.add principal_id verifier) }

variable {plane}

/-- A loop over signatures is two loops over its parts. -/
theorem authenticate_append {α : Type} {verifiers : Option (PrincipalVerifierRegistry R)}
    {missing invalid : String} {principal : α → PyStr} {unsigned : α → PyVal}
    {signature key_id : α → PyStr} (xs ys : List α) :
    authenticate verifiers missing invalid principal unsigned signature key_id (xs ++ ys) =
      authenticate verifiers missing invalid principal unsigned signature key_id xs >>= fun _ =>
        authenticate verifiers missing invalid principal unsigned signature key_id ys := by
  cases verifiers with
  | none => rfl
  | some reg => exact List.forM_append

theorem authenticateEvidence_append (xs ys : List JurisdictionEvidence) :
    plane.authenticateEvidence (xs ++ ys) =
      plane.authenticateEvidence xs >>= fun _ => plane.authenticateEvidence ys := by
  unfold authenticateEvidence checkWhen
  split
  · exact authenticate_append xs ys
  · rfl

theorem authenticateApprovals_append (xs ys : List Approval) :
    plane.authenticateApprovals (xs ++ ys) =
      plane.authenticateApprovals xs >>= fun _ => plane.authenticateApprovals ys := by
  unfold authenticateApprovals checkWhen
  split
  · exact authenticate_append xs ys
  · rfl

end AuthorityPlane

namespace PlaneThreads

/-- Where a submission stands: before its first check, in one of the two loops over signatures with
the items that are left, with its decision, with the decision recorded, handed on as the
authorisation `i`, or refused. -/
inductive Phase
  | submitted
  | evidence (rest : List JurisdictionEvidence)
  | approvals (rest : List Approval)
  | decided (decision : GovernanceDecision)
  | recorded (decision : GovernanceDecision)
  | delegated (i : Nat)
  | refused (e : PyErr)

/-- A call of `AuthorityPlane.authorize` in progress, on the plane of that number. -/
structure Call where
  plane : Nat
  candidate : CandidateAct
  compute : ComputeContext
  evidence : List JurisdictionEvidence
  approvals : List Approval
  cost : Int
  now : Int
  phase : Phase

section
variable (R : Runtime)

/-- The planes, the submissions to them in the order they came, and the threads behind. -/
structure State where
  threads : Threads.State R
  planes : List (AuthorityPlane R)
  submissions : List Call

/-- What the scheduler and the environment choose. -/
inductive Act where
  | submit (plane : Nat) (candidate : CandidateAct) (compute : ComputeContext)
      (evidence : List JurisdictionEvidence) (approvals : List Approval) (cost now : Int)
  | check (m : Nat)
  | delegate (m : Nat)
  | add (plane : Nat) (registry : Registry) (principal_id : PyStr) (verifier : Authenticator R)
  | thread (act : Threads.Act R)

end

section
variable {R : Runtime}

/-- The phase after a check. -/
def Phase.after (check : Except PyErr Unit) (p : Phase) : Phase :=
  match check with
  | .error e => .refused e
  | .ok () => p

/-- The next step of a submission, short of handing it on: its new phase and the plane after it. -/
def Call.next (k : Call) (plane : AuthorityPlane R) :
    Option (Phase × AuthorityPlane R) :=
  match k.phase with
  -- the registry is asked for before the first item
  | .submitted => some (.after (plane.authenticateEvidence []) (.evidence k.evidence), plane)
  | .evidence (item :: rest) =>
      some (.after (plane.authenticateEvidence [item]) (.evidence rest), plane)
  | .evidence [] => some (.after (plane.authenticateApprovals []) (.approvals k.approvals), plane)
  | .approvals (item :: rest) =>
      some (.after (plane.authenticateApprovals [item]) (.approvals rest), plane)
  | .approvals [] =>
      match plane.policy.validate R k.candidate k.compute k.evidence k.approvals k.now with
      | .error e => some (.refused e, plane)
      | .ok decision => some (.decided decision, plane)
  | .decided decision =>
      some (.recorded decision, { plane with last_decision := some decision })
  | .recorded decision =>
      match AuthorityPlane.checkDecision k.candidate k.compute decision with
      | .error e => some (.refused e, plane)
      | .ok () => none
  | .delegated _ | .refused _ => none

/-- One step of the planes and of the threads behind them. -/
inductive Step (a : ProtectedAuthority R) : State R → Act R → State R → Prop
  | submit {s p plane candidate compute evidence approvals cost now}
      (hp : s.planes[p]? = some plane) :
      Step a s (.submit p candidate compute evidence approvals cost now)
        { s with submissions := s.submissions ++
            [⟨p, candidate, compute, evidence, approvals, cost, now, .submitted⟩] }
  | check {s m k plane p plane'} (hm : s.submissions[m]? = some k)
      (hp : s.planes[k.plane]? = some plane) (h : k.next plane = some (p, plane')) :
      Step a s (.check m)
        { s with
          planes := s.planes.set k.plane plane'
          submissions := s.submissions.set m { k with phase := p } }
  | delegate {s m k decision} (hm : s.submissions[m]? = some k)
      (hk : k.phase = .recorded decision)
      (h : AuthorityPlane.checkDecision k.candidate k.compute decision = .ok ()) :
      Step a s (.delegate m)
        { s with
          threads.authorizations :=
            s.threads.authorizations ++ [⟨k.candidate, k.cost, k.now, .started⟩]
          submissions := s.submissions.set m
            { k with phase := .delegated s.threads.authorizations.length } }
  | add {s p plane registry principal_id verifier} (hp : s.planes[p]? = some plane) :
      Step a s (.add p registry principal_id verifier)
        { s with planes := s.planes.set p (plane.addVerifier registry principal_id verifier) }
  | thread {s act threads} (hact : ∀ c cost now, act ≠ .authorize c cost now)
      (h : Threads.Step a s.threads act threads) :
      Step a s (.thread act) { s with threads := threads }

/-- Nothing has happened yet, and every plane stands in front of the authority. -/
structure State.Empty (a : ProtectedAuthority R) (s : State R) : Prop where
  threads : s.threads.Empty
  submissions : s.submissions = []
  front : ∀ plane ∈ s.planes, plane.protected_authority = a ∧ plane.last_decision = none

/-- What the submission `m` has returned or raised. -/
def State.result (s : State R) (m : Nat) : Option (Except PyErr Capability) :=
  match (s.submissions[m]?).map Call.phase with
  | some (.refused e) => some (.error e)
  | some (.delegated i) => (s.threads.authorizations[i]?).bind fun k => k.phase.result
  | _ => none

/-! ## What a step of a submission does -/

/-- The submission `k` to `plane` moves to a phase and leaves the plane. -/
inductive Moves (k : Call) (plane : AuthorityPlane R) : Phase → AuthorityPlane R → Prop
  | refused {e} : Moves k plane (.refused e) plane
  | evidence (hp : k.phase = .submitted) : Moves k plane (.evidence k.evidence) plane
  | item {item rest} (hp : k.phase = .evidence (item :: rest))
      (h : plane.authenticateEvidence [item] = .ok ()) : Moves k plane (.evidence rest) plane
  | approvals (hp : k.phase = .evidence []) : Moves k plane (.approvals k.approvals) plane
  | approval {item rest} (hp : k.phase = .approvals (item :: rest))
      (h : plane.authenticateApprovals [item] = .ok ()) : Moves k plane (.approvals rest) plane
  | decided {d} (hp : k.phase = .approvals [])
      (h : plane.policy.validate R k.candidate k.compute k.evidence k.approvals k.now = .ok d) :
      Moves k plane (.decided d) plane
  | recorded {d} (hp : k.phase = .decided d) :
      Moves k plane (.recorded d) { plane with last_decision := some d }

/-- **What one step of a submission does.** -/
theorem moves {k : Call} {plane plane' : AuthorityPlane R} {p : Phase}
    (h : k.next plane = some (p, plane')) : Moves k plane p plane' := by
  have hafter : ∀ {check : Except PyErr Unit} {q : Phase},
      (check = .ok () → Moves k plane q plane) → Moves k plane (.after check q) plane := by
    intro check q hq
    cases check with
    | error e => exact .refused
    | ok _ => exact hq rfl
  unfold Call.next at h
  split at h
  case h_1 hp =>
    obtain ⟨rfl, rfl⟩ := Prod.mk.inj (Option.some.inj h)
    exact hafter fun _ => .evidence hp
  case h_2 item rest hp =>
    obtain ⟨rfl, rfl⟩ := Prod.mk.inj (Option.some.inj h)
    exact hafter fun h => .item hp h
  case h_3 hp =>
    obtain ⟨rfl, rfl⟩ := Prod.mk.inj (Option.some.inj h)
    exact hafter fun _ => .approvals hp
  case h_4 item rest hp =>
    obtain ⟨rfl, rfl⟩ := Prod.mk.inj (Option.some.inj h)
    exact hafter fun h => .approval hp h
  case h_5 hp =>
    split at h
    · obtain ⟨rfl, rfl⟩ := Prod.mk.inj (Option.some.inj h)
      exact .refused
    · rename_i hval
      obtain ⟨rfl, rfl⟩ := Prod.mk.inj (Option.some.inj h)
      exact .decided hp hval
  case h_6 d hp =>
    obtain ⟨rfl, rfl⟩ := Prod.mk.inj (Option.some.inj h)
    exact .recorded hp
  case h_7 d hp =>
    split at h
    · obtain ⟨rfl, rfl⟩ := Prod.mk.inj (Option.some.inj h)
      exact .refused
    · cases h
  case h_8 | h_9 => cases h

/-! ## The threads behind the planes -/

/-- **The threads behind the planes run as threads do.** -/
theorem exists_threads {a : ProtectedAuthority R} {s₀ s : State R} {acts : List (Act R)}
    (hrun : Run (Step a) s₀ acts s) : ∃ acts', Run (Threads.Step a) s₀.threads acts' s.threads := by
  refine hrun.invariant (fun s => ∃ acts', Run (Threads.Step a) s₀.threads acts' s.threads)
    ⟨[], .nil⟩ ?_
  rintro s act s' ⟨acts', hrun'⟩ hs
  cases hs with
  | submit | check | add => exact ⟨acts', hrun'⟩
  | delegate => exact ⟨_, hrun'.snoc .authorize⟩
  | thread hact h => exact ⟨_, hrun'.snoc h⟩

/-- Steps of the threads that start no authorisation are steps here. -/
theorem run_thread {a : ProtectedAuthority R} {s : State R} {t : Threads.State R}
    {acts : List (Threads.Act R)} (hrun : Run (Threads.Step a) s.threads acts t)
    (hacts : ∀ act ∈ acts, ∀ c cost now, act ≠ .authorize c cost now) :
    Run (Step a) s (acts.map .thread) { s with threads := t } := by
  induction hrun with
  | nil => exact .nil
  | @snoc acts t act t' _ hs ih =>
    rw [List.map_append]
    exact (ih fun act' h => hacts act' (List.mem_append_left _ h)).snoc
      (.thread (hacts act (by simp)) hs)

/-! ## A submission with no other in between -/

/-- A submission and its plane, after one more step. -/
def Next (x y : Call × AuthorityPlane R) : Prop :=
  ∃ p, x.1.next x.2 = some (p, y.2) ∧ y.1 = { x.1 with phase := p }

theorem next_of_eq {k : Call} {plane plane' : AuthorityPlane R} {p : Phase}
    (h : k.next plane = some (p, plane')) : Next (k, plane) ({ k with phase := p }, plane') :=
  ⟨p, h, rfl⟩

/-- The steps of a submission in a row are steps of the system. -/
theorem exists_run_check {a : ProtectedAuthority R} {s : State R} {m : Nat}
    {x y : Call × AuthorityPlane R} (hm : s.submissions[m]? = some x.1)
    (hp : s.planes[x.1.plane]? = some x.2) (h : Relation.ReflTransGen Next x y) :
    ∃ n, Run (Step a) s (.replicate n (.check m))
      { s with planes := s.planes.set x.1.plane y.2, submissions := s.submissions.set m y.1 } ∧
      y.1.plane = x.1.plane := by
  have hm' := (List.getElem?_eq_some_iff.1 hm).1
  have hp' := (List.getElem?_eq_some_iff.1 hp).1
  induction h with
  | refl =>
    refine ⟨0, ?_, rfl⟩
    rw [Threads.set_eq_of_getElem? hm, Threads.set_eq_of_getElem? hp]
    exact .nil
  | @tail y z _ hz ih =>
    obtain ⟨n, hrun, hplane⟩ := ih
    obtain ⟨p, hnext, hz⟩ := hz
    have hstep : Step a
        { s with planes := s.planes.set x.1.plane y.2, submissions := s.submissions.set m y.1 }
        (.check m) _ :=
      .check (List.getElem?_set_self hm')
        (hplane.symm ▸ List.getElem?_set_self hp') hnext
    refine ⟨n + 1, ?_, by rw [hz]; exact hplane⟩
    rw [List.replicate_succ']
    refine hrun.snoc ?_
    rw [hz]
    simpa only [List.set_set, hplane] using hstep

/-- The loop over the evidence in a row. -/
theorem next_evidence {k : Call} {plane : AuthorityPlane R}
    (hnil : plane.authenticateEvidence [] = .ok ()) (items : List JurisdictionEvidence) :
    Relation.ReflTransGen Next ({ k with phase := .evidence items }, plane)
      ({ k with phase := .after (plane.authenticateEvidence items) (.evidence []) }, plane) := by
  induction items with
  | nil =>
    rw [hnil]
    exact .refl
  | cons item rest ih =>
    refine .head (next_of_eq rfl) ?_
    rw [← List.singleton_append, AuthorityPlane.authenticateEvidence_append]
    cases plane.authenticateEvidence [item] with
    | error e => exact .refl
    | ok _ => exact ih

/-- The loop over the approvals in a row. -/
theorem next_approvals {k : Call} {plane : AuthorityPlane R}
    (hnil : plane.authenticateApprovals [] = .ok ()) (items : List Approval) :
    Relation.ReflTransGen Next ({ k with phase := .approvals items }, plane)
      ({ k with phase := .after (plane.authenticateApprovals items) (.approvals []) }, plane) := by
  induction items with
  | nil =>
    rw [hnil]
    exact .refl
  | cons item rest ih =>
    refine .head (next_of_eq rfl) ?_
    rw [← List.singleton_append, AuthorityPlane.authenticateApprovals_append]
    cases plane.authenticateApprovals [item] with
    | error e => exact .refl
    | ok _ => exact ih

/-- The submission and its plane once the plane has decided. -/
def Call.decidedAs (k : Call) (plane : AuthorityPlane R) :
    Except PyErr GovernanceDecision → Call × AuthorityPlane R
  | .error e => ({ k with phase := .refused e }, plane)
  | .ok d => ({ k with phase := .recorded d }, { plane with last_decision := some d })

/-- **The checks in a row** end as `decide` does, with the decision recorded. -/
theorem next_decide {k : Call} (hk : k.phase = .submitted) (plane : AuthorityPlane R) :
    Relation.ReflTransGen Next (k, plane) (k.decidedAs plane
      (plane.decide k.candidate k.compute k.evidence k.approvals k.now)) := by
  -- each loop begins with the registry
  have hev := plane.authenticateEvidence_append [] k.evidence
  have hap := plane.authenticateApprovals_append [] k.approvals
  rw [List.nil_append] at hev hap
  have hstart : Relation.ReflTransGen Next (k, plane)
      ({ k with phase := .after (plane.authenticateEvidence []) (.evidence k.evidence) }, plane) :=
    .single (next_of_eq (by simp only [Call.next, hk]))
  unfold AuthorityPlane.decide
  cases hes : plane.authenticateEvidence [] with
  | error e =>
    rw [hes] at hstart hev
    rw [hev]
    exact hstart
  | ok _ =>
  rw [hes] at hstart
  replace hstart := hstart.trans (next_evidence hes k.evidence)
  cases hes' : plane.authenticateEvidence k.evidence with
  | error e =>
    rw [hes'] at hstart
    exact hstart
  | ok _ =>
  rw [hes'] at hstart
  replace hstart := hstart.tail (next_of_eq rfl)
  cases has : plane.authenticateApprovals [] with
  | error e =>
    rw [has] at hstart hap
    rw [hap]
    exact hstart
  | ok _ =>
  rw [has] at hstart
  replace hstart := hstart.trans (next_approvals has k.approvals)
  cases has' : plane.authenticateApprovals k.approvals with
  | error e =>
    rw [has'] at hstart
    exact hstart
  | ok _ =>
  rw [has'] at hstart
  cases hval : plane.policy.validate R k.candidate k.compute k.evidence k.approvals k.now with
  | error e => exact hstart.tail (next_of_eq (by simp only [Call.next, Phase.after, hval]))
  | ok d =>
    have hdecided : Next ({ k with phase := .approvals [] }, plane)
        ({ k with phase := .decided d }, plane) :=
      next_of_eq (by simp only [Call.next, hval])
    exact (hstart.tail hdecided).tail (next_of_eq rfl)

/-- A submission with its decision recorded, and no other from there on. -/
theorem run_recorded {a : ProtectedAuthority R} {s : State R} {m : Nat} {k : Call}
    {plane : AuthorityPlane R} {d : GovernanceDecision} (hm : s.submissions[m]? = some k)
    (hp : s.planes[k.plane]? = some plane) (hk : k.phase = .recorded d)
    {r : Except PyErr Capability} {authority : AuthorityStores R}
    (h : (r, authority) = match AuthorityPlane.checkDecision k.candidate k.compute d with
      | .error e => (.error e, s.threads.authority)
      | .ok () => a.authorize s.threads.authority k.candidate k.cost k.now) :
    ∃ acts s', Run (Step a) s acts s' ∧ s'.result m = some r ∧ s'.planes = s.planes ∧
      s'.threads.authority = authority ∧ s'.threads.effects = s.threads.effects := by
  have hlt := (List.getElem?_eq_some_iff.1 hm).1
  cases hcheck : AuthorityPlane.checkDecision k.candidate k.compute d with
  | error e =>
    rw [hcheck] at h
    obtain ⟨rfl, rfl⟩ := Prod.mk.inj h
    have hnext : k.next plane = some (.refused e, plane) := by
      simp only [Call.next, hk, hcheck]
    refine ⟨_, _, .single (.check hm hp hnext), ?_, Threads.set_eq_of_getElem? hp, rfl, rfl⟩
    simp [State.result, hlt]
  | ok _ =>
    replace h : (r, authority) = a.authorize s.threads.authority k.candidate k.cost k.now := by
      rw [hcheck] at h
      exact h
    have hdelegate : Step a s (.delegate m) _ := .delegate hm hk hcheck
    obtain ⟨n, t, hrun, hworld, q, hq, hresult⟩ :=
      Threads.run_authorize a s.threads k.candidate k.cost k.now
    obtain ⟨t₁, hstart, hrest⟩ := hrun.cons_inv
    cases hstart
    have hthreads := run_thread (s := { s with
      threads := _
      submissions := s.submissions.set m
        { k with phase := .delegated s.threads.authorizations.length } }) hrest (by
          intro act hact c cost now
          rw [(List.mem_replicate.1 hact).2]
          rintro ⟨⟩)
    refine ⟨_, _, .cons hdelegate hthreads, ?_, rfl, ?_, congrArg World.effects hworld⟩
    · simp [State.result, hlt, hq, hresult, ← h]
    · have hauthority : t.authority =
          (a.authorize s.threads.authority k.candidate k.cost k.now).2 :=
        congrArg World.authority hworld
      rw [hauthority, ← h]

/-- **A submission with no other in between** is a call of `AuthorityPlane.authorize`: the steps of
the submission, the authorisation it is handed on as, and what they leave behind. -/
theorem run_authorize {a : ProtectedAuthority R} {s : State R} {p : Nat} {plane : AuthorityPlane R}
    (hp : s.planes[p]? = some plane) (hplane : plane.protected_authority = a) (c : CandidateAct)
    (compute : ComputeContext) (evidence : List JurisdictionEvidence) (approvals : List Approval)
    (cost now : Int) :
    ∃ acts s', Run (Step a) s (.submit p c compute evidence approvals cost now :: acts) s' ∧
      s'.result s.submissions.length =
        some (plane.authorize s.threads.authority c compute evidence approvals cost now).1 ∧
      s'.planes = s.planes.set p
        (plane.authorize s.threads.authority c compute evidence approvals cost now).2.1 ∧
      s'.threads.authority =
        (plane.authorize s.threads.authority c compute evidence approvals cost now).2.2 ∧
      s'.threads.effects = s.threads.effects := by
  let k : Call := ⟨p, c, compute, evidence, approvals, cost, now, .submitted⟩
  let s₁ : State R := { s with submissions := s.submissions ++ [k] }
  have hstart : Step a s (.submit p c compute evidence approvals cost now) s₁ := .submit hp
  have hm : s₁.submissions[s.submissions.length]? = some k := List.getElem?_concat_length
  obtain ⟨n, hrun, -⟩ := exists_run_check (a := a) hm hp (next_decide (k := k) rfl plane)
  have hd : plane.decide k.candidate k.compute k.evidence k.approvals k.now =
    plane.decide c compute evidence approvals now := rfl
  rw [hd] at hrun
  unfold AuthorityPlane.authorize
  cases hd : plane.decide c compute evidence approvals now with
  | error e =>
    rw [hd] at hrun
    refine ⟨_, _, .cons hstart hrun, ?_, rfl, rfl, rfl⟩
    simp [State.result, s₁, Call.decidedAs]
  | ok d =>
    rw [hd] at hrun
    have hm' := (List.getElem?_eq_some_iff.1 hm).1
    have hp' := (List.getElem?_eq_some_iff.1 hp).1
    obtain ⟨r, authority, h⟩ : ∃ r authority, (r, authority) =
        match AuthorityPlane.checkDecision c compute d with
        | .error e => (.error e, s.threads.authority)
        | .ok () => a.authorize s.threads.authority c cost now := ⟨_, _, rfl⟩
    obtain ⟨acts, s', hrun', hresult, hplanes, hauth, heff⟩ := run_recorded (a := a)
      (s := { s₁ with
        planes := s₁.planes.set p { plane with last_decision := some d }
        submissions := s₁.submissions.set s.submissions.length { k with phase := .recorded d } })
      (k := { k with phase := .recorded d })
      (List.getElem?_set_self hm') (List.getElem?_set_self hp') rfl h
    subst hplane
    refine ⟨_, s', .cons hstart (hrun.append hrun'), ?_⟩
    dsimp only
    cases hcheck : AuthorityPlane.checkDecision c compute d with
    | error e =>
      rw [hcheck] at h
      obtain ⟨rfl, rfl⟩ := Prod.mk.inj h
      exact ⟨hresult, hplanes, hauth, heff⟩
    | ok _ =>
      replace h : (r, authority) =
          plane.protected_authority.authorize s.threads.authority c cost now := by
        rw [hcheck] at h
        exact h
      refine ⟨?_, hplanes, ?_, heff⟩
      · rw [hresult, ← h]
      · rw [hauth, ← h]

/-- **An act carried through behind a plane** that admits it, with no other in between. -/
theorem run_authorize_effectuate {a : ProtectedAuthority R} {s : State R} {p : Nat}
    {plane : AuthorityPlane R} (hp : s.planes[p]? = some plane)
    (hplane : plane.protected_authority = a) {c : CandidateAct} {compute : ComputeContext}
    {evidence : List JurisdictionEvidence} {approvals : List Approval} {cost now : Int}
    (hadmits : plane.admits c compute evidence approvals now = .ok ())
    (hev : Threads.EvidenceSigned s.threads.world) {sink : FinalitySink R} {cap : Capability}
    {t : Int} {proof : Option PresentationProof} {w : World R}
    (h : Run (Finality.Step a) s.threads.world
      [.authorize c cost now, .effectuate sink c cap t proof] w) :
    ∃ acts s', Run (Step a) s acts s' ∧ s'.threads.world = w := by
  obtain ⟨w₁, ⟨-, hw₁⟩, hrest⟩ := h.cons_inv
  obtain ⟨w₂, ⟨hunf, hw₂⟩, hnil⟩ := hrest.cons_inv
  obtain rfl := hnil.eq_of_nil
  obtain ⟨acts, s₁, hrun, -, -, hauth, heff⟩ :=
    run_authorize hp hplane c compute evidence approvals cost now
  obtain ⟨plane', hauthorize⟩ : ∃ plane',
      plane.authorize s.threads.authority c compute evidence approvals cost now =
        ((plane.protected_authority.authorize s.threads.authority c cost now).1, plane',
          (plane.protected_authority.authorize s.threads.authority c cost now).2) :=
    AuthorityPlane.authorize_of_admits hadmits
  rw [hauthorize, hplane] at hauth
  have hworld : s₁.threads.world = w₁ := by
    rw [hw₁, Threads.State.world, hauth, heff]
    rfl
  have hev₁ : Threads.EvidenceSigned s₁.threads.world := by
    rw [hworld, hw₁]
    exact Threads.evidenceSigned_exec hev _
  rw [← hworld] at hunf hw₂
  obtain ⟨m, t', hrun', hworld'⟩ := Threads.run_effectuate a s₁.threads sink c cap t proof
    (Threads.unforged_of_signed hev₁ hunf)
  refine ⟨_, _, hrun.append (run_thread hrun' ?_), hworld'.trans hw₂.symm⟩
  intro act hact c cost now
  simp only [List.mem_cons, List.mem_replicate] at hact
  rcases hact with rfl | rfl | ⟨-, rfl⟩ <;> rintro ⟨⟩

end

end PlaneThreads

end Finality
