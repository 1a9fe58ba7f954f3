import Finality.Lib.Pointwise
import Finality.Sovereignty.Tightening
import Finality.Threads.Governed

/-!
# Tightening a deployment

What a deployment does under tighter policies it can do under looser ones: every run behind
planes, and an authority, that ask for more is matched by a run behind those that ask for less,
with the same protected state, evidence, signatures, calls of the sinks and effects
(`tightening_safe`). So no effect is gained by asking for more.

The looser run takes the same steps, except those of a call from the moment the tighter deployment
turns it down: there it is left where it stands and never scheduled again (`Follows`).
-/

namespace Finality

open Checks Runs

namespace Threads

section
variable {R : Runtime} {a b : ProtectedAuthority R} {s s' t : State R}

/-- The call `k'` is where `k` is, or was left at its start when `k` was turned down. -/
def Follows (k k' : Call) : Prop :=
  k' = k ∨ (∃ e, k.phase = .raised e) ∧ k' = { k with phase := .started }

/-- A step under a tighter policy is the same step, or turns the call down at its start. -/
theorem next_tightens (hab : a.Tightens b) {k : Call} {stores stores' : AuthorityStores R}
    {p : Phase} (h : k.next a stores = some (p, stores')) :
    k.next b stores = some (p, stores') ∨
      (∃ e, p = .raised e) ∧ k.phase = .started ∧ stores' = stores := by
  obtain ⟨authority_id, policy, authenticator, capability_ttl_ns⟩ := a
  obtain ⟨rfl, hpolicy, rfl, rfl⟩ := hab
  cases hp : k.phase with
  | started =>
    simp only [Call.next, hp] at h ⊢
    split at h
    · obtain ⟨rfl, rfl⟩ := Prod.mk.inj (Option.some.inj h)
      exact .inr ⟨⟨_, rfl⟩, trivial, rfl⟩
    · rename_i hd
      split at h
      · obtain ⟨rfl, rfl⟩ := Prod.mk.inj (Option.some.inj h)
        exact .inr ⟨⟨_, rfl⟩, trivial, rfl⟩
      · rename_i hv
        have hallow : b.policy.Allows k.candidate k.now :=
          hpolicy.allows (by rw [Policy.Allows, hv])
        obtain ⟨reasons, hv'⟩ := hallow.validate
        left
        rw [hv']
        exact h
  | validated | granted | signed | checked | committed =>
    left
    simp only [Call.next, hp] at h ⊢
    exact h
  | returned | raised =>
    simp only [Call.next, hp] at h
    cases h

/-- The state `t` of the looser deployment follows the state `s` of the tighter one. -/
structure Matches (s t : State R) : Prop where
  authority : t.authority = s.authority
  effects : t.effects = s.effects
  effectuations : t.effectuations = s.effectuations
  authorizations : List.Forall₂ Follows s.authorizations t.authorizations

/-- **A step of the threads** is followed by the same step or by none. -/
theorem Matches.step (hab : a.Tightens b) (h : Matches s t) {act : Act R} (hs : Step a s act s') :
    ∃ acts t', Run (Step b) t acts t' ∧ Matches s' t' ∧ ∀ x ∈ acts, x = act := by
  obtain ⟨authority, effects, authorizations, effectuations, log⟩ := t
  obtain ⟨rfl, rfl, rfl, hcalls⟩ := h
  have hone : ∀ {x : Act R} {t'}, Step b ⟨s.authority, s.effects, authorizations, s.effectuations,
      log⟩ x t' → Matches s' t' → x = act → ∃ acts t', Run (Step b) ⟨s.authority, s.effects,
        authorizations, s.effectuations, log⟩ acts t' ∧ Matches s' t' ∧ ∀ x ∈ acts, x = act :=
    fun hx hm he => ⟨_, _, .single hx, hm, fun y hy => (List.mem_singleton.1 hy).trans he⟩
  cases hs with
  | authorize =>
    exact hone .authorize ⟨rfl, rfl, rfl, Pointwise.concat hcalls (.inl rfl)⟩ rfl
  | @advance i k p authority hi hnext =>
    obtain ⟨k', hi', rfl | ⟨⟨e, he⟩, rfl⟩⟩ := Pointwise.exists_getElem? hcalls hi
    · rcases next_tightens hab hnext with hnext' | ⟨⟨e, rfl⟩, hp, rfl⟩
      · exact hone (.advance hi' hnext')
          ⟨rfl, rfl, rfl, Pointwise.set hcalls (.inl rfl) i⟩ rfl
      · have hleft : Follows { k' with phase := .raised e } k' := by
          refine .inr ⟨⟨e, rfl⟩, ?_⟩
          rw [← hp]
        exact ⟨[], _, .nil, ⟨rfl, rfl, rfl, Pointwise.set_left hcalls hi' hleft⟩,
          by simp⟩
    · simp only [Call.next, he] at hnext
      cases hnext
  | effectuate => exact hone .effectuate ⟨rfl, rfl, rfl, hcalls⟩ rfl
  | look hj hk => exact hone (.look hj hk) ⟨rfl, rfl, rfl, hcalls⟩ rfl
  | proceed hj hev hunf hnext =>
    exact hone (.proceed hj hev hunf hnext) ⟨rfl, rfl, rfl, hcalls⟩ rfl
  | configureSource => exact hone .configureSource ⟨rfl, rfl, rfl, hcalls⟩ rfl
  | snapshot => exact hone .snapshot ⟨rfl, rfl, rfl, hcalls⟩ rfl
  | failNext => exact hone .failNext ⟨rfl, rfl, rfl, hcalls⟩ rfl
  | failCommits => exact hone .failCommits ⟨rfl, rfl, rfl, hcalls⟩ rfl
  | replaceEvidence => exact hone .replaceEvidence ⟨rfl, rfl, rfl, hcalls⟩ rfl

end

end Threads

namespace PlaneThreads

section
variable {R : Runtime} {a b : ProtectedAuthority R} {s₀ s s' t : State R}

/-- A submission that is refused, or will be: the decision on it is against it. -/
def Phase.Doomed (p : Phase) : Prop :=
  (∃ e, p = .refused e) ∨ ∃ d : GovernanceDecision, d.allowed = false ∧
    (p = .decided d ∨ p = .recorded d)

/-- The submission `k'` is where `k` is, or was left somewhere when `k` was turned down. -/
def Follows (k k' : Call) : Prop :=
  k' = k ∨ k.phase.Doomed ∧ ∃ p, k' = { k with phase := p }

/-- The decision on record is no part of what a plane asks for. -/
theorem tightens_record {p q : AuthorityPlane R} (h : p.Tightens q)
    (d d' : Option GovernanceDecision) : AuthorityPlane.Tightens { p with last_decision := d }
      { q with last_decision := d' } :=
  ⟨h.policy, h.jurisdiction_evidence_verifiers, h.approval_verifiers,
    h.require_authenticated_evidence, h.require_authenticated_approvals⟩

/-- Registering a verifier with both planes keeps one the tighter one. -/
theorem tightens_addVerifier {p q : AuthorityPlane R} (h : p.Tightens q) (r : Registry) (i : PyStr)
    (verifier : Authenticator R) : (p.addVerifier r i verifier).Tightens
      (q.addVerifier r i verifier) := by
  obtain ⟨hpolicy, hev, hap, hreq, hreq'⟩ := h
  cases r with
  | jurisdiction_evidence => exact ⟨hpolicy, by simp only [AuthorityPlane.addVerifier, hev], hap,
      hreq, hreq'⟩
  | approval => exact ⟨hpolicy, hev, by simp only [AuthorityPlane.addVerifier, hap], hreq, hreq'⟩

/-- A step before a tighter plane is the same step before the looser one, or turns the submission
down. -/
theorem next_tightens {p q p' : AuthorityPlane R} (h : p.Tightens q) {k : Call} {phase : Phase}
    (hnext : k.next p = some (phase, p')) :
    (∃ q', k.next q = some (phase, q') ∧ p'.Tightens q') ∨ phase.Doomed ∧ p'.Tightens q := by
  have hafter : ∀ {check check' : Except PyErr Unit} {phase₁ : Phase},
      (check = .ok () → check' = .ok ()) →
      some (Phase.after check phase₁, p) = some (phase, p') →
      (∃ q', some (Phase.after check' phase₁, q) = some (phase, q') ∧ p'.Tightens q') ∨
        phase.Doomed ∧ p'.Tightens q := by
    intro check check' phase₁ hcheck heq
    obtain ⟨rfl, rfl⟩ := Prod.mk.inj (Option.some.inj heq)
    cases check with
    | error e => exact .inr ⟨.inl ⟨e, rfl⟩, h⟩
    | ok _ => exact .inl ⟨q, by rw [hcheck rfl], h⟩
  unfold Call.next at hnext ⊢
  cases hp : k.phase with
  | submitted =>
    simp only [hp] at hnext ⊢
    exact hafter h.authenticateEvidence hnext
  | evidence rest =>
    cases rest with
    | nil =>
      simp only [hp] at hnext ⊢
      exact hafter h.authenticateApprovals hnext
    | cons item rest =>
      simp only [hp] at hnext ⊢
      exact hafter h.authenticateEvidence hnext
  | approvals rest =>
    cases rest with
    | nil =>
      simp only [hp] at hnext ⊢
      cases hval : p.policy.validate R k.candidate k.compute k.evidence k.approvals k.now with
      | error e =>
        rw [hval] at hnext
        obtain ⟨rfl, rfl⟩ := Prod.mk.inj (Option.some.inj hnext)
        exact .inr ⟨.inl ⟨e, rfl⟩, h⟩
      | ok d =>
        rw [hval] at hnext
        obtain ⟨rfl, rfl⟩ := Prod.mk.inj (Option.some.inj hnext)
        cases hallow : d.allowed with
        | false => exact .inr ⟨.inr ⟨d, hallow, .inl rfl⟩, h⟩
        | true => exact .inl ⟨q, by rw [h.policy.validate hval hallow], h⟩
    | cons item rest =>
      simp only [hp] at hnext ⊢
      exact hafter h.authenticateApprovals hnext
  | decided d =>
    simp only [hp] at hnext ⊢
    obtain ⟨rfl, rfl⟩ := Prod.mk.inj (Option.some.inj hnext)
    exact .inl ⟨_, rfl, tightens_record h _ _⟩
  | recorded d =>
    simp only [hp] at hnext
    split at hnext
    · obtain ⟨rfl, rfl⟩ := Prod.mk.inj (Option.some.inj hnext)
      exact .inr ⟨.inl ⟨_, rfl⟩, h⟩
    · cases hnext
  | delegated | refused =>
    simp only [hp] at hnext
    cases hnext

/-- A submission that is turned down stays so. -/
theorem doomed_next {p q p' : AuthorityPlane R} (h : p.Tightens q) {k : Call} {phase : Phase}
    (hk : k.phase.Doomed) (hnext : k.next p = some (phase, p')) :
    phase.Doomed ∧ p'.Tightens q := by
  unfold Call.next at hnext
  obtain ⟨e, he⟩ | ⟨d, hd, hp | hp⟩ := hk
  · simp only [he] at hnext
    cases hnext
  · simp only [hp] at hnext
    obtain ⟨rfl, rfl⟩ := Prod.mk.inj (Option.some.inj hnext)
    exact ⟨.inr ⟨d, hd, .inr rfl⟩, tightens_record h _ _⟩
  · simp only [hp] at hnext
    split at hnext
    · obtain ⟨rfl, rfl⟩ := Prod.mk.inj (Option.some.inj hnext)
      exact ⟨.inl ⟨_, rfl⟩, h⟩
    · cases hnext

/-- The state `t` of the looser deployment follows the state `s` of the tighter one. -/
structure Matches (s t : State R) : Prop where
  threads : Threads.Matches s.threads t.threads
  planes : List.Forall₂ AuthorityPlane.Tightens s.planes t.planes
  submissions : List.Forall₂ Follows s.submissions t.submissions

/-- **A step of the deployment** is followed by the same step or by none. -/
theorem Matches.step (hab : a.Tightens b) (h : Matches s t) {act : Act R} (hs : Step a s act s') :
    ∃ acts t', Run (Step b) t acts t' ∧ Matches s' t' := by
  obtain ⟨hthreads, hplanes, hsubs⟩ := h
  cases hs with
  | submit hp =>
    obtain ⟨q, hq, -⟩ := Pointwise.exists_getElem? hplanes hp
    exact ⟨_, _, .single (.submit hq),
      ⟨hthreads, hplanes, Pointwise.concat hsubs (.inl rfl)⟩⟩
  | @check m k plane p plane' hm hp hnext =>
    obtain ⟨k', hm', hk'⟩ := Pointwise.exists_getElem? hsubs hm
    obtain ⟨q, hq, htight⟩ := Pointwise.exists_getElem? hplanes hp
    -- the submission is left where it stands when it is turned down
    have hleft : ∀ {x : Call}, x = k' → p.Doomed → plane'.Tightens q →
        (∃ phase, x = { k with phase := phase }) → Matches { s with
          planes := s.planes.set k.plane plane'
          submissions := s.submissions.set m { k with phase := p } } t := by
      rintro _ rfl hdoomed htight' ⟨phase, rfl⟩
      exact ⟨hthreads, Pointwise.set_left hplanes hq htight',
        Pointwise.set_left hsubs hm' (.inr ⟨hdoomed, phase, rfl⟩)⟩
    rcases hk' with rfl | ⟨hdoomed, phase, rfl⟩
    · rcases next_tightens htight hnext with ⟨q', hnext', htight'⟩ | ⟨hdoomed, htight'⟩
      · exact ⟨_, _, .single (.check hm' hq hnext'), ⟨hthreads,
          Pointwise.set hplanes htight' _, Pointwise.set hsubs (.inl rfl) m⟩⟩
      · exact ⟨[], t, .nil, hleft rfl hdoomed htight' ⟨_, rfl⟩⟩
    · obtain ⟨hdoomed', htight'⟩ := doomed_next htight hdoomed hnext
      exact ⟨[], t, .nil, hleft rfl hdoomed' htight' ⟨_, rfl⟩⟩
  | @delegate m k d hm hk hcheck =>
    obtain ⟨k', hm', rfl | ⟨hdoomed, -⟩⟩ := Pointwise.exists_getElem? hsubs hm
    · refine ⟨_, _, .single (.delegate hm' hk hcheck), ⟨⟨hthreads.authority, hthreads.effects,
        hthreads.effectuations, Pointwise.concat hthreads.authorizations (.inl rfl)⟩, hplanes, ?_⟩⟩
      rw [hthreads.authorizations.length_eq]
      exact Pointwise.set hsubs (.inl rfl) m
    · -- a decision against the submission is not acted on
      have hallow := (AuthorityPlane.checkDecision_ok.1 hcheck).1
      rw [hk] at hdoomed
      rcases hdoomed with ⟨e, he⟩ | ⟨d', hd', he | he⟩
      · cases he
      · cases he
      · obtain rfl := Phase.recorded.inj he
        rw [hallow] at hd'
        cases hd'
  | add hp =>
    obtain ⟨q, hq, htight⟩ := Pointwise.exists_getElem? hplanes hp
    exact ⟨_, _, .single (.add hq),
      ⟨hthreads, Pointwise.set hplanes (tightens_addVerifier htight _ _ _) _, hsubs⟩⟩
  | thread hact hstep =>
    obtain ⟨acts, t', hrun, hm, hacts⟩ := hthreads.step hab hstep
    exact ⟨_, _, run_thread hrun fun x hx => hacts x hx ▸ hact, ⟨hm, hplanes, hsubs⟩⟩

/-- A capability that was returned to a submission is returned in the looser deployment. -/
theorem Matches.result (h : Matches s t) {m : Nat} {cap : Capability}
    (hr : s.result m = some (.ok cap)) : t.result m = some (.ok cap) := by
  unfold State.result at hr ⊢
  cases hm : s.submissions[m]? with
  | none => simp [hm] at hr
  | some k =>
  obtain ⟨k', hm', hk'⟩ := Pointwise.exists_getElem? h.submissions hm
  rw [hm] at hr
  rw [hm']
  cases hp : k.phase with
  | delegated i =>
    obtain rfl : k' = k := by
      rcases hk' with rfl | ⟨⟨e, he⟩ | ⟨d, -, he | he⟩, -⟩
      · rfl
      all_goals
        rw [hp] at he
        cases he
    simp only [Option.map_some, hp] at hr ⊢
    obtain ⟨x, hi, hx⟩ := Option.bind_eq_some_iff.1 hr
    obtain ⟨x', hi', rfl | ⟨⟨e, he⟩, -⟩⟩ :=
      Pointwise.exists_getElem? h.threads.authorizations hi
    · rw [hi']
      exact hx
    · rw [he] at hx
      cases hx
  | submitted | evidence | approvals | decided | recorded | refused => simp [hp] at hr

/-- **Tightening a deployment adds nothing.** Whatever a deployment does under tighter policies,
the deployment with the looser ones can do: the same protected state, evidence and signatures, the
same calls of the sinks, the same effects, and every capability that was returned. -/
theorem tightening_safe (hab : a.Tightens b) {planes : List (AuthorityPlane R)}
    (hplanes : List.Forall₂ AuthorityPlane.Tightens s₀.planes planes) {acts : List (Act R)}
    (hrun : Run (Step a) s₀ acts s) :
    ∃ acts' t, Run (Step b) { s₀ with planes := planes } acts' t ∧
      t.threads.authority = s.threads.authority ∧ t.threads.effects = s.threads.effects ∧
      t.threads.effectuations = s.threads.effectuations ∧
      ∀ m cap, s.result m = some (.ok cap) → t.result m = some (.ok cap) := by
  have h0 : Matches s₀ { s₀ with planes := planes } :=
    ⟨⟨rfl, rfl, rfl, List.forall₂_same.2 fun _ _ => .inl rfl⟩, hplanes,
      List.forall₂_same.2 fun _ _ => .inl rfl⟩
  obtain ⟨acts', t, hrun', h⟩ := hrun.forward Matches (fun _ _ _ _ h hs => h.step hab hs) h0
  exact ⟨acts', t, hrun', h.threads.authority, h.threads.effects, h.threads.effectuations,
    fun m cap hr => h.result hr⟩

end

/-- The sample authority under a looser policy. -/
def looserAuthority : ProtectedAuthority sampleRuntime :=
  { sampleAuthority with
    policy := { samplePolicy with
      allowed_purposes := [py "approved-purpose", py "other-purpose"]
      required_runtime_evidence_digest := none
      max_future_skew_ns := 2000 } }

/-- The sample plane under a looser policy, without signatures on the evidence. -/
def looserPlane : AuthorityPlane sampleRuntime :=
  { samplePlane with
    policy := { sampleSovereigntyPolicy with
      allowed_compute_providers := none
      trusted_evidence_issuers := []
      required_approval_roles := [] }
    protected_authority := looserAuthority
    require_authenticated_evidence := false }

/-- The sample authority is tighter than the looser one. -/
theorem looserAuthority_tightens : sampleAuthority.Tightens looserAuthority where
  authority_id := rfl
  authenticator := rfl
  capability_ttl_ns := rfl
  policy :=
    { policy_epoch := rfl
      allowed_purposes := by decide
      allowed_jurisdictions := List.Subset.refl _
      allowed_sinks := List.Subset.refl _
      allowed_boundaries := List.Subset.refl _
      allowed_effect_classes := List.Subset.refl _
      allowed_scopes := List.Subset.refl _
      revoked_sources := List.Subset.refl _
      required_runtime_evidence_digest := by simp [looserAuthority]
      max_future_skew_ns := by decide }

/-- So is the sample plane. -/
theorem looserPlane_tightens : samplePlane.Tightens looserPlane where
  jurisdiction_evidence_verifiers := rfl
  approval_verifiers := rfl
  require_authenticated_evidence := by simp [looserPlane]
  require_authenticated_approvals := fun h => h
  policy :=
    { authority_jurisdiction := rfl
      policy_epoch := rfl
      allowed_compute_jurisdictions := fun js hjs => ⟨js, hjs, List.Subset.refl _⟩
      allowed_compute_providers := by simp [SovereigntyPolicy.Within, looserPlane]
      required_runtime_evidence_digest := fun _ h => h
      trusted_evidence_issuers := by simp [SovereigntyPolicy.Restricts, looserPlane]
      allowed_evidence_types := fun h => ⟨h, List.Subset.refl _⟩
      min_evidence_items := le_refl _
      min_independent_evidence_issuers := le_refl _
      require_authority_jurisdiction_assertion := fun h => h
      allowed_trust_classes := List.Subset.refl _
      required_approval_roles := by simp [looserPlane]
      approval_threshold := le_refl _
      max_future_skew_ns := le_refl _
      payload_required_fields := List.Subset.refl _
      payload_numeric_limits := fun _ lo hi h => ⟨lo, hi, h, le_refl _, le_refl _⟩
      payload_allowed_values := fun _ contains h => ⟨contains, h, fun _ hv => hv⟩ }

/-- A run of the sample plane, and the run of the looser one with its effect. -/
theorem tightening_safe_sample : ∃ acts s record acts' t,
    Run (Step sampleAuthority) samplePlanes acts s ∧
    s.threads.effects.effector.records = [record] ∧
    Run (Step looserAuthority) { samplePlanes with planes := [looserPlane] } acts' t ∧
    t.threads.effects = s.threads.effects := by
  obtain ⟨acts, s, record, hrun, hrecords⟩ := sample_planes_run
  obtain ⟨acts', t, hrun', -, heffects, -, -⟩ :=
    tightening_safe looserAuthority_tightens (.cons looserPlane_tightens .nil) hrun
  exact ⟨acts, s, record, acts', t, hrun, hrecords, hrun', heffects⟩

end PlaneThreads

end Finality
