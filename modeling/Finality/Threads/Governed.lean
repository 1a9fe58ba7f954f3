import Finality.Sovereignty.Soundness
import Finality.Threads.Budget
import Finality.Threads.Planes

/-!
# Every effect was governed, in every interleaving

Any number of submissions are in progress at once, at any number of planes, while registries change
and the threads behind make effects. What a submission has been checked for by the time it stands in
a phase is kept by every step (`traced_next`), since a phase carries the submission's own decision.
So the authorisation behind an effect was handed on by a submission that its plane admitted
(`interleaved_governance`): just before the step that checked it (`VerifiedIn`) each signature was
one of a verifier registered for its principal, and the decision was on that submission, whatever
`last_decision` says by then.
-/

namespace Finality

open Checks ProtectedState ProtectedAuthority FinalitySink Runs

namespace PlaneThreads

section
variable {R : Runtime} {a : ProtectedAuthority R} {s₀ s s' : State R} {acts : List (Act R)}

/-! ## What has been checked -/

/-- The planes agree in what is fixed. -/
structure SamePlane (plane plane' : AuthorityPlane R) : Prop where
  policy : plane'.policy = plane.policy
  protected_authority : plane'.protected_authority = plane.protected_authority
  require_evidence : plane'.require_authenticated_evidence = plane.require_authenticated_evidence
  require_approvals : plane'.require_authenticated_approvals = plane.require_authenticated_approvals

/-- The submission `m` is `k`, and its plane has a verifier registered for the principal, which
accepts the signature. -/
structure Verifies (u : State R) (m : Nat) (k : Call) (registry : Registry)
    (principal_id : PyStr) (value : PyVal) (signature key_id : PyStr) : Prop where
  stands : u.submissions[m]? = some k
  registered : ∃ plane reg verifier, u.planes[k.plane]? = some plane ∧
    plane.registry registry = some reg ∧ reg.verifiers.lookup principal_id = some verifier ∧
    verifier.verify value signature key_id = .ok true

/-- The run `acts` from `s₀` to `s` passes the check of the submission `m`, which is `k`, in
`phase`: just before that step the signature is one of a verifier registered for the principal. -/
def VerifiedIn (a : ProtectedAuthority R) (s₀ : State R) (acts : List (Act R)) (s : State R)
    (m : Nat) (k : Call) (phase : Phase) (registry : Registry) (principal_id : PyStr)
    (value : PyVal) (signature key_id : PyStr) : Prop :=
  ∃ acts₁ acts₂ u v, acts = acts₁ ++ .check m :: acts₂ ∧ Run (Step a) s₀ acts₁ u ∧
    Verifies u m { k with phase := phase } registry principal_id value signature key_id ∧
    Step a u (.check m) v ∧ Run (Step a) v acts₂ s

/-- If `plane` asks for signed evidence, each of the first `n` items of the submission was verified
when it was its turn. -/
def EvidenceVerified (a : ProtectedAuthority R) (s₀ : State R) (acts : List (Act R)) (s : State R)
    (plane : AuthorityPlane R) (m : Nat) (k : Call) (n : Nat) : Prop :=
  plane.require_authenticated_evidence = true → ∀ i item, i < n → k.evidence[i]? = some item →
    VerifiedIn a s₀ acts s m k (.evidence (k.evidence.drop i)) .jurisdiction_evidence item.issuer
      item.unsigned item.signature item.key_id

/-- And if it asks for signed approvals, each of the first `n` was. -/
def ApprovalsVerified (a : ProtectedAuthority R) (s₀ : State R) (acts : List (Act R)) (s : State R)
    (plane : AuthorityPlane R) (m : Nat) (k : Call) (n : Nat) : Prop :=
  plane.require_authenticated_approvals = true → ∀ i item, i < n → k.approvals[i]? = some item →
    VerifiedIn a s₀ acts s m k (.approvals (k.approvals.drop i)) .approval item.approver_id
      item.unsigned item.signature item.key_id

/-- Every signature of the submission that `plane` asks for was verified when it was its turn. -/
def SignaturesVerified (a : ProtectedAuthority R) (s₀ : State R) (acts : List (Act R))
    (s : State R) (plane : AuthorityPlane R) (m : Nat) (k : Call) : Prop :=
  EvidenceVerified a s₀ acts s plane m k k.evidence.length ∧
    ApprovalsVerified a s₀ acts s plane m k k.approvals.length

/-- What has been checked of the submission `m`, which is `k`, to `plane` where it stands. -/
def Call.Traced (a : ProtectedAuthority R) (s₀ : State R) (acts : List (Act R)) (s : State R)
    (plane : AuthorityPlane R) (m : Nat) (k : Call) : Prop :=
  match k.phase with
  | .submitted | .refused _ => True
  | .evidence rest => ∃ n, k.evidence.drop n = rest ∧ EvidenceVerified a s₀ acts s plane m k n
  | .approvals rest => EvidenceVerified a s₀ acts s plane m k k.evidence.length ∧
      ∃ n, k.approvals.drop n = rest ∧ ApprovalsVerified a s₀ acts s plane m k n
  | .decided d | .recorded d => SignaturesVerified a s₀ acts s plane m k ∧
      plane.policy.validate R k.candidate k.compute k.evidence k.approvals k.now = .ok d
  | .delegated _ => SignaturesVerified a s₀ acts s plane m k ∧
      ∃ d, plane.policy.validate R k.candidate k.compute k.evidence k.approvals k.now = .ok d ∧
        AuthorityPlane.checkDecision k.candidate k.compute d = .ok ()

/-- A check that was made stays made when the run goes on. -/
theorem VerifiedIn.snoc {m : Nat} {k : Call} {phase : Phase} {registry : Registry} {i : PyStr}
    {value : PyVal} {sig key : PyStr}
    (h : VerifiedIn a s₀ acts s m k phase registry i value sig key) {act : Act R}
    (hs : Step a s act s') :
    VerifiedIn a s₀ (acts ++ [act]) s' m k phase registry i value sig key := by
  obtain ⟨acts₁, acts₂, u, v, rfl, hrun, hu, hcheck, hrest⟩ := h
  exact ⟨acts₁, acts₂ ++ [act], u, v, List.append_assoc .., hrun, hu, hcheck, hrest.snoc hs⟩

/-- So do those of the evidence. -/
theorem EvidenceVerified.snoc {plane : AuthorityPlane R} {m n : Nat} {k : Call}
    (h : EvidenceVerified a s₀ acts s plane m k n) {act : Act R} (hs : Step a s act s') :
    EvidenceVerified a s₀ (acts ++ [act]) s' plane m k n :=
  fun hr i item hi hitem => (h hr i item hi hitem).snoc hs

/-- And those of the approvals. -/
theorem ApprovalsVerified.snoc {plane : AuthorityPlane R} {m n : Nat} {k : Call}
    (h : ApprovalsVerified a s₀ acts s plane m k n) {act : Act R} (hs : Step a s act s') :
    ApprovalsVerified a s₀ (acts ++ [act]) s' plane m k n :=
  fun hr i item hi hitem => (h hr i item hi hitem).snoc hs

/-- What was checked stays checked. -/
theorem Call.Traced.snoc {plane : AuthorityPlane R} {m : Nat} {k : Call}
    (h : k.Traced a s₀ acts s plane m) {act : Act R} (hs : Step a s act s') :
    k.Traced a s₀ (acts ++ [act]) s' plane m := by
  unfold Call.Traced at h ⊢
  cases hp : k.phase with
  | submitted | refused => trivial
  | evidence rest =>
    rw [hp] at h
    obtain ⟨n, heq, hpassed⟩ := h
    exact ⟨n, heq, hpassed.snoc hs⟩
  | approvals rest =>
    rw [hp] at h
    obtain ⟨hes, n, heq, hpassed⟩ := h
    exact ⟨hes.snoc hs, n, heq, hpassed.snoc hs⟩
  | decided | recorded | delegated =>
    rw [hp] at h
    exact ⟨⟨h.1.1.snoc hs, h.1.2.snoc hs⟩, h.2⟩

/-! ## One step -/

/-- A step of a submission leaves what is fixed of its plane alone. -/
theorem Moves.samePlane {k : Call} {plane plane' : AuthorityPlane R} {p : Phase}
    (h : Moves k plane p plane') : SamePlane plane plane' := by
  cases h <;> exact ⟨rfl, rfl, rfl, rfl⟩

/-- A plane shows the decision it showed, or that on the submission that moves. -/
theorem Moves.last_decision {k : Call} {plane plane' : AuthorityPlane R} {p : Phase}
    {d : GovernanceDecision} (h : Moves k plane p plane') (hd : plane'.last_decision = some d) :
    plane.last_decision = some d ∨ k.phase = .decided d := by
  cases h with
  | recorded hp =>
    obtain rfl := Option.some.inj hd
    exact .inr hp
  | refused | evidence | item | approvals | approval | decided => exact .inl hd

/-- A registration leaves what is fixed of a plane alone. -/
theorem samePlane_addVerifier (plane : AuthorityPlane R) (registry : Registry) (i : PyStr)
    (verifier : Authenticator R) : SamePlane plane (plane.addVerifier registry i verifier) ∧
      (plane.addVerifier registry i verifier).last_decision = plane.last_decision := by
  cases registry <;> exact ⟨⟨rfl, rfl, rfl, rfl⟩, rfl⟩

/-- The item that comes next, and what is left after it. -/
theorem next_of_drop {α : Type} {xs rest : List α} {n : Nat} {x : α} (h : xs.drop n = x :: rest) :
    xs[n]? = some x ∧ xs.drop (n + 1) = rest := by
  refine ⟨?_, ?_⟩
  · rw [← List.head?_drop, h, List.head?_cons]
  · rw [← List.tail_drop, h, List.tail_cons]

/-- An item that passes its check is verified at that moment. -/
theorem evidenceVerified_succ (hrun : Run (Step a) s₀ acts s) {plane plane₀ : AuthorityPlane R}
    {m n : Nat} {k : Call} {item : JurisdictionEvidence} {rest : List JurisdictionEvidence}
    (hm : s.submissions[m]? = some k) (hk : k.phase = .evidence (item :: rest))
    (hn : k.evidence.drop n = item :: rest) (hp : s.planes[k.plane]? = some plane)
    (hsame : SamePlane plane₀ plane) (h : plane.authenticateEvidence [item] = .ok ())
    (hs : Step a s (.check m) s') (hpassed : EvidenceVerified a s₀ acts s plane₀ m k n) :
    EvidenceVerified a s₀ (acts ++ [.check m]) s' plane₀ m k (n + 1) := by
  intro hr i x hi hx
  rcases Nat.lt_succ_iff_lt_or_eq.1 hi with hi | rfl
  · exact (hpassed hr i x hi hx).snoc hs
  · obtain rfl := Option.some.inj (hx.symm.trans (next_of_drop hn).1)
    rw [← hsame.require_evidence] at hr
    rw [AuthorityPlane.authenticateEvidence, checkWhen_eq_ok] at h
    obtain ⟨reg, hreg, hall⟩ := AuthorityPlane.authenticate_ok.1 (h hr)
    obtain ⟨verifier, hlook, hver⟩ := hall x (by simp)
    have hstands : s.submissions[m]? = some { k with phase := .evidence (k.evidence.drop i) } := by
      rw [hn, ← hk]
      exact hm
    exact ⟨acts, [], s, s', rfl, hrun, ⟨hstands, plane, reg, verifier, hp, hreg, hlook, hver⟩, hs,
      .nil⟩

/-- An approval that passes its check is verified at that moment. -/
theorem approvalsVerified_succ (hrun : Run (Step a) s₀ acts s) {plane plane₀ : AuthorityPlane R}
    {m n : Nat} {k : Call} {item : Approval} {rest : List Approval}
    (hm : s.submissions[m]? = some k) (hk : k.phase = .approvals (item :: rest))
    (hn : k.approvals.drop n = item :: rest) (hp : s.planes[k.plane]? = some plane)
    (hsame : SamePlane plane₀ plane) (h : plane.authenticateApprovals [item] = .ok ())
    (hs : Step a s (.check m) s') (hpassed : ApprovalsVerified a s₀ acts s plane₀ m k n) :
    ApprovalsVerified a s₀ (acts ++ [.check m]) s' plane₀ m k (n + 1) := by
  intro hr i x hi hx
  rcases Nat.lt_succ_iff_lt_or_eq.1 hi with hi | rfl
  · exact (hpassed hr i x hi hx).snoc hs
  · obtain rfl := Option.some.inj (hx.symm.trans (next_of_drop hn).1)
    rw [← hsame.require_approvals] at hr
    rw [AuthorityPlane.authenticateApprovals, checkWhen_eq_ok] at h
    obtain ⟨reg, hreg, hall⟩ := AuthorityPlane.authenticate_ok.1 (h hr)
    obtain ⟨verifier, hlook, hver⟩ := hall x (by simp)
    have hstands :
        s.submissions[m]? = some { k with phase := .approvals (k.approvals.drop i) } := by
      rw [hn, ← hk]
      exact hm
    exact ⟨acts, [], s, s', rfl, hrun, ⟨hstands, plane, reg, verifier, hp, hreg, hlook, hver⟩, hs,
      .nil⟩

/-- Once nothing is left every item was verified. -/
theorem EvidenceVerified.all {plane : AuthorityPlane R} {m n : Nat} {k : Call}
    (h : EvidenceVerified a s₀ acts s plane m k n) (hn : k.evidence.drop n = []) :
    EvidenceVerified a s₀ acts s plane m k k.evidence.length :=
  fun hr i item hi => h hr i item (lt_of_lt_of_le hi (List.drop_eq_nil_iff.1 hn))

/-- When no approval is left, all of them were checked. -/
theorem ApprovalsVerified.all {plane : AuthorityPlane R} {m n : Nat} {k : Call}
    (h : ApprovalsVerified a s₀ acts s plane m k n) (hn : k.approvals.drop n = []) :
    ApprovalsVerified a s₀ acts s plane m k k.approvals.length :=
  fun hr i item hi => h hr i item (lt_of_lt_of_le hi (List.drop_eq_nil_iff.1 hn))

/-- **What has been checked grows with each step.** -/
theorem Call.Traced.moves (hrun : Run (Step a) s₀ acts s) {m : Nat} {k : Call}
    {plane plane₀ plane' : AuthorityPlane R} {p : Phase} (hm : s.submissions[m]? = some k)
    (hp : s.planes[k.plane]? = some plane) (hsame : SamePlane plane₀ plane)
    (ht : k.Traced a s₀ acts s plane₀ m) (h : Moves k plane p plane')
    (hs : Step a s (.check m) s') :
    ({ k with phase := p } : Call).Traced a s₀ (acts ++ [.check m]) s' plane₀ m := by
  have ht' := ht.snoc hs
  unfold Call.Traced at ht ht' ⊢
  cases h with
  | refused => trivial
  | evidence hk => exact ⟨0, rfl, fun _ _ _ h => absurd h (Nat.not_lt_zero _)⟩
  | @item item rest hk h =>
    rw [hk] at ht
    obtain ⟨n, hn, hpassed⟩ := ht
    have hnext := evidenceVerified_succ hrun hm hk hn hp hsame h hs hpassed
    exact ⟨n + 1, (next_of_drop hn).2, hnext⟩
  | approvals hk =>
    rw [hk] at ht'
    obtain ⟨n, hn, hpassed⟩ := ht'
    exact ⟨hpassed.all hn, 0, rfl, fun _ _ _ h => absurd h (Nat.not_lt_zero _)⟩
  | @approval item rest hk h =>
    rw [hk] at ht ht'
    obtain ⟨-, n, hn, hpassed⟩ := ht
    have hnext := approvalsVerified_succ hrun hm hk hn hp hsame h hs hpassed
    exact ⟨ht'.1, n + 1, (next_of_drop hn).2, hnext⟩
  | decided hk h =>
    rw [hk] at ht'
    obtain ⟨hes, n, hn, hpassed⟩ := ht'
    exact ⟨⟨hes, hpassed.all hn⟩, hsame.policy ▸ h⟩
  | recorded hk =>
    rw [hk] at ht'
    exact ht'

/-- Only an authorisation that starts makes them more. -/
theorem length_authorizations {t t' : Threads.State R} {act : Threads.Act R}
    (hact : ∀ c cost now, act ≠ .authorize c cost now) (h : Threads.Step a t act t') :
    t'.authorizations.length = t.authorizations.length := by
  cases h with
  | authorize => exact absurd rfl (hact _ _ _)
  | advance => exact List.length_set
  | effectuate | look | proceed | configureSource | snapshot | failNext | failCommits
  | replaceEvidence => rfl

/-! ## Every run -/

/-- What holds in every state of a run behind planes. -/
structure Inv (a : ProtectedAuthority R) (s₀ : State R) (acts : List (Act R)) (s : State R) :
    Prop where
  /-- what is fixed of a plane -/
  planes : ∀ {p : Nat} {plane : AuthorityPlane R}, s.planes[p]? = some plane →
    ∃ plane₀, s₀.planes[p]? = some plane₀ ∧ SamePlane plane₀ plane
  /-- what has been checked of a submission -/
  traced : ∀ {m : Nat} {k : Call}, s.submissions[m]? = some k →
    ∃ plane₀, s₀.planes[k.plane]? = some plane₀ ∧ k.Traced a s₀ acts s plane₀ m
  /-- an authorisation is a submission handed on -/
  delegated : ∀ {i : Nat} {q : Threads.Call}, s.threads.authorizations[i]? = some q →
    ∃ (m : Nat) (k : Call), s.submissions[m]? = some k ∧ k.phase = .delegated i ∧
      k.candidate = q.candidate ∧ k.cost = q.cost ∧ k.now = q.now
  /-- the decision on record was made on a submission to the plane -/
  last_decision : ∀ {p : Nat} {plane : AuthorityPlane R} {d}, s.planes[p]? = some plane →
    plane.last_decision = some d →
      ∃ (m : Nat) (k : Call), s.submissions[m]? = some k ∧ k.plane = p ∧
      plane.policy.validate R k.candidate k.compute k.evidence k.approvals k.now = .ok d

/-- Nothing was submitted at the start. -/
theorem inv_of_empty (h : s₀.Empty a) : Inv a s₀ [] s₀ where
  planes := fun hp => ⟨_, hp, rfl, rfl, rfl, rfl⟩
  traced := by simp [h.submissions]
  delegated := by simp [h.threads.authorizations]
  last_decision := fun hp hd => by
    rw [(h.front _ (List.mem_of_getElem? hp)).2] at hd
    cases hd

/-- The submissions are the same, in some phase, and what was handed on is still. -/
def Kept (s s' : State R) : Prop :=
  ∀ {m : Nat} {k : Call}, s.submissions[m]? = some k →
    ∃ p, s'.submissions[m]? = some { k with phase := p } ∧
      ∀ i, k.phase = .delegated i → p = .delegated i

/-- What was handed on does not move. -/
theorem not_delegated_of_next {k : Call} {plane plane' : AuthorityPlane R} {p : Phase}
    (h : k.next plane = some (p, plane')) (i : Nat) : k.phase ≠ .delegated i := by
  intro hp
  simp [Call.next, hp] at h

/-- A step keeps every submission, up to its phase. -/
theorem Kept.step {act : Act R} (h : Step a s act s') : Kept s s' := by
  -- the submission that moves, and the others
  have hset : ∀ {m : Nat} {k : Call} {p : Phase}, s.submissions[m]? = some k →
      (∀ i, k.phase ≠ .delegated i) → ∀ {m' : Nat} {k' : Call}, s.submissions[m']? = some k' →
        ∃ q, (s.submissions.set m { k with phase := p })[m']? = some { k' with phase := q } ∧
          ∀ i, k'.phase = .delegated i → q = .delegated i := by
    intro m k p hm hk m' k' hm'
    rcases eq_or_ne m m' with rfl | hne
    · obtain rfl := Option.some.inj (hm.symm.trans hm')
      exact ⟨p, List.getElem?_set_self (List.getElem?_eq_some_iff.1 hm).1,
        fun i hi => absurd hi (hk i)⟩
    · exact ⟨k'.phase, (List.getElem?_set_ne hne).trans hm', fun _ h => h⟩
  intro m' k' hm'
  cases h with
  | submit =>
    exact ⟨k'.phase, Interleaving.getElem?_concat_eq_some.2 (.inl hm'), fun _ h => h⟩
  | check hm hp hnext => exact hset hm (not_delegated_of_next hnext) hm'
  | delegate hm hk hcheck => exact hset hm (fun i hi => by cases hk.symm.trans hi) hm'
  | add | thread => exact ⟨k'.phase, hm', fun _ h => h⟩

/-- An authorisation that was handed on before still was. -/
theorem Inv.delegated_kept (hinv : Inv a s₀ acts s) (hkept : Kept s s') {i : Nat}
    {q : Threads.Call} (hi : s.threads.authorizations[i]? = some q) :
    ∃ (m : Nat) (k : Call), s'.submissions[m]? = some k ∧ k.phase = .delegated i ∧
      k.candidate = q.candidate ∧ k.cost = q.cost ∧ k.now = q.now := by
  obtain ⟨m, k, hm, hk, hdata⟩ := hinv.delegated hi
  obtain ⟨p, hm', hp⟩ := hkept hm
  exact ⟨m, _, hm', hp i hk, hdata⟩

/-- A decision on record was made before. -/
theorem Inv.last_decision_kept (hinv : Inv a s₀ acts s) (hkept : Kept s s') {p : Nat}
    {plane plane' : AuthorityPlane R} {d : GovernanceDecision} (hp : s.planes[p]? = some plane)
    (hsame : SamePlane plane plane') (hd : plane.last_decision = some d) :
    ∃ (m : Nat) (k : Call), s'.submissions[m]? = some k ∧ k.plane = p ∧
      plane'.policy.validate R k.candidate k.compute k.evidence k.approvals k.now = .ok d := by
  obtain ⟨m, k, hm, hk, hval⟩ := hinv.last_decision hp hd
  obtain ⟨q, hm', -⟩ := hkept hm
  exact ⟨m, _, hm', hk, hsame.policy ▸ hval⟩

/-- A plane whose verifiers changed twice. -/
theorem SamePlane.trans {plane plane' plane'' : AuthorityPlane R} (h : SamePlane plane plane')
    (h' : SamePlane plane' plane'') : SamePlane plane plane'' :=
  ⟨h'.policy.trans h.policy, h'.protected_authority.trans h.protected_authority,
    h'.require_evidence.trans h.require_evidence, h'.require_approvals.trans h.require_approvals⟩

/-- One plane is replaced by one that agrees with it in what is fixed. -/
theorem Inv.planes_set (hinv : Inv a s₀ acts s) {p : Nat} {plane plane' : AuthorityPlane R}
    (hp : s.planes[p]? = some plane) (hsame : SamePlane plane plane') {p' : Nat}
    {plane'' : AuthorityPlane R} (h : (s.planes.set p plane')[p']? = some plane'') :
    ∃ plane₀, s₀.planes[p']? = some plane₀ ∧ SamePlane plane₀ plane'' := by
  rcases Threads.getElem?_set_eq_some h with ⟨rfl, rfl⟩ | ⟨-, h⟩
  · obtain ⟨plane₀, hp₀, hsame₀⟩ := hinv.planes hp
    exact ⟨plane₀, hp₀, hsame₀.trans hsame⟩
  · exact hinv.planes h

/-- **The invariant is kept by every step.** -/
theorem Inv.step {act : Act R} (hinv : Inv a s₀ acts s) (hrun : Run (Step a) s₀ acts s)
    (h : Step a s act s') : Inv a s₀ (acts ++ [act]) s' := by
  have hold : ∀ {m : Nat} {k : Call}, s.submissions[m]? = some k →
      ∃ plane₀, s₀.planes[k.plane]? = some plane₀ ∧
        k.Traced a s₀ (acts ++ [act]) s' plane₀ m := by
    intro m k hm
    obtain ⟨plane₀, hp₀, ht⟩ := hinv.traced hm
    exact ⟨plane₀, hp₀, ht.snoc h⟩
  have hkept : Kept s s' := Kept.step h
  have hstep := h
  cases h with
  | submit hp =>
    refine ⟨hinv.planes, fun hm => ?_, hinv.delegated_kept hkept,
      fun hp hd => hinv.last_decision_kept hkept hp ⟨rfl, rfl, rfl, rfl⟩ hd⟩
    rcases Interleaving.getElem?_concat_eq_some.1 hm with hm | ⟨-, rfl⟩
    · exact hold hm
    · obtain ⟨plane₀, hp₀, -⟩ := hinv.planes hp
      exact ⟨plane₀, hp₀, trivial⟩
  | @check m k plane p plane' hm hp hnext =>
    have hmoves := moves hnext
    refine ⟨fun hp' => hinv.planes_set hp hmoves.samePlane hp', fun hm' => ?_,
      hinv.delegated_kept hkept, fun hp' hd => ?_⟩
    · rcases Threads.getElem?_set_eq_some hm' with ⟨rfl, rfl⟩ | ⟨-, hm'⟩
      · obtain ⟨plane₀, hp₀, ht⟩ := hinv.traced hm
        obtain ⟨plane₁, hp₁, hsame⟩ := hinv.planes hp
        obtain rfl : plane₀ = plane₁ := Option.some.inj (hp₀.symm.trans hp₁)
        exact ⟨plane₀, hp₀, ht.moves hrun hm hp hsame hmoves hstep⟩
      · exact hold hm'
    · rcases Threads.getElem?_set_eq_some hp' with ⟨rfl, rfl⟩ | ⟨-, hp'⟩
      · rcases hmoves.last_decision hd with hd | hk
        · exact hinv.last_decision_kept hkept hp hmoves.samePlane hd
        · obtain ⟨plane₀, hp₀, ht⟩ := hinv.traced hm
          obtain ⟨plane₁, hp₁, hsame⟩ := hinv.planes hp
          obtain rfl : plane₀ = plane₁ := Option.some.inj (hp₀.symm.trans hp₁)
          simp only [Call.Traced, hk] at ht
          refine ⟨m, _, List.getElem?_set_self (List.getElem?_eq_some_iff.1 hm).1, rfl, ?_⟩
          rw [hmoves.samePlane.policy, hsame.policy]
          exact ht.2
      · exact hinv.last_decision_kept hkept hp' ⟨rfl, rfl, rfl, rfl⟩ hd
  | @delegate m k d hm hk hcheck =>
    refine ⟨hinv.planes, fun hm' => ?_, fun hi => ?_,
      fun hp hd => hinv.last_decision_kept hkept hp ⟨rfl, rfl, rfl, rfl⟩ hd⟩
    · rcases Threads.getElem?_set_eq_some hm' with ⟨rfl, rfl⟩ | ⟨-, hm'⟩
      · obtain ⟨plane₀, hp₀, ht⟩ := hold hm
        simp only [Call.Traced, hk] at ht
        exact ⟨plane₀, hp₀, ht.1, d, ht.2, hcheck⟩
      · exact hold hm'
    · rcases Interleaving.getElem?_concat_eq_some.1 hi with hi | ⟨rfl, rfl⟩
      · exact hinv.delegated_kept hkept hi
      · exact ⟨m, _, List.getElem?_set_self (List.getElem?_eq_some_iff.1 hm).1, rfl, rfl, rfl, rfl⟩
  | @add p plane registry principal_id verifier hp =>
    obtain ⟨hsame, hlast⟩ := samePlane_addVerifier plane registry principal_id verifier
    refine ⟨fun hp' => hinv.planes_set hp hsame hp', hold, hinv.delegated, fun hp' hd => ?_⟩
    rcases Threads.getElem?_set_eq_some hp' with ⟨rfl, rfl⟩ | ⟨-, hp'⟩
    · exact hinv.last_decision_kept hkept hp hsame (hlast ▸ hd)
    · exact hinv.last_decision_kept hkept hp' ⟨rfl, rfl, rfl, rfl⟩ hd
  | @thread _ threads hact h =>
    refine ⟨hinv.planes, hold, fun {i q} hi => ?_,
      fun hp hd => hinv.last_decision_kept hkept hp ⟨rfl, rfl, rfl, rfl⟩ hd⟩
    -- the authorisation was there before, at another phase
    have hlt := length_authorizations hact h ▸ (List.getElem?_eq_some_iff.1 hi).1
    obtain ⟨q₀, hq₀⟩ : ∃ q₀, s.threads.authorizations[i]? = some q₀ :=
      ⟨_, List.getElem?_eq_getElem hlt⟩
    obtain ⟨p', hq⟩ := (Threads.Later.step h).called hq₀
    obtain rfl := Option.some.inj (hi.symm.trans hq)
    obtain ⟨m, k, hm, hk, hdata⟩ := hinv.delegated hq₀
    exact ⟨m, k, hm, hk, hdata⟩

/-- **Every submission is accounted for in every state of a run.** -/
theorem inv_of_run (h0 : s₀.Empty a) (hrun : Run (Step a) s₀ acts s) : Inv a s₀ acts s :=
  hrun.invariantTrace (Inv a s₀) (inv_of_empty h0) fun _ _ _ _ hrun hinv hs => hinv.step hrun hs

/-! ## The effects -/

/-- Record `n`, which is `r`, was made by the effectuation `j`, which is `q` and goes back to `o`;
the authorisation is the submission `m`, which is `k`, handed on by its plane. -/
structure Governed (a : ProtectedAuthority R) (s₀ : State R) (acts : List (Act R)) (s : State R)
    (n : Nat) (r : EffectRecord) (j : Nat) (q : Threads.Effectuation R) (o : Threads.Origin R)
    (m : Nat) (k : Call) : Prop where
  made : o.Made a s.threads n r j q
  submission : s.submissions[m]? = some k
  delegated : k.phase = .delegated o.grant.i ∧ k.candidate = o.grant.candidate ∧
    k.cost = o.grant.cost ∧ k.now = o.grant.now
  /-- the plane allowed that submission, signatures included -/
  admitted : ∃ plane : AuthorityPlane R, s₀.planes[k.plane]? = some plane ∧
    plane.protected_authority = a ∧
    plane.policy.Governs R k.candidate k.compute k.evidence k.approvals k.now ∧
    SignaturesVerified a s₀ acts s plane m k
  /-- what was effected is bound to what was submitted, and to nothing else -/
  bound : ∃ kd ed ad, k.compute.digest R = .ok kd ∧ evidenceBundleDigest R k.evidence = .ok ed ∧
    approvalsDigest R k.approvals = .ok ad ∧
    (∀ e ∈ requiredEntries kd ed ad k.compute,
      ∃ t, q.call.candidate.authority_context.lookup e.1 = some (.str t) ∧ NfcEq R t e.2) ∧
    ∀ (compute : ComputeContext) (es : List JurisdictionEvidence) (as : List Approval),
      compute.digest R = .ok kd → evidenceBundleDigest R es = .ok ed →
      approvalsDigest R as = .ok ad →
      Eqv R (.ofFields k.compute.fields) (.ofFields compute.fields) ∧
        (∃ arranged, es.Perm arranged ∧
          List.Forall₂ (fun i j => Eqv R i.asdict j.asdict) k.evidence arranged) ∧
        ∃ arranged, as.Perm arranged ∧
          List.Forall₂ (fun i j => Eqv R i.asdict j.asdict) k.approvals arranged
  subject : ∃ d, governanceSubjectDigest R q.call.candidate = .ok d ∧
    governanceSubjectDigest R k.candidate = .ok d

/-- **The submission behind an effect.** -/
theorem exists_governed (hsha : ShaInjective R) (h0 : s₀.Empty a) (hrun : Run (Step a) s₀ acts s)
    {n : Nat} {r : EffectRecord} (hr : s.threads.effects.effector.records[n]? = some r) :
    ∃ j q o m k, Governed a s₀ acts s n r j q o m k := by
  obtain ⟨acts', hrun'⟩ := exists_threads hrun
  have hinv := inv_of_run h0 hrun
  obtain ⟨j, q, o, ho⟩ := Threads.made_of_run hsha h0.threads hrun' hr
  obtain ⟨p, hp⟩ := ho.origin.grant.called
  obtain ⟨m, k, hm, hk, hcand, hcost, hnow⟩ := hinv.delegated hp
  obtain ⟨plane, hplane, ht⟩ := hinv.traced hm
  simp only [Call.Traced, hk] at ht
  obtain ⟨hsigs, d, hval, hcheck⟩ := ht
  obtain ⟨hallowed, hentries⟩ := AuthorityPlane.checkDecision_ok.1 hcheck
  obtain ⟨hgoverns, hkd, hed, had, -⟩ := SovereigntyPolicy.validate_allowed_iff.1 ⟨hval, hallowed⟩
  -- the candidate effected agrees with the one submitted
  obtain ⟨-, hdigest, -⟩ := ho.origin.agrees
  have heqv : Eqv R q.call.candidate.asdict k.candidate.asdict :=
    hcand ▸ eqv_of_sha256Hex hsha ho.origin.verified.candidate_digest hdigest
  have hsubject := eqv_governanceSubject heqv
  obtain ⟨subject, hsub⟩ := hsubject.canon.sha256Hex
  refine ⟨j, q, o, m, k, ?_⟩
  exact
    { made := ho
      submission := hm
      delegated := ⟨hk, hcand, hcost, hnow⟩
      admitted := ⟨plane, hplane, (h0.front _ (List.mem_of_getElem? hplane)).1, hgoverns, hsigs⟩
      bound := by
        refine ⟨_, _, _, hkd, hed, had, fun e he => ?_, fun k' es' as' =>
          exact_of_digests hsha hkd hed had⟩
        have hlook := hentries e he
        rw [hcand] at hlook
        exact entry_of_eqv_context ho.candidate.authority_context.symm
          (mem_governanceKeys_of_required he) hlook
      subject := ⟨subject, hsub, hsubject.sha256Hex_eq.symm.trans hsub⟩ }

/-- The sample plane in front of empty stores. -/
def samplePlanes : State sampleRuntime := ⟨Threads.State.ofWorld sampleWorld, [samplePlane], []⟩

/-- Nothing has happened at the sample plane. -/
theorem samplePlanes_empty : samplePlanes.Empty sampleAuthority :=
  ⟨Threads.State.ofWorld_empty sampleWorld_empty, rfl, by simp [samplePlanes, samplePlane]⟩

/-- The sample act carried through behind the sample plane. -/
theorem sample_planes_run : ∃ acts s record, Run (Step sampleAuthority) samplePlanes acts s ∧
    s.threads.effects.effector.records = [record] := by
  obtain ⟨es, as, ctx, -, hctx, hadmits, -⟩ := sample_submission
  obtain ⟨cap, -, w, -, record, -, hrun, hrec, -⟩ := respelled_runs hctx
  have hev : Threads.EvidenceSigned samplePlanes.threads.world := by
    intro i e hi
    cases hi
  obtain ⟨acts, s, hrun', hworld⟩ := run_authorize_effectuate (s := samplePlanes) (p := 0)
    (a := sampleAuthority) rfl rfl hadmits hev hrun
  exact ⟨acts, s, record, hrun',
    (congrArg (fun w : World sampleRuntime => w.effects.effector.records) hworld).trans hrec⟩

/-- **Governance soundness in every interleaving.** Whatever the order of the steps of any number
of submissions to any number of planes, of registrations, and of the authorisations and
effectuations behind them, every effect goes back to a submission that its plane admitted under a
decision on that very submission, with each signature accepted by a verifier that was registered
for its principal at the step that checked it; and a submission is behind one effect at most. -/
theorem interleaved_governance (hsha : ShaInjective R) (h0 : s₀.Empty a)
    (hrun : Run (Step a) s₀ acts s) :
    (∀ n r, s.threads.effects.effector.records[n]? = some r →
      ∃ j q o m k, Governed a s₀ acts s n r j q o m k) ∧
    (∀ {n n' r r' j j' q q' o o' m k k'}, Governed a s₀ acts s n r j q o m k →
      Governed a s₀ acts s n' r' j' q' o' m k' → n = n') ∧
    ∀ {p : Nat} {plane : AuthorityPlane R} {d}, s.planes[p]? = some plane →
      plane.last_decision = some d → ∃ (m : Nat) (k : Call), s.submissions[m]? = some k ∧
        k.plane = p ∧
        plane.policy.validate R k.candidate k.compute k.evidence k.approvals k.now = .ok d := by
  refine ⟨fun n r hr => exists_governed hsha h0 hrun hr, fun h h' => ?_,
    (inv_of_run h0 hrun).last_decision⟩
  obtain ⟨acts', hrun'⟩ := exists_threads hrun
  have hk := Option.some.inj (h.submission.symm.trans h'.submission)
  have hi := h.delegated.1.symm.trans (hk ▸ h'.delegated.1)
  exact Threads.grant_inj h0.threads hrun' ⟨_, _, _, _, h.made, rfl⟩ ⟨_, _, _, _, h'.made, rfl⟩
    (Phase.delegated.inj hi)

end

/-- The record of a governed act, traced to its submission. -/
theorem interleaved_governance_sample : ∃ acts s r,
    Run (Step sampleAuthority) samplePlanes acts s ∧
    s.threads.effects.effector.records[0]? = some r ∧
    ∃ j q o m k, Governed sampleAuthority samplePlanes acts s 0 r j q o m k := by
  obtain ⟨acts, s, record, hrun, hrecords⟩ := sample_planes_run
  have hr : s.threads.effects.effector.records[0]? = some record := by simp [hrecords]
  exact ⟨acts, s, record, hrun, hr,
    (interleaved_governance sample_injective samplePlanes_empty hrun).1 0 record hr⟩

end PlaneThreads

end Finality
