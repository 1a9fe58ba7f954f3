import Finality.Core.Conservation
import Finality.Sovereignty.System

/-!
# What a failed authorisation leaves behind

A call of `authorize`, of a plane or of the authority behind it, can raise at many places. Up to
the commit of the evidence none of them is to leave a trace (`Untouched`); at the commit the
transition has been granted, and the nonce and the charge stay (`Burned`). `handed` tells the two
apart: it is the evidence that the call hands to `EvidenceStore.commit`, if it gets there.

With an authority that can sign, what is left to fail after the transition is the writing of the
times (`authorize_failed`): Python prints no integer of more than 4300 digits, so a time past that
raises when the evidence is hashed, with the nonce burned before the commit, or when the capability
is hashed, with the evidence committed. `TimesPrint` says that a call gets to neither place, and
then, and only then, its failure is accounted for (`failed_authorization_accounts_iff`).

Runs are of calls of any kind and in any order, through planes and directly, and a nonce that was
burned stays burned for the rest of the run.
-/

namespace Finality

open Checks ProtectedState ProtectedAuthority Runs

variable {R : Runtime}

/-! ## Calls -/

/-- A call of `authorize`. -/
inductive AuthorizeCall (R : Runtime) where
  | plane (plane : AuthorityPlane R) (candidate : CandidateAct) (compute : ComputeContext)
      (evidence : List JurisdictionEvidence) (approvals : List Approval) (cost now : Int)
  | direct (candidate : CandidateAct) (cost now : Int)

/-- The evidence that `authorize` hands to the evidence store; none if it raises before that. -/
def ProtectedAuthority.handed (a : ProtectedAuthority R) (s : AuthorityStores R)
    (candidate : CandidateAct) (cost now : Int) : Option ValidationEvidence :=
  match buildHcad R candidate none none with
  | .error _ => none
  | .ok descriptor =>
    match a.policy.validate candidate now with
    | (false, _) => none
    | (true, _) =>
      match s.state.transitionForAuthorization R candidate cost with
      | (.error _, _) => none
      | (.ok transition, _) => (a.issueEvidence descriptor candidate transition now).toOption

namespace AuthorizeCall

/-- The candidate to authorise. -/
def candidate : AuthorizeCall R → CandidateAct
  | .plane _ c _ _ _ _ _ => c
  | .direct c _ _ => c

/-- What the authorisation costs. -/
def cost : AuthorizeCall R → Int
  | .plane _ _ _ _ _ cost _ => cost
  | .direct _ cost _ => cost

/-- The time of the call. -/
def now : AuthorizeCall R → Int
  | .plane _ _ _ _ _ _ now => now
  | .direct _ _ now => now

/-- The call as one of the system. -/
def op : AuthorizeCall R → PlaneOp R
  | .plane p c k es as cost now => .authorize p c k es as cost now
  | .direct c cost now => .core (.authorize c cost now)

/-- What the call returns or raises. -/
def result (a : ProtectedAuthority R) (s : AuthorityStores R) :
    AuthorizeCall R → Except PyErr Capability
  | .plane p c k es as cost now => (p.authorize s c k es as cost now).1
  | .direct c cost now => (a.authorize s c cost now).1

/-- The evidence that the call hands to the evidence store; none if it raises before that. -/
def handed (a : ProtectedAuthority R) (s : AuthorityStores R) :
    AuthorizeCall R → Option ValidationEvidence
  | .plane p c k es as cost now =>
      match p.admits c k es as now with
      | .ok () => p.protected_authority.handed s c cost now
      | .error _ => none
  | .direct c cost now => a.handed s c cost now

/-- The call is charged: the plane admits it, and the authority grants its transition. -/
def Due (a : ProtectedAuthority R) (s : AuthorityStores R) : AuthorizeCall R → Prop
  | .plane p c k es as cost now => p.admits c k es as now = .ok () ∧
      p.protected_authority.Due s.state c cost now
  | .direct c cost now => a.Due s.state c cost now

/-- The evidence store takes the evidence that the call hands to it. -/
def Commits (a : ProtectedAuthority R) (s : AuthorityStores R) (call : AuthorizeCall R) : Prop :=
  ∃ ev store, call.handed a s = some ev ∧ s.evidence_store.commit ev = .ok store

/-- **The times of the call can be written**: its own time, once it is charged, and the end of the
capability, once the evidence is committed. -/
structure TimesPrint (a : ProtectedAuthority R) (s : AuthorityStores R) (call : AuthorizeCall R) :
    Prop where
  now : call.Due a s → printsInt call.now = true
  expires : call.Commits a s → printsInt (a.expires call.candidate call.now) = true

end AuthorizeCall

/-- The plane that is called stands in front of the authority. -/
def PlaneOp.FrontOf (a : ProtectedAuthority R) : PlaneOp R → Prop
  | .authorize plane _ _ _ _ _ _ => plane.protected_authority = a
  | .core _ => True

/-- A call of a run: of any kind, through a plane or direct, and nothing is assumed of it. -/
def Called (a : ProtectedAuthority R) (w : World R) (op : PlaneOp R) (w' : World R) : Prop :=
  op.FrontOf a ∧ w' = planeExec a w op

/-! ## The ways an authorisation fails -/

/-- No trace of a call. -/
structure Untouched (s s' : AuthorityStores R) : Prop where
  nonces : s'.state.nonces = s.state.nonces
  transitions : s'.state.transitions = s.state.transitions
  evidence_store : s'.evidence_store = s.evidence_store
  snapshots : ∀ source, (s'.state.snapshot source).1 = (s.state.snapshot source).1

/-- The nonce is reserved and the source charged, and nothing else has changed. -/
structure Burned (s : AuthorityStores R) (c : CandidateAct) (cost : Int)
    (s' : AuthorityStores R) : Prop where
  fresh : c.nonce ∉ s.state.nonces
  nonces : ∃ transition_id, s'.state.nonces = s.state.nonces.insert c.nonce transition_id
  charged : (s'.state.snapshot c.source).1 =
    ⟨(s.state.snapshot c.source).1.version + 1, (s.state.snapshot c.source).1.quota - 1,
      (s.state.snapshot c.source).1.budget - cost⟩
  others : ∀ source, source ≠ c.source →
    (s'.state.snapshot source).1 = (s.state.snapshot source).1
  evidence_store : s'.evidence_store = s.evidence_store

theorem Untouched.refl (s : AuthorityStores R) : Untouched s s := ⟨rfl, rfl, rfl, fun _ => rfl⟩

/-- A refused transition leaves no trace. -/
theorem untouched_of_refused {s : AuthorityStores R} {c : CandidateAct} {st : ProtectedState}
    (h : st = s.state ∨ st = (s.state.getSource c.source).2) :
    Untouched s { s with state := st } := by
  rcases h with rfl | rfl
  · exact .refl s
  · exact ⟨by simp, by simp, rfl, fun source => snapshot_getSource ..⟩

/-- A granted transition burns the nonce and the charge. -/
theorem burned_of_granted {s : AuthorityStores R} {c : CandidateAct} {cost : Int}
    {t : StateTransition} {st : ProtectedState} (hg : Granted R s.state c cost t st)
    (signed : List PyVal) : Burned s c cost { s with state := st, signed := signed } := by
  refine ⟨AList.lookup_eq_none.1 hg.fresh, ⟨_, hg.nonces_eq⟩, hg.charged, fun source hne => ?_, rfl⟩
  have hbalance := congrFun hg.balance_eq source
  rwa [Function.update_of_ne hne] at hbalance

/-- The ways `authorize` fails, with an authority that can sign, and what each leaves behind. -/
inductive Failed (a : ProtectedAuthority R) (s : AuthorityStores R) (c : CandidateAct)
    (cost now : Int) (e : PyErr) (s' : AuthorityStores R) : Prop where
  /-- before the transition is granted -/
  | refused (hdue : ¬ a.Due s.state c cost now) (hhanded : a.handed s c cost now = none)
      (h : Untouched s s')
  /-- the evidence could not be hashed -/
  | unwritten (hdue : a.Due s.state c cost now) (hnow : ¬ printsInt now = true)
      (hhanded : a.handed s c cost now = none) (h : Burned s c cost s')
  /-- the evidence was not committed -/
  | uncommitted {ev : ValidationEvidence} (hnow : printsInt now = true)
      (hhanded : a.handed s c cost now = some ev) (hcommit : s.evidence_store.commit ev = .error e)
      (hsigned : s'.signed = s.signed ++ [ev.unsigned]) (h : Burned s c cost s')
  /-- the capability could not be hashed -/
  | unissued {ev : ValidationEvidence} {store : EvidenceStore R} (hnow : printsInt now = true)
      (hhanded : a.handed s c cost now = some ev) (hcommit : s.evidence_store.commit ev = .ok store)
      (hexpires : ¬ printsInt (a.expires c now) = true)

/-- **How `authorize` fails**, with an authority that can sign. -/
theorem authorize_failed {a : ProtectedAuthority R} (ha : Operational a) {s s' : AuthorityStores R}
    {c : CandidateAct} {cost now : Int} {e : PyErr}
    (h : a.authorize s c cost now = (.error e, s')) : Failed a s c cost now e s' := by
  unfold authorize at h
  split at h
  · rename_i e' hd
    obtain ⟨-, rfl⟩ := Prod.mk.inj h
    refine .refused (fun hdue => ?_) (by simp only [handed, hd]) (.refl s)
    obtain ⟨d, hd', -⟩ : ∃ h, buildHcad R c none none = .ok h ∧ Canon R h.asdict :=
      canon_hcad hdue.canon (candidateCanon_iff.1 hdue.canon).sink_id
        (candidateCanon_iff.1 hdue.canon).boundary_id
    cases hd.symm.trans hd'
  rename_i d hd
  split at h
  · rename_i reasons hpolicy
    obtain ⟨-, rfl⟩ := Prod.mk.inj h
    refine .refused (fun hdue => ?_) (by simp only [handed, hd, hpolicy]) (.refl s)
    cases (congrArg Prod.fst hpolicy).symm.trans hdue.allowed
  rename_i reasons hpolicy
  split at h
  · rename_i st ht
    obtain ⟨-, rfl⟩ := Prod.mk.inj h
    refine .refused (fun hdue => ?_) (by simp only [handed, hd, hpolicy, ht])
      (untouched_of_refused (transitionForAuthorization_error ht))
    obtain ⟨t, st', hg⟩ := hdue.exists_granted
    cases ht.symm.trans (transitionForAuthorization_ok.2 hg)
  rename_i t st ht
  have hg := transitionForAuthorization_ok.1 ht
  have hdue : a.Due s.state c cost now := due_of_granted (congrArg Prod.fst hpolicy) hg
  obtain ⟨d', hd', hdc⟩ : ∃ h, buildHcad R c none none = .ok h ∧ Canon R h.asdict :=
    canon_hcad hdue.canon (candidateCanon_iff.1 hdue.canon).sink_id
      (candidateCanon_iff.1 hdue.canon).boundary_id
  obtain rfl : d = d' := Except.ok.inj (hd.symm.trans hd')
  split at h
  · -- what can be signed can be hashed, but for the time
    rename_i e' hev
    obtain ⟨-, rfl⟩ := Prod.mk.inj h
    refine .unwritten hdue (fun hnow => ?_) (by simp only [handed, hd, hpolicy, ht, hev]; rfl)
      (burned_of_granted hg _)
    obtain ⟨ev, hev'⟩ : ∃ ev, a.issueEvidence d c t now = .ok ev :=
      exists_evidence ha hdue.canon hg hdc hnow
    cases hev.symm.trans hev'
  rename_i ev hev
  have he := issueEvidence_ok hd hev
  have hnow := he.printsInt_committed_at_ns
  have hhanded : a.handed s c cost now = some ev := by
    simp only [handed, hd, hpolicy, ht, hev]
    rfl
  split at h
  · rename_i e' hcommit
    obtain ⟨he', rfl⟩ := Prod.mk.inj h
    obtain rfl := Except.error.inj he'
    exact .uncommitted hnow hhanded hcommit rfl (burned_of_granted hg _)
  rename_i store hcommit
  split at h
  · rename_i e' hcap
    refine .unissued hnow hhanded hcommit fun hexpires => ?_
    obtain ⟨cap, hcap'⟩ : ∃ cap, a.issueCapability d c t ev now = .ok cap :=
      exists_capability ha hdue.canon hg hdc he hnow hexpires
    cases hcap.symm.trans hcap'
  · cases (Prod.mk.inj h).1

/-- A call is refused by the plane, or it is one of the authority. -/
theorem AuthorizeCall.cases {a : ProtectedAuthority R} (w : World R) (call : AuthorizeCall R)
    (hof : call.op.FrontOf a) :
    (¬ call.Due a w.authority ∧ call.handed a w.authority = none ∧ planeExec a w call.op = w ∧
      ∃ e, call.result a w.authority = .error e) ∨
    ((call.Due a w.authority ↔ a.Due w.authority.state call.candidate call.cost call.now) ∧
      call.handed a w.authority = a.handed w.authority call.candidate call.cost call.now ∧
      call.result a w.authority = (a.authorize w.authority call.candidate call.cost call.now).1 ∧
      planeExec a w call.op = exec a w (.authorize call.candidate call.cost call.now)) := by
  cases call with
  | direct c cost now => exact .inr ⟨.rfl, rfl, rfl, rfl⟩
  | plane p c k es as cost now =>
    cases hadmits : p.admits c k es as now with
    | error e =>
      obtain ⟨p', h⟩ : ∃ p', p.authorize w.authority c k es as cost now =
        (.error e, p', w.authority) := AuthorityPlane.authorize_of_not_admits hadmits
      exact .inl ⟨fun hdue => (by cases hadmits.symm.trans hdue.1), by simp only [handed, hadmits],
        planeExec_of_not_admits hadmits, e, by rw [result, h]⟩
    | ok u =>
      have hexec : planeExec a w (.authorize p c k es as cost now) =
        exec a w (.authorize c cost now) := planeExec_of_admits hof hadmits
      obtain rfl : p.protected_authority = a := hof
      obtain ⟨p', h⟩ : ∃ p', p.authorize w.authority c k es as cost now =
          ((p.protected_authority.authorize w.authority c cost now).1, p',
            (p.protected_authority.authorize w.authority c cost now).2) :=
        AuthorityPlane.authorize_of_admits hadmits
      exact .inr ⟨and_iff_right hadmits, by simp only [handed, hadmits]; rfl,
        by rw [result, h]; rfl, hexec⟩

/-! ## Burned for good -/

/-- A call that stands for none of the core system leaves the world alone, and any other is the
call it stands for. -/
theorem called_cases {a : ProtectedAuthority R} {w w' : World R} {op : PlaneOp R}
    (h : Called a w op w') : w' = w ∨ ∃ o, w' = exec a w o := by
  obtain ⟨hof, rfl⟩ := h
  cases op with
  | core o => exact .inr ⟨o, rfl⟩
  | authorize p c k es as cost now =>
    rcases AuthorizeCall.cases w (.plane p c k es as cost now) hof with
      ⟨-, -, hexec, -⟩ | ⟨-, -, -, hexec⟩
    · exact .inl hexec
    · exact .inr ⟨_, hexec⟩

/-- A capability that is signed is told apart from evidence and receipts by its keys, and names
its nonce. -/
theorem unsigned_cases {cap : Capability} {u : PyVal} (hu : cap.unsigned = u) :
    (∀ e : ValidationEvidence, u ≠ e.unsigned) ∧ (∀ r : SinkReceipt, u ≠ r.unsigned) ∧
      ∀ cap' : Capability, u = cap'.unsigned → cap.nonce = cap'.nonce := by
  subst hu
  refine ⟨fun e h => ?_, fun r h => ?_, fun cap' h => ?_⟩
  · simp [Capability.unsigned, ValidationEvidence.unsigned, Capability.entries,
      ValidationEvidence.entries, PyVal.ofEntries] at h
  · simp [Capability.unsigned, SinkReceipt.unsigned, Capability.entries, SinkReceipt.entries,
      PyVal.ofEntries] at h
  · simp only [Capability.unsigned, Capability.entries, PyVal.ofEntries, List.map_cons,
      PyVal.dict.injEq, List.cons.injEq, Prod.mk.injEq, PyVal.str.injEq, true_and] at h
    exact h.2.2.2.2.2.2.1

/-- A capability that a call has signed names a nonce that the call reserved. -/
theorem signed_exec {a : ProtectedAuthority R} {w : World R} {o : Op R} {cap : Capability}
    (h : cap.unsigned ∈ (exec a w o).authority.signed) : cap.unsigned ∈ w.authority.signed ∨
      cap.nonce ∉ w.authority.state.nonces ∧ cap.nonce ∈ (exec a w o).authority.state.nonces := by
  rcases exec_authority a w o with hq | ⟨c, cost, now, t, st, r, -, hauth⟩
  · obtain ⟨rs, hrs⟩ := hq.signed
    rw [hrs] at h
    rcases List.mem_append.1 h with h | h
    · exact .inl h
    · obtain ⟨receipt, -, hr⟩ := List.mem_map.1 h
      exact absurd hr.symm ((unsigned_cases rfl).2.1 receipt)
  · rcases hauth.advanced.mem_signed h with h | ⟨e, he⟩ | ⟨cap', hr, hcap⟩
    · exact .inl h
    · exact absurd he ((unsigned_cases rfl).1 e)
    · obtain ⟨t', ev, hissued⟩ := authorize_ok (hr ▸ hauth.returned)
      rw [(unsigned_cases rfl).2.2 cap' hcap, hissued.capability.nonce, hissued.granted.nonces_eq]
      exact .inr ⟨AList.lookup_eq_none.1 hissued.granted.fresh, (AList.mem_insert _).2 (.inl rfl)⟩

/-- Every capability that was signed names a reserved nonce. -/
theorem signed_reserved {a : ProtectedAuthority R} {w₀ w : World R} {ops : List (PlaneOp R)}
    (h0 : w₀.Empty) (hrun : Run (Called a) w₀ ops w) (cap : Capability)
    (h : cap.unsigned ∈ w.authority.signed) : cap.nonce ∈ w.authority.state.nonces := by
  refine hrun.invariant (fun w => ∀ cap : Capability, cap.unsigned ∈ w.authority.signed →
    cap.nonce ∈ w.authority.state.nonces) ?_ ?_ cap h
  · simp [h0.signed]
  · intro w op w' ih hs cap h
    rcases called_cases hs with rfl | ⟨o, rfl⟩
    · exact ih cap h
    · rcases signed_exec h with h | ⟨-, hnew⟩
      · exact mem_nonces_exec (ih cap h)
      · exact hnew

/-- A nonce that is reserved and that no capability names. -/
structure Spent (n : PyStr) (s : AuthorityStores R) : Prop where
  reserved : n ∈ s.state.nonces
  unnamed : ∀ cap : Capability, cap.unsigned ∈ s.signed → cap.nonce ≠ n

/-- **A nonce without a capability stays without one.** -/
theorem spent_run {a : ProtectedAuthority R} {w w' : World R} {ops : List (PlaneOp R)} {n : PyStr}
    (hrun : Run (Called a) w ops w') (h : Spent n w.authority) : Spent n w'.authority := by
  refine hrun.invariant (fun w => Spent n w.authority) h fun w op w' ih hs => ?_
  rcases called_cases hs with rfl | ⟨o, rfl⟩
  · exact ih
  · refine ⟨mem_nonces_exec ih.reserved, fun cap hcap heq => ?_⟩
    rcases signed_exec hcap with hcap | ⟨hnew, -⟩
    · exact ih.unnamed cap hcap heq
    · exact hnew (heq ▸ ih.reserved)

/-- No authorisation with a reserved nonce succeeds. -/
theorem not_authorized_of_reserved {a : ProtectedAuthority R} {w : World R} {call : AuthorizeCall R}
    (hof : call.op.FrontOf a) (h : call.candidate.nonce ∈ w.authority.state.nonces)
    (cap : Capability) : call.result a w.authority ≠ .ok cap := by
  intro hcap
  rcases AuthorizeCall.cases w call hof with ⟨-, -, -, e, he⟩ | ⟨-, -, hresult, -⟩
  · rw [he] at hcap
    cases hcap
  · rw [hresult] at hcap
    obtain ⟨t, ev, hauth⟩ := authorize_ok (Prod.ext hcap rfl)
    exact AList.lookup_eq_none.1 hauth.granted.fresh h

/-- **A failed call is accounted for.** It has left no trace if it did not get as far as committing
evidence; if it did, it was the commit that raised, the nonce is newly reserved and the source
charged, and from then on no authorisation with that nonce succeeds and no capability for it is ever
signed. -/
structure Accounted (a : ProtectedAuthority R) (w : World R) (call : AuthorizeCall R) (e : PyErr) :
    Prop where
  untouched : call.handed a w.authority = none →
    Untouched w.authority (planeExec a w call.op).authority
  commit : ∀ ev, call.handed a w.authority = some ev →
    w.authority.evidence_store.commit ev = .error e
  burned : ∀ ev, call.handed a w.authority = some ev →
    Burned w.authority call.candidate call.cost (planeExec a w call.op).authority
  for_good : ∀ ev, call.handed a w.authority = some ev →
    ∀ ops w', Run (Called a) (planeExec a w call.op) ops w' →
      (∀ call' : AuthorizeCall R, call'.op.FrontOf a →
        call'.candidate.nonce = call.candidate.nonce →
        ∀ cap, call'.result a w'.authority ≠ .ok cap) ∧
      ∀ cap : Capability, cap.unsigned ∈ w'.authority.signed → cap.nonce ≠ call.candidate.nonce

/-- A call that hands over no evidence is accounted for when it leaves no trace. -/
theorem accounted_of_untouched {a : ProtectedAuthority R} {w : World R} {call : AuthorizeCall R}
    {e : PyErr} (hhanded : call.handed a w.authority = none)
    (h : Untouched w.authority (planeExec a w call.op).authority) : Accounted a w call e where
  untouched := fun _ => h
  commit := fun ev hev => by cases hhanded.symm.trans hev
  burned := fun ev hev => by cases hhanded.symm.trans hev
  for_good := fun ev hev => by cases hhanded.symm.trans hev

/-- A nonce that a call has burned, without signing a capability, is spent. -/
theorem spent_of_burned {a : ProtectedAuthority R} {w₀ w : World R} {ops : List (PlaneOp R)}
    (h0 : w₀.Empty) (hrun : Run (Called a) w₀ ops w) {c : CandidateAct} {cost : Int}
    {s' : AuthorityStores R} {ev : ValidationEvidence}
    (hsigned : s'.signed = w.authority.signed ++ [ev.unsigned])
    (hburned : Burned w.authority c cost s') : Spent c.nonce s' where
  reserved := by
    obtain ⟨tid, hnonces⟩ := hburned.nonces
    rw [hnonces, AList.mem_insert]
    exact .inl rfl
  unnamed := fun cap hcap heq => by
    rw [hsigned] at hcap
    rcases List.mem_append.1 hcap with hcap | hcap
    · exact hburned.fresh (heq ▸ signed_reserved h0 hrun cap hcap)
    · exact (unsigned_cases (List.mem_singleton.1 hcap)).1 ev rfl

/-- A burned nonce is not an untouched table. -/
theorem Burned.not_untouched {s s' : AuthorityStores R} {c : CandidateAct} {cost : Int}
    (h : Burned s c cost s') : ¬ Untouched s s' := by
  intro hsame
  obtain ⟨tid, hnonces⟩ := h.nonces
  refine h.fresh ?_
  rw [← hsame.nonces, hnonces, AList.mem_insert]
  exact .inl rfl

/-- **When a failed authorisation is accounted for.** In any state that calls of any kind reach from
empty stores, a call of `authorize` that raises, of a plane or of the authority, is accounted for
exactly when its times can be written. -/
theorem failed_authorization_accounts_iff {a : ProtectedAuthority R} (ha : Operational a)
    {w₀ w : World R} {ops : List (PlaneOp R)} (h0 : w₀.Empty) (hrun : Run (Called a) w₀ ops w)
    {call : AuthorizeCall R} (hof : call.op.FrontOf a) {e : PyErr}
    (hraise : call.result a w.authority = .error e) :
    Accounted a w call e ↔ call.TimesPrint a w.authority := by
  rcases AuthorizeCall.cases w call hof with
    ⟨hdue, hhanded, hexec, -⟩ | ⟨hdue, hhanded, hresult, hexec⟩
  · -- the plane refused
    refine iff_of_true (accounted_of_untouched hhanded (by rw [hexec]; exact .refl _))
      ⟨fun h => absurd h hdue, ?_⟩
    rintro ⟨ev, store, hev, -⟩
    cases hhanded.symm.trans hev
  rw [hresult] at hraise
  have hauthority : (planeExec a w call.op).authority =
      (a.authorize w.authority call.candidate call.cost call.now).2 := by rw [hexec]; rfl
  cases authorize_failed ha (Prod.ext hraise hauthority.symm) with
  | refused hnot hnone huntouched =>
    refine iff_of_true (accounted_of_untouched (hhanded.trans hnone) huntouched)
      ⟨fun h => absurd (hdue.1 h) hnot, ?_⟩
    rintro ⟨ev, store, hev, -⟩
    cases (hhanded.trans hnone).symm.trans hev
  | unwritten hdue' hnow hnone hburned =>
    exact iff_of_false (fun h => hburned.not_untouched (h.untouched (hhanded.trans hnone)))
      fun h => hnow (h.now (hdue.2 hdue'))
  | @uncommitted ev hnow hsome hcommit hsigned hburned =>
    have hev : ∀ ev', call.handed a w.authority = some ev' → ev' = ev := fun ev' h =>
      Option.some.inj (h.symm.trans (hhanded.trans hsome))
    refine iff_of_true ⟨fun h => ?_, fun ev' h => hev ev' h ▸ hcommit, fun _ _ => hburned,
      fun _ _ ops' w' hrun' => ?_⟩ ⟨fun _ => hnow, ?_⟩
    · cases h.symm.trans (hhanded.trans hsome)
    · have hspent := spent_run hrun' (spent_of_burned h0 hrun hsigned hburned)
      exact ⟨fun call' hof' hn cap => not_authorized_of_reserved hof' (hn ▸ hspent.reserved) cap,
        hspent.unnamed⟩
    · rintro ⟨ev', store, hev', hcommit'⟩
      rw [hev ev' hev'] at hcommit'
      cases hcommit.symm.trans hcommit'
  | @unissued ev store hnow hsome hcommit hexpires =>
    refine iff_of_false (fun h => ?_) fun h => hexpires (h.expires ⟨ev, store, hhanded.trans hsome,
      hcommit⟩)
    cases hcommit.symm.trans (h.commit ev (hhanded.trans hsome))

/-- The sample world with an evidence store that fails. -/
def failingWorld : World sampleRuntime := exec sampleAuthority sampleWorld (.failCommits true)

/-- Its evidence store takes no evidence. -/
theorem failingWorld_refuses {cap : Capability} :
    (AuthorizeCall.direct sampleCandidate 1 200).result sampleAuthority failingWorld.authority ≠
      .ok cap := by
  intro h
  rw [AuthorizeCall.result] at h
  generalize hr : sampleAuthority.authorize failingWorld.authority sampleCandidate 1 200 = r at h
  obtain ⟨t, ev, hauth⟩ := authorize_ok (hr.trans (Prod.ext h rfl))
  have hfails : failingWorld.authority.evidence_store.fail_commits = true := rfl
  cases hfails.symm.trans (EvidenceStore.commit_ok.1 hauth.committed).1

/-- What a call of the authority leaves behind. -/
theorem planeExec_direct (a : ProtectedAuthority R) (w : World R) (c : CandidateAct) (cost : Int)
    (now : Int) : (planeExec a w (AuthorizeCall.direct c cost now).op).authority =
      (a.authorize w.authority c cost now).2 := rfl

/-- The failing world has reserved no nonce. -/
theorem failingWorld_nonces : failingWorld.authority.state.nonces = ∅ := rfl

/-- The sample act is granted its transition there, so its call gets as far as the commit. -/
theorem failingWorld_grants : sampleCandidate.nonce ∈
    (sampleAuthority.authorize failingWorld.authority sampleCandidate 1 200).2.state.nonces := by
  obtain ⟨t, st', hg⟩ : ∃ t st', Granted sampleRuntime failingWorld.authority.state
      sampleCandidate 1 t st' := (sample_due (show Canon sampleRuntime
    (sampleCandidate.withContent _ _).asdict from sample_canon.1)).exists_granted
  have hstate := authorize_state (s := failingWorld.authority) sample_canon.1
    (sample_allows sampleCandidate.payload sampleCandidate.authority_context) hg
  rw [hstate, hg.nonces_eq]
  exact (AList.mem_insert _).2 (.inl rfl)

theorem failed_authorization_accounts_iff_sample : ∃ e ev,
    (AuthorizeCall.direct sampleCandidate 1 200).result sampleAuthority failingWorld.authority =
      .error e ∧
    (AuthorizeCall.direct sampleCandidate 1 200).handed sampleAuthority failingWorld.authority =
      some ev ∧
    Burned failingWorld.authority sampleCandidate 1 (planeExec sampleAuthority failingWorld
      (AuthorizeCall.direct sampleCandidate 1 200).op).authority := by
  have hrun : Run (Called sampleAuthority) sampleWorld [.core (.failCommits true)] failingWorld :=
    .single ⟨trivial, rfl⟩
  have hprint : (AuthorizeCall.direct sampleCandidate 1 200).TimesPrint sampleAuthority
      failingWorld.authority :=
    ⟨fun _ => (by decide : printsInt 200 = true),
      fun _ => (by decide : printsInt (sampleAuthority.expires sampleCandidate 200) = true)⟩
  cases hresult : (AuthorizeCall.direct sampleCandidate 1 200).result sampleAuthority
      failingWorld.authority with
  | ok cap => exact absurd hresult failingWorld_refuses
  | error e =>
    have haccounts := (failed_authorization_accounts_iff sample_operational sampleWorld_empty hrun
      (show (AuthorizeCall.direct sampleCandidate 1 200).op.FrontOf sampleAuthority from trivial)
      hresult).2 hprint
    cases hhanded : (AuthorizeCall.direct sampleCandidate 1 200).handed sampleAuthority
        failingWorld.authority with
    | none =>
      have hsame := (haccounts.untouched hhanded).nonces
      rw [planeExec_direct, failingWorld_nonces] at hsame
      have hmem := failingWorld_grants
      rw [hsame] at hmem
      exact absurd hmem (AList.notMem_empty _)
    | some ev => exact ⟨e, ev, rfl, rfl, haccounts.burned ev hhanded⟩

/-! ## A time that does not print -/

/-- A call that can be charged at a time that does not print raises with its nonce burned, and hands
over no evidence. -/
theorem unwritten_of_due {a : ProtectedAuthority R} (ha : Operational a) {w : World R}
    {c : CandidateAct} {cost now : Int} (hdue : Due a w.authority.state c cost now)
    (hnow : ¬ printsInt now = true) :
    ∃ e, (AuthorizeCall.direct c cost now).result a w.authority = .error e ∧
      (AuthorizeCall.direct c cost now).handed a w.authority = none ∧
      ¬ Accounted a w (.direct c cost now) e := by
  obtain ⟨r, s', h⟩ : ∃ r s', a.authorize w.authority c cost now = (r, s') := ⟨_, _, rfl⟩
  cases r with
  | ok cap =>
    obtain ⟨t, ev, hauth⟩ := authorize_ok h
    exact absurd hauth.capability.printsInt_times.1 hnow
  | error e =>
    have hafter : (planeExec a w (AuthorizeCall.direct c cost now).op).authority = s' := by
      rw [planeExec_direct, h]
    cases authorize_failed ha h with
    | refused hrefused => exact absurd hdue hrefused
    | unwritten _ _ hnone hburned =>
      refine ⟨e, by rw [AuthorizeCall.result, h], hnone, fun haccounted => ?_⟩
      exact hburned.not_untouched (hafter ▸ haccounted.untouched hnone)
    | uncommitted hprints | unissued hprints => exact absurd hprints hnow

/-- The first integer that Python does not print. -/
def unprinted : Int := (10 ^ maxStrDigits : Nat)

theorem not_printsInt_unprinted : ¬ printsInt unprinted = true := by
  rw [printsInt_iff, unprinted, Int.natAbs_natCast]
  exact Nat.lt_irrefl _

/-- The integer before it is printed, and there are some. -/
theorem unprinted_bounds : 1 < unprinted ∧ printsInt (unprinted - 1) = true := by
  have hpow : 1 < 10 ^ maxStrDigits := Nat.one_lt_pow (by decide) (by decide)
  rw [printsInt_iff, unprinted]
  generalize 10 ^ maxStrDigits = n at hpow
  omega

/-- The sample act with other times. -/
def timedCandidate (issued_at_ns freshness_ns : Int) : CandidateAct :=
  { sampleCandidate with issued_at_ns := issued_at_ns, freshness_ns := freshness_ns }

/-- In empty stores the sample act can be charged just after its time of issue, as long as that can
be written. -/
theorem timedCandidate_due {m : Int} (hm : 1 < m) (hprint : printsInt (m - 1) = true) :
    Due sampleAuthority sampleWorld.authority.state (timedCandidate (m - 1) (m - 1)) 1 m :=
  { sample_due (show Canon sampleRuntime (sampleCandidate.withContent _ _).asdict from
      sample_canon.1) with
    canon := candidateCanon_iff.2 { candidateCanon_iff.1 sample_canon.1 with
      issued_at_ns := hprint
      freshness_ns := hprint }
    allowed := Policy.allows_iff_admits.2 { Policy.allows_iff_admits.1
      (sample_allows sampleCandidate.payload sampleCandidate.authority_context) with
      freshness := by
        simp only [timedCandidate]
        omega
      not_early := by
        simp only [timedCandidate, sampleAuthority, samplePolicy]
        omega
      not_late := by
        simp only [timedCandidate]
        omega } }

/-- **A nonce burned before the commit**: at a time that does not print the authority raises when it
hashes the evidence, and the nonce is reserved although no evidence was handed over. -/
theorem burned_before_commit : ∃ e,
    (AuthorizeCall.direct (timedCandidate (unprinted - 1) (unprinted - 1)) 1 unprinted).result
      sampleAuthority sampleWorld.authority = .error e ∧
    (AuthorizeCall.direct (timedCandidate (unprinted - 1) (unprinted - 1)) 1 unprinted).handed
      sampleAuthority sampleWorld.authority = none ∧
    ¬ Accounted sampleAuthority sampleWorld
      (.direct (timedCandidate (unprinted - 1) (unprinted - 1)) 1 unprinted) e := by
  obtain ⟨hpos, hprint⟩ := unprinted_bounds
  exact unwritten_of_due sample_operational (timedCandidate_due hpos hprint) not_printsInt_unprinted

end Finality
