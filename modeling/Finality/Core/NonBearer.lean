import Finality.Core.Ed25519
import Finality.Core.Completeness
import Finality.Core.Provenance

/-!
# The strict non-bearer profile

A sink that requires a presentation proof makes an effect for whoever holds the key that the
candidate's context names, not for whoever holds the capability. The runs here are those of the
system together with the presenters, who sign what they please; the proofs that the calls submit
are arbitrary, except that a presenter's signature is not forged. A sink may hold a presenter's own
authenticator or a copy with the public key alone; a signature is the presenter's in both cases.
-/

namespace Finality

open Checks ProtectedState ProtectedAuthority FinalitySink Runs

namespace NonBearer

/-- What the calls share, and the proofs that presenters have signed, each with the authenticator
that signed it. -/
structure State (R : Runtime) where
  world : World R
  presented : List (Authenticator R × PresentationProof)

/-- A call, or a presentation that a presenter signs. -/
inductive Act (R : Runtime) where
  | call (op : Op R)
  | prove (presenter : Presenter R)
      (capability_id candidate_digest sink_id boundary_id nonce : PyStr)
      (presented_at_ns : Int)

section
variable {R : Runtime}

/-- The values are signed as the same bytes. -/
def SameMessage (R : Runtime) (v w : PyVal) : Prop :=
  ∃ b, canonicalBytes R v = .ok b ∧ canonicalBytes R w = .ok b

/-- **Presenters' unforgeability**: the message of a proof that a registered verifier accepts was
signed before by a presenter whose key pair the verifier belongs to. -/
def PresenterUnforged (s : State R) : Op R → Prop
  | .effectuate sink _ _ _ (some proof) => ∀ registry verifier,
      sink.presenter_verifier = some registry →
      registry.verifiers.lookup proof.presenter_key_id = some verifier →
      verifier.verify proof.unsigned proof.signature proof.presenter_key_id = .ok true →
        ∃ signer p, verifier.VerifierOf signer ∧ (signer, p) ∈ s.presented ∧
          SameMessage R p.unsigned proof.unsigned
  | _ => True

/-- The proof that `prove` returned, if it did. -/
def proved (presenter : Presenter R) : Except PyErr PresentationProof →
    List (Authenticator R × PresentationProof)
  | .error _ => []
  | .ok p => [(presenter.authenticator, p)]

/-- An action of a run. -/
def Step (a : ProtectedAuthority R) (s : State R) : Act R → State R → Prop
  | .call op, s' =>
      Finality.Step a s.world op s'.world ∧ PresenterUnforged s op ∧ s'.presented = s.presented
  | .prove presenter capability_id candidate_digest sink_id boundary_id nonce presented_at_ns, s' =>
      s'.world = s.world ∧ s'.presented = s.presented ++ proved presenter
        (presenter.prove capability_id candidate_digest sink_id boundary_id nonce presented_at_ns)

/-- The call of an action. -/
def Act.op? : Act R → Option (Op R)
  | .call op => some op
  | .prove .. => none

/-- A run of the system with its presenters is a run of the system. -/
theorem run_world {a : ProtectedAuthority R} {s₀ s : State R} {acts : List (Act R)}
    (h : Run (Step a) s₀ acts s) :
    Run (Finality.Step a) s₀.world (acts.filterMap Act.op?) s.world := by
  refine h.simulation State.world Act.op? ?_ ?_
  · intro s act t hs hnone
    cases act with
    | call op => cases hnone
    | prove => exact hs.1
  · intro s act t op hs hsome
    cases act with
    | call op' =>
      obtain rfl := Option.some.inj hsome
      exact hs.1
    | prove => cases hsome

/-- A presenter whose key pair the verifier belongs to has signed the proof in one of the
actions. -/
def Proved (acts : List (Act R)) (verifier : Authenticator R) (p : PresentationProof) : Prop :=
  ∃ presenter : Presenter R, verifier.VerifierOf presenter.authenticator ∧
    .prove presenter p.capability_id p.candidate_digest p.sink_id p.boundary_id p.nonce
      p.presented_at_ns ∈ acts ∧
    presenter.prove p.capability_id p.candidate_digest p.sink_id p.boundary_id p.nonce
      p.presented_at_ns = .ok p

theorem Proved.mono {acts acts' : List (Act R)} {verifier : Authenticator R}
    {p : PresentationProof} (h : Proved acts verifier p) (hsub : acts ⊆ acts') :
    Proved acts' verifier p := by
  obtain ⟨presenter, hkey, hmem, hp⟩ := h
  exact ⟨presenter, hkey, hsub hmem, hp⟩

/-- The proof that `prove` returns says what it was asked to. -/
theorem prove_ok {presenter : Presenter R} {i d sid bid n : PyStr} {at_ns : Int}
    {p : PresentationProof} (h : presenter.prove i d sid bid n at_ns = .ok p) :
    p.capability_id = i ∧ p.candidate_digest = d ∧ p.sink_id = sid ∧ p.boundary_id = bid ∧
      p.nonce = n ∧ p.presented_at_ns = at_ns ∧
      p.presenter_key_id = presenter.authenticator.key_id ∧
      presenter.authenticator.sign p.unsigned = .ok p.signature := by
  obtain ⟨signature, hs, hp⟩ := bind_eq_ok.1 h
  obtain rfl := Except.ok.inj hp
  exact ⟨rfl, rfl, rfl, rfl, rfl, rfl, rfl, hs⟩

/-- **The proofs in the history were signed by a presenter in the run.** -/
theorem proved_of_run {a : ProtectedAuthority R} {s₀ s : State R} {acts : List (Act R)}
    (h0 : s₀.presented = []) (h : Run (Step a) s₀ acts s) :
    ∀ v signer p, v.VerifierOf signer → (signer, p) ∈ s.presented → Proved acts v p := by
  refine h.invariantTrace (fun acts s => ∀ v signer p, v.VerifierOf signer →
    (signer, p) ∈ s.presented → Proved acts v p) ?_ ?_
  · simp [h0]
  intro acts s act s' _ ih hs v signer p hpair hp
  cases act with
  | call op =>
    rw [hs.2.2] at hp
    exact (ih v signer p hpair hp).mono (List.subset_append_left _ _)
  | prove presenter i d sid bid n at_ns =>
    rw [hs.2, List.mem_append] at hp
    rcases hp with hp | hp
    · exact (ih v signer p hpair hp).mono (List.subset_append_left _ _)
    · cases hr : presenter.prove i d sid bid n at_ns with
      | error e => simp [hr, proved] at hp
      | ok q =>
        rw [hr, proved, List.mem_singleton] at hp
        obtain ⟨rfl, rfl⟩ := Prod.mk.inj hp
        obtain ⟨rfl, rfl, rfl, rfl, rfl, rfl, -, -⟩ := prove_ok hr
        exact ⟨presenter, hpair, List.mem_append_right _ List.mem_cons_self, hr⟩

/-! ## What the sink has checked -/

/-- The arguments of a call of `effectuate`. -/
structure Effectuation (R : Runtime) where
  sink : FinalitySink R
  candidate : CandidateAct
  cap : Capability
  now : Int
  proof : Option PresentationProof

/-- The call. -/
def Effectuation.op (e : Effectuation R) : Op R :=
  .effectuate e.sink e.candidate e.cap e.now e.proof

/-- The verifier registered for the presenter that the candidate names. -/
def Registered (e : Effectuation R) (key : PyStr) (verifier : Authenticator R) : Prop :=
  e.candidate.authority_context.lookup (py "presenter_key_id") = some (.str key) ∧
    ∃ registry, e.sink.presenter_verifier = some registry ∧
      registry.verifiers.lookup key = some verifier

/-- The presentation that a call needs, of the given time. -/
def Effectuation.presentation (e : Effectuation R) (key candidate_digest : PyStr)
    (presented_at_ns : Int) : PresentationProof where
  capability_id := e.cap.capability_id
  candidate_digest := candidate_digest
  sink_id := e.sink.context.sink_id
  boundary_id := e.sink.context.boundary_id
  nonce := e.candidate.nonce
  presented_at_ns := presented_at_ns
  presenter_key_id := key
  signature := []

/-- **What the block under `require_presentation_proof` has checked.** -/
theorem checkPresentation_ok {e : Effectuation R}
    (h : e.sink.checkPresentation e.candidate e.cap e.now e.proof = .ok ()) :
    ∃ q key verifier, e.proof = some q ∧ Registered e key verifier ∧
      e.candidate.digest R = .ok q.candidate_digest ∧
      q.unsigned = (e.presentation key q.candidate_digest q.presented_at_ns).unsigned ∧
      (e.now - q.presented_at_ns).natAbs ≤ e.sink.presentation_freshness_ns ∧
      q.capability_id = e.cap.capability_id ∧ q.presenter_key_id = key ∧
      verifier.verify q.unsigned q.signature q.presenter_key_id = .ok true := by
  unfold checkPresentation at h
  split at h
  case h_2 => cases h
  rename_i q registry hq hregistry
  simp only [bind_eq_ok, failIf_eq_ok, exists_unit, ne_eq, Decidable.not_not, not_or,
    Bool.not_eq_false, gt_iff_lt, not_lt] at h
  obtain ⟨hbound, hid, d, hd, rfl, ⟨hsink, hboundary⟩, hnonce, hfresh, s, hs, rfl⟩ := h
  unfold presenterBound at hbound
  split at hbound
  case h_2 => cases hbound
  rename_i key hkey
  have hkey' : q.presenter_key_id = key := of_decide_eq_true hbound
  unfold PresenterVerifierRegistry.verify at hs
  split at hs
  · cases hs
  rename_i verifier hverifier
  have hunsigned : q.unsigned =
      (e.presentation key q.candidate_digest q.presented_at_ns).unsigned := by
    rw [PresentationProof.unsigned, PresentationProof.entries, hid, hsink, hboundary, hnonce, hkey']
    rfl
  exact ⟨q, key, verifier, hq, ⟨hkey, registry, hregistry, hkey' ▸ hverifier⟩, hd, hunsigned,
    hfresh, hid, hkey', hs⟩

/-- **A call that appends a record** verified its capability, claimed it and committed. -/
theorem committed_of_records {a : ProtectedAuthority R} {w : World R} {e : Effectuation R}
    (h : (exec a w e.op).effects.effector.records ≠ w.effects.effector.records) :
    (∃ d, Verified e.sink w.authority.evidence_store w.authority.state e.candidate e.cap e.now
      e.proof d) ∧
    e.cap.capability_id ∉ w.effects.consumption_store.claims ∧
    e.cap.capability_id ∈ (exec a w e.op).effects.consumption_store.claims := by
  rcases exec_effects a w e.op with ⟨-, hr⟩ | ⟨sink, c, cap, now, proof, r, hop, he⟩
  · exact absurd hr h
  obtain ⟨rfl, rfl, rfl, rfl, rfl⟩ := Op.effectuate.inj hop
  generalize exec a w e.op = w' at h he
  obtain ⟨auth, stores⟩ := w'
  cases he with
  | unverified => exact absurd rfl h
  | replayed => exact absurd rfl h
  | failed _ _ he => exact absurd (GuardedEffector.commit_error he).1 h
  | committed hv hc he =>
    obtain ⟨hfresh, rfl⟩ := InMemoryConsumptionStore.claim_ok.1 hc
    exact ⟨⟨_, hv⟩, hfresh, (AList.mem_insert _).2 (.inl rfl)⟩

/-- A claim is never withdrawn. -/
theorem mem_claims_run {a : ProtectedAuthority R} {w w' : World R} {ops : List (Op R)} {i : PyStr}
    (hrun : Run (Finality.Step a) w ops w') (hi : i ∈ w.effects.consumption_store.claims) :
    i ∈ w'.effects.consumption_store.claims := by
  refine hrun.invariant (fun w => i ∈ w.effects.consumption_store.claims) hi ?_
  rintro w op w' hi ⟨-, rfl⟩
  rcases exec_effects a w op with ⟨hc, -⟩ | ⟨sink, c, cap, now, proof, r, rfl, he⟩
  · rwa [hc]
  generalize exec a w (.effectuate sink c cap now proof) = w' at he
  obtain ⟨auth, stores⟩ := w'
  cases he with
  | unverified => exact hi
  | replayed => exact hi
  | failed _ hc =>
    obtain ⟨-, rfl⟩ := InMemoryConsumptionStore.claim_ok.1 hc
    exact (AList.mem_insert _).2 (.inr hi)
  | committed _ hc =>
    obtain ⟨-, rfl⟩ := InMemoryConsumptionStore.claim_ok.1 hc
    exact (AList.mem_insert _).2 (.inr hi)

/-! ## Effects of a run -/

/-- The call `e`, made after the actions `before` of the run, appended the record `r`. -/
def EffectAt (a : ProtectedAuthority R) (s₀ : State R) (acts before : List (Act R))
    (e : Effectuation R) (r : EffectRecord) : Prop :=
  ∃ after u v, acts = before ++ .call e.op :: after ∧ Run (Step a) s₀ before u ∧
    Step a u (.call e.op) v ∧ v.world.effects.effector.records =
      u.world.effects.effector.records ++ [r]

/-- The proof that the call submits is over the message of a signed one. -/
def Contributes (p : PresentationProof) (e : Effectuation R) : Prop :=
  ∃ q, e.proof = some q ∧ SameMessage R p.unsigned q.unsigned

/-- A presentation for the effect of a call: who signed it, and over what. -/
structure Presents (acts : List (Act R)) (e : Effectuation R) (key : PyStr)
    (verifier : Authenticator R) (p : PresentationProof) : Prop where
  registered : Registered e key verifier
  signed : Proved acts verifier p
  /-- The signature is over exactly the presentation of this call. -/
  message : SameMessage R p.unsigned
    (e.presentation key p.candidate_digest p.presented_at_ns).unsigned
  capability_id : p.capability_id = e.cap.capability_id
  candidate_digest : e.candidate.digest R = .ok p.candidate_digest
  sink_id : NfcEq R p.sink_id e.sink.context.sink_id
  boundary_id : NfcEq R p.boundary_id e.sink.context.boundary_id
  nonce : NfcEq R p.nonce e.candidate.nonce
  fresh : (e.now - p.presented_at_ns).natAbs ≤ e.sink.presentation_freshness_ns
  used : Contributes p e

variable {a : ProtectedAuthority R} {s₀ s : State R} {acts before : List (Act R)}
  {e : Effectuation R} {r : EffectRecord}

/-- Every record was appended by a call of the run. -/
theorem exists_effectAt (h0 : s₀.world.Empty) (hrun : Run (Step a) s₀ acts s)
    (hr : r ∈ s.world.effects.effector.records) : ∃ before e, EffectAt a s₀ acts before e r := by
  obtain ⟨before, act, after, u, v, rfl, hu, hstep, hnot, hin, -⟩ :=
    hrun.turnsOn (fun s => r ∈ s.world.effects.effector.records) (by simp [h0.records]) hr
  cases act with
  | prove => exact absurd (hstep.1 ▸ hin) hnot
  | call op =>
    have hexec := hstep.1.2
    rw [hexec] at hin
    obtain ⟨sink, c, cap, now, proof, d, claims, effector, rfl, hv, hclaim, hcommit⟩ :=
      record_of_exec hnot hin
    have heff := (GuardedEffector.commit_ok.1 hcommit).2.2.2
    refine ⟨before, ⟨sink, c, cap, now, proof⟩, after, u, v, rfl, hu, hstep, ?_⟩
    rw [hexec]
    simp only [exec, effectuate, verify_ok.2 hv, hclaim, hcommit, heff]

/-- The id of a capability that a sink accepts in a run is a digest. -/
theorem inert_capability_id (h0 : s₀.world.Empty) (hrun : Run (Step a) s₀ acts s) {d : PyStr}
    (hunforged : Unforged s.world e.op)
    (hv : Verified e.sink s.world.authority.evidence_store s.world.authority.state e.candidate
      e.cap e.now e.proof d) : Inert e.cap.capability_id := by
  obtain ⟨c₀, cost, t₀, cap₀, hi, hcap⟩ :=
    issued_of_signedBefore h0 (run_world hrun) (hunforged hv.signed)
  rw [capability_id_of_capabilityEqv hi hcap]
  obtain ⟨_, _, _, _, _, _, hret⟩ := hi
  obtain ⟨t, ev, hauth⟩ := authorize_ok hret
  exact inert_of_sha256Hex hauth.capability.capability_id

/-- **A strict sink makes no effect without a presentation.** -/
theorem exists_presentation (h0 : s₀.world.Empty) (hp : s₀.presented = [])
    (h : EffectAt a s₀ acts before e r) (hstrict : e.sink.require_presentation_proof = true) :
    ∃ key verifier p, Presents before e key verifier p := by
  obtain ⟨after, u, v, rfl, hu, ⟨⟨hunforged, hexec⟩, hpresenter, -⟩, hrecords⟩ := h
  rw [hexec] at hrecords
  obtain ⟨⟨d, hv⟩, -, -⟩ := committed_of_records (a := a) (w := u.world) (e := e)
    (by rw [hrecords]; simp)
  obtain ⟨q, key, verifier, hq, hregistered, hd, hunsigned, hfresh, hid, hkey, hverify⟩ :=
    checkPresentation_ok (hv.presentation hstrict)
  -- the presenter whose signature that is
  obtain ⟨signer, p, hpair, hmem, hsame⟩ : ∃ signer p, verifier.VerifierOf signer ∧
      (signer, p) ∈ u.presented ∧ SameMessage R p.unsigned q.unsigned := by
    obtain ⟨-, registry, hregistry, hlookup⟩ := hregistered
    rw [Effectuation.op, hq] at hpresenter
    exact hpresenter registry verifier hregistry (hkey ▸ hlookup) hverify
  obtain ⟨b, hpb, hqb⟩ := id hsame
  have heqv := presentationEqv_of_eqv (eqv_of_canonicalBytes hpb (hunsigned ▸ hqb))
  have hinert := inert_capability_id h0 hu hunforged hv
  have hcd : p.candidate_digest = q.candidate_digest :=
    heqv.candidate_digest.eq_of_inert (inert_of_sha256Hex hd)
  have hat : p.presented_at_ns = q.presented_at_ns := heqv.presented_at_ns
  refine ⟨key, verifier, p, ?_⟩
  exact
    { registered := hregistered
      signed := proved_of_run hp hu verifier signer p hpair hmem
      message := by
        rw [hcd, hat, ← hunsigned]
        exact hsame
      capability_id := heqv.capability_id.eq_of_inert hinert
      candidate_digest := by rw [hcd]; exact hd
      sink_id := heqv.sink_id
      boundary_id := heqv.boundary_id
      nonce := heqv.nonce
      fresh := by rw [hat]; exact hfresh
      used := ⟨q, hq, hsame⟩ }

/-- A signature that contributes to an effect names its capability. -/
theorem capability_id_of_contributes (h0 : s₀.world.Empty) {p : PresentationProof}
    (h : EffectAt a s₀ acts before e r) (hstrict : e.sink.require_presentation_proof = true)
    (hp : Contributes p e) : p.capability_id = e.cap.capability_id := by
  obtain ⟨after, u, v, rfl, hu, ⟨⟨hunforged, hexec⟩, -, -⟩, hrecords⟩ := h
  rw [hexec] at hrecords
  obtain ⟨⟨d, hv⟩, -, -⟩ := committed_of_records (a := a) (w := u.world) (e := e)
    (by rw [hrecords]; simp)
  obtain ⟨q, -, -, hq, -, -, -, -, hid, -, -⟩ := checkPresentation_ok (hv.presentation hstrict)
  obtain ⟨q', hq', b, hpb, hqb⟩ := hp
  obtain rfl : q = q' := Option.some.inj (hq.symm.trans hq')
  have heqv := presentationEqv_of_eqv (eqv_of_canonicalBytes hpb hqb)
  rw [← hid]
  exact heqv.capability_id.eq_of_inert (hid ▸ inert_capability_id h0 hu hunforged hv)

/-- After a call has made an effect, no later call makes one of the same capability. -/
theorem not_effectAt_later {mid : List (Act R)} {e' : Effectuation R} {r' : EffectRecord}
    (h : EffectAt a s₀ acts before e r)
    (h' : EffectAt a s₀ acts (before ++ .call e.op :: mid) e' r')
    (hid : e.cap.capability_id = e'.cap.capability_id) : False := by
  obtain ⟨-, u, v, -, hu, ⟨⟨-, hexec⟩, -, -⟩, hrecords⟩ := h
  obtain ⟨-, u', v', -, hu', ⟨⟨-, hexec'⟩, -, -⟩, hrecords'⟩ := h'
  rw [hexec] at hrecords
  rw [hexec'] at hrecords'
  obtain ⟨-, -, hclaimed⟩ := committed_of_records (a := a) (w := u.world) (e := e)
    (by rw [hrecords]; simp)
  obtain ⟨-, hfresh, -⟩ := committed_of_records (a := a) (w := u'.world) (e := e')
    (by rw [hrecords']; simp)
  -- the later call starts where the earlier one, and what came between, led
  obtain ⟨u₁, hu₁, hrest⟩ := hu'.split
  obtain ⟨v₁, ⟨⟨-, hv₁⟩, -, -⟩, hmid⟩ := hrest.cons_inv
  have hworld : u₁.world = u.world := run_functional (run_world hu₁) (run_world hu)
  refine hfresh ?_
  rw [← hid]
  refine mem_claims_run (run_world hmid) ?_
  rw [hv₁, hworld]
  exact hclaimed

/-- **No signature contributes to two effects.** -/
theorem contributes_once (h0 : s₀.world.Empty) {before' : List (Act R)} {e' : Effectuation R}
    {r' : EffectRecord} {p : PresentationProof} (h : EffectAt a s₀ acts before e r)
    (h' : EffectAt a s₀ acts before' e' r') (hstrict : e.sink.require_presentation_proof = true)
    (hstrict' : e'.sink.require_presentation_proof = true) (hp : Contributes p e)
    (hp' : Contributes p e') : before = before' := by
  have hid : e.cap.capability_id = e'.cap.capability_id :=
    (capability_id_of_contributes h0 h hstrict hp).symm.trans
      (capability_id_of_contributes h0 h' hstrict' hp')
  obtain ⟨after, -, -, hacts, -⟩ := id h
  obtain ⟨after', -, -, hacts', -⟩ := id h'
  rcases List.append_eq_append_iff.1 (hacts.symm.trans hacts') with
    ⟨mid, rfl, hmid⟩ | ⟨mid, rfl, hmid⟩
  · cases mid with
    | nil => simp
    | cons act mid =>
      obtain ⟨rfl, -⟩ := List.cons.inj hmid
      exact (not_effectAt_later h h' hid).elim
  · cases mid with
    | nil => simp
    | cons act mid =>
      obtain ⟨rfl, -⟩ := List.cons.inj hmid
      exact (not_effectAt_later h' h hid.symm).elim

/-- **The strict non-bearer profile.** Every effect of a run is made by a call, and where the sink
requires a presentation proof, the presenter that the candidate names has signed a presentation of
exactly this capability, candidate, sink, boundary and nonce, fresh at the time of the effect. A
signature contributes to one effect at most. So there is no effect of a capability for which the
presenter signs nothing. -/
theorem strict_non_bearer (h0 : s₀.world.Empty) (hp : s₀.presented = [])
    (hrun : Run (Step a) s₀ acts s) :
    (∀ r ∈ s.world.effects.effector.records, ∃ before e, EffectAt a s₀ acts before e r) ∧
    (∀ before e r, EffectAt a s₀ acts before e r → e.sink.require_presentation_proof = true →
      ∃ key verifier p, Presents before e key verifier p) ∧
    (∀ before e r before' e' r' p, EffectAt a s₀ acts before e r →
      EffectAt a s₀ acts before' e' r' → e.sink.require_presentation_proof = true →
      e'.sink.require_presentation_proof = true → Contributes p e → Contributes p e' →
        before = before') ∧
    ∀ e : Effectuation R, e.sink.require_presentation_proof = true →
      (∀ key verifier p, Registered e key verifier → Proved acts verifier p →
        p.capability_id ≠ e.cap.capability_id) →
      ∀ before r, ¬ EffectAt a s₀ acts before e r := by
  refine ⟨fun r hr => exists_effectAt h0 hrun hr, fun _ _ _ h hs => exists_presentation h0 hp h hs,
    fun _ _ _ _ _ _ _ h h' hs hs' hp hp' => contributes_once h0 h h' hs hs' hp hp',
    fun e hs hnone before r h => ?_⟩
  · obtain ⟨key, verifier, p, hpres⟩ := exists_presentation h0 hp h hs
    obtain ⟨after, u, v, rfl, -⟩ := h
    exact hnone key verifier p hpres.registered
      (hpres.signed.mono (List.subset_append_left _ _)) hpres.capability_id

end

/-! ## A strict run -/

/-- A signature scheme in which the signature of the data is the data under the key. -/
def sampleScheme : Ed25519Scheme where
  PrivateKey := List UInt8
  PublicKey := List UInt8
  public_key := List.reverse
  sign := fun private_key data => private_key.reverse ++ data
  verify := fun public_key signature data => decide (signature = public_key ++ data)

theorem sampleScheme_acceptsOwn : sampleScheme.AcceptsOwn :=
  fun _ _ => decide_eq_true rfl

/-- The presenter's key pair. -/
def samplePresenterKey : Ed25519Authenticator sampleScheme :=
  .generate (Utf8.utf8 "presenter-key-A".toList) (py "presenter-A")

/-- The presenter, who holds the private key. -/
def samplePresenter : Presenter sampleRuntime := ⟨samplePresenterKey.toAuthenticator sampleRuntime⟩

/-- What the sink's registry holds of the presenter: the copy with the public key alone. -/
def samplePresenterVerifier : Authenticator sampleRuntime :=
  samplePresenterKey.verifier.toAuthenticator sampleRuntime

/-- The context that names it. -/
def sampleContext : PyDict PyVal :=
  AList.singleton (py "presenter_key_id") (.str (py "presenter-A"))

/-- The sample sink with the strict profile. -/
def strictSink : FinalitySink sampleRuntime :=
  { sampleSink with
    presenter_verifier := some ⟨AList.singleton (py "presenter-A") samplePresenterVerifier⟩
    require_presentation_proof := true }

/-- The sample candidate in that context. -/
def strictCandidate : CandidateAct := sampleCandidate.withContext sampleContext

/-- The message of the sample presentation. -/
def sampleMessage (cap : Capability) : PresentationProof where
  capability_id := cap.capability_id
  candidate_digest := cap.candidate_digest
  sink_id := py "sink-A"
  boundary_id := py "boundary-A"
  nonce := strictCandidate.nonce
  presented_at_ns := 200
  presenter_key_id := py "presenter-A"
  signature := []

/-- The presenter signs a presentation of a capability that was issued. -/
theorem exists_samplePresentation {cap : Capability}
    (hid : hasSurrogate cap.capability_id = false)
    (hdigest : hasSurrogate cap.candidate_digest = false) :
    ∃ p, samplePresenter.prove cap.capability_id cap.candidate_digest (py "sink-A")
      (py "boundary-A") strictCandidate.nonce 200 = .ok p := by
  have hkeys : GoodKeys presentationKeys := goodKeys_presentationKeys
  have hcanon : Canon sampleRuntime (sampleMessage cap).unsigned := by
    rw [PresentationProof.unsigned, canon_ofEntries_iff (by rwa [keys_presentation])]
    simp only [PresentationProof.entries, sampleMessage, List.map_cons, List.map_nil,
      List.forall_mem_cons, canon_str, canon_int, List.not_mem_nil, false_implies, implies_true,
      and_true]
    exact ⟨hid, hdigest, by decide, by decide, by decide, by decide, by decide⟩
  obtain ⟨signature, hs⟩ : ∃ s, samplePresenter.authenticator.sign _ = .ok s :=
    Ed25519Authenticator.signsCanon rfl _ hcanon
  exact ⟨_, bind_eq_ok.2 ⟨signature, hs, rfl⟩⟩

/-- The sample presentation verifies under the presenter's public key. -/
theorem verify_samplePresentation {cap : Capability} {p : PresentationProof}
    (hp : samplePresenter.prove cap.capability_id cap.candidate_digest (py "sink-A")
      (py "boundary-A") strictCandidate.nonce 200 = .ok p) :
    p.presenter_key_id = py "presenter-A" ∧
      samplePresenterVerifier.verify p.unsigned p.signature p.presenter_key_id = .ok true := by
  obtain ⟨-, -, -, -, -, -, hpk, hsign⟩ := prove_ok hp
  refine ⟨hpk, ?_⟩
  rw [hpk, samplePresenterVerifier, Ed25519Authenticator.verifierOf_verifier.verify]
  exact Ed25519Authenticator.acceptsOwn sampleScheme_acceptsOwn _ _ _ _ hsign

/-- The strict sink takes the sample presentation of a capability for the sample act. -/
theorem checkPresentation_sample {cap : Capability}
    (hdigest : strictCandidate.digest sampleRuntime = .ok cap.candidate_digest)
    {p : PresentationProof}
    (hp : samplePresenter.prove cap.capability_id cap.candidate_digest (py "sink-A")
      (py "boundary-A") strictCandidate.nonce 200 = .ok p) :
    strictSink.checkPresentation strictCandidate cap 200 (some p) = .ok () := by
  obtain ⟨hpi, hpd, hps, hpb, hpn, hpt, -, -⟩ := prove_ok hp
  obtain ⟨hpk, hverify⟩ := verify_samplePresentation hp
  have hbound : presenterBound strictCandidate p = true := by
    have hlookup : strictCandidate.authority_context.lookup (py "presenter_key_id") =
        some (.str (py "presenter-A")) := rfl
    rw [presenterBound, hlookup]
    exact decide_eq_true hpk
  have hregistered : PresenterVerifierRegistry.verify
      ⟨AList.singleton (py "presenter-A") samplePresenterVerifier⟩ p = .ok true := by
    have hlookup : (AList.singleton (py "presenter-A") samplePresenterVerifier :
        PyDict _).lookup p.presenter_key_id = some samplePresenterVerifier := by
      rw [hpk]
      rfl
    rw [PresenterVerifierRegistry.verify, hlookup]
    exact hverify
  have hregistry : strictSink.presenter_verifier =
      some ⟨AList.singleton (py "presenter-A") samplePresenterVerifier⟩ := rfl
  simp only [checkPresentation, hregistry, bind_eq_ok, failIf_eq_ok, exists_unit, ne_eq,
    Decidable.not_not, not_or, Bool.not_eq_false, gt_iff_lt, not_lt]
  exact ⟨hbound, hpi, _, hdigest, hpd, ⟨hps, hpb⟩, hpn, by rw [hpt]; decide, true, hregistered,
    rfl⟩

/-- What the sample sink verifies the strict sink verifies as well, with a presentation that it
takes. -/
theorem verified_strictSink {ev : EvidenceStore sampleRuntime} {st : ProtectedState}
    {c : CandidateAct} {cap : Capability} {d : PyStr} {p : PresentationProof}
    (h : Verified sampleSink ev st c cap 200 none d)
    (hcheck : strictSink.checkPresentation c cap 200 (some p) = .ok ()) :
    Verified strictSink ev st c cap 200 (some p) d :=
  ⟨h.status, h.effect_class, h.sink_id, h.boundary_id, h.policy_epoch, h.scope, h.supported,
    h.nonce, h.not_early, h.not_late, h.within, h.signed, fun _ => hcheck, h.candidate_digest,
    h.descriptor, h.result, h.evidence.imp fun _ he =>
      ⟨he.1, ⟨he.2.1, he.2.2, he.2.3, he.2.4, he.2.5, he.2.6, he.2.7⟩⟩,
    h.transition⟩

/-- The sample act carried through by its presenter: it is authorised at 200, the presenter signs a
presentation of the capability, and the strict sink, which holds the presenter's public key, effects
it. -/
theorem sample_strict_run : ∃ acts s before e r,
    Run (Step sampleAuthority) ⟨sampleWorld, []⟩ acts s ∧
    EffectAt sampleAuthority ⟨sampleWorld, []⟩ acts before e r ∧ e.sink = strictSink ∧
    e.candidate = strictCandidate := by
  obtain ⟨cap, s', h⟩ := sample_authorize_context
    (show Canon sampleRuntime sampleContext.toVal from ⟨_, rfl, rfl⟩)
  obtain ⟨t, ev, hauth⟩ := authorize_ok h
  have hserves := (sampleSink_serves_context sampleContext).1
  have hskew : 0 ≤ sampleSink.max_clock_skew_ns := by decide
  obtain ⟨hearly, hlate⟩ := in_window hauth (by decide) hskew
  have hbase := verified_of_authorized sample_acceptsOwn hauth hserves hearly hlate none
  obtain ⟨p, hp⟩ := exists_samplePresentation
    (inert_of_sha256Hex hauth.capability.capability_id).hasSurrogate
    (inert_of_sha256Hex hauth.capability.candidate_digest).hasSurrogate
  obtain ⟨hpk, hverify⟩ := verify_samplePresentation hp
  have hv : Verified strictSink s'.evidence_store s'.state strictCandidate cap 200 (some p)
      cap.descriptor_digest :=
    verified_strictSink hbase (checkPresentation_sample hbase.candidate_digest hp)
  obtain ⟨receipt, record, heff, -⟩ := effectuate_succeeds hv
    (show cap.capability_id ∉ sampleWorld.effects.consumption_store.claims from
      AList.notMem_empty _) rfl rfl rfl (by decide) HMACAuthenticator.signsCanon rfl (by decide)
  -- the three steps
  have hcall : Step sampleAuthority ⟨sampleWorld, []⟩ (.call (.authorize strictCandidate 1 200))
      ⟨⟨s', sampleWorld.effects⟩, []⟩ := by
    refine ⟨⟨trivial, ?_⟩, trivial, rfl⟩
    have h' : sampleAuthority.authorize sampleWorld.authority strictCandidate 1 200 =
        (.ok cap, s') := h
    simp only [exec, h']
  have hprove : Step sampleAuthority ⟨⟨s', sampleWorld.effects⟩, []⟩
      (.prove samplePresenter cap.capability_id cap.candidate_digest (py "sink-A")
        (py "boundary-A") strictCandidate.nonce 200)
      ⟨⟨s', sampleWorld.effects⟩, [(samplePresenter.authenticator, p)]⟩ := by
    refine ⟨rfl, ?_⟩
    rw [hp]
    rfl
  have hsigned : SignedBefore s' cap.unsigned := hauth.signedBefore hbase.signed
  have hpresented : PresenterUnforged
      (⟨⟨s', sampleWorld.effects⟩, [(samplePresenter.authenticator, p)]⟩ : State sampleRuntime)
      (.effectuate strictSink strictCandidate cap 200 (some p)) := by
    intro registry verifier hregistry hlookup _
    obtain rfl := Option.some.inj hregistry
    rw [hpk] at hlookup
    obtain rfl : samplePresenterVerifier = verifier := Option.some.inj hlookup
    obtain ⟨b, hb⟩ := canon_iff_canonicalBytes.1 (samplePresenterVerifier.canon_of_verify hverify)
    exact ⟨samplePresenter.authenticator, p, Ed25519Authenticator.verifierOf_verifier,
      List.mem_cons_self, b, hb, hb⟩
  let e : Effectuation sampleRuntime := ⟨strictSink, strictCandidate, cap, 200, some p⟩
  have heffect : Step sampleAuthority
      ⟨⟨s', sampleWorld.effects⟩, [(samplePresenter.authenticator, p)]⟩
      (.call e.op) ⟨exec sampleAuthority ⟨s', sampleWorld.effects⟩ e.op,
        [(samplePresenter.authenticator, p)]⟩ :=
    ⟨⟨fun _ => hsigned, rfl⟩, hpresented, rfl⟩
  have hrecords : (exec sampleAuthority ⟨s', sampleWorld.effects⟩ e.op).effects.effector.records =
      sampleWorld.effects.effector.records ++ [record] := by
    simp only [e, Effectuation.op, exec, heff]
  have hbefore := (Run.single hcall).snoc hprove
  exact ⟨_, _, _, e, record, hbefore.snoc heffect,
    ⟨[], _, _, rfl, hbefore, heffect, hrecords⟩, rfl, rfl⟩

/-- Its presenter signed it, though the sink can sign nothing with what it holds. -/
theorem strict_non_bearer_sample : ∃ acts s before e r,
    Run (Step sampleAuthority) ⟨sampleWorld, []⟩ acts s ∧
    EffectAt sampleAuthority ⟨sampleWorld, []⟩ acts before e r ∧
    (∃ key p, Presents before e key samplePresenterVerifier p) ∧
    ∀ v, samplePresenterVerifier.sign v = .error Ed25519Authenticator.verifierOnly := by
  obtain ⟨acts, s, before, e, r, hrun, h, hsink, hcandidate⟩ := sample_strict_run
  have hstrict : e.sink.require_presentation_proof = true := by
    rw [hsink]
    rfl
  obtain ⟨key, verifier, p, hp⟩ :=
    (strict_non_bearer sampleWorld_empty rfl hrun).2.1 before e r h hstrict
  obtain ⟨hkey, registry, hregistry, hlookup⟩ := hp.registered
  -- the one verifier that is registered
  obtain rfl : py "presenter-A" = key := by
    rw [hcandidate] at hkey
    exact PyVal.str.inj (Option.some.inj hkey)
  obtain rfl : samplePresenterVerifier = verifier := by
    rw [hsink] at hregistry
    obtain rfl := Option.some.inj hregistry
    exact Option.some.inj hlookup
  exact ⟨acts, s, before, e, r, hrun, h, ⟨_, p, hp⟩,
    Ed25519Authenticator.sign_verifier (R := sampleRuntime) (e := samplePresenterKey)⟩

end NonBearer

end Finality
