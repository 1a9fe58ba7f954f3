import Finality.Threads.Linear

/-!
# The evidence trail of the threads

What `verify_allow` answers about the evidence of interleaved calls, with an attacker who writes
into the store behind its back. A record stands under its own id, and is there because it was
committed or written (`Trail.recorded`); committed evidence has passed the store's verifier and
stays where it is until it is written over (`Trail.kept`). What an attacker writes under the id of
committed evidence passes only if it says the same, since the id is the digest of what is said.
-/

namespace Finality

open Checks ProtectedState ProtectedAuthority FinalitySink Runs

namespace Threads

variable {R : Runtime} {a : ProtectedAuthority R} {s₀ s s' : State R} {acts : List (Act R)}

/-! ## What is committed -/

/-- A step of the authorisation `i` past the checks of the commit, or none of them. -/
theorem checked_of_moves {k : Call} {s s' : AuthorityStores R} {p : Phase} {d : HCAD}
    {t : StateTransition} {e : ValidationEvidence} (h : Moves a k s p s')
    (hp : p = .checked d t e) : k.phase = .signed d t e ∧
      s.evidence_store.authenticator.verify e.unsigned e.signature e.key_id = .ok true := by
  cases h with
  | checked hk hb =>
    obtain ⟨rfl, rfl, rfl⟩ := Phase.checked.inj hp
    refine ⟨hk, ?_⟩
    unfold EvidenceStore.beforeLock at hb
    simp only [bind_eq_ok, failIf_eq_ok, Bool.not_eq_false] at hb
    obtain ⟨-, -, signed, hverify, hsigned⟩ := hb
    rw [hverify, hsigned]
  | invalid | validated | refused | granted | unsigned | signed | unchecked | duplicate
  | committed | unissued | returned => cases hp

/-! ## The trail -/

/-- What the evidence store of the run `acts` holds, next to the calls and the log. -/
structure Trail (a : ProtectedAuthority R) (auth : Authenticator R) (acts : List (Act R))
    (s : State R) : Prop where
  authenticator : s.authority.evidence_store.authenticator = auth
  recorded : ∀ {id e}, s.authority.evidence_store.get id = some e → id = e.evidence_id ∧
    ((∃ i, Event.committed i e ∈ s.log) ∨ Act.replaceEvidence e ∈ acts)
  checked : ∀ {i : Nat} {k d t e}, s.authorizations[i]? = some k → k.phase = .checked d t e →
    auth.verify e.unsigned e.signature e.key_id = .ok true
  committed : ∀ {i e}, Event.committed i e ∈ s.log →
    auth.verify e.unsigned e.signature e.key_id = .ok true ∧
    ∃ g : Grant, g.i = i ∧ g.Evidences a e ∧ g.Sound a s [.signed i e, .committed i e]
  kept : ∀ {i e}, Event.committed i e ∈ s.log →
    (∀ e', Act.replaceEvidence e' ∈ acts → e'.evidence_id ≠ e.evidence_id) →
      s.authority.evidence_store.get e.evidence_id = some e

/-- An empty trail at the start. -/
theorem trail_of_empty (h : s.Empty) :
    Trail a s.authority.evidence_store.authenticator [] s where
  authenticator := rfl
  recorded := by
    have hempty : s.authority.evidence_store.records = ∅ := h.world.evidence
    simp [EvidenceStore.get, hempty]
  checked := by simp [h.authorizations]
  committed := by simp [h.log]
  kept := by simp [h.log]

section
variable {auth : Authenticator R} {act : Act R}

/-- A step that leaves the evidence store as it is, moves no authorisation and commits nothing. -/
theorem Trail.idle (h : Trail a auth acts s) (hle : Later s s')
    (hstore : s'.authority.evidence_store.records = s.authority.evidence_store.records)
    (hauth : s'.authority.evidence_store.authenticator = auth)
    (hchecked : ∀ {i : Nat} {k d t e}, s'.authorizations[i]? = some k → k.phase = .checked d t e →
      s.authorizations[i]? = some k)
    (hlog : ∀ {i e}, Event.committed i e ∈ s'.log → Event.committed i e ∈ s.log) :
    Trail a auth (acts ++ [act]) s' where
  authenticator := hauth
  recorded := fun {id e} hget => by
    unfold EvidenceStore.get at hget
    rw [hstore] at hget
    obtain ⟨hid, hsource⟩ := h.recorded hget
    refine ⟨hid, hsource.imp ?_ (List.mem_append_left _)⟩
    rintro ⟨i, hi⟩
    exact ⟨i, hle.log.subset hi⟩
  checked := fun hi hp => h.checked (hchecked hi hp) hp
  committed := fun hi => by
    obtain ⟨hverify, g, rfl, he, hg⟩ := h.committed (hlog hi)
    exact ⟨hverify, g, rfl, he, hg.mono hle⟩
  kept := fun hi hkeep => by
    unfold EvidenceStore.get
    rw [hstore]
    exact h.kept (hlog hi) fun e' he' => hkeep e' (List.mem_append_left _ he')

/-- **The trail is kept by every step.** -/
theorem Trail.step (hinv' : Inv a s') (h : Trail a auth acts s)
    (hs : Step a s act s') : Trail a auth (acts ++ [act]) s' := by
  have hle : Later s s' := .step hs
  cases hs with
  | @advance i k p authority hi hnext =>
    have hm := moves hnext
    have hf := moveFacts i hm
    have hauth := hf.authenticator.trans h.authenticator
    have hk : (s.advance i k p authority).authorizations[i]? = some { k with phase := p } :=
      (getElem?_advance hi).trans (if_pos rfl)
    -- what this step commits has passed the checks, and is traced
    have hnew : ∀ {j e}, Event.committed j e ∈ k.phase.events i s.authority authority p → j = i ∧
        auth.verify e.unsigned e.signature e.key_id = .ok true ∧
        ∃ g : Grant, g.i = i ∧ g.Evidences a e ∧
          g.Sound a (s.advance i k p authority) [.signed i e, .committed i e] := by
      intro j e hj
      obtain ⟨rfl, -, d, t, hp⟩ := hf.committed hj
      refine ⟨rfl, h.checked hi hp, ?_⟩
      cases hm with
      | committed hp' =>
        obtain ⟨rfl, rfl, rfl⟩ := Phase.checked.inj (hp.symm.trans hp')
        obtain ⟨-, before, after, he, hg⟩ := hinv'.traced hk
        exact ⟨_, rfl, he, hg⟩
      | duplicate hp' => simp [hp', Phase.events] at hj
      | invalid hp' | validated hp' | refused hp' | granted hp' | unsigned hp' | signed hp'
      | unchecked hp' | checked hp' | unissued hp' | returned hp' => simp [hp'] at hp
    refine ⟨hauth, fun {id e} hget => ?_, fun {j k' d t e} hj hp => ?_, fun {j e} hj => ?_,
      fun {j e} hj hkeep => ?_⟩
    · rcases (hf.stored id e).1 hget with hold | ⟨hid, hcommitted⟩
      · obtain ⟨hid, hsource⟩ := h.recorded hold
        refine ⟨hid, hsource.imp ?_ (List.mem_append_left _)⟩
        rintro ⟨j, hj⟩
        exact ⟨j, hle.log.subset hj⟩
      · exact ⟨hid, .inl ⟨i, List.mem_append_right _ hcommitted⟩⟩
    · rw [getElem?_advance hi] at hj
      split at hj
      · obtain rfl := Option.some.inj hj
        rw [← h.authenticator]
        exact (checked_of_moves hm hp).2
      · exact h.checked hj hp
    · rcases List.mem_append.1 hj with hold | hnew'
      · obtain ⟨hverify, g, rfl, he, hg⟩ := h.committed hold
        exact ⟨hverify, g, rfl, he, hg.mono hle⟩
      · obtain ⟨rfl, hverify, hg⟩ := hnew hnew'
        exact ⟨hverify, hg⟩
    · rcases List.mem_append.1 hj with hold | hnew'
      · exact (hf.stored _ _).2 (.inl (h.kept hold fun e' he' =>
          hkeep e' (List.mem_append_left _ he')))
      · exact (hf.stored _ _).2 (.inr ⟨rfl, (hnew hnew').1 ▸ hnew'⟩)
  | @replaceEvidence e₁ =>
    refine ⟨h.authenticator, fun {id e} hget => ?_, fun hi hp => h.checked hi hp,
      fun hi => ?_, fun {i e} hi hkeep => ?_⟩
    · rcases eq_or_ne id e₁.evidence_id with rfl | hne
      · obtain rfl : e₁ = e := Option.some.inj ((AList.lookup_insert _).symm.trans hget)
        exact ⟨rfl, .inr (by simp)⟩
      · obtain ⟨hid, hsource⟩ := h.recorded ((AList.lookup_insert_ne hne).symm.trans hget)
        exact ⟨hid, hsource.imp_right (List.mem_append_left _)⟩
    · obtain ⟨hverify, g, rfl, he, hg⟩ := h.committed hi
      exact ⟨hverify, g, rfl, he, hg.mono hle⟩
    · have hne : e.evidence_id ≠ e₁.evidence_id := (hkeep e₁ (by simp)).symm
      exact (AList.lookup_insert_ne hne).trans
        (h.kept hi fun e' he' => hkeep e' (List.mem_append_left _ he'))
  | authorize =>
    refine h.idle hle rfl h.authenticator (fun hi hp => ?_) id
    rcases Interleaving.getElem?_concat_eq_some.1 hi with hi | ⟨-, rfl⟩
    · exact hi
    · cases hp
  | @proceed j k ev p effects =>
    refine h.idle hle rfl h.authenticator (fun hi _ => hi) fun hi => ?_
    refine (List.mem_append.1 hi).resolve_right ?_
    cases k.call.phase <;> cases p <;> simp [effectEvents]
  | configureSource | snapshot =>
    exact h.idle hle rfl h.authenticator (fun hi _ => hi) fun hi => by simpa using hi
  | effectuate | look | failNext | failCommits =>
    exact h.idle hle rfl h.authenticator (fun hi _ => hi) id

end

/-- **The trail of every run.** -/
theorem trail_of_run (h0 : s₀.Empty) (hrun : Run (Step a) s₀ acts s) :
    Trail a s₀.authority.evidence_store.authenticator acts s := by
  have h := hrun.invariantTrace
    (fun acts s => Inv a s ∧ Trail a s₀.authority.evidence_store.authenticator acts s)
    ⟨inv_of_empty h0, trail_of_empty h0⟩ ?_
  · exact h.2
  · rintro acts s act s' - ⟨hinv, ih⟩ hs
    exact ⟨hinv.step hs, ih.step (hinv.step hs) hs⟩

/-! ## What passes the audit -/

/-- What says the same as evidence of one grant says the same as that of any with its id: the id
is the digest of what is said. -/
theorem evidenceEqv_of_id (hsha : ShaInjective R) {g g' : Grant} {e e₀ e' : ValidationEvidence}
    (h : EvidenceEqv R e e₀) (he₀ : g.Evidences a e₀) (he' : g'.Evidences a e')
    (hid : e₀.evidence_id = e'.evidence_id) : EvidenceEqv R e e' := by
  have hcore := he'.evidence_id
  rw [← hid] at hcore
  have hv := (eqv_of_sha256Hex hsha he₀.evidence_id hcore).values rfl
  simp only [evidenceCore, List.map_cons, List.forall₂_cons, eqv_str, eqv_int] at hv
  obtain ⟨-, hdescriptor, hcandidate, htransition, hepoch, -, -, htime, -⟩ := hv
  exact
    { evidence_id := hid ▸ h.evidence_id
      authority_id := he'.authority_id ▸ he₀.authority_id ▸ h.authority_id
      descriptor_digest := h.descriptor_digest.trans hdescriptor
      candidate_digest := h.candidate_digest.trans hcandidate
      transition_id := by
        rw [← he₀.transition_id, ← he'.transition_id] at htransition
        exact h.transition_id.trans htransition
      policy_epoch := by rw [h.policy_epoch, he₀.policy_epoch, he'.policy_epoch, hepoch.1]
      decision := by rw [h.decision, he₀.decision, he'.decision]
      reasons := he'.reasons ▸ he₀.reasons ▸ h.reasons
      committed_at_ns := by
        rw [h.committed_at_ns, he₀.committed_at_ns, he'.committed_at_ns, htime.1]
      key_id := he'.key_id ▸ he₀.key_id ▸ h.key_id }

/-- **Unforgeability**: the record under the id, if its signature is accepted, was signed. -/
def RecordUnforged (s : AuthorityStores R) (id : PyStr) : Prop :=
  ∀ e, s.evidence_store.get id = some e →
    s.evidence_store.authenticator.verify e.unsigned e.signature e.key_id = .ok true →
      SignedBefore s e.unsigned

/-- A record that passes says what the evidence with its id said that some grant led to. -/
theorem exists_attested (h0 : s₀.Empty) (hrun : Run (Step a) s₀ acts s) {id : PyStr}
    {e : ValidationEvidence} (hunf : RecordUnforged s.authority id)
    (hget : s.authority.evidence_store.get id = some e)
    (hpass : EvidenceStore.Passes s.authority.evidence_store.authenticator e) :
    ∃ (g : Grant) (e₀ : ValidationEvidence), g.Evidences a e₀ ∧
      g.Sound a s [.signed g.i e₀] ∧ EvidenceEqv R e e₀ ∧ e₀.evidence_id = id := by
  obtain ⟨g, e₀, he₀, hg, heqv⟩ :=
    exists_signed (inv_of_run h0 hrun).signed (hunf e hget hpass.signed)
  have hid := heqv.evidence_id.eq_of_inert (inert_of_sha256Hex he₀.evidence_id)
  exact ⟨g, e₀, he₀, hg, heqv, hid ▸ ((trail_of_run h0 hrun).recorded hget).1.symm⟩

/-- **The evidence trail.** Whatever the order of the steps and whatever an attacker writes into
the evidence store: what `verify_allow` accepts says what was signed, under that id, for a
transition that was granted; under the id of committed evidence nothing is accepted that says
anything else, and the evidence itself is accepted unless it was written over; and behind every
effect stands evidence that was committed for its act. When the attacker writes nothing, exactly
the committed evidence is accepted. -/
theorem evidence_trail (hsha : ShaInjective R) (h0 : s₀.Empty) (hrun : Run (Step a) s₀ acts s) :
    (∀ id, RecordUnforged s.authority id →
      s.authority.evidence_store.verifyAllow id = .ok true →
      ∃ (g : Grant) (e e₀ : ValidationEvidence), s.authority.evidence_store.get id = some e ∧
        g.Evidences a e₀ ∧ g.Sound a s [.signed g.i e₀] ∧ EvidenceEqv R e e₀ ∧
        e₀.evidence_id = id) ∧
    (∀ i e, Event.committed i e ∈ s.log →
      (RecordUnforged s.authority e.evidence_id →
        s.authority.evidence_store.verifyAllow e.evidence_id = .ok true →
        ∃ e', s.authority.evidence_store.get e.evidence_id = some e' ∧ EvidenceEqv R e' e) ∧
      ((∀ e', Act.replaceEvidence e' ∈ acts → e'.evidence_id ≠ e.evidence_id) →
        s.authority.evidence_store.verifyAllow e.evidence_id = .ok true)) ∧
    (∀ (n : Nat) r, s.effects.effector.records[n]? = some r →
      ∃ i e, Event.committed i e ∈ s.log ∧ e.candidate_digest = r.candidate_digest) ∧
    ((∀ e, Act.replaceEvidence e ∉ acts) → ∀ id,
      s.authority.evidence_store.verifyAllow id = .ok true ↔
        ∃ i e, Event.committed i e ∈ s.log ∧ e.evidence_id = id) := by
  have htrail := trail_of_run h0 hrun
  -- committed evidence passes where it is still in its place
  have hcommitted : ∀ i e, Event.committed i e ∈ s.log →
      (∀ e', Act.replaceEvidence e' ∈ acts → e'.evidence_id ≠ e.evidence_id) →
        s.authority.evidence_store.verifyAllow e.evidence_id = .ok true := by
    intro i e hi hkeep
    obtain ⟨hverify, g, -, he, -⟩ := htrail.committed hi
    refine EvidenceStore.verifyAllow_ok.2 ⟨e, htrail.kept hi hkeep, he.decision, ?_⟩
    rw [htrail.authenticator]
    exact hverify
  refine ⟨fun id hunf hpass => ?_, fun i e hi => ⟨fun hunf hpass => ?_, hcommitted i e hi⟩,
    fun n r hr => ?_, fun huntampered id => ⟨fun hpass => ?_, ?_⟩⟩
  · obtain ⟨e, hget, hpasses⟩ := EvidenceStore.verifyAllow_ok.1 hpass
    obtain ⟨g, e₀, he₀, hg, heqv, hid⟩ := exists_attested h0 hrun hunf hget hpasses
    exact ⟨g, e, e₀, hget, he₀, hg, heqv, hid⟩
  · obtain ⟨e', hget, hpasses⟩ := EvidenceStore.verifyAllow_ok.1 hpass
    obtain ⟨g, e₀, he₀, -, heqv, hid⟩ := exists_attested h0 hrun hunf hget hpasses
    obtain ⟨-, g', -, he, -⟩ := htrail.committed hi
    exact ⟨e', hget, evidenceEqv_of_id hsha heqv he₀ he hid⟩
  · obtain ⟨j, k, o, ho⟩ := made_of_run hsha h0 hrun hr
    refine ⟨o.grant.i, o.evidence, ho.origin.grant.order.subset (by simp), ?_⟩
    exact Except.ok.inj (ho.origin.evidences.candidate_digest.symm.trans ho.digest)
  · obtain ⟨e, hget, -⟩ := EvidenceStore.verifyAllow_ok.1 hpass
    obtain ⟨hid, ⟨i, hi⟩ | hreplaced⟩ := htrail.recorded hget
    · exact ⟨i, e, hi, hid.symm⟩
    · exact (huntampered e hreplaced).elim
  · rintro ⟨i, e, hi, rfl⟩
    exact hcommitted i e hi fun e' he' => (huntampered e' he').elim

/-- An effect of the sample act, with the evidence committed for it. -/
theorem evidence_trail_sample : ∃ acts s r i e,
    Run (Step sampleAuthority) (State.ofWorld sampleWorld) acts s ∧
    s.effects.effector.records[0]? = some r ∧ Event.committed i e ∈ s.log ∧
    e.candidate_digest = r.candidate_digest := by
  obtain ⟨cap, w, r, hrun, hrecords⟩ := sample_run
  obtain ⟨acts, s, hrun', rfl, -⟩ := exists_threads sampleWorld_empty hrun
  have hr : s.effects.effector.records[0]? = some r :=
    (congrArg (fun rs : List EffectRecord => rs[0]?) hrecords).trans rfl
  obtain ⟨-, -, heffects, -⟩ :=
    evidence_trail sample_injective (State.ofWorld_empty sampleWorld_empty) hrun'
  obtain ⟨i, e, hi, hdigest⟩ := heffects 0 r hr
  exact ⟨acts, s, r, i, e, hrun', hr, hi, hdigest⟩

end Threads

end Finality
