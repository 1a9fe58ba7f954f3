import Finality.Threads.Sequential

/-!
# Every effect was authorised, in every interleaving

The accounts of the effectuations (`Interleaving`) say which of them made a record, and the
invariant of the threads goes back from there to the authorisation whose capability it presented.
`interleaved_soundness` is effect soundness under threads, with an attacker who writes into the
evidence store.
-/

namespace Finality

open Checks ProtectedState ProtectedAuthority FinalitySink Runs

namespace Threads

variable {R : Runtime}

/-! ## Every effect was authorised -/

/-- The events after some point are not needed for what was before it. -/
theorem Origin.Sound.of_append {o : Origin R} {a : ProtectedAuthority R} {s : State R} {j : Nat}
    {k : Interleaving.Call R} {rest : List Event} (events : List Event)
    (h : o.Sound a s j k (rest ++ events)) : o.Sound a s j k rest :=
  { h with
    grant := { h.grant with order := (List.sublist_append_left _ events).trans h.grant.order }
    attesting :=
      { h.attesting with order := (List.sublist_append_left _ events).trans h.attesting.order } }

/-- An effectuation that made an effect goes back to its origin. -/
theorem Inv.exists_origin {a : ProtectedAuthority R} {s : State R} (hinv : Inv a s) {j : Nat}
    {k : Effectuation R} {ref : PyStr} (hj : s.effectuations[j]? = some k)
    (heff : k.call.phase.effect = some ref) :
    ∃ o : Origin R, o.Sound a s j k.call [.claimed j, .effected j] := by
  have htraced := hinv.effects hj
  cases hp : k.call.phase with
  | committed d ref =>
    exact htraced _ (by rw [hp]; rfl)
  | unreceipted ref e =>
    exact htraced _ (by rw [hp]; rfl)
  | returned receipt =>
    obtain ⟨o, ho⟩ := htraced _ (by rw [hp]; rfl)
    exact ⟨o, ho.of_append [.receipted j receipt]⟩
  | started | verified | claimed | unverified | replayed | denied =>
    rw [hp] at heff
    cases heff

/-- The payload recorded is that of the call that made the record. -/
theorem payload_of_madeBy {s₀ s : Interleaving.State R} {acts : List (Interleaving.Act R)}
    (h0 : s₀.Empty) (hrun : Run Interleaving.Step s₀ acts s) {n : Nat} {r : EffectRecord} {j : Nat}
    {k : Interleaving.Call R} (h : Interleaving.MadeBy s n r j k) :
    r.payload = k.candidate.payload := by
  obtain ⟨u, v, ⟨before, ev, st, after, -, -, hstep, hafter⟩, -, -, hrecords⟩ :=
    Interleaving.exists_commit h0 hrun h
  cases hstep with
  | @advance _ k₁ p stores _ _ hj hnext =>
    rcases (Interleaving.moves hnext).records_cases.2 with
      ⟨-, hrec⟩ | ⟨-, -, -, record, hr, -, hrec⟩
    · have hlen := congrArg List.length (hrec.symm.trans hrecords)
      simp at hlen
    · obtain ⟨k', hk', hlater⟩ :=
        Interleaving.later_run hafter ((Interleaving.getElem?_move hj).trans (if_pos rfl))
      obtain rfl : k = k' := Option.some.inj (h.call.symm.trans hk')
      obtain rfl : record = r := by simpa using hrec.symm.trans hrecords
      rw [hlater.same]
      exact (GuardedEffector.nextRecord_ok hr).2.1

/-- Record `n`, which is `r`, was made by the effectuation `j`, which is `k` and goes back to
`o`. -/
structure Origin.Made (o : Origin R) (a : ProtectedAuthority R) (s : State R) (n : Nat)
    (r : EffectRecord) (j : Nat) (k : Effectuation R) : Prop where
  record : s.effects.effector.records[n]? = some r
  maker : (s.log.filterMap Event.maker)[n]? = some j
  effectuation : s.effectuations[j]? = some k
  origin : o.Sound a s j k.call [.claimed j, .effected j]
  claimed : k.call.cap.capability_id ∈ s.effects.consumption_store.claims
  digest : o.grant.candidate.digest R = .ok r.candidate_digest
  candidate : CandidateEqv R k.call.candidate o.grant.candidate
  payload : Eqv R r.payload o.grant.candidate.payload
  not_early : o.grant.now - k.call.sink.max_clock_skew_ns ≤ k.call.now
  not_late : k.call.now ≤ min (o.grant.candidate.issued_at_ns + o.grant.candidate.freshness_ns)
    (o.grant.now + a.capability_ttl_ns)
  /-- the evidence the sink accepted was signed for the same act and the same transition -/
  attested : CandidateEqv R k.call.candidate o.attesting.candidate ∧
    o.attesting.transition.transition_id = o.grant.transition.transition_id

/-- The capability presented carries what the authority put into the one it issued. -/
theorem Origin.Sound.agrees {o : Origin R} {a : ProtectedAuthority R} {s : State R} {j : Nat}
    {k : Interleaving.Call R} {rest : List Event} (h : o.Sound a s j k rest) :
    k.cap.capability_id = o.cap.capability_id ∧
    o.grant.candidate.digest R = .ok k.cap.candidate_digest ∧
    k.cap.transition_id = o.grant.transition.transition_id := by
  have hid := h.capability.capability_id.eq_of_inert (inert_of_sha256Hex h.issues.capability_id)
  have hd := h.capability.candidate_digest.eq_of_inert
    (inert_of_sha256Hex h.issues.candidate_digest)
  obtain ⟨_, _, -, htid⟩ := identify_ok h.grant.granted.identified
  have ht := h.capability.transition_id.eq_of_inert
    (h.issues.transition_id ▸ inert_of_sha256Hex htid)
  exact ⟨hid, hd ▸ h.issues.candidate_digest, ht.trans h.issues.transition_id⟩

/-- What an origin says of the act effected, of its time and of its evidence. -/
theorem Origin.Sound.made (hsha : ShaInjective R) {o : Origin R} {a : ProtectedAuthority R}
    {s : State R} {n : Nat} {r : EffectRecord} {j : Nat} {k : Effectuation R}
    (h : o.Sound a s j k.call [.claimed j, .effected j])
    (hrecord : s.effects.effector.records[n]? = some r)
    (hmaker : (s.log.filterMap Event.maker)[n]? = some j) (hj : s.effectuations[j]? = some k)
    (hclaimed : k.call.cap.capability_id ∈ s.effects.consumption_store.claims)
    (hdigest : k.call.candidate.digest R = .ok r.candidate_digest)
    (hpayload : r.payload = k.call.candidate.payload) : o.Made a s n r j k := by
  obtain ⟨-, hgrant, htransition⟩ := h.agrees
  have hv := h.verified
  have hcd : k.call.cap.candidate_digest = r.candidate_digest :=
    Except.ok.inj (hv.candidate_digest.symm.trans hdigest)
  have hcand := candidateEqv_of_digest hsha hv.candidate_digest hgrant
  have hissued := h.capability.issued_at_ns.trans h.issues.issued_at_ns
  have hexpires := h.capability.expires_at_ns.trans h.issues.expires_at_ns
  have hearly := hv.not_early
  have hlate := hv.not_late
  rw [hissued] at hearly
  rw [hexpires] at hlate
  -- the evidence found names the capability's act and transition, and agrees with what was signed
  obtain ⟨e, -, heqv, hmatch⟩ := h.accepted
  have hed := heqv.candidate_digest.eq_of_inert (inert_of_sha256Hex h.attests.candidate_digest)
  obtain ⟨_, _, -, htid⟩ := identify_ok h.attesting.granted.identified
  have het := heqv.transition_id.eq_of_inert
    (h.attests.transition_id ▸ inert_of_sha256Hex htid)
  exact
    { record := hrecord
      maker := hmaker
      effectuation := hj
      origin := h
      claimed := hclaimed
      digest := hcd ▸ hgrant
      candidate := hcand
      payload := by
        rw [hpayload]
        exact hcand.payload
      not_early := hearly
      not_late := hlate
      attested := by
        refine ⟨candidateEqv_of_digest hsha hv.candidate_digest ?_, ?_⟩
        · rw [← hmatch.candidate_digest, hed]
          exact h.attests.candidate_digest
        · rw [← h.attests.transition_id, ← het, hmatch.transition_id, htransition] }

/-- An origin of the effectuation that made a record. -/
theorem Origin.Sound.made_of_madeBy (hsha : ShaInjective R) {a : ProtectedAuthority R}
    {s₀ s : State R} {acts : List (Act R)} (h0 : s₀.Empty) (hrun : Run (Step a) s₀ acts s) {n : Nat}
    {r : EffectRecord} {j : Nat} {k : Effectuation R} (hj : s.effectuations[j]? = some k)
    (hmade : Interleaving.MadeBy s.interleaving n r j k.call) {o : Origin R}
    (ho : o.Sound a s j k.call [.claimed j, .effected j]) : o.Made a s n r j k := by
  obtain ⟨acts', hrun'⟩ := exists_interleaving hrun
  have hinv' := Interleaving.inv_of_run h0.interleaving hrun'
  obtain ⟨heff, hdigest⟩ := hinv'.records.of_madeBy hmade
  have hclaimed : k.call.cap.capability_id ∈ s.effects.consumption_store.claims :=
    (hinv'.claims.claimed_iff _).2
      ⟨j, k.call, hmade.call, Interleaving.Phase.holds_of_effect heff, rfl⟩
  exact ho.made hsha hmade.record hmade.maker hj hclaimed hdigest
    (payload_of_madeBy h0.interleaving hrun' hmade)

/-- **Behind every record stands an origin.** -/
theorem made_of_run (hsha : ShaInjective R) {a : ProtectedAuthority R}
    {s₀ s : State R} {acts : List (Act R)} (h0 : s₀.Empty) (hrun : Run (Step a) s₀ acts s) {n : Nat}
    {r : EffectRecord} (hr : s.effects.effector.records[n]? = some r) :
    ∃ j k, ∃ o : Origin R, o.Made a s n r j k := by
  obtain ⟨acts', hrun'⟩ := exists_interleaving hrun
  have hinv' := Interleaving.inv_of_run h0.interleaving hrun'
  obtain ⟨j, k', hmade⟩ := hinv'.records.exists_madeBy hr
  obtain ⟨k, hj, rfl⟩ : ∃ k, s.effectuations[j]? = some k ∧ k.call = k' := by
    simpa [State.interleaving] using hmade.call
  obtain ⟨o, ho⟩ := (inv_of_run h0 hrun).exists_origin hj (hinv'.records.of_madeBy hmade).1
  exact ⟨j, k, o, ho.made_of_madeBy hsha h0 hrun hj hmade⟩

/-- **Effect soundness in every interleaving.** Whatever the order of the steps of any number of
authorisations and effectuations, and whatever an attacker writes into the evidence store, every
effect goes back to an authorisation that was granted, signed its evidence, committed it and issued
the capability before the effect was verified, claimed and made. -/
theorem interleaved_soundness (hsha : ShaInjective R) {a : ProtectedAuthority R}
    {s₀ s : State R} {acts : List (Act R)} (h0 : s₀.Empty) (hrun : Run (Step a) s₀ acts s) :
    ∀ n r, s.effects.effector.records[n]? = some r →
      ∃ j k, ∃ o : Origin R, o.Made a s n r j k :=
  fun _ _ hr => made_of_run hsha h0 hrun hr

theorem interleaved_soundness_sample : ∃ acts s r,
    Run (Step sampleAuthority) (State.ofWorld sampleWorld) acts s ∧
    s.effects.effector.records[0]? = some r ∧
    ∃ j k, ∃ o : Origin sampleRuntime, o.Made sampleAuthority s 0 r j k := by
  obtain ⟨cap, w, r, hrun, hrecords⟩ := sample_run
  obtain ⟨acts, s, hrun', rfl, -⟩ := exists_threads sampleWorld_empty hrun
  have hr : s.effects.effector.records[0]? = some r :=
    (congrArg (fun rs : List EffectRecord => rs[0]?) hrecords).trans rfl
  exact ⟨acts, s, r, hrun', hr,
    interleaved_soundness sample_injective (State.ofWorld_empty sampleWorld_empty) hrun' 0 r hr⟩

end Threads

end Finality
