import Finality.Core.Completeness

/-!
# The nonce table and the transition table

Nonces are reserved under their raw spelling and transitions are filed under digests of normalised
material, so the two tables agree on what is new only while no reserved nonce is asked for again
in another spelling. `NonceAgrees` is that condition on a call, and a run of calls that meet it is
a run of `StepAgreeing`.

Along such a run every reserved nonce leads to a transition that carries it and no entry of
either table is overwritten (`TransitionTable`, `Extends`). So other traffic cannot invalidate a
capability: what verified once keeps verifying (`capability_stays_valid`). Without the condition
it can (`respelled_nonce_invalidates`).
-/

namespace Finality

open Checks ProtectedState ProtectedAuthority FinalitySink Runs

variable {R : Runtime}

/-- If a nonce with the candidate's NFC form is reserved, then the candidate's own spelling is. -/
def NonceAgrees (R : Runtime) (st : ProtectedState) (c : CandidateAct) : Prop :=
  (∃ n ∈ st.nonces, NfcEq R n c.nonce) → c.nonce ∈ st.nonces

/-- An authorisation that gets as far as the nonce check asks for no other spelling of a reserved
nonce. -/
def RespectsNonces (a : ProtectedAuthority R) (w : World R) : Op R → Prop
  | .authorize c cost now =>
      a.policy.Allows c now → 0 < cost → NonceAgrees R w.authority.state c
  | _ => True

/-- A call of a run in which nonces are not respelled. -/
def StepAgreeing (a : ProtectedAuthority R) (w : World R) (op : Op R) (w' : World R) : Prop :=
  Step a w op w' ∧ RespectsNonces a w op

/-- A run in which every authorisation agrees with the nonces is a run. -/
theorem run_of_agreeing {a : ProtectedAuthority R} {w w' : World R} {ops : List (Op R)}
    (h : Run (StepAgreeing a) w ops w') : Run (Step a) w ops w' :=
  h.mono fun _ _ _ hs => hs.1

/-! ## The tables -/

/-- Every reserved nonce leads to a transition that carries it, and every transition is filed
under the digest of its core and reserves its nonce. -/
structure TransitionTable (R : Runtime) (st : ProtectedState) : Prop where
  defined : ∀ n i, st.nonces.lookup n = some i →
    ∃ t, st.transitions.lookup i = some t ∧ t.nonce = n
  filed : ∀ i t, st.transitions.lookup i = some t → t.nonce ∈ st.nonces ∧
    ∃ d, sha256Hex R (.ofEntries (transitionCore t d)) = .ok i

/-- Nothing in either table was overwritten. -/
structure Extends (st st' : ProtectedState) : Prop where
  nonces : ∀ n i, st.nonces.lookup n = some i → st'.nonces.lookup n = some i
  transitions : ∀ i t, st.transitions.lookup i = some t → st'.transitions.lookup i = some t

theorem Extends.refl (st : ProtectedState) : Extends st st := ⟨fun _ _ h => h, fun _ _ h => h⟩

theorem Extends.trans {st st' st'' : ProtectedState} (h : Extends st st') (h' : Extends st' st'') :
    Extends st st'' :=
  ⟨fun n i hi => h'.nonces n i (h.nonces n i hi),
    fun i t ht => h'.transitions i t (h.transitions i t ht)⟩

/-- Transitions with one id have nonces with one NFC form. -/
theorem nonce_of_transition_id (hsha : ShaInjective R) {t t' : StateTransition}
    {d d' i : PyStr} (h : sha256Hex R (.ofEntries (transitionCore t d)) = .ok i)
    (h' : sha256Hex R (.ofEntries (transitionCore t' d')) = .ok i) : NfcEq R t.nonce t'.nonce := by
  have hv := (eqv_of_sha256Hex hsha h h').values rfl
  simp only [transitionCore, List.map_cons, List.forall₂_cons, eqv_str] at hv
  exact hv.1

/-- **A fresh transition has a fresh id**, while nonces are not respelled. -/
theorem transition_id_fresh (hsha : ShaInjective R) {st st' : ProtectedState}
    {c : CandidateAct} {cost : Int} {t : StateTransition} (hst : TransitionTable R st)
    (hg : Granted R st c cost t st') (hagree : NonceAgrees R st c) :
    st.transitions.lookup t.transition_id = none := by
  rw [AList.lookup_eq_none]
  intro hmem
  obtain ⟨t₀, ht₀⟩ := Option.isSome_iff_exists.1 (AList.lookup_isSome.2 hmem)
  obtain ⟨hres, d₀, hd₀⟩ := hst.filed _ _ ht₀
  obtain ⟨d, -, -, hd⟩ := identify_ok hg.identified
  have hnonce := nonce_of_transition_id hsha hd₀ hd
  rw [hg.nonce] at hnonce
  exact AList.lookup_eq_none.1 hg.fresh (hagree ⟨t₀.nonce, hres, hnonce⟩)

/-- A granted transition extends the tables. -/
theorem extends_of_granted (hsha : ShaInjective R) {st st' : ProtectedState}
    {c : CandidateAct} {cost : Int} {t : StateTransition} (hst : TransitionTable R st)
    (hg : Granted R st c cost t st') (hagree : NonceAgrees R st c) : Extends st st' := by
  have hfresh := transition_id_fresh hsha hst hg hagree
  refine ⟨fun n i hi => ?_, fun i t' hi => ?_⟩
  · rw [hg.nonces_eq, AList.lookup_insert_ne, hi]
    rintro rfl
    simp [hg.fresh] at hi
  · rw [hg.transitions_eq, AList.lookup_insert_ne, hi]
    rintro rfl
    simp [hfresh] at hi

/-- A granted transition keeps the tables in order. -/
theorem transitionTable_of_granted (hsha : ShaInjective R) {st st' : ProtectedState}
    {c : CandidateAct} {cost : Int} {t : StateTransition} (hst : TransitionTable R st)
    (hg : Granted R st c cost t st') (hagree : NonceAgrees R st c) : TransitionTable R st' := by
  have hext := extends_of_granted hsha hst hg hagree
  refine ⟨fun n i hi => ?_, fun i t' hi => ?_⟩
  · rcases eq_or_ne n c.nonce with rfl | hne
    · rw [hg.nonces_eq, AList.lookup_insert, Option.some.injEq] at hi
      subst hi
      exact ⟨t, by rw [hg.transitions_eq, AList.lookup_insert], hg.nonce⟩
    · rw [hg.nonces_eq, AList.lookup_insert_ne hne] at hi
      obtain ⟨t', ht', hn⟩ := hst.defined n i hi
      exact ⟨t', hext.transitions _ _ ht', hn⟩
  · rw [hg.nonces_eq, AList.mem_insert]
    rcases eq_or_ne i t.transition_id with rfl | hne
    · rw [hg.transitions_eq, AList.lookup_insert, Option.some.injEq] at hi
      subst hi
      obtain ⟨d, -, -, hd⟩ := identify_ok hg.identified
      exact ⟨.inl hg.nonce, d, hd⟩
    · rw [hg.transitions_eq, AList.lookup_insert_ne hne] at hi
      exact ⟨.inr (hst.filed i t' hi).1, (hst.filed i t' hi).2⟩

/-! ## Along a run -/

/-- What leaves the state alone extends it. -/
theorem Quiet.extends {s s' : AuthorityStores R} (h : Quiet s s') : Extends s.state s'.state :=
  ⟨fun n i hi => by rw [h.nonces]; exact hi, fun i t ht => by rw [h.transitions]; exact ht⟩

/-- And keeps its tables in step. -/
theorem Quiet.transitionTable {s s' : AuthorityStores R} (h : Quiet s s')
    (hst : TransitionTable R s.state) : TransitionTable R s'.state :=
  ⟨by rw [h.nonces, h.transitions]; exact hst.defined,
    by rw [h.nonces, h.transitions]; exact hst.filed⟩

/-- **A call that respells no nonce** keeps the tables in order and overwrites nothing. -/
theorem tables_of_step (hsha : ShaInjective R) {a : ProtectedAuthority R}
    {w w' : World R} {op : Op R} (hst : TransitionTable R w.authority.state)
    (h : StepAgreeing a w op w') :
    TransitionTable R w'.authority.state ∧ Extends w.authority.state w'.authority.state := by
  obtain ⟨⟨-, rfl⟩, hresp⟩ := h
  rcases exec_authority a w op with hq | ⟨c, cost, now, t, st, r, rfl, hauth⟩
  · exact ⟨hq.transitionTable hst, hq.extends⟩
  · have hagree := hresp hauth.allowed hauth.granted.cost_pos
    rw [hauth.advanced.state_eq]
    exact ⟨transitionTable_of_granted hsha hst hauth.granted hagree,
      extends_of_granted hsha hst hauth.granted hagree⟩

/-- The tables of an empty world are in step. -/
theorem transitionTable_of_empty {w : World R} (h : w.Empty) :
    TransitionTable R w.authority.state :=
  ⟨by simp [h.nonces], by simp [h.transitions]⟩

/-- The tables along a run. -/
theorem tables_of_run (hsha : ShaInjective R) {a : ProtectedAuthority R}
    {w w' : World R} {ops : List (Op R)} (hst : TransitionTable R w.authority.state)
    (h : Run (StepAgreeing a) w ops w') :
    TransitionTable R w'.authority.state ∧ Extends w.authority.state w'.authority.state :=
  h.invariant (fun w' => TransitionTable R w'.authority.state ∧
      Extends w.authority.state w'.authority.state) ⟨hst, .refl _⟩
    fun _ _ _ hi hs =>
      have hstep := tables_of_step hsha hi.1 hs
      ⟨hstep.1, hi.2.trans hstep.2⟩

/-- A transition that verifies in a state verifies in what extends it. -/
theorem Extends.verifyTransition {st st' : ProtectedState} (h : Extends st st') {i : PyStr}
    {c : CandidateAct} (hv : st.verifyTransition i c = true) : st'.verifyTransition i c = true := by
  rw [verifyTransition_iff] at hv ⊢
  obtain ⟨hn, t, ht, hrest⟩ := hv
  exact ⟨h.nonces _ _ hn, t, h.transitions _ _ ht, hrest⟩

/-- A capability that verifies keeps verifying in stores that overwrote nothing. -/
theorem verified_of_extends {sink : FinalitySink R} {ev ev' : EvidenceStore R}
    {st st' : ProtectedState} {c : CandidateAct} {cap : Capability} {now : Int}
    {proof : Option PresentationProof} {d : PyStr}
    (hev : ∀ i e, ev.get i = some e → ev'.get i = some e) (hst : Extends st st')
    (hv : Verified sink ev st c cap now proof d) : Verified sink ev' st' c cap now proof d := by
  obtain ⟨e, he, hm⟩ := hv.evidence
  exact { hv with
    evidence := ⟨e, hev _ _ he, hm⟩
    transition := hst.verifyTransition hv.transition }

/-- **Other traffic cannot invalidate a capability**, while no reserved nonce is respelled: in
every state reached from empty stores, what verifies keeps verifying after any further calls,
every reserved nonce leads to a transition that carries it, and no entry of either table is
overwritten. -/
theorem capability_stays_valid (hsha : ShaInjective R) {a : ProtectedAuthority R}
    {w₀ w w' : World R} {ops ops' : List (Op R)} (h0 : w₀.Empty)
    (hrun : Run (StepAgreeing a) w₀ ops w) (hrest : Run (StepAgreeing a) w ops' w') :
    (∀ sink c cap now proof d,
      FinalitySink.verify sink w.authority.evidence_store w.authority.state c cap now proof =
        .ok d →
      FinalitySink.verify sink w'.authority.evidence_store w'.authority.state c cap now proof =
        .ok d) ∧
    (∀ n i, w'.authority.state.nonces.lookup n = some i →
      ∃ t, w'.authority.state.transitions.lookup i = some t ∧ t.nonce = n) ∧
    (∀ i t, w.authority.state.transitions.lookup i = some t →
      w'.authority.state.transitions.lookup i = some t) := by
  have htab := (tables_of_run hsha (transitionTable_of_empty h0) hrun).1
  obtain ⟨htab', hext⟩ := tables_of_run hsha htab hrest
  refine ⟨fun sink c cap now proof d hv => ?_, htab'.defined, hext.transitions⟩
  rw [verify_ok] at hv ⊢
  exact verified_of_extends (fun i e => get_evidence_run (run_of_agreeing hrest)) hext hv

/-- A reserved nonce is that of a candidate that was submitted. -/
theorem submitted_of_reserved {a : ProtectedAuthority R} {w₀ w : World R} {ops : List (Op R)}
    (h0 : w₀.Empty) (hrun : Run (Step a) w₀ ops w) {n : PyStr}
    (hn : n ∈ w.authority.state.nonces) :
    ∃ c cost now, .authorize c cost now ∈ ops ∧ c.nonce = n := by
  refine hrun.invariantTrace (fun ops w => ∀ n ∈ w.authority.state.nonces,
    ∃ c cost now, .authorize c cost now ∈ ops ∧ c.nonce = n) (by simp [h0.nonces]) ?_ n hn
  rintro ops w op w' - ih ⟨-, rfl⟩ n hn
  have hold : n ∈ w.authority.state.nonces →
      ∃ c cost now, .authorize c cost now ∈ ops ++ [op] ∧ c.nonce = n := by
    intro hn
    obtain ⟨c, cost, now, hmem, hc⟩ := ih n hn
    exact ⟨c, cost, now, List.mem_append_left _ hmem, hc⟩
  rcases exec_authority a w op with hq | ⟨c, cost, now, t, st, r, rfl, hauth⟩
  · exact hold (hq.nonces ▸ hn)
  · rw [hauth.advanced.state_eq, hauth.granted.nonces_eq, AList.mem_insert] at hn
    rcases hn with rfl | hn
    · exact ⟨c, cost, now, by simp, rfl⟩
    · exact hold hn

/-- No two candidates submitted have one nonce in two spellings. -/
def SpellsOnce (R : Runtime) (ops : List (Op R)) : Prop :=
  ∀ ⦃c cost now c' cost' now'⦄, .authorize c cost now ∈ ops → .authorize c' cost' now' ∈ ops →
    NfcEq R c.nonce c'.nonce → c.nonce = c'.nonce

/-- Where no nonce is submitted in two spellings the next call respects those that are reserved. -/
theorem respectsNonces_of_spellsOnce {a : ProtectedAuthority R} {w₀ w : World R}
    {ops : List (Op R)} (h0 : w₀.Empty) (hrun : Run (Step a) w₀ ops w) {op : Op R}
    (honce : SpellsOnce R (ops ++ [op])) : RespectsNonces a w op := by
  cases op with
  | authorize c cost now =>
    rintro - - ⟨n, hn, heq⟩
    obtain ⟨c₀, cost₀, now₀, hmem, rfl⟩ := submitted_of_reserved h0 hrun hn
    exact honce (List.mem_append_left _ hmem) (List.mem_append_right _ (.head _)) heq ▸ hn
  | _ => trivial

/-- Every beginning of such a list of calls is one. -/
theorem SpellsOnce.of_append {ops ops' : List (Op R)} (h : SpellsOnce R (ops ++ ops')) :
    SpellsOnce R ops :=
  fun _ _ _ _ _ _ hc hc' => h (List.mem_append_left _ hc) (List.mem_append_left _ hc')

/-- **Callers who spell no nonce in two ways** respect the nonces. -/
theorem agreeing_of_spellsOnce {a : ProtectedAuthority R} {w₀ w : World R} {ops : List (Op R)}
    (h0 : w₀.Empty) (hrun : Run (Step a) w₀ ops w) (honce : SpellsOnce R ops) :
    Run (StepAgreeing a) w₀ ops w := by
  refine hrun.invariantTrace (fun ops w => SpellsOnce R ops → Run (StepAgreeing a) w₀ ops w)
    (fun _ => .nil) ?_ honce
  intro ops w op w' hrun ih hs honce
  exact (ih honce.of_append).snoc ⟨hs, respectsNonces_of_spellsOnce h0 hrun honce⟩

/-- In empty stores every authorisation respects the nonces. -/
theorem respectsNonces_of_empty {a : ProtectedAuthority R} {w : World R} (h : w.Empty) (op : Op R) :
    RespectsNonces a w op := by
  cases op with
  | authorize c cost now =>
    rintro - - ⟨n, hn, -⟩
    simp [h.nonces] at hn
  | _ => trivial

/-- The capability for the sample act after another act was authorised and the source configured
anew. -/
theorem capability_stays_valid_sample : ∃ cap cap' w w' d,
    Run (StepAgreeing sampleAuthority) sampleWorld [.authorize sampleCandidate 1 200] w ∧
    (sampleAuthority.authorize w.authority nextCandidate 1 201).1 = .ok cap' ∧
    Run (StepAgreeing sampleAuthority) w
      [.authorize nextCandidate 1 201, .configureSource (py "agent-A") 5 5] w' ∧
    sampleSink.verify w.authority.evidence_store w.authority.state sampleCandidate cap 200 none =
      .ok d ∧
    sampleSink.verify w'.authority.evidence_store w'.authority.state sampleCandidate cap 200 none =
      .ok d := by
  obtain ⟨cap, s', -, -, h, -, hverified⟩ := sample_verified
  have hv := verify_ok.2 hverified
  have hexec : exec sampleAuthority sampleWorld (.authorize sampleCandidate 1 200) =
      ⟨s', sampleWorld.effects⟩ := by simp only [exec, h]
  have hrun : Run (StepAgreeing sampleAuthority) sampleWorld [.authorize sampleCandidate 1 200]
      ⟨s', sampleWorld.effects⟩ :=
    .single ⟨⟨trivial, hexec.symm⟩, respectsNonces_of_empty sampleWorld_empty _⟩
  -- another act is authorised, and the source configured anew
  obtain ⟨cap', s'', h', -⟩ := (next_grantedNext sample_context).authorize h rfl rfl
  have hrespects : RespectsNonces sampleAuthority ⟨s', sampleWorld.effects⟩
      (.authorize nextCandidate 1 201) := by
    rintro - - ⟨n, hn, heq⟩
    obtain ⟨c, cost, now, hmem, rfl⟩ := submitted_of_reserved sampleWorld_empty
      (run_of_agreeing hrun) hn
    obtain ⟨rfl, -, -⟩ := Op.authorize.inj (List.mem_singleton.1 hmem)
    exact absurd heq next_nonce
  have hrest : Run (StepAgreeing sampleAuthority) ⟨s', sampleWorld.effects⟩
      [.authorize nextCandidate 1 201, .configureSource (py "agent-A") 5 5] _ :=
    .cons ⟨⟨trivial, rfl⟩, hrespects⟩ (.single ⟨⟨trivial, rfl⟩, trivial⟩)
  exact ⟨cap, cap', _, _, _, hrun, congrArg Prod.fst h', hrest, hv,
    (capability_stays_valid sample_injective sampleWorld_empty hrun hrest).1 _ _ _ _ _ _ hv⟩

/-- The same act under another spelling of its nonce, granted from the same source state, replaces
the transition of the first. -/
theorem not_verifyTransition_of_respelled {st₁ st₂ st₁' st₂' : ProtectedState}
    {c c' : CandidateAct} {cost : Int} {t t' : StateTransition} (he : Eqv R c.asdict c'.asdict)
    (hnonce : c'.nonce ≠ c.nonce)
    (hsource : (st₂.snapshot c'.source).1 = (st₁.snapshot c.source).1)
    (hg : Granted R st₁ c cost t st₁') (hg' : Granted R st₂ c' cost t' st₂') :
    st₂'.verifyTransition t.transition_id c ≠ true := by
  intro hver
  have hid := hg'.identified
  rw [hsource] at hid
  obtain ⟨-, t₂, ht₂, hn₂, -⟩ := verifyTransition_iff.1 hver
  rw [transition_id_eq he hg.identified hid, hg'.transitions_eq, AList.lookup_insert,
    Option.some.injEq] at ht₂
  rw [← ht₂, hg'.nonce] at hn₂
  exact hnonce hn₂

/-- **A respelled nonce invalidates a capability.** After the source is configured anew, the same
act under another spelling of its nonce gets the same transition id, and its transition replaces
the one the capability rests on. -/
theorem respelled_nonce_invalidates : ∃ cap w w' d,
    (sampleAuthority.authorize sampleWorld.authority sampleCandidate 1 200).1 = .ok cap ∧
    Run (Step sampleAuthority) sampleWorld [.authorize sampleCandidate 1 200] w ∧
    sampleSink.verify w.authority.evidence_store w.authority.state sampleCandidate cap 200 none =
      .ok d ∧
    Run (Step sampleAuthority) w [.configureSource (py "agent-A") 1000 1000,
      .authorize respelledCandidate 1 201] w' ∧
    ∀ d', sampleSink.verify w'.authority.evidence_store w'.authority.state sampleCandidate cap 200
      none ≠ .ok d' := by
  obtain ⟨cap, s', t, ev, h, hauth, hverified⟩ := sample_verified
  have hv := verify_ok.2 hverified
  have hexec : exec sampleAuthority sampleWorld (.authorize sampleCandidate 1 200) =
      ⟨s', sampleWorld.effects⟩ := by simp only [exec, h]
  -- the second authorisation is granted from the source state the first was granted from
  obtain ⟨s₂, hs₂⟩ : ∃ s₂ : AuthorityStores sampleRuntime,
      s₂ = { s' with state := s'.state.configureSource (py "agent-A") 1000 1000 } := ⟨_, rfl⟩
  have hsource : (s₂.state.snapshot respelledCandidate.source).1 = ⟨0, 1000, 1000⟩ := by
    simp only [hs₂, configureSource, snapshot, getSource, respelledCandidate, sampleCandidate,
      AList.lookup_insert]
  have hfresh : s₂.state.nonces.lookup respelledCandidate.nonce = none := by
    simp only [hs₂, configureSource, hauth.granted.nonces_eq]
    rw [AList.lookup_insert_ne (by decide)]
    rfl
  obtain ⟨t', st', hg'⟩ : ∃ t st', Granted sampleRuntime s₂.state respelledCandidate 1 t st' :=
    exists_granted (by decide) hfresh (by rw [hsource]; decide) (by rw [hsource]; decide)
      sample_canon.2 (by
        rw [hsource]
        exact (by decide : ∀ i ∈ counters (nextTransition ⟨0, 1000, 1000⟩ respelledCandidate 1),
          printsInt i = true))
  have hstate := authorize_state sample_canon.2 (respelled_allows ∅) hg'
  refine ⟨cap, ⟨s', sampleWorld.effects⟩,
    exec sampleAuthority ⟨s₂, sampleWorld.effects⟩ (.authorize respelledCandidate 1 201), _,
    by rw [h], .single ⟨trivial, hexec.symm⟩, hv,
    .cons ⟨trivial, by rw [hs₂]; rfl⟩ (.single ⟨trivial, rfl⟩), fun d' hd' => ?_⟩
  have hver := (verify_ok.1 hd').transition
  rw [hauth.capability.transition_id] at hver
  exact not_verifyTransition_of_respelled sample_eqv (by decide) hsource hauth.granted hg'
    (hstate ▸ hver)

end Finality
