import Finality.Lib.SingleUse
import Finality.Core.Provenance
import Finality.Core.NonceTable

/-!
# At most one effect per act

Every run refines the single-use protocol with capability ids as tokens: a verified call claims
its id, and its commit spends the claim or its failure burns it (`refines_singleUse`). So a
capability id has at most one effect. While no reserved nonce is respelled, two issued
capabilities whose nonces have one NFC form are one capability (`issued_unique`), and then an act
has at most one effect (`one_effect_per_act`). A respelled nonce gets the act a second effect
(`respelled_act_twice`).
-/

namespace Finality

open Checks ProtectedState ProtectedAuthority FinalitySink Runs

variable {R : Runtime}

/-! ## Capability ids are used once -/

/-- The state of the single-use protocol that a state of the run stands for. -/
structure Simulates (a : ProtectedAuthority R) (w₀ : World R) (ops : List (Op R)) (w : World R)
    (abs : SingleUse.State PyStr EffectRecord) : Prop where
  claimed : ∀ i, i ∈ abs.claimed ↔ i ∈ w.effects.consumption_store.claims
  pending : abs.pending = []
  records : abs.spent.map Prod.snd = w.effects.effector.records
  origin : ∀ i r, (i, r) ∈ abs.spent → ∃ c₀ cost t₀ cap₀, Issued a w₀ ops c₀ cost t₀ cap₀ ∧
    cap₀.capability_id = i ∧ cap₀.candidate_digest = r.candidate_digest

/-- What was spent keeps its origin when another call is made. -/
theorem Simulates.origin_snoc {a : ProtectedAuthority R} {w₀ w : World R} {ops : List (Op R)}
    {abs : SingleUse.State PyStr EffectRecord} (h : Simulates a w₀ ops w abs) (op : Op R) :
    ∀ i r, (i, r) ∈ abs.spent → ∃ c₀ cost t₀ cap₀, Issued a w₀ (ops ++ [op]) c₀ cost t₀ cap₀ ∧
      cap₀.capability_id = i ∧ cap₀.candidate_digest = r.candidate_digest := fun i r hmem => by
  obtain ⟨c₀, cost, t₀, cap₀, hi, hid, hd⟩ := h.origin i r hmem
  exact ⟨c₀, cost, t₀, cap₀, hi.snoc op, hid, hd⟩

/-- A call that claims and commits nothing stands still. -/
theorem Simulates.still {a : ProtectedAuthority R} {w₀ w w' : World R} {ops : List (Op R)}
    {abs : SingleUse.State PyStr EffectRecord} (h : Simulates a w₀ ops w abs) (op : Op R)
    (hc : w'.effects.consumption_store = w.effects.consumption_store)
    (hr : w'.effects.effector.records = w.effects.effector.records) :
    Simulates a w₀ (ops ++ [op]) w' abs :=
  ⟨by rw [hc]; exact h.claimed, h.pending, by rw [hr]; exact h.records, h.origin_snoc op⟩

/-- The claim of a capability, in both. -/
theorem claimed_of_claim {abs : SingleUse.State PyStr EffectRecord}
    {store store' : InMemoryConsumptionStore} {i sid bid nonce : PyStr} {now : Int}
    (h : ∀ j, j ∈ abs.claimed ↔ j ∈ store.claims)
    (hc : store.claim i sid bid nonce now = .ok store') :
    i ∉ abs.claimed ∧ ∀ j, j ∈ abs.claimed ++ [i] ↔ j ∈ store'.claims := by
  obtain ⟨hi, rfl⟩ := InMemoryConsumptionStore.claim_ok.1 hc
  refine ⟨fun hmem => hi ((h i).1 hmem), fun j => ?_⟩
  rw [List.mem_append, List.mem_singleton, h, AList.mem_insert, or_comm]

/-- **Each call is a number of steps of the single-use protocol.** -/
theorem simulates_step {a : ProtectedAuthority R} {w₀ w w' : World R} {ops : List (Op R)}
    {op : Op R}
    {abs : SingleUse.State PyStr EffectRecord} (h0 : w₀.Empty) (hrun : Run (Step a) w₀ ops w)
    (h : Simulates a w₀ ops w abs) (hs : Step a w op w') :
    ∃ abs', Relation.ReflTransGen SingleUse.Step abs abs' ∧
      Simulates a w₀ (ops ++ [op]) w' abs' := by
  obtain ⟨hunf, rfl⟩ := hs
  rcases exec_effects a w op with ⟨hc, hr⟩ | ⟨sink, c, cap, now, proof, r, rfl, he⟩
  · exact ⟨abs, .refl, h.still op hc hr⟩
  generalize exec a w (.effectuate sink c cap now proof) = w' at he
  obtain ⟨auth, stores⟩ := w'
  cases he with
  | unverified => exact ⟨abs, .refl, h.still _ rfl rfl⟩
  | replayed => exact ⟨abs, .refl, h.still _ rfl rfl⟩
  | failed hv hc he =>
    obtain ⟨hnot, hiff⟩ := claimed_of_claim h.claimed hc
    exact ⟨_, SingleUse.claim_burn hnot h.pending, hiff, h.pending,
      by simp [h.records, (GuardedEffector.commit_error he).1], h.origin_snoc _⟩
  | @committed d claims effector record hv hc he =>
    obtain ⟨hnot, hiff⟩ := claimed_of_claim h.claimed hc
    obtain ⟨-, -, hrec, rfl⟩ := GuardedEffector.commit_ok.1 he
    refine ⟨_, SingleUse.claim_spend record hnot h.pending, hiff, h.pending,
      by simp [h.records], ?_⟩
    intro i r hmem
    rcases List.mem_append.1 hmem with hmem | hmem
    · exact h.origin_snoc _ i r hmem
    · obtain ⟨rfl, rfl⟩ := Prod.mk.inj (List.mem_singleton.1 hmem)
      obtain ⟨c₀, cost, t₀, cap₀, hi, hcap⟩ := issued_of_signedBefore h0 hrun (hunf hv.signed)
      have hd : cap₀.candidate_digest = cap.candidate_digest :=
        Except.ok.inj (hi.candidate_digest.symm.trans (digest_of_capabilityEqv hi hcap))
      have hd' : cap.candidate_digest = r.candidate_digest := Except.ok.inj
        (hv.candidate_digest.symm.trans (GuardedEffector.nextRecord_ok hrec).1)
      exact ⟨c₀, cost, t₀, cap₀, hi.snoc _, (capability_id_of_capabilityEqv hi hcap).symm,
        hd.trans hd'⟩

/-- **Every run refines the single-use protocol.** -/
theorem refines_singleUse {a : ProtectedAuthority R} {w₀ w : World R} {ops : List (Op R)}
    (h0 : w₀.Empty) (hrun : Run (Step a) w₀ ops w) :
    ∃ abs, SingleUse.Inv abs ∧ Simulates a w₀ ops w abs := by
  refine hrun.invariantTrace (fun ops w => ∃ abs, SingleUse.Inv abs ∧ Simulates a w₀ ops w abs)
    ⟨.empty, SingleUse.inv_empty, ?_⟩ ?_
  · exact ⟨by simp [SingleUse.State.empty, h0.claims], rfl, h0.records.symm,
      by simp [SingleUse.State.empty]⟩
  · rintro ops w op w' hrun ⟨abs, hinv, hsim⟩ hs
    obtain ⟨abs', hsteps, hsim'⟩ := simulates_step h0 hrun hsim hs
    exact ⟨abs', hinv.steps hsteps, hsim'⟩

/-! ## Nonces are issued once -/

/-- The nonce of an issued capability stays reserved for its transition. -/
theorem reserved_of_issued {a : ProtectedAuthority R} {w₀ w : World R} {ops : List (Op R)}
    (hrun : Run (Step a) w₀ ops w) : ∀ c cost now cap, Issued a w₀ ops c cost now cap →
      c.nonce ∈ w.authority.state.nonces := by
  refine hrun.invariantTrace (fun ops w => ∀ c cost now cap, Issued a w₀ ops c cost now cap →
    c.nonce ∈ w.authority.state.nonces) ?_ ?_
  · rintro c cost now cap ⟨ops₁, ops₂, _, _, h, -⟩
    simp at h
  rintro ops w op w' hrun ih ⟨-, rfl⟩ c cost now cap hi
  rcases issued_snoc_cases hrun hi with hi | ⟨w', s, rfl, hrun', hret⟩
  · exact mem_nonces_exec (ih _ _ _ _ hi)
  · obtain rfl : w' = w := run_functional hrun' hrun
    obtain ⟨t, ev, hauth⟩ := authorize_ok hret
    simp only [exec, hret, hauth.granted.nonces_eq, AList.mem_insert, true_or]

/-- **Issued capabilities have nonces of their own**, while no reserved nonce is respelled. -/
theorem issued_unique {a : ProtectedAuthority R} {w₀ w : World R} {ops : List (Op R)}
    (hrun : Run (StepAgreeing a) w₀ ops w) : ∀ c cost now cap c' cost' now' cap',
      Issued a w₀ ops c cost now cap → Issued a w₀ ops c' cost' now' cap' →
      NfcEq R c.nonce c'.nonce → cap = cap' := by
  refine hrun.invariantTrace (fun ops w => ∀ c cost now cap c' cost' now' cap',
      Issued a w₀ ops c cost now cap → Issued a w₀ ops c' cost' now' cap' →
      NfcEq R c.nonce c'.nonce → cap = cap') ?_ ?_
  · rintro c cost now cap c' cost' now' cap' ⟨ops₁, ops₂, _, _, h, -⟩
    simp at h
  rintro ops w op w' hrun ih ⟨-, hresp⟩ c cost now cap c' cost' now' cap' hi hi' hn
  have hrun := run_of_agreeing hrun
  -- an issue by the last call has a nonce that no earlier issue has in any spelling
  have hlast : ∀ {d d' : CandidateAct} {cost now cost' now' : Int} {cap : Capability}
      {w₁ : World R} {s : AuthorityStores R}, op = .authorize d cost now →
      Run (Step a) w₀ ops w₁ → a.authorize w₁.authority d cost now = (.ok cap, s) →
      ∀ {cap'}, Issued a w₀ ops d' cost' now' cap' → NfcEq R d'.nonce d.nonce → False := by
    intro d d' cost now cost' now' cap w₁ s hop hrun₁ hret cap' hj hm
    subst hop
    obtain rfl : w₁ = w := run_functional hrun₁ hrun
    obtain ⟨t, ev, hauth⟩ := authorize_ok hret
    have hmem := reserved_of_issued hrun _ _ _ _ hj
    exact AList.lookup_eq_none.1 hauth.granted.fresh
      (hresp hauth.allowed hauth.granted.cost_pos ⟨_, hmem, hm⟩)
  rcases issued_snoc_cases hrun hi with h | ⟨w₁, s₁, hop, hrun₁, hret⟩
  · rcases issued_snoc_cases hrun hi' with h' | ⟨w₂, s₂, hop', hrun₂, hret'⟩
    · exact ih _ _ _ _ _ _ _ _ h h' hn
    · exact (hlast hop' hrun₂ hret' h hn).elim
  · rcases issued_snoc_cases hrun hi' with h' | ⟨w₂, s₂, hop', hrun₂, hret'⟩
    · exact (hlast hop hrun₁ hret h' hn.symm).elim
    · obtain ⟨rfl, rfl, rfl⟩ := Op.authorize.inj (hop.symm.trans hop')
      obtain rfl : w₁ = w₂ := run_functional hrun₁ hrun₂
      exact Except.ok.inj (Prod.mk.inj (hret.symm.trans hret')).1

/-! ## Acts are effected once -/

/-- **Effects have nonces of their own**: candidates of two effect records have nonces with
different NFC forms. -/
theorem effects_pairwise_nonce (hsha : ShaInjective R) {a : ProtectedAuthority R}
    {w₀ w : World R} {ops : List (Op R)} (h0 : w₀.Empty)
    (hrun : Run (StepAgreeing a) w₀ ops w) :
    w.effects.effector.records.Pairwise fun r r' => ∀ c c' : CandidateAct,
      c.digest R = .ok r.candidate_digest → c'.digest R = .ok r'.candidate_digest →
      ¬ NfcEq R c.nonce c'.nonce := by
  obtain ⟨abs, hinv, hsim⟩ := refines_singleUse h0 (run_of_agreeing hrun)
  rw [← hsim.records, List.pairwise_map]
  have hnd := hinv.spent_nodup
  rw [List.Nodup, List.pairwise_map] at hnd
  refine hnd.imp_of_mem fun {x y} hx hy hne c c' hc hc' hn => hne ?_
  obtain ⟨c₀, cost, t₀, cap₀, hi, hid, hd⟩ := hsim.origin x.1 x.2 hx
  obtain ⟨c₁, cost', t₁, cap₁, hi', hid', hd'⟩ := hsim.origin y.1 y.2 hy
  have h0 := candidateEqv_of_digest hsha hi.candidate_digest (by rw [hd]; exact hc)
  have h1 := candidateEqv_of_digest hsha (by rw [← hd'] at hc'; exact hc') hi'.candidate_digest
  rw [← hid, ← hid', issued_unique hrun _ _ _ _ _ _ _ _ hi hi' ((h0.nonce.trans hn).trans h1.nonce)]

/-- **At most one effect per act**, while no reserved nonce is respelled: the effector never holds
two records with one candidate digest. -/
theorem one_effect_per_act (hsha : ShaInjective R) {a : ProtectedAuthority R}
    {w₀ w : World R} {ops : List (Op R)} (h0 : w₀.Empty)
    (hrun : Run (StepAgreeing a) w₀ ops w) :
    (w.effects.effector.records.map EffectRecord.candidate_digest).Nodup := by
  have hpair := effects_pairwise_nonce hsha h0 hrun
  obtain ⟨abs, -, hsim⟩ := refines_singleUse h0 (run_of_agreeing hrun)
  rw [List.Nodup, List.pairwise_map]
  refine hpair.imp_of_mem fun {r r'} hr hr' hne heq => ?_
  rw [← hsim.records] at hr
  obtain ⟨⟨i, r⟩, hx, rfl⟩ := List.mem_map.1 hr
  obtain ⟨c₀, cost, t₀, cap₀, hi, -, hd⟩ := hsim.origin i r hx
  have hc := hi.candidate_digest
  rw [hd] at hc
  have hself := (candidateEqv_of_digest hsha hc hc).nonce
  exact hne c₀ c₀ hc (heq ▸ hc) hself

/-- The nonces of the sample act and of the next are apart, in any contexts. -/
theorem next_spellsOnce (ctx ctx' : PyDict PyVal) {ops : List (Op sampleRuntime)}
    (hops : ∀ {c cost now}, .authorize c cost now ∈ ops →
      c = sampleCandidate.withContext ctx ∨ c = nextCandidate.withContext ctx') :
    SpellsOnce sampleRuntime ops := by
  intro c _ _ c' _ _ h h' heq
  rcases hops h with rfl | rfl <;> rcases hops h' with rfl | rfl
  · rfl
  · exact absurd heq next_nonce
  · exact absurd heq.symm next_nonce
  · rfl

/-- Two acts take effect; the first one, submitted and presented once more, does not. -/
theorem one_effect_per_act_sample : ∃ cap cap' w record record',
    Run (StepAgreeing sampleAuthority) sampleWorld
      [.authorize sampleCandidate 1 200, .effectuate sampleSink sampleCandidate cap 200 none,
        .authorize nextCandidate 1 201, .effectuate sampleSink nextCandidate cap' 201 none,
        .authorize sampleCandidate 1 201, .effectuate sampleSink sampleCandidate cap 201 none] w ∧
    w.effects.effector.records = [record, record'] ∧
    (w.effects.effector.records.map EffectRecord.candidate_digest).Nodup := by
  obtain ⟨cap, cap', w₁, w₂, w₃, record, record', hrun₁, hrun₂, hrun₃, hrecs⟩ :=
    replayed_runs sample_context (next_grantedNext sample_context)
      (sampleSink_serves_context ∅).2.2
  have hrun := agreeing_of_spellsOnce sampleWorld_empty (hrun₁.append (hrun₂.append hrun₃))
    (next_spellsOnce ∅ ∅ fun h => by
      simp only [List.cons_append, List.nil_append, List.mem_cons, Op.authorize.injEq, reduceCtorEq,
        List.not_mem_nil, or_false, false_or] at h
      tauto)
  exact ⟨cap, cap', w₃, record, record', hrun, hrecs,
    one_effect_per_act sample_injective sampleWorld_empty hrun⟩

/-- **A respelled nonce gets an act a second effect**: the act is authorised and effected, and then
once more with its nonce decomposed. -/
theorem respelled_act_twice : ∃ cap cap' w, Run (Step sampleAuthority) sampleWorld
    ([.authorize sampleCandidate 1 200, .effectuate sampleSink sampleCandidate cap 200 none] ++
      [.authorize respelledCandidate 1 201,
        .effectuate sampleSink respelledCandidate cap' 201 none]) w ∧
    ¬ (w.effects.effector.records.map EffectRecord.candidate_digest).Nodup := by
  obtain ⟨cap, cap', w₁, w₂, record, record', hrun, -, hrun', hrecs, hd, hd'⟩ :=
    respelled_runs sample_context
  refine ⟨cap, cap', w₂, hrun.append hrun', ?_⟩
  have hsame : record.candidate_digest = record'.candidate_digest :=
    Except.ok.inj (hd.symm.trans (sample_eqv.sha256Hex_eq.trans hd'))
  simp [hrecs, hsame]

end Finality
