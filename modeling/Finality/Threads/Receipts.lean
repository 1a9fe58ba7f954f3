import Finality.Threads.Soundness

/-!
# What a receipt proves

A sink signs a receipt as the last step of an effectuation. Whoever holds a receipt whose signed
part was signed, in whatever spelling, can tell from it which record was made, under which
capability and by which transition (`receipts_account`), and no two receipts tell of one record.
-/

namespace Finality

open Checks ProtectedState ProtectedAuthority FinalitySink Runs

namespace Threads

section
variable {R : Runtime} {a : ProtectedAuthority R} {s s' : State R}

/-! ## Receipts in the log -/

/-- The effectuation `j` has returned the receipt it issued. -/
def Receipted (s : State R) (j : Nat) (receipt : SinkReceipt) : Prop :=
  ∃ k d ref, s.effectuations[j]? = some k ∧ k.call.phase = .returned receipt ∧
    k.call.sink.issueReceipt k.call.candidate k.call.cap d k.call.now ref = .ok receipt

/-- A call that returns a receipt has issued it. -/
theorem issued_of_next {k : Interleaving.Call R} {ev : EvidenceStore R} {st : ProtectedState}
    {stores stores' : EffectStores} {receipt : SinkReceipt}
    (h : k.next ev st stores = some (.returned receipt, stores')) :
    ∃ d ref, k.sink.issueReceipt k.candidate k.cap d k.now ref = .ok receipt := by
  cases Interleaving.moves h with
  | @returned d ref _ hp _ =>
    simp only [Interleaving.Call.next, hp] at h
    split at h
    · cases h
    · rename_i hr
      cases h
      exact ⟨d, some ref, hr⟩

/-- **A receipt in the log was returned**, and stays so. -/
theorem receipted_step {act : Act R} (h : Step a s act s')
    (hinv : ∀ {j receipt}, Event.receipted j receipt ∈ s.log → Receipted s j receipt) {j : Nat}
    {receipt : SinkReceipt} (hmem : Event.receipted j receipt ∈ s'.log) :
    Receipted s' j receipt := by
  -- a step that leaves the calls that have ended alone
  have hkeep : (Event.receipted j receipt ∈ s'.log → Event.receipted j receipt ∈ s.log) →
      (∀ k receipt, s.effectuations[j]? = some k → k.call.phase = .returned receipt →
        s'.effectuations[j]? = some k) → Receipted s' j receipt := by
    intro hold hcalls
    obtain ⟨k, d, ref, hk, hp, hissue⟩ := hinv (hold hmem)
    exact ⟨k, d, ref, hcalls k _ hk hp, hp, hissue⟩
  cases h with
  | @advance i k p authority hi hnext =>
    refine hkeep (fun h => (List.mem_append.1 h).resolve_right ?_) fun _ _ hk _ => hk
    cases k.phase <;> cases p <;> simp [Phase.events]
  | configureSource | snapshot =>
    exact hkeep (fun h => by simpa using h) fun _ _ hk _ => hk
  | authorize | failNext | failCommits | replaceEvidence =>
    exact hkeep id fun _ _ hk _ => hk
  | effectuate =>
    exact hkeep id fun _ _ hk _ => Interleaving.getElem?_concat_eq_some.2 (.inl hk)
  | @look i k hi hk =>
    refine hkeep id fun k' receipt' hk' hp => ?_
    rw [State.look, List.getElem?_set_ne]
    · exact hk'
    · rintro rfl
      obtain rfl := Option.some.inj (hi.symm.trans hk')
      rw [hk] at hp
      cases hp
  | @proceed i k ev p effects hi hev hunf hnext =>
    have hopen := (Interleaving.moves hnext).not_ended
    by_cases hnew : Event.receipted j receipt ∈ effectEvents i k.call.phase p
    · -- the receipt that this step returns
      obtain ⟨rfl, rfl⟩ : i = j ∧ p = .returned receipt := by
        revert hnew
        cases k.call.phase <;> cases p <;> simp +contextual [effectEvents]
      obtain ⟨d, ref, hissue⟩ := issued_of_next hnext
      exact ⟨_, d, ref, List.getElem?_set_self (List.getElem?_eq_some_iff.1 hi).1, rfl, hissue⟩
    · refine hkeep (fun h => (List.mem_append.1 h).resolve_right hnew) fun k' receipt' hk' hp => ?_
      rw [State.proceed, List.getElem?_set_ne]
      · exact hk'
      · rintro rfl
        obtain rfl := Option.some.inj (hi.symm.trans hk')
        rw [hp] at hopen
        cases hopen

/-- Every receipt of a run is accounted for. -/
theorem receipted_of_run {s₀ : State R} {acts : List (Act R)} (h0 : s₀.Empty)
    (hrun : Run (Step a) s₀ acts s) {j : Nat} {receipt : SinkReceipt}
    (h : Event.receipted j receipt ∈ s.log) : Receipted s j receipt :=
  hrun.invariant (fun s => ∀ j receipt, Event.receipted j receipt ∈ s.log → Receipted s j receipt)
    (by simp [h0.log]) (fun _ _ _ ih hs _ _ => receipted_step hs fun h => ih _ _ h) j receipt h

/-! ## What a receipt proves -/

/-- The receipt, however it is spelled, tells of record `n`, which is `r`, made by the effectuation
`j`, which is `k` and goes back to `o`. -/
structure Origin.Accounts (o : Origin R) (a : ProtectedAuthority R) (s : State R) (n : Nat)
    (r : EffectRecord) (j : Nat) (k : Effectuation R) (receipt : SinkReceipt) : Prop where
  made : o.Made a s n r j k
  /-- the effectuation returned it, after it made the effect -/
  returned : ∃ receipt', k.call.phase = .returned receipt' ∧
    Eqv R receipt.unsigned receipt'.unsigned ∧
    o.Sound a s j k.call [.claimed j, .effected j, .receipted j receipt']
  effect_reference : receipt.effect_reference = some r.effect_reference
  candidate_digest : receipt.candidate_digest = r.candidate_digest
  capability_id : receipt.capability_id = o.cap.capability_id
  transition_id : receipt.transition_id = o.grant.transition.transition_id
  committed_at_ns : receipt.committed_at_ns = k.call.now
  sink_id : NfcEq R receipt.sink_id k.call.sink.context.sink_id
  boundary_id : NfcEq R receipt.boundary_id k.call.sink.context.boundary_id

/-- A receipt that was signed agrees with one that an effectuation returned. -/
theorem exists_receipted (hinv : Inv a s) {receipt : SinkReceipt}
    (h : SignedBefore s.authority receipt.unsigned) :
    ∃ j receipt', Event.receipted j receipt' ∈ s.log ∧
      Eqv R receipt.unsigned receipt'.unsigned := by
  obtain ⟨u, hu, b, hub, hrb⟩ := h
  have heqv : Eqv R receipt.unsigned u := eqv_of_canonicalBytes hrb hub
  cases hinv.signed u hu with
  | receipt j receipt' h hlog => exact ⟨j, receipt', hlog, h ▸ heqv⟩
  | evidence g e h => exact (Artefact.agree_of_eqv (x := .sinkReceipt receipt)
      (y := .validationEvidence e) (h ▸ heqv)).elim
  | capability g e cap h => exact (Artefact.agree_of_eqv (x := .sinkReceipt receipt)
      (y := .capability cap) (h ▸ heqv)).elim

/-- Reading a receipt that an effectuation returned. -/
theorem exists_accounts (hsha : ShaInjective R) {s₀ : State R} {acts : List (Act R)}
    (h0 : s₀.Empty) (hrun : Run (Step a) s₀ acts s) {receipt receipt' : SinkReceipt} {j : Nat}
    (hlog : Event.receipted j receipt' ∈ s.log) (hsame : Eqv R receipt.unsigned receipt'.unsigned) :
    ∃ n r k, ∃ o : Origin R, o.Accounts a s n r j k receipt := by
  have heqv := receiptEqv_of_eqv hsame
  obtain ⟨k, d, ref, hj, hp, hissue⟩ := receipted_of_run h0 hrun hlog
  obtain ⟨acts', hrun'⟩ := exists_interleaving hrun
  have hinv' := Interleaving.inv_of_run h0.interleaving hrun'
  have hj' : s.interleaving.calls[j]? = some k.call := by simp [State.interleaving, hj]
  obtain ⟨n, r, hmade, r', hr', href, hdigest⟩ := hinv'.receiptFor hj' hp
  obtain rfl : r = r' := Option.some.inj (hmade.record.symm.trans hr')
  obtain ⟨o, ho⟩ := (inv_of_run h0 hrun).effects hj _ (by rw [hp]; rfl)
  have hmade' : o.Made a s n r j k :=
    (ho.of_append [.receipted j receipt']).made_of_madeBy hsha h0 hrun hj hmade
  have hissued := issueReceipt_ok hissue
  obtain ⟨hcap, -, htransition⟩ := ho.agrees
  -- the copied fields are digests, which have one spelling
  have hfields : receipt'.transition_id = k.call.cap.transition_id ∧
      receipt'.sink_id = k.call.sink.context.sink_id ∧
      receipt'.boundary_id = k.call.sink.context.boundary_id := by
    simp only [issueReceipt, bind_eq_ok, Except.ok.injEq] at hissue
    obtain ⟨_, -, _, -, _, -, rfl⟩ := hissue
    exact ⟨rfl, rfl, rfl⟩
  obtain ⟨_, _, -, htid⟩ := identify_ok ho.grant.granted.identified
  refine ⟨n, r, k, o, hmade', ⟨receipt', hp, hsame, ho⟩, ?_, ?_, ?_, ?_, ?_, ?_, ?_⟩
  · have hrel := heqv.effect_reference
    rw [href] at hrel
    generalize receipt.effect_reference = presented at hrel
    cases hrel with
    | some hn => rw [hn.eq_of_inert (inert_of_sha256Hex (hinv'.records.numbered hmade.record))]
  · rw [← hdigest]
    exact heqv.candidate_digest.eq_of_inert (inert_of_sha256Hex hissued.candidate_digest)
  · have hinert := inert_of_sha256Hex ho.issues.capability_id
    rw [← hcap, ← hissued.capability_id] at hinert ⊢
    exact heqv.capability_id.eq_of_inert hinert
  · have hinert := inert_of_sha256Hex htid
    rw [← htransition, ← hfields.1] at hinert ⊢
    exact heqv.transition_id.eq_of_inert hinert
  · exact heqv.committed_at_ns.trans hissued.committed_at_ns
  · exact hfields.2.1 ▸ heqv.sink_id
  · exact hfields.2.2 ▸ heqv.boundary_id

/-- Receipts of one effectuation agree. -/
theorem Origin.Accounts.eqv {o o' : Origin R} {n n' : Nat} {r r' : EffectRecord} {j j' : Nat}
    {k k' : Effectuation R} {receipt receipt' : SinkReceipt}
    (h : o.Accounts a s n r j k receipt) (h' : o'.Accounts a s n' r' j' k' receipt')
    (hj : j = j') : Eqv R receipt.unsigned receipt'.unsigned := by
  subst hj
  obtain ⟨u, hp, heqv, -⟩ := h.returned
  obtain ⟨u', hp', heqv', -⟩ := h'.returned
  obtain rfl : k = k' := Option.some.inj (h.made.effectuation.symm.trans h'.made.effectuation)
  obtain rfl : u = u' := Interleaving.Phase.returned.inj (hp.symm.trans hp')
  exact heqv.trans heqv'.symm

/-- **A receipt that was signed tells of a record.** -/
theorem accounts_of_signed (hsha : ShaInjective R) {s₀ : State R} {acts : List (Act R)}
    (h0 : s₀.Empty) (hrun : Run (Step a) s₀ acts s) {receipt : SinkReceipt}
    (hsigned : SignedBefore s.authority receipt.unsigned) :
    ∃ n r j k, ∃ o : Origin R, o.Accounts a s n r j k receipt := by
  obtain ⟨j, receipt', hlog, heqv⟩ := exists_receipted (inv_of_run h0 hrun) hsigned
  obtain ⟨n, r, k, o, ho⟩ := exists_accounts hsha h0 hrun hlog heqv
  exact ⟨n, r, j, k, o, ho⟩

/-- The effectuation that a receipt tells of holds the capability that the receipt names. -/
theorem Origin.Accounts.holds {o : Origin R} {n : Nat} {r : EffectRecord} {j : Nat}
    {k : Effectuation R} {receipt : SinkReceipt} (h : o.Accounts a s n r j k receipt) :
    Interleaving.Holds s.interleaving j receipt.capability_id := by
  obtain ⟨u, hp, -, ho⟩ := h.returned
  refine ⟨k.call, by simp [State.interleaving, h.made.effectuation], by rw [hp]; rfl, ?_⟩
  rw [ho.agrees.1, h.capability_id]

/-- **What a receipt proves.** In every interleaving of authorisations and effectuations, whatever
the attacker writes into the evidence store, a receipt whose signed part was signed, in whatever
spelling it is presented, tells of a record that was made: under the capability, by the transition
and at the time it names, for the act it names. Receipts for one capability agree, and so do
receipts for one effect. -/
theorem receipts_account (hsha : ShaInjective R) {s₀ : State R} {acts : List (Act R)}
    (h0 : s₀.Empty) (hrun : Run (Step a) s₀ acts s) :
    (∀ receipt : SinkReceipt, SignedBefore s.authority receipt.unsigned →
      ∃ n r j k, ∃ o : Origin R, o.Accounts a s n r j k receipt) ∧
    ∀ receipt receipt' : SinkReceipt, SignedBefore s.authority receipt.unsigned →
      SignedBefore s.authority receipt'.unsigned →
      receipt.capability_id = receipt'.capability_id ∨
        receipt.effect_reference = receipt'.effect_reference →
      Eqv R receipt.unsigned receipt'.unsigned := by
  refine ⟨fun receipt hsigned => accounts_of_signed hsha h0 hrun hsigned,
    fun receipt receipt' hsigned hsigned' hsame => ?_⟩
  obtain ⟨n, r, j, k, o, h⟩ := accounts_of_signed hsha h0 hrun hsigned
  obtain ⟨n', r', j', k', o', h'⟩ := accounts_of_signed hsha h0 hrun hsigned'
  obtain ⟨acts', hrun'⟩ := exists_interleaving hrun
  have hinv := Interleaving.inv_of_run h0.interleaving hrun'
  refine h.eqv h' ?_
  rcases hsame with hcap | href
  · exact hinv.claims.unique h.holds (hcap ▸ h'.holds)
  · have hr : r.effect_reference = r'.effect_reference := by
      simpa [h.effect_reference, h'.effect_reference] using href
    obtain rfl := hinv.records.reference_inj hsha h.made.record h'.made.record hr
    exact Option.some.inj (h.made.maker.symm.trans h'.made.maker)

end

/-- The sample act carried through leaves a signed receipt. -/
theorem sample_receipt : ∃ ops w, ∃ receipt : SinkReceipt,
    Run (Finality.Step sampleAuthority) sampleWorld ops w ∧
      SignedBefore w.authority receipt.unsigned := by
  obtain ⟨cap, s', t, ev, h, hauth, hv⟩ := sample_verified
  have hfresh : cap.capability_id ∉ sampleWorld.effects.consumption_store.claims :=
    AList.notMem_empty _
  obtain ⟨receipt, record, heff, -⟩ :=
    effectuate_succeeds hv hfresh rfl rfl rfl (by decide) HMACAuthenticator.signsCanon rfl
      (by decide)
  -- its signed part has canonical bytes, or it would not be signed
  obtain ⟨b, hb⟩ : ∃ b, canonicalBytes sampleRuntime receipt.unsigned = .ok b := by
    have hcases := effectuated heff
    generalize hr : (Except.ok receipt : Except PyErr SinkReceipt) = r at hcases
    cases hcases with
    | failed => cases hr
    | committed =>
      exact canon_iff_canonicalBytes.1
        (HMACAuthenticator.canon_of_sign (issueReceipt_ok hr.symm).signature)
  let ops : List (Op sampleRuntime) :=
    [.authorize sampleCandidate 1 200, .effectuate sampleSink sampleCandidate cap 200 none]
  have hw : exec sampleAuthority sampleWorld (.authorize sampleCandidate 1 200) =
      ⟨s', sampleWorld.effects⟩ := by
    simp only [exec, h]
  refine ⟨ops, _, receipt, .cons ⟨trivial, hw.symm⟩ (.single ⟨fun _ => hauth.signedBefore hv.signed,
    rfl⟩), receipt.unsigned, ?_, b, hb, hb⟩
  simp [exec, heff, receiptSigned]

/-- The receipt for the sample act, traced to its record and its grant. -/
theorem receipts_account_sample : ∃ acts s, ∃ receipt : SinkReceipt,
    Run (Step sampleAuthority) (State.ofWorld sampleWorld) acts s ∧
    SignedBefore s.authority receipt.unsigned ∧
    ∃ n r j k, ∃ o : Origin sampleRuntime, o.Accounts sampleAuthority s n r j k receipt := by
  obtain ⟨ops, w, receipt, hrun, hsigned⟩ := sample_receipt
  obtain ⟨acts, s, hrun', rfl, -⟩ := exists_threads sampleWorld_empty hrun
  exact ⟨acts, s, receipt, hrun', hsigned,
    (receipts_account sample_injective (State.ofWorld_empty sampleWorld_empty) hrun').1 receipt
      hsigned⟩

end Threads

end Finality
