import Finality.Lib.Runs
import Finality.Core.Authority
import Finality.Core.Sink

/-!
# The system

An authority, any number of sinks over the same stores, and one effector, driven by calls in any
order: `exec` is one call, `Step` a call whose capability was not forged, and a run is any
sequence of them. The candidates, capabilities, proofs and times of a call are arbitrary.

Each call is summarised once, by what it does to the authority's stores (`exec_authority`) and by
what it does to the consumption store and the effector (`exec_effects`); the invariants of the
later modules are derived from these.
-/

namespace Finality

open Checks ProtectedState ProtectedAuthority FinalitySink Runs

/-- Everything the calls share. -/
structure World (R : Runtime) where
  authority : AuthorityStores R
  effects : EffectStores

/-- The calls. `failNext` and `failCommits` set the failure injection flags of the effector and
of the evidence store. -/
inductive Op (R : Runtime) where
  | authorize (candidate : CandidateAct) (cost now : Int)
  | configureSource (source : PyStr) (quota budget : Int)
  | snapshot (source : PyStr)
  | effectuate (sink : FinalitySink R) (candidate : CandidateAct) (cap : Capability) (now : Int)
      (proof : Option PresentationProof)
  | directEffect (candidate : CandidateAct)
  | failNext
  | failCommits (b : Bool)

section
variable {R : Runtime}

/-- The values signed by a call that returned the receipt. -/
def receiptSigned : Except PyErr SinkReceipt → List PyVal
  | .error _ => []
  | .ok receipt => [receipt.unsigned]

/-- One call. -/
def exec (a : ProtectedAuthority R) (w : World R) : Op R → World R
  | .authorize candidate cost now =>
      { w with authority := (a.authorize w.authority candidate cost now).2 }
  | .configureSource source quota budget =>
      { w with authority.state := w.authority.state.configureSource source quota budget }
  | .snapshot source => { w with authority.state := (w.authority.state.snapshot source).2 }
  | .effectuate sink candidate cap now proof =>
      let (result, stores) := sink.effectuate w.authority.evidence_store w.authority.state
        w.effects candidate cap now proof
      { w with
        authority.signed := w.authority.signed ++ receiptSigned result
        effects := stores }
  -- `direct_effect` raises before it reads or writes anything
  | .directEffect _ => w
  | .failNext => { w with effects.effector.fail_next := true }
  | .failCommits b => { w with authority.evidence_store.fail_commits := b }

/-- The authority's key has signed a value with the canonical bytes of `v`. -/
def SignedBefore (s : AuthorityStores R) (v : PyVal) : Prop :=
  ∃ u ∈ s.signed, ∃ b, canonicalBytes R u = .ok b ∧ canonicalBytes R v = .ok b

/-- The capability of an authorisation was signed before, when an authenticator takes it. -/
theorem ProtectedAuthority.Authorized.signedBefore {a : ProtectedAuthority R}
    {s s' : AuthorityStores R} {c : CandidateAct} {cost now : Int} {t : StateTransition}
    {ev : ValidationEvidence} {cap : Capability} (h : Authorized a s c cost now t ev cap s')
    {b : Authenticator R} (hv : b.verify cap.unsigned cap.signature cap.key_id = .ok true) :
    SignedBefore s' cap.unsigned := by
  obtain ⟨d, hd⟩ := canon_iff_canonicalBytes.1 (b.canon_of_verify hv)
  exact ⟨cap.unsigned, by simp [h.signed], d, hd, hd⟩

/-- **Unforgeability**: a capability whose signature the sink accepts was signed before. -/
def Unforged (w : World R) : Op R → Prop
  | .effectuate sink _ cap _ _ =>
      sink.authenticator.verify cap.unsigned cap.signature cap.key_id = .ok true →
        SignedBefore w.authority cap.unsigned
  | _ => True

/-- A call of a run. -/
def Step (a : ProtectedAuthority R) (w : World R) (op : Op R) (w' : World R) : Prop :=
  Unforged w op ∧ w' = exec a w op

/-- The calls of a run determine the state it reaches. -/
theorem run_functional {a : ProtectedAuthority R} {w w' w'' : World R} {ops : List (Op R)}
    (h : Run (Step a) w ops w') (h' : Run (Step a) w ops w'') : w' = w'' :=
  h.functional (fun _ _ _ _ h h' => h.2.trans h'.2.symm) h'

/-- The stores are empty: no nonce is reserved, no evidence committed, nothing signed, claimed
or effected. -/
structure World.Empty (w : World R) : Prop where
  nonces : w.authority.state.nonces = ∅
  transitions : w.authority.state.transitions = ∅
  evidence : w.authority.evidence_store.records = ∅
  signed : w.authority.signed = []
  claims : w.effects.consumption_store.claims = ∅
  records : w.effects.effector.records = []

/-! ## What a call does to the authority's stores -/

/-- Nothing that a capability rests on has changed: only receipts were signed. -/
structure Quiet (s s' : AuthorityStores R) : Prop where
  nonces : s'.state.nonces = s.state.nonces
  transitions : s'.state.transitions = s.state.transitions
  evidence : s'.evidence_store.records = s.evidence_store.records
  signed : ∃ rs : List SinkReceipt, s'.signed = s.signed ++ rs.map SinkReceipt.unsigned

theorem Quiet.refl (s : AuthorityStores R) : Quiet s s :=
  ⟨rfl, rfl, rfl, [], by simp⟩

/-- A state with the same tables is as good. -/
theorem quiet_of_state {s : AuthorityStores R} {st : ProtectedState}
    (hn : st.nonces = s.state.nonces) (ht : st.transitions = s.state.transitions) :
    Quiet s { s with state := st } :=
  ⟨hn, ht, rfl, [], by simp⟩

/-- A call was an authorisation whose transition was granted. -/
structure Authorizing (a : ProtectedAuthority R) (s : AuthorityStores R) (c : CandidateAct)
    (cost now : Int) (s' : AuthorityStores R) (t : StateTransition) (st : ProtectedState)
    (r : Except PyErr Capability) : Prop where
  returned : a.authorize s c cost now = (r, s')
  allowed : a.policy.Allows c now
  granted : Granted R s.state c cost t st
  advanced : Advanced a s c now t st r s'

/-- An authorisation that went on has made its transition. -/
theorem ProtectedAuthority.Advanced.state_eq {a : ProtectedAuthority R}
    {s s' : AuthorityStores R} {c : CandidateAct}
    {now : Int} {t : StateTransition} {st : ProtectedState} {r : Except PyErr Capability}
    (h : Advanced a s c now t st r s') : s'.state = st := by
  cases h <;> rfl

/-- Evidence that was in the store stays in the store. -/
theorem ProtectedAuthority.Advanced.get_evidence {a : ProtectedAuthority R}
    {s s' : AuthorityStores R}
    {c : CandidateAct} {now : Int} {t : StateTransition} {st : ProtectedState}
    {r : Except PyErr Capability} (h : Advanced a s c now t st r s') {i : PyStr}
    {e : ValidationEvidence} (hi : s.evidence_store.get i = some e) :
    s'.evidence_store.get i = some e := by
  cases h with
  | evidenceRefused => exact hi
  | commitRefused => exact hi
  | capabilityRefused _ hc => exact EvidenceStore.get_of_commit hc hi
  | issued _ hc => exact EvidenceStore.get_of_commit hc hi

/-- What an authorisation adds to the signing history. -/
theorem ProtectedAuthority.Advanced.mem_signed {a : ProtectedAuthority R} {s s' : AuthorityStores R}
    {c : CandidateAct} {now : Int} {t : StateTransition} {st : ProtectedState}
    {r : Except PyErr Capability} (h : Advanced a s c now t st r s') {u : PyVal}
    (hu : u ∈ s'.signed) :
    u ∈ s.signed ∨ (∃ e : ValidationEvidence, u = e.unsigned) ∨
      ∃ cap, r = .ok cap ∧ u = cap.unsigned := by
  cases h with
  | evidenceRefused => exact .inl hu
  | commitRefused =>
    rcases List.mem_append.1 hu with hu | hu
    · exact .inl hu
    · exact .inr (.inl ⟨_, List.mem_singleton.1 hu⟩)
  | capabilityRefused =>
    rcases List.mem_append.1 hu with hu | hu
    · exact .inl hu
    · exact .inr (.inl ⟨_, List.mem_singleton.1 hu⟩)
  | issued =>
    simp only [List.mem_append, List.mem_singleton] at hu
    rcases hu with (hu | hu) | hu
    · exact .inl hu
    · exact .inr (.inl ⟨_, hu⟩)
    · exact .inr (.inr ⟨_, rfl, hu⟩)

/-- An authorisation forgets nothing that was signed. -/
theorem ProtectedAuthority.Advanced.signed_subset {a : ProtectedAuthority R}
    {s s' : AuthorityStores R} {c : CandidateAct} {now : Int} {t : StateTransition}
    {st : ProtectedState} {r : Except PyErr Capability} (h : Advanced a s c now t st r s') :
    s.signed ⊆ s'.signed := by
  cases h with
  | evidenceRefused => exact List.Subset.refl _
  | commitRefused | capabilityRefused => exact List.subset_append_left ..
  | issued =>
    rw [List.append_assoc]
    exact List.subset_append_left ..

/-- **What a call does to the authority's stores.** -/
theorem exec_authority (a : ProtectedAuthority R) (w : World R) (op : Op R) :
    Quiet w.authority (exec a w op).authority ∨
    ∃ c cost now t st r, op = .authorize c cost now ∧
      Authorizing a w.authority c cost now (exec a w op).authority t st r := by
  cases op with
  | authorize c cost now =>
    obtain ⟨r, s', h⟩ : ∃ r s', a.authorize w.authority c cost now = (r, s') := ⟨_, _, rfl⟩
    simp only [exec, h]
    rcases authorize_cases h with ⟨e, st, -, rfl, rfl | rfl⟩ | ⟨t, st, hallow, hg, hadv⟩
    · exact .inl (quiet_of_state rfl rfl)
    · exact .inl (quiet_of_state (by simp) (by simp))
    · exact .inr ⟨c, cost, now, t, st, r, rfl, h, hallow, hg, hadv⟩
  | configureSource source quota budget => exact .inl (quiet_of_state rfl rfl)
  | snapshot source => exact .inl (quiet_of_state (getSource_nonces ..) (getSource_transitions ..))
  | effectuate sink c cap now proof =>
    refine .inl ⟨rfl, rfl, rfl, ?_⟩
    simp only [exec]
    cases (sink.effectuate w.authority.evidence_store w.authority.state w.effects c cap now
      proof).1 with
    | error e => exact ⟨[], by simp [receiptSigned]⟩
    | ok receipt => exact ⟨[receipt], by simp [receiptSigned]⟩
  | directEffect c => exact .inl (.refl _)
  | failNext => exact .inl (.refl _)
  | failCommits b => exact .inl ⟨rfl, rfl, rfl, [], by simp [exec]⟩

/-- Committed evidence stays in the store. -/
theorem get_evidence_exec {a : ProtectedAuthority R} {w : World R} {op : Op R} {i : PyStr}
    {e : ValidationEvidence} (hi : w.authority.evidence_store.get i = some e) :
    (exec a w op).authority.evidence_store.get i = some e := by
  rcases exec_authority a w op with hq | ⟨c, cost, now, t, st, r, -, h⟩
  · rw [EvidenceStore.get, hq.evidence]
    exact hi
  · exact h.advanced.get_evidence hi

/-- What was signed before is signed before every later call. -/
theorem SignedBefore.of_run {a : ProtectedAuthority R} {w w' : World R} {ops : List (Op R)}
    {v : PyVal} (h : SignedBefore w.authority v) (hrun : Run (Step a) w ops w') :
    SignedBefore w'.authority v := by
  refine hrun.invariant (fun w => SignedBefore w.authority v) h ?_
  rintro w op w' ⟨u, hu, hb⟩ ⟨-, rfl⟩
  refine ⟨u, ?_, hb⟩
  rcases exec_authority a w op with hq | ⟨c, cost, now, t, st, r, -, hauth⟩
  · obtain ⟨rs, hrs⟩ := hq.signed
    rw [hrs]
    exact List.mem_append_left _ hu
  · exact hauth.advanced.signed_subset hu

/-- So a capability that may be presented may be presented again. -/
theorem Unforged.of_run {a : ProtectedAuthority R} {w w' : World R} {ops : List (Op R)}
    {sink : FinalitySink R} {c c' : CandidateAct} {cap : Capability} {now now' : Int}
    {proof proof' : Option PresentationProof} (h : Unforged w (.effectuate sink c cap now proof))
    (hrun : Run (Step a) w ops w') : Unforged w' (.effectuate sink c' cap now' proof') :=
  fun hv => (h hv).of_run hrun

/-- An authorisation has no effect, and neither has a replay. -/
theorem effects_authorize (a : ProtectedAuthority R) (w : World R) (c : CandidateAct)
    (cost now : Int) : (exec a w (.authorize c cost now)).effects = w.effects := rfl

/-- A capability that was claimed has no effect again. -/
theorem effects_replay {a : ProtectedAuthority R} {w : World R} {sink : FinalitySink R}
    {c : CandidateAct} {cap : Capability} {now : Int} {proof : Option PresentationProof}
    (h : cap.capability_id ∈ w.effects.consumption_store.claims) :
    (exec a w (.effectuate sink c cap now proof)).effects = w.effects :=
  effectuate_claimed h

/-- Nonces are never released. -/
theorem mem_nonces_exec {a : ProtectedAuthority R} {w : World R} {op : Op R} {n : PyStr}
    (hn : n ∈ w.authority.state.nonces) : n ∈ (exec a w op).authority.state.nonces := by
  rcases exec_authority a w op with hq | ⟨c, cost, now, t, st, r, -, h⟩
  · rw [hq.nonces]
    exact hn
  · rw [h.advanced.state_eq, h.granted.nonces_eq, AList.mem_insert]
    exact .inr hn

/-- Committed evidence stays in the store for the rest of any run. -/
theorem get_evidence_run {a : ProtectedAuthority R} {w w' : World R} {ops : List (Op R)} {i : PyStr}
    {e : ValidationEvidence} (hrun : Run (Step a) w ops w')
    (hi : w.authority.evidence_store.get i = some e) :
    w'.authority.evidence_store.get i = some e :=
  hrun.invariant (fun w => w.authority.evidence_store.get i = some e) hi
    fun _ _ _ h hs => hs.2 ▸ get_evidence_exec h

/-! ## What a call does to the consumption store and the effector -/

/-- The ways an `effectuate` ends. -/
inductive Effectuated (sink : FinalitySink R) (s : AuthorityStores R) (stores : EffectStores)
    (c : CandidateAct) (cap : Capability) (now : Int) (proof : Option PresentationProof) :
    Except PyErr SinkReceipt → EffectStores → Prop where
  | unverified {e} (hv : sink.verify s.evidence_store s.state c cap now proof = .error e) :
      Effectuated sink s stores c cap now proof (.error e) stores
  | replayed {d e} (hv : Verified sink s.evidence_store s.state c cap now proof d)
      (hc : stores.consumption_store.claim cap.capability_id sink.context.sink_id
        sink.context.boundary_id cap.nonce now = .error e) :
      Effectuated sink s stores c cap now proof (.error e) stores
  | failed {d e claims effector} (hv : Verified sink s.evidence_store s.state c cap now proof d)
      (hc : stores.consumption_store.claim cap.capability_id sink.context.sink_id
        sink.context.boundary_id cap.nonce now = .ok claims)
      (he : stores.effector.commit R c sink.effect_handle = (.error e, effector)) :
      Effectuated sink s stores c cap now proof (.error (.effectDenied e.message))
        ⟨claims, effector⟩
  | committed {d claims effector record}
      (hv : Verified sink s.evidence_store s.state c cap now proof d)
      (hc : stores.consumption_store.claim cap.capability_id sink.context.sink_id
        sink.context.boundary_id cap.nonce now = .ok claims)
      (he : stores.effector.commit R c sink.effect_handle = (.ok record, effector)) :
      Effectuated sink s stores c cap now proof
        (sink.issueReceipt c cap d now (some record.effect_reference)) ⟨claims, effector⟩

/-- **What `effectuate` did**: which of its steps it came to, and what they left behind. -/
theorem effectuated {sink : FinalitySink R} {s : AuthorityStores R} {stores stores' : EffectStores}
    {c : CandidateAct} {cap : Capability} {now : Int} {proof : Option PresentationProof}
    {r : Except PyErr SinkReceipt}
    (h : sink.effectuate s.evidence_store s.state stores c cap now proof = (r, stores')) :
    Effectuated sink s stores c cap now proof r stores' := by
  unfold effectuate at h
  split at h
  · rename_i hv
    obtain ⟨rfl, rfl⟩ := Prod.mk.inj h
    exact .unverified hv
  rename_i hv
  have hv := verify_ok.1 hv
  split at h
  · rename_i hc
    obtain ⟨rfl, rfl⟩ := Prod.mk.inj h
    exact .replayed hv hc
  rename_i hc
  split at h
  · rename_i he
    obtain ⟨rfl, rfl⟩ := Prod.mk.inj h
    exact .failed hv hc he
  · rename_i he
    obtain ⟨rfl, rfl⟩ := Prod.mk.inj h
    exact .committed hv hc he

/-- **What a call does to the consumption store and the effector.** -/
theorem exec_effects (a : ProtectedAuthority R) (w : World R) (op : Op R) :
    ((exec a w op).effects.consumption_store = w.effects.consumption_store ∧
      (exec a w op).effects.effector.records = w.effects.effector.records) ∨
    ∃ sink c cap now proof r, op = .effectuate sink c cap now proof ∧
      Effectuated sink w.authority w.effects c cap now proof r (exec a w op).effects := by
  cases op with
  | effectuate sink c cap now proof =>
    obtain ⟨r, stores, h⟩ : ∃ r stores, sink.effectuate w.authority.evidence_store
        w.authority.state w.effects c cap now proof = (r, stores) := ⟨_, _, rfl⟩
    refine .inr ⟨sink, c, cap, now, proof, r, rfl, ?_⟩
    simp only [exec, h]
    exact effectuated h
  | _ => exact .inl ⟨rfl, rfl⟩

/-- **Where a record comes from**: a call that verified its capability, claimed it and committed
the candidate. -/
theorem record_of_exec {a : ProtectedAuthority R} {w : World R} {op : Op R} {rec : EffectRecord}
    (hn : rec ∉ w.effects.effector.records) (h : rec ∈ (exec a w op).effects.effector.records) :
    ∃ sink c cap now proof d claims effector, op = .effectuate sink c cap now proof ∧
      Verified sink w.authority.evidence_store w.authority.state c cap now proof d ∧
      w.effects.consumption_store.claim cap.capability_id sink.context.sink_id
        sink.context.boundary_id cap.nonce now = .ok claims ∧
      w.effects.effector.commit R c sink.effect_handle = (.ok rec, effector) := by
  rcases exec_effects a w op with ⟨-, hr⟩ | ⟨sink, c, cap, now, proof, r, rfl, he⟩
  · exact absurd (hr ▸ h) hn
  generalize exec a w (.effectuate sink c cap now proof) = w' at h he
  obtain ⟨auth, stores⟩ := w'
  cases he with
  | unverified => exact absurd h hn
  | replayed => exact absurd h hn
  | failed _ _ he => exact absurd ((GuardedEffector.commit_error he).1 ▸ h) hn
  | committed hv hc he =>
    have hc' := (GuardedEffector.commit_ok.1 he).2.2.2
    simp only [hc', List.mem_append, List.mem_singleton] at h
    rcases h with h | rfl
    · exact absurd h hn
    · exact ⟨sink, c, cap, now, proof, _, _, _, rfl, hv, hc, he⟩

end

end Finality
