import Finality.Threads.Provenance

/-!
# Calls one after another

The sequential system of `System` is a part of the threads': a call that takes its steps in a row
does what the whole call does (`run_authorize`, `run_effectuate`), so every sequential run from
empty stores is a run of the threads, with the same stores and the same signing history
(`exists_threads`). The one thing to show on the way is that the evidence store of a sequential run
holds nothing but evidence the authority signed, which `Unforged` asks of what a sink looks up.
-/

namespace Finality

open Checks ProtectedState ProtectedAuthority FinalitySink Runs

namespace Threads

variable {R : Runtime} {a : ProtectedAuthority R}

/-- What the calls share, as the sequential system has it. -/
def State.world (s : State R) : World R := ⟨s.authority, s.effects⟩

/-- The stores of a sequential system, before any call. -/
def State.ofWorld (w : World R) : State R := ⟨w.authority, w.effects, [], [], []⟩

theorem State.ofWorld_empty {w : World R} (h : w.Empty) : (State.ofWorld w).Empty :=
  ⟨h, rfl, rfl, rfl⟩

/-! ## The steps of one call -/

/-- The steps of an authorisation in a row are steps of the system. -/
theorem exists_run_advance (n : Nat) {s : State R} {i : Nat} {k k' : Call}
    {authority : AuthorityStores R} (hi : s.authorizations[i]? = some k)
    (h : k.runAlone a n s.authority = (k', authority)) :
    ∃ m s', Run (Step a) s (.replicate m (.advance i)) s' ∧ s'.authority = authority ∧
      s'.effects = s.effects ∧ s'.authorizations = s.authorizations.set i k' := by
  have hself : s.authorizations = s.authorizations.set i k := by
    obtain ⟨hlt, hget⟩ := List.getElem?_eq_some_iff.1 hi
    rw [← hget, List.set_getElem_self]
  induction n generalizing s k with
  | zero =>
    obtain ⟨rfl, rfl⟩ := Prod.mk.inj h
    exact ⟨0, s, .nil, rfl, rfl, hself⟩
  | succ n ih =>
    rw [Call.runAlone] at h
    split at h
    · obtain ⟨rfl, rfl⟩ := Prod.mk.inj h
      exact ⟨0, s, .nil, rfl, rfl, hself⟩
    · rename_i p authority₁ hnext
      have hi' : (s.advance i k p authority₁).authorizations[i]? = some { k with phase := p } :=
        (getElem?_advance hi).trans (if_pos rfl)
      obtain ⟨m, s', hrun, hauth, heff, hk'⟩ := ih hi' h (by simp [State.advance])
      refine ⟨m + 1, s', .cons (.advance hi hnext) hrun, hauth, heff, hk'.trans ?_⟩
      simp [State.advance]

/-- **A call of `authorize` with no other in between.** -/
theorem run_authorize (a : ProtectedAuthority R) (s : State R) (c : CandidateAct) (cost now : Int) :
    ∃ m s', Run (Step a) s (.authorize c cost now ::
        .replicate m (.advance s.authorizations.length)) s' ∧
      s'.world = exec a s.world (.authorize c cost now) ∧
      ∃ p : Phase, s'.authorizations = s.authorizations ++ [⟨c, cost, now, p⟩] ∧
        p.result = some (a.authorize s.authority c cost now).1 := by
  obtain ⟨p, halone, hp⟩ := runAlone_eq_authorize a s.authority c cost now
  let s₁ : State R :=
    { s with authorizations := s.authorizations ++ [⟨c, cost, now, .started⟩] }
  have hstart : Step a s (.authorize c cost now) s₁ := .authorize
  have hi : s₁.authorizations[s.authorizations.length]? = some ⟨c, cost, now, .started⟩ :=
    List.getElem?_concat_length
  obtain ⟨m, s', hrun, hauth, heff, hk⟩ := exists_run_advance 6 hi halone
  refine ⟨_, s', .cons hstart hrun, ?_, p, ?_, hp⟩
  · rw [State.world, hauth, heff]
    rfl
  · rw [hk]
    simp [s₁]

/-- A call that has ended takes no step. -/
theorem runAlone_ended {k : Interleaving.Call R} {ev : EvidenceStore R} {st : ProtectedState}
    {stores : EffectStores} {r : Except PyErr SinkReceipt} (h : k.phase.result = some r) (n : Nat) :
    k.runAlone ev st n stores = (k, stores) := by
  have hnext : k.next ev st stores = none := by
    cases hnext : k.next ev st stores with
    | none => rfl
    | some q =>
      obtain ⟨p, stores'⟩ := q
      have hnone := (Interleaving.moves hnext).not_ended
      rw [hnone] at h
      cases h
  cases n with
  | zero => rfl
  | succ n => rw [Interleaving.Call.runAlone, hnext]

/-- Only the last step of a call signs. -/
theorem receiptsSigned_of_result {p : Interleaving.Phase} (h : p.result = none) :
    receiptsSigned p = [] := by
  cases p with
  | returned => cases h
  | _ => rfl

/-- The steps of an effectuation in a row, after its lookup, are steps of the system. -/
theorem exists_run_proceed (n : Nat) {s : State R} {j : Nat} {k k' : Interleaving.Call R}
    {ev : EvidenceStore R} {stores : EffectStores} (hj : s.effectuations[j]? = some ⟨k, some ev⟩)
    (hk : k.phase.result = none) (hunf : k.phase = .started → Unforged s.authority k ev)
    (h : k.runAlone ev s.authority.state n s.effects = (k', stores)) :
    ∃ m s', Run (Step a) s (.replicate m (.proceed j)) s' ∧ s'.effects = stores ∧
      s'.authority = { s.authority with
        signed := s.authority.signed ++ receiptsSigned k'.phase } := by
  induction n generalizing s k with
  | zero =>
    obtain ⟨rfl, rfl⟩ := Prod.mk.inj h
    exact ⟨0, s, .nil, rfl, by rw [receiptsSigned_of_result hk, List.append_nil]⟩
  | succ n ih =>
    rw [Interleaving.Call.runAlone] at h
    split at h
    · obtain ⟨rfl, rfl⟩ := Prod.mk.inj h
      exact ⟨0, s, .nil, rfl, by rw [receiptsSigned_of_result hk, List.append_nil]⟩
    · rename_i p stores₁ hnext
      have hstep : Step a s (.proceed j) (s.proceed j ⟨k, some ev⟩ p stores₁) :=
        .proceed hj rfl hunf hnext
      cases hp : p.result with
      | some r =>
        rw [runAlone_ended (k := { k with phase := p }) hp] at h
        obtain ⟨rfl, rfl⟩ := Prod.mk.inj h
        exact ⟨1, _, .single hstep, rfl, rfl⟩
      | none =>
        have hne : p ≠ .started := by
          rintro rfl
          cases Interleaving.moves hnext
        have hj' : (s.proceed j ⟨k, some ev⟩ p stores₁).effectuations[j]? =
            some ⟨{ k with phase := p }, some ev⟩ := by
          simp [State.proceed, List.getElem?_set_self (List.getElem?_eq_some_iff.1 hj).1]
        obtain ⟨m, s', hrun, heff, hauth⟩ := ih hj' hp (fun h => absurd h hne) h
        refine ⟨m + 1, s', .cons hstep hrun, heff, ?_⟩
        rw [hauth]
        simp [State.proceed, receiptsSigned_of_result hp]

/-- **A call of `effectuate` with no other in between.** -/
theorem run_effectuate (a : ProtectedAuthority R) (s : State R) (sink : FinalitySink R)
    (c : CandidateAct) (cap : Capability) (now : Int) (proof : Option PresentationProof)
    (hunf : Unforged s.authority ⟨sink, c, cap, now, proof, .started⟩ s.authority.evidence_store) :
    ∃ m s', Run (Step a) s (.effectuate sink c cap now proof :: .look s.effectuations.length ::
        .replicate m (.proceed s.effectuations.length)) s' ∧
      s'.world = exec a s.world (.effectuate sink c cap now proof) := by
  obtain ⟨p, halone, hp⟩ := Interleaving.runAlone_eq_effectuate sink s.authority.evidence_store
    s.authority.state s.effects c cap now proof
  let s₁ : State R := { s with effectuations := s.effectuations ++
    [⟨⟨sink, c, cap, now, proof, .started⟩, none⟩] }
  have hstart : Step a s (.effectuate sink c cap now proof) s₁ := .effectuate
  have hj : s₁.effectuations[s.effectuations.length]? =
      some ⟨⟨sink, c, cap, now, proof, .started⟩, none⟩ := List.getElem?_concat_length
  have hlook : Step a s₁ (.look s.effectuations.length) (s₁.look s.effectuations.length _) :=
    .look hj rfl
  have hj' : (s₁.look s.effectuations.length
      ⟨⟨sink, c, cap, now, proof, .started⟩, none⟩).effectuations[s.effectuations.length]? =
      some ⟨⟨sink, c, cap, now, proof, .started⟩, some s.authority.evidence_store⟩ := by
    simp [State.look, s₁]
  obtain ⟨m, s', hrun, heff, hauth⟩ := exists_run_proceed 4 hj' rfl (fun _ => hunf) halone
  refine ⟨_, s', .cons hstart (.cons hlook hrun), ?_⟩
  have hreceipt : receiptsSigned p =
      receiptSigned (sink.effectuate s.authority.evidence_store s.authority.state s.effects c cap
        now proof).1 := by
    cases p with
    | returned receipt =>
      rw [← Option.some.inj hp]
      rfl
    | started | verified | claimed | committed => cases hp
    | unverified | replayed | denied | unreceipted =>
      rw [← Option.some.inj hp]
      rfl
  rw [State.world, hauth, heff, hreceipt]
  rfl

/-! ## Every sequential run -/

/-- The evidence in the store was signed by the authority. -/
def EvidenceSigned (w : World R) : Prop :=
  ∀ i e, w.authority.evidence_store.get i = some e → e.unsigned ∈ w.authority.signed

/-- **The evidence store of a sequential run** holds what the authority signed. -/
theorem evidenceSigned_exec {w : World R} (h : EvidenceSigned w) (op : Op R) :
    EvidenceSigned (exec a w op) := by
  intro i e hi
  rcases exec_authority a w op with hq | ⟨c, cost, now, t, st, r, -, hauth⟩
  · obtain ⟨rs, hrs⟩ := hq.signed
    rw [EvidenceStore.get, hq.evidence] at hi
    rw [hrs]
    exact List.mem_append_left _ (h i e hi)
  · have hcommit : ∀ {ev : ValidationEvidence} {store : EvidenceStore R},
        w.authority.evidence_store.commit ev = .ok store → store.get i = some e →
          e.unsigned ∈ w.authority.signed ++ [ev.unsigned] := by
      intro ev store hc hget
      obtain ⟨-, -, -, rfl⟩ := EvidenceStore.commit_ok.1 hc
      rcases eq_or_ne i ev.evidence_id with rfl | hne
      · obtain rfl := Option.some.inj ((AList.lookup_insert _).symm.trans hget)
        simp
      · exact List.mem_append_left _ (h i e ((AList.lookup_insert_ne hne).symm.trans hget))
    have hadv := hauth.advanced
    generalize (exec a w op).authority = s' at hadv hi ⊢
    cases hadv with
    | evidenceRefused => exact h i e hi
    | commitRefused => exact List.mem_append_left _ (h i e hi)
    | capabilityRefused _ hc => exact hcommit hc hi
    | issued _ hc => exact List.mem_append_left _ (hcommit hc hi)

/-- What a sequential call may present, a thread may. -/
theorem unforged_of_signed {w : World R} (hev : EvidenceSigned w) {sink : FinalitySink R}
    {c : CandidateAct} {cap : Capability} {now : Int} {proof : Option PresentationProof}
    (h : Finality.Unforged w (.effectuate sink c cap now proof)) :
    Unforged w.authority ⟨sink, c, cap, now, proof, .started⟩ w.authority.evidence_store := by
  refine ⟨h, fun e he hv => ?_⟩
  obtain ⟨b, hb⟩ := canon_iff_canonicalBytes.1 (sink.authenticator.canon_of_verify hv)
  exact ⟨e.unsigned, hev _ e he, b, hb, hb⟩

/-- **One call of the sequential system** is a run of the threads. -/
theorem exists_run_exec {s : State R} (hev : EvidenceSigned s.world) {op : Op R}
    (hunf : Finality.Unforged s.world op) :
    ∃ acts s', Run (Step a) s acts s' ∧ s'.world = exec a s.world op ∧
      ∀ source quota budget, .configureSource source quota budget ∈ acts →
        op = .configureSource source quota budget := by
  cases op with
  | authorize c cost now =>
    obtain ⟨m, s', hrun, hw, -⟩ := run_authorize a s c cost now
    exact ⟨_, s', hrun, hw, by simp⟩
  | configureSource source quota budget =>
    refine ⟨_, _, .single .configureSource, rfl, fun source' quota' budget' hmem => ?_⟩
    obtain ⟨rfl, rfl, rfl⟩ := Act.configureSource.inj (List.mem_singleton.1 hmem)
    rfl
  | snapshot source => exact ⟨_, _, .single .snapshot, rfl, by simp⟩
  | effectuate sink c cap now proof =>
    obtain ⟨m, s', hrun, hw⟩ :=
      run_effectuate a s sink c cap now proof (unforged_of_signed hev hunf)
    exact ⟨_, s', hrun, hw, by simp⟩
  | directEffect c => exact ⟨[], s, .nil, rfl, by simp⟩
  | failNext => exact ⟨_, _, .single .failNext, rfl, by simp⟩
  | failCommits b => exact ⟨_, _, .single .failCommits, rfl, by simp⟩

/-- **Every sequential run from empty stores is a run of the threads.** -/
theorem exists_threads {w₀ w : World R} {ops : List (Op R)} (h0 : w₀.Empty)
    (hrun : Run (Finality.Step a) w₀ ops w) :
    ∃ acts s, Run (Step a) (State.ofWorld w₀) acts s ∧ s.world = w ∧
      ∀ source quota budget, .configureSource source quota budget ∈ acts →
        .configureSource source quota budget ∈ ops := by
  have hempty : EvidenceSigned w₀ := by
    intro i e hi
    rw [EvidenceStore.get, h0.evidence] at hi
    cases hi
  obtain ⟨-, h⟩ := hrun.invariantTrace (fun ops w => EvidenceSigned w ∧
    ∃ acts s, Run (Step a) (State.ofWorld w₀) acts s ∧ s.world = w ∧
      ∀ source quota budget, .configureSource source quota budget ∈ acts →
        .configureSource source quota budget ∈ ops)
    ⟨hempty, [], _, .nil, rfl, by simp⟩ (by
      rintro ops w op w' - ⟨hev, acts, s, hrun, rfl, hconf⟩ ⟨hunf, rfl⟩
      obtain ⟨acts', s', hrun', hw, hconf'⟩ := exists_run_exec (a := a) hev hunf
      refine ⟨evidenceSigned_exec hev op, acts ++ acts', s', hrun.append hrun', hw, ?_⟩
      intro source quota budget hmem
      rcases List.mem_append.1 hmem with hmem | hmem
      · exact List.mem_append_left _ (hconf _ _ _ hmem)
      · exact List.mem_append_right _ (List.mem_singleton.2 (hconf' _ _ _ hmem).symm))
  exact h

end Threads

end Finality
