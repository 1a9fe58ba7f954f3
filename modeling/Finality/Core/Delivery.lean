import Finality.Core.Concurrency

/-!
# What becomes of a claim

A claim is taken before the effect and is never given back, so an effect that cannot be made costs
its act. This says how many are lost that way: in every interleaving the claims are the effects, the
calls between claim and effect, and the calls that were denied theirs (`balance`); a call that holds
the effector's handle is denied only by an injected failure, and each failure denies one call
(`lost_le_failures`). Without failures a verified act is effected exactly once when its calls have
ended, whoever wins (`delivery`), and they end after four steps of their own whatever the others
do (`steps_le`).
-/

namespace Finality

open Checks FinalitySink Runs

namespace Interleaving

namespace Phase

/-- Between claim and effect. -/
def inFlight : Phase → Bool
  | claimed _ => true
  | started | verified _ | committed .. | returned _ | unverified _ | replayed _ | denied _ |
    unreceipted .. => false

/-- Denied its effect after the claim. -/
def lost : Phase → Bool
  | denied _ => true
  | started | verified _ | claimed _ | committed .. | returned _ | unverified _ | replayed _ |
    unreceipted .. => false

/-- The steps a call has left at most. -/
def rank : Phase → Nat
  | started => 4
  | verified _ => 3
  | claimed _ => 2
  | committed .. => 1
  | returned _ | unverified _ | replayed _ | denied _ | unreceipted .. => 0

theorem result_of_rank {p : Phase} (h : p.rank = 0) : p.result.isSome := by
  cases p <;> first | rfl | cases h

end Phase

/-- The call is between claim and effect. -/
def Call.inFlight {R : Runtime} (k : Call R) : Bool := k.phase.inFlight

/-- The call was denied its effect. -/
def Call.lost {R : Runtime} (k : Call R) : Bool := k.phase.lost

/-- The step is one of call `i`. -/
def Act.isOf {R : Runtime} (i : Nat) : Act R → Bool
  | .advance j .. => j = i
  | .start .. | .failNext => false

/-- The step injects a failure. -/
def Act.isFailure {R : Runtime} : Act R → Bool
  | .failNext => true
  | .start .. | .advance .. => false

section
variable {R : Runtime} {s₀ s s' : State R} {acts : List (Act R)}

/-- Overwriting an item changes the number of items of a kind by the two. -/
theorem countP_set_add {α : Type _} {xs : List α} {i : Nat} {x : α} (q : α → Bool)
    (hi : xs[i]? = some x) (y : α) :
    (xs.set i y).countP q + (if q x then 1 else 0) = xs.countP q + (if q y then 1 else 0) := by
  obtain ⟨hlt, hget⟩ := List.getElem?_eq_some_iff.1 hi
  have hpos : (if q x then 1 else 0) ≤ xs.countP q := by
    split
    · exact List.countP_pos_iff.2 ⟨x, List.mem_of_getElem? hi, ‹_›⟩
    · exact Nat.zero_le _
  rw [List.countP_set hlt, hget]
  omega

/-! ## The claims and what became of them -/

/-- The claims that were taken are the effects, the claims in flight and the losses. -/
def Balanced (s : State R) : Prop :=
  s.stores.consumption_store.claims.keys.length = s.stores.effector.records.length +
    s.calls.countP Call.inFlight + s.calls.countP Call.lost

/-- A step of a call keeps the balance. -/
theorem balanced_move (hs : Balanced s) {i : Nat} {k : Call R} {ev : EvidenceStore R}
    {st : ProtectedState} {p : Phase} {stores : EffectStores} (hi : s.calls[i]? = some k)
    (h : Moves k ev st s.stores p stores) : Balanced (s.move i k p stores) := by
  have hflight := countP_set_add Call.inFlight hi { k with phase := p }
  have hlost := countP_set_add Call.lost hi { k with phase := p }
  unfold Balanced at hs
  show stores.consumption_store.claims.keys.length = stores.effector.records.length +
    (s.calls.set i { k with phase := p }).countP Call.inFlight +
      (s.calls.set i { k with phase := p }).countP Call.lost
  cases h with
  | unverified hp | verified hp | replayed hp | unreceipted hp | returned hp =>
    simp only [Call.inFlight, Call.lost, hp, Phase.inFlight, Phase.lost, Bool.false_eq_true,
      if_false] at hflight hlost
    omega
  | claimed hp hfree hc =>
    simp only [Call.inFlight, Call.lost, hp, Phase.inFlight, Phase.lost, Bool.false_eq_true,
      if_false, if_true] at hflight hlost
    have hkeys : (s.stores.consumption_store.claims.insert k.cap.capability_id
        (k.sink.context.sink_id, k.sink.context.boundary_id, k.cap.nonce, k.now)).keys.length =
          s.stores.consumption_store.claims.keys.length + 1 := by
      rw [AList.keys, AList.entries_insert_of_notMem hfree]
      rfl
    rw [hc]
    dsimp only
    omega
  | denied hp he =>
    simp only [Call.inFlight, Call.lost, hp, Phase.inFlight, Phase.lost, Bool.false_eq_true,
      if_false, if_true] at hflight hlost
    dsimp only
    rw [he.1]
    omega
  | committed hp hrec he =>
    simp only [Call.inFlight, Call.lost, hp, Phase.inFlight, Phase.lost, Bool.false_eq_true,
      if_false, if_true] at hflight hlost
    dsimp only
    rw [he, List.length_append, List.length_singleton]
    omega

/-- **The balance of the claims** holds in every state reached. -/
theorem balance (h0 : s₀.Empty) (hrun : Run Step s₀ acts s) : Balanced s := by
  refine hrun.invariant Balanced (by simp [Balanced, h0.claims, h0.records, h0.calls]) ?_
  intro s act s' hs hstep
  cases hstep with
  | advance hi h => exact balanced_move hs hi (moves h)
  | failNext => exact hs
  | start => simpa [Balanced, Call.inFlight, Call.lost, Phase.inFlight, Phase.lost] using hs

/-! ## Failures -/

/-- The call was denied though its sink holds the effector's handle. -/
def Call.lostWith (marker : Nat) (k : Call R) : Bool :=
  k.lost && decide (k.sink.effect_handle = marker)

/-- A commit with the handle, of a candidate with canonical bytes, fails by an injected failure,
which it uses up, as long as the ordinal of the record can be written. -/
theorem commit_error_of_handle {eff eff' : GuardedEffector} {c : CandidateAct} {e : PyErr}
    (hc : Canon R c.asdict) (hchannel : hasSurrogate eff.channel = false)
    (hordinal : printsInt eff.records.length = true)
    (h : eff.commit R c eff.marker = (.error e, eff')) :
    eff.fail_next = true ∧ eff' = { eff with fail_next := false } := by
  obtain ⟨record, hrec⟩ := GuardedEffector.exists_nextRecord hc hchannel hordinal
  unfold GuardedEffector.commit at h
  simp only [ne_eq, not_true_eq_false, if_false, hrec] at h
  split at h
  · obtain ⟨-, rfl⟩ := Prod.mk.inj h
    exact ⟨‹_›, rfl⟩
  · cases h

/-- What the failures injected so far have cost, at most. -/
structure Spent (s₀ : State R) (acts : List (Act R)) (s : State R) : Prop where
  channel : s.stores.effector.channel = s₀.stores.effector.channel
  marker : s.stores.effector.marker = s₀.stores.effector.marker
  cost : s.calls.countP (Call.lostWith s₀.stores.effector.marker) +
    (if s.stores.effector.fail_next then 1 else 0) ≤ acts.countP Act.isFailure

/-- Only the step from claim to effect touches the effector. -/
theorem Moves.effector_cases {k : Call R} {ev : EvidenceStore R} {st : ProtectedState}
    {stores stores' : EffectStores} {p : Phase} (h : Moves k ev st stores p stores') :
    (∃ d, k.phase = .claimed d) ∨
      stores'.effector = stores.effector ∧ k.phase.lost = false ∧ p.lost = false := by
  cases h with
  | denied hp | committed hp => exact .inl ⟨_, hp⟩
  | unverified hp | verified hp | replayed hp | unreceipted hp | returned hp =>
    exact .inr ⟨rfl, by rw [hp]; rfl, rfl⟩
  | claimed hp => exact .inr ⟨rfl, by rw [hp]; rfl, rfl⟩

/-- A step of a call leaves the effector's handle, and a failure that is pending stays so until it
denies a call. -/
theorem spent_advance {i : Nat} {k : Call R} {ev : EvidenceStore R} {st : ProtectedState}
    {p : Phase} {stores : EffectStores} (hok : CallOk k) (hi : s.calls[i]? = some k)
    (h : k.next ev st s.stores = some (p, stores))
    (hchannel : hasSurrogate s.stores.effector.channel = false)
    (hordinal : printsInt s.stores.effector.records.length = true) :
    stores.effector.channel = s.stores.effector.channel ∧
      stores.effector.marker = s.stores.effector.marker ∧
      (s.calls.set i { k with phase := p }).countP (Call.lostWith s.stores.effector.marker) +
          (if stores.effector.fail_next then 1 else 0) ≤
        s.calls.countP (Call.lostWith s.stores.effector.marker) +
          (if s.stores.effector.fail_next then 1 else 0) := by
  have hcount := countP_set_add (Call.lostWith s.stores.effector.marker) hi { k with phase := p }
  rcases (moves h).effector_cases with ⟨d, hp⟩ | ⟨heff, hk, hp⟩
  · simp only [Call.next, hp] at h
    simp only [CallOk, hp] at hok
    obtain ⟨ev', st', hv⟩ := hok
    simp only [Call.lostWith, Call.lost, hp, Phase.lost, Bool.false_and, Bool.false_eq_true,
      if_false] at hcount
    split at h
    · rename_i e effector hcommit
      obtain ⟨rfl, rfl⟩ := Prod.mk.inj (Option.some.inj h)
      obtain ⟨-, hch, hm⟩ := GuardedEffector.commit_error hcommit
      refine ⟨hch, hm, ?_⟩
      by_cases hhandle : k.sink.effect_handle = s.stores.effector.marker
      · rw [hhandle] at hcommit
        obtain ⟨hfail, rfl⟩ :=
          commit_error_of_handle (canon_of_sha256Hex hv.candidate_digest) hchannel hordinal hcommit
        simp only [hhandle, decide_true, Bool.and_self, if_true] at hcount
        simp only [hfail, Bool.false_eq_true, if_false, if_true]
        omega
      · -- without the handle the effector is not touched
        have heff : effector = s.stores.effector := by
          unfold GuardedEffector.commit at hcommit
          rw [if_pos hhandle] at hcommit
          exact (Prod.mk.inj hcommit).2.symm
        simp only [hhandle, decide_false, Bool.and_false, Bool.false_eq_true, if_false] at hcount
        rw [heff]
        dsimp only
        omega
    · rename_i record effector hcommit
      obtain ⟨rfl, rfl⟩ := Prod.mk.inj (Option.some.inj h)
      obtain ⟨-, -, -, rfl⟩ := GuardedEffector.commit_ok.1 hcommit
      refine ⟨rfl, rfl, ?_⟩
      simp only [Bool.false_and, Bool.false_eq_true, if_false] at hcount
      dsimp only
      omega
  · simp only [Call.lostWith, Call.lost, hk, hp, Bool.false_and, Bool.false_eq_true, if_false]
      at hcount
    rw [heff]
    exact ⟨rfl, rfl, by omega⟩

/-- **Each failure denies one call at most**, as long as the ordinals of the records can be
written. -/
theorem spent_of_run (h0 : s₀.Empty) (hfail : s₀.stores.effector.fail_next = false)
    (hchannel : hasSurrogate s₀.stores.effector.channel = false) (hrun : Run Step s₀ acts s)
    (hordinal : printsInt s.stores.effector.records.length = true) : Spent s₀ acts s := by
  refine hrun.invariantTrace (fun acts s =>
    printsInt s.stores.effector.records.length = true → Spent s₀ acts s)
    (fun _ => ⟨rfl, rfl, by simp [h0.calls, hfail]⟩) ?_ hordinal
  intro acts s act s' hrun ih hstep hordinal'
  -- the records only grow
  have hgrow := (prefix_step hstep).1.length_le
  have hordinal : printsInt s.stores.effector.records.length = true :=
    printsInt_of_le hordinal' (by simpa using hgrow)
  obtain ⟨hch, hm, hcost⟩ := ih hordinal
  cases hstep with
  | start =>
    refine ⟨hch, hm, ?_⟩
    simpa [List.countP_append, Call.lostWith, Call.lost, Phase.lost, Act.isFailure] using hcost
  | failNext =>
    refine ⟨hch, hm, ?_⟩
    simp only [List.countP_append, List.countP_singleton, Act.isFailure, if_true]
    split at hcost <;> omega
  | @advance i k p stores ev st hi h =>
    obtain ⟨hch', hm', hcost'⟩ := spent_advance
      ((inv_of_run h0 hrun).calls k (List.mem_of_getElem? hi)) hi h (by rw [hch]; exact hchannel)
      hordinal
    rw [hm] at hcost'
    refine ⟨hch'.trans hch, hm'.trans hm, ?_⟩
    simp only [List.countP_append, List.countP_singleton, Act.isFailure, Bool.false_eq_true,
      if_false]
    exact hcost'.trans hcost

/-! ## Every call ends -/

/-- A call that has not ended has a next step, in whatever state the others leave. -/
theorem exists_next {k : Call R} (hk : k.phase.result = none) (ev : EvidenceStore R)
    (st : ProtectedState) (stores : EffectStores) : ∃ q, k.next ev st stores = some q := by
  cases hnext : k.next ev st stores with
  | some q => exact ⟨q, rfl⟩
  | none =>
    unfold Call.next at hnext
    cases hp : k.phase with
    | started | verified | claimed | committed =>
      simp only [hp] at hnext
      split at hnext <;> cases hnext
    | returned | unverified | replayed | denied | unreceipted =>
      rw [hp] at hk
      cases hk

theorem Moves.rank_lt {k : Call R} {ev : EvidenceStore R} {st : ProtectedState}
    {stores stores' : EffectStores} {p : Phase} (h : Moves k ev st stores p stores') :
    p.rank < k.phase.rank := by
  cases h with
  | unverified hp | verified hp | replayed hp | claimed hp | denied hp | committed hp
  | unreceipted hp | returned hp => simp [hp, Phase.rank]

/-- **A call takes four steps at most**, and has ended after the fourth. -/
theorem steps_le (h0 : s₀.Empty) (hrun : Run Step s₀ acts s) (i : Nat) :
    (∀ k, s.calls[i]? = some k → acts.countP (Act.isOf i) + k.phase.rank ≤ 4) ∧
      (s.calls[i]? = none → acts.countP (Act.isOf i) = 0) := by
  refine hrun.invariantTrace (fun acts s =>
    (∀ k, s.calls[i]? = some k → acts.countP (Act.isOf i) + k.phase.rank ≤ 4) ∧
      (s.calls[i]? = none → acts.countP (Act.isOf i) = 0)) (by simp [h0.calls]) ?_
  rintro acts s act s' - ⟨hsome, hnone⟩ hstep
  rw [List.countP_append, List.countP_singleton]
  cases hstep with
  | failNext => exact ⟨hsome, hnone⟩
  | start =>
    simp only [Act.isOf, Bool.false_eq_true, if_false, Nat.add_zero]
    refine ⟨fun k hk => ?_, fun hn => ?_⟩
    · rcases getElem?_concat_eq_some.1 hk with hk | ⟨rfl, rfl⟩
      · exact hsome k hk
      · rw [hnone (List.getElem?_eq_none (le_refl _))]
        exact le_refl _
    · refine hnone (List.getElem?_eq_none ?_)
      have hlen := List.getElem?_eq_none_iff.1 hn
      rw [List.length_append] at hlen
      omega
  | @advance j k p stores ev st hj h =>
    rw [getElem?_move hj]
    rcases eq_or_ne i j with rfl | hne
    · have hrank := (moves h).rank_lt
      have hle := hsome k hj
      simp only [if_true, Act.isOf, decide_true, Option.some.injEq, forall_eq', reduceCtorEq,
        false_implies, and_true]
      omega
    · rw [if_neg hne]
      simp only [Act.isOf, hne.symm, decide_false, Bool.false_eq_true, if_false, Nat.add_zero]
      exact ⟨hsome, hnone⟩

/-! ## Delivery -/

/-- The calls keep the sink and the capability they were started with. -/
theorem started_of_run (h0 : s₀.Empty) (hrun : Run Step s₀ acts s)
    {P : FinalitySink R → Capability → Prop}
    (hP : ∀ sink c cap now proof, Act.start sink c cap now proof ∈ acts → P sink cap) :
    ∀ k ∈ s.calls, P k.sink k.cap := by
  refine hrun.invariantTrace (fun acts s =>
    (∀ sink c cap now proof, Act.start sink c cap now proof ∈ acts → P sink cap) →
      ∀ k ∈ s.calls, P k.sink k.cap) (by simp [h0.calls]) ?_ hP
  intro acts s act s' _ ih hstep hP k hk
  have hall := ih fun sink c cap now proof h => hP sink c cap now proof (List.mem_append_left _ h)
  cases hstep with
  | failNext => exact hall k hk
  | start =>
    rcases List.mem_append.1 hk with hk | hk
    · exact hall k hk
    · rw [List.mem_singleton.1 hk]
      exact hP _ _ _ _ _ (List.mem_append_right _ (List.mem_singleton.2 rfl))
  | @advance i k₁ p stores ev st hi h =>
    rcases List.mem_or_eq_of_mem_set hk with hk | rfl
    · exact hall k hk
    · exact hall k₁ (List.mem_of_getElem? hi)

/-- A call raised for a replay finds its capability claimed. -/
theorem claimed_of_replayed (h0 : s₀.Empty) (hrun : Run Step s₀ acts s) {i : Nat} {k : Call R}
    (hi : s.calls[i]? = some k) {e : PyErr} (hk : k.phase = .replayed e) :
    k.cap.capability_id ∈ s.stores.consumption_store.claims := by
  refine hrun.invariantTrace (fun acts s => ∀ {i : Nat} {k : Call R} {e},
    s.calls[i]? = some k → k.phase = .replayed e →
      k.cap.capability_id ∈ s.stores.consumption_store.claims) (by simp [h0.calls]) ?_ hi hk
  rintro acts s act s' hrun ih hstep i k e hi hk
  cases hstep with
  | failNext => exact ih hi hk
  | start =>
    rcases getElem?_concat_eq_some.1 hi with hi | ⟨rfl, rfl⟩
    · exact ih hi hk
    · cases hk
  | @advance j k' p stores ev st hj h =>
    have hm := moves h
    have hkept : ∀ x, x ∈ s.stores.consumption_store.claims →
        x ∈ stores.consumption_store.claims := by
      intro x hx
      rcases hm.claims_cases with ⟨-, hstore⟩ | ⟨-, -, -, v, hstore, -⟩
      · rw [hstore]
        exact hx
      · rw [hstore]
        exact (AList.mem_insert _).2 (.inr hx)
    rw [getElem?_move hj] at hi
    split at hi
    · obtain rfl := Option.some.inj hi
      dsimp only at hk
      cases hm with
      | replayed hp hclaimed => exact hclaimed
      | unverified | verified | claimed | denied | committed | unreceipted | returned => cases hk
    · exact hkept _ (ih hi hk)

/-- A capability whose claim is held by a call that has ended, and was not denied, has its
effect. -/
theorem exists_record_of_holds (hinv : Inv s) {i : Nat} {k : Call R} (hi : s.calls[i]? = some k)
    (hholds : k.phase.holds = true) (hend : k.phase.result.isSome) (hlost : k.lost = false) :
    ∃ n r, MadeBy s n r i k := by
  obtain ⟨ref, heff⟩ : ∃ ref, k.phase.effect = some ref := by
    cases hp : k.phase with
    | started | verified | unverified | replayed =>
      rw [hp] at hholds
      cases hholds
    | claimed | committed =>
      rw [hp] at hend
      cases hend
    | denied =>
      rw [Call.lost, hp] at hlost
      cases hlost
    | unreceipted ref => exact ⟨ref, rfl⟩
    | returned receipt =>
      have hok := hinv.calls k (List.mem_of_getElem? hi)
      simp only [CallOk, hp] at hok
      obtain ⟨d, ref, hr⟩ := hok
      exact ⟨ref, hr.effect_reference⟩
  obtain ⟨n, r, hmade, -⟩ := hinv.records.madeBy_of_effect hi heff
  exact ⟨n, r, hmade⟩

/-- **Delivery.** In every interleaving the claims are the effects, the claims in flight and the
losses, the calls that were denied though they held the handle are no more than the failures
injected, and a call that has not ended can take its next step and has ended after four. Without
failures, a capability that was verified has exactly one effect once its calls have ended, however
they raced. The number of records is taken to be one that can be written. -/
theorem delivery (h0 : s₀.Empty) (hfail : s₀.stores.effector.fail_next = false)
    (hchannel : hasSurrogate s₀.stores.effector.channel = false) (hrun : Run Step s₀ acts s)
    (hordinal : printsInt s.stores.effector.records.length = true) :
    Balanced s ∧
    s.calls.countP (Call.lostWith s₀.stores.effector.marker) ≤ acts.countP Act.isFailure ∧
    (∀ (i : Nat) k, s.calls[i]? = some k →
      acts.countP (Act.isOf i) ≤ 4 ∧ (acts.countP (Act.isOf i) = 4 → k.phase.result.isSome) ∧
        (k.phase.result = none → ∀ ev st, ∃ s', Step s (.advance i ev st) s')) ∧
    (Act.failNext ∉ acts → (∀ sink c cap now proof, Act.start sink c cap now proof ∈ acts →
        sink.effect_handle = s₀.stores.effector.marker) →
      ∀ capability_id,
        (∀ k ∈ s.calls, k.cap.capability_id = capability_id → k.phase.result.isSome) →
        (∃ k ∈ s.calls, k.cap.capability_id = capability_id ∧ ∀ e, k.phase ≠ .unverified e) →
        ∃! n, ∃ r i k, MadeBy s n r i k ∧ k.cap.capability_id = capability_id) := by
  have hinv := inv_of_run h0 hrun
  have hspent := (spent_of_run h0 hfail hchannel hrun hordinal).cost
  refine ⟨balance h0 hrun, by omega, fun i k hi => ⟨?_, fun hfour => ?_, fun hnone ev st => ?_⟩, ?_⟩
  · have hle := (steps_le h0 hrun i).1 k hi
    omega
  · have hle := (steps_le h0 hrun i).1 k hi
    exact Phase.result_of_rank (by omega)
  · obtain ⟨q, hq⟩ := exists_next hnone ev st s.stores
    exact ⟨_, .advance hi hq⟩
  · intro hno hstarts capability_id hended hverified
    have hhandles : ∀ k ∈ s.calls, k.sink.effect_handle = s₀.stores.effector.marker :=
      started_of_run (P := fun sink _ => sink.effect_handle = s₀.stores.effector.marker) h0 hrun
        hstarts
    -- no call was denied
    have hzero : acts.countP Act.isFailure = 0 := by
      refine List.countP_eq_zero.2 fun act hact hfailure => ?_
      cases act with
      | failNext => exact hno hact
      | start | advance => cases hfailure
    have hlost : ∀ k ∈ s.calls, k.lost = false := by
      intro k hk
      have hnone := List.countP_eq_zero.1 (show s.calls.countP
        (Call.lostWith s₀.stores.effector.marker) = 0 by omega) k hk
      simpa [Call.lostWith, hhandles k hk] using hnone
    -- so the call that holds the claim made the effect
    obtain ⟨k, hk, rfl, hnot⟩ := hverified
    obtain ⟨i, hi⟩ := List.mem_iff_getElem?.1 hk
    have hclaimed : k.cap.capability_id ∈ s.stores.consumption_store.claims := by
      cases hp : k.phase with
      | unverified e => exact absurd hp (hnot e)
      | replayed e => exact claimed_of_replayed h0 hrun hi hp
      | started | verified | claimed | committed =>
        have hend := hended k hk rfl
        rw [hp] at hend
        cases hend
      | returned | denied | unreceipted =>
        exact (hinv.claims.claimed_iff _).2 ⟨i, k, hi, by rw [hp]; rfl, rfl⟩
    obtain ⟨j, k', hj, hholds, hid⟩ := (hinv.claims.claimed_iff _).1 hclaimed
    have hk' := List.mem_of_getElem? hj
    obtain ⟨n, r, hmade⟩ :=
      exists_record_of_holds hinv hj hholds (hended k' hk' hid) (hlost k' hk')
    refine ⟨n, ⟨r, j, k', hmade, hid⟩, ?_⟩
    rintro m ⟨r', j', k'', hmade', hid'⟩
    exact hinv.one_record hmade' hmade (hid'.trans hid.symm)

end

/-- Two calls race for the sample capability, and one effect is made. -/
theorem delivery_sample : ∃ acts, ∃ s : State sampleRuntime, ∃ cap : Capability,
    Run Step ⟨sampleWorld.effects, [], []⟩ acts s ∧ s.calls.length = 2 ∧
    ∃! n, ∃ r i k, MadeBy s n r i k ∧ k.cap.capability_id = cap.capability_id := by
  obtain ⟨cap, s', -, -, -, -, hv⟩ := sample_verified
  have hfresh : cap.capability_id ∉ sampleWorld.effects.consumption_store.claims :=
    AList.notMem_empty _
  obtain ⟨s, message, receipt, record, hrun, hphases, hrecs⟩ :=
    race hv hfresh rfl rfl rfl (by decide) ⟨HMACAuthenticator.signsCanon, rfl⟩ (by decide)
  have hordinal : printsInt s.stores.effector.records.length = true := by
    rw [hrecs]
    exact (by decide : printsInt 1 = true)
  have hlen : s.calls.length = 2 := by
    simpa using congrArg List.length hphases
  have hphase : ∀ k ∈ s.calls,
      k.phase = .replayed (.replayDetected message) ∨ k.phase = .returned receipt := by
    intro k hk
    have hp := List.mem_map_of_mem (f := Call.phase) hk
    rw [hphases] at hp
    exact List.mem_pair.1 hp
  have hcap : ∀ k ∈ s.calls, k.sink.effect_handle = 0 ∧ k.cap = cap :=
    started_of_run (P := fun sink cap' => sink.effect_handle = 0 ∧ cap' = cap) ⟨rfl, rfl, rfl, rfl⟩
      hrun (by
        intro sink c cap' now proof hmem
        simp only [List.mem_cons, Act.start.injEq, reduceCtorEq, List.not_mem_nil, or_false] at hmem
        rcases hmem with ⟨rfl, -, rfl, -⟩ | ⟨rfl, -, rfl, -⟩ <;> exact ⟨rfl, rfl⟩)
  obtain ⟨k, hk⟩ := List.exists_mem_of_length_pos (show 0 < s.calls.length by omega)
  refine ⟨_, s, cap, hrun, hlen, (delivery ⟨rfl, rfl, rfl, rfl⟩ rfl rfl hrun hordinal).2.2.2
    (by simp) ?_ cap.capability_id ?_ ⟨k, hk, by rw [(hcap k hk).2], ?_⟩⟩
  · intro sink c cap' now proof hmem
    simp only [List.mem_cons, Act.start.injEq, reduceCtorEq, List.not_mem_nil, or_false] at hmem
    rcases hmem with ⟨rfl, -⟩ | ⟨rfl, -⟩ <;> rfl
  · intro k hk _
    rcases hphase k hk with hp | hp <;> rw [hp] <;> rfl
  · intro e he
    rcases hphase k hk with hp | hp <;> rw [hp] at he <;> cases he

end Interleaving

end Finality
