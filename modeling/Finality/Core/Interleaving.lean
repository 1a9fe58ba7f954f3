import Finality.Core.Completeness

/-!
# Interleaved calls of `effectuate`

Nothing encloses a call of `effectuate` in a lock: between its verification, its claim, its commit
and its receipt any other call may run. `Call.next` is one of these steps of a call, at the stores
it finds; the claim and the commit are atomic under the locks of the two stores. `Step` lets any
call take its next step, lets new calls start, and injects downstream failures, so its runs are
the interleavings of any number of calls on any sinks over one consumption store and one effector.

A call verifies against whatever evidence and protected state it finds: both are arbitrary at
each step, since authorisations may run in between.

`makers` is history: for each effect record in order, the call whose commit appended it.
-/

namespace Finality

open Checks FinalitySink Runs

namespace Interleaving

/-- Where a call stands, with its local variables, or how it ended. -/
inductive Phase where
  | started
  | verified (descriptor_digest : PyStr)
  | claimed (descriptor_digest : PyStr)
  | committed (descriptor_digest effect_reference : PyStr)
  | returned (receipt : SinkReceipt)
  /-- raised by `verify` -/
  | unverified (e : PyErr)
  /-- raised by the claim -/
  | replayed (e : PyErr)
  /-- raised after the commit failed -/
  | denied (e : PyErr)
  /-- raised by the digest or the signature of the receipt -/
  | unreceipted (effect_reference : PyStr) (e : PyErr)

namespace Phase

/-- The call's claim succeeded. -/
def holds : Phase → Bool
  | claimed _ | committed .. | returned _ | denied _ | unreceipted .. => true
  | started | verified _ | unverified _ | replayed _ => false

/-- The reference of the effect the call made. -/
def effect : Phase → Option PyStr
  | committed _ effect_reference => some effect_reference
  | returned receipt => receipt.effect_reference
  | unreceipted effect_reference _ => some effect_reference
  | started | verified _ | claimed _ | unverified _ | replayed _ | denied _ => none

/-- What the call returned or raised, if it has ended. -/
def result : Phase → Option (Except PyErr SinkReceipt)
  | returned receipt => some (.ok receipt)
  | unverified e | replayed e | denied e | unreceipted _ e => some (.error e)
  | started | verified _ | claimed _ | committed .. => none

end Phase

section
variable (R : Runtime)

/-- A call of `effectuate` in progress. -/
structure Call where
  sink : FinalitySink R
  candidate : CandidateAct
  cap : Capability
  now : Int
  presentation_proof : Option PresentationProof
  phase : Phase

/-- The stores the calls share, the calls in the order they started, and for each effect record
the position of the call that made it. -/
structure State where
  stores : EffectStores
  calls : List (Call R)
  makers : List Nat

/-- What the scheduler chooses. -/
inductive Act where
  | start (sink : FinalitySink R) (candidate : CandidateAct) (cap : Capability) (now : Int)
      (presentation_proof : Option PresentationProof)
  | advance (i : Nat) (evidence_store : EvidenceStore R) (protected_state : ProtectedState)
  | failNext

end

section
variable {R : Runtime}

/-- The next step of a call of `effectuate`: its new phase and what it leaves in the stores. -/
def Call.next (k : Call R) (evidence_store : EvidenceStore R) (protected_state : ProtectedState)
    (stores : EffectStores) : Option (Phase × EffectStores) :=
  match k.phase with
  | .started =>
    match k.sink.verify evidence_store protected_state k.candidate k.cap k.now
        k.presentation_proof with
    | .error e => some (.unverified e, stores)
    | .ok descriptor_digest => some (.verified descriptor_digest, stores)
  | .verified descriptor_digest =>
    match stores.consumption_store.claim k.cap.capability_id k.sink.context.sink_id
        k.sink.context.boundary_id k.cap.nonce k.now with
    | .error e => some (.replayed e, stores)
    | .ok consumption_store =>
      some (.claimed descriptor_digest, { stores with consumption_store := consumption_store })
  | .claimed descriptor_digest =>
    match stores.effector.commit R k.candidate k.sink.effect_handle with
    | (.error exc, effector) =>
      some (.denied (.effectDenied exc.message), { stores with effector := effector })
    | (.ok record, effector) =>
      some (.committed descriptor_digest record.effect_reference,
        { stores with effector := effector })
  | .committed descriptor_digest effect_reference =>
    match k.sink.issueReceipt k.candidate k.cap descriptor_digest k.now
        (some effect_reference) with
    | .error e => some (.unreceipted effect_reference e, stores)
    | .ok receipt => some (.returned receipt, stores)
  | .returned _ | .unverified _ | .replayed _ | .denied _ | .unreceipted .. => none

/-- The history after call `i` went from phase `p` to phase `q`: only a commit makes an effect. -/
def State.makersAfter (s : State R) (i : Nat) (p q : Phase) : List Nat :=
  if p.effect = q.effect then s.makers else s.makers ++ [i]

/-- Call `i`, which is `k`, moves to phase `p` and leaves `stores`. -/
def State.move (s : State R) (i : Nat) (k : Call R) (p : Phase) (stores : EffectStores) : State R :=
  { stores := stores
    calls := s.calls.set i { k with phase := p }
    makers := s.makersAfter i k.phase p }

/-- One step of an interleaving. -/
inductive Step : State R → Act R → State R → Prop
  | start {s sink candidate cap now presentation_proof} :
      Step s (.start sink candidate cap now presentation_proof)
        { s with calls := s.calls ++ [⟨sink, candidate, cap, now, presentation_proof, .started⟩] }
  | advance {s i k p stores evidence_store protected_state} (hi : s.calls[i]? = some k)
      (h : k.next evidence_store protected_state s.stores = some (p, stores)) :
      Step s (.advance i evidence_store protected_state) (s.move i k p stores)
  | failNext {s} : Step s .failNext { s with stores.effector.fail_next := true }

/-- Nothing has been claimed or effected and no call has started. -/
structure State.Empty (s : State R) : Prop where
  claims : s.stores.consumption_store.claims = ∅
  records : s.stores.effector.records = []
  calls : s.calls = []
  makers : s.makers = []

/-! ## A call with the stores to itself -/

/-- A call takes `n` steps in a row. -/
def Call.runAlone (evidence_store : EvidenceStore R) (protected_state : ProtectedState) :
    Nat → Call R → EffectStores → Call R × EffectStores
  | 0, k, stores => (k, stores)
  | n + 1, k, stores =>
    match k.next evidence_store protected_state stores with
    | none => (k, stores)
    | some (p, stores) =>
      Call.runAlone evidence_store protected_state n { k with phase := p } stores

/-- **The steps of a call are `effectuate`**: taken in a row, they end after at most four with the
result and the stores of `effectuate`. -/
theorem runAlone_eq_effectuate (sink : FinalitySink R) (ev : EvidenceStore R) (st : ProtectedState)
    (stores : EffectStores) (c : CandidateAct) (cap : Capability) (now : Int)
    (proof : Option PresentationProof) :
    ∃ p, Call.runAlone ev st 4 ⟨sink, c, cap, now, proof, .started⟩ stores =
        (⟨sink, c, cap, now, proof, p⟩, (sink.effectuate ev st stores c cap now proof).2) ∧
      p.result = some (sink.effectuate ev st stores c cap now proof).1 := by
  unfold effectuate
  cases hv : sink.verify ev st c cap now proof with
  | error e => exact ⟨.unverified e, by simp [Call.runAlone, Call.next, hv], rfl⟩
  | ok d =>
    cases hc : stores.consumption_store.claim cap.capability_id sink.context.sink_id
        sink.context.boundary_id cap.nonce now with
    | error e => exact ⟨.replayed e, by simp [Call.runAlone, Call.next, hv, hc], rfl⟩
    | ok claims =>
      obtain ⟨r, effector, he⟩ : ∃ r effector,
        stores.effector.commit R c sink.effect_handle = (r, effector) := ⟨_, _, rfl⟩
      cases r with
      | error e =>
        exact ⟨.denied (.effectDenied e.message), by simp [Call.runAlone, Call.next, hv, hc, he],
          by simp [he, Phase.result]⟩
      | ok record =>
        cases hr : sink.issueReceipt c cap d now (some record.effect_reference) with
        | error e =>
          exact ⟨.unreceipted record.effect_reference e,
            by simp [Call.runAlone, Call.next, hv, hc, he, hr], by simp [he, hr, Phase.result]⟩
        | ok receipt =>
          exact ⟨.returned receipt, by simp [Call.runAlone, Call.next, hv, hc, he, hr],
            by simp [he, hr, Phase.result]⟩

/-! ## What one step of a call does -/

/-- The steps of a call: from which phase, on what condition, to which phase and stores. -/
inductive Moves (k : Call R) (ev : EvidenceStore R) (st : ProtectedState) (stores : EffectStores) :
    Phase → EffectStores → Prop
  | unverified {e} (hp : k.phase = .started)
      (h : k.sink.verify ev st k.candidate k.cap k.now k.presentation_proof = .error e) :
      Moves k ev st stores (.unverified e) stores
  | verified {d} (hp : k.phase = .started)
      (h : Verified k.sink ev st k.candidate k.cap k.now k.presentation_proof d) :
      Moves k ev st stores (.verified d) stores
  | replayed {d message} (hp : k.phase = .verified d)
      (h : k.cap.capability_id ∈ stores.consumption_store.claims) :
      Moves k ev st stores (.replayed (.replayDetected message)) stores
  | claimed {d claims} (hp : k.phase = .verified d)
      (h : k.cap.capability_id ∉ stores.consumption_store.claims)
      (hc : claims = stores.consumption_store.claims.insert k.cap.capability_id
        (k.sink.context.sink_id, k.sink.context.boundary_id, k.cap.nonce, k.now)) :
      Moves k ev st stores (.claimed d) ⟨⟨claims⟩, stores.effector⟩
  | denied {d message effector} (hp : k.phase = .claimed d)
      (h : effector.records = stores.effector.records ∧
        effector.channel = stores.effector.channel) :
      Moves k ev st stores (.denied (.effectDenied message)) ⟨stores.consumption_store, effector⟩
  | committed {d record effector} (hp : k.phase = .claimed d)
      (h : stores.effector.nextRecord R k.candidate = .ok record)
      (he : effector = { stores.effector with records := stores.effector.records ++ [record] }) :
      Moves k ev st stores (.committed d record.effect_reference)
        ⟨stores.consumption_store, effector⟩
  | unreceipted {d ref e} (hp : k.phase = .committed d ref)
      (h : k.sink.issueReceipt k.candidate k.cap d k.now (some ref) = .error e) :
      Moves k ev st stores (.unreceipted ref e) stores
  | returned {d ref receipt} (hp : k.phase = .committed d ref)
      (h : ReceiptIssued k.sink k.candidate k.cap d k.now (some ref) receipt) :
      Moves k ev st stores (.returned receipt) stores

/-- **What one step of a call does.** -/
theorem moves {k : Call R} {ev : EvidenceStore R} {st : ProtectedState}
    {stores stores' : EffectStores}
    {p : Phase} (h : k.next ev st stores = some (p, stores')) : Moves k ev st stores p stores' := by
  unfold Call.next at h
  split at h
  case h_1 hp =>
    split at h
    · rename_i hv
      obtain ⟨rfl, rfl⟩ := Prod.mk.inj (Option.some.inj h)
      exact .unverified hp hv
    · rename_i hv
      obtain ⟨rfl, rfl⟩ := Prod.mk.inj (Option.some.inj h)
      exact .verified hp (verify_ok.1 hv)
  case h_2 d hp =>
    split at h
    · rename_i hc
      obtain ⟨rfl, rfl⟩ := Prod.mk.inj (Option.some.inj h)
      obtain ⟨hclaimed, rfl⟩ := InMemoryConsumptionStore.claim_error hc
      exact .replayed hp hclaimed
    · rename_i hc
      obtain ⟨rfl, rfl⟩ := Prod.mk.inj (Option.some.inj h)
      obtain ⟨hfree, rfl⟩ := InMemoryConsumptionStore.claim_ok.1 hc
      exact .claimed hp hfree rfl
  case h_3 d hp =>
    split at h
    · rename_i he
      obtain ⟨rfl, rfl⟩ := Prod.mk.inj (Option.some.inj h)
      have hkept := GuardedEffector.commit_error he
      exact .denied hp ⟨hkept.1, hkept.2.1⟩
    · rename_i he
      obtain ⟨rfl, rfl⟩ := Prod.mk.inj (Option.some.inj h)
      obtain ⟨-, -, hrec, heff⟩ := GuardedEffector.commit_ok.1 he
      exact .committed hp hrec heff
  case h_4 d ref hp =>
    split at h
    · rename_i hr
      obtain ⟨rfl, rfl⟩ := Prod.mk.inj (Option.some.inj h)
      exact .unreceipted hp hr
    · rename_i hr
      obtain ⟨rfl, rfl⟩ := Prod.mk.inj (Option.some.inj h)
      exact .returned hp (issueReceipt_ok hr)
  all_goals cases h

variable {k : Call R} {ev : EvidenceStore R} {st : ProtectedState} {stores stores' : EffectStores}
  {p : Phase}

/-- A call that has ended takes no further step. -/
theorem Moves.not_ended (h : Moves k ev st stores p stores') : k.phase.result = none := by
  cases h with
  | unverified hp => rw [hp]; rfl
  | verified hp => rw [hp]; rfl
  | replayed hp => rw [hp]; rfl
  | claimed hp => rw [hp]; rfl
  | denied hp => rw [hp]; rfl
  | committed hp => rw [hp]; rfl
  | unreceipted hp => rw [hp]; rfl
  | returned hp => rw [hp]; rfl

/-- A step changes the claims only when it claims the call's capability, which was free. -/
theorem Moves.claims_cases (h : Moves k ev st stores p stores') :
    (p.holds = k.phase.holds ∧ stores'.consumption_store = stores.consumption_store) ∨
    (p.holds = true ∧ k.phase.holds = false ∧
      k.cap.capability_id ∉ stores.consumption_store.claims ∧
      ∃ v, stores'.consumption_store =
          ⟨stores.consumption_store.claims.insert k.cap.capability_id v⟩ ∧
        stores'.effector = stores.effector) := by
  cases h with
  | claimed hp hfree hc => exact .inr ⟨rfl, by rw [hp]; rfl, hfree, _, by rw [hc], rfl⟩
  | unverified hp => exact .inl ⟨by rw [hp]; rfl, rfl⟩
  | verified hp => exact .inl ⟨by rw [hp]; rfl, rfl⟩
  | replayed hp => exact .inl ⟨by rw [hp]; rfl, rfl⟩
  | denied hp => exact .inl ⟨by rw [hp]; rfl, rfl⟩
  | committed hp => exact .inl ⟨by rw [hp]; rfl, rfl⟩
  | unreceipted hp => exact .inl ⟨by rw [hp]; rfl, rfl⟩
  | returned hp => exact .inl ⟨by rw [hp]; rfl, rfl⟩

/-- A step changes the records only when it appends the next record of the call's candidate; the
call then holds its claim. -/
theorem Moves.records_cases (h : Moves k ev st stores p stores') :
    stores'.effector.channel = stores.effector.channel ∧
    ((k.phase.effect = p.effect ∧ stores'.effector.records = stores.effector.records) ∨
    (k.phase.holds = true ∧ k.phase.effect = none ∧
      stores'.consumption_store = stores.consumption_store ∧
      ∃ record, stores.effector.nextRecord R k.candidate = .ok record ∧
        p.effect = some record.effect_reference ∧
        stores'.effector.records = stores.effector.records ++ [record])) := by
  cases h with
  | committed hp hrec he =>
    subst he
    exact ⟨rfl, .inr ⟨by rw [hp]; rfl, by rw [hp]; rfl, rfl, _, hrec, rfl, rfl⟩⟩
  | denied hp he => exact ⟨he.2, .inl ⟨by rw [hp]; rfl, he.1⟩⟩
  | returned hp hr => exact ⟨rfl, .inl ⟨by rw [hp]; exact hr.effect_reference.symm, rfl⟩⟩
  | unverified hp => exact ⟨rfl, .inl ⟨by rw [hp]; rfl, rfl⟩⟩
  | verified hp => exact ⟨rfl, .inl ⟨by rw [hp]; rfl, rfl⟩⟩
  | replayed hp => exact ⟨rfl, .inl ⟨by rw [hp]; rfl, rfl⟩⟩
  | claimed hp => exact ⟨rfl, .inl ⟨by rw [hp]; rfl, rfl⟩⟩
  | unreceipted hp => exact ⟨rfl, .inl ⟨by rw [hp]; rfl, rfl⟩⟩

end

end Interleaving

end Finality
