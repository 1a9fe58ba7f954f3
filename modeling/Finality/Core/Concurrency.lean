import Finality.Core.Accounts

/-!
# The accounts of concurrent calls

`single_use` is single use under any interleaving, with the accounts of every call: which call made
a record and under which claim, what a failed call leaves behind, and which record a receipt is
for. It is read off the invariants of the states reached and off what a run keeps of a call
(`Later`).
-/

namespace Finality

open Checks FinalitySink Runs

namespace Interleaving

variable {R : Runtime}

/-- What the accounts rest on. -/
structure Inv (s : State R) : Prop where
  claims : ClaimsInv s
  records : RecordsInv s
  calls : ∀ k ∈ s.calls, CallOk k

/-- **The invariants hold in every state reached.** -/
theorem inv_of_run {s₀ s : State R} {acts : List (Act R)} (h0 : s₀.Empty)
    (hrun : Run Step s₀ acts s) : Inv s := by
  refine hrun.invariant Inv ⟨claimsInv_of_empty h0, recordsInv_of_empty h0, ?_⟩ ?_
  · simp [h0.calls]
  · exact fun s act s' hinv hs =>
      ⟨hinv.claims.step hs, hinv.records.step hs, callOk_step hinv.calls hs⟩

/-! ## What a run keeps -/

/-- A call some time later: its arguments, a claim it holds and an effect it made stay, and once it
has ended nothing of it changes. -/
structure Later (k k' : Call R) : Prop where
  same : k' = { k with phase := k'.phase }
  holds : k.phase.holds = true → k'.phase.holds = true
  effect : ∀ {ref}, k.phase.effect = some ref → k'.phase.effect = some ref
  ended : k.phase.result.isSome → k' = k

theorem Later.refl (k : Call R) : Later k k := ⟨rfl, fun h => h, fun h => h, fun _ => rfl⟩

theorem Later.trans {k k' k'' : Call R} (h : Later k k') (h' : Later k' k'') : Later k k'' where
  same := by rw [h'.same, h.same]
  holds := fun hk => h'.holds (h.holds hk)
  effect := fun hk => h'.effect (h.effect hk)
  ended := fun hk => by
    obtain rfl := h.ended hk
    exact h'.ended hk

/-- A move leads to a later phase. -/
theorem Moves.later {k : Call R} {ev : EvidenceStore R} {st : ProtectedState}
    {stores stores' : EffectStores} {p : Phase} (h : Moves k ev st stores p stores') :
    Later k { k with phase := p } where
  same := rfl
  holds := fun hk => by
    rcases h.claims_cases with ⟨hp, -⟩ | ⟨hp, -⟩
    · exact hp.trans hk
    · exact hp
  effect := fun hk => by
    rcases h.records_cases.2 with ⟨hp, -⟩ | ⟨-, hp, -⟩
    · exact hp.symm.trans hk
    · rw [hp] at hk
      cases hk
  ended := fun hk => by
    rw [h.not_ended] at hk
    cases hk

/-- Records and history only grow. -/
theorem prefix_step {s s' : State R} {act : Act R} (h : Step s act s') :
    s.stores.effector.records <+: s'.stores.effector.records ∧ s.makers <+: s'.makers := by
  cases h with
  | start => exact ⟨List.prefix_rfl, List.prefix_rfl⟩
  | failNext => exact ⟨List.prefix_rfl, List.prefix_rfl⟩
  | @advance i k p stores ev st hi h =>
    refine ⟨?_, ?_⟩
    · rcases (moves h).records_cases.2 with ⟨-, hrec⟩ | ⟨-, -, -, record, -, -, hrec⟩
      · simp only [stores_move, hrec, List.prefix_rfl]
      · rw [stores_move, hrec]
        exact List.prefix_append ..
    · unfold State.move State.makersAfter
      split
      · exact List.prefix_rfl
      · exact List.prefix_append ..

/-- A run only adds records. -/
theorem prefix_run {s s' : State R} {acts : List (Act R)} (hrun : Run Step s acts s') :
    s.stores.effector.records <+: s'.stores.effector.records ∧ s.makers <+: s'.makers :=
  hrun.invariant (fun s' => s.stores.effector.records <+: s'.stores.effector.records ∧
      s.makers <+: s'.makers) ⟨List.prefix_rfl, List.prefix_rfl⟩
    fun _ _ _ ih hs => ⟨ih.1.trans (prefix_step hs).1, ih.2.trans (prefix_step hs).2⟩

/-- A call is found again after any run. -/
theorem later_run {s s' : State R} {acts : List (Act R)} (hrun : Run Step s acts s') {i : Nat}
    {k : Call R} (hi : s.calls[i]? = some k) : ∃ k', s'.calls[i]? = some k' ∧ Later k k' := by
  refine hrun.invariant (fun s' => ∃ k', s'.calls[i]? = some k' ∧ Later k k') ⟨k, hi, .refl k⟩ ?_
  rintro s act s' ⟨k', hk', hlater⟩ hs
  cases hs with
  | start => exact ⟨k', getElem?_concat_eq_some.2 (.inl hk'), hlater⟩
  | failNext => exact ⟨k', hk', hlater⟩
  | @advance j k₁ p stores ev st hj h =>
    rw [getElem?_move hj]
    rcases eq_or_ne i j with rfl | hne
    · obtain rfl : k₁ = k' := Option.some.inj (hj.symm.trans hk')
      exact ⟨_, if_pos rfl, hlater.trans (moves h).later⟩
    · exact ⟨k', (if_neg hne).trans hk', hlater⟩

/-- A list that goes on has the items it had. -/
theorem getElem?_of_prefix {α : Type} {xs ys : List α} (h : xs <+: ys) {n : Nat} {a : α}
    (hn : xs[n]? = some a) : ys[n]? = some a := by
  obtain ⟨zs, rfl⟩ := h
  rw [List.getElem?_append_left (List.getElem?_eq_some_iff.1 hn).1, hn]

/-! ## Who made a record -/

/-- Record `n` is `r`, and call `i`, which is `k`, made it. -/
structure MadeBy (s : State R) (n : Nat) (r : EffectRecord) (i : Nat) (k : Call R) : Prop where
  record : s.stores.effector.records[n]? = some r
  maker : s.makers[n]? = some i
  call : s.calls[i]? = some k

/-- Every record was made by a call. -/
theorem RecordsInv.exists_madeBy {s : State R} (hinv : RecordsInv s) {n : Nat} {r : EffectRecord}
    (hn : s.stores.effector.records[n]? = some r) : ∃ i k, MadeBy s n r i k := by
  obtain ⟨hlt, -⟩ := List.getElem?_eq_some_iff.1 hn
  have hm := List.getElem?_eq_getElem (hinv.lengths ▸ hlt)
  obtain ⟨k, hk, -⟩ := hinv.made hn hm
  exact ⟨_, k, hn, hm, hk⟩

/-- The maker's phase carries the record's reference, and its candidate is the one recorded. -/
theorem RecordsInv.of_madeBy {s : State R} (hinv : RecordsInv s) {n : Nat} {r : EffectRecord}
    {i : Nat} {k : Call R} (h : MadeBy s n r i k) :
    k.phase.effect = some r.effect_reference ∧ k.candidate.digest R = .ok r.candidate_digest := by
  obtain ⟨k', hk', heff, hd⟩ := hinv.made h.record h.maker
  obtain rfl : k = k' := Option.some.inj (h.call.symm.trans hk')
  exact ⟨heff, hd⟩

/-- A call that made an effect made one record. -/
theorem RecordsInv.madeBy_of_effect {s : State R} (hinv : RecordsInv s) {i : Nat} {k : Call R}
    {ref : PyStr} (hi : s.calls[i]? = some k) (heff : k.phase.effect = some ref) :
    ∃ n r, MadeBy s n r i k ∧ r.effect_reference = ref := by
  obtain ⟨n, hn⟩ := List.mem_iff_getElem?.1 (hinv.maker hi heff)
  obtain ⟨hlt, -⟩ := List.getElem?_eq_some_iff.1 hn
  have hr := List.getElem?_eq_getElem (hinv.lengths ▸ hlt)
  have hmade : MadeBy s n _ i k := ⟨hr, hn, hi⟩
  exact ⟨n, _, hmade, Option.some.inj ((hinv.of_madeBy hmade).1.symm.trans heff)⟩

/-- A step of call `i` in a run: from the state `u` to the state `v`. -/
structure StepOf (s₀ : State R) (acts : List (Act R)) (s : State R) (i : Nat) (u v : State R) :
    Prop where
  splits : ∃ before evidence_store protected_state after,
    acts = before ++ .advance i evidence_store protected_state :: after ∧ Run Step s₀ before u ∧
      Step u (.advance i evidence_store protected_state) v ∧ Run Step v after s

/-- **The commit behind a record**: the step of its maker that appended it, in a state where the
maker's claim stood already. -/
theorem exists_commit {s₀ s : State R} {acts : List (Act R)} (h0 : s₀.Empty)
    (hrun : Run Step s₀ acts s) {n : Nat} {r : EffectRecord} {i : Nat} {k : Call R}
    (h : MadeBy s n r i k) : ∃ u v, StepOf s₀ acts s i u v ∧
      k.cap.capability_id ∈ u.stores.consumption_store.claims ∧
      u.stores.effector.records.length = n ∧
      v.stores.effector.records = u.stores.effector.records ++ [r] := by
  obtain ⟨before, act, after, u, v, rfl, hu, hs, hlt, hlt', hv⟩ :=
    hrun.turnsOn (fun s => n < s.stores.effector.records.length) (by simp [h0.records])
      (List.getElem?_eq_some_iff.1 h.record).1
  cases hs with
  | start => exact absurd hlt' hlt
  | failNext => exact absurd hlt' hlt
  | @advance j k₁ p stores ev st hj hnext =>
    rcases (moves hnext).records_cases.2 with ⟨-, hrec⟩ | ⟨hh, hk, -, record, -, hp, hrec⟩
    · rw [stores_move, hrec] at hlt'
      exact absurd hlt' hlt
    have hinv := inv_of_run h0 hu
    have hlen : u.stores.effector.records.length = n := by
      rw [stores_move, hrec, List.length_append, List.length_singleton] at hlt'
      omega
    -- the record appended is number n, and stays so
    have hn : s.stores.effector.records[n]? = some record := by
      refine getElem?_of_prefix (prefix_run hv).1 ?_
      rw [stores_move, hrec, ← hlen]
      exact List.getElem?_concat_length
    have hm : s.makers[n]? = some j := by
      refine getElem?_of_prefix (prefix_run hv).2 ?_
      rw [State.move, State.makersAfter, if_neg (by simp [hk, hp]), ← hlen,
        ← hinv.records.lengths]
      exact List.getElem?_concat_length
    obtain rfl : record = r := Option.some.inj (hn.symm.trans h.record)
    obtain rfl : j = i := Option.some.inj (hm.symm.trans h.maker)
    obtain ⟨k', hk', hlater⟩ := later_run hv ((getElem?_move hj).trans (if_pos rfl))
    obtain rfl : k = k' := Option.some.inj (h.call.symm.trans hk')
    refine ⟨u, _, ⟨before, ev, st, after, rfl, hu, .advance hj hnext, hv⟩, ?_, hlen, hrec⟩
    rw [hlater.same]
    exact (hinv.claims.claimed_iff _).2 ⟨j, k₁, hj, hh, rfl⟩

/-- A call without an effect has appended no record. -/
theorem StepOf.records_eq {s₀ s u v : State R} {acts : List (Act R)} {i : Nat}
    (h : StepOf s₀ acts s i u v) {k : Call R} (hi : s.calls[i]? = some k)
    (hk : k.phase.effect = none) : v.stores.effector.records = u.stores.effector.records := by
  obtain ⟨before, ev, st, after, -, -, hs, hv⟩ := h.splits
  cases hs with
  | advance hj hnext =>
    rcases (moves hnext).records_cases.2 with ⟨-, hrec⟩ | ⟨-, -, -, record, -, hp, -⟩
    · exact hrec
    · obtain ⟨k', hk', hlater⟩ := later_run hv ((getElem?_move hj).trans (if_pos rfl))
      obtain rfl : k = k' := Option.some.inj (hi.symm.trans hk')
      have heff := hlater.effect hp
      rw [hk] at heff
      cases heff

/-- A call that holds nothing has claimed nothing. -/
theorem StepOf.claims_eq {s₀ s u v : State R} {acts : List (Act R)} {i : Nat}
    (h : StepOf s₀ acts s i u v) {k : Call R} (hi : s.calls[i]? = some k)
    (hk : k.phase.holds = false) :
    v.stores.consumption_store = u.stores.consumption_store := by
  obtain ⟨before, ev, st, after, -, -, hs, hv⟩ := h.splits
  cases hs with
  | advance hj hnext =>
    rcases (moves hnext).claims_cases with ⟨-, hstore⟩ | ⟨hp, -⟩
    · exact hstore
    · obtain ⟨k', hk', hlater⟩ := later_run hv ((getElem?_move hj).trans (if_pos rfl))
      obtain rfl : k = k' := Option.some.inj (hi.symm.trans hk')
      exact absurd (hlater.holds hp) (by simp [hk])

/-- The maker of a record holds its claim. -/
theorem RecordsInv.holds_of_madeBy {s : State R} (hinv : RecordsInv s) {n : Nat} {r : EffectRecord}
    {i : Nat} {k : Call R} (h : MadeBy s n r i k) : Holds s i k.cap.capability_id :=
  ⟨k, h.call, Phase.holds_of_effect (hinv.of_madeBy h).1, rfl⟩

/-- **A capability makes one record.** -/
theorem Inv.one_record {s : State R} (hinv : Inv s) {n m : Nat} {r r' : EffectRecord} {i j : Nat}
    {k k' : Call R} (h : MadeBy s n r i k) (h' : MadeBy s m r' j k')
    (hid : k.cap.capability_id = k'.cap.capability_id) : n = m := by
  have hij : i = j := hinv.claims.unique (hinv.records.holds_of_madeBy h)
    (hid ▸ hinv.records.holds_of_madeBy h')
  have hm := h'.maker
  rw [← hij, ← h.maker] at hm
  obtain ⟨hlt, -⟩ := List.getElem?_eq_some_iff.1 h.maker
  exact (List.getElem?_inj hlt hinv.records.nodup).1 hm.symm

/-- **A denied capability makes no record**, then or later. -/
theorem Inv.no_record {s : State R} (hinv : Inv s) {i : Nat} {k : Call R} {e : PyErr}
    (hi : s.calls[i]? = some k) (hk : k.phase = .denied e) {n : Nat} {r : EffectRecord} {j : Nat}
    {k' : Call R} (h : MadeBy s n r j k') : k'.cap.capability_id ≠ k.cap.capability_id := by
  intro hid
  have hholds : Holds s i k.cap.capability_id := ⟨k, hi, by rw [hk]; rfl, rfl⟩
  obtain rfl := hinv.claims.unique hholds (hid ▸ hinv.records.holds_of_madeBy h)
  obtain rfl : k = k' := Option.some.inj (hi.symm.trans h.call)
  have heff := (hinv.records.of_madeBy h).1
  rw [hk] at heff
  cases heff

/-! ## Receipts -/

/-- The receipt signer of the sink does not fail. -/
def ReceiptSignerWorks (sink : FinalitySink R) : Prop :=
  sink.receiptAuthenticator.SignsCanon ∧ hasSurrogate sink.receiptAuthenticator.key_id = false

/-- The receipt carries the effect reference and the candidate digest of record `n`. -/
def ReceiptFor (s : State R) (receipt : SinkReceipt) (n : Nat) : Prop :=
  ∃ r, s.stores.effector.records[n]? = some r ∧
    receipt.effect_reference = some r.effect_reference ∧
    receipt.candidate_digest = r.candidate_digest

/-- A returned receipt is for the record its call made. -/
theorem Inv.receiptFor {s : State R} (hinv : Inv s) {i : Nat} {k : Call R} {receipt : SinkReceipt}
    (hi : s.calls[i]? = some k) (hk : k.phase = .returned receipt) :
    ∃ n r, MadeBy s n r i k ∧ ReceiptFor s receipt n := by
  have hok := hinv.calls k (List.mem_of_getElem? hi)
  simp only [CallOk, hk] at hok
  obtain ⟨d, ref, hr⟩ := hok
  have heff : k.phase.effect = some ref := by
    rw [hk]
    exact hr.effect_reference
  obtain ⟨n, r, hmade, rfl⟩ := hinv.records.madeBy_of_effect hi heff
  have hdigest := (hinv.records.of_madeBy hmade).2
  exact ⟨n, r, hmade, r, hmade.record, hr.effect_reference,
    Except.ok.inj (hr.candidate_digest.symm.trans hdigest)⟩

/-- A receipt is for one record. -/
theorem Inv.receiptFor_unique {s : State R} (hinv : Inv s) (hsha : ShaInjective R)
    {receipt : SinkReceipt} {n m : Nat} (h : ReceiptFor s receipt n)
    (h' : ReceiptFor s receipt m) : n = m := by
  obtain ⟨r, hr, href, -⟩ := h
  obtain ⟨r', hr', href', -⟩ := h'
  exact hinv.records.reference_inj hsha hr hr' (Option.some.inj (href.symm.trans href'))

/-- With a signer that does not fail and a time that can be written, a committed call gets its
receipt. -/
theorem exists_receipt_of_committed {k : Call R} (hok : CallOk k) {d ref : PyStr}
    (hk : k.phase = .committed d ref) (hsign : ReceiptSignerWorks k.sink)
    (hnow : printsInt k.now = true) :
    ∃ receipt, k.sink.issueReceipt k.candidate k.cap d k.now (some ref) = .ok receipt := by
  simp only [CallOk, hk] at hok
  obtain ⟨⟨ev, st, hv⟩, href⟩ := hok
  exact exists_receipt hv hsign.1 hsign.2 hnow (canon_str.2 href)

/-- With a signer that does not fail, no call whose time can be written is left without its
receipt. -/
theorem not_unreceipted {k : Call R} (hok : CallOk k) (hsign : ReceiptSignerWorks k.sink)
    (hnow : printsInt k.now = true) {ref : PyStr} {e : PyErr} : k.phase ≠ .unreceipted ref e := by
  intro hk
  simp only [CallOk, hk] at hok
  obtain ⟨d, ⟨ev, st, hv⟩, href, he⟩ := hok
  obtain ⟨receipt, hreceipt⟩ := exists_receipt hv hsign.1 hsign.2 hnow
    (show Canon R (optStr (some ref)) from canon_str.2 href)
  rw [hreceipt] at he
  cases he

/-- **The call behind a record**, with signers that do not fail and times that can be written: it
has returned its receipt, or its next step returns it. -/
theorem Inv.receipted {s : State R} (hinv : Inv s) {n : Nat} {r : EffectRecord} {i : Nat}
    {k : Call R} (h : MadeBy s n r i k) (hsign : ReceiptSignerWorks k.sink)
    (hnow : printsInt k.now = true) :
    (∃ receipt, k.phase = .returned receipt ∧ ReceiptFor s receipt n) ∨
    ∃ d, k.phase = .committed d r.effect_reference ∧
      ∀ ev st, ∃ receipt, k.next ev st s.stores = some (.returned receipt, s.stores) := by
  have hok := hinv.calls k (List.mem_of_getElem? h.call)
  have heff := (hinv.records.of_madeBy h).1
  cases hk : k.phase with
  | returned receipt =>
    obtain ⟨m, r', hmade, hfor⟩ := hinv.receiptFor h.call hk
    obtain rfl := hinv.one_record h hmade rfl
    exact .inl ⟨receipt, rfl, hfor⟩
  | committed d ref =>
    rw [hk] at heff
    obtain rfl : ref = r.effect_reference := Option.some.inj heff
    obtain ⟨receipt, hreceipt⟩ := exists_receipt_of_committed hok hk hsign hnow
    exact .inr ⟨d, rfl, fun ev st => ⟨receipt, by simp only [Call.next, hk, hreceipt]⟩⟩
  | unreceipted ref e => exact absurd hk (not_unreceipted hok hsign hnow)
  | started | verified | claimed | unverified | replayed | denied =>
    rw [hk] at heff
    cases heff

/-! ## The accounts -/

/-- The accounts of the calls of a run, in the state it reaches. -/
structure Accounts (s₀ : State R) (acts : List (Act R)) (s : State R) : Prop where
  /-- a capability id has at most one claim, and the ids claimed are those held -/
  one_claim : ∀ {i j id}, Holds s i id → Holds s j id → i = j
  claimed_iff : ∀ id, id ∈ s.stores.consumption_store.claims ↔ ∃ i, Holds s i id
  /-- a capability id has at most one record, and each record has a capability -/
  one_record : ∀ {n m r r' i j k k'}, MadeBy s n r i k → MadeBy s m r' j k' →
    k.cap.capability_id = k'.cap.capability_id → n = m
  exists_maker : ∀ {n : Nat} {r}, s.stores.effector.records[n]? = some r → ∃ i k, MadeBy s n r i k
  /-- the record was appended by a step before which the capability was claimed -/
  claimed_before : ∀ {n r i k}, MadeBy s n r i k → ∃ u v, StepOf s₀ acts s i u v ∧
    k.cap.capability_id ∈ u.stores.consumption_store.claims ∧
    u.stores.effector.records.length = n ∧
    v.stores.effector.records = u.stores.effector.records ++ [r]
  /-- a call that failed in `verify` or with `ReplayDetected` has added neither claim nor record -/
  no_trace : ∀ {i : Nat} {k e}, s.calls[i]? = some k →
    k.phase = .unverified e ∨ k.phase = .replayed e → ∀ {u v}, StepOf s₀ acts s i u v →
      v.stores.consumption_store = u.stores.consumption_store ∧
      v.stores.effector.records = u.stores.effector.records
  /-- a call that failed with `EffectDenied` holds its claim and has added no record, and its
  capability has none after any further run -/
  denied : ∀ {i : Nat} {k e}, s.calls[i]? = some k → k.phase = .denied e →
    Holds s i k.cap.capability_id ∧
    (∀ {u v}, StepOf s₀ acts s i u v →
      v.stores.effector.records = u.stores.effector.records) ∧
    ∀ {more s'}, Run Step s more s' → ∀ {n r j k'}, MadeBy s' n r j k' →
      k'.cap.capability_id ≠ k.cap.capability_id
  /-- a returned receipt is for exactly one record -/
  receipt_record : ∀ {i : Nat} {k receipt}, s.calls[i]? = some k → k.phase = .returned receipt →
    ∃! n, ReceiptFor s receipt n
  /-- receipts of different calls are for different records -/
  receipt_inj : ∀ {i j n : Nat} {k k' receipt receipt'}, s.calls[i]? = some k →
    k.phase = .returned receipt → s.calls[j]? = some k' → k'.phase = .returned receipt' →
    ReceiptFor s receipt n → ReceiptFor s receipt' n → i = j
  /-- with signers that do not fail and times that can be written, each record has its receipt,
  once its call has finished -/
  record_receipt : (∀ k ∈ s.calls, ReceiptSignerWorks k.sink) →
    (∀ k ∈ s.calls, printsInt k.now = true) → ∀ {n r i k}, MadeBy s n r i k →
    (∃ receipt, k.phase = .returned receipt ∧ ReceiptFor s receipt n) ∨
    ∃ d, k.phase = .committed d r.effect_reference ∧
      ∀ ev st, ∃ receipt, k.next ev st s.stores = some (.returned receipt, s.stores)

/-- **Single use under any interleaving**, with the accounts of every call. -/
theorem single_use (hsha : ShaInjective R) {s₀ s : State R} {acts : List (Act R)} (h0 : s₀.Empty)
    (hrun : Run Step s₀ acts s) : Accounts s₀ acts s := by
  have hinv := inv_of_run h0 hrun
  exact
    { one_claim := hinv.claims.unique
      claimed_iff := hinv.claims.claimed_iff
      one_record := hinv.one_record
      exists_maker := hinv.records.exists_madeBy
      claimed_before := exists_commit h0 hrun
      no_trace := fun {i k e} hi hk u v hstep => by
        have hholds : k.phase.holds = false := by
          rcases hk with hk | hk <;> rw [hk] <;> rfl
        have heff : k.phase.effect = none := by
          rcases hk with hk | hk <;> rw [hk] <;> rfl
        exact ⟨hstep.claims_eq hi hholds, hstep.records_eq hi heff⟩
      denied := fun {i k e} hi hk => by
        refine ⟨⟨k, hi, by rw [hk]; rfl, rfl⟩, fun hstep => hstep.records_eq hi (by rw [hk]; rfl),
          fun hmore => ?_⟩
        obtain ⟨k', hk', hlater⟩ := later_run hmore hi
        obtain rfl := hlater.ended (by rw [hk]; rfl)
        exact (inv_of_run h0 (hrun.append hmore)).no_record hk' hk
      receipt_record := fun hi hk => by
        obtain ⟨n, r, -, hfor⟩ := hinv.receiptFor hi hk
        exact ⟨n, hfor, fun m hm => hinv.receiptFor_unique hsha hm hfor⟩
      receipt_inj := fun hi hk hj hk' hfor hfor' => by
        obtain ⟨n, r, hmade, hn⟩ := hinv.receiptFor hi hk
        obtain ⟨m, r', hmade', hm⟩ := hinv.receiptFor hj hk'
        obtain rfl := hinv.receiptFor_unique hsha hfor hn
        obtain rfl := hinv.receiptFor_unique hsha hfor' hm
        exact Option.some.inj (hmade.maker.symm.trans hmade'.maker)
      record_receipt := fun hsign hnow {n r i k} hmade =>
        hinv.receipted hmade (hsign k (List.mem_of_getElem? hmade.call))
          (hnow k (List.mem_of_getElem? hmade.call)) }

/-- **A race**: of two calls of one verified capability that overlap, the one that claims first
returns a receipt, the other is told of the replay, and one record is made. -/
theorem race {sink : FinalitySink R} {ev : EvidenceStore R} {st : ProtectedState}
    {stores : EffectStores} {c : CandidateAct} {cap : Capability} {now : Int}
    {proof : Option PresentationProof} {d : PyStr} (hv : Verified sink ev st c cap now proof d)
    (hfresh : cap.capability_id ∉ stores.consumption_store.claims)
    (hhandle : sink.effect_handle = stores.effector.marker)
    (hfail : stores.effector.fail_next = false)
    (hchannel : hasSurrogate stores.effector.channel = false)
    (hordinal : printsInt stores.effector.records.length = true)
    (hsign : ReceiptSignerWorks sink) (hnow : printsInt now = true) :
    ∃ s message receipt record, Run Step ⟨stores, [], []⟩
        [.start sink c cap now proof, .start sink c cap now proof, .advance 0 ev st,
          .advance 1 ev st, .advance 1 ev st, .advance 0 ev st, .advance 1 ev st, .advance 1 ev st]
        s ∧
      s.calls.map Call.phase = [.replayed (.replayDetected message), .returned receipt] ∧
      s.stores.effector.records = stores.effector.records ++ [record] := by
  obtain ⟨record, hrec⟩ :=
    GuardedEffector.exists_nextRecord (canon_of_sha256Hex hv.candidate_digest) hchannel hordinal
  have href := (inert_of_sha256Hex (GuardedEffector.nextRecord_ok hrec).2.2).hasSurrogate
  obtain ⟨receipt, hreceipt⟩ := exists_receipt hv hsign.1 hsign.2 hnow
    (show Canon R (optStr (some record.effect_reference)) from canon_str.2 href)
  let call (p : Phase) : Call R := ⟨sink, c, cap, now, proof, p⟩
  let claims := stores.consumption_store.claims.insert cap.capability_id
    (sink.context.sink_id, sink.context.boundary_id, cap.nonce, now)
  let message := py "capability already consumed"
  let effector := { stores.effector with records := stores.effector.records ++ [record] }
  have hverify : ∀ stores', (call .started).next ev st stores' = some (.verified d, stores') :=
    fun stores' => by simp only [Call.next, call, verify_ok.2 hv]
  have hclaim : (call (.verified d)).next ev st stores =
      some (.claimed d, ⟨⟨claims⟩, stores.effector⟩) := by
    simp only [Call.next, call, InMemoryConsumptionStore.claim_ok.2 ⟨hfresh, rfl⟩, claims]
  have hreplay : (call (.verified d)).next ev st ⟨⟨claims⟩, stores.effector⟩ =
      some (.replayed (.replayDetected message), ⟨⟨claims⟩, stores.effector⟩) := by
    simp only [Call.next, call, InMemoryConsumptionStore.claim, failIf, claims, message,
      AList.mem_insert, true_or, if_true, error_bind]
  have hcommit : (call (.claimed d)).next ev st ⟨⟨claims⟩, stores.effector⟩ =
      some (.committed d record.effect_reference, ⟨⟨claims⟩, effector⟩) := by
    simp only [Call.next, call, GuardedEffector.commit_ok.2 ⟨hhandle, hfail, hrec, rfl⟩, effector]
  have hreturn : (call (.committed d record.effect_reference)).next ev st ⟨⟨claims⟩, effector⟩ =
      some (.returned receipt, ⟨⟨claims⟩, effector⟩) := by
    simp only [Call.next, call, hreceipt]
  refine ⟨_, message, receipt, record, .cons .start (.cons .start (.cons
    (.advance (k := call .started) rfl (hverify _)) (.cons
    (.advance (k := call .started) rfl (hverify _)) (.cons
    (.advance (k := call (.verified d)) rfl hclaim) (.cons
    (.advance (k := call (.verified d)) rfl hreplay) (.cons
    (.advance (k := call (.claimed d)) rfl hcommit) (.single
    (.advance (k := call (.committed d record.effect_reference)) rfl hreturn)))))))), rfl, rfl⟩

/-- Two calls with one capability, interleaved: one effect, and one receipt for it. -/
theorem single_use_sample : ∃ cap ev st s,
    Run Step ⟨sampleWorld.effects, [], []⟩
      [.start sampleSink sampleCandidate cap 200 none,
        .start sampleSink sampleCandidate cap 200 none,
        .advance 0 ev st, .advance 1 ev st, .advance 1 ev st, .advance 0 ev st, .advance 1 ev st,
        .advance 1 ev st] s ∧
    s.stores.effector.records.length = 1 ∧
    (∃ k receipt, s.calls[1]? = some k ∧ k.phase = .returned receipt ∧
      ∃! n, ReceiptFor s receipt n) := by
  obtain ⟨cap, s', -, -, -, -, hv⟩ := sample_verified
  have hfresh : cap.capability_id ∉ sampleWorld.effects.consumption_store.claims :=
    AList.notMem_empty _
  obtain ⟨s, message, receipt, record, hrun, hphases, hrecs⟩ :=
    race hv hfresh rfl rfl rfl (by decide) ⟨HMACAuthenticator.signsCanon, rfl⟩ (by decide)
  have hacc := single_use sample_injective ⟨rfl, rfl, rfl, rfl⟩ hrun
  have hphase : s.calls[1]?.map Call.phase = some (.returned receipt) := by
    rw [← List.getElem?_map, hphases]
    rfl
  obtain ⟨k, hk, hkp⟩ := Option.map_eq_some_iff.1 hphase
  exact ⟨cap, _, _, s, hrun, by rw [hrecs]; rfl, k, receipt, hk, hkp, hacc.receipt_record hk hkp⟩

end Interleaving

end Finality
