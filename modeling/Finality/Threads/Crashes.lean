import Finality.Core.Completeness
import Finality.Threads.Durable

/-!
# What a crash can and cannot do

The claim is consumed before the effect, and the consumption is durable. So however processes are
lost and start again, a capability makes one effect at most, and the row of its id is in the table
before the effect is made. The price is the residual `consumed / no effect`: a process that holds
its claim (`Holding`) can be lost before the effect (`exists_lost_claim`), and then the capability
makes none, since no retry gets past the durable store, not even one that was on its way at the
time (`crash_safety`).
-/

namespace Finality

open Checks ProtectedAuthority FinalitySink Runs Transactions

namespace Durable

section
variable {P : Type _} [DecidableEq P] {R : Runtime} {s₀ s u : State P R}
  {acts acts' : List (Act P R)}

/-- Record `n`, which is `r`, was made by the call `i`, which is `k`. -/
structure MadeBy (s : State P R) (n : Nat) (r : EffectRecord) (i : Nat)
    (k : Interleaving.Call R) : Prop where
  record : s.effector.records[n]? = some r
  call : s.calls[i]? = some k
  reference : k.phase.effect = some r.effect_reference
  digest : k.candidate.digest R = .ok r.candidate_digest
  consumed : Consumed s.store.db k.cap.capability_id

omit [DecidableEq P] in
/-- A call that made an effect is abstractly the same. -/
theorem Abstracts.eq_of_effect {t : Interleaving.State R} (h : Abstracts s t) {i : Nat}
    {k : Interleaving.Call R} (hi : s.calls[i]? = some k) {ref : PyStr}
    (heff : k.phase.effect = some ref) : t.calls[i]? = some k := by
  obtain ⟨k', hi'⟩ := h.exists_call hi
  rcases h.calls hi hi' with rfl | ⟨d, hd, -⟩
  · exact hi'
  · rw [hd] at heff
    cases heff

omit [DecidableEq P] in
/-- And the other way round. -/
theorem Abstracts.eq_of_abstract_effect {t : Interleaving.State R} (h : Abstracts s t) {i : Nat}
    {k : Interleaving.Call R} (hi : t.calls[i]? = some k) {ref : PyStr}
    (heff : k.phase.effect = some ref) : s.calls[i]? = some k := by
  have hlt := (List.getElem?_eq_some_iff.1 hi).1
  rw [h.length] at hlt
  have hi' := List.getElem?_eq_getElem hlt
  rcases h.calls hi' hi with rfl | ⟨d, -, rfl⟩
  · exact hi'
  · cases heff

/-- **A call that has ended, or that no process is in, never moves again.** -/
theorem calls_of_stopped (hrun : Run Step u acts s) {i : Nat} {k : Interleaving.Call R}
    (hi : u.calls[i]? = some k) (hstop : ∀ p, u.running p = some i → k.phase.result.isSome) :
    s.calls[i]? = some k := by
  refine (hrun.invariant (fun s => s.calls[i]? = some k ∧
    ∀ p, s.running p = some i → k.phase.result.isSome) ⟨hi, hstop⟩ ?_).1
  rintro s act s' ⟨hi, hstop⟩ hs
  have hleave : ∀ p q, Function.update s.running p none q = some i → k.phase.result.isSome :=
    fun p q hq => hstop q (running_leave hq).2
  -- a process that takes a step of a call is in one that has not ended
  have hset : ∀ {p j kj q}, s.running p = some j → s.calls[j]? = some kj →
      kj.phase.result = none → (s.calls.set j q)[i]? = some k := by
    intro p j kj q hp hj hkj
    rcases eq_or_ne j i with rfl | hne
    · obtain rfl := Option.some.inj (hi.symm.trans hj)
      have hended := hstop p hp
      rw [hkj] at hended
      cases hended
    · rw [List.getElem?_set_ne hne]
      exact hi
  cases hs with
  | @start p =>
    refine ⟨Interleaving.getElem?_concat_eq_some.2 (.inl hi), fun q hq => ?_⟩
    rcases eq_or_ne q p with rfl | hne
    · obtain rfl : s.calls.length = i := by simpa using hq
      simp at hi
    · exact hstop q ((Function.update_of_ne hne ..).symm.trans hq)
  | advance hp hj _ hnext => exact ⟨hset hp hj (Interleaving.moves hnext).not_ended, hstop⟩
  | close hp hj hk => exact ⟨hset hp hj (by rw [hk]; rfl), hstop⟩
  | claim | statement | timeout | failNext => exact ⟨hi, hstop⟩
  | abandon | finish | crash => exact ⟨hi, hleave _⟩

omit [DecidableEq P] in
/-- The call that abstractly made a record made it. -/
theorem madeBy_of_abstract {t : Interleaving.State R} (h : Abstracts s t)
    (hinv : Interleaving.Inv t) {n : Nat} {r : EffectRecord} {i : Nat} {k : Interleaving.Call R}
    (hmade : Interleaving.MadeBy t n r i k) : MadeBy s n r i k := by
  obtain ⟨heff, hdigest⟩ := hinv.records.of_madeBy hmade
  exact
    { record := h.effector ▸ hmade.record
      call := h.eq_of_abstract_effect hmade.call heff
      reference := heff
      digest := hdigest
      consumed := (h.claims _).2 ((hinv.claims.claimed_iff _).2
        ⟨i, hinv.records.holds_of_madeBy hmade⟩) }

omit [DecidableEq P] in
/-- A call that made a record holds its claim abstractly. -/
theorem MadeBy.holds {t : Interleaving.State R} (h : Abstracts s t) {n : Nat} {r : EffectRecord}
    {i : Nat} {k : Interleaving.Call R} (hmade : MadeBy s n r i k) :
    Interleaving.Holds t i k.cap.capability_id :=
  ⟨k, h.eq_of_effect hmade.call hmade.reference,
    Interleaving.Phase.holds_of_effect hmade.reference, rfl⟩

/-! ## Claims that are held -/

/-- The process `p` has committed the claim of its call, which is `k`, and has not come to the
effect: its claim is about to return, or has returned. -/
def Holding (s : State P R) (p : P) (k : Interleaving.Call R) : Prop :=
  s.store.phase p = .closing (.claim (claimOf k)) .returned ∨ ∃ d, k.phase = .claimed d

omit [DecidableEq P] in
/-- A call that is abstractly ahead of itself is one whose process holds its claim. -/
theorem Abstracts.closing_of_ahead {t : Interleaving.State R} (h : Abstracts s t) {p : P} {i : Nat}
    {k : Interleaving.Call R} {d : PyStr} (hp : s.running p = some i) (hi : s.calls[i]? = some k)
    (hk : k.phase = .verified d) (hi' : t.calls[i]? = some { k with phase := .claimed d }) :
    s.store.phase p = .closing (.claim (claimOf k)) .returned := by
  have hne : ({ k with phase := .claimed d } : Interleaving.Call R) ≠ k := by
    intro heq
    have hphase := congrArg Interleaving.Call.phase heq
    rw [hk] at hphase
    cases hphase
  have hin := h.running hp hi hi'
  unfold InClaim at hin
  split at hin
  case h_8 hphase =>
    obtain ⟨rfl, -⟩ := hin
    exact hphase
  case h_1 => exact absurd hin hne
  case h_9 | h_10 => exact hin.elim
  all_goals exact absurd hin.2.2 hne

omit [DecidableEq P] in
/-- **A process that holds its claim** is in the one call that holds it abstractly, and that has
made no effect. -/
theorem Holding.holds {t : Interleaving.State R} (h : Abstracts s t) {p : P} {i : Nat}
    {k : Interleaving.Call R} (hp : s.running p = some i) (hi : s.calls[i]? = some k)
    (hold : Holding s p k) :
    Interleaving.Holds t i k.cap.capability_id ∧ k.phase.effect = none := by
  rcases hold with hphase | ⟨d, hd⟩
  · obtain ⟨k', hi'⟩ := h.exists_call hi
    have hin := h.running hp hi hi'
    rw [hphase] at hin
    obtain ⟨-, d, hd, rfl⟩ := hin
    exact ⟨⟨_, hi', rfl, rfl⟩, by rw [hd]; rfl⟩
  · obtain ⟨-, hi'⟩ := h.in_step hp hi fun d' hd' => by cases hd.symm.trans hd'
    exact ⟨⟨k, hi', by rw [hd]; rfl, rfl⟩, by rw [hd]; rfl⟩

/-- **A consumed capability whose claim no process holds stays without an effect.** -/
theorem MadeBy.ne_of_unheld {t t' : Interleaving.State R} {tacts : List (Interleaving.Act R)}
    (hu : Abstracts u t) (hinvu : Interleaving.Inv t) (hrun : Run Step u acts s)
    (htrun : Run Interleaving.Step t tacts t') (hs : Abstracts s t') (hinvs : Interleaving.Inv t')
    {capability_id : PyStr} (hconsumed : Consumed u.store.db capability_id)
    (hunheld : ∀ p i k, u.running p = some i → u.calls[i]? = some k →
      k.cap.capability_id = capability_id → ¬ Holding u p k)
    (hnone : ∀ n r i k, MadeBy u n r i k → k.cap.capability_id ≠ capability_id) {n : Nat}
    {r : EffectRecord} {i : Nat} {k : Interleaving.Call R} (hmade : MadeBy s n r i k) :
    k.cap.capability_id ≠ capability_id := by
  rintro rfl
  -- the call that holds the claim abstractly
  obtain ⟨j, kt, hj, hholds, hid⟩ :=
    (hinvu.claims.claimed_iff _).1 ((hu.claims _).1 hconsumed)
  have hlt := (List.getElem?_eq_some_iff.1 hj).1
  rw [hu.length] at hlt
  obtain ⟨ku, hju⟩ : ∃ ku, u.calls[j]? = some ku := ⟨_, List.getElem?_eq_getElem hlt⟩
  have hcap : ku.cap = kt.cap := by
    rcases hu.calls hju hj with rfl | ⟨d, -, rfl⟩ <;> rfl
  -- it made no effect, so it has ended or no process is in it
  have heffect : ku.phase.effect = none := by
    cases heff : ku.phase.effect with
    | none => rfl
    | some ref =>
      obtain ⟨m, r', hmade', -⟩ :=
        hinvu.records.madeBy_of_effect (hu.eq_of_effect hju heff) heff
      exact absurd (hcap ▸ hid) (hnone m r' j ku (madeBy_of_abstract hu hinvu hmade'))
  have hstop : ∀ p, u.running p = some j → ku.phase.result.isSome := by
    intro p hp
    have hnot := hunheld p j ku hp hju (hcap ▸ hid)
    rcases hu.calls hju hj with rfl | ⟨d, hd, rfl⟩
    · cases hphase : kt.phase with
      | denied | returned | unreceipted => rfl
      | claimed d => exact absurd (.inr ⟨d, hphase⟩) hnot
      | committed =>
        rw [hphase] at heffect
        cases heffect
      | started | verified | unverified | replayed =>
        rw [hphase] at hholds
        cases hholds
    · exact absurd (.inl (hu.closing_of_ahead hp hju hd hj)) hnot
  have hstill : s.calls[j]? = some ku := calls_of_stopped hrun hju hstop
  -- and it is the only one that can have made the effect
  obtain ⟨kt', hj', hlater⟩ := Interleaving.later_run htrun hj
  have hholds' : Interleaving.Holds t' j k.cap.capability_id :=
    ⟨kt', hj', hlater.holds hholds, by rw [hlater.same]; exact hid⟩
  obtain rfl : i = j := hinvs.claims.unique (hmade.holds hs) hholds'
  obtain rfl : k = ku := Option.some.inj (hmade.call.symm.trans hstill)
  cases heffect.symm.trans hmade.reference

/-- And it stays consumed. -/
theorem unheld_of_run {t : Interleaving.State R} {tacts : List (Interleaving.Act R)}
    (h0 : s₀.Empty) (hu : Abstracts u t) (htrun : Run Interleaving.Step s₀.abstract tacts t)
    {capability_id : PyStr} (hconsumed : Consumed u.store.db capability_id)
    (hunheld : ∀ p i k, u.running p = some i → u.calls[i]? = some k →
      k.cap.capability_id = capability_id → ¬ Holding u p k)
    (hnone : ∀ n r i k, MadeBy u n r i k → k.cap.capability_id ≠ capability_id)
    (hrun : Run Step u acts s) : Consumed s.store.db capability_id ∧
      ∀ n r i k, MadeBy s n r i k → k.cap.capability_id ≠ capability_id := by
  obtain ⟨tacts', t', htrun', hs⟩ := hu.run hrun
  have hinvu := Interleaving.inv_of_run h0.abstract htrun
  have hinvs := Interleaving.inv_of_run h0.abstract (htrun.append htrun')
  refine ⟨?_, fun n r i k hmade =>
    hmade.ne_of_unheld hu hinvu hrun htrun' hs hinvs hconsumed hunheld hnone⟩
  obtain ⟨j, kt, hj, hholds, hid⟩ := (hinvu.claims.claimed_iff _).1 ((hu.claims _).1 hconsumed)
  obtain ⟨kt', hj', hlater⟩ := Interleaving.later_run htrun' hj
  exact (hs.claims _).2 ((hinvs.claims.claimed_iff _).2
    ⟨j, kt', hj', hlater.holds hholds, by rw [hlater.same]; exact hid⟩)

/-- **After a loss** no process holds the claim, and it has made no effect. -/
theorem Holding.lost {v : State P R} {t : Interleaving.State R} (hu : Abstracts u t)
    (hinvu : Interleaving.Inv t) {p : P} {i : Nat} {k : Interleaving.Call R}
    (hp : u.running p = some i) (hi : u.calls[i]? = some k) (hold : Holding u p k)
    (hcrash : Step u (.crash p) v) :
    Consumed v.store.db k.cap.capability_id ∧
    (∀ q j k', v.running q = some j → v.calls[j]? = some k' →
      k'.cap.capability_id = k.cap.capability_id → ¬ Holding v q k') ∧
    ∀ n r j k', MadeBy v n r j k' → k'.cap.capability_id ≠ k.cap.capability_id := by
  obtain ⟨hholds, heffect⟩ := hold.holds hu hp hi
  cases hcrash with
  | crash hstore =>
  cases hstore with
  | crash =>
  refine ⟨?_, fun q j k' hq hj hid hold' => ?_, fun n r j k' hmade hid => ?_⟩
  · exact (consumed_congr (committed_discard ..)).2
      ((hu.claims _).2 ((hinvu.claims.claimed_iff _).2 ⟨i, hholds⟩))
  · obtain ⟨hne, hq⟩ := running_leave hq
    have hold' : Holding u q k' := by
      rw [Holding, SQLiteConsumptionStore.phase_move_of_ne _ hne] at hold'
      exact hold'
    obtain ⟨hholds', -⟩ := hold'.holds hu hq hj
    obtain rfl : j = i := hinvu.claims.unique (hid ▸ hholds') hholds
    exact hne (hu.one hq hp)
  · have hj := hu.eq_of_effect hmade.call hmade.reference
    have hholds' : Interleaving.Holds t j k.cap.capability_id :=
      ⟨k', hj, Interleaving.Phase.holds_of_effect hmade.reference, hid⟩
    obtain rfl : j = i := hinvu.claims.unique hholds' hholds
    obtain rfl : k = k' := Option.some.inj (hi.symm.trans hmade.call)
    cases heffect.symm.trans hmade.reference

/-- The statements of a process in the durable store are steps. -/
theorem run_statements {p : P} (n : Nat) {s : State P R} {store : SQLiteConsumptionStore.State P}
    (h : Run SQLiteConsumptionStore.Step s.store (.replicate n (.statement p)) store) :
    Run Step s (.replicate n (.statement p)) { s with store := store } := by
  induction n generalizing s with
  | zero =>
    obtain rfl := h.eq_of_nil
    exact .nil
  | succ n ih =>
    obtain ⟨store', hs, hrest⟩ := h.cons_inv
    exact .cons (.statement hs) (ih (s := { s with store := store' }) hrest)

/-- The process `p` has opened a connection for the claim of its call `i`, which is `k`. -/
structure Opened (s : State P R) (p : P) (i : Nat) (k : Interleaving.Call R) : Prop where
  running : s.running p = some i
  call : s.calls[i]? = some k
  verified : ∃ d, k.phase = .verified d
  opened : s.store.phase p = .opened (.claim (claimOf k))

/-- Two processes present one capability: both calls pass the checks of the sink and open their
connections. -/
theorem exists_opened_twice (h0 : s₀.Empty) {p q : P} (hne : q ≠ p) {sink : FinalitySink R}
    {ev : EvidenceStore R} {st : ProtectedState} {c : CandidateAct} {cap : Capability} {now : Int}
    {proof : Option PresentationProof} {d : PyStr}
    (hv : Verified sink ev st c cap now proof d) :
    ∃ acts s, Run Step s₀ acts s ∧ Opened s p 0 ⟨sink, c, cap, now, proof, .verified d⟩ ∧
      Opened s q 1 ⟨sink, c, cap, now, proof, .verified d⟩ ∧ s.store.db.committed = ∅ ∧
      s.store.db.writer = none ∧ s.effector.records = [] := by
  obtain ⟨store, effector, calls, running⟩ := s₀
  obtain ⟨rfl, hrecords, rfl, hrunning⟩ := h0
  let k (phase : Interleaving.Phase) : Interleaving.Call R := ⟨sink, c, cap, now, proof, phase⟩
  let a := claimOf (k (.verified d))
  let running' := Function.update (Function.update running p (some 0)) q (some 1)
  have hp : running' p = some 0 :=
    (Function.update_of_ne hne.symm ..).trans (Function.update_self ..)
  have hq : running' q = some 1 := Function.update_self ..
  have hstarted : ∀ d, (k .started).phase ≠ .verified d := fun d h => by cases h
  have hnext : (k .started).next ev st ⟨⟨∅⟩, effector⟩ =
      some (.verified d, ⟨⟨∅⟩, effector⟩) := by
    simp only [Interleaving.Call.next, k, verify_ok.2 hv]
  let st₀ : SQLiteConsumptionStore.State P := .init
  let st₁ := st₀.move p (.opened (.claim a)) st₀.db
  let st₂ := st₁.move q (.opened (.claim a)) st₁.db
  have hopen : SQLiteConsumptionStore.Step st₀ (.call p (.claim a)) st₁ := .call rfl
  have hopen' : SQLiteConsumptionStore.Step st₁ (.call q (.claim a)) st₂ :=
    .call (SQLiteConsumptionStore.phase_move_of_ne _ hne)
  have hrun : Run Step (⟨st₀, effector, [], running⟩ : State P R)
      [.start p sink c cap now proof, .start q sink c cap now proof, .advance p ev st,
        .advance q ev st, .claim p, .claim q]
      ⟨st₂, effector, [k (.verified d), k (.verified d)], running'⟩ := by
    refine .cons (.start (hrunning p)) (.cons (.start ?_) (.cons
      (.advance (i := 0) (k := k .started) hp rfl hstarted hnext) (.cons
      (.advance (i := 1) (k := k .started) hq rfl hstarted hnext) (.cons
      (.claim (i := 0) (k := k (.verified d)) hp rfl rfl hopen) (.single
      (.claim (i := 1) (k := k (.verified d)) hq rfl rfl hopen'))))))
    exact (Function.update_of_ne hne ..).trans (hrunning q)
  have hleft : st₂.phase p = .opened (.claim a) :=
    (SQLiteConsumptionStore.phase_move_of_ne _ hne.symm).trans
      (SQLiteConsumptionStore.phase_move_self _)
  exact ⟨_, _, hrun, ⟨hp, rfl, ⟨d, rfl⟩, hleft⟩,
    ⟨hq, rfl, ⟨d, rfl⟩, SQLiteConsumptionStore.phase_move_self _⟩, rfl, rfl, hrecords⟩

section
variable {i : Nat} {k : Interleaving.Call R} {p : P} {key : SQLiteConsumptionStore.Text}
  {row : SQLiteConsumptionStore.Row}

/-- A process that can write commits its claim, and is lost while it holds it. The others stand
where they stood. -/
theorem Opened.lost (h : Opened s p i k) (hfree : s.store.db.writer = none)
    (hbind : SQLiteConsumptionStore.bindClaim (claimOf k) = .ok (key, row))
    (hkey : key ∉ s.store.db.committed) :
    ∃ u v, Run Step s (.replicate 3 (.statement p)) u ∧ Step u (.crash p) v ∧
      u.running = s.running ∧ u.calls = s.calls ∧ Holding u p k ∧
      (∀ {q j k'}, q ≠ p → Opened s q j k' → Opened v q j k') ∧
      key ∈ v.store.db.committed ∧ v.store.db.writer = none ∧ v.effector = s.effector := by
  obtain ⟨db, hcommit, hcommitted, hfree'⟩ :=
    SQLiteConsumptionStore.exists_commit h.opened hfree hbind hkey
  have hdb : db.discard p = db := discard_of_free hfree'
  refine ⟨_, _, run_statements 3 hcommit, .crash .crash, rfl, rfl,
    .inl (SQLiteConsumptionStore.phase_move_self _), ?_, ?_, ?_, rfl⟩
  · intro q j k' hne hq
    exact ⟨(Function.update_of_ne hne ..).trans hq.running, hq.call, hq.verified,
      (SQLiteConsumptionStore.phase_move_of_ne _ hne).trans
        ((SQLiteConsumptionStore.phase_move_of_ne _ hne).trans hq.opened)⟩
  · change key ∈ (db.discard p).committed
    rw [hdb, hcommitted, AList.mem_insert]
    exact .inl rfl
  · change (db.discard p).writer = none
    rw [hdb, hfree']

/-- A process that can write is refused a claim that is in the table, and its call ends. -/
theorem Opened.replayed (h : Opened s p i k) (hfree : s.store.db.writer = none)
    (hbind : SQLiteConsumptionStore.bindClaim (claimOf k) = .ok (key, row))
    (hkey : key ∈ s.store.db.committed) :
    ∃ acts u, Run Step s acts u ∧ (∃ k' e, u.calls[i]? = some k' ∧ k'.phase = .replayed e) ∧
      u.effector = s.effector := by
  obtain ⟨db, hrefuse, -, -⟩ := SQLiteConsumptionStore.exists_refusal h.opened hfree hbind hkey
  obtain ⟨d, hd⟩ := h.verified
  have hclose : Step ({ s with store := s.store.move p (.closing (.claim (claimOf k))
      SQLiteConsumptionStore.replayed) db } : State P R)
      (.close p SQLiteConsumptionStore.replayed) _ :=
    .close h.running h.call hd rfl (.close (SQLiteConsumptionStore.phase_move_self _))
  have hend := List.getElem?_set_self (a := { k with
    phase := .replayed (.replayDetected (py "capability already consumed")) })
    (List.getElem?_eq_some_iff.1 h.call).1
  exact ⟨_, _, (run_statements 3 hrefuse).snoc hclose, ⟨_, _, hend, rfl⟩, rfl⟩

end

/-- **The residual is there**: a process can be lost between its claim and its effect while another
presents the same capability, which is then consumed without an effect and refused to the other. -/
theorem exists_lost_claim (h0 : s₀.Empty) {p q : P} (hne : q ≠ p) {sink : FinalitySink R}
    {ev : EvidenceStore R} {st : ProtectedState} {c : CandidateAct} {cap : Capability} {now : Int}
    {proof : Option PresentationProof} {d : PyStr} (hv : Verified sink ev st c cap now proof d)
    {key : SQLiteConsumptionStore.Text} {row : SQLiteConsumptionStore.Row}
    (hbind : SQLiteConsumptionStore.bindClaim (claimOf ⟨sink, c, cap, now, proof, .verified d⟩) =
      .ok (key, row)) :
    ∃ acts u v acts' s k, Run Step s₀ acts u ∧ Step u (.crash p) v ∧ Run Step v acts' s ∧
      u.running p = some 0 ∧ u.calls[0]? = some k ∧ k.cap = cap ∧ Holding u p k ∧
      u.running q = some 1 ∧ (∃ k', u.calls[1]? = some k' ∧ k'.cap = cap ∧
        k'.phase.result = none) ∧
      (∃ k' e, s.calls[1]? = some k' ∧ k'.phase = .replayed e) ∧ s.effector.records = [] := by
  obtain ⟨acts, r, hrun, hp, hq, hempty, hfree, hrecords⟩ := exists_opened_twice h0 hne hv
  obtain ⟨u, v, hcommit, hcrash, hrunning, hcalls, hold, hothers, hkey, hfree', heffector⟩ :=
    hp.lost hfree hbind (by rw [hempty]; exact AList.notMem_empty key)
  obtain ⟨acts', s, hrest, hreplayed, heffector'⟩ := (hothers hne hq).replayed hfree' hbind hkey
  exact ⟨_, u, v, acts', s, _, hrun.append hcommit, hcrash, hrest, hrunning ▸ hp.running,
    hcalls ▸ hp.call, rfl, hold, hrunning ▸ hq.running, ⟨_, hcalls ▸ hq.call, rfl, rfl⟩, hreplayed,
    by rw [heffector', heffector, hrecords]⟩

end

/-- Two processes, a new database and the sample's effector, before any call. -/
def sampleDeployment : State Bool sampleRuntime :=
  ⟨.init, sampleWorld.effects.effector, [], fun _ => none⟩

/-- Nothing has happened in the sample deployment. -/
theorem sampleDeployment_empty : sampleDeployment.Empty := ⟨rfl, rfl, rfl, fun _ => rfl⟩

/-- The parameters that a call with a digest for its capability id binds. -/
theorem exists_bindClaim {a : SQLiteConsumptionStore.Claim}
    (hid : hasSurrogate a.capability_id = false) (hsink : hasSurrogate a.sink_id = false)
    (hboundary : hasSurrogate a.boundary_id = false) (hnonce : hasSurrogate a.nonce = false)
    (hnow : -2 ^ 63 ≤ a.now_ns ∧ a.now_ns < 2 ^ 63) :
    ∃ key row, SQLiteConsumptionStore.bindClaim a = .ok (key, row) := by
  have hbind : ∀ {t : PyStr}, hasSurrogate t = false →
      SQLiteConsumptionStore.bindText t = .ok (Utf8.utf8 (toText t)) := fun h => by
    rw [SQLiteConsumptionStore.bindText, h]
    rfl
  have hint : SQLiteConsumptionStore.bindInteger a.now_ns = .ok a.now_ns := if_pos hnow
  refine ⟨Utf8.utf8 (toText a.capability_id), ⟨Utf8.utf8 (toText a.sink_id),
    Utf8.utf8 (toText a.boundary_id), Utf8.utf8 (toText a.nonce), a.now_ns⟩, ?_⟩
  rw [SQLiteConsumptionStore.bindClaim, hbind hid, hbind hsink, hbind hboundary, hbind hnonce, hint]
  rfl

/-- The sample act's claim is lost before its effect, while the other process presents the
capability again. -/
theorem sample_lost_claim : ∃ acts u v acts' s k, Run Step sampleDeployment acts u ∧
    Step u (.crash false) v ∧ Run Step v acts' s ∧
    u.running false = some 0 ∧ u.calls[0]? = some k ∧ Holding u false k ∧
    u.running true = some 1 ∧ (∃ k', u.calls[1]? = some k' ∧ k'.cap = k.cap ∧
      k'.phase.result = none) ∧
    (∃ k' e, s.calls[1]? = some k' ∧ k'.phase = .replayed e) ∧ s.effector.records = [] := by
  obtain ⟨cap, s', t, ev, -, hauth, hv⟩ := sample_verified
  have hnonce : hasSurrogate cap.nonce = false := by
    rw [hauth.capability.nonce]
    rfl
  have hid := (inert_of_sha256Hex hauth.capability.capability_id).hasSurrogate
  have hnow : (-2 ^ 63 : Int) ≤ 200 ∧ (200 : Int) < 2 ^ 63 := by decide
  obtain ⟨key, row, hbind⟩ := exists_bindClaim (a := claimOf ⟨sampleSink, sampleCandidate, cap, 200,
    none, .verified cap.descriptor_digest⟩) hid rfl rfl hnonce hnow
  obtain ⟨acts, u, v, acts', s, k, hrun, hcrash, hrest, hp, hi, rfl, hold, hq, hretry, hreplayed,
    hrecords⟩ := exists_lost_claim sampleDeployment_empty (p := false) (q := true) (by decide) hv
      hbind
  exact ⟨acts, u, v, acts', s, k, hrun, hcrash, hrest, hp, hi, hold, hq, hretry, hreplayed,
    hrecords⟩

section
variable {P : Type _} [DecidableEq P] {R : Runtime} {s₀ s u : State P R}
  {acts acts' : List (Act P R)}

/-- **Refinement.** Whatever processes do, and whichever are lost, the effects are those, and the
rows of the table the claims, of interleaved calls over one in-memory store, and each call is where
it is there, but for a claim that was committed and has not returned. -/
theorem durable_refines (h0 : s₀.Empty) (hrun : Run Step s₀ acts s) :
    ∃ acts' t, Run Interleaving.Step s₀.abstract acts' t ∧ Abstracts s t :=
  (abstracts_of_empty h0).run hrun

end

/-- A process is lost before its effect, and the retry of another process, in flight meanwhile, is
refused. -/
theorem durable_refines_sample : ∃ acts acts' u v s tacts t, Run Step sampleDeployment acts u ∧
    Step u (.crash false) v ∧ Run Step v acts' s ∧
    (∃ k' e, s.calls[1]? = some k' ∧ k'.phase = .replayed e) ∧
    Run Interleaving.Step sampleDeployment.abstract tacts t ∧ Abstracts s t := by
  obtain ⟨acts, u, v, acts', s, k, hrun, hcrash, hrest, -, -, -, -, -, hreplayed, -⟩ :=
    sample_lost_claim
  obtain ⟨tacts, t, htrun, hs⟩ :=
    durable_refines sampleDeployment_empty (hrun.append (.cons hcrash hrest))
  exact ⟨acts, acts', u, v, s, tacts, t, hrun, hcrash, hrest, hreplayed, htrun, hs⟩

section
variable {P : Type _} [DecidableEq P] {R : Runtime} {s₀ s u : State P R}
  {acts acts' : List (Act P R)}

/-- **At most one effect, whatever is lost.** However processes take turns, are lost and start
again, each effect was made by a call whose capability the durable store had consumed, and a
capability makes one effect at most. One that is consumed while no process holds its claim makes
none from then on; and so a capability whose process is lost between its claim and its effect is
consumed for good and makes none, whatever calls present it then or later. -/
theorem crash_safety (hsha : ShaInjective R) (h0 : s₀.Empty) (hrun : Run Step s₀ acts u) :
    (∀ n r, u.effector.records[n]? = some r → ∃ i k, MadeBy u n r i k) ∧
    (∀ {n m r r' i j k k'}, MadeBy u n r i k → MadeBy u m r' j k' →
      k.cap.capability_id = k'.cap.capability_id → n = m) ∧
    (∀ {capability_id}, Consumed u.store.db capability_id →
      (∀ p i k, u.running p = some i → u.calls[i]? = some k →
        k.cap.capability_id = capability_id → ¬ Holding u p k) →
      (∀ n r i k, MadeBy u n r i k → k.cap.capability_id ≠ capability_id) →
      ∀ {acts' s}, Run Step u acts' s →
        ∀ n r i k, MadeBy s n r i k → k.cap.capability_id ≠ capability_id) ∧
    ∀ {p i k v}, u.running p = some i → u.calls[i]? = some k → Holding u p k →
      Step u (.crash p) v → ∀ {acts' s}, Run Step v acts' s →
        Consumed s.store.db k.cap.capability_id ∧
        ∀ n r j k', MadeBy s n r j k' → k'.cap.capability_id ≠ k.cap.capability_id := by
  obtain ⟨tacts, t, htrun, hu⟩ := (abstracts_of_empty h0).run hrun
  have hinvu := Interleaving.inv_of_run h0.abstract htrun
  refine ⟨fun n r hr => ?_, fun {n m r r' i j k k'} hmade hmade' hid => ?_,
    fun {_} hconsumed hunheld hnone {_ _} hrun' =>
      (unheld_of_run h0 hu htrun hconsumed hunheld hnone hrun').2,
    fun {p i k v} hp hi hold hcrash {_ _} hrun' => ?_⟩
  · have hn : t.stores.effector.records[n]? = some r := hu.effector ▸ hr
    obtain ⟨i, k, hmade⟩ := hinvu.records.exists_madeBy hn
    exact ⟨i, k, madeBy_of_abstract hu hinvu hmade⟩
  · obtain rfl : i = j := hinvu.claims.unique (hmade.holds hu) (hid ▸ hmade'.holds hu)
    obtain rfl : k = k' := Option.some.inj (hmade.call.symm.trans hmade'.call)
    have href := Option.some.inj (hmade.reference.symm.trans hmade'.reference)
    have hn : t.stores.effector.records[n]? = some r := hu.effector ▸ hmade.record
    have hm : t.stores.effector.records[m]? = some r' := hu.effector ▸ hmade'.record
    exact hinvu.records.reference_inj hsha hn hm href
  · obtain ⟨hconsumed, hunheld, hnone⟩ := hold.lost hu hinvu hp hi hcrash
    obtain ⟨tacts', tv, htv, hv⟩ := hu.step hcrash
    exact unheld_of_run h0 hv (htrun.append htv) hconsumed hunheld hnone hrun'

end

/-- A process that holds its claim is lost while another one presents the same capability: there is
no effect any more. -/
theorem crash_safety_sample : ∃ acts u v k, Run Step sampleDeployment acts u ∧
    u.running false = some 0 ∧ u.calls[0]? = some k ∧ Holding u false k ∧
    u.running true = some 1 ∧ (∃ k', u.calls[1]? = some k' ∧ k'.cap = k.cap ∧
      k'.phase.result = none) ∧
    Step u (.crash false) v ∧ ∀ acts' s, Run Step v acts' s →
      Consumed s.store.db k.cap.capability_id ∧
      ∀ n r j k', MadeBy s n r j k' → k'.cap.capability_id ≠ k.cap.capability_id := by
  obtain ⟨acts, u, v, -, -, k, hrun, hcrash, -, hp, hi, hold, hq, hretry, -, -⟩ := sample_lost_claim
  exact ⟨acts, u, v, k, hrun, hp, hi, hold, hq, hretry, hcrash, fun acts' s hrun' =>
    (crash_safety sample_injective sampleDeployment_empty hrun).2.2.2 hp hi hold hcrash hrun'⟩

end Durable

end Finality
