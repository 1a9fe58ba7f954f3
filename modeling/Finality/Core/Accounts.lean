import Finality.Core.Interleaving

/-!
# Single use under any interleaving

In every state that interleaved calls can reach, the claims are those of the calls that hold one,
each of its own capability (`ClaimsInv`), the records are those of the calls that made one, in
order and under references of their own (`RecordsInv`), and each call stands where its checks and
its signer put it (`CallOk`). Each of the three is kept by every step, and `single_use` reads the
accounts of the calls off them.
-/

namespace Finality

open Checks FinalitySink Runs

namespace Interleaving

variable {R : Runtime}

/-- An element of a list with one more at the end. -/
theorem getElem?_concat_eq_some {α : Type} {xs : List α} {a b : α} {n : Nat} :
    (xs ++ [a])[n]? = some b ↔ xs[n]? = some b ∨ n = xs.length ∧ a = b := by
  rcases lt_trichotomy n xs.length with h | rfl | h
  · rw [List.getElem?_append_left h]
    simp [h.ne]
  · simp
  · have hnone : (xs ++ [a])[n]? = none :=
      List.getElem?_eq_none (by rw [List.length_append, List.length_singleton]; omega)
    simp [hnone, h.le, h.ne']

/-! ## The calls of a state -/

section
variable {s : State R} {i j : Nat} {k k' : Call R} {p : Phase} {stores : EffectStores}

/-- After a move, the calls are as before but for the one that moved. -/
theorem getElem?_move (hi : s.calls[i]? = some k) :
    (s.move i k p stores).calls[j]? =
      if j = i then some { k with phase := p } else s.calls[j]? := by
  obtain ⟨hlt, -⟩ := List.getElem?_eq_some_iff.1 hi
  rw [State.move, List.getElem?_set]
  rcases eq_or_ne i j with rfl | hne
  · simp [hlt]
  · simp [hne, hne.symm]

@[simp] theorem stores_move : (s.move i k p stores).stores = stores := rfl

/-- Call `i` holds the claim of the capability id. -/
def Holds (s : State R) (i : Nat) (capability_id : PyStr) : Prop :=
  ∃ k, s.calls[i]? = some k ∧ k.phase.holds = true ∧ k.cap.capability_id = capability_id

/-- Call `i` is of the candidate that `r` records, and made an effect of that reference. -/
def Made (s : State R) (i : Nat) (r : EffectRecord) : Prop :=
  ∃ k, s.calls[i]? = some k ∧ k.phase.effect = some r.effect_reference ∧
    k.candidate.digest R = .ok r.candidate_digest

/-- A call that made an effect holds its claim. -/
theorem Phase.holds_of_effect {ref : PyStr} (h : p.effect = some ref) : p.holds = true := by
  cases p <;> first | rfl | cases h

/-- A move that takes and drops no claim changes no holder. -/
theorem holds_move (hi : s.calls[i]? = some k) (hp : p.holds = k.phase.holds) {id : PyStr} :
    Holds (s.move i k p stores) j id ↔ Holds s j id := by
  unfold Holds
  rw [getElem?_move hi]
  rcases eq_or_ne j i with rfl | hne
  · simp [hi, hp]
  · simp [hne]

/-- A move that takes a claim makes the call its holder. -/
theorem holds_move_of_claim (hi : s.calls[i]? = some k) (hk : k.phase.holds = false)
    (hp : p.holds = true) {id : PyStr} :
    Holds (s.move i k p stores) j id ↔ Holds s j id ∨ j = i ∧ k.cap.capability_id = id := by
  unfold Holds
  rw [getElem?_move hi]
  rcases eq_or_ne j i with rfl | hne
  · simp [hi, hk, hp]
  · simp [hne]

/-- A move keeps the effects made. -/
theorem Made.move (hi : s.calls[i]? = some k) {r : EffectRecord}
    (hp : k.phase.effect = p.effect ∨ k.phase.effect = none) (h : Made s j r) :
    Made (s.move i k p stores) j r := by
  obtain ⟨k', hj, heff, hd⟩ := h
  rcases eq_or_ne j i with rfl | hne
  · obtain rfl : k = k' := Option.some.inj (hi.symm.trans hj)
    rcases hp with hp | hp
    · exact ⟨_, (getElem?_move hi).trans (if_pos rfl), hp.symm.trans heff, hd⟩
    · rw [hp] at heff
      cases heff
  · exact ⟨k', (getElem?_move hi).trans ((if_neg hne).trans hj), heff, hd⟩

/-- A new call holds nothing. -/
theorem holds_start {sink : FinalitySink R} {c : CandidateAct} {cap : Capability} {now : Int}
    {proof : Option PresentationProof} {id : PyStr} :
    Holds { s with calls := s.calls ++ [⟨sink, c, cap, now, proof, .started⟩] } j id ↔
      Holds s j id := by
  simp only [Holds, getElem?_concat_eq_some]
  refine exists_congr fun k' => ⟨?_, fun ⟨hj, h⟩ => ⟨.inl hj, h⟩⟩
  rintro ⟨hj | ⟨-, rfl⟩, hh, hid⟩
  · exact ⟨hj, hh, hid⟩
  · cases hh

end

/-! ## Claims -/

/-- The ids claimed are those of the calls that hold a claim, each held by one call. -/
structure ClaimsInv (s : State R) : Prop where
  claimed_iff : ∀ id, id ∈ s.stores.consumption_store.claims ↔ ∃ i, Holds s i id
  unique : ∀ {i j id}, Holds s i id → Holds s j id → i = j

/-- Nothing is claimed at the start. -/
theorem claimsInv_of_empty {s : State R} (h : s.Empty) : ClaimsInv s := by
  have hnone : ∀ {i id}, ¬ Holds s i id := by
    rintro i id ⟨k, hk, -⟩
    simp [h.calls] at hk
  exact ⟨fun id => by simp [h.claims, hnone], fun hi => absurd hi hnone⟩

/-- **Every step keeps the account of the claims.** -/
theorem ClaimsInv.step {s s' : State R} {act : Act R} (hinv : ClaimsInv s) (h : Step s act s') :
    ClaimsInv s' := by
  cases h with
  | start =>
    refine ⟨fun id => ?_, fun hi hj => ?_⟩
    · simp only [holds_start]
      exact hinv.claimed_iff id
    · exact hinv.unique (holds_start.1 hi) (holds_start.1 hj)
  | failNext => exact ⟨hinv.claimed_iff, hinv.unique⟩
  | @advance i k p stores ev st hi h =>
    rcases (moves h).claims_cases with ⟨hp, hstore⟩ | ⟨hp, hk, hfree, v, hstore, -⟩
    · refine ⟨fun id => ?_, fun hj hj' => ?_⟩
      · simp only [holds_move hi hp, stores_move, hstore]
        exact hinv.claimed_iff id
      · exact hinv.unique ((holds_move hi hp).1 hj) ((holds_move hi hp).1 hj')
    · -- the id was free, so no call held it before
      have hnot : ∀ j, ¬ Holds s j k.cap.capability_id := fun j hj =>
        hfree ((hinv.claimed_iff _).2 ⟨j, hj⟩)
      refine ⟨fun id => ?_, fun hj hj' => ?_⟩
      · simp only [holds_move_of_claim hi hk hp, stores_move, hstore, AList.mem_insert,
          hinv.claimed_iff, exists_or, exists_eq_left]
        rw [or_comm, @eq_comm _ id]
      · rcases (holds_move_of_claim hi hk hp).1 hj with hj | ⟨rfl, rfl⟩
        · rcases (holds_move_of_claim hi hk hp).1 hj' with hj' | ⟨-, rfl⟩
          · exact hinv.unique hj hj'
          · exact absurd hj (hnot _)
        · rcases (holds_move_of_claim hi hk hp).1 hj' with hj' | ⟨rfl, -⟩
          · exact absurd hj' (hnot _)
          · rfl

/-! ## Records -/

/-- Each record was made by a call of its own, which stands behind it in the history, and its
reference is the digest of its number. -/
structure RecordsInv (s : State R) : Prop where
  lengths : s.makers.length = s.stores.effector.records.length
  made : ∀ {n : Nat} {r i}, s.stores.effector.records[n]? = some r → s.makers[n]? = some i →
    Made s i r
  nodup : s.makers.Nodup
  maker : ∀ {i : Nat} {k ref}, s.calls[i]? = some k → k.phase.effect = some ref → i ∈ s.makers
  numbered : ∀ {n : Nat} {r}, s.stores.effector.records[n]? = some r → sha256Hex R (.ofEntries
    (GuardedEffector.referenceCore s.stores.effector.channel r.candidate_digest n)) =
      .ok r.effect_reference

/-- Nothing is recorded at the start. -/
theorem recordsInv_of_empty {s : State R} (h : s.Empty) : RecordsInv s where
  lengths := by simp [h.makers, h.records]
  made := by simp [h.records]
  nodup := by simp [h.makers]
  maker := by simp [h.calls]
  numbered := by simp [h.records]

/-- A call with no effect yet made no record. -/
theorem RecordsInv.not_maker {s : State R} (hinv : RecordsInv s) {i : Nat} {k : Call R}
    (hi : s.calls[i]? = some k) (hk : k.phase.effect = none) : i ∉ s.makers := by
  intro hmem
  obtain ⟨n, hn⟩ := List.mem_iff_getElem?.1 hmem
  obtain ⟨hlt, -⟩ := List.getElem?_eq_some_iff.1 hn
  obtain ⟨k', hk', heff, -⟩ :=
    hinv.made (List.getElem?_eq_getElem (hinv.lengths ▸ hlt)) hn
  obtain rfl : k = k' := Option.some.inj (hi.symm.trans hk')
  rw [hk] at heff
  cases heff

/-- **Every step keeps the account of the records.** -/
theorem RecordsInv.step {s s' : State R} {act : Act R} (hinv : RecordsInv s) (h : Step s act s') :
    RecordsInv s' := by
  cases h with
  | @start sink c cap now proof =>
    refine { hinv with made := fun hr hm => ?_, maker := fun hi heff => ?_ }
    · obtain ⟨k, hk, h⟩ := hinv.made hr hm
      exact ⟨k, getElem?_concat_eq_some.2 (.inl hk), h⟩
    · rcases getElem?_concat_eq_some.1 hi with hi | ⟨-, rfl⟩
      · exact hinv.maker hi heff
      · cases heff
  | failNext => exact ⟨hinv.lengths, hinv.made, hinv.nodup, hinv.maker, hinv.numbered⟩
  | @advance i k p stores ev st hi h =>
    obtain ⟨hchan, ⟨hp, hrec⟩ | ⟨-, hk, -, record, hnext, hp, hrec⟩⟩ := (moves h).records_cases
    · have hm : (s.move i k p stores).makers = s.makers := if_pos hp
      refine ⟨?_, fun hr hj => ?_, ?_, fun hj heff => ?_, fun hr => ?_⟩
      · rw [hm]
        exact hinv.lengths.trans (congrArg _ hrec.symm)
      · rw [hm] at hj
        exact (hinv.made (hrec ▸ hr) hj).move hi (.inl hp)
      · rw [hm]
        exact hinv.nodup
      · rw [getElem?_move hi] at hj
        rw [hm]
        split at hj
        · rename_i hji
          obtain rfl := Option.some.inj hj
          exact hji ▸ hinv.maker hi (hp.trans heff)
        · exact hinv.maker hj heff
      · show sha256Hex R
          (.ofEntries (GuardedEffector.referenceCore stores.effector.channel _ _)) = _
        rw [hchan]
        exact hinv.numbered (hrec ▸ hr)
    · obtain ⟨hdigest, -, href⟩ := GuardedEffector.nextRecord_ok hnext
      have hm : (s.move i k p stores).makers = s.makers ++ [i] :=
        if_neg (by rw [hk, hp]; exact nofun)
      have hnew : Made (s.move i k p stores) i record :=
        ⟨_, (getElem?_move hi).trans (if_pos rfl), hp, hdigest⟩
      refine ⟨?_, fun hr hj => ?_, ?_, fun hj heff => ?_, fun hr => ?_⟩
      · rw [hm, stores_move, hrec, List.length_append, List.length_append, hinv.lengths]
        rfl
      · rw [hm] at hj
        rw [stores_move, hrec] at hr
        rcases getElem?_concat_eq_some.1 hr with hr | ⟨hn, rfl⟩
        · rcases getElem?_concat_eq_some.1 hj with hj | ⟨hn, -⟩
          · exact (hinv.made hr hj).move hi (.inr hk)
          · obtain ⟨hlt, -⟩ := List.getElem?_eq_some_iff.1 hr
            have := hinv.lengths
            omega
        · rcases getElem?_concat_eq_some.1 hj with hj | ⟨-, rfl⟩
          · obtain ⟨hlt, -⟩ := List.getElem?_eq_some_iff.1 hj
            have := hinv.lengths
            omega
          · exact hnew
      · rw [hm, List.nodup_append]
        refine ⟨hinv.nodup, List.nodup_singleton i, ?_⟩
        intro a ha b hb hab
        exact hinv.not_maker hi hk (List.mem_singleton.1 hb ▸ hab ▸ ha)
      · rw [getElem?_move hi] at hj
        rw [hm, List.mem_append, List.mem_singleton]
        split at hj
        · rename_i hji
          exact .inr hji
        · exact .inl (hinv.maker hj heff)
      · show sha256Hex R
          (.ofEntries (GuardedEffector.referenceCore stores.effector.channel _ _)) = _
        rw [stores_move, hrec] at hr
        rw [hchan]
        rcases getElem?_concat_eq_some.1 hr with hr | ⟨rfl, rfl⟩
        · exact hinv.numbered hr
        · exact href

/-- **References are given once**: they number the records. -/
theorem RecordsInv.reference_inj {s : State R} (hinv : RecordsInv s) (hsha : ShaInjective R)
    {n m : Nat} {r r' : EffectRecord} (hn : s.stores.effector.records[n]? = some r)
    (hm : s.stores.effector.records[m]? = some r') (h : r.effect_reference = r'.effect_reference) :
    n = m := by
  have hd := hinv.numbered hm
  rw [← h] at hd
  have hv := (eqv_of_sha256Hex hsha (hinv.numbered hn) hd).values rfl
  simp only [GuardedEffector.referenceCore, List.map_cons, List.forall₂_cons, eqv_int] at hv
  exact_mod_cast hv.2.2.1.1

/-! ## Calls -/

/-- What stands behind the phase of a call. -/
def CallOk (k : Call R) : Prop :=
  let Cleared (d : PyStr) := ∃ ev st,
    Verified k.sink ev st k.candidate k.cap k.now k.presentation_proof d
  match k.phase with
  | .started => True
  | .verified d | .claimed d => Cleared d
  | .committed d ref => Cleared d ∧ hasSurrogate ref = false
  | .returned receipt => ∃ d ref, ReceiptIssued k.sink k.candidate k.cap d k.now (some ref) receipt
  | .unverified e => ∃ ev st,
      k.sink.verify ev st k.candidate k.cap k.now k.presentation_proof = .error e
  | .replayed e => ∃ message, e = .replayDetected message
  | .denied e => ∃ message, e = .effectDenied message
  | .unreceipted ref e => ∃ d, Cleared d ∧ hasSurrogate ref = false ∧
      k.sink.issueReceipt k.candidate k.cap d k.now (some ref) = .error e

/-- A call that moves stays in order. -/
theorem Moves.callOk {k : Call R} {ev : EvidenceStore R} {st : ProtectedState}
    {stores stores' : EffectStores} {p : Phase} (h : Moves k ev st stores p stores')
    (hk : CallOk k) : CallOk { k with phase := p } := by
  cases h with
  | unverified _ hv => exact ⟨ev, st, hv⟩
  | verified _ hv => exact ⟨ev, st, hv⟩
  | replayed => exact ⟨_, rfl⟩
  | claimed hp =>
    simp only [CallOk, hp] at hk
    exact hk
  | denied => exact ⟨_, rfl⟩
  | committed hp hnext =>
    simp only [CallOk, hp] at hk
    exact ⟨hk, (inert_of_sha256Hex (GuardedEffector.nextRecord_ok hnext).2.2).hasSurrogate⟩
  | unreceipted hp he =>
    simp only [CallOk, hp] at hk
    exact ⟨_, hk.1, hk.2, he⟩
  | returned _ hr => exact ⟨_, _, hr⟩

/-- Each call stands where its checks and its signer put it. -/
theorem callOk_step {s s' : State R} {act : Act R} (hinv : ∀ k ∈ s.calls, CallOk k)
    (h : Step s act s') : ∀ k ∈ s'.calls, CallOk k := by
  cases h with
  | start =>
    intro k hk
    rcases List.mem_append.1 hk with hk | hk
    · exact hinv k hk
    · rw [List.mem_singleton.1 hk]
      trivial
  | failNext => exact hinv
  | advance hi h =>
    intro k' hk'
    rcases List.mem_or_eq_of_mem_set hk' with hk' | rfl
    · exact hinv k' hk'
    · exact (moves h).callOk (hinv _ (List.mem_of_getElem? hi))

end Interleaving

end Finality
