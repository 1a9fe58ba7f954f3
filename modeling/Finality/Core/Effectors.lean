import Finality.Core.Models

/-!
# Single-use claims and the effect boundary (`state.py`, `effectors.py`)

`InMemoryConsumptionStore` burns capability ids, and `GuardedEffector` appends an effect record
for each commit made with the marker it handed to its sinks.
-/

namespace Finality

open Checks

/-- `InMemoryConsumptionStore` -/
structure InMemoryConsumptionStore where
  claims : PyDict (PyStr × PyStr × PyStr × Int)

namespace InMemoryConsumptionStore

/-- `InMemoryConsumptionStore.claim` -/
def claim (store : InMemoryConsumptionStore) (capability_id sink_id boundary_id nonce : PyStr)
    (now_ns : Int) : Except PyErr InMemoryConsumptionStore := do
  failIf (capability_id ∈ store.claims) (.replayDetected (py "capability already consumed"))
  .ok ⟨store.claims.insert capability_id (sink_id, boundary_id, nonce, now_ns)⟩

/-- `InMemoryConsumptionStore.is_claimed` -/
def isClaimed (store : InMemoryConsumptionStore) (capability_id : PyStr) : Bool :=
  (store.claims.lookup capability_id).isSome

/-- **When a claim succeeds**, and what the store becomes. -/
theorem claim_ok {store store' : InMemoryConsumptionStore} {i sink_id boundary_id nonce : PyStr}
    {now : Int} : store.claim i sink_id boundary_id nonce now = .ok store' ↔
      i ∉ store.claims ∧ store' = ⟨store.claims.insert i (sink_id, boundary_id, nonce, now)⟩ := by
  simp only [claim, bind_eq_ok, failIf_eq_ok, exists_unit, Except.ok.injEq, @eq_comm _ _ store']

/-- A claim is refused only for an id that was claimed before. -/
theorem claim_error {store : InMemoryConsumptionStore} {i sink_id boundary_id nonce : PyStr}
    {now : Int} {e : PyErr} (h : store.claim i sink_id boundary_id nonce now = .error e) :
    i ∈ store.claims ∧ e = .replayDetected (py "capability already consumed") := by
  by_cases hi : i ∈ store.claims
  · simp only [claim, failIf, hi, if_true, error_bind, Except.error.injEq] at h
    exact ⟨hi, h.symm⟩
  · simp [claim, failIf, hi] at h

end InMemoryConsumptionStore

/-- `EffectRecord` -/
structure EffectRecord where
  channel : PyStr
  candidate_digest : PyStr
  effect_reference : PyStr
  payload : PyVal

/-- `GuardedEffector`. A marker is an object compared by identity, so a number here. -/
structure GuardedEffector where
  channel : PyStr
  marker : Nat
  records : List EffectRecord
  fail_next : Bool

namespace GuardedEffector

/-- `bind_for_sink`: the handle is the marker. -/
def bindForSink (eff : GuardedEffector) : Nat := eff.marker

/-- `direct_effect` -/
def directEffect (eff : GuardedEffector) (_candidate : CandidateAct) : Except PyErr EffectRecord :=
  .error (.effectDenied (eff.channel ++ py ": direct effect path denied; Finality Sink required"))

/-- The material of an effect reference. -/
def referenceCore (channel candidate_digest : PyStr) (ordinal : Int) : List (String × PyVal) :=
  [("channel", .str channel), ("candidate_digest", .str candidate_digest),
   ("ordinal", .int ordinal)]

section
variable (R : Runtime)

/-- The record of the next effect. -/
def nextRecord (eff : GuardedEffector) (candidate : CandidateAct) : Except PyErr EffectRecord := do
  let candidate_digest ← candidate.digest R
  let ref ← sha256Hex R
    (.ofEntries (referenceCore eff.channel candidate_digest eff.records.length))
  .ok ⟨eff.channel, candidate_digest, ref, candidate.payload⟩

/-- `_commit` -/
def commit (eff : GuardedEffector) (candidate : CandidateAct) (marker : Nat) :
    Except PyErr EffectRecord × GuardedEffector :=
  if marker ≠ eff.marker then
    (.error (.effectDenied (eff.channel ++ py ": invalid sink invocation")), eff)
  else if eff.fail_next then
    (.error (.osError (eff.channel ++ py ": injected downstream failure")),
      { eff with fail_next := false })
  else
    match eff.nextRecord R candidate with
    | .error e => (.error e, eff)
    | .ok rec => (.ok rec, { eff with records := eff.records ++ [rec] })

end

variable {R : Runtime}

/-- What the record of an effect says. -/
theorem nextRecord_ok {eff : GuardedEffector} {c : CandidateAct} {r : EffectRecord}
    (h : eff.nextRecord R c = .ok r) :
    c.digest R = .ok r.candidate_digest ∧ r.payload = c.payload ∧
      sha256Hex R (.ofEntries (referenceCore eff.channel r.candidate_digest eff.records.length)) =
        .ok r.effect_reference := by
  simp only [nextRecord, bind_eq_ok, Except.ok.injEq] at h
  obtain ⟨d, hd, ref, href, rfl⟩ := h
  exact ⟨hd, rfl, href⟩

/-- A candidate with canonical bytes gets a record, as long as the ordinal can be written. -/
theorem exists_nextRecord {eff : GuardedEffector} {c : CandidateAct} (hc : Canon R c.asdict)
    (hchannel : hasSurrogate eff.channel = false)
    (hordinal : printsInt eff.records.length = true) : ∃ r, eff.nextRecord R c = .ok r := by
  obtain ⟨d, hd⟩ := hc.sha256Hex
  have hcore : Canon R (.ofEntries (referenceCore eff.channel d eff.records.length)) := by
    rw [canon_ofEntries_iff (by show GoodKeys ["channel", "candidate_digest", "ordinal"]; decide)]
    simp [referenceCore, hchannel, (inert_of_sha256Hex hd).hasSurrogate, hordinal]
  obtain ⟨ref, href⟩ := hcore.sha256Hex
  exact ⟨_, bind_eq_ok.2 ⟨d, hd, bind_eq_ok.2 ⟨ref, href, rfl⟩⟩⟩

/-- **A commit that succeeds** appends its record and nothing else. -/
theorem commit_ok {eff eff' : GuardedEffector} {c : CandidateAct} {m : Nat} {r : EffectRecord} :
    eff.commit R c m = (.ok r, eff') ↔ m = eff.marker ∧ eff.fail_next = false ∧
      eff.nextRecord R c = .ok r ∧ eff' = { eff with records := eff.records ++ [r] } := by
  unfold commit
  split
  · rename_i hm
    simp [hm]
  rename_i hm
  split
  · rename_i hf
    simp [hf]
  rename_i hf
  cases eff.nextRecord R c with
  | error e => simp
  | ok r' =>
    simp only [Prod.mk.injEq, Except.ok.injEq]
    refine ⟨?_, ?_⟩
    · intro h
      obtain ⟨rfl, rfl⟩ := h
      exact ⟨by simpa using hm, by simpa using hf, rfl, rfl⟩
    · intro h
      obtain ⟨-, -, rfl, rfl⟩ := h
      exact ⟨rfl, rfl⟩

/-- **A commit that fails** appends nothing. -/
theorem commit_error {eff eff' : GuardedEffector} {c : CandidateAct} {m : Nat} {e : PyErr}
    (h : eff.commit R c m = (.error e, eff')) :
    eff'.records = eff.records ∧ eff'.channel = eff.channel ∧ eff'.marker = eff.marker := by
  unfold commit at h
  split at h
  · obtain rfl := (Prod.mk.inj h).2
    exact ⟨rfl, rfl, rfl⟩
  split at h
  · obtain rfl := (Prod.mk.inj h).2
    exact ⟨rfl, rfl, rfl⟩
  split at h
  · obtain rfl := (Prod.mk.inj h).2
    exact ⟨rfl, rfl, rfl⟩
  · simp at h

end GuardedEffector

end Finality
