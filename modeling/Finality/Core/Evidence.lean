import Finality.Core.Crypto

/-!
# The evidence store (`evidence.py`)

An append-only table of signed validation evidence under the evidence ids.
-/

namespace Finality

open Checks

/-- `EvidenceStore` -/
structure EvidenceStore (R : Runtime) where
  authenticator : Authenticator R
  records : PyDict ValidationEvidence
  fail_commits : Bool

/-- An `EvidenceError`. -/
def evidenceErr (message : String) : PyErr := .evidenceError (py message)

namespace EvidenceStore

variable {R : Runtime}

/-- `EvidenceStore(authenticator)` -/
def init (authenticator : Authenticator R) : EvidenceStore R :=
  ⟨authenticator, ∅, false⟩

/-- The checks in front of `commit`'s write. -/
def checkCommit (store : EvidenceStore R) (evidence : ValidationEvidence) :
    Except PyErr Unit := do
  failIf (store.fail_commits = true) (evidenceErr "evidence commit failure injected")
  let signed ← store.authenticator.verify evidence.unsigned evidence.signature evidence.key_id
  failIf (signed = false) (evidenceErr "invalid evidence signature")
  failIf (evidence.evidence_id ∈ store.records) (evidenceErr "duplicate evidence id")

/-- `EvidenceStore.commit` -/
def commit (store : EvidenceStore R) (evidence : ValidationEvidence) :
    Except PyErr (EvidenceStore R) := do
  store.checkCommit evidence
  .ok { store with records := store.records.insert evidence.evidence_id evidence }

/-- `EvidenceStore.get` -/
def get (store : EvidenceStore R) (evidence_id : PyStr) : Option ValidationEvidence :=
  store.records.lookup evidence_id

/-- `EvidenceStore.verify_allow` -/
def verifyAllow (store : EvidenceStore R) (evidence_id : PyStr) : Except PyErr Bool :=
  match store.get evidence_id with
  | none => .ok false
  | some evidence =>
    if evidence.decision = .allow then
      store.authenticator.verify evidence.unsigned evidence.signature evidence.key_id
    else .ok false

/-- The evidence allows, and an authenticator accepts its signature. -/
structure Passes (authenticator : Authenticator R) (e : ValidationEvidence) : Prop where
  decision : e.decision = .allow
  signed : authenticator.verify e.unsigned e.signature e.key_id = .ok true

/-- **When `verify_allow` answers yes.** -/
theorem verifyAllow_ok {store : EvidenceStore R} {id : PyStr} :
    store.verifyAllow id = .ok true ↔
      ∃ e, store.get id = some e ∧ Passes store.authenticator e := by
  unfold verifyAllow
  cases hget : store.get id with
  | none => simp
  | some e =>
    simp only [Option.some.injEq, exists_eq_left']
    split
    · rename_i hd
      exact ⟨fun h => ⟨hd, h⟩, fun h => h.signed⟩
    · rename_i hd
      refine ⟨fun h => ?_, fun h => (hd h.decision).elim⟩
      cases h

/-- **When evidence is committed**, and what the store becomes. -/
theorem commit_ok {store store' : EvidenceStore R} {e : ValidationEvidence} :
    store.commit e = .ok store' ↔ store.fail_commits = false ∧
      store.authenticator.verify e.unsigned e.signature e.key_id = .ok true ∧
      store.get e.evidence_id = none ∧
      store' = { store with records := store.records.insert e.evidence_id e } := by
  simp only [commit, checkCommit, bind_eq_ok, failIf_eq_ok, exists_unit, Except.ok.injEq, get,
    AList.lookup_eq_none, Bool.not_eq_true, Bool.not_eq_false]
  refine ⟨?_, ?_⟩
  · intro h
    obtain ⟨⟨hf, s, hs, rfl, hd⟩, rfl⟩ := h
    exact ⟨hf, hs, hd, rfl⟩
  · intro h
    obtain ⟨hf, hs, hd, rfl⟩ := h
    exact ⟨⟨hf, true, hs, rfl, hd⟩, rfl⟩

theorem commit_succeeds {store : EvidenceStore R} {e : ValidationEvidence}
    (hfail : store.fail_commits = false)
    (hsig : store.authenticator.verify e.unsigned e.signature e.key_id = .ok true)
    (hfresh : store.get e.evidence_id = none) : ∃ store', store.commit e = .ok store' :=
  ⟨_, commit_ok.2 ⟨hfail, hsig, hfresh, rfl⟩⟩

/-- A commit overwrites nothing. -/
theorem get_of_commit {store store' : EvidenceStore R} {e e' : ValidationEvidence} {i : PyStr}
    (h : store.commit e = .ok store') (hi : store.get i = some e') : store'.get i = some e' := by
  obtain ⟨-, -, hd, rfl⟩ := commit_ok.1 h
  have hne : i ≠ e.evidence_id := by
    rintro rfl
    simp [hd] at hi
  exact (AList.lookup_insert_ne hne).trans hi

/-- The committed evidence is in the store. -/
theorem get_self_of_commit {store store' : EvidenceStore R} {e : ValidationEvidence}
    (h : store.commit e = .ok store') : store'.get e.evidence_id = some e := by
  obtain ⟨-, -, -, rfl⟩ := commit_ok.1 h
  exact AList.lookup_insert _

end EvidenceStore

end Finality
