import Finality.Core.Models

/-!
# Protected authority state (`state.py`)

`ProtectedState` holds what replay protection rests on: each source's version, quota and budget,
the transition id each nonce was spent on, and the transitions under their ids. An operation
returns its result together with the state it leaves, also when it raises: the source's
`setdefault` creates an entry before the checks that may follow.
-/

namespace Finality

open Checks

/-- `SourceState` -/
structure SourceState where
  version : Int
  quota : Int
  budget : Int
  deriving DecidableEq

/-- `ProtectedState` -/
structure ProtectedState where
  default_quota : Int
  default_budget : Int
  sources : PyDict SourceState
  nonces : PyDict PyStr
  transitions : PyDict StateTransition

namespace ProtectedState

/-- `ProtectedState(default_quota=..., default_budget=...)` -/
def init (default_quota default_budget : Int) : ProtectedState :=
  ⟨default_quota, default_budget, ∅, ∅, ∅⟩

/-- `configure_source` -/
def configureSource (st : ProtectedState) (source : PyStr) (quota budget : Int) : ProtectedState :=
  { st with sources := st.sources.insert source ⟨0, quota, budget⟩ }

/-- `_get_source`: the entry of a source, created with the defaults when there is none. -/
def getSource (st : ProtectedState) (source : PyStr) : SourceState × ProtectedState :=
  match st.sources.lookup source with
  | some s => (s, st)
  | none =>
      let s := ⟨0, st.default_quota, st.default_budget⟩
      (s, { st with sources := st.sources.insert source s })

/-- The transition a candidate asks for from a source's current state, without its id. -/
def nextTransition (state : SourceState) (candidate : CandidateAct) (cost : Int) :
    StateTransition where
  transition_id := []
  nonce := candidate.nonce
  source := candidate.source
  before_version := state.version
  after_version := state.version + 1
  quota_before := state.quota
  quota_after := state.quota - 1
  budget_before := state.budget
  budget_after := state.budget - cost
  policy_epoch := candidate.policy_epoch

end ProtectedState

/-- `transition_core` -/
def transitionCore (t : StateTransition) (candidate_digest : PyStr) : List (String × PyVal) :=
  [("nonce", .str t.nonce), ("source", .str t.source), ("before_version", .int t.before_version),
   ("after_version", .int t.after_version), ("quota_before", .int t.quota_before),
   ("quota_after", .int t.quota_after), ("budget_before", .int t.budget_before),
   ("budget_after", .int t.budget_after), ("policy_epoch", .int t.policy_epoch),
   ("candidate_digest", .str candidate_digest)]

/-- The keys of the material of a transition id. -/
def transitionKeys : List String :=
  ["nonce", "source", "before_version", "after_version", "quota_before", "quota_after",
   "budget_before", "budget_after", "policy_epoch", "candidate_digest"]

@[simp] theorem keys_transitionCore (t : StateTransition) (d : PyStr) :
    (transitionCore t d).map Prod.fst = transitionKeys := rfl

theorem goodKeys_transitionKeys : GoodKeys transitionKeys := by decide

namespace ProtectedState

section
variable (R : Runtime)

/-- The transition with its id, the digest of its core and the candidate's digest. -/
def identify (t : StateTransition) (candidate : CandidateAct) : Except PyErr StateTransition := do
  let candidate_digest ← candidate.digest R
  let transition_id ← sha256Hex R (.ofEntries (transitionCore t candidate_digest))
  .ok { t with transition_id := transition_id }

/-- `transition_for_authorization` -/
def transitionForAuthorization (st : ProtectedState) (candidate : CandidateAct) (cost : Int) :
    Except PyErr StateTransition × ProtectedState :=
  if cost ≤ 0 then (.error (.valueError (py "cost must be positive")), st)
  else if (st.nonces.lookup candidate.nonce).isSome then
    (.error (.replayDetected (py "nonce already reserved or consumed")), st)
  else
    let (state, st) := st.getSource candidate.source
    if state.quota < 1 then (.error (.validationDenied (py "quota_exhausted")), st)
    else if state.budget < cost then (.error (.validationDenied (py "budget_exhausted")), st)
    else
      match identify R (nextTransition state candidate cost) candidate with
      | .error e => (.error e, st)
      | .ok t =>
          (.ok t, { st with
            sources := st.sources.insert candidate.source
              ⟨t.after_version, t.quota_after, t.budget_after⟩
            nonces := st.nonces.insert candidate.nonce t.transition_id
            transitions := st.transitions.insert t.transition_id t })

end

/-- `verify_transition` -/
def verifyTransition (st : ProtectedState) (transition_id : PyStr) (candidate : CandidateAct) :
    Bool :=
  match st.transitions.lookup transition_id with
  | none => false
  | some t =>
      t.nonce = candidate.nonce
      && t.source = candidate.source
      && t.policy_epoch = candidate.policy_epoch
      && t.after_version = t.before_version + 1
      && t.quota_after = t.quota_before - 1
      && t.budget_after < t.budget_before
      && st.nonces.lookup candidate.nonce = some transition_id

/-- `get_transition` -/
def getTransition (st : ProtectedState) (transition_id : PyStr) : Option StateTransition :=
  st.transitions.lookup transition_id

/-- `snapshot` -/
def snapshot (st : ProtectedState) (source : PyStr) : SourceState × ProtectedState :=
  st.getSource source

/-! ## What a transition is and does -/

/-- Opening an account reserves no nonce. -/
@[simp] theorem getSource_nonces (st : ProtectedState) (source : PyStr) :
    (st.getSource source).2.nonces = st.nonces := by
  unfold getSource; split <;> rfl

/-- And makes no transition. -/
@[simp] theorem getSource_transitions (st : ProtectedState) (source : PyStr) :
    (st.getSource source).2.transitions = st.transitions := by
  unfold getSource; split <;> rfl

/-- Creating a source's entry changes no snapshot. -/
@[simp] theorem snapshot_getSource (st : ProtectedState) (source s : PyStr) :
    ((st.getSource source).2.snapshot s).1 = (st.snapshot s).1 := by
  cases h : st.sources.lookup source with
  | some v => simp [getSource, h]
  | none =>
    rcases eq_or_ne s source with rfl | hne
    · simp [snapshot, getSource, h]
    · simp only [snapshot, getSource, h, AList.lookup_insert_ne hne]
      split <;> rfl

variable {R : Runtime}

/-- A transition that was granted: what the state allowed, what the transition records and what
the state became. -/
structure Granted (R : Runtime) (st : ProtectedState) (c : CandidateAct) (cost : Int)
    (t : StateTransition) (st' : ProtectedState) : Prop where
  cost_pos : 0 < cost
  fresh : st.nonces.lookup c.nonce = none
  quota : 1 ≤ (st.snapshot c.source).1.quota
  budget : cost ≤ (st.snapshot c.source).1.budget
  identified : identify R (nextTransition (st.snapshot c.source).1 c cost) c = .ok t
  state_eq : st' = { (st.getSource c.source).2 with
    sources := (st.getSource c.source).2.sources.insert c.source
      ⟨t.after_version, t.quota_after, t.budget_after⟩
    nonces := st.nonces.insert c.nonce t.transition_id
    transitions := st.transitions.insert t.transition_id t }

/-- **When a transition is granted**, and with which result. -/
theorem transitionForAuthorization_ok {st st' : ProtectedState} {c : CandidateAct} {cost : Int}
    {t : StateTransition} :
    st.transitionForAuthorization R c cost = (.ok t, st') ↔ Granted R st c cost t st' := by
  unfold transitionForAuthorization
  refine ⟨?_, ?_⟩
  · intro h
    split at h
    · simp at h
    rename_i hcost
    split at h
    · simp at h
    rename_i hfresh
    simp only at h
    split at h
    · simp at h
    rename_i hquota
    split at h
    · simp at h
    rename_i hbudget
    split at h
    · simp at h
    rename_i t' hid
    obtain ⟨rfl, rfl⟩ : t' = t ∧ _ = st' := by simpa using h
    exact ⟨by omega, by simpa using hfresh, by simpa [snapshot] using hquota,
      by simpa [snapshot] using hbudget, hid, by simp⟩
  · rintro ⟨hcost, hfresh, hquota, hbudget, hid, rfl⟩
    simp only [snapshot] at hquota hbudget hid
    rw [if_neg (by omega), if_neg (by simp [hfresh])]
    simp only
    rw [if_neg (by omega), if_neg (by omega), hid]
    simp

/-- **A refused transition** leaves the nonces and transitions alone, and every snapshot. -/
theorem transitionForAuthorization_error {st st' : ProtectedState} {c : CandidateAct} {cost : Int}
    {e : PyErr} (h : st.transitionForAuthorization R c cost = (.error e, st')) :
    st' = st ∨ st' = (st.getSource c.source).2 := by
  unfold transitionForAuthorization at h
  split at h
  · exact .inl (Prod.mk.inj h).2.symm
  split at h
  · exact .inl (Prod.mk.inj h).2.symm
  simp only at h
  split at h
  · exact .inr (Prod.mk.inj h).2.symm
  split at h
  · exact .inr (Prod.mk.inj h).2.symm
  split at h
  · exact .inr (Prod.mk.inj h).2.symm
  · simp at h

/-- The transition granted, spelled out: its id is the digest of its core and the candidate's
digest. -/
theorem identify_ok {t t' : StateTransition} {c : CandidateAct} (h : identify R t c = .ok t') :
    ∃ d, c.digest R = .ok d ∧ t' = { t with transition_id := t'.transition_id } ∧
      sha256Hex R (.ofEntries (transitionCore t' d)) = .ok t'.transition_id := by
  simp only [identify, bind_eq_ok, Except.ok.injEq] at h
  obtain ⟨d, hd, i, hi, rfl⟩ := h
  exact ⟨d, hd, rfl, hi⟩

/-- The counters that a transition records. -/
def counters (t : StateTransition) : List Int :=
  [t.before_version, t.after_version, t.quota_before, t.quota_after, t.budget_before,
   t.budget_after]

/-- The counters of a transition that has an id can be written. -/
theorem printsInt_counters {t t' : StateTransition} {c : CandidateAct}
    (h : identify R t c = .ok t') : ∀ i ∈ counters t, printsInt i = true := by
  obtain ⟨d, -, ht, hi⟩ := identify_ok h
  have hcore := (canon_ofEntries_iff (by simpa using goodKeys_transitionKeys)).1
    (canon_of_sha256Hex hi)
  rw [ht] at hcore
  simp only [transitionCore, List.map_cons, List.map_nil, List.forall_mem_cons, canon_int] at hcore
  simp only [counters, List.forall_mem_cons, List.not_mem_nil, false_implies, implies_true,
    and_true]
  tauto

/-- Canonically equal candidates get the same transition id from the same source state. -/
theorem transition_id_eq {state : SourceState} {c c' : CandidateAct} {cost : Int}
    {t t' : StateTransition} (he : Eqv R c.asdict c'.asdict)
    (h : identify R (nextTransition state c cost) c = .ok t)
    (h' : identify R (nextTransition state c' cost) c' = .ok t') :
    t.transition_id = t'.transition_id := by
  have hfields := candidateEqv_of_eqv he
  obtain ⟨d, hd, ht, hi⟩ := identify_ok h
  obtain ⟨d', hd', ht', hi'⟩ := identify_ok h'
  obtain rfl : d = d' := Except.ok.inj (hd.symm.trans (he.sha256Hex_eq.trans hd'))
  have hds : NfcEq R d d := .rfl (inert_of_sha256Hex hd).hasSurrogate
  have hcore : Eqv R (.ofEntries (transitionCore t d)) (.ofEntries (transitionCore t' d)) := by
    refine (eqv_ofEntries_iff (by simp only [keys_transitionCore])).2 ⟨canon_of_sha256Hex hi, ?_⟩
    have hprints := (canon_ofEntries_iff (by simpa using goodKeys_transitionKeys)).1
      (canon_of_sha256Hex hi)
    rw [ht] at hprints
    simp only [transitionCore, nextTransition, List.map_cons, List.map_nil, List.forall_mem_cons,
      canon_int, hfields.policy_epoch] at hprints
    rw [ht, ht']
    simp only [transitionCore, nextTransition, List.map_cons, List.map_nil, List.forall₂_cons,
      eqv_str, eqv_int, hfields.policy_epoch, true_and]
    exact ⟨hfields.nonce, hfields.source, by tauto, by tauto, by tauto, by tauto, by tauto,
      by tauto, by tauto, hds, .nil⟩
  rw [hcore.sha256Hex_eq, hi'] at hi
  exact (Except.ok.inj hi).symm

namespace Granted

variable {st st' : ProtectedState} {c : CandidateAct} {cost : Int} {t : StateTransition}

/-- The transition is the next one of the candidate's source, with its id. -/
theorem transition (g : Granted R st c cost t st') :
    t = { nextTransition (st.snapshot c.source).1 c cost with transition_id := t.transition_id } :=
  (identify_ok g.identified).choose_spec.2.1

/-- It is under the candidate's nonce. -/
theorem nonce (g : Granted R st c cost t st') : t.nonce = c.nonce := by
  rw [g.transition]; rfl

/-- It is charged to the candidate's source. -/
theorem source (g : Granted R st c cost t st') : t.source = c.source := by
  rw [g.transition]; rfl

/-- It is made in the candidate's epoch. -/
theorem policy_epoch (g : Granted R st c cost t st') : t.policy_epoch = c.policy_epoch := by
  rw [g.transition]; rfl

/-- The nonce is reserved for it. -/
theorem nonces_eq (g : Granted R st c cost t st') :
    st'.nonces = st.nonces.insert c.nonce t.transition_id := by
  rw [g.state_eq]

/-- And it is recorded under its id. -/
theorem transitions_eq (g : Granted R st c cost t st') :
    st'.transitions = st.transitions.insert t.transition_id t := by
  rw [g.state_eq]

/-- The source is charged one version, one unit of quota and the cost. -/
theorem charged (g : Granted R st c cost t st') :
    (st'.snapshot c.source).1 =
      ⟨(st.snapshot c.source).1.version + 1, (st.snapshot c.source).1.quota - 1,
        (st.snapshot c.source).1.budget - cost⟩ := by
  have ht := g.transition
  rw [g.state_eq]
  simp only [snapshot, getSource, AList.lookup_insert]
  rw [ht]
  rfl

end Granted

/-- A transition is granted whenever the cost is positive, the nonce is not reserved, the source
can pay, the candidate has canonical bytes and the counters can be written. -/
theorem exists_granted {st : ProtectedState} {c : CandidateAct} {cost : Int} (hcost : 0 < cost)
    (hfresh : st.nonces.lookup c.nonce = none) (hquota : 1 ≤ (st.snapshot c.source).1.quota)
    (hbudget : cost ≤ (st.snapshot c.source).1.budget) (hc : Canon R c.asdict)
    (hprints : ∀ i ∈ counters (nextTransition (st.snapshot c.source).1 c cost),
      printsInt i = true) :
    ∃ t st', Granted R st c cost t st' := by
  obtain ⟨d, hd⟩ := hc.sha256Hex
  have hds := (inert_of_sha256Hex hd).hasSurrogate
  have hcc := candidateCanon_iff.1 hc
  have hcore : Canon R (.ofEntries
      (transitionCore (nextTransition (st.snapshot c.source).1 c cost) d)) := by
    rw [canon_ofEntries_iff (by simpa using goodKeys_transitionKeys)]
    simp only [transitionCore, nextTransition, List.map_cons, List.map_nil, List.forall_mem_cons,
      canon_str, canon_int, List.not_mem_nil, false_implies, implies_true, and_true]
    simp only [counters, nextTransition, List.forall_mem_cons, List.not_mem_nil, false_implies,
      implies_true, and_true] at hprints
    obtain ⟨h1, h2, h3, h4, h5, h6⟩ := hprints
    exact ⟨hcc.nonce, hcc.source, h1, h2, h3, h4, h5, h6, hcc.policy_epoch, hds⟩
  obtain ⟨i, hi⟩ := hcore.sha256Hex
  exact ⟨_, _, hcost, hfresh, hquota, hbudget, bind_eq_ok.2 ⟨d, hd, bind_eq_ok.2 ⟨i, hi, rfl⟩⟩, rfl⟩

/-- What `verify_transition` checks. -/
theorem verifyTransition_iff {st : ProtectedState} {tid : PyStr} {c : CandidateAct} :
    st.verifyTransition tid c = true ↔
      st.nonces.lookup c.nonce = some tid ∧ ∃ t, st.transitions.lookup tid = some t ∧
        t.nonce = c.nonce ∧ t.source = c.source ∧ t.policy_epoch = c.policy_epoch ∧
        t.after_version = t.before_version + 1 ∧ t.quota_after = t.quota_before - 1 ∧
        t.budget_after < t.budget_before := by
  unfold verifyTransition
  cases st.transitions.lookup tid with
  | none => simp
  | some t =>
    simp only [Bool.and_eq_true, decide_eq_true_eq, Option.some.injEq, exists_eq_left']
    tauto

/-- The granted transition verifies for its candidate. -/
theorem Granted.verifyTransition {st st' : ProtectedState} {c : CandidateAct} {cost : Int}
    {t : StateTransition} (g : Granted R st c cost t st') :
    st'.verifyTransition t.transition_id c = true := by
  rw [verifyTransition_iff, g.nonces_eq, g.transitions_eq]
  have ht := g.transition
  have hcost := g.cost_pos
  have hbudget : t.budget_after = t.budget_before - cost := by rw [ht]; rfl
  exact ⟨AList.lookup_insert _, t, AList.lookup_insert _, g.nonce, g.source, g.policy_epoch,
    by rw [ht]; rfl, by rw [ht]; rfl, by omega⟩

end ProtectedState

end Finality
