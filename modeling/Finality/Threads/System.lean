import Finality.Core.Interleaving

/-!
# Threads of the whole system

Nothing encloses a call of `authorize` in a lock either: the protected state is locked for the
transition and the evidence store for the insertion, and between the two, and before and after
them, any other call may run. `Call.next` is one of these steps at the stores it finds. A call of
`effectuate` looks its evidence up at one moment and reads the protected state at a later one; its
other steps are those of `Interleaving`. `Step` lets any call of either kind take its next step,
and lets new calls start, sources be configured, failures be injected, and evidence be replaced
behind the store's back (`replace_for_adversarial_test`).

`log` is history: the order in which the steps that later results speak of were taken. No step
reads it.
-/

namespace Finality

open Checks ProtectedState ProtectedAuthority FinalitySink Runs

namespace EvidenceStore

section
variable {R : Runtime} (store : EvidenceStore R)

/-- `commit` before it takes the lock. -/
def beforeLock (evidence : ValidationEvidence) : Except PyErr Unit := do
  failIf (store.fail_commits = true) (evidenceErr "evidence commit failure injected")
  let signed ← store.authenticator.verify evidence.unsigned evidence.signature evidence.key_id
  failIf (signed = false) (evidenceErr "invalid evidence signature")

/-- `commit` under the lock. -/
def underLock (evidence : ValidationEvidence) : Except PyErr (EvidenceStore R) := do
  failIf (evidence.evidence_id ∈ store.records) (evidenceErr "duplicate evidence id")
  .ok { store with records := store.records.insert evidence.evidence_id evidence }

/-- The two parts of `commit`. -/
theorem commit_eq (evidence : ValidationEvidence) :
    store.commit evidence = (do store.beforeLock evidence; store.underLock evidence) := by
  simp only [commit, checkCommit, beforeLock, underLock, bind_assoc]

/-- `replace_for_adversarial_test` -/
def replaceForAdversarialTest (evidence : ValidationEvidence) : EvidenceStore R :=
  { store with records := store.records.insert evidence.evidence_id evidence }

end

end EvidenceStore

namespace Threads

/-- Where a call of `authorize` stands, with its local variables, or how it ended. -/
inductive Phase where
  | started
  | validated (descriptor : HCAD)
  | granted (descriptor : HCAD) (transition : StateTransition)
  | signed (descriptor : HCAD) (transition : StateTransition) (evidence : ValidationEvidence)
  /-- past the checks of the commit that need no lock -/
  | checked (descriptor : HCAD) (transition : StateTransition) (evidence : ValidationEvidence)
  | committed (descriptor : HCAD) (transition : StateTransition) (evidence : ValidationEvidence)
  | returned (cap : Capability)
  | raised (e : PyErr)

/-- What the call returned or raised, if it has ended. -/
def Phase.result : Phase → Option (Except PyErr Capability)
  | returned cap => some (.ok cap)
  | raised e => some (.error e)
  | started | validated _ | granted .. | signed .. | checked .. | committed .. => none

/-- A call of `authorize` in progress. -/
structure Call where
  candidate : CandidateAct
  cost : Int
  now : Int
  phase : Phase

/-- What the log records: of the authorisation `i`, of the effectuation `j`, and of the calls that
take one step. -/
inductive Event where
  | configured (source : PyStr) (quota budget : Int)
  | snapshotted (source : PyStr)
  /-- denied by the policy or by the protected state -/
  | refused (i : Nat)
  | granted (i : Nat) (transition : StateTransition) (before after : ProtectedState)
  | signed (i : Nat) (evidence : ValidationEvidence)
  | checked (i : Nat) (fail_commits : Bool)
  | committed (i : Nat) (evidence : ValidationEvidence)
  | issued (i : Nat) (cap : Capability)
  | verified (j : Nat)
  | claimed (j : Nat)
  | effected (j : Nat)
  | receipted (j : Nat) (receipt : SinkReceipt)

/-- The effectuation whose commit an event is. -/
def Event.maker : Event → Option Nat
  | effected j => some j
  | _ => none

/-- The events of a step of the authorisation `i` from phase `p` to phase `q`. -/
def Phase.events {R : Runtime} (i : Nat) (s s' : AuthorityStores R) (p q : Phase) : List Event :=
  match p, q with
  | started, raised _ => [.refused i]
  | validated _, raised _ => [.refused i]
  | validated _, granted _ t => [.granted i t s.state s'.state]
  | granted .., signed _ _ e => [.signed i e]
  | signed .., checked .. => [.checked i s.evidence_store.fail_commits]
  | signed .., raised _ => [.checked i s.evidence_store.fail_commits]
  | checked .., committed _ _ e => [.committed i e]
  | committed .., returned cap => [.issued i cap]
  | _, _ => []

/-- The events of a step of the effectuation `j` from phase `p` to phase `q`. -/
def effectEvents (j : Nat) (p q : Interleaving.Phase) : List Event :=
  match p, q with
  | .started, .verified _ => [.verified j]
  | .verified _, .claimed _ => [.claimed j]
  | .claimed _, .committed .. => [.effected j]
  | .committed .., .returned receipt => [.receipted j receipt]
  | _, _ => []

/-- The receipt an effectuation signs on its way to phase `p`. -/
def receiptsSigned : Interleaving.Phase → List PyVal
  | .returned receipt => [receipt.unsigned]
  | _ => []

section
variable (R : Runtime)

/-- A call of `effectuate` in progress, with the evidence store as its lookup found it. -/
structure Effectuation where
  call : Interleaving.Call R
  evidence_store : Option (EvidenceStore R)

/-- What the calls share, and the calls in the order they started. -/
structure State where
  authority : AuthorityStores R
  effects : EffectStores
  authorizations : List Call
  effectuations : List (Effectuation R)
  log : List Event

/-- What the scheduler and the environment choose. -/
inductive Act where
  | authorize (candidate : CandidateAct) (cost now : Int)
  | advance (i : Nat)
  | effectuate (sink : FinalitySink R) (candidate : CandidateAct) (cap : Capability) (now : Int)
      (presentation_proof : Option PresentationProof)
  | look (j : Nat)
  | proceed (j : Nat)
  | configureSource (source : PyStr) (quota budget : Int)
  | snapshot (source : PyStr)
  | failNext
  | failCommits (b : Bool)
  | replaceEvidence (evidence : ValidationEvidence)

end

section
variable {R : Runtime}

/-- The next step of a call of `authorize`: its new phase and what it leaves in the stores. -/
def Call.next (a : ProtectedAuthority R) (k : Call) (s : AuthorityStores R) :
    Option (Phase × AuthorityStores R) :=
  match k.phase with
  | .started =>
    match buildHcad R k.candidate none none with
    | .error e => some (.raised e, s)
    | .ok descriptor =>
      match a.policy.validate k.candidate k.now with
      | (false, reasons) => some (.raised (.validationDenied (joinReasons reasons)), s)
      | (true, _) => some (.validated descriptor, s)
  | .validated descriptor =>
    match s.state.transitionForAuthorization R k.candidate k.cost with
    | (.error e, state) => some (.raised e, { s with state := state })
    | (.ok transition, state) => some (.granted descriptor transition, { s with state := state })
  | .granted descriptor transition =>
    match a.issueEvidence descriptor k.candidate transition k.now with
    | .error e => some (.raised e, s)
    | .ok evidence =>
      some (.signed descriptor transition evidence,
        { s with signed := s.signed ++ [evidence.unsigned] })
  | .signed descriptor transition evidence =>
    match s.evidence_store.beforeLock evidence with
    | .error e => some (.raised e, s)
    | .ok () => some (.checked descriptor transition evidence, s)
  | .checked descriptor transition evidence =>
    match s.evidence_store.underLock evidence with
    | .error e => some (.raised e, s)
    | .ok evidence_store =>
      some (.committed descriptor transition evidence, { s with evidence_store := evidence_store })
  | .committed descriptor transition evidence =>
    match a.issueCapability descriptor k.candidate transition evidence k.now with
    | .error e => some (.raised e, s)
    | .ok cap => some (.returned cap, { s with signed := s.signed ++ [cap.unsigned] })
  | .returned _ | .raised _ => none

/-- The authorisation `i`, which is `k`, moves to phase `p` and leaves `authority`. -/
def State.advance (s : State R) (i : Nat) (k : Call) (p : Phase) (authority : AuthorityStores R) :
    State R :=
  { s with
    authority := authority
    authorizations := s.authorizations.set i { k with phase := p }
    log := s.log ++ k.phase.events i s.authority authority p }

/-- The effectuation `j`, which is `k`, moves to phase `p` and leaves `effects`. -/
def State.proceed (s : State R) (j : Nat) (k : Effectuation R) (p : Interleaving.Phase)
    (effects : EffectStores) : State R :=
  { s with
    authority.signed := s.authority.signed ++ receiptsSigned p
    effects := effects
    effectuations := s.effectuations.set j { k with call.phase := p }
    log := s.log ++ effectEvents j k.call.phase p }

/-- The effectuation `j`, which is `k`, looks its evidence up. -/
def State.look (s : State R) (j : Nat) (k : Effectuation R) : State R :=
  { s with
    effectuations :=
      s.effectuations.set j { k with evidence_store := some s.authority.evidence_store } }

/-- **Unforgeability**: of the capability and the evidence that an effectuation verifies, each
whose signature the sink accepts was signed before. -/
def Unforged (s : AuthorityStores R) (k : Interleaving.Call R) (ev : EvidenceStore R) : Prop :=
  (k.sink.authenticator.verify k.cap.unsigned k.cap.signature k.cap.key_id = .ok true →
    SignedBefore s k.cap.unsigned) ∧
  ∀ e, ev.get k.cap.evidence_id = some e →
    k.sink.authenticator.verify e.unsigned e.signature e.key_id = .ok true →
      SignedBefore s e.unsigned

/-- One step of the system. -/
inductive Step (a : ProtectedAuthority R) : State R → Act R → State R → Prop
  | authorize {s candidate cost now} :
      Step a s (.authorize candidate cost now)
        { s with authorizations := s.authorizations ++ [⟨candidate, cost, now, .started⟩] }
  | advance {s i k p authority} (hi : s.authorizations[i]? = some k)
      (h : k.next a s.authority = some (p, authority)) :
      Step a s (.advance i) (s.advance i k p authority)
  | effectuate {s sink candidate cap now presentation_proof} :
      Step a s (.effectuate sink candidate cap now presentation_proof)
        { s with effectuations := s.effectuations ++
            [⟨⟨sink, candidate, cap, now, presentation_proof, .started⟩, none⟩] }
  | look {s j k} (hj : s.effectuations[j]? = some k) (hk : k.call.phase = .started) :
      Step a s (.look j) (s.look j k)
  | proceed {s j k ev p effects} (hj : s.effectuations[j]? = some k)
      (hev : k.evidence_store = some ev)
      (hunf : k.call.phase = .started → Unforged s.authority k.call ev)
      (h : k.call.next ev s.authority.state s.effects = some (p, effects)) :
      Step a s (.proceed j) (s.proceed j k p effects)
  | configureSource {s source quota budget} :
      Step a s (.configureSource source quota budget)
        { s with
          authority.state := s.authority.state.configureSource source quota budget
          log := s.log ++ [.configured source quota budget] }
  | snapshot {s source} :
      Step a s (.snapshot source)
        { s with
          authority.state := (s.authority.state.snapshot source).2
          log := s.log ++ [.snapshotted source] }
  | failNext {s} : Step a s .failNext { s with effects.effector.fail_next := true }
  | failCommits {s b} :
      Step a s (.failCommits b) { s with authority.evidence_store.fail_commits := b }
  | replaceEvidence {s evidence} :
      Step a s (.replaceEvidence evidence)
        { s with authority.evidence_store :=
            s.authority.evidence_store.replaceForAdversarialTest evidence }

/-- The stores are empty and no call has started. -/
structure State.Empty (s : State R) : Prop where
  world : (World.mk s.authority s.effects).Empty
  authorizations : s.authorizations = []
  effectuations : s.effectuations = []
  log : s.log = []

/-! ## A call with the stores to itself -/

/-- A call takes `n` steps in a row. -/
def Call.runAlone (a : ProtectedAuthority R) :
    Nat → Call → AuthorityStores R → Call × AuthorityStores R
  | 0, k, s => (k, s)
  | n + 1, k, s =>
    match k.next a s with
    | none => (k, s)
    | some (p, s) => Call.runAlone a n { k with phase := p } s

/-- **The steps of a call are `authorize`**: taken in a row, they end after at most six with the
result and the stores of `authorize`. -/
theorem runAlone_eq_authorize (a : ProtectedAuthority R) (s : AuthorityStores R) (c : CandidateAct)
    (cost now : Int) :
    ∃ p, Call.runAlone a 6 ⟨c, cost, now, .started⟩ s =
        (⟨c, cost, now, p⟩, (a.authorize s c cost now).2) ∧
      p.result = some (a.authorize s c cost now).1 := by
  unfold ProtectedAuthority.authorize
  cases hh : buildHcad R c none none with
  | error e => exact ⟨.raised e, by simp [Call.runAlone, Call.next, hh], rfl⟩
  | ok d =>
  obtain ⟨allowed, reasons, hv⟩ : ∃ allowed reasons, a.policy.validate c now = (allowed, reasons) :=
    ⟨_, _, rfl⟩
  cases allowed with
  | false =>
    exact ⟨.raised (.validationDenied (joinReasons reasons)),
      by simp [Call.runAlone, Call.next, hh, hv], by simp [hv, Phase.result]⟩
  | true =>
  obtain ⟨r, st, ht⟩ : ∃ r st, s.state.transitionForAuthorization R c cost = (r, st) := ⟨_, _, rfl⟩
  cases r with
  | error e =>
    exact ⟨.raised e, by simp [Call.runAlone, Call.next, hh, hv, ht],
      by simp [hv, ht, Phase.result]⟩
  | ok t =>
  cases he : a.issueEvidence d c t now with
  | error e =>
    exact ⟨.raised e, by simp [Call.runAlone, Call.next, hh, hv, ht, he],
      by simp [hv, ht, he, Phase.result]⟩
  | ok ev =>
  have hcommit := s.evidence_store.commit_eq ev
  cases hb : s.evidence_store.beforeLock ev with
  | error e =>
    rw [hb] at hcommit
    exact ⟨.raised e, by simp [Call.runAlone, Call.next, hh, hv, ht, he, hb, hcommit, bind,
      Except.bind], by simp [hv, ht, he, hcommit, Phase.result, bind, Except.bind]⟩
  | ok _ =>
  rw [hb] at hcommit
  cases hu : s.evidence_store.underLock ev with
  | error e =>
    rw [hu] at hcommit
    exact ⟨.raised e, by simp [Call.runAlone, Call.next, hh, hv, ht, he, hb, hu, hcommit, bind,
      Except.bind], by simp [hv, ht, he, hcommit, Phase.result, bind, Except.bind]⟩
  | ok store =>
  rw [hu] at hcommit
  cases hc : a.issueCapability d c t ev now with
  | error e =>
    exact ⟨.raised e, by simp [Call.runAlone, Call.next, hh, hv, ht, he, hb, hu, hc, hcommit, bind,
      Except.bind], by simp [hv, ht, he, hc, hcommit, Phase.result, bind, Except.bind]⟩
  | ok cap =>
    exact ⟨.returned cap, by simp [Call.runAlone, Call.next, hh, hv, ht, he, hb, hu, hc, hcommit,
      bind, Except.bind], by simp [hv, ht, he, hc, hcommit, Phase.result, bind, Except.bind]⟩

/-! ## What one step of a call does -/

/-- The steps of a call of `authorize`: from which phase, on what condition, to which phase and
stores. -/
inductive Moves (a : ProtectedAuthority R) (k : Call) (s : AuthorityStores R) :
    Phase → AuthorityStores R → Prop
  | invalid {e} (hp : k.phase = .started)
      (h : ∀ s', a.authorize s' k.candidate k.cost k.now = (.error e, s')) :
      Moves a k s (.raised e) s
  | validated {d} (hp : k.phase = .started) (hd : buildHcad R k.candidate none none = .ok d)
      (hallow : a.policy.Allows k.candidate k.now) : Moves a k s (.validated d) s
  | refused {d e st} (hp : k.phase = .validated d)
      (h : s.state.transitionForAuthorization R k.candidate k.cost = (.error e, st)) :
      Moves a k s (.raised e) { s with state := st }
  | granted {d t st} (hp : k.phase = .validated d)
      (h : Granted R s.state k.candidate k.cost t st) :
      Moves a k s (.granted d t) { s with state := st }
  | unsigned {d t e} (hp : k.phase = .granted d t)
      (h : a.issueEvidence d k.candidate t k.now = .error e) : Moves a k s (.raised e) s
  | signed {d t ev} (hp : k.phase = .granted d t)
      (h : a.issueEvidence d k.candidate t k.now = .ok ev) :
      Moves a k s (.signed d t ev) { s with signed := s.signed ++ [ev.unsigned] }
  | unchecked {d t ev e} (hp : k.phase = .signed d t ev)
      (h : s.evidence_store.beforeLock ev = .error e) : Moves a k s (.raised e) s
  | checked {d t ev} (hp : k.phase = .signed d t ev)
      (h : s.evidence_store.beforeLock ev = .ok ()) : Moves a k s (.checked d t ev) s
  | duplicate {d t ev} (hp : k.phase = .checked d t ev)
      (h : ev.evidence_id ∈ s.evidence_store.records) :
      Moves a k s (.raised (evidenceErr "duplicate evidence id")) s
  | committed {d t ev} (hp : k.phase = .checked d t ev)
      (h : ev.evidence_id ∉ s.evidence_store.records) :
      Moves a k s (.committed d t ev)
        { s with evidence_store.records :=
            s.evidence_store.records.insert ev.evidence_id ev }
  | unissued {d t ev e} (hp : k.phase = .committed d t ev)
      (h : a.issueCapability d k.candidate t ev k.now = .error e) : Moves a k s (.raised e) s
  | returned {d t ev cap} (hp : k.phase = .committed d t ev)
      (h : a.issueCapability d k.candidate t ev k.now = .ok cap) :
      Moves a k s (.returned cap) { s with signed := s.signed ++ [cap.unsigned] }

/-- **What one step of a call of `authorize` does.** -/
theorem moves {a : ProtectedAuthority R} {k : Call} {s s' : AuthorityStores R} {p : Phase}
    (h : k.next a s = some (p, s')) : Moves a k s p s' := by
  unfold Call.next at h
  split at h
  case h_1 hp =>
    split at h
    · rename_i hd
      obtain ⟨rfl, rfl⟩ := Prod.mk.inj (Option.some.inj h)
      exact .invalid hp fun s' => by simp only [ProtectedAuthority.authorize, hd]
    rename_i hd
    split at h
    · rename_i hv
      obtain ⟨rfl, rfl⟩ := Prod.mk.inj (Option.some.inj h)
      exact .invalid hp fun s' => by simp only [ProtectedAuthority.authorize, hd, hv]
    · rename_i hv
      obtain ⟨rfl, rfl⟩ := Prod.mk.inj (Option.some.inj h)
      exact .validated hp hd (by rw [Policy.Allows, hv])
  case h_2 d hp =>
    split at h
    · rename_i ht
      obtain ⟨rfl, rfl⟩ := Prod.mk.inj (Option.some.inj h)
      exact .refused hp ht
    · rename_i ht
      obtain ⟨rfl, rfl⟩ := Prod.mk.inj (Option.some.inj h)
      exact .granted hp (transitionForAuthorization_ok.1 ht)
  case h_3 d t hp =>
    split at h
    · rename_i he
      obtain ⟨rfl, rfl⟩ := Prod.mk.inj (Option.some.inj h)
      exact .unsigned hp he
    · rename_i he
      obtain ⟨rfl, rfl⟩ := Prod.mk.inj (Option.some.inj h)
      exact .signed hp he
  case h_4 d t ev hp =>
    split at h
    · rename_i hb
      obtain ⟨rfl, rfl⟩ := Prod.mk.inj (Option.some.inj h)
      exact .unchecked hp hb
    · rename_i hb
      obtain ⟨rfl, rfl⟩ := Prod.mk.inj (Option.some.inj h)
      exact .checked hp hb
  case h_5 d t ev hp =>
    unfold EvidenceStore.underLock failIf at h
    by_cases hdup : ev.evidence_id ∈ s.evidence_store.records
    · simp only [hdup, if_true, bind, Except.bind] at h
      obtain ⟨rfl, rfl⟩ := Prod.mk.inj (Option.some.inj h)
      exact .duplicate hp hdup
    · simp only [hdup, if_false, bind, Except.bind] at h
      obtain ⟨rfl, rfl⟩ := Prod.mk.inj (Option.some.inj h)
      exact .committed hp hdup
  case h_6 d t ev hp =>
    split at h
    · rename_i hc
      obtain ⟨rfl, rfl⟩ := Prod.mk.inj (Option.some.inj h)
      exact .unissued hp hc
    · rename_i hc
      obtain ⟨rfl, rfl⟩ := Prod.mk.inj (Option.some.inj h)
      exact .returned hp hc
  all_goals cases h

end

end Threads

end Finality
