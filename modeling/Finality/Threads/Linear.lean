import Finality.Threads.Budget

/-!
# Concurrent authorisations are linearisable

A call of `authorize` touches the protected state once, at its transition, and the evidence store
once, at the insertion under the lock. The transitions of concurrent calls are ordered by the lock
of the state; the insertions may come in any order, but insertions under different evidence ids do
not see one another, and the ids of different calls differ when their nonces do. So the calls take
effect at their transitions: run one after another in that order, each returns what it returned
under the threads, and the stores end up the same (`linearizable`).

What a granted call returns depends on the stores in one more place: whether the failure injection
of the evidence store was on when the call looked. `Call.outcome` is what the rest of a call
returns, as a function of that flag; it is the same at each of its steps.
-/

namespace Finality

open Checks ProtectedState ProtectedAuthority FinalitySink Runs

namespace Threads

variable {R : Runtime}

/-! ## What the rest of a call does -/

/-- An evidence store whose failure injection is on or off. -/
def flagged (auth : Authenticator R) (b : Bool) : EvidenceStore R := ⟨auth, ∅, b⟩

/-- The checks before the lock see the authenticator and the flag only. -/
theorem beforeLock_eq (store : EvidenceStore R) (e : ValidationEvidence) :
    store.beforeLock e = (flagged store.authenticator store.fail_commits).beforeLock e := rfl

/-- What the rest of a call returns once it is past its transition, when its evidence id is new and
the store's flag is `b`. -/
def Call.outcome (a : ProtectedAuthority R) (auth : Authenticator R) (b : Bool) (k : Call) :
    Option (Except PyErr Capability) :=
  match k.phase with
  | .started | .validated _ => none
  | .granted d t => some do
      let e ← a.issueEvidence d k.candidate t k.now
      (flagged auth b).beforeLock e
      a.issueCapability d k.candidate t e k.now
  | .signed d t e => some do
      (flagged auth b).beforeLock e
      a.issueCapability d k.candidate t e k.now
  | .checked d t e | .committed d t e => some (a.issueCapability d k.candidate t e k.now)
  | .returned cap => some (.ok cap)
  | .raised e => some (.error e)

/-- The rest of a call commits the evidence. -/
def Call.Pending (a : ProtectedAuthority R) (auth : Authenticator R) (b : Bool) (k : Call)
    (e : ValidationEvidence) : Prop :=
  match k.phase with
  | .granted d t => a.issueEvidence d k.candidate t k.now = .ok e ∧
      (flagged auth b).beforeLock e = .ok ()
  | .signed _ _ e' => e' = e ∧ (flagged auth b).beforeLock e = .ok ()
  | .checked _ _ e' => e' = e
  | .started | .validated _ | .committed .. | .returned _ | .raised _ => False

/-- A call that returned has its result as outcome. -/
theorem outcome_of_result {a : ProtectedAuthority R} {auth : Authenticator R} {b : Bool} {k : Call}
    {r : Except PyErr Capability} (h : k.phase.result = some r) : k.outcome a auth b = some r := by
  unfold Phase.result at h
  split at h
  case h_1 cap hp =>
    obtain rfl := Option.some.inj h
    simp only [Call.outcome, hp]
  case h_2 e hp =>
    obtain rfl := Option.some.inj h
    simp only [Call.outcome, hp]
  all_goals cases h

/-- **The outcome of a call is the same at each step** past its transition, when the flag it is
taken under is the one its checks found and it does not meet its evidence id in the store. -/
theorem outcome_moves {a : ProtectedAuthority R} {auth : Authenticator R} {b : Bool} {k : Call}
    {s s' : AuthorityStores R} {p : Phase} {i : Nat} (h : Moves a k s p s')
    (hk : k.phase.decided = true) (hauth : s.evidence_store.authenticator = auth)
    (hflag : ∀ b', Event.checked i b' ∈ k.phase.events i s s' p → b = b')
    (hnew : ∀ {d t e}, k.phase = .checked d t e → e.evidence_id ∉ s.evidence_store.records) :
    ({ k with phase := p } : Call).outcome a auth b = k.outcome a auth b := by
  subst hauth
  cases h with
  | invalid hp | validated hp | refused hp | granted hp =>
    rw [hp] at hk
    cases hk
  | unsigned hp h => simp [Call.outcome, hp, h, bind, Except.bind]
  | signed hp h => simp [Call.outcome, hp, h, bind, Except.bind]
  | unchecked hp h =>
    obtain rfl := hflag s.evidence_store.fail_commits (by simp [hp, Phase.events])
    rw [beforeLock_eq] at h
    simp [Call.outcome, hp, h, bind, Except.bind]
  | checked hp h =>
    obtain rfl := hflag s.evidence_store.fail_commits (by simp [hp, Phase.events])
    rw [beforeLock_eq] at h
    simp [Call.outcome, hp, h, bind, Except.bind]
  | duplicate hp h => exact absurd h (hnew hp)
  | committed hp h => simp [Call.outcome, hp]
  | unissued hp h => simp [Call.outcome, hp, h]
  | returned hp h => simp [Call.outcome, hp, h]

/-- **And so is the evidence it commits**, until it is committed. -/
theorem pending_moves {a : ProtectedAuthority R} {auth : Authenticator R} {b : Bool} {k : Call}
    {s s' : AuthorityStores R} {p : Phase} {i : Nat} (h : Moves a k s p s')
    (hk : k.phase.decided = true) (hauth : s.evidence_store.authenticator = auth)
    (hflag : ∀ b', Event.checked i b' ∈ k.phase.events i s s' p → b = b')
    (hnew : ∀ {d t e}, k.phase = .checked d t e → e.evidence_id ∉ s.evidence_store.records)
    (e : ValidationEvidence) :
    ({ k with phase := p } : Call).Pending a auth b e ∨
      Event.committed i e ∈ k.phase.events i s s' p ↔ k.Pending a auth b e := by
  subst hauth
  cases h with
  | invalid hp | validated hp | refused hp | granted hp =>
    rw [hp] at hk
    cases hk
  | unsigned hp h => simp [Call.Pending, hp, h, Phase.events]
  | signed hp h => simp [Call.Pending, hp, h, Phase.events]
  | unchecked hp h =>
    obtain rfl := hflag s.evidence_store.fail_commits (by simp [hp, Phase.events])
    rw [beforeLock_eq] at h
    simp only [Call.Pending, hp, Phase.events, List.mem_singleton, reduceCtorEq, or_false,
      false_iff, not_and]
    rintro rfl hok
    rw [h] at hok
    cases hok
  | checked hp h =>
    obtain rfl := hflag s.evidence_store.fail_commits (by simp [hp, Phase.events])
    rw [beforeLock_eq] at h
    simp only [Call.Pending, hp, Phase.events, List.mem_singleton, reduceCtorEq, or_false,
      iff_self_and]
    rintro rfl
    exact h
  | duplicate hp h => exact absurd h (hnew hp)
  | committed hp h => simp [Call.Pending, hp, Phase.events, eq_comm]
  | unissued hp h => simp [Call.Pending, hp, Phase.events]
  | returned hp h => simp [Call.Pending, hp, Phase.events]

/-- **A granted call with the stores to itself**: it returns its outcome and commits what is
pending, when the evidence it may commit is new. -/
theorem authorize_granted {a : ProtectedAuthority R} {s : AuthorityStores R} {k : Call} {d : HCAD}
    {t : StateTransition} {st : ProtectedState} (hp : k.phase = .granted d t)
    (hd : buildHcad R k.candidate none none = .ok d) (hallow : a.policy.Allows k.candidate k.now)
    (hg : Granted R s.state k.candidate k.cost t st)
    (hnew : ∀ e, a.issueEvidence d k.candidate t k.now = .ok e →
      e.evidence_id ∉ s.evidence_store.records) :
    ∃ r s', a.authorize s k.candidate k.cost k.now = (r, s') ∧ s'.state = st ∧
      k.outcome a s.evidence_store.authenticator s.evidence_store.fail_commits = some r ∧
      s'.evidence_store.authenticator = s.evidence_store.authenticator ∧
      s'.evidence_store.fail_commits = s.evidence_store.fail_commits ∧
      ∀ id e, s'.evidence_store.get id = some e ↔ s.evidence_store.get id = some e ∨
        id = e.evidence_id ∧
          k.Pending a s.evidence_store.authenticator s.evidence_store.fail_commits e := by
  obtain ⟨reasons, hval⟩ := hallow.validate
  unfold ProtectedAuthority.authorize
  simp only [hd, hval, transitionForAuthorization_ok.2 hg, Call.outcome, Call.Pending, hp]
  cases he : a.issueEvidence d k.candidate t k.now with
  | error e => exact ⟨_, _, rfl, rfl, rfl, rfl, rfl, by simp⟩
  | ok e =>
  have hcommit := s.evidence_store.commit_eq e
  have hfree := hnew e he
  cases hb : s.evidence_store.beforeLock e with
  | error err =>
    rw [hb] at hcommit
    rw [beforeLock_eq] at hb
    refine ⟨.error err, { s with state := st, signed := s.signed ++ [e.unsigned] }, ?_, rfl, ?_,
      rfl, rfl, ?_⟩
    · simp [hcommit, bind, Except.bind]
    · simp [hb, bind, Except.bind]
    · intro id e'
      refine ⟨.inl, fun h => h.resolve_right ?_⟩
      rintro ⟨-, heq, hok⟩
      obtain rfl := Except.ok.inj heq
      rw [hb] at hok
      cases hok
  | ok u =>
    obtain ⟨store, hstore⟩ : ∃ store : EvidenceStore R, store = { s.evidence_store with
        records := s.evidence_store.records.insert e.evidence_id e } := ⟨_, rfl⟩
    have hunder : s.evidence_store.underLock e = .ok store := by
      rw [hstore]
      simp [EvidenceStore.underLock, failIf, hfree, bind, Except.bind]
    rw [hb, show (do Except.ok u; s.evidence_store.underLock e) = s.evidence_store.underLock e
      from rfl, hunder] at hcommit
    rw [beforeLock_eq] at hb
    -- the new entry, whatever is issued under it
    have hauth : store.authenticator = s.evidence_store.authenticator := by rw [hstore]
    have hfail : store.fail_commits = s.evidence_store.fail_commits := by rw [hstore]
    have hget : ∀ id e', store.get id = some e' ↔
        s.evidence_store.get id = some e' ∨ id = e'.evidence_id ∧ (Except.ok e : Except PyErr _) =
          .ok e' ∧ (flagged s.evidence_store.authenticator
            s.evidence_store.fail_commits).beforeLock e' = .ok () := by
      intro id e'
      rw [hstore, EvidenceStore.get]
      rcases eq_or_ne id e.evidence_id with rfl | hne
      · rw [AList.lookup_insert, EvidenceStore.get, AList.lookup_eq_none.2 hfree]
        simp only [Option.some.injEq, reduceCtorEq, false_or, Except.ok.injEq]
        refine ⟨?_, fun h => h.2.1⟩
        rintro rfl
        exact ⟨rfl, rfl, hb⟩
      · rw [AList.lookup_insert_ne hne]
        refine ⟨.inl, fun h => h.resolve_right ?_⟩
        rintro ⟨rfl, heq, -⟩
        exact hne (by rw [Except.ok.inj heq])
    cases hc : a.issueCapability d k.candidate t e k.now with
    | error err =>
      refine ⟨.error err, ⟨st, store, s.signed ++ [e.unsigned]⟩, ?_, rfl, ?_, hauth, hfail, hget⟩
      · simp only [hcommit, hc]
      · simp [hb, hc, bind, Except.bind]
    | ok cap =>
      refine ⟨.ok cap, ⟨st, store, s.signed ++ [e.unsigned] ++ [cap.unsigned]⟩, ?_, rfl, ?_, hauth,
        hfail, hget⟩
      · simp only [hcommit, hc]
      · simp [hb, hc, bind, Except.bind]

/-! ## Runs without tampering -/

/-- The environment leaves the evidence store alone, and authorises candidates of `N` only. -/
def Act.Orderly (N : CandidateAct → Prop) : Act R → Prop
  | .authorize c _ _ => N c
  | .replaceEvidence _ => False
  | _ => True

/-- Different nonces are different to the digests. -/
def NoncesApart (R : Runtime) (N : CandidateAct → Prop) : Prop :=
  ∀ c c', N c → N c' → NfcEq R c.nonce c'.nonce → c.nonce = c'.nonce

/-- The call has tried to insert its evidence, or has ended. -/
def Phase.past : Phase → Bool
  | committed .. | returned _ | raised _ => true
  | started | validated _ | granted .. | signed .. | checked .. => false

/-- What a step of the authorisation `i` does to the nonces and to the evidence store. -/
structure MoveFacts (k : Call) (i : Nat) (s : AuthorityStores R) (p : Phase)
    (s' : AuthorityStores R) : Prop where
  nonces : ∀ n, n ∈ s.state.nonces → n ∈ s'.state.nonces
  granted : ∀ {j t b f}, Event.granted j t b f ∈ k.phase.events i s s' p →
    j = i ∧ t.nonce ∈ s'.state.nonces ∧ t.nonce ∉ s.state.nonces
  committed : ∀ {j e}, Event.committed j e ∈ k.phase.events i s s' p →
    j = i ∧ p.past = true ∧ ∃ d t, k.phase = .checked d t e
  past : k.phase.past = true → p.past = true
  stored : ∀ id e, s'.evidence_store.get id = some e ↔ s.evidence_store.get id = some e ∨
    id = e.evidence_id ∧ Event.committed i e ∈ k.phase.events i s s' p
  authenticator : s'.evidence_store.authenticator = s.evidence_store.authenticator
  fail_commits : s'.evidence_store.fail_commits = s.evidence_store.fail_commits

/-- What a move does. -/
theorem moveFacts {a : ProtectedAuthority R} {k : Call} {s s' : AuthorityStores R} {p : Phase}
    (i : Nat) (h : Moves a k s p s') : MoveFacts k i s p s' := by
  have hquiet : s'.evidence_store = s.evidence_store →
      (∀ e, Event.committed i e ∉ k.phase.events i s s' p) →
      ∀ id e, s'.evidence_store.get id = some e ↔ s.evidence_store.get id = some e ∨
        id = e.evidence_id ∧ Event.committed i e ∈ k.phase.events i s s' p := by
    intro hstore hnone id e
    rw [hstore]
    exact ⟨.inl, fun h => h.resolve_right fun h => hnone e h.2⟩
  cases h with
  | @refused d e st hp h =>
    have hnonces : st.nonces = s.state.nonces := by
      rcases transitionForAuthorization_error h with rfl | rfl
      · rfl
      · exact getSource_nonces ..
    exact ⟨fun n hn => hnonces.symm ▸ hn, by simp [hp, Phase.events], by simp [hp, Phase.events],
      by simp [hp, Phase.past], hquiet rfl (by simp [hp, Phase.events]), rfl, rfl⟩
  | @granted d t st hp g =>
    refine ⟨fun n hn => ?_, fun h => ?_, by simp [hp, Phase.events], by simp [hp, Phase.past],
      hquiet rfl (by simp [hp, Phase.events]), rfl, rfl⟩
    · rw [g.nonces_eq, AList.mem_insert]
      exact .inr hn
    · rw [hp] at h
      obtain ⟨rfl, rfl, -, -⟩ := Event.granted.inj (List.mem_singleton.1 h)
      refine ⟨rfl, ?_, ?_⟩
      · rw [g.nonces_eq, g.nonce, AList.mem_insert]
        exact .inl rfl
      · rw [g.nonce]
        exact AList.lookup_eq_none.1 g.fresh
  | @committed d t ev hp hfree =>
    refine ⟨fun _ h => h, by simp [hp, Phase.events], fun h => ?_, by simp [Phase.past],
      fun id e => ?_, rfl, rfl⟩
    · rw [hp] at h
      obtain ⟨rfl, rfl⟩ := Event.committed.inj (List.mem_singleton.1 h)
      exact ⟨rfl, rfl, d, t, hp⟩
    · rw [hp]
      simp only [EvidenceStore.get, Phase.events, List.mem_singleton, Event.committed.injEq,
        true_and]
      rcases eq_or_ne id ev.evidence_id with rfl | hne
      · rw [AList.lookup_insert, AList.lookup_eq_none.2 hfree]
        simp only [Option.some.injEq, reduceCtorEq, false_or]
        refine ⟨?_, fun h => h.2.symm⟩
        rintro rfl
        exact ⟨rfl, rfl⟩
      · rw [AList.lookup_insert_ne hne]
        refine ⟨.inl, fun h => h.resolve_right ?_⟩
        rintro ⟨rfl, rfl⟩
        exact hne rfl
  | invalid hp | validated hp | unsigned hp | signed hp | unchecked hp | checked hp | duplicate hp
  | unissued hp | returned hp =>
    exact ⟨fun _ h => h, by simp [hp, Phase.events], by simp [hp, Phase.events],
      by simp [hp, Phase.past], hquiet rfl (by simp [hp, Phase.events]), rfl, rfl⟩

/-- Evidence under one id was signed for one act. -/
theorem nonce_eq_of_evidence_id (hsha : ShaInjective R) {N : CandidateAct → Prop}
    (hN : NoncesApart R N) {a : ProtectedAuthority R} {c c' : CandidateAct}
    {t t' : StateTransition} {now now' : Int} {e e' : ValidationEvidence}
    (he : EvidenceIssued a c t now e) (he' : EvidenceIssued a c' t' now' e') (hc : N c)
    (hc' : N c') (hid : e.evidence_id = e'.evidence_id) : c.nonce = c'.nonce := by
  have hcore := he'.evidence_id
  rw [← hid] at hcore
  have hv := (eqv_of_sha256Hex hsha he.evidence_id hcore).values rfl
  simp only [evidenceCore, List.map_cons, List.forall₂_cons, eqv_str] at hv
  have hd := hv.2.2.1.eq_of_inert (inert_of_sha256Hex he'.candidate_digest)
  exact hN c c' hc hc' (candidateEqv_of_digest hsha (hd ▸ he.candidate_digest)
    he'.candidate_digest).nonce

/-- What holds in every state of a run without tampering. -/
structure OrderlyInv (a : ProtectedAuthority R) (N : CandidateAct → Prop) (s : State R) : Prop where
  candidates : ∀ {i : Nat} {k}, s.authorizations[i]? = some k → N k.candidate
  reserved : ∀ {i t b f}, Event.granted i t b f ∈ s.log → t.nonce ∈ s.authority.state.nonces
  apart : ∀ {i t b f i' t' b' f'}, Event.granted i t b f ∈ s.log →
    Event.granted i' t' b' f' ∈ s.log → t.nonce = t'.nonce → i = i'
  committed : ∀ {i e}, Event.committed i e ∈ s.log →
    ∃ g : Grant, g.i = i ∧ g.Evidences a e ∧ g.Sound a s []
  past : ∀ {i e k}, Event.committed i e ∈ s.log → s.authorizations[i]? = some k →
    k.phase.past = true
  stored : ∀ id e, s.authority.evidence_store.get id = some e ↔
    id = e.evidence_id ∧ ∃ i, Event.committed i e ∈ s.log

/-- The invariant at the start. -/
theorem orderlyInv_of_empty {a : ProtectedAuthority R} {N : CandidateAct → Prop} {s : State R}
    (h : s.Empty) : OrderlyInv a N s where
  candidates := by simp [h.authorizations]
  reserved := by simp [h.log]
  apart := by simp [h.log]
  committed := by simp [h.log]
  past := by simp [h.log]
  stored := fun id e => by
    have hempty : s.authority.evidence_store.records = ∅ := h.world.evidence
    simp [EvidenceStore.get, hempty, h.log]

/-- A step that moves no authorisation keeps the invariant when the log records no grant and no
commit and the authority's stores are as they were. -/
theorem OrderlyInv.idle {a : ProtectedAuthority R} {N : CandidateAct → Prop} {s s' : State R}
    {events : List Event} (hinv : OrderlyInv a N s) (hle : Later s s')
    (hauth : s'.authorizations = s.authorizations) (hlog : s'.log = s.log ++ events)
    (hgranted : ∀ {i t b f}, Event.granted i t b f ∉ events)
    (hcommitted : ∀ {i e}, Event.committed i e ∉ events)
    (hnonces : s'.authority.state.nonces = s.authority.state.nonces)
    (hstore : s'.authority.evidence_store.records = s.authority.evidence_store.records) :
    OrderlyInv a N s' := by
  have hold : ∀ {i t b f}, Event.granted i t b f ∈ s'.log → Event.granted i t b f ∈ s.log :=
    fun h => (List.mem_append.1 (hlog ▸ h)).resolve_right hgranted
  have hold' : ∀ {i e}, Event.committed i e ∈ s'.log ↔ Event.committed i e ∈ s.log := by
    intro i e
    rw [hlog, List.mem_append]
    exact ⟨fun h => h.resolve_right hcommitted, .inl⟩
  refine ⟨fun hi => hinv.candidates (hauth ▸ hi), fun h => hnonces ▸ hinv.reserved (hold h),
    fun h h' => hinv.apart (hold h) (hold h'), fun h => ?_, fun h hi =>
    hinv.past (hold'.1 h) (hauth ▸ hi), fun id e => ?_⟩
  · obtain ⟨g, hg, he, hs⟩ := hinv.committed (hold'.1 h)
    exact ⟨g, hg, he, hs.mono hle⟩
  · rw [EvidenceStore.get, hstore]
    simp only [hold']
    exact hinv.stored id e

/-- A call that starts has committed nothing. -/
theorem OrderlyInv.start {a : ProtectedAuthority R} {N : CandidateAct → Prop} {s : State R}
    {c : CandidateAct} {cost now : Int} (hinv : OrderlyInv a N s) (hc : N c)
    (hle : Later s
      { s with authorizations := s.authorizations ++ [⟨c, cost, now, .started⟩] }) :
    OrderlyInv a N
      { s with authorizations := s.authorizations ++ [⟨c, cost, now, .started⟩] } := by
  refine ⟨fun hi => ?_, hinv.reserved, hinv.apart, fun h => ?_, fun h hi => ?_, hinv.stored⟩
  · rcases Interleaving.getElem?_concat_eq_some.1 hi with hi | ⟨-, rfl⟩
    · exact hinv.candidates hi
    · exact hc
  · obtain ⟨g, hg, he, hs⟩ := hinv.committed h
    exact ⟨g, hg, he, hs.mono hle⟩
  · rcases Interleaving.getElem?_concat_eq_some.1 hi with hi | ⟨rfl, -⟩
    · exact hinv.past h hi
    · obtain ⟨g, hg, -, ⟨q, hq⟩, -⟩ := hinv.committed h
      rw [hg] at hq
      have hlt := (List.getElem?_eq_some_iff.1 hq).1
      omega

/-- The evidence that the log commits by a step of the authorisation `i`. -/
theorem committed_advance {a : ProtectedAuthority R} {s : State R} {i : Nat} {k : Call} {p : Phase}
    {authority : AuthorityStores R} (hm : Moves a k s.authority p authority)
    (e : ValidationEvidence) :
    (∃ j, Event.committed j e ∈ (s.advance i k p authority).log) ↔
      (∃ j, Event.committed j e ∈ s.log) ∨
        Event.committed i e ∈ k.phase.events i s.authority authority p := by
  simp only [State.advance, List.mem_append]
  refine ⟨?_, ?_⟩
  · rintro ⟨j, h | h⟩
    · exact .inl ⟨j, h⟩
    · exact .inr (((moveFacts i hm).committed h).1 ▸ h)
  · rintro (⟨j, h⟩ | h)
    · exact ⟨j, .inl h⟩
    · exact ⟨i, .inr h⟩

/-- A step of an authorisation keeps the invariant. -/
theorem OrderlyInv.advance {a : ProtectedAuthority R} {N : CandidateAct → Prop} {s : State R}
    {i : Nat} {k : Call} {p : Phase} {authority : AuthorityStores R} (hinv : OrderlyInv a N s)
    (hi : s.authorizations[i]? = some k) (ht : Traced a s i k)
    (hm : Moves a k s.authority p authority) (hle : Later s (s.advance i k p authority)) :
    OrderlyInv a N (s.advance i k p authority) := by
  have hfacts := moveFacts i hm
  have hself : (s.advance i k p authority).authorizations[i]? = some { k with phase := p } :=
    (getElem?_advance hi).trans (if_pos rfl)
  refine ⟨fun hj => ?_, fun h => ?_, fun h h' heq => ?_, fun h => ?_, fun {j e k'} h hj => ?_,
    fun id e => ?_⟩
  · rw [getElem?_advance hi] at hj
    split at hj
    · obtain rfl := Option.some.inj hj
      exact show N k.candidate from hinv.candidates hi
    · exact hinv.candidates hj
  · rcases List.mem_append.1 h with h | h
    · exact hfacts.nonces _ (hinv.reserved h)
    · exact (hfacts.granted h).2.1
  · rcases List.mem_append.1 h with h | h <;> rcases List.mem_append.1 h' with h' | h'
    · exact hinv.apart h h' heq
    · exact absurd (heq ▸ hinv.reserved h) (hfacts.granted h').2.2
    · exact absurd (heq ▸ hinv.reserved h') (hfacts.granted h).2.2
    · rw [(hfacts.granted h).1, (hfacts.granted h').1]
  · rcases List.mem_append.1 h with h | h
    · obtain ⟨g, hg, he, hs⟩ := hinv.committed h
      exact ⟨g, hg, he, hs.mono hle⟩
    · cases hm with
      | @committed d t e hp hfree =>
        simp only [Traced, hp] at ht
        rw [hp] at h
        obtain ⟨rfl, rfl⟩ := Event.committed.inj (List.mem_singleton.1 h)
        obtain ⟨-, before, after, he, hg⟩ := ht
        exact ⟨_, rfl, he, { hg.mono hle with
          order := (List.sublist_append_left [_] [_]).trans (hg.mono hle).order }⟩
      | invalid hp | validated hp | refused hp | granted hp | unsigned hp | signed hp
      | unchecked hp | checked hp | duplicate hp | unissued hp | returned hp =>
        simp [hp, Phase.events] at h
  · rcases List.mem_append.1 h with hold | hnew
    · rw [getElem?_advance hi] at hj
      split at hj
      · rename_i hji
        obtain rfl := Option.some.inj hj
        exact hfacts.past (hinv.past (hji ▸ hold) hi)
      · exact hinv.past hold hj
    · obtain ⟨rfl, hp, -⟩ := hfacts.committed hnew
      obtain rfl := Option.some.inj (hself.symm.trans hj)
      exact hp
  · rw [committed_advance hm]
    refine (hfacts.stored id e).trans ?_
    rw [hinv.stored id e]
    tauto

/-- **The invariant is kept by the steps of a run without tampering.** -/
theorem OrderlyInv.step {a : ProtectedAuthority R} {N : CandidateAct → Prop} {s s' : State R}
    {act : Act R} (hinv : OrderlyInv a N s)
    (htraced : ∀ {i : Nat} {k}, s.authorizations[i]? = some k → Traced a s i k)
    (horderly : act.Orderly N) (h : Step a s act s') : OrderlyInv a N s' := by
  have hle : Later s s' := .step h
  cases h with
  | authorize => exact hinv.start horderly hle
  | advance hi hnext => exact hinv.advance hi (htraced hi) (moves hnext) hle
  | @proceed j k ev p effects hj hev hunf hnext =>
    exact hinv.idle hle rfl rfl (by cases k.call.phase <;> cases p <;> simp [effectEvents])
      (by cases k.call.phase <;> cases p <;> simp [effectEvents]) rfl rfl
  | configureSource => exact hinv.idle hle rfl rfl (by simp) (by simp) rfl rfl
  | snapshot =>
    exact hinv.idle hle rfl rfl (by simp) (by simp) (getSource_nonces ..) rfl
  | effectuate | look | failNext | failCommits =>
    exact hinv.idle hle rfl (List.append_nil _).symm (by simp) (by simp) rfl rfl
  | replaceEvidence => exact horderly.elim

/-- In a run without tampering the id of evidence about to be inserted is new. -/
theorem OrderlyInv.new_evidence (hsha : ShaInjective R) {a : ProtectedAuthority R}
    {N : CandidateAct → Prop} (hN : NoncesApart R N) {s : State R} (hinv : OrderlyInv a N s)
    {i : Nat} {k : Call} (hi : s.authorizations[i]? = some k) (ht : Traced a s i k) {d : HCAD}
    {t : StateTransition} {e : ValidationEvidence} (hp : k.phase = .checked d t e) :
    e.evidence_id ∉ s.authority.evidence_store.records := by
  intro hmem
  obtain ⟨e', he'⟩ : ∃ e', s.authority.evidence_store.get e.evidence_id = some e' :=
    Option.isSome_iff_exists.1 (AList.lookup_isSome.2 hmem)
  obtain ⟨hid, j, hj⟩ := (hinv.stored _ _).1 he'
  obtain ⟨g, rfl, hg, hsound⟩ := hinv.committed hj
  simp only [Traced, hp] at ht
  obtain ⟨-, before, after, he, hs⟩ := ht
  obtain ⟨q, hq⟩ := hsound.called
  -- both were signed under one nonce, which was granted once, so the call has committed before
  have hnonce := nonce_eq_of_evidence_id hsha hN he hg (hinv.candidates hi)
    (hinv.candidates hq) hid
  have hgi : g.i = i := by
    refine hinv.apart (hsound.order.subset List.mem_cons_self)
      (hs.order.subset List.mem_cons_self) ?_
    rw [hsound.granted.nonce, hs.granted.nonce]
    exact hnonce.symm
  have hpast := hinv.past hj (hgi ▸ hi)
  rw [hp] at hpast
  cases hpast

/-! ## The sequential history -/

/-- A call of a sequential history; an authorisation has the number it has under the threads. -/
inductive Entry where
  | authorize (i : Nat) (candidate : CandidateAct) (cost now : Int)
  | configureSource (source : PyStr) (quota budget : Int)
  | snapshot (source : PyStr)
  | failCommits (b : Bool)

/-- What the order of calls is about: authorisations by their number, and the calls that read or
write a source. -/
inductive Mark where
  | authorization (i : Nat)
  | configured (source : PyStr) (quota budget : Int)
  | snapshotted (source : PyStr)

/-- The call of the sequential system. -/
def Entry.op : Entry → Op R
  | authorize _ candidate cost now => .authorize candidate cost now
  | configureSource source quota budget => .configureSource source quota budget
  | snapshot source => .snapshot source
  | failCommits b => .failCommits b

/-- The calls of a sequential history need no unforgeability. -/
theorem Entry.step (a : ProtectedAuthority R) (w : World R) (x : Entry) :
    Finality.Step a w x.op (exec a w x.op) := by
  cases x <;> exact ⟨trivial, rfl⟩

/-- What an entry of the history is compared by: every call but an injection. -/
def Entry.mark : Entry → Option Mark
  | authorize i .. => some (.authorization i)
  | configureSource source quota budget => some (.configured source quota budget)
  | snapshot source => some (.snapshotted source)
  | failCommits _ => none

/-- The threads' authorisations take their place where their transition is decided. -/
def Event.mark : Event → Option Mark
  | configured source quota budget => some (.configured source quota budget)
  | snapshotted source => some (.snapshotted source)
  | refused i => some (.authorization i)
  | granted i .. => some (.authorization i)
  | _ => none

/-- The authorisation `i` of the threads commits the evidence, sooner or later. -/
def Commits (a : ProtectedAuthority R) (auth : Authenticator R) (flag : Nat → Bool) (s : State R)
    (i : Nat) (e : ValidationEvidence) : Prop :=
  Event.committed i e ∈ s.log ∨
    ∃ k, s.authorizations[i]? = some k ∧ k.Pending a auth (flag i) e

/-- The history `hist` sets a failure injection just before an authorisation only, and to what the
flag of that authorisation is. -/
def Injected (flag : Nat → Bool) (hist : List Entry) : Prop :=
  ∀ hist₁ hist₂ b, hist = hist₁ ++ .failCommits b :: hist₂ →
    ∃ i candidate cost now rest, hist₂ = .authorize i candidate cost now :: rest ∧ b = flag i

/-- What is added to a history leaves the failure injection alone, or is an authorisation whose flag
is not what is set. -/
def Injects (flag : Nat → Bool) (w : World R) (tail : List Entry) (w' : World R) : Prop :=
  (∀ b, .failCommits b ∉ tail) ∧
      w'.authority.evidence_store.fail_commits = w.authority.evidence_store.fail_commits ∨
    ∃ i candidate cost now, tail = [.failCommits (flag i), .authorize i candidate cost now] ∧
      w.authority.evidence_store.fail_commits ≠ flag i

/-- The sequential history `hist` from `w₀` to `w` has taken the threads' calls as far as their
transitions, each with the failure injection that its own checks find or will find. -/
structure Serial (a : ProtectedAuthority R) (w₀ : World R) (auth : Authenticator R)
    (flag : Nat → Bool) (s : State R) (hist : List Entry) (w : World R) : Prop where
  run : Run (Finality.Step a) w₀ (hist.map Entry.op) w
  state : w.authority.state = s.authority.state
  authenticator : w.authority.evidence_store.authenticator = auth
  order : hist.filterMap Entry.mark = s.log.filterMap Event.mark
  injected : Injected flag hist
  /-- where the flags are what is set to begin with nothing is injected -/
  uninjected : (∀ i, flag i = w₀.authority.evidence_store.fail_commits) →
    (∀ b, .failCommits b ∉ hist) ∧
      w.authority.evidence_store.fail_commits = w₀.authority.evidence_store.fail_commits
  evidence : ∀ id e, w.authority.evidence_store.get id = some e ↔
    id = e.evidence_id ∧ ∃ i, Commits a auth flag s i e
  results : ∀ {i : Nat} {k}, s.authorizations[i]? = some k → k.phase.decided = true →
    ∃ hist₁ hist₂ w₁, hist = hist₁ ++ .authorize i k.candidate k.cost k.now :: hist₂ ∧
      Run (Finality.Step a) w₀ (hist₁.map Entry.op) w₁ ∧
      k.outcome a auth (flag i) =
        some (a.authorize w₁.authority k.candidate k.cost k.now).1

section
variable {a : ProtectedAuthority R} {w₀ w w' : World R} {auth : Authenticator R}
  {flag : Nat → Bool} {s s' : State R} {hist tail : List Entry} {events : List Event}

/-- Nothing is injected before another entry. -/
theorem Injected.append (h : Injected flag hist) (h' : Injected flag tail) :
    Injected flag (hist ++ tail) := by
  intro hist₁ hist₂ b heq
  rcases List.append_eq_append_iff.1 heq with ⟨l, rfl, hl⟩ | ⟨l, rfl, hl⟩
  · exact h' l hist₂ b hl
  · cases l with
    | nil => exact h' [] hist₂ b hl.symm
    | cons x l =>
      obtain ⟨rfl, rfl⟩ := List.cons.inj hl
      obtain ⟨i, c, cost, now, rest, rfl, hb⟩ := h hist₁ l b rfl
      exact ⟨i, c, cost, now, rest ++ tail, rfl, hb⟩

/-- The injection in front of a call is one that its check found. -/
theorem Injects.injected (h : Injects flag w tail w') : Injected flag tail := by
  intro tail₁ tail₂ b heq
  rcases h with ⟨h, -⟩ | ⟨i, c, cost, now, rfl, -⟩
  · exact absurd (heq ▸ by simp) (h b)
  · cases tail₁ with
    | nil =>
      obtain ⟨hb, rfl⟩ := List.cons.inj heq
      exact ⟨i, c, cost, now, [], rfl, (Entry.failCommits.inj hb).symm⟩
    | cons x l =>
      obtain ⟨-, heq⟩ := List.cons.inj heq
      cases l with
      | nil => cases heq
      | cons y l => simp at heq

/-- The failure injection is set before a call, where it is not set already. -/
theorem exists_injects (a : ProtectedAuthority R) (w : World R) (b : Bool) : ∃ pre w₁,
    Run (Finality.Step a) w (pre.map Entry.op) w₁ ∧
    w₁.authority = { w.authority with evidence_store.fail_commits := b } ∧
    (pre = [] ∧ w.authority.evidence_store.fail_commits = b ∨
      pre = [.failCommits b] ∧ w.authority.evidence_store.fail_commits ≠ b) := by
  by_cases hb : w.authority.evidence_store.fail_commits = b
  · subst hb
    exact ⟨[], w, .nil, rfl, .inl ⟨rfl, rfl⟩⟩
  · exact ⟨[.failCommits b], exec a w (.failCommits b), .single (Entry.step a w (.failCommits b)),
      rfl, .inr ⟨rfl, hb⟩⟩

/-- **The history continues** as the log does, when each call is where it was or in what was
added. -/
theorem Serial.extend (hs : Serial a w₀ auth flag s hist w)
    (hrun : Run (Finality.Step a) w (tail.map Entry.op) w')
    (hstate : w'.authority.state = s'.authority.state)
    (hauth : w'.authority.evidence_store.authenticator = auth)
    (hlog : s'.log = s.log ++ events)
    (horder : tail.filterMap Entry.mark = events.filterMap Event.mark)
    (hinjects : Injects flag w tail w')
    (hevidence : ∀ id e, w'.authority.evidence_store.get id = some e ↔
      id = e.evidence_id ∧ ∃ i, Commits a auth flag s' i e)
    (hresults : ∀ {i : Nat} {k}, s'.authorizations[i]? = some k → k.phase.decided = true →
      (∃ k₀, s.authorizations[i]? = some k₀ ∧ k₀.phase.decided = true ∧
        k = { k₀ with phase := k.phase } ∧
        k.outcome a auth (flag i) = k₀.outcome a auth (flag i)) ∨
      ∃ tail₁ tail₂ w₁, tail = tail₁ ++ .authorize i k.candidate k.cost k.now :: tail₂ ∧
        Run (Finality.Step a) w (tail₁.map Entry.op) w₁ ∧
        k.outcome a auth (flag i) =
          some (a.authorize w₁.authority k.candidate k.cost k.now).1) :
    Serial a w₀ auth flag s' (hist ++ tail) w' where
  run := by
    rw [List.map_append]
    exact hs.run.append hrun
  state := hstate
  authenticator := hauth
  order := by rw [List.filterMap_append, hlog, List.filterMap_append, hs.order, horder]
  injected := hs.injected.append hinjects.injected
  uninjected := by
    intro hflag
    obtain ⟨hnone, hw⟩ := hs.uninjected hflag
    rcases hinjects with ⟨hnone', hw'⟩ | ⟨i, _, _, _, -, hne⟩
    · exact ⟨fun b hb => (List.mem_append.1 hb).elim (hnone b) (hnone' b), hw'.trans hw⟩
    · exact absurd (hw.trans (hflag i).symm) hne
  evidence := hevidence
  results := by
    intro i k hi hk
    rcases hresults hi hk with ⟨k₀, hi₀, hk₀, hsame, hout⟩ | ⟨tail₁, tail₂, w₁, rfl, hr, hout⟩
    · obtain ⟨hist₁, hist₂, w₁, rfl, hr, hres⟩ := hs.results hi₀ hk₀
      rw [hout, hsame]
      exact ⟨hist₁, hist₂ ++ tail, w₁, by simp, hr, hres⟩
    · refine ⟨hist ++ tail₁, tail₂, w₁, by simp, ?_, hout⟩
      rw [List.map_append]
      exact hs.run.append hr

/-- A call whose transition is not decided has no evidence to commit. -/
theorem not_pending {k : Call} {b : Bool} (hk : k.phase.decided = false) (e : ValidationEvidence) :
    ¬ k.Pending a auth b e := by
  intro he
  unfold Call.Pending at he
  split at he
  case h_1 hp | h_2 hp | h_3 hp =>
    rw [hp] at hk
    cases hk
  all_goals exact he

/-- A step that moves no authorisation past its decision leaves the history, when it decides,
commits and writes nothing. -/
theorem Serial.idle (hs : Serial a w₀ auth flag s hist w)
    (hstate : s'.authority.state = s.authority.state) (hlog : s'.log = s.log ++ events)
    (hmark : events.filterMap Event.mark = []) (hcommitted : ∀ {i e}, Event.committed i e ∉ events)
    (hcalls : ∀ {i : Nat} {k}, s'.authorizations[i]? = some k →
      s.authorizations[i]? = some k ∨ k.phase.decided = false)
    (hkept : ∀ {i : Nat} {k}, s.authorizations[i]? = some k →
      s'.authorizations[i]? = some k ∨ k.phase.decided = false) :
    Serial a w₀ auth flag s' hist w := by
  have hext : Serial a w₀ auth flag s' (hist ++ []) w := by
    refine hs.extend .nil (hs.state.trans hstate.symm) hs.authenticator hlog hmark.symm
      (.inl ⟨by simp, rfl⟩) (fun id e => ?_) (fun hi hk => ?_)
    · rw [hs.evidence id e]
      refine and_congr_right fun _ => exists_congr fun i => ?_
      rw [Commits, Commits, hlog, List.mem_append]
      refine or_congr ⟨.inl, fun h => h.resolve_right hcommitted⟩ ⟨?_, ?_⟩
      · rintro ⟨k, hi, hk⟩
        exact ⟨k, (hkept hi).resolve_right fun hp => not_pending hp e hk, hk⟩
      · rintro ⟨k, hi, hk⟩
        exact ⟨k, (hcalls hi).resolve_right fun hp => not_pending hp e hk, hk⟩
    · rcases hcalls hi with hi | hp
      · exact .inl ⟨_, hi, hk, rfl, rfl⟩
      · rw [hp] at hk
        cases hk
  rwa [List.append_nil] at hext

/-- A call that reads or writes a source takes its place in the history. -/
theorem Serial.call (hs : Serial a w₀ auth flag s hist w) (x : Entry)
    (hx : ∀ b, .failCommits b ≠ x)
    (hstate : (exec a w x.op).authority.state = s'.authority.state)
    (hstore : (exec a w x.op).authority.evidence_store = w.authority.evidence_store)
    (hlog : s'.log = s.log ++ events)
    (hmark : [x].filterMap Entry.mark = events.filterMap Event.mark)
    (hcommitted : ∀ {i e}, Event.committed i e ∉ events)
    (hauth : s'.authorizations = s.authorizations) :
    Serial a w₀ auth flag s' (hist ++ [x]) (exec a w x.op) := by
  have hrun : Run (Finality.Step a) w ([x].map Entry.op) (exec a w x.op) :=
    .single (Entry.step a w x)
  refine hs.extend hrun hstate (hstore ▸ hs.authenticator) hlog hmark
    (.inl ⟨by simpa using hx, by rw [hstore]⟩) (fun id e => ?_)
    (fun hi hk => .inl ⟨_, hauth ▸ hi, hk, rfl, rfl⟩)
  rw [hstore, hs.evidence id e]
  refine and_congr_right fun _ => exists_congr fun i => ?_
  rw [Commits, Commits, hlog, hauth, List.mem_append]
  exact or_congr_left ⟨.inl, fun h => h.resolve_right hcommitted⟩

/-- The evidence committed after a step of the authorisation `i`. -/
theorem commits_advance {i : Nat} {k : Call} {p : Phase} {authority : AuthorityStores R}
    (hi : s.authorizations[i]? = some k) (hm : Moves a k s.authority p authority) (j : Nat)
    (e : ValidationEvidence) :
    Commits a auth flag (s.advance i k p authority) j e ↔
      (j = i ∧ (Event.committed i e ∈ s.log ∨
        (({ k with phase := p } : Call).Pending a auth (flag i) e ∨
          Event.committed i e ∈ k.phase.events i s.authority authority p))) ∨
      j ≠ i ∧ Commits a auth flag s j e := by
  have hnew : ∀ j, Event.committed j e ∈ k.phase.events i s.authority authority p → j = i :=
    fun j h => ((moveFacts i hm).committed h).1
  rcases eq_or_ne j i with rfl | hne
  · have hself : (s.advance j k p authority).authorizations[j]? = some { k with phase := p } :=
      (getElem?_advance hi).trans (if_pos rfl)
    have hlog : (s.advance j k p authority).log =
        s.log ++ k.phase.events j s.authority authority p := rfl
    rw [Commits, hself, hlog, List.mem_append]
    simp only [Option.some.injEq, exists_eq_left', ne_eq, not_true_eq_false, false_and, or_false,
      true_and]
    tauto
  · have hother : (s.advance i k p authority).authorizations[j]? = s.authorizations[j]? :=
      (getElem?_advance hi).trans (if_neg hne)
    rw [Commits, Commits, hother]
    simp only [State.advance, List.mem_append]
    have hnone : Event.committed j e ∉ k.phase.events i s.authority authority p :=
      fun h => hne (hnew j h)
    tauto

/-- **A step of an authorisation past its transition** leaves the history. -/
theorem Serial.advance_decided {i : Nat} {k : Call} {p : Phase} {authority : AuthorityStores R}
    (hs : Serial a w₀ auth flag s hist w) (hi : s.authorizations[i]? = some k)
    (hm : Moves a k s.authority p authority) (hk : k.phase.decided = true)
    (hauth : s.authority.evidence_store.authenticator = auth)
    (hflag : ∀ b, Event.checked i b ∈ k.phase.events i s.authority authority p → flag i = b)
    (hnew : ∀ {d t e}, k.phase = .checked d t e →
      e.evidence_id ∉ s.authority.evidence_store.records) :
    Serial a w₀ auth flag (s.advance i k p authority) hist w := by
  have hquiet : authority.state = s.authority.state ∧
      (k.phase.events i s.authority authority p).filterMap Event.mark = [] := by
    cases hm with
    | invalid hp | validated hp | refused hp | granted hp =>
      rw [hp] at hk
      cases hk
    | unsigned hp | signed hp | unchecked hp | checked hp | duplicate hp | committed hp
    | unissued hp | returned hp => exact ⟨rfl, by rw [hp]; rfl⟩
  have hext : Serial a w₀ auth flag (s.advance i k p authority) (hist ++ []) w := by
    refine hs.extend .nil (hs.state.trans hquiet.1.symm) hs.authenticator rfl
      hquiet.2.symm (.inl ⟨by simp, rfl⟩) (fun id e => ?_) (fun {j k'} hj hk' => .inl ?_)
    · rw [hs.evidence id e]
      refine and_congr_right fun _ => exists_congr fun j => ?_
      rw [commits_advance hi hm, pending_moves hm hk hauth hflag hnew]
      rcases eq_or_ne j i with rfl | hne
      · simp [Commits, hi]
      · simp [hne]
    · rw [getElem?_advance hi] at hj
      split at hj
      · rename_i hji
        obtain rfl := Option.some.inj hj
        subst hji
        exact ⟨k, hi, hk, rfl, outcome_moves hm hk hauth hflag hnew⟩
      · exact ⟨k', hj, hk', rfl, rfl⟩
  rwa [List.append_nil] at hext

/-- An authorisation whose evidence is pending has a grant behind it. -/
theorem grant_of_commits {N : CandidateAct → Prop} (hinv : Inv a s) (hord : OrderlyInv a N s)
    {i : Nat} {e : ValidationEvidence} (h : Commits a auth flag s i e) :
    ∃ g : Grant, g.i = i ∧ g.Evidences a e ∧ g.Sound a s [] := by
  rcases h with h | ⟨k, hi, hk⟩
  · exact hord.committed h
  · have ht := hinv.traced hi
    unfold Call.Pending at hk
    split at hk
    · rename_i d t hp
      simp only [Traced, hp] at ht
      obtain ⟨hd, before, after, hg⟩ := ht
      exact ⟨k.grant i t before after, rfl, issueEvidence_ok hd hk.1, hg⟩
    · rename_i d t e' hp
      simp only [Traced, hp] at ht
      obtain ⟨rfl, -⟩ := hk
      obtain ⟨-, before, after, he, hg⟩ := ht
      exact ⟨k.grant i t before after, rfl, he, { hg with
        order := (List.sublist_append_left [_] [_]).trans hg.order }⟩
    · rename_i d t e' hp
      simp only [Traced, hp] at ht
      subst hk
      obtain ⟨-, before, after, he, hg⟩ := ht
      exact ⟨k.grant i t before after, rfl, he, { hg with
        order := (List.sublist_append_left [_] [_]).trans hg.order }⟩
    all_goals exact hk.elim

/-- **A refused authorisation** is refused in the history too. -/
theorem Serial.advance_refused {i : Nat} {k : Call} {err : PyErr} {authority : AuthorityStores R}
    (hs : Serial a w₀ auth flag s hist w) (hi : s.authorizations[i]? = some k)
    (hk : k.phase.decided = false) (hm : Moves a k s.authority (.raised err) authority)
    (hmark : (k.phase.events i s.authority authority (.raised err)).filterMap Event.mark =
      [.authorization i])
    (h : ∃ st, a.authorize w.authority k.candidate k.cost k.now =
      (.error err, { w.authority with state := st }) ∧ st = authority.state) :
    ∃ hist' w', Serial a w₀ auth flag (s.advance i k (.raised err) authority) hist' w' := by
  obtain ⟨st, h, hst⟩ := h
  have hnone : ∀ e, ¬ k.Pending a auth (flag i) e := not_pending hk
  have hrun : Run (Finality.Step a) w ([Entry.authorize i k.candidate k.cost k.now].map Entry.op)
      (exec a w (.authorize k.candidate k.cost k.now)) := .single (Entry.step a w _)
  refine ⟨_, _, hs.extend hrun ?_ ?_ rfl hmark.symm (.inl ⟨by simp, ?_⟩) (fun id e => ?_)
    (fun {j k'} hj hk' => ?_)⟩
  · simp only [exec, h]
    exact hst
  · simp only [exec, h]
    exact hs.authenticator
  · simp only [exec, h]
  · simp only [exec, h]
    rw [hs.evidence id e]
    refine and_congr_right fun _ => exists_congr fun j => ?_
    have hev : Event.committed i e ∉ k.phase.events i s.authority authority (.raised err) := by
      intro hmem
      obtain ⟨-, -, d, t, hp⟩ := (moveFacts i hm).committed hmem
      rw [hp] at hk
      cases hk
    rw [commits_advance hi hm]
    rcases eq_or_ne j i with rfl | hne
    · have hpending : ¬ ({ k with phase := .raised err } : Call).Pending a auth (flag j) e :=
        fun h => h
      simp [Commits, hi, hnone e, hpending, hev]
    · simp [hne]
  · rw [getElem?_advance hi] at hj
    split at hj
    · rename_i hji
      obtain rfl := Option.some.inj hj
      subst hji
      exact .inr ⟨[], [], w, rfl, .nil, by rw [h]; rfl⟩
    · exact .inl ⟨k', hj, hk', rfl, rfl⟩

/-- No evidence of the history was signed under a nonce that is free until now. -/
theorem Serial.fresh_evidence (hsha : ShaInjective R) {N : CandidateAct → Prop}
    (hN : NoncesApart R N) (hinv : Inv a s) (hord : OrderlyInv a N s)
    (hs : Serial a w₀ auth flag s hist w) {c : CandidateAct} {cost now : Int} {d : HCAD}
    {t : StateTransition} {st : ProtectedState} (hc : N c)
    (hd : buildHcad R c none none = .ok d) (hg : Granted R s.authority.state c cost t st)
    {e : ValidationEvidence} (he : a.issueEvidence d c t now = .ok e) :
    e.evidence_id ∉ w.authority.evidence_store.records := by
  intro hmem
  obtain ⟨e', he'⟩ : ∃ e', w.authority.evidence_store.get e.evidence_id = some e' :=
    Option.isSome_iff_exists.1 (AList.lookup_isSome.2 hmem)
  obtain ⟨hid, j, hj⟩ := (hs.evidence _ _).1 he'
  obtain ⟨g, -, hge, hsound⟩ := grant_of_commits hinv hord hj
  obtain ⟨q, hq⟩ := hsound.called
  have hnonce := nonce_eq_of_evidence_id hsha hN (issueEvidence_ok hd he) hge hc
    (hord.candidates hq) hid
  have hres := hord.reserved (hsound.order.subset List.mem_cons_self)
  rw [hsound.granted.nonce, ← hnonce] at hres
  exact AList.lookup_eq_none.1 hg.fresh hres

/-- With the grant of the authorisation `i` its evidence becomes pending, and nothing else does. -/
theorem commits_granted {i : Nat} {k : Call} {d : HCAD} {t : StateTransition} {st : ProtectedState}
    (hi : s.authorizations[i]? = some k) (hp : k.phase = .validated d)
    (hg : Granted R s.authority.state k.candidate k.cost t st) (e : ValidationEvidence) :
    (∃ j, Commits a auth flag (s.advance i k (.granted d t) { s.authority with state := st }) j e) ↔
      (∃ j, Commits a auth flag s j e) ∨
        ({ k with phase := .granted d t } : Call).Pending a auth (flag i) e := by
  have hev : Event.committed i e ∉ k.phase.events i s.authority { s.authority with state := st }
      (.granted d t) := by simp [hp, Phase.events]
  have hpending : ¬ k.Pending a auth (flag i) e := by simp [Call.Pending, hp]
  simp only [commits_advance hi (.granted hp hg), hev, or_false]
  refine ⟨?_, ?_⟩
  · rintro ⟨j, ⟨rfl, h | hk⟩ | ⟨-, hj⟩⟩
    · exact .inl ⟨j, .inl h⟩
    · exact .inr hk
    · exact .inl ⟨j, hj⟩
  · rintro (⟨j, hj⟩ | hk)
    · refine ⟨j, ?_⟩
      rcases eq_or_ne j i with rfl | hne
      · exact .inl ⟨rfl, .inl (hj.resolve_right (by simp [hi, hpending]))⟩
      · exact .inr ⟨hne, hj⟩
    · exact ⟨i, .inl ⟨rfl, .inr hk⟩⟩

/-- **A granted authorisation** takes its place in the history, with the failure injection that its
checks will find. -/
theorem Serial.advance_granted (hsha : ShaInjective R) {N : CandidateAct → Prop}
    (hN : NoncesApart R N) (hinv : Inv a s) (hord : OrderlyInv a N s) {i : Nat} {k : Call}
    {d : HCAD} {t : StateTransition} {st : ProtectedState}
    (hs : Serial a w₀ auth flag s hist w) (hi : s.authorizations[i]? = some k)
    (hp : k.phase = .validated d) (hg : Granted R s.authority.state k.candidate k.cost t st) :
    ∃ hist' w', Serial a w₀ auth flag
      (s.advance i k (.granted d t) { s.authority with state := st }) hist' w' := by
  have ht := hinv.traced hi
  simp only [Traced, hp] at ht
  -- the call, run with the failure injection set
  obtain ⟨pre, w₁, hpre, hw₁, hinjects⟩ := exists_injects a w (flag i)
  have hstate₁ : w₁.authority.state = s.authority.state := by
    rw [hw₁]
    exact hs.state
  have hauth₁ : w₁.authority.evidence_store.authenticator = auth := by
    rw [hw₁]
    exact hs.authenticator
  have hfail₁ : w₁.authority.evidence_store.fail_commits = flag i := by rw [hw₁]
  have hrecords₁ : w₁.authority.evidence_store.records = w.authority.evidence_store.records := by
    rw [hw₁]
  obtain ⟨r, s₁, hauthorize, hst, hout, hauth, hfail, hget⟩ := authorize_granted
    (s := w₁.authority) (k := { k with phase := .granted d t })
    rfl ht.1 ht.2 (hstate₁ ▸ hg) (fun e he => hrecords₁ ▸
      hs.fresh_evidence hsha hN hinv hord (hord.candidates hi) ht.1 hg he)
  rw [hauth₁, hfail₁] at hout
  rw [hauth₁] at hauth
  rw [hauth₁, hfail₁] at hget
  have hrun : Run (Finality.Step a) w
      ((pre ++ [Entry.authorize i k.candidate k.cost k.now]).map Entry.op)
      (exec a w₁ (.authorize k.candidate k.cost k.now)) := by
    rw [List.map_append]
    exact hpre.append (.single (Entry.step a _ (.authorize i k.candidate k.cost k.now)))
  have hevents : (k.phase.events i s.authority { s.authority with state := st }
      (.granted d t)).filterMap Event.mark = [.authorization i] := by
    rw [hp]
    rfl
  have hafter : (exec a w₁ (.authorize k.candidate k.cost k.now)).authority = s₁ :=
    congrArg Prod.snd hauthorize
  have hmark : (pre ++ [Entry.authorize i k.candidate k.cost k.now]).filterMap Entry.mark =
      [.authorization i] := by
    rcases hinjects with ⟨rfl, -⟩ | ⟨rfl, -⟩ <;> rfl
  refine ⟨_, _, hs.extend hrun ?_ ?_ rfl (hmark.trans hevents.symm) ?_ (fun id e => ?_)
    (fun {j k'} hj hk' => ?_)⟩
  · rw [hafter]
    exact hst
  · rw [hafter]
    exact hauth
  · rcases hinjects with ⟨rfl, hset⟩ | ⟨rfl, hset⟩
    · refine .inl ⟨by simp, ?_⟩
      rw [hafter, hfail, hfail₁, hset]
    · exact .inr ⟨i, k.candidate, k.cost, k.now, rfl, hset⟩
  · rw [hafter]
    refine (hget id e).trans ?_
    have hold : w₁.authority.evidence_store.get id = w.authority.evidence_store.get id := by
      rw [EvidenceStore.get, hrecords₁]
      rfl
    rw [hold, hs.evidence id e, commits_granted hi hp hg, and_or_left]
  · rw [getElem?_advance hi] at hj
    split at hj
    · rename_i hji
      obtain rfl := Option.some.inj hj
      subst hji
      refine .inr ⟨pre, [], w₁, rfl, hpre, ?_⟩
      rw [hauthorize]
      exact hout
    · exact .inl ⟨k', hj, hk', rfl, rfl⟩

/-- **The history follows every step** of a run without tampering. -/
theorem Serial.step (hsha : ShaInjective R) {N : CandidateAct → Prop} (hN : NoncesApart R N)
    (hinv : Inv a s) (hord : OrderlyInv a N s) {act : Act R} (horderly : act.Orderly N)
    (hauth : s.authority.evidence_store.authenticator = auth) (h : Step a s act s')
    (hflag : ∀ {i b}, Event.checked i b ∈ s'.log → flag i = b)
    (hs : Serial a w₀ auth flag s hist w) : ∃ hist' w', Serial a w₀ auth flag s' hist' w' := by
  cases h with
  | @advance i k p authority hi hnext =>
    have hm := moves hnext
    cases hk : k.phase.decided with
    | true =>
      exact ⟨hist, w, hs.advance_decided hi hm hk hauth
        (fun b hb => hflag (List.mem_append_right _ hb))
        (fun hp => hord.new_evidence hsha hN hi (hinv.traced hi) hp)⟩
    | false =>
      have hcopy := hm
      cases hm with
      | @validated d hp hd hallow =>
        have hself : (s.advance i k (.validated d) s.authority).authorizations[i]? =
            some { k with phase := .validated d } := (getElem?_advance hi).trans (if_pos rfl)
        refine ⟨hist, w, hs.idle rfl rfl (by rw [hp]; rfl) (by simp [hp, Phase.events])
          (fun {j k'} hj => ?_) (fun {j k'} hj => ?_)⟩
        · rcases eq_or_ne j i with rfl | hne
          · obtain rfl := Option.some.inj (hself.symm.trans hj)
            exact .inr rfl
          · exact .inl (((getElem?_advance hi).trans (if_neg hne)).symm.trans hj)
        · rcases eq_or_ne j i with rfl | hne
          · obtain rfl := Option.some.inj (hi.symm.trans hj)
            exact .inr hk
          · exact .inl (((getElem?_advance hi).trans (if_neg hne)).trans hj)
      | @granted d t st hp hg => exact hs.advance_granted hsha hN hinv hord hi hp hg
      | invalid hp h =>
        exact hs.advance_refused hi hk hcopy (by rw [hp]; rfl)
          ⟨_, h w.authority, hs.state⟩
      | @refused d e st hp h =>
        refine hs.advance_refused hi hk hcopy (by rw [hp]; rfl) ⟨st, ?_, rfl⟩
        have ht := hinv.traced hi
        simp only [Traced, hp] at ht
        obtain ⟨reasons, hval⟩ := Policy.Allows.validate ht.2
        simp only [ProtectedAuthority.authorize, ht.1, hval, hs.state, h]
      | unsigned hp | signed hp | unchecked hp | checked hp | duplicate hp | committed hp
      | unissued hp | returned hp =>
        rw [hp] at hk
        cases hk
  | @configureSource source quota budget =>
    exact ⟨_, _, hs.call (.configureSource source quota budget) (fun _ h => by cases h)
      (by simp only [Entry.op, exec, hs.state]) rfl rfl rfl (by simp) rfl⟩
  | @snapshot source =>
    exact ⟨_, _, hs.call (.snapshot source) (fun _ h => by cases h)
      (by simp only [Entry.op, exec, hs.state]) rfl rfl rfl (by simp) rfl⟩
  | authorize =>
    refine ⟨hist, w, hs.idle rfl (List.append_nil _).symm rfl (by simp) (fun hi => ?_)
      (fun hi => .inl (Interleaving.getElem?_concat_eq_some.2 (.inl hi)))⟩
    rcases Interleaving.getElem?_concat_eq_some.1 hi with hi | ⟨-, rfl⟩
    · exact .inl hi
    · exact .inr rfl
  | @proceed j k ev p effects hj hev hunf hnext =>
    have hquiet : (effectEvents j k.call.phase p).filterMap Event.mark = [] ∧
        ∀ {i e}, Event.committed i e ∉ effectEvents j k.call.phase p := by
      cases k.call.phase <;> cases p <;> simp [effectEvents, Event.mark]
    exact ⟨hist, w, hs.idle rfl rfl hquiet.1 hquiet.2 .inl .inl⟩
  | effectuate | look | failNext | failCommits =>
    exact ⟨hist, w, hs.idle rfl (List.append_nil _).symm rfl (by simp) .inl .inl⟩
  | replaceEvidence => exact horderly.elim

/-! ## Every run -/

/-- The call has made the checks of its commit, or has ended. -/
def Phase.looked : Phase → Bool
  | checked .. | committed .. | returned _ | raised _ => true
  | started | validated _ | granted .. | signed .. => false

/-- A call checks the failure injection once. -/
structure CheckedInv (s : State R) : Prop where
  looked : ∀ {i b k}, Event.checked i b ∈ s.log → s.authorizations[i]? = some k →
    k.phase.looked = true
  called : ∀ {i b}, Event.checked i b ∈ s.log → i < s.authorizations.length
  once : ∀ {i b b'}, Event.checked i b ∈ s.log → Event.checked i b' ∈ s.log → b = b'

/-- What a step of the authorisation `i` checks. -/
theorem checked_moves {k : Call} {s s' : AuthorityStores R} {p : Phase} (i : Nat)
    (h : Moves a k s p s') :
    (k.phase.looked = true → p.looked = true) ∧
    ∀ {j b}, Event.checked j b ∈ k.phase.events i s s' p → j = i ∧ k.phase.looked = false ∧
      p.looked = true ∧ b = s.evidence_store.fail_commits := by
  cases h with
  | invalid hp | validated hp | refused hp | granted hp | unsigned hp | signed hp | unchecked hp
  | checked hp | duplicate hp | committed hp | unissued hp | returned hp =>
    simp [hp, Phase.events, Phase.looked]

/-- A step that moves no authorisation and checks nothing. -/
theorem CheckedInv.idle (hinv : CheckedInv s) (hlog : s'.log = s.log ++ events)
    (hevents : ∀ {i b}, Event.checked i b ∉ events)
    (hauth : ∃ ks, s'.authorizations = s.authorizations ++ ks) : CheckedInv s' := by
  obtain ⟨ks, hauth⟩ := hauth
  have hold : ∀ {i b}, Event.checked i b ∈ s'.log → Event.checked i b ∈ s.log :=
    fun h => (List.mem_append.1 (hlog ▸ h)).resolve_right hevents
  refine ⟨fun h hi => ?_, fun h => ?_, fun h h' => hinv.once (hold h) (hold h')⟩
  · rw [hauth, List.getElem?_append_left (hinv.called (hold h))] at hi
    exact hinv.looked (hold h) hi
  · rw [hauth, List.length_append]
    have := hinv.called (hold h)
    omega

/-- Every step keeps it. -/
theorem CheckedInv.step {act : Act R} (hinv : CheckedInv s) (h : Step a s act s') :
    CheckedInv s' := by
  cases h with
  | @advance i k p authority hi hnext =>
    obtain ⟨hmono, hchecked⟩ := checked_moves i (moves hnext)
    have hlen : (s.advance i k p authority).authorizations.length = s.authorizations.length :=
      List.length_set
    have hlt := (List.getElem?_eq_some_iff.1 hi).1
    refine ⟨fun {j b k'} h hj => ?_, fun h => ?_, fun h h' => ?_⟩
    · rw [getElem?_advance hi] at hj
      rcases List.mem_append.1 h with hold | hnew
      · split at hj
        · rename_i hji
          obtain rfl := Option.some.inj hj
          exact hmono (hinv.looked (hji ▸ hold) hi)
        · exact hinv.looked hold hj
      · obtain ⟨hji, -, hp, -⟩ := hchecked hnew
        rw [if_pos hji] at hj
        obtain rfl := Option.some.inj hj
        exact hp
    · rw [hlen]
      rcases List.mem_append.1 h with hold | hnew
      · exact hinv.called hold
      · rw [(hchecked hnew).1]
        exact hlt
    · rcases List.mem_append.1 h with hold | hnew <;>
        rcases List.mem_append.1 h' with hold' | hnew'
      · exact hinv.once hold hold'
      · obtain ⟨rfl, hk, -⟩ := hchecked hnew'
        rw [hinv.looked hold hi] at hk
        cases hk
      · obtain ⟨rfl, hk, -⟩ := hchecked hnew
        rw [hinv.looked hold' hi] at hk
        cases hk
      · rw [(hchecked hnew).2.2.2, (hchecked hnew').2.2.2]
  | @proceed j k ev p effects hj hev hunf hnext =>
    refine hinv.idle rfl ?_ ⟨[], (List.append_nil _).symm⟩
    cases k.call.phase <;> cases p <;> simp [effectEvents]
  | configureSource | snapshot => exact hinv.idle rfl (by simp) ⟨[], (List.append_nil _).symm⟩
  | authorize => exact hinv.idle (List.append_nil _).symm (by simp) ⟨_, rfl⟩
  | effectuate | look | failNext | failCommits | replaceEvidence =>
    exact hinv.idle (List.append_nil _).symm (by simp) ⟨[], (List.append_nil _).symm⟩

/-- The authenticator of the evidence store is fixed. -/
theorem authenticator_step {act : Act R} (h : Step a s act s') :
    s'.authority.evidence_store.authenticator = s.authority.evidence_store.authenticator := by
  cases h with
  | @advance i k p authority hi hnext => exact (moveFacts i (moves hnext)).authenticator
  | _ => rfl

end

/-- A step that sets no failure injection leaves it, and a check finds it. -/
theorem fail_commits_step {act : Act R} (hset : ∀ b, act ≠ .failCommits b)
    (hstore : ∀ e, act ≠ .replaceEvidence e) (h : Step a s act s') :
    s'.authority.evidence_store.fail_commits = s.authority.evidence_store.fail_commits ∧
    ∀ {i b}, Event.checked i b ∈ s'.log →
      Event.checked i b ∈ s.log ∨ b = s.authority.evidence_store.fail_commits := by
  cases h with
  | @advance i k p authority hi hnext =>
    refine ⟨(moveFacts i (moves hnext)).fail_commits, fun h => ?_⟩
    exact (List.mem_append.1 h).imp_right fun h => ((checked_moves i (moves hnext)).2 h).2.2.2
  | @proceed j k ev p effects hj hev hunf hnext =>
    refine ⟨rfl, fun h => .inl ((List.mem_append.1 h).resolve_right ?_)⟩
    cases k.call.phase <;> cases p <;> simp [effectEvents]
  | configureSource | snapshot => exact ⟨rfl, fun h => .inl (by simpa using h)⟩
  | authorize | effectuate | look | failNext => exact ⟨rfl, .inl⟩
  | failCommits => exact absurd rfl (hset _)
  | replaceEvidence => exact absurd rfl (hstore _)

/-- **A run that sets no failure injection** finds what was set to begin with. -/
theorem checked_of_uninjected {s₀ : State R} {acts : List (Act R)} (hlog : s₀.log = [])
    (hrun : Run (Step a) s₀ acts s) (hstore : ∀ e, Act.replaceEvidence e ∉ acts)
    (hset : ∀ b, Act.failCommits b ∉ acts) {i : Nat} {b : Bool}
    (h : Event.checked i b ∈ s.log) : b = s₀.authority.evidence_store.fail_commits := by
  have hinduction := hrun.invariantTrace (fun acts s =>
    (∀ e, Act.replaceEvidence e ∉ acts) → (∀ b, Act.failCommits b ∉ acts) →
      s.authority.evidence_store.fail_commits = s₀.authority.evidence_store.fail_commits ∧
      ∀ {i b}, Event.checked i b ∈ s.log → b = s₀.authority.evidence_store.fail_commits)
    (fun _ _ => ⟨rfl, by simp [hlog]⟩) ?_
  · exact (hinduction hstore hset).2 h
  · intro acts u act v _ ih hstep hstore hset
    obtain ⟨hu, hchecked⟩ := ih (fun e he => hstore e (List.mem_append_left _ he))
      (fun b hb => hset b (List.mem_append_left _ hb))
    obtain ⟨hv, hnew⟩ := fail_commits_step
      (fun b hb => hset b (hb ▸ by simp)) (fun e he => hstore e (he ▸ by simp)) hstep
    exact ⟨hv.trans hu, fun h => (hnew h).elim hchecked fun hb => hb.trans hu⟩

/-- **The history of a run without tampering**, under any failure injection that agrees with what
the calls have checked, and what such a run keeps. -/
theorem exists_serial (hsha : ShaInjective R) {N : CandidateAct → Prop} (hN : NoncesApart R N)
    {a : ProtectedAuthority R} {s₀ s : State R} {acts : List (Act R)} (h0 : s₀.Empty)
    (hrun : Run (Step a) s₀ acts s) (horderly : ∀ act ∈ acts, act.Orderly N) {flag : Nat → Bool}
    (hflag : ∀ {i b}, Event.checked i b ∈ s.log → flag i = b) :
    OrderlyInv a N s ∧
      ∃ hist w, Serial a s₀.world s₀.authority.evidence_store.authenticator flag s hist w := by
  have hinduction := hrun.invariantTrace (fun acts s => (∀ act ∈ acts, act.Orderly N) →
    OrderlyInv a N s ∧
    s.authority.evidence_store.authenticator = s₀.authority.evidence_store.authenticator ∧
    ((∀ {i b}, Event.checked i b ∈ s.log → flag i = b) →
      ∃ hist w, Serial a s₀.world s₀.authority.evidence_store.authenticator flag s hist w))
    (fun _ => ⟨orderlyInv_of_empty h0, rfl, fun _ => ⟨[], s₀.world, ?_⟩⟩) ?_
  · exact ⟨(hinduction horderly).1, (hinduction horderly).2.2 hflag⟩
  · have hempty : s₀.authority.evidence_store.records = ∅ := h0.world.evidence
    exact
      { run := .nil
        state := rfl
        authenticator := rfl
        order := by simp [h0.log]
        injected := by simp [Injected]
        uninjected := fun _ => ⟨by simp, rfl⟩
        evidence := by simp [State.world, EvidenceStore.get, hempty, Commits, h0.log,
          h0.authorizations]
        results := by simp [h0.authorizations] }
  · intro acts s act s' hrun ih hstep horderly
    obtain ⟨hord, hauth, hserial⟩ := ih fun x hx => horderly x (List.mem_append_left _ hx)
    have hact : act.Orderly N := horderly act (by simp)
    have hinv := inv_of_run h0 hrun
    refine ⟨hord.step hinv.traced hact hstep, (authenticator_step hstep).trans hauth, ?_⟩
    intro hflag'
    obtain ⟨hist, w, hs⟩ := hserial fun h => hflag' ((Later.step hstep).log.subset h)
    exact hs.step hsha hN hinv hord hact hauth hstep hflag'

/-- The number of an authorisation. -/
def Mark.number : Mark → Option Nat
  | authorization i => some i
  | configured .. | snapshotted _ => none

/-- The numbers of the decided calls, read off their marks. -/
theorem decided_eq_mark (log : List Event) :
    log.filterMap Event.decided = (log.filterMap Event.mark).filterMap Mark.number := by
  rw [List.filterMap_filterMap]
  congr 1
  funext ev
  cases ev <;> rfl

/-- The sequential history `hist` from the stores of `s₀` accounts for the authorisations of the
threads' run `acts` from `s₀` to `s`. -/
structure Linearization (a : ProtectedAuthority R) (s₀ : State R) (acts : List (Act R))
    (s : State R) (hist : List Entry) (w : World R) : Prop where
  run : Run (Finality.Step a) s₀.world (hist.map Entry.op) w
  state : w.authority.state = s.authority.state
  evidence : ∀ id, w.authority.evidence_store.get id = s.authority.evidence_store.get id
  /-- each authorisation is called once -/
  once : ((hist.filterMap Entry.mark).filterMap Mark.number).Perm
    (List.range s.authorizations.length)
  /-- with the arguments it has under the threads, and the same result -/
  results : ∀ {i : Nat} {k}, s.authorizations[i]? = some k →
    ∃ hist₁ hist₂ w₁, hist = hist₁ ++ .authorize i k.candidate k.cost k.now :: hist₂ ∧
      Run (Finality.Step a) s₀.world (hist₁.map Entry.op) w₁ ∧
      k.phase.result = some (a.authorize w₁.authority k.candidate k.cost k.now).1
  /-- the failure injection is set just before an authorisation only, to what its check found, or to
  what it was to begin with if it made none -/
  injected : ∀ {hist₁ hist₂ b}, hist = hist₁ ++ .failCommits b :: hist₂ →
    ∃ i candidate cost now rest, hist₂ = .authorize i candidate cost now :: rest ∧
      (Event.checked i b ∈ s.log ∨ (∀ b', Event.checked i b' ∉ s.log) ∧
        b = s₀.authority.evidence_store.fail_commits)
  /-- and nowhere if the run does not set it -/
  uninjected : (∀ b, Act.failCommits b ∉ acts) → ∀ b, .failCommits b ∉ hist
  /-- configurations and snapshots stand between the authorisations as they did -/
  order : hist.filterMap Entry.mark = s.log.filterMap Event.mark
  /-- and a call that ended before another started comes first -/
  real_time : ∀ {acts₁ acts₂ u i j k}, acts = acts₁ ++ acts₂ → Run (Step a) s₀ acts₁ u →
    Run (Step a) u acts₂ s → u.authorizations[i]? = some k → k.phase.result.isSome →
    u.authorizations.length ≤ j → j < s.authorizations.length →
    [Mark.authorization i, .authorization j].Sublist (hist.filterMap Entry.mark)

/-- The log of a run is a prefix of the log later on. -/
theorem log_prefix_of_run {a : ProtectedAuthority R} {u s : State R} {acts : List (Act R)}
    (hrun : Run (Step a) u acts s) : u.log <+: s.log :=
  hrun.invariant (fun s => u.log <+: s.log) List.prefix_rfl
    fun _ _ _ ih hs => ih.trans (Later.step hs).log

/-- A call that ended is past its decision, and has nothing left to commit. -/
theorem decided_of_result {k : Call} (h : k.phase.result.isSome) : k.phase.decided = true ∧
    ∀ {a : ProtectedAuthority R} {auth b e}, ¬ k.Pending a auth b e := by
  cases hp : k.phase with
  | returned | raised => exact ⟨rfl, by simp [Call.Pending, hp]⟩
  | started | validated | granted | signed | checked | committed =>
    rw [hp] at h
    cases h

/-- What the check of each authorisation found, with `b₀` for those that made none. -/
theorem CheckedInv.exists_flag {s : State R} (h : CheckedInv s) (b₀ : Bool) :
    ∃ flag : Nat → Bool, (∀ {i b}, Event.checked i b ∈ s.log → flag i = b) ∧
      ∀ i, Event.checked i (flag i) ∈ s.log ∨ (∀ b, Event.checked i b ∉ s.log) ∧ flag i = b₀ := by
  have hfound : ∀ i, ∃ b, (∀ {b'}, Event.checked i b' ∈ s.log → b = b') ∧
      (Event.checked i b ∈ s.log ∨ (∀ b', Event.checked i b' ∉ s.log) ∧ b = b₀) := by
    intro i
    by_cases hchecked : ∃ b, Event.checked i b ∈ s.log
    · obtain ⟨b, hb⟩ := hchecked
      exact ⟨b, fun h' => h.once hb h', .inl hb⟩
    · rw [not_exists] at hchecked
      exact ⟨_, fun h' => absurd h' (hchecked _), .inr ⟨hchecked, rfl⟩⟩
  choose flag hflag using hfound
  exact ⟨flag, fun {i _} => (hflag i).1, fun i => (hflag i).2⟩

/-- A decided call has its mark. -/
theorem mark_of_decided {i : Nat} {log : List Event} (h : i ∈ log.filterMap Event.decided) :
    Mark.authorization i ∈ log.filterMap Event.mark := by
  rw [decided_eq_mark, List.mem_filterMap] at h
  obtain ⟨m, hm, hi⟩ := h
  cases m with
  | authorization => exact Option.some.inj hi ▸ hm
  | configured | snapshotted => cases hi

/-- What was decided by some state stands before what is decided later. -/
theorem marks_in_order {i j : Nat} {earlier later : List Event} (hlog : earlier <+: later)
    (hi : i ∈ earlier.filterMap Event.decided) (hj : j ∈ later.filterMap Event.decided)
    (hfresh : j ∉ earlier.filterMap Event.decided) :
    [Mark.authorization i, .authorization j].Sublist (later.filterMap Event.mark) := by
  obtain ⟨rest, rfl⟩ := hlog
  rw [List.filterMap_append, List.mem_append] at hj
  rw [List.filterMap_append]
  exact (List.singleton_sublist.2 (mark_of_decided hi)).append
    (List.singleton_sublist.2 (mark_of_decided (hj.resolve_left hfresh)))

/-- **Concurrent authorisations are linearisable.** When no one tampers with the evidence store and
different nonces are different to the digests, every interleaving of calls of `authorize` that have
all ended amounts to a sequential history of the same calls: each returns or raises what it did
under the threads, the protected state and the evidence store end up the same, and the order of
the history is that of the transitions, which keeps calls in order that did not overlap. -/
theorem linearizable (hsha : ShaInjective R) {a : ProtectedAuthority R} {s₀ s : State R}
    {acts : List (Act R)} (h0 : s₀.Empty) (hrun : Run (Step a) s₀ acts s)
    (huntampered : ∀ e, Act.replaceEvidence e ∉ acts)
    (hnonces : NoncesApart R fun c => ∃ cost now, Act.authorize c cost now ∈ acts)
    (hended : ∀ k ∈ s.authorizations, k.phase.result.isSome) :
    ∃ hist w, Linearization a s₀ acts s hist w := by
  have horderly : ∀ act ∈ acts,
      act.Orderly fun c => ∃ cost now, Act.authorize c cost now ∈ acts := by
    intro act hact
    cases act with
    | authorize c cost now => exact ⟨cost, now, hact⟩
    | replaceEvidence e => exact huntampered e hact
    | advance | effectuate | look | proceed | configureSource | snapshot | failNext
    | failCommits => trivial
  -- the failure injection that each call found
  have hchecked : CheckedInv s := hrun.invariant CheckedInv
    ⟨by simp [h0.log], by simp [h0.log], by simp [h0.log]⟩ fun _ _ _ h hs => h.step hs
  obtain ⟨flag, hflag, hfree⟩ :=
    hchecked.exists_flag s₀.authority.evidence_store.fail_commits
  obtain ⟨hord, hist, w, hs⟩ := exists_serial hsha hnonces h0 hrun horderly hflag
  have hlog := logInv_of_run h0 hrun
  have hlast : ∀ {i : Nat} {k}, s.authorizations[i]? = some k → k.phase.result.isSome :=
    fun hi => hended _ (List.mem_of_getElem? hi)
  refine ⟨hist, w, hs.run, hs.state, fun id => ?_, ?_, fun {i k} hi => ?_, ?_, ?_, hs.order, ?_⟩
  · refine Option.ext fun e => ?_
    rw [hs.evidence id e, hord.stored id e]
    refine and_congr_right fun _ => exists_congr fun i => ?_
    refine or_iff_left ?_
    rintro ⟨k, hi, hk⟩
    exact (decided_of_result (hlast hi)).2 hk
  · rw [hs.order, ← decided_eq_mark]
    refine (List.perm_ext_iff_of_nodup hlog.nodup List.nodup_range).2 fun i => ?_
    rw [hlog.decided, List.mem_range]
    refine ⟨fun ⟨k, hi, _⟩ => (List.getElem?_eq_some_iff.1 hi).1, fun h => ?_⟩
    have hi := List.getElem?_eq_getElem h
    exact ⟨_, hi, (decided_of_result (R := R) (hlast hi)).1⟩
  · obtain ⟨hist₁, hist₂, w₁, hsplit, hr, hout⟩ :=
      hs.results hi (decided_of_result (R := R) (hlast hi)).1
    obtain ⟨r, hr'⟩ := Option.isSome_iff_exists.1 (hlast hi)
    refine ⟨hist₁, hist₂, w₁, hsplit, hr, ?_⟩
    rw [hr', ← outcome_of_result hr']
    exact hout
  · intro hist₁ hist₂ b heq
    obtain ⟨i, c, cost, now, rest, hrest, rfl⟩ := hs.injected hist₁ hist₂ b heq
    exact ⟨i, c, cost, now, rest, hrest, hfree i⟩
  · intro hset
    refine (hs.uninjected fun i => ?_).1
    rcases hfree i with h | ⟨-, h⟩
    · exact checked_of_uninjected h0.log hrun huntampered hset h
    · exact h
  · intro acts₁ acts₂ u i j k _ hrun₁ hrun₂ hi hk hj hjs
    have hlogu := logInv_of_run h0 hrun₁
    have hiu : i ∈ u.log.filterMap Event.decided :=
      (hlogu.decided i).2 ⟨k, hi, (decided_of_result (R := R) hk).1⟩
    have hjs' : j ∈ s.log.filterMap Event.decided :=
      (hlog.decided j).2 ⟨_, List.getElem?_eq_getElem hjs,
        (decided_of_result (R := R) (hlast (List.getElem?_eq_getElem hjs))).1⟩
    -- the later call is not there yet
    have hju : j ∉ u.log.filterMap Event.decided := by
      intro h
      obtain ⟨k', hk', -⟩ := (hlogu.decided j).1 h
      have := (List.getElem?_eq_some_iff.1 hk').1
      omega
    rw [hs.order]
    exact marks_in_order (log_prefix_of_run hrun₂) hiu hjs' hju

/-- Two calls that overlap: the first starts, the second runs from its start to its end, and the
first goes on. -/
theorem run_overlapping (a : ProtectedAuthority R) {s : State R} (hs : s.authorizations = [])
    (c c' : CandidateAct) (cost cost' now now' : Int) :
    ∃ m m' s', Run (Step a) s (.authorize c cost now :: .authorize c' cost' now' ::
        (.replicate m (.advance 1) ++ .replicate m' (.advance 0))) s' ∧
      ∃ p p' : Phase, s'.authorizations = [⟨c, cost, now, p⟩, ⟨c', cost', now', p'⟩] ∧
        p'.result = some (a.authorize s.authority c' cost' now').1 ∧
        p.result = some (a.authorize (a.authorize s.authority c' cost' now').2 c cost now).1 := by
  obtain ⟨p', halone', hp'⟩ := runAlone_eq_authorize a s.authority c' cost' now'
  obtain ⟨p, halone, hp⟩ :=
    runAlone_eq_authorize a (a.authorize s.authority c' cost' now').2 c cost now
  let s₁ : State R :=
    { s with authorizations := s.authorizations ++ [⟨c, cost, now, .started⟩] }
  let s₂ : State R :=
    { s₁ with authorizations := s₁.authorizations ++ [⟨c', cost', now', .started⟩] }
  have hstart : Step a s (.authorize c cost now) s₁ := .authorize
  have hstart' : Step a s₁ (.authorize c' cost' now') s₂ := .authorize
  have hs₂ : s₂.authorizations = [⟨c, cost, now, .started⟩, ⟨c', cost', now', .started⟩] := by
    simp [s₂, s₁, hs]
  obtain ⟨m, s₃, hrun₃, hauth₃, -, hk₃⟩ := exists_run_advance 6 (i := 1)
    (show s₂.authorizations[1]? = some ⟨c', cost', now', .started⟩ by rw [hs₂]; rfl) halone'
  rw [hs₂] at hk₃
  rw [← hauth₃] at halone
  obtain ⟨m', s₄, hrun₄, -, -, hk₄⟩ := exists_run_advance 6 (i := 0)
    (show s₃.authorizations[0]? = some ⟨c, cost, now, .started⟩ by rw [hk₃]; rfl) halone
  rw [hk₃] at hk₄
  exact ⟨m, m', s₄, .cons hstart (.cons hstart' (hrun₃.append hrun₄)), p, p', hk₄, hp', hp⟩

/-- Two calls that overlap: the one that started first waits until the other one has returned. -/
theorem linearizable_sample : ∃ m m' s cap cap',
    Run (Step sampleAuthority) (State.ofWorld sampleWorld)
      (.authorize nextCandidate 1 201 :: .authorize sampleCandidate 1 200 ::
        (.replicate m (.advance 1) ++ .replicate m' (.advance 0))) s ∧
    s.authorizations.map (·.phase.result) = [some (.ok cap'), some (.ok cap)] ∧
    ∃ hist w, Linearization sampleAuthority (State.ofWorld sampleWorld)
      (.authorize nextCandidate 1 201 :: .authorize sampleCandidate 1 200 ::
        (.replicate m (.advance 1) ++ .replicate m' (.advance 0))) s hist w := by
  obtain ⟨m, m', s, hrun, p, p', hk, hp', hp⟩ := run_overlapping sampleAuthority
    (s := State.ofWorld sampleWorld) rfl nextCandidate sampleCandidate 1 1 201 200
  obtain ⟨cap, s₁, h⟩ := sample_authorize
  obtain ⟨cap', s₂, h', -⟩ := (next_grantedNext sample_context).authorize h rfl rfl
  have hauth : sampleAuthority.authorize (State.ofWorld sampleWorld).authority sampleCandidate 1
    200 = (.ok cap, s₁) := h
  have hauth' : sampleAuthority.authorize s₁ nextCandidate 1 201 = (.ok cap', s₂) := h'
  rw [hauth] at hp' hp
  rw [hauth'] at hp
  refine ⟨m, m', s, cap, cap', hrun, by simp [hk, hp, hp'], linearizable sample_injective
    (State.ofWorld_empty sampleWorld_empty) hrun ?_ ?_ ?_⟩
  · intro e he
    simp [List.mem_replicate] at he
  · intro c c' hc hc' heq
    simp only [List.mem_cons, Act.authorize.injEq, List.mem_append, List.mem_replicate,
      reduceCtorEq, and_false, or_false] at hc hc'
    obtain ⟨_, _, ⟨rfl, -⟩ | ⟨rfl, -⟩⟩ := hc <;> obtain ⟨_, _, ⟨rfl, -⟩ | ⟨rfl, -⟩⟩ := hc'
    · rfl
    · exact absurd heq.symm next_nonce
    · exact absurd heq next_nonce
    · rfl
  · intro k hmem
    rw [hk, List.mem_cons, List.mem_singleton] at hmem
    rcases hmem with rfl | rfl
    · exact hp ▸ rfl
    · exact hp' ▸ rfl

end Threads

end Finality
