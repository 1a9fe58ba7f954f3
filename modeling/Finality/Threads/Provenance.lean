import Finality.Core.Concurrency
import Finality.Sovereignty.Separation
import Finality.Threads.System

/-!
# The calls of the threads and the log

What holds of a call by the time it stands in a phase is attributed to the log: the call's own
events are part of it, in order (`Grant.Sound`). The signing history holds receipts, evidence that
an authorisation signed and capabilities that one issued (`SignedFor`), so what a sink accepts
continues the events of an authorisation (`Origin.Sound`), also when the evidence in its store was
put there by an attacker. The effectuations alone are an interleaving of `Interleaving`
(`exists_interleaving`).
-/

namespace Finality

open Checks ProtectedState ProtectedAuthority FinalitySink Runs

namespace Threads

variable {R : Runtime}

/-! ## The effectuations are an interleaving -/

/-- The effectuations of a state and what they share. -/
def State.interleaving (s : State R) : Interleaving.State R :=
  ⟨s.effects, s.effectuations.map Effectuation.call, s.log.filterMap Event.maker⟩

/-- Nothing has happened at the sinks of an empty state. -/
theorem State.Empty.interleaving {s : State R} (h : s.Empty) : s.interleaving.Empty where
  claims := h.world.claims
  records := h.world.records
  calls := by simp [State.interleaving, h.effectuations]
  makers := by simp [State.interleaving, h.log]

/-- No step of an authorisation makes an effect. -/
@[simp] theorem maker_events (i : Nat) (s s' : AuthorityStores R) (p q : Phase) :
    (p.events i s s' q).filterMap Event.maker = [] := by
  cases p <;> cases q <;> rfl

/-- A step of an effectuation is in the log as an effect when it makes one. -/
theorem maker_effectEvents {k : Interleaving.Call R} {ev : EvidenceStore R} {st : ProtectedState}
    {stores stores' : EffectStores} {p : Interleaving.Phase} (j : Nat)
    (h : Interleaving.Moves k ev st stores p stores') :
    (effectEvents j k.phase p).filterMap Event.maker =
      if k.phase.effect = p.effect then [] else [j] := by
  cases h with
  | unverified hp => rw [hp]; rfl
  | verified hp => rw [hp]; rfl
  | replayed hp => rw [hp]; rfl
  | claimed hp => rw [hp]; rfl
  | denied hp => rw [hp]; rfl
  | committed hp => rw [hp]; rfl
  | unreceipted hp => rw [hp]; exact (if_pos rfl).symm
  | returned hp hr => rw [hp]; exact (if_pos hr.effect_reference.symm).symm

/-- **A step of the system** is a step of its effectuations or none. -/
theorem interleaving_step {a : ProtectedAuthority R} {s s' : State R} {act : Act R}
    (h : Step a s act s') : s'.interleaving = s.interleaving ∨
      ∃ act', Interleaving.Step s.interleaving act' s'.interleaving := by
  cases h with
  | authorize => exact .inl rfl
  | advance hi h =>
    exact .inl (by simp [State.interleaving, State.advance, List.filterMap_append])
  | @effectuate sink candidate cap now proof =>
    refine .inr ⟨.start sink candidate cap now proof, ?_⟩
    have hstep : Interleaving.Step s.interleaving (.start sink candidate cap now proof) _ := .start
    simpa [State.interleaving] using hstep
  | @look j k hj hk =>
    have hcall : (s.effectuations.map Effectuation.call)[j]? = some k.call := by simp [hj]
    obtain ⟨hlt, hget⟩ := List.getElem?_eq_some_iff.1 hcall
    refine .inl ?_
    simp only [State.interleaving, State.look, List.map_set]
    rw [← hget, List.set_getElem_self]
  | @proceed j k ev p effects hj hev hunf hnext =>
    have hcall : s.interleaving.calls[j]? = some k.call := by
      simp [State.interleaving, hj]
    refine .inr ⟨.advance j ev s.authority.state, ?_⟩
    have hstep := Interleaving.Step.advance (s := s.interleaving) hcall hnext
    have hmakers := maker_effectEvents j (Interleaving.moves hnext)
    have hmove : (s.proceed j k p effects).interleaving =
        s.interleaving.move j k.call p effects := by
      simp only [State.interleaving, State.proceed, Interleaving.State.move,
        Interleaving.State.makersAfter, List.map_set, List.filterMap_append, hmakers]
      split <;> simp
    rw [hmove]
    exact hstep
  | configureSource => exact .inl (by simp [State.interleaving, Event.maker])
  | snapshot => exact .inl (by simp [State.interleaving, Event.maker])
  | failNext => exact .inr ⟨.failNext, .failNext⟩
  | failCommits => exact .inl rfl
  | replaceEvidence => exact .inl rfl

/-- **The effectuations of a run are an interleaving.** -/
theorem exists_interleaving {a : ProtectedAuthority R} {s₀ s : State R} {acts : List (Act R)}
    (hrun : Run (Step a) s₀ acts s) :
    ∃ acts', Run Interleaving.Step s₀.interleaving acts' s.interleaving := by
  refine hrun.invariant (fun s => ∃ acts', Run Interleaving.Step s₀.interleaving acts'
    s.interleaving) ⟨[], .nil⟩ ?_
  rintro s act s' ⟨acts', hr⟩ hs
  rcases interleaving_step hs with he | ⟨act', hs'⟩
  · exact ⟨acts', he ▸ hr⟩
  · exact ⟨acts' ++ [act'], hr.snoc hs'⟩

/-! ## What a later state keeps -/

/-- An element of a list with one replaced. -/
theorem getElem?_set_eq_some {α : Type} {xs : List α} {i j : Nat} {x y : α}
    (h : (xs.set i x)[j]? = some y) : (i = j ∧ x = y) ∨ (i ≠ j ∧ xs[j]? = some y) := by
  rcases eq_or_ne i j with rfl | hne
  · rw [List.getElem?_set_self'] at h
    obtain ⟨z, -, hz⟩ := Option.map_eq_some_iff.1 h
    exact .inl ⟨rfl, hz⟩
  · exact .inr ⟨hne, (List.getElem?_set_ne hne) ▸ h⟩

/-- Writing what is there. -/
theorem set_eq_of_getElem? {α : Type} {l : List α} {i : Nat} {x : α} (h : l[i]? = some x) :
    l.set i x = l := by
  obtain ⟨hlt, rfl⟩ := List.getElem?_eq_some_iff.1 h
  exact List.set_getElem_self hlt

/-- The log has grown, and the authorisations called are still there. -/
structure Later (s s' : State R) : Prop where
  log : s.log <+: s'.log
  called : ∀ {i : Nat} {c cost now p}, s.authorizations[i]? = some ⟨c, cost, now, p⟩ →
    ∃ p', s'.authorizations[i]? = some ⟨c, cost, now, p'⟩

/-- A step of the authorisation `i` leaves the others alone. -/
theorem getElem?_advance {s : State R} {i j : Nat} {k : Call} {p : Phase}
    {authority : AuthorityStores R} (hi : s.authorizations[i]? = some k) :
    (s.advance i k p authority).authorizations[j]? =
      if j = i then some { k with phase := p } else s.authorizations[j]? := by
  obtain ⟨hlt, -⟩ := List.getElem?_eq_some_iff.1 hi
  simp only [State.advance, List.getElem?_set]
  rcases eq_or_ne i j with rfl | hne
  · simp [hlt]
  · simp [hne, hne.symm]

/-- A step leads to a later state. -/
theorem Later.step {a : ProtectedAuthority R} {s s' : State R} {act : Act R}
    (h : Step a s act s') : Later s s' := by
  cases h with
  | authorize =>
    exact ⟨List.prefix_rfl, fun h => ⟨_, Interleaving.getElem?_concat_eq_some.2 (.inl h)⟩⟩
  | @advance i k p authority hi h =>
    refine ⟨List.prefix_append .., ?_⟩
    intro j c cost now q hj
    rw [getElem?_advance hi]
    rcases eq_or_ne j i with rfl | hne
    · obtain rfl : k = ⟨c, cost, now, q⟩ := Option.some.inj (hi.symm.trans hj)
      exact ⟨p, if_pos rfl⟩
    · exact ⟨q, (if_neg hne).trans hj⟩
  | effectuate => exact ⟨List.prefix_rfl, fun h => ⟨_, h⟩⟩
  | look => exact ⟨List.prefix_rfl, fun h => ⟨_, h⟩⟩
  | proceed => exact ⟨List.prefix_append .., fun h => ⟨_, h⟩⟩
  | configureSource => exact ⟨List.prefix_append .., fun h => ⟨_, h⟩⟩
  | snapshot => exact ⟨List.prefix_append .., fun h => ⟨_, h⟩⟩
  | failNext => exact ⟨List.prefix_rfl, fun h => ⟨_, h⟩⟩
  | failCommits => exact ⟨List.prefix_rfl, fun h => ⟨_, h⟩⟩
  | replaceEvidence => exact ⟨List.prefix_rfl, fun h => ⟨_, h⟩⟩

/-! ## Authorisations and their events -/

/-- A transition granted to the authorisation `i`, and the protected state around it. -/
structure Grant where
  i : Nat
  candidate : CandidateAct
  cost : Int
  now : Int
  transition : StateTransition
  before : ProtectedState
  after : ProtectedState

/-- The grant was made in the course of the call it names, under a policy that allowed the
candidate, and the events `rest` came after it, in this order. -/
structure Grant.Sound (g : Grant) (a : ProtectedAuthority R) (s : State R) (rest : List Event) :
    Prop where
  called : ∃ p, s.authorizations[g.i]? = some ⟨g.candidate, g.cost, g.now, p⟩
  allowed : a.policy.Allows g.candidate g.now
  granted : Granted R g.before g.candidate g.cost g.transition g.after
  order : (.granted g.i g.transition g.before g.after :: rest).Sublist s.log

/-- A grant is traced in every later state. -/
theorem Grant.Sound.mono {g : Grant} {a : ProtectedAuthority R} {s s' : State R}
    {rest : List Event} (h : g.Sound a s rest) (hle : Later s s') : g.Sound a s' rest where
  called := h.called.elim fun _ hp => hle.called hp
  allowed := h.allowed
  granted := h.granted
  order := h.order.trans hle.log.sublist

/-- One more event at the end of the log. -/
theorem Grant.Sound.snoc {g : Grant} {a : ProtectedAuthority R} {s s' : State R}
    {rest events : List Event} (h : g.Sound a s rest) (hle : Later s s')
    (hlog : s'.log = s.log ++ events) : g.Sound a s' (rest ++ events) where
  called := h.called.elim fun _ hp => hle.called hp
  allowed := h.allowed
  granted := h.granted
  order := by
    rw [hlog, ← List.cons_append]
    exact h.order.append (List.Sublist.refl _)

/-- The grant of a call in progress. -/
def Call.grant (k : Call) (i : Nat) (t : StateTransition) (before after : ProtectedState) : Grant :=
  ⟨i, k.candidate, k.cost, k.now, t, before, after⟩

/-- The evidence a grant led to. -/
def Grant.Evidences (a : ProtectedAuthority R) (g : Grant) (e : ValidationEvidence) : Prop :=
  EvidenceIssued a g.candidate g.transition g.now e

/-- The capability a grant led to. -/
def Grant.Issues (a : ProtectedAuthority R) (g : Grant) (e : ValidationEvidence)
    (cap : Capability) : Prop :=
  CapabilityIssued a g.candidate g.transition e g.now cap

/-- What holds of the authorisation `i` where it stands. -/
def Traced (a : ProtectedAuthority R) (s : State R) (i : Nat) (k : Call) : Prop :=
  match k.phase with
  | .started | .raised _ => True
  | .validated d => buildHcad R k.candidate none none = .ok d ∧ a.policy.Allows k.candidate k.now
  | .granted d t => buildHcad R k.candidate none none = .ok d ∧
      ∃ before after, (k.grant i t before after).Sound a s []
  | .signed d t e | .checked d t e => buildHcad R k.candidate none none = .ok d ∧
      ∃ before after, (k.grant i t before after).Evidences a e ∧
        (k.grant i t before after).Sound a s [.signed i e]
  | .committed d t e => buildHcad R k.candidate none none = .ok d ∧
      ∃ before after, (k.grant i t before after).Evidences a e ∧
        (k.grant i t before after).Sound a s [.signed i e, .committed i e]
  | .returned cap => ∃ t e before after, (k.grant i t before after).Evidences a e ∧
      (k.grant i t before after).Issues a e cap ∧
      (k.grant i t before after).Sound a s [.signed i e, .committed i e, .issued i cap]

/-- So is a call. -/
theorem Traced.mono {a : ProtectedAuthority R} {s s' : State R} {i : Nat} {k : Call}
    (h : Traced a s i k) (hle : Later s s') : Traced a s' i k := by
  unfold Traced at h ⊢
  split
  case h_1 | h_2 => trivial
  case h_3 hp =>
    simp only [hp] at h
    exact h
  case h_4 hp =>
    simp only [hp] at h
    obtain ⟨hd, before, after, hg⟩ := h
    exact ⟨hd, before, after, hg.mono hle⟩
  case h_5 hp | h_6 hp | h_7 hp =>
    simp only [hp] at h
    obtain ⟨hd, before, after, he, hg⟩ := h
    exact ⟨hd, before, after, he, hg.mono hle⟩
  case h_8 hp =>
    simp only [hp] at h
    obtain ⟨t, e, before, after, he, hc, hg⟩ := h
    exact ⟨t, e, before, after, he, hc, hg.mono hle⟩

/-- **A call of `authorize` is traced through each of its steps.** -/
theorem Traced.moves {a : ProtectedAuthority R} {s s' : State R} {i : Nat} {k : Call} {p : Phase}
    {authority : AuthorityStores R} (hi : s.authorizations[i]? = some k) (h : Traced a s i k)
    (hm : Moves a k s.authority p authority) (hle : Later s s')
    (hlog : s'.log = s.log ++ k.phase.events i s.authority authority p) :
    Traced a s' i { k with phase := p } := by
  cases hm with
  | invalid | refused | unsigned | unchecked | duplicate | unissued => trivial
  | validated hp hd hallow => exact ⟨hd, hallow⟩
  | @granted d t st hp hg =>
    simp only [Traced, hp] at h
    rw [hp] at hlog
    exact ⟨h.1, s.authority.state, st, hle.called hi, h.2, hg, by
      rw [hlog]
      exact List.sublist_append_right ..⟩
  | @signed d t ev hp hev =>
    simp only [Traced, hp] at h
    rw [hp] at hlog
    obtain ⟨hd, before, after, hg⟩ := h
    exact ⟨hd, before, after, issueEvidence_ok hd hev, hg.snoc hle hlog⟩
  | checked hp hb =>
    simp only [Traced, hp] at h
    obtain ⟨hd, before, after, he, hg⟩ := h
    exact ⟨hd, before, after, he, hg.mono hle⟩
  | committed hp hdup =>
    simp only [Traced, hp] at h
    rw [hp] at hlog
    obtain ⟨hd, before, after, he, hg⟩ := h
    exact ⟨hd, before, after, he, hg.snoc hle hlog⟩
  | returned hp hcap =>
    simp only [Traced, hp] at h
    rw [hp] at hlog
    obtain ⟨hd, before, after, he, hg⟩ := h
    exact ⟨_, _, before, after, he, issueCapability_ok hd hcap, hg.snoc hle hlog⟩

/-! ## The signing history -/

/-- What the key has signed: receipts, evidence and capabilities. -/
inductive SignedFor (a : ProtectedAuthority R) (s : State R) (u : PyVal) : Prop
  | receipt (j : Nat) (r : SinkReceipt) (hu : u = r.unsigned) (hr : Event.receipted j r ∈ s.log)
  | evidence (g : Grant) (e : ValidationEvidence) (hu : u = e.unsigned) (he : g.Evidences a e)
      (hg : g.Sound a s [.signed g.i e])
  | capability (g : Grant) (e : ValidationEvidence) (cap : Capability) (hu : u = cap.unsigned)
      (he : g.Evidences a e) (hc : g.Issues a e cap)
      (hg : g.Sound a s [.signed g.i e, .committed g.i e, .issued g.i cap])

/-- So is a signature. -/
theorem SignedFor.mono {a : ProtectedAuthority R} {s s' : State R} {u : PyVal}
    (h : SignedFor a s u) (hle : Later s s') : SignedFor a s' u := by
  cases h with
  | receipt j r hu hr => exact .receipt j r hu (hle.log.subset hr)
  | evidence g e hu he hg => exact .evidence g e hu he (hg.mono hle)
  | capability g e cap hu he hc hg => exact .capability g e cap hu he hc (hg.mono hle)

/-- **What a call of `authorize` signs.** -/
theorem signedFor_moves {a : ProtectedAuthority R} {s s' : State R} {i : Nat} {k : Call}
    {p : Phase} {authority : AuthorityStores R}
    (hsigned : ∀ u ∈ s.authority.signed, SignedFor a s u) (hle : Later s s')
    (hm : Moves a k s.authority p authority) (ht : Traced a s' i { k with phase := p }) :
    ∀ u ∈ authority.signed, SignedFor a s' u := by
  intro u hu
  have hold : u ∈ s.authority.signed → SignedFor a s' u := fun hu => (hsigned u hu).mono hle
  cases hm with
  | signed hp he =>
    obtain ⟨-, before, after, he, hg⟩ := ht
    rcases List.mem_append.1 hu with hu | hu
    · exact hold hu
    · exact .evidence _ _ (List.mem_singleton.1 hu) he hg
  | returned hp hcap =>
    obtain ⟨t, e, before, after, he, hc, hg⟩ := ht
    rcases List.mem_append.1 hu with hu | hu
    · exact hold hu
    · exact .capability _ _ _ (List.mem_singleton.1 hu) he hc hg
  | invalid | validated | refused | granted | unsigned | unchecked | checked | duplicate
  | committed | unissued => exact hold hu

/-- A capability that was signed before agrees with one that an authorisation issued. -/
theorem exists_issued {a : ProtectedAuthority R} {s : State R} {cap : Capability}
    (hsigned : ∀ u ∈ s.authority.signed, SignedFor a s u)
    (h : SignedBefore s.authority cap.unsigned) :
    ∃ (g : Grant) (e : ValidationEvidence) (cap₀ : Capability), g.Evidences a e ∧
      g.Issues a e cap₀ ∧ g.Sound a s [.signed g.i e, .committed g.i e, .issued g.i cap₀] ∧
      CapabilityEqv R cap cap₀ := by
  obtain ⟨u, hu, b, hub, hcb⟩ := h
  have heqv : Eqv R cap.unsigned u := eqv_of_canonicalBytes hcb hub
  cases hsigned u hu with
  | receipt j r h => exact (Artefact.agree_of_eqv (x := .capability cap) (y := .sinkReceipt r)
      (h ▸ heqv)).elim
  | evidence g e h => exact (Artefact.agree_of_eqv (x := .capability cap)
      (y := .validationEvidence e) (h ▸ heqv)).elim
  | capability g e cap₀ h he hc hg =>
    exact ⟨g, e, cap₀, he, hc, hg, capabilityEqv_of_eqv (h ▸ heqv)⟩

/-- Evidence that was signed before agrees with what an authorisation signed. -/
theorem exists_signed {a : ProtectedAuthority R} {s : State R} {e : ValidationEvidence}
    (hsigned : ∀ u ∈ s.authority.signed, SignedFor a s u)
    (h : SignedBefore s.authority e.unsigned) :
    ∃ (g : Grant) (e₀ : ValidationEvidence), g.Evidences a e₀ ∧
      g.Sound a s [.signed g.i e₀] ∧ EvidenceEqv R e e₀ := by
  obtain ⟨u, hu, b, hub, hcb⟩ := h
  have heqv : Eqv R e.unsigned u := eqv_of_canonicalBytes hcb hub
  cases hsigned u hu with
  | receipt j r h => exact (Artefact.agree_of_eqv (x := .validationEvidence e)
      (y := .sinkReceipt r) (h ▸ heqv)).elim
  | evidence g e₀ h he hg => exact ⟨g, e₀, he, hg, evidenceEqv_of_eqv (h ▸ heqv)⟩
  | capability g e₀ cap h => exact (Artefact.agree_of_eqv (x := .validationEvidence e)
      (y := .capability cap) (h ▸ heqv)).elim

/-! ## Effectuations and the authorisations behind them -/

/-- Where an effectuation's capability and evidence came from: the grant and the capability it
led to, the grant whose evidence the sink accepted, and what the sink read. -/
structure Origin (R : Runtime) where
  grant : Grant
  evidence : ValidationEvidence
  cap : Capability
  attesting : Grant
  attested : ValidationEvidence
  evidence_store : EvidenceStore R
  state : ProtectedState
  descriptor_digest : PyStr

/-- The effectuation `j`, which is `k`, goes back to `o`: the events of the authorisations came
before its verification, and the events `rest` after it. -/
structure Origin.Sound (o : Origin R) (a : ProtectedAuthority R) (s : State R) (j : Nat)
    (k : Interleaving.Call R) (rest : List Event) : Prop where
  evidences : o.grant.Evidences a o.evidence
  issues : o.grant.Issues a o.evidence o.cap
  grant : o.grant.Sound a s (.signed o.grant.i o.evidence :: .committed o.grant.i o.evidence ::
    .issued o.grant.i o.cap :: .verified j :: rest)
  capability : CapabilityEqv R k.cap o.cap
  attests : o.attesting.Evidences a o.attested
  attesting : o.attesting.Sound a s (.signed o.attesting.i o.attested :: .verified j :: rest)
  verified : Verified k.sink o.evidence_store o.state k.candidate k.cap k.now
    k.presentation_proof o.descriptor_digest
  accepted : ∃ e, o.evidence_store.get k.cap.evidence_id = some e ∧ EvidenceEqv R e o.attested ∧
    EvidenceMatches k.sink k.cap e

/-- The origin of a capability is traced in every later state, while its call goes on. -/
theorem Origin.Sound.snoc {o : Origin R} {a : ProtectedAuthority R} {s s' : State R} {j : Nat}
    {k k' : Interleaving.Call R} {rest events : List Event} (h : o.Sound a s j k rest)
    (hle : Later s s') (hlog : s'.log = s.log ++ events) (hk : k' = { k with phase := k'.phase }) :
    o.Sound a s' j k' (rest ++ events) where
  evidences := h.evidences
  issues := h.issues
  grant := h.grant.snoc hle hlog
  capability := by
    rw [hk]
    exact h.capability
  attests := h.attests
  attesting := h.attesting.snoc hle hlog
  verified := by
    rw [hk]
    exact h.verified
  accepted := by
    rw [hk]
    exact h.accepted

/-- The events of an effectuation after its verification, by where it stands. -/
def eventsBy (j : Nat) : Interleaving.Phase → Option (List Event)
  | .verified _ => some []
  | .claimed _ | .denied _ => some [.claimed j]
  | .committed .. | .unreceipted .. => some [.claimed j, .effected j]
  | .returned receipt => some [.claimed j, .effected j, .receipted j receipt]
  | .started | .unverified _ | .replayed _ => none

/-- What holds of the effectuation `j` where it stands. -/
def EffectTraced (a : ProtectedAuthority R) (s : State R) (j : Nat) (k : Interleaving.Call R) :
    Prop :=
  ∀ rest, eventsBy j k.phase = some rest → ∃ o : Origin R, o.Sound a s j k rest

/-- So is an effect. -/
theorem EffectTraced.mono {a : ProtectedAuthority R} {s s' : State R} {j : Nat}
    {k : Interleaving.Call R} (h : EffectTraced a s j k) (hle : Later s s') :
    EffectTraced a s' j k := by
  intro rest hrest
  obtain ⟨o, ho⟩ := h rest hrest
  exact ⟨o, { ho with grant := ho.grant.mono hle, attesting := ho.attesting.mono hle }⟩

/-- A step of an effectuation verifies, or adds its events to those since the verification, or
leaves it without any. -/
theorem eventsBy_moves {k : Interleaving.Call R} {ev : EvidenceStore R} {st : ProtectedState}
    {stores stores' : EffectStores} {p : Interleaving.Phase} (j : Nat)
    (h : Interleaving.Moves k ev st stores p stores') :
    (∃ d, k.phase = .started ∧ p = .verified d ∧
      Verified k.sink ev st k.candidate k.cap k.now k.presentation_proof d) ∨
    eventsBy j p = none ∨
    ∃ rest, eventsBy j k.phase = some rest ∧
      eventsBy j p = some (rest ++ effectEvents j k.phase p) := by
  cases h with
  | unverified hp => exact .inr (.inl rfl)
  | verified hp hv => exact .inl ⟨_, hp, rfl, hv⟩
  | replayed hp => exact .inr (.inl rfl)
  | claimed hp => exact .inr (.inr ⟨[], by rw [hp]; rfl, by rw [hp]; rfl⟩)
  | denied hp => exact .inr (.inr ⟨_, by rw [hp]; rfl, by rw [hp]; rfl⟩)
  | committed hp => exact .inr (.inr ⟨_, by rw [hp]; rfl, by rw [hp]; rfl⟩)
  | unreceipted hp => exact .inr (.inr ⟨_, by rw [hp]; rfl, by rw [hp]; rfl⟩)
  | returned hp => exact .inr (.inr ⟨_, by rw [hp]; rfl, by rw [hp]; rfl⟩)

/-- **A verification goes back to authorisations.** -/
theorem exists_origin {a : ProtectedAuthority R} {s s' : State R} {j : Nat}
    {k : Interleaving.Call R} {ev : EvidenceStore R} {d : PyStr}
    (hsigned : ∀ u ∈ s.authority.signed, SignedFor a s u) (hunf : Unforged s.authority k ev)
    (hv : Verified k.sink ev s.authority.state k.candidate k.cap k.now k.presentation_proof d)
    (hle : Later s s') (hlog : s'.log = s.log ++ [.verified j]) :
    ∃ o : Origin R, o.Sound a s' j { k with phase := .verified d } [] := by
  obtain ⟨g, e, cap, he, hc, hg, heqv⟩ := exists_issued hsigned (hunf.1 hv.signed)
  obtain ⟨e', hget, hmatch⟩ := hv.evidence
  obtain ⟨g', e₀, he₀, hg', heqv'⟩ := exists_signed hsigned (hunf.2 e' hget hmatch.signed)
  exact ⟨⟨g, e, cap, g', e₀, ev, s.authority.state, d⟩,
    { evidences := he
      issues := hc
      grant := hg.snoc hle hlog
      capability := heqv
      attests := he₀
      attesting := hg'.snoc hle hlog
      verified := hv
      accepted := ⟨e', hget, heqv', hmatch⟩ }⟩

/-! ## The invariant -/

/-- What holds of the calls and of the signing history in every state reached. -/
structure Inv (a : ProtectedAuthority R) (s : State R) : Prop where
  traced : ∀ {i : Nat} {k}, s.authorizations[i]? = some k → Traced a s i k
  signed : ∀ u ∈ s.authority.signed, SignedFor a s u
  effects : ∀ {j : Nat} {k}, s.effectuations[j]? = some k → EffectTraced a s j k.call

/-- There is nothing to trace at the start. -/
theorem inv_of_empty {a : ProtectedAuthority R} {s : State R} (h : s.Empty) : Inv a s where
  traced := by simp [h.authorizations]
  signed := by
    have hnil : s.authority.signed = [] := h.world.signed
    simp [hnil]
  effects := by simp [h.effectuations]

/-- A step that moves no call and signs nothing. -/
theorem Inv.idle {a : ProtectedAuthority R} {s s' : State R} (hinv : Inv a s) (hle : Later s s')
    (hauth : s'.authorizations = s.authorizations) (heff : s'.effectuations = s.effectuations)
    (hsigned : s'.authority.signed = s.authority.signed) : Inv a s' where
  traced := fun hi => (hinv.traced (hauth ▸ hi)).mono hle
  signed := fun u hu => (hinv.signed u (hsigned ▸ hu)).mono hle
  effects := fun hj => (hinv.effects (heff ▸ hj)).mono hle

/-- **The invariant is kept by every step.** -/
theorem Inv.step {a : ProtectedAuthority R} {s s' : State R} {act : Act R} (hinv : Inv a s)
    (h : Step a s act s') : Inv a s' := by
  have hle : Later s s' := .step h
  cases h with
  | configureSource | snapshot | failNext | failCommits | replaceEvidence =>
    exact hinv.idle hle rfl rfl rfl
  | authorize =>
    refine ⟨fun hi => ?_, fun u hu => (hinv.signed u hu).mono hle,
      fun hj => (hinv.effects hj).mono hle⟩
    rcases Interleaving.getElem?_concat_eq_some.1 hi with hi | ⟨-, rfl⟩
    · exact (hinv.traced hi).mono hle
    · trivial
  | @advance i k p authority hi h =>
    have hm := moves h
    have ht : Traced a (s.advance i k p authority) i { k with phase := p } :=
      (hinv.traced hi).moves hi hm hle rfl
    refine ⟨fun hj => ?_, signedFor_moves hinv.signed hle hm ht,
      fun hj => (hinv.effects hj).mono hle⟩
    rw [getElem?_advance hi] at hj
    split at hj
    · rename_i hji
      obtain rfl := Option.some.inj hj
      exact hji ▸ ht
    · exact (hinv.traced hj).mono hle
  | effectuate =>
    refine ⟨fun hi => (hinv.traced hi).mono hle, fun u hu => (hinv.signed u hu).mono hle,
      fun hj => ?_⟩
    rcases Interleaving.getElem?_concat_eq_some.1 hj with hj | ⟨-, rfl⟩
    · exact (hinv.effects hj).mono hle
    · intro rest hrest
      cases hrest
  | @look j k hj hk =>
    refine ⟨fun hi => (hinv.traced hi).mono hle, fun u hu => (hinv.signed u hu).mono hle,
      fun hi => ?_⟩
    rcases getElem?_set_eq_some hi with ⟨rfl, rfl⟩ | ⟨-, hi⟩
    · exact (hinv.effects hj).mono hle
    · exact (hinv.effects hi).mono hle
  | @proceed j k ev p effects hj hev hunf hnext =>
    have hm := Interleaving.moves hnext
    refine ⟨fun hi => (hinv.traced hi).mono hle, fun u hu => ?_, fun hi => ?_⟩
    · rcases List.mem_append.1 hu with hu | hu
      · exact (hinv.signed u hu).mono hle
      · cases p with
        | returned receipt =>
          refine .receipt j receipt (List.mem_singleton.1 hu) (List.mem_append_right _ ?_)
          cases hm with
          | returned hp => simp [hp, effectEvents]
        | _ => cases hu
    · rcases getElem?_set_eq_some hi with ⟨rfl, rfl⟩ | ⟨-, hi⟩
      · intro rest hrest
        rcases eventsBy_moves j hm with ⟨d, hp, rfl, hv⟩ | hnone | ⟨rest', hr', hr⟩
        · obtain rfl : [] = rest := Option.some.inj hrest
          have hlog : (s.proceed j k (.verified d) effects).log = s.log ++ [.verified j] := by
            rw [State.proceed, hp]
            rfl
          exact exists_origin hinv.signed (hunf hp) hv hle hlog
        · cases hnone.symm.trans hrest
        · obtain ⟨o, ho⟩ := hinv.effects hj rest' hr'
          obtain rfl := Option.some.inj (hr.symm.trans hrest)
          exact ⟨o, ho.snoc hle rfl rfl⟩
      · exact (hinv.effects hi).mono hle

/-- **Everything is traced in every state of a run.** -/
theorem inv_of_run {a : ProtectedAuthority R} {s₀ s : State R} {acts : List (Act R)}
    (h0 : s₀.Empty) (hrun : Run (Step a) s₀ acts s) : Inv a s :=
  hrun.invariant (Inv a) (inv_of_empty h0) fun _ _ _ h hs => h.step hs

end Threads

end Finality
