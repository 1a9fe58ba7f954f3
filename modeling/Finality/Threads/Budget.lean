import Mathlib.Algebra.Order.BigOperators.Group.List
import Finality.Core.Conservation
import Finality.Threads.Soundness

/-!
# Effects are paid for

Each authorisation decides its transition once and issues at most one capability, and a capability
makes at most one effect, so effects with one authorisation behind them are one effect
(`grant_inj`). The protected state charges a source for every transition it grants, whatever the
threads do in between, so the effects made under a source's grants never cost more than the source
was charged (`effects_paid`).
-/

namespace Finality

open Checks ProtectedState ProtectedAuthority FinalitySink Runs

namespace Threads

variable {R : Runtime} {a : ProtectedAuthority R}

/-! ## What the log says of an authorisation -/

/-- The authorisation whose transition an event decides. -/
def Event.decided : Event → Option Nat
  | refused i => some i
  | granted i .. => some i
  | _ => none

/-- The transition of a call has been decided. -/
def Phase.decided : Phase → Bool
  | started | validated _ => false
  | granted .. | signed .. | checked .. | committed .. | returned _ | raised _ => true

/-- The log decides each authorisation once, when it is past its decision, and those that issued
a capability returned it. -/
structure LogInv (s : State R) : Prop where
  nodup : (s.log.filterMap Event.decided).Nodup
  decided : ∀ i, i ∈ s.log.filterMap Event.decided ↔
    ∃ k, s.authorizations[i]? = some k ∧ k.phase.decided = true
  issued : ∀ {i cap}, Event.issued i cap ∈ s.log →
    ∃ k, s.authorizations[i]? = some k ∧ k.phase = .returned cap

/-- An empty log at the start. -/
theorem logInv_of_empty {s : State R} (h : s.Empty) : LogInv s where
  nodup := by simp [h.log]
  decided := by simp [h.log, h.authorizations]
  issued := by simp [h.log]

/-- A step of an authorisation decides it when it leaves its first two phases, and issues what it
returns. -/
theorem events_moves {k : Call} {s s' : AuthorityStores R} {p : Phase} (i : Nat)
    (h : Moves a k s p s') :
    ((k.phase.events i s s' p).filterMap Event.decided =
      if k.phase.decided = p.decided then [] else [i]) ∧
    (k.phase.decided = true → p.decided = true) ∧
    (∀ {j cap}, Event.issued j cap ∈ k.phase.events i s s' p → j = i ∧ p = .returned cap) ∧
    ∀ cap, k.phase ≠ .returned cap := by
  cases h with
  | invalid hp => simp [hp, Phase.events, Event.decided, Phase.decided]
  | validated hp => simp [hp, Phase.events, Phase.decided]
  | refused hp => simp [hp, Phase.events, Event.decided, Phase.decided]
  | granted hp => simp [hp, Phase.events, Event.decided, Phase.decided]
  | unsigned hp => simp [hp, Phase.events, Phase.decided]
  | signed hp => simp [hp, Phase.events, Event.decided, Phase.decided]
  | unchecked hp => simp [hp, Phase.events, Event.decided, Phase.decided]
  | checked hp => simp [hp, Phase.events, Event.decided, Phase.decided]
  | duplicate hp => simp [hp, Phase.events, Phase.decided]
  | committed hp => simp [hp, Phase.events, Event.decided, Phase.decided]
  | unissued hp => simp [hp, Phase.events, Phase.decided]
  | returned hp => simp [hp, Phase.events, Event.decided, Phase.decided]

/-- No step of an effectuation decides an authorisation or issues a capability. -/
theorem decided_effectEvents (j : Nat) (p q : Interleaving.Phase) :
    (effectEvents j p q).filterMap Event.decided = [] ∧
      ∀ {i cap}, Event.issued i cap ∉ effectEvents j p q := by
  cases p <;> cases q <;> simp [effectEvents, Event.decided]

/-- A step that moves no authorisation and decides and issues nothing. -/
theorem LogInv.idle {s s' : State R} {events : List Event} (hinv : LogInv s)
    (hauth : s'.authorizations = s.authorizations) (hlog : s'.log = s.log ++ events)
    (hdecided : events.filterMap Event.decided = [])
    (hissued : ∀ {i cap}, Event.issued i cap ∉ events) : LogInv s' where
  nodup := by
    rw [hlog, List.filterMap_append, hdecided, List.append_nil]
    exact hinv.nodup
  decided := fun i => by
    rw [hlog, List.filterMap_append, hdecided, List.append_nil, hauth]
    exact hinv.decided i
  issued := fun h => by
    rw [hlog] at h
    rw [hauth]
    exact hinv.issued ((List.mem_append.1 h).resolve_right hissued)

/-- **Every step keeps the account of the log.** -/
theorem LogInv.step {s s' : State R} {act : Act R} (hinv : LogInv s) (h : Step a s act s') :
    LogInv s' := by
  cases h with
  | @authorize c cost now =>
    refine ⟨hinv.nodup, fun i => ?_, fun h => ?_⟩
    · rw [hinv.decided i]
      refine ⟨fun ⟨k, hk, hp⟩ => ⟨k, Interleaving.getElem?_concat_eq_some.2 (.inl hk), hp⟩, ?_⟩
      rintro ⟨k, hk, hp⟩
      rcases Interleaving.getElem?_concat_eq_some.1 hk with hk | ⟨-, rfl⟩
      · exact ⟨k, hk, hp⟩
      · cases hp
    · obtain ⟨k, hk, hp⟩ := hinv.issued h
      exact ⟨k, Interleaving.getElem?_concat_eq_some.2 (.inl hk), hp⟩
  | @advance i k p authority hi hnext =>
    obtain ⟨hdecided, hmono, hissued, hnot⟩ := events_moves i (moves hnext)
    -- the call that moved, and the others
    have hget : ∀ {j : Nat} {k' : Call}, j ≠ i → ((s.advance i k p authority).authorizations[j]? =
        some k' ↔ s.authorizations[j]? = some k') := fun hne => by
      rw [getElem?_advance hi, if_neg hne]
    have hself : (s.advance i k p authority).authorizations[i]? = some { k with phase := p } :=
      (getElem?_advance hi).trans (if_pos rfl)
    refine ⟨?_, fun j => ?_, fun {j cap} h => ?_⟩
    · rw [State.advance, List.filterMap_append, hdecided]
      split
      · rw [List.append_nil]
        exact hinv.nodup
      · rename_i hne
        refine List.nodup_append.2 ⟨hinv.nodup, List.nodup_singleton i, ?_⟩
        rintro j hj _ hj' rfl
        obtain rfl := List.mem_singleton.1 hj'
        obtain ⟨k', hk', hp⟩ := (hinv.decided j).1 hj
        obtain rfl : k = k' := Option.some.inj (hi.symm.trans hk')
        exact hne (hp.trans (hmono hp).symm)
    · have hlog : (s.advance i k p authority).log.filterMap Event.decided =
          s.log.filterMap Event.decided ++ if k.phase.decided = p.decided then [] else [i] := by
        rw [State.advance, List.filterMap_append, hdecided]
      rw [hlog, List.mem_append]
      rcases eq_or_ne j i with rfl | hne
      · simp only [hself, Option.some.injEq, exists_eq_left']
        rw [hinv.decided j]
        simp only [hi, Option.some.injEq, exists_eq_left']
        split
        · rename_i hsame
          simp [hsame]
        · rename_i hdiff
          refine ⟨fun _ => ?_, fun _ => .inr (List.mem_singleton.2 rfl)⟩
          cases hk : k.phase.decided with
          | true => exact hmono hk
          | false =>
            rw [hk] at hdiff
            simpa using hdiff
      · simp only [hget hne]
        rw [← hinv.decided j]
        refine ⟨fun h => h.resolve_right fun h => ?_, .inl⟩
        split at h
        · cases h
        · exact hne (List.mem_singleton.1 h)
    · rcases List.mem_append.1 h with h | h
      · obtain ⟨k', hk', hp⟩ := hinv.issued h
        have hne : j ≠ i := by
          rintro rfl
          obtain rfl : k = k' := Option.some.inj (hi.symm.trans hk')
          exact hnot cap hp
        exact ⟨k', (hget hne).2 hk', hp⟩
      · obtain ⟨rfl, rfl⟩ := hissued h
        exact ⟨_, hself, rfl⟩
  | proceed hj hev hunf hnext =>
    obtain ⟨hdecided, hissued⟩ := decided_effectEvents _ _ _
    exact hinv.idle rfl rfl hdecided hissued
  | configureSource | snapshot => exact hinv.idle rfl rfl rfl (by simp)
  | effectuate | look | failNext | failCommits | replaceEvidence =>
    exact hinv.idle rfl (List.append_nil _).symm rfl (by simp)

/-- So does every run. -/
theorem logInv_of_run {s₀ s : State R} {acts : List (Act R)} (h0 : s₀.Empty)
    (hrun : Run (Step a) s₀ acts s) : LogInv s :=
  hrun.invariant LogInv (logInv_of_empty h0) fun _ _ _ h hs => h.step hs

/-! ## What a source is charged -/

/-- The charge to a source that an event records. -/
def Event.charge (source : PyStr) : Event → Option ProtectedState.Grant
  | granted _ t _ _ =>
      if t.source = source then some ⟨t, t.budget_before - t.budget_after⟩ else none
  | _ => none

/-- The cost of a transition is what it takes off the budget. -/
theorem cost_eq {st st' : ProtectedState} {c : CandidateAct} {cost : Int} {t : StateTransition}
    (g : Granted R st c cost t st') : t.budget_before - t.budget_after = cost := by
  have hcharge := g.charge
  have hbudget := hcharge.budget
  rw [hcharge.before] at hbudget
  simp only at hbudget
  omega

/-- A step of an authorisation charges a source what it records, and no other source. -/
theorem charge_moves {k : Call} {s s' : AuthorityStores R} {p : Phase} (i : Nat)
    (h : Moves a k s p s') (source : PyStr) :
    ((k.phase.events i s s' p).filterMap (Event.charge source) = [] ∧
      s'.state.balance source = s.state.balance source) ∨
    ∃ g, (k.phase.events i s s' p).filterMap (Event.charge source) = [g] ∧
      Charge (s.state.balance source) g (s'.state.balance source) := by
  cases h with
  | invalid hp => exact .inl ⟨by rw [hp]; rfl, rfl⟩
  | validated hp => exact .inl ⟨by rw [hp]; rfl, rfl⟩
  | refused hp h =>
    refine .inl ⟨by rw [hp]; rfl, ?_⟩
    rcases transitionForAuthorization_error h with rfl | rfl
    · rfl
    · exact congrFun (balance_getSource ..) source
  | @granted d t st hp g =>
    rw [hp]
    simp only [g.balance_eq]
    rcases eq_or_ne k.candidate.source source with rfl | hne
    · refine .inr ⟨⟨t, k.cost⟩, ?_, ?_⟩
      · simp [Phase.events, Event.charge, g.source, cost_eq g]
      · rw [Function.update_self]
        exact g.charge
    · refine .inl ⟨?_, Function.update_of_ne hne.symm ..⟩
      simp [Phase.events, Event.charge, g.source, hne]
  | unsigned hp => exact .inl ⟨by rw [hp]; rfl, rfl⟩
  | signed hp => exact .inl ⟨by rw [hp]; rfl, rfl⟩
  | unchecked hp => exact .inl ⟨by rw [hp]; rfl, rfl⟩
  | checked hp => exact .inl ⟨by rw [hp]; rfl, rfl⟩
  | duplicate hp => exact .inl ⟨by rw [hp]; rfl, rfl⟩
  | committed hp => exact .inl ⟨by rw [hp]; rfl, rfl⟩
  | unissued hp => exact .inl ⟨by rw [hp]; rfl, rfl⟩
  | returned hp => exact .inl ⟨by rw [hp]; rfl, rfl⟩

/-- No step of an effectuation charges a source. -/
theorem charge_effectEvents (source : PyStr) (j : Nat) (p q : Interleaving.Phase) :
    (effectEvents j p q).filterMap (Event.charge source) = [] := by
  cases p <;> cases q <;> rfl

/-- One step charges a source what it records, unless it configures it. -/
theorem charge_step {s s' : State R} {act : Act R} (h : Step a s act s') {source : PyStr}
    (hconf : ∀ quota budget, act ≠ .configureSource source quota budget) :
    ∃ events, s'.log = s.log ++ events ∧
      Run Charge (s.authority.state.balance source) (events.filterMap (Event.charge source))
        (s'.authority.state.balance source) := by
  cases h with
  | @advance i k p authority hi hnext =>
    refine ⟨_, rfl, ?_⟩
    rcases charge_moves i (moves hnext) source with ⟨hnone, hbalance⟩ | ⟨g, hsome, hcharge⟩
    · rw [hnone, State.advance, hbalance]
      exact .nil
    · rw [hsome]
      exact .single hcharge
  | proceed hj hev hunf hnext =>
    refine ⟨_, rfl, ?_⟩
    rw [charge_effectEvents]
    exact .nil
  | @configureSource source' quota budget =>
    have hne : source ≠ source' := by
      rintro rfl
      exact hconf quota budget rfl
    have hbalance : (s.authority.state.configureSource source' quota budget).balance =
        Function.update s.authority.state.balance source' ⟨0, quota, budget⟩ :=
      balance_insert rfl rfl rfl
    refine ⟨_, rfl, ?_⟩
    simp only [hbalance, Function.update_of_ne hne]
    exact .nil
  | snapshot =>
    refine ⟨_, rfl, ?_⟩
    simp only [ProtectedState.snapshot, balance_getSource]
    exact .nil
  | authorize | effectuate | look | failNext | failCommits | replaceEvidence =>
    exact ⟨[], (List.append_nil _).symm, .nil⟩

/-- **Between its configurations a source is charged what the log records.** -/
theorem charges_of_run {u s : State R} {acts : List (Act R)} (hrun : Run (Step a) u acts s)
    {source : PyStr}
    (hconf : ∀ quota budget, Act.configureSource source quota budget ∉ acts) :
    ∃ events, s.log = u.log ++ events ∧
      Run Charge (u.authority.state.balance source) (events.filterMap (Event.charge source))
        (s.authority.state.balance source) := by
  refine hrun.invariantTrace (fun acts s =>
    (∀ quota budget, Act.configureSource source quota budget ∉ acts) →
      ∃ events, s.log = u.log ++ events ∧
        Run Charge (u.authority.state.balance source) (events.filterMap (Event.charge source))
          (s.authority.state.balance source)) (fun _ => ⟨[], (List.append_nil _).symm, .nil⟩)
    ?_ hconf
  intro acts s act s' _ ih hs hconf
  obtain ⟨events, hlog, hcharges⟩ := ih fun q b hmem => hconf q b (List.mem_append_left _ hmem)
  have hquiet : ∀ quota budget, act ≠ .configureSource source quota budget := fun q b hact =>
    hconf q b (List.mem_append_right _ (List.mem_singleton.2 hact.symm))
  obtain ⟨events', hlog', hcharges'⟩ := charge_step hs hquiet
  refine ⟨events ++ events', by rw [hlog', hlog, List.append_assoc], ?_⟩
  rw [List.filterMap_append]
  exact hcharges.append hcharges'

/-! ## What pays for an effect -/

/-- The event of a grant. -/
def Grant.event (g : Grant) : Event := .granted g.i g.transition g.before g.after

/-- Record `n` goes back to the grant `g`. -/
def PaidBy (a : ProtectedAuthority R) (s : State R) (n : Nat) (g : Grant) : Prop :=
  ∃ r j k, ∃ o : Origin R, o.Made a s n r j k ∧ o.grant = g

/-- **An authorisation pays for at most one effect.** -/
theorem grant_inj {s₀ s : State R} {acts : List (Act R)} (h0 : s₀.Empty)
    (hrun : Run (Step a) s₀ acts s) {n m : Nat} {g g' : Grant} (h : PaidBy a s n g)
    (h' : PaidBy a s m g') (hi : g.i = g'.i) : n = m := by
  obtain ⟨r, j, k, o, ho, rfl⟩ := h
  obtain ⟨r', j', k', o', ho', rfl⟩ := h'
  have hlog := logInv_of_run h0 hrun
  -- both capabilities were returned by the one authorisation
  have hissued : Event.issued o.grant.i o.cap ∈ s.log :=
    ho.origin.grant.order.subset (by simp)
  have hissued' : Event.issued o'.grant.i o'.cap ∈ s.log :=
    ho'.origin.grant.order.subset (by simp)
  obtain ⟨q, hq, hret⟩ := hlog.issued hissued
  obtain ⟨q', hq', hret'⟩ := hlog.issued hissued'
  obtain rfl : q = q' := Option.some.inj (hq.symm.trans (hi ▸ hq'))
  obtain hcap : o.cap = o'.cap := Phase.returned.inj (hret.symm.trans hret')
  obtain ⟨acts', hrun'⟩ := exists_interleaving hrun
  have hmade : Interleaving.MadeBy s.interleaving n r j k.call :=
    ⟨ho.record, ho.maker, by simp [State.interleaving, ho.effectuation]⟩
  have hmade' : Interleaving.MadeBy s.interleaving m r' j' k'.call :=
    ⟨ho'.record, ho'.maker, by simp [State.interleaving, ho'.effectuation]⟩
  refine (Interleaving.inv_of_run h0.interleaving hrun').one_record hmade hmade' ?_
  rw [ho.origin.agrees.1, ho'.origin.agrees.1, hcap]

/-- A positive number of costs is at most the sum of more of them. -/
theorem sum_costs_le {gs gs' : List ProtectedState.Grant} (h : gs.Sublist gs')
    (hpos : ∀ g ∈ gs', 0 < g.cost) :
    (gs.map ProtectedState.Grant.cost).sum ≤ (gs'.map ProtectedState.Grant.cost).sum := by
  refine (h.map _).sum_le_sum fun cost hcost => ?_
  obtain ⟨g, hg, rfl⟩ := List.mem_map.1 hcost
  exact (hpos g hg).le

/-- Every charge is positive. -/
theorem cost_pos_of_charges {b b' : SourceState} {gs : List ProtectedState.Grant}
    (h : Run Charge b gs b') : ∀ g ∈ gs, 0 < g.cost := by
  refine h.invariantTrace (fun gs _ => ∀ g ∈ gs, 0 < g.cost) (by simp) ?_
  intro gs b g b' _ ih hs g' hg'
  rcases List.mem_append.1 hg' with hg' | hg'
  · exact ih g' hg'
  · rw [List.mem_singleton.1 hg']
    exact hs.cost_pos

/-- **Effects are paid for.** In every interleaving and between the configurations of a source,
the effects made under its grants since some moment are no more than the quota it has spent since
then, and their costs no more than the budget it has spent. -/
theorem effects_paid {s₀ u s : State R} {acts acts' : List (Act R)} (h0 : s₀.Empty)
    (hrun : Run (Step a) s₀ acts u) (hrun' : Run (Step a) u acts' s) {source : PyStr}
    (hconf : ∀ quota budget, Act.configureSource source quota budget ∉ acts')
    {ns : List Nat} (hnodup : ns.Nodup) {g : Nat → Grant}
    (hpaid : ∀ n ∈ ns, PaidBy a s n (g n) ∧ (g n).candidate.source = source ∧
      (g n).event ∉ u.log) :
    (ns.length : Int) ≤
        (u.authority.state.balance source).quota - (s.authority.state.balance source).quota ∧
      (ns.map fun n => (g n).cost).sum ≤
        (u.authority.state.balance source).budget - (s.authority.state.balance source).budget ∧
      (0 ≤ (u.authority.state.balance source).quota →
        0 ≤ (u.authority.state.balance source).budget →
          0 ≤ (s.authority.state.balance source).quota ∧
          0 ≤ (s.authority.state.balance source).budget) := by
  obtain ⟨events, hlog, hcharges⟩ := charges_of_run hrun' hconf
  obtain ⟨-, hquota, hbudget⟩ := balance_of_charges hcharges
  -- the grants behind the records are different events of the log after `u`
  have hevents : (ns.map fun n => (g n).event).Nodup := by
    refine hnodup.map_on fun n hn m hm heq => ?_
    exact grant_inj h0 (hrun.append hrun') (hpaid n hn).1 (hpaid m hm).1 (Event.granted.inj heq).1
  have hsubset : (ns.map fun n => (g n).event) ⊆ events := by
    intro ev hev
    obtain ⟨n, hn, rfl⟩ := List.mem_map.1 hev
    obtain ⟨⟨r, j, k, o, ho, hg⟩, -, hnew⟩ := hpaid n hn
    have hmem : (g n).event ∈ s.log := by
      rw [← hg]
      exact ho.origin.grant.order.subset List.mem_cons_self
    rw [hlog] at hmem
    exact (List.mem_append.1 hmem).resolve_left hnew
  obtain ⟨l, hperm, hsub⟩ := List.subperm_of_subset hevents hsubset
  -- each is charged its cost
  have hcharge : (ns.map fun n => (g n).event).filterMap (Event.charge source) =
      ns.map fun n => ⟨(g n).transition, (g n).cost⟩ := by
    rw [List.filterMap_map]
    refine (List.filterMap_congr fun n hn => ?_).trans (congrFun List.filterMap_eq_map' ns)
    obtain ⟨⟨r, j, k, o, ho, hg⟩, hsource, -⟩ := hpaid n hn
    have hgranted := ho.origin.grant.granted
    rw [hg] at hgranted
    simp [Grant.event, Event.charge, hgranted.source, hsource, cost_eq hgranted]
  have hperm' := hperm.filterMap (Event.charge source)
  rw [hcharge] at hperm'
  have hsub' := hsub.filterMap (Event.charge source)
  refine ⟨?_, ?_, nonneg_of_charges hcharges⟩
  · have hlen := hsub'.length_le
    rw [hperm'.length_eq, List.length_map] at hlen
    omega
  · have hsum := sum_costs_le hsub' (cost_pos_of_charges hcharges)
    rw [(hperm'.map _).sum_eq, List.map_map] at hsum
    rw [hbudget]
    have hcosts : (ns.map (ProtectedState.Grant.cost ∘ fun n =>
        (⟨(g n).transition, (g n).cost⟩ : ProtectedState.Grant))) =
        ns.map fun n => (g n).cost := rfl
    rw [hcosts] at hsum
    omega

/-- The effect of the sample act and what its grant was charged. -/
theorem effects_paid_sample : ∃ s g, PaidBy sampleAuthority s 0 g ∧
    1 ≤ ((State.ofWorld sampleWorld).authority.state.balance g.candidate.source).quota -
      (s.authority.state.balance g.candidate.source).quota ∧
    g.cost ≤ ((State.ofWorld sampleWorld).authority.state.balance g.candidate.source).budget -
      (s.authority.state.balance g.candidate.source).budget := by
  obtain ⟨cap, w, r, hrun, hrecords⟩ := sample_run
  obtain ⟨acts, s, hrun', rfl, hconf⟩ := exists_threads sampleWorld_empty hrun
  have hr : s.effects.effector.records[0]? = some r :=
    (congrArg (fun rs : List EffectRecord => rs[0]?) hrecords).trans rfl
  obtain ⟨j, k, o, ho⟩ := made_of_run sample_injective (State.ofWorld_empty sampleWorld_empty)
    hrun' hr
  have hpaid : PaidBy sampleAuthority s 0 o.grant := ⟨r, j, k, o, ho, rfl⟩
  obtain ⟨hquota, hbudget, -⟩ := effects_paid (g := fun _ => o.grant)
    (State.ofWorld_empty sampleWorld_empty) .nil hrun'
    (fun q b hmem => by simpa using hconf o.grant.candidate.source q b hmem)
    (List.nodup_singleton 0) (fun n hn => by
      obtain rfl := List.mem_singleton.1 hn
      exact ⟨hpaid, rfl, by simp [State.ofWorld]⟩)
  exact ⟨s, o.grant, hpaid, by simpa using hquota, by simpa using hbudget⟩

end Threads

end Finality
