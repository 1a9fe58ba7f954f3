import Mathlib.Algebra.Ring.Int.Defs
import Finality.Lib.Ledger
import Finality.Core.Sample

/-!
# Conservation of protected state

The protected state keeps a ledger: `configure_source` opens the account of a source and a granted
transition charges it one version, one unit of quota and its cost. `posts_call` says so of each
call, whatever it returns, and the ledger rule does the rest. The nonce table is kept across
accounts, so that a nonce is granted once.
-/

namespace Finality

open Checks Runs

namespace ProtectedState

/-- The calls of the protected state's interface that can change it. -/
inductive Call where
  | configureSource (source : PyStr) (quota budget : Int)
  | transitionForAuthorization (candidate : CandidateAct) (cost : Int)
  | snapshot (source : PyStr)

/-- A transition that was granted, with the cost asked for. -/
structure Grant where
  transition : StateTransition
  cost : Int

/-- The events of the ledger: the accounts are the sources'. -/
abbrev Event := Ledger.Event PyStr SourceState Grant

section
variable (R : Runtime)

/-- One call: what it means for the ledger and the state it leaves. -/
def call (st : ProtectedState) : Call → Event × ProtectedState
  | .configureSource source quota budget =>
      (.opened source ⟨0, quota, budget⟩, st.configureSource source quota budget)
  | .transitionForAuthorization candidate cost =>
      match st.transitionForAuthorization R candidate cost with
      | (.ok t, st) => (.granted candidate.source ⟨t, cost⟩, st)
      | (.error _, st) => (.idle, st)
  | .snapshot source => (.idle, (st.snapshot source).2)

/-- A call of a run, under its event. -/
def CallStep (st : ProtectedState) (ev : Event) (st' : ProtectedState) : Prop :=
  ∃ c, st.call R c = (ev, st')

end

/-! ## One call -/

/-- A grant takes the account of its source from what the transition saw to what it left. -/
structure Charge (s : SourceState) (g : Grant) (s' : SourceState) : Prop where
  before : s = ⟨g.transition.before_version, g.transition.quota_before, g.transition.budget_before⟩
  after : s' = ⟨g.transition.after_version, g.transition.quota_after, g.transition.budget_after⟩
  version : s'.version = s.version + 1
  quota : s'.quota = s.quota - 1
  budget : s'.budget = s.budget - g.cost
  cost_pos : 0 < g.cost
  quota_paid : 1 ≤ s.quota
  budget_paid : g.cost ≤ s.budget

/-- The balance of a source. -/
def balance (st : ProtectedState) (source : PyStr) : SourceState := (st.snapshot source).1

variable {R : Runtime} {st st' : ProtectedState} {c : CandidateAct} {cost : Int}
  {t : StateTransition}

/-- Opening an account does not change a balance: an unopened one has the defaults. -/
@[simp] theorem balance_getSource (st : ProtectedState) (source : PyStr) :
    (st.getSource source).2.balance = st.balance := by
  funext s
  exact snapshot_getSource st source s

/-- Writing the entry of a source moves its balance only. -/
theorem balance_insert {s : SourceState} {source : PyStr}
    (hsources : st'.sources = st.sources.insert source s)
    (hquota : st'.default_quota = st.default_quota)
    (hbudget : st'.default_budget = st.default_budget) :
    st'.balance = Function.update st.balance source s := by
  funext k
  rcases eq_or_ne k source with rfl | hne
  · rw [Function.update_self]
    simp [balance, snapshot, getSource, hsources]
  · rw [Function.update_of_ne hne]
    simp only [balance, snapshot, getSource, hsources, AList.lookup_insert_ne hne, hquota, hbudget]
    split <;> rfl

/-- A grant charges its source by one unit and its cost. -/
theorem Granted.charge (g : Granted R st c cost t st') :
    Charge (st.balance c.source) ⟨t, cost⟩
      ⟨t.after_version, t.quota_after, t.budget_after⟩ := by
  have ht := g.transition
  exact
    { before := by rw [ht]; rfl
      after := rfl
      version := by rw [ht]; rfl
      quota := by rw [ht]; rfl
      budget := by rw [ht]; rfl
      cost_pos := g.cost_pos
      quota_paid := g.quota
      budget_paid := g.budget }

/-- No other source is charged. -/
theorem Granted.balance_eq (g : Granted R st c cost t st') :
    st'.balance = Function.update st.balance c.source
      ⟨t.after_version, t.quota_after, t.budget_after⟩ := by
  rw [← balance_getSource st c.source]
  exact balance_insert (by rw [g.state_eq]) (by rw [g.state_eq]) (by rw [g.state_eq])

/-- **What a call does to the balances.** -/
theorem posts_call {ev : Event} (h : CallStep R st ev st') :
    Ledger.Posts Charge st.balance ev st'.balance := by
  obtain ⟨op, hop⟩ := h
  cases op with
  | configureSource source quota budget =>
    obtain ⟨rfl, rfl⟩ := Prod.mk.inj hop
    have hmove : (st.configureSource source quota budget).balance =
        Function.update st.balance source ⟨0, quota, budget⟩ := balance_insert rfl rfl rfl
    rw [hmove]
    exact .opened _ _
  | snapshot source =>
    obtain ⟨rfl, rfl⟩ := Prod.mk.inj hop
    rw [snapshot, balance_getSource]
    exact .idle
  | transitionForAuthorization c cost =>
    rw [call] at hop
    split at hop
    · rename_i t st₁ hres
      obtain ⟨rfl, rfl⟩ := Prod.mk.inj hop
      have g := transitionForAuthorization_ok.1 hres
      rw [g.balance_eq]
      exact .granted g.charge
    · rename_i e st₁ hres
      obtain ⟨rfl, rfl⟩ := Prod.mk.inj hop
      have hbalance : st₁.balance = st.balance := by
        rcases transitionForAuthorization_error hres with rfl | rfl
        · rfl
        · exact balance_getSource st _
      rw [hbalance]
      exact .idle

/-! ## Every run -/

/-- The transitions follow on from one another, starting at the given state. -/
def Unbroken : SourceState → List Grant → Prop
  | _, [] => True
  | s, g :: gs =>
      s = ⟨g.transition.before_version, g.transition.quota_before, g.transition.budget_before⟩ ∧
        Unbroken
          ⟨g.transition.after_version, g.transition.quota_after, g.transition.budget_after⟩ gs

/-- Charges that follow each other leave no gap in the versions. -/
theorem unbroken_of_charges : ∀ {gs : List Grant} {s s' : SourceState}, Run Charge s gs s' →
    Unbroken s gs
  | [], _, _, _ => trivial
  | g :: gs, s, s', h => by
    obtain ⟨u, hu, hrest⟩ := h.cons_inv
    have hu' := hu.after
    subst hu'
    exact ⟨hu.before, unbroken_of_charges hrest⟩

/-- **The charges of an account add up.** -/
theorem balance_of_charges {s s' : SourceState} {gs : List Grant} (h : Run Charge s gs s') :
    s'.version = s.version + gs.length ∧ s'.quota = s.quota - gs.length ∧
      s'.budget = s.budget - (gs.map Grant.cost).sum := by
  induction h with
  | nil => simp
  | snoc _ hs ih =>
    obtain ⟨hv, hq, hb⟩ := ih
    simp only [hs.version, hs.quota, hs.budget, hv, hq, hb, List.length_append,
      List.length_singleton,
      List.map_append, List.map_singleton, List.sum_append, List.sum_singleton]
    omega

/-- They never overdraw it. -/
theorem nonneg_of_charges {s s' : SourceState} {gs : List Grant} (h : Run Charge s gs s')
    (hquota : 0 ≤ s.quota) (hbudget : 0 ≤ s.budget) : 0 ≤ s'.quota ∧ 0 ≤ s'.budget := by
  refine h.invariant (fun s => 0 ≤ s.quota ∧ 0 ≤ s.budget) ⟨hquota, hbudget⟩ ?_
  intro s g s' _ hs
  have hq := hs.quota
  have hb := hs.budget
  have hq' := hs.quota_paid
  have hb' := hs.budget_paid
  omega

/-- An account opens at version zero. -/
theorem version_of_opening {dq db : Int} {events : List Event}
    (hrun : Run (CallStep R) (init dq db) events st) (source : PyStr) :
    (Ledger.account ⟨0, dq, db⟩ events source).opening.version = 0 := by
  refine hrun.invariantTrace (fun events _ =>
    (Ledger.account ⟨0, dq, db⟩ events source).opening.version = 0) rfl ?_
  rintro events st ev st' - ih ⟨op, hop⟩
  rw [Ledger.account_snoc]
  cases op with
  | configureSource s quota budget =>
    obtain ⟨rfl, -⟩ := Prod.mk.inj hop
    rw [Ledger.Account.post]
    split
    · rfl
    · exact ih
  | snapshot s =>
    obtain ⟨rfl, -⟩ := Prod.mk.inj hop
    exact ih
  | transitionForAuthorization c cost =>
    rw [call] at hop
    split at hop
    · obtain ⟨rfl, -⟩ := Prod.mk.inj hop
      rw [Ledger.Account.post]
      split <;> exact ih
    · obtain ⟨rfl, -⟩ := Prod.mk.inj hop
      exact ih

/-- What a call does to the nonces: a grant reserves a new one. -/
theorem nonces_call {ev : Event} (h : CallStep R st ev st') :
    (∃ source g, ev = .granted source g ∧ g.transition.nonce ∉ st.nonces ∧
      st'.nonces = st.nonces.insert g.transition.nonce g.transition.transition_id) ∨
    (∀ source g, ev ≠ .granted source g) ∧ st'.nonces = st.nonces := by
  obtain ⟨op, hop⟩ := h
  cases op with
  | configureSource source quota budget =>
    obtain ⟨rfl, rfl⟩ := Prod.mk.inj hop
    exact .inr ⟨nofun, rfl⟩
  | snapshot source =>
    obtain ⟨rfl, rfl⟩ := Prod.mk.inj hop
    exact .inr ⟨nofun, getSource_nonces st source⟩
  | transitionForAuthorization c cost =>
    rw [call] at hop
    split at hop
    · rename_i t st₁ hres
      obtain ⟨rfl, rfl⟩ := Prod.mk.inj hop
      have g := transitionForAuthorization_ok.1 hres
      refine .inl ⟨_, _, rfl, ?_, ?_⟩
      · rw [g.nonce]
        exact AList.lookup_eq_none.1 g.fresh
      · rw [g.nonce]
        exact g.nonces_eq
    · rename_i e st₁ hres
      obtain ⟨rfl, rfl⟩ := Prod.mk.inj hop
      rcases transitionForAuthorization_error hres with rfl | rfl
      · exact .inr ⟨nofun, rfl⟩
      · exact .inr ⟨nofun, getSource_nonces st c.source⟩

/-- **A nonce is granted one transition.** -/
theorem nodup_nonces {dq db : Int} {events : List Event}
    (hrun : Run (CallStep R) (init dq db) events st) :
    ((Ledger.grants events).map fun g => g.transition.nonce).Nodup ∧
      ∀ g ∈ Ledger.grants events, g.transition.nonce ∈ st.nonces := by
  refine hrun.invariantTrace (fun events st =>
    ((Ledger.grants events).map fun g => g.transition.nonce).Nodup ∧
      ∀ g ∈ Ledger.grants events, g.transition.nonce ∈ st.nonces) ⟨List.nodup_nil, nofun⟩ ?_
  rintro events st ev st' - ⟨hnodup, hmem⟩ hstep
  rcases nonces_call hstep with ⟨source, g, rfl, hfresh, hnonces⟩ | ⟨hne, hnonces⟩
  · rw [Ledger.grants_snoc_granted, hnonces]
    refine ⟨?_, ?_⟩
    · rw [List.map_append, List.nodup_append]
      refine ⟨hnodup, List.nodup_singleton _, ?_⟩
      intro n hn n' hn' heq
      obtain ⟨g', hg', rfl⟩ := List.mem_map.1 hn
      obtain rfl := List.mem_singleton.1 hn'
      rw [← show g'.transition.nonce = g.transition.nonce from heq] at hfresh
      exact hfresh (hmem g' hg')
    · intro g' hg'
      rw [AList.mem_insert]
      rcases List.mem_append.1 hg' with hg' | hg'
      · exact .inr (hmem g' hg')
      · exact .inl (by rw [List.mem_singleton.1 hg'])
  · rw [Ledger.grants_snoc_of_ne hne, hnonces]
    exact ⟨hnodup, hmem⟩

/-- **Conservation of protected state.** After any calls, the balance of a source is what its
account says: the version counts the transitions granted since the account was opened, each took
one unit of quota and its cost, they follow on from one another, and the account is not overdrawn.
A call that neither configures the source nor is granted for it leaves it, and no nonce is granted
two transitions. -/
theorem conservation {dq db : Int} {events : List Event}
    (hrun : Run (CallStep R) (init dq db) events st) :
    (∀ source, ∃ q₀ b₀ gs, Ledger.account ⟨0, dq, db⟩ events source = ⟨⟨0, q₀, b₀⟩, gs⟩ ∧
      (st.snapshot source).1 = ⟨gs.length, q₀ - gs.length, b₀ - (gs.map Grant.cost).sum⟩ ∧
      (0 ≤ q₀ → 0 ≤ b₀ →
        0 ≤ (st.snapshot source).1.quota ∧ 0 ≤ (st.snapshot source).1.budget) ∧
      Unbroken ⟨0, q₀, b₀⟩ gs) ∧
    (∀ ev st' source, CallStep R st ev st' → (∀ balance, ev ≠ .opened source balance) →
      (∀ g, ev ≠ .granted source g) →
        (st'.snapshot source).1 = (st.snapshot source).1 ∧
        Ledger.account ⟨0, dq, db⟩ (events ++ [ev]) source =
          Ledger.account ⟨0, dq, db⟩ events source) ∧
    (∀ c cost e st' source, st.transitionForAuthorization R c cost = (.error e, st') →
      (st'.snapshot source).1 = (st.snapshot source).1 ∧ st'.nonces = st.nonces) ∧
    ((Ledger.grants events).map fun g => g.transition.nonce).Nodup := by
  have hinit : ∀ source, balance (init dq db) source = ⟨0, dq, db⟩ := fun _ => rfl
  have hcharges := Ledger.charges_of_run hrun hinit (fun _ _ _ => posts_call)
  refine ⟨fun source => ?_, fun ev st' source hstep hopen hgrant =>
      ⟨(posts_call hstep).frame hopen hgrant, Ledger.account_snoc_of_ne hopen hgrant⟩,
    fun c cost e st' source h => ?_, (nodup_nonces hrun).1⟩
  · have hversion := version_of_opening hrun source
    have hrunc := hcharges source
    generalize Ledger.account ⟨0, dq, db⟩ events source = acc at hversion hrunc ⊢
    obtain ⟨⟨v₀, q₀, b₀⟩, gs⟩ := acc
    obtain rfl : v₀ = 0 := hversion
    obtain ⟨hv, hq, hb⟩ := balance_of_charges hrunc
    refine ⟨q₀, b₀, gs, rfl, ?_, nonneg_of_charges hrunc, unbroken_of_charges hrunc⟩
    rw [balance] at hv hq hb
    generalize (st.snapshot source).1 = s at hv hq hb ⊢
    obtain ⟨v, q, b⟩ := s
    rw [SourceState.mk.injEq]
    exact ⟨by simpa using hv, hq, hb⟩
  · rcases transitionForAuthorization_error h with rfl | rfl
    · exact ⟨rfl, rfl⟩
    · exact ⟨snapshot_getSource st c.source source, getSource_nonces st c.source⟩

/-- The account of the sample source, opened with 5 and 9, pays for the sample act. -/
theorem conservation_sample : ∃ t st', Granted sampleRuntime
    ((init 1000 1000).configureSource (py "agent-A") 5 9) sampleCandidate 4 t st' ∧
      ((st'.snapshot (py "agent-A")).1.quota = 4 ∧ (st'.snapshot (py "agent-A")).1.budget = 5) ∧
      Unbroken ⟨0, 5, 9⟩ [⟨t, 4⟩] := by
  obtain ⟨t, st', g⟩ := @exists_granted sampleRuntime
    ((init 1000 1000).configureSource (py "agent-A") 5 9) sampleCandidate 4
    (by decide) rfl (by decide) (by decide) sample_canon.1 (by decide)
  have hrun : Run (CallStep sampleRuntime) (init 1000 1000)
      [.opened (py "agent-A") ⟨0, 5, 9⟩, .granted (py "agent-A") ⟨t, 4⟩] st' :=
    (Run.nil.snoc ⟨.configureSource (py "agent-A") 5 9, rfl⟩).snoc
      ⟨.transitionForAuthorization sampleCandidate 4, by
        rw [call, transitionForAuthorization_ok.2 g]
        rfl⟩
  obtain ⟨q₀, b₀, gs, haccount, hbalance, -, hchain⟩ := (conservation hrun).1 (py "agent-A")
  have hopened : (⟨⟨0, 5, 9⟩, [⟨t, 4⟩]⟩ : Ledger.Account SourceState Grant) = ⟨⟨0, q₀, b₀⟩, gs⟩ :=
    haccount
  obtain ⟨hopening, rfl⟩ := Ledger.Account.mk.inj hopened
  obtain ⟨-, rfl, rfl⟩ := SourceState.mk.inj hopening
  refine ⟨t, st', g, ?_, hchain⟩
  rw [hbalance]
  exact ⟨rfl, rfl⟩

end ProtectedState

end Finality
