import Finality.Core.DurableSerial
import Finality.Threads.Provenance

/-!
# Sinks over the durable store, with crashes

Any number of processes call `effectuate` on sinks that share one `SQLiteConsumptionStore` and one
effector. A call claims by the statements of the durable store, and its process may be lost between
any two of its steps and start again with other calls; the database and the effects stay.

With losses and all, such a deployment does what the interleaved calls over the in-memory store
can do (`Abstracts.run`). The claim takes effect at the `COMMIT`, so between it and the return of
`claim` the abstract call is ahead (`Abstracts`), and a call whose process is lost is one that is
never scheduled again.
-/

namespace Finality

open Checks FinalitySink Runs Transactions

namespace Durable

open SQLiteConsumptionStore (Claim Outcome Stands Recorded bindText bindClaim)

section
variable (P : Type _) (R : Runtime)

/-- The durable store, the effector, the calls in the order they started, and which of them each
process is in. -/
structure State where
  store : SQLiteConsumptionStore.State P
  effector : GuardedEffector
  calls : List (Interleaving.Call R)
  running : P → Option Nat

/-- What happens: a process starts a call, takes a step of it apart from the claim, enters the
claim, executes a statement, gives up waiting for the lock, leaves the claim, ends the call, or is
lost. -/
inductive Act where
  | start (p : P) (sink : FinalitySink R) (candidate : CandidateAct) (cap : Capability) (now : Int)
      (presentation_proof : Option PresentationProof)
  | advance (p : P) (evidence_store : EvidenceStore R) (protected_state : ProtectedState)
  | claim (p : P)
  | statement (p : P)
  | timeout (p : P)
  | close (p : P) (outcome : Outcome)
  | finish (p : P)
  | crash (p : P)
  | failNext

end

section
variable {P : Type _} [DecidableEq P] {R : Runtime}

/-- The arguments a call of `effectuate` claims with. -/
def claimOf (k : Interleaving.Call R) : Claim :=
  ⟨k.cap.capability_id, k.sink.context.sink_id, k.sink.context.boundary_id, k.cap.nonce, k.now⟩

/-- Where a call goes on after its claim; an error of the library's ends it. -/
def closedPhase (descriptor_digest : PyStr) : Outcome → Option Interleaving.Phase
  | .returned => some (.claimed descriptor_digest)
  | .raised (.reference e) => some (.replayed e)
  | .raised _ | .answered _ => none

/-- One step. The steps of a call apart from its claim are those of `Interleaving`, for which the
consumption store plays no part. -/
inductive Step : State P R → Act P R → State P R → Prop
  | start {s p sink candidate cap now presentation_proof} (hp : s.running p = none) :
      Step s (.start p sink candidate cap now presentation_proof)
        { s with
          calls := s.calls ++ [⟨sink, candidate, cap, now, presentation_proof, .started⟩]
          running := Function.update s.running p (some s.calls.length) }
  | advance {s p i k evidence_store protected_state q effector} (hp : s.running p = some i)
      (hi : s.calls[i]? = some k) (hk : ∀ d, k.phase ≠ .verified d)
      (h : k.next evidence_store protected_state ⟨⟨∅⟩, s.effector⟩ = some (q, ⟨⟨∅⟩, effector⟩)) :
      Step s (.advance p evidence_store protected_state)
        { s with effector := effector, calls := s.calls.set i { k with phase := q } }
  | claim {s p i k d store} (hp : s.running p = some i) (hi : s.calls[i]? = some k)
      (hk : k.phase = .verified d)
      (h : SQLiteConsumptionStore.Step s.store (.call p (.claim (claimOf k))) store) :
      Step s (.claim p) { s with store := store }
  | statement {s p store} (h : SQLiteConsumptionStore.Step s.store (.statement p) store) :
      Step s (.statement p) { s with store := store }
  | timeout {s p store} (h : SQLiteConsumptionStore.Step s.store (.timeout p) store) :
      Step s (.timeout p) { s with store := store }
  | close {s p i k d a outcome store q} (hp : s.running p = some i) (hi : s.calls[i]? = some k)
      (hk : k.phase = .verified d) (hq : closedPhase d outcome = some q)
      (h : SQLiteConsumptionStore.Step s.store (.close p (.claim a) outcome) store) :
      Step s (.close p outcome)
        { s with store := store, calls := s.calls.set i { k with phase := q } }
  | abandon {s p i k d a outcome store} (hp : s.running p = some i) (hi : s.calls[i]? = some k)
      (hk : k.phase = .verified d) (hq : closedPhase d outcome = none)
      (h : SQLiteConsumptionStore.Step s.store (.close p (.claim a) outcome) store) :
      Step s (.close p outcome)
        { s with store := store, running := Function.update s.running p none }
  | finish {s p i k} (hp : s.running p = some i) (hi : s.calls[i]? = some k)
      (hk : k.phase.result.isSome) :
      Step s (.finish p) { s with running := Function.update s.running p none }
  | crash {s p store} (h : SQLiteConsumptionStore.Step s.store (.crash p) store) :
      Step s (.crash p) { s with store := store, running := Function.update s.running p none }
  | failNext {s} : Step s .failNext { s with effector.fail_next := true }

/-- A new database, an effector that has made no effect, and no call. -/
structure State.Empty (s : State P R) : Prop where
  store : s.store = .init
  records : s.effector.records = []
  calls : s.calls = []
  running : ∀ p, s.running p = none

/-! ## The abstract calls -/

/-- The call of an abstract state is as far as that of the durable deployment, or ahead of it by a
claim that was committed. -/
def Ahead (k k' : Interleaving.Call R) : Prop :=
  k' = k ∨ ∃ d, k.phase = .verified d ∧ k' = { k with phase := .claimed d }

/-- What holds of the call `i` of the process `p`, which is `k` and abstractly `k'`, by where its
process stands in the durable store. -/
def InClaim (k k' : Interleaving.Call R) : SQLiteConsumptionStore.Phase → Prop
  | .idle => k' = k
  | .opened (.claim a) | .begun a | .inserted a | .refused a | .closing (.claim a) (.raised _) |
    .closing (.claim a) (.answered _) => a = claimOf k ∧ (∃ d, k.phase = .verified d) ∧ k' = k
  | .closing (.claim a) .returned =>
      a = claimOf k ∧ ∃ d, k.phase = .verified d ∧ k' = { k with phase := .claimed d }
  | .opened (.isClaimed _) | .closing (.isClaimed _) _ => False

/-- The table has a row for the id. -/
def Consumed (db : SQLiteConsumptionStore.Consumed P) (capability_id : PyStr) : Prop :=
  ∃ key, bindText capability_id = .ok key ∧ key ∈ db.committed

/-- The row of each claim is in the table, with what was claimed. -/
def Rows (db : SQLiteConsumptionStore.Consumed P) (store : InMemoryConsumptionStore) : Prop :=
  ∀ ⦃capability_id sink_id boundary_id nonce now_ns⦄,
    store.claims.lookup capability_id = some (sink_id, boundary_id, nonce, now_ns) →
      Recorded db ⟨capability_id, sink_id, boundary_id, nonce, now_ns⟩

omit [DecidableEq P] in
/-- Committed rows stay, whoever moves the database. -/
theorem Rows.moves {db db' : SQLiteConsumptionStore.Consumed P} {store : InMemoryConsumptionStore}
    {p : P} (h : Rows db store) (hm : Moves p db db') : Rows db' store :=
  fun _ _ _ _ _ hi => (h hi).moves hm

/-- The abstract state `t` says what the durable deployment has come to. -/
structure Abstracts (s : State P R) (t : Interleaving.State R) : Prop where
  effector : t.stores.effector = s.effector
  /-- the rows of the table are those of the claims -/
  claims : ∀ i, Consumed s.store.db i ↔ i ∈ t.stores.consumption_store.claims
  rows : Rows s.store.db t.stores.consumption_store
  length : t.calls.length = s.calls.length
  calls : ∀ {i : Nat} {k k'}, s.calls[i]? = some k → t.calls[i]? = some k' → Ahead k k'
  running : ∀ {p} {i : Nat} {k k'}, s.running p = some i → s.calls[i]? = some k →
    t.calls[i]? = some k' → InClaim k k' (s.store.phase p)
  idle : ∀ {p}, s.running p = none → s.store.phase p = .idle
  one : ∀ {p q i}, s.running p = some i → s.running q = some i → p = q
  bound : ∀ {p i}, s.running p = some i → i < s.calls.length
  stands : ∀ p, Stands s.store.db p (s.store.phase p)

omit [DecidableEq P] in
/-- Only the committed rows decide what is consumed. -/
theorem consumed_congr {db db' : SQLiteConsumptionStore.Consumed P} {i : PyStr}
    (h : db'.committed = db.committed) : Consumed db' i ↔ Consumed db i := by
  rw [Consumed, Consumed, h]

omit [DecidableEq P] in
/-- A capability is consumed when its key is in the table. -/
theorem consumed_iff {db : SQLiteConsumptionStore.Consumed P} {i : PyStr}
    {key : SQLiteConsumptionStore.Text} (h : bindText i = .ok key) :
    Consumed db i ↔ key ∈ db.committed := by
  refine ⟨?_, fun hkey => ⟨key, h, hkey⟩⟩
  rintro ⟨key', h', hkey⟩
  exact Except.ok.inj (h'.symm.trans h) ▸ hkey

omit [DecidableEq P] in
/-- One row more is one capability more. -/
theorem consumed_insert {db db' : SQLiteConsumptionStore.Consumed P} {i j : PyStr}
    {key : SQLiteConsumptionStore.Text} {row : SQLiteConsumptionStore.Row}
    (hbind : bindText i = .ok key) (hcommitted : db'.committed = db.committed.insert key row) :
    Consumed db' j ↔ j = i ∨ Consumed db j := by
  refine ⟨?_, ?_⟩
  · rintro ⟨key', hbind', hkey⟩
    rw [hcommitted, AList.mem_insert] at hkey
    rcases hkey with rfl | hkey
    · exact .inl (SQLiteConsumptionStore.bindText_inj hbind' hbind)
    · exact .inr ⟨key', hbind', hkey⟩
  · rintro (rfl | ⟨key', hbind', hkey⟩)
    · exact ⟨key, hbind, by rw [hcommitted, AList.mem_insert]; exact .inl rfl⟩
    · exact ⟨key', hbind', by rw [hcommitted, AList.mem_insert]; exact .inr hkey⟩

omit [DecidableEq P] in
/-- The rows with that of one claim more. -/
theorem Rows.insert {db db' : SQLiteConsumptionStore.Consumed P} {store : InMemoryConsumptionStore}
    {p : P} {a : Claim} {key : SQLiteConsumptionStore.Text} {row : SQLiteConsumptionStore.Row}
    (h : Rows db store) (hm : Moves p db db') (hbind : bindClaim a = .ok (key, row))
    (hcommitted : db'.committed = db.committed.insert key row) :
    Rows db' ⟨store.claims.insert a.capability_id
      (a.sink_id, a.boundary_id, a.nonce, a.now_ns)⟩ := by
  intro i sink_id boundary_id nonce now_ns hlook
  rcases eq_or_ne i a.capability_id with rfl | hne
  · obtain ⟨rfl, rfl, rfl, rfl⟩ : sink_id = a.sink_id ∧ boundary_id = a.boundary_id ∧
        nonce = a.nonce ∧ now_ns = a.now_ns := by
      simpa [eq_comm] using hlook
    refine ⟨key, row, hbind, ?_⟩
    rw [hcommitted]
    exact AList.lookup_insert _
  · exact (h ((AList.lookup_insert_ne hne).symm.trans hlook)).moves hm

/-! ## Steps -/

/-- Apart from the claim a call does the same over any consumption store, and leaves it. -/
theorem next_of_not_verified {k : Interleaving.Call R} (hk : ∀ d, k.phase ≠ .verified d)
    {ev : EvidenceStore R} {st : ProtectedState} {store : InMemoryConsumptionStore}
    {effector effector' : GuardedEffector} {q : Interleaving.Phase}
    (h : k.next ev st ⟨⟨∅⟩, effector⟩ = some (q, ⟨⟨∅⟩, effector'⟩)) :
    k.next ev st ⟨store, effector⟩ = some (q, ⟨store, effector'⟩) := by
  unfold Interleaving.Call.next at h ⊢
  cases hp : k.phase with
  | verified d => exact absurd hp (hk d)
  | started =>
    simp only [hp] at h ⊢
    split at h <;> simp_all
  | claimed d =>
    simp only [hp] at h ⊢
    split at h <;> simp_all
  | committed d ref =>
    simp only [hp] at h ⊢
    split at h <;> simp_all
  | returned | unverified | replayed | denied | unreceipted =>
    rw [hp] at h
    cases h

/-- The abstract claim of a free id. -/
theorem next_verified_of_free {k : Interleaving.Call R} {d : PyStr} (hk : k.phase = .verified d)
    (ev : EvidenceStore R) (st : ProtectedState) {stores : EffectStores}
    (h : k.cap.capability_id ∉ stores.consumption_store.claims) :
    k.next ev st stores = some (.claimed d,
      ⟨⟨stores.consumption_store.claims.insert k.cap.capability_id (k.sink.context.sink_id,
        k.sink.context.boundary_id, k.cap.nonce, k.now)⟩, stores.effector⟩) := by
  simp only [Interleaving.Call.next, hk, InMemoryConsumptionStore.claim_ok.2 ⟨h, rfl⟩]

/-- The abstract claim of a taken id raises what the durable store raises. -/
theorem next_verified_of_taken {k : Interleaving.Call R} {d : PyStr} (hk : k.phase = .verified d)
    (ev : EvidenceStore R) (st : ProtectedState) {stores : EffectStores}
    (h : k.cap.capability_id ∈ stores.consumption_store.claims) :
    k.next ev st stores =
      some (.replayed (.replayDetected (py "capability already consumed")), stores) := by
  cases hc : stores.consumption_store.claim k.cap.capability_id k.sink.context.sink_id
      k.sink.context.boundary_id k.cap.nonce k.now with
  | ok store => exact absurd h (InMemoryConsumptionStore.claim_ok.1 hc).1
  | error e =>
    obtain ⟨-, rfl⟩ := InMemoryConsumptionStore.claim_error hc
    simp only [Interleaving.Call.next, hk, hc]

variable {s s' : State P R} {t t' : Interleaving.State R}

omit [DecidableEq P] in
/-- Every call has its abstract call. -/
theorem Abstracts.exists_call (h : Abstracts s t) {i : Nat} {k : Interleaving.Call R}
    (hi : s.calls[i]? = some k) : ∃ k', t.calls[i]? = some k' := by
  have hlt := (List.getElem?_eq_some_iff.1 hi).1
  rw [← h.length] at hlt
  exact ⟨_, List.getElem?_eq_getElem hlt⟩

omit [DecidableEq P] in
/-- A call that is not at its claim is abstractly the same. -/
theorem Abstracts.in_step (h : Abstracts s t) {p : P} {i : Nat} {k : Interleaving.Call R}
    (hp : s.running p = some i) (hi : s.calls[i]? = some k) (hk : ∀ d, k.phase ≠ .verified d) :
    s.store.phase p = .idle ∧ t.calls[i]? = some k := by
  obtain ⟨k', hk'⟩ := h.exists_call hi
  have hin := h.running hp hi hk'
  unfold InClaim at hin
  split at hin
  · rename_i hphase
    exact ⟨hphase, hin ▸ hk'⟩
  iterate 6
    · obtain ⟨-, ⟨d, hd⟩, -⟩ := hin
      exact absurd hd (hk d)
  · obtain ⟨-, d, hd, -⟩ := hin
    exact absurd hd (hk d)
  all_goals exact hin.elim

/-- A step of the process `p` in its call: the call moves on, abstractly too, and the process in
the durable store. -/
theorem Abstracts.update (h : Abstracts s t) {p : P} {i : Nat} {k k' : Interleaving.Call R}
    {q : Interleaving.Phase} {phase : SQLiteConsumptionStore.Phase}
    {db : SQLiteConsumptionStore.Consumed P}
    {effector : GuardedEffector} (hp : s.running p = some i) (hm : Moves p s.store.db db)
    (hstands : Stands db p phase) (hcalls : t'.calls = t.calls.set i k')
    (heff : t'.stores.effector = effector)
    (hclaims : ∀ j, Consumed db j ↔ j ∈ t'.stores.consumption_store.claims)
    (hrows : Rows db t'.stores.consumption_store)
    (hahead : Ahead { k with phase := q } k') (hin : InClaim { k with phase := q } k' phase) :
    Abstracts ⟨s.store.move p phase db, effector, s.calls.set i { k with phase := q }, s.running⟩
      t' where
  effector := heff
  claims := hclaims
  rows := hrows
  length := by simp [hcalls, h.length]
  calls := by
    intro j kj kj' hj hj'
    rw [hcalls] at hj'
    rcases Threads.getElem?_set_eq_some hj with ⟨rfl, rfl⟩ | ⟨hne, hj⟩
    · rcases Threads.getElem?_set_eq_some hj' with ⟨-, rfl⟩ | ⟨hne, -⟩
      · exact hahead
      · exact absurd rfl hne
    · rw [List.getElem?_set_ne hne] at hj'
      exact h.calls hj hj'
  running := by
    intro p' j kj kj' hp' hj hj'
    rw [hcalls] at hj'
    rcases Threads.getElem?_set_eq_some hj with ⟨rfl, rfl⟩ | ⟨hne, hj⟩
    · rcases Threads.getElem?_set_eq_some hj' with ⟨-, rfl⟩ | ⟨hne, -⟩
      · obtain rfl := h.one hp hp'
        rwa [SQLiteConsumptionStore.phase_move_self]
      · exact absurd rfl hne
    · rw [List.getElem?_set_ne hne] at hj'
      have hne' : p' ≠ p := by
        rintro rfl
        exact hne (Option.some.inj (hp.symm.trans hp'))
      rw [SQLiteConsumptionStore.phase_move_of_ne _ hne']
      exact h.running hp' hj hj'
  idle := by
    intro p' hp'
    have hne : p' ≠ p := by
      rintro rfl
      cases hp.symm.trans hp'
    rw [SQLiteConsumptionStore.phase_move_of_ne _ hne]
    exact h.idle hp'
  one := h.one
  bound := by
    intro p' j hp'
    rw [List.length_set]
    exact h.bound hp'
  stands := by
    intro p'
    rcases eq_or_ne p' p with rfl | hne
    · rwa [SQLiteConsumptionStore.phase_move_self]
    · rw [SQLiteConsumptionStore.phase_move_of_ne _ hne]
      exact (h.stands p').frame hne hm

/-- The other processes stay in their calls when one leaves its own. -/
theorem running_leave {running : P → Option Nat} {p q : P} {i : Nat}
    (h : Function.update running p none q = some i) : q ≠ p ∧ running q = some i := by
  rcases eq_or_ne q p with rfl | hne
  · rw [Function.update_self] at h
    cases h
  · exact ⟨hne, (Function.update_of_ne hne ..).symm.trans h⟩

/-- A process leaves its call, at its end or before. -/
theorem Abstracts.leave (h : Abstracts s t) {p : P} {db : SQLiteConsumptionStore.Consumed P}
    (hm : Moves p s.store.db db) (hcommitted : db.committed = s.store.db.committed) :
    Abstracts ⟨s.store.move p .idle db, s.effector, s.calls,
      Function.update s.running p none⟩ t where
  effector := h.effector
  claims := fun j => (consumed_congr hcommitted).trans (h.claims j)
  rows := h.rows.moves hm
  length := h.length
  calls := h.calls
  running := by
    intro p' j k k' hp' hj hj'
    obtain ⟨hne, hp'⟩ := running_leave hp'
    rw [SQLiteConsumptionStore.phase_move_of_ne _ hne]
    exact h.running hp' hj hj'
  idle := by
    intro p' hp'
    rcases eq_or_ne p' p with rfl | hne
    · exact SQLiteConsumptionStore.phase_move_self _
    · rw [SQLiteConsumptionStore.phase_move_of_ne _ hne]
      exact h.idle ((Function.update_of_ne hne ..).symm.trans hp')
  one := fun hp' hq' => h.one (running_leave hp').2 (running_leave hq').2
  bound := fun hp' => h.bound (running_leave hp').2
  stands := by
    intro p'
    rcases eq_or_ne p' p with rfl | hne
    · rw [SQLiteConsumptionStore.phase_move_self]
      trivial
    · rw [SQLiteConsumptionStore.phase_move_of_ne _ hne]
      exact (h.stands p').frame hne hm

/-- A statement of the claim of `k` takes its call from phase to phase: it commits the row, or
leaves the committed rows alone. -/
theorem inClaim_statement {p : P} {k k' : Interleaving.Call R}
    {phase phase' : SQLiteConsumptionStore.Phase} {db db' : SQLiteConsumptionStore.Consumed P}
    (hstands : Stands db p phase) (hin : InClaim k k' phase)
    (h : SQLiteConsumptionStore.statement p db phase = some (phase', db')) :
    (db'.committed = db.committed ∧ InClaim k k' phase') ∨
      (phase = .inserted (claimOf k) ∧ (∃ d, k.phase = .verified d) ∧ k' = k ∧
        phase' = .closing (.claim (claimOf k)) .returned ∧ ∃ key row,
          bindClaim (claimOf k) = .ok (key, row) ∧ key ∉ db.committed ∧
            db'.committed = db.committed.insert key row) := by
  cases phase with
  | idle | closing => cases h
  | opened call =>
    cases call with
    | isClaimed i => exact hin.elim
    | claim a =>
      obtain ⟨db₁, hbegin, heq⟩ := Option.map_eq_some_iff.1 h
      obtain ⟨rfl, rfl⟩ := Prod.mk.inj heq
      exact .inl ⟨(beginImmediate_eq_some.1 hbegin).2.1, hin⟩
  | begun a =>
    rw [SQLiteConsumptionStore.statement] at h
    split at h
    · obtain ⟨rfl, rfl⟩ := Prod.mk.inj (Option.some.inj h)
      exact .inl ⟨rfl, hin⟩
    · split at h
      · obtain ⟨rfl, rfl⟩ := Prod.mk.inj (Option.some.inj h)
        exact .inl ⟨rfl, hin⟩
      · rename_i hins
        obtain ⟨rfl, rfl⟩ := Prod.mk.inj (Option.some.inj h)
        refine .inl ⟨?_, hin⟩
        rcases insert_of_writer (p := p) hstands with ⟨hnone, -⟩ | ⟨db₁, hins', -, hcommitted, -⟩
        · cases hnone.symm.trans hins
        · exact Option.some.inj (hins'.symm.trans hins) ▸ hcommitted
  | refused a =>
    obtain ⟨rfl, rfl⟩ := Prod.mk.inj (Option.some.inj h)
    exact .inl ⟨committed_discard .., hin⟩
  | inserted a =>
    obtain ⟨rfl, rfl⟩ := Prod.mk.inj (Option.some.inj h)
    obtain ⟨rfl, hk, hk'⟩ := hin
    obtain ⟨key, row, hbind, hfree, hwriter⟩ := hstands
    refine .inr ⟨rfl, hk, hk', rfl, key, row, hbind, hfree, ?_⟩
    rw [commit_of_writer hwriter]
    rfl

/-- A call starts. -/
theorem Abstracts.start (h : Abstracts s t) {p : P} (hp : s.running p = none)
    (k : Interleaving.Call R) : Abstracts { s with
      calls := s.calls ++ [k], running := Function.update s.running p (some s.calls.length) }
      { t with calls := t.calls ++ [k] } where
  effector := h.effector
  claims := h.claims
  rows := h.rows
  length := by simp [h.length]
  calls := by
    intro j kj kj' hj hj'
    rcases Interleaving.getElem?_concat_eq_some.1 hj with hj | ⟨rfl, rfl⟩
    · rcases Interleaving.getElem?_concat_eq_some.1 hj' with hj' | ⟨rfl, -⟩
      · exact h.calls hj hj'
      · rw [h.length] at hj
        simp at hj
    · rw [← h.length] at hj'
      exact .inl (by simpa using hj'.symm)
  running := by
    intro q j kj kj' hq hj hj'
    rcases eq_or_ne q p with rfl | hne
    · obtain rfl : s.calls.length = j := by simpa using hq
      rw [h.idle hp]
      rw [← h.length] at hj'
      obtain rfl : k = kj := by simpa using hj
      exact (show kj' = k by simpa using hj'.symm)
    · replace hq : s.running q = some j := (Function.update_of_ne hne ..).symm.trans hq
      have hlt := h.bound hq
      rw [List.getElem?_append_left hlt] at hj
      rw [List.getElem?_append_left (h.length ▸ hlt)] at hj'
      exact h.running hq hj hj'
  idle := by
    intro q hq
    rcases eq_or_ne q p with rfl | hne
    · simp at hq
    · exact h.idle ((Function.update_of_ne hne ..).symm.trans hq)
  one := by
    intro q q' j hq hq'
    rcases eq_or_ne q p with rfl | hne
    · rcases eq_or_ne q' q with rfl | hne'
      · rfl
      · have hlt := h.bound ((Function.update_of_ne hne' ..).symm.trans hq')
        obtain rfl : s.calls.length = j := by simpa using hq
        omega
    · replace hq : s.running q = some j := (Function.update_of_ne hne ..).symm.trans hq
      rcases eq_or_ne q' p with rfl | hne'
      · have hlt := h.bound hq
        obtain rfl : s.calls.length = j := by simpa using hq'
        omega
      · exact h.one hq ((Function.update_of_ne hne' ..).symm.trans hq')
  bound := by
    intro q j hq
    rw [List.length_append, List.length_singleton]
    rcases eq_or_ne q p with rfl | hne
    · obtain rfl : s.calls.length = j := by simpa using hq
      omega
    · have hlt := h.bound ((Function.update_of_ne hne ..).symm.trans hq)
      omega
  stands := h.stands

/-- A step of the process `p` in the durable store that leaves the committed rows alone. -/
theorem Abstracts.move (h : Abstracts s t) {p : P} {i : Nat} {k k' : Interleaving.Call R}
    {phase : SQLiteConsumptionStore.Phase} {db : SQLiteConsumptionStore.Consumed P}
    (hp : s.running p = some i) (hi : s.calls[i]? = some k) (hi' : t.calls[i]? = some k')
    (hm : Moves p s.store.db db) (hstands : Stands db p phase)
    (hcommitted : db.committed = s.store.db.committed) (hin : InClaim k k' phase) :
    Abstracts { s with store := s.store.move p phase db } t := by
  have hup := h.update (k := k) (q := k.phase) hp hm hstands
    (Threads.set_eq_of_getElem? hi').symm h.effector
    (fun j => (consumed_congr hcommitted).trans (h.claims j)) (h.rows.moves hm) (h.calls hi hi') hin
  rwa [Threads.set_eq_of_getElem? hi] at hup

omit [DecidableEq P] in
/-- A process in a durable call runs a call of the deployment. -/
theorem Abstracts.exists_running (h : Abstracts s t) {p : P} (hphase : s.store.phase p ≠ .idle) :
    ∃ i k k', s.running p = some i ∧ s.calls[i]? = some k ∧ t.calls[i]? = some k' := by
  cases hp : s.running p with
  | none => exact absurd (h.idle hp) hphase
  | some i =>
    have hi := List.getElem?_eq_getElem (h.bound hp)
    obtain ⟨k', hi'⟩ := h.exists_call hi
    exact ⟨i, _, k', rfl, hi, hi'⟩

/-- A statement of a claim: nothing happens abstractly until the row is committed, and that is
where the abstract call claims. -/
theorem Abstracts.statement (h : Abstracts s t) {p : P} {phase : SQLiteConsumptionStore.Phase}
    {db : SQLiteConsumptionStore.Consumed P}
    (hnext : SQLiteConsumptionStore.statement p s.store.db (s.store.phase p) = some (phase, db)) :
    ∃ acts t', Run Interleaving.Step t acts t' ∧
      Abstracts { s with store := s.store.move p phase db } t' := by
  have hphase : s.store.phase p ≠ .idle := by
    intro hidle
    rw [hidle] at hnext
    cases hnext
  obtain ⟨i, k, k', hp, hi, hi'⟩ := h.exists_running hphase
  obtain ⟨hm, hstands, -⟩ := (h.stands p).statement hnext
  rcases inClaim_statement (h.stands p) (h.running hp hi hi') hnext with
    ⟨hcommitted, hin⟩ | ⟨-, ⟨d, hk⟩, rfl, rfl, key, row, hbind, hfree, hcommitted⟩
  · exact ⟨[], t, .nil, h.move hp hi hi' hm hstands hcommitted hin⟩
  have hid := SQLiteConsumptionStore.bindText_of_bindClaim hbind
  have hfree' : k'.cap.capability_id ∉ t.stores.consumption_store.claims :=
    fun hmem => hfree ((consumed_iff hid).1 ((h.claims _).2 hmem))
  have hnext' := next_verified_of_free hk (.init k'.sink.authenticator) (.init 0 0) hfree'
  have hclaims : ∀ v j, Consumed db j ↔
      j ∈ t.stores.consumption_store.claims.insert k'.cap.capability_id v := by
    intro v j
    rw [AList.mem_insert, ← h.claims j]
    exact consumed_insert hid hcommitted
  refine ⟨_, _, .single (.advance hi' hnext'), ?_⟩
  rw [← Threads.set_eq_of_getElem? hi]
  exact h.update hp hm hstands rfl h.effector (hclaims _) (h.rows.insert hm hbind hcommitted)
    (.inr ⟨d, hk, rfl⟩) ⟨rfl, d, hk, rfl⟩

/-- The end of a claim: one that returned has claimed abstractly before, one that is refused is
refused abstractly now. -/
theorem Abstracts.close (h : Abstracts s t) {p : P} {i : Nat} {k : Interleaving.Call R} {d : PyStr}
    {a : Claim} {outcome : Outcome} {q : Interleaving.Phase} (hp : s.running p = some i)
    (hi : s.calls[i]? = some k) (hk : k.phase = .verified d) (hq : closedPhase d outcome = some q)
    (hphase : s.store.phase p = .closing (.claim a) outcome) :
    ∃ acts t', Run Interleaving.Step t acts t' ∧ Abstracts { s with
      store := s.store.move p .idle (s.store.db.discard p)
      calls := s.calls.set i { k with phase := q } } t' := by
  obtain ⟨k', hi'⟩ := h.exists_call hi
  have hin := h.running hp hi hi'
  have hstands := h.stands p
  rw [hphase] at hin hstands
  have hclaims : ∀ j, Consumed (s.store.db.discard p) j ↔
      j ∈ t.stores.consumption_store.claims :=
    fun j => (consumed_congr (committed_discard ..)).trans (h.claims j)
  cases outcome with
  | answered => cases hq
  | returned =>
    obtain rfl := Option.some.inj hq
    obtain ⟨-, d', hk', rfl⟩ := hin
    obtain rfl : d = d' := by simpa [hk] using hk'
    exact ⟨[], t, .nil, h.update hp (.discard _ _) trivial
      (Threads.set_eq_of_getElem? hi').symm h.effector hclaims (h.rows.moves (.discard _ _))
      (.inl rfl) rfl⟩
  | raised e =>
    cases e with
    | operationalError | unicodeEncodeError | overflowError => cases hq
    | reference e =>
      obtain rfl := Option.some.inj hq
      obtain ⟨rfl, -, rfl⟩ := hin
      obtain ⟨rfl, key, row, hbind, hkey⟩ := hstands
      have htaken := (h.claims _).1
        ⟨key, SQLiteConsumptionStore.bindText_of_bindClaim hbind, hkey⟩
      have hnext' := next_verified_of_taken hk (.init k'.sink.authenticator) (.init 0 0) htaken
      exact ⟨_, _, .single (.advance hi' hnext'), h.update hp (.discard _ _) trivial rfl
        h.effector hclaims (h.rows.moves (.discard _ _)) (.inl rfl) rfl⟩

/-- **A step of the deployment** is what the abstract calls can do. -/
theorem Abstracts.step {act : Act P R} (h : Abstracts s t) (hs : Step s act s') :
    ∃ acts t', Run Interleaving.Step t acts t' ∧ Abstracts s' t' := by
  have hself : ∀ p, s.store.move p (s.store.phase p) s.store.db = s.store := by
    intro p
    rw [SQLiteConsumptionStore.State.move, Function.update_eq_self]
  cases hs with
  | start hp => exact ⟨_, _, .single .start, h.start hp _⟩
  | failNext =>
    exact ⟨_, _, .single .failNext, by simp only [h.effector], h.claims, h.rows, h.length,
      h.calls, h.running, h.idle, h.one, h.bound, h.stands⟩
  | crash hstore =>
    cases hstore with
    | crash => exact ⟨[], t, .nil, h.leave (.discard _ _) (committed_discard ..)⟩
  | @finish p i k hp hi hk =>
    obtain ⟨hidle, -⟩ := h.in_step hp hi fun d hd => by simp [hd, Interleaving.Phase.result] at hk
    have hleave := h.leave (.refl p s.store.db) rfl
    rw [← hidle, hself] at hleave
    exact ⟨[], t, .nil, hleave⟩
  | @advance p i k ev st q effector hp hi hk hnext =>
    obtain ⟨hidle, hi'⟩ := h.in_step hp hi hk
    have hnext' : k.next ev st ⟨t.stores.consumption_store, s.effector⟩ =
        some (q, ⟨t.stores.consumption_store, effector⟩) := next_of_not_verified hk hnext
    rw [← h.effector] at hnext'
    have hup : Abstracts ⟨s.store.move p .idle s.store.db, effector,
        s.calls.set i { k with phase := q }, s.running⟩
        (t.move i k q ⟨t.stores.consumption_store, effector⟩) :=
      h.update hp (.refl p s.store.db) trivial rfl rfl h.claims h.rows (.inl rfl) rfl
    rw [← hidle, hself] at hup
    exact ⟨_, _, .single (.advance hi' hnext'), hup⟩
  | @claim p i k d store hp hi hk hstore =>
    obtain ⟨k', hi'⟩ := h.exists_call hi
    have hin := h.running hp hi hi'
    cases hstore with
    | call hidle =>
      rw [hidle] at hin
      exact ⟨[], t, .nil, h.move hp hi hi' (.refl p s.store.db) trivial rfl ⟨rfl, ⟨d, hk⟩, hin⟩⟩
  | statement hstore =>
    cases hstore with
    | statement hnext => exact h.statement hnext
  | @timeout p store hstore =>
    cases hstore with
    | timeout hphase hlocked =>
      obtain ⟨i, k, k', hp, hi, hi'⟩ :=
        h.exists_running fun hidle => by cases hphase.symm.trans hidle
      have hin := h.running hp hi hi'
      rw [hphase] at hin
      exact ⟨[], t, .nil, h.move hp hi hi' (.refl p s.store.db) trivial rfl hin⟩
  | close hp hi hk hq hstore =>
    cases hstore with
    | close hphase => exact h.close hp hi hk hq hphase
  | @abandon p i k d a outcome store hp hi hk hq hstore =>
    cases hstore with
    | close => exact ⟨[], t, .nil, h.leave (.discard _ _) (committed_discard ..)⟩

/-- The abstract stores at the start: nothing claimed, nothing effected, no call. -/
def State.abstract (s : State P R) : Interleaving.State R := ⟨⟨⟨∅⟩, s.effector⟩, [], []⟩

omit [DecidableEq P] in
/-- Nothing has happened in the abstraction of an empty state. -/
theorem State.Empty.abstract (h : s.Empty) : s.abstract.Empty := ⟨rfl, h.records, rfl, rfl⟩

omit [DecidableEq P] in
/-- And it abstracts it. -/
theorem abstracts_of_empty (h : s.Empty) : Abstracts s s.abstract where
  effector := rfl
  claims := by
    intro j
    rw [h.store]
    refine ⟨?_, fun hj => absurd hj (AList.notMem_empty _)⟩
    rintro ⟨key, -, hkey⟩
    exact absurd hkey (AList.notMem_empty _)
  rows := fun _ _ _ _ _ hi => by cases hi
  length := by simp [h.calls, State.abstract]
  calls := by simp [h.calls]
  running := by simp [h.running]
  idle := fun _ => by rw [h.store]; rfl
  one := by simp [h.running]
  bound := by simp [h.running]
  stands := fun _ => by rw [h.store]; trivial

/-- **A run of the deployment**, crashes included, is a run of the abstract calls. -/
theorem Abstracts.run {acts : List (Act P R)} (h : Abstracts s t) (hrun : Run Step s acts s') :
    ∃ acts' t', Run Interleaving.Step t acts' t' ∧ Abstracts s' t' :=
  hrun.forward Abstracts (fun _ _ _ _ h hs => h.step hs) h

end

end Durable

end Finality
