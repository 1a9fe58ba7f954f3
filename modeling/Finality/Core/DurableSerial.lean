import Finality.Core.DurableClaims

/-!
# The durable store and the in-memory store

Where the calls of the durable store follow one another and no process is lost, the in-memory
store gives the same calls the same outcomes, as long as their parameters can be bound: `Progress`
compares the table with the dictionary at each point of the call in progress. A call with a
parameter that cannot be bound raises the error of the binding and changes nothing.
-/

namespace Finality

open Checks Runs Transactions

namespace SQLiteConsumptionStore

/-- The error of the first parameter of a call that cannot be bound. -/
def bindError : Call → Option Raised
  | .claim a => match bindClaim a with
    | .error e => some e
    | .ok _ => none
  | .isClaimed i => match bindText i with
    | .error e => some e
    | .ok _ => none

/-- A call of the in-memory store, with its outcome. -/
def memoryCall (store : InMemoryConsumptionStore) : Call → Outcome × InMemoryConsumptionStore
  | .claim a =>
      match store.claim a.capability_id a.sink_id a.boundary_id a.nonce a.now_ns with
      | .ok store => (.returned, store)
      | .error e => (.raised (.reference e), store)
  | .isClaimed i => (.answered (store.isClaimed i), store)

/-- The in-memory store answers a call with an outcome. -/
def MemoryStep (store : InMemoryConsumptionStore) (ev : Call × Outcome)
    (store' : InMemoryConsumptionStore) : Prop :=
  memoryCall store ev.1 = (ev.2, store')

section
variable {P : Type _} [DecidableEq P]

/-- A step in which no process is lost and no call starts before the others have ended. -/
def SequentialStep (st : State P) (ev : Event P) (st' : State P) : Prop :=
  Step st ev st' ∧ match ev with
    | .call .. => ∀ q, st.phase q = .idle
    | .crash _ => False
    | .statement _ | .timeout _ | .close .. => True

variable {db db' : Consumed P} {st st' : State P} {p q : P} {a : Claim} {c : Call}
  {outcome : Outcome} {phase phase' : Phase} {events : List (Event P)} {key : Text} {row : Row}
  {memory memory' : InMemoryConsumptionStore}

/-- The table and the dictionary have the same keys. -/
def Agrees (memory : InMemoryConsumptionStore) (db : Consumed P) : Prop :=
  ∀ i key, bindText i = .ok key → (key ∈ db.committed ↔ i ∈ memory.claims)

/-- The outcome that the durable store gives a call, as the in-memory store would. -/
def Answers (memory : InMemoryConsumptionStore) (c : Call) (outcome : Outcome)
    (memory' : InMemoryConsumptionStore) : Prop :=
  match bindError c with
  | none => MemoryStep memory (c, outcome) memory'
  | some e => outcome = .raised e ∧ memory' = memory

/-- How far the only call in progress is. -/
def Progress (memory : InMemoryConsumptionStore) (db : Consumed P) (p : P) : Phase → Prop
  | .idle => False
  | .opened _ => Agrees memory db ∧ db.writer = none
  | .begun _ => Agrees memory db ∧ db.writer = some (p, db.committed)
  | .inserted a => Agrees memory db ∧ ∃ key row, bindClaim a = .ok (key, row) ∧
      key ∉ db.committed ∧ db.writer = some (p, db.committed.insert key row)
  | .refused a => Agrees memory db ∧ Taken db a ∧ db.writer = some (p, db.committed)
  | .closing c outcome => ∃ memory', Agrees memory' db ∧ Answers memory c outcome memory' ∧
      (db.discard p).writer = none

omit [DecidableEq P] in
/-- Inserting a row and its dictionary entry keeps the keys the same. -/
theorem Agrees.insert (h : Agrees memory db) (hbind : bindText a.capability_id = .ok key)
    (v : PyStr × PyStr × PyStr × Int) :
    Agrees (P := P) ⟨memory.claims.insert a.capability_id v⟩
      (.ofTable (db.committed.insert key row)) := by
  intro i key' hi
  rw [show (Database.ofTable (P := P) (db.committed.insert key row)).committed =
    db.committed.insert key row from rfl, AList.mem_insert, AList.mem_insert, h i key' hi]
  refine or_congr_left ⟨?_, ?_⟩
  · rintro rfl
    exact bindText_inj hi hbind
  · rintro rfl
    exact Except.ok.inj (hi.symm.trans hbind)

omit [DecidableEq P] in
/-- The two stores answer alike whether a capability is claimed. -/
theorem Agrees.isClaimed {i : PyStr} (h : Agrees memory db) (hbind : bindText i = .ok key) :
    memory.isClaimed i = decide (key ∈ db.committed) := by
  rw [Bool.eq_iff_iff, InMemoryConsumptionStore.isClaimed, AList.lookup_isSome, decide_eq_true_iff,
    h i key hbind]

/-- A claim that the in-memory store refuses. -/
theorem memoryStep_taken (hkey : a.capability_id ∈ memory.claims) :
    MemoryStep memory (.claim a,
      .raised (.reference (.replayDetected (py "capability already consumed")))) memory := by
  rw [MemoryStep, memoryCall]
  cases h : memory.claim a.capability_id a.sink_id a.boundary_id a.nonce a.now_ns with
  | ok store => exact absurd hkey (InMemoryConsumptionStore.claim_ok.1 h).1
  | error e => rw [(InMemoryConsumptionStore.claim_error h).2]

/-- A claim that it grants. -/
theorem memoryStep_free (hkey : a.capability_id ∉ memory.claims) :
    MemoryStep memory (.claim a, .returned)
      ⟨memory.claims.insert a.capability_id (a.sink_id, a.boundary_id, a.nonce, a.now_ns)⟩ := by
  rw [MemoryStep, memoryCall, InMemoryConsumptionStore.claim_ok.2 ⟨hkey, rfl⟩]

/-- A claim that cannot be bound raises, and leaves the memory alone. -/
theorem answers_of_bindError {e : Raised} (h : bindError c = some e) :
    Answers memory c (.raised e) memory := by
  rw [Answers, h]
  exact ⟨rfl, rfl⟩

/-- Any other claim answers as the store in memory does. -/
theorem answers_of_memoryStep (hbind : bindError c = none)
    (h : MemoryStep memory (c, outcome) memory') : Answers memory c outcome memory' := by
  rwa [Answers, hbind]

/-- A claim that is bound raises nothing. -/
theorem bindError_claim (h : bindClaim a = .ok (key, row)) : bindError (.claim a) = none := by
  rw [bindError, h]

/-- **One statement** of the only call in progress. -/
theorem Progress.statement (h : Progress memory db p phase)
    (hnext : statement p db phase = some (phase', db')) : Progress memory db' p phase' := by
  cases phase with
  | idle => cases hnext
  | closing call outcome => cases hnext
  | opened call =>
    obtain ⟨hagrees, hfree⟩ := h
    cases call with
    | claim a =>
      obtain ⟨db₁, hbegin, heq⟩ := Option.map_eq_some_iff.1 hnext
      obtain ⟨rfl, rfl⟩ := Prod.mk.inj heq
      obtain ⟨-, hcommitted, hwriter⟩ := beginImmediate_eq_some.1 hbegin
      refine ⟨?_, by rw [hwriter, hcommitted]⟩
      rwa [Agrees, hcommitted]
    | isClaimed i =>
      have hclosed : (db.discard p).writer = none := by rwa [discard_of_free hfree]
      rw [SQLiteConsumptionStore.statement] at hnext
      cases hbind : bindText i with
      | error e =>
        simp only [hbind] at hnext
        obtain ⟨rfl, rfl⟩ := Prod.mk.inj (Option.some.inj hnext)
        exact ⟨memory, hagrees, answers_of_bindError (by rw [bindError, hbind]), hclosed⟩
      | ok key =>
        simp only [hbind] at hnext
        obtain ⟨rfl, rfl⟩ := Prod.mk.inj (Option.some.inj hnext)
        refine ⟨memory, hagrees, answers_of_memoryStep (by rw [bindError, hbind]) ?_, hclosed⟩
        rw [MemoryStep, memoryCall, hagrees.isClaimed hbind]
  | begun a =>
    obtain ⟨hagrees, hwriter⟩ := h
    rw [SQLiteConsumptionStore.statement] at hnext
    cases hbind : bindClaim a with
    | error e =>
      simp only [hbind] at hnext
      obtain ⟨rfl, rfl⟩ := Prod.mk.inj (Option.some.inj hnext)
      exact ⟨memory, hagrees, answers_of_bindError (by rw [bindError, hbind]),
        by rw [discard_of_writer hwriter]; rfl⟩
    | ok kr =>
      obtain ⟨key, row⟩ := kr
      simp only [hbind] at hnext
      rcases insert_of_writer (k := key) (v := row) hwriter with
        ⟨hins, hkey⟩ | ⟨db₁, hins, hkey, hcommitted, hwriter'⟩
      · rw [hins] at hnext
        obtain ⟨rfl, rfl⟩ := Prod.mk.inj (Option.some.inj hnext)
        exact ⟨hagrees, ⟨key, row, hbind, hkey⟩, hwriter⟩
      · rw [hins] at hnext
        obtain ⟨rfl, rfl⟩ := Prod.mk.inj (Option.some.inj hnext)
        refine ⟨by rwa [Agrees, hcommitted], key, row, hbind, ?_, ?_⟩
        · rwa [hcommitted]
        · rwa [hcommitted]
  | refused a =>
    obtain ⟨hagrees, ⟨key, row, hbind, hkey⟩, hwriter⟩ := h
    obtain ⟨rfl, rfl⟩ := Prod.mk.inj (Option.some.inj hnext)
    have hclosed := discard_of_writer hwriter
    refine ⟨memory, by rwa [Agrees, committed_discard],
      answers_of_memoryStep (bindError_claim hbind) (memoryStep_taken ?_), ?_⟩
    · exact (hagrees _ key (bindText_of_bindClaim hbind)).1 hkey
    · rw [hclosed, discard_of_free rfl]
      rfl
  | inserted a =>
    obtain ⟨hagrees, key, row, hbind, hkey, hwriter⟩ := h
    obtain ⟨rfl, rfl⟩ := Prod.mk.inj (Option.some.inj hnext)
    have hid := bindText_of_bindClaim hbind
    rw [commit_of_writer hwriter]
    refine ⟨_, hagrees.insert hid _, answers_of_memoryStep (bindError_claim hbind)
      (memoryStep_free ?_), by rw [discard_of_free rfl]; rfl⟩
    exact fun hmem => hkey ((hagrees _ key hid).2 hmem)

/-! ## Sequential runs -/

/-- The calls that have ended and whose parameters could be bound, with their outcomes. -/
def bound (events : List (Event P)) : List (Call × Outcome) :=
  (finished events).filter fun ev => bindError ev.1 = none

/-- The in-memory store gave the calls that have ended the same outcomes, and is as far as the
call in progress, if there is one. -/
def Serial (events : List (Event P)) (st : State P) : Prop :=
  ∃ memory, Run MemoryStep ⟨∅⟩ (bound events) memory ∧
    (∀ c outcome e, (c, outcome) ∈ finished events → bindError c = some e → outcome = .raised e) ∧
    ((∀ p, st.phase p = .idle) ∧ Agrees memory st.db ∧ st.db.writer = none ∨
      ∃ p, (∀ q, q ≠ p → st.phase q = .idle) ∧ Progress memory st.db p (st.phase p))

omit [DecidableEq P] in
/-- The calls finished in a history that goes on. -/
theorem finished_snoc (events : List (Event P)) (ev : Event P) :
    finished (events ++ [ev]) = finished events ++ finished [ev] := by
  rw [finished, List.filterMap_append]
  rfl

/-- The process that can take a step is the one whose call is in progress. -/
theorem Progress.of_serial
    (h : (∀ p, st.phase p = .idle) ∧ Agrees memory st.db ∧ st.db.writer = none ∨
      ∃ p, (∀ q, q ≠ p → st.phase q = .idle) ∧ Progress memory st.db p (st.phase p))
    (hp : st.phase p ≠ .idle) :
    (∀ q, q ≠ p → st.phase q = .idle) ∧ Progress memory st.db p (st.phase p) := by
  rcases h with ⟨hidle, -⟩ | ⟨q, hothers, hprogress⟩
  · exact absurd (hidle p) hp
  · rcases eq_or_ne p q with rfl | hne
    · exact ⟨hothers, hprogress⟩
    · exact absurd (hothers p hne) hp

/-- **Every sequential step** is a part of a call of the in-memory store. -/
theorem Serial.step {ev : Event P} (hs : Serial events st) (h : SequentialStep st ev st') :
    Serial (events ++ [ev]) st' := by
  obtain ⟨memory, hrun, hraised, hnow⟩ := hs
  obtain ⟨hstep, hseq⟩ := h
  have hskip (hev : finished [ev] = []) : finished (events ++ [ev]) = finished events := by
    rw [finished_snoc, hev, List.append_nil]
  cases hstep with
  | @call p c h =>
    rw [Serial, bound, hskip rfl]
    refine ⟨memory, hrun, hraised, .inr ⟨p, ?_, ?_⟩⟩
    · intro q hne
      rw [phase_move_of_ne _ hne]
      exact hseq q
    · rw [phase_move_self]
      rcases hnow with ⟨-, hagrees, hfree⟩ | ⟨q, -, hprogress⟩
      · exact ⟨hagrees, hfree⟩
      · rw [hseq q] at hprogress
        exact hprogress.elim
  | @statement p phase db h =>
    obtain ⟨hothers, hprogress⟩ := Progress.of_serial hnow (p := p) (by
      intro hidle
      rw [hidle] at h
      cases h)
    rw [Serial, bound, hskip rfl]
    refine ⟨memory, hrun, hraised, .inr ⟨p, ?_, ?_⟩⟩
    · intro q hne
      rw [phase_move_of_ne _ hne]
      exact hothers q hne
    · rw [phase_move_self]
      exact hprogress.statement h
  | @timeout p a w h hlocked =>
    obtain ⟨-, hprogress⟩ := Progress.of_serial hnow (p := p) (by rw [h]; nofun)
    rw [h] at hprogress
    rw [hprogress.2] at hlocked
    cases hlocked
  | crash => exact hseq.elim
  | @close p c outcome h =>
    obtain ⟨hothers, hprogress⟩ := Progress.of_serial hnow (p := p) (by rw [h]; nofun)
    rw [h] at hprogress
    obtain ⟨memory', hagrees, hanswers, hclosed⟩ := hprogress
    have hidle : ∀ q, (st.move p .idle (st.db.discard p)).phase q = .idle := by
      intro q
      rcases eq_or_ne q p with rfl | hne
      · exact phase_move_self _
      · rw [phase_move_of_ne _ hne]
        exact hothers q hne
    have hagrees' : Agrees memory' (st.db.discard p) := by rwa [Agrees, committed_discard]
    have hfinished :
        finished (events ++ [.close p c outcome]) = finished events ++ [(c, outcome)] :=
      finished_snoc _ _
    refine ⟨memory', ?_, ?_, .inl ⟨hidle, hagrees', hclosed⟩⟩
    · rw [bound, hfinished, List.filter_append]
      cases hbind : bindError c with
      | none =>
        rw [Answers, hbind] at hanswers
        rw [List.filter_cons_of_pos (by simpa using hbind)]
        exact hrun.snoc hanswers
      | some e =>
        rw [Answers, hbind] at hanswers
        rw [List.filter_cons_of_neg (by simp [hbind]), hanswers.2]
        rwa [List.filter_nil, List.append_nil]
    · intro c' outcome' e hmem hbind
      rw [hfinished] at hmem
      rcases List.mem_append.1 hmem with hmem | hmem
      · exact hraised c' outcome' e hmem hbind
      · obtain ⟨rfl, rfl⟩ := Prod.mk.inj (List.mem_singleton.1 hmem)
        rw [Answers, hbind] at hanswers
        exact hanswers.1

/-- **Every run answers like the store in memory**, in the order in which the calls finished. -/
theorem Serial.run (h : Run SequentialStep State.init events st) : Serial events st := by
  refine h.invariantTrace Serial ?_ fun _ _ _ _ _ hi hs => hi.step hs
  refine ⟨⟨∅⟩, .nil, nofun, .inl ⟨fun _ => rfl, ?_, rfl⟩⟩
  intro i key _
  exact ⟨fun h => absurd h (AList.notMem_empty key), fun h => absurd h (AList.notMem_empty i)⟩

/-- **The durable store claims an id once.** In every interleaving, with processes waiting for the
lock, giving up and being lost at any point: the claims that returned have different ids; the row
of each is in the table from then on; an `INSERT` is refused, and replay reported, only for an id
that a committed row has. And where no process is lost and the calls follow one another, the calls
whose parameters could be bound have the outcomes that the in-memory store gives them, the others
raise the error of the binding, and between the calls the two stores agree on every id. -/
theorem durable_claims (hrun : Run Step State.init events st) :
    ((granted events).map Claim.capability_id).Nodup ∧
    (∀ more st', Run Step st more st' → ∀ a ∈ granted events, Recorded st'.db a) ∧
    (∀ p a st', Step st (.statement p) st' → st'.phase p = .refused a → Taken st.db a) ∧
    (∀ p a e st', Step st (.close p (.claim a) (.raised (.reference e))) st' →
      e = .replayDetected (py "capability already consumed") ∧ Taken st.db a) ∧
    (Run SequentialStep State.init events st → ∃ memory,
      Run MemoryStep ⟨∅⟩ (bound events) memory ∧
      (∀ c outcome e, (c, outcome) ∈ finished events → bindError c = some e →
        outcome = .raised e) ∧
      ((∀ p, st.phase p = .idle) → ∀ i key, bindText i = .ok key →
        memory.isClaimed i = decide (key ∈ st.db.committed))) := by
  have hinv := Inv.run hrun
  refine ⟨hinv.once, ?_, ?_, ?_, ?_⟩
  · intro more st' hmore a ha
    refine (Inv.run (hrun.append hmore)).recorded a ?_
    rw [granted, finished, List.filterMap_append, List.filterMap_append]
    exact List.mem_append_left _ ha
  · intro p a st' hstep hphase
    cases hstep with
    | statement h =>
      rw [phase_move_self] at hphase
      exact ((hinv.stands p).statement h).2.2.2 a hphase
  · intro p a e st' hstep
    cases hstep with
    | close h =>
      have hstands := hinv.stands p
      rw [h] at hstands
      exact hstands
  · intro hsequential
    obtain ⟨memory, hmemory, hraised, hnow⟩ := Serial.run hsequential
    refine ⟨memory, hmemory, hraised, ?_⟩
    intro hidle i key hbind
    rcases hnow with ⟨-, hagrees, -⟩ | ⟨p, -, hprogress⟩
    · exact hagrees.isClaimed hbind
    · rw [hidle p] at hprogress
      exact hprogress.elim

/-! ## The statements of a claim -/

/-- A claim begins its transaction when no other is open. -/
theorem exists_begin (hphase : st.phase p = .opened (.claim a)) (hfree : st.db.writer = none) :
    ∃ db, Step st (.statement p) (st.move p (.begun a) db) ∧ db.committed = st.db.committed ∧
      db.writer = some (p, st.db.committed) := by
  obtain ⟨db, hbegin⟩ : ∃ db, st.db.beginImmediate p = some db := by
    rw [Database.beginImmediate, hfree]
    exact ⟨_, rfl⟩
  obtain ⟨-, hcommitted, hwriter⟩ := beginImmediate_eq_some.1 hbegin
  refine ⟨db, .statement ?_, hcommitted, hwriter⟩
  rw [hphase]
  exact Option.map_eq_some_iff.2 ⟨db, hbegin, rfl⟩

/-- A process that moved on moves on. -/
theorem move_move (phase phase' : Phase) (db db' : Consumed P) :
    (st.move p phase db).move p phase' db' = st.move p phase' db' := by
  simp only [State.move, Function.update_idem]

/-- A claim of a free id writes its row into its own copy of the table. -/
theorem exists_insert (hphase : st.phase p = .opened (.claim a)) (hfree : st.db.writer = none)
    (hbind : bindClaim a = .ok (key, row)) (hkey : key ∉ st.db.committed) :
    ∃ db, Run Step st [.statement p, .statement p] (st.move p (.inserted a) db) ∧
      db.committed = st.db.committed ∧
      db.writer = some (p, st.db.committed.insert key row) := by
  obtain ⟨db, hbegin, hcommitted, hwriter⟩ := exists_begin hphase hfree
  rcases insert_of_writer (k := key) (v := row) hwriter with
    ⟨-, hmem⟩ | ⟨db', hinsert, -, hcommitted', hwriter'⟩
  · exact absurd hmem hkey
  refine ⟨db', .cons hbegin (.single ?_), hcommitted'.trans hcommitted, hwriter'⟩
  rw [← move_move (.begun a) (.inserted a) db db']
  refine .statement ?_
  have hdb : (st.move p (.begun a) db).db = db := rfl
  rw [phase_move_self, hdb, statement]
  simp only [hbind, hinsert]

/-- And commits it. -/
theorem exists_commit (hphase : st.phase p = .opened (.claim a)) (hfree : st.db.writer = none)
    (hbind : bindClaim a = .ok (key, row)) (hkey : key ∉ st.db.committed) :
    ∃ db, Run Step st [.statement p, .statement p, .statement p]
        (st.move p (.closing (.claim a) .returned) db) ∧
      db.committed = st.db.committed.insert key row ∧ db.writer = none := by
  obtain ⟨db, hrun, -, hwriter⟩ := exists_insert hphase hfree hbind hkey
  refine ⟨db.commit p, hrun.snoc ?_, ?_, ?_⟩
  · rw [← move_move (.inserted a) (.closing (.claim a) .returned) db (db.commit p)]
    refine .statement ?_
    rw [phase_move_self]
    rfl
  · rw [commit_of_writer hwriter]
    rfl
  · rw [commit_of_writer hwriter]
    rfl

/-- What a claim of a taken id raises. -/
def replayed : Outcome :=
  .raised (.reference (.replayDetected (py "capability already consumed")))

/-- A claim of a taken id rolls back. -/
theorem exists_refusal (hphase : st.phase p = .opened (.claim a)) (hfree : st.db.writer = none)
    (hbind : bindClaim a = .ok (key, row)) (hkey : key ∈ st.db.committed) :
    ∃ db, Run Step st [.statement p, .statement p, .statement p]
        (st.move p (.closing (.claim a) replayed) db) ∧
      db.committed = st.db.committed ∧ db.writer = none := by
  obtain ⟨db, hbegin, hcommitted, hwriter⟩ := exists_begin hphase hfree
  rcases insert_of_writer (k := key) (v := row) hwriter with ⟨hinsert, -⟩ | ⟨db', -, hmem, -⟩
  swap
  · exact absurd hkey hmem
  have hrefused : Step (st.move p (.begun a) db) (.statement p) (st.move p (.refused a) db) := by
    rw [← move_move (.begun a) (.refused a) db db]
    refine .statement ?_
    have hdb : (st.move p (.begun a) db).db = db := rfl
    rw [phase_move_self, hdb, statement]
    simp only [hbind, hinsert]
  refine ⟨db.discard p, .cons hbegin (.cons hrefused (.single ?_)), ?_, ?_⟩
  · rw [← move_move (.refused a) (.closing (.claim a) replayed) db (db.discard p)]
    refine .statement ?_
    rw [phase_move_self]
    rfl
  · rw [committed_discard, hcommitted]
  · rw [discard_of_writer hwriter]
    rfl

/-- A claim of a free id runs to its end: its row is in the table and the lock is free. -/
theorem exists_returned (hphase : st.phase p = .opened (.claim a)) (hfree : st.db.writer = none)
    (hbind : bindClaim a = .ok (key, row)) (hkey : key ∉ st.db.committed) :
    ∃ db, Run Step st [.statement p, .statement p, .statement p, .close p (.claim a) .returned]
        (st.move p .idle db) ∧
      db.committed = st.db.committed.insert key row ∧ db.writer = none := by
  obtain ⟨db, hrun, hcommitted, hwriter⟩ := exists_commit hphase hfree hbind hkey
  have hclose : Step (st.move p (.closing (.claim a) .returned) db)
      (.close p (.claim a) .returned) _ := .close (phase_move_self _)
  rw [move_move] at hclose
  have hdb : db.discard p = db := discard_of_free hwriter
  exact ⟨_, hrun.snoc hclose, (congrArg _ hdb).trans hcommitted, (congrArg _ hdb).trans hwriter⟩

/-- A claim of a taken id runs to its end: the table is as it was and the lock is free. -/
theorem exists_replayed (hphase : st.phase p = .opened (.claim a)) (hfree : st.db.writer = none)
    (hbind : bindClaim a = .ok (key, row)) (hkey : key ∈ st.db.committed) :
    ∃ db, Run Step st [.statement p, .statement p, .statement p, .close p (.claim a) replayed]
        (st.move p .idle db) ∧
      db.committed = st.db.committed ∧ db.writer = none := by
  obtain ⟨db, hrun, hcommitted, hwriter⟩ := exists_refusal hphase hfree hbind hkey
  have hclose : Step (st.move p (.closing (.claim a) replayed) db)
      (.close p (.claim a) replayed) _ := .close (phase_move_self _)
  rw [move_move] at hclose
  have hdb : db.discard p = db := discard_of_free hwriter
  exact ⟨_, hrun.snoc hclose, (congrArg _ hdb).trans hcommitted, (congrArg _ hdb).trans hwriter⟩

/-- A process that is lost between its insertion and its commit leaves the table as it was. -/
theorem exists_lost (hphase : st.phase p = .opened (.claim a)) (hfree : st.db.writer = none)
    (hbind : bindClaim a = .ok (key, row)) (hkey : key ∉ st.db.committed) :
    ∃ db, Run Step st [.statement p, .statement p, .crash p] (st.move p .idle db) ∧
      db.committed = st.db.committed := by
  obtain ⟨db, hrun, hcommitted, -⟩ := exists_insert hphase hfree hbind hkey
  have hcrash : Step (st.move p (.inserted a) db) (.crash p) _ := .crash
  rw [move_move] at hcrash
  exact ⟨_, hrun.snoc hcrash, (committed_discard ..).trans hcommitted⟩

/-- A claim with a parameter that cannot be bound raises. -/
theorem exists_unbound_run {e : Raised} (hidle : ∀ q, st.phase q = .idle)
    (hfree : st.db.writer = none) (hbind : bindClaim a = .error e) (p : P) :
    ∃ st', Run SequentialStep st [.call p (.claim a), .statement p, .statement p,
      .close p (.claim a) (.raised e)] st' := by
  have hcall : SequentialStep st (.call p (.claim a)) (st.move p (.opened (.claim a)) st.db) :=
    ⟨.call (hidle p), hidle⟩
  have hopened : (st.move p (.opened (.claim a)) st.db).phase p = .opened (.claim a) :=
    phase_move_self _
  obtain ⟨db, hbegin, -, -⟩ := exists_begin hopened hfree
  rw [move_move] at hbegin
  have hraise : SequentialStep (st.move p (.begun a) db) (.statement p)
      ((st.move p (.begun a) db).move p (.closing (.claim a) (.raised e)) db) := by
    refine ⟨.statement ?_, trivial⟩
    have hdb : (st.move p (.begun a) db).db = db := rfl
    rw [phase_move_self, hdb, statement, hbind]
  exact ⟨_, .cons hcall (.cons ⟨hbegin, trivial⟩ (.cons hraise
    (.single ⟨.close (phase_move_self _), trivial⟩)))⟩

end

/-- A claim with plain arguments. -/
def sampleClaim : Claim := ⟨py "cap-0", py "sink-A", py "boundary-A", py "nonce-0", 200⟩

/-- A claim of another id. -/
def otherClaim : Claim := ⟨py "cap-1", py "sink-A", py "boundary-A", py "nonce-1", 200⟩

/-- The same claim with a lone surrogate for its nonce. -/
def surrogateClaim : Claim := { sampleClaim with nonce := [0xD800] }

/-- Three processes: two claim one id at a time, and the one that is refused had waited for the
lock; the third is lost before its commit. -/
theorem durable_claims_sample : ∃ st : State Nat,
    Run Step State.init [.call 0 (.claim sampleClaim), .call 1 (.claim sampleClaim), .statement 0,
      .statement 0, .statement 0, .close 0 (.claim sampleClaim) .returned, .statement 1,
      .statement 1, .statement 1, .close 1 (.claim sampleClaim) replayed,
      .call 2 (.claim otherClaim), .statement 2, .statement 2, .crash 2] st ∧
    Recorded st.db sampleClaim ∧ ¬ Taken st.db otherClaim := by
  obtain ⟨key, row, hbind⟩ : ∃ key row, bindClaim sampleClaim = .ok (key, row) := ⟨_, _, rfl⟩
  obtain ⟨key', row', hbind'⟩ : ∃ key row, bindClaim otherClaim = .ok (key, row) := ⟨_, _, rfl⟩
  have hne : key' ≠ key := by
    rintro rfl
    exact absurd (bindText_inj (bindText_of_bindClaim hbind') (bindText_of_bindClaim hbind))
      (by decide)
  let st₀ : State Nat := .init
  let st₁ := st₀.move 0 (.opened (.claim sampleClaim)) st₀.db
  let st₂ := st₁.move 1 (.opened (.claim sampleClaim)) st₁.db
  have hcall₀ : Step st₀ (.call 0 (.claim sampleClaim)) st₁ := .call rfl
  have hcall₁ : Step st₁ (.call 1 (.claim sampleClaim)) st₂ := .call rfl
  have hopened₂ : st₂.phase 0 = .opened (.claim sampleClaim) := rfl
  obtain ⟨db₃, hrun₃, hcommitted₃, hfree₃⟩ :=
    exists_returned hopened₂ rfl hbind (AList.notMem_empty key)
  let st₃ := st₂.move 0 .idle db₃
  have hopened₃ : st₃.phase 1 = .opened (.claim sampleClaim) := rfl
  have hmem₃ : key ∈ st₃.db.committed := by
    change key ∈ db₃.committed
    rw [hcommitted₃, AList.mem_insert]
    exact .inl rfl
  obtain ⟨db₄, hrun₄, hcommitted₄, hfree₄⟩ := exists_replayed hopened₃ hfree₃ hbind hmem₃
  let st₄ := st₃.move 1 .idle db₄
  let st₅ := st₄.move 2 (.opened (.claim otherClaim)) st₄.db
  have hcall₅ : Step st₄ (.call 2 (.claim otherClaim)) st₅ := .call rfl
  have hfree₅ : key' ∉ st₅.db.committed := by
    change key' ∉ db₄.committed
    rw [hcommitted₄, show st₃.db = db₃ from rfl, hcommitted₃, AList.mem_insert]
    exact not_or.2 ⟨hne, AList.notMem_empty _⟩
  have hopened₅ : st₅.phase 2 = .opened (.claim otherClaim) := rfl
  obtain ⟨db₆, hrun₆, hcommitted₆⟩ := exists_lost hopened₅ hfree₄ hbind' hfree₅
  have hrun := Run.cons hcall₀ (.cons hcall₁ (hrun₃.append (hrun₄.append (.cons hcall₅ hrun₆))))
  refine ⟨_, hrun, (durable_claims hrun).2.1 [] _ .nil sampleClaim (List.mem_cons_self ..), ?_⟩
  rintro ⟨key'', row'', hbind'', hmem⟩
  obtain ⟨rfl, -⟩ := Prod.mk.inj (Except.ok.inj (hbind'.symm.trans hbind''))
  exact hfree₅ (hcommitted₆ ▸ hmem)

/-- One claim with a surrogate among its arguments, nothing else: the durable store raises, and
the in-memory store would have granted it. -/
theorem surrogate_claim_differs : ∃ (events : List (Event Nat)) (st : State Nat),
    Run SequentialStep State.init events st ∧
    (finished events).map Prod.fst = [.claim surrogateClaim] ∧
    ¬ ∃ memory, Run MemoryStep ⟨∅⟩ (finished events) memory := by
  obtain ⟨st, hrun⟩ := @exists_unbound_run Nat _ State.init surrogateClaim
    .unicodeEncodeError (fun _ => rfl) rfl rfl 0
  refine ⟨_, st, hrun, rfl, ?_⟩
  intro h
  obtain ⟨memory, hmemory⟩ := h
  obtain ⟨memory', hstep, -⟩ := Run.cons_inv hmemory
  have hfree : MemoryStep ⟨∅⟩ (.claim surrogateClaim, .returned) _ :=
    memoryStep_free (AList.notMem_empty _)
  rw [MemoryStep] at hstep hfree
  cases (Prod.mk.inj (hstep.symm.trans hfree)).1

end SQLiteConsumptionStore

end Finality
