import Finality.Core.SQLiteStore

/-!
# Claims of the durable store

`Stands` is what a process knows of the database at each point of its call, and each statement
takes it to the next one (`Stands.statement`) without disturbing the others (`Stands.frame`). From
it the safety of the claims in every interleaving: an `INSERT` that is committed found its key
free, so that two claims that returned have different ids (`Inv`).
-/

namespace Finality

open Checks Runs Transactions

namespace SQLiteConsumptionStore

variable {P : Type _} [DecidableEq P] {db db' : Consumed P} {st st' : State P} {p q : P}
  {a b : Claim} {phase phase' : Phase} {events : List (Event P)} {key : Text} {row : Row}

/-! ## Keys -/

/-- A string is bound as its UTF-8 encoding when it holds no surrogate. -/
theorem bindText_eq_ok {s : PyStr} :
    bindText s = .ok key ↔ hasSurrogate s = false ∧ Utf8.utf8 (toText s) = key := by
  rw [bindText]
  split
  case isTrue h => simp [h]
  case isFalse h => simp [Bool.eq_false_iff.2 h]

/-- Different strings are different keys. -/
theorem bindText_inj {s t : PyStr} (hs : bindText s = .ok key) (ht : bindText t = .ok key) :
    s = t := by
  obtain ⟨hs, hkey⟩ := bindText_eq_ok.1 hs
  obtain ⟨ht, hkey'⟩ := bindText_eq_ok.1 ht
  rw [← ofText_toText hs, ← ofText_toText ht, Utf8.utf8_injective (hkey.trans hkey'.symm)]

/-- The key of the row is the capability id as it is bound. -/
theorem bindText_of_bindClaim (h : bindClaim a = .ok (key, row)) :
    bindText a.capability_id = .ok key := by
  simp only [bindClaim, bind_eq_ok, Except.ok.injEq, Prod.mk.injEq] at h
  obtain ⟨_, hk, -, -, -, -, -, -, -, -, rfl, -⟩ := h
  exact hk

/-- A parameter that cannot be bound raises an error of the library's. -/
theorem ne_reference_of_bindClaim {e : Raised} (h : bindClaim a = .error e) (e' : PyErr) :
    e ≠ .reference e' := by
  simp only [bindClaim, bindText, bindInteger] at h
  rintro rfl
  split at h
  · cases h
  split at h
  · cases h
  split at h
  · cases h
  split at h
  · cases h
  split at h <;> cases h

/-- The claim's row is in the table. -/
def Recorded (db : Consumed P) (a : Claim) : Prop :=
  ∃ key row, bindClaim a = .ok (key, row) ∧ db.committed.lookup key = some row

/-- Some row has the claim's id. -/
def Taken (db : Consumed P) (a : Claim) : Prop :=
  ∃ key row, bindClaim a = .ok (key, row) ∧ key ∈ db.committed

/-- No row has the claim's id. -/
def Free (db : Consumed P) (a : Claim) : Prop :=
  ∃ key row, bindClaim a = .ok (key, row) ∧ key ∉ db.committed

omit [DecidableEq P] in
/-- A claim whose row is there and one whose row is free are for different capabilities. -/
theorem Recorded.ne (ha : Recorded db a) (hb : Free db b) :
    a.capability_id ≠ b.capability_id := by
  obtain ⟨key, row, hbind, hrow⟩ := ha
  obtain ⟨key', row', hbind', hfree⟩ := hb
  intro heq
  have hkey := bindText_of_bindClaim hbind
  rw [heq, bindText_of_bindClaim hbind'] at hkey
  obtain rfl := Except.ok.inj hkey
  exact hfree (AList.lookup_isSome.1 (by rw [hrow]; rfl))

omit [DecidableEq P] in
/-- A row that is committed stays, whoever moves the database. -/
theorem Recorded.moves (ha : Recorded db a) (h : Moves p db db') : Recorded db' a := by
  obtain ⟨key, row, hbind, hrow⟩ := ha
  exact ⟨key, row, hbind, h.rows _ _ hrow⟩

omit [DecidableEq P] in
/-- So does a key that is taken. -/
theorem Taken.moves (ha : Taken db a) (h : Moves p db db') : Taken db' a := by
  obtain ⟨key, row, hbind, hkey⟩ := ha
  exact ⟨key, row, hbind, h.mem hkey⟩

/-! ## What a process knows of the database -/

/-- What holds of the database when a process stands at a phase. -/
def Stands (db : Consumed P) (p : P) : Phase → Prop
  | .begun _ => db.writer = some (p, db.committed)
  | .inserted a => ∃ key row, bindClaim a = .ok (key, row) ∧ key ∉ db.committed ∧
      db.writer = some (p, db.committed.insert key row)
  | .refused a => Taken db a
  | .closing (.claim a) .returned => Recorded db a
  | .closing (.claim a) (.raised (.reference e)) =>
      e = .replayDetected (py "capability already consumed") ∧ Taken db a
  | .idle | .opened _ | .closing .. => True

/-- The claim that has been committed and not returned yet. -/
def holding : Phase → Option Claim
  | .closing (.claim a) .returned => some a
  | _ => none

omit [DecidableEq P] in
/-- A call that holds a claim has its row in the committed table. -/
theorem Stands.recorded (h : Stands db p phase) (ha : holding phase = some a) : Recorded db a := by
  unfold holding at ha
  split at ha
  · obtain rfl := Option.some.inj ha
    exact h
  · cases ha

/-- **One statement** takes its process to what it knows next, and moves the database for it. It
commits a claim only if its id was free, and refuses one only if its id was taken. -/
theorem Stands.statement (h : Stands db p phase)
    (hnext : statement p db phase = some (phase', db')) :
    Moves p db db' ∧ Stands db' p phase' ∧ (∀ a, holding phase' = some a → Free db a) ∧
      ∀ a, phase' = .refused a → Taken db a := by
  cases phase with
  | idle => cases hnext
  | closing call outcome => cases hnext
  | opened call =>
    cases call with
    | claim a =>
      obtain ⟨db₁, hbegin, heq⟩ := Option.map_eq_some_iff.1 hnext
      obtain ⟨rfl, rfl⟩ := Prod.mk.inj heq
      obtain ⟨-, hcommitted, hwriter⟩ := beginImmediate_eq_some.1 hbegin
      exact ⟨.beginImmediate hbegin, by rw [Stands, hwriter, hcommitted], nofun, nofun⟩
    | isClaimed i =>
      rw [SQLiteConsumptionStore.statement] at hnext
      split at hnext <;>
        · obtain ⟨rfl, rfl⟩ := Prod.mk.inj (Option.some.inj hnext)
          exact ⟨.refl p db, trivial, nofun, nofun⟩
  | begun a =>
    rw [SQLiteConsumptionStore.statement] at hnext
    cases hbind : bindClaim a with
    | error e =>
      rw [hbind] at hnext
      obtain ⟨rfl, rfl⟩ := Prod.mk.inj (Option.some.inj hnext)
      refine ⟨.refl p db, ?_, nofun, nofun⟩
      cases e with
      | reference e => exact absurd rfl (ne_reference_of_bindClaim hbind e)
      | operationalError | unicodeEncodeError | overflowError => trivial
    | ok kr =>
      obtain ⟨key, row⟩ := kr
      simp only [hbind] at hnext
      rcases insert_of_writer (k := key) (v := row) h with
        ⟨hins, hkey⟩ | ⟨db₁, hins, hkey, hcommitted, hwriter⟩
      · rw [hins] at hnext
        obtain ⟨rfl, rfl⟩ := Prod.mk.inj (Option.some.inj hnext)
        have htaken : Taken db a := ⟨key, row, hbind, hkey⟩
        refine ⟨.refl p db, htaken, nofun, ?_⟩
        intro b hb
        obtain rfl := Phase.refused.inj hb
        exact htaken
      · rw [hins] at hnext
        obtain ⟨rfl, rfl⟩ := Prod.mk.inj (Option.some.inj hnext)
        refine ⟨.insert hins, ⟨key, row, hbind, ?_, ?_⟩, nofun, nofun⟩
        · rwa [hcommitted]
        · rwa [hcommitted]
  | refused a =>
    obtain ⟨rfl, rfl⟩ := Prod.mk.inj (Option.some.inj hnext)
    exact ⟨.discard p db, ⟨rfl, Taken.moves h (.discard p db)⟩, nofun, nofun⟩
  | inserted a =>
    obtain ⟨rfl, rfl⟩ := Prod.mk.inj (Option.some.inj hnext)
    obtain ⟨key, row, hbind, hfree, hwriter⟩ := h
    refine ⟨.commit p db, ⟨key, row, hbind, ?_⟩, ?_, nofun⟩
    · rw [commit_of_writer hwriter]
      exact AList.lookup_insert _
    · intro b hb
      obtain rfl := Option.some.inj hb
      exact ⟨key, row, hbind, hfree⟩

omit [DecidableEq P] in
/-- What one process does leaves standing what another knows. -/
theorem Stands.frame (h : Stands db q phase) (hne : q ≠ p) (hm : Moves p db db') :
    Stands db' q phase := by
  cases phase with
  | idle => trivial
  | opened c => trivial
  | begun a =>
    obtain rfl := hm.locked q _ hne h
    exact h
  | inserted a =>
    obtain ⟨key, row, hbind, hfree, hwriter⟩ := h
    obtain rfl := hm.locked q _ hne hwriter
    exact ⟨key, row, hbind, hfree, hwriter⟩
  | refused a => exact Taken.moves h hm
  | closing c outcome =>
    cases c with
    | isClaimed i => trivial
    | claim a =>
      cases outcome with
      | answered x => trivial
      | returned => exact Recorded.moves h hm
      | raised e =>
        cases e with
        | reference e => exact ⟨h.1, h.2.moves hm⟩
        | operationalError | unicodeEncodeError | overflowError => trivial

/-! ## Every interleaving -/

@[simp] theorem phase_move_self (phase : Phase) : (st.move p phase db).phase p = phase :=
  Function.update_self ..

theorem phase_move_of_ne (phase : Phase) (h : q ≠ p) : (st.move p phase db).phase q = st.phase q :=
  Function.update_of_ne h ..

/-- The claims that have returned are recorded and have different ids, and so does each claim
that is about to return. -/
structure Inv (events : List (Event P)) (st : State P) : Prop where
  stands : ∀ p, Stands st.db p (st.phase p)
  recorded : ∀ a ∈ granted events, Recorded st.db a
  once : ((granted events).map Claim.capability_id).Nodup
  pending : ∀ p a, holding (st.phase p) = some a → ∀ b ∈ granted events,
    b.capability_id ≠ a.capability_id
  apart : ∀ p q a b, p ≠ q → holding (st.phase p) = some a → holding (st.phase q) = some b →
    a.capability_id ≠ b.capability_id

omit [DecidableEq P] in
/-- Nothing has happened to an empty database. -/
theorem inv_init : Inv [] (State.init (P := P)) where
  stands _ := trivial
  recorded := nofun
  once := List.nodup_nil
  pending _ _ h := nomatch h
  apart _ _ _ _ _ h := nomatch h

/-- A process moves on: what it commits had a free id. -/
theorem Inv.move {ev : Event P} (hi : Inv events st)
    (hev : granted (events ++ [ev]) = granted events)
    (hm : Moves p st.db db) (hstands : Stands db p phase)
    (hfree : ∀ a, holding phase = some a → Free st.db a) :
    Inv (events ++ [ev]) (st.move p phase db) where
  stands q := by
    rcases eq_or_ne q p with rfl | hne
    · rwa [phase_move_self]
    · rw [phase_move_of_ne _ hne]
      exact (hi.stands q).frame hne hm
  recorded a ha := by
    rw [hev] at ha
    exact (hi.recorded a ha).moves hm
  once := by
    rw [hev]
    exact hi.once
  pending q a hq b hb := by
    rw [hev] at hb
    rcases eq_or_ne q p with rfl | hne
    · rw [phase_move_self] at hq
      exact (hi.recorded b hb).ne (hfree a hq)
    · rw [phase_move_of_ne _ hne] at hq
      exact hi.pending q a hq b hb
  apart q r a b hqr hq hr := by
    rcases eq_or_ne q p with rfl | hneq
    · rw [phase_move_self] at hq
      rw [phase_move_of_ne _ hqr.symm] at hr
      exact (((hi.stands r).recorded hr).ne (hfree a hq)).symm
    · rw [phase_move_of_ne _ hneq] at hq
      rcases eq_or_ne r p with rfl | hner
      · rw [phase_move_self] at hr
        exact ((hi.stands q).recorded hq).ne (hfree b hr)
      · rw [phase_move_of_ne _ hner] at hr
        exact hi.apart q r a b hqr hq hr

omit [DecidableEq P] in
/-- The claims granted in a history that goes on. -/
theorem granted_snoc (events : List (Event P)) (ev : Event P) :
    granted (events ++ [ev]) = granted events ++ granted [ev] := by
  simp only [granted, finished, List.filterMap_append]

omit [DecidableEq P] in
/-- A claim that closes without an exception was held. -/
theorem granted_close (p : P) (c : Call) (outcome : Outcome) :
    granted [.close p c outcome] = (holding (.closing c outcome)).toList := by
  cases c with
  | isClaimed i => rfl
  | claim a => cases outcome <;> rfl

/-- **Every step keeps the invariant.** -/
theorem Inv.step {ev : Event P} (hi : Inv events st) (h : Step st ev st') :
    Inv (events ++ [ev]) st' := by
  have hskip (ev : Event P) (hev : granted [ev] = []) :
      granted (events ++ [ev]) = granted events := by
    rw [granted_snoc, hev, List.append_nil]
  cases h with
  | call h => exact hi.move (hskip _ rfl) (.refl _ _) trivial nofun
  | @statement p phase db h =>
    obtain ⟨hm, hstands, hfree, -⟩ := (hi.stands p).statement h
    exact hi.move (hskip _ rfl) hm hstands hfree
  | timeout h hlocked => exact hi.move (hskip _ rfl) (.refl _ _) trivial nofun
  | crash => exact hi.move (hskip _ rfl) (.discard _ _) trivial nofun
  | @close p c outcome h =>
    cases hheld : holding (.closing c outcome) with
    | none =>
      refine hi.move (hskip _ ?_) (.discard p st.db) trivial nofun
      rw [granted_close, hheld]
      rfl
    | some a =>
      have hgranted : granted (events ++ [.close p c outcome]) = granted events ++ [a] := by
        rw [granted_snoc, granted_close, hheld]
        rfl
      have hp : holding (st.phase p) = some a := by rwa [h]
      -- The claim moves from those about to return to those that have.
      have hbase : Inv (events ++ [.crash p]) (st.move p .idle (st.db.discard p)) :=
        hi.move (hskip _ rfl) (.discard p st.db) trivial nofun
      have hkeep : granted (events ++ [.crash p]) = granted events := hskip _ rfl
      refine ⟨hbase.stands, ?_, ?_, ?_, hbase.apart⟩
      · intro b hb
        rw [hgranted] at hb
        rcases List.mem_append.1 hb with hb | hb
        · exact hbase.recorded b (by rwa [hkeep])
        · obtain rfl := List.mem_singleton.1 hb
          exact ((hi.stands p).recorded hp).moves (.discard p st.db)
      · rw [hgranted, List.map_append, List.nodup_append]
        refine ⟨hi.once, List.nodup_singleton _, ?_⟩
        intro i hi' j hj hij
        obtain ⟨b, hb, rfl⟩ := List.mem_map.1 hi'
        obtain rfl := List.mem_singleton.1 hj
        exact hi.pending p a hp b hb hij
      · intro q b hq c hc
        rw [hgranted] at hc
        rcases List.mem_append.1 hc with hc | hc
        · exact hbase.pending q b hq c (by rwa [hkeep])
        · obtain rfl := List.mem_singleton.1 hc
          rcases eq_or_ne q p with rfl | hne
          · rw [phase_move_self] at hq
            cases hq
          · rw [phase_move_of_ne _ hne] at hq
            exact hi.apart p q c b hne.symm hp hq

/-- **The invariant holds along every run.** -/
theorem Inv.run (h : Run Step State.init events st) : Inv events st :=
  h.invariantTrace Inv inv_init fun _ _ _ _ _ hi hs => hi.step hs

end SQLiteConsumptionStore

end Finality
