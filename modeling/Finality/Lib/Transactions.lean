import Mathlib.Data.List.AList

/-!
# Transactions with one writer

A table of rows under unique keys, which many connections share. A connection that holds the write
lock works on its own copy of the table: the others see the committed rows only, and when the
connection is closed or lost before its commit the copy is dropped. Every copy extends the
committed rows, so that no commit loses one. `Moves` says what an operation of one connection can
do to the rest: the committed rows stay, and while another connection holds the lock nothing
changes.
-/

namespace Transactions

variable {P K V : Type _}

/-- The rows of a table, under their keys. -/
abbrev Table (K V : Type _) := AList fun _ : K => V

/-- The committed rows and, if a connection holds the write lock, which one and its copy, which has
all the committed rows. -/
structure Database (P K V : Type _) [DecidableEq K] where
  committed : Table K V
  writer : Option (P × Table K V)
  extends_committed : ∀ w ∈ writer, ∀ k v, committed.lookup k = some v → w.2.lookup k = some v

section
variable [DecidableEq K]

/-- A database with no transaction open. -/
def Database.ofTable (committed : Table K V) : Database P K V := ⟨committed, none, nofun⟩

variable [DecidableEq P] (db : Database P K V) (p : P)

/-- Take the write lock, if it is free, with a copy of the committed rows to work on. -/
def Database.beginImmediate : Option (Database P K V) :=
  match db.writer with
  | none => some ⟨db.committed, some (p, db.committed), by
      intro w hw k v h
      cases hw
      exact h⟩
  | some _ => none

/-- Insert a row, unless its key is in the table that the connection sees, or the connection does
not hold the lock. -/
def Database.insert (k : K) (v : V) : Option (Database P K V) :=
  match hw : db.writer with
  | some (q, table) =>
      if hk : q = p ∧ k ∉ table then
        some ⟨db.committed, some (p, table.insert k v), by
          intro w hw' k' v' h
          cases hw'
          have hold := db.extends_committed _ hw k' v' h
          have hne : k' ≠ k := by
            rintro rfl
            exact hk.2 (AList.lookup_isSome.1 (by rw [hold]; rfl))
          rw [AList.lookup_insert_ne hne]
          exact hold⟩
      else none
  | none => none

/-- Make the connection's copy the table, and give the lock back. A connection without the lock has
nothing to commit. -/
def Database.commit : Database P K V :=
  match db.writer with
  | some (q, table) => if q = p then .ofTable table else db
  | none => db

/-- Drop the connection's copy: its rollback, its close and its loss. The others' copies stay. -/
def Database.discard : Database P K V :=
  match db.writer with
  | some (q, _) => if q = p then .ofTable db.committed else db
  | none => db

end

variable [DecidableEq K] [DecidableEq P] {db db' : Database P K V} {p q : P} {k : K} {v : V}
  {table : Table K V}

/-! ## What the operations do -/

omit [DecidableEq P] in
/-- A transaction opens when no other is open, on a copy of the committed rows. -/
theorem beginImmediate_eq_some : db.beginImmediate p = some db' ↔
    db.writer = none ∧ db'.committed = db.committed ∧ db'.writer = some (p, db.committed) := by
  obtain ⟨committed, writer, hext⟩ := db
  obtain ⟨committed', writer', hext'⟩ := db'
  cases writer with
  | none => simp [Database.beginImmediate, eq_comm]
  | some w => simp [Database.beginImmediate]

/-- The writer's insert is refused when it sees the key already, and else adds the row to its copy
only. -/
theorem insert_of_writer (hw : db.writer = some (p, table)) :
    db.insert p k v = none ∧ k ∈ table ∨
      ∃ db', db.insert p k v = some db' ∧ k ∉ table ∧ db'.committed = db.committed ∧
        db'.writer = some (p, table.insert k v) := by
  obtain ⟨committed, writer, hext⟩ := db
  subst hw
  rw [Database.insert]
  by_cases hk : k ∈ table
  · exact .inl ⟨dif_neg (by simp [hk]), hk⟩
  · exact .inr ⟨_, dif_pos ⟨rfl, hk⟩, hk, rfl, rfl⟩

/-- The writer's commit makes its copy the table and gives the lock back. -/
theorem commit_of_writer (hw : db.writer = some (p, table)) : db.commit p = .ofTable table := by
  rw [Database.commit, hw]
  exact if_pos rfl

/-- Dropping a copy leaves the committed rows alone, whoever drops it. -/
@[simp] theorem committed_discard (db : Database P K V) (p : P) :
    (db.discard p).committed = db.committed := by
  rw [Database.discard]
  split
  · split <;> rfl
  · rfl

/-- The writer's loss gives the lock back, with the rows that were committed before. -/
theorem discard_of_writer (hw : db.writer = some (p, table)) :
    db.discard p = .ofTable db.committed := by
  rw [Database.discard, hw]
  exact if_pos rfl

/-- With no transaction open there is nothing to drop. -/
theorem discard_of_free (hw : db.writer = none) : db.discard p = db := by
  rw [Database.discard, hw]

/-! ## What they do to the others -/

/-- One connection moves the database: no committed row is lost, and nothing changes while another
connection holds the write lock. -/
structure Moves (p : P) (db db' : Database P K V) : Prop where
  rows : ∀ k v, db.committed.lookup k = some v → db'.committed.lookup k = some v
  locked : ∀ q table, q ≠ p → db.writer = some (q, table) → db' = db

namespace Moves

omit [DecidableEq P] in
/-- A connection that does nothing. -/
theorem refl (p : P) (db : Database P K V) : Moves p db db := ⟨fun _ _ h => h, fun _ _ _ _ => rfl⟩

omit [DecidableEq P] in
/-- A key of a committed row stays one. -/
theorem mem (h : Moves p db db') (hk : k ∈ db.committed) : k ∈ db'.committed := by
  obtain ⟨v, hv⟩ := Option.isSome_iff_exists.1 (AList.lookup_isSome.2 hk)
  exact AList.lookup_isSome.1 (by rw [h.rows k v hv]; rfl)

omit [DecidableEq P] in
/-- Opening a transaction. -/
theorem beginImmediate (h : db.beginImmediate p = some db') : Moves p db db' := by
  obtain ⟨hfree, hcommitted, -⟩ := beginImmediate_eq_some.1 h
  refine ⟨fun k v hk => ?_, fun q table _ hw => ?_⟩
  · rwa [hcommitted]
  · rw [hfree] at hw
    cases hw

/-- Inserting a row: only the writer's copy changes. -/
theorem insert (h : db.insert p k v = some db') : Moves p db db' := by
  obtain ⟨committed, writer, hext⟩ := db
  rw [Database.insert] at h
  split at h
  case h_1 q table hw =>
    split at h
    case isTrue hk =>
      obtain rfl := Option.some.inj h
      refine ⟨fun _ _ h => h, fun q' table' hne hw' => ?_⟩
      obtain ⟨rfl, -⟩ := Prod.mk.inj (Option.some.inj (hw.symm.trans hw'))
      exact absurd hk.1 hne
    case isFalse => cases h
  case h_2 => cases h

/-- A commit: the copy extends the committed rows, so that none of them is lost. -/
theorem commit (p : P) (db : Database P K V) : Moves p db (db.commit p) := by
  cases hw : db.writer with
  | none =>
    rw [Database.commit, hw]
    exact .refl p db
  | some w =>
    obtain ⟨q, table⟩ := w
    rw [Database.commit, hw]
    dsimp only
    split
    case isTrue hq =>
      refine ⟨db.extends_committed _ hw, fun q' table' hne hw' => ?_⟩
      obtain ⟨rfl, -⟩ := Prod.mk.inj (Option.some.inj (hw.symm.trans hw'))
      exact absurd hq hne
    case isFalse => exact .refl p db

/-- A rollback, a close or a loss. -/
theorem discard (p : P) (db : Database P K V) : Moves p db (db.discard p) := by
  refine ⟨fun k v h => by rwa [committed_discard], fun q table hne hw => ?_⟩
  rw [Database.discard, hw]
  exact if_neg hne

end Moves

end Transactions
