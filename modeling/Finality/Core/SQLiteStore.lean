import Mathlib.Algebra.Group.Int.Defs
import Finality.Core.Effectors
import Finality.Lib.Runs
import Finality.Lib.Transactions

/-!
# The durable consumption store (`state.py`)

`SQLiteConsumptionStore` keeps the claims in a table whose primary key is the capability id. Each
call opens its own connection and runs its statements in autocommit mode, so that the only
transaction is the one a claim begins with `BEGIN IMMEDIATE`. `statement` is the next statement of
a call, at the database it finds, and `Step` interleaves the calls of any number of processes: a
process may wait for the write lock or give up, and may be lost between any two statements.

Arguments reach the database as they are bound: a string as the UTF-8 of its code points, which
surrogates do not have, and an integer in 64 bits.
-/

namespace Finality

open Runs Transactions

namespace SQLiteConsumptionStore

/-- The value of a `TEXT` column. -/
abbrev Text := List UInt8

/-- A row of `consumed`, without its primary key. -/
structure Row where
  sink_id : Text
  boundary_id : Text
  nonce : Text
  claimed_at_ns : Int
  deriving DecidableEq

/-- The arguments of `claim`. -/
structure Claim where
  capability_id : PyStr
  sink_id : PyStr
  boundary_id : PyStr
  nonce : PyStr
  now_ns : Int

/-- The calls of the store's interface. -/
inductive Call where
  | claim (a : Claim)
  | isClaimed (capability_id : PyStr)

/-- What a call raises. -/
inductive Raised where
  /-- An exception of the reference implementation's own. -/
  | reference (e : PyErr)
  /-- `sqlite3.OperationalError`: the database is locked. -/
  | operationalError
  /-- The UTF-8 codec refuses a surrogate. -/
  | unicodeEncodeError
  /-- The integer does not fit 64 bits. -/
  | overflowError
  deriving DecidableEq

/-- What a call returns or raises: a claim returns nothing, `is_claimed` an answer. -/
inductive Outcome where
  | returned
  | answered (claimed : Bool)
  | raised (e : Raised)
  deriving DecidableEq

/-! ## Bound parameters -/

/-- A string parameter. -/
def bindText (s : PyStr) : Except Raised Text :=
  if hasSurrogate s then .error .unicodeEncodeError else .ok (Utf8.utf8 (toText s))

/-- An integer parameter. -/
def bindInteger (n : Int) : Except Raised Int :=
  if -2 ^ 63 ≤ n ∧ n < 2 ^ 63 then .ok n else .error .overflowError

/-- The parameters of the `INSERT`, in their order. -/
def bindClaim (a : Claim) : Except Raised (Text × Row) := do
  let capability_id ← bindText a.capability_id
  let sink_id ← bindText a.sink_id
  let boundary_id ← bindText a.boundary_id
  let nonce ← bindText a.nonce
  let claimed_at_ns ← bindInteger a.now_ns
  .ok (capability_id, ⟨sink_id, boundary_id, nonce, claimed_at_ns⟩)

/-! ## The statements of a call -/

/-- Where a process stands in its call. -/
inductive Phase where
  | idle
  /-- the connection is open -/
  | opened (call : Call)
  /-- `BEGIN IMMEDIATE` was executed -/
  | begun (a : Claim)
  /-- the `INSERT` was executed -/
  | inserted (a : Claim)
  /-- in `except sqlite3.IntegrityError` -/
  | refused (a : Claim)
  /-- in `finally`, with what the call returns or raises -/
  | closing (call : Call) (outcome : Outcome)

section
variable (P : Type _)

/-- The database file: the table `consumed`. -/
abbrev Consumed := Database P Text Row

/-- The database and where each process stands. -/
structure State where
  db : Consumed P
  phase : P → Phase

/-- What happens: a process starts a call, executes a statement, gives up waiting for the lock,
closes its connection and ends the call, or is lost. -/
inductive Event where
  | call (p : P) (call : Call)
  | statement (p : P)
  | timeout (p : P)
  | close (p : P) (call : Call) (outcome : Outcome)
  | crash (p : P)

end

variable {P : Type _} [DecidableEq P]

/-- The constructor's `CREATE TABLE` in a new file, and no call in progress. -/
def State.init : State P := ⟨.ofTable ∅, fun _ => .idle⟩

/-- A process moves to a phase and leaves the database. -/
def State.move (st : State P) (p : P) (phase : Phase) (db : Consumed P) : State P :=
  ⟨db, Function.update st.phase p phase⟩

/-- The next statement of a call, `claim` or `is_claimed`. `BEGIN IMMEDIATE` has none while the
lock is taken; a parameter that cannot be bound leaves the transaction to the `close`. -/
def statement (p : P) (db : Consumed P) : Phase → Option (Phase × Consumed P)
  | .idle => none
  | .opened (.claim a) => (db.beginImmediate p).map fun db => (.begun a, db)
  | .opened (.isClaimed i) =>
      match bindText i with
      | .error e => some (.closing (.isClaimed i) (.raised e), db)
      | .ok key => some (.closing (.isClaimed i) (.answered (key ∈ db.committed)), db)
  | .begun a =>
      match bindClaim a with
      | .error e => some (.closing (.claim a) (.raised e), db)
      | .ok (key, row) =>
          match db.insert p key row with
          | none => some (.refused a, db)
          | some db => some (.inserted a, db)
  | .refused a =>
      some (.closing (.claim a)
        (.raised (.reference (.replayDetected (py "capability already consumed")))), db.discard p)
  | .inserted a => some (.closing (.claim a) .returned, db.commit p)
  | .closing .. => none

/-- One step of an interleaving. -/
inductive Step : State P → Event P → State P → Prop
  | call {st p c} (h : st.phase p = .idle) : Step st (.call p c) (st.move p (.opened c) st.db)
  | statement {st p phase db} (h : statement p st.db (st.phase p) = some (phase, db)) :
      Step st (.statement p) (st.move p phase db)
  | timeout {st p a w} (h : st.phase p = .opened (.claim a)) (hlocked : st.db.writer = some w) :
      Step st (.timeout p) (st.move p (.closing (.claim a) (.raised .operationalError)) st.db)
  | close {st p c outcome} (h : st.phase p = .closing c outcome) :
      Step st (.close p c outcome) (st.move p .idle (st.db.discard p))
  | crash {st p} : Step st (.crash p) (st.move p .idle (st.db.discard p))

/-- The calls that have ended, with their outcomes. -/
def finished (events : List (Event P)) : List (Call × Outcome) :=
  events.filterMap fun
    | .close _ c outcome => some (c, outcome)
    | _ => none

/-- The claims that have returned. -/
def granted (events : List (Event P)) : List Claim :=
  (finished events).filterMap fun
    | (.claim a, .returned) => some a
    | _ => none

end SQLiteConsumptionStore

end Finality
