import Acva.Core.KeyedRows
import Acva.Core.Transactions
import Acva.Memory.SourceHash

/-! # The database

The tables behind the repository, and the statements as the code issues them: each is
prepared and stepped, and the error says which of the two has failed. What SQLite does with a
statement is its documented meaning; which statements fail is the schedule of the connection.
-/

namespace Acva.Memory

open Transactions KeyedRows

structure SessionRow where
  id : SessionId
  startedAt : UnixMs
  endedAt : Option UnixMs := none
  title : Option Bytes := none
deriving DecidableEq, Repr

@[ext] structure SessionTable where
  rows : List SessionRow := []
  sorted : rows.Pairwise (fun a b => a.id < b.id) := by exact List.Pairwise.nil

attribute [ext] TurnTable

namespace SessionTable

/-- Rewrite rows in place; ids stay. -/
def update (f : SessionRow → SessionRow) (hf : ∀ s, (f s).id = s.id) (t : SessionTable) :
    SessionTable where
  rows := t.rows.map f
  sorted := by
    rw [List.pairwise_map]
    simpa only [hf] using t.sorted

def ended (endedAt : UnixMs) (s : SessionRow) : SessionRow := { s with endedAt := some endedAt }

def closeSession (id : SessionId) (endedAt : UnixMs) (t : SessionTable) : SessionTable :=
  t.update (fun s => if s.id = id then ended endedAt s else s) (fun s => by split <;> rfl)

theorem closeSession_rows (id : SessionId) (endedAt : UnixMs) (t : SessionTable) :
    (t.closeSession id endedAt).rows = updateKey SessionRow.id id (ended endedAt) t.rows := rfl

theorem distinct (t : SessionTable) : Distinct SessionRow.id t.rows :=
  t.sorted.imp fun h => Int.ne_of_lt h

end SessionTable

namespace TurnTable

theorem setTurnStatus_rows (id : RowId) (status : TurnStatus) (endedAt : Option UnixMs)
    (interruptedAt : Option Int) (text : Option Bytes) (t : TurnTable) :
    (t.setTurnStatus id status endedAt interruptedAt text).rows =
      updateKey TurnRow.id id (withStatus status endedAt interruptedAt text) t.rows := rfl

theorem distinct (t : TurnTable) : Distinct TurnRow.id t.rows := t.sorted.imp fun h => Nat.ne_of_lt h

end TurnTable

structure SettingRow where
  key : Bytes
  value : Bytes
  updatedAt : UnixMs
deriving DecidableEq, Repr

structure Tables extends Repository where
  sessions : SessionTable := {}
  settings : List SettingRow := []

structure DbError where
  message : Bytes
deriving DecidableEq, Repr

abbrev Database := Connection Tables Bytes

/-- A call into the repository. -/
abbrev Db (α : Type) := Program Tables Bytes DbError α

/-! ## Repository -/

namespace Db

/-- Prepare a statement and step it. -/
def call {α : Type} (name : String) (f : Tables → α × Tables) : Db α :=
  Program.statement
    (fun fault => ⟨if fault.preparing = true then ascii "prepare " ++ ascii name
      else ascii name ++ ascii " step"⟩) f

def sessionsOpenNoEndedAt : Db (List SessionRow) :=
  call "sessions_open_no_ended_at" fun d => (d.sessions.rows.filter fun s => s.endedAt = none, d)

/-- `MAX` leaves out what is `NULL`, and is `NULL` itself if nothing is left. -/
def maxTurnEndedAt (session : SessionId) : Db (Option UnixMs) :=
  call "max_turn_ended_at" fun d =>
    (((d.turns.rows.filter fun r => r.sessionId = session).filterMap (·.endedAt)).max?, d)

def closeSession (id : SessionId) (endedAt : UnixMs) : Db Unit :=
  call "close_session" fun d => ((), { d with sessions := d.sessions.closeSession id endedAt })

def turnsInProgress : Db (List TurnRow) :=
  call "turns_in_progress" fun d => (d.turns.rows.filter fun r => r.status = .inProgress, d)

def setTurnStatus (id : RowId) (status : TurnStatus) (endedAt : Option UnixMs)
    (interruptedAtSentence : Option Int) (text : Option Bytes) : Db Unit :=
  call "set_turn_status" fun d =>
    ((), { d with turns := d.turns.setTurnStatus id status endedAt interruptedAtSentence text })

def allSummaries : Db (List SummaryRow) := call "all_summaries" fun d => (d.summaries, d)

/-- The hash of a range; where `recent_turns` fails it is empty, and the error goes no further. -/
def sourceHash (session : SessionId) (rangeStart rangeEnd : Int) : Db Bytes :=
  (call "recent_turns" fun d =>
      (computeSourceHash true session rangeStart rangeEnd d.toRepository, d)).orElse []

end Db

/-! ## Transactions -/

/-- The engine's own words. -/
def failureText : Failure Bytes → Bytes
  | .fault f => f.message
  | .refused .nested => ascii "cannot start a transaction within a transaction"
  | .refused .commitOutside => ascii "cannot commit - no transaction is active"
  | .refused .rollbackOutside => ascii "cannot rollback - no transaction is active"

def execError (f : Failure Bytes) : DbError := ⟨ascii "sqlite exec: " ++ failureText f⟩

/-- The guard of a scope. -/
structure Transaction where
  active : Bool := true

namespace Transaction

/-- The constructor; it does not look whether `BEGIN` has failed. -/
def construct (db : Database) : Transaction × Database := ({}, db.begin.2)

def commit (tx : Transaction) (db : Database) : Option DbError × Transaction × Database :=
  if tx.active = false then (none, tx, db)
  else
    let (err, db) := db.commit
    (err.map execError, { tx with active := false }, db)

/-- The destructor. -/
def destruct (tx : Transaction) (db : Database) : Database :=
  if tx.active = true then db.rollback.2 else db

end Transaction

end Acva.Memory
