import Acva.Memory.Database
import Mathlib.Data.List.Forall2
import Mathlib.Data.Set.Basic
import Mathlib.Order.Bounds.Defs

/-! # Crash recovery

Sessions left open by a crash are closed, turns left in progress are marked, and summaries
are checked against the turns they were made from; all of it between the two ends of one
transaction.
-/

namespace Acva.Memory

open Transactions KeyedRows

structure RecoverySummary where
  sessionsClosed : Nat := 0
  turnsMarkedInterrupted : Nat := 0
  summariesTotal : Nat := 0
  summariesStale : Nat := 0
deriving DecidableEq, Repr

namespace RecoverySummary

def countClosed (out : RecoverySummary) : RecoverySummary :=
  { out with sessionsClosed := out.sessionsClosed + 1 }

def countMarked (out : RecoverySummary) : RecoverySummary :=
  { out with turnsMarkedInterrupted := out.turnsMarkedInterrupted + 1 }

def countSummary (stale : Bool) (out : RecoverySummary) : RecoverySummary :=
  { out with
    summariesTotal := out.summariesTotal + 1
    summariesStale := if stale = true then out.summariesStale + 1 else out.summariesStale }

end RecoverySummary

/-! ## The sweep -/

namespace Recovery

def closeDangling (out : RecoverySummary) (s : SessionRow) : Db RecoverySummary := do
  let endOpt ← Db.maxTurnEndedAt s.id
  Db.closeSession s.id (endOpt.getD s.startedAt)
  pure out.countClosed

def markInterrupted (out : RecoverySummary) (t : TurnRow) : Db RecoverySummary := do
  Db.setTurnStatus t.id .interrupted none none none
  pure out.countMarked

def verifySummary (out : RecoverySummary) (s : SummaryRow) : Db RecoverySummary := do
  let current ← Db.sourceHash s.sessionId s.rangeStartTurn s.rangeEndTurn
  pure (out.countSummary (s.isStale current))

def closeDanglingSessions : Db RecoverySummary := do
  let dangling ← Db.sessionsOpenNoEndedAt
  dangling.foldlM closeDangling {}

def markInProgressTurns (out : RecoverySummary) : Db RecoverySummary := do
  let inProgress ← Db.turnsInProgress
  inProgress.foldlM markInterrupted out

/-- The part that writes, and the read of the summaries. -/
def repair : Db (RecoverySummary × List SummaryRow) := do
  let out ← closeDanglingSessions
  let out ← markInProgressTurns out
  let summaries ← Db.allSummaries
  pure (out, summaries)

def sweep : Db RecoverySummary := do
  let (out, summaries) ← repair
  summaries.foldlM verifySummary out

end Recovery

def runRecovery (db : Database) : Except DbError RecoverySummary × Database :=
  let (tx, db) := Transaction.construct db
  match Recovery.sweep db with
  | (.error e, db) => (.error e, tx.destruct db)
  | (.ok out, db) =>
      let (err, tx, db) := tx.commit db
      (match err with
        | some e => .error e
        | none => .ok out, tx.destruct db)

/-! ## What the sweep computes -/

/-- The end that a dangling session is given. -/
def sessionEnd (turns : TurnTable) (s : SessionRow) : UnixMs :=
  (((turns.rows.filter fun r => r.sessionId = s.id).filterMap (·.endedAt)).max?).getD s.startedAt

def closedRow (turns : TurnTable) (s : SessionRow) : SessionRow :=
  if s.endedAt = none then SessionTable.ended (sessionEnd turns s) s else s

def markedRow (r : TurnRow) : TurnRow :=
  if r.status = .inProgress then { r with status := .interrupted, interruptedAtSentence := none }
  else r

theorem closedRow_id (turns : TurnTable) (s : SessionRow) : (closedRow turns s).id = s.id := by
  unfold closedRow
  split <;> rfl

theorem markedRow_id (r : TurnRow) : (markedRow r).id = r.id := by
  unfold markedRow
  split <;> rfl

namespace Tables

def danglingSessions (d : Tables) : List SessionRow :=
  d.sessions.rows.filter fun s => s.endedAt = none

def danglingTurns (d : Tables) : List TurnRow :=
  d.turns.rows.filter fun r => r.status = .inProgress

/-- The database after a recovery. -/
def repaired (d : Tables) : Tables :=
  { d with
    sessions := d.sessions.update (closedRow d.turns) (closedRow_id d.turns)
    turns := d.turns.update markedRow markedRow_id }

def repairCounts (d : Tables) : RecoverySummary where
  sessionsClosed := d.danglingSessions.length
  turnsMarkedInterrupted := d.danglingTurns.length

/-- The statements before the summaries are checked. -/
def repairCost (d : Tables) : Nat := 1 + d.danglingSessions.length * 2 + (1 + d.danglingTurns.length) + 1

end Tables

/-- Each dangling session is closed once. -/
theorem foldl_closeSession (turns : TurnTable) (t : SessionTable) :
    (t.rows.filter fun s => s.endedAt = none).foldl
        (fun t s => t.closeSession s.id (sessionEnd turns s)) t =
      t.update (closedRow turns) (closedRow_id turns) := by
  apply SessionTable.ext
  have hrows : ∀ (ss : List SessionRow) (t : SessionTable),
      (ss.foldl (fun t s => t.closeSession s.id (sessionEnd turns s)) t).rows =
        ss.foldl (fun acc s =>
          updateKey SessionRow.id s.id (SessionTable.ended (sessionEnd turns s)) acc) t.rows :=
    fun ss t => (List.foldl_hom SessionTable.rows fun t s => (t.closeSession_rows _ _).symm).symm
  rw [hrows, sweep_eq_map (g := fun s => SessionTable.ended (sessionEnd turns s))
    (fun _ _ => rfl) t.distinct]
  refine List.map_congr_left fun s _ => ?_
  simp [closedRow]

theorem foldl_setTurnStatus (t : TurnTable) :
    (t.rows.filter fun r => r.status = .inProgress).foldl
        (fun t r => t.setTurnStatus r.id .interrupted none none none) t =
      t.update markedRow markedRow_id := by
  have hrows : ∀ (rs : List TurnRow) (t : TurnTable),
      (rs.foldl (fun t r => t.setTurnStatus r.id .interrupted none none none) t).rows =
        rs.foldl (fun acc r =>
          updateKey TurnRow.id r.id (TurnTable.withStatus .interrupted none none none) acc)
          t.rows :=
    fun rs t => (List.foldl_hom TurnTable.rows fun t r => (t.setTurnStatus_rows _ _ _ _ _).symm).symm
  have hnext : ∀ (rs : List TurnRow) (t : TurnTable),
      (rs.foldl (fun t r => t.setTurnStatus r.id .interrupted none none none) t).nextId =
        t.nextId := by
    intro rs
    induction rs with
    | nil => intro t; rfl
    | cons r rs ih => intro t; exact ih _
  apply TurnTable.ext
  · rw [hrows, sweep_eq_map (g := fun _ => TurnTable.withStatus .interrupted none none none)
      (fun _ _ => rfl) t.distinct]
    refine List.map_congr_left fun r _ => ?_
    simp [markedRow, TurnTable.withStatus]
  · exact hnext _ t

namespace Recovery

theorem closeDangling_computes (out : RecoverySummary) (s : SessionRow) :
    (closeDangling out s).Computes
      (fun d => (out.countClosed,
        { d with sessions := d.sessions.closeSession s.id (sessionEnd d.turns s) }))
      fun _ => 2 :=
  (Program.Computes.statement _ _).bind fun _ =>
    (Program.Computes.statement _ _).bind fun _ => .pure _

theorem markInterrupted_computes (out : RecoverySummary) (t : TurnRow) :
    (markInterrupted out t).Computes
      (fun d => (out.countMarked,
        { d with turns := d.turns.setTurnStatus t.id .interrupted none none none }))
      fun _ => 1 :=
  (Program.Computes.statement _ _).bind fun _ => .pure _

/-- The turns do not change while sessions are closed. -/
theorem foldl_closeDangling (ss : List SessionRow) (out : RecoverySummary) (d : Tables) :
    ss.foldl (fun (p : RecoverySummary × Tables) s => (p.1.countClosed,
        { p.2 with sessions := p.2.sessions.closeSession s.id (sessionEnd p.2.turns s) }))
      (out, d) =
      ({ out with sessionsClosed := out.sessionsClosed + ss.length },
        { d with sessions :=
            ss.foldl (fun t s => t.closeSession s.id (sessionEnd d.turns s)) d.sessions }) := by
  induction ss generalizing out d with
  | nil => rfl
  | cons s ss ih =>
      rw [List.foldl_cons, ih]
      simp [RecoverySummary.countClosed, Nat.add_left_comm, Nat.add_comm]

theorem foldl_markInterrupted (rs : List TurnRow) (out : RecoverySummary) (d : Tables) :
    rs.foldl (fun (p : RecoverySummary × Tables) r => (p.1.countMarked,
        { p.2 with turns := p.2.turns.setTurnStatus r.id .interrupted none none none }))
      (out, d) =
      ({ out with turnsMarkedInterrupted := out.turnsMarkedInterrupted + rs.length },
        { d with turns :=
            rs.foldl (fun t r => t.setTurnStatus r.id .interrupted none none none) d.turns }) := by
  induction rs generalizing out d with
  | nil => rfl
  | cons r rs ih =>
      rw [List.foldl_cons, ih]
      simp [RecoverySummary.countMarked, Nat.add_left_comm, Nat.add_comm]

theorem closeDanglingSessions_computes :
    closeDanglingSessions.Computes
      (fun d => ({ sessionsClosed := d.danglingSessions.length },
        { d with sessions := d.sessions.update (closedRow d.turns) (closedRow_id d.turns) }))
      fun d => 1 + d.danglingSessions.length * 2 := by
  have hread : Db.sessionsOpenNoEndedAt.Computes _ _ := .statement _ _
  have hsweep := hread.bind fun ss => Program.Computes.foldlM closeDangling_computes ss {}
  refine hsweep.congr (fun d => ?_) fun d => rfl
  rw [foldl_closeDangling, foldl_closeSession]
  simp [Tables.danglingSessions]

theorem markInProgressTurns_computes (out : RecoverySummary) :
    (markInProgressTurns out).Computes
      (fun d => ({ out with
          turnsMarkedInterrupted := out.turnsMarkedInterrupted + d.danglingTurns.length },
        { d with turns := d.turns.update markedRow markedRow_id }))
      fun d => 1 + d.danglingTurns.length := by
  have hread : Db.turnsInProgress.Computes _ _ := .statement _ _
  have hsweep := hread.bind fun rs => Program.Computes.foldlM markInterrupted_computes rs out
  refine hsweep.congr (fun d => ?_) fun d => by simp [Tables.danglingTurns]
  rw [foldl_markInterrupted, foldl_setTurnStatus]
  rfl

theorem repair_computes :
    repair.Computes (fun d => ((d.repairCounts, d.summaries), d.repaired)) Tables.repairCost := by
  have hread : Db.allSummaries.Computes _ _ := .statement _ _
  have hrepair := closeDanglingSessions_computes.bind fun out =>
    (markInProgressTurns_computes out).bind fun out =>
      hread.bind fun summaries => Program.Computes.pure (out, summaries)
  refine hrepair.congr (fun d => ?_) fun d => ?_
  · simp [Tables.repairCounts, Tables.repaired, Tables.danglingTurns]
  · simp [Tables.repairCost, Tables.danglingTurns, Nat.add_assoc]

theorem verifySummaries_peeks (out : RecoverySummary) (summaries : List SummaryRow) :
    (summaries.foldlM verifySummary out).Peeks summaries.length fun out' =>
      out'.sessionsClosed = out.sessionsClosed ∧
        out'.turnsMarkedInterrupted = out.turnsMarkedInterrupted ∧
        out'.summariesTotal = out.summariesTotal + summaries.length := by
  let Counted (i : Nat) (out' : RecoverySummary) : Prop :=
    out'.sessionsClosed = out.sessionsClosed ∧
      out'.turnsMarkedInterrupted = out.turnsMarkedInterrupted ∧
      out'.summariesTotal = out.summariesTotal + i
  have hround : ∀ i out' s, Counted i out' → (verifySummary out' s).Peeks 1 (Counted (i + 1)) := by
    rintro i out' s ⟨hclosed, hmarked, htotal⟩
    refine (Program.Peeks.orElse _ _ _).bind fun current _ => .pure ⟨hclosed, hmarked, ?_⟩
    rw [RecoverySummary.countSummary, htotal, Nat.add_assoc]
  simpa [Counted] using
    Program.Peeks.foldlM hround summaries (show Counted 0 out from ⟨rfl, rfl, rfl⟩)

/-- A sweep that ends well has repaired the database, whatever has become of the checks. -/
theorem sweep_ok {db db' : Database} {out : RecoverySummary} (h : sweep db = (.ok out, db')) :
    (db.after db.content.repairCost db.content.repaired).Reads db.content.summaries.length db' ∧
      out.sessionsClosed = db.content.danglingSessions.length ∧
      out.turnsMarkedInterrupted = db.content.danglingTurns.length ∧
      out.summariesTotal = db.content.summaries.length := by
  simp only [sweep, bind] at h
  split at h
  next a db₁ hrepair =>
    obtain ⟨-, rfl, rfl⟩ := repair_computes.ok hrepair
    obtain ⟨out', db₂, hrun, ⟨hclosed, hmarked, htotal⟩, hreads⟩ :=
      verifySummaries_peeks db.content.repairCounts db.content.summaries
        (db.after db.content.repairCost db.content.repaired)
    rw [hrun] at h
    cases h
    refine ⟨hreads, hclosed, hmarked, ?_⟩
    simpa [Tables.repairCounts] using htotal
  next => cases h

theorem sweep_error {db db' : Database} {e : DbError} (h : sweep db = (.error e, db')) :
    db.Broken db.content.repairCost db' := by
  simp only [sweep, bind] at h
  split at h
  next a db₁ hrepair =>
    obtain ⟨_, _, hrun, -⟩ := verifySummaries_peeks a.1 a.2 db₁
    rw [hrun] at h
    cases h
  next hrepair =>
    cases h
    exact repair_computes.error hrepair

theorem sweep_of_clear {db : Database} (h : db.Clear db.content.repairCost) :
    ∃ out db', sweep db = (.ok out, db') := by
  cases hrun : sweep db with
  | mk r db' =>
      cases r with
      | ok out => exact ⟨out, db', rfl⟩
      | error e => exact absurd h (sweep_error hrun).not_clear

end Recovery

/-! ## A clean database -/

/-- When the turns of a session have ended. -/
def turnEnds (turns : TurnTable) (session : SessionId) : Set UnixMs :=
  { e | ∃ r ∈ turns.rows, r.sessionId = session ∧ r.endedAt = some e }

/-- The last end of its turns, or the session's own start if none of them has an end. -/
def IsSessionEnd (turns : TurnTable) (s : SessionRow) (e : UnixMs) : Prop :=
  IsGreatest (turnEnds turns s.id) e ∨ turnEnds turns s.id = ∅ ∧ e = s.startedAt

def SessionRecovers (turns : TurnTable) (s s' : SessionRow) : Prop :=
  s.endedAt ≠ none ∧ s' = s ∨
    s.endedAt = none ∧ ∃ e, IsSessionEnd turns s e ∧ s' = { s with endedAt := some e }

def TurnRecovers (r r' : TurnRow) : Prop :=
  r.status ≠ .inProgress ∧ r' = r ∨
    r.status = .inProgress ∧ r' = { r with status := .interrupted, interruptedAtSentence := none }

/-- How many rows differ from what they were. -/
def rowsChanged {α : Type} [DecidableEq α] (old new : List α) : Nat :=
  (old.zip new).countP fun p => p.1 ≠ p.2

structure Recovers (d d' : Tables) (out : RecoverySummary) : Prop where
  noneOpen : ∀ s ∈ d'.sessions.rows, s.endedAt ≠ none
  noneInProgress : ∀ r ∈ d'.turns.rows, r.status ≠ .inProgress
  sessions : List.Forall₂ (SessionRecovers d.turns) d.sessions.rows d'.sessions.rows
  turns : List.Forall₂ TurnRecovers d.turns.rows d'.turns.rows
  nextId : d'.turns.nextId = d.turns.nextId
  summaries : d'.summaries = d.summaries
  facts : d'.facts = d.facts
  settings : d'.settings = d.settings
  sessionsClosed : out.sessionsClosed = rowsChanged d.sessions.rows d'.sessions.rows
  turnsMarked : out.turnsMarkedInterrupted = rowsChanged d.turns.rows d'.turns.rows

theorem sessionEnd_isSessionEnd (turns : TurnTable) (s : SessionRow) :
    IsSessionEnd turns s (sessionEnd turns s) := by
  have hmem : ∀ e, e ∈ ((turns.rows.filter fun r => r.sessionId = s.id).filterMap (·.endedAt)) ↔
      e ∈ turnEnds turns s.id := by
    intro e
    simp [turnEnds, and_assoc]
  unfold IsSessionEnd sessionEnd
  cases hmax : ((turns.rows.filter fun r => r.sessionId = s.id).filterMap (·.endedAt)).max? with
  | some e =>
      obtain ⟨he, hle⟩ := List.max?_eq_some_iff.mp hmax
      exact .inl ⟨(hmem e).mp he, fun e' he' => hle e' ((hmem e').mpr he')⟩
  | none =>
      refine .inr ⟨Set.eq_empty_of_forall_notMem fun e he => ?_, rfl⟩
      have hin := (hmem e).mpr he
      rw [List.max?_eq_none_iff.mp hmax] at hin
      exact List.not_mem_nil hin

theorem closedRow_recovers (turns : TurnTable) (s : SessionRow) :
    SessionRecovers turns s (closedRow turns s) := by
  unfold closedRow
  split
  next h => exact .inr ⟨h, _, sessionEnd_isSessionEnd turns s, rfl⟩
  next h => exact .inl ⟨h, rfl⟩

theorem markedRow_recovers (r : TurnRow) : TurnRecovers r (markedRow r) := by
  unfold markedRow
  split
  next h => exact .inr ⟨h, rfl⟩
  next h => exact .inl ⟨h, rfl⟩

theorem closedRow_endedAt (turns : TurnTable) (s : SessionRow) :
    (closedRow turns s).endedAt ≠ none := by
  unfold closedRow SessionTable.ended
  split
  next => simp
  next h => exact h

theorem markedRow_status (r : TurnRow) : (markedRow r).status ≠ .inProgress := by
  unfold markedRow
  split
  next => simp
  next h => exact h

theorem closedRow_ne_iff (turns : TurnTable) (s : SessionRow) :
    s ≠ closedRow turns s ↔ s.endedAt = none := by
  constructor
  · intro hne
    by_contra h
    exact hne (if_neg h).symm
  · intro h heq
    exact closedRow_endedAt turns s (heq ▸ h)

theorem markedRow_ne_iff (r : TurnRow) : r ≠ markedRow r ↔ r.status = .inProgress := by
  constructor
  · intro hne
    by_contra h
    exact hne (if_neg h).symm
  · intro h heq
    exact markedRow_status r (heq ▸ h)

theorem rowsChanged_map {α : Type} [DecidableEq α] {f : α → α} {p : α → Bool}
    (h : ∀ r, r ≠ f r ↔ p r = true) (rows : List α) :
    rowsChanged rows (rows.map f) = (rows.filter p).length := by
  unfold rowsChanged
  rw [← List.countP_eq_length_filter]
  induction rows with
  | nil => rfl
  | cons r rows ih =>
      have hhead : decide (r ≠ f r) = p r := by
        rw [Bool.eq_iff_iff, decide_eq_true_eq, h r]
      rw [List.map_cons, List.zip_cons_cons, List.countP_cons, List.countP_cons, hhead, ih]

namespace Tables

theorem repaired_recovers (d : Tables) {out : RecoverySummary}
    (hclosed : out.sessionsClosed = d.danglingSessions.length)
    (hmarked : out.turnsMarkedInterrupted = d.danglingTurns.length) :
    Recovers d d.repaired out where
  noneOpen := by
    intro s hs
    obtain ⟨s, -, rfl⟩ := List.mem_map.mp hs
    exact closedRow_endedAt _ _
  noneInProgress := by
    intro r hr
    obtain ⟨r, -, rfl⟩ := List.mem_map.mp hr
    exact markedRow_status _
  sessions := List.forall₂_map_right_iff.mpr
    (List.forall₂_same.mpr fun s _ => closedRow_recovers d.turns s)
  turns := List.forall₂_map_right_iff.mpr (List.forall₂_same.mpr fun r _ => markedRow_recovers r)
  nextId := rfl
  summaries := rfl
  facts := rfl
  settings := rfl
  sessionsClosed := hclosed.trans
    (rowsChanged_map (fun s => by simpa using closedRow_ne_iff d.turns s) _).symm
  turnsMarked := hmarked.trans
    (rowsChanged_map (fun r => by simpa using markedRow_ne_iff r) _).symm

theorem danglingSessions_repaired (d : Tables) : d.repaired.danglingSessions = [] := by
  refine List.filter_eq_nil_iff.mpr fun s hs => ?_
  obtain ⟨s, -, rfl⟩ := List.mem_map.mp hs
  simpa using closedRow_endedAt d.turns s

theorem danglingTurns_repaired (d : Tables) : d.repaired.danglingTurns = [] := by
  refine List.filter_eq_nil_iff.mpr fun r hr => ?_
  obtain ⟨r, -, rfl⟩ := List.mem_map.mp hr
  simpa using markedRow_status r

/-- Where nothing dangles there is nothing to repair. -/
theorem repaired_eq_self {d : Tables} (hsessions : d.danglingSessions = [])
    (hturns : d.danglingTurns = []) : d.repaired = d := by
  have hclosed : d.sessions.update (closedRow d.turns) (closedRow_id d.turns) = d.sessions := by
    apply SessionTable.ext
    refine (List.map_congr_left fun s hs => ?_).trans (List.map_id _)
    exact if_neg (by simpa using List.filter_eq_nil_iff.mp hsessions s hs)
  have hmarked : d.turns.update markedRow markedRow_id = d.turns := by
    apply TurnTable.ext
    · refine (List.map_congr_left fun r hr => ?_).trans (List.map_id _)
      exact if_neg (by simpa using List.filter_eq_nil_iff.mp hturns r hr)
    · rfl
  simp only [repaired, hclosed, hmarked]

theorem repaired_repaired (d : Tables) : d.repaired.repaired = d.repaired :=
  repaired_eq_self d.danglingSessions_repaired d.danglingTurns_repaired

end Tables

/-! ## A run that returns -/

theorem runRecovery_eq_ok {db db' : Database} {out : RecoverySummary}
    (h : runRecovery db = (.ok out, db')) :
    ∃ db₁, Recovery.sweep db.begin.2 = (.ok out, db₁) ∧ db₁.commit = (none, db') := by
  simp only [runRecovery, Transaction.construct] at h
  split at h
  next => cases h
  next out' db₁ hsweep =>
    refine ⟨db₁, ?_⟩
    cases hcommit : db₁.commit with
    | mk err db₂ =>
        cases err <;> simp [Transaction.commit, Transaction.destruct, hcommit] at h
        exact ⟨h.1 ▸ hsweep, by rw [h.2]⟩

/-- Only an open transaction can be committed, and it has all that was done in it. -/
theorem runRecovery_repairs {db db' : Database} {out : RecoverySummary}
    (h : runRecovery db = (.ok out, db')) :
    db'.content = db.content.repaired ∧ db'.saved = none ∧
      out.sessionsClosed = db.content.danglingSessions.length ∧
      out.turnsMarkedInterrupted = db.content.danglingTurns.length := by
  obtain ⟨db₁, hsweep, hcommit⟩ := runRecovery_eq_ok h
  obtain ⟨hopen, rfl⟩ := Connection.commit_ok hcommit
  obtain ⟨hreads, hclosed, hmarked, -⟩ := Recovery.sweep_ok hsweep
  obtain ⟨hcontent, hsaved⟩ | ⟨hnone, -⟩ := hreads.kept
  · rw [hsaved] at hopen
    rw [Connection.begin_content hopen] at hcontent hclosed hmarked
    exact ⟨hcontent, rfl, hclosed, hmarked⟩
  · exact absurd hnone hopen

/-- With no fault to come and no transaction open it does return. -/
theorem runRecovery_returns {db : Database} (hclear : ∀ j, db.issued ≤ j → db.faults j = none)
    (hsaved : db.saved = none) : ∃ out db', runRecovery db = (.ok out, db') := by
  have hbegin := Connection.begin_of_clear (hclear _ (Nat.le_refl _)) hsaved
  set begun : Database := { db.next with saved := some db.content } with hbegun
  have hahead : ∀ j, begun.issued ≤ j → begun.faults j = none := by
    intro j hj
    exact hclear j (Nat.le_of_succ_le hj)
  obtain ⟨out, db₁, hsweep⟩ := Recovery.sweep_of_clear (fun j _ => hahead _ (Nat.le_add_right _ j))
  obtain ⟨hreads, -⟩ := Recovery.sweep_ok hsweep
  have hopen : db₁.saved ≠ none := by
    obtain ⟨-, hsame⟩ | ⟨-, -, hfails⟩ := hreads.kept
    · rw [hsame]
      exact Option.some_ne_none _
    · exact absurd (fun j _ => hahead _ (by simp [Nat.add_assoc])) hfails
  have hcommit : db₁.commit = (none, { db₁.next with saved := none }) := by
    refine Connection.commit_of_clear ?_ hopen
    rw [hreads.faults, hreads.issued]
    exact hahead _ (by simp [Nat.add_assoc])
  exact ⟨out, { db₁.next with saved := none }, by
    simp [runRecovery, Transaction.construct, Transaction.commit, Transaction.destruct, hbegin,
      hsweep, hcommit]⟩

/-- A recovery that returns has left a clean database, and another one finds nothing to do. -/
theorem runRecovery_recovers {db db' : Database} {out : RecoverySummary}
    (h : runRecovery db = (.ok out, db')) :
    Recovers db.content db'.content out ∧
      ((∀ j, db'.issued ≤ j → db'.faults j = none) →
        ∃ out₂ again', runRecovery db' = (.ok out₂, again')) ∧
      ∀ again again' : Database, ∀ out₂, again.content = db'.content →
        runRecovery again = (.ok out₂, again') →
          out₂.sessionsClosed = 0 ∧ out₂.turnsMarkedInterrupted = 0 ∧
            again'.content = db'.content := by
  obtain ⟨hcontent, hsaved, hclosed, hmarked⟩ := runRecovery_repairs h
  refine ⟨?_, fun hclear => runRecovery_returns hclear hsaved, ?_⟩
  · rw [hcontent]
    exact db.content.repaired_recovers hclosed hmarked
  · intro again again' out₂ hsame hagain
    obtain ⟨hcontent', -, hclosed', hmarked'⟩ := runRecovery_repairs hagain
    rw [hsame, hcontent] at hcontent' hclosed' hmarked'
    refine ⟨?_, ?_, ?_⟩
    · rw [hclosed', Tables.danglingSessions_repaired, List.length_nil]
    · rw [hmarked', Tables.danglingTurns_repaired, List.length_nil]
    · rw [hcontent', hcontent, Tables.repaired_repaired]

/-- A session that a crash has left open, with a turn that has ended and one in progress. -/
def crashed : Tables where
  sessions :=
    { rows := [{ id := 1, startedAt := 1000 }]
      sorted := List.pairwise_singleton _ _ }
  turns :=
    { rows := [{ id := 1, sessionId := 1, role := .user, text := some (ascii "hi"), startedAt := 1000,
                 endedAt := some 2000, status := .committed },
               { id := 2, sessionId := 1, role := .assistant, startedAt := 2500 }]
      nextId := 3
      sorted := by simp
      bounded := by simp }

theorem runRecovery_recovers_crashed : ∃ db' : Database,
    runRecovery { content := crashed } =
      (.ok { sessionsClosed := 1, turnsMarkedInterrupted := 1 }, db') ∧
    Recovers crashed db'.content { sessionsClosed := 1, turnsMarkedInterrupted := 1 } := by
  obtain ⟨db', hrun⟩ : ∃ db' : Database, runRecovery { content := crashed } =
      (.ok { sessionsClosed := 1, turnsMarkedInterrupted := 1 }, db') := ⟨_, rfl⟩
  exact ⟨db', hrun, (runRecovery_recovers hrun).1⟩

end Acva.Memory
