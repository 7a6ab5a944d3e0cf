import Acva.Event.Event
import Mathlib.Data.List.DropRight

/-! # The repository

Turn rows are kept in the order of their ids, which SQLite hands out in
increasing order and never reuses; the table carries that as a field. Whether a
statement succeeds is an input of the job that issues it. The confidence of a
fact is a rational number in place of the source's double.
-/

namespace Acva.Memory

abbrev SessionId := Int

/-- Row ids of the turns table, not to be confused with the turn ids on the bus. -/
abbrev RowId := Nat

/-- Milliseconds since the epoch. -/
abbrev UnixMs := Int

inductive TurnRole
  | user
  | assistant
deriving DecidableEq, Repr

inductive TurnStatus
  | inProgress
  | committed
  | interrupted
  | discarded
deriving DecidableEq, Repr

structure TurnRow where
  id : RowId
  sessionId : SessionId
  role : TurnRole
  text : Option Bytes := none
  lang : Option Bytes := none
  startedAt : UnixMs := 0
  endedAt : Option UnixMs := none
  status : TurnStatus := .inProgress
  interruptedAtSentence : Option Int := none
  audioPath : Option Bytes := none
deriving DecidableEq, Repr

structure TurnTable where
  rows : List TurnRow := []
  nextId : RowId := 1
  sorted : rows.Pairwise (fun a b => a.id < b.id) := by exact List.Pairwise.nil
  bounded : ∀ r ∈ rows, r.id < nextId := by exact fun _ hr => absurd hr List.not_mem_nil

namespace TurnTable

/-- The columns `insert_turn` leaves out are `NULL`. -/
def insertTurn (session : SessionId) (role : TurnRole) (text lang : Option Bytes)
    (startedAt : UnixMs) (status : TurnStatus) (t : TurnTable) : RowId × TurnTable :=
  (t.nextId,
    { rows := t.rows ++
        [{ id := t.nextId, sessionId := session, role := role, text := text, lang := lang,
           startedAt := startedAt, status := status }]
      nextId := t.nextId + 1
      sorted := by
        refine List.pairwise_append.mpr ⟨t.sorted, List.pairwise_singleton _ _, ?_⟩
        intro a ha b hb
        rw [List.mem_singleton] at hb
        exact hb ▸ t.bounded a ha
      bounded := by
        intro r hr
        rcases List.mem_append.mp hr with hr | hr
        · exact Nat.lt_succ_of_lt (t.bounded r hr)
        · rw [List.mem_singleton] at hr
          exact hr ▸ Nat.lt_succ_self _ })

/-- Rewrite rows in place; ids stay. -/
def update (f : TurnRow → TurnRow) (hf : ∀ r, (f r).id = r.id) (t : TurnTable) : TurnTable where
  rows := t.rows.map f
  nextId := t.nextId
  sorted := by
    rw [List.pairwise_map]
    simpa only [hf] using t.sorted
  bounded := by
    intro r hr
    obtain ⟨r', hr', rfl⟩ := List.mem_map.mp hr
    rw [hf]
    exact t.bounded r' hr'

/-- `COALESCE` keeps the old value where the new one is `NULL`. -/
def withStatus (status : TurnStatus) (endedAt : Option UnixMs) (interruptedAt : Option Int)
    (text : Option Bytes) (r : TurnRow) : TurnRow :=
  { r with
    status := status
    endedAt := endedAt.or r.endedAt
    interruptedAtSentence := interruptedAt
    text := text.or r.text }

def setTurnStatus (id : RowId) (status : TurnStatus) (endedAt : Option UnixMs)
    (interruptedAt : Option Int) (text : Option Bytes) (t : TurnTable) : TurnTable :=
  t.update (fun r => if r.id = id then withStatus status endedAt interruptedAt text r else r)
    (fun r => by split <;> rfl)

/-- The last `limit` rows of the session, oldest first; a negative `LIMIT` is none. -/
def recentTurns (session : SessionId) (limit : Int) (t : TurnTable) : List TurnRow :=
  let newestFirst := (t.rows.filter fun r => r.sessionId = session).reverse
  (if limit < 0 then newestFirst else newestFirst.take limit.toNat).reverse

theorem recentTurns_eq_drop (session : SessionId) (limit : Int) (t : TurnTable) :
    t.recentTurns session limit =
      let all := t.rows.filter fun r => r.sessionId = session
      if limit < 0 then all else all.drop (all.length - limit.toNat) := by
  simp only [recentTurns]
  split
  · rw [List.reverse_reverse]
  · rw [List.take_reverse, List.reverse_reverse]

/-- The rows of a session, oldest first. -/
def sessionRows (session : SessionId) (t : TurnTable) : List TurnRow :=
  t.rows.filter fun r => r.sessionId = session

theorem recentTurns_of_neg {limit : Int} (h : limit < 0) (session : SessionId) (t : TurnTable) :
    t.recentTurns session limit = t.sessionRows session := by
  simp only [recentTurns_eq_drop, if_pos h]
  rfl

/-- The query's rows are a window on the session's. -/
theorem recentTurns_of_nonneg {limit : Int} (h : ¬limit < 0) (session : SessionId)
    (t : TurnTable) : t.recentTurns session limit = (t.sessionRows session).rtake limit.toNat := by
  simp only [recentTurns_eq_drop, if_neg h]
  rfl

/-- Of the session's rows the limit keeps one exactly if fewer than that many follow it. -/
theorem recentTurns_filter_id {session : SessionId} (limit : Int) {t : TurnTable} {row : TurnRow}
    {older newer : List TurnRow}
    (h : (t.rows.filter fun r => r.sessionId = session) = older ++ row :: newer) :
    ((t.recentTurns session limit).filter fun r => r.id = row.id) =
      if limit < 0 ∨ (newer.length : Int) < limit then [row] else [] := by
  have hsorted : (older ++ row :: newer).Pairwise (fun a b => a.id < b.id) :=
    h ▸ t.sorted.sublist List.filter_sublist
  obtain ⟨-, htail, hcross⟩ := List.pairwise_append.mp hsorted
  have holder : ∀ r ∈ older, ¬ r.id = row.id :=
    fun r hr => Nat.ne_of_lt (hcross r hr row List.mem_cons_self)
  have hnewer : ∀ r ∈ newer, ¬ r.id = row.id :=
    fun r hr => Nat.ne_of_gt (List.rel_of_pairwise_cons htail hr)
  have hnone : ∀ rs : List TurnRow, (∀ r ∈ rs, ¬ r.id = row.id) →
      rs.filter (fun r => r.id = row.id) = [] :=
    fun rs hrs => List.filter_eq_nil_iff.mpr fun r hr => by simpa using hrs r hr
  have hfrom : ∀ n, ((older ++ row :: newer).drop n).filter (fun r => r.id = row.id) =
      if n ≤ older.length then [row] else [] := by
    intro n
    by_cases hn : n ≤ older.length
    · rw [if_pos hn, List.drop_append_of_le_length hn, List.filter_append,
        hnone _ (fun r hr => holder r (List.mem_of_mem_drop hr)),
        List.filter_cons_of_pos (by simp), hnone _ hnewer, List.nil_append]
    · rw [if_neg hn, List.drop_append, List.drop_of_length_le (by omega), List.nil_append]
      obtain ⟨k, hk⟩ : ∃ k, n - older.length = k + 1 := ⟨n - older.length - 1, by omega⟩
      rw [hk, List.drop_succ_cons]
      exact hnone _ (fun r hr => hnewer r (List.mem_of_mem_drop hr))
  rw [recentTurns_eq_drop, h]
  by_cases hlimit : limit < 0
  · simpa [hlimit] using hfrom 0
  · have hlen : (older ++ row :: newer).length = older.length + newer.length + 1 := by
      simp
      omega
    simp only [if_neg hlimit]
    rw [hfrom, hlen]
    by_cases hin : (newer.length : Int) < limit
    · rw [if_pos (by omega), if_pos (.inr hin)]
    · rw [if_neg (by omega), if_neg (by omega)]

theorem mem_of_mem_recentTurns {session : SessionId} {limit : Int} {t : TurnTable} {r : TurnRow}
    (h : r ∈ t.recentTurns session limit) : r ∈ t.rows := by
  unfold recentTurns at h
  rw [List.mem_reverse] at h
  split at h
  · exact List.mem_of_mem_filter (List.mem_reverse.mp h)
  · exact List.mem_of_mem_filter (List.mem_reverse.mp (List.mem_of_mem_take h))

end TurnTable

/-- The job that writes one turn: insert the row, then set its status and end. Without an
`endedAt` the job reads the clock itself. -/
structure InsertTurnJob where
  session : SessionId
  role : TurnRole
  text : Bytes
  lang : Option Bytes
  startedAt : UnixMs
  status : TurnStatus
  endedAt : Option UnixMs
  interruptedAt : Option Int
deriving DecidableEq, Repr

namespace InsertTurnJob

/-- Run the job; the flags tell whether the two statements succeed. -/
def exec (insertOk statusOk : Bool) (now : UnixMs) (job : InsertTurnJob) (t : TurnTable) :
    TurnTable :=
  if insertOk = true then
    let (id, t) :=
      t.insertTurn job.session job.role (some job.text) job.lang job.startedAt job.status
    if statusOk = true then
      t.setTurnStatus id job.status (some (job.endedAt.getD now)) job.interruptedAt none
    else t
  else t

/-- The row that a successful job leaves behind. -/
structure Leaves (job : InsertTurnJob) (t : TurnTable) (row : TurnRow) : Prop where
  id : row.id = t.nextId
  sessionId : row.sessionId = job.session
  role : row.role = job.role
  text : row.text = some job.text
  status : row.status = job.status

theorem exec_of_failed (statusOk : Bool) (now : UnixMs) (job : InsertTurnJob) (t : TurnTable) :
    job.exec false statusOk now t = t := rfl

/-- The job appends its row; no other row changes. -/
theorem exec_rows (statusOk : Bool) (now : UnixMs) (job : InsertTurnJob) (t : TurnTable) :
    (job.exec true statusOk now t).nextId = t.nextId + 1 ∧
      ∃ row, (job.exec true statusOk now t).rows = t.rows ++ [row] ∧ job.Leaves t row := by
  cases statusOk with
  | false => exact ⟨rfl, _, rfl, rfl, rfl, rfl, rfl, rfl⟩
  | true =>
      let row : TurnRow :=
        { id := t.nextId, sessionId := job.session, role := job.role, text := some job.text,
          lang := job.lang, startedAt := job.startedAt, status := job.status }
      let ended := TurnTable.withStatus job.status (some (job.endedAt.getD now)) job.interruptedAt
        none row
      refine ⟨rfl, ended, ?_, rfl, rfl, rfl, rfl, rfl⟩
      show (t.rows ++ [row]).map _ = _
      rw [List.map_append, List.map_singleton, if_pos rfl]
      congr 1
      refine (List.map_congr_left fun r hr => ?_).trans (List.map_id _)
      exact if_neg (Nat.ne_of_lt (t.bounded r hr))

end InsertTurnJob

/-! ## The other tables -/

structure SummaryRow where
  id : RowId := 0
  sessionId : SessionId := 0
  rangeStartTurn : Int := 0
  rangeEndTurn : Int := 0
  summary : Bytes := []
  lang : Bytes := []
  sourceHash : Bytes := []
  createdAt : UnixMs := 0
deriving DecidableEq, Repr

structure FactRow where
  id : RowId := 0
  key : Bytes := []
  value : Bytes := []
  lang : Option Bytes := none
  sourceTurnId : Option Int := none
  confidence : Rat := 0
  updatedAt : UnixMs := 0
deriving DecidableEq, Repr

structure Repository where
  turns : TurnTable := {}
  summaries : List SummaryRow := []
  facts : List FactRow := []

namespace Repository

/-- `ORDER BY range_end_turn DESC LIMIT 1`. -/
def latestSummary (session : SessionId) (repo : Repository) : Option SummaryRow :=
  ((repo.summaries.filter fun s => s.sessionId = session).mergeSort
    fun a b => b.rangeEndTurn ≤ a.rangeEndTurn).head?

/-- `ORDER BY key, lang`: `NULL` comes first. -/
def factLe (a b : FactRow) : Bool :=
  if a.key = b.key then
    match a.lang, b.lang with
    | none, _ => true
    | some _, none => false
    | some x, some y => x ≤ y
  else a.key ≤ b.key

def factsWithMinConfidence (min : Rat) (repo : Repository) : List FactRow :=
  (repo.facts.filter fun f => min ≤ f.confidence).mergeSort factLe

end Repository

end Acva.Memory
