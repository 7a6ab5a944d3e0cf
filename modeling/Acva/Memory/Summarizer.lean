import Acva.Memory.SourceHash

/-! # The summarizer

A bus handler counts finished replies and wakes the worker thread. The worker reads a
snapshot on the memory thread, asks the LLM for a summary of what is new, and has the
memory thread store it. It waits for each of the two jobs, and a job that is not
accepted throws. The JSON writer is a parameter.
-/

namespace Acva.Memory

structure SummaryConfig where
  model : Bytes := []
  turnThreshold : Nat := 15
deriving DecidableEq, Repr

structure SummaryMessage where
  role : Bytes
  content : Bytes
deriving DecidableEq, Repr

structure SummaryRequest where
  model : Bytes
  messages : List SummaryMessage
  temperature : Rat := 0
  maxTokens : Int := 0
  stream : Bool := false
deriving DecidableEq, Repr

def kSystemPrompt : Bytes :=
  ascii <| "You summarize conversations. Produce a single short paragraph " ++
    "(<=2 sentences, <=40 words) capturing the main topics, decisions, " ++
    "and any durable user preferences mentioned. Do not quote verbatim."

/-- The texts of the turns in the range. -/
def concatTurns (rangeStart rangeEnd : Int) (turns : List TurnRow) : Bytes :=
  (turns.filter fun t => ¬ ((t.id : Int) < rangeStart ∨ rangeEnd < t.id) ∧ t.text.getD [] ≠ [])
    |>.flatMap fun t =>
      (if t.role = .user then ascii "User: " else ascii "Assistant: ") ++ t.text.getD [] ++
        ascii "\n"

def summaryRequest (cfg : SummaryConfig) (textBlock : Bytes) : SummaryRequest where
  model := cfg.model
  messages :=
    [{ role := ascii "system", content := kSystemPrompt },
      { role := ascii "user", content := ascii "Summarize:\n" ++ textBlock }]
  temperature := 3 / 10
  maxTokens := 200
  stream := true

/-- A failed write leaves the body empty. -/
def buildRequestBody (writeJson : SummaryRequest → Option Bytes) (cfg : SummaryConfig)
    (textBlock : Bytes) : Bytes :=
  (writeJson (summaryRequest cfg textBlock)).getD []

/-! ## The jobs on the memory thread -/

/-- What there is to summarize. -/
structure SummaryRange where
  rangeStart : Int := 0
  rangeEnd : Int := 0
  turns : List TurnRow := []
deriving DecidableEq, Repr

/-- The largest id of a committed or interrupted turn from `rangeStart` on. -/
def lastUsable (rangeStart : Int) (turns : List TurnRow) : Int :=
  turns.foldl
    (fun last t =>
      if rangeStart ≤ t.id ∧ (t.status = .committed ∨ t.status = .interrupted) ∧ last < t.id then
        t.id
      else last) 0

/-- The read job; the flags tell whether its two queries succeed. -/
def readRange (session : SessionId) (summaryOk turnsOk : Bool) (repo : Repository) :
    SummaryRange :=
  let rangeStart :=
    match if summaryOk = true then repo.latestSummary session else none with
    | some s => s.rangeEndTurn + 1
    | none => 1
  let turns := if turnsOk = true then repo.turns.recentTurns session kSessionLimit else []
  { rangeStart := rangeStart, rangeEnd := lastUsable rangeStart turns, turns := turns }

/-- A summary that is still to be stored. -/
structure SummaryDraft where
  session : SessionId
  rangeStart : Int
  rangeEnd : Int
  text : Bytes
deriving DecidableEq, Repr

/-- Ids are handed out in increasing order, and no summary is ever deleted. -/
def Repository.insertSummary (session : SessionId) (rangeStart rangeEnd : Int)
    (summary lang sourceHash : Bytes) (createdAt : UnixMs) (repo : Repository) : Repository :=
  { repo with
    summaries := repo.summaries ++
      [{ id := ((repo.summaries.map (·.id)).max?.getD 0) + 1
         sessionId := session
         rangeStartTurn := rangeStart
         rangeEndTurn := rangeEnd
         summary := summary
         lang := lang
         sourceHash := sourceHash
         createdAt := createdAt }] }

/-- The write job: whether it has stored the summary, and the repository. -/
def SummaryDraft.store (turnsOk insertOk : Bool) (now : UnixMs) (d : SummaryDraft)
    (repo : Repository) : Bool × Repository :=
  let hash := computeSourceHash turnsOk d.session d.rangeStart d.rangeEnd repo
  if insertOk = true then
    (true, repo.insertSummary d.session d.rangeStart d.rangeEnd d.text (ascii "en") hash now)
  else (false, repo)

/-! ## The worker thread -/

/-- Where the worker stands. -/
inductive WorkerPc
  /-- Waiting on the condition variable. -/
  | waiting
  /-- `run_one_summary` is called. -/
  | called
  /-- The session is bound, and the read job is to be submitted. -/
  | asking (session : SessionId)
  /-- Waiting for the snapshot. -/
  | reading (session : SessionId)
  /-- The LLM call is running. -/
  | calling (session : SessionId) (range : SummaryRange) (body : Bytes)
  /-- The write job is to be submitted. -/
  | drafted (draft : SummaryDraft)
  /-- Waiting for the write job. -/
  | writing (draft : SummaryDraft)
  /-- `run_one_summary` has returned. -/
  | returned (wrote : Bool)
  /-- The thread has returned. -/
  | exited
  /-- An exception has left the thread. -/
  | threw
deriving DecidableEq, Repr

structure Summarizer where
  cfg : SummaryConfig := {}
  session : SessionId := 0
  turnsSinceSummary : Nat := 0
  summariesWritten : Nat := 0
  jobPending : Bool := false
  stopping : Bool := false
  /-- The count that the handler of an event has just read. -/
  counted : Option Nat := none
  worker : WorkerPc := .waiting
deriving DecidableEq, Repr

namespace Summarizer

def triggerNow (s : Summarizer) : Summarizer := { s with jobPending := true }

/-- The handler counts a completed exchange as two rows. -/
def onEvent (e : LlmFinished) (s : Summarizer) : Option Summarizer :=
  match s.counted with
  | some _ => none
  | none =>
      if e.cancelled = true then some s
      else
        let count := s.turnsSinceSummary + 2
        some { s with turnsSinceSummary := count, counted := some count }

/-- The handler looks at its count and returns. -/
def checkCount (s : Summarizer) : Option Summarizer :=
  match s.counted with
  | some count =>
      let s := { s with counted := none }
      some (if s.cfg.turnThreshold ≤ count then s.triggerNow else s)
  | none => none

/-- One round of `worker_loop` up to the call of `run_one_summary`. -/
def takeJob (s : Summarizer) : Option Summarizer :=
  match s.worker with
  | .waiting =>
      if s.jobPending = true then some { s with jobPending := false, worker := .called }
      else if s.stopping = true then some { s with worker := .exited }
      else none
  | _ => none

def loadSession (s : Summarizer) : Option Summarizer :=
  match s.worker with
  | .called =>
      if s.session = 0 then some { s with worker := .returned false }
      else some { s with worker := .asking s.session }
  | _ => none

/-- The future of a job that was not accepted throws. -/
def submitRead (accepted : Bool) (s : Summarizer) : Option Summarizer :=
  match s.worker with
  | .asking session =>
      some { s with worker := if accepted = true then .reading session else .threw }
  | _ => none

/-- From the snapshot up to the call of the LLM. -/
def onRange (writeJson : SummaryRequest → Option Bytes) (range : SummaryRange) (s : Summarizer) :
    Option Summarizer :=
  match s.worker with
  | .reading session =>
      let block := concatTurns range.rangeStart range.rangeEnd range.turns
      let body := buildRequestBody writeJson s.cfg block
      -- nothing new, no text, or no request
      if range.rangeEnd < range.rangeStart ∨ range.turns = [] ∨ block = [] ∨ body = [] then
        some { s with worker := .returned false }
      else some { s with worker := .calling session range body }
  | _ => none

/-- The LLM has delivered its tokens, and perhaps an error. -/
def onFinished (tokens : List Bytes) (error : Bool) (s : Summarizer) : Option Summarizer :=
  match s.worker with
  | .calling session range _ =>
      let text := tokens.flatten
      some { s with
        worker := .drafted
          { session := session
            rangeStart := range.rangeStart
            rangeEnd := range.rangeEnd
            text := if error = true ∨ text = [] then ascii "[TODO summary]" else text } }
  | _ => none

def submitWrite (accepted : Bool) (s : Summarizer) : Option Summarizer :=
  match s.worker with
  | .drafted draft => some { s with worker := if accepted = true then .writing draft else .threw }
  | _ => none

def onStored (stored : Bool) (s : Summarizer) : Option Summarizer :=
  match s.worker with
  | .writing _ => some { s with worker := .returned stored }
  | _ => none

/-- The end of a round of `worker_loop`. -/
def endRound (s : Summarizer) : Option Summarizer :=
  match s.worker with
  | .returned true =>
      some { s with
        turnsSinceSummary := 0, summariesWritten := s.summariesWritten + 1, worker := .waiting }
  | .returned false => some { s with worker := .waiting }
  | _ => none

end Summarizer

end Acva.Memory
