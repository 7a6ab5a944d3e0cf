import Acva.Memory.Repository

/-! # The prompt builder

One job on the memory thread reads the facts, the latest summary and the last
turns; the request is assembled from what it read. A query that fails leaves its
part of the snapshot empty. Doubles are rational numbers here, and the JSON
writer is a parameter.
-/

namespace Acva.Llm

open Acva.Memory

structure PromptConfig where
  systemPrompts : List (Bytes × Bytes) := []
  fallbackLanguage : Bytes := ascii "en"
  maxAssistantSentences : Nat := 6
  recentTurnsN : UInt32 := 10
  confidenceThreshold : Rat := 7 / 10
  model : Bytes := []
  temperature : Rat := 7 / 10
  topP : Rat := 1
  repeatPenalty : Rat := 1
  maxTokens : UInt32 := 400
deriving DecidableEq, Repr

structure ChatMessage where
  role : Bytes
  content : Bytes
deriving DecidableEq, Repr

structure ChatRequest where
  model : Bytes
  messages : List ChatMessage
  temperature : Rat
  topP : Rat
  repeatPenalty : Rat
  maxTokens : Int
  stream : Bool
deriving DecidableEq, Repr

structure MemorySnapshot where
  facts : List FactRow := []
  summary : Option SummaryRow := none
  turns : List TurnRow := []
deriving DecidableEq, Repr

structure PromptInputs where
  sessionId : SessionId := 0
  lang : Bytes
  currentUserText : Bytes
deriving DecidableEq, Repr

/-- Which of the three queries of the read job succeed. -/
structure QueryOutcome where
  factsOk : Bool := true
  summaryOk : Bool := true
  turnsOk : Bool := true
deriving DecidableEq, Repr

/-- `std::map::find`. -/
def lookup (lang : Bytes) (prompts : List (Bytes × Bytes)) : Option Bytes :=
  (prompts.find? fun p => p.1 = lang).map (·.2)

def chooseSystemPrompt (cfg : PromptConfig) (lang : Bytes) : Bytes :=
  ((lookup lang cfg.systemPrompts).or (lookup cfg.fallbackLanguage cfg.systemPrompts)).getD []

def assembleSystemContent (cfg : PromptConfig) (lang : Bytes) (snap : MemorySnapshot) : Bytes :=
  let facts :=
    if snap.facts = [] then []
    else ascii "\n\nDurable user facts:" ++
      snap.facts.flatMap fun f => ascii "\n- " ++ f.key ++ ascii ": " ++ f.value
  let summary :=
    match snap.summary with
    | some s => ascii "\n\nEarlier conversation summary:\n" ++ s.summary
    | none => []
  let cap :=
    if 0 < cfg.maxAssistantSentences ∧ cfg.maxAssistantSentences < 100 then
      ascii "\n\nReply in at most " ++ ascii (toString cfg.maxAssistantSentences) ++
        ascii " short sentences."
    else []
  chooseSystemPrompt cfg lang ++ facts ++ summary ++ cap

/-- The message of a row of the history. -/
def turnMessage (t : TurnRow) : ChatMessage :=
  { role := if t.role = .user then ascii "user" else ascii "assistant"
    content := t.text.getD [] }

def assembleMessages (systemContent : Bytes) (snap : MemorySnapshot) (currentUserText : Bytes) :
    List ChatMessage :=
  { role := ascii "system", content := systemContent } :: snap.turns.map turnMessage ++
    [{ role := ascii "user", content := currentUserText }]

/-- The rows that `read_snapshot` keeps. -/
def usableTurn (t : TurnRow) : Bool :=
  (t.status = .committed || t.status = .interrupted) && !(t.text.getD []).isEmpty

/-- The limit of the query, cast to `int`. -/
def recentLimit (cfg : PromptConfig) : Int := cfg.recentTurnsN.toInt32.toInt

/-- The job on the memory thread. -/
def readSnapshot (cfg : PromptConfig) (session : SessionId) (outcome : QueryOutcome)
    (repo : Repository) : MemorySnapshot where
  facts :=
    if outcome.factsOk = true then repo.factsWithMinConfidence cfg.confidenceThreshold else []
  summary := if outcome.summaryOk = true then repo.latestSummary session else none
  turns :=
    if outcome.turnsOk = true then
      (repo.turns.recentTurns session (recentLimit cfg)).filter usableTurn
    else []

def estimateTokens (body : Bytes) : Nat := (body.length + 3) / 4

/-- The request of a prompt; without a session nothing is read. -/
def chatRequest (cfg : PromptConfig) (inputs : PromptInputs) (snap : MemorySnapshot) :
    ChatRequest :=
  let snap := if inputs.sessionId = 0 then {} else snap
  { model := cfg.model
    messages := assembleMessages (assembleSystemContent cfg inputs.lang snap) snap
      inputs.currentUserText
    temperature := cfg.temperature
    topP := cfg.topP
    repeatPenalty := cfg.repeatPenalty
    maxTokens := cfg.maxTokens.toInt32.toInt
    stream := true }

/-- The body and the estimate of its tokens; a failed write leaves the body empty. -/
def build (writeJson : ChatRequest → Option Bytes) (cfg : PromptConfig) (inputs : PromptInputs)
    (snap : MemorySnapshot) : Bytes × Nat :=
  let body := (writeJson (chatRequest cfg inputs snap)).getD []
  (body, estimateTokens body)

end Acva.Llm
