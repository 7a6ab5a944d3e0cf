import Acva.Dialogue.Manager.Reply
import Acva.Dialogue.Turn

/-! # The dialogue manager

Two threads: the subscription thread handles events and never waits, the I/O
thread serves one transcript at a time. The I/O thread's program counter holds
the locals of `run_one`; between two of its steps the other threads may move.
The context of the current run and `active_` share one token, so the token is
kept in `active` alone. Log lines and the log's rate limit are left out.
-/

namespace Acva.Dialogue

structure ManagerConfig where
  minRealUtteranceChars : Nat := 3
  maxAssistantSentences : UInt32 := 6
  fallbackLanguage : Bytes := ascii "en"
  sentenceSplitter : SentenceSplitterConfig := {}
deriving DecidableEq, Repr

/-- The bytes a UTF-8 code point takes, read off its leading byte. -/
def utf8Step (b : UInt8) : Nat :=
  if b < 0x80 then 1 else if b &&& 0xE0 = 0xC0 then 2 else if b &&& 0xF0 = 0xE0 then 3 else 4

/-- The loop with `skip` bytes left of the code point counted last. -/
def visibleCharsFrom : Nat → Bytes → Nat
  | _, [] => 0
  | skip + 1, _ :: rest => visibleCharsFrom skip rest
  | 0, b :: rest =>
      (if 0x80 ≤ b ∨ (0x20 < b ∧ b ≠ 0x7F) then 1 else 0) +
        visibleCharsFrom (utf8Step b - 1) rest

/-- Visible characters: code points, less ASCII white space and controls. -/
def normalisedVisibleChars (s : Bytes) : Nat := visibleCharsFrom 0 s

/-- Where the I/O thread stands. -/
inductive IoPc
  /-- Waiting on the condition variable. -/
  | idle
  /-- A job is taken off the slot. -/
  | took (job : FinalTranscript)
  /-- The provider has answered with an id. -/
  | asked (job : FinalTranscript) (id : TurnId)
  /-- The context is fixed and stored; the prompt is being built. -/
  | building (job : FinalTranscript)
  /-- The turn-started hook has run. -/
  | hooked (job : FinalTranscript)
  /-- `LlmStarted` is published; the stream is running. -/
  | streaming (reply : Reply)
  /-- The thread has returned. -/
  | stopped
deriving DecidableEq, Repr

structure Manager where
  cfg : ManagerConfig := {}
  session : Nat := 0
  active : TurnContext := {}
  pending : Option FinalTranscript := none
  stopping : Bool := false
  gatedTurns : Nat := 0
  io : IoPc := .idle
  published : List Event := []
deriving DecidableEq, Repr

namespace Manager

def publish (e : Event) (m : Manager) : Manager := { m with published := m.published ++ [e] }

/-! ## The subscription thread -/

def cancelActive (target : TurnId) (m : Manager) : Manager :=
  if m.active.valid = false then m
  else if target ≠ kNoTurn ∧ target ≠ m.active.id then m
  else { m with active := m.active.cancelToken }

/-- A pending job that was not taken yet is superseded. -/
def enqueueTurn (e : FinalTranscript) (m : Manager) : Manager := { m with pending := some e }

/-- `gateOpen` is the answer of the pipeline gate, true when none is installed or
when it throws. -/
def onFinalTranscript (now : TimePoint) (gateOpen : Bool) (e : FinalTranscript)
    (m : Manager) : Manager :=
  if 0 < m.cfg.minRealUtteranceChars ∧
      normalisedVisibleChars e.text < m.cfg.minRealUtteranceChars then
    m.publish (.userInterrupted { turn := e.turn, ts := now })
  else if gateOpen = false then
    { m.publish (.userInterrupted { turn := e.turn, ts := now }) with
      gatedTurns := m.gatedTurns + 1 }
  else m.enqueueTurn e

def onEvent (now : TimePoint) (gateOpen : Bool) (e : Event) (m : Manager) : Manager :=
  match e with
  | .finalTranscript e => m.onFinalTranscript now gateOpen e
  | .userInterrupted e => m.cancelActive e.turn
  | .cancelGeneration e => m.cancelActive e.turn
  | _ => m

theorem cancelActive_io (target : TurnId) (m : Manager) : (m.cancelActive target).io = m.io := by
  unfold cancelActive
  split
  · rfl
  · split <;> rfl

theorem cancelActive_published (target : TurnId) (m : Manager) :
    (m.cancelActive target).published = m.published := by
  unfold cancelActive
  split
  · rfl
  · split <;> rfl

theorem onFinalTranscript_active (now : TimePoint) (gateOpen : Bool) (e : FinalTranscript)
    (m : Manager) : (m.onFinalTranscript now gateOpen e).active = m.active := by
  unfold onFinalTranscript
  split
  · rfl
  · split <;> rfl

/-- The subscription thread never moves the I/O thread. -/
theorem onEvent_io (now : TimePoint) (gateOpen : Bool) (e : Event) (m : Manager) :
    (m.onEvent now gateOpen e).io = m.io := by
  cases e with
  | finalTranscript e =>
      simp only [onEvent, onFinalTranscript]
      split
      · rfl
      · split <;> rfl
  | userInterrupted e => exact cancelActive_io e.turn m
  | cancelGeneration e => exact cancelActive_io e.turn m
  | _ => rfl

/-- `stop()` up to the notification of the I/O thread. -/
def requestStop (m : Manager) : Manager := { m.cancelActive kNoTurn with stopping := true }

/-! ## The I/O thread -/

/-- One round of `io_loop` up to the call of `run_one`. -/
def takeJob (m : Manager) : Option Manager :=
  match m.io, m.pending with
  | .idle, some job => some { m with pending := none, io := .took job }
  | .idle, none => if m.stopping = true then some { m with io := .stopped } else none
  | _, _ => none

/-- The provider's answer, `kNoTurn` when no provider is set. -/
def askProvider (id : TurnId) (m : Manager) : Option Manager :=
  match m.io with
  | .took job => some { m with io := .asked job id }
  | _ => none

/-- Adopt the id, or mint one if there is none, and make the context the active one. -/
def fixTurn (turns : TurnFactory) (m : Manager) : Option (Manager × TurnFactory) :=
  match m.io with
  | .asked job id =>
      if id ≠ kNoTurn then some ({ m with active := turns.adopt id, io := .building job }, turns)
      else some ({ m with active := turns.mint.1, io := .building job }, turns.mint.2)
  | _ => none

def replyLang (m : Manager) (job : FinalTranscript) : Bytes :=
  if job.lang = [] then m.cfg.fallbackLanguage else job.lang

/-- The prompt is built and the turn-started hook is called with the turn's id. -/
def runHook (m : Manager) : Option (Manager × TurnId) :=
  match m.io with
  | .building job => some ({ m with io := .hooked job }, m.active.id)
  | _ => none

def newReply (m : Manager) (job : FinalTranscript) : Reply :=
  { turn := m.active.id
    lang := m.replyLang job
    cap := m.cfg.maxAssistantSentences
    splitter := { cfg := m.cfg.sentenceSplitter } }

/-- Publish `LlmStarted` and enter `submit`. -/
def startStream (m : Manager) : Option Manager :=
  match m.io with
  | .hooked job =>
      some { m.publish (.llmStarted { turn := m.active.id }) with
        io := .streaming (m.newReply job) }
  | _ => none

/-- Store the reply after a callback: what it published is on the bus, and the token is
cancelled where the cap asked for it. -/
def setReply (r r' : Reply) (m : Manager) : Manager :=
  { m with
    io := .streaming r'
    active := if r'.capState = .cancelled then m.active.cancelToken else m.active
    published := m.published ++ r'.published.drop r.published.length }

/-- The token callback that `run_one` hands to `submit`. -/
def tokenCallback (delta : Bytes) (m : Manager) : Manager :=
  match m.io with
  | .streaming r => m.setReply r (r.onToken delta)
  | _ => m

/-- The finish callback; the finish record is only logged. -/
def finishCallback (m : Manager) : Manager :=
  match m.io with
  | .streaming r => m.setReply r r.onFinished
  | _ => m

/-- The token of the run is cancelled. -/
def tokenCancelled (m : Manager) : Bool :=
  (m.active.token.map CancellationToken.isCancelled).getD false

/-- The stream delivers a token. -/
def onToken (delta : Bytes) (m : Manager) : Option Manager :=
  match m.io with
  | .streaming _ => some (m.tokenCallback delta)
  | _ => none

/-- The end of `run_one`. -/
def endRun (m : Manager) : Manager := { m with active := {}, io := .idle }

/-- The stream is over: the finish callback runs, and `submit` publishes the end. -/
def finishStream (tokensGenerated : Nat) (m : Manager) : Option Manager :=
  match m.io with
  | .streaming r =>
      some (m.finishCallback.publish (.llmFinished
        { turn := r.turn, cancelled := m.tokenCancelled,
          tokensGenerated := tokensGenerated })).endRun
  | _ => none

/-- `submit` when libcurl has no handle: the finish callback runs, and nothing is
published. -/
def abortStream (m : Manager) : Option Manager :=
  match m.io with
  | .streaming _ => some m.finishCallback.endRun
  | _ => none

end Manager

end Acva.Dialogue
