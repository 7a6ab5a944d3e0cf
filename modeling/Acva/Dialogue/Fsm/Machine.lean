import Acva.Dialogue.Turn

/-! # The dialogue state machine

One worker thread serves every handler, so an event is handled to its end before
the next one starts. The observers, the bus and the turn factory are outside the
machine; what the handlers do to them is recorded in the order it is done. Log
lines are left out.
-/

namespace Acva.Dialogue

inductive State
  | idle
  | listening
  | userSpeaking
  | transcribing
  | thinking
  | speaking
  | completed
  | interrupted
deriving DecidableEq, Repr

inductive TurnOutcome
  | notStarted
  | generating
  | speaking
  | interrupted
  | completed
  | discarded
deriving DecidableEq, Repr

/-- What `snapshot()` shows to other threads. -/
structure FsmSnapshot where
  state : State := .idle
  activeTurn : TurnId := kNoTurn
  outcome : TurnOutcome := .notStarted
  sentencesPlayed : UInt32 := 0
  turnsCompleted : Nat := 0
  turnsInterrupted : Nat := 0
  turnsDiscarded : Nat := 0
  enteredSpeakingAt : TimePoint := 0
deriving DecidableEq, Repr

/-- The private fields, and the calls made to the two observers and to the bus. -/
structure Fsm where
  state : State := .idle
  active : TurnContext := {}
  outcome : TurnOutcome := .notStarted
  sentencesPlayed : UInt32 := 0
  sentencesReceived : UInt32 := 0
  llmFinishedSeen : Bool := false
  turnsCompleted : Nat := 0
  turnsInterrupted : Nat := 0
  turnsDiscarded : Nat := 0
  enteredSpeakingAt : TimePoint := 0
  outcomeCalls : List String := []
  stateCalls : List (State × State) := []
  published : List Event := []
deriving DecidableEq, Repr

namespace Fsm

def snapshot (s : Fsm) : FsmSnapshot where
  state := s.state
  activeTurn := s.active.id
  outcome := s.outcome
  sentencesPlayed := s.sentencesPlayed
  turnsCompleted := s.turnsCompleted
  turnsInterrupted := s.turnsInterrupted
  turnsDiscarded := s.turnsDiscarded
  enteredSpeakingAt := s.enteredSpeakingAt

/-- The clock is read only on entry to `Speaking`; the observer sees real changes only. -/
def transition (next : State) (now : TimePoint) (s : Fsm) : Fsm :=
  { s with
    state := next
    enteredSpeakingAt :=
      if s.state ≠ .speaking ∧ next = .speaking then now else s.enteredSpeakingAt
    stateCalls := if s.state ≠ next then s.stateCalls ++ [(s.state, next)] else s.stateCalls }

/-- The states from which a `SpeechStarted` begins a turn. -/
def startsTurn (s : Fsm) : Bool :=
  s.state = .listening || s.state = .completed || s.state = .interrupted

/-- The turn a `SpeechStarted` begins, once `ctx` is minted for it. -/
def beginTurn (ctx : TurnContext) (now : TimePoint) (s : Fsm) : Fsm :=
  transition .userSpeaking now
    { s with
      active := ctx
      outcome := .notStarted
      sentencesPlayed := 0
      sentencesReceived := 0
      llmFinishedSeen := false }

def handleSpeechEnded (now : TimePoint) (s : Fsm) : Fsm :=
  if s.state = .userSpeaking then s.transition .transcribing now else s

def handleFinalTranscript (now : TimePoint) (s : Fsm) : Fsm :=
  if s.state = .transcribing then
    transition .thinking now { s with outcome := .generating }
  else s

/-- The event's turn is not looked at. -/
def handleLlmSentence (now : TimePoint) (s : Fsm) : Fsm :=
  let received := { s with sentencesReceived := s.sentencesReceived + 1 }
  if s.state = .thinking then
    transition .speaking now { received with outcome := .speaking }
  else received

/-- Count the turn as completed and pass through `Completed` to `Listening`. -/
def completeTurn (now : TimePoint) (s : Fsm) : Fsm :=
  let counted := { s with
    outcome := .completed
    turnsCompleted := s.turnsCompleted + 1
    outcomeCalls := s.outcomeCalls ++ ["completed"] }
  (counted.transition .completed now).transition .listening now

/-- The event's turn is not looked at. -/
def handleLlmFinished (now : TimePoint) (s : Fsm) : Fsm :=
  let seen := { s with llmFinishedSeen := true }
  if s.state = .thinking ∧ s.sentencesReceived = 0 then seen.completeTurn now
  else if s.state = .speaking ∧ s.sentencesPlayed = s.sentencesReceived then seen.completeTurn now
  else seen

def handlePlaybackFinished (e : PlaybackFinished) (now : TimePoint) (s : Fsm) : Fsm :=
  -- stale playback of a previous turn
  if e.turn ≠ s.active.id then s
  else
    let played := { s with sentencesPlayed := s.sentencesPlayed + 1 }
    if played.state = .speaking ∧ played.llmFinishedSeen = true ∧
        played.sentencesPlayed = played.sentencesReceived then
      played.completeTurn now
    else played

/-- The cancellation cascade. The event's turn is only logged by the source. -/
def handleUserInterrupted (now : TimePoint) (s : Fsm) : Fsm :=
  if s.state = .listening ∨ s.state = .idle then s
  else
    let cancelled := { s with
      active := s.active.cancelToken
      published := s.published ++ [Event.cancelGeneration { turn := s.active.id }] }
    let counted :=
      if 1 ≤ s.sentencesPlayed then
        { cancelled with
          outcome := .interrupted
          turnsInterrupted := s.turnsInterrupted + 1
          outcomeCalls := s.outcomeCalls ++ ["interrupted"] }
      else
        { cancelled with
          outcome := .discarded
          turnsDiscarded := s.turnsDiscarded + 1
          outcomeCalls := s.outcomeCalls ++ ["discarded"] }
    (counted.transition .interrupted now).transition .listening now

end Fsm

/-- The machine together with the factory it mints from. -/
structure FsmHost where
  turns : TurnFactory := {}
  fsm : Fsm := {}
deriving DecidableEq, Repr

namespace FsmHost

/-- `start()` once the subscription exists. -/
def start (now : TimePoint) (h : FsmHost) : FsmHost :=
  { h with fsm := h.fsm.transition .listening now }

def handleSpeechStarted (now : TimePoint) (h : FsmHost) : FsmHost :=
  if h.fsm.startsTurn = true then
    { turns := h.turns.mint.2, fsm := h.fsm.beginTurn h.turns.mint.1 now }
  else h

/-- Update the machine and leave the factory alone. -/
def onFsm (f : Fsm → Fsm) (h : FsmHost) : FsmHost := { h with fsm := f h.fsm }

def onEvent (now : TimePoint) (e : Event) (h : FsmHost) : FsmHost :=
  match e with
  | .speechStarted _ => h.handleSpeechStarted now
  | .speechEnded _ => h.onFsm (Fsm.handleSpeechEnded now)
  | .finalTranscript _ => h.onFsm (Fsm.handleFinalTranscript now)
  | .llmSentence _ => h.onFsm (Fsm.handleLlmSentence now)
  | .llmFinished _ => h.onFsm (Fsm.handleLlmFinished now)
  | .playbackFinished e => h.onFsm (Fsm.handlePlaybackFinished e now)
  | .userInterrupted _ => h.onFsm (Fsm.handleUserInterrupted now)
  | _ => h

/-- An event together with the clock reading of its handling. -/
abbrev Timed := TimePoint × Event

def onEvents (h : FsmHost) (es : List Timed) : FsmHost :=
  es.foldl (fun h e => h.onEvent e.1 e.2) h

/-- Hosts that arise by handling events in any order. The worker may handle events
before `start` leaves `Idle`, and other components may mint between two events. -/
inductive Reachable : FsmHost → Prop
  | init : Reachable {}
  | start {h : FsmHost} (now : TimePoint) (hr : Reachable h) (hidle : h.fsm.state = .idle) :
      Reachable (h.start now)
  | event {h : FsmHost} (now : TimePoint) (e : Event) (hr : Reachable h) :
      Reachable (h.onEvent now e)
  | mint {h : FsmHost} (hr : Reachable h) : Reachable { h with turns := h.turns.mint.2 }

end FsmHost

end Acva.Dialogue
