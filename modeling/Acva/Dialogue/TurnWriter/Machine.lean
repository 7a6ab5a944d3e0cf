import Acva.Core.Slots
import Acva.Memory.Repository
import Mathlib.Algebra.Group.Nat.Defs
import Mathlib.Logic.Function.Basic

/-! # The turn writer

Follows the assistant turns from `LlmStarted` to `LlmFinished` on one
subscription thread, and posts the rows to write to the memory thread. A posted
job is kept with the turn it is about, which the row itself does not carry. A
position is an unsigned number of 32 bits, and the size that makes room for it is
counted in as many. What is written past the end of a vector is `none` here.
-/

namespace Acva.Dialogue

open Acva.Memory

/-- What is known of an assistant turn in flight; `played` mirrors `sentences`. -/
structure AssistantState where
  sentences : List Bytes := []
  played : List Bool := []
  lang : Bytes := []
  startedAt : UnixMs := 0
deriving DecidableEq, Repr

/-- A job on its way to the memory thread. -/
structure PostedTurn where
  turn : TurnId
  job : InsertTurnJob
deriving DecidableEq, Repr

structure TurnWriter where
  session : SessionId := 0
  inFlight : TurnId → Option AssistantState := fun _ => none
  posted : List PostedTurn := []

/-- `seq + 1`, which is zero for the last position there is. -/
def sizeFor (seq : SequenceNo) : Nat := (seq + 1) % 2 ^ 32

namespace AssistantState

def resize (n : Nat) (st : AssistantState) : AssistantState :=
  { st with
    sentences := Slots.resize n [] st.sentences
    played := Slots.resize n false st.played }

/-- Make room for a position in both vectors, by the length of one of them. -/
def fit (length : Nat) (seq : SequenceNo) (st : AssistantState) : AssistantState :=
  if length ≤ seq then st.resize (sizeFor seq) else st

def addSentence (e : LlmSentence) (st : AssistantState) : Option AssistantState :=
  let st := { st with lang := if st.lang = [] then e.lang else st.lang }
  let st := st.fit st.sentences.length e.seq
  if e.seq < st.sentences.length then
    some { st with sentences := st.sentences.set e.seq e.text }
  else none

def markPlayed (seq : SequenceNo) (st : AssistantState) : Option AssistantState :=
  let st := st.fit st.played.length seq
  if seq < st.played.length then some { st with played := st.played.set seq true } else none

/-- The sentence `i`, if it is to be persisted. -/
def persisted (cancelled : Bool) (st : AssistantState) (i : Nat) : Option Bytes :=
  let s := st.sentences.getD i []
  if s = [] then none
  else if cancelled = true ∧ st.played.getD i false = false then none
  else some s

def persistedTexts (cancelled : Bool) (st : AssistantState) : List Bytes :=
  Slots.occupied (st.persisted cancelled) st.sentences.length

end AssistantState

/-- The `std::optional` of a language that may be empty. -/
def langColumn (lang : Bytes) : Option Bytes := if lang = [] then none else some lang

/-- Texts of one turn as one text. -/
def joinSentences (texts : List Bytes) : Bytes := Slots.join (byte ' ') texts

namespace TurnWriter

def post (turn : TurnId) (job : InsertTurnJob) (w : TurnWriter) : TurnWriter :=
  { w with posted := w.posted ++ [{ turn := turn, job := job }] }

/-- The row of a user turn. -/
def handleFinal (now : UnixMs) (e : FinalTranscript) (w : TurnWriter) : TurnWriter :=
  if w.session = 0 then w
  else if e.text = [] then w
  else
    w.post e.turn
      { session := w.session
        role := .user
        text := e.text
        lang := langColumn e.lang
        startedAt := now
        status := .committed
        endedAt := none
        interruptedAt := none }

/-- `try_emplace`: a turn in flight is kept as it is. -/
def handleStarted (now : UnixMs) (e : LlmStarted) (w : TurnWriter) : TurnWriter :=
  match w.inFlight e.turn with
  | some _ => w
  | none => { w with inFlight := Function.update w.inFlight e.turn (some { startedAt := now }) }

/-- `in_flight_[turn]` creates the entry if there is none. -/
def handleSentence (e : LlmSentence) (w : TurnWriter) : Option TurnWriter :=
  (((w.inFlight e.turn).getD {}).addSentence e).map fun st =>
    { w with inFlight := Function.update w.inFlight e.turn (some st) }

def handlePlaybackFinished (e : PlaybackFinished) (w : TurnWriter) : Option TurnWriter :=
  match w.inFlight e.turn with
  | none => some w
  | some st =>
      (st.markPlayed e.seq).map fun st =>
        { w with inFlight := Function.update w.inFlight e.turn (some st) }

/-- The row of an assistant turn: everything if it ran to its end, what was played if it
was cancelled. -/
def assistantJob (session : SessionId) (now : UnixMs) (cancelled : Bool) (st : AssistantState) :
    InsertTurnJob :=
  let texts := st.persistedTexts cancelled
  { session := session
    role := .assistant
    text := joinSentences texts
    lang := langColumn st.lang
    startedAt := st.startedAt
    status := if cancelled = true then .interrupted else .committed
    endedAt := some now
    interruptedAt := if cancelled = true then some (texts.length : Int) else none }

def handleFinished (now : UnixMs) (e : LlmFinished) (w : TurnWriter) : TurnWriter :=
  match w.inFlight e.turn with
  | none => w
  | some st =>
      let w := { w with inFlight := Function.update w.inFlight e.turn none }
      if w.session = 0 then w
      -- cancelled before any sentence was played
      else if e.cancelled = true ∧ st.persistedTexts e.cancelled = [] then w
      else w.post e.turn (assistantJob w.session now e.cancelled st)

/-- `UserInterrupted` is not among the events looked at. -/
def onEvent (now : UnixMs) (e : Event) (w : TurnWriter) : Option TurnWriter :=
  match e with
  | .finalTranscript e => some (w.handleFinal now e)
  | .llmStarted e => some (w.handleStarted now e)
  | .llmSentence e => w.handleSentence e
  | .llmFinished e => some (w.handleFinished now e)
  | .playbackFinished e => w.handlePlaybackFinished e
  | _ => some w

def onEvents (w : TurnWriter) (es : List (UnixMs × Event)) : Option TurnWriter :=
  es.foldlM (fun w e => w.onEvent e.1 e.2) w

end TurnWriter

end Acva.Dialogue
