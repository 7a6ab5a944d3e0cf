import Acva.Audio.Resampler
import Acva.Dialogue.CancellationToken

/-! # The realtime STT client

The per-utterance half of the client; bringing the session up is left out. Every
operation holds the mutex for what it does to the client, and sends its messages
and calls back after it has let go of it: these are its result, in the order they
are done. The wire formats (the envelope, base64, JSON) are left out.
-/

namespace Acva.Stt

open Acva.Audio Acva.Dialogue Acva.Playback

inductive RealtimeState
  | idle
  | connecting
  | configuring
  | ready
  | failed
  | closed
deriving DecidableEq, Repr

/-- The call of `begin_utterance` that an utterance comes from. -/
abbrev UtteranceId := Nat

/-- Which of the functions are set, and the utterance they report on. -/
structure UtteranceCallbacks where
  owner : UtteranceId := 0
  onPartial : Bool := false
  onFinal : Bool := false
  onError : Bool := false
deriving DecidableEq, Repr

/-- A call of one of the functions of an utterance. -/
inductive Callback
  | onPartial (owner : UtteranceId) (ev : PartialTranscript)
  | onFinal (owner : UtteranceId) (ev : FinalTranscript)
  | onError (owner : UtteranceId) (err : Bytes)
deriving DecidableEq, Repr

/-- A message to the server. The wire does not say which utterance a message is of. -/
inductive ClientMessage
  | clear (owner : UtteranceId)
  | append (samples : List Sample)
  | commit (owner : UtteranceId)
deriving DecidableEq, Repr

/-- What an operation does once it has let go of the mutex. -/
inductive AfterLock
  | send (m : ClientMessage)
  | call (c : Callback)
deriving DecidableEq, Repr

/-- What the server reports, as `dispatch` reads it. -/
inductive ServerEvent
  | delta (itemId delta : Bytes)
  | completed (itemId transcript language : Bytes)
  | committed (itemId : Bytes)
  | sessionUpdated
  | error (message : Bytes)
deriving DecidableEq, Repr

/-- `channel` says that there is a data channel. -/
structure RealtimeSttClient (ρ : Type) where
  cfgLanguage : Bytes := []
  state : RealtimeState := .idle
  channel : Bool := false
  activeTurn : TurnId := kNoTurn
  activeCancel : Option TokenRef := none
  activeCb : UtteranceCallbacks := {}
  active : Bool := false
  activeItemId : Bytes := []
  partialText : Bytes := []
  partialSeq : SequenceNo := 0
  resampler : Option ρ := none
deriving DecidableEq, Repr

namespace RealtimeSttClient

variable {ρ : Type}

def kInputSampleRate : Nat := 16000

def kSpeachesPcmRate : Nat := 24000

def clearActive (c : RealtimeSttClient ρ) : RealtimeSttClient ρ :=
  { c with
    active := false
    activeTurn := kNoTurn
    activeItemId := []
    partialText := []
    partialSeq := 0
    activeCb := {}
    activeCancel := none
    resampler := none }

/-- There is a token and it is cancelled. -/
def cancelled (pool : TokenPool) (c : RealtimeSttClient ρ) : Bool :=
  c.activeCancel.any fun tok => pool.isCancelled tok

/-! ## The calls -/

def beginUtterance (soxr : Soxr ρ) (turn : TurnId) (cancel : Option TokenRef)
    (cb : UtteranceCallbacks) (c : RealtimeSttClient ρ) : RealtimeSttClient ρ × List AfterLock :=
  if c.state ≠ .ready then
    (c, if cb.onError = true then
      [.call (.onError cb.owner (ascii "realtime stt session not Ready"))] else [])
  else
    ({ c.clearActive with
      active := true
      activeTurn := turn
      activeCancel := cancel
      activeCb := cb
      resampler := some (soxr.create kInputSampleRate kSpeachesPcmRate) },
      if c.channel = true then [.send (.clear cb.owner)] else [])

/-- The resampler that audio is pushed into, if any. -/
def listening (pool : TokenPool) (c : RealtimeSttClient ρ) : Option ρ :=
  if c.active = false ∨ c.cancelled pool = true then none else c.resampler

def pushAudio (soxr : Soxr ρ) (pool : TokenPool) (samples : List Sample)
    (c : RealtimeSttClient ρ) : RealtimeSttClient ρ × List AfterLock :=
  match c.listening pool with
  | none => (c, [])
  | some r =>
      let (resampled, r) := soxr.resample samples r
      ({ c with resampler := some r },
        if resampled = [] ∨ c.channel = false then [] else [.send (.append resampled)])

/-- An exception of the flush ends the call. -/
def endUtterance (soxr : Soxr ρ) (c : RealtimeSttClient ρ) :
    RealtimeSttClient ρ × List AfterLock :=
  if c.active = false then (c, [])
  else
    match c.resampler.bind soxr.flush with
    | none => (c, [])
    | some tail =>
        ({ c with resampler := none },
          if c.channel = false then []
          else
            (if tail = [] then [] else [.send (.append tail)]) ++
              [.send (.commit c.activeCb.owner)])

def stop (c : RealtimeSttClient ρ) : RealtimeSttClient ρ :=
  if c.state = .idle ∨ c.state = .closed then c
  else { c with state := .closed }.clearActive

/-- The peer connection failed, closed or disconnected. -/
def connectionLost (c : RealtimeSttClient ρ) : RealtimeSttClient ρ :=
  if c.state ≠ .ready ∧ c.state ≠ .closed then { c with state := .failed } else c

/-! ## The dispatcher's callbacks -/

def onSessionUpdated (c : RealtimeSttClient ρ) : RealtimeSttClient ρ :=
  if c.state = .configuring then { c with state := .ready } else c

def onCommitted (itemId : Bytes) (c : RealtimeSttClient ρ) : RealtimeSttClient ρ :=
  if c.active = true then { c with activeItemId := itemId } else c

def onPartial (pool : TokenPool) (itemId delta : Bytes) (c : RealtimeSttClient ρ) :
    RealtimeSttClient ρ × List AfterLock :=
  if c.active = false ∨ itemId ≠ c.activeItemId then (c, [])
  else if c.cancelled pool = true then (c, [])
  else
    let text := c.partialText ++ delta
    let ev : PartialTranscript := {
      turn := c.activeTurn
      text := text
      stablePrefixLen := text.length
      seq := c.partialSeq + 1 }
    ({ c with partialText := text, partialSeq := c.partialSeq + 1 },
      if c.activeCb.onPartial = true then [.call (.onPartial c.activeCb.owner ev)] else [])

def onFinal (pool : TokenPool) (itemId transcript language : Bytes) (c : RealtimeSttClient ρ) :
    RealtimeSttClient ρ × List AfterLock :=
  if c.active = false ∨ itemId ≠ c.activeItemId then (c, [])
  else if c.cancelled pool = true then (c.clearActive, [])
  else
    let ev : FinalTranscript := {
      turn := c.activeTurn
      text := transcript
      lang := if language ≠ [] then language else c.cfgLanguage }
    (c.clearActive,
      if c.activeCb.onFinal = true then [.call (.onFinal c.activeCb.owner ev)] else [])

def onServerError (message : Bytes) (c : RealtimeSttClient ρ) :
    RealtimeSttClient ρ × List AfterLock :=
  if c.active = true then
    (c.clearActive,
      if c.activeCb.onError = true then [.call (.onError c.activeCb.owner message)] else [])
  else (c, [])

/-- Empty ids and deltas do not reach the callbacks. -/
def dispatch (pool : TokenPool) (e : ServerEvent) (c : RealtimeSttClient ρ) :
    RealtimeSttClient ρ × List AfterLock :=
  match e with
  | .delta itemId delta =>
      if itemId = [] ∨ delta = [] then (c, []) else c.onPartial pool itemId delta
  | .completed itemId transcript language =>
      if itemId = [] then (c, []) else c.onFinal pool itemId transcript language
  | .committed itemId => (if itemId = [] then c else c.onCommitted itemId, [])
  | .sessionUpdated => (c.onSessionUpdated, [])
  | .error message => c.onServerError message

end RealtimeSttClient

end Acva.Stt
