import Acva.Core.Json
import Acva.Core.Runs
import Acva.Dialogue.Fsm.Calculus

/-! # The fake driver

It publishes made-up turns on a thread of its own until it is stopped. It counts turns by
itself, and the machine counts those it mints: the two agree as long as nobody else speaks.
A turn is a list of steps. Between two sleeps nothing is looked at, so a sleep is left out
unless the flag is looked at behind it; how long it takes does not matter.
-/

namespace Acva.Pipeline

open Acva.Dialogue Acva.Json Acva.Runs

/-- The times are left out. -/
structure FakeDriverOptions where
  sentencesPerTurn : UInt32 := 3
  suppressSpeechEvents : Bool := false
deriving DecidableEq, Repr

/-- The clock, where a turn reads it. -/
structure Readings where
  started : TimePoint := 0
  ended : TimePoint := 0
  interrupted : TimePoint := 0
deriving DecidableEq, Repr

/-- At a checkpoint the turn is left if the driver is stopped. At the head of the loop over
the sentences `s` is the one that is next. -/
inductive DriverStep
  | publish (e : Event)
  | checkpoint
  | sentences (s : UInt32)
deriving DecidableEq, Repr

namespace FakeDriverOptions

def speechEvent (opts : FakeDriverOptions) (e : Event) : List DriverStep :=
  if opts.suppressSpeechEvents = true then [] else [.publish e]

/-- Up to the first sentence. -/
def question (opts : FakeDriverOptions) (at' : Readings) (text : Bytes) (turn : TurnId) :
    List DriverStep :=
  opts.speechEvent (.speechStarted { turn := turn, ts := at'.started }) ++ .checkpoint ::
    (opts.speechEvent (.speechEnded { turn := turn, ts := at'.ended }) ++
      [.checkpoint, .publish (.finalTranscript { turn := turn, text := text, lang := ascii "en" }),
        .publish (.llmStarted { turn := turn }), .checkpoint])

/-- A sentence is synthesized and played. -/
def spoken (turn : TurnId) (seq : SequenceNo) : List Event :=
  [.ttsStarted { turn := turn, seq := seq },
    .ttsAudioChunk { turn := turn, seq := seq, bytes := 1024 },
    .ttsFinished { turn := turn, seq := seq }, .playbackStarted { turn := turn, seq := seq }]

def sentence (turn : TurnId) (seq : SequenceNo) : List DriverStep :=
  .publish (.llmSentence {
      turn := turn
      seq := seq
      text := ascii "This is synthetic sentence " ++ decimal seq ++ ascii " of turn " ++
        decimal turn ++ ascii "."
      lang := ascii "en" }) ::
    .checkpoint :: ((spoken turn seq).map .publish ++
      [.checkpoint, .publish (.playbackFinished { turn := turn, seq := seq }), .checkpoint])

def runOneTurn (opts : FakeDriverOptions) (at' : Readings) (turn : TurnId) : List DriverStep :=
  opts.question at' (ascii "what is the weather today") turn ++
    [.sentences 1, .publish (.llmFinished {
      turn := turn
      tokensGenerated := (opts.sentencesPerTurn * 12).toNat })]

def runOneTurnWithBargeIn (opts : FakeDriverOptions) (at' : Readings) (turn : TurnId) :
    List DriverStep :=
  opts.question at' (ascii "longer question please answer at length") turn ++
    .publish (.llmSentence {
      turn := turn
      seq := 1
      text := ascii "I am about to be cut off mid-sentence by an impatient user."
      lang := ascii "en" }) ::
    ((spoken turn 1).map .publish ++
      [.publish (.playbackFinished { turn := turn, seq := 1 }),
        .publish (.userInterrupted { turn := turn, ts := at'.interrupted }),
        -- what is late
        .publish (.llmSentence {
          turn := turn
          seq := 2
          text := ascii "stale sentence"
          lang := ascii "en" }),
        .publish (.playbackFinished { turn := turn, seq := 2 }),
        .publish (.llmFinished { turn := turn, cancelled := true, tokensGenerated := 12 })])

end FakeDriverOptions

/-! ## The loop -/

/-- `call` is what is left of the turn the worker is in; `finished` says that it has left its
loop. -/
structure FakeDriver where
  running : Bool := true
  turn : TurnId := 1
  turnsEmitted : Nat := 0
  call : Option (List DriverStep) := none
  finished : Bool := false
  published : List Event := []
deriving DecidableEq, Repr

inductive DriverAction
  /-- The worker is at the top of its loop, and has drawn. -/
  | begin (bargeIn : Bool) (at' : Readings)
  | advance
  | stop
deriving DecidableEq, Repr

namespace FakeDriver

def step (opts : FakeDriverOptions) (d : FakeDriver) : DriverAction → Option FakeDriver
  | .begin bargeIn at' =>
      if d.finished = true ∨ d.call ≠ none then none
      else if d.running = false then some { d with finished := true }
      else some { d with
        call := some (if bargeIn = true then opts.runOneTurnWithBargeIn at' d.turn
          else opts.runOneTurn at' d.turn) }
  | .advance =>
      match d.call with
      | some (.publish e :: rest) => some { d with
          call := some rest
          published := d.published ++ [e] }
      | some (.checkpoint :: rest) => some { d with
          call := some (if d.running = true then rest else []) }
      -- with the greatest number of sentences there is the loop never ends
      | some (.sentences s :: rest) => some { d with
          call := some (if s ≤ opts.sentencesPerTurn then
              FakeDriverOptions.sentence d.turn s.toNat ++ .sentences (s + 1) :: rest
            else rest) }
      | some [] =>
          if d.running = false then some { d with
            call := none
            finished := true }
          else some { d with
            call := none
            turn := d.turn + 1
            turnsEmitted := d.turnsEmitted + 1 }
      | none => none
  | .stop => some { d with running := false }

/-- What was drawn for the turns so far. -/
def noteDraw (draws : List Bool) (d : FakeDriver) : DriverAction → List Bool
  | .begin bargeIn _ => if d.running = true then draws ++ [bargeIn] else draws
  | _ => draws

end FakeDriver

/-- What the machine reports of a turn. -/
def outcomeOf (bargeIn : Bool) : String := if bargeIn = true then "interrupted" else "completed"

end Acva.Pipeline
