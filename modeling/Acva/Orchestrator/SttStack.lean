import Acva.Audio.Pipeline
import Acva.Event.BoundedQueue
import Acva.Stt.RealtimeSession

/-! # The streaming STT stack

The pipeline's thread calls the client for the audio and publishes where an
utterance begins and ends; two subscriptions, each with a queue and a worker of
its own, call the client for that. Utterances are numbered as they start, and the
queues hold the number that an event is about.
-/

namespace Acva.Orchestrator

open Acva.Audio Acva.Bus Acva.Playback Acva.Runs Acva.Stt

abbrev UtteranceNo := Nat

/-- `todo` is what the pipeline's thread has still to do for its frame, with the number of
the utterance that it is about. -/
structure SttStack (ρ σ : Type) where
  pipeline : AudioPipeline ρ
  todo : List (UtteranceNo × PipelineOutput) := []
  utterances : UtteranceNo := 0
  started : BoundedQueue UtteranceNo
  ended : BoundedQueue UtteranceNo
  session : RealtimeSession σ := {}

inductive SttAction
  | pipeline (a : PipelineAction)
  /-- The pipeline's thread goes on with its frame. -/
  | output
  /-- A worker takes an event and calls the client. -/
  | startedWorker
  | endedWorker
  /-- A thread that is in a call, the data channel, the connection, or `stop`. -/
  | session (a : SessionAction)

namespace SttStack

variable {ρ σ : Type}

def pipelineThread : Nat := 0

def startedThread : Nat := 1

def endedThread : Nat := 2

/-- The functions that the wiring sets. -/
def wiredCallbacks : UtteranceCallbacks where
  onPartial := true
  onFinal := true
  onError := true

/-- The frame starts an utterance. -/
def startsUtterance (outs : List PipelineOutput) : Bool :=
  outs.any fun
    | .publish (.speechStarted _) => true
    | _ => false

def onFrame (ext : FrontEnd ρ) (frame : AudioFrame) (s : SttStack ρ σ) : Option (SttStack ρ σ) :=
  if s.todo = [] ∧ s.session.callers pipelineThread = [] then
    (s.pipeline.processFrame ext frame).map fun (pipeline, outs) =>
      let number := if startsUtterance outs = true then s.utterances + 1 else s.utterances
      { s with
        pipeline := pipeline
        utterances := number
        todo := outs.map fun out => (number, out) }
  else none

/-- The next output of the frame; a slice has no subscriber here. -/
def onOutput (soxr : Soxr σ) (s : SttStack ρ σ) : Option (SttStack ρ σ) :=
  if s.session.callers pipelineThread ≠ [] then none
  else
    match s.todo with
    | [] => none
    | (_, .live samples) :: rest =>
        (s.session.step soxr (.pushAudio pipelineThread samples)).map fun session =>
          { s with session := session, todo := rest }
    | (number, .publish (.speechStarted _)) :: rest =>
        (s.started.push number).map fun r => { s with started := r.2, todo := rest }
    | (number, .publish (.speechEnded _)) :: rest =>
        (s.ended.push number).map fun r => { s with ended := r.2, todo := rest }
    | _ :: rest => some { s with todo := rest }

/-- The token of an utterance is its own, and nothing cancels it. -/
def onStarted (soxr : Soxr σ) (s : SttStack ρ σ) : Option (SttStack ρ σ) :=
  match s.started.pop with
  | some (some _, queue) =>
      let session := { s.session with pool := s.session.pool.make.2 }
      (session.step soxr (.beginUtterance startedThread kNoTurn (some s.session.pool.make.1)
        wiredCallbacks)).map fun session => { s with session := session, started := queue }
  | _ => none

def onEnded (soxr : Soxr σ) (s : SttStack ρ σ) : Option (SttStack ρ σ) :=
  match s.ended.pop with
  | some (some _, queue) =>
      (s.session.step soxr (.endUtterance endedThread)).map fun session =>
        { s with session := session, ended := queue }
  | _ => none

def step (ext : FrontEnd ρ) (soxr : Soxr σ) (s : SttStack ρ σ) :
    SttAction → Option (SttStack ρ σ)
  | .pipeline (.frame frame) => s.onFrame ext frame
  | .pipeline a => (s.pipeline.step ext a).map fun pipeline => { s with pipeline := pipeline }
  | .output => s.onOutput soxr
  | .startedWorker => s.onStarted soxr
  | .endedWorker => s.onEnded soxr
  | .session (.beginUtterance ..) => none
  | .session (.pushAudio ..) => none
  | .session (.endUtterance ..) => none
  | .session .makeToken => none
  | .session (.cancelToken _) => none
  | .session a => (s.session.step soxr a).map fun session => { s with session := session }

/-- The stack as it is wired, once the session is up. -/
def initial (cfg : PipelineConfig) (aecActive : Bool) (frontEnd : ρ) (capacity : Nat)
    (policy : OverflowPolicy) (language : Bytes) : SttStack ρ σ where
  pipeline := (AudioPipeline.create cfg aecActive frontEnd).setLiveAudioSink
  started := { capacity := capacity, policy := policy }
  ended := { capacity := capacity, policy := policy }
  session := { client := { cfgLanguage := language, state := .ready, channel := true } }

end SttStack

end Acva.Orchestrator
