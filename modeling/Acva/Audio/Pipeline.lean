import Acva.Audio.Endpointer
import Acva.Audio.Utterance
import Acva.Core.Runs

/-! # The audio pipeline

From captured frames to utterances, on one worker thread. What leaves the thread
(the blocks for the echo canceller, the calls of the live sink, the publishes) is
an output of the frame it happens in, in the order it is done. The energy gate
compares squares instead of roots, without rounding.
-/

namespace Acva.Audio

open Acva.Playback Acva.Runs

structure AudioFrame where
  samples : List Sample
  capturedAt : TimePoint
deriving DecidableEq, Repr

/-- soxr, the audio processing module and the voice detector, over one state. There is no
detector where its model did not load. -/
structure FrontEnd (ρ : Type) where
  soxr : List Sample → ρ → List Sample × ρ
  apm : List Sample → TimePoint → ρ → List Sample × ρ
  vad : Option (List Sample → ρ → ℚ × ρ)

/-- `Resampler::process`. -/
def FrontEnd.resample {ρ : Type} (ext : FrontEnd ρ) (samples : List Sample) (r : ρ) :
    List Sample × ρ :=
  if samples = [] then ([], r) else ext.soxr samples r

/-- What leaves the worker. -/
inductive PipelineOutput
  | apmBlock (block : List Sample)
  | live (samples : List Sample)
  | publish (e : Event)
  /-- The publish of an `UtteranceReady` with its slice. -/
  | utteranceReady (slice : AudioSlice)
deriving DecidableEq, Repr

structure PipelineConfig where
  outputSampleRate : Nat := 16000
  endpointer : EndpointerConfig := {}
  prePaddingMs : Int := 300
  postPaddingMs : Int := 100
  maxInFlight : Nat := 3
  maxDurationMs : Int := 60000
  minUtteranceRms : Nat := 0

/-- `aecActive` says that there is an APM and it cancels echo. A negative test
probability is no override. -/
structure AudioPipeline (ρ : Type) where
  outputSampleRate : Nat := 16000
  prePaddingMs : Int := 300
  minUtteranceRms : Nat := 0
  aecActive : Bool := false
  liveSink : Bool := false
  frontEnd : ρ
  endpointer : Endpointer := {}
  utteranceBuffer : UtteranceBuffer := {}
  lastVadP : ℚ := 0
  testProbability : ℚ := -1
  apmCarry : List Sample := []
  inSpeech : Bool := false
  framesProcessed : Nat := 0
  utterancesTotal : Nat := 0
  falseStartsTotal : Nat := 0
  lowRmsDropsTotal : Nat := 0

/-- The locals of the echo canceller's loop. -/
structure Cleaning (ρ : Type) where
  cleaned : List Sample := []
  carry : List Sample
  blocks : List (List Sample) := []
  frontEnd : ρ

/-- What can happen to a pipeline between two frames is a call of
`set_test_probability` or a consumer that lets go of a slice. -/
inductive PipelineAction
  | frame (frame : AudioFrame)
  | setTestProbability (probability : ℚ)
  | release (ref : SliceRef)

namespace AudioPipeline

variable {ρ : Type}

def create (cfg : PipelineConfig) (aecActive : Bool) (frontEnd : ρ) : AudioPipeline ρ where
  outputSampleRate := cfg.outputSampleRate
  prePaddingMs := cfg.prePaddingMs
  minUtteranceRms := cfg.minUtteranceRms
  aecActive := aecActive
  frontEnd := frontEnd
  endpointer := { cfg := cfg.endpointer }
  utteranceBuffer := {
    sampleRate := cfg.outputSampleRate
    prePaddingMs := cfg.prePaddingMs
    postPaddingMs := cfg.postPaddingMs
    maxInFlight := cfg.maxInFlight
    maxDurationMs := cfg.maxDurationMs }

def setLiveAudioSink (p : AudioPipeline ρ) : AudioPipeline ρ := { p with liveSink := true }

/-! ## The front end -/

/-- Samples in 10 ms. -/
def apmFrameSamples (p : AudioPipeline ρ) : Nat := p.outputSampleRate / 100

/-- The loop over whole blocks; each round takes samples off the carry. -/
def cleanBlocks (ext : FrontEnd ρ) (n : Nat) (capturedAt : TimePoint) :
    Nat → Cleaning ρ → Cleaning ρ
  | 0, c => c
  | fuel + 1, c =>
      if n ≤ c.carry.length then
        let (out, frontEnd) := ext.apm (c.carry.take n) capturedAt c.frontEnd
        cleanBlocks ext n capturedAt fuel {
          cleaned := c.cleaned ++ out
          carry := c.carry.drop n
          blocks := c.blocks ++ [c.carry.take n]
          frontEnd := frontEnd }
      else c

def echoCancel (ext : FrontEnd ρ) (resampled : List Sample) (capturedAt : TimePoint)
    (p : AudioPipeline ρ) : Cleaning ρ :=
  let carry := p.apmCarry ++ resampled
  cleanBlocks ext p.apmFrameSamples capturedAt carry.length
    { carry := carry, frontEnd := p.frontEnd }

/-- Resampling and echo cancellation: the chunk for the rest of the pipeline, which an
empty chunk does not reach. At an output rate below 100 the loop would not end. -/
def prepare (ext : FrontEnd ρ) (frame : AudioFrame) (p : AudioPipeline ρ) :
    Option (List Sample × AudioPipeline ρ × List PipelineOutput) :=
  let (resampled, frontEnd) := ext.resample frame.samples p.frontEnd
  let p := { p with framesProcessed := p.framesProcessed + 1, frontEnd := frontEnd }
  if resampled = [] ∨ p.aecActive = false then some (resampled, p, [])
  else if p.apmFrameSamples = 0 then none
  else
    let c := p.echoCancel ext resampled frame.capturedAt
    some (c.cleaned, { p with apmCarry := c.carry, frontEnd := c.frontEnd },
      c.blocks.map .apmBlock)

/-! ## One chunk -/

def updateVad (ext : FrontEnd ρ) (chunk : List Sample) (p : AudioPipeline ρ) :
    AudioPipeline ρ :=
  match ext.vad with
  | some vad =>
      let (probability, frontEnd) := vad chunk p.frontEnd
      { p with lastVadP := probability, frontEnd := frontEnd }
  | none => p

def overrideVad (p : AudioPipeline ρ) : AudioPipeline ρ :=
  if 0 ≤ p.testProbability then { p with lastVadP := p.testProbability } else p

/-- Append, detect, endpoint. -/
def hear (ext : FrontEnd ρ) (chunk : List Sample) (capturedAt : TimePoint)
    (p : AudioPipeline ρ) : AudioPipeline ρ × FrameOutcome :=
  let p := { p with utteranceBuffer := p.utteranceBuffer.append chunk }
  let p := (p.updateVad ext chunk).overrideVad
  let frameDur : Nat := chunk.length * 1000 / p.outputSampleRate
  let (endpointer, outcome) := p.endpointer.onFrame p.lastVadP frameDur capturedAt
  ({ p with endpointer := endpointer }, outcome)

/-- Sum of squares. -/
def energy (samples : List Sample) : Nat := (samples.map fun s => s.toInt.natAbs ^ 2).sum

def isLowRms (slice : AudioSlice) (p : AudioPipeline ρ) : Bool :=
  0 < p.minUtteranceRms && slice.samples ≠ [] &&
    energy slice.samples < p.minUtteranceRms ^ 2 * slice.samples.length

/-- The pre-padding and the chunk that matured the onset. -/
def onsetReplay (chunk : List Sample) (p : AudioPipeline ρ) : List PipelineOutput :=
  if p.liveSink = true then
    let prePad := p.utteranceBuffer.preBuffer
    (if prePad = [] then [] else [.live prePad]) ++ [.live chunk]
  else []

def startUtterance (chunk : List Sample) (capturedAt : TimePoint) (p : AudioPipeline ρ) :
    AudioPipeline ρ × List PipelineOutput :=
  ({ p with
    utteranceBuffer :=
      p.utteranceBuffer.onSpeechStarted (capturedAt - p.prePaddingMs * nsPerMs) capturedAt
    inSpeech := true },
    p.onsetReplay chunk ++ [.publish (.speechStarted { ts := capturedAt })])

def offerSlice (slice : Option AudioSlice) (p : AudioPipeline ρ) :
    AudioPipeline ρ × List PipelineOutput :=
  match slice with
  | none => (p, [])
  | some slice =>
      if p.isLowRms slice = true then ({ p with lowRmsDropsTotal := p.lowRmsDropsTotal + 1 }, [])
      else ({ p with utterancesTotal := p.utterancesTotal + 1 }, [.utteranceReady slice])

def endUtterance (capturedAt : TimePoint) (p : AudioPipeline ρ) :
    AudioPipeline ρ × List PipelineOutput :=
  let ended := p.utteranceBuffer.onSpeechEnded capturedAt
  let offered := offerSlice ended.2 { p with utteranceBuffer := ended.1, inSpeech := false }
  (offered.1, .publish (.speechEnded { ts := capturedAt }) :: offered.2)

def onOutcome (outcome : FrameOutcome) (chunk : List Sample) (capturedAt : TimePoint)
    (p : AudioPipeline ρ) : AudioPipeline ρ × List PipelineOutput :=
  match outcome with
  | .none => (p, [])
  | .speechStarted => p.startUtterance chunk capturedAt
  | .falseStart => ({ p with falseStartsTotal := p.falseStartsTotal + 1 }, [])
  | .speechEnded => p.endUtterance capturedAt

/-- In speech the chunk goes to the live sink first. -/
def processChunk (ext : FrontEnd ρ) (chunk : List Sample) (capturedAt : TimePoint)
    (p : AudioPipeline ρ) : AudioPipeline ρ × List PipelineOutput :=
  let (heard, outcome) := p.hear ext chunk capturedAt
  let (next, outs) := heard.onOutcome outcome chunk capturedAt
  (next, (if p.inSpeech = true ∧ p.liveSink = true then [.live chunk] else []) ++ outs)

/-- No result where the call does not return. -/
def processFrame (ext : FrontEnd ρ) (frame : AudioFrame) (p : AudioPipeline ρ) :
    Option (AudioPipeline ρ × List PipelineOutput) :=
  match p.prepare ext frame with
  | none => none
  | some (chunk, p, outs) =>
      if chunk = [] then some (p, outs)
      else
        let (p, more) := p.processChunk ext chunk frame.capturedAt
        some (p, outs ++ more)

/-! ## Runs -/

def step (ext : FrontEnd ρ) (p : AudioPipeline ρ) : PipelineAction → Option (AudioPipeline ρ)
  | .frame frame => (p.processFrame ext frame).map Prod.fst
  | .setTestProbability probability => some { p with testProbability := probability }
  | .release ref => some { p with utteranceBuffer := p.utteranceBuffer.release ref }

/-! ## What each part changes -/

theorem prepare_eq_some {ext : FrontEnd ρ} {frame : AudioFrame} {p q : AudioPipeline ρ}
    {chunk : List Sample} {outs : List PipelineOutput}
    (h : p.prepare ext frame = some (chunk, q, outs)) :
    q.endpointer = p.endpointer ∧ q.utteranceBuffer = p.utteranceBuffer ∧
      q.inSpeech = p.inSpeech ∧ q.liveSink = p.liveSink ∧
      ∃ blocks : List (List Sample), outs = blocks.map .apmBlock := by
  simp only [prepare] at h
  split at h
  · cases h
    exact ⟨rfl, rfl, rfl, rfl, [], rfl⟩
  · split at h
    · cases h
    · cases h
      exact ⟨rfl, rfl, rfl, rfl, _, rfl⟩

@[simp] theorem updateVad_endpointer (ext : FrontEnd ρ) (chunk : List Sample)
    (p : AudioPipeline ρ) : (p.updateVad ext chunk).endpointer = p.endpointer := by
  unfold updateVad
  split <;> rfl

@[simp] theorem updateVad_utteranceBuffer (ext : FrontEnd ρ) (chunk : List Sample)
    (p : AudioPipeline ρ) : (p.updateVad ext chunk).utteranceBuffer = p.utteranceBuffer := by
  unfold updateVad
  split <;> rfl

@[simp] theorem updateVad_liveSink (ext : FrontEnd ρ) (chunk : List Sample)
    (p : AudioPipeline ρ) : (p.updateVad ext chunk).liveSink = p.liveSink := by
  unfold updateVad
  split <;> rfl

@[simp] theorem updateVad_inSpeech (ext : FrontEnd ρ) (chunk : List Sample)
    (p : AudioPipeline ρ) : (p.updateVad ext chunk).inSpeech = p.inSpeech := by
  unfold updateVad
  split <;> rfl

theorem overrideVad_eq (p : AudioPipeline ρ) :
    ∃ probability, p.overrideVad = { p with lastVadP := probability } := by
  unfold overrideVad
  split
  · exact ⟨_, rfl⟩
  · exact ⟨p.lastVadP, rfl⟩

/-- What a chunk does before its outcome is looked at. -/
structure Heard (p : AudioPipeline ρ) (chunk : List Sample) (q : AudioPipeline ρ)
    (outcome : FrameOutcome) : Prop where
  buffer : q.utteranceBuffer = p.utteranceBuffer.append chunk
  inSpeech : q.inSpeech = p.inSpeech
  liveSink : q.liveSink = p.liveSink
  outcome : p.endpointer.Outcome (q.endpointer, outcome)

theorem hear_heard (ext : FrontEnd ρ) (chunk : List Sample) (t : TimePoint)
    (p : AudioPipeline ρ) : Heard p chunk (p.hear ext chunk t).1 (p.hear ext chunk t).2 := by
  obtain ⟨probability, hvad⟩ := overrideVad_eq (updateVad ext chunk
    { p with utteranceBuffer := p.utteranceBuffer.append chunk })
  simp only [hear, hvad]
  constructor
  · exact updateVad_utteranceBuffer ext chunk _
  · exact updateVad_inSpeech ext chunk _
  · exact updateVad_liveSink ext chunk _
  · simpa only [updateVad_endpointer] using Endpointer.onFrame_outcome _ _ _ _

/-- Only the counters differ. -/
structure Offered (p q : AudioPipeline ρ) : Prop where
  buffer : q.utteranceBuffer = p.utteranceBuffer
  inSpeech : q.inSpeech = p.inSpeech
  endpointer : q.endpointer = p.endpointer
  liveSink : q.liveSink = p.liveSink

theorem offerSlice_offered (slice : Option AudioSlice) (p : AudioPipeline ρ) :
    Offered p (p.offerSlice slice).1 := by
  unfold offerSlice
  split
  · exact ⟨rfl, rfl, rfl, rfl⟩
  · split <;> exact ⟨rfl, rfl, rfl, rfl⟩

end AudioPipeline

end Acva.Audio
