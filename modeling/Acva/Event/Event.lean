import Mathlib.Data.List.Basic

/-! # Control-bus events

The alternatives of the event variant, each with the fields that some modelled
function reads. Text travels as bytes, since the sentence splitter and the SSE
parser work byte by byte. Audio frames do not travel through the bus.
-/

namespace Acva

/-- The contents of a `std::string`. -/
abbrev Bytes := List UInt8

/-- A character literal of the source, all of which are ASCII. -/
def byte (c : Char) : UInt8 := c.toNat.toUInt8

/-- A string literal of the source. -/
def ascii (s : String) : Bytes := s.toList.map byte

/-- Turn ids count up from 1 and never wrap here: the source's counter is 64 bits wide. -/
abbrev TurnId := Nat

/-- The turn field of an event that belongs to no turn. -/
def kNoTurn : TurnId := 0

/-- Position of a sentence inside its turn. Unbounded here, 32 bits wide in the source. -/
abbrev SequenceNo := Nat

/-- A `steady_clock` reading in nanoseconds; a default-constructed one is the epoch. -/
abbrev TimePoint := Int

/-! ## Speech and STT events -/

structure SpeechStarted where
  turn : TurnId := kNoTurn
  ts : TimePoint := 0
deriving DecidableEq, Repr

structure SpeechEnded where
  turn : TurnId := kNoTurn
  ts : TimePoint := 0
deriving DecidableEq, Repr

structure UtteranceReady where
  turn : TurnId := kNoTurn
deriving DecidableEq, Repr

structure PartialTranscript where
  turn : TurnId := kNoTurn
  text : Bytes := []
  lang : Bytes := []
  stablePrefixLen : Nat := 0
  seq : SequenceNo := 0
deriving DecidableEq, Repr

structure FinalTranscript where
  turn : TurnId := kNoTurn
  text : Bytes := []
  lang : Bytes := []
deriving DecidableEq, Repr

/-! ## LLM, TTS and playback events -/

structure LlmStarted where
  turn : TurnId := kNoTurn
deriving DecidableEq, Repr

structure LlmToken where
  turn : TurnId := kNoTurn
  token : Bytes := []
deriving DecidableEq, Repr

/-- Published by the dialogue manager when the splitter completes a sentence. -/
structure LlmSentence where
  turn : TurnId := kNoTurn
  seq : SequenceNo := 0
  text : Bytes := []
  lang : Bytes := []
deriving DecidableEq, Repr

structure LlmFinished where
  turn : TurnId := kNoTurn
  cancelled : Bool := false
  tokensGenerated : Nat := 0
deriving DecidableEq, Repr

structure TtsStarted where
  turn : TurnId := kNoTurn
  seq : SequenceNo := 0
deriving DecidableEq, Repr

structure TtsAudioChunk where
  turn : TurnId := kNoTurn
  seq : SequenceNo := 0
  bytes : Nat := 0
deriving DecidableEq, Repr

structure TtsFinished where
  turn : TurnId := kNoTurn
  seq : SequenceNo := 0
deriving DecidableEq, Repr

structure PlaybackStarted where
  turn : TurnId := kNoTurn
  seq : SequenceNo := 0
deriving DecidableEq, Repr

structure PlaybackFinished where
  turn : TurnId := kNoTurn
  seq : SequenceNo := 0
deriving DecidableEq, Repr

/-! ## Control and system events -/

structure UserInterrupted where
  turn : TurnId := kNoTurn
  ts : TimePoint := 0
deriving DecidableEq, Repr

structure CancelGeneration where
  turn : TurnId := kNoTurn
deriving DecidableEq, Repr

structure ErrorEvent where
  component : Bytes := []
  message : Bytes := []
deriving DecidableEq, Repr

inductive HealthState
  | unknown
  | healthy
  | degraded
  | unhealthy
deriving DecidableEq, Repr

structure HealthChanged where
  service : Bytes := []
  state : HealthState := .unknown
  detail : Bytes := []
deriving DecidableEq, Repr

/-! ## The variant -/

/-- Everything that flows on the control bus. -/
inductive Event
  | speechStarted (e : SpeechStarted)
  | speechEnded (e : SpeechEnded)
  | utteranceReady (e : UtteranceReady)
  | partialTranscript (e : PartialTranscript)
  | finalTranscript (e : FinalTranscript)
  | llmStarted (e : LlmStarted)
  | llmToken (e : LlmToken)
  | llmSentence (e : LlmSentence)
  | llmFinished (e : LlmFinished)
  | ttsStarted (e : TtsStarted)
  | ttsAudioChunk (e : TtsAudioChunk)
  | ttsFinished (e : TtsFinished)
  | playbackStarted (e : PlaybackStarted)
  | playbackFinished (e : PlaybackFinished)
  | userInterrupted (e : UserInterrupted)
  | cancelGeneration (e : CancelGeneration)
  | pause
  | resume
  | error (e : ErrorEvent)
  | healthChanged (e : HealthChanged)
deriving DecidableEq, Repr

/-- The alternative an event holds, which is what a typed subscription matches on. -/
inductive EventKind
  | speechStarted
  | speechEnded
  | utteranceReady
  | partialTranscript
  | finalTranscript
  | llmStarted
  | llmToken
  | llmSentence
  | llmFinished
  | ttsStarted
  | ttsAudioChunk
  | ttsFinished
  | playbackStarted
  | playbackFinished
  | userInterrupted
  | cancelGeneration
  | pause
  | resume
  | error
  | healthChanged
deriving DecidableEq, Repr

namespace Event

def kind : Event → EventKind
  | .speechStarted _ => .speechStarted
  | .speechEnded _ => .speechEnded
  | .utteranceReady _ => .utteranceReady
  | .partialTranscript _ => .partialTranscript
  | .finalTranscript _ => .finalTranscript
  | .llmStarted _ => .llmStarted
  | .llmToken _ => .llmToken
  | .llmSentence _ => .llmSentence
  | .llmFinished _ => .llmFinished
  | .ttsStarted _ => .ttsStarted
  | .ttsAudioChunk _ => .ttsAudioChunk
  | .ttsFinished _ => .ttsFinished
  | .playbackStarted _ => .playbackStarted
  | .playbackFinished _ => .playbackFinished
  | .userInterrupted _ => .userInterrupted
  | .cancelGeneration _ => .cancelGeneration
  | .pause => .pause
  | .resume => .resume
  | .error _ => .error
  | .healthChanged _ => .healthChanged

theorem eq_speechStarted_of_kind {e : Event} (h : e.kind = .speechStarted) :
    ∃ s, e = .speechStarted s := by
  cases e with
  | speechStarted s => exact ⟨s, rfl⟩
  | _ => cases h

theorem eq_userInterrupted_of_kind {e : Event} (h : e.kind = .userInterrupted) :
    ∃ i, e = .userInterrupted i := by
  cases e with
  | userInterrupted i => exact ⟨i, rfl⟩
  | _ => cases h

end Event

end Acva
