import Acva.Core.Maps
import Acva.Event.Event
import Mathlib.Data.Rat.Defs

/-! # The configuration

The sections as far as they are checked, rewritten or routed by when a configuration is
loaded. An ordered map of the source is one that is the same as another if it has the
same entries; a loop over it takes them in the order of the keys.
-/

namespace Acva.Config

abbrev StringMap (V : Type) := Std.ExtTreeMap Bytes V

/-! ## Floating point -/

/-- A `double` or `float`: a finite one is the number it stands for. -/
inductive Double
  | nan
  | negInf
  | finite (value : Rat)
  | posInf
deriving DecidableEq, Repr

namespace Double

/-- `<`, which a NaN never meets. -/
def lt : Double → Double → Bool
  | .nan, _ | _, .nan => false
  | .negInf, .negInf => false
  | .negInf, _ => true
  | .finite _, .negInf => false
  | .finite x, .finite y => x < y
  | .finite _, .posInf => true
  | .posInf, _ => false

def le : Double → Double → Bool
  | .nan, _ | _, .nan => false
  | x, y => !lt y x

end Double

/-! ## The sections -/

structure LoggingConfig where
  level : Bytes := ascii "info"
  sink : Bytes := ascii "stderr"
  filePath : Option Bytes := none
  dirPath : Option Bytes := none
deriving DecidableEq

structure ControlConfig where
  port : UInt16 := 9876
deriving DecidableEq

structure PipelineConfig where
  fakeSentencesPerTurn : UInt32 := 3
  fakeBargeInProbability : Double := .finite 0
deriving DecidableEq

structure ServiceHealthConfig where
  healthUrl : Bytes := []
  probeIntervalHealthyMs : UInt32 := 5000
  probeIntervalDegradedMs : UInt32 := 1000
  degradedMaxFailures : UInt32 := 3
deriving DecidableEq

structure LlmConfig where
  temperature : Double := .finite (7 / 10)
  topP : Double := .finite 1
  repeatPenalty : Double := .finite 1
  maxTokens : UInt32 := 400
  maxPromptTokens : UInt32 := 3000
  health : ServiceHealthConfig := {}
deriving DecidableEq

structure SttConfig where
  baseUrl : Bytes := []
  model : Bytes := []
  requestTimeoutSeconds : UInt32 := 30
  health : ServiceHealthConfig := {}
deriving DecidableEq

structure TtsVoice where
  modelId : Bytes := []
  voiceId : Bytes := []
deriving DecidableEq, Repr

structure TtsConfig where
  health : ServiceHealthConfig := {}
  baseUrl : Bytes := []
  /-- From a language to an alias of `models.tts`. -/
  voices : StringMap Bytes := ∅
  /-- Filled in when the aliases are resolved. -/
  voicesResolved : StringMap TtsVoice := ∅
  fallbackLang : Bytes := ascii "en"
  requestTimeoutSeconds : UInt32 := 10
  tempoWpm : UInt32 := 200

structure SupervisorConfig where
  probeTimeoutMs : UInt32 := 3000
deriving DecidableEq

structure MemorySummaryConfig where
  trigger : Bytes := ascii "turns"
deriving DecidableEq

structure MemoryFactsConfig where
  policy : Bytes := ascii "conservative"
deriving DecidableEq

structure MemoryConfig where
  recentTurnsN : UInt32 := 10
  summary : MemorySummaryConfig := {}
  facts : MemoryFactsConfig := {}
deriving DecidableEq

structure SentenceSplitterConfig where
  maxSentenceChars : UInt32 := 600
deriving DecidableEq

structure DialogueConfig where
  maxAssistantSentences : UInt32 := 6
  maxAssistantTokens : UInt32 := 400
  maxTtsQueueSentences : UInt32 := 3
  fallbackLanguage : Bytes := ascii "en"
  systemPrompts : StringMap Bytes := ∅
  sentenceSplitter : SentenceSplitterConfig := {}

structure AudioLoopbackConfig where
  ringSeconds : UInt32 := 2
deriving DecidableEq

structure AudioConfig where
  sampleRateHz : UInt32 := 48000
  bufferFrames : UInt32 := 480
  loopback : AudioLoopbackConfig := {}
deriving DecidableEq

structure VadConfig where
  modelPath : Bytes := []
  onsetThreshold : Double := .finite (1 / 2)
  offsetThreshold : Double := .finite (7 / 20)
  minSpeechMs : UInt32 := 200
  hangoverMs : UInt32 := 600
deriving DecidableEq

structure UtteranceConfig where
  maxInFlight : UInt32 := 3
  maxDurationMs : UInt32 := 60000
deriving DecidableEq

structure ApmConfig where
  initialDelayEstimateMs : UInt32 := 50
  maxDelayMs : UInt32 := 250
deriving DecidableEq

structure BargeInConfig where
  minAecErleDb : Double := .finite 15
  minVadProbability : Double := .finite (3 / 5)
deriving DecidableEq

/-! ## The registries -/

structure SttModelEntry where
  id : Bytes := []
deriving DecidableEq

structure TtsModelEntry where
  id : Bytes := []
  voice : Bytes := []
deriving DecidableEq

structure VadModelEntry where
  file : Bytes := []
deriving DecidableEq

structure ModelsConfig where
  stt : StringMap SttModelEntry := ∅
  tts : StringMap TtsModelEntry := ∅
  vad : StringMap VadModelEntry := ∅

structure PersonalityLlmOverride where
  temperature : Option Double := none
  topP : Option Double := none
  repeatPenalty : Option Double := none
deriving DecidableEq

structure PersonalityDialogueOverride where
  maxAssistantSentences : Option UInt32 := none
  maxAssistantTokens : Option UInt32 := none
  maxSentenceChars : Option UInt32 := none
deriving DecidableEq

structure Personality where
  systemPrompts : StringMap Bytes := ∅
  voices : StringMap Bytes := ∅
  tempoWpm : Option UInt32 := none
  llm : PersonalityLlmOverride := {}
  dialogue : PersonalityDialogueOverride := {}

end Acva.Config

namespace Acva

structure Config where
  models : Config.ModelsConfig := {}
  logging : Config.LoggingConfig := {}
  control : Config.ControlConfig := {}
  pipeline : Config.PipelineConfig := {}
  llm : Config.LlmConfig := {}
  stt : Config.SttConfig := {}
  tts : Config.TtsConfig := {}
  supervisor : Config.SupervisorConfig := {}
  memory : Config.MemoryConfig := {}
  dialogue : Config.DialogueConfig := {}
  audio : Config.AudioConfig := {}
  vad : Config.VadConfig := {}
  utterance : Config.UtteranceConfig := {}
  apm : Config.ApmConfig := {}
  bargeIn : Config.BargeInConfig := {}
  personalities : Config.StringMap Config.Personality := ∅
  /-- Where it is empty no personality is laid over the other sections. -/
  activePersonality : Bytes := []

structure LoadError where
  message : Bytes
deriving DecidableEq, Repr

end Acva
