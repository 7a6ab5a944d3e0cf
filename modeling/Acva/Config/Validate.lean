import Acva.Config.Config
import Mathlib.Data.List.Infix

/-! # The validation

The checks are made one after the other, and the first that fails is the result. A NaN
meets none of the comparisons that are errors.
-/

namespace Acva.Config

/-! ## A check -/

/-- The text of an error, if it is one. -/
def failIf (bad : Bool) (text : Bytes) : Option LoadError :=
  if bad = true then some { message := ascii "config: " ++ text } else none

def positive (field : Bytes) (n : Nat) : Option LoadError :=
  failIf (n = 0) (field ++ ascii ": must be > 0")

def oneOf (names : List String) (value text : Bytes) : Option LoadError :=
  failIf (names.all fun name => value ≠ ascii name) text

/-- A value outside a closed interval. -/
def outside (low high : Rat) (x : Double) : Bool := x.lt (.finite low) || (Double.finite high).lt x

/-- `url.find("://") == npos`. -/
def lacksScheme (url : Bytes) : Bool := ¬ ascii "://" <:+: url

/-- U+2014. -/
def emDash : Bytes := [0xe2, 0x80, 0x94]

/-! ## The sections' checks, in order -/

def validateLogging (c : LoggingConfig) : Option LoadError :=
  oneOf ["trace", "debug", "info", "warn", "error", "critical", "off"] c.level
      (ascii "logging.level: invalid value '" ++ c.level ++ ascii "'")
    <|> oneOf ["stderr", "journal", "file", "dir"] c.sink
      (ascii "logging.sink: invalid value '" ++ c.sink ++ ascii "'")
    <|> failIf (c.sink = ascii "file" ∧ c.filePath = none)
      (ascii "logging.sink='file' requires logging.file_path")
    <|> failIf (c.sink = ascii "dir" ∧ c.dirPath = none)
      (ascii "logging.sink='dir' requires logging.dir_path")

def validateControl (c : ControlConfig) : Option LoadError :=
  failIf (c.port = 0) (ascii "control.port: must be non-zero")

def validatePipeline (c : PipelineConfig) : Option LoadError :=
  failIf (outside 0 1 c.fakeBargeInProbability)
      (ascii "pipeline.fake_barge_in_probability: must be in [0, 1]")
    <|> positive (ascii "pipeline.fake_sentences_per_turn") c.fakeSentencesPerTurn.toNat

def validateLlm (c : LlmConfig) : Option LoadError :=
  failIf (outside 0 2 c.temperature) (ascii "llm.temperature: must be in [0, 2]")
    <|> failIf (c.topP.le (.finite 0) || (Double.finite 1).lt c.topP)
      (ascii "llm.top_p: must be in (0, 1]")
    <|> failIf (outside 0 2 c.repeatPenalty) (ascii "llm.repeat_penalty: must be in [0, 2]")
    <|> positive (ascii "llm.max_tokens") c.maxTokens.toNat
    <|> positive (ascii "llm.max_prompt_tokens") c.maxPromptTokens.toNat

def validateMemory (c : MemoryConfig) : Option LoadError :=
  positive (ascii "memory.recent_turns_n") c.recentTurnsN.toNat
    <|> oneOf ["turns", "tokens", "idle", "hybrid"] c.summary.trigger
      (ascii "memory.summary.trigger: must be one of turns|tokens|idle|hybrid")
    <|> oneOf ["conservative", "moderate", "aggressive", "manual_only"] c.facts.policy
      (ascii "memory.facts.policy: must be conservative|moderate|aggressive|manual_only")

/-- A service that is not probed may have any settings. -/
def validateHealth (name : String) (h : ServiceHealthConfig) : Option LoadError :=
  if h.healthUrl = [] then none
  else
    positive (ascii name ++ ascii ".health.probe_interval_healthy_ms")
        h.probeIntervalHealthyMs.toNat
      <|> positive (ascii name ++ ascii ".health.probe_interval_degraded_ms")
        h.probeIntervalDegradedMs.toNat
      <|> positive (ascii name ++ ascii ".health.degraded_max_failures")
        h.degradedMaxFailures.toNat

def validateSystemPrompts (c : DialogueConfig) : Option LoadError :=
  failIf (¬ c.systemPrompts.isEmpty ∧ ¬ c.systemPrompts.contains c.fallbackLanguage)
    (ascii "dialogue.system_prompts: must contain an entry for the fallback_language ('" ++
      c.fallbackLanguage ++ ascii "')")

/-- A tempo of zero leaves the field out of the request. -/
def validateTempo (c : TtsConfig) : Option LoadError :=
  positive (ascii "tts.request_timeout_seconds") c.requestTimeoutSeconds.toNat
    <|> failIf (c.tempoWpm ≠ 0 ∧ (c.tempoWpm < 50 ∨ 400 < c.tempoWpm))
      (ascii "tts.tempo_wpm: must be 0 or in [50, 400]")

def validateStt (c : SttConfig) : Option LoadError :=
  if c.baseUrl = [] then none
  else
    failIf (lacksScheme c.baseUrl) (ascii "stt.base_url: must include scheme (http://...)")
      <|> failIf (c.model = []) (ascii "stt.model: required when stt.base_url is set")
      <|> positive (ascii "stt.request_timeout_seconds") c.requestTimeoutSeconds.toNat

/-- One round of the loop over the voices. -/
def validateVoice (resolved : StringMap TtsVoice) (lang voiceAlias : Bytes) : Option LoadError :=
  failIf (voiceAlias = [])
      (ascii "tts.voices[" ++ lang ++ ascii "]: alias name required (e.g. en-amy, ru-irina)")
    <|> match resolved[lang]? with
      | none =>
          failIf true
            (ascii "tts.voices[" ++ lang ++ ascii "]: unknown alias '" ++ voiceAlias ++
              ascii "' " ++ emDash ++
              ascii " register it under models.tts or pick a configured one")
      | some voice =>
          failIf (voice.modelId = [] ∨ voice.voiceId = [])
            (ascii "models.tts[" ++ voiceAlias ++ ascii "]: id + voice required")

def validateVoices (c : TtsConfig) : Option LoadError :=
  failIf (¬ c.voices.isEmpty ∧ c.baseUrl = [])
      (ascii "tts.base_url: must be set when tts.voices is non-empty")
    <|> failIf (c.baseUrl ≠ [] ∧ lacksScheme c.baseUrl)
      (ascii "tts.base_url: must include scheme (http://...)")
    <|> c.voices.toList.findSome? (fun e => validateVoice c.voicesResolved e.1 e.2)
    <|> failIf (¬ c.voices.isEmpty ∧ ¬ c.voices.contains c.fallbackLang)
      (ascii "tts.fallback_lang ('" ++ c.fallbackLang ++
        ascii "') must match one of tts.voices keys")

def validateAudio (c : AudioConfig) : Option LoadError :=
  positive (ascii "audio.sample_rate_hz") c.sampleRateHz.toNat
    <|> positive (ascii "audio.buffer_frames") c.bufferFrames.toNat

def validateVad (c : VadConfig) : Option LoadError :=
  failIf (outside 0 1 c.onsetThreshold) (ascii "vad.onset_threshold: must be in [0, 1]")
    <|> failIf (outside 0 1 c.offsetThreshold) (ascii "vad.offset_threshold: must be in [0, 1]")
    <|> failIf (c.onsetThreshold.lt c.offsetThreshold)
      (ascii "vad.offset_threshold must be <= vad.onset_threshold " ++
        ascii "(otherwise the hysteresis band collapses)")
    <|> positive (ascii "vad.min_speech_ms") c.minSpeechMs.toNat
    <|> positive (ascii "vad.hangover_ms") c.hangoverMs.toNat

def validateUtterance (c : UtteranceConfig) : Option LoadError :=
  positive (ascii "utterance.max_in_flight") c.maxInFlight.toNat
    <|> positive (ascii "utterance.max_duration_ms") c.maxDurationMs.toNat

def validateApm (c : ApmConfig) : Option LoadError :=
  positive (ascii "apm.max_delay_ms") c.maxDelayMs.toNat
    <|> failIf (c.maxDelayMs < c.initialDelayEstimateMs)
      (ascii "apm.initial_delay_estimate_ms must be <= apm.max_delay_ms")

def validateBargeIn (c : BargeInConfig) : Option LoadError :=
  failIf (c.minAecErleDb.lt (.finite 0)) (ascii "barge_in.min_aec_erle_db: must be >= 0")
    <|> failIf (outside 0 1 c.minVadProbability)
      (ascii "barge_in.min_vad_probability: must be in [0, 1]")

def validatePersonality (cfg : Config) : Option LoadError :=
  failIf (cfg.activePersonality ≠ [] ∧ ¬ cfg.personalities.contains cfg.activePersonality)
    (ascii "active_personality: '" ++ cfg.activePersonality ++
      ascii "' is not a key in personalities " ++ emDash ++ ascii " pick one of the " ++
      ascii "configured presets, or leave active_personality empty")

def validate (cfg : Config) : Option LoadError :=
  validateLogging cfg.logging
    <|> validateControl cfg.control
    <|> validatePipeline cfg.pipeline
    <|> validateLlm cfg.llm
    <|> validateMemory cfg.memory
    <|> positive (ascii "dialogue.max_assistant_sentences")
      cfg.dialogue.maxAssistantSentences.toNat
    <|> validateHealth "llm" cfg.llm.health
    <|> validateHealth "stt" cfg.stt.health
    <|> validateHealth "tts" cfg.tts.health
    <|> positive (ascii "supervisor.probe_timeout_ms") cfg.supervisor.probeTimeoutMs.toNat
    <|> validateSystemPrompts cfg.dialogue
    <|> validateTempo cfg.tts
    <|> validateStt cfg.stt
    <|> validateVoices cfg.tts
    <|> validateAudio cfg.audio
    <|> positive (ascii "dialogue.max_tts_queue_sentences")
      cfg.dialogue.maxTtsQueueSentences.toNat
    <|> validateVad cfg.vad
    <|> validateUtterance cfg.utterance
    <|> positive (ascii "audio.loopback.ring_seconds") cfg.audio.loopback.ringSeconds.toNat
    <|> validateApm cfg.apm
    <|> validateBargeIn cfg.bargeIn
    <|> validatePersonality cfg

/-- The defaults pass their own checks. -/
example : validate {} = none := by decide +kernel

/-! ## The voices of a configuration that passes -/

theorem failIf_eq_none {bad : Bool} {text : Bytes} : failIf bad text = none ↔ bad = false := by
  cases bad <;> simp [failIf]

/-- Checks in a row pass if each does. -/
theorem orElse_eq_none {first rest : Option LoadError} :
    (first <|> rest) = none ↔ first = none ∧ rest = none := by
  cases first with
  | none => simp
  | some e => simp

/-- The check of one voice passes only a voice that is resolved to something. -/
theorem validateVoice_eq_none {resolved : StringMap TtsVoice} {lang voiceAlias : Bytes}
    (h : validateVoice resolved lang voiceAlias = none) :
    ∃ voice : TtsVoice, resolved[lang]? = some voice ∧ voice.modelId ≠ [] ∧ voice.voiceId ≠ [] := by
  rw [validateVoice, orElse_eq_none] at h
  have hfound := h.2
  cases hvoice : resolved[lang]? with
  | none =>
      rw [hvoice] at hfound
      cases failIf_eq_none.mp hfound
  | some voice =>
      rw [hvoice] at hfound
      have hnot := failIf_eq_none.mp hfound
      rw [decide_eq_false_iff_not, not_or] at hnot
      exact ⟨voice, rfl, hnot.1, hnot.2⟩

/-- What the validation says about the voices. -/
structure VoicesValid (c : TtsConfig) : Prop where
  resolved : ∀ lang voiceAlias : Bytes, c.voices[lang]? = some voiceAlias →
    ∃ voice : TtsVoice, c.voicesResolved[lang]? = some voice ∧
      voice.modelId ≠ [] ∧ voice.voiceId ≠ []
  fallback : c.voices ≠ ∅ → ∃ voiceAlias : Bytes, c.voices[c.fallbackLang]? = some voiceAlias

theorem validateVoices_eq_none {c : TtsConfig} (h : validateVoices c = none) : VoicesValid c := by
  simp only [validateVoices, orElse_eq_none, List.findSome?_eq_none_iff] at h
  obtain ⟨-, -, hloop, hfallback⟩ := h
  refine ⟨fun lang voiceAlias hvoice => ?_, fun hvoices => ?_⟩
  · have hmem := Std.ExtTreeMap.mem_toList_iff_getElem?_eq_some.mpr hvoice
    exact validateVoice_eq_none (hloop _ hmem)
  · have hnot := failIf_eq_none.mp hfallback
    rw [decide_eq_false_iff_not, not_and, not_not] at hnot
    have hmem : c.fallbackLang ∈ c.voices :=
      Std.ExtTreeMap.mem_iff_contains.mpr (hnot (by simpa using hvoices))
    exact Option.isSome_iff_exists.mp (Std.ExtTreeMap.mem_iff_isSome_getElem?.mp hmem)

theorem voicesValid_of_validate {cfg : Config} (h : validate cfg = none) :
    VoicesValid cfg.tts := by
  apply validateVoices_eq_none
  simp only [validate, orElse_eq_none] at h
  simp only [h]

end Acva.Config
