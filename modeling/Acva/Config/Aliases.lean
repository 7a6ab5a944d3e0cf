import Acva.Config.Config

/-! # Personalities and aliases

When a configuration is loaded the active personality is laid over the other sections,
then the names of models are replaced by what the registries say they stand for. All of
it may be done twice but for a name that stands for another registered name.
-/

namespace Acva.Config

open Maps

/-! ## What is done -/

/-- Lay a personality's fields over the sections'. -/
def overlayPersonality (p : Personality) (cfg : Config) : Config :=
  { cfg with
    dialogue := { cfg.dialogue with
      systemPrompts := overlay p.systemPrompts cfg.dialogue.systemPrompts
      maxAssistantSentences :=
        p.dialogue.maxAssistantSentences.getD cfg.dialogue.maxAssistantSentences
      maxAssistantTokens := p.dialogue.maxAssistantTokens.getD cfg.dialogue.maxAssistantTokens
      sentenceSplitter := { cfg.dialogue.sentenceSplitter with
        maxSentenceChars :=
          p.dialogue.maxSentenceChars.getD cfg.dialogue.sentenceSplitter.maxSentenceChars } }
    tts := { cfg.tts with
      voices := overlay p.voices cfg.tts.voices
      tempoWpm := p.tempoWpm.getD cfg.tts.tempoWpm }
    llm := { cfg.llm with
      temperature := p.llm.temperature.getD cfg.llm.temperature
      topP := p.llm.topP.getD cfg.llm.topP
      repeatPenalty := p.llm.repeatPenalty.getD cfg.llm.repeatPenalty } }

/-- The personality that is active; one that does not exist is left to the validation. -/
def findPersonality (cfg : Config) : Option Personality :=
  if cfg.activePersonality = [] then none else cfg.personalities[cfg.activePersonality]?

def applyActivePersonality (cfg : Config) : Config :=
  match findPersonality cfg with
  | none => cfg
  | some p => overlayPersonality p cfg

/-- The id that an alias of `models.stt` stands for. -/
def sttAlias (models : ModelsConfig) (model : Bytes) : Option Bytes :=
  models.stt[model]?.map SttModelEntry.id

def sileroPath (file : Bytes) : Bytes := ascii "models/silero/" ++ file

/-- The path that an alias of `models.vad` stands for. -/
def vadAlias (models : ModelsConfig) (modelPath : Bytes) : Option Bytes :=
  models.vad[modelPath]?.map fun entry => sileroPath entry.file

def ttsAlias (models : ModelsConfig) (voiceAlias : Bytes) : Option TtsVoice :=
  models.tts[voiceAlias]?.map fun entry => { modelId := entry.id, voiceId := entry.voice }

/-- A voice whose alias is not registered is skipped. -/
def resolveVoices (models : ModelsConfig) (voices : StringMap Bytes) : StringMap TtsVoice :=
  insertAll (fun _ voiceAlias => ttsAlias models voiceAlias) voices ∅

/-- The alias of the LLM is looked up as well, but nothing is done with what it stands for. -/
def resolveModels (cfg : Config) : Config :=
  { cfg with
    stt := { cfg.stt with model := rename (sttAlias cfg.models) cfg.stt.model }
    vad := { cfg.vad with modelPath := rename (vadAlias cfg.models) cfg.vad.modelPath }
    tts := { cfg.tts with voicesResolved := resolveVoices cfg.models cfg.tts.voices } }

def resolveAliases (cfg : Config) : Config := resolveModels (applyActivePersonality cfg)

/-! ## Twice -/

theorem getD_getD {α : Type} (o : Option α) (x : α) : o.getD (o.getD x) = o.getD x := by
  cases o <;> rfl

theorem overlayPersonality_twice (p : Personality) (cfg : Config) :
    overlayPersonality p (overlayPersonality p cfg) = overlayPersonality p cfg := by
  simp only [overlayPersonality, overlay_overlay, getD_getD]

/-- A configuration is done with its personality when nothing of it is left to be laid over. -/
theorem applyActivePersonality_eq_self_iff (cfg : Config) :
    applyActivePersonality cfg = cfg ↔
      ∀ p, findPersonality cfg = some p → overlayPersonality p cfg = cfg := by
  unfold applyActivePersonality
  cases findPersonality cfg with
  | none => simp
  | some p => simp

theorem applyActivePersonality_twice (cfg : Config) :
    applyActivePersonality (applyActivePersonality cfg) = applyActivePersonality cfg := by
  cases hp : findPersonality cfg with
  | none =>
      have hone : applyActivePersonality cfg = cfg := by
        rw [applyActivePersonality, hp]
      rw [hone, hone]
  | some p =>
      have hone : applyActivePersonality cfg = overlayPersonality p cfg := by
        rw [applyActivePersonality, hp]
      have hsame : findPersonality (overlayPersonality p cfg) = some p := hp
      rw [hone, applyActivePersonality_eq_self_iff, hsame]
      rintro _ ⟨⟩
      exact overlayPersonality_twice p cfg

/-- What the aliases are replaced by is nothing a personality reads. -/
theorem applyActivePersonality_resolveModels {cfg : Config}
    (h : applyActivePersonality cfg = cfg) :
    applyActivePersonality (resolveModels cfg) = resolveModels cfg := by
  rw [applyActivePersonality_eq_self_iff] at h ⊢
  intro p hp
  have hover := h p hp
  have hthrough : overlayPersonality p (resolveModels cfg) =
      { resolveModels cfg with
        dialogue := (overlayPersonality p cfg).dialogue
        tts := { (overlayPersonality p cfg).tts with
          voicesResolved := resolveVoices cfg.models cfg.tts.voices }
        llm := (overlayPersonality p cfg).llm } := rfl
  rw [hthrough, hover]
  rfl

theorem resolveModels_twice_iff (cfg : Config) :
    resolveModels (resolveModels cfg) = resolveModels cfg ↔
      rename (sttAlias cfg.models) (rename (sttAlias cfg.models) cfg.stt.model) =
          rename (sttAlias cfg.models) cfg.stt.model ∧
        rename (vadAlias cfg.models) (rename (vadAlias cfg.models) cfg.vad.modelPath) =
          rename (vadAlias cfg.models) cfg.vad.modelPath := by
  constructor
  · intro h
    exact ⟨congrArg (fun c : Config => c.stt.model) h,
      congrArg (fun c : Config => c.vad.modelPath) h⟩
  · rintro ⟨hstt, hvad⟩
    simp only [resolveModels, hstt, hvad]

/-- A personality lays nothing over the names of these models. -/
theorem applyActivePersonality_models (cfg : Config) :
    (applyActivePersonality cfg).models = cfg.models ∧
      (applyActivePersonality cfg).stt = cfg.stt ∧
      (applyActivePersonality cfg).vad = cfg.vad := by
  unfold applyActivePersonality
  split
  · exact ⟨rfl, rfl, rfl⟩
  · exact ⟨rfl, rfl, rfl⟩

/-- Resolving twice is resolving once, unless the id or the path that an alias stands for is
registered as an alias of something else. -/
theorem resolveAliases_twice_iff (cfg : Config) :
    resolveAliases (resolveAliases cfg) = resolveAliases cfg ↔
      (∀ entry, cfg.models.stt[cfg.stt.model]? = some entry →
        ∀ next, cfg.models.stt[entry.id]? = some next → next.id = entry.id) ∧
      ∀ entry, cfg.models.vad[cfg.vad.modelPath]? = some entry →
        ∀ next, cfg.models.vad[sileroPath entry.file]? = some next → next.file = entry.file := by
  obtain ⟨hmodels, hstt, hvad⟩ := applyActivePersonality_models cfg
  have honce : resolveAliases (resolveAliases cfg) =
      resolveModels (resolveModels (applyActivePersonality cfg)) := by
    rw [resolveAliases, resolveAliases,
      applyActivePersonality_resolveModels (applyActivePersonality_twice cfg)]
  have hpath : ∀ file file', sileroPath file = sileroPath file' ↔ file = file' :=
    fun file file' => List.append_right_inj _
  rw [honce, resolveAliases, resolveModels_twice_iff, rename_rename_eq_iff, rename_rename_eq_iff,
    hmodels, hstt, hvad]
  simp only [sttAlias, vadAlias, Option.map_eq_some_iff, forall_exists_index, and_imp,
    forall_apply_eq_imp_iff₂, hpath]

/-! ## A chain of aliases -/

/-- The short name stands for one that is registered as well. -/
def chained : Config :=
  let stt := (∅ : StringMap SttModelEntry).insert (ascii "fast") { id := ascii "small" }
  let stt := stt.insert (ascii "small") { id := ascii "Systran/faster-whisper-small" }
  { models := { stt := stt }, stt := { model := ascii "fast" } }

/-- Once gives the other short name, twice what that stands for. -/
theorem resolveAliases_chained :
    resolveAliases (resolveAliases chained) ≠ resolveAliases chained := by
  intro h
  have hmodel := congrArg (fun c : Config => c.stt.model) h
  revert hmodel
  decide

end Acva.Config
