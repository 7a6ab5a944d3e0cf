import Acva.Config.Aliases
import Acva.Config.Validate

/-! # Loading a configuration, and the voice of a language

A configuration is parsed, its aliases are resolved, and it is validated. What is
accepted has a voice for every language: one of its own, or that of the language to fall
back to. The reader of YAML is not the program's own and is a parameter, which gives a
configuration or the text of its error.
-/

namespace Acva

open Config

namespace Config

/-- `load_from_string`. -/
def loadFromString (readYaml : Bytes → Except Bytes Config) (yaml : Bytes) :
    Except LoadError Config :=
  match readYaml yaml with
  | .error text => .error { message := ascii "config: parse error: " ++ text }
  | .ok cfg =>
      let cfg := resolveAliases cfg
      match validate cfg with
      | some err => .error err
      | none => .ok cfg

/-- What is accepted is resolved and valid. -/
theorem loadFromString_eq_ok {readYaml : Bytes → Except Bytes Config} {yaml : Bytes}
    {cfg : Config} (h : loadFromString readYaml yaml = .ok cfg) :
    ∃ parsed, readYaml yaml = .ok parsed ∧ cfg = resolveAliases parsed ∧ validate cfg = none := by
  unfold loadFromString at h
  cases hread : readYaml yaml with
  | error text =>
      rw [hread] at h
      cases h
  | ok parsed =>
      rw [hread] at h
      dsimp only at h
      cases hvalid : validate (resolveAliases parsed) with
      | some err =>
          rw [hvalid] at h
          cases h
      | none =>
          rw [hvalid] at h
          cases h
          exact ⟨parsed, rfl, rfl, hvalid⟩

/-- A language has a resolved voice only if it has a voice. -/
theorem resolveAliases_voicesResolved (cfg : Config) (lang : Bytes) :
    (resolveAliases cfg).tts.voicesResolved[lang]? =
      (resolveAliases cfg).tts.voices[lang]?.bind (ttsAlias (resolveAliases cfg).models) := by
  simp only [resolveAliases, resolveModels, resolveVoices, Maps.getElem?_insertAll,
    Std.ExtTreeMap.getElem?_empty, Option.or_none]

end Config

namespace Tts

structure VoiceRoute where
  modelId : Bytes := []
  voiceId : Bytes := []
deriving DecidableEq, Repr

def routeFor (cfg : TtsConfig) (lang : Bytes) : VoiceRoute :=
  match cfg.voicesResolved[lang]? with
  | some voice => { modelId := voice.modelId, voiceId := voice.voiceId }
  | none =>
      match cfg.voicesResolved[cfg.fallbackLang]? with
      | some voice => { modelId := voice.modelId, voiceId := voice.voiceId }
      | none => {}

/-- Whatever the language, the route of valid voices names a model and a voice. -/
theorem routeFor_complete {cfg : TtsConfig} (hvalid : VoicesValid cfg)
    (hresolved : ∀ (lang : Bytes) (voice : TtsVoice), cfg.voicesResolved[lang]? = some voice →
      ∃ voiceAlias : Bytes, cfg.voices[lang]? = some voiceAlias)
    (hvoices : cfg.voices ≠ ∅) (lang : Bytes) :
    (routeFor cfg lang).modelId ≠ [] ∧ (routeFor cfg lang).voiceId ≠ [] := by
  unfold routeFor
  cases hown : cfg.voicesResolved[lang]? with
  | some voice =>
      obtain ⟨voiceAlias, halias⟩ := hresolved lang voice hown
      obtain ⟨found, hfound, hmodel, hvoice⟩ := hvalid.resolved lang voiceAlias halias
      rw [hown] at hfound
      cases hfound
      exact ⟨hmodel, hvoice⟩
  | none =>
      obtain ⟨voiceAlias, halias⟩ := hvalid.fallback hvoices
      obtain ⟨found, hfound, hmodel, hvoice⟩ := hvalid.resolved _ voiceAlias halias
      rw [hfound]
      exact ⟨hmodel, hvoice⟩

/-- A configuration that is accepted with voices can speak every language. -/
theorem routeFor_loaded (readYaml : Bytes → Except Bytes Config) (yaml : Bytes) (cfg : Config)
    (hload : loadFromString readYaml yaml = .ok cfg) (hvoices : cfg.tts.voices ≠ ∅)
    (lang : Bytes) :
    (routeFor cfg.tts lang).modelId ≠ [] ∧ (routeFor cfg.tts lang).voiceId ≠ [] := by
  obtain ⟨parsed, -, rfl, hvalid⟩ := loadFromString_eq_ok hload
  refine routeFor_complete (voicesValid_of_validate hvalid) (fun lang voice hresolved => ?_)
    hvoices lang
  rw [resolveAliases_voicesResolved] at hresolved
  obtain ⟨voiceAlias, halias, -⟩ := Option.bind_eq_some_iff.mp hresolved
  exact ⟨voiceAlias, halias⟩

/-- The voice comes from the personality, its model from the registry. -/
def benderYaml : Bytes :=
  ascii "active_personality: bender\n" ++
    ascii "personalities: \x7bbender: \x7bvoices: \x7ben: en-joe\x7d\x7d\x7d\n" ++
    ascii "models: \x7btts: \x7ben-joe: \x7bid: piper-en_US-joe-medium, voice: joe\x7d\x7d\x7d\n" ++
    ascii "tts: \x7bbase_url: 'http://127.0.0.1:8090/v1'\x7d\n"

def bender : Config :=
  let voices := (∅ : StringMap Bytes).insert (ascii "en") (ascii "en-joe")
  let joe : TtsModelEntry := { id := ascii "piper-en_US-joe-medium", voice := ascii "joe" }
  { activePersonality := ascii "bender"
    personalities := (∅ : StringMap Personality).insert (ascii "bender") { voices := voices }
    models := { tts := (∅ : StringMap TtsModelEntry).insert (ascii "en-joe") joe }
    tts := { baseUrl := ascii "http://127.0.0.1:8090/v1" } }

def readBender (yaml : Bytes) : Except Bytes Config :=
  if yaml = benderYaml then .ok bender else .error (ascii "syntax_error")

theorem routeFor_loaded_bender :
    loadFromString readBender benderYaml = .ok (resolveAliases bender) ∧
      (routeFor (resolveAliases bender).tts (ascii "ru")).modelId ≠ [] ∧
      (routeFor (resolveAliases bender).tts (ascii "ru")).voiceId ≠ [] := by
  have hvalid : validate (resolveAliases bender) = none := by decide +kernel
  have hload : loadFromString readBender benderYaml = .ok (resolveAliases bender) := by
    simp only [loadFromString, readBender, ↓reduceIte, hvalid]
  exact ⟨hload, routeFor_loaded readBender benderYaml _ hload (by decide +kernel) (ascii "ru")⟩

end Tts

end Acva
